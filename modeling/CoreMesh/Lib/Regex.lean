import Mathlib.Data.List.Basic
import Mathlib.Data.Option.Basic
import Mathlib.Tactic.Common

/-!
# Backtracking patterns

Regular expressions with look-around, matched from a place in a text with the alternatives tried in
order. What is done with a match is a continuation, so that the end of a group can be seen. Two matchings
whose places are alike for a pattern's classes have the same results.
-/

namespace Regex

universe u

def asciiDecimal (c : Char) : Bool := 48 ≤ c.toNat && c.toNat ≤ 57

def asciiAlnum (c : Char) : Bool :=
  asciiDecimal c || (65 ≤ c.toNat && c.toNat ≤ 90) || (97 ≤ c.toNat && c.toNat ≤ 122)

def asciiSpace (c : Char) : Bool :=
  (9 ≤ c.toNat && c.toNat ≤ 13) || (28 ≤ c.toNat && c.toNat ≤ 32)

/-- The characters of a kind, which are known as far as ASCII goes. -/
structure CharTable where
  isAlnum : Char → Bool
  isDecimal : Char → Bool
  isSpace : Char → Bool
  isAlnum_ascii : ∀ c, c.toNat < 128 → isAlnum c = asciiAlnum c
  isDecimal_ascii : ∀ c, c.toNat < 128 → isDecimal c = asciiDecimal c
  isSpace_ascii : ∀ c, c.toNat < 128 → isSpace c = asciiSpace c

/-- No characters beyond ASCII are of a kind. -/
def ascii : CharTable where
  isAlnum := asciiAlnum
  isDecimal := asciiDecimal
  isSpace := asciiSpace
  isAlnum_ascii _ _ := rfl
  isDecimal_ascii _ _ := rfl
  isSpace_ascii _ _ := rfl

/-- The letter that a character is when case is ignored: four letters beyond ASCII count as one. -/
def foldCase (c : Char) : Char :=
  if 'A' ≤ c ∧ c ≤ 'Z' then Char.ofNat (c.toNat + 32)
  else if c.toNat == 0x130 || c.toNat == 0x131 then 'i'
  else if c.toNat == 0x17f then 's'
  else if c.toNat == 0x212a then 'k'
  else c

inductive CharClass where
  | char (c : Char)
  | range (first last : Char)
  /-- Small letters, with case ignored. -/
  | letters (first last : Char)
  | digit
  | space
  | word
  | either (a b : CharClass)
  | other (a : CharClass)
  deriving DecidableEq

def CharClass.test (t : CharTable) : CharClass → Char → Bool
  | .char c, d => d == c
  | .range first last, d => decide (first ≤ d ∧ d ≤ last)
  | .letters first last, d => decide (first ≤ foldCase d ∧ foldCase d ≤ last)
  | .digit, d => t.isDecimal d
  | .space, d => t.isSpace d
  | .word, d => t.isAlnum d || d == '_'
  | .either a b, d => a.test t d || b.test t d
  | .other a, d => !a.test t d

inductive Pattern where
  | empty
  | one (cls : CharClass)
  | notBehind (cls : CharClass)
  | notAhead (cls : CharClass)
  | boundary
  | seq (p q : Pattern)
  | alt (p q : Pattern)
  | star (p : Pattern)

/-- A place in a text. -/
structure Cursor where
  prev : Option Char
  rest : List Char

def Cursor.consume (t : CharTable) (cls : CharClass) (s : Cursor) : Option Cursor :=
  match s.rest with
  | [] => none
  | c :: rest => if cls.test t c then some ⟨some c, rest⟩ else none

def Cursor.behind (t : CharTable) (cls : CharClass) (s : Cursor) : Bool := s.prev.any (cls.test t)

def Cursor.ahead (t : CharTable) (cls : CharClass) (s : Cursor) : Bool := s.rest.head?.any (cls.test t)

/-- As often as possible, each time with some of the text. -/
def repeated {β : Type u} (step : Cursor → (Cursor → Option β) → Option β) :
    Nat → Cursor → (Cursor → Option β) → Option β
  | 0, s, k => k s
  | n + 1, s, k =>
      (step s fun s' =>
        if s'.rest.length < s.rest.length then repeated step n s' k else none).orElse fun _ => k s

def Pattern.run {β : Type u} (t : CharTable) : Pattern → Cursor → (Cursor → Option β) → Option β
  | .empty, s, k => k s
  | .one cls, s, k => (s.consume t cls).bind k
  | .notBehind cls, s, k => if s.behind t cls then none else k s
  | .notAhead cls, s, k => if s.ahead t cls then none else k s
  | .boundary, s, k => if s.behind t .word != s.ahead t .word then k s else none
  | .seq p q, s, k => p.run t s fun s' => q.run t s' k
  | .alt p q, s, k => (p.run t s k).orElse fun _ => q.run t s k
  | .star p, s, k => repeated (p.run t) s.rest.length s k

def Pattern.classes : Pattern → List CharClass
  | .empty => []
  | .one cls => [cls]
  | .notBehind cls => [cls]
  | .notAhead cls => [cls]
  | .boundary => [.word]
  | .seq p q => p.classes ++ q.classes
  | .alt p q => p.classes ++ q.classes
  | .star p => p.classes

/-- The least number of characters that a match takes. -/
def Pattern.least : Pattern → Nat
  | .one _ => 1
  | .seq p q => p.least + q.least
  | .alt p q => min p.least q.least
  | .empty | .notBehind _ | .notAhead _ | .boundary | .star _ => 0

/-! ### Combinations -/

namespace Pattern

def power (p : Pattern) : Nat → Pattern
  | 0 => .empty
  | n + 1 => .seq p (p.power n)

def upTo (p : Pattern) : Nat → Pattern
  | 0 => .empty
  | n + 1 => .alt (.seq p (p.upTo n)) .empty

def optional (p : Pattern) : Pattern := p.upTo 1

/-- `{fewest,most}`. -/
def between (p : Pattern) (fewest most : Nat) : Pattern :=
  .seq (p.power fewest) (p.upTo (most - fewest))

/-- `{fewest,}`. -/
def atLeast (p : Pattern) (fewest : Nat) : Pattern := .seq (p.power fewest) (.star p)

def all : List Pattern → Pattern
  | [] => .empty
  | [p] => p
  | p :: rest => .seq p (all rest)

def any : Pattern → List Pattern → Pattern
  | p, [] => p
  | p, q :: rest => .alt p (any q rest)

/-- One of some characters, with a class besides. -/
def oneOf (cls : CharClass) (chars : String) : CharClass :=
  chars.toList.foldl (fun cls c => .either cls (.char c)) cls

def literal (text : String) : Pattern := all (text.toList.map fun c => .one (.char c))

/-- Small letters, with case ignored. -/
def literalAnyCase (text : String) : Pattern := all (text.toList.map fun c => .one (.letters c c))

end Pattern

/-! ### Matchings that are alike -/

section Alike

variable {t t' : CharTable} {β : Type u}

theorem repeated_none {step : Cursor → (Cursor → Option β) → Option β}
    (hstep : ∀ s, step s (fun _ => none) = none) (n : Nat) (s : Cursor) :
    repeated step n s (fun _ => none) = none := by
  induction n generalizing s with
  | zero => rfl
  | succ n ih =>
      rw [repeated]
      have hnone : (fun s' : Cursor => if s'.rest.length < s.rest.length then
          repeated step n s' (fun _ => none) else none) = fun _ => none := by
        funext s'
        rw [ih, ite_self]
      rw [hnone, hstep]
      rfl

/-- Nothing is found where nothing is wanted. -/
theorem run_none (p : Pattern) (s : Cursor) : p.run t s (fun _ => (none : Option β)) = none := by
  induction p generalizing s with
  | empty => rfl
  | one cls => rw [Pattern.run]; cases s.consume t cls <;> rfl
  | notBehind cls => rw [Pattern.run, ite_self]
  | notAhead cls => rw [Pattern.run, ite_self]
  | boundary => rw [Pattern.run, ite_self]
  | seq p q ihp ihq =>
      rw [Pattern.run]
      simp only [ihq]
      exact ihp s
  | alt p q ihp ihq => rw [Pattern.run, ihp, ihq]; rfl
  | star p ih => exact repeated_none ih _ s

/-- The bound of a repetition does not matter once it is the length of the text. -/
theorem repeated_fuel {step : Cursor → (Cursor → Option β) → Option β}
    (hstep : ∀ s, step s (fun _ => none) = none) {n m : Nat} {s : Cursor} (k : Cursor → Option β)
    (hn : s.rest.length ≤ n) (hm : s.rest.length ≤ m) : repeated step n s k = repeated step m s k := by
  induction n generalizing m s with
  | zero =>
      cases m with
      | zero => rfl
      | succ m =>
          have hend : s.rest.length = 0 := Nat.le_zero.mp hn
          simp only [repeated, hend, Nat.not_lt_zero, if_false, hstep]
          rfl
  | succ n ih =>
      cases m with
      | zero =>
          have hend : s.rest.length = 0 := Nat.le_zero.mp hm
          simp only [repeated, hend, Nat.not_lt_zero, if_false, hstep]
          rfl
      | succ m =>
          rw [repeated, repeated]
          congr 2
          funext s'
          by_cases hshorter : s'.rest.length < s.rest.length
          · rw [if_pos hshorter, if_pos hshorter]
            exact ih (by omega) (by omega)
          · rw [if_neg hshorter, if_neg hshorter]

/-- Places that some classes cannot tell apart, and that stay so. -/
structure Alike (t t' : CharTable) (classes : List CharClass) (R : Cursor → Cursor → Prop) : Prop where
  consume : ∀ cls ∈ classes, ∀ s s', R s s' → Option.Rel R (s.consume t cls) (s'.consume t' cls)
  behind : ∀ cls ∈ classes, ∀ s s', R s s' → s.behind t cls = s'.behind t' cls
  ahead : ∀ cls ∈ classes, ∀ s s', R s s' → s.ahead t cls = s'.ahead t' cls
  shorter : ∀ s₁ s₁' s₂ s₂', R s₁ s₁' → R s₂ s₂' →
    (s₁.rest.length < s₂.rest.length ↔ s₁'.rest.length < s₂'.rest.length)

theorem Alike.mono {classes classes' : List CharClass} {R : Cursor → Cursor → Prop}
    (halike : Alike t t' classes R) (hsubset : classes' ⊆ classes) : Alike t t' classes' R where
  consume cls hcls := halike.consume cls (hsubset hcls)
  behind cls hcls := halike.behind cls (hsubset hcls)
  ahead cls hcls := halike.ahead cls (hsubset hcls)
  shorter := halike.shorter

theorem repeated_alike {R : Cursor → Cursor → Prop} {step step' : Cursor → (Cursor → Option β) → Option β}
    (hshorter : ∀ s₁ s₁' s₂ s₂', R s₁ s₁' → R s₂ s₂' →
      (s₁.rest.length < s₂.rest.length ↔ s₁'.rest.length < s₂'.rest.length))
    (hstep : ∀ s s' k k', R s s' → (∀ s₁ s₁', R s₁ s₁' → k s₁ = k' s₁') → step s k = step' s' k')
    {k k' : Cursor → Option β} (hk : ∀ s₁ s₁', R s₁ s₁' → k s₁ = k' s₁') (n : Nat) {s s' : Cursor}
    (hs : R s s') : repeated step n s k = repeated step' n s' k' := by
  induction n generalizing s s' with
  | zero => exact hk s s' hs
  | succ n ih =>
      rw [repeated, repeated, hk s s' hs]
      congr 1
      refine hstep s s' _ _ hs fun s₁ s₁' h₁ => ?_
      by_cases hlt : s₁.rest.length < s.rest.length
      · rw [if_pos hlt, if_pos ((hshorter _ _ _ _ h₁ hs).mp hlt)]
        exact ih h₁
      · rw [if_neg hlt, if_neg fun hlt' => hlt ((hshorter _ _ _ _ h₁ hs).mpr hlt')]

theorem run_alike {p : Pattern} {R : Cursor → Cursor → Prop} (halike : Alike t t' p.classes R)
    {k k' : Cursor → Option β} (hk : ∀ s₁ s₁', R s₁ s₁' → k s₁ = k' s₁') {s s' : Cursor} (hs : R s s') :
    p.run t s k = p.run t' s' k' := by
  induction p generalizing k k' s s' with
  | empty => exact hk s s' hs
  | one cls =>
      have hconsume := halike.consume cls (List.mem_singleton_self _) s s' hs
      rw [Pattern.run, Pattern.run]
      generalize s.consume t cls = next at hconsume ⊢
      generalize s'.consume t' cls = next' at hconsume ⊢
      cases hconsume with
      | some h => exact hk _ _ h
      | none => rfl
  | notBehind cls =>
      rw [Pattern.run, Pattern.run, halike.behind cls (List.mem_singleton_self _) s s' hs, hk s s' hs]
  | notAhead cls =>
      rw [Pattern.run, Pattern.run, halike.ahead cls (List.mem_singleton_self _) s s' hs, hk s s' hs]
  | boundary =>
      rw [Pattern.run, Pattern.run, halike.behind _ (List.mem_singleton_self _) s s' hs,
        halike.ahead _ (List.mem_singleton_self _) s s' hs, hk s s' hs]
  | seq p q ihp ihq =>
      exact ihp (halike.mono (List.subset_append_left _ _))
        (fun s₁ s₁' h₁ => ihq (halike.mono (List.subset_append_right _ _)) hk h₁) hs
  | alt p q ihp ihq =>
      rw [Pattern.run, Pattern.run, ihp (halike.mono (List.subset_append_left _ _)) hk hs,
        ihq (halike.mono (List.subset_append_right _ _)) hk hs]
  | star p ih =>
      rw [Pattern.run, Pattern.run,
        repeated_fuel (run_none p) k (Nat.le_refl _) (Nat.le_max_left _ s'.rest.length),
        repeated_fuel (run_none p) k' (Nat.le_refl _) (Nat.le_max_right s.rest.length _)]
      exact repeated_alike halike.shorter (fun _ _ _ _ h hk => ih halike hk h) hk _ hs

end Alike

/-! ### Where a result is from -/

section Results

variable {t : CharTable} {β : Type u}

theorem Cursor.consume_eq_some {cls : CharClass} {s next : Cursor} (hnext : s.consume t cls = some next) :
    next.rest.length + 1 = s.rest.length := by
  obtain ⟨prev, rest⟩ := s
  cases rest with
  | nil => cases hnext
  | cons c rest =>
      cases hc : cls.test t c with
      | true =>
          simp only [consume, hc, if_true] at hnext
          cases hnext
          rfl
      | false =>
          simp only [consume, hc, Bool.false_eq_true, if_false] at hnext
          cases hnext

theorem repeated_eq_some {step : Cursor → (Cursor → Option β) → Option β}
    (hstep : ∀ s k b, step s k = some b → ∃ s', s'.rest.length ≤ s.rest.length ∧ k s' = some b)
    {n : Nat} {s : Cursor} {k : Cursor → Option β} {b : β} (hrun : repeated step n s k = some b) :
    ∃ s', s'.rest.length ≤ s.rest.length ∧ k s' = some b := by
  induction n generalizing s with
  | zero => exact ⟨s, Nat.le_refl _, hrun⟩
  | succ n ih =>
      rw [repeated] at hrun
      cases honce : step s fun s' =>
          if s'.rest.length < s.rest.length then repeated step n s' k else none with
      | none =>
          rw [honce] at hrun
          exact ⟨s, Nat.le_refl _, hrun⟩
      | some b' =>
          rw [honce] at hrun
          cases hrun
          obtain ⟨s₁, h₁, hagain⟩ := hstep _ _ _ honce
          split at hagain
          · obtain ⟨s', hs', hk⟩ := ih hagain
            exact ⟨s', by omega, hk⟩
          · cases hagain

/-- A result is found behind the least that the pattern takes. -/
theorem run_eq_some {p : Pattern} {s : Cursor} {k : Cursor → Option β} {b : β}
    (hrun : p.run t s k = some b) :
    ∃ s', s'.rest.length + p.least ≤ s.rest.length ∧ k s' = some b := by
  induction p generalizing s k b with
  | empty => exact ⟨s, Nat.le_refl _, hrun⟩
  | one cls =>
      obtain ⟨next, hnext, hk⟩ := Option.bind_eq_some_iff.mp hrun
      exact ⟨next, Nat.le_of_eq (Cursor.consume_eq_some hnext), hk⟩
  | notBehind cls =>
      rw [Pattern.run] at hrun
      split at hrun
      · cases hrun
      · exact ⟨s, Nat.le_refl _, hrun⟩
  | notAhead cls =>
      rw [Pattern.run] at hrun
      split at hrun
      · cases hrun
      · exact ⟨s, Nat.le_refl _, hrun⟩
  | boundary =>
      rw [Pattern.run] at hrun
      split at hrun
      · exact ⟨s, Nat.le_refl _, hrun⟩
      · cases hrun
  | seq p q ihp ihq =>
      obtain ⟨s₁, h₁, hq⟩ := ihp hrun
      obtain ⟨s', hs', hk⟩ := ihq hq
      refine ⟨s', ?_, hk⟩
      rw [Pattern.least]
      omega
  | alt p q ihp ihq =>
      rw [Pattern.run] at hrun
      cases hp : p.run t s k with
      | some b' =>
          rw [hp] at hrun
          cases hrun
          obtain ⟨s', hs', hk⟩ := ihp hp
          exact ⟨s', by rw [Pattern.least]; omega, hk⟩
      | none =>
          rw [hp] at hrun
          obtain ⟨s', hs', hk⟩ := ihq hrun
          exact ⟨s', by rw [Pattern.least]; omega, hk⟩
  | star p ih =>
      refine repeated_eq_some (fun s k b hstep => ?_) hrun
      obtain ⟨s', hs', hk⟩ := ih hstep
      exact ⟨s', by omega, hk⟩

end Results

/-! ### Texts between walls -/

section Walls

variable {t : CharTable} {wall : Char → Bool} {tail : List Char}

/-- The second place is the first one with walls around the text. -/
structure Within (wall : Char → Bool) (tail : List Char) (s s' : Cursor) : Prop where
  rest : s'.rest = s.rest ++ tail
  prev : s'.prev = s.prev ∨ s.prev = none ∧ ∃ w, s'.prev = some w ∧ wall w = true

/-- A pattern that takes no walls matches between them as it does between the ends of a text. -/
theorem alike_within {classes : List CharClass} (htail : ∀ c ∈ tail.head?, wall c = true)
    (hclasses : ∀ cls ∈ classes, ∀ c, wall c = true → cls.test t c = false) :
    Alike t t classes (Within wall tail) where
  consume cls hcls s s' hs := by
    obtain ⟨prev, rest⟩ := s
    obtain ⟨prev', rest'⟩ := s'
    obtain rfl : rest' = rest ++ tail := hs.rest
    cases rest with
    | cons c rest =>
        cases hc : cls.test t c with
        | true =>
            simp only [Cursor.consume, List.cons_append, hc, if_true]
            exact .some ⟨rfl, .inl rfl⟩
        | false =>
            simp only [Cursor.consume, List.cons_append, hc, Bool.false_eq_true, if_false]
            exact .none
    | nil =>
        cases tail with
        | nil => exact .none
        | cons w tail =>
            have hw := hclasses cls hcls w (htail w rfl)
            simp only [Cursor.consume, List.nil_append, hw, Bool.false_eq_true, if_false]
            exact .none
  behind cls hcls s s' hs := by
    obtain hsame | ⟨hnone, w, hsome, hw⟩ := hs.prev
    · rw [Cursor.behind, Cursor.behind, hsame]
    · rw [Cursor.behind, Cursor.behind, hnone, hsome, Option.any_some, hclasses cls hcls w hw]
      rfl
  ahead cls hcls s s' hs := by
    rw [Cursor.ahead, Cursor.ahead, hs.rest]
    cases s.rest with
    | cons c rest => rfl
    | nil =>
        cases tail with
        | nil => rfl
        | cons w tail => exact (hclasses cls hcls w (htail w rfl)).symm
  shorter s₁ s₁' s₂ s₂' h₁ h₂ := by
    rw [h₁.rest, h₂.rest, List.length_append, List.length_append]
    omega

end Walls

/-! ### ASCII -/

theorem CharClass.test_of_ascii (t t' : CharTable) (cls : CharClass) {c : Char} (hc : c.toNat < 128) :
    cls.test t c = cls.test t' c := by
  induction cls with
  | char d => rfl
  | range first last => rfl
  | letters first last => rfl
  | digit => exact (t.isDecimal_ascii c hc).trans (t'.isDecimal_ascii c hc).symm
  | space => exact (t.isSpace_ascii c hc).trans (t'.isSpace_ascii c hc).symm
  | word => rw [test, test, t.isAlnum_ascii c hc, t'.isAlnum_ascii c hc]
  | either a b iha ihb => rw [test, test, iha, ihb]
  | other a ih => rw [test, test, ih]

/-- A place in an ASCII text. -/
def Cursor.Ascii (s : Cursor) : Prop := (∀ c ∈ s.prev, c.toNat < 128) ∧ ∀ c ∈ s.rest, c.toNat < 128

theorem alike_ascii (t t' : CharTable) (classes : List CharClass) :
    Alike t t' classes fun s s' => s' = s ∧ s.Ascii where
  consume cls _ s s' hs := by
    obtain ⟨rfl, -, hrest⟩ := hs
    obtain ⟨prev, rest⟩ := s'
    cases rest with
    | nil => exact .none
    | cons c rest =>
        have hc := hrest c List.mem_cons_self
        simp only [Cursor.consume, cls.test_of_ascii t t' hc]
        split
        · refine .some ⟨rfl, ?_, fun d hd => hrest d (List.mem_cons_of_mem _ hd)⟩
          rintro d hd
          cases hd
          exact hc
        · exact .none
  behind cls _ s s' hs := by
    obtain ⟨rfl, hprev, -⟩ := hs
    cases hcase : s'.prev with
    | none => simp only [Cursor.behind, hcase, Option.any_none]
    | some c =>
        simp only [Cursor.behind, hcase, Option.any_some]
        exact cls.test_of_ascii t t' (hprev c hcase)
  ahead cls _ s s' hs := by
    obtain ⟨rfl, -, hrest⟩ := hs
    rw [Cursor.ahead, Cursor.ahead]
    cases hcase : s'.rest with
    | nil => rfl
    | cons c rest => exact cls.test_of_ascii t t' (hrest c (by rw [hcase]; exact List.mem_cons_self))
  shorter s₁ s₁' s₂ s₂' h₁ h₂ := by rw [h₁.1, h₂.1]

end Regex
