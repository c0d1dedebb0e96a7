import Mathlib.Data.List.Chain
import CoreMesh.Lib.JsonText

/-!
# Reading JSON values

A value is read from the front of lexemes, lists and objects inside one another up to a depth. The lexemes
that are read are a part of their own: whatever follows them, and with any more fuel or depth, the same is
read from them. So it is too after a change of lexemes that leaves what they stand for.
-/

namespace JsonText

variable {α β : Type}

/-! ### Sequences -/

/-- What is after a mark, if the lexemes begin with it. -/
def after (m : Mark) : List Lexeme → Option (List Lexeme)
  | .mark m' :: rest => if m' = m then some rest else none
  | _ => none

/-- Elements with commas between them, at least one, up to a closing mark. -/
def sequence (close : Mark) (element : List Lexeme → Option (α × List Lexeme)) :
    ℕ → List Lexeme → Option (List α × List Lexeme)
  | 0, _ => none
  | fuel + 1, ls => do
      let (a, rest) ← element ls
      match after close rest with
      | some rest => some ([a], rest)
      | none => do
          let rest ← after .comma rest
          let (more, rest) ← sequence close element fuel rest
          return (a :: more, rest)

/-- The parts of a sequence with their commas and the closing mark. -/
def joined (close : Mark) : List (List Lexeme) → List Lexeme
  | [] => [.mark close]
  | [part] => part ++ [.mark close]
  | part :: more => part ++ .mark .comma :: joined close more

theorem after_eq_some_iff {m : Mark} {ls rest : List Lexeme} :
    after m ls = some rest ↔ ls = .mark m :: rest := by
  unfold after
  split
  · next m' rest' =>
      by_cases hm : m' = m
      · simp [hm]
      · simp [hm]
  · next hnot =>
      constructor
      · intro hnone
        cases hnone
      · intro heq
        exact absurd heq (hnot m rest)

@[simp] theorem after_mark (m : Mark) (rest : List Lexeme) : after m (.mark m :: rest) = some rest :=
  after_eq_some_iff.mpr rfl

theorem after_mark_of_ne {m m' : Mark} (hne : m' ≠ m) (rest : List Lexeme) :
    after m (.mark m' :: rest) = none := by
  rw [after, if_neg hne]

theorem joined_cons {close : Mark} {part : List Lexeme} {more : List (List Lexeme)} (hmore : more ≠ []) :
    joined close (part :: more) = part ++ .mark .comma :: joined close more := by
  obtain ⟨next, last, rfl⟩ := List.exists_cons_of_ne_nil hmore
  rfl

theorem mem_joined {close : Mark} {parts : List (List Lexeme)} {l : Lexeme} :
    l ∈ joined close parts → l = .mark close ∨ l = .mark .comma ∨ ∃ part ∈ parts, l ∈ part := by
  intro hl
  induction parts with
  | nil => exact .inl (List.mem_singleton.mp hl)
  | cons part more ih =>
      by_cases hlast : more = []
      · subst hlast
        obtain hpart | hclose := List.mem_append.mp hl
        · exact .inr (.inr ⟨part, List.mem_cons_self, hpart⟩)
        · exact .inl (List.mem_singleton.mp hclose)
      · rw [joined_cons hlast, List.mem_append, List.mem_cons] at hl
        obtain hpart | hcomma | hmore := hl
        · exact .inr (.inr ⟨part, List.mem_cons_self, hpart⟩)
        · exact .inr (.inl hcomma)
        · obtain hclose | hcomma | ⟨other, hother, hin⟩ := ih hmore
          · exact .inl hclose
          · exact .inr (.inl hcomma)
          · exact .inr (.inr ⟨other, List.mem_cons_of_mem _ hother, hin⟩)

theorem mem_joined_of_mem {close : Mark} {parts : List (List Lexeme)} {part : List Lexeme} {l : Lexeme}
    (hpart : part ∈ parts) (hl : l ∈ part) : l ∈ joined close parts := by
  induction parts with
  | nil => cases hpart
  | cons first more ih =>
      by_cases hlast : more = []
      · subst hlast
        rw [List.mem_singleton.mp hpart] at hl
        exact List.mem_append_left _ hl
      · rw [joined_cons hlast, List.mem_append, List.mem_cons]
        obtain rfl | hmore := List.mem_cons.mp hpart
        · exact .inl hl
        · exact .inr (.inr (ih hmore))

/-- A sequence that is read consists of parts, from each of which an element is read. -/
theorem sequence_eq_some {close : Mark} {element : List Lexeme → Option (α × List Lexeme)}
    {P : List Lexeme → α → Prop}
    (helement : ∀ ls a rest, element ls = some (a, rest) → ∃ part, ls = part ++ rest ∧ P part a) {fuel : ℕ}
    {ls rest : List Lexeme} {as : List α} (hread : sequence close element fuel ls = some (as, rest)) :
    ∃ parts, parts ≠ [] ∧ ls = joined close parts ++ rest ∧ List.Forall₂ P parts as := by
  induction fuel generalizing ls as with
  | zero => cases hread
  | succ fuel ih =>
      obtain ⟨⟨a, middle⟩, ha, hbind⟩ := Option.bind_eq_some_iff.mp hread
      obtain ⟨part, rfl, hpart⟩ := helement ls a middle ha
      dsimp only at hbind
      split at hbind
      · next last hclose =>
          obtain ⟨rfl, rfl⟩ := Prod.mk.inj (Option.some.inj hbind)
          obtain rfl := after_eq_some_iff.mp hclose
          exact ⟨[part], by simp, by simp [joined], .cons hpart .nil⟩
      · obtain ⟨last, hcomma, hbind⟩ := Option.bind_eq_some_iff.mp hbind
        obtain ⟨⟨more, last'⟩, hmore, heq⟩ := Option.bind_eq_some_iff.mp hbind
        obtain ⟨rfl, rfl⟩ := Prod.mk.inj (Option.some.inj heq)
        obtain rfl := after_eq_some_iff.mp hcomma
        obtain ⟨parts, hne, rfl, hparts⟩ := ih hmore
        refine ⟨part :: parts, List.cons_ne_nil _ _, ?_, .cons hpart hparts⟩
        rw [joined_cons hne, List.append_assoc, List.cons_append]

/-- From parts that elements are read from, whatever follows them, their sequence is read. -/
theorem sequence_joined {close : Mark} (hclose : close ≠ .comma)
    {element : List Lexeme → Option (α × List Lexeme)} {parts : List (List Lexeme)} {as : List α}
    (hparts : List.Forall₂ (fun part a => ∀ rest, element (part ++ rest) = some (a, rest)) parts as)
    (hne : parts ≠ []) {fuel : ℕ} (hfuel : parts.length ≤ fuel) (rest : List Lexeme) :
    sequence close element fuel (joined close parts ++ rest) = some (as, rest) := by
  induction hparts generalizing fuel with
  | nil => exact absurd rfl hne
  | @cons part a parts more hpart hmore ih =>
      cases fuel with
      | zero => cases hfuel
      | succ fuel =>
          by_cases hlast : parts = []
          · subst hlast
            cases hmore
            have hjoined : joined close [part] ++ rest = part ++ .mark close :: rest := by
              simp [joined]
            rw [sequence, hjoined, hpart]
            show (match after close (.mark close :: rest) with
              | some rest => _
              | none => _) = _
            rw [after_mark]
          · have hrest := ih hlast (Nat.le_of_succ_le_succ hfuel)
            rw [sequence, joined_cons hlast, List.append_assoc, List.cons_append, hpart]
            show (match after close (.mark .comma :: (joined close parts ++ rest)) with
              | some rest => _
              | none => _) = _
            rw [after_mark_of_ne hclose.symm]
            show (after .comma (.mark .comma :: (joined close parts ++ rest))).bind _ = _
            rw [after_mark]
            show (sequence close element fuel (joined close parts ++ rest)).bind _ = _
            rw [hrest]
            rfl

/-! ### Values -/

/-- The key of a member, up to the colon. -/
def keyOf : List Lexeme → Option (String × List Lexeme)
  | .string ps :: rest => (after .colon rest).map fun rest => (String.ofList (unquote ps), rest)
  | _ => none

/-- A member, of which the value is read by a function. -/
def member (read : List Lexeme → Option (α × List Lexeme)) (ls : List Lexeme) :
    Option ((String × α) × List Lexeme) := do
  let (key, rest) ← keyOf ls
  let (a, rest) ← read rest
  return ((key, a), rest)

/-- The first value of some lexemes. -/
def value : ℕ → ℕ → List Lexeme → Option (Json × List Lexeme)
  | 0, _, _ => none
  | _ + 1, _, [] => none
  | fuel + 1, depth, l :: rest =>
      match l with
      | .null => some (.null, rest)
      | .bool b => some (.bool b, rest)
      | .number literal => some (.num (String.ofList literal), rest)
      | .string ps => some (.str (String.ofList (unquote ps)), rest)
      | .mark .openList =>
          match depth with
          | 0 => none
          | depth + 1 =>
              match after .closeList rest with
              | some rest => some (.arr [], rest)
              | none =>
                  (sequence .closeList (value fuel depth) fuel rest).map fun read => (.arr read.1, read.2)
      | .mark .openObject =>
          match depth with
          | 0 => none
          | depth + 1 =>
              match after .closeObject rest with
              | some rest => some (.obj [], rest)
              | none =>
                  (sequence .closeObject (member (value fuel depth)) fuel rest).map fun read =>
                    (.obj read.1, read.2)
      | .mark _ => none

/-! ### What stands for the same -/

/-- A lexeme, or a string that stands for the same. -/
inductive Same : Lexeme → Lexeme → Prop where
  | refl (l : Lexeme) : Same l l
  | string {ps qs : List Piece} (hunquote : unquote qs = unquote ps) : Same (.string ps) (.string qs)

theorem Same.isNumber {l l' : Lexeme} (hsame : Same l l') : l'.isNumber = l.isNumber := by
  cases hsame <;> rfl

theorem Same.mark {m : Mark} {l : Lexeme} (hsame : Same (.mark m) l) : l = .mark m := by
  cases hsame
  rfl

theorem same_self (ls : List Lexeme) : List.Forall₂ Same ls ls := List.forall₂_same.mpr fun l _ => .refl l

theorem apart_cons_iff {l : Lexeme} {ls : List Lexeme} :
    Apart (l :: ls) ↔ (∀ l' ∈ ls.head?, (l.isNumber && l'.isNumber) = false) ∧ Apart ls :=
  List.isChain_cons

theorem Apart.of_same {ls ls' : List Lexeme} (hapart : Apart ls) (hsame : List.Forall₂ Same ls ls') :
    Apart ls' := by
  induction hsame with
  | nil => exact List.IsChain.nil
  | @cons l l' ls ls' hl hrest ih =>
      obtain ⟨hhead, htail⟩ := apart_cons_iff.mp hapart
      refine apart_cons_iff.mpr ⟨?_, ih htail⟩
      intro next hnext
      cases hrest with
      | nil => cases hnext
      | cons hfirst _ =>
          obtain rfl := Option.some.inj hnext
          rw [hl.isNumber, hfirst.isNumber]
          exact hhead _ rfl

theorem Apart.append_mark {part more : List Lexeme} {m : Mark} (hpart : Apart part) (hmore : Apart more) :
    Apart (part ++ .mark m :: more) := by
  apply List.isChain_append.mpr
  refine ⟨hpart, apart_cons_iff.mpr ⟨fun _ _ => rfl, hmore⟩, ?_⟩
  intro last _ next hnext
  obtain rfl := Option.some.inj hnext
  exact Bool.and_false _

theorem apart_joined {close : Mark} {parts : List (List Lexeme)} (hparts : ∀ part ∈ parts, Apart part) :
    Apart (joined close parts) := by
  induction parts with
  | nil => exact List.isChain_singleton _
  | cons part more ih =>
      obtain ⟨hpart, hmore⟩ := List.forall_mem_cons.mp hparts
      by_cases hlast : more = []
      · subst hlast
        exact hpart.append_mark List.IsChain.nil
      · rw [joined_cons hlast]
        exact hpart.append_mark (ih hmore)

theorem exists_append_of_forall₂ {R : α → β → Prop} {l₁ l₂ : List α} {m : List β}
    (hall : List.Forall₂ R (l₁ ++ l₂) m) :
    ∃ m₁ m₂, List.Forall₂ R l₁ m₁ ∧ List.Forall₂ R l₂ m₂ ∧ m = m₁ ++ m₂ := by
  induction l₁ generalizing m with
  | nil => exact ⟨[], m, .nil, hall, rfl⟩
  | cons a l₁ ih =>
      obtain ⟨b, rest, hab, hrest, rfl⟩ := List.forall₂_cons_left_iff.mp hall
      obtain ⟨m₁, m₂, h₁, h₂, rfl⟩ := ih hrest
      exact ⟨b :: m₁, m₂, .cons hab h₁, h₂, rfl⟩

/-- What stands for the same as a sequence consists of parts that do. -/
theorem same_joined {close : Mark} {parts : List (List Lexeme)} {ls : List Lexeme}
    (hsame : List.Forall₂ Same (joined close parts) ls) :
    ∃ parts', ls = joined close parts' ∧ List.Forall₂ (List.Forall₂ Same) parts parts' := by
  induction parts generalizing ls with
  | nil =>
      obtain ⟨l, rest, hl, hrest, rfl⟩ := List.forall₂_cons_left_iff.mp hsame
      cases hrest
      exact ⟨[], by rw [hl.mark]; rfl, .nil⟩
  | cons part more ih =>
      by_cases hlast : more = []
      · subst hlast
        obtain ⟨part', rest, hpart, hrest, rfl⟩ := exists_append_of_forall₂ hsame
        obtain ⟨l, last, hl, hlast, rfl⟩ := List.forall₂_cons_left_iff.mp hrest
        cases hlast
        exact ⟨[part'], by rw [hl.mark]; rfl, .cons hpart .nil⟩
      · rw [joined_cons hlast] at hsame
        obtain ⟨part', rest, hpart, hrest, rfl⟩ := exists_append_of_forall₂ hsame
        obtain ⟨l, last, hl, hmore, rfl⟩ := List.forall₂_cons_left_iff.mp hrest
        obtain ⟨parts', rfl, hparts'⟩ := ih hmore
        have hne : parts' ≠ [] := by
          rintro rfl
          cases hparts'
          exact hlast rfl
        refine ⟨part' :: parts', ?_, .cons hpart hparts'⟩
        rw [joined_cons hne, hl.mark]

/-! ### Parts that are read alone -/

/-- An element is read from the part, and from what stands for the same, whatever follows it. -/
structure Part (read : ℕ → ℕ → List Lexeme → Option (α × List Lexeme)) (depth : ℕ) (part : List Lexeme) (a : α) :
    Prop where
  nonempty : part ≠ []
  apart : Apart part
  reads : ∀ part', List.Forall₂ Same part part' → ∀ fuel depth' rest, part.length ≤ fuel → depth ≤ depth' →
    read fuel depth' (part' ++ rest) = some (a, rest)

theorem length_le_joined {close : Mark} {parts : List (List Lexeme)} :
    parts.length ≤ (joined close parts).length ∧
      ∀ part ∈ parts, part.length < (joined close parts).length := by
  induction parts with
  | nil => simp
  | cons part more ih =>
      by_cases hlast : more = []
      · subst hlast
        simp [joined]
      · obtain ⟨hlength, hall⟩ := ih
        rw [joined_cons hlast, List.length_append, List.length_cons, List.length_cons]
        refine ⟨by omega, List.forall_mem_cons.mpr ⟨by omega, ?_⟩⟩
        intro part' hpart'
        have hlt := hall part' hpart'
        omega

theorem exists_of_mem_forall₂ {R : α → β → Prop} {l : List α} {m : List β} (hall : List.Forall₂ R l m)
    {a : α} (ha : a ∈ l) : ∃ b ∈ m, R a b := by
  induction hall with
  | nil => cases ha
  | cons hfirst _ ih =>
      obtain rfl | ha := List.mem_cons.mp ha
      · exact ⟨_, List.mem_cons_self, hfirst⟩
      · obtain ⟨b, hb, hab⟩ := ih ha
        exact ⟨b, List.mem_cons_of_mem _ hb, hab⟩

/-- Two lists that are both alike to a third. -/
theorem forall₂_of_forall₂ {γ : Type} {R : α → β → Prop} {S : α → γ → Prop} {T : γ → β → Prop} {l : List α}
    {m : List β} {n : List γ} (hall : List.Forall₂ R l m) (hother : List.Forall₂ S l n)
    (htogether : ∀ a ∈ l, ∀ b c, R a b → S a c → T c b) : List.Forall₂ T n m := by
  induction hall generalizing n with
  | nil =>
      cases hother
      exact .nil
  | cons hfirst _ ih =>
      obtain ⟨c, rest, hc, hrest, rfl⟩ := List.forall₂_cons_left_iff.mp hother
      refine .cons (htogether _ List.mem_cons_self _ _ hfirst hc) (ih hrest ?_)
      exact fun a ha => htogether a (List.mem_cons_of_mem _ ha)

/-- A sequence of parts is read alone. -/
theorem sequence_part {close : Mark} (hclose : close ≠ .comma)
    {read : ℕ → ℕ → List Lexeme → Option (α × List Lexeme)} {depth : ℕ} {parts : List (List Lexeme)}
    {as : List α} (hparts : List.Forall₂ (Part read depth) parts as) (hne : parts ≠ []) :
    Part (fun fuel depth => sequence close (read fuel depth) fuel) depth (joined close parts) as where
  nonempty := by
    intro hnil
    have hlength := (@length_le_joined close parts).1
    rw [hnil, List.length_nil, Nat.le_zero, List.length_eq_zero_iff] at hlength
    exact hne hlength
  apart := by
    apply apart_joined
    intro part hpart
    obtain ⟨a, -, ha⟩ := exists_of_mem_forall₂ hparts hpart
    exact ha.apart
  reads := by
    intro ls hsame fuel depth' rest hfuel hdepth
    obtain ⟨parts', rfl, hparts'⟩ := same_joined hsame
    obtain ⟨hcount, hlengths⟩ := @length_le_joined close parts
    apply sequence_joined hclose
    · apply forall₂_of_forall₂ hparts hparts'
      intro part hpart a part' hread hpart' rest
      have hlength := hlengths part hpart
      exact hread.reads part' hpart' fuel depth' rest (by omega) hdepth
    · intro hnil
      rw [hnil] at hparts'
      cases hparts'
      exact hne rfl
    · rw [← hparts'.length_eq]
      omega

theorem same_cons {l : Lexeme} {ls ls' : List Lexeme} (hsame : List.Forall₂ Same (l :: ls) ls') :
    ∃ l' rest, Same l l' ∧ List.Forall₂ Same ls rest ∧ ls' = l' :: rest := by
  obtain ⟨l', rest, hl, hrest, rfl⟩ := List.forall₂_cons_left_iff.mp hsame
  exact ⟨l', rest, hl, hrest, rfl⟩

/-- A member whose value is read alone. -/
theorem member_part {read : ℕ → ℕ → List Lexeme → Option (α × List Lexeme)} {depth : ℕ} {part : List Lexeme}
    {a : α} (hpart : Part read depth part a) (ps : List Piece) :
    Part (fun fuel depth => member (read fuel depth)) depth (.string ps :: .mark .colon :: part)
      (String.ofList (unquote ps), a) where
  nonempty := List.cons_ne_nil _ _
  apart := by
    refine apart_cons_iff.mpr ⟨fun _ _ => rfl, apart_cons_iff.mpr ⟨fun _ _ => rfl, hpart.apart⟩⟩
  reads := by
    intro ls hsame fuel depth' rest hfuel hdepth
    obtain ⟨l, tail, hkey, htail, rfl⟩ := same_cons hsame
    obtain ⟨l', part', hcolon, hpart', rfl⟩ := same_cons htail
    obtain rfl := hcolon.mark
    have hlength : part.length ≤ fuel := by
      rw [List.length_cons, List.length_cons] at hfuel
      omega
    have hread := hpart.reads part' hpart' fuel depth' rest hlength hdepth
    cases hkey with
    | refl =>
        show (read fuel depth' (part' ++ rest)).bind _ = _
        rw [hread]
        rfl
    | string hunquote =>
        show (read fuel depth' (part' ++ rest)).bind _ = _
        rw [hread, ← hunquote]
        rfl

/-- The member that is read, by its key and the lexemes of its value. -/
theorem member_eq_some {read : List Lexeme → Option (α × List Lexeme)} {ls rest : List Lexeme}
    {m : String × α} (hread : member read ls = some (m, rest)) :
    ∃ ps more, ls = .string ps :: .mark .colon :: more ∧ m.1 = String.ofList (unquote ps) ∧
      read more = some (m.2, rest) := by
  obtain ⟨⟨key, more⟩, hkey, hbind⟩ := Option.bind_eq_some_iff.mp hread
  obtain ⟨⟨a, rest'⟩, ha, heq⟩ := Option.bind_eq_some_iff.mp hbind
  obtain ⟨rfl, rfl⟩ := Prod.mk.inj (Option.some.inj heq)
  unfold keyOf at hkey
  split at hkey
  · next ps tail =>
      obtain ⟨more', hafter, heq⟩ := Option.map_eq_some_iff.mp hkey
      obtain ⟨rfl, rfl⟩ := Prod.mk.inj heq
      obtain rfl := after_eq_some_iff.mp hafter
      exact ⟨ps, more', rfl, rfl, ha⟩
  · cases hkey

/-! ### Values are read alone -/

theorem value_openList (fuel depth : ℕ) (ls : List Lexeme) :
    value (fuel + 1) (depth + 1) (.mark .openList :: ls) =
      match after .closeList ls with
      | some rest => some (.arr [], rest)
      | none => (sequence .closeList (value fuel depth) fuel ls).map fun read => (.arr read.1, read.2) := rfl

theorem value_openObject (fuel depth : ℕ) (ls : List Lexeme) :
    value (fuel + 1) (depth + 1) (.mark .openObject :: ls) =
      match after .closeObject ls with
      | some rest => some (.obj [], rest)
      | none =>
          (sequence .closeObject (member (value fuel depth)) fuel ls).map fun read => (.obj read.1, read.2) := rfl

/-- A sequence that is not empty does not begin with its end. -/
theorem after_eq_none_of_sequence {close : Mark} {element : List Lexeme → Option (α × List Lexeme)}
    (hclose : ∀ rest, element (.mark close :: rest) = none) {fuel : ℕ} {ls : List Lexeme}
    {read : List α × List Lexeme} (hread : sequence close element fuel ls = some read) :
    after close ls = none := by
  cases hafter : after close ls with
  | none => rfl
  | some rest =>
      obtain rfl := after_eq_some_iff.mp hafter
      cases fuel with
      | zero => cases hread
      | succ fuel =>
          rw [sequence, hclose] at hread
          cases hread

theorem value_closeList (fuel depth : ℕ) (rest : List Lexeme) :
    value fuel depth (.mark .closeList :: rest) = none := by
  cases fuel with
  | zero => rfl
  | succ fuel => rfl

theorem scalar_part {l : Lexeme} {v : Json} {depth : ℕ}
    (hread : ∀ l', Same l l' → ∀ fuel depth' rest, value (fuel + 1) depth' (l' :: rest) = some (v, rest)) :
    Part value depth [l] v where
  nonempty := List.cons_ne_nil _ _
  apart := List.isChain_singleton _
  reads := by
    intro ls hsame fuel depth' rest hfuel _
    obtain ⟨l', tail, hl, htail, rfl⟩ := same_cons hsame
    cases htail
    cases fuel with
    | zero => cases hfuel
    | succ fuel => exact hread l' hl fuel depth' rest

/-- A part behind an opening mark, from which a value is made of what the part holds. -/
theorem enclosed_part {read : ℕ → ℕ → List Lexeme → Option (α × List Lexeme)} {opening : Mark} {f : α → Json}
    (hopen : ∀ {fuel depth ls a rest}, read fuel depth ls = some (a, rest) →
      value (fuel + 1) (depth + 1) (.mark opening :: ls) = some (f a, rest))
    {depth : ℕ} {part : List Lexeme} {a : α} (hpart : Part read depth part a) :
    Part value (depth + 1) (.mark opening :: part) (f a) where
  nonempty := List.cons_ne_nil _ _
  apart := apart_cons_iff.mpr ⟨fun _ _ => rfl, hpart.apart⟩
  reads := by
    intro ls hsame fuel depth' rest hfuel hdepth
    obtain ⟨l', part', hl, hpart', rfl⟩ := same_cons hsame
    obtain rfl := hl.mark
    obtain ⟨fuel, rfl⟩ := Nat.exists_eq_add_of_le' (Nat.le_trans (Nat.le_add_left 1 part.length) hfuel)
    obtain ⟨depth', rfl⟩ := Nat.exists_eq_add_of_le' (Nat.le_trans (Nat.le_add_left 1 depth) hdepth)
    rw [List.cons_append]
    apply hopen
    exact hpart.reads part' hpart' fuel depth' rest (Nat.le_of_succ_le_succ hfuel)
      (Nat.le_of_succ_le_succ hdepth)

theorem arr_part {depth : ℕ} {part : List Lexeme} {items : List Json}
    (hpart : Part (fun fuel depth => sequence .closeList (value fuel depth) fuel) depth part items) :
    Part value (depth + 1) (.mark .openList :: part) (.arr items) := by
  apply @enclosed_part _ _ .openList Json.arr _ depth part items hpart
  intro fuel depth' ls items' rest hread
  rw [value_openList, after_eq_none_of_sequence (value_closeList fuel depth') hread]
  exact congrArg (Option.map _) hread

theorem obj_part {depth : ℕ} {part : List Lexeme} {members : List (String × Json)}
    (hpart : Part (fun fuel depth => sequence .closeObject (member (value fuel depth)) fuel) depth part
      members) : Part value (depth + 1) (.mark .openObject :: part) (.obj members) := by
  apply @enclosed_part _ _ .openObject Json.obj _ depth part members hpart
  intro fuel depth' ls members' rest hread
  rw [value_openObject, after_eq_none_of_sequence (fun _ => rfl) hread]
  exact congrArg (Option.map _) hread

/-- An empty list or object. -/
theorem empty_part {opening closing : Mark} {v : Json} {depth : ℕ}
    (hread : ∀ fuel depth' rest,
      value (fuel + 1) (depth' + 1) (.mark opening :: .mark closing :: rest) = some (v, rest)) :
    Part value (depth + 1) [.mark opening, .mark closing] v where
  nonempty := List.cons_ne_nil _ _
  apart := apart_cons_iff.mpr ⟨fun _ _ => rfl, List.isChain_singleton _⟩
  reads := by
    intro ls hsame fuel depth' rest hfuel hdepth
    obtain ⟨l', tail, hl, htail, rfl⟩ := same_cons hsame
    obtain ⟨l'', tail', hl', htail', rfl⟩ := same_cons htail
    cases htail'
    obtain rfl := hl.mark
    obtain rfl := hl'.mark
    obtain ⟨fuel, rfl⟩ := Nat.exists_eq_add_of_le' (Nat.le_trans (Nat.le_add_left 1 1) hfuel)
    obtain ⟨depth', rfl⟩ := Nat.exists_eq_add_of_le' (Nat.le_trans (Nat.le_add_left 1 depth) hdepth)
    exact hread fuel depth' rest

/-- What is read from is a part in front, which is read alone. -/
def FromPart (depth : ℕ) (ls : List Lexeme) (v : Json) (rest : List Lexeme) : Prop :=
  ∃ part, ls = part ++ rest ∧ Part value depth part v

theorem scalar_fromPart {l : Lexeme} {v v' : Json} {depth : ℕ} {tail rest : List Lexeme}
    (hone : ∀ l', Same l l' → ∀ fuel depth' rest, value (fuel + 1) depth' (l' :: rest) = some (v', rest))
    (hread : some (v', tail) = some (v, rest)) : FromPart depth (l :: tail) v rest := by
  obtain ⟨rfl, rfl⟩ := Prod.mk.inj (Option.some.inj hread)
  exact ⟨[l], rfl, scalar_part hone⟩

theorem list_fromPart {fuel depth : ℕ}
    (hinner : ∀ ls v rest, value fuel depth ls = some (v, rest) → FromPart depth ls v rest)
    {ls rest : List Lexeme} {v : Json}
    (hread : value (fuel + 1) (depth + 1) (.mark .openList :: ls) = some (v, rest)) :
    FromPart (depth + 1) (.mark .openList :: ls) v rest := by
  rw [value_openList] at hread
  split at hread
  · next last hafter =>
      obtain ⟨rfl, rfl⟩ := Prod.mk.inj (Option.some.inj hread)
      obtain rfl := after_eq_some_iff.mp hafter
      exact ⟨[.mark .openList, .mark .closeList], rfl, empty_part fun _ _ _ => rfl⟩
  · obtain ⟨⟨items, last⟩, hitems, heq⟩ := Option.map_eq_some_iff.mp hread
    obtain ⟨rfl, rfl⟩ := Prod.mk.inj heq
    obtain ⟨parts, hne, rfl, hparts⟩ := sequence_eq_some hinner hitems
    refine ⟨.mark .openList :: joined .closeList parts, rfl, ?_⟩
    exact arr_part (sequence_part (by decide) hparts hne)

theorem member_fromPart {fuel depth : ℕ}
    (hinner : ∀ ls v rest, value fuel depth ls = some (v, rest) → FromPart depth ls v rest)
    (ls : List Lexeme) (m : String × Json) (rest : List Lexeme)
    (hread : member (value fuel depth) ls = some (m, rest)) :
    ∃ part, ls = part ++ rest ∧ Part (fun fuel depth => member (value fuel depth)) depth part m := by
  obtain ⟨ps, more, rfl, hkey, hvalue⟩ := member_eq_some hread
  obtain ⟨part, rfl, hpart⟩ := hinner _ _ _ hvalue
  refine ⟨.string ps :: .mark .colon :: part, rfl, ?_⟩
  have hwhole := member_part hpart ps
  rw [← hkey] at hwhole
  exact hwhole

theorem object_fromPart {fuel depth : ℕ}
    (hinner : ∀ ls v rest, value fuel depth ls = some (v, rest) → FromPart depth ls v rest)
    {ls rest : List Lexeme} {v : Json}
    (hread : value (fuel + 1) (depth + 1) (.mark .openObject :: ls) = some (v, rest)) :
    FromPart (depth + 1) (.mark .openObject :: ls) v rest := by
  rw [value_openObject] at hread
  split at hread
  · next last hafter =>
      obtain ⟨rfl, rfl⟩ := Prod.mk.inj (Option.some.inj hread)
      obtain rfl := after_eq_some_iff.mp hafter
      exact ⟨[.mark .openObject, .mark .closeObject], rfl, empty_part fun _ _ _ => rfl⟩
  · obtain ⟨⟨members, last⟩, hmembers, heq⟩ := Option.map_eq_some_iff.mp hread
    obtain ⟨rfl, rfl⟩ := Prod.mk.inj heq
    obtain ⟨parts, hne, rfl, hparts⟩ := sequence_eq_some (member_fromPart hinner) hmembers
    refine ⟨.mark .openObject :: joined .closeObject parts, rfl, ?_⟩
    exact obj_part (sequence_part (by decide) hparts hne)

/-- By induction on the fuel, which goes down at each bracket. -/
theorem value_fromPart {fuel : ℕ} : ∀ {depth : ℕ} (ls : List Lexeme) (v : Json) (rest : List Lexeme),
    value fuel depth ls = some (v, rest) → FromPart depth ls v rest := by
  induction fuel with
  | zero =>
      intro depth ls v rest hread
      cases hread
  | succ fuel ih =>
      intro depth ls v rest hread
      cases ls with
      | nil => cases hread
      | cons l tail =>
          cases l with
          | null => exact scalar_fromPart (fun l' hl _ _ _ => by cases hl; rfl) hread
          | bool b => exact scalar_fromPart (fun l' hl _ _ _ => by cases hl; rfl) hread
          | number literal => exact scalar_fromPart (fun l' hl _ _ _ => by cases hl; rfl) hread
          | string ps =>
              refine scalar_fromPart (fun l' hl fuel depth' rest => ?_) hread
              cases hl with
              | refl => rfl
              | string hunquote =>
                  rw [← hunquote]
                  rfl
          | mark m =>
              cases m with
              | closeList => cases hread
              | closeObject => cases hread
              | comma => cases hread
              | colon => cases hread
              | openList =>
                  cases depth with
                  | zero => cases hread
                  | succ depth => exact list_fromPart ih hread
              | openObject =>
                  cases depth with
                  | zero => cases hread
                  | succ depth => exact object_fromPart ih hread

/-! ### Texts -/

/-- The value of a text that is nothing else. -/
def read (depth : ℕ) (text : List Rune) : Option Json :=
  (lex text).bind fun ls =>
    match value ls.length depth ls with
    | some (v, []) => some v
    | _ => none

theorem Same.trans {l l' l'' : Lexeme} (hfirst : Same l l') (hsecond : Same l' l'') : Same l l'' := by
  cases hfirst with
  | refl => exact hsecond
  | string hunquote =>
      cases hsecond with
      | refl => exact .string hunquote
      | string hunquote' => exact .string (hunquote'.trans hunquote)

theorem same_trans {ls ls' ls'' : List Lexeme} (hfirst : List.Forall₂ Same ls ls')
    (hsecond : List.Forall₂ Same ls' ls'') : List.Forall₂ Same ls ls'' := by
  induction hfirst generalizing ls'' with
  | nil => exact hsecond
  | cons hl _ ih =>
      obtain ⟨l'', rest, hl', hrest, rfl⟩ := same_cons hsecond
      exact .cons (hl.trans hl') (ih hrest)

/-- What stands for the same as a part is one. -/
theorem Part.of_same {read : ℕ → ℕ → List Lexeme → Option (α × List Lexeme)} {depth : ℕ}
    {part part' : List Lexeme} {a : α} (hpart : Part read depth part a)
    (hsame : List.Forall₂ Same part part') : Part read depth part' a where
  nonempty := by
    intro hnil
    rw [hnil] at hsame
    cases hsame
    exact hpart.nonempty rfl
  apart := hpart.apart.of_same hsame
  reads := by
    intro ls hls fuel depth' rest hfuel hdepth
    rw [← hsame.length_eq] at hfuel
    exact hpart.reads ls (same_trans hsame hls) fuel depth' rest hfuel hdepth

theorem Part.value_eq {depth : ℕ} {part : List Lexeme} {v : Json} (hpart : Part value depth part v)
    {fuel depth' : ℕ} (hfuel : part.length ≤ fuel) (hdepth : depth ≤ depth') :
    value fuel depth' part = some (v, []) := by
  have hread := hpart.reads part (same_self part) fuel depth' [] hfuel hdepth
  rw [List.append_nil] at hread
  exact hread

theorem read_of_part {depth : ℕ} {text : List Rune} {part : List Lexeme} {v : Json}
    (hlex : lex text = some part) (hpart : Part value depth part v) : read depth text = some v := by
  rw [read, hlex]
  show (match value part.length depth part with
    | some (v, []) => some v
    | _ => none) = some v
  rw [hpart.value_eq (Nat.le_refl _) (Nat.le_refl _)]

/-- The text of a value's lexemes reads as the value. -/
theorem read_flatMap {depth : ℕ} {part : List Lexeme} {v : Json} (hpart : Part value depth part v)
    (hvalid : ∀ l ∈ part, l.valid = true) : read depth (part.flatMap Lexeme.text) = some v :=
  read_of_part (lex_flatMap hvalid hpart.apart) hpart

end JsonText
