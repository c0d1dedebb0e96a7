import CoreMesh.Lib.Regex

/-!
# Groups of a match

What a group of a pattern can take, apart from what is looked at around it: a text of the pattern's language.
Searching, finding all and replacing all go through a text from left to right.
-/

namespace Regex

universe u

/-! ### The texts of a pattern -/

/-- Look-around is left out. -/
def Matches (t : CharTable) : Pattern → List Char → Prop
  | .empty, text | .notBehind _, text | .notAhead _, text | .boundary, text => text = []
  | .one cls, text => ∃ c, text = [c] ∧ cls.test t c = true
  | .seq p q, text => ∃ first second, text = first ++ second ∧ Matches t p first ∧ Matches t q second
  | .alt p q, text => Matches t p text ∨ Matches t q text
  | .star p, text => ∃ parts : List (List Char), text = parts.flatten ∧ ∀ part ∈ parts, Matches t p part

section Matches

variable {t : CharTable} {β : Type u}

theorem Cursor.consume_matches {cls : CharClass} {s next : Cursor} (hnext : s.consume t cls = some next) :
    ∃ c, s.rest = c :: next.rest ∧ cls.test t c = true := by
  obtain ⟨prev, rest⟩ := s
  cases rest with
  | nil => cases hnext
  | cons c rest =>
      cases hc : cls.test t c with
      | true =>
          simp only [consume, hc, if_true] at hnext
          cases hnext
          exact ⟨c, rfl, hc⟩
      | false =>
          simp only [consume, hc, Bool.false_eq_true, if_false] at hnext
          cases hnext

theorem repeated_matches {step : Cursor → (Cursor → Option β) → Option β} {P : List Char → Prop}
    (hstep : ∀ s k b, step s k = some b → ∃ text s', s.rest = text ++ s'.rest ∧ P text ∧ k s' = some b)
    {n : Nat} {s : Cursor} {k : Cursor → Option β} {b : β} (hrun : repeated step n s k = some b) :
    ∃ (parts : List (List Char)) (s' : Cursor), s.rest = parts.flatten ++ s'.rest ∧
      (∀ part ∈ parts, P part) ∧ k s' = some b := by
  have hdone : ∀ s : Cursor, k s = some b → ∃ (parts : List (List Char)) (s' : Cursor),
      s.rest = parts.flatten ++ s'.rest ∧ (∀ part ∈ parts, P part) ∧ k s' = some b :=
    fun s hk => ⟨[], s, rfl, fun part hpart => absurd hpart List.not_mem_nil, hk⟩
  induction n generalizing s with
  | zero => exact hdone s hrun
  | succ n ih =>
      rw [repeated] at hrun
      cases honce : step s fun s' =>
          if s'.rest.length < s.rest.length then repeated step n s' k else none with
      | none =>
          rw [honce] at hrun
          exact hdone s hrun
      | some b' =>
          rw [honce] at hrun
          cases hrun
          obtain ⟨text, s₁, hrest, htext, hagain⟩ := hstep _ _ _ honce
          split at hagain
          · obtain ⟨parts, s', hparts, hall, hk⟩ := ih hagain
            refine ⟨text :: parts, s', ?_, ?_, hk⟩
            · rw [hrest, hparts, List.flatten_cons, List.append_assoc]
            · exact List.forall_mem_cons.mpr ⟨htext, hall⟩
          · cases hagain

/-- What is taken until the result is a text of the pattern. -/
theorem run_matches {p : Pattern} {s : Cursor} {k : Cursor → Option β} {b : β} (hrun : p.run t s k = some b) :
    ∃ text s', s.rest = text ++ s'.rest ∧ Matches t p text ∧ k s' = some b := by
  induction p generalizing s k b with
  | empty => exact ⟨[], s, rfl, rfl, hrun⟩
  | one cls =>
      obtain ⟨next, hnext, hk⟩ := Option.bind_eq_some_iff.mp hrun
      obtain ⟨c, hrest, hc⟩ := Cursor.consume_matches hnext
      exact ⟨[c], next, hrest, ⟨c, rfl, hc⟩, hk⟩
  | notBehind cls =>
      rw [Pattern.run] at hrun
      split at hrun
      · cases hrun
      · exact ⟨[], s, rfl, rfl, hrun⟩
  | notAhead cls =>
      rw [Pattern.run] at hrun
      split at hrun
      · cases hrun
      · exact ⟨[], s, rfl, rfl, hrun⟩
  | boundary =>
      rw [Pattern.run] at hrun
      split at hrun
      · exact ⟨[], s, rfl, rfl, hrun⟩
      · cases hrun
  | seq p q ihp ihq =>
      obtain ⟨first, s₁, hfirst, hp, hq⟩ := ihp hrun
      obtain ⟨second, s', hsecond, hq, hk⟩ := ihq hq
      refine ⟨first ++ second, s', ?_, ⟨first, second, rfl, hp, hq⟩, hk⟩
      rw [hfirst, hsecond, List.append_assoc]
  | alt p q ihp ihq =>
      rw [Pattern.run] at hrun
      cases hp : p.run t s k with
      | some b' =>
          rw [hp] at hrun
          cases hrun
          obtain ⟨text, s', hrest, htext, hk⟩ := ihp hp
          exact ⟨text, s', hrest, .inl htext, hk⟩
      | none =>
          rw [hp] at hrun
          obtain ⟨text, s', hrest, htext, hk⟩ := ihq hrun
          exact ⟨text, s', hrest, .inr htext, hk⟩
  | star p ih =>
      obtain ⟨parts, s', hrest, hparts, hk⟩ := repeated_matches (fun s k b hstep => ih hstep) hrun
      exact ⟨parts.flatten, s', hrest, ⟨parts, rfl, hparts⟩, hk⟩

theorem all_of_matches_star {cls : CharClass} {text : List Char} (htext : Matches t (.star (.one cls)) text) :
    ∀ c ∈ text, cls.test t c = true := by
  obtain ⟨parts, rfl, hparts⟩ := htext
  intro c hc
  obtain ⟨part, hpart, hin⟩ := List.mem_flatten.mp hc
  obtain ⟨d, rfl, hd⟩ := hparts part hpart
  rw [List.mem_singleton.mp hin]
  exact hd

/-- `+` behind a class. -/
theorem all_of_matches_some {cls : CharClass} {text : List Char}
    (htext : Matches t (.atLeast (.one cls) 1) text) : text ≠ [] ∧ ∀ c ∈ text, cls.test t c = true := by
  obtain ⟨first, rest, rfl, ⟨head, tail, rfl, ⟨c, rfl, hc⟩, rfl⟩, hrest⟩ := htext
  refine ⟨List.cons_ne_nil _ _, ?_⟩
  exact List.forall_mem_cons.mpr ⟨hc, all_of_matches_star hrest⟩

theorem matches_optional {p : Pattern} {text : List Char} (htext : Matches t (.optional p) text) :
    text = [] ∨ Matches t p text := by
  obtain ⟨first, second, rfl, hp, rfl⟩ | rfl := htext
  · rw [List.append_nil]
    exact .inr hp
  · exact .inl rfl

end Matches

/-! ### Groups -/

section Groups

variable (t : CharTable) {β : Type u}

/-- What stands between two places. -/
def textBetween (start stop : Cursor) : List Char := start.rest.take (start.rest.length - stop.rest.length)

/-- A pattern in brackets, which goes on with what it has taken. -/
def group (p : Pattern) (s : Cursor) (k : List Char → Cursor → Option β) : Option β :=
  p.run t s fun stop => k (textBetween s stop) stop

/-- `*?` behind a class. -/
def lazily (cls : CharClass) : Option Char → List Char → (Cursor → Option β) → Option β
  | prev, [], k => k ⟨prev, []⟩
  | prev, c :: rest, k =>
      (k ⟨prev, c :: rest⟩).orElse fun _ => if cls.test t c then lazily cls (some c) rest k else none

variable {t}

theorem textBetween_eq {start stop : Cursor} {text : List Char} (hrest : start.rest = text ++ stop.rest) :
    textBetween start stop = text := by
  rw [textBetween, hrest, List.length_append, Nat.add_sub_cancel, List.take_left]

theorem group_eq_some {p : Pattern} {s : Cursor} {k : List Char → Cursor → Option β} {b : β}
    (hgroup : group t p s k = some b) : ∃ text s', Matches t p text ∧ k text s' = some b := by
  obtain ⟨text, s', hrest, htext, hk⟩ := run_matches hgroup
  rw [textBetween_eq hrest] at hk
  exact ⟨text, s', htext, hk⟩

theorem lazily_eq_some {cls : CharClass} {prev : Option Char} {rest : List Char} {k : Cursor → Option β}
    {b : β} (hrun : lazily t cls prev rest k = some b) : ∃ s', k s' = some b := by
  induction rest generalizing prev with
  | nil => exact ⟨_, hrun⟩
  | cons c rest ih =>
      rw [lazily] at hrun
      cases hk : k ⟨prev, c :: rest⟩ with
      | some b' =>
          rw [hk] at hrun
          exact ⟨_, hk.trans hrun⟩
      | none =>
          rw [hk, Option.orElse_none] at hrun
          split at hrun
          · exact ih hrun
          · cases hrun

end Groups

/-! ### Through a text -/

section Through

variable {β : Type u}

/-- `search`: the result at the first place that has one. -/
def search (rule : Cursor → Option β) : Option Char → List Char → Option β
  | prev, [] => rule ⟨prev, []⟩
  | prev, c :: rest => (rule ⟨prev, c :: rest⟩).orElse fun _ => search rule (some c) rest

/-- `finditer`, for matches that are not empty. A result comes with the length of its match. -/
def findAll (rule : Cursor → Option (β × Nat)) : Nat → Option Char → List Char → List β
  | _, _, [] => []
  | length + 1, _, c :: rest => findAll rule length (some c) rest
  | 0, prev, c :: rest =>
      match rule ⟨prev, c :: rest⟩ with
      | some (result, length + 1) => result :: findAll rule length (some c) rest
      | _ => findAll rule 0 (some c) rest

/-- `sub`, for matches that are not empty. -/
def replaceAll (rule : Cursor → Option (List Char × Nat)) : Nat → Option Char → List Char → List Char
  | _, _, [] => []
  | length + 1, _, c :: rest => replaceAll rule length (some c) rest
  | 0, prev, c :: rest =>
      match rule ⟨prev, c :: rest⟩ with
      | some (replacement, length + 1) => replacement ++ replaceAll rule length (some c) rest
      | _ => c :: replaceAll rule 0 (some c) rest

theorem search_eq_some {rule : Cursor → Option β} {prev : Option Char} {text : List Char} {b : β}
    (hsearch : search rule prev text = some b) : ∃ s, rule s = some b := by
  induction text generalizing prev with
  | nil => exact ⟨_, hsearch⟩
  | cons c rest ih =>
      rw [search] at hsearch
      cases hrule : rule ⟨prev, c :: rest⟩ with
      | some b' =>
          rw [hrule] at hsearch
          exact ⟨_, hrule.trans hsearch⟩
      | none =>
          rw [hrule, Option.orElse_none] at hsearch
          exact ih hsearch

theorem exists_rule_of_mem_findAll {rule : Cursor → Option (β × Nat)} {pending : Nat} {prev : Option Char}
    {text : List Char} {b : β} (hmem : b ∈ findAll rule pending prev text) :
    ∃ s length, rule s = some (b, length) := by
  induction text generalizing pending prev with
  | nil => cases pending <;> cases hmem
  | cons c rest ih =>
      cases pending with
      | succ pending => exact ih hmem
      | zero =>
          rw [findAll] at hmem
          split at hmem
          · rename_i result length hrule
            obtain rfl | hrest := List.mem_cons.mp hmem
            · exact ⟨_, _, hrule⟩
            · exact ih hrest
          · exact ih hmem

end Through

end Regex
