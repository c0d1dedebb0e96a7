import CoreMesh.Lib.Regex

/-!
# Rewriting by rules that do not see each other's markers

A rule looks at a text from left to right and replaces what it takes by a marker. Rules are applied one
after another. If no rule can tell a marker from the end of a text, the markers do not matter: what is
left of the text is what is left when the text is cut at the places taken, and each rule is applied to
every piece on its own.
-/

namespace Rewriting

open Regex (Cursor Within)

universe u

/-- What a rule does to a character. A marker stands for the first of those that it replaces. -/
inductive Fate where
  | kept
  | marked (marker : List Char)
  | dropped
  deriving DecidableEq

/-- What becomes of the characters that a rule takes from a place on. -/
abbrev Rule := Cursor → Option (List Fate)

/-- One fate for each character of a text, some of them known from a match that has begun. -/
def scan (rule : Rule) : List Fate → Option Char → List Char → List Fate
  | _, _, [] => []
  | fate :: pending, _, c :: rest => fate :: scan rule pending (some c) rest
  | [], prev, c :: rest =>
      match rule ⟨prev, c :: rest⟩ with
      | some (fate :: pending) => fate :: scan rule pending (some c) rest
      | _ => .kept :: scan rule [] (some c) rest

theorem scan_cons (rule : Rule) (prev : Option Char) (c : Char) (rest : List Char) :
    scan rule [] prev (c :: rest) =
      match rule ⟨prev, c :: rest⟩ with
      | some (fate :: pending) => fate :: scan rule pending (some c) rest
      | _ => .kept :: scan rule [] (some c) rest := rfl

def fates (rule : Rule) (text : List Char) : List Fate := scan rule [] none text

theorem length_scan (rule : Rule) (pending : List Fate) (prev : Option Char) (text : List Char) :
    (scan rule pending prev text).length = text.length := by
  induction text generalizing pending prev with
  | nil => cases pending <;> rfl
  | cons c rest ih =>
      cases pending with
      | cons fate pending => exact congrArg Nat.succ (ih pending (some c))
      | nil =>
          rw [scan]
          split
          · exact congrArg Nat.succ (ih _ (some c))
          · exact congrArg Nat.succ (ih _ (some c))

theorem length_fates (rule : Rule) (text : List Char) : (fates rule text).length = text.length :=
  length_scan rule [] none text

/-- Rules that agree wherever they are asked do the same. -/
theorem scan_congr {rule rule' : Rule} {P : Char → Prop} {text : List Char} (htext : ∀ c ∈ text, P c)
    (hsame : ∀ s, (∀ c ∈ s.prev, P c) → (∀ c ∈ s.rest, P c) → rule s = rule' s) (pending : List Fate)
    {prev : Option Char} (hprev : ∀ c ∈ prev, P c) :
    scan rule pending prev text = scan rule' pending prev text := by
  induction text generalizing pending prev with
  | nil => cases pending <;> rfl
  | cons c rest ih =>
      have hrest : ∀ pending, scan rule pending (some c) rest = scan rule' pending (some c) rest :=
        fun pending => ih (fun d hd => htext d (List.mem_cons_of_mem _ hd)) pending
          (fun d hd => by cases hd; exact htext c List.mem_cons_self)
      cases pending with
      | cons fate pending => rw [scan, scan, hrest]
      | nil =>
          rw [scan, scan, hsame ⟨prev, c :: rest⟩ hprev htext]
          simp only [hrest]

theorem mem_scan {rule : Rule} {pending : List Fate} {prev : Option Char} {text : List Char}
    {fate : Fate} (hfate : fate ∈ scan rule pending prev text) :
    fate ∈ pending ∨ fate = .kept ∨ ∃ s taken, rule s = some taken ∧ fate ∈ taken := by
  induction text generalizing pending prev with
  | nil => cases pending <;> cases hfate
  | cons c rest ih =>
      cases pending with
      | cons first pending =>
          rw [scan] at hfate
          obtain rfl | hrest := List.mem_cons.mp hfate
          · exact .inl List.mem_cons_self
          · exact (ih hrest).imp_left (List.mem_cons_of_mem _)
      | nil =>
          rw [scan_cons] at hfate
          split at hfate
          · rename_i first pending hrule
            obtain rfl | hrest := List.mem_cons.mp hfate
            · exact .inr (.inr ⟨_, _, hrule, List.mem_cons_self⟩)
            · obtain hpending | hlater := ih hrest
              · exact .inr (.inr ⟨_, _, hrule, List.mem_cons_of_mem _ hpending⟩)
              · exact .inr hlater
          · obtain rfl | hrest := List.mem_cons.mp hfate
            · exact .inr (.inl rfl)
            · exact ih hrest

/-- The only markers that a rule puts into a text. -/
def Marks (rule : Rule) (IsMarker : List Char → Prop) : Prop :=
  ∀ s taken, rule s = some taken → ∀ marker, .marked marker ∈ taken → IsMarker marker

theorem Marks.fates {rule : Rule} {IsMarker : List Char → Prop} (hmarks : Marks rule IsMarker)
    {text marker : List Char} (hmarker : .marked marker ∈ fates rule text) : IsMarker marker := by
  obtain hnone | hkept | ⟨s, taken, hrule, hin⟩ := mem_scan hmarker
  · cases hnone
  · cases hkept
  · exact hmarks s taken hrule marker hin

/-! ### Walls -/

/-- A rule to which a text ends at a wall. -/
structure Blind (wall : Char → Bool) (rule : Rule) : Prop where
  bounded : ∀ s fates, rule s = some fates → fates.length ≤ s.rest.length
  within : ∀ tail : List Char, (∀ c ∈ tail.head?, wall c = true) → ∀ s s', Within wall tail s s' →
    rule s' = rule s

section Walls

variable {wall : Char → Bool} {rule : Rule}

theorem Blind.scan_prev (hblind : Blind wall rule) {w : Char} (hw : wall w = true)
    (text : List Char) : scan rule [] (some w) text = fates rule text := by
  cases text with
  | nil => rfl
  | cons c rest =>
      rw [fates, scan, scan, hblind.within [] (fun c hc => by cases hc) ⟨none, c :: rest⟩ ⟨some w, c :: rest⟩
        ⟨(List.append_nil _).symm, .inr ⟨rfl, w, rfl, hw⟩⟩]

theorem Blind.scan_append (hblind : Blind wall rule) {w : Char} (hw : wall w = true)
    (text rest : List Char) (pending : List Fate) (hpending : pending.length ≤ text.length)
    (prev : Option Char) :
    scan rule pending prev (text ++ w :: rest) =
      scan rule pending prev text ++ .kept :: fates rule rest := by
  have hwithin : ∀ prev text, rule ⟨prev, text ++ w :: rest⟩ = rule ⟨prev, text⟩ := fun prev text =>
    hblind.within (w :: rest) (fun c hc => by cases hc; exact hw) ⟨prev, text⟩ _ ⟨rfl, .inl rfl⟩
  induction text generalizing pending prev with
  | nil =>
      obtain rfl := List.eq_nil_of_length_eq_zero (Nat.le_zero.mp hpending)
      rw [List.nil_append, scan_cons]
      have hnothing := hwithin prev []
      rw [List.nil_append] at hnothing
      rw [hnothing, hblind.scan_prev hw]
      cases hrule : rule ⟨prev, []⟩ with
      | none => rfl
      | some taken =>
          obtain rfl := List.eq_nil_of_length_eq_zero (Nat.le_zero.mp (hblind.bounded _ _ hrule))
          rfl
  | cons c text ih =>
      cases pending with
      | cons fate pending =>
          rw [List.cons_append, scan, scan, ih pending (Nat.le_of_succ_le_succ hpending)]
          rfl
      | nil =>
          have hsame := hwithin prev (c :: text)
          rw [List.cons_append] at hsame ⊢
          rw [scan, scan, hsame]
          cases hrule : rule ⟨prev, c :: text⟩ with
          | none => exact congrArg _ (ih [] (Nat.zero_le _) _)
          | some taken =>
              cases taken with
              | nil => exact congrArg _ (ih [] (Nat.zero_le _) _)
              | cons fate pending =>
                  have hlength := hblind.bounded _ _ hrule
                  exact congrArg _ (ih pending (Nat.le_of_succ_le_succ hlength) _)

theorem Blind.fates_append (hblind : Blind wall rule) {w : Char} (hw : wall w = true)
    (text rest : List Char) :
    fates rule (text ++ w :: rest) = fates rule text ++ .kept :: fates rule rest :=
  hblind.scan_append hw text rest [] (Nat.zero_le _) none

/-- A rule leaves a marker as it is, and what is around the marker is rewritten without it. -/
def Invisible (rule : Rule) (marker : List Char) : Prop :=
  ∀ before after, fates rule (before ++ marker ++ after) =
    fates rule before ++ List.replicate marker.length .kept ++ fates rule after

theorem Blind.invisible_wall (hblind : Blind wall rule) {w : Char} (hw : wall w = true) :
    Invisible rule [w] := by
  intro before after
  rw [List.append_assoc, List.singleton_append, hblind.fates_append hw, List.append_assoc]
  rfl

theorem Blind.invisible_enclosed (hblind : Blind wall rule) {w w' : Char} (hw : wall w = true)
    (hw' : wall w' = true) {inner : List Char}
    (hinner : fates rule inner = List.replicate inner.length .kept) :
    Invisible rule (w :: (inner ++ [w'])) := by
  intro before after
  have hlength : (w :: (inner ++ [w'])).length = inner.length + 1 + 1 := by simp
  rw [List.append_assoc, List.cons_append, List.append_assoc, List.singleton_append,
    hblind.fates_append hw, hblind.fates_append hw', hinner, hlength, List.append_assoc,
    List.replicate_succ, List.replicate_succ']
  simp

theorem Invisible.append {marker marker' : List Char} (hinvisible : Invisible rule marker)
    (hinvisible' : Invisible rule marker') : Invisible rule (marker ++ marker') := by
  intro before after
  have hrest := hinvisible' [] after
  rw [List.nil_append] at hrest
  rw [← List.append_assoc before, List.append_assoc (before ++ marker), hinvisible, hrest,
    List.length_append, List.replicate_add]
  simp only [fates, scan, List.nil_append, List.append_assoc]

end Walls

/-! ### Pieces and markers -/

section Texts

universe v

variable {α : Type u} {β : Type v}

/-- A text after its characters have met their fates. -/
def substitute (fresh : Char → α) : List α → List Fate → List α
  | a :: text, .kept :: fates => a :: substitute fresh text fates
  | _ :: text, .marked marker :: fates => marker.map fresh ++ substitute fresh text fates
  | _ :: text, .dropped :: fates => substitute fresh text fates
  | _, _ => []

/-- What is kept of a text, cut where something was taken. -/
def cut : List α → List Fate → List (List α)
  | a :: text, .kept :: fates =>
      match cut text fates with
      | [] => [[a]]
      | piece :: pieces => (a :: piece) :: pieces
  | _ :: text, .marked _ :: fates => [] :: cut text fates
  | _ :: text, .dropped :: fates => cut text fates
  | _, _ => [[]]

def rewrite (char : α → Char) (fresh : Char → α) (rule : Rule) (text : List α) : List α :=
  substitute fresh text (fates rule (text.map char))

def cutBy (char : α → Char) (rule : Rule) (text : List α) : List (List α) :=
  cut text (fates rule (text.map char))

theorem substitute_append (fresh : Char → α) {text : List α} {fs : List Fate}
    (hlength : fs.length = text.length) (rest : List α) (gs : List Fate) :
    substitute fresh (text ++ rest) (fs ++ gs) =
      substitute fresh text fs ++ substitute fresh rest gs := by
  induction text generalizing fs with
  | nil =>
      obtain rfl := List.eq_nil_of_length_eq_zero hlength
      rfl
  | cons a text ih =>
      cases fs with
      | nil => cases hlength
      | cons fate fs =>
          have hrest := ih (Nat.succ.inj hlength)
          cases fate with
          | kept => exact congrArg (List.cons a) hrest
          | marked marker =>
              simp only [List.cons_append, substitute, hrest, List.append_assoc]
          | dropped => exact hrest

theorem substitute_kept (fresh : Char → α) (text : List α) :
    substitute fresh text (List.replicate text.length .kept) = text := by
  induction text with
  | nil => rfl
  | cons a text ih => exact congrArg (List.cons a) ih

theorem map_substitute (fresh : Char → α) (f : α → β) (text : List α) (fs : List Fate) :
    (substitute fresh text fs).map f = substitute (f ∘ fresh) (text.map f) fs := by
  induction text generalizing fs with
  | nil => rfl
  | cons a text ih =>
      cases fs with
      | nil => rfl
      | cons fate fs =>
          cases fate with
          | kept => exact congrArg (List.cons (f a)) (ih fs)
          | marked marker =>
              simp only [substitute, List.map_cons, List.map_append, List.map_map, ih]
          | dropped => exact ih fs

/-- A text whose characters are not looked at for more than what they are. -/
theorem map_rewrite {char : α → Char} {fresh : Char → α} (hfresh : ∀ c, char (fresh c) = c)
    (rule : Rule) (text : List α) :
    (rewrite char fresh rule text).map char = rewrite id id rule (text.map char) := by
  have hid : char ∘ fresh = id := funext hfresh
  rw [rewrite, rewrite, map_substitute, hid, List.map_id]

/-- What is in a piece was kept. -/
theorem mem_cut {text : List α} {fs : List Fate} {piece : List α} {a : α} (hpiece : piece ∈ cut text fs)
    (ha : a ∈ piece) : ∃ place : Nat, text[place]? = some a ∧ fs[place]? = some Fate.kept := by
  induction text generalizing fs piece with
  | nil =>
      obtain rfl := List.mem_singleton.mp hpiece
      cases ha
  | cons first text ih =>
      have hlater {fs : List Fate} {piece : List α} (hpiece : piece ∈ cut text fs) (ha : a ∈ piece) (fate : Fate) :
          ∃ place : Nat, (first :: text)[place]? = some a ∧ (fate :: fs)[place]? = some Fate.kept := by
        obtain ⟨place, htext, hkept⟩ := ih hpiece ha
        exact ⟨place + 1, htext, hkept⟩
      cases fs with
      | nil =>
          obtain rfl := List.mem_singleton.mp hpiece
          cases ha
      | cons fate fs =>
          cases fate with
          | marked marker =>
              obtain rfl | hpiece := List.mem_cons.mp hpiece
              · cases ha
              · exact hlater hpiece ha _
          | dropped => exact hlater hpiece ha _
          | kept =>
              rw [cut] at hpiece
              cases hpieces : cut text fs with
              | nil =>
                  rw [hpieces] at hpiece
                  obtain rfl := List.mem_singleton.mp hpiece
                  obtain rfl := List.mem_singleton.mp ha
                  exact ⟨0, rfl, rfl⟩
              | cons next pieces =>
                  rw [hpieces] at hpiece
                  obtain rfl | hpiece := List.mem_cons.mp hpiece
                  · obtain rfl | ha := List.mem_cons.mp ha
                    · exact ⟨0, rfl, rfl⟩
                    · exact hlater (hpieces ▸ List.mem_cons_self) ha _
                  · exact hlater (hpieces ▸ List.mem_cons_of_mem _ hpiece) ha _

theorem cut_kept (text : List α) : cut text (List.replicate text.length .kept) = [text] := by
  induction text with
  | nil => rfl
  | cons a text ih =>
      rw [List.length_cons, List.replicate_succ, cut, ih]

/-- Cutting again brings nothing into a piece. -/
theorem mem_foldl_cutBy {char : α → Char} {rules : List Rule} {pieces : List (List α)} {piece : List α} {a : α}
    (hpiece : piece ∈ rules.foldl (fun pieces rule => pieces.flatMap (cutBy char rule)) pieces) (ha : a ∈ piece) :
    ∃ before ∈ pieces, a ∈ before := by
  induction rules generalizing pieces with
  | nil => exact ⟨piece, hpiece, ha⟩
  | cons rule rules ih =>
      obtain ⟨middle, hmiddle, hin⟩ := ih hpiece
      obtain ⟨before, hbefore, hcut⟩ := List.mem_flatMap.mp hmiddle
      obtain ⟨place, hplace, -⟩ := mem_cut hcut hin
      exact ⟨before, hbefore, List.mem_of_getElem? hplace⟩

/-- The text is pieces with markers between them. -/
inductive Woven (fresh : Char → α) (IsMarker : List Char → Prop) : List α → List (List α) → Prop where
  | last (piece : List α) : Woven fresh IsMarker piece [piece]
  | cons (piece : List α) {marker : List Char} {text : List α} {pieces : List (List α)}
      (hmarker : IsMarker marker) (hrest : Woven fresh IsMarker text pieces) :
      Woven fresh IsMarker (piece ++ marker.map fresh ++ text) (piece :: pieces)

namespace Woven

variable {fresh : Char → α} {IsMarker : List Char → Prop} {text text' : List α}
  {pieces pieces' : List (List α)}

theorem append {marker : List Char} (hwoven : Woven fresh IsMarker text pieces)
    (hmarker : IsMarker marker) (hwoven' : Woven fresh IsMarker text' pieces') :
    Woven fresh IsMarker (text ++ marker.map fresh ++ text') (pieces ++ pieces') := by
  induction hwoven with
  | last piece => exact .cons piece hmarker hwoven'
  | cons piece hmarker' hrest ih =>
      rw [List.append_assoc, List.append_assoc, ← List.append_assoc _ _ text']
      exact .cons piece hmarker' ih

theorem mem_iff (hwoven : Woven fresh IsMarker text pieces) {a : α} (ha : ∀ c, a ≠ fresh c) :
    a ∈ text ↔ ∃ piece ∈ pieces, a ∈ piece := by
  induction hwoven with
  | last piece => simp
  | @cons piece marker text pieces hmarker hrest ih =>
      have hnew : a ∉ marker.map fresh := by
        intro hin
        obtain ⟨c, -, hc⟩ := List.mem_map.mp hin
        exact ha c hc.symm
      rw [List.mem_append, List.mem_append, ih]
      simp [hnew]

end Woven

/-- Once a rule has been through a text, what is kept is in pieces. -/
theorem woven_cut (fresh : Char → α) {IsMarker : List Char → Prop} (text : List α) (fs : List Fate)
    (hmarkers : ∀ marker, .marked marker ∈ fs → IsMarker marker) :
    Woven fresh IsMarker (substitute fresh text fs) (cut text fs) := by
  induction text generalizing fs with
  | nil => exact .last []
  | cons a text ih =>
      cases fs with
      | nil => exact .last []
      | cons fate fs =>
          have hrest := ih fs fun marker hin => hmarkers marker (List.mem_cons_of_mem _ hin)
          cases fate with
          | kept =>
              rw [substitute, cut]
              generalize substitute fresh text fs = text' at hrest
              generalize cut text fs = pieces at hrest
              cases hrest with
              | last piece => exact .last (a :: text')
              | cons piece hmarker hrest => exact .cons (a :: piece) hmarker hrest
          | marked marker => exact .cons [] (hmarkers marker List.mem_cons_self) hrest
          | dropped => exact hrest

/-- A rule that leaves the markers as they are rewrites every piece on its own. -/
theorem Woven.rewrite {char : α → Char} {fresh : Char → α} (hfresh : ∀ c, char (fresh c) = c)
    {IsMarker : List Char → Prop} {rule : Rule} (hinvisible : ∀ marker, IsMarker marker → Invisible rule marker)
    (hmarks : Marks rule IsMarker) {text : List α}
    {pieces : List (List α)} (hwoven : Woven fresh IsMarker text pieces) :
    Woven fresh IsMarker (rewrite char fresh rule text) (pieces.flatMap (cutBy char rule)) := by
  have halone : ∀ piece, Woven fresh IsMarker (Rewriting.rewrite char fresh rule piece)
      (cutBy char rule piece) := fun piece => woven_cut fresh piece _ fun _ => hmarks.fates
  induction hwoven with
  | last piece =>
      rw [List.flatMap_singleton]
      exact halone piece
  | @cons piece marker text pieces hmarker hrest ih =>
      have hmap : (marker.map fresh).map char = marker := by
        rw [List.map_map, show char ∘ fresh = id from funext hfresh, List.map_id]
      have hlength : (fates rule (piece.map char)).length = piece.length := by
        rw [length_fates, List.length_map]
      have hkept : List.replicate marker.length Fate.kept =
          List.replicate (marker.map fresh).length .kept := by rw [List.length_map]
      have hsplit : Rewriting.rewrite char fresh rule (piece ++ marker.map fresh ++ text) =
          Rewriting.rewrite char fresh rule piece ++ marker.map fresh ++
            Rewriting.rewrite char fresh rule text := by
        rw [Rewriting.rewrite, List.map_append, List.map_append, hmap, hinvisible marker hmarker,
          List.append_assoc, List.append_assoc, substitute_append fresh hlength, hkept,
          substitute_append fresh (List.length_replicate ..), substitute_kept, List.append_assoc]
        rfl
      rw [hsplit, List.flatMap_cons]
      exact (halone piece).append hmarker ih

/-- Rules one after another leave the pieces that they cut one after another. -/
theorem Woven.foldl_rewrite {char : α → Char} {fresh : Char → α} (hfresh : ∀ c, char (fresh c) = c)
    {IsMarker : List Char → Prop} {rules : List Rule}
    (hrules : ∀ rule ∈ rules, (∀ marker, IsMarker marker → Invisible rule marker) ∧
      Marks rule IsMarker) {text : List α} {pieces : List (List α)}
    (hwoven : Woven fresh IsMarker text pieces) :
    Woven fresh IsMarker (rules.foldl (fun text rule => Rewriting.rewrite char fresh rule text) text)
      (rules.foldl (fun pieces rule => pieces.flatMap (cutBy char rule)) pieces) := by
  induction rules generalizing text pieces with
  | nil => exact hwoven
  | cons rule rules ih =>
      obtain ⟨hinvisible, hmarks⟩ := hrules rule List.mem_cons_self
      exact ih (fun rule hrule => hrules rule (List.mem_cons_of_mem _ hrule))
        (hwoven.rewrite hfresh hinvisible hmarks)

end Texts

end Rewriting
