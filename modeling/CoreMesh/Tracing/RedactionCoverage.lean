import CoreMesh.Tracing.PromptRedactor

/-!
# What redaction leaves of a prompt

No built-in rule can tell a marker from the end of a text. The characters of a prompt that are left are
therefore those of the pieces that are left when the prompt is cut at what the rules take, one rule after
another and every piece on its own, whatever the deployment's patterns take besides.
-/

namespace CoreMesh.Tracing.PromptRedactor

open Regex Rewriting

/-- A rule takes the character at a place of the text. -/
def Takes (rule : Rule) (text : Text) (place : Nat) : Prop :=
  ∃ fate, (fates rule text)[place]? = some fate ∧ fate ≠ .kept

/-- No character that a rule takes in the prompt is in what its redaction returns. -/
def Covered (t : CharTable) (compile : String → Option Compiled) (customPatterns : List String)
    (prompt : Text) : Prop :=
  ∀ rule ∈ rules t, ∀ place, Takes rule prompt place →
    ∀ c, (c, some place) ∉ redactTracked t compile customPatterns prompt

/-- The pieces of a prompt that are left when it is cut at what the rules take. -/
def leftOver (t : CharTable) (prompt : Text) : List (List Tracked) :=
  (rules t).foldl (fun pieces rule => pieces.flatMap (cutBy Prod.fst rule)) [track prompt]

/-! ### Markers -/

def labels : List String := ["CREDENTIAL", "PHONE", "PAYMENT", "GOVERNMENT_ID", "EMAIL", "IP_ADDRESS"]

def quotes : List Char := "\"'".toList

def IsMarker (marker : Text) : Prop :=
  (∃ label ∈ labels, marker = markerOf label) ∨
    ∃ quote ∈ quotes, marker = quote :: (markerOf "CREDENTIAL" ++ [quote])

/-- The characters at the ends of markers. -/
def isWall (c : Char) : Bool := "[]\"'".toList.contains c

/-- A pattern that takes no walls, nor looks for them. -/
def wallFree (pattern : Pattern) : Bool :=
  pattern.classes.all fun cls => "[]\"'".toList.all fun c => !cls.test ascii c

def inner (label : String) : Text := ("REDACTED_" ++ label).toList

theorem wallFree_of_mem : ∀ rule ∈ patternRules, wallFree rule.1 = true := by
  decide +kernel

/-- A label alone is no match. -/
theorem fates_inner_ascii : ∀ rule ∈ patternRules, ∀ label ∈ labels,
    fates (patternRule ascii rule.1 rule.2) (inner label) =
      List.replicate (inner label).length .kept := by
  decide +kernel

/-! ### The rules that see markers -/

theorem replace_cases : ∀ rule ∈ patternRules,
    rule.2 = replaceIpv6 ∨ ∃ label ∈ labels, rule.2 = replaceMatch label := by
  simp [patternRules, builtIns, labels]

theorem length_replaced (marker : Text) (n : Nat) : (replaced marker n).length = n := by
  cases n <;> simp [replaced]

theorem marker_of_mem_replaced {marker marker' : Text} {n : Nat}
    (hmarker : .marked marker ∈ replaced marker' n) : marker = marker' := by
  cases n with
  | zero => cases hmarker
  | succ n =>
      obtain hfirst | hrest := List.mem_cons.mp hmarker
      · exact Fate.marked.inj hfirst
      · cases List.eq_of_mem_replicate hrest

theorem not_marked_of_mem_kept {marker : Text} {n : Nat} :
    Fate.marked marker ∉ List.replicate n Fate.kept := by
  intro hmarker
  cases List.eq_of_mem_replicate hmarker

section Rules

variable {t : CharTable} {rule : Pattern × (Text → List Fate)}

theorem length_replace (hrule : rule ∈ patternRules) (text : Text) :
    (rule.2 text).length = text.length := by
  obtain hreplace | ⟨label, -, hreplace⟩ := replace_cases rule hrule
  · rw [hreplace, replaceIpv6]
    split
    · exact length_replaced _ _
    · exact List.length_replicate
  · rw [hreplace]
    exact length_replaced _ _

theorem marks_patternRule (hrule : rule ∈ patternRules) :
    Marks (patternRule t rule.1 rule.2) IsMarker := by
  intro s taken htaken marker hmarker
  obtain ⟨length, -, rfl⟩ := Option.map_eq_some_iff.mp htaken
  obtain hreplace | ⟨label, hlabel, hreplace⟩ := replace_cases rule hrule
  · rw [hreplace, replaceIpv6] at hmarker
    split at hmarker
    · exact .inl ⟨"IP_ADDRESS", by decide, marker_of_mem_replaced hmarker⟩
    · exact absurd hmarker not_marked_of_mem_kept
  · rw [hreplace] at hmarker
    exact .inl ⟨label, hlabel, marker_of_mem_replaced hmarker⟩

theorem test_of_isWall {pattern : Pattern} (hfree : wallFree pattern = true) :
    ∀ cls ∈ pattern.classes, ∀ c, isWall c = true → cls.test t c = false := by
  intro cls hcls c hc
  have hwall := List.contains_iff_mem.mp hc
  have hall : ("[]\"'".toList.all fun c => decide (c.toNat < 128)) = true := by decide
  have hascii : c.toNat < 128 := of_decide_eq_true (List.all_eq_true.mp hall c hwall)
  rw [cls.test_of_ascii t ascii hascii]
  have htest := List.all_eq_true.mp (List.all_eq_true.mp hfree cls hcls) c hwall
  simpa using htest

theorem matchLength_le {pattern : Pattern} {s : Cursor} {n : Nat}
    (hmatch : matchLength t pattern s = some n) : n ≤ s.rest.length := by
  obtain ⟨stop, -, hstop⟩ := run_eq_some hmatch
  have hlength := Option.some.inj hstop
  omega

theorem matchLength_within {pattern : Pattern} (hfree : wallFree pattern = true) {tail : Text}
    (htail : ∀ c ∈ tail.head?, isWall c = true) {s s' : Cursor} (hs : Within isWall tail s s') :
    matchLength t pattern s' = matchLength t pattern s := by
  refine (run_alike (alike_within htail (test_of_isWall hfree)) (fun stop stop' hstop => ?_) hs).symm
  rw [hs.rest, hstop.rest, List.length_append, List.length_append, Nat.add_sub_add_right]

theorem blind_patternRule (hrule : rule ∈ patternRules) :
    Blind isWall (patternRule t rule.1 rule.2) where
  bounded s taken htaken := by
    obtain ⟨length, hmatch, rfl⟩ := Option.map_eq_some_iff.mp htaken
    rw [length_replace hrule, List.length_take]
    exact Nat.min_le_right _ _
  within tail htail s s' hs := by
    rw [patternRule, patternRule, matchLength_within (wallFree_of_mem rule hrule) htail hs]
    cases hmatch : matchLength t rule.1 s with
    | none => rfl
    | some length =>
        rw [Option.map_some, Option.map_some, hs.rest, List.take_append_of_le_length (matchLength_le hmatch)]

theorem fates_inner (hrule : rule ∈ patternRules) {label : String} (hlabel : label ∈ labels) :
    fates (patternRule t rule.1 rule.2) (inner label) =
      List.replicate (inner label).length .kept := by
  have hascii : ∀ c ∈ inner label, c.toNat < 128 := by
    have hall : (labels.all fun label => (inner label).all fun c => decide (c.toNat < 128)) = true := by
      decide +kernel
    intro c hc
    exact of_decide_eq_true (List.all_eq_true.mp (List.all_eq_true.mp hall label hlabel) c hc)
  rw [← fates_inner_ascii rule hrule label hlabel]
  refine scan_congr hascii (fun s hprev hrest => ?_) [] (fun c hc => by cases hc)
  have hmatch : matchLength t rule.1 s = matchLength ascii rule.1 s :=
    run_alike (alike_ascii t ascii _) (fun stop stop' hstop => by rw [hstop.1]) ⟨rfl, hprev, hrest⟩
  rw [patternRule, patternRule, hmatch]

theorem invisible_markerOf (hrule : rule ∈ patternRules) {label : String} (hlabel : label ∈ labels) :
    Invisible (patternRule t rule.1 rule.2) (markerOf label) := by
  have hmarker : markerOf label = '[' :: (inner label ++ [']']) := by
    simp [markerOf, inner]
  rw [hmarker]
  exact (blind_patternRule hrule).invisible_enclosed (by decide) (by decide) (fates_inner hrule hlabel)

theorem invisible_marker (hrule : rule ∈ patternRules) {marker : Text} (hmarker : IsMarker marker) :
    Invisible (patternRule t rule.1 rule.2) marker := by
  obtain ⟨label, hlabel, rfl⟩ | ⟨quote, hquote, rfl⟩ := hmarker
  · exact invisible_markerOf hrule hlabel
  · have hwall : isWall quote = true := by
      have hall : (quotes.all isWall) = true := by decide
      exact List.all_eq_true.mp hall quote hquote
    have hquotes := (blind_patternRule (t := t) hrule).invisible_wall hwall
    exact (hquotes.append (invisible_markerOf hrule (by decide))).append hquotes

theorem marks_credentialAssignment : Marks (credentialAssignment t) IsMarker := by
  intro s taken htaken marker hmarker
  obtain ⟨⟨start, stop⟩, -, rfl⟩ := Option.map_eq_some_iff.mp htaken
  obtain hkept | hreplaced := List.mem_append.mp hmarker
  · exact absurd hkept not_marked_of_mem_kept
  · rw [marker_of_mem_replaced hreplaced, credentialMarker]
    split
    · rename_i c _
      split
      · rename_i hquote
        exact .inr ⟨c, List.contains_iff_mem.mp hquote, rfl⟩
      · exact .inl ⟨"CREDENTIAL", by decide, rfl⟩
    · exact .inl ⟨"CREDENTIAL", by decide, rfl⟩

end Rules

/-! ### What is left of a prompt -/

theorem mem_subSpans {α : Type} {marker : List α} {spans : List (Nat × Nat)} {place : Nat}
    {text : List α} {a : α} (ha : a ∈ subSpans marker spans place text) : a ∈ text ∨ a ∈ marker := by
  induction spans generalizing place text with
  | nil => exact .inl ha
  | cons span spans ih =>
      obtain ⟨start, stop⟩ := span
      obtain hhead | hrest := List.mem_append.mp ha
      · exact (List.mem_append.mp hhead).imp_left List.mem_of_mem_take
      · exact (ih hrest).imp_left List.mem_of_mem_drop

theorem map_subSpans {α β : Type} (f : α → β) (marker : List α) (spans : List (Nat × Nat)) (place : Nat)
    (text : List α) :
    (subSpans marker spans place text).map f = subSpans (marker.map f) spans place (text.map f) := by
  induction spans generalizing place text with
  | nil => rfl
  | cons span spans ih =>
      obtain ⟨start, stop⟩ := span
      simp only [subSpans, List.map_append, List.map_take, List.map_drop, ih]

section Prompt

variable (t : CharTable) (prompt : Text)

theorem map_track : (track prompt).map Prod.fst = prompt := by
  rw [track, List.map_map]
  exact List.zipIdx_map_fst 0 prompt

/-- The prompt once the built-in rules have been through it. -/
def afterRules : List Tracked :=
  (rules t).foldl (fun text rule => rewrite Prod.fst (fun c => (c, none)) rule text) (track prompt)

theorem woven_afterRules :
    Woven (fun c => ((c, none) : Tracked)) IsMarker (afterRules t prompt) (leftOver t prompt) := by
  have hfirst : Woven (fun c => ((c, none) : Tracked)) IsMarker
      (rewrite Prod.fst (fun c => (c, none)) (credentialAssignment t) (track prompt))
      ([track prompt].flatMap (cutBy Prod.fst (credentialAssignment t))) := by
    rw [List.flatMap_singleton]
    exact woven_cut _ _ _ fun _ => marks_credentialAssignment.fates
  rw [afterRules, leftOver, rules, List.foldl_cons, List.foldl_cons]
  refine hfirst.foldl_rewrite (fun c => rfl) fun rule hrule => ?_
  obtain ⟨rule, hpattern, rfl⟩ := List.mem_map.mp hrule
  exact ⟨fun marker => invisible_marker hpattern, marks_patternRule hpattern⟩

attribute [local irreducible] rules

theorem redactTracked_nil : redactTracked t (fun _ => none) [] prompt = afterRules t prompt := rfl

/-- A character of the prompt is left by the built-in rules if it is in a piece that is left. -/
theorem mem_afterRules_iff (c : Char) (place : Nat) :
    (c, some place) ∈ afterRules t prompt ↔ ∃ piece ∈ leftOver t prompt, (c, some place) ∈ piece :=
  (woven_afterRules t prompt).mem_iff fun d hd => by cases hd

variable {t prompt}

/-- The patterns of the deployment bring nothing back. -/
theorem mem_afterRules {compile : String → Option Compiled} {customPatterns : List String} {c : Char}
    {place : Nat} (hleft : (c, some place) ∈ redactTracked t compile customPatterns prompt) :
    (c, some place) ∈ afterRules t prompt := by
  suffices hall : ∀ (patterns : List Compiled) (text : List Tracked),
      (c, some place) ∈ patterns.foldl (fun text pattern =>
        subSpans ((markerOf "CUSTOM").map fun c => ((c, none) : Tracked))
          (pattern.spans (text.map Prod.fst)) 0 text) text → (c, some place) ∈ text from
    hall _ _ hleft
  intro patterns
  induction patterns with
  | nil => exact fun text hin => hin
  | cons pattern patterns ih =>
      intro text hin
      obtain htext | hmarker := mem_subSpans (ih _ hin)
      · exact htext
      · obtain ⟨d, -, hd⟩ := List.mem_map.mp hmarker
        cases hd

/-- Followed by their places, the characters are those of the redacted prompt. -/
theorem map_redactTracked (compile : String → Option Compiled) (customPatterns : List String) :
    (redactTracked t compile customPatterns prompt).map Prod.fst =
      redact t compile customPatterns prompt := by
  have hrules : ∀ (rules : List Rule) (text : List Tracked),
      (rules.foldl (fun text rule => rewrite Prod.fst (fun c => (c, none)) rule text) text).map Prod.fst =
        rules.foldl (fun text rule => rewrite id id rule text) (text.map Prod.fst) := by
    intro rules
    induction rules with
    | nil => exact fun text => rfl
    | cons rule rules ih =>
        intro text
        rw [List.foldl_cons, List.foldl_cons, ih, map_rewrite fun c => rfl]
  have hpatterns : ∀ (patterns : List Compiled) (text : List Tracked),
      (patterns.foldl (fun text pattern =>
        subSpans ((markerOf "CUSTOM").map fun c => ((c, none) : Tracked))
          (pattern.spans (text.map Prod.fst)) 0 text) text).map Prod.fst =
        patterns.foldl (fun text pattern => subSpans ((markerOf "CUSTOM").map id)
          (pattern.spans (text.map id)) 0 text) (text.map Prod.fst) := by
    intro patterns
    induction patterns with
    | nil => exact fun text => rfl
    | cons pattern patterns ih =>
        intro text
        rw [List.foldl_cons, List.foldl_cons, ih, map_subSpans, List.map_map, List.map_id (List.map _ _)]
        rfl
  rw [redactTracked, redactBy, hpatterns, hrules, map_track]
  rfl

/-- Whatever the deployment's patterns are, nothing that a rule takes in the prompt is left, exactly if
it is in no piece that is left when the prompt itself is cut. -/
theorem covered_iff (t : CharTable) (prompt : Text) :
    (∀ compile customPatterns, Covered t compile customPatterns prompt) ↔
      ∀ rule ∈ rules t, ∀ place, Takes rule prompt place →
        ∀ piece ∈ leftOver t prompt, ∀ c, (c, some place) ∉ piece := by
  constructor
  · intro hcovered rule hrule place htakes piece hpiece c hin
    refine hcovered (fun _ => none) [] rule hrule place htakes c ?_
    rw [redactTracked_nil]
    exact (mem_afterRules_iff t prompt c place).mpr ⟨piece, hpiece, hin⟩
  · intro hcut compile customPatterns rule hrule place htakes c hleft
    obtain ⟨piece, hpiece, hin⟩ := (mem_afterRules_iff t prompt c place).mp (mem_afterRules hleft)
    exact hcut rule hrule place htakes piece hpiece c hin

/-- A rule that takes nothing cuts nothing. -/
theorem cutBy_track {rule : Rule} (hnone : ∀ place, ¬Takes rule prompt place) :
    cutBy Prod.fst rule (track prompt) = [track prompt] := by
  have hkept : fates rule prompt = List.replicate (track prompt).length .kept := by
    refine List.eq_replicate_iff.mpr ⟨?_, fun fate hfate => ?_⟩
    · rw [length_fates, track, List.length_map, List.length_zipIdx]
    · obtain ⟨place, hplace⟩ := List.mem_iff_getElem?.mp hfate
      exact not_not.mp fun hne => hnone place ⟨fate, hplace, hne⟩
  rw [cutBy, map_track, hkept, cut_kept]

/-- Where no other rule takes anything, a rule takes all that it takes. -/
theorem not_mem_leftOver {rule : Rule} (hrule : rule ∈ rules t)
    (halone : ∀ other ∈ rules t, other ≠ rule → ∀ place, ¬Takes other prompt place) {place : Nat}
    (htakes : Takes rule prompt place) : ∀ piece ∈ leftOver t prompt, ∀ c, (c, some place) ∉ piece := by
  intro piece hpiece c hin
  obtain ⟨before, after, hsplit, hfirst⟩ := List.eq_append_cons_of_mem hrule
  have hbefore : before.foldl (fun pieces rule => pieces.flatMap (cutBy Prod.fst rule)) [track prompt] =
      [track prompt] := by
    have hothers : ∀ other ∈ before, cutBy Prod.fst other (track prompt) = [track prompt] := by
      intro other hother
      refine cutBy_track (halone other ?_ fun heq => hfirst (heq ▸ hother))
      rw [hsplit]
      exact List.mem_append_left _ hother
    clear hsplit hfirst
    induction before with
    | nil => rfl
    | cons other before ih =>
        rw [List.foldl_cons, List.flatMap_singleton, hothers other List.mem_cons_self]
        exact ih fun other hother => hothers other (List.mem_cons_of_mem _ hother)
  rw [leftOver, hsplit, List.foldl_append, hbefore, List.foldl_cons, List.flatMap_singleton] at hpiece
  obtain ⟨cutPiece, hcut, hleft⟩ := mem_foldl_cutBy hpiece hin
  obtain ⟨index, hindex, hkept⟩ := mem_cut hcut hleft
  have hplace : index = place := by
    rw [track, List.getElem?_map, List.getElem?_zipIdx] at hindex
    obtain ⟨⟨d, place'⟩, hentry, hsame⟩ := Option.map_eq_some_iff.mp hindex
    obtain ⟨d', -, hpair⟩ := Option.map_eq_some_iff.mp hentry
    simp only [Prod.mk.injEq, Option.some.injEq] at hsame hpair
    omega
  obtain ⟨fate, hfate, hne⟩ := htakes
  rw [map_track, hplace, hfate] at hkept
  exact hne (Option.some.inj hkept)

/-- A prompt in which one rule only takes anything is redacted: followed by their places, the characters of what
is returned are none that it takes. -/
theorem redact_of_alone {rule : Rule} (hrule : rule ∈ rules t)
    (halone : ∀ other ∈ rules t, other ≠ rule → ∀ place, ¬Takes other prompt place)
    (compile : String → Option Compiled) (customPatterns : List String) :
    ∃ tracked : List Tracked, tracked.map Prod.fst = redact t compile customPatterns prompt ∧
      ∀ place, Takes rule prompt place → ∀ c, (c, some place) ∉ tracked := by
  refine ⟨_, map_redactTracked compile customPatterns, fun place htakes c hleft => ?_⟩
  obtain ⟨piece, hpiece, hin⟩ := (mem_afterRules_iff t prompt c place).mp (mem_afterRules hleft)
  exact not_mem_leftOver hrule halone htakes piece hpiece c hin

end Prompt

/-- A telephone number in the name of a mailbox is taken before the address is looked for. -/
theorem not_covered_of_mailbox :
    ¬ Covered ascii (fun _ => none) [] "john.4155550199@example.com".toList := by
  intro hcovered
  have hrule : patternRule ascii emailAddress (replaceMatch "EMAIL") ∈ rules ascii := by
    rw [rules]
    refine List.mem_cons_of_mem _ (List.mem_map.mpr ⟨(emailAddress, replaceMatch "EMAIL"), ?_, rfl⟩)
    simp [patternRules, builtIns]
  have htakes : Takes (patternRule ascii emailAddress (replaceMatch "EMAIL"))
      "john.4155550199@example.com".toList 0 :=
    ⟨.marked (markerOf "EMAIL"), by decide +kernel, by decide⟩
  have hleft : ('j', some 0) ∈ redactTracked ascii (fun _ => none) []
      "john.4155550199@example.com".toList := by decide +kernel
  exact hcovered _ hrule 0 htakes 'j' hleft

end CoreMesh.Tracing.PromptRedactor
