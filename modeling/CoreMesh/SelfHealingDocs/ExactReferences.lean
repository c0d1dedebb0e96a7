import Mathlib.Data.List.Infix
import CoreMesh.SelfHealingDocs.Truncation

/-!
# Which references are exact

`_has_exact_reference` looks for a term with none of `[a-z0-9_.-]` on either side. A full stop or a hyphen
goes on with an identifier only if more of the identifier is behind it; behind a term that ends a sentence
it hides the term.
-/

namespace CoreMesh.SelfHealingDocs

/-- What ends a sentence or a clause, and is also in `[a-z0-9_.-]`. -/
def isPunctuation (c : Char) : Bool := c == '.' || c == '-'

/-- The identifier in front of a text goes on in it. -/
def goesOn (behind : Text) : Bool := (behind.dropWhile isPunctuation).head?.any joinsTerm

/-- A place of a term in a text. -/
structure Place (term text front behind : Text) : Prop where
  split : text = front ++ (term ++ behind)
  starts : front.getLast?.any joinsTerm = false

/-- A term is somewhere in a text as an identifier of its own. -/
def OccursWhole (term text : Text) : Prop :=
  ∃ front behind, Place term text front behind ∧ goesOn behind = false

/-- A term is somewhere in a text with none of `[a-z0-9_.-]` on either side. -/
def OccursApart (term text : Text) : Prop :=
  ∃ front behind, Place term text front behind ∧ behind.head?.any joinsTerm = false

/-- A term ends a sentence or a clause somewhere in a text. -/
def OccursPunctuated (term text : Text) : Prop :=
  ∃ front behind, Place term text front behind ∧ goesOn behind = false ∧
    behind.head?.any isPunctuation = true

variable {K : Type} (python : Python K) (change : StructuralChange) (s : DocSection)

/-- A term is in the label or in the body of a section in this way. -/
def InSection (occurs : Text → Text → Prop) : Prop :=
  ∃ term ∈ lexicalTerms python change, occurs (python.casefold term) (python.casefold s.label) ∨
    occurs (python.casefold term) (python.casefold s.body)

/-- Every term that is there as an identifier of its own makes for an exact reference. -/
def ReferencesFound : Prop :=
  InSection python change s OccursWhole → hasExactReference python change s = true

/-- Some term stands apart in the text of a section, or is a route in it. -/
def HasOpenTerm : Prop :=
  ∃ term ∈ lexicalTerms python change,
    OccursApart (python.casefold term) (python.casefold (s.label ++ '\n' :: s.body)) ∨
      ((python.casefold term).head? = some '/' ∧
        python.casefold term <:+: python.casefold (s.label ++ '\n' :: s.body))

/-! ### The search -/

theorem standsHere_iff {term : Text} {before : Option Char} {text : Text} :
    standsHere term before text = true ↔
      before.any joinsTerm = false ∧ ∃ behind, text = term ++ behind ∧
        behind.head?.any joinsTerm = false := by
  rw [standsHere, Bool.and_eq_true, Bool.and_eq_true, Bool.not_eq_true', Bool.not_eq_true',
    List.isPrefixOf_iff_prefix, and_assoc]
  refine and_congr_right fun _ => ⟨?_, ?_⟩
  · rintro ⟨⟨behind, rfl⟩, hbehind⟩
    rw [List.drop_left] at hbehind
    exact ⟨behind, rfl, hbehind⟩
  · rintro ⟨behind, rfl, hbehind⟩
    rw [List.drop_left]
    exact ⟨List.prefix_append _ _, hbehind⟩

theorem any_before (before : Option Char) :
    (before.toList ++ []).getLast?.any joinsTerm = before.any joinsTerm := by
  cases before with
  | none => rfl
  | some c => rfl

theorem standsIn_iff {term : Text} {before : Option Char} {text : Text} :
    standsIn term before text = true ↔
      ∃ front behind, text = front ++ (term ++ behind) ∧
        (before.toList ++ front).getLast?.any joinsTerm = false ∧
        behind.head?.any joinsTerm = false := by
  induction text generalizing before with
  | nil =>
      rw [standsIn, standsHere_iff]
      constructor
      · rintro ⟨hbefore, behind, htext, hbehind⟩
        exact ⟨[], behind, htext, (any_before before).trans hbefore, hbehind⟩
      · rintro ⟨front, behind, htext, hfront, hbehind⟩
        obtain ⟨rfl, hrest⟩ := List.append_eq_nil_iff.mp htext.symm
        exact ⟨(any_before before).symm.trans hfront, behind, hrest.symm, hbehind⟩
  | cons c rest ih =>
      rw [standsIn, Bool.or_eq_true, standsHere_iff, ih]
      constructor
      · rintro (⟨hbefore, behind, htext, hbehind⟩ | ⟨front, behind, rfl, hfront, hbehind⟩)
        · exact ⟨[], behind, htext, (any_before before).trans hbefore, hbehind⟩
        · refine ⟨c :: front, behind, rfl, ?_, hbehind⟩
          rw [List.getLast?_append_of_ne_nil _ (List.cons_ne_nil c front)]
          exact hfront
      · rintro ⟨front, behind, htext, hfront, hbehind⟩
        cases front with
        | nil => exact .inl ⟨(any_before before).symm.trans hfront, behind, htext, hbehind⟩
        | cons d front =>
            obtain ⟨rfl, rfl⟩ := List.cons.inj htext
            rw [List.getLast?_append_of_ne_nil _ (List.cons_ne_nil c front)] at hfront
            exact .inr ⟨front, behind, rfl, hfront, hbehind⟩

theorem occursApart_iff {term text : Text} :
    OccursApart term text ↔ standsIn term none text = true := by
  rw [standsIn_iff]
  constructor
  · rintro ⟨front, behind, ⟨hsplit, hstarts⟩, hbehind⟩
    exact ⟨front, behind, hsplit, hstarts, hbehind⟩
  · rintro ⟨front, behind, hsplit, hstarts, hbehind⟩
    exact ⟨front, behind, ⟨hsplit, hstarts⟩, hbehind⟩

theorem any_tails_iff {term text : Text} :
    text.tails.any (term.isPrefixOf ·) = true ↔ term <:+: text := by
  rw [List.any_eq_true, List.infix_iff_prefix_suffix]
  simp only [List.mem_tails, List.isPrefixOf_iff_prefix]
  exact ⟨fun ⟨rest, hsuffix, hstart⟩ => ⟨rest, hstart, hsuffix⟩,
    fun ⟨rest, hstart, hsuffix⟩ => ⟨rest, hsuffix, hstart⟩⟩

variable {python change s}

theorem hasExactReference_iff :
    hasExactReference python change s = true ↔ HasOpenTerm python change s := by
  rw [hasExactReference, List.any_eq_true]
  refine exists_congr fun term => and_congr_right fun _ => ?_
  rw [Bool.or_eq_true, Bool.and_eq_true, beq_iff_eq, any_tails_iff, occursApart_iff]
  exact or_comm

/-! ### Punctuation -/

theorem joinsTerm_of_isPunctuation {c : Char} (hc : isPunctuation c = true) : joinsTerm c = true := by
  rw [isPunctuation, Bool.or_eq_true, beq_iff_eq, beq_iff_eq] at hc
  obtain rfl | rfl := hc <;> decide

theorem goesOn_of_not_isPunctuation {behind : Text} (hbehind : behind.head?.any isPunctuation = false) :
    goesOn behind = behind.head?.any joinsTerm := by
  cases behind with
  | nil => rfl
  | cons c behind =>
      have hc : isPunctuation c = false := hbehind
      rw [goesOn, List.dropWhile_cons_of_neg (by simp [hc])]

/-- An identifier of its own stands apart, or it ends a sentence or a clause. -/
theorem occursWhole_iff {term text : Text} :
    OccursWhole term text ↔ OccursApart term text ∨ OccursPunctuated term text := by
  constructor
  · rintro ⟨front, behind, hplace, hends⟩
    cases hbehind : behind.head?.any isPunctuation with
    | true => exact .inr ⟨front, behind, hplace, hends, hbehind⟩
    | false =>
        rw [goesOn_of_not_isPunctuation hbehind] at hends
        exact .inl ⟨front, behind, hplace, hends⟩
  · rintro (⟨front, behind, hplace, hbehind⟩ | ⟨front, behind, hplace, hends, -⟩)
    · refine ⟨front, behind, hplace, ?_⟩
      rw [goesOn_of_not_isPunctuation, hbehind]
      cases behind with
      | nil => rfl
      | cons c behind =>
          have hc : joinsTerm c = false := hbehind
          show isPunctuation c = false
          by_contra hpunctuation
          rw [joinsTerm_of_isPunctuation (Bool.eq_true_of_not_eq_false hpunctuation)] at hc
          cases hc
    · exact ⟨front, behind, hplace, hends⟩

/-- What stands apart in the label, or in the body, stands apart in both together. -/
theorem OccursApart.within {term label body : Text}
    (hoccurs : OccursApart term label ∨ OccursApart term body) :
    OccursApart term (label ++ '\n' :: body) := by
  obtain ⟨front, behind, ⟨rfl, hstarts⟩, hbehind⟩ | ⟨front, behind, ⟨rfl, hstarts⟩, hbehind⟩ := hoccurs
  · refine ⟨front, behind ++ '\n' :: body, ⟨by simp only [List.append_assoc], hstarts⟩, ?_⟩
    cases behind with
    | nil => exact (show joinsTerm '\n' = false by decide)
    | cons c behind => exact hbehind
  · refine ⟨label ++ '\n' :: front, behind, ⟨by simp, ?_⟩, hbehind⟩
    cases front with
    | nil =>
        rw [List.getLast?_concat]
        decide
    | cons c front =>
        rw [List.getLast?_append_of_ne_nil _ (List.cons_ne_nil _ _), List.getLast?_cons_cons]
        exact hstarts

/-- The references of a section are found exactly if no term in it ends a sentence or a clause, or some
term stands apart or is a route. -/
theorem referencesFound_iff (python : Python K) (change : StructuralChange) (s : DocSection)
    (hfold : ∀ front behind, python.casefold (front ++ '\n' :: behind) =
      python.casefold front ++ '\n' :: python.casefold behind) :
    ReferencesFound python change s ↔
      (InSection python change s OccursPunctuated → HasOpenTerm python change s) := by
  rw [ReferencesFound, hasExactReference_iff]
  constructor
  · rintro hfound ⟨term, hterm, hoccurs⟩
    refine hfound ⟨term, hterm, ?_⟩
    exact hoccurs.imp (fun h => occursWhole_iff.mpr (.inr h)) fun h => occursWhole_iff.mpr (.inr h)
  · rintro hopen ⟨term, hterm, hoccurs⟩
    rw [occursWhole_iff, occursWhole_iff, or_or_or_comm] at hoccurs
    obtain hapart | hpunctuated := hoccurs
    · refine ⟨term, hterm, .inl ?_⟩
      rw [hfold]
      exact OccursApart.within hapart
    · exact hopen ⟨term, hterm, hpunctuated⟩

/-! ### A sentence that ends in a term -/

def changedFoo : StructuralChange where
  changeId := "change-1".toList
  path := "worker.py".toList
  language := .python
  kind := .pythonFunction
  name := "foo".toList
  changeType := .modified
  before := none
  after := none
  context := []
  searchTerms := ["foo".toList]
  startLine := 1
  endLine := 2
  autoFixEligible := true

def usage (body : String) : DocSection where
  sectionId := "README.md::Usage::section-1"
  path := "README.md"
  heading := "Usage".toList
  headingPath := ["Usage".toList]
  level := 1
  body := body.toList
  bodyStart := 8
  bodyEnd := 8 + body.length
  newline := ['\n']
  ordinal := 1

theorem casefold_wholeNumbers (front behind : Text) :
    wholeNumbers.casefold (front ++ '\n' :: behind) =
      wholeNumbers.casefold front ++ '\n' :: wholeNumbers.casefold behind := by
  show List.map Char.toLower _ = _
  rw [List.map_append, List.map_cons]
  rfl

theorem referencesFound_iff_usage :
    ReferencesFound wholeNumbers changedFoo (usage "Call foo from a worker.\n") ↔
      (InSection wholeNumbers changedFoo (usage "Call foo from a worker.\n") OccursPunctuated →
        HasOpenTerm wholeNumbers changedFoo (usage "Call foo from a worker.\n")) :=
  referencesFound_iff wholeNumbers changedFoo _ casefold_wholeNumbers

/-- `foo` at the end of the sentence is not found. -/
theorem not_referencesFound_foo :
    ¬ReferencesFound wholeNumbers changedFoo (usage "A worker calls foo.\n") := by
  intro hfound
  have hoccurs : OccursWhole "foo".toList "a worker calls foo.\n".toList :=
    ⟨"a worker calls ".toList, ".\n".toList, ⟨by decide, by decide⟩, by decide⟩
  have hmissed : hasExactReference wholeNumbers changedFoo (usage "A worker calls foo.\n") = false := by
    decide
  have hterm : "foo".toList ∈ lexicalTerms wholeNumbers changedFoo := by decide
  rw [hfound ⟨_, hterm, .inr hoccurs⟩] at hmissed
  cases hmissed

end CoreMesh.SelfHealingDocs
