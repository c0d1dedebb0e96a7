import CoreMesh.Lib.Except
import CoreMesh.SelfHealingDocs.Structural

/-!
# Retrieval of candidate sections

`self_healing_docs/retrieval.py`: the sections that a structural change may have made stale, by exact
references and by the similarity of embeddings. Floating-point numbers, `str.casefold` and the provider of
the embeddings are parameters, and nothing is taken for granted of them.
-/

namespace CoreMesh.SelfHealingDocs

open SqlEngine (strip)

/-- What the code uses of Python's floating-point numbers, `sum` and `round` among it, and `str.casefold`. -/
structure Python (K : Type) where
  zero : K
  one : K
  minusOne : K
  mul : K → K → K
  div : K → K → K
  neg : K → K
  sqrt : K → K
  sum : List K → K
  round6 : K → K
  isFinite : K → Bool
  eq : K → K → Bool
  lt : K → K → Bool
  le : K → K → Bool
  format2 : K → Text
  casefold : Text → Text

/-- An exception: the name of its type and its text. -/
structure Raised where
  typeName : String
  message : Text
  deriving DecidableEq

def retrievalError (parts : List Text) : Raised := ⟨"RetrievalError", parts.flatten⟩

def natText (n : Nat) : Text := (toString n).toList

/-- `l[:n]`. -/
def upTo {α : Type} (n : Int) (l : List α) : List α :=
  l.take (if n < 0 then l.length + n else n).toNat

/-! ### What is embedded -/

/-- `_bounded_text`. -/
def boundedText (value : Option Text) (maxChars : Nat) (fallback : String) : Text :=
  match value with
  | none | some [] => fallback.toList
  | some text =>
      if text.length ≤ maxChars then text
      else
        let half := (maxChars - 32) / 2
        text.take half ++ "\n...[input truncated]...\n".toList ++ text.drop (text.length - half)

def Language.text : Language → Text
  | .python => "python".toList
  | .go => "go".toList
  | .compose => "compose".toList

def StructuralChange.embeddingText (change : StructuralChange) : Text :=
  joinWith "\n" [
    "File: ".toList ++ change.path,
    "Language: ".toList ++ change.language.text,
    "Structure: ".toList ++ change.kind.text ++ ' ' :: change.name,
    "Change: ".toList ++ change.changeType.text,
    "Before: ".toList ++ boundedText change.before 4000 "<absent>",
    "After: ".toList ++ boundedText change.after 4000 "<absent>",
    "Context: ".toList ++ boundedText (some change.context) 1000 "<none>"]

def DocSection.label (s : DocSection) : Text := joinWith " > " s.headingPath

def DocSection.embeddingText (s : DocSection) : Text :=
  "Document: ".toList ++ s.path.toList ++ "\nSection: ".toList ++ s.label ++ '\n' :: s.body.take 12000

/-! ### Exact references -/

/-- `_COMMON_TERMS`. -/
def commonTerms : List Text :=
  ["application", "class", "config", "configuration", "context", "default", "dict", "float", "field",
    "function", "handler", "int", "integer", "list", "method", "module", "request", "response", "route",
    "service", "settings", "string", "type"].map String.toList

def continuesRoute (c : Char) : Bool := c.isAlphanum || "_./{}:-".toList.contains c

/-- `re.findall` with `/[A-Za-z0-9_./{}:-]+`, with as many steps as there are characters. -/
def findRoutes : Nat → Text → List Text
  | 0, _ => []
  | _ + 1, [] => []
  | steps + 1, c :: rest =>
      let run := rest.takeWhile continuesRoute
      if c == '/' && 1 ≤ run.length then (c :: run) :: findRoutes steps (rest.drop run.length)
      else findRoutes steps rest

/-- `[a-z0-9_.-]`, which an exact reference does not stand next to. -/
def joinsTerm (c : Char) : Bool := c.isLower || c.isDigit || "_.-".toList.contains c

def standsHere (term : Text) (before : Option Char) (text : Text) : Bool :=
  !before.any joinsTerm && term.isPrefixOf text && !(text.drop term.length).head?.any joinsTerm

/-- `re.search` with the term between the two lookarounds, behind a character. -/
def standsIn (term : Text) (before : Option Char) : Text → Bool
  | [] => standsHere term before []
  | c :: rest => standsHere term before (c :: rest) || standsIn term (some c) rest

inductive MatchReason where
  | exactReference
  | embeddingSimilarity
  deriving DecidableEq, Repr

structure CandidateMatch (K : Type) where
  changeId : Text
  sectionId : String
  similarity : K
  reasons : List MatchReason
  deriving DecidableEq

/-- The candidates are `matches`. -/
structure RetrievalResult (K : Type) where
  candidates : List (CandidateMatch K)
  truncatedChangeIds : List Text
  deriving DecidableEq

section Retrieval

variable {K : Type} (python : Python K)

def isCommon (term : Text) : Bool := commonTerms.contains (python.casefold term)

/-- The terms that a search term is taken for. -/
def termsFrom (raw : Text) : List Text :=
  let value := strip raw
  (if 3 ≤ value.length && value.length ≤ 160 then [value] else []) ++
    (findTerms value.length value).filter (fun token => !isCommon python token) ++
    (findRoutes value.length value).filter fun route => 3 ≤ route.length

def longerFirst (a b : Text) : Prop :=
  b.length < a.length ∨ (a.length = b.length ∧ python.casefold a ≤ python.casefold b)

instance : DecidableRel (longerFirst python) := fun _ _ => inferInstanceAs (Decidable (_ ∨ _))

/-- `_lexical_terms`. -/
def lexicalTerms (change : StructuralChange) : List Text :=
  (((change.name :: change.searchTerms.flatMap (termsFrom python)).filter
    fun term => 3 ≤ term.length && !isCommon python term).dedup).insertionSort (longerFirst python)

/-- `_has_exact_reference`. -/
def hasExactReference (change : StructuralChange) (s : DocSection) : Bool :=
  let haystack := python.casefold (s.label ++ '\n' :: s.body)
  (lexicalTerms python change).any fun term =>
    let normalized := python.casefold term
    (normalized.head? == some '/' && haystack.tails.any (normalized.isPrefixOf ·)) ||
      standsIn normalized none haystack

/-! ### Vectors -/

/-- The vectors from an index on, behind ones of some width, each divided by its length. -/
def normalizeVectors : Option Nat → Nat → List (List K) → Except Raised (List (List K))
  | _, _, [] => .ok []
  | width, index, values :: vectors =>
      if values = [] then .error (retrievalError ["embedding ".toList, natText index, " is empty".toList])
      else if !values.all python.isFinite then
        .error (retrievalError ["embedding ".toList, natText index, " contains non-finite values".toList])
      else if width.any (· ≠ values.length) then
        .error (retrievalError ["embedding vectors have inconsistent dimensions".toList])
      else
        let norm := python.sqrt (python.sum (values.map fun value => python.mul value value))
        if python.eq norm python.zero then
          .error (retrievalError ["embedding ".toList, natText index, " has zero magnitude".toList])
        else do
          let rest ← normalizeVectors (some values.length) (index + 1) vectors
          return values.map (fun value => python.div value norm) :: rest

/-- `_validate_vectors`. -/
def validateVectors (vectors : List (List K)) (expectedCount : Nat) : Except Raised (List (List K)) :=
  if vectors.length ≠ expectedCount then
    .error (retrievalError ["embedding provider returned ".toList, natText vectors.length,
      " vectors for ".toList, natText expectedCount, " texts".toList])
  else normalizeVectors python none 0 vectors

/-- `_cosine_similarity`. -/
def cosineSimilarity (left right : List K) : Except Raised K :=
  if left.length ≠ right.length then
    .error (retrievalError ["cannot compare embeddings with different dimensions".toList])
  else
    let product := python.sum (List.zipWith python.mul left right)
    let atMost := if python.lt product python.one then product else python.one
    .ok (if python.lt python.minusOne atMost then atMost else python.minusOne)

/-! ### Candidates -/

/-- The order of `(-similarity, section_id)`. -/
def similarFirst (a b : DocSection × K) : Bool :=
  !if python.eq (python.neg b.2) (python.neg a.2) then decide (b.1.sectionId < a.1.sectionId)
  else python.lt (python.neg b.2) (python.neg a.2)

/-- The sections by falling similarity. -/
def bySimilarity (scored : List (DocSection × K)) : List (DocSection × K) :=
  scored.insertionSort fun a b => similarFirst python a b

/-- The sections among the first ones, if they are similar enough. -/
def semanticIds (similarityThreshold : K) (topK : Int) (scored : List (DocSection × K)) : List String :=
  ((upTo topK (bySimilarity python scored)).filter fun pair => python.le similarityThreshold pair.2).map
    fun pair => pair.1.sectionId

def lexicalIds (change : StructuralChange) (scored : List (DocSection × K)) : List String :=
  ((scored.map Prod.fst).filter (hasExactReference python change)).map DocSection.sectionId

def matchReasons (similarityThreshold : K) (topK : Int) (change : StructuralChange)
    (scored : List (DocSection × K)) (sectionId : String) : List MatchReason :=
  (if sectionId ∈ lexicalIds python change scored then [.exactReference] else []) ++
    if sectionId ∈ semanticIds python similarityThreshold topK scored then [.embeddingSimilarity] else []

/-- The candidates for a change. -/
def proposedFor (similarityThreshold : K) (topK : Int) (change : StructuralChange)
    (scored : List (DocSection × K)) : List (CandidateMatch K) :=
  scored.filterMap fun (s, score) =>
    let reasons := matchReasons python similarityThreshold topK change scored s.sectionId
    if reasons = [] then none else some ⟨change.changeId, s.sectionId, python.round6 score, reasons⟩

/-- The candidates for all changes. -/
def proposedCandidates (similarityThreshold : K) (topK : Int)
    (scored : List (StructuralChange × List (DocSection × K))) : List (CandidateMatch K) :=
  scored.flatMap fun entry => proposedFor python similarityThreshold topK entry.1 entry.2

def matchRank (m : CandidateMatch K) : Nat := if m.reasons.contains .exactReference then 0 else 1

/-- The order of `(rank, -similarity, change_id, section_id)`. -/
def matchPrecedes (a b : CandidateMatch K) : Bool :=
  !if matchRank b ≠ matchRank a then decide (matchRank b < matchRank a)
  else if !python.eq (python.neg b.similarity) (python.neg a.similarity) then
    python.lt (python.neg b.similarity) (python.neg a.similarity)
  else if b.changeId ≠ a.changeId then decide (b.changeId < a.changeId)
  else decide (b.sectionId < a.sectionId)

/-- The first candidates, and the changes that have none among them. -/
def selectCandidates (maxCandidates : Int) (proposed : List (CandidateMatch K)) : RetrievalResult K :=
  let ordered := proposed.insertionSort fun a b => matchPrecedes python a b
  let accepted := upTo maxCandidates ordered
  { candidates := accepted
    truncatedChangeIds := ((ordered.map CandidateMatch.changeId).dedup.filter fun changeId =>
      !(accepted.map CandidateMatch.changeId).contains changeId).insertionSort (· ≤ ·) }

def scoreSections (sections : List DocSection) (sectionVectors : List (List K)) (changeVector : List K) :
    Except Raised (List (DocSection × K)) := do
  let scores ← sectionVectors.mapM (cosineSimilarity python changeVector)
  return sections.zip scores

/-- The changes, and how similar the sections are to each. -/
def scoreChanges (embed : List Text → Except Raised (List (List K))) (changes : List StructuralChange)
    (sections : List DocSection) : Except Raised (List (StructuralChange × List (DocSection × K))) := do
  let texts := changes.map StructuralChange.embeddingText ++ sections.map DocSection.embeddingText
  let vectors ← embed texts
  let vectors ← validateVectors python vectors texts.length
  let rows ← (vectors.take changes.length).mapM
    (scoreSections python sections (vectors.drop changes.length))
  return changes.zip rows

def retrieveCandidates (embed : List Text → Except Raised (List (List K))) (similarityThreshold : K)
    (topK maxCandidates : Int) (changes : List StructuralChange) (sections : List DocSection) :
    Except Raised (RetrievalResult K) :=
  if changes = [] ∨ sections = [] then .ok ⟨[], []⟩
  else do
    let scored ← scoreChanges python embed changes sections
    return selectCandidates python maxCandidates
      (proposedCandidates python similarityThreshold topK scored)

end Retrieval

end CoreMesh.SelfHealingDocs
