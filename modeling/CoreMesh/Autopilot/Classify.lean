import Mathlib.Data.Rat.Floor
import CoreMesh.Cache.Request

/-!
# How complex a request is

`ClassifyFields`: the signals read from the fields of a body, the score they add up to, and the tier
and cache policy that follow. `contentText` is the same function in both packages.
-/

namespace CoreMesh.Autopilot

open CoreMesh.Cache

/-- A float64 by its value. -/
structure Float64 extends FloatCodec where
  toRat : Value → ℚ

def tier1 : String := "tier-1"

def tier3 : String := "tier-3"

def cachePolicyAllow : String := "allow"

def cachePolicyBypass : String := "bypass"

/-! ### The text of a request -/

section Text

variable (floats : FloatCodec)

/-- The trimmed text of a value, if it is one and there is any. -/
def textPart (raw : Json) : Option String := do
  let value ← decode floats raw
  let text := trimSpace (contentText floats value)
  if text = "" then none else some text

/-- The roles whose messages count. -/
def isPromptRole (role : String) : Bool :=
  role == "" || role == "user" || role == "system" || role == "developer"

def extractPromptText (fields : List (String × Json)) : String :=
  let parts := ["prompt", "input", "payload_query"].filterMap fun key =>
    (fields.lookup key).bind (textPart floats)
  let messages := (decodeMessages (fields.lookup "messages")).getD []
  let texts := messages.filterMap fun message =>
    if isPromptRole message.role then message.content.bind (textPart floats) else none
  "\n".intercalate (parts ++ texts)

end Text

/-- `strings.Fields`, of which only the number is used. -/
def fieldCount (text : String) : Nat := (text.toList.splitOnP isSpace).countP fun word => !word.isEmpty

def approximateTokenCount (text : String) : Nat :=
  let text := trimSpace text
  if text = "" then 0
  else
    let byChars := (text.toList.length + 3) / 4
    let byWords := fieldCount text
    if byWords < byChars then byChars else byWords

def countMatches (text : String) (needles : List String) : Nat :=
  let lower := toLower text
  needles.countP fun needle => contains lower needle

/-- A line that starts with a list marker. -/
def isListItem (line : String) : Bool :=
  match (trimSpace line).toList with
  | '-' :: ' ' :: _ => true
  | '*' :: ' ' :: _ => true
  | digit :: mark :: _ :: _ => digit.isDigit && (mark == '.' || mark == ')')
  | _ => false

def constraintWords : List String :=
  ["must", "should", "include", "exclude", "avoid", "only", "exactly",
    "schema", "json", "criteria", "requirement", "without", "ensure"]

def countConstraints (text : String) : Nat :=
  let lower := toLower text
  countMatches lower constraintWords +
    ((lower.toList.splitOn '\n').map String.ofList).countP isListItem

/-! ### The other fields -/

section Fields

variable (floats : Float64)

def hasNonEmptyJSON (raw : Option Json) : Bool :=
  match raw.bind (decode floats.toFloatCodec) with
  | none => false
  | some .null => false
  | some (.slice items) => !items.isEmpty
  | some (.map entries) => !entries.isEmpty
  | some (.string text) => trimSpace text != ""
  | some _ => true

/-- Whether a map has a value other than null under the key. -/
def hasValue {F : Type} (entries : List (String × GoValue F)) (key : String) : Bool :=
  match entries.lookup key with
  | none => false
  | some .null => false
  | some _ => true

def responseFormatIsComplex (raw : Option Json) : Bool :=
  match raw.bind (decode floats.toFloatCodec) with
  | some (.map entries) =>
      if entries.isEmpty then false
      else if hasValue entries "json_schema" || hasValue entries "schema" then true
      else
        match entries.lookup "type" with
        | some (.string text) => contains (toLower text) "json"
        | _ => true
  | _ => false

/-- A field decoded into a float64; zero if it is null or does not decode. -/
def numberField (raw : Option Json) : ℚ :=
  match raw with
  | some (.num literal) => ((floats.parseFloat literal).map floats.toRat).getD 0
  | _ => 0

/-- The conversion to int that cuts off the fraction, with the result of amd64 where it does not fit. -/
def truncateInt64 (x : ℚ) : ℤ :=
  let n := if 0 ≤ x then ⌊x⌋ else ⌈x⌉
  if -2 ^ 63 ≤ n ∧ n < 2 ^ 63 then n else -2 ^ 63

def maxTokens (raw : Option Json) : ℤ := truncateInt64 (numberField floats raw)

def temperature (raw : Option Json) : ℚ := numberField floats raw

/-- The constant `0.8` as a float64. -/
def temperatureBound : ℚ := 3602879701896397 / 4503599627370496

end Fields

/-! ### The score -/

structure Classification where
  tier : String
  score : Nat
  tokenCount : Nat
  cachePolicy : String
  reasons : List String
  deriving DecidableEq

/-- A condition of `ClassifyFields`, what it adds to the score, and the reason it gives. -/
structure Signal where
  present : Bool
  points : Nat
  reason : String

def codeMarkerWords : List String :=
  ["```", "traceback", "stack trace", "panic:", "exception", "nullpointer",
    "segmentation fault", "func ", "def ", "class ", "package ", "import ",
    "async ", "await ", "select ", " join ", "where ", "dockerfile"]

def complexWords : List String :=
  ["analyze", "compare", "reason", "debug", "diagnose", "root cause",
    "optimize", "refactor", "architecture", "tradeoff", "multi-step",
    "step by step", "algorithm", "proof", "derive", "evaluate", "risk",
    "concurrency", "distributed", "transaction", "migration", "security"]

/-- The conditions in the order in which they are checked. -/
def signals (floats : Float64) (fields : List (String × Json)) : List Signal :=
  let prompt := extractPromptText floats.toFloatCodec fields
  let tokenCount := approximateTokenCount prompt
  let codeMarkers := countMatches prompt codeMarkerWords
  let complexKeywords := countMatches prompt complexWords
  let constraints := countConstraints prompt
  [⟨180 < tokenCount, 2, "long_prompt"⟩,
    ⟨400 < tokenCount, 2, "very_long_prompt"⟩,
    ⟨0 < codeMarkers, 3, "code_or_error_markers"⟩,
    ⟨1 ≤ complexKeywords, 1, "complexity_keywords"⟩,
    ⟨3 ≤ complexKeywords, 1, "multiple_complexity_keywords"⟩,
    ⟨4 ≤ constraints, 1, "multiple_constraints"⟩,
    ⟨8 ≤ constraints, 1, "many_constraints"⟩,
    ⟨hasNonEmptyJSON floats (fields.lookup "tools") || hasNonEmptyJSON floats (fields.lookup "functions"),
      3, "tool_calling"⟩,
    ⟨responseFormatIsComplex floats (fields.lookup "response_format"), 2, "complex_response_format"⟩,
    ⟨1500 < maxTokens floats (fields.lookup "max_tokens"), 2, "large_max_tokens"⟩,
    ⟨temperatureBound < temperature floats (fields.lookup "temperature"), 1, "high_temperature"⟩]

def classifyFields (floats : Float64) (fields : List (String × Json)) : Classification :=
  let present := (signals floats fields).filter Signal.present
  let score := (present.map Signal.points).sum
  let reasons := present.map Signal.reason
  { tier := if 3 ≤ score then tier3 else tier1
    score
    tokenCount := approximateTokenCount (extractPromptText floats.toFloatCodec fields)
    cachePolicy := if 3 ≤ score then cachePolicyBypass else cachePolicyAllow
    reasons := if reasons.isEmpty then ["simple_request"] else reasons }

theorem classifyFields_cachePolicy (floats : Float64) (fields : List (String × Json)) :
    (classifyFields floats fields).cachePolicy =
      if 3 ≤ (classifyFields floats fields).score then cachePolicyBypass else cachePolicyAllow := by
  rw [classifyFields]

end CoreMesh.Autopilot
