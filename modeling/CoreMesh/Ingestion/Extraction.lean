import CoreMesh.Lib.Binary64
import CoreMesh.Lib.Captures
import CoreMesh.Lib.PyText

/-!
# Offline extraction

`extract_with_regex`: what OCR has read is made regular, the amounts and rows are found in it, and the texts of
their numbers are converted. A conversion raises on a text that is no number. The first step leaves nothing
but ASCII, so the patterns are read there.
-/

namespace CoreMesh.Ingestion

open Regex Pattern

abbrev Text := List Char

/-- What `float` and `int` raise, with the text or the number of its digits. -/
inductive ValueError where
  | noFloat (text : Text)
  | noInt (text : Text)
  | tooManyDigits (count : Nat)
  deriving DecidableEq

structure LineItem where
  description : Text
  quantity : Nat
  unitPrice : Binary64
  total : Binary64

structure ExtractionTargetSchema where
  vendorName : Text
  invoiceId : Text
  lineItems : List LineItem
  calculatedTax : Binary64
  invoiceTotal : Binary64

/-! ### Numbers -/

def natOf (digits : Text) : Nat := digits.foldl (fun n c => 10 * n + (c.toNat - 48)) 0

/-- `float` on digits and points. -/
def floatOf (text : Text) : Except ValueError Binary64 :=
  let whole := text.takeWhile asciiDecimal
  match text.dropWhile asciiDecimal with
  | [] => if whole = [] then .error (.noFloat text) else .ok (.ofRat (natOf whole))
  | c :: fraction =>
      if c = '.' ∧ fraction.all asciiDecimal ∧ whole ++ fraction ≠ [] then
        .ok (.ofRat (natOf (whole ++ fraction) / 10 ^ fraction.length))
      else .error (.noFloat text)

/-- `int`, with the limit on the digits of a text. -/
def intOf (text : Text) : Except ValueError Nat :=
  if text = [] ∨ ¬text.all asciiDecimal then .error (.noInt text)
  else if 4300 < text.length then .error (.tooManyDigits text.length)
  else .ok (natOf text)

/-- Without currency signs and separators of thousands, and with points for colons. -/
def cleanse (raw : Text) : Text :=
  (raw.filter fun c => !(",$£€_".toList.contains c || PyText.isSpace c)).map fun c =>
    if c = ':' then '.' else c

/-- `re.sub(r"\.+", ".", text)`: the last point of several stays. -/
def collapse : Text → Text
  | [] => []
  | c :: rest => if c = '.' ∧ rest.head? = some '.' then collapse rest else c :: collapse rest

def parseFloat (raw : Text) : Except ValueError Binary64 :=
  floatOf (PyText.trim (· == '.') (collapse (cleanse raw)))

/-! ### Patterns -/

def digit : Pattern := .one .digit

def spaces : Pattern := .star (.one .space)

def anyOf (chars : String) : Pattern :=
  match chars.toList with
  | [] => .empty
  | c :: rest => .one (oneOf (.char c) (String.ofList rest))

/-- The length of a match with what is put in its place. -/
def replacing (pattern : Pattern) (replacement : String) : Cursor → Option (Text × Nat) := fun s =>
  group ascii pattern s fun taken _ => some (replacement.toList, taken.length)

/-- Two groups with texts in front of them and between, which are put back with a point between. -/
def joining (front first middle second behind : Pattern) (replacement : String) :
    Cursor → Option (Text × Nat) := fun s =>
  front.run ascii s fun s₁ => group ascii first s₁ fun a s₂ => middle.run ascii s₂ fun s₃ =>
    group ascii second s₃ fun b s₄ => behind.run ascii s₄ fun stop =>
      some (replacement.toList ++ a ++ '.' :: b, (textBetween s stop).length)

/-- `[\d]+:([\d]{2})\b` behind a word and a sign of equality. -/
def colonAmount (word : String) : Cursor → Option (Text × Nat) :=
  joining (all [literalAnyCase word, literal "="]) (atLeast digit 1) (literal ":") (power digit 2) .boundary
    (word ++ "=")

/-- The substitutions of `_normalize_ocr_text` in their order. -/
def normalizations : List (Cursor → Option (Text × Nat)) :=
  [replacing (all [literalAnyCase "invoice", atLeast (.one (oneOf .space ",_")) 1, literalAnyCase "id"])
      "INVOICE_ID",
    replacing (all [literalAnyCase "line", spaces, literalAnyCase "item", spaces, literal ":"]) "LINEITEM:",
    replacing (all [literalAnyCase "d", spaces, optional (literalAnyCase "e"), spaces,
      literalAnyCase "scription"]) "description",
    replacing (all [literalAnyCase "qty", spaces, literal "=", spaces, literalAnyCase "l", .boundary]) "qty=1",
    joining .empty digit (atLeast (literal ".") 1) digit .empty "",
    colonAmount "unit", colonAmount "total",
    joining (all [literalAnyCase "total", literal "="]) (atLeast digit 1) (all [literal "_", spaces])
      (atLeast (.one (.either .digit (.char '.'))) 1) .empty "total=",
    replacing (all [literalAnyCase "description", spaces, anyOf "-="]) "description=",
    replacing (atLeast (anyOf " \t") 1) " "]

def normalizeOcrText (text : Text) : Text :=
  normalizations.foldl (fun text rule => replaceAll rule 0 none text) (text.filter fun c => c.toNat < 128)

/-! ### What is looked for -/

/-- `.`. -/
def dot : CharClass := .other (.char '\n')

/-- `(?:\n|$)`; the end of the text is all that is left of `$` where there is no line break. -/
def lineEnd : Pattern := any (literal "\n") [.notAhead (.either dot (.char '\n'))]

/-- `\s*:?\s*`. -/
def colon : Pattern := all [spaces, optional (literal ":"), spaces]

/-- `VENDOR\s*:?\s*(.+?)(?:\n|$)`. -/
def vendorName : Cursor → Option Text := fun s =>
  (all [literalAnyCase "vendor", colon]).run ascii s fun start =>
    (Pattern.one dot).run ascii start fun first =>
      lazily ascii dot first.prev first.rest fun stop =>
        lineEnd.run ascii stop fun _ => some (textBetween start stop)

/-- `INVOICE_?ID\s*:?\s*([A-Z0-9\-]+)`. -/
def invoiceId : Cursor → Option Text := fun s =>
  (all [literalAnyCase "invoice", optional (literal "_"), literalAnyCase "id", colon]).run ascii s fun start =>
    group ascii (atLeast (.one (oneOf (.either (.letters 'a' 'z') (.range '0' '9')) "-")) 1) start
      fun taken _ => some taken

/-- `[\d,]+\.?\d*`. -/
def amount : Pattern :=
  all [atLeast (.one (.either .digit (.char ','))) 1, optional (literal "."), .star digit]

/-- An amount behind a word, with what has to be in front of that. -/
def amountBehind (front : Pattern) (word : String) : Cursor → Option Text := fun s =>
  (all [front, literalAnyCase word, colon, optional (literal "$")]).run ascii s fun start =>
    group ascii amount start fun taken _ => some taken

/-- `\bTAX\s*:?\s*\$?([\d,]+\.?\d*)`. -/
def taxAmount : Cursor → Option Text := amountBehind .boundary "tax"

/-- `(?<!\w)TOTAL\s*:?\s*\$?([\d,]+\.?\d*)`. -/
def totalAmount : Cursor → Option Text := amountBehind (.notBehind .word) "total"

/-- The groups of a row. -/
structure RawRow where
  description : Text
  qty : Text
  unit : Text
  total : Text

/-- `\s*=\s*` behind a word. -/
def field (word : String) : Pattern := all [literalAnyCase word, spaces, literal "=", spaces]

/-- `[\d]+(?:[.:][\d]+)?`. -/
def price : Pattern := .seq (atLeast digit 1) (optional (.seq (anyOf ".:") (atLeast digit 1)))

/-- `(?:\s*\.?\s*|\s+[^\d=]*?)`. -/
def gap {β : Type} (s : Cursor) (k : Cursor → Option β) : Option β :=
  ((all [spaces, optional (literal "."), spaces]).run ascii s k).orElse fun _ =>
    (atLeast (.one .space) 1).run ascii s fun s' =>
      lazily ascii (.other (oneOf .digit "=")) s'.prev s'.rest k

/-- `primary`. -/
def primaryRow : Cursor → Option (RawRow × Nat) := fun s =>
  (all [literalAnyCase "lineitem", colon, field "description"]).run ascii s fun start =>
    (Pattern.one dot).run ascii start fun first =>
      lazily ascii dot first.prev first.rest fun stop =>
        (Pattern.seq (atLeast (.one .space) 1) (field "qty")).run ascii stop fun s₁ =>
          group ascii (atLeast (.one (.either (.letters 'l' 'l') .digit)) 1) s₁ fun qty s₂ =>
            (Pattern.seq (atLeast (.one .space) 1) (field "unit")).run ascii s₂ fun s₃ =>
              group ascii price s₃ fun unit s₄ =>
                gap s₄ fun s₅ =>
                  (field "total").run ascii s₅ fun s₆ =>
                    group ascii price s₆ fun total s₇ =>
                      some (⟨textBetween start stop, qty, unit, total⟩, (textBetween s s₇).length)

/-- `\s*\|\s*`. -/
def bar : Pattern := all [spaces, literal "|", spaces]

/-- `[\d.,]+`. -/
def amounts : Pattern := atLeast (.one (oneOf .digit ".,")) 1

/-- `pipe_row`. -/
def pipeRow : Cursor → Option (RawRow × Nat) := fun s =>
  (Pattern.notBehind dot).run ascii s fun start =>
    group ascii (atLeast (.one (.other (.char '|'))) 1) start fun description s₁ =>
      (Pattern.seq (literal "|") spaces).run ascii s₁ fun s₂ =>
        group ascii (atLeast digit 1) s₂ fun qty s₃ =>
          bar.run ascii s₃ fun s₄ =>
            group ascii amounts s₄ fun unit s₅ =>
              bar.run ascii s₅ fun s₆ =>
                group ascii amounts s₆ fun total s₇ =>
                  some (⟨description, qty, unit, total⟩, (textBetween s s₇).length)

/-! ### Extraction -/

def RawRow.lineItem (row : RawRow) (qty : Text) : Except ValueError LineItem := do
  let quantity ← intOf qty
  let unitPrice ← parseFloat row.unit
  let total ← parseFloat row.total
  return ⟨PyText.strip row.description, quantity, unitPrice, total⟩

/-- The heading of a table, or an empty description. -/
def RawRow.isHeading (row : RawRow) : Bool :=
  ["description", "item", "lineitem", "line item", ""].any fun heading =>
    (PyText.strip row.description).map Char.toLower == heading.toList

/-- An `l` has been read for a one. -/
def onesOf (qty : Text) : Text := qty.map fun c => if c = 'l' ∨ c = 'L' then '1' else c

def primaryRows (text : Text) : List RawRow := findAll primaryRow 0 none text

def pipeRows (text : Text) : List RawRow := (findAll pipeRow 0 none text).filter fun row => !row.isHeading

def extractLineItems (text : Text) : Except ValueError (List LineItem) :=
  match primaryRows text with
  | [] => (pipeRows text).mapM fun row => row.lineItem row.qty
  | rows => rows.mapM fun row => row.lineItem (onesOf row.qty)

def amountOf : Option Text → Except ValueError Binary64
  | none => .ok .zero
  | some raw => parseFloat raw

def unknown : Text := "UNKNOWN".toList

def extractWithRegex (text : Text) : Except ValueError ExtractionTargetSchema := do
  let text := normalizeOcrText text
  let vendorName := ((search vendorName none text).map PyText.strip).getD unknown
  let invoiceId := ((search invoiceId none text).map PyText.strip).getD unknown
  let calculatedTax ← amountOf (search taxAmount none text)
  let invoiceTotal ← amountOf (search totalAmount none text)
  let lineItems ← extractLineItems text
  return ⟨vendorName, invoiceId, lineItems, calculatedTax, invoiceTotal⟩

def scoreParseableText (text : Text) : Except ValueError Nat := do
  let ext ← extractWithRegex text
  return (if ext.vendorName ≠ unknown then 10 else 0) + (if ext.invoiceId ≠ unknown then 10 else 0) +
    ext.lineItems.length * 20 + (if Binary64.lt .zero ext.calculatedTax then 5 else 0) +
    (if Binary64.lt .zero ext.invoiceTotal then 5 else 0)

/-! ### The choice of a candidate -/

/-- A reading of a page with its confidence and engine. -/
structure Candidate where
  text : Text
  confidence : Binary64
  engine : String

/-- `max` with a key: the first of the greatest. None if there is no candidate. -/
def maxBy {κ : Type} (greater : κ → κ → Bool) : List (Candidate × κ) → Option Candidate
  | [] => none
  | first :: rest =>
      some (rest.foldl (fun best next => if greater next.2 best.2 then next else best) first).1

/-- `>` on pairs. -/
def betterScore (a b : Nat × Binary64) : Bool := b.1 < a.1 || (a.1 == b.1 && Binary64.lt b.2 a.2)

/-- `_pick_best_candidate`; none stands for the `ValueError` of `max` on nothing. -/
def pickBestCandidate (threshold : Binary64) (candidates : List Candidate) (variance : Binary64) :
    Except ValueError (Option Candidate) :=
  if Binary64.le variance threshold then
    .ok (maxBy (fun a b => Binary64.lt b a) (candidates.map fun c => (c, c.confidence)))
  else do
    let scores ← candidates.mapM fun c => scoreParseableText c.text
    return maxBy betterScore ((candidates.zip scores).map fun item => (item.1, item.2, item.1.confidence))

end CoreMesh.Ingestion
