import CoreMesh.Ingestion.PageText
import CoreMesh.Lib.Except
import CoreMesh.Lib.Json

/-!
# The reading of a document

Pages are made of an upload, each is read by two engines, and a page they disagree on is shown to a model
where there is one. The texts of all pages are extracted together and the totals of the invoice are checked.
-/

namespace CoreMesh.Ingestion

/-! ### The world -/

/-- What an engine or a provider raises, or a conversion. -/
inductive Failure where
  | raised (message : String)
  | value (error : ValueError)

/-- What pytesseract makes of an image: its confidences, none for one that is no whole number, and its text. -/
structure TesseractData where
  conf : List (Option ℤ)
  text : Text

/-- What the language model extracts: the line items are any dictionaries. -/
structure LlmExtraction where
  vendorName : Text
  invoiceId : Text
  lineItems : List (List (String × Json))
  calculatedTax : Binary64
  invoiceTotal : Binary64

/-- The settings, and the code that is not of this repository. Texts are short enough to be counted in
doubles. -/
structure World (Page Image : Type) where
  llmAvailable : Bool
  ocrVarianceThreshold : Binary64
  loadPdf : List UInt8 → Except Failure (List Page)
  loadImage : List UInt8 → Except Failure Page
  preprocessPage : Page → Except Failure Image
  pageToGrayscale : Page → Except Failure Image
  tesseract : Image → Except Failure TesseractData
  /-- None if EasyOCR is switched off or could not be initialised. -/
  easyocrReader : Option (Image → Except Failure (List Found))
  extractTextViaVision : Image → Except Failure Text
  extractWithLlm : Text → Except Failure LlmExtraction
  /-- `float`, none if it raises. -/
  toFloat : Json → Option Binary64
  tesseract_short : ∀ image data, tesseract image = .ok data → (PyText.strip data.text).length < 2 ^ 52
  easyocr_short : ∀ read, easyocrReader = some read → ∀ image results, read image = .ok results →
    (easyocrResultsToText results).length < 2 ^ 52

variable {Page Image : Type} (w : World Page Image)

/-! ### The engines -/

def meanConfidence (confs : List ℤ) : Binary64 := if confs = [] then .zero else .ofRat (confs.sum / confs.length)

def runTesseract (image : Image) : Except Failure (Text × Binary64) := do
  let data ← w.tesseract image
  let confs := (data.conf.filterMap id).filter (0 ≤ ·)
  return (PyText.strip data.text, meanConfidence confs)

/-- What the engine raises is logged, and it counts as not there. -/
def runEasyocr (image : Image) : Option Text × Binary64 :=
  match w.easyocrReader with
  | none => (none, .zero)
  | some read =>
      match read image with
      | .error _ => (none, .zero)
      | .ok results =>
          if results = [] then (some [], .zero)
          else
            let sum := (results.map Found.confidence).foldl Binary64.add .zero
            let meanConf := Binary64.div sum (.ofInt results.length)
            (some (easyocrResultsToText results), .mul meanConf (.ofInt 100))

/-- The text of the winning engine, with the variance, the confidence and the engine. -/
structure Reading where
  text : Text
  variance : Binary64
  confidence : Binary64
  engine : String

/-- `_pick_best_candidate`, with what it raises. -/
def pickBest (candidates : List Candidate) (variance : Binary64) : Except Failure Candidate :=
  match pickBestCandidate w.ocrVarianceThreshold candidates variance with
  | .error error => .error (.value error)
  | .ok none => .error (.raised "max() arg is an empty sequence")
  | .ok (some best) => .ok best

def runDualOcr (pageImage : Image) : Except Failure Reading := do
  let (tessText, tessConf) ← runTesseract w pageImage
  match runEasyocr w pageImage with
  | (none, _) => return ⟨tessText, .zero, tessConf, "tesseract"⟩
  | (some easyText, easyConf) =>
      let variance := computeVariance tessText easyText
      let best ← pickBest w [⟨tessText, tessConf, "tesseract"⟩, ⟨easyText, easyConf, "easyocr"⟩] variance
      return ⟨best.text, variance, best.confidence, best.engine⟩

/-- A candidate of EasyOCR, if it has read anything. -/
def easyCandidate (result : Option Text × Binary64) (label : String) : List Candidate :=
  match result.1 with
  | none => []
  | some text => [⟨text, result.2, label⟩]

/-- `replace` on the labels of the engines. -/
def withoutRaw (label : String) : String :=
  if label = "tesseract_raw" then "tesseract" else if label = "easyocr_raw" then "easyocr" else label

/-- `score_invoice_text`, with what it raises. -/
def scoreInvoiceText (text : Text) : Except Failure Nat :=
  match scoreParseableText text with
  | .error error => .error (.value error)
  | .ok score => .ok score

def runDualOcrWithFallback (pageImage rawGray : Image) : Except Failure Reading := do
  let (tessPre, tessConfPre) ← runTesseract w pageImage
  let easyPre := runEasyocr w pageImage
  let (tessRaw, tessConfRaw) ← runTesseract w rawGray
  let easyRaw := runEasyocr w rawGray
  let candidates := ⟨tessPre, tessConfPre, "tesseract"⟩ :: easyCandidate easyPre "easyocr" ++
    ⟨tessRaw, tessConfRaw, "tesseract_raw"⟩ :: easyCandidate easyRaw "easyocr_raw"
  let variance := computeVariance tessPre (easyPre.1.getD tessRaw)
  let best ← pickBest w candidates variance
  -- An argument of the debug log, which is evaluated at every level.
  let _ ← scoreInvoiceText best.text
  return ⟨best.text, variance, best.confidence, withoutRaw best.engine⟩

/-! ### A page -/

structure PageReading where
  text : Text
  variance : Binary64
  visionUsed : Bool
  engineLabel : String

def ocrPage (pageNp rawGray : Image) : Except Failure PageReading := do
  let best ← (if w.llmAvailable then runDualOcr w pageNp else runDualOcrWithFallback w pageNp rawGray)
  if Binary64.lt w.ocrVarianceThreshold best.variance && w.llmAvailable then
    match w.extractTextViaVision pageNp with
    | .ok text => return ⟨text, best.variance, true, "vision_llm"⟩
    | .error _ => return ⟨best.text, best.variance, false, best.engine⟩
  else return ⟨best.text, best.variance, false, best.engine⟩

/-! ### A document -/

/-- The suffix behind the last point. -/
def suffixOf (filename : Text) : Text :=
  if '.' ∈ filename then (filename.reverse.takeWhile (· ≠ '.')).reverse.map Char.toLower else []

def loadPages (fileBytes : List UInt8) (filename : Text) : Except Failure (List Page) :=
  if suffixOf filename = "pdf".toList then w.loadPdf fileBytes
  else do
    let page ← w.loadImage fileBytes
    return [page]

/-- What is known of the pages that have been read. -/
structure Progress where
  pageTexts : List Text
  maxVariance : Binary64
  anyVision : Bool
  dominantEngine : String

def Progress.start : Progress := ⟨[], .zero, false, "tesseract"⟩

def Progress.add (p : Progress) (r : PageReading) : Progress where
  pageTexts := p.pageTexts ++ [r.text]
  maxVariance := if Binary64.lt p.maxVariance r.variance then r.variance else p.maxVariance
  anyVision := p.anyVision || r.visionUsed
  dominantEngine := if Binary64.lt p.maxVariance r.variance then r.engineLabel else p.dominantEngine

def readPage (p : Progress) (page : Page × Image) : Except Failure Progress := do
  let rawGray ← w.pageToGrayscale page.1
  let reading ← ocrPage w page.2 rawGray
  return p.add reading

/-- What one of the two strategies has extracted. -/
inductive Extraction where
  | llm (schema : LlmExtraction)
  | regex (schema : ExtractionTargetSchema)

def extractStructured (text : Text) : Except Failure (Extraction × Bool) :=
  if w.llmAvailable then do
    let schema ← w.extractWithLlm text
    return (.llm schema, true)
  else
    match extractWithRegex text with
    | .error error => .error (.value error)
    | .ok schema => .ok (.regex schema, false)

/-- `round` with a number of places. -/
def pyRound (places : ℕ) : Binary64 → Binary64
  | .finite x _ => .ofRat (Rounding.toDecimals places x)
  | x => x

structure ValidationResult where
  passed : Bool
  computedSum : Binary64
  delta : Binary64
  tolerance : Binary64

/-- The totals of the line items, none where `float` raises. -/
def Extraction.totals : Extraction → List (Option Binary64)
  | .llm schema => schema.lineItems.map fun item => w.toFloat ((Json.lookup item "total").getD (.num "0"))
  | .regex schema => schema.lineItems.map fun item => some item.total

def Extraction.calculatedTax : Extraction → Binary64
  | .llm schema => schema.calculatedTax
  | .regex schema => schema.calculatedTax

def Extraction.invoiceTotal : Extraction → Binary64
  | .llm schema => schema.invoiceTotal
  | .regex schema => schema.invoiceTotal

def validateInvoiceTotals (extraction : Extraction) (tolerance : Binary64) : ValidationResult :=
  let lineTotal := ((extraction.totals w).filterMap id).foldl Binary64.add .zero
  let computedSum := pyRound 6 (.add lineTotal extraction.calculatedTax)
  let difference := Binary64.sub computedSum extraction.invoiceTotal
  let delta := if Binary64.lt difference .zero then Binary64.neg difference else difference
  { passed := Binary64.le delta tolerance
    computedSum := pyRound 4 computedSum
    delta := pyRound 4 delta
    tolerance := tolerance }

structure RAGIndexResult where
  documentId : String
  chunkCount : Nat

structure IngestResponse where
  extraction : Extraction
  ocrEngineUsed : String
  ocrVariance : Binary64
  visionFallbackUsed : Bool
  llmExtractionUsed : Bool
  validation : ValidationResult
  pageCount : Nat
  ragIndex : Option RAGIndexResult

structure ProcessedDocument where
  response : IngestResponse
  pageTexts : List Text

def processDocumentWithPages (fileBytes : List UInt8) (filename : Text) :
    Except Failure ProcessedDocument := do
  let pages ← loadPages w fileBytes filename
  let preprocessed ← pages.mapM w.preprocessPage
  let progress ← (pages.zip preprocessed).foldlM (readPage w) Progress.start
  let (extraction, llmUsed) ← extractStructured w (['\n', '\n'].intercalate progress.pageTexts)
  return {
    response := {
      extraction := extraction
      ocrEngineUsed := progress.dominantEngine
      ocrVariance := pyRound 4 progress.maxVariance
      visionFallbackUsed := progress.anyVision
      llmExtractionUsed := llmUsed
      validation := validateInvoiceTotals w extraction (.ofRat (2 / 100))
      pageCount := pages.length
      ragIndex := none }
    pageTexts := progress.pageTexts }

/-! ### What an engine has read -/

variable {w}

/-- An engine has read the text in one of the images. -/
inductive EngineRead (w : World Page Image) (images : List Image) : String → Text → Prop where
  | tesseract {image : Image} {text : Text} {confidence : Binary64} (himage : image ∈ images)
      (hread : runTesseract w image = .ok (text, confidence)) : EngineRead w images "tesseract" text
  | easyocr {image : Image} {text : Text} {confidence : Binary64} (himage : image ∈ images)
      (hread : runEasyocr w image = (some text, confidence)) : EngineRead w images "easyocr" text

/-- A number from zero to one. -/
def InUnit (x : Binary64) : Prop := ∃ v hv, x = .finite v hv ∧ 0 ≤ v ∧ v ≤ 1

theorem inUnit_zero : InUnit .zero := ⟨0, Binary64.representable_zero, rfl, le_rfl, zero_le_one⟩

theorem length_runTesseract {image : Image} {text : Text} {confidence : Binary64}
    (hread : runTesseract w image = .ok (text, confidence)) : text.length < 2 ^ 52 := by
  obtain ⟨data, hdata, hok⟩ := Outcome.bind_eq_ok hread
  obtain ⟨rfl, -⟩ := Prod.mk.inj (Except.ok.inj hok)
  exact w.tesseract_short image data hdata

theorem length_runEasyocr {image : Image} {text : Text} {confidence : Binary64}
    (hread : runEasyocr w image = (some text, confidence)) : text.length < 2 ^ 52 := by
  unfold runEasyocr at hread
  split at hread
  · cases hread
  · rename_i read hreader
    split at hread
    · cases hread
    · rename_i results hresults
      split at hread
      · obtain ⟨htext, -⟩ := Prod.mk.inj hread
        rw [← Option.some.inj htext]
        decide
      · obtain ⟨htext, -⟩ := Prod.mk.inj hread
        rw [← Option.some.inj htext]
        exact w.easyocr_short read hreader image results hresults

theorem computeVariance_short {text1 text2 : Text} (h1 : text1.length < 2 ^ 52) (h2 : text2.length < 2 ^ 52) :
    InUnit (computeVariance text1 text2) ∧ (computeVariance text1 text2 = .zero ↔ text1 = text2) := by
  have hsize : text1.length + text2.length < 2 ^ 53 := by omega
  obtain ⟨v, hv, hvariance, hlow, hhigh, hzero⟩ := computeVariance_spec hsize
  refine ⟨⟨v, hv, hvariance, hlow, hhigh⟩, ?_⟩
  rw [← hzero, hvariance, Binary64.zero]
  exact ⟨fun heq => by injection heq, fun heq => by subst heq; rfl⟩

/-! ### The choice of a reading -/

theorem mem_of_maxBy {κ : Type} {greater : κ → κ → Bool} {items : List (Candidate × κ)} {best : Candidate}
    (hmax : maxBy greater items = some best) : best ∈ items.map Prod.fst := by
  cases items with
  | nil => cases hmax
  | cons first rest =>
      obtain rfl := Option.some.inj hmax
      suffices hfold : ∀ (l : List (Candidate × κ)) (start : Candidate × κ),
          l.foldl (fun best next => if greater next.2 best.2 then next else best) start ∈ start :: l from
        List.mem_map_of_mem (hfold rest first)
      intro l
      induction l with
      | nil => exact fun start => List.mem_cons_self
      | cons next l ih =>
          intro start
          rw [List.foldl_cons]
          have hmem := ih (if greater next.2 start.2 then next else start)
          rw [List.mem_cons] at hmem ⊢
          obtain hhere | hlater := hmem
          · rw [hhere]
            split
            · exact .inr List.mem_cons_self
            · exact .inl rfl
          · exact .inr (List.mem_cons_of_mem _ hlater)

theorem mem_of_pickBest {candidates : List Candidate} {variance : Binary64} {best : Candidate}
    (hpick : pickBest w candidates variance = .ok best) : best ∈ candidates := by
  unfold pickBest at hpick
  split at hpick
  · cases hpick
  · cases hpick
  · rename_i chosen hchosen
    obtain rfl := Except.ok.inj hpick
    unfold pickBestCandidate at hchosen
    split at hchosen
    · have hmem := mem_of_maxBy (Except.ok.inj hchosen)
      rw [List.map_map] at hmem
      simpa using hmem
    · obtain ⟨scores, -, hmax⟩ := Outcome.bind_eq_ok hchosen
      have hmem := mem_of_maxBy (Except.ok.inj hmax)
      rw [List.map_map] at hmem
      obtain ⟨item, hitem, rfl⟩ := List.mem_map.mp hmem
      exact (List.of_mem_zip hitem).1

/-- What is true of the reading of a page by the engines. -/
structure Reading.Sound (w : World Page Image) (pageNp : Image) (images : List Image) (r : Reading) : Prop where
  engine : EngineRead w images r.engine r.text
  variance : InUnit r.variance
  agreement : ∀ tess conf easy conf', runTesseract w pageNp = .ok (tess, conf) →
    runEasyocr w pageNp = (some easy, conf') → (r.variance = .zero ↔ tess = easy)

theorem sound_runDualOcr {pageNp : Image} {r : Reading} (hok : runDualOcr w pageNp = .ok r) :
    r.Sound w pageNp [pageNp] := by
  obtain ⟨⟨tessText, tessConf⟩, htess, hok⟩ := Outcome.bind_eq_ok hok
  dsimp only at hok
  split at hok
  · rename_i conf heasy
    obtain rfl := Except.ok.inj hok
    refine ⟨.tesseract List.mem_cons_self htess, inUnit_zero, fun _ _ _ _ _ heasy' => ?_⟩
    rw [heasy] at heasy'
    cases heasy'
  · rename_i easyText easyConf heasy
    obtain ⟨best, hpick, hok⟩ := Outcome.bind_eq_ok hok
    obtain rfl := Except.ok.inj hok
    obtain ⟨hunit, hzero⟩ := computeVariance_short (length_runTesseract htess) (length_runEasyocr heasy)
    refine ⟨?_, hunit, fun tess conf easy conf' htess' heasy' => ?_⟩
    · obtain rfl | hmem := List.mem_cons.mp (mem_of_pickBest hpick)
      · exact .tesseract List.mem_cons_self htess
      · obtain rfl := List.mem_singleton.mp hmem
        exact .easyocr List.mem_cons_self heasy
    · rw [htess] at htess'
      rw [heasy] at heasy'
      cases htess'
      cases heasy'
      exact hzero

theorem mem_easyCandidate {image : Image} {label : String} {c : Candidate}
    (hmem : c ∈ easyCandidate (runEasyocr w image) label) :
    c.engine = label ∧ ∃ confidence, runEasyocr w image = (some c.text, confidence) := by
  unfold easyCandidate at hmem
  split at hmem
  · cases hmem
  · rename_i text htext
    obtain rfl := List.mem_singleton.mp hmem
    exact ⟨rfl, _, Prod.ext htext rfl⟩

theorem sound_runDualOcrWithFallback {pageNp rawGray : Image} {r : Reading}
    (hok : runDualOcrWithFallback w pageNp rawGray = .ok r) : r.Sound w pageNp [pageNp, rawGray] := by
  obtain ⟨⟨tessPre, tessConfPre⟩, htess, hok⟩ := Outcome.bind_eq_ok hok
  obtain ⟨⟨tessRaw, tessConfRaw⟩, hraw, hok⟩ := Outcome.bind_eq_ok hok
  obtain ⟨best, hpick, hok⟩ := Outcome.bind_eq_ok hok
  obtain ⟨score, -, hok⟩ := Outcome.bind_eq_ok hok
  obtain rfl := Except.ok.inj hok
  have hpage : pageNp ∈ [pageNp, rawGray] := List.mem_cons_self
  have hgray : rawGray ∈ [pageNp, rawGray] := List.mem_cons_of_mem _ List.mem_cons_self
  refine ⟨?_, ?_, fun tess conf easy conf' htess' heasy' => ?_⟩
  · obtain hfront | hback := List.mem_append.mp (mem_of_pickBest hpick)
    · obtain rfl | hmem := List.mem_cons.mp hfront
      · exact .tesseract hpage htess
      · obtain ⟨hlabel, confidence, heasy⟩ := mem_easyCandidate hmem
        dsimp only
        rw [hlabel]
        exact .easyocr hpage heasy
    · obtain rfl | hmem := List.mem_cons.mp hback
      · exact .tesseract hgray hraw
      · obtain ⟨hlabel, confidence, heasy⟩ := mem_easyCandidate hmem
        dsimp only
        rw [hlabel]
        exact .easyocr hgray heasy
  · apply And.left
    apply computeVariance_short (length_runTesseract htess)
    cases heasy : runEasyocr w pageNp with
    | mk text confidence =>
        cases text with
        | none => exact length_runTesseract hraw
        | some easy => exact length_runEasyocr heasy
  · rw [htess] at htess'
    cases htess'
    dsimp only
    rw [heasy']
    exact (computeVariance_short (length_runTesseract htess) (length_runEasyocr heasy')).2

/-! ### A page and a document -/

/-- What is true of the reading of a page: the model has read it exactly if it was there, the engines
disagreed, and it answered; otherwise an engine has. -/
structure PageReading.Sound (w : World Page Image) (pageNp rawGray : Image) (r : PageReading) : Prop where
  variance : InUnit r.variance
  agreement : ∀ tess conf easy conf', runTesseract w pageNp = .ok (tess, conf) →
    runEasyocr w pageNp = (some easy, conf') → (r.variance = .zero ↔ tess = easy)
  vision : r.visionUsed = true ↔ w.llmAvailable = true ∧
    Binary64.lt w.ocrVarianceThreshold r.variance = true ∧ ∃ text, w.extractTextViaVision pageNp = .ok text
  text : if r.visionUsed then w.extractTextViaVision pageNp = .ok r.text ∧ r.engineLabel = "vision_llm"
    else EngineRead w (if w.llmAvailable then [pageNp] else [pageNp, rawGray]) r.engineLabel r.text

theorem sound_ocrPage {pageNp rawGray : Image} {r : PageReading} (hok : ocrPage w pageNp rawGray = .ok r) :
    r.Sound w pageNp rawGray := by
  obtain ⟨best, hbest, hok⟩ := Outcome.bind_eq_ok hok
  have hsound : best.Sound w pageNp (if w.llmAvailable then [pageNp] else [pageNp, rawGray]) := by
    cases havailable : w.llmAvailable with
    | true =>
        rw [if_pos havailable] at hbest
        exact sound_runDualOcr hbest
    | false =>
        rw [if_neg (by simp [havailable])] at hbest
        exact sound_runDualOcrWithFallback hbest
  split at hok
  · rename_i hask
    obtain ⟨hover, havailable⟩ := Bool.and_eq_true_iff.mp hask
    split at hok
    · rename_i text hvision
      obtain rfl := Except.ok.inj hok
      exact ⟨hsound.variance, hsound.agreement,
        ⟨fun _ => ⟨havailable, hover, text, hvision⟩, fun _ => rfl⟩, ⟨hvision, rfl⟩⟩
    · rename_i error hvision
      obtain rfl := Except.ok.inj hok
      refine ⟨hsound.variance, hsound.agreement,
        ⟨fun hused => absurd hused Bool.false_ne_true, fun hall => ?_⟩, hsound.engine⟩
      obtain ⟨-, -, text, hanswer⟩ := hall
      rw [hvision] at hanswer
      cases hanswer
  · rename_i hask
    obtain rfl := Except.ok.inj hok
    refine ⟨hsound.variance, hsound.agreement,
      ⟨fun hused => absurd hused Bool.false_ne_true, fun hall => ?_⟩, hsound.engine⟩
    exact absurd (Bool.and_eq_true_iff.mpr ⟨hall.2.1, hall.1⟩) hask

/-- The page whose readings are furthest apart, and the first of several; the default if all agree. -/
inductive Worst (readings : List PageReading) : Binary64 → String → Prop where
  | none (hall : ∀ r ∈ readings, r.variance = .zero) : Worst readings .zero "tesseract"
  | page {before after : List PageReading} {r : PageReading} (hreadings : readings = before ++ r :: after)
      (hsome : Binary64.lt .zero r.variance = true)
      (hbefore : ∀ s ∈ before, Binary64.lt s.variance r.variance = true)
      (hafter : ∀ s ∈ after, Binary64.le s.variance r.variance = true) :
      Worst readings r.variance r.engineLabel

theorem lt_finite {x y : ℚ} {hx : Binary64.Representable x} {hy : Binary64.Representable y} :
    Binary64.lt (.finite x hx) (.finite y hy) = true ↔ x < y := decide_eq_true_iff

theorem le_finite {x y : ℚ} {hx : Binary64.Representable x} {hy : Binary64.Representable y} :
    Binary64.le (.finite x hx) (.finite y hy) = true ↔ x ≤ y := decide_eq_true_iff

/-- One more page. -/
theorem Worst.add {readings : List PageReading} {p : Progress} {r : PageReading}
    (hworst : Worst readings p.maxVariance p.dominantEngine)
    (hunit : ∀ s ∈ readings ++ [r], InUnit s.variance) :
    Worst (readings ++ [r]) (p.add r).maxVariance (p.add r).dominantEngine := by
  obtain ⟨v, hv, hr, hlow, -⟩ := hunit r (List.mem_append_right _ List.mem_cons_self)
  obtain ⟨pageTexts, maxVariance, anyVision, dominantEngine⟩ := p
  unfold Progress.add
  dsimp only at hworst ⊢
  cases hworst with
  | none hall =>
      split
      · rename_i hmore
        refine .page rfl hmore (fun s hs => ?_) fun s hs => absurd hs List.not_mem_nil
        rw [hall s hs]
        exact hmore
      · rename_i hsame
        refine .none fun s hs => ?_
        obtain hs | hs := List.mem_append.mp hs
        · exact hall s hs
        · obtain rfl := List.mem_singleton.mp hs
          rw [hr, Binary64.zero, lt_finite, not_lt] at hsame
          obtain rfl := le_antisymm hsame hlow
          exact hr
  | @page before after worst hreadings hsome hbefore hafter =>
      obtain ⟨m, hm, hmax, -, -⟩ := hunit worst (by rw [hreadings]; simp)
      split
      · rename_i hmore
        rw [hmax, hr, lt_finite] at hmore
        refine .page rfl ?_ (fun s hs => ?_) fun s hs => absurd hs List.not_mem_nil
        · rw [hmax, Binary64.zero, lt_finite] at hsome
          rw [hr, Binary64.zero, lt_finite]
          exact hsome.trans hmore
        · obtain ⟨u, hu, hs', -, -⟩ := hunit s (List.mem_append_left _ hs)
          rw [hreadings] at hs
          rw [hs', hr, lt_finite]
          obtain hs | hs := List.mem_append.mp hs
          · have hless := hbefore s hs
            rw [hs', hmax, lt_finite] at hless
            exact hless.trans hmore
          · obtain rfl | hs := List.mem_cons.mp hs
            · rw [hmax] at hs'
              injection hs' with heq
              rwa [← heq]
            · have hle := hafter s hs
              rw [hs', hmax, le_finite] at hle
              exact hle.trans_lt hmore
      · rename_i hsame
        have hreadings' : readings ++ [r] = before ++ worst :: (after ++ [r]) := by
          rw [hreadings, List.append_assoc]
          rfl
        refine .page hreadings' hsome hbefore fun s hs => ?_
        obtain hs | hs := List.mem_append.mp hs
        · exact hafter s hs
        · obtain rfl := List.mem_singleton.mp hs
          rw [hmax, hr, lt_finite, not_lt] at hsame
          rw [hmax, hr, le_finite]
          exact hsame

/-- A page has been read to the given result. -/
def World.ReadsPage (w : World Page Image) (page : Page) (r : PageReading) : Prop :=
  ∃ pageNp rawGray, w.preprocessPage page = .ok pageNp ∧ w.pageToGrayscale page = .ok rawGray ∧
    r.Sound w pageNp rawGray

/-- What the loop over the pages keeps. -/
structure Progress.Of (w : World Page Image) (pages : List Page) (p : Progress)
    (readings : List PageReading) : Prop where
  pages : List.Forall₂ w.ReadsPage pages readings
  units : ∀ r ∈ readings, InUnit r.variance
  texts : p.pageTexts = readings.map PageReading.text
  vision : p.anyVision = readings.any PageReading.visionUsed
  worst : Worst readings p.maxVariance p.dominantEngine

/-- The step of the loop. -/
theorem Progress.Of.readPage {pages : List Page} {p p' : Progress} {readings : List PageReading}
    (hof : p.Of w pages readings) {page : Page} {pageNp : Image} (hpage : w.preprocessPage page = .ok pageNp)
    (hok : readPage w p (page, pageNp) = .ok p') : ∃ r, p'.Of w (pages ++ [page]) (readings ++ [r]) := by
  obtain ⟨rawGray, hgray, hok⟩ := Outcome.bind_eq_ok hok
  obtain ⟨r, hread, hok⟩ := Outcome.bind_eq_ok hok
  obtain rfl := Except.ok.inj hok
  have hsound := sound_ocrPage hread
  have hunits : ∀ s ∈ readings ++ [r], InUnit s.variance := by
    intro s hs
    obtain hs | hs := List.mem_append.mp hs
    · exact hof.units s hs
    · rw [List.mem_singleton.mp hs]
      exact hsound.variance
  refine ⟨r, ?_, hunits, ?_, ?_, hof.worst.add hunits⟩
  · apply List.rel_append hof.pages
    exact List.Forall₂.cons ⟨pageNp, rawGray, hpage, hgray, hsound⟩ List.Forall₂.nil
  · rw [List.map_append, ← hof.texts]
    rfl
  · rw [List.any_append, ← hof.vision]
    simp [Progress.add]

/-- The loop over the pages that have been preprocessed. -/
theorem Progress.Of.foldlM {pages done : List Page} {preprocessed : List Image} {p p' : Progress}
    {readings : List PageReading} (hof : p.Of w done readings)
    (hpages : List.Forall₂ (fun page pageNp => w.preprocessPage page = .ok pageNp) pages preprocessed)
    (hok : (pages.zip preprocessed).foldlM (Ingestion.readPage w) p = .ok p') :
    ∃ readings', p'.Of w (done ++ pages) readings' := by
  induction hpages generalizing done p readings with
  | nil =>
      obtain rfl := Except.ok.inj hok
      rw [List.append_nil]
      exact ⟨readings, hof⟩
  | @cons page pageNp pages preprocessed hpage hpages ih =>
      rw [List.zip_cons_cons, List.foldlM_cons] at hok
      obtain ⟨p₁, hstep, hok⟩ := Outcome.bind_eq_ok hok
      obtain ⟨r, hof'⟩ := hof.readPage hpage hstep
      obtain ⟨readings', hrest⟩ := ih hof' hok
      rw [List.append_assoc, List.singleton_append] at hrest
      exact ⟨readings', hrest⟩

theorem Progress.of_start : Progress.start.Of w [] [] :=
  ⟨List.Forall₂.nil, fun _ hr => absurd hr List.not_mem_nil, rfl, rfl,
    .none fun _ hr => absurd hr List.not_mem_nil⟩

/-- The same world with other models. -/
def World.withModels (w : World Page Image) (vision : Image → Except Failure Text)
    (llm : Text → Except Failure LlmExtraction) : World Page Image :=
  { w with extractTextViaVision := vision, extractWithLlm := llm }

section Offline

variable (hoffline : w.llmAvailable = false) (vision : Image → Except Failure Text)
  (llm : Text → Except Failure LlmExtraction)

include hoffline

/-- Without a key the model is not asked for a page, -/
theorem readPage_offline : readPage (w.withModels vision llm) = readPage w := by
  funext p page
  unfold readPage ocrPage
  simp only [World.withModels, hoffline, Bool.and_false, Bool.false_eq_true, if_false]
  rfl

/-- nor for the extraction. -/
theorem extractStructured_offline : extractStructured (w.withModels vision llm) = extractStructured w := by
  funext text
  unfold extractStructured
  simp only [World.withModels, hoffline, Bool.false_eq_true, if_false]

end Offline

/-- Every page of a document is read once and in order, by the model if it is there, the engines disagree and
it answers, and otherwise by an engine. The document reports how many pages there are, whether the model has
read any, and the variance and engine of the page where the readings are furthest apart, which are zero and
Tesseract where no page's readings differ. Without a key nothing depends on the models. -/
theorem processDocument_reads_pages (w : World Page Image) (fileBytes : List UInt8) (filename : Text) :
    (∀ d, processDocumentWithPages w fileBytes filename = .ok d →
      ∃ pages readings, loadPages w fileBytes filename = .ok pages ∧
        List.Forall₂ w.ReadsPage pages readings ∧
        d.pageTexts = readings.map PageReading.text ∧ d.response.pageCount = pages.length ∧
        d.response.visionFallbackUsed = readings.any PageReading.visionUsed ∧
        (∃ variance, Worst readings variance d.response.ocrEngineUsed ∧
          d.response.ocrVariance = pyRound 4 variance) ∧
        extractStructured w (['\n', '\n'].intercalate d.pageTexts) =
          .ok (d.response.extraction, d.response.llmExtractionUsed) ∧
        d.response.llmExtractionUsed = w.llmAvailable) ∧
      (w.llmAvailable = false → ∀ vision llm,
        processDocumentWithPages (w.withModels vision llm) fileBytes filename =
          processDocumentWithPages w fileBytes filename) := by
  constructor
  · intro d hok
    obtain ⟨pages, hpages, hok⟩ := Outcome.bind_eq_ok hok
    obtain ⟨preprocessed, hpreprocessed, hok⟩ := Outcome.bind_eq_ok hok
    obtain ⟨progress, hprogress, hok⟩ := Outcome.bind_eq_ok hok
    obtain ⟨⟨extraction, llmUsed⟩, hextract, hok⟩ := Outcome.bind_eq_ok hok
    obtain rfl := Except.ok.inj hok
    obtain ⟨readings, hof⟩ := Progress.of_start.foldlM
      (Outcome.mapM_eq_ok_iff_forall₂.mp hpreprocessed) hprogress
    refine ⟨pages, readings, hpages, hof.pages, hof.texts, rfl, hof.vision, ⟨_, hof.worst, rfl⟩, hextract, ?_⟩
    unfold extractStructured at hextract
    split at hextract
    · rename_i hkey
      obtain ⟨schema, -, hok⟩ := Outcome.bind_eq_ok hextract
      obtain ⟨-, rfl⟩ := Prod.mk.inj (Except.ok.inj hok)
      exact hkey.symm
    · rename_i hkey
      split at hextract
      · cases hextract
      · obtain ⟨-, rfl⟩ := Prod.mk.inj (Except.ok.inj hextract)
        exact (Bool.eq_false_of_not_eq_true hkey).symm
  · intro hoffline vision llm
    unfold processDocumentWithPages
    rw [readPage_offline hoffline, extractStructured_offline hoffline]
    rfl

end CoreMesh.Ingestion
