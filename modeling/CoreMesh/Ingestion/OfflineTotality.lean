import CoreMesh.Ingestion.ExtractedNumbers

/-!
# When the offline extraction fails

The extraction is meant to return for every text: a number that cannot be read is zero, and a row with such a
number is left out. The conversions are not guarded, so one text that cannot be converted ends it, and with it
the choice between the readings of a page.
-/

namespace CoreMesh.Ingestion

open Regex Pattern

/-! ### The groups of a row -/

theorem gap_eq_some {β : Type} {s : Cursor} {k : Cursor → Option β} {b : β} (hgap : gap s k = some b) :
    ∃ s', k s' = some b := by
  rw [gap] at hgap
  cases hplain : (all [spaces, optional (literal "."), spaces]).run ascii s k with
  | some b' =>
      rw [hplain] at hgap
      cases hgap
      obtain ⟨_, s', -, -, hk⟩ := run_matches hplain
      exact ⟨s', hk⟩
  | none =>
      rw [hplain] at hgap
      obtain ⟨_, s', -, -, hother⟩ := run_matches hgap
      exact lazily_eq_some hother

theorem primaryRow_groups {s : Cursor} {row : RawRow} {length : Nat} (hrow : primaryRow s = some (row, length)) :
    Matches ascii (atLeast (.one (.either (.letters 'l' 'l') .digit)) 1) row.qty ∧
      Matches ascii price row.unit ∧ Matches ascii price row.total := by
  obtain ⟨_, start, -, -, hrow⟩ := run_matches hrow
  obtain ⟨_, first, -, -, hrow⟩ := run_matches hrow
  obtain ⟨stop, hrow⟩ := lazily_eq_some hrow
  obtain ⟨_, s₁, -, -, hrow⟩ := run_matches hrow
  obtain ⟨qty, s₂, hqty, hrow⟩ := group_eq_some hrow
  obtain ⟨_, s₃, -, -, hrow⟩ := run_matches hrow
  obtain ⟨unit, s₄, hunit, hrow⟩ := group_eq_some hrow
  obtain ⟨s₅, hrow⟩ := gap_eq_some hrow
  obtain ⟨_, s₆, -, -, hrow⟩ := run_matches hrow
  obtain ⟨total, s₇, htotal, hrow⟩ := group_eq_some hrow
  cases hrow
  exact ⟨hqty, hunit, htotal⟩

theorem pipeRow_groups {s : Cursor} {row : RawRow} {length : Nat} (hrow : pipeRow s = some (row, length)) :
    Matches ascii (atLeast digit 1) row.qty ∧ Matches ascii amounts row.unit ∧
      Matches ascii amounts row.total := by
  obtain ⟨_, start, -, -, hrow⟩ := run_matches hrow
  obtain ⟨description, s₁, -, hrow⟩ := group_eq_some hrow
  obtain ⟨_, s₂, -, -, hrow⟩ := run_matches hrow
  obtain ⟨qty, s₃, hqty, hrow⟩ := group_eq_some hrow
  obtain ⟨_, s₄, -, -, hrow⟩ := run_matches hrow
  obtain ⟨unit, s₅, hunit, hrow⟩ := group_eq_some hrow
  obtain ⟨_, s₆, -, -, hrow⟩ := run_matches hrow
  obtain ⟨total, s₇, htotal, hrow⟩ := group_eq_some hrow
  cases hrow
  exact ⟨hqty, hunit, htotal⟩

/-! ### What is meant -/

def tolerantAmount : Option Text → Binary64
  | none => .zero
  | some raw => (parseFloat raw).toOption.getD .zero

/-- The rows whose numbers can be read. -/
def tolerantLineItems (text : Text) : List LineItem :=
  match (primaryRows text).filterMap fun row => (row.lineItem (onesOf row.qty)).toOption with
  | [] => (pipeRows text).filterMap fun row => (row.lineItem row.qty).toOption
  | items => items

def tolerantSchema (text : Text) : ExtractionTargetSchema :=
  let text := normalizeOcrText text
  { vendorName := ((search vendorName none text).map PyText.strip).getD unknown
    invoiceId := ((search invoiceId none text).map PyText.strip).getD unknown
    lineItems := tolerantLineItems text
    calculatedTax := tolerantAmount (search taxAmount none text)
    invoiceTotal := tolerantAmount (search totalAmount none text) }

/-! ### When it is done -/

/-- The cells of a table are amounts; a row of the first form has a count that is not too long. -/
def RowsParse (text : Text) : Prop :=
  match primaryRows text with
  | [] => ∀ row ∈ pipeRows text, row.qty.length ≤ 4300 ∧ IsAmount row.unit ∧ IsAmount row.total
  | rows => ∀ row ∈ rows, row.qty.length ≤ 4300

/-- What stands behind the words for the tax and the total are amounts, and the rows have theirs. -/
structure NumbersParse (text : Text) : Prop where
  tax : ∀ raw, search taxAmount none text = some raw → IsAmount raw
  total : ∀ raw, search totalAmount none text = some raw → IsAmount raw
  rows : RowsParse text

theorem amountBehind_isNumberChar {front : Pattern} {word : String} {text raw : Text}
    (hraw : search (amountBehind front word) none text = some raw) : ∀ c ∈ raw, isNumberChar c := by
  obtain ⟨s, hraw⟩ := search_eq_some hraw
  obtain ⟨_, start, -, -, hraw⟩ := run_matches hraw
  obtain ⟨taken, stop, htaken, hraw⟩ := group_eq_some hraw
  cases hraw
  exact isNumberChar_of_amount htaken

theorem amountOf_isOk_iff {front : Pattern} {word : String} {text : Text} :
    (∃ x, amountOf (search (amountBehind front word) none text) = .ok x) ↔
      ∀ raw, search (amountBehind front word) none text = some raw → IsAmount raw := by
  cases hraw : search (amountBehind front word) none text with
  | none =>
      apply iff_of_true ⟨_, rfl⟩
      intro raw hsome
      cases hsome
  | some raw =>
      rw [amountOf, parseFloat_isOk_iff (amountBehind_isNumberChar hraw)]
      apply Iff.intro
      · intro hamount raw' hsome
        rw [← Option.some.inj hsome]
        exact hamount
      · intro hall
        exact hall raw rfl

theorem amountOf_eq_tolerant {raw : Option Text} {x : Binary64} (hok : amountOf raw = .ok x) :
    x = tolerantAmount raw := by
  cases raw with
  | none => exact (Except.ok.inj hok).symm
  | some raw =>
      have hparse : parseFloat raw = .ok x := hok
      rw [tolerantAmount, hparse]
      rfl

theorem RawRow.lineItem_isOk_iff {row : RawRow} {qty : Text} (hsome : qty ≠ [])
    (hqty : ∀ c ∈ qty, asciiDecimal c = true) (hunit : ∀ c ∈ row.unit, isNumberChar c)
    (htotal : ∀ c ∈ row.total, isNumberChar c) :
    (∃ item, row.lineItem qty = .ok item) ↔
      qty.length ≤ 4300 ∧ IsAmount row.unit ∧ IsAmount row.total := by
  rw [← intOf_isOk_iff hsome hqty, ← parseFloat_isOk_iff hunit, ← parseFloat_isOk_iff htotal]
  apply Iff.intro
  · intro hok
    obtain ⟨quantity, hquantity, hok⟩ := Outcome.exists_bind_eq_ok_iff.mp hok
    obtain ⟨unitPrice, hunitPrice, hok⟩ := Outcome.exists_bind_eq_ok_iff.mp hok
    obtain ⟨total, htotal, -⟩ := Outcome.exists_bind_eq_ok_iff.mp hok
    exact ⟨⟨quantity, hquantity⟩, ⟨unitPrice, hunitPrice⟩, ⟨total, htotal⟩⟩
  · intro ⟨⟨quantity, hquantity⟩, ⟨unitPrice, hunitPrice⟩, ⟨total, htotal⟩⟩
    refine Outcome.exists_bind_eq_ok_iff.mpr ⟨quantity, hquantity, ?_⟩
    refine Outcome.exists_bind_eq_ok_iff.mpr ⟨unitPrice, hunitPrice, ?_⟩
    exact Outcome.exists_bind_eq_ok_iff.mpr ⟨total, htotal, _, rfl⟩

/-- The prices of a row of the first form cannot fail. -/
theorem primaryRow_isOk_iff {text : Text} {row : RawRow} (hrow : row ∈ primaryRows text) :
    (∃ item, row.lineItem (onesOf row.qty) = .ok item) ↔ row.qty.length ≤ 4300 := by
  obtain ⟨s, length, hrow⟩ := exists_rule_of_mem_findAll hrow
  obtain ⟨hqty, hunit, htotal⟩ := primaryRow_groups hrow
  obtain ⟨hsome, hdecimal⟩ := decimal_onesOf hqty
  rw [RawRow.lineItem_isOk_iff hsome hdecimal (isNumberChar_of_price hunit) (isNumberChar_of_price htotal),
    onesOf, List.length_map]
  exact and_iff_left ⟨isAmount_of_price hunit, isAmount_of_price htotal⟩

theorem pipeRow_isOk_iff {text : Text} {row : RawRow} (hrow : row ∈ pipeRows text) :
    (∃ item, row.lineItem row.qty = .ok item) ↔
      row.qty.length ≤ 4300 ∧ IsAmount row.unit ∧ IsAmount row.total := by
  obtain ⟨s, length, hrow⟩ := exists_rule_of_mem_findAll (List.mem_filter.mp hrow).1
  obtain ⟨hqty, hunit, htotal⟩ := pipeRow_groups hrow
  obtain ⟨hsome, hdecimal⟩ := all_of_matches_some hqty
  exact RawRow.lineItem_isOk_iff hsome hdecimal (isNumberChar_of_amounts hunit)
    (isNumberChar_of_amounts htotal)

theorem extractLineItems_isOk_iff (text : Text) :
    (∃ items, extractLineItems text = .ok items) ↔ RowsParse text := by
  rw [extractLineItems, RowsParse]
  have hprimary : ∀ row ∈ primaryRows text,
      (∃ item, row.lineItem (onesOf row.qty) = .ok item) ↔ row.qty.length ≤ 4300 :=
    fun row hrow => primaryRow_isOk_iff hrow
  cases hrows : primaryRows text with
  | nil =>
      rw [Outcome.exists_mapM_eq_ok_iff]
      exact forall₂_congr fun row hrow => pipeRow_isOk_iff hrow
  | cons first rest =>
      rw [hrows] at hprimary
      rw [Outcome.exists_mapM_eq_ok_iff]
      exact forall₂_congr hprimary

theorem extractLineItems_eq_tolerant {text : Text} {items : List LineItem}
    (hok : extractLineItems text = .ok items) : items = tolerantLineItems text := by
  rw [extractLineItems] at hok
  rw [tolerantLineItems]
  cases hrows : primaryRows text with
  | nil =>
      rw [hrows] at hok
      exact (Outcome.filterMap_of_mapM_eq_ok hok).symm
  | cons first rest =>
      rw [hrows] at hok
      rw [Outcome.filterMap_of_mapM_eq_ok hok]
      have hlength := Outcome.length_mapM hok
      cases items with
      | nil => cases hlength
      | cons item items => rfl

theorem extractWithRegex_isOk_iff (text : Text) :
    (∃ schema, extractWithRegex text = .ok schema) ↔ NumbersParse (normalizeOcrText text) := by
  apply Iff.intro
  · intro hok
    obtain ⟨tax, htax, hok⟩ := Outcome.exists_bind_eq_ok_iff.mp hok
    obtain ⟨total, htotal, hok⟩ := Outcome.exists_bind_eq_ok_iff.mp hok
    obtain ⟨items, hitems, -⟩ := Outcome.exists_bind_eq_ok_iff.mp hok
    exact ⟨amountOf_isOk_iff.mp ⟨tax, htax⟩, amountOf_isOk_iff.mp ⟨total, htotal⟩,
      (extractLineItems_isOk_iff _).mp ⟨items, hitems⟩⟩
  · intro hparse
    obtain ⟨tax, htax⟩ := amountOf_isOk_iff.mpr hparse.tax
    obtain ⟨total, htotal⟩ := amountOf_isOk_iff.mpr hparse.total
    obtain ⟨items, hitems⟩ := (extractLineItems_isOk_iff _).mpr hparse.rows
    refine Outcome.exists_bind_eq_ok_iff.mpr ⟨tax, htax, ?_⟩
    refine Outcome.exists_bind_eq_ok_iff.mpr ⟨total, htotal, ?_⟩
    exact Outcome.exists_bind_eq_ok_iff.mpr ⟨items, hitems, _, rfl⟩

/-- What is returned is what is meant. -/
theorem extractWithRegex_eq_tolerant {text : Text} {schema : ExtractionTargetSchema}
    (hok : extractWithRegex text = .ok schema) : schema = tolerantSchema text := by
  obtain ⟨tax, htax, hok⟩ := Outcome.bind_eq_ok hok
  obtain ⟨total, htotal, hok⟩ := Outcome.bind_eq_ok hok
  obtain ⟨items, hitems, hok⟩ := Outcome.bind_eq_ok hok
  cases hok
  rw [tolerantSchema, amountOf_eq_tolerant htax, amountOf_eq_tolerant htotal,
    extractLineItems_eq_tolerant hitems]

theorem scoreParseableText_isOk_iff (text : Text) :
    (∃ score, scoreParseableText text = .ok score) ↔ NumbersParse (normalizeOcrText text) := by
  rw [← extractWithRegex_isOk_iff, scoreParseableText, Outcome.exists_bind_eq_ok_iff]
  exact exists_congr fun schema => and_iff_left ⟨_, rfl⟩

theorem exists_maxBy_eq_some {κ : Type} {greater : κ → κ → Bool} {items : List (Candidate × κ)} :
    (∃ best, maxBy greater items = some best) ↔ items ≠ [] := by
  cases items with
  | nil =>
      apply iff_of_false
      · intro ⟨best, hbest⟩
        cases hbest
      · exact fun hne => hne rfl
  | cons first rest => exact iff_of_true ⟨_, rfl⟩ (List.cons_ne_nil _ _)

theorem exists_scores_iff (candidates : List Candidate) :
    (∃ scores, candidates.mapM (fun c => scoreParseableText c.text) = .ok scores) ↔
      ∀ c ∈ candidates, NumbersParse (normalizeOcrText c.text) := by
  rw [Outcome.exists_mapM_eq_ok_iff]
  exact forall₂_congr fun c _ => scoreParseableText_isOk_iff c.text

theorem pickBestCandidate_isOk_iff (threshold : Binary64) (candidates : List Candidate) (variance : Binary64) :
    (∃ best, pickBestCandidate threshold candidates variance = .ok (some best)) ↔
      candidates ≠ [] ∧ (Binary64.le variance threshold = true ∨
        ∀ c ∈ candidates, NumbersParse (normalizeOcrText c.text)) := by
  rw [pickBestCandidate]
  split
  · rename_i hagree
    have hne : candidates.map (fun c => (c, c.confidence)) ≠ [] ↔ candidates ≠ [] :=
      not_congr List.map_eq_nil_iff
    have hbest : (∃ best, maxBy (fun a b => Binary64.lt b a) (candidates.map fun c => (c, c.confidence)) =
        some best) ↔ candidates.map (fun c => (c, c.confidence)) ≠ [] := exists_maxBy_eq_some
    rw [and_iff_left (.inl hagree), ← hne, ← hbest]
    exact exists_congr fun best => ⟨fun hok => Except.ok.inj hok, fun hok => congrArg _ hok⟩
  · rename_i hdisagree
    rw [or_iff_right hdisagree, ← exists_scores_iff]
    apply Iff.intro
    · intro ⟨best, hok⟩
      obtain ⟨scores, hscores, hok⟩ := Outcome.bind_eq_ok hok
      refine ⟨?_, scores, hscores⟩
      intro hnil
      rw [hnil] at hok
      cases Except.ok.inj hok
    · intro ⟨hsome, scores, hscores⟩
      have hlength := Outcome.length_mapM hscores
      cases candidates with
      | nil => exact absurd rfl hsome
      | cons first rest =>
          cases scores with
          | nil => cases hlength
          | cons score scores =>
              rw [hscores]
              exact ⟨_, rfl⟩

/-- The extraction of a text, its score, and the choice between readings that differ, get to their end
exactly if the numbers that are found can be converted. -/
theorem offline_extraction_returns_iff (text : Text) (threshold : Binary64) (candidates : List Candidate)
    (variance : Binary64) :
    (extractWithRegex text = .ok (tolerantSchema text) ↔ NumbersParse (normalizeOcrText text)) ∧
      ((∃ schema, extractWithRegex text = .ok schema) ↔ NumbersParse (normalizeOcrText text)) ∧
      ((∃ score, scoreParseableText text = .ok score) ↔ NumbersParse (normalizeOcrText text)) ∧
      ((∃ best, pickBestCandidate threshold candidates variance = .ok (some best)) ↔
        candidates ≠ [] ∧ (Binary64.le variance threshold = true ∨
          ∀ c ∈ candidates, NumbersParse (normalizeOcrText c.text))) := by
  refine ⟨?_, extractWithRegex_isOk_iff text, scoreParseableText_isOk_iff text,
    pickBestCandidate_isOk_iff threshold candidates variance⟩
  rw [← extractWithRegex_isOk_iff]
  apply Iff.intro
  · exact fun hok => ⟨_, hok⟩
  · intro ⟨schema, hok⟩
    rw [← extractWithRegex_eq_tolerant hok]
    exact hok

/-- A comma behind the word for the tax is no number, and neither of two readings is chosen. -/
theorem comma_not_converted :
    extractWithRegex "TAX ,".toList = .error (.noFloat []) ∧
      scoreParseableText "TAX ,".toList = .error (.noFloat []) ∧
      pickBestCandidate (.ofRat (8 / 100))
        [⟨"TAX ,".toList, .ofRat 80, "tesseract"⟩, ⟨[], .zero, "easyocr"⟩] (.ofRat 1) =
          .error (.noFloat []) := by
  refine ⟨rfl, rfl, ?_⟩
  have hdiffer : Binary64.le (.ofRat 1) (.ofRat (8 / 100)) = false := by decide +kernel
  rw [pickBestCandidate, hdiffer]
  rfl

end CoreMesh.Ingestion
