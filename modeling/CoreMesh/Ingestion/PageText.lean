import Mathlib.Data.Char
import Mathlib.Data.List.Lex
import Mathlib.Data.Prod.Lex
import CoreMesh.Ingestion.Extraction
import CoreMesh.Lib.Bands
import CoreMesh.Lib.Selection
import CoreMesh.Lib.SequenceMatcher

/-!
# What two engines read on a page

The text that is made of the boxes of one engine, and how far the texts of both are apart.
-/

namespace CoreMesh.Ingestion

open SequenceMatcher (sumMatches two_mul_sumMatches_le two_mul_sumMatches_eq_iff)

/-! ### Boxes -/

/-- A text that EasyOCR has found: the upper left corner of its box in pixels, and the confidence. -/
structure Found where
  x : ℚ
  y : ℚ
  text : Text
  confidence : Binary64

def lineGapPx : ℚ := 15

/-- From the top to the bottom, and on one height from the left. -/
def inReadingOrder (results : List Found) : List Found :=
  Selection.sortedBy (fun r => toLex (r.y, r.x)) results

/-- The boxes by lines. -/
def linesOf (results : List Found) : List (List Found) :=
  Bands.bands lineGapPx Found.y (inReadingOrder results)

/-- The texts of a line from the left to the right. -/
def lineText (line : List Found) : Text :=
  [' '].intercalate ((Selection.sortedBy id (line.map fun r => toLex (r.x, r.text))).map fun t => (ofLex t).2)

/-- `_easyocr_results_to_text`. -/
def easyocrResultsToText (results : List Found) : Text := ['\n'].intercalate ((linesOf results).map lineText)

theorem pairwise_inReadingOrder (results : List Found) :
    (inReadingOrder results).Pairwise fun a b => a.y ≤ b.y := by
  refine (Selection.pairwise_sortedBy _ results).imp fun {a b} hle => ?_
  obtain hlt | hsame := Prod.Lex.le_iff.mp hle
  · exact hlt.le
  · exact hsame.1.le

theorem sortedBy_id_perm {K : Type*} [LinearOrder K] {l l' : List K} (hperm : l.Perm l') :
    Selection.sortedBy id l = Selection.sortedBy id l' := by
  have hsame : (Selection.sortedBy id l).Perm (Selection.sortedBy id l') :=
    ((Selection.sortedBy_perm id l).trans hperm).trans (Selection.sortedBy_perm id l').symm
  exact hsame.eq_of_pairwise (fun a b _ _ hab hba => le_antisymm hab hba)
    (Selection.pairwise_sortedBy id l) (Selection.pairwise_sortedBy id l')

theorem lineText_perm {line line' : List Found} (hperm : line.Perm line') : lineText line = lineText line' := by
  rw [lineText, lineText, sortedBy_id_perm (hperm.map _)]

/-- The text of a page does not depend on the order in which its boxes are reported. Every box is in one line;
boxes of a line are at most the gap apart, and a line is above the next. -/
theorem easyocrResultsToText_reads_lines (results : List Found) :
    (∀ results', results.Perm results' → easyocrResultsToText results = easyocrResultsToText results') ∧
      (linesOf results).flatten.Perm results ∧
      (∀ line ∈ linesOf results, ∀ r ∈ line, ∀ s ∈ line, |r.y - s.y| ≤ lineGapPx) ∧
      (linesOf results).Pairwise fun upper lower => ∀ r ∈ upper, ∀ s ∈ lower, r.y < s.y := by
  have hgap : 0 ≤ lineGapPx := by decide
  refine ⟨fun results' hperm => ?_, ?_, Bands.bands_spec hgap (pairwise_inReadingOrder results)⟩
  · have hordered : (inReadingOrder results).Perm (inReadingOrder results') :=
      ((Selection.sortedBy_perm _ results).trans hperm).trans (Selection.sortedBy_perm _ results').symm
    have hlines := Bands.bands_perm hgap hordered (pairwise_inReadingOrder results)
      (pairwise_inReadingOrder results')
    have htexts : (linesOf results).map lineText = (linesOf results').map lineText := by
      rw [← List.forall₂_eq_eq_eq, List.forall₂_map_left_iff, List.forall₂_map_right_iff]
      exact hlines.imp fun line line' => lineText_perm
    rw [easyocrResultsToText, htexts, easyocrResultsToText]
  · rw [linesOf, Bands.flatten_bands]
    exact Selection.sortedBy_perm _ results

/-! ### How far two texts are apart -/

/-- `compute_variance`. -/
def computeVariance (text1 text2 : Text) : Binary64 :=
  if text1 = [] ∧ text2 = [] then .zero
  else if text1 = [] ∨ text2 = [] then .ofInt 1
  else
    let ratio := Binary64.div (.mul (.ofInt 2) (.ofInt (sumMatches text1 text2)))
      (.ofInt (text1.length + text2.length))
    .sub (.ofInt 1) ratio

/-- A ratio below one is a last place below one at least. -/
theorem nearest_lt_one {matched total : ℕ} (hsize : total < 2 ^ 53) (hless : 2 * matched < total) :
    Binary64.nearest (2 * matched / total) ≤ 1 - 1 / 2 ^ 53 := by
  have hpos : (0 : ℚ) < total := by exact_mod_cast (Nat.zero_le _).trans_lt hless
  have hbelow : Binary64.Representable (1 - 1 / 2 ^ 53) :=
    ⟨2 ^ 53 - 1, -53, by norm_num, by norm_num, by norm_num, by norm_num⟩
  rw [← Binary64.nearest_of_representable hbelow]
  apply Binary64.nearest_mono (by positivity)
  have hstep : (2 * matched : ℚ) + 1 ≤ total := by exact_mod_cast hless
  have hunit : (total : ℚ) * (1 / 2 ^ 53) ≤ 1 := by
    have hle : (total : ℚ) ≤ 2 ^ 53 := by exact_mod_cast hsize.le
    linarith
  rw [div_le_iff₀ hpos]
  linarith

/-- The part of two texts that is not matched, in doubles. -/
theorem one_sub_ratio {matched total : ℕ} (htotal : 0 < total) (hsize : total < 2 ^ 53)
    (hmatched : 2 * matched ≤ total) :
    ∃ v hv, Binary64.sub (.ofInt 1) (.div (.mul (.ofInt 2) (.ofInt matched)) (.ofInt total)) = .finite v hv ∧
      0 ≤ v ∧ v ≤ 1 ∧ (v = 0 ↔ 2 * matched = total) := by
  have hpos : (0 : ℚ) < total := by exact_mod_cast htotal
  have hwhole {n : ℕ} (hn : n < 2 ^ 53) : |(n : ℤ)| < 2 ^ 53 := by
    rw [abs_of_nonneg (Int.natCast_nonneg n)]
    exact_mod_cast hn
  have htwice : Binary64.mul (.ofInt 2) (.ofInt matched) = .ofInt (2 * matched : ℕ) := by
    rw [Binary64.ofInt_eq (n := 2) (by norm_num), Binary64.ofInt_eq (hwhole (by omega))]
    show Binary64.ofRat _ = Binary64.ofRat _
    push_cast
    rfl
  have hratio : Binary64.div (.mul (.ofInt 2) (.ofInt matched)) (.ofInt total) =
      .ofRat (2 * matched / total) := by
    rw [htwice, Binary64.ofInt_eq (hwhole (by omega)), Binary64.ofInt_eq (hwhole hsize)]
    simp only [Binary64.div, Int.cast_natCast, if_neg hpos.ne']
    push_cast
    rfl
  have hle : (2 * matched / total : ℚ) ≤ 1 := by
    rw [div_le_one hpos]
    exact_mod_cast hmatched
  obtain ⟨hr, hfinite, hlow, hhigh⟩ := Binary64.ofRat_of_mem_unit (x := 2 * matched / total)
    (by positivity) hle
  obtain ⟨hv, hresult, hvlow, hvhigh⟩ := Binary64.ofRat_of_mem_unit
    (x := 1 - Binary64.nearest (2 * matched / total)) (sub_nonneg.mpr hhigh) (sub_le_self _ hlow)
  refine ⟨_, hv, ?_, hvlow, hvhigh, ?_⟩
  · rw [hratio, hfinite, Binary64.ofInt_eq (n := 1) (by norm_num), ← hresult]
    simp only [Binary64.sub, Binary64.neg, Binary64.add, Int.cast_one, sub_eq_add_neg]
  · apply Iff.intro
    · intro hzero
      by_contra hne
      have hbelow := nearest_lt_one hsize (lt_of_le_of_ne hmatched hne)
      have hunit : Binary64.Representable (1 / 2 ^ 53) :=
        ⟨1, -53, by norm_num, by norm_num, by norm_num, by norm_num⟩
      have hmono : Binary64.nearest (1 / 2 ^ 53) ≤
          Binary64.nearest (1 - Binary64.nearest (2 * matched / total)) :=
        Binary64.nearest_mono (by norm_num) (by linarith)
      rw [Binary64.nearest_of_representable hunit, hzero] at hmono
      norm_num at hmono
    · intro hall
      have hone : (2 * matched / total : ℚ) = 1 := by
        rw [div_eq_one_iff_eq hpos.ne']
        exact_mod_cast hall
      have hnearest : Binary64.nearest 1 = 1 := by
        exact_mod_cast Binary64.nearest_intCast (n := 1) (by norm_num)
      rw [hone, hnearest, sub_self]
      exact Binary64.nearest_of_representable Binary64.representable_zero

/-- The variance of two texts is between zero and one, and it is zero exactly if they are the same. -/
theorem computeVariance_spec {text1 text2 : Text} (hsize : text1.length + text2.length < 2 ^ 53) :
    ∃ v hv, computeVariance text1 text2 = .finite v hv ∧ 0 ≤ v ∧ v ≤ 1 ∧ (v = 0 ↔ text1 = text2) := by
  unfold computeVariance
  split
  · rename_i hempty
    exact ⟨0, Binary64.representable_zero, rfl, le_rfl, zero_le_one, by simp [hempty.1, hempty.2]⟩
  · rename_i hsome
    split
    · rename_i hone
      refine ⟨1, by exact_mod_cast Binary64.representable_intCast (n := 1) (by norm_num), ?_, zero_le_one,
        le_rfl, by norm_num, fun hsame => ?_⟩
      · simpa using Binary64.ofInt_eq (n := 1) (by norm_num)
      · rw [hsame, or_self] at hone
        exact absurd ⟨hsame.trans hone, hone⟩ hsome
    · rename_i hboth
      rw [not_or] at hboth
      have htotal : 0 < text1.length + text2.length :=
        Nat.add_pos_left (List.length_pos_of_ne_nil hboth.1) _
      obtain ⟨v, hv, hvariance, hlow, hhigh, hzero⟩ :=
        one_sub_ratio htotal hsize (two_mul_sumMatches_le text1 text2)
      refine ⟨v, hv, ?_, hlow, hhigh, hzero.trans two_mul_sumMatches_eq_iff⟩
      rw [← hvariance]
      push_cast
      rfl

end CoreMesh.Ingestion
