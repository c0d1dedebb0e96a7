import Mathlib.Data.String.Basic
import CoreMesh.Lib.Substitution
import CoreMesh.SelfHealingDocs.Partition

/-!
# Replacements are applied all at once

Bodies are replaced from the end of a file to its beginning, file by file. For ranges that are in the
document, and one section to a place, this is one substitution, whatever the order of the replacements; and
nothing is written unless every file has passed its checks.
-/

namespace CoreMesh.SelfHealingDocs

open Substitution (Edit replace simultaneous Apart)

def PendingReplacement.edit (r : PendingReplacement) : Edit Char :=
  ⟨r.docSection.bodyStart, r.docSection.bodyEnd, r.replacementBody⟩

def fromStart (a b : PendingReplacement) : Prop := a.docSection.bodyStart ≤ b.docSection.bodyStart

instance : DecidableRel fromStart := fun _ _ => inferInstanceAs (Decidable (_ ≤ _))

instance : Std.Total fromStart := ⟨fun _ _ => le_total _ _⟩

instance : IsTrans PendingReplacement fromStart := ⟨fun _ _ _ hab hbc => le_trans hab hbc⟩

/-- Replacements for one file, by where they start. -/
def byStart (replacements : List PendingReplacement) : List PendingReplacement :=
  replacements.insertionSort fromStart

/-- The text of a document with the bodies of all its replacements in place. -/
def substituted (replacements : List PendingReplacement) (document : MarkdownDocument) (path : String) :
    Text :=
  simultaneous document.text 0 ((byStart (inFile replacements path)).map PendingReplacement.edit)

/-- The sections are in their documents, and sections of one file that start at one place are one. -/
structure Placed (documents : String → Option MarkdownDocument) (replacements : List PendingReplacement) :
    Prop where
  within : ∀ r ∈ replacements, ∀ document, documents r.docSection.path = some document →
    r.docSection.bodyStart ≤ r.docSection.bodyEnd ∧ r.docSection.bodyEnd ≤ document.text.length
  starts : ∀ r ∈ replacements, ∀ r' ∈ replacements, r.docSection.path = r'.docSection.path →
    r.docSection.bodyStart = r'.docSection.bodyStart → r.docSection.sectionId = r'.docSection.sectionId

/-- What a run that succeeds has done: each file has exactly its ranges replaced. -/
structure Substituted (safeMarkdownPath : String → Except Error String)
    (documents : String → Option MarkdownDocument) (replacements : List PendingReplacement)
    (files : String → Text) (paths : List String) (files' : String → Text) : Prop where
  current : ∀ r ∈ replacements, ∃ document, documents r.docSection.path = some document ∧
    (document.text.take r.docSection.bodyEnd).drop r.docSection.bodyStart = r.docSection.body
  apart : ∀ path, (byStart (inFile replacements path)).Pairwise
    fun a b => a.docSection.bodyEnd ≤ b.docSection.bodyStart
  changed : ∀ path, path ∈ paths ↔ (∃ r ∈ replacements, r.docSection.path = path) ∧
    ∃ document, documents path = some document ∧ substituted replacements document path ≠ document.text
  written : ∀ path ∈ paths, ∃ document file, documents path = some document ∧
    safeMarkdownPath path = .ok file ∧
      ((∀ other ∈ paths, safeMarkdownPath other = .ok file → other = path) →
        files' file = substituted replacements document path)
  untouched : ∀ file, (∀ path ∈ paths, safeMarkdownPath path ≠ .ok file) → files' file = files file

/-- Replacements are applied at once: their order does not matter, a run that succeeds is one substitution
of the ranges in each file, and nothing is written if the checks of any file fail. -/
structure AppliedAtOnce (safeMarkdownPath : String → Except Error String)
    (documents : String → Option MarkdownDocument) (files : String → Text)
    (replacements : List PendingReplacement) : Prop where
  anyOrder : ∀ replacements', replacements.Perm replacements' →
    (applyMarkdownReplacements safeMarkdownPath documents files replacements).1.toOption =
        (applyMarkdownReplacements safeMarkdownPath documents files replacements').1.toOption ∧
      (applyMarkdownReplacements safeMarkdownPath documents files replacements).2 =
        (applyMarkdownReplacements safeMarkdownPath documents files replacements').2
  simultaneous : ∀ paths,
    (applyMarkdownReplacements safeMarkdownPath documents files replacements).1 = .ok paths →
      Substituted safeMarkdownPath documents replacements files paths
        (applyMarkdownReplacements safeMarkdownPath documents files replacements).2
  allOrNothing : ∀ r ∈ replacements, ∀ error,
    prepareFile safeMarkdownPath documents [] r.docSection.path
        (inFile replacements r.docSection.path) = .error error →
      (∃ error, (applyMarkdownReplacements safeMarkdownPath documents files replacements).1 =
        .error error) ∧
        (applyMarkdownReplacements safeMarkdownPath documents files replacements).2 = files

/-! ### One file -/

section File

variable {document : MarkdownDocument} {replacements replacements' : List PendingReplacement}

theorem validateNonOverlapping_apart {seen : List String} {previousEnd : Int}
    (hvalid : validateNonOverlapping seen previousEnd replacements = .ok ())
    (hranges : ∀ r ∈ replacements, r.docSection.bodyStart ≤ r.docSection.bodyEnd) :
    (∀ r ∈ replacements, previousEnd ≤ r.docSection.bodyStart) ∧
      replacements.Pairwise fun a b => a.docSection.bodyEnd ≤ b.docSection.bodyStart := by
  induction replacements generalizing seen previousEnd with
  | nil => exact ⟨fun r hr => absurd hr List.not_mem_nil, .nil⟩
  | cons first rest ih =>
      obtain ⟨hfirst, hrest⟩ := List.forall_mem_cons.mp hranges
      rw [validateNonOverlapping] at hvalid
      split at hvalid
      · cases hvalid
      · split at hvalid
        · cases hvalid
        · rename_i _ hstart
          obtain ⟨hbehind, hpairwise⟩ := ih hvalid hrest
          refine ⟨fun r hr => ?_, List.pairwise_cons.mpr ⟨fun r hr => by exact_mod_cast hbehind r hr,
            hpairwise⟩⟩
          obtain rfl | hlater := List.mem_cons.mp hr
          · omega
          · have hnext := hbehind r hlater
            omega

theorem validateNonOverlapping_ids {seen : List String} {previousEnd : Int}
    (hvalid : validateNonOverlapping seen previousEnd replacements = .ok ()) :
    (replacements.map fun r => r.docSection.sectionId).Nodup := by
  induction replacements generalizing seen previousEnd with
  | nil => exact .nil
  | cons first rest ih =>
      rw [validateNonOverlapping] at hvalid
      split at hvalid
      · cases hvalid
      · split at hvalid
        · cases hvalid
        · refine List.nodup_cons.mpr ⟨fun hagain => ?_, ih hvalid⟩
          obtain ⟨r, hr, hid⟩ := List.mem_map.mp hagain
          exact (validateNonOverlapping_spec hvalid).2 r hr (hid ▸ List.mem_cons_self)

theorem nodup_starts (hids : (replacements.map fun r => r.docSection.sectionId).Nodup)
    (hstarts : ∀ r ∈ replacements, ∀ r' ∈ replacements,
      r.docSection.bodyStart = r'.docSection.bodyStart → r.docSection.sectionId = r'.docSection.sectionId) :
    (replacements.map fun r => r.docSection.bodyStart).Nodup := by
  refine List.pairwise_map.mpr (List.Pairwise.imp_of_mem ?_ (List.pairwise_map.mp hids))
  intro r r' hr hr' hne hstart
  exact hne (hstarts r hr r' hr' hstart)

/-- Sections at different places have one order by their places. -/
theorem byStart_eq_of_perm (hstarts : (replacements.map fun r => r.docSection.bodyStart).Nodup)
    (hperm : replacements.Perm replacements') : byStart replacements = byStart replacements' := by
  have hsorted := List.perm_insertionSort fromStart replacements
  have hsorted' := List.perm_insertionSort fromStart replacements'
  refine List.Perm.eq_of_pairwise ?_ (List.pairwise_insertionSort fromStart replacements)
    (List.pairwise_insertionSort fromStart replacements') ((hsorted.trans hperm).trans hsorted'.symm)
  intro a b ha hb hab hba
  exact List.inj_on_of_nodup_map hstarts (hsorted.mem_iff.mp ha)
    (hperm.mem_iff.mpr (hsorted'.mem_iff.mp hb)) (le_antisymm hab hba)

/-- The order from the end is the order by the starts, turned round. -/
theorem fromEnd_eq_reverse (hstarts : (replacements.map fun r => r.docSection.bodyStart).Nodup) :
    replacements.insertionSort fromEnd = (byStart replacements).reverse := by
  have hsorted := List.perm_insertionSort fromStart replacements
  have hsorted' := List.perm_insertionSort fromEnd replacements
  refine List.Perm.eq_of_pairwise ?_ (List.pairwise_insertionSort fromEnd replacements)
    (List.pairwise_reverse.mpr (List.pairwise_insertionSort fromStart replacements))
    (hsorted'.trans (hsorted.symm.trans (List.reverse_perm _).symm))
  intro a b ha hb hab hba
  exact List.inj_on_of_nodup_map hstarts (hsorted'.mem_iff.mp ha)
    (hsorted.mem_iff.mp (List.mem_reverse.mp hb)) (le_antisymm hba hab)

/-- A file's outcome is the same whatever the order of its replacements. -/
theorem toOption_repair_of_perm {path : String} (hperm : replacements.Perm replacements')
    (hstarts : ∀ r ∈ replacements, ∀ r' ∈ replacements,
      r.docSection.bodyStart = r'.docSection.bodyStart → r.docSection.sectionId = r'.docSection.sectionId) :
    (repair path document replacements).toOption = (repair path document replacements').toOption := by
  have hfails : ∀ replacements : List PendingReplacement,
      ¬(replacements.map fun r => r.docSection.sectionId).Nodup →
        (repair path document replacements).toOption = none := by
    intro replacements hids
    cases hrepair : repair path document replacements with
    | error error => rfl
    | ok text =>
        have hsorted := validateNonOverlapping_ids (repair_eq_ok hrepair).1
        exact absurd (((List.perm_insertionSort _ _).map _).nodup_iff.mp hsorted) hids
  by_cases hids : (replacements.map fun r => r.docSection.sectionId).Nodup
  · have hplaces := nodup_starts hids hstarts
    have hplaces' := (hperm.map fun r => r.docSection.bodyStart).nodup_iff.mp hplaces
    have hsame := byStart_eq_of_perm hplaces hperm
    have hend : replacements.insertionSort fromEnd = replacements'.insertionSort fromEnd := by
      rw [fromEnd_eq_reverse hplaces, fromEnd_eq_reverse hplaces', hsame]
    have hrepair : repair path document replacements = repair path document replacements' := by
      show (do
        validateNonOverlapping [] (-1) (byStart replacements)
        let text ← (replacements.insertionSort fromEnd).foldlM splice document.text
        _) = _
      rw [hsame, hend]
      rfl
    rw [hrepair]
  · rw [hfails _ hids, hfails _ fun h => hids ((hperm.map _).nodup_iff.mpr h)]

theorem splice_eq_ok_iff {text text' : Text} {r : PendingReplacement} :
    splice text r = .ok text' ↔
      (text.take r.docSection.bodyEnd).drop r.docSection.bodyStart = r.docSection.body ∧
        text' = replace text r.edit := by
  rw [splice]
  by_cases hcurrent : (text.take r.docSection.bodyEnd).drop r.docSection.bodyStart = r.docSection.body
  · rw [if_neg (not_not.mpr hcurrent)]
    exact ⟨fun hok => ⟨hcurrent, (Except.ok.inj hok).symm⟩, fun h => congrArg Except.ok h.2.symm⟩
  · rw [if_pos hcurrent]
    refine ⟨fun hok => ?_, fun h => absurd h.1 hcurrent⟩
    cases hok

/-- From the last range to the first, each one still has its body when its turn comes. -/
theorem foldlM_splice_reverse {text text' : Text}
    (hapart : Apart text (replacements.map PendingReplacement.edit))
    (hok : replacements.reverse.foldlM splice text = .ok text') :
    text' = simultaneous text 0 (replacements.map PendingReplacement.edit) ∧
      ∀ r ∈ replacements,
        (text.take r.docSection.bodyEnd).drop r.docSection.bodyStart = r.docSection.body := by
  rw [← Substitution.foldr_replace hapart]
  induction replacements generalizing text' with
  | nil => exact ⟨(Except.ok.inj hok).symm, fun r hr => absurd hr List.not_mem_nil⟩
  | cons first rest ih =>
      rw [List.reverse_cons, List.foldlM_append] at hok
      obtain ⟨behind, hbehind, hlast⟩ := Outcome.bind_eq_ok hok
      obtain ⟨spliced, hsplice, hdone⟩ := Outcome.bind_eq_ok hlast
      obtain rfl := Except.ok.inj hdone
      obtain ⟨hcurrent, rfl⟩ := splice_eq_ok_iff.mp hsplice
      rw [List.map_cons] at hapart
      obtain ⟨rfl, hrest⟩ := ih hapart.tail hbehind
      exact ⟨rfl, List.forall_mem_cons.mpr
        ⟨(Substitution.slice_foldr_replace hapart).symm.trans hcurrent, hrest⟩⟩

/-- A file that is repaired has exactly the ranges of its replacements replaced. -/
theorem repair_substituted {path : String} {text : Text}
    (hrepair : repair path document replacements = .ok text)
    (hwithin : ∀ r ∈ replacements, r.docSection.bodyStart ≤ r.docSection.bodyEnd ∧
      r.docSection.bodyEnd ≤ document.text.length)
    (hstarts : ∀ r ∈ replacements, ∀ r' ∈ replacements,
      r.docSection.bodyStart = r'.docSection.bodyStart → r.docSection.sectionId = r'.docSection.sectionId) :
    text = simultaneous document.text 0 ((byStart replacements).map PendingReplacement.edit) ∧
      (byStart replacements).Pairwise (fun a b => a.docSection.bodyEnd ≤ b.docSection.bodyStart) ∧
      ∀ r ∈ replacements,
        (document.text.take r.docSection.bodyEnd).drop r.docSection.bodyStart = r.docSection.body := by
  obtain ⟨hvalid, hsplices, -⟩ := repair_eq_ok hrepair
  have hsorted := List.perm_insertionSort fromStart replacements
  have hids := ((hsorted.map fun r => r.docSection.sectionId).nodup_iff).mp (validateNonOverlapping_ids hvalid)
  have hordered := (validateNonOverlapping_apart hvalid fun r hr => (hwithin r (hsorted.mem_iff.mp hr)).1).2
  have hapart : Apart document.text ((byStart replacements).map PendingReplacement.edit) := by
    refine ⟨List.pairwise_map.mpr hordered, fun edit hedit => ?_⟩
    obtain ⟨r, hr, rfl⟩ := List.mem_map.mp hedit
    exact hwithin r (hsorted.mem_iff.mp hr)
  rw [fromEnd_eq_reverse (nodup_starts hids hstarts)] at hsplices
  obtain ⟨htext, hcurrent⟩ := foldlM_splice_reverse hapart hsplices
  exact ⟨htext, hordered, fun r hr => hcurrent r (hsorted.mem_iff.mpr hr)⟩

end File

/-! ### All files -/

section Files

variable {safeMarkdownPath : String → Except Error String} {documents : String → Option MarkdownDocument}
  {replacements replacements' : List PendingReplacement}

theorem mem_inFile {path : String} {r : PendingReplacement} :
    r ∈ inFile replacements path ↔ r ∈ replacements ∧ r.docSection.path = path := by
  rw [inFile, List.mem_filter, beq_iff_eq]

theorem Placed.inFile_starts (hplaced : Placed documents replacements) (path : String) :
    ∀ r ∈ inFile replacements path, ∀ r' ∈ inFile replacements path,
      r.docSection.bodyStart = r'.docSection.bodyStart →
        r.docSection.sectionId = r'.docSection.sectionId := by
  intro r hr r' hr' hstart
  obtain ⟨hin, hpath⟩ := mem_inFile.mp hr
  obtain ⟨hin', hpath'⟩ := mem_inFile.mp hr'
  exact hplaced.starts r hin r' hin' (hpath.trans hpath'.symm) hstart

theorem toOption_prepareFile_of_perm (hplaced : Placed documents replacements)
    (hperm : replacements.Perm replacements') (prepared : List PreparedWrite) (path : String) :
    (prepareFile safeMarkdownPath documents prepared path (inFile replacements path)).toOption =
      (prepareFile safeMarkdownPath documents prepared path (inFile replacements' path)).toOption := by
  rw [prepareFile, prepareFile]
  cases documents path with
  | none => rfl
  | some document =>
      have hrepair : (repair path document (inFile replacements path)).toOption =
          (repair path document (inFile replacements' path)).toOption :=
        toOption_repair_of_perm (hperm.filter _) (hplaced.inFile_starts path)
      exact Outcome.toOption_bind_congr hrepair fun text => rfl

/-- The writes are the same whatever the order of the replacements. -/
theorem toOption_prepare_of_perm (hplaced : Placed documents replacements)
    (hperm : replacements.Perm replacements') :
    (prepare safeMarkdownPath documents replacements).toOption =
      (prepare safeMarkdownPath documents replacements').toOption := by
  have hpaths : (replacements.map fun r => r.docSection.path).dedup.insertionSort (· ≤ ·) =
      (replacements'.map fun r => r.docSection.path).dedup.insertionSort (· ≤ ·) := by
    refine List.Perm.eq_of_pairwise' (List.pairwise_insertionSort _ _) (List.pairwise_insertionSort _ _) ?_
    exact (List.perm_insertionSort _ _).trans (((hperm.map _).dedup).trans
      (List.perm_insertionSort _ _).symm)
  rw [prepare, prepare, hpaths]
  exact Outcome.toOption_foldlM_congr (fun prepared path =>
    toOption_prepareFile_of_perm hplaced hperm prepared path) _ _

theorem apply_congr {files : String → Text}
    (hsame : (prepare safeMarkdownPath documents replacements).toOption =
      (prepare safeMarkdownPath documents replacements').toOption) :
    (applyMarkdownReplacements safeMarkdownPath documents files replacements).1.toOption =
        (applyMarkdownReplacements safeMarkdownPath documents files replacements').1.toOption ∧
      (applyMarkdownReplacements safeMarkdownPath documents files replacements).2 =
        (applyMarkdownReplacements safeMarkdownPath documents files replacements').2 := by
  rw [applyMarkdownReplacements, applyMarkdownReplacements]
  cases hprepare : prepare safeMarkdownPath documents replacements with
  | error error =>
      cases hprepare' : prepare safeMarkdownPath documents replacements' with
      | error error' => exact ⟨rfl, rfl⟩
      | ok prepared' =>
          rw [hprepare, hprepare'] at hsame
          cases hsame
  | ok prepared =>
      cases hprepare' : prepare safeMarkdownPath documents replacements' with
      | error error' =>
          rw [hprepare, hprepare'] at hsame
          cases hsame
      | ok prepared' =>
          rw [hprepare, hprepare'] at hsame
          obtain rfl : prepared = prepared' := Option.some.inj hsame
          exact ⟨rfl, rfl⟩

theorem mem_paths {path : String} :
    path ∈ (replacements.map fun r => r.docSection.path).dedup.insertionSort (· ≤ ·) ↔
      ∃ r ∈ replacements, r.docSection.path = path := by
  rw [List.mem_insertionSort, List.mem_dedup, List.mem_map]

/-- Nothing is written if the checks of any file fail. -/
theorem apply_of_failing {files : String → Text} {r : PendingReplacement} (hr : r ∈ replacements)
    {error : Error} (hfails : prepareFile safeMarkdownPath documents [] r.docSection.path
      (inFile replacements r.docSection.path) = .error error) :
    (∃ error, (applyMarkdownReplacements safeMarkdownPath documents files replacements).1 = .error error) ∧
      (applyMarkdownReplacements safeMarkdownPath documents files replacements).2 = files := by
  rw [applyMarkdownReplacements]
  cases hprepare : prepare safeMarkdownPath documents replacements with
  | error error => exact ⟨⟨error, rfl⟩, rfl⟩
  | ok prepared =>
      obtain ⟨document, text, hdocument, hrepair, hwritten⟩ :=
        (prepare_spec hprepare).files _ (mem_paths.mpr ⟨r, hr, rfl⟩)
      rw [prepareFile, hdocument] at hfails
      simp only [hrepair, bind, Except.bind] at hfails
      by_cases hsame : text = document.text
      · rw [if_pos hsame] at hfails
        cases hfails
      · obtain ⟨absolute, hin⟩ := hwritten hsame
        have hsafe : safeMarkdownPath r.docSection.path = .ok absolute :=
          absolute_of_prepare hprepare _ hin
        rw [if_neg hsame, hsafe] at hfails
        cases hfails

/-- A file that is written to ends up as one of the writes to it. -/
theorem exists_last_write {prepared : List PreparedWrite} (files : String → Text) {file : String}
    (hfile : ∃ write ∈ prepared, write.absolute = file) :
    ∃ last ∈ prepared, last.absolute = file ∧
      prepared.foldl (fun files write path => if path = write.absolute then write.text else files path)
        files file = last.text := by
  induction prepared generalizing files with
  | nil =>
      obtain ⟨write, hwrite, -⟩ := hfile
      cases hwrite
  | cons first prepared ih =>
      rw [List.foldl_cons]
      by_cases hlater : ∃ write ∈ prepared, write.absolute = file
      · obtain ⟨last, hlast, hwritten⟩ := ih _ hlater
        exact ⟨last, List.mem_cons_of_mem _ hlast, hwritten⟩
      · push Not at hlater
        obtain ⟨write, hwrite, hpath⟩ := hfile
        obtain rfl | hin := List.mem_cons.mp hwrite
        · refine ⟨write, List.mem_cons_self, hpath, ?_⟩
          rw [foldl_write_of_forall_ne prepared _ hlater, if_pos hpath.symm]
        · exact absurd hpath (hlater write hin)

theorem Placed.inFile_within (hplaced : Placed documents replacements) {path : String}
    {document : MarkdownDocument} (hdocument : documents path = some document) :
    ∀ r ∈ inFile replacements path, r.docSection.bodyStart ≤ r.docSection.bodyEnd ∧
      r.docSection.bodyEnd ≤ document.text.length := by
  intro r hr
  obtain ⟨hin, hpath⟩ := mem_inFile.mp hr
  exact hplaced.within r hin document (hpath ▸ hdocument)

/-- The file of a replacement that has been prepared: its ranges are apart, and the text of the section is
still the one that was read. -/
theorem file_of_prepare (hplaced : Placed documents replacements) {prepared : List PreparedWrite}
    (hprepare : prepare safeMarkdownPath documents replacements = .ok prepared) {r : PendingReplacement}
    (hr : r ∈ replacements) : ∃ document, documents r.docSection.path = some document ∧
      (substituted replacements document r.docSection.path ≠ document.text →
        r.docSection.path ∈ prepared.map PreparedWrite.relativePath) ∧
      (byStart (inFile replacements r.docSection.path)).Pairwise
        (fun a b => a.docSection.bodyEnd ≤ b.docSection.bodyStart) ∧
      (document.text.take r.docSection.bodyEnd).drop r.docSection.bodyStart = r.docSection.body := by
  obtain ⟨document, text, hdocument, hrepair, hwritten⟩ :=
    (prepare_spec hprepare).files _ (mem_paths.mpr ⟨r, hr, rfl⟩)
  obtain ⟨rfl, hordered, hcurrent⟩ := repair_substituted hrepair (hplaced.inFile_within hdocument)
    (hplaced.inFile_starts _)
  refine ⟨document, hdocument, fun hne => ?_, hordered, hcurrent r (mem_inFile.mpr ⟨hr, rfl⟩)⟩
  obtain ⟨absolute, hin⟩ := hwritten hne
  exact List.mem_map_of_mem hin

theorem text_of_prepare (hplaced : Placed documents replacements) {prepared : List PreparedWrite}
    (hprepare : prepare safeMarkdownPath documents replacements = .ok prepared) {write : PreparedWrite}
    (hin : write ∈ prepared) : ∃ document, documents write.relativePath = some document ∧
      write.text = substituted replacements document write.relativePath ∧ write.text ≠ document.text := by
  obtain ⟨⟨document, hdocument, hrepair, hne⟩, -⟩ := (prepare_spec hprepare).writes write hin
  obtain ⟨htext, -⟩ := repair_substituted hrepair (hplaced.inFile_within hdocument)
    (hplaced.inFile_starts _)
  exact ⟨document, hdocument, htext, hne⟩

/-- Where no other file has the path of a write, that file ends up with the text of the write. -/
theorem written_of_prepare (hplaced : Placed documents replacements) {prepared : List PreparedWrite}
    (hprepare : prepare safeMarkdownPath documents replacements = .ok prepared) (files : String → Text)
    {write : PreparedWrite} (hin : write ∈ prepared) {document : MarkdownDocument}
    (hdocument : documents write.relativePath = some document)
    (honly : ∀ other ∈ prepared.map PreparedWrite.relativePath,
      safeMarkdownPath other = .ok write.absolute → other = write.relativePath) :
    prepared.foldl (fun files write path => if path = write.absolute then write.text else files path)
      files write.absolute = substituted replacements document write.relativePath := by
  have hsafe := absolute_of_prepare hprepare
  obtain ⟨last, hlast, habsolute, htext⟩ := exists_last_write files ⟨write, hin, rfl⟩
  have hsame : last.relativePath = write.relativePath :=
    honly _ (List.mem_map_of_mem hlast) (habsolute ▸ hsafe last hlast)
  obtain ⟨document', hdocument', hlastText, -⟩ := text_of_prepare hplaced hprepare hlast
  rw [hsame] at hdocument' hlastText
  obtain rfl := Option.some.inj (hdocument.symm.trans hdocument')
  exact htext.trans hlastText

/-- A run that succeeds has replaced exactly the ranges of its replacements. -/
theorem substituted_of_ok (hplaced : Placed documents replacements) {files : String → Text}
    {paths : List String}
    (hok : (applyMarkdownReplacements safeMarkdownPath documents files replacements).1 = .ok paths) :
    Substituted safeMarkdownPath documents replacements files paths
      (applyMarkdownReplacements safeMarkdownPath documents files replacements).2 := by
  rw [applyMarkdownReplacements] at hok ⊢
  cases hprepare : prepare safeMarkdownPath documents replacements with
  | error error =>
      rw [hprepare] at hok
      cases hok
  | ok prepared =>
      rw [hprepare] at hok
      obtain rfl := Except.ok.inj hok
      have hsafe := absolute_of_prepare hprepare
      constructor
      · intro r hr
        obtain ⟨document, hdocument, -, -, hcurrent⟩ := file_of_prepare hplaced hprepare hr
        exact ⟨document, hdocument, hcurrent⟩
      · intro path
        by_cases hsome : ∃ r ∈ replacements, r.docSection.path = path
        · obtain ⟨r, hr, rfl⟩ := hsome
          obtain ⟨document, -, -, hordered, -⟩ := file_of_prepare hplaced hprepare hr
          exact hordered
        · have hnone : inFile replacements path = [] :=
            List.filter_eq_nil_iff.mpr fun r hr hpath => hsome ⟨r, hr, beq_iff_eq.mp hpath⟩
          rw [hnone]
          exact .nil
      · intro path
        constructor
        · intro hpath
          obtain ⟨write, hin, rfl⟩ := List.mem_map.mp hpath
          obtain ⟨document, hdocument, htext, hne⟩ := text_of_prepare hplaced hprepare hin
          exact ⟨mem_paths.mp ((prepare_spec hprepare).writes write hin).2, document, hdocument, htext ▸ hne⟩
        · rintro ⟨⟨r, hr, rfl⟩, document, hdocument, hne⟩
          obtain ⟨document', hdocument', hwritten, -⟩ := file_of_prepare hplaced hprepare hr
          obtain rfl := Option.some.inj (hdocument.symm.trans hdocument')
          exact hwritten hne
      · intro path hpath
        obtain ⟨write, hin, rfl⟩ := List.mem_map.mp hpath
        obtain ⟨document, hdocument, -⟩ := text_of_prepare hplaced hprepare hin
        refine ⟨document, write.absolute, hdocument, hsafe write hin, fun honly => ?_⟩
        exact written_of_prepare hplaced hprepare files hin hdocument honly
      · intro file hother
        exact foldl_write_of_forall_ne prepared files fun write hin hfile =>
          hother _ (List.mem_map_of_mem hin) (hfile ▸ hsafe write hin)

/-- Replacements that are placed in their documents are applied at once. -/
theorem apply_simultaneous (safeMarkdownPath : String → Except Error String)
    (documents : String → Option MarkdownDocument) (files : String → Text)
    (replacements : List PendingReplacement) (hplaced : Placed documents replacements) :
    AppliedAtOnce safeMarkdownPath documents files replacements where
  anyOrder := fun _ hperm => apply_congr (toOption_prepare_of_perm hplaced hperm)
  simultaneous := fun _ hok => substituted_of_ok hplaced hok
  allOrNothing := fun _ hr _ hfails => apply_of_failing hr hfails

end Files

/-- Sections of the documents are placed. -/
theorem placed_of_sections {documents : String → Option MarkdownDocument}
    {replacements : List PendingReplacement}
    (hsections : ∀ r ∈ replacements, ∃ document, documents r.docSection.path = some document ∧
      r.docSection ∈ splitMarkdownDocument document) : Placed documents replacements := by
  constructor
  · intro r hr document hdocument
    obtain ⟨document', hdocument', hs⟩ := hsections r hr
    obtain rfl := Option.some.inj (hdocument.symm.trans hdocument')
    have hlength := length_body hs
    exact ⟨by omega, bodyEnd_le_length hs⟩
  · intro r hr r' hr' hpath hstart
    obtain ⟨document, hdocument, hs⟩ := hsections r hr
    obtain ⟨document', hdocument', hs'⟩ := hsections r' hr'
    rw [hpath] at hdocument
    obtain rfl := Option.some.inj (hdocument.symm.trans hdocument')
    rw [eq_of_bodyStart hs hs' hstart]

/-! ### Three sections of two documents -/

def trackedGuide : MarkdownDocument := ⟨"GUIDE.md", "# C\nolder\n".toList, ['\n']⟩

def trackedBoth (path : String) : Option MarkdownDocument :=
  if path == "GUIDE.md" then some trackedGuide else tracked path

def filesOfBoth (file : String) : Text := if file == "/repo/GUIDE.md" then trackedGuide.text else readme.text

/-- A new body for the only section of the guide. -/
def rewrittenGuide (body : String) : PendingReplacement where
  docSection :=
    { sectionId := "GUIDE.md::C::section-1", path := "GUIDE.md", heading := ['C'],
      headingPath := [['C']], level := 1, body := "older\n".toList, bodyStart := 4, bodyEnd := 10,
      newline := ['\n'], ordinal := 1 }
  replacementBody := body.toList

def rewrittenBoth (guideBody : String) : List PendingReplacement :=
  [rewrittenSecond "fresh\n", rewrittenGuide guideBody, rewritten "a longer text\n"]

theorem placed_rewrittenBoth (guideBody : String) : Placed trackedBoth (rewrittenBoth guideBody) := by
  have hguide : (rewrittenGuide guideBody).docSection ∈ splitMarkdownDocument trackedGuide := by
    show (rewrittenGuide "").docSection ∈ _
    decide +kernel
  refine placed_of_sections fun r hr => ?_
  simp only [rewrittenBoth, List.mem_cons, List.not_mem_nil, or_false] at hr
  obtain rfl | rfl | rfl := hr
  · exact ⟨readme, rfl, (mem_readme "fresh\n").2⟩
  · exact ⟨trackedGuide, rfl, hguide⟩
  · exact ⟨readme, rfl, (mem_readme "a longer text\n").1⟩

/-- Both files are written, also with the replacements the other way round. A body that makes a heading of
its own keeps both from being written. -/
theorem apply_simultaneous_rewritten :
    AppliedAtOnce onDisk trackedBoth filesOfBoth (rewrittenBoth "newer\n") ∧
      (applyMarkdownReplacements onDisk trackedBoth filesOfBoth (rewrittenBoth "newer\n").reverse).2
          "/repo/README.md" = "# A\na longer text\n# B\nfresh\n".toList ∧
      (applyMarkdownReplacements onDisk trackedBoth filesOfBoth (rewrittenBoth "newer\n").reverse).2
          "/repo/GUIDE.md" = "# C\nnewer\n".toList ∧
      (applyMarkdownReplacements onDisk trackedBoth filesOfBoth (rewrittenBoth "# D\n")).2 = filesOfBoth := by
  have happlied := apply_simultaneous onDisk trackedBoth filesOfBoth (rewrittenBoth "newer\n")
    (placed_rewrittenBoth _)
  have hfailing := apply_simultaneous onDisk trackedBoth filesOfBoth (rewrittenBoth "# D\n")
    (placed_rewrittenBoth _)
  have hfails : (prepareFile onDisk trackedBoth [] "GUIDE.md"
      (inFile (rewrittenBoth "# D\n") "GUIDE.md")).toOption = none := by decide +kernel
  refine ⟨happlied, ?_, ?_, ?_⟩
  · rw [← (happlied.anyOrder _ (List.reverse_perm _).symm).2]
    decide +kernel
  · rw [← (happlied.anyOrder _ (List.reverse_perm _).symm).2]
    decide +kernel
  · cases hprepared : prepareFile onDisk trackedBoth [] "GUIDE.md"
        (inFile (rewrittenBoth "# D\n") "GUIDE.md") with
    | ok prepared =>
        rw [hprepared] at hfails
        cases hfails
    | error error =>
        exact (hfailing.allOrNothing (rewrittenGuide "# D\n") (by simp [rewrittenBoth]) error hprepared).2

/-! ### Sections that are not of one document -/

def renamed : MarkdownDocument := ⟨"README.md", "# B\nabcdefg\n".toList, ['\n']⟩

def trackedRenamed (path : String) : Option MarkdownDocument :=
  if path == "README.md" then some renamed else none

/-- A replacement for an empty body of a section of that name. -/
def filled (heading : Char) (bodyStart bodyEnd : Nat) (body : String) : PendingReplacement where
  docSection :=
    { sectionId := "README.md::" ++ heading.toString ++ "::section-1", path := "README.md",
      heading := [heading], headingPath := [[heading]], level := 1, body := [], bodyStart := bodyStart,
      bodyEnd := bodyEnd, newline := ['\n'], ordinal := 1 }
  replacementBody := body.toList

/-- Two sections with empty bodies at one place, as before and after a heading is renamed: the order decides
which body is first. A range that ends before it starts has a part of the file written twice. -/
theorem order_matters_unplaced :
    (¬AppliedAtOnce onDisk trackedRenamed (fun _ => renamed.text)
        [filled 'A' 4 4 "one\n", filled 'B' 4 4 "two\n"]) ∧
      prepare onDisk trackedRenamed [filled 'A' 9 5 "-"] =
        .ok [⟨"README.md", "/repo/README.md", "# B\nabcde-bcdefg\n".toList⟩] := by
  refine ⟨fun happlied => ?_, by decide +kernel⟩
  have hfiles := (happlied.anyOrder _ (List.Perm.swap _ _ [])).2
  have hfile := congrFun hfiles "/repo/README.md"
  revert hfile
  decide +kernel

end CoreMesh.SelfHealingDocs
