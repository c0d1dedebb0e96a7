import CoreMesh.SelfHealingDocs.Gitops
import Mathlib.Data.List.Infix
import Mathlib.Data.List.ReduceOption

/-!
# Paths that Git quotes

The output of Git is read as if no path were quoted. A path is read back exactly if Git has not quoted
it, a source file whose path is quoted is left out, and documents whose paths are quoted are not taken
for the ones that were to be written.
-/

namespace CoreMesh.SelfHealingDocs

open CQuote (Bytes spelled render needsQuotes encode)

variable {git : Git} {path : Text}

/-- A path as `validate_relative_repo_path` leaves it. -/
structure Normal (path : Text) : Prop where
  clean : PosixPath.Clean path
  inside : "..".toList ∉ path.splitOn '/'
  backslash : '\\' ∉ path
  nul : '\x00' ∉ path

theorem Normal.ne_nil (hnormal : Normal path) : path ≠ [] := by
  rintro rfl
  exact (hnormal.clean [] List.mem_cons_self).1 rfl

theorem replaceBackslashes_eq_self (hbackslash : '\\' ∉ path) : replaceBackslashes path = path := by
  refine (List.map_congr_left fun c hc => ?_).trans (List.map_id path)
  have hne : c ≠ '\\' := by
    rintro rfl
    exact hbackslash hc
  rw [if_neg hne]
  rfl

theorem Normal.validate (hnormal : Normal path) : validateRelativeRepoPath git path = .ok path := by
  have hparts : PosixPath.parts path = path.splitOn '/' := by
    rw [PosixPath.parts, if_pos hnormal.clean.root, hnormal.clean.components]
  have hnul : ¬ (path = [] ∨ path.contains '\x00' = true) := by
    rintro (hnil | hnul)
    · exact hnormal.ne_nil hnil
    · exact hnormal.nul (List.contains_iff_mem.mp hnul)
  have hsafe : ¬ (PosixPath.isAbsolute path = true ∨
      (PosixPath.parts path).contains "..".toList = true) := by
    rintro (habsolute | houtside)
    · exact absurd hnormal.clean.root (by simpa [PosixPath.isAbsolute] using habsolute)
    · exact hnormal.inside (hparts ▸ List.contains_iff_mem.mp houtside)
  simp only [validateRelativeRepoPath, replaceBackslashes_eq_self hnormal.backslash, Bool.or_eq_true,
    decide_eq_true_eq, if_neg hnul, if_neg hsafe, hnormal.clean.asPosix]

theorem not_mem_replaceBackslashes : '\\' ∉ replaceBackslashes path := by
  intro hmem
  obtain ⟨c, -, hc⟩ := List.mem_map.mp hmem
  split at hc
  · cases hc
  · rename_i hne
    exact hne hc

theorem validate_eq_ok {normalized : Text} (hok : validateRelativeRepoPath git path = .ok normalized) :
    path.contains '\x00' = false ∧ PosixPath.root (replaceBackslashes path) = [] ∧
      "..".toList ∉ PosixPath.components (replaceBackslashes path) ∧
      normalized = PosixPath.asPosix (replaceBackslashes path) := by
  simp only [validateRelativeRepoPath] at hok
  split at hok
  · cases hok
  · rename_i hnul
    split at hok
    · cases hok
    · rename_i hsafe
      rw [Bool.or_eq_true, not_or] at hnul hsafe
      have hroot : PosixPath.root (replaceBackslashes path) = [] := by
        simpa [PosixPath.isAbsolute] using hsafe.1
      refine ⟨Bool.eq_false_iff.mpr hnul.2, hroot, ?_, (Except.ok.inj hok).symm⟩
      have hinside := hsafe.2
      rw [PosixPath.parts, if_pos hroot] at hinside
      exact fun hmem => hinside (List.contains_iff_mem.mpr hmem)

/-- The validated path is normal if it has a part at all. -/
theorem normal_of_validate {normalized : Text}
    (hok : validateRelativeRepoPath git path = .ok normalized)
    (hcomponents : PosixPath.components (replaceBackslashes path) ≠ []) : Normal normalized := by
  obtain ⟨hnul, hroot, hinside, rfl⟩ := validate_eq_ok hok
  have hmem : ∀ {c : Char}, c ∈ PosixPath.asPosix (replaceBackslashes path) →
      c = '/' ∨ c ∈ replaceBackslashes path := fun hc => PosixPath.mem_asPosix hroot hcomponents hc
  refine ⟨PosixPath.clean_asPosix hroot hcomponents, ?_, fun hc => ?_, fun hc => ?_⟩
  · rw [PosixPath.splitOn_asPosix hroot hcomponents]
    exact hinside
  · obtain hc | hc := hmem hc
    · cases hc
    · exact not_mem_replaceBackslashes hc
  · obtain hc | hc := hmem hc
    · cases hc
    · obtain ⟨d, hd, heq⟩ := List.mem_map.mp hc
      split at heq
      · cases heq
      · exact Bool.eq_false_iff.mp hnul (List.contains_iff_mem.mpr (heq ▸ hd))

/-! ### Quoted paths -/

section Quoted

variable {spaces : Bool} {bytes : Bytes}

theorem quoted_tail (hquotes : needsQuotes spaces bytes = true) :
    ['"'] <:+ replaceBackslashes (render spaces bytes) := by
  rw [CQuote.render_of_quotes hquotes, replaceBackslashes, List.map_append]
  exact List.suffix_append _ _

theorem quote_ends : ∃ c ∈ ['"'].getLast?, c ≠ '.' := ⟨'"', rfl, by decide⟩

/-- A name that ends with a quotation mark is not that of a source. -/
theorem selectedLanguage_of_quoted (hquotes : needsQuotes spaces bytes = true) :
    selectedLanguage (render spaces bytes) = none := by
  have hname := PosixPath.suffix_name (quoted_tail hquotes) (by decide) quote_ends
  have hlast : (PosixPath.name (replaceBackslashes (render spaces bytes))).getLast? = some '"' := by
    obtain ⟨front, hfront⟩ := hname
    rw [← hfront, List.getLast?_concat]
  have hsuffix : ∀ c text, (c :: text).getLast? ≠ some '"' →
      PosixPath.suffix (replaceBackslashes (render spaces bytes)) ≠ c :: text := by
    intro c text hend heq
    simp only [PosixPath.suffix] at heq
    split at heq
    · rename_i hbehind
      obtain ⟨before, hbefore⟩ := List.rtakeWhile_suffix (· ≠ '.')
        (PosixPath.name (replaceBackslashes (render spaces bytes)))
      rw [← hbefore, List.getLast?_append_of_ne_nil _ hbehind.1] at hlast
      rw [← heq, List.getLast?_cons, hlast] at hend
      exact hend rfl
    · cases heq
  have hcompose : composeNames.contains
      (PosixPath.name (replaceBackslashes (render spaces bytes))) = false := by
    have hnames : ∀ name ∈ composeNames, name.getLast? ≠ some '"' := by decide +kernel
    refine Bool.eq_false_iff.mpr fun hmem => ?_
    exact hnames _ (List.contains_iff_mem.mp hmem) hlast
  have hpython : PosixPath.suffix (replaceBackslashes (render spaces bytes)) ≠ ".py".toList :=
    hsuffix '.' "py".toList (by decide)
  have hgo : PosixPath.suffix (replaceBackslashes (render spaces bytes)) ≠ ".go".toList :=
    hsuffix '.' "go".toList (by decide)
  have hlanguage : sourceLanguage (render spaces bytes) = none := by
    rw [sourceLanguage, if_neg hpython, if_neg hgo, hcompose]
    rfl
  rw [selectedLanguage, hlanguage]

end Quoted

theorem normal_of_plain {spaces : Bool} {path : RepoPath}
    (hplain : needsQuotes spaces path.bytes = false) : Normal (spelled path.bytes) where
  clean := path.clean
  inside := path.inside
  backslash hmem := (CQuote.ne_of_mem_spelled hplain hmem).2 rfl
  nul hmem := absurd (CQuote.visible_render (CQuote.render_of_plain hplain ▸ hmem)) (by decide)

/-! ### The changes between two revisions -/

/-- The paths of a record, as byte strings. -/
def NameStatus.recovered (record : NameStatus) : Option Bytes × Option Bytes :=
  (record.oldPath.map encode, record.newPath.map encode)

def TreeChange.tracked (change : TreeChange) : Option Bytes × Option Bytes :=
  (change.oldPath.map RepoPath.bytes, change.newPath.map RepoPath.bytes)

def TreeChange.record (change : TreeChange) : NameStatus where
  status := change.status
  oldPath := change.oldPath.map fun path => render false path.bytes
  newPath := change.newPath.map fun path => render false path.bytes

/-- The path by which a change is selected. -/
def TreeChange.selectedPath (change : TreeChange) : Option RepoPath := change.newPath.or change.oldPath

/-- The language of a change, if it is one of a source. -/
def TreeChange.language (change : TreeChange) : Option Language :=
  change.selectedPath.bind fun path => selectedLanguage (spelled path.bytes)

/-- The language of a record, if it is not skipped. -/
def NameStatus.language (record : NameStatus) : Option Language :=
  (orPath record.newPath record.oldPath).bind selectedLanguage

theorem tab_not_mem_render {spaces : Bool} {bytes : Bytes} : '\t' ∉ render spaces bytes := fun hmem =>
  absurd (CQuote.visible_render hmem) (by decide)

theorem visible_status (change : TreeChange) : ∀ c ∈ change.status, CQuote.Visible c := by
  have hscore : ∀ score : Fin 101, ('R' :: scoreText score).all (fun c => decide (CQuote.Visible c)) := by
    decide +kernel
  refine CQuote.forall_visible ?_
  cases change with
  | renamed score old new => exact hscore score
  | _ => rfl

theorem parseNameStatus_line (change : TreeChange) :
    parseNameStatus git change.line = .ok change.record := by
  have hstatus : '\t' ∉ change.status := fun hmem => absurd (visible_status change _ hmem) (by decide)
  have hone : ∀ path : RepoPath, change.paths = [path] →
      change.line.splitOn '\t' = [change.status, render false path.bytes] := by
    intro path hpaths
    rw [TreeChange.line, hpaths, List.flatMap_singleton,
      List.splitOn_append_cons_self_of_not_mem hstatus, List.splitOn_eq_singleton tab_not_mem_render]
  rw [parseNameStatus]
  cases change with
  | renamed score old new =>
      have htwo : (TreeChange.renamed score old new).line.splitOn '\t' =
          [(TreeChange.renamed score old new).status, render false old.bytes, render false new.bytes] := by
        have hline : (TreeChange.renamed score old new).line =
            (TreeChange.renamed score old new).status ++ '\t' :: (render false old.bytes ++ '\t' :: render false new.bytes) := by
          simp [TreeChange.line, TreeChange.paths]
        rw [hline, List.splitOn_append_cons_self_of_not_mem hstatus,
          List.splitOn_append_cons_self_of_not_mem tab_not_mem_render,
          List.splitOn_eq_singleton tab_not_mem_render]
      rw [htwo]
      rfl
  | added path => rw [hone path rfl]; rfl
  | deleted path => rw [hone path rfl]; rfl
  | modified path => rw [hone path rfl]; rfl
  | typeChanged path => rw [hone path rfl]; rfl

theorem linesOf_flatMap {α : Type*} {line : α → Text} {xs : List α}
    (hlines : ∀ x ∈ xs, ∀ c ∈ line x, CQuote.Visible c ∨ c = '\t') :
    linesOf (xs.flatMap fun x => line x ++ ['\n']) = xs.map line := by
  have hbreak : ∀ x ∈ xs, ∀ c ∈ line x, isLineBreak c = false := by
    intro x hx c hc
    refine Bool.eq_false_iff.mpr fun hbreak => ?_
    have hcases := List.contains_iff_mem.mp hbreak
    obtain ⟨hlow, hhigh⟩ | rfl := hlines x hx c hc
    · simp only [List.mem_cons, List.not_mem_nil, or_false] at hcases
      omega
    · revert hbreak
      decide
  rw [linesOf, splitlines, Lines.split_flatMap (by decide) (by decide) hbreak, List.map_map]
  refine List.map_congr_left fun x hx => ?_
  show (line x ++ ['\n']).filter (fun c => !isLineBreak c) = line x
  rw [List.filter_append, List.filter_eq_self.mpr fun c hc => by rw [hbreak x hx c hc]; rfl]
  exact List.append_nil _

theorem visible_line (change : TreeChange) {c : Char} (hc : c ∈ change.line) :
    CQuote.Visible c ∨ c = '\t' := by
  rw [TreeChange.line, List.mem_append, List.mem_flatMap] at hc
  obtain hc | ⟨path, -, hc⟩ := hc
  · exact .inl (visible_status change c hc)
  · rw [List.mem_cons] at hc
    exact hc.symm.imp_left CQuote.visible_render

theorem mapM_parseNameStatus (changes : List TreeChange) :
    (linesOf (nameStatusOutput changes)).mapM (parseNameStatus git) =
      .ok (changes.map TreeChange.record) := by
  rw [nameStatusOutput, linesOf_flatMap fun change _ c hc => visible_line change hc, List.mapM_map]
  exact Outcome.mapM_eq_ok fun change _ => parseNameStatus_line change

theorem recovered_iff (change : TreeChange) :
    change.record.recovered = change.tracked ↔
      ∀ path ∈ change.paths, needsQuotes false path.bytes = false := by
  have hpath : ∀ path : RepoPath, encode (render false path.bytes) = path.bytes ↔
      needsQuotes false path.bytes = false := fun path => CQuote.encode_render_iff
  cases change <;>
    simp [NameStatus.recovered, TreeChange.record, TreeChange.tracked, TreeChange.oldPath,
      TreeChange.newPath, TreeChange.paths, hpath]

theorem render_ne_nil {spaces : Bool} (path : RepoPath) : render spaces path.bytes ≠ [] := by
  cases hquotes : needsQuotes spaces path.bytes with
  | true => rw [CQuote.render_of_quotes hquotes]; exact List.cons_ne_nil _ _
  | false =>
      rw [CQuote.render_of_plain hquotes]
      exact (normal_of_plain hquotes).ne_nil

theorem language_record (change : TreeChange) :
    change.record.language =
      change.selectedPath.bind fun path => selectedLanguage (render false path.bytes) := by
  cases change <;>
    simp [NameStatus.language, TreeChange.record, TreeChange.selectedPath, TreeChange.oldPath,
      TreeChange.newPath, orPath, Option.filter, render_ne_nil]

/-- A change is selected by its spelling as it should be unless it is one of a source whose path is
quoted. -/
theorem language_record_iff (change : TreeChange) :
    change.record.language = change.language ↔
      (change.language ≠ none →
        ∀ path ∈ change.selectedPath, needsQuotes false path.bytes = false) := by
  rw [language_record, TreeChange.language]
  cases change.selectedPath with
  | none => simp
  | some path =>
      cases hquotes : needsQuotes false path.bytes with
      | true =>
          simp only [Option.bind_some, selectedLanguage_of_quoted hquotes, Option.mem_some_iff,
            forall_eq', hquotes]
          rw [eq_comm]
          exact ⟨fun hnone hsome => absurd hnone hsome, fun h => by_contra fun hne => by cases h hne⟩
      | false => simp [CQuote.render_of_plain hquotes, hquotes]

/-! ### The worktree -/

/-- The paths of the lines of `git status --porcelain` as they are cut out, as byte strings. -/
def porcelainPaths (output : Text) : List Bytes := (linesOf output).map fun line => encode (line.drop 3)

theorem visible_worktreeLine (change : WorktreeChange) {c : Char} (hc : c ∈ change.line) :
    CQuote.Visible c ∨ c = '\t' := by
  have hstatus : ∀ status : WorktreeStatus, ∀ c ∈ status.text, CQuote.Visible c := by
    intro status
    refine CQuote.forall_visible ?_
    cases status <;> rfl
  rw [WorktreeChange.line, List.mem_append, List.mem_cons] at hc
  obtain hc | rfl | hc := hc
  · exact .inl (hstatus _ c hc)
  · exact .inl (by decide)
  · exact .inl (CQuote.visible_render hc)

theorem linesOf_porcelainOutput (worktree : List WorktreeChange) :
    linesOf (porcelainOutput worktree) = worktree.map WorktreeChange.line :=
  linesOf_flatMap fun change _ _ hc => visible_worktreeLine change hc

theorem line_parts (change : WorktreeChange) :
    change.line.take 2 = change.status.text ∧ change.line.drop 3 = render true change.path.bytes := by
  rw [WorktreeChange.line]
  cases change.status <;> exact ⟨rfl, rfl⟩

/-- A blank is in no path that is not quoted. -/
theorem not_arrow_of_plain {bytes : Bytes} (hplain : needsQuotes true bytes = false) :
    (spelled bytes).tails.any (" -> ".toList.isPrefixOf ·) = false := by
  refine Bool.eq_false_iff.mpr fun harrow => ?_
  obtain ⟨tail, htail, harrow⟩ := List.any_eq_true.mp harrow
  have hsuffix : tail <:+ spelled bytes := (List.mem_tails _ _).mp htail
  obtain ⟨rest, hrest⟩ := List.isPrefixOf_iff_prefix.mp harrow
  have hblank : ' ' ∈ spelled bytes := hsuffix.subset (hrest ▸ List.mem_cons_self)
  obtain ⟨b, hb, hchar⟩ := List.mem_map.mp hblank
  have hspace : ∀ b : UInt8, CQuote.byteChar b = ' ' → (b == 0x20) = true :=
    CQuote.forall_byte (by decide +kernel)
  have hnone := List.any_eq_false.mp hplain b hb
  exact hnone (by rw [hspace b hchar]; simp)

/-- What is expected of a run: paths of Markdown files as they are listed. -/
structure ExpectedPath (path : Text) : Prop where
  normal : Normal path
  markdown : ".md".toList <:+ path

theorem not_expected_of_quoted {bytes : Bytes} {normalized : Text}
    (hquotes : needsQuotes true bytes = true)
    (hok : validateRelativeRepoPath git (render true bytes) = .ok normalized) :
    ¬ ExpectedPath normalized := by
  rintro ⟨-, hmarkdown⟩
  obtain ⟨-, -, -, rfl⟩ := validate_eq_ok hok
  obtain ⟨front, hfront⟩ := PosixPath.suffix_asPosix (quoted_tail hquotes) (by decide) quote_ends
  obtain ⟨front', hfront'⟩ := hmarkdown
  have hends := congrArg List.getLast? (hfront.trans hfront'.symm)
  rw [List.getLast?_concat, List.getLast?_append_of_ne_nil _ (by decide)] at hends
  exact absurd hends (by decide)

theorem markdown_lower {path : Text} (hmarkdown : ".md".toList <:+ path) :
    ".md".toList.isSuffixOf (path.map Char.toLower) = true := by
  obtain ⟨front, rfl⟩ := hmarkdown
  rw [List.map_append]
  exact List.isSuffixOf_iff_suffix.mpr (List.suffix_append _ _)

theorem four_le_length_line (change : WorktreeChange) : 4 ≤ change.line.length := by
  have hstatus : change.status.text.length = 2 := by cases change.status <;> rfl
  have hnil : render true change.path.bytes ≠ [] := render_ne_nil change.path
  have hpath := List.length_pos_iff.mpr hnil
  rw [WorktreeChange.line, List.length_append, List.length_cons, hstatus]
  omega

theorem markdown_of_encode {text : Text} {raw : Bytes} (hencode : encode text = raw)
    (hmarkdown : encode ".md".toList <:+ raw) : ".md".toList <:+ text := by
  have hends : encode ".md".toList = [0x2e, 0x6d, 0x64] := by decide
  obtain ⟨front, hfront⟩ := hmarkdown
  rw [← hfront, hends] at hencode
  have hthree : encode text = (front ++ [0x2e, 0x6d]) ++ [0x64] := by simpa using hencode
  obtain ⟨withoutD, hd, htwo⟩ := CQuote.exists_of_encode_concat hthree (by decide)
  rw [show front ++ [0x2e, 0x6d] = (front ++ [0x2e]) ++ [0x6d] by simp] at htwo
  obtain ⟨withoutM, hm, hone⟩ := CQuote.exists_of_encode_concat htwo (by decide)
  obtain ⟨withoutDot, hdot, -⟩ := CQuote.exists_of_encode_concat hone (by decide)
  refine ⟨withoutDot, ?_⟩
  rw [hd, hm, hdot, List.append_assoc, List.append_assoc]
  rfl

theorem expectedPath_of_listed {checkout : Checkout} {tracked : List Bytes} {listed : List Text}
    (hlisted : trackedMarkdownPaths git checkout tracked = .ok listed) {path : Text}
    (hpath : path ∈ listed) : ExpectedPath path := by
  obtain ⟨found, hfound, hok⟩ := Outcome.bind_eq_ok hlisted
  obtain rfl := Except.ok.inj hok
  have hsome : some path ∈ found :=
    List.reduceOption_mem_iff.mp ((List.perm_insertionSort _ _).mem_iff.mp hpath)
  obtain ⟨raw, hraw, hok⟩ := Outcome.exists_of_mem_mapM hfound hsome
  rw [List.mem_filter] at hraw
  rw [listMarkdownPath] at hok
  cases hdecode : CQuote.decode raw with
  | none => rw [hdecode] at hok; cases hok
  | some text =>
      rw [hdecode] at hok
      obtain ⟨normalized, hvalid, hok⟩ := Outcome.bind_eq_ok hok
      have hsame : normalized = path := by
        split at hok
        · cases hok
        · split at hok
          · cases hok
          · have hresult := Except.ok.inj hok
            split at hresult
            · exact Option.some.inj hresult
            · cases hresult
      subst hsame
      have htail : ".md".toList <:+ replaceBackslashes text := by
        obtain ⟨front, rfl⟩ := markdown_of_encode (CQuote.encode_of_decode hdecode)
          (List.isSuffixOf_iff_suffix.mp hraw.2)
        rw [replaceBackslashes, List.map_append]
        exact List.suffix_append _ _
      have hend : ∃ c ∈ ".md".toList.getLast?, c ≠ '.' := ⟨'d', rfl, by decide⟩
      obtain ⟨init, last, hcomponents, -⟩ := PosixPath.components_tail htail (by decide) hend
      refine ⟨normal_of_validate hvalid (by rw [hcomponents]; simp), ?_⟩
      rw [(validate_eq_ok hvalid).2.2.2]
      exact PosixPath.suffix_asPosix htail (by decide) hend

/-- A line is accepted exactly if its path is not quoted, is expected, and has been edited. -/
theorem validateWorktreeLine_eq_ok_iff {expected : List Text}
    (hexpected : ∀ path ∈ expected, ExpectedPath path) (change : WorktreeChange) (normalized : Text) :
    validateWorktreeLine git expected change.line = .ok normalized ↔
      needsQuotes true change.path.bytes = false ∧ normalized = spelled change.path.bytes ∧
        normalized ∈ expected ∧ (change.status = .modified ∨ change.status = .typeChanged) := by
  obtain ⟨hstatus, hpath⟩ := line_parts change
  have hlong := four_le_length_line change
  simp only [validateWorktreeLine, if_neg (Nat.not_lt.mpr hlong), hstatus, hpath]
  cases hquotes : needsQuotes true change.path.bytes with
  | true =>
      refine iff_of_false (fun hok => ?_) (by simp)
      split at hok
      · cases hok
      · obtain ⟨path, hvalid, hok⟩ := Outcome.bind_eq_ok hok
        split at hok
        · cases hok
        · rename_i hmem
          have hmem : path ∈ expected := by simpa using hmem
          exact not_expected_of_quoted hquotes hvalid (hexpected path hmem)
  | false =>
      have hnormal := normal_of_plain hquotes
      rw [CQuote.render_of_plain hquotes, not_arrow_of_plain hquotes, Bool.false_or]
      by_cases huntracked : change.status = .untracked
      · rw [huntracked]
        exact iff_of_false (by simp [WorktreeStatus.text]) (by simp)
      · have htext : ¬ decide (change.status.text = "??".toList) = true := by
          revert huntracked
          cases change.status <;> decide
        rw [if_neg htext, hnormal.validate]
        show (if _ then _ else _) = Except.ok normalized ↔ _
        by_cases hmem : spelled change.path.bytes ∈ expected
        · have hdeleted : change.status.text.contains 'D' = true ↔
              ¬ (change.status = .modified ∨ change.status = .typeChanged) := by
            revert huntracked
            cases change.status <;> decide
          rw [if_neg (by simpa using hmem), markdown_lower (hexpected _ hmem).markdown, Bool.not_true,
            if_neg Bool.false_ne_true]
          by_cases hedited : change.status = .modified ∨ change.status = .typeChanged
          · rw [if_neg (fun h => hdeleted.mp h hedited), Except.ok.injEq]
            constructor
            · rintro rfl
              exact ⟨rfl, rfl, hmem, hedited⟩
            · exact fun h => h.2.1.symm
          · rw [if_pos (hdeleted.mpr hedited)]
            exact iff_of_false (by simp) (fun h => hedited h.2.2.2)
        · rw [if_pos (by simpa using hmem)]
          exact iff_of_false (by simp) fun h => hmem (h.2.1 ▸ h.2.2.1)

theorem mapM_validate {expected : List Text} (hexpected : ∀ path ∈ expected, ExpectedPath path) :
    expected.mapM (validateRelativeRepoPath git) = .ok expected := by
  have hself : ∀ path ∈ expected, validateRelativeRepoPath git path = .ok (id path) :=
    fun path hpath => (hexpected path hpath).normal.validate
  rw [Outcome.mapM_eq_ok hself, List.map_id]

/-- The paths of a worktree's changes if none of them is quoted. -/
def spelledPaths (worktree : List WorktreeChange) : List Text :=
  worktree.map fun change => spelled change.path.bytes

/-- A change that is accepted where certain paths are expected. -/
def AcceptedChange (expected : List Text) (change : WorktreeChange) : Prop :=
  needsQuotes true change.path.bytes = false ∧ spelled change.path.bytes ∈ expected ∧
    (change.status = .modified ∨ change.status = .typeChanged)

theorem mapM_validateWorktreeLine_iff {expected : List Text}
    (hexpected : ∀ path ∈ expected, ExpectedPath path) (worktree : List WorktreeChange)
    (actual : List Text) :
    (worktree.map WorktreeChange.line).mapM (validateWorktreeLine git expected) = .ok actual ↔
      (∀ change ∈ worktree, AcceptedChange expected change) ∧ actual = spelledPaths worktree := by
  rw [List.mapM_map]
  refine Outcome.mapM_eq_ok_iff fun change normalized => ?_
  rw [Function.comp_apply, validateWorktreeLine_eq_ok_iff hexpected]
  constructor
  · rintro ⟨hplain, rfl, hmem, hedited⟩
    exact ⟨⟨hplain, hmem, hedited⟩, rfl⟩
  · rintro ⟨⟨hplain, hmem, hedited⟩, rfl⟩
    exact ⟨hplain, rfl, hmem, hedited⟩

theorem validateMarkdownWorktreeChanges_iff {expected : List Text}
    (hexpected : ∀ path ∈ expected, ExpectedPath path) (worktree : List WorktreeChange) :
    (∃ actual, validateMarkdownWorktreeChanges git (porcelainOutput worktree) expected = .ok actual) ↔
      (∀ change ∈ worktree, AcceptedChange expected change) ∧
        ∀ path ∈ expected, path ∈ spelledPaths worktree := by
  rw [validateMarkdownWorktreeChanges, mapM_validate hexpected, linesOf_porcelainOutput]
  show (∃ actual, ((worktree.map WorktreeChange.line).mapM (validateWorktreeLine git expected) >>= _) =
    .ok actual) ↔ _
  have hmissing : ∀ actual : List Text,
      (expected.dedup.filter fun path => !actual.contains path) = [] ↔ ∀ path ∈ expected, path ∈ actual := by
    intro actual
    simp [List.filter_eq_nil_iff]
  constructor
  · rintro ⟨actual, hok⟩
    obtain ⟨found, hfound, hrest⟩ := Outcome.bind_eq_ok hok
    obtain ⟨hall, rfl⟩ := (mapM_validateWorktreeLine_iff hexpected worktree found).mp hfound
    dsimp only at hrest
    split at hrest
    · rename_i hnone
      exact ⟨hall, (hmissing _).mp hnone⟩
    · cases hrest
  · rintro ⟨hall, hexpectedFound⟩
    rw [(mapM_validateWorktreeLine_iff hexpected worktree _).mpr ⟨hall, rfl⟩]
    exact ⟨sortPaths (spelledPaths worktree), if_pos ((hmissing _).mpr hexpectedFound)⟩

/-- The files that have changed are those that were expected to. -/
def SamePaths (worktree : List WorktreeChange) (expected : List Text) : Prop :=
  ∀ bytes, bytes ∈ worktree.map (fun change => change.path.bytes) ↔ bytes ∈ expected.map encode

/-- A run's worktree is accepted exactly if the files that have changed are the expected ones. -/
def ValidatesExactly (git : Git) (worktree : List WorktreeChange) (expected : List Text) : Prop :=
  (∃ actual, validateMarkdownWorktreeChanges git (porcelainOutput worktree) expected = .ok actual) ↔
    SamePaths worktree expected

/-- The expected files have been written, so that they have changed if anything has become of them. -/
def Written (worktree : List WorktreeChange) (expected : List Text) : Prop :=
  ∀ change ∈ worktree, change.path.bytes ∈ expected.map encode → change.status = .modified

theorem validatesExactly_iff {expected : List Text} (hexpected : ∀ path ∈ expected, ExpectedPath path)
    {worktree : List WorktreeChange} (hwritten : Written worktree expected) :
    ValidatesExactly git worktree expected ↔
      (SamePaths worktree expected →
        ∀ change ∈ worktree, needsQuotes true change.path.bytes = false) := by
  rw [ValidatesExactly, validateMarkdownWorktreeChanges_iff hexpected]
  have hsame : ∀ (hplain : ∀ change ∈ worktree, needsQuotes true change.path.bytes = false),
      SamePaths worktree expected ↔ (∀ change ∈ worktree, spelled change.path.bytes ∈ expected) ∧
        ∀ path ∈ expected, path ∈ spelledPaths worktree := by
    intro hplain
    have hbytes : ∀ change ∈ worktree, encode (spelled change.path.bytes) = change.path.bytes :=
      fun change hchange => CQuote.encode_spelled (hplain change hchange)
    constructor
    · intro hsame
      refine ⟨fun change hchange => ?_, fun path hpath => ?_⟩
      · obtain ⟨path, hpath, hencode⟩ := List.mem_map.mp ((hsame _).mp (List.mem_map_of_mem hchange))
        rw [← hbytes change hchange, CQuote.encode_inj] at hencode
        exact hencode ▸ hpath
      · obtain ⟨change, hchange, hencode⟩ := List.mem_map.mp ((hsame _).mpr (List.mem_map_of_mem hpath))
        rw [← hbytes change hchange, CQuote.encode_inj] at hencode
        exact hencode ▸ List.mem_map_of_mem hchange
    · rintro ⟨hchanged, hfound⟩ bytes
      constructor
      · intro hmem
        obtain ⟨change, hchange, rfl⟩ := List.mem_map.mp hmem
        rw [← hbytes change hchange]
        exact List.mem_map_of_mem (hchanged change hchange)
      · intro hmem
        obtain ⟨path, hpath, rfl⟩ := List.mem_map.mp hmem
        obtain ⟨change, hchange, rfl⟩ := List.mem_map.mp (hfound path hpath)
        rw [hbytes change hchange]
        exact List.mem_map_of_mem hchange
  constructor
  · exact fun hexact hsets change hchange => ((hexact.mpr hsets).1 change hchange).1
  · intro hplain
    constructor
    · rintro ⟨hall, hfound⟩
      exact (hsame fun change hchange => (hall change hchange).1).mpr
        ⟨fun change hchange => (hall change hchange).2.1, hfound⟩
    · intro hsets
      obtain ⟨hchanged, hfound⟩ := (hsame (hplain hsets)).mp hsets
      exact ⟨fun change hchange => ⟨hplain hsets change hchange, hchanged change hchange,
        .inl (hwritten change hchange ((hsets _).mp (List.mem_map_of_mem hchange)))⟩, hfound⟩

/-! ### Spelling -/

/-- The paths of the changes are read back from the output of `git diff`. -/
def NameStatusRecovered (git : Git) (changes : List TreeChange) : Prop :=
  ∃ records, (linesOf (nameStatusOutput changes)).mapM (parseNameStatus git) = .ok records ∧
    records.map NameStatus.recovered = changes.map TreeChange.tracked

/-- No change of a source is skipped, and no other change is taken for one. -/
def SourcesSelected (git : Git) (changes : List TreeChange) : Prop :=
  ∃ records, (linesOf (nameStatusOutput changes)).mapM (parseNameStatus git) = .ok records ∧
    records.map NameStatus.language = changes.map TreeChange.language

/-- The paths of the changes are read back from the output of `git status`. -/
def PorcelainRecovered (worktree : List WorktreeChange) : Prop :=
  porcelainPaths (porcelainOutput worktree) = worktree.map fun change => change.path.bytes

theorem exists_records_iff {changes : List TreeChange} {P : List NameStatus → Prop} :
    (∃ records, (linesOf (nameStatusOutput changes)).mapM (parseNameStatus git) = .ok records ∧
      P records) ↔ P (changes.map TreeChange.record) := by
  rw [mapM_parseNameStatus]
  constructor
  · rintro ⟨records, hrecords, h⟩
    exact Except.ok.inj hrecords ▸ h
  · exact fun h => ⟨_, rfl, h⟩

theorem nameStatusRecovered_iff (git : Git) (changes : List TreeChange) :
    NameStatusRecovered git changes ↔
      ∀ change ∈ changes, ∀ path ∈ change.paths, needsQuotes false path.bytes = false := by
  rw [NameStatusRecovered, exists_records_iff, List.map_map, List.map_inj_left]
  exact forall₂_congr fun change _ => recovered_iff change

theorem sourcesSelected_iff (git : Git) (changes : List TreeChange) :
    SourcesSelected git changes ↔ ∀ change ∈ changes, change.language ≠ none →
      ∀ path ∈ change.selectedPath, needsQuotes false path.bytes = false := by
  rw [SourcesSelected, exists_records_iff, List.map_map, List.map_inj_left]
  exact forall₂_congr fun change _ => language_record_iff change

theorem porcelainRecovered_iff (worktree : List WorktreeChange) :
    PorcelainRecovered worktree ↔ ∀ change ∈ worktree, needsQuotes true change.path.bytes = false := by
  rw [PorcelainRecovered, porcelainPaths, linesOf_porcelainOutput, List.map_map, List.map_inj_left]
  refine forall₂_congr fun change _ => ?_
  rw [Function.comp_apply, (line_parts change).2]
  exact CQuote.encode_render_iff

/-- What is read of Git's output, where the expected documents are among those that are listed. -/
theorem spelling_iff (git : Git) (changes : List TreeChange) (worktree : List WorktreeChange)
    (expected : List Text) {checkout : Checkout} {tracked : List Bytes} {listed : List Text}
    (hlisted : trackedMarkdownPaths git checkout tracked = .ok listed)
    (hexpected : ∀ path ∈ expected, path ∈ listed) (hwritten : Written worktree expected) :
    (NameStatusRecovered git changes ↔
      ∀ change ∈ changes, ∀ path ∈ change.paths, needsQuotes false path.bytes = false) ∧
    (SourcesSelected git changes ↔ ∀ change ∈ changes, change.language ≠ none →
      ∀ path ∈ change.selectedPath, needsQuotes false path.bytes = false) ∧
    (PorcelainRecovered worktree ↔
      ∀ change ∈ worktree, needsQuotes true change.path.bytes = false) ∧
    (ValidatesExactly git worktree expected ↔
      (SamePaths worktree expected →
        ∀ change ∈ worktree, needsQuotes true change.path.bytes = false)) :=
  ⟨nameStatusRecovered_iff git changes, sourcesSelected_iff git changes,
    porcelainRecovered_iff worktree,
    validatesExactly_iff (fun path hpath => expectedPath_of_listed hlisted (hexpected path hpath)) hwritten⟩

section Accent

def asciiGit : Git where
  showFile _ _ := .ok (some [])
  repr text := text

def plainCheckout : Checkout where
  isWithin _ := true
  isSymlink _ := false
  isFile _ := true

def trackedPath (path : String) (clean : PosixPath.Clean (spelled (encode path.toList)))
    (inside : "..".toList ∉ (spelled (encode path.toList)).splitOn '/')
    (nul : 0 ∉ encode path.toList) : RepoPath :=
  ⟨encode path.toList, clean, inside, nul⟩

theorem trackedMarkdownPaths_single {path : Text} (hnormal : Normal path)
    (hmarkdown : (encode ".md".toList).isSuffixOf (encode path) = true) :
    trackedMarkdownPaths asciiGit plainCheckout [encode path] = .ok [path] := by
  have hlist : listMarkdownPath asciiGit plainCheckout (encode path) = .ok (some path) := by
    rw [listMarkdownPath, CQuote.decode_encode]
    show (validateRelativeRepoPath asciiGit path >>= _) = _
    rw [hnormal.validate]
    rfl
  rw [trackedMarkdownPaths, List.filter_singleton, hmarkdown]
  show ([encode path].mapM _ >>= _) = _
  rw [List.mapM_cons, hlist]
  rfl

def mainSource : RepoPath := trackedPath "src/main.py" (by decide) (by decide) (by decide)

def readmePath : RepoPath := trackedPath "docs/README.md" (by decide) (by decide) (by decide)

theorem normal_readmePath : Normal "docs/README.md".toList where
  clean := by decide
  inside := by decide
  backslash := by decide
  nul := by decide

theorem spelling_main :
    NameStatusRecovered asciiGit [.modified mainSource] ∧
      SourcesSelected asciiGit [.modified mainSource] ∧
      ValidatesExactly asciiGit [⟨.modified, readmePath⟩] ["docs/README.md".toList] := by
  have hwritten : Written [⟨.modified, readmePath⟩] ["docs/README.md".toList] := by
    intro change hchange _
    rw [List.mem_singleton] at hchange
    rw [hchange]
  obtain ⟨hnames, hsources, -, hvalidates⟩ := spelling_iff asciiGit [.modified mainSource]
    [⟨.modified, readmePath⟩] ["docs/README.md".toList]
    (trackedMarkdownPaths_single normal_readmePath (by decide)) (fun _ hpath => hpath) hwritten
  refine ⟨hnames.mpr ?_, hsources.mpr ?_, hvalidates.mpr fun _ => ?_⟩
  · decide
  · decide
  · decide

def accentedSource : RepoPath := trackedPath "src/café.py" (by decide) (by decide) (by decide)

def accentedDocument : RepoPath := trackedPath "docs/café.md" (by decide) (by decide) (by decide)

theorem normal_accentedDocument : Normal "docs/café.md".toList where
  clean := by decide
  inside := by decide
  backslash := by decide
  nul := by decide

/-- A changed source is skipped without a word, and a document that has been written, and is listed, is
refused. -/
theorem not_spelling_of_accent :
    discoverSourceDeltas asciiGit [] [] (nameStatusOutput [.modified accentedSource]) = .ok [] ∧
      ¬ NameStatusRecovered asciiGit [.modified accentedSource] ∧
      ¬ SourcesSelected asciiGit [.modified accentedSource] ∧
      trackedMarkdownPaths asciiGit plainCheckout [accentedDocument.bytes] =
        .ok ["docs/café.md".toList] ∧
      ¬ ValidatesExactly asciiGit [⟨.modified, accentedDocument⟩] ["docs/café.md".toList] := by
  have hlisted := trackedMarkdownPaths_single normal_accentedDocument (by decide)
  have hwritten : Written [⟨.modified, accentedDocument⟩] ["docs/café.md".toList] := by
    intro change hchange _
    rw [List.mem_singleton] at hchange
    rw [hchange]
  have hexpected : ∀ path ∈ ["docs/café.md".toList], ExpectedPath path := fun _ hpath =>
    expectedPath_of_listed hlisted hpath
  refine ⟨by decide +kernel, ?_, ?_, hlisted, ?_⟩
  · rw [nameStatusRecovered_iff]
    decide +kernel
  · rw [sourcesSelected_iff]
    decide +kernel
  · rw [validatesExactly_iff hexpected hwritten]
    intro hquoted
    have hsame : SamePaths [⟨.modified, accentedDocument⟩] ["docs/café.md".toList] := fun _ => Iff.rfl
    exact absurd (hquoted hsame _ List.mem_cons_self) (by decide)

end Accent

end CoreMesh.SelfHealingDocs
