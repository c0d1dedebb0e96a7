import Mathlib.Data.List.DropRight
import CoreMesh.SelfHealingDocs.Gating

/-!
# Whether an unchanged body is recognised

A body is between framing: blanks and line breaks in front, a core, and blanks and line breaks behind. A
proposal loses its framing, and the blank lines of the section are put back, so that what stands on the line
of the core itself is lost; and its line breaks become those of the document.
-/

namespace CoreMesh.SelfHealingDocs

def isLineEnd (c : Char) : Bool := c == '\n' || c == '\r'

/-- Every carriage return has a line feed behind it, and every line feed a carriage return in front. -/
def breaksPaired : Bool → Text → Bool
  | afterReturn, [] => !afterReturn
  | afterReturn, c :: rest =>
      if afterReturn then c == '\n' && breaksPaired false rest
      else if c == '\r' then breaksPaired true rest
      else c != '\n' && breaksPaired false rest

/-- The line breaks in a text are those of its document. -/
def BreaksAre (newline text : Text) : Prop :=
  if newline = ['\n'] then '\r' ∉ text else breaksPaired false text = true

instance (newline text : Text) : Decidable (BreaksAre newline text) :=
  if hnewline : newline = ['\n'] then
    decidable_of_iff ('\r' ∉ text) (by rw [BreaksAre, if_pos hnewline])
  else
    decidable_of_iff (breaksPaired false text = true) (by rw [BreaksAre, if_neg hnewline])

/-- The first line of the core is not indented, nothing but whole lines is behind it, and its line breaks
are those of the document. -/
structure KeepsFrame (s : DocSection) : Prop where
  firstLine : (s.body.takeWhile isFraming).getLast?.any isBlank = false
  lastLine : s.body.getLast?.any isBlank = false
  breaks : BreaksAre s.newline (stripFraming s.body)

theorem isFraming_eq (c : Char) : isFraming c = (isBlank c || isLineEnd c) := by
  rw [isFraming, isLineEnd, Bool.or_assoc, Bool.or_comm (c == '\r')]

theorem isLineEnd_of_framing {c : Char} (hc : isFraming c = true) : isLineEnd c = !isBlank c := by
  rw [isFraming_eq, Bool.or_eq_true] at hc
  cases hblank : isBlank c with
  | true =>
      rw [isBlank, Bool.or_eq_true, beq_iff_eq, beq_iff_eq] at hblank
      obtain rfl | rfl := hblank <;> decide
  | false => simpa [hblank] using hc

/-! ### Line breaks -/

theorem withNewlines_of_lineFeed (text : Text) :
    withNewlines ['\n'] text = (joinBreaks text).map fun c => if c == '\r' then '\n' else c := by
  rw [withNewlines]
  simp

/-- A text with the line breaks of DOS. -/
theorem withNewlines_cons (c : Char) (rest : Text) :
    withNewlines ['\r', '\n'] (c :: rest) =
      if c == '\r' && rest.head? == some '\n' then withNewlines ['\r', '\n'] rest
      else (if isLineEnd c then ['\r', '\n'] else [c]) ++ withNewlines ['\r', '\n'] rest := by
  have hnewline : (['\r', '\n'] == ['\n']) = false := by decide
  rw [withNewlines, withNewlines, hnewline, joinBreaks]
  by_cases hjoined : (c == '\r' && rest.head? == some '\n') = true
  · simp [hjoined]
  · rw [if_neg hjoined, if_neg hjoined]
    by_cases hreturn : c = '\r'
    · subst hreturn
      simp [isLineEnd]
    · by_cases hfeed : c = '\n'
      · subst hfeed
        simp [isLineEnd]
      · simp [isLineEnd, hreturn, hfeed]

theorem breaksPaired_withNewlines (text : Text) :
    breaksPaired false (withNewlines ['\r', '\n'] text) = true := by
  induction text with
  | nil => decide
  | cons c rest ih =>
      rw [withNewlines_cons]
      split
      · exact ih
      · by_cases hend : isLineEnd c = true
        · rw [if_pos hend]
          simpa [breaksPaired] using ih
        · rw [if_neg hend]
          simp only [isLineEnd, Bool.or_eq_true, beq_iff_eq, not_or] at hend
          simpa [breaksPaired, hend.1, hend.2] using ih

/-- Paired line breaks stay; a line feed gets back the carriage return that has been read. -/
theorem withNewlines_of_paired (text : Text) :
    (breaksPaired false text = true → withNewlines ['\r', '\n'] text = text) ∧
      (breaksPaired true text = true → withNewlines ['\r', '\n'] text = '\r' :: text) := by
  induction text with
  | nil => exact ⟨fun _ => by decide, fun h => by cases h⟩
  | cons c rest ih =>
      constructor
      · intro hpaired
        rw [withNewlines_cons]
        by_cases hreturn : c = '\r'
        · subst hreturn
          have hrest : breaksPaired true rest = true := hpaired
          cases rest with
          | nil => cases hrest
          | cons d rest =>
              have hd : d = '\n' := by
                simp only [breaksPaired, if_true, Bool.and_eq_true, beq_iff_eq] at hrest
                exact hrest.1
              subst hd
              rw [if_pos (by simp)]
              exact ih.2 hrest
        · simp only [breaksPaired, beq_iff_eq, hreturn, if_false, Bool.and_eq_true, bne_iff_ne, ne_eq,
            Bool.false_eq_true] at hpaired
          have hend : isLineEnd c = false := by simp [isLineEnd, hreturn, hpaired.1]
          rw [if_neg (by simp [hreturn]), hend, ih.1 hpaired.2]
          rfl
      · intro hpaired
        simp only [breaksPaired, if_true, Bool.and_eq_true, beq_iff_eq] at hpaired
        obtain ⟨rfl, hrest⟩ := hpaired
        rw [withNewlines_cons, if_neg (by simp), ih.1 hrest]
        rfl

theorem joinBreaks_of_not_mem {text : Text} (hreturn : '\r' ∉ text) : joinBreaks text = text := by
  induction text with
  | nil => rfl
  | cons c rest ih =>
      have hc : c ≠ '\r' := fun heq => hreturn (heq ▸ List.mem_cons_self)
      rw [joinBreaks, if_neg (by simp [hc]), ih fun hin => hreturn (List.mem_cons_of_mem c hin)]

/-- A text is as it was exactly if its line breaks are those of the document. -/
theorem withNewlines_eq_self_iff {newline : Text} (hnewline : newline = ['\n'] ∨ newline = ['\r', '\n'])
    (text : Text) : withNewlines newline text = text ↔ BreaksAre newline text := by
  obtain rfl | rfl := hnewline
  · rw [BreaksAre, if_pos rfl, withNewlines_of_lineFeed]
    constructor
    · intro hsame hreturn
      rw [← hsame, List.mem_map] at hreturn
      obtain ⟨c, -, hc⟩ := hreturn
      split at hc
      · cases hc
      · rename_i hne
        exact hne (beq_iff_eq.mpr hc)
    · intro hreturn
      rw [joinBreaks_of_not_mem hreturn]
      refine (List.map_congr_left fun c hc => ?_).trans (List.map_id text)
      have hne : c ≠ '\r' := fun heq => hreturn (heq ▸ hc)
      exact if_neg (by simpa using hne)
  · rw [BreaksAre, if_neg (by decide)]
    constructor
    · intro hsame
      rw [← hsame]
      exact breaksPaired_withNewlines text
    · exact (withNewlines_of_paired text).1

/-! ### Framing -/

theorem joinBreaks_append {front behind : Text}
    (hseam : front.getLast? = some '\r' → behind.head? ≠ some '\n') :
    joinBreaks (front ++ behind) = joinBreaks front ++ joinBreaks behind := by
  induction front with
  | nil => rfl
  | cons c front ih =>
      cases front with
      | nil =>
          have hjoin : (c == '\r' && behind.head? == some '\n') = false := by
            by_contra hjoin
            simp only [Bool.not_eq_false, Bool.and_eq_true, beq_iff_eq] at hjoin
            exact hseam (congrArg some hjoin.1) hjoin.2
          rw [List.singleton_append, joinBreaks, hjoin]
          simp [joinBreaks]
      | cons d front =>
          rw [List.getLast?_cons_cons] at hseam
          rw [List.cons_append, joinBreaks, joinBreaks, ih hseam, List.cons_append, List.head?_cons,
            List.head?_cons]
          by_cases hjoin : (c == '\r' && some d == some '\n') = true
          · rw [if_pos hjoin, if_pos hjoin]
          · rw [if_neg hjoin, if_neg hjoin, List.cons_append]

theorem withNewlines_append (newline : Text) {front behind : Text}
    (hseam : front.getLast? = some '\r' → behind.head? ≠ some '\n') :
    withNewlines newline (front ++ behind) = withNewlines newline front ++ withNewlines newline behind := by
  rw [withNewlines, withNewlines, withNewlines, joinBreaks_append hseam]
  split <;> simp

theorem joinBreaks_subset (text : Text) : joinBreaks text ⊆ text := by
  induction text with
  | nil => exact List.Subset.refl []
  | cons c rest ih =>
      rw [joinBreaks]
      split
      · exact List.subset_cons_of_subset c ih
      · exact List.cons_subset_cons c ih

/-- Framing stays framing, whatever its line breaks become. -/
theorem isFraming_withNewlines {newline text : Text} (hnewline : ∀ c ∈ newline, isFraming c = true)
    (htext : ∀ c ∈ text, isFraming c = true) : ∀ c ∈ withNewlines newline text, isFraming c = true := by
  have hnormal : ∀ c ∈ (joinBreaks text).map fun c => if c == '\r' then '\n' else c,
      isFraming c = true := by
    intro c hc
    obtain ⟨d, hd, rfl⟩ := List.mem_map.mp hc
    split
    · decide
    · exact htext d (joinBreaks_subset text hd)
  intro c hc
  rw [withNewlines] at hc
  split at hc
  · exact hnormal c hc
  · obtain ⟨d, hd, hin⟩ := List.mem_flatMap.mp hc
    split at hin
    · exact hnewline c hin
    · rw [List.mem_singleton.mp hin]
      exact hnormal d hd

/-- What is neither a blank nor a line break stays where it is. -/
theorem withNewlines_cons_of_not_framing (newline : Text) {c : Char} (hc : isFraming c = false)
    (rest : Text) : withNewlines newline (c :: rest) = c :: withNewlines newline rest := by
  have hreturn : c ≠ '\r' := by
    rintro rfl
    exact absurd hc (by decide)
  have hfeed : c ≠ '\n' := by
    rintro rfl
    exact absurd hc (by decide)
  have hsingle : withNewlines newline [c] = [c] := by
    rw [withNewlines]
    split <;> simp [joinBreaks, hreturn, hfeed]
  have happend := @withNewlines_append newline [c] rest
    fun hlast => absurd (Option.some.inj hlast) hreturn
  rw [hsingle] at happend
  exact happend

/-- A text between framing. -/
structure Framing (front core behind : Text) : Prop where
  front : ∀ c ∈ front, isFraming c = true
  behind : ∀ c ∈ behind, isFraming c = true
  head : ∃ c rest, core = c :: rest ∧ isFraming c = false
  last : ∃ rest c, core = rest ++ [c] ∧ isFraming c = false

theorem Framing.strip {front core behind : Text} (hframing : Framing front core behind) :
    stripFraming (front ++ (core ++ behind)) = core := by
  obtain ⟨c, rest, rfl, hc⟩ := hframing.head
  rw [stripFraming, List.dropWhile_append_of_pos hframing.front, List.cons_append,
    List.dropWhile_cons_of_neg (by simp [hc]), ← List.cons_append]
  obtain ⟨rest', d, hlast, hd⟩ := hframing.last
  rw [List.rdropWhile, List.reverse_append, List.dropWhile_append_of_pos
    (by simpa using hframing.behind), hlast, List.reverse_concat,
    List.dropWhile_cons_of_neg (by simp [hd]), List.reverse_cons, List.reverse_reverse]

/-- A text that has a core is the core between framing. -/
theorem framing_of_ne_nil {text : Text} (hcore : stripFraming text ≠ []) :
    ∃ behind, text = text.takeWhile isFraming ++ (stripFraming text ++ behind) ∧
      Framing (text.takeWhile isFraming) (stripFraming text) behind := by
  refine ⟨(text.dropWhile isFraming).rtakeWhile isFraming, ?_, fun c hc => List.mem_takeWhile_imp hc,
    fun c hc => List.mem_rtakeWhile_imp hc, ?_, ?_⟩
  · rw [stripFraming, List.rdropWhile_append_rtakeWhile, List.takeWhile_append_dropWhile]
  · obtain ⟨c, rest, hcons⟩ := List.exists_cons_of_ne_nil hcore
    obtain ⟨behind, hbehind⟩ : stripFraming text <+: text.dropWhile isFraming :=
      List.rdropWhile_prefix _ _
    have hfirst := List.head?_dropWhile_not isFraming text
    rw [← hbehind, hcons, List.cons_append, List.head?_cons] at hfirst
    exact ⟨c, rest, hcons, hfirst⟩
  · have hlast := List.rdropWhile_last_not isFraming (text.dropWhile isFraming) hcore
    exact ⟨(stripFraming text).dropLast, (stripFraming text).getLast hcore,
      (List.dropLast_concat_getLast hcore).symm, Bool.eq_false_of_not_eq_true hlast⟩

/-! ### The blank lines of a section -/

theorem rdropWhile_append_cons {p : Char → Bool} {d : Char} (hd : p d = false) (front behind : Text) :
    (front ++ d :: behind).rdropWhile p = front ++ d :: behind.rdropWhile p := by
  induction behind using List.reverseRecOn with
  | nil => exact List.rdropWhile_concat_neg p front d (by simp [hd])
  | append_singleton behind c ih =>
      rw [← List.cons_append, ← List.append_assoc]
      by_cases hc : p c = true
      · rw [List.rdropWhile_concat_pos p _ c hc, List.rdropWhile_concat_pos p _ c hc, ih]
      · rw [List.rdropWhile_concat_neg p _ c hc, List.rdropWhile_concat_neg p _ c hc, List.append_assoc,
          List.cons_append]

/-- Of framing, the blank lines are all but the blanks behind its last line break. -/
theorem takeBlankLines_append {blanks front behind : Text} (hblanks : ∀ c ∈ blanks, isBlank c = true)
    (hfront : ∀ c ∈ front, isFraming c = true) (hbehind : behind.head?.any isFraming = false) :
    takeBlankLines blanks (front ++ behind) = (blanks ++ front).rdropWhile isBlank := by
  induction front generalizing blanks with
  | nil =>
      rw [List.nil_append, List.append_nil, List.rdropWhile_eq_nil_iff.mpr hblanks]
      cases behind with
      | nil => rfl
      | cons c behind =>
          have hc : isFraming c = false := hbehind
          rw [isFraming_eq, Bool.or_eq_false_iff, isLineEnd] at hc
          rw [takeBlankLines, hc.1, hc.2]
          rfl
  | cons d front ih =>
      obtain ⟨hd, hrest⟩ := List.forall_mem_cons.mp hfront
      rw [List.cons_append, takeBlankLines]
      cases hblank : isBlank d with
      | true =>
          have hmore : ∀ c ∈ blanks ++ [d], isBlank c = true := by
            intro c hc
            obtain hin | hin := List.mem_append.mp hc
            · exact hblanks c hin
            · exact List.mem_singleton.mp hin ▸ hblank
          rw [if_pos rfl, ih hmore hrest, List.append_assoc]
          rfl
      | false =>
          have hend : (d == '\n' || d == '\r') = true := by
            have hends := isLineEnd_of_framing hd
            rw [hblank] at hends
            exact hends
          rw [if_neg (by simp), if_pos hend, ih (fun c hc => absurd hc List.not_mem_nil) hrest,
            List.nil_append, rdropWhile_append_cons hblank]

theorem leadingBlankLines_append {front behind : Text} (hfront : ∀ c ∈ front, isFraming c = true)
    (hbehind : behind.head?.any isFraming = false) :
    leadingBlankLines (front ++ behind) = front.rdropWhile isBlank :=
  takeBlankLines_append (fun _ hin => absurd hin List.not_mem_nil) hfront hbehind

theorem isFraming_takeBlankLines {blanks text : Text} (hblanks : ∀ c ∈ blanks, isBlank c = true) :
    ∀ c ∈ takeBlankLines blanks text, isFraming c = true := by
  induction text generalizing blanks with
  | nil => exact fun c hc => absurd hc List.not_mem_nil
  | cons d text ih =>
      rw [takeBlankLines]
      split
      · rename_i hblank
        apply ih
        intro c hc
        obtain hin | hin := List.mem_append.mp hc
        · exact hblanks c hin
        · exact List.mem_singleton.mp hin ▸ hblank
      · split
        · rename_i hend
          intro c hc
          obtain hin | hin := List.mem_append.mp hc
          · rw [isFraming_eq, hblanks c hin, Bool.true_or]
          · obtain rfl | hin := List.mem_cons.mp hin
            · rw [isFraming_eq, isLineEnd, hend, Bool.or_true]
            · exact ih (fun c hc => absurd hc List.not_mem_nil) c hin
        · exact fun c hc => absurd hc List.not_mem_nil

theorem trailingBlankLines_cons (c : Char) (rest : Text) :
    trailingBlankLines (c :: rest) =
      if leadingBlankLines (c :: rest) = c :: rest then c :: rest else trailingBlankLines rest := by
  rw [trailingBlankLines, List.tails, List.find?_cons]
  by_cases hall : leadingBlankLines (c :: rest) = c :: rest
  · rw [if_pos hall, beq_iff_eq.mpr hall]
    rfl
  · rw [if_neg hall, beq_eq_false_iff_ne.mpr hall]
    rfl

theorem trailingBlankLines_of_framing {text : Text} (htext : ∀ c ∈ text, isFraming c = true) :
    trailingBlankLines text = if text.getLast?.any isBlank then [] else text := by
  induction text with
  | nil => rfl
  | cons c rest ih =>
      have hall : leadingBlankLines (c :: rest) = c :: rest ↔
          ((c :: rest).getLast?.any isBlank) = false := by
        have hlines := @leadingBlankLines_append _ [] htext rfl
        rw [List.append_nil] at hlines
        rw [hlines, List.rdropWhile_eq_self_iff, List.getLast?_eq_some_getLast (List.cons_ne_nil c rest)]
        simp
      rw [trailingBlankLines_cons]
      cases hlast : (c :: rest).getLast?.any isBlank with
      | false => rw [if_pos (hall.mpr hlast)]; rfl
      | true =>
          have hne : leadingBlankLines (c :: rest) ≠ c :: rest := by
            rw [ne_eq, hall, hlast]
            exact Bool.noConfusion
          rw [if_neg hne, ih fun d hd => htext d (List.mem_cons_of_mem c hd)]
          cases rest with
          | nil => rfl
          | cons d rest =>
              rw [List.getLast?_cons_cons] at hlast
              rw [hlast, if_pos rfl, if_pos rfl]

/-- Behind a core the blank lines are all of the framing, or nothing. -/
theorem trailingBlankLines_append {front behind : Text} {c : Char} (hc : isFraming c = false)
    (hbehind : ∀ d ∈ behind, isFraming d = true) :
    trailingBlankLines (front ++ c :: behind) = if behind.getLast?.any isBlank then [] else behind := by
  have hskip : ∀ text : Text, c ∈ text → leadingBlankLines text ≠ text := by
    intro text hin hall
    rw [← hall] at hin
    have hframing := isFraming_takeBlankLines (fun _ h => absurd h List.not_mem_nil) c hin
    rw [hc] at hframing
    cases hframing
  induction front with
  | nil =>
      rw [List.nil_append, trailingBlankLines_cons, if_neg (hskip _ List.mem_cons_self),
        trailingBlankLines_of_framing hbehind]
  | cons d front ih =>
      rw [List.cons_append, trailingBlankLines_cons, if_neg (hskip _ (by simp)), ih]

/-! ### Unchanged proposals -/

theorem isBlank_of_not_framing {c : Char} (hc : isFraming c = false) : isBlank c = false := by
  rw [isFraming_eq, Bool.or_eq_false_iff] at hc
  exact hc.1

theorem ne_lineEnd_of_not_framing {c : Char} (hc : isFraming c = false) : c ≠ '\r' ∧ c ≠ '\n' := by
  constructor
  · rintro rfl
    exact absurd hc (by decide)
  · rintro rfl
    exact absurd hc (by decide)

theorem forall_isFraming_of_strip {text : Text} (hcore : stripFraming text = []) :
    ∀ c ∈ text, isFraming c = true := by
  have hbehind := List.rdropWhile_eq_nil_iff.mp hcore
  intro c hc
  rw [← @List.takeWhile_append_dropWhile _ isFraming text, List.mem_append] at hc
  obtain hin | hin := hc
  · exact List.mem_takeWhile_imp hin
  · exact hbehind c hin

theorem Framing.withNewlines {newline front core behind : Text}
    (hnewline : ∀ c ∈ newline, isFraming c = true) (hframing : Framing front core behind) :
    Framing (withNewlines newline front) (withNewlines newline core) (withNewlines newline behind) := by
  obtain ⟨c, rest, hhead, hc⟩ := hframing.head
  obtain ⟨rest', d, hlast, hd⟩ := hframing.last
  refine ⟨isFraming_withNewlines hnewline hframing.front,
    isFraming_withNewlines hnewline hframing.behind, ?_, ?_⟩
  · exact ⟨c, SelfHealingDocs.withNewlines newline rest, by
      rw [hhead, withNewlines_cons_of_not_framing newline hc], hc⟩
  · refine ⟨SelfHealingDocs.withNewlines newline rest', d, ?_, hd⟩
    have hcut : rest'.getLast? = some '\r' → [d].head? ≠ some '\n' := by
      intro _ hfeed
      exact (ne_lineEnd_of_not_framing hd).2 (Option.some.inj hfeed)
    have hnil : SelfHealingDocs.withNewlines newline [] = [] := by
      rw [SelfHealingDocs.withNewlines]
      split <;> rfl
    rw [hlast, withNewlines_append newline hcut, withNewlines_cons_of_not_framing newline hd, hnil]

theorem Framing.withNewlines_append {front core behind : Text} (hframing : Framing front core behind)
    (newline : Text) : SelfHealingDocs.withNewlines newline (front ++ (core ++ behind)) =
      SelfHealingDocs.withNewlines newline front ++ (SelfHealingDocs.withNewlines newline core ++
        SelfHealingDocs.withNewlines newline behind) := by
  obtain ⟨c, rest, hhead, hc⟩ := hframing.head
  obtain ⟨rest', d, hlast, hd⟩ := hframing.last
  have hfront : front.getLast? = some '\r' → (core ++ behind).head? ≠ some '\n' := by
    intro _ hfeed
    rw [hhead] at hfeed
    exact (ne_lineEnd_of_not_framing hc).2 (Option.some.inj hfeed)
  have hbehind : core.getLast? = some '\r' → behind.head? ≠ some '\n' := by
    intro hreturn
    rw [hlast, List.getLast?_concat] at hreturn
    exact absurd (Option.some.inj hreturn) (ne_lineEnd_of_not_framing hd).1
  rw [SelfHealingDocs.withNewlines_append newline hfront,
    SelfHealingDocs.withNewlines_append newline hbehind]

/-- The blank lines of a body around another core are the body exactly if the body has nothing on the
lines of its core and the cores are the same. -/
theorem Framing.recompose_iff {front core behind front' core' behind' : Text}
    (hframing : Framing front core behind) (hframing' : Framing front' core' behind') :
    front.rdropWhile isBlank ++ core' ++ (if behind.getLast?.any isBlank then [] else behind) =
        front ++ (core ++ behind) ↔
      front.getLast?.any isBlank = false ∧ behind.getLast?.any isBlank = false ∧ core' = core := by
  obtain ⟨c, rest, hhead, hc⟩ := hframing'.head
  obtain ⟨rest', d, hlast, hd⟩ := hframing'.last
  have hparts : front.rdropWhile isBlank ++ front.rtakeWhile isBlank = front :=
    List.rdropWhile_append_rtakeWhile
  have hindent : front.rtakeWhile isBlank = [] ↔ front.getLast?.any isBlank = false := by
    rw [List.rtakeWhile_eq_nil_iff]
    cases front using List.reverseRecOn with
    | nil => simp
    | append_singleton front e => simp
  constructor
  · intro hsame
    have hrest : core' ++ (if behind.getLast?.any isBlank then [] else behind) =
        front.rtakeWhile isBlank ++ (core ++ behind) := by
      refine @List.append_cancel_left _ (front.rdropWhile isBlank) _ _ ?_
      rw [← List.append_assoc, hsame, ← List.append_assoc (front.rdropWhile isBlank), hparts]
    have hnone : front.rtakeWhile isBlank = [] := by
      cases hcase : front.rtakeWhile isBlank with
      | nil => rfl
      | cons e indent =>
          have hblank : isBlank e = true :=
            List.mem_rtakeWhile_imp (hcase ▸ List.mem_cons_self : e ∈ front.rtakeWhile isBlank)
          rw [hcase, hhead, List.cons_append, List.cons_append] at hrest
          rw [← (List.cons.inj hrest).1, isBlank_of_not_framing hc] at hblank
          cases hblank
    rw [hnone, List.nil_append] at hrest
    cases hbehind : behind.getLast?.any isBlank with
    | false =>
        rw [hbehind, if_neg Bool.noConfusion] at hrest
        exact ⟨hindent.mp hnone, rfl, List.append_cancel_right hrest⟩
    | true =>
        rw [hbehind, if_pos rfl, List.append_nil, hlast] at hrest
        have hends := congrArg List.getLast? hrest
        cases behind using List.reverseRecOn with
        | nil => cases hbehind
        | append_singleton behind e =>
            rw [← List.append_assoc, List.getLast?_concat, List.getLast?_concat] at hends
            rw [List.getLast?_concat] at hbehind
            have hblank : isBlank e = true := hbehind
            rw [← Option.some.inj hends, isBlank_of_not_framing hd] at hblank
            cases hblank
  · rintro ⟨hfront, hbehind, rfl⟩
    have hwhole : front.rdropWhile isBlank = front := by
      rwa [hindent.mpr hfront, List.append_nil] at hparts
    rw [hwhole, hbehind, if_neg Bool.noConfusion, List.append_assoc]

theorem normalizeReplacementBody_eq_ok {s : DocSection} {proposedBody body : Text} {maxChars : Nat}
    (haccepted : normalizeReplacementBody s proposedBody maxChars = .ok body) :
    stripFraming (withNewlines s.newline proposedBody) ≠ [] ∧
      body = leadingBlankLines s.body ++ stripFraming (withNewlines s.newline proposedBody) ++
        trailingBlankLines s.body := by
  rw [normalizeReplacementBody] at haccepted
  iterate 4
    split at haccepted
    · cases haccepted
  by_cases hcore : stripFraming (withNewlines s.newline proposedBody) = []
  · rw [if_pos (beq_iff_eq.mpr hcore)] at haccepted
    cases haccepted
  · rw [if_neg (by simpa using hcore)] at haccepted
    exact ⟨hcore, (Except.ok.inj haccepted).symm⟩

/-- A section's own body comes back exactly if it keeps its frame. -/
theorem eq_body_iff {s : DocSection} (hnewline : s.newline = ['\n'] ∨ s.newline = ['\r', '\n'])
    {maxChars : Nat} {body : Text} (haccepted : normalizeReplacementBody s s.body maxChars = .ok body) :
    body = s.body ↔ KeepsFrame s := by
  obtain ⟨hcore, rfl⟩ := normalizeReplacementBody_eq_ok haccepted
  have hframes : ∀ c ∈ s.newline, isFraming c = true := by
    apply List.all_eq_true.mp
    obtain h | h := hnewline <;> rw [h] <;> rfl
  have hown : stripFraming s.body ≠ [] := by
    intro hnone
    refine hcore (List.rdropWhile_eq_nil_iff.mpr fun c hc => ?_)
    exact isFraming_withNewlines hframes (forall_isFraming_of_strip hnone) c
      ((List.dropWhile_sublist _).subset hc)
  obtain ⟨behind, hbody, hframing⟩ := framing_of_ne_nil hown
  have hframing' := hframing.withNewlines hframes
  have hkept : stripFraming (withNewlines s.newline s.body) =
      withNewlines s.newline (stripFraming s.body) := by
    conv_lhs => rw [hbody]
    rw [hframing.withNewlines_append, hframing'.strip]
  have hleading : leadingBlankLines s.body = (s.body.takeWhile isFraming).rdropWhile isBlank := by
    obtain ⟨c, rest, hhead, hc⟩ := hframing.head
    conv_lhs => rw [hbody]
    refine leadingBlankLines_append hframing.front ?_
    rw [hhead]
    exact hc
  have htrailing : trailingBlankLines s.body = if behind.getLast?.any isBlank then [] else behind := by
    obtain ⟨rest, c, hlast, hc⟩ := hframing.last
    conv_lhs => rw [hbody, hlast, List.append_assoc rest, ← List.append_assoc]
    exact trailingBlankLines_append hc hframing.behind
  have hend : s.body.getLast?.any isBlank = behind.getLast?.any isBlank := by
    obtain ⟨rest, c, hlast, hc⟩ := hframing.last
    conv_lhs => rw [hbody, hlast]
    cases behind using List.reverseRecOn with
    | nil => simp [isBlank_of_not_framing hc]
    | append_singleton behind e =>
        rw [← List.append_assoc _ behind, ← List.append_assoc, List.getLast?_concat,
          List.getLast?_concat]
  have hsame := hframing.recompose_iff hframing'
  rw [← hbody, withNewlines_eq_self_iff hnewline] at hsame
  rw [hkept, hleading, htrailing, hsame, ← hend]
  exact ⟨fun ⟨hfirst, hlast, hbreaks⟩ => ⟨hfirst, hlast, hbreaks⟩,
    fun ⟨hfirst, hlast, hbreaks⟩ => ⟨hfirst, hlast, hbreaks⟩⟩

theorem newlineOf_cases (text : Text) : newlineOf text = ['\n'] ∨ newlineOf text = ['\r', '\n'] := by
  rw [newlineOf]
  split
  · exact .inr rfl
  · exact .inl rfl

theorem newline_of_mem {document : MarkdownDocument} {s : DocSection}
    (hs : s ∈ splitMarkdownDocument document) : s.newline = document.newline := by
  suffices hall : ∀ {stack : List Text} {offset ordinal : Nat} {blocks : List Block},
      s ∈ sectionsOf document stack offset ordinal blocks → s.newline = document.newline by
    rw [sectionsOf_blocksOf] at hs
    exact hall hs
  intro stack offset ordinal blocks hs
  induction blocks generalizing stack offset ordinal with
  | nil => cases hs
  | cons block blocks ih =>
      obtain rfl | hrest := List.mem_cons.mp hs
      · rfl
      · exact ih hrest

variable {K : Type}

/-- A proposal of the body as it is ends in a review item, and no replacement waits for it. -/
def LeftAlone (python : Python K) (config : HealingConfig K) (repairer : DocRepairProvider K)
    (s : DocSection) : Prop :=
  ∀ allSections changes assessment (loop : Loop K) proposal,
    repairer.propose loop.run.history changes s assessment (neighboringContext s allSections) =
        .ok proposal →
      proposal.replacementBody = s.body →
        ∃ loop', repairSection python config repairer allSections s changes assessment loop = .ok loop' ∧
          loop'.pending = loop.pending

theorem leftAlone_of_eq (python : Python K) {config : HealingConfig K} (repairer : DocRepairProvider K)
    {s : DocSection}
    (hsame : normalizeReplacementBody s s.body config.maxSectionChars = .ok s.body) :
    LeftAlone python config repairer s := by
  intro allSections changes assessment loop proposal hproposes hbody
  rw [repairSection, hproposes]
  simp only [Run.raises, Except.mapError, bind, Except.bind, hbody, hsame, if_true]
  exact ⟨_, rfl, rfl⟩

/-- A section's own body is recognised as unchanged, and left alone, exactly if it keeps its frame. -/
theorem unchanged_iff (python : Python K) (config : HealingConfig K) (repairer : DocRepairProvider K)
    {repo : Repository} {files : String → Text} {documents : List MarkdownDocument}
    (hdocuments : repo.documents files = .ok documents) {s : DocSection}
    (hs : s ∈ sectionsOfAll documents) {body : Text}
    (haccepted : normalizeReplacementBody s s.body config.maxSectionChars = .ok body) :
    (body = s.body ↔ KeepsFrame s) ∧ (KeepsFrame s → LeftAlone python config repairer s) := by
  obtain ⟨document, hdocument, hsection⟩ := List.mem_flatMap.mp hs
  obtain ⟨absolute, -, hread⟩ := exists_file_of_mem hdocuments hdocument
  have hnewline : s.newline = newlineOf (files absolute) := by
    rw [newline_of_mem hsection, hread]
  have hsame := eq_body_iff (hnewline ▸ newlineOf_cases _) haccepted
  refine ⟨hsame, fun hkeeps => leftAlone_of_eq python repairer ?_⟩
  rw [haccepted, hsame.mpr hkeeps]

def sizesSection : DocSection where
  sectionId := "README.md::Sizes::section-1"
  path := "README.md"
  heading := "Sizes".toList
  headingPath := ["Sizes".toList]
  level := 1
  body := "BATCH_SIZE is 4.\n".toList
  bodyStart := 8
  bodyEnd := 25
  newline := ['\n']
  ordinal := 1

theorem unchanged_iff_sizes :
    ("BATCH_SIZE is 4.\n".toList = sizesSection.body ↔ KeepsFrame sizesSection) ∧
      (KeepsFrame sizesSection → LeftAlone wholeNumbers (cappedConfig 2) eagerRepairer sizesSection) :=
  unchanged_iff wholeNumbers (cappedConfig 2) eagerRepairer
    (show constantRepository.documents manualOnly = .ok manuals by rfl)
    (show sizesSection ∈ sectionsOfAll manuals by decide) (by decide)

/-- A code block that a section begins with. -/
def indentedManual : Text := "# Usage\n    make build\n".toList

/-- The code block comes back as a paragraph, and is not recognised. -/
theorem indented_not_recognised :
    constantRepository.documents (fun _ => indentedManual) =
        .ok [⟨"README.md", indentedManual, ['\n']⟩] ∧
      ∃ s ∈ sectionsOfAll [⟨"README.md", indentedManual, ['\n']⟩],
        s.body = "    make build\n".toList ∧
          normalizeReplacementBody s s.body (cappedConfig 2).maxSectionChars =
            .ok "make build\n".toList :=
  ⟨rfl, _, List.mem_singleton_self _, by decide, by decide⟩

end CoreMesh.SelfHealingDocs
