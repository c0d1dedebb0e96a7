import Mathlib.Data.List.Sublists
import CoreMesh.Arbitration.Consensus

/-!
# What arbitration delivers

A text is delivered exactly if the fan-out is in time, two critics assessed their own dimension, and
either no critic found anything or the adjudicator let a text through. Whatever else happens, the
caller has the blocked response.
-/

namespace CoreMesh.Arbitration

open Outcome

variable {Value : Type}

/-! ### Confidence -/

theorem foldl_add_mem (assessments : List CriticAssessmentSchema) (start : ℚ) :
    start ≤ (assessments.map (·.confidenceCoefficient)).foldl (· + ·) start ∧
      (assessments.map (·.confidenceCoefficient)).foldl (· + ·) start ≤
        start + assessments.length := by
  induction assessments generalizing start with
  | nil => simp
  | cons assessment rest ih =>
      obtain ⟨hlow, hhigh⟩ := ih (start + assessment.confidenceCoefficient)
      have hge := assessment.confidence_ge
      have hle := assessment.confidence_le
      rw [List.map_cons, List.foldl_cons, List.length_cons]
      push_cast
      constructor <;> linarith

theorem combinedConfidence_mem (assessments : List CriticAssessmentSchema)
    (failures : List CriticFailure) :
    0 ≤ combinedConfidence assessments failures ∧ combinedConfidence assessments failures ≤ 1 := by
  cases assessments with
  | nil => simp [combinedConfidence]
  | cons assessment rest =>
      simp only [combinedConfidence, List.isEmpty_cons, Bool.false_eq_true, if_false]
      refine ⟨le_max_left _ _, max_le zero_le_one ?_⟩
      obtain ⟨-, hsum⟩ := foldl_add_mem (assessment :: rest) 0
      rw [zero_add] at hsum
      have hlength : (0 : ℚ) < ((assessment :: rest).length : ℚ) := by
        rw [List.length_cons]
        positivity
      have hmean := (div_le_one hlength).mpr hsum
      have hpenalty : (0 : ℚ) ≤ 15 / 100 * failures.length := by positivity
      have hone : ((1 : ℤ) : ℚ) = 1 := Int.cast_one
      rw [← hone]
      apply Rounding.toDecimals_le
      rw [hone]
      linarith

/-- A verdict whose confidence is one is built. -/
theorem validated_eq (python : Python Value) {verdict : ConsensusVerdict}
    (hconfidence : 0 ≤ verdict.confidenceCoefficient ∧ verdict.confidenceCoefficient ≤ 1) :
    ConsensusVerdict.validated python verdict = .ok verdict := if_pos hconfidence

/-! ### Critics -/

/-- A call of the operation gives the value, after calls that failed in a way that is worth another. -/
def Answers {α : Type} (operation : ℕ → Except Raised α) (attempts : ℤ) (value : α) : Prop :=
  ∃ call : ℕ, (call : ℤ) < max 1 attempts ∧ operation call = .ok value ∧
    ∀ earlier < call, ∃ raised, operation earlier = .error raised ∧ isTransientException raised = true

theorem withRetries_eq_ok_iff {α : Type} {operation : ℕ → Except Raised α} {attempts : ℤ} {value : α} :
    withRetries operation attempts = .ok value ↔ Answers operation attempts value := by
  unfold withRetries Answers
  rw [retry_eq_ok_iff]
  constructor
  · rintro ⟨call, -, hcall, hok, hearlier⟩
    exact ⟨call, by omega, hok, fun earlier hlt => hearlier earlier earlier.zero_le hlt⟩
  · rintro ⟨call, hcall, hok, hearlier⟩
    exact ⟨call, call.zero_le, by omega, hok, fun earlier _ hlt => hearlier earlier hlt⟩

namespace ConsensusArbitrator

variable (python : Python Value) (settings : Settings) (self : ConsensusArbitrator Value)

/-- The critic gives a valid assessment of its own dimension. -/
def Assessed (payload : ArbitrationPayload) (critic : Critic Value)
    (assessment : CriticAssessmentSchema) : Prop :=
  ∃ value, Answers (critic.assess payload) self.retryAttempts value ∧
    CriticAssessmentSchema.modelValidate python value = .ok assessment ∧
    assessment.evaluationDimension.name = critic.dimension.getD "unknown"

/-- Neither below the threshold nor flagged. -/
def Clean (assessment : CriticAssessmentSchema) : Prop :=
  self.scoreThreshold ≤ assessment.assignedScore ∧ assessment.flaggedAnomalies = []

variable {python self} {payload : ArbitrationPayload} {critic : Critic Value}

theorem runCritic_of_assessed {assessment : CriticAssessmentSchema}
    (hassessed : self.Assessed python payload critic assessment) :
    self.runCritic python payload critic = (some assessment, none) := by
  obtain ⟨value, hanswers, hvalid, hdimension⟩ := hassessed
  have hok := withRetries_eq_ok_iff.mpr hanswers
  simp [runCritic, hok, hvalid, hdimension, bind, Except.bind, pure, Except.pure]

variable (python self payload critic)

theorem runCritic_cases : (∃ assessment, self.Assessed python payload critic assessment) ∨
    ∃ failure, self.runCritic python payload critic = (none, some failure) := by
  by_cases hassessed : ∃ assessment, self.Assessed python payload critic assessment
  · exact .inl hassessed
  · right
    cases hok : withRetries (critic.assess payload) self.retryAttempts with
    | error raised =>
        simp only [runCritic, hok, bind, Except.bind]
        exact ⟨_, rfl⟩
    | ok value =>
        cases hvalid : CriticAssessmentSchema.modelValidate python value with
        | error raised =>
            simp only [runCritic, hok, hvalid, bind, Except.bind]
            exact ⟨_, rfl⟩
        | ok assessment =>
            have hdimension :
                assessment.evaluationDimension.name ≠ critic.dimension.getD "unknown" := fun heq =>
              hassessed ⟨assessment, value, withRetries_eq_ok_iff.mp hok, hvalid, heq⟩
            simp only [runCritic, hok, hvalid, bind, Except.bind, ne_eq, hdimension, not_false_eq_true,
              if_true, throw, throwThe, MonadExceptOf.throw]
            exact ⟨_, rfl⟩

variable {python self payload critic}

theorem runCritic_fst_eq_some_iff {assessment : CriticAssessmentSchema} :
    (self.runCritic python payload critic).1 = some assessment ↔
      self.Assessed python payload critic assessment := by
  constructor
  · intro hsome
    obtain ⟨assessment', hassessed⟩ | ⟨failure, hfailure⟩ := runCritic_cases python self payload critic
    · rw [runCritic_of_assessed hassessed] at hsome
      rwa [← Option.some.inj hsome]
    · rw [hfailure] at hsome
      cases hsome
  · exact fun hassessed => by rw [runCritic_of_assessed hassessed]

theorem runCritic_snd_eq_none_iff : (self.runCritic python payload critic).2 = none ↔
    ∃ assessment, self.Assessed python payload critic assessment := by
  constructor
  · intro hnone
    obtain hassessed | ⟨failure, hfailure⟩ := runCritic_cases python self payload critic
    · exact hassessed
    · rw [hfailure] at hnone
      cases hnone
  · rintro ⟨assessment, hassessed⟩
    rw [runCritic_of_assessed hassessed]

theorem mem_assessments {assessment : CriticAssessmentSchema} :
    assessment ∈ self.assessments python payload ↔
      ∃ critic ∈ self.critics, self.Assessed python payload critic assessment := by
  simp only [assessments, List.mem_filterMap, List.mem_map, exists_exists_and_eq_and,
    runCritic_fst_eq_some_iff]

theorem failures_eq_nil_iff : self.failures python payload = [] ↔
    ∀ critic ∈ self.critics, ∃ assessment, self.Assessed python payload critic assessment := by
  simp only [failures, List.filterMap_eq_nil_iff, List.forall_mem_map, runCritic_snd_eq_none_iff]

/-! ### Quorum and triggers -/

variable (python self payload)

/-- Two of the critics gave valid assessments. -/
def Quorum : Prop :=
  ∃ first second, [first, second].Sublist self.critics ∧
    (∃ assessment, self.Assessed python payload first assessment) ∧
    ∃ assessment, self.Assessed python payload second assessment

/-- No critic failed, and none has anything against the text. -/
def Unanimous : Prop :=
  ∀ critic ∈ self.critics, ∃ assessment, self.Assessed python payload critic assessment ∧
    self.Clean assessment

theorem quorum_iff : self.Quorum python payload ↔ 2 ≤ (self.assessments python payload).length := by
  unfold assessments Quorum
  rw [List.filterMap_map, List.length_filterMap_eq_countP, List.countP_eq_length_filter]
  have hgood (critic : Critic Value) :
      ((Prod.fst ∘ self.runCritic python payload) critic).isSome = true ↔
        ∃ assessment, self.Assessed python payload critic assessment := by
    rw [Option.isSome_iff_exists]
    exact exists_congr fun _ => runCritic_fst_eq_some_iff
  constructor
  · rintro ⟨first, second, hsub, hfirst, hsecond⟩
    have hkept := hsub.filter fun critic => ((Prod.fst ∘ self.runCritic python payload) critic).isSome
    rw [List.filter_cons, if_pos ((hgood first).mpr hfirst), List.filter_cons,
      if_pos ((hgood second).mpr hsecond)] at hkept
    exact hkept.length_le
  · intro hlength
    generalize hkept : self.critics.filter
      (fun critic => ((Prod.fst ∘ self.runCritic python payload) critic).isSome) = kept at hlength
    match kept, hlength with
    | first :: second :: rest, _ =>
        have hpair : [first, second].Sublist (first :: second :: rest) :=
          (((List.nil_sublist rest).cons_cons second).cons_cons first)
        have hmem (critic : Critic Value) (hin : critic ∈ first :: second :: rest) :
            ∃ assessment, self.Assessed python payload critic assessment := by
          rw [← hkept, List.mem_filter] at hin
          exact (hgood critic).mp hin.2
        refine ⟨first, second, ?_, hmem first (by simp), hmem second (by simp)⟩
        rw [← hkept] at hpair
        exact hpair.trans List.filter_sublist

theorem findTriggers_eq_nil_iff (assessments : List CriticAssessmentSchema) :
    self.findTriggers assessments = [] ↔ ∀ assessment ∈ assessments, self.Clean assessment := by
  unfold findTriggers Clean
  rw [List.flatMap_eq_nil_iff]
  refine forall₂_congr fun assessment _ => ?_
  rw [List.append_eq_nil_iff]
  refine and_congr ?_ ?_
  · by_cases hscore : assessment.assignedScore < self.scoreThreshold
    · simp [hscore]
    · simp [hscore, not_lt.mp hscore]
  · by_cases hflagged : assessment.flaggedAnomalies = [] <;> simp [hflagged]

theorem triggers_eq_nil_iff : self.triggers python payload = [] ↔ self.Unanimous python payload := by
  unfold triggers Unanimous
  rw [List.append_eq_nil_iff, List.map_eq_nil_iff, findTriggers_eq_nil_iff, failures_eq_nil_iff]
  constructor
  · rintro ⟨hclean, hassessed⟩ critic hcritic
    obtain ⟨assessment, hassessment⟩ := hassessed critic hcritic
    exact ⟨assessment, hassessment, hclean assessment (mem_assessments.mpr ⟨critic, hcritic, hassessment⟩)⟩
  · intro hall
    constructor
    · intro assessment hmem
      obtain ⟨critic, hcritic, hassessment⟩ := mem_assessments.mp hmem
      obtain ⟨assessment', hassessment', hclean⟩ := hall critic hcritic
      -- A critic has one assessment.
      have hsome := runCritic_fst_eq_some_iff.mpr hassessment
      rw [runCritic_fst_eq_some_iff.mpr hassessment'] at hsome
      rwa [← Option.some.inj hsome]
    · intro critic hcritic
      obtain ⟨assessment, hassessment, -⟩ := hall critic hcritic
      exact ⟨assessment, hassessment⟩

/-! ### The verdict -/

/-- The texts that may reach the caller. -/
inductive Delivers (finished : Bool) : String → Prop where
  | unanimous (htime : finished = true) (hquorum : self.Quorum python payload)
      (hclean : self.Unanimous python payload) : Delivers finished payload.outputText
  | released (htime : finished = true) (hquorum : self.Quorum python payload)
      (htriggered : ¬self.Unanimous python payload) (adjudication : AdjudicationSchema)
      (hadjudicated : Answers (self.adjudicator.adjudicate payload (self.assessments python payload)
        (self.failures python payload) (self.triggers python payload)) self.retryAttempts adjudication)
      (haction : adjudication.action = .releaseOriginal) : Delivers finished payload.outputText
  | remediated (htime : finished = true) (hquorum : self.Quorum python payload)
      (htriggered : ¬self.Unanimous python payload) (adjudication : AdjudicationSchema)
      (hadjudicated : Answers (self.adjudicator.adjudicate payload (self.assessments python payload)
        (self.failures python payload) (self.triggers python payload)) self.retryAttempts adjudication)
      (haction : adjudication.action = .remediate) (text : String)
      (htext : adjudication.remediatedOutput = some text) (hne : text ≠ "") : Delivers finished text

structure FailsClosed (finished : Bool) (verdict : ConsensusVerdict) : Prop where
  delivers : ∀ text, verdict.deliveryAllowed = true ∧ verdict.deliveredOutput = text ↔
    self.Delivers python payload finished text
  blocks : verdict.deliveryAllowed = false → verdict.deliveredOutput = blockedResponse
  confidence : 0 ≤ verdict.confidenceCoefficient ∧ verdict.confidenceCoefficient ≤ 1

/-- A blocked verdict, where nothing may be delivered. -/
theorem failsClosed_blocked {finished : Bool} (hnothing : ∀ text, ¬self.Delivers python payload finished text)
    (status : ConsensusStatus) (assessments : List CriticAssessmentSchema) (failures : List CriticFailure)
    (triggeredBy : List String) (adjudication : Option AdjudicationSchema) (fields : PayloadFields) :
    Ensures (fun _ => fields.outputText = "") (self.FailsClosed python payload finished)
      (ConsensusVerdict.blocked python status assessments failures triggeredBy adjudication) := by
  unfold ConsensusVerdict.blocked
  rw [validated_eq python (combinedConfidence_mem assessments failures), ensures_ok]
  exact
    { delivers := fun text =>
        ⟨fun h => absurd h.1 Bool.false_ne_true, fun h => absurd h (hnothing text)⟩
      blocks := fun _ => rfl
      confidence := combinedConfidence_mem assessments failures }

/-- A verdict that delivers the one text that may be delivered. -/
theorem failsClosed_released {finished : Bool} {verdict : ConsensusVerdict} {fields : PayloadFields}
    (hallowed : verdict.deliveryAllowed = true)
    (hconfidence : 0 ≤ verdict.confidenceCoefficient ∧ verdict.confidenceCoefficient ≤ 1)
    (honly : ∀ text, self.Delivers python payload finished text ↔ text = verdict.deliveredOutput) :
    Ensures (fun _ => fields.outputText = "") (self.FailsClosed python payload finished)
      (ConsensusVerdict.validated python verdict) := by
  rw [validated_eq python hconfidence, ensures_ok]
  exact
    { delivers := fun text =>
        ⟨fun h => (honly text).mpr h.2.symm, fun h => ⟨hallowed, ((honly text).mp h).symm⟩⟩
      blocks := fun h => absurd (h.symm.trans hallowed) Bool.false_ne_true
      confidence := hconfidence }

variable {python self payload}

theorem Delivers.finished {finished : Bool} {text : String}
    (hdelivers : self.Delivers python payload finished text) : finished = true := by
  cases hdelivers <;> assumption

theorem Delivers.quorum {finished : Bool} {text : String}
    (hdelivers : self.Delivers python payload finished text) : self.Quorum python payload := by
  cases hdelivers <;> assumption

/-- Where a critic failed or found something, what is delivered is up to the adjudicator. -/
theorem Delivers.adjudicated {finished : Bool} {text : String}
    (hdelivers : self.Delivers python payload finished text)
    (htriggered : ¬self.Unanimous python payload) :
    ∃ adjudication, self.adjudicated python payload = .ok adjudication ∧
      (adjudication.action = .releaseOriginal ∧ text = payload.outputText ∨
        adjudication.action = .remediate ∧ adjudication.remediatedOutput = some text ∧ text ≠ "") := by
  cases hdelivers with
  | unanimous _ _ hclean => exact absurd hclean htriggered
  | released _ _ _ adjudication hadjudicated haction =>
      exact ⟨adjudication, withRetries_eq_ok_iff.mpr hadjudicated, .inl ⟨haction, rfl⟩⟩
  | remediated _ _ _ adjudication hadjudicated haction text htext hne =>
      exact ⟨adjudication, withRetries_eq_ok_iff.mpr hadjudicated, .inr ⟨haction, htext, hne⟩⟩

theorem verdictFromAdjudication_failsClosed (hquorum : self.Quorum python payload)
    (htriggered : ¬self.Unanimous python payload) {adjudication : AdjudicationSchema}
    (hadjudicated : self.adjudicated python payload = .ok adjudication) (fields : PayloadFields) :
    Ensures (fun _ => fields.outputText = "") (self.FailsClosed python payload true)
      (verdictFromAdjudication python payload (self.assessments python payload)
        (self.failures python payload) (self.triggers python payload) adjudication) := by
  have hanswers := withRetries_eq_ok_iff.mp hadjudicated
  have hconfidence := And.intro adjudication.confidence_ge adjudication.confidence_le
  have honly {text : String} (hdelivers : self.Delivers python payload true text) :
      adjudication.action = .releaseOriginal ∧ text = payload.outputText ∨
        adjudication.action = .remediate ∧ adjudication.remediatedOutput = some text ∧ text ≠ "" := by
    obtain ⟨adjudication', hadjudicated', hways⟩ := hdelivers.adjudicated htriggered
    rw [hadjudicated] at hadjudicated'
    rwa [Except.ok.inj hadjudicated']
  unfold verdictFromAdjudication
  by_cases hrelease : adjudication.action = .releaseOriginal
  · rw [if_pos hrelease]
    refine self.failsClosed_released python payload rfl hconfidence fun text => ⟨fun hdelivers => ?_, ?_⟩
    · obtain ⟨-, htext⟩ | ⟨haction, -⟩ := honly hdelivers
      · exact htext
      · rw [hrelease] at haction
        cases haction
    · rintro rfl
      exact .released rfl hquorum htriggered adjudication hanswers hrelease
  rw [if_neg hrelease]
  by_cases hremediate : adjudication.action = .remediate ∧ adjudication.remediatedOutput.getD "" ≠ ""
  · rw [if_pos hremediate]
    refine self.failsClosed_released python payload rfl hconfidence fun text => ⟨fun hdelivers => ?_, ?_⟩
    · obtain ⟨haction, -⟩ | ⟨-, htext, -⟩ := honly hdelivers
      · exact absurd haction hrelease
      · simp only [htext, Option.getD_some]
    · rintro rfl
      obtain ⟨haction, hne⟩ := hremediate
      refine .remediated rfl hquorum htriggered adjudication hanswers haction _ ?_ hne
      cases houtput : adjudication.remediatedOutput with
      | none => rw [houtput] at hne; exact absurd rfl hne
      | some text => rfl
  · rw [if_neg hremediate]
    refine self.failsClosed_blocked python payload (fun text hdelivers => ?_) _ _ _ _ _ fields
    obtain ⟨haction, -⟩ | ⟨haction, htext, hne⟩ := honly hdelivers
    · exact hrelease haction
    · exact hremediate ⟨haction, by rw [htext]; exact hne⟩

variable (python self)

/-- The verdict on a payload that is valid. -/
theorem arbitrate_payload (finished : Bool) (payload : ArbitrationPayload) :
    Ensures (fun _ => payload.outputText = "") (self.FailsClosed python payload finished)
      (self.arbitrate python settings finished payload.toPayloadFields) := by
  unfold arbitrate ArbitrationPayload.modelValidate
  rw [dif_neg payload.outputText_ne]
  simp only [bind, Except.bind]
  cases finished with
  | false =>
      rw [Bool.not_false, if_pos rfl]
      exact self.failsClosed_blocked python payload
        (fun text hdelivers => Bool.false_ne_true hdelivers.finished) _ _ _ _ _ _
  | true =>
      rw [Bool.not_true, if_neg Bool.false_ne_true]
      by_cases hquorum : self.Quorum python payload
      · have hlength := (self.quorum_iff python payload).mp hquorum
        rw [if_neg (Nat.not_lt.mpr hlength)]
        by_cases hclean : self.Unanimous python payload
        · rw [(self.triggers_eq_nil_iff python payload).mpr hclean, List.isEmpty_nil, if_pos rfl]
          refine self.failsClosed_released python payload rfl
            (combinedConfidence_mem _ _) fun text => ⟨fun hdelivers => ?_, ?_⟩
          · cases hdelivers with
            | unanimous => rfl
            | released _ _ htriggered => exact absurd hclean htriggered
            | remediated _ _ htriggered => exact absurd hclean htriggered
          · rintro rfl
            exact .unanimous rfl hquorum hclean
        · have htriggers := mt (self.triggers_eq_nil_iff python payload).mp hclean
          rw [if_neg (mt List.isEmpty_iff.mp htriggers)]
          cases hadjudicated : self.adjudicated python payload with
          | error raised =>
              refine self.failsClosed_blocked python payload (fun text hdelivers => ?_) _ _ _ _ _ _
              obtain ⟨adjudication, hok, -⟩ := hdelivers.adjudicated hclean
              rw [hadjudicated] at hok
              cases hok
          | ok adjudication =>
              exact verdictFromAdjudication_failsClosed hquorum hclean hadjudicated _
      · have hlength := mt (self.quorum_iff python payload).mpr hquorum
        rw [if_pos (Nat.not_le.mp hlength)]
        exact self.failsClosed_blocked python payload
          (fun text hdelivers => hquorum hdelivers.quorum) _ _ _ _ _ _

/-- Arbitration raises nothing but the rejection of an empty text, and its verdict fails closed. -/
theorem arbitrate_fails_closed (finished : Bool) (fields : PayloadFields) :
    Ensures (fun _ => fields.outputText = "")
      (fun verdict => ∃ payload : ArbitrationPayload, payload.toPayloadFields = fields ∧
        self.FailsClosed python payload finished verdict)
      (self.arbitrate python settings finished fields) := by
  by_cases hempty : fields.outputText = ""
  · unfold arbitrate ArbitrationPayload.modelValidate
    rw [dif_pos hempty]
    exact hempty
  · exact Ensures.mono (self.arbitrate_payload python settings finished ⟨fields, hempty⟩)
      (fun _ h => h) fun verdict hverdict => ⟨⟨fields, hempty⟩, rfl, hverdict⟩

end ConsensusArbitrator

end CoreMesh.Arbitration
