import CoreMesh.Lib.FinalRegister
import CoreMesh.Lib.OrderedDict
import CoreMesh.Lib.Table
import CoreMesh.SqlEngine.Sandbox
import CoreMesh.Tracing.PromptRedactor

/-!
# The interaction log

`build_production_interaction`, the upsert of `PostgresInteractionLogSink` and the feedback flag, over
the rows of `production_interaction_logs`. A trace is published as pending when it starts and again with
the verdict, and the upsert guards the three arbitration columns against a pending write that comes
late. Seen from one trace these columns are a register whose final values are the terminal ones.

Unicode normalization, SHA-256 and what `re.compile` makes of the deployment's patterns are parameters.
-/

namespace CoreMesh.Tracing

open CoreMesh.SqlEngine

/-- What the standard library does with a prompt. -/
structure TextServices where
  chars : Regex.CharTable
  compile : String → Option PromptRedactor.Compiled
  nfkc : String → String
  sha256 : String → String

structure ProductionInteractionLog where
  traceId : String
  featureScope : String
  redactedPrompt : String
  promptFingerprint : String
  arbitrationScores : List (String × ℤ)
  minArbitrationScore : Option ℤ
  arbitrationStatus : String
  deriving DecidableEq

/-- The arguments of `build_production_interaction`. -/
structure Interaction where
  traceId : String
  featureScope : String
  prompt : String
  arbitrationScores : Option (List (String × ℤ))
  arbitrationStatus : String

/-- `" ".join(text.split())`. -/
def joinWords (text : String) : String :=
  " ".intercalate (((text.toList.splitOnP isSpace).filter (· ≠ [])).map String.ofList)

def minScore (scores : List (String × ℤ)) : Option ℤ := (scores.map Prod.snd).min?

def buildProductionInteraction (services : TextServices) (customPatterns : List String)
    (interaction : Interaction) : Except String ProductionInteractionLog :=
  let traceId := String.ofList (strip interaction.traceId.toList)
  let featureScope := String.ofList (strip interaction.featureScope.toList)
  let redactedPrompt := String.ofList
    (PromptRedactor.redact services.chars services.compile customPatterns interaction.prompt.toList)
  let normalized := joinWords (services.nfkc redactedPrompt)
  if traceId = "" ∨ featureScope = "" ∨ normalized = "" then
    .error "trace_id, feature_scope, and redacted prompt are required"
  else
    let scores := OrderedDict.insertAll Prod.fst [] (interaction.arbitrationScores.getD [])
    if scores.any (fun score => decide (score.2 < 1 ∨ score.2 > 5)) then
      .error "arbitration scores must be between 1 and 5"
    else
      .ok {
        traceId := traceId
        featureScope := featureScope
        redactedPrompt := redactedPrompt
        promptFingerprint := services.sha256 normalized
        arbitrationScores := scores
        minArbitrationScore := minScore scores
        arbitrationStatus := interaction.arbitrationStatus }

/-! ### The table -/

/-- A row of `production_interaction_logs`. -/
structure InteractionRow where
  traceId : String
  featureScope : String
  redactedPrompt : String
  promptFingerprint : String
  arbitrationScores : List (String × ℤ)
  minArbitrationScore : Option ℤ
  arbitrationStatus : Option String
  negativeFeedback : Bool
  createdAt : ℤ
  updatedAt : ℤ
  deriving DecidableEq

/-- A value for a `VARCHAR(n)` column, which loses surplus blanks but no other characters. -/
def varchar (n : ℕ) (text : String) : Option String :=
  if text.length ≤ n then some text
  else if (text.toList.drop n).all (· == ' ') then some (String.ofList (text.toList.take n))
  else none

/-- `BTRIM(text) <> ''`. -/
def nonblank (text : String) : Bool := text.toList.any (· != ' ')

/-- A text without the character that PostgreSQL cannot store. -/
def storable (text : String) : Bool := text.toList.all (·.toNat != 0)

/-- The row an insert proposes, unless a column or a constraint refuses it. -/
def proposedRow (record : ProductionInteractionLog) (now : ℤ) : Option InteractionRow := do
  let traceId ← varchar 64 record.traceId
  let featureScope ← varchar 64 record.featureScope
  let arbitrationStatus ← varchar 32 record.arbitrationStatus
  guard (nonblank featureScope ∧ nonblank record.redactedPrompt)
  guard (record.minArbitrationScore.all fun score => decide (1 ≤ score ∧ score ≤ 5))
  guard ([record.traceId, record.featureScope, record.redactedPrompt, record.arbitrationStatus].all
    storable)
  guard (record.arbitrationScores.all fun score => storable score.1)
  return {
    traceId := traceId
    featureScope := featureScope
    redactedPrompt := record.redactedPrompt
    promptFingerprint := record.promptFingerprint
    arbitrationScores := record.arbitrationScores
    minArbitrationScore := record.minArbitrationScore
    arbitrationStatus := some arbitrationStatus
    negativeFeedback := false
    createdAt := now
    updatedAt := now }

/-- The condition of the three `CASE` expressions. -/
def keepsArbitration (old excluded : InteractionRow) : Bool :=
  excluded.arbitrationStatus == some "pending" && old.arbitrationStatus.isSome &&
    old.arbitrationStatus != some "pending"

/-- `ON CONFLICT (trace_id) DO UPDATE`. -/
def onConflict (old excluded : InteractionRow) : InteractionRow :=
  { old with
    featureScope := excluded.featureScope
    redactedPrompt := excluded.redactedPrompt
    promptFingerprint := excluded.promptFingerprint
    arbitrationScores :=
      if keepsArbitration old excluded then old.arbitrationScores else excluded.arbitrationScores
    minArbitrationScore :=
      if keepsArbitration old excluded then old.minArbitrationScore else excluded.minArbitrationScore
    arbitrationStatus :=
      if keepsArbitration old excluded then old.arbitrationStatus else excluded.arbitrationStatus
    updatedAt := excluded.updatedAt }

/-- `record_interaction`; an error leaves the rows as they were. -/
def recordInteraction (rows : List InteractionRow) (record : ProductionInteractionLog) (now : ℤ) :
    Except String (List InteractionRow) :=
  match proposedRow record now with
  | none => .error "the row was refused"
  | some row => .ok (Table.upsert InteractionRow.traceId onConflict rows row)

def flagNegativeFeedback (rows : List InteractionRow) (traceId : String) (now : ℤ) :
    List InteractionRow :=
  Table.update rows (fun row => row.traceId == traceId) fun row =>
    { row with negativeFeedback := true, updatedAt := now }

/-! ### Publishing -/

section Publishing

variable (services : TextServices) (customPatterns : List String)

/-- `_publish_interaction_log`, which swallows every error. -/
def publishInteractionLog (rows : List InteractionRow) (interaction : Interaction) (now : ℤ) :
    List InteractionRow :=
  match buildProductionInteraction services customPatterns interaction with
  | .error _ => rows
  | .ok record =>
      match recordInteraction rows record now with
      | .error _ => rows
      | .ok rows => rows

inductive InteractionEvent where
  | publish (interaction : Interaction) (now : ℤ)
  | flagNegativeFeedback (traceId : String) (now : ℤ)

def step (rows : List InteractionRow) : InteractionEvent → List InteractionRow
  | .publish interaction now => publishInteractionLog services customPatterns rows interaction now
  | .flagNegativeFeedback traceId now => flagNegativeFeedback rows traceId now

/-- The rows after some events on a table that was empty. -/
def rowsAfter (es : List InteractionEvent) : List InteractionRow :=
  es.foldl (step services customPatterns) []

/-! ### The columns of arbitration -/

structure ArbitrationColumns where
  scores : List (String × ℤ)
  minScore : Option ℤ
  status : Option String

/-- A row that a pending write may no longer change. -/
def ArbitrationColumns.terminal (columns : ArbitrationColumns) : Bool :=
  columns.status.isSome && columns.status != some "pending"

def InteractionRow.arbitration (row : InteractionRow) : ArbitrationColumns where
  scores := row.arbitrationScores
  minScore := row.minArbitrationScore
  status := row.arbitrationStatus

theorem onConflict_traceId (old excluded : InteractionRow) :
    (onConflict old excluded).traceId = old.traceId := rfl

/-- The three guards together are a write to a register. -/
theorem onConflict_arbitration {old excluded : InteractionRow} {status : String}
    (hstatus : excluded.arbitrationStatus = some status) :
    (onConflict old excluded).arbitration =
      FinalRegister.write ArbitrationColumns.terminal (some old.arbitration) excluded.arbitration := by
  have hguard : keepsArbitration old excluded =
      (old.arbitration.terminal && !excluded.arbitration.terminal) := by
    unfold keepsArbitration ArbitrationColumns.terminal InteractionRow.arbitration
    rw [hstatus]
    cases hpending : some status == some "pending" with
    | true => simp [bne, hpending]
    | false => simp [bne, hpending]
  unfold FinalRegister.write onConflict InteractionRow.arbitration
  rw [hguard]
  unfold InteractionRow.arbitration
  split <;> simp_all

/-- What a row that is proposed has from its record, and what it starts with. -/
structure Proposes (record : ProductionInteractionLog) (row : InteractionRow) : Prop where
  scores : row.arbitrationScores = record.arbitrationScores
  minScore : row.minArbitrationScore = record.minArbitrationScore
  status : ∃ status, varchar 32 record.arbitrationStatus = some status ∧
    row.arbitrationStatus = some status

theorem proposes_of_proposedRow {record : ProductionInteractionLog} {row : InteractionRow} {now : ℤ}
    (hrow : proposedRow record now = some row) : Proposes record row := by
  unfold proposedRow at hrow
  obtain ⟨traceId, -, hrow⟩ := Option.bind_eq_some_iff.mp hrow
  obtain ⟨featureScope, -, hrow⟩ := Option.bind_eq_some_iff.mp hrow
  obtain ⟨arbitrationStatus, hvarchar, hrow⟩ := Option.bind_eq_some_iff.mp hrow
  obtain ⟨-, -, hrow⟩ := Option.bind_eq_some_iff.mp hrow
  obtain ⟨-, -, hrow⟩ := Option.bind_eq_some_iff.mp hrow
  obtain ⟨-, -, hrow⟩ := Option.bind_eq_some_iff.mp hrow
  obtain ⟨-, -, hrow⟩ := Option.bind_eq_some_iff.mp hrow
  obtain rfl := Option.some.inj hrow
  exact ⟨rfl, rfl, arbitrationStatus, hvarchar, rfl⟩

/-- A record that was built has the minimum of its scores. -/
theorem buildProductionInteraction_minScore {interaction : Interaction}
    {record : ProductionInteractionLog}
    (hbuild : buildProductionInteraction services customPatterns interaction = .ok record) :
    record.minArbitrationScore = minScore record.arbitrationScores := by
  unfold buildProductionInteraction at hbuild
  dsimp only at hbuild
  split_ifs at hbuild
  obtain rfl := Except.ok.inj hbuild
  rfl

/-- The row an event proposes. -/
def proposed : InteractionEvent → Option InteractionRow
  | .publish interaction now =>
      match buildProductionInteraction services customPatterns interaction with
      | .error _ => none
      | .ok record => proposedRow record now
  | .flagNegativeFeedback _ _ => none

theorem proposed_spec {e : InteractionEvent} {row : InteractionRow}
    (hrow : proposed services customPatterns e = some row) :
    row.minArbitrationScore = minScore row.arbitrationScores ∧
      ∃ status, row.arbitrationStatus = some status := by
  cases e with
  | publish interaction now =>
      unfold proposed at hrow
      dsimp only at hrow
      split at hrow
      · cases hrow
      · next record hbuild =>
          obtain ⟨hscores, hmin, status, -, hstatus⟩ := proposes_of_proposedRow hrow
          refine ⟨?_, status, hstatus⟩
          rw [hmin, hscores]
          exact buildProductionInteraction_minScore services customPatterns hbuild
  | flagNegativeFeedback traceId now => cases hrow

theorem step_publish (rows : List InteractionRow) (interaction : Interaction) (now : ℤ) :
    step services customPatterns rows (.publish interaction now) =
      match proposed services customPatterns (.publish interaction now) with
      | none => rows
      | some row => Table.upsert InteractionRow.traceId onConflict rows row := by
  unfold step publishInteractionLog proposed
  dsimp only
  cases buildProductionInteraction services customPatterns interaction with
  | error _ => rfl
  | ok record =>
      unfold recordInteraction
      dsimp only
      cases proposedRow record now with
      | none => rfl
      | some row => rfl

/-! ### One trace -/

/-- The upserts of a history on the row of one trace. -/
def upserts (traceId : String) (es : List InteractionEvent) : List InteractionRow :=
  (es.filterMap (proposed services customPatterns)).filter fun row => row.traceId == traceId

/-- The latest upsert of a trace that was not pending. -/
def latestTerminal (traceId : String) (es : List InteractionEvent) : Option InteractionRow :=
  ((upserts services customPatterns traceId es).filter fun row => row.arbitration.terminal).getLast?

abbrev rowOf (traceId : String) (rows : List InteractionRow) : Option InteractionRow :=
  Table.get? InteractionRow.traceId rows traceId

theorem rowsAfter_concat (es : List InteractionEvent) (e : InteractionEvent) :
    rowsAfter services customPatterns (es ++ [e]) =
      step services customPatterns (rowsAfter services customPatterns es) e := by
  unfold rowsAfter
  rw [List.foldl_append, List.foldl_cons, List.foldl_nil]

theorem rowOf_flag (rows : List InteractionRow) (traceId flagged : String) (now : ℤ) :
    rowOf traceId (flagNegativeFeedback rows flagged now) =
      if flagged = traceId then
        (rowOf traceId rows).map fun row => { row with negativeFeedback := true, updatedAt := now }
      else rowOf traceId rows := by
  unfold rowOf flagNegativeFeedback
  refine Table.get?_update ?_ rows traceId flagged
  exact fun _ => rfl

theorem rowOf_upsert (rows : List InteractionRow) (row : InteractionRow) (traceId : String) :
    rowOf traceId (Table.upsert InteractionRow.traceId onConflict rows row) =
      if row.traceId = traceId then
        some (((rowOf traceId rows).map fun old => onConflict old row).getD row)
      else rowOf traceId rows :=
  Table.get?_upsert onConflict_traceId rows row traceId

/-- The arbitration columns of a trace are a register, to which its upserts write. -/
theorem arbitration_rowsAfter (traceId : String) (es : List InteractionEvent) :
    (rowOf traceId (rowsAfter services customPatterns es)).map InteractionRow.arbitration =
      FinalRegister.writes ArbitrationColumns.terminal
        ((upserts services customPatterns traceId es).map InteractionRow.arbitration) := by
  induction es using List.reverseRecOn with
  | nil => rfl
  | append_singleton es e ih =>
      rw [rowsAfter_concat]
      unfold upserts at ih ⊢
      rw [List.filterMap_append]
      cases e with
      | flagNegativeFeedback flagged now =>
          have hnone : [InteractionEvent.flagNegativeFeedback flagged now].filterMap
              (proposed services customPatterns) = [] := rfl
          rw [hnone, List.append_nil, ← ih]
          unfold step
          dsimp only
          rw [rowOf_flag]
          split
          · rw [Option.map_map]
            rfl
          · rfl
      | publish interaction now =>
          rw [step_publish]
          cases hproposed : proposed services customPatterns (.publish interaction now) with
          | none => simpa [hproposed] using ih
          | some row =>
              obtain ⟨-, status, hstatus⟩ := proposed_spec services customPatterns hproposed
              have hone : [InteractionEvent.publish interaction now].filterMap
                  (proposed services customPatterns) = [row] := by simp [hproposed]
              rw [hone, List.filter_append, rowOf_upsert]
              by_cases htrace : row.traceId = traceId
              · have hmine : [row].filter (fun row => row.traceId == traceId) = [row] := by
                  simp [htrace]
                rw [if_pos htrace, hmine, List.map_append, List.map_singleton,
                  FinalRegister.writes_concat, ← ih]
                cases rowOf traceId (rowsAfter services customPatterns es) with
                | none => rfl
                | some old => exact congrArg some (onConflict_arbitration hstatus)
              · have hother : [row].filter (fun row => row.traceId == traceId) = [] := by
                  simp [htrace]
                rw [if_neg htrace, hother, List.append_nil]
                exact ih

theorem arbitration_of_latestTerminal {traceId : String} {es : List InteractionEvent}
    {last : InteractionRow} (hlast : latestTerminal services customPatterns traceId es = some last) :
    (rowOf traceId (rowsAfter services customPatterns es)).map InteractionRow.arbitration =
      some last.arbitration := by
  rw [arbitration_rowsAfter]
  apply FinalRegister.writes_of_final
  rw [List.filter_map, List.getLast?_map]
  exact congrArg (Option.map InteractionRow.arbitration) hlast

/-- A row that is flagged. -/
def Flagged (traceId : String) (rows : List InteractionRow) : Prop :=
  ∃ row, rowOf traceId rows = some row ∧ row.negativeFeedback = true

theorem flagged_flag {traceId : String} {rows : List InteractionRow} {row : InteractionRow}
    (hrow : rowOf traceId rows = some row) (now : ℤ) :
    Flagged traceId (flagNegativeFeedback rows traceId now) := by
  refine ⟨{ row with negativeFeedback := true, updatedAt := now }, ?_, rfl⟩
  rw [rowOf_flag, if_pos rfl, hrow, Option.map_some]

theorem flagged_step {traceId : String} {rows : List InteractionRow} (hflagged : Flagged traceId rows)
    (e : InteractionEvent) : Flagged traceId (step services customPatterns rows e) := by
  obtain ⟨row, hrow, hfeedback⟩ := hflagged
  cases e with
  | flagNegativeFeedback flagged now =>
      by_cases htrace : flagged = traceId
      · subst htrace
        exact flagged_flag hrow now
      · refine ⟨row, ?_, hfeedback⟩
        unfold step
        dsimp only
        rw [rowOf_flag, if_neg htrace]
        exact hrow
  | publish interaction now =>
      rw [step_publish]
      split
      · exact ⟨row, hrow, hfeedback⟩
      · next excluded _ =>
          by_cases htrace : excluded.traceId = traceId
          · refine ⟨onConflict row excluded, ?_, hfeedback⟩
            rw [rowOf_upsert, if_pos htrace, hrow, Option.map_some, Option.getD_some]
          · refine ⟨row, ?_, hfeedback⟩
            rw [rowOf_upsert, if_neg htrace]
            exact hrow

theorem flagged_foldl {traceId : String} {rows : List InteractionRow} (hflagged : Flagged traceId rows)
    (es : List InteractionEvent) :
    Flagged traceId (es.foldl (step services customPatterns) rows) := by
  induction es generalizing rows with
  | nil => exact hflagged
  | cons e es ih => exact ih (flagged_step services customPatterns hflagged e)

/-! ### All rows -/

theorem onConflict_minScore {old excluded : InteractionRow}
    (hold : old.minArbitrationScore = minScore old.arbitrationScores)
    (hexcluded : excluded.minArbitrationScore = minScore excluded.arbitrationScores) :
    (onConflict old excluded).minArbitrationScore = minScore (onConflict old excluded).arbitrationScores := by
  unfold onConflict
  dsimp only
  split
  · exact hold
  · exact hexcluded

theorem minScore_step {rows : List InteractionRow}
    (hrows : ∀ row ∈ rows, row.minArbitrationScore = minScore row.arbitrationScores)
    (e : InteractionEvent) : ∀ row ∈ step services customPatterns rows e,
      row.minArbitrationScore = minScore row.arbitrationScores := by
  intro row hrow
  cases e with
  | flagNegativeFeedback traceId now =>
      obtain ⟨old, hold, -, rfl⟩ | ⟨hold, -⟩ := Table.mem_update.mp hrow
      · exact hrows old hold
      · exact hrows row hold
  | publish interaction now =>
      rw [step_publish] at hrow
      split at hrow
      · exact hrows row hrow
      · next excluded hproposed =>
          have hexcluded := (proposed_spec services customPatterns hproposed).1
          obtain hold | rfl | ⟨old, hold, rfl⟩ := Table.mem_upsert hrow
          · exact hrows row hold
          · exact hexcluded
          · exact onConflict_minScore (hrows old hold) hexcluded

theorem minScore_rowsAfter (es : List InteractionEvent) :
    ∀ row ∈ rowsAfter services customPatterns es,
      row.minArbitrationScore = minScore row.arbitrationScores := by
  induction es using List.reverseRecOn with
  | nil => simp [rowsAfter]
  | append_singleton es e ih =>
      rw [rowsAfter_concat]
      exact minScore_step services customPatterns ih e

theorem minScore_eq_none_iff (scores : List (String × ℤ)) : minScore scores = none ↔ scores = [] := by
  unfold minScore
  rw [List.min?_eq_none_iff, List.map_eq_nil_iff]

/-- In every history the arbitration columns of a trace are those of its latest terminal upsert, once it
has one; a row that was flagged stays flagged; every row has the minimum of its scores; and histories
with the same terminal upserts agree, wherever the pending ones stand. -/
theorem interaction_log_upserts (es : List InteractionEvent) (traceId : String) :
    (∀ last, latestTerminal services customPatterns traceId es = some last →
      ∃ row, rowOf traceId (rowsAfter services customPatterns es) = some row ∧
        row.arbitrationScores = last.arbitrationScores ∧
        row.minArbitrationScore = last.minArbitrationScore ∧
        row.arbitrationStatus = last.arbitrationStatus) ∧
    (∀ before now after row, es = before ++ .flagNegativeFeedback traceId now :: after →
      rowOf traceId (rowsAfter services customPatterns before) = some row →
      Flagged traceId (rowsAfter services customPatterns es)) ∧
    (∀ row ∈ rowsAfter services customPatterns es,
      row.minArbitrationScore = minScore row.arbitrationScores ∧
      (row.minArbitrationScore = none ↔ row.arbitrationScores = [])) ∧
    ∀ es', latestTerminal services customPatterns traceId es ≠ none →
      (upserts services customPatterns traceId es').filter (fun row => row.arbitration.terminal) =
        (upserts services customPatterns traceId es).filter (fun row => row.arbitration.terminal) →
      (rowOf traceId (rowsAfter services customPatterns es')).map InteractionRow.arbitration =
        (rowOf traceId (rowsAfter services customPatterns es)).map InteractionRow.arbitration := by
  refine ⟨fun last hlast => ?_, fun before now after row hes hrow => ?_, fun row hrow => ?_,
    fun es' hterminal hsame => ?_⟩
  · have hcolumns := arbitration_of_latestTerminal services customPatterns hlast
    obtain ⟨row, hrow, harbitration⟩ := Option.map_eq_some_iff.mp hcolumns
    have hfields := ArbitrationColumns.mk.inj harbitration
    exact ⟨row, hrow, hfields.1, hfields.2.1, hfields.2.2⟩
  · rw [hes, rowsAfter, List.foldl_append, List.foldl_cons]
    apply flagged_foldl
    exact flagged_flag hrow now
  · have hmin := minScore_rowsAfter services customPatterns es row hrow
    refine ⟨hmin, ?_⟩
    rw [hmin]
    exact minScore_eq_none_iff row.arbitrationScores
  · obtain ⟨last, hlast⟩ := Option.ne_none_iff_exists'.mp hterminal
    have hlast' : latestTerminal services customPatterns traceId es' = some last := by
      unfold latestTerminal at hlast ⊢
      rw [hsame]
      exact hlast
    rw [arbitration_of_latestTerminal services customPatterns hlast,
      arbitration_of_latestTerminal services customPatterns hlast']

end Publishing

end CoreMesh.Tracing
