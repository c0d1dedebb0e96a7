import Mathlib.Data.List.ProdSigma
import Mathlib.Data.Rat.Defs
import Mathlib.Tactic.FieldSimp
import Mathlib.Tactic.Linarith
import Mathlib.Tactic.NormNum
import Mathlib.Tactic.Ring
import CoreMesh.Lib.Grouping
import CoreMesh.Tracing.TraceRegistry

/-!
# The graph of a trace

`toTraceFlow` of the user interface: the nodes and edges that a stored artifact is drawn with. Nothing is
known of the spans of an artifact, so identifiers may repeat and parents may go round in a circle.
-/

namespace CoreMesh.Frontend

open ParentChain
open Tracing (SerializedSpan ForensicTraceArtifact DistinctIds)
open Tracing.Stored (Value attributeOf)

inductive TraceSeverity where
  | healthy
  | warning
  | failed
  | escalated
  deriving DecidableEq

/-- `String` of a severity. -/
def TraceSeverity.name : TraceSeverity → String
  | healthy => "healthy"
  | warning => "warning"
  | failed => "failed"
  | escalated => "escalated"

/-- What the language brings: times and numbers read from text, none where they are not numbers, and the
order of texts in a locale. -/
structure Runtime (F : Type) where
  /-- `new Date(text).getTime()`. -/
  getTime : String → Option ℤ
  localeCompare : String → String → Ordering
  /-- `Number(text)` of a text that is not blank, where it is finite. -/
  number : String → Option F
  ofInt : ℤ → F
  sixTenths : F

structure TraceFlowNode (F : Type) where
  id : String
  position : ℚ × ℚ
  label : String
  span : SerializedSpan F
  severity : TraceSeverity
  rootCause : Bool

structure Edge where
  id : String
  source : String
  target : String
  animated : Bool
  className : String
  deriving DecidableEq

structure TraceFlow (F : Type) where
  nodes : List (TraceFlowNode F)
  edges : List Edge

section Flow

variable {F : Type} [LT F] [DecidableLT F] (js : Runtime F)

/-! ### Severities -/

def numericAttribute (span : SerializedSpan F) (key : String) : Option F :=
  match attributeOf span.toSerializedSpan key with
  | .int value => some (js.ofInt value)
  | .float value => some value
  | .str value => js.number value
  | _ => none

/-- `String(value) === "manual_review"`, which is also so of a list of one such value. -/
def isManualReview : Value F → Bool
  | .str value => value == "manual_review"
  | .list [value] => isManualReview value
  | _ => false

/-- `text.includes(part)`. -/
def includes (text part : String) : Bool :=
  text.toList.tails.any fun rest => part.toList.isPrefixOf rest

def severityForSpan (span : SerializedSpan F) (diagnosis : Option (Tracing.Stored.RootCauseDiagnosis F)) :
    TraceSeverity :=
  let value := attributeOf span.toSerializedSpan
  if includes span.name "arbitration" &&
      ((value "coremesh.arbitration.failed").is true ||
        isManualReview (value "coremesh.arbitration.status")) then .escalated
  else if diagnosis.any (fun d => d.spanId == span.spanId) ||
      String.ofList (span.status.toList.map Char.toUpper) == "ERROR" then .failed
  else if (value "coremesh.degraded").is true ||
      (numericAttribute js span "coremesh.quality.confidence").any (· < js.sixTenths) then .warning
  else .healthy

/-! ### Layout -/

/-- The loop of `spanDepth`, over what `byID` has of the parents. -/
def spanDepth (spans : List (SerializedSpan F)) (span : SerializedSpan F) : ℕ :=
  (climb (Tracing.Stored.parents (spans.map SerializedSpan.toSerializedSpan))
    (spans.map fun other => other.spanId) [span.spanId] span.toSerializedSpan.parent).length

/-- `left` does not come after `right`. The difference of two times counts when it is a number other than
zero. -/
def startsBy (left right : SerializedSpan F) : Bool :=
  match js.getTime left.startTime, js.getTime right.startTime with
  | some l, some r => if l = r then js.localeCompare left.spanId right.spanId != .gt else l < r
  | _, _ => js.localeCompare left.spanId right.spanId != .gt

def byDepth (spans : List (SerializedSpan F)) : List (ℕ × List (SerializedSpan F)) :=
  (Grouping.groups (spanDepth spans) spans).mergeSort fun a b => a.1 ≤ b.1

/-- `name.replace(/^coremesh\./, "")`. -/
def labelOf (name : String) : String :=
  if "coremesh.".toList.isPrefixOf name.toList then String.ofList (name.toList.drop 9) else name

def nodeOf (diagnosis : Option (Tracing.Stored.RootCauseDiagnosis F)) (depth count : ℕ)
    (span : SerializedSpan F) (index : ℕ) : TraceFlowNode F where
  id := span.spanId
  position := (index * 290 - ((count : ℚ) - 1) * 290 / 2, depth * 170)
  label := labelOf span.name
  span := span
  severity := severityForSpan js span diagnosis
  rootCause := diagnosis.any fun d => d.spanId == span.spanId

/-- The nodes of one depth. -/
def layer (diagnosis : Option (Tracing.Stored.RootCauseDiagnosis F))
    (group : ℕ × List (SerializedSpan F)) : List (TraceFlowNode F) :=
  (group.2.mergeSort (startsBy js)).mapIdx fun index span =>
    nodeOf js diagnosis group.1 group.2.length span index

def nodesOf (artifact : ForensicTraceArtifact F) : List (TraceFlowNode F) :=
  (byDepth artifact.spans).flatMap (layer js artifact.diagnosis)

def edgeOf (diagnosis : Option (Tracing.Stored.RootCauseDiagnosis F)) (span : SerializedSpan F)
    (parent : String) : Edge :=
  let severity := severityForSpan js span diagnosis
  { id := parent ++ "-" ++ span.spanId
    source := parent
    target := span.spanId
    animated := severity = .failed || severity = .escalated
    className := "trace-edge trace-edge-" ++ severity.name }

def edgesOf (artifact : ForensicTraceArtifact F) : List Edge :=
  artifact.spans.filterMap fun span =>
    (span.toSerializedSpan.parent.filter fun parent =>
      (nodesOf js artifact).any fun node => node.id == parent).map (edgeOf js artifact.diagnosis span)

def toTraceFlow (artifact : ForensicTraceArtifact F) : TraceFlow F :=
  ⟨nodesOf js artifact, edgesOf js artifact⟩

/-! ### Nodes -/

theorem map_span_layer (diagnosis : Option (Tracing.Stored.RootCauseDiagnosis F))
    (group : ℕ × List (SerializedSpan F)) :
    (layer js diagnosis group).map TraceFlowNode.span = group.2.mergeSort (startsBy js) := by
  apply List.ext_getElem
  · simp [layer]
  · intro i _ _
    simp [layer, nodeOf]

omit [LT F] [DecidableLT F] in
theorem complete_byDepth (spans : List (SerializedSpan F)) :
    Grouping.Complete (spanDepth spans) (byDepth spans) spans := by
  have hperm := List.mergeSort_perm (Grouping.groups (spanDepth spans) spans) fun a b => a.1 ≤ b.1
  have hcomplete := Grouping.complete_groups (spanDepth spans) spans
  refine ⟨?_, fun g hg => hcomplete.members g (hperm.mem_iff.mp hg),
    fun g hg => hcomplete.nonempty g (hperm.mem_iff.mp hg), fun a ha => ?_⟩
  · exact (hperm.map Prod.fst).nodup_iff.mpr hcomplete.distinct
  · obtain ⟨g, hg, hkey⟩ := hcomplete.all a ha
    exact ⟨g, hperm.mem_iff.mpr hg, hkey⟩

theorem nodesOf_perm (artifact : ForensicTraceArtifact F) :
    ((nodesOf js artifact).map TraceFlowNode.span).Perm artifact.spans := by
  rw [nodesOf, List.map_flatMap]
  refine List.Perm.trans ?_ (complete_byDepth artifact.spans).perm
  apply List.Perm.flatMap_left
  intro group _
  rw [map_span_layer]
  exact List.mergeSort_perm _ _

/-- Each node is that of its span, at the depth of the span. -/
theorem node_cases {artifact : ForensicTraceArtifact F} {node : TraceFlowNode F}
    (hnode : node ∈ nodesOf js artifact) :
    ∃ count index, node = nodeOf js artifact.diagnosis (spanDepth artifact.spans node.span) count
      node.span index := by
  obtain ⟨group, hgroup, hlayer⟩ := List.mem_flatMap.mp hnode
  obtain ⟨index, hindex, rfl⟩ := List.mem_mapIdx.mp hlayer
  have hmem : (group.2.mergeSort (startsBy js))[index] ∈ group.2 :=
    List.mem_mergeSort.mp (List.getElem_mem hindex)
  have hdepth : ∀ span ∈ group.2, spanDepth artifact.spans span = group.1 := by
    intro span hspan
    rw [(complete_byDepth artifact.spans).members group hgroup] at hspan
    simpa using (List.mem_filter.mp hspan).2
  exact ⟨group.2.length, index, by rw [nodeOf, nodeOf, hdepth _ hmem]⟩

theorem position_layer_nodup (diagnosis : Option (Tracing.Stored.RootCauseDiagnosis F))
    (group : ℕ × List (SerializedSpan F)) :
    ((layer js diagnosis group).map TraceFlowNode.position).Nodup := by
  rw [List.nodup_iff_injective_getElem]
  intro i j heq
  simp only [layer, List.getElem_map, List.getElem_mapIdx, nodeOf, Prod.mk.injEq, and_true] at heq
  apply Fin.ext
  have hcast : ((i : ℕ) : ℚ) = ((j : ℕ) : ℚ) := by linarith
  exact_mod_cast hcast

theorem position_nodup (artifact : ForensicTraceArtifact F) :
    ((nodesOf js artifact).map TraceFlowNode.position).Nodup := by
  rw [nodesOf, List.map_flatMap, List.nodup_flatMap]
  refine ⟨fun group _ => position_layer_nodup js artifact.diagnosis group, ?_⟩
  have hdistinct := List.pairwise_map.mp (complete_byDepth artifact.spans).distinct
  refine hdistinct.imp fun {group group'} hne position hmem hmem' => ?_
  obtain ⟨node, hnode, rfl⟩ := List.mem_map.mp hmem
  obtain ⟨node', hnode', hsame⟩ := List.mem_map.mp hmem'
  obtain ⟨index, hindex, rfl⟩ := List.mem_mapIdx.mp hnode
  obtain ⟨index', hindex', rfl⟩ := List.mem_mapIdx.mp hnode'
  simp only [nodeOf, Prod.mk.injEq, mul_eq_mul_right_iff, Nat.cast_inj] at hsame
  rcases hsame.2 with heq | hzero
  · exact hne heq.symm
  · norm_num at hzero

/-! ### Edges -/

theorem any_node_iff (artifact : ForensicTraceArtifact F) (id : String) :
    ((nodesOf js artifact).any fun node => node.id == id) =
      artifact.spans.any fun span => span.spanId == id := by
  have hids : (nodesOf js artifact).map TraceFlowNode.id =
      ((nodesOf js artifact).map TraceFlowNode.span).map fun span => span.spanId := by
    rw [List.map_map]
    apply List.map_congr_left
    intro node hnode
    obtain ⟨count, index, heq⟩ := node_cases js hnode
    rw [heq]
    rfl
  have hperm := (nodesOf_perm js artifact).map fun span => span.spanId
  rw [← hids] at hperm
  rw [Bool.eq_iff_iff, List.any_eq_true, List.any_eq_true]
  simpa [List.mem_map] using hperm.mem_iff (a := id)

omit [LT F] [DecidableLT F] in
theorem collectedParent_eq (spans : List (SerializedSpan F)) (span : SerializedSpan F) :
    span.toSerializedSpan.parent.filter (· ∈ spans.map fun other => other.spanId) =
      Tracing.collectedParent spans span := by
  rw [Tracing.collectedParent, Tracing.Stored.SerializedSpan.parent, Option.filter_filter]
  congr 1
  funext parent
  rw [Bool.eq_iff_iff]
  simp [and_comm]

/-- An edge for every span whose parent was collected, in the order of the spans. -/
theorem edgesOf_eq (artifact : ForensicTraceArtifact F) :
    edgesOf js artifact = artifact.spans.filterMap fun span =>
      (Tracing.collectedParent artifact.spans span).map (edgeOf js artifact.diagnosis span) := by
  apply List.filterMap_congr
  intro span _
  rw [← collectedParent_eq]
  congr 2
  funext parent
  rw [any_node_iff, Bool.eq_iff_iff]
  simp

/-! ### Levels -/

omit [LT F] [DecidableLT F] in
theorem parents_filter {spans : List (SerializedSpan F)} (hdistinct : DistinctIds spans) (id : String) :
    (Tracing.Stored.parents (spans.map SerializedSpan.toSerializedSpan) id).filter
      (· ∈ spans.map fun other => other.spanId) = Tracing.parentOf spans id := by
  have hlast : (spans.map SerializedSpan.toSerializedSpan).reverse.find? (fun span => span.spanId == id) =
      (OrderedDict.get? (fun span : SerializedSpan F => span.spanId) spans id).map
        SerializedSpan.toSerializedSpan := by
    rw [← List.map_reverse, List.find?_map]
    congr 1
    rw [OrderedDict.get?]
    cases hget : spans.find? fun span => span.spanId == id with
    | none =>
        rw [List.find?_eq_none] at hget ⊢
        intro span hspan
        exact hget span (List.mem_reverse.mp hspan)
    | some span =>
        obtain ⟨hid, hspan⟩ : span.spanId = id ∧ span ∈ spans := OrderedDict.key_of_get? hget
        have hsame := OrderedDict.Distinct.last?_eq hdistinct hspan
        rw [OrderedDict.last?, OrderedDict.get?, hid] at hsame
        exact hsame
  rw [Tracing.Stored.parents, hlast, Tracing.parentOf]
  cases OrderedDict.get? (fun span : SerializedSpan F => span.spanId) spans id with
  | none => rfl
  | some span =>
      simp only [Option.map_some, Option.bind_some]
      exact collectedParent_eq spans span

omit [LT F] [DecidableLT F] in
/-- A span that is under no cycle is as deep as it has ancestors. -/
theorem spanDepth_eq {spans : List (SerializedSpan F)} (hdistinct : DistinctIds spans)
    {span : SerializedSpan F} (hspan : span ∈ spans)
    (hacyclic : ¬Cyclic (Tracing.parentOf spans) (some span.spanId)) :
    ∃ fuel above, chain (Tracing.parentOf spans) fuel (Tracing.collectedParent spans span) = some above ∧
      spanDepth spans span = above.length := by
  obtain ⟨ids, hids⟩ := chain_isSome_of_not_cyclic
    (fun i j hparent => (Tracing.mem_ids_of_parentOf hparent).1) hacyclic
  have hnodup := nodup_of_chain hids
  rw [chain, Tracing.parentOf_spanId hdistinct hspan] at hids
  obtain ⟨above, habove, rfl⟩ := Option.map_eq_some_iff.mp hids
  have hself : ∀ id ∈ above, id ∉ [span.spanId] := by
    intro id hid hsame
    rw [List.mem_singleton.mp hsame] at hid
    exact (List.nodup_cons.mp hnodup).1 hid
  refine ⟨_, above, habove, ?_⟩
  rw [← funext (parents_filter hdistinct), ← collectedParent_eq] at habove
  rw [spanDepth, climb_eq_of_chain habove hself]

omit [LT F] [DecidableLT F] in
theorem spanDepth_of_parent {spans : List (SerializedSpan F)} (hdistinct : DistinctIds spans)
    {span parent : SerializedSpan F} (hspan : span ∈ spans) (hparent : parent ∈ spans)
    (hlink : Tracing.collectedParent spans span = some parent.spanId)
    (hacyclic : ¬Cyclic (Tracing.parentOf spans) (some span.spanId)) :
    spanDepth spans span = spanDepth spans parent + 1 := by
  have hup : Tracing.parentOf spans span.spanId = some parent.spanId := by
    rw [Tracing.parentOf_spanId hdistinct hspan, hlink]
  have hacyclic' : ¬Cyclic (Tracing.parentOf spans) (some parent.spanId) := by
    intro hcyclic
    obtain ⟨id, hreach, hself⟩ := hcyclic
    refine hacyclic ⟨id, .up ?_, hself⟩
    rwa [hup]
  obtain ⟨fuel, above, hchain, hdepth⟩ := spanDepth_eq hdistinct hspan hacyclic
  obtain ⟨fuel', above', hchain', hdepth'⟩ := spanDepth_eq hdistinct hparent hacyclic'
  rw [hlink] at hchain
  cases fuel with
  | zero => cases hchain
  | succ fuel =>
      rw [chain, Tracing.parentOf_spanId hdistinct hparent] at hchain
      obtain ⟨rest, hrest, rfl⟩ := Option.map_eq_some_iff.mp hchain
      rw [hdepth, hdepth', chain_unique hrest hchain', List.length_cons]

omit [LT F] [DecidableLT F] in
theorem spanDepth_of_root {spans : List (SerializedSpan F)} {span : SerializedSpan F}
    (hroot : Tracing.collectedParent spans span = none) : spanDepth spans span = 0 := by
  have hchain : chain (fun id => (Tracing.Stored.parents (spans.map SerializedSpan.toSerializedSpan) id).filter
      (· ∈ spans.map fun other => other.spanId)) 0
      (span.toSerializedSpan.parent.filter (· ∈ spans.map fun other => other.spanId)) = some [] := by
    rw [collectedParent_eq, hroot]
    rfl
  rw [spanDepth, climb_eq_of_chain hchain (by simp), List.length_nil]

/-- How an artifact is drawn. -/
structure Layout (artifact : ForensicTraceArtifact F) (flow : TraceFlow F) : Prop where
  once : (flow.nodes.map TraceFlowNode.span).Perm artifact.spans
  ids : ∀ node ∈ flow.nodes, node.id = node.span.spanId
  apart : (flow.nodes.map TraceFlowNode.position).Nodup
  links : (flow.edges.map fun edge => (edge.source, edge.target)) =
    artifact.spans.filterMap fun span =>
      (Tracing.collectedParent artifact.spans span).map fun parent => (parent, span.spanId)
  joined : ∀ edge ∈ flow.edges, ∃ source ∈ flow.nodes, ∃ target ∈ flow.nodes,
    source.id = edge.source ∧ target.id = edge.target
  top : DistinctIds artifact.spans → ∀ node ∈ flow.nodes,
    Tracing.collectedParent artifact.spans node.span = none → node.position.2 = 0
  /-- Outside of cycles an edge goes down one level. -/
  levels : DistinctIds artifact.spans → ∀ node ∈ flow.nodes, ∀ parent ∈ flow.nodes,
    Tracing.collectedParent artifact.spans node.span = some parent.id →
    ¬Cyclic (Tracing.parentOf artifact.spans) (some node.id) →
    node.position.2 = parent.position.2 + 170

/-- Every artifact is drawn with one node for each span, no two in one place, and with one edge for each
span whose parent was collected, also where the parents of its spans go round in a circle. -/
theorem toTraceFlow_layout (artifact : ForensicTraceArtifact F) :
    Layout artifact (toTraceFlow js artifact) := by
  have hperm := nodesOf_perm js artifact
  have hid : ∀ node ∈ nodesOf js artifact, node.id = node.span.spanId := by
    intro node hnode
    obtain ⟨count, index, heq⟩ := node_cases js hnode
    rw [heq]
    rfl
  have hlevel : ∀ node ∈ nodesOf js artifact,
      node.span ∈ artifact.spans ∧ node.position.2 = spanDepth artifact.spans node.span * 170 := by
    intro node hnode
    obtain ⟨count, index, heq⟩ := node_cases js hnode
    exact ⟨hperm.mem_iff.mp (List.mem_map_of_mem hnode), by rw [heq]; rfl⟩
  have hnodeOf : ∀ span ∈ artifact.spans, ∃ node ∈ nodesOf js artifact, node.span = span :=
    fun span hspan => List.mem_map.mp (hperm.mem_iff.mpr hspan)
  refine ⟨hperm, hid, position_nodup js artifact, ?_, ?_, ?_, ?_⟩
  · change (edgesOf js artifact).map _ = _
    rw [edgesOf_eq, List.map_filterMap]
    apply List.filterMap_congr
    intro span _
    rw [Option.map_map]
    rfl
  · intro edge hedge
    change edge ∈ edgesOf js artifact at hedge
    rw [edgesOf_eq] at hedge
    obtain ⟨span, hspan, hlink⟩ := List.mem_filterMap.mp hedge
    obtain ⟨parent, hparent, rfl⟩ := Option.map_eq_some_iff.mp hlink
    obtain ⟨above, habove, rfl⟩ := List.mem_map.mp (Tracing.mem_ids_of_collectedParent hparent)
    obtain ⟨source, hsource, rfl⟩ := hnodeOf above habove
    obtain ⟨target, htarget, rfl⟩ := hnodeOf span hspan
    exact ⟨source, hsource, target, htarget, hid source hsource, hid target htarget⟩
  · intro _ node hnode hroot
    rw [(hlevel node hnode).2, spanDepth_of_root hroot, Nat.cast_zero, zero_mul]
  · intro hdistinct node hnode parent hparent hlink hacyclic
    obtain ⟨hspan, hposition⟩ := hlevel node hnode
    obtain ⟨habove, hposition'⟩ := hlevel parent hparent
    rw [hid parent hparent] at hlink
    rw [hid node hnode] at hacyclic
    rw [hposition, hposition', spanDepth_of_parent hdistinct hspan habove hlink hacyclic]
    push_cast
    ring

end Flow

end CoreMesh.Frontend
