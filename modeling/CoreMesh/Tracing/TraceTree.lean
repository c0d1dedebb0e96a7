import CoreMesh.Lib.OrderedDict
import CoreMesh.Lib.RoseTree
import CoreMesh.Tracing.StoredTraces

/-!
# The tree of a trace

`_build_tree`: one object for each span, put on the list of its parent's or on that of the roots as the spans
come. An object is named by the identifier that it is kept under, so a list of objects is one of identifiers,
and the tree is what is found from the roots when all spans have been linked.
-/

namespace CoreMesh.Tracing

open ParentChain RoseTree

/-- A collected span with everything that is stored of it. -/
structure SerializedSpan (F : Type) extends Stored.SerializedSpan F where
  traceId : String
  kind : String
  endTime : String
  durationMs : F
  events : List (List (String × Stored.Value F)) := []

/-- `model_dump` without the trace and the parent. -/
structure SpanDump (F : Type) where
  spanId : String
  name : String
  kind : String
  status : String
  startTime : String
  endTime : String
  durationMs : F
  attributes : List (String × Stored.Value F)
  events : List (List (String × Stored.Value F))

/-- An object with the identifiers of those on its list of children. -/
structure TreeNode (F : Type) where
  dump : SpanDump F
  children : List String

structure Building (F : Type) where
  nodes : List (TreeNode F)
  roots : List String

/-- A single root is returned as it is. -/
inductive TraceTree (F : Type) where
  | one (root : RoseTree (SpanDump F))
  | many (roots : List (RoseTree (SpanDump F)))

variable {F : Type}

def SerializedSpan.modelDump (span : SerializedSpan F) : SpanDump F where
  spanId := span.spanId
  name := span.name
  kind := span.kind
  status := span.status
  startTime := span.startTime
  endTime := span.endTime
  durationMs := span.durationMs
  attributes := span.attributes
  events := span.events

def TreeNode.spanId (node : TreeNode F) : String := node.dump.spanId

theorem TreeNode.spanId_mk (span : SerializedSpan F) (children : List String) :
    (⟨span.modelDump, children⟩ : TreeNode F).spanId = span.spanId := rfl

namespace Building

/-- A span whose parent is none, is empty or was not collected is a root. -/
def link (state : Building F) (span : SerializedSpan F) : Building F :=
  match span.parentSpanId.filter fun parent =>
      parent ≠ "" && state.nodes.any fun node => node.spanId == parent with
  | some parent =>
      { state with
        nodes := state.nodes.map fun node =>
          if node.spanId = parent then { node with children := node.children ++ [span.spanId] } else node }
  | none => { state with roots := state.roots ++ [span.spanId] }

def record (state : Building F) (spanId : String) : Option (SpanDump F × List String) :=
  (OrderedDict.get? TreeNode.spanId state.nodes spanId).map fun node => (node.dump, node.children)

end Building

def TraceTree.ofRoots : List (RoseTree (SpanDump F)) → TraceTree F
  | [root] => .one root
  | roots => .many roots

def linkAll (spans : List (SerializedSpan F)) : Building F :=
  spans.foldl Building.link
    ⟨OrderedDict.insertAll TreeNode.spanId [] (spans.map fun span => ⟨span.modelDump, []⟩), []⟩

/-- None if what hangs from a root is no tree, as a span may be above itself. -/
def buildTree (spans : List (SerializedSpan F)) : Option (TraceTree F) :=
  let built := linkAll spans
  (built.roots.mapM (unfold built.record built.nodes.length)).map .ofRoots

/-! ### The links of the spans -/

/-- The parent of a span, if it was collected. -/
def collectedParent (spans : List (SerializedSpan F)) (span : SerializedSpan F) : Option String :=
  span.parentSpanId.filter fun parent => parent ≠ "" && spans.any fun other => other.spanId == parent

def parentOf (spans : List (SerializedSpan F)) (spanId : String) : Option String :=
  (OrderedDict.get? (fun span : SerializedSpan F => span.spanId) spans spanId).bind (collectedParent spans)

/-- No two spans have one identifier. -/
abbrev DistinctIds (spans : List (SerializedSpan F)) : Prop :=
  OrderedDict.Distinct (fun span : SerializedSpan F => span.spanId) spans

/-- Every span once, and lists in the order of the spans. -/
structure Faithful (spans : List (SerializedSpan F)) (forest : List (RoseTree (SpanDump F))) : Prop where
  once : (flattenAll forest).Perm (spans.map SerializedSpan.modelDump)
  roots : forest.map label =
    (spans.filter fun span => collectedParent spans span = none).map SerializedSpan.modelDump
  children : ∀ tree ∈ subtreesAll forest, tree.children.map label =
    (spans.filter fun span => collectedParent spans span = some tree.label.spanId).map
      SerializedSpan.modelDump

theorem parentOf_spanId {spans : List (SerializedSpan F)} (hdistinct : DistinctIds spans)
    {span : SerializedSpan F} (hspan : span ∈ spans) :
    parentOf spans span.spanId = collectedParent spans span := by
  rw [parentOf, hdistinct.mem_iff.mp hspan, Option.bind_some]

theorem mem_ids_of_collectedParent {spans : List (SerializedSpan F)} {span : SerializedSpan F}
    {parent : String} (hparent : collectedParent spans span = some parent) :
    parent ∈ spans.map fun other => other.spanId := by
  have hfound := (Option.filter_eq_some_iff.mp hparent).2
  rw [Bool.and_eq_true] at hfound
  exact OrderedDict.any_key_iff.mp hfound.2

theorem mem_ids_of_parentOf {spans : List (SerializedSpan F)} {spanId parent : String}
    (hparent : parentOf spans spanId = some parent) :
    spanId ∈ (spans.map fun span => span.spanId) ∧ parent ∈ spans.map fun span => span.spanId := by
  obtain ⟨span, hget, hcollected⟩ := Option.bind_eq_some_iff.mp hparent
  obtain ⟨rfl, hspan⟩ := OrderedDict.key_of_get? hget
  exact ⟨List.mem_map_of_mem hspan, mem_ids_of_collectedParent hcollected⟩

/-- The spans with a given parent, by their identifiers. -/
theorem below_parentOf {spans : List (SerializedSpan F)} (hdistinct : DistinctIds spans)
    (above : Option String) :
    below (parentOf spans) (spans.map fun span => span.spanId) above =
      (spans.filter fun span => collectedParent spans span = above).map fun span => span.spanId := by
  rw [below, List.filter_map]
  refine congrArg _ (List.filter_congr fun span hspan => ?_)
  rw [Function.comp_apply, parentOf_spanId hdistinct hspan]

/-! ### Linking -/

/-- What has been linked when the first spans are. -/
def linked (spans done : List (SerializedSpan F)) : Building F where
  nodes := spans.map fun span =>
    ⟨span.modelDump, (done.filter fun child => collectedParent spans child = some span.spanId).map
      fun child => child.spanId⟩
  roots := (done.filter fun span => collectedParent spans span = none).map fun span => span.spanId

theorem link_linked (spans done : List (SerializedSpan F)) (span : SerializedSpan F) :
    (linked spans done).link span = linked spans (done ++ [span]) := by
  have hcollected : (span.parentSpanId.filter fun parent =>
      parent ≠ "" && (linked spans done).nodes.any fun node => node.spanId == parent) =
        collectedParent spans span := by
    rw [collectedParent, linked]
    simp only [List.any_map]
    rfl
  rw [Building.link, hcollected]
  cases hparent : collectedParent spans span with
  | none => simp [linked, List.filter_append, hparent]
  | some parent =>
      simp only [linked, List.map_map, List.filter_append, List.map_append]
      refine congrArg₂ Building.mk (List.map_congr_left fun other _ => ?_) ?_
      · rw [Function.comp_apply, TreeNode.spanId_mk]
        by_cases hsame : other.spanId = parent
        · rw [if_pos hsame, hsame]
          simp [hparent]
        · rw [if_neg hsame]
          simp [hparent, Ne.symm hsame]
      · simp [hparent]

theorem linkAll_eq {spans : List (SerializedSpan F)} (hdistinct : DistinctIds spans) :
    linkAll spans = linked spans spans := by
  have hrun : ∀ done rest, rest.foldl Building.link (linked spans done) = linked spans (done ++ rest) := by
    intro done rest
    induction rest generalizing done with
    | nil => rw [List.append_nil, List.foldl_nil]
    | cons span rest ih => rw [List.foldl_cons, link_linked, ih, List.append_assoc, List.singleton_append]
  have hnodes : OrderedDict.insertAll TreeNode.spanId []
      (spans.map fun span => ⟨span.modelDump, []⟩) = (linked spans []).nodes := by
    refine (OrderedDict.insertAll_of_distinct ?_).trans ?_
    · rw [OrderedDict.Distinct, List.map_map]
      exact hdistinct
    · rfl
  rw [linkAll, hnodes]
  exact hrun [] spans

/-! ### The tree -/

theorem record_linked {spans : List (SerializedSpan F)} (hdistinct : DistinctIds spans)
    {span : SerializedSpan F} (hspan : span ∈ spans) :
    (linked spans spans).record span.spanId = some (span.modelDump,
      below (parentOf spans) (spans.map fun other => other.spanId) (some span.spanId)) := by
  have hnodes : OrderedDict.Distinct TreeNode.spanId (linked spans spans).nodes := by
    rw [OrderedDict.Distinct, linked, List.map_map]
    exact hdistinct
  have hnode := hnodes.mem_iff.mp (List.mem_map_of_mem hspan)
  rw [below_parentOf hdistinct]
  exact congrArg (Option.map fun node : TreeNode F => (node.dump, node.children)) hnode

theorem isForest {spans : List (SerializedSpan F)} (hdistinct : DistinctIds spans)
    (hacyclic : Acyclic (parentOf spans)) :
    IsForest (parentOf spans) (spans.map fun span => span.spanId) where
  nodup := hdistinct
  acyclic := hacyclic
  parent_mem := fun _ _ hparent => mem_ids_of_parentOf hparent

/-- The dump of each identifier, if there is any span. -/
theorem exists_dump {spans : List (SerializedSpan F)} (hdistinct : DistinctIds spans) :
    spans = [] ∨ ∃ dump : String → SpanDump F, ∀ span ∈ spans, dump span.spanId = span.modelDump := by
  cases spans with
  | nil => exact .inl rfl
  | cons first rest =>
      refine .inr ⟨fun spanId => ((OrderedDict.get? (fun span : SerializedSpan F => span.spanId)
        (first :: rest) spanId).getD first).modelDump, fun span hspan => ?_⟩
      dsimp only
      rw [hdistinct.mem_iff.mp hspan, Option.getD_some]

/-- Nothing is lost or found twice, whatever the order of the spans. -/
theorem buildTree_faithful {spans : List (SerializedSpan F)} (hdistinct : DistinctIds spans)
    (hacyclic : Acyclic (parentOf spans)) :
    ∃ forest, buildTree spans = some (.ofRoots forest) ∧ Faithful spans forest := by
  obtain rfl | ⟨dump, hdump⟩ := exists_dump hdistinct
  · exact ⟨[], rfl, .refl _, rfl, fun tree htree => absurd htree List.not_mem_nil⟩
  have hnext : ∀ spanId ∈ spans.map fun span => span.spanId, (linked spans spans).record spanId =
      some (dump spanId, below (parentOf spans) (spans.map fun span => span.spanId) (some spanId)) := by
    intro spanId hin
    obtain ⟨span, hspan, rfl⟩ := List.mem_map.mp hin
    rw [record_linked hdistinct hspan, hdump span hspan]
  have hdumps : ∀ some' : List (SerializedSpan F), some' ⊆ spans →
      (some'.map fun span => span.spanId).map dump = some'.map SerializedSpan.modelDump := by
    intro some' hsubset
    rw [List.map_map]
    exact List.map_congr_left fun span hspan => hdump span (hsubset hspan)
  have hbelow : ∀ above, (below (parentOf spans) (spans.map fun span => span.spanId) above).map dump =
      (spans.filter fun span => collectedParent spans span = above).map SerializedSpan.modelDump := by
    intro above
    rw [below_parentOf hdistinct, hdumps _ (List.filter_subset_self _)]
  obtain ⟨forest, hforest, hroots, hlinked, hperm⟩ :=
    exists_unfold_roots (isForest hdistinct hacyclic) hnext
  refine ⟨forest, ?_, ?_, ?_, ?_⟩
  · have hroots' : (linked spans spans).roots =
        below (parentOf spans) (spans.map fun span => span.spanId) none :=
      (below_parentOf hdistinct none).symm
    have hcount : (linked spans spans).nodes.length = (spans.map fun span => span.spanId).length := by
      rw [linked, List.length_map, List.length_map]
    rw [buildTree, linkAll_eq hdistinct]
    rw [hroots', hcount, hforest]
    rfl
  · rw [hdumps spans (List.Subset.refl _)] at hperm
    exact hperm
  · rw [hroots, hbelow]
  · intro tree htree
    obtain ⟨spanId, hin, hlabel, hchildren⟩ := hlinked tree htree
    obtain ⟨span, hspan, rfl⟩ := List.mem_map.mp hin
    rw [hchildren, hbelow, hlabel, hdump span hspan]
    rfl

/-! ### Two orders -/

def reported (spanId : String) (parentSpanId : Option String) : SerializedSpan ℚ where
  spanId := spanId
  parentSpanId := parentSpanId
  name := "coremesh.agent.step"
  status := "OK"
  startTime := "2026-01-01T00:00:00+00:00"
  traceId := "7"
  kind := "INTERNAL"
  endTime := "2026-01-01T00:00:01+00:00"
  durationMs := 1000

/-- Ids in an order in which each comes behind its parent. -/
def reportedIds : List String := ["z", "a", "e", "b", "c", "d", "f"]

theorem acyclic_reported {spans : List (SerializedSpan ℚ)}
    (hspans : ∀ span ∈ spans, ∀ parent ∈ span.parentSpanId,
      reportedIds.idxOf parent < reportedIds.idxOf span.spanId) : Acyclic (parentOf spans) := by
  refine @acyclic_of_rank _ _ reportedIds.idxOf fun i j hparent => ?_
  obtain ⟨span, hget, hcollected⟩ := Option.bind_eq_some_iff.mp hparent
  obtain ⟨rfl, hspan⟩ := OrderedDict.key_of_get? hget
  exact hspans span hspan j (Option.filter_eq_some_iff.mp hcollected).1

/-- Two children of one root, a child of a child in front of both, and a root whose parent is not collected. -/
def reportedSpans : List (SerializedSpan ℚ) :=
  [reported "d" "c", reported "b" "a", reported "e" "z", reported "a" none, reported "f" "e", reported "c" "a"]

theorem buildTree_faithful_reported : ∃ forest,
    buildTree reportedSpans = some (.ofRoots forest) ∧ Faithful reportedSpans forest := by
  apply buildTree_faithful
  · show ["d", "b", "e", "a", "f", "c"].Nodup
    decide
  · exact acyclic_reported (by decide)

/-- A child in front of its parent or behind it gives one tree, which no reading gives both lists back for. -/
theorem order_not_given_back : ¬∃ flatten : TraceTree ℚ → List (SpanDump ℚ),
    ∀ spans : List (SerializedSpan ℚ), DistinctIds spans → Acyclic (parentOf spans) →
      ∀ tree, buildTree spans = some tree → flatten tree = spans.map SerializedSpan.modelDump := by
  intro hgiven
  obtain ⟨flatten, hflatten⟩ := hgiven
  have hfirst := hflatten [reported "b" "a", reported "a" none] (by decide) (acyclic_reported (by decide)) _ rfl
  have hsecond := hflatten [reported "a" none, reported "b" "a"] (by decide) (acyclic_reported (by decide)) _ rfl
  have hids := congrArg (List.map SpanDump.spanId) (hfirst.symm.trans hsecond)
  have hdiffer : ["b", "a"] ≠ ["a", "b"] := by decide
  exact hdiffer hids

end CoreMesh.Tracing
