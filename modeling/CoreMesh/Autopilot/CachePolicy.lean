import CoreMesh.Autopilot.Router
import CoreMesh.Cache.Middleware
import CoreMesh.Cache.ParameterScope

/-!
# The cache policy of a routed request

The autopilot in front of the cache, which tells the cache by a header whether to leave a request
alone. The client may have set the same header.
-/

namespace CoreMesh.Autopilot

open CoreMesh.Http CoreMesh.Cache

attribute [local irreducible] applyDecisionHeaders classifyFields

/-- The policy header as the cache reads it. -/
def asksBypass (h : Header) : Bool :=
  equalFold (trimSpace (h.get "x-coremesh-cache-policy")) "bypass"

section Gateway

variable (sha : Sha256) (floats : Float64) (codec : JsonCodec) (cfg : Config)

/-- What the autopilot makes of the fields of a request, where it gets that far. -/
def classified (r : Http.Request codec.Text) : Option Classification :=
  if !cfg.enabled then none
  else
    match readRequest floats codec r with
    | .fields _ fields => some (classifyFields floats fields)
    | _ => none

/-- What the cache behind the autopilot does with a request; none if it does not get there. -/
def handling (lookup : ExperimentLookup) (cacheEnabled : Bool) (backends : Backends) (w : Header)
    (r : Http.Request codec.Text) : Option Handling :=
  (middleware sha floats codec cfg lookup w r).map fun next =>
    (Cache.middleware sha floats.toFloatCodec codec.toJsonReader cacheEnabled backends next.2).1

/-- The request has to reach the handler without a look at the cache. -/
def MustBypass (r : Http.Request codec.Text) : Prop :=
  asksBypass r.header = true ∨ (∃ c, classified floats codec cfg r = some c ∧ 3 ≤ c.score) ∨
    r.url.path = unifiedExecutionPath

/-- The client asks for a bypass of a request that the autopilot finds simple. -/
def Overridden (r : Http.Request codec.Text) : Prop :=
  asksBypass r.header = true ∧ ∃ c, classified floats codec cfg r = some c ∧ c.score < 3

/-- The cache would be looked up for the request, were it not for the policy. -/
def Cacheable (cacheEnabled : Bool) (backends : Backends) (r : Http.Request codec.Text) : Prop :=
  cacheEnabled = true ∧ r.url.path ≠ unifiedExecutionPath ∧
    Eligible floats.toFloatCodec (viewOf codec.toJsonReader r) ∧
    backends.embedded = true ∧ backends.indexed = true

end Gateway

section Routed

variable {sha : Sha256} {floats : Float64} {codec : JsonCodec} {cfg : Config}

theorem bypasses_eq (r : Http.Request codec.Text) :
    bypasses (viewOf codec.toJsonReader r) =
      (r.url.path == unifiedExecutionPath || asksBypass r.header) := rfl

theorem viewOf_of_body {r : Http.Request codec.Text} {text : codec.Text} {json : Json}
    (hbody : r.body = some ⟨text, false⟩) (hjson : codec.unmarshal text = some json) :
    (viewOf codec.toJsonReader r).body = some json := by
  simp [viewOf, hbody, hjson, codec.isBlank_unmarshal text json hjson]

/-- The fields of a request that the autopilot classifies, to the cache. -/
theorem fields_viewOf {r : Http.Request codec.Text} {text : codec.Text} {fields : List (String × Json)}
    (hread : Classifiable floats codec r text fields) :
    (viewOf codec.toJsonReader r).body.bind fieldsOf = some fields ∧
      (viewOf codec.toJsonReader r).fields = fields := by
  obtain ⟨json, hjson, hfields⟩ := Option.bind_eq_some_iff.mp hread.fields
  have hbody : (viewOf codec.toJsonReader r).body.bind fieldsOf = some fields := by
    rw [viewOf_of_body hread.body hjson]
    exact hfields
  exact ⟨hbody, by rw [Cache.Request.fields, hbody, Option.getD_some]⟩

/-- The request with a decision in its headers and a model in its body. -/
def rewritten (codec : JsonCodec) (r : Http.Request codec.Text) (fields : List (String × Json))
    (decision : Decision) : Http.Request codec.Text :=
  { restoreRequestBody codec.toJsonReader r (rewriteModel codec fields decision.model) with
    header := applyDecisionHeaders r.header decision }

theorem fields_rewritten {r : Http.Request codec.Text} {text : codec.Text}
    {fields : List (String × Json)} (hread : Classifiable floats codec r text fields)
    (decision : Decision) :
    (viewOf codec.toJsonReader (rewritten codec r fields decision)).body.bind fieldsOf =
        some (setModel fields decision.model) ∧
      (viewOf codec.toJsonReader (rewritten codec r fields decision)).fields =
        setModel fields decision.model := by
  obtain ⟨json, hjson, hfields⟩ := Option.bind_eq_some_iff.mp hread.fields
  have hbody : (viewOf codec.toJsonReader (rewritten codec r fields decision)).body.bind fieldsOf =
      some (setModel fields decision.model) := by
    rw [viewOf_of_body rfl (unmarshal_rewriteModel hread.fields decision.model)]
    exact fieldsOf_of_sorted (sorted_setModel (sorted_fieldsOf hfields) _)
  exact ⟨hbody, by rw [Cache.Request.fields, hbody, Option.getD_some]⟩

/-- The prompt and the system text are read from other fields than the model. -/
theorem extractPromptAndSystem_setModel (floats : FloatCodec) (fields : List (String × Json))
    (model : String) :
    extractPromptAndSystem floats (setModel fields model) = extractPromptAndSystem floats fields := by
  simp [extractPromptAndSystem, turnsOf, lookup_setModel]

theorem contentType_not_decision :
    ∀ name ∈ decisionHeaders, canonicalHeaderKey "Content-Type" ≠ canonicalHeaderKey name := by
  simp only [decisionHeaders, List.forall_mem_cons]
  decide +kernel

/-- The rewritten request is as eligible as the one the client sent. -/
theorem eligible_rewritten_iff {r : Http.Request codec.Text} {text : codec.Text}
    {fields : List (String × Json)} (hread : Classifiable floats codec r text fields)
    (decision : Decision) :
    Eligible floats.toFloatCodec (viewOf codec.toJsonReader (rewritten codec r fields decision)) ↔
      Eligible floats.toFloatCodec (viewOf codec.toJsonReader r) := by
  obtain ⟨hbody, hfields⟩ := fields_viewOf hread
  obtain ⟨hbody', hfields'⟩ := fields_rewritten hread decision
  have hmethod : (viewOf codec.toJsonReader (rewritten codec r fields decision)).method = r.method := rfl
  have hview : (viewOf codec.toJsonReader (rewritten codec r fields decision)).header =
      applyDecisionHeaders r.header decision := rfl
  have hheader := get_applyDecisionHeaders_of_ne r.header decision contentType_not_decision
  have hprompt : extractPromptAndSystem floats.toFloatCodec (setModel fields decision.model) =
      extractPromptAndSystem floats.toFloatCodec fields :=
    extractPromptAndSystem_setModel _ _ _
  constructor
  · intro heligible
    have htext := heligible.prompt
    rw [hfields', hprompt] at htext
    refine ⟨hread.method, hread.contentType, ?_, ?_⟩
    · rw [hbody, hfields]
    · rwa [hfields]
  · intro heligible
    have htext := heligible.prompt
    rw [hfields] at htext
    refine ⟨?_, ?_, ?_, ?_⟩
    · rw [hmethod]
      exact hread.method
    · rw [hview, hheader]
      exact hread.contentType
    · rw [hbody', hfields']
    · rwa [hfields', hprompt]

/-- The decision asks the cache for a bypass exactly if the request is complex. -/
theorem asksBypass_applyDecisionHeaders (sha : Sha256) (floats : Float64) (cfg : Config)
    (lookup : ExperimentLookup) (identity : String) (fields : List (String × Json))
    (headers : Header) :
    asksBypass (applyDecisionHeaders headers
      (decision sha cfg lookup identity (classifyFields floats fields))) =
        decide (3 ≤ (classifyFields floats fields).score) := by
  rw [asksBypass, get_cachePolicy_applyDecisionHeaders, decision_cachePolicy,
    classifyFields_cachePolicy]
  split
  · rename_i hcomplex
    rw [decide_eq_true hcomplex]
    decide
  · rename_i hsimple
    rw [decide_eq_false hsimple]
    decide

theorem bypasses_rewritten (sha : Sha256) (cfg : Config) (lookup : ExperimentLookup)
    (identity : String) (r : Http.Request codec.Text) (fields : List (String × Json)) :
    bypasses (viewOf codec.toJsonReader (rewritten codec r fields
      (decision sha cfg lookup identity (classifyFields floats fields)))) =
        (r.url.path == unifiedExecutionPath ||
          decide (3 ≤ (classifyFields floats fields).score)) := by
  rw [bypasses_eq, ← asksBypass_applyDecisionHeaders sha floats cfg lookup identity fields r.header]
  rfl

/-- The request that goes on to the cache. -/
theorem middleware_cases (sha : Sha256) (floats : Float64) (codec : JsonCodec) (cfg : Config)
    (lookup : ExperimentLookup) (w : Header) (r : Http.Request codec.Text) :
    (classified floats codec cfg r = none ∧
      ∀ next, middleware sha floats codec cfg lookup w r = some next →
        next.2.url = r.url ∧ next.2.header = r.header) ∨
    ∃ text fields, Classifiable floats codec r text fields ∧
      classified floats codec cfg r = some (classifyFields floats fields) ∧
      ∃ w' next, middleware sha floats codec cfg lookup w r = some (w', next) ∧
        next.url = r.url ∧
        asksBypass next.header = decide (3 ≤ (classifyFields floats fields).score) ∧
        (r.url.path ≠ unifiedExecutionPath → ∃ decision, next = rewritten codec r fields decision) := by
  unfold classified middleware
  cases henabled : cfg.enabled with
  | false =>
      refine .inl ⟨rfl, ?_⟩
      rintro next ⟨⟩
      exact ⟨rfl, rfl⟩
  | true =>
      simp only [routeRequest, Bool.not_true, Bool.false_eq_true, if_false]
      cases hread : readRequest floats codec r with
      | unread =>
          refine .inl ⟨rfl, ?_⟩
          rintro next ⟨⟩
          exact ⟨rfl, rfl⟩
      | failed => exact .inl ⟨rfl, fun next hnext => by cases hnext⟩
      | unrouted text =>
          refine .inl ⟨rfl, ?_⟩
          rintro next ⟨⟩
          exact ⟨rfl, rfl⟩
      | fields text fields =>
          refine .inr ⟨text, fields, classifiable_of_readRequest hread, rfl, ?_⟩
          have hpolicy := asksBypass_applyDecisionHeaders sha floats cfg lookup (userIdentity r) fields
            r.header
          by_cases hpath : r.url.path = unifiedExecutionPath
          · simp only [if_pos hpath]
            exact ⟨_, _, rfl, rfl, hpolicy, fun hne => absurd hpath hne⟩
          · simp only [if_neg hpath]
            exact ⟨_, _, rfl, rfl, hpolicy, fun _ => ⟨_, rfl⟩⟩

/-- A request that goes on with a bypass is not looked up. -/
theorem not_looksUp_of_bypass {cacheEnabled : Bool} {backends : Backends}
    {r : Http.Request codec.Text}
    (hbypass : asksBypass r.header = true ∨ r.url.path = unifiedExecutionPath) :
    (Cache.middleware sha floats.toFloatCodec codec.toJsonReader cacheEnabled backends r).1.looksUp =
      false := by
  have hbypasses : bypasses (viewOf codec.toJsonReader r) = true := by
    rw [bypasses_eq]
    obtain hasks | hpath := hbypass
    · rw [hasks, Bool.or_true]
    · rw [hpath, beq_self_eq_true, Bool.true_or]
  by_contra hlooks
  rw [Bool.not_eq_false, looksUp_middleware_iff, hbypasses] at hlooks
  exact absurd hlooks.2.1 (by decide)

theorem looksUp_handling_iff (sha : Sha256) (lookup : ExperimentLookup) (w : Header)
    {cacheEnabled : Bool} {backends : Backends} {r : Http.Request codec.Text} (hover : Overridden floats codec cfg r) :
    (∃ h, handling sha floats codec cfg lookup cacheEnabled backends w r = some h ∧ h.looksUp = true) ↔
      Cacheable floats codec cacheEnabled backends r := by
  obtain ⟨-, c, hc, hsimple⟩ := hover
  rcases middleware_cases sha floats codec cfg lookup w r with
    ⟨hnone, -⟩ | ⟨text, fields, hread, hclassified, w', next, hnext, hurl, hasks, hrewritten⟩
  · rw [hnone] at hc
    cases hc
  · obtain rfl : classifyFields floats fields = c := Option.some.inj (hclassified.symm.trans hc)
    rw [decide_eq_false (by omega)] at hasks
    have hhandling : handling sha floats codec cfg lookup cacheEnabled backends w r =
        some (Cache.middleware sha floats.toFloatCodec codec.toJsonReader cacheEnabled backends
          next).1 := by
      rw [handling, hnext, Option.map_some]
    have hlooks : (∃ h, handling sha floats codec cfg lookup cacheEnabled backends w r = some h ∧
        h.looksUp = true) ↔ (Cache.middleware sha floats.toFloatCodec codec.toJsonReader cacheEnabled
          backends next).1.looksUp = true := by
      simp [hhandling]
    rw [hlooks, looksUp_middleware_iff, bypasses_eq, hasks, hurl, Bool.or_false, Cacheable]
    by_cases hpath : r.url.path = unifiedExecutionPath
    · simp [hpath]
    · obtain ⟨decision, rfl⟩ := hrewritten hpath
      rw [eligible_rewritten_iff hread decision]
      simp [hpath]

/-- The policy that a request goes on with. -/
theorem middleware_policy {w : Header} {r : Http.Request codec.Text}
    {next : Header × Http.Request codec.Text}
    (hnext : middleware sha floats codec cfg lookup w r = some next) :
    next.2.url = r.url ∧
      ((classified floats codec cfg r = none ∧ asksBypass next.2.header = asksBypass r.header) ∨
        ∃ c, classified floats codec cfg r = some c ∧
          asksBypass next.2.header = decide (3 ≤ c.score)) := by
  rcases middleware_cases sha floats codec cfg lookup w r with
    ⟨hnone, hsame⟩ | ⟨text, fields, -, hclassified, w', next', hnext', hurl, hpolicy, -⟩
  · obtain ⟨hurl, hheader⟩ := hsame next hnext
    exact ⟨hurl, .inl ⟨hnone, by rw [hheader]⟩⟩
  · obtain rfl := Option.some.inj (hnext'.symm.trans hnext)
    exact ⟨hurl, .inr ⟨_, hclassified, hpolicy⟩⟩

theorem asksBypass_of_not_overridden {w : Header} {r : Http.Request codec.Text}
    {next : Header × Http.Request codec.Text} (hover : ¬ Overridden floats codec cfg r)
    (hasks : asksBypass r.header = true)
    (hnext : middleware sha floats codec cfg lookup w r = some next) :
    asksBypass next.2.header = true := by
  obtain ⟨-, ⟨-, hsame⟩ | ⟨c, hc, hpolicy⟩⟩ := middleware_policy hnext
  · exact hsame.trans hasks
  · have hcomplex : 3 ≤ c.score := by
      by_contra hsimple
      exact hover ⟨hasks, c, hc, by omega⟩
    exact hpolicy.trans (decide_eq_true hcomplex)

/-- A request that has to bypass the cache goes on with a bypass, unless its client is overridden. -/
theorem bypass_of_not_overridden {w : Header} {r : Http.Request codec.Text}
    {next : Header × Http.Request codec.Text} (hover : ¬ Overridden floats codec cfg r)
    (hmust : MustBypass floats codec cfg r)
    (hnext : middleware sha floats codec cfg lookup w r = some next) :
    asksBypass next.2.header = true ∨ next.2.url.path = unifiedExecutionPath := by
  obtain ⟨hurl, hpolicy⟩ := middleware_policy hnext
  obtain hasks | ⟨c, hc, hscore⟩ | hpath := hmust
  · exact .inl (asksBypass_of_not_overridden hover hasks hnext)
  · obtain ⟨hnone, -⟩ | ⟨c', hc', hpolicy⟩ := hpolicy
    · rw [hnone] at hc
      cases hc
    · obtain rfl := Option.some.inj (hc'.symm.trans hc)
      exact .inl (hpolicy.trans (decide_eq_true hscore))
  · exact .inr (by rw [hurl, hpath])

theorem not_asksBypass_of_overridden (sha : Sha256) (lookup : ExperimentLookup) (w : Header)
    {r : Http.Request codec.Text} (hover : Overridden floats codec cfg r) :
    ∃ next, middleware sha floats codec cfg lookup w r = some next ∧
      asksBypass next.2.header = false := by
  obtain ⟨-, c, hc, hsimple⟩ := hover
  rcases middleware_cases sha floats codec cfg lookup w r with
    ⟨hnone, -⟩ | ⟨text, fields, -, hclassified, w', next, hnext, -, hpolicy, -⟩
  · rw [hnone] at hc
    cases hc
  · obtain rfl := Option.some.inj (hclassified.symm.trans hc)
    exact ⟨(w', next), hnext, hpolicy.trans (decide_eq_false (by omega))⟩

/-- The autopilot in front of the cache lets a request past the cache that has to be, exactly if it
does not override a client that asks for it; and the client's policy stays on the same condition. -/
theorem bypass_kept_iff (sha : Sha256) (floats : Float64) (codec : JsonCodec) (cfg : Config)
    (lookup : ExperimentLookup) (cacheEnabled : Bool) (backends : Backends) (w : Header)
    (r : Http.Request codec.Text) :
    ((MustBypass floats codec cfg r →
        ∀ h, handling sha floats codec cfg lookup cacheEnabled backends w r = some h →
          h.looksUp = false) ↔
      ¬ (Overridden floats codec cfg r ∧ Cacheable floats codec cacheEnabled backends r)) ∧
    ((asksBypass r.header = true →
        ∀ next, middleware sha floats codec cfg lookup w r = some next →
          asksBypass next.2.header = true) ↔
      ¬ Overridden floats codec cfg r) := by
  by_cases hover : Overridden floats codec cfg r
  · constructor
    · rw [← looksUp_handling_iff sha lookup w hover]
      constructor
      · rintro hnone ⟨-, h, hh, hlooks⟩
        rw [hnone (.inl hover.1) h hh] at hlooks
        cases hlooks
      · intro hnone _ h hh
        by_contra hlooks
        exact hnone ⟨hover, h, hh, by simpa using hlooks⟩
    · refine ⟨fun hkeeps => ?_, fun hnot => absurd hover hnot⟩
      obtain ⟨next, hnext, hlost⟩ := not_asksBypass_of_overridden sha lookup w hover
      rw [hkeeps hover.1 next hnext] at hlost
      cases hlost
  · constructor
    · refine ⟨fun _ hboth => hover hboth.1, fun _ hmust h hh => ?_⟩
      obtain ⟨next, hnext, rfl⟩ := Option.map_eq_some_iff.mp hh
      exact not_looksUp_of_bypass (bypass_of_not_overridden hover hmust hnext)
    · exact ⟨fun _ => hover, fun _ hasks next hnext => asksBypass_of_not_overridden hover hasks hnext⟩

end Routed

def literalFloat64 : Float64 where
  toFloatCodec := literalFloats
  toRat f := numberValue (String.ofList f.1)

/-- A short question whose client asks for a bypass. -/
def bypassed : Http.Request parsedText.Text where
  method := "POST"
  url := { path := "/v1/chat/completions" }
  header := (Header.empty.set "Content-Type" "application/json").set "X-CoreMesh-Cache-Policy" "bypass"
  body := some ⟨.obj [("model", .str "m"), ("prompt", .str "Hi")], false⟩
  contentLength := 29
  remoteAddr := "10.0.0.7:5000"

/-- The bypass becomes an `allow`, and the request is looked up. -/
theorem not_bypass_kept :
    MustBypass literalFloat64 parsedText {} bypassed ∧
      (middleware hexSha literalFloat64 parsedText {} .noStore Header.empty bypassed).map
        (fun next => next.2.header.get "x-coremesh-cache-policy") = some "allow" ∧
      (handling hexSha literalFloat64 parsedText {} .noStore true ⟨true, true, some none⟩ Header.empty
        bypassed).map Handling.looksUp = some true := by
  refine ⟨.inl (by decide +kernel), by decide +kernel, by decide +kernel⟩

end CoreMesh.Autopilot
