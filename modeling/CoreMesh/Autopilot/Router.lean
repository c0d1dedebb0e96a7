import CoreMesh.Autopilot.Classify
import CoreMesh.Http.Request

/-!
# Routing a request

`Router.Middleware`: the experiment that a request takes part in, the decision that follows, and the
request as it goes on, with the decision in its headers and the model of the decision in its body.
-/

namespace CoreMesh.Autopilot

open CoreMesh.Http CoreMesh.Cache

structure Config where
  enabled : Bool := true
  tier1Model : String := "gpt-4o-mini"
  tier3Model : String := "gpt-4o"
  experimentFlag : String := "cost_autopilot_routing"
  debug : Bool := false

/-- The fields of a row of `feature_experiments` that are read. -/
structure Experiment where
  rolloutPercentage : Int
  baselinePromptVersion : Int
  experimentalPromptVersion : Int
  status : String

/-- What the experiment store answers, where there is one. -/
inductive ExperimentLookup where
  | noStore
  | failed (error : String)
  | missing
  | found (exp : Experiment)

structure Decision where
  tier : String
  model : String
  variant : String
  promptVersion : Int
  cachePolicy : String
  reasons : List String
  debugError : String

/-! ### The experiment -/

/-- `net.SplitHostPort`, of which only the host is used. -/
def splitHost (hostport : String) : Option String :=
  let text := hostport.toList
  let host := (text.reverse.dropWhile (· != ':')).drop 1
  if !text.contains ':' then none
  else
    match text with
    | '[' :: rest =>
        let inner := rest.takeWhile (· != ']')
        match rest.dropWhile (· != ']') with
        | ']' :: ':' :: port =>
            if port.contains ':' || inner.contains '[' || port.contains '[' || port.contains ']' then none
            else some (String.ofList inner)
        | _ => none
    | _ =>
        if host.contains ':' || text.contains '[' || text.contains ']' then none
        else some (String.ofList host.reverse)

def anonymousRoutingIdentity : String := "anonymous"

def userIdentity {Text : Type} (r : Http.Request Text) : String :=
  let named := (["X-User-ID", "X-Session-ID", "X-Team-ID", "X-API-Key"].map fun header =>
    trimSpace (r.header.get header)).find? (· != "")
  match named with
  | some value => value
  | none =>
      match splitHost r.remoteAddr with
      | some host =>
          if host != "" then host
          else if trimSpace r.remoteAddr != "" then trimSpace r.remoteAddr
          else anonymousRoutingIdentity
      | none =>
          if trimSpace r.remoteAddr != "" then trimSpace r.remoteAddr else anonymousRoutingIdentity

/-- The first eight bytes of the hash as a number, by hundred. -/
def stableBucket (sha : Sha256) (flagName identity : String) : Nat :=
  let identity := if trimSpace identity = "" then anonymousRoutingIdentity else identity
  let digits := (sha.hex (flagName ++ "\x00" ++ identity)).toList.take 16
  digits.foldl (fun n c => 16 * n + (unhex c).getD 0) 0 % 100

def userInRollout (sha : Sha256) (flagName identity : String) (rolloutPercentage : Int) : Bool :=
  if rolloutPercentage ≤ 0 then false
  else if 100 ≤ rolloutPercentage then true
  else (stableBucket sha flagName identity : Int) < rolloutPercentage

/-! ### The decision -/

def appendReason (reasons : List String) (reason : String) : List String :=
  if reasons.contains reason then reasons else reasons ++ [reason]

def sanitizeHeaderValue (value : String) : String :=
  trimSpace (String.ofList (value.toList.map fun c => if c = '\r' ∨ c = '\n' then ' ' else c))

section Router

variable (sha : Sha256) (floats : Float64) (codec : JsonCodec) (cfg : Config)

def modelForTier (tier : String) : String :=
  if tier = tier3 then cfg.tier3Model else cfg.tier1Model

def baselineDecision (decision : Decision) (promptVersion : Int) (reason : String) : Decision :=
  { decision with
    tier := tier3
    model := cfg.tier3Model
    variant := "baseline"
    promptVersion
    reasons := appendReason decision.reasons reason }

def decision (lookup : ExperimentLookup) (identity : String) (classification : Classification) :
    Decision :=
  let decision : Decision :=
    { tier := classification.tier
      model := modelForTier cfg classification.tier
      variant := "none"
      promptVersion := 0
      cachePolicy := classification.cachePolicy
      reasons := classification.reasons
      debugError := "" }
  match lookup with
  | .noStore => decision
  | .failed error =>
      let decision := baselineDecision cfg decision 0 "experiment_lookup_failed"
      if cfg.debug then { decision with debugError := sanitizeHeaderValue error } else decision
  | .missing => decision
  | .found exp =>
      let status := toLower (trimSpace exp.status)
      if status = "running" then
        if userInRollout sha cfg.experimentFlag identity exp.rolloutPercentage then
          { decision with
            variant := "experimental"
            promptVersion := exp.experimentalPromptVersion
            reasons := appendReason decision.reasons "experiment_experimental" }
        else baselineDecision cfg decision exp.baselinePromptVersion "experiment_baseline"
      else if status = "rolled_back" then
        baselineDecision cfg decision exp.baselinePromptVersion "experiment_rolled_back"
      else decision

/-! ### The request -/

/-- `fields["model"] = …`. -/
def setModel (fields : List (String × Json)) (model : String) : List (String × Json) :=
  insertMissing "model" (.str model) (fields.filter fun field => field.1 != "model")

def rewriteModel (fields : List (String × Json)) (model : String) : codec.Text :=
  codec.marshal (.obj (setModel fields model))

/-- How far `routeRequest` gets with a request. -/
inductive Reading where
  /-- Before its body is read. -/
  | unread
  | failed
  /-- The body is read, and there is nothing to classify in it. -/
  | unrouted (text : codec.Text)
  | fields (text : codec.Text) (fields : List (String × Json))

def readRequest (r : Http.Request codec.Text) : Reading codec :=
  if r.method ≠ "POST" then .unread
  else if !contains (toLower (r.header.get "Content-Type")) "application/json" then .unread
  else
    match r.body with
    | none => .unread
    | some body =>
        if body.failed then .failed
        else if codec.isBlank body.text then .unrouted body.text
        else
          match (codec.unmarshal body.text).bind fieldsOf with
          | none => .unrouted body.text
          | some fields =>
              if trimSpace (extractPromptText floats.toFloatCodec fields) = "" then .unrouted body.text
              else .fields body.text fields

inductive Routing where
  | failed
  | unrouted (r : Http.Request codec.Text)
  | routed (r : Http.Request codec.Text) (decision : Decision)

def unifiedExecutionPath : String := "/v1/execute"

def routeRequest (lookup : ExperimentLookup) (r : Http.Request codec.Text) : Routing codec :=
  match readRequest floats codec r with
  | .unread => .unrouted r
  | .failed => .failed
  | .unrouted text => .unrouted (restoreRequestBody codec.toJsonReader r text)
  | .fields text fields =>
      let decision := decision sha cfg lookup (userIdentity r) (classifyFields floats fields)
      if r.url.path = unifiedExecutionPath then
        .routed (restoreRequestBody codec.toJsonReader r text) decision
      else
        .routed (restoreRequestBody codec.toJsonReader r (rewriteModel codec fields decision.model)) decision

end Router

def applyDecisionHeaders (headers : Header) (decision : Decision) : Header :=
  let headers := headers.set "X-CoreMesh-Autopilot-Tier" decision.tier
  let headers := headers.set "X-CoreMesh-Routed-Model" decision.model
  let headers := headers.set "X-CoreMesh-Experiment-Variant" decision.variant
  let headers := headers.set "X-CoreMesh-Cache-Policy" decision.cachePolicy
  let headers := if 0 < decision.promptVersion then
    headers.set "X-CoreMesh-Prompt-Version" (toString decision.promptVersion) else headers
  let headers := if decision.reasons ≠ [] then
    headers.set "X-CoreMesh-Autopilot-Reason" (",".intercalate decision.reasons) else headers
  if trimSpace decision.debugError ≠ "" then
    headers.set "X-CoreMesh-Experiment-Error" decision.debugError else headers

section Middleware

variable (sha : Sha256) (floats : Float64) (codec : JsonCodec) (cfg : Config)

/-- The header of the response and the request as the next handler gets them; none if the request is
answered with an error here. -/
def middleware (lookup : ExperimentLookup) (w : Header) (r : Http.Request codec.Text) :
    Option (Header × Http.Request codec.Text) :=
  if !cfg.enabled then some (w, r)
  else
    match routeRequest sha floats codec cfg lookup r with
    | .failed => none
    | .unrouted r => some (w, r)
    | .routed r decision =>
        some (applyDecisionHeaders w decision,
          { r with header := applyDecisionHeaders r.header decision })

end Middleware

/-! ### What the decision changes -/

theorem decision_cachePolicy (sha : Sha256) (cfg : Config) (lookup : ExperimentLookup)
    (identity : String) (classification : Classification) :
    (decision sha cfg lookup identity classification).cachePolicy = classification.cachePolicy := by
  cases lookup with
  | noStore => rfl
  | failed error =>
      simp only [decision]
      split <;> rfl
  | missing => rfl
  | found exp =>
      simp only [decision]
      split
      · split <;> rfl
      · split <;> rfl

/-- The headers that a decision sets. -/
def decisionHeaders : List String :=
  ["X-CoreMesh-Autopilot-Tier", "X-CoreMesh-Routed-Model", "X-CoreMesh-Experiment-Variant",
    "X-CoreMesh-Cache-Policy", "X-CoreMesh-Prompt-Version", "X-CoreMesh-Autopilot-Reason",
    "X-CoreMesh-Experiment-Error"]

theorem get_ite_set_of_ne {condition : Prop} [Decidable condition] (headers : Header)
    {key other : String} (value : String)
    (hne : canonicalHeaderKey other ≠ canonicalHeaderKey key) :
    (if condition then headers.set key value else headers).get other = headers.get other := by
  split
  · exact Header.get_set_of_ne headers value hne
  · rfl

theorem get_applyDecisionHeaders_of_ne (headers : Header) (decision : Decision) {key : String}
    (hne : ∀ name ∈ decisionHeaders, canonicalHeaderKey key ≠ canonicalHeaderKey name) :
    (applyDecisionHeaders headers decision).get key = headers.get key := by
  simp only [decisionHeaders, List.forall_mem_cons, List.not_mem_nil, false_implies, implies_true,
    and_true] at hne
  obtain ⟨htier, hmodel, hvariant, hpolicy, hversion, hreason, herror⟩ := hne
  unfold applyDecisionHeaders
  rw [get_ite_set_of_ne _ _ herror, get_ite_set_of_ne _ _ hreason, get_ite_set_of_ne _ _ hversion,
    Header.get_set_of_ne _ _ hpolicy, Header.get_set_of_ne _ _ hvariant,
    Header.get_set_of_ne _ _ hmodel, Header.get_set_of_ne _ _ htier]

theorem get_cachePolicy_applyDecisionHeaders (headers : Header) (decision : Decision) :
    (applyDecisionHeaders headers decision).get "x-coremesh-cache-policy" = decision.cachePolicy := by
  have hkey : canonicalHeaderKey "x-coremesh-cache-policy" =
      canonicalHeaderKey "X-CoreMesh-Cache-Policy" := by decide +kernel
  have hversion : canonicalHeaderKey "x-coremesh-cache-policy" ≠
      canonicalHeaderKey "X-CoreMesh-Prompt-Version" := by decide +kernel
  have hreason : canonicalHeaderKey "x-coremesh-cache-policy" ≠
      canonicalHeaderKey "X-CoreMesh-Autopilot-Reason" := by decide +kernel
  have herror : canonicalHeaderKey "x-coremesh-cache-policy" ≠
      canonicalHeaderKey "X-CoreMesh-Experiment-Error" := by decide +kernel
  unfold applyDecisionHeaders
  rw [get_ite_set_of_ne _ _ herror, get_ite_set_of_ne _ _ hreason, get_ite_set_of_ne _ _ hversion,
    Header.get, Header.values, hkey]
  exact congrArg (fun values => List.headD values "") (if_pos rfl)

theorem sorted_setModel {fields : List (String × Json)} (hsorted : KeyedList.Sorted fields)
    (model : String) : KeyedList.Sorted (setModel fields model) :=
  sorted_insertMissing (hsorted.filter _) _ _

theorem lookup_setModel (fields : List (String × Json)) (model key : String) :
    (setModel fields model).lookup key =
      if key = "model" then some (.str model) else fields.lookup key := by
  have hlookup : ∀ key ≠ "model",
      (fields.filter fun field => field.1 != "model").lookup key = fields.lookup key := by
    intro key hne
    induction fields with
    | nil => rfl
    | cons field rest ih =>
        obtain ⟨name, raw⟩ := field
        by_cases hname : name = "model"
        · simp [hname, KeyedList.lookup_cons, hne, ih]
        · simp [hname, KeyedList.lookup_cons, ih]
  have hfresh : (fields.filter fun field => field.1 != "model").lookup "model" = none := by
    rw [List.lookup_eq_none_iff]
    intro field hmem
    have hname : field.1 ≠ "model" := by simpa using (List.mem_filter.mp hmem).2
    simpa using Ne.symm hname
  rw [setModel, lookup_insertMissing hfresh]
  split
  · rfl
  · rename_i hne
    exact hlookup key hne

/-! ### What is read of a request -/

section Reading

variable {sha : Sha256} {floats : Float64} {codec : JsonCodec} {cfg : Config}

/-- A request with fields to classify. -/
structure Classifiable (floats : Float64) (codec : JsonCodec) (r : Http.Request codec.Text)
    (text : codec.Text) (fields : List (String × Json)) : Prop where
  method : r.method = "POST"
  contentType : contains (toLower (r.header.get "Content-Type")) "application/json" = true
  body : r.body = some ⟨text, false⟩
  fields : (codec.unmarshal text).bind fieldsOf = some fields

theorem classifiable_of_readRequest {r : Http.Request codec.Text} {text : codec.Text}
    {fields : List (String × Json)} (hread : readRequest floats codec r = .fields text fields) :
    Classifiable floats codec r text fields := by
  unfold readRequest at hread
  split at hread
  · cases hread
  rename_i hmethod
  split at hread
  · cases hread
  rename_i hjson
  split at hread
  · cases hread
  rename_i body hbody
  split at hread
  · cases hread
  rename_i hfailed
  split at hread
  · cases hread
  split at hread
  · cases hread
  rename_i fields' hfields
  split at hread
  · cases hread
  cases hread
  obtain ⟨text, failed⟩ := body
  obtain rfl : failed = false := by simpa using hfailed
  exact ⟨not_not.mp hmethod, by simpa using hjson, hbody, hfields⟩

/-- The rewritten body reads back as the fields with the model of the decision. -/
theorem unmarshal_rewriteModel {text : codec.Text} {fields : List (String × Json)}
    (hfields : (codec.unmarshal text).bind fieldsOf = some fields) (model : String) :
    codec.unmarshal (rewriteModel codec fields model) = some (.obj (setModel fields model)) := by
  refine codec.unmarshal_marshal _ (Json.wellFormedMembers_iff.mpr fun member hmember => ?_)
  obtain ⟨json, hjson, hof⟩ := Option.bind_eq_some_iff.mp hfields
  have hwell := codec.wellFormed_unmarshal text json hjson
  rcases mem_insertMissing hmember with rfl | hmember
  · rfl
  · have hfield := List.mem_of_mem_filter hmember
    cases json with
    | null =>
        obtain rfl := Option.some.inj hof
        cases hfield
    | obj members =>
        exact Json.wellFormedMembers_iff.mp hwell member (mem_fieldsOf hof member hfield)
    | _ => cases hof

end Reading

end CoreMesh.Autopilot
