import CoreMesh.Autopilot.CachePolicy

/-!
# Prompt versions behind the cache

Requests that go through the autopilot to the cache, each with what the experiment store answers when
it comes. A response that is stored remembers the request it was produced for. The version that the
experiment assigns to a request is in its headers, and the scope of the cache is made from its body.
-/

namespace CoreMesh.Autopilot

open CoreMesh.Http CoreMesh.Cache Transition

attribute [local irreducible] applyDecisionHeaders classifyFields

structure Arrival (codec : JsonCodec) where
  request : Http.Request codec.Text
  lookup : ExperimentLookup

namespace PromptVersions

section Gateway

variable (sha : Sha256) (floats : Float64) (codec : JsonCodec) (cfg : Config)

/-- The version of the decision, if there is one; a version that is not positive is none. -/
def assigned (a : Arrival codec) : Option Int :=
  if !cfg.enabled then none
  else
    match routeRequest sha floats codec cfg a.lookup a.request with
    | .routed _ decision => if 0 < decision.promptVersion then some decision.promptVersion else none
    | _ => none

/-- The request as it gets to the cache. -/
def viewed (a : Arrival codec) : Option Cache.Request :=
  (middleware sha floats codec cfg a.lookup Header.empty a.request).map fun next =>
    viewOf codec.toJsonReader next.2

/-- What the cache makes of a request that it handles. -/
def cached (a : Arrival codec) : Option CacheRequest :=
  (viewed sha floats codec cfg a).bind (admitted sha floats.toFloatCodec)

end Gateway

/-- Redis, and for each key the request whose response was last stored under it. -/
structure World (codec : JsonCodec) where
  redis : Redis
  producer : String → Option (Arrival codec)

def World.empty (codec : JsonCodec) : World codec := ⟨fun _ => none, fun _ => none⟩

def World.keep {codec : JsonCodec} (w : World codec) (entry : Entry) (a : Arrival codec) :
    World codec where
  redis := store w.redis entry
  producer := fun key => if key = entry.key then some a else w.producer key

inductive Event (codec : JsonCodec) where
  /-- A request that found nothing has been handled. -/
  | handled (a : Arrival codec) (vector : String) (e : Exchange) (now : Int)
  | hit (a : Arrival codec) (hit : LookupResult) (now : Int)
  | expired (key : String)

section System

variable (sha : Sha256) (floats : Float64) (codec : JsonCodec) (cfg : Config)
  (config : Cache.Config) (arrivals : Arrival codec → Prop)

/-- A request is served from the result of its lookup. -/
def Served (w : World codec) (a : Arrival codec) (now : Int) (hit : LookupResult) : Prop :=
  ∃ c, cached sha floats codec cfg a = some c ∧
    Lookup w.redis (entryKey sha config.keyPrefix c) c.scopeHash now hit

inductive Step : World codec → Event codec → World codec → Prop where
  | stored {w : World codec} {a : Arrival codec} {c : CacheRequest} {vector : String} {e : Exchange}
      {now : Int} {entry : Entry} (harrives : arrivals a)
      (hcached : cached sha floats codec cfg a = some c)
      (hentry : entryOf sha config c vector e now = some entry) :
      Step w (.handled a vector e now) (w.keep entry a)
  /-- The response is not to be stored, or Redis fails. -/
  | unstored {w : World codec} {a : Arrival codec} {vector : String} {e : Exchange} {now : Int}
      (harrives : arrivals a) : Step w (.handled a vector e now) w
  | counted {w : World codec} {a : Arrival codec} {hit : LookupResult} {now : Int}
      (harrives : arrivals a) (hserved : Served sha floats codec cfg config w a now hit) :
      Step w (.hit a hit now) { w with redis := incrementHitCount w.redis hit.key }
  | uncounted {w : World codec} {a : Arrival codec} {hit : LookupResult} {now : Int}
      (harrives : arrivals a) (hserved : Served sha floats codec cfg config w a now hit) :
      Step w (.hit a hit now) w
  | expired {w : World codec} {key : String} :
      Step w (.expired key) { w with redis := w.redis.put key none }

/-- In every run, a request is only served what was produced for one with its version. -/
def Isolated : Prop :=
  ∀ events w, Run (Step sha floats codec cfg config arrivals) (World.empty codec) events w →
    ∀ a, arrivals a → ∀ now hit, Served sha floats codec cfg config w a now hit →
      ∃ a', w.producer hit.key = some a' ∧
        assigned sha floats codec cfg a' = assigned sha floats codec cfg a

/-- The requests are handled by the cache, in one scope. -/
def ShareScope (a a' : Arrival codec) : Prop :=
  ∃ r r' c c', viewed sha floats codec cfg a = some r ∧ viewed sha floats codec cfg a' = some r' ∧
    admitted sha floats.toFloatCodec r = some c ∧ admitted sha floats.toFloatCodec r' = some c' ∧
    SameScope floats.toFloatCodec r r'

end System

/-! ### Who produced what is served -/

section Provenance

variable {sha : Sha256} {floats : Float64} {codec : JsonCodec} {cfg : Config}
  {config : Cache.Config} {arrivals : Arrival codec → Prop}

/-- The hash is in the scope of an arrival, and so is its producer. -/
def Produced (sha : Sha256) (floats : Float64) (codec : JsonCodec) (cfg : Config)
    (arrivals : Arrival codec → Prop) (producer : String → Option (Arrival codec)) (key : String)
    (fields : Hash) : Prop :=
  ∃ a c, producer key = some a ∧ arrivals a ∧ cached sha floats codec cfg a = some c ∧
    fields.field "scope_hash" = c.scopeHash

theorem produced_run {events : List (Event codec)} {w : World codec}
    (hrun : Run (Step sha floats codec cfg config arrivals) (World.empty codec) events w) :
    w.redis.ForServable (Produced sha floats codec cfg arrivals w.producer) := by
  refine hrun.invariant
    (fun w => w.redis.ForServable (Produced sha floats codec cfg arrivals w.producer))
    (fun key fields hfields => by cases hfields) ?_
  intro w event w' hproduced hstep
  cases hstep with
  | @stored a c vector e now entry harrives hcached hentry =>
      refine Redis.ForServable.put hproduced (fun fields hfields _ => ?_) fun k fields hk hheld => ?_
      · obtain rfl := Option.some.inj hfields
        refine ⟨a, c, if_pos rfl, harrives, hcached, ?_⟩
        rw [← (entryOf_key hentry).2.1]
        rfl
      · obtain ⟨a', c', hproducer, hheld⟩ := hheld
        exact ⟨a', c', (if_neg hk).trans hproducer, hheld⟩
  | unstored => exact hproduced
  | counted harrives hserved => exact hproduced.count (fun key fields count hheld => hheld) _
  | uncounted harrives hserved => exact hproduced
  | expired => exact hproduced.expire _

variable (arrivals) in
/-- What is stored for a request is served to any other in its scope. -/
theorem served_of_shareScope (config : Cache.Config) {a a' : Arrival codec} (ha : arrivals a)
    (hshare : ShareScope sha floats codec cfg a a') :
    ∃ events w now hit, Run (Step sha floats codec cfg config arrivals) (World.empty codec) events w ∧
      Served sha floats codec cfg config w a' now hit ∧ w.producer hit.key = some a := by
  obtain ⟨r, r', c, c', hview, hview', hadmitted, hadmitted', hsame⟩ := hshare
  have hcached : cached sha floats codec cfg a = some c := by
    rw [cached, hview, Option.bind_some, hadmitted]
  have hcached' : cached sha floats codec cfg a' = some c' := by
    rw [cached, hview', Option.bind_some, hadmitted']
  have hscope : c.scopeHash = c'.scopeHash :=
    (scopeHash_eq_iff (extractRequest_of_admitted hadmitted)
      (extractRequest_of_admitted hadmitted')).mpr hsame
  -- The entry runs out at time zero, whatever its life is.
  obtain ⟨entry, hentry⟩ :
      ∃ entry, entryOf sha config c "" (answer Header.empty) (-config.ttl) = some entry := ⟨_, rfl⟩
  obtain ⟨-, hentryScope, hends⟩ := entryOf_key hentry
  have hexpires : atoi (toString entry.expiresAt) = some 0 := by
    rw [hends, neg_add_cancel]
    decide
  obtain ⟨fields, hfields, hcurrent⟩ :=
    isCurrent_store (World.empty codec).redis entry hexpires (le_refl 0)
  rw [hentryScope, hscope] at hcurrent
  have honly : ∀ key ≠ entry.key, ((World.empty codec).keep entry a).redis key = none :=
    fun key hne => if_neg hne
  have hproducer : ((World.empty codec).keep entry a).producer entry.key = some a := if_pos rfl
  suffices hhit : ∃ hit, Lookup ((World.empty codec).keep entry a).redis
      (entryKey sha config.keyPrefix c') c'.scopeHash 0 hit ∧ hit.key = entry.key by
    obtain ⟨hit, hlookup, hkey⟩ := hhit
    exact ⟨_, _, 0, hit, .single (.stored ha hcached hentry), ⟨c', hcached', hlookup⟩,
      by rw [hkey, hproducer]⟩
  cases hexact : lookupExact ((World.empty codec).keep entry a).redis
      (entryKey sha config.keyPrefix c') c'.scopeHash 0 with
  | none => exact ⟨_, .semantic hexact hfields hcurrent, rfl⟩
  | some hit =>
      refine ⟨hit, .exact hexact, ?_⟩
      obtain ⟨found, hfound, -, -⟩ := lookup_spec (.exact hexact)
      by_contra hne
      rw [honly hit.key hne] at hfound
      cases hfound

/-- Prompt versions are isolated in every run exactly if no two of the requests that arrive share a
scope under different versions. -/
theorem isolated_iff (sha : Sha256) (floats : Float64) (codec : JsonCodec) (cfg : Config)
    (config : Cache.Config) (arrivals : Arrival codec → Prop) :
    Isolated sha floats codec cfg config arrivals ↔
      ∀ a a', arrivals a → arrivals a' → ShareScope sha floats codec cfg a a' →
        assigned sha floats codec cfg a = assigned sha floats codec cfg a' := by
  constructor
  · intro hisolated a a' ha ha' hshare
    obtain ⟨events, w, now, hit, hrun, hserved, hproducer⟩ :=
      served_of_shareScope arrivals config ha hshare
    obtain ⟨producer, hproducer', hversion⟩ := hisolated events w hrun a' ha' now hit hserved
    obtain rfl := Option.some.inj (hproducer.symm.trans hproducer')
    exact hversion
  · intro hsame events w hrun a ha now hit hserved
    obtain ⟨c, hcached, hlookup⟩ := hserved
    obtain ⟨fields, hfields, hcurrent, -⟩ := lookup_spec hlookup
    obtain ⟨a', c', hproducer, ha', hcached', hscope⟩ :=
      produced_run hrun hit.key fields hfields (expires_of_current hcurrent)
    refine ⟨a', hproducer, hsame a' a ha' ha ?_⟩
    obtain ⟨r, hview, hadmitted⟩ := Option.bind_eq_some_iff.mp hcached
    obtain ⟨r', hview', hadmitted'⟩ := Option.bind_eq_some_iff.mp hcached'
    refine ⟨r', r, c', c, hview', hview, hadmitted', hadmitted, ?_⟩
    refine (scopeHash_eq_iff (extractRequest_of_admitted hadmitted')
      (extractRequest_of_admitted hadmitted)).mp ?_
    rw [← hscope]
    exact scope_of_lookup hlookup hfields

/-- The scope of a simple request has the model of the decision in it, and nothing else. -/
theorem shareScope_of_model {r : Http.Request codec.Text} {text : codec.Text}
    {fields : List (String × Json)} {lookup lookup' : ExperimentLookup} (henabled : cfg.enabled = true)
    (hread : readRequest floats codec r = .fields text fields)
    (hpath : r.url.path ≠ unifiedExecutionPath) (hsimple : (classifyFields floats fields).score < 3)
    (heligible : Eligible floats.toFloatCodec (viewOf codec.toJsonReader r))
    (hmodel : (decision sha cfg lookup (userIdentity r) (classifyFields floats fields)).model =
      (decision sha cfg lookup' (userIdentity r) (classifyFields floats fields)).model) :
    ShareScope sha floats codec cfg ⟨r, lookup⟩ ⟨r, lookup'⟩ := by
  have hclassifiable := classifiable_of_readRequest hread
  have hview : ∀ lookup, viewed sha floats codec cfg ⟨r, lookup⟩ =
      some (viewOf codec.toJsonReader (rewritten codec r fields
        (decision sha cfg lookup (userIdentity r) (classifyFields floats fields)))) := by
    intro lookup
    simp only [viewed, middleware, routeRequest, hread, henabled, Bool.not_true, Bool.false_eq_true,
      if_false, if_neg hpath, Option.map_some]
    rfl
  have hadmitted : ∀ lookup, ∃ c, admitted sha floats.toFloatCodec
      (viewOf codec.toJsonReader (rewritten codec r fields
        (decision sha cfg lookup (userIdentity r) (classifyFields floats fields)))) = some c := by
    intro lookup
    have hbypasses : bypasses (viewOf codec.toJsonReader (rewritten codec r fields
        (decision sha cfg lookup (userIdentity r) (classifyFields floats fields)))) = false := by
      rw [bypasses_rewritten, decide_eq_false (by omega)]
      simpa using hpath
    have hextract : extractRequest sha floats.toFloatCodec (viewOf codec.toJsonReader
        (rewritten codec r fields
          (decision sha cfg lookup (userIdentity r) (classifyFields floats fields)))) = some _ :=
      extractRequest_eq_some_iff.mpr ⟨(eligible_rewritten_iff hclassifiable (decision sha cfg lookup (userIdentity r)
        (classifyFields floats fields))).mpr heligible, rfl⟩
    exact ⟨_, by rw [admitted, hbypasses, if_neg (by decide)]; exact hextract⟩
  obtain ⟨c, hc⟩ := hadmitted lookup
  obtain ⟨c', hc'⟩ := hadmitted lookup'
  have hfields := (fields_rewritten hclassifiable
    (decision sha cfg lookup (userIdentity r) (classifyFields floats fields))).2
  have hfields' := (fields_rewritten hclassifiable
    (decision sha cfg lookup' (userIdentity r) (classifyFields floats fields))).2
  rw [← hmodel, ← hfields] at hfields'
  refine ⟨_, _, c, c', hview lookup, hview lookup', hc, hc', ?_⟩
  exact ⟨rfl, by rw [hfields'], by rw [hfields'], by rw [hfields'], by rw [hfields']⟩

end Provenance

/-- A short question. -/
def question : Http.Request parsedText.Text :=
  { bypassed with header := Header.empty.set "Content-Type" "application/json" }

def rollout : Experiment where
  rolloutPercentage := 100
  baselinePromptVersion := 3
  experimentalPromptVersion := 7
  status := "running"

/-- Once the experiment is over, a request is served what its experimental version was answered. -/
theorem not_isolated_of_finished :
    ∃ events w now hit, Run (Step hexSha literalFloat64 parsedText {} Cache.config fun _ => True)
        (World.empty parsedText) events w ∧
      Served hexSha literalFloat64 parsedText {} Cache.config w ⟨question, .missing⟩ now hit ∧
      w.producer hit.key = some ⟨question, .found rollout⟩ ∧
      assigned hexSha literalFloat64 parsedText {} ⟨question, .found rollout⟩ = some 7 ∧
      assigned hexSha literalFloat64 parsedText {} ⟨question, .missing⟩ = none := by
  have hclassified : (classified literalFloat64 parsedText {} question).map Classification.score =
      some 0 := by decide +kernel
  obtain ⟨text, fields, hread⟩ : ∃ text fields,
      readRequest literalFloat64 parsedText question = .fields text fields := by
    cases hread : readRequest literalFloat64 parsedText question with
    | fields text fields => exact ⟨text, fields, rfl⟩
    | _ =>
        simp only [classified, hread, Bool.not_true, Bool.false_eq_true, if_false] at hclassified
        cases hclassified
  have hsimple : (classifyFields literalFloat64 fields).score = 0 := by
    simpa [classified, hread] using hclassified
  have heligible : (extractRequest hexSha literalFloats (viewOf parsedText.toJsonReader question)).isSome :=
    by decide +kernel
  obtain ⟨c, hc⟩ := Option.isSome_iff_exists.mp heligible
  have hmodel : (decision hexSha {} (.found rollout) (userIdentity question)
      (classifyFields literalFloat64 fields)).model = (decision hexSha {} .missing
        (userIdentity question) (classifyFields literalFloat64 fields)).model := by
    have hrunning : toLower (trimSpace "running") = "running" := by decide +kernel
    simp [decision, rollout, hrunning, userInRollout]
  obtain ⟨events, w, now, hit, hrun, hserved, hproducer⟩ :=
    served_of_shareScope (fun _ => True) Cache.config trivial
      (shareScope_of_model rfl hread (by decide) (by omega)
        (extractRequest_eq_some_iff.mp hc).1 hmodel)
  exact ⟨events, w, now, hit, hrun, hserved, hproducer, by decide +kernel, by decide +kernel⟩

end PromptVersions

end CoreMesh.Autopilot
