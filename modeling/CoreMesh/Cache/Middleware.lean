import CoreMesh.Cache.Replay
import CoreMesh.Http.Request

/-!
# The cache in front of a handler

`SemanticCache.Middleware` over requests whose body is still to be read: whether the cache is looked
up, and the request that goes to the handler behind it.
-/

namespace CoreMesh.Cache

open CoreMesh.Http

section Middleware

variable (sha : Sha256) (floats : FloatCodec) (reader : JsonReader)

/-- The request as `extractRequest` reads it. -/
def viewOf (r : Http.Request reader.Text) : Request where
  method := r.method
  url := r.url
  header := r.header
  body := r.body.bind fun body =>
    if body.failed ∨ reader.isBlank body.text then none else reader.unmarshal body.text

/-- Whether `extractRequest` gets as far as reading the body. -/
def readsBody (r : Http.Request reader.Text) : Bool :=
  r.method == "POST" && contains (toLower (r.header.get "Content-Type")) "application/json" &&
    r.body.isSome

/-- The request with the text put back that `extractRequest` has read, also where the reading ended
with an error. -/
def putBack (r : Http.Request reader.Text) : Http.Request reader.Text :=
  match r.body with
  | some body => if readsBody reader r then restoreRequestBody reader r body.text else r
  | none => r

/-- What the services answer to a request. -/
structure Backends where
  embedded : Bool
  indexed : Bool
  /-- None if the lookup fails. -/
  lookup : Option (Option LookupResult)

inductive Handling where
  /-- Without a look at the cache. -/
  | bypass
  | lookupFailed
  | hit (hit : LookupResult)
  /-- Nothing was found, and the response is stored if it is complete and successful. -/
  | miss (c : CacheRequest)

/-- What the cache does with a request, and the request that the handler gets. -/
def middleware (enabled : Bool) (backends : Backends) (r : Http.Request reader.Text) :
    Handling × Option (Http.Request reader.Text) :=
  if !enabled || bypasses (viewOf reader r) then (.bypass, some r)
  else
    match extractRequest sha floats (viewOf reader r) with
    | none => (.bypass, some (putBack reader r))
    | some c =>
        if !backends.embedded || !backends.indexed then (.bypass, some (putBack reader r))
        else
          match backends.lookup with
          | none => (.lookupFailed, some (putBack reader r))
          | some (some hit) => (.hit hit, none)
          | some none => (.miss c, some (putBack reader r))

/-- The cache is looked up, whatever comes of it. -/
def Handling.looksUp : Handling → Bool
  | .bypass => false
  | _ => true

/-! ### The body behind the cache -/

/-- The handler reads what the client sent, under its length, or an error. -/
def Delivered (r r' : Http.Request reader.Text) : Prop :=
  match r.body with
  | none => r'.body = none ∧ r'.contentLength = r.contentLength
  | some body =>
      ∃ body', r'.body = some body' ∧
        (body'.failed = true ∨
          (body.failed = false ∧ body'.text = body.text ∧
            (r'.contentLength = r.contentLength ∨ r'.contentLength = reader.length body.text)))

/-- The cache reads the body of the request, and the reading ends with an error. -/
def SwallowsError (enabled : Bool) (r : Http.Request reader.Text) : Prop :=
  enabled = true ∧ bypasses (viewOf reader r) = false ∧ readsBody reader r = true ∧
    ∃ body, r.body = some body ∧ body.failed = true

end Middleware

variable {sha : Sha256} {floats : FloatCodec} {reader : JsonReader}

/-- When the cache is looked up. -/
theorem looksUp_middleware_iff {enabled : Bool} {backends : Backends} {r : Http.Request reader.Text} :
    (middleware sha floats reader enabled backends r).1.looksUp = true ↔
      enabled = true ∧ bypasses (viewOf reader r) = false ∧ Eligible floats (viewOf reader r) ∧
        backends.embedded = true ∧ backends.indexed = true := by
  unfold middleware
  by_cases hskip : (!enabled || bypasses (viewOf reader r)) = true
  · rw [if_pos hskip]
    constructor
    · intro hbypass
      cases hbypass
    · rintro ⟨henabled, hbypasses, -⟩
      rw [henabled, hbypasses] at hskip
      cases hskip
  · obtain ⟨henabled, hbypasses⟩ : enabled = true ∧ bypasses (viewOf reader r) = false := by
      simpa using hskip
    rw [if_neg hskip]
    simp only [henabled, hbypasses, true_and]
    cases hextract : extractRequest sha floats (viewOf reader r) with
    | none =>
        constructor
        · intro hbypass
          cases hbypass
        · intro heligible
          rw [extractRequest_eq_some_iff.mpr ⟨heligible.1, rfl⟩] at hextract
          cases hextract
    | some c =>
        have heligible := (extractRequest_eq_some_iff.mp hextract).1
        by_cases hready : (!backends.embedded || !backends.indexed) = true
        · simp only [if_pos hready, heligible, true_and]
          constructor
          · intro hbypass
            cases hbypass
          · rintro ⟨hembedded, hindexed⟩
            rw [hembedded, hindexed] at hready
            cases hready
        · have hserved : backends.embedded = true ∧ backends.indexed = true := by simpa using hready
          simp only [heligible, hserved, and_true, iff_true]
          cases backends.lookup with
          | none => rfl
          | some found => cases found <;> rfl

theorem Delivered.refl (r : Http.Request reader.Text) : Delivered reader r r := by
  unfold Delivered
  cases r.body with
  | none => exact ⟨rfl, rfl⟩
  | some body =>
      refine ⟨body, rfl, ?_⟩
      cases hfailed : body.failed with
      | true => exact .inl rfl
      | false => exact .inr ⟨rfl, rfl, .inl rfl⟩

theorem readsBody_of_body {r : Http.Request reader.Text} (hreads : readsBody reader r = true) :
    ∃ body, r.body = some body := by
  simp only [readsBody, Bool.and_eq_true] at hreads
  exact Option.isSome_iff_exists.mp hreads.2

theorem putBack_of_readsBody {r : Http.Request reader.Text} {body : Body reader.Text}
    (hbody : r.body = some body) (hreads : readsBody reader r = true) :
    putBack reader r = restoreRequestBody reader r body.text := by
  simp [putBack, hbody, hreads]

theorem putBack_of_not_readsBody {r : Http.Request reader.Text}
    (hreads : ¬ readsBody reader r = true) : putBack reader r = r := by
  unfold putBack
  split
  · rw [if_neg hreads]
  · rfl

/-- A text put back is taken for the whole body. -/
theorem delivered_putBack_iff (r : Http.Request reader.Text) :
    Delivered reader r (putBack reader r) ↔
      ¬ (readsBody reader r = true ∧ ∃ body, r.body = some body ∧ body.failed = true) := by
  by_cases hreads : readsBody reader r = true
  · obtain ⟨body, hbody⟩ := readsBody_of_body hreads
    rw [putBack_of_readsBody hbody hreads, Delivered, hbody]
    cases hfailed : body.failed with
    | true => simp [restoreRequestBody, hreads, hfailed]
    | false => simp [restoreRequestBody, hfailed]
  · rw [putBack_of_not_readsBody hreads]
    simp [hreads, Delivered.refl]

/-- A request whose body was read to an error is not eligible, so it reaches the handler. -/
theorem extractRequest_of_failed {r : Http.Request reader.Text} {body : Body reader.Text}
    (hbody : r.body = some body) (hfailed : body.failed = true) :
    extractRequest sha floats (viewOf reader r) = none := by
  by_contra hsome
  obtain ⟨c, hc⟩ := Option.ne_none_iff_exists'.mp hsome
  obtain ⟨heligible, -⟩ := extractRequest_eq_some_iff.mp hc
  have hnone := heligible.body
  simp [viewOf, hbody, hfailed] at hnone

/-- Whatever the services answer, the handler behind the cache gets the body of the client or an error
exactly if the cache has not read the body to an error. -/
theorem delivered_iff (sha : Sha256) (floats : FloatCodec) (reader : JsonReader) (enabled : Bool)
    (backends : Backends) (r : Http.Request reader.Text) :
    (∀ r', (middleware sha floats reader enabled backends r).2 = some r' → Delivered reader r r') ↔
      ¬ SwallowsError reader enabled r := by
  by_cases hskip : (!enabled || bypasses (viewOf reader r)) = true
  · rw [middleware, if_pos hskip]
    constructor
    · rintro - ⟨henabled, hbypasses, -⟩
      rw [henabled, hbypasses] at hskip
      cases hskip
    · rintro - r' ⟨⟩
      exact Delivered.refl r
  · obtain ⟨henabled, hbypasses⟩ : enabled = true ∧ bypasses (viewOf reader r) = false := by
      simpa using hskip
    rw [middleware, if_neg hskip, SwallowsError]
    simp only [henabled, hbypasses, true_and]
    rw [← delivered_putBack_iff]
    constructor
    · intro hall
      by_contra hlost
      rw [delivered_putBack_iff, not_not] at hlost
      obtain ⟨hreads, body, hbody, hfailed⟩ := hlost
      rw [extractRequest_of_failed hbody hfailed] at hall
      exact (delivered_putBack_iff r).mp (hall _ rfl) ⟨hreads, body, hbody, hfailed⟩
    · intro hback r' hnext
      split at hnext
      · obtain rfl := Option.some.inj hnext
        exact hback
      · split at hnext
        · obtain rfl := Option.some.inj hnext
          exact hback
        · split at hnext
          · obtain rfl := Option.some.inj hnext
            exact hback
          · cases hnext
          · obtain rfl := Option.some.inj hnext
            exact hback

/-- The bytes of a body, none of which is a value yet. -/
def rawBytes : JsonReader where
  Text := List UInt8
  length := List.length
  isBlank bytes := bytes.all fun b => b == 32 || (9 ≤ b && b ≤ 13)
  unmarshal _ := none

/-- A request of twenty bytes, whose connection breaks after the first three. -/
def truncated : Http.Request rawBytes.Text where
  method := "POST"
  url := { path := "/v1/chat/completions" }
  header := Header.empty.set "Content-Type" "application/json"
  body := some ⟨[0x7b, 0x22, 0x70], true⟩
  contentLength := 20
  remoteAddr := "10.0.0.7:5000"

theorem not_delivered_of_truncated :
    ∃ r', (middleware hexSha literalFloats rawBytes true ⟨true, true, some none⟩ truncated).2 = some r' ∧
      r'.body = some ⟨[0x7b, 0x22, 0x70], false⟩ ∧ r'.contentLength = 3 ∧
      ¬ Delivered rawBytes truncated r' := by
  have hreads : readsBody rawBytes truncated = true := by decide +kernel
  have hbypasses : bypasses (viewOf rawBytes truncated) = false := by decide +kernel
  have hfailed : (⟨[0x7b, 0x22, 0x70], true⟩ : Body rawBytes.Text).failed = true := rfl
  have hback := putBack_of_readsBody rfl hreads
  refine ⟨putBack rawBytes truncated, ?_, ?_, ?_, ?_⟩
  · rw [middleware, hbypasses, extractRequest_of_failed rfl hfailed]
    rfl
  · rw [hback]
    rfl
  · rw [hback]
    rfl
  · rw [delivered_putBack_iff, not_not]
    exact ⟨hreads, _, rfl, hfailed⟩

end CoreMesh.Cache
