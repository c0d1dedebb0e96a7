import CoreMesh.Cache.ExactKey
import CoreMesh.Lib.Transition

/-!
# Storing and replaying responses

The middleware around a handler: what the capture writer keeps of a response, the Redis hash it is
stored in, and what a hit writes from that hash. Redis keys may expire at any time, and a search may
find any unexpired entry of the scope. A Go string is a sequence of bytes, and here each of its bytes
is one character.
-/

namespace CoreMesh.Cache

open CoreMesh.Http Separators Transition

/-! ### Responses -/

/-- A write to the client. The writer takes the whole chunk unless it fails. -/
structure Write where
  chunk : List Char
  accepted : Nat
  failed : Bool
  full : failed = false → accepted = chunk.length

inductive WriterCall where
  | writeHeader (status : Nat)
  | write (call : Write)

/-- What a handler does with its response writer, once it has set the header. -/
structure Exchange where
  header : Header
  calls : List WriterCall

/-- `captureResponseWriter`. -/
structure Capture where
  status : Nat := 0
  body : List Char := []
  writeErr : Bool := false

def Capture.call (w : Capture) : WriterCall → Capture
  | .writeHeader status => if w.status ≠ 0 then w else { w with status }
  | .write call =>
      { status := if w.status = 0 then 200 else w.status
        body := w.body ++ call.chunk.take call.accepted
        writeErr := w.writeErr || call.failed }

def Capture.statusCode (w : Capture) : Nat := if w.status = 0 then 200 else w.status

def Exchange.capture (e : Exchange) : Capture := e.calls.foldl Capture.call {}

/-- What a client makes of a response: `Content-Encoding` is the list of its codings. -/
structure Representation where
  status : Int
  contentType : String
  contentEncoding : List String
  body : List Char
  deriving DecidableEq, Repr

def codings (header : Header) : List String :=
  ((header.values "Content-Encoding").flatMap commaTokens).filter (· ≠ "")

/-- The status a handler sends: the first one it writes, or that of a body without one. -/
def sentStatus : List WriterCall → Nat
  | [] => 200
  | .writeHeader 0 :: rest => sentStatus rest
  | .writeHeader status :: _ => status
  | .write _ :: _ => 200

def sentBody (calls : List WriterCall) : List Char :=
  calls.flatMap fun
    | .writeHeader _ => []
    | .write call => call.chunk

def Exchange.representation (e : Exchange) : Representation where
  status := sentStatus e.calls
  contentType := e.header.get "Content-Type"
  contentEncoding := codings e.header
  body := sentBody e.calls

/-! ### Entries -/

structure Config where
  keyPrefix : String
  /-- In seconds. -/
  ttl : Int

structure Entry where
  key : String
  vector : String
  prompt : String
  scopeHash : String
  model : String
  systemHash : String
  paramsHash : String
  stream : Bool
  statusCode : Nat
  contentType : String
  body : String
  createdAt : Int
  expiresAt : Int

/-- The entry a handled request is stored as, if its response is complete and successful. -/
def entryOf (sha : Sha256) (config : Config) (c : CacheRequest) (vector : String) (e : Exchange)
    (now : Int) : Option Entry :=
  let w := e.capture
  if w.writeErr ∨ w.statusCode < 200 ∨ 300 ≤ w.statusCode then none
  else some
    { key := entryKey sha config.keyPrefix c
      vector
      prompt := c.prompt
      scopeHash := c.scopeHash
      model := c.model
      systemHash := c.systemHash
      paramsHash := c.paramsHash
      stream := c.stream
      statusCode := w.statusCode
      contentType := e.header.get "Content-Type"
      body := String.ofList w.body
      createdAt := now
      expiresAt := now + config.ttl }

/-- The fields of a Redis hash. -/
abbrev Hash := String → Option String

abbrev Redis := String → Option Hash

def Hash.field (h : Hash) (name : String) : String := (h name).getD ""

/-- `HSET`: the other fields of the hash stay. -/
def hset (old : Option Hash) (fields : List (String × String)) : Hash := fun name =>
  match fields.lookup name with
  | some value => some value
  | none => old.bind fun h => h name

def Redis.put (redis : Redis) (key : String) (h : Option Hash) : Redis := fun k =>
  if k = key then h else redis k

/-- `RedisStore.Store`. -/
def store (redis : Redis) (entry : Entry) : Redis :=
  redis.put entry.key <| some <| hset (redis entry.key)
    [("embedding", entry.vector), ("prompt", entry.prompt), ("scope_hash", entry.scopeHash),
      ("model", entry.model), ("system_hash", entry.systemHash), ("params_hash", entry.paramsHash),
      ("stream", formatBool entry.stream), ("status", toString entry.statusCode),
      ("content_type", entry.contentType), ("response_body", entry.body),
      ("created_at", toString entry.createdAt), ("expires_at", toString entry.expiresAt),
      ("hit_count", "0")]

/-- `strconv.Atoi`, and `strconv.ParseInt` in base ten. -/
def atoi (text : String) : Option Int :=
  let value (digits : List Char) : Option Nat :=
    if digits ≠ [] ∧ digits.all Char.isDigit then some (Nat.ofDigitChars 10 digits 0) else none
  let parsed : Option Int :=
    match text.toList with
    | '-' :: digits => (value digits).map fun n => -(n : Int)
    | '+' :: digits => (value digits).map Int.ofNat
    | digits => (value digits).map Int.ofNat
  parsed.filter fun n => -2 ^ 63 ≤ n ∧ n < 2 ^ 63

/-- `IncrementHitCount`: on a key that has expired it makes a hash of that field alone. -/
def incrementHitCount (redis : Redis) (key : String) : Redis :=
  let count := ((redis key).bind fun h => atoi (h.field "hit_count")).getD 0
  redis.put key (some (hset (redis key) [("hit_count", toString (count + 1))]))

/-! ### Lookups -/

structure LookupResult where
  key : String
  statusCode : Int
  contentType : String
  body : String

/-- The result either lookup reads from the fields of a hash. -/
def readHit (key : String) (fields : Hash) : LookupResult where
  key := key
  statusCode :=
    let rawStatus := trimSpace (fields.field "status")
    if rawStatus = "" then 200 else (atoi rawStatus).getD 200
  contentType := fields.field "content_type"
  body := fields.field "response_body"

/-- Whether the hash is of the scope and has not run out. -/
def isCurrent (fields : Hash) (scopeHash : String) (now : Int) : Bool :=
  fields.field "scope_hash" == scopeHash &&
    match atoi (fields.field "expires_at") with
    | none => false
    | some expiresAt => decide (now ≤ expiresAt)

def lookupExact (redis : Redis) (key scopeHash : String) (now : Int) : Option LookupResult :=
  match redis key with
  | none => none
  | some fields => if isCurrent fields scopeHash now then some (readHit key fields) else none

/-- `RedisStore.Lookup`: the entry of the exact key, or else whichever the search finds near enough. -/
inductive Lookup (redis : Redis) (exactKey scopeHash : String) (now : Int) : LookupResult → Prop where
  | exact {hit : LookupResult} (hhit : lookupExact redis exactKey scopeHash now = some hit) :
      Lookup redis exactKey scopeHash now hit
  | semantic {key : String} {fields : Hash} (hnone : lookupExact redis exactKey scopeHash now = none)
      (hfields : redis key = some fields) (hcurrent : isCurrent fields scopeHash now = true) :
      Lookup redis exactKey scopeHash now (readHit key fields)

/-- The header as the handlers outside leave it, none of which sets the fields of a representation. -/
structure OuterHeader where
  header : Header
  contentType : header.values "Content-Type" = []
  contentEncoding : header.values "Content-Encoding" = []

structure Response where
  status : Int
  header : Header
  body : List Char

def Response.representation (r : Response) : Representation where
  status := r.status
  contentType := r.header.get "Content-Type"
  contentEncoding := codings r.header
  body := r.body

/-- What a hit writes. -/
def replay (outer : OuterHeader) (hit : LookupResult) : Response :=
  let header := if hit.contentType ≠ "" then outer.header.set "Content-Type" hit.contentType
    else outer.header
  { status := if hit.statusCode = 0 then 200 else hit.statusCode
    header := (header.set "x-coremesh-cache" "hit").set "Content-Length"
      (toString hit.body.toList.length)
    body := hit.body.toList }

/-! ### The middleware -/

/-- Requests that go to the handler without a look at the cache. -/
def bypasses (r : Request) : Bool :=
  r.url.path == "/v1/execute" ||
    equalFold (trimSpace (r.header.get "x-coremesh-cache-policy")) "bypass"

def admitted (sha : Sha256) (floats : FloatCodec) (r : Request) : Option CacheRequest :=
  if bypasses r then none else extractRequest sha floats r

theorem extractRequest_of_admitted {sha : Sha256} {floats : FloatCodec} {r : Request}
    {c : CacheRequest} (hadmitted : admitted sha floats r = some c) :
    extractRequest sha floats r = some c := by
  unfold admitted at hadmitted
  split at hadmitted
  · cases hadmitted
  · exact hadmitted

/-- Redis, and for each key the exchange last stored under it. -/
structure World where
  redis : Redis
  stored : String → Option Exchange

def World.empty : World := ⟨fun _ => none, fun _ => none⟩

def World.keep (w : World) (entry : Entry) (e : Exchange) : World where
  redis := store w.redis entry
  stored := fun key => if key = entry.key then some e else w.stored key

inductive Event where
  /-- A request that found nothing has been handled. -/
  | handled (r : Request) (vector : String) (e : Exchange) (now : Int)
  | hit (r : Request) (hit : LookupResult) (now : Int)
  | expired (key : String)

section System

variable (sha : Sha256) (floats : FloatCodec) (config : Config)

/-- A request is served from the result of its lookup. -/
def Served (w : World) (r : Request) (now : Int) (hit : LookupResult) : Prop :=
  ∃ c, admitted sha floats r = some c ∧
    Lookup w.redis (entryKey sha config.keyPrefix c) c.scopeHash now hit

inductive Step : World → Event → World → Prop where
  | stored {w : World} {r : Request} {c : CacheRequest} {vector : String} {e : Exchange} {now : Int}
      {entry : Entry} (hadmitted : admitted sha floats r = some c)
      (hentry : entryOf sha config c vector e now = some entry) :
      Step w (.handled r vector e now) (w.keep entry e)
  /-- The response is not to be stored, or Redis fails. -/
  | unstored {w : World} {r : Request} {vector : String} {e : Exchange} {now : Int} :
      Step w (.handled r vector e now) w
  | counted {w : World} {r : Request} {hit : LookupResult} {now : Int}
      (hserved : Served sha floats config w r now hit) :
      Step w (.hit r hit now) { w with redis := incrementHitCount w.redis hit.key }
  | uncounted {w : World} {r : Request} {hit : LookupResult} {now : Int}
      (hserved : Served sha floats config w r now hit) : Step w (.hit r hit now) w
  | expired {w : World} {key : String} :
      Step w (.expired key) { w with redis := w.redis.put key none }

end System

/-! ### What is kept of a response -/

theorem capture_of_status {w : Capture} (hstatus : w.status ≠ 0) (calls : List WriterCall) :
    (calls.foldl Capture.call w).status = w.status := by
  induction calls generalizing w with
  | nil => rfl
  | cons call rest ih =>
      have hnext : (w.call call).status = w.status := by
        cases call with
        | writeHeader status => rw [Capture.call, if_pos hstatus]
        | write call => rw [Capture.call, if_neg hstatus]
      rw [List.foldl_cons, ih (by rw [hnext]; exact hstatus), hnext]

theorem statusCode_capture {w : Capture} (hstatus : w.status = 0) (calls : List WriterCall) :
    (calls.foldl Capture.call w).statusCode = sentStatus calls := by
  induction calls generalizing w with
  | nil => rw [List.foldl_nil, Capture.statusCode, if_pos hstatus]; rfl
  | cons call rest ih =>
      cases call with
      | writeHeader status =>
          have hcall : (w.call (.writeHeader status)).status = status := by
            rw [Capture.call, if_neg (by simp [hstatus])]
          cases status with
          | zero => exact ih hcall
          | succ n =>
              have hne : (w.call (.writeHeader (n + 1))).status ≠ 0 := by
                rw [hcall]
                exact Nat.succ_ne_zero n
              rw [List.foldl_cons, Capture.statusCode, capture_of_status hne, if_neg hne, hcall]
              rfl
      | write call =>
          have hcall : (w.call (.write call)).status = 200 := by
            rw [Capture.call, if_pos hstatus]
          have hne : (w.call (.write call)).status ≠ 0 := by
            rw [hcall]
            decide
          rw [List.foldl_cons, Capture.statusCode, capture_of_status hne, if_neg hne, hcall]
          rfl

/-- Without a failed write everything that was sent was captured. -/
theorem body_capture {w : Capture} {calls : List WriterCall}
    (hcomplete : (calls.foldl Capture.call w).writeErr = false) :
    w.writeErr = false ∧ (calls.foldl Capture.call w).body = w.body ++ sentBody calls := by
  induction calls generalizing w with
  | nil => exact ⟨hcomplete, (List.append_nil _).symm⟩
  | cons call rest ih =>
      obtain ⟨herr, hbody⟩ := ih hcomplete
      cases call with
      | writeHeader status =>
          have hcall : (w.call (.writeHeader status)).writeErr = w.writeErr ∧
              (w.call (.writeHeader status)).body = w.body := by
            rw [Capture.call]
            split <;> exact ⟨rfl, rfl⟩
          rw [hcall.1] at herr
          rw [List.foldl_cons, hbody, hcall.2]
          exact ⟨herr, rfl⟩
      | write call =>
          obtain ⟨herr, hfailed⟩ := Bool.or_eq_false_iff.mp herr
          refine ⟨herr, ?_⟩
          rw [List.foldl_cons, hbody]
          show w.body ++ call.chunk.take call.accepted ++ sentBody rest = w.body ++ (call.chunk ++ sentBody rest)
          rw [call.full hfailed, List.take_length, List.append_assoc]

theorem entryOf_some {sha : Sha256} {config : Config} {c : CacheRequest} {vector : String}
    {e : Exchange} {now : Int} {entry : Entry}
    (hentry : entryOf sha config c vector e now = some entry) :
    entry.statusCode = sentStatus e.calls ∧ 200 ≤ sentStatus e.calls ∧ sentStatus e.calls < 300 ∧
      entry.contentType = e.header.get "Content-Type" ∧ entry.body.toList = sentBody e.calls := by
  have hstatus : e.capture.statusCode = sentStatus e.calls := statusCode_capture rfl e.calls
  unfold entryOf at hentry
  dsimp only at hentry
  split at hentry
  · cases hentry
  · rename_i hgood
    obtain ⟨hcomplete, hlow, hhigh⟩ : e.capture.writeErr = false ∧ ¬ e.capture.statusCode < 200 ∧
        ¬ 300 ≤ e.capture.statusCode := by
      simpa only [not_or, Bool.not_eq_true] using hgood
    obtain ⟨-, hbody⟩ := body_capture hcomplete
    obtain rfl := Option.some.inj hentry
    rw [← hstatus]
    refine ⟨rfl, by omega, by omega, rfl, ?_⟩
    rw [String.toList_ofList]
    exact hbody

/-- The entry is of the request. -/
theorem entryOf_key {sha : Sha256} {config : Config} {c : CacheRequest} {vector : String}
    {e : Exchange} {now : Int} {entry : Entry} (hentry : entryOf sha config c vector e now = some entry) :
    entry.key = entryKey sha config.keyPrefix c ∧ entry.scopeHash = c.scopeHash ∧
      entry.expiresAt = now + config.ttl := by
  unfold entryOf at hentry
  dsimp only at hentry
  split at hentry
  · cases hentry
  · obtain rfl := Option.some.inj hentry
    exact ⟨rfl, rfl, rfl⟩

/-! ### What Redis holds -/

/-- Every hash that may be served, since it says when it runs out. -/
def Redis.ForServable (P : String → Hash → Prop) (redis : Redis) : Prop :=
  ∀ key fields, redis key = some fields → (fields "expires_at").isSome → P key fields

theorem Redis.ForServable.put {P P' : String → Hash → Prop} {redis : Redis}
    (hall : redis.ForServable P) {key : String} {h : Option Hash}
    (hkey : ∀ fields, h = some fields → (fields "expires_at").isSome → P' key fields)
    (hkeep : ∀ k fields, k ≠ key → P k fields → P' k fields) : (redis.put key h).ForServable P' := by
  intro k fields hfields hexpires
  by_cases hk : k = key
  · subst hk
    have hput : redis.put k h k = h := if_pos rfl
    exact hkey fields (hput.symm.trans hfields) hexpires
  · have hput : redis.put key h k = redis k := if_neg hk
    exact hkeep k fields hk (hall k fields (hput.symm.trans hfields) hexpires)

theorem Redis.ForServable.expire {P : String → Hash → Prop} {redis : Redis}
    (hall : redis.ForServable P) (key : String) : (redis.put key none).ForServable P :=
  hall.put (fun _ hnone => by cases hnone) fun _ _ _ h => h

/-- A hash that only counts a hit is never served. -/
theorem Redis.ForServable.count {P : String → Hash → Prop} {redis : Redis}
    (hall : redis.ForServable P)
    (hcount : ∀ key fields count, P key fields → P key (hset (some fields) [("hit_count", count)]))
    (key : String) : (incrementHitCount redis key).ForServable P := by
  refine hall.put (fun fields hfields hexpires => ?_) fun _ _ _ h => h
  obtain rfl := Option.some.inj hfields
  cases hold : redis key with
  | none =>
      rw [hold] at hexpires
      cases hexpires
  | some old =>
      rw [hold] at hexpires
      exact hcount key old _ (hall key old hold hexpires)

/-- The fields a hit reads are those of the exchange. -/
structure Holds (fields : Hash) (e : Exchange) : Prop where
  status : fields "status" = some (toString (sentStatus e.calls))
  success : 200 ≤ sentStatus e.calls ∧ sentStatus e.calls < 300
  contentType : fields "content_type" = some (e.header.get "Content-Type")
  body : ∃ body, fields "response_body" = some body ∧ body.toList = sentBody e.calls

/-- A hash that may be served, since it says when it runs out, is that of the exchange stored. -/
def World.Faithful (w : World) : Prop :=
  ∀ key fields, w.redis key = some fields → (fields "expires_at").isSome →
    ∃ e, w.stored key = some e ∧ Holds fields e

theorem World.Faithful.keep {w : World} (hfaithful : w.Faithful) {sha : Sha256} {config : Config}
    {c : CacheRequest} {vector : String} {e : Exchange} {now : Int} {entry : Entry}
    (hentry : entryOf sha config c vector e now = some entry) : (w.keep entry e).Faithful := by
  obtain ⟨hstatus, hlow, hhigh, htype, hbody⟩ := entryOf_some hentry
  refine Redis.ForServable.put hfaithful (fun fields hfields _ => ?_) fun k fields hk hheld => ?_
  · obtain rfl := Option.some.inj hfields
    refine ⟨e, if_pos rfl, ?_⟩
    exact {
      status := by rw [← hstatus]; rfl
      success := ⟨hlow, hhigh⟩
      contentType := by rw [← htype]; rfl
      body := ⟨entry.body, rfl, hbody⟩ }
  · obtain ⟨e', hstored, hholds⟩ := hheld
    exact ⟨e', (if_neg hk).trans hstored, hholds⟩

theorem Holds.hset {fields : Hash} {e : Exchange} (hholds : Holds fields e) (count : String) :
    Holds (hset (some fields) [("hit_count", count)]) e where
  status := hholds.status
  success := hholds.success
  contentType := hholds.contentType
  body := hholds.body

theorem World.Faithful.count {w : World} (hfaithful : w.Faithful) (key : String) :
    World.Faithful { w with redis := incrementHitCount w.redis key } := by
  refine Redis.ForServable.count hfaithful (fun k fields count hheld => ?_) key
  obtain ⟨e, hstored, hholds⟩ := hheld
  exact ⟨e, hstored, hholds.hset count⟩

theorem World.Faithful.expire {w : World} (hfaithful : w.Faithful) (key : String) :
    World.Faithful { w with redis := w.redis.put key none } :=
  Redis.ForServable.expire hfaithful key

theorem faithful_run {sha : Sha256} {floats : FloatCodec} {config : Config} {events : List Event}
    {w : World} (hrun : Run (Step sha floats config) World.empty events w) : w.Faithful := by
  refine hrun.invariant World.Faithful (fun key fields hfields => by cases hfields) ?_
  intro w event w' hfaithful hstep
  cases hstep with
  | stored hadmitted hentry => exact hfaithful.keep hentry
  | unstored => exact hfaithful
  | counted hserved => exact hfaithful.count _
  | uncounted hserved => exact hfaithful
  | expired => exact hfaithful.expire _

/-! ### What a hit replays -/

theorem not_space_of_digit {c : Char} (hdigit : c.isDigit = true) : isSpace c = false := by
  obtain ⟨hlow, hhigh⟩ := Char.isDigit_iff_toNat.mp hdigit
  have hlow : 48 ≤ c.toNat := hlow
  have hhigh : c.toNat ≤ 57 := hhigh
  simp [isSpace]
  omega

theorem trimSpace_toString (n : Nat) : trimSpace (toString n) = toString n := by
  obtain ⟨hne, hdigits, -⟩ := digits_toString n
  have hleft : (toString n).toList.dropWhile isSpace = (toString n).toList := by
    obtain ⟨c, rest, hcons⟩ := List.exists_cons_of_ne_nil hne
    rw [hcons]
    have hc := not_space_of_digit (hdigits c (by rw [hcons]; exact List.mem_cons_self))
    exact List.dropWhile_cons_of_neg (by simp [hc])
  have hright : (toString n).toList.rdropWhile isSpace = (toString n).toList := by
    rw [List.rdropWhile_eq_self_iff]
    intro hne
    rw [not_space_of_digit (hdigits _ (List.getLast_mem hne))]
    exact Bool.false_ne_true
  rw [trimSpace, hleft, hright, String.ofList_toList]

theorem atoi_toString {n : Nat} (hn : n < 2 ^ 63) : atoi (toString n) = some (n : Int) := by
  obtain ⟨hne, hdigits, hvalue⟩ := digits_toString n
  have hnot : ∀ c rest, (toString n).toList = c :: rest → c.isDigit = true := fun c rest hcons =>
    hdigits c (by rw [hcons]; exact List.mem_cons_self)
  have hall : (toString n).toList.all Char.isDigit = true := List.all_eq_true.mpr hdigits
  unfold atoi
  dsimp only
  split
  · rename_i hminus
    exact absurd (hnot _ _ hminus) (by decide)
  · rename_i hplus
    exact absurd (hnot _ _ hplus) (by decide)
  · rw [if_pos ⟨hne, hall⟩, hvalue]
    have hrange : (n : Int) < 9223372036854775808 := by omega
    simp [hrange]

theorem readHit_status {key : String} {fields : Hash} {e : Exchange} (hholds : Holds fields e) :
    (readHit key fields).statusCode = sentStatus e.calls := by
  have hfield : fields.field "status" = toString (sentStatus e.calls) := by
    rw [Hash.field, hholds.status]
    rfl
  have hne : toString (sentStatus e.calls) ≠ "" := by
    intro hempty
    exact (digits_toString (sentStatus e.calls)).1 (congrArg String.toList hempty)
  have hsmall : sentStatus e.calls < 2 ^ 63 := by
    have hhigh := hholds.success.2
    omega
  simp only [readHit, hfield, trimSpace_toString, if_neg hne, atoi_toString hsmall, Option.getD_some]

/-- The header of a hit has the content type of the entry and no coding. -/
theorem replay_header (outer : OuterHeader) (hit : LookupResult) :
    (replay outer hit).header.get "Content-Type" = hit.contentType ∧
      codings (replay outer hit).header = [] := by
  have htype : canonicalHeaderKey "Content-Type" ≠ canonicalHeaderKey "Content-Length" ∧
      canonicalHeaderKey "Content-Type" ≠ canonicalHeaderKey "x-coremesh-cache" := by decide
  have hcoding : canonicalHeaderKey "Content-Encoding" ≠ canonicalHeaderKey "Content-Length" ∧
      canonicalHeaderKey "Content-Encoding" ≠ canonicalHeaderKey "x-coremesh-cache" ∧
      canonicalHeaderKey "Content-Encoding" ≠ canonicalHeaderKey "Content-Type" := by decide
  constructor
  · rw [replay, Header.get_set_of_ne _ _ htype.1, Header.get_set_of_ne _ _ htype.2]
    split
    · exact Header.get_set_self _ _ _
    · rename_i hempty
      rw [Header.get, outer.contentType]
      exact (not_not.mp hempty).symm
  · have hvalues : (replay outer hit).header.values "Content-Encoding" = [] := by
      rw [replay, Header.values_set_of_ne _ _ hcoding.1, Header.values_set_of_ne _ _ hcoding.2.1]
      split
      · rw [Header.values_set_of_ne _ _ hcoding.2.2, outer.contentEncoding]
      · exact outer.contentEncoding
    rw [codings, hvalues]
    rfl

theorem status_replay (outer : OuterHeader) (hit : LookupResult) :
    (replay outer hit).status = if hit.statusCode = 0 then 200 else hit.statusCode := rfl

/-- A hit gives back everything but the content coding. -/
theorem replay_representation (outer : OuterHeader) {key : String} {fields : Hash} {e : Exchange}
    (hholds : Holds fields e) :
    (replay outer (readHit key fields)).representation
      = { e.representation with contentEncoding := [] } := by
  obtain ⟨htype, hcodings⟩ := replay_header outer (readHit key fields)
  obtain ⟨body, hbody, hsent⟩ := hholds.body
  have hstatus : (replay outer (readHit key fields)).status = sentStatus e.calls := by
    have hne : (sentStatus e.calls : Int) ≠ 0 := by
      have hlow := hholds.success.1
      omega
    rw [status_replay, readHit_status hholds, if_neg hne]
  have hcontent : (readHit key fields).contentType = e.header.get "Content-Type" := by
    show Hash.field fields "content_type" = _
    rw [Hash.field, hholds.contentType]
    rfl
  have hreplayed : (replay outer (readHit key fields)).body = sentBody e.calls := by
    show (Hash.field fields "response_body").toList = _
    rw [Hash.field, hbody, ← hsent]
    rfl
  rw [Response.representation, hstatus, htype, hcontent, hcodings, hreplayed]
  rfl

theorem lookup_spec {redis : Redis} {exactKey scopeHash : String} {now : Int} {hit : LookupResult}
    (hlookup : Lookup redis exactKey scopeHash now hit) :
    ∃ fields, redis hit.key = some fields ∧ isCurrent fields scopeHash now = true ∧
      hit = readHit hit.key fields := by
  cases hlookup with
  | exact hhit =>
      unfold lookupExact at hhit
      split at hhit
      · cases hhit
      · rename_i fields hfields
        split at hhit
        · rename_i hcurrent
          obtain rfl := Option.some.inj hhit
          exact ⟨fields, hfields, hcurrent, rfl⟩
        · cases hhit
  | semantic hnone hfields hcurrent => exact ⟨_, hfields, hcurrent, rfl⟩

theorem expires_of_current {fields : Hash} {scopeHash : String} {now : Int}
    (hcurrent : isCurrent fields scopeHash now = true) : (fields "expires_at").isSome := by
  cases hexpires : fields "expires_at" with
  | some value => rfl
  | none =>
      have hnone : atoi (fields.field "expires_at") = none := by
        rw [Hash.field, hexpires]
        decide
      rw [isCurrent, hnone, Bool.and_false] at hcurrent
      cases hcurrent

/-- Whatever was stored and served before, the response a hit writes represents what the stored one
does exactly if the stored one has no content coding. -/
theorem replay_faithful_iff (sha : Sha256) (floats : FloatCodec) (config : Config)
    (events : List Event) (w : World) (hrun : Run (Step sha floats config) World.empty events w)
    (r : Request) (now : Int) (hit : LookupResult) (hserved : Served sha floats config w r now hit)
    (outer : OuterHeader) :
    ∃ e, w.stored hit.key = some e ∧
      ((replay outer hit).representation = e.representation ↔ codings e.header = []) := by
  obtain ⟨c, -, hlookup⟩ := hserved
  obtain ⟨fields, hfields, hcurrent, hread⟩ := lookup_spec hlookup
  obtain ⟨e, hstored, hholds⟩ :=
    faithful_run hrun hit.key fields hfields (expires_of_current hcurrent)
  refine ⟨e, hstored, ?_⟩
  rw [hread, replay_representation outer hholds]
  constructor
  · intro heq
    exact (congrArg Representation.contentEncoding heq).symm
  · intro hnone
    rw [Exchange.representation, hnone]

/-! ### A store and a hit -/

/-- What was just stored is current until it runs out. -/
theorem isCurrent_store (redis : Redis) (entry : Entry) {now expiresAt : Int}
    (hexpires : atoi (toString entry.expiresAt) = some expiresAt) (hcurrent : now ≤ expiresAt) :
    ∃ fields, store redis entry entry.key = some fields ∧
      isCurrent fields entry.scopeHash now = true := by
  obtain ⟨fields, hfields⟩ : ∃ fields, store redis entry entry.key = some fields := ⟨_, if_pos rfl⟩
  have hvalue : fields.field "scope_hash" = entry.scopeHash ∧
      fields.field "expires_at" = toString entry.expiresAt := by
    have hput : store redis entry entry.key = _ := if_pos rfl
    rw [hput] at hfields
    obtain rfl := Option.some.inj hfields
    exact ⟨rfl, rfl⟩
  refine ⟨fields, hfields, ?_⟩
  rw [isCurrent, hvalue.1, hvalue.2, hexpires]
  simp [hcurrent]

/-- A request is served at once from what was stored for it. -/
theorem served_of_stored {sha : Sha256} {floats : FloatCodec} {config : Config} {w : World}
    {r : Request} {c : CacheRequest} {vector : String} {e : Exchange} {now expiresAt : Int}
    {entry : Entry} (hadmitted : admitted sha floats r = some c)
    (hentry : entryOf sha config c vector e now = some entry)
    (hexpires : atoi (toString (now + config.ttl)) = some expiresAt) (hcurrent : now ≤ expiresAt) :
    ∃ hit, Served sha floats config (w.keep entry e) r now hit ∧ hit.key = entry.key := by
  obtain ⟨hkey, hscope, hends⟩ := entryOf_key hentry
  obtain ⟨fields, hfields, hfresh⟩ :=
    isCurrent_store w.redis entry (by rw [hends]; exact hexpires) hcurrent
  refine ⟨readHit entry.key fields, ⟨c, hadmitted, .exact ?_⟩, rfl⟩
  have hstored : (w.keep entry e).redis entry.key = some fields := hfields
  rw [← hkey, ← hscope, lookupExact, hstored]
  exact if_pos hfresh

def config : Config := { keyPrefix := "coremesh:semantic:entry:", ttl := 86400 }

def answer (header : Header) : Exchange where
  header := header.set "Content-Type" "application/json"
  calls := [.writeHeader 200, .write ⟨['\x1f', '\x8b'], 2, false, fun _ => rfl⟩]

/-- After a first request has been answered, the same request is served from its entry. -/
theorem answered (header : Header) :
    ∃ w hit, Run (Step hexSha literalFloats config) World.empty
        [.handled unseeded "" (answer header) 0] w ∧
      Served hexSha literalFloats config w unseeded 0 hit ∧
      w.stored hit.key = some (answer header) := by
  have heligible : (admitted hexSha literalFloats unseeded).isSome := by decide +kernel
  obtain ⟨c, hc⟩ := Option.isSome_iff_exists.mp heligible
  obtain ⟨entry, hentry⟩ : ∃ entry, entryOf hexSha config c "" (answer header) 0 = some entry :=
    ⟨_, rfl⟩
  have hexpires : atoi (toString ((0 : Int) + config.ttl)) = some 86400 := by decide
  obtain ⟨hit, hserved, hkey⟩ : ∃ hit, Served hexSha literalFloats config
      (World.empty.keep entry (answer header)) unseeded 0 hit ∧ hit.key = entry.key :=
    served_of_stored hc hentry hexpires (by decide)
  refine ⟨World.empty.keep entry (answer header), hit, .single (.stored hc hentry), hserved, ?_⟩
  rw [hkey]
  exact if_pos rfl

def noOuter : OuterHeader := ⟨Header.empty, rfl, rfl⟩

theorem replay_faithful_iff_plain :
    ∃ (w : World) (hit : LookupResult), w.stored hit.key = some (answer Header.empty) ∧
      ((replay noOuter hit).representation = (answer Header.empty).representation ↔
        codings (answer Header.empty).header = []) := by
  obtain ⟨w, hit, hrun, hserved, hstored⟩ := answered Header.empty
  obtain ⟨e, he, hiff⟩ :=
    replay_faithful_iff hexSha literalFloats config _ w hrun unseeded 0 hit hserved noOuter
  rw [hstored] at he
  obtain rfl := Option.some.inj he
  exact ⟨w, hit, hstored, hiff⟩

/-- A compressed response is replayed without its coding. -/
theorem not_replay_faithful_of_gzip :
    ∃ w hit, Run (Step hexSha literalFloats config) World.empty
        [.handled unseeded "" (answer (Header.empty.set "Content-Encoding" "gzip")) 0] w ∧
      Served hexSha literalFloats config w unseeded 0 hit ∧
      w.stored hit.key = some (answer (Header.empty.set "Content-Encoding" "gzip")) ∧
      (replay noOuter hit).representation
        ≠ (answer (Header.empty.set "Content-Encoding" "gzip")).representation := by
  obtain ⟨w, hit, hrun, hserved, hstored⟩ := answered (Header.empty.set "Content-Encoding" "gzip")
  refine ⟨w, hit, hrun, hserved, hstored, fun heq => ?_⟩
  have hreplayed := (replay_header noOuter hit).2
  have hcodings := congrArg Representation.contentEncoding heq
  have hsent : codings (answer (Header.empty.set "Content-Encoding" "gzip")).header = ["gzip"] := by
    decide
  change codings (replay noOuter hit).header
    = codings (answer (Header.empty.set "Content-Encoding" "gzip")).header at hcodings
  rw [hreplayed, hsent] at hcodings
  cases hcodings

end CoreMesh.Cache
