import CoreMesh.Http.Header
import CoreMesh.Http.Url

/-!
# Replaying a request on the fallback

What a request looks like when it leaves for an upstream: the director of `newSingleHostProxy`, then
the changes `httputil.ReverseProxy` makes to the headers of every request it sends. A request that
goes to the fallback while the circuit is open passes here once. A request replayed after a failure
has been through the primary's pass before, because `ErrorHandler` is given the outgoing request.
-/

namespace CoreMesh.Gateway

open CoreMesh.Http

/-- `RemoteAddr` as the server fills it in for a TCP peer. -/
structure HostPort where
  host : String
  port : String
  deriving DecidableEq, Repr

structure Request where
  url : URL
  host : String
  header : Header
  /-- The bytes still to be read, or none for a nil body or `http.NoBody`. -/
  body : Option (List UInt8)
  contentLength : Int
  remoteAddr : HostPort
  /-- The context value under `replayableBodyKey`. -/
  replayableBody : Option (List UInt8) := none

def xForwardedHost : String := "X-Forwarded-Host"

def xForwardedFor : String := "X-Forwarded-For"

/-- The director that `newSingleHostProxy` installs. -/
def director (target : URL) (r : Request) : Request :=
  { r with
    url := rewriteRequestURL r.url target
    host := target.host
    header := if r.host ≠ "" then r.header.set xForwardedHost r.host else r.header }

def hopHeaders : List String :=
  ["Connection", "Proxy-Connection", "Keep-Alive", "Proxy-Authenticate", "Proxy-Authorization",
    "Te", "Trailer", "Transfer-Encoding", "Upgrade"]

/-- The headers a `Connection` header names. -/
def connectionHeaders (h : Header) : List String :=
  ((h.values "Connection").flatMap commaTokens).filter (· ≠ "")

def removeHopByHopHeaders (h : Header) : Header :=
  (connectionHeaders h ++ hopHeaders).foldl Header.del h

def upgradeType (h : Header) : String :=
  if headerValuesContainsToken (h.values "Connection") "Upgrade" then h.get "Upgrade" else ""

/-- `ascii.IsPrint`. -/
def isPrint (s : String) : Bool := s.toList.all fun c => 32 ≤ c.toNat && c.toNat ≤ 126

/-- The client's address after those of the proxies before it. -/
def appendForwardedFor (prior : List String) (clientIP : String) : String :=
  if prior.isEmpty then clientIP else String.intercalate ", " prior ++ ", " ++ clientIP

/-- The headers `ReverseProxy.ServeHTTP` sends: `received` as it got them, `directed` as its director
left them. -/
def outgoingHeader (received directed : Header) (clientIP : String) : Header :=
  let reqUpType := upgradeType directed
  let h := removeHopByHopHeaders directed
  let h := if headerValuesContainsToken (received.values "Te") "trailers" then h.set "Te" "trailers"
    else h
  let h := if reqUpType ≠ "" then (h.set "Connection" "Upgrade").set "Upgrade" reqUpType else h
  let h := h.set xForwardedFor (appendForwardedFor (h.values xForwardedFor) clientIP)
  if (h.values "User-Agent").isEmpty then h.set "User-Agent" "" else h

/-- The request `ReverseProxy.ServeHTTP` hands to its transport, unless it rejects the upgrade. -/
def forward (target : URL) (r : Request) : Option Request :=
  let out := director target r
  if isPrint (upgradeType out.header) then
    some { out with
      body := if r.contentLength = 0 then none else r.body
      header := outgoingHeader r.header out.header r.remoteAddr.host }
  else none

/-- `cloneWithReplayableBody` when the body can be read. -/
def cloneWithReplayableBody (r : Request) : Request :=
  match r.body with
  | none => r
  | some body =>
      { r with
        body := some body
        contentLength := body.length
        replayableBody := some body }

def resetReplayableBody (r : Request) : Request :=
  match r.replayableBody with
  | none => r
  | some body => { r with body := some body, contentLength := body.length }

/-- Routed to the fallback by an open circuit. -/
def sendDirect (fallback : URL) (r : Request) : Option Request :=
  forward fallback r

/-- Sent to primary, whose transport read `consumed` bytes of the body before the attempt failed, and
replayed on the fallback by `ErrorHandler`. -/
def sendReplayed (primary fallback : URL) (r : Request) (consumed : Nat) : Option Request := do
  let out ← forward primary (cloneWithReplayableBody r)
  forward fallback (resetReplayableBody { out with body := out.body.map (·.drop consumed) })

/-- What the upstream can tell of a request. -/
structure Received where
  path : String
  rawQuery : String
  forwardedHost : List String
  forwardedFor : List String
  body : List UInt8
  deriving DecidableEq, Repr

def Request.received (r : Request) : Received where
  path := r.url.escapedPath
  rawQuery := r.url.rawQuery
  forwardedHost := r.header.values xForwardedHost
  forwardedFor := r.header.values xForwardedFor
  body := r.body.getD []

/-! ### One pass -/

theorem values_director_of_ne (target : URL) (r : Request) {key : String}
    (hne : canonicalHeaderKey key ≠ canonicalHeaderKey xForwardedHost) :
    (director target r).header.values key = r.header.values key :=
  Header.values_ite_set_of_ne _ _ hne

theorem connection_director (target : URL) (r : Request) :
    connectionHeaders (director target r).header = connectionHeaders r.header ∧
      upgradeType (director target r).header = upgradeType r.header := by
  have hconnection : (director target r).header.values "Connection"
      = r.header.values "Connection" := values_director_of_ne _ _ (by decide)
  have hupgrade : (director target r).header.values "Upgrade" = r.header.values "Upgrade" :=
    values_director_of_ne _ _ (by decide)
  constructor
  · unfold connectionHeaders
    rw [hconnection]
  · unfold upgradeType Header.get
    rw [hconnection, hupgrade]

/-- Whether a pass drops the headers under `key`. -/
def Dropped (h : Header) (key : String) : Prop :=
  canonicalHeaderKey key ∈ (connectionHeaders h ++ hopHeaders).map canonicalHeaderKey

instance (h : Header) (key : String) : Decidable (Dropped h key) :=
  inferInstanceAs (Decidable (_ ∈ _))

theorem values_removeHopByHopHeaders (h : Header) (key : String) :
    (removeHopByHopHeaders h).values key = if Dropped h key then [] else h.values key := by
  unfold removeHopByHopHeaders
  rw [Header.values_foldl_del]
  rfl

theorem dropped_director (target : URL) (r : Request) (key : String) :
    Dropped (director target r).header key ↔ Dropped r.header key := by
  unfold Dropped
  rw [(connection_director target r).1]

/-- The headers on the way to `X-Forwarded-For`, which a pass writes last but one. -/
def upgradedHeader (received directed : Header) : Header :=
  let h := removeHopByHopHeaders directed
  let h := if headerValuesContainsToken (received.values "Te") "trailers" then h.set "Te" "trailers"
    else h
  if upgradeType directed ≠ "" then (h.set "Connection" "Upgrade").set "Upgrade" (upgradeType directed)
  else h

theorem outgoingHeader_values_of_ne (received directed : Header) (clientIP : String) {key : String}
    (hfor : canonicalHeaderKey key ≠ canonicalHeaderKey xForwardedFor)
    (hagent : canonicalHeaderKey key ≠ canonicalHeaderKey "User-Agent") :
    (outgoingHeader received directed clientIP).values key =
      (upgradedHeader received directed).values key := by
  unfold outgoingHeader
  dsimp only
  rw [Header.values_ite_set_of_ne _ _ hagent, Header.values_set_of_ne _ _ hfor]
  rfl

theorem upgradedHeader_values_of_ne (received directed : Header) {key : String}
    (hte : canonicalHeaderKey key ≠ canonicalHeaderKey "Te")
    (hconnection : canonicalHeaderKey key ≠ canonicalHeaderKey "Connection")
    (hupgrade : canonicalHeaderKey key ≠ canonicalHeaderKey "Upgrade") :
    (upgradedHeader received directed).values key = (removeHopByHopHeaders directed).values key := by
  unfold upgradedHeader
  dsimp only
  split
  · rw [Header.values_set_of_ne _ _ hupgrade, Header.values_set_of_ne _ _ hconnection,
      Header.values_ite_set_of_ne _ _ hte]
  · exact Header.values_ite_set_of_ne _ _ hte

theorem forwardedHost_outgoingHeader (received directed : Header) (clientIP : String) :
    (outgoingHeader received directed clientIP).values xForwardedHost
      = (removeHopByHopHeaders directed).values xForwardedHost := by
  rw [outgoingHeader_values_of_ne _ _ _ (by decide) (by decide),
    upgradedHeader_values_of_ne _ _ (by decide) (by decide) (by decide)]

theorem forwardedFor_outgoingHeader (received directed : Header) (clientIP : String) :
    (outgoingHeader received directed clientIP).values xForwardedFor
      = [appendForwardedFor ((removeHopByHopHeaders directed).values xForwardedFor) clientIP] := by
  have hprior : (upgradedHeader received directed).values xForwardedFor =
      (removeHopByHopHeaders directed).values xForwardedFor :=
    upgradedHeader_values_of_ne _ _ (by decide) (by decide) (by decide)
  unfold outgoingHeader
  dsimp only
  rw [Header.values_ite_set_of_ne _ _ (by decide), Header.values_set_self]
  exact congrArg (fun prior => [appendForwardedFor prior clientIP]) hprior

/-- What a pass leaves of the connection headers is the upgrade it goes on asking for. -/
theorem connection_outgoingHeader (received directed : Header) (clientIP : String) :
    (outgoingHeader received directed clientIP).values "Connection"
        = (if upgradeType directed ≠ "" then ["Upgrade"] else []) ∧
      (outgoingHeader received directed clientIP).values "Upgrade"
        = if upgradeType directed ≠ "" then [upgradeType directed] else [] := by
  have hgone : ∀ key ∈ hopHeaders, (removeHopByHopHeaders directed).values key = [] := by
    intro key hkey
    rw [values_removeHopByHopHeaders, if_pos]
    exact List.mem_map.mpr ⟨key, List.mem_append_right _ hkey, rfl⟩
  have hconnection := hgone "Connection" (by decide)
  have hupgrade := hgone "Upgrade" (by decide)
  constructor
  · rw [outgoingHeader_values_of_ne _ _ _ (by decide) (by decide), upgradedHeader]
    split
    · rw [Header.values_set_of_ne _ _ (by decide), Header.values_set_self]
    · rw [Header.values_ite_set_of_ne _ _ (by decide), hconnection]
  · rw [outgoingHeader_values_of_ne _ _ _ (by decide) (by decide), upgradedHeader]
    split
    · rw [Header.values_set_self]
    · rw [Header.values_ite_set_of_ne _ _ (by decide), hupgrade]

/-- The client address a request's first pass reports. -/
def forwardedForOnce (r : Request) : String :=
  appendForwardedFor (if Dropped r.header xForwardedFor then [] else r.header.values xForwardedFor)
    r.remoteAddr.host

/-- The forwarded host a request's first pass reports. -/
def forwardedHostOnce (r : Request) : List String :=
  if Dropped r.header xForwardedHost then []
  else if r.host ≠ "" then [r.host] else r.header.values xForwardedHost

/-- The upgrade a request asks for, as the one token a pass leaves. -/
def upgradeOnce (r : Request) : List String :=
  if upgradeType r.header ≠ "" then ["Upgrade"] else []

theorem forward_isSome (target : URL) {r : Request} (hprint : isPrint (upgradeType r.header) = true) :
    ∃ out, forward target r = some out := by
  unfold forward
  dsimp only
  rw [(connection_director target r).2, if_pos hprint]
  exact ⟨_, rfl⟩

theorem upgradeType_of_values {h : Header} {up : String}
    (hconnection : h.values "Connection" = if up ≠ "" then ["Upgrade"] else [])
    (hupgrade : h.values "Upgrade" = if up ≠ "" then [up] else []) : upgradeType h = up := by
  unfold upgradeType Header.get
  rw [hconnection, hupgrade]
  by_cases hup : up = ""
  · simp [hup, headerValuesContainsToken]
  · have htoken : headerValuesContainsToken ["Upgrade"] "Upgrade" = true := by decide
    simp [hup, htoken]

/-- Everything a pass does to a request that the upstream, or a second pass, can see. -/
structure Forwarded (target : URL) (r out : Request) : Prop where
  url : out.url = rewriteRequestURL r.url target
  host : out.host = target.host
  remoteAddr : out.remoteAddr = r.remoteAddr
  replayableBody : out.replayableBody = r.replayableBody
  contentLength : out.contentLength = r.contentLength
  body : out.body = if r.contentLength = 0 then none else r.body
  forwardedFor : out.header.values xForwardedFor = [forwardedForOnce r]
  forwardedHost : out.header.values xForwardedHost = forwardedHostOnce r
  connection : out.header.values "Connection" = upgradeOnce r
  upgrade : upgradeType out.header = upgradeType r.header

theorem forward_spec {target : URL} {r out : Request} (hsent : forward target r = some out) :
    Forwarded target r out := by
  have hdirected := connection_director target r
  unfold forward at hsent
  dsimp only at hsent
  split at hsent
  · obtain rfl := Option.some.inj hsent
    have hpass := connection_outgoingHeader r.header (director target r).header r.remoteAddr.host
    rw [hdirected.2] at hpass
    refine ⟨rfl, rfl, rfl, rfl, rfl, rfl, ?_, ?_, hpass.1, ?_⟩
    · show (outgoingHeader _ _ _).values _ = _
      have hdropped : Dropped (director target r).header xForwardedFor ↔
          Dropped r.header xForwardedFor := dropped_director target r _
      have hprior : (director target r).header.values xForwardedFor
          = r.header.values xForwardedFor := values_director_of_ne _ _ (by decide)
      rw [forwardedFor_outgoingHeader, values_removeHopByHopHeaders, hprior]
      simp only [hdropped, forwardedForOnce]
    · show (outgoingHeader _ _ _).values _ = _
      have hdropped : Dropped (director target r).header xForwardedHost ↔
          Dropped r.header xForwardedHost := dropped_director target r _
      have hset : (director target r).header.values xForwardedHost
          = if r.host ≠ "" then [r.host] else r.header.values xForwardedHost := by
        unfold director
        dsimp only
        split
        · exact Header.values_set_self _ _ _
        · rfl
      rw [forwardedHost_outgoingHeader, values_removeHopByHopHeaders, hset]
      simp only [hdropped, forwardedHostOnce]
    · exact upgradeType_of_values hpass.1 hpass.2
  · cases hsent

/-! ### The second pass

The primary's pass leaves no `Connection` header that could make the fallback's pass drop a forwarded
header, so the fallback's pass adds to what is there. -/

theorem dropped_after_pass {h : Header} {r : Request} {key : String}
    (hconnection : h.values "Connection" = upgradeOnce r) (hdropped : Dropped h key) :
    canonicalHeaderKey key ∈ hopHeaders.map canonicalHeaderKey := by
  have htokens : commaTokens "Upgrade" = ["Upgrade"] := by decide
  unfold Dropped connectionHeaders at hdropped
  rw [hconnection, List.map_append, List.mem_append] at hdropped
  rcases hdropped with hnamed | hhop
  · unfold upgradeOnce at hnamed
    split at hnamed
    · have hup : canonicalHeaderKey key = canonicalHeaderKey "Upgrade" := by
        simpa [htokens] using hnamed
      exact List.mem_map.mpr ⟨"Upgrade", by decide, hup.symm⟩
    · simp at hnamed
  · exact hhop

theorem cloneWithReplayableBody_frame (r : Request) :
    (cloneWithReplayableBody r).header = r.header ∧ (cloneWithReplayableBody r).host = r.host ∧
      (cloneWithReplayableBody r).url = r.url ∧
      (cloneWithReplayableBody r).remoteAddr = r.remoteAddr := by
  unfold cloneWithReplayableBody
  split <;> exact ⟨rfl, rfl, rfl, rfl⟩

theorem resetReplayableBody_frame (r : Request) :
    (resetReplayableBody r).header = r.header ∧ (resetReplayableBody r).host = r.host ∧
      (resetReplayableBody r).url = r.url ∧ (resetReplayableBody r).remoteAddr = r.remoteAddr := by
  unfold resetReplayableBody
  split <;> exact ⟨rfl, rfl, rfl, rfl⟩

theorem sendReplayed_passes {primary fallback : URL} {r out : Request} {consumed : Nat}
    (hsent : sendReplayed primary fallback r consumed = some out) :
    ∃ first, Forwarded primary (cloneWithReplayableBody r) first ∧
      Forwarded fallback
        (resetReplayableBody { first with body := first.body.map (·.drop consumed) }) out := by
  unfold sendReplayed at hsent
  obtain ⟨first, hfirst, hsecond⟩ := Option.bind_eq_some_iff.mp hsent
  exact ⟨first, forward_spec hfirst, forward_spec hsecond⟩

theorem sendReplayed_isSome (primary fallback : URL) {r : Request} (consumed : Nat)
    (hprint : isPrint (upgradeType r.header) = true) :
    ∃ out, sendReplayed primary fallback r consumed = some out := by
  have hclone := (cloneWithReplayableBody_frame r).1
  obtain ⟨first, hfirst⟩ := forward_isSome primary
    (show isPrint (upgradeType (cloneWithReplayableBody r).header) = true by rwa [hclone])
  have hagain : isPrint (upgradeType
      (resetReplayableBody { first with body := first.body.map (·.drop consumed) }).header) = true := by
    rw [(resetReplayableBody_frame _).1, (forward_spec hfirst).upgrade, hclone]
    exact hprint
  obtain ⟨out, hout⟩ := forward_isSome fallback hagain
  exact ⟨out, by simp [sendReplayed, hfirst, hout]⟩

/-- On a replay the fallback receives what the primary's pass wrote, under its own base. -/
theorem received_sendReplayed {primary fallback : URL} {r out : Request} {consumed : Nat}
    (hsent : sendReplayed primary fallback r consumed = some out) :
    out.url = rewriteRequestURL (rewriteRequestURL r.url primary) fallback ∧
      out.received.forwardedFor = [forwardedForOnce r ++ ", " ++ r.remoteAddr.host] ∧
      out.received.forwardedHost
        = if primary.host ≠ "" then [primary.host] else forwardedHostOnce r := by
  obtain ⟨first, hone, htwo⟩ := sendReplayed_passes hsent
  obtain ⟨hheader, hhost, hurl, haddr⟩ := cloneWithReplayableBody_frame r
  have hreset :=
    resetReplayableBody_frame { first with body := first.body.map (·.drop consumed) }
  generalize resetReplayableBody { first with body := first.body.map (·.drop consumed) } = second
    at htwo hreset
  obtain ⟨hheader₂, hhost₂, hurl₂, haddr₂⟩ := hreset
  have hkeeps : ∀ key, canonicalHeaderKey key ∉ hopHeaders.map canonicalHeaderKey →
      ¬ Dropped first.header key := fun key hkey hdropped =>
    hkey (dropped_after_pass hone.connection hdropped)
  have hfor := hkeeps xForwardedFor (by decide)
  have hforwardedHost := hkeeps xForwardedHost (by decide)
  have hfirstFor : forwardedForOnce (cloneWithReplayableBody r) = forwardedForOnce r := by
    simp only [forwardedForOnce, hheader, haddr]
  have hfirstHost : forwardedHostOnce (cloneWithReplayableBody r) = forwardedHostOnce r := by
    simp only [forwardedHostOnce, hheader, hhost]
  refine ⟨?_, ?_, ?_⟩
  · rw [htwo.url, hurl₂, hone.url, hurl]
  · show out.header.values xForwardedFor = _
    have hsecond : forwardedForOnce second
        = appendForwardedFor [forwardedForOnce r] r.remoteAddr.host := by
      rw [← hfirstFor, ← hone.forwardedFor]
      simp only [forwardedForOnce, hheader₂, haddr₂, if_neg hfor, hone.remoteAddr, haddr]
    rw [htwo.forwardedFor, hsecond]
    simp [appendForwardedFor]
  · show out.header.values xForwardedHost = _
    have hsecond : forwardedHostOnce second
        = if primary.host ≠ "" then [primary.host] else forwardedHostOnce r := by
      rw [← hfirstHost, ← hone.forwardedHost]
      simp only [forwardedHostOnce, hheader₂, hhost₂, if_neg hforwardedHost, hone.host]
    rw [htwo.forwardedHost, hsecond]

theorem received_sendDirect {fallback : URL} {r out : Request}
    (hsent : sendDirect fallback r = some out) :
    out.url = rewriteRequestURL r.url fallback ∧
      out.received.forwardedFor = [forwardedForOnce r] ∧
      out.received.forwardedHost = forwardedHostOnce r := by
  have hone := forward_spec hsent
  exact ⟨hone.url, hone.forwardedFor, hone.forwardedHost⟩

/-! ### Where the two paths agree -/

/-- A request as the server hands it over: no replayable body yet, and a known length is right. -/
def Inbound (r : Request) : Prop :=
  r.replayableBody = none ∧
    ∀ body, r.body = some body → r.contentLength = -1 ∨ r.contentLength = body.length

/-- `GET /v1/models` for api.example, without headers or body. -/
def getModels : Request where
  url := { path := "/v1/models" }
  host := "api.example"
  header := .empty
  body := none
  contentLength := 0
  remoteAddr := { host := "10.0.0.9", port := "50000" }

/-- No request reaches the fallback the same way on both paths: a replay reports the client's address
twice. -/
theorem sendReplayed_ne_sendDirect (primary fallback : URL) (r : Request) (consumed : Nat)
    (hprint : isPrint (upgradeType r.header) = true) :
    ∃ direct replayed, sendDirect fallback r = some direct ∧
      sendReplayed primary fallback r consumed = some replayed ∧
      replayed.received ≠ direct.received := by
  obtain ⟨direct, hdirect⟩ := forward_isSome fallback hprint
  obtain ⟨replayed, hreplayed⟩ := sendReplayed_isSome primary fallback consumed hprint
  refine ⟨direct, replayed, hdirect, hreplayed, fun hsame => ?_⟩
  have hfor := congrArg Received.forwardedFor hsame
  rw [(received_sendReplayed hreplayed).2.1, (received_sendDirect hdirect).2.1] at hfor
  have hlength := congrArg String.length (List.head_eq_of_cons_eq hfor)
  have hcomma : ", ".length = 2 := rfl
  simp only [String.length_append, hcomma] at hlength
  omega

/-- A client at 10.0.0.9 reaches the fallback from the primary's pass as a proxy of itself. -/
theorem sendReplayed_ne_sendDirect_get :
    ∃ direct replayed,
      sendDirect { scheme := "http", host := "fallback:9000" } getModels = some direct ∧
        sendReplayed { scheme := "http", host := "primary:9000" }
          { scheme := "http", host := "fallback:9000" } getModels 0 = some replayed ∧
        replayed.received ≠ direct.received :=
  sendReplayed_ne_sendDirect _ _ _ _ (by decide)

/-- Not every failed attempt is replayed as the fallback would have received it directly. -/
theorem not_sendReplayed_agrees :
    ¬ ∀ (primary fallback : URL) (r direct replayed : Request) (consumed : Nat), Inbound r →
      sendDirect fallback r = some direct →
      sendReplayed primary fallback r consumed = some replayed →
      replayed.received = direct.received := by
  intro hclaim
  have hinbound : Inbound getModels := ⟨rfl, fun body hbody => by cases hbody⟩
  have hsame := hclaim { scheme := "http", host := "primary:9000" }
    { scheme := "http", host := "fallback:9000" } getModels _ _ 0 hinbound rfl rfl
  have hfor : ["10.0.0.9, 10.0.0.9"] = ["10.0.0.9"] := congrArg Received.forwardedFor hsame
  exact absurd hfor (by decide)

end CoreMesh.Gateway
