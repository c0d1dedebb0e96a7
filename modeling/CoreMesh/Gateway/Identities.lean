import CoreMesh.Autopilot.Router
import CoreMesh.Gateway.TokenBucket

/-!
# One bucket for each client

The key `rateLimitKey` and `Allow` give a request, and all the keys of the limiter in one Redis:
requests of any clients in any order, while any key may run out. What a client is answered depends on
the requests under its own key only.
-/

namespace CoreMesh.Gateway

open Transition Http Cache

def rateLimitRedisKeyPrefix : String := "coremesh:gateway:ratelimit:"

def anonymousRateLimitIdentity : String := "anonymous"

/-- What the limiter reads of a request. -/
structure Client where
  header : Header
  remoteAddr : String

def rateLimitKey (r : Client) : String :=
  let teamID := trimSpace (r.header.get "X-Team-ID")
  if teamID ≠ "" then teamID
  else
    let apiKey := trimSpace (r.header.get "X-API-Key")
    if apiKey ≠ "" then apiKey
    else
      match Autopilot.splitHost r.remoteAddr with
      | some host =>
          if host ≠ "" then host
          else if r.remoteAddr ≠ "" then r.remoteAddr
          else anonymousRateLimitIdentity
      | none => if r.remoteAddr ≠ "" then r.remoteAddr else anonymousRateLimitIdentity

/-- The key `Allow` hands to the script. -/
def redisKey (r : Client) : String :=
  let identity := trimSpace (rateLimitKey r)
  rateLimitRedisKeyPrefix ++ if identity = "" then anonymousRateLimitIdentity else identity

/-! ### The key of a host -/

/-- `net.JoinHostPort`, which is how a server writes the address of its peer. -/
def joinHostPort (host port : String) : String :=
  if host.toList.contains ':' then "[" ++ host ++ "]:" ++ port else host ++ ":" ++ port

/-- No team and no API key, and a connection from any port of the host. -/
structure Client.ComesFrom (r : Client) (host : String) : Prop where
  team : trimSpace (r.header.get "X-Team-ID") = ""
  apiKey : trimSpace (r.header.get "X-API-Key") = ""
  remote : ∃ port : String, r.remoteAddr = joinHostPort host port ∧
    ∀ c ∈ port.toList, c ≠ ':' ∧ c ≠ '[' ∧ c ≠ ']'

theorem splitHost_joinHostPort {host port : String} (hhost : ∀ c ∈ host.toList, c ≠ '[' ∧ c ≠ ']')
    (hport : ∀ c ∈ port.toList, c ≠ ':' ∧ c ≠ '[' ∧ c ≠ ']') :
    Autopilot.splitHost (joinHostPort host port) = some host := by
  have hcolon : ':' ∉ port.toList := fun hmem => (hport _ hmem).1 rfl
  have hopen : '[' ∉ port.toList := fun hmem => (hport _ hmem).2.1 rfl
  have hclose : ']' ∉ port.toList := fun hmem => (hport _ hmem).2.2 rfl
  have hopen' : '[' ∉ host.toList := fun hmem => (hhost _ hmem).1 rfl
  have hclose' : ']' ∉ host.toList := fun hmem => (hhost _ hmem).2 rfl
  unfold joinHostPort Autopilot.splitHost
  cases hliteral : host.toList.contains ':' with
  | true =>
      have htext : ("[" ++ host ++ "]:" ++ port).toList = '[' :: (host.toList ++ ']' :: ':' :: port.toList) := by
        simp
      have htake : (host.toList ++ ']' :: ':' :: port.toList).takeWhile (· != ']') = host.toList := by
        rw [List.takeWhile_append_of_pos (by simpa using fun c hc => (hhost c hc).2)]
        simp
      have hdrop : (host.toList ++ ']' :: ':' :: port.toList).dropWhile (· != ']') =
          ']' :: ':' :: port.toList := by
        rw [List.dropWhile_append_of_pos (by simpa using fun c hc => (hhost c hc).2)]
        simp
      simp only [if_true, htext, htake, hdrop]
      simp [hcolon, hopen, hclose, hopen']
  | false =>
      have hnone : ':' ∉ host.toList := by simpa using hliteral
      have htext : (host ++ ":" ++ port).toList = host.toList ++ ':' :: port.toList := by simp
      have hlast : ((host.toList ++ ':' :: port.toList).reverse.dropWhile (· != ':')).drop 1 =
          host.toList.reverse := by
        have hreverse : (host.toList ++ ':' :: port.toList).reverse =
            port.toList.reverse ++ ':' :: host.toList.reverse := by simp
        rw [hreverse, List.dropWhile_append_of_pos (by simpa using fun c hc => (hport c hc).1)]
        simp
      simp only [Bool.false_eq_true, if_false, htext, hlast]
      rw [if_neg (by simp)]
      split
      · rename_i rest hbracket
        have hmem : '[' ∈ host.toList ++ ':' :: port.toList := by rw [hbracket]; simp
        simp [hopen, hopen'] at hmem
      · simp [hnone, hopen, hclose, hopen', hclose']

/-- Whatever the port, requests of one host are under one key. -/
theorem redisKey_of_comesFrom {host : String} (hhost : ∀ c ∈ host.toList, c ≠ '[' ∧ c ≠ ']')
    (hsome : host ≠ "") {r r' : Client} (hfrom : r.ComesFrom host) (hfrom' : r'.ComesFrom host) :
    redisKey r = redisKey r' := by
  have hkey : ∀ r : Client, r.ComesFrom host → rateLimitKey r = host := by
    intro r hfrom
    obtain ⟨port, hremote, hport⟩ := hfrom.remote
    have hsplit := splitHost_joinHostPort hhost hport
    simp [rateLimitKey, hfrom.team, hfrom.apiKey, hremote, hsplit, hsome]
  simp [redisKey, hkey r hfrom, hkey r' hfrom']

/-! ### The keys of the limiter -/

namespace RedisTokenBucket

/-- All keys, the last reading of the clock, and what was answered when. -/
structure Limiter where
  state : String → Option Stored
  clock : ℚ
  answered : List (Client × ℚ × Reply)

def Limiter.start (clock : ℚ) : Limiter := ⟨fun _ => none, clock, []⟩

inductive Arrival where
  | request (client : Client) (now : ℚ)
  | vanish (key : String) (now : ℚ)

def Arrival.key : Arrival → String
  | .request client _ => redisKey client
  | .vanish key _ => key

def Arrival.event : Arrival → Event
  | .request _ now => .allow now
  | .vanish _ now => .vanish now

def limit (b : RedisTokenBucket) (l : Limiter) : Arrival → Option Limiter
  | .request client now =>
      if l.clock ≤ now then
        let (reply, stored) := b.allow now (l.state (redisKey client))
        some ⟨Function.update l.state (redisKey client) (some stored), now,
          l.answered ++ [(client, now, reply)]⟩
      else none
  | .vanish key now =>
      match l.state key with
      | none => none
      | some stored =>
          if l.clock ≤ now ∧ stored.expiresAt ≤ now then
            some ⟨Function.update l.state key none, now, l.answered⟩
          else none

/-- What the requests under one key were answered, oldest first. -/
def Limiter.answers (l : Limiter) (key : String) : List (ℚ × Reply) :=
  (l.answered.filter fun a => redisKey a.1 = key).map Prod.snd

/-- What happened to one key. -/
def own (key : String) (es : List Arrival) : List Event :=
  (es.filter fun e => e.key = key).map Arrival.event

/-! ### One key seen alone -/

/-- What the events of one key leave of it and answer, read off the events. -/
def replay (b : RedisTokenBucket) (es : List Event) : Option Stored × List (ℚ × Reply) :=
  es.foldl
    (fun (state, answers) e =>
      match e with
      | .allow now =>
          let (reply, stored) := b.allow now state
          (some stored, answers ++ [(now, reply)])
      | .vanish _ => (none, answers))
    (none, [])

theorem replay_snoc (b : RedisTokenBucket) (es : List Event) (e : Event) :
    b.replay (es ++ [e]) = match e with
      | .allow now => (some (b.allow now (b.replay es).1).2,
          (b.replay es).2 ++ [(now, (b.allow now (b.replay es).1).1)])
      | .vanish _ => (none, (b.replay es).2) := by
  rw [replay, List.foldl_append]
  cases e <;> rfl

theorem own_snoc (key : String) (es : List Arrival) (e : Arrival) :
    own key (es ++ [e]) = own key es ++ if e.key = key then [e.event] else [] := by
  simp only [own, List.filter_append, List.map_append]
  split <;> simp [*]

theorem limit_cases {b : RedisTokenBucket} {l l' : Limiter} {e : Arrival}
    (hstep : b.limit l e = some l') :
    (∃ client now, e = .request client now ∧ l.clock ≤ now ∧
      l' = ⟨Function.update l.state (redisKey client) (some (b.allow now (l.state (redisKey client))).2),
        now, l.answered ++ [(client, now, (b.allow now (l.state (redisKey client))).1)]⟩) ∨
    (∃ key now stored, e = .vanish key now ∧ l.clock ≤ now ∧ l.state key = some stored ∧
      stored.expiresAt ≤ now ∧ l' = ⟨Function.update l.state key none, now, l.answered⟩) := by
  cases e with
  | request client now =>
      simp only [limit] at hstep
      split at hstep
      · exact .inl ⟨client, now, rfl, ‹_›, (Option.some.inj hstep).symm⟩
      · cases hstep
  | vanish key now =>
      simp only [limit] at hstep
      split at hstep
      · cases hstep
      · rename_i stored hstate
        split at hstep
        · rename_i hgone
          exact .inr ⟨key, now, stored, rfl, hgone.1, hstate, hgone.2, (Option.some.inj hstep).symm⟩
        · cases hstep

theorem Limiter.answers_snoc (state : String → Option Stored) (clock : ℚ)
    (answered : List (Client × ℚ × Reply)) (client : Client) (now : ℚ) (reply : Reply) (key : String) :
    Limiter.answers ⟨state, clock, answered ++ [(client, now, reply)]⟩ key =
      Limiter.answers ⟨state, clock, answered⟩ key ++
        if redisKey client = key then [(now, reply)] else [] := by
  simp only [Limiter.answers, List.filter_append, List.map_append]
  split <;> simp [*]

/-- Among all keys each one goes through its own events as if it were alone. -/
theorem replay_own {b : RedisTokenBucket} {clock : ℚ} {es : List Arrival} {l : Limiter}
    (hrun : Run (Steps b.limit) (Limiter.start clock) es l) (key : String) :
    b.replay (own key es) = (l.state key, l.answers key) := by
  apply hrun.history_invariant (fun es l => b.replay (own key es) = (l.state key, l.answers key))
  · rfl
  · intro es l e l' _ ih hstep
    rw [own_snoc]
    rcases limit_cases hstep with ⟨client, now, rfl, -, rfl⟩ | ⟨gone, now, stored, rfl, -, -, -, rfl⟩
    · rw [Limiter.answers_snoc]
      by_cases hkey : redisKey client = key
      · subst hkey
        simp only [Arrival.key, if_true, replay_snoc, Arrival.event, ih, Function.update_self]
        rfl
      · have hother : (Arrival.request client now).key ≠ key := hkey
        have hne : key ≠ redisKey client := fun heq => hkey heq.symm
        rw [if_neg hother, if_neg hkey, List.append_nil, List.append_nil, ih]
        exact Prod.ext (Function.update_of_ne hne _ _).symm rfl
    · by_cases hkey : gone = key
      · subst hkey
        simp only [Arrival.key, if_true, replay_snoc, Arrival.event, ih, Function.update_self]
        rfl
      · have hother : (Arrival.vanish gone now).key ≠ key := hkey
        have hne : key ≠ gone := fun heq => hkey heq.symm
        rw [if_neg hother, List.append_nil, ih]
        exact Prod.ext (Function.update_of_ne hne _ _).symm rfl

/-- What a client is answered does not depend on other clients: two runs in which the same happens
under its key, whatever else happens in each of them and when, answer it the same and leave its key
with the same content. -/
theorem answers_isolated (b : RedisTokenBucket) (clock clock' : ℚ) (es es' : List Arrival)
    (l l' : Limiter) (key : String) (hrun : Run (Steps b.limit) (Limiter.start clock) es l)
    (hrun' : Run (Steps b.limit) (Limiter.start clock') es' l') (hown : own key es = own key es') :
    l.answers key = l'.answers key ∧ l.state key = l'.state key := by
  have heq := replay_own hrun key
  rw [hown, replay_own hrun' key] at heq
  obtain ⟨hstate, hanswers⟩ := Prod.mk.inj heq
  exact ⟨hanswers.symm, hstate.symm⟩

/-- A client without a team or an API key. -/
def visitor (remoteAddr : String) : Client := ⟨Header.empty, remoteAddr⟩

def busy : List Arrival :=
  [.request (visitor "10.0.0.7:5000") 0, .request (visitor "10.0.0.8:5000") 1,
    .request (visitor "10.0.0.7:5001") 2]

def quiet : List Arrival :=
  [.request (visitor "10.0.0.7:6000") 0, .request (visitor "10.0.0.7:6001") 2]

theorem own_busy : own (redisKey (visitor "10.0.0.7:5000")) busy =
    own (redisKey (visitor "10.0.0.7:5000")) quiet := by
  decide +kernel

theorem answers_isolated_busy : ∃ l l' : Limiter,
    l.answers (redisKey (visitor "10.0.0.7:5000")) = l'.answers (redisKey (visitor "10.0.0.7:5000")) ∧
    l.state (redisKey (visitor "10.0.0.7:5000")) = l'.state (redisKey (visitor "10.0.0.7:5000")) := by
  have hbusy : Run (Steps (newRedisTokenBucket 100 20).limit) (Limiter.start 0) busy _ :=
    run_iff_foldlM.mpr rfl
  have hquiet : Run (Steps (newRedisTokenBucket 100 20).limit) (Limiter.start 0) quiet _ :=
    run_iff_foldlM.mpr rfl
  exact ⟨_, _, answers_isolated _ 0 0 busy quiet _ _ _ hbusy hquiet own_busy⟩

/-! ### The bucket of one host -/

/-- When requests under one key were allowed. -/
def Limiter.admitted (l : Limiter) (key : String) : List ℚ :=
  ((l.answers key).filter fun a => a.2.allowed = 1).map Prod.fst

theorem run_own {b : RedisTokenBucket} {clock : ℚ} {es : List Arrival} {l : Limiter}
    (hrun : Run (Steps b.limit) (Limiter.start clock) es l) (key : String) :
    ∃ behind ≤ l.clock, Run (Steps b.next) (World.initial clock) (own key es)
      ⟨l.state key, behind, l.admitted key⟩ := by
  induction hrun with
  | start => exact ⟨clock, le_rfl, .start⟩
  | @snoc es l l' e _ hstep ih =>
      obtain ⟨behind, hbehind, ih⟩ := ih
      rw [own_snoc]
      rcases limit_cases hstep with ⟨client, now, rfl, hclock, rfl⟩ |
        ⟨gone, now, stored, rfl, hclock, hstate, hgone, rfl⟩
      · simp only [Limiter.admitted, Limiter.answers_snoc]
        by_cases hkey : redisKey client = key
        · subst hkey
          have hother : (Arrival.request client now).key = redisKey client := rfl
          refine ⟨now, le_rfl, ?_⟩
          rw [if_pos hother]
          apply ih.snoc
          simp only [Steps, Arrival.event, next, if_pos (hbehind.trans hclock), Function.update_self]
          congr 2
          split <;> simp [*, Limiter.admitted, Limiter.answers]
        · have hother : (Arrival.request client now).key ≠ key := hkey
          have hne : key ≠ redisKey client := fun heq => hkey heq.symm
          refine ⟨behind, hbehind.trans hclock, ?_⟩
          rw [if_neg hother, if_neg hkey, List.append_nil, List.append_nil, Function.update_of_ne hne]
          exact ih
      · by_cases hkey : gone = key
        · subst hkey
          have hother : (Arrival.vanish gone now).key = gone := rfl
          refine ⟨now, le_rfl, ?_⟩
          rw [if_pos hother]
          apply ih.snoc
          simp only [Steps, Arrival.event, next, hstate, Function.update_self]
          rw [if_pos ⟨hbehind.trans hclock, hgone⟩]
          rfl
        · have hother : (Arrival.vanish gone now).key ≠ key := hkey
          have hne : key ≠ gone := fun heq => hkey heq.symm
          refine ⟨behind, hbehind.trans hclock, ?_⟩
          rw [if_neg hother, List.append_nil]
          simp only [Function.update_of_ne hne]
          exact ih

/-- Within any time the clients of one host, which open connections from what ports they like, are
together allowed no more than the capacity and the refill, whoever else is served meanwhile. -/
theorem host_admissions_le (capacity : ℤ) (refillPerSecond clock : ℚ) (es : List Arrival) (l : Limiter)
    (host : String) (clients : Client → Bool) (t₁ t₂ : ℚ) (hcapacity : 1 ≤ capacity)
    (hrate : 0 < refillPerSecond) (hsix : sixDecimals refillPerSecond ≤ refillPerSecond)
    (hrun : Run (Steps (newRedisTokenBucket capacity refillPerSecond).limit) (Limiter.start clock) es l)
    (hhost : host ≠ "" ∧ ∀ c ∈ host.toList, c ≠ '[' ∧ c ≠ ']')
    (hclients : ∀ r, clients r = true → r.ComesFrom host) (hinterval : t₁ ≤ t₂) :
    ((Bucket.within ((l.answered.filter fun a => clients a.1 && a.2.2.allowed = 1).map
      fun a => a.2.1) t₁ t₂).length : ℚ) ≤ capacity + refillPerSecond * (t₂ - t₁) := by
  by_cases hsome : ∃ r, clients r = true
  · obtain ⟨r, hr⟩ := hsome
    obtain ⟨behind, -, hown⟩ := run_own hrun (redisKey r)
    have hbound := ((bounded_of_le hcapacity hrate hsix) _ _ _ hown).2 t₁ t₂ hinterval
    have hkey : ∀ a ∈ l.answered, clients a.1 && a.2.2.allowed = 1 →
        redisKey a.1 = redisKey r ∧ a.2.2.allowed = 1 := by
      intro a _ ha
      simp only [Bool.and_eq_true, decide_eq_true_eq] at ha
      exact ⟨redisKey_of_comesFrom hhost.2 hhost.1 (hclients _ ha.1) (hclients _ hr), ha.2⟩
    have hadmitted : l.admitted (redisKey r) =
        (l.answered.filter fun a => redisKey a.1 = redisKey r ∧ a.2.2.allowed = 1).map fun a => a.2.1 := by
      simp [Limiter.admitted, Limiter.answers, List.filter_map, List.filter_filter, Function.comp_def,
        and_comm]
    have hsub : ((l.answered.filter fun a => clients a.1 && a.2.2.allowed = 1).map
        fun a => a.2.1).Sublist (l.admitted (redisKey r)) := by
      rw [hadmitted]
      apply List.Sublist.map
      have hfilter : (l.answered.filter fun a => clients a.1 && a.2.2.allowed = 1) =
          (l.answered.filter fun a => redisKey a.1 = redisKey r ∧ a.2.2.allowed = 1).filter
            fun a => clients a.1 && a.2.2.allowed = 1 := by
        rw [List.filter_filter]
        apply List.filter_congr
        intro a ha
        by_cases hclient : (clients a.1 && a.2.2.allowed = 1) = true
        · simp [hkey a ha hclient]
        · simp [hclient]
      rw [hfilter]
      exact List.filter_sublist
    have hle := (hsub.filter fun t => t₁ ≤ t ∧ t ≤ t₂).length_le
    calc ((Bucket.within ((l.answered.filter fun a => clients a.1 && a.2.2.allowed = 1).map
          fun a => a.2.1) t₁ t₂).length : ℚ)
        ≤ (Bucket.within (l.admitted (redisKey r)) t₁ t₂).length := by exact_mod_cast hle
      _ ≤ capacity + refillPerSecond * (t₂ - t₁) := hbound
  · have hnone : ∀ r, clients r = false := by
      intro r
      by_contra hr
      exact hsome ⟨r, by simpa using hr⟩
    have hfull : (0 : ℚ) ≤ capacity := by exact_mod_cast (by omega : (0 : ℤ) ≤ capacity)
    have hrefill : 0 ≤ refillPerSecond * (t₂ - t₁) := mul_nonneg hrate.le (by linarith)
    simp only [hnone, Bool.false_and, List.filter_false, List.map_nil, Bucket.within, List.filter_nil,
      List.length_nil, Nat.cast_zero]
    linarith

/-- Two connections of one host. -/
def connections (r : Client) : Bool :=
  trimSpace (r.header.get "X-Team-ID") == "" && trimSpace (r.header.get "X-API-Key") == "" &&
    (r.remoteAddr == joinHostPort "10.0.0.7" "6000" || r.remoteAddr == joinHostPort "10.0.0.7" "6001")

theorem comesFrom_connections (r : Client) (hr : connections r = true) : r.ComesFrom "10.0.0.7" := by
  simp only [connections, Bool.and_eq_true, Bool.or_eq_true, beq_iff_eq] at hr
  obtain ⟨⟨hteam, hkey⟩, hremote | hremote⟩ := hr
  · exact ⟨hteam, hkey, "6000", hremote, by simp⟩
  · exact ⟨hteam, hkey, "6001", hremote, by simp⟩

theorem host_admissions_le_quiet : ∃ l : Limiter,
    ((Bucket.within ((l.answered.filter fun a => connections a.1 && a.2.2.allowed = 1).map
      fun a => a.2.1) 0 2).length : ℚ) ≤ (100 : ℤ) + 20 * (2 - 0) := by
  have hquiet : Run (Steps (newRedisTokenBucket 100 20).limit) (Limiter.start 0) quiet _ :=
    run_iff_foldlM.mpr rfl
  have hhost : "10.0.0.7" ≠ "" ∧ ∀ c ∈ "10.0.0.7".toList, c ≠ '[' ∧ c ≠ ']' := by simp
  have hsix : sixDecimals 20 ≤ 20 := by decide +kernel
  exact ⟨_, host_admissions_le 100 20 0 quiet _ "10.0.0.7" connections 0 2
    (by decide) (by norm_num) hsix hquiet hhost comesFrom_connections (by norm_num)⟩

end RedisTokenBucket

end CoreMesh.Gateway
