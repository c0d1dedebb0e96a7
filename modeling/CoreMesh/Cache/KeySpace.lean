import CoreMesh.Cache.Replay

/-!
# The keys of the cache

Concurrent requests on the keys of the cache, one Redis command at a time. A request that is served
from a key counts the hit later, by a command of its own, and the key may have expired by then.
-/

namespace CoreMesh.Cache

open CoreMesh.Http Transition

/-! ### Commands -/

/-- A Redis key: its hash, and in how many seconds it expires, if it does. -/
structure StoredHash where
  fields : Hash
  ttl : Option Nat

abbrev KeySpace := String → Option StoredHash

def KeySpace.put (keys : KeySpace) (key : String) (h : Option StoredHash) : KeySpace := fun k =>
  if k = key then h else keys k

def KeySpace.hashes (keys : KeySpace) : Redis := fun key => (keys key).map StoredHash.fields

/-- The seconds `RedisStore.Store` lets an entry live, if any. -/
def ttlOf (config : Config) (entry : Entry) (now : Int) : Option Nat :=
  let ttl := if config.ttl ≤ 0 then entry.expiresAt - now else config.ttl
  if ttl ≤ 0 then none else some ttl.toNat

/-- `RedisStore.Store`: `HSET` and `EXPIRE` in one transaction. -/
def KeySpace.store (keys : KeySpace) (config : Config) (entry : Entry) (now : Int) : KeySpace :=
  match ttlOf config entry now with
  | none => keys
  | some ttl =>
      keys.put entry.key <| (Cache.store keys.hashes entry entry.key).map fun fields => ⟨fields, some ttl⟩

/-- `HINCRBY` of a key's hit count, which fails on a field that is no number or the largest one. -/
def KeySpace.incrementHitCount (keys : KeySpace) (key : String) : KeySpace :=
  match keys key with
  | none => keys.put key (some ⟨hset none [("hit_count", "1")], none⟩)
  | some h =>
      match atoi ((h.fields "hit_count").getD "0") with
      | none => keys
      | some count =>
          if count + 1 < 2 ^ 63 then
            keys.put key (some { h with fields := hset (some h.fields) [("hit_count", toString (count + 1))] })
          else keys

/-! ### Requests -/

/-- How far a request has got. -/
inductive Phase where
  | idle
  | lookingUp (c : CacheRequest)
  | searching (c : CacheRequest)
  | handling (c : CacheRequest)
  /-- The response has been written from the key, and the hit is to be counted. -/
  | counting (key : String)
  | done

structure Gateway where
  keys : KeySpace
  phase : Nat → Phase

def Gateway.start (keys : KeySpace) : Gateway := ⟨keys, fun _ => .idle⟩

def Gateway.move (g : Gateway) (i : Nat) (phase : Phase) : Gateway :=
  { g with phase := fun j => if j = i then phase else g.phase j }

inductive Command where
  | arrive (i : Nat) (r : Request)
  | getAll (i : Nat) (now : Int)
  | search (i : Nat) (now : Int) (found : Option String)
  | store (i : Nat) (vector : String) (e : Exchange) (now : Int)
  | count (i : Nat)
  /-- A request ends early: a command fails, or the client is gone. -/
  | leave (i : Nat)
  | expire (key : String)

section System

variable (sha : Sha256) (floats : FloatCodec) (config : Config)

def next (g : Gateway) : Command → Option Gateway
  | .arrive i r =>
      match g.phase i, admitted sha floats r with
      | .idle, some c => some (g.move i (.lookingUp c))
      | _, _ => none
  | .getAll i now =>
      match g.phase i with
      | .lookingUp c =>
          match lookupExact g.keys.hashes (entryKey sha config.keyPrefix c) c.scopeHash now with
          | some hit => some (g.move i (.counting hit.key))
          | none => some (g.move i (.searching c))
      | _ => none
  | .search i now found =>
      match g.phase i with
      | .searching c =>
          match found with
          | none => some (g.move i (.handling c))
          | some key =>
              if (g.keys.hashes key).any (isCurrent · c.scopeHash now) then
                some (g.move i (.counting key))
              else none
      | _ => none
  | .store i vector e now =>
      match g.phase i with
      | .handling c =>
          match entryOf sha config c vector e now with
          | some entry => some ({ g with keys := g.keys.store config entry now }.move i .done)
          | none => some (g.move i .done)
      | _ => none
  | .count i =>
      match g.phase i with
      | .counting key => some ({ g with keys := g.keys.incrementHitCount key }.move i .done)
      | _ => none
  | .leave i => some (g.move i .done)
  | .expire key =>
      match g.keys key with
      | some ⟨_, some _⟩ => some { g with keys := g.keys.put key none }
      | _ => none

/-- The commands have been carried out in this order. -/
abbrev Reaches (keys : KeySpace) (commands : List Command) (g : Gateway) : Prop :=
  Run (Steps (next sha floats config)) (Gateway.start keys) commands g

end System

/-! ### Whole hashes -/

/-- What a search finds an entry by, and what a hit reads. -/
def replayedFields : List String :=
  ["embedding", "scope_hash", "expires_at", "status", "content_type", "response_body"]

structure StoredHash.Whole (h : StoredHash) : Prop where
  fields : ∀ name ∈ replayedFields, (h.fields name).isSome
  ttl : h.ttl.isSome

def KeySpace.Whole (keys : KeySpace) : Prop := ∀ key h, keys key = some h → h.Whole

section Whole

variable {keys : KeySpace}

theorem KeySpace.Whole.put (hwhole : keys.Whole) {key : String} {h : Option StoredHash}
    (hkey : ∀ stored, h = some stored → stored.Whole) : (keys.put key h).Whole := by
  intro k stored hstored
  by_cases hk : k = key
  · rw [KeySpace.put, if_pos hk] at hstored
    exact hkey stored hstored
  · rw [KeySpace.put, if_neg hk] at hstored
    exact hwhole k stored hstored

theorem KeySpace.Whole.expire (hwhole : keys.Whole) (key : String) : (keys.put key none).Whole :=
  hwhole.put fun _ hnone => by cases hnone

/-- A transaction leaves a whole hash, whatever was there. -/
theorem KeySpace.Whole.store (hwhole : keys.Whole) (config : Config) (entry : Entry) (now : Int) :
    (keys.store config entry now).Whole := by
  rw [KeySpace.store]
  cases ttlOf config entry now with
  | none => exact hwhole
  | some ttl =>
      refine hwhole.put fun stored hstored => ?_
      obtain ⟨fields, hfields, rfl⟩ := Option.map_eq_some_iff.mp hstored
      obtain rfl := Option.some.inj ((if_pos rfl).symm.trans hfields)
      refine ⟨fun name hname => ?_, rfl⟩
      simp only [replayedFields, List.mem_cons, List.not_mem_nil, or_false] at hname
      obtain rfl | rfl | rfl | rfl | rfl | rfl := hname <;> rfl

theorem StoredHash.Whole.count {h : StoredHash} (hwhole : h.Whole) (count : String) :
    StoredHash.Whole { h with fields := hset (some h.fields) [("hit_count", count)] } := by
  refine ⟨fun name hname => ?_, hwhole.ttl⟩
  have hfield := hwhole.fields name hname
  simp only [replayedFields, List.mem_cons, List.not_mem_nil, or_false] at hname
  obtain rfl | rfl | rfl | rfl | rfl | rfl := hname <;> exact hfield

/-- A count on a key that is gone makes a hash that never expires. -/
theorem KeySpace.not_whole_incrementHitCount {key : String} (hkey : keys key = none) :
    ¬ (keys.incrementHitCount key).Whole := by
  rw [KeySpace.incrementHitCount, hkey]
  intro hwhole
  have hpart := hwhole key _ (if_pos rfl)
  exact absurd hpart.ttl Bool.false_ne_true

/-- A count leaves whole hashes exactly if its key is there. -/
theorem KeySpace.whole_incrementHitCount_iff (hwhole : keys.Whole) (key : String) :
    (keys.incrementHitCount key).Whole ↔ (keys key).isSome := by
  cases hkey : keys key with
  | none => exact iff_of_false (KeySpace.not_whole_incrementHitCount hkey) Bool.false_ne_true
  | some h =>
      refine iff_of_true ?_ rfl
      rw [KeySpace.incrementHitCount, hkey]
      dsimp only
      split
      · exact hwhole
      · split
        · refine hwhole.put fun stored hstored => ?_
          obtain rfl := Option.some.inj hstored
          exact (hwhole key h hkey).count _
        · exact hwhole

end Whole

/-! ### Runs -/

section Runs

variable {sha : Sha256} {floats : FloatCodec} {config : Config}

/-- What a command does to the keys: a hit that is counted is the only one that may leave part of a hash. -/
theorem keys_of_next {g g' : Gateway} {command : Command}
    (hstep : next sha floats config g command = some g') :
    (∃ i key, command = .count i ∧ g.phase i = .counting key ∧
        g'.keys = g.keys.incrementHitCount key) ∨
      (∀ i, command ≠ .count i) ∧ (g'.keys = g.keys ∨
        (∃ entry now, g'.keys = g.keys.store config entry now) ∨
        ∃ key, g'.keys = g.keys.put key none) := by
  cases command with
  | arrive i r =>
      refine .inr ⟨fun _ => Command.noConfusion, .inl ?_⟩
      rw [next] at hstep
      split at hstep
      · obtain rfl := Option.some.inj hstep
        rfl
      · cases hstep
  | getAll i now =>
      refine .inr ⟨fun _ => Command.noConfusion, .inl ?_⟩
      rw [next] at hstep
      split at hstep
      · split at hstep
        · obtain rfl := Option.some.inj hstep
          rfl
        · obtain rfl := Option.some.inj hstep
          rfl
      · cases hstep
  | search i now found =>
      refine .inr ⟨fun _ => Command.noConfusion, .inl ?_⟩
      rw [next] at hstep
      split at hstep
      · cases found with
        | none =>
            obtain rfl := Option.some.inj hstep
            rfl
        | some key =>
            dsimp only at hstep
            split at hstep
            · obtain rfl := Option.some.inj hstep
              rfl
            · cases hstep
      · cases hstep
  | store i vector e now =>
      refine .inr ⟨fun _ => Command.noConfusion, ?_⟩
      rw [next] at hstep
      split at hstep
      · split at hstep
        · obtain rfl := Option.some.inj hstep
          exact .inr (.inl ⟨_, now, rfl⟩)
        · obtain rfl := Option.some.inj hstep
          exact .inl rfl
      · cases hstep
  | count i =>
      rw [next] at hstep
      split at hstep
      · rename_i key hphase
        obtain rfl := Option.some.inj hstep
        exact .inl ⟨i, key, rfl, hphase, rfl⟩
      · cases hstep
  | leave i =>
      obtain rfl := Option.some.inj hstep
      exact .inr ⟨fun _ => Command.noConfusion, .inl rfl⟩
  | expire key =>
      refine .inr ⟨fun _ => Command.noConfusion, .inr (.inr ⟨key, ?_⟩)⟩
      rw [next] at hstep
      split at hstep
      · obtain rfl := Option.some.inj hstep
        rfl
      · cases hstep

/-- Whole hashes stay whole under every command but the count of a hit on a key that is gone. -/
theorem whole_of_next {g g' : Gateway} {command : Command} (hwhole : g.keys.Whole)
    (hstep : next sha floats config g command = some g') :
    g'.keys.Whole ↔ ∀ i key, command = .count i → g.phase i = .counting key → (g.keys key).isSome := by
  obtain ⟨i, key, rfl, hphase, hkeys⟩ | ⟨hnot, hkeys⟩ := keys_of_next hstep
  · rw [hkeys, KeySpace.whole_incrementHitCount_iff hwhole]
    constructor
    · intro hthere j key' hcount hphase'
      obtain rfl := Command.count.inj hcount
      obtain rfl := Phase.counting.inj (hphase.symm.trans hphase')
      exact hthere
    · exact fun hall => hall i key rfl hphase
  · refine iff_of_true ?_ fun i key hcount => absurd hcount (hnot i)
    obtain hkeys | ⟨entry, now, hkeys⟩ | ⟨key, hkeys⟩ := hkeys
    · rw [hkeys]
      exact hwhole
    · rw [hkeys]
      exact hwhole.store config entry now
    · rw [hkeys]
      exact hwhole.expire key

/-- Whenever a hit is counted, its key is still there, or there again. -/
def CountsKept (sha : Sha256) (floats : FloatCodec) (config : Config) (keys : KeySpace)
    (commands : List Command) : Prop :=
  ∀ before i after, commands = before ++ .count i :: after → ∀ g key,
    Reaches sha floats config keys before g → g.phase i = .counting key → (g.keys key).isSome

theorem next_unique (g : Gateway) (command : Command) (g₁ g₂ : Gateway)
    (h₁ : Steps (next sha floats config) g command g₁) (h₂ : Steps (next sha floats config) g command g₂) :
    g₁ = g₂ :=
  Option.some.inj (h₁.symm.trans h₂)

theorem CountsKept.of_front {keys : KeySpace} {before commands : List Command}
    (hkept : CountsKept sha floats config keys commands) (hbefore : before <+: commands) :
    CountsKept sha floats config keys before := by
  obtain ⟨rest, rfl⟩ := hbefore
  rintro done i after rfl g key hrun hphase
  exact hkept done i (after ++ rest) (List.append_assoc _ _ _) g key hrun hphase

theorem whole_of_countsKept {keys : KeySpace} (hkeys : keys.Whole) {commands : List Command}
    {g : Gateway} (hrun : Reaches sha floats config keys commands g)
    (hkept : CountsKept sha floats config keys commands) : g.keys.Whole := by
  refine hrun.history_invariant
    (fun done g => CountsKept sha floats config keys done → g.keys.Whole) (fun _ => hkeys) ?_ hkept
  intro done g command g' hdone ih hstep hkept
  refine (whole_of_next (ih (hkept.of_front (List.prefix_append _ _))) hstep).mpr ?_
  rintro i key rfl hphase
  exact hkept done i [] rfl g key hdone hphase

/-- From whole keys on, the keys are whole in every state of a run exactly if each hit that is counted
still has its key. -/
theorem whole_iff {keys : KeySpace} (hkeys : keys.Whole) {commands : List Command} {g : Gateway}
    (hrun : Reaches sha floats config keys commands g) :
    (∀ before g', before <+: commands → Reaches sha floats config keys before g' → g'.keys.Whole) ↔
      CountsKept sha floats config keys commands := by
  constructor
  · rintro hall before i after rfl g' key hbefore hphase
    obtain ⟨mid, after', hmid, hstep, -⟩ := hrun.at_event
    obtain rfl := Run.end_unique next_unique hbefore hmid
    have hwhole := hall before g' (List.prefix_append _ _) hbefore
    have hwhole' := hall (before ++ [.count i]) after'
      ⟨after, List.append_assoc _ _ _⟩ (.snoc hbefore hstep)
    exact (whole_of_next hwhole hstep).mp hwhole' i key rfl hphase
  · intro hkept before g' hfront hbefore
    exact whole_of_countsKept hkeys hbefore (hkept.of_front hfront)

section Steps

variable {g : Gateway} {i : Nat} {c : CacheRequest} {now : Int}

theorem step_arrive {r : Request} (hphase : g.phase i = .idle)
    (hadmitted : admitted sha floats r = some c) :
    Steps (next sha floats config) g (.arrive i r) (g.move i (.lookingUp c)) := by
  simp [Steps, next, hphase, hadmitted]

theorem step_getAll_none (hphase : g.phase i = .lookingUp c)
    (hmiss : lookupExact g.keys.hashes (entryKey sha config.keyPrefix c) c.scopeHash now = none) :
    Steps (next sha floats config) g (.getAll i now) (g.move i (.searching c)) := by
  simp [Steps, next, hphase, hmiss]

theorem step_getAll_some {hit : LookupResult} (hphase : g.phase i = .lookingUp c)
    (hhit : lookupExact g.keys.hashes (entryKey sha config.keyPrefix c) c.scopeHash now = some hit) :
    Steps (next sha floats config) g (.getAll i now) (g.move i (.counting hit.key)) := by
  simp [Steps, next, hphase, hhit]

theorem step_search_none (hphase : g.phase i = .searching c) :
    Steps (next sha floats config) g (.search i now none) (g.move i (.handling c)) := by
  simp [Steps, next, hphase]

theorem step_store {vector : String} {e : Exchange} {entry : Entry} (hphase : g.phase i = .handling c)
    (hentry : entryOf sha config c vector e now = some entry) :
    Steps (next sha floats config) g (.store i vector e now)
      (({ g with keys := g.keys.store config entry now } : Gateway).move i .done) := by
  simp [Steps, next, hphase, hentry]

theorem step_count {key : String} (hphase : g.phase i = .counting key) :
    Steps (next sha floats config) g (.count i)
      (({ g with keys := g.keys.incrementHitCount key } : Gateway).move i .done) := by
  simp [Steps, next, hphase]

theorem step_expire {key : String} {fields : Hash} {ttl : Nat}
    (hkey : g.keys key = some ⟨fields, some ttl⟩) :
    Steps (next sha floats config) g (.expire key) { g with keys := g.keys.put key none } := by
  simp [Steps, next, hkey]

end Steps

end Runs

/-! ### A hit on a key that expires -/

def noKeys : KeySpace := fun _ => none

theorem whole_noKeys : noKeys.Whole := fun _ _ hnone => by cases hnone

/-- A request is answered, and the same request is served from its entry. -/
def answeredTwice : List Command :=
  [.arrive 0 unseeded, .getAll 0 0, .search 0 0 none, .store 0 "" (answer Header.empty) 0,
    .arrive 1 unseeded, .getAll 1 0]

theorem reaches_answeredTwice : ∃ g key fields,
    Reaches hexSha literalFloats config noKeys answeredTwice g ∧ g.phase 1 = .counting key ∧
      g.keys key = some ⟨fields, some 86400⟩ := by
  have heligible : (admitted hexSha literalFloats unseeded).isSome := by decide +kernel
  obtain ⟨c, hc⟩ := Option.isSome_iff_exists.mp heligible
  obtain ⟨entry, hentry⟩ : ∃ entry, entryOf hexSha config c "" (answer Header.empty) 0 = some entry :=
    ⟨_, rfl⟩
  obtain ⟨hkey, hscope, hends⟩ := entryOf_key hentry
  have hexpires : atoi (toString entry.expiresAt) = some 86400 := by
    rw [hends]
    decide
  obtain ⟨fields, hfields, hfresh⟩ :=
    isCurrent_store noKeys.hashes entry hexpires (show (0 : Int) ≤ 86400 by decide)
  let keys := noKeys.store config entry 0
  have hkeys : keys entry.key = some ⟨fields, some 86400⟩ := by
    have hput : keys entry.key = (Cache.store noKeys.hashes entry entry.key).map fun fields =>
      ⟨fields, some 86400⟩ := if_pos rfl
    rw [hput, hfields]
    rfl
  have hhashes : keys.hashes entry.key = some fields := congrArg (Option.map StoredHash.fields) hkeys
  have hmiss : lookupExact noKeys.hashes (entryKey hexSha config.keyPrefix c) c.scopeHash 0 = none := rfl
  have hhit : lookupExact keys.hashes (entryKey hexSha config.keyPrefix c) c.scopeHash 0 =
      some (readHit entry.key fields) := by
    rw [← hkey, ← hscope, lookupExact, hhashes]
    exact if_pos hfresh
  let g := ((Gateway.start noKeys).move 0 (.lookingUp c)).move 0 (.searching c)
  have hmissed : Reaches hexSha literalFloats config noKeys [.arrive 0 unseeded, .getAll 0 0] g :=
    .snoc (.snoc .start (step_arrive rfl hc)) (step_getAll_none rfl hmiss)
  have hstored : Reaches hexSha literalFloats config noKeys
      [.arrive 0 unseeded, .getAll 0 0, .search 0 0 none, .store 0 "" (answer Header.empty) 0]
      (({ g.move 0 (.handling c) with keys := keys } : Gateway).move 0 .done) :=
    .snoc (.snoc hmissed (step_search_none rfl)) (step_store rfl hentry)
  exact ⟨_, entry.key, fields,
    .snoc (.snoc hstored (step_arrive rfl hc)) (step_getAll_some rfl hhit), rfl, hkeys⟩

theorem whole_iff_answeredTwice : ∃ g,
    Reaches hexSha literalFloats config noKeys (answeredTwice ++ [.count 1]) g ∧
      ∀ before g', before <+: answeredTwice ++ [.count 1] →
        Reaches hexSha literalFloats config noKeys before g' → g'.keys.Whole := by
  obtain ⟨g, key, fields, hrun, hphase, hkey⟩ := reaches_answeredTwice
  have hcounted := hrun.snoc (step_count hphase)
  refine ⟨_, hcounted, (whole_iff whole_noKeys hcounted).mpr ?_⟩
  intro before i after hcommands g' key' hbefore hphase'
  obtain ⟨-, rfl, hlast⟩ | ⟨after', -, hearlier⟩ := snoc_eq_append_cons hcommands
  · obtain rfl := Command.count.inj hlast
    obtain rfl := Run.end_unique next_unique hrun hbefore
    obtain rfl := Phase.counting.inj (hphase.symm.trans hphase')
    rw [hkey]
    rfl
  · have hnone : ∀ command ∈ answeredTwice, command ≠ .count i := by
      simp [answeredTwice]
    exact absurd rfl (hnone (.count i) (by rw [hearlier]; simp))

/-- A key that expires before its hit is counted comes back as a hash of the count alone, which has no
time to live. -/
theorem not_whole_of_expired : ∃ key g,
    Reaches hexSha literalFloats config noKeys (answeredTwice ++ [.expire key] ++ [.count 1]) g ∧
      ¬ g.keys.Whole := by
  obtain ⟨g, key, fields, hrun, hphase, hkey⟩ := reaches_answeredTwice
  refine ⟨key, _, .snoc (.snoc hrun (step_expire hkey)) (step_count hphase), ?_⟩
  exact KeySpace.not_whole_incrementHitCount (if_pos rfl)

end CoreMesh.Cache
