import Mathlib.Tactic.Common

/-!
# Response writers

What a handler does to an `http.ResponseWriter`, and the one `net/http` hands it. A writer is the
functions of its interface over a state; `none` is a panic.

An informational status is sent at once and leaves the response open, so nothing of it is kept. A
panic is raised only while no status is fixed, so no final response follows it.
-/

namespace CoreMesh.Http

structure ResponseWriter (W : Type) where
  writeHeader : W → Int → Option W
  /-- The count of bytes taken, and whether there was an error. -/
  write : W → List UInt8 → Option (W × Nat × Bool)
  flush : W → Option W
  /-- The chunks that the reader returns. -/
  readFrom : W → List (List UInt8) → Option W

/-- `io.Copy` through `Write`. -/
def copy {W : Type} (write : W → List UInt8 → Option (W × Nat × Bool)) :
    W → List (List UInt8) → Option W
  | w, [] => some w
  | w, chunk :: reads =>
      if chunk.isEmpty then copy write w reads
      else do
        let (w, n, failed) ← write w chunk
        if failed ∨ n ≠ chunk.length then some w else copy write w reads

/-- What a handler may call. -/
inductive Call where
  | writeHeader (statusCode : Int)
  | write (body : List UInt8)
  | flush
  | readFrom (reads : List (List UInt8))

/-- A reader of nothing. -/
def isEmptyRead (reads : List (List UInt8)) : Bool := reads.all List.isEmpty

namespace ResponseWriter

variable {W V : Type}

def call (rw : ResponseWriter W) (w : W) : Call → Option W
  | .writeHeader statusCode => rw.writeHeader w statusCode
  | .write body => (rw.write w body).map Prod.fst
  | .flush => rw.flush w
  | .readFrom reads => rw.readFrom w reads

def run (rw : ResponseWriter W) : W → List Call → Option W
  | w, [] => some w
  | w, c :: calls => (rw.call w c).bind fun w => run rw w calls

theorem copy_of_isEmptyRead {write : W → List UInt8 → Option (W × Nat × Bool)} (w : W)
    {reads : List (List UInt8)} (hempty : isEmptyRead reads) : copy write w reads = some w := by
  induction reads with
  | nil => rfl
  | cons chunk reads ih =>
      obtain ⟨hchunk, hreads⟩ : chunk.isEmpty ∧ isEmptyRead reads := by
        simpa [isEmptyRead] using hempty
      rw [copy, if_pos hchunk, ih hreads]

/-- A reader of something is copied alike from two states that a write takes alike. -/
theorem copy_congr {write : W → List UInt8 → Option (W × Nat × Bool)} {w w' : W}
    (hwrite : ∀ p, write w p = write w' p) {reads : List (List UInt8)} (hsome : ¬ isEmptyRead reads) :
    copy write w reads = copy write w' reads := by
  induction reads with
  | nil => exact absurd rfl hsome
  | cons chunk reads ih =>
      by_cases hchunk : chunk.isEmpty
      · rw [copy, copy, if_pos hchunk, if_pos hchunk]
        exact ih fun hreads => hsome (by rwa [isEmptyRead, List.all_cons, hchunk, Bool.true_and])
      · simp only [copy, if_neg hchunk, hwrite]

/-! ### Simulation -/

/-- Two writers that answer alike copy alike. -/
theorem copy_rel {write₁ : W → List UInt8 → Option (W × Nat × Bool)}
    {write₂ : V → List UInt8 → Option (V × Nat × Bool)} {R : W → V → Prop}
    (hwrite : ∀ {w v} p, R w v → ∃ w' v' answer, write₁ w p = some (w', answer) ∧
      write₂ v p = some (v', answer) ∧ R w' v')
    (reads : List (List UInt8)) {w : W} {v : V} (hrel : R w v) :
    ∃ w' v', copy write₁ w reads = some w' ∧ copy write₂ v reads = some v' ∧ R w' v' := by
  induction reads generalizing w v with
  | nil => exact ⟨w, v, rfl, rfl, hrel⟩
  | cons chunk reads ih =>
      by_cases hempty : chunk.isEmpty
      · simpa only [copy, if_pos hempty] using ih hrel
      · obtain ⟨w', v', ⟨n, failed⟩, hw, hv, hrel'⟩ := hwrite chunk hrel
        simp only [copy, if_neg hempty, hw, hv, Option.bind_eq_bind, Option.bind_some]
        split
        · exact ⟨w', v', rfl, rfl, hrel'⟩
        · exact ih hrel'

/-- Two writers that stay related over every call stay related over every run. -/
theorem run_rel {rw₁ : ResponseWriter W} {rw₂ : ResponseWriter V} {R : W → V → Prop}
    (hcall : ∀ {w v} c, R w v → ∃ w' v', rw₁.call w c = some w' ∧ rw₂.call v c = some v' ∧ R w' v')
    (calls : List Call) {w : W} {v : V} (hrel : R w v) :
    ∃ w' v', rw₁.run w calls = some w' ∧ rw₂.run v calls = some v' ∧ R w' v' := by
  induction calls generalizing w v with
  | nil => exact ⟨w, v, rfl, rfl, hrel⟩
  | cons c calls ih =>
      obtain ⟨w', v', hw, hv, hrel'⟩ := hcall c hrel
      simpa only [run, hw, hv, Option.bind_some] using ih hrel'

theorem copy_invariant {write : W → List UInt8 → Option (W × Nat × Bool)} {I : W → Prop}
    (hwrite : ∀ {w} p, I w → ∃ w' answer, write w p = some (w', answer) ∧ I w')
    (reads : List (List UInt8)) {w : W} (hinv : I w) :
    ∃ w', copy write w reads = some w' ∧ I w' := by
  obtain ⟨w', -, hcopy, -, -, hinv'⟩ : ∃ w' v', copy write w reads = some w' ∧
      copy write w reads = some v' ∧ w' = v' ∧ I w' := by
    refine copy_rel (R := fun w v => w = v ∧ I w) (fun {w v} p hrel => ?_) reads ⟨rfl, hinv⟩
    obtain ⟨rfl, hinv⟩ := hrel
    obtain ⟨w', answer, hw, hinv'⟩ := hwrite p hinv
    exact ⟨w', w', answer, hw, hw, rfl, hinv'⟩
  exact ⟨w', hcopy, hinv'⟩

theorem run_invariant {rw : ResponseWriter W} {I : W → Prop}
    (hcall : ∀ {w} c, I w → ∃ w', rw.call w c = some w' ∧ I w') (calls : List Call) {w : W}
    (hinv : I w) : ∃ w', rw.run w calls = some w' ∧ I w' := by
  obtain ⟨w', -, hrun, -, -, hinv'⟩ : ∃ w' v', rw.run w calls = some w' ∧
      rw.run w calls = some v' ∧ w' = v' ∧ I w' := by
    refine run_rel (R := fun w v => w = v ∧ I w) (fun {w v} c hrel => ?_) calls ⟨rfl, hinv⟩
    obtain ⟨rfl, hinv⟩ := hrel
    obtain ⟨w', hw, hinv'⟩ := hcall c hinv
    exact ⟨w', w', hw, hw, rfl, hinv'⟩
  exact ⟨w', hrun, hinv'⟩

end ResponseWriter

/-! ### The writer of net/http -/

def statusOK : Int := 200

/-- A code of the `1xx` kind other than `101`. -/
def isInformational (code : Int) : Bool := 100 ≤ code && code ≤ 199 && code != 101

theorem ne_of_isInformational {code : Int} (hinf : isInformational code) :
    code ≠ 0 ∧ code ≠ statusOK := by
  constructor
  · rintro rfl
    exact absurd hinf (by decide)
  · rintro rfl
    exact absurd hinf (by decide)

theorem not_isInformational_of_invalid {code : Int} (hinvalid : code < 100 ∨ 999 < code) :
    isInformational code = false := by
  simp only [isInformational, Bool.and_eq_false_iff, decide_eq_false_iff_not]
  omega

/-- No body goes with a `1xx`, a `204` or a `304`. -/
def bodyAllowedForStatus (code : Int) : Bool :=
  !((100 ≤ code && code ≤ 199) || code == 204 || code == 304)

structure Response where
  /-- None while no header was written. -/
  status : Option Int
  /-- Every chunk offered to the connection. -/
  offered : List (List UInt8)
  /-- What the connection took of them. -/
  body : List UInt8
  deriving DecidableEq

namespace Response

def new : Response := ⟨none, [], []⟩

def writeHeader (w : Response) (code : Int) : Option Response :=
  if w.status.isSome then some w
  else if code < 100 ∨ 999 < code then none
  else if isInformational code then some w
  else some { w with status := some code }

/-- The header is written before anything else, and only once. -/
def ensureHeader (w : Response) : Response := { w with status := some (w.status.getD statusOK) }

/-- `accepts` says how much of the last of the chunks offered is taken: less than all of it where the
declared length is exceeded or the connection fails. -/
def write (accepts : List (List UInt8) → Nat) (w : Response) (p : List UInt8) :
    Response × Nat × Bool :=
  let w := w.ensureHeader
  if p.isEmpty then (w, 0, false)
  else if !bodyAllowedForStatus (w.status.getD statusOK) then (w, 0, true)
  else
    let offered := w.offered ++ [p]
    let n := min (accepts offered) p.length
    ({ w with offered, body := w.body ++ p.take n }, n, n < p.length)

def writer (accepts : List (List UInt8) → Nat) : ResponseWriter Response where
  writeHeader := writeHeader
  write := fun w p => some (w.write accepts p)
  flush := fun w => some w.ensureHeader
  readFrom := copy fun w p => some (w.write accepts p)

/-- What the client has received once the handler returned. -/
structure Received where
  status : Int
  body : List UInt8
  deriving DecidableEq

def received (w : Response) : Received := ⟨w.status.getD statusOK, w.body⟩

variable {accepts : List (List UInt8) → Nat} {w : Response} {s : Int}

@[simp] theorem status_ensureHeader (w : Response) :
    w.ensureHeader.status = some (w.status.getD statusOK) := rfl

theorem ensureHeader_of_fixed (hfixed : w.status = some s) : w.ensureHeader = w := by
  cases w
  cases hfixed
  rfl

theorem writeHeader_of_fixed (hfixed : w.status = some s) (code : Int) :
    w.writeHeader code = some w := by
  simp [writeHeader, hfixed]

theorem writeHeader_of_open (hopen : w.status = none) (code : Int) :
    ((code < 100 ∨ 999 < code) ∧ w.writeHeader code = none) ∨
      (isInformational code ∧ w.writeHeader code = some w) ∨
      ((¬ (code < 100 ∨ 999 < code) ∧ ¬ isInformational code) ∧
        w.writeHeader code = some { w with status := some code }) := by
  by_cases hrange : code < 100 ∨ 999 < code
  · exact .inl ⟨hrange, by simp [writeHeader, hopen, hrange]⟩
  · by_cases hinf : isInformational code
    · exact .inr (.inl ⟨hinf, by simp [writeHeader, hopen, hrange, hinf]⟩)
    · exact .inr (.inr ⟨⟨hrange, hinf⟩, by simp [writeHeader, hopen, hrange, hinf]⟩)

@[simp] theorem ensureHeader_write (accepts : List (List UInt8) → Nat) (w : Response)
    (p : List UInt8) : w.ensureHeader.write accepts p = w.write accepts p := by
  rw [write, ensureHeader_of_fixed (status_ensureHeader w)]
  rfl

@[simp] theorem status_write (accepts : List (List UInt8) → Nat) (w : Response) (p : List UInt8) :
    (w.write accepts p).1.status = some (w.status.getD statusOK) := by
  unfold write
  dsimp only
  split
  · rfl
  · split <;> rfl

/-- A status once fixed stays. -/
theorem call_of_fixed (accepts : List (List UInt8) → Nat) (c : Call) (hfixed : w.status = some s) :
    ∃ w', (writer accepts).call w c = some w' ∧ w'.status = some s := by
  cases c with
  | writeHeader code => exact ⟨w, writeHeader_of_fixed hfixed code, hfixed⟩
  | write body => exact ⟨_, rfl, by simp [hfixed]⟩
  | flush => exact ⟨_, rfl, by simp [hfixed]⟩
  | readFrom reads =>
      refine ResponseWriter.copy_invariant (fun {w} p hfixed => ?_) reads hfixed
      have hkept : (w.write accepts p).1.status = some s := by simp [hfixed]
      exact ⟨(w.write accepts p).1, (w.write accepts p).2, rfl, hkept⟩

/-- Only `WriteHeader` decides on a status other than the default. -/
theorem write_getD_status (accepts : List (List UInt8) → Nat) (w : Response) (p : List UInt8) :
    (w.write accepts p).1.status.getD statusOK = w.status.getD statusOK := by
  rw [status_write, Option.getD_some]

theorem body_write (accepts : List (List UInt8) → Nat) (w : Response) (p : List UInt8) :
    (w.write accepts p).1.body = w.body ++ p.take (w.write accepts p).2.1 := by
  unfold write
  dsimp only
  split
  · simp [ensureHeader]
  · split
    · simp [ensureHeader]
    · rfl

/-- A reader of something writes the header first. -/
theorem copy_ensureHeader (w : Response) {reads : List (List UInt8)} (hsome : ¬ isEmptyRead reads) :
    copy (fun w p => some (write accepts w p)) w.ensureHeader reads =
      copy (fun w p => some (write accepts w p)) w reads :=
  ResponseWriter.copy_congr (fun p => congrArg some (ensureHeader_write accepts w p)) hsome

end Response

end CoreMesh.Http
