import CoreMesh.Http.ResponseWriter

/-!
# The writers that record a response

`observedResponseWriter` of the metrics and `captureResponseWriter` of the cache, each over any
writer. Both keep the first status they are given, and neither knows that an informational one is
not final. The status `0` is none yet.
-/

namespace CoreMesh

open Http

variable {W : Type}

/-! ### observedResponseWriter -/

namespace Gateway

structure ObservedResponseWriter (W : Type) where
  inner : W
  status : Int

namespace ObservedResponseWriter

def writeHeader (rw : ResponseWriter W) (w : ObservedResponseWriter W) (statusCode : Int) :
    Option (ObservedResponseWriter W) :=
  if w.status ≠ 0 then some w
  else do
    let inner ← rw.writeHeader w.inner statusCode
    some ⟨inner, statusCode⟩

/-- The default status, where there is none. -/
def ensureStatus (rw : ResponseWriter W) (w : ObservedResponseWriter W) :
    Option (ObservedResponseWriter W) :=
  if w.status = 0 then w.writeHeader rw statusOK else some w

def writer (rw : ResponseWriter W) : ResponseWriter (ObservedResponseWriter W) where
  writeHeader := writeHeader rw
  write := fun w body => do
    let w ← w.ensureStatus rw
    let (inner, answer) ← rw.write w.inner body
    some ({ w with inner }, answer)
  flush := fun w => do
    let w ← w.ensureStatus rw
    let inner ← rw.flush w.inner
    some { w with inner }
  readFrom := fun w reads => do
    let w ← w.ensureStatus rw
    let inner ← rw.readFrom w.inner reads
    some { w with inner }

def statusCode (w : ObservedResponseWriter W) : Int := if w.status = 0 then statusOK else w.status

end ObservedResponseWriter

end Gateway

/-! ### captureResponseWriter -/

namespace Cache

structure CaptureResponseWriter (W : Type) where
  inner : W
  status : Int
  body : List UInt8
  /-- Whether a write failed. -/
  writeErr : Bool

namespace CaptureResponseWriter

def new (w : W) : CaptureResponseWriter W := ⟨w, 0, [], false⟩

def writeHeader (rw : ResponseWriter W) (w : CaptureResponseWriter W) (statusCode : Int) :
    Option (CaptureResponseWriter W) :=
  if w.status ≠ 0 then some w
  else do
    let inner ← rw.writeHeader w.inner statusCode
    some { w with inner, status := statusCode }

def write (rw : ResponseWriter W) (w : CaptureResponseWriter W) (p : List UInt8) :
    Option (CaptureResponseWriter W × Nat × Bool) := do
  let status := if w.status = 0 then statusOK else w.status
  let (inner, n, failed) ← rw.write w.inner p
  let body := if 0 < n then w.body ++ p.take n else w.body
  some ({ inner, status, body, writeErr := w.writeErr || failed }, n, failed)

def writer (rw : ResponseWriter W) : ResponseWriter (CaptureResponseWriter W) where
  writeHeader := writeHeader rw
  write := write rw
  flush := fun w => do
    let inner ← rw.flush w.inner
    some { w with inner }
  -- It is no `io.ReaderFrom`, and `io.Copy` writes instead.
  readFrom := copy (write rw)

def statusCode (w : CaptureResponseWriter W) : Int := if w.status = 0 then statusOK else w.status

def bodyBytes (w : CaptureResponseWriter W) : List UInt8 := w.body

end CaptureResponseWriter

end Cache

/-! ### The status of a run -/

/-- The first call that fixes a status fixes `200`. -/
def fixesOK : List Call → Bool
  | [] => true
  | .writeHeader code :: calls => code == statusOK || isInformational code && fixesOK calls
  | .write _ :: _ => true
  | .flush :: _ => true
  | .readFrom reads :: calls => !isEmptyRead reads || fixesOK calls

namespace Http.Response

variable (accepts : List (List UInt8) → Nat) {w : Response}

theorem run_of_fixed {s : Int} (calls : List Call) (hfixed : w.status = some s) :
    ∃ w', (writer accepts).run w calls = some w' ∧ w'.status = some s :=
  ResponseWriter.run_invariant (fun c hfixed => call_of_fixed accepts c hfixed) calls hfixed

/-- Only `WriteHeader` decides on a status other than the default. -/
theorem call_of_default {c : Call} (hc : ∀ code, c ≠ .writeHeader code)
    (hdefault : w.status.getD statusOK = statusOK) :
    ∃ w', (writer accepts).call w c = some w' ∧ w'.status.getD statusOK = statusOK := by
  cases c with
  | writeHeader code => exact absurd rfl (hc code)
  | write body => exact ⟨_, rfl, by simpa using hdefault⟩
  | flush => exact ⟨_, rfl, by simpa using hdefault⟩
  | readFrom reads =>
      refine ResponseWriter.copy_invariant (fun {w} p hdefault => ?_) reads hdefault
      exact ⟨(w.write accepts p).1, (w.write accepts p).2, rfl,
        (write_getD_status accepts w p).trans hdefault⟩

theorem run_emptyRead (w : Response) {reads : List (List UInt8)} (hempty : isEmptyRead reads)
    (calls : List Call) :
    (writer accepts).run w (.readFrom reads :: calls) = (writer accepts).run w calls := by
  simp [ResponseWriter.run, ResponseWriter.call, writer,
    ResponseWriter.copy_of_isEmptyRead w hempty]

theorem received_of_status {s : Int} (hfixed : w.status = some s) : w.received.status = s := by
  simp [received, hfixed]

/-- A run ends as if `200` had been written first exactly if it fixes `200` by itself. -/
theorem received_ensureHeader_iff (calls : List Call) (hopen : w.status = none) :
    ((writer accepts).run w.ensureHeader calls).map received =
      ((writer accepts).run w calls).map received ↔ fixesOK calls := by
  have hfixed : w.ensureHeader.status = some statusOK := by simp [hopen]
  induction calls with
  | nil => simp [ResponseWriter.run, fixesOK, received, ensureHeader, hopen]
  | cons c calls ih =>
      cases c with
      | writeHeader code =>
          have hleft : (writer accepts).run w.ensureHeader (.writeHeader code :: calls) =
              (writer accepts).run w.ensureHeader calls := by
            simp [ResponseWriter.run, ResponseWriter.call, writer, writeHeader_of_fixed hfixed]
          have hright : (writer accepts).run w (.writeHeader code :: calls) =
              (w.writeHeader code).bind fun w => (writer accepts).run w calls := rfl
          obtain ⟨w', hrun, hstatus⟩ := run_of_fixed accepts calls hfixed
          rw [hleft, hright]
          rcases writeHeader_of_open hopen code with ⟨hinvalid, hw⟩ | ⟨hinf, hw⟩ | ⟨⟨-, hfinal⟩, hw⟩
          · have hnot : fixesOK (.writeHeader code :: calls) = false := by
              have hne : code ≠ statusOK := by
                simp only [statusOK]
                omega
              simp [fixesOK, not_isInformational_of_invalid hinvalid, hne]
            simp [hw, hrun, hnot]
          · simpa [hw, fixesOK, hinf, (ne_of_isInformational hinf).2] using ih
          · have hstatus' : ({ w with status := some code } : Response).status = some code := rfl
            obtain ⟨v, hrun', hv⟩ := run_of_fixed accepts calls hstatus'
            rw [hw, hrun, Option.bind_some, hrun', Option.map_some, Option.map_some, Option.some_inj]
            constructor
            · intro hsame
              have hcode : statusOK = code := by
                rw [← received_of_status hstatus, hsame, received_of_status hv]
              simp [fixesOK, hcode]
            · intro hfixes
              have hcode : code = statusOK := by simpa [fixesOK, hfinal] using hfixes
              have hsame : w.ensureHeader = { w with status := some code } := by
                simp [ensureHeader, hopen, hcode]
              rw [hsame, hrun', Option.some_inj] at hrun
              rw [hrun]
      | write body =>
          have hright : (writer accepts).run w (.write body :: calls) =
              (writer accepts).run w.ensureHeader (.write body :: calls) := by
            simp [ResponseWriter.run, ResponseWriter.call, writer]
          simp [hright, fixesOK]
      | flush =>
          have hright : (writer accepts).run w (.flush :: calls) =
              (writer accepts).run w.ensureHeader (.flush :: calls) := by
            simp [ResponseWriter.run, ResponseWriter.call, writer, ensureHeader_of_fixed hfixed]
          simp [hright, fixesOK]
      | readFrom reads =>
          by_cases hempty : isEmptyRead reads
          · simpa [run_emptyRead accepts _ hempty, fixesOK, hempty] using ih
          · have hright : (writer accepts).run w (.readFrom reads :: calls) =
                (writer accepts).run w.ensureHeader (.readFrom reads :: calls) := by
              simp [ResponseWriter.run, ResponseWriter.call, writer, copy_ensureHeader w hempty]
            simp [hright, fixesOK, hempty]

end Http.Response

/-! ### Through observedResponseWriter -/

namespace Gateway.ObservedResponseWriter

open Http.Response

variable (accepts : List (List UInt8) → Nat) {w : Response} {s : Int}

theorem call_writeHeader (rw : ResponseWriter W) (w : W) (hs : s ≠ 0) (code : Int) :
    (writer rw).call ⟨w, s⟩ (.writeHeader code) = some ⟨w, s⟩ := by
  simp [ResponseWriter.call, writer, writeHeader, hs]

theorem call_of_status (rw : ResponseWriter W) (w : W) (hs : s ≠ 0) {c : Call}
    (hc : ∀ code, c ≠ .writeHeader code) :
    (writer rw).call ⟨w, s⟩ c = (rw.call w c).map fun w => ⟨w, s⟩ := by
  cases c with
  | writeHeader code => exact absurd rfl (hc code)
  | write body =>
      cases hwrite : rw.write w body <;> simp [ResponseWriter.call, writer, ensureStatus, hs, hwrite]
  | flush => cases hflush : rw.flush w <;> simp [ResponseWriter.call, writer, ensureStatus, hs, hflush]
  | readFrom reads =>
      cases hread : rw.readFrom w reads <;>
        simp [ResponseWriter.call, writer, ensureStatus, hs, hread]

theorem call_of_new (hopen : w.status = none) {c : Call} (hc : ∀ code, c ≠ .writeHeader code) :
    (writer (Response.writer accepts)).call ⟨w, 0⟩ c =
      (writer (Response.writer accepts)).call ⟨w.ensureHeader, statusOK⟩ c := by
  have hok : w.writeHeader statusOK = some w.ensureHeader := by
    simp [Response.writeHeader, ensureHeader, hopen, statusOK, isInformational]
  have hensure : ensureStatus (Response.writer accepts) ⟨w, 0⟩ =
      ensureStatus (Response.writer accepts) ⟨w.ensureHeader, statusOK⟩ := by
    have hwrap : writeHeader (Response.writer accepts) ⟨w, 0⟩ statusOK =
        some ⟨w.ensureHeader, statusOK⟩ := by
      simp [writeHeader, Response.writer, hok]
    rw [ensureStatus, if_pos rfl, hwrap]
    rfl
  cases c with
  | writeHeader code => exact absurd rfl (hc code)
  | write body => simp only [ResponseWriter.call, writer, hensure]
  | flush => simp only [ResponseWriter.call, writer, hensure]
  | readFrom reads => simp only [ResponseWriter.call, writer, hensure]

/-- Over a fixed status the wrapper changes nothing. -/
theorem run_of_fixed (calls : List Call) (hs : s ≠ 0) (hfixed : w.status = some s) :
    ∃ w', (writer (Response.writer accepts)).run ⟨w, s⟩ calls = some ⟨w', s⟩ ∧
      (Response.writer accepts).run w calls = some w' ∧ w'.status = some s := by
  obtain ⟨_, w', hwrapped, hrun, rfl, hstatus⟩ : ∃ o' w',
      (writer (Response.writer accepts)).run ⟨w, s⟩ calls = some o' ∧
        (Response.writer accepts).run w calls = some w' ∧ o' = ⟨w', s⟩ ∧ w'.status = some s := by
    refine ResponseWriter.run_rel
      (R := fun (o : ObservedResponseWriter Response) w => o = ⟨w, s⟩ ∧ w.status = some s)
      (fun {o w} c hrel => ?_) calls ⟨rfl, hfixed⟩
    obtain ⟨rfl, hfixed⟩ := hrel
    obtain ⟨w', hcall, hstatus⟩ := Response.call_of_fixed accepts c hfixed
    refine ⟨⟨w', s⟩, w', ?_, hcall, rfl, hstatus⟩
    by_cases hc : ∃ code, c = .writeHeader code
    · obtain ⟨code, rfl⟩ := hc
      obtain rfl : w = w' := Option.some.inj ((writeHeader_of_fixed hfixed code).symm.trans hcall)
      exact call_writeHeader _ w hs code
    · rw [call_of_status _ w hs (fun code heq => hc ⟨code, heq⟩), hcall]
      rfl
  exact ⟨w', hwrapped, hrun, hstatus⟩

theorem run_of_mistaken (calls : List Call) (hs : s ≠ 0)
    (hdefault : w.status.getD statusOK = statusOK) :
    ∃ o, (writer (Response.writer accepts)).run ⟨w, s⟩ calls = some o ∧ o.status = s ∧
      o.inner.received.status = statusOK := by
  refine ResponseWriter.run_invariant
    (I := fun o : ObservedResponseWriter Response =>
      o.status = s ∧ o.inner.status.getD statusOK = statusOK)
    (fun {o} c hinv => ?_) calls ⟨rfl, hdefault⟩
  obtain ⟨w, status⟩ := o
  obtain ⟨rfl, hdefault⟩ := hinv
  by_cases hc : ∃ code, c = .writeHeader code
  · obtain ⟨code, rfl⟩ := hc
    exact ⟨_, call_writeHeader _ w hs code, rfl, hdefault⟩
  · have hpass : ∀ code, c ≠ .writeHeader code := fun code heq => hc ⟨code, heq⟩
    obtain ⟨w', hcall, hdefault'⟩ := call_of_default accepts hpass hdefault
    exact ⟨⟨w', status⟩, by rw [call_of_status _ w hs hpass, hcall]; rfl, rfl, hdefault'⟩

/-- What the client receives through the wrapper, and what the wrapper reports. -/
def Transparent (accepts : List (List UInt8) → Nat) (calls : List Call) : Prop :=
  let wrapped := (writer (Response.writer accepts)).run ⟨Response.new, 0⟩ calls
  wrapped.map (fun o => o.inner.received) =
      ((Response.writer accepts).run Response.new calls).map received ∧
    ∀ o, wrapped = some o → o.statusCode = o.inner.received.status

/-- The first call is no informational status, and a reader of nothing is not followed by a status
other than `200`. -/
def recordsFinal : List Call → Bool
  | .writeHeader code :: _ => !isInformational code
  | calls => fixesOK calls

theorem transparent_iff (calls : List Call) :
    Transparent accepts calls ↔ recordsFinal calls := by
  have hopen : Response.new.status = none := rfl
  cases calls with
  | nil => simp [Transparent, ResponseWriter.run, recordsFinal, fixesOK, statusCode, received, hopen]
  | cons c calls =>
      by_cases hc : ∃ code, c = .writeHeader code
      · obtain ⟨code, rfl⟩ := hc
        have hwrapped : (writer (Response.writer accepts)).run ⟨Response.new, 0⟩
            (.writeHeader code :: calls) = (Response.new.writeHeader code).bind fun w =>
              (writer (Response.writer accepts)).run ⟨w, code⟩ calls := by
          cases hw : Response.new.writeHeader code <;>
            simp [ResponseWriter.run, ResponseWriter.call, writer, writeHeader, Response.writer, hw]
        have hunwrapped : (Response.writer accepts).run Response.new (.writeHeader code :: calls) =
            (Response.new.writeHeader code).bind fun w => (Response.writer accepts).run w calls := rfl
        simp only [Transparent, hwrapped, hunwrapped, recordsFinal]
        rcases writeHeader_of_open hopen code with ⟨hinvalid, hw⟩ | ⟨hinf, hw⟩ | ⟨⟨hvalid, hfinal⟩, hw⟩
        · simp [hw, not_isInformational_of_invalid hinvalid]
        · have hpositive := ne_of_isInformational hinf
          obtain ⟨o, hrun, hstatus, hreceived⟩ :=
            run_of_mistaken accepts (w := Response.new) calls hpositive.1 rfl
          simp [hw, hrun, hinf, hreceived, statusCode, hstatus, hpositive]
        · have hpositive : code ≠ 0 := by omega
          obtain ⟨w', hrun, hrun', hstatus⟩ := run_of_fixed accepts
            (w := { Response.new with status := some code }) calls hpositive rfl
          simp [hw, hrun, hrun', hfinal, statusCode, hpositive, received, hstatus]
      · have hpass : ∀ code, c ≠ .writeHeader code := fun code heq => hc ⟨code, heq⟩
        have hrecords : recordsFinal (c :: calls) = fixesOK (c :: calls) := by
          cases c with
          | writeHeader code => exact absurd rfl (hpass code)
          | _ => rfl
        have hwrapped : (writer (Response.writer accepts)).run ⟨Response.new, 0⟩ (c :: calls) =
            (writer (Response.writer accepts)).run ⟨Response.new.ensureHeader, statusOK⟩
              (c :: calls) := by
          rw [ResponseWriter.run, ResponseWriter.run, call_of_new accepts hopen hpass]
        obtain ⟨w', hrun, hrun', hstatus⟩ := run_of_fixed accepts
          (w := Response.new.ensureHeader) (c :: calls) (by decide : statusOK ≠ 0) rfl
        rw [hrecords, ← received_ensureHeader_iff accepts (c :: calls) hopen, hrun']
        simp only [Transparent, hwrapped, hrun, Option.map_some]
        constructor
        · exact fun htransparent => htransparent.1
        · intro hsame
          refine ⟨hsame, ?_⟩
          rintro o ⟨⟩
          simp [statusCode, received, hstatus, statusOK]

end Gateway.ObservedResponseWriter

/-! ### Through captureResponseWriter -/

namespace Cache.CaptureResponseWriter

open Http.Response

variable (accepts : List (List UInt8) → Nat) {k : CaptureResponseWriter Response} {w : Response}
  {s : Int}

/-- The capture stands over the writer, with the same status and body. -/
structure Follows (s : Int) (k : CaptureResponseWriter Response) (w : Response) : Prop where
  inner : k.inner = w
  status : k.status = s
  body : k.body = w.body
  fixed : w.status = some s

theorem call_writeHeader {rw : ResponseWriter W} {k : CaptureResponseWriter W} (hs : k.status ≠ 0)
    (code : Int) : (writer rw).call k (.writeHeader code) = some k := by
  simp [ResponseWriter.call, writer, writeHeader, hs]

theorem write_eq (k : CaptureResponseWriter Response) (p : List UInt8) :
    write (Response.writer accepts) k p =
      some (⟨(k.inner.write accepts p).1, if k.status = 0 then statusOK else k.status,
        k.body ++ p.take (k.inner.write accepts p).2.1, k.writeErr || (k.inner.write accepts p).2.2⟩,
        (k.inner.write accepts p).2) := by
  have hbody : (if 0 < (k.inner.write accepts p).2.1 then
      k.body ++ p.take (k.inner.write accepts p).2.1 else k.body) =
      k.body ++ p.take (k.inner.write accepts p).2.1 := by
    split
    · rfl
    · have hzero : (k.inner.write accepts p).2.1 = 0 := by omega
      simp [hzero]
  rw [← hbody]
  rfl

theorem Follows.write (hs : s ≠ 0) (hfollows : Follows s k w) (p : List UInt8) :
    ∃ k' w' answer, write (Response.writer accepts) k p = some (k', answer) ∧
      some (w.write accepts p) = some (w', answer) ∧ Follows s k' w' := by
  obtain ⟨rfl, rfl, hbody, hfixed⟩ := hfollows
  have hbody' : k.body ++ p.take (k.inner.write accepts p).2.1 = (k.inner.write accepts p).1.body := by
    rw [body_write, hbody]
  have hfixed' : (k.inner.write accepts p).1.status = some k.status := by simp [hfixed]
  exact ⟨_, (k.inner.write accepts p).1, (k.inner.write accepts p).2, write_eq accepts k p, rfl, rfl,
    if_neg hs, hbody', hfixed'⟩

theorem Follows.call (hs : s ≠ 0) (hfollows : Follows s k w) (c : Call) :
    ∃ k' w', (writer (Response.writer accepts)).call k c = some k' ∧
      (Response.writer accepts).call w c = some w' ∧ Follows s k' w' := by
  cases c with
  | writeHeader code =>
      exact ⟨k, w, call_writeHeader (by rwa [hfollows.status]) code,
        writeHeader_of_fixed hfollows.fixed code, hfollows⟩
  | write body =>
      obtain ⟨k', w', answer, hk, hw, hfollows'⟩ := hfollows.write accepts hs body
      refine ⟨k', w', by simp [ResponseWriter.call, writer, hk], ?_, hfollows'⟩
      simp [ResponseWriter.call, Response.writer, Option.some.inj hw]
  | flush =>
      obtain ⟨rfl, rfl, hbody, hfixed⟩ := hfollows
      refine ⟨k, k.inner, ?_, ?_, rfl, rfl, hbody, hfixed⟩
      · simp [ResponseWriter.call, writer, Response.writer, ensureHeader_of_fixed hfixed]
      · simp [ResponseWriter.call, Response.writer, ensureHeader_of_fixed hfixed]
  | readFrom reads => exact ResponseWriter.copy_rel (fun p h => h.write accepts hs p) reads hfollows

/-- The same response, and the report of it. -/
def Agrees (wrapped : Option (CaptureResponseWriter Response)) (unwrapped : Option Response) : Prop :=
  wrapped.map (fun k => k.inner.received) = unwrapped.map received ∧
    ∀ k, wrapped = some k →
      k.statusCode = k.inner.received.status ∧ k.bodyBytes = k.inner.received.body

theorem Follows.agrees (hs : s ≠ 0) (hfollows : Follows s k w) (calls : List Call) :
    Agrees ((writer (Response.writer accepts)).run k calls)
      ((Response.writer accepts).run w calls) := by
  obtain ⟨k', w', hk, hw, rfl, hstatus, hbody, hfixed⟩ :=
    ResponseWriter.run_rel (fun c h => Follows.call accepts hs h c) calls hfollows
  rw [hk, hw]
  refine ⟨rfl, ?_⟩
  rintro _ ⟨⟩
  exact ⟨by simp [statusCode, hstatus, hs, received, hfixed], hbody⟩

/-- After another status than the one that goes out, the report is wrong at the end. -/
theorem not_agrees_of_mistaken (hs : k.status ≠ 0) (hmistaken : k.status ≠ statusOK)
    (hdefault : k.inner.status.getD statusOK = statusOK) (calls : List Call)
    (unwrapped : Option Response) :
    ¬ Agrees ((writer (Response.writer accepts)).run k calls) unwrapped := by
  obtain ⟨k', hrun, hstatus, hdefault'⟩ : ∃ k', (writer (Response.writer accepts)).run k calls = some k' ∧
      k'.status = k.status ∧ k'.inner.status.getD statusOK = statusOK := by
    refine ResponseWriter.run_invariant
      (I := fun k' : CaptureResponseWriter Response =>
        k'.status = k.status ∧ k'.inner.status.getD statusOK = statusOK)
      (fun {k'} c hinv => ?_) calls ⟨rfl, hdefault⟩
    have hwrite : ∀ {k' : CaptureResponseWriter Response} p,
        (k'.status = k.status ∧ k'.inner.status.getD statusOK = statusOK) →
          ∃ k'' answer, write (Response.writer accepts) k' p = some (k'', answer) ∧
            k''.status = k.status ∧ k''.inner.status.getD statusOK = statusOK := by
      intro k' p hinv
      refine ⟨_, _, write_eq accepts k' p, ?_, ?_⟩
      · exact (if_neg (by rwa [hinv.1])).trans hinv.1
      · exact (write_getD_status accepts k'.inner p).trans hinv.2
    cases c with
    | writeHeader code => exact ⟨k', call_writeHeader (by rwa [hinv.1]) code, hinv⟩
    | write body =>
        obtain ⟨k'', answer, hk, hinv'⟩ := hwrite body hinv
        exact ⟨k'', by simp [ResponseWriter.call, writer, hk], hinv'⟩
    | flush => exact ⟨_, rfl, hinv.1, by simpa using hinv.2⟩
    | readFrom reads => exact ResponseWriter.copy_invariant hwrite reads hinv
  rintro ⟨-, hreport⟩
  have hwrong := (hreport k' hrun).1
  rw [statusCode, if_neg (by rwa [hstatus]), hstatus, received, hdefault'] at hwrong
  exact hmistaken hwrong

/-- A write that comes with no status recorded is one with `200` recorded. -/
theorem write_of_open (hopen : k.status = 0) (p : List UInt8) :
    write (Response.writer accepts) k p = write (Response.writer accepts)
      { k with inner := k.inner.ensureHeader, status := statusOK } p := by
  rw [write_eq, write_eq, ensureHeader_write, hopen]
  rfl

theorem copy_of_open (hopen : k.status = 0) {reads : List (List UInt8)} (hsome : ¬ isEmptyRead reads) :
    copy (write (Response.writer accepts)) k reads = copy (write (Response.writer accepts))
      { k with inner := k.inner.ensureHeader, status := statusOK } reads :=
  ResponseWriter.copy_congr (fun p => write_of_open accepts hopen p) hsome

theorem agrees_of_body {c : Call} (hbody : (∃ body, c = .write body) ∨
      ∃ reads, c = .readFrom reads ∧ ¬ isEmptyRead reads) (calls : List Call)
    (hdefault : w.status.getD statusOK = statusOK) (hopen : k.status = 0) (hinner : k.inner = w)
    (hsame : k.body = w.body) :
    Agrees ((writer (Response.writer accepts)).run k (c :: calls))
      ((Response.writer accepts).run w (c :: calls)) := by
  have hfollows : Follows statusOK { k with inner := k.inner.ensureHeader, status := statusOK }
      w.ensureHeader := ⟨by rw [hinner], rfl, hsame, by simp [hdefault]⟩
  have hcapture : (writer (Response.writer accepts)).call k c = (writer (Response.writer accepts)).call
      { k with inner := k.inner.ensureHeader, status := statusOK } c := by
    obtain ⟨body, rfl⟩ | ⟨reads, rfl, hsome⟩ := hbody
    · exact congrArg (Option.map Prod.fst) (write_of_open accepts hopen body)
    · exact copy_of_open accepts hopen hsome
  have hwriter : (Response.writer accepts).call w c =
      (Response.writer accepts).call w.ensureHeader c := by
    obtain ⟨body, rfl⟩ | ⟨reads, rfl, hsome⟩ := hbody
    · simp [ResponseWriter.call, Response.writer]
    · exact (copy_ensureHeader w hsome).symm
  have hagrees := hfollows.agrees accepts (by decide) (c :: calls)
  rwa [ResponseWriter.run, ResponseWriter.run, ← hcapture, ← hwriter] at hagrees

theorem run_emptyRead (k : CaptureResponseWriter Response) {reads : List (List UInt8)}
    (hempty : isEmptyRead reads) (calls : List Call) :
    (writer (Response.writer accepts)).run k (.readFrom reads :: calls) =
      (writer (Response.writer accepts)).run k calls := by
  simp [ResponseWriter.run, ResponseWriter.call, writer,
    ResponseWriter.copy_of_isEmptyRead k hempty]

/-- Once the response was flushed under the default status, the first status recorded is `200`. -/
def keepsOK : List Call → Bool
  | [] => true
  | .writeHeader code :: calls => code == statusOK || code == 0 && keepsOK calls
  | .write _ :: _ => true
  | .flush :: calls => keepsOK calls
  | .readFrom reads :: calls => !isEmptyRead reads || keepsOK calls

theorem agrees_flushed_iff (calls : List Call) (hopen : k.status = 0) (hinner : k.inner = w)
    (hsame : k.body = w.body) (hfixed : w.status = some statusOK) :
    Agrees ((writer (Response.writer accepts)).run k calls)
      ((Response.writer accepts).run w calls) ↔ keepsOK calls := by
  have hdefault : w.status.getD statusOK = statusOK := by rw [hfixed, Option.getD_some]
  subst hinner
  induction calls with
  | nil =>
      simp [Agrees, ResponseWriter.run, keepsOK, statusCode, hopen, bodyBytes, hsame, received, hdefault]
  | cons c calls ih =>
      cases c with
      | writeHeader code =>
          have hwrapped : (writer (Response.writer accepts)).run k (.writeHeader code :: calls) =
              (writer (Response.writer accepts)).run { k with status := code } calls := by
            simp [ResponseWriter.run, ResponseWriter.call, writer, writeHeader, hopen, Response.writer,
              writeHeader_of_fixed hfixed]
          have hunwrapped : (Response.writer accepts).run k.inner (.writeHeader code :: calls) =
              (Response.writer accepts).run k.inner calls := by
            simp [ResponseWriter.run, ResponseWriter.call, Response.writer, writeHeader_of_fixed hfixed]
          rw [hwrapped, hunwrapped]
          by_cases hok : code = statusOK
          · have hfollows : Follows code { k with status := code } k.inner :=
              ⟨rfl, rfl, hsame, by rw [hfixed, hok]⟩
            have hagrees := hfollows.agrees accepts (by rw [hok]; decide) calls
            simpa [keepsOK, hok] using hagrees
          · by_cases hzero : code = 0
            · have hsame' : { k with status := code } = k := by rw [hzero, ← hopen]
              rw [hsame']
              simpa [keepsOK, hzero, statusOK] using ih
            · have hwrong := not_agrees_of_mistaken accepts (k := { k with status := code }) hzero hok
                hdefault calls ((Response.writer accepts).run k.inner calls)
              simpa [keepsOK, hok, hzero] using hwrong
      | write body =>
          simpa [keepsOK] using agrees_of_body accepts (.inl ⟨body, rfl⟩) calls hdefault hopen rfl hsame
      | flush =>
          have hwrapped : (writer (Response.writer accepts)).run k (.flush :: calls) =
              (writer (Response.writer accepts)).run k calls := by
            simp [ResponseWriter.run, ResponseWriter.call, writer, Response.writer,
              ensureHeader_of_fixed hfixed]
          have hunwrapped : (Response.writer accepts).run k.inner (.flush :: calls) =
              (Response.writer accepts).run k.inner calls := by
            simp [ResponseWriter.run, ResponseWriter.call, Response.writer, ensureHeader_of_fixed hfixed]
          rw [hwrapped, hunwrapped]
          exact ih
      | readFrom reads =>
          by_cases hempty : isEmptyRead reads
          · rw [run_emptyRead accepts k hempty, Response.run_emptyRead accepts k.inner hempty]
            simpa [keepsOK, hempty] using ih
          · simpa [keepsOK, hempty] using
              agrees_of_body accepts (.inr ⟨reads, rfl, hempty⟩) calls hdefault hopen rfl hsame

/-- What the client receives through the capture, and what the capture holds for the cache. -/
def Transparent (accepts : List (List UInt8) → Nat) (calls : List Call) : Prop :=
  Agrees ((writer (Response.writer accepts)).run (new Response.new) calls)
    ((Response.writer accepts).run Response.new calls)

/-- Readers of nothing aside, the first call is no informational status, and a flush is not followed
by a status other than `200`. -/
def recordsFinal : List Call → Bool
  | [] => true
  | .writeHeader code :: _ => !isInformational code
  | .write _ :: _ => true
  | .flush :: calls => keepsOK calls
  | .readFrom reads :: calls => !isEmptyRead reads || recordsFinal calls

theorem transparent_iff (calls : List Call) : Transparent accepts calls ↔ recordsFinal calls := by
  have hopen : Response.new.status = none := rfl
  unfold Transparent
  induction calls with
  | nil =>
      simp [Agrees, ResponseWriter.run, recordsFinal, new, statusCode, bodyBytes, received, Response.new]
  | cons c calls ih =>
      cases c with
      | writeHeader code =>
          have hwrapped : (writer (Response.writer accepts)).run (new Response.new)
              (.writeHeader code :: calls) = (Response.new.writeHeader code).bind fun w =>
                (writer (Response.writer accepts)).run { new w with status := code } calls := by
            cases hw : Response.new.writeHeader code <;>
              simp [ResponseWriter.run, ResponseWriter.call, writer, writeHeader, Response.writer, new, hw]
          have hunwrapped : (Response.writer accepts).run Response.new (.writeHeader code :: calls) =
              (Response.new.writeHeader code).bind fun w => (Response.writer accepts).run w calls := rfl
          rw [hwrapped, hunwrapped]
          rcases writeHeader_of_open hopen code with ⟨hinvalid, hw⟩ | ⟨hinf, hw⟩ | ⟨⟨hvalid, hfinal⟩, hw⟩
          · simp [hw, not_isInformational_of_invalid hinvalid, Agrees, recordsFinal]
          · have hmistaken := ne_of_isInformational hinf
            have hwrong := not_agrees_of_mistaken accepts (k := { new Response.new with status := code })
              hmistaken.1 hmistaken.2 rfl calls ((Response.writer accepts).run Response.new calls)
            simpa [hw, hinf, recordsFinal] using hwrong
          · have hfollows : Follows code
                { new { Response.new with status := some code } with status := code }
                { Response.new with status := some code } := ⟨rfl, rfl, rfl, rfl⟩
            have hagrees := hfollows.agrees accepts (by omega) calls
            simpa [hw, hfinal, recordsFinal] using hagrees
      | write body =>
          have hagrees := agrees_of_body accepts (k := new Response.new) (w := Response.new)
            (.inl ⟨body, rfl⟩) calls rfl rfl rfl rfl
          simpa [recordsFinal] using hagrees
      | flush =>
          have hflushed := agrees_flushed_iff accepts (k := new Response.new.ensureHeader)
            (w := Response.new.ensureHeader) calls rfl rfl rfl rfl
          exact hflushed
      | readFrom reads =>
          by_cases hempty : isEmptyRead reads
          · rw [run_emptyRead accepts _ hempty, Response.run_emptyRead accepts _ hempty]
            simpa [recordsFinal, hempty] using ih
          · have hagrees := agrees_of_body accepts (k := new Response.new) (w := Response.new)
              (.inr ⟨reads, rfl, hempty⟩) calls rfl rfl rfl rfl
            simpa [recordsFinal, hempty] using hagrees

end Cache.CaptureResponseWriter

/-! ### Transparency -/

/-- When both wrappers leave the response as it is and report it as it went out. -/
theorem transparent_iff_recordsFinal (accepts : List (List UInt8) → Nat) (calls : List Call) :
    (Gateway.ObservedResponseWriter.Transparent accepts calls ↔
      Gateway.ObservedResponseWriter.recordsFinal calls) ∧
    (Cache.CaptureResponseWriter.Transparent accepts calls ↔
      Cache.CaptureResponseWriter.recordsFinal calls) :=
  ⟨Gateway.ObservedResponseWriter.transparent_iff accepts calls,
    Cache.CaptureResponseWriter.transparent_iff accepts calls⟩

/-- Early hints before a failure: the client receives a `200` in place of the `502`. -/
theorem not_transparent_of_early_hints :
    let calls := [Call.writeHeader 103, .writeHeader 502]
    let accepts := fun offered : List (List UInt8) => offered.flatten.length
    (¬ Gateway.ObservedResponseWriter.Transparent accepts calls ∧
        ¬ Cache.CaptureResponseWriter.Transparent accepts calls) ∧
      ((Response.writer accepts).run Response.new calls).map Response.received = some ⟨502, []⟩ ∧
      ((Gateway.ObservedResponseWriter.writer (Response.writer accepts)).run ⟨Response.new, 0⟩ calls).map
        (fun o => (o.inner.received, o.statusCode)) = some (⟨200, []⟩, 103) ∧
      ((Cache.CaptureResponseWriter.writer (Response.writer accepts)).run (.new Response.new) calls).map
        (fun k => (k.inner.received, k.statusCode)) = some (⟨200, []⟩, 103) := by
  intro calls accepts
  refine ⟨⟨?_, ?_⟩, by decide, by decide, by decide⟩
  · rw [Gateway.ObservedResponseWriter.transparent_iff]
    decide
  · rw [Cache.CaptureResponseWriter.transparent_iff]
    decide

end CoreMesh
