import Mathlib.Tactic.Common

/-!
# Computations that an exception ends

A computation changes a state and may end with an exception, which does not undo the changes. What it keeps
is proved step by step: each step keeps it, whether it ends with an exception or not.
-/

universe u v w

/-- A computation on a state that gives a value or an exception. -/
def Effect (ε : Type u) (σ : Type v) (α : Type w) := σ → Except ε α × σ

namespace Effect

variable {ε : Type u} {σ : Type v} {α β : Type w}

instance : Monad (Effect ε σ) where
  pure a := fun s => (.ok a, s)
  bind m f := fun s =>
    match m s with
    | (.ok a, s') => f a s'
    | (.error e, s') => (.error e, s')

def fail (e : ε) : Effect ε σ α := fun s => (.error e, s)

def read : Effect ε σ σ := fun s => (.ok s, s)

def update (f : σ → σ) : Effect ε σ PUnit := fun s => (.ok ⟨⟩, f s)

/-- `try` with a handler for every exception. -/
def attempt (m : Effect ε σ α) (handler : ε → Effect ε σ α) : Effect ε σ α := fun s =>
  match m s with
  | (.ok a, s') => (.ok a, s')
  | (.error e, s') => handler e s'

/-- `try` with `finally`: an exception of the last part takes the place of the result. -/
def andFinally (m : Effect ε σ α) (last : Effect ε σ PUnit) : Effect ε σ α := fun s =>
  match last (m s).2 with
  | (.ok _, s') => ((m s).1, s')
  | (.error e, s') => (.error e, s')

/-! ### What a computation keeps -/

/-- From a state with the first property, the result and the state after it have the second. -/
def Ensures (P : σ → Prop) (m : Effect ε σ α) (Q : Except ε α → σ → Prop) : Prop :=
  ∀ s, P s → Q (m s).1 (m s).2

/-- The property holds after the computation if it does before. -/
def Keeps (P : σ → Prop) (m : Effect ε σ α) : Prop := Ensures P m fun _ s => P s

variable {P : σ → Prop} {m : Effect ε σ α}

theorem keeps_pure (a : α) : Keeps P (pure a : Effect ε σ α) := fun _ hs => hs

theorem keeps_fail (e : ε) : Keeps P (fail e : Effect ε σ α) := fun _ hs => hs

theorem keeps_update {f : σ → σ} (hf : ∀ s, P s → P (f s)) : Keeps P (update f : Effect ε σ PUnit) := hf

theorem keeps_read {Q : σ → Prop} : Keeps Q (read : Effect ε σ σ) := fun _ hs => hs

/-- One property of the values and one of the exceptions. -/
def either (R : α → σ → Prop) (E : ε → σ → Prop) : Except ε α → σ → Prop
  | .ok a, s => R a s
  | .error e, s => E e s

theorem bind_of_ok {f : α → Effect ε σ β} {s s' : σ} {a : α} (hm : m s = (.ok a, s')) :
    (m >>= f) s = f a s' := by
  show (match m s with
    | (.ok a, s') => f a s'
    | (.error e, s') => (.error e, s')) = _
  rw [hm]

theorem bind_of_error {f : α → Effect ε σ β} {s s' : σ} {e : ε} (hm : m s = (.error e, s')) :
    (m >>= f) s = (.error e, s') := by
  show (match m s with
    | (.ok a, s') => f a s'
    | (.error e, s') => (.error e, s')) = _
  rw [hm]

theorem ensures_bind {f : α → Effect ε σ β} {R : α → σ → Prop} {Q : Except ε β → σ → Prop}
    (hm : Ensures P m (either R fun e => Q (.error e)))
    (hf : ∀ a, Ensures (R a) (f a) Q) : Ensures P (m >>= f) Q := by
  intro s hs
  have hfirst := hm s hs
  obtain ⟨⟨result, s'⟩, hrun⟩ : ∃ outcome, m s = outcome := ⟨_, rfl⟩
  rw [hrun] at hfirst
  cases result with
  | ok a =>
      rw [bind_of_ok hrun]
      exact hf a s' hfirst
  | error e =>
      rw [bind_of_error hrun]
      exact hfirst

/-- A first part that keeps the property, before one that starts from it. -/
theorem Keeps.bind_ensures {f : α → Effect ε σ β} {Q : Except ε β → σ → Prop} (hm : Keeps P m)
    (herror : ∀ e s, P s → Q (.error e) s) (hf : ∀ a, Ensures P (f a) Q) : Ensures P (m >>= f) Q := by
  apply ensures_bind (R := fun _ => P) _ hf
  intro s hs
  have hkept : P (m s).2 := hm s hs
  generalize m s = outcome at hkept ⊢
  obtain ⟨result, s'⟩ := outcome
  cases result with
  | ok a => exact hkept
  | error e => exact herror e s' hkept

theorem Keeps.bind {f : α → Effect ε σ β} (hm : Keeps P m) (hf : ∀ a, Keeps P (f a)) : Keeps P (m >>= f) :=
  hm.bind_ensures (fun _ _ hs => hs) hf

theorem ensures_attempt {handler : ε → Effect ε σ α} {R : ε → σ → Prop} {Q : Except ε α → σ → Prop}
    (hm : Ensures P m (either (fun a => Q (.ok a)) R))
    (hhandler : ∀ e, Ensures (R e) (handler e) Q) : Ensures P (attempt m handler) Q := by
  intro s hs
  have hfirst := hm s hs
  rw [attempt]
  generalize m s = outcome at hfirst ⊢
  obtain ⟨result, s'⟩ := outcome
  cases result with
  | ok a => exact hfirst
  | error e => exact hhandler e s' hfirst

theorem Keeps.attempt {handler : ε → Effect ε σ α} (hm : Keeps P m) (hhandler : ∀ e, Keeps P (handler e)) :
    Keeps P (attempt m handler) := by
  apply ensures_attempt (R := fun _ => P) _ hhandler
  intro s hs
  have hkept : P (m s).2 := hm s hs
  generalize m s = outcome at hkept ⊢
  obtain ⟨result, s'⟩ := outcome
  cases result with
  | ok a => exact hkept
  | error e => exact hkept

/-- A last part that keeps the state as it is leaves that after the first. -/
theorem andFinally_snd {last : Effect ε σ PUnit} (hlast : ∀ s, (last s).2 = s) (s : σ) :
    (andFinally m last s).2 = (m s).2 := by
  have hkept := hlast (m s).2
  rw [andFinally]
  generalize last (m s).2 = outcome at hkept ⊢
  obtain ⟨result, s'⟩ := outcome
  cases result with
  | ok _ => exact hkept
  | error e => exact hkept

/-! ### Whether a computation returns -/

def Returns (m : Effect ε σ α) (s : σ) : Prop := ∃ a, (m s).1 = .ok a

theorem returns_pure (a : α) (s : σ) : Returns (pure a : Effect ε σ α) s := ⟨a, rfl⟩

theorem not_returns_fail (e : ε) (s : σ) : ¬Returns (fail e : Effect ε σ α) s := by
  intro ⟨a, ha⟩
  cases ha

/-- A sequence returns if its parts do, where it depends on neither value nor state whether they do. -/
theorem returns_bind_iff {f : α → Effect ε σ β} {s : σ} {A B : Prop} (hm : Returns m s ↔ A)
    (hf : ∀ a s', Returns (f a) s' ↔ B) : Returns (m >>= f) s ↔ A ∧ B := by
  rw [← hm]
  obtain ⟨⟨result, s'⟩, hrun⟩ : ∃ outcome, m s = outcome := ⟨_, rfl⟩
  cases result with
  | ok a =>
      rw [and_iff_right ⟨a, by rw [hrun]⟩, ← hf a s']
      unfold Returns
      rw [bind_of_ok hrun]
  | error e =>
      apply iff_of_false
      · intro ⟨b, hb⟩
        rw [bind_of_error hrun] at hb
        cases hb
      · intro ⟨⟨a, ha⟩, _⟩
        rw [hrun] at ha
        cases ha

end Effect
