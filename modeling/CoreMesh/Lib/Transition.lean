import Mathlib.Data.List.Induction
import Mathlib.Tactic.Common

/-!
# Runs of a labelled step relation

A system is a step relation `step s e s'`: in state `s` the event `e` may lead to `s'`. A run
remembers the events taken, oldest first, so a statement about a whole history (who acted last, what
happened since) is a statement about the list. Runs grow at the end, which is the direction an
invariant is preserved in.
-/

namespace Transition

universe u v w x

variable {S : Type u} {E : Type v} {step : S → E → S → Prop}

/-- `Run step init es s`: the events `es`, taken in order from `init`, end in `s`. -/
inductive Run (step : S → E → S → Prop) (init : S) : List E → S → Prop where
  | start : Run step init [] init
  | snoc {es : List E} {s s' : S} {e : E} :
      Run step init es s → step s e s' → Run step init (es ++ [e]) s'

namespace Run

variable {init s s' s'' : S} {e : E} {es es' : List E}

theorem single (hstep : step s e s') : Run step s [e] s' :=
  .snoc .start hstep

/-- A property of the history and the state that every step keeps holds at the end of every run. -/
theorem history_invariant (inv : List E → S → Prop) (hstart : inv [] init)
    (hkeep : ∀ es s e s', Run step init es s → inv es s → step s e s' → inv (es ++ [e]) s')
    (hrun : Run step init es s) : inv es s := by
  induction hrun with
  | start => exact hstart
  | snoc hrun hstep ih => exact hkeep _ _ _ _ hrun ih hstep

/-- A property of the state that every step keeps holds at the end of every run. -/
theorem invariant (inv : S → Prop) (hstart : inv init)
    (hkeep : ∀ s e s', inv s → step s e s' → inv s') (hrun : Run step init es s) : inv s :=
  hrun.history_invariant (fun _ s => inv s) hstart fun _ s e s' _ => hkeep s e s'

theorem append (hleft : Run step init es s) (hright : Run step s es' s') :
    Run step init (es ++ es') s' := by
  induction hright with
  | start => simpa using hleft
  | snoc _ hstep ih =>
      rw [← List.append_assoc]
      exact .snoc ih hstep

theorem eq_of_nil (hrun : Run step init [] s) : s = init := by
  generalize hes : ([] : List E) = es at hrun
  cases hrun with
  | start => rfl
  | snoc => simp at hes

/-- The last step of a nonempty run. -/
theorem snoc_inv (hrun : Run step init (es ++ [e]) s') :
    ∃ s, Run step init es s ∧ step s e s' := by
  generalize hall : es ++ [e] = all at hrun
  cases hrun with
  | start => simp at hall
  | snoc hrun hstep =>
      obtain ⟨rfl, hlast⟩ := List.append_inj' hall rfl
      obtain rfl := List.head_eq_of_cons_eq hlast
      exact ⟨_, hrun, hstep⟩

theorem single_inv (hrun : Run step s [e] s') : step s e s' := by
  have hlast : Run step s ([] ++ [e]) s' := hrun
  obtain ⟨mid, hnil, hstep⟩ := hlast.snoc_inv
  rwa [hnil.eq_of_nil] at hstep

/-- A run over a concatenation passes through a state between the two parts. -/
theorem split (hrun : Run step init (es ++ es') s') :
    ∃ s, Run step init es s ∧ Run step s es' s' := by
  induction es' using List.reverseRecOn generalizing s' with
  | nil => exact ⟨s', by simpa using hrun, .start⟩
  | append_singleton rest e ih =>
      rw [← List.append_assoc] at hrun
      obtain ⟨mid, hmid, hstep⟩ := hrun.snoc_inv
      obtain ⟨s, hleft, hright⟩ := ih hmid
      exact ⟨s, hleft, .snoc hright hstep⟩

/-- The step an event of the history took. -/
theorem at_event {before after : List E} (hrun : Run step init (before ++ e :: after) s'') :
    ∃ s s', Run step init before s ∧ step s e s' ∧ Run step s' after s'' := by
  obtain ⟨s, hbefore, hrest⟩ := hrun.split
  have hcons : Run step s ([e] ++ after) s'' := hrest
  obtain ⟨s', hstep, hafter⟩ := hcons.split
  exact ⟨s, s', hbefore, hstep.single_inv, hafter⟩

/-- When a step is determined by the state and the event, so is the end of a run. -/
theorem end_unique (hfun : ∀ s e s₁ s₂, step s e s₁ → step s e s₂ → s₁ = s₂)
    (hleft : Run step init es s) (hright : Run step init es s') : s = s' := by
  induction hleft generalizing s' with
  | start => exact hright.eq_of_nil.symm
  | snoc _ hstep ih =>
      obtain ⟨mid, hmid, hstep'⟩ := hright.snoc_inv
      obtain rfl := ih hmid
      exact hfun _ _ _ _ hstep hstep'

end Run

/-- An event of a grown history is the new one or stands in the old history. -/
theorem snoc_eq_append_cons {es before rest : List E} {e f : E}
    (heq : es ++ [e] = before ++ f :: rest) :
    (rest = [] ∧ es = before ∧ e = f) ∨ ∃ rest', rest = rest' ++ [e] ∧ es = before ++ f :: rest' := by
  rcases List.eq_nil_or_concat rest with rfl | ⟨rest', last, rfl⟩
  · obtain ⟨hes, hlast⟩ := List.append_inj' heq rfl
    exact .inl ⟨rfl, hes, List.head_eq_of_cons_eq hlast⟩
  · have hassoc : es ++ [e] = (before ++ f :: rest') ++ [last] := by
      rw [heq]
      simp
    obtain ⟨hes, hlast⟩ := List.append_inj' hassoc rfl
    obtain rfl := List.head_eq_of_cons_eq hlast
    exact .inr ⟨rest', by simp, hes⟩

/-- A system whose step is a partial function runs by folding it over the events. -/
abbrev Steps (next : S → E → Option S) (s : S) (e : E) (s' : S) : Prop := next s e = some s'

theorem run_iff_foldlM {next : S → E → Option S} {init s : S} {es : List E} :
    Run (Steps next) init es s ↔ es.foldlM next init = some s := by
  constructor
  · intro hrun
    induction hrun with
    | start => rfl
    | snoc _ hstep ih => simp [List.foldlM_append, ih, hstep]
  · intro hfold
    induction es using List.reverseRecOn generalizing s with
    | nil =>
        obtain rfl := Option.some.inj hfold
        exact .start
    | append_singleton es e ih =>
        simp only [List.foldlM_append, List.foldlM_cons, List.foldlM_nil, Option.bind_eq_bind,
          bind_pure] at hfold
        obtain ⟨mid, hmid, hstep⟩ := Option.bind_eq_some_iff.mp hfold
        exact .snoc (ih hmid) hstep

/-- A forward simulation with stuttering: a step of the lower system is matched by the step of the upper
one that `label` names for its event, and by none where it names none. -/
structure Simulation {A : Type w} {F : Type x} (lower : S → E → S → Prop)
    (upper : A → F → A → Prop) (rel : S → A → Prop) (label : E → Option F) : Prop where
  stutter : ∀ {s a e s'}, rel s a → lower s e s' → label e = none → rel s' a
  follow : ∀ {s a e f s'}, rel s a → lower s e s' → label e = some f →
    ∃ a', upper a f a' ∧ rel s' a'

/-- Under a simulation the events of a lower run, as the upper system sees them, are an upper run. -/
theorem Simulation.run {A : Type w} {F : Type x} {lower : S → E → S → Prop}
    {upper : A → F → A → Prop} {rel : S → A → Prop} {label : E → Option F}
    (sim : Simulation lower upper rel label) {init s : S} {a₀ : A} (hinit : rel init a₀)
    {es : List E} (hrun : Run lower init es s) :
    ∃ a, Run upper a₀ (es.filterMap label) a ∧ rel s a := by
  induction hrun with
  | start => exact ⟨a₀, .start, hinit⟩
  | @snoc es s s' e _ hstep ih =>
      obtain ⟨a, hupper, hrel⟩ := ih
      rw [List.filterMap_append]
      cases hlabel : label e with
      | none =>
          rw [List.filterMap_cons_none hlabel, List.filterMap_nil, List.append_nil]
          exact ⟨a, hupper, sim.stutter hrel hstep hlabel⟩
      | some f =>
          obtain ⟨a', hup, hrel'⟩ := sim.follow hrel hstep hlabel
          rw [List.filterMap_cons_some hlabel, List.filterMap_nil]
          exact ⟨a', .snoc hupper hup, hrel'⟩

end Transition
