import Mathlib.Data.List.Basic
import Mathlib.Tactic.Common

/-!
# Computations that can fail

What a result says about the steps that led to it: a result behind a step is from a result of the step,
a loop that gets to its end keeps an invariant over what it has been through, and an operation that is
retried has the answer of one of its calls.
-/

namespace Outcome

universe u v

variable {ε : Type u} {α β : Type v}

theorem bind_eq_ok {step : Except ε α} {rest : α → Except ε β} {result : β}
    (hok : step >>= rest = .ok result) : ∃ value, step = .ok value ∧ rest value = .ok result := by
  cases step with
  | error error => cases hok
  | ok value => exact ⟨value, rfl, hok⟩

theorem exists_bind_eq_ok_iff {step : Except ε α} {rest : α → Except ε β} :
    (∃ result, step >>= rest = .ok result) ↔
      ∃ value, step = .ok value ∧ ∃ result, rest value = .ok result := by
  apply Iff.intro
  · intro ⟨result, hok⟩
    obtain ⟨value, hstep, hrest⟩ := bind_eq_ok hok
    exact ⟨value, hstep, result, hrest⟩
  · intro ⟨value, hstep, result, hrest⟩
    exact ⟨result, by rw [hstep]; exact hrest⟩

theorem mapError_eq_ok {ε' : Type*} {f : ε → ε'} {step : Except ε α} {value : α}
    (hok : step.mapError f = .ok value) : step = .ok value := by
  cases step with
  | error error => cases hok
  | ok value' => rw [Except.ok.inj hok]

theorem foldlM_eq_ok {step : β → α → Except ε β} {l : List α} {state final : β}
    (P : List α → β → Prop) (hstart : P [] state)
    (hstep : ∀ done a rest s s', l = done ++ a :: rest → P done s → step s a = .ok s' →
      P (done ++ [a]) s')
    (hok : l.foldlM step state = .ok final) : P l final := by
  suffices hrest : ∀ rest done s, l = done ++ rest → P done s →
      rest.foldlM step s = .ok final → P l final from hrest l [] state rfl hstart hok
  intro rest
  induction rest with
  | nil =>
      intro done s hl hdone hfinal
      rw [List.append_nil] at hl
      rw [← Except.ok.inj hfinal, hl]
      exact hdone
  | cons a rest ih =>
      intro done s hl hdone hfinal
      rw [List.foldlM_cons] at hfinal
      obtain ⟨s', hs', hfinal⟩ := bind_eq_ok hfinal
      exact ih (done ++ [a]) s' (by rw [hl, List.append_assoc]; rfl)
        (hstep done a rest s s' hl hdone hs') hfinal

/-- A loop gets to its end if its invariant says that the next step succeeds. -/
theorem exists_foldlM_eq_ok {step : β → α → Except ε β} {l : List α} {state : β}
    (P : List α → β → Prop) (hstart : P [] state)
    (hstep : ∀ done a rest s, l = done ++ a :: rest → P done s →
      ∃ s', step s a = .ok s' ∧ P (done ++ [a]) s') : ∃ final, l.foldlM step state = .ok final := by
  suffices hrest : ∀ rest done s, l = done ++ rest → P done s →
      ∃ final, rest.foldlM step s = .ok final from hrest l [] state rfl hstart
  intro rest
  induction rest with
  | nil => exact fun done s _ _ => ⟨s, rfl⟩
  | cons a rest ih =>
      intro done s hl hdone
      obtain ⟨s', hs', hnext⟩ := hstep done a rest s hl hdone
      obtain ⟨final, hfinal⟩ := ih (done ++ [a]) s' (by rw [hl, List.append_assoc]; rfl) hnext
      exact ⟨final, by rw [List.foldlM_cons, hs']; exact hfinal⟩

/-- A loop whose steps succeed or fail whatever the state is. -/
theorem exists_foldlM_eq_ok_iff {step : β → α → Except ε β} {Q : α → Prop}
    (hstep : ∀ state a, (∃ next, step state a = .ok next) ↔ Q a) (l : List α) (state : β) :
    (∃ final, l.foldlM step state = .ok final) ↔ ∀ a ∈ l, Q a := by
  induction l generalizing state with
  | nil => exact ⟨fun _ a ha => absurd ha List.not_mem_nil, fun _ => ⟨state, rfl⟩⟩
  | cons a l ih =>
      rw [List.forall_mem_cons, List.foldlM_cons]
      constructor
      · rintro ⟨final, hfinal⟩
        obtain ⟨next, hnext, hrest⟩ := bind_eq_ok hfinal
        exact ⟨(hstep state a).mp ⟨next, hnext⟩, (ih next).mp ⟨final, hrest⟩⟩
      · rintro ⟨ha, hl⟩
        obtain ⟨next, hnext⟩ := (hstep state a).mpr ha
        obtain ⟨final, hfinal⟩ := (ih next).mpr hl
        exact ⟨final, by rw [hnext]; exact hfinal⟩

theorem mapM_eq_ok {f : α → Except ε β} {g : α → β} {l : List α} (hf : ∀ a ∈ l, f a = .ok (g a)) :
    l.mapM f = .ok (l.map g) := by
  induction l with
  | nil => rfl
  | cons a l ih =>
      rw [List.mapM_cons, hf a List.mem_cons_self, ih fun a' ha' => hf a' (List.mem_cons_of_mem a ha')]
      rfl

/-- A list is gone through to its end exactly if each element can be. -/
theorem mapM_eq_ok_iff {f : α → Except ε β} {g : α → β} {Q : α → Prop}
    (hf : ∀ a b, f a = .ok b ↔ Q a ∧ b = g a) {l : List α} {results : List β} :
    l.mapM f = .ok results ↔ (∀ a ∈ l, Q a) ∧ results = l.map g := by
  constructor
  · intro hok
    induction l generalizing results with
    | nil => exact ⟨fun a ha => absurd ha List.not_mem_nil, (Except.ok.inj hok).symm⟩
    | cons a l ih =>
        rw [List.mapM_cons] at hok
        obtain ⟨first, hfirst, hok⟩ := bind_eq_ok hok
        obtain ⟨others, hothers, hok⟩ := bind_eq_ok hok
        obtain ⟨ha, hfirst⟩ := (hf a first).mp hfirst
        obtain ⟨hl, hothers⟩ := ih hothers
        have hresults : results = first :: others := (Except.ok.inj hok).symm
        rw [hresults, hfirst, hothers]
        exact ⟨List.forall_mem_cons.mpr ⟨ha, hl⟩, rfl⟩
  · rintro ⟨hall, rfl⟩
    exact mapM_eq_ok fun a ha => (hf a (g a)).mpr ⟨hall a ha, rfl⟩

/-- The results are those of the elements, one by one. -/
theorem mapM_eq_ok_iff_forall₂ {f : α → Except ε β} {l : List α} {results : List β} :
    l.mapM f = .ok results ↔ List.Forall₂ (fun a b => f a = .ok b) l results := by
  constructor
  · intro hok
    induction l generalizing results with
    | nil =>
        obtain rfl := Except.ok.inj hok
        exact .nil
    | cons a l ih =>
        rw [List.mapM_cons] at hok
        obtain ⟨first, hfirst, hok⟩ := bind_eq_ok hok
        obtain ⟨others, hothers, hok⟩ := bind_eq_ok hok
        obtain rfl := Except.ok.inj hok
        exact .cons hfirst (ih hothers)
  · intro hall
    induction hall with
    | nil => rfl
    | cons hfirst _ ih => rw [List.mapM_cons, hfirst, ih]; rfl

theorem mem_mapM {f : α → Except ε β} {l : List α} {results : List β} (hok : l.mapM f = .ok results)
    {a : α} (ha : a ∈ l) : ∃ b ∈ results, f a = .ok b := by
  induction l generalizing results with
  | nil => cases ha
  | cons first l ih =>
      rw [List.mapM_cons] at hok
      obtain ⟨b, hb, hok⟩ := bind_eq_ok hok
      obtain ⟨others, hothers, hok⟩ := bind_eq_ok hok
      obtain rfl := Except.ok.inj hok
      rw [List.mem_cons] at ha
      obtain rfl | ha := ha
      · exact ⟨b, List.mem_cons_self, hb⟩
      · obtain ⟨b', hb', hok⟩ := ih hothers ha
        exact ⟨b', List.mem_cons_of_mem b hb', hok⟩

theorem exists_mapM_eq_ok_iff {f : α → Except ε β} {l : List α} :
    (∃ results, l.mapM f = .ok results) ↔ ∀ a ∈ l, ∃ b, f a = .ok b := by
  constructor
  · rintro ⟨results, hok⟩ a ha
    obtain ⟨b, -, hb⟩ := mem_mapM hok ha
    exact ⟨b, hb⟩
  · intro hall
    induction l with
    | nil => exact ⟨[], rfl⟩
    | cons first l ih =>
        obtain ⟨b, hb⟩ := hall first List.mem_cons_self
        obtain ⟨others, hothers⟩ := ih fun a ha => hall a (List.mem_cons_of_mem first ha)
        exact ⟨b :: others, by rw [List.mapM_cons, hb, hothers]; rfl⟩

theorem exists_mapM_forall₂ {f : α → Except ε β} {R : α → β → Prop} {l : List α}
    (hf : ∀ a ∈ l, ∃ b, f a = .ok b ∧ R a b) :
    ∃ results, l.mapM f = .ok results ∧ List.Forall₂ R l results := by
  induction l with
  | nil => exact ⟨[], rfl, .nil⟩
  | cons a l ih =>
      obtain ⟨⟨b, hb, hrel⟩, hrest⟩ := List.forall_mem_cons.mp hf
      obtain ⟨others, hothers, hrels⟩ := ih hrest
      exact ⟨b :: others, by rw [List.mapM_cons, hb, hothers]; rfl, .cons hrel hrels⟩

/-- A loop that gets to its end has left nothing out. -/
theorem filterMap_of_mapM_eq_ok {f : α → Except ε β} {l : List α} {results : List β}
    (hok : l.mapM f = .ok results) : l.filterMap (fun a => (f a).toOption) = results := by
  have hall := mapM_eq_ok_iff_forall₂.mp hok
  induction hall with
  | nil => rfl
  | cons hfirst hrest ih =>
      rw [List.filterMap_cons, hfirst]
      exact congrArg _ (ih (mapM_eq_ok_iff_forall₂.mpr hrest))

theorem exists_of_mem_mapM {f : α → Except ε β} {l : List α} {results : List β}
    (hok : l.mapM f = .ok results) {b : β} (hb : b ∈ results) : ∃ a ∈ l, f a = .ok b := by
  induction l generalizing results with
  | nil =>
      obtain rfl := Except.ok.inj hok
      cases hb
  | cons a l ih =>
      rw [List.mapM_cons] at hok
      obtain ⟨first, hfirst, hok⟩ := bind_eq_ok hok
      obtain ⟨others, hothers, hok⟩ := bind_eq_ok hok
      obtain rfl := Except.ok.inj hok
      rw [List.mem_cons] at hb
      obtain rfl | hb := hb
      · exact ⟨a, List.mem_cons_self, hfirst⟩
      · obtain ⟨a', ha', hok⟩ := ih hothers hb
        exact ⟨a', List.mem_cons_of_mem a ha', hok⟩

theorem length_mapM {f : α → Except ε β} {l : List α} {results : List β} (hok : l.mapM f = .ok results) :
    results.length = l.length := by
  induction l generalizing results with
  | nil =>
      obtain rfl := Except.ok.inj hok
      rfl
  | cons a l ih =>
      rw [List.mapM_cons] at hok
      obtain ⟨first, -, hok⟩ := bind_eq_ok hok
      obtain ⟨others, hothers, hok⟩ := bind_eq_ok hok
      obtain rfl := Except.ok.inj hok
      rw [List.length_cons, List.length_cons, ih hothers]

/-! ### What holds either way -/

/-- `E` holds of the error, or `Q` of the value. -/
def Ensures (E : ε → Prop) (Q : α → Prop) : Except ε α → Prop
  | .error error => E error
  | .ok value => Q value

section Ensures

variable {E E' : ε → Prop} {Q Q' : α → Prop} {R : β → Prop}

@[simp] theorem ensures_ok (value : α) : Ensures E Q (.ok value) ↔ Q value := Iff.rfl

theorem Ensures.mono {outcome : Except ε α} (houtcome : Ensures E Q outcome)
    (herror : ∀ error, E error → E' error) (hvalue : ∀ value, Q value → Q' value) :
    Ensures E' Q' outcome := by
  cases outcome with
  | error error => exact herror error houtcome
  | ok value => exact hvalue value houtcome

theorem Ensures.bind {step : Except ε α} {rest : α → Except ε β} (hstep : Ensures E Q step)
    (hrest : ∀ value, Q value → Ensures E R (rest value)) : Ensures E R (step >>= rest) := by
  cases step with
  | error error => exact hstep
  | ok value => exact hrest value hstep

/-- The invariant of a loop, with what holds where it breaks off. -/
theorem ensures_foldlM (step : β → α → Except ε β) (l : List α) (state : β) (P : List α → β → Prop)
    (hstart : P [] state)
    (hstep : ∀ done a rest s, l = done ++ a :: rest → P done s →
      Ensures E (P (done ++ [a])) (step s a)) : Ensures E (P l) (l.foldlM step state) := by
  suffices hrest : ∀ rest done s, l = done ++ rest → P done s →
      Ensures E (P l) (rest.foldlM step s) from hrest l [] state rfl hstart
  intro rest
  induction rest with
  | nil =>
      intro done s hl hdone
      rw [List.append_nil] at hl
      rw [hl]
      exact hdone
  | cons a rest ih =>
      intro done s hl hdone
      rw [List.foldlM_cons]
      exact (hstep done a rest s hl hdone).bind fun s' hs' =>
        ih (done ++ [a]) s' (by rw [hl, List.append_assoc]; rfl) hs'

end Ensures

/-! ### Retries -/

/-- Calls an operation again after an error that is worth it, while calls are left after this one. The
operation answers by the number of the call. -/
def retry (transient : ε → Bool) (operation : ℕ → Except ε α) (call : ℕ) : ℕ → Except ε α
  | 0 => operation call
  | more + 1 =>
      match operation call with
      | .ok value => .ok value
      | .error error =>
          if transient error then retry transient operation (call + 1) more else .error error

/-- A retried operation has the answer of one of its calls. Each call before it failed in a way that was
worth another, and it is the last one that is left or was worth no other. -/
theorem retry_answer (transient : ε → Bool) (operation : ℕ → Except ε α) (call more : ℕ) :
    ∃ answered, call ≤ answered ∧ answered ≤ call + more ∧
      retry transient operation call more = operation answered ∧
      (∀ earlier, call ≤ earlier → earlier < answered →
        ∃ error, operation earlier = .error error ∧ transient error = true) ∧
      (answered = call + more ∨
        ∀ error, operation answered = .error error → transient error = false) := by
  induction more generalizing call with
  | zero =>
      exact ⟨call, Nat.le_refl _, Nat.le_refl _, rfl, fun earlier hle hlt => absurd hlt (by omega),
        .inl rfl⟩
  | succ more ih =>
      cases hcall : operation call with
      | ok value =>
          refine ⟨call, Nat.le_refl _, by omega, ?_, fun earlier hle hlt => absurd hlt (by omega), ?_⟩
          · rw [retry, hcall]
          · exact .inr fun error herror => by rw [hcall] at herror; cases herror
      | error error =>
          by_cases htransient : transient error = true
          · obtain ⟨answered, hle, hlt, heq, hearlier, hlast⟩ := ih (call + 1)
            refine ⟨answered, by omega, by omega, ?_, ?_, ?_⟩
            · rw [← heq, retry, hcall]
              exact if_pos htransient
            · intro earlier hfrom hto
              by_cases hfirst : earlier = call
              · exact ⟨error, by rw [hfirst, hcall], htransient⟩
              · exact hearlier earlier (by omega) hto
            · obtain hlast | hlast := hlast
              · exact .inl (by omega)
              · exact .inr hlast
          · refine ⟨call, Nat.le_refl _, by omega, ?_, fun earlier hle hlt => absurd hlt (by omega), ?_⟩
            · rw [retry, hcall]
              exact if_neg htransient
            · refine .inr fun error' herror' => ?_
              rw [hcall] at herror'
              rw [← Except.error.inj herror']
              exact Bool.eq_false_iff.mpr htransient

/-- A retried operation succeeds exactly with the value of a call that all calls before it lead to. -/
theorem retry_eq_ok_iff {transient : ε → Bool} {operation : ℕ → Except ε α} {call more : ℕ} {value : α} :
    retry transient operation call more = .ok value ↔
      ∃ answered, call ≤ answered ∧ answered ≤ call + more ∧ operation answered = .ok value ∧
        ∀ earlier, call ≤ earlier → earlier < answered →
          ∃ error, operation earlier = .error error ∧ transient error = true := by
  obtain ⟨answered, hle, hlt, heq, hearlier, hlast⟩ := retry_answer transient operation call more
  rw [heq]
  constructor
  · exact fun hok => ⟨answered, hle, hlt, hok, hearlier⟩
  · rintro ⟨answered', hle', hlt', hok, hearlier'⟩
    obtain hbefore | hsame | hafter := Nat.lt_trichotomy answered answered'
    · -- The call that answered was worth another, so it was the last one.
      obtain ⟨error, herror, htransient⟩ := hearlier' answered hle hbefore
      obtain hlast | hlast := hlast
      · omega
      · rw [hlast error herror] at htransient
        cases htransient
    · rw [hsame, hok]
    · obtain ⟨error, herror, -⟩ := hearlier answered' hle' hafter
      rw [hok] at herror
      cases herror

/-! ### Results without their errors -/

theorem toOption_bind_congr {step step' : Except ε α} {rest rest' : α → Except ε β}
    (hstep : step.toOption = step'.toOption)
    (hrest : ∀ value, (rest value).toOption = (rest' value).toOption) :
    (step >>= rest).toOption = (step' >>= rest').toOption := by
  cases step with
  | error error =>
      cases step' with
      | error error' => rfl
      | ok value' => cases hstep
  | ok value =>
      cases step' with
      | error error' => cases hstep
      | ok value' =>
          obtain rfl : value = value' := Option.some.inj hstep
          exact hrest value

theorem toOption_foldlM_congr {step step' : β → α → Except ε β}
    (hstep : ∀ state a, (step state a).toOption = (step' state a).toOption) (l : List α) (state : β) :
    (l.foldlM step state).toOption = (l.foldlM step' state).toOption := by
  induction l generalizing state with
  | nil => rfl
  | cons a l ih =>
      rw [List.foldlM_cons, List.foldlM_cons]
      exact toOption_bind_congr (hstep state a) ih

end Outcome
