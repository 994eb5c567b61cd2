import Mathlib.Tactic.Common

/-!
# Steps that succeeded

Scanning and parsing are made of steps that pass a state on and may fail. A sequence of steps
succeeds exactly if each of them does in turn.
-/

namespace RegisterLang

variable {ε σ β γ : Type}

/-- Two steps in a row succeed when the first one does and then the second one. -/
theorem bind_eq_ok {step : EStateM ε σ β} {further : β → EStateM ε σ γ} {s s'' : σ} {c : γ} :
    (step >>= further) s = .ok c s'' ↔
      ∃ b s', step s = .ok b s' ∧ further b s' = .ok c s'' := by
  change EStateM.bind step further s = _ ↔ _
  unfold EStateM.bind
  cases step s <;> simp

/-- Behind a step that succeeds, the next one goes on. -/
theorem bind_of_eq_ok {step : EStateM ε σ β} {further : β → EStateM ε σ γ} {s s' : σ} {b : β}
    (h : step s = .ok b s') : (step >>= further) s = further b s' := by
  change EStateM.bind step further s = _
  rw [EStateM.bind, h]

/-- Behind a step that fails, nothing goes on. -/
theorem bind_of_eq_error {step : EStateM ε σ β} {further : β → EStateM ε σ γ} {s s' : σ} {e : ε}
    (h : step s = .error e s') : (step >>= further) s = .error e s' := by
  change EStateM.bind step further s = _
  rw [EStateM.bind, h]

/-- What follows a step only depends on how the step runs. -/
theorem bind_congr_run {step step' : EStateM ε σ β} {further : β → EStateM ε σ γ} {s s' : σ}
    (h : step s = step' s') : (step >>= further) s = (step' >>= further) s' := by
  change EStateM.bind step further s = EStateM.bind step' further s'
  rw [EStateM.bind, EStateM.bind, h]

/-- What follows a step matters only at what the step succeeds with. -/
theorem bind_congr_ok {step : EStateM ε σ β} {further further' : β → EStateM ε σ γ} {s : σ}
    (h : ∀ b s', step s = .ok b s' → further b s' = further' b s') :
    (step >>= further) s = (step >>= further') s := by
  change EStateM.bind step further s = EStateM.bind step further' s
  unfold EStateM.bind
  cases hstep : step s with
  | ok b s' => exact h b s' hstep
  | error e s' => rfl

/-- Two steps in a row fail when the first one does, or when the second one does behind it. -/
theorem bind_eq_error {step : EStateM ε σ β} {further : β → EStateM ε σ γ} {s s'' : σ} {e : ε} :
    (step >>= further) s = .error e s'' ↔
      step s = .error e s'' ∨ ∃ b s', step s = .ok b s' ∧ further b s' = .error e s'' := by
  change EStateM.bind step further s = _ ↔ _
  unfold EStateM.bind
  cases step s <;> simp

/-- A step with a changed value succeeds when the step does. -/
theorem map_eq_ok {f : β → γ} {step : EStateM ε σ β} {s s' : σ} {c : γ} :
    (f <$> step) s = .ok c s' ↔ ∃ b, step s = .ok b s' ∧ c = f b := by
  change EStateM.map f step s = _ ↔ _
  unfold EStateM.map
  cases step s <;> simp [eq_comm, and_comm]

/-- A step with a changed value fails when the step does. -/
theorem map_eq_error {f : β → γ} {step : EStateM ε σ β} {s s' : σ} {e : ε} :
    (f <$> step) s = .error e s' ↔ step s = .error e s' := by
  change EStateM.map f step s = _ ↔ _
  unfold EStateM.map
  cases step s <;> simp

/-- A step without its value succeeds when the step does. -/
theorem discard_eq_ok {step : EStateM ε σ β} {s s' : σ} {u : Unit} :
    discard step s = .ok u s' ↔ ∃ b, step s = .ok b s' := by
  change EStateM.map _ step s = _ ↔ _
  unfold EStateM.map
  cases step s <;> simp

/-- A step behind one without a value succeeds when both do. -/
theorem discard_bind_eq_ok {step : EStateM ε σ β} {further : Unit → EStateM ε σ γ} {s s'' : σ}
    {c : γ} :
    (discard step >>= further) s = .ok c s'' ↔
      ∃ b s', step s = .ok b s' ∧ further () s' = .ok c s'' := by
  simp only [bind_eq_ok, discard_eq_ok]
  constructor
  · rintro ⟨_, s', ⟨b, hstep⟩, hfurther⟩
    exact ⟨b, s', hstep, hfurther⟩
  · rintro ⟨b, s', hstep, hfurther⟩
    exact ⟨(), s', ⟨b, hstep⟩, hfurther⟩

/-- What follows a step whose value is not needed. -/
theorem discard_bind (step : EStateM ε σ β) (further : EStateM ε σ γ) :
    (discard step >>= fun _ => further) = step >>= fun _ => further := by
  funext s
  change EStateM.bind (EStateM.map _ step) _ s = EStateM.bind step _ s
  unfold EStateM.bind EStateM.map
  cases step s <;> rfl

/-- A value succeeds with itself and leaves the state. -/
theorem pure_eq_ok {b c : β} {s s' : σ} :
    (pure b : EStateM ε σ β) s = .ok c s' ↔ c = b ∧ s' = s := by
  change EStateM.Result.ok b s = _ ↔ _
  simp [eq_comm]

end RegisterLang
