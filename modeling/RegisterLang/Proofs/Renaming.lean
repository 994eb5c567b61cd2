import RegisterLang.Proofs.Steps

/-!
# Steps under a renaming

Two steps may do the same in two states that only differ in how things are named, for example in
where a text is placed. A renaming says how the states and the failures of the two are related, and
`Carries` says that the second step does what the first one does, under the new names.
-/

namespace RegisterLang

/-- A renaming of the states and of the failures of steps. It need not be possible in all states. -/
structure Renaming (ε σ : Type) where
  state : σ → σ
  failure : ε → ε
  /-- The states that can be renamed. -/
  possible : σ → Prop

namespace Renaming

variable {ε σ β β' γ γ' : Type} (r : Renaming ε σ)

/-- A result under the new names, with its value renamed by `f`. -/
def result (f : β → β') : EStateM.Result ε σ β → EStateM.Result ε σ β'
  | .ok b s => .ok (f b) (r.state s)
  | .error e s => .error (r.failure e) (r.state s)

/-- From a renamed state, the second step comes to the renamed result of the first one; and the
first one leads to states that can be renamed again. -/
structure Carries (f : β → β') (step : EStateM ε σ β) (step' : EStateM ε σ β') : Prop where
  run : ∀ s, r.possible s → step' (r.state s) = r.result f (step s)
  keeps : ∀ s b s', r.possible s → step s = .ok b s' → r.possible s'

namespace Carries

variable {r} {f : β → β'} {g : γ → γ'}

/-- A value is carried over to its image. -/
theorem pure {b : β} {b' : β'} (hb : b' = f b) : r.Carries f (pure b) (pure b') where
  run _ _ := by
    rw [hb]
    rfl
  keeps s c s' hs h := by
    obtain ⟨_, rfl⟩ := pure_eq_ok.mp h
    exact hs

/-- Two steps in a row are carried over if each of them is, the second one from every image. -/
theorem bind {step : EStateM ε σ β} {step' : EStateM ε σ β'} {further : β → EStateM ε σ γ}
    {further' : β' → EStateM ε σ γ'} (hstep : r.Carries f step step')
    (hfurther : ∀ b, r.Carries g (further b) (further' (f b))) :
    r.Carries g (step >>= further) (step' >>= further') where
  run s hs := by
    have hrun := hstep.run s hs
    cases hresult : step s with
    | ok b s' =>
      rw [hresult] at hrun
      rw [bind_of_eq_ok hresult, bind_of_eq_ok hrun]
      exact (hfurther b).run s' (hstep.keeps s b s' hs hresult)
    | error e s' =>
      rw [hresult] at hrun
      rw [bind_of_eq_error hresult, bind_of_eq_error hrun]
      rfl
  keeps s c s'' hs h := by
    obtain ⟨b, s', hresult, hfurther'⟩ := bind_eq_ok.mp h
    exact (hfurther b).keeps s' c s'' (hstep.keeps s b s' hs hresult) hfurther'

/-- A change of values is carried over, if the change and its image agree. -/
theorem map {step : EStateM ε σ β} {step' : EStateM ε σ β'} {h : β → γ} {h' : β' → γ'}
    (hstep : r.Carries f step step') (hh : ∀ b, h' (f b) = g (h b)) :
    r.Carries g (h <$> step) (h' <$> step') := by
  rw [map_eq_pure_bind, map_eq_pure_bind]
  exact hstep.bind fun b => pure (hh b)

/-- A step that is carried over is so without its value. -/
theorem discard {step : EStateM ε σ β} {step' : EStateM ε σ β'} (hstep : r.Carries f step step') :
    r.Carries id (discard step) (discard step') :=
  hstep.map fun _ => rfl

/-- A choice is carried over if both branches are. -/
theorem ite {test : Prop} [Decidable test] {step₁ step₂ : EStateM ε σ β}
    {step₁' step₂' : EStateM ε σ β'} (h₁ : r.Carries f step₁ step₁')
    (h₂ : r.Carries f step₂ step₂') :
    r.Carries f (if test then step₁ else step₂) (if test then step₁' else step₂') := by
  split
  · exact h₁
  · exact h₂

/-- The state that is looked at is the renamed one. -/
theorem get : r.Carries r.state get get where
  run _ _ := rfl
  keeps s b s' hs h := by
    cases h
    exact hs

/-- A failure is carried over to the renamed one. -/
theorem throw (f : β → β') (e : ε) :
    r.Carries f (throw e : EStateM ε σ β) (throw (r.failure e) : EStateM ε σ β') where
  run _ _ := rfl
  keeps s b s' _ h := by cases h

end Carries

end Renaming

end RegisterLang
