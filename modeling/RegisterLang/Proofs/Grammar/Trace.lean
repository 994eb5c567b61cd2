import RegisterLang.Proofs.Grammar.Assembly
import RegisterLang.Proofs.Grammar.Moved

/-!
# The states on the way

`Runs` lists the states that a step of parsing goes through, from one state to its end. It takes the
step apart into looking, failing, moving on, entering a statement, steps in a row and levels of
nesting. Every step of the grammar can be taken apart so. However that is done, the cursor only
moves forward on the way, over no end of the input, the depth stays within the limit, and at the end
it is the one from the start, whether or not the step succeeds.
-/

namespace RegisterLang

/-- Where the cursor can get does not depend on how many levels are open. -/
theorem ParseState.Reaches.withDepth {s t : ParseState} (h : s.Reaches t) (m n : Nat) :
    ParseState.Reaches { s with depth := m } { t with depth := n } :=
  ⟨h.tokens, h.index_le, h.passed⟩

namespace Parse

variable {β γ : Type} {limit : Int}

/-- `Runs limit step s through result`: below a limit on nesting, the step goes from the state `s`
through a list of states to its result. -/
inductive Runs (limit : Int) : {β : Type} → Parse β → ParseState → List ParseState →
    EStateM.Result ParseFailure ParseState β → Prop where
  | look {β : Type} (f : ParseState → β) (s : ParseState) :
      Runs limit (fun s => .ok (f s) s) s [s] (.ok (f s) s)
  | throw {β : Type} (e : ParseFailure) (s : ParseState) :
      Runs limit (throw e : Parse β) s [s] (.error e s)
  | move (s : ParseState) :
      Runs limit (modify ParseState.advance) s [s, s.advance] (.ok () s.advance)
  | enter (s : ParseState) :
      Runs limit (modify fun s => { s with entered := s.next :: s.entered }) s
        [s, { s with entered := s.next :: s.entered }]
        (.ok () { s with entered := s.next :: s.entered })
  | bindOk {β γ : Type} {step : Parse β} {further : β → Parse γ} {s t : ParseState} {b : β}
      {through through' : List ParseState} {result : EStateM.Result ParseFailure ParseState γ} :
      Runs limit step s through (.ok b t) → Runs limit (further b) t through' result →
      Runs limit (step >>= further) s (through ++ through') result
  | bindError {β γ : Type} {step : Parse β} {further : β → Parse γ} {s t : ParseState}
      {e : ParseFailure} {through : List ParseState} :
      Runs limit step s through (.error e t) →
      Runs limit (step >>= further) s through (.error e t)
  | tooDeep {β : Type} {step : Parse β} {s : ParseState} :
      limit ≤ s.depth →
      Runs limit (nested limit step) s [s] (.error (.rejected ⟨.tooDeep limit, s.next⟩) s)
  | nested {β : Type} {step : Parse β} {s : ParseState} {through : List ParseState}
      {result : EStateM.Result ParseFailure ParseState β} :
      s.depth < limit → Runs limit step { s with depth := s.depth + 1 } through result →
      Runs limit (nested limit step) s (s :: (through ++ [final (closing result)])) (closing result)

/-- Whatever is made of the few kinds of steps goes its way through states, from every state on. -/
theorem Built.exists_runs {step : Parse β} (h : Built limit step) (s : ParseState) :
    ∃ through, Runs limit step s through (step s) := by
  induction h generalizing s with
  | look f => exact ⟨_, .look f s⟩
  | throw e => exact ⟨_, .throw e s⟩
  | move => exact ⟨_, .move s⟩
  | enter => exact ⟨_, .enter s⟩
  | @bind _ _ step further _ _ ih ih' =>
    obtain ⟨through, hruns⟩ := ih s
    cases hresult : step s with
    | ok b t =>
      rw [hresult] at hruns
      rw [bind_of_eq_ok hresult]
      obtain ⟨through', hruns'⟩ := ih' b t
      exact ⟨_, .bindOk hruns hruns'⟩
    | error e t =>
      rw [hresult] at hruns
      rw [bind_of_eq_error hresult]
      exact ⟨_, .bindError hruns⟩
  | @nested _ step _ ih =>
    by_cases hdeep : limit ≤ s.depth
    · refine ⟨[s], ?_⟩
      rw [nested_run_of_le hdeep]
      exact .tooDeep hdeep
    · obtain ⟨through, hruns⟩ := ih { s with depth := s.depth + 1 }
      rw [nested_run hdeep]
      exact ⟨_, .nested (Int.not_le.mp hdeep) hruns⟩

/-! ### What holds on the way -/

/-- The way from one state to another: the cursor only moves forward, the depth stays within the
limit unless it was beyond it already, and at the end it is the one from the start. -/
structure Walk (limit : Int) (s : ParseState) (through : List ParseState) (t : ParseState) :
    Prop where
  reaches : s.Reaches t
  depth_eq : t.depth = s.depth
  between : ∀ u ∈ through, s.Reaches u ∧ u.Reaches t
  depth_le : ∀ u ∈ through, (u.depth : Int) ≤ max limit s.depth
  forward : through.Pairwise ParseState.Reaches

namespace Walk

variable {s t u : ParseState} {through through' : List ParseState}

/-- A state that is not left is a way to itself. -/
theorem single (limit : Int) (s : ParseState) : Walk limit s [s] s where
  reaches := .refl s
  depth_eq := rfl
  between := by simp [ParseState.Reaches.refl]
  depth_le := by
    rw [List.forall_mem_singleton]
    exact Int.le_max_right _ _
  forward := List.pairwise_singleton _ s

/-- Two ways one after the other are one way. -/
theorem append (h : Walk limit s through t) (h' : Walk limit t through' u) :
    Walk limit s (through ++ through') u where
  reaches := h.reaches.trans h'.reaches
  depth_eq := h'.depth_eq.trans h.depth_eq
  between := by
    intro v hv
    rcases List.mem_append.mp hv with hv | hv
    · exact ⟨(h.between v hv).1, (h.between v hv).2.trans h'.reaches⟩
    · exact ⟨h.reaches.trans (h'.between v hv).1, (h'.between v hv).2⟩
  depth_le := by
    intro v hv
    rcases List.mem_append.mp hv with hv | hv
    · exact h.depth_le v hv
    · rw [← h.depth_eq]
      exact h'.depth_le v hv
  forward := List.pairwise_append.mpr ⟨h.forward, h'.forward, fun v hv w hw =>
    (h.between v hv).2.trans (h'.between w hw).1⟩

/-- One step forward. -/
theorem step (hreaches : s.Reaches t) (hdepth : t.depth = s.depth) : Walk limit s [s, t] t where
  reaches := hreaches
  depth_eq := hdepth
  between := by simp [hreaches, ParseState.Reaches.refl]
  depth_le := by
    rw [List.forall_mem_cons, List.forall_mem_singleton, hdepth]
    exact ⟨Int.le_max_right _ _, Int.le_max_right _ _⟩
  forward := by simp [hreaches]

/-- A level that is opened around a way is closed at its end. -/
theorem nested (hdepth : s.depth < limit)
    (h : Walk limit { s with depth := s.depth + 1 } through t) :
    Walk limit s (s :: (through ++ [{ t with depth := t.depth - 1 }]))
      { t with depth := t.depth - 1 } := by
  have hend := h.depth_eq
  simp only at hend
  have hreaches : s.Reaches { t with depth := t.depth - 1 } := h.reaches.withDepth s.depth _
  have hbetween : ∀ u ∈ through, s.Reaches u ∧ u.Reaches { t with depth := t.depth - 1 } :=
    fun u hu => ⟨(h.between u hu).1.withDepth s.depth u.depth,
      (h.between u hu).2.withDepth u.depth _⟩
  refine ⟨hreaches, by simp [hend], ?_, ?_, ?_⟩
  · simp only [List.forall_mem_cons, List.forall_mem_append, List.not_mem_nil, false_imp_iff,
      implies_true, and_true]
    exact ⟨⟨.refl s, hreaches⟩, hbetween, hreaches, .refl _⟩
  · simp only [List.forall_mem_cons, List.forall_mem_append, List.not_mem_nil, false_imp_iff,
      implies_true, and_true]
    refine ⟨Int.le_max_right _ _, fun u hu => ?_, ?_⟩
    · have hle := h.depth_le u hu
      simp only at hle
      omega
    · simp only [hend]
      omega
  · rw [List.pairwise_cons, List.pairwise_append]
    refine ⟨?_, h.forward, List.pairwise_singleton _ _, ?_⟩
    · simp only [List.forall_mem_append, List.forall_mem_cons, List.not_mem_nil, false_imp_iff,
        implies_true, and_true]
      exact ⟨fun u hu => (hbetween u hu).1, hreaches⟩
    · simp only [List.forall_mem_cons, List.not_mem_nil, false_imp_iff, implies_true, and_true]
      exact fun u hu => (hbetween u hu).2

end Walk

/-- However a step is taken apart, it is a walk to its end. -/
theorem Runs.walk {step : Parse β} {s : ParseState} {through : List ParseState}
    {result : EStateM.Result ParseFailure ParseState β} (h : Runs limit step s through result) :
    Walk limit s through (final result) := by
  induction h with
  | look | throw | tooDeep => exact .single limit _
  | move s => exact .step (.advance s) s.depth_advance
  | enter s => exact .step ⟨rfl, Nat.le_refl _, fun _ => .inl⟩ rfl
  | bindOk _ _ ih ih' => exact ih.append ih'
  | bindError _ ih => exact ih
  | nested hdepth _ ih =>
    rw [final_closing]
    exact ih.nested hdepth

/-- The cursor moves on by as many tokens as it takes from the pending ones. -/
theorem Runs.index_add_length_pending {step : Parse β} {s : ParseState} {through : List ParseState}
    {result : EStateM.Result ParseFailure ParseState β} (h : Runs limit step s through result) :
    (final result).index + (final result).pending.length = s.index + s.pending.length := by
  induction h with
  | look | throw | tooDeep | enter => rfl
  | move s =>
    by_cases hend : s.next.kind = .endOfInput
    · rw [final, ParseState.advance_of_end hend]
    · rw [final, ParseState.pending_eq_cons hend, List.length_cons, ParseState.index,
        (ParseState.advance_moves hend).1, List.length_cons, ParseState.index]
      omega
  | bindOk _ _ ih ih' => exact ih'.trans ih
  | bindError _ ih => exact ih
  | nested _ _ ih =>
    rw [final_closing]
    exact ih

end Parse

end RegisterLang
