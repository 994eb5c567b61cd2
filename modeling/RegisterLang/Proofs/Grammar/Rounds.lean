import RegisterLang.Proofs.Grammar.Soundness

/-!
# Rounds

Repetitions take their rounds from a list of tokens. Every round takes a pending token, so a list
with room for all pending tokens never runs out, and it does not matter which one is taken.
-/

namespace RegisterLang.Grammar

open Parse

variable {α β : Type}

/-- A repetition runs the same in any room for all pending tokens. -/
def RunsInAnyRoom (loop : List Token → α → Parse β) : Prop :=
  ∀ (room room' : List Token) (a : α) (s : ParseState),
    s.pending.length ≤ room.length → s.pending.length ≤ room'.length →
      loop room a s = loop room' a s

/-- A repetition that stops at the end of the input, and otherwise goes on with fewer pending
tokens, needs no more room than for the pending tokens. -/
theorem runsInAnyRoom_of_round {loop : List Token → α → Parse β} (result : α → β)
    (hnil : ∀ a s, loop [] a s = .ok (result a) s)
    (hend : ∀ token room a s, s.pending = [] → loop (token :: room) a s = .ok (result a) s)
    (hround : ∀ token token' room room' a s,
      (∀ a' s', s'.pending.length < s.pending.length → loop room a' s' = loop room' a' s') →
      loop (token :: room) a s = loop (token' :: room') a s) :
    RunsInAnyRoom loop := by
  intro room
  induction room with
  | nil =>
    intro room' a s hroom _
    have hpending : s.pending = [] := List.eq_nil_of_length_eq_zero (Nat.le_zero.mp hroom)
    cases room' with
    | nil => rfl
    | cons token room' => rw [hnil, hend _ _ _ _ hpending]
  | cons token room ih =>
    intro room' a s hroom hroom'
    rw [List.length_cons] at hroom
    cases room' with
    | nil =>
      have hpending : s.pending = [] := List.eq_nil_of_length_eq_zero (Nat.le_zero.mp hroom')
      rw [hnil, hend _ _ _ _ hpending]
    | cons token' room' =>
      rw [List.length_cons] at hroom'
      refine hround _ _ _ _ a s fun a' s' hless => ?_
      exact ih room' a' s' (by omega) (by omega)

/-- The end of the input passes no test for something else. -/
theorem next_of_pending_eq_nil {test : Token → Bool} {s : ParseState} (h : s.pending = [])
    (htest : ∀ token, test token → token.kind ≠ .endOfInput) : test s.next = false := by
  by_contra hnext
  exact htest s.next (by simpa using hnext) (ParseState.pending_eq_nil_iff.mp h)

/-- No delimiter is next where nothing is pending. -/
theorem not_isDelimiter_of_pending {lexeme : String} {s : ParseState} (h : s.pending = []) :
    s.next.isDelimiter lexeme = false :=
  next_of_pending_eq_nil h fun _ => kind_ne_of_isDelimiter

/-- No delimiter is taken at the end of the input. -/
theorem matchDelimiter_run_of_pending {lexeme : String} {s : ParseState} (h : s.pending = []) :
    matchDelimiter lexeme s = .ok false s := by
  rw [matchDelimiter, checkDelimiter_bind_run, not_isDelimiter_of_pending h]
  rfl

/-- To move the cursor on leaves fewer pending tokens, unless it is at an end of the input. -/
theorem length_pending_lt_of_advance {s s' : ParseState} {u : Unit}
    (hne : s.next.kind ≠ .endOfInput) (h : discard advance s = .ok u s') :
    s'.pending.length < s.pending.length := by
  obtain ⟨t, hadvance⟩ := discard_eq_ok.mp h
  obtain ⟨rfl, rfl⟩ := (advance_eq_ok hne).mp hadvance
  rw [ParseState.pending_eq_cons hne, List.length_cons]
  omega

/-- A member leaves fewer pending tokens. -/
theorem length_pending_lt_of_member {s s' : ParseState} {object tree : Tree}
    (hdot : s.next.isDelimiter ".") (h : member (m := Parse) object s = .ok tree s') :
    s'.pending.length < s.pending.length := by
  obtain ⟨s₁, hpending, hrest⟩ := exists_of_discard_advance_bind (kind_ne_of_isDelimiter hdot) h
  obtain ⟨name, s₂, hname, hresult⟩ := bind_eq_ok.mp hrest
  obtain ⟨_, hpending₁⟩ := pending_of_consume (by decide) hname
  obtain ⟨rfl, rfl⟩ := pure_eq_ok.mp hresult
  rw [hpending, hpending₁, List.length_cons, List.length_cons]
  omega

/-- Further parameters need no more room than for the pending tokens. -/
theorem runsInAnyRoom_furtherParams :
    RunsInAnyRoom fun room (_ : Unit) => furtherParams room := by
  refine runsInAnyRoom_of_round (fun _ => []) (fun _ _ => rfl) ?_ ?_
  · intro token room _ s hpending
    exact bind_of_eq_ok (matchDelimiter_run_of_pending hpending)
  · intro token token' room room' _ s hagain
    refine bind_congr_ok fun b s₁ hmatch => ?_
    rcases cases_of_matchDelimiter hmatch with ⟨rfl, comma, _, hpending⟩ | ⟨rfl, _⟩
    · refine bind_congr_ok fun first s₂ hfirst => bind_congr_run (hagain () s₂ ?_)
      have hlength := (reads_of_param (n := 0) hfirst).length_le
      rw [hpending, List.length_cons]
      omega
    · rfl

/-- A loop over operators needs no more room than for the pending tokens, if its operands take no
tokens back. -/
theorem runsInAnyRoom_climb {right : Nat → Parse Tree} {least : Nat}
    (hright : ∀ m, least < m → ∀ s tree s', right m s = .ok tree s' →
      s'.pending.length ≤ s.pending.length) :
    RunsInAnyRoom (climb right least) := by
  refine runsInAnyRoom_of_round id (fun _ _ => rfl) ?_ ?_
  · intro token room left s hpending
    have hkind := ParseState.pending_eq_nil_iff.mp hpending
    rw [climb, liftM_eq, next_bind_run, if_neg (by simp [hkind])]
    rfl
  · intro token token' room room' left s hagain
    rw [climb, climb, liftM_eq, next_bind_run, next_bind_run]
    split
    · next hop =>
      have hne : s.next.kind ≠ .endOfInput := by
        rw [hop.1]
        decide
      refine bind_congr_ok fun _ s₁ hadvance => bind_congr_ok fun operand s₂ hoperand => ?_
      have hless := length_pending_lt_of_advance hne hadvance
      have hle := hright _ (by omega) _ _ _ hoperand
      exact hagain _ s₂ (by omega)
    · rfl

section

variable {n : Nat} {inner : Production → Parse Tree} (hinner : Sound n inner)
include hinner

/-- A call takes at least its parenthesis. -/
theorem length_pending_lt_of_call {s s' : ParseState} {callee tree : Tree}
    (hopening : s.next.isDelimiter "(") (h : call inner callee s = .ok tree s') :
    s'.pending.length < s.pending.length := by
  obtain ⟨args, closing, xs, hpending, hargs, _, _⟩ := exists_arguments_of_call hinner hopening h
  have hlength := hargs.length_le
  rw [List.length_cons] at hlength
  rw [hpending, List.length_cons]
  omega

/-- Further arguments need no more room than for the pending tokens. -/
theorem runsInAnyRoom_furtherArguments :
    RunsInAnyRoom fun room (_ : Unit) => furtherArguments inner room := by
  refine runsInAnyRoom_of_round (fun _ => []) (fun _ _ => rfl) ?_ ?_
  · intro token room _ s hpending
    exact bind_of_eq_ok (matchDelimiter_run_of_pending hpending)
  · intro token token' room room' _ s hagain
    refine bind_congr_ok fun b s₁ hmatch => ?_
    rcases cases_of_matchDelimiter hmatch with ⟨rfl, comma, _, hpending⟩ | ⟨rfl, _⟩
    · refine bind_congr_ok fun closes s₂ hcloses => ?_
      obtain ⟨rfl, rfl⟩ := pure_eq_ok.mp hcloses
      split
      · rfl
      · refine bind_congr_ok fun argument s₃ hargument => bind_congr_run (hagain () s₃ ?_)
        have hlength := (hinner.expression hargument).length_le
        rw [hpending, List.length_cons]
        omega
    · rfl

/-- Calls and members need no more room than for the pending tokens. -/
theorem runsInAnyRoom_suffixes : RunsInAnyRoom (suffixes inner) := by
  refine runsInAnyRoom_of_round id (fun _ _ => rfl) ?_ ?_
  · intro token room tree s hpending
    rw [suffixes, liftM_eq, checkDelimiter_bind_run, not_isDelimiter_of_pending hpending,
      if_neg Bool.false_ne_true, liftM_eq, checkDelimiter_bind_run,
      not_isDelimiter_of_pending hpending]
    rfl
  · intro token token' room room' tree s hagain
    rw [suffixes, suffixes, liftM_eq, checkDelimiter_bind_run, checkDelimiter_bind_run]
    split
    · next hopening =>
      refine bind_congr_ok fun called s₁ hcall => ?_
      exact hagain called s₁ (length_pending_lt_of_call hinner hopening hcall)
    · rw [liftM_eq, checkDelimiter_bind_run, checkDelimiter_bind_run]
      split
      · next hdot =>
        refine bind_congr_ok fun object s₁ hmember => ?_
        exact hagain object s₁ (length_pending_lt_of_member hdot hmember)
      · rfl

/-- Statements need no more room than for the pending tokens, if they end at the end of the
input. -/
theorem runsInAnyRoom_statementsUntil {isEnd : Token → Bool}
    (hend : ∀ token : Token, token.kind = .endOfInput → isEnd token) :
    RunsInAnyRoom fun room (_ : Unit) => statementsUntil inner isEnd room := by
  refine runsInAnyRoom_of_round (fun _ => []) (fun _ _ => rfl) ?_ ?_
  · intro token room _ s hpending
    show statementsUntil inner isEnd (token :: room) s = _
    rw [statementsUntil, liftM_eq, next_bind_run,
      if_pos (hend _ (ParseState.pending_eq_nil_iff.mp hpending))]
    rfl
  · intro token token' room room' _ s hagain
    show statementsUntil inner isEnd (token :: room) s =
      statementsUntil inner isEnd (token' :: room') s
    rw [statementsUntil, statementsUntil, liftM_eq, next_bind_run, next_bind_run]
    split
    · rfl
    · refine bind_congr_ok fun first s₁ hfirst => bind_congr_run (hagain () s₁ ?_)
      have hlength := (reads_of_statement hinner hfirst).length_le
      simp only [Phrase.nonempty, Bool.toNat_true] at hlength
      omega

end

end RegisterLang.Grammar
