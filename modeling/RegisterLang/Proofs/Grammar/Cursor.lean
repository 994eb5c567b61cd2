import RegisterLang.Grammar.Cursor
import RegisterLang.Proofs.Steps

/-!
# Runs of the cursor

What a parser may still read are the tokens in front of the next end of the input. This file says
what the moves of the cursor do to these pending tokens: `Yields` states that a step succeeds on
them, with its result and with what it leaves, and the lemmas that end in `_ok` state what a step
must have found when it succeeded.
-/

namespace RegisterLang

namespace ParseState

/-- The tokens from the cursor to the next end of the input. -/
def pending (s : ParseState) : List Token :=
  (s.next :: s.rest).takeWhile (·.kind != .endOfInput)

/-- Nothing is pending exactly at an end of the input. -/
theorem pending_eq_nil_iff {s : ParseState} : s.pending = [] ↔ s.next.kind = .endOfInput := by
  simp [pending, List.takeWhile_cons]

/-- What is in front of the cursor and behind it when it moves. -/
theorem advance_moves {s : ParseState} (h : s.next.kind ≠ .endOfInput) :
    s.advance.passed = s.next :: s.passed ∧ s.advance.next :: s.advance.rest = s.rest ∧
      s.advance.entered = s.entered := by
  have hended := s.ended
  unfold advance
  rw [if_neg h]
  split
  · next hrest =>
    rw [hrest, List.getLastD_nil] at hended
    exact absurd hended h
  · next token rest hrest => exact ⟨rfl, hrest.symm, rfl⟩

/-- Advancing takes the first pending token. -/
theorem pending_eq_cons {s : ParseState} (h : s.next.kind ≠ .endOfInput) :
    s.pending = s.next :: s.advance.pending := by
  obtain ⟨_, hrest, _⟩ := advance_moves h
  rw [pending, pending, hrest, List.takeWhile_cons, if_pos (by simpa using h)]

/-- The token that advancing takes is then in front of the cursor. -/
theorem previous_advance {s : ParseState} (h : s.next.kind ≠ .endOfInput) :
    s.advance.previous = s.next := by
  rw [previous, (advance_moves h).1, List.headD_cons]

/-- There are at least as many tokens behind the cursor as are pending, since the list ends with an
end of the input. -/
theorem length_pending_le (s : ParseState) : s.pending.length ≤ s.rest.length := by
  by_contra hlong
  have hall : s.pending = s.next :: s.rest :=
    (List.takeWhile_sublist _).eq_of_length_le (by rw [List.length_cons, ← pending]; omega)
  have hlast : s.rest.getLastD s.next ∈ s.pending := by
    rw [hall]
    exact List.getLastD_mem_cons
  have hkind := List.all_eq_true.mp List.all_takeWhile _ hlast
  simp only [s.ended, bne_self_eq_false, Bool.false_eq_true] at hkind

/-- The token at the cursor is the first pending one, or an end of the input. -/
theorem next_eq_of_pending {s : ParseState} {t : Token} {ts : List Token}
    (h : s.pending = t :: ts) : s.next = t ∧ t.kind ≠ .endOfInput ∧ s.advance.pending = ts := by
  have hne : s.next.kind ≠ .endOfInput := by
    intro heq
    rw [pending_eq_nil_iff.mpr heq] at h
    cases h
  rw [pending_eq_cons hne, List.cons.injEq] at h
  exact ⟨h.1, h.1 ▸ hne, h.2⟩

/-- What is pending first, if anything is, is the next token. -/
theorem eq_next_of_mem_head?_pending {s : ParseState} {t : Token} (h : t ∈ s.pending.head?) :
    t = s.next := by
  cases hpending : s.pending with
  | nil =>
    rw [hpending] at h
    cases h
  | cons u us =>
    rw [hpending] at h
    obtain rfl : u = t := by simpa using h
    exact (next_eq_of_pending hpending).1.symm

/-- Advancing brings the cursor to the token that it saw behind the next one. -/
theorem next_advance {s : ParseState} (h : s.next.kind ≠ .endOfInput) :
    s.advance.next = s.peek 1 := by
  obtain ⟨_, hrest, _⟩ := advance_moves h
  rw [peek, List.getD_cons_succ, ← hrest, List.getD_cons_zero]

/-- A test that fails at the end of the input holds of the token behind the next one exactly if it
holds of the second pending one. -/
theorem peek_one_iff {s : ParseState} {t : Token} {ts : List Token} {test : Token → Prop}
    (htest : ∀ u, test u → u.kind ≠ .endOfInput) (h : s.pending = t :: ts) :
    test (s.peek 1) ↔ ∃ u ∈ ts.head?, test u := by
  obtain ⟨rfl, hne, rfl⟩ := next_eq_of_pending h
  rw [← next_advance hne]
  by_cases hend : s.advance.next.kind = .endOfInput
  · rw [pending_eq_nil_iff.mpr hend]
    constructor
    · intro hnext
      exact absurd hend (htest _ hnext)
    · rintro ⟨u, hu, _⟩
      cases hu
  · rw [pending_eq_cons hend]
    simp

end ParseState

namespace Parse

variable {β γ : Type}

/-! ### Steps that only look -/

section

variable {further : β → Parse γ} (s : ParseState)

/-- Behind a value, the next step runs in the same state. -/
theorem pure_bind_run (b : β) : (pure b >>= further) s = further b s := rfl

/-- The state that is looked at is the one the next step runs in. -/
theorem get_bind_run (further : ParseState → Parse γ) : (get >>= further) s = further s s := rfl

/-- The token that is looked at is the next one. -/
theorem next_bind_run (further : Token → Parse γ) : (next >>= further) s = further s.next s := rfl

/-- The room that is looked at is what is behind the next token. -/
theorem room_bind_run (further : List Token → Parse γ) :
    (room >>= further) s = further s.rest s := rfl

/-- The outcome of a test for a kind is that of the test of the next token. -/
theorem check_bind_run (kind : TokenKind) (further : Bool → Parse γ) :
    (check kind >>= further) s = further (s.next.kind == kind) s := rfl

/-- The outcome of a test for a kind and a text is that of the test of the next token. -/
theorem checkIs_bind_run (kind : TokenKind) (lexeme : String) (further : Bool → Parse γ) :
    (checkIs kind lexeme >>= further) s = further (s.next.is kind lexeme) s := rfl

/-- The outcome of a test for a delimiter is that of the test of the next token. -/
theorem checkDelimiter_bind_run (lexeme : String) (further : Bool → Parse γ) :
    (checkDelimiter lexeme >>= further) s = further (s.next.isDelimiter lexeme) s := rfl

end

/-! ### Steps that succeeded -/

/-- A failure is no success. -/
theorem fail_ne_ok {cause : ParseError.Cause} {s s' : ParseState} {b : β} :
    fail cause s ≠ .ok b s' := by
  intro h
  cases h

/-- Advancing over a token that is no end of the input takes it and returns it. -/
theorem advance_eq_ok {s s' : ParseState} {t : Token} (hne : s.next.kind ≠ .endOfInput) :
    advance s = .ok t s' ↔ t = s.next ∧ s' = s.advance := by
  rw [← ParseState.previous_advance hne]
  exact pure_eq_ok

/-- When a step behind a move succeeded, the next token was passed to it and is no longer
pending. -/
theorem exists_of_advance_bind {further : Token → Parse γ} {s s'' : ParseState} {c : γ}
    (hne : s.next.kind ≠ .endOfInput) (h : (advance >>= further) s = .ok c s'') :
    ∃ s', s.pending = s.next :: s'.pending ∧ further s.next s' = .ok c s'' := by
  obtain ⟨t, s', hadvance, h⟩ := bind_eq_ok.mp h
  obtain ⟨rfl, rfl⟩ := (advance_eq_ok hne).mp hadvance
  exact ⟨s.advance, ParseState.pending_eq_cons hne, h⟩

/-- When a step behind a move succeeded, the next token is no longer pending. -/
theorem exists_of_discard_advance_bind {further : Unit → Parse γ} {s s'' : ParseState} {c : γ}
    (hne : s.next.kind ≠ .endOfInput) (h : (discard advance >>= further) s = .ok c s'') :
    ∃ s', s.pending = s.next :: s'.pending ∧ further () s' = .ok c s'' := by
  obtain ⟨t, s', hadvance, h⟩ := discard_bind_eq_ok.mp h
  obtain ⟨rfl, rfl⟩ := (advance_eq_ok hne).mp hadvance
  exact ⟨s.advance, ParseState.pending_eq_cons hne, h⟩

/-- A token that was taken passed the test, and was the first pending one. -/
theorem pending_of_consumeIf {test : Token → Bool} {what : String} {s s' : ParseState} {t : Token}
    (htest : ∀ u, test u → u.kind ≠ .endOfInput) (h : consumeIf test what s = .ok t s') :
    test t ∧ s.pending = t :: s'.pending := by
  rw [consumeIf, next_bind_run] at h
  split at h
  · next hholds =>
    obtain ⟨rfl, rfl⟩ := (advance_eq_ok (htest _ hholds)).mp h
    exact ⟨hholds, ParseState.pending_eq_cons (htest _ hholds)⟩
  · exact absurd h fail_ne_ok

/-- A token that was just passed is the one behind the cursor. -/
theorem previous_of_consumeIf {test : Token → Bool} {what : String} {s s' : ParseState} {t : Token}
    (h : consumeIf test what s = .ok t s') : s'.previous = t := by
  rw [consumeIf, next_bind_run] at h
  split at h
  · obtain ⟨rfl, rfl⟩ := pure_eq_ok.mp h
    rfl
  · exact absurd h fail_ne_ok

/-- A token of a kind and a lexeme is no end of the input, unless that is the kind. -/
theorem kind_ne_of_is {kind : TokenKind} {lexeme : String} {t : Token}
    (hkind : kind ≠ .endOfInput) (h : t.is kind lexeme) : t.kind ≠ .endOfInput := by
  rw [(Token.is_iff.mp h).1]
  exact hkind

/-- An end of the input is no delimiter. -/
theorem kind_ne_of_isDelimiter {lexeme : String} {t : Token} (h : t.isDelimiter lexeme) :
    t.kind ≠ .endOfInput :=
  kind_ne_of_is (by decide) h

/-- A delimiter that was passed was pending first. -/
theorem pending_of_consumeDelimiter {lexeme what : String} {s s' : ParseState} {t : Token}
    (h : consumeDelimiter lexeme what s = .ok t s') :
    t.isDelimiter lexeme ∧ s.pending = t :: s'.pending :=
  pending_of_consumeIf (fun _ => kind_ne_of_isDelimiter) h

/-- When a step behind a delimiter succeeded, the delimiter was there and was pending first. -/
theorem exists_of_discard_consumeDelimiter_bind {lexeme what : String} {further : Unit → Parse γ}
    {s s'' : ParseState} {c : γ}
    (h : (discard (consumeDelimiter lexeme what) >>= further) s = .ok c s'') :
    ∃ t s', t.isDelimiter lexeme ∧ s.pending = t :: s'.pending ∧ further () s' = .ok c s'' := by
  obtain ⟨t, s', hconsume, h⟩ := discard_bind_eq_ok.mp h
  obtain ⟨ht, hpending⟩ := pending_of_consumeDelimiter hconsume
  exact ⟨t, s', ht, hpending, h⟩

/-- When a value was given behind a delimiter, the delimiter was there and was pending first. -/
theorem exists_of_discard_consumeDelimiter_pure {lexeme what : String} {b c : γ} {s s' : ParseState}
    (h : (discard (consumeDelimiter lexeme what) >>= fun _ => pure b) s = .ok c s') :
    ∃ t, t.isDelimiter lexeme ∧ s.pending = t :: s'.pending ∧ b = c := by
  obtain ⟨t, s₁, ht, hpending, hresult⟩ := exists_of_discard_consumeDelimiter_bind h
  obtain ⟨rfl, rfl⟩ := pure_eq_ok.mp hresult
  exact ⟨t, ht, hpending, rfl⟩

/-- A token of a kind that was passed was pending first, unless the kind is the end of the input. -/
theorem pending_of_consume {kind : TokenKind} {what : String} {s s' : ParseState} {t : Token}
    (hkind : kind ≠ .endOfInput) (h : consume kind what s = .ok t s') :
    t.kind = kind ∧ s.pending = t :: s'.pending := by
  have htest : ∀ u : Token, (u.kind == kind) → u.kind ≠ .endOfInput := by
    intro u hu
    rw [eq_of_beq hu]
    exact hkind
  obtain ⟨hk, hpending⟩ := pending_of_consumeIf htest h
  exact ⟨eq_of_beq hk, hpending⟩

/-- A delimiter is taken when it is the first pending token, and otherwise nothing happens. -/
theorem cases_of_matchDelimiter {lexeme : String} {s s' : ParseState} {b : Bool}
    (h : matchDelimiter lexeme s = .ok b s') :
    (b = true ∧ ∃ t, t.isDelimiter lexeme ∧ s.pending = t :: s'.pending) ∨
      (b = false ∧ s.next.isDelimiter lexeme = false ∧ s' = s) := by
  rw [matchDelimiter, checkDelimiter_bind_run] at h
  split at h
  · next hholds =>
    left
    obtain ⟨s₁, hpending, hresult⟩ :=
      exists_of_discard_advance_bind (kind_ne_of_isDelimiter hholds) h
    obtain ⟨rfl, rfl⟩ := pure_eq_ok.mp hresult
    exact ⟨rfl, s.next, hholds, hpending⟩
  · next hfails =>
    right
    obtain ⟨rfl, rfl⟩ := pure_eq_ok.mp h
    exact ⟨rfl, by simpa using hfails, rfl⟩

/-- When a step behind an optional delimiter succeeded, either the delimiter was there and is no
longer pending, or nothing was passed. -/
theorem cases_of_matchDelimiter_bind {lexeme : String} {further : Bool → Parse γ}
    {s s'' : ParseState} {c : γ} (h : (matchDelimiter lexeme >>= further) s = .ok c s'') :
    (∃ t s', t.isDelimiter lexeme ∧ s.pending = t :: s'.pending ∧
      further true s' = .ok c s'') ∨
      (s.next.isDelimiter lexeme = false ∧ further false s = .ok c s'') := by
  obtain ⟨b, s', hmatch, hfurther⟩ := bind_eq_ok.mp h
  rcases cases_of_matchDelimiter hmatch with ⟨rfl, t, ht, hpending⟩ | ⟨rfl, hfails, rfl⟩
  · exact .inl ⟨t, s', ht, hpending, hfurther⟩
  · exact .inr ⟨hfails, hfurther⟩

/-! ### A level of nesting -/

/-- Closes a level of nesting at the end of a run. -/
def closing : EStateM.Result ParseFailure ParseState β → EStateM.Result ParseFailure ParseState β
  | .ok b s => .ok b { s with depth := s.depth - 1 }
  | .error e s => .error e { s with depth := s.depth - 1 }

section

variable {limit : Int} {step : Parse β} {s s' : ParseState}

/-- Below the limit a level is opened in front of the step, and closed behind it. -/
theorem nested_run (h : ¬ limit ≤ s.depth) :
    nested limit step s = closing (step { s with depth := s.depth + 1 }) :=
  if_neg h

/-- At the limit no level can be opened. -/
theorem nested_run_of_le (h : limit ≤ s.depth) :
    nested limit step s = .error (.rejected ⟨.tooDeep limit, s.next⟩) s :=
  if_pos h

/-- A level that is closed was read with the same value, and the depth is one less. -/
theorem closing_eq_ok {result : EStateM.Result ParseFailure ParseState β} {b : β} :
    closing result = .ok b s' ↔ ∃ t, result = .ok b t ∧ s' = { t with depth := t.depth - 1 } := by
  cases result <;> simp [closing, eq_comm]

/-- A level that is closed failed in the same way, and the depth is one less. -/
theorem closing_eq_error {result : EStateM.Result ParseFailure ParseState β} {e : ParseFailure} :
    closing result = .error e s' ↔
      ∃ t, result = .error e t ∧ s' = { t with depth := t.depth - 1 } := by
  cases result <;> simp [closing, eq_comm]

/-- A level of nesting succeeds when it may be opened and its inside succeeds. -/
theorem nested_eq_ok {b : β} :
    nested limit step s = .ok b s' ↔ ¬ limit ≤ s.depth ∧
      ∃ t, step { s with depth := s.depth + 1 } = .ok b t ∧
        s' = { t with depth := t.depth - 1 } := by
  by_cases hdeep : limit ≤ s.depth
  · rw [nested_run_of_le hdeep]
    simp [hdeep]
  · rw [nested_run hdeep, closing_eq_ok]
    simp [hdeep]

/-- A level of nesting fails when it may not be opened, at the next token, or when its inside
fails. -/
theorem nested_eq_error {e : ParseFailure} :
    nested limit step s = .error e s' ↔
      (limit ≤ s.depth ∧ e = .rejected ⟨.tooDeep limit, s.next⟩ ∧ s' = s) ∨
      (¬ limit ≤ s.depth ∧ ∃ t, step { s with depth := s.depth + 1 } = .error e t ∧
        s' = { t with depth := t.depth - 1 }) := by
  by_cases hdeep : limit ≤ s.depth
  · rw [nested_run_of_le hdeep]
    simp [hdeep, eq_comm]
  · rw [nested_run hdeep, closing_eq_error]
    simp [hdeep]

end

/-! ### Steps that succeed -/

/-- Wherever `xs` are pending at this depth, the step succeeds with the result `b` and leaves `ys`
pending at the same depth. -/
def Yields (depth : Nat) (step : Parse β) (xs : List Token) (b : β) (ys : List Token) : Prop :=
  ∀ s : ParseState, s.pending = xs → s.depth = depth →
    ∃ s', step s = .ok b s' ∧ s'.pending = ys ∧ s'.depth = depth

namespace Yields

variable {depth : Nat} {xs ys zs : List Token} {t : Token} {b : β} {c : γ}

/-- A value takes nothing. -/
theorem pure : Yields depth (pure b) xs b xs :=
  fun s hs hd => ⟨s, rfl, hs, hd⟩

/-- What two steps in a row take is what each of them takes. -/
theorem bind {step : Parse β} {further : β → Parse γ} (hstep : Yields depth step xs b ys)
    (hfurther : Yields depth (further b) ys c zs) : Yields depth (step >>= further) xs c zs := by
  intro s hs hd
  obtain ⟨s', hstep, hs', hd'⟩ := hstep s hs hd
  obtain ⟨s'', hfurther, hs'', hd''⟩ := hfurther s' hs' hd'
  exact ⟨s'', bind_eq_ok.mpr ⟨b, s', hstep, hfurther⟩, hs'', hd''⟩

/-- To change the value of a step takes nothing else. -/
theorem map {f : β → γ} {step : Parse β} (hstep : Yields depth step xs b ys) :
    Yields depth (f <$> step) xs (f b) ys := by
  intro s hs hd
  obtain ⟨s', hstep, hs', hd'⟩ := hstep s hs hd
  exact ⟨s', map_eq_ok.mpr ⟨b, hstep, rfl⟩, hs', hd'⟩

/-- To drop the value of a step takes nothing else. -/
theorem discard {step : Parse β} (hstep : Yields depth step xs b ys) :
    Yields depth (discard step) xs () ys := by
  intro s hs hd
  obtain ⟨s', hstep, hs', hd'⟩ := hstep s hs hd
  exact ⟨s', discard_eq_ok.mpr ⟨b, hstep⟩, hs', hd'⟩

/-- To look at the next token takes nothing. -/
theorem next : Yields depth next (t :: ys) t (t :: ys) := by
  intro s hs hd
  refine ⟨s, ?_, hs, hd⟩
  rw [← (ParseState.next_eq_of_pending hs).1]
  rfl

/-- Looking at the next token shows the first pending one, or else an end of the input. -/
theorem next_bind {further : Token → Parse γ}
    (hfurther : ∀ t, xs.head? = some t ∨ (xs = [] ∧ t.kind = .endOfInput) →
      Yields depth (further t) xs c zs) :
    Yields depth (Parse.next >>= further) xs c zs := by
  intro s hs hd
  rw [next_bind_run]
  refine hfurther s.next ?_ s hs hd
  cases xs with
  | nil => exact .inr ⟨rfl, ParseState.pending_eq_nil_iff.mp hs⟩
  | cons t xs => exact .inl (congrArg some (ParseState.next_eq_of_pending hs).1.symm)

/-- Advancing takes one token. -/
theorem advance : Yields depth advance (t :: ys) t ys := by
  intro s hs hd
  obtain ⟨rfl, hne, hys⟩ := ParseState.next_eq_of_pending hs
  exact ⟨s.advance, (advance_eq_ok hne).mpr ⟨rfl, rfl⟩, hys, by rw [ParseState.depth_advance, hd]⟩

/-- The next token of a state passes a test exactly if a first pending token does, when an end of
the input does not pass it. -/
theorem any_head?_pending {test : Token → Bool} (htest : ∀ u, test u → u.kind ≠ .endOfInput)
    (s : ParseState) : s.pending.head?.any test = test s.next := by
  by_cases hend : s.next.kind = .endOfInput
  · rw [ParseState.pending_eq_nil_iff.mpr hend]
    cases hnext : test s.next
    · rfl
    · exact absurd hend (htest _ hnext)
  · rw [ParseState.pending_eq_cons hend]
    rfl

/-- A test for a kind takes nothing. It tests the first of the pending tokens. -/
theorem check {kind : TokenKind} (hkind : kind ≠ .endOfInput) :
    Yields depth (check kind) xs (xs.head?.any (·.kind == kind)) xs := by
  intro s hs hd
  refine ⟨s, ?_, hs, hd⟩
  rw [← hs, any_head?_pending (fun u hu => by rw [eq_of_beq hu]; exact hkind)]
  rfl

/-- A test for a kind and a text takes nothing. It tests the first of the pending tokens. -/
theorem checkIs {kind : TokenKind} {lexeme : String} (hkind : kind ≠ .endOfInput) :
    Yields depth (checkIs kind lexeme) xs (xs.head?.any (·.is kind lexeme)) xs := by
  intro s hs hd
  refine ⟨s, ?_, hs, hd⟩
  rw [← hs, any_head?_pending (fun u => kind_ne_of_is hkind)]
  rfl

/-- A test for a delimiter takes nothing. It tests the first of the pending tokens. -/
theorem checkDelimiter {lexeme : String} :
    Yields depth (checkDelimiter lexeme) xs (xs.head?.any (·.isDelimiter lexeme)) xs :=
  checkIs (by decide)

/-- Rounds are bounded by a list with room for all pending tokens. -/
theorem room {further : List Token → Parse γ}
    (hfurther : ∀ room : List Token, xs.length ≤ room.length →
      Yields depth (further room) xs c zs) :
    Yields depth (Parse.room >>= further) xs c zs := by
  intro s hs hd
  rw [room_bind_run]
  exact hfurther s.rest (by rw [← hs]; exact s.length_pending_le) s hs hd

/-- A token that has to be there is taken. -/
theorem consumeIf {test : Token → Bool} {what : String} (ht : test t) :
    Yields depth (consumeIf test what) (t :: ys) t ys := by
  refine bind next ?_
  rw [if_pos ht]
  exact advance

/-- A token of the right kind is taken. -/
theorem consume {kind : TokenKind} {what : String} (ht : t.kind = kind) :
    Yields depth (consume kind what) (t :: ys) t ys :=
  consumeIf (by simpa using ht)

/-- The right delimiter is taken. -/
theorem consumeDelimiter {lexeme what : String} (ht : t.isDelimiter lexeme) :
    Yields depth (consumeDelimiter lexeme what) (t :: ys) t ys :=
  consumeIf ht

/-- An optional delimiter is taken when it is there. -/
theorem matchDelimiter_true {lexeme : String} (ht : t.isDelimiter lexeme) :
    Yields depth (matchDelimiter lexeme) (t :: ys) true ys := by
  refine bind checkDelimiter ?_
  rw [if_pos (by simpa using ht)]
  exact bind (discard advance) pure

/-- Nothing is taken when an optional delimiter is not there. -/
theorem matchDelimiter_false {lexeme : String} (hxs : ∀ u ∈ xs.head?, ¬ u.isDelimiter lexeme) :
    Yields depth (matchDelimiter lexeme) xs false xs := by
  refine bind checkDelimiter ?_
  rw [if_neg (by simpa [Option.any_eq_true] using hxs)]
  exact pure

/-- A level of nesting can be opened below the limit. -/
theorem nested {limit : Int} {step : Parse β} (hdepth : (depth : Int) < limit)
    (hstep : Yields (depth + 1) step xs b ys) : Yields depth (nested limit step) xs b ys := by
  intro s hs hd
  obtain ⟨s', hstep, hs', hd'⟩ := hstep { s with depth := s.depth + 1 } hs (by rw [hd])
  have hbelow : ¬ limit ≤ s.depth := by omega
  refine ⟨{ s' with depth := s'.depth - 1 }, nested_eq_ok.mpr ⟨hbelow, s', hstep, rfl⟩, hs', ?_⟩
  simp only [hd']
  omega

end Yields

end Parse

end RegisterLang
