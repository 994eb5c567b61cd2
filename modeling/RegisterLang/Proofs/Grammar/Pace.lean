import RegisterLang.Proofs.Grammar.Cursor
import RegisterLang.Proofs.Grammar.Shape

/-!
# Two runs at the same pace

A parser only moves forward, and it looks at most one token past its cursor. This file compares two
runs of it: on token lists that agree as far as they are read, and below limits on nesting of which
one may be lower. `KeepsPace` states that two steps stay together as long as the first one ends in
front of a horizon, and the lemmas below it say so of the steps that parsers are made of.
-/

namespace RegisterLang

/-! ### Moving forward -/

namespace ParseState

/-- At an end of the input the cursor stays where it is. -/
theorem advance_of_end {s : ParseState} (h : s.next.kind = .endOfInput) : s.advance = s :=
  if_pos h

/-- The cursor can get from one state to the other by moving forward: over tokens of the same list,
and over no end of the input. -/
structure Reaches (s t : ParseState) : Prop where
  tokens : t.tokens = s.tokens
  index_le : s.index ≤ t.index
  passed : ∀ token ∈ t.passed, token ∈ s.passed ∨ token.kind ≠ .endOfInput

namespace Reaches

/-- A cursor that stays has not moved backward. -/
theorem refl (s : ParseState) : s.Reaches s :=
  ⟨rfl, Nat.le_refl _, fun _ => .inl⟩

/-- Moves one after the other are a move. -/
theorem trans {s t u : ParseState} (h : s.Reaches t) (h' : t.Reaches u) : s.Reaches u where
  tokens := h'.tokens.trans h.tokens
  index_le := Nat.le_trans h.index_le h'.index_le
  passed := by
    intro token hmem
    rcases h'.passed token hmem with hmem | hkind
    · exact h.passed token hmem
    · exact .inr hkind

/-- The cursor is moved forward by one token, or stays at the end. -/
theorem advance (s : ParseState) : s.Reaches s.advance := by
  by_cases hend : s.next.kind = .endOfInput
  · rw [advance_of_end hend]
    exact refl s
  · have hpassed := (advance_moves hend).1
    refine ⟨s.tokens_advance, ?_, ?_⟩
    · rw [index, index, hpassed, List.length_cons]
      omega
    · rw [hpassed, List.forall_mem_cons]
      exact ⟨.inr hend, fun _ => .inl⟩

end Reaches

end ParseState

namespace Parse

variable {β γ : Type}

/-- The state in which a run ends, whether or not it succeeds. -/
def final : EStateM.Result ParseFailure ParseState β → ParseState
  | .ok _ s => s
  | .error _ s => s

/-- A level that is closed ends where its inside ended, one less deep. -/
theorem final_closing (result : EStateM.Result ParseFailure ParseState β) :
    final (closing result) = { final result with depth := (final result).depth - 1 } := by
  cases result <;> rfl

/-- The step only moves forward. -/
def Forward (step : Parse β) : Prop :=
  ∀ s : ParseState, s.Reaches (final (step s))

/-- Two steps in a row move forward if each of them does. -/
theorem Forward.bind {step : Parse β} {further : β → Parse γ} (hstep : Forward step)
    (hfurther : ∀ b, Forward (further b)) : Forward (step >>= further) := by
  intro s
  have hreaches := hstep s
  cases hresult : step s with
  | ok b s' =>
    rw [hresult] at hreaches
    rw [bind_of_eq_ok hresult]
    exact hreaches.trans (hfurther b s')
  | error e s' =>
    rw [hresult] at hreaches
    rwa [bind_of_eq_error hresult]

/-- Counting levels of nesting does not move the cursor. -/
theorem Forward.nested {limit : Int} {step : Parse β} (hstep : Forward step) :
    Forward (nested limit step) := by
  intro s
  by_cases hdeep : limit ≤ s.depth
  · rw [nested_run_of_le hdeep]
    exact ParseState.Reaches.refl s
  · have hreaches := hstep { s with depth := s.depth + 1 }
    rw [nested_run hdeep, final_closing]
    exact ⟨hreaches.tokens, hreaches.index_le, hreaches.passed⟩

end Parse

/-! ### What is compared -/

/-- How two runs are compared: by what is seen of the places of tokens, and below which limits on
nesting they run. The limit of the first run is not above that of the second. -/
structure Comparison (κ : Type) where
  view : Location → κ
  limit : Int
  limit' : Int
  limit_le : limit ≤ limit'

namespace Comparison

open ParseState

variable {κ β γ : Type} (c : Comparison κ)

/-- The comparison that sees everything. -/
def everything {limit limit' : Int} (h : limit ≤ limit') : Comparison Location :=
  ⟨id, limit, limit', h⟩

/-- What is seen of a token. -/
def seen (t : Token) : TokenKind × String × κ :=
  (t.kind, t.lexeme, c.view t.location)

/-- What is seen of a tree. -/
def tree (n : Tree) : Node κ :=
  n.map c.view

/-- Two token lists look the same for `n` tokens, or up to a first end of the input. -/
inductive Agree : Nat → List Token → List Token → Prop where
  | unseen {xs ys} : Agree 0 xs ys
  | stop {n x y xs ys} : c.seen x = c.seen y → x.kind = .endOfInput → Agree n (x :: xs) (y :: ys)
  | next {n x y xs ys} : c.seen x = c.seen y → Agree n xs ys → Agree (n + 1) (x :: xs) (y :: ys)

/-- Two states look the same: what is passed, and what is ahead as far as the horizon, which is an
index in the token list. -/
structure InStep (horizon : Nat) (s t : ParseState) : Prop where
  depth : s.depth = t.depth
  passed : s.passed.map c.seen = t.passed.map c.seen
  entered : s.entered.map c.seen = t.entered.map c.seen
  ahead : c.Agree (horizon - s.index) (s.next :: s.rest) (t.next :: t.rest)

/-- Two failures that look the same. -/
inductive SameFailure : ParseFailure → ParseFailure → Prop where
  | rejected {cause x y} :
      c.seen x = c.seen y → SameFailure (.rejected ⟨cause, x⟩) (.rejected ⟨cause, y⟩)
  | other (e : ParseFailure) : SameFailure e e

/-- Two results match when they look the same, or when the first run ran into a lower limit and the
second one got no less far. -/
inductive Matched (horizon : Nat) (view : β → γ) :
    EStateM.Result ParseFailure ParseState β → EStateM.Result ParseFailure ParseState β → Prop where
  | done {b b' s t} :
      view b = view b' → c.InStep horizon s t → Matched horizon view (.ok b s) (.ok b' t)
  | failed {e e' s t} :
      c.SameFailure e e' → c.InStep horizon s t → Matched horizon view (.error e s) (.error e' t)
  | cut {token s result} :
      c.limit < c.limit' → s.index ≤ (Parse.final result).index →
      Matched horizon view (.error (.rejected ⟨.tooDeep c.limit, token⟩) s) result

variable {c}

/-- Tokens look the same when they are alike and what is seen of their places is the same. -/
theorem seen_eq_iff {x y : Token} :
    c.seen x = c.seen y ↔ x.Alike y ∧ c.view x.location = c.view y.location := by
  simp only [seen, Prod.mk.injEq]
  constructor
  · rintro ⟨hkind, hlexeme, hplace⟩
    exact ⟨⟨hkind, hlexeme⟩, hplace⟩
  · rintro ⟨⟨hkind, hlexeme⟩, hplace⟩
    exact ⟨hkind, hlexeme, hplace⟩

/-- Tokens that look the same have the same kind. -/
theorem kind_eq {x y : Token} (h : c.seen x = c.seen y) : x.kind = y.kind :=
  (seen_eq_iff.mp h).1.kind

/-- Tokens that look the same have the same text. -/
theorem lexeme_eq {x y : Token} (h : c.seen x = c.seen y) : x.lexeme = y.lexeme :=
  (seen_eq_iff.mp h).1.lexeme

/-- What is seen of the places of tokens is the same when the tokens look the same. -/
theorem view_eq {x y : Token} (h : c.seen x = c.seen y) :
    c.view x.location = c.view y.location :=
  (seen_eq_iff.mp h).2

/-- What is seen of the places of trees is the same when the trees look the same. -/
theorem tag_eq {x y : Tree} (h : c.tree x = c.tree y) : c.view x.tag = c.view y.tag := by
  have htag := congrArg Node.tag h
  rwa [tree, tree, Node.tag_map, Node.tag_map] at htag

namespace InStep

variable {horizon : Nat} {s t : ParseState}

/-- Cursors in step have passed equally many tokens. -/
theorem index (h : c.InStep horizon s t) : s.index = t.index := by
  have hlength := congrArg List.length h.passed
  rwa [List.length_map, List.length_map] at hlength

/-- In front of the horizon, the tokens at the two cursors look the same. -/
theorem next (h : c.InStep horizon s t) (hbelow : s.index + 1 ≤ horizon) :
    c.seen s.next = c.seen t.next := by
  have hahead := h.ahead
  obtain ⟨n, hn⟩ : ∃ n, horizon - s.index = n + 1 := ⟨horizon - s.index - 1, by omega⟩
  rw [hn] at hahead
  cases hahead with
  | stop hseen => exact hseen
  | next hseen => exact hseen

/-- In front of the horizon, cursors that move on together stay in step. -/
theorem advance (h : c.InStep horizon s t) (hbelow : s.index + 1 ≤ horizon) :
    c.InStep horizon s.advance t.advance := by
  have hnext := h.next hbelow
  by_cases hend : s.next.kind = .endOfInput
  · rw [advance_of_end hend, advance_of_end ((kind_eq hnext).symm.trans hend)]
    exact h
  · have hend' : t.next.kind ≠ .endOfInput := by
      rw [← kind_eq hnext]
      exact hend
    obtain ⟨hpassed, hrest, hentered⟩ := advance_moves hend
    obtain ⟨hpassed', hrest', hentered'⟩ := advance_moves hend'
    have hahead := h.ahead
    obtain ⟨n, hn⟩ : ∃ n, horizon - s.index = n + 1 := ⟨horizon - s.index - 1, by omega⟩
    rw [hn] at hahead
    refine ⟨?_, ?_, ?_, ?_⟩
    · rw [depth_advance, depth_advance, h.depth]
    · rw [hpassed, hpassed', List.map_cons, List.map_cons, hnext, h.passed]
    · rw [hentered, hentered', h.entered]
    · have hindex : horizon - s.advance.index = n := by
        rw [ParseState.index, hpassed, List.length_cons, ← ParseState.index]
        omega
      rw [hrest, hrest', hindex]
      cases hahead with
      | stop _ hkind => exact absurd hkind hend
      | next _ hagree => exact hagree

/-- The tokens one place further look the same as well. -/
theorem peek (h : c.InStep horizon s t) (hbelow : s.index + 2 ≤ horizon)
    (hend : s.next.kind ≠ .endOfInput) : c.seen (s.peek 1) = c.seen (t.peek 1) := by
  have hend' : t.next.kind ≠ .endOfInput := by
    rw [← kind_eq (h.next (by omega))]
    exact hend
  rw [← next_advance hend, ← next_advance hend']
  refine (h.advance (by omega)).next ?_
  rw [ParseState.index, (advance_moves hend).1, List.length_cons, ← ParseState.index]
  omega

/-- The tokens in front of the two cursors look the same. -/
theorem previous (h : c.InStep horizon s t) (hbelow : s.index + 1 ≤ horizon) :
    c.seen s.previous = c.seen t.previous := by
  have hpassed := h.passed
  unfold ParseState.previous
  cases hs : s.passed with
  | nil =>
    rw [hs, List.map_nil] at hpassed
    rw [List.map_eq_nil_iff.mp hpassed.symm]
    exact h.next hbelow
  | cons x xs =>
    rw [hs, List.map_cons] at hpassed
    obtain ⟨y, ys, hys, hxy, _⟩ := List.map_eq_cons_iff.mp hpassed.symm
    rw [hys]
    exact hxy.symm

/-- Cursors are in step at any depth that both have. -/
theorem withDepth (h : c.InStep horizon s t) {depth depth' : Nat} (hdepth : depth = depth') :
    c.InStep horizon { s with depth } { t with depth := depth' } :=
  ⟨hdepth, h.passed, h.entered, h.ahead⟩

end InStep

/-- Results still match when the level is closed in which they were reached. -/
theorem Matched.closing {horizon : Nat} {view : β → γ}
    {result result' : EStateM.Result ParseFailure ParseState β}
    (h : c.Matched horizon view result result') :
    c.Matched horizon view (Parse.closing result) (Parse.closing result') := by
  cases h with
  | done hview hst => exact .done hview (hst.withDepth (by rw [hst.depth]))
  | failed hfailure hst => exact .failed hfailure (hst.withDepth (by rw [hst.depth]))
  | cut hlimit hindex =>
    refine .cut hlimit ?_
    rw [Parse.final_closing]
    exact hindex

end Comparison

/-! ### Steps that keep pace -/

namespace Parse

open Comparison

variable {κ β γ δ ε : Type}

/-- Two steps only move forward, and from states that look the same they come to results that match,
as long as the first one ends two tokens in front of the horizon. -/
structure KeepsPace (c : Comparison κ) (view : β → γ) (step step' : Parse β) : Prop where
  left : Forward step
  right : Forward step'
  matched : ∀ horizon s t, c.InStep horizon s t → (final (step s)).index + 2 ≤ horizon →
    c.Matched horizon view (step s) (step' t)

namespace KeepsPace

variable {c : Comparison κ} {view : β → γ} {further : δ → ε}

/-- Steps that only look at the state. -/
theorem look {f f' : ParseState → β}
    (h : ∀ horizon s t, c.InStep horizon s t → s.index + 2 ≤ horizon → view (f s) = view (f' t)) :
    KeepsPace c view (fun s => .ok (f s) s) (fun s => .ok (f' s) s) where
  left := ParseState.Reaches.refl
  right := ParseState.Reaches.refl
  matched horizon s t hstep hbelow := .done (h horizon s t hstep hbelow) hstep

/-- Values that look the same keep pace. -/
theorem pure {b b' : β} (h : view b = view b') :
    KeepsPace c view (pure b) (pure b') :=
  look fun _ _ _ _ _ => h

/-- Two steps in a row keep pace if each of them does, the second one from any values that look the
same. -/
theorem bind {view' : δ → ε} {step step' : Parse β} {further further' : β → Parse δ}
    (hstep : KeepsPace c view step step')
    (hfurther : ∀ b b', view b = view b' → KeepsPace c view' (further b) (further' b')) :
    KeepsPace c view' (step >>= further) (step' >>= further') where
  left := hstep.left.bind fun b => (hfurther b b rfl).left
  right := hstep.right.bind fun b => (hfurther b b rfl).right
  matched := by
    intro horizon s t hst hbelow
    cases hresult : step s with
    | ok b s₁ =>
      rw [bind_of_eq_ok hresult] at hbelow ⊢
      have hreaches := ((hfurther b b rfl).left s₁).index_le
      have hmatched := hstep.matched horizon s t hst (by rw [hresult, final]; omega)
      rw [hresult] at hmatched
      cases hresult' : step' t with
      | ok b' t₁ =>
        rw [hresult'] at hmatched
        obtain ⟨hb, hst₁⟩ := hmatched
        rw [bind_of_eq_ok hresult']
        exact (hfurther b b' hb).matched horizon s₁ t₁ hst₁ hbelow
      | error e t₁ =>
        rw [hresult'] at hmatched
        cases hmatched
    | error e s₁ =>
      rw [bind_of_eq_error hresult] at hbelow ⊢
      have hmatched := hstep.matched horizon s t hst (by rw [hresult]; exact hbelow)
      rw [hresult] at hmatched
      cases hresult' : step' t with
      | ok b' t₁ =>
        rw [hresult'] at hmatched
        rw [bind_of_eq_ok hresult']
        cases hmatched with
        | cut hlimit hle =>
          exact .cut hlimit (Nat.le_trans hle ((hfurther b' b' rfl).right t₁).index_le)
      | error e' t₁ =>
        rw [hresult'] at hmatched
        rw [bind_of_eq_error hresult']
        cases hmatched with
        | failed he hst₁ => exact .failed he hst₁
        | cut hlimit hle => exact .cut hlimit hle

/-- To change values keeps pace, if equal looks are kept. -/
theorem map {view' : δ → ε} {f f' : β → δ} {step step' : Parse β}
    (hstep : KeepsPace c view step step')
    (hf : ∀ b b', view b = view b' → view' (f b) = view' (f' b')) :
    KeepsPace c view' (f <$> step) (f' <$> step') := by
  rw [map_eq_pure_bind, map_eq_pure_bind]
  exact hstep.bind fun b b' hb => pure (hf b b' hb)

/-- To drop values keeps pace. -/
theorem discard {step step' : Parse β} (hstep : KeepsPace c view step step') :
    KeepsPace c (id : Unit → Unit) (discard step) (discard step') :=
  hstep.map fun _ _ _ => rfl

/-! ### Looking -/

/-- Cursors in step look at tokens that look the same. -/
theorem next : KeepsPace c c.seen next next :=
  look fun _ _ _ hst hbelow => hst.next (by omega)

/-- A step that is chosen by the next token may be replaced by one that runs the same in front of
that token. -/
theorem next_bind {view' : δ → ε} {f f' : Token → Parse δ}
    (h : ∀ x y, c.seen x = c.seen y → ∃ g g', KeepsPace c view' g g' ∧
      (∀ s : ParseState, s.next = x → f x s = g s) ∧
      (∀ t : ParseState, t.next = y → f' y t = g' t)) :
    KeepsPace c view' (Parse.next >>= f) (Parse.next >>= f') where
  left s := by
    obtain ⟨g, g', hg, hf, _⟩ := h s.next s.next rfl
    rw [next_bind_run, hf s rfl]
    exact hg.left s
  right t := by
    obtain ⟨g, g', hg, _, hf'⟩ := h t.next t.next rfl
    rw [next_bind_run, hf' t rfl]
    exact hg.right t
  matched := by
    intro horizon s t hst hbelow
    rw [next_bind_run] at hbelow ⊢
    rw [next_bind_run]
    have hindex : s.index + 1 ≤ horizon := by
      obtain ⟨g, g', hg, hf, _⟩ := h s.next s.next rfl
      have hreaches := (hg.left s).index_le
      rw [hf s rfl] at hbelow
      omega
    obtain ⟨g, g', hg, hf, hf'⟩ := h s.next t.next (hst.next hindex)
    rw [hf s rfl] at hbelow ⊢
    rw [hf' t rfl]
    exact hg.matched horizon s t hst hbelow

/-- A test of the next token that only reads it. -/
theorem test {test : Token → Bool} (htest : ∀ x y : Token, x.Alike y → test x = test y) :
    KeepsPace c id (do return test (← Parse.next)) (do return test (← Parse.next)) :=
  next.bind fun _ _ h => pure (htest _ _ (seen_eq_iff.mp h).1)

/-- A test for a kind has the same outcome. -/
theorem check {kind : TokenKind} : KeepsPace c id (check kind) (check kind) :=
  test fun x y h => by rw [h.kind]

/-- A test for a kind and a text has the same outcome. -/
theorem checkIs {kind : TokenKind} {lexeme : String} :
    KeepsPace c id (checkIs kind lexeme) (checkIs kind lexeme) :=
  test fun _ _ h => h.is_eq kind lexeme

/-- A test for a delimiter has the same outcome. -/
theorem checkDelimiter {lexeme : String} :
    KeepsPace c id (checkDelimiter lexeme) (checkDelimiter lexeme) :=
  checkIs

/-! ### Failing -/

/-- Failures at tokens that look the same look the same, if they have the same cause. -/
theorem failAt {cause : ParseError.Cause} {x y : Token} (h : c.seen x = c.seen y) :
    KeepsPace c view (failAt x cause) (failAt y cause) where
  left := ParseState.Reaches.refl
  right := ParseState.Reaches.refl
  matched _ _ _ hst _ := .failed (.rejected h) hst

/-- Failures at the next tokens look the same, if they have the same cause. -/
theorem fail {cause : ParseError.Cause} : KeepsPace c view (fail cause) (fail cause) :=
  next.bind fun _ _ => failAt

/-- A failure without a token is the same in both runs. -/
theorem throw {e : ParseFailure} :
    KeepsPace c view (throw e : Parse β) (MonadExcept.throw e : Parse β) where
  left := ParseState.Reaches.refl
  right := ParseState.Reaches.refl
  matched _ _ _ hst _ := .failed (.other e) hst

/-! ### Moving -/

/-- Cursors in step pass tokens that look the same. -/
theorem advance : KeepsPace c c.seen advance advance where
  left := ParseState.Reaches.advance
  right := ParseState.Reaches.advance
  matched horizon s t hst hbelow := by
    have hindex := (ParseState.Reaches.advance s).index_le
    have hbelow' : s.advance.index + 2 ≤ horizon := hbelow
    have hadvance := hst.advance (by omega)
    exact .done (hadvance.previous (by omega)) hadvance

/-- A token that has to be there is passed in both runs or missed in both, if the test is for what
tokens have in common. -/
theorem consumeIf {test : Token → Bool} {what : String}
    (htest : ∀ x y : Token, x.Alike y → test x = test y) :
    KeepsPace c c.seen (consumeIf test what) (consumeIf test what) := by
  refine next.bind fun x y h => ?_
  rw [htest x y (seen_eq_iff.mp h).1]
  split
  · exact advance
  · exact fail

/-- A token of some kind is passed in both runs or missed in both. -/
theorem consume {kind : TokenKind} {what : String} :
    KeepsPace c c.seen (consume kind what) (consume kind what) :=
  consumeIf fun x y h => by rw [h.kind]

/-- A token with some text is passed in both runs or missed in both. -/
theorem consumeIs {kind : TokenKind} {lexeme what : String} :
    KeepsPace c c.seen (Parse.consumeIf (·.is kind lexeme) what)
      (Parse.consumeIf (·.is kind lexeme) what) :=
  consumeIf fun _ _ h => h.is_eq kind lexeme

/-- A delimiter is passed in both runs or missed in both. -/
theorem consumeDelimiter {lexeme what : String} :
    KeepsPace c c.seen (consumeDelimiter lexeme what) (consumeDelimiter lexeme what) :=
  consumeIs

/-- An optional delimiter is passed in both runs or in neither. -/
theorem matchDelimiter {lexeme : String} :
    KeepsPace c id (matchDelimiter lexeme) (matchDelimiter lexeme) := by
  refine checkDelimiter.bind ?_
  rintro found _ rfl
  cases found with
  | true => exact advance.discard.bind fun _ _ _ => pure rfl
  | false => exact pure rfl

/-! ### Nesting -/

/-- The lower limit is reached first, and then the run below it ends where it is. -/
theorem nested {step step' : Parse β} (hstep : KeepsPace c view step step') :
    KeepsPace c view (nested c.limit step) (nested c.limit' step') where
  left := hstep.left.nested
  right := hstep.right.nested
  matched := by
    intro horizon s t hst hbelow
    by_cases hdeep : c.limit ≤ s.depth
    · rw [nested_run_of_le hdeep, final] at hbelow
      rw [nested_run_of_le hdeep]
      rcases Int.lt_or_eq_of_le c.limit_le with hlimit | hlimit
      · refine .cut hlimit ?_
        rw [hst.index]
        exact (hstep.right.nested t).index_le
      · rw [← hlimit, nested_run_of_le (by rwa [← hst.depth])]
        exact .failed (.rejected (hst.next (by omega))) hst
    · have hright : ¬ c.limit' ≤ t.depth := by
        have hle := c.limit_le
        rw [← hst.depth]
        omega
      have hmatched := hstep.matched horizon { s with depth := s.depth + 1 }
        { t with depth := t.depth + 1 } (hst.withDepth (by rw [hst.depth]))
      rw [nested_run hdeep, final_closing] at hbelow
      rw [nested_run hdeep, nested_run hright]
      exact (hmatched hbelow).closing

end KeepsPace

end Parse

end RegisterLang
