import RegisterLang.Proofs.Grammar.Graft
import RegisterLang.Proofs.Grammar.Shape
import RegisterLang.Proofs.Grammar.Soundness

/-!
# Starts of phrases

What is read before a syntax error is the start of a phrase. `Blocked` says where a run gets stuck,
and `Open` that the tokens up to there can be completed: with other tokens from there on, and with
levels of nesting enough for them, all of it is read. There is one lemma for each part of the
grammar that leads from the one to the other; this file has those about expressions.
-/

namespace RegisterLang

namespace Parse

variable {β γ : Type}

/-- The run ends with a syntax error that is not about nesting, and `rest` is pending from the first
token that cannot be read on. A directive without a grammar is such a token, even though it is
passed when it is rejected. -/
inductive Blocked : EStateM.Result ParseFailure ParseState β → List Token → Prop where
  | next {cause : ParseError.Cause} {token : Token} {s : ParseState}
      (hdeep : ∀ limit, cause ≠ .tooDeep limit)
      (hword : ∀ word, cause ≠ .unsupportedDirective word) :
      Blocked (.error (.rejected ⟨cause, token⟩) s) s.pending
  | keyword {word : String} {token : Token} {s : ParseState} :
      Blocked (.error (.rejected ⟨.unsupportedDirective word, token⟩) s) (token :: s.pending)

namespace Blocked

variable {step : Parse β} {s : ParseState} {rest : List Token}

/-- A run that succeeded is not stuck. -/
theorem not_ok {b : β} (h : Blocked (.ok b s) rest) : False := by
  cases h

/-- Two steps in a row get stuck in the first one, or in the second one behind it. -/
theorem of_bind {further : β → Parse γ} (h : Blocked ((step >>= further) s) rest) :
    Blocked (step s) rest ∨ ∃ b s', step s = .ok b s' ∧ Blocked (further b s') rest := by
  cases hresult : step s with
  | ok b s' =>
    rw [bind_of_eq_ok hresult] at h
    exact .inr ⟨b, s', rfl, h⟩
  | error e s' =>
    rw [bind_of_eq_error hresult] at h
    left
    cases h with
    | next hdeep hword => exact .next hdeep hword
    | keyword => exact .keyword

/-- Nothing gets stuck behind the last step. -/
theorem of_bind_pure {f : β → γ} (h : Blocked ((step >>= fun b => pure (f b)) s) rest) :
    Blocked (step s) rest := by
  rcases h.of_bind with h | ⟨_, _, _, h⟩
  · exact h
  · exact h.not_ok.elim

/-- A step that is taken without its value gets stuck where the step does. -/
theorem of_discard {step : Parse β} (h : Blocked (discard step s) rest) :
    Blocked (step s) rest := by
  have hbind : Blocked ((step >>= fun _ => pure ()) s) rest := by
    rw [← map_eq_pure_bind]
    exact h
  exact hbind.of_bind_pure

/-- Two steps in a row, the first without its value, get stuck in the first or in the second. -/
theorem of_discard_bind {further : Unit → Parse γ}
    (h : Blocked ((discard step >>= further) s) rest) :
    Blocked (step s) rest ∨ ∃ b s', step s = .ok b s' ∧ Blocked (further () s') rest := by
  rcases h.of_bind with h | ⟨_, s', hstep, h⟩
  · exact .inl h.of_discard
  · obtain ⟨b, hstep⟩ := discard_eq_ok.mp hstep
    exact .inr ⟨b, s', hstep, h⟩

/-- Nothing gets stuck where a level of nesting is closed. -/
theorem of_closing {result : EStateM.Result ParseFailure ParseState β}
    (h : Blocked (closing result) rest) : Blocked result rest := by
  cases result with
  | ok b s => exact h.not_ok.elim
  | error e s =>
    cases h with
    | next hdeep hword => exact .next hdeep hword
    | keyword => exact .keyword

/-- A step that fails at the next token is stuck in front of it. -/
theorem of_fail {cause : ParseError.Cause} (hword : ∀ word, cause ≠ .unsupportedDirective word)
    (h : Blocked ((fail cause : Parse β) s) rest) : rest = s.pending := by
  have hresult : (fail cause : Parse β) s = .error (.rejected ⟨cause, s.next⟩) s := rfl
  rw [hresult] at h
  cases h with
  | next => rfl
  | keyword => exact absurd rfl (hword _)

/-- Behind a move, a run gets stuck in the further step. -/
theorem of_advance_bind {further : Token → Parse γ} (hne : s.next.kind ≠ .endOfInput)
    (h : Blocked ((advance >>= further) s) rest) :
    ∃ s', s.pending = s.next :: s'.pending ∧ Blocked (further s.next s') rest := by
  rw [bind_of_eq_ok ((advance_eq_ok hne).mpr ⟨rfl, rfl⟩)] at h
  exact ⟨s.advance, ParseState.pending_eq_cons hne, h⟩

/-- Behind a move without a value, a run gets stuck in the further step. -/
theorem of_discard_advance_bind {further : Unit → Parse γ} (hne : s.next.kind ≠ .endOfInput)
    (h : Blocked ((discard advance >>= further) s) rest) :
    ∃ s', s.pending = s.next :: s'.pending ∧ Blocked (further () s') rest := by
  rcases h.of_discard_bind with h | ⟨t, s', hadvance, h⟩
  · exact h.not_ok.elim
  · obtain ⟨_, rfl⟩ := (advance_eq_ok hne).mp hadvance
    exact ⟨s.advance, ParseState.pending_eq_cons hne, h⟩

/-- A token that must stand somewhere is missing there, or it is taken. -/
theorem of_consumeIf_bind {test : Token → Bool} {what : String} {further : Token → Parse γ}
    (htest : ∀ u, test u → u.kind ≠ .endOfInput)
    (h : Blocked ((consumeIf test what >>= further) s) rest) :
    rest = s.pending ∨
      ∃ t s', test t ∧ s.pending = t :: s'.pending ∧ Blocked (further t s') rest := by
  rcases h.of_bind with h | ⟨t, s', hconsume, h⟩
  · left
    rw [consumeIf, next_bind_run] at h
    split at h
    · exact h.not_ok.elim
    · exact h.of_fail (by rintro word ⟨⟩)
  · obtain ⟨ht, hpending⟩ := pending_of_consumeIf htest hconsume
    exact .inr ⟨t, s', ht, hpending, h⟩

/-- A token of some kind is missing where a run is stuck, or it is taken. -/
theorem of_consume_bind {kind : TokenKind} {what : String} {further : Token → Parse γ}
    (hkind : kind ≠ .endOfInput) (h : Blocked ((consume kind what >>= further) s) rest) :
    rest = s.pending ∨
      ∃ t s', t.kind = kind ∧ s.pending = t :: s'.pending ∧ Blocked (further t s') rest := by
  rcases h.of_consumeIf_bind (fun u hu => by rw [eq_of_beq hu]; exact hkind) with
    hrest | ⟨t, s', ht, hpending, h⟩
  · exact .inl hrest
  · exact .inr ⟨t, s', eq_of_beq ht, hpending, h⟩

/-- A delimiter is missing where a run is stuck, or it is taken. -/
theorem of_consumeDelimiter_bind {lexeme what : String} {further : Token → Parse γ}
    (h : Blocked ((consumeDelimiter lexeme what >>= further) s) rest) :
    rest = s.pending ∨
      ∃ t s', t.isDelimiter lexeme ∧ s.pending = t :: s'.pending ∧ Blocked (further t s') rest :=
  h.of_consumeIf_bind fun _ => kind_ne_of_isDelimiter

/-- A delimiter that is taken without its value is missing where a run is stuck, or it is taken. -/
theorem of_discard_consumeDelimiter_bind {lexeme what : String} {further : Unit → Parse γ}
    (h : Blocked ((discard (consumeDelimiter lexeme what) >>= further) s) rest) :
    rest = s.pending ∨
      ∃ t s', t.isDelimiter lexeme ∧ s.pending = t :: s'.pending ∧
        Blocked (further () s') rest := by
  rcases h.of_discard_bind with h | ⟨t, s', hconsume, h⟩
  · have hbind : Blocked ((consumeDelimiter lexeme what >>= pure) s) rest := by
      rw [bind_pure]
      exact h
    rcases hbind.of_consumeDelimiter_bind with hrest | ⟨t, s', _, _, h⟩
    · exact .inl hrest
    · exact h.not_ok.elim
  · obtain ⟨ht, hpending⟩ := pending_of_consumeDelimiter hconsume
    exact .inr ⟨t, s', ht, hpending, h⟩

/-- When a delimiter is all that is left to read, that is what is missing. -/
theorem of_discard_consumeDelimiter_bind_pure {lexeme what : String} {c : γ}
    (h : Blocked ((discard (consumeDelimiter lexeme what) >>= fun _ => pure c) s) rest) :
    rest = s.pending := by
  rcases h.of_discard_consumeDelimiter_bind with hrest | ⟨_, _, _, _, h⟩
  · exact hrest
  · exact h.not_ok.elim

/-- Behind an optional delimiter, a run gets stuck in what follows, with the delimiter taken or
not. -/
theorem of_matchDelimiter_bind {lexeme : String} {further : Bool → Parse γ}
    (h : Blocked ((matchDelimiter lexeme >>= further) s) rest) :
    (∃ t s', t.isDelimiter lexeme ∧ s.pending = t :: s'.pending ∧ Blocked (further true s') rest) ∨
      Blocked (further false s) rest := by
  rcases h.of_bind with hmatch | ⟨b, s', hmatch, hfurther⟩
  · rw [matchDelimiter, checkDelimiter_bind_run] at hmatch
    split at hmatch
    · exact hmatch.not_ok.elim
    · exact hmatch.not_ok.elim
  · rcases cases_of_matchDelimiter hmatch with ⟨rfl, t, ht, hpending⟩ | ⟨rfl, _, rfl⟩
    · exact .inl ⟨t, s', ht, hpending, hfurther⟩
    · exact .inr hfurther

end Blocked

end Parse

namespace Grammar

open Parse

/-! ### Starts of phrases -/

/-- Some tree is read as a phrase. -/
def Reading {β : Type} (phrase : β → Phrase Location) (n : Nat) (xs ys : List Token) : Prop :=
  ∃ b, Reads n (phrase b) xs ys

/-- What a production reads. -/
def readingOf : Production → Nat → List Token → List Token → Prop
  | .statement => Reading .statement
  | .expression => Reading .expression
  | .operand => Reading .operand

/-- Some tree is read as a phrase in front of a delimiter. -/
def Closed {β : Type} (phrase : β → Phrase Location) (lexeme : String) (n : Nat)
    (xs ys : List Token) : Prop :=
  ∃ b closing, Reads n (phrase b) xs (closing :: ys) ∧ closing.isDelimiter lexeme

/-- Tokens that may be put behind others to complete them: there is one, the first one is no sign,
and none is an end of the input. -/
def completes (zs : List Token) : Bool :=
  zs.head?.any (fun z => !isSign z) && zs.all (·.kind != .endOfInput)

/-- What is in front of `rest` in `xs` is the start of something to read: with other tokens in the
place of `rest`, with anything behind them and with levels enough, it is read. -/
def Open (reads : Nat → List Token → List Token → Prop) (xs rest : List Token) : Prop :=
  ∃ zs, completes zs ∧ ∃ least, ∀ n ≥ least, ∀ ys,
    ∃ xs', Grafted xs rest xs' (zs ++ ys) ∧ reads n xs' ys

/-- What a declaration without a semicolon allows behind it, it also allows when the tokens from
some point on are exchanged for ones that complete others. -/
theorem Grafted.staysApart_of_completes {xs rest xs' zs ys : List Token} (hzs : completes zs)
    (h : Grafted xs rest xs' (zs ++ ys)) :
    StaysApart (fun token => isSign token = false) xs xs' := by
  refine h.staysApart fun _ => ?_
  cases zs with
  | nil => cases hzs
  | cons z zs =>
    rintro next ⟨⟩
    simp only [completes, List.head?_cons, Option.any_some, Bool.and_eq_true,
      Bool.not_eq_true'] at hzs
    exact hzs.1

namespace Open

variable {reads reads' : Nat → List Token → List Token → Prop} {xs us rest : List Token}

/-- With `zs` in the place of what is left, and with levels enough for it, there is something to
read. -/
theorem missing (zs : List Token) (hzs : completes zs) (least : Nat)
    (h : ∀ n ys, ∃ xs', Grafted xs rest xs' (zs ++ ys) ∧ reads (n + least) xs' ys) :
    Open reads xs rest := by
  refine ⟨zs, hzs, least, fun n hn ys => ?_⟩
  obtain ⟨k, rfl⟩ : ∃ k, n = k + least := ⟨n - least, by omega⟩
  exact h k ys

/-- Nothing has been read, and `zs` alone would do. -/
theorem here (zs : List Token) (hzs : completes zs) (least : Nat)
    (h : ∀ n ys, reads (n + least) (zs ++ ys) ys) : Open reads xs xs :=
  missing zs hzs least fun n ys => ⟨zs ++ ys, .refl _ _, h n ys⟩

/-- The start of a part is the start of the whole, with what is in front of the part and with `tail`
behind it. -/
theorem within (tail : List Token) (htail : tail.all (·.kind != .endOfInput)) (least levels : Nat)
    (h : Open reads us rest)
    (hwhole : ∀ n ≥ least, ∀ us' ys,
      StaysApart (fun token => isSign token = false) us us' → reads n us' (tail ++ ys) →
      ∃ xs', Grafted xs us xs' us' ∧ reads' (n + levels) xs' ys) :
    Open reads' xs rest := by
  obtain ⟨zs, hzs, least', hreads⟩ := h
  refine ⟨zs ++ tail, ?_, max least least' + levels, fun n hn ys => ?_⟩
  · cases zs with
    | nil => cases hzs
    | cons z zs =>
      simp only [completes, List.head?_cons, Option.any_some, Bool.and_eq_true, List.cons_append,
        List.all_cons, List.all_append] at hzs ⊢
      exact ⟨hzs.1, hzs.2.1, hzs.2.2, htail⟩
  · obtain ⟨m, rfl⟩ : ∃ m, n = m + levels := ⟨n - levels, by omega⟩
    obtain ⟨us', hus, hpart⟩ := hreads m (by omega) (tail ++ ys)
    obtain ⟨xs', hxs, hwhole⟩ :=
      hwhole m (by omega) us' ys (hus.staysApart_of_completes hzs) hpart
    refine ⟨xs', ?_, hwhole⟩
    rw [List.append_assoc]
    exact hxs.trans hus

/-- The start of one phrase is the start of another one that consists of it. -/
theorem imp (levels : Nat) (h : Open reads us rest)
    (himp : ∀ n us' ys, reads n us' ys → reads' (n + levels) us' ys) : Open reads' us rest :=
  h.within [] rfl 0 levels fun _ _ us' ys _ hreads => ⟨us', .refl _ _, himp _ _ ys hreads⟩

/-- A phrase has been read, and what must follow it is missing. -/
theorem behind {m : Nat} {phrase : Phrase Location} (hphrase : Reads m phrase xs rest)
    (zs : List Token) (hzs : completes zs) (levels : Nat)
    (hwhole : ∀ n ≥ m, ∀ xs' ys, Grafted xs rest xs' (zs ++ ys) → Reads n phrase xs' (zs ++ ys) →
      reads' (n + levels) xs' ys) :
    Open reads' xs rest := by
  refine ⟨zs, hzs, m + levels, fun n hn ys => ?_⟩
  obtain ⟨k, rfl⟩ : ∃ k, n = k + levels := ⟨n - levels, by omega⟩
  have hapart := (Grafted.refl rest (zs ++ ys)).staysApart_of_completes hzs
  obtain ⟨xs', hxs, hphrase'⟩ := hphrase.graft hapart
  exact ⟨xs', hxs, hwhole k (by omega) xs' ys hxs (hphrase'.mono (by omega))⟩

end Open

/-- A phrase and the delimiter behind it are open when the phrase is, or when the delimiter is
missing; otherwise both are read. -/
theorem open_closed {β γ : Type} {m : Nat} {step : Parse β} {phrase : β → Phrase Location}
    {lexeme what : String} {further : β → Unit → Parse γ} {s : ParseState} {rest : List Token}
    (hreads : ∀ b s', step s = .ok b s' → Reads m (phrase b) s.pending s'.pending)
    (hopen : Blocked (step s) rest → Open (Reading phrase) s.pending rest)
    (h : Blocked ((step >>= fun b =>
      discard (consumeDelimiter lexeme what) >>= further b) s) rest) :
    Open (Closed phrase lexeme) s.pending rest ∨
      ∃ b closing s', closing.isDelimiter lexeme ∧
        Reads m (phrase b) s.pending (closing :: s'.pending) ∧ Blocked (further b () s') rest := by
  have hclosing := Token.isDelimiter_bare lexeme
  rcases h.of_bind with h | ⟨b, s₁, hstep, h⟩
  · left
    refine (hopen h).within [.bare .delimiter lexeme] rfl 0 0 ?_
    rintro n _ us' ys _ ⟨b, hb⟩
    exact ⟨us', .refl _ _, b, _, hb, hclosing⟩
  · have hb := hreads b s₁ hstep
    rcases h.of_discard_consumeDelimiter_bind with rfl | ⟨closing, s₂, hdelimiter, hpending, h⟩
    · left
      refine .behind hb [.bare .delimiter lexeme] rfl 0 ?_
      exact fun n _ xs' ys _ hb' => ⟨b, _, hb', hclosing⟩
    · rw [hpending] at hb
      exact .inr ⟨b, closing, s₂, hdelimiter, hb, h⟩

/-- An identifier alone is a primary. -/
theorem reads_identifier (n : Nat) (name : String) (ys : List Token) :
    Reads n (.primary (nameOf Token.location (.bare .identifier name)))
      (.bare .identifier name :: ys) ys :=
  .identifier rfl

/-- An identifier alone is an expression. -/
theorem reads_expression_identifier (n : Nat) (name : String) (ys : List Token) :
    Reads (n + 1) (.expression (nameOf Token.location (.bare .identifier name)))
      (.bare .identifier name :: ys) ys :=
  .value (.single (.plain (.bare (reads_identifier n name ys))))

section

variable {m : Nat} {inner : Production → Parse Tree} (hinner : Sound m inner)
  (hopen : ∀ production s rest, Blocked (inner production s) rest →
    Open (readingOf production) s.pending rest)
include hinner hopen

/-! ### Expressions -/

omit hinner in
/-- Where an expression gets stuck, it can be completed. -/
theorem open_expression {s : ParseState} {rest : List Token}
    (h : Blocked (inner .expression s) rest) : Open (Reading .expression) s.pending rest :=
  hopen .expression s rest h

/-- An expression and a delimiter behind it are open, or both are read. -/
theorem open_closedExpression {γ : Type} {lexeme what : String} {further : Tree → Unit → Parse γ}
    {s : ParseState} {rest : List Token}
    (h : Blocked ((inner .expression >>= fun tree =>
      discard (consumeDelimiter lexeme what) >>= further tree) s) rest) :
    Open (Closed .expression lexeme) s.pending rest ∨
      ∃ tree closing s', closing.isDelimiter lexeme ∧
        Reads m (.expression tree) s.pending (closing :: s'.pending) ∧
        Blocked (further tree () s') rest :=
  open_closed (fun _ _ => hinner.expression) (open_expression hopen) h

/-- Where an expression does not start, a name can be put. One in parentheses can be completed and
closed. -/
theorem open_primary {s : ParseState} {rest : List Token} (h : Blocked (primary inner s) rest) :
    Open (Reading .primary) s.pending rest := by
  rw [primary, liftM_eq, next_bind_run] at h
  -- A primary of one token is read as soon as it is seen.
  have single {tree : Tree} (h : Blocked ((do discard advance; return tree : Parse Tree) s) rest) :
      Open (Reading .primary) s.pending rest := by
    rcases h.of_discard_bind with h | ⟨_, _, _, h⟩
    · exact h.not_ok.elim
    · exact h.not_ok.elim
  cases hkind : literalKind? s.next.kind with
  | some kind =>
    simp only [hkind] at h
    exact single h
  | none =>
    simp only [hkind] at h
    split at h
    · exact single h
    · split at h
      · exact single h
      · split at h
        · next hopening =>
          obtain ⟨s₁, hpending, h⟩ := h.of_discard_advance_bind (kind_ne_of_isDelimiter hopening)
          rw [hpending]
          rcases open_closedExpression hinner hopen h with hcontent | ⟨_, _, _, _, _, h⟩
          · refine hcontent.within [] rfl 0 0 ?_
            rintro n _ us' ys _ ⟨content, closing, hcontent, hclosing⟩
            exact ⟨_, (Grafted.refl _ _).cons, content,
              .parenthesized hopening hcontent hclosing⟩
          · exact h.not_ok.elim
        · obtain rfl := h.of_fail (by rintro word ⟨⟩)
          exact .here [.bare .identifier "x"] rfl 0 fun n ys => ⟨_, reads_identifier n "x" ys⟩

/-- Where further arguments get stuck, the last of them can be completed. -/
theorem open_furtherArguments {room : List Token} {s : ParseState} {rest : List Token}
    (h : Blocked (furtherArguments inner room s) rest) :
    Open (Reading .furtherArguments) s.pending rest := by
  induction room generalizing s with
  | nil => exact h.not_ok.elim
  | cons _ room ih =>
    rw [furtherArguments] at h
    rcases h.of_matchDelimiter_bind with ⟨comma, s₁, hcomma, hpending, h⟩ | h
    · rw [if_pos rfl, liftM_eq, checkDelimiter_bind_run] at h
      rw [hpending]
      split at h
      · exact h.not_ok.elim
      · rcases h.of_bind with h | ⟨argument, s₂, hargument, h⟩
        · refine (open_expression hopen h).within [] rfl 0 0 ?_
          rintro n _ us' ys _ ⟨argument, hargument⟩
          exact ⟨_, (Grafted.refl _ _).cons, [argument],
            .furtherArgument hcomma hargument .noFurtherArgument⟩
        · rcases h.of_bind with h | ⟨_, _, _, h⟩
          · have hreads := hinner.expression hargument
            refine (ih h).within [] rfl m 0 ?_
            rintro n hn us' ys hapart ⟨others, hothers⟩
            obtain ⟨xs', hxs, hreads'⟩ := hreads.graft hapart
            exact ⟨_, hxs.cons, argument :: others,
              .furtherArgument hcomma (hreads'.mono hn) hothers⟩
          · exact h.not_ok.elim
    · exact h.not_ok.elim

/-- The arguments of a call with their closing parenthesis, from behind the opening one. -/
theorem open_call {xs : List Token} {s : ParseState} {rest : List Token} {callee : Tree}
    (hopening : s.next.isDelimiter "(") (hcallee : Reads m (.suffixed callee) xs s.pending)
    (h : Blocked (call inner callee s) rest) : Open (Reading .suffixed) xs rest := by
  obtain ⟨s₁, hpending, h⟩ := h.of_discard_advance_bind (kind_ne_of_isDelimiter hopening)
  rw [hpending] at hcallee
  -- With the arguments and the parenthesis behind them, the call is complete.
  have whole (hargs : Open (Closed .arguments ")") s₁.pending rest) :
      Open (Reading .suffixed) xs rest := by
    refine hargs.within [] rfl m 0 ?_
    rintro n hn us' ys _ ⟨args, closing, hargs, hclosing⟩
    obtain ⟨xs', hxs, hcallee'⟩ := hcallee.graft (.cons s.next _ us')
    exact ⟨xs', hxs.behind, _, .call (hcallee'.mono hn) hopening hargs hclosing⟩
  have finish {args : List Tree} {s₂ : ParseState} {what : String} {tree : Tree}
      (hargs : Reads m (.arguments args) s₁.pending s₂.pending)
      (h : Blocked ((discard (consumeDelimiter ")" what) >>= fun _ => pure tree) s₂) rest) :
      Open (Reading .suffixed) xs rest := by
    obtain rfl := h.of_discard_consumeDelimiter_bind_pure
    refine whole (.behind hargs [.bare .delimiter ")"] rfl 0 ?_)
    exact fun n _ xs' ys _ hargs' => ⟨args, _, hargs', rfl⟩
  rw [liftM_eq, checkDelimiter_bind_run] at h
  split at h
  · exact finish .noArgument h
  · rcases h.of_bind with h | ⟨argument, s₂, hargument, h⟩
    · refine whole ((open_expression hopen h).within [.bare .delimiter ")"] rfl 0 0 ?_)
      rintro n _ us' ys _ ⟨argument, hargument⟩
      exact ⟨us', .refl _ _, [argument], _, .someArguments hargument .noFurtherArgument, rfl⟩
    · have hreads := hinner.expression hargument
      rw [liftM_eq, room_bind_run] at h
      rcases h.of_bind with h | ⟨others, s₃, hothers, h⟩
      · refine whole
          ((open_furtherArguments hinner hopen h).within [.bare .delimiter ")"] rfl m 0 ?_)
        rintro n hn us' ys hapart ⟨others, hothers⟩
        obtain ⟨xs', hxs, hreads'⟩ := hreads.graft hapart
        exact ⟨xs', hxs, argument :: others, _, .someArguments (hreads'.mono hn) hothers, rfl⟩
      · exact finish (.someArguments hreads (reads_of_furtherArguments hinner hothers)) h

omit hinner hopen in
/-- Where a member gets stuck, its name is missing, and one can be put. -/
theorem open_member {xs : List Token} {s : ParseState} {rest : List Token} {object : Tree}
    (hdot : s.next.isDelimiter ".") (hobject : Reads m (.suffixed object) xs s.pending)
    (h : Blocked (member (m := Parse) object s) rest) : Open (Reading .suffixed) xs rest := by
  obtain ⟨s₁, hpending, h⟩ := h.of_discard_advance_bind (kind_ne_of_isDelimiter hdot)
  rw [hpending] at hobject
  rcases h.of_consume_bind (by decide) with rfl | ⟨_, _, _, _, h⟩
  · refine ⟨[.bare .identifier "x"], rfl, m, fun n hn ys => ?_⟩
    obtain ⟨xs', hxs, hobject'⟩ := hobject.graft (.cons s.next _ (.bare .identifier "x" :: ys))
    exact ⟨xs', hxs.behind, _, .member (hobject'.mono hn) hdot rfl⟩
  · exact h.not_ok.elim

/-- Where a call or a member gets stuck behind an expression, it can be completed, and the
expression stands in front of it. -/
theorem open_suffixes {room xs : List Token} {s : ParseState} {rest : List Token} {tree : Tree}
    (htree : Reads m (.suffixed tree) xs s.pending)
    (h : Blocked (suffixes inner room tree s) rest) : Open (Reading .suffixed) xs rest := by
  induction room generalizing s tree with
  | nil => exact h.not_ok.elim
  | cons _ room ih =>
    rw [suffixes, liftM_eq, checkDelimiter_bind_run] at h
    split at h
    · next hopening =>
      rcases h.of_bind with h | ⟨called, s₁, hcall, h⟩
      · exact open_call hinner hopen hopening htree h
      · exact ih (reads_of_call hinner hopening htree hcall) h
    · rw [liftM_eq, checkDelimiter_bind_run] at h
      split at h
      · next hdot =>
        rcases h.of_bind with h | ⟨object, s₁, hmember, h⟩
        · exact open_member hdot htree h
        · exact ih (reads_of_member hdot htree hmember) h
      · exact h.not_ok.elim

/-- Where an expression with calls and members gets stuck, it can be completed. -/
theorem open_suffixed {s : ParseState} {rest : List Token} (h : Blocked (suffixed inner s) rest) :
    Open (Reading .suffixed) s.pending rest := by
  rcases h.of_bind with h | ⟨tree, s₁, htree, h⟩
  · refine (open_primary hinner hopen h).imp 0 ?_
    rintro n us' ys ⟨tree, htree⟩
    exact ⟨tree, .bare htree⟩
  · exact open_suffixes hinner hopen (.bare (reads_of_primary hinner htree)) h

/-- Where an operand gets stuck behind its signs, it can be completed. -/
theorem open_unary {s : ParseState} {rest : List Token} (h : Blocked (unary inner s) rest) :
    Open (Reading .operand) s.pending rest := by
  rw [unary, liftM_eq, next_bind_run] at h
  split at h
  · next hop =>
    obtain ⟨s₁, hpending, h⟩ := h.of_discard_advance_bind (kind_ne_of_isUnary hop)
    rw [hpending]
    refine (hopen .operand s₁ rest h.of_bind_pure).within [] rfl 0 1 ?_
    rintro n _ us' ys _ ⟨operand, hoperand⟩
    exact ⟨_, (Grafted.refl _ _).cons, _, .unary hop hoperand⟩
  · refine (open_suffixed hinner hopen h).imp 0 ?_
    rintro n us' ys ⟨tree, htree⟩
    exact ⟨tree, .plain htree⟩

omit hinner hopen in
/-- Where a right operand gets stuck, it can be completed, and the operators and operands in front
of it stand, on this level of precedence. -/
theorem open_climb {right : Nat → Parse Tree} {least p : Nat}
    (hright : ∀ k, least < k → ∀ s tree s', right k s = .ok tree s' →
      Reads m (.binary k tree) s.pending s'.pending ∧ Below k s'.pending)
    (hopen : ∀ k, least < k → ∀ s rest, Blocked (right k s) rest →
      Open (Reading (.binary k)) s.pending rest)
    {room xs : List Token} {s : ParseState} {rest : List Token} {left : Tree}
    (hleast : least ≤ p) (hleft : Reads m (.binary p left) xs s.pending)
    (hbelow : Below (p + 1) s.pending) (h : Blocked (climb right least room left s) rest) :
    Open (Reading (.binary least)) xs rest := by
  induction room generalizing s left p with
  | nil => exact h.not_ok.elim
  | cons _ room ih =>
    rw [climb, liftM_eq, next_bind_run] at h
    split at h
    · next hop =>
      obtain ⟨hkind, hrank, hle⟩ := hop
      have hne : s.next.kind ≠ .endOfInput := by
        rw [hkind]
        decide
      obtain ⟨s₁, hpending, h⟩ := h.of_discard_advance_bind hne
      have hp : rank s.next.lexeme < p + 1 := hbelow _ (by rw [hpending]; rfl) hkind hrank
      rw [hpending] at hleft
      have htight := hleft.weaken (Nat.le_of_lt_succ hp)
      rcases h.of_bind with h | ⟨operand, s₂, hoperand, h⟩
      · refine (hopen _ (by omega) _ _ h).within [] rfl m 0 ?_
        rintro n hn us' ys _ ⟨operand, hoperand⟩
        obtain ⟨xs', hxs, htight'⟩ := htight.graft (.cons s.next _ us')
        exact ⟨xs', hxs.behind, _, .binary hkind hrank hle (htight'.mono hn) hoperand⟩
      · obtain ⟨hreads, hbelow₂⟩ := hright _ (by omega) _ _ _ hoperand
        exact ih hle (.binary hkind hrank (Nat.le_refl _) htight hreads) hbelow₂ h
    · exact h.not_ok.elim

/-- Where an operand between operators gets stuck, it can be completed, from any level of precedence
on. -/
theorem open_binaryWithin {levels least : Nat} (hlevels : topRank ≤ levels + least)
    {s : ParseState} {rest : List Token} (h : Blocked (binaryWithin inner levels least s) rest) :
    Open (Reading (.binary least)) s.pending rest := by
  have single {least : Nat} {s : ParseState} {rest : List Token}
      (h : Blocked (unary inner s) rest) : Open (Reading (.binary least)) s.pending rest := by
    refine (open_unary hinner hopen h).imp 0 ?_
    rintro n us' ys ⟨tree, htree⟩
    exact ⟨tree, .single htree⟩
  induction levels generalizing least s rest with
  | zero => exact single h
  | succ levels ih =>
    rcases h.of_bind with h | ⟨left, s₁, hleft, h⟩
    · exact single h
    · rw [liftM_eq, room_bind_run] at h
      have hbelow : Below (least + topRank + 1) s₁.pending := by
        intro op _ _ _
        have htop := rank_lt_topRank op.lexeme
        omega
      exact open_climb
        (fun k hk s tree s' hrun => reads_of_binaryWithin hinner (by omega) hrun)
        (fun k hk s rest h => ih (by omega) h)
        (Nat.le_add_right _ _) (.single (reads_of_unary hinner hleft)) hbelow h

/-- Where an assignment gets stuck, its left or its right side can be completed. -/
theorem open_assignment {s : ParseState} {rest : List Token}
    (h : Blocked (assignment inner s) rest) :
    Open (Reading .expression) s.pending rest := by
  rcases h.of_bind with h | ⟨left, s₁, hleft, h⟩
  · refine (open_binaryWithin hinner hopen (Nat.le_of_eq rfl) h).imp 1 ?_
    rintro n us' ys ⟨tree, htree⟩
    exact ⟨tree, .value htree⟩
  · have hreads := (reads_of_binaryWithin hinner (Nat.le_of_eq rfl) hleft).1
    rw [liftM_eq, check_bind_run] at h
    split at h
    · next hop =>
      have hkind : s₁.next.kind = .assignOperator := eq_of_beq hop
      obtain ⟨s₂, hpending, h⟩ := h.of_advance_bind (by rw [hkind]; decide)
      rw [hpending] at hreads
      refine (open_expression hopen h.of_bind_pure).within [] rfl m 1 ?_
      rintro n hn us' ys _ ⟨right, hright⟩
      obtain ⟨xs', hxs, hreads'⟩ := hreads.graft (.cons s₁.next _ us')
      exact ⟨xs', hxs.behind, _, .assignment (hreads'.mono hn) hkind hright⟩
    · exact h.not_ok.elim

end

end Grammar

end RegisterLang
