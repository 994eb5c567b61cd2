import Mathlib.Data.List.Find
import RegisterLang.Proofs.Token.Layout
import RegisterLang.Proofs.Token.Session

/-!
# How far the scanner looks ahead

Whatever the scanner does, it looks no further than two characters behind the cursor where it ends.
So everything behind these two may be exchanged, and a malformed lexeme is reported in the same
words, at the same place and behind the same tokens. An operator of three characters is the reason
why this is about where the scanner ends, not where it starts: its third character is looked at only
if the first two are an operator, and then it goes on behind them.
-/

namespace RegisterLang

namespace ScanState

/-- The state in front of another text. -/
def facing (s : ScanState) (rest : List Char) : ScanState :=
  { s with rest }

/-- A state in front of another text has that text left. -/
@[simp] theorem rest_facing (s : ScanState) (rest : List Char) : (s.facing rest).rest = rest := rfl

/-- Reading the front of a text is the same in front of every text that starts so. -/
theorem read_facing {s : ScanState} {text ys : List Char} (hrest : s.rest = text ++ ys)
    (zs : List Char) :
    (s.facing (text ++ zs)).read text.length = (s.read text.length).facing zs := by
  simp only [read, facing, hrest, List.drop_left, List.take_left]

end ScanState

namespace Scanner

variable {α β : Type} {scanner : Scanner}

/-! ### Steps that are nearsighted -/

/-- The text that a step leaves, however it ends. -/
def left : EStateM.Result ScanError ScanState α → List Char
  | .ok _ s => s.rest
  | .error _ s => s.rest

/-- The same end of a step, in front of another text. -/
def facing (rest : List Char) :
    EStateM.Result ScanError ScanState α → EStateM.Result ScanError ScanState α
  | .ok a s => .ok a (s.facing rest)
  | .error e s => .error e (s.facing rest)

/-- The step ends in the text that it starts in, and it looks no further than two characters behind
its end: it does the same on every text that starts alike up to there. -/
def Nearsighted (step : Scan α) : Prop :=
  ∀ (s : ScanState) (near far : List Char), left (step s) = near ++ far → 2 ≤ near.length →
    ∃ used, s.rest = used ++ (near ++ far) ∧
      ∀ far', step (s.facing (used ++ (near ++ far'))) = facing (near ++ far') (step s)

namespace Nearsighted

variable {step : Scan α} {further : α → Scan β}

/-- A step that reads nothing may look at the first two characters. -/
theorem of_front
    (h : ∀ s : ScanState, ∃ step', Nearsighted step' ∧
      ∀ t : ScanState, t.rest.take 2 = s.rest.take 2 → step t = step' t) :
    Nearsighted step := by
  intro s near far hleft hlength
  obtain ⟨step', hstep', heq⟩ := h s
  rw [heq s rfl] at hleft ⊢
  obtain ⟨used, hrest, hfacing⟩ := hstep' s near far hleft hlength
  have htake (ys : List Char) : (used ++ (near ++ ys)).take 2 = (used ++ near).take 2 := by
    rw [← List.append_assoc,
      List.take_append_of_le_length (by rw [List.length_append]; omega)]
  refine ⟨used, hrest, fun far' => ?_⟩
  rw [heq _ (by rw [ScanState.rest_facing, hrest, htake, htake]), hfacing]

/-- A value looks at nothing. -/
theorem pure (a : α) : Nearsighted (pure a) :=
  fun _ _ _ hleft _ => ⟨[], hleft, fun _ => rfl⟩

/-- One step behind another looks as far as the two of them do. -/
theorem bind (hstep : Nearsighted step) (hfurther : ∀ a, Nearsighted (further a)) :
    Nearsighted (step >>= further) := by
  intro s near far hleft hlength
  cases hrun : step s with
  | ok a s' =>
    rw [bind_of_eq_ok hrun] at hleft ⊢
    obtain ⟨used', hrest', hfacing'⟩ := hfurther a s' near far hleft hlength
    obtain ⟨used, hrest, hfacing⟩ := hstep s (used' ++ near) far
      (by rw [hrun, left, hrest', List.append_assoc]) (by rw [List.length_append]; omega)
    refine ⟨used ++ used', by simpa using hrest, fun far' => ?_⟩
    have hrun' : step (s.facing (used ++ (used' ++ near ++ far'))) =
        .ok a (s'.facing (used' ++ (near ++ far'))) := by
      rw [hfacing, hrun, facing, List.append_assoc]
    have hbind : (step >>= further) _ = further a _ := bind_of_eq_ok hrun'
    rw [← hfacing', ← hbind]
    simp only [List.append_assoc]
  | error e s' =>
    rw [bind_of_eq_error hrun] at hleft ⊢
    obtain ⟨used, hrest, hfacing⟩ := hstep s near far (by rw [hrun]; exact hleft) hlength
    refine ⟨used, hrest, fun far' => ?_⟩
    have hrun' := hfacing far'
    rw [hrun] at hrun'
    rw [bind_of_eq_error hrun', facing]

/-- To drop the value of a step makes it look no further. -/
theorem discard (hstep : Nearsighted step) : Nearsighted (discard step) :=
  hstep.bind fun _ => .pure ()

/-- To ask for the place does not look at the text. -/
theorem place (scanner : Scanner) : Nearsighted scanner.place :=
  fun _ _ _ hleft _ => ⟨[], hleft, fun _ => rfl⟩

/-- To add a token does not look at the text. -/
theorem emit (kind : TokenKind) (lexeme : String) (place : Location) :
    Nearsighted (emit kind lexeme place) :=
  fun _ _ _ hleft _ => ⟨[], hleft, fun _ => rfl⟩

/-- A failure does not look at the text. -/
theorem fail (cause : ScanError.Cause) (place : Location) :
    Nearsighted (fail cause place : Scan α) :=
  fun _ _ _ hleft _ => ⟨[], hleft, fun _ => rfl⟩

/-- A choice looks as far as the branch that is taken. -/
theorem ite {p : Prop} [Decidable p] {step step' : Scan α} (hstep : Nearsighted step)
    (hstep' : Nearsighted step') : Nearsighted (if p then step else step') := by
  split
  · exact hstep
  · exact hstep'

/-- The next character is one behind the cursor. -/
theorem next? : Nearsighted next? := by
  intro s near far hleft hlength
  refine ⟨[], hleft, fun far' => ?_⟩
  change s.rest = near ++ far at hleft
  cases near with
  | nil => simp at hlength
  | cons c near =>
    change EStateM.Result.ok (some c) _ = EStateM.Result.ok s.rest.head? _
    rw [hleft]
    rfl

/-- Characters that are passed are in front of the cursor where it ends. -/
theorem skip (n : Nat) : Nearsighted (skip n) := by
  intro s near far hleft hlength
  change s.rest.drop n = near ++ far at hleft
  have hrest : s.rest = s.rest.take n ++ (near ++ far) := by rw [← hleft, List.take_append_drop]
  have hn : (s.rest.take n).length = n := by
    have hdrop := congrArg List.length hleft
    rw [List.length_drop, List.length_append] at hdrop
    rw [List.length_take]
    omega
  refine ⟨s.rest.take n, hrest, fun far' => ?_⟩
  have hread := ScanState.read_facing hrest (near ++ far')
  rw [hn] at hread
  rw [skip_run, skip_run, hread, facing]

/-- A run of characters ends at the first one that is not of the class. -/
theorem readWhile (p : Char → Bool) : Nearsighted (readWhile p) := by
  intro s near far hleft hlength
  obtain ⟨run, ys, hrest, hrun, hys⟩ := exists_run p s.rest
  have hreads (t : ScanState) (zs : List Char) (ht : t.rest = run ++ zs) (hzs : Stops p zs) :
      Scanner.readWhile p t = .ok run (t.read run.length) := by
    change EStateM.Result.ok _ _ = _
    rw [ht, takeWhile_append_of_stops hrun hzs]
  rw [hreads s ys hrest hys] at hleft ⊢
  rw [left, ScanState.rest_read_length hrest] at hleft
  subst hleft
  refine ⟨run, hrest, fun far' => ?_⟩
  have hstops := hys.append_of_ne_nil (List.ne_nil_of_length_pos (by omega)) far'
  rw [hreads _ _ rfl hstops, ScanState.read_facing hrest, facing]

/-- A loop looks as far as its rounds do, if it is given as many of them as it needs. -/
theorem loop {rounds : List Char → Scan α} (hrounds : ∀ room, Nearsighted (rounds room))
    (hcongr : ∀ (s : ScanState) (room room' : List Char), s.rest.length ≤ room.length →
      s.rest.length ≤ room'.length → rounds room s = rounds room' s) :
    Nearsighted (do rounds (← get).rest) := by
  intro s near far hleft hlength
  rw [get_bind_run] at hleft ⊢
  obtain ⟨used, hrest, -⟩ := hrounds s.rest s near far hleft hlength
  refine ⟨used, hrest, fun far' => ?_⟩
  -- Both texts have room in the two of them together.
  have hroom := hcongr s s.rest (s.rest ++ (used ++ (near ++ far'))) (Nat.le_refl _)
    (by rw [List.length_append]; omega)
  rw [hroom] at hleft ⊢
  obtain ⟨used', hrest', hfacing⟩ := hrounds _ s near far hleft hlength
  obtain rfl : used = used' := List.append_cancel_right (hrest.symm.trans hrest')
  rw [← hfacing far', get_bind_run, ScanState.rest_facing]
  apply hcongr
  · exact Nat.le_refl _
  · simp only [ScanState.rest_facing, List.length_append]
    omega

end Nearsighted

/-! ### Lexemes -/

variable (scanner)

/-- A comment is nearsighted: it ends in front of a line feed. -/
theorem nearsighted_comment : Nearsighted comment :=
  (Nearsighted.readWhile _).discard

/-- A string is nearsighted: it ends behind its quote, or in front of what is wrong with it. -/
theorem nearsighted_string (quote : Char) : Nearsighted (scanner.string quote) := by
  refine (Nearsighted.place scanner).bind fun start => (Nearsighted.skip 1).bind fun _ =>
    (Nearsighted.readWhile _).bind fun content => Nearsighted.next?.bind fun next => ?_
  cases next with
  | none => exact .fail _ _
  | some c =>
    apply Nearsighted.ite
    · exact (Nearsighted.place scanner).bind fun _ => .fail _ _
    · exact (Nearsighted.skip 1).bind fun _ => .emit _ _ _

/-- A delimiter is nearsighted. -/
theorem nearsighted_delimiter (c : Char) : Nearsighted (scanner.delimiter c) :=
  (Nearsighted.place scanner).bind fun _ => (Nearsighted.skip 1).bind fun _ => .emit _ _ _

/-- A word is nearsighted: it ends in front of what is no character of words. -/
theorem nearsighted_word : Nearsighted scanner.word :=
  (Nearsighted.place scanner).bind fun _ => (Nearsighted.readWhile _).bind fun _ => .emit _ _ _

/-- A member is nearsighted: only the character behind its dot is looked at. -/
theorem nearsighted_member : Nearsighted scanner.member := by
  have hfail : Nearsighted (do fail .invalidMember (← scanner.place) : Scan Unit) :=
    (Nearsighted.place scanner).bind fun _ => .fail _ _
  refine (nearsighted_delimiter scanner '.').bind fun _ => Nearsighted.next?.bind fun next => ?_
  cases next with
  | none => exact hfail
  | some c => exact .ite (nearsighted_word scanner) hfail

/-- Members in a row are nearsighted. -/
theorem nearsighted_members (room : List Char) : Nearsighted (scanner.members room) := by
  induction room with
  | nil => exact .pure ()
  | cons c room ih =>
    exact Nearsighted.next?.bind fun _ =>
      .ite ((nearsighted_member scanner).bind fun _ => ih) (.pure ())

/-- A chain of members is nearsighted. -/
theorem nearsighted_memberChain : Nearsighted scanner.memberChain :=
  .loop (nearsighted_members scanner) fun _ _ _ => members_congr

/-- A type is nearsighted: it ends behind the blanks that follow it. -/
theorem nearsighted_typeName : Nearsighted scanner.typeName := by
  have hfound (name : List Char) (start : Location) : Nearsighted (do
      emit .typeName (String.ofList name) start
      discard (readWhile Text.isBlank)) :=
    (Nearsighted.emit _ _ _).bind fun _ => (Nearsighted.readWhile _).discard
  exact (Nearsighted.place scanner).bind fun start => (Nearsighted.skip 1).bind fun _ =>
    (Nearsighted.readWhile _).discard.bind fun _ => (Nearsighted.readWhile _).bind fun name =>
      .ite ((Nearsighted.fail _ _).bind fun _ => hfound name start) (hfound name start)

/-- A register is nearsighted: only the character behind its name is looked at. -/
theorem nearsighted_register : Nearsighted scanner.register := by
  have hfound (name : List Char) (start : Location) : Nearsighted (do
      emit .register (String.ofList name) start
      if (← next?) = some ':' then scanner.typeName) :=
    (Nearsighted.emit _ _ _).bind fun _ => Nearsighted.next?.bind fun _ =>
      .ite (nearsighted_typeName scanner) (.pure ())
  refine (Nearsighted.place scanner).bind fun start => (Nearsighted.skip 1).bind fun _ =>
    (Nearsighted.readWhile _).bind fun name => .ite ?_ (hfound name start)
  exact Nearsighted.next?.bind fun _ => (Nearsighted.place scanner).bind fun _ =>
    (Nearsighted.fail _ _).bind fun _ => hfound name start

/-- A directive is nearsighted: it ends behind its word. -/
theorem nearsighted_directive : Nearsighted scanner.directive := by
  have hfound (word : String) (start : Location) : Nearsighted (do
      if (Directive.ofWord? word).isNone then fail (.unknownDirective word) start
      emit .directive word start) :=
    .ite ((Nearsighted.fail _ _).bind fun _ => .emit _ _ _) (.emit _ _ _)
  refine (Nearsighted.place scanner).bind fun start => (Nearsighted.skip 1).bind fun _ =>
    (Nearsighted.readWhile _).bind fun word => .ite ?_ (hfound (String.ofList word) start)
  exact (Nearsighted.place scanner).bind fun _ => (Nearsighted.fail _ _).bind fun _ =>
    hfound (String.ofList word) start

/-- A number with a radix is nearsighted: it ends behind its digits. -/
theorem nearsighted_radixNumber (radix : Radix) : Nearsighted (scanner.radixNumber radix) := by
  refine (Nearsighted.place scanner).bind fun start => Nearsighted.of_front fun s =>
    ⟨_, ?_, fun t ht => by rw [get_bind_run, ht]⟩
  exact (Nearsighted.skip 2).bind fun _ => (Nearsighted.readWhile _).bind fun _ =>
    .ite ((Nearsighted.fail _ _).bind fun _ => .emit _ _ _) (.emit _ _ _)

/-- A text that starts like another one has its first two characters. -/
theorem eq_of_take_two {xs ys zs : List Char} {c d : Char} (h : xs.take 2 = ys.take 2)
    (hys : ys = c :: d :: zs) : xs = c :: d :: xs.drop 2 := by
  rw [hys] at h
  exact (List.take_append_drop 2 xs).symm.trans (by rw [h]; rfl)

/-- A fraction is nearsighted: without a digit behind it, the dot is left for later. -/
theorem nearsighted_fraction : Nearsighted fraction := by
  refine Nearsighted.of_front fun s => ?_
  by_cases hfraction : ∃ c xs, s.rest = '.' :: c :: xs ∧ c.isDigit
  · obtain ⟨c, xs, hrest, hc⟩ := hfraction
    refine ⟨do skip 1; return '.' :: (← readWhile Char.isDigit), ?_, fun t ht => ?_⟩
    · exact (Nearsighted.skip 1).bind fun _ => (Nearsighted.readWhile _).bind fun _ => .pure _
    · rw [fraction, get_bind_run, eq_of_take_two ht hrest]
      simp only [hc, if_true]
  · refine ⟨pure [], .pure [], fun t ht => ?_⟩
    rw [fraction, get_bind_run]
    refine congrFun (?_ : (_ : Scan (List Char)) = _) t
    split
    · next c xs hrest =>
      rw [if_neg fun hc => hfraction ⟨c, _, eq_of_take_two ht.symm hrest, hc⟩]
    · rfl

/-- A decimal number is nearsighted. -/
theorem nearsighted_decimalNumber : Nearsighted scanner.decimalNumber :=
  (Nearsighted.place scanner).bind fun _ => (Nearsighted.readWhile _).bind fun _ =>
    nearsighted_fraction.bind fun _ => .emit _ _ _

/-- A number is nearsighted: its radix is told by its first two characters. -/
theorem nearsighted_number : Nearsighted scanner.number := by
  refine Nearsighted.of_front fun s => ?_
  rcases cases_of_radix s with ⟨letter, xs, radix, hrest, hletter⟩ | hnone
  · exact ⟨_, nearsighted_radixNumber scanner radix, fun t ht =>
      number_run_of_radix (eq_of_take_two ht hrest) hletter⟩
  · exact ⟨_, nearsighted_decimalNumber scanner, fun t ht =>
      number_run_of_not_radix fun letter ys hrest =>
        hnone letter _ (eq_of_take_two ht.symm hrest)⟩

/-! ### Operators -/

/-- What is at the front of a text is at the front of every text that starts like it. -/
theorem isPrefix_congr {op xs ys : List Char} {n : Nat} (h : xs.take n = ys.take n)
    (hop : op.length ≤ n) : op <+: xs ↔ op <+: ys := by
  have htake (zs : List Char) : op <+: zs ↔ op <+: zs.take n := by
    rw [List.prefix_take_iff]
    exact ⟨fun hzs => ⟨hzs, hop⟩, And.left⟩
  rw [htake xs, h, ← htake]

/-- Three characters tell which operator is at the front of a text. -/
theorem operatorAt_congr {xs ys : List Char} (h : xs.take 3 = ys.take 3) (c : Char) :
    operatorAt xs c = operatorAt ys c := by
  have hshort : ∀ op ∈ Operator.multiChar, op.toList.length ≤ 3 := by decide
  rw [operatorAt, operatorAt, List.find?_congr fun op hop => ?_]
  rw [Bool.eq_iff_iff, List.isPrefixOf_iff_prefix, List.isPrefixOf_iff_prefix]
  exact isPrefix_congr h (hshort op hop)

/-- Two characters tell that no operator is at the front of a text, because the first two characters
of an operator are one as well. -/
theorem operatorAt_of_kind?_eq_none {xs ys : List Char} {c : Char} (h : ys.take 2 = xs.take 2)
    (hnone : Operator.kind? (operatorAt xs c) = none) : operatorAt ys c = operatorAt xs c := by
  have hkinds : ∀ op ∈ Operator.multiChar, (Operator.kind? op).isSome := by decide
  have hhalves : ∀ op ∈ Operator.multiChar, ∃ half ∈ Operator.multiChar,
      half.toList = op.toList.take 2 := by decide
  have hxs : (Operator.multiChar.find? fun op => op.toList.isPrefixOf xs) = none := by
    cases hfind : Operator.multiChar.find? fun op => op.toList.isPrefixOf xs with
    | none => rfl
    | some op =>
      have hkind := hkinds op (List.mem_of_find?_eq_some hfind)
      rw [operatorAt, hfind, Option.getD_some] at hnone
      rw [hnone] at hkind
      cases hkind
  have hys : (Operator.multiChar.find? fun op => op.toList.isPrefixOf ys) = none := by
    rw [List.find?_eq_none] at hxs ⊢
    intro op hop hprefix
    obtain ⟨half, hhalf, hhalfList⟩ := hhalves op hop
    have hhalfPrefix : half.toList <+: ys := by
      rw [hhalfList]
      exact (List.take_prefix 2 _).trans (List.isPrefixOf_iff_prefix.mp hprefix)
    apply hxs half hhalf
    rw [List.isPrefixOf_iff_prefix]
    exact (isPrefix_congr h (by rw [hhalfList]; exact List.length_take_le 2 _)).mp hhalfPrefix
  rw [operatorAt, operatorAt, hxs, hys]

variable {scanner} (hoperators : scanner.operators = Operator.multiChar)
include hoperators

/-- An operator is nearsighted. Its third character is looked at only behind an operator of two. -/
theorem nearsighted_operator (c : Char) : Nearsighted (scanner.operator c) := by
  intro s near far hleft hlength
  rw [operator_run hoperators] at hleft ⊢
  cases hkind : Operator.kind? (operatorAt s.rest c) with
  | some kind =>
    simp only [hkind] at hleft ⊢
    have hpos : 1 ≤ (operatorAt s.rest c).toList.length := by
      refine List.length_pos_iff.mpr fun hnil => ?_
      rw [String.toList_eq_nil_iff.mp hnil] at hkind
      cases hkind
    obtain ⟨used, hrest, hskip⟩ := Nearsighted.skip _ s near far hleft hlength
    have hdrop := congrArg List.length hleft
    have hused := congrArg List.length hrest
    simp only [left, ScanState.rest_take, ScanState.read, List.length_drop,
      List.length_append] at hdrop hused
    refine ⟨used, hrest, fun far' => ?_⟩
    -- At least one character is read, so three of them are known.
    have htake (ys : List Char) : (used ++ (near ++ ys)).take 3 = (used ++ near).take 3 := by
      rw [← List.append_assoc,
        List.take_append_of_le_length (by rw [List.length_append]; omega)]
    have hsame : operatorAt (used ++ (near ++ far')) c = operatorAt s.rest c :=
      operatorAt_congr (by rw [hrest, htake, htake]) c
    have hread := hskip far'
    rw [skip_run, skip_run, facing, EStateM.Result.ok.injEq] at hread
    rw [operator_run hoperators, ScanState.rest_facing, hsame, hkind]
    simp only [ScanState.take, hread.2]
    rfl
  | none =>
    simp only [hkind] at hleft ⊢
    refine ⟨[], hleft, fun far' => ?_⟩
    have htake : ((near ++ far').take 2) = s.rest.take 2 := by
      change s.rest = near ++ far at hleft
      rw [hleft, List.take_append_of_le_length hlength, List.take_append_of_le_length hlength]
    have hsame := operatorAt_of_kind?_eq_none htake hkind
    rw [operator_run hoperators, ScanState.rest_facing, List.nil_append, hsame, hkind]
    rfl

/-! ### The pass -/

/-- A step of the scanner is nearsighted. -/
theorem nearsighted_step : Nearsighted scanner.step := by
  have hpeek {s t : ScanState} (ht : t.rest.take 2 = s.rest.take 2) (n : Nat) (hn : n < 2) :
      t.peek n = s.peek n := by
    rw [ScanState.peek, ScanState.peek, List.getD_eq_getElem?_getD, List.getD_eq_getElem?_getD,
      ← List.getElem?_take_of_lt hn, ht, List.getElem?_take_of_lt hn]
  refine Nearsighted.of_front fun s => ⟨_, ?_, fun t ht => by
    rw [step, get_bind_run, hpeek ht 0 (by decide), hpeek ht 1 (by decide)]⟩
  refine .ite (.skip 1) <| .ite nearsighted_comment <| .ite (nearsighted_string scanner _) <|
    .ite (nearsighted_delimiter scanner _) <| .ite ?_ <| .ite (nearsighted_directive scanner) <|
    .ite (nearsighted_number scanner) <| .ite ?_ (nearsighted_operator hoperators _)
  · exact (nearsighted_register scanner).bind fun _ => nearsighted_memberChain scanner
  · exact (nearsighted_word scanner).bind fun _ => nearsighted_memberChain scanner

/-- Steps in a row are nearsighted. -/
theorem nearsighted_steps (room : List Char) : Nearsighted (scanner.steps room) := by
  induction room with
  | nil => exact .pure ()
  | cons c room ih =>
    refine Nearsighted.of_front fun s =>
      ⟨if !s.rest.isEmpty then do scanner.step; scanner.steps room else return,
        .ite ((nearsighted_step hoperators).bind fun _ => ih) (.pure ()), fun t ht => ?_⟩
    have hempty : t.rest.isEmpty = s.rest.isEmpty := by
      have hlength := congrArg List.length ht
      rw [List.length_take, List.length_take] at hlength
      rw [Bool.eq_iff_iff, List.isEmpty_iff_length_eq_zero, List.isEmpty_iff_length_eq_zero]
      omega
    rw [steps, get_bind_run, hempty]

/-- The pass over a text looks no further than two characters behind where it ends. -/
theorem nearsighted_pass : Nearsighted scanner.pass :=
  .loop (nearsighted_steps hoperators) fun _ _ _ => steps_congr hoperators

omit hoperators

/-- A text is malformed where one of the steps through it fails. -/
theorem tokenize_eq_error_iff {source : List Char} {s₀ s : ScanState} {e : ScanError} :
    scanner.tokenize source s₀ = .error e s ↔
      scanner.pass (ScanState.start source) = .error e s := by
  have hrun : scanner.tokenize source s₀ =
      (scanner.pass >>= fun _ => scanner.place >>= emit .endOfInput "")
        (ScanState.start source) := rfl
  rw [hrun, bind_eq_error]
  constructor
  · rintro (hpass | ⟨u, s', -, hend⟩)
    · exact hpass
    · cases hend
  · exact .inl

/-- A malformed lexeme is reported whatever follows the two characters at which the cursor then
stands: the same error is found at the same position, behind the same tokens. -/
theorem tokenize_eq_error_of_front {file : String} {source : List Char} {s₀ s : ScanState}
    {e : ScanError} (h : Scanner.tokenize { file } source s₀ = .error e s)
    (hnear : s.position.offset + 1 < source.length) (text : List Char) (s₁ : ScanState) :
    ∃ s', Scanner.tokenize { file } (source.take (s.position.offset + 2) ++ text) s₁ = .error e s' ∧
      s'.position = s.position ∧ s'.tokens = s.tokens := by
  have hexact := exact_tokenize file source s₀
  rw [h] at hexact
  obtain ⟨hin, -, -⟩ := hexact
  have hpass := tokenize_eq_error_iff.mp h
  have hrest : s.rest =
      (source.drop s.position.offset).take 2 ++ source.drop (s.position.offset + 2) := by
    rw [hin.rest, ← List.drop_drop, List.take_append_drop]
  obtain ⟨used, hused, hfacing⟩ := @nearsighted_pass { file } rfl (ScanState.start source) _ _
    (by rw [hpass]; exact hrest) (by rw [List.length_take, List.length_drop]; omega)
  have hfront : used = source.take s.position.offset := by
    rw [← hrest, hin.rest] at hused
    refine List.append_cancel_right (hused.symm.trans ?_)
    exact (List.take_append_drop _ source).symm
  have hrun := hfacing text
  rw [hpass] at hrun
  refine ⟨s.facing ((source.drop s.position.offset).take 2 ++ text), ?_, rfl, rfl⟩
  rw [tokenize_eq_error_iff, List.take_add, List.append_assoc, ← hfront]
  exact hrun

/-- The ampersand is an error with an equals sign behind it, whatever comes then. -/
theorem tokenize_eq_error_of_front_ampersand :
    Scanner.tokenize { file := "a" } "0.&=1".toList (.start []) =
        .error ⟨.unexpectedCharacter '&', ⟨"a", 1, 3, 2⟩⟩
          ⟨['&', '=', '1'], ⟨1, 3, 2⟩,
            [⟨.delimiter, ".", ⟨"a", 1, 2, 1⟩⟩, ⟨.number, "0", ⟨"a", 1, 1, 0⟩⟩]⟩ ∧
      2 + 1 < "0.&=1".toList.length ∧
      ∃ s', Scanner.tokenize { file := "a" } ("0.&=".toList ++ "'".toList) (.start []) =
          .error ⟨.unexpectedCharacter '&', ⟨"a", 1, 3, 2⟩⟩ s' ∧
        s'.position = ⟨1, 3, 2⟩ ∧
        s'.tokens = [⟨.number, "0", ⟨"a", 1, 1, 0⟩⟩, ⟨.delimiter, ".", ⟨"a", 1, 2, 1⟩⟩] := by
  have hrun : Scanner.tokenize { file := "a" } "0.&=1".toList (.start []) =
      .error ⟨.unexpectedCharacter '&', ⟨"a", 1, 3, 2⟩⟩
        ⟨['&', '=', '1'], ⟨1, 3, 2⟩,
          [⟨.delimiter, ".", ⟨"a", 1, 2, 1⟩⟩, ⟨.number, "0", ⟨"a", 1, 1, 0⟩⟩]⟩ := rfl
  have hlength : 2 + 1 < "0.&=1".toList.length := by decide
  exact ⟨hrun, hlength, tokenize_eq_error_of_front hrun hlength _ _⟩

end Scanner

end RegisterLang
