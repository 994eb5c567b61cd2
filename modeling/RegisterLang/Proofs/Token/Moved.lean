import RegisterLang.Proofs.Renaming
import RegisterLang.Proofs.Token.Run

/-!
# A text that is moved

Scanning only ever looks ahead of the cursor. So a text is scanned alike when it is moved down by
some lines, with any tokens found in front of it: all places move with it, and nothing else changes.
-/

namespace RegisterLang

/-- How far a text is moved down: by a number of lines, and by all the characters in them. -/
structure Displacement where
  lines : Nat
  characters : Nat

/-- How far a text and a line break move what is behind them. -/
def Displacement.behind (source : String) : Displacement :=
  ⟨1 + source.toList.count '\n', source.length + 1⟩

variable (d : Displacement)

/-- A location in a text that is moved. Whole lines are put in front, so columns stay. -/
def Location.moved (place : Location) : Location :=
  { place with line := place.line + d.lines, offset := place.offset + d.characters }

/-- A token of a text that is moved. -/
def Token.moved (t : Token) : Token :=
  { t with location := t.location.moved d }

/-- A moved token is of the same kind. -/
@[simp] theorem Token.kind_moved (t : Token) : (t.moved d).kind = t.kind := rfl

/-- A moved token has the same text. -/
@[simp] theorem Token.lexeme_moved (t : Token) : (t.moved d).lexeme = t.lexeme := rfl

/-- A moved token is at the moved place. -/
@[simp] theorem Token.location_moved (t : Token) :
    (t.moved d).location = t.location.moved d := rfl

/-- An error in a text that is moved. -/
def ScanError.moved (e : ScanError) : ScanError :=
  { e with location := e.location.moved d }

namespace Position

/-- A position in a text that is moved. -/
def moved (p : Position) : Position :=
  { p with line := p.line + d.lines, offset := p.offset + d.characters }

variable {d}

/-- A character moves a moved position on as it does any other. -/
theorem after_moved (p : Position) (c : Char) : (p.moved d).after c = (p.after c).moved d := by
  unfold after
  split <;> simp [moved] <;> omega

/-- Characters move a moved position on as they do any other. -/
theorem afterAll_moved (p : Position) (cs : List Char) :
    (p.moved d).afterAll cs = (p.afterAll cs).moved d := by
  induction cs generalizing p with
  | nil => rfl
  | cons c cs ih => rw [afterAll_cons, afterAll_cons, after_moved, ih]

/-- The place of a moved position is moved. -/
theorem inFile_moved (p : Position) (file : String) :
    (p.moved d).inFile file = (p.inFile file).moved d := by
  simp [inFile, moved, Location.moved]

end Position

namespace Scanner

variable (before : List Token)

/-- A scanner's state when the text is moved and the tokens `before` are found in front of it. -/
def moving : Renaming ScanError ScanState where
  state s := ⟨s.rest, s.position.moved d, s.found.map (·.moved d) ++ before⟩
  failure e := e.moved d
  possible _ := True

variable {d before} {scanner : Scanner} {α β : Type}

/-- Characters are read alike where the text is moved. -/
theorem moving_read (s : ScanState) (n : Nat) :
    ((moving d before).state s).read n = (moving d before).state (s.read n) := by
  simp only [moving, ScanState.read, Position.afterAll_moved]

/-- A moved text is the same text. -/
theorem rest_moving (s : ScanState) : ((moving d before).state s).rest = s.rest := rfl

/-! ### Single actions -/

/-- The place that is asked for is moved. -/
theorem carries_place :
    (moving d before).Carries (·.moved d) scanner.place scanner.place where
  run s _ := by
    show EStateM.Result.ok ((s.position.moved d).inFile scanner.file) _ = _
    rw [Position.inFile_moved]
    rfl
  keeps _ _ _ _ _ := trivial

/-- The next character is the same in a moved text. -/
theorem carries_next? : (moving d before).Carries id next? next? where
  run _ _ := rfl
  keeps _ _ _ _ _ := trivial

/-- Characters are passed alike in a moved text. -/
theorem carries_skip (n : Nat) : (moving d before).Carries id (skip n) (skip n) where
  run s _ := by
    rw [skip_run, skip_run, moving_read]
    rfl
  keeps _ _ _ _ _ := trivial

/-- A run of characters is the same in a moved text. -/
theorem carries_readWhile (p : Char → Bool) :
    (moving d before).Carries id (readWhile p) (readWhile p) :=
  Renaming.Carries.get.bind fun _ => (carries_skip _).bind fun _ => .pure rfl

/-- A token that is added is added at the moved place. -/
theorem carries_emit (kind : TokenKind) (lexeme : String) (place : Location) :
    (moving d before).Carries id (emit kind lexeme place) (emit kind lexeme (place.moved d)) where
  run _ _ := rfl
  keeps _ _ _ _ _ := trivial

/-- A failure is one at the moved place, for the same cause. -/
theorem carries_fail (f : α → β) (cause : ScanError.Cause) (place : Location) :
    (moving d before).Carries f (fail cause place) (fail cause (place.moved d)) :=
  .throw f _

/-! ### Lexemes -/

/-- A comment is passed alike in a moved text. -/
theorem carries_comment : (moving d before).Carries id comment comment :=
  (carries_readWhile _).discard

/-- A string is read alike in a moved text. -/
theorem carries_string (quote : Char) :
    (moving d before).Carries id (scanner.string quote) (scanner.string quote) := by
  refine carries_place.bind fun start => (carries_skip 1).bind fun _ => ?_
  refine (carries_readWhile _).bind fun content => carries_next?.bind fun next => ?_
  cases next with
  | none => exact carries_fail id _ _
  | some c =>
    refine .ite (carries_place.bind fun _ => carries_fail id _ _) ?_
    exact (carries_skip 1).bind fun _ => carries_emit _ _ _

/-- A delimiter is read alike in a moved text. -/
theorem carries_delimiter (c : Char) :
    (moving d before).Carries id (scanner.delimiter c) (scanner.delimiter c) :=
  carries_place.bind fun _ => (carries_skip 1).bind fun _ => carries_emit _ _ _

/-- A word is read alike in a moved text. -/
theorem carries_word : (moving d before).Carries id scanner.word scanner.word :=
  carries_place.bind fun _ => (carries_readWhile _).bind fun _ => carries_emit _ _ _

/-- A member is read alike in a moved text. -/
theorem carries_member : (moving d before).Carries id scanner.member scanner.member := by
  refine (carries_delimiter '.').bind fun _ => carries_next?.bind fun next => ?_
  cases next with
  | none => exact carries_place.bind fun _ => carries_fail id _ _
  | some c => exact .ite carries_word (carries_place.bind fun _ => carries_fail id _ _)

/-- Members are read alike in a moved text, in any room. -/
theorem carries_members (room : List Char) :
    (moving d before).Carries id (scanner.members room) (scanner.members room) := by
  induction room with
  | nil => exact .pure rfl
  | cons _ room ih =>
    exact carries_next?.bind fun _ => .ite (carries_member.bind fun _ => ih) (.pure rfl)

/-- A chain of members is read alike in a moved text. -/
theorem carries_memberChain :
    (moving d before).Carries id scanner.memberChain scanner.memberChain :=
  Renaming.Carries.get.bind fun s => carries_members s.rest

/-- A type is read alike in a moved text. -/
theorem carries_typeName : (moving d before).Carries id scanner.typeName scanner.typeName := by
  refine carries_place.bind fun start => (carries_skip 1).bind fun _ => ?_
  refine (carries_readWhile _).discard.bind fun _ => (carries_readWhile _).bind fun name => ?_
  have finish : (moving d before).Carries id
      (do emit .typeName (String.ofList name) start; discard (readWhile Text.isBlank))
      (do emit .typeName (String.ofList name) (start.moved d); discard (readWhile Text.isBlank)) :=
    (carries_emit _ _ _).bind fun _ => (carries_readWhile _).discard
  exact .ite ((carries_fail id _ _).bind fun _ => finish) finish

/-- A register is read alike in a moved text. -/
theorem carries_register : (moving d before).Carries id scanner.register scanner.register := by
  refine carries_place.bind fun start => (carries_skip 1).bind fun _ => ?_
  refine (carries_readWhile _).bind fun name => ?_
  have finish : (moving d before).Carries id
      (do
        emit .register (String.ofList name) start
        if (← next?) = some ':' then scanner.typeName)
      (do
        emit .register (String.ofList name) (start.moved d)
        if (← next?) = some ':' then scanner.typeName) :=
    (carries_emit _ _ _).bind fun _ => carries_next?.bind fun _ =>
      .ite carries_typeName (.pure rfl)
  refine .ite (carries_next?.bind fun next => carries_place.bind fun here => ?_) finish
  exact (carries_fail id _ _).bind fun _ => finish

/-- A directive is read alike in a moved text. Which words are known does not depend on places. -/
theorem carries_directive : (moving d before).Carries id scanner.directive scanner.directive := by
  refine carries_place.bind fun start => (carries_skip 1).bind fun _ => ?_
  refine (carries_readWhile _).bind fun word => ?_
  have emitted : (moving d before).Carries id (emit .directive (String.ofList word) start)
      (emit .directive (String.ofList word) (start.moved d)) :=
    carries_emit _ _ _
  have known : (moving d before).Carries id
      (do
        if (Directive.ofWord? (String.ofList word)).isNone then
          fail (.unknownDirective (String.ofList word)) start
        emit .directive (String.ofList word) start)
      (do
        if (Directive.ofWord? (String.ofList word)).isNone then
          fail (.unknownDirective (String.ofList word)) (start.moved d)
        emit .directive (String.ofList word) (start.moved d)) :=
    .ite ((carries_fail id _ _).bind fun _ => emitted) emitted
  exact .ite (carries_place.bind fun _ => (carries_fail id _ _).bind fun _ => known) known

/-- A number with a radix is read alike in a moved text. -/
theorem carries_radixNumber (radix : Radix) :
    (moving d before).Carries id (scanner.radixNumber radix) (scanner.radixNumber radix) := by
  refine carries_place.bind fun start => Renaming.Carries.get.bind fun s => ?_
  refine (carries_skip 2).bind fun _ => (carries_readWhile _).bind fun digits => ?_
  exact .ite ((carries_fail id _ _).bind fun _ => carries_emit _ _ _) (carries_emit _ _ _)

/-- A fraction is read alike in a moved text. -/
theorem carries_fraction : (moving d before).Carries id fraction fraction := by
  refine Renaming.Carries.get.bind fun s => ?_
  simp only [rest_moving]
  split
  · refine .ite ?_ (.pure rfl)
    exact (carries_skip 1).bind fun _ => (carries_readWhile _).bind fun _ => .pure rfl
  · exact .pure rfl

/-- A decimal number is read alike in a moved text. -/
theorem carries_decimalNumber :
    (moving d before).Carries id scanner.decimalNumber scanner.decimalNumber :=
  carries_place.bind fun _ => (carries_readWhile _).bind fun _ => carries_fraction.bind fun _ =>
    carries_emit _ _ _

/-- A number is read alike in a moved text. -/
theorem carries_number : (moving d before).Carries id scanner.number scanner.number := by
  refine Renaming.Carries.get.bind fun s => ?_
  simp only [rest_moving]
  split
  · split
    · exact carries_radixNumber _
    · exact carries_decimalNumber
  · exact carries_decimalNumber

/-- An operator is read alike in a moved text. -/
theorem carries_operator (c : Char) :
    (moving d before).Carries id (scanner.operator c) (scanner.operator c) := by
  refine carries_place.bind fun start => Renaming.Carries.get.bind fun s => ?_
  simp only [rest_moving]
  split
  · exact (carries_skip _).bind fun _ => carries_emit _ _ _
  · exact carries_fail id _ _

/-! ### The pass -/

/-- A step of the scanner is the same in a moved text. -/
theorem carries_step : (moving d before).Carries id scanner.step scanner.step := by
  refine Renaming.Carries.get.bind fun s => ?_
  refine .ite (carries_skip 1) (.ite carries_comment (.ite (carries_string _) ?_))
  refine .ite (carries_delimiter _) (.ite ?_ (.ite carries_directive (.ite carries_number ?_)))
  · exact carries_register.bind fun _ => carries_memberChain
  · exact .ite (carries_word.bind fun _ => carries_memberChain) (carries_operator _)

/-- Steps in a row are the same in a moved text. -/
theorem carries_steps (room : List Char) :
    (moving d before).Carries id (scanner.steps room) (scanner.steps room) := by
  induction room with
  | nil => exact .pure rfl
  | cons _ room ih =>
    exact Renaming.Carries.get.bind fun _ => .ite (carries_step.bind fun _ => ih) (.pure rfl)

end Scanner

end RegisterLang
