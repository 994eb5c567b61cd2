import RegisterLang.Proofs.Grammar.Ending
import RegisterLang.Proofs.Grammar.Recording
import RegisterLang.Proofs.Node.Numbered
import RegisterLang.Proofs.Token.Lawful

/-!
# Records of readings

Reading with a record is reading, and the record is a history with one tree, the tree that is read.
A step takes away loose nodes, which are below no other node yet, and the nodes in its value are
loose in their stead. So no node is given to two parents: what one round of calls, of members or of
operators leaves is taken by the next round.
-/

namespace RegisterLang

variable {β γ δ ε : Type}

/-! ### Records -/

/-- The nodes were built one after the other, with keys that count them, and `loose` are those that
are below no other node yet. None of them is a document. -/
structure Recorded (built loose : List Made) : Prop where
  forest : Node.Forest built loose
  key_lt : ∀ m ∈ built, m.key < built.length
  kind_ne : ∀ m ∈ built, m.kind ≠ .document

namespace Recorded

variable {built loose loose' taken others : List Made} {n : Made}

/-- At the start nothing is built. -/
theorem nothing : Recorded [] [] :=
  ⟨.nothing, by simp, by simp⟩

/-- The order of loose nodes does not matter. -/
theorem congr (h : Recorded built loose) (hloose : loose.Perm loose') : Recorded built loose' :=
  ⟨h.forest.congr hloose, h.key_lt, h.kind_ne⟩

/-- The next key is one that no node has. -/
theorem key_ne (h : Recorded built loose) (hkey : n.key = built.length) :
    ∀ m ∈ built, m.key ≠ n.key := by
  intro m hm
  have hlt := h.key_lt m hm
  omega

/-- A node with the next key takes its children away and is loose itself. -/
theorem build (h : Recorded built (n.children ++ others)) (hkey : n.key = built.length)
    (hkind : n.kind ≠ .document) : Recorded (built ++ [n]) (n :: others) where
  forest := h.forest.build (h.key_ne hkey)
  key_lt m hm := by
    rw [List.length_append, List.length_singleton]
    rcases List.mem_append.mp hm with hm | hm
    · have hlt := h.key_lt m hm
      omega
    · rw [List.mem_singleton.mp hm]
      omega
  kind_ne m hm := by
    rcases List.mem_append.mp hm with hm | hm
    · exact h.kind_ne m hm
    · rwa [List.mem_singleton.mp hm]

end Recorded

/-! ### Steps with a record -/

/-- Without its record, the step reads what the other step reads, as far as `view` tells. -/
def Erases (view : β → γ) (step : Recording β) (plain : Parse γ) : Prop :=
  ∀ built, (fun made => view made.1) <$> step.run built = plain

namespace Erases

variable {view : β → γ} {view' : δ → ε} {step : Recording β} {plain : Parse γ}

/-- A value is read without a record. -/
theorem pure {b : β} {c : γ} (h : view b = c) : Erases view (pure b) (pure c) := by
  intro built
  rw [StateT.run_pure, map_pure, h]

/-- A step over the tokens has nothing to record. -/
theorem lift {plain : Parse β} : Erases id (liftM plain) plain := by
  intro built
  funext s
  change EStateM.map _ (EStateM.bind plain _) s = plain s
  unfold EStateM.map EStateM.bind
  cases plain s <;> rfl

/-- Two steps in a row read what the plain ones do, if each of them does. -/
theorem bind {further : β → Recording δ} {further' : γ → Parse ε} (hstep : Erases view step plain)
    (hfurther : ∀ b, Erases view' (further b) (further' (view b))) :
    Erases view' (step >>= further) (plain >>= further') := by
  intro built
  rw [StateT.run_bind, map_bind, ← hstep built, bind_map_left]
  exact bind_congr fun made => hfurther made.1 made.2

/-- A node that is made and numbered is, without its number, the node that is read. -/
theorem make {location : Location} {node : Nat × Location → Made} {tree : Tree}
    (htree : ∀ key, (node (key, location)).map Prod.snd = tree) :
    Erases (Node.map Prod.snd) (Reader.make location node) (Pure.pure tree) := by
  intro built
  rw [← htree built.length]
  rfl

/-- Levels of nesting are opened and closed with a record as without one. -/
theorem nested {limit : Int} (hstep : Erases view step plain) :
    Erases view (Reader.nested limit step) (Parse.nested limit plain) := by
  intro built
  funext s
  rw [← hstep built]
  change EStateM.map _ (Parse.nested limit (step.run built)) s =
    Parse.nested limit (EStateM.map _ (step.run built)) s
  by_cases hlimit : limit ≤ s.depth
  · simp only [EStateM.map, Parse.nested, hlimit, if_true]
    rfl
  · simp only [EStateM.map, Parse.nested, hlimit, if_false]
    cases step.run built { s with depth := s.depth + 1 } <;> rfl

end Erases

/-- How the value of a step holds nodes: what it is without their keys, and which nodes it holds. -/
structure Holding (β γ : Type) where
  plain : β → γ
  nodes : β → List Made

namespace Holding

/-- A step with one node. -/
def one : Holding Made Tree :=
  ⟨Node.map Prod.snd, fun n => [n]⟩

/-- A step with a list of nodes. -/
def many : Holding (List Made) (List Tree) :=
  ⟨List.map (Node.map Prod.snd), id⟩

/-- A step with a node or none. -/
def optional : Holding (Option Made) (Option Tree) :=
  ⟨Option.map (Node.map Prod.snd), Option.toList⟩

end Holding

/-- The step reads what the other step reads. It takes some of the loose nodes away, and the nodes
in its value are loose in their stead; all others stay loose. -/
structure Records (holding : Holding β γ) (taken : List Made) (step : Recording β)
    (plain : Parse γ) : Prop where
  erases : Erases holding.plain step plain
  recorded {built others built' : List Made} {b : β} {s s' : ParseState} :
    Recorded built (taken ++ others) → step.run built s = .ok (b, built') s' →
      Recorded built' (holding.nodes b ++ others)

namespace Records

variable {holding : Holding β γ} {holding' : Holding δ ε} {taken taken' kept : List Made}
  {step step' : Recording β} {plain plain' : Parse γ}

/-- A value holds the nodes that were loose before. -/
theorem pure {b : β} {c : γ} (hplain : holding.plain b = c)
    (hnodes : taken.Perm (holding.nodes b)) : Records holding taken (pure b) (pure c) where
  erases := .pure hplain
  recorded h hrun := by
    cases hrun
    exact h.congr (hnodes.append_right _)

/-- A step that always fails in the same way builds nothing. -/
theorem stops (h : ∀ built s, ∃ e s', step.run built s = .error e s' ∧ plain s = .error e s') :
    Records holding taken step plain where
  erases built := by
    funext s
    obtain ⟨e, s', hstep, hplain⟩ := h built s
    change EStateM.map _ (step.run built) s = _
    rw [EStateM.map, hstep, hplain]
  recorded {built _ _ _ s _} _ hrun := by
    obtain ⟨e, s', hstep, _⟩ := h built s
    rw [hstep] at hrun
    cases hrun

/-- A failing step takes nothing away and builds nothing. -/
theorem fail {cause : ParseError.Cause} :
    Records holding taken (liftM (Parse.fail cause : Parse β)) (Parse.fail cause) :=
  stops fun _ _ => ⟨_, _, rfl, rfl⟩

/-- The branch that is taken keeps the record. -/
theorem ite {test : Prop} [Decidable test] (h : Records holding taken step plain)
    (h' : Records holding taken step' plain') :
    Records holding taken (if test then step else step') (if test then plain else plain') := by
  split
  · exact h
  · exact h'

/-- A step leaves what it does not take for the steps behind it. -/
theorem recorded_kept (hstep : Records holding taken step plain) {built others built' : List Made}
    {b : β} {s s' : ParseState} (h : Recorded built (taken ++ kept ++ others))
    (hrun : step.run built s = .ok (b, built') s') :
    Recorded built' (holding.nodes b ++ kept ++ others) := by
  rw [List.append_assoc] at h ⊢
  exact hstep.recorded h hrun

/-- Two steps in a row, where the first one leaves some of the nodes for the second one. -/
theorem bind {further : β → Recording δ} {further' : γ → Parse ε}
    (hstep : Records holding taken step plain)
    (hfurther : ∀ b, Records holding' (holding.nodes b ++ kept) (further b)
      (further' (holding.plain b))) :
    Records holding' (taken ++ kept) (step >>= further) (plain >>= further') where
  erases := hstep.erases.bind fun b => (hfurther b).erases
  recorded {_ _ _ _ s _} h hrun := by
    rw [StateT.run_bind, bind_eq_ok] at hrun
    obtain ⟨⟨b, built⟩, s₁, hfirst, hrest⟩ := hrun
    exact (hfurther b).recorded (hstep.recorded_kept h hfirst) hrest

/-- A step that takes nothing leaves all nodes for the next one. -/
theorem before {further : β → Recording δ} {further' : γ → Parse ε}
    (hstep : Records holding [] step plain)
    (hfurther : ∀ b, Records holding' (holding.nodes b ++ taken) (further b)
      (further' (holding.plain b))) :
    Records holding' taken (step >>= further) (plain >>= further') :=
  hstep.bind hfurther

/-- To change how a value holds its nodes keeps the record, as long as the nodes stay. -/
theorem map {f : β → δ} {f' : γ → ε} (hstep : Records holding taken step plain)
    (hplain : ∀ b, holding'.plain (f b) = f' (holding.plain b))
    (hnodes : ∀ b, holding'.nodes (f b) = holding.nodes b) :
    Records holding' taken (f <$> step) (f' <$> plain) := by
  rw [map_eq_pure_bind, map_eq_pure_bind, ← List.append_nil taken]
  refine hstep.bind fun b => .pure (hplain b) ?_
  rw [hnodes, List.append_nil]

/-- A look at the tokens, or a move over them, builds nothing. -/
theorem reads {look : Parse δ} {further : δ → Recording β} {further' : δ → Parse γ}
    (hfurther : ∀ d, Records holding taken (further d) (further' d)) :
    Records holding taken (liftM look >>= further) (look >>= further') where
  erases := Erases.lift.bind fun d => (hfurther d).erases
  recorded {built _ _ _ s _} h hrun := by
    rw [StateT.run_bind, bind_eq_ok] at hrun
    obtain ⟨⟨d, built₁⟩, s₁, hlook, hrest⟩ := hrun
    obtain ⟨_, _, _, hmade⟩ := bind_eq_ok.mp hlook
    cases hmade
    exact (hfurther d).recorded h hrest

/-- A move over tokens that are not looked at again. -/
theorem passes {move : Parse δ} (hfurther : Records holding taken step plain) :
    Records holding taken (discard (liftM move) >>= fun _ => step)
      (discard move >>= fun _ => plain) := by
  have hdiscard : discard (liftM move : Recording δ) = liftM (discard move) := by
    funext built s
    change EStateM.bind (EStateM.bind move _) _ s = EStateM.bind (EStateM.map _ move) _ s
    unfold EStateM.bind EStateM.map
    cases move s <;> rfl
  rw [hdiscard]
  exact reads fun _ => hfurther

/-- The children of a node that is built are the nodes that are taken. -/
theorem make {location : Location} {node : Nat × Location → Made} {tree : Tree}
    (htag : ∀ tag, (node tag).tag = tag) (hkind : ∀ tag, ((node tag).kind == .document) = false)
    (hchildren : ∀ tag, taken.Perm (node tag).children)
    (htree : ∀ key, (node (key, location)).map Prod.snd = tree) :
    Records .one taken (Reader.make location node) (Pure.pure tree) where
  erases := .make htree
  recorded {built _ _ _ _ _} h hrun := by
    cases hrun
    have hkind' : (node (built.length, location)).kind ≠ .document := ne_of_beq_false (hkind _)
    exact (h.congr ((hchildren _).append_right _)).build (congrArg Prod.fst (htag _)) hkind'

/-- A level of nesting keeps the record as it is kept inside of it. -/
theorem nested {limit : Int} (hstep : Records holding taken step plain) :
    Records holding taken (Reader.nested limit step) (Parse.nested limit plain) where
  erases := hstep.erases.nested
  recorded {built _ _ _ s _} h hrun := by
    change Parse.nested limit (step.run built) s = _ at hrun
    obtain ⟨_, s₁, hresult, rfl⟩ := Parse.nested_eq_ok.mp hrun
    exact hstep.recorded h hresult

end Records

namespace Grammar

open Parse

/-! ### Parts that open no level -/

/-- A name is a new node without children. -/
theorem records_identifier {token : Token} :
    Records .one [] (identifier token) (identifier token) :=
  .make (fun _ => rfl) (fun _ => rfl) (fun _ => .nil) fun _ => by simp [Node.map]

/-- A member takes the object away and is loose in its stead. -/
theorem records_member {object : Made} :
    Records .one [object] (member object) (member (object.map Prod.snd)) := by
  refine .passes (.reads fun name => ?_)
  refine records_identifier.before fun property => ?_
  refine .make (fun _ => rfl) (fun _ => rfl) (fun _ => .swap _ _ _) fun _ => ?_
  simp [Node.map, Holding.one]

/-- A type is a new node, if there is one. -/
theorem records_typeAfterColon {what : String} :
    Records .optional [] (typeAfterColon what) (typeAfterColon what) := by
  refine .reads fun _ => .ite (.reads fun token => ?_) (.pure rfl .nil)
  exact records_identifier.before fun typeName => .pure rfl (.refl _)

/-- A parameter is a new node that takes its type away. -/
theorem records_param : Records .one [] param param := by
  refine .reads fun name => records_typeAfterColon.before fun typeName => ?_
  have hplaceholder : Records .one [] (Reader.make name.location (.literal · .number "0"))
      (pure (.literal name.location .number "0")) :=
    .make (fun _ => rfl) (fun _ => rfl) (fun _ => .nil) fun _ => by simp [Node.map]
  refine hplaceholder.before fun placeholder => ?_
  refine .make (fun _ => rfl) (fun _ => rfl) (fun _ => ?_) fun _ => ?_
  · simp [Holding.one, Holding.optional, Node.children]
  · simp [Node.map, Holding.one, Holding.optional]

/-- Further parameters are new nodes, one for each. -/
theorem records_furtherParams (room : List Token) :
    Records .many [] (furtherParams room) (furtherParams room) := by
  induction room with
  | nil => exact .pure rfl .nil
  | cons _ room ih =>
    refine .reads fun _ => .ite ?_ (.pure rfl .nil)
    exact records_param.before fun first => ih.before fun others =>
      .pure rfl List.perm_append_comm

/-- A node for parameters takes all of them away. -/
theorem records_params : Records .one [] params params := by
  refine .reads fun s => .reads fun _ => .ite (.passes ?_) ?_
  · exact .make (fun _ => rfl) (fun _ => rfl) (fun _ => .nil) fun _ => by simp [Node.map]
  · refine records_param.before fun first => .reads fun room => ?_
    refine (records_furtherParams room).before fun others => .passes ?_
    refine .make (fun _ => rfl) (fun _ => rfl) (fun _ => List.perm_append_comm) fun _ => ?_
    simp [Node.map, Holding.one, Holding.many]

/-- An import is a new node without children. -/
theorem records_importUnit : Records .one [] importUnit importUnit := by
  refine .passes (.reads fun path => .ite (.reads fun _ => ?_) ?_)
  · refine .passes (.passes (.passes ?_))
    exact .make (fun _ => rfl) (fun _ => rfl) (fun _ => .nil) fun _ => by simp [Node.map]
  · refine .passes (.passes (.passes ?_))
    exact .make (fun _ => rfl) (fun _ => rfl) (fun _ => .nil) fun _ => by simp [Node.map]

/-! ### Expressions -/

section

variable {inner : Production → Recording Made} {inner' : Production → Parse Tree}
  (hinner : ∀ production, Records .one [] (inner production) (inner' production))
include hinner

/-- What an expression starts with is a new node, or the one that is left of parentheses. -/
theorem records_primary : Records .one [] (primary inner) (primary inner') := by
  refine .reads fun token => ?_
  cases literalKind? token.kind with
  | some kind =>
    exact .passes
      (.make (fun _ => rfl) (fun _ => rfl) (fun _ => .nil) fun _ => by simp [Node.map])
  | none =>
    refine .ite ?_ (.ite ?_ (.ite ?_ .fail))
    · exact .passes
        (.make (fun _ => rfl) (fun _ => rfl) (fun _ => .nil) fun _ => by simp [Node.map])
    · exact .passes
        (.make (fun _ => rfl) (fun _ => rfl) (fun _ => .nil) fun _ => by simp [Node.map])
    · exact .passes ((hinner .expression).before fun content => .passes (.pure rfl (.refl _)))

/-- Further arguments are new nodes, one for each. -/
theorem records_furtherArguments (room : List Token) :
    Records .many [] (furtherArguments inner room) (furtherArguments inner' room) := by
  induction room with
  | nil => exact .pure rfl .nil
  | cons _ room ih =>
    refine .reads fun _ => .ite (.reads fun _ => .ite (.pure rfl .nil) ?_) (.pure rfl .nil)
    exact (hinner .expression).before fun argument => ih.before fun others =>
      .pure rfl List.perm_append_comm

/-- A call takes the callee and its arguments away and is loose in their stead. -/
theorem records_call {callee : Made} :
    Records .one [callee] (call inner callee) (call inner' (callee.map Prod.snd)) := by
  refine .passes (.reads fun _ => .ite (.passes ?_) ?_)
  · exact .make (fun _ => rfl) (fun _ => rfl) (fun _ => .refl _) fun _ => by simp [Node.map]
  · refine (hinner .expression).before fun first => .reads fun room => ?_
    refine (records_furtherArguments hinner room).before fun others => .passes ?_
    refine .make (fun _ => rfl) (fun _ => rfl) (fun _ => ?_) fun _ => ?_
    · exact List.perm_append_comm.trans (.swap _ _ _)
    · simp [Node.map, Holding.one, Holding.many]

/-- The node of one round is taken by the next one. -/
theorem records_suffixes (room : List Token) (tree : Made) :
    Records .one [tree] (suffixes inner room tree)
      (suffixes inner' room (tree.map Prod.snd)) := by
  induction room generalizing tree with
  | nil => exact .pure rfl (.refl _)
  | cons _ room ih =>
    refine .reads fun _ => .ite ((records_call hinner).bind ih) ?_
    exact .reads fun _ => .ite (records_member.bind ih) (.pure rfl (.refl _))

/-- Calls and members take away the node that the expression starts with. -/
theorem records_suffixed : Records .one [] (suffixed inner) (suffixed inner') :=
  (records_primary hinner).before fun tree => .reads fun room => records_suffixes hinner room tree

/-- A sign takes its operand away. -/
theorem records_unary : Records .one [] (unary inner) (unary inner') := by
  refine .reads fun token =>
    .ite (.passes ((hinner .operand).before fun operand => ?_)) (records_suffixed hinner)
  exact .make (fun _ => rfl) (fun _ => rfl) (fun _ => .refl _) fun _ => by
    simp [Node.map, Holding.one]

omit hinner in
/-- The node of one round is taken by the next one, as its left operand. -/
theorem records_climb {right : Nat → Recording Made} {right' : Nat → Parse Tree}
    (hright : ∀ m, Records .one [] (right m) (right' m)) (least : Nat) (room : List Token)
    (left : Made) :
    Records .one [left] (climb right least room left)
      (climb right' least room (left.map Prod.snd)) := by
  induction room generalizing left with
  | nil => exact .pure rfl (.refl _)
  | cons _ room ih =>
    refine .reads fun op => .ite (.passes ?_) (.pure rfl (.refl _))
    refine (hright _).before fun operand => ?_
    have hnode : Records .one [operand, left]
        (Reader.make left.tag.2 (.binary · op.lexeme left operand))
        (pure (.binary (left.map Prod.snd).tag op.lexeme (left.map Prod.snd)
          (operand.map Prod.snd))) :=
      .make (fun _ => rfl) (fun _ => rfl) (fun _ => .swap _ _ _) fun _ => by simp [Node.map]
    exact hnode.bind ih

/-- An operator takes away the operands on its sides, on every level of precedence. -/
theorem records_binaryWithin (levels least : Nat) :
    Records .one [] (binaryWithin inner levels least)
      (binaryWithin inner' levels least) := by
  induction levels generalizing least with
  | zero => exact records_unary hinner
  | succ levels ih =>
    exact (records_unary hinner).before fun left => .reads fun room =>
      records_climb ih least room left

/-- An assignment takes both its sides away. -/
theorem records_assignment : Records .one [] (assignment inner) (assignment inner') := by
  refine (records_binaryWithin hinner topRank 0).before fun left => ?_
  refine .reads fun _ => .ite (.reads fun op => ?_) (.pure rfl (.refl _))
  refine (hinner .expression).before fun right => ?_
  exact .make (fun _ => rfl) (fun _ => rfl) (fun _ => .swap _ _ _) fun _ => by
    simp [Node.map, Holding.one]

/-! ### Statements -/

/-- A statement is the node that is left of what is inside of it. -/
theorem records_statement : Records .one [] (statement inner) (statement inner') :=
  .reads fun _ => hinner .statement

/-- Statements are new nodes, one for each. -/
theorem records_statementsUntil (isEnd : Token → Bool) (room : List Token) :
    Records .many [] (statementsUntil inner isEnd room)
      (statementsUntil inner' isEnd room) := by
  induction room with
  | nil => exact .pure rfl .nil
  | cons _ room ih =>
    refine .reads fun _ => .ite (.pure rfl .nil) ?_
    exact (records_statement hinner).before fun first => ih.before fun others =>
      .pure rfl List.perm_append_comm

/-- An expression as a statement is the node of the expression. -/
theorem records_expressionStatement :
    Records .one [] (expressionStatement inner) (expressionStatement inner') :=
  (hinner .expression).before fun _ => .passes (.pure rfl (.refl _))

/-- The value of a declaration is the node of the expression. -/
theorem records_initialValue :
    Records .one [] (initialValue inner) (initialValue inner') :=
  (hinner .expression).before fun _ => .passes (.pure rfl (.refl _))

/-- A declaration takes its value and its type away. -/
theorem records_declaration (isConst : Bool) :
    Records .one [] (declaration inner isConst) (declaration inner' isConst) := by
  refine .reads fun register => .reads fun _ => .ite (.reads fun token => ?_) (.passes ?_)
  · refine records_identifier.before fun typeName => .reads fun _ => .ite (.passes ?_) ?_
    · refine (records_initialValue hinner).before fun value => ?_
      exact .make (fun _ => rfl) (fun _ => rfl) (fun _ => .refl _) fun _ => by
        simp [Node.map, Holding.one]
    · refine (records_statement hinner).before fun value => ?_
      exact .make (fun _ => rfl) (fun _ => rfl) (fun _ => .refl _) fun _ => by
        simp [Node.map, Holding.one]
  · refine (records_initialValue hinner).before fun value => ?_
    exact .make (fun _ => rfl) (fun _ => rfl) (fun _ => .refl _) fun _ => by
      simp [Node.map, Holding.one]

/-- A return takes its value away, if it has one. -/
theorem records_returning : Records .one [] (returning inner) (returning inner') := by
  refine .reads fun keyword => .reads fun _ => .ite (.passes ?_) ?_
  · exact .make (fun _ => rfl) (fun _ => rfl) (fun _ => .nil) fun _ => by simp [Node.map]
  · have hvalue : Records .optional [] (some <$> inner .expression) (some <$> inner' .expression) :=
      (hinner .expression).map (fun _ => rfl) (fun _ => rfl)
    refine hvalue.before fun argument => .passes ?_
    refine .make (fun _ => rfl) (fun _ => rfl) (fun _ => .of_eq (List.append_nil _)) fun _ => ?_
    simp [Node.map, Holding.optional]

/-- A block takes its statements away. -/
theorem records_block : Records .one [] (block inner) (block inner') := by
  refine .reads fun brace => .reads fun room => ?_
  refine (records_statementsUntil hinner _ room).before fun statements => .passes ?_
  refine .make (fun _ => rfl) (fun _ => rfl) (fun _ => .of_eq (List.append_nil _)) fun _ => ?_
  simp [Node.map, Holding.many]

/-! ### Directives -/

/-- A function takes its parameters, its block and its type away. -/
theorem records_function : Records .one [] (function inner) (function inner') := by
  refine .reads fun name => .passes (records_params.before fun list => ?_)
  refine records_typeAfterColon.before fun returnType => ?_
  refine (records_block hinner).before fun body => ?_
  refine .make (fun _ => rfl) (fun _ => rfl) (fun _ => ?_) fun _ => ?_
  · have hlist : (returnType.toList ++ [list]).Perm (list :: returnType.toList) :=
      List.perm_append_comm
    exact (hlist.cons body).trans (.swap _ _ _)
  · simp [Node.map, Holding.one, Holding.optional]

/-- A loop takes its condition, its block and its capture away. -/
theorem records_whileLoop {keyword : Token} :
    Records .one [] (whileLoop inner keyword) (whileLoop inner' keyword) := by
  refine .passes ((hinner .expression).before fun condition => .passes (.reads fun _ => ?_))
  refine .ite ((records_primary hinner).before fun capture => .passes ?_) ?_
  · rw [pure_bind, pure_bind]
    refine (records_block hinner).before fun body => ?_
    refine .make (fun _ => rfl) (fun _ => rfl) (fun _ => ?_) fun _ => ?_
    · exact (List.reverse_perm [body, capture, condition]).symm
    · simp [Node.map, Holding.one]
  · rw [pure_bind, pure_bind]
    refine (records_block hinner).before fun body => ?_
    refine .make (fun _ => rfl) (fun _ => rfl) (fun _ => .swap _ _ _) fun _ => ?_
    simp [Node.map, Holding.one]

/-- What is behind an at sign keeps the record as the directive does. -/
theorem records_directive : Records .one [] (directive inner) (directive inner') := by
  refine .reads fun keyword => ?_
  cases Directive.ofWord? keyword.lexeme with
  | none => exact .stops fun _ _ => ⟨_, _, rfl, rfl⟩
  | some kind =>
    cases kind with
    | importUnit => exact records_importUnit
    | const => exact records_declaration hinner true
    | func => exact records_function hinner
    | whileLoop => exact records_whileLoop hinner
    | typeOf => exact .stops fun _ _ => ⟨_, _, rfl, rfl⟩
    | forLoop => exact .stops fun _ _ => ⟨_, _, rfl, rfl⟩

/-- A statement keeps the record, whatever it starts with. -/
theorem records_statementBody :
    Records .one [] (statementBody inner) (statementBody inner') := by
  refine .reads fun token => ?_
  cases token.kind with
  | register =>
    exact .reads fun _ =>
      .ite (records_declaration hinner false) (records_expressionStatement hinner)
  | keyword =>
    exact .ite (records_returning hinner) (.ite (records_expressionStatement hinner) .fail)
  | directive => exact records_directive hinner
  | _ => exact .ite (records_expressionStatement hinner) .fail

/-! ### Any nesting -/

/-- Every production leaves one node, if those one level deeper do. -/
theorem records_body (production : Production) :
    Records .one [] (body inner production) (body inner' production) := by
  cases production with
  | statement => exact records_statementBody hinner
  | expression => exact records_assignment hinner
  | operand => exact records_unary hinner

end

/-- Every production on any number of levels leaves one node. -/
theorem records_produceWithin (limit : Int) (levels : Nat) (production : Production) :
    Records .one [] (produceWithin limit levels production)
      (produceWithin limit levels production) := by
  induction levels generalizing production with
  | zero => exact .fail
  | succ levels ih => exact (records_body ih production).nested

/-- Every production leaves one node. -/
theorem records_produce (limit : Int) (production : Production) :
    Records .one [] (produce limit production) (produce limit production) :=
  .reads fun s => records_produceWithin limit (limit - s.depth).toNat production

/-- A lone expression leaves one node. -/
theorem records_loneExpression (limit : Int) :
    Records .one [] (loneExpression limit) (loneExpression limit) :=
  (records_produce limit .expression).before fun _ =>
    .reads fun _ => .ite (.pure rfl (.refl _)) .fail

/-- The document is read as without a record. Its own node is made last, over the statements. -/
theorem erases_program (limit : Int) :
    Erases (Node.map Prod.snd) (program limit) (program limit) := by
  refine Erases.lift.bind fun first => Erases.lift.bind fun room => ?_
  refine (records_statementsUntil (records_produce limit) _ room).erases.bind fun statements => ?_
  exact .make fun _ => by simp [Node.map, Holding.many]

/-- Statements are recorded from the cursor on, and the document behind them. -/
theorem recordingProgram_run (limit : Int) (built : List Made) (s : ParseState) :
    (program limit : Recording Made).run built s =
      (statementsUntil (produce limit) (·.kind == .endOfInput) s.rest >>= fun statements =>
        Reader.make s.next.location (.document · statements) : Recording Made).run built s := rfl

/-- A document is built last, from all nodes that are loose then. -/
theorem exists_recorded_program {limit : Int} {s s' : ParseState} {root : Made} {built : List Made}
    (h : (program limit : Recording Made).run [] s = .ok (root, built) s') :
    ∃ front, Recorded front root.children ∧ root.key = front.length ∧ root.kind = .document ∧
      built = front ++ [root] := by
  rw [recordingProgram_run, StateT.run_bind, bind_eq_ok] at h
  obtain ⟨⟨statements, front⟩, s₁, hstatements, hmake⟩ := h
  have hfront := (records_statementsUntil (records_produce limit) _ _).recorded .nothing hstatements
  cases hmake
  rw [List.append_nil] at hfront
  exact ⟨front, hfront, rfl, rfl, rfl⟩

end Grammar

open Grammar

/-! ### Whole token lists -/

/-- Without its record, reading with a record is reading. -/
theorem Goal.erases_record (goal : Goal) (limit : Int) :
    Erases (Node.map Prod.snd) (goal.record limit) (goal.parse limit) :=
  match goal with
  | .program => Erases.lift.bind fun _ => erases_program limit
  | .expression => Erases.lift.bind fun _ => (records_loneExpression limit).erases

/-- A reading with a record goes back to the start of the list before it reads. -/
theorem Goal.record_run (goal : Goal) (limit : Int) (built : List Made) (s : ParseState) :
    (goal.record limit).run built s = (goal.read limit : Recording Made).run built s.rewind := rfl

/-- What is built for a token list is one tree. No node below its root is a document, and the root
is one exactly if the list is read as a program. -/
theorem Goal.forest_of_record {goal : Goal} {limit : Int} {s s' : ParseState} {root : Made}
    {built : List Made} (h : (goal.record limit).run [] s = .ok (root, built) s') :
    Node.Forest built [root] ∧ root.NoneBelow .document ∧
      (root.kind = .document ↔ goal = .program) := by
  rw [goal.record_run] at h
  cases goal with
  | program =>
    obtain ⟨front, hfront, hkey, hkind, rfl⟩ := exists_recorded_program h
    refine ⟨?_, fun m hm => hfront.kind_ne m (hfront.forest.perm.mem_iff.mpr hm), by simp [hkind]⟩
    rw [← List.append_nil root.children] at hfront
    exact hfront.forest.build (hfront.key_ne hkey)
  | expression =>
    have hrecorded := (records_loneExpression limit).recorded .nothing h
    have hmem {m : Made} (hm : m ∈ root.walk) : m.kind ≠ .document :=
      hrecorded.kind_ne m (hrecorded.forest.mem_iff.mpr ⟨root, List.mem_singleton_self _, hm⟩)
    refine ⟨hrecorded.forest, fun m hm => hmem ?_, ?_⟩
    · rw [Node.walk_eq]
      exact List.mem_cons_of_mem _ hm
    · simp [hmem (Node.mem_walk_self root)]

/-! ### Sources -/

/-- What is read has a record, in which it is the only tree. -/
theorem Goal.exists_record {goal : Goal} {limit : Int} {s s' : ParseState} {tree : Tree}
    (h : goal.parse limit s = .ok tree s') :
    ∃ root built, (goal.record limit).run [] s = .ok (root, built) s' ∧
      root.map Prod.snd = tree ∧ Node.Forest built [root] ∧ root.NoneBelow .document ∧
      (root.kind = .document ↔ goal = .program) := by
  rw [← goal.erases_record limit []] at h
  obtain ⟨⟨root, built⟩, hrun, htree⟩ := map_eq_ok.mp h
  exact ⟨root, built, hrun, htree.symm, forest_of_record hrun⟩

/-- A source that is read is read from its tokens. -/
theorem exists_parse_of_parseSource {goal : Goal} {limit : Int} {source file : String} {tree : Tree}
    (h : parseSource goal source file limit = .ok tree) :
    ∃ tokens start s', scan source file = .ok tokens ∧ ParseState.ofTokens tokens = .ok start ∧
      goal.parse limit start = .ok tree s' := by
  obtain ⟨tokens, hscan, htokens⟩ := parseSource_eq_ok.mp h
  obtain ⟨result, index, hends⟩ := goal.exists_ends limit (Scanner.ended_of_scan hscan)
  rw [Goal.parseTokens_of_ends hends] at htokens
  subst htokens
  obtain ⟨start, s', hstart, hparse, _⟩ := Goal.exists_of_ends_ok hends
  exact ⟨tokens, start, s', hscan, hstart, hparse⟩

/-- Links are consistent at every moment, whatever nodes were built, and a document is that of the
nodes in its walk. What a source is read as is built as one tree, and the tree is linked: in a
program the root is the document of all nodes, in an expression no node has a document. So it is
when the tree is numbered and built again. -/
theorem links_consistent :
    (∀ (κ α : Type) [BEq κ] [Hashable κ] [LawfulBEq κ] (ns : List (Node (κ × α))),
      Node.History ns →
      (∀ moment, moment <+: ns → Consistent moment (Links.after moment)) ∧
      ∀ front n, front ++ [n] <+: ns →
        (n.kind = .document → ∀ x ∈ front ++ [n],
          ((Links.after (front ++ [n])).of x.key).document = some n.key ↔ x ∈ n.walk) ∧
        ∀ x ∈ front, (n.kind = .document → x ∉ n.walk) →
          ((Links.after (front ++ [n])).of x.key).document =
            ((Links.after front).of x.key).document) ∧
    (∀ (goal : Goal) (limit : Int) (built : List Made),
      (fun made => made.1.map Prod.snd) <$> (goal.record limit).run built = goal.parse limit) ∧
    ∀ (goal : Goal) (source file : String) (limit : Int) (tree : Tree),
      parseSource goal source file limit = .ok tree →
      (∃ tokens start root built s', scan source file = .ok tokens ∧
        ParseState.ofTokens tokens = .ok start ∧
        (goal.record limit).run [] start = .ok (root, built) s' ∧
        root.map Prod.snd = tree ∧ Node.History built ∧ built.Perm root.walk ∧
        Linked root (Links.after built) (if goal = .program then some root.key else none)) ∧
      tree.numbered.map Prod.snd = tree ∧
      Linked tree.numbered (Links.ofTree tree.numbered)
        (if goal = .program then some tree.numbered.key else none) := by
  refine ⟨fun κ α _ _ _ ns h => ⟨fun moment hmoment => ?_, fun front n hn => ⟨?_, ?_⟩⟩, ?_, ?_⟩
  · exact (h.of_prefix hmoment).consistent
  · exact fun hkind x hx => (h.of_prefix hn).document_eq_some_iff hkind hx
  · exact fun x hx hwalk => (h.of_prefix hn).document_of_mem hx hwalk
  · exact fun goal limit => goal.erases_record limit
  · intro goal source file limit tree hread
    obtain ⟨tokens, start, s', hscan, hstart, hparse⟩ := exists_parse_of_parseSource hread
    obtain ⟨root, built, hrun, rfl, hforest, hbelow, hkind⟩ := Goal.exists_record hparse
    have hlinked := hforest.linked hbelow
    have hnumbered := Node.linked_numbered ((Node.noneBelow_map_iff (f := Prod.snd)).mpr hbelow)
    rw [Node.kind_map] at hnumbered
    simp only [hkind] at hlinked hnumbered
    refine ⟨⟨tokens, start, root, built, s', hscan, hstart, hrun, rfl, hforest.history, ?_,
      hlinked⟩, Node.map_numbered _, hnumbered⟩
    simpa using hforest.perm

/-- The tokens of `f().g;`. -/
def suffixTokens : List Token :=
  [⟨.identifier, "f", ⟨"f", 1, 1, 0⟩⟩, ⟨.delimiter, "(", ⟨"f", 1, 2, 1⟩⟩,
    ⟨.delimiter, ")", ⟨"f", 1, 3, 2⟩⟩, ⟨.delimiter, ".", ⟨"f", 1, 4, 3⟩⟩,
    ⟨.identifier, "g", ⟨"f", 1, 5, 4⟩⟩, ⟨.delimiter, ";", ⟨"f", 1, 6, 5⟩⟩,
    ⟨.endOfInput, "", ⟨"f", 1, 7, 6⟩⟩]

/-- The document of `f().g;`. -/
def suffixDocument : Tree :=
  .document ⟨"f", 1, 1, 0⟩ [.member ⟨"f", 1, 1, 0⟩
    (.call ⟨"f", 1, 1, 0⟩ (.primary ⟨"f", 1, 1, 0⟩ .identifier "f") [])
    (.primary ⟨"f", 1, 5, 4⟩ .identifier "g")]

/-- The call in `f().g;` is taken by the member behind it. The document is that of all five
nodes. -/
theorem links_consistent_suffixes :
    Node.History suffixDocument.numbered.makingOrder ∧
      Consistent suffixDocument.numbered.makingOrder
        (Links.after suffixDocument.numbered.makingOrder) ∧
      (∀ x ∈ suffixDocument.numbered.makingOrder,
        ((Links.after suffixDocument.numbered.makingOrder).of x.key).document =
          some suffixDocument.numbered.key ↔ x ∈ suffixDocument.numbered.walk) ∧
      parseSource .program "f().g;" "f" 64 = .ok suffixDocument ∧
      Linked suffixDocument.numbered (Links.ofTree suffixDocument.numbered)
        (some suffixDocument.numbered.key) := by
  have hhistory : Node.History suffixDocument.numbered.makingOrder :=
    (Node.forest_makingOrder (Node.distinct_numbered _)).history
  have hscan : scan "f().g;" "f" = .ok suffixTokens := by decide
  have hparse : parseSource .program "f().g;" "f" 64 = .ok suffixDocument :=
    parseSource_eq_ok.mpr ⟨_, hscan, rfl⟩
  have hhistories := links_consistent.1 Nat Location _ hhistory
  have hlast := Node.makingOrder_eq suffixDocument.numbered
  have hdocument := hhistories.2 _ _ ⟨[], (List.append_nil _).trans hlast.symm⟩
  rw [← hlast] at hdocument
  have hlinked := (links_consistent.2.2 .program "f().g;" "f" 64 _ hparse).2.2
  rw [if_pos rfl] at hlinked
  exact ⟨hhistory, hhistories.1 _ List.prefix_rfl, hdocument.1 rfl, hparse, hlinked⟩

end RegisterLang
