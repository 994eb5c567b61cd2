import RegisterLang.Proofs.Grammar.Ending

/-!
# How deep trees get

The limit on nesting bounds the trees, not only the parser. Sums, members and calls can be chained
without end, and a chain goes on in its left operand, its object or its callee. Apart from the steps
along chains, a path down a tree has no more steps than the limit allows. Most constructs open a
level of nesting before they can contain themselves. Right operands open none, but their operators
bind more and more tightly.
-/

namespace RegisterLang

/-! ### Paths down a tree -/

namespace Node

variable {α : Type}

/-- The node that a chain goes on in: a left operand, an object or a callee. -/
def chained : Node α → Option (Node α)
  | member _ object _ => some object
  | call _ callee _ => some callee
  | binary _ _ left _ => some left
  | _ => none

/-- The nodes directly below a node that no chain goes on in. -/
def branches : Node α → List (Node α)
  | member _ _ property => [property]
  | call _ _ args => args
  | binary _ _ _ right => [right]
  | n => n.children

/-- The node that a chain goes on in and the branches are all that is directly below a node. -/
theorem children_eq (n : Node α) : n.children = n.chained.toList ++ n.branches := by
  cases n <;> rfl

/-- `Path n k`: a path from the node `n` down to a node with nothing below it has `k` steps into
branches. Steps along chains do not count. -/
inductive Path : Node α → Nat → Prop where
  | leaf {n} : n.children = [] → Path n 0
  | chain {n c k} : c ∈ n.chained → Path c k → Path n k
  | branch {n c k} : c ∈ n.branches → Path c k → Path n (k + 1)

/-- No path down from the node has more than `most` steps into branches. -/
def Shallow (n : Node α) (most : Nat) : Prop :=
  ∀ k, n.Path k → k ≤ most

variable {n : Node α} {most more : Nat}

/-- A tree that is shallow enough for a bound is so for any larger one. -/
theorem Shallow.mono (h : n.Shallow most) (hle : most ≤ more) : n.Shallow more :=
  fun k hk => Nat.le_trans (h k hk) hle

/-- A path ends in a node without children. -/
theorem shallow_of_children (h : n.children = []) : n.Shallow most := by
  rw [children_eq, List.append_eq_nil_iff, Option.toList_eq_nil_iff] at h
  obtain ⟨hchained, hbranches⟩ := h
  intro k hk
  cases hk with
  | leaf => exact Nat.zero_le most
  | chain hc =>
    rw [hchained] at hc
    cases hc
  | branch hc =>
    rw [hbranches] at hc
    cases hc

/-- A node is deeper than its branches, but not deeper than the node that a chain goes on in. -/
theorem shallow_of_branches (hchained : ∀ c ∈ n.chained, c.Shallow more)
    (hbranches : ∀ c ∈ n.branches, c.Shallow most) (hlt : most < more) : n.Shallow more := by
  intro k hk
  cases hk with
  | leaf => exact Nat.zero_le more
  | chain hc hk => exact hchained _ hc _ hk
  | @branch _ _ k hc hk =>
    have hle : k ≤ most := hbranches _ hc k hk
    omega

/-- A node that has no chain is deeper than its children. -/
theorem shallow_of_chained (hchained : n.chained = none)
    (hchildren : ∀ c ∈ n.children, c.Shallow most) (hlt : most < more) : n.Shallow more := by
  refine shallow_of_branches ?_ ?_ hlt
  · rw [hchained]
    rintro c ⟨⟩
  · rwa [children_eq, hchained] at hchildren

/-- A node with one child and no chain is deeper than the child. -/
theorem shallow_of_child {c : Node α} (hchained : n.chained = none) (hchildren : n.children = [c])
    (hc : c.Shallow most) (hlt : most < more) : n.Shallow more := by
  refine shallow_of_chained hchained ?_ hlt
  rw [hchildren, List.forall_mem_singleton]
  exact hc

end Node

namespace Grammar

open Node Parse

/-! ### Trees of phrases -/

/-- How shallow the trees of a phrase are that is read with at most `n` levels of nesting. A level
has room for eleven steps: right operands below each other are of higher and higher ranks, and one
more step leads into the next level. -/
def Phrase.Shallow {α : Type} (n : Nat) : Phrase α → Prop
  | statements trees | arguments trees | furtherArguments trees =>
    ∀ tree ∈ trees, tree.Shallow (11 * n)
  | statement tree | initialValue tree | expression tree | primary tree => tree.Shallow (11 * n)
  | declaration _ tree | block tree | operand tree | suffixed tree => tree.Shallow (11 * n + 1)
  | binary least tree => tree.Shallow (11 * n + 1 + (topRank - max least 1))
  | params trees | furtherParams trees => ∀ tree ∈ trees, tree.Shallow 1
  | param tree => tree.Shallow 1
  | typeAfterColon tree => ∀ name ∈ tree, name.Shallow 0
  | capture tree => ∀ inside ∈ tree, inside.Shallow (11 * n)

/-- The trees of a phrase are as shallow as the levels of nesting allow. -/
theorem Derives.shallow {α : Type} {mark : Token → α} {apart : Token → Prop} {n : Nat}
    {phrase : Phrase α} {xs ys : List Token} (h : Derives mark apart n phrase xs ys) :
    phrase.Shallow n := by
  have htop : topRank = 10 := rfl
  have name {token : Token} : (nameOf mark token).Shallow 0 := shallow_of_children rfl
  induction h with
  | noStatement | noArgument | noFurtherArgument | trailingComma | noParam | noFurtherParam =>
    exact fun tree htree => absurd htree List.not_mem_nil
  | noType | noCapture => rintro tree ⟨⟩
  | returnsNothing | imports | literal | identifier | register => exact shallow_of_children rfl
  | moreStatements _ _ ih₁ ih₂ | someArguments _ _ ih₁ ih₂ | furtherArgument _ _ _ ih₁ ih₂
  | someParams _ _ ih₁ ih₂ | furtherParam _ _ _ ih₁ ih₂ =>
    exact List.forall_mem_cons.mpr ⟨ih₁, ih₂⟩
  | closedValue _ _ ih | openValue _ _ ih | plain _ ih | parenthesized _ _ _ ih => exact ih
  | declares _ ih | declaresConst _ _ ih | evaluates _ _ _ ih | single _ ih | bare _ ih
  | value _ ih => exact ih.mono (by omega)
  | returnsValue _ _ _ ih | plainDeclaration _ _ _ ih | unary _ _ ih =>
    exact shallow_of_child rfl rfl ih (by omega)
  | @function n params returnType body _ _ opening _ _ _ _ _ _ _ _ _ _ _ _ ih₁ ih₂ ih₃ =>
    have hparams : (Node.params (mark opening) params).Shallow 2 :=
      shallow_of_chained rfl ih₁ (by decide)
    have hchildren : ∀ c ∈ .params (mark opening) params :: body :: returnType.toList,
        c.Shallow (11 * n + 2) := by
      simp only [List.forall_mem_cons, Option.mem_toList]
      exact ⟨hparams.mono (by omega), ih₃.mono (by omega),
        fun tree htree => (ih₂ tree htree).mono (by omega)⟩
    exact shallow_of_chained rfl hchildren (by omega)
  | @loop n condition capture body _ _ _ _ _ _ _ _ _ _ _ _ _ ih₁ ih₂ ih₃ =>
    have hchildren : ∀ c ∈ condition :: (capture.toList ++ [body]), c.Shallow (11 * n + 1) := by
      simp only [List.forall_mem_cons, List.forall_mem_append, Option.mem_toList]
      exact ⟨ih₁.mono (by omega), fun tree htree => (ih₂ tree htree).mono (by omega), ih₃,
        by simp⟩
    exact shallow_of_chained rfl hchildren (by omega)
  | @typedDeclaration n _ value _ typeName _ _ _ _ _ _ _ ih
  | @statementDeclaration n _ value _ typeName _ _ _ _ _ _ ih =>
    have hchildren : ∀ c ∈ [value, nameOf mark typeName], c.Shallow (11 * n) :=
      List.forall_mem_cons.mpr ⟨ih, List.forall_mem_singleton.mpr (name.mono (Nat.zero_le _))⟩
    exact shallow_of_chained rfl hchildren (by omega)
  | block _ _ _ ih => exact shallow_of_chained rfl ih (by omega)
  | @param _ typeName token _ _ _ _ ih =>
    have hchildren : ∀ c ∈ .literal (mark token) .number "0" :: typeName.toList, c.Shallow 0 := by
      simp only [List.forall_mem_cons, Option.mem_toList]
      exact ⟨shallow_of_children rfl, ih⟩
    exact shallow_of_chained rfl hchildren (by decide)
  | someType =>
    rintro tree ⟨⟩
    exact name
  | someCapture _ _ _ ih =>
    rintro tree ⟨⟩
    exact ih
  | @assignment n left right _ _ _ _ _ _ _ ih₁ ih₂ =>
    have hchildren : ∀ c ∈ [left, right], c.Shallow (11 * n + 10) :=
      List.forall_mem_cons.mpr
        ⟨ih₁.mono (by omega), List.forall_mem_singleton.mpr (ih₂.mono (by omega))⟩
    exact shallow_of_chained rfl hchildren (by omega)
  | @binary n least left right op _ _ _ _ hrank hleast _ _ ih₁ ih₂ =>
    -- The way to the right operand uses up a rank.
    have hless := rank_lt_topRank op.lexeme
    have hbranches : ∀ c ∈ [right],
        c.Shallow (11 * n + 1 + (topRank - max (rank op.lexeme + 1) 1)) :=
      List.forall_mem_singleton.mpr ih₂
    refine shallow_of_branches ?_ hbranches (by omega)
    rintro tree ⟨⟩
    exact ih₁.mono (by omega)
  | call _ _ _ _ ih₁ ih₂ =>
    refine shallow_of_branches ?_ ih₂ (by omega)
    rintro tree ⟨⟩
    exact ih₁
  | @member n object _ token _ _ _ _ _ ih =>
    have hbranches : ∀ c ∈ [nameOf mark token], c.Shallow 0 := List.forall_mem_singleton.mpr name
    refine shallow_of_branches ?_ hbranches (by omega)
    rintro tree ⟨⟩
    exact ih

/-! ### Whole readings -/

/-- The tokens in front of the first end of the input derive what is read as a lone expression. -/
theorem reads_of_parseTokens_expression {limit : Int} {tokens : List Token} {tree : Tree}
    (hended : ∃ last ∈ tokens.getLast?, last.kind = .endOfInput)
    (h : parseTokens .expression limit tokens = .ok tree) :
    Reads limit.toNat (.expression tree) (tokens.takeWhile (·.kind != .endOfInput)) [] := by
  obtain ⟨result, index, hends⟩ := Goal.expression.exists_ends limit hended
  obtain rfl : result = .ok tree := (Goal.parseTokens_of_ends hends).symm.trans h
  obtain ⟨start, s, hstart, hrun, _⟩ := Goal.exists_of_ends_ok hends
  obtain ⟨rfl, _⟩ := ParseState.eq_of_ofTokens hstart
  rw [Goal.parse_run] at hrun
  obtain ⟨htree, hend⟩ := Goal.read_expression_eq_ok.mp hrun
  have hreads := (produce_sound limit).expression htree
  rwa [ParseState.pending_eq_nil_iff.mpr hend, start.pending_rewind] at hreads

/-- A level of nesting makes a tree eleven steps deeper at most, and a document is one more. -/
theorem shallow_of_parseTokens {goal : Goal} {limit : Int} {tokens : List Token} {tree : Tree}
    (hended : ∃ last ∈ tokens.getLast?, last.kind = .endOfInput)
    (h : parseTokens goal limit tokens = .ok tree) : tree.Shallow (11 * limit.toNat + 1) := by
  cases goal with
  | program =>
    obtain ⟨first, _, trees, rfl, hreads⟩ := (parseTokens_eq_ok_iff hended).mp h
    exact shallow_of_chained rfl hreads.shallow (Nat.lt_succ_self _)
  | expression =>
    have hreads := reads_of_parseTokens_expression hended h
    exact hreads.shallow.mono (Nat.le_succ _)

/-- However long the tokens are, the limit on nesting bounds the paths down the tree that is read
from them, apart from steps along chains. -/
theorem path_le_of_parseTokens {goal : Goal} {d : Nat} {tokens : List Token} {tree : Tree} {k : Nat}
    (hended : ∃ last ∈ tokens.getLast?, last.kind = .endOfInput)
    (h : parseTokens goal d tokens = .ok tree) (hk : tree.Path k) : k ≤ 12 * (d + 1) := by
  have hle : k ≤ 11 * (d : Int).toNat + 1 := shallow_of_parseTokens hended h k hk
  rw [Int.toNat_natCast] at hle
  omega

/-- A call of a member, `a.b(1)`, as tokens. -/
def memberCallTokens : List Token :=
  [.bare .identifier "a", .bare .delimiter ".", .bare .identifier "b", .bare .delimiter "(",
    .bare .number "1", .bare .delimiter ")", .bare .endOfInput ""]

/-- From the call along the chain to the member, and from there into its property, there is one step
into a branch. -/
theorem path_le_of_parseTokens_memberCallTokens :
    (∃ last ∈ memberCallTokens.getLast?, last.kind = .endOfInput) ∧
      ∃ tree, parseTokens .expression (2 : Nat) memberCallTokens = .ok tree ∧ tree.Path 1 ∧
        1 ≤ 12 * (2 + 1) := by
  have hended : ∃ last ∈ memberCallTokens.getLast?, last.kind = .endOfInput := ⟨_, rfl, rfl⟩
  obtain ⟨tree, htree, hpath⟩ :
      ∃ tree, parseTokens .expression (2 : Nat) memberCallTokens = .ok tree ∧ tree.Path 1 :=
    ⟨_, rfl, .chain rfl (.branch List.mem_cons_self (.leaf rfl))⟩
  exact ⟨hended, tree, htree, hpath, path_le_of_parseTokens hended htree hpath⟩

end Grammar

end RegisterLang
