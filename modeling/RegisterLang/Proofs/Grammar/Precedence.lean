import RegisterLang.Proofs.Grammar.Graft
import RegisterLang.Proofs.Grammar.Program
import RegisterLang.Proofs.Grammar.Trace

/-!
# The textbook tree of a chain of operators

A chain is a list of operands with binary operators between them. Its textbook tree splits at the
operator that binds the least tightly, at the rightmost one if there are several of them, and treats
both sides in the same way. The parser never looks for that operator: it climbs through the chain
from left to right. It comes to the same tree.
-/

namespace RegisterLang.Grammar

open Parse

/-! ### Chains -/

/-- The tokens are accepted as an operand with this tree: somewhere, reading an operand takes
exactly these tokens. -/
def Accepted (tokens : List Token) (tree : Tree) : Prop :=
  ∃ (limit : Int) (s s' : ParseState) (behind : List Token),
    s.pending = tokens ++ behind ∧ unary (m := Parse) (produce limit) s = .ok tree s' ∧
      s'.pending = behind

/-- Tokens that are accepted as an operand. -/
structure Operand where
  tokens : List Token
  tree : Tree
  accepted : Accepted tokens tree

/-- A binary operator with a precedence, and the operand behind it. -/
structure Link where
  op : Token
  operand : Operand
  kind_eq : op.kind = .binaryOperator
  rank_ne : rank op.lexeme ≠ 0

namespace Link

/-- How tightly the operator of a link binds. -/
def rank (link : Link) : Nat :=
  Grammar.rank link.op.lexeme

/-- The tokens of a link. -/
def tokens (link : Link) : List Token :=
  link.op :: link.operand.tokens

end Link

/-- The tokens of an operand and the links behind it. -/
def chainTokens (first : Operand) (links : List Link) : List Token :=
  first.tokens ++ links.flatMap Link.tokens

/-- The tokens of a chain are split like its links. -/
theorem chainTokens_append (first : Operand) (before : List Link) (link : Link)
    (behind : List Link) (ys : List Token) :
    chainTokens first (before ++ link :: behind) ++ ys =
      chainTokens first before ++ link.op :: (chainTokens link.operand behind ++ ys) := by
  simp [chainTokens, Link.tokens]

/-- The rightmost link of the least rank, between the links in front of it and those behind it. -/
def weakest : List Link → Option (List Link × Link × List Link)
  | [] => none
  | link :: links =>
    match weakest links with
    | none => some ([], link, [])
    | some (before, least, behind) =>
      if link.rank < least.rank then some ([], link, links)
      else some (link :: before, least, behind)

/-- A chain with links has a weakest one. -/
theorem weakest_eq_none_iff {links : List Link} : weakest links = none ↔ links = [] := by
  cases links with
  | nil => simp [weakest]
  | cons link links =>
    rw [weakest]
    split
    · simp
    · split <;> simp

/-- No link in front of the weakest one is weaker, and all links behind it are stronger. -/
theorem split_of_weakest {links before behind : List Link} {link : Link}
    (h : weakest links = some (before, link, behind)) :
    links = before ++ link :: behind ∧ (∀ other ∈ before, link.rank ≤ other.rank) ∧
      ∀ other ∈ behind, link.rank < other.rank := by
  induction links generalizing before link behind with
  | nil => cases h
  | cons first links ih =>
    rw [weakest] at h
    split at h
    · next hnone =>
      obtain rfl := weakest_eq_none_iff.mp hnone
      cases h
      simp
    · next before' least behind' hsome =>
      obtain ⟨hlinks, hbefore, hbehind⟩ := ih hsome
      split at h
      · next hless =>
        cases h
        refine ⟨rfl, by simp, ?_⟩
        rw [hlinks, List.forall_mem_append, List.forall_mem_cons]
        exact ⟨fun other hother => Nat.lt_of_lt_of_le hless (hbefore other hother), hless,
          fun other hother => Nat.lt_trans hless (hbehind other hother)⟩
      · next hless =>
        cases h
        refine ⟨by rw [hlinks, List.cons_append], ?_, hbehind⟩
        rw [List.forall_mem_cons]
        exact ⟨Nat.le_of_not_lt hless, hbefore⟩

/-- Only the weakest link is so. -/
theorem weakest_append {before behind : List Link} {link : Link}
    (hbefore : ∀ other ∈ before, link.rank ≤ other.rank)
    (hbehind : ∀ other ∈ behind, link.rank < other.rank) :
    weakest (before ++ link :: behind) = some (before, link, behind) := by
  induction before with
  | nil =>
    rw [List.nil_append, weakest]
    split
    · next hnone => rw [weakest_eq_none_iff.mp hnone]
    · next before' least behind' hsome =>
      obtain ⟨rfl, _⟩ := split_of_weakest hsome
      rw [if_pos (hbehind least (by simp))]
  | cons first before ih =>
    rw [List.forall_mem_cons] at hbefore
    rw [List.cons_append, weakest, ih hbefore.2]
    simp only [if_neg (Nat.not_lt.mpr hbefore.1)]

/-- The textbook tree of an operand and the links behind it: it splits at the weakest link. -/
def textbook (first : Operand) (links : List Link) : Tree :=
  match _h : weakest links with
  | none => first.tree
  | some (before, link, behind) =>
    .binary (textbook first before).tag link.op.lexeme (textbook first before)
      (textbook link.operand behind)
termination_by links.length
decreasing_by
  all_goals
    rw [(split_of_weakest _h).1, List.length_append, List.length_cons]
    omega

/-- A chain without links is its operand. -/
theorem textbook_nil (first : Operand) : textbook first [] = first.tree := by
  rw [textbook]
  rfl

/-- The textbook tree splits at an operator that no operator in front of it is weaker than, if all
operators behind it are stronger. -/
theorem textbook_append (first : Operand) {before behind : List Link} {link : Link}
    (hbefore : ∀ other ∈ before, link.rank ≤ other.rank)
    (hbehind : ∀ other ∈ behind, link.rank < other.rank) :
    textbook first (before ++ link :: behind) =
      .binary (textbook first before).tag link.op.lexeme (textbook first before)
        (textbook link.operand behind) := by
  have hweakest := weakest_append hbefore hbehind
  rw [textbook]
  split
  · next hnone =>
    rw [hweakest] at hnone
    cases hnone
  · next hsome =>
    rw [hweakest] at hsome
    cases hsome
    rfl

/-- A number as an operand. -/
def Operand.number (lexeme : String) : Operand where
  tokens := [.bare .number lexeme]
  tree := .literal (Token.bare .number lexeme).location .number lexeme
  accepted :=
    ⟨0, ⟨[], .bare .number lexeme, [.bare .endOfInput ""], 0, [], rfl⟩, _, [], rfl, rfl, rfl⟩

/-- An operator and a number behind it. -/
def Link.number (op lexeme : String) (hrank : Grammar.rank op ≠ 0) : Link :=
  ⟨.bare .binaryOperator op, .number lexeme, rfl, hrank⟩

/-- The links of a difference that takes a product away, `1 - 2 * 3`. -/
def differenceLinks : List Link :=
  [.number "-" "2" (by decide), .number "*" "3" (by decide)]

/-- The product is the right operand of the difference. -/
example : textbook (.number "1") differenceLinks =
    .binary (Token.bare .number "1").location "-" (Operand.number "1").tree
      (.binary (Token.bare .number "2").location "*" (Operand.number "2").tree
        (Operand.number "3").tree) := by
  cbv

/-! ### Derivations of chains -/

/-- What is accepted as an operand derives one, in front of any tokens. -/
theorem Accepted.exists_reads {tokens : List Token} {tree : Tree} (h : Accepted tokens tree) :
    ∃ n, ∀ ys, Reads n (.operand tree) (tokens ++ ys) ys := by
  obtain ⟨limit, s, s', behind, hpending, hrun, hpending'⟩ := h
  refine ⟨limit.toNat, fun ys => ?_⟩
  have hreads := reads_of_unary (produce_sound limit) hrun
  rw [hpending, hpending'] at hreads
  obtain ⟨xs', ⟨taken, htaken, rfl⟩, hreads'⟩ := hreads.graft_of_isExpression rfl ys
  rwa [List.append_cancel_right htaken]

/-- Some number of levels of nesting is enough for all operands of a chain. -/
theorem exists_reads_operands (operands : List Operand) :
    ∃ n, ∀ u ∈ operands, ∀ ys, Reads n (.operand u.tree) (u.tokens ++ ys) ys := by
  induction operands with
  | nil => exact ⟨0, by simp⟩
  | cons first operands ih =>
    obtain ⟨n, hn⟩ := first.accepted.exists_reads
    obtain ⟨m, hm⟩ := ih
    refine ⟨max n m, ?_⟩
    rw [List.forall_mem_cons]
    exact ⟨fun ys => (hn ys).mono (Nat.le_max_left n m),
      fun u hu ys => (hm u hu ys).mono (Nat.le_max_right n m)⟩

/-- A chain derives its textbook tree, at every precedence that none of its operators is below. -/
theorem reads_textbook {n : Nat} {first : Operand} {links : List Link}
    (hoperands : ∀ u ∈ first :: links.map Link.operand, ∀ ys,
      Reads n (.operand u.tree) (u.tokens ++ ys) ys)
    {least : Nat} (hleast : ∀ link ∈ links, least ≤ link.rank) (ys : List Token) :
    Reads n (.binary least (textbook first links)) (chainTokens first links ++ ys) ys := by
  induction first, links using textbook.induct generalizing least ys with
  | case1 first links hnone =>
    obtain rfl := weakest_eq_none_iff.mp hnone
    rw [textbook_nil, chainTokens, List.flatMap_nil, List.append_nil]
    exact .single (hoperands first List.mem_cons_self ys)
  | case2 first links before link behind hsome ihbefore ihbehind =>
    obtain ⟨rfl, hbefore, hbehind⟩ := split_of_weakest hsome
    simp only [List.map_append, List.map_cons, List.forall_mem_cons,
      List.forall_mem_append] at hoperands
    obtain ⟨hfirst, hleft, hoperand, hright⟩ := hoperands
    rw [textbook_append first hbefore hbehind, chainTokens_append]
    have hreads := ihbefore (List.forall_mem_cons.mpr ⟨hfirst, hleft⟩) hbefore
      (link.op :: (chainTokens link.operand behind ++ ys))
    have hreads' := ihbehind (List.forall_mem_cons.mpr ⟨hoperand, hright⟩)
      (fun other hother => Nat.succ_le_of_lt (hbehind other hother)) ys
    exact .binary link.kind_eq link.rank_ne (hleast link (by simp)) hreads hreads'

/-! ### Climbing -/

/-- What a production derives is read at every depth, when there are enough levels left. -/
theorem produce_complete_at (limit : Int) (depth : Nat) :
    Complete depth (limit - depth).toNat (produce limit) := by
  intro production tree xs ys hends hopens s hs hd
  rw [produce, liftM_eq, get_bind_run, hd]
  exact produceWithin_complete limit _ (Nat.le_refl _) production tree xs ys hends hopens s hs hd

/-- Behind the operators that bind tightly enough, an operand and its operators end. -/
theorem ends_of_dropWhile {least : Nat} {links : List Link} {rest : List Token}
    (hoperator : ∀ t ∈ rest.head?, ¬ (t.kind = .binaryOperator ∧ rank t.lexeme ≠ 0))
    (hsuffix : NoSuffix rest) :
    NoSuffix ((links.dropWhile fun link => least ≤ link.rank).flatMap Link.tokens ++ rest) ∧
      Below least
        ((links.dropWhile fun link => least ≤ link.rank).flatMap Link.tokens ++ rest) := by
  cases hleft : links.dropWhile fun link => least ≤ link.rank with
  | nil => exact ⟨hsuffix, fun t ht hkind hrank => absurd ⟨hkind, hrank⟩ (hoperator t ht)⟩
  | cons link left =>
    have hlink := List.head?_dropWhile_not (fun link : Link => least ≤ link.rank) links
    rw [hleft] at hlink
    have hless : link.rank < least := by simpa using hlink
    refine ⟨noSuffix_cons (by rw [link.kind_eq]; decide), ?_⟩
    rintro t ⟨⟩ _ _
    exact hless

/-- A chain whose operators all bind tightly enough is read as its textbook tree. -/
theorem yields_textbook {n depth least : Nat} {limit : Int} {first : Operand} {links : List Link}
    {ys : List Token}
    (hoperands : ∀ u ∈ first :: links.map Link.operand, ∀ ys,
      Reads n (.operand u.tree) (u.tokens ++ ys) ys)
    (hleast : ∀ link ∈ links, least ≤ link.rank) (hsuffix : NoSuffix ys) (hbelow : Below least ys)
    (hlevels : depth + n ≤ limit) :
    Yields depth (binary (produce limit) least) (chainTokens first links ++ ys)
      (textbook first links) ys := by
  have hreads := reads_textbook hoperands hleast ys
  exact yields_binaryWithin (produce_complete_at limit depth) (by omega) hsuffix hbelow
    (hreads.mono (by omega))

/-- A chain is read as its textbook tree up to the first operator below the least precedence that is
asked for, whatever comes behind the chain, as long as that goes on with no operator and extends no
operand. Some number of levels of nesting is enough for that. -/
theorem exists_binary_run_textbook (first : Operand) (links : List Link) :
    ∃ levels : Nat, ∀ (least : Nat) (limit : Int) (s : ParseState) (rest : List Token),
      s.pending = chainTokens first links ++ rest →
      (∀ t ∈ rest.head?, ¬ (t.kind = .binaryOperator ∧ rank t.lexeme ≠ 0)) → NoSuffix rest →
      s.depth + levels ≤ limit →
      let taken := links.takeWhile fun link => least ≤ link.rank
      let left := links.dropWhile fun link => least ≤ link.rank
      ∃ s', binary (m := Parse) (produce limit) least s = .ok (textbook first taken) s' ∧
        s'.pending = left.flatMap Link.tokens ++ rest ∧
        s'.index = s.index + (chainTokens first taken).length ∧
        s'.tokens = s.tokens ∧ s'.depth = s.depth := by
  obtain ⟨n, hn⟩ := exists_reads_operands (first :: links.map Link.operand)
  refine ⟨n, fun least limit s rest hpending hoperator hsuffix hlevels => ?_⟩
  intro taken left
  have hends : NoSuffix (left.flatMap Link.tokens ++ rest) ∧
      Below least (left.flatMap Link.tokens ++ rest) := ends_of_dropWhile hoperator hsuffix
  have hoperands : ∀ u ∈ first :: taken.map Link.operand, ∀ ys,
      Reads n (.operand u.tree) (u.tokens ++ ys) ys := fun u hu => hn u
    (List.cons_subset_cons _ (List.map_subset _ (List.takeWhile_subset _)) hu)
  have hleast (link : Link) (hlink : link ∈ taken) : least ≤ link.rank := by
    simpa using List.all_eq_true.mp List.all_takeWhile link hlink
  have hchain : s.pending = chainTokens first taken ++ (left.flatMap Link.tokens ++ rest) := by
    have hlinks : links = taken ++ left := List.takeWhile_append_dropWhile.symm
    rw [hpending, hlinks, chainTokens, chainTokens, List.flatMap_append]
    simp only [List.append_assoc]
  obtain ⟨s', hrun, hpending', hdepth⟩ :=
    yields_textbook hoperands hleast hends.1 hends.2 hlevels s hchain rfl
  obtain ⟨through, hruns⟩ := (built_binary (built_produce limit) least).exists_runs s
  rw [hrun] at hruns
  have hindex := hruns.index_add_length_pending
  rw [final, hpending', hchain] at hindex
  simp only [List.length_append] at hindex
  exact ⟨s', hrun, hpending', by omega, hruns.walk.reaches.tokens, hdepth⟩

/-- The difference is read whole, and with a higher least precedence only its first operand is. -/
theorem exists_binary_run_differenceLinks :
    ∃ (limit : Int) (s s' s'' : ParseState),
      s.pending = chainTokens (.number "1") differenceLinks ++ [] ∧
        binary (m := Parse) (produce limit) 0 s = .ok (textbook (.number "1") differenceLinks) s' ∧
        s'.pending = [] ∧ s'.index = s.index + 5 ∧
        binary (m := Parse) (produce limit) 7 s = .ok (textbook (.number "1") []) s'' ∧
        s''.pending = differenceLinks.flatMap Link.tokens ++ [] ∧ s''.index = s.index + 1 := by
  obtain ⟨levels, hruns⟩ := exists_binary_run_textbook (.number "1") differenceLinks
  let s : ParseState := ⟨[], .bare .number "1",
    differenceLinks.flatMap Link.tokens ++ [.bare .endOfInput ""], 0, [], rfl⟩
  have hpending : s.pending = chainTokens (.number "1") differenceLinks ++ [] := rfl
  have hlevels : (s.depth : Int) + levels ≤ levels := by
    change (0 : Int) + levels ≤ levels
    omega
  obtain ⟨s', hrun, hpending', hindex, _⟩ :=
    hruns 0 levels s [] hpending (by simp) (by simp [NoSuffix]) hlevels
  obtain ⟨s'', hrun', hpending'', hindex', _⟩ :=
    hruns 7 levels s [] hpending (by simp) (by simp [NoSuffix]) hlevels
  exact ⟨levels, s, s', s'', hpending, hrun, hpending', hindex, hrun', hpending'', hindex'⟩

end RegisterLang.Grammar
