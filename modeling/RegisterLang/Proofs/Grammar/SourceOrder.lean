import RegisterLang.Proofs.Grammar.Places

/-!
# Children in the order of the source

Siblings take their tokens one behind the other, so in the order in which a source writes them all
nodes at and below one begin in front of all nodes at and below the next. The children of a node are
in that order, and walks go forward, unless the node has a type: its value or body comes first.
-/

namespace RegisterLang

namespace Node

variable {α : Type} {a b n m c : Tree} {isParam : Bool}

/-! ### Siblings in place -/

/-- All nodes of one tree begin in front of all nodes of another one. -/
def Before (a b : Tree) : Prop :=
  ∀ x ∈ a.walk, ∀ y ∈ b.walk, x.tag.offset < y.tag.offset

/-- The nodes directly below a node in the order of their places. The literal that fills the place
of a parameter's value stands where the name stands, in front of the type. -/
def inPlaceOrder (isParam : Bool) (n : Node α) : List (Node α) :=
  if isParam then n.children else n.inSourceOrder

/-- The nodes of a tree stand in place: below each of them, the siblings follow each other. -/
structure Placed (isParam : Bool) (n : Tree) : Prop where
  siblings : (n.inPlaceOrder isParam).Pairwise Before
  below : ∀ m ∈ n.walk, ∀ c ∈ m.children, (c.inPlaceOrder m.isParams).Pairwise Before

/-- Trees that begin one in front of the other have their places in that order. -/
theorem Before.offset_lt (h : a.Before b) : a.tag.offset < b.tag.offset :=
  h a (mem_walk_self a) b (mem_walk_self b)

/-- Siblings stand in place as they are listed, if there is no type among them or they are those of
a parameter. -/
theorem inPlaceOrder_eq_children {n : Node α} (h : n.ownType = none ∨ isParam) :
    n.inPlaceOrder isParam = n.children := by
  unfold inPlaceOrder
  split
  · rfl
  · rcases n.inSourceOrder_cases with ⟨-, heq⟩ | ⟨_, type, _, hown, -, -⟩
    · exact heq
    · simp_all

/-- A node with nothing below it but what follows each other has no type. -/
theorem ownType_eq_none_of_row_eq {n : Node α} (h : n.row = n.children) : n.ownType = none := by
  cases n <;> first | rfl | cases h

namespace Placed

/-- A tree stands in place if its siblings do and everything below them does. -/
theorem of_children (hsiblings : (n.inPlaceOrder isParam).Pairwise Before)
    (hchildren : ∀ c ∈ n.children, c.Placed n.isParams) : n.Placed isParam where
  siblings := hsiblings
  below m hm c hc := by
    rcases mem_walk.mp hm with rfl | ⟨d, hd, hm⟩
    · exact (hchildren c hc).siblings
    · exact (hchildren d hd).below m hm c hc

/-- Siblings in place begin one behind the other. -/
theorem offsets_lt (h : n.Placed isParam) :
    ((n.inPlaceOrder isParam).map (·.tag.offset)).Pairwise (· < ·) :=
  List.pairwise_map.mpr (h.siblings.imp Before.offset_lt)

/-- The nodes of a tree below every node of it stand in place. -/
theorem of_mem_children (h : n.Placed isParam) (hm : m ∈ n.walk) (hc : c ∈ m.children) :
    c.Placed m.isParams where
  siblings := h.below m hm c hc
  below x hx := h.below x (mem_walk_trans hm (mem_walk_trans (mem_walk_of_mem_children hc) hx))

/-- Children are in order exactly if none of them is a type, or if they are those of a parameter. -/
theorem children_sorted_iff (h : n.Placed isParam) :
    (n.children.map (·.tag.offset)).Pairwise (· ≤ ·) ↔ n.ownType = none ∨ isParam := by
  constructor
  · intro hsorted
    refine n.inSourceOrder_cases.imp And.left fun ⟨front, type, last, _, horder, hchildren⟩ => ?_
    by_contra hparam
    -- the type stands in front of what comes before it among the children
    have hsiblings := h.siblings
    rw [inPlaceOrder, if_neg hparam, horder] at hsiblings
    have hlt := (List.pairwise_pair.mp (List.pairwise_append.mp hsiblings).2.1).offset_lt
    rw [hchildren, List.map_append] at hsorted
    have hle := List.pairwise_pair.mp (List.pairwise_append.mp hsorted).2.1
    exact Int.not_le.mpr hlt hle
  · intro hown
    rw [← inPlaceOrder_eq_children hown, List.pairwise_map]
    exact h.siblings.imp fun hbefore => Int.le_of_lt hbefore.offset_lt

end Placed

/-! ### Walks -/

/-- No node below this one begins in front of the one directly above it. -/
def Nested (n : Tree) : Prop :=
  ∀ m ∈ n.walk, ∀ c ∈ m.children, m.tag.offset ≤ c.tag.offset

/-- What is nested in a tree is nested itself. -/
theorem Nested.of_mem_walk (h : n.Nested) (hm : m ∈ n.walk) : m.Nested :=
  fun x hx => h x (mem_walk_trans hm hx)

/-- No node of a nested tree begins in front of it. -/
theorem Nested.offset_le (h : n.Nested) (hm : m ∈ n.walk) : n.tag.offset ≤ m.tag.offset := by
  induction n using Node.induction with
  | step n ih =>
    rcases mem_walk.mp hm with rfl | ⟨c, hc, hm⟩
    · exact Int.le_refl _
    · have hnested := h.of_mem_walk (mem_walk_of_mem_children hc)
      exact Int.le_trans (h n (mem_walk_self n) c hc) (ih c hc hnested hm)

/-- Walks go forward if no declaration but a parameter has a type, and no function. -/
theorem Placed.walk_sorted (h : n.Placed isParam) (hnested : n.Nested)
    (hown : n.ownType = none ∨ isParam)
    (hbelow : ∀ m ∈ n.walk, ∀ c ∈ m.children, c.ownType = none ∨ m.isParams) :
    (n.walk.map (·.tag.offset)).Pairwise (· ≤ ·) := by
  rw [List.pairwise_map]
  induction n using Node.induction generalizing isParam with
  | step n ih =>
    rw [walk_eq, List.pairwise_cons, List.pairwise_flatMap]
    refine ⟨fun m hm => ?_, fun c hc => ?_, ?_⟩
    · refine hnested.offset_le ?_
      rw [walk_eq]
      exact List.mem_cons_of_mem _ hm
    · have hwalk := mem_walk_of_mem_children hc
      exact ih c hc (h.of_mem_children (mem_walk_self n) hc) (hnested.of_mem_walk hwalk)
        (hbelow n (mem_walk_self n) c hc) fun m hm => hbelow m (mem_walk_trans hwalk hm)
    · rw [← inPlaceOrder_eq_children hown]
      exact h.siblings.imp fun hbefore x hx y hy => Int.le_of_lt (hbefore x hx y hy)

/-- Where a walk goes forward, so do the children of each node. -/
theorem children_sorted_of_walk_sorted (h : (n.walk.map (·.tag.offset)).Pairwise (· ≤ ·))
    (hm : m ∈ n.walk) : (m.children.map (·.tag.offset)).Pairwise (· ≤ ·) := by
  have hchildren : m.children.Sublist m.walk := by
    rw [walk_eq]
    exact (sublist_flatMap_walk m.children).cons m
  exact h.sublist ((hchildren.trans (walk_sublist hm)).map _)

end Node

namespace Grammar

open Node

/-- Trees that stand over tokens in order follow each other, and so do the nodes in each. -/
theorem Spans.placed {isParam : Bool} {trees : List Tree} {tokens : List Token}
    (h : Spans isParam trees tokens) (horder : InOrder tokens) :
    trees.Pairwise Before ∧ ∀ tree ∈ trees, tree.Placed isParam := by
  induction h with
  | nothing => exact ⟨.nil, by simp⟩
  | @append isParam trees trees' tokens tokens' hspans hspans' ih₁ ih₂ =>
    obtain ⟨horder₁, horder₂, hbetween⟩ := List.pairwise_append.mp horder
    obtain ⟨hbefore₁, hplaced₁⟩ := ih₁ horder₁
    obtain ⟨hbefore₂, hplaced₂⟩ := ih₂ horder₂
    refine ⟨List.pairwise_append.mpr ⟨hbefore₁, hbefore₂, ?_⟩, ?_⟩
    · intro a ha b hb x hx y hy
      obtain ⟨t, ht, hplace⟩ := List.mem_map.mp (hspans.laid.tags a ha x hx)
      obtain ⟨u, hu, hplace'⟩ := List.mem_map.mp (hspans'.laid.tags b hb y hy)
      rw [← hplace, ← hplace']
      exact hbetween t ht u hu
    · exact List.forall_mem_append.mpr ⟨hplaced₁, hplaced₂⟩
  | @under n t tokens _ _ _ ih =>
    obtain ⟨hbefore, hplaced⟩ := ih (List.pairwise_cons.mp horder).2
    refine ⟨List.pairwise_singleton _ _, List.forall_mem_singleton.mpr (.of_children hbefore ?_)⟩
    exact fun c hc => hplaced c (n.inSourceOrder_perm.mem_iff.mpr hc)
  | @param t typeName tokens hspans _ ih =>
    obtain ⟨hfirst, horder⟩ := List.pairwise_cons.mp horder
    obtain ⟨hbefore, hplaced⟩ := ih horder
    refine ⟨List.pairwise_singleton _ _, List.forall_mem_singleton.mpr (.of_children ?_ ?_)⟩
    · -- the literal stands at the name, and the type behind it
      refine List.pairwise_cons.mpr ⟨fun type htype x hx y hy => ?_, hbefore⟩
      obtain ⟨u, hu, hplace⟩ := List.mem_map.mp (hspans.laid.tags type htype y hy)
      obtain rfl : x = .literal t.location .number "0" := by simpa [walk_eq, children] using hx
      rw [← hplace]
      exact hfirst u hu
    · refine List.forall_mem_cons.mpr ⟨.of_children .nil ?_, hplaced⟩
      exact fun c hc => by cases hc
  | headed _ _ _ hparams hchildren hrow ih =>
    obtain ⟨hbefore, hplaced⟩ := ih horder
    refine ⟨List.pairwise_singleton _ _, List.forall_mem_singleton.mpr (.of_children ?_ ?_)⟩
    · rwa [inPlaceOrder_eq_children (.inl (ownType_eq_none_of_row_eq hrow)), hchildren]
    · rwa [hparams, hchildren]

end Grammar

/-! ### Documents -/

open Grammar Node

/-- The nodes of a document stand in place, each behind the beginning of the one above it. -/
theorem placed_of_parseSource {source file : String} {limit : Int} {document : Tree}
    (h : parseSource .program source file limit = .ok document) :
    document.Placed false ∧ document.Nested ∧ document.ownType = none := by
  obtain ⟨tokens, hscan, hdocument⟩ := parseSource_eq_ok.mp h
  have horder := Scanner.inOrder_of_scan hscan
  obtain ⟨first, hfirst, trees, rfl, hreads⟩ :=
    (parseTokens_eq_ok_iff (Scanner.ended_of_scan hscan)).mp hdocument
  obtain ⟨ts, rfl, hscans⟩ := Scanner.scan_eq_ok_iff.mp hscan
  rw [takeWhile_append_ended hscans.kind_ne_endOfInput rfl] at hreads
  obtain ⟨used, hused, hspans⟩ := hreads.spans
  rw [List.append_nil] at hused
  subst hused
  have horder' : InOrder ts := (List.pairwise_append.mp horder).1
  obtain ⟨hbefore, hplaced⟩ := hspans.placed horder'
  refine ⟨.of_children hbefore hplaced, fun m hm c hc => ?_, rfl⟩
  rcases mem_walk.mp hm with rfl | ⟨tree, htree, hm⟩
  · obtain ⟨t, ht, hplace⟩ := hspans.laid.exists_token hc
    rw [← hplace]
    exact horder.head_le hfirst (List.mem_append_left _ ht)
  · exact (hspans.laid.ordered horder' tree htree m hm).nested c hc

/-- Below every node of a document, the nodes begin one behind the other in the order in which the
source writes them. The children of a node are in that order exactly if it has no type or is a
parameter, and the walk of a document goes forward exactly if that is so of all its nodes. -/
theorem offsets_sorted_iff {source file : String} {limit : Int} {document : Tree}
    (h : parseSource .program source file limit = .ok document) :
    (document.children.map (·.tag.offset)).Pairwise (· < ·) ∧
      (∀ m ∈ document.walk, ∀ c ∈ m.children,
        ((c.inPlaceOrder m.isParams).map (·.tag.offset)).Pairwise (· < ·) ∧
        ((c.children.map (·.tag.offset)).Pairwise (· ≤ ·) ↔ c.ownType = none ∨ m.isParams)) ∧
      ((document.walk.map (·.tag.offset)).Pairwise (· ≤ ·) ↔
        ∀ m ∈ document.walk, ∀ c ∈ m.children, c.ownType = none ∨ m.isParams) := by
  obtain ⟨hplaced, hnested, hown⟩ := placed_of_parseSource h
  have hbelow {m c : Tree} (hm : m ∈ document.walk) (hc : c ∈ m.children) :=
    hplaced.of_mem_children hm hc
  refine ⟨?_, fun m hm c hc => ⟨(hbelow hm hc).offsets_lt, (hbelow hm hc).children_sorted_iff⟩,
    fun hsorted m hm c hc => ?_, hplaced.walk_sorted hnested (.inl hown)⟩
  · rw [← inPlaceOrder_eq_children (.inl hown)]
    exact hplaced.offsets_lt
  · have hwalk := mem_walk_trans hm (mem_walk_of_mem_children hc)
    exact (hbelow hm hc).children_sorted_iff.mp (children_sorted_of_walk_sorted hsorted hwalk)

/-- The tokens of `@func f(x: T): U {}`. -/
def typedTokens : List Token :=
  [⟨.directive, "func", ⟨"f", 1, 1, 0⟩⟩, ⟨.identifier, "f", ⟨"f", 1, 7, 6⟩⟩,
    ⟨.delimiter, "(", ⟨"f", 1, 8, 7⟩⟩, ⟨.identifier, "x", ⟨"f", 1, 9, 8⟩⟩,
    ⟨.delimiter, ":", ⟨"f", 1, 10, 9⟩⟩, ⟨.identifier, "T", ⟨"f", 1, 12, 11⟩⟩,
    ⟨.delimiter, ")", ⟨"f", 1, 13, 12⟩⟩, ⟨.delimiter, ":", ⟨"f", 1, 14, 13⟩⟩,
    ⟨.identifier, "U", ⟨"f", 1, 16, 15⟩⟩, ⟨.delimiter, openingBrace, ⟨"f", 1, 18, 17⟩⟩,
    ⟨.delimiter, closingBrace, ⟨"f", 1, 19, 18⟩⟩, ⟨.endOfInput, "", ⟨"f", 1, 20, 19⟩⟩]

/-- The parameter of `@func f(x: T): U {}`. -/
def typedParam : Tree :=
  .declaration ⟨"f", 1, 9, 8⟩ "x" false (some (.primary ⟨"f", 1, 12, 11⟩ .identifier "T"))
    (.literal ⟨"f", 1, 9, 8⟩ .number "0")

/-- The function of `@func f(x: T): U {}`. -/
def typedFunction : Tree :=
  .function ⟨"f", 1, 7, 6⟩ "f" (.params ⟨"f", 1, 8, 7⟩ [typedParam])
    (some (.primary ⟨"f", 1, 16, 15⟩ .identifier "U")) (.block ⟨"f", 1, 18, 17⟩ [])

/-- The parameter of a function has its type in order, but the function has its body in front of its
type, and the walk goes back. -/
theorem offsets_sorted_iff_typedFunction :
    let document : Tree := .document ⟨"f", 1, 1, 0⟩ [typedFunction]
    parseSource .program "@func f(x: T): U \x7b\x7d" "f" 64 = .ok document ∧
      (typedParam.children.map (·.tag.offset)).Pairwise (· ≤ ·) ∧
      ¬ (typedFunction.children.map (·.tag.offset)).Pairwise (· ≤ ·) ∧
      ¬ (document.walk.map (·.tag.offset)).Pairwise (· ≤ ·) := by
  intro document
  have hparse : parseSource .program "@func f(x: T): U \x7b\x7d" "f" 64 = .ok document :=
    parseSource_eq_ok.mpr ⟨typedTokens, by decide +kernel, rfl⟩
  obtain ⟨-, hchildren, hwalk⟩ := offsets_sorted_iff hparse
  have hroot : document ∈ document.walk := mem_walk_self document
  have hfunction : typedFunction ∈ document.children := List.mem_cons_self
  have hparams : Node.params ⟨"f", 1, 8, 7⟩ [typedParam] ∈ typedFunction.children :=
    List.mem_cons_self
  have htyped : ¬ (typedFunction.ownType = none ∨ document.isParams) := by
    rintro (h | h) <;> cases h
  have hvisited := mem_walk_trans (mem_walk_of_mem_children hfunction)
    (mem_walk_of_mem_children hparams)
  refine ⟨hparse, ?_, fun hsorted => ?_, fun hsorted => ?_⟩
  · exact (hchildren _ hvisited typedParam List.mem_cons_self).2.mpr (.inr rfl)
  · exact htyped ((hchildren document hroot typedFunction hfunction).2.mp hsorted)
  · exact htyped (hwalk.mp hsorted document hroot typedFunction hfunction)

end RegisterLang
