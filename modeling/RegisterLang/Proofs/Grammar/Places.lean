import RegisterLang.Proofs.Grammar.Program
import RegisterLang.Proofs.Grammar.Spans
import RegisterLang.Proofs.Token.Lawful

/-!
# Places in a tree

Along a derivation, trees and the tokens that they are read from are compared: they hold the same
items, every node stands where a token stands, and where the tokens stand in order, so do the nodes.
-/

namespace RegisterLang

namespace Grammar

open Node

/-! ### Trees and their tokens -/

/-- The trees are read from the tokens, one behind the other. -/
structure Laid (isParam : Bool) (trees : List Tree) (tokens : List Token) : Prop where
  items : (trees.flatMap (itemsWithin isParam)).Perm
    ((tokens.filter (·.kind.holdsItem)).map Token.item)
  tags : ∀ tree ∈ trees, ∀ n ∈ tree.walk, n.tag ∈ tokens.map Token.location
  ordered : InOrder tokens → ∀ tree ∈ trees, ∀ n ∈ tree.walk, n.Ordered
  row : InOrder tokens → (trees.map (·.tag.offset)).Pairwise (· < ·)

namespace Laid

variable {isParam : Bool} {trees trees' : List Tree} {tokens tokens' : List Token}

/-- A tree begins where one of its tokens stands. -/
theorem exists_token (h : Laid isParam trees tokens) {tree : Tree} (htree : tree ∈ trees) :
    ∃ t ∈ tokens, t.location = tree.tag :=
  List.mem_map.mp (h.tags tree htree tree (mem_walk_self tree))

/-- No tree is read from tokens without items. -/
theorem nil (h : ∀ t ∈ tokens, t.kind.holdsItem = false) : Laid isParam [] tokens where
  items := by
    rw [List.filter_eq_nil_iff.mpr (by simpa using h)]
    exact .refl _
  tags := by simp
  ordered _ := by simp
  row _ := .nil

/-- Trees behind other trees are read from the tokens behind theirs. -/
theorem append (h : Laid isParam trees tokens) (h' : Laid isParam trees' tokens') :
    Laid isParam (trees ++ trees') (tokens ++ tokens') where
  items := by
    rw [List.flatMap_append, List.filter_append, List.map_append]
    exact h.items.append h'.items
  tags := by
    intro tree htree n hn
    rw [List.map_append]
    rcases List.mem_append.mp htree with htree | htree
    · exact List.mem_append_left _ (h.tags tree htree n hn)
    · exact List.mem_append_right _ (h'.tags tree htree n hn)
  ordered horder := by
    obtain ⟨horder₁, horder₂, _⟩ := List.pairwise_append.mp horder
    intro tree htree n hn
    rcases List.mem_append.mp htree with htree | htree
    · exact h.ordered horder₁ tree htree n hn
    · exact h'.ordered horder₂ tree htree n hn
  row horder := by
    obtain ⟨horder₁, horder₂, hbetween⟩ := List.pairwise_append.mp horder
    rw [List.map_append, List.pairwise_append]
    refine ⟨h.row horder₁, h'.row horder₂, ?_⟩
    intro i hi j hj
    obtain ⟨tree, htree, rfl⟩ := List.mem_map.mp hi
    obtain ⟨tree', htree', rfl⟩ := List.mem_map.mp hj
    obtain ⟨t, ht, hplace⟩ := h.exists_token htree
    obtain ⟨t', ht', hplace'⟩ := h'.exists_token htree'
    have hless := hbetween t ht t' ht'
    rwa [hplace, hplace'] at hless

/-- One tree is read from the tokens. -/
theorem single {n : Tree}
    (hitems : (n.itemsWithin isParam).Perm ((tokens.filter (·.kind.holdsItem)).map Token.item))
    (htags : ∀ m ∈ n.walk, m.tag ∈ tokens.map Token.location)
    (hordered : InOrder tokens → ∀ m ∈ n.walk, m.Ordered) : Laid isParam [n] tokens where
  items := by rwa [List.flatMap_singleton]
  tags := List.forall_mem_singleton.mpr htags
  ordered horder := List.forall_mem_singleton.mpr (hordered horder)
  row _ := List.pairwise_singleton _ _

/-- A node that begins at the token in front of its children. A literal at the same token may fill
the place of a child. -/
theorem under {n : Tree} {within : Bool} {t : Token} (h : Laid within trees tokens)
    (hwithin : n.isParams = within) (htag : n.tag = t.location)
    (hitem : n.item? = if t.kind.holdsItem then some t.item else none)
    (hwritten : (n.written isParam).Perm trees)
    (hchildren : ∀ c ∈ n.children, c ∈ trees ∨ ∃ kind value, c = .literal t.location kind value)
    (hrow : n.row.Sublist trees) : Laid isParam [n] (t :: tokens) := by
  -- below a child, the nodes are those of a tree, or only the literal that fills the place
  have hbelow (m : Tree) (hm : m ∈ n.walk) : m = n ∨ (∃ c ∈ trees, m ∈ c.walk) ∨
      ∃ kind value, m = .literal t.location kind value := by
    rcases mem_walk.mp hm with rfl | ⟨c, hc, hm⟩
    · exact .inl rfl
    rcases hchildren c hc with hc | ⟨kind, value, rfl⟩
    · exact .inr (.inl ⟨c, hc, hm⟩)
    · exact .inr (.inr ⟨kind, value, by simpa [walk_eq, children] using hm⟩)
  refine .single ?_ (fun m hm => ?_) (fun horder m hm => ?_)
  · have hown : ((t :: tokens).filter (·.kind.holdsItem)).map Token.item =
        n.item?.toList ++ (tokens.filter (·.kind.holdsItem)).map Token.item := by
      rw [hitem, List.filter_cons]
      split <;> rfl
    rw [itemsWithin_eq, hown, hwithin]
    exact ((hwritten.flatMap_right _).trans h.items).append_left _
  · rw [List.map_cons]
    rcases hbelow m hm with rfl | ⟨c, hc, hm⟩ | ⟨kind, value, rfl⟩
    · rw [htag]
      exact List.mem_cons_self
    · exact List.mem_cons_of_mem _ (h.tags c hc m hm)
    · exact List.mem_cons_self
  · obtain ⟨hfirst, horder⟩ := List.pairwise_cons.mp horder
    rcases hbelow m hm with rfl | ⟨c, hc, hm⟩ | ⟨kind, value, rfl⟩
    · refine ⟨fun c hc => ?_, (h.row horder).sublist (hrow.map _)⟩
      rw [htag]
      rcases hchildren c hc with hc | ⟨kind, value, rfl⟩
      · obtain ⟨u, hu, hplace⟩ := h.exists_token hc
        rw [← hplace]
        exact Int.le_of_lt (hfirst u hu)
      · exact Int.le_refl _
    · exact h.ordered horder c hc m hm
    · exact ⟨by simp [children], by simp [Node.row]⟩

/-- A node that begins where the first of its children begins. -/
theorem headed {n left : Tree} (h : Laid false (left :: trees) tokens) (htag : n.tag = left.tag)
    (hitem : n.item? = none) (hparams : n.isParams = false)
    (hchildren : n.children = left :: trees) (hwritten : n.written isParam = n.children)
    (hrow : n.row = n.children) : Laid isParam [n] tokens := by
  refine .single ?_ (fun m hm => ?_) (fun horder m hm => ?_)
  · rw [itemsWithin_eq, hitem, hparams, hwritten, hchildren]
    exact h.items
  · rcases mem_walk.mp hm with rfl | ⟨c, hc, hm⟩
    · rw [htag]
      exact h.tags left List.mem_cons_self left (mem_walk_self left)
    · exact h.tags c (hchildren ▸ hc) m hm
  · rcases mem_walk.mp hm with rfl | ⟨c, hc, hm⟩
    · have hrows := h.row horder
      constructor
      · intro c hc
        rw [hchildren] at hc
        rw [htag]
        rcases List.mem_cons.mp hc with rfl | hc
        · exact Int.le_refl _
        · rw [List.map_cons] at hrows
          exact Int.le_of_lt (List.rel_of_pairwise_cons hrows (List.mem_map_of_mem hc))
      · rwa [hrow, hchildren]
    · exact h.ordered horder c (hchildren ▸ hc) m hm

end Laid

/-- The trees are read from the tokens of `xs` in front of `ys`. -/
def LaidOut (isParam : Bool) (trees : List Tree) (xs ys : List Token) : Prop :=
  ∃ tokens, xs = tokens ++ ys ∧ Laid isParam trees tokens

/-- Nodes that follow each other do so among all the nodes below a node. -/
theorem row_sublist_inSourceOrder {α : Type} (n : Node α) : n.row.Sublist n.inSourceOrder := by
  cases n <;> first | exact List.Sublist.refl _ | exact List.nil_sublist _

/-- Trees that stand over tokens are read from them. -/
theorem Spans.laid {isParam : Bool} {trees : List Tree} {tokens : List Token}
    (h : Spans isParam trees tokens) : Laid isParam trees tokens := by
  induction h with
  | nothing htokens => exact .nil htokens
  | append _ _ ih₁ ih₂ => exact ih₁.append ih₂
  | @under n t tokens _ htag hitem ih =>
    have hperm := n.inSourceOrder_perm
    exact ih.under rfl htag hitem hperm.symm (fun c hc => .inl (hperm.mem_iff.mpr hc))
      (row_sublist_inSourceOrder n)
  | param _ hkind ih =>
    refine ih.under rfl rfl (by rw [if_pos hkind]; rfl) (.refl _) ?_ (List.nil_sublist _)
    intro c hc
    rcases List.mem_cons.mp hc with rfl | hc
    · exact .inr ⟨_, _, rfl⟩
    · exact .inl hc
  | headed _ htag hitem hparams hchildren hrow ih =>
    exact ih.headed htag hitem hparams hchildren rfl hrow

/-- The trees of a phrase are read from the tokens of the phrase. -/
theorem Derives.laidOut {apart : Token → Prop} {n : Nat} {phrase : Phrase Location}
    {xs ys : List Token} (h : Derives Token.location apart n phrase xs ys) :
    LaidOut phrase.readsParams phrase.trees xs ys := by
  obtain ⟨tokens, htokens, hspans⟩ := h.spans
  exact ⟨tokens, htokens, hspans.laid⟩

end Grammar

/-! ### Tokens of a text -/

/-- The tokens of a text stand in order, and inside the text. -/
theorem Scanner.Scans.inOrder {file : String} {mode : Mode} {p : Position} {xs : List Char}
    {ts : List Token} (h : Scans file mode p xs ts) :
    InOrder ts ∧ ∀ t ∈ ts, (p.offset : Int) ≤ t.location.offset ∧
      t.location.offset < p.offset + xs.length := by
  induction h with
  | done => exact ⟨.nil, by simp⟩
  | @skip mode mode' p text ys ts _ _ ih =>
    obtain ⟨horder, hbounds⟩ := ih
    refine ⟨horder, fun t ht => ?_⟩
    have hbound := hbounds t ht
    rw [Position.offset_afterAll] at hbound
    rw [List.length_append]
    omega
  | @token mode mode' p kind lexeme text ys ts htakes _ ih =>
    obtain ⟨horder, hbounds⟩ := ih
    have hpos := List.length_pos_iff.mpr htakes.spells.text_ne_nil
    rw [Position.offset_afterAll] at hbounds
    have hplace : (p.inFile file).offset = p.offset := rfl
    constructor
    · refine List.pairwise_cons.mpr ⟨fun t ht => ?_, horder⟩
      have hbound := hbounds t ht
      rw [hplace]
      omega
    · intro t ht
      rw [List.length_append]
      rcases List.mem_cons.mp ht with rfl | ht
      · rw [hplace]
        omega
      · have hbound := hbounds t ht
        omega

/-- All tokens of a text stand in order, the end of the input last. -/
theorem Scanner.inOrder_of_scan {source file : String} {tokens : List Token}
    (h : RegisterLang.scan source file = .ok tokens) : InOrder tokens := by
  obtain ⟨ts, rfl, hscans⟩ := scan_eq_ok_iff.mp h
  obtain ⟨horder, hbounds⟩ := hscans.inOrder
  have hend : (endOfInput file source.toList).location.offset = source.toList.length := by
    simp [endOfInput, Position.inFile, Position.start]
  refine List.pairwise_append.mpr ⟨horder, List.pairwise_singleton _ _, fun t ht u hu => ?_⟩
  have hbound := (hbounds t ht).2
  rw [List.mem_singleton.mp hu, hend]
  simpa [Position.start] using hbound

/-- Where tokens stand in order, each is found at its place. -/
theorem InOrder.find?_location {tokens : List Token} (h : InOrder tokens) {t : Token}
    (ht : t ∈ tokens) : tokens.find? (·.location == t.location) = some t := by
  induction tokens with
  | nil => cases ht
  | cons u tokens ih =>
    obtain ⟨hfirst, horder⟩ := List.pairwise_cons.mp h
    rcases List.mem_cons.mp ht with rfl | ht
    · exact List.find?_cons_of_pos (by simp)
    · have hne : u.location ≠ t.location := by
        intro heq
        have hless := hfirst t ht
        rw [heq] at hless
        exact Int.lt_irrefl _ hless
      rw [List.find?_cons_of_neg (by simpa using hne), ih horder ht]

/-- Where tokens stand in order and hold some items, each item belongs to the token at its place. -/
theorem InOrder.perm_of_items {tokens : List Token} {items : List (Node.Item Location)}
    (h : InOrder tokens)
    (hitems : items.Perm ((tokens.filter (·.kind.holdsItem)).map Token.item)) :
    (items.map fun item => tokens.find? (·.location == item.tag)).Perm
        ((tokens.filter (·.kind.holdsItem)).map some) ∧
      ∀ item ∈ items, ∃ token ∈ tokens.find? (·.location == item.tag),
        token.lexeme = item.text := by
  have hfind (t : Token) (ht : t ∈ tokens.filter (·.kind.holdsItem)) :
      tokens.find? (·.location == t.item.tag) = some t :=
    h.find?_location (List.mem_of_mem_filter ht)
  constructor
  · have hmap := hitems.map fun item => tokens.find? (·.location == item.tag)
    have hsome : (tokens.filter (·.kind.holdsItem)).map
          ((fun item => tokens.find? (·.location == item.tag)) ∘ Token.item) =
        (tokens.filter (·.kind.holdsItem)).map some :=
      List.map_congr_left hfind
    rwa [List.map_map, hsome] at hmap
  · intro item hitem
    obtain ⟨t, ht, rfl⟩ := List.mem_map.mp (hitems.mem_iff.mp hitem)
    exact ⟨t, hfind t ht, rfl⟩

/-- Where tokens stand in order, none stands in front of the first one. -/
theorem InOrder.head_le {tokens : List Token} (h : InOrder tokens) {first t : Token}
    (hfirst : first ∈ tokens.head?) (ht : t ∈ tokens) :
    first.location.offset ≤ t.location.offset := by
  obtain ⟨rest, rfl⟩ := List.head?_eq_some_iff.mp hfirst
  rcases List.mem_cons.mp ht with rfl | ht
  · exact Int.le_refl _
  · exact Int.le_of_lt (List.rel_of_pairwise_cons h ht)

/-! ### Documents -/

open Grammar in
/-- Every name, literal and path in a tree comes from one token. The item and its token stand at the
same place and have the same text, and each token that holds an item is that of exactly one. Every
node stands where a token stands, none begins in front of its parent, and what follows each other in
the source begins one behind the other. -/
theorem parseSource_items {source file : String} {limit : Int} {document : Tree}
    (h : parseSource .program source file limit = .ok document) :
    ∃ tokens, scan source file = .ok tokens ∧ InOrder tokens ∧
      (document.items.map fun item => tokens.find? (·.location == item.tag)).Perm
        ((tokens.filter (·.kind.holdsItem)).map some) ∧
      (∀ item ∈ document.items, ∃ token ∈ tokens.find? (·.location == item.tag),
        token.lexeme = item.text) ∧
      ∀ n ∈ document.walk, (∃ token ∈ tokens, token.location = n.tag) ∧ n.Ordered := by
  obtain ⟨tokens, hscan, hdocument⟩ := parseSource_eq_ok.mp h
  have horder := Scanner.inOrder_of_scan hscan
  obtain ⟨first, hfirst, trees, rfl, hreads⟩ :=
    (parseTokens_eq_ok_iff (Scanner.ended_of_scan hscan)).mp hdocument
  obtain ⟨ts, rfl, hscans⟩ := Scanner.scan_eq_ok_iff.mp hscan
  rw [takeWhile_append_ended hscans.kind_ne_endOfInput rfl] at hreads
  obtain ⟨used, hused, hlaid⟩ := hreads.laidOut
  rw [List.append_nil] at hused
  subst hused
  have hitems : (Node.document first.location trees).items.Perm
      (((ts ++ [Scanner.endOfInput file source.toList]).filter (·.kind.holdsItem)).map
        Token.item) := by
    have hend : (Scanner.endOfInput file source.toList).kind.holdsItem = false := rfl
    rw [Node.items, Node.itemsWithin_eq, List.filter_append,
      List.filter_cons_of_neg (by simp [hend]),
      List.filter_nil, List.append_nil]
    exact hlaid.items
  obtain ⟨hperm, htexts⟩ := horder.perm_of_items hitems
  refine ⟨_, hscan, horder, hperm, htexts, fun n hn => ?_⟩
  have horder' : InOrder ts := (List.pairwise_append.mp horder).1
  rcases Node.mem_walk.mp hn with rfl | ⟨tree, htree, hn⟩
  · refine ⟨⟨first, List.mem_of_mem_head? hfirst, rfl⟩, fun tree htree => ?_, hlaid.row horder'⟩
    obtain ⟨t, ht, hplace⟩ := hlaid.exists_token htree
    rw [← hplace]
    exact horder.head_le hfirst (List.mem_append_left _ ht)
  · obtain ⟨t, ht, hplace⟩ := List.mem_map.mp (hlaid.tags tree htree n hn)
    exact ⟨⟨t, List.mem_append_left _ ht, hplace⟩, hlaid.ordered horder' tree htree n hn⟩

/-- The tokens of `@func f(x) {}`. -/
def functionTokens : List Token :=
  [⟨.directive, "func", ⟨"f", 1, 1, 0⟩⟩, ⟨.identifier, "f", ⟨"f", 1, 7, 6⟩⟩,
    ⟨.delimiter, "(", ⟨"f", 1, 8, 7⟩⟩, ⟨.identifier, "x", ⟨"f", 1, 9, 8⟩⟩,
    ⟨.delimiter, ")", ⟨"f", 1, 10, 9⟩⟩, ⟨.delimiter, openingBrace, ⟨"f", 1, 12, 11⟩⟩,
    ⟨.delimiter, closingBrace, ⟨"f", 1, 13, 12⟩⟩, ⟨.endOfInput, "", ⟨"f", 1, 14, 13⟩⟩]

/-- The document of `@func f(x) {}`. -/
def functionDocument : Tree :=
  .document ⟨"f", 1, 1, 0⟩ [.function ⟨"f", 1, 7, 6⟩ "f"
    (.params ⟨"f", 1, 8, 7⟩ [.declaration ⟨"f", 1, 9, 8⟩ "x" false none
      (.literal ⟨"f", 1, 9, 8⟩ .number "0")]) none (.block ⟨"f", 1, 12, 11⟩ [])]

/-- The names of a function and of its parameter are the items of both tokens and tree; the zero in
the place of the parameter's value is none. -/
theorem parseSource_items_function :
    scan "@func f(x) \x7b\x7d" "f" = .ok functionTokens ∧
      parseSource .program "@func f(x) \x7b\x7d" "f" 64 = .ok functionDocument ∧
      (functionDocument.items.map fun item =>
        functionTokens.find? (·.location == item.tag)).Perm
          [some ⟨.identifier, "f", ⟨"f", 1, 7, 6⟩⟩, some ⟨.identifier, "x", ⟨"f", 1, 9, 8⟩⟩] := by
  have hscan : scan "@func f(x) \x7b\x7d" "f" = .ok functionTokens := by decide
  have hparse : parseSource .program "@func f(x) \x7b\x7d" "f" 64 = .ok functionDocument :=
    Grammar.parseSource_eq_ok.mpr ⟨_, hscan, rfl⟩
  obtain ⟨tokens, hscan', _, hperm, _⟩ := parseSource_items hparse
  obtain rfl : functionTokens = tokens := Except.ok.inj (hscan.symm.trans hscan')
  exact ⟨hscan, hparse, hperm⟩

end RegisterLang
