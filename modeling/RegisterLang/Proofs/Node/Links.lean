import Mathlib.Data.List.Perm.Subperm
import RegisterLang.Node.Links
import RegisterLang.Proofs.Node.Walk

/-!
# Links after a history

A history is a list of nodes that were built one after the other, every child before its parent and
no node as a child of two. However they were built, a node's parent is the one node that lists it as
a child, and a document is that of the nodes in its walk.
-/

namespace RegisterLang

namespace Node

variable {κ α : Type} {ns roots roots' others : List (Node (κ × α))} {n m c x y z : Node (κ × α)}

/-! ### Histories -/

/-- The nodes of the list were built in its order. A node has a key that no node had before, all its
children were built before, and none of them is a child twice. -/
inductive History : List (Node (κ × α)) → Prop where
  | nothing : History []
  | built {ns : List (Node (κ × α))} {n : Node (κ × α)} :
      History ns → (∀ m ∈ ns, m.key ≠ n.key) → (∀ c ∈ n.children, c ∈ ns) →
      Distinct n.children → (∀ c ∈ n.children, ∀ m ∈ ns, c ∉ m.children) → History (ns ++ [n])

namespace History

/-- What is known of the node that was built last. -/
theorem last (h : History (ns ++ [n])) :
    History ns ∧ (∀ m ∈ ns, m.key ≠ n.key) ∧ (∀ c ∈ n.children, c ∈ ns) ∧
      ∀ c ∈ n.children, ∀ m ∈ ns, c ∉ m.children := by
  generalize hall : ns ++ [n] = all at h
  cases h with
  | nothing => simp at hall
  | built h hfresh hbefore hdistinct honce =>
    obtain ⟨rfl, hn⟩ := List.append_inj' hall rfl
    obtain rfl := List.singleton_inj.mp hn
    exact ⟨h, hfresh, hbefore, honce⟩

/-- No two nodes of a history have the same key. -/
theorem distinct (h : History ns) : Distinct ns := by
  induction h with
  | nothing => exact List.nodup_nil
  | built _ hfresh _ _ _ ih =>
    rw [Distinct, List.map_append, List.nodup_append]
    simp only [List.map_singleton, List.mem_map, List.mem_singleton]
    refine ⟨ih, List.nodup_singleton _, ?_⟩
    rintro _ ⟨m, hm, rfl⟩ _ rfl
    exact hfresh m hm

/-- Every moment of a history is a history. -/
theorem of_prefix {ms : List (Node (κ × α))} (h : History ns) (hms : ms <+: ns) : History ms := by
  induction h with
  | nothing =>
    rw [List.prefix_nil.mp hms]
    exact .nothing
  | built h hfresh hbefore hdistinct honce ih =>
    rcases List.prefix_concat_iff.mp hms with rfl | hms
    · exact .built h hfresh hbefore hdistinct honce
    · exact ih hms

/-- No node is below two. -/
theorem eq_of_mem_children (h : History ns) (hy : y ∈ ns) (hz : z ∈ ns) (hcy : c ∈ y.children)
    (hcz : c ∈ z.children) : y = z := by
  induction h with
  | nothing => cases hy
  | built _ _ _ _ honce ih =>
    rw [List.mem_append, List.mem_singleton] at hy hz
    rcases hy with hy | rfl <;> rcases hz with hz | rfl
    · exact ih hy hz
    · exact absurd hcy (honce c hcz y hy)
    · exact absurd hcz (honce c hcy z hz)
    · rfl

/-- What is below a node was built. -/
theorem mem_of_mem_children (h : History ns) (hy : y ∈ ns) (hc : c ∈ y.children) : c ∈ ns := by
  induction h with
  | nothing => cases hy
  | built _ _ hbefore _ _ ih =>
    rw [List.mem_append, List.mem_singleton] at hy ⊢
    rcases hy with hy | rfl
    · exact .inl (ih hy)
    · exact .inl (hbefore c hc)

/-- The node that was built last is below none. -/
theorem notMem_children_of_last (h : History (ns ++ [n])) : ∀ y ∈ ns ++ [n], n ∉ y.children := by
  intro y hy hn
  obtain ⟨hns, hfresh, _, _⟩ := h.last
  rw [List.mem_append, List.mem_singleton] at hy
  rcases hy with hy | rfl
  · exact hfresh n (hns.mem_of_mem_children hy hn) rfl
  · exact notMem_children_of_mem_walk (mem_walk_self y) hn

end History

/-- The nodes of the list were built in its order, and `roots` are those of them that are below no
other one. -/
structure Forest (ns roots : List (Node (κ × α))) : Prop where
  history : History ns
  perm : ns.Perm (roots.flatMap walk)

namespace Forest

/-- No nodes were built, and there are no roots. -/
theorem nothing : Forest ([] : List (Node (κ × α))) [] :=
  ⟨.nothing, .nil⟩

/-- Roots may be listed in any order. -/
theorem congr (h : Forest ns roots) (hroots : roots.Perm roots') : Forest ns roots' :=
  ⟨h.history, h.perm.trans (hroots.flatMap_right walk)⟩

/-- What was built is what the walks of the roots visit. -/
theorem mem_iff (h : Forest ns roots) : x ∈ ns ↔ ∃ r ∈ roots, x ∈ r.walk := by
  rw [h.perm.mem_iff, List.mem_flatMap]

/-- The walks of the roots visit no key twice. -/
theorem distinct (h : Forest ns roots) : Distinct (roots.flatMap walk) :=
  h.history.distinct.perm h.perm

/-- A node may be built from roots, and then it is a root in their stead. -/
theorem build (h : Forest ns (n.children ++ others)) (hfresh : ∀ m ∈ ns, m.key ≠ n.key) :
    Forest (ns ++ [n]) (n :: others) where
  history := by
    refine .built h.history hfresh (fun c hc => ?_) ?_ fun c hc m hm => ?_
    · exact h.mem_iff.mpr ⟨c, List.mem_append_left _ hc, mem_walk_self c⟩
    · exact h.distinct.of_flatMap.sublist (List.sublist_append_left _ _)
    · exact notMem_children_of_mem_flatMap h.distinct (List.mem_append_left _ hc)
        (h.perm.mem_iff.mp hm)
  perm := by
    rw [List.flatMap_cons, walk_eq, List.cons_append, ← List.flatMap_append]
    exact (List.perm_append_singleton n ns).trans (h.perm.cons n)

/-- The walk of a node is a part of the walk of its root. -/
theorem walk_sublist_flatMap (h : x ∈ roots.flatMap walk) :
    x.walk.Sublist (roots.flatMap walk) := by
  obtain ⟨r, hr, hx⟩ := List.mem_flatMap.mp h
  exact (walk_sublist hx).trans (List.sublist_flatten_of_mem (List.mem_map_of_mem hr))

end Forest

namespace History

/-- Every history has its roots: they are the nodes that are below no other one. -/
theorem exists_forest (h : History ns) : ∃ roots, Forest ns roots := by
  induction h with
  | nothing => exact ⟨[], .nothing⟩
  | @built ns n _ hfresh hbefore hdistinct honce ih =>
    obtain ⟨roots, hforest⟩ := ih
    have hsubset : n.children ⊆ roots := by
      intro c hc
      obtain ⟨r, hr, hcr⟩ := hforest.mem_iff.mp (hbefore c hc)
      rcases exists_mem_children_of_mem_walk hcr with rfl | ⟨y, hy, hcy⟩
      · exact hr
      · exact absurd hcy (honce c hc y (hforest.mem_iff.mpr ⟨r, hr, hy⟩))
    obtain ⟨children, hchildren, hsublist⟩ := List.subperm_of_subset hdistinct.nodup hsubset
    obtain ⟨others, hroots⟩ := hsublist.exists_perm_append
    exact ⟨n :: others, (hforest.congr (hroots.trans (hchildren.append_right others))).build hfresh⟩

/-- The walk of a node of a history visits no key twice. -/
theorem distinct_walk (h : History ns) (hx : x ∈ ns) : Distinct x.walk := by
  obtain ⟨roots, hforest⟩ := h.exists_forest
  exact hforest.distinct.sublist (Forest.walk_sublist_flatMap (hforest.perm.mem_iff.mp hx))

/-- All that a walk visits was built. -/
theorem mem_of_mem_walk (h : History ns) (hx : x ∈ ns) (hm : m ∈ x.walk) : m ∈ ns := by
  obtain ⟨roots, hforest⟩ := h.exists_forest
  exact hforest.perm.mem_iff.mpr
    ((Forest.walk_sublist_flatMap (hforest.perm.mem_iff.mp hx)).subset hm)

end History

end Node

open Node

/-! ### One node more -/

namespace Links

variable {κ α : Type} [BEq κ] [Hashable κ] [LawfulBEq κ] {links : Links κ} {n : Node (κ × α)}
  {k : κ}

/-- A change that is made for some keys, and that need not be made twice. -/
theorem of_foldl_update (change : Link κ → Link κ) (hchange : ∀ l, change (change l) = change l)
    (keys : List κ) (links : Links κ) (k : κ) :
    (keys.foldl (fun links key => links.update key change) links).of k =
      if k ∈ keys then change (links.of k) else links.of k := by
  induction keys generalizing links with
  | nil => rfl
  | cons key keys ih =>
    rw [List.foldl_cons, ih]
    by_cases hkey : k = key
    · subst hkey
      simp [hchange]
    · simp [of_update_of_ne _ hkey, hkey]

/-- Nodes become children. -/
theorem of_foldl_setParent (ns : List (Node (κ × α))) (parent : κ) (links : Links κ) (k : κ) :
    (ns.foldl (fun links c => links.setParent c.tag.1 parent) links).of k =
      if k ∈ ns.map key then { links.of k with parent := some parent } else links.of k := by
  have h := of_foldl_update (fun link => { link with parent := some parent }) (fun _ => rfl)
    (ns.map key) links k
  rwa [List.foldl_map] at h

/-- Nodes become those of a document. -/
theorem of_foldl_setDocument (ns : List (Node (κ × α))) (document : κ) (links : Links κ) (k : κ) :
    (ns.foldl (fun links c => links.setDocument c.tag.1 document) links).of k =
      if k ∈ ns.map key then { links.of k with document := some document } else links.of k := by
  have h := of_foldl_update (fun link => { link with document := some document }) (fun _ => rfl)
    (ns.map key) links k
  rwa [List.foldl_map] at h

/-- What building a node does to the links of a key. That a key is another one is said by
membership, which the test for equality of keys decides. -/
theorem of_build (links : Links κ) (n : Node (κ × α)) (k : κ) :
    (links.build n).of k =
      let fresh := if k ∈ [n.key] then Link.free else links.of k
      let adopted := if k ∈ n.children.map key then { fresh with parent := some n.key } else fresh
      if n.kind = .document ∧ k ∈ n.walk.map key then { adopted with document := some n.key }
      else adopted := by
  have hfresh := of_foldl_update (fun _ => Link.free) (fun _ => rfl) [n.key] links k
  rw [List.foldl_cons, List.foldl_nil] at hfresh
  unfold build
  rw [Node.adopted_eq_children]
  by_cases hkind : n.kind = .document
  · simp only [hkind, if_true, true_and]
    rw [of_foldl_setDocument, of_foldl_setParent]
    simp only [key] at hfresh ⊢
    rw [hfresh]
  · simp only [hkind, if_false, false_and]
    rw [of_foldl_setParent]
    simp only [key] at hfresh ⊢
    rw [hfresh]

/-- A node that is built has no parent, and becomes that of its children. -/
theorem parent_build (links : Links κ) (n : Node (κ × α)) (k : κ) :
    ((links.build n).of k).parent =
      if k ∈ n.children.map key then some n.key
      else if k ∈ [n.key] then none else (links.of k).parent := by
  rw [of_build]
  split <;> split <;> split <;> rfl

/-- A document that is built becomes that of all that it visits. -/
theorem document_build (links : Links κ) (n : Node (κ × α)) (k : κ) :
    ((links.build n).of k).document =
      if n.kind = .document ∧ k ∈ n.walk.map key then some n.key
      else if k ∈ [n.key] then none else (links.of k).document := by
  rw [of_build]
  split <;> split <;> split <;> rfl

end Links

/-! ### All nodes -/

section

variable {κ α : Type} {ns : List (Node (κ × α))} {n x y : Node (κ × α)}

/-- Among nodes that were built, a node is known by its key. -/
theorem Node.History.key_mem_map_iff (h : History ns) {ms : List (Node (κ × α))} (hms : ms ⊆ ns)
    (hx : x ∈ ns) : x.key ∈ ms.map key ↔ x ∈ ms := by
  constructor
  · intro hkey
    obtain ⟨m, hm, hmx⟩ := List.mem_map.mp hkey
    rwa [← h.distinct.eq_of_key (hms hm) hx hmx]
  · exact List.mem_map_of_mem

variable [BEq κ] [Hashable κ]

/-- The links after nodes were built in the order of a list. -/
def Links.after (ns : List (Node (κ × α))) : Links κ :=
  ns.foldl build empty

/-- The links behind one node more are changed for it last. -/
theorem Links.after_append_singleton (ns : List (Node (κ × α))) (n : Node (κ × α)) :
    after (ns ++ [n]) = (after ns).build n := by
  rw [after, List.foldl_append]
  rfl

variable [LawfulBEq κ]

namespace Node.History

open Links

/-- The parent of a node is the node that lists it as a child. -/
theorem parent_eq_some_iff (h : History ns) (hx : x ∈ ns) {k : κ} :
    ((after ns).of x.key).parent = some k ↔ ∃ y ∈ ns, y.key = k ∧ x ∈ y.children := by
  induction h with
  | nothing => cases hx
  | @built ns n hns hfresh hbefore hdistinct honce ih =>
    have hall : History (ns ++ [n]) := .built hns hfresh hbefore hdistinct honce
    have hn : n ∈ ns ++ [n] := by simp
    have hkey := hall.key_mem_map_iff (fun c hc => List.mem_append_left _ (hbefore c hc)) hx
    rw [after_append_singleton, parent_build]
    by_cases hc : x ∈ n.children
    · rw [if_pos (hkey.mpr hc), Option.some_inj]
      constructor
      · rintro rfl
        exact ⟨n, hn, rfl, hc⟩
      · rintro ⟨y, hy, rfl, hxy⟩
        rw [hall.eq_of_mem_children hy hn hxy hc]
    · rw [if_neg fun hmem => hc (hkey.mp hmem)]
      rcases List.mem_append.mp hx with hold | hnew
      · rw [if_neg (by simpa using hfresh x hold), ih hold]
        constructor
        · rintro ⟨y, hy, hyk, hxy⟩
          exact ⟨y, List.mem_append_left _ hy, hyk, hxy⟩
        · rintro ⟨y, hy, hyk, hxy⟩
          rcases List.mem_append.mp hy with hy | hy
          · exact ⟨y, hy, hyk, hxy⟩
          · rw [List.mem_singleton.mp hy] at hxy
            exact absurd hxy hc
      · obtain rfl := List.mem_singleton.mp hnew
        rw [if_pos (List.mem_singleton_self _)]
        refine ⟨nofun, ?_⟩
        rintro ⟨y, hy, _, hxy⟩
        exact absurd hxy (hall.notMem_children_of_last y hy)

/-- A document is that of the nodes in its walk. -/
theorem document_of_mem_walk (hkind : n.kind = .document) (hx : x ∈ n.walk) :
    ((after (ns ++ [n])).of x.key).document = some n.key := by
  rw [after_append_singleton, document_build, if_pos ⟨hkind, List.mem_map_of_mem hx⟩]

/-- Building a node that visits another one not, or that is no document, does not change the
document of the other one. -/
theorem document_of_mem (h : History (ns ++ [n])) (hx : x ∈ ns)
    (hwalk : n.kind = .document → x ∉ n.walk) :
    ((after (ns ++ [n])).of x.key).document = ((after ns).of x.key).document := by
  have hn : n ∈ ns ++ [n] := by simp
  have hkey := h.key_mem_map_iff (fun m hm => h.mem_of_mem_walk hn hm) (List.mem_append_left _ hx)
  rw [after_append_singleton, document_build, if_neg fun hmem => hwalk hmem.1 (hkey.mp hmem.2),
    if_neg (by simpa using h.last.2.1 x hx)]

/-- Documents are documents that were built. -/
theorem exists_of_document (h : History ns) {k d : κ}
    (hd : ((after ns).of k).document = some d) : ∃ y ∈ ns, y.kind = .document ∧ y.key = d := by
  induction h with
  | nothing =>
    rw [after, List.foldl_nil, of_empty] at hd
    cases hd
  | @built ns n _ _ _ _ _ ih =>
    rw [after_append_singleton, document_build] at hd
    split at hd
    · next hmem => exact ⟨n, by simp, hmem.1, Option.some_inj.mp hd⟩
    · split at hd
      · cases hd
      · obtain ⟨y, hy, hkind, hkey⟩ := ih hd
        exact ⟨y, List.mem_append_left _ hy, hkind, hkey⟩

/-- A document that was just built is that of the nodes in its walk and of no others. -/
theorem document_eq_some_iff (h : History (ns ++ [n])) (hkind : n.kind = .document)
    (hx : x ∈ ns ++ [n]) :
    ((after (ns ++ [n])).of x.key).document = some n.key ↔ x ∈ n.walk := by
  constructor
  · intro hdocument
    by_contra hwalk
    have hold : x ∈ ns := by
      rcases List.mem_append.mp hx with hold | hnew
      · exact hold
      · rw [List.mem_singleton.mp hnew] at hwalk
        exact absurd (mem_walk_self n) hwalk
    rw [h.document_of_mem hold fun _ => hwalk] at hdocument
    obtain ⟨y, hy, _, hkey⟩ := h.last.1.exists_of_document hdocument
    exact h.last.2.1 y hy hkey
  · exact document_of_mem_walk hkind

end Node.History

/-- Nodes that were built one after the other, and their links, say the same. -/
structure Consistent (ns : List (Node (κ × α))) (links : Links κ) : Prop where
  parent_iff : ∀ x ∈ ns, ∀ y ∈ ns, (links.of x.key).parent = some y.key ↔ x ∈ y.children
  /-- A node is a child once. -/
  count_eq_one : ∀ x ∈ ns, ∀ y ∈ ns, x ∈ y.children → (y.children.map key).count x.key = 1
  exists_parent : ∀ x ∈ ns, ∀ k, (links.of x.key).parent = some k → ∃ y ∈ ns, y.key = k
  head_walk : ∀ x ∈ ns, x.walk.head? = some x
  /-- A walk visits a node and its descendants. -/
  mem_walk_iff : ∀ x ∈ ns, ∀ m, m ∈ x.walk ↔ Relation.ReflTransGen (fun y c => c ∈ y.children) x m
  walk_subset : ∀ x ∈ ns, x.walk ⊆ ns
  walk_distinct : ∀ x ∈ ns, Distinct x.walk
  /-- No node stands in front of its parent. -/
  walk_pairwise : ∀ x ∈ ns, x.walk.Pairwise fun y z => y ∉ z.children

open Links

/-- Links are consistent at every moment, whatever was built. -/
theorem Node.History.consistent (h : History ns) : Consistent ns (after ns) where
  parent_iff x hx y hy := by
    rw [h.parent_eq_some_iff hx]
    constructor
    · rintro ⟨z, hz, hzy, hxz⟩
      rwa [← h.distinct.eq_of_key hz hy hzy]
    · exact fun hxy => ⟨y, hy, rfl, hxy⟩
  count_eq_one x _ y hy hxy :=
    List.count_eq_one_of_mem (h.distinct_walk hy).below.of_flatMap (List.mem_map_of_mem hxy)
  exists_parent x hx k hk := by
    obtain ⟨y, hy, hyk, _⟩ := (h.parent_eq_some_iff hx).mp hk
    exact ⟨y, hy, hyk⟩
  head_walk x _ := by
    rw [walk_eq]
    rfl
  mem_walk_iff _ _ _ := mem_walk_iff_reflTransGen
  walk_subset _ hx _ hm := h.mem_of_mem_walk hx hm
  walk_distinct _ hx := h.distinct_walk hx
  walk_pairwise _ hx := Node.walk_pairwise (h.distinct_walk hx)

/-- The links of a whole tree: every node but the root has one parent, which lists it, the root has
none, and all have the same document. -/
structure Linked (root : Node (κ × α)) (links : Links κ) (document : Option κ) : Prop where
  exists_parent : ∀ x ∈ root.walk, x ≠ root →
    ∃ y ∈ root.walk, (links.of x.key).parent = some y.key ∧ x ∈ y.children ∧
      ∀ z ∈ root.walk, x ∈ z.children → z = y
  parent_root : (links.of root.key).parent = none
  document_eq : ∀ x ∈ root.walk, (links.of x.key).document = document

/-- Where all that was built is one tree, and only its root may be a document, the tree is
linked. -/
theorem Node.Forest.linked {root : Node (κ × α)} (h : Forest ns [root])
    (hkind : root.NoneBelow .document) :
    Linked root (after ns) (if root.kind = .document then some root.key else none) := by
  have hmem {x : Node (κ × α)} : x ∈ ns ↔ x ∈ root.walk := by
    rw [h.mem_iff]
    simp
  refine ⟨fun x hx hne => ?_, ?_, fun x hx => ?_⟩
  · rcases exists_mem_children_of_mem_walk hx with heq | ⟨y, hy, hxy⟩
    · exact absurd heq hne
    · refine ⟨y, hy, (h.history.parent_eq_some_iff (hmem.mpr hx)).mpr ⟨y, hmem.mpr hy, rfl, hxy⟩,
        hxy, fun z hz hxz => ?_⟩
      exact h.history.eq_of_mem_children (hmem.mpr hz) (hmem.mpr hy) hxz hxy
  · refine Option.eq_none_iff_forall_ne_some.mpr fun k hk => ?_
    obtain ⟨y, hy, _, hroot⟩ :=
      (h.history.parent_eq_some_iff (hmem.mpr (mem_walk_self root))).mp hk
    exact notMem_children_of_mem_walk (hmem.mp hy) hroot
  · split
    · next hdocument =>
      -- The root is built last, since all other nodes are below it.
      rcases List.eq_nil_or_concat' ns with rfl | ⟨front, last, rfl⟩
      · exact absurd (hmem.mpr hx) List.not_mem_nil
      · rcases exists_mem_children_of_mem_walk (hmem.mp (show last ∈ front ++ [last] by simp)) with
          rfl | ⟨y, hy, hlast⟩
        · exact History.document_of_mem_walk hdocument hx
        · exact absurd hlast (h.history.notMem_children_of_last y (hmem.mpr hy))
    · next hdocument =>
      refine Option.eq_none_iff_forall_ne_some.mpr fun d hd => ?_
      obtain ⟨y, hy, hydocument, _⟩ := h.history.exists_of_document hd
      by_cases hroot : y = root
      · exact hdocument (hroot ▸ hydocument)
      · exact hkind.of_mem_walk (hmem.mp hy) hroot hydocument

end

end RegisterLang
