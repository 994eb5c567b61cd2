import Mathlib.Data.List.Lattice
import Mathlib.Data.List.MinMax
import Mathlib.Data.List.Nodup
import Mathlib.Data.List.Pairwise
import Mathlib.Logic.Relation
import Mathlib.Order.Nat
import RegisterLang.Node

/-!
# Walks

The walk of a node lists the nodes at and below it. Where the nodes of a tree are told apart by
keys, every node of the walk is below one other node only, and stands behind it.
-/

namespace RegisterLang.Node

variable {α β : Type} {n m c : Node α}

/-- A walk visits a node, and all that the walks from the nodes directly below it visit. -/
theorem mem_walk {n m : Node α} : m ∈ n.walk ↔ m = n ∨ ∃ c ∈ n.children, m ∈ c.walk := by
  rw [walk_eq, List.mem_cons, List.mem_flatMap]

/-- A walk visits the node it starts from. -/
theorem mem_walk_self (n : Node α) : n ∈ n.walk :=
  mem_walk.mpr (.inl rfl)

/-- A walk visits the nodes directly below. -/
theorem mem_walk_of_mem_children (h : c ∈ n.children) : c ∈ n.walk :=
  mem_walk.mpr (.inr ⟨c, h, mem_walk_self c⟩)

/-- The walk of a node that is visited is a part of the walk that visits it. -/
theorem walk_sublist (h : m ∈ n.walk) : m.walk.Sublist n.walk := by
  induction n using Node.induction with
  | step n ih =>
    rcases mem_walk.mp h with rfl | ⟨c, hc, hm⟩
    · exact List.Sublist.refl _
    · rw [walk_eq n]
      refine List.Sublist.cons _ ((ih c hc hm).trans ?_)
      exact List.sublist_flatten_of_mem (List.mem_map_of_mem hc)

/-- What the walk of a visited node visits is visited. -/
theorem mem_walk_trans (hm : m ∈ n.walk) (hc : c ∈ m.walk) : c ∈ n.walk :=
  (walk_sublist hm).subset hc

/-- The walks of nodes visit these in their order. -/
theorem sublist_flatMap_walk (ns : List (Node α)) : ns.Sublist (ns.flatMap walk) := by
  induction ns with
  | nil => exact List.Sublist.refl _
  | cons n ns ih =>
    rw [List.flatMap_cons, walk_eq, List.cons_append]
    exact List.Sublist.cons_cons _ (ih.trans (List.sublist_append_right _ _))

/-- A node that is visited is the first one, or below another one that is visited. -/
theorem exists_mem_children_of_mem_walk (h : m ∈ n.walk) :
    m = n ∨ ∃ y ∈ n.walk, m ∈ y.children := by
  induction n using Node.induction with
  | step n ih =>
    rcases mem_walk.mp h with rfl | ⟨c, hc, hm⟩
    · exact .inl rfl
    · rcases ih c hc hm with rfl | ⟨y, hy, hmy⟩
      · exact .inr ⟨n, mem_walk_self n, hc⟩
      · exact .inr ⟨y, mem_walk_trans (mem_walk_of_mem_children hc) hy, hmy⟩

/-- No visited node is larger than the one that the walk starts from. -/
theorem sizeOf_le_of_mem_walk (h : m ∈ n.walk) : sizeOf m ≤ sizeOf n := by
  induction n using Node.induction with
  | step n ih =>
    rcases mem_walk.mp h with rfl | ⟨c, hc, hm⟩
    · exact Nat.le_refl _
    · have hle := ih c hc hm
      have hlt := sizeOf_lt_of_mem_children hc
      omega

/-! ### Walks in frames -/

/-- How many nodes the longest path down from a node has. -/
def height (n : Node α) : Nat :=
  (n.children.attach.map fun ⟨c, _⟩ => height c).foldr max 0 + 1
termination_by sizeOf n
decreasing_by exact sizeOf_lt_of_mem_children (by assumption)

/-- A tree is one higher than the highest of those directly below. -/
theorem height_eq (n : Node α) : n.height = (n.children.map height).foldr max 0 + 1 := by
  rw [height, List.map_subtype (g := height) (fun _ _ => rfl), List.unattach_attach]

/-- A bound of all numbers of a list is one of the greatest of them. -/
theorem foldr_max_le_iff {xs : List Nat} {most : Nat} :
    xs.foldr max 0 ≤ most ↔ ∀ x ∈ xs, x ≤ most :=
  ⟨fun h x hx => Nat.le_trans (List.le_max_of_le' 0 hx (Nat.le_refl x)) h,
    List.max_le_of_forall_le xs most⟩

/-- A node is higher than the nodes directly below it. -/
theorem height_le_succ_iff {most : Nat} :
    n.height ≤ most + 1 ↔ ∀ c ∈ n.children, c.height ≤ most := by
  rw [height_eq, Nat.add_le_add_iff_right, foldr_max_le_iff, List.forall_mem_map]

/-- A list is gone through unless one of its elements stops that. -/
theorem mapM_eq_ite {γ δ : Type} {f : γ → Option δ} {g : γ → δ} {p : γ → Prop} [DecidablePred p]
    {xs : List γ} (h : ∀ x ∈ xs, f x = if p x then some (g x) else none) :
    xs.mapM f = if ∀ x ∈ xs, p x then some (xs.map g) else none := by
  induction xs with
  | nil => simp
  | cons x xs ih =>
    rw [List.forall_mem_cons] at h
    rw [List.mapM_cons, h.1, ih h.2]
    by_cases hx : p x
    · by_cases hxs : ∀ y ∈ xs, p y
      · rw [if_pos hx, if_pos hxs, if_pos (List.forall_mem_cons.mpr ⟨hx, hxs⟩)]
        rfl
      · rw [if_pos hx, if_neg hxs, if_neg fun hall => hxs (List.forall_mem_cons.mp hall).2]
        rfl
    · rw [if_neg hx, if_neg fun hall => hx (List.forall_mem_cons.mp hall).1]
      rfl

/-- A walk needs a frame for every node on the longest path. -/
theorem walkWithin_eq (frames : Nat) (n : Node α) :
    n.walkWithin frames = if n.height ≤ frames then some n.walk else none := by
  induction frames generalizing n with
  | zero => rw [walkWithin, height_eq, if_neg (Nat.not_succ_le_zero _)]
  | succ frames ih =>
    rw [walkWithin, mapM_eq_ite fun c _ => ih c]
    by_cases hfits : ∀ c ∈ n.children, c.height ≤ frames
    · rw [if_pos hfits, if_pos (height_le_succ_iff.mpr hfits), walk_eq]
      rfl
    · rw [if_neg hfits, if_neg fun h => hfits (height_le_succ_iff.mp h)]
      rfl

/-- A walk is broken off where the tree is too high. -/
theorem walkWithin_eq_none_iff {frames : Nat} :
    n.walkWithin frames = none ↔ frames < n.height := by
  rw [walkWithin_eq]
  split <;> simp <;> omega

/-! ### Walks of trees with keys -/

/-- No node is below itself. -/
theorem notMem_children_of_mem_walk (h : m ∈ n.walk) : n ∉ m.children := by
  intro hn
  have hle := sizeOf_le_of_mem_walk h
  have hlt := sizeOf_lt_of_mem_children hn
  omega

/-- A walk visits a node and its descendants. -/
theorem mem_walk_iff_reflTransGen :
    m ∈ n.walk ↔ Relation.ReflTransGen (fun x c => c ∈ x.children) n m := by
  constructor
  · intro h
    induction n using Node.induction with
    | step n ih =>
      rcases mem_walk.mp h with rfl | ⟨c, hc, hm⟩
      · exact .refl
      · exact .head hc (ih c hc hm)
  · intro h
    induction h with
    | refl => exact mem_walk_self n
    | tail _ hc ih => exact mem_walk_trans ih (mem_walk_of_mem_children hc)

/-- Other tags leave the order of a walk as it is. -/
theorem walk_map (f : α → β) (n : Node α) : (n.map f).walk = n.walk.map (map f) := by
  induction n using Node.induction with
  | step n ih =>
    rw [walk_eq, walk_eq n, children_map, List.map_cons, List.map_flatMap, List.flatMap_map]
    congr 1
    exact List.flatMap_congr ih

/-- No node below this one has the kind. -/
def NoneBelow (n : Node α) (kind : NodeKind) : Prop :=
  ∀ m ∈ n.children.flatMap walk, m.kind ≠ kind

/-- Other nodes below a node without one of a kind below it are not of that kind. -/
theorem NoneBelow.of_mem_walk {kind : NodeKind} (h : n.NoneBelow kind) (hm : m ∈ n.walk)
    (hne : m ≠ n) : m.kind ≠ kind := by
  rw [walk_eq, List.mem_cons] at hm
  exact h m (hm.resolve_left hne)

/-- Other tags leave the kinds as they are. -/
theorem noneBelow_map_iff {f : α → β} {kind : NodeKind} :
    (n.map f).NoneBelow kind ↔ n.NoneBelow kind := by
  have hwalks : (n.map f).children.flatMap walk = (n.children.flatMap walk).map (map f) := by
    rw [children_map, List.flatMap_map, List.map_flatMap]
    exact List.flatMap_congr fun c _ => walk_map f c
  unfold NoneBelow
  rw [hwalks, List.forall_mem_map]
  simp only [kind_map]

/-! ### Keys -/

section Keys

variable {κ : Type} {n y z c : Node (κ × α)}

/-- The key by which a node is told apart from others. -/
def key (n : Node (κ × α)) : κ :=
  n.tag.1

/-- The nodes of a list are told apart by their keys. -/
def Distinct (ns : List (Node (κ × α))) : Prop :=
  (ns.map key).Nodup

/-- Nodes with distinct keys are distinct. -/
theorem Distinct.nodup {ns : List (Node (κ × α))} (h : Distinct ns) : ns.Nodup :=
  List.Nodup.of_map _ h

/-- Among nodes with distinct keys, a key tells a node. -/
theorem Distinct.eq_of_key {ns : List (Node (κ × α))} (h : Distinct ns) (hy : y ∈ ns) (hz : z ∈ ns)
    (hkey : y.key = z.key) : y = z :=
  List.inj_on_of_nodup_map h hy hz hkey

/-- Parts of lists with distinct keys have distinct keys. -/
theorem Distinct.sublist {ns ms : List (Node (κ × α))} (h : Distinct ns) (hms : ms.Sublist ns) :
    Distinct ms :=
  List.Nodup.sublist (hms.map key) h

/-- The order of nodes does not matter to their keys being distinct. -/
theorem Distinct.perm {ns ms : List (Node (κ × α))} (h : Distinct ns) (hms : ns.Perm ms) :
    Distinct ms :=
  (hms.map key).nodup_iff.mp h

/-- Nodes of which the walks share a node are the same, if all that is visited is distinct. -/
theorem eq_of_mem_walks {ns : List (Node (κ × α))} (h : Distinct (ns.flatMap walk)) (hy : y ∈ ns)
    (hz : z ∈ ns) (hcy : c ∈ y.walk) (hcz : c ∈ z.walk) : y = z := by
  by_contra hne
  have hdisjoint := (List.nodup_flatMap.mp h.nodup).2
  have hsymm : Std.Symm (Function.onFun List.Disjoint (@walk (κ × α))) :=
    ⟨fun _ _ => List.Disjoint.symm⟩
  exact hdisjoint.forall hy hz hne hcy hcz

/-- Nothing that is visited from a node of a list is above another node of the list. -/
theorem notMem_children_of_mem_flatMap {ns : List (Node (κ × α))} (h : Distinct (ns.flatMap walk))
    (hc : c ∈ ns) (hy : y ∈ ns.flatMap walk) : c ∉ y.children := by
  intro hcy
  obtain ⟨z, hz, hyz⟩ := List.mem_flatMap.mp hy
  have hcz : c ∈ z.walk := mem_walk_trans hyz (mem_walk_of_mem_children hcy)
  obtain rfl := eq_of_mem_walks h hc hz (mem_walk_self c) hcz
  exact notMem_children_of_mem_walk hyz hcy

/-- The nodes of a list, without those below them, are distinct if all that is visited is. -/
theorem Distinct.of_flatMap {ns : List (Node (κ × α))} (h : Distinct (ns.flatMap walk)) :
    Distinct ns :=
  h.sublist (sublist_flatMap_walk ns)

/-- What is visited below a node is distinct if all that is visited is. -/
theorem Distinct.below (h : Distinct n.walk) : Distinct (n.children.flatMap walk) := by
  rw [walk_eq] at h
  exact h.sublist (List.sublist_cons_self _ _)

/-- No node stands in front of the one that it is below. -/
theorem walk_pairwise (h : Distinct n.walk) : n.walk.Pairwise fun x y => x ∉ y.children := by
  induction n using Node.induction with
  | step n ih =>
    rw [walk_eq]
    refine List.pairwise_cons.mpr ⟨fun y hy => notMem_children_of_mem_walk ?_, ?_⟩
    · rw [walk_eq]
      exact List.mem_cons_of_mem _ hy
    · refine List.pairwise_flatMap.mpr ⟨fun c hc => ih c hc ?_, ?_⟩
      · exact h.sublist (walk_sublist (mem_walk_of_mem_children hc))
      · refine (List.nodup_flatMap.mp h.below.nodup).2.imp fun hdisjoint x hx y hy hxy => ?_
        exact hdisjoint hx (mem_walk_trans hy (mem_walk_of_mem_children hxy))

end Keys

end RegisterLang.Node
