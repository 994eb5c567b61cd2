import RegisterLang.Proofs.Node.Links

/-!
# Numbered trees

The nodes of a tree are numbered in the order of its walk, and they may be built in the order that
has every node behind those below it. That is a history, and its links are those of the tree.
-/

namespace RegisterLang.Node

variable {α β γ : Type}

/-! ### Numbers -/

/-- A fresh number is the one that was kept, and the next one is kept. -/
theorem fresh_run (i : Nat) : fresh.run i = (i, i + 1) := rfl

/-- A value takes no number. -/
theorem pure_run (b : β) (i : Nat) : (pure b : StateM Nat β).run i = (b, i) := rfl

/-- Numbers are taken one after the other. -/
theorem bind_run (step : StateM Nat β) (further : β → StateM Nat γ) (i : Nat) :
    (step >>= further).run i = (further (step.run i).1).run (step.run i).2 := rfl

/-- A node gets the next number, and the nodes directly below it are numbered one after the other
from there on. -/
theorem number_run (n : Node α) (i : Nat) :
    (n.number.run i).1.tag = (i, n.tag) ∧
      (numberAll n.children).run (i + 1) = ((n.number.run i).1.children, (n.number.run i).2) := by
  cases n
  case declaration typeName _ => cases typeName <;> exact ⟨rfl, rfl⟩
  case function returnType _ => cases returnType <;> exact ⟨rfl, rfl⟩
  case returning argument => cases argument <;> exact ⟨rfl, rfl⟩
  case whileLoop capture _ => cases capture <;> exact ⟨rfl, rfl⟩
  all_goals exact ⟨rfl, rfl⟩

/-- Without its numbers, a numbered tree is the tree. -/
theorem map_number (n : Node α) (i : Nat) : (n.number.run i).1.map Prod.snd = n := by
  have all {ns : List (Node α)} (h : ∀ c ∈ ns, ∀ i, (c.number.run i).1.map Prod.snd = c) (i : Nat) :
      ((numberAll ns).run i).1.map (map Prod.snd) = ns := by
    induction ns generalizing i with
    | nil => rfl
    | cons n ns ih =>
      rw [List.forall_mem_cons] at h
      exact List.cons_eq_cons.mpr ⟨h.1 i, ih h.2 _⟩
  have option {o : Option (Node α)} (h : ∀ c ∈ o.toList, ∀ i, (c.number.run i).1.map Prod.snd = c)
      (i : Nat) : ((numberOption o).run i).1.map (map Prod.snd) = o := by
    cases o with
    | none => rfl
    | some n => exact congrArg some (h n (by simp) i)
  induction n using Node.induction generalizing i with
  | step n ih =>
    cases n <;> simp only [number, bind_run, pure_run, fresh_run, map, mapAll_eq, mapOption_eq] <;>
      simp_all [children]

/-- A tree with numbers is, without them, the tree. -/
theorem map_numbered (n : Node α) : n.numbered.map Prod.snd = n :=
  map_number n 0

/-- The walk of a numbered tree counts up. -/
theorem keys_number (n : Node α) (i : Nat) :
    (n.number.run i).1.walk.map key = List.range' i n.walk.length ∧
      (n.number.run i).2 = i + n.walk.length := by
  have all {ns : List (Node α)} (h : ∀ c ∈ ns, ∀ i,
        (c.number.run i).1.walk.map key = List.range' i c.walk.length ∧
          (c.number.run i).2 = i + c.walk.length) (i : Nat) :
      (((numberAll ns).run i).1.flatMap walk).map key =
          List.range' i (ns.flatMap walk).length ∧
        ((numberAll ns).run i).2 = i + (ns.flatMap walk).length := by
    induction ns generalizing i with
    | nil => exact ⟨rfl, rfl⟩
    | cons n ns ih =>
      rw [List.forall_mem_cons] at h
      obtain ⟨hkeys, hnext⟩ := h.1 i
      obtain ⟨hkeys', hnext'⟩ := ih h.2 (i + n.walk.length)
      rw [numberAll, bind_run, bind_run, pure_run, hnext, List.flatMap_cons, List.flatMap_cons,
        List.map_append, hkeys, hkeys', List.length_append, hnext']
      exact ⟨List.range'_append_1, Nat.add_assoc ..⟩
  induction n using Node.induction generalizing i with
  | step n ih =>
    obtain ⟨htag, hchildren⟩ := number_run n i
    obtain ⟨hkeys, hnext⟩ := all ih (i + 1)
    rw [hchildren] at hkeys hnext
    rw [walk_eq, walk_eq n, List.map_cons, List.length_cons, hkeys, key, htag, hnext]
    exact ⟨List.range'_succ.symm, by omega⟩

/-- No number is given twice. -/
theorem distinct_numbered (n : Node α) : Distinct n.numbered.walk := by
  rw [Distinct, numbered, (keys_number n 0).1]
  exact List.nodup_range'

/-! ### The order of making -/

/-- What is made is what is visited. -/
theorem makingOrder_perm (n : Node α) : n.makingOrder.Perm n.walk := by
  induction n using Node.induction with
  | step n ih =>
    rw [makingOrder_eq, walk_eq]
    refine (List.perm_append_singleton _ _).trans (List.Perm.cons n ?_)
    exact List.Perm.flatMap_left _ ih

variable {κ : Type} {ns roots : List (Node (κ × α))} {n : Node (κ × α)}

/-- Behind any history, a tree with keys of its own may be built. -/
theorem Forest.makingOrder (h : Forest ns roots) (hdistinct : Distinct (ns ++ n.walk)) :
    Forest (ns ++ n.makingOrder) (n :: roots) := by
  have all {cs : List (Node (κ × α))} {ns roots : List (Node (κ × α))}
      (hcs : ∀ c ∈ cs, ∀ {ns roots : List (Node (κ × α))}, Forest ns roots →
        Distinct (ns ++ c.walk) → Forest (ns ++ c.makingOrder) (c :: roots))
      (h : Forest ns roots) (hdistinct : Distinct (ns ++ cs.flatMap walk)) :
      Forest (ns ++ cs.flatMap Node.makingOrder) (cs ++ roots) := by
    induction cs generalizing ns roots with
    | nil => rwa [List.flatMap_nil, List.append_nil]
    | cons c cs ih =>
      rw [List.forall_mem_cons] at hcs
      rw [List.flatMap_cons, ← List.append_assoc] at hdistinct ⊢
      have hfirst := hcs.1 h (hdistinct.sublist (List.sublist_append_left _ _))
      have hothers := ih hcs.2 hfirst
        (hdistinct.perm ((c.makingOrder_perm.symm.append_left ns).append_right _))
      exact hothers.congr List.perm_middle
  induction n using Node.induction generalizing ns roots with
  | step n ih =>
    have hmade := hdistinct.perm (n.makingOrder_perm.symm.append_left ns)
    rw [makingOrder_eq, ← List.append_assoc] at hmade ⊢
    refine (all (fun c hc => ih c hc) h ?_).build fun m hm => ?_
    · rw [walk_eq] at hdistinct
      exact hdistinct.sublist ((List.sublist_cons_self _ _).append_left ns)
    · rw [Distinct, List.map_append, List.nodup_append] at hmade
      exact hmade.2.2 _ (List.mem_map_of_mem hm) _ (by simp)

/-- A tree may be built on its own. -/
theorem forest_makingOrder (h : Distinct n.walk) : Forest n.makingOrder [n] := by
  have hforest := Forest.nothing.makingOrder (n := n) h
  rwa [List.nil_append] at hforest

/-- A numbered tree is linked, if only its root may be a document. -/
theorem linked_numbered {n : Node α} (h : n.NoneBelow .document) :
    Linked n.numbered (Links.ofTree n.numbered)
      (if n.kind = .document then some n.numbered.key else none) := by
  have hkind : n.numbered.kind = n.kind := by
    rw [← kind_map Prod.snd, map_numbered]
  have hbelow : n.numbered.NoneBelow .document := by
    rwa [← noneBelow_map_iff (f := Prod.snd), map_numbered]
  rw [← hkind]
  exact (forest_makingOrder n.distinct_numbered).linked hbelow

end RegisterLang.Node
