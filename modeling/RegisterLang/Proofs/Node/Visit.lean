import RegisterLang.Node.Visit
import RegisterLang.Proofs.Node.Walk
import RegisterLang.Proofs.Steps

/-!
# Visits follow the walk

A visit calls itself for what is below a node, and it may end in the middle. Still it does no more
than to handle the nodes of the walk one after the other, up to the first one without a handler.
-/

namespace RegisterLang.Node

variable {α : Type} {isHandled : NodeKind → Bool}

/-! ### From calls to a loop -/

/-- One node of a visit: its kind is recorded, or it ends the visit. -/
def handle (isHandled : NodeKind → Bool) (n : Node α) : Visit Unit :=
  if isHandled n.kind then modify (n.kind :: ·) else throw n.kind

/-- To visit a node is to handle it and then to visit the nodes directly below it. -/
theorem visit_eq (n : Node α) :
    n.visit isHandled = (do n.handle isHandled; forM n.children (visit isHandled)) := by
  rw [visit, handle, List.forM_eq_forM]
  conv_rhs => rw [← List.attach_map_subtype_val n.children, List.forM_map]
  split <;> rfl

/-- A visit handles the nodes of the walk one after the other. -/
theorem visit_eq_forM_walk (n : Node α) :
    n.visit isHandled = forM n.walk (handle isHandled) := by
  have all {ns : List (Node α)}
      (h : ∀ c ∈ ns, c.visit isHandled = forM c.walk (handle isHandled)) :
      forM ns (visit isHandled) = forM (ns.flatMap walk) (handle isHandled) := by
    induction ns with
    | nil => rfl
    | cons n ns ih =>
      obtain ⟨hn, hns⟩ := List.forall_mem_cons.mp h
      rw [List.forM_cons, List.flatMap_cons, List.forM_append, hn, ih hns]
  induction n using Node.induction with
  | step n ih => rw [visit_eq, walk_eq, List.forM_cons, all ih]

/-! ### What a loop records -/

/-- Nodes with a handler are recorded, and the loop goes on behind them. -/
theorem forM_handle_append {front : List (Node α)} (h : ∀ x ∈ front, isHandled x.kind)
    (back : List (Node α)) (kinds : List NodeKind) :
    (forM (front ++ back) (handle isHandled)).run kinds =
      (forM back (handle isHandled)).run ((front.map kind).reverse ++ kinds) := by
  induction front generalizing kinds with
  | nil => rfl
  | cons n front ih =>
    obtain ⟨hn, hfront⟩ := List.forall_mem_cons.mp h
    have hhandle : (n.handle isHandled).run kinds = .ok () (n.kind :: kinds) := by
      rw [handle, if_pos hn]
      rfl
    rw [List.cons_append, List.forM_cons, List.map_cons, List.reverse_cons, List.append_assoc]
    exact (bind_of_eq_ok hhandle).trans (ih hfront _)

/-- If all nodes are handled, they are visited in the order of the walk, and nothing is missing. -/
theorem visited_of_forall (n : Node α) (h : ∀ x ∈ n.walk, isHandled x.kind) :
    n.visited isHandled = (n.walk.map kind, none) := by
  have hrun := forM_handle_append h [] []
  rw [List.append_nil, List.append_nil, ← visit_eq_forM_walk] at hrun
  rw [visited, hrun]
  show ((n.walk.map kind).reverse.reverse, none) = _
  rw [List.reverse_reverse]

/-- If a node is not handled, those in front of it are visited, and its kind is what is missing. -/
theorem visited_of_split {n m : Node α} {front back : List (Node α)}
    (hwalk : n.walk = front ++ m :: back) (hfront : ∀ x ∈ front, isHandled x.kind)
    (hm : ¬ isHandled m.kind) : n.visited isHandled = (front.map kind, some m.kind) := by
  have hrun := forM_handle_append hfront (m :: back) []
  have hhandle : (m.handle isHandled).run ((front.map kind).reverse ++ []) =
      .error m.kind ((front.map kind).reverse ++ []) := by
    rw [handle, if_neg hm]
    rfl
  rw [← hwalk, ← visit_eq_forM_walk, List.forM_cons] at hrun
  rw [visited, hrun.trans (bind_of_eq_error hhandle), List.append_nil]
  show ((front.map kind).reverse.reverse, some m.kind) = _
  rw [List.reverse_reverse]

/-- A visit ends early exactly if some node of the walk has no handler. Then it names the kind of
the first such node, and the kinds recorded are those of the nodes in front of it, in the order of
the walk. Otherwise the kinds of the whole walk are recorded. -/
theorem visited_cases (visitor : String) (isHandled : NodeKind → Bool) (n : Node α) :
    ((n.visited isHandled).2.isSome ↔ ∃ m ∈ n.walk, ¬ isHandled m.kind) ∧
      ((∃ front m back, n.walk = front ++ m :: back ∧ (∀ x ∈ front, isHandled x.kind) ∧
          ¬ isHandled m.kind ∧ n.visited isHandled = (front.map kind, some m.kind) ∧
          (n.visited isHandled).2.map (NodeKind.unhandledText visitor) =
            some (visitor ++ " has no handler for " ++ m.kind.name)) ∨
        (∀ m ∈ n.walk, isHandled m.kind) ∧ n.visited isHandled = (n.walk.map kind, none)) := by
  cases hfind : n.walk.find? fun m => !isHandled m.kind with
  | none =>
    have hall : ∀ m ∈ n.walk, isHandled m.kind := by simpa using hfind
    have hvisited := visited_of_forall n hall
    refine ⟨?_, .inr ⟨hall, hvisited⟩⟩
    rw [hvisited]
    exact iff_of_false (by simp) fun ⟨m, hm, hmissing⟩ => hmissing (hall m hm)
  | some m =>
    obtain ⟨hmissing, front, back, hwalk, hfront⟩ := List.find?_eq_some_iff_append.mp hfind
    have hmissing' : ¬ isHandled m.kind := by simpa using hmissing
    have hvisited := visited_of_split hwalk (by simpa using hfront) hmissing'
    refine ⟨?_, .inl ⟨front, m, back, hwalk, by simpa using hfront, hmissing', hvisited, ?_⟩⟩
    · rw [hvisited]
      exact iff_of_true rfl ⟨m, List.mem_of_find?_eq_some hfind, hmissing'⟩
    · rw [hvisited]
      rfl

end RegisterLang.Node
