import SlotTree.Proofs.CopyOrder
import SlotTree.Proofs.Endings
import SlotTree.Walk.Occurrences

/-!
Counting a tree. Each visit adds the children of a node, whatever order the nodes come up in, and
the root is counted beforehand; so the answer is the number of paths.
-/

namespace SlotTree.Store

variable {s : Store} (acyclic : s.Acyclic)

theorem ends_count_list {xs : List NodeId}
    (each : ∀ x ∈ xs, ∀ n, Worklist.Ends s.countVisit s.rank n [x]
      (.left (n + (s.walkBelow acyclic x).length))) (n : Nat) :
    Worklist.Ends s.countVisit s.rank n xs
      (.left (n + (xs.map fun x => (s.walkBelow acyclic x).length).sum)) := by
  induction xs generalizing n with
  | nil => exact .nil n
  | cons x xs ih =>
    have first := each x List.mem_cons_self n
    have others := ih (fun y hy => each y (List.mem_cons_of_mem x hy))
      (n + (s.walkBelow acyclic x).length)
    rw [List.map_cons, List.sum_cons, ← Nat.add_assoc]
    exact first.append others

theorem length_walkBelow (x : NodeId) :
    (s.walkBelow acyclic x).length = (s.children x).length +
      ((s.children x).reverse.map fun y => (s.walkBelow acyclic y).length).sum := by
  rw [walkBelow_eq, children, ← Node.edges_child, ← List.map_reverse]
  simp only [List.length_append, List.length_flatMap, List.length_map, List.map_map, edges,
    Function.comp_def]

theorem ends_count (x : NodeId) (n : Nat) :
    Worklist.Ends s.countVisit s.rank n [x] (.left (n + (s.walkBelow acyclic x).length)) := by
  induction x using acyclic.induction generalizing n with
  | step x ih =>
    have below := ends_count_list acyclic (fun y hy => ih y (List.mem_reverse.1 hy))
      (n + (s.children x).length)
    rw [length_walkBelow, ← Nat.add_assoc]
    refine .next rfl (fun y hy => acyclic.rank_lt (List.mem_reverse.1 hy)) ?_
    rwa [List.append_nil]

theorem occurrences_eq (x : NodeId) :
    s.occurrences (some x) = .ok (s.copyOrder acyclic x).length := by
  have room : s.rank x ≤ s.depthBound := Nat.le_of_lt (s.rank_lt_depthBound x)
  have walked := (ends_count acyclic x 1).walk .ok room
  show s.countFrom x = _
  rw [countFrom, walked, copyOrder, List.length_cons, Nat.add_comm 1]
  rfl

end SlotTree.Store
