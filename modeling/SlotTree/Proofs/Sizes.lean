import SlotTree.Proofs.Acyclicity
import SlotTree.Proofs.GrownOrders
import SlotTree.Proofs.PathParts
import SlotTree.Proofs.Places

/-!
How large trees are. The size of a tree is the number of its paths; it is made up of the sizes below
it, and an append adds the size of the new child once for every path to the node that grows.
-/

namespace SlotTree.Store

variable {s : Store} {x c : NodeId}

theorem isChildless_iff : s.isChildless x = true ↔ s.children x = [] := by
  rw [isChildless, Node.isChildless, children, Node.children, ← Array.all_toList, List.all_eq_true,
    List.flatMap_eq_nil_iff]
  simp

section Orders

variable (acyclic : s.Acyclic)

theorem length_treeOrder_eq_sum (x : NodeId) :
    (s.treeOrder acyclic x).length =
      1 + ((s.children x).map fun y => (s.treeOrder acyclic y).length).sum := by
  rw [length_treeOrder, List.length_flatMap, Nat.add_comm]

theorem length_treeOrder_eq_one_iff (x : NodeId) :
    (s.treeOrder acyclic x).length = 1 ↔ s.isChildless x = true := by
  rw [isChildless_iff, length_treeOrder_eq_sum]
  constructor
  · intro one
    have none : ∀ n ∈ (s.children x).map fun y => (s.treeOrder acyclic y).length, n = 0 :=
      List.sum_eq_zero_iff_forall_eq_nat.1 (by omega)
    refine List.eq_nil_iff_forall_not_mem.2 fun y child => ?_
    have empty := none _ (List.mem_map_of_mem child)
    rw [length_treeOrder] at empty
    exact Nat.succ_ne_zero _ empty
  · intro none
    rw [none]
    rfl

theorem length_treeOrder_grow {i : Nat} (inside : i < s.slotCount x) (ahead : ¬ s.Reaches c x)
    (acyclic' : (s.grow x i c).Acyclic) (r : NodeId) :
    ((s.grow x i c).treeOrder acyclic' r).length =
      (s.treeOrder acyclic r).length +
        (s.treeOrder acyclic r).count x * (s.treeOrder acyclic c).length := by
  have more := (s.grownBy_grow inside).oneMore_children (c := c) inside
  have apart : x ∉ s.treeOrder acyclic c := fun mem => ahead ((mem_treeOrder acyclic).1 mem)
  exact more.length_childrenFirst acyclic acyclic' s.descends_children
    (descends_children (s.grow x i c)) apart r

end Orders

/-- The size of every tree is the number of its paths. It is one more than the sizes of the children
together, and one exactly where there are none. A child that does not lead back to the growable node
that it is appended to adds its own size to that of a tree as many times as there are paths to that
node. -/
theorem sizes_count_paths {s : Store} (acyclic : s.Acyclic) :
    ∃ size : NodeId → Nat, (∀ x, s.occurrences (some x) = .ok (size x)) ∧
      (∀ x, size x = {p : Path | (s.nodeAt x p).isSome}.ncard) ∧
      (∀ x, size x = 1 + ((s.children x).map size).sum) ∧
      (∀ x, size x = 1 ↔ s.isChildless x = true) ∧
      ∀ (r x c : NodeId) (i : Nat), s.kind x = .growable → i < s.slotCount x → ¬ s.Reaches c x →
        ∃ t, s.append x (some c) i = .ok t ∧ t.occurrences (some r) =
          .ok (size r + {p : Path | s.nodeAt r p = some x}.ncard * size c) := by
  refine ⟨fun x => (s.treeOrder acyclic x).length, occurrences_eq_treeOrder acyclic,
    length_treeOrder_eq_ncard acyclic, length_treeOrder_eq_sum acyclic,
    length_treeOrder_eq_one_iff acyclic, fun r x c i growable inside ahead => ?_⟩
  have acyclic' : (s.grow x i c).Acyclic := (acyclic_grow_iff inside acyclic).2 ahead
  refine ⟨s.grow x i c, append_eq_ok_iff.2 ⟨growable, c, i, rfl, rfl, inside, rfl⟩, ?_⟩
  rw [occurrences_eq_treeOrder acyclic', length_treeOrder_grow acyclic inside ahead acyclic',
    count_treeOrder_eq_ncard]

theorem sizes_count_paths_ladder :
    ladder.Acyclic ∧ ladder.occurrences (some 3) = .ok 7 ∧ ladder.occurrences (some 0) = .ok 1 ∧
    {p : Path | (ladder.nodeAt 3 p).isSome}.ncard = 7 ∧ ladder.isChildless 0 = true ∧
    ladder.kind 1 = .growable ∧ 0 < ladder.slotCount 1 ∧ ¬ ladder.Reaches 0 1 ∧
    ∃ t, ladder.append 1 (some 0) 0 = .ok t ∧ t.occurrences (some 3) = .ok 9 ∧
      {p : Path | ladder.nodeAt 3 p = some 1}.ncard = 2 := by
  have lower : ∀ x < ladder.count, ∀ y ∈ ladder.children x, y < x := by decide
  have acyclic : ladder.Acyclic := (closed_acyclic_of_children_lt lower).2
  have ahead : ¬ ladder.Reaches 0 1 := fun reached =>
    absurd (le_of_reaches lower reached) (by decide)
  obtain ⟨size, counted, paths, -, leaf, grown⟩ := sizes_count_paths acyclic
  have root : ladder.occurrences (some 3) = .ok 7 := by cbv
  have bottom : ladder.occurrences (some 0) = .ok 1 := by cbv
  have root_size : size 3 = 7 := Except.ok.inj ((counted 3).symm.trans root)
  have bottom_size : size 0 = 1 := Except.ok.inj ((counted 0).symm.trans bottom)
  obtain ⟨t, appended, later⟩ := grown 3 1 0 0 rfl (by decide) ahead
  have after : t.occurrences (some 3) = .ok 9 := by
    have made : ladder.append 1 (some 0) 0 = .ok (ladder.grow 1 0 0) := rfl
    cases made.symm.trans appended
    cbv
  refine ⟨acyclic, root, bottom, root_size ▸ (paths 3).symm, (leaf 0).1 bottom_size, rfl,
    by decide, ahead, t, appended, after, ?_⟩
  rw [after, root_size, bottom_size, Except.ok.injEq] at later
  omega

end SlotTree.Store
