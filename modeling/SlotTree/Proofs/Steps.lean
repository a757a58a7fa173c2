import Mathlib.Data.List.Nodup
import SlotTree.Proofs.Rank

/-!
Steps down from a node, and paths made of them. The steps of a node come in ascending order, by
slot and then by position, so none comes up twice; a path goes on from a node by one of its steps.
-/

namespace SlotTree

def Edge.step (e : Edge) : Nat × Nat := (e.slot, e.index)

def StepBefore : Nat × Nat → Nat × Nat → Prop := Prod.Lex (· < ·) (· < ·)

theorem StepBefore.ne {a b : Nat × Nat} (h : StepBefore a b) : a ≠ b := by
  rintro rfl
  cases h with
  | left _ _ lower => exact Nat.lt_irrefl _ lower
  | right _ lower => exact Nat.lt_irrefl _ lower

namespace Node

theorem slotEdges_steps (slot : Nat) (children : List NodeId) :
    (slotEdges slot children).map Edge.step =
      (List.range' 0 children.length).map (Prod.mk slot) := by
  rw [← List.zipIdx_map_snd 0 children, slotEdges, List.map_map, List.map_map]
  rfl

theorem steps_ascending (n : Node) : (n.edges.map Edge.step).Pairwise StepBefore := by
  rw [edges, List.map_flatMap, List.pairwise_flatMap]
  refine ⟨?_, ?_⟩
  · intro a _
    rw [slotEdges_steps, List.pairwise_map]
    exact (List.pairwise_lt_range' _).imp fun lower => .right _ lower
  · have slots : (n.slots.toList.zipIdx.map Prod.snd).Pairwise (· < ·) := by
      rw [List.zipIdx_map_snd]
      exact List.pairwise_lt_range' _
    refine (List.pairwise_map.1 slots).imp ?_
    intro a b lower step ha step' hb
    rw [slotEdges_steps] at ha hb
    obtain ⟨i, -, rfl⟩ := List.mem_map.1 ha
    obtain ⟨j, -, rfl⟩ := List.mem_map.1 hb
    exact .left _ _ lower

theorem steps_nodup (n : Node) : (n.edges.map Edge.step).Nodup :=
  n.steps_ascending.imp StepBefore.ne

theorem filter_slotEdges (i slot : Nat) (children : List NodeId) :
    (slotEdges slot children).filter (fun e => e.slot == i) =
      if slot = i then slotEdges slot children else [] := by
  split
  · rename_i eq
    refine List.filter_eq_self.2 fun e he => ?_
    rw [(mem_slotEdges.1 he).1, eq, beq_self_eq_true]
  · rename_i ne
    refine List.filter_eq_nil_iff.2 fun e he => ?_
    rw [(mem_slotEdges.1 he).1, beq_iff_eq]
    exact ne

theorem filter_edges (n : Node) (i : Nat) :
    n.edges.filter (fun e => e.slot == i) = slotEdges i (n.slot i).toList := by
  have go (slots : List (Array NodeId)) (k : Nat) :
      ((slots.zipIdx k).flatMap fun p => slotEdges p.2 p.1.toList).filter
          (fun e => e.slot == i) =
        if k ≤ i then slotEdges i ((slots[i - k]?).getD #[]).toList else [] := by
    induction slots generalizing k with
    | nil => simp [slotEdges]
    | cons c slots ih =>
      rw [List.zipIdx_cons, List.flatMap_cons, List.filter_append, ih, filter_slotEdges]
      obtain lt | rfl | gt := Nat.lt_trichotomy k i
      · have shift : i - k = (i - (k + 1)) + 1 := by omega
        rw [if_neg (Nat.ne_of_lt lt), if_pos (Nat.succ_le_of_lt lt), if_pos (Nat.le_of_lt lt),
          shift, List.getElem?_cons_succ, List.nil_append]
      · rw [if_pos rfl, if_neg (Nat.not_succ_le_self k), if_pos (Nat.le_refl k), Nat.sub_self,
          List.getElem?_cons_zero, List.append_nil, Option.getD_some]
      · have beyond : ¬ k + 1 ≤ i := by omega
        rw [if_neg (Nat.ne_of_gt gt), if_neg beyond, if_neg (Nat.not_le_of_lt gt), List.nil_append]
  have whole := go n.slots.toList 0
  rw [if_pos (Nat.zero_le i), Nat.sub_zero, Array.getElem?_toList] at whole
  rw [edges, whole, slot, Array.getD_eq_getD_getElem?]

end Node

/-- Paths in lexicographic order; a path comes before what goes on from its end. -/
def Path.Before : Path → Path → Prop := List.Lex StepBefore

namespace Store

variable {s : Store} {x y : NodeId} {p : Path} {e : Edge}

theorem childAt_of_mem_edges (h : e ∈ s.edges x) : s.childAt x e.slot e.index = some e.child :=
  Node.mem_edges.1 h

theorem child_of_mem_edges (h : e ∈ s.edges x) : e.child ∈ s.children x := by
  rw [children, ← Node.edges_child]
  exact List.mem_map_of_mem h

theorem nodeAt_cons_of_mem_edges (h : e ∈ s.edges x) (p : Path) :
    s.nodeAt x (e.step :: p) = s.nodeAt e.child p := by
  rw [Edge.step, nodeAt, childAt_of_mem_edges h]
  rfl

theorem nodeAt_cons_eq_some_iff {step : Nat × Nat} :
    s.nodeAt x (step :: p) = some y ↔
      ∃ e ∈ s.edges x, e.step = step ∧ s.nodeAt e.child p = some y := by
  obtain ⟨slot, index⟩ := step
  refine ⟨fun h => ?_, fun h => ?_⟩
  · obtain ⟨child, at_child, at_end⟩ := Option.bind_eq_some_iff.1 h
    exact ⟨⟨slot, index, child⟩, Node.mem_edges.2 at_child, rfl, at_end⟩
  · obtain ⟨e, he, eq, at_end⟩ := h
    rw [← eq, nodeAt_cons_of_mem_edges he]
    exact at_end

theorem isSome_nodeAt_cons_iff {step : Nat × Nat} :
    (s.nodeAt x (step :: p)).isSome ↔
      ∃ e ∈ s.edges x, e.step = step ∧ (s.nodeAt e.child p).isSome := by
  simp only [Option.isSome_iff_exists, nodeAt_cons_eq_some_iff]
  refine ⟨fun h => ?_, fun h => ?_⟩
  · obtain ⟨y, e, he, eq, at_end⟩ := h
    exact ⟨e, he, eq, y, at_end⟩
  · obtain ⟨e, he, eq, y, at_end⟩ := h
    exact ⟨y, e, he, eq, at_end⟩

end Store
end SlotTree
