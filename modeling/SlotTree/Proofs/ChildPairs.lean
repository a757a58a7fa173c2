import Mathlib.Data.List.Forall2
import SlotTree.Compare.Equality
import SlotTree.Proofs.Likeness

/-!
Children of two nodes side by side, slot by slot and position by position, as the comparisons of
trees pair them off.
-/

namespace SlotTree.Store

variable {s : Store} {x y a b : NodeId} {slot : Nat}

theorem lt_size_slot_iff {index : Nat} :
    index < (s.slot x slot).size ↔ (s.childAt x slot index).isSome := by
  rw [childAt, isSome_getElem?]

theorem size_eq_of_childAt_rel {t : Store} {R : NodeId → NodeId → Prop}
    (h : ∀ index, Option.Rel R (s.childAt x slot index) (t.childAt y slot index)) :
    (s.slot x slot).size = (t.slot y slot).size := by
  have within (index : Nat) : index < (s.slot x slot).size ↔ index < (t.slot y slot).size := by
    rw [lt_size_slot_iff, lt_size_slot_iff, isSome_eq_of_rel (h index)]
  have left := within (s.slot x slot).size
  have right := within (t.slot y slot).size
  omega

theorem forall₂_slot_of_rel {t : Store} {R : NodeId → NodeId → Prop}
    (h : ∀ index, Option.Rel R (s.childAt x slot index) (t.childAt y slot index)) :
    List.Forall₂ R (s.slot x slot).toList (t.slot y slot).toList := by
  refine List.forall₂_iff_get.2 ⟨by simpa using size_eq_of_childAt_rel h, fun i hi hi' => ?_⟩
  have here := h i
  rw [childAt, childAt, ← Array.getElem?_toList, ← Array.getElem?_toList,
    List.getElem?_eq_getElem hi, List.getElem?_eq_getElem hi'] at here
  cases here with
  | some related => exact related

theorem mem_children_of_slot (mem : y ∈ (s.slot x slot).toList) : y ∈ s.children x := by
  obtain ⟨index, at_child⟩ := List.mem_iff_getElem?.1 mem
  exact mem_children_iff.2 ⟨slot, index, by rwa [childAt, ← Array.getElem?_toList]⟩

theorem lt_slotCount_of_childAt {index : Nat} (h : s.childAt x slot index = some a) :
    slot < s.slotCount x := by
  by_contra beyond
  rw [childAt, Store.slot, Node.slot_of_le (Nat.le_of_not_lt beyond)] at h
  simp at h

def childPairs (s : Store) (x y : NodeId) (slot : Nat) : List (NodeId × NodeId) :=
  (s.slot x slot).toList.zip (s.slot y slot).toList

@[simp] theorem mem_childPairs : (a, b) ∈ s.childPairs x y slot ↔
    ∃ index, s.childAt x slot index = some a ∧ s.childAt y slot index = some b := by
  simp only [childPairs, List.mem_iff_getElem?, List.getElem?_zip_eq_some, Array.getElem?_toList,
    childAt]

theorem left_of_mem_childPairs (h : (a, b) ∈ s.childPairs x y slot) : a ∈ s.children x := by
  obtain ⟨index, at_child, -⟩ := mem_childPairs.1 h
  exact mem_children_iff.2 ⟨slot, index, at_child⟩

theorem right_of_mem_childPairs (h : (a, b) ∈ s.childPairs x y slot) : b ∈ s.children y := by
  obtain ⟨index, -, at_child⟩ := mem_childPairs.1 h
  exact mem_children_iff.2 ⟨slot, index, at_child⟩

theorem childPairs_fst (h : (s.slot x slot).size ≤ (s.slot y slot).size) :
    (s.childPairs x y slot).map Prod.fst = (s.slot x slot).toList :=
  List.map_fst_zip (by simpa using h)

theorem slots_eq_map (s : Store) (x : NodeId) :
    (s.node x).slots.toList = (List.range (s.slotCount x)).map (s.slot x) := by
  apply List.ext_getElem
  · simp [slotCount, Node.slotCount]
  · intro i h _
    have within : i < (s.node x).slots.size := by simpa using h
    simp [Store.slot, Node.slot, Array.getD_eq_getD_getElem?, within]

theorem children_eq_flatMap (s : Store) (x : NodeId) :
    s.children x = (List.range (s.slotCount x)).flatMap fun i => (s.slot x i).toList := by
  rw [children, Node.children, slots_eq_map, List.flatMap_map]

theorem edges_eq_flatMap (s : Store) (x : NodeId) {n : Nat} (h : s.slotCount x ≤ n) :
    s.edges x = (List.range n).flatMap fun i => Node.slotEdges i (s.slot x i).toList := by
  obtain ⟨extra, rfl⟩ := Nat.exists_eq_add_of_le h
  have within : s.edges x =
      (List.range (s.slotCount x)).flatMap fun i => Node.slotEdges i (s.slot x i).toList := by
    have numbered : (s.node x).slots.toList.zipIdx =
        (List.range (s.slotCount x)).map fun i => (s.slot x i, i) := by
      rw [slots_eq_map]
      exact List.ext_getElem (by simp) fun i h h' => by simp
    rw [edges, Node.edges, numbered, List.flatMap_map]
  have beyond : ((List.range extra).map fun i => s.slotCount x + i).flatMap
      (fun i => Node.slotEdges i (s.slot x i).toList) = [] := by
    refine List.flatMap_eq_nil_iff.2 fun i mem => ?_
    obtain ⟨k, -, rfl⟩ := List.mem_map.1 mem
    have none : s.slot x (s.slotCount x + k) = #[] := Node.slot_of_le (Nat.le_add_right _ k)
    rw [none]
    rfl
  rw [within, List.range_add, List.flatMap_append, beyond, List.append_nil]

theorem pairOff_slots (h : s.slotCount x = s.slotCount y) :
    pairOff (s.node x).slots.toList (s.node y).slots.toList =
      .ok ((List.range (s.slotCount x)).map fun i => (s.slot x i, s.slot y i)) := by
  rw [slots_eq_map, slots_eq_map, ← h, pairOff_eq_zip (by simp), List.zip_map']

end SlotTree.Store
