import SlotTree.Store.Path

/-!
How stores change over time: nodes are never taken away, keep their kind, payload and slots, and
each slot keeps its children and their positions, with new ones behind them. Adding a node and
growing one both lead to such a store, and so does any number of them in a row; whatever path led
somewhere before leads there afterwards.
-/

namespace SlotTree.Store

structure Extends (s t : Store) : Prop where
  count_le : s.count ≤ t.count
  kind_eq : ∀ x < s.count, t.kind x = s.kind x
  payload_eq : ∀ x < s.count, t.payload x = s.payload x
  slotCount_eq : ∀ x < s.count, t.slotCount x = s.slotCount x
  slot_grows : ∀ x < s.count, ∀ i, (s.slot x i).toList <+: (t.slot x i).toList

namespace Extends

theorem refl (s : Store) : s.Extends s :=
  ⟨Nat.le_refl _, fun _ _ => rfl, fun _ _ => rfl, fun _ _ => rfl, fun _ _ _ => List.prefix_refl _⟩

theorem trans {s t u : Store} (hst : s.Extends t) (htu : t.Extends u) : s.Extends u := by
  have le (x : NodeId) (hx : x < s.count) : x < t.count := Nat.lt_of_lt_of_le hx hst.count_le
  exact ⟨Nat.le_trans hst.count_le htu.count_le,
    fun x hx => (htu.kind_eq x (le x hx)).trans (hst.kind_eq x hx),
    fun x hx => (htu.payload_eq x (le x hx)).trans (hst.payload_eq x hx),
    fun x hx => (htu.slotCount_eq x (le x hx)).trans (hst.slotCount_eq x hx),
    fun x hx i => (hst.slot_grows x hx i).trans (htu.slot_grows x (le x hx) i)⟩

theorem of_node_eq {s t : Store} (count_le : s.count ≤ t.count)
    (node_eq : ∀ x < s.count, t.node x = s.node x) : s.Extends t where
  count_le := count_le
  kind_eq x hx := by rw [kind, node_eq x hx, kind]
  payload_eq x hx := by rw [payload, node_eq x hx, payload]
  slotCount_eq x hx := by rw [slotCount, node_eq x hx, slotCount]
  slot_grows x hx i := by
    have eq : t.slot x i = s.slot x i := by rw [slot, node_eq x hx, slot]
    exact eq ▸ List.prefix_refl _

theorem add (s : Store) (n : Node) : s.Extends (s.add n).2 :=
  of_node_eq (by simp) fun _ hx => node_add_of_lt hx n

theorem grow (s : Store) (x : NodeId) (i : Nat) (child : NodeId) :
    s.Extends (s.grow x i child) where
  count_le := by simp
  kind_eq y _ := by simp
  payload_eq y _ := by simp
  slotCount_eq y _ := by simp
  slot_grows y _ j := by
    rw [slot_grow]
    split
    · rename_i here
      rw [here.1, here.2.1, Array.toList_push]
      exact List.prefix_append _ _
    · exact List.prefix_refl _

theorem childAt {s t : Store} (h : s.Extends t) {x y : NodeId} {slot index : Nat}
    (at_child : s.childAt x slot index = some y) : t.childAt x slot index = some y := by
  have bound : x < s.count := by
    refine Nat.lt_of_not_le fun le => ?_
    rw [Store.childAt, Store.slot, Node.slot_of_le (by
      rw [← Store.slotCount, slotCount_of_le le]; exact Nat.zero_le _)] at at_child
    simp at at_child
  obtain ⟨later, eq⟩ := h.slot_grows x bound slot
  rw [Store.childAt, ← Array.getElem?_toList] at at_child ⊢
  rw [← eq, List.getElem?_append_left (List.getElem?_eq_some_iff.1 at_child).1]
  exact at_child

theorem nodeAt {s t : Store} (h : s.Extends t) {x y : NodeId} {p : Path}
    (at_end : s.nodeAt x p = some y) : t.nodeAt x p = some y := by
  induction p generalizing x with
  | nil => exact at_end
  | cons step p ih =>
    obtain ⟨child, at_child, at_end⟩ := Option.bind_eq_some_iff.1 at_end
    exact Option.bind_eq_some_iff.2 ⟨child, h.childAt at_child, ih at_end⟩

theorem reaches {s t : Store} (h : s.Extends t) {x y : NodeId} (reached : s.Reaches x y) :
    t.Reaches x y := by
  obtain ⟨p, at_end⟩ := reaches_iff_nodeAt.1 reached
  exact reaches_iff_nodeAt.2 ⟨p, h.nodeAt at_end⟩

end Extends
end SlotTree.Store
