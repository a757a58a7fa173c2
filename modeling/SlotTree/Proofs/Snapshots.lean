import SlotTree.Copy.Snapshot
import SlotTree.Proofs.ChildrenFirst
import SlotTree.Proofs.Likeness

/-!
What a snapshot is made of. The nodes of a tree are rebuilt in `treeOrder`, one new node for every
place, so that the node built at step `k` stands at `s.count + k`. A step finds every child in the
table, and takes the node that was built last for it.
-/

namespace SlotTree

def IsLastPlace (list : List NodeId) (y : NodeId) (j : Nat) : Prop :=
  list[j]? = some y ∧ ∀ i, j < i → list[i]? ≠ some y

namespace IsLastPlace

variable {list front back : List NodeId} {x y : NodeId} {i j : Nat}

theorem lt (h : IsLastPlace list y j) : j < list.length := (List.getElem?_eq_some_iff.1 h.1).1

theorem unique (hi : IsLastPlace list y i) (hj : IsLastPlace list y j) : i = j := by
  have notBefore : ¬ i < j := fun lt => hi.2 j lt hj.1
  have notAfter : ¬ j < i := fun lt => hj.2 i lt hi.1
  omega

theorem concat_self (list : List NodeId) (y : NodeId) :
    IsLastPlace (list ++ [y]) y list.length := by
  refine ⟨List.getElem?_concat_length, ?_⟩
  intro i hi
  rw [List.getElem?_eq_none (by rw [List.length_append, List.length_singleton]; omega)]
  simp

theorem concat_iff (ne : x ≠ y) : IsLastPlace (list ++ [x]) y j ↔ IsLastPlace list y j := by
  have same (i : Nat) : (list ++ [x])[i]? = some y ↔ list[i]? = some y := by
    by_cases inside : i < list.length
    · rw [List.getElem?_append_left inside]
    · have absent : list[i]? = none := List.getElem?_eq_none (Nat.le_of_not_lt inside)
      rw [List.getElem?_append_right (Nat.le_of_not_lt inside), absent]
      cases i - list.length <;> simp [ne]
  simp only [IsLastPlace, same, ne_eq]

theorem exists_of_mem (h : y ∈ list) : ∃ j, IsLastPlace list y j := by
  induction list using List.reverseRecOn with
  | nil => exact absurd h List.not_mem_nil
  | append_singleton list x ih =>
    by_cases eq : x = y
    · subst eq
      exact ⟨_, concat_self list x⟩
    · have mem : y ∈ list := by simpa [Ne.symm eq] using h
      obtain ⟨j, hj⟩ := ih mem
      exact ⟨j, (concat_iff eq).2 hj⟩

end IsLastPlace

namespace Store

variable {s t : Store} {order : List NodeId} {x y : NodeId}

/-- `n` is `x` frozen, and stands over what was built last, up to now, for each child of `x`. -/
def Mirrors (s : Store) (done : List NodeId) (x : NodeId) (n : Node) : Prop :=
  ∃ image : NodeId → NodeId,
    n = ⟨.frozen, s.payload x, (s.node x).slots.map fun slot => slot.map image⟩ ∧
    ∀ y ∈ s.children x, ∃ j, IsLastPlace done y j ∧ image y = s.count + j

/-- `t` is `s` and, behind it, one new node for each entry of `order`. -/
structure Built (s : Store) (order : List NodeId) (t : Store) : Prop where
  count : t.count = s.count + order.length
  kept : s.KeptIn t
  mirrors : ∀ k x, order[k]? = some x → s.Mirrors (order.take k) x (t.node (s.count + k))

structure Rebuilt (s : Store) (done : List NodeId) (snap : Rebuilding) : Prop where
  built : s.Built done snap.store
  entry : ∀ y j, IsLastPlace done y j → snap.table[y]? = some (s.count + j)

theorem Rebuilt.start (s : Store) : s.Rebuilt [] ⟨s, ∅⟩ where
  built := ⟨rfl, .refl s, fun k x h => by simp at h⟩
  entry y j h := absurd h.lt (Nat.not_lt_zero j)

theorem mapM_eq_ok_map {α β : Type} {f : α → Except Fault β} {g : α → β} (xs : Array α)
    (each : ∀ a ∈ xs.toList, f a = .ok (g a)) : xs.mapM f = .ok (xs.map g) := by
  have list (l : List α) (h : ∀ a ∈ l, f a = .ok (g a)) : l.mapM f = .ok (l.map g) := by
    induction l with
    | nil => rfl
    | cons a l ih =>
      have rest := ih fun b hb => h b (List.mem_cons_of_mem a hb)
      rw [List.mapM_cons, h a List.mem_cons_self, rest]
      rfl
  rw [Array.mapM_eq_mapM_toList, list _ each]
  show Except.ok (xs.toList.map g).toArray = .ok (xs.map g)
  rw [← Array.toList_map, Array.toArray_toList]

theorem Built.add {done : List NodeId} (built : s.Built done t) {n : Node}
    (mirrors : s.Mirrors done x n) : s.Built (done ++ [x]) (t.add n).2 where
  count := by simp [built.count, Nat.add_assoc]
  kept := built.kept.trans (.add t n)
  mirrors k y hk := by
    have total := built.count
    by_cases before : k < done.length
    · have old : s.count + k ≠ t.count := by omega
      rw [List.getElem?_append_left before] at hk
      rw [List.take_append_of_le_length (Nat.le_of_lt before), node_add, if_neg old]
      exact built.mirrors k y hk
    · have at_end := (List.getElem?_eq_some_iff.1 hk).1
      rw [List.length_append, List.length_singleton] at at_end
      have last : k = done.length := by omega
      subst last
      rw [List.getElem?_concat_length, Option.some.injEq] at hk
      rw [List.take_left, ← hk, node_add, if_pos total.symm]
      exact mirrors

theorem Rebuilt.step {done : List NodeId} {snap : Rebuilding} (rebuilt : s.Rebuilt done snap)
    (hx : x < s.count) (ready : ∀ y ∈ s.children x, y ∈ done) :
    ∃ after, Rebuilding.rebuild snap x = .ok after ∧ s.Rebuilt (done ++ [x]) after := by
  obtain ⟨store, table⟩ := snap
  have source : store.node x = s.node x := rebuilt.built.kept.node_eq x hx
  -- the frozen node that was built last for a child
  let image (y : NodeId) : NodeId := (table[y]?).getD 0
  have known (y : NodeId) (hy : y ∈ s.children x) :
      ∃ j, IsLastPlace done y j ∧ table[y]? = some (s.count + j) := by
    obtain ⟨j, last⟩ := IsLastPlace.exists_of_mem (ready y hy)
    exact ⟨j, last, rebuilt.entry y j last⟩
  let slots := (s.node x).slots.map fun slot => slot.map image
  have looked : ((s.node x).slots.mapM fun slot => slot.mapM (Rebuilding.lookup table)) =
      .ok slots := by
    apply mapM_eq_ok_map
    intro slot hslot
    apply mapM_eq_ok_map
    intro y hy
    have child : y ∈ s.children x := List.mem_flatMap.2 ⟨slot, hslot, hy⟩
    obtain ⟨j, -, entry⟩ := known y child
    simp [Rebuilding.lookup, image, entry]
  have mirrors : s.Mirrors done x ⟨.frozen, s.payload x, slots⟩ := by
    refine ⟨image, rfl, ?_⟩
    intro y hy
    obtain ⟨j, last, entry⟩ := known y hy
    exact ⟨j, last, by simp [image, entry]⟩
  refine ⟨⟨(store.newFrozen (s.payload x) slots).2, table.insert x store.count⟩, ?_, ?_, ?_⟩
  · simp only [Rebuilding.rebuild, source, looked]
    rfl
  · exact rebuilt.built.add mirrors
  · intro y j last
    rw [Std.HashMap.getElem?_insert]
    -- only `x` has a new last place, and only its entry is overwritten
    by_cases eq : x = y
    · subst eq
      have here : j = done.length := last.unique (.concat_self done x)
      simp [here, rebuilt.built.count]
    · have before := rebuilt.entry y j ((IsLastPlace.concat_iff eq).1 last)
      simpa [eq] using before

theorem Rebuilt.run {done rest : List NodeId} {snap : Rebuilding} (rebuilt : s.Rebuilt done snap)
    (ready : ∀ k x, (done ++ rest)[k]? = some x →
      x < s.count ∧ ∀ y ∈ s.children x, y ∈ (done ++ rest).take k) :
    ∃ after, rest.foldlM Rebuilding.rebuild snap = .ok after ∧ s.Rebuilt (done ++ rest) after := by
  induction rest generalizing done snap with
  | nil => exact ⟨snap, rfl, by rwa [List.append_nil]⟩
  | cons x rest ih =>
    have turn : (done ++ x :: rest)[done.length]? = some x := by simp
    obtain ⟨hx, children⟩ := ready done.length x turn
    rw [List.take_left] at children
    obtain ⟨middle, first, rebuilt⟩ := rebuilt.step hx children
    rw [List.append_cons] at ready ⊢
    obtain ⟨after, others, rebuilt⟩ := ih rebuilt ready
    refine ⟨after, ?_, rebuilt⟩
    rw [List.foldlM_cons, first]
    exact others

end Store

@[simp] theorem Node.slot_map (kind : Kind) (payload : Payload) (n : Node) (image : NodeId → NodeId)
    (i : Nat) :
    (Node.mk kind payload (n.slots.map fun slot => slot.map image)).slot i =
      (n.slot i).map image := by
  simp only [Node.slot, Array.getD_eq_getD_getElem?, Array.getElem?_map]
  cases n.slots[i]? <;> simp

namespace Store

variable {s t : Store} {order : List NodeId} {x y d : NodeId} {k : Nat}

theorem Built.childAt (built : s.Built order t) (hk : order[k]? = some x) (slot index : Nat) :
    ∃ image : NodeId → NodeId,
      t.childAt (s.count + k) slot index = (s.childAt x slot index).map image ∧
      ∀ y ∈ s.children x, ∃ j, IsLastPlace (order.take k) y j ∧ image y = s.count + j := by
  obtain ⟨image, node, places⟩ := built.mirrors k x hk
  refine ⟨image, ?_, places⟩
  rw [Store.childAt, Store.slot, node, Node.slot_map, Array.getElem?_map]
  rfl

theorem Built.childAt_eq_some_iff (built : s.Built order t) (hk : order[k]? = some x)
    {slot index : Nat} :
    t.childAt (s.count + k) slot index = some d ↔
      ∃ y j, s.childAt x slot index = some y ∧ IsLastPlace (order.take k) y j ∧
        d = s.count + j := by
  obtain ⟨image, child, places⟩ := built.childAt hk slot index
  rw [child, Option.map_eq_some_iff]
  refine ⟨fun h => ?_, fun h => ?_⟩
  · obtain ⟨y, hy, rfl⟩ := h
    obtain ⟨j, last, eq⟩ := places y (mem_children_iff.2 ⟨slot, index, hy⟩)
    exact ⟨y, j, hy, last, eq⟩
  · obtain ⟨y, j, hy, last, rfl⟩ := h
    obtain ⟨j', last', eq⟩ := places y (mem_children_iff.2 ⟨slot, index, hy⟩)
    exact ⟨y, hy, by rw [eq, last'.unique last]⟩

def BuiltFor (s : Store) (order : List NodeId) (x d : NodeId) : Prop :=
  ∃ k, order[k]? = some x ∧ d = s.count + k

theorem Built.simulation (built : s.Built order t) : Simulation s t (s.BuiltFor order) where
  outline := by
    intro x d h
    obtain ⟨k, hk, rfl⟩ := h
    obtain ⟨image, node, -⟩ := built.mirrors k x hk
    refine ⟨by rw [Store.payload, Store.payload, node, Store.payload], ?_⟩
    simp [childCounts, node]
  child := by
    intro x d h slot index a b ha hb
    obtain ⟨k, hk, rfl⟩ := h
    obtain ⟨y, j, hy, last, rfl⟩ := (built.childAt_eq_some_iff hk).1 hb
    rw [ha] at hy
    cases hy
    have inside : j < k := by
      have bound := last.lt
      rw [List.length_take] at bound
      omega
    refine ⟨j, ?_, rfl⟩
    rw [← List.getElem?_take_of_lt inside]
    exact last.1

theorem Built.new_of_builtFor (built : s.Built order t) (h : s.BuiltFor order x d) :
    t.kind d = .frozen ∧ s.count ≤ d ∧ d < t.count := by
  obtain ⟨k, hk, rfl⟩ := h
  obtain ⟨image, node, -⟩ := built.mirrors k x hk
  have within := (List.getElem?_eq_some_iff.1 hk).1
  have total := built.count
  have below : s.count + k < t.count := by omega
  exact ⟨by rw [Store.kind, node], Nat.le_add_right _ _, below⟩

section Snapshot

variable (closed : s.Closed) (acyclic : s.Acyclic) (hx : x < s.count)

theorem isLastPlace_root (x : NodeId) :
    IsLastPlace (s.treeOrder acyclic x) x ((s.treeOrder acyclic x).length - 1) := by
  rw [length_treeOrder, Nat.add_sub_cancel, treeOrder_eq]
  exact .concat_self _ x

include closed hx in
theorem rebuildFrozen_built :
    ∃ t, s.rebuildFrozen x = .ok (s.count + ((s.treeOrder acyclic x).length - 1), t) ∧
      s.Built (s.treeOrder acyclic x) t := by
  have ready (k : Nat) (y : NodeId) (hk : (s.treeOrder acyclic x)[k]? = some y) :
      y < s.count ∧ ∀ z ∈ s.children y, z ∈ (s.treeOrder acyclic x).take k := by
    have reached := (mem_treeOrder acyclic).1 (List.mem_of_getElem? hk)
    refine ⟨closed.lt_count_of_reaches hx reached, ?_⟩
    intro z hz
    exact (children_before acyclic hk).subset (mem_flatMap_treeOrder acyclic hz)
  obtain ⟨after, run, rebuilt⟩ := (Rebuilt.start s).run ready
  have folded := postFold_eq_foldlM (f := Rebuilding.rebuild) acyclic s.descends_children ⟨s, ∅⟩ x
  have entry := rebuilt.entry x _ (isLastPlace_root acyclic x)
  refine ⟨after.store, ?_, rebuilt.built⟩
  rw [rebuildFrozen, folded, run]
  simp only [bind, Except.bind, Rebuilding.lookup, entry]

theorem builtFor_root : s.BuiltFor (s.treeOrder acyclic x) x
    (s.count + ((s.treeOrder acyclic x).length - 1)) :=
  ⟨_, (isLastPlace_root acyclic x).1, rfl⟩

/-- A snapshot of a growable node succeeds, leaves every node as it was, and has the same tree,
made of new frozen nodes only. A frozen node is its own snapshot. -/
theorem snapshot_faithful (s : Store) (x : NodeId) :
    (s.Closed → s.Acyclic → x < s.count → s.kind x = .growable →
      ∃ r t, s.snapshot x = .ok (r, t) ∧
        s.count ≤ t.count ∧ (∀ y < s.count, t.node y = s.node y) ∧ s.SameTree t x r ∧
        ∀ z, t.Reaches r z →
          t.kind z = .frozen ∧ s.count ≤ z ∧ z < t.count ∧ ¬ t.Reaches x z) ∧
    (s.kind x = .frozen → s.snapshot x = .ok (x, s)) := by
  refine ⟨fun closed acyclic hx growable => ?_, fun frozen => by simp [snapshot, frozen]⟩
  obtain ⟨t, rebuilt, built⟩ := rebuildFrozen_built closed acyclic hx
  have sim := built.simulation
  have root := builtFor_root (x := x) acyclic
  refine ⟨_, t, by simpa [snapshot, growable] using rebuilt, built.kept.count_le,
    built.kept.node_eq, sim.sameTree root, ?_⟩
  intro z hz
  obtain ⟨y, -, related⟩ := sim.reaches root hz
  obtain ⟨frozen, new, within⟩ := built.new_of_builtFor related
  exact ⟨frozen, new, within, built.kept.not_reaches_new closed hx new⟩

theorem snapshot_faithful_trellis :
    trellis.Closed ∧ trellis.Acyclic ∧ 2 < trellis.count ∧ trellis.kind 2 = .growable ∧
    (∃ r t, trellis.snapshot 2 = .ok (r, t) ∧
      trellis.count ≤ t.count ∧ (∀ y < trellis.count, t.node y = trellis.node y) ∧
      trellis.SameTree t 2 r ∧
      ∀ z, t.Reaches r z →
        t.kind z = .frozen ∧ trellis.count ≤ z ∧ z < t.count ∧ ¬ t.Reaches 2 z) ∧
    trellis.kind 1 = .frozen ∧ trellis.snapshot 1 = .ok (1, trellis) := by
  obtain ⟨closed, acyclic⟩ := trellis_closed_acyclic
  have root : 2 < trellis.count := by decide
  have growable : trellis.kind 2 = .growable := rfl
  have frozen : trellis.kind 1 = .frozen := rfl
  exact ⟨closed, acyclic, root, growable,
    (snapshot_faithful trellis 2).1 closed acyclic root growable,
    frozen, (snapshot_faithful trellis 1).2 frozen⟩

end Snapshot
end Store
end SlotTree
