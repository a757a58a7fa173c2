import SlotTree.Proofs.Rank
import SlotTree.Store.Extends

/-!
Trees of two stores side by side. `KeptIn` is the frame of an operation that only makes new nodes.
A simulation is a relation under which nodes have one outline and their children are related
position by position; nodes related by one have the same tree.
-/

namespace SlotTree.Store

variable {s t u : Store} {x y z : NodeId}

theorem reaches_iff_of_children {P : NodeId → Prop} (down : ∀ z, P z → ∀ w ∈ s.children z, P w)
    (same : ∀ z, P z → t.children z = s.children z) (hx : P x) :
    t.Reaches x y ↔ s.Reaches x y := by
  refine ⟨fun h => ?_, fun h => ?_⟩
  · induction h with
    | refl => exact .refl _
    | step child _ ih =>
      rw [same _ hx] at child
      exact .step child (ih (down _ hx _ child))
  · induction h with
    | refl => exact .refl _
    | step child _ ih => exact .step (by rwa [same _ hx]) (ih (down _ hx _ child))

/-- Every node of `s` is a node of `t`, exactly as it was. -/
structure KeptIn (s t : Store) : Prop where
  count_le : s.count ≤ t.count
  node_eq : ∀ x < s.count, t.node x = s.node x

namespace KeptIn

theorem refl (s : Store) : s.KeptIn s := ⟨Nat.le_refl _, fun _ _ => rfl⟩

theorem trans (first : s.KeptIn t) (second : t.KeptIn u) : s.KeptIn u := by
  refine ⟨Nat.le_trans first.count_le second.count_le, ?_⟩
  intro x hx
  rw [second.node_eq x (Nat.lt_of_lt_of_le hx first.count_le), first.node_eq x hx]

theorem add (s : Store) (n : Node) : s.KeptIn (s.add n).2 :=
  ⟨by simp, fun _ hx => node_add_of_lt hx n⟩

theorem toExtends (kept : s.KeptIn t) : s.Extends t := .of_node_eq kept.count_le kept.node_eq

theorem children (kept : s.KeptIn t) (hx : x < s.count) : t.children x = s.children x := by
  rw [Store.children, kept.node_eq x hx, Store.children]

theorem edges (kept : s.KeptIn t) (hx : x < s.count) : t.edges x = s.edges x := by
  rw [Store.edges, kept.node_eq x hx, Store.edges]

theorem reaches_iff (kept : s.KeptIn t) (closed : s.Closed) (hx : x < s.count) :
    t.Reaches x y ↔ s.Reaches x y :=
  reaches_iff_of_children (fun z _ => closed z) (fun _ hz => kept.children hz) hx

theorem not_reaches_new (kept : s.KeptIn t) (closed : s.Closed) (hx : x < s.count)
    (new : s.count ≤ z) : ¬ t.Reaches x z := by
  intro h
  have old := closed.lt_count_of_reaches hx ((kept.reaches_iff closed hx).1 h)
  exact Nat.not_le_of_lt old new

end KeptIn

theorem size_slot (s : Store) (x : NodeId) (i : Nat) :
    (s.slot x i).size = (s.childCounts x).getD i 0 := by
  simp only [slot, Node.slot, childCounts, Array.getD_eq_getD_getElem?, List.getD_eq_getElem?_getD,
    List.getElem?_map, Array.getElem?_toList]
  cases (s.node x).slots[i]? <;> rfl

variable {R : NodeId → NodeId → Prop}

theorem exists_left_of_rel {x? : Option NodeId} (h : Option.Rel R x? (some y)) :
    ∃ x, x? = some x ∧ R x y := by
  cases h with
  | some related => exact ⟨_, rfl, related⟩

theorem exists_right_of_rel {y? : Option NodeId} (h : Option.Rel R (some x) y?) :
    ∃ y, y? = some y ∧ R x y := by
  cases h with
  | some related => exact ⟨_, rfl, related⟩

theorem isSome_eq_of_rel {x? y? : Option NodeId} (h : Option.Rel R x? y?) :
    x?.isSome = y?.isSome := by
  cases h <;> rfl

theorem childAt_rel {slot index : Nat} (size : (s.slot x slot).size = (t.slot y slot).size)
    (child : ∀ a b, s.childAt x slot index = some a → t.childAt y slot index = some b → R a b) :
    Option.Rel R (s.childAt x slot index) (t.childAt y slot index) := by
  cases ha : s.childAt x slot index with
  | none =>
    have beyond : (s.slot x slot).size ≤ index := Array.getElem?_eq_none_iff.1 ha
    have hb : t.childAt y slot index = none := Array.getElem?_eq_none_iff.2 (size ▸ beyond)
    rw [hb]
    exact .none
  | some a =>
    have within : index < (s.slot x slot).size := (Array.getElem?_eq_some_iff.1 ha).1
    have hb : t.childAt y slot index = some _ := Array.getElem?_eq_getElem (size ▸ within)
    rw [hb]
    exact .some (child a _ ha hb)

theorem nodeAt_rel
    (child : ∀ {x y}, R x y → ∀ slot index,
      Option.Rel R (s.childAt x slot index) (t.childAt y slot index))
    (related : R x y) (p : Path) : Option.Rel R (s.nodeAt x p) (t.nodeAt y p) := by
  induction p generalizing x y with
  | nil => exact .some related
  | cons step p ih =>
    obtain ⟨slot, index⟩ := step
    have children := child related slot index
    simp only [Store.nodeAt]
    cases ha : s.childAt x slot index <;> cases hb : t.childAt y slot index <;>
      rw [ha, hb] at children <;> cases children
    · exact .none
    · rename_i next
      exact ih next

/-- Related nodes have one outline, and related children at every position. -/
structure Simulation (s t : Store) (R : NodeId → NodeId → Prop) : Prop where
  outline : ∀ {x y}, R x y → s.SameOutline t x y
  child : ∀ {x y}, R x y → ∀ {slot index a b}, s.childAt x slot index = some a →
    t.childAt y slot index = some b → R a b

namespace Simulation

theorem childAt (sim : Simulation s t R) (related : R x y) (slot index : Nat) :
    Option.Rel R (s.childAt x slot index) (t.childAt y slot index) := by
  apply childAt_rel
  · rw [size_slot, size_slot, (sim.outline related).2]
  · intro a b ha hb
    exact sim.child related ha hb

theorem nodeAt (sim : Simulation s t R) (related : R x y) (p : Path) :
    Option.Rel R (s.nodeAt x p) (t.nodeAt y p) :=
  nodeAt_rel (fun related => sim.childAt related) related p

theorem sameTree (sim : Simulation s t R) (related : R x y) : s.SameTree t x y := by
  intro p
  match s.nodeAt x p, t.nodeAt y p, sim.nodeAt related p with
  | _, _, .none => exact .none
  | _, _, .some ends => exact .some (sim.outline ends)

theorem exists_childAt (sim : Simulation s t R) (related : R x y) {slot index : Nat} {b : NodeId}
    (hb : t.childAt y slot index = some b) : ∃ a, s.childAt x slot index = some a ∧ R a b := by
  have ends := sim.childAt related slot index
  rw [hb] at ends
  exact exists_left_of_rel ends

theorem reaches (sim : Simulation s t R) (related : R x y) (h : t.Reaches y z) :
    ∃ a, s.Reaches x a ∧ R a z := by
  obtain ⟨p, hp⟩ := reaches_iff_nodeAt.1 h
  have ends := sim.nodeAt related p
  rw [hp] at ends
  obtain ⟨a, ha, related⟩ := exists_left_of_rel ends
  exact ⟨a, reaches_iff_nodeAt.2 ⟨p, ha⟩, related⟩

end Simulation

/-! Outlines and trees as relations. -/

theorem SameOutline.slotCount (h : s.SameOutline t x y) : s.slotCount x = t.slotCount y := by
  have lengths := congrArg List.length h.2
  simpa [childCounts, Store.slotCount, Node.slotCount] using lengths

theorem SameOutline.size_slot (h : s.SameOutline t x y) (i : Nat) :
    (s.slot x i).size = (t.slot y i).size := by
  rw [Store.size_slot, Store.size_slot, h.2]

theorem SameOutline.symm (h : s.SameOutline t x y) : t.SameOutline s y x :=
  ⟨h.1.symm, h.2.symm⟩

theorem SameOutline.trans (h : s.SameOutline t x y) (h' : t.SameOutline u y z) :
    s.SameOutline u x z :=
  ⟨h.1.trans h'.1, h.2.trans h'.2⟩

namespace SameTree

theorem refl (s : Store) (x : NodeId) : s.SameTree s x x := by
  intro p
  cases s.nodeAt x p with
  | none => exact .none
  | some y => exact .some ⟨rfl, rfl⟩

theorem symm (h : s.SameTree t x y) : t.SameTree s y x := by
  intro p
  match s.nodeAt x p, t.nodeAt y p, h p with
  | _, _, .none => exact .none
  | _, _, .some outline => exact .some outline.symm

theorem trans (h : s.SameTree t x y) (h' : t.SameTree u y z) : s.SameTree u x z := by
  intro p
  match s.nodeAt x p, t.nodeAt y p, u.nodeAt z p, h p, h' p with
  | _, _, _, .none, .none => exact .none
  | _, _, _, .some outline, .some outline' => exact .some (outline.trans outline')

theorem simulation (s t : Store) : Simulation s t (s.SameTree t) where
  outline h := by
    cases h [] with
    | some outline => exact outline
  child h slot index a b ha hb p := by
    have further := h ((slot, index) :: p)
    simpa [Store.nodeAt, ha, hb] using further

theorem reaches (h : s.SameTree t x y) (reached : t.Reaches y z) :
    ∃ a, s.Reaches x a ∧ s.SameTree t a z :=
  (simulation s t).reaches h reached

end SameTree

theorem KeptIn.sameTree (kept : s.KeptIn t) (closed : s.Closed) (hx : x < s.count) :
    s.SameTree t x x := by
  have sim : Simulation s t fun a b => a = b ∧ a < s.count :=
    { outline := fun {a b} h => by
        obtain ⟨rfl, old⟩ := h
        rw [SameOutline, payload, payload, childCounts, childCounts, kept.node_eq a old]
        exact ⟨rfl, rfl⟩
      child := fun {a b} h {slot index c d} hc hd => by
        obtain ⟨rfl, old⟩ := h
        rw [Store.childAt, Store.slot, kept.node_eq a old] at hd
        cases hc.symm.trans hd
        exact ⟨rfl, closed a c (mem_children_iff.2 ⟨slot, index, hc⟩)⟩ }
  exact sim.sameTree ⟨rfl, hx⟩

end SlotTree.Store
