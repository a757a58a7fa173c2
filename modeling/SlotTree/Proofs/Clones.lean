import Mathlib.Data.Set.Function
import SlotTree.Proofs.AppendOnly
import SlotTree.Proofs.CloneRecursion

/-!
What a clone is. The census takes up every node below the root once, and the new nodes stand over
each other as the nodes that they were made from do: the graph below a clone is the graph below its
source, with its kinds and its sharing. It is a graph of new nodes, so what is appended to one of
the two does not show in the other.
-/

namespace SlotTree.Store

variable {s t : Store} {x y z c : NodeId} {image : NodeId → NodeId} {p q : Path}

/-- `image` carries the nodes below `x` one to one onto the nodes below `c`, in another store: each
to a node of its kind and payload, over the images of its children, slot by slot and in order. -/
structure Isomorphism (s t : Store) (image : NodeId → NodeId) (x c : NodeId) : Prop where
  root : image x = c
  bijective : Set.BijOn image {y | s.Reaches x y} {z | t.Reaches c z}
  kind : ∀ y, s.Reaches x y → t.kind (image y) = s.kind y
  payload : ∀ y, s.Reaches x y → t.payload (image y) = s.payload y
  slotCount : ∀ y, s.Reaches x y → t.slotCount (image y) = s.slotCount y
  slot : ∀ y, s.Reaches x y → ∀ i, t.slot (image y) i = (s.slot y i).map image

theorem nodeAt_image (slot : ∀ y, s.Reaches x y → ∀ i, t.slot (image y) i = (s.slot y i).map image)
    (reached : s.Reaches x y) (p : Path) : t.nodeAt (image y) p = (s.nodeAt y p).map image := by
  induction p generalizing y with
  | nil => rfl
  | cons step p ih =>
    obtain ⟨i, j⟩ := step
    have child : t.childAt (image y) i j = (s.childAt y i j).map image := by
      rw [childAt, childAt, slot y reached, Array.getElem?_map]
    rw [nodeAt, nodeAt, child]
    cases at_child : s.childAt y i j with
    | none => rfl
    | some w => exact ih (reached.child (mem_children_iff.2 ⟨i, j, at_child⟩))

namespace Isomorphism

variable (iso : s.Isomorphism t image x c)
include iso

theorem nodeAt (p : Path) : t.nodeAt c p = (s.nodeAt x p).map image := by
  rw [← iso.root]
  exact nodeAt_image iso.slot (.refl x) p

theorem same_end_iff : (∃ z, t.nodeAt c p = some z ∧ t.nodeAt c q = some z) ↔
    ∃ y, s.nodeAt x p = some y ∧ s.nodeAt x q = some y := by
  simp only [iso.nodeAt, Option.map_eq_some_iff]
  refine ⟨fun h => ?_, fun h => ?_⟩
  · obtain ⟨z, ⟨y, hp, rfl⟩, ⟨y', hq, same⟩⟩ := h
    have below := reaches_iff_nodeAt.2 ⟨p, hp⟩
    have below' := reaches_iff_nodeAt.2 ⟨q, hq⟩
    have one : y' = y := iso.bijective.injOn below' below same
    exact ⟨y, hp, one ▸ hq⟩
  · obtain ⟨y, hp, hq⟩ := h
    exact ⟨image y, ⟨y, hp, rfl⟩, y, hq, rfl⟩

end Isomorphism

section Clone

variable {census : Census} (made : s.ClonedOnto census t) (counts : s.Counts x census)
include made counts

theorem Counts.exists_clone (reached : s.Reaches x y) :
    ∃ k, census.order[k]? = some y ∧ cloneOf s.count census.places y = s.count + k ∧
      t.node (s.count + k) = s.cloneNode census.places y := by
  obtain ⟨k, place⟩ := counts.exists_place reached
  refine ⟨k, place, ?_, made.node_eq place⟩
  rw [cloneOf, (counts.indexed y k).2 place]

theorem Counts.node_clone (reached : s.Reaches x y) :
    t.node (cloneOf s.count census.places y) = s.cloneNode census.places y := by
  obtain ⟨k, -, same, node⟩ := counts.exists_clone made reached
  rw [same, node]

theorem Counts.slot_clone (reached : s.Reaches x y) (i : Nat) :
    t.slot (cloneOf s.count census.places y) i =
      (s.slot y i).map (cloneOf s.count census.places) := by
  rw [Store.slot, counts.node_clone made reached]
  exact Node.slot_map ..

theorem Counts.nodeAt_clone (p : Path) : t.nodeAt (cloneOf s.count census.places x) p =
    (s.nodeAt x p).map (cloneOf s.count census.places) :=
  nodeAt_image (fun _ below => counts.slot_clone made below) (.refl x) p

theorem Counts.reaches_clone_iff : t.Reaches (cloneOf s.count census.places x) z ↔
    ∃ y, s.Reaches x y ∧ cloneOf s.count census.places y = z := by
  simp only [reaches_iff_nodeAt, counts.nodeAt_clone made, Option.map_eq_some_iff]
  grind

theorem Counts.reaches_clone_iff_new :
    t.Reaches (cloneOf s.count census.places x) z ↔ s.count ≤ z ∧ z < t.count := by
  rw [counts.reaches_clone_iff made, made.count]
  refine ⟨fun h => ?_, fun new => ?_⟩
  · obtain ⟨y, below, rfl⟩ := h
    obtain ⟨k, place, same, -⟩ := counts.exists_clone made below
    have within := (Array.getElem?_eq_some_iff.1 place).1
    rw [same]
    exact ⟨Nat.le_add_right _ _, Nat.add_lt_add_left within _⟩
  · obtain ⟨k, y, rfl, place⟩ := made.exists_place new.1 (made.count ▸ new.2)
    have below : s.Reaches x y := (counts.mem_order_iff y).1 (Array.mem_of_getElem? place)
    exact ⟨y, below, by rw [cloneOf, (counts.indexed y k).2 place]⟩

theorem Counts.injOn_clone : Set.InjOn (cloneOf s.count census.places) {y | s.Reaches x y} := by
  intro y below y' below' same
  obtain ⟨k, place, here, -⟩ := counts.exists_clone made below
  obtain ⟨k', place', here', -⟩ := counts.exists_clone made below'
  have number : k = k' := Nat.add_left_cancel (here.symm.trans (same.trans here'))
  rw [number] at place
  exact Option.some.inj (place.symm.trans place')

theorem Counts.isomorphism :
    s.Isomorphism t (cloneOf s.count census.places) x (cloneOf s.count census.places x) where
  root := rfl
  bijective := by
    refine ⟨fun y below => ?_, counts.injOn_clone made, fun z below => ?_⟩
    · exact (counts.reaches_clone_iff made).2 ⟨y, below, rfl⟩
    · exact (counts.reaches_clone_iff made).1 below
  kind y below := by
    rw [Store.kind, counts.node_clone made below]
    rfl
  payload y below := by
    rw [Store.payload, counts.node_clone made below]
    rfl
  slotCount y below := by
    rw [Store.slotCount, counts.node_clone made below]
    simp [cloneNode, NodeState.restored, NodeState.rename, Node.state, Node.slotCount,
      Store.slotCount]
  slot y below := counts.slot_clone made below

end Clone

/-- The clone of a node, made in one go for the whole census or by the recursion with a memo, is the
graph below the node once more: of the same kinds and payloads, and shared in the same way. It is
made of new nodes and of nothing else, the nodes that were there are as they were, and what is
appended on either side leaves the other one alone. -/
theorem clone_isomorphic (s : Store) (x : NodeId) :
    ∃ c t image, s.clone x = .ok (c, t) ∧ s.Isomorphism t image x c ∧
      (∀ p q, (∃ z, t.nodeAt c p = some z ∧ t.nodeAt c q = some z) ↔
        ∃ y, s.nodeAt x p = some y ∧ s.nodeAt x q = some y) ∧
      (∀ z, t.Reaches c z ↔ s.count ≤ z ∧ z < t.count) ∧
      (∀ y < s.count, t.node y = s.node y) ∧
      (∀ z, t.Reaches c z → t.kind z = .growable → ∀ d, ∀ i < t.slotCount z,
        ∃ u, t.append z (some d) i = .ok u ∧ t.GrownBy z i d u ∧
          ∀ y < s.count, u.node y = s.node y) ∧
      (∀ y < s.count, ∀ child slot u, t.append y child slot = .ok u →
        ∀ z, t.Reaches c z → u.node z = t.node z) ∧
      ∃ k, s.Clones ⟨s, ∅⟩ [x] k ∧ k.memo[x]? = some c ∧ k.store = t := by
  obtain ⟨census, run, counts⟩ := s.census_eq_ok x
  obtain ⟨k, clones, memo, store⟩ := exists_clones run
  have made : s.ClonedOnto census ⟨s.nodes ++ census.order.map (s.cloneNode census.places)⟩ :=
    ⟨fun y place => (counts.indexed y place).1, rfl⟩
  have iso := counts.isomorphism made
  have new (z : NodeId) := counts.reaches_clone_iff_new made (z := z)
  refine ⟨_, _, _, ?run, iso, fun p q => iso.same_end_iff, new, made.kept.node_eq, ?clone, ?source,
    k, clones, memo, store⟩
  case run => rw [clone, run]; rfl
  case clone =>
    intro z below growable d i inside
    refine ⟨_, append_eq_ok_iff.2 ⟨growable, d, i, rfl, rfl, inside, rfl⟩, grownBy_grow _ inside,
      fun y old => ?_⟩
    have apart : y ≠ z := Nat.ne_of_lt (Nat.lt_of_lt_of_le old ((new z).1 below).1)
    rw [node_grow_of_ne apart, made.kept.node_eq y old]
  case source =>
    intro y old child slot u appended z below
    obtain ⟨-, d, i, -, -, -, rfl⟩ := append_eq_ok_iff.1 appended
    have apart : z ≠ y := Nat.ne_of_gt (Nat.lt_of_lt_of_le old ((new z).1 below).1)
    exact node_grow_of_ne apart i d

theorem clone_isomorphic_trellis :
    ∃ c t image, trellis.clone 2 = .ok (c, t) ∧ trellis.Isomorphism t image 2 c ∧
      (∃ z, t.nodeAt c [(0, 0)] = some z ∧ t.nodeAt c [(2, 0), (0, 1)] = some z) ∧
      t.kind (image 1) = .frozen ∧
      ∃ u, t.append c (some 3) 1 = .ok u ∧ ∀ y < trellis.count, u.node y = trellis.node y := by
  obtain ⟨c, t, image, run, iso, ends, -, -, grow, -⟩ := clone_isomorphic trellis 2
  have below : trellis.Reaches 2 1 := .step (by decide) (.refl 1)
  have growable : t.kind c = .growable := by rw [← iso.root, iso.kind 2 (.refl 2)]; rfl
  have inside : 1 < t.slotCount c := by rw [← iso.root, iso.slotCount 2 (.refl 2)]; decide
  obtain ⟨u, appended, -, alone⟩ := grow c (.refl c) growable 3 1 inside
  refine ⟨c, t, image, run, iso, (ends _ _).2 ⟨0, rfl, rfl⟩, ?_, u, appended, alone⟩
  rw [iso.kind 1 below]
  rfl

end SlotTree.Store
