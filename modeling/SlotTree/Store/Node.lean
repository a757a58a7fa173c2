import SlotTree.Payload.Basic

/-!
A node has a payload, a kind, and a fixed number of slots, each an ordered list of children.
Children are named by their place in the store, so one node may be a child in many places.
-/

namespace SlotTree

/-- The place of a node in its store. Two nodes are the same node when their places agree. -/
abbrev NodeId := Nat

inductive Kind where
  | growable
  | frozen
  deriving DecidableEq, Repr

structure Node where
  kind : Kind
  payload : Payload
  slots : Array (Array NodeId)
  deriving DecidableEq, Repr

structure Edge where
  slot : Nat
  index : Nat
  child : NodeId
  deriving DecidableEq, Repr

namespace Node

/-- What a store holds at a place that it does not have. -/
def absent : Node := ⟨.growable, .value .null, #[]⟩

def slotCount (n : Node) : Nat := n.slots.size

def slot (n : Node) (i : Nat) : Array NodeId := n.slots.getD i #[]

def children (n : Node) : List NodeId := n.slots.toList.flatMap Array.toList

def slotEdges (slot : Nat) (children : List NodeId) : List Edge :=
  children.zipIdx.map fun (child, index) => ⟨slot, index, child⟩

def edges (n : Node) : List Edge :=
  n.slots.toList.zipIdx.flatMap fun (children, slot) => slotEdges slot children.toList

def isChildless (n : Node) : Bool := n.slots.all Array.isEmpty

/-- The node with one more child at the end of slot `i`. -/
def grow (n : Node) (i : Nat) (child : NodeId) : Node :=
  { n with slots := n.slots.modify i (·.push child) }

def blank (payload : Payload) (count : Nat) : Node :=
  ⟨.growable, payload, Array.replicate count #[]⟩

@[simp] theorem slotEdges_child (slot : Nat) (children : List NodeId) :
    (slotEdges slot children).map Edge.child = children := by
  simp [slotEdges, Function.comp_def, List.zipIdx_map_fst]

@[simp] theorem edges_child (n : Node) : n.edges.map Edge.child = n.children := by
  have go (slots : List (Array NodeId)) (k : Nat) :
      ((slots.zipIdx k).flatMap fun (c, slot) => slotEdges slot c.toList).map Edge.child =
        slots.flatMap Array.toList := by
    induction slots generalizing k with
    | nil => rfl
    | cons c slots ih =>
      simp only [List.zipIdx_cons, List.flatMap_cons, List.map_append, slotEdges_child, ih]
  exact go n.slots.toList 0

theorem mem_slotEdges {slot : Nat} {children : List NodeId} {e : Edge} :
    e ∈ slotEdges slot children ↔ e.slot = slot ∧ children[e.index]? = some e.child := by
  obtain ⟨slot', index, child⟩ := e
  simp only [slotEdges, List.mem_map, Prod.exists, List.mem_zipIdx_iff_getElem?, Edge.mk.injEq]
  constructor
  · rintro ⟨c, i, h, rfl, rfl, rfl⟩
    exact ⟨rfl, h⟩
  · rintro ⟨rfl, h⟩
    exact ⟨child, index, h, rfl, rfl, rfl⟩

theorem mem_edges {n : Node} {e : Edge} :
    e ∈ n.edges ↔ (n.slot e.slot)[e.index]? = some e.child := by
  simp only [edges, List.mem_flatMap, Prod.exists, List.mem_zipIdx_iff_getElem?, mem_slotEdges,
    Array.getElem?_toList, slot, Array.getD_eq_getD_getElem?]
  constructor
  · rintro ⟨c, i, hc, rfl, h⟩
    simpa [hc] using h
  · intro h
    cases hc : n.slots[e.slot]? with
    | none => simp [hc] at h
    | some c => exact ⟨c, e.slot, hc, rfl, by simpa [hc] using h⟩

theorem slot_of_le {n : Node} {i : Nat} (h : n.slotCount ≤ i) : n.slot i = #[] := by
  simp [slot, Array.getD_eq_getD_getElem?, Array.getElem?_eq_none h]

@[simp] theorem slotCount_grow (n : Node) (i : Nat) (child : NodeId) :
    (n.grow i child).slotCount = n.slotCount := by
  simp [grow, slotCount]

theorem slot_grow (n : Node) (i j : Nat) (child : NodeId) :
    (n.grow i child).slot j =
      if j = i ∧ i < n.slotCount then (n.slot i).push child else n.slot j := by
  simp only [grow, slot, slotCount, Array.getD_eq_getD_getElem?, Array.getElem?_modify]
  by_cases hj : j = i
  · subst hj
    by_cases hi : j < n.slots.size
    · simp [hi]
    · simp [hi]
  · simp [hj, Ne.symm hj]

@[simp] theorem slotCount_blank (payload : Payload) (count : Nat) :
    (blank payload count).slotCount = count := by
  simp [blank, slotCount]

@[simp] theorem slot_blank (payload : Payload) (count i : Nat) :
    (blank payload count).slot i = #[] := by
  simp only [blank, slot, Array.getD_eq_getD_getElem?, Array.getElem?_replicate]
  split <;> rfl

end Node
end SlotTree
