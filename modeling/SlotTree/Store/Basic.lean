import SlotTree.Fault

/-!
A store keeps the nodes of any number of trees, in the order in which they were made. Nodes are
added at the end, and an existing node changes in one way only: a growable node gets one more child
at the end of one slot.

Each operation comes with the lemma that says what it does to `node`, the view by which all else
is read.
-/

namespace SlotTree

structure Store where
  nodes : Array Node
  deriving DecidableEq, Repr

namespace Store

def empty : Store := ⟨#[]⟩

def count (s : Store) : Nat := s.nodes.size

def node (s : Store) (x : NodeId) : Node := s.nodes.getD x .absent

def kind (s : Store) (x : NodeId) : Kind := (s.node x).kind

def payload (s : Store) (x : NodeId) : Payload := (s.node x).payload

def slotCount (s : Store) (x : NodeId) : Nat := (s.node x).slotCount

def slot (s : Store) (x : NodeId) (i : Nat) : Array NodeId := (s.node x).slot i

def children (s : Store) (x : NodeId) : List NodeId := (s.node x).children

def edges (s : Store) (x : NodeId) : List Edge := (s.node x).edges

def isChildless (s : Store) (x : NodeId) : Bool := (s.node x).isChildless

/-! Reading by index. -/

def checkSlot (s : Store) (x : NodeId) (slot : Int) : Except Fault Nat :=
  if 0 ≤ slot ∧ slot < s.slotCount x then .ok slot.toNat
  else .error (.slotRange slot (s.slotCount x))

def readSlot (s : Store) (x : NodeId) (slot : Int) : Except Fault (Array NodeId) :=
  (s.checkSlot x slot).map (s.slot x)

/-- The child at a position; the slot is checked before the position. -/
def readChild (s : Store) (x : NodeId) (index slot : Int) : Except Fault NodeId := do
  let children ← s.readSlot x slot
  if 0 ≤ index then
    match children[index.toNat]? with
    | some child => .ok child
    | none => .error (.childRange index slot children.size)
  else .error (.childRange index slot children.size)

/-! Making nodes. -/

def add (s : Store) (n : Node) : NodeId × Store := (s.count, ⟨s.nodes.push n⟩)

def newNode (s : Store) (payload : Payload) (slotCount : Int) : Except Fault (NodeId × Store) :=
  if slotCount < 0 then .error (.negativeSlotCount slotCount)
  else .ok (s.add (.blank payload slotCount.toNat))

def newLike (s : Store) (other : Option NodeId) : Except Fault (NodeId × Store) := do
  let x ← Fault.given "other" other
  s.newNode (s.payload x) (s.slotCount x)

def newFrozen (s : Store) (payload : Payload) (slots : Array (Array NodeId)) : NodeId × Store :=
  s.add ⟨.frozen, payload, slots⟩

/-! Growing a node. -/

def grow (s : Store) (x : NodeId) (i : Nat) (child : NodeId) : Store :=
  ⟨s.nodes.modify x (·.grow i child)⟩

/-- Appends a child. A frozen node is refused first, then a missing child, then a wrong slot. -/
def append (s : Store) (x : NodeId) (child : Option NodeId) (slot : Int) :
    Except Fault Store :=
  match s.kind x with
  | .frozen => .error .frozenNode
  | .growable => do
    let child ← Fault.given "child" child
    let i ← s.checkSlot x slot
    .ok (s.grow x i child)

def childCounts (s : Store) (x : NodeId) : List Nat := (s.node x).slots.toList.map Array.size

/-! What the operations do to the view. -/

theorem node_of_le {s : Store} {x : NodeId} (h : s.count ≤ x) : s.node x = .absent := by
  simp [node, Array.getD_eq_getD_getElem?, Array.getElem?_eq_none h]

theorem slotCount_of_le {s : Store} {x : NodeId} (h : s.count ≤ x) : s.slotCount x = 0 := by
  simp [slotCount, node_of_le h, Node.absent, Node.slotCount]

theorem checkSlot_natCast (s : Store) (x : NodeId) (i : Nat) :
    s.checkSlot x i =
      if i < s.slotCount x then .ok i else .error (.slotRange i (s.slotCount x)) := by
  simp [checkSlot]

theorem readChild_eq_ok_iff {s : Store} {x child : NodeId} {index slot : Int} :
    s.readChild x index slot = .ok child ↔
      ∃ i j : Nat, slot = i ∧ index = j ∧ (s.slot x i)[j]? = some child := by
  constructor
  · intro h
    unfold readChild readSlot checkSlot at h
    split at h
    · rename_i bounds
      simp only [Except.map, bind, Except.bind] at h
      split at h
      · split at h
        · rename_i found
          cases h
          exact ⟨slot.toNat, index.toNat, by omega, by omega, found⟩
        · cases h
      · cases h
    · cases h
  · rintro ⟨i, j, rfl, rfl, h⟩
    have bound : i < s.slotCount x := by
      refine Nat.lt_of_not_le fun le => ?_
      simp [slot, Node.slot_of_le le] at h
    simp [readChild, readSlot, checkSlot_natCast, bound, Except.map, bind, Except.bind, h]

@[simp] theorem count_add (s : Store) (n : Node) : (s.add n).2.count = s.count + 1 := by
  simp [add, count]

@[simp] theorem node_add (s : Store) (n : Node) (y : NodeId) :
    (s.add n).2.node y = if y = s.count then n else s.node y := by
  simp only [add, node, count, Array.getD_eq_getD_getElem?, Array.getElem?_push]
  split <;> simp

@[simp] theorem node_add_self (s : Store) (n : Node) : (s.add n).2.node s.count = n := by
  rw [node_add, if_pos rfl]

theorem node_add_of_lt {s : Store} {y : NodeId} (h : y < s.count) (n : Node) :
    (s.add n).2.node y = s.node y := by
  rw [node_add, if_neg (Nat.ne_of_lt h)]

@[simp] theorem newNode_natCast (s : Store) (payload : Payload) (slotCount : Nat) :
    s.newNode payload slotCount = .ok (s.add (.blank payload slotCount)) := by
  simp [newNode, Int.not_lt.2 (Int.natCast_nonneg slotCount)]

@[simp] theorem newLike_some (s : Store) (x : NodeId) :
    s.newLike (some x) = .ok (s.add (.blank (s.payload x) (s.slotCount x))) := by
  simp [newLike, Fault.given, bind, Except.bind]

@[simp] theorem count_grow (s : Store) (x : NodeId) (i : Nat) (child : NodeId) :
    (s.grow x i child).count = s.count := by
  simp [grow, count]

@[simp] theorem node_grow (s : Store) (x : NodeId) (i : Nat) (child y : NodeId) :
    (s.grow x i child).node y = if y = x then (s.node x).grow i child else s.node y := by
  simp only [grow, node, Array.getD_eq_getD_getElem?, Array.getElem?_modify]
  by_cases hy : y = x
  · subst hy
    cases h : s.nodes[y]? with
    | none => simp [Node.absent, Node.grow]
    | some n => simp
  · simp [hy, Ne.symm hy]

theorem node_grow_of_ne {s : Store} {x y : NodeId} (h : y ≠ x) (i : Nat) (child : NodeId) :
    (s.grow x i child).node y = s.node y := by
  rw [node_grow, if_neg h]

@[simp] theorem kind_grow (s : Store) (x : NodeId) (i : Nat) (child y : NodeId) :
    (s.grow x i child).kind y = s.kind y := by
  rw [kind, node_grow]
  split
  · rename_i here
    rw [here]
    rfl
  · rfl

@[simp] theorem payload_grow (s : Store) (x : NodeId) (i : Nat) (child y : NodeId) :
    (s.grow x i child).payload y = s.payload y := by
  rw [payload, node_grow]
  split
  · rename_i here
    rw [here]
    rfl
  · rfl

@[simp] theorem slotCount_grow (s : Store) (x : NodeId) (i : Nat) (child y : NodeId) :
    (s.grow x i child).slotCount y = s.slotCount y := by
  rw [slotCount, node_grow]
  split
  · rename_i here
    rw [here, Node.slotCount_grow, slotCount]
  · rfl

theorem slot_grow (s : Store) (x : NodeId) (i : Nat) (child y : NodeId) (j : Nat) :
    (s.grow x i child).slot y j =
      if y = x ∧ j = i ∧ i < s.slotCount x then (s.slot x i).push child else s.slot y j := by
  rw [slot, node_grow]
  by_cases here : y = x
  · simp [here, Node.slot_grow, slot, slotCount]
  · simp [here, slot]

theorem append_eq_ok_iff {s t : Store} {x : NodeId} {child : Option NodeId} {slot : Int} :
    s.append x child slot = .ok t ↔
      s.kind x = .growable ∧ ∃ c i, child = some c ∧ slot = (i : Nat) ∧ i < s.slotCount x ∧
        t = s.grow x i c := by
  unfold append
  cases hk : s.kind x with
  | frozen => simp
  | growable =>
    cases child with
    | none => simp [Fault.given, bind, Except.bind]
    | some c =>
      by_cases bounds : 0 ≤ slot ∧ slot < s.slotCount x
      · obtain ⟨i, rfl⟩ := Int.eq_ofNat_of_zero_le bounds.1
        have lt : i < s.slotCount x := Int.ofNat_lt.1 bounds.2
        simp only [Fault.given, bind, Except.bind, checkSlot_natCast, lt, if_true,
          Except.ok.injEq, true_and, Option.some.injEq]
        constructor
        · rintro rfl
          exact ⟨c, i, rfl, rfl, lt, rfl⟩
        · rintro ⟨_, j, rfl, eq, _, rfl⟩
          rw [Int.ofNat_inj.1 eq]
      · simp only [Fault.given, bind, Except.bind, checkSlot, bounds, if_false,
          reduceCtorEq, true_and, false_iff]
        rintro ⟨_, i, _, rfl, lt, _⟩
        exact bounds ⟨by omega, by omega⟩

end Store
end SlotTree
