import Std.Data.HashMap
import SlotTree.Walk.Occurrences

/-!
Cloning a tree as it is: one new node for each distinct node, of the same kind and with the same
payload, and children joined as they were.

The distinct nodes are numbered by a census, in the order in which a walk from the top, slot by
slot, first meets them. Each is walked once only, so that the walk ends even where a node stands
below itself. The new nodes stand at the end of the store in the order of the census, so the clone
of a node is found by adding its number to the size of the store.

A node is cloned through its state, the payload and the slots. The lock of a growable node is not
part of it: a clone that is growable has one of its own from the start.
-/

namespace SlotTree

structure Census where
  order : Array NodeId
  places : Std.HashMap NodeId Nat

namespace Census

def empty : Census := ⟨#[], ∅⟩

def enter : Census → NodeId → Census
  | ⟨order, places⟩, x =>
    let place := order.size
    ⟨order.push x, places.insert x place⟩

end Census

/-- What a node hands over to its clone. -/
structure NodeState where
  payload : Payload
  slots : Array (Array NodeId)

namespace NodeState

def rename (state : NodeState) (f : NodeId → NodeId) : NodeState :=
  { state with slots := state.slots.map fun slot => slot.map f }

def restored (state : NodeState) (kind : Kind) : Node := ⟨kind, state.payload, state.slots⟩

end NodeState

def Node.state (n : Node) : NodeState := ⟨n.payload, n.slots⟩

namespace Store

def censusVisit (s : Store) (c : Census) (x : NodeId) :
    Step Census NodeId (Except Fault Census) :=
  if c.places.contains x then .next c []
  else .next (c.enter x) (s.children x)

def census (s : Store) (root : NodeId) : Except Fault Census :=
  finished (Worklist.walk s.censusVisit .ok s.depthBound .empty root)

/-- The place of a node's clone, in a store that had `base` nodes before. -/
def cloneOf (base : Nat) (places : Std.HashMap NodeId Nat) (x : NodeId) : NodeId :=
  match places[x]? with
  | some place => base + place
  | none => x

def cloneNode (s : Store) (places : Std.HashMap NodeId Nat) (x : NodeId) : Node :=
  ((s.node x).state.rename (cloneOf s.count places)).restored (s.kind x)

def clone (s : Store) (x : NodeId) : Except Fault (NodeId × Store) := do
  let census ← s.census x
  .ok (cloneOf s.count census.places x,
    ⟨s.nodes ++ census.order.map (s.cloneNode census.places)⟩)

end Store
end SlotTree
