import SlotTree.Store.Node

/-!
Every way an operation can fail, by cause. The wording is in `SlotTree.Fault.Message`.

`missingEntry`, `endless`, and the uneven lists of a comparison are causes that no acyclic store
brings about; they are here so that the operations are total on every store.
-/

namespace SlotTree

inductive Fault where
  | missingArgument (name : String)
  | negativeSlotCount (count : Int)
  | slotRange (slot : Int) (count : Nat)
  | childRange (index slot : Int) (count : Nat)
  | frozenNode
  | unreachable (target root : NodeId)
  | secondShorter
  | secondLonger
  | emptyMarker
  | lineBreak (field value : String)
  | fixedField (field : String)
  | unhashable (typeName : String)
  | notMember (node : Option NodeId)
  | emptySet
  | refused (actor : String) (payload : Payload)
  | missingEntry (node : NodeId)
  /-- The walk would never end. -/
  | endless
  deriving DecidableEq, Repr

/-- The classes of faults that callers tell apart. -/
inductive FaultClass where
  | anyFault
  | missingArgument
  | frozenNode
  | slotIndex
  | unreachableTarget
  deriving DecidableEq, Repr

inductive Concern where
  | tree
  | type
  | index
  | value
  deriving DecidableEq, Repr

namespace FaultClass

def concerns : FaultClass → List Concern
  | anyFault => [.tree]
  | missingArgument | frozenNode => [.tree, .type]
  | slotIndex => [.tree, .index]
  | unreachableTarget => [.tree, .value]

end FaultClass

namespace Fault

/-- The class of a fault, for the faults of trees; those of plain values have none. -/
def faultClass : Fault → Option FaultClass
  | missingArgument _ => some .missingArgument
  | frozenNode => some .frozenNode
  | slotRange _ _ | childRange _ _ _ => some .slotIndex
  | unreachable _ _ => some .unreachableTarget
  | _ => none

def given {α : Type} (name : String) : Option α → Except Fault α
  | none => .error (.missingArgument name)
  | some x => .ok x

end Fault
end SlotTree
