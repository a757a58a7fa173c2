import SlotTree.Compare.Equality
import SlotTree.Fault.Message

/-!
A path from a target up to a root: the ancestors, nearest first and the root last, and for each the
slot and the position at which the next node down stands. `retrace` walks it down again, from the
far ends of the lists.

The lists may be given freely, of any length and with any numbers; then `retrace` answers for as
many steps as both have, and reports the first that leads nowhere before it reports that one of the
lists is longer.
-/

namespace SlotTree

structure Ancestry where
  target : NodeId
  ancestors : List NodeId
  slots : List Int
  positions : List Int
  deriving DecidableEq, Repr

structure TrailStep where
  parent : NodeId
  slot : Nat
  index : Nat
  deriving DecidableEq, Repr

/-- The steps down to a node, the nearest first. -/
abbrev Trail := List TrailStep

namespace Ancestry

def length (a : Ancestry) : Nat := a.ancestors.length

def ofTrail (target : NodeId) (trail : Trail) : Ancestry :=
  ⟨target, trail.map TrailStep.parent, trail.map fun step => (step.slot : Int),
    trail.map fun step => (step.index : Int)⟩

/-- Walks down along slots and positions side by side. -/
def retraceSteps (s : Store) (x : NodeId) : List Int → List Int → Except Fault NodeId
  | [], [] => .ok x
  | slot :: slots, index :: positions =>
    match s.readChild x index slot with
    | .ok child => retraceSteps s child slots positions
    | .error e => .error e
  | _ :: _, [] => .error .secondShorter
  | [], _ :: _ => .error .secondLonger

/-- The node that the path leads to from its root; without ancestors it is the target. -/
def retrace (s : Store) (a : Ancestry) : Except Fault NodeId :=
  match a.ancestors.getLast? with
  | none => .ok a.target
  | some root => retraceSteps s root a.slots.reverse a.positions.reverse

def equalNodes (s : Store) : List NodeId → List NodeId → Except Fault Bool
  | [], [] => .ok true
  | x :: xs, y :: ys =>
    match s.equalNodes x y with
    | .ok true => equalNodes s xs ys
    | other => other
  | _, _ => .ok false

def equal (s : Store) (a b : Ancestry) : Except Fault Bool := do
  let nodes ← equalNodes s (a.target :: a.ancestors) (b.target :: b.ancestors)
  .ok (nodes && decide (a.slots = b.slots ∧ a.positions = b.positions))

def enclosed : List String → String
  | [item] => "(" ++ item ++ ",)"
  | items => "(" ++ ", ".intercalate items ++ ")"

def describe (s : Store) (a : Ancestry) : String :=
  "NodeParents(target_node=" ++ s.describe a.target ++
    ", through_nodes=" ++ enclosed (a.ancestors.map s.describe) ++
    ", next_property=" ++ enclosed (a.slots.map toString) ++
    ", next_child_num=" ++ enclosed (a.positions.map toString) ++ ")"

end Ancestry
end SlotTree
