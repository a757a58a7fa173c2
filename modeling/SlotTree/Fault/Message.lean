import SlotTree.Store.Basic
import SlotTree.Payload.Literal

/-!
The wording of descriptions, of faults, and of what operations note down beside their answer. A node
is described by its kind, its payload and its number of slots, none of which ever changes, so a
description may be taken at any later time.
-/

namespace SlotTree
namespace Store

def describe (s : Store) (x : NodeId) : String :=
  let name := match s.kind x with
    | .growable => "TreeNode"
    | .frozen => "FrozenTreeNode"
  name ++ "(data=" ++ (s.payload x).literal ++ ", property_count=" ++
    toString (s.slotCount x) ++ ")"

def describe? (s : Store) : Option NodeId → String
  | none => "None"
  | some x => s.describe x

end Store

def Fault.message (s : Store) : Fault → String
  | missingArgument name => name ++ " must not be None"
  | negativeSlotCount count => "property_count must be >= 0, got " ++ toString count
  | slotRange slot count =>
    "property index " ++ toString slot ++ " out of range for node with " ++ toString count ++
      " properties"
  | childRange index slot count =>
    "child index " ++ toString index ++ " out of range for property " ++ toString slot ++
      " with " ++ toString count ++ " children"
  | frozenNode => "cannot add a child to a frozen node"
  | unreachable target root =>
    "target node " ++ s.describe target ++ " is not reachable from root " ++ s.describe root
  | secondShorter => "zip() argument 2 is shorter than argument 1"
  | secondLonger => "zip() argument 2 is longer than argument 1"
  | emptyMarker => "sub_node_prefix must be a non-empty string"
  | lineBreak field value =>
    field ++ " must not contain line breaks, got " ++ Text.quoted value
  | fixedField field => "cannot assign to field " ++ Text.quoted field
  | unhashable typeName => "unhashable type: " ++ Text.quoted typeName
  | notMember node? => s.describe? node?
  | emptySet => ""
  | refused actor payload => actor ++ " refused " ++ payload.literal
  | missingEntry node => "no entry for " ++ s.describe node
  | endless => "the walk never ends"

inductive LogEvent where
  | copied (nodes : Nat)
  | copiedTracking (nodes remapped tracked : Nat) (currentFound : Bool)
  | unreachable (target root : NodeId)
  deriving DecidableEq, Repr

def LogEvent.line (s : Store) : LogEvent → String
  | copied nodes => "Deep-copied " ++ toString nodes ++ " nodes"
  | copiedTracking nodes remapped tracked currentFound =>
    "Deep-copied " ++ toString nodes ++ " nodes, remapped " ++ toString remapped ++ " of " ++
      toString tracked ++ " references (current found: " ++
      (if currentFound then "True" else "False") ++ ")"
  | unreachable target root =>
    "Target " ++ s.describe target ++ " not reachable from root " ++ s.describe root

/-- An outcome and the events on the way to it. -/
structure Logged (α : Type) where
  outcome : Except Fault α
  log : List LogEvent

end SlotTree
