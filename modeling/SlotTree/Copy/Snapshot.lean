import Std.Data.HashMap
import SlotTree.Walk.Occurrences

/-!
Snapshots. Every node of the tree, frozen or not, is rebuilt as a frozen node, children first, and
a table tells which frozen node stands for which source node. A node that stands in several places
is rebuilt in each of them and its entry replaced; a parent takes the entries as they are when its
turn comes. So places under one parent share what the source shares there, while places under
parents that were finished at different times may not.

A frozen node is its own snapshot.
-/

namespace SlotTree

structure Rebuilding where
  store : Store
  table : Std.HashMap NodeId NodeId

namespace Rebuilding

def lookup (table : Std.HashMap NodeId NodeId) (x : NodeId) : Except Fault NodeId :=
  match table[x]? with
  | some y => .ok y
  | none => .error (.missingEntry x)

/-- Rebuilds one node over the entries of its children. -/
def rebuild : Rebuilding → NodeId → Except Fault Rebuilding
  | ⟨store, table⟩, x => do
    let n := store.node x
    let slots ← n.slots.mapM fun slot => slot.mapM (lookup table)
    let (y, store) := store.newFrozen n.payload slots
    .ok ⟨store, table.insert x y⟩

end Rebuilding

namespace Store

def rebuildFrozen (s : Store) (x : NodeId) : Except Fault (NodeId × Store) := do
  let snap ← s.postFold s.children Rebuilding.rebuild ⟨s, ∅⟩ x
  let y ← Rebuilding.lookup snap.table x
  .ok (y, snap.store)

def snapshot (s : Store) (x : NodeId) : Except Fault (NodeId × Store) :=
  match s.kind x with
  | .frozen => .ok (x, s)
  | .growable => s.rebuildFrozen x

end Store
end SlotTree
