import SlotTree.Walk.Occurrences

/-!
Copying a tree into growable nodes, one for every place where a source node stands. A pair of a
source node and its copy waits until the copies of its children are made and attached, slot by slot
and in order; then the last child's pair is taken up first. The pairs are kept in the order in
which they came up.
-/

namespace SlotTree

structure CopyPair where
  source : NodeId
  copy : NodeId
  deriving DecidableEq, Repr

structure Copying where
  store : Store
  pairs : Array CopyPair

namespace Copying

/-- Attaches copies of some children to `parent`; the new pairs are returned, the latest first. -/
def attach (parent : NodeId) : Copying → List CopyPair → List Edge →
    Except Fault (Copying × List CopyPair)
  | copying, fresh, [] => .ok (copying, fresh)
  | ⟨store, pairs⟩, fresh, edge :: edges => do
    let (copy, store) ← store.newLike (some edge.child)
    let store ← store.append parent (some copy) edge.slot
    attach parent ⟨store, pairs.push ⟨edge.child, copy⟩⟩ (⟨edge.child, copy⟩ :: fresh) edges

def visit (copying : Copying) (pair : CopyPair) :
    Step Copying CopyPair (Except Fault Copying) :=
  let edges := copying.store.edges pair.source
  match attach pair.copy copying [] edges with
  | .ok (copying, fresh) => .next copying fresh
  | .error e => .stop (.error e)

end Copying

def Store.unfoldCopy (s : Store) (x : NodeId) : Except Fault (NodeId × Copying) := do
  let (copy, store) ← s.newLike (some x)
  let root : CopyPair := ⟨x, copy⟩
  let bound := store.depthBound
  let copying ← Store.finished (Worklist.walk Copying.visit .ok bound ⟨store, #[root]⟩ root)
  .ok (copy, copying)

end SlotTree
