import SlotTree.Copy.Unfold
import SlotTree.Fault.Message
import SlotTree.OrderedSet

/-!
Copies of trees, and copies that carry references along. A reference to a source node becomes one
reference for each place where that node stands in the tree, in the order in which the copies were
made; a reference to a node outside the tree is dropped. The current reference goes to the last
copy made of its node.
-/

namespace SlotTree

/-- Nodes by identity, in order of arrival; one member may be the missing node. -/
abbrev References := OrderedSet (Option NodeId)

structure TrackedTree where
  root : NodeId
  references : References
  current : Option NodeId
  deriving DecidableEq

namespace TrackedTree

def bare (root : NodeId) : TrackedTree := ⟨root, .empty, none⟩

end TrackedTree

namespace Copying

/-- Takes a pair into account: its copy is a reference if its source is one, and the current
reference if its source is that. -/
def track (tracked : References) (current : Option NodeId) (tree : TrackedTree) (pair : CopyPair) :
    TrackedTree :=
  { tree with
    references :=
      if some pair.source ∈ tracked then tree.references.insert (some pair.copy)
      else tree.references
    current := if current = some pair.source then some pair.copy else tree.current }

end Copying

namespace Store

def copyTree (s : Store) (node : Option NodeId) : Logged (NodeId × Store) :=
  match Fault.given "node" node >>= s.unfoldCopy with
  | .error e => ⟨.error e, []⟩
  | .ok (copy, copying) => ⟨.ok (copy, copying.store), [.copied copying.pairs.size]⟩

def copyTracking (s : Store) (node : Option NodeId) (references : Option References)
    (current : Option NodeId) : Logged (TrackedTree × Store) :=
  match node, references with
  | none, _ => ⟨.error (.missingArgument "node"), []⟩
  | some _, none => ⟨.error (.missingArgument "references"), []⟩
  | some x, some tracked =>
    match s.unfoldCopy x with
    | .error e => ⟨.error e, []⟩
    | .ok (copy, copying) =>
      let tree := copying.pairs.foldl (Copying.track tracked current) (.bare copy)
      ⟨.ok (tree, copying.store),
        [.copiedTracking copying.pairs.size tree.references.size tracked.size tree.current.isSome]⟩

def describePair (s : Store) (pair : CopyPair) : String :=
  "NodePair(from_node=" ++ s.describe pair.source ++ ", to_node=" ++ s.describe pair.copy ++ ")"

def describeReferences (s : Store) (set : References) : String :=
  "NodeSet([" ++ ", ".intercalate (set.toList.map s.describe?) ++ "])"

def describeTracked (s : Store) (tree : TrackedTree) : String :=
  "NodeWithRef(node=" ++ s.describe tree.root ++
    ", references=" ++ s.describeReferences tree.references ++
    ", current_reference=" ++ s.describe? tree.current ++ ")"

end Store
end SlotTree
