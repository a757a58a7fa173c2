import SlotTree.Store.Path
import SlotTree.Worklist

/-!
Walks that meet a node once for every place where it stands.

A walk that meets more nodes one below the other than there are has met one of them twice, and a
walk of pairs that meets more pairs than there are has met one pair twice; what it did below the
first it does again below the second. That bounds how deep a walk may go before it is sure never to
end.

The size of a tree is such a walk. Another one goes children first: a node is met twice, at first
its children are put in front of it, and when they are done it is handed to a fold. The fold may
fail, and then nothing further is visited.
-/

namespace SlotTree.Store

/-- Room for every node of the store, one below the other, and an absent one below them. -/
def depthBound (s : Store) : Nat := s.count + 1

def pairBound (s : Store) : Nat := s.count * s.count + 1

/-- The answer of a walk, or the error that it never ends. -/
def finished {α : Type} : Option (Except Fault α) → Except Fault α
  | some answer => answer
  | none => .error .endless

@[simp] theorem finished_eq_ok_iff {α : Type} {answer? : Option (Except Fault α)} {a : α} :
    finished answer? = .ok a ↔ answer? = some (.ok a) := by
  cases answer? with
  | none => simp [finished]
  | some answer => simp [finished]

/-- The children of a node are counted when it is taken up, and wait with the last one on top. -/
def countVisit (s : Store) (n : Nat) (x : NodeId) : Step Nat NodeId (Except Fault Nat) :=
  .next (n + (s.children x).length) (s.children x).reverse

def countFrom (s : Store) (x : NodeId) : Except Fault Nat :=
  finished (Worklist.walk s.countVisit .ok s.depthBound 1 x)

def occurrences (s : Store) (node : Option NodeId) : Except Fault Nat :=
  Fault.given "node" node >>= s.countFrom

inductive PostTask where
  | enter (x : NodeId)
  | leave (x : NodeId)

def postVisit {β : Type} (below : NodeId → List NodeId) (f : β → NodeId → Except Fault β)
    (acc : β) : PostTask → Step β PostTask (Except Fault β)
  | .enter x => .next acc ((below x).map .enter ++ [.leave x])
  | .leave x =>
    match f acc x with
    | .ok acc => .next acc []
    | .error e => .stop (.error e)

/-- Folds over the nodes under `root` that `below` leads to, each after those below it. -/
def postFold {β : Type} (s : Store) (below : NodeId → List NodeId)
    (f : β → NodeId → Except Fault β) (init : β) (root : NodeId) : Except Fault β :=
  finished (Worklist.walk (postVisit below f) .ok s.depthBound init (.enter root))

def postOrder (s : Store) (below : NodeId → List NodeId) (root : NodeId) :
    Except Fault (Array NodeId) :=
  s.postFold below (fun seen x => .ok (seen.push x)) #[] root

end SlotTree.Store
