import SlotTree.Compare.Equality
import SlotTree.Compare.Fingerprint

/-!
Dropping duplicates from a list of nodes: a node is kept when no kept node has the same hash and is
equal to it. So of equal nodes the first stays, and the first node that cannot be hashed is the
error. A missing node is equal to itself only, and stays once.

The hash only narrows the search; unequal nodes may share one.
-/

namespace SlotTree.Store

variable {H : Type} [DecidableEq H]

def isKept (s : Store) (x : Option NodeId) (hash : Option H) :
    List (Option NodeId × Option H) → Except Fault Bool
  | [] => .ok false
  | (y, other) :: kept =>
    if hash = other then
      match s.equal y x with
      | .ok true => .ok true
      | .ok false => s.isKept x hash kept
      | .error e => .error e
    else s.isKept x hash kept

/-- Goes on with the nodes that are left, over those kept so far, the latest first. -/
def distinctAfter (s : Store) (hashing : Hashing H) (kept : List (Option NodeId × Option H)) :
    List (Option NodeId) → Except Fault (List (Option NodeId))
  | [] => .ok (kept.reverse.map Prod.fst)
  | x :: xs => do
    let hash ← s.hashWith? hashing x
    if ← s.isKept x hash kept then s.distinctAfter hashing kept xs
    else s.distinctAfter hashing ((x, hash) :: kept) xs

def distinctWith (s : Store) (hashing : Hashing H) (nodes : List (Option NodeId)) :
    Except Fault (List (Option NodeId)) :=
  s.distinctAfter hashing [] nodes

def distinct (s : Store) (nodes : List (Option NodeId)) : Except Fault (List (Option NodeId)) :=
  s.distinctWith .skeleton nodes

end SlotTree.Store
