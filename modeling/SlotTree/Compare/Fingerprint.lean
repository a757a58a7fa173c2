import Std.Data.HashMap
import SlotTree.Compare.Skeleton
import SlotTree.Walk.Occurrences
import SlotTree.Payload.Literal

/-!
Hashes of trees, in any way of hashing. Only first slots are looked at, children before their
parents, and the payload of every node met has to be a scalar; the first that is not is the error.
A fingerprint is the hash that forgets nothing: two nodes have one fingerprint when their skeletons
are equal.
-/

namespace SlotTree

/-- The payload as a label, up to likeness. Arrays and objects are none. -/
def Payload.label (p : Payload) : Except Fault Payload :=
  if p.isScalar then .ok p.canonical else .error (.unhashable p.typeName)

/-- What is made of a node: of its label alone where it has no slots, and else of its label and
what was made of the nodes in its first slot. -/
structure Hashing (H : Type) where
  bare : Payload → H
  rooted : Payload → List H → H

def Hashing.skeleton : Hashing Skeleton := ⟨.bare, .rooted⟩

namespace Store

def firstChildren (s : Store) (x : NodeId) : List NodeId := (s.slot x 0).toList

abbrev HashTable (H : Type) := Std.HashMap NodeId H

def lookupHash {H : Type} (table : HashTable H) (x : NodeId) : Except Fault H :=
  match table[x]? with
  | some hash => .ok hash
  | none => .error (.missingEntry x)

def enterHash {H : Type} (s : Store) (hashing : Hashing H) (table : HashTable H) (x : NodeId) :
    Except Fault (HashTable H) := do
  if s.slotCount x = 0 then
    let label ← (s.payload x).label
    .ok (table.insert x (hashing.bare label))
  else
    let first ← (s.firstChildren x).mapM (lookupHash table)
    let label ← (s.payload x).label
    .ok (table.insert x (hashing.rooted label first))

def hashWith {H : Type} (s : Store) (hashing : Hashing H) (x : NodeId) : Except Fault H :=
  s.postFold s.firstChildren (s.enterHash hashing) ∅ x >>= fun table => lookupHash table x

def fingerprint (s : Store) (x : NodeId) : Except Fault Skeleton := s.hashWith .skeleton x

/-- The hash of a node that may be missing; what is missing has one that no node has. -/
def hashWith? {H : Type} (s : Store) (hashing : Hashing H) : Option NodeId → Except Fault (Option H)
  | none => .ok none
  | some x => (s.hashWith hashing x).map some

def fingerprint? (s : Store) (x : Option NodeId) : Except Fault (Option Skeleton) :=
  s.hashWith? .skeleton x

def sameFingerprint (s : Store) (x y : Option NodeId) : Except Fault Bool := do
  let a ← s.fingerprint? x
  let b ← s.fingerprint? y
  .ok (a == b)

end Store
end SlotTree
