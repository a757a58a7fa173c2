import SlotTree.Ancestry.Basic
import SlotTree.Walk.Occurrences

/-!
Searching a tree for a node, by identity. The walk goes down slot by slot and child by child, and
the first path found is the answer; the root itself is found at once, by the path without steps.
A search that fails notes it down.

The stack has a frame for each node on the way down, the deepest one on top. A frame knows which
children are still to come, and the slot and the position of the one that was taken last; once the
target is among the children, these are the path.
-/

namespace SlotTree

structure SearchFrame where
  node : NodeId
  remaining : List Edge
  slot : Int
  position : Int

def SearchFrame.start (s : Store) (x : NodeId) : SearchFrame := ⟨x, s.edges x, -1, -1⟩

def Ancestry.ofFrames (target : NodeId) (frames : List SearchFrame) : Ancestry :=
  ⟨target, frames.map SearchFrame.node, frames.map SearchFrame.slot,
    frames.map SearchFrame.position⟩

namespace Store

open Worklist

private def pendingBudgets (frames : List (Nat × SearchFrame)) : List Nat :=
  frames.flatMap fun (budget, frame) => List.replicate frame.remaining.length budget

private theorem shrinks_of_push {s : Store} {budget x : Nat} (edge : Edge) (edges : List Edge)
    (room : ¬ (budget = 0 ∧ s.edges edge.child ≠ [])) (slot position slot' position' : Int)
    (frames : List (Nat × SearchFrame)) :
    Shrinks
      (pendingBudgets ((budget - 1, .start s edge.child) ::
        (budget, ⟨x, edges, slot, position⟩) :: frames))
      (pendingBudgets ((budget, ⟨x, edge :: edges, slot', position'⟩) :: frames)) := by
  simp only [pendingBudgets, SearchFrame.start, List.flatMap_cons, List.length_cons,
    List.replicate_succ, List.cons_append]
  cases budget with
  | zero =>
    have childless : s.edges edge.child = [] := by simpa using room
    rw [childless]
    exact .done 0 _
  | succ budget => exact .spent budget _ _

/-- Works the frames off. The budget of a frame is the number of generations of frames that may
still be put upon it. -/
def searchFrames (s : Store) (root target : NodeId) :
    List (Nat × SearchFrame) → Option (Except Fault Ancestry)
  | [] => some (.error (.unreachable target root))
  | (_, ⟨_, [], _, _⟩) :: frames => s.searchFrames root target frames
  | (budget, ⟨x, edge :: edges, _, _⟩) :: frames =>
    let frame : SearchFrame := ⟨x, edges, edge.slot, edge.index⟩
    if edge.child = target then
      some (.ok (.ofFrames target (frame :: frames.map fun (_, waiting) => waiting)))
    else if budget = 0 ∧ s.edges edge.child ≠ [] then none
    else s.searchFrames root target ((budget - 1, .start s edge.child) :: (budget, frame) :: frames)
termination_by frames => (pendingBudgets frames, frames.length)
decreasing_by
  · exact .right _ (Nat.lt_succ_self _)
  · exact .left _ _ (shrinks_of_push edge edges ‹_› _ _ _ _ frames)

def searchFrom (s : Store) (root target : NodeId) : Except Fault Ancestry :=
  if root = target then .ok (.ofFrames target [])
  else finished (s.searchFrames root target [(s.count, .start s root)])

def locate (s : Store) (root target : Option NodeId) : Logged Ancestry :=
  match root, target with
  | none, _ => ⟨.error (.missingArgument "root"), []⟩
  | some _, none => ⟨.error (.missingArgument "target"), []⟩
  | some root, some target =>
    match s.searchFrom root target with
    | .error (.unreachable t r) => ⟨.error (.unreachable t r), [.unreachable t r]⟩
    | outcome => ⟨outcome, []⟩

end Store
end SlotTree
