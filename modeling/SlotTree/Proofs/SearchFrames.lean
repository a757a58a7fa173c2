import SlotTree.Ancestry.Search
import SlotTree.Worklist

/-!
The search as a walk over tasks. A task is a node still to be looked at, with the whole trail that
led to it, and visiting a node puts all its children in front of the other tasks. The frames of the
search come to the same on every store: what they hold, frame by frame, are the tasks still to be
done, and the trail of a frame's children is spelled by the frames below it.
-/

namespace SlotTree

structure SearchTask where
  trail : Trail
  node : NodeId

namespace Store

def searchTasks (trail : Trail) (x : NodeId) (edges : List Edge) : List SearchTask :=
  edges.map fun edge => ⟨⟨x, edge.slot, edge.index⟩ :: trail, edge.child⟩

def searchVisit (s : Store) (target : NodeId) (_ : Unit) (task : SearchTask) :
    Step Unit SearchTask (Except Fault Ancestry) :=
  if task.node = target then .stop (.ok (.ofTrail target task.trail))
  else .next () (searchTasks task.trail task.node (s.edges task.node))

theorem searchVisit_other {s : Store} {x target : NodeId} (other : x ≠ target) (trail : Trail) :
    s.searchVisit target () ⟨trail, x⟩ = .next () (searchTasks trail x (s.edges x)) := by
  rw [searchVisit, if_neg other]

def framesTrail (frames : List (Nat × SearchFrame)) : Trail :=
  frames.map fun (_, frame) => ⟨frame.node, frame.slot.toNat, frame.position.toNat⟩

/-- What the frames have still to do. -/
def framesTasks : List (Nat × SearchFrame) → List (Nat × SearchTask)
  | [] => []
  | (budget, frame) :: frames =>
    (searchTasks (framesTrail frames) frame.node frame.remaining).map (Prod.mk budget) ++
      framesTasks frames

def AllTaken (frames : List (Nat × SearchFrame)) : Prop :=
  ∀ e ∈ frames, ∃ slot position : Nat, e.2.slot = slot ∧ e.2.position = position

theorem ofFrames_of_allTaken {frames : List (Nat × SearchFrame)} (taken : AllTaken frames)
    (target : NodeId) :
    Ancestry.ofFrames target (frames.map fun (_, frame) => frame) =
      .ofTrail target (framesTrail frames) := by
  have slots : ∀ e ∈ frames, e.2.slot = (e.2.slot.toNat : Int) := by
    intro e he
    obtain ⟨slot, position, hslot, -⟩ := taken e he
    simp [hslot]
  have positions : ∀ e ∈ frames, e.2.position = (e.2.position.toNat : Int) := by
    intro e he
    obtain ⟨slot, position, -, hposition⟩ := taken e he
    simp [hposition]
  rw [Ancestry.ofFrames, Ancestry.ofTrail, framesTrail]
  simp only [List.map_map]
  congr 1
  · exact List.map_congr_left slots
  · exact List.map_congr_left positions

/-- Frames and tasks give one answer. Only the top frame may not have taken a child yet. -/
theorem searchFrames_eq_drain (s : Store) (root target : NodeId)
    (frames : List (Nat × SearchFrame)) (taken : AllTaken frames.tail) :
    s.searchFrames root target frames = Worklist.drain (s.searchVisit target)
      (fun _ => .error (.unreachable target root)) () (framesTasks frames) := by
  fun_induction searchFrames s root target frames with
  | case1 => simp [framesTasks]
  | case2 budget x slot position frames ih =>
    exact ih fun e he => taken e (List.mem_of_mem_tail he)
  | case3 budget x edge edges slot position frames frame found =>
    have all : AllTaken ((budget, frame) :: frames) :=
      List.forall_mem_cons.2 ⟨⟨edge.slot, edge.index, rfl, rfl⟩, taken⟩
    have answer : s.searchVisit target () ⟨framesTrail ((budget, frame) :: frames), edge.child⟩ =
        .stop (.ok (.ofTrail target (framesTrail ((budget, frame) :: frames)))) := if_pos found
    rw [← ofFrames_of_allTaken all] at answer
    exact (Worklist.drain_stop _ _ answer budget _).symm
  | case4 budget x edge edges slot position frames other spent =>
    obtain ⟨rfl, children⟩ := spent
    have visit := searchVisit_other (s := s) other
      (⟨x, edge.slot, edge.index⟩ :: framesTrail frames)
    exact (Worklist.drain_exhausted _ _ visit (by simpa [searchTasks] using children) _).symm
  | case5 budget x edge edges slot position frames frame other room ih =>
    have all : AllTaken ((budget, frame) :: frames) :=
      List.forall_mem_cons.2 ⟨⟨edge.slot, edge.index, rfl, rfl⟩, taken⟩
    have visit := searchVisit_other (s := s) other (framesTrail ((budget, frame) :: frames))
    rw [ih all]
    cases budget with
    | zero =>
      -- without a budget a frame is put up only to be taken off again, as it has no children
      have childless : s.edges edge.child = [] := by simpa using room
      rw [childless] at visit
      refine Eq.trans ?_ (Worklist.drain_done _ _ visit 0 _).symm
      simp only [framesTasks, SearchFrame.start, childless]
      rfl
    | succ budget => exact (Worklist.drain_next _ _ visit budget _).symm

theorem walk_eq_searchFrames {s : Store} {root target : NodeId} (other : root ≠ target) :
    Worklist.walk (s.searchVisit target) (fun _ => .error (.unreachable target root)) s.depthBound
      () ⟨[], root⟩ = s.searchFrames root target [(s.count, .start s root)] := by
  rw [searchFrames_eq_drain s root target _ (by simp [AllTaken]), Worklist.walk, depthBound,
    Worklist.drain_next _ _ (searchVisit_other other [])]
  rfl

/-- The search answers as the walk over tasks does that starts at the root. -/
theorem searchFrom_eq_walk (s : Store) (root target : NodeId) :
    s.searchFrom root target = finished (Worklist.walk (s.searchVisit target)
      (fun _ => .error (.unreachable target root)) s.depthBound () ⟨[], root⟩) := by
  by_cases here : root = target
  · have answer : s.searchVisit target () ⟨[], root⟩ = .stop (.ok (.ofTrail target [])) :=
      if_pos here
    rw [searchFrom, if_pos here, Worklist.walk, Worklist.drain_stop _ _ answer]
    rfl
  · rw [searchFrom, if_neg here, walk_eq_searchFrames here]

end Store
end SlotTree
