import SlotTree.Proofs.ChildrenFirst
import SlotTree.Proofs.Steps
import SlotTree.Render.Lines

/-!
A tree from the top, slot by slot, as a recursion over places: a place is a path with the node at
its end. Rendering writes a line for each place in this order. The line begins with the lead of the
root and one mark for each step of the path, and a converter that fails ends the rendering at the
first place whose payload it fails on.
-/

namespace SlotTree

def RenderStyle.leadAt (style : RenderStyle) (lead : String) (p : Path) : String :=
  p.foldl (fun lead step => style.below lead step.1) lead

namespace Store

variable {s : Store} {x y : NodeId}

def places (s : Store) (acyclic : s.Acyclic) (x : NodeId) : List (Path × NodeId) :=
  ([], x) :: (s.edges x).attach.flatMap fun e =>
    (places s acyclic e.1.child).map (Prod.map (e.1.step :: ·) id)
termination_by s.rank x
decreasing_by exact acyclic.rank_lt (child_of_mem_edges e.2)

variable (acyclic : s.Acyclic)

theorem places_eq (x : NodeId) :
    s.places acyclic x = ([], x) :: (s.edges x).flatMap fun e =>
      (s.places acyclic e.child).map (Prod.map (e.step :: ·) id) := by
  rw [places]
  congr 1
  exact List.flatMap_subtype (fun _ _ => rfl) |>.trans (by rw [List.unattach_attach])

@[simp] theorem mem_places {place : Path × NodeId} :
    place ∈ s.places acyclic x ↔ s.nodeAt x place.1 = some place.2 := by
  obtain ⟨p, y⟩ := place
  induction x using acyclic.induction generalizing p with
  | step x ih =>
    rw [places_eq]
    cases p with
    | nil =>
      rw [nodeAt, Option.some.injEq, eq_comm]
      simp
    | cons step p =>
      rw [nodeAt_cons_eq_some_iff]
      simp only [List.mem_cons, Prod.mk.injEq, reduceCtorEq, false_and, false_or,
        List.mem_flatMap, List.mem_map, Prod.map_apply, id_eq, Prod.exists]
      refine exists_congr fun e => and_congr_right fun he => ?_
      rw [← ih e.child (child_of_mem_edges he)]
      constructor
      · rintro ⟨q, z, mem, eq, rfl⟩
        obtain ⟨here, rfl⟩ := List.cons.inj eq
        exact ⟨here, mem⟩
      · rintro ⟨rfl, mem⟩
        exact ⟨p, y, mem, rfl, rfl⟩

theorem reaches_of_mem_places {place : Path × NodeId} (mem : place ∈ s.places acyclic x) :
    s.Reaches x place.2 :=
  reaches_iff_nodeAt.2 ⟨place.1, (mem_places acyclic).1 mem⟩

/-! Rendering with its stack. -/

variable {convert : Converter} {style : RenderStyle}

def renderLines (s : Store) (acyclic : s.Acyclic) (style : RenderStyle) (task : RenderTask) :
    List RenderTask :=
  (s.places acyclic task.node).map fun place => ⟨style.leadAt task.lead place.1, place.2⟩

theorem renderLines_eq (task : RenderTask) :
    s.renderLines acyclic style task =
      task :: (renderTasks style task.lead (s.edges task.node)).flatMap
        (s.renderLines acyclic style) := by
  rw [renderLines, places_eq, List.map_cons, List.map_flatMap, renderTasks, List.flatMap_map]
  simp only [renderLines, List.map_map]
  rfl

def writeLine (s : Store) (convert : Converter) (written : String) (line : RenderTask) :
    Except Fault String :=
  (convert (s.payload line.node)).map fun text => written ++ line.lead ++ text ++ "\n"

/-- Working off `tasks` writes `lines`, behind whatever has been written. -/
def Writes (s : Store) (convert : Converter) (style : RenderStyle)
    (tasks lines : List RenderTask) : Prop :=
  ∀ written, Worklist.Ends (s.renderVisit convert style) (fun task => s.rank task.node) written
    tasks (foldEnding (lines.foldlM (s.writeLine convert) written))

theorem Writes.all {tasks : List RenderTask} {lines : RenderTask → List RenderTask}
    (each : ∀ task ∈ tasks, s.Writes convert style [task] (lines task)) :
    s.Writes convert style tasks (tasks.flatMap lines) := by
  induction tasks with
  | nil => exact fun written => .nil written
  | cons task tasks ih =>
    have others := ih fun task' mem => each task' (List.mem_cons_of_mem task mem)
    intro written
    rw [List.flatMap_cons, foldEnding_append]
    exact (each task List.mem_cons_self written).bind others

include acyclic in
theorem rank_lt_of_mem_renderTasks {lead : String} {task : RenderTask}
    (mem : task ∈ renderTasks style lead (s.edges x)) : s.rank task.node < s.rank x := by
  obtain ⟨e, he, rfl⟩ := List.mem_map.1 mem
  exact acyclic.rank_lt (child_of_mem_edges he)

theorem writes (task : RenderTask) :
    s.Writes convert style [task] (s.renderLines acyclic style task) := by
  obtain ⟨lead, x⟩ := task
  induction x using acyclic.induction generalizing lead with
  | step x ih =>
    have below : s.Writes convert style (renderTasks style lead (s.edges x))
        ((renderTasks style lead (s.edges x)).flatMap (s.renderLines acyclic style)) := by
      refine .all fun task mem => ?_
      obtain ⟨e, he, rfl⟩ := List.mem_map.1 mem
      exact ih e.child (child_of_mem_edges he) _
    intro written
    rw [renderLines_eq, List.foldlM_cons, writeLine]
    cases converted : convert (s.payload x) with
    | error e =>
      refine .stop [] ?_
      simp [renderVisit, converted]
    | ok text =>
      have visited : s.renderVisit convert style written ⟨lead, x⟩ =
          .next (written ++ lead ++ text ++ "\n") (renderTasks style lead (s.edges x)) := by
        simp only [renderVisit, converted]
      refine .next visited (fun task => rank_lt_of_mem_renderTasks acyclic) ?_
      rw [List.append_nil]
      exact below _

theorem renderFrom_eq_foldlM (x : NodeId) (lead : String) :
    s.renderFrom x convert style lead =
      (s.renderLines acyclic style ⟨lead, x⟩).foldlM (s.writeLine convert) "" := by
  have room : s.rank x ≤ s.depthBound := Nat.le_of_lt (s.rank_lt_depthBound x)
  have whole : s.Writes convert style [⟨lead, x⟩] (s.renderLines acyclic style ⟨lead, x⟩) :=
    writes acyclic ⟨lead, x⟩
  have walked := (whole "").walk .ok room
  rw [answer_foldEnding] at walked
  rw [renderFrom, walked]
  rfl

end Store
end SlotTree
