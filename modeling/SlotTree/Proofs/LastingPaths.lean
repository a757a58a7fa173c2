import SlotTree.Proofs.AppendOnly
import SlotTree.Proofs.FirstPaths

/-!
Paths that were found last. What a search answers is a trail that really leads from the root to the
target, whether the store has cycles or not; slots only grow at their ends, so the trail leads there
in every later store too. A later search may find another path, but the old one is still walked.
-/

namespace SlotTree.Store

variable {s t : Store} {root target x : NodeId} {trail : Trail} {a : Ancestry}

theorem Extends.leadsTo (grown : s.Extends t) (leads : s.LeadsTo root trail x) :
    t.LeadsTo root trail x := by
  induction leads with
  | nil => exact .nil
  | cons _ at_child ih => exact .cons ih (grown.childAt at_child)

def Trailed (s : Store) (root : NodeId) (tasks : List SearchTask) : Prop :=
  ∀ task ∈ tasks, s.LeadsTo root task.trail task.node

theorem Trailed.visit {task : SearchTask} {rest : List SearchTask}
    (trailed : s.Trailed root (task :: rest)) :
    s.Trailed root (searchTasks task.trail task.node (s.edges task.node) ++ rest) := by
  have here := trailed task List.mem_cons_self
  intro later mem
  obtain below | behind := List.mem_append.1 mem
  · obtain ⟨e, he, rfl⟩ := List.mem_map.1 below
    exact .cons here (childAt_of_mem_edges he)
  · exact trailed later (List.mem_cons_of_mem task behind)

def Answered (s : Store) (root target : NodeId) (answer : Except Fault Ancestry) : Prop :=
  ∀ a, answer = .ok a → ∃ trail, s.LeadsTo root trail target ∧ a = .ofTrail target trail

theorem leadsTo_of_searchFrom (run : s.searchFrom root target = .ok a) :
    ∃ trail, s.LeadsTo root trail target ∧ a = .ofTrail target trail := by
  rw [searchFrom_eq_walk] at run
  have sound : s.Answered root target (.ok a) := by
    refine Worklist.drain_answers (fun _ => s.Trailed root) ?stop ?next ?last ?start
      (finished_eq_ok_iff.1 run)
    case stop =>
      intro _ task rest answer trailed visited found eq
      unfold searchVisit at visited
      split at visited
      · rename_i here
        cases visited
        cases eq
        exact ⟨task.trail, here ▸ trailed task List.mem_cons_self, rfl⟩
      · cases visited
    case next =>
      intro _ task rest _ tasks trailed visited
      unfold searchVisit at visited
      split at visited
      · cases visited
      · cases visited
        exact trailed.visit
    case last =>
      intro _ _ found eq
      cases eq
    case start =>
      intro task mem
      rw [List.mem_singleton.1 mem]
      exact .nil
  exact sound a rfl

theorem searchFrom_of_locate (found : (s.locate (some root) (some target)).outcome = .ok a) :
    s.searchFrom root target = .ok a := by
  unfold locate at found
  split at found
  · cases found
  · cases found
  · rename_i eq eq'
    cases eq
    cases eq'
    split at found
    · cases found
    · exact found

/-- A path that was found at some time leads to its target ever after, and out of each ancestor to
the next node down, whatever is done to the store in between. -/
theorem found_path_lasts {s t : Store} (closed : s.Closed) {root target : NodeId} {a : Ancestry}
    (found : (s.locate (some root) (some target)).outcome = .ok a) (run : Run s t) :
    a.retrace t = .ok target ∧
    ∀ (i : Nat) (x : NodeId), a.ancestors[i]? = some x → ∃ slot index y,
      a.slots[i]? = some slot ∧ a.positions[i]? = some index ∧
      (target :: a.ancestors)[i]? = some y ∧ t.readChild x index slot = .ok y := by
  obtain ⟨trail, leads, rfl⟩ := leadsTo_of_searchFrom (searchFrom_of_locate found)
  have later := (run.extends closed).leadsTo leads
  exact ⟨Ancestry.retrace_ofTrail later, fun i x => Ancestry.readChild_ofTrail later⟩

def shoot : Store := ⟨#[
  ⟨.growable, .value .null, #[]⟩,
  ⟨.growable, .value .null, #[#[0]]⟩,
  ⟨.growable, .value .null, #[#[], #[1]]⟩]⟩

def overshot : Store := ⟨#[
  ⟨.growable, .value .null, #[]⟩,
  ⟨.growable, .value .null, #[#[0, 0]]⟩,
  ⟨.growable, .value .null, #[#[0], #[1]]⟩]⟩

theorem run_overshot : Run shoot overshot :=
  .step (.append 2 (some 0) 0) (by decide) <|
  .step (.append 0 (some 2) 0) (by decide) <|
  .step (.append 1 (some 0) 0) (by decide) <| .refl overshot

theorem found_path_lasts_overshot :
    shoot.Closed ∧ Run shoot overshot ∧
    (shoot.locate (some 2) (some 0)).outcome = .ok ⟨0, [1, 2], [0, 1], [0, 0]⟩ ∧
    (overshot.locate (some 2) (some 0)).outcome = .ok ⟨0, [2], [0], [0]⟩ ∧
    Ancestry.retrace overshot ⟨0, [1, 2], [0, 1], [0, 0]⟩ = .ok 0 ∧
    overshot.readChild 2 0 1 = .ok 1 ∧ overshot.readChild 1 0 0 = .ok 0 := by
  have closed : shoot.Closed := (closed_acyclic_of_children_lt (s := shoot) (by decide)).1
  have found : (shoot.locate (some 2) (some 0)).outcome = .ok ⟨0, [1, 2], [0, 1], [0, 0]⟩ := by
    cbv
  have fresh : (overshot.locate (some 2) (some 0)).outcome = .ok ⟨0, [2], [0], [0]⟩ := by cbv
  obtain ⟨retraced, steps⟩ := found_path_lasts closed found run_overshot
  obtain ⟨_, _, _, ⟨⟩, ⟨⟩, ⟨⟩, outOfRoot⟩ := steps 1 2 rfl
  obtain ⟨_, _, _, ⟨⟩, ⟨⟩, ⟨⟩, outOfNode⟩ := steps 0 1 rfl
  exact ⟨closed, run_overshot, found, fresh, retraced, outOfRoot, outOfNode⟩

end SlotTree.Store
