import Mathlib.Data.List.Nodup
import SlotTree.Ancestry.Basic
import SlotTree.Proofs.Rank

/-!
Trails as walks downwards. A trail that leads from one node to another spells a path between them
from its far end, passes no node twice, and is walked again by the ancestry made of it.
-/

namespace SlotTree

/-- The path that a trail spells, read from its far end. -/
def Trail.path (trail : Trail) : Path := (trail.map fun step => (step.slot, step.index)).reverse

@[simp] theorem Trail.path_cons (step : TrailStep) (trail : Trail) :
    Trail.path (step :: trail) = Trail.path trail ++ [(step.slot, step.index)] := by
  rw [path, List.map_cons, List.reverse_cons, path]

theorem Trail.path_append_singleton (trail : Trail) (step : TrailStep) :
    Trail.path (trail ++ [step]) = (step.slot, step.index) :: Trail.path trail := by
  rw [path, List.map_append, List.reverse_append, path]
  rfl

inductive Store.LeadsTo (s : Store) (root : NodeId) : Trail → NodeId → Prop where
  | nil : LeadsTo s root [] root
  | cons {trail : Trail} {x y : NodeId} {slot index : Nat} :
      LeadsTo s root trail x → s.childAt x slot index = some y →
      LeadsTo s root (⟨x, slot, index⟩ :: trail) y

namespace Store.LeadsTo

variable {s : Store} {root x y : NodeId} {trail : Trail}

theorem nodeAt (leads : s.LeadsTo root trail x) :
    s.nodeAt root (Trail.path trail) = some x := by
  induction leads with
  | nil => rfl
  | cons _ at_child ih =>
    rw [Trail.path_cons, nodeAt_concat ih, at_child]

theorem append_singleton {child : NodeId} {slot index : Nat} (leads : s.LeadsTo child trail y)
    (at_child : s.childAt x slot index = some child) :
    s.LeadsTo x (trail ++ [⟨x, slot, index⟩]) y := by
  induction leads with
  | nil => exact .cons .nil at_child
  | cons _ at_next ih => exact .cons ih at_next

theorem below_parent (leads : s.LeadsTo root trail x) {step : TrailStep} (h : step ∈ trail) :
    ∃ child ∈ s.children step.parent, s.Reaches child x := by
  induction leads with
  | nil => exact absurd h List.not_mem_nil
  | @cons trail y z slot index leads at_child ih =>
    have next : z ∈ s.children y := mem_children_iff.2 ⟨slot, index, at_child⟩
    obtain rfl | further := List.mem_cons.1 h
    · exact ⟨z, next, .refl z⟩
    · obtain ⟨child, hchild, reached⟩ := ih further
      exact ⟨child, hchild, reached.child next⟩

theorem parents_nodup (acyclic : s.Acyclic) (leads : s.LeadsTo root trail x) :
    (trail.map TrailStep.parent).Nodup := by
  induction leads with
  | nil => exact List.nodup_nil
  | @cons trail y z slot index leads _ ih =>
    rw [List.map_cons, List.nodup_cons]
    refine ⟨fun again => ?_, ih⟩
    obtain ⟨step, hstep, same⟩ := List.mem_map.1 again
    obtain ⟨child, hchild, back⟩ := leads.below_parent hstep
    rw [same] at hchild
    exact acyclic y child hchild back

theorem getLast?_parents (leads : s.LeadsTo root trail x) (steps : trail ≠ []) :
    (trail.map TrailStep.parent).getLast? = some root := by
  induction leads with
  | nil => exact absurd rfl steps
  | @cons trail y z slot index leads _ ih =>
    cases leads with
    | nil => rfl
    | cons => simpa using ih (List.cons_ne_nil _ _)

theorem childAt_getElem? (leads : s.LeadsTo root trail x) {i : Nat} {step : TrailStep}
    (h : trail[i]? = some step) :
    ∃ y, (x :: trail.map TrailStep.parent)[i]? = some y ∧
      s.childAt step.parent step.slot step.index = some y := by
  induction leads generalizing i with
  | nil => simp at h
  | @cons trail y z slot index leads at_child ih =>
    cases i with
    | zero =>
      cases Option.some.inj h
      exact ⟨z, rfl, at_child⟩
    | succ i => exact ih h

theorem eq_nil_iff (acyclic : s.Acyclic) (leads : s.LeadsTo root trail x) :
    trail = [] ↔ root = x := by
  refine ⟨fun none => ?_, fun same => ?_⟩
  · subst none
    cases leads
    rfl
  · by_contra steps
    obtain ⟨step, mem, eq⟩ := List.mem_map.1 (List.mem_of_getLast? (leads.getLast?_parents steps))
    obtain ⟨child, hchild, back⟩ := leads.below_parent mem
    rw [eq] at hchild
    rw [← same] at back
    exact acyclic root child hchild back

end Store.LeadsTo

namespace Ancestry

variable {s : Store} {root x y target : NodeId} {trail : Trail}

theorem retraceSteps_of_nodeAt {p : Path} (at_end : s.nodeAt x p = some y) :
    retraceSteps s x (p.map fun step => (step.1 : Int)) (p.map fun step => (step.2 : Int)) =
      .ok y := by
  induction p generalizing x with
  | nil =>
    cases at_end
    rfl
  | cons step p ih =>
    obtain ⟨slot, index⟩ := step
    obtain ⟨child, at_child, at_end⟩ := Option.bind_eq_some_iff.1 at_end
    have read : s.readChild x index slot = .ok child :=
      Store.readChild_eq_ok_iff.2 ⟨slot, index, rfl, rfl, at_child⟩
    rw [List.map_cons, List.map_cons, retraceSteps, read]
    exact ih at_end

@[simp] theorem slots_ofTrail (target : NodeId) (trail : Trail) :
    (ofTrail target trail).slots.reverse =
      (Trail.path trail).map fun step => (step.1 : Int) := by
  simp [ofTrail, Trail.path, Function.comp_def]

@[simp] theorem positions_ofTrail (target : NodeId) (trail : Trail) :
    (ofTrail target trail).positions.reverse =
      (Trail.path trail).map fun step => (step.2 : Int) := by
  simp [ofTrail, Trail.path, Function.comp_def]

theorem readChild_ofTrail (leads : s.LeadsTo root trail target) {i : Nat} {x : NodeId}
    (h : (ofTrail target trail).ancestors[i]? = some x) : ∃ slot index y,
    (ofTrail target trail).slots[i]? = some slot ∧
    (ofTrail target trail).positions[i]? = some index ∧
    (target :: (ofTrail target trail).ancestors)[i]? = some y ∧
    s.readChild x index slot = .ok y := by
  obtain ⟨step, at_step, rfl⟩ := Option.map_eq_some_iff.1 ((List.getElem?_map ..).symm.trans h)
  obtain ⟨y, at_next, at_child⟩ := leads.childAt_getElem? at_step
  refine ⟨step.slot, step.index, y, ?_, ?_, at_next, ?_⟩
  · simp [ofTrail, at_step]
  · simp [ofTrail, at_step]
  · exact Store.readChild_eq_ok_iff.2 ⟨step.slot, step.index, rfl, rfl, at_child⟩

theorem retrace_ofTrail (leads : s.LeadsTo root trail target) :
    (ofTrail target trail).retrace s = .ok target := by
  by_cases steps : trail = []
  · subst steps
    rfl
  · have last : (ofTrail target trail).ancestors.getLast? = some root :=
      leads.getLast?_parents steps
    rw [retrace, last, slots_ofTrail, positions_ofTrail]
    exact retraceSteps_of_nodeAt leads.nodeAt

end Ancestry
end SlotTree
