import SlotTree.Proofs.Endings
import SlotTree.Proofs.SearchFrames
import SlotTree.Proofs.Steps
import SlotTree.Proofs.Trails

/-!
The search for a node finds the first of all paths to it. Below a node the steps are tried in
ascending order, and a step is given up only when nothing below it is the target; so what is tried
before the answer leads nowhere, and what is left untried comes later in the order of paths.
-/

namespace SlotTree.Store

variable {s : Store} {x target root : NodeId} {trail below : Trail}

/-- A trail to the target that spells the first of all paths there. -/
structure FirstTrail (s : Store) (x target : NodeId) (below : Trail) : Prop where
  leads : s.LeadsTo x below target
  first : ∀ q, s.nodeAt x q = some target → q = below.path ∨ below.path.Before q

theorem FirstTrail.here (s : Store) (target : NodeId) : s.FirstTrail target target [] where
  leads := .nil
  first q _ := by
    cases q with
    | nil => exact .inl rfl
    | cons step q => exact .inr .nil

theorem FirstTrail.through {earlier later : List Edge} {e : Edge} (other : x ≠ target)
    (split : s.edges x = earlier ++ e :: later)
    (missed : ∀ e' ∈ earlier, ¬ s.Reaches e'.child target)
    (found : s.FirstTrail e.child target below) :
    s.FirstTrail x target (below ++ [⟨x, e.slot, e.index⟩]) where
  leads := by
    have mem : e ∈ s.edges x := by simp [split]
    exact found.leads.append_singleton (childAt_of_mem_edges mem)
  first q hq := by
    have ascending := List.pairwise_map.1 (s.node x).steps_ascending
    have later_steps : ∀ e' ∈ later, StepBefore e.step e'.step := by
      rw [← edges, split] at ascending
      exact (List.pairwise_cons.1 (List.pairwise_append.1 ascending).2.1).1
    rw [Trail.path_append_singleton]
    cases q with
    | nil => exact absurd (Option.some.inj hq) other
    | cons step q =>
      -- no earlier child leads to the target, and paths through later children come later
      obtain ⟨e', mem, rfl, at_end⟩ := nodeAt_cons_eq_some_iff.1 hq
      rw [split] at mem
      obtain before | rest := List.mem_append.1 mem
      · exact absurd (reaches_iff_nodeAt.2 ⟨q, at_end⟩) (missed e' before)
      · obtain rfl | after := List.mem_cons.1 rest
        · obtain rfl | greater := found.first q at_end
          · exact .inl rfl
          · exact .inr (.cons greater)
        · exact .inr (.rel (later_steps e' after))

def SearchEnds (s : Store) (target : NodeId) :
    List SearchTask → Worklist.Ending Unit (Except Fault Ancestry) → Prop :=
  Worklist.Ends (s.searchVisit target) (fun task => s.rank task.node) ()

inductive Searched (s : Store) (target : NodeId) (trail : Trail) (x : NodeId) : Prop where
  | missed : ¬ s.Reaches x target → s.SearchEnds target [⟨trail, x⟩] (.left ()) →
      Searched s target trail x
  | found (below : Trail) : s.FirstTrail x target below →
      s.SearchEnds target [⟨trail, x⟩] (.answered (.ok (.ofTrail target (below ++ trail)))) →
      Searched s target trail x

inductive SearchedBelow (s : Store) (target : NodeId) (trail : Trail) (x : NodeId)
    (es : List Edge) : Prop where
  | missed : (∀ e ∈ es, ¬ s.Reaches e.child target) →
      s.SearchEnds target (searchTasks trail x es) (.left ()) → SearchedBelow s target trail x es
  | found (earlier later : List Edge) (e : Edge) (below : Trail) : es = earlier ++ e :: later →
      (∀ e' ∈ earlier, ¬ s.Reaches e'.child target) → s.FirstTrail e.child target below →
      s.SearchEnds target (searchTasks trail x es)
        (.answered (.ok (.ofTrail target (below ++ ⟨x, e.slot, e.index⟩ :: trail)))) →
      SearchedBelow s target trail x es

theorem searchedBelow {es : List Edge}
    (each : ∀ e ∈ es, ∀ trail, s.Searched target trail e.child) (trail : Trail) (x : NodeId) :
    s.SearchedBelow target trail x es := by
  induction es with
  | nil => exact .missed (fun e he => absurd he List.not_mem_nil) (.nil ())
  | cons e es ih =>
    have rest := ih fun e' he' => each e' (List.mem_cons_of_mem e he')
    cases each e List.mem_cons_self (⟨x, e.slot, e.index⟩ :: trail) with
    | found below first ends =>
      exact .found [] es e below rfl (fun e' he' => absurd he' List.not_mem_nil) first
        (ends.append_answered (searchTasks trail x es))
    | missed apart ends =>
      cases rest with
      | missed others restEnds =>
        exact .missed (List.forall_mem_cons.2 ⟨apart, others⟩) (ends.append restEnds)
      | found earlier later e' below split others first restEnds =>
        exact .found (e :: earlier) later e' below (by rw [split, List.cons_append])
          (List.forall_mem_cons.2 ⟨apart, others⟩) first (ends.append restEnds)

theorem rank_lt_of_mem_searchTasks (acyclic : s.Acyclic) {task : SearchTask}
    (h : task ∈ searchTasks trail x (s.edges x)) : s.rank task.node < s.rank x := by
  obtain ⟨e, he, rfl⟩ := List.mem_map.1 h
  exact acyclic.rank_lt (child_of_mem_edges he)

theorem searched (acyclic : s.Acyclic) (target x : NodeId) (trail : Trail) :
    s.Searched target trail x := by
  induction x using acyclic.induction generalizing trail with
  | step x ih =>
    by_cases here : x = target
    · subst here
      refine .found [] (.here s x) (.stop [] ?_)
      rw [searchVisit, if_pos rfl, List.nil_append]
    · have visit := searchVisit_other (s := s) here trail
      have lower : ∀ task ∈ searchTasks trail x (s.edges x), s.rank task.node < s.rank x :=
        fun task => rank_lt_of_mem_searchTasks acyclic
      cases searchedBelow (fun e he => ih e.child (child_of_mem_edges he)) trail x with
      | missed apart ends =>
        refine .missed (fun reached => ?_) (.next visit lower (by rwa [List.append_nil]))
        cases reached with
        | refl => exact here rfl
        | step child reached =>
          rw [children, ← Node.edges_child] at child
          obtain ⟨e, he, rfl⟩ := List.mem_map.1 child
          exact apart e he reached
      | found earlier later e below split apart first ends =>
        refine .found _ (first.through here split apart) (.next visit lower ?_)
        rwa [List.append_nil, List.append_assoc]

/-- What is found of a target below a root: the ancestors on the first of all paths between them,
nearest first, and the steps of that path. -/
structure FirstAncestry (s : Store) (root target : NodeId) (a : Ancestry) : Prop where
  target_eq : a.target = target
  lengths : a.slots.length = a.ancestors.length ∧ a.positions.length = a.ancestors.length
  /-- Read from their far ends, slots and positions spell the first of all paths to the target. -/
  first_path : ∃ p : Path,
    a.slots.reverse = p.map (fun step => (step.1 : Int)) ∧
    a.positions.reverse = p.map (fun step => (step.2 : Int)) ∧
    s.nodeAt root p = some target ∧ ∀ q, s.nodeAt root q = some target → q = p ∨ p.Before q
  root_last : a.ancestors ≠ [] → a.ancestors.getLast? = some root
  distinct : a.ancestors.Nodup
  steps : ∀ (i : Nat) (x : NodeId), a.ancestors[i]? = some x → ∃ slot index y,
    a.slots[i]? = some slot ∧ a.positions[i]? = some index ∧
    (target :: a.ancestors)[i]? = some y ∧ s.readChild x index slot = .ok y
  empty_iff : (a.ancestors = [] ∧ a.slots = [] ∧ a.positions = []) ↔ target = root
  retraced : a.retrace s = .ok target

theorem FirstTrail.firstAncestry (acyclic : s.Acyclic) (found : s.FirstTrail root target trail) :
    s.FirstAncestry root target (.ofTrail target trail) where
  target_eq := rfl
  lengths := by simp [Ancestry.ofTrail]
  first_path := ⟨trail.path, Ancestry.slots_ofTrail target trail,
    Ancestry.positions_ofTrail target trail, found.leads.nodeAt, found.first⟩
  root_last some := by
    refine found.leads.getLast?_parents fun none => some ?_
    rw [none]
    rfl
  distinct := found.leads.parents_nodup acyclic
  steps i x h := Ancestry.readChild_ofTrail found.leads h
  empty_iff := by
    rw [eq_comm (a := target), ← found.leads.eq_nil_iff acyclic]
    simp [Ancestry.ofTrail]
  retraced := Ancestry.retrace_ofTrail found.leads

/-- A search succeeds exactly where the target is reached, without a word, and then with the first
of all paths; and it fails with a single note of the failure. -/
theorem locate_first_path {s : Store} (acyclic : s.Acyclic) (root target : NodeId) :
    (s.Reaches root target → ∃ a, s.locate (some root) (some target) = ⟨.ok a, []⟩ ∧
      s.FirstAncestry root target a) ∧
    (¬ s.Reaches root target → s.locate (some root) (some target) =
      ⟨.error (.unreachable target root), [.unreachable target root]⟩) := by
  have room : s.rank root ≤ s.depthBound := Nat.le_succ_of_le (s.rank_le_count root)
  let fail (_ : Unit) : Except Fault Ancestry := .error (.unreachable target root)
  cases searched acyclic target root [] with
  | missed apart ends =>
    have walked := ends.walk fail room
    have run : s.searchFrom root target = .error (.unreachable target root) := by
      rw [searchFrom_eq_walk, walked]
      rfl
    refine ⟨fun reached => absurd reached apart, fun _ => ?_⟩
    simp only [locate, run]
  | found below first ends =>
    have walked := ends.walk fail room
    rw [List.append_nil] at walked
    have run : s.searchFrom root target = .ok (.ofTrail target below) := by
      rw [searchFrom_eq_walk, walked]
      rfl
    have reached := reaches_iff_nodeAt.2 ⟨below.path, first.leads.nodeAt⟩
    refine ⟨fun _ => ⟨.ofTrail target below, ?_, first.firstAncestry acyclic⟩,
      fun apart => absurd reached apart⟩
    simp only [locate, run]

theorem locate_first_path_trellis :
    trellis.Acyclic ∧
    (trellis.Reaches 2 1 ∧ ∃ a, trellis.locate (some 2) (some 1) = ⟨.ok a, []⟩ ∧
      trellis.FirstAncestry 2 1 a) ∧
    ¬ trellis.Reaches 2 3 ∧ trellis.locate (some 2) (some 3) =
      ⟨.error (.unreachable 3 2), [.unreachable 3 2]⟩ := by
  have acyclic := trellis_closed_acyclic.2
  have reached : trellis.Reaches 2 1 := .step (by decide) (.refl 1)
  have apart : ¬ trellis.Reaches 2 3 := fun h =>
    absurd (le_of_reaches trellis_children_lt h) (by decide)
  exact ⟨acyclic, ⟨reached, (locate_first_path acyclic 2 1).1 reached⟩, apart,
    (locate_first_path acyclic 2 3).2 apart⟩

end SlotTree.Store
