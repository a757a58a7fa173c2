import Mathlib.Data.List.Lex
import SlotTree.Proofs.FirstPaths

/-!
First paths are made of first paths. Cut at any node on its way, the first of all paths to a target
is the first of all paths to that node, and behind it the first of all paths from there. For the
lower part this holds because paths with one beginning are ordered by what follows; for the upper
part because no path to a node goes on from another one, or the node would stand below itself. So
the searches for both parts find the two parts of what the search for the whole finds.
-/

namespace SlotTree

/-! The order of paths. -/

instance : Std.Asymm StepBefore := inferInstanceAs (Std.Asymm (Prod.Lex (· < ·) (· < ·)))

namespace Path

variable {p q l m : Path}

theorem Before.of_append (h : Path.Before (p ++ l) (q ++ m)) : Path.Before p q ∨ q <+: p := by
  induction p generalizing q with
  | nil =>
    cases q with
    | nil => exact .inr (List.prefix_refl [])
    | cons b q => exact .inl .nil
  | cons a p ih =>
    cases q with
    | nil => exact .inr List.nil_prefix
    | cons b q =>
      cases h with
      | rel first => exact .inl (.rel first)
      | cons rest => exact (ih rest).imp .cons (List.prefix_cons_inj a).2

theorem before_append_left_iff (p : Path) : Path.Before (p ++ l) (p ++ m) ↔ Path.Before l m := by
  induction p with
  | nil => rfl
  | cons a p ih => rw [← ih]; exact List.lex_cons_iff

end Path

theorem Trail.path_take_drop (trail : Trail) (n : Nat) :
    trail.path = Trail.path (trail.drop n) ++ Trail.path (trail.take n) := by
  rw [path, path, path, ← List.reverse_append, ← List.map_append,
    List.take_append_drop]

namespace Store

variable {s : Store} {root target x y : NodeId} {trail trail' : Trail} {p q : Path}

theorem Acyclic.eq_nil_of_nodeAt (acyclic : s.Acyclic) (back : s.nodeAt x p = some x) : p = [] := by
  cases p with
  | nil => rfl
  | cons step p =>
    obtain ⟨e, mem, -, at_end⟩ := nodeAt_cons_eq_some_iff.1 back
    exact absurd (reaches_iff_nodeAt.2 ⟨p, at_end⟩) (acyclic x e.child (child_of_mem_edges mem))

theorem Acyclic.eq_of_prefix (acyclic : s.Acyclic) (hp : s.nodeAt root p = some x)
    (hq : s.nodeAt root q = some x) (start : q <+: p) : p = q := by
  obtain ⟨further, rfl⟩ := start
  rw [nodeAt_append, hq, Option.bind_some] at hp
  rw [acyclic.eq_nil_of_nodeAt hp, List.append_nil]

/-! Trails. -/

namespace LeadsTo

theorem eq_of_path (leads : s.LeadsTo root trail x) (leads' : s.LeadsTo root trail' x)
    (same : trail.path = trail'.path) : trail = trail' := by
  induction leads generalizing trail' with
  | nil =>
    cases leads' with
    | nil => rfl
    | cons => simp [Trail.path] at same
  | @cons trail y z slot index leads at_child ih =>
    cases leads' with
    | nil => simp [Trail.path] at same
    | @cons trail' y' _ slot' index' leads' at_child' =>
      rw [Trail.path_cons, Trail.path_cons] at same
      obtain ⟨above, here⟩ := List.append_inj' same rfl
      have one : y = y' := by
        have ends := leads.nodeAt
        rw [above, leads'.nodeAt] at ends
        exact (Option.some.inj ends).symm
      subst one
      rw [ih leads' above]
      simpa using here

theorem cut (leads : s.LeadsTo root trail x) {i : Nat} {step : TrailStep}
    (h : trail[i]? = some step) :
    s.LeadsTo step.parent (trail.take (i + 1)) x ∧
      s.LeadsTo root (trail.drop (i + 1)) step.parent := by
  induction leads generalizing i with
  | nil => simp at h
  | @cons trail y z slot index leads at_child ih =>
    cases i with
    | zero =>
      cases Option.some.inj h
      exact ⟨.cons .nil at_child, leads⟩
    | succ i =>
      obtain ⟨lower, upper⟩ := ih h
      exact ⟨.cons lower at_child, upper⟩

end LeadsTo

namespace FirstTrail

theorem unique (found : s.FirstTrail root target trail) (found' : s.FirstTrail root target trail') :
    trail = trail' := by
  apply found.leads.eq_of_path found'.leads
  obtain same | before := found.first _ found'.leads.nodeAt
  · exact same.symm
  · obtain same | before' := found'.first _ found.leads.nodeAt
    · exact same
    · exact absurd before' (Std.Asymm.asymm (r := List.Lex StepBefore) _ _ before)

variable {i : Nat} {step : TrailStep}

theorem lower (found : s.FirstTrail root target trail) (h : trail[i]? = some step) :
    s.FirstTrail step.parent target (trail.take (i + 1)) where
  leads := (found.leads.cut h).1
  first q hq := by
    have whole := found.first (Trail.path (trail.drop (i + 1)) ++ q) (by
      rw [nodeAt_append, (found.leads.cut h).2.nodeAt]
      exact hq)
    rwa [Trail.path_take_drop trail (i + 1), List.append_cancel_left_eq,
      Path.before_append_left_iff] at whole

theorem upper (acyclic : s.Acyclic) (found : s.FirstTrail root target trail)
    (h : trail[i]? = some step) :
    s.FirstTrail root step.parent (trail.drop (i + 1)) where
  leads := (found.leads.cut h).2
  first q hq := by
    obtain ⟨lower, upper⟩ := found.leads.cut h
    have whole := found.first (q ++ Trail.path (trail.take (i + 1))) (by
      rw [nodeAt_append, hq]
      exact lower.nodeAt)
    rw [Trail.path_take_drop trail (i + 1)] at whole
    obtain same | before := whole
    · exact .inl (List.append_cancel_right same)
    · obtain before | start := before.of_append
      · exact .inr before
      · exact .inl (acyclic.eq_of_prefix upper.nodeAt hq start).symm

end FirstTrail

/-! Searches. -/

theorem locate_of_ends {a : Ancestry}
    (ends : s.SearchEnds target [⟨[], root⟩] (.answered (.ok a))) :
    s.locate (some root) (some target) = ⟨.ok a, []⟩ := by
  have walked := ends.walk (fun _ => .error (.unreachable target root))
    (Nat.le_of_lt (s.rank_lt_depthBound root))
  have run : s.searchFrom root target = .ok a := by
    rw [searchFrom_eq_walk, walked]
    rfl
  simp only [locate, run]

theorem FirstTrail.locate (acyclic : s.Acyclic) (found : s.FirstTrail root target trail) :
    s.locate (some root) (some target) = ⟨.ok (.ofTrail target trail), []⟩ := by
  cases searched acyclic target root [] with
  | missed apart =>
    exact absurd (reaches_iff_nodeAt.2 ⟨trail.path, found.leads.nodeAt⟩) apart
  | found below first ends =>
    rw [List.append_nil, ← found.unique first] at ends
    exact locate_of_ends ends

theorem exists_firstTrail (acyclic : s.Acyclic) (reached : s.Reaches root target) :
    ∃ trail, s.FirstTrail root target trail := by
  cases searched acyclic target root [] with
  | missed apart => exact absurd reached apart
  | found below first => exact ⟨below, first⟩

/-- What is found of a target is, from each ancestor on, what is found of the target below that
ancestor, and above it what is found of the ancestor. -/
theorem ancestries_compose {s : Store} (acyclic : s.Acyclic) {root target : NodeId}
    (reached : s.Reaches root target) :
    ∃ a, s.locate (some root) (some target) = ⟨.ok a, []⟩ ∧
      ∀ i x, a.ancestors[i]? = some x → ∃ lower upper : Ancestry,
        s.locate (some x) (some target) = ⟨.ok lower, []⟩ ∧
        s.locate (some root) (some x) = ⟨.ok upper, []⟩ ∧
        lower = ⟨target, a.ancestors.take (i + 1), a.slots.take (i + 1),
          a.positions.take (i + 1)⟩ ∧
        upper = ⟨x, a.ancestors.drop (i + 1), a.slots.drop (i + 1), a.positions.drop (i + 1)⟩ ∧
        a.ancestors = lower.ancestors ++ upper.ancestors ∧ a.slots = lower.slots ++ upper.slots ∧
        a.positions = lower.positions ++ upper.positions := by
  obtain ⟨trail, found⟩ := exists_firstTrail acyclic reached
  refine ⟨.ofTrail target trail, found.locate acyclic, fun i x at_place => ?_⟩
  obtain ⟨step, h, rfl⟩ := Option.map_eq_some_iff.1 ((List.getElem?_map ..).symm.trans at_place)
  have lower := (found.lower h).locate acyclic
  have upper := (found.upper acyclic h).locate acyclic
  refine ⟨_, _, lower, upper, ?_⟩
  simp [Ancestry.ofTrail]

def ladder : Store := ⟨#[
  ⟨.growable, .value .null, #[]⟩,
  ⟨.growable, .value .null, #[#[0]]⟩,
  ⟨.frozen, .value .null, #[#[], #[1, 0]]⟩,
  ⟨.growable, .value .null, #[#[2, 1]]⟩]⟩

theorem ancestries_compose_ladder :
    ladder.Acyclic ∧ ladder.Reaches 3 0 ∧
    ∃ a, ladder.locate (some 3) (some 0) = ⟨.ok a, []⟩ ∧ a = ⟨0, [1, 2, 3], [0, 1, 0], [0, 0, 0]⟩ ∧
      ladder.locate (some 2) (some 0) = ⟨.ok ⟨0, [1, 2], [0, 1], [0, 0]⟩, []⟩ ∧
      ladder.locate (some 3) (some 2) = ⟨.ok ⟨2, [3], [0], [0]⟩, []⟩ := by
  have acyclic : ladder.Acyclic := (closed_acyclic_of_children_lt (s := ladder) (by decide)).2
  have reached : ladder.Reaches 3 0 := .step (y := 1) (by decide) (.step (by decide) (.refl 0))
  obtain ⟨a, run, parts⟩ := ancestries_compose acyclic reached
  have whole : ladder.locate (some 3) (some 0) =
      ⟨.ok ⟨0, [1, 2, 3], [0, 1, 0], [0, 0, 0]⟩, []⟩ := by cbv
  have found : a = ⟨0, [1, 2, 3], [0, 1, 0], [0, 0, 0]⟩ := by
    rw [whole] at run
    cases run
    rfl
  subst found
  obtain ⟨lower, upper, below, above, rfl, rfl, -⟩ := parts 1 2 rfl
  exact ⟨acyclic, reached, _, whole, rfl, below, above⟩

end Store
end SlotTree
