import Mathlib.Data.Finset.Card
import SlotTree.Proofs.Making

/-!
The census of a tree. It takes up every node below its root and no other, each of them once, and the
number of a node is its place in the order in which they were taken up. Each node that has something
below it costs a generation of the walk only when it is taken up, and so the walk ends in every
store, also where a node stands below itself.
-/

namespace SlotTree

namespace Worklist

variable {σ τ α : Type} {visit : σ → τ → Step σ τ α}

/-- A walk ends when each visit that asks for further tasks uses up some of what its budget counts,
and no visit adds to that. -/
theorem drain_isSome (measure : σ → Nat)
    (keeps : ∀ {state task after tasks}, visit state task = .next after tasks →
      measure after ≤ measure state)
    (spends : ∀ {state task after t ts}, visit state task = .next after (t :: ts) →
      measure after < measure state)
    (finish : σ → α) (state : σ) (stack : List (Nat × τ))
    (room : ∀ e ∈ stack, measure state ≤ e.1) : (drain visit finish state stack).isSome := by
  fun_induction drain visit finish state stack with
  | case1 => rfl
  | case2 => rfl
  | case3 state budget task rest after visited ih =>
    refine ih fun e mem => ?_
    exact Nat.le_trans (keeps visited) (room e (List.mem_cons_of_mem _ mem))
  | case4 state task rest after t ts visited =>
    have spent := spends visited
    -- a budget of zero leaves nothing to spend
    have none_left : measure state ≤ 0 := room (0, task) List.mem_cons_self
    omega
  | case5 state task rest after t ts visited budget ih =>
    have spent := spends visited
    refine ih fun e mem => ?_
    obtain new | old := List.mem_append.1 mem
    · obtain ⟨task', -, rfl⟩ := List.mem_map.1 new
      have top : measure state ≤ budget + 1 := room (budget + 1, task) List.mem_cons_self
      show measure after ≤ budget
      omega
    · have behind := room e (List.mem_cons_of_mem _ old)
      omega

end Worklist

def Census.Indexed (c : Census) : Prop :=
  ∀ (y : NodeId) (k : Nat), c.places[y]? = some k ↔ c.order[k]? = some y

namespace Census.Indexed

variable {c : Census} {x y : NodeId}

theorem contains_iff (indexed : c.Indexed) : c.places.contains y = true ↔ y ∈ c.order := by
  rw [Std.HashMap.contains_eq_isSome_getElem?, Option.isSome_iff_exists, Array.mem_iff_getElem?]
  exact exists_congr fun k => indexed y k

theorem empty : Census.empty.Indexed := by
  intro y k
  simp [Census.empty]

theorem enter (indexed : c.Indexed) (new : c.places.contains x = false) :
    (c.enter x).Indexed := by
  have absent : x ∉ c.order := by simp [← indexed.contains_iff, new]
  obtain ⟨order, places⟩ := c
  intro y k
  simp only [Census.enter, Std.HashMap.getElem?_insert, Array.getElem?_push, beq_iff_eq]
  have before := indexed y k
  split <;> split
  · simp_all
  · rename_i same other
    subst same
    have none : order[k]? ≠ some x := fun h => absent (Array.mem_of_getElem? h)
    simp [none, Ne.symm other]
  · rename_i other last
    have beyond : order[k]? = none := by simp [last]
    rw [before, beyond]
    simp [other]
  · exact before

end Census.Indexed

@[simp] theorem Census.mem_enter {c : Census} {x y : NodeId} :
    y ∈ (c.enter x).order ↔ y ∈ c.order ∨ y = x := by
  simp [Census.enter]

namespace Store

variable {s : Store} {root x y : NodeId}

/-- What is so at every moment of a census of the nodes below `root`. -/
structure CensusMoment (s : Store) (root : NodeId) (c : Census) (waiting : List NodeId) :
    Prop where
  indexed : c.Indexed
  taken : ∀ y ∈ c.order, s.Reaches root y
  queued : ∀ y ∈ waiting, s.Reaches root y
  below : ∀ y ∈ c.order, ∀ z ∈ s.children y, z ∈ c.order ∨ z ∈ waiting
  rooted : root ∈ c.order ∨ root ∈ waiting

namespace CensusMoment

variable {c : Census} {rest : List NodeId}

theorem start (s : Store) (root : NodeId) : s.CensusMoment root .empty [root] where
  indexed := .empty
  taken := by simp [Census.empty]
  queued := by simpa using Reaches.refl root
  below := by simp [Census.empty]
  rooted := by simp

theorem pass (moment : s.CensusMoment root c (x :: rest)) (known : x ∈ c.order) :
    s.CensusMoment root c rest where
  indexed := moment.indexed
  taken := moment.taken
  queued y mem := moment.queued y (List.mem_cons_of_mem x mem)
  below y mem z child := by
    have further := moment.below y mem z child
    grind
  rooted := by
    have start := moment.rooted
    grind

theorem enter (moment : s.CensusMoment root c (x :: rest))
    (new : c.places.contains x = false) :
    s.CensusMoment root (c.enter x) (s.children x ++ rest) where
  indexed := moment.indexed.enter new
  taken y mem := by
    obtain old | rfl := Census.mem_enter.1 mem
    · exact moment.taken y old
    · exact moment.queued y List.mem_cons_self
  queued y mem := by
    obtain child | later := List.mem_append.1 mem
    · exact (moment.queued x List.mem_cons_self).child child
    · exact moment.queued y (List.mem_cons_of_mem x later)
  below y mem z child := by
    simp only [Census.mem_enter, List.mem_append]
    obtain old | rfl := Census.mem_enter.1 mem
    · have further := moment.below y old z child
      grind
    · exact .inr (.inl child)
  rooted := by
    simp only [Census.mem_enter, List.mem_append]
    have start := moment.rooted
    grind

theorem mem_order_iff (moment : s.CensusMoment root c []) : y ∈ c.order ↔ s.Reaches root y := by
  refine ⟨moment.taken y, fun reached => ?_⟩
  have closed : ∀ y ∈ c.order, ∀ z ∈ s.children y, z ∈ c.order := by
    simpa using moment.below
  have start : root ∈ c.order := by simpa using moment.rooted
  clear moment
  induction reached with
  | refl => exact start
  | step child _ ih => exact ih (closed _ start _ child)

end CensusMoment

theorem censusVisit_cases (s : Store) (c : Census) (x : NodeId) :
    (c.places.contains x = true ∧ s.censusVisit c x = .next c []) ∨
      (c.places.contains x = false ∧ s.censusVisit c x = .next (c.enter x) (s.children x)) := by
  cases known : c.places.contains x <;> simp [censusVisit, known]

theorem censusMoment_kept (s : Store) (root : NodeId) :
    Worklist.Kept s.censusVisit (s.CensusMoment root) := by
  intro c x rest moment
  obtain ⟨known, visited⟩ | ⟨new, visited⟩ := s.censusVisit_cases c x
  · exact ⟨c, [], visited, moment.pass (moment.indexed.contains_iff.1 known)⟩
  · exact ⟨c.enter x, s.children x, visited, moment.enter new⟩

def untaken (s : Store) (c : Census) : Finset NodeId :=
  (Finset.range s.count).filter fun y => c.places.contains y = false

@[simp] theorem mem_untaken {c : Census} :
    y ∈ s.untaken c ↔ y < s.count ∧ c.places.contains y = false := by
  rw [untaken, Finset.mem_filter, Finset.mem_range]

@[simp] theorem untaken_enter (s : Store) (c : Census) (x : NodeId) :
    s.untaken (c.enter x) = (s.untaken c).erase x := by
  ext y
  simp only [mem_untaken, Finset.mem_erase, Census.enter, Std.HashMap.contains_insert,
    Bool.or_eq_false_iff, beq_eq_false_iff_ne]
  grind

theorem card_untaken_le (s : Store) {c after : Census} {tasks : List NodeId}
    (visited : s.censusVisit c x = .next after tasks) :
    (s.untaken after).card ≤ (s.untaken c).card := by
  obtain ⟨-, visit⟩ | ⟨-, visit⟩ := s.censusVisit_cases c x <;> cases visit.symm.trans visited
  · exact Nat.le_refl _
  · rw [untaken_enter]
    exact Finset.card_le_card (Finset.erase_subset x _)

theorem card_untaken_lt (s : Store) {c after : Census} {t : NodeId} {ts : List NodeId}
    (visited : s.censusVisit c x = .next after (t :: ts)) :
    (s.untaken after).card < (s.untaken c).card := by
  obtain ⟨-, visit⟩ | ⟨new, visit⟩ := s.censusVisit_cases c x
  · cases visit.symm.trans visited
  · injection visit.symm.trans visited with entered below
    have child : t ∈ s.children x := by simp [below]
    have here : x ∈ s.untaken c := mem_untaken.2 ⟨lt_count_of_mem_children child, new⟩
    rw [← entered, untaken_enter]
    exact Finset.card_erase_lt_of_mem here

/-- The census numbers the nodes below `root`, each of them once. -/
structure Counts (s : Store) (root : NodeId) (c : Census) : Prop where
  indexed : c.Indexed
  mem_order_iff : ∀ y, y ∈ c.order ↔ s.Reaches root y

theorem Counts.exists_place {c : Census} (counts : s.Counts root c) (reached : s.Reaches root y) :
    ∃ k : Nat, c.order[k]? = some y :=
  Array.mem_iff_getElem?.1 ((counts.mem_order_iff y).2 reached)

theorem census_eq_ok (s : Store) (root : NodeId) :
    ∃ c, s.census root = .ok c ∧ s.Counts root c := by
  have within : (s.untaken .empty).card ≤ s.depthBound := by
    have bound := Finset.card_filter_le (Finset.range s.count)
      fun y => Census.empty.places.contains y = false
    rw [Finset.card_range] at bound
    exact Nat.le_succ_of_le bound
  have ends : (Worklist.walk s.censusVisit .ok s.depthBound .empty root).isSome := by
    refine Worklist.drain_isSome (fun c => (s.untaken c).card) s.card_untaken_le s.card_untaken_lt
      _ _ _ ?_
    simpa using within
  obtain ⟨answer, walked⟩ := Option.isSome_iff_exists.1 ends
  obtain none | ⟨last, moment, some⟩ := Worklist.drain_of_kept (s.censusMoment_kept root)
    Except.ok .empty [(s.depthBound, root)] (.start s root)
  · rw [Worklist.walk, none] at walked
    cases walked
  · refine ⟨last, ?_, moment.indexed, fun y => moment.mem_order_iff⟩
    rw [census, Worklist.walk, some]
    rfl

end Store
end SlotTree
