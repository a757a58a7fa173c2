import Mathlib.Data.Finset.Lattice.Fold
import Mathlib.Order.Lattice.Nat
import SlotTree.Proofs.ChildPairs
import SlotTree.Proofs.MatchRuns

/-!
Matching as a recursion: the pair itself, the numbers of slots, and then slot by slot the children
counts and the pairs of children, up to the first failure. The loop over a stack of pairs and slots
asks the comparator the same questions in the same order and ends in the same way.
-/

namespace SlotTree.Store

variable {s : Store} {x y : NodeId} {comparator : Comparator} {policy : CountPolicy}

/-- The match of a pattern node and a target node, by recursion. -/
def matchBelow (s : Store) (acyclic : s.Acyclic) (comparator : Comparator) (policy : CountPolicy)
    (x y : NodeId) : MatchRun :=
  (MatchRun.ask comparator x y).andThen <|
    (MatchRun.require (s.slotCount x == s.slotCount y)).andThen <|
      .inTurn <| (List.range (s.slotCount x)).map fun i =>
        (MatchRun.require (policy.allows (s.slot x i).size (s.slot y i).size)).andThen <|
          .inTurn <| (s.childPairs x y i).attach.map fun pair =>
            matchBelow s acyclic comparator policy pair.1.1 pair.1.2
termination_by s.rank x
decreasing_by exact acyclic.rank_lt (left_of_mem_childPairs pair.2)

def matchSlot (s : Store) (acyclic : s.Acyclic) (comparator : Comparator) (policy : CountPolicy)
    (x y : NodeId) (i : Nat) : MatchRun :=
  (MatchRun.require (policy.allows (s.slot x i).size (s.slot y i).size)).andThen <|
    .inTurn <| (s.childPairs x y i).map fun pair =>
      s.matchBelow acyclic comparator policy pair.1 pair.2

variable (acyclic : s.Acyclic)

theorem matchBelow_eq (x y : NodeId) :
    s.matchBelow acyclic comparator policy x y =
      (MatchRun.ask comparator x y).andThen
        ((MatchRun.require (s.slotCount x == s.slotCount y)).andThen
          (.inTurn ((List.range (s.slotCount x)).map
            (s.matchSlot acyclic comparator policy x y)))) := by
  rw [matchBelow]
  congr 4
  funext i
  rw [matchSlot, List.attach_map_val (f := fun pair : NodeId × NodeId =>
    s.matchBelow acyclic comparator policy pair.1 pair.2)]

/-! The loop. -/

noncomputable def matchRank (s : Store) : MatchTask → Nat
  | .pair left _ => 2 * s.rank left + 1
  | .slot left _ => left.toList.toFinset.sup fun child => 2 * s.rank child + 2

/-- Working off `tasks` does what `run` says, whatever was asked before. -/
def Runs (s : Store) (comparator : Comparator) (policy : CountPolicy) (tasks : List MatchTask)
    (run : MatchRun) : Prop :=
  ∀ before, Worklist.Ends (s.matchVisit comparator policy) s.matchRank before tasks
    (run.ending before)

theorem Runs.nil : s.Runs comparator policy [] (.require true) := by
  intro before
  have same : (MatchRun.require true).ending before = .left before := by
    rw [MatchRun.ending_of_true rfl, MatchRun.require, Array.append_empty]
  rw [same]
  exact .nil before

theorem Runs.append {tasks later : List MatchTask} {first second : MatchRun}
    (hfirst : s.Runs comparator policy tasks first)
    (hsecond : s.Runs comparator policy later second) :
    s.Runs comparator policy (tasks ++ later) (first.andThen second) := by
  intro before
  rw [MatchRun.ending_andThen]
  exact (hfirst before).bind hsecond

theorem Runs.all {α : Type} {list : List α} {task : α → MatchTask} {run : α → MatchRun}
    (each : ∀ a ∈ list, s.Runs comparator policy [task a] (run a)) :
    s.Runs comparator policy (list.map task) (.inTurn (list.map run)) := by
  induction list with
  | nil => exact .nil
  | cons a list ih =>
    have rest := ih fun later mem => each later (List.mem_cons_of_mem a mem)
    exact (each a List.mem_cons_self).append rest

theorem Runs.next {task : MatchTask} {tasks : List MatchTask} {run : MatchRun}
    (visit : ∀ before, s.matchVisit comparator policy before task = .next before tasks)
    (lower : ∀ t ∈ tasks, s.matchRank t < s.matchRank task)
    (h : s.Runs comparator policy tasks run) : s.Runs comparator policy [task] run := by
  intro before
  refine .next (visit before) lower ?_
  rw [List.append_nil]
  exact h before

theorem runs_slot {i : Nat}
    (each : ∀ pair ∈ s.childPairs x y i, s.Runs comparator policy [.pair pair.1 pair.2]
      (s.matchBelow acyclic comparator policy pair.1 pair.2)) :
    s.Runs comparator policy [.slot (s.slot x i) (s.slot y i)]
      (s.matchSlot acyclic comparator policy x y i) := by
  rw [matchSlot]
  cases allowed : policy.allows (s.slot x i).size (s.slot y i).size with
  | false =>
    intro before
    refine .stop [] ?_
    rw [matchVisit, allowed]
    rfl
  | true =>
    rw [MatchRun.require_true_andThen]
    have visit (before : MatchTrace) :
        s.matchVisit comparator policy before (.slot (s.slot x i) (s.slot y i)) =
          .next before ((s.childPairs x y i).map fun pair => .pair pair.1 pair.2) := by
      rw [matchVisit, allowed]
      rfl
    refine .next visit ?_ (.all each)
    intro task mem
    -- a slot ranks above the pairs of its children
    obtain ⟨⟨a, b⟩, paired, rfl⟩ := List.mem_map.1 mem
    have inSlot : a ∈ (s.slot x i).toList.toFinset := List.mem_toFinset.2 (List.of_mem_zip paired).1
    have bound := Finset.le_sup (f := fun child => 2 * s.rank child + 2) inSlot
    exact Nat.lt_of_succ_le bound

theorem slot_rank_lt {i : Nat} (acyclic : s.Acyclic) (x : NodeId) :
    s.matchRank (.slot (s.slot x i) (s.slot y i)) < s.matchRank (.pair x y) := by
  rw [matchRank, matchRank, Finset.sup_lt_iff (Nat.succ_pos _)]
  intro child mem
  obtain ⟨index, at_child⟩ := List.mem_iff_getElem?.1 (List.mem_toFinset.1 mem)
  rw [Array.getElem?_toList] at at_child
  have lower := acyclic.rank_lt (mem_children_iff.2 ⟨i, index, at_child⟩)
  omega

theorem matchVisit_pair_of_ne (h : comparator x y ≠ .ok true) (before : MatchTrace) :
    s.matchVisit comparator policy before (.pair x y) =
      .stop ⟨comparator x y, before.push (x, y)⟩ := by
  cases answer : comparator x y with
  | error e => simp only [matchVisit, answer]
  | ok b =>
    cases b with
    | false => simp only [matchVisit, answer]
    | true => exact absurd answer h

theorem matchVisit_pair_of_slotCount_ne (h : comparator x y = .ok true)
    (slotCount : s.slotCount x ≠ s.slotCount y) (before : MatchTrace) :
    s.matchVisit comparator policy before (.pair x y) =
      .stop ⟨.ok false, before.push (x, y)⟩ := by
  simp only [matchVisit, h, if_pos slotCount]

theorem matchVisit_pair_of_slotCount (h : comparator x y = .ok true)
    (slotCount : s.slotCount x = s.slotCount y) (before : MatchTrace) :
    s.matchVisit comparator policy before (.pair x y) =
      .next (before.push (x, y))
        ((List.range (s.slotCount x)).map fun i => .slot (s.slot x i) (s.slot y i)) := by
  have as_many : ¬ s.slotCount x ≠ s.slotCount y := not_not.2 slotCount
  simp only [matchVisit, h, if_neg as_many, pairOff_slots slotCount, slotTasks, List.map_map]
  rfl

theorem runs_pair (x y : NodeId) :
    s.Runs comparator policy [.pair x y] (s.matchBelow acyclic comparator policy x y) := by
  induction x using acyclic.induction generalizing y with
  | step x ih =>
    rw [matchBelow_eq]
    intro before
    by_cases asked : (MatchRun.ask comparator x y).outcome = .ok true
    · have pushed : (MatchRun.ask comparator x y).ending before = .left (before.push (x, y)) :=
        MatchRun.ending_of_true asked before
      rw [MatchRun.ending_andThen, pushed, Worklist.Ending.bind]
      by_cases slotCount : s.slotCount x = s.slotCount y
      · have slots : s.Runs comparator policy
            ((List.range (s.slotCount x)).map fun i => .slot (s.slot x i) (s.slot y i))
            (.inTurn ((List.range (s.slotCount x)).map
              (s.matchSlot acyclic comparator policy x y))) :=
          .all fun i _ => runs_slot acyclic fun pair mem =>
            ih pair.1 (left_of_mem_childPairs mem) pair.2
        rw [beq_iff_eq.2 slotCount, MatchRun.require_true_andThen]
        refine .next (matchVisit_pair_of_slotCount asked slotCount before) ?_ ?_
        · intro task mem
          obtain ⟨i, -, rfl⟩ := List.mem_map.1 mem
          exact slot_rank_lt acyclic x
        · rw [List.append_nil]
          exact slots (before.push (x, y))
      · have stopped : (MatchRun.require false).outcome ≠ .ok true := by simp [MatchRun.require]
        rw [beq_eq_false_iff_ne.2 slotCount, MatchRun.andThen_of_ne stopped,
          MatchRun.ending_of_ne stopped]
        exact .stop [] (matchVisit_pair_of_slotCount_ne asked slotCount before)
    · rw [MatchRun.andThen_of_ne asked, MatchRun.ending_of_ne asked]
      exact .stop [] (matchVisit_pair_of_ne asked before)

theorem matchRank_pair_le (x y : NodeId) : s.matchRank (.pair x y) ≤ 2 * s.pairBound := by
  have bound := s.rank_le_count x
  have square := Nat.le_mul_self s.count
  show 2 * s.rank x + 1 ≤ 2 * (s.count * s.count + 1)
  omega

/-- The loop over a stack does what the recursion does. -/
theorem matchTrees_eq_matchBelow (x y : NodeId) (comparator : Comparator) (policy : CountPolicy) :
    s.matchTrees (some x) (some y) (some comparator) policy =
      s.matchBelow acyclic comparator policy x y := by
  have runs : s.Runs comparator policy [.pair x y] (s.matchBelow acyclic comparator policy x y) :=
    runs_pair acyclic x y
  have walked := (runs #[]).walk (fun trace => ⟨.ok true, trace⟩) (matchRank_pair_le x y)
  rw [matchTrees, matchNodes]
  simp only [walked, Option.getD_some]
  by_cases h : (s.matchBelow acyclic comparator policy x y).outcome = .ok true
  · rw [MatchRun.ending_of_true h, Worklist.Ending.answer, Array.empty_append, ← h]
  · rw [MatchRun.ending_of_ne h, Worklist.Ending.answer, Array.empty_append]

end SlotTree.Store
