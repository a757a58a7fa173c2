import Mathlib.Algebra.GroupWithZero.Nat
import SlotTree.Proofs.Containment
import SlotTree.Proofs.Occurrences

/-!
What a match asks its comparator. The calls are those of the recursion, in order: so the pattern
alone bounds their number, a match that succeeds asks at every place of the pattern, and nothing is
asked in a slot as long as the slots before it have not matched entirely.
-/

namespace SlotTree

namespace MatchRun

/-- The run asks at most `n` times, and exactly so often when it succeeds. -/
structure Asks (run : MatchRun) (n : Nat) : Prop where
  at_most : run.trace.size ≤ n
  exactly : run.outcome = .ok true → run.trace.size = n

theorem asks_ask (comparator : Comparator) (left right : NodeId) :
    (ask comparator left right).Asks 1 := ⟨Nat.le_refl 1, fun _ => rfl⟩

theorem Asks.andThen {first second : MatchRun} {m n : Nat} (hfirst : first.Asks m)
    (hsecond : second.Asks n) : (first.andThen second).Asks (m + n) := by
  by_cases h : first.outcome = .ok true
  · have here := hfirst.exactly h
    rw [andThen_of_true h]
    refine ⟨?_, fun succeeded => ?_⟩
    · rw [Array.size_append, here]
      exact Nat.add_le_add_left hsecond.at_most m
    · rw [Array.size_append, here, hsecond.exactly succeeded]
  · rw [andThen_of_ne h]
    exact ⟨Nat.le_add_right_of_le hfirst.at_most, fun succeeded => absurd succeeded h⟩

theorem Asks.require {condition : Bool} {run : MatchRun} {n : Nat}
    (h : condition = true → run.Asks n) : ((MatchRun.require condition).andThen run).Asks n := by
  cases condition with
  | true =>
    rw [require_true_andThen]
    exact h rfl
  | false => exact ⟨Nat.zero_le n, fun succeeded => by cases succeeded⟩

theorem Asks.inTurn {α : Type} {list : List α} {run : α → MatchRun} {count : α → Nat}
    (each : ∀ a ∈ list, (run a).Asks (count a)) :
    (MatchRun.inTurn (list.map run)).Asks (list.map count).sum := by
  induction list with
  | nil => exact ⟨Nat.le_refl 0, fun _ => rfl⟩
  | cons a list ih =>
    have rest := ih fun later mem => each later (List.mem_cons_of_mem a mem)
    exact (each a List.mem_cons_self).andThen rest

end MatchRun

namespace Store

variable {s : Store} {x y : NodeId} {comparator : Comparator} {policy : CountPolicy}
  (acyclic : s.Acyclic)

theorem matchBelow_asks (x y : NodeId) :
    (s.matchBelow acyclic comparator policy x y).Asks (s.copyOrder acyclic x).length := by
  induction x using acyclic.induction generalizing y with
  | step x ih =>
    rw [matchBelow_eq, length_copyOrder, children_eq_flatMap, List.map_flatMap, List.flatMap_def,
      List.sum_flatten, List.map_map]
    refine (MatchRun.asks_ask comparator x y).andThen (.require fun _ => .inTurn fun i _ => ?_)
    show (s.matchSlot acyclic comparator policy x y i).Asks
      (((s.slot x i).toList.map fun child => (s.copyOrder acyclic child).length).sum)
    refine .require fun allowed => ?_
    rw [← childPairs_fst (CountPolicy.le_of_allows allowed), List.map_map]
    exact .inTurn fun pair mem => ih pair.1 (left_of_mem_childPairs mem) pair.2

def matchFirstSlots (s : Store) (acyclic : s.Acyclic) (comparator : Comparator)
    (policy : CountPolicy) (x y : NodeId) (i : Nat) : MatchRun :=
  .inTurn ((List.range i).map (s.matchSlot acyclic comparator policy x y))

theorem matchBelow_of_first_slots {i : Nat} (within : i ≤ s.slotCount x)
    (slotCount : s.slotCount x = s.slotCount y)
    (fails : (s.matchFirstSlots acyclic comparator policy x y i).outcome ≠ .ok true) :
    s.matchBelow acyclic comparator policy x y =
      (MatchRun.ask comparator x y).andThen
        (s.matchFirstSlots acyclic comparator policy x y i) := by
  obtain ⟨later, total⟩ := Nat.exists_eq_add_of_le within
  rw [matchFirstSlots] at fails ⊢
  rw [matchBelow_eq, beq_iff_eq.2 slotCount, MatchRun.require_true_andThen, total, List.range_add,
    List.map_append, MatchRun.inTurn_append, MatchRun.andThen_of_ne fails]

/-- A match is the short-circuiting recursion, in its outcome and in what it asks. So where the
first slots of a pair do not all match, nothing of the slots behind them shows; and the comparator
is asked once for each place in the pattern, or less often when the match does not succeed. -/
theorem matchTrees_short_circuits {s : Store} (acyclic : s.Acyclic) (x y : NodeId)
    (comparator : Comparator) (policy : CountPolicy) :
    s.matchTrees (some x) (some y) (some comparator) policy =
      s.matchBelow acyclic comparator policy x y ∧
    (∀ i ≤ s.slotCount x, s.slotCount x = s.slotCount y →
      (s.matchFirstSlots acyclic comparator policy x y i).outcome ≠ .ok true →
      s.matchTrees (some x) (some y) (some comparator) policy =
        (MatchRun.ask comparator x y).andThen
          (s.matchFirstSlots acyclic comparator policy x y i)) ∧
    ∃ n, s.occurrences (some x) = .ok n ∧
      (s.matchTrees (some x) (some y) (some comparator) policy).trace.size ≤ n ∧
      ((s.matchTrees (some x) (some y) (some comparator) policy).outcome = .ok true →
        (s.matchTrees (some x) (some y) (some comparator) policy).trace.size = n) := by
  rw [matchTrees_eq_matchBelow acyclic]
  have asks : (s.matchBelow acyclic comparator policy x y).Asks (s.copyOrder acyclic x).length :=
    matchBelow_asks acyclic x y
  refine ⟨rfl, fun i within slotCount fails => ?_,
    _, occurrences_eq acyclic x, asks.at_most, asks.exactly⟩
  exact matchBelow_of_first_slots acyclic within slotCount fails

theorem matchTrees_short_circuits_trellis :
    ∃ acyclic : trellis.Acyclic, ∃ failing accepting : Comparator,
    (trellis.matchTrees (some 2) (some 2) (some failing) .lenient =
      trellis.matchBelow acyclic failing .lenient 2 2 ∧
      1 ≤ trellis.slotCount 2 ∧
      (trellis.matchFirstSlots acyclic failing .lenient 2 2 1).outcome ≠ .ok true ∧
      trellis.matchTrees (some 2) (some 2) (some failing) .lenient =
        (MatchRun.ask failing 2 2).andThen
          (trellis.matchFirstSlots acyclic failing .lenient 2 2 1)) ∧
    ∃ n, trellis.occurrences (some 2) = .ok n ∧
      (trellis.matchTrees (some 2) (some 2) (some accepting) .strict).outcome = .ok true ∧
      (trellis.matchTrees (some 2) (some 2) (some accepting) .strict).trace.size = n := by
  have acyclic := trellis_closed_acyclic.2
  let failing : Comparator := fun left _ =>
    if left = 1 then .error (.refused "comparator" .nan) else .ok true
  let accepting : Comparator := fun _ _ => .ok true
  obtain ⟨recursion, first_slots, -⟩ := matchTrees_short_circuits acyclic 2 2 failing .lenient
  obtain ⟨-, -, n, size, -, exactly⟩ := matchTrees_short_circuits acyclic 2 2 accepting .strict
  have within : 1 ≤ trellis.slotCount 2 := by decide
  have fails : (trellis.matchFirstSlots acyclic failing .lenient 2 2 1).outcome ≠ .ok true := by
    intro succeeds
    have slot := MatchRun.outcome_inTurn_eq_true_iff.1 succeeds _
      (List.mem_map_of_mem (List.mem_range.2 Nat.zero_lt_one))
    have pair : (1, 1) ∈ trellis.childPairs 2 2 0 := mem_childPairs.2 ⟨1, rfl, rfl⟩
    have below := ((outcome_matchSlot_eq_true_iff acyclic 2 2 0).1 slot).2 (1, 1) pair
    have contained := (outcome_matchBelow_eq_true_iff acyclic 1 1).1 below
    have accepted : failing 1 1 = .ok true := (containedIn_iff.1 contained).1.accepted
    simp [failing] at accepted
  have succeeds :
      (trellis.matchTrees (some 2) (some 2) (some accepting) .strict).outcome = .ok true := by
    rw [matchTrees_eq_matchBelow acyclic, outcome_matchBelow_eq_true_iff]
    intro p left hp
    exact ⟨left, hp, rfl, rfl, fun _ _ => .inr rfl⟩
  exact ⟨acyclic, failing, accepting,
    ⟨recursion, within, fails, first_slots 1 within rfl fails⟩, n, size, succeeds,
    exactly succeeds⟩

end Store
end SlotTree
