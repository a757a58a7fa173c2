import SlotTree.Proofs.MatchRecursion

/-!
What a successful match means. A pattern is contained in a target when every path of the pattern is
a path of the target, to a node that the comparator accepts, that has as many slots, and whose
children counts the policy admits. A match decides containment, and fails to answer only where its
comparator does.
-/

namespace SlotTree

def CountPolicy.Admits : CountPolicy → Nat → Nat → Prop
  | lenient, pattern, target => pattern ≤ target
  | strict, pattern, target => pattern = 0 ∨ pattern = target

theorem CountPolicy.allows_iff {policy : CountPolicy} {pattern target : Nat} :
    policy.allows pattern target = true ↔ policy.Admits pattern target := by
  cases policy <;> simp [allows, Admits]

namespace Store

variable {s : Store} {x y : NodeId} {accepts : NodeId → NodeId → Prop} {policy : CountPolicy}

structure Fits (s : Store) (accepts : NodeId → NodeId → Prop) (policy : CountPolicy)
    (left right : NodeId) : Prop where
  accepted : accepts left right
  slotCount : s.slotCount left = s.slotCount right
  admitted : ∀ i < s.slotCount left, policy.Admits (s.slot left i).size (s.slot right i).size

/-- Every path of the pattern `x` is a path of the target `y`, to a node that fits. -/
def ContainedIn (s : Store) (accepts : NodeId → NodeId → Prop) (policy : CountPolicy)
    (x y : NodeId) : Prop :=
  ∀ p left, s.nodeAt x p = some left →
    ∃ right, s.nodeAt y p = some right ∧ s.Fits accepts policy left right

theorem Fits.childAt (fits : s.Fits accepts policy x y) {slot index : Nat} {a : NodeId}
    (ha : s.childAt x slot index = some a) : ∃ b, s.childAt y slot index = some b := by
  have allowed := CountPolicy.allows_iff.2 (fits.admitted slot (lt_slotCount_of_childAt ha))
  have within : index < (s.slot x slot).size := lt_size_slot_iff.2 (by rw [ha]; rfl)
  have beside := Nat.lt_of_lt_of_le within (CountPolicy.le_of_allows allowed)
  exact Option.isSome_iff_exists.1 (lt_size_slot_iff.1 beside)

theorem containedIn_iff : s.ContainedIn accepts policy x y ↔
    s.Fits accepts policy x y ∧ ∀ i < s.slotCount x, ∀ pair ∈ s.childPairs x y i,
      s.ContainedIn accepts policy pair.1 pair.2 := by
  refine ⟨fun h => ⟨?top, ?below⟩, fun h => ?paths⟩
  case top =>
    obtain ⟨right, at_end, fits⟩ := h [] x rfl
    cases at_end
    exact fits
  case below =>
    intro i _ pair mem p left hp
    obtain ⟨index, ha, hb⟩ := mem_childPairs.1 mem
    have longer : s.nodeAt x ((i, index) :: p) = some left := by rw [nodeAt, ha]; exact hp
    obtain ⟨right, at_end, fits⟩ := h _ left longer
    rw [nodeAt, hb] at at_end
    exact ⟨right, at_end, fits⟩
  case paths =>
    obtain ⟨fits, below⟩ := h
    intro p left hp
    cases p with
    | nil =>
      cases hp
      exact ⟨y, rfl, fits⟩
    | cons step p =>
      obtain ⟨slot, index⟩ := step
      obtain ⟨a, ha, hp⟩ := Option.bind_eq_some_iff.1 hp
      obtain ⟨b, hb⟩ := fits.childAt ha
      have pair := mem_childPairs.2 ⟨index, ha, hb⟩
      obtain ⟨right, at_end, fits⟩ := below slot (lt_slotCount_of_childAt ha) (a, b) pair p left hp
      refine ⟨right, ?_, fits⟩
      rw [nodeAt, hb]
      exact at_end

variable (acyclic : s.Acyclic) {comparator : Comparator}

theorem outcome_matchSlot_eq_true_iff (x y : NodeId) (i : Nat) :
    (s.matchSlot acyclic comparator policy x y i).outcome = .ok true ↔
      policy.Admits (s.slot x i).size (s.slot y i).size ∧ ∀ pair ∈ s.childPairs x y i,
        (s.matchBelow acyclic comparator policy pair.1 pair.2).outcome = .ok true := by
  rw [matchSlot, MatchRun.outcome_andThen_eq_true_iff, MatchRun.outcome_inTurn_eq_true_iff,
    List.forall_mem_map, MatchRun.require, Except.ok.injEq, CountPolicy.allows_iff]

theorem outcome_matchBelow_eq_true_iff (x y : NodeId) :
    (s.matchBelow acyclic comparator policy x y).outcome = .ok true ↔
      s.ContainedIn (fun left right => comparator left right = .ok true) policy x y := by
  induction x using acyclic.induction generalizing y with
  | step x ih =>
    have slot (i : Nat) : (s.matchSlot acyclic comparator policy x y i).outcome = .ok true ↔
        policy.Admits (s.slot x i).size (s.slot y i).size ∧ ∀ pair ∈ s.childPairs x y i,
          s.ContainedIn (fun left right => comparator left right = .ok true) policy
            pair.1 pair.2 := by
      rw [outcome_matchSlot_eq_true_iff]
      refine and_congr_right fun _ => forall₂_congr fun pair mem => ?_
      exact ih pair.1 (left_of_mem_childPairs mem) pair.2
    rw [matchBelow_eq, MatchRun.outcome_andThen_eq_true_iff, MatchRun.outcome_andThen_eq_true_iff,
      MatchRun.outcome_inTurn_eq_true_iff, List.forall_mem_map, MatchRun.require, MatchRun.ask,
      Except.ok.injEq, beq_iff_eq, containedIn_iff]
    simp only [List.mem_range, slot]
    refine ⟨fun h => ?_, fun h => ?_⟩
    · obtain ⟨accepted, slotCount, slots⟩ := h
      exact ⟨⟨accepted, slotCount, fun i hi => (slots i hi).1⟩, fun i hi => (slots i hi).2⟩
    · obtain ⟨fits, below⟩ := h
      exact ⟨fits.accepted, fits.slotCount, fun i hi => ⟨fits.admitted i hi, below i hi⟩⟩

theorem matchBelow_decides (total : ∀ left right, ∃ b, comparator left right = .ok b)
    (x y : NodeId) : (s.matchBelow acyclic comparator policy x y).Decides := by
  induction x using acyclic.induction generalizing y with
  | step x ih =>
    have require (condition : Bool) : (MatchRun.require condition).Decides := ⟨condition, rfl⟩
    rw [matchBelow_eq]
    refine .andThen (total x y) (.andThen (require _) (.inTurn ?_))
    rw [List.forall_mem_map]
    intro i _
    refine .andThen (require _) (.inTurn ?_)
    rw [List.forall_mem_map]
    intro pair mem
    exact ih pair.1 (left_of_mem_childPairs mem) pair.2

/-- Under a comparator that always answers, a match decides whether the pattern is contained in the
target. -/
theorem matchTrees_decides_containment {s : Store} (acyclic : s.Acyclic) (x y : NodeId)
    (accepts : NodeId → NodeId → Bool) (policy : CountPolicy) :
    ∃ b, (s.matchTrees (some x) (some y) (some fun left right => .ok (accepts left right))
        policy).outcome = .ok b ∧
      (b = true ↔ s.ContainedIn (fun left right => accepts left right = true) policy x y) := by
  rw [matchTrees_eq_matchBelow acyclic]
  let comparator : Comparator := fun left right => .ok (accepts left right)
  have decides : (s.matchBelow acyclic comparator policy x y).Decides :=
    matchBelow_decides acyclic (fun left right => ⟨accepts left right, rfl⟩) x y
  have succeeds : (s.matchBelow acyclic comparator policy x y).outcome = .ok true ↔
      s.ContainedIn (fun left right => comparator left right = .ok true) policy x y :=
    outcome_matchBelow_eq_true_iff acyclic x y
  have same : (fun left right => comparator left right = .ok true) =
      fun left right => accepts left right = true := by
    funext left right
    exact Except.ok.injEq ..
  obtain ⟨b, answer⟩ := decides
  rw [answer, same, Except.ok.injEq] at succeeds
  exact ⟨b, answer, succeeds⟩

theorem matchTrees_decides_containment_trellis :
    trellis.Acyclic ∧
    ∃ b, (trellis.matchTrees (some 2) (some 2) (some fun left right =>
        .ok ((trellis.payload left).alike (trellis.payload right))) .strict).outcome = .ok b ∧
      (b = true ↔ trellis.ContainedIn (fun left right =>
        (trellis.payload left).alike (trellis.payload right) = true) .strict 2 2) := by
  have acyclic := trellis_closed_acyclic.2
  exact ⟨acyclic, matchTrees_decides_containment acyclic 2 2
    (fun left right => (trellis.payload left).alike (trellis.payload right)) .strict⟩

end Store
end SlotTree
