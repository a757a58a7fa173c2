import Mathlib.Tactic.TFAE
import SlotTree.Proofs.Containment
import SlotTree.Proofs.TreeEquality

/-!
Matching by payloads as an order on trees. It is transitive under either policy, and what matches
strictly matches leniently under every comparator. Two trees that match each other are equal, though
their children counts were only bounded from both sides; and away from `nan` equal trees match each
other. A tree that carries `nan` equals itself and does not even match itself.
-/

namespace SlotTree

namespace CountPolicy

variable {policy : CountPolicy} {a b c : Nat}

theorem admits_self (policy : CountPolicy) (n : Nat) : policy.Admits n n :=
  allows_iff.1 (policy.allows_self n)

theorem Admits.trans (h : policy.Admits a b) (h' : policy.Admits b c) : policy.Admits a c := by
  cases policy with
  | lenient => exact Nat.le_trans h h'
  | strict =>
    -- an empty slot in the middle has only empty ones in front of it
    obtain empty | rfl := h
    · exact .inl empty
    · exact h'

theorem Admits.lenient (h : policy.Admits a b) : CountPolicy.lenient.Admits a b :=
  le_of_allows (allows_iff.2 h)

end CountPolicy

namespace Store

variable {s : Store} {x y z : NodeId} {accepts : NodeId → NodeId → Prop} {policy : CountPolicy}

/-! Containment. -/

theorem Fits.trans (transitive : ∀ a b c, accepts a b → accepts b c → accepts a c)
    (h : s.Fits accepts policy x y) (h' : s.Fits accepts policy y z) :
    s.Fits accepts policy x z where
  accepted := transitive x y z h.accepted h'.accepted
  slotCount := h.slotCount.trans h'.slotCount
  admitted i hi := (h.admitted i hi).trans (h'.admitted i (h.slotCount ▸ hi))

theorem ContainedIn.trans (transitive : ∀ a b c, accepts a b → accepts b c → accepts a c)
    (h : s.ContainedIn accepts policy x y) (h' : s.ContainedIn accepts policy y z) :
    s.ContainedIn accepts policy x z := by
  intro p left hp
  obtain ⟨middle, hq, fits⟩ := h p left hp
  obtain ⟨right, hr, fits'⟩ := h' p middle hq
  exact ⟨right, hr, fits.trans transitive fits'⟩

theorem ContainedIn.lenient (h : s.ContainedIn accepts policy x y) :
    s.ContainedIn accepts .lenient x y := by
  intro p left hp
  obtain ⟨right, at_end, fits⟩ := h p left hp
  exact ⟨right, at_end, fits.accepted, fits.slotCount, fun i hi => (fits.admitted i hi).lenient⟩

def AlikePayloads (s : Store) (x y : NodeId) : Prop := (s.payload x).alike (s.payload y) = true

theorem agree_of_mutual (h : s.ContainedIn s.AlikePayloads policy x y)
    (h' : s.ContainedIn s.AlikePayloads policy y x) (p : Path) :
    Option.Rel s.AgreeAt (s.nodeAt x p) (s.nodeAt y p) := by
  cases hx : s.nodeAt x p with
  | some left =>
    obtain ⟨right, hy, fits⟩ := h p left hx
    rw [hy]
    exact .some ⟨fits.accepted, fits.slotCount⟩
  | none =>
    cases hy : s.nodeAt y p with
    | none => exact .none
    | some right =>
      obtain ⟨left, hx', -⟩ := h' p right hy
      cases hx.symm.trans hx'

theorem PlainlyEqual.fits (h : s.PlainlyEqual x y) (policy : CountPolicy) :
    s.Fits s.AlikePayloads policy x y where
  accepted := h.agreeAt.1
  slotCount := h.agreeAt.2
  admitted i _ := by
    rw [h.equal.size i]
    exact policy.admits_self _

theorem PlainlyEqual.containedIn (h : s.PlainlyEqual x y) (policy : CountPolicy) :
    s.ContainedIn s.AlikePayloads policy x y := by
  intro p left hp
  have related := h.nodeAt p
  rw [hp] at related
  obtain ⟨right, hq, equal⟩ := exists_right_of_rel related
  exact ⟨right, hq, equal.fits policy⟩

/-! Matching. -/

def Matches (s : Store) (comparator : Comparator) (policy : CountPolicy) (x y : NodeId) : Prop :=
  (s.matchTrees (some x) (some y) (some comparator) policy).outcome = .ok true

def matchPayloads (s : Store) (policy : CountPolicy) (x y : NodeId) : Except Fault Bool :=
  (s.matchTrees (some x) (some y) (some s.comparePayloads) policy).outcome

section Matching

variable (acyclic : s.Acyclic)
include acyclic

theorem matches_iff {comparator : Comparator} : s.Matches comparator policy x y ↔
    s.ContainedIn (fun left right => comparator left right = .ok true) policy x y := by
  rw [Matches, matchTrees_eq_matchBelow acyclic, outcome_matchBelow_eq_true_iff]

theorem matches_payloads_iff : s.Matches s.comparePayloads policy x y ↔
    s.ContainedIn s.AlikePayloads policy x y := by
  have compared : (fun left right => s.comparePayloads left right = .ok true) =
      s.AlikePayloads := by
    funext left right
    exact Except.ok.injEq ..
  rw [matches_iff acyclic, compared]

theorem matchPayloads_eq_ok (policy : CountPolicy) (x y : NodeId) :
    ∃ b, s.matchPayloads policy x y = .ok b ∧
      (b = true ↔ s.ContainedIn s.AlikePayloads policy x y) := by
  obtain ⟨b, answer⟩ : ∃ b, s.matchPayloads policy x y = .ok b := by
    rw [matchPayloads, matchTrees_eq_matchBelow acyclic]
    exact matchBelow_decides acyclic (fun left right => ⟨_, rfl⟩) x y
  refine ⟨b, answer, ?_⟩
  rw [← matches_payloads_iff acyclic, Matches, ← matchPayloads, answer, Except.ok.injEq]

end Matching

theorem AlikePayloads.trans (a b c : NodeId) (h : s.AlikePayloads a b) (h' : s.AlikePayloads b c) :
    s.AlikePayloads a c := Payload.laws.trans h h'

/-- Matching by payloads is transitive, strict matches are lenient ones whatever the comparator,
and trees that match each other are equal; away from `nan`, equality and both ways of matching each
other are one relation. -/
theorem matches_order {s : Store} (acyclic : s.Acyclic) :
    (∀ policy x y z, s.Matches s.comparePayloads policy x y →
      s.Matches s.comparePayloads policy y z → s.Matches s.comparePayloads policy x z) ∧
    (∀ comparator x y, s.Matches comparator .strict x y → s.Matches comparator .lenient x y) ∧
    (∀ x y, s.Matches s.comparePayloads .lenient x y → s.Matches s.comparePayloads .lenient y x →
      s.equal (some x) (some y) = .ok true) ∧
    ∀ x y, (∀ z, s.Reaches x z ∨ s.Reaches y z → s.payload z ≠ .nan) → List.TFAE [
      s.equal (some x) (some y) = .ok true,
      s.Matches s.comparePayloads .lenient x y ∧ s.Matches s.comparePayloads .lenient y x,
      s.Matches s.comparePayloads .strict x y ∧ s.Matches s.comparePayloads .strict y x] := by
  simp only [matches_payloads_iff acyclic, matches_iff acyclic, equal_eq_true_iff acyclic]
  have equal_of_mutual (x y : NodeId) (h : s.ContainedIn s.AlikePayloads .lenient x y)
      (h' : s.ContainedIn s.AlikePayloads .lenient y x) : s.TreeEq x y :=
    treeEq_of_agree acyclic (agree_of_mutual h h')
  refine ⟨fun policy x y z => .trans AlikePayloads.trans, fun comparator x y => .lenient,
    equal_of_mutual, fun x y numbers => ?_⟩
  tfae_have 1 → 3 := by
    intro equal
    have forward : s.PlainlyEqual x y := ⟨equal, fun z reached => numbers z (.inl reached)⟩
    have back : s.PlainlyEqual y x := ⟨equal.symm, fun z reached => numbers z (.inr reached)⟩
    exact ⟨forward.containedIn .strict, back.containedIn .strict⟩
  tfae_have 3 → 2 := fun both => ⟨both.1.lenient, both.2.lenient⟩
  tfae_have 2 → 1 := fun both => equal_of_mutual x y both.1 both.2
  tfae_finish

def boughs : Store := ⟨#[
  ⟨.growable, .value (.bool true), #[]⟩,
  ⟨.growable, .value .null, #[#[]]⟩,
  ⟨.growable, .value .null, #[#[0]]⟩,
  ⟨.growable, .value .null, #[#[0, 0]]⟩,
  ⟨.frozen, .value .null, #[#[0]]⟩,
  ⟨.frozen, .value (.int 1), #[]⟩,
  ⟨.growable, .value .null, #[#[5]]⟩]⟩

theorem matches_order_boughs :
    boughs.Acyclic ∧
    (boughs.Matches boughs.comparePayloads .strict 1 2 ∧
      boughs.Matches boughs.comparePayloads .strict 2 6 ∧
      boughs.Matches boughs.comparePayloads .strict 1 6) ∧
    (boughs.Matches boughs.comparePayloads .lenient 1 2 ∧
      boughs.Matches boughs.comparePayloads .lenient 2 3 ∧
      boughs.Matches boughs.comparePayloads .lenient 1 3) ∧
    ¬ boughs.Matches boughs.comparePayloads .strict 2 3 ∧
    (∀ z, boughs.Reaches 4 z ∨ boughs.Reaches 6 z → boughs.payload z ≠ .nan) ∧
    boughs.Matches boughs.comparePayloads .strict 4 6 ∧
    boughs.Matches boughs.comparePayloads .strict 6 4 ∧
    boughs.equal (some 4) (some 6) = .ok true := by
  have acyclic : boughs.Acyclic := (closed_acyclic_of_children_lt (s := boughs) (by decide)).2
  have matched {policy : CountPolicy} {x y : NodeId}
      (run : (boughs.matchTrees (some x) (some y) (some boughs.comparePayloads) policy).outcome =
        .ok true) : boughs.Matches boughs.comparePayloads policy x y := run
  have bare : boughs.Matches boughs.comparePayloads .strict 1 2 := matched (by cbv)
  have same : boughs.Matches boughs.comparePayloads .strict 2 6 := matched (by cbv)
  have more : boughs.Matches boughs.comparePayloads .lenient 2 3 := matched (by cbv)
  have fewer : ¬ boughs.Matches boughs.comparePayloads .strict 2 3 := by
    unfold Matches
    cbv
    simp
  have numbers (z : NodeId) : boughs.payload z ≠ .nan := by
    by_cases within : z < boughs.count
    · have all : ∀ z < boughs.count, boughs.payload z ≠ .nan := by decide
      exact all z within
    · rw [payload, node_of_le (Nat.le_of_not_lt within)]
      decide
  have plain (z : NodeId) (_ : boughs.Reaches 4 z ∨ boughs.Reaches 6 z) := numbers z
  have forward : boughs.Matches boughs.comparePayloads .strict 4 6 := matched (by cbv)
  have back : boughs.Matches boughs.comparePayloads .strict 6 4 := matched (by cbv)
  obtain ⟨transitive, lenient, -, equivalent⟩ := matches_order acyclic
  have weaker := lenient boughs.comparePayloads 1 2 bare
  have equal_iff : boughs.equal (some 4) (some 6) = .ok true ↔
      boughs.Matches boughs.comparePayloads .strict 4 6 ∧
      boughs.Matches boughs.comparePayloads .strict 6 4 := (equivalent 4 6 plain).out 0 2
  exact ⟨acyclic, ⟨bare, same, transitive .strict 1 2 6 bare same⟩,
    ⟨weaker, more, transitive .lenient 1 2 3 weaker more⟩, fewer, plain, forward, back,
    equal_iff.2 ⟨forward, back⟩⟩

end Store
end SlotTree
