import SlotTree.Proofs.Acyclicity
import SlotTree.Proofs.Unfoldings

/-!
Copies and snapshots against what they were made of. A replica has the tree of its source but no
node of it, so a comparison never takes one of its nodes for equal at sight, and meets all payloads
of the source beside themselves; so does a match, even of a tree with itself. Each of them answers
the same: whether any of these payloads is `nan`. Only a node compared with itself is equal in any
case.
-/

namespace SlotTree.Store

variable {s t : Store} {x y c : NodeId} {policy : CountPolicy}

/-! Two nodes of one tree in one store. -/

theorem containedIn_iff_plain (same : s.SameTree s x y) :
    s.ContainedIn s.AlikePayloads policy x y ↔ s.Plain x := by
  refine ⟨fun contained z reached => ?_, fun plain p left hp => ?_⟩
  · obtain ⟨p, hp⟩ := reaches_iff_nodeAt.1 reached
    obtain ⟨right, hr, fits⟩ := contained p z hp
    have ends := same p
    rw [hp, hr] at ends
    cases ends with
    | some outline =>
      have accepted : (s.payload z).alike (s.payload right) = true := fits.accepted
      rw [← outline.1] at accepted
      exact Payload.alike_self_iff.1 accepted
  · have ends := same p
    rw [hp] at ends
    obtain ⟨right, hr, outline⟩ := exists_right_of_rel ends
    have numbers := plain left (reaches_iff_nodeAt.2 ⟨p, hp⟩)
    refine ⟨right, hr, ?_, outline.slotCount, fun i _ => ?_⟩
    · rw [AlikePayloads, ← outline.1]
      exact Payload.alike_self_iff.2 numbers
    · rw [outline.size_slot i]
      exact policy.admits_self _

theorem treeEq_iff_plain (acyclic : s.Acyclic) (same : s.SameTree s x y)
    (apart : ∀ z, s.Reaches x z → ¬ s.Reaches y z) : s.TreeEq x y ↔ s.Plain x := by
  refine ⟨fun equal z reached => ?_, fun plain => ?_⟩
  · obtain ⟨p, hp⟩ := reaches_iff_nodeAt.1 reached
    have ends := equal.nodeAt p
    have outlines := same p
    rw [hp] at ends outlines
    obtain ⟨w, hw, equal⟩ := exists_right_of_rel ends
    rw [hw] at outlines
    cases outlines with
    | some outline =>
      -- one node at the end of `p` in both trees would be shared by them
      have ne : z ≠ w := by
        rintro rfl
        exact apart z reached (reaches_iff_nodeAt.2 ⟨p, hw⟩)
      have alike := (equal.alike_of_ne ne).payload
      rw [← outline.1] at alike
      exact Payload.alike_self_iff.1 alike
  · have forward : s.ContainedIn s.AlikePayloads .strict x y := (containedIn_iff_plain same).2 plain
    have back : s.ContainedIn s.AlikePayloads .strict y x :=
      (containedIn_iff_plain same.symm).2 (same.plain plain)
    exact treeEq_of_agree acyclic (agree_of_mutual forward back)

theorem SameTree.plain_iff (same : s.SameTree t x y) : s.Plain x ↔ t.Plain y :=
  ⟨same.plain, same.symm.plain⟩

/-! Replicas. -/

/-- `c` has, in a later store, the tree that `x` had before, and is made of new nodes. -/
structure Replica (s t : Store) (x c : NodeId) : Prop where
  kept : s.KeptIn t
  acyclic : t.Acyclic
  same : s.SameTree t x c
  new : ∀ z, t.Reaches c z → s.count ≤ z

namespace Replica

variable (replica : s.Replica t x c) (closed : s.Closed) (hx : x < s.count)
include replica closed hx

theorem beside : t.SameTree t x c := (replica.kept.sameTree closed hx).symm.trans replica.same

variable {plain : Bool} (decides : plain = true ↔ s.Plain x)
include decides

theorem equal : t.equal (some c) (some x) = .ok plain := by
  have apart (z : NodeId) (reached : t.Reaches c z) : ¬ t.Reaches x z :=
    replica.kept.not_reaches_new closed hx (replica.new z reached)
  refine eq_ok_of_decides (equal_eq_ok replica.acyclic c x) ?_
  rw [treeEq_iff_plain replica.acyclic (replica.beside closed hx).symm apart, decides]
  exact replica.same.plain_iff

theorem matched (policy : CountPolicy) : t.matchPayloads policy x c = .ok plain := by
  refine eq_ok_of_decides (matchPayloads_eq_ok replica.acyclic policy x c) ?_
  rw [containedIn_iff_plain (replica.beside closed hx), decides]
  exact (replica.kept.sameTree closed hx).plain_iff

theorem matches_back (policy : CountPolicy) : t.matchPayloads policy c x = .ok plain := by
  refine eq_ok_of_decides (matchPayloads_eq_ok replica.acyclic policy c x) ?_
  rw [containedIn_iff_plain (replica.beside closed hx).symm, decides]
  exact replica.same.plain_iff

end Replica

theorem CopiedTree.replica {acyclic : s.Acyclic} {copying : Copying}
    (copied : s.CopiedTree acyclic x copying) (closed : s.Closed) :
    s.Replica copying.store x s.count where
  kept := copied.kept
  acyclic := copied.acyclic closed
  same := copied.sameTree
  new _ reached := (copied.new_of_reaches reached).2.1

theorem Built.replica {acyclic : s.Acyclic} (built : s.Built (s.treeOrder acyclic x) t)
    (closed : s.Closed) :
    s.Replica t x (s.count + ((s.treeOrder acyclic x).length - 1)) where
  kept := built.kept
  acyclic := built.frozenOnto.acyclic closed acyclic
  same := built.simulation.sameTree (builtFor_root acyclic)
  new _ reached := by
    obtain ⟨y, -, related⟩ := built.simulation.reaches (builtFor_root acyclic) reached
    exact (built.new_of_builtFor related).2.1

/-- Whether a growable node equals its copy, whether it equals its snapshot, and whether it matches
one of them or itself, is one question: whether its tree carries no `nan`. A node always equals
itself. -/
theorem round_trips_iff_plain {s : Store} {x : NodeId} (closed : s.Closed) (acyclic : s.Acyclic)
    (hx : x < s.count) (growable : s.kind x = .growable) :
    (∃ plain : Bool, (plain = true ↔ ∀ z, s.Reaches x z → s.payload z ≠ .nan) ∧
      (∃ c t n, s.copyTree (some x) = ⟨.ok (c, t), [.copied n]⟩ ∧
        t.equal (some c) (some x) = .ok plain ∧
        ∀ policy, t.matchPayloads policy x c = .ok plain) ∧
      (∃ r u, s.snapshot x = .ok (r, u) ∧ u.equal (some r) (some x) = .ok plain ∧
        ∀ policy, u.matchPayloads policy r x = .ok plain) ∧
      ∀ policy, s.matchPayloads policy x x = .ok plain) ∧
    ∀ y, s.equal (some y) (some y) = .ok true := by
  classical
  refine ⟨⟨decide (s.Plain x), decide_eq_true_iff, ?copy, ?snapshot, fun policy => ?itself⟩,
    fun y => (equal_eq_true_iff acyclic).2 (.same y)⟩
  case copy =>
    obtain ⟨copying, run, copied⟩ := copyTree_copiedTree closed acyclic hx
    have replica := copied.replica closed
    exact ⟨_, _, _, run, replica.equal closed hx decide_eq_true_iff,
      replica.matched closed hx decide_eq_true_iff⟩
  case snapshot =>
    obtain ⟨u, run, built⟩ := rebuildFrozen_built closed acyclic hx
    have replica := built.replica closed
    exact ⟨_, u, by simpa [snapshot, growable] using run,
      replica.equal closed hx decide_eq_true_iff, replica.matches_back closed hx decide_eq_true_iff⟩
  case itself =>
    refine eq_ok_of_decides (matchPayloads_eq_ok acyclic policy x x) ?_
    rw [containedIn_iff_plain (.refl s x)]
    exact decide_eq_true_iff

theorem round_trips_iff_plain_trellis :
    trellis.Closed ∧ trellis.Acyclic ∧
    (0 < trellis.count ∧ trellis.kind 0 = .growable ∧
      (∃ c t n, trellis.copyTree (some 0) = ⟨.ok (c, t), [.copied n]⟩ ∧
        t.equal (some c) (some 0) = .ok true) ∧
      trellis.matchPayloads .strict 0 0 = .ok true) ∧
    2 < trellis.count ∧ trellis.kind 2 = .growable ∧
    trellis.Reaches 2 1 ∧ trellis.payload 1 = .nan ∧
    (∃ r u, trellis.snapshot 2 = .ok (r, u) ∧ u.equal (some r) (some 2) = .ok false) ∧
    trellis.matchPayloads .lenient 2 2 = .ok false ∧
    trellis.equal (some 2) (some 2) = .ok true := by
  obtain ⟨closed, acyclic⟩ := trellis_closed_acyclic
  have leaf : 0 < trellis.count := by decide
  have root : 2 < trellis.count := by decide
  have below : trellis.Reaches 2 1 := .step (by decide) (.refl 1)
  obtain ⟨⟨plain, decides, ⟨c, t, n, copied, equal, -⟩, -, itself⟩, -⟩ :=
    round_trips_iff_plain closed acyclic leaf rfl
  obtain rfl : plain = true := decides.2 fun z reached => by
    rw [Nat.le_zero.1 (le_of_reaches trellis_children_lt reached)]
    decide
  obtain ⟨⟨plain', decides', -, ⟨r, u, frozen, unequal, -⟩, unmatched⟩, self⟩ :=
    round_trips_iff_plain closed acyclic root rfl
  obtain rfl : plain' = false := Bool.eq_false_iff.2 fun h => decides'.1 h 1 below rfl
  exact ⟨closed, acyclic, ⟨leaf, rfl, ⟨c, t, n, copied, equal⟩, itself .strict⟩, root, rfl, below,
    rfl, ⟨r, u, frozen, unequal⟩, unmatched .lenient, self 2⟩

end SlotTree.Store
