import SlotTree.Proofs.Copies
import SlotTree.Proofs.Hashes
import SlotTree.Proofs.MatchOrder
import SlotTree.Proofs.PreOrder

/-!
What is done with a tree depends on its unfolding: on the paths that lead down from it, and on the
payload and the number of slots at the end of each. Neither the kinds of the nodes show nor how they
are shared, not even between two stores. A relation between nodes that passes to their children says
so of one walk after the other; only where a comparison meets `nan` does it matter which node it is.
-/

namespace SlotTree.Store

variable {s t : Store} {x y m m' : NodeId} {R : NodeId → NodeId → Prop}

/-- The same paths lead somewhere, and always to one payload and one number of slots. -/
def SameUnfolding (s t : Store) (x y : NodeId) : Prop :=
  ∀ p, Option.Rel (fun a b => s.payload a = t.payload b ∧ s.slotCount a = t.slotCount b)
    (s.nodeAt x p) (t.nodeAt y p)

theorem sameTree_iff_sameUnfolding : s.SameTree t x y ↔ s.SameUnfolding t x y := by
  refine ⟨fun same p => ?_, fun same p => ?_⟩
  · match s.nodeAt x p, t.nodeAt y p, same p with
    | _, _, .none => exact .none
    | _, _, .some outline => exact .some ⟨outline.1, outline.slotCount⟩
  · have here := same p
    cases hx : s.nodeAt x p <;> cases hy : t.nodeAt y p <;> rw [hx, hy] at here <;> cases here
    · exact .none
    · rename_i agree
      refine .some ⟨agree.1, childCounts_eq agree.2 fun slot => ?_⟩
      refine size_eq_of_childAt_rel (R := fun a b => s.payload a = t.payload b ∧
        s.slotCount a = t.slotCount b) fun index => ?_
      -- what stands there is at the end of a path one step longer
      have further := same (p ++ [(slot, index)])
      rwa [nodeAt_concat hx, nodeAt_concat hy] at further

/-! Walks over related trees. -/

def EdgesAlike (R : NodeId → NodeId → Prop) (e e' : Edge) : Prop :=
  e.step = e'.step ∧ R e.child e'.child

theorem forall₂_slotEdges (slot : Nat) {xs ys : List NodeId} (related : List.Forall₂ R xs ys) :
    List.Forall₂ (EdgesAlike R) (Node.slotEdges slot xs) (Node.slotEdges slot ys) := by
  have go (k : Nat) : List.Forall₂ (EdgesAlike R)
      ((xs.zipIdx k).map fun place => (⟨slot, place.2, place.1⟩ : Edge))
      ((ys.zipIdx k).map fun place => (⟨slot, place.2, place.1⟩ : Edge)) := by
    induction related generalizing k with
    | nil => exact .nil
    | cons here _ ih => exact .cons ⟨rfl, here⟩ (ih (k + 1))
  exact go 0

def LinesAlike (R : NodeId → NodeId → Prop) (line line' : RenderTask) : Prop :=
  line.lead = line'.lead ∧ R line.node line'.node

namespace Simulation

variable (sim : Simulation s t R)
include sim

theorem edges (related : R x y) : List.Forall₂ (EdgesAlike R) (s.edges x) (t.edges y) := by
  have slots : s.slotCount x = t.slotCount y := (sim.outline related).slotCount
  rw [edges_eq_flatMap s x (Nat.le_refl _), edges_eq_flatMap t y (Nat.le_of_eq slots.symm)]
  refine List.rel_flatMap (R := Eq) (by rw [List.forall₂_eq_eq_eq]) ?_
  rintro slot _ rfl
  exact forall₂_slotEdges slot (forall₂_slot_of_rel (sim.childAt related slot))

theorem renderLines {style : RenderStyle} (acyclic : s.Acyclic) (acyclic' : t.Acyclic)
    (lead : String) (related : R x y) :
    List.Forall₂ (LinesAlike R) (s.renderLines acyclic style ⟨lead, x⟩)
      (t.renderLines acyclic' style ⟨lead, y⟩) := by
  induction x using acyclic.induction generalizing y lead with
  | step x ih =>
    rw [renderLines_eq, renderLines_eq]
    refine .cons ⟨rfl, related⟩ ?_
    rw [renderTasks, renderTasks, List.flatMap_map, List.flatMap_map]
    have below : ∀ e ∈ s.edges x, e.child ∈ s.children x := fun e => child_of_mem_edges
    -- the edges are paired as children of `x`, for which the induction speaks
    refine List.rel_flatMap ((List.forall₂_and_left _ _).2 ⟨below, sim.edges related⟩) ?_
    rintro ⟨slot, index, a⟩ ⟨slot', index', b⟩ ⟨child, step, next⟩
    obtain ⟨rfl, -⟩ := Prod.mk.inj step
    exact ih a child (style.below lead slot) next

theorem foldlM_writeLine_eq {convert : Converter} {lines lines' : List RenderTask}
    (alike : List.Forall₂ (LinesAlike R) lines lines') (written : String) :
    lines.foldlM (s.writeLine convert) written = lines'.foldlM (t.writeLine convert) written := by
  induction alike generalizing written with
  | nil => rfl
  | @cons line line' _ _ here _ ih =>
    have same : s.writeLine convert written line = t.writeLine convert written line' := by
      rw [writeLine, writeLine, here.1, (sim.outline here.2).1]
    rw [List.foldlM_cons, List.foldlM_cons, same]
    exact bind_congr ih

theorem renderFrom_eq (acyclic : s.Acyclic) (acyclic' : t.Acyclic) (related : R x y)
    (convert : Converter) (style : RenderStyle) (lead : String) :
    s.renderFrom x convert style lead = t.renderFrom y convert style lead := by
  rw [renderFrom_eq_foldlM acyclic, renderFrom_eq_foldlM acyclic']
  exact sim.foldlM_writeLine_eq (sim.renderLines acyclic acyclic' lead related) ""

theorem hashSimulation : HashSimulation s t R where
  label related := by rw [(sim.outline related).1]
  slotless related := by rw [(sim.outline related).slotCount]
  first related := forall₂_slot_of_rel (sim.childAt related 0)

theorem hashWith_eq (acyclic : s.Acyclic) (acyclic' : t.Acyclic) (related : R x y) {H : Type}
    (hashing : Hashing H) : s.hashWith hashing x = t.hashWith hashing y := by
  rw [hashWith_eq_hashBelow acyclic, hashWith_eq_hashBelow acyclic']
  exact sim.hashSimulation.hashBelow_eq acyclic acyclic' related

end Simulation

/-! Trees that are the same. -/

theorem SameOutline.isChildless (h : s.SameOutline t x y) : s.isChildless x = t.isChildless y := by
  have counts (s : Store) (x : NodeId) :
      s.isChildless x = (s.childCounts x).all fun n => n == 0 := by
    rw [Store.isChildless, Node.isChildless, childCounts, List.all_map, ← Array.all_toList]
    rfl
  rw [counts, counts, h.2]

namespace SameTree

theorem length_copyOrder (same : s.SameTree t x y) (acyclic : s.Acyclic) (acyclic' : t.Acyclic) :
    (s.copyOrder acyclic x).length = (t.copyOrder acyclic' y).length := by
  have paths : (s.copyOrder acyclic x).Perm (t.copyOrder acyclic' y) := by
    refine (List.perm_ext_iff_of_nodup (copyOrder_nodup acyclic x)
      (copyOrder_nodup acyclic' y)).2 fun p => ?_
    simp [isSome_eq_of_rel (same p)]
  exact paths.length_eq

theorem occurrences_eq (same : s.SameTree t x y) (acyclic : s.Acyclic) (acyclic' : t.Acyclic) :
    s.occurrences (some x) = t.occurrences (some y) := by
  rw [Store.occurrences_eq acyclic, Store.occurrences_eq acyclic',
    same.length_copyOrder acyclic acyclic']

theorem containedIn {policy : CountPolicy} (same : s.SameTree t x y) (same' : s.SameTree t m m')
    (h : s.ContainedIn s.AlikePayloads policy x m) :
    t.ContainedIn t.AlikePayloads policy y m' := by
  intro p left hp
  have pattern := same p
  rw [hp] at pattern
  obtain ⟨a, ha, outline⟩ := exists_left_of_rel pattern
  obtain ⟨b, hb, fits⟩ := h p a ha
  have target := same' p
  rw [hb] at target
  obtain ⟨right, hr, outline'⟩ := exists_right_of_rel target
  refine ⟨right, hr, ?_, ?_, fun i hi => ?_⟩
  · rw [AlikePayloads, ← outline.1, ← outline'.1]
    exact fits.accepted
  · rw [← outline.slotCount, ← outline'.slotCount]
    exact fits.slotCount
  · rw [← outline.size_slot, ← outline'.size_slot]
    exact fits.admitted i (outline.slotCount ▸ hi)

theorem matchPayloads_eq (same : s.SameTree t x y) (same' : s.SameTree t m m')
    (acyclic : s.Acyclic) (acyclic' : t.Acyclic) (policy : CountPolicy) :
    s.matchPayloads policy x m = t.matchPayloads policy y m' := by
  obtain ⟨b, run, decides⟩ := matchPayloads_eq_ok acyclic' policy y m'
  have contained : t.ContainedIn t.AlikePayloads policy y m' ↔
      s.ContainedIn s.AlikePayloads policy x m :=
    ⟨same.symm.containedIn same'.symm, same.containedIn same'⟩
  rw [run]
  exact eq_ok_of_decides (matchPayloads_eq_ok acyclic policy x m) (decides.trans contained)

theorem plain (same : s.SameTree t x y) (plain : s.Plain x) : t.Plain y := by
  intro z reached
  obtain ⟨a, below, alike⟩ := same.reaches reached
  have outline := (simulation s t).outline alike
  exact outline.1 ▸ plain a below

theorem treeEq (same : s.SameTree t x y) (same' : s.SameTree t m m') (acyclic' : t.Acyclic)
    (plain : s.Plain x) (equal : s.TreeEq x m) : t.TreeEq y m' := by
  have plainly : s.PlainlyEqual x m := ⟨equal, plain⟩
  refine treeEq_of_agree acyclic' fun p => ?_
  have agree := plainly.agree p
  match s.nodeAt x p, s.nodeAt m p, t.nodeAt y p, t.nodeAt m' p, agree, same p, same' p with
  | _, _, _, _, .none, .none, .none => exact .none
  | _, _, _, _, .some agree, .some left, .some right =>
    refine .some ⟨?_, ?_⟩
    · rw [← left.1, ← right.1]
      exact agree.1
    · rw [← left.slotCount, ← right.slotCount]
      exact agree.2

theorem equal_eq (same : s.SameTree t x y) (same' : s.SameTree t m m') (acyclic : s.Acyclic)
    (acyclic' : t.Acyclic) (plain : s.Plain x) :
    s.equal (some x) (some m) = t.equal (some y) (some m') := by
  obtain ⟨b, run, decides⟩ := equal_eq_ok acyclic' y m'
  have equal : t.TreeEq y m' ↔ s.TreeEq x m :=
    ⟨same.symm.treeEq same'.symm acyclic (same.plain plain), same.treeEq same' acyclic' plain⟩
  rw [run]
  exact eq_ok_of_decides (equal_eq_ok acyclic x m) (decides.trans equal)

theorem copied (same : s.SameTree t x y) {acyclic : s.Acyclic} {acyclic' : t.Acyclic}
    {copying copying' : Copying} (left : s.CopiedTree acyclic x copying)
    (right : t.CopiedTree acyclic' y copying') :
    copying.store.SameTree copying'.store s.count t.count :=
  (left.sameTree.symm.trans same).trans right.sameTree

end SameTree

/-- Nodes of one unfolding, whatever their kinds and however they share the nodes below them, in one
store or in two: they have as many places, are written and hashed alike, match and are matched
alike, and their copies are of one unfolding again. They compare alike with any node as long as they
carry no `nan`. -/
theorem unfolding_determines {s t : Store} {x y : NodeId} (closed : s.Closed) (closed' : t.Closed)
    (acyclic : s.Acyclic) (acyclic' : t.Acyclic) (hx : x < s.count) (hy : y < t.count)
    (same : s.SameUnfolding t x y) :
    s.occurrences (some x) = t.occurrences (some y) ∧
    s.isChildless x = t.isChildless y ∧
    (∀ convert style lead,
      s.render (some x) convert style lead = t.render (some y) convert style lead) ∧
    (∀ (H : Type) (hashing : Hashing H), s.hashWith hashing x = t.hashWith hashing y) ∧
    (∀ m m', s.SameUnfolding t m m' →
      (∀ policy, s.matchPayloads policy x m = t.matchPayloads policy y m' ∧
        s.matchPayloads policy m x = t.matchPayloads policy m' y) ∧
      ((∀ z, s.Reaches x z → s.payload z ≠ .nan) →
        s.equal (some x) (some m) = t.equal (some y) (some m'))) ∧
    ∃ c s' d t' n, s.copyTree (some x) = ⟨.ok (c, s'), [.copied n]⟩ ∧
      t.copyTree (some y) = ⟨.ok (d, t'), [.copied n]⟩ ∧ s'.SameUnfolding t' c d := by
  rw [← sameTree_iff_sameUnfolding] at same
  have sim := SameTree.simulation s t
  refine ⟨same.occurrences_eq acyclic acyclic', (sim.outline same).isChildless,
    sim.renderFrom_eq acyclic acyclic' same, fun H => sim.hashWith_eq acyclic acyclic' same,
    fun m m' other => ?_, ?_⟩
  · rw [← sameTree_iff_sameUnfolding] at other
    exact ⟨fun policy => ⟨same.matchPayloads_eq other acyclic acyclic' policy,
      other.matchPayloads_eq same acyclic acyclic' policy⟩, same.equal_eq other acyclic acyclic'⟩
  · obtain ⟨copying, run, copied⟩ := copyTree_copiedTree closed acyclic hx
    obtain ⟨copying', run', copied'⟩ := copyTree_copiedTree closed' acyclic' hy
    refine ⟨_, _, _, _, _, run, ?_, sameTree_iff_sameUnfolding.1 (same.copied copied copied')⟩
    rw [run', same.length_copyOrder acyclic acyclic']

/-! Finite simulations can be checked. -/

theorem simulation_of_edges {pairs : List (NodeId × NodeId)}
    (outline : ∀ pair ∈ pairs, s.SameOutline t pair.1 pair.2)
    (child : ∀ pair ∈ pairs, ∀ e ∈ s.edges pair.1, ∀ e' ∈ t.edges pair.2, e.step = e'.step →
      (e.child, e'.child) ∈ pairs) :
    Simulation s t fun x y => (x, y) ∈ pairs where
  outline mem := outline _ mem
  child mem slot index a b ha hb :=
    child _ mem ⟨slot, index, a⟩ (Node.mem_edges.2 ha) ⟨slot, index, b⟩ (Node.mem_edges.2 hb) rfl

def twins : Store := ⟨#[
  ⟨.growable, .value (.int 1), #[]⟩,
  ⟨.frozen, .value (.int 1), #[]⟩,
  ⟨.frozen, .value .null, #[#[0, 0], #[]]⟩,
  ⟨.growable, .value (.int 1), #[]⟩,
  ⟨.growable, .value .null, #[#[1, 3], #[]]⟩,
  ⟨.growable, .nan, #[]⟩,
  ⟨.frozen, .nan, #[]⟩]⟩

theorem twins_children_lt : ∀ x < twins.count, ∀ y ∈ twins.children x, y < x := by decide

theorem twins_sameTree : twins.SameTree twins 2 4 ∧ twins.SameTree twins 5 6 := by
  have sim : Simulation twins twins fun x y => (x, y) ∈ [(2, 4), (0, 1), (0, 3), (5, 6)] :=
    simulation_of_edges (by decide) (by decide)
  exact ⟨sim.sameTree (by decide), sim.sameTree (by decide)⟩

theorem unfolding_determines_twins :
    twins.Closed ∧ twins.Acyclic ∧ (∀ x < 7, x < twins.count) ∧ twins.kind 2 ≠ twins.kind 4 ∧
    (twins.SameUnfolding twins 2 4 ∧ twins.occurrences (some 2) = twins.occurrences (some 4) ∧
      twins.fingerprint 2 = twins.fingerprint 4) ∧
    (twins.SameUnfolding twins 4 4 ∧ (∀ z, twins.Reaches 2 z → twins.payload z ≠ .nan) ∧
      twins.matchPayloads .strict 2 4 = twins.matchPayloads .strict 4 4 ∧
      twins.equal (some 2) (some 4) = twins.equal (some 4) (some 4)) ∧
    twins.SameUnfolding twins 5 6 ∧ twins.occurrences (some 5) = twins.occurrences (some 6) ∧
    twins.equal (some 5) (some 5) = .ok true ∧ twins.equal (some 6) (some 5) = .ok false := by
  obtain ⟨closed, acyclic⟩ := closed_acyclic_of_children_lt twins_children_lt
  have within : ∀ x < 7, x < twins.count := by decide
  have alike : twins.SameUnfolding twins 2 4 := sameTree_iff_sameUnfolding.1 twins_sameTree.1
  have odd : twins.SameUnfolding twins 5 6 := sameTree_iff_sameUnfolding.1 twins_sameTree.2
  have self : twins.SameUnfolding twins 4 4 := sameTree_iff_sameUnfolding.1 (.refl twins 4)
  have plain (z : NodeId) (reached : twins.Reaches 2 z) : twins.payload z ≠ .nan := by
    have all : ∀ z ≤ 2, twins.payload z ≠ .nan := by decide
    exact all z (le_of_reaches twins_children_lt reached)
  obtain ⟨places, -, -, hashes, compared, -⟩ := unfolding_determines closed closed acyclic acyclic
    (within 2 (by decide)) (within 4 (by decide)) alike
  obtain ⟨matched, equal⟩ := compared 4 4 self
  obtain ⟨places', -⟩ := unfolding_determines closed closed acyclic acyclic
    (within 5 (by decide)) (within 6 (by decide)) odd
  exact ⟨closed, acyclic, within, by decide, ⟨alike, places, hashes Skeleton .skeleton⟩,
    ⟨self, plain, (matched .strict).1, equal plain⟩, odd, places', by cbv, by cbv⟩

end SlotTree.Store
