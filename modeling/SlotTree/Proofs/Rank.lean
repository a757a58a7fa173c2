import Mathlib.Data.Finset.Card
import SlotTree.Walk.Occurrences

/-!
Ranks in an acyclic store. A node's rank is the number of nodes that it reaches: it falls along
every edge and never exceeds the size of the store. Every recursion down a tree is a recursion on
it, and the budgets of the walks are bounds on it.
-/

namespace SlotTree.Store

variable {s : Store} {x y z : NodeId}

theorem children_of_le (h : s.count ≤ x) : s.children x = [] := by
  rw [children, node_of_le h]
  rfl

theorem lt_count_of_mem_children (h : y ∈ s.children x) : x < s.count := by
  by_contra absent
  rw [children_of_le (Nat.le_of_not_lt absent)] at h
  exact List.not_mem_nil h

theorem Reaches.child (h : s.Reaches x y) (hz : z ∈ s.children y) : s.Reaches x z :=
  h.trans (.step hz (.refl z))

theorem Closed.lt_count_of_reaches (closed : s.Closed) (hx : x < s.count) (h : s.Reaches x y) :
    y < s.count := by
  induction h with
  | refl => exact hx
  | step child _ ih => exact ih (closed _ _ child)

open scoped Classical in
noncomputable def reached (s : Store) (x : NodeId) : Finset NodeId :=
  (Finset.range s.count).filter (s.Reaches x)

@[simp] theorem mem_reached : y ∈ s.reached x ↔ y < s.count ∧ s.Reaches x y := by
  simp only [reached, Finset.mem_filter, Finset.mem_range]

noncomputable def rank (s : Store) (x : NodeId) : Nat := (s.reached x).card

theorem rank_le_count (s : Store) (x : NodeId) : s.rank x ≤ s.count := by
  have within : s.reached x ⊆ Finset.range s.count := by
    intro y hy
    exact Finset.mem_range.2 (mem_reached.1 hy).1
  have bound := Finset.card_le_card within
  rwa [Finset.card_range] at bound

theorem rank_lt_depthBound (s : Store) (x : NodeId) : s.rank x < s.depthBound :=
  Nat.lt_succ_of_le (s.rank_le_count x)

theorem rank_lt_pairBound (s : Store) (x : NodeId) : s.rank x < s.pairBound :=
  Nat.lt_succ_of_le (Nat.le_trans (s.rank_le_count x) (Nat.le_mul_self s.count))

theorem rank_lt_of_not_reaches (h : y ∈ s.children x) (back : ¬ s.Reaches y x) :
    s.rank y < s.rank x := by
  apply Finset.card_lt_card
  refine (Finset.ssubset_iff_of_subset ?_).2 ⟨x, ?_, ?_⟩
  · intro z hz
    rw [mem_reached] at hz ⊢
    exact ⟨hz.1, .step h hz.2⟩
  · exact mem_reached.2 ⟨lt_count_of_mem_children h, .refl x⟩
  · intro hx
    exact back (mem_reached.1 hx).2

theorem Acyclic.rank_lt (acyclic : s.Acyclic) (h : y ∈ s.children x) : s.rank y < s.rank x :=
  rank_lt_of_not_reaches h (acyclic x y h)

theorem Acyclic.induction {motive : NodeId → Prop} (acyclic : s.Acyclic)
    (step : ∀ x, (∀ y ∈ s.children x, motive y) → motive x) (x : NodeId) : motive x := by
  induction hr : s.rank x using Nat.strongRecOn generalizing x with
  | ind r ih =>
    apply step
    intro y hy
    have lower := acyclic.rank_lt hy
    exact ih _ (hr ▸ lower) y rfl

inductive Founded (s : Store) : NodeId → Prop where
  | node {x : NodeId} : (∀ y ∈ s.children x, Founded s y) → Founded s x

theorem Founded.not_reaches (founded : s.Founded x) (h : y ∈ s.children x) : ¬ s.Reaches y x := by
  induction founded generalizing y with
  | @node x _ ih =>
    -- a way back to `x` would lead from a child of `x` to that child again
    intro back
    cases back with
    | refl => exact ih x h h (.refl x)
    | step child back => exact ih y h child (back.child h)

theorem acyclic_iff_founded : s.Acyclic ↔ ∀ x, s.Founded x := by
  refine ⟨fun acyclic x => ?_, fun founded x y child => (founded x).not_reaches child⟩
  induction x using acyclic.induction with
  | step x ih => exact .node ih

theorem le_of_reaches (h : ∀ x < s.count, ∀ y ∈ s.children x, y < x) (reached : s.Reaches x y) :
    y ≤ x := by
  induction reached with
  | refl => exact Nat.le_refl _
  | step child _ ih =>
    have lower := h _ (lt_count_of_mem_children child) _ child
    exact Nat.le_trans ih (Nat.le_of_lt lower)

theorem closed_acyclic_of_children_lt (h : ∀ x < s.count, ∀ y ∈ s.children x, y < x) :
    s.Closed ∧ s.Acyclic := by
  have lower {x y : NodeId} (hy : y ∈ s.children x) : y < x :=
    h x (lt_count_of_mem_children hy) y hy
  refine ⟨fun x y hy => ?_, fun x y hy back => ?_⟩
  · exact Nat.lt_trans (lower hy) (lt_count_of_mem_children hy)
  · exact Nat.not_le_of_lt (lower hy) (le_of_reaches h back)

/-- A store with much sharing: the leaf 0 stands twice in one slot of the frozen node 1, and both
stand in two places each under the root 2. The leaf 3 is apart. -/
def trellis : Store := ⟨#[
  ⟨.growable, .value (.bool true), #[]⟩,
  ⟨.frozen, .nan, #[#[0, 0]]⟩,
  ⟨.growable, .value .null, #[#[0, 1, 0], #[], #[1]]⟩,
  ⟨.growable, .value (.bool true), #[]⟩]⟩

theorem trellis_children_lt : ∀ x < trellis.count, ∀ y ∈ trellis.children x, y < x := by decide

theorem trellis_closed_acyclic : trellis.Closed ∧ trellis.Acyclic :=
  closed_acyclic_of_children_lt trellis_children_lt

end SlotTree.Store
