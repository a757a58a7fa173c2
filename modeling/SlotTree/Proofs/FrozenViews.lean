import SlotTree.Proofs.FrozenParts
import SlotTree.Proofs.Hashes
import SlotTree.Proofs.PreOrder

/-!
What is seen of a settled node: its size, its text, its hash, and what it is compared with. Each of
them is a walk that looks at settled nodes only, and these are the same in every later store; the
later store is larger, so its walks have larger budgets, of which they need no more.
-/

namespace SlotTree.Store

variable {s t : Store} {x y : NodeId}

theorem depthBound_le (larger : s.count ≤ t.count) : s.depthBound ≤ t.depthBound :=
  Nat.succ_le_succ larger

theorem pairBound_le (larger : s.count ≤ t.count) : s.pairBound ≤ t.pairBound :=
  Nat.succ_le_succ (Nat.mul_le_mul larger larger)

section Views

variable (kept : s.FrozenKept t)
include kept

theorem FrozenKept.node_eq (settled : s.Settled x) : t.node x = s.node x := kept x settled.frozen

theorem FrozenKept.sameOn_count :
    Worklist.SameOn s.countVisit t.countVisit s.rank s.Settled where
  same n x settled := by rw [countVisit, countVisit, children, children, kept.node_eq settled]
  below settled visited y mem := by
    cases visited
    have child := List.mem_reverse.1 mem
    exact ⟨settled.child child, settled.rank_lt child⟩

theorem FrozenKept.sameOn_render (convert : Converter) (style : RenderStyle) :
    Worklist.SameOn (s.renderVisit convert style) (t.renderVisit convert style)
      (fun task => s.rank task.node) (fun task => s.Settled task.node) where
  same written task settled := by
    simp only [renderVisit, payload, edges, kept.node_eq settled]
  below {written task after tasks} settled visited later mem := by
    unfold renderVisit at visited
    split at visited
    · cases visited
      obtain ⟨e, he, rfl⟩ := List.mem_map.1 mem
      exact ⟨settled.child (child_of_mem_edges he), settled.rank_lt (child_of_mem_edges he)⟩
    · cases visited

def SettledTask (s : Store) : PostTask → Prop
  | .enter x => s.Settled x
  | .leave x => s.Settled x

theorem FrozenKept.sameOn_hash {H : Type} (hashing : Hashing H) :
    Worklist.SameOn (postVisit s.firstChildren (s.enterHash hashing))
      (postVisit t.firstChildren (t.enterHash hashing)) s.postRank s.SettledTask where
  same table task settled := by
    cases task with
    | enter x => simp only [postVisit, firstChildren, slot, kept.node_eq settled]
    | leave x =>
      have entered : t.enterHash hashing table x = s.enterHash hashing table x := by
        rw [enterHash_eq, enterHash_eq, firstChildren, firstChildren, slot, slot, slotCount,
          slotCount, payload, payload, kept.node_eq settled]
      simp only [postVisit, entered]
  below {table task after tasks} settled visited later mem := by
    cases task with
    | enter x =>
      cases visited
      obtain mem | mem := List.mem_append.1 mem
      · obtain ⟨y, first, rfl⟩ := List.mem_map.1 mem
        have child := s.descends_firstChildren x y first
        exact ⟨settled.child child, Nat.succ_lt_succ (settled.rank_lt child)⟩
      · rw [List.mem_singleton.1 mem]
        exact ⟨settled, Nat.succ_pos _⟩
    | leave x =>
      cases entered : s.enterHash hashing table x with
      | ok entries =>
        simp only [postVisit, entered] at visited
        cases visited
        exact absurd mem List.not_mem_nil
      | error e =>
        simp only [postVisit, entered] at visited
        cases visited

theorem FrozenKept.sameOn_equal :
    Worklist.SameOn s.equalVisit t.equalVisit (fun pair => s.rank pair.1)
      (fun pair => s.Settled pair.1 ∧ s.Settled pair.2) where
  same state pair settled := by
    obtain ⟨x, y⟩ := pair
    unfold equalVisit payload slotCount
    simp only
    rw [kept.node_eq settled.1, kept.node_eq settled.2]
  below {state pair after tasks} settled visited later mem := by
    obtain ⟨x, y⟩ := pair
    by_cases same : x = y
    · subst same
      rw [equalVisit_same] at visited
      cases visited
      exact absurd mem List.not_mem_nil
    by_cases alike : s.Alike x y
    · rw [equalVisit_alike same alike] at visited
      cases visited
      obtain ⟨slot, -, mem⟩ := List.mem_flatMap.1 (List.mem_reverse.1 mem)
      obtain ⟨index, left, right⟩ := mem_childPairs.1 mem
      have child := mem_children_iff.2 ⟨slot, index, left⟩
      have child' := mem_children_iff.2 ⟨slot, index, right⟩
      exact ⟨⟨settled.1.child child, settled.2.child child'⟩, settled.1.rank_lt child⟩
    · rw [equalVisit_unlike same alike] at visited
      cases visited

variable (larger : s.count ≤ t.count)
include larger

theorem FrozenKept.occurrences (settled : s.Settled x) :
    t.occurrences (some x) = s.occurrences (some x) := by
  have room : s.rank x ≤ s.depthBound := Nat.le_of_lt (s.rank_lt_depthBound x)
  have walked := kept.sameOn_count.walk_eq settled 1 .ok room
    (Nat.le_trans room (depthBound_le larger))
  show t.countFrom x = s.countFrom x
  rw [countFrom, countFrom, walked]

theorem FrozenKept.render (settled : s.Settled x) (convert : Converter) (style : RenderStyle)
    (lead : String) :
    t.render (some x) convert style lead = s.render (some x) convert style lead := by
  have room : s.rank x ≤ s.depthBound := Nat.le_of_lt (s.rank_lt_depthBound x)
  have start : s.Settled (RenderTask.mk lead x).node := settled
  have walked := (kept.sameOn_render convert style).walk_eq start "" .ok room
    (Nat.le_trans room (depthBound_le larger))
  show t.renderFrom x convert style lead = s.renderFrom x convert style lead
  rw [renderFrom, renderFrom, walked]

theorem FrozenKept.hashWith {H : Type} (settled : s.Settled x) (hashing : Hashing H) :
    t.hashWith hashing x = s.hashWith hashing x := by
  have room : s.postRank (.enter x) ≤ s.depthBound := s.rank_lt_depthBound x
  have start : s.SettledTask (.enter x) := settled
  have walked := (kept.sameOn_hash hashing).walk_eq start ∅ .ok room
    (Nat.le_trans room (depthBound_le larger))
  rw [Store.hashWith, Store.hashWith, postFold, postFold, walked]

theorem FrozenKept.equal (settled : s.Settled x) (settled' : s.Settled y) :
    t.equal (some x) (some y) = s.equal (some x) (some y) := by
  have room : s.rank x ≤ s.pairBound := Nat.le_of_lt (s.rank_lt_pairBound x)
  have start : s.Settled (x, y).1 ∧ s.Settled (x, y).2 := ⟨settled, settled'⟩
  have walked := kept.sameOn_equal.walk_eq start () (fun _ => .ok true) room
    (Nat.le_trans room (pairBound_le larger))
  show t.equalNodes x y = s.equalNodes x y
  rw [equalNodes, equalNodes, walked]

end Views

/-- From the moment a frozen node is there, all that stands below it is frozen, free of cycles, and
the same in every later store; so its size, its text, its hash and what it equals of other frozen
nodes never change, whatever else the run does. -/
theorem frozen_immutable {s t : Store} (before : FreezingRun .empty s) (run : FreezingRun s t)
    {f : NodeId} (frozen : s.kind f = .frozen) :
    (∀ y, s.Reaches f y → s.kind y = .frozen ∧ ∀ z ∈ s.children y, ¬ s.Reaches z y) ∧
    (∀ y, t.Reaches f y ↔ s.Reaches f y) ∧
    (∀ y, s.Reaches f y → t.node y = s.node y) ∧
    t.occurrences (some f) = s.occurrences (some f) ∧
    (∀ convert style lead,
      t.render (some f) convert style lead = s.render (some f) convert style lead) ∧
    (∀ (H : Type) (hashing : Hashing H), t.hashWith hashing f = s.hashWith hashing f) ∧
    ∀ g, s.kind g = .frozen → t.equal (some f) (some g) = s.equal (some f) (some g) := by
  have closed : s.Closed := before.toRun.closed closed_empty
  have all := before.allSettled closed_empty allSettled_empty
  have kept := run.toRun.frozenKept closed
  have larger := (run.toRun.extends closed).count_le
  have settled := all f frozen
  refine ⟨fun y reached => ?_, fun y => kept.reaches_iff settled, fun y reached => ?_,
    kept.occurrences larger settled, kept.render larger settled,
    fun H => kept.hashWith larger settled, fun g frozen' => ?_⟩
  · have below := settled.of_reaches reached
    exact ⟨below.frozen, fun z => below.not_reaches⟩
  · exact kept.node_eq (settled.of_reaches reached)
  · exact kept.equal larger settled (all g frozen')

def frosted : Store :=
  ⟨#[⟨.growable, .value .null, #[#[1]]⟩, .blank (.value (.bool true)) 0,
    ⟨.frozen, .value (.bool true), #[]⟩, ⟨.frozen, .value .null, #[#[2]]⟩]⟩

def overgrown : Store :=
  ⟨#[⟨.growable, .value .null, #[#[1, 3]]⟩, .blank (.value (.bool true)) 0,
    ⟨.frozen, .value (.bool true), #[]⟩, ⟨.frozen, .value .null, #[#[2]]⟩]⟩

theorem freezingRun_frosted : FreezingRun .empty frosted := by
  have run : sprout.snapshot 0 = .ok (3, frosted) := by cbv
  have snapped : sprout.after (.snapshot 0) = frosted := by
    apply after_of_ok
    rw [Action.outcome, run]
    rfl
  refine .step (.newNode (.value .null) 1) (by decide) trivial ?_
  refine .step (.newNode (.value (.bool true)) 0) (by decide) trivial ?_
  refine .step (.append 0 (some 1) 0) (by decide) trivial ?_
  refine .step (s := sprout) (.snapshot 0) (by decide) trivial ?_
  rw [snapped]
  exact .refl frosted

theorem freezingRun_overgrown : FreezingRun frosted overgrown :=
  .step (.append 0 (some 3) 0) (by decide) trivial (.refl overgrown)

theorem frozen_immutable_overgrown :
    FreezingRun .empty frosted ∧ FreezingRun frosted overgrown ∧ frosted.kind 3 = .frozen ∧
    (∀ y, overgrown.Reaches 3 y ↔ frosted.Reaches 3 y) ∧
    overgrown.occurrences (some 3) = frosted.occurrences (some 3) ∧
    overgrown.fingerprint 3 = frosted.fingerprint 3 ∧ frosted.kind 2 = .frozen ∧
    overgrown.equal (some 3) (some 2) = frosted.equal (some 3) (some 2) := by
  have frozen : frosted.kind 3 = .frozen := rfl
  have frozen' : frosted.kind 2 = .frozen := rfl
  obtain ⟨-, reached, -, size, -, hashed, equal⟩ :=
    frozen_immutable freezingRun_frosted freezingRun_overgrown frozen
  exact ⟨freezingRun_frosted, freezingRun_overgrown, frozen, reached, size, hashed _ .skeleton,
    frozen', equal 2 frozen'⟩

end SlotTree.Store
