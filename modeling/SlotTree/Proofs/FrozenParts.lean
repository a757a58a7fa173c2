import SlotTree.Proofs.AppendOnly

/-!
Frozen parts of a store. A run in which frozen nodes are only built over frozen nodes has settled
frozen nodes only: whatever stands below one is frozen, and nothing stands below itself there. No
action changes a frozen node, so what is below one stays as it is for the rest of the run.
-/

namespace SlotTree

def Action.FrozenOverFrozen (s : Store) : Action → Prop
  | .newFrozen _ slots => ∀ y ∈ slots.toList.flatMap Array.toList, s.kind y = .frozen
  | _ => True

namespace Store

variable {s t : Store} {a : Action} {x y z : NodeId}

/-- A run whose frozen nodes are built over frozen nodes. -/
inductive FreezingRun : Store → Store → Prop where
  | refl (s : Store) : FreezingRun s s
  | step {s t : Store} (a : Action) : a.Fits s → a.FrozenOverFrozen s → FreezingRun (s.after a) t →
      FreezingRun s t

theorem FreezingRun.toRun (run : FreezingRun s t) : Run s t := by
  induction run with
  | refl s => exact .refl s
  | step a fits _ _ ih => exact .step a fits ih

/-- Frozen, and so is all that stands below. -/
inductive Settled (s : Store) : NodeId → Prop where
  | node {x : NodeId} : s.kind x = .frozen → (∀ y ∈ s.children x, Settled s y) → Settled s x

namespace Settled

theorem frozen (settled : s.Settled x) : s.kind x = .frozen := by
  cases settled with
  | node frozen _ => exact frozen

theorem child (settled : s.Settled x) (h : y ∈ s.children x) : s.Settled y := by
  cases settled with
  | node _ children => exact children y h

theorem of_reaches (settled : s.Settled x) (reached : s.Reaches x y) : s.Settled y := by
  induction reached with
  | refl => exact settled
  | step child _ ih => exact ih (settled.child child)

theorem founded (settled : s.Settled x) : s.Founded x := by
  induction settled with
  | node _ _ ih => exact .node ih

theorem not_reaches (settled : s.Settled x) (h : y ∈ s.children x) : ¬ s.Reaches y x :=
  settled.founded.not_reaches h

theorem rank_lt (settled : s.Settled x) (h : y ∈ s.children x) : s.rank y < s.rank x :=
  rank_lt_of_not_reaches h (settled.not_reaches h)

end Settled

def FrozenKept (s t : Store) : Prop := ∀ x, s.kind x = .frozen → t.node x = s.node x

namespace FrozenKept

theorem refl (s : Store) : s.FrozenKept s := fun _ _ => rfl

theorem trans {u : Store} (first : s.FrozenKept t) (second : t.FrozenKept u) : s.FrozenKept u := by
  intro x frozen
  have same := first x frozen
  rw [second x (by rwa [kind, same]), same]

theorem settled (kept : s.FrozenKept t) (settled : s.Settled x) : t.Settled x := by
  induction settled with
  | @node x frozen _ ih =>
    have same := kept x frozen
    refine .node (by rwa [kind, same]) fun y child => ih y ?_
    rwa [children, same] at child

theorem reaches_iff (kept : s.FrozenKept t) (settled : s.Settled x) :
    t.Reaches x y ↔ s.Reaches x y := by
  refine reaches_iff_of_children (fun z settled w => settled.child) (fun z settled => ?_) settled
  rw [children, kept z settled.frozen, children]

end FrozenKept

theorem lt_count_of_frozen (frozen : s.kind x = .frozen) : x < s.count := by
  by_contra absent
  rw [kind, node_of_le (Nat.le_of_not_lt absent)] at frozen
  cases frozen

theorem Change.frozenKept (change : s.Change a t) : s.FrozenKept t := by
  intro x frozen
  obtain kept | ⟨y, c, i, -, growable, -, grown⟩ := change.kept_or_grown
  · exact kept.node_eq x (lt_count_of_frozen frozen)
  · refine grown.others x fun same => ?_
    rw [same, growable] at frozen
    cases frozen

/-! Settled nodes stay settled, and new frozen nodes are settled. -/

theorem FrozenOnto.settled (made : s.FrozenOnto t) (new : s.count ≤ x) (within : x < t.count) :
    t.Settled x := by
  induction x using Nat.strongRecOn with
  | ind x ih =>
    refine .node (made.frozen x new within) fun y child => ?_
    obtain ⟨above, before⟩ := made.child x new y child
    exact ih y before above (Nat.lt_trans before within)

theorem ClonedOnto.settled {census : Census} (made : s.ClonedOnto census t) {w : NodeId}
    (settled : s.Settled w) {k : Nat} (place : census.order[k]? = some w) :
    t.Settled (s.count + k) := by
  have kept : s.FrozenKept t := fun x frozen => made.kept.node_eq x (lt_count_of_frozen frozen)
  induction settled generalizing k with
  | @node w frozen below ih =>
    refine .node (by rwa [kind, made.node_eq place]) fun y child => ?_
    rw [children, made.node_eq place, ClonedOnto.children_cloneNode] at child
    obtain ⟨c, hc, rfl⟩ := List.mem_map.1 child
    -- a child without a number stays the child, and is settled already
    obtain same | ⟨j, eq, entry⟩ := made.cloneOf_cases c
    · rw [same]
      exact kept.settled (below c hc)
    · rw [eq]
      exact ih c hc entry

def AllSettled (s : Store) : Prop := ∀ x, s.kind x = .frozen → s.Settled x

theorem AllSettled.of_change (all : s.AllSettled) (fits : a.FrozenOverFrozen s)
    (change : s.Change a t) : t.AllSettled := by
  intro x frozen
  have kept := change.frozenKept
  by_cases old : x < s.count
  · rw [change.extends.kind_eq x old] at frozen
    exact kept.settled (all x frozen)
  have new := Nat.le_of_not_lt old
  have within := lt_count_of_frozen frozen
  -- a new frozen node comes from a snapshot or a clone, or was built over frozen nodes
  cases change with
  | looked => exact absurd within old
  | added =>
    rw [kind, node_add] at frozen
    split at frozen
    · cases frozen
    · rw [node_of_le new] at frozen
      cases frozen
  | frozen payload slots =>
    refine .node frozen fun y child => ?_
    obtain rfl : x = s.count := by
      rw [newFrozen, count_add] at within
      exact Nat.le_antisymm (Nat.le_of_lt_succ within) new
    rw [children, newFrozen, node_add_self] at child
    exact kept.settled (all y (fits y child))
  | grown x' c i =>
    exact absurd (by simpa using within) old
  | copied _ _ _ growable =>
    rw [growable x new] at frozen
    cases frozen
  | rebuilt _ made => exact made.settled new within
  | cloned _ made =>
    obtain ⟨k, w, rfl, place⟩ := made.exists_place new within
    rw [kind, made.node_eq place] at frozen
    exact made.settled (all w frozen) place

/-! Runs. -/

theorem Run.frozenKept (run : Run s t) (closed : s.Closed) : s.FrozenKept t := by
  induction run with
  | refl => exact .refl _
  | step a fits _ ih =>
    have change := change_after closed fits
    exact change.frozenKept.trans (ih (change.closed closed))

theorem FreezingRun.allSettled (run : FreezingRun s t) (closed : s.Closed) (all : s.AllSettled) :
    t.AllSettled := by
  induction run with
  | refl => exact all
  | step a fits onFrozen _ ih =>
    have change := change_after closed fits
    exact ih (change.closed closed) (all.of_change onFrozen change)

theorem allSettled_empty : Store.empty.AllSettled := fun x frozen =>
  absurd (lt_count_of_frozen frozen) (Nat.not_lt_zero x)

end Store
end SlotTree
