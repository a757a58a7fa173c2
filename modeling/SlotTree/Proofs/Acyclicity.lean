import SlotTree.Proofs.Copies
import SlotTree.Proofs.FrozenParts

/-!
Where cycles come from. New nodes are made over nodes that are there already, or over other new
nodes in the order of their making, so that every way down from them ends. Only an append to a node
that is there can close a cycle, and it does so exactly when the node can be reached from its new
child.
-/

namespace SlotTree.Store

variable {s t : Store} {x y z a b c : NodeId}

/-! New nodes. -/

theorem KeptIn.founded (kept : s.KeptIn t) (closed : s.Closed) (founded : s.Founded x)
    (hx : x < s.count) : t.Founded x := by
  induction founded with
  | @node x _ ih =>
    refine .node fun y child => ?_
    rw [kept.children hx] at child
    exact ih y child (closed x y child)

theorem Acyclic.of_kept (acyclic : s.Acyclic) (closed : s.Closed) (kept : s.KeptIn t)
    (new : ∀ z, s.count ≤ z → z < t.count → t.Founded z) : t.Acyclic := by
  refine acyclic_iff_founded.2 fun z => ?_
  by_cases old : z < s.count
  · exact kept.founded closed (acyclic_iff_founded.1 acyclic z) old
  · by_cases within : z < t.count
    · exact new z (Nat.le_of_not_lt old) within
    · refine .node fun y child => ?_
      rw [children_of_le (Nat.le_of_not_lt within)] at child
      exact absurd child List.not_mem_nil

theorem Acyclic.add (acyclic : s.Acyclic) (closed : s.Closed) {n : Node}
    (old : ∀ y ∈ n.children, y < s.count) : (s.add n).2.Acyclic := by
  refine acyclic.of_kept closed (.add s n) fun z new within => .node fun y child => ?_
  rw [count_add] at within
  obtain rfl : z = s.count := Nat.le_antisymm (Nat.le_of_lt_succ within) new
  rw [children, node_add_self] at child
  exact (KeptIn.add s n).founded closed (acyclic_iff_founded.1 acyclic y) (old y child)

theorem Simulation.founded {R : NodeId → NodeId → Prop} (sim : Simulation s t R)
    (related : R x y) (founded : s.Founded x) : t.Founded y := by
  induction founded generalizing y with
  | @node x _ ih =>
    refine .node fun d child => ?_
    obtain ⟨slot, index, at_child⟩ := mem_children_iff.1 child
    obtain ⟨e, at_source, below⟩ := sim.exists_childAt related at_child
    exact ih e (mem_children_iff.2 ⟨slot, index, at_source⟩) below

theorem CopiedTree.acyclic {acyclic : s.Acyclic} {copying : Copying}
    (copied : s.CopiedTree acyclic x copying) (closed : s.Closed) : copying.store.Acyclic := by
  refine acyclic.of_kept closed copied.kept fun z new within => ?_
  have place : z ∈ copying.pairs.toList.map CopyPair.copy := by
    rw [copied.copies, List.mem_range'_1, ← copied.count]
    exact ⟨new, within⟩
  obtain ⟨⟨source, copy⟩, mem, rfl⟩ := List.mem_map.1 place
  exact copied.simulation.founded mem (acyclic_iff_founded.1 acyclic source)

theorem acyclic_of_unfoldCopy (closed : s.Closed) (acyclic : s.Acyclic) (hx : x < s.count)
    {copy : NodeId} {copying : Copying} (run : s.unfoldCopy x = .ok (copy, copying)) :
    copying.store.Acyclic := by
  obtain ⟨made, run', copied⟩ := unfoldCopy_copiedTree closed acyclic hx
  cases run'.symm.trans run
  exact copied.acyclic closed

theorem FrozenOnto.acyclic (made : s.FrozenOnto t) (closed : s.Closed) (acyclic : s.Acyclic) :
    t.Acyclic :=
  acyclic.of_kept closed made.kept fun _ new within => (made.settled new within).founded

theorem ClonedOnto.founded {census : Census} (made : s.ClonedOnto census t) (closed : s.Closed)
    {w : NodeId} (founded : s.Founded w) {k : Nat} (place : census.order[k]? = some w) :
    t.Founded (s.count + k) := by
  induction founded generalizing k with
  | @node w below ih =>
    refine .node fun y child => ?_
    rw [children, made.node_eq place, ClonedOnto.children_cloneNode] at child
    obtain ⟨c, hc, rfl⟩ := List.mem_map.1 child
    obtain same | ⟨j, eq, entry⟩ := made.cloneOf_cases c
    · rw [same]
      exact made.kept.founded closed (below c hc) (closed w c hc)
    · rw [eq]
      exact ih c hc entry

theorem ClonedOnto.acyclic {census : Census} (made : s.ClonedOnto census t) (closed : s.Closed)
    (acyclic : s.Acyclic) : t.Acyclic := by
  refine acyclic.of_kept closed made.kept fun z new within => ?_
  obtain ⟨k, w, rfl, place⟩ := made.exists_place new within
  exact made.founded closed (acyclic_iff_founded.1 acyclic w) place

/-! Appends. -/

section Grow

variable {i : Nat} (inside : i < s.slotCount x)
include inside

theorem mem_children_grow :
    z ∈ (s.grow x i c).children y ↔ z ∈ s.children y ∨ y = x ∧ z = c := by
  have grown := s.grownBy_grow (c := c) inside
  by_cases here : y = x
  · subst here
    rw [children_eq_flatMap, children_eq_flatMap, grown.slotCount]
    simp only [List.mem_flatMap, List.mem_range]
    refine ⟨fun h => ?_, fun h => ?_⟩
    · obtain ⟨j, hj, mem⟩ := h
      by_cases at_slot : j = i
      · rw [at_slot, grown.slot, Array.toList_push, List.mem_append, List.mem_singleton] at mem
        exact mem.imp (fun mem => ⟨i, inside, mem⟩) fun eq => ⟨trivial, eq⟩
      · rw [grown.other_slots j at_slot] at mem
        exact .inl ⟨j, hj, mem⟩
    · obtain ⟨j, hj, mem⟩ | ⟨-, rfl⟩ := h
      · by_cases at_slot : j = i
        · rw [at_slot] at mem
          exact ⟨i, inside, by rw [grown.slot]; simp [mem]⟩
        · exact ⟨j, hj, by rwa [grown.other_slots j at_slot]⟩
      · exact ⟨i, inside, by rw [grown.slot]; simp⟩
  · rw [children, grown.others y here, children]
    exact (or_iff_left fun h => here h.1).symm

theorem reaches_grow_iff :
    (s.grow x i c).Reaches a b ↔ s.Reaches a b ∨ s.Reaches a x ∧ s.Reaches c b := by
  refine ⟨fun h => ?_, fun h => ?_⟩
  · induction h with
    | refl a => exact .inl (.refl a)
    | step child _ ih =>
      obtain old | ⟨rfl, rfl⟩ := (mem_children_grow inside).1 child
      · exact ih.imp (.step old) fun through => ⟨.step old through.1, through.2⟩
      · exact .inr ⟨.refl _, ih.elim id And.right⟩
  · have grown := Extends.grow s x i c
    obtain old | ⟨above, below⟩ := h
    · exact grown.reaches old
    · have edge : c ∈ (s.grow x i c).children x :=
        (mem_children_grow inside).2 (.inr ⟨rfl, rfl⟩)
      exact (grown.reaches above).trans (.step edge (grown.reaches below))

/-- An append closes a cycle exactly when its node is reached from the new child. -/
theorem acyclic_grow_iff (acyclic : s.Acyclic) : (s.grow x i c).Acyclic ↔ ¬ s.Reaches c x := by
  refine ⟨fun acyclic' back => ?_, fun apart y z child back => ?_⟩
  · refine acyclic' x c ((mem_children_grow inside).2 (.inr ⟨rfl, rfl⟩)) ?_
    exact (reaches_grow_iff inside).2 (.inl back)
  · obtain old | ⟨rfl, rfl⟩ := (mem_children_grow inside).1 child
    · -- a way from `z` back to `y` through the new child would lead from that child to `x`
      obtain back | ⟨above, below⟩ := (reaches_grow_iff inside).1 back
      · exact acyclic y z old back
      · exact apart ((below.child old).trans above)
    · exact apart (((reaches_grow_iff inside).1 back).elim id And.left)

end Grow

theorem acyclic_append_iff (acyclic : s.Acyclic) {slot : Int}
    (h : s.append x (some c) slot = .ok t) : t.Acyclic ↔ ¬ s.Reaches c x := by
  obtain ⟨-, c', i, same, -, inside, rfl⟩ := append_eq_ok_iff.1 h
  cases same
  exact acyclic_grow_iff inside acyclic

/-! Actions and runs. -/

theorem acyclic_empty : Store.empty.Acyclic := fun x y child => by
  rw [children_of_le (Nat.zero_le x)] at child
  exact absurd child List.not_mem_nil

theorem acyclic_of_ok (closed : s.Closed) (acyclic : s.Acyclic) {a : Action} (fits : a.Fits s)
    (noAppend : ∀ x child slot, a ≠ .append x child slot) (h : a.outcome s = .ok t) :
    t.Acyclic := by
  cases a with
  | newNode payload slotCount =>
    rw [eq_add_of_newNode h]
    exact acyclic.add closed (by simp)
  | newLike other =>
    cases other with
    | none => cases h
    | some x =>
      rw [Action.outcome, newLike_some] at h
      cases h
      exact acyclic.add closed (by simp)
  | newFrozen payload slots =>
    cases h
    exact acyclic.add closed fits
  | append x child slot => exact absurd rfl (noAppend x child slot)
  | snapshot x =>
    obtain rfl | ⟨y, run⟩ := rebuildFrozen_of_snapshot h
    · exact acyclic
    · obtain endless | ⟨y', t', run', made⟩ :=
        rebuildFrozen_cases closed (fits x (by simp [Action.named]))
      · cases endless.symm.trans run
      · cases run'.symm.trans run
        exact made.acyclic closed acyclic
  | copyTree node =>
    obtain ⟨x, copy, copying, rfl, run, rfl⟩ := unfoldCopy_of_copyTree h
    exact acyclic_of_unfoldCopy closed acyclic (fits x (by simp [Action.named])) run
  | copyTracking node references current =>
    obtain ⟨x, copy, copying, rfl, run, rfl⟩ := unfoldCopy_of_copyTracking h
    exact acyclic_of_unfoldCopy closed acyclic (fits x (by simp [Action.named])) run
  | clone x =>
    obtain ⟨census, made⟩ := clonedOnto_of_clone h
    exact made.acyclic closed acyclic
  | occurrences | equal | fingerprint | distinct | matchTrees | locate | render =>
    rw [eq_of_looked h]
    exact acyclic

theorem acyclic_after (closed : s.Closed) (acyclic : s.Acyclic) {a : Action} (fits : a.Fits s)
    (noAppend : ∀ x child slot, a ≠ .append x child slot) : (s.after a).Acyclic := by
  cases h : a.outcome s with
  | error e => rwa [after_of_error h]
  | ok t =>
    rw [after_of_ok h]
    exact acyclic_of_ok closed acyclic fits noAppend h

/-- `t` comes from `s` by a run in which some append, in a store that is still acyclic, puts a child
under a node that it reaches. -/
def CycleAppended (s t : Store) : Prop :=
  ∃ (u v : Store) (x c : NodeId) (slot : Int), Run s u ∧ u.Acyclic ∧
    u.append x (some c) slot = .ok v ∧ u.Reaches c x ∧ Run v t

theorem append_of_not_acyclic (closed : s.Closed) (acyclic : s.Acyclic) {a : Action}
    (fits : a.Fits s) (cyclic : ¬ (s.after a).Acyclic) :
    ∃ x c slot, s.append x (some c) slot = .ok (s.after a) ∧ s.Reaches c x := by
  obtain ⟨x, child, slot, rfl⟩ : ∃ x child slot, a = .append x child slot := by
    by_contra noAppend
    push Not at noAppend
    exact cyclic (acyclic_after closed acyclic fits noAppend)
  cases h : s.append x child slot with
  | error e =>
    have same : s.after (.append x child slot) = s := after_of_error h
    rw [same] at cyclic
    exact absurd acyclic cyclic
  | ok t =>
    have same : s.after (.append x child slot) = t := after_of_ok h
    obtain ⟨-, c, i, rfl, rfl, -, -⟩ := append_eq_ok_iff.1 h
    rw [same] at cyclic ⊢
    refine ⟨x, c, i, h, ?_⟩
    by_contra apart
    exact cyclic ((acyclic_append_iff acyclic h).2 apart)

theorem Run.acyclic_or_append (run : Run s t) (closed : s.Closed) (acyclic : s.Acyclic) :
    t.Acyclic ∨ s.CycleAppended t := by
  induction run with
  | refl => exact .inl acyclic
  | @step s t a fits rest ih =>
    by_cases acyclic' : (s.after a).Acyclic
    · refine (ih ((change_after closed fits).closed closed) acyclic').imp_right fun later => ?_
      obtain ⟨u, v, x, c, slot, before, still, appended, back, after⟩ := later
      exact ⟨u, v, x, c, slot, .step a fits before, still, appended, back, after⟩
    · obtain ⟨x, c, slot, appended, back⟩ := append_of_not_acyclic closed acyclic fits acyclic'
      exact .inr ⟨s, s.after a, x, c, slot, .refl s, acyclic, appended, back, rest⟩

end SlotTree.Store
