import SlotTree.Copy.Clone
import SlotTree.Proofs.ChildPairs
import SlotTree.Proofs.CopyLoop
import SlotTree.Proofs.Moments
import SlotTree.Proofs.Snapshots

/-!
Operations that make many nodes, on stores that may have cycles. A copy or a snapshot of a node that
reaches itself is never finished; but it never fails either, and at every moment of its work all
nodes that were there before are as they were. What it leaves when it is finished is a closed store.
-/

namespace SlotTree.Store

variable {s t : Store} {x y z : NodeId}

/-! Closed stores. -/

theorem Closed.of_kept (closed : s.Closed) (kept : s.KeptIn t)
    (new : ∀ z, s.count ≤ z → ∀ y ∈ t.children z, y < t.count) : t.Closed := by
  intro z y child
  by_cases old : z < s.count
  · rw [kept.children old] at child
    exact Nat.lt_of_lt_of_le (closed z y child) kept.count_le
  · exact new z (Nat.le_of_not_lt old) y child

theorem Closed.add (closed : s.Closed) {n : Node} (old : ∀ y ∈ n.children, y < s.count) :
    (s.add n).2.Closed := by
  refine closed.of_kept (.add s n) fun z new y child => ?_
  rw [count_add]
  rw [children, node_add] at child
  split at child
  · exact Nat.lt_succ_of_lt (old y child)
  · rw [← children, children_of_le new] at child
    exact absurd child List.not_mem_nil

@[simp] theorem children_blank (payload : Payload) (count : Nat) :
    (Node.blank payload count).children = [] := by
  simp [Node.blank, Node.children]

theorem Closed.grow (closed : s.Closed) (x : NodeId) (i : Nat) {c : NodeId} (hc : c < s.count) :
    (s.grow x i c).Closed := by
  intro z y child
  obtain ⟨slot, index, at_child⟩ := mem_children_iff.1 child
  rw [count_grow]
  rw [childAt, slot_grow] at at_child
  split at at_child
  · rw [Array.getElem?_push] at at_child
    split at at_child
    · cases at_child
      exact hc
    · exact closed x y (mem_children_iff.2 ⟨i, index, at_child⟩)
  · exact closed z y (mem_children_iff.2 ⟨slot, index, at_child⟩)

/-! Copies. -/

section Attach

variable {store after : Store} {parent : NodeId} {edges : List Edge}

theorem Attached.blank_of_new (attached : store.Attached parent edges after)
    (new : store.count ≤ z) (within : z < after.count) :
    ∃ payload count, after.node z = .blank payload count := by
  rw [attached.count] at within
  have place : z - store.count < edges.length := Nat.sub_lt_left_of_lt_add new within
  refine ⟨_, _, attached.fresh edges[z - store.count] z ?_⟩
  rw [List.mem_zipIdx_iff_le_and_getElem?_sub]
  exact ⟨new, List.getElem?_eq_getElem place⟩

theorem Attached.child_of_parent (attached : store.Attached parent edges after)
    (hp : parent < store.count) (child : y ∈ after.children parent) :
    y ∈ store.children parent ∨ y < after.count := by
  obtain ⟨i, j, at_child⟩ := mem_children_iff.1 child
  have inside := lt_slotCount_of_childAt at_child
  rw [attached.grown.slotCount_eq parent hp] at inside
  have mem : y ∈ (after.slot parent i).toList := by
    rw [List.mem_iff_getElem?]
    exact ⟨j, by rwa [Array.getElem?_toList]⟩
  rw [attached.slot i inside, List.mem_append] at mem
  refine mem.imp mem_children_of_slot fun copy => ?_
  obtain ⟨⟨e, c⟩, landed, rfl⟩ := List.mem_map.1 copy
  rw [attached.count]
  exact List.snd_lt_add_of_mem_zipIdx (List.mem_filter.1 landed).1

theorem Attached.closed (attached : store.Attached parent edges after) (closed : store.Closed)
    (hp : parent < store.count) : after.Closed := by
  intro z y child
  have within (h : y < store.count) : y < after.count :=
    Nat.lt_of_lt_of_le h attached.grown.count_le
  by_cases old : z < store.count
  · by_cases here : z = parent
    · rw [here] at child
      exact (attached.child_of_parent hp child).elim (fun h => within (closed parent y h)) id
    · rw [children, attached.others z old here] at child
      exact within (closed z y child)
  · have within := lt_count_of_mem_children child
    obtain ⟨payload, count, blank⟩ := attached.blank_of_new (Nat.le_of_not_lt old) within
    simp [children, blank] at child

end Attach

def GrowableFrom (s t : Store) : Prop := ∀ z, s.count ≤ z → t.kind z = .growable

theorem Attached.growableFrom {store after : Store} {parent : NodeId} {edges : List Edge}
    (attached : store.Attached parent edges after) (growable : s.GrowableFrom store) :
    s.GrowableFrom after := by
  intro z new
  by_cases old : z < store.count
  · rw [attached.grown.kind_eq z old, growable z new]
  · by_cases within : z < after.count
    · obtain ⟨payload, count, blank⟩ := attached.blank_of_new (Nat.le_of_not_lt old) within
      rw [kind, blank]
      rfl
    · rw [kind, node_of_le (Nat.le_of_not_lt within)]
      rfl

/-- What is so at every moment of a copy. -/
structure CopyMoment (s : Store) (copying : Copying) (waiting : List CopyPair) : Prop where
  waiting : s.Waiting copying.store waiting
  closed : copying.store.Closed
  growable : s.GrowableFrom copying.store

theorem copyMoment_kept (closed : s.Closed) : Worklist.Kept Copying.visit s.CopyMoment := by
  rintro before ⟨x, c⟩ rest moment
  have first := moment.waiting.first
  have hc := (first.new _ List.mem_cons_self).2
  obtain ⟨store, attached, visited⟩ := visit_eq_next closed first
  have below := first.below closed attached
  have behind : s.Waiting store rest :=
    moment.waiting.behind attached.grown.count_le attached.others
  refine ⟨_, _, visited, below.append behind ?_, attached.closed moment.closed hc,
    attached.growableFrom moment.growable⟩
  -- the new copies are numbered behind all that waits already
  intro a new b mem
  have above := (copy_of_mem_newPairs (List.mem_reverse.1 new)).1
  have old := (moment.waiting.new b (List.mem_cons_of_mem _ mem)).2
  exact Nat.ne_of_gt (Nat.lt_of_lt_of_le old above)

theorem copyMoment_start (closed : s.Closed) (hx : x < s.count) :
    s.CopyMoment (s.copyStart x) [⟨x, s.count⟩] where
  waiting := waiting_root hx
  closed := closed.add (by simp)
  growable z new := by
    rw [copyStart, kind, node_add]
    split
    · rfl
    · rw [node_of_le new]
      rfl

theorem unfoldCopy_cases (closed : s.Closed) (hx : x < s.count) :
    s.unfoldCopy x = .error .endless ∨ ∃ copying, s.unfoldCopy x = .ok (s.count, copying) ∧
      s.KeptIn copying.store ∧ copying.store.Closed ∧ s.GrowableFrom copying.store := by
  have walked := Worklist.finished_walk_of_kept (copyMoment_kept closed) .ok
    (s.copyStart x).store.depthBound (copyMoment_start closed hx)
  rw [unfoldCopy_eq]
  obtain endless | ⟨copying, moment, done⟩ := walked
  · exact .inl (by rw [endless]; rfl)
  · refine .inr ⟨copying, ?_, moment.waiting.kept, moment.closed, moment.growable⟩
    rw [done]
    rfl

/-! Snapshots. -/

/-- When the tasks are done in order, every node that is left comes after its children, and in the
end `root` has come up. -/
def Ready (s : Store) (root : NodeId) : (NodeId → Prop) → List PostTask → Prop
  | known, [] => known root
  | known, .enter x :: rest => x < s.count ∧ Ready s root (fun y => y = x ∨ known y) rest
  | known, .leave x :: rest =>
    x < s.count ∧ (∀ y ∈ s.children x, known y) ∧ Ready s root (fun y => y = x ∨ known y) rest

section Ready

variable {root : NodeId} {known known' : NodeId → Prop} {tasks : List PostTask}

theorem Ready.mono (ready : s.Ready root known tasks) (more : ∀ y, known y → known' y) :
    s.Ready root known' tasks := by
  induction tasks generalizing known known' with
  | nil => exact more root ready
  | cons task rest ih =>
    cases task with
    | enter x => exact ⟨ready.1, ih ready.2 fun y h => h.imp_right (more y)⟩
    | leave x =>
      refine ⟨ready.1, fun y child => more y (ready.2.1 y child), ih ready.2.2 fun y h => ?_⟩
      exact h.imp_right (more y)

theorem Ready.enterAll {ys : List NodeId} (within : ∀ y ∈ ys, y < s.count)
    (ready : s.Ready root (fun y => y ∈ ys ∨ known y) tasks) :
    s.Ready root known (ys.map .enter ++ tasks) := by
  induction ys generalizing known with
  | nil => exact ready.mono fun y h => h.resolve_left List.not_mem_nil
  | cons x ys ih =>
    obtain ⟨here, others⟩ := List.forall_mem_cons.1 within
    refine ⟨here, ih others (ready.mono fun y h => ?_)⟩
    simpa [or_assoc, or_left_comm] using h

theorem Ready.enter (closed : s.Closed) {x : NodeId} {rest : List PostTask}
    (ready : s.Ready root known (.enter x :: rest)) :
    s.Ready root known ((s.children x).map .enter ++ [.leave x] ++ rest) := by
  rw [List.append_assoc]
  refine .enterAll (closed x) ⟨ready.1, fun y child => .inl child, ready.2.mono fun y h => ?_⟩
  exact h.imp_right .inr

end Ready

def SnapshotMoment (s : Store) (root : NodeId) (snap : Rebuilding) (waiting : List PostTask) :
    Prop :=
  ∃ done, s.Rebuilt done snap ∧ s.Ready root (· ∈ done) waiting

theorem snapshotMoment_kept (closed : s.Closed) (root : NodeId) :
    Worklist.Kept (postVisit s.children Rebuilding.rebuild) (s.SnapshotMoment root) := by
  rintro snap (x | x) rest ⟨done, rebuilt, ready⟩
  · exact ⟨snap, _, rfl, done, rebuilt, ready.enter closed⟩
  · obtain ⟨hx, children, later⟩ := ready
    obtain ⟨after, run, rebuilt⟩ := rebuilt.step hx children
    refine ⟨after, [], by simp only [postVisit, run], done ++ [x], rebuilt, ?_⟩
    exact later.mono fun y h => by simpa [or_comm] using h

theorem snapshotMoment_start (s : Store) {x : NodeId} (hx : x < s.count) :
    s.SnapshotMoment x ⟨s, ∅⟩ [.enter x] :=
  ⟨[], .start s, hx, .inl rfl⟩

theorem Built.kind_eq {order : List NodeId} (built : s.Built order t) (new : s.count ≤ z)
    (within : z < t.count) : t.kind z = .frozen := by
  have place : z - s.count < order.length :=
    Nat.sub_lt_left_of_lt_add new (built.count ▸ within)
  have entry := List.getElem?_eq_getElem place
  exact (built.new_of_builtFor ⟨_, entry, (Nat.add_sub_of_le new).symm⟩).1

theorem Built.child_lt {order : List NodeId} (built : s.Built order t) (new : s.count ≤ z)
    (child : y ∈ t.children z) : s.count ≤ y ∧ y < z := by
  have place : z - s.count < order.length :=
    Nat.sub_lt_left_of_lt_add new (built.count ▸ lt_count_of_mem_children child)
  have entry := List.getElem?_eq_getElem place
  obtain ⟨slot, index, at_child⟩ := mem_children_iff.1 child
  rw [← Nat.add_sub_of_le new] at at_child
  obtain ⟨w, j, -, last, rfl⟩ := (built.childAt_eq_some_iff entry).1 at_child
  have earlier := last.lt
  rw [List.length_take] at earlier
  have before : j < z - s.count := Nat.lt_of_lt_of_le earlier (Nat.min_le_left _ _)
  exact ⟨Nat.le_add_right _ _, Nat.add_lt_of_lt_sub' before⟩

/-- What a snapshot makes: new frozen nodes, each over earlier ones among them. -/
structure FrozenOnto (s t : Store) : Prop where
  kept : s.KeptIn t
  frozen : ∀ z, s.count ≤ z → z < t.count → t.kind z = .frozen
  child : ∀ z, s.count ≤ z → ∀ y ∈ t.children z, s.count ≤ y ∧ y < z

theorem Built.frozenOnto {order : List NodeId} (built : s.Built order t) : s.FrozenOnto t :=
  ⟨built.kept, fun _ => built.kind_eq, fun _ new _ => built.child_lt new⟩

theorem FrozenOnto.closed (made : s.FrozenOnto t) (closed : s.Closed) : t.Closed :=
  closed.of_kept made.kept fun z new y child =>
    Nat.lt_trans (made.child z new y child).2 (lt_count_of_mem_children child)

theorem rebuildFrozen_cases (closed : s.Closed) (hx : x < s.count) :
    s.rebuildFrozen x = .error .endless ∨
      ∃ y t, s.rebuildFrozen x = .ok (y, t) ∧ s.FrozenOnto t := by
  have walked := Worklist.finished_walk_of_kept (snapshotMoment_kept closed x) .ok s.depthBound
    (snapshotMoment_start s hx)
  rw [rebuildFrozen, postFold]
  obtain endless | ⟨snap, ⟨done, rebuilt, mem⟩, run⟩ := walked
  · exact .inl (by rw [endless]; rfl)
  · obtain ⟨j, last⟩ := IsLastPlace.exists_of_mem mem
    have entry := rebuilt.entry x j last
    refine .inr ⟨s.count + j, snap.store, ?_, rebuilt.built.frozenOnto⟩
    rw [run]
    simp only [bind, Except.bind, Rebuilding.lookup, entry]

/-! Clones. -/

end Store

def Census.Numbered (c : Census) : Prop :=
  ∀ (y : NodeId) (p : Nat), c.places[y]? = some p → c.order[p]? = some y

theorem Census.Numbered.enter {c : Census} (numbered : c.Numbered) (x : NodeId) :
    (c.enter x).Numbered := by
  obtain ⟨order, places⟩ := c
  intro y p place
  simp only [Census.enter, Std.HashMap.getElem?_insert] at place ⊢
  split at place
  · rename_i same
    cases place
    rw [Array.getElem?_push_size, eq_of_beq same]
  · have before := numbered y p place
    have within := (Array.getElem?_eq_some_iff.1 before).1
    rw [Array.getElem?_push, if_neg (Nat.ne_of_lt within)]
    exact before

namespace Store

variable {s t : Store} {x y z : NodeId}

theorem numbered_kept (s : Store) :
    Worklist.Kept s.censusVisit fun census _ => census.Numbered := by
  intro census x rest numbered
  unfold censusVisit
  split
  · exact ⟨census, [], rfl, numbered⟩
  · exact ⟨census.enter x, s.children x, rfl, numbered.enter x⟩

/-- What a clone makes: behind the nodes that were there, one for each node of a census. -/
structure ClonedOnto (s : Store) (census : Census) (t : Store) : Prop where
  numbered : census.Numbered
  nodes : t = ⟨s.nodes ++ census.order.map (s.cloneNode census.places)⟩

theorem clone_cases (s : Store) (x : NodeId) :
    s.clone x = .error .endless ∨
      ∃ y t census, s.clone x = .ok (y, t) ∧ s.ClonedOnto census t := by
  have start : Census.empty.Numbered := fun y p place => by simp [Census.empty] at place
  have walked : s.census x = .error .endless ∨
      ∃ census, census.Numbered ∧ s.census x = .ok census :=
    Worklist.finished_walk_of_kept (numbered_kept s) .ok s.depthBound start
  rw [clone]
  obtain endless | ⟨census, numbered, run⟩ := walked
  · exact .inl (by rw [endless]; rfl)
  · exact .inr ⟨_, _, census, by rw [run]; rfl, numbered, rfl⟩

namespace ClonedOnto

variable {census : Census}

theorem count (made : s.ClonedOnto census t) : t.count = s.count + census.order.size := by
  rw [made.nodes]
  simp [Store.count]

theorem kept (made : s.ClonedOnto census t) : s.KeptIn t := by
  refine ⟨by rw [made.count]; exact Nat.le_add_right _ _, fun z old => ?_⟩
  rw [made.nodes, node, node, Array.getD_eq_getD_getElem?, Array.getD_eq_getD_getElem?,
    Array.getElem?_append_left old]

theorem node_eq (made : s.ClonedOnto census t) {k : Nat} {w : NodeId}
    (place : census.order[k]? = some w) :
    t.node (s.count + k) = s.cloneNode census.places w := by
  have behind : (s.nodes ++ census.order.map (s.cloneNode census.places))[s.count + k]? =
      some (s.cloneNode census.places w) := by
    rw [Array.getElem?_append_right (Nat.le_add_right s.count k), Array.getElem?_map]
    have back : s.count + k - s.nodes.size = k := Nat.add_sub_cancel_left s.count k
    rw [back, place]
    rfl
  rw [made.nodes, node, Array.getD_eq_getD_getElem?, behind, Option.getD_some]

theorem exists_place (made : s.ClonedOnto census t) (new : s.count ≤ z) (within : z < t.count) :
    ∃ k w, z = s.count + k ∧ census.order[k]? = some w := by
  have place : z - s.count < census.order.size :=
    Nat.sub_lt_left_of_lt_add new (made.count ▸ within)
  exact ⟨_, _, (Nat.add_sub_of_le new).symm, Array.getElem?_eq_getElem place⟩

@[simp] theorem children_cloneNode (places : Std.HashMap NodeId Nat) (w : NodeId) :
    (s.cloneNode places w).children = (s.children w).map (cloneOf s.count places) := by
  simp [cloneNode, NodeState.restored, NodeState.rename, Node.state, children, Node.children,
    List.map_flatMap, List.flatMap_map]

theorem cloneOf_cases (made : s.ClonedOnto census t) (y : NodeId) :
    cloneOf s.count census.places y = y ∨
      ∃ k, cloneOf s.count census.places y = s.count + k ∧ census.order[k]? = some y := by
  unfold cloneOf
  cases place : census.places[y]? with
  | none => exact .inl rfl
  | some k => exact .inr ⟨k, rfl, made.numbered y k place⟩

theorem closed (made : s.ClonedOnto census t) (closed : s.Closed) : t.Closed := by
  refine closed.of_kept made.kept fun z new y child => ?_
  obtain ⟨k, w, rfl, place⟩ := made.exists_place new (lt_count_of_mem_children child)
  rw [children, made.node_eq place, children_cloneNode] at child
  obtain ⟨c, hc, rfl⟩ := List.mem_map.1 child
  rw [made.count]
  obtain same | ⟨j, eq, entry⟩ := made.cloneOf_cases c
  · rw [same]
    exact Nat.lt_add_right _ (closed w c hc)
  · rw [eq]
    exact Nat.add_lt_add_left (Array.getElem?_eq_some_iff.1 entry).1 _

end ClonedOnto
end SlotTree.Store
