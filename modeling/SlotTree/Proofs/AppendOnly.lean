import SlotTree.History
import SlotTree.Proofs.Making

/-!
What a run may do to nodes that are there. `Change` says once what one action can lead to; from it
follow the steps, and from these the runs: a node keeps its kind, its payload and its number of
slots, and its slots only grow at their ends, one child for each append that succeeds. An action
that fails leaves the store as it was, and so does a copy or a snapshot at every moment of its work.
-/

namespace SlotTree.Store

variable {s t : Store} {a : Action} {x y : NodeId}

/-- What an action may lead to: the store itself, new nodes behind those that were there, or one
more child in one slot of a growable node. -/
inductive Change (s : Store) : Action → Store → Prop where
  | looked (a : Action) : Change s a s
  | added (a : Action) (payload : Payload) (count : Nat) :
      Change s a (s.add (.blank payload count)).2
  | frozen (payload : Payload) (slots : Array (Array NodeId)) :
      (∀ y ∈ slots.toList.flatMap Array.toList, y < s.count) →
      Change s (.newFrozen payload slots) (s.newFrozen payload slots).2
  | grown (x c : NodeId) (i : Nat) : s.kind x = .growable → c < s.count → i < s.slotCount x →
      Change s (.append x (some c) i) (s.grow x i c)
  | copied (a : Action) {t : Store} : s.KeptIn t → t.Closed → s.GrowableFrom t → Change s a t
  | rebuilt (a : Action) {t : Store} : s.FrozenOnto t → Change s a t
  | cloned (a : Action) {census : Census} {t : Store} : s.ClonedOnto census t → Change s a t

/-! What the store is after an action that succeeds. -/

theorem eq_of_looked {α : Type} {outcome : Except Fault α}
    (h : outcome.map (fun _ => s) = .ok t) : t = s := by
  cases outcome with
  | error => cases h
  | ok =>
    cases h
    rfl

theorem eq_add_of_newNode {payload : Payload} {slotCount : Int}
    (h : (s.newNode payload slotCount).map Prod.snd = .ok t) :
    t = (s.add (.blank payload slotCount.toNat)).2 := by
  unfold newNode at h
  split at h
  · cases h
  · cases h
    rfl

theorem unfoldCopy_of_copyTree {node : Option NodeId}
    (h : (s.copyTree node).outcome.map Prod.snd = .ok t) :
    ∃ x copy copying, node = some x ∧ s.unfoldCopy x = .ok (copy, copying) ∧
      t = copying.store := by
  unfold copyTree at h
  cases node with
  | none => cases h
  | some x =>
    cases run : s.unfoldCopy x with
    | error => simp [Fault.given, bind, Except.bind, run, Except.map] at h
    | ok made =>
      simp only [Fault.given, bind, Except.bind, run, Except.map, Except.ok.injEq] at h
      exact ⟨x, made.1, made.2, rfl, run, h.symm⟩

theorem unfoldCopy_of_copyTracking {node current : Option NodeId} {references : Option References}
    (h : (s.copyTracking node references current).outcome.map Prod.snd = .ok t) :
    ∃ x copy copying, node = some x ∧ s.unfoldCopy x = .ok (copy, copying) ∧
      t = copying.store := by
  unfold copyTracking at h
  cases node with
  | none => cases h
  | some x =>
    cases references with
    | none => cases h
    | some tracked =>
      cases run : s.unfoldCopy x with
      | error => simp [run, Except.map] at h
      | ok made =>
        simp only [run, Except.map, Except.ok.injEq] at h
        exact ⟨x, made.1, made.2, rfl, run, h.symm⟩

theorem rebuildFrozen_of_snapshot (h : (s.snapshot x).map Prod.snd = .ok t) :
    t = s ∨ ∃ y, s.rebuildFrozen x = .ok (y, t) := by
  unfold snapshot at h
  cases kind : s.kind x with
  | frozen =>
    rw [kind] at h
    cases h
    exact .inl rfl
  | growable =>
    rw [kind] at h
    cases run : s.rebuildFrozen x with
    | error => simp [run, Except.map] at h
    | ok made =>
      simp only [run, Except.map, Except.ok.injEq] at h
      exact .inr ⟨made.1, by rw [← h]⟩

theorem clonedOnto_of_clone (h : (s.clone x).map Prod.snd = .ok t) :
    ∃ census, s.ClonedOnto census t := by
  obtain endless | ⟨y, made, census, run, cloned⟩ := clone_cases s x
  · simp [endless, Except.map] at h
  · simp only [run, Except.map, Except.ok.injEq] at h
    exact ⟨census, h ▸ cloned⟩

theorem change_of_looked {α : Type} {outcome : Except Fault α}
    (h : outcome.map (fun _ => s) = .ok t) : s.Change a t := by
  rw [eq_of_looked h]
  exact .looked a

theorem change_of_unfoldCopy (closed : s.Closed) (hx : x < s.count) {copy : NodeId}
    {copying : Copying} (h : s.unfoldCopy x = .ok (copy, copying)) : s.Change a copying.store := by
  obtain endless | ⟨copying, run, kept, closed', growable⟩ := unfoldCopy_cases closed hx
  · cases endless.symm.trans h
  · cases run.symm.trans h
    exact .copied a kept closed' growable

theorem change_of_snapshot (closed : s.Closed) (hx : x < s.count)
    (h : (s.snapshot x).map Prod.snd = .ok t) : s.Change a t := by
  obtain rfl | ⟨y, run⟩ := rebuildFrozen_of_snapshot h
  · exact .looked a
  · obtain endless | ⟨y', made, run', frozen⟩ := rebuildFrozen_cases closed hx
    · cases endless.symm.trans run
    · cases run'.symm.trans run
      exact .rebuilt a frozen

/-- Every action that succeeds makes one of these changes. -/
theorem change_of_ok (closed : s.Closed) (fits : a.Fits s) (h : a.outcome s = .ok t) :
    s.Change a t := by
  cases a with
  | newNode payload slotCount =>
    rw [eq_add_of_newNode h]
    exact .added _ payload slotCount.toNat
  | newLike other =>
    cases other with
    | none => cases h
    | some x =>
      rw [Action.outcome, newLike_some] at h
      cases h
      exact .added _ (s.payload x) (s.slotCount x)
  | newFrozen payload slots =>
    cases h
    exact .frozen payload slots fits
  | append x child slot =>
    obtain ⟨growable, c, i, rfl, rfl, inside, rfl⟩ := append_eq_ok_iff.1 h
    exact .grown x c i growable (fits c (by simp [Action.named])) inside
  | snapshot x => exact change_of_snapshot closed (fits x (by simp [Action.named])) h
  | copyTree node =>
    obtain ⟨x, copy, copying, rfl, run, rfl⟩ := unfoldCopy_of_copyTree h
    exact change_of_unfoldCopy closed (fits x (by simp [Action.named])) run
  | copyTracking node references current =>
    obtain ⟨x, copy, copying, rfl, run, rfl⟩ := unfoldCopy_of_copyTracking h
    exact change_of_unfoldCopy closed (fits x (by simp [Action.named])) run
  | clone x =>
    obtain ⟨census, made⟩ := clonedOnto_of_clone h
    exact .cloned _ made
  | occurrences node => exact change_of_looked h
  | equal x y => exact change_of_looked h
  | fingerprint x => exact change_of_looked h
  | distinct nodes => exact change_of_looked h
  | matchTrees pattern target comparator policy => exact change_of_looked h
  | locate root target => exact change_of_looked h
  | render node convert style lead => exact change_of_looked h

theorem change_after (closed : s.Closed) (fits : a.Fits s) : s.Change a (s.after a) := by
  cases h : a.outcome s with
  | error e =>
    rw [after_of_error h]
    exact .looked a
  | ok t =>
    rw [after_of_ok h]
    exact change_of_ok closed fits h

theorem Change.closed (change : s.Change a t) (closed : s.Closed) : t.Closed := by
  cases change with
  | looked => exact closed
  | added => exact closed.add (by simp)
  | frozen payload slots old => exact closed.add old
  | grown x c i _ old _ => exact closed.grow x i old
  | copied _ _ closed' _ => exact closed'
  | rebuilt _ made => exact made.closed closed
  | cloned _ made => exact made.closed closed

/-- `t` is `s` with the child `c` at the end of slot `i` of the node `x`. -/
structure GrownBy (s : Store) (x : NodeId) (i : Nat) (c : NodeId) (t : Store) : Prop where
  count : t.count = s.count
  others : ∀ y, y ≠ x → t.node y = s.node y
  kind : t.kind x = s.kind x
  payload : t.payload x = s.payload x
  slotCount : t.slotCount x = s.slotCount x
  slot : t.slot x i = (s.slot x i).push c
  other_slots : ∀ j, j ≠ i → t.slot x j = s.slot x j

theorem grownBy_grow (s : Store) {x c : NodeId} {i : Nat} (inside : i < s.slotCount x) :
    s.GrownBy x i c (s.grow x i c) where
  count := by simp
  others y ne := node_grow_of_ne ne i c
  kind := by simp
  payload := by simp
  slotCount := by simp
  slot := by simp [slot_grow, inside]
  other_slots j ne := by simp [slot_grow, ne]

theorem grownBy_of_append {child : Option NodeId} {slot : Int} (h : s.append x child slot = .ok t) :
    ∃ (c : NodeId) (i : Nat), child = some c ∧ slot = i ∧ s.kind x = .growable ∧
      i < s.slotCount x ∧ s.GrownBy x i c t := by
  obtain ⟨growable, c, i, rfl, rfl, inside, rfl⟩ := append_eq_ok_iff.1 h
  exact ⟨c, i, rfl, rfl, growable, inside, grownBy_grow s inside⟩

theorem Change.kept_or_grown (change : s.Change a t) :
    s.KeptIn t ∨ ∃ (x c : NodeId) (i : Nat), a = .append x (some c) i ∧ s.kind x = .growable ∧
      i < s.slotCount x ∧ s.GrownBy x i c t := by
  cases change with
  | looked => exact .inl (.refl s)
  | added => exact .inl (.add s _)
  | frozen => exact .inl (.add s _)
  | grown x c i growable _ inside =>
    exact .inr ⟨x, c, i, rfl, growable, inside, grownBy_grow s inside⟩
  | copied _ kept => exact .inl kept
  | rebuilt _ made => exact .inl made.kept
  | cloned _ made => exact .inl made.kept

theorem Change.extends (change : s.Change a t) : s.Extends t := by
  cases change with
  | looked => exact .refl s
  | added => exact .add s _
  | frozen => exact .add s _
  | grown x c i => exact .grow s x i c
  | copied _ kept => exact kept.toExtends
  | rebuilt _ made => exact made.kept.toExtends
  | cloned _ made => exact made.kept.toExtends

/-! Runs. -/

theorem closed_empty : Store.empty.Closed := fun x y child => by
  rw [children_of_le (Nat.zero_le x)] at child
  exact absurd child List.not_mem_nil

theorem Run.closed (run : Run s t) (closed : s.Closed) : t.Closed :=
  run.keeps (fun _ _ fits closed => (change_after closed fits).closed closed) closed

theorem Run.extends (run : Run s t) (closed : s.Closed) : s.Extends t := by
  induction run with
  | refl => exact .refl _
  | step a fits _ ih =>
    have change := change_after closed fits
    exact change.extends.trans (ih (change.closed closed))

theorem Extends.readChild (grown : s.Extends t) {index slot : Int}
    (read : s.readChild x index slot = .ok y) : t.readChild x index slot = .ok y := by
  obtain ⟨i, j, rfl, rfl, at_child⟩ := readChild_eq_ok_iff.1 read
  exact readChild_eq_ok_iff.2 ⟨i, j, rfl, rfl, grown.childAt at_child⟩

theorem eq_endless_of_error {α : Type} {outcome : Except Fault α} {e : Fault}
    (ends : outcome = .error .endless ∨ ∃ a, outcome = .ok a) (failed : outcome = .error e) :
    e = .endless := by
  obtain endless | ⟨a, run⟩ := ends
  · cases endless.symm.trans failed
    rfl
  · cases run.symm.trans failed

/-- Copies and snapshots of a node leave all nodes alone while they are under way, and end in no
failure; they may be under way for ever. -/
structure LeftAlone (s : Store) (x : NodeId) : Prop where
  copying : ∀ copying waiting,
    Worklist.Leads Copying.visit (s.copyStart x) [⟨x, s.count⟩] copying waiting →
      s.KeptIn copying.store
  copy_fault : ∀ e, s.unfoldCopy x = .error e → e = .endless
  rebuilding : ∀ snap waiting,
    Worklist.Leads (postVisit s.children Rebuilding.rebuild) ⟨s, ∅⟩ [.enter x] snap waiting →
      s.KeptIn snap.store
  snapshot_fault : ∀ e, s.rebuildFrozen x = .error e → e = .endless
  clone_fault : ∀ e, s.clone x = .error e → e = .endless

theorem leftAlone (closed : s.Closed) (hx : x < s.count) : s.LeftAlone x where
  copying copying waiting leads :=
    (leads.keeps (copyMoment_kept closed) (copyMoment_start closed hx)).waiting.kept
  copy_fault e :=
    eq_endless_of_error ((unfoldCopy_cases closed hx).imp_right fun ⟨_, run, _⟩ => ⟨_, run⟩)
  rebuilding snap waiting leads := by
    obtain ⟨done, rebuilt, -⟩ :=
      leads.keeps (snapshotMoment_kept closed x) (snapshotMoment_start s hx)
    exact rebuilt.built.kept
  snapshot_fault e :=
    eq_endless_of_error ((rebuildFrozen_cases closed hx).imp_right fun ⟨_, _, run, _⟩ => ⟨_, run⟩)
  clone_fault e :=
    eq_endless_of_error ((clone_cases s x).imp_right fun ⟨_, _, _, run, _⟩ => ⟨_, run⟩)

theorem append_eq (s : Store) (x : NodeId) (child : Option NodeId) (slot : Int) :
    s.append x child slot =
      match s.kind x, child with
      | .frozen, _ => .error .frozenNode
      | .growable, none => .error (.missingArgument "child")
      | .growable, some c =>
        if 0 ≤ slot ∧ slot < s.slotCount x then .ok (s.grow x slot.toNat c)
        else .error (.slotRange slot (s.slotCount x)) := by
  unfold append checkSlot
  cases s.kind x with
  | frozen => rfl
  | growable =>
    cases child with
    | none => rfl
    | some c =>
      by_cases bounds : 0 ≤ slot ∧ slot < s.slotCount x
      · simp only [Fault.given, bind, Except.bind, if_pos bounds]
      · simp only [Fault.given, bind, Except.bind, if_neg bounds]

/-- Whatever a run does, nodes keep their kind, payload and number of slots, slots grow at their
ends only, and what was read of them is read again. An action leaves the nodes that are there as
they are, unless it is an append that succeeds, which adds its child at the end of its slot; and
nothing that fails has changed any of them. -/
theorem run_append_only {s t : Store} (before : Run .empty s) (run : Run s t) :
    s.Extends t ∧
    (∀ x index slot child, s.readChild x index slot = .ok child →
      t.readChild x index slot = .ok child) ∧
    (∀ a : Action, a.Fits t → t.KeptIn (t.after a) ∨
      ∃ (x c : NodeId) (i : Nat), a = .append x (some c) i ∧ t.kind x = .growable ∧
        i < t.slotCount x ∧ t.GrownBy x i c (t.after a)) ∧
    (∀ x child slot, t.append x child slot =
      match t.kind x, child with
      | .frozen, _ => .error .frozenNode
      | .growable, none => .error (.missingArgument "child")
      | .growable, some c =>
        if 0 ≤ slot ∧ slot < t.slotCount x then .ok (t.grow x slot.toNat c)
        else .error (.slotRange slot (t.slotCount x))) ∧
    (∀ x child slot u, t.append x child slot = .ok u → ∃ (c : NodeId) (i : Nat),
      child = some c ∧ slot = i ∧ t.kind x = .growable ∧ i < t.slotCount x ∧
        t.GrownBy x i c u) ∧
    (∀ a e, Action.outcome t a = .error e → t.after a = t) ∧
    ∀ x < t.count, t.LeftAlone x := by
  have closed : s.Closed := before.closed closed_empty
  have closed' : t.Closed := run.closed closed
  have grown := run.extends closed
  refine ⟨grown, fun x index slot child => grown.readChild, fun a fits => ?_, append_eq t,
    fun x child slot u => grownBy_of_append, fun a e => after_of_error,
    fun x => leftAlone closed'⟩
  exact (change_after closed' fits).kept_or_grown

def sprout : Store :=
  ⟨#[⟨.growable, .value .null, #[#[1]]⟩, .blank (.value (.bool true)) 0]⟩

def fork : Store :=
  ⟨#[⟨.growable, .value .null, #[#[1, 1]]⟩, .blank (.value (.bool true)) 0]⟩

theorem run_sprout : Run .empty sprout :=
  .step (.newNode (.value .null) 1) (by decide) <|
  .step (.newNode (.value (.bool true)) 0) (by decide) <|
  .step (.append 0 (some 1) 0) (by decide) <| .refl sprout

theorem run_fork : Run sprout fork :=
  .step (.append 0 (some 1) 7) (by decide) <|
  .step (.append 0 (some 1) 0) (by decide) <| .refl fork

theorem run_append_only_fork :
    Run .empty sprout ∧ Run sprout fork ∧ sprout.Extends fork ∧
    sprout.readChild 0 0 0 = .ok 1 ∧ fork.readChild 0 0 0 = .ok 1 ∧
    (Action.snapshot 0).Fits fork ∧ fork.append 0 none 7 = .error (.missingArgument "child") ∧
    (∃ u, fork.append 0 (some 1) 0 = .ok u ∧ fork.GrownBy 0 0 1 u) ∧ fork.LeftAlone 0 := by
  have read : sprout.readChild 0 0 0 = .ok 1 := by rfl
  have fits : (Action.snapshot 0).Fits fork := by decide
  obtain ⟨grown, again, -, append, appended, -, alone⟩ := run_append_only run_sprout run_fork
  obtain ⟨c, i, hc, hi, -, -, by_one⟩ := appended 0 (some 1) 0 (fork.grow 0 0 1) rfl
  cases hc
  cases Int.natCast_inj.1 hi
  exact ⟨run_sprout, run_fork, grown, read, again 0 0 0 1 read, fits, append 0 none 7,
    ⟨_, rfl, by_one⟩, alone 0 (by decide)⟩

end SlotTree.Store
