import SlotTree.Proofs.Copies
import SlotTree.Proofs.Hashes
import SlotTree.Proofs.LastingPaths
import SlotTree.Proofs.Making
import SlotTree.Proofs.MatchRecursion
import SlotTree.Proofs.RenderedLines

/-!
Faults that never show. On closed stores without cycles no table misses a child, no two lists are
walked side by side that have different lengths, no copy is attached where it does not fit, and no
path that was found leads elsewhere. This is so at every moment of the walks, also of those that
are given up. So whatever fails, fails with a fault of what it was given: a payload, a comparator,
a converter, or a target that is not there.
-/

namespace SlotTree.Store

variable {s : Store} {x y : NodeId}

/-! The steps of the walks. -/

theorem entered_of_enterHash {H : Type} {hashing : Hashing H} {table after : HashTable H}
    (run : s.enterHash hashing table x = .ok after) :
    ∃ hash, after = table.insert x hash := by
  rw [enterHash_eq] at run
  obtain ⟨first, -, run⟩ := exists_of_bind_eq_ok run
  obtain ⟨label, -, rfl⟩ := exists_of_map_eq_ok run
  exact ⟨_, rfl⟩

theorem lookupHash_of_leads (acyclic : s.Acyclic) {H : Type} {hashing : Hashing H}
    {table : HashTable H} {rest : List PostTask}
    (leads : Worklist.Leads (postVisit s.firstChildren (s.enterHash hashing)) ∅ [.enter x] table
      (.leave y :: rest)) : ∀ c ∈ s.firstChildren y, ∃ hash, lookupHash table c = .ok hash := by
  refine entered_of_leads acyclic s.descends_firstChildren
    (fun table c => ∃ hash, lookupHash table c = .ok hash) ?enters ?keeps leads
  case enters =>
    intro table x after run
    obtain ⟨hash, rfl⟩ := entered_of_enterHash run
    exact ⟨hash, by simp [lookupHash]⟩
  case keeps =>
    intro table x after y run known
    obtain ⟨hash, rfl⟩ := entered_of_enterHash run
    by_cases here : x = y
    · exact ⟨hash, by simp [lookupHash, here]⟩
    · obtain ⟨earlier, found⟩ := known
      exact ⟨earlier, by simpa [lookupHash, Std.HashMap.getElem?_insert, here] using found⟩

theorem lookup_of_leads (closed : s.Closed) {snap : Rebuilding} {rest : List PostTask}
    (hx : x < s.count)
    (leads : Worklist.Leads (postVisit s.children Rebuilding.rebuild) ⟨s, ∅⟩ [.enter x] snap
      (.leave y :: rest)) :
    ∀ c ∈ snap.store.children y, ∃ z, Rebuilding.lookup snap.table c = .ok z := by
  obtain ⟨done, rebuilt, hy, children, -⟩ :=
    leads.keeps (snapshotMoment_kept closed x) (snapshotMoment_start s hx)
  rw [rebuilt.built.kept.children hy]
  intro c mem
  obtain ⟨j, last⟩ := IsLastPlace.exists_of_mem (children c mem)
  exact ⟨s.count + j, by rw [Rebuilding.lookup, rebuilt.entry c j last]⟩

theorem equalVisit_ne_error (pair : NodeId × NodeId) (e : Fault) :
    s.equalVisit () pair ≠ .stop (.error e) := by
  obtain ⟨x, y⟩ := pair
  by_cases same : x = y
  · rw [same, equalVisit_same]
    simp
  · by_cases alike : s.Alike x y
    · rw [equalVisit_alike same alike]
      simp
    · rw [equalVisit_unlike same alike]
      simp

theorem asked_of_matchVisit {comparator : Comparator} {policy : CountPolicy} {trace : MatchTrace}
    {task : MatchTask} {run : MatchRun} {e : Fault}
    (visited : s.matchVisit comparator policy trace task = .stop run)
    (failed : run.outcome = .error e) :
    ∃ left right, task = .pair left right ∧ comparator left right = .error e := by
  cases task with
  | slot left right =>
    cases allowed : policy.allows left.size right.size with
    | true => simp [matchVisit, allowed] at visited
    | false =>
      simp only [matchVisit, allowed, Bool.false_eq_true, if_false, Step.stop.injEq] at visited
      rw [← visited] at failed
      cases failed
  | pair left right =>
    refine ⟨left, right, rfl, ?_⟩
    by_cases asked : comparator left right = .ok true
    · by_cases slotCount : s.slotCount left = s.slotCount right
      · rw [matchVisit_pair_of_slotCount asked slotCount] at visited
        cases visited
      · rw [matchVisit_pair_of_slotCount_ne asked slotCount] at visited
        cases visited
        cases failed
    · rw [matchVisit_pair_of_ne asked] at visited
      cases visited
      exact failed

theorem attaches_of_leads (closed : s.Closed) {copying : Copying} {pair : CopyPair}
    {rest : List CopyPair} {front back : List Edge} {edge : Edge} (hx : x < s.count)
    (leads : Worklist.Leads Copying.visit (s.copyStart x) [⟨x, s.count⟩] copying (pair :: rest))
    (split : copying.store.edges pair.source = front ++ edge :: back) :
    ∃ before fresh child store, Copying.attach pair.copy copying [] front = .ok (before, fresh) ∧
      before.store.newLike (some edge.child) = .ok (child, store) ∧
      store.kind pair.copy = .growable ∧ edge.slot < store.slotCount pair.copy := by
  have moment := leads.keeps (copyMoment_kept closed) (copyMoment_start closed hx)
  have first := moment.waiting.first
  have hy : pair.source < s.count := first.source _ List.mem_cons_self
  have hc := (first.new _ List.mem_cons_self).2
  obtain ⟨growable, fit⟩ := first.fits closed
  rw [first.kept.edges hy] at split
  rw [split, List.forall_mem_append, List.forall_mem_cons] at fit
  obtain ⟨fitFront, ⟨inside, -⟩, -⟩ := fit
  obtain ⟨store, attached, run⟩ := attach_eq_ok hc growable fitFront copying.pairs []
  have grown := attached.grown.trans
    (.add store (.blank (store.payload edge.child) (store.slotCount edge.child)))
  refine ⟨_, _, _, _, run, newLike_some _ _, (grown.kind_eq _ hc).trans growable, ?_⟩
  exact (grown.slotCount_eq _ hc).symm ▸ inside

/-! What is given may fail. -/

theorem matchBelow_blames (acyclic : s.Acyclic) {comparator : Comparator} {policy : CountPolicy}
    (x y : NodeId) : (s.matchBelow acyclic comparator policy x y).Blames comparator := by
  induction x using acyclic.induction generalizing y with
  | step x ih =>
    rw [matchBelow_eq]
    refine (MatchRun.blames_ask x y).andThen ((MatchRun.blames_require _).andThen (.inTurn ?_))
    rw [List.forall_mem_map]
    intro i _
    refine (MatchRun.blames_require _).andThen (.inTurn ?_)
    rw [List.forall_mem_map]
    exact fun pair mem => ih pair.1 (left_of_mem_childPairs mem) pair.2

theorem exists_failing_of_render (acyclic : s.Acyclic) {convert : Converter} {style : RenderStyle}
    {lead : String} {e : Fault} (failed : s.render (some x) convert style lead = .error e) :
    ∃ y, s.Reaches x y ∧ convert (s.payload y) = .error e := by
  by_cases converts : ∀ z, s.Reaches x z → ∃ text, convert (s.payload z) = .ok text
  · rw [render_eq_join acyclic style lead converts] at failed
    cases failed
  · push Not at converts
    obtain ⟨z, reached, fails⟩ := converts
    cases converted : convert (s.payload z) with
    | ok text => exact absurd converted (fails text)
    | error e' =>
      obtain ⟨p, first, ⟨⟨y, at_end, here⟩, -⟩, rendered⟩ :=
        exists_failsFirst acyclic reached converted
      cases failed.symm.trans (rendered style lead)
      exact ⟨y, reaches_iff_nodeAt.2 ⟨p, at_end⟩, here⟩

theorem unreachable_of_locate (acyclic : s.Acyclic) {root target : NodeId} {e : Fault}
    (failed : (s.locate (some root) (some target)).outcome = .error e) :
    ¬ s.Reaches root target ∧ e = .unreachable target root := by
  have room : s.rank root ≤ s.depthBound := Nat.le_of_lt (s.rank_lt_depthBound root)
  let fail (_ : Unit) : Except Fault Ancestry := .error (.unreachable target root)
  cases searched acyclic target root [] with
  | missed apart ends =>
    have walked := ends.walk fail room
    have run : s.searchFrom root target = .error (.unreachable target root) := by
      rw [searchFrom_eq_walk, walked]
      rfl
    simp only [locate, run, Except.error.injEq] at failed
    exact ⟨apart, failed.symm⟩
  | found below first ends =>
    rw [locate_of_ends ends] at failed
    cases failed

/-! The whole. -/

/-- No step fails on what its own walk has put there, at whatever moment. -/
structure StepsFit (s : Store) : Prop where
  snapshot : ∀ {x y : NodeId} {snap : Rebuilding} {rest : List PostTask}, x < s.count →
    Worklist.Leads (postVisit s.children Rebuilding.rebuild) ⟨s, ∅⟩ [.enter x] snap
      (.leave y :: rest) →
    ∀ c ∈ snap.store.children y, ∃ z, Rebuilding.lookup snap.table c = .ok z
  hash : ∀ {H : Type} {hashing : Hashing H} {x y : NodeId} {table : HashTable H}
    {rest : List PostTask},
    Worklist.Leads (postVisit s.firstChildren (s.enterHash hashing)) ∅ [.enter x] table
      (.leave y :: rest) →
    ∀ c ∈ s.firstChildren y, ∃ hash, lookupHash table c = .ok hash
  equal : ∀ pair e, s.equalVisit () pair ≠ .stop (.error e)
  matching : ∀ {comparator : Comparator} {policy : CountPolicy} {trace : MatchTrace}
    {task : MatchTask} {run : MatchRun} {e : Fault},
    s.matchVisit comparator policy trace task = .stop run → run.outcome = .error e →
    ∃ left right, task = .pair left right ∧ comparator left right = .error e
  copy : ∀ {x : NodeId} {copying : Copying} {pair : CopyPair} {rest : List CopyPair}
    {front back : List Edge} {edge : Edge}, x < s.count →
    Worklist.Leads Copying.visit (s.copyStart x) [⟨x, s.count⟩] copying (pair :: rest) →
    copying.store.edges pair.source = front ++ edge :: back →
    ∃ before fresh child store,
      Copying.attach pair.copy copying [] front = .ok (before, fresh) ∧
      before.store.newLike (some edge.child) = .ok (child, store) ∧
      store.kind pair.copy = .growable ∧ edge.slot < store.slotCount pair.copy
  retrace : ∀ {root target : NodeId} {a : Ancestry},
    (s.locate (some root) (some target)).outcome = .ok a → a.retrace s = .ok target

/-- What an operation fails with, if at all, comes from what it was given. -/
structure FaultsGiven (s : Store) : Prop where
  snapshot : ∀ x < s.count, ∃ y t, s.snapshot x = .ok (y, t)
  copyTree : ∀ x < s.count, ∃ y t, (s.copyTree (some x)).outcome = .ok (y, t)
  copyTracking : ∀ x < s.count, ∀ references current, ∃ tree t,
    (s.copyTracking (some x) (some references) current).outcome = .ok (tree, t)
  occurrences : ∀ x, ∃ n, s.occurrences (some x) = .ok n
  equal : ∀ x y, ∃ b, s.equal (some x) (some y) = .ok b
  matchTrees : ∀ x y comparator policy,
    (s.matchTrees (some x) (some y) (some comparator) policy).Blames comparator
  render : ∀ {x convert style lead e}, s.render (some x) convert style lead = .error e →
    ∃ y, s.Reaches x y ∧ convert (s.payload y) = .error e
  locate : ∀ {root target e}, (s.locate (some root) (some target)).outcome = .error e →
    ¬ s.Reaches root target ∧ e = .unreachable target root
  hash : ∀ {H : Type} {hashing : Hashing H} {x e}, s.hashWith hashing x = .error e →
    ∃ y, s.ReachesFirst x y ∧ (s.payload y).isScalar = false ∧
      e = .unhashable (s.payload y).typeName

theorem stepsFit (closed : s.Closed) (acyclic : s.Acyclic) : s.StepsFit where
  snapshot := lookup_of_leads closed
  hash := lookupHash_of_leads acyclic
  equal := equalVisit_ne_error
  matching := asked_of_matchVisit
  copy := attaches_of_leads closed
  retrace found := by
    obtain ⟨trail, leads, rfl⟩ := leadsTo_of_searchFrom (searchFrom_of_locate found)
    exact Ancestry.retrace_ofTrail leads

theorem faultsGiven (closed : s.Closed) (acyclic : s.Acyclic) : s.FaultsGiven where
  snapshot x hx := by
    cases kind : s.kind x with
    | frozen => exact ⟨x, s, by simp [Store.snapshot, kind]⟩
    | growable =>
      obtain ⟨t, rebuilt, -⟩ := rebuildFrozen_built closed acyclic hx
      exact ⟨_, t, by simpa [Store.snapshot, kind] using rebuilt⟩
  copyTree x hx := by
    obtain ⟨copying, run, -⟩ := copyTree_copiedTree closed acyclic hx
    exact ⟨_, _, by rw [run]⟩
  copyTracking x hx references current := by
    obtain ⟨copying, run, -⟩ := unfoldCopy_copiedTree closed acyclic hx
    let tree := copying.pairs.foldl (Copying.track references current) (.bare s.count)
    exact ⟨tree, copying.store, by simp only [Store.copyTracking, run, tree]⟩
  occurrences x := ⟨_, occurrences_eq acyclic x⟩
  equal x y := (equal_eq_ok acyclic x y).imp fun _ run => run.1
  matchTrees x y comparator policy := by
    rw [matchTrees_eq_matchBelow acyclic]
    exact matchBelow_blames acyclic x y
  render := exists_failing_of_render acyclic
  locate := unreachable_of_locate acyclic
  hash := exists_refused_of_hashWith acyclic

/-- On a closed store without cycles no operation fails for a reason of its own, neither at any
moment of its work nor in its outcome. -/
theorem inner_faults_never_show {s : Store} (closed : s.Closed) (acyclic : s.Acyclic) :
    s.StepsFit ∧ s.FaultsGiven :=
  ⟨stepsFit closed acyclic, faultsGiven closed acyclic⟩

def squeamish (s : Store) : Comparator := fun left _ =>
  if (s.payload left).isScalar then .ok true else .error (.refused "comparator" (s.payload left))

theorem inner_faults_never_show_unruly :
    unruly.Closed ∧ unruly.Acyclic ∧
    (∃ before fresh child store,
      Copying.attach 6 (unruly.copyStart 2) [] [⟨0, 0, 1⟩] = .ok (before, fresh) ∧
      before.store.newLike (some 0) = .ok (child, store) ∧
      store.kind 6 = .growable ∧ 1 < store.slotCount 6) ∧
    (∃ a, (unruly.locate (some 3) (some 0)).outcome = .ok a ∧ a.retrace unruly = .ok 0) ∧
    (∃ y t, unruly.snapshot 3 = .ok (y, t)) ∧
    unruly.fingerprint 3 = .error (.unhashable "list") ∧
    (∃ y, unruly.ReachesFirst 3 y ∧ (unruly.payload y).isScalar = false) ∧
    (unruly.matchTrees (some 2) (some 5) (some unruly.squeamish) .strict).outcome =
      .error (.refused "comparator" (.value (.array []))) ∧
    (∃ pair, (unruly.matchTrees (some 2) (some 5) (some unruly.squeamish) .strict).trace.back? =
      some pair ∧ unruly.squeamish pair.1 pair.2 =
        .error (.refused "comparator" (.value (.array [])))) ∧
    ¬ unruly.Reaches 2 3 := by
  have ⟨closed, acyclic⟩ := closed_acyclic_of_children_lt (s := unruly) (by decide)
  have refused : (unruly.matchTrees (some 2) (some 5) (some unruly.squeamish) .strict).outcome =
      .error (.refused "comparator" (.value (.array []))) := by cbv
  have unhashable : unruly.fingerprint 3 = .error (.unhashable "list") := by cbv
  have found : (unruly.locate (some 3) (some 0)).outcome = .ok ⟨0, [2, 3], [1, 0], [0, 0]⟩ := by cbv
  have missed : (unruly.locate (some 2) (some 3)).outcome = .error (.unreachable 3 2) := by cbv
  have edges : (unruly.copyStart 2).store.edges 2 = [⟨0, 0, 1⟩] ++ ⟨1, 0, 0⟩ :: [] := by decide
  have start : Worklist.Leads Copying.visit (unruly.copyStart 2) [⟨2, unruly.count⟩]
      (unruly.copyStart 2) [⟨2, 6⟩] := .refl _ _
  obtain ⟨fit, given⟩ := inner_faults_never_show closed acyclic
  have attached := fit.copy (by decide) start edges
  have snapshot := given.snapshot 3 (by decide)
  obtain ⟨y, reached, unlabelled, -⟩ := given.hash unhashable
  have asked := given.matchTrees 2 5 _ _ _ refused
  have path := fit.retrace found
  exact ⟨closed, acyclic, attached, ⟨_, found, path⟩, snapshot, unhashable,
    ⟨y, reached, unlabelled⟩, refused, asked, (given.locate missed).1⟩

end SlotTree.Store
