import SlotTree.Proofs.Attaching
import SlotTree.Proofs.Endings

/-!
The loop of a copy. A pair on the stack has a blank copy; working it off finishes that copy and
every copy made below it, touches no other node that is already there, and numbers the new nodes in
the order in which they come up. So what a pair does is the same whatever waits behind it.
-/

namespace SlotTree.Store

variable {s t u : Store} {x y z : NodeId}

structure Finished (s t : Store) (pairs : List CopyPair) (pair : CopyPair) : Prop where
  growable : t.kind pair.copy = .growable
  outline : s.SameOutline t pair.source pair.copy
  child : ∀ slot index a b, s.childAt pair.source slot index = some a →
    t.childAt pair.copy slot index = some b → ⟨a, b⟩ ∈ pairs

theorem Finished.mono {pairs more : List CopyPair} {pair : CopyPair}
    (finished : s.Finished t pairs pair) (same : u.node pair.copy = t.node pair.copy)
    (sub : pairs ⊆ more) : s.Finished u more pair where
  growable := by rw [kind, same, ← kind, finished.growable]
  outline := by
    refine ⟨?_, ?_⟩
    · rw [payload, payload, same]
      exact finished.outline.1
    · rw [childCounts, childCounts, same]
      exact finished.outline.2
  child slot index a b ha hb := by
    rw [childAt, Store.slot, same] at hb
    exact sub (finished.child slot index a b ha hb)

structure Waiting (s t : Store) (tasks : List CopyPair) : Prop where
  kept : s.KeptIn t
  source : ∀ task ∈ tasks, task.source < s.count
  new : ∀ task ∈ tasks, s.count ≤ task.copy ∧ task.copy < t.count
  blank : ∀ task ∈ tasks,
    t.node task.copy = .blank (s.payload task.source) (s.slotCount task.source)
  distinct : tasks.Pairwise fun a b => a.copy ≠ b.copy

/-- What working `tasks` off brings about: the pairs `made`, numbered on from `before`. -/
structure Copied (s : Store) (acyclic : s.Acyclic) (before : Copying)
    (tasks made : List CopyPair) (after : Copying) : Prop where
  pairs : after.pairs.toList = before.pairs.toList ++ made
  copies : made.map CopyPair.copy = List.range' before.store.count made.length
  count : after.store.count = before.store.count + made.length
  grown : before.store.Extends after.store
  others : ∀ z < before.store.count, (∀ task ∈ tasks, z ≠ task.copy) →
    after.store.node z = before.store.node z
  finished : ∀ pair ∈ tasks ++ made, s.Finished after.store made pair
  order : made.map (fun pair => (some pair.source, some pair.copy)) =
    tasks.flatMap fun task => (s.walkBelow acyclic task.source).map fun p =>
      (s.nodeAt task.source p, after.store.nodeAt task.copy p)

namespace Copied

variable {acyclic : s.Acyclic} {before middle after : Copying}
  {tasks made further : List CopyPair} {task pair : CopyPair}

theorem nil (s : Store) (acyclic : s.Acyclic) (before : Copying) :
    s.Copied acyclic before [] [] before where
  pairs := by rw [List.append_nil]
  copies := rfl
  count := rfl
  grown := .refl _
  others _ _ _ := rfl
  finished _ h := absurd h List.not_mem_nil
  order := rfl

theorem copy_of_made (copied : s.Copied acyclic before tasks made after) (h : pair ∈ made) :
    before.store.count ≤ pair.copy ∧ pair.copy < after.store.count := by
  have mem : pair.copy ∈ made.map CopyPair.copy := List.mem_map_of_mem h
  rw [copied.copies, List.mem_range'_1, ← copied.count] at mem
  exact mem

theorem node_eq (copied : s.Copied acyclic before [task] made after)
    (hz : z < before.store.count) (ne : z ≠ task.copy) :
    after.store.node z = before.store.node z := by
  apply copied.others z hz
  intro t ht
  rwa [List.mem_singleton.1 ht]

theorem node_eq_behind (first : s.Copied acyclic before [task] made middle)
    (rest : s.Copied acyclic middle tasks further after)
    (new : ∀ t ∈ task :: tasks, t.copy < before.store.count)
    (distinct : ∀ t ∈ tasks, task.copy ≠ t.copy) (h : pair ∈ [task] ++ made) :
    after.store.node pair.copy = middle.store.node pair.copy := by
  have le := first.grown.count_le
  obtain eq | mem := List.mem_cons.1 h
  · rw [eq]
    exact rest.others _ (Nat.lt_of_lt_of_le (new task List.mem_cons_self) le) distinct
  · have range := first.copy_of_made mem
    refine rest.others _ range.2 fun t ht => ?_
    have earlier : t.copy < before.store.count := new t (List.mem_cons_of_mem task ht)
    exact Nat.ne_of_gt (Nat.lt_of_lt_of_le earlier range.1)

theorem order_of_extends (copied : s.Copied acyclic before [task] made middle)
    (grown : middle.store.Extends t) :
    made.map (fun pair => (some pair.source, some pair.copy)) =
      (s.walkBelow acyclic task.source).map fun p =>
        (s.nodeAt task.source p, t.nodeAt task.copy p) := by
  have done := copied.order
  rw [List.flatMap_singleton] at done
  rw [done]
  refine List.map_congr_left fun p hp => ?_
  have mem := List.mem_map_of_mem (f := fun p =>
    (s.nodeAt task.source p, middle.store.nodeAt task.copy p)) hp
  rw [← done] at mem
  obtain ⟨pair, -, eq⟩ := List.mem_map.1 mem
  rw [← (Prod.mk.inj eq).2, grown.nodeAt (Prod.mk.inj eq).2.symm]

theorem cons (first : s.Copied acyclic before [task] made middle)
    (rest : s.Copied acyclic middle tasks further after)
    (new : ∀ t ∈ task :: tasks, t.copy < before.store.count)
    (distinct : ∀ t ∈ tasks, task.copy ≠ t.copy) :
    s.Copied acyclic before (task :: tasks) (made ++ further) after where
  pairs := by rw [rest.pairs, first.pairs, List.append_assoc]
  copies := by
    rw [List.map_append, first.copies, rest.copies, first.count, List.length_append,
      List.range'_append_1]
  count := by rw [rest.count, first.count, List.length_append, Nat.add_assoc]
  grown := first.grown.trans rest.grown
  others z hz ne := by
    rw [rest.others z (Nat.lt_of_lt_of_le hz first.grown.count_le)
      fun t ht => ne t (List.mem_cons_of_mem _ ht), first.node_eq hz (ne task List.mem_cons_self)]
  finished pair hpair := by
    have split : pair ∈ [task] ++ made ∨ pair ∈ tasks ++ further := by
      simp only [List.cons_append, List.nil_append, List.mem_cons, List.mem_append] at hpair ⊢
      tauto
    obtain early | late := split
    · have same := first.node_eq_behind rest new distinct early
      exact (first.finished pair early).mono same (List.subset_append_left made further)
    · exact (rest.finished pair late).mono rfl (List.subset_append_right made further)
  order := by
    rw [List.map_append, first.order_of_extends rest.grown, rest.order, List.flatMap_cons]

end Copied
section Visit

variable {acyclic : s.Acyclic} {before : Copying} {tasks made : List CopyPair} {c : NodeId}

theorem Waiting.fits (closed : s.Closed) (waiting : s.Waiting t [⟨x, c⟩]) :
    t.kind c = .growable ∧ ∀ e ∈ s.edges x, e.slot < t.slotCount c ∧ e.child < t.count := by
  have blank : t.node c = .blank (s.payload x) (s.slotCount x) :=
    waiting.blank _ List.mem_cons_self
  refine ⟨by rw [kind, blank]; rfl, fun e he => ⟨?_, ?_⟩⟩
  · rw [slotCount, blank, Node.slotCount_blank]
    by_contra outside
    have at_child := childAt_of_mem_edges he
    rw [childAt, Store.slot, Node.slot_of_le (Nat.le_of_not_lt outside)] at at_child
    simp at at_child
  · exact Nat.lt_of_lt_of_le (closed x _ (child_of_mem_edges he)) waiting.kept.count_le

theorem visit_eq_next (closed : s.Closed) (waiting : s.Waiting before.store [⟨x, c⟩]) :
    ∃ store, before.store.Attached c (s.edges x) store ∧
      before.visit ⟨x, c⟩ =
        .next ⟨store, before.pairs ++ (newPairs before.store.count (s.edges x)).toArray⟩
          (newPairs before.store.count (s.edges x)).reverse := by
  have hx : x < s.count := waiting.source _ List.mem_cons_self
  have hc := (waiting.new _ List.mem_cons_self).2
  obtain ⟨growable, fit⟩ := waiting.fits closed
  obtain ⟨store, attached, run⟩ := attach_eq_ok hc growable fit before.pairs []
  refine ⟨store, attached, ?_⟩
  rw [List.append_nil] at run
  rw [Copying.visit]
  simp only [waiting.kept.edges hx, run]

theorem Waiting.first {task : CopyPair} (waiting : s.Waiting t (task :: tasks)) :
    s.Waiting t [task] := by
  have only {pair : CopyPair} (h : pair ∈ [task]) : pair ∈ task :: tasks :=
    List.mem_singleton.1 h ▸ List.mem_cons_self
  exact ⟨waiting.kept, fun pair h => waiting.source pair (only h),
    fun pair h => waiting.new pair (only h), fun pair h => waiting.blank pair (only h),
    List.pairwise_singleton _ _⟩

theorem Waiting.behind {task : CopyPair} (waiting : s.Waiting t (task :: tasks))
    (count_le : t.count ≤ u.count)
    (same : ∀ z < t.count, z ≠ task.copy → u.node z = t.node z) : s.Waiting u tasks := by
  have others := List.pairwise_cons.1 waiting.distinct
  have kept := waiting.kept
  have above : s.count ≤ task.copy := (waiting.new task List.mem_cons_self).1
  have later {pair : CopyPair} (h : pair ∈ tasks) : pair ∈ task :: tasks :=
    List.mem_cons_of_mem task h
  refine ⟨?kept, ?source, ?new, ?blank, ?distinct⟩
  case kept =>
    refine ⟨Nat.le_trans kept.count_le count_le, ?_⟩
    intro z hz
    have ne : z ≠ task.copy := Nat.ne_of_lt (Nat.lt_of_lt_of_le hz above)
    rw [same z (Nat.lt_of_lt_of_le hz kept.count_le) ne, kept.node_eq z hz]
  case source =>
    intro pair h
    exact waiting.source pair (later h)
  case new =>
    intro pair h
    have new := waiting.new pair (later h)
    exact ⟨new.1, Nat.lt_of_lt_of_le new.2 count_le⟩
  case blank =>
    intro pair h
    have new := waiting.new pair (later h)
    rw [same _ new.2 (others.1 pair h).symm, waiting.blank pair (later h)]
  case distinct => exact others.2

theorem Waiting.append {more : List CopyPair} (waiting : s.Waiting t tasks)
    (further : s.Waiting t more) (apart : ∀ a ∈ tasks, ∀ b ∈ more, a.copy ≠ b.copy) :
    s.Waiting t (tasks ++ more) where
  kept := waiting.kept
  source := List.forall_mem_append.2 ⟨waiting.source, further.source⟩
  new := List.forall_mem_append.2 ⟨waiting.new, further.new⟩
  blank := List.forall_mem_append.2 ⟨waiting.blank, further.blank⟩
  distinct := List.pairwise_append.2 ⟨waiting.distinct, further.distinct, apart⟩

theorem Waiting.below (closed : s.Closed) (waiting : s.Waiting before.store [⟨x, c⟩])
    (attached : before.store.Attached c (s.edges x) t) :
    s.Waiting t (newPairs before.store.count (s.edges x)).reverse := by
  have above := (waiting.new _ List.mem_cons_self).1
  have kept := waiting.kept
  have made {pair : CopyPair} (h : pair ∈ (newPairs before.store.count (s.edges x)).reverse) :
      ∃ e ∈ s.edges x, (e, pair.copy) ∈ (s.edges x).zipIdx before.store.count ∧
        pair.source = e.child := by
    obtain ⟨e, mem, eq⟩ := mem_newPairs_iff.1 (List.mem_reverse.1 h)
    exact ⟨e, List.fst_mem_of_mem_zipIdx mem, mem, eq⟩
  refine ⟨?kept, ?source, ?new, ?blank, ?distinct⟩
  case kept =>
    refine ⟨Nat.le_trans kept.count_le attached.grown.count_le, ?_⟩
    intro z hz
    rw [attached.others z (Nat.lt_of_lt_of_le hz kept.count_le)
      (Nat.ne_of_lt (Nat.lt_of_lt_of_le hz above)), kept.node_eq z hz]
  case source =>
    intro pair h
    obtain ⟨e, he, -, eq⟩ := made h
    rw [eq]
    exact closed x _ (child_of_mem_edges he)
  case new =>
    intro pair h
    have bounds := copy_of_mem_newPairs (List.mem_reverse.1 h)
    rw [← attached.count] at bounds
    exact ⟨Nat.le_trans kept.count_le bounds.1, bounds.2⟩
  case blank =>
    intro pair h
    obtain ⟨e, he, mem, eq⟩ := made h
    have child := closed x _ (child_of_mem_edges he)
    rw [attached.fresh e _ mem, kept.toExtends.payload_eq _ child,
      kept.toExtends.slotCount_eq _ child, eq]
  case distinct =>
    have nodup := List.nodup_range' (s := before.store.count) (n := (s.edges x).length) 1
    rw [← newPairs_copies] at nodup
    exact List.pairwise_reverse.2 ((List.pairwise_map.1 nodup).imp Ne.symm)

theorem Copied.visit {middle after : Copying} (waiting : s.Waiting before.store [⟨x, c⟩])
    (attached : before.store.Attached c (s.edges x) middle.store)
    (pairs : middle.pairs =
      before.pairs ++ (newPairs before.store.count (s.edges x)).toArray)
    (below : s.Copied acyclic middle (newPairs before.store.count (s.edges x)).reverse made
      after) :
    s.Copied acyclic before [⟨x, c⟩] (newPairs before.store.count (s.edges x) ++ made) after := by
  have hc := (waiting.new _ List.mem_cons_self).2
  have blank := waiting.blank _ List.mem_cons_self
  -- what waits now are new copies, so no node from before the visit changes again
  have untouched (z : NodeId) (hz : z < before.store.count) :
      after.store.node z = middle.store.node z := by
    apply below.others z (Nat.lt_of_lt_of_le hz attached.grown.count_le)
    intro task h
    have new := (copy_of_mem_newPairs (List.mem_reverse.1 h)).1
    exact Nat.ne_of_lt (Nat.lt_of_lt_of_le hz new)
  have sub := List.subset_append_right (newPairs before.store.count (s.edges x)) made
  refine ⟨?pairs, ?copies, ?count, ?grown, ?others, ?finished, ?order⟩
  case pairs => rw [below.pairs, pairs, Array.toList_append, List.append_assoc]
  case copies =>
    rw [List.map_append, newPairs_copies, below.copies, attached.count, List.length_append,
      length_newPairs, List.range'_append_1]
  case count => simp [below.count, attached.count, Nat.add_assoc]
  case grown => exact attached.grown.trans below.grown
  case others =>
    intro z hz ne
    rw [untouched z hz, attached.others z hz (ne _ List.mem_cons_self)]
  case finished =>
    intro pair h
    obtain rfl | h := List.mem_cons.1 h
    · have finished : s.Finished middle.store (newPairs before.store.count (s.edges x)) ⟨x, c⟩ := by
        refine ⟨?_, attached.outline blank hc, ?_⟩
        · rw [attached.grown.kind_eq c hc, kind, blank]
          rfl
        · intro slot index a b ha hb
          exact attached.mem_newPairs blank hc ha hb
      exact finished.mono (untouched c hc) (List.subset_append_left _ _)
    · refine (below.finished pair ?_).mono rfl sub
      simpa using h
  case order =>
    rw [List.map_append, attached.newPairs_ends blank hc below.grown, below.order,
      attached.newPairs_below blank hc below.grown, List.flatMap_singleton, walkBelow_eq,
      List.map_append, List.map_map, List.map_flatMap]
    simp only [List.map_map]
    rfl

end Visit

section Start

def copyStart (s : Store) (x : NodeId) : Copying :=
  ⟨(s.add (.blank (s.payload x) (s.slotCount x))).2, #[⟨x, s.count⟩]⟩

theorem unfoldCopy_eq (s : Store) (x : NodeId) :
    s.unfoldCopy x =
      finished (Worklist.walk Copying.visit .ok (s.copyStart x).store.depthBound (s.copyStart x)
        ⟨x, s.count⟩) >>= fun copying => .ok (s.count, copying) := by
  rw [unfoldCopy, newLike_some]
  rfl

theorem waiting_root (hx : x < s.count) : s.Waiting (s.copyStart x).store [⟨x, s.count⟩] := by
  refine ⟨.add s _, ?_, ?_, ?_, List.pairwise_singleton _ _⟩ <;> intro task h <;>
    rw [List.mem_singleton.1 h]
  · exact hx
  · simp [copyStart]
  · simp [copyStart]

end Start

section Loop

variable (acyclic : s.Acyclic)

noncomputable def sourceRank (s : Store) (pair : CopyPair) : Nat := s.rank pair.source

theorem sourceRank_root_le (s : Store) (x : NodeId) :
    s.sourceRank ⟨x, s.count⟩ ≤ (s.copyStart x).store.depthBound := by
  have bound := s.rank_le_count x
  have start : (s.copyStart x).store.count = s.count + 1 := by simp [copyStart]
  show s.rank x ≤ (s.copyStart x).store.count + 1
  omega

def Copies (s : Store) (acyclic : s.Acyclic) (task : CopyPair) : Prop :=
  ∀ before : Copying, s.Waiting before.store [task] → ∃ made after,
    Worklist.Ends Copying.visit s.sourceRank before [task] (.left after) ∧
    s.Copied acyclic before [task] made after

variable {acyclic : s.Acyclic}

theorem copies_list {tasks : List CopyPair} (each : ∀ task ∈ tasks, s.Copies acyclic task)
    {before : Copying} (waiting : s.Waiting before.store tasks) : ∃ made after,
    Worklist.Ends Copying.visit s.sourceRank before tasks (.left after) ∧
    s.Copied acyclic before tasks made after := by
  induction tasks generalizing before with
  | nil => exact ⟨[], before, .nil before, .nil s acyclic before⟩
  | cons task tasks ih =>
    obtain ⟨made, middle, ends, first⟩ := each task List.mem_cons_self before waiting.first
    have later : s.Waiting middle.store tasks :=
      waiting.behind first.grown.count_le fun z hz ne => first.node_eq hz ne
    obtain ⟨further, after, ends', rest⟩ := ih (fun t h => each t (List.mem_cons_of_mem _ h)) later
    have distinct := (List.pairwise_cons.1 waiting.distinct).1
    refine ⟨made ++ further, after, ends.append ends', ?_⟩
    exact first.cons rest (fun t h => (waiting.new t h).2) distinct

theorem copies (closed : s.Closed) (x c : NodeId) : s.Copies acyclic ⟨x, c⟩ := by
  induction x using acyclic.induction generalizing c with
  | step x ih =>
    intro before waiting
    obtain ⟨store, attached, visited⟩ := visit_eq_next closed waiting
    have child {task : CopyPair}
        (h : task ∈ (newPairs before.store.count (s.edges x)).reverse) :
        task.source ∈ s.children x := by
      obtain ⟨e, mem, eq⟩ := mem_newPairs_iff.1 (List.mem_reverse.1 h)
      rw [eq]
      exact child_of_mem_edges (List.fst_mem_of_mem_zipIdx mem)
    let middle : Copying :=
      ⟨store, before.pairs ++ (newPairs before.store.count (s.edges x)).toArray⟩
    have later : s.Waiting middle.store (newPairs before.store.count (s.edges x)).reverse :=
      waiting.below closed attached
    obtain ⟨made, after, ends, below⟩ :=
      copies_list (fun task h => ih task.source (child h) task.copy) later
    refine ⟨_, after, .next visited (fun task h => acyclic.rank_lt (child h)) ?_,
      .visit waiting attached rfl below⟩
    rwa [List.append_nil]

end Loop

end SlotTree.Store
