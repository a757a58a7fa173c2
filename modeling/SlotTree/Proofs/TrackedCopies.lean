import Mathlib.Data.Set.Card
import SlotTree.Proofs.Copies

/-!
Copies with references. A tracked source has one reference for each path to it, to the copy at that
path, and the references stand in the order in which the copies were made. The current reference is
the copy made last of its node.
-/

namespace SlotTree

namespace OrderedSet

variable {α : Type} [DecidableEq α]

theorem toList_insertAll (s : OrderedSet α) {xs : List α} (h : (s.toList ++ xs).Nodup) :
    (s.insertAll xs).toList = s.toList ++ xs := by
  induction xs generalizing s with
  | nil => rw [List.append_nil, insertAll, List.foldl_nil]
  | cons x xs ih =>
    have new : x ∉ s := by
      intro mem
      exact (List.nodup_append'.1 h).2.2 (mem_toList.2 mem) List.mem_cons_self
    have grown : (s.insert x).toList = s.toList ++ [x] := by rw [toList_insert, if_neg new]
    rw [insertAll, List.foldl_cons, ← insertAll, ih, grown, ← List.append_cons]
    rwa [grown, ← List.append_cons]

theorem toList_ofList {xs : List α} (h : xs.Nodup) : (ofList xs).toList = xs :=
  toList_insertAll empty h

end OrderedSet

namespace Copying

def referencesTo (tracked : References) (pairs : Array CopyPair) : References :=
  .ofList ((pairs.toList.filter fun pair => decide (some pair.source ∈ tracked)).map
    fun pair => some pair.copy)

def currentOf (current : Option NodeId) (pairs : Array CopyPair) : Option NodeId :=
  (pairs.toList.reverse.find? fun pair => current == some pair.source).map CopyPair.copy

variable {tracked : References} {current : Option NodeId}

theorem foldl_track (tree : TrackedTree) (pairs : List CopyPair) :
    pairs.foldl (track tracked current) tree =
      ⟨tree.root,
        tree.references.insertAll
          ((pairs.filter fun pair => decide (some pair.source ∈ tracked)).map
            fun pair => some pair.copy),
        ((pairs.reverse.find? fun pair => current == some pair.source).map CopyPair.copy).or
          tree.current⟩ := by
  induction pairs generalizing tree with
  | nil => rfl
  | cons pair pairs ih =>
    rw [List.foldl_cons, ih, List.reverse_cons, List.find?_append, Option.map_or]
    congr 1
    · by_cases tracks : some pair.source ∈ tracked
      · simp [track, tracks, OrderedSet.insertAll]
      · simp [track, tracks]
    · by_cases here : current = some pair.source
      · simp [track, here]
      · simp [track, here]

theorem foldl_track_bare (copy : NodeId) (pairs : Array CopyPair) :
    pairs.foldl (track tracked current) (.bare copy) =
      ⟨copy, referencesTo tracked pairs, currentOf current pairs⟩ := by
  rw [← Array.foldl_toList, foldl_track]
  simp [TrackedTree.bare, referencesTo, currentOf, OrderedSet.ofList]

end Copying

namespace Store

variable {s : Store} {x z : NodeId} {acyclic : s.Acyclic} {copying : Copying}

namespace CopiedTree

theorem references_eq (copied : s.CopiedTree acyclic x copying) (tracked : References) :
    (Copying.referencesTo tracked copying.pairs).toList =
      ((s.copyOrder acyclic x).filter fun p => decide (s.nodeAt x p ∈ tracked)).map
        (copying.store.nodeAt s.count) := by
  have nodup : ((copying.pairs.toList.filter fun pair =>
      decide (some pair.source ∈ tracked)).map fun pair => some pair.copy).Nodup := by
    have copies : (copying.pairs.toList.map fun pair => some pair.copy).Nodup := by
      have all := List.nodup_range' (s := s.count) (n := (s.copyOrder acyclic x).length) 1
      rw [← copied.copies] at all
      have somes := all.map (Option.some_injective NodeId)
      rwa [List.map_map] at somes
    exact copies.sublist (List.filter_sublist.map _)
  rw [Copying.referencesTo, OrderedSet.toList_ofList nodup]
  have ordered := congrArg (fun list => (list.filter fun q => decide (q.1 ∈ tracked)).map Prod.snd)
    copied.order
  simpa only [List.filter_map, List.map_map, Function.comp_def] using ordered

theorem current_eq (copied : s.CopiedTree acyclic x copying) (current : Option NodeId) :
    Copying.currentOf current copying.pairs =
      ((s.copyOrder acyclic x).reverse.find? fun p => current == s.nodeAt x p).bind
        (copying.store.nodeAt s.count) := by
  have ordered := congrArg (fun list => (list.reverse.find? fun q => current == q.1).bind Prod.snd)
    copied.order
  simp only [← List.map_reverse, List.find?_map, Function.comp_def, Option.bind_map] at ordered
  rw [Copying.currentOf, Option.map_eq_bind]
  exact ordered

end CopiedTree

/-- How a copy of the tree of `x` in `s`, `tree` in `t`, carries references along. -/
structure CarriedIn (s : Store) (acyclic : s.Acyclic) (x : NodeId) (tracked : References)
    (current : Option NodeId) (t : Store) (tree : TrackedTree) : Prop where
  kept : s.KeptIn t
  same : s.SameTree t x tree.root
  member : ∀ p y d, s.nodeAt x p = some y → t.nodeAt tree.root p = some d →
    (some d ∈ tree.references ↔ some y ∈ tracked)
  one_per_path : tree.references.size =
    {p : Path | ∃ y, s.nodeAt x p = some y ∧ some y ∈ tracked}.ncard
  order : tree.references.toList =
    ((s.copyOrder acyclic x).filter fun p => decide (s.nodeAt x p ∈ tracked)).map
      (t.nodeAt tree.root)
  each_path_once : (s.copyOrder acyclic x).Nodup ∧
    ∀ p, p ∈ s.copyOrder acyclic x ↔ (s.nodeAt x p).isSome
  current_none : tree.current = none ↔ ∀ y, current = some y → ¬ s.Reaches x y
  /-- Of all paths to the current node, the one that comes up last counts. -/
  current_last : ∀ y, current = some y → s.Reaches x y → ∃ earlier p later d,
    s.copyOrder acyclic x = earlier ++ p :: later ∧ s.nodeAt x p = some y ∧
    (∀ q ∈ later, s.nodeAt x q ≠ some y) ∧ t.nodeAt tree.root p = some d ∧ tree.current = some d

namespace CopiedTree

theorem mem_references_iff (copied : s.CopiedTree acyclic x copying) (tracked : References)
    {p : Path} {y d : NodeId} (hy : s.nodeAt x p = some y)
    (hd : copying.store.nodeAt s.count p = some d) :
    some d ∈ Copying.referencesTo tracked copying.pairs ↔ some y ∈ tracked := by
  rw [← OrderedSet.mem_toList, copied.references_eq, List.mem_map]
  refine ⟨fun h => ?_, fun h => ?_⟩
  · obtain ⟨q, mem, hq⟩ := h
    have tracks := of_decide_eq_true (List.mem_filter.1 mem).2
    rwa [copied.path_unique hq hd, hy] at tracks
  · refine ⟨p, List.mem_filter.2 ⟨?_, ?_⟩, hd⟩
    · rw [mem_copyOrder, hy]
      rfl
    · rw [hy]
      exact decide_eq_true h

theorem size_references (copied : s.CopiedTree acyclic x copying) (tracked : References) :
    (Copying.referencesTo tracked copying.pairs).size =
      {p : Path | ∃ y, s.nodeAt x p = some y ∧ some y ∈ tracked}.ncard := by
  let paths := (s.copyOrder acyclic x).filter fun p => decide (s.nodeAt x p ∈ tracked)
  have nodup : paths.Nodup := (copyOrder_nodup acyclic x).filter _
  have members : {p : Path | ∃ y, s.nodeAt x p = some y ∧ some y ∈ tracked} =
      (paths.toFinset : Set Path) := by
    ext p
    simp only [Set.mem_ofPred_eq, List.coe_toFinset, paths, List.mem_filter, mem_copyOrder,
      decide_eq_true_eq]
    cases s.nodeAt x p <;> simp
  rw [members, Set.ncard_coe_finset, List.toFinset_card_of_nodup nodup, OrderedSet.size,
    copied.references_eq, List.length_map]

theorem exists_last_path {y : NodeId} (reached : s.Reaches x y) : ∃ earlier p later,
    s.copyOrder acyclic x = earlier ++ p :: later ∧ s.nodeAt x p = some y ∧
    (∀ q ∈ later, s.nodeAt x q ≠ some y) ∧
    (s.copyOrder acyclic x).reverse.find? (fun p => some y == s.nodeAt x p) = some p := by
  obtain ⟨p₀, at_end⟩ := reaches_iff_nodeAt.1 reached
  have mem : p₀ ∈ (s.copyOrder acyclic x).reverse := by
    rw [List.mem_reverse, mem_copyOrder, at_end]
    rfl
  have found : ((s.copyOrder acyclic x).reverse.find? fun p => some y == s.nodeAt x p).isSome := by
    rw [List.find?_isSome]
    exact ⟨p₀, mem, by rw [at_end, beq_self_eq_true]⟩
  obtain ⟨p, hp⟩ := Option.isSome_iff_exists.1 found
  obtain ⟨here, later, earlier, split, others⟩ := List.find?_eq_some_iff_append.1 hp
  refine ⟨earlier.reverse, p, later.reverse, ?_, (beq_iff_eq.1 here).symm, ?_, hp⟩
  · rw [← List.reverse_reverse (s.copyOrder acyclic x), split]
    simp
  · intro q hq eq
    have other := others q (List.mem_reverse.1 hq)
    simp [eq] at other

theorem current_some (copied : s.CopiedTree acyclic x copying) {y : NodeId}
    (reached : s.Reaches x y) : ∃ earlier p later d,
    s.copyOrder acyclic x = earlier ++ p :: later ∧ s.nodeAt x p = some y ∧
    (∀ q ∈ later, s.nodeAt x q ≠ some y) ∧ copying.store.nodeAt s.count p = some d ∧
    Copying.currentOf (some y) copying.pairs = some d := by
  obtain ⟨earlier, p, later, split, at_end, others, found⟩ := exists_last_path reached
  have ends := copied.simulation.nodeAt copied.root_mem p
  rw [at_end] at ends
  obtain ⟨d, hd, -⟩ := exists_right_of_rel ends
  refine ⟨earlier, p, later, d, split, at_end, others, hd, ?_⟩
  rw [copied.current_eq, found, Option.bind_some, hd]

theorem current_eq_none (copied : s.CopiedTree acyclic x copying) {current : Option NodeId}
    (absent : ∀ y, current = some y → ¬ s.Reaches x y) :
    Copying.currentOf current copying.pairs = none := by
  have missed : ((s.copyOrder acyclic x).reverse.find? fun p => current == s.nodeAt x p) =
      none := by
    rw [List.find?_eq_none]
    intro p hp
    rw [List.mem_reverse, mem_copyOrder] at hp
    obtain ⟨y, hy⟩ := Option.isSome_iff_exists.1 hp
    rw [hy, beq_iff_eq]
    intro eq
    exact absent y eq (reaches_iff_nodeAt.2 ⟨p, hy⟩)
  rw [copied.current_eq, missed, Option.bind_none]

theorem carriedIn (copied : s.CopiedTree acyclic x copying) (tracked : References)
    (current : Option NodeId) :
    s.CarriedIn acyclic x tracked current copying.store
      ⟨s.count, Copying.referencesTo tracked copying.pairs,
        Copying.currentOf current copying.pairs⟩ where
  kept := copied.kept
  same := copied.sameTree
  member p y d hy hd := copied.mem_references_iff tracked hy hd
  one_per_path := copied.size_references tracked
  order := copied.references_eq tracked
  each_path_once := ⟨copyOrder_nodup acyclic x, fun p => mem_copyOrder acyclic⟩
  current_none := by
    refine ⟨fun none y eq reached => ?_, copied.current_eq_none⟩
    obtain ⟨_, _, _, d, -, -, -, -, found⟩ := copied.current_some reached
    rw [eq, found] at none
    cases none
  current_last y eq reached := by
    rw [eq]
    exact copied.current_some reached

end CopiedTree

/-- A copy with references succeeds, and carries exactly the tracked places along. -/
theorem copyTracking_carries {s : Store} {x : NodeId} (closed : s.Closed) (acyclic : s.Acyclic)
    (hx : x < s.count) (tracked : References) (current : Option NodeId) :
    ∃ tree t n, s.occurrences (some x) = .ok n ∧
      s.copyTracking (some x) (some tracked) current =
        ⟨.ok (tree, t),
          [.copiedTracking n tree.references.size tracked.size tree.current.isSome]⟩ ∧
      s.CarriedIn acyclic x tracked current t tree := by
  obtain ⟨copying, run, copied⟩ := unfoldCopy_copiedTree closed acyclic hx
  refine ⟨_, copying.store, _, occurrences_eq acyclic x, ?_, copied.carriedIn tracked current⟩
  rw [← copied.size_pairs]
  simp only [copyTracking, run, Copying.foldl_track_bare]

theorem copyTracking_carries_trellis :
    ∃ acyclic : trellis.Acyclic, trellis.Closed ∧ 2 < trellis.count ∧
    ∃ tree t n, trellis.occurrences (some 2) = .ok n ∧
      trellis.copyTracking (some 2) (some (.ofList [some 3, some 0, some 1, some 0])) (some 0) =
        ⟨.ok (tree, t), [.copiedTracking n tree.references.size 3 tree.current.isSome]⟩ ∧
      trellis.CarriedIn acyclic 2 (.ofList [some 3, some 0, some 1, some 0]) (some 0) t tree := by
  obtain ⟨closed, acyclic⟩ := trellis_closed_acyclic
  have root : 2 < trellis.count := by decide
  exact ⟨acyclic, closed, root, copyTracking_carries closed acyclic root _ (some 0)⟩

end Store
end SlotTree
