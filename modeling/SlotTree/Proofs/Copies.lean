import SlotTree.Copy.Tracked
import SlotTree.Proofs.CopyLoop
import SlotTree.Proofs.Occurrences

/-!
Copies of whole trees. The pairs come up along `copyOrder` and their copies are the new nodes in
order, so a copy is a tree of its own in which no node stands twice.
-/

namespace SlotTree.Store

variable {s : Store} {x z : NodeId}

section Tree

variable (closed : s.Closed) (acyclic : s.Acyclic) (hx : x < s.count)

/-- A finished copy of the tree of `x`: the pairs come up along `copyOrder`, and their copies are
the new nodes in order, `s.count` being the copy of the root. -/
structure CopiedTree (s : Store) (acyclic : s.Acyclic) (x : NodeId) (copying : Copying) :
    Prop where
  kept : s.KeptIn copying.store
  count : copying.store.count = s.count + (s.copyOrder acyclic x).length
  copies : copying.pairs.toList.map CopyPair.copy =
    List.range' s.count (s.copyOrder acyclic x).length
  order : copying.pairs.toList.map (fun pair => (some pair.source, some pair.copy)) =
    (s.copyOrder acyclic x).map fun p => (s.nodeAt x p, copying.store.nodeAt s.count p)
  finished : ∀ pair ∈ copying.pairs.toList, s.Finished copying.store copying.pairs.toList pair

theorem Copied.copiedTree {before after : Copying} {made : List CopyPair}
    (store : before.store = (s.add (.blank (s.payload x) (s.slotCount x))).2)
    (root : before.pairs.toList = [⟨x, s.count⟩])
    (copied : s.Copied acyclic before [⟨x, s.count⟩] made after) :
    s.CopiedTree acyclic x after := by
  have start : before.store.count = s.count + 1 := by simp [store]
  have pairs : after.pairs.toList = ⟨x, s.count⟩ :: made := by rw [copied.pairs, root]; rfl
  have order : after.pairs.toList.map (fun pair => (some pair.source, some pair.copy)) =
      (s.copyOrder acyclic x).map fun p => (s.nodeAt x p, after.store.nodeAt s.count p) := by
    rw [pairs, List.map_cons, copied.order, List.flatMap_singleton, copyOrder, List.map_cons]
    rfl
  have size : (s.copyOrder acyclic x).length = made.length + 1 := by
    have lengths := congrArg List.length order
    rw [List.length_map, List.length_map, pairs, List.length_cons] at lengths
    exact lengths.symm
  refine ⟨?kept, ?count, ?copies, ?order, ?finished⟩
  case kept =>
    have total := copied.count
    refine ⟨by omega, ?_⟩
    intro z hz
    have old : z < before.store.count := by rw [start]; exact Nat.lt_succ_of_lt hz
    rw [copied.node_eq old (Nat.ne_of_lt hz), store, node_add_of_lt hz]
  case count =>
    rw [copied.count, start, size]
    omega
  case copies => rw [pairs, List.map_cons, copied.copies, start, size, List.range'_succ]
  case order => exact order
  case finished =>
    intro pair h
    rw [pairs] at h ⊢
    exact (copied.finished pair h).mono rfl (List.subset_cons_self _ _)

include closed hx in
theorem unfoldCopy_copiedTree :
    ∃ copying, s.unfoldCopy x = .ok (s.count, copying) ∧ s.CopiedTree acyclic x copying := by
  have loop : s.Copies acyclic ⟨x, s.count⟩ := copies closed x s.count
  obtain ⟨made, after, ends, copied⟩ := loop (s.copyStart x) (waiting_root hx)
  have walked := ends.walk .ok (sourceRank_root_le s x)
  refine ⟨after, ?_, copied.copiedTree acyclic rfl rfl⟩
  rw [unfoldCopy_eq, walked]
  rfl

namespace CopiedTree

variable {acyclic : s.Acyclic} {copying : Copying}

theorem simulation (copied : s.CopiedTree acyclic x copying) :
    Simulation s copying.store fun y d => ⟨y, d⟩ ∈ copying.pairs.toList where
  outline h := (copied.finished _ h).outline
  child h _ _ _ _ ha hb := (copied.finished _ h).child _ _ _ _ ha hb

theorem size_pairs (copied : s.CopiedTree acyclic x copying) :
    copying.pairs.size = (s.copyOrder acyclic x).length := by
  have lengths := congrArg List.length copied.order
  rwa [List.length_map, List.length_map, Array.length_toList] at lengths

theorem root_mem (copied : s.CopiedTree acyclic x copying) :
    ⟨x, s.count⟩ ∈ copying.pairs.toList := by
  have first : (some x, some s.count) ∈
      copying.pairs.toList.map fun pair => (some pair.source, some pair.copy) := by
    rw [copied.order]
    exact List.mem_map_of_mem (f := fun p => (s.nodeAt x p, copying.store.nodeAt s.count p))
      (List.mem_cons_self (a := []))
  obtain ⟨⟨source, copy⟩, mem, eq⟩ := List.mem_map.1 first
  cases eq
  exact mem

theorem sameTree (copied : s.CopiedTree acyclic x copying) :
    s.SameTree copying.store x s.count :=
  copied.simulation.sameTree copied.root_mem

theorem new_of_reaches (copied : s.CopiedTree acyclic x copying)
    (h : copying.store.Reaches s.count z) :
    copying.store.kind z = .growable ∧ s.count ≤ z ∧ z < copying.store.count := by
  obtain ⟨y, -, mem⟩ := copied.simulation.reaches copied.root_mem h
  have place := List.mem_map_of_mem (f := CopyPair.copy) mem
  rw [copied.copies, List.mem_range'_1, ← copied.count] at place
  exact ⟨(copied.finished _ mem).growable, place⟩

theorem mem_copyOrder_of_nodeAt (copied : s.CopiedTree acyclic x copying) {p : Path}
    (h : copying.store.nodeAt s.count p = some z) : p ∈ s.copyOrder acyclic x := by
  have ends := copied.simulation.nodeAt copied.root_mem p
  rw [h] at ends
  rw [mem_copyOrder, isSome_eq_of_rel ends]
  rfl

theorem path_unique (copied : s.CopiedTree acyclic x copying) {p q : Path}
    (hp : copying.store.nodeAt s.count p = some z)
    (hq : copying.store.nodeAt s.count q = some z) : p = q := by
  have places : ((s.copyOrder acyclic x).map (copying.store.nodeAt s.count)).Nodup := by
    have seconds := congrArg (List.map Prod.snd) copied.order
    rw [List.map_map, List.map_map] at seconds
    have same : (s.copyOrder acyclic x).map (copying.store.nodeAt s.count) =
        (copying.pairs.toList.map CopyPair.copy).map some := by
      rw [List.map_map]
      exact seconds.symm
    rw [same, copied.copies]
    exact (List.nodup_range' 1).map (Option.some_injective NodeId)
  exact List.inj_on_of_nodup_map places (copied.mem_copyOrder_of_nodeAt hp)
    (copied.mem_copyOrder_of_nodeAt hq) (hp.trans hq.symm)

end CopiedTree

include closed hx in
theorem copyTree_copiedTree :
    ∃ copying, s.copyTree (some x) =
        ⟨.ok (s.count, copying.store), [.copied (s.copyOrder acyclic x).length]⟩ ∧
      s.CopiedTree acyclic x copying := by
  obtain ⟨copying, run, copied⟩ := unfoldCopy_copiedTree closed acyclic hx
  refine ⟨copying, ?_, copied⟩
  rw [← copied.size_pairs]
  simp [copyTree, Fault.given, bind, Except.bind, run]

/-- A copy leaves every node as it was, and is a tree of its own: of the same outline as its
source, made of as many new growable nodes as the source has places, none of them in two places. -/
theorem copyTree_faithful {s : Store} {x : NodeId} (closed : s.Closed) (acyclic : s.Acyclic)
    (hx : x < s.count) :
    ∃ c t n, s.occurrences (some x) = .ok n ∧
      s.copyTree (some x) = ⟨.ok (c, t), [.copied n]⟩ ∧
      t.count = s.count + n ∧ (∀ y < s.count, t.node y = s.node y) ∧ s.SameTree t x c ∧
      (∀ z, t.Reaches c z →
        t.kind z = .growable ∧ s.count ≤ z ∧ z < t.count ∧ ¬ t.Reaches x z) ∧
      ∀ p q z, t.nodeAt c p = some z → t.nodeAt c q = some z → p = q := by
  obtain ⟨copying, run, copied⟩ := unfoldCopy_copiedTree closed acyclic hx
  refine ⟨s.count, copying.store, _, occurrences_eq acyclic x, ?_, copied.count,
    copied.kept.node_eq, copied.sameTree, ?_, fun p q z => copied.path_unique⟩
  · rw [← copied.size_pairs]
    simp [copyTree, Fault.given, bind, Except.bind, run]
  · intro z hz
    obtain ⟨growable, new, within⟩ := copied.new_of_reaches hz
    exact ⟨growable, new, within, copied.kept.not_reaches_new closed hx new⟩

theorem copyTree_faithful_trellis :
    trellis.Closed ∧ trellis.Acyclic ∧ 2 < trellis.count ∧
    ∃ c t n, trellis.occurrences (some 2) = .ok n ∧
      trellis.copyTree (some 2) = ⟨.ok (c, t), [.copied n]⟩ ∧
      t.count = trellis.count + n ∧ (∀ y < trellis.count, t.node y = trellis.node y) ∧
      trellis.SameTree t 2 c ∧
      (∀ z, t.Reaches c z →
        t.kind z = .growable ∧ trellis.count ≤ z ∧ z < t.count ∧ ¬ t.Reaches 2 z) ∧
      ∀ p q z, t.nodeAt c p = some z → t.nodeAt c q = some z → p = q := by
  obtain ⟨closed, acyclic⟩ := trellis_closed_acyclic
  have root : 2 < trellis.count := by decide
  exact ⟨closed, acyclic, root, copyTree_faithful closed acyclic root⟩

end Tree

end SlotTree.Store
