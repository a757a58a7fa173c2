import Mathlib.Data.Set.Card
import SlotTree.Proofs.Occurrences
import SlotTree.Proofs.PreOrder

/-!
The places of a tree, ordered and counted. From the top, slot by slot, they come in lexicographic
order of their paths, so that no path comes up twice. Their number is the size of the tree, and a
node comes up as often as there are paths to it, here as in the order that puts children first.
-/

namespace SlotTree

theorem Path.Before.ne {p q : Path} (h : p.Before q) : p ≠ q := by
  rintro rfl
  induction p with
  | nil => cases h
  | cons step p ih =>
    cases h with
    | cons h => exact ih h
    | rel h => exact h.ne rfl

namespace Store

variable {s : Store} (acyclic : s.Acyclic)

theorem places_ascending (x : NodeId) :
    ((s.places acyclic x).map Prod.fst).Pairwise Path.Before := by
  induction x using acyclic.induction with
  | step x ih =>
    have steps : (s.edges x).Pairwise fun a b => StepBefore a.step b.step :=
      List.pairwise_map.1 (s.node x).steps_ascending
    have through (e : Edge) : ((s.places acyclic e.child).map (Prod.map (e.step :: ·) id)).map
        Prod.fst = ((s.places acyclic e.child).map Prod.fst).map (e.step :: ·) := by
      rw [List.map_map, List.map_map]
      rfl
    rw [places_eq, List.map_cons, List.map_flatMap, List.pairwise_cons, List.pairwise_flatMap]
    simp only [through]
    refine ⟨fun p hp => ?_, fun e he => ?_, steps.imp fun {a b} lower p hp q hq => ?_⟩
    · obtain ⟨e, -, below⟩ := List.mem_flatMap.1 hp
      obtain ⟨q, -, rfl⟩ := List.mem_map.1 below
      exact .nil
    · exact List.pairwise_map.2 ((ih e.child (child_of_mem_edges he)).imp .cons)
    · obtain ⟨p', -, rfl⟩ := List.mem_map.1 hp
      obtain ⟨q', -, rfl⟩ := List.mem_map.1 hq
      exact .rel lower

theorem paths_nodup (x : NodeId) : ((s.places acyclic x).map Prod.fst).Nodup :=
  (places_ascending acyclic x).imp Path.Before.ne

theorem mem_paths {x : NodeId} {p : Path} :
    p ∈ (s.places acyclic x).map Prod.fst ↔ (s.nodeAt x p).isSome := by
  rw [List.mem_map, Option.isSome_iff_exists]
  refine ⟨fun ⟨place, mem, eq⟩ => ?_, fun ⟨y, at_end⟩ => ?_⟩
  · exact ⟨place.2, eq ▸ (mem_places acyclic).1 mem⟩
  · exact ⟨(p, y), (mem_places acyclic).2 at_end, rfl⟩

theorem occurrences_eq_places (x : NodeId) :
    s.occurrences (some x) = .ok (s.places acyclic x).length := by
  have perm : ((s.places acyclic x).map Prod.fst).Perm (s.copyOrder acyclic x) := by
    refine (List.perm_ext_iff_of_nodup (paths_nodup acyclic x) (copyOrder_nodup acyclic x)).2 ?_
    intro p
    rw [mem_paths, mem_copyOrder]
  rw [occurrences_eq acyclic, ← perm.length_eq, List.length_map]

theorem places_perm_treeOrder (x : NodeId) :
    ((s.places acyclic x).map Prod.snd).Perm (s.treeOrder acyclic x) := by
  induction x using acyclic.induction with
  | step x ih =>
    have below : (s.edges x).flatMap (fun e => (s.places acyclic e.child).map Prod.snd) =
        (s.children x).flatMap fun y => (s.places acyclic y).map Prod.snd := by
      rw [children, ← Node.edges_child, List.flatMap_map]
      rfl
    rw [places_eq, List.map_cons, List.map_flatMap, treeOrder_eq]
    simp only [List.map_map, Function.comp_def, Prod.map_snd, id_eq]
    rw [below]
    exact ((List.Perm.flatMap_left _ ih).cons x).trans (List.perm_append_singleton x _).symm

theorem ncard_paths (sort : NodeId → Prop) [DecidablePred sort] (x : NodeId) :
    {p : Path | ∃ y, s.nodeAt x p = some y ∧ sort y}.ncard =
      (s.treeOrder acyclic x).countP sort := by
  let paths := ((s.places acyclic x).filter fun place => sort place.2).map Prod.fst
  have nodup : paths.Nodup := (paths_nodup acyclic x).sublist (List.filter_sublist.map _)
  have members : {p : Path | ∃ y, s.nodeAt x p = some y ∧ sort y} =
      (paths.toFinset : Set Path) := by
    ext p
    simp [paths]
  rw [members, Set.ncard_coe_finset, List.toFinset_card_of_nodup nodup,
    ← (places_perm_treeOrder acyclic x).countP_eq, List.countP_map, List.countP_eq_length_filter,
    List.length_map]
  rfl

theorem length_treeOrder_eq_ncard (x : NodeId) :
    (s.treeOrder acyclic x).length = {p : Path | (s.nodeAt x p).isSome}.ncard := by
  have all := ncard_paths acyclic (fun _ => True) x
  simp only [and_true, ← Option.isSome_iff_exists] at all
  rw [all]
  simp

theorem count_treeOrder_eq_ncard (x y : NodeId) :
    (s.treeOrder acyclic x).count y = {p : Path | s.nodeAt x p = some y}.ncard := by
  have those := ncard_paths acyclic (fun z => z = y) x
  simp only [exists_eq_right] at those
  rw [those, List.count]
  rfl

theorem occurrences_eq_treeOrder (x : NodeId) :
    s.occurrences (some x) = .ok (s.treeOrder acyclic x).length := by
  rw [occurrences_eq_places acyclic, ← (places_perm_treeOrder acyclic x).length_eq, List.length_map]

end Store
end SlotTree
