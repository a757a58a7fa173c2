import Mathlib.Data.Set.Card
import SlotTree.Proofs.ChildrenFirst

/-!
Children first, place by place. Whatever leads down the store lists for each node some of its
children, each as often as it likes. A place is a list of positions, each in the list of the node
above, with the node at its end. The walk meets every place once, right behind all places below it.
-/

namespace SlotTree.Store

variable {s : Store} {below : NodeId → List NodeId} {x y : NodeId} {p q : List Nat}

def follow (below : NodeId → List NodeId) (x : NodeId) : List Nat → Option NodeId
  | [] => some x
  | i :: p => (below x)[i]?.bind fun y => follow below y p

theorem follow_append (x : NodeId) (p q : List Nat) :
    follow below x (p ++ q) = (follow below x p).bind fun y => follow below y q := by
  induction p generalizing x with
  | nil => rfl
  | cons i p ih =>
    simp only [List.cons_append, follow]
    cases (below x)[i]? with
    | none => rfl
    | some y => exact ih y

section Places

variable (acyclic : s.Acyclic) (descends : s.Descends below)

def postPlaces (s : Store) (acyclic : s.Acyclic) (below : NodeId → List NodeId)
    (descends : s.Descends below) (x : NodeId) : List (List Nat × NodeId) :=
  ((below x).zipIdx.attach.flatMap fun c =>
    (postPlaces s acyclic below descends c.1.1).map (Prod.map (c.1.2 :: ·) id)) ++ [([], x)]
termination_by s.rank x
decreasing_by exact acyclic.rank_lt (descends x _ (List.fst_mem_of_mem_zipIdx c.2))

theorem postPlaces_eq (x : NodeId) :
    s.postPlaces acyclic below descends x = ((below x).zipIdx.flatMap fun c =>
      (s.postPlaces acyclic below descends c.1).map (Prod.map (c.2 :: ·) id)) ++ [([], x)] := by
  rw [postPlaces]
  congr 1
  exact List.flatMap_subtype (fun _ _ => rfl) |>.trans (by rw [List.unattach_attach])

theorem map_snd_postPlaces (x : NodeId) :
    (s.postPlaces acyclic below descends x).map Prod.snd =
      s.childrenFirst acyclic below descends x := by
  induction x using acyclic.induction with
  | step x ih =>
    have children : ((below x).zipIdx.flatMap fun c =>
        (s.postPlaces acyclic below descends c.1).map Prod.snd) =
        (below x).flatMap (s.childrenFirst acyclic below descends) := by
      conv_rhs => rw [← List.zipIdx_map_fst 0 (below x), List.flatMap_map]
      exact List.flatMap_congr fun c mem => ih c.1 (descends x _ (List.fst_mem_of_mem_zipIdx mem))
    rw [postPlaces_eq, childrenFirst_eq, ← children, List.map_append, List.map_flatMap]
    simp only [List.map_map, Function.comp_def, Prod.map_snd, id_eq]
    rfl

theorem mem_postPlaces : (p, y) ∈ s.postPlaces acyclic below descends x ↔
    follow below x p = some y := by
  induction x using acyclic.induction generalizing p with
  | step x ih =>
    rw [postPlaces_eq, List.mem_append, List.mem_flatMap]
    cases p with
    | nil => simp [follow, eq_comm]
    | cons i p =>
      simp only [follow, Option.bind_eq_some_iff, List.mem_singleton, Prod.mk.injEq, reduceCtorEq,
        false_and, or_false, List.mem_map, Prod.exists, Prod.map_apply, id_eq, List.cons.injEq,
        List.mem_zipIdx_iff_getElem?]
      constructor
      · rintro ⟨z, j, at_z, q, w, mem, ⟨rfl, rfl⟩, rfl⟩
        exact ⟨z, at_z, (ih z (descends x z (List.mem_of_getElem? at_z))).1 mem⟩
      · rintro ⟨z, at_z, at_end⟩
        have mem := (ih z (descends x z (List.mem_of_getElem? at_z))).2 at_end
        exact ⟨z, i, at_z, p, y, mem, ⟨rfl, rfl⟩, rfl⟩

theorem mem_paths_postPlaces : p ∈ (s.postPlaces acyclic below descends x).map Prod.fst ↔
    (follow below x p).isSome := by
  simp [mem_postPlaces, Option.isSome_iff_exists]

theorem postPlaces_nodup (x : NodeId) :
    ((s.postPlaces acyclic below descends x).map Prod.fst).Nodup := by
  induction x using acyclic.induction with
  | step x ih =>
    have through (c : NodeId × Nat) : ((s.postPlaces acyclic below descends c.1).map
        (Prod.map (c.2 :: ·) id)).map Prod.fst =
        ((s.postPlaces acyclic below descends c.1).map Prod.fst).map (c.2 :: ·) := by
      simp [Function.comp_def]
    rw [postPlaces_eq, List.map_append, List.map_flatMap]
    simp only [through]
    refine List.nodup_append'.2 ⟨List.nodup_flatMap.2 ⟨fun c mem => ?_, ?_⟩, by simp, by simp⟩
    · have child := descends x _ (List.fst_mem_of_mem_zipIdx mem)
      exact (ih c.1 child).map (List.cons_injective)
    · have apart : (below x).zipIdx.Pairwise fun c d => c.2 ≠ d.2 := by
        have positions := List.nodup_range' (s := 0) (n := (below x).length) 1
        rw [← List.zipIdx_map_snd 0 (below x)] at positions
        exact List.pairwise_map.1 positions
      refine apart.imp fun {c d} ne p hp hq => ?_
      obtain ⟨_, -, rfl⟩ := List.mem_map.1 hp
      obtain ⟨_, -, eq⟩ := List.mem_map.1 hq
      exact ne (List.cons.inj eq).1.symm

def placesUnder (s : Store) (acyclic : s.Acyclic) (below : NodeId → List NodeId)
    (descends : s.Descends below) (place : List Nat × NodeId) : List (List Nat × NodeId) :=
  (s.postPlaces acyclic below descends place.2).map (Prod.map (place.1 ++ ·) id)

theorem inBlocks_postPlaces (x : NodeId) :
    InBlocks (s.placesUnder acyclic below descends) (s.postPlaces acyclic below descends x) := by
  induction x using acyclic.induction with
  | step x ih =>
    have whole : s.placesUnder acyclic below descends ([], x) =
        s.postPlaces acyclic below descends x := List.map_id _
    rw [postPlaces_eq] at whole ⊢
    refine InBlocks.concat (.flatMap fun c mem => ?_) whole
    refine (ih c.1 (descends x _ (List.fst_mem_of_mem_zipIdx mem))).map fun place => ?_
    simp [placesUnder, Function.comp_def, Prod.map]

theorem mem_paths_placesUnder (at_end : follow below x p = some y) :
    q ∈ (s.placesUnder acyclic below descends (p, y)).map Prod.fst ↔
      p <+: q ∧ (follow below x q).isSome := by
  have under : (s.placesUnder acyclic below descends (p, y)).map Prod.fst =
      ((s.postPlaces acyclic below descends y).map Prod.fst).map (p ++ ·) := by
    simp [placesUnder, Function.comp_def]
  rw [under, List.mem_map]
  constructor
  · rintro ⟨r, mem, rfl⟩
    refine ⟨List.prefix_append p r, ?_⟩
    rw [follow_append, at_end]
    exact (mem_paths_postPlaces acyclic descends).1 mem
  · rintro ⟨⟨r, rfl⟩, exists_end⟩
    rw [follow_append, at_end] at exists_end
    exact ⟨r, (mem_paths_postPlaces acyclic descends).2 exists_end, rfl⟩

end Places

section Intervals

variable {paths block : List (List Nat)}

theorem interval_of_block (nodup : paths.Nodup) {k : Nat} (within : k < paths.length)
    (suffix : block <:+ paths.take (k + 1)) (members : ∀ q ∈ paths, p <+: q ↔ q ∈ block)
    (nonempty : block ≠ []) :
    ∃ start ≤ k, ∀ j q, paths[j]? = some q → (p <+: q ↔ start ≤ j ∧ j ≤ k) := by
  obtain ⟨front, split⟩ := suffix
  have lengths := congrArg List.length split
  rw [List.length_append, List.length_take, Nat.min_eq_left within] at lengths
  have some := List.length_pos_of_ne_nil nonempty
  -- the block takes the places from the end of `front` up to `k`
  have placed (i : Nat) (inside : i < block.length) :
      paths[front.length + i]? = block[i]? := by
    have early : front.length + i < k + 1 := by omega
    rw [← List.getElem?_take_of_lt early, ← split, List.getElem?_append_right (by omega),
      Nat.add_sub_cancel_left]
  refine ⟨front.length, by omega, fun j q hj => ?_⟩
  rw [members q (List.mem_of_getElem? hj)]
  constructor
  · intro mem
    obtain ⟨i, hi⟩ := List.mem_iff_getElem?.1 mem
    have inside := (List.getElem?_eq_some_iff.1 hi).1
    have same := hj.trans (hi.symm.trans (placed i inside).symm)
    have eq := (List.getElem?_inj (List.getElem?_eq_some_iff.1 hj).1 nodup).1 same
    omega
  · rintro ⟨from_start, to_end⟩
    have at_block := placed (j - front.length) (by omega)
    rw [Nat.add_sub_of_le from_start, hj] at at_block
    exact List.mem_of_getElem? at_block.symm

end Intervals

/-- The nodes in `order` are the ends of `paths`, and these are all paths from `root` down `below`,
each of them once, and each right behind the paths that begin with it. -/
structure PlaceByPlace (below : NodeId → List NodeId) (root : NodeId) (order : List NodeId)
    (paths : List (List Nat)) : Prop where
  ends : paths.map (follow below root) = order.map some
  once : paths.Nodup
  all : ∀ p, p ∈ paths ↔ (follow below root p).isSome
  block : ∀ (k : Nat) (p : List Nat), paths[k]? = some p →
    ∃ start ≤ k, ∀ j q, paths[j]? = some q → (p <+: q ↔ start ≤ j ∧ j ≤ k)

theorem PlaceByPlace.count_eq {root : NodeId} {order : List NodeId} {paths : List (List Nat)}
    (places : PlaceByPlace below root order paths) (y : NodeId) :
    order.count y = {p | follow below root p = some y}.ncard := by
  have leading : {p | follow below root p = some y} =
      ((paths.filter fun p => follow below root p = some y).toFinset : Set (List Nat)) := by
    ext p
    simp only [Set.mem_ofPred_eq, List.coe_toFinset, List.mem_filter, places.all, decide_eq_true_eq]
    exact ⟨fun at_end => ⟨by rw [at_end]; rfl, at_end⟩, And.right⟩
  have counted := congrArg (List.count (some y)) places.ends
  rw [List.count_map_of_injective _ _ (Option.some_injective _)] at counted
  rw [leading, Set.ncard_coe_finset, List.toFinset_card_of_nodup (places.once.filter _),
    ← counted, List.count, List.countP_map, List.countP_eq_length_filter]
  congr 1
  refine List.filter_congr fun p _ => ?_
  rw [Bool.eq_iff_iff, Function.comp_apply, beq_iff_eq, decide_eq_true_iff]

theorem placeByPlace (acyclic : s.Acyclic) (descends : s.Descends below) (root : NodeId) :
    PlaceByPlace below root (s.childrenFirst acyclic below descends root)
      ((s.postPlaces acyclic below descends root).map Prod.fst) where
  ends := by
    rw [← map_snd_postPlaces, List.map_map, List.map_map]
    exact List.map_congr_left fun place mem => (mem_postPlaces acyclic descends).1 mem
  once := postPlaces_nodup acyclic descends root
  all p := mem_paths_postPlaces acyclic descends
  block k p hk := by
    have within := (List.getElem?_eq_some_iff.1 hk).1
    rw [List.getElem?_map] at hk
    obtain ⟨⟨p, y⟩, at_place, rfl⟩ := Option.map_eq_some_iff.1 hk
    have at_end := (mem_postPlaces acyclic descends).1 (List.mem_of_getElem? at_place)
    have suffix := (inBlocks_postPlaces acyclic descends root k _ at_place).map Prod.fst
    rw [List.map_take] at suffix
    have under (q : List Nat) := mem_paths_placesUnder (q := q) acyclic descends at_end
    refine interval_of_block (postPlaces_nodup acyclic descends root) within suffix
      (fun q mem => ?_) (List.ne_nil_of_mem (a := p) ?_)
    · rw [under]
      exact (and_iff_left ((mem_paths_postPlaces acyclic descends).1 mem)).symm
    · rw [under, at_end]
      exact ⟨List.prefix_refl p, rfl⟩

/-- The walk children first is its recursion: below every node the list of each child in turn, and
then the node. So every place is met once, behind all that is below it. -/
theorem postOrder_is_recursion {s : Store} (acyclic : s.Acyclic) {below : NodeId → List NodeId}
    (descends : s.Descends below) (root : NodeId) :
    (∀ x, s.childrenFirst acyclic below descends x =
      (below x).flatMap (s.childrenFirst acyclic below descends) ++ [x]) ∧
    s.postOrder below root = .ok (s.childrenFirst acyclic below descends root).toArray ∧
    (∀ {β : Type} (f : β → NodeId → Except Fault β) (init : β),
      s.postFold below f init root =
        (s.childrenFirst acyclic below descends root).foldlM f init) ∧
    (∃ paths, PlaceByPlace below root (s.childrenFirst acyclic below descends root) paths) ∧
    (∀ y, (s.childrenFirst acyclic below descends root).count y =
      {p | follow below root p = some y}.ncard) ∧
    (∀ k y, (s.childrenFirst acyclic below descends root)[k]? = some y →
      s.childrenFirst acyclic below descends y <:+
        (s.childrenFirst acyclic below descends root).take (k + 1) ∧
      ∀ c ∈ below y, ∃ j < k, (s.childrenFirst acyclic below descends root)[j]? = some c) ∧
    (s.childrenFirst acyclic below descends root).getLast? = some root := by
  have places := placeByPlace acyclic descends root
  refine ⟨childrenFirst_eq acyclic descends, postOrder_eq acyclic descends root,
    fun f init => postFold_eq_foldlM acyclic descends init root, ⟨_, places⟩, places.count_eq,
    fun k y hk => ⟨inBlocks_childrenFirst acyclic descends root k y hk, fun c mem => ?_⟩,
    getLast?_childrenFirst acyclic descends root⟩
  have listed := mem_flatMap_childrenFirst acyclic descends mem
  obtain ⟨j, hj⟩ := List.mem_iff_getElem?.1 ((below_before acyclic descends hk).subset listed)
  have bound := (List.getElem?_eq_some_iff.1 hj).1
  rw [List.length_take] at bound
  have before : j < k := by omega
  exact ⟨j, before, by rwa [List.getElem?_take_of_lt before] at hj⟩

def backAndForth (s : Store) (x : NodeId) : List NodeId := s.children x ++ (s.children x).reverse

theorem descends_backAndForth (s : Store) : s.Descends s.backAndForth := by
  intro x y mem
  simpa [backAndForth] using mem

theorem postOrder_is_recursion_trellis :
    trellis.Acyclic ∧ trellis.Descends trellis.backAndForth ∧
    trellis.backAndForth 2 = [0, 1, 0, 1, 1, 0, 1, 0] ∧
    trellis.postOrder trellis.backAndForth 1 = .ok #[0, 0, 0, 0, 1] ∧
    (∃ paths, PlaceByPlace trellis.backAndForth 1 [0, 0, 0, 0, 1] paths) ∧
    {p | follow trellis.backAndForth 1 p = some 0}.ncard = 4 ∧
    {p | follow trellis.backAndForth 2 p = some 0}.ncard = 20 := by
  have acyclic := trellis_closed_acyclic.2
  have descends := descends_backAndForth trellis
  have small : trellis.postOrder trellis.backAndForth 1 = .ok #[0, 0, 0, 0, 1] := by cbv
  have large : trellis.postOrder trellis.backAndForth 2 = .ok #[0, 0, 0, 0, 0, 1, 0,
      0, 0, 0, 0, 1, 0, 0, 0, 0, 1, 0, 0, 0, 0, 0, 1, 0, 2] := by cbv
  obtain ⟨-, below_one, -, places, at_one, -⟩ := postOrder_is_recursion acyclic descends 1
  obtain ⟨-, below_two, -, -, at_two, -⟩ := postOrder_is_recursion acyclic descends 2
  have one := congrArg Array.toList (Except.ok.inj (below_one.symm.trans small))
  have two := congrArg Array.toList (Except.ok.inj (below_two.symm.trans large))
  rw [List.toList_toArray] at one two
  rw [one] at places at_one
  rw [two] at at_two
  exact ⟨acyclic, descends, by decide, small, places, (at_one 0).symm.trans (by decide),
    (at_two 0).symm.trans (by decide)⟩

end SlotTree.Store
