import SlotTree.Proofs.Acyclicity
import SlotTree.Proofs.GrownOrders
import SlotTree.Proofs.Hashes

/-!
Hashes and growing nodes. A hash is made of the skeleton of first slots and of nothing else. Where
an append does not touch the skeleton of a node, its hash or the fault that stands in its place
stays as it is, whatever is appended. Where it does, the skeleton has more nodes than it had, if it
is still one; so only a collision can keep the hash.
-/

namespace SlotTree

/-! What is made of a skeleton. -/

namespace Hashing

variable {H : Type}

mutual

def value (hashing : Hashing H) : Skeleton → H
  | .bare label => hashing.bare label
  | .rooted label first => hashing.rooted label (values hashing first)

def values (hashing : Hashing H) : List Skeleton → List H
  | [] => []
  | a :: as => value hashing a :: values hashing as

end

theorem values_eq_map (hashing : Hashing H) (as : List Skeleton) :
    hashing.values as = as.map hashing.value := by
  induction as with
  | nil => rfl
  | cons a as ih => rw [values, ih, List.map_cons]

theorem value_combine (hashing : Hashing H) (slotCount : Nat) (first : List Skeleton)
    (label : Payload) :
    hashing.value (skeleton.combine slotCount first label) =
      hashing.combine slotCount (first.map hashing.value) label := by
  unfold combine
  by_cases slotless : slotCount = 0
  · rw [if_pos slotless, if_pos slotless]
    rfl
  · rw [if_neg slotless, if_neg slotless, ← values_eq_map]
    rfl

mutual

@[simp] theorem value_skeleton : ∀ a : Skeleton, skeleton.value a = a
  | .bare _ => rfl
  | .rooted label first => congrArg (Skeleton.rooted label) (values_skeleton first)

theorem values_skeleton : ∀ as : List Skeleton, skeleton.values as = as
  | [] => rfl
  | a :: as => congrArg₂ List.cons (value_skeleton a) (values_skeleton as)

end

end Hashing

namespace Store

variable {s t : Store} {r x y c : NodeId} {i : Nat} {H : Type} {hashing : Hashing H}

/-! Outcomes, one by one and in a row. -/

theorem mapM_map_eq {α β γ : Type} (f : α → Except Fault β) (g : β → γ) (as : List α) :
    as.mapM (fun a => (f a).map g) = (as.mapM f).map (List.map g) := by
  induction as with
  | nil => rfl
  | cons a as ih =>
    rw [List.mapM_cons, List.mapM_cons, ih]
    cases f a with
    | error => rfl
    | ok => cases as.mapM f <;> rfl

theorem weightAll_eq_length {f : NodeId → Except Fault Skeleton} {list : NodeId → List NodeId}
    {ys : List NodeId} {as : List Skeleton}
    (each : ∀ y ∈ ys, ∀ a, f y = .ok a → a.weight = (list y).length) (run : ys.mapM f = .ok as) :
    Skeleton.weightAll as = (ys.flatMap list).length := by
  induction ys generalizing as with
  | nil =>
    cases run
    rfl
  | cons y ys ih =>
    rw [List.mapM_cons] at run
    obtain ⟨a, here, run⟩ := exists_of_bind_eq_ok run
    obtain ⟨others, later, run⟩ := exists_of_bind_eq_ok run
    cases run
    have rest := ih (fun z mem => each z (List.mem_cons_of_mem y mem)) later
    rw [Skeleton.weightAll, each y List.mem_cons_self a here, rest, List.flatMap_cons,
      List.length_append]

section Recursion

variable (acyclic : s.Acyclic)

theorem hashBelow_eq_map (x : NodeId) :
    s.hashBelow acyclic hashing x = (s.hashBelow acyclic .skeleton x).map hashing.value := by
  induction x using acyclic.induction with
  | step x ih =>
    have children : (s.firstChildren x).mapM (s.hashBelow acyclic hashing) =
        ((s.firstChildren x).mapM (s.hashBelow acyclic .skeleton)).map
          (List.map hashing.value) := by
      rw [← mapM_map_eq]
      refine mapM_eq_of_forall₂ (R := Eq) (by rw [List.forall₂_eq_eq_eq]) ?_
      rintro y mem _ rfl
      exact ih y (s.descends_firstChildren x y mem)
    rw [hashBelow_eq, hashBelow_eq, children]
    cases (s.firstChildren x).mapM (s.hashBelow acyclic .skeleton) with
    | error => rfl
    | ok first =>
      cases (s.payload x).label with
      | error => rfl
      | ok label => exact congrArg Except.ok (hashing.value_combine _ first label).symm

theorem weight_eq_length {a : Skeleton} (made : s.hashBelow acyclic .skeleton x = .ok a) :
    a.weight = (s.firstOrder acyclic x).length := by
  induction x using acyclic.induction generalizing a with
  | step x ih =>
    rw [hashBelow_eq] at made
    obtain ⟨first, children, made⟩ := exists_of_bind_eq_ok made
    have below := weightAll_eq_length
      (fun y mem a => ih y (s.descends_firstChildren x y mem)) children
    -- a node without slots has no first children either, so both sorts of skeleton weigh alike
    have combined (label : Payload) :
        (Hashing.skeleton.combine (s.slotCount x) first label).weight =
          Skeleton.weightAll first + 1 := by
      unfold Hashing.combine
      by_cases slotless : s.slotCount x = 0
      · rw [firstChildren_of_slotCount slotless] at below
        rw [if_pos slotless, below]
        rfl
      · rw [if_neg slotless]
        rfl
    obtain ⟨label, -, rfl⟩ := exists_of_map_eq_ok made
    rw [combined, below, firstOrder_eq, List.length_append, List.length_singleton]

end Recursion

/-! Appends that do not touch the skeleton. -/

theorem ReachesFirst.reaches (h : s.ReachesFirst x y) : s.Reaches x y :=
  reaches_iff_nodeAt.2 (h.imp fun _ h => h.2)

theorem ReachesFirst.child (child : y ∈ s.firstChildren x) (h : s.ReachesFirst y c) :
    s.ReachesFirst x c :=
  reachesFirst_iff.2 (.inr ⟨y, child, h⟩)

/-- The first slots that hashing `r` meets stay as they are. -/
def Untouched (s : Store) (i : Nat) (x r : NodeId) : Prop := i ≠ 0 ∨ ¬ s.ReachesFirst r x

theorem GrownBy.hashSimulation (grown : s.GrownBy x i c t) :
    HashSimulation s t fun y y' => y = y' ∧ s.Untouched i x y where
  label := by
    rintro y _ ⟨rfl, -⟩
    by_cases here : y = x
    · rw [here, grown.payload]
    · rw [Store.payload, Store.payload, grown.others y here]
  slotless := by
    rintro y _ ⟨rfl, -⟩
    by_cases here : y = x
    · rw [here, grown.slotCount]
    · rw [Store.slotCount, Store.slotCount, grown.others y here]
  first := by
    rintro y _ ⟨rfl, untouched⟩
    have same : t.firstChildren y = s.firstChildren y := by
      by_cases here : y = x
      · have later : i ≠ 0 := untouched.resolve_right fun apart =>
          apart (reachesFirst_iff.2 (.inl here.symm))
        rw [here, firstChildren, grown.other_slots 0 later.symm, firstChildren]
      · rw [firstChildren, Store.slot, grown.others y here, firstChildren, Store.slot]
    rw [same]
    -- what is met below a first child is met below `y`, so it is untouched as well
    refine List.forall₂_same.2 fun z child => ⟨rfl, untouched.imp_right fun apart below => ?_⟩
    exact apart (below.child child)

/-! Appends that touch it. -/

theorem GrownBy.oneMore_firstChildren (grown : s.GrownBy x 0 c t) :
    OneMore s.firstChildren t.firstChildren x c where
  others y ne := by rw [firstChildren, Store.slot, grown.others y ne, firstChildren, Store.slot]
  here := by
    rw [firstChildren, grown.slot, Array.toList_push]
    exact List.perm_append_singleton c _

theorem GrownBy.length_firstOrder_lt (grown : s.GrownBy x 0 c t) (acyclic : s.Acyclic)
    (acyclic' : t.Acyclic) (ahead : ¬ s.Reaches c x) (touched : s.ReachesFirst r x) :
    (s.firstOrder acyclic r).length < (t.firstOrder acyclic' r).length := by
  have apart : x ∉ s.firstOrder acyclic c := fun mem =>
    ahead ((mem_firstOrder acyclic).1 mem).reaches
  have longer : (t.firstOrder acyclic' r).length = (s.firstOrder acyclic r).length +
      (s.firstOrder acyclic r).count x * (s.firstOrder acyclic c).length :=
    grown.oneMore_firstChildren.length_childrenFirst acyclic acyclic' s.descends_firstChildren
      t.descends_firstChildren apart r
  have often : 0 < (s.firstOrder acyclic r).count x :=
    List.count_pos_iff.2 ((mem_firstOrder acyclic).2 touched)
  have own : c ∈ s.firstOrder acyclic c :=
    (mem_firstOrder acyclic).2 (reachesFirst_iff.2 (.inl rfl))
  have more := Nat.mul_pos often (List.length_pos_of_mem own)
  omega

theorem GrownBy.collision (grown : s.GrownBy x 0 c t) (acyclic : s.Acyclic) (acyclic' : t.Acyclic)
    (ahead : ¬ s.Reaches c x) (touched : s.ReachesFirst r x) {h : H}
    (before : s.hashWith hashing r = .ok h) (after : t.hashWith hashing r = .ok h) :
    ∃ a b, s.fingerprint r = .ok a ∧ t.fingerprint r = .ok b ∧ a ≠ b ∧
      hashing.value a = hashing.value b := by
  rw [hashWith_eq_hashBelow acyclic, hashBelow_eq_map] at before
  rw [hashWith_eq_hashBelow acyclic', hashBelow_eq_map] at after
  obtain ⟨a, made, value⟩ := exists_of_map_eq_ok before
  obtain ⟨b, made', value'⟩ := exists_of_map_eq_ok after
  have heavier := grown.length_firstOrder_lt acyclic acyclic' ahead touched
  rw [← weight_eq_length acyclic made, ← weight_eq_length acyclic' made'] at heavier
  refine ⟨a, b, (hashWith_eq_hashBelow acyclic r).trans made,
    (hashWith_eq_hashBelow acyclic' r).trans made', fun same => ?_, value.trans value'.symm⟩
  exact Nat.lt_irrefl _ (same ▸ heavier)

/-- No append but one to the first slot of a node of its skeleton changes the hash of a node, or the
fault in its place. One that goes there ends the hash or changes it, unless the skeletons before and
after collide. -/
theorem hash_changes_with_skeleton {s : Store} (acyclic : s.Acyclic) {H : Type}
    (hashing : Hashing H) {x c : NodeId} {i : Nat} (growable : s.kind x = .growable)
    (inside : i < s.slotCount x) (ahead : ¬ s.Reaches c x) :
    ∃ t, s.append x (some c) i = .ok t ∧ ∀ r,
      (i ≠ 0 ∨ ¬ s.ReachesFirst r x → t.hashWith hashing r = s.hashWith hashing r) ∧
      (i = 0 → s.ReachesFirst r x → (∃ h, s.hashWith hashing r = .ok h) →
        (∀ a b, s.fingerprint r = .ok a → t.fingerprint r = .ok b → a ≠ b →
          hashing.value a ≠ hashing.value b) →
        t.hashWith hashing r ≠ s.hashWith hashing r) := by
  have grown : s.GrownBy x i c (s.grow x i c) := s.grownBy_grow inside
  have acyclic' : (s.grow x i c).Acyclic := (acyclic_grow_iff inside acyclic).2 ahead
  refine ⟨s.grow x i c, append_eq_ok_iff.2 ⟨growable, c, i, rfl, rfl, inside, rfl⟩,
    fun r => ⟨?_, ?_⟩⟩
  · intro untouched
    rw [hashWith_eq_hashBelow acyclic', hashWith_eq_hashBelow acyclic]
    exact (grown.hashSimulation.hashBelow_eq acyclic acyclic' ⟨rfl, untouched⟩).symm
  · rintro rfl touched ⟨h, before⟩ apart same
    obtain ⟨a, b, made, made', ne, collide⟩ :=
      grown.collision acyclic acyclic' ahead touched before (same.trans before)
    exact apart a b made made' ne collide

/-- A store with a payload that cannot be hashed, that of the leaf 0. It stands in later slots only;
the node 2 stands twice in the first slot of the root 3. -/
def espalier : Store := ⟨#[
  ⟨.growable, .value (.array []), #[]⟩,
  ⟨.frozen, .value (.int 1), #[]⟩,
  ⟨.growable, .value .null, #[#[1], #[0]]⟩,
  ⟨.growable, .value (.bool true), #[#[2, 2], #[0]]⟩]⟩

theorem hash_changes_with_skeleton_espalier :
    espalier.Acyclic ∧ espalier.kind 2 = .growable ∧ espalier.slotCount 2 = 2 ∧
    ¬ espalier.Reaches 0 2 ∧ ¬ espalier.Reaches 1 2 ∧ ¬ espalier.Reaches 2 3 ∧
    espalier.ReachesFirst 3 2 ∧ ¬ espalier.ReachesFirst 2 3 ∧
    (∃ h, espalier.fingerprint 3 = .ok h) ∧
    (∃ t, espalier.append 2 (some 0) 1 = .ok t ∧
      t.fingerprint 3 = espalier.fingerprint 3) ∧
    (∃ t, espalier.append 2 (some 1) 0 = .ok t ∧
      t.fingerprint 3 ≠ espalier.fingerprint 3) ∧
    ∃ t, espalier.append 3 (some 2) 0 = .ok t ∧
      t.fingerprint 2 = espalier.fingerprint 2 := by
  have lower : ∀ x < espalier.count, ∀ y ∈ espalier.children x, y < x := by decide
  have acyclic : espalier.Acyclic := (closed_acyclic_of_children_lt lower).2
  have ahead {x c : NodeId} (lt : c < x) : ¬ espalier.Reaches c x := fun reached =>
    Nat.not_le_of_lt lt (le_of_reaches lower reached)
  have touched : espalier.ReachesFirst 3 2 := ⟨[(0, 0)], by decide, rfl⟩
  have apart : ¬ espalier.ReachesFirst 2 3 := fun reached => ahead (by decide) reached.reaches
  have hashed : ∃ h, espalier.fingerprint 3 = .ok h := ⟨_, by cbv⟩
  obtain ⟨t, appended, later⟩ := hash_changes_with_skeleton acyclic .skeleton (x := 2) (c := 0)
    (i := 1) rfl (by decide) (ahead (by decide))
  obtain ⟨t', appended', first⟩ := hash_changes_with_skeleton acyclic .skeleton (x := 2) (c := 1)
    (i := 0) rfl (by decide) (ahead (by decide))
  obtain ⟨t'', appended'', above⟩ := hash_changes_with_skeleton acyclic .skeleton (x := 3) (c := 2)
    (i := 0) rfl (by decide) (ahead (by decide))
  refine ⟨acyclic, rfl, rfl, ahead (by decide), ahead (by decide), ahead (by decide), touched,
    apart, hashed, ⟨t, appended, (later 3).1 (.inl (by decide))⟩, ⟨t', appended', ?_⟩,
    ⟨t'', appended'', (above 2).1 (.inr apart)⟩⟩
  refine (first 3).2 rfl touched hashed fun a b _ _ ne => ?_
  rwa [Hashing.value_skeleton, Hashing.value_skeleton]

end Store
end SlotTree
