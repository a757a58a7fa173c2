import SlotTree.Proofs.HashRecursion
import SlotTree.Proofs.TreeEquality

/-!
Hashes and their table. A node that stands in several places is hashed in each of them and its
entry replaced, by the same hash; so the table gives a parent what the recursion gives it, and
fails where the recursion fails. Equal nodes are hashed alike: equality looks at all slots, and
takes what is one node for equal at once, but where it succeeds first slots agree.
-/

namespace SlotTree

namespace Store

variable {s : Store} {x y : NodeId} {H : Type} {hashing : Hashing H}

theorem TreeEq.hashSimulation (s : Store) : HashSimulation s s s.TreeEq where
  label := TreeEqBy.label_eq Payload.laws
  slotless h := by rw [h.slotCount]
  first h := forall₂_slot_of_rel (h.childAt 0)

section Table

variable (acyclic : s.Acyclic)

theorem enterHash_eq (table : HashTable H) (x : NodeId) :
    s.enterHash hashing table x =
      (s.firstChildren x).mapM (lookupHash table) >>= fun first =>
        (s.payload x).label.map fun label =>
          table.insert x (hashing.combine (s.slotCount x) first label) := by
  unfold enterHash Hashing.combine
  by_cases slotless : s.slotCount x = 0
  · rw [if_pos slotless, firstChildren_of_slotCount slotless]
    simp only [slotless, if_true]
    cases (s.payload x).label <;> rfl
  · simp only [slotless, if_false]
    cases (s.payload x).label <;> rfl

def Tabled (s : Store) (acyclic : s.Acyclic) (hashing : Hashing H) (known : List NodeId)
    (table : HashTable H) : Prop :=
  ∀ y ∈ known, ∃ h, table[y]? = some h ∧ s.hashBelow acyclic hashing y = .ok h

variable {acyclic}

theorem Tabled.lookupHash_eq {known : List NodeId} {table : HashTable H}
    (tabled : s.Tabled acyclic hashing known table) (mem : y ∈ known) :
    lookupHash table y = s.hashBelow acyclic hashing y := by
  obtain ⟨h, entry, hashed⟩ := tabled y mem
  rw [lookupHash, entry, hashed]

theorem Tabled.enterHash_eq {known : List NodeId} {table : HashTable H}
    (tabled : s.Tabled acyclic hashing known table) (ready : ∀ y ∈ s.firstChildren x, y ∈ known) :
    s.enterHash hashing table x =
      (s.hashBelow acyclic hashing x).map fun h => table.insert x h := by
  have looked : (s.firstChildren x).mapM (lookupHash table) =
      (s.firstChildren x).mapM (s.hashBelow acyclic hashing) := by
    refine mapM_eq_of_forall₂ (R := Eq) (by rw [List.forall₂_eq_eq_eq]) ?_
    rintro y mem _ rfl
    exact tabled.lookupHash_eq (ready y mem)
  rw [Store.enterHash_eq, looked, hashBelow_eq]
  cases (s.firstChildren x).mapM (s.hashBelow acyclic hashing) with
  | error e => rfl
  | ok first =>
    show ((s.payload x).label.map fun label =>
      table.insert x (hashing.combine (s.slotCount x) first label)) = _
    cases (s.payload x).label <;> rfl

theorem Tabled.insert {known : List NodeId} {table : HashTable H} {h : H}
    (tabled : s.Tabled acyclic hashing known table)
    (hashed : s.hashBelow acyclic hashing x = .ok h) :
    s.Tabled acyclic hashing (known ++ [x]) (table.insert x h) := by
  intro y mem
  by_cases here : x = y
  · subst here
    exact ⟨h, Std.HashMap.getElem?_insert_self, hashed⟩
  · have known : y ∈ known := by simpa [Ne.symm here] using mem
    obtain ⟨h', entry, hashed'⟩ := tabled y known
    refine ⟨h', ?_, hashed'⟩
    rw [Std.HashMap.getElem?_insert, if_neg (by simpa using here), entry]

/-- Entering `nodes` brings the hashes of `tops` into the table, or fails as hashing `tops` in turn
does. -/
inductive Entered (s : Store) (acyclic : s.Acyclic) (hashing : Hashing H)
    (known tops nodes : List NodeId) (table : HashTable H) : Prop where
  | all (after : HashTable H) (hashes : List H) :
      nodes.foldlM (s.enterHash hashing) table = .ok after →
      tops.mapM (s.hashBelow acyclic hashing) = .ok hashes →
      s.Tabled acyclic hashing (known ++ tops) after →
      Entered s acyclic hashing known tops nodes table
  | refused (e : Fault) : nodes.foldlM (s.enterHash hashing) table = .error e →
      tops.mapM (s.hashBelow acyclic hashing) = .error e →
      Entered s acyclic hashing known tops nodes table

def Enters (s : Store) (acyclic : s.Acyclic) (hashing : Hashing H) (tops nodes : List NodeId) :
    Prop :=
  ∀ known table, s.Tabled acyclic hashing known table →
    s.Entered acyclic hashing known tops nodes table

theorem Enters.nil : s.Enters acyclic hashing [] [] := by
  intro known table tabled
  exact .all table [] rfl rfl (by rwa [List.append_nil])

theorem Enters.append {tops more nodes later : List NodeId}
    (first : s.Enters acyclic hashing tops nodes) (second : s.Enters acyclic hashing more later) :
    s.Enters acyclic hashing (tops ++ more) (nodes ++ later) := by
  intro known table tabled
  cases first known table tabled with
  | refused e run failed =>
    refine .refused e ?_ ?_
    · rw [List.foldlM_append, run]
      rfl
    · rw [List.mapM_append, failed]
      rfl
  | all middle hashes run hashed entered =>
    have nodes_run : (nodes ++ later).foldlM (s.enterHash hashing) table =
        later.foldlM (s.enterHash hashing) middle := by
      rw [List.foldlM_append, run]
      rfl
    cases second (known ++ tops) middle entered with
    | refused e run' failed =>
      refine .refused e (nodes_run.trans run') ?_
      rw [List.mapM_append, hashed, failed]
      rfl
    | all after others run' hashed' entered' =>
      refine .all after (hashes ++ others) (nodes_run.trans run') ?_ ?_
      · rw [List.mapM_append, hashed, hashed']
        rfl
      · rwa [← List.append_assoc]

theorem Enters.all {ys : List NodeId} {nodes : NodeId → List NodeId}
    (each : ∀ y ∈ ys, s.Enters acyclic hashing [y] (nodes y)) :
    s.Enters acyclic hashing ys (ys.flatMap nodes) := by
  induction ys with
  | nil => exact .nil
  | cons y ys ih =>
    have others := ih fun z mem => each z (List.mem_cons_of_mem y mem)
    exact (each y List.mem_cons_self).append others

theorem mapM_hashBelow_singleton (x : NodeId) :
    [x].mapM (s.hashBelow acyclic hashing) = (s.hashBelow acyclic hashing x).map fun h => [h] := by
  rw [List.mapM_cons]
  cases s.hashBelow acyclic hashing x <;> rfl

theorem enters (x : NodeId) : s.Enters acyclic hashing [x] (s.firstOrder acyclic x) := by
  induction x using acyclic.induction with
  | step x ih =>
    have children : s.Enters acyclic hashing (s.firstChildren x)
        ((s.firstChildren x).flatMap (s.firstOrder acyclic)) :=
      .all fun y mem => ih y (s.descends_firstChildren x y mem)
    -- children first, over whatever is known already, and then `x` over their entries
    intro known table tabled
    rw [firstOrder_eq]
    cases children known table tabled with
    | refused e run failed =>
      refine .refused e ?_ ?_
      · rw [List.foldlM_append, run]
        rfl
      · rw [mapM_hashBelow_singleton, hashBelow_eq, failed]
        rfl
    | all middle hashes run hashed entered =>
      have turn := entered.enterHash_eq (x := x) fun y mem => List.mem_append_right known mem
      have nodes_run : ((s.firstChildren x).flatMap (s.firstOrder acyclic) ++ [x]).foldlM
          (s.enterHash hashing) table = s.enterHash hashing middle x := by
        rw [List.foldlM_append, run]
        show [x].foldlM (s.enterHash hashing) middle = _
        simp
      rw [turn] at nodes_run
      cases here : s.hashBelow acyclic hashing x with
      | error e =>
        rw [here] at nodes_run
        refine .refused e nodes_run ?_
        rw [mapM_hashBelow_singleton, here]
        rfl
      | ok h =>
        rw [here] at nodes_run
        refine .all _ [h] nodes_run ?_ ?_
        · rw [mapM_hashBelow_singleton, here]
          rfl
        · intro y mem
          obtain known | rfl := List.mem_append.1 mem |>.imp_right List.mem_singleton.1
          · exact entered.insert here y (by simp [known])
          · exact entered.insert here y (by simp)

end Table

/-- The walk with its table hashes a node as the recursion does. -/
theorem hashWith_eq_hashBelow (acyclic : s.Acyclic) (x : NodeId) :
    s.hashWith hashing x = s.hashBelow acyclic hashing x := by
  have folded := postFold_eq_foldlM (f := s.enterHash hashing) acyclic s.descends_firstChildren ∅ x
  rw [hashWith, folded]
  have start : s.Tabled acyclic hashing [] ∅ := fun y mem => absurd mem List.not_mem_nil
  cases enters x [] ∅ start with
  | refused e run failed =>
    rw [mapM_hashBelow_singleton] at failed
    show (s.firstOrder acyclic x).foldlM (s.enterHash hashing) ∅ >>= _ = _
    rw [run]
    cases hashed : s.hashBelow acyclic hashing x with
    | error e' =>
      have same : (.error e' : Except Fault (List H)) = .error e := by rw [← failed, hashed]; rfl
      cases same
      rfl
    | ok h =>
      rw [hashed] at failed
      cases failed
  | all after hashes run hashed entered =>
    show (s.firstOrder acyclic x).foldlM (s.enterHash hashing) ∅ >>= _ = _
    rw [run]
    exact entered.lookupHash_eq List.mem_cons_self

theorem exists_refused_of_hashWith (acyclic : s.Acyclic) {e : Fault}
    (failed : s.hashWith hashing x = .error e) :
    ∃ y, s.ReachesFirst x y ∧ (s.payload y).isScalar = false ∧
      e = .unhashable (s.payload y).typeName := by
  rw [hashWith_eq_hashBelow acyclic] at failed
  exact exists_refused_of_hashBelow acyclic failed

/-- Hashing, in whatever way, is the recursion over first slots; it succeeds where all that it
meets has a label, and else fails at the first node in its order that has none; and it takes equal
nodes alike. -/
theorem hashWith_respects_equality {s : Store} (acyclic : s.Acyclic) {H : Type}
    (hashing : Hashing H) :
    (∀ x, s.hashWith hashing x = s.hashBelow acyclic hashing x) ∧
    (∀ x, (∃ h, s.hashWith hashing x = .ok h) ↔
      ∀ y, s.ReachesFirst x y → (s.payload y).isScalar = true) ∧
    (∀ x, ∃ order, s.postOrder s.firstChildren x = .ok order ∧
      ∀ y, s.firstRefused order.toList = some y →
        s.hashWith hashing x = .error (.unhashable (s.payload y).typeName)) ∧
    ∀ x y, s.equal (some x) (some y) = .ok true → s.hashWith hashing x = s.hashWith hashing y := by
  refine ⟨hashWith_eq_hashBelow acyclic, fun x => ?_, fun x => ?_, fun x y equal => ?_⟩
  · rw [hashWith_eq_hashBelow acyclic]
    exact exists_hashBelow_iff acyclic
  · refine ⟨_, postOrder_eq acyclic s.descends_firstChildren x, fun y found => ?_⟩
    have outcome : s.RefusesFirst (s.firstOrder acyclic x) (s.hashBelow acyclic hashing x) :=
      hashBelow_refusesFirst acyclic x
    rw [hashWith_eq_hashBelow acyclic]
    unfold RefusesFirst at outcome
    rwa [firstOrder, found] at outcome
  · have related := (equal_eq_true_iff acyclic).1 equal
    rw [hashWith_eq_hashBelow acyclic, hashWith_eq_hashBelow acyclic]
    exact (TreeEq.hashSimulation s).hashBelow_eq acyclic acyclic related

def unruly : Store := ⟨#[
  ⟨.growable, .value (.array []), #[]⟩,
  ⟨.frozen, .value (.int 1), #[]⟩,
  ⟨.growable, .value .null, #[#[1], #[0]]⟩,
  ⟨.growable, .value (.object []), #[#[2, 0, 2]]⟩,
  ⟨.growable, .value (.bool true), #[]⟩,
  ⟨.frozen, .value .null, #[#[4], #[0]]⟩]⟩

theorem hashWith_respects_equality_unruly :
    ∃ acyclic : unruly.Acyclic,
    (∀ x, unruly.fingerprint x = unruly.hashBelow acyclic .skeleton x) ∧
    ((∃ h, unruly.fingerprint 2 = .ok h) ↔
      ∀ y, unruly.ReachesFirst 2 y → (unruly.payload y).isScalar = true) ∧
    unruly.postOrder unruly.firstChildren 3 = .ok #[1, 2, 0, 1, 2, 3] ∧
    unruly.firstRefused [1, 2, 0, 1, 2, 3] = some 0 ∧
    unruly.fingerprint 3 = .error (.unhashable "list") ∧
    unruly.equal (some 2) (some 5) = .ok true ∧ unruly.fingerprint 2 = unruly.fingerprint 5 := by
  have acyclic : unruly.Acyclic :=
    (closed_acyclic_of_children_lt (s := unruly) (by decide)).2
  have walked : unruly.postOrder unruly.firstChildren 3 = .ok #[1, 2, 0, 1, 2, 3] := by cbv
  have first : unruly.firstRefused [1, 2, 0, 1, 2, 3] = some 0 := by decide
  have equal : unruly.equal (some 2) (some 5) = .ok true := by cbv
  obtain ⟨recursion, hashable, refused, alike⟩ :=
    hashWith_respects_equality acyclic Hashing.skeleton
  obtain ⟨order, met, refuses⟩ := refused 3
  cases met.symm.trans walked
  exact ⟨acyclic, recursion, hashable 2, walked, first, refuses 0 first, equal, alike 2 5 equal⟩

end Store
end SlotTree
