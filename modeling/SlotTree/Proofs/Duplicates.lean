import Mathlib.Data.List.Pairwise
import SlotTree.Compare.Distinct
import SlotTree.Proofs.Hashes

/-!
Dropping duplicates. Equality is an equivalence, and equal nodes are hashed alike, so a node that
equals a kept one is found by its hash, and of each class the first node is kept. This holds in any
way of hashing: nodes that share a hash and are not equal are kept apart.
-/

namespace SlotTree

section Classes

variable {α : Type} {same : α → α → Prop} {all kept : List α} {x y : α}

/-- `kept` are the first of their classes in `all`, in order. -/
structure FirstOfEach (same : α → α → Prop) (all kept : List α) : Prop where
  sublist : kept.Sublist all
  apart : kept.Pairwise fun x y => ¬ same x y
  one : ∀ x ∈ all, ∃! y, y ∈ kept ∧ same y x
  first : ∀ y ∈ kept, ∃ front back, all = front ++ y :: back ∧ ∀ x ∈ front, ¬ same x y

theorem FirstOfEach.nil : FirstOfEach same [] [] where
  sublist := .refl []
  apart := .nil
  one _ mem := absurd mem List.not_mem_nil
  first _ mem := absurd mem List.not_mem_nil

theorem existsUnique_same (equiv : Equivalence same) (apart : kept.Pairwise fun x y => ¬ same x y)
    (mem : y ∈ kept) (here : same y x) : ∃! y, y ∈ kept ∧ same y x := by
  refine ⟨y, ⟨mem, here⟩, ?_⟩
  rintro z ⟨mem', here'⟩
  have : Std.Symm fun x y => ¬ same x y := ⟨fun _ _ ne back => ne (equiv.symm back)⟩
  by_contra ne
  exact apart.forall mem' mem ne (equiv.trans here' (equiv.symm here))

theorem FirstOfEach.drop (equiv : Equivalence same) (h : FirstOfEach same all kept)
    (mem : y ∈ kept) (here : same y x) : FirstOfEach same (all ++ [x]) kept where
  sublist := h.sublist.trans (List.sublist_append_left all [x])
  apart := h.apart
  one := List.forall_mem_append.2 ⟨h.one, fun z last => by
    rw [List.mem_singleton.1 last]
    exact existsUnique_same equiv h.apart mem here⟩
  first z kept := by
    obtain ⟨front, back, rfl, earlier⟩ := h.first z kept
    exact ⟨front, back ++ [x], by simp, earlier⟩

theorem FirstOfEach.keep (equiv : Equivalence same) (h : FirstOfEach same all kept)
    (new : ∀ y ∈ kept, ¬ same y x) : FirstOfEach same (all ++ [x]) (kept ++ [x]) := by
  have apart : (kept ++ [x]).Pairwise fun x y => ¬ same x y := by
    refine List.pairwise_append.2 ⟨h.apart, List.pairwise_singleton _ _, fun y mem z last => ?_⟩
    rw [List.mem_singleton.1 last]
    exact new y mem
  refine ⟨h.sublist.append (.refl [x]), apart, fun z mem => ?one, fun z mem => ?first⟩
  case one =>
    obtain old | last := List.mem_append.1 mem
    · obtain ⟨y, ⟨mem, here⟩, -⟩ := h.one z old
      exact existsUnique_same equiv apart (List.mem_append_left [x] mem) here
    · rw [List.mem_singleton.1 last]
      exact existsUnique_same equiv apart (by simp) (equiv.refl x)
  case first =>
    obtain old | last := List.mem_append.1 mem
    · obtain ⟨front, back, rfl, earlier⟩ := h.first z old
      exact ⟨front, back ++ [x], by simp, earlier⟩
    · rw [List.mem_singleton.1 last]
      refine ⟨all, [], rfl, fun w mem here => ?_⟩
      -- `w` is the same as a kept one, which then is the same as `x`
      obtain ⟨y, ⟨kept, before⟩, -⟩ := h.one w mem
      exact new y kept (equiv.trans before here)

end Classes

namespace Store

variable {s : Store} {H : Type} {hashing : Hashing H} {x y : Option NodeId}

def Equals (s : Store) (x y : Option NodeId) : Prop := s.equal x y = .ok true

def Hashable (s : Store) (x : Option NodeId) : Prop :=
  ∀ z ∈ x, ∀ y, s.ReachesFirst z y → (s.payload y).isScalar = true

section Acyclic

variable (acyclic : s.Acyclic)

include acyclic

theorem equals_iff : s.Equals x y ↔ Option.Rel s.TreeEq x y := by
  cases x <;> cases y
  · exact iff_of_true rfl .none
  · exact iff_of_false (by simp [Equals, equal]) (fun h => by cases h)
  · exact iff_of_false (by simp [Equals, equal]) (fun h => by cases h)
  · rw [Equals, equal_eq_true_iff acyclic, Option.rel_some_some]

theorem equals_equivalence : Equivalence s.Equals := by
  refine ⟨fun x => (equals_iff acyclic).2 ?_, fun h => (equals_iff acyclic).2 ?_,
    fun h h' => (equals_iff acyclic).2 ?_⟩
  · cases x with
    | none => exact .none
    | some x => exact .some (.same x)
  · cases (equals_iff acyclic).1 h with
    | none => exact .none
    | some related => exact .some related.symm
  · cases (equals_iff acyclic).1 h with
    | none => exact (equals_iff acyclic).1 h'
    | some related =>
      cases (equals_iff acyclic).1 h' with
      | some further => exact .some (related.trans further)

theorem exists_equal (x y : Option NodeId) : ∃ b, s.equal x y = .ok b := by
  match x, y with
  | none, none => exact ⟨true, rfl⟩
  | none, some _ => exact ⟨false, rfl⟩
  | some _, none => exact ⟨false, rfl⟩
  | some x, some y =>
    obtain ⟨b, run, -⟩ := equal_eq_ok acyclic x y
    exact ⟨b, run⟩

theorem Equals.hashWith?_eq (h : s.Equals x y) (hashing : Hashing H) :
    s.hashWith? hashing x = s.hashWith? hashing y := by
  cases (equals_iff acyclic).1 h with
  | none => rfl
  | @some x y related =>
    have same : s.hashWith hashing x = s.hashWith hashing y := by
      rw [hashWith_eq_hashBelow acyclic, hashWith_eq_hashBelow acyclic]
      exact (TreeEq.hashSimulation s).hashBelow_eq acyclic acyclic related
    rw [hashWith?, hashWith?, same]

theorem exists_hashWith?_iff : (∃ hash, s.hashWith? hashing x = .ok hash) ↔ s.Hashable x := by
  cases x with
  | none => exact iff_of_true ⟨none, rfl⟩ (by simp [Hashable])
  | some x =>
    have hashed : (∃ hash, s.hashWith? hashing (some x) = .ok hash) ↔
        ∃ h, s.hashBelow acyclic hashing x = .ok h := by
      rw [← hashWith_eq_hashBelow acyclic, hashWith?]
      cases s.hashWith hashing x <;> simp [Except.map]
    rw [hashed, exists_hashBelow_iff acyclic]
    simp [Hashable]

variable [DecidableEq H]

theorem isKept_eq {kept : List (Option NodeId × Option H)} {hash : Option H}
    (hashed : ∀ entry ∈ kept, s.hashWith? hashing entry.1 = .ok entry.2)
    (here : s.hashWith? hashing x = .ok hash) :
    ∃ b, s.isKept x hash kept = .ok b ∧ (b = true ↔ ∃ y ∈ kept.map Prod.fst, s.Equals y x) := by
  induction kept with
  | nil => exact ⟨false, rfl, by simp⟩
  | cons entry kept ih =>
    obtain ⟨y, other⟩ := entry
    obtain ⟨known, others⟩ := List.forall_mem_cons.1 hashed
    obtain ⟨b, run, decides⟩ := ih others
    simp only [List.map_cons, List.mem_cons, exists_eq_or_imp]
    by_cases shared : hash = other
    · rw [isKept, if_pos shared]
      obtain ⟨answer, compared⟩ := exists_equal acyclic y x
      cases answer with
      | true => exact ⟨true, by rw [compared], iff_of_true rfl (.inl compared)⟩
      | false =>
        have unequal : ¬ s.Equals y x := by simp [Equals, compared]
        exact ⟨b, by rw [compared]; exact run, by rw [decides, or_iff_right unequal]⟩
    · -- what has another hash is not equal
      have unequal : ¬ s.Equals y x := fun equal => shared <| by
        have alike := Equals.hashWith?_eq acyclic equal hashing
        rw [known, here] at alike
        exact (Except.ok.inj alike).symm
      exact ⟨b, by rw [isKept, if_neg shared, run], by rw [decides, or_iff_right unequal]⟩

end Acyclic

variable [DecidableEq H]

structure Keeping (s : Store) (hashing : Hashing H) (seen : List (Option NodeId))
    (kept : List (Option NodeId × Option H)) : Prop where
  classes : FirstOfEach s.Equals seen (kept.reverse.map Prod.fst)
  hashed : ∀ entry ∈ kept, s.hashWith? hashing entry.1 = .ok entry.2

namespace Keeping

variable {seen : List (Option NodeId)} {kept : List (Option NodeId × Option H)}

theorem step (acyclic : s.Acyclic) (keeping : s.Keeping hashing seen kept) {hash : Option H}
    (here : s.hashWith? hashing x = .ok hash) : ∃ kept',
    (∀ xs, s.distinctAfter hashing kept (x :: xs) = s.distinctAfter hashing kept' xs) ∧
    s.Keeping hashing (seen ++ [x]) kept' := by
  have equiv := equals_equivalence acyclic
  obtain ⟨b, run, decides⟩ := isKept_eq acyclic keeping.hashed here
  have turn (xs : List (Option NodeId)) : s.distinctAfter hashing kept (x :: xs) =
      if b then s.distinctAfter hashing kept xs
      else s.distinctAfter hashing ((x, hash) :: kept) xs := by
    rw [distinctAfter, here]
    simp only [bind, Except.bind, run]
  cases b with
  | true =>
    obtain ⟨y, mem, equal⟩ := decides.1 rfl
    have mem : y ∈ kept.reverse.map Prod.fst := by rwa [List.map_reverse, List.mem_reverse]
    exact ⟨kept, turn, keeping.classes.drop equiv mem equal, keeping.hashed⟩
  | false =>
    refine ⟨(x, hash) :: kept, turn, ?_, List.forall_mem_cons.2 ⟨here, keeping.hashed⟩⟩
    rw [List.reverse_cons, List.map_append]
    refine keeping.classes.keep equiv fun y mem equal => ?_
    rw [List.map_reverse, List.mem_reverse] at mem
    exact Bool.false_ne_true (decides.2 ⟨y, mem, equal⟩)

theorem run (acyclic : s.Acyclic) {xs : List (Option NodeId)}
    (keeping : s.Keeping hashing seen kept)
    (hashes : ∀ x ∈ xs, ∃ hash, s.hashWith? hashing x = .ok hash) : ∃ kept',
    (∀ rest, s.distinctAfter hashing kept (xs ++ rest) = s.distinctAfter hashing kept' rest) ∧
    s.Keeping hashing (seen ++ xs) kept' := by
  induction xs generalizing seen kept with
  | nil => exact ⟨kept, fun rest => rfl, by rwa [List.append_nil]⟩
  | cons x xs ih =>
    obtain ⟨⟨hash, here⟩, others⟩ := List.forall_mem_cons.1 hashes
    obtain ⟨middle, turn, keeping⟩ := keeping.step acyclic here
    obtain ⟨kept', further, keeping⟩ := ih keeping others
    refine ⟨kept', fun rest => (turn (xs ++ rest)).trans (further rest), ?_⟩
    rwa [List.append_cons]

end Keeping

/-- Dropping duplicates, in whatever way nodes are hashed, keeps the first of each class of equal
nodes, and fails at the first node that cannot be hashed. -/
theorem distinctWith_keeps_first {s : Store} (acyclic : s.Acyclic) {H : Type} [DecidableEq H]
    (hashing : Hashing H) (nodes : List (Option NodeId)) :
    ((∀ x ∈ nodes, s.Hashable x) → ∃ kept, s.distinctWith hashing nodes = .ok kept ∧
      FirstOfEach s.Equals nodes kept) ∧
    ((∃ x ∈ nodes, ¬ s.Hashable x) → ∃ front x back y, nodes = front ++ some x :: back ∧
      (∀ z ∈ front, s.Hashable z) ∧ s.ReachesFirst x y ∧ (s.payload y).isScalar = false ∧
      s.hashWith hashing x = .error (.unhashable (s.payload y).typeName) ∧
      s.distinctWith hashing nodes = .error (.unhashable (s.payload y).typeName)) := by
  have start : s.Keeping hashing [] [] := ⟨.nil, by simp⟩
  refine ⟨fun hashable => ?_, fun ⟨z, mem, unhashable⟩ => ?_⟩
  · obtain ⟨kept, run, keeping⟩ :=
      start.run acyclic fun x mem => (exists_hashWith?_iff acyclic).2 (hashable x mem)
    have whole := run []
    rw [List.append_nil] at whole
    exact ⟨_, whole, keeping.classes⟩
  · obtain ⟨e, fails⟩ : ∃ e, s.hashWith? hashing z = .error e := by
      cases hashed : s.hashWith? hashing z with
      | ok hash => exact absurd ((exists_hashWith?_iff acyclic).1 ⟨hash, hashed⟩) unhashable
      | error e => exact ⟨e, rfl⟩
    -- the nodes in front of the first failure are all kept or dropped before it
    obtain ⟨front, x, back, e, rfl, hashes, fails⟩ := exists_first_error mem fails
    obtain ⟨kept, run, -⟩ := start.run acyclic hashes
    have failed : s.distinctWith hashing (front ++ x :: back) = .error e := by
      rw [distinctWith, run, distinctAfter, fails]
      rfl
    cases x with
    | none => cases fails
    | some x =>
      have hashed : s.hashWith hashing x = .error e := by
        cases here : s.hashWith hashing x <;> simp_all [hashWith?, Except.map]
      obtain ⟨y, reached, refused, rfl⟩ := exists_refused_of_hashWith acyclic hashed
      exact ⟨front, x, back, y, rfl, fun z mem => (exists_hashWith?_iff acyclic).1 (hashes z mem),
        reached, refused, hashed, failed⟩

def blindHashing : Hashing Unit := ⟨fun _ => (), fun _ _ => ()⟩

def hedge : Store := ⟨#[
  ⟨.growable, .value (.array []), #[]⟩,
  ⟨.frozen, .value (.int 1), #[]⟩,
  ⟨.growable, .value .null, #[#[1], #[0]]⟩,
  ⟨.growable, .value (.bool true), #[]⟩,
  ⟨.frozen, .value .null, #[#[3], #[0]]⟩,
  ⟨.growable, .value .null, #[#[3], #[]]⟩,
  ⟨.growable, .value .null, #[#[1, 0]]⟩]⟩

theorem distinctWith_keeps_first_hedge :
    hedge.Acyclic ∧
    (∀ x ∈ [some 2, some 5, none, some 4, some 1, some 3, none, some 2], hedge.Hashable x) ∧
    hedge.distinct [some 2, some 5, none, some 4, some 1, some 3, none, some 2] =
      .ok [some 2, some 5, none, some 1] ∧
    hedge.distinctWith blindHashing [some 2, some 5, none, some 4, some 1, some 3, none, some 2] =
      .ok [some 2, some 5, none, some 1] ∧
    FirstOfEach hedge.Equals [some 2, some 5, none, some 4, some 1, some 3, none, some 2]
      [some 2, some 5, none, some 1] ∧
    (∃ x ∈ [some 2, some 4, some 6, some 0], ¬ hedge.Hashable x) ∧
    ∃ front x back, [some 2, some 4, some 6, some 0] = front ++ some x :: back ∧
      (∀ z ∈ front, hedge.Hashable z) ∧
      hedge.hashWith blindHashing x = .error (.unhashable "list") ∧
      hedge.distinctWith blindHashing [some 2, some 4, some 6, some 0] =
        .error (.unhashable "list") := by
  have acyclic : hedge.Acyclic := (closed_acyclic_of_children_lt (s := hedge) (by decide)).2
  have run : hedge.distinct [some 2, some 5, none, some 4, some 1, some 3, none, some 2] =
      .ok [some 2, some 5, none, some 1] := by cbv
  have blind : hedge.distinctWith blindHashing
      [some 2, some 5, none, some 4, some 1, some 3, none, some 2] =
      .ok [some 2, some 5, none, some 1] := by cbv
  have stopped : hedge.distinctWith blindHashing [some 2, some 4, some 6, some 0] =
      .error (.unhashable "list") := by cbv
  obtain ⟨keeps, fails⟩ := distinctWith_keeps_first acyclic blindHashing
    [some 2, some 5, none, some 4, some 1, some 3, none, some 2]
  have hashable : ∀ x ∈ [some 2, some 5, none, some 4, some 1, some 3, none, some 2],
      hedge.Hashable x := by
    by_contra other
    simp only [not_forall, exists_prop] at other
    obtain ⟨_, _, _, _, _, _, _, _, _, failed⟩ := fails other
    cases blind.symm.trans failed
  obtain ⟨kept, blind', classes⟩ := keeps hashable
  cases blind.symm.trans blind'
  have unhashable : ∃ x ∈ [some 2, some 4, some 6, some 0], ¬ hedge.Hashable x :=
    ⟨some 6, by simp, fun labelled =>
      absurd (labelled 6 rfl 0 ⟨[(0, 1)], by decide, rfl⟩) (by decide)⟩
  obtain ⟨front, x, back, y, split, before, -, -, hashed, failed⟩ :=
    (distinctWith_keeps_first acyclic blindHashing _).2 unhashable
  have named : (hedge.payload y).typeName = "list" :=
    Fault.unhashable.inj (Except.error.inj (failed.symm.trans stopped))
  rw [named] at hashed
  exact ⟨acyclic, hashable, run, blind, classes, unhashable, front, x, back, split, before, hashed,
    stopped⟩

end Store
end SlotTree
