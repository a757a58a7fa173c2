import Mathlib.Data.Set.Card
import Mathlib.Data.Nat.Find
import Mathlib.Order.Bounds.Basic
import SlotTree.History
import SlotTree.Proofs.Rank

/-!
Ordered sets over a whole history of calls. Whether something is a member is told by the last call
that names it, and where a member stands by the first of its insertions that no erasure follows: it
was entered there, and members stand in the order in which they were entered. Sets of nodes know
nothing of the store, so growing the nodes changes nothing, and nodes that are equal as trees are
members apart.
-/

namespace SlotTree
namespace OrderedSet

inductive Call (α : Type) where
  | insert (x : α)
  | erase (x : α)
  deriving DecidableEq

variable {α : Type} {x : α} {calls : List (Call α)} {c : Call α} {j k : Nat}

def Call.named : Call α → α
  | insert x => x
  | erase x => x

/-! When something was entered. -/

def Lasting (calls : List (Call α)) (x : α) (k : Nat) : Prop :=
  calls[k]? = some (.insert x) ∧ .erase x ∉ calls.drop (k + 1)

theorem Lasting.lt_length (lasting : Lasting calls x k) : k < calls.length :=
  (List.getElem?_eq_some_iff.1 lasting.1).1

theorem lasting_concat_iff :
    Lasting (calls ++ [c]) x k ↔
      Lasting calls x k ∧ c ≠ .erase x ∨ k = calls.length ∧ c = .insert x := by
  obtain lt | rfl | gt := Nat.lt_trichotomy k calls.length
  · rw [Lasting, List.getElem?_append_left lt, List.drop_append_of_le_length lt]
    simp [Lasting, Nat.ne_of_lt lt, and_assoc, eq_comm]
  · simp [Lasting]
  · have beyond : (calls ++ [c]).length ≤ k := by rwa [List.length_append]
    simp [Lasting, List.getElem?_eq_none beyond, List.getElem?_eq_none (Nat.le_of_lt gt),
      Nat.ne_of_gt gt]

/-- `x` was entered by the call at place `k`: its first insertion after its last erasure, or its
first insertion of all where it was never erased. -/
def EnteredAt (calls : List (Call α)) (x : α) (k : Nat) : Prop := IsLeast {k | Lasting calls x k} k

theorem exists_enteredAt_iff : (∃ k, EnteredAt calls x k) ↔ ∃ k, Lasting calls x k := by
  classical
  refine ⟨fun ⟨k, entered⟩ => ⟨k, entered.1⟩, fun h => ⟨Nat.find h, ?_⟩⟩
  exact ⟨Nat.find_spec h, fun k lasting => Nat.find_min' h lasting⟩

theorem EnteredAt.of_concat (entered : EnteredAt (calls ++ [c]) x k) :
    EnteredAt calls x k ∧ c ≠ .erase x ∨ k = calls.length ∧ c = .insert x ∧
      ¬ ∃ j, EnteredAt calls x j := by
  obtain ⟨lasting, least⟩ := entered
  obtain ⟨earlier, other⟩ | ⟨rfl, rfl⟩ := lasting_concat_iff.1 lasting
  · refine .inl ⟨⟨earlier, fun j lasting => ?_⟩, other⟩
    exact least (lasting_concat_iff.2 (.inl ⟨lasting, other⟩))
  · refine .inr ⟨rfl, rfl, fun ⟨j, before⟩ => ?_⟩
    have first := least (lasting_concat_iff.2 (.inl ⟨before.1, by simp⟩))
    exact Nat.not_le_of_lt before.1.lt_length first

variable [DecidableEq α] {s t : OrderedSet α}

def call (s : OrderedSet α) : Call α → OrderedSet α
  | .insert x => s.insert x
  | .erase x => s.erase x

/-! Single operations on the list of members. -/

theorem insert_of_mem (h : x ∈ s) : s.insert x = s := by
  unfold insert
  exact dif_pos h

theorem toList_insert_of_notMem (h : x ∉ s) : (s.insert x).toList = s.toList ++ [x] := by
  rw [toList_insert, if_neg h]

theorem toList_insert_erase (s : OrderedSet α) (x : α) :
    ((s.erase x).insert x).toList = (s.erase x).toList ++ [x] :=
  toList_insert_of_notMem fun mem => (mem_erase.1 mem).1 rfl

theorem size_eq_card {members : Finset α} (h : ∀ x, x ∈ members ↔ x ∈ s) :
    s.size = members.card := by
  have same : members = s.toList.toFinset := by
    ext x
    rw [h, List.mem_toFinset, mem_toList]
  rw [same, List.toFinset_card_of_nodup s.nodup]
  rfl

theorem isSubset_iff : s.isSubset t = true ↔ ∀ x, x ∈ s → x ∈ t := by
  simp only [isSubset, Bool.and_eq_true, decide_eq_true_eq, List.all_eq_true, mem_toList]
  refine ⟨fun h => h.2, fun h => ⟨?_, h⟩⟩
  exact (List.subperm_of_subset s.nodup h).length_le

theorem sameMembers_iff : s.sameMembers t = true ↔ ∀ x, x ∈ s ↔ x ∈ t := by
  rw [sameMembers, Bool.and_eq_true, beq_iff_eq, isSubset_iff]
  refine ⟨fun ⟨size, subset⟩ x => ⟨subset x, ?_⟩, fun same => ⟨?_, fun x => (same x).1⟩⟩
  · -- as many members as `t` has, and all of them members of `t`
    have perm := (List.subperm_of_subset s.nodup subset).perm_of_length_le (Nat.le_of_eq size.symm)
    exact (perm.mem_iff).2
  · exact ((List.perm_ext_iff_of_nodup s.nodup t.nodup).2 same).length_eq

/-! What a history leaves. -/

def lastNaming (calls : List (Call α)) (x : α) : Option (Call α) :=
  calls.reverse.find? fun c => c.named = x

@[simp] theorem lastNaming_concat :
    lastNaming (calls ++ [c]) x = if c.named = x then some c else lastNaming calls x := by
  rw [lastNaming, List.reverse_concat, List.find?_cons]
  by_cases named : c.named = x
  · simp [named]
  · simp [named, lastNaming]

/-- What is left of the empty set by a history of calls. -/
structure LeftBy (calls : List (Call α)) (s : OrderedSet α) : Prop where
  /-- A member is what the last call that names it inserts. -/
  mem_iff_last : ∀ x, x ∈ s ↔ lastNaming calls x = some (.insert x)
  mem_iff_entered : ∀ x, x ∈ s ↔ ∃ k, EnteredAt calls x k
  /-- Members stand in the order in which they were entered. -/
  ascending : s.toList.Pairwise fun x y =>
    ∀ j k, EnteredAt calls x j → EnteredAt calls y k → j < k

namespace LeftBy

theorem empty : LeftBy [] (OrderedSet.empty : OrderedSet α) where
  mem_iff_last x := iff_of_false List.not_mem_nil (by simp [lastNaming])
  mem_iff_entered x := iff_of_false List.not_mem_nil fun ⟨k, entered⟩ =>
    absurd entered.1.lt_length (Nat.not_lt_zero k)
  ascending := .nil

theorem insert (left : LeftBy calls s) (x : α) : LeftBy (calls ++ [.insert x]) (s.insert x) where
  mem_iff_last y := by
    rw [mem_insert, left.mem_iff_last, lastNaming_concat]
    by_cases here : x = y
    · simp [Call.named, here]
    · simp [Call.named, here, Ne.symm here]
  mem_iff_entered y := by
    rw [mem_insert, left.mem_iff_entered, exists_enteredAt_iff, exists_enteredAt_iff]
    simp only [lasting_concat_iff, exists_or, exists_eq_left, Call.insert.injEq, eq_comm (a := x)]
    simp
  ascending := by
    -- a member keeps the place at which it was entered
    have kept {y : α} (member : y ∈ s) {k : Nat} (entered : EnteredAt (calls ++ [.insert x]) y k) :
        EnteredAt calls y k := by
      obtain ⟨before, -⟩ | ⟨-, -, never⟩ := entered.of_concat
      · exact before
      · exact absurd ((left.mem_iff_entered y).1 member) never
    have members : s.toList.Pairwise fun y z => ∀ j k, EnteredAt (calls ++ [.insert x]) y j →
        EnteredAt (calls ++ [.insert x]) z k → j < k :=
      left.ascending.imp_of_mem fun hy hz lt j k enteredY enteredZ =>
        lt j k (kept hy enteredY) (kept hz enteredZ)
    by_cases member : x ∈ s
    · rwa [insert_of_mem member]
    · rw [toList_insert_of_notMem member, List.pairwise_append]
      refine ⟨members, List.pairwise_singleton _ _, fun y hy z hz j k enteredY enteredZ => ?_⟩
      rw [List.mem_singleton.1 hz] at enteredZ
      obtain ⟨before, -⟩ | ⟨last, -⟩ := enteredZ.of_concat
      · exact absurd ((left.mem_iff_entered x).2 ⟨k, before⟩) member
      · rw [last]
        exact (kept hy enteredY).1.lt_length

theorem erase (left : LeftBy calls s) (x : α) : LeftBy (calls ++ [.erase x]) (s.erase x) where
  mem_iff_last y := by
    rw [mem_erase, left.mem_iff_last, lastNaming_concat]
    by_cases here : x = y
    · simp [Call.named, here]
    · simp [Call.named, here, Ne.symm here]
  mem_iff_entered y := by
    rw [mem_erase, left.mem_iff_entered, exists_enteredAt_iff, exists_enteredAt_iff]
    simp [lasting_concat_iff, and_comm, eq_comm (a := x)]
  ascending := by
    have kept {y : α} {k : Nat} (entered : EnteredAt (calls ++ [.erase x]) y k) :
        EnteredAt calls y k := by
      obtain ⟨before, -⟩ | ⟨-, inserted, -⟩ := entered.of_concat
      · exact before
      · cases inserted
    refine (left.ascending.sublist List.erase_sublist).imp fun lt j k enteredY enteredZ => ?_
    exact lt j k (kept enteredY) (kept enteredZ)

theorem call (left : LeftBy calls s) (c : Call α) : LeftBy (calls ++ [c]) (s.call c) := by
  cases c with
  | insert x => exact left.insert x
  | erase x => exact left.erase x

theorem foldl_call {past : List (Call α)} (left : LeftBy past s) (calls : List (Call α)) :
    LeftBy (past ++ calls) (calls.foldl OrderedSet.call s) := by
  induction calls generalizing past s with
  | nil => rwa [List.append_nil]
  | cons c calls ih =>
    rw [List.foldl_cons, List.append_cons]
    exact ih (left.call c)

theorem ofList (xs : List α) : LeftBy (xs.map .insert) (OrderedSet.ofList xs) := by
  have inserted := empty.foldl_call (xs.map Call.insert)
  rwa [List.nil_append, List.foldl_map] at inserted

theorem size_filter (left : LeftBy calls s) (p : α → Prop) [DecidablePred p] :
    (s.filter fun x => decide (p x)).size =
      {x | p x ∧ lastNaming calls x = some (.insert x)}.ncard := by
  have members : {x | p x ∧ lastNaming calls x = some (.insert x)} =
      ((s.filter fun x => decide (p x)).toList.toFinset : Set α) := by
    ext x
    rw [List.coe_toFinset, Set.mem_ofPred_eq, Set.mem_ofPred_eq, mem_toList, mem_filter,
      left.mem_iff_last, and_comm, decide_eq_true_eq]
  rw [members, Set.ncard_coe_finset, List.toFinset_card_of_nodup (OrderedSet.nodup _)]
  rfl

end LeftBy
end OrderedSet

inductive SetEvent where
  | call (c : OrderedSet.Call (Option NodeId))
  | act (a : Action)

namespace SetEvent

def next : Store × References → SetEvent → Store × References
  | (s, set), call c => (s, set.call c)
  | (s, set), act a => (s.after a, set)

def call? : SetEvent → Option (OrderedSet.Call (Option NodeId))
  | call c => some c
  | act _ => none

theorem snd_foldl_next (events : List SetEvent) (s : Store) (set : References) :
    (events.foldl next (s, set)).2 = (events.filterMap call?).foldl OrderedSet.call set := by
  induction events generalizing s set with
  | nil => rfl
  | cons event events ih =>
    rw [List.foldl_cons]
    cases event with
    | call c => exact ih s (set.call c)
    | act a => exact ih (s.after a) set

end SetEvent

namespace OrderedSet

/-- A set of nodes is what the calls on it have left, beginning with the insertions of its first
members, whatever was done to the store in between. Its members are counted and listed once each;
inserting a member leaves it in its place, and erasing it first moves it to the end. Nodes that are
equal as trees, but not the same, are members at different places: of all nodes that equal one, the
set has as many as there are whose own last call inserts them. And sets are compared by their
members alone. -/
theorem history_tells_set (s : Store) (initial : List (Option NodeId)) (events : List SetEvent) :
    ∃ t set, events.foldl SetEvent.next (s, .ofList initial) = (t, set) ∧
      LeftBy (initial.map .insert ++ events.filterMap SetEvent.call?) set ∧
      set.toList.Nodup ∧
      (∀ members : Finset (Option NodeId), (∀ x, x ∈ members ↔ x ∈ set) →
        set.size = members.card) ∧
      (∀ x ∈ set, set.insert x = set) ∧
      (∀ x, ((set.erase x).insert x).toList = (set.erase x).toList ++ [x]) ∧
      (∀ x ∈ set, ∀ y ∈ set, x ≠ y → t.equal x y = .ok true →
        ∃ i j : Nat, i ≠ j ∧ set.toList[i]? = some x ∧ set.toList[j]? = some y) ∧
      (∀ x, (set.filter fun y => decide (t.equal x y = .ok true)).size =
        {y | t.equal x y = .ok true ∧
          lastNaming (initial.map .insert ++ events.filterMap SetEvent.call?) y =
            some (.insert y)}.ncard) ∧
      ∀ other : References, set.sameMembers other = true ↔ ∀ x, x ∈ set ↔ x ∈ other := by
  have left : LeftBy (initial.map .insert ++ events.filterMap SetEvent.call?)
      (events.foldl SetEvent.next (s, .ofList initial)).2 := by
    rw [SetEvent.snd_foldl_next]
    exact (LeftBy.ofList initial).foldl_call _
  refine ⟨_, _, rfl, left, OrderedSet.nodup _, fun _ => size_eq_card, fun _ => insert_of_mem,
    toList_insert_erase _, fun x hx y hy apart _ => ?apart,
    fun _ => left.size_filter _, fun _ => sameMembers_iff⟩
  case apart =>
    obtain ⟨i, hi⟩ := List.mem_iff_getElem?.1 hx
    obtain ⟨j, hj⟩ := List.mem_iff_getElem?.1 hy
    refine ⟨i, j, fun same => apart ?_, hi, hj⟩
    rw [same, hj] at hi
    exact (Option.some.inj hi).symm

theorem history_tells_set_trellis :
    ∃ t set, [.call (.insert (some 0)), .act (.append 2 (some 3) 1), .call (.erase (some 0)),
        .call (.insert (some 0))].foldl SetEvent.next
        (Store.trellis, .ofList [some 0, some 3, some 2]) = (t, set) ∧
      LeftBy [.insert (some 0), .insert (some 3), .insert (some 2), .insert (some 0),
        .erase (some 0), .insert (some 0)] set ∧
      set.toList = [some 3, some 2, some 0] ∧ t.children 2 = [0, 1, 0, 3, 1] ∧
      t.equal (some 0) (some 3) = .ok true ∧
      (∃ i j : Nat, i ≠ j ∧ set.toList[i]? = some (some 0) ∧ set.toList[j]? = some (some 3)) ∧
      {y | t.equal (some 0) y = .ok true ∧ lastNaming [.insert (some 0), .insert (some 3),
        .insert (some 2), .insert (some 0), .erase (some 0), .insert (some 0)] y =
          some (.insert y)}.ncard = 2 ∧
      ∀ x, x ∈ set ↔ x ∈ (.ofList [some 0, some 3, some 2] : References) := by
  obtain ⟨t, set, run, left, -, -, -, -, apart, classes, compared⟩ :=
    history_tells_set Store.trellis [some 0, some 3, some 2] [.call (.insert (some 0)),
      .act (.append 2 (some 3) 1), .call (.erase (some 0)), .call (.insert (some 0))]
  obtain ⟨rfl, rfl⟩ := Prod.mk.inj run
  have same : (Store.trellis.grow 2 1 3).equal (some 0) (some 0) = .ok true := by cbv
  have equal : (Store.trellis.grow 2 1 3).equal (some 0) (some 3) = .ok true := by cbv
  have other : (Store.trellis.grow 2 1 3).equal (some 0) (some 2) = .ok false := by cbv
  refine ⟨_, _, rfl, left, by decide, by decide, equal, ?_, (classes (some 0)).symm.trans ?_,
    (compared _).1 (by decide)⟩
  · exact apart (some 0) (by decide) (some 3) (by decide) (by decide) equal
  · change ([some 3, some 2, some 0].filter fun y =>
      decide ((Store.trellis.grow 2 1 3).equal (some 0) y = .ok true)).length = 2
    simp [same, equal, other]

end OrderedSet
end SlotTree
