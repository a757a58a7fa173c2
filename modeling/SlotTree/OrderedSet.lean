/-!
Finite sets that remember in which order their members came. A member that is inserted again keeps
its place; one that is erased and inserted again goes to the end.

The list of members is the view: each operation has the lemma that gives its list or its members.
-/

namespace SlotTree

structure OrderedSet (α : Type) where
  toList : List α
  nodup : toList.Nodup

namespace OrderedSet

variable {α : Type} [DecidableEq α]

instance : DecidableEq (OrderedSet α) := fun a b =>
  decidable_of_iff (a.toList = b.toList) (by cases a; cases b; simp)

instance : Membership α (OrderedSet α) := ⟨fun s x => x ∈ s.toList⟩

instance (x : α) (s : OrderedSet α) : Decidable (x ∈ s) :=
  inferInstanceAs (Decidable (x ∈ s.toList))

def empty : OrderedSet α := ⟨[], .nil⟩

def size (s : OrderedSet α) : Nat := s.toList.length

def insert (s : OrderedSet α) (x : α) : OrderedSet α :=
  if h : x ∈ s.toList then s
  else ⟨s.toList ++ [x], by
    simpa [List.nodup_append, s.nodup] using fun a ha (eq : a = x) => h (eq ▸ ha)⟩

def erase (s : OrderedSet α) (x : α) : OrderedSet α :=
  ⟨s.toList.erase x, s.nodup.erase x⟩

def filter (s : OrderedSet α) (p : α → Bool) : OrderedSet α :=
  ⟨s.toList.filter p, s.nodup.filter p⟩

def insertAll (s : OrderedSet α) (xs : List α) : OrderedSet α := xs.foldl insert s

def ofList (xs : List α) : OrderedSet α := empty.insertAll xs

def remove? (s : OrderedSet α) (x : α) : Option (OrderedSet α) :=
  if x ∈ s then some (s.erase x) else none

def popFirst? (s : OrderedSet α) : Option (α × OrderedSet α) :=
  s.toList.head?.map fun x => (x, s.erase x)

def toggle (s : OrderedSet α) (x : α) : OrderedSet α :=
  if x ∈ s then s.erase x else s.insert x

/-! Two sets. -/

/-- The members of `s`, then those that only `t` has. -/
def union (s t : OrderedSet α) : OrderedSet α := s.insertAll t.toList

def restrict (s t : OrderedSet α) : OrderedSet α := s.filter fun x => decide (x ∈ t)

/-- The common members, in the order of `t`. -/
def inter (s t : OrderedSet α) : OrderedSet α := t.restrict s

def diff (s t : OrderedSet α) : OrderedSet α := s.filter fun x => decide (x ∉ t)

def symmDiff (s t : OrderedSet α) : OrderedSet α := (s.diff t).union (t.diff s)

def toggleAll (s t : OrderedSet α) : OrderedSet α := t.toList.foldl toggle s

def isSubset (s t : OrderedSet α) : Bool :=
  s.size ≤ t.size && s.toList.all fun x => decide (x ∈ t)

def isProperSubset (s t : OrderedSet α) : Bool := s.size < t.size && s.isSubset t

def sameMembers (s t : OrderedSet α) : Bool := s.size == t.size && s.isSubset t

def isDisjoint (s t : OrderedSet α) : Bool := t.toList.all fun x => decide (x ∉ s)

/-! What the operations do to the members. -/

omit [DecidableEq α] in
@[simp] theorem mem_toList {s : OrderedSet α} {x : α} : x ∈ s.toList ↔ x ∈ s := Iff.rfl

theorem toList_insert (s : OrderedSet α) (x : α) :
    (s.insert x).toList = if x ∈ s then s.toList else s.toList ++ [x] := by
  unfold insert
  split
  · rename_i h
    rw [if_pos (mem_toList.1 h)]
  · rename_i h
    rw [if_neg fun mem => h (mem_toList.2 mem)]

@[simp] theorem mem_insert {s : OrderedSet α} {x y : α} : y ∈ s.insert x ↔ y ∈ s ∨ y = x := by
  rw [← mem_toList, toList_insert]
  split
  · rename_i h
    constructor
    · exact .inl
    · rintro (mem | rfl)
      · exact mem
      · exact h
  · simp

@[simp] theorem mem_erase {s : OrderedSet α} {x y : α} : y ∈ s.erase x ↔ y ≠ x ∧ y ∈ s := by
  rw [← mem_toList, erase, s.nodup.mem_erase_iff]
  rfl

omit [DecidableEq α] in
@[simp] theorem mem_filter {s : OrderedSet α} {p : α → Bool} {x : α} :
    x ∈ s.filter p ↔ x ∈ s ∧ p x = true := by
  rw [← mem_toList, filter, List.mem_filter]
  rfl

theorem mem_insertAll {s : OrderedSet α} {xs : List α} {x : α} :
    x ∈ s.insertAll xs ↔ x ∈ s ∨ x ∈ xs := by
  induction xs generalizing s with
  | nil => simp [insertAll]
  | cons y xs ih =>
    rw [insertAll, List.foldl_cons, ← insertAll, ih, mem_insert, List.mem_cons, or_assoc]

@[simp] theorem mem_ofList {xs : List α} {x : α} : x ∈ ofList xs ↔ x ∈ xs := by
  rw [ofList, mem_insertAll]
  exact or_iff_right List.not_mem_nil

@[simp] theorem mem_union {s t : OrderedSet α} {x : α} : x ∈ s.union t ↔ x ∈ s ∨ x ∈ t :=
  mem_insertAll

@[simp] theorem mem_inter {s t : OrderedSet α} {x : α} : x ∈ s.inter t ↔ x ∈ s ∧ x ∈ t := by
  simp [inter, restrict, and_comm]

@[simp] theorem mem_diff {s t : OrderedSet α} {x : α} : x ∈ s.diff t ↔ x ∈ s ∧ x ∉ t := by
  simp [diff]

@[simp] theorem mem_symmDiff {s t : OrderedSet α} {x : α} :
    x ∈ s.symmDiff t ↔ (x ∈ s ∧ x ∉ t) ∨ (x ∈ t ∧ x ∉ s) := by
  simp [symmDiff]

@[simp] theorem mem_toggle {s : OrderedSet α} {x y : α} :
    y ∈ s.toggle x ↔ (y ∈ s ∧ y ≠ x) ∨ (y = x ∧ x ∉ s) := by
  unfold toggle
  split
  · rename_i h
    simp [h, and_comm]
  · rename_i h
    rw [mem_insert]
    constructor
    · rintro (mem | rfl)
      · exact .inl ⟨mem, fun eq => h (eq ▸ mem)⟩
      · exact .inr ⟨rfl, h⟩
    · rintro (⟨mem, _⟩ | ⟨rfl, _⟩)
      · exact .inl mem
      · exact .inr rfl

end OrderedSet
end SlotTree
