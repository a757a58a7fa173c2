import SlotTree.Store.Basic

/-!
Paths down from a node. `nodeAt` is the view by which two trees are compared position by position:
they have the same outline when the same paths lead somewhere in both, and to nodes with one
payload and one number of children per slot.

`descend` is the checked walk, which reports the first step that leads nowhere; it succeeds exactly
along the paths of `nodeAt`.
-/

namespace SlotTree

abbrev Path := List (Nat × Nat)

namespace Store

/-- Walks steps of slot and position, and fails at the first that is out of range. -/
def descend (s : Store) (x : NodeId) : List (Int × Int) → Except Fault NodeId
  | [] => .ok x
  | (slot, index) :: steps =>
    match s.readChild x index slot with
    | .ok child => s.descend child steps
    | .error e => .error e

def childAt (s : Store) (x : NodeId) (slot index : Nat) : Option NodeId := (s.slot x slot)[index]?

/-- The node at the end of a path, if the path exists. -/
def nodeAt (s : Store) (x : NodeId) : Path → Option NodeId
  | [] => some x
  | (slot, index) :: p => (s.childAt x slot index).bind fun child => s.nodeAt child p

def SameOutline (s t : Store) (x y : NodeId) : Prop :=
  s.payload x = t.payload y ∧ s.childCounts x = t.childCounts y

instance (s t : Store) (x y : NodeId) : Decidable (s.SameOutline t x y) :=
  inferInstanceAs (Decidable (_ ∧ _))

/-- The same paths lead somewhere, and always to nodes of the same outline. -/
def SameTree (s t : Store) (x y : NodeId) : Prop :=
  ∀ p, Option.Rel (s.SameOutline t) (s.nodeAt x p) (t.nodeAt y p)

/-- `y` is `x` or stands somewhere below it. -/
inductive Reaches (s : Store) : NodeId → NodeId → Prop where
  | refl (x : NodeId) : Reaches s x x
  | step {x y z : NodeId} : y ∈ s.children x → Reaches s y z → Reaches s x z

/-- No node stands below itself. -/
def Acyclic (s : Store) : Prop := ∀ x, ∀ y ∈ s.children x, ¬ s.Reaches y x

/-- Every child is a node of the store. -/
def Closed (s : Store) : Prop := ∀ x, ∀ y ∈ s.children x, y < s.count

@[simp] theorem nodeAt_nil (s : Store) (x : NodeId) : s.nodeAt x [] = some x := rfl

theorem nodeAt_append (s : Store) (x : NodeId) (p q : Path) :
    s.nodeAt x (p ++ q) = (s.nodeAt x p).bind fun y => s.nodeAt y q := by
  induction p generalizing x with
  | nil => rfl
  | cons step p ih =>
    obtain ⟨slot, index⟩ := step
    simp only [List.cons_append, nodeAt]
    cases s.childAt x slot index with
    | none => rfl
    | some child => exact ih child

theorem nodeAt_concat {s : Store} {x y : NodeId} {p : Path} (h : s.nodeAt x p = some y)
    (slot index : Nat) : s.nodeAt x (p ++ [(slot, index)]) = s.childAt y slot index := by
  simp [nodeAt_append, h, nodeAt]

theorem mem_children_iff {s : Store} {x y : NodeId} :
    y ∈ s.children x ↔ ∃ slot index, s.childAt x slot index = some y := by
  rw [children, ← Node.edges_child, List.mem_map]
  constructor
  · rintro ⟨e, he, rfl⟩
    exact ⟨e.slot, e.index, Node.mem_edges.1 he⟩
  · rintro ⟨slot, index, h⟩
    exact ⟨⟨slot, index, y⟩, Node.mem_edges.2 h, rfl⟩

theorem Reaches.trans {s : Store} {x y z : NodeId} (hxy : s.Reaches x y) (hyz : s.Reaches y z) :
    s.Reaches x z := by
  induction hxy with
  | refl => exact hyz
  | step hc _ ih => exact .step hc (ih hyz)

theorem reaches_iff_nodeAt {s : Store} {x y : NodeId} :
    s.Reaches x y ↔ ∃ p, s.nodeAt x p = some y := by
  constructor
  · intro h
    induction h with
    | refl => exact ⟨[], rfl⟩
    | step hc _ ih =>
      obtain ⟨slot, index, at_child⟩ := mem_children_iff.1 hc
      obtain ⟨p, hp⟩ := ih
      exact ⟨(slot, index) :: p, by simp [nodeAt, at_child, hp]⟩
  · rintro ⟨p, hp⟩
    induction p generalizing x with
    | nil =>
      cases hp
      exact .refl _
    | cons step p ih =>
      obtain ⟨child, at_child, hp⟩ := Option.bind_eq_some_iff.1 hp
      exact .step (mem_children_iff.2 ⟨_, _, at_child⟩) (ih hp)

theorem descend_eq_ok_iff {s : Store} {x y : NodeId} {steps : List (Int × Int)} :
    s.descend x steps = .ok y ↔
      ∃ p : Path, steps = p.map (fun q => ((q.1 : Int), (q.2 : Int))) ∧ s.nodeAt x p = some y := by
  induction steps generalizing x with
  | nil =>
    simp only [descend, Except.ok.injEq]
    constructor
    · rintro rfl
      exact ⟨[], rfl, rfl⟩
    · rintro ⟨p, hp, at_end⟩
      cases List.map_eq_nil_iff.1 hp.symm
      exact Option.some.inj at_end
  | cons step steps ih =>
    obtain ⟨slot, index⟩ := step
    cases h : s.readChild x index slot with
    | error e =>
      simp only [descend, h, reduceCtorEq, false_iff]
      rintro ⟨p, hp, at_end⟩
      cases p with
      | nil => cases hp
      | cons q p =>
        simp only [List.map_cons, List.cons.injEq, Prod.mk.injEq] at hp
        obtain ⟨child, at_child, _⟩ := Option.bind_eq_some_iff.1 at_end
        rw [readChild_eq_ok_iff.2 ⟨q.1, q.2, hp.1.1, hp.1.2, at_child⟩] at h
        cases h
    | ok child =>
      obtain ⟨i, j, rfl, rfl, at_child⟩ := readChild_eq_ok_iff.1 h
      simp only [descend, h]
      rw [ih]
      constructor
      · rintro ⟨p, rfl, at_end⟩
        exact ⟨(i, j) :: p, rfl, by simp [nodeAt, childAt, at_child, at_end]⟩
      · rintro ⟨p, hp, at_end⟩
        cases p with
        | nil => cases hp
        | cons q p =>
          simp only [List.map_cons, List.cons.injEq, Prod.mk.injEq, Int.natCast_inj] at hp
          obtain ⟨⟨rfl, rfl⟩, rfl⟩ := hp
          refine ⟨p, rfl, ?_⟩
          simpa [nodeAt, childAt, at_child] using at_end

end Store
end SlotTree
