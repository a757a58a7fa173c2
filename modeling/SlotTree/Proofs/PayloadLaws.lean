import SlotTree.Compare.Fingerprint
import SlotTree.Proofs.ChildPairs
import SlotTree.Proofs.Likeness

/-!
What trees ask of the payloads that their nodes carry. Equality of trees is stated here over
payloads of any type, with any relation that tells which are alike and any function that labels them
for hashing; that it is an equivalence and that equal nodes are labelled alike rests on three laws
and on nothing else. Reflexivity is none of them: a node equals itself because it is the same node.

Values and `nan` have these laws.
-/

namespace SlotTree

structure PayloadLaws {P L : Type} (like : P → P → Prop) (label : P → L) : Prop where
  symm : ∀ {p q}, like p q → like q p
  trans : ∀ {p q r}, like p q → like q r → like p r
  /-- Alike payloads are equally hashable, and by the same label. -/
  label_eq : ∀ {p q}, like p q → label p = label q

namespace Store

variable {s : Store} {x y z a b : NodeId} {P L : Type} {like : P → P → Prop} {label : P → L}
  {data : NodeId → P}

structure AlikeBy (s : Store) (like : P → P → Prop) (data : NodeId → P) (x y : NodeId) : Prop where
  payload : like (data x) (data y)
  slotCount : s.slotCount x = s.slotCount y
  size : ∀ i, (s.slot x i).size = (s.slot y i).size

/-- One node, or alike nodes with equal children at every position. -/
inductive TreeEqBy (s : Store) (like : P → P → Prop) (data : NodeId → P) :
    NodeId → NodeId → Prop where
  | same (x : NodeId) : TreeEqBy s like data x x
  | alike {x y : NodeId} : s.AlikeBy like data x y →
      (∀ slot index a b, s.childAt x slot index = some a → s.childAt y slot index = some b →
        TreeEqBy s like data a b) → TreeEqBy s like data x y

namespace TreeEqBy

theorem alike_of_ne (h : s.TreeEqBy like data x y) (ne : x ≠ y) : s.AlikeBy like data x y := by
  cases h with
  | same => exact absurd rfl ne
  | alike alike _ => exact alike

theorem slotCount (h : s.TreeEqBy like data x y) : s.slotCount x = s.slotCount y := by
  cases h with
  | same => rfl
  | alike alike _ => exact alike.slotCount

theorem size (h : s.TreeEqBy like data x y) (slot : Nat) :
    (s.slot x slot).size = (s.slot y slot).size := by
  cases h with
  | same => rfl
  | alike alike _ => exact alike.size slot

theorem child (h : s.TreeEqBy like data x y) {slot index : Nat}
    (ha : s.childAt x slot index = some a) (hb : s.childAt y slot index = some b) :
    s.TreeEqBy like data a b := by
  cases h with
  | same =>
    cases ha.symm.trans hb
    exact .same a
  | alike _ children => exact children slot index a b ha hb

theorem childAt (h : s.TreeEqBy like data x y) (slot index : Nat) :
    Option.Rel (s.TreeEqBy like data) (s.childAt x slot index) (s.childAt y slot index) :=
  childAt_rel (h.size slot) fun _ _ => h.child

theorem nodeAt (h : s.TreeEqBy like data x y) (p : Path) :
    Option.Rel (s.TreeEqBy like data) (s.nodeAt x p) (s.nodeAt y p) :=
  nodeAt_rel (fun h => h.childAt) h p

end TreeEqBy

section Laws

variable (laws : PayloadLaws like label)
include laws

theorem AlikeBy.symm (h : s.AlikeBy like data x y) : s.AlikeBy like data y x :=
  ⟨laws.symm h.payload, h.slotCount.symm, fun i => (h.size i).symm⟩

theorem AlikeBy.trans (h : s.AlikeBy like data x y) (h' : s.AlikeBy like data y z) :
    s.AlikeBy like data x z :=
  ⟨laws.trans h.payload h'.payload, h.slotCount.trans h'.slotCount,
    fun i => (h.size i).trans (h'.size i)⟩

theorem TreeEqBy.symm (h : s.TreeEqBy like data x y) : s.TreeEqBy like data y x := by
  induction h with
  | same x => exact .same x
  | alike alike _ ih =>
    exact .alike (alike.symm laws) fun slot index a b ha hb => ih slot index b a hb ha

theorem TreeEqBy.trans (h : s.TreeEqBy like data x y) (h' : s.TreeEqBy like data y z) :
    s.TreeEqBy like data x z := by
  induction h generalizing z with
  | same => exact h'
  | @alike x y alike children ih =>
    cases h' with
    | same => exact .alike alike children
    | alike alike' children' =>
      refine .alike (alike.trans laws alike') fun slot index a c ha hc => ?_
      -- the node between stands at the same position of `y`
      have middle := childAt_rel (R := s.TreeEqBy like data) (alike.size slot) (children slot index)
      rw [ha] at middle
      obtain ⟨b, hb, -⟩ := exists_right_of_rel middle
      exact ih slot index a b ha hb (children' slot index b c hb hc)

theorem TreeEqBy.label_eq (h : s.TreeEqBy like data x y) : label (data x) = label (data y) := by
  cases h with
  | same => rfl
  | alike alike _ => exact laws.label_eq alike.payload

theorem treeEqBy_equivalence (s : Store) (data : NodeId → P) :
    Equivalence (s.TreeEqBy like data) :=
  ⟨.same, .symm laws, .trans laws⟩

end Laws

end Store

namespace Payload

theorem label_eq_of_alike {p q : Payload} (h : p.alike q = true) : p.label = q.label := by
  obtain ⟨number, canonical⟩ := alike_iff.1 h
  have scalar : p.isScalar = q.isScalar := by
    rw [← isScalar_canonical p, canonical, isScalar_canonical]
  unfold label
  by_cases hq : q.isScalar = true
  · rw [if_pos (scalar.trans hq), if_pos hq, canonical]
  · have hp : ¬ p.isScalar = true := fun hp => hq (scalar.symm.trans hp)
    rw [if_neg hp, if_neg hq]
    -- what is no scalar is an array or an object, and stays one in its canonical form
    match p, q with
    | .value (.array _), .value (.array _) => rfl
    | .value (.object _), .value (.object _) => rfl
    | .value (.array _), .value (.object _) =>
      simp [Payload.canonical, Value.canonical] at canonical
    | .value (.object _), .value (.array _) =>
      simp [Payload.canonical, Value.canonical] at canonical

theorem laws : PayloadLaws (fun p q : Payload => p.alike q = true) Payload.label :=
  ⟨alike_symm, alike_trans, label_eq_of_alike⟩

end Payload
end SlotTree
