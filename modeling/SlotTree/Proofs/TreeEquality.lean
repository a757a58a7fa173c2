import SlotTree.Proofs.Endings
import SlotTree.Proofs.PayloadLaws

/-!
Equality of trees as a relation. Two nodes are equal when they are one node, or when they are alike
and their children are equal at every position; so a node that carries `nan` equals itself and
nothing else. The relation is an equivalence, the comparison decides it, and where no `nan` is met
it says that the same paths lead to alike payloads and as many slots.
-/

namespace SlotTree.Store

variable {s : Store} {x y z a b : NodeId}

abbrev Alike (s : Store) : NodeId → NodeId → Prop :=
  s.AlikeBy (fun p q => p.alike q = true) s.payload

/-- One node, or alike nodes with equal children at every position. -/
abbrev TreeEq (s : Store) : NodeId → NodeId → Prop :=
  s.TreeEqBy (fun p q => p.alike q = true) s.payload

theorem TreeEq.symm (h : s.TreeEq x y) : s.TreeEq y x := TreeEqBy.symm Payload.laws h

theorem TreeEq.trans (h : s.TreeEq x y) (h' : s.TreeEq y z) : s.TreeEq x z :=
  TreeEqBy.trans Payload.laws h h'

theorem treeEq_iff_of_alike (alike : s.Alike x y) :
    s.TreeEq x y ↔ ∀ pair ∈ (List.range (s.slotCount x)).flatMap (s.childPairs x y),
      s.TreeEq pair.1 pair.2 := by
  refine ⟨fun h pair mem => ?_, fun h => .alike alike fun slot index a b ha hb => ?_⟩
  · obtain ⟨slot, -, mem⟩ := List.mem_flatMap.1 mem
    obtain ⟨index, ha, hb⟩ := mem_childPairs.1 mem
    exact h.child ha hb
  · have within := List.mem_range.2 (lt_slotCount_of_childAt ha)
    exact h (a, b) (List.mem_flatMap.2 ⟨slot, within, mem_childPairs.2 ⟨index, ha, hb⟩⟩)

/-! The comparison with its stack. -/

theorem pairSlots_of_size_ne {slots : List (Array NodeId × Array NodeId)}
    (h : ∃ pair ∈ slots, pair.1.size ≠ pair.2.size) : pairSlots slots = .ok none := by
  induction slots with
  | nil =>
    obtain ⟨pair, mem, -⟩ := h
    exact absurd mem List.not_mem_nil
  | cons pair slots ih =>
    obtain ⟨left, right⟩ := pair
    by_cases size_eq : left.size = right.size
    · have later : ∃ pair ∈ slots, pair.1.size ≠ pair.2.size := by
        obtain ⟨pair, mem, ne⟩ := h
        obtain rfl | mem := List.mem_cons.1 mem
        · exact absurd size_eq ne
        · exact ⟨pair, mem, ne⟩
      rw [pairSlots, if_pos size_eq, pairOff_eq_zip (by simpa using size_eq), ih later]
      rfl
    · rw [pairSlots, if_neg size_eq]

theorem size_slot_of_le {i : Nat} (h : s.slotCount x ≤ i) : (s.slot x i).size = 0 := by
  rw [Store.slot, Node.slot_of_le h]
  rfl

@[simp] theorem equalVisit_same (x : NodeId) : s.equalVisit () (x, x) = .next () [] := by
  simp [equalVisit]

theorem equalVisit_of_slotCount (ne : x ≠ y) (payload : (s.payload x).alike (s.payload y) = true)
    (slotCount : s.slotCount x = s.slotCount y) :
    s.equalVisit () (x, y) =
      match pairSlots ((List.range (s.slotCount x)).map fun i => (s.slot x i, s.slot y i)) with
      | .error e => .stop (.error e)
      | .ok none => .stop (.ok false)
      | .ok (some pairs) => .next () pairs.reverse := by
  have as_many : ¬ s.slotCount x ≠ s.slotCount y := not_not.2 slotCount
  simp only [equalVisit, if_neg ne, payload, Bool.not_true, Bool.false_eq_true, if_false,
    if_neg as_many, pairOff_slots slotCount]
  rfl

theorem equalVisit_alike (ne : x ≠ y) (alike : s.Alike x y) :
    s.equalVisit () (x, y) =
      .next () ((List.range (s.slotCount x)).flatMap (s.childPairs x y)).reverse := by
  have sizes : ∀ pair ∈ (List.range (s.slotCount x)).map fun i => (s.slot x i, s.slot y i),
      pair.1.size = pair.2.size := by
    intro pair mem
    obtain ⟨i, -, rfl⟩ := List.mem_map.1 mem
    exact alike.size i
  rw [equalVisit_of_slotCount ne alike.payload alike.slotCount, pairSlots_of_sizes sizes,
    List.flatMap_map]
  rfl

theorem exists_size_ne (unlike : ¬ s.Alike x y)
    (payload : (s.payload x).alike (s.payload y) = true)
    (slotCount : s.slotCount x = s.slotCount y) :
    ∃ pair ∈ (List.range (s.slotCount x)).map fun i => (s.slot x i, s.slot y i),
      pair.1.size ≠ pair.2.size := by
  by_contra none
  refine unlike ⟨payload, slotCount, fun i => ?_⟩
  by_cases within : i < s.slotCount x
  · by_contra ne
    exact none ⟨_, List.mem_map_of_mem (List.mem_range.2 within), ne⟩
  · have beyond := Nat.le_of_not_lt within
    rw [size_slot_of_le beyond, size_slot_of_le (slotCount ▸ beyond)]

theorem equalVisit_unlike (ne : x ≠ y) (unlike : ¬ s.Alike x y) :
    s.equalVisit () (x, y) = .stop (.ok false) := by
  by_cases payload : (s.payload x).alike (s.payload y) = true
  · by_cases slotCount : s.slotCount x = s.slotCount y
    · rw [equalVisit_of_slotCount ne payload slotCount,
        pairSlots_of_size_ne (exists_size_ne unlike payload slotCount)]
    · simp [equalVisit, ne, payload, slotCount]
  · simp [equalVisit, ne, payload]

inductive Compared (s : Store) (pairs : List (NodeId × NodeId)) : Prop where
  | equal : (∀ pair ∈ pairs, s.TreeEq pair.1 pair.2) →
      Worklist.Ends s.equalVisit (fun pair => s.rank pair.1) () pairs (.left ()) →
      Compared s pairs
  | unequal : (∃ pair ∈ pairs, ¬ s.TreeEq pair.1 pair.2) →
      Worklist.Ends s.equalVisit (fun pair => s.rank pair.1) () pairs (.answered (.ok false)) →
      Compared s pairs

theorem Compared.all {pairs : List (NodeId × NodeId)}
    (each : ∀ pair ∈ pairs, s.Compared [pair]) : s.Compared pairs := by
  induction pairs with
  | nil => exact .equal (fun pair mem => absurd mem List.not_mem_nil) (.nil ())
  | cons pair pairs ih =>
    have rest := ih fun pair' mem => each pair' (List.mem_cons_of_mem pair mem)
    cases each pair List.mem_cons_self with
    | unequal different ends =>
      obtain ⟨pair', mem, ne⟩ := different
      rw [List.mem_singleton.1 mem] at ne
      exact .unequal ⟨pair, List.mem_cons_self, ne⟩ (ends.append_answered pairs)
    | equal here ends =>
      cases rest with
      | equal others restEnds =>
        exact .equal (List.forall_mem_cons.2 ⟨here pair (List.mem_singleton.2 rfl), others⟩)
          (ends.append restEnds)
      | unequal different restEnds =>
        obtain ⟨pair', mem, ne⟩ := different
        exact .unequal ⟨pair', List.mem_cons_of_mem pair mem, ne⟩ (ends.append restEnds)

theorem compared (acyclic : s.Acyclic) (x y : NodeId) : s.Compared [(x, y)] := by
  induction x using acyclic.induction generalizing y with
  | step x ih =>
    by_cases same : x = y
    · subst same
      refine .equal (fun pair mem => ?_) (.next (equalVisit_same x) (by simp) (.nil ()))
      rw [List.mem_singleton.1 mem]
      exact .same x
    by_cases alike : s.Alike x y
    · have below := treeEq_iff_of_alike alike
      generalize hpairs : (List.range (s.slotCount x)).flatMap (s.childPairs x y) = pairs at below
      have visit := equalVisit_alike same alike
      rw [hpairs] at visit
      have child : ∀ pair ∈ pairs.reverse, pair.1 ∈ s.children x := by
        intro pair mem
        rw [List.mem_reverse, ← hpairs] at mem
        obtain ⟨slot, -, mem⟩ := List.mem_flatMap.1 mem
        exact left_of_mem_childPairs mem
      have lower : ∀ pair ∈ pairs.reverse, s.rank pair.1 < s.rank x :=
        fun pair mem => acyclic.rank_lt (child pair mem)
      -- the pairs below have children of `x` on their left, so the induction speaks for them
      cases Compared.all fun pair mem => ih pair.1 (child pair mem) pair.2 with
      | equal all ends =>
        refine .equal (fun pair mem => ?_) (.next visit lower (by rwa [List.append_nil]))
        rw [List.mem_singleton.1 mem]
        exact below.2 fun pair mem => all pair (List.mem_reverse.2 mem)
      | unequal different ends =>
        refine .unequal ⟨(x, y), List.mem_singleton.2 rfl, fun equal => ?_⟩
          (.next visit lower (by rwa [List.append_nil]))
        obtain ⟨pair, mem, ne⟩ := different
        exact ne (below.1 equal pair (List.mem_reverse.1 mem))
    · refine .unequal ⟨(x, y), List.mem_singleton.2 rfl, fun equal => ?_⟩
        (.stop [] (equalVisit_unlike same alike))
      exact alike (equal.alike_of_ne same)

/-- The comparison of two nodes answers whether they are equal. -/
theorem equal_eq_ok (acyclic : s.Acyclic) (x y : NodeId) :
    ∃ b, s.equal (some x) (some y) = .ok b ∧ (b = true ↔ s.TreeEq x y) := by
  have room : s.rank x ≤ s.pairBound := Nat.le_of_lt (s.rank_lt_pairBound x)
  cases compared acyclic x y with
  | equal all ends =>
    have walked := ends.walk (fun _ => .ok true) room
    refine ⟨true, ?_, iff_of_true rfl (all (x, y) (List.mem_singleton.2 rfl))⟩
    rw [equal, equalNodes, walked]
    rfl
  | unequal different ends =>
    have walked := ends.walk (fun _ => .ok true) room
    obtain ⟨pair, mem, ne⟩ := different
    rw [List.mem_singleton.1 mem] at ne
    refine ⟨false, ?_, iff_of_false Bool.false_ne_true ne⟩
    rw [equal, equalNodes, walked]
    rfl

theorem eq_ok_of_decides {outcome : Except Fault Bool} {answer : Bool} {P : Prop}
    (decides : ∃ b, outcome = .ok b ∧ (b = true ↔ P)) (right : answer = true ↔ P) :
    outcome = .ok answer := by
  obtain ⟨b, run, decided⟩ := decides
  rw [run, Bool.eq_iff_iff.2 (decided.trans right.symm)]

theorem equal_eq_true_iff (acyclic : s.Acyclic) :
    s.equal (some x) (some y) = .ok true ↔ s.TreeEq x y := by
  obtain ⟨b, run, decides⟩ := equal_eq_ok acyclic x y
  rw [run, Except.ok.injEq, decides]

/-! Equality by paths. -/

def Plain (s : Store) (x : NodeId) : Prop := ∀ z, s.Reaches x z → s.payload z ≠ .nan

def AgreeAt (s : Store) (x y : NodeId) : Prop :=
  (s.payload x).alike (s.payload y) = true ∧ s.slotCount x = s.slotCount y

structure PlainlyEqual (s : Store) (x y : NodeId) : Prop where
  equal : s.TreeEq x y
  plain : s.Plain x

theorem PlainlyEqual.childAt (h : s.PlainlyEqual x y) (slot index : Nat) :
    Option.Rel s.PlainlyEqual (s.childAt x slot index) (s.childAt y slot index) := by
  refine childAt_rel (h.equal.size slot) fun a b ha hb => ⟨h.equal.child ha hb, fun z reached => ?_⟩
  exact h.plain z (.step (mem_children_iff.2 ⟨slot, index, ha⟩) reached)

theorem PlainlyEqual.agreeAt (h : s.PlainlyEqual x y) : s.AgreeAt x y := by
  cases h.equal with
  | same => exact ⟨Payload.alike_self_iff.2 (h.plain x (.refl x)), rfl⟩
  | alike alike _ => exact ⟨alike.payload, alike.slotCount⟩

theorem PlainlyEqual.nodeAt (h : s.PlainlyEqual x y) (p : Path) :
    Option.Rel s.PlainlyEqual (s.nodeAt x p) (s.nodeAt y p) :=
  nodeAt_rel (fun h => h.childAt) h p

theorem PlainlyEqual.agree (h : s.PlainlyEqual x y) (p : Path) :
    Option.Rel s.AgreeAt (s.nodeAt x p) (s.nodeAt y p) := by
  have related := h.nodeAt p
  generalize s.nodeAt x p = left, s.nodeAt y p = right at related ⊢
  cases related with
  | none => exact .none
  | some h => exact .some h.agreeAt

theorem treeEq_of_agree (acyclic : s.Acyclic)
    (h : ∀ p, Option.Rel s.AgreeAt (s.nodeAt x p) (s.nodeAt y p)) : s.TreeEq x y := by
  induction x using acyclic.induction generalizing y with
  | step x ih =>
    have top : s.AgreeAt x y := by
      cases h [] with
      | some agree => exact agree
    have size (slot : Nat) : (s.slot x slot).size = (s.slot y slot).size := by
      refine size_eq_of_childAt_rel (R := s.AgreeAt) fun index => ?_
      have one := h [(slot, index)]
      simpa [nodeAt] using one
    refine .alike ⟨top.1, top.2, size⟩ fun slot index a b ha hb => ?_
    refine ih a (mem_children_iff.2 ⟨slot, index, ha⟩) fun p => ?_
    have further := h ((slot, index) :: p)
    simpa [nodeAt, ha, hb] using further

/-- The comparison always answers, and answers by `TreeEq`; so it is an equivalence on all nodes.
Away from `nan` it says that the same paths lead to nodes that agree, whatever their kinds and
however the trees share them. -/
theorem equal_decides_treeEq {s : Store} (acyclic : s.Acyclic) :
    (∀ x y, ∃ b, s.equal (some x) (some y) = .ok b ∧ (b = true ↔ s.TreeEq x y)) ∧
    Equivalence (fun x y => s.equal (some x) (some y) = .ok true) ∧
    ∀ x y, (∀ z, s.Reaches x z ∨ s.Reaches y z → s.payload z ≠ .nan) →
      (s.equal (some x) (some y) = .ok true ↔
        ∀ p, Option.Rel s.AgreeAt (s.nodeAt x p) (s.nodeAt y p)) := by
  simp only [equal_eq_true_iff acyclic]
  refine ⟨equal_eq_ok acyclic, treeEqBy_equivalence Payload.laws s s.payload,
    fun x y numbers => ⟨fun equal => ?_, ?_⟩⟩
  · have plainly : s.PlainlyEqual x y := ⟨equal, fun z reached => numbers z (.inl reached)⟩
    exact plainly.agree
  · exact treeEq_of_agree acyclic

theorem equal_decides_treeEq_trellis :
    trellis.Acyclic ∧
    (∀ x y, ∃ b, trellis.equal (some x) (some y) = .ok b ∧ (b = true ↔ trellis.TreeEq x y)) ∧
    Equivalence (fun x y => trellis.equal (some x) (some y) = .ok true) ∧
    (∀ z, trellis.Reaches 0 z ∨ trellis.Reaches 3 z → trellis.payload z ≠ .nan) ∧
    (trellis.equal (some 0) (some 3) = .ok true ↔
      ∀ p, Option.Rel trellis.AgreeAt (trellis.nodeAt 0 p) (trellis.nodeAt 3 p)) := by
  have acyclic := trellis_closed_acyclic.2
  have leaf {x z : NodeId} (childless : trellis.children x = []) (h : trellis.Reaches x z) :
      x = z := by
    cases h with
    | refl => rfl
    | step child _ =>
      rw [childless] at child
      exact absurd child List.not_mem_nil
  have numbers : ∀ z, trellis.Reaches 0 z ∨ trellis.Reaches 3 z → trellis.payload z ≠ .nan := by
    intro z reached
    obtain reached | reached := reached <;> cases leaf rfl reached <;> decide
  obtain ⟨decides, equivalence, paths⟩ := equal_decides_treeEq acyclic
  exact ⟨acyclic, decides, equivalence, numbers, paths 0 3 numbers⟩

end SlotTree.Store
