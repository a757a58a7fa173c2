import SlotTree.Copy.Unfold
import SlotTree.Proofs.CopyOrder

/-!
One visit of a copy: the children of a source node are made, with consecutive numbers, and attached
to its copy. Other nodes stay as they are, and a copy that was blank before ends up with the
outline of its source, each position holding the copy made for the child there.
-/

namespace SlotTree

def newPairs (base : Nat) (edges : List Edge) : List CopyPair :=
  (edges.zipIdx base).map fun (edge, copy) => ⟨edge.child, copy⟩

@[simp] theorem length_newPairs (base : Nat) (edges : List Edge) :
    (newPairs base edges).length = edges.length := by
  rw [newPairs, List.length_map, List.length_zipIdx]

@[simp] theorem newPairs_copies (base : Nat) (edges : List Edge) :
    (newPairs base edges).map CopyPair.copy = List.range' base edges.length := by
  rw [newPairs, List.map_map, ← List.zipIdx_map_snd base edges]
  rfl

theorem copy_of_mem_newPairs {base : Nat} {edges : List Edge} {pair : CopyPair}
    (h : pair ∈ newPairs base edges) : base ≤ pair.copy ∧ pair.copy < base + edges.length := by
  rw [← List.mem_range'_1, ← newPairs_copies]
  exact List.mem_map_of_mem h

theorem mem_newPairs_iff {base : Nat} {edges : List Edge} {pair : CopyPair} :
    pair ∈ newPairs base edges ↔
      ∃ e, (e, pair.copy) ∈ edges.zipIdx base ∧ pair.source = e.child := by
  obtain ⟨source, copy⟩ := pair
  refine ⟨fun h => ?_, fun ⟨e, he, eq⟩ =>
    List.mem_map.2 ⟨(e, copy), he, congrArg (CopyPair.mk · copy) eq.symm⟩⟩
  obtain ⟨⟨e, c⟩, he, eq⟩ := List.mem_map.1 h
  cases eq
  exact ⟨e, he, rfl⟩

namespace Store

variable {s store after : Store} {parent x : NodeId} {edges : List Edge}

/-- What is in place after copies of the children in `edges` are attached to `parent`. -/
structure Attached (store : Store) (parent : NodeId) (edges : List Edge) (after : Store) :
    Prop where
  count : after.count = store.count + edges.length
  grown : store.Extends after
  others : ∀ z < store.count, z ≠ parent → after.node z = store.node z
  fresh : ∀ e c, (e, c) ∈ edges.zipIdx store.count →
    after.node c = .blank (store.payload e.child) (store.slotCount e.child)
  slot : ∀ i < store.slotCount parent, (after.slot parent i).toList =
    (store.slot parent i).toList ++
      ((edges.zipIdx store.count).filter fun (e, _) => e.slot == i).map Prod.snd

def attachOne (store : Store) (parent : NodeId) (edge : Edge) : Store :=
  (store.add (.blank (store.payload edge.child) (store.slotCount edge.child))).2.grow
    parent edge.slot store.count

theorem count_attachOne (store : Store) (parent : NodeId) (edge : Edge) :
    (store.attachOne parent edge).count = store.count + 1 := by
  simp [attachOne]

theorem extends_attachOne (store : Store) (parent : NodeId) (edge : Edge) :
    store.Extends (store.attachOne parent edge) :=
  (Extends.add store _).trans (Extends.grow _ parent edge.slot store.count)

theorem node_attachOne (store : Store) {parent : NodeId} (edge : Edge) {z : NodeId}
    (ne : z ≠ parent) : (store.attachOne parent edge).node z =
      if z = store.count then .blank (store.payload edge.child) (store.slotCount edge.child)
      else store.node z := by
  rw [attachOne, node_grow_of_ne ne, node_add]

theorem slot_attachOne (store : Store) {parent : NodeId} (hp : parent < store.count) {edge : Edge}
    (hslot : edge.slot < store.slotCount parent) (i : Nat) :
    ((store.attachOne parent edge).slot parent i).toList =
      (store.slot parent i).toList ++ if edge.slot = i then [store.count] else [] := by
  have old : (store.add (.blank (store.payload edge.child) (store.slotCount edge.child))).2.node
      parent = store.node parent := node_add_of_lt hp _
  rw [attachOne, slot, node_grow, if_pos rfl, old, Node.slot_grow, slot]
  by_cases eq : edge.slot = i
  · rw [if_pos ⟨eq.symm, hslot⟩, if_pos eq, eq, Array.toList_push]
  · rw [if_neg (fun h => eq h.1.symm), if_neg eq, List.append_nil]

theorem attach_cons (hp : parent < store.count) (growable : store.kind parent = .growable)
    {edge : Edge} (hslot : edge.slot < store.slotCount parent) (pairs : Array CopyPair)
    (fresh : List CopyPair) (edges : List Edge) :
    Copying.attach parent ⟨store, pairs⟩ fresh (edge :: edges) =
      Copying.attach parent
        ⟨store.attachOne parent edge, pairs.push ⟨edge.child, store.count⟩⟩
        (⟨edge.child, store.count⟩ :: fresh) edges := by
  have kept := KeptIn.add store (.blank (store.payload edge.child) (store.slotCount edge.child))
  have appended : (store.add (.blank (store.payload edge.child)
        (store.slotCount edge.child))).2.append parent (some store.count) edge.slot =
      .ok (store.attachOne parent edge) := by
    refine append_eq_ok_iff.2 ⟨?_, store.count, edge.slot, rfl, rfl, ?_, rfl⟩
    · rw [kept.toExtends.kind_eq parent hp, growable]
    · rwa [kept.toExtends.slotCount_eq parent hp]
  have copied : store.add (.blank (store.payload edge.child) (store.slotCount edge.child)) =
      (store.count, (store.add (.blank (store.payload edge.child)
        (store.slotCount edge.child))).2) := rfl
  rw [Copying.attach, newLike_some, copied]
  simp only [bind, Except.bind, appended]

theorem Attached.nil (store : Store) (parent : NodeId) : store.Attached parent [] store where
  count := rfl
  grown := .refl store
  others _ _ _ := rfl
  fresh e c h := by simp at h
  slot i _ := by simp

theorem Attached.cons (hp : parent < store.count) {edge : Edge}
    (hslot : edge.slot < store.slotCount parent) (old : ∀ e ∈ edges, e.child < store.count)
    (attached : (store.attachOne parent edge).Attached parent edges after) :
    store.Attached parent (edge :: edges) after := by
  have one := count_attachOne store parent edge
  have ext := extends_attachOne store parent edge
  have earlier : store.count ≠ parent := Nat.ne_of_gt hp
  refine ⟨?count, ?grown, ?others, ?fresh, ?slot⟩
  case count =>
    rw [attached.count, one, List.length_cons]
    omega
  case grown => exact ext.trans attached.grown
  case others =>
    intro z hz ne
    rw [attached.others z (Nat.lt_of_lt_of_le hz ext.count_le) ne, node_attachOne store edge ne,
      if_neg (Nat.ne_of_lt hz)]
  -- the first copy stands at the end of the store, and later ones are made behind it
  case fresh =>
    intro e c h
    rw [List.zipIdx_cons, List.mem_cons] at h
    obtain eq | later := h
    · cases eq
      have inside : store.count < (store.attachOne parent edge).count := one ▸ Nat.lt_succ_self _
      rw [attached.others _ inside earlier, node_attachOne store edge earlier, if_pos rfl]
    · have child := old e (List.fst_mem_of_mem_zipIdx later)
      rw [← one] at later
      rw [attached.fresh e c later, ext.payload_eq _ child, ext.slotCount_eq _ child]
  case slot =>
    intro i hi
    rw [attached.slot i (ext.slotCount_eq parent hp ▸ hi), slot_attachOne store hp hslot,
      List.append_assoc, List.zipIdx_cons, one]
    congr 1
    by_cases eq : edge.slot = i
    · simp [eq]
    · simp [eq]

theorem attach_eq_ok (hp : parent < store.count) (growable : store.kind parent = .growable)
    (fit : ∀ e ∈ edges, e.slot < store.slotCount parent ∧ e.child < store.count)
    (pairs : Array CopyPair) (fresh : List CopyPair) :
    ∃ after, store.Attached parent edges after ∧
      Copying.attach parent ⟨store, pairs⟩ fresh edges =
        .ok (⟨after, pairs ++ (newPairs store.count edges).toArray⟩,
          (newPairs store.count edges).reverse ++ fresh) := by
  induction edges generalizing store pairs fresh with
  | nil => exact ⟨store, .nil store parent, by simp [Copying.attach, newPairs]⟩
  | cons edge edges ih =>
    have ext := extends_attachOne store parent edge
    have hslot := (fit edge List.mem_cons_self).1
    have others (e : Edge) (he : e ∈ edges) := fit e (List.mem_cons_of_mem edge he)
    have fit' : ∀ e ∈ edges, e.slot < (store.attachOne parent edge).slotCount parent ∧
        e.child < (store.attachOne parent edge).count := by
      intro e he
      rw [ext.slotCount_eq parent hp]
      exact ⟨(others e he).1, Nat.lt_of_lt_of_le (others e he).2 ext.count_le⟩
    obtain ⟨after, attached, run⟩ := ih (Nat.lt_of_lt_of_le hp ext.count_le)
      ((ext.kind_eq parent hp).trans growable) fit' (pairs.push ⟨edge.child, store.count⟩)
      (⟨edge.child, store.count⟩ :: fresh)
    refine ⟨after, .cons hp hslot (fun e he => (others e he).2) attached, ?_⟩
    rw [attach_cons hp growable hslot, run, count_attachOne]
    simp [newPairs, List.zipIdx_cons]

theorem childCounts_eq {s t : Store} {x y : NodeId} (slots : s.slotCount x = t.slotCount y)
    (sizes : ∀ i, (s.slot x i).size = (t.slot y i).size) : s.childCounts x = t.childCounts y := by
  have lengths : (s.childCounts x).length = (t.childCounts y).length := by
    simpa [childCounts, slotCount, Node.slotCount] using slots
  apply List.ext_getElem lengths
  intro i hi hi'
  have size := sizes i
  rw [size_slot, size_slot, List.getD_eq_getElem?_getD, List.getD_eq_getElem?_getD,
    List.getElem?_eq_getElem hi, List.getElem?_eq_getElem hi'] at size
  exact size

section Blank

variable (attached : store.Attached parent (s.edges x) after)
  (blank : store.node parent = .blank (s.payload x) (s.slotCount x)) (hp : parent < store.count)

def landed (s : Store) (x : NodeId) (base i : Nat) : List (Edge × Nat) :=
  ((s.edges x).zipIdx base).filter fun (e, _) => e.slot == i

theorem landed_edges (s : Store) (x : NodeId) (base i : Nat) :
    (s.landed x base i).map Prod.fst = Node.slotEdges i (s.slot x i).toList := by
  have filtered := Node.filter_edges (s.node x) i
  rw [← edges, ← List.zipIdx_map_fst base (s.edges x), List.filter_map] at filtered
  exact filtered

theorem length_landed (s : Store) (x : NodeId) (base i : Nat) :
    (s.landed x base i).length = (s.slot x i).size := by
  rw [← List.length_map Prod.fst, landed_edges, Node.slotEdges, List.length_map,
    List.length_zipIdx, Array.length_toList]

include attached blank hp

theorem Attached.slot_of_blank (i : Nat) :
    (after.slot parent i).toList = (s.landed x store.count i).map Prod.snd := by
  have slots : store.slotCount parent = s.slotCount x := by
    simp [slotCount, blank]
  by_cases inside : i < s.slotCount x
  · have empty : store.slot parent i = #[] := by simp [Store.slot, blank]
    rw [attached.slot i (slots ▸ inside), empty]
    rfl
  · have le : (after.node parent).slotCount ≤ i := by
      rw [← slotCount, attached.grown.slotCount_eq parent hp, slots]
      exact Nat.le_of_not_lt inside
    have none : s.landed x store.count i = [] := by
      rw [← List.length_eq_zero_iff, length_landed, Store.slot,
        Node.slot_of_le (Nat.le_of_not_lt inside), Array.size_empty]
    rw [none, Store.slot, Node.slot_of_le le]
    rfl

theorem Attached.outline : s.SameOutline after x parent := by
  have payload := attached.grown.payload_eq parent hp
  have slots := attached.grown.slotCount_eq parent hp
  refine ⟨?_, childCounts_eq ?_ ?_⟩
  · rw [payload, Store.payload, Store.payload, blank]
    rfl
  · rw [slots]
    simp [slotCount, blank]
  · intro i
    rw [← length_landed s x store.count, ← Array.length_toList,
      attached.slot_of_blank blank hp, List.length_map]

theorem Attached.childAt_of_blank {e : Edge} {c : Nat}
    (h : (e, c) ∈ (s.edges x).zipIdx store.count) :
    after.childAt parent e.slot e.index = some c := by
  have mem : (e, c) ∈ s.landed x store.count e.slot := List.mem_filter.2 ⟨h, by simp⟩
  obtain ⟨i, hi⟩ := List.mem_iff_getElem?.1 mem
  have index : e.index = i := by
    have edge : ((s.landed x store.count e.slot).map Prod.fst)[i]? = some e := by
      rw [List.getElem?_map, hi]
      rfl
    rw [landed_edges, Node.slotEdges, List.getElem?_map, List.getElem?_zipIdx,
      Option.map_map, Option.map_eq_some_iff] at edge
    obtain ⟨child, -, eq⟩ := edge
    rw [← eq]
    exact Nat.zero_add i
  rw [childAt, ← Array.getElem?_toList, attached.slot_of_blank blank hp, List.getElem?_map, index,
    hi]
  rfl

theorem Attached.nodeAt_step {t : Store} (grown : after.Extends t) {e : Edge} {c : Nat}
    (h : (e, c) ∈ (s.edges x).zipIdx store.count) (p : Path) :
    t.nodeAt parent (e.step :: p) = t.nodeAt c p := by
  rw [Edge.step, nodeAt, grown.childAt (attached.childAt_of_blank blank hp h)]
  rfl

theorem Attached.newPairs_ends {t : Store} (grown : after.Extends t) :
    (newPairs store.count (s.edges x)).map (fun pair => (some pair.source, some pair.copy)) =
      (s.edges x).map fun e => (s.nodeAt x [e.step], t.nodeAt parent [e.step]) := by
  rw [newPairs, List.map_map, ← List.zipIdx_map_fst store.count (s.edges x), List.map_map,
    List.zipIdx_map_fst]
  refine List.map_congr_left fun placed mem => ?_
  have he := List.fst_mem_of_mem_zipIdx mem
  simp only [Function.comp_apply]
  rw [nodeAt_cons_of_mem_edges he, attached.nodeAt_step blank hp grown mem]
  rfl

theorem Attached.newPairs_below {t : Store} (grown : after.Extends t) (below : NodeId → List Path) :
    ((newPairs store.count (s.edges x)).reverse.flatMap fun pair =>
        (below pair.source).map fun p => (s.nodeAt pair.source p, t.nodeAt pair.copy p)) =
      (s.edges x).reverse.flatMap fun e => (below e.child).map fun p =>
        (s.nodeAt x (e.step :: p), t.nodeAt parent (e.step :: p)) := by
  rw [newPairs, ← List.map_reverse, List.flatMap_map]
  conv_rhs => rw [← List.zipIdx_map_fst store.count (s.edges x), ← List.map_reverse,
    List.flatMap_map]
  refine List.flatMap_congr fun placed mem => List.map_congr_left fun p _ => ?_
  have mem := List.mem_reverse.1 mem
  rw [nodeAt_cons_of_mem_edges (List.fst_mem_of_mem_zipIdx mem),
    attached.nodeAt_step blank hp grown mem]

theorem Attached.mem_newPairs {i j : Nat} {a b : NodeId} (ha : s.childAt x i j = some a)
    (hb : after.childAt parent i j = some b) : ⟨a, b⟩ ∈ newPairs store.count (s.edges x) := by
  have edge : (⟨i, j, a⟩ : Edge) ∈ s.edges x := Node.mem_edges.2 ha
  rw [← List.zipIdx_map_fst store.count (s.edges x), List.mem_map] at edge
  obtain ⟨⟨e, c⟩, mem, rfl⟩ := edge
  have at_copy := attached.childAt_of_blank blank hp mem
  rw [hb] at at_copy
  cases at_copy
  exact List.mem_map.2 ⟨_, mem, rfl⟩

end Blank

end Store
end SlotTree
