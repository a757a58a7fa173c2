import Mathlib.Algebra.GroupWithZero.Nat
import SlotTree.Proofs.Likeness
import SlotTree.Proofs.Steps

/-!
The order in which a copy is made, as a recursion over paths: the children of a node, slot by slot
and in order, then what is below each of them, from the last child to the first. Every path of a
tree comes up once, so the length of the order is the number of paths.
-/

namespace SlotTree.Store

variable {s : Store} {x : NodeId} {p : Path}

/-- The paths below a node: to its children, then below each child, the last one first. -/
def walkBelow (s : Store) (acyclic : s.Acyclic) (x : NodeId) : List Path :=
  (s.edges x).map (fun e => [e.step]) ++
    (s.edges x).reverse.attach.flatMap fun e =>
      (walkBelow s acyclic e.1.child).map (e.1.step :: ·)
termination_by s.rank x
decreasing_by exact acyclic.rank_lt (child_of_mem_edges (List.mem_reverse.1 e.2))

variable (acyclic : s.Acyclic)

theorem walkBelow_eq (x : NodeId) :
    s.walkBelow acyclic x = (s.edges x).map (fun e => [e.step]) ++
      (s.edges x).reverse.flatMap fun e => (s.walkBelow acyclic e.child).map (e.step :: ·) := by
  rw [walkBelow]
  congr 1
  exact List.flatMap_subtype (fun _ _ => rfl) |>.trans (by rw [List.unattach_attach])

def copyOrder (s : Store) (acyclic : s.Acyclic) (x : NodeId) : List Path :=
  [] :: s.walkBelow acyclic x

@[simp] theorem mem_copyOrder : p ∈ s.copyOrder acyclic x ↔ (s.nodeAt x p).isSome := by
  induction x using acyclic.induction generalizing p with
  | step x ih =>
    cases p with
    | nil => simp [copyOrder, nodeAt]
    | cons step p =>
      have below (e : Edge) (he : e ∈ s.edges x) := @ih e.child (child_of_mem_edges he) p
      rw [isSome_nodeAt_cons_iff, copyOrder, walkBelow_eq]
      simp only [List.mem_cons, List.mem_append, List.mem_map, List.mem_flatMap, List.mem_reverse,
        reduceCtorEq, false_or, List.cons.injEq]
      refine ⟨fun h => ?_, fun h => ?_⟩
      · obtain ⟨e, he, eq, rfl⟩ | ⟨e, he, q, hq, eq, rfl⟩ := h
        · exact ⟨e, he, eq, rfl⟩
        · exact ⟨e, he, eq, (below e he).1 (List.mem_cons_of_mem _ hq)⟩
      · obtain ⟨e, he, eq, some⟩ := h
        obtain rfl | mem := List.mem_cons.1 ((below e he).2 some)
        · exact .inl ⟨e, he, eq, rfl⟩
        · exact .inr ⟨e, he, p, mem, eq, rfl⟩

theorem copyOrder_nodup (x : NodeId) : (s.copyOrder acyclic x).Nodup := by
  induction x using acyclic.induction with
  | step x ih =>
    have distinct : (s.edges x).Pairwise fun a b => a.step ≠ b.step :=
      List.pairwise_map.1 (s.node x).steps_nodup
    have below (e : Edge) (he : e ∈ s.edges x) :
        [] ∉ s.walkBelow acyclic e.child ∧ (s.walkBelow acyclic e.child).Nodup :=
      List.nodup_cons.1 (ih e.child (child_of_mem_edges he))
    rw [copyOrder, walkBelow_eq, List.nodup_cons]
    refine ⟨by simp, ?_⟩
    refine List.nodup_append'.2 ⟨?_, List.nodup_flatMap.2 ⟨?_, ?_⟩, ?_⟩
    · exact List.pairwise_map.2 (distinct.imp fun ne eq => ne (List.cons.inj eq).1)
    · intro e he
      refine (below e (List.mem_reverse.1 he)).2.map ?_
      intro p q eq
      exact (List.cons.inj eq).2
    · refine List.pairwise_reverse.2 (distinct.imp ?_)
      intro a b ne p hb ha
      obtain ⟨q, -, rfl⟩ := List.mem_map.1 hb
      obtain ⟨q', -, eq⟩ := List.mem_map.1 ha
      exact ne (List.cons.inj eq).1
    · -- a path below a child has a further step
      intro p hp hq
      obtain ⟨e, -, rfl⟩ := List.mem_map.1 hp
      obtain ⟨e', he', q, hq, eq⟩ : ∃ e' ∈ s.edges x, ∃ q ∈ s.walkBelow acyclic e'.child,
          e'.step :: q = [e.step] := by simpa using hq
      rw [(List.cons.inj eq).2] at hq
      exact (below e' he').1 hq

theorem length_copyOrder (x : NodeId) :
    (s.copyOrder acyclic x).length =
      1 + ((s.children x).map fun y => (s.copyOrder acyclic y).length).sum := by
  have sizes (es : List Edge) :
      (es.map fun e => (s.walkBelow acyclic e.child).length).sum + es.length =
        ((es.map Edge.child).map fun y => (s.copyOrder acyclic y).length).sum := by
    induction es with
    | nil => rfl
    | cons e es ih =>
      simp only [List.map_cons, List.sum_cons, List.length_cons]
      rw [← ih, copyOrder, List.length_cons]
      omega
  have total := sizes (s.edges x)
  have childs : (s.edges x).map Edge.child = s.children x := Node.edges_child _
  rw [childs] at total
  rw [copyOrder, walkBelow_eq, List.length_cons, List.length_append, List.length_map,
    List.length_flatMap]
  simp only [List.length_map, List.map_reverse, List.sum_reverse]
  omega

end SlotTree.Store
