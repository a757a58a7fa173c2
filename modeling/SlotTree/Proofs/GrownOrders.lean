import SlotTree.Proofs.AppendOnly
import SlotTree.Proofs.ChildPairs
import SlotTree.Proofs.ChildrenFirst

/-!
Children first, before and after an append. Wherever the node that has grown comes up, the order of
its new child is put in, once for each time; the order of the child itself is as it was, since the
node does not come up there. So it is for all children, and so for those of one slot.
-/

namespace SlotTree.Store

variable {s t : Store} {below below' : NodeId → List NodeId} {x c y : NodeId}

/-- `below'` leads where `below` leads, but from `x` to `c` once more. -/
structure OneMore (below below' : NodeId → List NodeId) (x c : NodeId) : Prop where
  others : ∀ y, y ≠ x → below' y = below y
  here : (below' x).Perm (c :: below x)

section Orders

variable (acyclic : s.Acyclic) (acyclic' : t.Acyclic) (descends : s.Descends below)
  (descends' : t.Descends below')

theorem OneMore.childrenFirst_of_notMem (more : OneMore below below' x c)
    (apart : x ∉ s.childrenFirst acyclic below descends y) :
    t.childrenFirst acyclic' below' descends' y = s.childrenFirst acyclic below descends y := by
  induction y using acyclic.induction with
  | step y ih =>
    rw [childrenFirst_eq, List.mem_append, List.mem_flatMap, List.mem_singleton, not_or] at apart
    have ne : y ≠ x := fun eq => apart.2 eq.symm
    rw [childrenFirst_eq, childrenFirst_eq, more.others y ne]
    congr 1
    refine List.flatMap_congr fun z mem => ih z (descends y z mem) fun inside => ?_
    exact apart.1 ⟨z, mem, inside⟩

theorem length_flatMap_of_each {f g : NodeId → List NodeId} {ys : List NodeId} {n : Nat}
    (each : ∀ y ∈ ys, (g y).length = (f y).length + (f y).count x * n) :
    (ys.flatMap g).length = (ys.flatMap f).length + (ys.flatMap f).count x * n := by
  induction ys with
  | nil => simp
  | cons y ys ih =>
    have here := each y List.mem_cons_self
    have others := ih fun z mem => each z (List.mem_cons_of_mem y mem)
    simp only [List.flatMap_cons, List.length_append, List.count_append, here, others, Nat.add_mul]
    omega

theorem OneMore.length_childrenFirst (more : OneMore below below' x c)
    (apart : x ∉ s.childrenFirst acyclic below descends c) (y : NodeId) :
    (t.childrenFirst acyclic' below' descends' y).length =
      (s.childrenFirst acyclic below descends y).length +
        (s.childrenFirst acyclic below descends y).count x *
          (s.childrenFirst acyclic below descends c).length := by
  induction y using acyclic.induction with
  | step y ih =>
    have inside := length_flatMap_of_each fun z mem => ih z (descends y z mem)
    rw [childrenFirst_eq acyclic' descends' y, childrenFirst_eq acyclic descends y]
    simp only [List.length_append, List.length_singleton, List.count_append, Nat.add_mul]
    by_cases here : y = x
    · -- at the node itself its new child comes up once more than below its old children
      subst here
      have grown := (more.here.flatMap_right (t.childrenFirst acyclic' below' descends')).length_eq
      rw [List.flatMap_cons, List.length_append,
        more.childrenFirst_of_notMem acyclic acyclic' descends descends' apart] at grown
      rw [grown, inside, List.count_singleton_self, Nat.one_mul]
      omega
    · rw [more.others y here, inside, List.count_singleton, if_neg (by simpa using here),
        Nat.zero_mul]
      omega

end Orders

/-! What an append adds. -/

theorem flatMap_perm_of_one_more {f g : Nat → List NodeId} {l : List Nat} {i : Nat}
    (nodup : l.Nodup) (mem : i ∈ l) (here : (g i).Perm (c :: f i))
    (others : ∀ j, j ≠ i → g j = f j) : (l.flatMap g).Perm (c :: l.flatMap f) := by
  induction l with
  | nil => exact absurd mem List.not_mem_nil
  | cons j l ih =>
    obtain ⟨out, nodup⟩ := List.nodup_cons.1 nodup
    rw [List.flatMap_cons, List.flatMap_cons]
    obtain rfl | further := List.mem_cons.1 mem
    · have rest : l.flatMap g = l.flatMap f :=
        List.flatMap_congr fun j mem => others j fun eq => out (eq ▸ mem)
      rw [rest]
      exact here.append_right _
    · rw [others j fun eq => out (eq ▸ further)]
      exact ((ih nodup further).append_left (f j)).trans List.perm_middle

theorem GrownBy.oneMore_children {i : Nat} (grown : s.GrownBy x i c t)
    (inside : i < s.slotCount x) : OneMore s.children t.children x c where
  others y ne := by rw [children, grown.others y ne, children]
  here := by
    rw [children_eq_flatMap, children_eq_flatMap, grown.slotCount]
    refine flatMap_perm_of_one_more List.nodup_range (List.mem_range.2 inside) ?_ fun j ne => ?_
    · rw [grown.slot, Array.toList_push]
      exact List.perm_append_singleton c _
    · rw [grown.other_slots j ne]

end SlotTree.Store
