import SlotTree.Proofs.Censuses

/-!
Cloning as a recursion with a memo. A node that the memo knows is not taken up again; for any other
one a clone without a state is noted down first, then the children are cloned in order, and at last
the clone is handed the payload and the slots of its source, with the clones in the place of the
children. Numbering the nodes by a census and making all clones at once comes to the same store.
-/

namespace SlotTree

namespace Store

variable {s t : Store}

def put (s : Store) (y : NodeId) (n : Node) : Store := ⟨s.nodes.setIfInBounds y n⟩

@[simp] theorem count_put (s : Store) (y : NodeId) (n : Node) : (s.put y n).count = s.count := by
  simp [put, count]

theorem node_put {y : NodeId} (hy : y < s.count) (n : Node) (z : NodeId) :
    (s.put y n).node z = if z = y then n else s.node z := by
  have within : y < s.nodes.size := hy
  simp only [put, node, Array.getD_eq_getD_getElem?, Array.getElem?_setIfInBounds]
  grind

theorem eq_of_node_eq (count : s.count = t.count) (node : ∀ z < s.count, s.node z = t.node z) :
    s = t := by
  suffices nodes : s.nodes = t.nodes by
    cases s
    cases t
    simpa using nodes
  apply Array.ext count
  intro z hz hz'
  have same := node z hz
  simpa [Store.node, hz, hz'] using same

end Store

structure Cloning where
  store : Store
  memo : Std.HashMap NodeId NodeId

namespace Cloning

def enter (k : Cloning) (x : NodeId) : Cloning :=
  ⟨(k.store.add .absent).2, k.memo.insert x k.store.count⟩

def cloneOf (k : Cloning) (x : NodeId) : NodeId := k.memo[x]?.getD x

def restore (k : Cloning) (n : Node) (y : NodeId) : Cloning :=
  ⟨k.store.put y ((n.state.rename k.cloneOf).restored n.kind), k.memo⟩

end Cloning

namespace Store

variable {s : Store} {x y w : NodeId}

/-- Cloning some nodes of `s` one after the other. -/
inductive Clones (s : Store) : Cloning → List NodeId → Cloning → Prop where
  | nil (k : Cloning) : Clones s k [] k
  | known {k last : Cloning} {x : NodeId} {rest : List NodeId} : k.memo.contains x = true →
      Clones s k rest last → Clones s k (x :: rest) last
  | fresh {k below last : Cloning} {x : NodeId} {rest : List NodeId} :
      k.memo.contains x = false → Clones s (k.enter x) (s.children x) below →
      Clones s (below.restore (s.node x) k.store.count) rest last → Clones s k (x :: rest) last

theorem Clones.append {k middle last : Cloning} {xs ys : List NodeId}
    (first : s.Clones k xs middle) (second : s.Clones middle ys last) :
    s.Clones k (xs ++ ys) last := by
  induction first with
  | nil => exact second
  | known seen _ ih => exact .known seen (ih second)
  | fresh unseen below _ _ ih => exact .fresh unseen below (ih second)

structure Alongside (s : Store) (c : Census) (k : Cloning) : Prop where
  indexed : c.Indexed
  memo : ∀ y : NodeId, k.memo[y]? = (c.places[y]?).map (s.count + ·)
  count : k.store.count = s.count + c.order.size

namespace Alongside

variable {c : Census} {k : Cloning}

theorem start (s : Store) : s.Alongside .empty ⟨s, ∅⟩ where
  indexed := .empty
  memo := by simp [Census.empty]
  count := by simp [Census.empty]

theorem contains (along : s.Alongside c k) (y : NodeId) :
    k.memo.contains y = c.places.contains y := by
  simp only [Std.HashMap.contains_eq_isSome_getElem?, along.memo, Option.isSome_map]

theorem cloneOf (along : s.Alongside c k) : k.cloneOf = Store.cloneOf s.count c.places := by
  funext y
  rw [Cloning.cloneOf, Store.cloneOf, along.memo]
  cases c.places[y]? <;> rfl

theorem enter (along : s.Alongside c k) (new : c.places.contains x = false) :
    s.Alongside (c.enter x) (k.enter x) where
  indexed := along.indexed.enter new
  memo y := by
    simp only [Cloning.enter, Census.enter, Std.HashMap.getElem?_insert, along.memo, along.count]
    split <;> rfl
  count := by
    simp only [Cloning.enter, Census.enter, count_add, along.count, Array.size_push]
    omega

theorem restore (along : s.Alongside c k) (n : Node) (y : NodeId) :
    s.Alongside c (k.restore n y) where
  indexed := along.indexed
  memo := along.memo
  count := by simp [Cloning.restore, along.count]

end Alongside

theorem cloneNode_congr {places places' : Std.HashMap NodeId Nat}
    (known : ∀ y ∈ s.children w, places[y]? = places'[y]?) :
    s.cloneNode places w = s.cloneNode places' w := by
  have slots : ∀ slot ∈ (s.node w).slots, slot.map (cloneOf s.count places) =
      slot.map (cloneOf s.count places') := by
    intro slot mem
    apply Array.map_congr_left
    intro y child
    have below : y ∈ s.children w := by
      simp only [children, Node.children, List.mem_flatMap]
      exact ⟨slot, by simpa using mem, by simpa using child⟩
    rw [cloneOf, cloneOf, known y below]
  have states : (s.node w).state.rename (cloneOf s.count places) =
      (s.node w).state.rename (cloneOf s.count places') :=
    congrArg (NodeState.mk (s.payload w)) (Array.map_congr_left slots)
  rw [cloneNode, cloneNode, states]

structure Taken (s : Store) (c : Census) (k : Cloning) (xs : List NodeId) (c' : Census)
    (k' : Cloning) : Prop where
  clones : s.Clones k xs k'
  along : s.Alongside c' k'
  kept : k.store.KeptIn k'.store
  order : ∀ j : Nat, j < c.order.size → c'.order[j]? = c.order[j]?
  places : ∀ y : NodeId, c.places.contains y = true → c'.places[y]? = c.places[y]?
  taken : ∀ y ∈ xs, c'.places.contains y = true
  made : ∀ (j : Nat) (w : NodeId), c.order.size ≤ j → c'.order[j]? = some w →
    (∀ y ∈ s.children w, c'.places.contains y = true) ∧
      k'.store.node (s.count + j) = s.cloneNode c'.places w

namespace Taken

variable {c c₁ c₂ : Census} {k k₁ k₂ : Cloning} {xs ys : List NodeId}

theorem nil (along : s.Alongside c k) : s.Taken c k [] c k where
  clones := .nil k
  along := along
  kept := .refl k.store
  order _ _ := rfl
  places _ _ := rfl
  taken y mem := absurd mem List.not_mem_nil
  made j w beyond place := by
    have within := (Array.getElem?_eq_some_iff.1 place).1
    omega

theorem contains (first : s.Taken c k xs c₁ k₁) (known : c.places.contains y = true) :
    c₁.places.contains y = true := by
  rw [Std.HashMap.contains_eq_isSome_getElem?, first.places y known,
    ← Std.HashMap.contains_eq_isSome_getElem?, known]

theorem append (first : s.Taken c k xs c₁ k₁) (second : s.Taken c₁ k₁ ys c₂ k₂) :
    s.Taken c k (xs ++ ys) c₂ k₂ := by
  have sizes : c.order.size ≤ c₁.order.size := by
    have counts := first.kept.count_le
    have along := first.along.count
    by_contra shorter
    have last := first.order c₁.order.size (by omega)
    simp at last
    omega
  refine ⟨first.clones.append second.clones, second.along, first.kept.trans second.kept, ?order,
    ?places, ?taken, ?made⟩
  case order =>
    intro j hj
    rw [second.order j (by omega), first.order j hj]
  case places =>
    intro y known
    rw [second.places y (first.contains known), first.places y known]
  case taken =>
    intro y mem
    obtain mem | mem := List.mem_append.1 mem
    · exact second.contains (first.taken y mem)
    · exact second.taken y mem
  case made =>
    intro j w beyond place
    by_cases early : j < c₁.order.size
    · rw [second.order j early] at place
      obtain ⟨known, node⟩ := first.made j w beyond place
      have old : s.count + j < k₁.store.count := by
        have along := first.along.count
        omega
      refine ⟨fun y child => second.contains (known y child), ?_⟩
      rw [second.kept.node_eq _ old, node]
      exact cloneNode_congr fun y child => (second.places y (known y child)).symm
    · exact second.made j w (by omega) place

theorem known (along : s.Alongside c k) (known : c.places.contains x = true) :
    s.Taken c k [x] c k where
  __ := nil along
  clones := .known (by rw [along.contains, known]) (.nil k)
  taken y mem := by rwa [List.mem_singleton.1 mem]

theorem fresh (along : s.Alongside c k) (new : c.places.contains x = false)
    (below : s.Taken (c.enter x) (k.enter x) (s.children x) c₁ k₁) :
    s.Taken c k [x] c₁ (k₁.restore (s.node x) k.store.count) := by
  have entered : (k.enter x).store.count = k.store.count + 1 := by simp [Cloning.enter]
  have here : k.store.count < k₁.store.count := by
    have counts := below.kept.count_le
    omega
  have size : (c.enter x).order.size = c.order.size + 1 := by simp [Census.enter]
  have place : c₁.order[c.order.size]? = some x := by
    rw [below.order _ (by omega)]
    simp [Census.enter]
  have node (z : NodeId) : (k₁.restore (s.node x) k.store.count).store.node z =
      if z = k.store.count then s.cloneNode c₁.places x else k₁.store.node z := by
    rw [Cloning.restore, node_put here, below.along.cloneOf]
    rfl
  -- the number that `x` gets leaves the nodes that were taken up before it as they are
  have other {y : NodeId} (known : c.places.contains y = true) :
      (c.enter x).places[y]? = c.places[y]? := by
    have ne : x ≠ y := by
      rintro rfl
      simp [new] at known
    simp [Census.enter, Std.HashMap.getElem?_insert, ne]
  have still {y : NodeId} (known : c.places.contains y = true) :
      (c.enter x).places.contains y = true := by
    rwa [Std.HashMap.contains_eq_isSome_getElem?, other known,
      ← Std.HashMap.contains_eq_isSome_getElem?]
  refine ⟨.fresh (by rw [along.contains, new]) below.clones (.nil _), below.along.restore _ _,
    ⟨?_, ?kept⟩, ?order, ?places, ?taken, ?made⟩
  · rw [Cloning.restore, count_put]
    omega
  case kept =>
    intro z hz
    have before := (KeptIn.add k.store .absent).node_eq z hz
    rw [node, if_neg (Nat.ne_of_lt hz), below.kept.node_eq z (by omega)]
    exact before
  case order =>
    intro j hj
    rw [below.order j (by omega)]
    simp [Census.enter, Array.getElem?_push, Nat.ne_of_lt hj]
  case places =>
    intro y known
    rw [below.places y (still known), other known]
  case taken =>
    intro y mem
    rw [List.mem_singleton.1 mem]
    refine below.contains ?_
    simp [Census.enter]
  case made =>
    intro j w beyond at_place
    rw [node, along.count]
    by_cases first : j = c.order.size
    · subst first
      cases place.symm.trans at_place
      exact ⟨below.taken, if_pos rfl⟩
    · obtain ⟨known, made⟩ := below.made j w (by omega) at_place
      have elsewhere : s.count + j ≠ s.count + c.order.size := by omega
      exact ⟨known, by rw [if_neg elsewhere, made]⟩

end Taken

theorem taken_of_explore {budget : Nat} {c : Census} {xs : List NodeId}
    {ending : Worklist.Ending Census (Except Fault Census)}
    (explored : Worklist.explore s.censusVisit budget c xs = some ending) {k : Cloning}
    (along : s.Alongside c k) : ∃ c' k', ending = .left c' ∧ s.Taken c k xs c' k' := by
  fun_induction Worklist.explore s.censusVisit budget c xs generalizing k ending with
  | case1 budget c =>
    cases explored
    exact ⟨c, k, rfl, .nil along⟩
  | case2 budget c x rest answer visited =>
    obtain ⟨-, visit⟩ | ⟨-, visit⟩ := s.censusVisit_cases c x <;> cases visit.symm.trans visited
  | case3 budget c x rest after visited ih =>
    obtain ⟨known, visit⟩ | ⟨new, visit⟩ := s.censusVisit_cases c x
    · cases visit.symm.trans visited
      obtain ⟨c', k', left, taken⟩ := ih explored along
      exact ⟨c', k', left, (Taken.known along known).append taken⟩
    · injection visit.symm.trans visited with entered childless
      subst entered
      have below : s.Taken (c.enter x) (k.enter x) (s.children x) (c.enter x) (k.enter x) := by
        rw [childless]
        exact .nil (along.enter new)
      have first := Taken.fresh along new below
      obtain ⟨c', k', left, taken⟩ := ih explored first.along
      exact ⟨c', k', left, first.append taken⟩
  | case4 => cases explored
  | case5 c x rest after t ts visited budget left inner ihBelow ihRest =>
    obtain ⟨-, visit⟩ | ⟨new, visit⟩ := s.censusVisit_cases c x
    · cases visit.symm.trans visited
    · injection visit.symm.trans visited with entered children
      subst entered
      obtain ⟨c₁, k₁, same, below⟩ := ihBelow inner (along.enter new)
      cases same
      rw [← children] at below
      have first := Taken.fresh along new below
      obtain ⟨c', k', left, taken⟩ := ihRest explored first.along
      exact ⟨c', k', left, first.append taken⟩
  | case6 c x rest after t ts visited budget inner ihBelow =>
    -- what is below ends as everything does, and cannot be cut short
    obtain ⟨-, visit⟩ | ⟨new, visit⟩ := s.censusVisit_cases c x
    · cases visit.symm.trans visited
    · injection visit.symm.trans visited with entered
      subst entered
      obtain ⟨c₁, -, rfl, -⟩ := ihBelow explored (along.enter new)
      exact absurd explored (inner c₁)

/-- The census is the memo of the recursion, and the clones made from it are those that the
recursion makes. -/
theorem exists_clones {c : Census} (run : s.census x = .ok c) :
    ∃ k, s.Clones ⟨s, ∅⟩ [x] k ∧ k.memo[x]? = some (cloneOf s.count c.places x) ∧
      k.store = ⟨s.nodes ++ c.order.map (s.cloneNode c.places)⟩ := by
  have walked := finished_eq_ok_iff.1 run
  rw [Worklist.walk_eq_explore] at walked
  cases explored : Worklist.explore s.censusVisit s.depthBound .empty [x] with
  | none =>
    rw [explored] at walked
    cases walked
  | some ending =>
    obtain ⟨c', k, rfl, taken⟩ := taken_of_explore explored (.start s)
    rw [explored, Worklist.resume, Worklist.drain_nil] at walked
    cases walked
    refine ⟨k, taken.clones, ?memo, ?store⟩
    case memo =>
      have known := taken.taken x List.mem_cons_self
      rw [Std.HashMap.contains_eq_isSome_getElem?, Option.isSome_iff_exists] at known
      obtain ⟨place, at_place⟩ := known
      rw [taken.along.memo, cloneOf, at_place]
      rfl
    case store =>
      have made : s.ClonedOnto c ⟨s.nodes ++ c.order.map (s.cloneNode c.places)⟩ :=
        ⟨fun y place => (taken.along.indexed y place).1, rfl⟩
      have count := taken.along.count.trans made.count.symm
      refine eq_of_node_eq count fun z hz => ?_
      by_cases old : z < s.count
      · rw [taken.kept.node_eq z old, made.kept.node_eq z old]
      · obtain ⟨j, w, rfl, place⟩ := made.exists_place (Nat.le_of_not_lt old) (count ▸ hz)
        rw [made.node_eq place]
        exact (taken.made j w (Nat.zero_le j) place).2

end Store
end SlotTree
