import SlotTree.Proofs.Snapshots

/-!
What a snapshot shares. A frozen node takes for each child the node built last for it, and that
node was built within the block right before its own place. So everything under a frozen node lies
in one block of the order, and blocks of nodes that do not reach each other are apart.
-/

namespace SlotTree

theorem IsLastPlace.of_suffix {list back : List NodeId} {y : NodeId} {j : Nat}
    (h : IsLastPlace list y j) (suffix : back <:+ list) (mem : y ∈ back) :
    ∃ i, IsLastPlace back y i ∧ j + back.length = i + list.length := by
  obtain ⟨front, rfl⟩ := suffix
  have shifted (i : Nat) : (front ++ back)[front.length + i]? = back[i]? := by
    rw [List.getElem?_append_right (by omega), Nat.add_sub_cancel_left]
  have inBack : front.length ≤ j := by
    by_contra inFront
    obtain ⟨i, hi⟩ := List.mem_iff_getElem?.1 mem
    exact h.2 (front.length + i) (by omega) ((shifted i).trans hi)
  obtain ⟨i, rfl⟩ := Nat.exists_eq_add_of_le inBack
  refine ⟨i, ⟨(shifted i).symm.trans h.1, ?_⟩, ?_⟩
  · intro k hk
    rw [← shifted k]
    exact h.2 _ (by omega)
  · rw [List.length_append]
    omega

namespace Store

variable {s t : Store} {x y z a b d : NodeId} {i j k m : Nat} (acyclic : s.Acyclic)

theorem block_of_child (hk : (s.treeOrder acyclic x)[k]? = some y) (hz : z ∈ s.children y)
    (last : IsLastPlace ((s.treeOrder acyclic x).take k) z j) :
    j < k ∧ k + (s.treeOrder acyclic z).length ≤ j + (s.treeOrder acyclic y).length := by
  have within := (List.getElem?_eq_some_iff.1 hk).1
  have taken : ((s.treeOrder acyclic x).take k).length = k := by
    rw [List.length_take]
    omega
  have before := last.lt
  obtain ⟨i, inBack, shift⟩ :=
    last.of_suffix (children_before acyclic hk) (mem_flatMap_treeOrder acyclic hz)
  have blocks : InBlocks (s.treeOrder acyclic) ((s.children y).flatMap (s.treeOrder acyclic)) :=
    .flatMap fun child _ => inBlocks_treeOrder acyclic child
  have own := (blocks i z inBack.1).length_le
  rw [List.length_take] at own
  rw [length_treeOrder acyclic y]
  omega

theorem blocks_apart (hj : (s.treeOrder acyclic x)[j]? = some y)
    (hk : (s.treeOrder acyclic x)[k]? = some z) (lt : j < k) (apart : ¬ s.Reaches z y) :
    j + (s.treeOrder acyclic z).length ≤ k := by
  by_contra inside
  obtain ⟨front, block⟩ := inBlocks_treeOrder acyclic x k z hk
  have within := (List.getElem?_eq_some_iff.1 hk).1
  have total : front.length + (s.treeOrder acyclic z).length = k + 1 := by
    rw [← List.length_append, block, List.length_take]
    omega
  have here : (front ++ s.treeOrder acyclic z)[j]? = some y := by
    rw [block, List.getElem?_take_of_lt (by omega), hj]
  rw [List.getElem?_append_right (by omega)] at here
  exact apart ((mem_treeOrder acyclic).1 (List.mem_of_getElem? here))

section Block

variable (built : s.Built (s.treeOrder acyclic x) t)

include built in
/-- Whatever a frozen node reaches was built within its block. -/
theorem reached_in_block (hk : (s.treeOrder acyclic x)[k]? = some y)
    (h : t.Reaches (s.count + k) d) :
    ∃ j : Nat, d = s.count + j ∧ j ≤ k ∧ k < j + (s.treeOrder acyclic y).length := by
  generalize hf : s.count + k = f at h
  induction h generalizing k y with
  | refl =>
    have positive := length_treeOrder acyclic y
    exact ⟨k, hf.symm, Nat.le_refl k, by omega⟩
  | step child _ ih =>
    subst hf
    obtain ⟨slot, index, at_child⟩ := mem_children_iff.1 child
    obtain ⟨z, m, hz, last, rfl⟩ := (built.childAt_eq_some_iff hk).1 at_child
    have bounds := block_of_child acyclic hk (mem_children_iff.2 ⟨slot, index, hz⟩) last
    have at_m : (s.treeOrder acyclic x)[m]? = some z := by
      rw [← List.getElem?_take_of_lt bounds.1]
      exact last.1
    obtain ⟨j, eq, le, lt⟩ := ih at_m rfl
    exact ⟨j, eq, by omega, by omega⟩

include built in
theorem disjoint_of_apart (hj : (s.treeOrder acyclic x)[j]? = some y)
    (hk : (s.treeOrder acyclic x)[k]? = some z) (apart : ¬ s.Reaches y z)
    (apart' : ¬ s.Reaches z y) (hd : t.Reaches (s.count + j) d) :
    ¬ t.Reaches (s.count + k) d := by
  intro shared
  obtain ⟨m, rfl, le, lt⟩ := reached_in_block acyclic built hj hd
  obtain ⟨m', eq, le', lt'⟩ := reached_in_block acyclic built hk shared
  have same : m = m' := Nat.add_left_cancel eq
  obtain before | rfl | after := Nat.lt_trichotomy j k
  · have gap := blocks_apart acyclic hj hk before apart'
    omega
  · rw [hj] at hk
    cases hk
    exact apart (.refl y)
  · have gap := blocks_apart acyclic hk hj after apart
    omega

end Block

def sourceOf (s : Store) (order : List NodeId) (d : NodeId) : NodeId :=
  (order[d - s.count]?).getD d

theorem sourceOf_add {order : List NodeId} (hk : order[k]? = some y) :
    s.sourceOf order (s.count + k) = y := by
  rw [sourceOf, Nat.add_sub_cancel_left, hk]
  rfl

theorem BuiltFor.sourceOf {order : List NodeId} (h : s.BuiltFor order y d) :
    s.sourceOf order d = y := by
  obtain ⟨k, hk, rfl⟩ := h
  exact sourceOf_add hk

variable {order : List NodeId}

theorem Built.nodeAt_eq_map (built : s.Built order t) (root : s.BuiltFor order x a) (p : Path) :
    s.nodeAt x p = (t.nodeAt a p).map (s.sourceOf order) := by
  match s.nodeAt x p, t.nodeAt a p, built.simulation.nodeAt root p with
  | _, _, .none => rfl
  | _, _, .some related => exact congrArg some related.sourceOf.symm

theorem Built.child_eq_iff (built : s.Built order t) (hk : order[k]? = some y)
    {slot index slot' index' : Nat} (ha : t.childAt (s.count + k) slot index = some a)
    (hb : t.childAt (s.count + k) slot' index' = some b) :
    a = b ↔ s.childAt y slot index = s.childAt y slot' index' := by
  obtain ⟨z, j, hz, last, rfl⟩ := (built.childAt_eq_some_iff hk).1 ha
  obtain ⟨z', j', hz', last', rfl⟩ := (built.childAt_eq_some_iff hk).1 hb
  rw [hz, hz', Option.some.injEq]
  refine ⟨fun eq => ?_, fun eq => ?_⟩
  · have same : j = j' := Nat.add_left_cancel eq
    rw [← same] at last'
    exact Option.some.inj (last.1.symm.trans last'.1)
  · subst eq
    rw [last.unique last']

theorem Built.apart (built : s.Built (s.treeOrder acyclic x) t)
    (hk : (s.treeOrder acyclic x)[k]? = some d) {slot index slot' index' : Nat}
    (ha : t.childAt (s.count + k) slot index = some a)
    (hb : t.childAt (s.count + k) slot' index' = some b)
    (hy : s.childAt d slot index = some y) (hz : s.childAt d slot' index' = some z)
    (apart : ¬ s.Reaches y z) (apart' : ¬ s.Reaches z y) (f : NodeId) (hf : t.Reaches a f) :
    ¬ t.Reaches b f := by
  have related : s.BuiltFor (s.treeOrder acyclic x) d (s.count + k) := ⟨k, hk, rfl⟩
  obtain ⟨j, hj, rfl⟩ := built.simulation.child related hy ha
  obtain ⟨m, hm, rfl⟩ := built.simulation.child related hz hb
  exact disjoint_of_apart acyclic built hj hm apart apart' hf

/-- How the snapshot `r` in `t` of the tree of `x` in `s` shares its nodes: `order` lists the nodes
in the order in which they were rebuilt, and `source` gives what a frozen node stands for. -/
structure SharingOf (s : Store) (x : NodeId) (order : Array NodeId) (t : Store) (r : NodeId)
    (source : NodeId → NodeId) : Prop where
  walk : s.postOrder s.children x = .ok order
  one_each : t.count = s.count + order.size
  root_last : order.back? = some x ∧ t.count = r + 1
  source_step : ∀ k y, order[k]? = some y → source (s.count + k) = y
  meet : ∀ p q f, t.nodeAt r p = some f → t.nodeAt r q = some f → s.nodeAt x p = s.nodeAt x q
  source_path : ∀ p, s.nodeAt x p = (t.nodeAt r p).map source
  source_onto : ∀ y, s.Reaches x y ↔ ∃ f, t.Reaches r f ∧ source f = y
  siblings : ∀ f, t.Reaches r f → ∀ slot index slot' index' a b,
    t.childAt f slot index = some a → t.childAt f slot' index' = some b →
    (a = b ↔ s.childAt (source f) slot index = s.childAt (source f) slot' index')
  /-- Sources that do not reach each other have nothing in common below, whatever they share. -/
  apart : ∀ f, t.Reaches r f → ∀ slot index slot' index' a b y z,
    t.childAt f slot index = some a → t.childAt f slot' index' = some b →
    s.childAt (source f) slot index = some y → s.childAt (source f) slot' index' = some z →
    ¬ s.Reaches y z → ¬ s.Reaches z y → ∀ d, t.Reaches a d → ¬ t.Reaches b d
  /-- A child is the node built for the last occurrence of its source up to then. -/
  latest : ∀ k y, order[k]? = some y → ∀ slot index d,
    t.childAt (s.count + k) slot index = some d ↔
      ∃ z j, s.childAt y slot index = some z ∧ IsLastPlace (order.toList.take k) z j ∧
        d = s.count + j

theorem Built.sharingOf (built : s.Built (s.treeOrder acyclic x) t) :
    s.SharingOf x (s.treeOrder acyclic x).toArray t
      (s.count + ((s.treeOrder acyclic x).length - 1))
      (s.sourceOf (s.treeOrder acyclic x)) := by
  have root := builtFor_root (x := x) acyclic
  have path := built.nodeAt_eq_map root
  have reached {f : NodeId} (hf : t.Reaches (s.count + ((s.treeOrder acyclic x).length - 1)) f) :
      ∃ k y, (s.treeOrder acyclic x)[k]? = some y ∧ f = s.count + k := by
    obtain ⟨y, -, k, hk, eq⟩ := built.simulation.reaches root hf
    exact ⟨k, y, hk, eq⟩
  refine ⟨?walk, ?one_each, ?root_last, ?source_step, ?meet,
    ?source_path, ?source_onto, ?siblings, ?apart, ?latest⟩
  case walk => exact postOrder_eq acyclic s.descends_children x
  case one_each => simpa using built.count
  case root_last =>
    have total := built.count
    have positive := length_treeOrder acyclic x
    exact ⟨by simp, by omega⟩
  case source_step =>
    intro k y hk
    exact sourceOf_add (by simpa using hk)
  case meet =>
    intro p q f hp hq
    rw [path p, path q, hp, hq]
  case source_path => exact path
  case source_onto =>
    intro y
    simp only [reaches_iff_nodeAt, path, Option.map_eq_some_iff]
    refine ⟨fun h => ?_, fun h => ?_⟩
    · obtain ⟨p, f, hp, eq⟩ := h
      exact ⟨f, ⟨p, hp⟩, eq⟩
    · obtain ⟨f, ⟨p, hp⟩, eq⟩ := h
      exact ⟨p, f, hp, eq⟩
  case siblings =>
    intro f hf slot index slot' index' a b ha hb
    obtain ⟨k, y, hk, rfl⟩ := reached hf
    rw [sourceOf_add hk]
    exact built.child_eq_iff hk ha hb
  case apart =>
    intro f hf slot index slot' index' a b y z ha hb hy hz
    obtain ⟨k, v, hk, rfl⟩ := reached hf
    rw [sourceOf_add hk] at hy hz
    exact built.apart acyclic hk ha hb hy hz
  case latest =>
    intro k y hk slot index d
    exact built.childAt_eq_some_iff (by simpa using hk)

/-- A snapshot never confuses two nodes, and what it shares is settled by the order of the walk. -/
theorem snapshot_sharing {s : Store} {x : NodeId} (closed : s.Closed) (acyclic : s.Acyclic)
    (hx : x < s.count) (growable : s.kind x = .growable) :
    ∃ r t order source, s.snapshot x = .ok (r, t) ∧ s.SharingOf x order t r source := by
  obtain ⟨t, rebuilt, built⟩ := rebuildFrozen_built closed acyclic hx
  exact ⟨_, t, _, _, by simpa [snapshot, growable] using rebuilt, built.sharingOf acyclic⟩

theorem snapshot_sharing_trellis :
    trellis.Closed ∧ trellis.Acyclic ∧ 2 < trellis.count ∧ trellis.kind 2 = .growable ∧
    ∃ r t order source, trellis.snapshot 2 = .ok (r, t) ∧ trellis.SharingOf 2 order t r source := by
  obtain ⟨closed, acyclic⟩ := trellis_closed_acyclic
  have root : 2 < trellis.count := by decide
  have growable : trellis.kind 2 = .growable := rfl
  exact ⟨closed, acyclic, root, growable, snapshot_sharing closed acyclic root growable⟩

end Store
end SlotTree
