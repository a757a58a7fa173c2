import Mathlib.Data.List.Forall2
import SlotTree.Compare.Fingerprint
import SlotTree.Proofs.ChildrenFirst

/-!
Hashing as a recursion over first slots: the children from left to right, then the node. It fails
at the first node of that order whose payload has no label, whatever stands in later slots, and it
takes nodes of two stores alike when a relation between them passes to their first children.
-/

namespace SlotTree

def Hashing.combine {H : Type} (hashing : Hashing H) (slotCount : Nat) (first : List H)
    (label : Payload) : H :=
  if slotCount = 0 then hashing.bare label else hashing.rooted label first

namespace Store

variable {s t : Store} {x y : NodeId} {H : Type} {hashing : Hashing H}

/-! First slots. -/

/-- `y` is `x`, or stands below it by first slots alone. -/
def ReachesFirst (s : Store) (x y : NodeId) : Prop :=
  ∃ p : Path, (∀ step ∈ p, step.1 = 0) ∧ s.nodeAt x p = some y

theorem mem_firstChildren : y ∈ s.firstChildren x ↔ ∃ index, s.childAt x 0 index = some y := by
  simp only [firstChildren, List.mem_iff_getElem?, Array.getElem?_toList, childAt]

theorem descends_firstChildren (s : Store) : s.Descends s.firstChildren := by
  intro x y h
  obtain ⟨index, at_child⟩ := mem_firstChildren.1 h
  exact mem_children_iff.2 ⟨0, index, at_child⟩

theorem firstChildren_of_slotCount (h : s.slotCount x = 0) : s.firstChildren x = [] := by
  rw [firstChildren, slot, Node.slot_of_le (Nat.le_of_eq h)]

theorem reachesFirst_iff :
    s.ReachesFirst x y ↔ y = x ∨ ∃ child ∈ s.firstChildren x, s.ReachesFirst child y := by
  refine ⟨fun h => ?_, fun h => ?_⟩
  · obtain ⟨p, first, at_end⟩ := h
    cases p with
    | nil => exact .inl (Option.some.inj at_end).symm
    | cons step p =>
      obtain ⟨slot, index⟩ := step
      obtain ⟨child, at_child, at_end⟩ := Option.bind_eq_some_iff.1 at_end
      have zero : slot = 0 := first _ List.mem_cons_self
      rw [zero] at at_child
      exact .inr ⟨child, mem_firstChildren.2 ⟨index, at_child⟩, p,
        fun step mem => first step (List.mem_cons_of_mem _ mem), at_end⟩
  · obtain rfl | ⟨child, mem, p, first, at_end⟩ := h
    · exact ⟨[], fun step mem => absurd mem List.not_mem_nil, rfl⟩
    · obtain ⟨index, at_child⟩ := mem_firstChildren.1 mem
      refine ⟨(0, index) :: p, List.forall_mem_cons.2 ⟨rfl, first⟩, ?_⟩
      rw [nodeAt, at_child]
      exact at_end

section Recursion

variable (acyclic : s.Acyclic)

def firstOrder (s : Store) (acyclic : s.Acyclic) : NodeId → List NodeId :=
  s.childrenFirst acyclic s.firstChildren s.descends_firstChildren

theorem firstOrder_eq (x : NodeId) :
    s.firstOrder acyclic x = (s.firstChildren x).flatMap (s.firstOrder acyclic) ++ [x] :=
  childrenFirst_eq acyclic s.descends_firstChildren x

@[simp] theorem mem_firstOrder : y ∈ s.firstOrder acyclic x ↔ s.ReachesFirst x y := by
  induction x using acyclic.induction with
  | step x ih =>
    have below (child : NodeId) (mem : child ∈ s.firstChildren x) :=
      ih child (s.descends_firstChildren x child mem)
    rw [firstOrder_eq, List.mem_append, List.mem_flatMap, List.mem_singleton, reachesFirst_iff,
      or_comm]
    refine or_congr_right (exists_congr fun child => and_congr_right fun mem => below child mem)

/-- The hash of a node: that of its label where it has no slots, and else that of its label and of
the hashes of its first slot, which are taken from left to right before it. -/
def hashBelow (s : Store) (acyclic : s.Acyclic) (hashing : Hashing H) (x : NodeId) :
    Except Fault H :=
  if s.slotCount x = 0 then (s.payload x).label.map hashing.bare
  else do
    let first ← (s.firstChildren x).attach.mapM fun y => hashBelow s acyclic hashing y.1
    let label ← (s.payload x).label
    .ok (hashing.rooted label first)
termination_by s.rank x
decreasing_by exact acyclic.rank_lt (s.descends_firstChildren x y.1 y.2)

theorem hashBelow_eq (x : NodeId) :
    s.hashBelow acyclic hashing x =
      (s.firstChildren x).mapM (s.hashBelow acyclic hashing) >>= fun first =>
        (s.payload x).label.map (hashing.combine (s.slotCount x) first) := by
  have below : ((s.firstChildren x).attach.mapM fun y => s.hashBelow acyclic hashing y.1) =
      (s.firstChildren x).mapM (s.hashBelow acyclic hashing) :=
    List.mapM_subtype (fun _ _ => rfl) |>.trans (by rw [List.unattach_attach])
  rw [hashBelow, below]
  unfold Hashing.combine
  by_cases slotless : s.slotCount x = 0
  · rw [if_pos slotless, firstChildren_of_slotCount slotless]
    simp only [slotless, if_true]
    rfl
  · simp only [slotless, if_false]
    cases (s.payload x).label <;> rfl

/-! Where hashing fails. -/

def firstRefused (s : Store) (nodes : List NodeId) : Option NodeId :=
  nodes.find? fun y => !(s.payload y).isScalar

/-- The outcome of going through `nodes`: the fault of the first without a label, or success. -/
def RefusesFirst {α : Type} (s : Store) (nodes : List NodeId) (outcome : Except Fault α) : Prop :=
  match s.firstRefused nodes with
  | none => ∃ a, outcome = .ok a
  | some y => outcome = .error (.unhashable (s.payload y).typeName)

theorem RefusesFirst.bind {α β : Type} {nodes later : List NodeId} {outcome : Except Fault α}
    {next : α → Except Fault β} (here : s.RefusesFirst nodes outcome)
    (further : ∀ a, s.RefusesFirst later (next a)) :
    s.RefusesFirst (nodes ++ later) (outcome >>= next) := by
  unfold RefusesFirst firstRefused at here ⊢
  rw [List.find?_append]
  cases found : nodes.find? fun y => !(s.payload y).isScalar with
  | none =>
    rw [found] at here
    obtain ⟨a, rfl⟩ := here
    exact further a
  | some y =>
    rw [found] at here
    rw [here]
    rfl

theorem RefusesFirst.label {α : Type} (f : Payload → α) (x : NodeId) :
    s.RefusesFirst [x] ((s.payload x).label.map f) := by
  unfold RefusesFirst firstRefused Payload.label
  by_cases scalar : (s.payload x).isScalar = true
  · simp [scalar, Except.map]
  · simp [scalar, Except.map]

theorem RefusesFirst.mapM {α : Type} {ys : List NodeId} {f : NodeId → Except Fault α}
    {nodes : NodeId → List NodeId} (each : ∀ y ∈ ys, s.RefusesFirst (nodes y) (f y)) :
    s.RefusesFirst (ys.flatMap nodes) (ys.mapM f) := by
  induction ys with
  | nil => exact ⟨[], rfl⟩
  | cons y ys ih =>
    have others := ih fun z mem => each z (List.mem_cons_of_mem y mem)
    rw [List.mapM_cons, List.flatMap_cons]
    refine (each y List.mem_cons_self).bind fun a => ?_
    have wrapped : s.RefusesFirst (ys.flatMap nodes ++ [])
        (ys.mapM f >>= fun as => pure (a :: as)) := others.bind fun as => ⟨a :: as, rfl⟩
    rwa [List.append_nil] at wrapped

theorem hashBelow_refusesFirst (x : NodeId) :
    s.RefusesFirst (s.firstOrder acyclic x) (s.hashBelow acyclic hashing x) := by
  induction x using acyclic.induction with
  | step x ih =>
    have children : s.RefusesFirst ((s.firstChildren x).flatMap (s.firstOrder acyclic))
        ((s.firstChildren x).mapM (s.hashBelow acyclic hashing)) :=
      .mapM fun y mem => ih y (s.descends_firstChildren x y mem)
    rw [hashBelow_eq, firstOrder_eq]
    exact children.bind fun first => .label _ x

theorem exists_hashBelow_iff :
    (∃ h, s.hashBelow acyclic hashing x = .ok h) ↔
      ∀ y, s.ReachesFirst x y → (s.payload y).isScalar = true := by
  have outcome : s.RefusesFirst _ (s.hashBelow acyclic hashing x) :=
    hashBelow_refusesFirst acyclic x
  unfold RefusesFirst firstRefused at outcome
  cases found : (s.firstOrder acyclic x).find? fun y => !(s.payload y).isScalar with
  | none =>
    rw [found] at outcome
    refine iff_of_true outcome fun y reached => ?_
    have scalar := List.find?_eq_none.1 found y ((mem_firstOrder acyclic).2 reached)
    simpa using scalar
  | some y =>
    rw [found] at outcome
    refine iff_of_false ?_ fun scalars => ?_
    · rintro ⟨h, hashed⟩
      rw [outcome] at hashed
      cases hashed
    · have reached := (mem_firstOrder acyclic).1 (List.mem_of_find?_eq_some found)
      have refused := List.find?_some found
      rw [scalars y reached] at refused
      cases refused

theorem exists_refused_of_hashBelow {e : Fault} (h : s.hashBelow acyclic hashing x = .error e) :
    ∃ y, s.ReachesFirst x y ∧ (s.payload y).isScalar = false ∧
      e = .unhashable (s.payload y).typeName := by
  have outcome : s.RefusesFirst _ (s.hashBelow acyclic hashing x) :=
    hashBelow_refusesFirst acyclic x
  rw [h] at outcome
  unfold RefusesFirst firstRefused at outcome
  cases found : (s.firstOrder acyclic x).find? fun y => !(s.payload y).isScalar with
  | none =>
    rw [found] at outcome
    obtain ⟨_, hashed⟩ := outcome
    cases hashed
  | some y =>
    rw [found] at outcome
    refine ⟨y, (mem_firstOrder acyclic).1 (List.mem_of_find?_eq_some found), ?_,
      Except.error.inj outcome⟩
    simpa using List.find?_some found

end Recursion

/-! Hashing two trees side by side. -/

theorem mapM_eq_of_forall₂ {α β γ : Type} {R : α → β → Prop} {f : α → Except Fault γ}
    {g : β → Except Fault γ} {as : List α} {bs : List β} (related : List.Forall₂ R as bs)
    (same : ∀ a ∈ as, ∀ b, R a b → f a = g b) : as.mapM f = bs.mapM g := by
  induction related with
  | nil => rfl
  | @cons a b as bs head _ ih =>
    rw [List.mapM_cons, List.mapM_cons, same a List.mem_cons_self b head,
      ih fun c mem => same c (List.mem_cons_of_mem a mem)]

structure HashSimulation (s t : Store) (R : NodeId → NodeId → Prop) : Prop where
  label : ∀ {x y}, R x y → (s.payload x).label = (t.payload y).label
  slotless : ∀ {x y}, R x y → (s.slotCount x = 0 ↔ t.slotCount y = 0)
  first : ∀ {x y}, R x y → List.Forall₂ R (s.firstChildren x) (t.firstChildren y)

theorem HashSimulation.hashBelow_eq {R : NodeId → NodeId → Prop} (sim : HashSimulation s t R)
    (acyclic : s.Acyclic) (acyclic' : t.Acyclic) (related : R x y) :
    s.hashBelow acyclic hashing x = t.hashBelow acyclic' hashing y := by
  induction x using acyclic.induction generalizing y with
  | step x ih =>
    have children : (s.firstChildren x).mapM (s.hashBelow acyclic hashing) =
        (t.firstChildren y).mapM (t.hashBelow acyclic' hashing) :=
      mapM_eq_of_forall₂ (sim.first related) fun a mem b related =>
        ih a (s.descends_firstChildren x a mem) related
    have combined : hashing.combine (s.slotCount x) = hashing.combine (t.slotCount y) := by
      unfold Hashing.combine
      simp only [sim.slotless related]
    rw [Store.hashBelow_eq, Store.hashBelow_eq, children, sim.label related, combined]

end Store
end SlotTree
