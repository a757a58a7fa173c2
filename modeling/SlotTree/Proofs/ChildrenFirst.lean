import SlotTree.Proofs.Endings
import SlotTree.Proofs.Moments
import SlotTree.Proofs.Rank
import SlotTree.Walk.Occurrences

/-!
Children first, as a recursion. A walk that goes down `below` meets the nodes of `childrenFirst`
in order, so its fold is the fold of that list.

The list is made of blocks: whatever stands at a place of it stands at the end of its own list, so
all that is below a node is found right before it. And at every moment of the walk the list is made
of what the fold has been handed and of what waits.
-/

namespace SlotTree.Store

variable {s : Store} {below : NodeId → List NodeId} {x y : NodeId}

/-! Outcomes. -/

theorem exists_of_bind_eq_ok {α β : Type} {outcome : Except Fault α} {next : α → Except Fault β}
    {b : β} (run : outcome >>= next = .ok b) : ∃ a, outcome = .ok a ∧ next a = .ok b := by
  cases outcome with
  | error => cases run
  | ok a => exact ⟨a, rfl, run⟩

theorem exists_of_map_eq_ok {α β : Type} {outcome : Except Fault α} {f : α → β} {b : β}
    (run : outcome.map f = .ok b) : ∃ a, outcome = .ok a ∧ f a = b := by
  cases outcome with
  | error => cases run
  | ok a => exact ⟨a, rfl, Except.ok.inj run⟩

theorem exists_first_error {α β : Type} {f : α → Except Fault β} {as : List α} {a : α} {e : Fault}
    (mem : a ∈ as) (fails : f a = .error e) : ∃ front b back e', as = front ++ b :: back ∧
      (∀ c ∈ front, ∃ r, f c = .ok r) ∧ f b = .error e' := by
  induction as with
  | nil => exact absurd mem List.not_mem_nil
  | cons b as ih =>
    cases here : f b with
    | error e' => exact ⟨[], b, as, e', rfl, by simp, here⟩
    | ok r =>
      obtain rfl | later := List.mem_cons.1 mem
      · rw [fails] at here
        cases here
      · obtain ⟨front, c, back, e', rfl, before, failed⟩ := ih later
        exact ⟨b :: front, c, back, e', rfl, List.forall_mem_cons.2 ⟨⟨r, here⟩, before⟩, failed⟩

/-! The recursion. -/

/-- `below` leads down edges of the store only. -/
def Descends (s : Store) (below : NodeId → List NodeId) : Prop :=
  ∀ x, ∀ y ∈ below x, y ∈ s.children x

theorem descends_children (s : Store) : s.Descends s.children := fun _ _ h => h

/-- What `below` leads to from `x`, once for every place where it stands, and `x` last. -/
def childrenFirst (s : Store) (acyclic : s.Acyclic) (below : NodeId → List NodeId)
    (descends : s.Descends below) (x : NodeId) : List NodeId :=
  ((below x).attach.flatMap fun y => childrenFirst s acyclic below descends y.1) ++ [x]
termination_by s.rank x
decreasing_by exact acyclic.rank_lt (descends x y.1 y.2)

section Walk

variable (acyclic : s.Acyclic) (descends : s.Descends below)

theorem childrenFirst_eq (x : NodeId) :
    s.childrenFirst acyclic below descends x =
      (below x).flatMap (s.childrenFirst acyclic below descends) ++ [x] := by
  rw [childrenFirst]
  congr 1
  exact List.flatMap_subtype (fun _ _ => rfl) |>.trans (by rw [List.unattach_attach])

@[simp] theorem getLast?_childrenFirst (x : NodeId) :
    (s.childrenFirst acyclic below descends x).getLast? = some x := by
  rw [childrenFirst_eq, List.getLast?_concat]

@[simp] theorem self_mem_childrenFirst (x : NodeId) :
    x ∈ s.childrenFirst acyclic below descends x :=
  List.mem_of_getLast? (getLast?_childrenFirst acyclic descends x)

theorem mem_flatMap_childrenFirst (h : y ∈ below x) :
    y ∈ (below x).flatMap (s.childrenFirst acyclic below descends) := by
  exact List.mem_flatMap.2 ⟨y, h, self_mem_childrenFirst acyclic descends y⟩

variable {β : Type} {f : β → NodeId → Except Fault β}

def foldEnding : Except Fault β → Worklist.Ending β (Except Fault β)
  | .ok acc => .left acc
  | .error e => .answered (.error e)

@[simp] theorem answer_foldEnding (r : Except Fault β) : (foldEnding r).answer .ok = r := by
  cases r <;> rfl

theorem foldEnding_append {ι : Type} {f : β → ι → Except Fault β} (front back : List ι) (acc : β) :
    foldEnding ((front ++ back).foldlM f acc) =
      (foldEnding (front.foldlM f acc)).bind fun acc => foldEnding (back.foldlM f acc) := by
  rw [List.foldlM_append]
  cases front.foldlM f acc <;> rfl

noncomputable def postRank (s : Store) : PostTask → Nat
  | .enter x => s.rank x + 1
  | .leave _ => 0

/-- Working off `tasks` folds over `nodes`, from wherever the fold has come to. -/
def Folds (s : Store) (below : NodeId → List NodeId) (f : β → NodeId → Except Fault β)
    (tasks : List PostTask) (nodes : List NodeId) : Prop :=
  ∀ acc, Worklist.Ends (postVisit below f) s.postRank acc tasks (foldEnding (nodes.foldlM f acc))

theorem Folds.nil : s.Folds below f [] [] := fun acc => .nil acc

theorem Folds.append {tasks later : List PostTask} {nodes further : List NodeId}
    (first : s.Folds below f tasks nodes) (second : s.Folds below f later further) :
    s.Folds below f (tasks ++ later) (nodes ++ further) := by
  intro acc
  rw [foldEnding_append]
  exact (first acc).bind second

theorem Folds.leave (x : NodeId) : s.Folds below f [.leave x] [x] := by
  intro acc
  have single : [x].foldlM f acc = f acc x := by simp
  rw [single]
  cases h : f acc x with
  | error e => exact .stop [] (by simp [postVisit, h])
  | ok after =>
    have visited : postVisit below f acc (.leave x) = .next after [] := by simp [postVisit, h]
    exact .next visited (by simp) (.nil after)

theorem Folds.enterAll {ys : List NodeId} {list : NodeId → List NodeId}
    (each : ∀ y ∈ ys, s.Folds below f [.enter y] (list y)) :
    s.Folds below f (ys.map .enter) (ys.flatMap list) := by
  induction ys with
  | nil => exact .nil
  | cons y ys ih =>
    have first := each y List.mem_cons_self
    have others := ih fun z hz => each z (List.mem_cons_of_mem y hz)
    exact first.append others

theorem Folds.enter (x : NodeId) :
    s.Folds below f [.enter x] (s.childrenFirst acyclic below descends x) := by
  induction x using acyclic.induction with
  | step x ih =>
    have children : s.Folds below f ((below x).map .enter)
        ((below x).flatMap (s.childrenFirst acyclic below descends)) :=
      .enterAll fun y hy => ih y (descends x y hy)
    have all := children.append (.leave x)
    rw [← childrenFirst_eq acyclic descends] at all
    intro acc
    refine .next rfl ?_ (by simpa using all acc)
    intro task hmem
    obtain hmem | hmem := List.mem_append.1 hmem
    · obtain ⟨y, hy, rfl⟩ := List.mem_map.1 hmem
      have lower := acyclic.rank_lt (descends x y hy)
      show s.rank y + 1 < s.rank x + 1
      omega
    · rw [List.mem_singleton.1 hmem]
      exact Nat.succ_pos _

/-- The walk with its stack folds over the recursive list. -/
theorem postFold_eq_foldlM (init : β) (root : NodeId) :
    s.postFold below f init root =
      (s.childrenFirst acyclic below descends root).foldlM f init := by
  have room : s.postRank (.enter root) ≤ s.depthBound := s.rank_lt_depthBound root
  have walked := (Folds.enter (f := f) acyclic descends root init).walk .ok room
  rw [answer_foldEnding] at walked
  rw [postFold, walked]
  rfl

theorem postOrder_eq (root : NodeId) :
    s.postOrder below root = .ok (s.childrenFirst acyclic below descends root).toArray := by
  have pushed (list : List NodeId) (seen : Array NodeId) :
      list.foldlM (fun seen x => (.ok (seen.push x) : Except Fault (Array NodeId))) seen =
        .ok (seen ++ list.toArray) := by
    induction list generalizing seen with
    | nil => simp [pure, Except.pure]
    | cons x list ih =>
      rw [List.foldlM_cons]
      exact (ih (seen.push x)).trans (by simp)
  rw [postOrder, postFold_eq_foldlM acyclic descends, pushed, Array.empty_append]

end Walk

section Blocks

variable {α : Type} {own : α → List α}

/-- Whatever stands at a place of `list` has its own list right up to that place. -/
def InBlocks (own : α → List α) (list : List α) : Prop :=
  ∀ k y, list[k]? = some y → own y <:+ list.take (k + 1)

theorem InBlocks.append {front back : List α} (hfront : InBlocks own front)
    (hback : InBlocks own back) : InBlocks own (front ++ back) := by
  intro k y hk
  by_cases inFront : k < front.length
  · rw [List.getElem?_append_left inFront] at hk
    rw [List.take_append_of_le_length inFront]
    exact hfront k y hk
  · have le : front.length ≤ k := Nat.le_of_not_lt inFront
    rw [List.getElem?_append_right le] at hk
    have within := hback _ y hk
    have shift : k + 1 = front.length + (k - front.length + 1) := by omega
    rw [shift, List.take_length_add_append]
    exact within.trans (List.suffix_append _ _)

theorem InBlocks.flatMap {ι : Type} {ys : List ι} {list : ι → List α}
    (each : ∀ y ∈ ys, InBlocks own (list y)) : InBlocks own (ys.flatMap list) := by
  induction ys with
  | nil =>
    intro k y hk
    simp at hk
  | cons y ys ih =>
    have first := each y List.mem_cons_self
    have others := ih fun z hz => each z (List.mem_cons_of_mem y hz)
    exact first.append others

theorem InBlocks.map {list : List α} {f : α → α} (h : InBlocks own list)
    (through : ∀ y, own (f y) = (own y).map f) : InBlocks own (list.map f) := by
  intro k z hk
  rw [List.getElem?_map, Option.map_eq_some_iff] at hk
  obtain ⟨y, hy, rfl⟩ := hk
  rw [through, ← List.map_take]
  exact (h k y hy).map f

theorem InBlocks.concat {list : List α} {x : α} (h : InBlocks own list)
    (whole : own x = list ++ [x]) : InBlocks own (list ++ [x]) := by
  intro k y hk
  by_cases inside : k < list.length
  · rw [List.getElem?_append_left inside] at hk
    rw [List.take_append_of_le_length inside]
    exact h k y hk
  · have at_end := (List.getElem?_eq_some_iff.1 hk).1
    rw [List.length_append, List.length_singleton] at at_end
    have last : k = list.length := by omega
    rw [last, List.getElem?_concat_length] at hk
    cases hk
    rw [last, List.take_of_length_le (by simp), whole]

variable (acyclic : s.Acyclic) (descends : s.Descends below)

theorem inBlocks_childrenFirst (x : NodeId) :
    InBlocks (s.childrenFirst acyclic below descends)
      (s.childrenFirst acyclic below descends x) := by
  induction x using acyclic.induction with
  | step x ih =>
    have children := InBlocks.flatMap fun y hy => ih y (descends x y hy)
    have whole := childrenFirst_eq acyclic descends x
    rw [whole]
    exact children.concat whole

theorem below_before {k : Nat} (hk : (s.childrenFirst acyclic below descends x)[k]? = some y) :
    (below y).flatMap (s.childrenFirst acyclic below descends) <:+
      (s.childrenFirst acyclic below descends x).take k := by
  have block := inBlocks_childrenFirst acyclic descends x k y hk
  rw [childrenFirst_eq acyclic descends y, List.take_add_one, hk, Option.toList_some] at block
  obtain empty | ⟨front, eq, suffix⟩ := List.suffix_concat_iff.1 block
  · simp at empty
  · rw [List.append_cancel_right eq]
    exact suffix

end Blocks

section Pending

variable {below : NodeId → List NodeId} {β : Type} {f : β → NodeId → Except Fault β}
  {init acc : β} {waiting rest : List PostTask}
  (acyclic : s.Acyclic) (descends : s.Descends below)

def pendingNodes (s : Store) (acyclic : s.Acyclic) (below : NodeId → List NodeId)
    (descends : s.Descends below) : PostTask → List NodeId
  | .enter x => s.childrenFirst acyclic below descends x
  | .leave x => [x]

/-- What the fold has been handed and what waits make up the whole list. -/
theorem postFold_moment {root : NodeId}
    (leads : Worklist.Leads (postVisit below f) init [.enter root] acc waiting) :
    ∃ done, done ++ waiting.flatMap (s.pendingNodes acyclic below descends) =
        s.childrenFirst acyclic below descends root ∧
      done.foldlM f init = .ok acc := by
  refine leads.carries (fun acc waiting => ∃ done,
    done ++ waiting.flatMap (s.pendingNodes acyclic below descends) =
        s.childrenFirst acyclic below descends root ∧
      done.foldlM f init = .ok acc) ?_ ⟨[], by simp [pendingNodes], rfl⟩
  -- entering a node only writes out what it stands for; leaving it hands it to the fold
  rintro acc (x | x) rest after tasks ⟨done, split, folded⟩ visited
  · cases visited
    refine ⟨done, ?_, folded⟩
    rw [← split, List.flatMap_append, List.flatMap_append, List.flatMap_map, List.flatMap_cons]
    simp [pendingNodes, childrenFirst_eq acyclic descends x]
  · unfold postVisit at visited
    cases handed : f acc x with
    | error e => simp [handed] at visited
    | ok next =>
      simp only [handed, Step.next.injEq] at visited
      obtain ⟨rfl, rfl⟩ := visited
      refine ⟨done ++ [x], ?_, ?_⟩
      · rw [← split]
        simp [pendingNodes]
      · rw [List.foldlM_append, folded]
        show [x].foldlM f acc = .ok next
        simpa using handed

theorem entered_of_foldlM (has : β → NodeId → Prop)
    (enters : ∀ acc x after, f acc x = .ok after → has after x)
    (keeps : ∀ acc x after y, f acc x = .ok after → has acc y → has after y)
    {nodes : List NodeId} {acc after : β} (folded : nodes.foldlM f acc = .ok after) :
    ∀ y, y ∈ nodes ∨ has acc y → has after y := by
  induction nodes generalizing acc with
  | nil =>
    cases folded
    simp
  | cons x nodes ih =>
    rw [List.foldlM_cons] at folded
    obtain ⟨next, first, folded⟩ := exists_of_bind_eq_ok folded
    intro y known
    refine ih folded y ?_
    obtain (rfl | later) | known := known.imp_left List.mem_cons.1
    · exact .inr (enters _ _ _ first)
    · exact .inl later
    · exact .inr (keeps _ _ _ _ first known)

include acyclic descends in
/-- So a node that is left finds all its children entered. -/
theorem entered_of_leads (has : β → NodeId → Prop) {root : NodeId}
    (enters : ∀ acc x after, f acc x = .ok after → has after x)
    (keeps : ∀ acc x after y, f acc x = .ok after → has acc y → has after y)
    (leads : Worklist.Leads (postVisit below f) init [.enter root] acc (.leave x :: rest)) :
    ∀ c ∈ below x, has acc c := by
  obtain ⟨done, split, folded⟩ := postFold_moment acyclic descends leads
  have here : (s.childrenFirst acyclic below descends root)[done.length]? = some x := by
    rw [← split]
    simp [pendingNodes]
  have before := below_before acyclic descends here
  rw [← split, List.take_left] at before
  intro c mem
  have come_up := before.subset (mem_flatMap_childrenFirst acyclic descends mem)
  exact entered_of_foldlM has enters keeps folded c (.inl come_up)

end Pending

section Members

variable (acyclic : s.Acyclic)

def treeOrder (s : Store) (acyclic : s.Acyclic) : NodeId → List NodeId :=
  s.childrenFirst acyclic s.children s.descends_children

theorem treeOrder_eq (x : NodeId) :
    s.treeOrder acyclic x = (s.children x).flatMap (s.treeOrder acyclic) ++ [x] :=
  childrenFirst_eq acyclic s.descends_children x

@[simp] theorem getLast?_treeOrder (x : NodeId) : (s.treeOrder acyclic x).getLast? = some x :=
  getLast?_childrenFirst acyclic s.descends_children x

theorem length_treeOrder (x : NodeId) :
    (s.treeOrder acyclic x).length =
      ((s.children x).flatMap (s.treeOrder acyclic)).length + 1 := by
  rw [treeOrder_eq, List.length_append, List.length_singleton]

theorem inBlocks_treeOrder (x : NodeId) :
    InBlocks (s.treeOrder acyclic) (s.treeOrder acyclic x) :=
  inBlocks_childrenFirst acyclic s.descends_children x

@[simp] theorem mem_treeOrder : y ∈ s.treeOrder acyclic x ↔ s.Reaches x y := by
  induction x using acyclic.induction with
  | step x ih =>
    rw [treeOrder_eq, List.mem_append, List.mem_singleton, List.mem_flatMap]
    refine ⟨fun h => ?_, fun h => ?_⟩
    · obtain ⟨child, hchild, mem⟩ | rfl := h
      · exact .step hchild ((ih child hchild).1 mem)
      · exact .refl y
    · cases h with
      | refl => exact .inr rfl
      | step hchild mem => exact .inl ⟨_, hchild, (ih _ hchild).2 mem⟩

theorem mem_flatMap_treeOrder (h : y ∈ s.children x) :
    y ∈ (s.children x).flatMap (s.treeOrder acyclic) :=
  mem_flatMap_childrenFirst acyclic s.descends_children h

theorem children_before {k : Nat} (hk : (s.treeOrder acyclic x)[k]? = some y) :
    (s.children y).flatMap (s.treeOrder acyclic) <:+ (s.treeOrder acyclic x).take k :=
  below_before acyclic s.descends_children hk

end Members
end SlotTree.Store
