import SlotTree.Proofs.Acyclicity
import SlotTree.Proofs.MatchOrder

/-!
Matches while trees grow, under a comparator that sees nothing but payloads. A lenient match only
looks at places that the pattern has, so that it asks the same questions again in any later store in
which the pattern is what it was. One more child in the pattern alone breaks a match, under either
policy; a pattern whose slots are cut short still matches leniently.
-/

namespace SlotTree

def Path.Survives (keep : Path → Nat → Nat) (p : Path) : Prop :=
  ∀ (q : Path) (slot index : Nat), q ++ [(slot, index)] <+: p → index < keep q slot

theorem Path.survives_concat {keep : Path → Nat → Nat} {p : Path} {slot index : Nat} :
    Path.Survives keep (p ++ [(slot, index)]) ↔ Path.Survives keep p ∧ index < keep p slot := by
  simp only [Path.Survives, List.prefix_concat_iff]
  refine ⟨fun h => ⟨fun q i j before => h q i j (.inr before), h p slot index (.inl rfl)⟩, ?_⟩
  intro h q i j reached
  obtain eq | before := reached
  · obtain ⟨rfl, last⟩ := List.append_inj' eq rfl
    cases last
    exact h.2
  · exact h.1 q i j before

theorem zip_of_isPrefix {α β : Type} {xs : List α} {ys zs : List β} (front : ys <+: zs)
    (short : xs.length ≤ ys.length) : xs.zip zs = xs.zip ys := by
  obtain ⟨later, rfl⟩ := front
  have cut {ws : List β} (le : xs.length ≤ ws.length) : xs.zip ws = xs.zip (ws.take xs.length) := by
    rw [List.zip_eq_zip_take_min, Nat.min_eq_left le, List.take_length]
  have longer : xs.length ≤ (ys ++ later).length := by
    rw [List.length_append]
    omega
  rw [cut longer, cut short, List.take_append_of_le_length short]

def Action.Beside (s : Store) (x : NodeId) (a : Action) : Prop :=
  ∀ y child slot, a = .append y child slot → ¬ s.Reaches x y

namespace Store

variable {s t u : Store} {x y z m p : NodeId} {q : Path} {keep : Path → Nat → Nat}
  {policy : CountPolicy} {accepts : Payload → Payload → Bool}

def byPayloads (s : Store) (accepts : Payload → Payload → Bool) : Comparator := fun left right =>
  .ok (accepts (s.payload left) (s.payload right))

theorem byPayloads_congr {a b a' b' : NodeId} (left : t.payload a' = s.payload a)
    (right : t.payload b' = s.payload b) :
    t.byPayloads accepts a' b' = s.byPayloads accepts a b := by
  rw [byPayloads, byPayloads, left, right]

theorem outcome_byPayloads_eq_false (acyclic : s.Acyclic)
    (uncontained : ¬ s.ContainedIn (fun left right => s.byPayloads accepts left right = .ok true)
      policy x y) :
    (s.matchTrees (some x) (some y) (some (s.byPayloads accepts)) policy).outcome = .ok false := by
  rw [matchTrees_eq_matchBelow acyclic]
  obtain ⟨b, answer⟩ : (s.matchBelow acyclic (s.byPayloads accepts) policy x y).Decides :=
    matchBelow_decides acyclic (fun left right => ⟨_, rfl⟩) x y
  cases b with
  | false => exact answer
  | true => exact absurd ((outcome_matchBelow_eq_true_iff acyclic x y).1 answer) uncontained

/-! Runs beside a tree. -/

/-- In `t`, the node `x` and all that stands below it are what they were in `s`. -/
def KeptBelow (s t : Store) (x : NodeId) : Prop := ∀ z, s.Reaches x z → t.node z = s.node z

namespace KeptBelow

theorem refl (s : Store) (x : NodeId) : s.KeptBelow s x := fun _ _ => rfl

theorem child (kept : s.KeptBelow t x) (child : y ∈ s.children x) : s.KeptBelow t y :=
  fun z below => kept z (.step child below)

theorem reaches_iff (kept : s.KeptBelow t x) : t.Reaches x y ↔ s.Reaches x y := by
  refine reaches_iff_of_children (P := s.Reaches x) (fun z below w => below.child) ?_ (.refl x)
  intro z below
  rw [children, kept z below, children]

theorem trans (first : s.KeptBelow t x) (second : t.KeptBelow u x) : s.KeptBelow u x := by
  intro z below
  rw [second z (first.reaches_iff.2 below), first z below]

end KeptBelow

/-- A run that leaves the tree below `x` alone. -/
inductive RunBeside (x : NodeId) : Store → Store → Prop where
  | refl (s : Store) : RunBeside x s s
  | step {s t : Store} (a : Action) : a.Fits s → a.Beside s x → RunBeside x (s.after a) t →
      RunBeside x s t

theorem RunBeside.toRun (run : RunBeside x s t) : Run s t := by
  induction run with
  | refl s => exact .refl s
  | step a fits _ _ ih => exact .step a fits ih

theorem Change.keptBelow {a : Action} (change : s.Change a t) (closed : s.Closed)
    (hx : x < s.count) (beside : a.Beside s x) : s.KeptBelow t x := by
  intro z below
  obtain kept | ⟨y, c, i, appended, -, -, grown⟩ := change.kept_or_grown
  · exact kept.node_eq z (closed.lt_count_of_reaches hx below)
  · have apart : z ≠ y := fun same => beside y (some c) i appended (same ▸ below)
    exact grown.others z apart

theorem RunBeside.keptBelow (run : RunBeside x s t) (closed : s.Closed) (hx : x < s.count) :
    s.KeptBelow t x := by
  induction run with
  | refl s => exact .refl s x
  | step a fits beside _ ih =>
    have change := change_after closed fits
    have later := ih (change.closed closed) (Nat.lt_of_lt_of_le hx change.extends.count_le)
    exact (change.keptBelow closed hx beside).trans later

/-! The same match later. -/

section Later

variable (grown : s.Extends t)
include grown

theorem childPairs_of_grown {i : Nat} (kept : t.node x = s.node x) (hy : y < s.count)
    (short : (s.slot x i).size ≤ (s.slot y i).size) :
    t.childPairs x y i = s.childPairs x y i := by
  rw [childPairs, childPairs, slot, kept, ← slot]
  exact zip_of_isPrefix (grown.slot_grows y hy i) (by simpa using short)

variable (acyclic : s.Acyclic) (acyclic' : t.Acyclic)

theorem matchSlot_of_grown {i : Nat} (kept : t.node x = s.node x) (hy : y < s.count)
    (short : (s.slot x i).size ≤ (s.slot y i).size)
    (each : ∀ pair ∈ s.childPairs x y i,
      t.matchBelow acyclic' (t.byPayloads accepts) .lenient pair.1 pair.2 =
        s.matchBelow acyclic (s.byPayloads accepts) .lenient pair.1 pair.2) :
    t.matchSlot acyclic' (t.byPayloads accepts) .lenient x y i =
      s.matchSlot acyclic (s.byPayloads accepts) .lenient x y i := by
  have slot : t.slot x i = s.slot x i := by rw [Store.slot, kept, Store.slot]
  have longer : (s.slot y i).size ≤ (t.slot y i).size := (grown.slot_grows y hy i).length_le
  have allowed : CountPolicy.lenient.allows (s.slot x i).size (s.slot y i).size = true :=
    CountPolicy.allows_iff.2 short
  have allowed' : CountPolicy.lenient.allows (t.slot x i).size (t.slot y i).size = true :=
    CountPolicy.allows_iff.2 (slot ▸ Nat.le_trans short longer)
  rw [matchSlot, matchSlot, allowed, allowed', childPairs_of_grown grown kept hy short,
    List.map_congr_left each]

theorem matchBelow_of_grown (closed : s.Closed) (hx : x < s.count) (hy : y < s.count)
    (kept : s.KeptBelow t x)
    (matched : (s.matchBelow acyclic (s.byPayloads accepts) .lenient x y).outcome = .ok true) :
    t.matchBelow acyclic' (t.byPayloads accepts) .lenient x y =
      s.matchBelow acyclic (s.byPayloads accepts) .lenient x y := by
  induction x using acyclic.induction generalizing y with
  | step x ih =>
    have asked : MatchRun.ask (t.byPayloads accepts) x y =
        MatchRun.ask (s.byPayloads accepts) x y := by
      have same : t.byPayloads accepts x y = s.byPayloads accepts x y :=
        byPayloads_congr (grown.payload_eq x hx) (grown.payload_eq y hy)
      rw [MatchRun.ask, MatchRun.ask, same]
    rw [matchBelow_eq, MatchRun.outcome_andThen_eq_true_iff, MatchRun.outcome_andThen_eq_true_iff,
      MatchRun.outcome_inTurn_eq_true_iff, List.forall_mem_map] at matched
    obtain ⟨-, -, slots⟩ := matched
    rw [matchBelow_eq, matchBelow_eq, asked, grown.slotCount_eq x hx, grown.slotCount_eq y hy]
    congr 3
    refine List.map_congr_left fun i mem => ?_
    obtain ⟨short, pairs⟩ := (outcome_matchSlot_eq_true_iff acyclic x y i).1 (slots i mem)
    -- no slot of the pattern is longer than that of the target, so the pairs are the same ones
    refine matchSlot_of_grown grown acyclic acyclic' (kept x (.refl x)) hy short ?_
    intro pair paired
    have left := left_of_mem_childPairs paired
    have right := right_of_mem_childPairs paired
    exact ih pair.1 left (closed x _ left) (closed y _ right) (kept.child left) (pairs pair paired)

end Later

/-! Overgrown patterns. -/

theorem not_containedIn_of_more {R : NodeId → NodeId → Prop} {i : Nat}
    (hx : s.nodeAt p q = some x) (hy : s.nodeAt m q = some y)
    (more : (s.slot y i).size < (s.slot x i).size) : ¬ s.ContainedIn R policy p m := by
  intro contained
  obtain ⟨right, at_end, fits⟩ := contained q x hx
  cases at_end.symm.trans hy
  have inside : i < s.slotCount x := by
    by_contra beyond
    have empty : s.slot x i = #[] := Node.slot_of_le (Nat.le_of_not_lt beyond)
    simp [empty] at more
  exact Nat.not_le_of_lt more (fits.admitted i inside).lenient

theorem overgrown_of_append {c : NodeId} {i : Nat} (acyclic : s.Acyclic)
    (hx : s.nodeAt p q = some x) (hy : s.nodeAt m q = some y) (inside : i < s.slotCount x)
    (same : (s.slot x i).size = (s.slot y i).size) (apart : ¬ s.Reaches m x)
    (ahead : ¬ s.Reaches c x) :
    ((s.grow x i c).matchTrees (some p) (some m) (some ((s.grow x i c).byPayloads accepts))
      policy).outcome = .ok false := by
  have acyclic' : (s.grow x i c).Acyclic := (acyclic_grow_iff inside acyclic).2 ahead
  have grown := s.grownBy_grow (c := c) inside
  have ne : y ≠ x := fun eq => apart (reaches_iff_nodeAt.2 ⟨q, eq ▸ hy⟩)
  have kept : (s.grow x i c).slot y i = s.slot y i := by rw [slot, grown.others y ne, slot]
  refine outcome_byPayloads_eq_false acyclic' ?_
  have later := Extends.grow s x i c
  refine not_containedIn_of_more (later.nodeAt hx) (later.nodeAt hy) (i := i) ?_
  rw [kept, grown.slot, Array.size_push, same]
  exact Nat.lt_succ_self _

/-! Patterns cut short. -/

/-- The unfolding of `x` is that of `y`, but that each slot is cut to the first children, as many as
`keep` says for the slot and the path that leads there. -/
structure Truncated (s : Store) (keep : Path → Nat → Nat) (x y : NodeId) : Prop where
  kept : ∀ p, Path.Survives keep p → Option.Rel
    (fun a b => s.payload a = s.payload b ∧ s.slotCount a = s.slotCount b)
    (s.nodeAt x p) (s.nodeAt y p)
  cut : ∀ p, ¬ Path.Survives keep p → s.nodeAt x p = none

namespace Truncated

variable (truncated : s.Truncated keep x y)
include truncated

theorem survives (h : s.nodeAt x q = some z) : Path.Survives keep q := by
  by_contra lost
  cases (truncated.cut q lost).symm.trans h

theorem exists_whole {a : NodeId} (ha : s.nodeAt x q = some a) :
    ∃ b, s.nodeAt y q = some b ∧ s.payload a = s.payload b ∧ s.slotCount a = s.slotCount b := by
  have related := truncated.kept q (truncated.survives ha)
  rw [ha] at related
  exact exists_right_of_rel related

theorem size_slot {a b : NodeId} (ha : s.nodeAt x q = some a) (hb : s.nodeAt y q = some b)
    (i : Nat) : (s.slot a i).size = min (keep q i) (s.slot b i).size := by
  have within (index : Nat) :
      index < (s.slot a i).size ↔ index < keep q i ∧ index < (s.slot b i).size := by
    rw [lt_size_slot_iff, lt_size_slot_iff, ← nodeAt_concat ha, ← nodeAt_concat hb]
    have alive := truncated.survives ha
    by_cases further : Path.Survives keep (q ++ [(i, index)])
    · rw [isSome_eq_of_rel (truncated.kept _ further), and_iff_right]
      exact (Path.survives_concat.1 further).2
    · have beyond : ¬ index < keep q i := fun lt => further (Path.survives_concat.2 ⟨alive, lt⟩)
      simp [truncated.cut _ further, beyond]
  have left := within (s.slot a i).size
  have right := within (min (keep q i) (s.slot b i).size)
  omega

theorem containedIn
    (contained : s.ContainedIn (fun left right => s.byPayloads accepts left right = .ok true)
      .lenient y m) :
    s.ContainedIn (fun left right => s.byPayloads accepts left right = .ok true) .lenient x m := by
  intro q a ha
  obtain ⟨b, hb, payload, slotCount⟩ := truncated.exists_whole ha
  obtain ⟨right, hr, fits⟩ := contained q b hb
  refine ⟨right, hr, ?accepted, ?slotCount, fun i hi => ?admitted⟩
  case accepted =>
    rw [byPayloads_congr payload rfl]
    exact fits.accepted
  case slotCount => exact slotCount.trans fits.slotCount
  case admitted =>
    have whole : (s.slot b i).size ≤ (s.slot right i).size := fits.admitted i (slotCount ▸ hi)
    have less : (s.slot a i).size ≤ (s.slot b i).size := by
      rw [truncated.size_slot ha hb i]
      exact Nat.min_le_right _ _
    exact Nat.le_trans less whole

end Truncated

/-- Let a pattern match a target by payloads. A lenient match stays one, and by the same calls, as
long as nothing is appended to what stands below the pattern. Whatever the policy, one more child in
a slot that was as full as the target's undoes the match, if the node is none of the target's and
the child does not lead back to it. And the pattern matches leniently as well when its unfolding is
truncated anywhere. -/
theorem matches_under_growth {s : Store} (closed : s.Closed) (acyclic : s.Acyclic) {p m : NodeId}
    (hp : p < s.count) (hm : m < s.count) (accepts : Payload → Payload → Bool) :
    (s.Matches (s.byPayloads accepts) .lenient p m → ∀ t, RunBeside p s t → t.Acyclic →
      t.Matches (t.byPayloads accepts) .lenient p m ∧
      (t.matchTrees (some p) (some m) (some (t.byPayloads accepts)) .lenient).trace =
        (s.matchTrees (some p) (some m) (some (s.byPayloads accepts)) .lenient).trace) ∧
    (∀ policy, s.Matches (s.byPayloads accepts) policy p m → ∀ q x, s.nodeAt p q = some x →
      ∃ y, s.nodeAt m q = some y ∧ ∀ c i, s.kind x = .growable → i < s.slotCount x →
        (s.slot x i).size = (s.slot y i).size → ¬ s.Reaches m x → ¬ s.Reaches c x →
        ∃ t, s.append x (some c) i = .ok t ∧ ∀ policy', (t.matchTrees (some p) (some m)
          (some (t.byPayloads accepts)) policy').outcome = .ok false) ∧
    (s.Matches (s.byPayloads accepts) .lenient p m → ∀ keep p', s.Truncated keep p' p →
      s.Matches (s.byPayloads accepts) .lenient p' m) := by
  refine ⟨fun matched t run acyclic' => ?survives, fun policy matched q x hx => ?overgrown,
    fun matched keep p' truncated => ?truncated⟩
  case survives =>
    have grown := run.toRun.extends closed
    have kept := run.keptBelow closed hp
    rw [Matches, matchTrees_eq_matchBelow acyclic] at matched
    rw [Matches, matchTrees_eq_matchBelow acyclic', matchTrees_eq_matchBelow acyclic,
      matchBelow_of_grown grown acyclic acyclic' closed hp hm kept matched]
    exact ⟨matched, rfl⟩
  case overgrown =>
    obtain ⟨y, hy, -⟩ := (matches_iff acyclic).1 matched q x hx
    refine ⟨y, hy, fun c i growable inside same apart ahead => ?_⟩
    refine ⟨s.grow x i c, ?_, fun policy' => ?_⟩
    · exact append_eq_ok_iff.2 ⟨growable, c, i, rfl, rfl, inside, rfl⟩
    · exact overgrown_of_append acyclic hx hy inside same apart ahead
  case truncated =>
    rw [matches_iff acyclic] at matched ⊢
    exact truncated.containedIn matched

theorem boughs_children_lt : ∀ x < boughs.count, ∀ y ∈ boughs.children x, y < x := by decide

def thicket : Store := ⟨#[
  ⟨.growable, .value (.bool true), #[]⟩,
  ⟨.growable, .value .null, #[#[]]⟩,
  ⟨.growable, .value .null, #[#[0]]⟩,
  ⟨.growable, .value .null, #[#[0, 0, 2]]⟩,
  ⟨.frozen, .value .null, #[#[0]]⟩,
  ⟨.frozen, .value (.int 1), #[]⟩,
  ⟨.growable, .value .null, #[#[5, 3]]⟩]⟩

theorem runBeside_thicket : RunBeside 2 boughs thicket := by
  have beside {s : Store} {x c : NodeId} {i : Int} (above : 2 < x)
      (lower : ∀ x < s.count, ∀ y ∈ s.children x, y < x) :
      (Action.append x (some c) i).Beside s 2 := by
    intro y child slot eq reached
    cases eq
    exact Nat.not_le_of_lt above (le_of_reaches lower reached)
  exact .step (.append 3 (some 2) 0) (by decide) (beside (by decide) boughs_children_lt) <|
    .step (.append 6 (some 3) 0) (by decide) (beside (by decide) (by decide)) <| .refl thicket

theorem truncated_boughs : boughs.Truncated (fun _ _ => 1) 2 3 := by
  have same (slot : Nat) : boughs.childAt 2 slot 0 = boughs.childAt 3 slot 0 := by
    cases slot <;> rfl
  refine ⟨fun p alive => ?kept, fun p lost => ?cut⟩
  case kept =>
    match p with
    | [] => exact .some ⟨rfl, rfl⟩
    | (slot, index) :: p =>
      obtain rfl : index = 0 := Nat.lt_one_iff.1 (alive [] slot index ⟨p, rfl⟩)
      rw [nodeAt, nodeAt, same]
      cases (boughs.childAt 3 slot 0).bind fun child => boughs.nodeAt child p with
      | none => exact .none
      | some a => exact .some ⟨rfl, rfl⟩
  case cut =>
    -- no node below 2 has more than one child in a slot
    have few : ∀ a ≤ 2, ∀ i < boughs.slotCount a, (boughs.slot a i).size ≤ 1 := by decide
    by_contra found
    obtain ⟨z, hz⟩ := Option.ne_none_iff_exists'.1 found
    refine lost fun q slot index before => ?_
    obtain ⟨rest, rfl⟩ := before
    rw [List.append_assoc, nodeAt_append] at hz
    obtain ⟨a, ha, hz⟩ := Option.bind_eq_some_iff.1 hz
    obtain ⟨b, hb, -⟩ := Option.bind_eq_some_iff.1 hz
    have low : a ≤ 2 := le_of_reaches boughs_children_lt (reaches_iff_nodeAt.2 ⟨q, ha⟩)
    have within : index < (boughs.slot a slot).size := lt_size_slot_iff.2 (by rw [hb]; rfl)
    exact Nat.lt_of_lt_of_le within (few a low slot (lt_slotCount_of_childAt hb))

theorem matches_under_growth_boughs :
    boughs.Closed ∧ boughs.Acyclic ∧ (∀ x < 7, x < boughs.count) ∧
    (boughs.Matches (boughs.byPayloads Payload.alike) .lenient 2 3 ∧ RunBeside 2 boughs thicket ∧
      thicket.Acyclic ∧ thicket.Matches (thicket.byPayloads Payload.alike) .lenient 2 3) ∧
    (boughs.Matches (boughs.byPayloads Payload.alike) .strict 6 2 ∧
      boughs.nodeAt 6 [] = some 6 ∧ boughs.nodeAt 2 [] = some 2 ∧ boughs.kind 6 = .growable ∧
      0 < boughs.slotCount 6 ∧ (boughs.slot 6 0).size = (boughs.slot 2 0).size ∧
      ¬ boughs.Reaches 2 6 ∧ ¬ boughs.Reaches 5 6 ∧
      ∃ t, boughs.append 6 (some 5) 0 = .ok t ∧ ∀ policy,
        (t.matchTrees (some 6) (some 2) (some (t.byPayloads Payload.alike)) policy).outcome =
          .ok false) ∧
    (boughs.Matches (boughs.byPayloads Payload.alike) .lenient 3 3 ∧
      boughs.Truncated (fun _ _ => 1) 2 3 ∧
      boughs.Matches (boughs.byPayloads Payload.alike) .lenient 2 3) := by
  obtain ⟨closed, acyclic⟩ := closed_acyclic_of_children_lt boughs_children_lt
  have within : ∀ x < 7, x < boughs.count := by decide
  have acyclic' : thicket.Acyclic := (closed_acyclic_of_children_lt (s := thicket) (by decide)).2
  have matched {policy : CountPolicy} {x y : NodeId}
      (run : (boughs.matchTrees (some x) (some y) (some (boughs.byPayloads Payload.alike))
        policy).outcome = .ok true) : boughs.Matches (boughs.byPayloads Payload.alike) policy x y :=
    run
  have lenient : boughs.Matches (boughs.byPayloads Payload.alike) .lenient 2 3 := matched (by cbv)
  have strict : boughs.Matches (boughs.byPayloads Payload.alike) .strict 6 2 := matched (by cbv)
  have self : boughs.Matches (boughs.byPayloads Payload.alike) .lenient 3 3 := matched (by cbv)
  have apart : ¬ boughs.Reaches 2 6 := fun reached =>
    absurd (le_of_reaches boughs_children_lt reached) (by decide)
  have ahead : ¬ boughs.Reaches 5 6 := fun reached =>
    absurd (le_of_reaches boughs_children_lt reached) (by decide)
  obtain ⟨survives, -, -⟩ :=
    matches_under_growth closed acyclic (within 2 (by decide)) (within 3 (by decide)) Payload.alike
  obtain ⟨-, overgrown, -⟩ :=
    matches_under_growth closed acyclic (within 6 (by decide)) (within 2 (by decide)) Payload.alike
  obtain ⟨-, -, truncated⟩ :=
    matches_under_growth closed acyclic (within 3 (by decide)) (within 3 (by decide)) Payload.alike
  obtain ⟨y, hy, broken⟩ := overgrown .strict strict [] 6 rfl
  cases hy
  exact ⟨closed, acyclic, within,
    ⟨lenient, runBeside_thicket, acyclic',
      (survives lenient thicket runBeside_thicket acyclic').1⟩,
    ⟨strict, rfl, rfl, rfl, by decide, rfl, apart, ahead,
      broken 5 0 rfl (by decide) rfl apart ahead⟩,
    self, truncated_boughs, truncated self _ 2 truncated_boughs⟩

end Store
end SlotTree
