import Mathlib.Tactic.SplitIfs
import SlotTree.Ancestry.Basic
import SlotTree.Proofs.Rank

/-!
Walking an ancestry that nobody checked. Its lists may have any lengths and hold any numbers; the
steps are the pairs taken from their far ends, as many as both lists have. A step that leads
nowhere is the answer before it matters whether one of the lists goes on.
-/

namespace SlotTree

namespace Store

variable {s : Store} {x y : NodeId} {slot index : Int} {steps : List (Int × Int)} {e : Fault}

/-- What a step out of a node reports when it leads nowhere. Its position is looked at only where
there is such a slot. -/
inductive Misstep (s : Store) (x : NodeId) : Int → Int → Fault → Prop where
  | slot {slot : Int} (index : Int) (outside : ¬ (0 ≤ slot ∧ slot < s.slotCount x)) :
      Misstep s x slot index (.slotRange slot (s.slotCount x))
  | position {slot : Nat} {index : Int} (inside : slot < s.slotCount x)
      (outside : ¬ (0 ≤ index ∧ index < (s.slot x slot).size)) :
      Misstep s x slot index (.childRange index slot (s.slot x slot).size)

theorem Misstep.faultClass (misstep : s.Misstep x slot index e) :
    e.faultClass = some .slotIndex := by
  cases misstep <;> rfl

theorem Misstep.readChild (misstep : s.Misstep x slot index e) :
    s.readChild x index slot = .error e := by
  cases misstep with
  | slot index outside =>
    simp [Store.readChild, readSlot, checkSlot, outside, Except.map, bind, Except.bind]
  | @position slot index inside outside =>
    have read : s.readSlot x slot = .ok (s.slot x slot) := by
      simp [readSlot, checkSlot_natCast, inside, Except.map]
    by_cases negative : index < 0
    · simp [Store.readChild, read, bind, Except.bind, Int.not_le.2 negative]
    · obtain ⟨j, rfl⟩ := Int.eq_ofNat_of_zero_le (Int.not_lt.1 negative)
      have beyond : (s.slot x slot).size ≤ j := by omega
      simp [Store.readChild, read, bind, Except.bind, beyond]

theorem childAt_or_misstep (s : Store) (x : NodeId) (slot index : Int) :
    (∃ (i j : Nat) (y : NodeId), slot = i ∧ index = j ∧ s.childAt x i j = some y) ∨
      ∃ e, s.Misstep x slot index e := by
  by_cases bounds : 0 ≤ slot ∧ slot < s.slotCount x
  · obtain ⟨i, rfl⟩ := Int.eq_ofNat_of_zero_le bounds.1
    by_cases inside : 0 ≤ index ∧ index < (s.slot x i).size
    · obtain ⟨j, rfl⟩ := Int.eq_ofNat_of_zero_le inside.1
      have within : j < (s.slot x i).size := Int.ofNat_lt.1 inside.2
      exact .inl ⟨i, j, _, rfl, rfl, Array.getElem?_eq_getElem within⟩
    · exact .inr ⟨_, .position (Int.ofNat_lt.1 bounds.2) inside⟩
  · exact .inr ⟨_, .slot index bounds⟩

theorem readChild_eq_error_iff :
    s.readChild x index slot = .error e ↔ s.Misstep x slot index e := by
  refine ⟨fun failed => ?_, Misstep.readChild⟩
  obtain ⟨i, j, y, rfl, rfl, at_child⟩ | ⟨e', misstep⟩ := childAt_or_misstep s x slot index
  · have read := readChild_eq_ok_iff.2 ⟨i, j, rfl, rfl, at_child⟩
    cases failed.symm.trans read
  · cases failed.symm.trans misstep.readChild
    exact misstep

def walkSteps (p : Path) : List (Int × Int) := p.map fun q => ((q.1 : Int), (q.2 : Int))

def LeadsDown (s : Store) (x : NodeId) (steps : List (Int × Int)) (y : NodeId) : Prop :=
  ∃ p, steps = walkSteps p ∧ s.nodeAt x p = some y

def GoesAstray (s : Store) (x : NodeId) (steps : List (Int × Int)) (e : Fault) : Prop :=
  ∃ front slot index back y, steps = front ++ (slot, index) :: back ∧
    s.LeadsDown x front y ∧ s.Misstep y slot index e

theorem descend_eq_ok_iff_leadsDown : s.descend x steps = .ok y ↔ s.LeadsDown x steps y :=
  descend_eq_ok_iff

theorem descend_append (x : NodeId) (front back : List (Int × Int)) :
    s.descend x (front ++ back) = s.descend x front >>= fun y => s.descend y back := by
  induction front generalizing x with
  | nil => rfl
  | cons step front ih =>
    obtain ⟨slot, index⟩ := step
    simp only [List.cons_append, descend]
    cases s.readChild x index slot with
    | error e => rfl
    | ok child => exact ih child

theorem descend_eq_error_iff : s.descend x steps = .error e ↔ s.GoesAstray x steps e := by
  constructor
  · intro failed
    induction steps generalizing x with
    | nil => cases failed
    | cons step steps ih =>
      obtain ⟨slot, index⟩ := step
      cases read : s.readChild x index slot with
      | error e' =>
        simp only [descend, read] at failed
        cases failed
        exact ⟨[], slot, index, steps, x, rfl, ⟨[], rfl, rfl⟩, readChild_eq_error_iff.1 read⟩
      | ok child =>
        simp only [descend, read] at failed
        obtain ⟨front, slot', index', back, y, rfl, leads, misstep⟩ := ih failed
        refine ⟨(slot, index) :: front, slot', index', back, y, rfl, ?_, misstep⟩
        rw [← descend_eq_ok_iff_leadsDown] at leads ⊢
        simp only [descend, read, leads]
  · rintro ⟨front, slot, index, back, y, rfl, leads, misstep⟩
    rw [descend_append, descend_eq_ok_iff_leadsDown.2 leads]
    simp [bind, Except.bind, descend, misstep.readChild]

end Store

namespace Ancestry

variable {s : Store} {a b : Ancestry} {root x y : NodeId} {e : Fault}

def stepsDown (a : Ancestry) : List (Int × Int) := a.slots.reverse.zip a.positions.reverse

theorem length_stepsDown (a : Ancestry) :
    a.stepsDown.length = min a.slots.length a.positions.length := by
  simp [stepsDown]

theorem getElem?_stepsDown {i : Nat} (h : i < min a.slots.length a.positions.length)
    (slot index : Int) : a.stepsDown[i]? = some (slot, index) ↔
      a.slots[a.slots.length - 1 - i]? = some slot ∧
      a.positions[a.positions.length - 1 - i]? = some index := by
  rw [stepsDown, List.getElem?_zip_eq_some, List.getElem?_reverse (by omega),
    List.getElem?_reverse (by omega)]

/-- What lists of different lengths report, and when. -/
inductive Uneven (a : Ancestry) : Fault → Prop where
  | positionsEnd (h : a.positions.length < a.slots.length) : Uneven a .secondShorter
  | slotsEnd (h : a.slots.length < a.positions.length) : Uneven a .secondLonger

theorem retraceSteps_eq (s : Store) (x : NodeId) (slots positions : List Int) :
    retraceSteps s x slots positions = s.descend x (slots.zip positions) >>= fun y =>
      if positions.length < slots.length then .error .secondShorter
      else if slots.length < positions.length then .error .secondLonger
      else .ok y := by
  induction slots generalizing x positions with
  | nil => cases positions <;> simp [retraceSteps, Store.descend, bind, Except.bind]
  | cons slot slots ih =>
    cases positions with
    | nil => simp [retraceSteps, Store.descend, bind, Except.bind]
    | cons index positions =>
      simp only [retraceSteps, List.zip_cons_cons, Store.descend, List.length_cons,
        Nat.add_lt_add_iff_right]
      cases s.readChild x index slot with
      | error e => rfl
      | ok child => exact ih child positions

theorem retrace_eq (last : a.ancestors.getLast? = some root) :
    a.retrace s = s.descend root a.stepsDown >>= fun y =>
      if a.positions.length < a.slots.length then .error .secondShorter
      else if a.slots.length < a.positions.length then .error .secondLonger
      else .ok y := by
  rw [retrace, last, stepsDown]
  simpa using retraceSteps_eq s root a.slots.reverse a.positions.reverse

theorem retrace_eq_ok_iff (last : a.ancestors.getLast? = some root) :
    a.retrace s = .ok y ↔
      a.slots.length = a.positions.length ∧ s.LeadsDown root a.stepsDown y := by
  rw [retrace_eq last, ← Store.descend_eq_ok_iff_leadsDown]
  cases s.descend root a.stepsDown with
  | error e => simp [bind, Except.bind]
  | ok z =>
    simp only [bind, Except.bind]
    split_ifs with less more
    · rw [false_iff]
      exact fun both => Nat.ne_of_gt less both.1
    · rw [false_iff]
      exact fun both => Nat.ne_of_lt more both.1
    · have same : a.slots.length = a.positions.length := by omega
      simp [same]

theorem retrace_eq_error_iff (last : a.ancestors.getLast? = some root) :
    a.retrace s = .error e ↔ s.GoesAstray root a.stepsDown e ∨
      (∃ y, s.LeadsDown root a.stepsDown y) ∧ a.Uneven e := by
  simp only [retrace_eq last, ← Store.descend_eq_ok_iff_leadsDown, ← Store.descend_eq_error_iff]
  cases s.descend root a.stepsDown with
  | error e' => simp [bind, Except.bind]
  | ok y =>
    simp only [reduceCtorEq, false_or, Except.ok.injEq, exists_eq', true_and]
    constructor
    · intro failed
      simp only [bind, Except.bind] at failed
      split_ifs at failed with less more
      · cases failed
        exact .positionsEnd less
      · cases failed
        exact .slotsEnd more
    · intro uneven
      cases uneven with
      | positionsEnd less => simp [bind, Except.bind, less]
      | slotsEnd more => simp [bind, Except.bind, more, Nat.le_of_lt more]

/-- Without ancestors the target is the answer. Else the walk starts at the last of them and takes
the steps that both lists have; the first that leads nowhere is reported, only then the lengths,
and only then the node reached. The target and the other ancestors do not matter. -/
theorem retrace_reports_first_failure (s : Store) (a : Ancestry) :
    (a.ancestors = [] → a.retrace s = .ok a.target) ∧
    a.stepsDown.length = min a.slots.length a.positions.length ∧
    (∀ i < min a.slots.length a.positions.length, ∀ slot index,
      a.stepsDown[i]? = some (slot, index) ↔
        a.slots[a.slots.length - 1 - i]? = some slot ∧
        a.positions[a.positions.length - 1 - i]? = some index) ∧
    ∀ root, a.ancestors.getLast? = some root →
      (∀ y, a.retrace s = .ok y ↔
        a.slots.length = a.positions.length ∧ s.LeadsDown root a.stepsDown y) ∧
      (∀ e, a.retrace s = .error e ↔ s.GoesAstray root a.stepsDown e ∨
        (∃ y, s.LeadsDown root a.stepsDown y) ∧ a.Uneven e) ∧
      (∀ e, s.GoesAstray root a.stepsDown e → e.faultClass = some .slotIndex) ∧
      (∀ b : Ancestry, b.ancestors.getLast? = some root → b.slots = a.slots →
        b.positions = a.positions → b.retrace s = a.retrace s) := by
  refine ⟨fun none => by rw [retrace, none]; rfl, length_stepsDown a,
    fun i h => getElem?_stepsDown h, fun root last => ⟨fun y => retrace_eq_ok_iff last,
      fun e => retrace_eq_error_iff last, ?_, fun b last' slots positions => ?_⟩⟩
  · rintro e ⟨_, _, _, _, _, -, -, misstep⟩
    exact misstep.faultClass
  · rw [retrace, retrace, last, last', slots, positions]

def freehand (slots positions : List Int) : Ancestry := ⟨3, [0, 2], slots, positions⟩

theorem retrace_reports_first_failure_trellis :
    (freehand [] []).ancestors.getLast? = some 2 ∧
    (freehand [0, 0, 7] [1, 1]).retrace Store.trellis = .error (.slotRange 7 3) ∧
    Store.trellis.GoesAstray 2 [(7, 1), (0, 1)] (.slotRange 7 3) ∧
    (freehand [0, 0] [-1, 1]).retrace Store.trellis = .error (.childRange (-1) 0 2) ∧
    Store.trellis.GoesAstray 2 [(0, 1), (0, -1)] (.childRange (-1) 0 2) ∧
    (freehand [9, 0, 0] [1, 1]).retrace Store.trellis = .error .secondShorter ∧
    Store.trellis.LeadsDown 2 [(0, 1), (0, 1)] 0 ∧
    (∀ target, Ancestry.retrace Store.trellis ⟨target, [1, 1, 2], [0, 0, 7], [1, 1]⟩ =
      .error (.slotRange 7 3)) := by
  have outcomes (slots positions : List Int) :=
    (retrace_reports_first_failure Store.trellis (freehand slots positions)).2.2.2 2 rfl
  have slot : (freehand [0, 0, 7] [1, 1]).retrace Store.trellis = .error (.slotRange 7 3) := by
    decide
  have position : (freehand [0, 0] [-1, 1]).retrace Store.trellis =
      .error (.childRange (-1) 0 2) := by decide
  have lengths : (freehand [9, 0, 0] [1, 1]).retrace Store.trellis = .error .secondShorter := by
    decide
  have even : (freehand [0, 0] [1, 1]).retrace Store.trellis = .ok 0 := by decide
  refine ⟨rfl, slot, ?_, position, ?_, lengths, ?_, fun target => ?_⟩
  · obtain astray | ⟨-, ⟨⟩⟩ := ((outcomes [0, 0, 7] [1, 1]).2.1 _).1 slot
    exact astray
  · obtain astray | ⟨-, ⟨⟩⟩ := ((outcomes [0, 0] [-1, 1]).2.1 _).1 position
    exact astray
  · exact (((outcomes [0, 0] [1, 1]).1 0).1 even).2
  · have same := (outcomes [0, 0, 7] [1, 1]).2.2.2
    exact (same ⟨target, [1, 1, 2], [0, 0, 7], [1, 1]⟩ rfl rfl rfl).trans slot

end Ancestry
end SlotTree
