import SlotTree.Compare.Matching
import SlotTree.Proofs.Endings

/-!
Runs of a match as values. A run goes on after another only when that one ended in `true`, and then
the calls of both stand one behind the other; a list of runs is gone through up to the first that
did not. Nothing that stands behind that one shows in the outcome or in the calls.
-/

namespace SlotTree.MatchRun

def ask (comparator : Comparator) (left right : NodeId) : MatchRun :=
  ⟨comparator left right, #[(left, right)]⟩

def require (condition : Bool) : MatchRun := ⟨.ok condition, #[]⟩

def andThen (first second : MatchRun) : MatchRun :=
  match first.outcome with
  | .ok true => ⟨second.outcome, first.trace ++ second.trace⟩
  | _ => first

def inTurn : List MatchRun → MatchRun
  | [] => require true
  | run :: runs => run.andThen (inTurn runs)

theorem andThen_of_true {first : MatchRun} (h : first.outcome = .ok true) (second : MatchRun) :
    first.andThen second = ⟨second.outcome, first.trace ++ second.trace⟩ := by
  rw [andThen, h]

theorem andThen_of_ne {first : MatchRun} (h : first.outcome ≠ .ok true) (second : MatchRun) :
    first.andThen second = first := by
  unfold andThen
  split
  · rename_i succeeded
    exact absurd succeeded h
  · rfl

@[simp] theorem require_true_andThen (run : MatchRun) : (require true).andThen run = run := by
  rw [andThen_of_true rfl, require, Array.empty_append]

theorem andThen_assoc (a b c : MatchRun) : (a.andThen b).andThen c = a.andThen (b.andThen c) := by
  by_cases ha : a.outcome = .ok true
  · rw [andThen_of_true ha b, andThen_of_true ha]
    let both : MatchRun := ⟨b.outcome, a.trace ++ b.trace⟩
    by_cases hb : b.outcome = .ok true
    · have succeeded : both.outcome = .ok true := hb
      rw [andThen_of_true succeeded c, andThen_of_true hb c, Array.append_assoc]
    · have stopped : both.outcome ≠ .ok true := hb
      rw [andThen_of_ne stopped c, andThen_of_ne hb c]
  · rw [andThen_of_ne ha b, andThen_of_ne ha c, andThen_of_ne ha]

theorem inTurn_append (first later : List MatchRun) :
    inTurn (first ++ later) = (inTurn first).andThen (inTurn later) := by
  induction first with
  | nil => exact (require_true_andThen _).symm
  | cons run runs ih => rw [List.cons_append, inTurn, ih, inTurn, andThen_assoc]

/-! How a walk over a stack ends that does what a run says. -/

def ending (run : MatchRun) (before : MatchTrace) : Worklist.Ending MatchTrace MatchRun :=
  match run.outcome with
  | .ok true => .left (before ++ run.trace)
  | outcome => .answered ⟨outcome, before ++ run.trace⟩

theorem ending_of_true {run : MatchRun} (h : run.outcome = .ok true) (before : MatchTrace) :
    run.ending before = .left (before ++ run.trace) := by
  rw [ending, h]

theorem ending_of_ne {run : MatchRun} (h : run.outcome ≠ .ok true) (before : MatchTrace) :
    run.ending before = .answered ⟨run.outcome, before ++ run.trace⟩ := by
  unfold ending
  split
  · rename_i succeeded
    exact absurd succeeded h
  · rfl

theorem ending_andThen (first second : MatchRun) (before : MatchTrace) :
    (first.andThen second).ending before = (first.ending before).bind second.ending := by
  by_cases h : first.outcome = .ok true
  · rw [andThen_of_true h, ending_of_true h, Worklist.Ending.bind, ending, ending]
    simp only [Array.append_assoc]
  · rw [andThen_of_ne h, ending_of_ne h, Worklist.Ending.bind]

/-! When a run succeeds. -/

theorem outcome_andThen_eq_true_iff {first second : MatchRun} :
    (first.andThen second).outcome = .ok true ↔
      first.outcome = .ok true ∧ second.outcome = .ok true := by
  by_cases h : first.outcome = .ok true
  · rw [andThen_of_true h]
    exact (and_iff_right h).symm
  · rw [andThen_of_ne h]
    exact ⟨fun succeeded => absurd succeeded h, fun both => both.1⟩

theorem outcome_inTurn_eq_true_iff {runs : List MatchRun} :
    (inTurn runs).outcome = .ok true ↔ ∀ run ∈ runs, run.outcome = .ok true := by
  induction runs with
  | nil => simp [inTurn, require]
  | cons run runs ih => rw [inTurn, outcome_andThen_eq_true_iff, ih, List.forall_mem_cons]

def Decides (run : MatchRun) : Prop := ∃ b, run.outcome = .ok b

theorem Decides.andThen {first second : MatchRun} (hfirst : first.Decides)
    (hsecond : second.Decides) : (first.andThen second).Decides := by
  by_cases h : first.outcome = .ok true
  · rw [andThen_of_true h]
    exact hsecond
  · rw [andThen_of_ne h]
    exact hfirst

theorem Decides.inTurn {runs : List MatchRun} (each : ∀ run ∈ runs, run.Decides) :
    (MatchRun.inTurn runs).Decides := by
  induction runs with
  | nil => exact ⟨true, rfl⟩
  | cons run runs ih =>
    have rest := ih fun later mem => each later (List.mem_cons_of_mem run mem)
    exact (each run List.mem_cons_self).andThen rest

/-! Runs that fail. -/

variable {comparator : Comparator}

/-- A run that fails does so as the comparator does on the last pair that it was asked. -/
def Blames (run : MatchRun) (comparator : Comparator) : Prop :=
  ∀ e, run.outcome = .error e →
    ∃ pair, run.trace.back? = some pair ∧ comparator pair.1 pair.2 = .error e

theorem blames_ask (left right : NodeId) : (ask comparator left right).Blames comparator :=
  fun _ failed => ⟨(left, right), rfl, failed⟩

theorem blames_require (condition : Bool) : (require condition).Blames comparator := by
  rintro e ⟨⟩

theorem Blames.andThen {first second : MatchRun} (hfirst : first.Blames comparator)
    (hsecond : second.Blames comparator) : (first.andThen second).Blames comparator := by
  by_cases h : first.outcome = .ok true
  · rw [andThen_of_true h]
    intro e failed
    obtain ⟨pair, last, answer⟩ := hsecond e failed
    exact ⟨pair, by rw [Array.back?_append, last, Option.some_or], answer⟩
  · rw [andThen_of_ne h]
    exact hfirst

theorem Blames.inTurn {runs : List MatchRun} (each : ∀ run ∈ runs, run.Blames comparator) :
    (MatchRun.inTurn runs).Blames comparator := by
  induction runs with
  | nil => exact blames_require true
  | cons run runs ih =>
    have rest := ih fun later mem => each later (List.mem_cons_of_mem run mem)
    exact (each run List.mem_cons_self).andThen rest

end SlotTree.MatchRun
