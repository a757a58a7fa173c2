/-!
A walk as a stack of pending tasks. A visit either ends the walk with an answer or hands back a
new state and further tasks, which are done in the order given and before all that already waits.

Every task carries a budget: how many generations of further tasks may still descend from it. A
task that asks for more ends the walk without an answer. Over tasks taken from a finite store the
caller picks a budget that only an endless walk can exhaust, so no answer means no end.

`drain_eq_explore` says that the stack does what plain recursion on the budget does.
-/

namespace SlotTree

/-- What visiting one task leads to. -/
inductive Step (σ τ α : Type) where
  | stop (answer : α)
  | next (state : σ) (tasks : List τ)

namespace Worklist

variable {σ τ α : Type}

inductive Shrinks : List Nat → List Nat → Prop where
  | done (b : Nat) (rest : List Nat) : Shrinks rest (b :: rest)
  | spent (b count : Nat) (rest : List Nat) :
      Shrinks (List.replicate count b ++ rest) ((b + 1) :: rest)

private theorem acc_replicate {b : Nat}
    (push : ∀ rest, Acc Shrinks rest → Acc Shrinks (b :: rest)) (count : Nat) {rest : List Nat}
    (h : Acc Shrinks rest) : Acc Shrinks (List.replicate count b ++ rest) := by
  induction count with
  | zero => simpa using h
  | succ count ih => simpa [List.replicate_succ] using push _ ih

private theorem acc_cons (b : Nat) : ∀ rest, Acc Shrinks rest → Acc Shrinks (b :: rest) := by
  induction b with
  | zero => exact fun rest h => ⟨_, fun _ hy => by cases hy; exact h⟩
  | succ b ih =>
    intro rest h
    refine ⟨_, fun _ hy => ?_⟩
    cases hy with
    | done => exact h
    | spent _ count => exact acc_replicate ih count h

private theorem shrinks_wellFounded : WellFounded Shrinks := by
  refine ⟨fun stack => ?_⟩
  induction stack with
  | nil => exact ⟨_, fun _ hy => by cases hy⟩
  | cons b rest ih => exact acc_cons b rest ih

scoped instance shrinking : WellFoundedRelation (List Nat) := ⟨Shrinks, shrinks_wellFounded⟩

/-- Works a stack of budgeted tasks off; `finish` answers from the last state. -/
def drain (visit : σ → τ → Step σ τ α) (finish : σ → α) (state : σ) :
    List (Nat × τ) → Option α
  | [] => some (finish state)
  | (budget, task) :: rest =>
    match visit state task with
    | .stop answer => some answer
    | .next state [] => drain visit finish state rest
    | .next state (t :: ts) =>
      match budget with
      | 0 => none
      | budget + 1 => drain visit finish state ((t :: ts).map (Prod.mk budget) ++ rest)
termination_by stack => stack.map Prod.fst
decreasing_by
  · exact Shrinks.done _ _
  · have h := Shrinks.spent budget (t :: ts).length (rest.map Prod.fst)
    simpa [List.map_append, List.replicate_succ, Function.comp_def, List.map_const'] using h

def walk (visit : σ → τ → Step σ τ α) (finish : σ → α) (budget : Nat) (state : σ) (task : τ) :
    Option α :=
  drain visit finish state [(budget, task)]

section Stack

variable (visit : σ → τ → Step σ τ α) (finish : σ → α)

@[simp] theorem drain_nil (state : σ) : drain visit finish state [] = some (finish state) := by
  rw [drain]

theorem drain_stop {state : σ} {task : τ} {answer : α} (h : visit state task = .stop answer)
    (budget : Nat) (rest : List (Nat × τ)) :
    drain visit finish state ((budget, task) :: rest) = some answer := by
  rw [drain, h]

theorem drain_done {state after : σ} {task : τ} (h : visit state task = .next after [])
    (budget : Nat) (rest : List (Nat × τ)) :
    drain visit finish state ((budget, task) :: rest) = drain visit finish after rest := by
  rw [drain, h]

theorem drain_next {state after : σ} {task : τ} {tasks : List τ}
    (h : visit state task = .next after tasks) (budget : Nat) (rest : List (Nat × τ)) :
    drain visit finish state ((budget + 1, task) :: rest) =
      drain visit finish after (tasks.map (Prod.mk budget) ++ rest) := by
  cases tasks with
  | nil => exact drain_done visit finish h _ _
  | cons t ts => rw [drain, h]

theorem drain_exhausted {state after : σ} {task : τ} {tasks : List τ}
    (h : visit state task = .next after tasks) (tasks_ne : tasks ≠ []) (rest : List (Nat × τ)) :
    drain visit finish state ((0, task) :: rest) = none := by
  cases tasks with
  | nil => exact absurd rfl tasks_ne
  | cons t ts => rw [drain, h]

end Stack

/-- How a list of tasks of one budget ends: with an answer, or with the state it leaves. -/
inductive Ending (σ α : Type) where
  | answered (answer : α)
  | left (state : σ)

/-- The same walk as recursion on the budget, without a stack. -/
def explore (visit : σ → τ → Step σ τ α) : Nat → σ → List τ → Option (Ending σ α)
  | _, state, [] => some (.left state)
  | budget, state, task :: rest =>
    match visit state task with
    | .stop answer => some (.answered answer)
    | .next state [] => explore visit budget state rest
    | .next state (t :: ts) =>
      match budget with
      | 0 => none
      | below + 1 =>
        match explore visit below state (t :: ts) with
        | some (.left state) => explore visit (below + 1) state rest
        | ending => ending
termination_by budget _ tasks => (budget, tasks.length)

def resume (visit : σ → τ → Step σ τ α) (finish : σ → α) (rest : List (Nat × τ)) :
    Option (Ending σ α) → Option α
  | none => none
  | some (.answered answer) => some answer
  | some (.left state) => drain visit finish state rest

theorem drain_eq_explore (visit : σ → τ → Step σ τ α) (finish : σ → α) (budget : Nat) (state : σ)
    (tasks : List τ) (rest : List (Nat × τ)) :
    drain visit finish state (tasks.map (Prod.mk budget) ++ rest) =
      resume visit finish rest (explore visit budget state tasks) := by
  fun_induction explore visit budget state tasks generalizing rest with
  | case1 => rfl
  | case2 budget state task tasks answer h => exact drain_stop visit finish h _ _
  | case3 budget state task tasks after h ih =>
    exact (drain_done visit finish h _ _).trans (ih rest)
  | case4 state task tasks after t ts h =>
    exact drain_exhausted visit finish h (by simp) _
  | case5 state task tasks after t ts h below left hleft ihBelow ihRest =>
    rw [List.map_cons, List.cons_append, drain_next visit finish h, ihBelow, hleft]
    exact ihRest rest
  -- an exploration that does not leave a state has answered, or has run out of its budget
  | case6 state task tasks after t ts h below hleft ihBelow =>
    rw [List.map_cons, List.cons_append, drain_next visit finish h, ihBelow]
    generalize explore visit below after (t :: ts) = ending at hleft
    cases ending with
    | none => rfl
    | some ending =>
      cases ending with
      | answered => rfl
      | left state => exact absurd rfl (hleft state)

theorem walk_eq_explore (visit : σ → τ → Step σ τ α) (finish : σ → α) (budget : Nat) (state : σ)
    (task : τ) :
    walk visit finish budget state task =
      resume visit finish [] (explore visit budget state [task]) := by
  simpa [walk] using drain_eq_explore visit finish budget state [task] []

end Worklist
end SlotTree
