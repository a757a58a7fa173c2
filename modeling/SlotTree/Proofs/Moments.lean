import SlotTree.Walk.Occurrences

/-!
What a walk comes through on its way, budgets left out of sight: states, each with the tasks that
still wait. What a visit keeps of both holds at every moment of the walk, also of one that never
ends; and a walk whose visits all go on either never ends or hands over its last state.
-/

namespace SlotTree.Worklist

variable {σ τ α : Type} {visit : σ → τ → Step σ τ α}

/-- From `state` with `tasks` to do, the walk comes to `later` with `waiting` to do. -/
inductive Leads (visit : σ → τ → Step σ τ α) : σ → List τ → σ → List τ → Prop where
  | refl (state : σ) (tasks : List τ) : Leads visit state tasks state tasks
  | next {state after later : σ} {task : τ} {tasks rest waiting : List τ} :
      visit state task = .next after tasks → Leads visit after (tasks ++ rest) later waiting →
      Leads visit state (task :: rest) later waiting

theorem Leads.carries (holds : σ → List τ → Prop)
    (next : ∀ {state task rest after tasks}, holds state (task :: rest) →
      visit state task = .next after tasks → holds after (tasks ++ rest))
    {state later : σ} {tasks waiting : List τ} (leads : Leads visit state tasks later waiting)
    (start : holds state tasks) : holds later waiting := by
  induction leads with
  | refl => exact start
  | next visited _ ih => exact ih (next start visited)

def Kept (visit : σ → τ → Step σ τ α) (holds : σ → List τ → Prop) : Prop :=
  ∀ state task rest, holds state (task :: rest) →
    ∃ after tasks, visit state task = .next after tasks ∧ holds after (tasks ++ rest)

variable {holds : σ → List τ → Prop}

theorem Leads.keeps {state later : σ} {tasks waiting : List τ} (kept : Kept visit holds)
    (leads : Leads visit state tasks later waiting) (start : holds state tasks) :
    holds later waiting := by
  refine leads.carries holds (fun {state task rest after tasks} here visited => ?_) start
  obtain ⟨after', tasks', visited', again⟩ := kept state task rest here
  cases visited.symm.trans visited'
  exact again

theorem drain_of_kept (kept : Kept visit holds) (finish : σ → α) (state : σ)
    (stack : List (Nat × τ)) (start : holds state (stack.map Prod.snd)) :
    drain visit finish state stack = none ∨
      ∃ last, holds last [] ∧ drain visit finish state stack = some (finish last) := by
  fun_induction drain visit finish state stack with
  | case1 state => exact .inr ⟨state, start, rfl⟩
  | case2 state budget task rest answer visited =>
    -- a visit never stops where `holds` does
    obtain ⟨after, tasks, visited', -⟩ := kept state task _ start
    cases visited.symm.trans visited'
  | case3 state budget task rest after visited ih =>
    obtain ⟨after', tasks, visited', again⟩ := kept state task _ start
    cases visited.symm.trans visited'
    exact ih again
  | case4 => exact .inl rfl
  | case5 state task rest after t ts visited budget ih =>
    obtain ⟨after', tasks, visited', again⟩ := kept state task _ start
    cases visited.symm.trans visited'
    refine ih ?_
    rw [List.map_append, List.map_map]
    simpa [Function.comp_def] using again

theorem drain_answers (holds : σ → List τ → Prop) {answers : α → Prop} {finish : σ → α}
    (stop : ∀ {state task rest answer}, holds state (task :: rest) →
      visit state task = .stop answer → answers answer)
    (next : ∀ {state task rest after tasks}, holds state (task :: rest) →
      visit state task = .next after tasks → holds after (tasks ++ rest))
    (last : ∀ {state}, holds state [] → answers (finish state)) {state : σ}
    {stack : List (Nat × τ)} (start : holds state (stack.map Prod.snd)) {answer : α}
    (drained : drain visit finish state stack = some answer) : answers answer := by
  fun_induction drain visit finish state stack with
  | case1 state =>
    cases drained
    exact last start
  | case2 state budget task rest answer visited =>
    cases drained
    exact stop start visited
  | case3 state budget task rest after visited ih => exact ih (next start visited) drained
  | case4 => cases drained
  | case5 state task rest after t ts visited budget ih =>
    refine ih ?_ drained
    have again := next start visited
    rw [List.map_append, List.map_map]
    simpa [Function.comp_def] using again

theorem finished_walk_of_kept {β : Type} {visit : σ → τ → Step σ τ (Except Fault β)}
    (kept : Kept visit holds) (finish : σ → Except Fault β) (budget : Nat) {state : σ} {task : τ}
    (start : holds state [task]) :
    Store.finished (walk visit finish budget state task) = .error .endless ∨
      ∃ last, holds last [] ∧
        Store.finished (walk visit finish budget state task) = finish last := by
  obtain none | ⟨last, done, some⟩ := drain_of_kept kept finish state [(budget, task)] start
  · exact .inl (by rw [walk, none]; rfl)
  · exact .inr ⟨last, done, by rw [walk, some]; rfl⟩

end SlotTree.Worklist
