import SlotTree.Worklist

/-!
How a stack of tasks ends when budgets are left out of sight. Each visit may only lead to tasks of
smaller rank; then a budget as large as the rank of the first task is never used up, and the walk
answers as `Ends` says.

Endings compose: what a task does is said once, for an empty stack behind it.
-/

namespace SlotTree.Worklist

variable {σ τ α : Type} {visit : σ → τ → Step σ τ α} {rank : τ → Nat}

/-- From `state`, working off `tasks` ends in `ending`. -/
inductive Ends (visit : σ → τ → Step σ τ α) (rank : τ → Nat) :
    σ → List τ → Ending σ α → Prop where
  | nil (state : σ) : Ends visit rank state [] (.left state)
  | stop {state : σ} {task : τ} {answer : α} (rest : List τ) :
      visit state task = .stop answer → Ends visit rank state (task :: rest) (.answered answer)
  | next {state after : σ} {task : τ} {tasks rest : List τ} {ending : Ending σ α} :
      visit state task = .next after tasks → (∀ t ∈ tasks, rank t < rank task) →
      Ends visit rank after (tasks ++ rest) ending → Ends visit rank state (task :: rest) ending

def Ending.answer (finish : σ → α) : Ending σ α → α
  | .answered answer => answer
  | .left state => finish state

theorem Ends.append {state middle : σ} {tasks rest : List τ} {ending : Ending σ α}
    (first : Ends visit rank state tasks (.left middle))
    (second : Ends visit rank middle rest ending) :
    Ends visit rank state (tasks ++ rest) ending := by
  generalize hleft : Ending.left middle = left at first
  induction first with
  | nil state =>
    cases hleft
    exact second
  | stop => cases hleft
  | next h lower _ ih =>
    rw [List.cons_append]
    refine .next h lower ?_
    rw [← List.append_assoc]
    exact ih hleft

theorem Ends.append_answered {state : σ} {tasks : List τ} {answer : α}
    (first : Ends visit rank state tasks (.answered answer)) (rest : List τ) :
    Ends visit rank state (tasks ++ rest) (.answered answer) := by
  generalize hanswer : Ending.answered answer = ending at first
  induction first with
  | nil => cases hanswer
  | stop tail h =>
    cases hanswer
    exact .stop _ h
  | next h lower _ ih =>
    rw [List.cons_append]
    refine .next h lower ?_
    rw [← List.append_assoc]
    exact ih hanswer

def Ending.bind : Ending σ α → (σ → Ending σ α) → Ending σ α
  | .answered answer, _ => .answered answer
  | .left state, next => next state

theorem Ends.bind {state : σ} {tasks rest : List τ} {ending : Ending σ α} {next : σ → Ending σ α}
    (first : Ends visit rank state tasks ending)
    (second : ∀ middle, Ends visit rank middle rest (next middle)) :
    Ends visit rank state (tasks ++ rest) (ending.bind next) := by
  cases ending with
  | answered answer => exact first.append_answered rest
  | left middle => exact first.append (second middle)

theorem Ends.drain {state : σ} {tasks : List τ} {ending : Ending σ α}
    (ends : Ends visit rank state tasks ending) (finish : σ → α) {stack : List (Nat × τ)}
    (names : stack.map Prod.snd = tasks) (room : ∀ e ∈ stack, rank e.2 ≤ e.1) :
    Worklist.drain visit finish state stack = some (ending.answer finish) := by
  induction ends generalizing stack with
  | nil state =>
    rw [List.map_eq_nil_iff] at names
    rw [names, drain_nil]
    rfl
  | stop rest h =>
    obtain ⟨⟨budget, task⟩, behind, rfl, rfl, -⟩ := List.map_eq_cons_iff.1 names
    exact drain_stop visit finish h budget behind
  | @next state after task tasks rest ending h lower _ ih =>
    obtain ⟨⟨budget, task⟩, behind, rfl, rfl, rfl⟩ := List.map_eq_cons_iff.1 names
    have top : rank task ≤ budget := room (budget, task) List.mem_cons_self
    have roomBehind : ∀ e ∈ behind, rank e.2 ≤ e.1 := by
      intro e he
      exact room e (List.mem_cons_of_mem _ he)
    -- a budget is at least the rank of its task, so there is one left for what the visit asks for
    cases tasks with
    | nil =>
      rw [drain_done visit finish h]
      exact ih rfl roomBehind
    | cons t ts =>
      have positive : rank t < rank task := lower t List.mem_cons_self
      obtain ⟨below, rfl⟩ : ∃ below, budget = below + 1 := ⟨budget - 1, by omega⟩
      rw [drain_next visit finish h]
      apply ih
      · simp [Function.comp_def]
      · intro e he
        obtain he | he := List.mem_append.1 he
        · obtain ⟨task', mem, rfl⟩ := List.mem_map.1 he
          have smaller : rank task' < rank task := lower task' mem
          show rank task' ≤ below
          omega
        · exact roomBehind e he

theorem Ends.walk {state : σ} {task : τ} {ending : Ending σ α}
    (ends : Ends visit rank state [task] ending) (finish : σ → α) {budget : Nat}
    (room : rank task ≤ budget) :
    Worklist.walk visit finish budget state task = some (ending.answer finish) := by
  apply ends.drain finish (by rfl)
  intro e he
  rw [List.mem_singleton.1 he]
  exact room

/-! Walks over tasks of one sort. -/

section Agreement

variable {visit' : σ → τ → Step σ τ α} {sort : τ → Prop}

/-- Two ways to visit are the same for tasks of a sort, and lead from them to tasks of the same sort
and of smaller rank. -/
structure SameOn (visit visit' : σ → τ → Step σ τ α) (rank : τ → Nat) (sort : τ → Prop) :
    Prop where
  same : ∀ state task, sort task → visit' state task = visit state task
  below : ∀ {state task after tasks}, sort task → visit state task = .next after tasks →
    ∀ t ∈ tasks, sort t ∧ rank t < rank task

theorem ends_list {tasks : List τ}
    (each : ∀ task ∈ tasks, ∀ state, ∃ ending, Ends visit rank state [task] ending) (state : σ) :
    ∃ ending, Ends visit rank state tasks ending := by
  induction tasks generalizing state with
  | nil => exact ⟨_, .nil state⟩
  | cons task tasks ih =>
    obtain ⟨ending, first⟩ := each task List.mem_cons_self state
    cases ending with
    | answered answer => exact ⟨_, first.append_answered tasks⟩
    | left middle =>
      obtain ⟨ending, rest⟩ := ih (fun t mem => each t (List.mem_cons_of_mem task mem)) middle
      exact ⟨ending, first.append rest⟩

theorem SameOn.exists_ends (agree : SameOn visit visit' rank sort) {task : τ} (start : sort task)
    (state : σ) : ∃ ending, Ends visit rank state [task] ending := by
  induction hr : rank task using Nat.strongRecOn generalizing task state with
  | ind r ih =>
    cases visited : visit state task with
    | stop answer => exact ⟨_, .stop [] visited⟩
    | next after tasks =>
      -- what the visit asks for is of smaller rank, so each of it ends, and then all of it
      have below := agree.below start visited
      obtain ⟨ending, rest⟩ := ends_list (fun t mem state =>
        ih (rank t) (hr ▸ (below t mem).2) (below t mem).1 state rfl) after
      exact ⟨ending, .next visited (fun t mem => (below t mem).2) (by rwa [List.append_nil])⟩

theorem SameOn.ends (agree : SameOn visit visit' rank sort) {state : σ} {tasks : List τ}
    {ending : Ending σ α} (ends : Ends visit rank state tasks ending)
    (all : ∀ task ∈ tasks, sort task) : Ends visit' rank state tasks ending := by
  induction ends with
  | nil state => exact .nil state
  | stop rest visited =>
    exact .stop rest ((agree.same _ _ (all _ List.mem_cons_self)).trans visited)
  | next visited lower _ ih =>
    obtain ⟨here, others⟩ := List.forall_mem_cons.1 all
    have below := agree.below here visited
    refine .next ((agree.same _ _ here).trans visited) lower (ih ?_)
    exact List.forall_mem_append.2 ⟨fun t mem => (below t mem).1, others⟩

theorem SameOn.walk_eq (agree : SameOn visit visit' rank sort) {task : τ} (start : sort task)
    (state : σ) (finish : σ → α) {budget budget' : Nat} (room : rank task ≤ budget)
    (room' : rank task ≤ budget') :
    walk visit' finish budget' state task = walk visit finish budget state task := by
  obtain ⟨ending, ends⟩ := agree.exists_ends start state
  have ends' := agree.ends ends fun t mem => by rwa [List.mem_singleton.1 mem]
  rw [ends.walk finish room, ends'.walk finish room']

end Agreement

end SlotTree.Worklist
