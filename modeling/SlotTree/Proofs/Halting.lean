import SlotTree.Proofs.Acyclicity
import SlotTree.Proofs.FirstPaths
import SlotTree.Proofs.MatchRecursion
import SlotTree.Proofs.PreOrder
import SlotTree.Proofs.TreeEquality

/-!
Loops over a stack, and why they end without cycles. No loop remembers what it has visited, so on a
tree that shares nodes the stack grows and shrinks, and one node is on it many times over. What a
visit asks for is of smaller rank, though, and that is enough: `Ends` is an account of all turns of
the loop, so there are no more of them, and the budget of the walk is never used up.
-/

namespace SlotTree

namespace Worklist

variable {σ τ α : Type} {visit : σ → τ → Step σ τ α} {rank : τ → Nat} {state : σ}

/-- A turn of the loop: the first task is visited, and what it asks for takes its place. The stack
after the turn stands first. -/
inductive Turn (visit : σ → τ → Step σ τ α) : σ × List τ → σ × List τ → Prop where
  | next {state after : σ} {task : τ} {tasks : List τ} (rest : List τ) :
      visit state task = .next after tasks →
      Turn visit (after, tasks ++ rest) (state, task :: rest)

def Halts (visit : σ → τ → Step σ τ α) (state : σ) (tasks : List τ) : Prop :=
  Acc (Turn visit) (state, tasks)

theorem Ends.halts {tasks : List τ} {ending : Ending σ α}
    (ends : Ends visit rank state tasks ending) : Halts visit state tasks := by
  induction ends with
  | nil state =>
    refine ⟨_, fun later turn => ?_⟩
    cases turn
  | stop rest visited =>
    refine ⟨_, fun later turn => ?_⟩
    cases turn with
    | next _ visited' => cases visited.symm.trans visited'
  | next visited _ _ ih =>
    refine ⟨_, fun later turn => ?_⟩
    cases turn with
    | next _ visited' =>
      cases visited.symm.trans visited'
      exact ih

/-- From one task the loop halts, and a walk with this budget has its answer. -/
structure Finishes (visit : σ → τ → Step σ τ α) (finish : σ → α) (budget : Nat) (state : σ)
    (task : τ) : Prop where
  halts : Halts visit state [task]
  answers : ∃ answer, walk visit finish budget state task = some answer

theorem Ends.finishes {task : τ} {ending : Ending σ α} (ends : Ends visit rank state [task] ending)
    (finish : σ → α) {budget : Nat} (room : rank task ≤ budget) :
    Finishes visit finish budget state task :=
  ⟨ends.halts, _, ends.walk finish room⟩

end Worklist

namespace Store

variable {s : Store} {target : NodeId}

/-- A turn of a search over its frames: the top one is done, or takes its next child, which is not
the target. The frames after the turn stand first. -/
inductive FrameTurn (s : Store) (target : NodeId) :
    List SearchFrame → List SearchFrame → Prop where
  | back (x : NodeId) (slot position : Int) (frames : List SearchFrame) :
      FrameTurn s target frames (⟨x, [], slot, position⟩ :: frames)
  | down {edge : Edge} (x : NodeId) (edges : List Edge) (slot position : Int)
      (frames : List SearchFrame) : edge.child ≠ target →
      FrameTurn s target (.start s edge.child :: ⟨x, edges, edge.slot, edge.index⟩ :: frames)
        (⟨x, edge :: edges, slot, position⟩ :: frames)

theorem acc_frames {x : NodeId} {edges : List Edge} {frames : List SearchFrame}
    (each : ∀ e ∈ edges, ∀ frames, Acc (s.FrameTurn target) frames →
      Acc (s.FrameTurn target) (.start s e.child :: frames))
    (rest : Acc (s.FrameTurn target) frames) (slot position : Int) :
    Acc (s.FrameTurn target) (⟨x, edges, slot, position⟩ :: frames) := by
  -- on the children still to come: whatever a turn goes down to comes back to fewer of them
  induction edges generalizing slot position with
  | nil =>
    refine ⟨_, fun later turn => ?_⟩
    cases turn
    exact rest
  | cons e es ih =>
    refine ⟨_, fun later turn => ?_⟩
    cases turn
    have others := fun e' he' => each e' (List.mem_cons_of_mem e he')
    exact each e List.mem_cons_self _ (ih others e.slot e.index)

theorem acc_start (acyclic : s.Acyclic) (x : NodeId) {frames : List SearchFrame}
    (rest : Acc (s.FrameTurn target) frames) :
    Acc (s.FrameTurn target) (.start s x :: frames) := by
  induction x using acyclic.induction generalizing frames with
  | step x ih =>
    exact acc_frames (fun e he frames rest => ih e.child (child_of_mem_edges he) rest) rest _ _

structure SearchFinishes (s : Store) (root target : NodeId) : Prop where
  halts : Acc (s.FrameTurn target) [.start s root]
  answers : ∃ answer, s.searchFrames root target [(s.count, .start s root)] = some answer

/-- Every walk over the store finishes, from wherever it starts. -/
structure WalksFinish (s : Store) : Prop where
  counting : ∀ n x, Worklist.Finishes s.countVisit .ok s.depthBound n x
  /-- Children first, down any of the children, with any fold: snapshots and hashes are such. -/
  folding : ∀ {β : Type} (below : NodeId → List NodeId) (f : β → NodeId → Except Fault β) (init : β)
    (root : NodeId), s.Descends below →
      Worklist.Finishes (postVisit below f) .ok s.depthBound init (.enter root)
  copying : ∀ x < s.count, Worklist.Finishes Copying.visit .ok (s.copyStart x).store.depthBound
    (s.copyStart x) ⟨x, s.count⟩
  comparing : ∀ x y, Worklist.Finishes s.equalVisit (fun _ => .ok true) s.pairBound () (x, y)
  matching : ∀ (comparator : Comparator) (policy : CountPolicy) (x y : NodeId),
    Worklist.Finishes (s.matchVisit comparator policy) (fun trace => ⟨.ok true, trace⟩)
      (2 * s.pairBound) #[] (.pair x y)
  searching : ∀ root target, Worklist.Finishes (s.searchVisit target)
    (fun _ => .error (.unreachable target root)) s.depthBound () ⟨[], root⟩
  framing : ∀ root target, root ≠ target → s.SearchFinishes root target
  rendering : ∀ (convert : Converter) (style : RenderStyle) (lead : String) (x : NodeId),
    Worklist.Finishes (s.renderVisit convert style) .ok s.depthBound "" ⟨lead, x⟩

theorem finishes_search (acyclic : s.Acyclic) (root target : NodeId) :
    Worklist.Finishes (s.searchVisit target) (fun _ => .error (.unreachable target root))
      s.depthBound () ⟨[], root⟩ := by
  have room : s.rank root ≤ s.depthBound := Nat.le_of_lt (s.rank_lt_depthBound root)
  cases searched acyclic target root [] with
  | missed _ ends => exact ends.finishes _ room
  | found _ _ ends => exact ends.finishes _ room

theorem walksFinish (closed : s.Closed) (acyclic : s.Acyclic) : s.WalksFinish where
  counting n x := (ends_count acyclic x n).finishes .ok (Nat.le_of_lt (s.rank_lt_depthBound x))
  folding below f init root descends :=
    (Folds.enter (f := f) acyclic descends root init).finishes .ok (s.rank_lt_depthBound root)
  copying x hx := by
    have loop : s.Copies acyclic ⟨x, s.count⟩ := copies closed x s.count
    obtain ⟨made, after, ends, -⟩ := loop (s.copyStart x) (waiting_root hx)
    exact ends.finishes .ok (sourceRank_root_le s x)
  comparing x y := by
    have room : s.rank x ≤ s.pairBound := Nat.le_of_lt (s.rank_lt_pairBound x)
    cases compared acyclic x y with
    | equal _ ends => exact ends.finishes _ room
    | unequal _ ends => exact ends.finishes _ room
  matching comparator policy x y := by
    have runs : s.Runs comparator policy [.pair x y]
        (s.matchBelow acyclic comparator policy x y) := runs_pair acyclic x y
    exact (runs #[]).finishes _ (matchRank_pair_le x y)
  searching := finishes_search acyclic
  framing root target other := by
    obtain ⟨answer, answered⟩ := (finishes_search acyclic root target).answers
    have nothing : Acc (s.FrameTurn target) [] := ⟨_, fun later turn => nomatch turn⟩
    exact ⟨acc_start acyclic root nothing, answer, walk_eq_searchFrames other ▸ answered⟩
  rendering convert style lead x := by
    have room : s.rank x ≤ s.depthBound := Nat.le_of_lt (s.rank_lt_depthBound x)
    have lines : s.Writes convert style [⟨lead, x⟩] (s.renderLines acyclic style ⟨lead, x⟩) :=
      writes acyclic ⟨lead, x⟩
    exact (lines "").finishes .ok room

/-- In a store without cycles, whatever is no append keeps it so, and an append does exactly when
its node cannot be reached from the new child; so a run comes to a cycle by such an append only.
And as long as there is none, every walk finishes. -/
theorem cycles_only_from_append {s : Store} (closed : s.Closed) (acyclic : s.Acyclic) :
    (∀ a : Action, a.Fits s → (∀ x child slot, a ≠ .append x child slot) →
      (s.after a).Acyclic) ∧
    (∀ x c slot t, s.append x (some c) slot = .ok t → (t.Acyclic ↔ ¬ s.Reaches c x)) ∧
    (∀ t, Run s t → t.Acyclic ∨ s.CycleAppended t) ∧
    s.WalksFinish :=
  ⟨fun _ fits => acyclic_after closed acyclic fits,
    fun _ _ _ _ => acyclic_append_iff acyclic,
    fun _ run => run.acyclic_or_append closed acyclic,
    walksFinish closed acyclic⟩

def stem : Store :=
  ⟨#[.blank (.value (.bool true)) 1, ⟨.growable, .value .null, #[#[0]]⟩]⟩

def knot : Store :=
  ⟨#[⟨.growable, .value (.bool true), #[#[1]]⟩, ⟨.growable, .value .null, #[#[0]]⟩]⟩

theorem run_knot : Run .empty knot :=
  .step (.newNode (.value (.bool true)) 1) (by decide) <|
  .step (.newNode (.value .null) 1) (by decide) <|
  .step (.append 1 (some 0) 0) (by decide) <|
  .step (.append 0 (some 1) 0) (by decide) <| .refl knot

theorem cycles_only_from_append_stem :
    stem.Closed ∧ stem.Acyclic ∧ stem.WalksFinish ∧ (stem.after (.copyTree (some 1))).Acyclic ∧
    (¬ stem.Reaches 0 1 ∧ ∃ t, stem.append 1 (some 0) 0 = .ok t ∧ t.Acyclic) ∧
    (stem.Reaches 1 0 ∧ stem.append 0 (some 1) 0 = .ok knot ∧ ¬ knot.Acyclic) ∧
    Store.empty.Closed ∧ Store.empty.Acyclic ∧ Store.empty.CycleAppended knot := by
  have ordered : ∀ x < stem.count, ∀ y ∈ stem.children x, y < x := by decide
  obtain ⟨closed, acyclic⟩ := closed_acyclic_of_children_lt ordered
  obtain ⟨other, append, -, finish⟩ := cycles_only_from_append closed acyclic
  have copied : (stem.after (.copyTree (some 1))).Acyclic := other _ (by decide) (by simp)
  have apart : ¬ stem.Reaches 0 1 := fun reached =>
    absurd (le_of_reaches ordered reached) (by decide)
  have shared : (stem.grow 1 0 0).Acyclic := (append 1 0 0 _ rfl).2 apart
  have back : stem.Reaches 1 0 := .step (by decide) (.refl 0)
  have cyclic : ¬ knot.Acyclic := fun still => (append 0 1 0 knot rfl).1 still back
  obtain ⟨-, -, ran, -⟩ := cycles_only_from_append closed_empty acyclic_empty
  exact ⟨closed, acyclic, finish, copied, ⟨apart, _, rfl, shared⟩, ⟨back, rfl, cyclic⟩,
    closed_empty, acyclic_empty, (ran knot run_knot).resolve_left cyclic⟩

end Store
end SlotTree
