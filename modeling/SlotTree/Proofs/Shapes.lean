import SlotTree.Proofs.ChildPairs
import SlotTree.Proofs.LineReading
import SlotTree.Proofs.PreOrder

/-!
What a rendered tree tells. A transcript lists for each place the slots on the way to it and the
text there. The first entry is that of the root; below it a child begins wherever an entry names one
slot only, and so on down, so the transcript gives back the labelled shape of the tree. Where texts
stay on their lines and do not begin like marks, the rendered text gives back the transcript.
-/

namespace SlotTree

structure Entry where
  slots : List Nat
  text : Except Fault String

namespace Entry

def through (slot : Nat) (entry : Entry) : Entry := ⟨slot :: entry.slots, entry.text⟩

theorem through_injective (slot : Nat) : Function.Injective (through slot) := by
  rintro ⟨slots, text⟩ ⟨slots', text'⟩ eq
  obtain ⟨same, rfl⟩ := Entry.mk.inj eq
  obtain rfl : slots = slots' := (List.cons.inj same).2
  rfl

def isTop (entry : Entry) : Bool := entry.slots.length == 1

end Entry

namespace Store

variable {s : Store} {x y : NodeId} {convert : Converter}

/-- The same text, and for every slot the same number of children, pairwise of the same shape; a
slot that a node does not have counts as empty. -/
inductive SameShape (s : Store) (convert : Converter) : NodeId → NodeId → Prop where
  | node {x y : NodeId} : convert (s.payload x) = convert (s.payload y) →
      (∀ i, List.Forall₂ (SameShape s convert) (s.slot x i).toList (s.slot y i).toList) →
      SameShape s convert x y

section Transcript

variable (acyclic : s.Acyclic)

def transcript (s : Store) (acyclic : s.Acyclic) (convert : Converter) (x : NodeId) : List Entry :=
  (s.places acyclic x).map fun place => ⟨place.1.map Prod.fst, convert (s.payload place.2)⟩

def branch (s : Store) (acyclic : s.Acyclic) (convert : Converter) (e : Edge) : List Entry :=
  (s.transcript acyclic convert e.child).map (.through e.slot)

theorem transcript_eq (x : NodeId) :
    s.transcript acyclic convert x =
      ⟨[], convert (s.payload x)⟩ :: (s.edges x).flatMap (s.branch acyclic convert) := by
  have branches : s.branch acyclic convert = fun e =>
      ((s.places acyclic e.child).map (Prod.map (e.step :: ·) id)).map fun place =>
        (⟨place.1.map Prod.fst, convert (s.payload place.2)⟩ : Entry) := by
    funext e
    rw [branch, transcript, List.map_map, List.map_map]
    rfl
  rw [transcript, places_eq, List.map_cons, List.map_flatMap, branches]
  rfl

/-! One branch is told from the next. -/

theorem branch_eq (convert : Converter) (e : Edge) : ∃ below, s.branch acyclic convert e =
    ⟨[e.slot], convert (s.payload e.child)⟩ :: below ∧ ∀ entry ∈ below, entry.isTop = false := by
  rw [branch, transcript_eq, List.map_cons]
  refine ⟨_, rfl, fun entry mem => ?_⟩
  obtain ⟨inner, below, rfl⟩ := List.mem_map.1 mem
  obtain ⟨e', -, deeper⟩ := List.mem_flatMap.1 below
  obtain ⟨innermost, -, rfl⟩ := List.mem_map.1 deeper
  simp [Entry.isTop, Entry.through]

theorem takeWhile_branches (es : List Edge) :
    (es.flatMap (s.branch acyclic convert)).takeWhile (fun entry => !Entry.isTop entry) = [] := by
  cases es with
  | nil => rfl
  | cons e es =>
    obtain ⟨below, eq, -⟩ := branch_eq acyclic convert e
    rw [List.flatMap_cons, eq]
    rfl

theorem branches_inj {es es' : List Edge}
    (eq : es.flatMap (s.branch acyclic convert) = es'.flatMap (s.branch acyclic convert)) :
    List.Forall₂ (fun e e' => s.branch acyclic convert e = s.branch acyclic convert e') es es' := by
  induction es generalizing es' with
  | nil =>
    cases es' with
    | nil => exact .nil
    | cons e' es' =>
      obtain ⟨below', branch', -⟩ := branch_eq acyclic convert e'
      simp [branch'] at eq
  | cons e es ih =>
    obtain ⟨below, branch, inner⟩ := branch_eq acyclic convert e
    cases es' with
    | nil => simp [branch] at eq
    | cons e' es' =>
      obtain ⟨below', branch', inner'⟩ := branch_eq acyclic convert e'
      rw [List.flatMap_cons, List.flatMap_cons, branch, branch', List.cons_append,
        List.cons_append] at eq
      obtain ⟨head, rest⟩ := List.cons.inj eq
      -- both branches go on as far as no entry is one step down
      have same := congrArg (List.takeWhile fun entry => !Entry.isTop entry) rest
      rw [List.takeWhile_append_of_pos fun entry mem => by rw [inner entry mem]; rfl,
        List.takeWhile_append_of_pos fun entry mem => by rw [inner' entry mem]; rfl,
        takeWhile_branches, takeWhile_branches, List.append_nil, List.append_nil] at same
      rw [same] at rest
      refine .cons ?_ (ih (List.append_cancel_left rest))
      rw [branch, branch', head, same]

theorem branch_inj {e e' : Edge} (eq : s.branch acyclic convert e = s.branch acyclic convert e') :
    e.slot = e'.slot ∧
      s.transcript acyclic convert e.child = s.transcript acyclic convert e'.child := by
  obtain ⟨below, branch, -⟩ := branch_eq acyclic convert e
  obtain ⟨below', branch', -⟩ := branch_eq acyclic convert e'
  have slot : e.slot = e'.slot := by
    rw [branch, branch'] at eq
    exact (List.cons.inj (Entry.mk.inj (List.cons.inj eq).1).1).1
  refine ⟨slot, ?_⟩
  unfold Store.branch at eq
  rw [slot] at eq
  exact List.map_injective_iff.2 (Entry.through_injective _) eq

/-! Transcripts and shapes. -/

theorem forall₂_slot {R : NodeId → NodeId → Prop}
    (related : List.Forall₂ (fun e e' => e.slot = e'.slot ∧ R e.child e'.child)
      (s.edges x) (s.edges y)) (i : Nat) :
    List.Forall₂ R (s.slot x i).toList (s.slot y i).toList := by
  have inSlot := List.rel_filter (p := fun e => e.slot == i) (q := fun e => e.slot == i)
    (fun e e' h => by simp only [h.1]) related
  rw [edges, edges, Node.filter_edges, Node.filter_edges] at inSlot
  rw [← slot, ← slot] at inSlot
  rw [← Node.slotEdges_child i (s.slot x i).toList, ← Node.slotEdges_child i (s.slot y i).toList,
    List.forall₂_map_left_iff, List.forall₂_map_right_iff]
  exact inSlot.imp fun e e' h => h.2

theorem forall₂_slot_imp {R R' : NodeId → NodeId → Prop} {i : Nat}
    (passes : ∀ a ∈ s.children x, ∀ b, R a b → R' a b)
    (related : List.Forall₂ R (s.slot x i).toList (s.slot y i).toList) :
    List.Forall₂ R' (s.slot x i).toList (s.slot y i).toList := by
  have child : ∀ a ∈ (s.slot x i).toList, a ∈ s.children x := fun a => mem_children_of_slot
  exact ((List.forall₂_and_left _ _).2 ⟨child, related⟩).imp fun a b h => passes a h.1 b h.2

theorem sameShape_of_transcript
    (eq : s.transcript acyclic convert x = s.transcript acyclic convert y) :
    s.SameShape convert x y := by
  induction x using acyclic.induction generalizing y with
  | step x ih =>
    rw [transcript_eq, transcript_eq] at eq
    obtain ⟨head, rest⟩ := List.cons.inj eq
    have edges := (branches_inj acyclic rest).imp fun e e' => branch_inj acyclic
    refine .node (Entry.mk.inj head).2 fun i => forall₂_slot_imp (fun a mem b => ih a mem) ?_
    exact forall₂_slot (R := fun a b =>
      s.transcript acyclic convert a = s.transcript acyclic convert b) edges i

theorem flatMap_branch_slotEdges (slot : Nat) (children : List NodeId) :
    (Node.slotEdges slot children).flatMap (s.branch acyclic convert) =
      children.flatMap fun child => (s.transcript acyclic convert child).map (.through slot) := by
  conv_rhs => rw [← Node.slotEdges_child slot children, List.flatMap_map]
  refine List.flatMap_congr fun e mem => ?_
  rw [branch, (Node.mem_slotEdges.1 mem).1]

theorem transcript_eq_slots (x : NodeId) {n : Nat} (h : s.slotCount x ≤ n) :
    s.transcript acyclic convert x = ⟨[], convert (s.payload x)⟩ ::
      (List.range n).flatMap fun i => (s.slot x i).toList.flatMap fun child =>
        (s.transcript acyclic convert child).map (.through i) := by
  rw [transcript_eq, edges_eq_flatMap s x h, List.flatMap_assoc]
  simp only [flatMap_branch_slotEdges]

theorem transcript_of_sameShape (same : s.SameShape convert x y) :
    s.transcript acyclic convert x = s.transcript acyclic convert y := by
  induction x using acyclic.induction generalizing y with
  | step x ih =>
    obtain ⟨text, children⟩ := same
    rw [transcript_eq_slots acyclic x (Nat.le_max_left _ (s.slotCount y)),
      transcript_eq_slots acyclic y (Nat.le_max_right (s.slotCount x) _), text]
    congr 1
    refine List.flatMap_congr fun i _ => ?_
    have related := forall₂_slot_imp (fun a mem b => ih a mem) (children i)
    refine List.forall₂_eq_eq_eq ▸ List.rel_flatMap related fun a b eq => ?_
    rw [eq, List.forall₂_eq_eq_eq]

theorem transcript_eq_iff :
    s.transcript acyclic convert x = s.transcript acyclic convert y ↔ s.SameShape convert x y :=
  ⟨sameShape_of_transcript acyclic, transcript_of_sameShape acyclic⟩

end Transcript
end Store

/-! Lines as text. -/

namespace RenderStyle

variable {style : RenderStyle} {lead : String} {convert : Converter}

theorem toList_leadAt (style : RenderStyle) (lead : String) (p : Path) :
    (style.leadAt lead p).toList = lead.toList ++ (p.map Prod.fst).flatMap style.mark := by
  unfold leadAt
  induction p generalizing lead with
  | nil => simp
  | cons step p ih =>
    rw [List.foldl_cons, ih, toList_below, List.map_cons, List.flatMap_cons, List.append_assoc]

/-- The converter has a text for the payload that stays on its line and does not begin like a
mark. -/
def Legible (style : RenderStyle) (text : Except Fault String) : Prop :=
  ∃ written, text = .ok written ∧ '\n' ∉ written.toList ∧ ¬ style.opening <+: written.toList

def line (style : RenderStyle) (lead : String) (entry : Entry) : List Char :=
  lead.toList ++ entry.slots.flatMap style.mark ++ (entry.text.toOption.getD "").toList

theorem newline_notMem_line {entry : Entry} (oneLine : '\n' ∉ lead.toList)
    (legible : style.Legible entry.text) : '\n' ∉ style.line lead entry := by
  obtain ⟨written, eq, unbroken, -⟩ := legible
  simp [line, eq, Except.toOption, oneLine, unbroken, newline_notMem_mark]

theorem line_inj {entry entry' : Entry} (legible : style.Legible entry.text)
    (legible' : style.Legible entry'.text)
    (eq : style.line lead entry = style.line lead entry') : entry = entry' := by
  obtain ⟨slots, text⟩ := entry
  obtain ⟨slots', text'⟩ := entry'
  obtain ⟨written, rfl, -, plain⟩ := legible
  obtain ⟨written', rfl, -, plain'⟩ := legible'
  simp only [line, Except.toOption, Option.getD_some, List.append_assoc,
    List.append_cancel_left_eq] at eq
  obtain ⟨rfl, same⟩ := style.marks_inj plain plain' eq
  rw [String.toList_inj.1 same]

theorem lines_inj {entries entries' : List Entry}
    (legible : ∀ entry ∈ entries, style.Legible entry.text)
    (legible' : ∀ entry ∈ entries', style.Legible entry.text)
    (eq : entries.map (style.line lead) = entries'.map (style.line lead)) :
    entries = entries' := by
  have size : entries.length = entries'.length := by simpa using congrArg List.length eq
  refine List.ext_getElem size fun i h h' => ?_
  have at_place := List.getElem_of_eq eq (i := i) (by simpa using h)
  rw [List.getElem_map, List.getElem_map] at at_place
  exact line_inj (legible _ (List.getElem_mem h)) (legible' _ (List.getElem_mem h')) at_place

end RenderStyle

namespace Store

variable {s : Store} {x y : NodeId} {convert : Converter} {style : RenderStyle} {lead : String}
variable (acyclic : s.Acyclic)

theorem foldlM_writeLine {lines : List RenderTask}
    (converts : ∀ line ∈ lines, ∃ text, convert (s.payload line.node) = .ok text)
    (written : String) :
    ∃ text, lines.foldlM (s.writeLine convert) written = .ok text ∧
      text.toList = written.toList ++ endLines (lines.map fun line =>
        line.lead.toList ++ ((convert (s.payload line.node)).toOption.getD "").toList) := by
  induction lines generalizing written with
  | nil => exact ⟨written, rfl, by simp [endLines]⟩
  | cons line lines ih =>
    obtain ⟨⟨here, converted⟩, further⟩ := List.forall_mem_cons.1 converts
    obtain ⟨text, run, eq⟩ := ih further (written ++ line.lead ++ here ++ "\n")
    refine ⟨text, ?_, ?_⟩
    · rw [List.foldlM_cons, writeLine, converted]
      exact run
    · rw [eq]
      simp [endLines, converted, Except.toOption]

theorem render_eq (style : RenderStyle) (lead : String)
    (converts : ∀ z, s.Reaches x z → ∃ text, convert (s.payload z) = .ok text) :
    ∃ text, s.render (some x) convert style lead = .ok text ∧
      text.toList = endLines ((s.transcript acyclic convert x).map (style.line lead)) := by
  have written : ∀ line ∈ s.renderLines acyclic style ⟨lead, x⟩,
      ∃ text, convert (s.payload line.node) = .ok text := by
    intro line mem
    obtain ⟨place, at_place, rfl⟩ := List.mem_map.1 mem
    exact converts place.2 (reaches_of_mem_places acyclic at_place)
  obtain ⟨text, run, eq⟩ := foldlM_writeLine written ""
  refine ⟨text, (renderFrom_eq_foldlM acyclic x lead).trans run, eq.trans ?_⟩
  simp [renderLines, transcript, RenderStyle.line, RenderStyle.toList_leadAt, Function.comp_def]

theorem legible_of_mem_transcript {entry : Entry}
    (legible : ∀ z, s.Reaches x z → style.Legible (convert (s.payload z)))
    (mem : entry ∈ s.transcript acyclic convert x) : style.Legible entry.text := by
  obtain ⟨place, at_place, rfl⟩ := List.mem_map.1 mem
  exact legible place.2 (reaches_of_mem_places acyclic at_place)

/-- Two trees with legible payloads are both written, and alike exactly where they have one shape:
the texts and the numbers of children in all slots agree all the way down. -/
theorem render_unambiguous {s : Store} (acyclic : s.Acyclic) {x y : NodeId} {convert : Converter}
    {style : RenderStyle} {lead : String} (oneLine : '\n' ∉ lead.toList)
    (legible : ∀ z, s.Reaches x z ∨ s.Reaches y z → style.Legible (convert (s.payload z))) :
    (∃ text, s.render (some x) convert style lead = .ok text) ∧
    (∃ text, s.render (some y) convert style lead = .ok text) ∧
    (s.render (some x) convert style lead = s.render (some y) convert style lead ↔
      s.SameShape convert x y) := by
  have left (z : NodeId) (reached : s.Reaches x z) := legible z (.inl reached)
  have right (z : NodeId) (reached : s.Reaches y z) := legible z (.inr reached)
  have readable {z : NodeId} (h : style.Legible (convert (s.payload z))) :
      ∃ text, convert (s.payload z) = .ok text := h.imp fun _ h => h.1
  obtain ⟨text, run, eq⟩ := render_eq acyclic style lead
    fun z reached => readable (left z reached)
  obtain ⟨text', run', eq'⟩ := render_eq acyclic style lead
    fun z reached => readable (right z reached)
  refine ⟨⟨text, run⟩, ⟨text', run'⟩, ?_⟩
  rw [run, run', Except.ok.injEq, ← String.toList_inj, eq, eq', ← transcript_eq_iff acyclic]
  refine ⟨fun same => ?_, fun same => by rw [same]⟩
  have entries : ∀ entry ∈ s.transcript acyclic convert x, style.Legible entry.text :=
    fun entry => legible_of_mem_transcript acyclic left
  have entries' : ∀ entry ∈ s.transcript acyclic convert y, style.Legible entry.text :=
    fun entry => legible_of_mem_transcript acyclic right
  refine RenderStyle.lines_inj entries entries' (endLines_inj ?_ ?_ same)
  · refine List.forall_mem_map.2 fun entry mem => ?_
    exact RenderStyle.newline_notMem_line oneLine (entries entry mem)
  · refine List.forall_mem_map.2 fun entry mem => ?_
    exact RenderStyle.newline_notMem_line oneLine (entries' entry mem)

theorem trellis_legible (z : NodeId) :
    RenderStyle.standard.Legible (Converter.text (trellis.payload z)) := by
  match z with
  | 0 => exact ⟨"True", rfl, by decide, by decide⟩
  | 1 => exact ⟨"nan", rfl, by decide, by decide⟩
  | 2 => exact ⟨"None", rfl, by decide, by decide⟩
  | 3 => exact ⟨"True", rfl, by decide, by decide⟩
  | _ + 4 => exact ⟨"None", rfl, by decide, by decide⟩

theorem render_unambiguous_trellis :
    trellis.Acyclic ∧ '\n' ∉ "> ".toList ∧
    (∀ z, trellis.Reaches 0 z ∨ trellis.Reaches 3 z →
      RenderStyle.standard.Legible (Converter.text (trellis.payload z))) ∧
    trellis.render (some 0) .text .standard "> " = trellis.render (some 3) .text .standard "> " ∧
    trellis.SameShape .text 0 3 ∧
    trellis.render (some 1) .text .standard "> " = .ok "> nan\n> -(0)True\n> -(0)True\n" ∧
    ¬ trellis.SameShape .text 1 2 := by
  have acyclic := trellis_closed_acyclic.2
  have oneLine : '\n' ∉ "> ".toList := by decide
  have alike : trellis.render (some 0) .text .standard "> " =
      trellis.render (some 3) .text .standard "> " := by cbv
  have written : trellis.render (some 1) .text .standard "> " =
      .ok "> nan\n> -(0)True\n> -(0)True\n" := by cbv
  have other : trellis.render (some 1) .text .standard "> " ≠
      trellis.render (some 2) .text .standard "> " := by
    cbv
    simp
  refine ⟨acyclic, oneLine, fun z _ => trellis_legible z, alike, ?_, written, fun same => other ?_⟩
  · exact (render_unambiguous acyclic oneLine fun z _ => trellis_legible z).2.2.1 alike
  · exact (render_unambiguous acyclic oneLine fun z _ => trellis_legible z).2.2.2 same

end Store
end SlotTree
