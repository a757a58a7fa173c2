import SlotTree.Proofs.PathParts
import SlotTree.Proofs.Places
import SlotTree.Proofs.Shapes

/-!
The lines of a rendered tree. There is one for each place, in the order of the paths, and in front
of its text stand what every line begins with and the marks of the path. So what a tree is written
behind does not matter for its lines. A converter that fails ends the rendering at the first path
whose payload it fails on, wherever that payload comes up again.
-/

namespace SlotTree

/-! Texts and their lines. -/

structure MadeOf (text : String) (lines : List String) : Prop where
  whole : ∀ line ∈ lines, '\n' ∉ line.toList
  ended : text = String.join (lines.map (· ++ "\n"))

@[simp] theorem toList_join_lines (lines : List String) :
    (String.join (lines.map (· ++ "\n"))).toList = endLines (lines.map String.toList) := by
  simp [endLines, String.toList_join, List.flatMap_map]

theorem MadeOf.unique {text : String} {lines lines' : List String} (made : MadeOf text lines)
    (made' : MadeOf text lines') : lines = lines' := by
  have same : endLines (lines.map String.toList) = endLines (lines'.map String.toList) := by
    rw [← toList_join_lines, ← toList_join_lines, ← made.ended, made'.ended]
  have chars := endLines_inj (List.forall_mem_map.2 made.whole) (List.forall_mem_map.2 made'.whole)
    same
  exact List.map_injective_iff.2 (fun _ _ => String.toList_inj.1) chars

namespace RenderStyle

def marks (style : RenderStyle) (p : Path) : String :=
  String.join (p.map fun step => style.marker ++ "(" ++ toString step.1 ++ ")")

theorem toList_marks (style : RenderStyle) (p : Path) :
    (style.marks p).toList = (p.map Prod.fst).flatMap style.mark := by
  induction p with
  | nil => rfl
  | cons step p ih =>
    have here : (style.marker ++ "(" ++ toString step.1 ++ ")").toList = style.mark step.1 := by
      simpa [below] using style.toList_below "" step.1
    rw [marks, List.map_cons, String.join_cons, String.toList_append, here, ← marks, ih,
      List.map_cons, List.flatMap_cons]

theorem newline_notMem_marks (style : RenderStyle) (p : Path) : '\n' ∉ (style.marks p).toList := by
  rw [toList_marks, List.mem_flatMap]
  rintro ⟨slot, -, mem⟩
  exact style.newline_notMem_mark slot mem

end RenderStyle

namespace Store

variable {s : Store} {x : NodeId} {convert : Converter} {style : RenderStyle} {lead : String}
variable (acyclic : s.Acyclic)

def textAt (s : Store) (convert : Converter) (x : NodeId) : String :=
  (convert (s.payload x)).toOption.getD ""

def lineAt (s : Store) (convert : Converter) (style : RenderStyle) (lead : String)
    (place : Path × NodeId) : String :=
  lead ++ style.marks place.1 ++ s.textAt convert place.2

theorem convert_eq_textAt (converts : ∃ text, convert (s.payload x) = .ok text) :
    convert (s.payload x) = .ok (s.textAt convert x) := by
  obtain ⟨text, converted⟩ := converts
  rw [textAt, converted]
  rfl

theorem render_eq_join (style : RenderStyle) (lead : String)
    (converts : ∀ z, s.Reaches x z → ∃ text, convert (s.payload z) = .ok text) :
    s.render (some x) convert style lead = .ok (String.join
      (((s.places acyclic x).map (s.lineAt convert style lead)).map (· ++ "\n"))) := by
  obtain ⟨text, run, eq⟩ := render_eq acyclic style lead converts
  rw [run, Except.ok.injEq, ← String.toList_inj, eq, toList_join_lines, transcript, List.map_map,
    List.map_map]
  congr 1
  refine List.map_congr_left fun place _ => ?_
  simp [RenderStyle.line, lineAt, textAt, RenderStyle.toList_marks]

theorem madeOf_render (style : RenderStyle) (lead : String)
    (unbroken : ∀ y text, s.Reaches x y → convert (s.payload y) = .ok text → '\n' ∉ text.toList)
    (converts : ∀ y, s.Reaches x y → ∃ text, convert (s.payload y) = .ok text)
    (oneLine : '\n' ∉ lead.toList) :
    ∃ text, s.render (some x) convert style lead = .ok text ∧
      MadeOf text ((s.places acyclic x).map (s.lineAt convert style lead)) := by
  refine ⟨_, render_eq_join acyclic style lead converts, ?_, rfl⟩
  refine List.forall_mem_map.2 fun place mem => ?_
  have reached := reaches_of_mem_places acyclic mem
  have whole := unbroken _ _ reached (convert_eq_textAt (converts _ reached))
  simp [lineAt, oneLine, style.newline_notMem_marks, whole]

/-! Failing converters. -/

theorem render_eq_error {front back : List (Path × NodeId)} {place : Path × NodeId} {e : Fault}
    (split : s.places acyclic x = front ++ place :: back)
    (converts : ∀ earlier ∈ front, ∃ text, convert (s.payload earlier.2) = .ok text)
    (fails : convert (s.payload place.2) = .error e) (lead : String) :
    s.render (some x) convert style lead = .error e := by
  have written : ∀ line ∈ front.map fun place =>
      (⟨style.leadAt lead place.1, place.2⟩ : RenderTask),
      ∃ text, convert (s.payload line.node) = .ok text := List.forall_mem_map.2 converts
  obtain ⟨text, begun, -⟩ := foldlM_writeLine written ""
  rw [render, renderFrom_eq_foldlM acyclic, renderLines, split, List.map_append, List.foldlM_append,
    begun, List.map_cons]
  show List.foldlM _ text _ = _
  rw [List.foldlM_cons, writeLine, fails]
  rfl

theorem mem_front_of_before {front back : List (Path × NodeId)} {place earlier : Path × NodeId}
    (split : s.places acyclic x = front ++ place :: back)
    (at_end : s.nodeAt x earlier.1 = some earlier.2) (before : earlier.1.Before place.1) :
    earlier ∈ front := by
  have ascending := places_ascending acyclic x
  have mem := (mem_places acyclic).2 at_end
  rw [split] at ascending mem
  rw [List.map_append, List.pairwise_append, List.map_cons, List.pairwise_cons] at ascending
  obtain ⟨-, ⟨after, -⟩, -⟩ := ascending
  obtain mem | mem := List.mem_append.1 mem
  · exact mem
  · obtain rfl | mem := List.mem_cons.1 mem
    · exact absurd rfl before.ne
    · exact absurd before (Std.Asymm.asymm (r := List.Lex StepBefore) _ _
        (after _ (List.mem_map_of_mem mem)))

/-- `p` is the first path to a payload that the converter fails on, and it fails with `e` there. -/
structure FailsFirst (s : Store) (convert : Converter) (x : NodeId) (p : Path) (e : Fault) :
    Prop where
  here : ∃ y, s.nodeAt x p = some y ∧ convert (s.payload y) = .error e
  earlier : ∀ q z, s.nodeAt x q = some z → q.Before p → ∃ text, convert (s.payload z) = .ok text

include acyclic in
theorem exists_failsFirst {y : NodeId} {e : Fault} (reached : s.Reaches x y)
    (fails : convert (s.payload y) = .error e) :
    ∃ p e, s.FailsFirst convert x p e ∧
      ∀ style lead, s.render (some x) convert style lead = .error e := by
  obtain ⟨p, at_end⟩ := reaches_iff_nodeAt.1 reached
  have mem : (p, y) ∈ s.places acyclic x := (mem_places acyclic).2 at_end
  obtain ⟨front, place, back, e', split, converts, failed⟩ :=
    exists_first_error (f := fun place => convert (s.payload place.2)) mem fails
  have found : s.nodeAt x place.1 = some place.2 := (mem_places acyclic).1 (by simp [split])
  refine ⟨place.1, e', ⟨⟨place.2, found, failed⟩, fun q z at_end before => ?_⟩,
    fun style lead => ?_⟩
  · exact converts (q, z) (mem_front_of_before acyclic split at_end before)
  · exact render_eq_error acyclic split converts failed lead

include acyclic in
theorem converts_of_render {text : String} (run : s.render (some x) convert style lead = .ok text)
    (y : NodeId) (reached : s.Reaches x y) : ∃ text, convert (s.payload y) = .ok text := by
  cases converted : convert (s.payload y) with
  | ok written => exact ⟨written, rfl⟩
  | error e =>
    obtain ⟨_, e', -, failed⟩ := exists_failsFirst acyclic reached converted
    cases run.symm.trans (failed style lead)

/-- A tree is rendered into one line for each of its paths, in their order: what every line begins
with, the marks of the path, and the text of the payload at its end. With another beginning the
lines are the same behind it. Where the converter fails, the first path to such a payload tells
how. -/
theorem render_writes_paths {s : Store} (acyclic : s.Acyclic) {x : NodeId} {convert : Converter}
    (unbroken : ∀ y text, s.Reaches x y → convert (s.payload y) = .ok text → '\n' ∉ text.toList)
    (style : RenderStyle) :
    ∃ places : List (Path × NodeId),
      (∀ p y, (p, y) ∈ places ↔ s.nodeAt x p = some y) ∧
      (places.map Prod.fst).Pairwise Path.Before ∧
      s.occurrences (some x) = .ok places.length ∧
      ((∀ y, s.Reaches x y → ∃ text, convert (s.payload y) = .ok text) →
        ∀ lead : String, '\n' ∉ lead.toList → ∃ text lines,
          s.render (some x) convert style lead = .ok text ∧ MadeOf text lines ∧
          List.Forall₂ (fun place line => ∃ written, convert (s.payload place.2) = .ok written ∧
            line = lead ++ style.marks place.1 ++ written) places lines) ∧
      (∀ text lines, s.render (some x) convert style "" = .ok text → MadeOf text lines →
        ∀ lead : String, '\n' ∉ lead.toList → ∃ text',
          s.render (some x) convert style lead = .ok text' ∧ MadeOf text' (lines.map (lead ++ ·))) ∧
      ((∃ y e, s.Reaches x y ∧ convert (s.payload y) = .error e) →
        ∃ p e, s.FailsFirst convert x p e ∧
          ∀ lead, s.render (some x) convert style lead = .error e) := by
  refine ⟨s.places acyclic x, fun p y => mem_places acyclic, places_ascending acyclic x,
    occurrences_eq_places acyclic x, fun converts lead oneLine => ?_,
    fun text lines run made lead oneLine => ?_, ?_⟩
  · obtain ⟨text, run, made⟩ := madeOf_render acyclic style lead unbroken converts oneLine
    refine ⟨text, _, run, made, ?_⟩
    rw [List.forall₂_map_right_iff]
    refine List.forall₂_same.2 fun place mem => ⟨s.textAt convert place.2, ?_, rfl⟩
    exact convert_eq_textAt (converts place.2 (reaches_of_mem_places acyclic mem))
  · have converts := converts_of_render acyclic run
    obtain ⟨bare, run', made'⟩ := madeOf_render acyclic style "" unbroken converts (by simp)
    cases run.symm.trans run'
    obtain ⟨text', run'', made''⟩ := madeOf_render acyclic style lead unbroken converts oneLine
    refine ⟨text', run'', ?_⟩
    -- a text falls into lines in one way, so these are the lines of the places
    have lines_eq : lines.map (lead ++ ·) =
        (s.places acyclic x).map (s.lineAt convert style lead) := by
      rw [made.unique made', List.map_map]
      refine List.map_congr_left fun place _ => ?_
      simp [lineAt, String.append_assoc]
    rwa [lines_eq]
  · rintro ⟨y, e, reached, fails⟩
    obtain ⟨p, e', first, failed⟩ := exists_failsFirst acyclic reached fails
    exact ⟨p, e', first, failed style⟩

theorem render_writes_paths_trellis :
    trellis.Acyclic ∧
    (∀ y text, trellis.Reaches 2 y → Converter.text (trellis.payload y) = .ok text →
      '\n' ∉ text.toList) ∧
    (∀ y, trellis.Reaches 2 y → ∃ text, Converter.text (trellis.payload y) = .ok text) ∧
    trellis.occurrences (some 2) = .ok 9 ∧
    (∃ text lines, trellis.render (some 2) .text .standard "> " = .ok text ∧ MadeOf text lines ∧
      lines.length = 9) ∧
    MadeOf "nan\n-(0)True\n-(0)True\n" ["nan", "-(0)True", "-(0)True"] ∧
    (∃ text, trellis.render (some 1) .text .standard "> " = .ok text ∧
      MadeOf text ["> nan", "> -(0)True", "> -(0)True"]) ∧
    trellis.Reaches 2 0 ∧
    ∀ lead, trellis.render (some 2) (.refusing (.value (.bool true))) .standard lead =
      .error (.refused "converter" (.value (.bool true))) := by
  have acyclic := trellis_closed_acyclic.2
  have unbroken {y : NodeId} {text : String} (eq : Converter.text (trellis.payload y) = .ok text) :
      '\n' ∉ text.toList := by
    obtain ⟨written, converted, whole, -⟩ := trellis_legible y
    cases converted.symm.trans eq
    exact whole
  have refusing_unbroken {y : NodeId} {text : String}
      (eq : Converter.refusing (.value (.bool true)) (trellis.payload y) = .ok text) :
      '\n' ∉ text.toList := by
    unfold Converter.refusing at eq
    split at eq
    · cases eq
    · exact unbroken eq
  have converts (y : NodeId) : ∃ text, Converter.text (trellis.payload y) = .ok text := ⟨_, rfl⟩
  have reached : trellis.Reaches 2 0 := reaches_iff_nodeAt.2 ⟨[(0, 0)], rfl⟩
  have size : trellis.occurrences (some 2) = .ok 9 := by cbv
  have bare : trellis.render (some 1) .text .standard "" = .ok "nan\n-(0)True\n-(0)True\n" := by cbv
  have made : MadeOf "nan\n-(0)True\n-(0)True\n" ["nan", "-(0)True", "-(0)True"] :=
    ⟨by decide, by decide⟩
  have refused : trellis.render (some 2) (.refusing (.value (.bool true))) .standard "" =
      .error (.refused "converter" (.value (.bool true))) := by cbv
  obtain ⟨places, -, -, counted, written, -, -⟩ := render_writes_paths acyclic (x := 2)
    (fun y text _ => unbroken) .standard
  obtain ⟨-, -, -, -, -, moved, -⟩ := render_writes_paths acyclic (x := 1)
    (fun y text _ => unbroken) .standard
  obtain ⟨-, -, -, -, -, -, failing⟩ := render_writes_paths acyclic (x := 2)
    (fun y text _ => refusing_unbroken) .standard
  obtain ⟨text, lines, run, lines_made, paired⟩ := written (fun y _ => converts y) "> " (by decide)
  obtain ⟨p, e, -, failed⟩ := failing ⟨0, _, reached, rfl⟩
  cases (failed "").symm.trans refused
  refine ⟨acyclic, fun y text _ => unbroken, fun y _ => converts y, size,
    ⟨text, lines, run, lines_made, ?_⟩, made, moved _ _ bare made "> " (by decide), reached, failed⟩
  rw [← paired.length_eq]
  exact Except.ok.inj (counted.symm.trans size)

end Store
end SlotTree
