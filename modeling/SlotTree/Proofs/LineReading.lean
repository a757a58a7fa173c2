import Mathlib.Data.List.Basic
import SlotTree.Render.Lines

/-!
Reading lines back. A line break tells where a line ends, and a closing parenthesis where the number
of a mark ends, for neither stands inside. What goes before the text of a line is told from it by
the way in which a mark begins: the marker may be any text, also one with digits and parentheses,
and so may the text of the line, as long as it does not begin like a mark itself.
-/

namespace SlotTree

theorem cut_inj {c : Char} {front front' back back' : List Char} (out : c ∉ front)
    (out' : c ∉ front') (eq : front ++ c :: back = front' ++ c :: back') :
    front = front' ∧ back = back' := by
  induction front generalizing front' with
  | nil =>
    cases front' with
    | nil => exact ⟨rfl, (List.cons.inj eq).2⟩
    | cons d front' =>
      obtain ⟨rfl, -⟩ := List.cons.inj eq
      exact absurd List.mem_cons_self out'
  | cons d front ih =>
    cases front' with
    | nil =>
      obtain ⟨rfl, -⟩ := List.cons.inj eq
      exact absurd List.mem_cons_self out
    | cons d' front' =>
      obtain ⟨rfl, rest⟩ := List.cons.inj eq
      obtain ⟨rfl, behind⟩ := ih (fun mem => out (List.mem_cons_of_mem _ mem))
        (fun mem => out' (List.mem_cons_of_mem _ mem)) rest
      exact ⟨rfl, behind⟩

def endLines (lines : List (List Char)) : List Char := lines.flatMap (· ++ ['\n'])

theorem endLines_inj {lines lines' : List (List Char)} (unbroken : ∀ line ∈ lines, '\n' ∉ line)
    (unbroken' : ∀ line ∈ lines', '\n' ∉ line) (eq : endLines lines = endLines lines') :
    lines = lines' := by
  unfold endLines at eq
  induction lines generalizing lines' with
  | nil =>
    cases lines' with
    | nil => rfl
    | cons line' lines' => simp at eq
  | cons line lines ih =>
    cases lines' with
    | nil => simp at eq
    | cons line' lines' =>
      simp only [List.flatMap_cons, List.append_assoc, List.singleton_append] at eq
      obtain ⟨here, further⟩ := List.forall_mem_cons.1 unbroken
      obtain ⟨here', further'⟩ := List.forall_mem_cons.1 unbroken'
      obtain ⟨rfl, rest⟩ := cut_inj here here' eq
      rw [ih further further' rest]

theorem notMem_toDigits {c : Char} (other : c.isDigit = false) (n : Nat) :
    c ∉ Nat.toDigits 10 n := by
  intro mem
  rw [Nat.isDigit_of_mem_toDigits (by decide) (by decide) mem] at other
  exact Bool.noConfusion other

namespace RenderStyle

variable (style : RenderStyle)

def opening : List Char := (style.marker ++ "(").toList

def mark (slot : Nat) : List Char := style.opening ++ Nat.toDigits 10 slot ++ [')']

@[simp] theorem toList_below (lead : String) (slot : Nat) :
    (style.below lead slot).toList = lead.toList ++ style.mark slot := by
  simp [below, mark, opening]

theorem newline_notMem_mark (slot : Nat) : '\n' ∉ style.mark slot := by
  have marker : '\n' ∉ style.marker.toList := by
    intro mem
    have oneLine := List.all_eq_true.1 style.marker_oneLine _ mem
    simp at oneLine
  have digits : '\n' ∉ Nat.toDigits 10 slot := notMem_toDigits (by decide) slot
  simp [mark, opening, marker, digits]

theorem marks_inj {slots slots' : List Nat} {text text' : List Char}
    (plain : ¬ style.opening <+: text) (plain' : ¬ style.opening <+: text')
    (eq : slots.flatMap style.mark ++ text = slots'.flatMap style.mark ++ text') :
    slots = slots' ∧ text = text' := by
  induction slots generalizing slots' with
  | nil =>
    cases slots' with
    | nil => exact ⟨rfl, eq⟩
    | cons slot' slots' =>
      -- one of the texts would begin like a mark
      refine absurd ?_ plain
      rw [List.flatMap_nil, List.nil_append] at eq
      rw [eq]
      simp [mark]
  | cons slot slots ih =>
    cases slots' with
    | nil =>
      refine absurd ?_ plain'
      rw [List.flatMap_nil, List.nil_append] at eq
      rw [← eq]
      simp [mark]
    | cons slot' slots' =>
      simp only [List.flatMap_cons, mark, List.append_assoc, List.singleton_append,
        List.append_cancel_left_eq] at eq
      -- no digit is a parenthesis, so the slot ends where the first one closes
      have closing (n : Nat) : ')' ∉ Nat.toDigits 10 n := notMem_toDigits (by decide) n
      obtain ⟨digits, rest⟩ := cut_inj (closing slot) (closing slot') eq
      have number := congrArg (Nat.ofDigitChars 10 · 0) digits
      obtain rfl : slot = slot' := by
        simpa [Nat.ofDigitChars_toDigits] using number
      obtain ⟨rfl, rfl⟩ := ih rest
      exact ⟨rfl, rfl⟩

end RenderStyle
end SlotTree
