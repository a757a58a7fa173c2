import SlotTree.Fault
import SlotTree.Text.Quoted

/-!
How rendered trees are marked: the marker written for each level, which must not be empty, and the
text that stands for a missing node. Neither may break the line. A style never changes once it is
built.
-/

namespace SlotTree

def isOneLine (text : String) : Bool := text.toList.all fun c => c != '\n' && c != '\r'

structure RenderStyle where
  marker : String
  placeholder : String
  marker_ne_empty : marker ≠ ""
  marker_oneLine : isOneLine marker = true
  placeholder_oneLine : isOneLine placeholder = true

namespace RenderStyle

instance : DecidableEq RenderStyle := fun a b =>
  decidable_of_iff (a.marker = b.marker ∧ a.placeholder = b.placeholder)
    (by cases a; cases b; simp)

def markerField : String := "sub_node_prefix"

def placeholderField : String := "null_placeholder"

/-- Builds a style, or reports the first rule that its texts break. -/
def build (marker placeholder : String) : Except Fault RenderStyle :=
  if nonempty : marker = "" then .error .emptyMarker
  else if oneLine : isOneLine marker = true then
    if placeholder_oneLine : isOneLine placeholder = true then
      .ok ⟨marker, placeholder, nonempty, oneLine, placeholder_oneLine⟩
    else .error (.lineBreak placeholderField placeholder)
  else .error (.lineBreak markerField marker)

def standard : RenderStyle := ⟨"-", "NULL", by decide, by decide, by decide⟩

def assign (_ : RenderStyle) (field : String) : Except Fault RenderStyle :=
  .error (.fixedField field)

def describe (style : RenderStyle) : String :=
  "RenderConfig(" ++ markerField ++ "=" ++ Text.quoted style.marker ++ ", " ++
    placeholderField ++ "=" ++ Text.quoted style.placeholder ++ ")"

end RenderStyle
end SlotTree
