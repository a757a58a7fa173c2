import SlotTree.Payload.Literal
import SlotTree.Render.Style
import SlotTree.Walk.Occurrences

/-!
Trees as text, a line for every place where a node stands, from the top and slot by slot. A line
begins with what the root's line begins with; each level below adds the marker and the number of
the slot in parentheses. A converter writes the payload behind that.
-/

namespace SlotTree

abbrev Converter := Payload → Except Fault String

namespace Converter

def text : Converter := fun p => .ok p.text

def literal : Converter := fun p => .ok p.literal

def typeName : Converter := fun p => .ok p.typeName

def blank : Converter := fun _ => .ok ""

def bracketed : Converter := fun p => .ok ("<" ++ p.text ++ ">")

def brokenLine : Converter := fun p => .ok (p.text ++ "\n")

def refusing (payload : Payload) : Converter := fun p =>
  if p.alike payload then .error (.refused "converter" p) else .ok p.text

end Converter

/-- What a line in slot `slot` has in front of it, below a line that has `lead`. -/
def RenderStyle.below (style : RenderStyle) (lead : String) (slot : Nat) : String :=
  lead ++ style.marker ++ "(" ++ toString slot ++ ")"

namespace Store

structure RenderTask where
  lead : String
  node : NodeId

def renderTasks (style : RenderStyle) (lead : String) (edges : List Edge) : List RenderTask :=
  edges.map fun edge => ⟨style.below lead edge.slot, edge.child⟩

def renderVisit (s : Store) (convert : Converter) (style : RenderStyle) (written : String)
    (task : RenderTask) : Step String RenderTask (Except Fault String) :=
  match convert (s.payload task.node) with
  | .ok text =>
    .next (written ++ task.lead ++ text ++ "\n") (renderTasks style task.lead (s.edges task.node))
  | .error e => .stop (.error e)

def renderFrom (s : Store) (x : NodeId) (convert : Converter) (style : RenderStyle)
    (lead : String) : Except Fault String :=
  finished (Worklist.walk (s.renderVisit convert style) .ok s.depthBound "" ⟨lead, x⟩)

/-- The text of a tree; a missing one is the line of the placeholder. -/
def render (s : Store) (node : Option NodeId) (convert : Converter) (style : RenderStyle)
    (lead : String) : Except Fault String :=
  match node with
  | none => .ok (lead ++ style.placeholder ++ "\n")
  | some x => s.renderFrom x convert style lead

end Store
end SlotTree
