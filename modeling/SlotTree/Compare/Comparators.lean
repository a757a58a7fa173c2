import SlotTree.Compare.Matching
import SlotTree.Payload.Literal

/-!
Ready-made comparators.
-/

namespace SlotTree

namespace Comparator

def always : Comparator := fun _ _ => .ok true

def never : Comparator := fun _ _ => .ok false

def sameNode : Comparator := fun left right => .ok (left == right)

def sameType (s : Store) : Comparator := fun left right =>
  .ok ((s.payload left).typeName == (s.payload right).typeName)

def sameText (s : Store) : Comparator := fun left right =>
  .ok ((s.payload left).text == (s.payload right).text)

def beginsWith (s : Store) : Comparator := fun left right =>
  .ok ((s.payload left).text.toList.isPrefixOf (s.payload right).text.toList)

def leftTruthy (s : Store) : Comparator := fun left _ => .ok (s.payload left).isTruthy

def sameTree (s : Store) : Comparator := s.equalNodes

def refusing (s : Store) (payload : Payload) : Comparator := fun left right =>
  if (s.payload left).alike payload then .error (.refused "comparator" (s.payload left))
  else s.comparePayloads left right

end Comparator
end SlotTree
