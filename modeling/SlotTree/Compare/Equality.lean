import SlotTree.Walk.Occurrences

/-!
Equality of trees: alike payloads, as many slots, as many children in each, and equal children at
equal positions. A node equals itself, whatever it carries, and so does every node met on the way;
the kinds of the nodes do not matter.
-/

namespace SlotTree

/-- Pairs two lists off, and fails where one of them ends before the other. -/
def pairOff {α β : Type} : List α → List β → Except Fault (List (α × β))
  | [], [] => .ok []
  | a :: as, b :: bs =>
    match pairOff as bs with
    | .ok pairs => .ok ((a, b) :: pairs)
    | .error e => .error e
  | _ :: _, [] => .error .secondShorter
  | [], _ :: _ => .error .secondLonger

theorem pairOff_eq_zip {α β : Type} {as : List α} {bs : List β} (h : as.length = bs.length) :
    pairOff as bs = .ok (as.zip bs) := by
  induction as generalizing bs with
  | nil => cases bs <;> simp_all [pairOff]
  | cons a as ih =>
    cases bs with
    | nil => simp at h
    | cons b bs => simp [pairOff, ih (by simpa using h)]

namespace Store

def pairSlots : List (Array NodeId × Array NodeId) →
    Except Fault (Option (List (NodeId × NodeId)))
  | [] => .ok (some [])
  | (left, right) :: slots =>
    if left.size = right.size then do
      let here ← pairOff left.toList right.toList
      let later ← pairSlots slots
      .ok (later.map (here ++ ·))
    else .ok none

/-- Compares one pair; the pairs below it are handed on, the last of them first. -/
def equalVisit (s : Store) (_ : Unit) (pair : NodeId × NodeId) :
    Step Unit (NodeId × NodeId) (Except Fault Bool) :=
  let (left, right) := pair
  if left = right then .next () []
  else if !(s.payload left).alike (s.payload right) then .stop (.ok false)
  else if s.slotCount left ≠ s.slotCount right then .stop (.ok false)
  else
    let slots := pairOff (s.node left).slots.toList (s.node right).slots.toList
    match slots >>= pairSlots with
    | .error e => .stop (.error e)
    | .ok none => .stop (.ok false)
    | .ok (some pairs) => .next () pairs.reverse

def equalNodes (s : Store) (x y : NodeId) : Except Fault Bool :=
  finished (Worklist.walk s.equalVisit (fun _ => .ok true) s.pairBound () (x, y))

/-- Whether two nodes are equal, each of which may be missing; what is missing equals no node. -/
def equal (s : Store) : Option NodeId → Option NodeId → Except Fault Bool
  | none, none => .ok true
  | some x, some y => s.equalNodes x y
  | _, _ => .ok false

theorem pairSlots_of_sizes {slots : List (Array NodeId × Array NodeId)}
    (h : ∀ pair ∈ slots, pair.1.size = pair.2.size) :
    pairSlots slots = .ok (some (slots.flatMap fun pair => pair.1.toList.zip pair.2.toList)) := by
  induction slots with
  | nil => rfl
  | cons pair slots ih =>
    obtain ⟨left, right⟩ := pair
    have size_eq : left.size = right.size := h _ (List.mem_cons_self ..)
    rw [pairSlots, if_pos size_eq, pairOff_eq_zip (by simpa using size_eq),
      ih fun pair mem => h pair (List.mem_cons_of_mem _ mem)]
    rfl

end Store
end SlotTree
