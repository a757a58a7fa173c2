import SlotTree.Compare.Equality

/-!
Positional matching of a pattern against a target. A pair of nodes is put to the comparator, then
their numbers of slots are compared, and then each slot in turn: its children counts, and the pairs
of children by position, each with all below it. The first failure ends the match, so nothing of a
slot is looked at before the slots in front of it have matched entirely.

The comparator may fail, and its calls are recorded in order, each before it is decided.
-/

namespace SlotTree

abbrev Comparator := NodeId → NodeId → Except Fault Bool

/-- How many children a slot of the target may have for those in the pattern's slot. -/
inductive CountPolicy where
  | lenient
  /-- Exactly as many, or any number where the pattern has none. -/
  | strict
  deriving DecidableEq, Repr

def CountPolicy.allows : CountPolicy → Nat → Nat → Bool
  | lenient, pattern, target => pattern ≤ target
  | strict, pattern, target => pattern == 0 || pattern == target

inductive MatchTask where
  | pair (left right : NodeId)
  | slot (left right : Array NodeId)

abbrev MatchTrace := Array (NodeId × NodeId)

/-- How a match ended, and what the comparator was asked. -/
structure MatchRun where
  outcome : Except Fault Bool
  trace : MatchTrace

namespace Store

def comparePayloads (s : Store) : Comparator := fun left right =>
  .ok ((s.payload left).alike (s.payload right))

def slotTasks (slots : List (Array NodeId × Array NodeId)) : List MatchTask :=
  slots.map fun (left, right) => .slot left right

def pairTasks (left right : Array NodeId) : List MatchTask :=
  (left.toList.zip right.toList).map fun (l, r) => .pair l r

def matchVisit (s : Store) (comparator : Comparator) (policy : CountPolicy) (trace : MatchTrace) :
    MatchTask → Step MatchTrace MatchTask MatchRun
  | .slot left right =>
    if policy.allows left.size right.size then .next trace (pairTasks left right)
    else .stop ⟨.ok false, trace⟩
  | .pair left right =>
    let trace := trace.push (left, right)
    match comparator left right with
    | .error e => .stop ⟨.error e, trace⟩
    | .ok false => .stop ⟨.ok false, trace⟩
    | .ok true =>
      if s.slotCount left ≠ s.slotCount right then .stop ⟨.ok false, trace⟩
      else
        match pairOff (s.node left).slots.toList (s.node right).slots.toList with
        | .error e => .stop ⟨.error e, trace⟩
        | .ok slots => .next trace (slotTasks slots)

/-- A pair and the slots below it are two tasks, one below the other. -/
def matchNodes (s : Store) (comparator : Comparator) (policy : CountPolicy) (x y : NodeId) :
    MatchRun :=
  let finish (trace : MatchTrace) : MatchRun := ⟨.ok true, trace⟩
  (Worklist.walk (s.matchVisit comparator policy) finish (2 * s.pairBound) #[] (.pair x y)).getD
    ⟨.error .endless, #[]⟩

def matchTrees (s : Store) (pattern target : Option NodeId) (comparator : Option Comparator)
    (policy : CountPolicy) : MatchRun :=
  match pattern, target, comparator with
  | none, _, _ => ⟨.error (.missingArgument "node"), #[]⟩
  | some _, none, _ => ⟨.error (.missingArgument "other"), #[]⟩
  | some _, some _, none => ⟨.error (.missingArgument "equality"), #[]⟩
  | some x, some y, some comparator => s.matchNodes comparator policy x y

end Store

@[simp] theorem CountPolicy.allows_self (policy : CountPolicy) (n : Nat) :
    policy.allows n n = true := by
  cases policy <;> simp [allows]

theorem CountPolicy.le_of_allows {policy : CountPolicy} {pattern target : Nat}
    (h : policy.allows pattern target = true) : pattern ≤ target := by
  cases policy with
  | lenient => simpa [allows] using h
  | strict =>
    simp only [allows, Bool.or_eq_true, beq_iff_eq] at h
    omega

end SlotTree
