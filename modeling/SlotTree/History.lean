import SlotTree.Ancestry.Search
import SlotTree.Compare.Distinct
import SlotTree.Compare.Matching
import SlotTree.Copy.Clone
import SlotTree.Copy.Snapshot
import SlotTree.Copy.Tracked
import SlotTree.Render.Lines
import SlotTree.Store.Extends
import SlotTree.Walk.Occurrences

/-!
Operations as data, for statements about whole runs. An action fails or leads to a store, and one
that fails leaves the store as it was. An action fits a store when the nodes that it names are
nodes of that store; a run is any number of fitting actions, one after the other.
-/

namespace SlotTree

inductive Action where
  | newNode (payload : Payload) (slotCount : Int)
  | newLike (other : Option NodeId)
  | newFrozen (payload : Payload) (slots : Array (Array NodeId))
  | append (x : NodeId) (child : Option NodeId) (slot : Int)
  | snapshot (x : NodeId)
  | copyTree (node : Option NodeId)
  | copyTracking (node : Option NodeId) (references : Option References) (current : Option NodeId)
  | clone (x : NodeId)
  | occurrences (node : Option NodeId)
  | equal (x y : Option NodeId)
  | fingerprint (x : NodeId)
  | distinct (nodes : List (Option NodeId))
  | matchTrees (pattern target : Option NodeId) (comparator : Option Comparator)
      (policy : CountPolicy)
  | locate (root target : Option NodeId)
  | render (node : Option NodeId) (convert : Converter) (style : RenderStyle) (lead : String)

namespace Action

def named : Action → List NodeId
  | newNode _ _ => []
  | newLike other => other.toList
  | newFrozen _ slots => slots.toList.flatMap Array.toList
  | append x child _ => x :: child.toList
  | snapshot x => [x]
  | copyTree node => node.toList
  | copyTracking node references current =>
    node.toList ++ (references.map fun set => set.toList.filterMap id).getD [] ++ current.toList
  | clone x => [x]
  | occurrences node => node.toList
  | equal x y => x.toList ++ y.toList
  | fingerprint x => [x]
  | distinct nodes => nodes.filterMap id
  | matchTrees pattern target _ _ => pattern.toList ++ target.toList
  | locate root target => root.toList ++ target.toList
  | render node _ _ _ => node.toList

def Fits (s : Store) (a : Action) : Prop := ∀ x ∈ a.named, x < s.count

instance (s : Store) (a : Action) : Decidable (a.Fits s) :=
  inferInstanceAs (Decidable (∀ x ∈ a.named, x < s.count))

/-- The store that an action leads to; looking at a store leads back to it. -/
def outcome (s : Store) : Action → Except Fault Store
  | newNode payload slotCount => (s.newNode payload slotCount).map Prod.snd
  | newLike other => (s.newLike other).map Prod.snd
  | newFrozen payload slots => .ok (s.newFrozen payload slots).2
  | append x child slot => s.append x child slot
  | snapshot x => (s.snapshot x).map Prod.snd
  | copyTree node => (s.copyTree node).outcome.map Prod.snd
  | copyTracking node references current =>
    (s.copyTracking node references current).outcome.map Prod.snd
  | clone x => (s.clone x).map Prod.snd
  | occurrences node => (s.occurrences node).map fun _ => s
  | equal x y => (s.equal x y).map fun _ => s
  | fingerprint x => (s.fingerprint x).map fun _ => s
  | distinct nodes => (s.distinct nodes).map fun _ => s
  | matchTrees pattern target comparator policy =>
    (s.matchTrees pattern target comparator policy).outcome.map fun _ => s
  | locate root target => (s.locate root target).outcome.map fun _ => s
  | render node convert style lead => (s.render node convert style lead).map fun _ => s

end Action

namespace Store

def after (s : Store) (a : Action) : Store :=
  match a.outcome s with
  | .ok t => t
  | .error _ => s

/-- `t` comes about from `s` by fitting actions. -/
inductive Run : Store → Store → Prop where
  | refl (s : Store) : Run s s
  | step {s t : Store} (a : Action) : a.Fits s → Run (s.after a) t → Run s t

theorem after_of_ok {s t : Store} {a : Action} (h : a.outcome s = .ok t) : s.after a = t := by
  rw [after, h]

theorem after_of_error {s : Store} {a : Action} {e : Fault} (h : a.outcome s = .error e) :
    s.after a = s := by
  rw [after, h]

theorem Run.keeps {P : Store → Prop} (keep : ∀ s a, a.Fits s → P s → P (s.after a))
    {s t : Store} (run : Run s t) (hs : P s) : P t := by
  induction run with
  | refl => exact hs
  | step a fits _ ih => exact ih (keep _ a fits hs)

end Store
end SlotTree
