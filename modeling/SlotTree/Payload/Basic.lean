import SlotTree.Payload.Value

/-!
What a node carries: a plain value, or the one number that differs from everything and from
itself. On payloads `alike` is symmetric and transitive, and reflexive away from `nan`.
-/

namespace SlotTree

inductive Payload where
  | value (v : Value)
  | nan
  deriving DecidableEq, Repr, Inhabited

namespace Payload

/-- The payload up to likeness; `nan` stays apart. -/
def canonical : Payload → Payload
  | value v => value v.canonical
  | nan => nan

def alike (p q : Payload) : Bool :=
  p != nan && p.canonical == q.canonical

@[simp] theorem canonical_eq_nan_iff {p : Payload} : p.canonical = nan ↔ p = nan := by
  cases p <;> simp [canonical]

theorem alike_iff {p q : Payload} : p.alike q = true ↔ p ≠ nan ∧ p.canonical = q.canonical := by
  simp [alike]

@[simp] theorem alike_self_iff {p : Payload} : p.alike p = true ↔ p ≠ nan := by
  simp [alike]

theorem alike_symm {p q : Payload} (h : p.alike q = true) : q.alike p = true := by
  obtain ⟨number, eq⟩ := alike_iff.1 h
  refine alike_iff.2 ⟨fun hq => number ?_, eq.symm⟩
  exact canonical_eq_nan_iff.1 (eq.trans (canonical_eq_nan_iff.2 hq))

theorem alike_trans {p q r : Payload} (hpq : p.alike q = true) (hqr : q.alike r = true) :
    p.alike r = true :=
  alike_iff.2 ⟨(alike_iff.1 hpq).1, (alike_iff.1 hpq).2.trans (alike_iff.1 hqr).2⟩

def isScalar : Payload → Bool
  | value (.array _) => false
  | value (.object _) => false
  | _ => true

@[simp] theorem isScalar_canonical (p : Payload) : p.canonical.isScalar = p.isScalar := by
  cases p with
  | nan => rfl
  | value v => cases v <;> rfl

def isTruthy : Payload → Bool
  | value v => v.isTruthy
  | nan => true

end Payload
end SlotTree
