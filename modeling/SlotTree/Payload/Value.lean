/-!
Plain values: scalars, arrays and objects. Two values are alike when they have one canonical form,
in which a truth value is the number 1 or 0 and an object lists its entries by key. Likeness so
defined is an equivalence, and it is what payloads are compared by.

Decidable equality of values is structural and finer: `true` and `1` are alike and not equal.
-/

namespace SlotTree

inductive Value where
  | null
  | bool (b : Bool)
  | int (n : Int)
  | str (s : String)
  | array (items : List Value)
  | object (entries : List (String × Value))
  deriving Repr, Inhabited

namespace Value

/-! Structural equality. -/

mutual

def same : Value → Value → Bool
  | null, null => true
  | bool a, bool b => a == b
  | int a, int b => a == b
  | str a, str b => a == b
  | array as, array bs => sameItems as bs
  | object as, object bs => sameEntries as bs
  | _, _ => false

def sameItems : List Value → List Value → Bool
  | [], [] => true
  | a :: as, b :: bs => same a b && sameItems as bs
  | _, _ => false

def sameEntries : List (String × Value) → List (String × Value) → Bool
  | [], [] => true
  | (k, a) :: as, (l, b) :: bs => k == l && same a b && sameEntries as bs
  | _, _ => false

end

mutual

theorem same_self (a : Value) : same a a = true := by
  cases a with
  | null => rfl
  | bool b => simp [same]
  | int n => simp [same]
  | str s => simp [same]
  | array items => simpa [same] using sameItems_self items
  | object entries => simpa [same] using sameEntries_self entries

theorem sameItems_self (as : List Value) : sameItems as as = true := by
  cases as with
  | nil => rfl
  | cons a as => simp [sameItems, same_self a, sameItems_self as]

theorem sameEntries_self (as : List (String × Value)) : sameEntries as as = true := by
  cases as with
  | nil => rfl
  | cons a as => simp [sameEntries, same_self a.2, sameEntries_self as]

end

mutual

theorem eq_of_same {a b : Value} (h : same a b = true) : a = b := by
  match a, b with
  | null, null => rfl
  | bool a, bool b => simpa [same] using h
  | int a, int b => simpa [same] using h
  | str a, str b => simpa [same] using h
  | array as, array bs => exact congrArg array (eq_of_sameItems (by simpa [same] using h))
  | object as, object bs => exact congrArg object (eq_of_sameEntries (by simpa [same] using h))

theorem eq_of_sameItems {as bs : List Value} (h : sameItems as bs = true) : as = bs := by
  match as, bs with
  | [], [] => rfl
  | a :: as, b :: bs =>
    simp only [sameItems, Bool.and_eq_true] at h
    rw [eq_of_same h.1, eq_of_sameItems h.2]

theorem eq_of_sameEntries {as bs : List (String × Value)} (h : sameEntries as bs = true) :
    as = bs := by
  match as, bs with
  | [], [] => rfl
  | (k, a) :: as, (l, b) :: bs =>
    simp only [sameEntries, Bool.and_eq_true, beq_iff_eq] at h
    rw [h.1.1, eq_of_same h.1.2, eq_of_sameEntries h.2]

end

instance : DecidableEq Value := fun a b =>
  if h : same a b = true then .isTrue (eq_of_same h)
  else .isFalse fun eq => h (eq ▸ same_self a)

/-! The canonical form. -/

/-- Puts an entry in its place by key; an entry already there for that key stays. -/
def insertEntry (key : String) (value : Value) : List (String × Value) → List (String × Value)
  | [] => [(key, value)]
  | (k, v) :: entries =>
    if key < k then (key, value) :: (k, v) :: entries
    else if key = k then (k, v) :: entries
    else (k, v) :: insertEntry key value entries

mutual

def canonical : Value → Value
  | null => null
  | bool b => int (if b then 1 else 0)
  | int n => int n
  | str s => str s
  | array items => array (canonicalItems items)
  | object entries => object (canonicalEntries entries)

def canonicalItems : List Value → List Value
  | [] => []
  | item :: items => canonical item :: canonicalItems items

def canonicalEntries : List (String × Value) → List (String × Value)
  | [] => []
  | (key, value) :: entries => insertEntry key (canonical value) (canonicalEntries entries)

end

def isTruthy : Value → Bool
  | null => false
  | bool b => b
  | int n => n != 0
  | str s => !s.isEmpty
  | array items => !items.isEmpty
  | object entries => !entries.isEmpty

end Value
end SlotTree
