import SlotTree.Payload.Basic

/-!
What a fingerprint of a tree shows: the payloads of the nodes that first slots lead to, and whether
a node has slots at all. Skeletons are compared with a list of pending pairs, since they are as
deep as the trees they come from; the comparison decides equality.
-/

namespace SlotTree

inductive Skeleton where
  | bare (label : Payload)
  | rooted (label : Payload) (first : List Skeleton)
  deriving Repr

namespace Skeleton

mutual

def weight : Skeleton → Nat
  | bare _ => 1
  | rooted _ first => weightAll first + 1

def weightAll : List Skeleton → Nat
  | [] => 0
  | a :: as => weight a + weightAll as

end

private def pending (pairs : List (Skeleton × Skeleton)) : Nat :=
  weightAll (pairs.map Prod.fst)

private theorem weightAll_append (as bs : List Skeleton) :
    weightAll (as ++ bs) = weightAll as + weightAll bs := by
  induction as with
  | nil => simp [weightAll]
  | cons a as ih => simp [weightAll, ih, Nat.add_assoc]

private theorem pending_append (ps qs : List (Skeleton × Skeleton)) :
    pending (ps ++ qs) = pending ps + pending qs := by
  simp [pending, weightAll_append]

private theorem pending_zip_le (as bs : List Skeleton) : pending (as.zip bs) ≤ weightAll as := by
  induction as generalizing bs with
  | nil => simp [pending, weightAll]
  | cons a as ih =>
    cases bs with
    | nil => simp [pending, weightAll]
    | cons b bs => simpa [pending, weightAll] using ih bs

def sameAll : List (Skeleton × Skeleton) → Bool
  | [] => true
  | (bare p, bare q) :: rest => p == q && sameAll rest
  | (rooted p as, rooted q bs) :: rest =>
    p == q && (as.length == bs.length && sameAll (as.zip bs ++ rest))
  | _ => false
termination_by pairs => pending pairs
decreasing_by
  · simp [pending, weightAll, weight]
  · have h := pending_zip_le as bs
    rw [pending_append]
    simp only [pending, weightAll, weight, List.map_cons] at h ⊢
    omega

private theorem eq_of_zip_same {as bs : List Skeleton} (h : as.length = bs.length) :
    (∀ pair ∈ as.zip bs, pair.1 = pair.2) ↔ as = bs := by
  induction as generalizing bs with
  | nil => cases bs <;> simp_all
  | cons a as ih =>
    cases bs with
    | nil => simp at h
    | cons b bs => simpa using fun _ => ih (by simpa using h)

theorem sameAll_iff (pairs : List (Skeleton × Skeleton)) :
    sameAll pairs = true ↔ ∀ pair ∈ pairs, pair.1 = pair.2 := by
  fun_induction sameAll pairs with
  | case1 => simp
  | case2 p q rest ih => simp [ih]
  | case3 p as q bs rest ih =>
    by_cases hlen : as.length = bs.length
    · simp [hlen, ih, or_imp, forall_and, ← eq_of_zip_same hlen, and_assoc]
    · have hne : as ≠ bs := fun h => hlen (congrArg _ h)
      simp [hlen, hne]
  | case4 pairs h2 h3 h4 =>
    match pairs with
    | [] => exact (h2 rfl).elim
    | (bare p, bare q) :: rest => exact (h3 p q rest rfl).elim
    | (rooted p as, rooted q bs) :: rest => exact (h4 p as q bs rest rfl).elim
    | (bare p, rooted q bs) :: rest => simp
    | (rooted p as, bare q) :: rest => simp

instance : DecidableEq Skeleton := fun a b =>
  decidable_of_iff (sameAll [(a, b)] = true) (by simp [sameAll_iff])

end Skeleton
end SlotTree
