import Mathlib.Order.Basic
import Mathlib.Data.List.Basic
import Mathlib.Data.List.Count

/-! The place where a predicate begins to hold along a list on which it stays true once it is. It is
the number of elements before that, in whatever order they are counted. -/

namespace ProjectsCpp.SortedSearch

variable {α : Type} {p : α → Bool} {xs ys : List α} {i : Nat}

/-- The predicate stays true. -/
def Rising (p : α → Bool) (xs : List α) : Prop := xs.Pairwise fun a b => p a = true → p b = true

theorem findIdx_eq_countP (rising : Rising p xs) : xs.findIdx p = xs.countP fun x => !p x := by
  induction xs with
  | nil => rfl
  | cons x xs ih =>
    obtain ⟨later, rest⟩ := List.pairwise_cons.mp rising
    rw [List.findIdx_cons, List.countP_cons]
    cases here : p x with
    | true =>
      have none : xs.countP (fun y => !p y) = 0 :=
        List.countP_eq_zero.mpr fun y member => by rw [later y member here]; exact Bool.false_ne_true
      rw [none]
      rfl
    | false =>
      rw [ih rest]
      rfl

theorem lt_findIdx_iff (rising : Rising p xs) (inside : i < xs.length) :
    i < xs.findIdx p ↔ p xs[i] = false := by
  constructor
  · exact fun before => List.not_of_lt_findIdx before
  · intro holds
    by_contra after
    have there := Nat.lt_of_le_of_lt (Nat.not_lt.mp after) inside
    have found := List.findIdx_getElem (w := there)
    rcases Nat.eq_or_lt_of_le (Nat.not_lt.mp after) with same | before
    · simp only [same, holds] at found
      exact Bool.false_ne_true found
    · have kept := List.pairwise_iff_getElem.mp rising _ i there inside before found
      exact Bool.false_ne_true (holds.symm.trans kept)

theorem lt_countP_iff (rising : Rising p xs) (perm : ys.Perm xs) (inside : i < xs.length) :
    (i < ys.countP fun y => !p y) ↔ p xs[i] = false := by
  rw [perm.countP_eq, ← findIdx_eq_countP rising, lt_findIdx_iff rising inside]

end ProjectsCpp.SortedSearch
