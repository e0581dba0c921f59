import Mathlib.Order.Basic
import Mathlib.Order.Lattice

/-! The first element of a sorted list that is greater than a value, as `std::upper_bound` finds it. -/

namespace ProjectsCpp.UpperBound

variable {α β : Type} [LinearOrder β] {f : α → β} {xs : List α} {x : β} {i : Nat}

/-- The place of the first element with a key greater than `x`. -/
def upperBound (f : α → β) (xs : List α) (x : β) : Nat := xs.findIdx (x < f ·)

def Increasing (f : α → β) (xs : List α) : Prop := xs.Pairwise (f · < f ·)

theorem Increasing.le (grows : Increasing f xs) {j : Nat} (le : i ≤ j) (hi : i < xs.length)
    (hj : j < xs.length) : f xs[i] ≤ f xs[j] := by
  rcases Nat.eq_or_lt_of_le le with rfl | lt
  · exact le_rfl
  · exact (List.pairwise_iff_getElem.mp grows i j hi hj lt).le

theorem upperBound_eq (grows : Increasing f xs) (hi : i < xs.length) (le : f xs[i] ≤ x)
    (lt : ∀ next : i + 1 < xs.length, x < f xs[i + 1]) : upperBound f xs x = i + 1 := by
  have before : ∀ j (hj : j < xs.length), j < i + 1 → decide (x < f xs[j]) = false := by
    intro j hj lt
    exact decide_eq_false ((grows.le (Nat.le_of_lt_succ lt) hj hi).trans le).not_gt
  rcases Nat.lt_or_ge (i + 1) xs.length with next | end_
  · refine (List.findIdx_eq next).mpr ⟨decide_eq_true (lt next), fun j lt => ?_⟩
    exact before j (Nat.lt_trans lt next) lt
  · have all : xs.findIdx (x < f ·) = xs.length := by
      refine List.findIdx_eq_length_of_false fun y its => ?_
      obtain ⟨j, hj, rfl⟩ := List.getElem_of_mem its
      exact before j hj (Nat.lt_of_lt_of_le hj end_)
    exact all.trans (Nat.le_antisymm end_ hi)

theorem exists_between (some : 0 < xs.length) (le : f xs[0] ≤ x) :
    ∃ (i : Nat) (hi : i < xs.length), f xs[i] ≤ x ∧
      ∀ next : i + 1 < xs.length, x < f xs[i + 1] := by
  have bound : xs.findIdx (x < f ·) ≤ xs.length := List.findIdx_le_length
  cases at_ : xs.findIdx (x < f ·) with
  | zero =>
    have found := List.findIdx_getElem (w := at_ ▸ some)
    simp only [at_, decide_eq_true_eq] at found
    exact absurd found le.not_gt
  | succ i =>
    rw [at_] at bound
    refine ⟨i, bound, ?_, fun next => ?_⟩
    · have not := List.not_of_lt_findIdx (show i < xs.findIdx (x < f ·) by omega)
      exact not_lt.mp (of_decide_eq_false not)
    · have found := List.findIdx_getElem (p := (x < f ·)) (w := at_ ▸ next)
      simp only [at_, decide_eq_true_eq] at found
      exact found

end ProjectsCpp.UpperBound
