import Mathlib.Data.Fintype.Card
import Mathlib.Data.Finset.Card
import Mathlib.Data.List.Sort
import Mathlib.Data.List.OfFn
import Mathlib.Data.Fintype.Fin

/-! Majorities as lists without repetition. Two of them share a member. -/

namespace ProjectsCpp.Quorum

variable {α : Type} [Fintype α] [DecidableEq α]

/-- More than half of the members, each named once. -/
structure Majority (voters : List α) : Prop where
  nodup : voters.Nodup
  many : Fintype.card α / 2 < voters.length

theorem Majority.meet {a b : List α} (ha : Majority a) (hb : Majority b) : ∃ v ∈ a, v ∈ b := by
  by_contra apart
  have disjoint : Disjoint a.toFinset b.toFinset := by
    rw [Finset.disjoint_left]
    intro v inA inB
    exact apart ⟨v, List.mem_toFinset.mp inA, List.mem_toFinset.mp inB⟩
  have union := Finset.card_le_univ (a.toFinset ∪ b.toFinset)
  rw [Finset.card_union_of_disjoint disjoint, List.toFinset_card_of_nodup ha.nodup,
    List.toFinset_card_of_nodup hb.nodup] at union
  have manyA := ha.many
  have manyB := hb.many
  omega

private theorem le_countP_of_sorted {sorted : List Int} (ordered : sorted.Pairwise (· ≤ ·)) {i : Nat}
    (inside : i < sorted.length) :
    sorted.length - i ≤ sorted.countP fun x => decide (sorted[i] ≤ x) := by
  have above : ∀ x ∈ sorted.drop i, sorted[i] ≤ x := by
    intro x member
    obtain ⟨k, inside', rfl⟩ := List.getElem_of_mem member
    rw [List.getElem_drop]
    cases k with
    | zero => exact le_refl _
    | succ k =>
      rw [List.length_drop] at inside'
      exact List.pairwise_iff_getElem.mp ordered _ _ inside (by omega) (by omega)
  have all := List.countP_eq_length.mpr fun x member => decide_eq_true (above x member)
  rw [List.length_drop] at all
  rw [← all]
  exact (List.drop_sublist _ _).countP_le

private theorem countP_le_of_sorted {sorted : List Int} (ordered : sorted.Pairwise (· ≤ ·)) {i : Nat}
    (inside : i < sorted.length) {k : Int} (more : sorted[i] < k) :
    (sorted.countP fun x => decide (k ≤ x)) ≤ sorted.length - (i + 1) := by
  have below : (sorted.take (i + 1)).countP (fun x => decide (k ≤ x)) = 0 := by
    rw [List.countP_eq_zero]
    intro x member large
    obtain ⟨j, inside', rfl⟩ := List.getElem_of_mem member
    rw [List.length_take] at inside'
    rw [List.getElem_take] at large
    have le : sorted[j] ≤ sorted[i] := by
      rcases Nat.lt_or_ge j i with less | same
      · exact List.pairwise_iff_getElem.mp ordered _ _ (by omega) inside less
      · have eq : j = i := by omega
        subst eq
        exact le_refl _
    exact absurd (of_decide_eq_true large) (by omega)
  rw [← List.take_append_drop (i + 1) sorted, List.countP_append, below, Nat.zero_add,
    ← List.length_drop, List.take_append_drop]
  exact List.countP_le_length

theorem isGreatest_median {n : Nat} (odd : n % 2 = 1) (f : Fin n → Int) :
    IsGreatest {k | n / 2 < (List.finRange n).countP fun v => decide (k ≤ f v)}
      (((List.ofFn f).insertionSort (· ≤ ·)).getD (n / 2) 0) := by
  generalize sorted_ : (List.ofFn f).insertionSort (· ≤ ·) = sorted
  have perm : sorted.Perm (List.ofFn f) := by
    rw [← sorted_]
    exact List.perm_insertionSort _ _
  have length : sorted.length = n := by rw [perm.length_eq, List.length_ofFn]
  have ordered : sorted.Pairwise (· ≤ ·) := by
    rw [← sorted_]
    exact List.pairwise_insertionSort _ _
  have middle : n / 2 < sorted.length := by omega
  have value : sorted.getD (n / 2) 0 = sorted[n / 2] := by
    rw [List.getD_eq_getElem?_getD, List.getElem?_eq_getElem middle, Option.getD_some]
  have count : ∀ k : Int, (List.finRange n).countP (fun v => decide (k ≤ f v)) =
      sorted.countP fun x => decide (k ≤ x) := by
    intro k
    rw [perm.countP_eq, List.ofFn_eq_map, List.countP_map]
    rfl
  rw [value]
  constructor
  · have many := le_countP_of_sorted ordered middle
    rw [Set.mem_ofPred_eq, count]
    omega
  · intro k enough
    rw [Set.mem_ofPred_eq, count] at enough
    by_contra more
    have few := countP_le_of_sorted ordered middle (not_le.mp more)
    omega

theorem Majority.median {n : Nat} (odd : n % 2 = 1) (f : Fin n → Int) :
    ∃ voters : List (Fin n), Majority voters ∧
      ∀ v ∈ voters, ((List.ofFn f).insertionSort (· ≤ ·)).getD (n / 2) 0 ≤ f v := by
  have enough := (isGreatest_median odd f).1
  generalize ((List.ofFn f).insertionSort (· ≤ ·)).getD (n / 2) 0 = middle at enough
  refine ⟨(List.finRange n).filter fun v => decide (middle ≤ f v),
    ⟨(List.nodup_finRange n).filter _, ?_⟩, fun v member =>
      of_decide_eq_true (List.mem_filter.mp member).2⟩
  rw [Fintype.card_fin, ← List.countP_eq_length_filter]
  exact enough

end ProjectsCpp.Quorum
