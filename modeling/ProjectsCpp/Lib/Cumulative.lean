import Mathlib.Data.Int.Order.Basic
import Mathlib.Data.List.Basic
import Mathlib.Order.Basic

/-! Numbers of values by the intervals between bounds, and their partial sums. The partial sums are
the numbers up to each bound, and the first that reaches a threshold exceeds it by at most the
number in its interval. -/

namespace ProjectsCpp.Cumulative

def upTo (values : List Int) (bound : Int) : Int := (values.countP (· ≤ bound) : Nat)

/-- The numbers of values in the intervals that end at the bounds, of which the first starts behind
`previous`. -/
def counts (values : List Int) : Int → List Int → List Int
  | _, [] => []
  | previous, bound :: bounds =>
    (values.countP (fun x => previous < x ∧ x ≤ bound) : Nat) :: counts values bound bounds

def partialSums (sum : Int) : List Int → List Int
  | [] => []
  | x :: xs => (sum + x) :: partialSums (sum + x) xs

variable {values bounds : List Int} {previous bound threshold : Int}

theorem count_interval (values : List Int) (le : previous ≤ bound) :
    ((values.countP (fun x => previous < x ∧ x ≤ bound) : Nat) : Int) =
      upTo values bound - upTo values previous := by
  unfold upTo
  induction values with
  | nil => rfl
  | cons x values ih =>
    simp only [List.countP_cons, decide_eq_true_eq]
    split_ifs <;> omega

theorem length_counts : (counts values previous bounds).length = bounds.length := by
  induction bounds generalizing previous with
  | nil => rfl
  | cons bound bounds ih => exact congrArg (· + 1) ih

theorem partialSums_counts (sorted : (previous :: bounds).Pairwise (· ≤ ·)) :
    partialSums (upTo values previous) (counts values previous bounds) =
      bounds.map (upTo values) := by
  induction bounds generalizing previous with
  | nil => rfl
  | cons bound bounds ih =>
    obtain ⟨first, rest⟩ := List.pairwise_cons.mp sorted
    have sum : upTo values previous +
        ((values.countP (fun x => previous < x ∧ x ≤ bound) : Nat) : Int) = upTo values bound := by
      rw [count_interval values (first bound List.mem_cons_self)]
      omega
    rw [counts, partialSums, sum, ih rest, List.map_cons]

theorem find?_le {f : Int → Bool} {other : Int} (sorted : bounds.Pairwise (· ≤ ·))
    (found : bounds.find? f = some bound) (member : other ∈ bounds) (holds : f other = true) :
    bound ≤ other := by
  induction bounds with
  | nil => cases found
  | cons b bounds ih =>
    obtain ⟨first, rest⟩ := List.pairwise_cons.mp sorted
    rw [List.find?_cons] at found
    cases here : f b with
    | true =>
      rw [here] at found
      cases found
      rcases List.mem_cons.mp member with rfl | later
      · exact le_rfl
      · exact first other later
    | false =>
      rw [here] at found
      rcases List.mem_cons.mp member with rfl | later
      · exact absurd (here.symm.trans holds) Bool.false_ne_true
      · exact ih rest found later

theorem exceeds_le_count (sorted : (previous :: bounds).Pairwise (· ≤ ·))
    (below : upTo values previous ≤ threshold)
    (found : bounds.find? (fun b => threshold ≤ upTo values b) = some bound) :
    ∃ count ∈ counts values previous bounds, upTo values bound ≤ threshold + count := by
  induction bounds generalizing previous with
  | nil => cases found
  | cons b bounds ih =>
    obtain ⟨first, rest⟩ := List.pairwise_cons.mp sorted
    have interval := count_interval values (first b List.mem_cons_self)
    rw [List.find?_cons] at found
    cases reached : decide (threshold ≤ upTo values b) with
    | true =>
      rw [reached] at found
      cases found
      exact ⟨_, List.mem_cons_self, by omega⟩
    | false =>
      rw [reached] at found
      have short := of_decide_eq_false reached
      obtain ⟨count, member, le⟩ := ih rest (by omega) found
      exact ⟨count, List.mem_cons_of_mem _ member, le⟩

end ProjectsCpp.Cumulative
