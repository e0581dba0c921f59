import Mathlib.Order.Monotone.Basic

/-! Jobs that arrive in turns, of which every turn does at most one. -/

namespace ProjectsCpp.Turns

/-- The jobs done behind a turn, when `arrived` have come by then. -/
def done (arrived : Nat → Nat) : Nat → Nat
  | 0 => 0
  | turn + 1 => if done arrived turn < arrived (turn + 1) then done arrived turn + 1 else done arrived turn

variable {arrived : Nat → Nat} {m n : Nat}

theorem done_le_arrived (mono : Monotone arrived) (m : Nat) : done arrived m ≤ arrived m := by
  induction m with
  | zero => exact Nat.zero_le _
  | succ m ih =>
    rw [done]
    split
    · assumption
    · exact ih.trans (mono (Nat.le_succ m))

theorem done_le_add (m i : Nat) : done arrived m ≤ done arrived (m - i) + i := by
  induction i generalizing m with
  | zero => exact le_rfl
  | succ i ih =>
    cases m with
    | zero => exact Nat.zero_le _
    | succ m =>
      have before := ih m
      rw [Nat.succ_sub_succ, done]
      split <;> omega

theorem done_eq_iff (mono : Monotone arrived) (none : arrived 0 = 0) (all : arrived m ≤ n) :
    done arrived m = n ↔ ∀ i < n, n - i ≤ arrived (m - i) := by
  constructor
  · intro finished i less
    have slow : done arrived m ≤ done arrived (m - i) + i := done_le_add m i
    exact le_trans (by omega) (done_le_arrived mono (m - i))
  · intro early
    have step : ∀ left ≤ n, left ≤ done arrived (m - (n - left)) := by
      intro left
      induction left with
      | zero => exact fun _ => Nat.zero_le _
      | succ left ih =>
        intro le
        have before := ih (by omega)
        have come := early (n - (left + 1)) (by omega)
        have here : m - (n - (left + 1)) ≠ 0 := by
          intro zero
          rw [zero, none] at come
          omega
        have turn : m - (n - (left + 1)) = m - (n - left) + 1 := by omega
        rw [turn] at come ⊢
        rw [done]
        split <;> omega
    have high := (done_le_arrived mono m).trans all
    have low := step n le_rfl
    rw [Nat.sub_self, Nat.sub_zero] at low
    omega

end ProjectsCpp.Turns
