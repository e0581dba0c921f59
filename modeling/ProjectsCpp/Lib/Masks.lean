import Mathlib.Algebra.Group.Nat.Defs
import Mathlib.Algebra.Group.Int.Defs
import Mathlib.Data.List.Sort
import Mathlib.Data.List.TakeWhile
import Mathlib.Data.Nat.Bitwise

/-! Bit masks as sets of numbers. `x &&& (x - 1)` takes out the smallest number of the set, so a
loop that reads `ctz` and then clears that bit goes through the set in rising order. -/

namespace ProjectsCpp.Masks

variable {w : Nat} {x : BitVec w} {i j n k m : Nat}

/-- The places of the bits that are on, in rising order. -/
def bits (x : BitVec w) : List Nat := (List.range w).filter fun j => x.getLsbD j

theorem mem_bits : j ∈ bits x ↔ x.getLsbD j = true := by
  rw [bits, List.mem_filter, List.mem_range, and_iff_right_iff_imp]
  exact BitVec.lt_of_getLsbD

theorem bits_sorted (x : BitVec w) : (bits x).Pairwise (· < ·) :=
  List.pairwise_lt_range.sublist List.filter_sublist

theorem bits_zero : bits (0#w) = [] := by
  rw [List.eq_nil_iff_forall_not_mem]
  intro j inside
  rw [mem_bits, BitVec.getLsbD_zero] at inside
  cases inside

theorem length_bits_le (x : BitVec w) : (bits x).length ≤ w :=
  (List.length_filter_le _ _).trans_eq List.length_range

theorem lowest_split (low : ∀ i < k, n.testBit i = false) (one : n.testBit k = true) :
    n = 2 ^ (k + 1) * (n / 2 ^ (k + 1)) + 2 ^ k := by
  have rest : n % 2 ^ (k + 1) = 2 ^ k := by
    refine Nat.eq_of_testBit_eq fun j => ?_
    rw [Nat.testBit_mod_two_pow, Nat.testBit_two_pow]
    rcases Nat.lt_trichotomy j k with less | rfl | more
    · rw [low j less, Bool.and_false, decide_eq_false (Nat.ne_of_gt less)]
    · rw [one, decide_eq_true (Nat.lt_succ_self j), decide_eq_true rfl, Bool.and_true]
    · rw [decide_eq_false (Nat.not_lt.mpr more), decide_eq_false (Nat.ne_of_lt more), Bool.false_and]
  rw [← rest]
  exact (Nat.div_add_mod _ _).symm

theorem testBit_clearLowest (m k j : Nat) :
    ((2 ^ (k + 1) * m + 2 ^ k) &&& (2 ^ (k + 1) * m + 2 ^ k - 1)).testBit j =
      ((2 ^ (k + 1) * m + 2 ^ k).testBit j && decide (j ≠ k)) := by
  have less : 2 ^ k < 2 ^ (k + 1) := Nat.pow_lt_pow_right (Nat.lt_succ_self 1) (Nat.lt_succ_self k)
  have pos : 0 < 2 ^ k := Nat.two_pow_pos k
  rw [Nat.add_sub_assoc pos, Nat.testBit_and, Nat.testBit_two_pow_mul_add _ less,
    Nat.testBit_two_pow_mul_add _ (Nat.lt_of_le_of_lt (Nat.sub_le _ 1) less)]
  split
  · rename_i small
    rw [Nat.testBit_two_pow, Nat.testBit_two_pow_sub_one]
    by_cases same : k = j
    · rw [decide_eq_true same, decide_eq_false (by omega), decide_eq_false (by omega), Bool.and_false]
    · rw [decide_eq_false same, Bool.false_and, Bool.false_and]
  · rename_i large
    rw [Bool.and_self, decide_eq_true (by omega), Bool.and_true]

theorem getLsbD_clearLowest (some_ : x ≠ 0#w) (j : Nat) :
    (x &&& (x - 1#w)).getLsbD j = (x.getLsbD j && decide (j ≠ x.ctz.toNat)) := by
  have pos : 0 < x.toNat := Nat.pos_of_ne_zero fun zero => some_ (BitVec.eq_of_toNat_eq zero)
  have wide : 0 < w := Nat.pos_of_ne_zero fun zero => by
    subst zero
    exact some_ (Subsingleton.elim _ _)
  have less : (x - 1#w).toNat = x.toNat - 1 := by
    have one : (1#w).toNat = 1 := Nat.mod_eq_of_lt (Nat.one_lt_two_pow (by omega))
    rw [BitVec.toNat_sub_of_le (by rw [BitVec.le_def, one]; exact pos), one]
  have split := lowest_split (n := x.toNat) (k := x.ctz.toNat)
    (fun i below => BitVec.getLsbD_false_of_lt_ctz below) (BitVec.getLsbD_true_ctz_of_ne_zero some_)
  have cleared := testBit_clearLowest (x.toNat / 2 ^ (x.ctz.toNat + 1)) x.ctz.toNat j
  rw [← split, ← less, ← BitVec.toNat_and] at cleared
  exact cleared

theorem bits_cons (some_ : x ≠ 0#w) : bits x = x.ctz.toNat :: bits (x &&& (x - 1#w)) := by
  have mem (j : Nat) : j ∈ bits (x &&& (x - 1#w)) ↔ j ∈ bits x ∧ j ≠ x.ctz.toNat := by
    rw [mem_bits, mem_bits, getLsbD_clearLowest some_, Bool.and_eq_true, decide_eq_true_iff]
  have first : x.ctz.toNat ∈ bits x := mem_bits.mpr (BitVec.getLsbD_true_ctz_of_ne_zero some_)
  have least : ∀ j ∈ bits (x &&& (x - 1#w)), x.ctz.toNat < j := by
    intro j inside
    obtain ⟨on_, other⟩ := (mem j).mp inside
    rw [mem_bits] at on_
    refine Nat.lt_of_le_of_ne (Nat.not_lt.mp fun below => ?_) (Ne.symm other)
    rw [BitVec.getLsbD_false_of_lt_ctz below] at on_
    cases on_
  have sorted : (x.ctz.toNat :: bits (x &&& (x - 1#w))).Pairwise (· < ·) :=
    List.pairwise_cons.mpr ⟨least, bits_sorted _⟩
  refine List.Perm.eq_of_pairwise' (bits_sorted x) sorted ?_
  refine (List.perm_ext_iff_of_nodup ((bits_sorted x).imp Nat.ne_of_lt)
    (sorted.imp Nat.ne_of_lt)).mpr fun j => ?_
  rw [List.mem_cons, mem]
  constructor
  · intro inside
    by_cases same : j = x.ctz.toNat
    · exact .inl same
    · exact .inr ⟨inside, same⟩
  · rintro (rfl | ⟨inside, -⟩)
    · exact first
    · exact inside

theorem bits_takeWhile (x : BitVec w) (le : n ≤ w) :
    (bits x).takeWhile (· < n) = (List.range n).filter fun j => x.getLsbD j := by
  obtain ⟨d, rfl⟩ := Nat.exists_eq_add_of_le le
  rw [bits, List.range_add, List.filter_append, List.takeWhile_append_of_pos]
  · have none : ((List.map (n + ·) (List.range d)).filter fun j => x.getLsbD j).takeWhile (· < n) =
        [] := by
      rw [List.takeWhile_eq_nil_iff]
      intro some_
      have inside := List.mem_of_mem_filter (List.get_mem _ ⟨0, some_⟩)
      obtain ⟨e, -, same⟩ := List.mem_map.mp inside
      rw [← same, decide_eq_true_iff]
      omega
    rw [none, List.append_nil]
  · intro j inside
    exact decide_eq_true (List.mem_range.mp (List.mem_of_mem_filter inside))

theorem getLsbD_one_shiftLeft (small : j < w) : (1#w <<< i).getLsbD j = decide (j = i) := by
  rw [← BitVec.twoPow_eq, BitVec.getLsbD_twoPow]
  by_cases same : j = i
  · rw [← same, decide_eq_true small, decide_eq_true rfl, Bool.and_true]
  · rw [decide_eq_false same, decide_eq_false (Ne.symm same), Bool.and_false]

theorem and_one_shiftLeft (small : i < w) : x &&& 1#w <<< i = 0#w ↔ ¬ x.getLsbD i = true := by
  constructor
  · intro none on_
    have off : (x &&& 1#w <<< i).getLsbD i = false := by rw [none, BitVec.getLsbD_zero]
    rw [BitVec.getLsbD_and, on_, getLsbD_one_shiftLeft small, decide_eq_true rfl] at off
    cases off
  · intro off
    refine BitVec.eq_of_getLsbD_eq fun j inside => ?_
    rw [BitVec.getLsbD_and, getLsbD_one_shiftLeft inside, BitVec.getLsbD_zero]
    by_cases same : j = i
    · rw [same, Bool.eq_false_iff.mpr off, Bool.false_and]
    · rw [decide_eq_false same, Bool.and_false]

/-- The loop through the numbers of a mask that are below `n`. -/
def eachBit {σ : Type} (n : Nat) (body : Nat → σ → Option σ) : Nat → BitVec w → σ → Option σ
  | 0, _, _ => none
  | rounds + 1, avail, s =>
    if avail = 0#w then some s
    else if n ≤ avail.ctz.toNat then some s
    else (body avail.ctz.toNat s).bind (eachBit n body rounds (avail &&& (avail - 1#w)))

theorem eachBit_rule {σ : Type} {body : Nat → σ → Option σ} {P : List Nat → σ → Prop}
    (step : ∀ i rest s, P (i :: rest) s → ∃ t, body i s = some t ∧ P rest t) {rounds : Nat} {s : σ}
    (enough : (bits x).length < rounds) (start : P ((bits x).takeWhile (· < n)) s) :
    ∃ t, eachBit n body rounds x s = some t ∧ P [] t := by
  induction rounds generalizing x s with
  | zero => exact absurd enough (Nat.not_lt_zero _)
  | succ rounds ih =>
    rw [eachBit]
    split
    · rename_i none
      rw [none, bits_zero] at start
      exact ⟨s, rfl, start⟩
    · rename_i some_
      rw [bits_cons some_] at start enough
      split
      · rename_i outside
        have last : ¬ decide (x.ctz.toNat < n) = true := by
          rw [decide_eq_true_iff]
          exact Nat.not_lt.mpr outside
        rw [List.takeWhile_cons_of_neg (p := fun i => decide (i < n)) last] at start
        exact ⟨s, rfl, start⟩
      · rename_i inside
        rw [List.takeWhile_cons_of_pos (p := fun i => decide (i < n))
          (decide_eq_true (Nat.not_le.mp inside))] at start
        obtain ⟨t, done, rest⟩ := step _ _ _ start
        rw [done]
        exact ih (Nat.lt_of_succ_lt_succ enough) rest

end ProjectsCpp.Masks
