import Mathlib.Tactic.Common
import Mathlib.Algebra.Group.Nat.Defs
import Mathlib.Algebra.Group.Int.Defs

/-! The calendar of `base/Date.cc`. Its `int` arithmetic is checked: an expression has no value where
one of the `int`s that it computes overflows. -/

namespace ProjectsCpp.Muduo

/-- The value of an expression that computes these `int`s. -/
def ints {α : Type} (computed : List Int) (value : α) : Option α :=
  if ∀ x ∈ computed, -2 ^ 31 ≤ x ∧ x < 2 ^ 31 then some value else none

theorem ints_eq {α : Type} {computed : List Int} {value : α}
    (fit : ∀ x ∈ computed, -2 ^ 31 ≤ x ∧ x < 2 ^ 31) : ints computed value = some value :=
  if_pos fit

structure YearMonthDay where
  year : Int
  month : Int
  day : Int
deriving DecidableEq

def getJulianDayNumber (year month day : Int) : Option Int :=
  let a := (14 - month).tdiv 12
  let y := year + 4800 - a
  let m := month + 12 * a - 3
  let s := day + (153 * m + 2).tdiv 5
  let julianDayNumber := s + y * 365 + y.tdiv 4 - y.tdiv 100 + y.tdiv 400 - 32045
  ints [14 - month, year + 4800, y, 12 * a, month + 12 * a, m, 153 * m, 153 * m + 2, s, y * 365,
    s + y * 365, s + y * 365 + y.tdiv 4, s + y * 365 + y.tdiv 4 - y.tdiv 100,
    s + y * 365 + y.tdiv 4 - y.tdiv 100 + y.tdiv 400, julianDayNumber] julianDayNumber

def getYearMonthDay (julianDayNumber : Int) : Option YearMonthDay :=
  let a := julianDayNumber + 32044
  let b := (4 * a + 3).tdiv 146097
  let c := a - (b * 146097).tdiv 4
  let d := (4 * c + 3).tdiv 1461
  let e := c - (1461 * d).tdiv 4
  let m := (5 * e + 2).tdiv 153
  let day := e - (153 * m + 2).tdiv 5 + 1
  let month := m + 3 - 12 * m.tdiv 10
  let year := b * 100 + d - 4800 + m.tdiv 10
  ints [a, 4 * a, 4 * a + 3, b * 146097, c, 4 * c, 4 * c + 3, 1461 * d, e, 5 * e, 5 * e + 2, 153 * m,
    153 * m + 2, day - 1, day, m + 3, 12 * m.tdiv 10, month, b * 100, b * 100 + d, b * 100 + d - 4800,
    year] ⟨year, month, day⟩

def kJulianDayOf1970_01_01 : Int := 2440588

/-- The day is one of those that the arithmetic of `Date` reaches: it counts from 1 March of the year
-4800 and multiplies the count by four. -/
def DayFits (julianDayNumber : Int) : Prop :=
  0 ≤ julianDayNumber + 32044 ∧ 4 * (julianDayNumber + 32044) + 3 < 2 ^ 31

theorem getYearMonthDay_eq {n b c d e m : Int} (fits : DayFits n)
    (hb : b = (4 * (n + 32044) + 3) / 146097) (hc : c = n + 32044 - b * 146097 / 4)
    (hd : d = (4 * c + 3) / 1461) (he : e = c - 1461 * d / 4) (hm : m = (5 * e + 2) / 153) :
    getYearMonthDay n = some ⟨b * 100 + d - 4800 + m / 10, m + 3 - 12 * (m / 10),
      e - (153 * m + 2) / 5 + 1⟩ := by
  obtain ⟨first, last⟩ := fits
  have centuries : 0 ≤ b ∧ b ≤ 14699 ∧ 0 ≤ c ∧ c ≤ 36524 := by omega
  have years : 0 ≤ d ∧ d ≤ 99 := by omega
  have days : 0 ≤ e ∧ e ≤ 365 := by omega
  have months : 0 ≤ m ∧ m ≤ 11 := by omega
  have tb : (4 * (n + 32044) + 3).tdiv 146097 = b :=
    (Int.tdiv_eq_ediv_of_nonneg (by omega)).trans hb.symm
  have tc : (b * 146097).tdiv 4 = b * 146097 / 4 := Int.tdiv_eq_ediv_of_nonneg (by omega)
  have td : (4 * c + 3).tdiv 1461 = d := (Int.tdiv_eq_ediv_of_nonneg (by omega)).trans hd.symm
  have te : (1461 * d).tdiv 4 = 1461 * d / 4 := Int.tdiv_eq_ediv_of_nonneg (by omega)
  have tm : (5 * e + 2).tdiv 153 = m := (Int.tdiv_eq_ediv_of_nonneg (by omega)).trans hm.symm
  have tday : (153 * m + 2).tdiv 5 = (153 * m + 2) / 5 := Int.tdiv_eq_ediv_of_nonneg (by omega)
  have tyear : m.tdiv 10 = m / 10 := Int.tdiv_eq_ediv_of_nonneg (by omega)
  simp only [getYearMonthDay, tb, tc, ← hc, td, te, ← he, tm, tday, tyear]
  refine ints_eq ?_
  simp only [List.forall_mem_cons, List.not_mem_nil, false_imp_iff, implies_true, and_true]
  omega

theorem getJulianDayNumber_eq {b d e m : Int} (hb : 0 ≤ b ∧ b ≤ 14699) (hd : 0 ≤ d ∧ d ≤ 99)
    (he : 0 ≤ e ∧ e ≤ 365) (hm : m = (5 * e + 2) / 153) :
    getJulianDayNumber (b * 100 + d - 4800 + m / 10) (m + 3 - 12 * (m / 10))
      (e - (153 * m + 2) / 5 + 1) = some (b * 146097 / 4 + 1461 * d / 4 + e - 32044) := by
  have months : 0 ≤ m ∧ m ≤ 11 := by omega
  obtain ⟨y, hy⟩ : ∃ y, y = b * 100 + d := ⟨_, rfl⟩
  have ta : (14 - (m + 3 - 12 * (m / 10))).tdiv 12 = m / 10 := by
    rw [Int.tdiv_eq_ediv_of_nonneg (by omega)]
    omega
  have year : b * 100 + d - 4800 + m / 10 + 4800 - m / 10 = y := by omega
  have month : m + 3 - 12 * (m / 10) + 12 * (m / 10) - 3 = m := by omega
  have ts : (153 * m + 2).tdiv 5 = (153 * m + 2) / 5 := Int.tdiv_eq_ediv_of_nonneg (by omega)
  have quarters : y.tdiv 4 = 25 * b + d / 4 := by
    rw [Int.tdiv_eq_ediv_of_nonneg (by omega)]
    omega
  have hundreds : y.tdiv 100 = b := by
    rw [Int.tdiv_eq_ediv_of_nonneg (by omega)]
    omega
  have cycles : y.tdiv 400 = b / 4 := by
    rw [Int.tdiv_eq_ediv_of_nonneg (by omega)]
    omega
  have before : b * 146097 / 4 = 36524 * b + b / 4 := by omega
  have rest : 1461 * d / 4 = 365 * d + d / 4 := by omega
  simp only [getJulianDayNumber, ta, year, month, ts, quarters, hundreds, cycles, before, rest]
  refine (ints_eq ?_).trans (congrArg some (by omega))
  simp only [List.forall_mem_cons, List.not_mem_nil, false_imp_iff, implies_true, and_true]
  omega

theorem julianDayNumber_yearMonthDay {n : Int} (fits : DayFits n) :
    ∃ date, getYearMonthDay n = some date ∧
      getJulianDayNumber date.year date.month date.day = some n := by
  refine ⟨_, getYearMonthDay_eq fits rfl rfl rfl rfl rfl, ?_⟩
  obtain ⟨first, last⟩ := fits
  refine (getJulianDayNumber_eq ?_ ?_ ?_ rfl).trans (congrArg some ?_) <;> omega

end ProjectsCpp.Muduo
