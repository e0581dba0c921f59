import ProjectsCpp.Muduo.TimeZone

/-! The days of `base/Date.cc` are those of the Gregorian calendar. Its rules are the ones that
`base/tests/Date_unittest.cc` counts the days with. -/

namespace ProjectsCpp.Muduo

def isLeapYear (year : Int) : Int :=
  if year % 400 = 0 then 1
  else if year % 100 = 0 then 0
  else if year % 4 = 0 then 1
  else 0

def daysOfMonth (year month : Int) : Int :=
  if month = 2 then 28 + isLeapYear year
  else if month = 4 ∨ month = 6 ∨ month = 9 ∨ month = 11 then 30
  else 31

namespace YearMonthDay

structure Valid (date : YearMonthDay) : Prop where
  month : 1 ≤ date.month ∧ date.month ≤ 12
  day : 1 ≤ date.day ∧ date.day ≤ daysOfMonth date.year date.month

def next (date : YearMonthDay) : YearMonthDay :=
  if date.day < daysOfMonth date.year date.month then { date with day := date.day + 1 }
  else if date.month < 12 then ⟨date.year, date.month + 1, 1⟩
  else ⟨date.year + 1, 1, 1⟩

end YearMonthDay

/-- The days of all dates of a later year are too large for `getYearMonthDay`. -/
def lastYear : Int := 1465101

/-- A date whose day is computed without overflow. -/
structure DateFits (date : YearMonthDay) : Prop extends date.Valid where
  year : -4799 ≤ date.year ∧ date.year ≤ lastYear

/-! ### The days -/

def yearDays (y : Int) : Int := 365 * y + y / 4 - y / 100 + y / 400

/-- The days of the months from March to before month `m`. -/
def monthDays (m : Int) : Int := (153 * m + 2) / 5

def marchDays (date : YearMonthDay) : Int :=
  if date.month ≤ 2 then
    date.day + monthDays (date.month + 9) + yearDays (date.year + 4799) - 32045
  else date.day + monthDays (date.month - 3) + yearDays (date.year + 4800) - 32045

theorem isLeapYear_cases (year : Int) :
    isLeapYear year = 0 ∧ (year % 4 ≠ 0 ∨ year % 100 = 0 ∧ year % 400 ≠ 0) ∨
      isLeapYear year = 1 ∧ year % 4 = 0 ∧ (year % 100 ≠ 0 ∨ year % 400 = 0) := by
  unfold isLeapYear
  split_ifs <;> omega

theorem yearDays_succ (year : Int) :
    yearDays (year + 4800) = yearDays (year + 4799) + 365 + isLeapYear year := by
  have leap := isLeapYear_cases year
  unfold yearDays
  omega

theorem daysOfMonth_march (year : Int) {month : Int} (range : 3 ≤ month ∧ month ≤ 12) :
    daysOfMonth year month = monthDays (month - 2) - monthDays (month - 3) := by
  obtain rfl | rfl | rfl | rfl | rfl | rfl | rfl | rfl | rfl | rfl : month = 3 ∨ month = 4 ∨
    month = 5 ∨ month = 6 ∨ month = 7 ∨ month = 8 ∨ month = 9 ∨ month = 10 ∨ month = 11 ∨
    month = 12 := by omega
  all_goals rfl

theorem marchDays_next {date : YearMonthDay} (valid : date.Valid) :
    marchDays date.next = marchDays date + 1 := by
  obtain ⟨y, m, d⟩ := date
  obtain ⟨month, day⟩ := valid
  dsimp only at month day
  rw [YearMonthDay.next]
  dsimp only
  by_cases inside : d < daysOfMonth y m
  · rw [if_pos inside]
    unfold marchDays
    dsimp only
    split_ifs <;> omega
  · have whole : d = daysOfMonth y m := by omega
    rw [if_neg inside, whole]
    rcases lt_or_ge m 12 with within | december
    · rw [if_pos within]
      obtain rfl | rfl | later : m = 1 ∨ m = 2 ∨ 3 ≤ m := by omega
      · have january : daysOfMonth y 1 + monthDays 10 = monthDays 11 := rfl
        change 1 + monthDays 11 + yearDays (y + 4799) - 32045 =
          daysOfMonth y 1 + monthDays 10 + yearDays (y + 4799) - 32045 + 1
        omega
      · have february : daysOfMonth y 2 = 28 + isLeapYear y := rfl
        have before : monthDays 0 + 365 = 28 + monthDays 11 := rfl
        have year := yearDays_succ y
        change 1 + monthDays 0 + yearDays (y + 4800) - 32045 =
          daysOfMonth y 2 + monthDays 11 + yearDays (y + 4799) - 32045 + 1
        omega
      · have length := daysOfMonth_march y ⟨later, month.2⟩
        have shift : m + 1 - 3 = m - 2 := by omega
        simp only [marchDays]
        rw [if_neg (by omega), if_neg (by omega), shift, length]
        omega
    · obtain rfl : m = 12 := by omega
      have last : daysOfMonth y 12 + monthDays 9 = monthDays 10 := rfl
      have shift : y + 1 + 4799 = y + 4800 := by omega
      rw [if_neg (lt_irrefl 12)]
      change 1 + monthDays 10 + yearDays (y + 1 + 4799) - 32045 =
        daysOfMonth y 12 + monthDays 9 + yearDays (y + 4800) - 32045 + 1
      rw [shift]
      omega

/-! ### The functions on the dates that fit -/

theorem marchDays_eq {date : YearMonthDay} {y m e : Int}
    (year : date.year = y - 4800 + m / 10) (month : date.month = m + 3 - 12 * (m / 10))
    (day : date.day = e - monthDays m + 1) (range : 0 ≤ m ∧ m ≤ 11) :
    marchDays date = yearDays y + e - 32044 := by
  obtain ⟨_, _, _⟩ := date
  dsimp only at year month day
  subst year month day
  rcases lt_or_ge m 10 with early | late
  · have zero : m / 10 = 0 := by omega
    simp only [marchDays, zero]
    rw [if_neg (by omega)]
    have sum : m + 3 - 12 * 0 - 3 = m := by omega
    have shift : y - 4800 + 0 + 4800 = y := by omega
    rw [sum, shift]
    omega
  · have one : m / 10 = 1 := by omega
    simp only [marchDays, one]
    rw [if_pos (by omega)]
    have sum : m + 3 - 12 * 1 + 9 = m := by omega
    have shift : y - 4800 + 1 + 4799 = y := by omega
    rw [sum, shift]
    omega

theorem leap_march {b d : Int} (range : 0 ≤ d ∧ d ≤ 99) (year : Int)
    (same : year + 4800 = b * 100 + d + 1) :
    isLeapYear year = 0 ∨ isLeapYear year = 1 ∧ d % 4 = 3 ∧ (d < 99 ∨ b % 4 = 3) := by
  have leap := isLeapYear_cases year
  omega

theorem month_march {m day : Int} (range : 0 ≤ m ∧ m ≤ 11) (first : 1 ≤ day)
    (last : if m ≤ 10 then day ≤ monthDays (m + 1) - monthDays m else day ≤ 29) :
    m = (5 * (day - 1 + monthDays m) + 2) / 153 := by
  unfold monthDays at *
  split at last <;> omega

theorem YearMonthDay.Valid.parts {date : YearMonthDay} (valid : date.Valid)
    (year : -4799 ≤ date.year ∧ date.year ≤ lastYear + 1) :
    ∃ b d e m, date = ⟨b * 100 + d - 4800 + m / 10, m + 3 - 12 * (m / 10), e - monthDays m + 1⟩ ∧
      (0 ≤ b ∧ b ≤ 14699) ∧ (0 ≤ d ∧ d ≤ 99) ∧ m = (5 * e + 2) / 153 ∧
      0 ≤ e ∧ (e ≤ 364 ∨ e = 365 ∧ d % 4 = 3 ∧ (d < 99 ∨ b % 4 = 3)) := by
  obtain ⟨y, month, day⟩ := date
  obtain ⟨range, first, last⟩ := valid
  dsimp only at range first last year
  unfold lastYear at year
  rcases lt_or_ge month 3 with early | later
  · have leap := leap_march (b := (y + 4799) / 100) (d := (y + 4799) % 100) (by omega) y
      (by omega)
    obtain rfl | rfl : month = 1 ∨ month = 2 := by omega
    · have january : daysOfMonth y 1 = monthDays 11 - monthDays 10 := rfl
      have which := month_march (m := 10) (by omega) first (january ▸ last)
      refine ⟨(y + 4799) / 100, (y + 4799) % 100, day - 1 + monthDays 10, 10, ?_, by omega, by omega,
        which, by omega, by omega⟩
      simp only [YearMonthDay.mk.injEq]
      omega
    · have february : daysOfMonth y 2 = 28 + isLeapYear y := rfl
      have before : monthDays 11 = 337 := rfl
      have which := month_march (m := 11) (by omega) first (by rw [if_neg (by omega)]; omega)
      refine ⟨(y + 4799) / 100, (y + 4799) % 100, day - 1 + monthDays 11, 11, ?_, by omega, by omega,
        which, by omega, by omega⟩
      simp only [YearMonthDay.mk.injEq]
      omega
  · have length := daysOfMonth_march y ⟨later, range.2⟩
    have shift : month - 3 + 1 = month - 2 := by omega
    have which := month_march (m := month - 3) (by omega) first
      (by rw [if_pos (by omega), shift]; omega)
    refine ⟨(y + 4800) / 100, (y + 4800) % 100, day - 1 + monthDays (month - 3), month - 3, ?_, ?_,
      by omega, which, by omega, ?_⟩
    · simp only [YearMonthDay.mk.injEq]
      omega
    · omega
    · omega

theorem yearDays_parts {b d : Int} (hd : 0 ≤ d ∧ d ≤ 99) :
    yearDays (b * 100 + d) = b * 146097 / 4 + 1461 * d / 4 := by
  have quarters : (b * 100 + d) / 4 = 25 * b + d / 4 := by omega
  have hundreds : (b * 100 + d) / 100 = b := by omega
  have cycles : (b * 100 + d) / 400 = b / 4 := by omega
  have before : b * 146097 / 4 = 36524 * b + b / 4 := by omega
  have rest : 1461 * d / 4 = 365 * d + d / 4 := by omega
  rw [yearDays, quarters, hundreds, cycles, before, rest]
  omega

theorem getJulianDayNumber_march {date : YearMonthDay} (valid : date.Valid)
    (year : -4799 ≤ date.year ∧ date.year ≤ lastYear + 1) :
    getJulianDayNumber date.year date.month date.day = some (marchDays date) := by
  obtain ⟨b, d, e, m, rfl, hb, hd, hm, he⟩ := valid.parts year
  have range : 0 ≤ m ∧ m ≤ 11 := by omega
  refine (getJulianDayNumber_eq hb hd (by omega) hm).trans (congrArg some ?_)
  rw [marchDays_eq (y := b * 100 + d) (e := e) rfl rfl rfl range, yearDays_parts hd]

theorem DateFits.small {date : YearMonthDay} (fits : DateFits date) :
    -4799 ≤ date.year ∧ date.year ≤ lastYear + 1 :=
  ⟨fits.year.1, fits.year.2.trans (by decide)⟩

theorem getYearMonthDay_march {date : YearMonthDay} (fits : DateFits date) :
    DayFits (marchDays date) ∧ getYearMonthDay (marchDays date) = some date := by
  have last := fits.year
  obtain ⟨b, d, e, m, rfl, hb, hd, hm, he⟩ := fits.toValid.parts fits.small
  have range : 0 ≤ m ∧ m ≤ 11 := by omega
  have day : marchDays ⟨b * 100 + d - 4800 + m / 10, m + 3 - 12 * (m / 10), e - monthDays m + 1⟩ =
      b * 146097 / 4 + 1461 * d / 4 + e - 32044 := by
    rw [marchDays_eq rfl rfl rfl range, yearDays_parts hd]
  have dayFits : DayFits (b * 146097 / 4 + 1461 * d / 4 + e - 32044) := by
    dsimp only [lastYear] at last
    unfold DayFits
    omega
  rw [day]
  exact ⟨dayFits, getYearMonthDay_eq (b := b) (c := 1461 * d / 4 + e) (d := d) (e := e) dayFits
    (by omega) (by omega) (by omega) (by omega) hm⟩

theorem isLeapYear_nonneg (year : Int) : 0 ≤ isLeapYear year := by
  have leap := isLeapYear_cases year
  omega

theorem daysOfMonth_pos (year month : Int) : 1 ≤ daysOfMonth year month := by
  have leap := isLeapYear_nonneg year
  unfold daysOfMonth
  split_ifs <;> omega

theorem YearMonthDay.Valid.next {date : YearMonthDay} (valid : date.Valid) : date.next.Valid := by
  obtain ⟨month, day⟩ := valid
  unfold YearMonthDay.next
  split_ifs with inside within
  · exact ⟨month, by dsimp only; omega⟩
  · exact ⟨by dsimp only; omega, le_rfl, daysOfMonth_pos _ _⟩
  · exact ⟨by dsimp only; omega, le_rfl, daysOfMonth_pos _ _⟩

theorem YearMonthDay.next_year (date : YearMonthDay) :
    date.year ≤ date.next.year ∧ date.next.year ≤ date.year + 1 := by
  unfold YearMonthDay.next
  split_ifs <;> dsimp only <;> omega

/-- The calendar, and the time of day in a second of one of its dates. -/
theorem DateFits.calendar (date : YearMonthDay) (fits : DateFits date) :
    ∃ n, getJulianDayNumber date.year date.month date.day = some n ∧
      getYearMonthDay n = some date ∧
      getJulianDayNumber date.next.year date.next.month date.next.day = some (n + 1) ∧
      ∀ t, t / kSecondsPerDay + kJulianDayOf1970_01_01 = n →
        ∃ dt, breakTime t = some dt ∧ fromUtcTime dt = some t ∧
          date = ⟨dt.year, dt.month, dt.day⟩ ∧ (0 ≤ dt.hour ∧ dt.hour < 24) ∧
          (0 ≤ dt.minute ∧ dt.minute < 60) ∧ 0 ≤ dt.second ∧ dt.second < 60 := by
  obtain ⟨dayFits, back⟩ := getYearMonthDay_march fits
  have year := date.next_year
  have small := fits.year
  refine ⟨marchDays date, getJulianDayNumber_march fits.toValid fits.small, back, ?_, ?_⟩
  · rw [← marchDays_next fits.toValid]
    exact getJulianDayNumber_march fits.toValid.next (by omega)
  · intro t day
    have secondFits : SecondFits t := by
      rw [SecondFits, day]
      exact dayFits
    obtain ⟨dt, broken, whole⟩ := fromUtcTime_breakTime secondFits
    refine ⟨dt, broken, whole, ?_⟩
    rw [breakTime_eq secondFits, day, back] at broken
    obtain rfl := Option.some.inj broken
    have time : 0 ≤ t % kSecondsPerDay ∧ t % kSecondsPerDay < 86400 := by
      rw [kSecondsPerDay_eq]
      omega
    simp only [fillHMS, true_and]
    omega

theorem DateFits.calendar_leapDay :
    ∃ n, getJulianDayNumber (-4) 2 29 = some n ∧ getYearMonthDay n = some ⟨-4, 2, 29⟩ ∧
      getJulianDayNumber (-4) 3 1 = some (n + 1) ∧
      ∀ t, t / kSecondsPerDay + kJulianDayOf1970_01_01 = n →
        ∃ dt, breakTime t = some dt ∧ fromUtcTime dt = some t ∧
          ⟨-4, 2, 29⟩ = (⟨dt.year, dt.month, dt.day⟩ : YearMonthDay) ∧
          (0 ≤ dt.hour ∧ dt.hour < 24) ∧ (0 ≤ dt.minute ∧ dt.minute < 60) ∧ 0 ≤ dt.second ∧
          dt.second < 60 :=
  DateFits.calendar ⟨-4, 2, 29⟩ ⟨⟨by decide, by decide⟩, by decide⟩

example : getJulianDayNumber 1970 1 1 = some kJulianDayOf1970_01_01 := by decide

theorem getYearMonthDay_overflow {n : Int} (large : 2 ^ 31 ≤ 4 * (n + 32044)) :
    getYearMonthDay n = none := by
  refine if_neg fun fit => ?_
  have product := fit (4 * (n + 32044)) (by simp only [List.mem_cons, true_or, or_true])
  omega

theorem lastYear_largest {year : Int} (later : lastYear < year) :
    (getJulianDayNumber year 12 31).bind getYearMonthDay = none := by
  unfold lastYear at later
  rw [Option.bind_eq_none_iff]
  intro n day
  refine getYearMonthDay_overflow ?_
  have whole := (Option.ite_none_right_eq_some.mp day).2
  have month : (14 - 12 : Int).tdiv 12 = 0 := rfl
  simp only [month, Option.some.injEq] at whole
  rw [Int.tdiv_eq_ediv_of_nonneg (by omega), Int.tdiv_eq_ediv_of_nonneg (by omega),
    Int.tdiv_eq_ediv_of_nonneg (by omega), Int.tdiv_eq_ediv_of_nonneg (by omega)] at whole
  omega

end ProjectsCpp.Muduo
