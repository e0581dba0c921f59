import ProjectsCpp.Lib.UpperBound
import Mathlib.Data.Int.Order.Basic
import ProjectsCpp.Muduo.Date

/-! Local time (`base/TimeZone.cc`). A second is an `int64_t`, and its sums are taken as integers. A
dereference of what is not there has no value. -/

namespace ProjectsCpp.Muduo
open ProjectsCpp.UpperBound

def kSecondsPerDay : Int := 24 * 60 * 60

theorem kSecondsPerDay_eq : kSecondsPerDay = 86400 := rfl

structure DateTime where
  year : Int
  month : Int
  day : Int
  hour : Int
  minute : Int
  second : Int
deriving DecidableEq

def fillHMS (date : YearMonthDay) (seconds : Int) : DateTime :=
  let minutes := seconds / 60
  ⟨date.year, date.month, date.day, minutes / 60, minutes % 60, seconds % 60⟩

def breakTime (t : Int) : Option DateTime :=
  let remainder := t.tmod kSecondsPerDay
  -- The quotient is cast to `int`.
  let quotient := (t.tdiv kSecondsPerDay).bmod (2 ^ 32)
  let seconds := if remainder < 0 then remainder + kSecondsPerDay else remainder
  let days := if remainder < 0 then quotient - 1 else quotient
  (ints [days, days + kJulianDayOf1970_01_01] (days + kJulianDayOf1970_01_01)).bind fun n =>
    (getYearMonthDay n).map (fillHMS · seconds)

def fromUtcTime (dt : DateTime) : Option Int :=
  (getJulianDayNumber dt.year dt.month dt.day).bind fun n =>
    let secondsInDay := dt.hour * 3600 + dt.minute * 60 + dt.second
    let days := n - kJulianDayOf1970_01_01
    ints [dt.hour * 3600, dt.minute * 60, dt.hour * 3600 + dt.minute * 60, secondsInDay, days]
      (days * kSecondsPerDay + secondsInDay)

def SecondFits (t : Int) : Prop := DayFits (t / kSecondsPerDay + kJulianDayOf1970_01_01)

theorem breakTime_eq {t : Int} (fits : SecondFits t) :
    breakTime t = (getYearMonthDay (t / kSecondsPerDay + kJulianDayOf1970_01_01)).map
      (fillHMS · (t % kSecondsPerDay)) := by
  obtain ⟨first, last⟩ := fits
  simp only [kSecondsPerDay_eq, kJulianDayOf1970_01_01] at *
  have parts : t.tdiv 86400 = (if t.tmod 86400 < 0 then t / 86400 + 1 else t / 86400) ∧
      t.tmod 86400 = (if t.tmod 86400 < 0 then t % 86400 - 86400 else t % 86400) := by
    rcases Int.le_total 0 t with pos | neg
    · rw [Int.tdiv_eq_ediv_of_nonneg pos, Int.tmod_eq_emod_of_nonneg pos]
      split <;> omega
    · obtain ⟨u, rfl⟩ : ∃ u, t = -u := ⟨-t, (Int.neg_neg t).symm⟩
      rw [Int.neg_tdiv, Int.neg_tmod, Int.tdiv_eq_ediv_of_nonneg (by omega),
        Int.tmod_eq_emod_of_nonneg (by omega)]
      split <;> omega
  obtain ⟨quotient, remainder⟩ := parts
  have cast : (t.tdiv 86400).bmod (2 ^ 32) = t.tdiv 86400 := by
    refine Int.bmod_eq_of_le_mul_two ?_ ?_ <;> rw [quotient] <;> split <;> omega
  have days : (if t.tmod 86400 < 0 then t.tdiv 86400 - 1 else t.tdiv 86400) = t / 86400 := by
    rw [quotient]
    split <;> omega
  have seconds : (if t.tmod 86400 < 0 then t.tmod 86400 + 86400 else t.tmod 86400) = t % 86400 := by
    split at remainder <;> split <;> omega
  have fit : ints [t / 86400, t / 86400 + 2440588] (t / 86400 + 2440588) =
      some (t / 86400 + 2440588) := by
    refine ints_eq ?_
    simp only [List.forall_mem_cons, List.not_mem_nil, false_imp_iff, implies_true, and_true]
    omega
  simp only [breakTime, kSecondsPerDay_eq, kJulianDayOf1970_01_01, cast, days, fit, Option.bind_some]
  exact congrArg (fun s => (getYearMonthDay _).map (fillHMS · s)) seconds

theorem fromUtcTime_breakTime {t : Int} (fits : SecondFits t) :
    ∃ dt, breakTime t = some dt ∧ fromUtcTime dt = some t := by
  obtain ⟨date, these, back⟩ := julianDayNumber_yearMonthDay fits
  refine ⟨fillHMS date (t % kSecondsPerDay), ?_, ?_⟩
  · rw [breakTime_eq fits, these]
    rfl
  · obtain ⟨first, last⟩ := fits
    change (getJulianDayNumber date.year date.month date.day).bind _ = _
    rw [back]
    simp only [fillHMS, kSecondsPerDay_eq, kJulianDayOf1970_01_01, Option.bind_some] at *
    refine (ints_eq ?_).trans (congrArg some (by omega))
    simp only [List.forall_mem_cons, List.not_mem_nil, false_imp_iff, implies_true, and_true]
    omega

namespace TimeZone

structure Transition where
  utctime : Int
  localtime : Int
  localtimeIdx : Nat
deriving DecidableEq

structure LocalTime where
  utcOffset : Int
  isDst : Bool
  desigIdx : Int
deriving DecidableEq

/-- `addTransition` puts the transitions in, with a local time type that there is. -/
structure Data where
  transitions : List Transition
  localtimes : List LocalTime
  built : ∀ tr ∈ transitions, ∃ lt, localtimes[tr.localtimeIdx]? = some lt ∧
    tr.localtime = tr.utctime + lt.utcOffset

namespace Data

def new : Data := ⟨[], [], nofun⟩

def addLocalTime (d : Data) (utcOffset : Int) (isDst : Bool) (desigIdx : Int) : Data where
  transitions := d.transitions
  localtimes := d.localtimes ++ [⟨utcOffset, isDst, desigIdx⟩]
  built := fun tr its => by
    obtain ⟨lt, at_, sum⟩ := d.built tr its
    exact ⟨lt, (List.getElem?_append_left (List.getElem?_eq_some_iff.mp at_).1).trans at_, sum⟩

def addTransition (d : Data) (utcTime : Int) (localtimeIdx : Nat) : Option Data :=
  if there : localtimeIdx < d.localtimes.length then
    some {
      transitions := d.transitions ++
        [⟨utcTime, utcTime + (d.localtimes.get ⟨localtimeIdx, there⟩).utcOffset, localtimeIdx⟩]
      localtimes := d.localtimes
      built := fun tr its => by
        rcases List.mem_append.mp its with before | last
        · exact d.built tr before
        · obtain rfl := List.mem_singleton.mp last
          exact ⟨_, List.getElem?_eq_getElem there, rfl⟩ }
  else none

/-- The calls of `readDataBlock`. -/
def build (types : List LocalTime) (trans : List (Int × Nat)) : Option Data :=
  let d := types.foldl (fun d lt => d.addLocalTime lt.utcOffset lt.isDst lt.desigIdx) new
  trans.foldlM (fun d tr => d.addTransition tr.1 tr.2) d

def localTimeOf (d : Data) (tr : Transition) : Option LocalTime := d.localtimes[tr.localtimeIdx]?

def findLocalTime (d : Data) (utcTime : Int) : Option LocalTime :=
  if ∀ front ∈ d.transitions.head?, utcTime < front.utctime then d.localtimes.head?
  else
    let transI := upperBound Transition.utctime d.transitions utcTime
    if transI ≠ d.transitions.length then d.transitions[transI - 1]?.bind d.localTimeOf
    else d.transitions.getLast?.bind d.localTimeOf

/-- `findLocalTime` of a local time, behind its `fromUtcTime`. -/
def findOfLocal (d : Data) (localtime : Int) (postTransition : Bool) : Option LocalTime :=
  if ∀ front ∈ d.transitions.head?, localtime < front.localtime then d.localtimes.head?
  else
    let transI := upperBound Transition.localtime d.transitions localtime
    if transI = d.transitions.length then d.transitions.getLast?.bind d.localTimeOf
    else do
      let next ← d.transitions[transI]?
      let prior ← d.transitions[transI - 1]?
      let prior_second := next.utctime - 1 + (← d.localTimeOf prior).utcOffset
      if prior_second < localtime then d.localTimeOf (if postTransition then next else prior)
      else
        let next := prior
        let (prior, prior_second) ←
          if transI - 1 ≠ 0 then do
            let prior ← d.transitions[transI - 1 - 1]?
            pure (prior, next.utctime - 1 + (← d.localTimeOf prior).utcOffset)
          else pure (prior, prior_second)
        if localtime ≤ prior_second then d.localTimeOf (if postTransition then next else prior)
        else d.localTimeOf next

def findLocalTimeOf (d : Data) (lt : DateTime) (postTransition : Bool) : Option LocalTime :=
  (fromUtcTime lt).bind fun localtime => d.findOfLocal localtime postTransition

/-- The local time with the offset that `utcOffset` takes. -/
def toLocalTime (d : Data) (seconds : Int) : Option (DateTime × Int) :=
  (d.findLocalTime seconds).bind fun found =>
    (breakTime (seconds + found.utcOffset)).map (·, found.utcOffset)

def fromLocalTime (d : Data) (localtime : DateTime) (postTransition : Bool) : Option Int :=
  (d.findLocalTimeOf localtime postTransition).bind fun found =>
    (fromUtcTime localtime).map (· - found.utcOffset)

end Data

end TimeZone

end ProjectsCpp.Muduo
