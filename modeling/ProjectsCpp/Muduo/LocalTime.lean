import ProjectsCpp.Muduo.TimeZone
import Mathlib.Algebra.Order.Group.Unbundled.Int

/-! The way from a UTC second to its local time and back (`toLocalTime`, `fromLocalTime`). -/

namespace ProjectsCpp.Muduo.TimeZone
open ProjectsCpp.UpperBound

def Transition.offset (tr : Transition) : Int := tr.localtime - tr.utctime

theorem localtime_eq (tr : Transition) : tr.localtime = tr.utctime + tr.offset := by
  unfold Transition.offset
  omega

namespace Data

def localSecond (d : Data) (t : Int) : Option Int :=
  (d.findLocalTime t).map (t + ·.utcOffset)

def Once (d : Data) (t : Int) : Prop := ∀ t', d.localSecond t' = d.localSecond t → t' = t

/-- There is a local time type, the transitions grow in both times, and any two that follow each
other are further apart than twice any change of the offset. -/
structure Regular (d : Data) : Prop where
  some : d.localtimes ≠ []
  utc : Increasing Transition.utctime d.transitions
  shifted : Increasing Transition.localtime d.transitions
  apart : ∀ i j (hi : i + 1 < d.transitions.length) (hj : j + 1 < d.transitions.length),
    2 * |d.transitions[i + 1].offset - d.transitions[i].offset| <
      d.transitions[j + 1].utctime - d.transitions[j].utctime

/-- The local time leads back to the second, on one side of a transition at least, and on both where
it occurs once. -/
def RoundTrip (d : Data) (t : Int) : Prop :=
  ∃ localTime utcOffset, d.toLocalTime t = some (localTime, utcOffset) ∧
    (d.fromLocalTime localTime false = some t ∨ d.fromLocalTime localTime true = some t) ∧
    (d.Once t → ∀ post, d.fromLocalTime localTime post = some t)

/-- A second before the first transition, or between the last two, is not one whose local time the
transition repeats. -/
structure Clear (d : Data) (t : Int) : Prop where
  first : ∀ front ∈ d.transitions.head?, t < front.utctime →
    ∀ lt ∈ d.localtimes.head?, t + lt.utcOffset < front.localtime
  last : ∀ i (hi : i + 2 = d.transitions.length), d.transitions[i].utctime ≤ t →
    t < d.transitions[i + 1].utctime → t + d.transitions[i].offset < d.transitions[i + 1].localtime

variable {d : Data} {t x : Int} {i : Nat} {post : Bool}

theorem localTimeOf_offset {tr : Transition} (its : tr ∈ d.transitions) :
    ∃ lt, d.localTimeOf tr = some lt ∧ lt.utcOffset = tr.offset := by
  obtain ⟨lt, there, sum⟩ := d.built tr its
  have shifted := localtime_eq tr
  exact ⟨lt, there, by omega⟩

theorem not_before_front {f : Transition → Int} (grows : Increasing f d.transitions)
    (hi : i < d.transitions.length) (le : f d.transitions[i] ≤ x) :
    ¬∀ front ∈ d.transitions.head?, x < f front := by
  intro before
  have some : 0 < d.transitions.length := Nat.zero_lt_of_lt hi
  have lt := before d.transitions[0] (List.head?_eq_getElem? ▸ List.getElem?_eq_getElem some)
  exact absurd ((grows.le (Nat.zero_le i) some hi).trans le) (not_le.mpr lt)

theorem front_of_not_before {f : Transition → Int}
    (not : ¬∀ front ∈ d.transitions.head?, x < f front) :
    ∃ zero : 0 < d.transitions.length, f d.transitions[0] ≤ x := by
  simp only [not_forall, not_lt] at not
  obtain ⟨front, its, le⟩ := not
  have zero : 0 < d.transitions.length := List.length_pos_iff.mpr fun none => by simp [none] at its
  rw [List.head?_eq_getElem?, List.getElem?_eq_getElem zero] at its
  exact ⟨zero, Option.some.inj its ▸ le⟩

theorem getLast_eq (hi : i < d.transitions.length) (end_ : i + 1 = d.transitions.length) :
    d.transitions.getLast? = some d.transitions[i] := by
  rw [List.getLast?_eq_getElem?, show d.transitions.length - 1 = i by omega]
  exact List.getElem?_eq_getElem hi

theorem findLocalTime_at (grows : Increasing Transition.utctime d.transitions)
    (hi : i < d.transitions.length) (le : d.transitions[i].utctime ≤ t)
    (lt : ∀ next : i + 1 < d.transitions.length, t < d.transitions[i + 1].utctime) :
    d.findLocalTime t = d.localTimeOf d.transitions[i] := by
  simp only [findLocalTime, if_neg (not_before_front grows hi le), upperBound_eq grows hi le lt]
  split
  · rw [Nat.add_sub_cancel, List.getElem?_eq_getElem hi]
    rfl
  · rename_i end_
    rw [getLast_eq hi (not_not.mp end_)]
    rfl

theorem localSecond_at (grows : Increasing Transition.utctime d.transitions)
    (hi : i < d.transitions.length) (le : d.transitions[i].utctime ≤ t)
    (lt : ∀ next : i + 1 < d.transitions.length, t < d.transitions[i + 1].utctime) :
    d.localSecond t = some (t + d.transitions[i].offset) := by
  obtain ⟨found, there, offset⟩ := localTimeOf_offset (List.getElem_mem hi)
  rw [localSecond, findLocalTime_at grows hi le lt, there, ← offset]
  rfl

def back (d : Data) (x : Int) (post : Bool) : Option Int :=
  (d.findOfLocal x post).map (x - ·.utcOffset)

theorem back_of_localTimeOf {tr : Transition} (its : tr ∈ d.transitions)
    (found : d.findOfLocal x post = d.localTimeOf tr) : d.back x post = some (x - tr.offset) := by
  obtain ⟨lt, there, offset⟩ := localTimeOf_offset its
  rw [back, found, there, ← offset]
  rfl

theorem back_first {lt : LocalTime} (head : d.localtimes.head? = some lt)
    (before : ∀ front ∈ d.transitions.head?, x < front.localtime) :
    d.back x post = some (x - lt.utcOffset) := by
  rw [back, findOfLocal, if_pos before, head]
  rfl

theorem back_last (grows : Increasing Transition.localtime d.transitions)
    (hi : i < d.transitions.length) (end_ : i + 1 = d.transitions.length)
    (le : d.transitions[i].localtime ≤ x) :
    d.back x post = some (x - d.transitions[i].offset) := by
  refine back_of_localTimeOf (List.getElem_mem hi) ?_
  have found := upperBound_eq grows hi le fun next => absurd next (by omega)
  simp only [findOfLocal, if_neg (not_before_front grows hi le), found, if_pos end_, getLast_eq hi end_]
  rfl

def taken (d : Data) (i : Nat) (hi : i + 1 < d.transitions.length) (x : Int) (post : Bool) :
    Transition :=
  if d.transitions[i + 1].utctime - 1 + d.transitions[i].offset < x then
    if post then d.transitions[i + 1] else d.transitions[i]
  else if 0 < i ∧ x ≤ d.transitions[i].utctime - 1 + d.transitions[i - 1].offset then
    if post then d.transitions[i] else d.transitions[i - 1]
  else d.transitions[i]

theorem taken_mem (hi : i + 1 < d.transitions.length) : d.taken i hi x post ∈ d.transitions := by
  unfold taken
  split_ifs <;> exact List.getElem_mem _

theorem findOfLocal_at (grows : Increasing Transition.localtime d.transitions)
    (hi : i + 1 < d.transitions.length) (le : d.transitions[i].localtime ≤ x)
    (lt : x < d.transitions[i + 1].localtime) :
    d.findOfLocal x post = d.localTimeOf (d.taken i hi x post) := by
  have here := Nat.lt_of_succ_lt hi
  have found := upperBound_eq grows here le fun _ => lt
  have next : d.transitions[i + 1]? = some d.transitions[i + 1] := List.getElem?_eq_getElem hi
  have prior : d.transitions[i]? = some d.transitions[i] := List.getElem?_eq_getElem here
  obtain ⟨type, there, offset⟩ := localTimeOf_offset (d := d) (List.getElem_mem here)
  rw [findOfLocal, if_neg (not_before_front grows here le)]
  simp only [found, if_neg hi.ne, next, Nat.add_sub_cancel, prior, there, Option.bind_eq_bind,
    Option.bind_some, offset, taken]
  split
  · rfl
  · cases i with
    | zero =>
      -- `prior_trans` is still the transition itself.
      simp only [ne_eq, not_true_eq_false, if_false, Option.pure_def, Option.bind_some, ite_self,
        lt_irrefl, false_and, there]
    | succ j =>
      obtain ⟨before, its, shift⟩ := localTimeOf_offset (d := d)
        (List.getElem_mem (Nat.lt_of_succ_lt here))
      have second : d.transitions[j]? = some d.transitions[j] := List.getElem?_eq_getElem _
      simp only [ne_eq, Nat.succ_ne_zero, not_false_eq_true, if_true, Nat.add_sub_cancel, second, its,
        Option.pure_def, Option.bind_some, shift, Nat.succ_pos, true_and, ← there]
      split <;> rfl

theorem back_at (grows : Increasing Transition.localtime d.transitions)
    (hi : i + 1 < d.transitions.length) (le : d.transitions[i].localtime ≤ x)
    (lt : x < d.transitions[i + 1].localtime) :
    d.back x post = some (x - (d.taken i hi x post).offset) :=
  back_of_localTimeOf (taken_mem hi) (findOfLocal_at grows hi le lt)

theorem not_back {tr : Transition} (later : t < tr.utctime) (reached : tr.localtime ≤ x) :
    some (x - tr.offset) ≠ some t := by
  intro back
  have same := Option.some.inj back
  have sum := localtime_eq tr
  omega

theorem Regular.within (regular : d.Regular) (i j : Nat) (hi : i + 1 < d.transitions.length)
    (hj : j + 1 < d.transitions.length) :
    2 * (d.transitions[i + 1].offset - d.transitions[i].offset) <
        d.transitions[j + 1].utctime - d.transitions[j].utctime ∧
      2 * (d.transitions[i].offset - d.transitions[i + 1].offset) <
        d.transitions[j + 1].utctime - d.transitions[j].utctime := by
  have apart := regular.apart i j hi hj
  have above := le_abs_self (d.transitions[i + 1].offset - d.transitions[i].offset)
  have below := neg_abs_le (d.transitions[i + 1].offset - d.transitions[i].offset)
  omega

theorem Once.eq (u : Int) (once : d.Once t) (regular : d.Regular) (here : d.localSecond t = some x)
    (hi : i < d.transitions.length) (le : d.transitions[i].utctime ≤ u)
    (lt : ∀ next : i + 1 < d.transitions.length, u < d.transitions[i + 1].utctime)
    (same : u + d.transitions[i].offset = x) : u = t :=
  once u (by rw [localSecond_at regular.utc hi le lt, same, here])

theorem back_of_clear (regular : d.Regular) (hi : i + 1 < d.transitions.length)
    (le : d.transitions[i].utctime ≤ t) (lt : t < d.transitions[i + 1].utctime)
    (clear : t + d.transitions[i].offset < d.transitions[i + 1].localtime) :
    d.back (t + d.transitions[i].offset) true = some t ∧
      (d.Once t → d.back (t + d.transitions[i].offset) false = some t) := by
  have reached : d.transitions[i].localtime ≤ t + d.transitions[i].offset := by
    have sum := localtime_eq d.transitions[i]
    omega
  have own : t + d.transitions[i].offset - d.transitions[i].offset = t := Int.add_sub_cancel t _
  have noSkip : ¬d.transitions[i + 1].utctime - 1 + d.transitions[i].offset <
      t + d.transitions[i].offset := by omega
  rw [back_at regular.shifted hi reached clear, back_at regular.shifted hi reached clear, taken, taken,
    if_neg noSkip, if_neg noSkip]
  split
  · rename_i repeated
    refine ⟨congrArg some own, fun once => ?_⟩
    -- Its local time occurs before the transition too.
    obtain ⟨j, rfl⟩ : ∃ j, i = j + 1 := ⟨i - 1, by omega⟩
    have change := regular.within j j (by omega) (by omega)
    have second := repeated.2
    simp only [Nat.add_sub_cancel] at second
    have here := localSecond_at regular.utc (Nat.lt_of_succ_lt hi) le fun _ => lt
    have same := once.eq (i := j) (u := t + d.transitions[j + 1].offset - d.transitions[j].offset)
      regular here (by omega) (by omega) (fun _ => by omega) (by omega)
    omega
  · exact ⟨congrArg some own, fun _ => congrArg some own⟩

theorem back_of_repeated (regular : d.Regular) (hi : i + 1 + 1 < d.transitions.length)
    (lt : t < d.transitions[i + 1].utctime)
    (reached : d.transitions[i + 1].localtime ≤ t + d.transitions[i].offset) :
    d.back (t + d.transitions[i].offset) false = some t ∧
      (d.localSecond t = some (t + d.transitions[i].offset) → ¬d.Once t) := by
  have change := regular.within i (i + 1) (by omega) hi
  have next := regular.within (i + 1) (i + 1) hi hi
  have bound : t + d.transitions[i].offset < d.transitions[i + 1 + 1].localtime := by
    have sum := localtime_eq d.transitions[i + 1 + 1]
    omega
  constructor
  · rw [back_at regular.shifted hi reached bound, taken, if_neg (by omega),
      if_pos ⟨Nat.succ_pos i, by simp only [Nat.add_sub_cancel]; omega⟩]
    exact congrArg some (Int.add_sub_cancel t _)
  · intro here once
    have after : d.transitions[i + 1].utctime ≤
        t + d.transitions[i].offset - d.transitions[i + 1].offset := by
      have sum := localtime_eq d.transitions[i + 1]
      omega
    have same := once.eq (i := i + 1)
      (u := t + d.transitions[i].offset - d.transitions[i + 1].offset) regular here (by omega) after
      (fun _ => by omega) (by omega)
    omega

theorem back_of_early (regular : d.Regular)
    (early : ∀ j (hj : j < d.transitions.length), t < d.transitions[j].utctime)
    (zero : 0 < d.transitions.length) (reached : d.transitions[0].localtime ≤ x) :
    d.back x post ≠ some t := by
  obtain ⟨i, hi, le, lt⟩ := exists_between (f := Transition.localtime) zero reached
  rcases Nat.lt_or_ge (i + 1) d.transitions.length with next | last
  · rw [back_at regular.shifted next le (lt next), taken]
    split_ifs with skip post repeated
    · -- The offset would have to change by more than the time between the transitions.
      intro back
      have same := Option.some.inj back
      have change := regular.within i i next next
      have before := early i hi
      omega
    · exact not_back (early i hi) le
    · exact not_back (early i hi) le
    · exact not_back (early (i - 1) (by omega)) ((regular.shifted.le (Nat.sub_le i 1) (by omega) hi).trans le)
    · exact not_back (early i hi) le
  · rw [back_last regular.shifted hi (by omega) le]
    exact not_back (early i hi) le

theorem roundTrip_iff_back (here : d.localSecond t = some x) (fits : SecondFits x) :
    d.RoundTrip t ↔ (d.back x false = some t ∨ d.back x true = some t) ∧
      (d.Once t → ∀ post, d.back x post = some t) := by
  obtain ⟨found, its, rfl⟩ := Option.map_eq_some_iff.mp here
  obtain ⟨dt, broken, seconds⟩ := fromUtcTime_breakTime fits
  have away : d.toLocalTime t = some (dt, found.utcOffset) := by
    rw [toLocalTime, its, Option.bind_some, broken]
    rfl
  have home : ∀ post, d.fromLocalTime dt post = d.back (t + found.utcOffset) post := by
    intro post
    rw [fromLocalTime, findLocalTimeOf, seconds, Option.bind_some, back]
    cases d.findOfLocal (t + found.utcOffset) post <;> rfl
  constructor
  · rintro ⟨dt', utcOffset, away', side, both⟩
    obtain ⟨rfl, rfl⟩ := Prod.mk.inj (Option.some.inj (away.symm.trans away'))
    simp only [home] at side both
    exact ⟨side, both⟩
  · rintro ⟨side, both⟩
    refine ⟨dt, found.utcOffset, away, ?_, fun once post => (home post).trans (both once post)⟩
    rwa [home, home]

theorem inverse_iff_before (regular : d.Regular)
    (fits : ∀ x, d.localSecond t = some x → SecondFits x)
    (before : ∀ front ∈ d.transitions.head?, t < front.utctime) : d.RoundTrip t ↔ d.Clear t := by
  obtain ⟨lt, head⟩ : ∃ lt, d.localtimes.head? = some lt :=
    Option.ne_none_iff_exists'.mp fun none => regular.some (List.head?_eq_none_iff.mp none)
  have here : d.localSecond t = some (t + lt.utcOffset) := by
    rw [localSecond, findLocalTime, if_pos before, head]
    rfl
  rw [roundTrip_iff_back here (fits _ here)]
  have front : ∀ zero : 0 < d.transitions.length, d.transitions[0] ∈ d.transitions.head? :=
    fun zero => List.head?_eq_getElem? ▸ List.getElem?_eq_getElem zero
  have early : ∀ j (hj : j < d.transitions.length), t < d.transitions[j].utctime := fun j hj =>
    (before _ (front (Nat.zero_lt_of_lt hj))).trans_le (regular.utc.le (Nat.zero_le j) (Nat.zero_lt_of_lt hj) hj)
  by_cases clear : ∀ front ∈ d.transitions.head?, t + lt.utcOffset < front.localtime
  · have both : ∀ post, d.back (t + lt.utcOffset) post = some t := fun post => by
      rw [back_first head clear, Int.add_sub_cancel]
    refine iff_of_true ⟨.inl (both false), fun _ => both⟩ ⟨fun front its _ lt' its' => ?_, ?_⟩
    · obtain rfl := Option.some.inj (head.symm.trans its')
      exact clear front its
    · intro i hi le
      exact absurd (early i (by omega)) (not_lt.mpr le)
  · obtain ⟨zero, reached⟩ := front_of_not_before clear
    have never : ∀ post, d.back (t + lt.utcOffset) post ≠ some t := fun post =>
      back_of_early regular early zero reached
    refine iff_of_false (fun ⟨side, _⟩ => side.elim (never false) (never true)) fun clear => ?_
    exact absurd (clear.first _ (front zero) (early 0 zero) lt head) (not_lt.mpr reached)

theorem clear_iff (regular : d.Regular) (hi : i < d.transitions.length)
    (le : d.transitions[i].utctime ≤ t)
    (lt : ∀ next : i + 1 < d.transitions.length, t < d.transitions[i + 1].utctime) :
    d.Clear t ↔ ∀ last : i + 2 = d.transitions.length,
      t + d.transitions[i].offset < d.transitions[i + 1].localtime := by
  refine ⟨fun clear last => clear.last i last le (lt (by omega)), fun clear => ⟨?_, ?_⟩⟩
  · intro front its before
    rw [List.head?_eq_getElem?, List.getElem?_eq_getElem (Nat.zero_lt_of_lt hi)] at its
    obtain rfl := Option.some.inj its
    exact absurd (before.trans_le ((regular.utc.le (Nat.zero_le i) (Nat.zero_lt_of_lt hi) hi).trans le)) (lt_irrefl t)
  · intro j hj begun ended
    rcases Nat.lt_trichotomy i j with less | rfl | greater
    · have passed := regular.utc.le less (Nat.lt_of_le_of_lt less (by omega)) (by omega)
      exact absurd ((lt (by omega)).trans_le (passed.trans begun)) (lt_irrefl t)
    · exact clear hj
    · have passed := regular.utc.le greater (Nat.lt_of_le_of_lt greater hi) hi
      exact absurd (ended.trans_le (passed.trans le)) (lt_irrefl t)

theorem inverse_iff_within (regular : d.Regular)
    (fits : ∀ x, d.localSecond t = some x → SecondFits x) (hi : i < d.transitions.length)
    (le : d.transitions[i].utctime ≤ t)
    (lt : ∀ next : i + 1 < d.transitions.length, t < d.transitions[i + 1].utctime) :
    d.RoundTrip t ↔ d.Clear t := by
  have here := localSecond_at regular.utc hi le lt
  rw [roundTrip_iff_back here (fits _ here), clear_iff regular hi le lt]
  rcases Nat.lt_or_ge (i + 1) d.transitions.length with next | end_
  · rcases lt_or_ge (t + d.transitions[i].offset) d.transitions[i + 1].localtime with clear | reached
    · obtain ⟨behind, once⟩ := back_of_clear regular next le (lt next) clear
      refine iff_of_true ⟨.inr behind, fun single post => ?_⟩ fun _ => clear
      cases post with
      | true => exact behind
      | false => exact once single
    · rcases Nat.lt_or_ge (i + 1 + 1) d.transitions.length with more | last
      · obtain ⟨ahead, twice⟩ := back_of_repeated regular more (lt next) reached
        refine iff_of_true ⟨.inl ahead, fun once => absurd once (twice here)⟩ fun last => ?_
        omega
      · have never : ∀ post, d.back (t + d.transitions[i].offset) post ≠ some t := fun post => by
          rw [back_last regular.shifted next (by omega) reached]
          exact not_back (lt next) reached
        refine iff_of_false (fun ⟨side, _⟩ => side.elim (never false) (never true)) fun clear => ?_
        exact absurd (clear (by omega)) (not_lt.mpr reached)
  · have reached : d.transitions[i].localtime ≤ t + d.transitions[i].offset := by
      have sum := localtime_eq d.transitions[i]
      omega
    have both : ∀ post, d.back (t + d.transitions[i].offset) post = some t := fun post => by
      rw [back_last regular.shifted hi (by omega) reached, Int.add_sub_cancel]
    exact iff_of_true ⟨.inl (both false), fun _ => both⟩ fun last => by omega

/-- The conversion to local time is undone exactly where the second does not come before a repetition
by the first or by the last transition. -/
theorem inverse_iff (regular : d.Regular) (fits : ∀ x, d.localSecond t = some x → SecondFits x) :
    d.RoundTrip t ↔ d.Clear t := by
  by_cases before : ∀ front ∈ d.transitions.head?, t < front.utctime
  · exact inverse_iff_before regular fits before
  · obtain ⟨zero, begun⟩ := front_of_not_before before
    obtain ⟨i, hi, le, lt⟩ := exists_between (f := Transition.utctime) zero begun
    exact inverse_iff_within regular fits hi le lt

def autumn : Data := (build [⟨3600, true, 0⟩, ⟨0, false, 4⟩] [(1000000000, 1)]).get (by decide)

theorem repeated_by_only_transition :
    autumn.Regular ∧ (∀ x, autumn.localSecond 999999999 = some x → SecondFits x) ∧
      ¬autumn.RoundTrip 999999999 := by
  have here : autumn.localSecond 999999999 = some 1000003599 := by decide
  refine ⟨⟨by decide, List.pairwise_singleton _ _, List.pairwise_singleton _ _, ?_⟩, ?_, ?_⟩
  · intro i j hi
    exact absurd hi (Nat.not_lt.mpr (Nat.le_add_left 1 i))
  · intro x its
    obtain rfl := Option.some.inj (here.symm.trans its)
    exact ⟨by decide, by decide⟩
  · have away : autumn.toLocalTime 999999999 = some (⟨2001, 9, 9, 2, 46, 39⟩, 3600) := by decide
    rintro ⟨localTime, utcOffset, its, side, -⟩
    obtain ⟨rfl, -⟩ := Prod.mk.inj (Option.some.inj (away.symm.trans its))
    revert side
    decide

def summers : Data :=
  (build [⟨0, false, 0⟩, ⟨3600, true, 4⟩] [(0, 1), (10000000, 0), (20000000, 1)]).get (by decide)

theorem inverse_iff_summers :
    summers.RoundTrip 9999999 ∧ ¬summers.Once 9999999 := by
  have here : summers.localSecond 9999999 = some 10003599 := by decide
  have regular : summers.Regular := by
    refine ⟨by decide, ?_, ?_, ?_⟩
    · unfold Increasing
      decide
    · unfold Increasing
      decide
    · intro i j hi hj
      have two : ∀ k, k + 1 < summers.transitions.length → k = 0 ∨ k = 1 := fun k hk => by
        have : summers.transitions.length = 3 := rfl
        omega
      rcases two i hi with rfl | rfl <;> rcases two j hj with rfl | rfl <;> decide +revert
  refine ⟨(inverse_iff regular ?_).mpr ⟨?_, ?_⟩, fun once => ?_⟩
  · intro x its
    obtain rfl := Option.some.inj (here.symm.trans its)
    exact ⟨by decide, by decide⟩
  · intro front its before
    obtain rfl := Option.some.inj its
    exact absurd before (by decide)
  · intro i hi le
    have : summers.transitions.length = 3 := rfl
    obtain rfl : i = 1 := by omega
    have begun : summers.transitions[1].utctime = 10000000 := rfl
    omega
  · exact absurd (once 10003599 (by decide)) (by decide)

end Data

end ProjectsCpp.Muduo.TimeZone
