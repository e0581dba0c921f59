import ProjectsCpp.Lib.SortedSearch
import ProjectsCpp.Lib.TwosComplement
import Mathlib.Data.List.Sort
import Mathlib.Data.List.Induction

/-! Selection over several sorters (`median/kth.h`, `median/collector.cc`, `median/sorter.cc`). The
arithmetic of `int64_t` is two's complement. -/

namespace ProjectsCpp.ProtoRpc
open ProjectsCpp.SortedSearch ProjectsCpp.TwosComplement

/-- `doGenerate` sorts the data. -/
structure Sorter where
  data : List Int
  sorted : data.Pairwise (· ≤ ·)
  fits : ∀ x ∈ data, IsInt64 x

def Sorter.search (s : Sorter) (guess : Int) : Int × Int :=
  let it := s.data.findIdx (guess ≤ ·)
  (it, s.data.findIdx (guess < ·) - it)

/-- A response without `min` and `max` is that of a sorter without data. -/
structure QueryResponse where
  count : Int
  min : Int
  max : Int

def Sorter.query (s : Sorter) : QueryResponse := ⟨s.data.length, s.data.headD 0, s.data.getLastD 0⟩

namespace Collector

def addQuery (result : QueryResponse) (s : Sorter) : QueryResponse :=
  let resp := s.query
  let count := int64 (result.count + resp.count)
  if resp.count > 0 then
    ⟨count, if resp.min < result.min then resp.min else result.min,
      if resp.max > result.max then resp.max else result.max⟩
  else { result with count := count }

def getStats (sorters : List Sorter) : QueryResponse :=
  sorters.foldl addQuery ⟨0, 2 ^ 63 - 1, -2 ^ 63⟩

def addSearch (guess : Int) (found : Int × Int) (s : Sorter) : Int × Int :=
  let resp := s.search guess
  (int64 (found.1 + resp.1), int64 (found.2 + resp.2))

def search (sorters : List Sorter) (guess : Int) : Int × Int :=
  sorters.foldl (addSearch guess) (0, 0)

end Collector

/-- What `getKth` returns, and how often it has searched. -/
structure KthResult where
  guess : Int
  succeed : Bool
  searches : Nat
deriving DecidableEq

def midpoint (min max : Int) : Int :=
  int64 (toUInt64 (toUInt64 min + toUInt64 (int64 (max - min)) / 2))

/-- The loop, with `left` steps that are not too many; it has no value where the assertion fails. -/
def getKthLoop (search : Int → Int × Int) (k : Int) :
    Nat → Int → Int → Int → Option KthResult
  | 0, guess, min, max => some ⟨guess, false, if min ≤ max then 101 else 100⟩
  | left + 1, guess, min, max =>
    if min ≤ max then
      let (smaller, same) := search guess
      let searches := 100 - left
      let next (min max : Int) : Option KthResult :=
        let guess := midpoint min max
        if min ≤ guess ∧ guess ≤ max then getKthLoop search k left guess min max else none
      if smaller < k ∧ int64 (smaller + same) ≥ k then some ⟨guess, true, searches⟩
      else if int64 (smaller + same) < k then next (int64 (guess + 1)) max
      else if smaller ≥ k then next min guess
      else some ⟨guess, false, searches⟩
    else some ⟨guess, false, 99 - left⟩

def getKth (search : Int → Int × Int) (k _count min max : Int) : Option KthResult :=
  getKthLoop search k 100 max min max

def Collector.run (sorters : List Sorter) : Option (Option KthResult) :=
  let stats := getStats sorters
  if stats.count ≤ 0 then some none
  else (getKth (search sorters) ((int64 (stats.count + 1)).tdiv 2) stats.count stats.min
    stats.max).map some

/-! ### The loop -/

section
variable {search : Int → Int × Int} {k v guess min max : Int} {left : Nat}

/-- The answers are those of data with the `k`-th smallest value `v`. -/
structure Answers (search : Int → Int × Int) (k v : Int) : Prop where
  smaller : ∀ guess, (search guess).1 < k ↔ guess ≤ v
  same : ∀ guess, int64 ((search guess).1 + (search guess).2) < k ↔ guess < v

theorem midpoint_eq (low : IsInt64 min) (high : IsInt64 max) (order : min ≤ max) :
    midpoint min max = min + (max - min) / 2 := by
  obtain ⟨low, -⟩ := low
  obtain ⟨-, high⟩ := high
  have cast : ((2 ^ 64 : Nat) : Int) = 2 ^ 64 := rfl
  have range : toUInt64 (int64 (max - min)) = max - min := by
    rw [toUInt64, int64, ← cast, Int.bmod_emod, cast]
    exact Int.emod_eq_of_lt (by omega) (by omega)
  rw [midpoint, range]
  unfold toUInt64
  rw [int64, ← cast, Int.emod_bmod, Int.emod_add_bmod]
  exact int64_eq ⟨by omega, by omega⟩

theorem getKthLoop_succ (answers : Answers search k v) (low : IsInt64 min) (high : IsInt64 max)
    (above : min ≤ v) (below : v ≤ max) (after : min ≤ guess) (before : guess ≤ max) :
    getKthLoop search k (left + 1) guess min max =
      if guess = v then some ⟨v, true, 100 - left⟩
      else if guess < v then
        getKthLoop search k left (midpoint (guess + 1) max) (guess + 1) max
      else getKthLoop search k left (midpoint min guess) min guess := by
  have smaller := answers.smaller guess
  have same := answers.same guess
  have order : min ≤ max := after.trans before
  rw [getKthLoop, if_pos order]
  dsimp only
  rcases lt_trichotomy guess v with less | equal | more
  · have short := same.mpr less
    have missed : ¬ ((search guess).1 < k ∧ int64 ((search guess).1 + (search guess).2) ≥ k) :=
      fun hit => Int.not_le.mpr short hit.2
    have fits : IsInt64 (guess + 1) :=
      ⟨by have := low.1; omega, by have := high.2; omega⟩
    have middle := midpoint_eq fits high (by omega)
    have inside : guess + 1 ≤ midpoint (guess + 1) max ∧ midpoint (guess + 1) max ≤ max := by omega
    rw [if_neg missed, if_pos short, int64_eq fits, if_pos inside, if_neg (ne_of_lt less),
      if_pos less]
  · subst equal
    have hit : (search guess).1 < k ∧ int64 ((search guess).1 + (search guess).2) ≥ k :=
      ⟨smaller.mpr le_rfl, Int.not_lt.mp (same.not.mpr (lt_irrefl _))⟩
    rw [if_pos hit, if_pos rfl]
  · have large : ¬ (search guess).1 < k := smaller.not.mpr (Int.not_le.mpr more)
    have enough : ¬ int64 ((search guess).1 + (search guess).2) < k :=
      same.not.mpr (Int.not_lt.mpr more.le)
    have fits : IsInt64 guess := ⟨low.1.trans after, lt_of_le_of_lt before high.2⟩
    have middle := midpoint_eq low fits after
    have inside : min ≤ midpoint min guess ∧ midpoint min guess ≤ guess := by omega
    rw [if_neg (fun hit => large hit.1), if_neg enough, if_pos (Int.not_lt.mp large), if_pos inside,
      if_neg (ne_of_gt more), if_neg (Int.not_lt.mpr more.le)]

theorem getKthLoop_midpoint (answers : Answers search k v) {m : Nat} (enough : m < left)
    (few : left ≤ 100) (low : IsInt64 min) (high : IsInt64 max) (above : min ≤ v) (below : v ≤ max)
    (range : max - min < 2 ^ m) :
    ∃ searches, searches ≤ 101 - left + m ∧
      getKthLoop search k left (midpoint min max) min max = some ⟨v, true, searches⟩ := by
  induction m generalizing left min max with
  | zero =>
    obtain ⟨left, rfl⟩ := Nat.exists_eq_add_one_of_ne_zero (Nat.ne_zero_of_lt enough)
    have middle := midpoint_eq low high (above.trans below)
    refine ⟨100 - left, by omega, ?_⟩
    rw [getKthLoop_succ answers low high above below (by omega) (by omega), if_pos (by omega)]
  | succ m ih =>
    obtain ⟨left, rfl⟩ := Nat.exists_eq_add_one_of_ne_zero (Nat.ne_zero_of_lt enough)
    have middle := midpoint_eq low high (above.trans below)
    have half : max - min < 2 * 2 ^ m := by rwa [← Int.pow_succ']
    have lower := low.1
    have upper := high.2
    rw [getKthLoop_succ answers low high above below (by omega) (by omega)]
    generalize midpoint min max = guess at middle
    split
    · exact ⟨100 - left, by omega, rfl⟩
    · split
      · have shrunk : IsInt64 (guess + 1) := ⟨by omega, by omega⟩
        obtain ⟨searches, le, found⟩ :=
          ih (Nat.lt_of_succ_lt_succ enough) (by omega) shrunk high (by omega) below (by omega)
        exact ⟨searches, by omega, found⟩
      · have shrunk : IsInt64 guess := ⟨by omega, by omega⟩
        obtain ⟨searches, le, found⟩ :=
          ih (Nat.lt_of_succ_lt_succ enough) (by omega) low shrunk above (by omega) (by omega)
        exact ⟨searches, by omega, found⟩

theorem getKth_eq (answers : Answers search k v) (low : IsInt64 min) (high : IsInt64 max)
    (above : min ≤ v) (below : v ≤ max) (count : Int) :
    ∃ searches < 100, getKth search k count min max = some ⟨v, true, searches⟩ := by
  have lower := low.1
  have upper := high.2
  rw [getKth, getKthLoop_succ answers low high above below (above.trans below) le_rfl]
  split
  · exact ⟨1, by omega, rfl⟩
  · have enough : 64 < 99 := by omega
    obtain ⟨searches, le, found⟩ :=
      getKthLoop_midpoint answers enough (by omega) low high above below (by omega)
    rw [if_neg (Int.not_lt.mpr below)]
    exact ⟨searches, by omega, found⟩

end

/-! ### The answers of the sorters -/

section
variable {sorters : List Sorter} {values : List Int} {guess k v x : Int}

def counts (values : List Int) (guess : Int) : Int × Int :=
  ((values.countP (· < guess) : Nat), (values.countP (· = guess) : Nat))

theorem counts_append (xs ys : List Int) (guess : Int) :
    counts (xs ++ ys) guess = counts xs guess + counts ys guess := by
  simp only [counts, List.countP_append, Int.natCast_add, Prod.mk_add_mk]

theorem counts_smaller (values : List Int) (guess : Int) :
    (counts values guess).1 = (values.countP fun x => !decide (guess ≤ x) : Nat) := by
  simp only [counts, ← decide_not, Int.not_le]

theorem counts_both (values : List Int) (guess : Int) :
    (counts values guess).1 + (counts values guess).2 =
      (values.countP fun x => !decide (guess < x) : Nat) := by
  simp only [counts, ← decide_not, Int.not_lt]
  induction values with
  | nil => rfl
  | cons x values ih =>
    simp only [List.countP_cons, decide_eq_true_eq]
    split_ifs <;> omega

theorem counts_le (values : List Int) (guess : Int) :
    0 ≤ (counts values guess).1 ∧ 0 ≤ (counts values guess).2 ∧
      (counts values guess).1 + (counts values guess).2 ≤ values.length := by
  have both := counts_both values guess
  have length := List.countP_le_length (p := fun x => !decide (guess < x)) (l := values)
  refine ⟨Int.natCast_nonneg _, Int.natCast_nonneg _, ?_⟩
  omega

theorem rising_le {xs : List Int} (sorted : xs.Pairwise (· ≤ ·)) (guess : Int) :
    Rising (fun x => decide (guess ≤ x)) xs :=
  sorted.imp fun order first => decide_eq_true ((of_decide_eq_true first).trans order)

theorem rising_lt {xs : List Int} (sorted : xs.Pairwise (· ≤ ·)) (guess : Int) :
    Rising (fun x => decide (guess < x)) xs :=
  sorted.imp fun order first => decide_eq_true ((of_decide_eq_true first).trans_le order)

theorem Sorter.search_eq (s : Sorter) (guess : Int) : s.search guess = counts s.data guess := by
  have both := counts_both s.data guess
  have smaller := counts_smaller s.data guess
  have first := findIdx_eq_countP (rising_le s.sorted guess)
  have second := findIdx_eq_countP (rising_lt s.sorted guess)
  exact Prod.ext (by rw [smaller, ← first]; rfl) (by
    rw [← first] at smaller
    rw [← second] at both
    simp only [Sorter.search]
    omega)

def allData (sorters : List Sorter) : List Int := sorters.flatMap Sorter.data

theorem Collector.search_eq (sorters : List Sorter) (size : (allData sorters).length < 2 ^ 63)
    (guess : Int) : Collector.search sorters guess = counts (allData sorters) guess := by
  induction sorters using List.reverseRecOn with
  | nil => rfl
  | append_singleton sorters s ih =>
    have all : allData (sorters ++ [s]) = allData sorters ++ s.data := by
      simp only [allData, List.flatMap_append, List.flatMap_singleton]
    rw [all, List.length_append] at size
    obtain ⟨smaller, same, le⟩ := counts_le (allData sorters) guess
    obtain ⟨smaller', same', le'⟩ := counts_le s.data guess
    have first : IsInt64 ((counts (allData sorters) guess).1 + (counts s.data guess).1) :=
      ⟨by omega, by omega⟩
    have second : IsInt64 ((counts (allData sorters) guess).2 + (counts s.data guess).2) :=
      ⟨by omega, by omega⟩
    rw [Collector.search, List.foldl_append, ← Collector.search, ih (by omega), List.foldl_cons,
      List.foldl_nil, Collector.addSearch, all, counts_append, Sorter.search_eq, int64_eq first,
      int64_eq second]
    rfl

def IsKth (values : List Int) (k v : Int) : Prop :=
  1 ≤ k ∧ (values.mergeSort (· ≤ ·))[(k - 1).toNat]? = some v

theorem answers (size : values.length < 2 ^ 63) (kth : IsKth values k v) :
    Answers (counts values) k v := by
  obtain ⟨first, found⟩ := kth
  obtain ⟨inside, found⟩ := List.getElem?_eq_some_iff.mp found
  have sorted : (values.mergeSort (· ≤ ·)).Pairwise (· ≤ ·) := List.pairwise_mergeSort' _ _
  have perm : values.Perm (values.mergeSort (· ≤ ·)) := (List.mergeSort_perm _ _).symm
  constructor
  · intro guess
    have before := lt_countP_iff (rising_le sorted guess) perm inside
    rw [found, decide_eq_false_iff_not] at before
    rw [counts_smaller]
    omega
  · intro guess
    have before := lt_countP_iff (rising_lt sorted guess) perm inside
    rw [found, decide_eq_false_iff_not] at before
    obtain ⟨smaller, same, le⟩ := counts_le values guess
    rw [int64_eq ⟨by omega, by omega⟩, counts_both]
    omega

/-- `min` and `max` are the extremes of the values. -/
structure Extremes (values : List Int) (min max : Int) : Prop where
  least : min ∈ values
  low : ∀ x ∈ values, min ≤ x
  greatest : max ∈ values
  high : ∀ x ∈ values, x ≤ max

theorem Extremes.append {xs ys : List Int} {a b c d : Int} (first : Extremes xs a c)
    (second : Extremes ys b d) :
    Extremes (xs ++ ys) (if b < a then b else a) (if d > c then d else c) := by
  constructor
  · split
    · exact List.mem_append_right _ second.least
    · exact List.mem_append_left _ first.least
  · intro x member
    rcases List.mem_append.mp member with before | after
    · have low := first.low x before
      split_ifs <;> omega
    · have low := second.low x after
      split_ifs <;> omega
  · split
    · exact List.mem_append_right _ second.greatest
    · exact List.mem_append_left _ first.greatest
  · intro x member
    rcases List.mem_append.mp member with before | after
    · have high := first.high x before
      split_ifs <;> omega
    · have high := second.high x after
      split_ifs <;> omega

theorem Sorter.query_extremes (s : Sorter) (some : s.data ≠ []) :
    Extremes s.data s.query.min s.query.max := by
  have first : s.query.min = s.data.head some := by
    rw [Sorter.query, List.headD_eq_head?_getD, List.head?_eq_some_head some]
    rfl
  have last : s.query.max = s.data.getLast some := by
    rw [Sorter.query, List.getLastD_eq_getLast?, List.getLast?_eq_some_getLast some]
    rfl
  rw [first, last]
  have sorted := s.sorted
  refine ⟨List.head_mem some, fun x member => ?_, List.getLast_mem some, fun x member => ?_⟩
  · rw [← List.cons_head_tail some] at sorted member
    rcases List.mem_cons.mp member with rfl | later
    · exact le_rfl
    · exact (List.pairwise_cons.mp sorted).1 x later
  · rw [← List.dropLast_append_getLast some] at sorted member
    rcases List.mem_append.mp member with before | only
    · exact (List.pairwise_append.mp sorted).2.2 x before _ (List.mem_singleton_self _)
    · exact (List.mem_singleton.mp only).le

structure Covers (result : QueryResponse) (values : List Int) : Prop where
  count : result.count = values.length
  empty : values = [] → result.min = 2 ^ 63 - 1 ∧ result.max = -2 ^ 63
  extremes : values ≠ [] → Extremes values result.min result.max

theorem Covers.addQuery {result : QueryResponse} (covers : Covers result values) (s : Sorter)
    (size : (values ++ s.data).length < 2 ^ 63) :
    Covers (Collector.addQuery result s) (values ++ s.data) := by
  have length : s.query.count = s.data.length := rfl
  have sum : int64 (result.count + s.query.count) = (values ++ s.data).length := by
    rw [covers.count, length, List.length_append, Int.natCast_add]
    rw [List.length_append] at size
    exact int64_eq ⟨by omega, by omega⟩
  rw [Collector.addQuery, sum]
  rcases eq_or_ne s.data [] with none | some
  · have zero : ¬ s.query.count > 0 := by rw [length, none]; exact lt_irrefl 0
    rw [if_neg zero, none, List.append_nil]
    exact ⟨rfl, covers.empty, covers.extremes⟩
  · have positive : s.query.count > 0 := by
      rw [length]
      exact_mod_cast List.length_pos_iff.mpr some
    have own := s.query_extremes some
    rw [if_pos positive]
    refine ⟨rfl, fun none => absurd (List.append_eq_nil_iff.mp none).2 some, fun _ => ?_⟩
    rcases eq_or_ne values [] with fresh | before
    · obtain ⟨highest, lowest⟩ := covers.empty fresh
      have small := (s.fits _ own.least).2
      have large := (s.fits _ own.greatest).1
      have least : (if s.query.min < result.min then s.query.min else result.min) = s.query.min :=
        by split_ifs <;> omega
      have greatest :
          (if s.query.max > result.max then s.query.max else result.max) = s.query.max := by
        split_ifs <;> omega
      rw [fresh, List.nil_append]
      dsimp only
      rw [least, greatest]
      exact own
    · exact (covers.extremes before).append own

theorem Collector.getStats_covers (sorters : List Sorter)
    (size : (allData sorters).length < 2 ^ 63) :
    Covers (Collector.getStats sorters) (allData sorters) := by
  induction sorters using List.reverseRecOn with
  | nil => exact ⟨rfl, fun _ => ⟨rfl, rfl⟩, fun some => absurd rfl some⟩
  | append_singleton sorters s ih =>
    have all : allData (sorters ++ [s]) = allData sorters ++ s.data := by
      simp only [allData, List.flatMap_append, List.flatMap_singleton]
    rw [all] at size ⊢
    rw [Collector.getStats, List.foldl_append]
    have shorter := size
    rw [List.length_append] at shorter
    exact (ih (by omega)).addQuery s size

theorem counts_finds (size : values.length < 2 ^ 63) (fits : ∀ x ∈ values, IsInt64 x)
    (first : 1 ≤ k) (last : k ≤ values.length) {min max : Int} (extremes : Extremes values min max)
    (count : Int) :
    ∃ v, IsKth values k v ∧ ∃ searches < 100,
      getKth (counts values) k count min max = some ⟨v, true, searches⟩ := by
  have inside : (k - 1).toNat < (values.mergeSort (· ≤ ·)).length := by
    rw [List.length_mergeSort]
    omega
  have kth : IsKth values k _ := ⟨first, List.getElem?_eq_getElem inside⟩
  have member := (List.mergeSort_perm _ _).mem_iff.mp (List.getElem_mem inside)
  exact ⟨_, kth, getKth_eq (answers size kth) (fits _ extremes.least) (fits _ extremes.greatest)
    (extremes.low _ member) (extremes.high _ member) count⟩

theorem allData_fits (member : x ∈ allData sorters) : IsInt64 x := by
  obtain ⟨s, -, own⟩ := List.mem_flatMap.mp member
  exact s.fits x own

/-- Whatever the range of the values, the search ends with the `k`-th smallest of them. -/
theorem getKth_finds (sorters : List Sorter) (k min max : Int)
    (size : (allData sorters).length < 2 ^ 63) (first : 1 ≤ k)
    (last : k ≤ (allData sorters).length) (extremes : Extremes (allData sorters) min max) :
    ∃ v, IsKth (allData sorters) k v ∧ ∃ searches < 100,
      getKth (Collector.search sorters) k (allData sorters).length min max =
        some ⟨v, true, searches⟩ := by
  rw [funext (Collector.search_eq sorters size)]
  exact counts_finds size (fun _ => allData_fits) first last extremes _

def wideSorters : List Sorter :=
  [⟨[-2 ^ 63, 2 ^ 63 - 1], by decide, by decide⟩, ⟨[], by decide, by decide⟩,
    ⟨[7], by decide, by decide⟩]

theorem getKth_finds_wide :
    ∃ v, IsKth (allData wideSorters) 2 v ∧ ∃ searches < 100,
      getKth (Collector.search wideSorters) 2 3 (-2 ^ 63) (2 ^ 63 - 1) = some ⟨v, true, searches⟩ :=
  getKth_finds wideSorters 2 (-2 ^ 63) (2 ^ 63 - 1) (by decide) (by decide) (by decide)
    ⟨by decide, by decide, by decide, by decide⟩

theorem Collector.run_median (size : (allData sorters).length + 1 < 2 ^ 63)
    (nonempty : allData sorters ≠ []) :
    ∃ v, IsKth (allData sorters) (((allData sorters).length + 1) / 2 : Nat) v ∧
      ∃ searches < 100, Collector.run sorters = some (some ⟨v, true, searches⟩) := by
  have covers := Collector.getStats_covers sorters (by omega)
  have positive := List.length_pos_iff.mpr nonempty
  have middle : (int64 ((Collector.getStats sorters).count + 1)).tdiv 2 =
      (((allData sorters).length + 1) / 2 : Nat) := by
    rw [covers.count, int64_eq ⟨by omega, by omega⟩]
    rfl
  have data : ¬ (Collector.getStats sorters).count ≤ 0 := by rw [covers.count]; omega
  have first : (1 : Int) ≤ (((allData sorters).length + 1) / 2 : Nat) := by omega
  obtain ⟨v, kth, searches, few, found⟩ :=
    counts_finds (by omega) (fun _ => allData_fits) first (by omega) (covers.extremes nonempty)
      (Collector.getStats sorters).count
  refine ⟨v, kth, searches, few, ?_⟩
  rw [Collector.run, if_neg data, middle, funext (Collector.search_eq sorters (by omega)), found]
  rfl

end

end ProjectsCpp.ProtoRpc
