import ProjectsCpp.Lib.Cumulative
import ProjectsCpp.Lib.TwosComplement
import Mathlib.Data.List.Range
import Mathlib.Tactic.Choose

/-! The pivots that share the keys out among the workers (`wordfreq/partition.h`). A failed assertion
gives `none`. Products of numbers that bound each other's sizes are taken as integers. -/

namespace ProjectsCpp.WordFreq
open ProjectsCpp.Cumulative ProjectsCpp.TwosComplement

structure Round where
  nPivots : Int
  pivots : List Int
  histogram : List Int

def spacing (maxKey nPivots : Int) : Int × Int :=
  let increment := maxKey.tdiv nPivots
  if increment = 0 then (1, maxKey) else (increment, nPivots)

/-- A turn of the loop up to the call of `getHist`. The pivots of the turns before are still there. -/
def nextRound (maxKey nWorkers : Int) (getHist : List Int → List Int) (slotsPerWorker : Int)
    (pivots : List Int) : Option Round :=
  let (increment, nPivots) := spacing maxKey (slotsPerWorker * nWorkers)
  let pivots :=
    pivots ++ (List.range' 1 (nPivots.toNat - 1)).map (fun i : Nat => i * increment) ++ [maxKey]
  if pivots.length = nPivots then some ⟨nPivots, pivots, getHist pivots⟩ else none

def Round.retry (r : Round) (keyCount : Int) : Bool :=
  r.histogram.any fun count => (int64 (2 * keyCount)).tdiv r.nPivots < count

/-- The loop, which doubles `slotsPerWorker` from 32 at most six times. -/
def rounds (maxKey keyCount nWorkers : Int) (getHist : List Int → List Int) :
    Nat → Int → List Int → Option Round
  | 0, _, _ => none
  | turns + 1, slotsPerWorker, pivots =>
    (nextRound maxKey nWorkers getHist slotsPerWorker pivots).bind fun r =>
      if r.retry keyCount ∧ slotsPerWorker ≤ 1024 then
        rounds maxKey keyCount nWorkers getHist turns (slotsPerWorker * 2) r.pivots
      else some r

def pivotFor (pivots cum : List Int) (threshold : Int) : Option Int :=
  let it := cum.findIdx (threshold ≤ ·)
  if it = cum.length then none else pivots[it]?

/-- The part behind the loop. `cum` has `nPivots` elements, of which the sums fill the first. -/
def Round.result (r : Round) (maxKey keyCount nWorkers : Int) : Option (List Int) :=
  if r.nPivots < r.histogram.length then none
  else
    let cum := partialSums 0 r.histogram ++
      List.replicate (r.nPivots.toNat - r.histogram.length) 0
    if cum.getLast? = some keyCount then
      ((List.range' 1 (nWorkers.toNat - 1)).mapM fun i : Nat =>
        pivotFor r.pivots cum (i * keyCount.tdiv nWorkers)).map (· ++ [maxKey])
    else none

def partition (maxKey keyCount nWorkers : Int) (getHist : List Int → List Int) :
    Option (List Int) :=
  if 0 < maxKey ∧ 0 < keyCount ∧ 0 < nWorkers then
    (rounds maxKey keyCount nWorkers getHist 7 32 []).bind fun r =>
      (r.result maxKey keyCount nWorkers).bind fun result =>
        if result.length = nWorkers ∧ result.getLast? = some maxKey then some result else none
  else none

/-! ### The first round -/

section
variable {maxKey nWorkers slotsPerWorker : Int} {pivots : List Int}

structure Spread (maxKey : Int) (pivots : List Int) : Prop where
  sorted : (0 :: pivots).Pairwise (· ≤ ·)
  last : pivots.getLast? = some maxKey

theorem spacing_spec {nPivots : Int} (key : 0 < maxKey) (slots : 0 < nPivots) :
    1 ≤ (spacing maxKey nPivots).1 ∧ 1 ≤ (spacing maxKey nPivots).2 ∧
      (spacing maxKey nPivots).2 * (spacing maxKey nPivots).1 ≤ maxKey := by
  have quotient : maxKey.tdiv nPivots = maxKey / nPivots := Int.tdiv_eq_ediv_of_nonneg key.le
  have positive := Int.ediv_nonneg key.le slots.le
  rw [spacing, quotient]
  split_ifs with none
  · exact ⟨le_rfl, key, (Int.mul_one maxKey).le⟩
  · exact ⟨by dsimp only; omega, slots, Int.mul_ediv_self_le slots.ne'⟩

theorem spread_pivots {increment : Int} {count : Nat} (positive : 1 ≤ increment)
    (fits : count * increment ≤ maxKey) :
    Spread maxKey ((List.range' 1 count).map (fun i : Nat => i * increment) ++ [maxKey]) := by
  have inner : ∀ x ∈ (List.range' 1 count).map (fun i : Nat => i * increment), 0 ≤ x ∧ x ≤ maxKey := by
    intro x member
    obtain ⟨i, inside, rfl⟩ := List.mem_map.mp member
    have range := List.mem_range'_1.mp inside
    have le : (i : Int) ≤ count := by omega
    exact ⟨Int.mul_nonneg (Int.natCast_nonneg i) (by omega),
      (Int.mul_le_mul_of_nonneg_right le (by omega)).trans fits⟩
  have whole : 0 ≤ maxKey := (Int.mul_nonneg (Int.natCast_nonneg count) (by omega)).trans fits
  refine ⟨List.pairwise_cons.mpr ⟨fun x member => ?_, List.pairwise_append.mpr ⟨?_, ?_, ?_⟩⟩,
    List.getLast?_concat⟩
  · rcases List.mem_append.mp member with before | only
    · exact (inner x before).1
    · rwa [List.mem_singleton.mp only]
  · refine List.pairwise_map.mpr ((List.pairwise_lt_range' 1).imp fun less => ?_)
    exact Int.mul_le_mul_of_nonneg_right (by omega) (by omega)
  · exact List.pairwise_singleton _ _
  · intro x before y only
    rw [List.mem_singleton.mp only]
    exact (inner x before).2

theorem nextRound_some (getHist : List Int → List Int) (key : 0 < maxKey)
    (slots : 0 < slotsPerWorker * nWorkers) :
    ∃ r, nextRound maxKey nWorkers getHist slotsPerWorker [] = some r ∧
      r.pivots.length = r.nPivots ∧ Spread maxKey r.pivots ∧ r.histogram = getHist r.pivots := by
  obtain ⟨positive, some_pivot, fits⟩ := spacing_spec key slots
  rw [nextRound]
  generalize spacing maxKey (slotsPerWorker * nWorkers) = step at positive some_pivot fits
  obtain ⟨increment, nPivots⟩ := step
  dsimp only at *
  have count : ((nPivots.toNat - 1 : Nat) : Int) * increment ≤ maxKey :=
    (Int.mul_le_mul_of_nonneg_right (by omega) (by omega)).trans fits
  have length : (([] ++ (List.range' 1 (nPivots.toNat - 1)).map (fun i : Nat => i * increment) ++
      [maxKey]).length : Int) = nPivots := by
    simp only [List.nil_append, List.length_append, List.length_map, List.length_range',
      List.length_singleton]
    omega
  rw [if_pos length]
  exact ⟨_, rfl, length, spread_pivots positive count, rfl⟩

theorem nextRound_none (getHist : List Int → List Int) (key : 0 < maxKey)
    (slots : 0 < slotsPerWorker * nWorkers) (before : pivots ≠ []) :
    nextRound maxKey nWorkers getHist slotsPerWorker pivots = none := by
  obtain ⟨-, some_pivot, -⟩ := spacing_spec key slots
  have more := List.length_pos_iff.mpr before
  rw [nextRound]
  generalize spacing maxKey (slotsPerWorker * nWorkers) = step at some_pivot
  obtain ⟨increment, nPivots⟩ := step
  dsimp only at *
  refine if_neg fun length => ?_
  simp only [List.length_append, List.length_map, List.length_range', List.length_singleton] at length
  omega

end

/-! ### The pivots of the workers -/

section
variable {keys pivots : List Int} {maxKey threshold : Int} {p : Int}

theorem pivotFor_eq (keys pivots : List Int) (threshold : Int) :
    pivotFor pivots (pivots.map (upTo keys)) threshold =
      pivots.find? fun p => threshold ≤ upTo keys p := by
  have place : (pivots.map (upTo keys)).findIdx (threshold ≤ ·) =
      pivots.findIdx fun p => threshold ≤ upTo keys p := List.findIdx_map ..
  rw [pivotFor, place, List.length_map, List.find?_eq_getElem?_findIdx]
  split_ifs with past
  · rw [past, List.getElem?_eq_none le_rfl]
  · rfl

theorem upTo_all (range : ∀ key ∈ keys, 1 ≤ key ∧ key ≤ maxKey) :
    upTo keys maxKey = keys.length ∧ upTo keys 0 = 0 := by
  constructor
  · exact congrArg _ (List.countP_eq_length.mpr fun key member => decide_eq_true (range key member).2)
  · refine congrArg Int.ofNat (List.countP_eq_zero.mpr fun key member => ?_)
    have first := (range key member).1
    rw [decide_eq_true_eq]
    omega

structure PivotFor (keys pivots : List Int) (maxKey threshold p : Int) : Prop where
  found : pivots.find? (fun p => threshold ≤ upTo keys p) = some p
  le : p ≤ maxKey
  reaches : threshold ≤ upTo keys p
  exceeds : ∃ count ∈ counts keys 0 pivots, upTo keys p ≤ threshold + count

theorem exists_pivot (spread : Spread maxKey pivots)
    (range : ∀ key ∈ keys, 1 ≤ key ∧ key ≤ maxKey) (reached : threshold ≤ keys.length)
    (nonneg : 0 ≤ threshold) : ∃ p, PivotFor keys pivots maxKey threshold p := by
  obtain ⟨all, none⟩ := upTo_all range
  have sorted := (List.pairwise_cons.mp spread.sorted).2
  have present := List.mem_of_getLast? spread.last
  have last : decide (threshold ≤ upTo keys maxKey) = true := decide_eq_true (all ▸ reached)
  obtain ⟨p, found⟩ := Option.isSome_iff_exists.mp
    (List.find?_isSome (p := fun p => decide (threshold ≤ upTo keys p)) |>.mpr
      ⟨maxKey, present, last⟩)
  have reaches := List.find?_some found
  rw [decide_eq_true_eq] at reaches
  exact ⟨p, found, find?_le sorted found present last, reaches,
    exceeds_le_count spread.sorted (by rw [none]; exact nonneg) found⟩

theorem PivotFor.mono {threshold' p' : Int} (spread : Spread maxKey pivots)
    (first : PivotFor keys pivots maxKey threshold p)
    (second : PivotFor keys pivots maxKey threshold' p') (le : threshold ≤ threshold') : p ≤ p' := by
  have sorted := (List.pairwise_cons.mp spread.sorted).2
  exact find?_le sorted first.found (List.mem_of_find?_eq_some second.found)
    (decide_eq_true (le.trans second.reaches))

theorem mapM_some {α β : Type} {f : α → Option β} {g : α → β} {l : List α}
    (each : ∀ a ∈ l, f a = some (g a)) : l.mapM f = some (l.map g) := by
  induction l with
  | nil => rfl
  | cons a l ih =>
    rw [List.mapM_cons, each a List.mem_cons_self,
      ih fun b member => each b (List.mem_cons_of_mem a member)]
    rfl

theorem result_eq {r : Round} (spread : Spread maxKey r.pivots)
    (length : r.pivots.length = r.nPivots) (histogram : r.histogram = counts keys 0 r.pivots)
    (range : ∀ key ∈ keys, 1 ≤ key ∧ key ≤ maxKey) (nWorkers : Int) :
    r.result maxKey keys.length nWorkers =
      ((List.range' 1 (nWorkers.toNat - 1)).mapM fun i : Nat =>
        r.pivots.find? fun p => i * (keys.length : Int).tdiv nWorkers ≤ upTo keys p).map
        (· ++ [maxKey]) := by
  obtain ⟨all, none⟩ := upTo_all range
  have many : r.histogram.length = r.pivots.length := by rw [histogram, length_counts]
  have full : r.nPivots.toNat - r.histogram.length = 0 := by omega
  have cum : partialSums 0 r.histogram = r.pivots.map (upTo keys) := by
    rw [histogram, ← none, ← partialSums_counts spread.sorted, none]
  have last : (r.pivots.map (upTo keys)).getLast? = some (keys.length : Int) := by
    rw [List.getLast?_map, spread.last, Option.map_some, all]
  rw [Round.result, if_neg (by omega), full, List.replicate_zero, List.append_nil, cum]
  dsimp only
  rw [if_pos last]
  simp only [pivotFor_eq]

end

/-! ### Partition -/

section
variable {keys : List Int} {maxKey nWorkers : Int} {getHist : List Int → List Int}

theorem rounds_eq (keyCount : Int) (getHist : List Int → List Int) (key : 0 < maxKey)
    (workers : 0 < nWorkers) :
    ∃ r, nextRound maxKey nWorkers getHist 32 [] = some r ∧ r.pivots.length = r.nPivots ∧
      Spread maxKey r.pivots ∧ r.histogram = getHist r.pivots ∧
      rounds maxKey keyCount nWorkers getHist 7 32 [] =
        if r.retry keyCount then none else some r := by
  have slots : 0 < 32 * nWorkers := by omega
  obtain ⟨r, first, length, spread, histogram⟩ :=
    nextRound_some getHist key slots
  have some_pivot : r.pivots ≠ [] := by
    intro none
    rw [none] at spread
    cases spread.last
  have second : rounds maxKey keyCount nWorkers getHist 6 (32 * 2) r.pivots = none := by
    rw [rounds, nextRound_none getHist key (by omega) some_pivot]
    rfl
  refine ⟨r, first, length, spread, histogram, ?_⟩
  rw [rounds, first, Option.bind_some, second]
  cases full : r.retry keyCount with
  | true => rw [if_pos ⟨rfl, by decide⟩, if_pos rfl]
  | false => rw [if_neg (fun again => Bool.false_ne_true again.1), if_neg Bool.false_ne_true]

theorem partition_retry {keyCount : Int} (key : 0 < maxKey) (workers : 0 < nWorkers) {r : Round}
    (first : nextRound maxKey nWorkers getHist 32 [] = some r) (full : r.retry keyCount = true) :
    partition maxKey keyCount nWorkers getHist = none := by
  obtain ⟨r', same, -, -, -, rounds⟩ := rounds_eq keyCount getHist key workers
  cases first.symm.trans same
  rw [partition, rounds, full, if_pos rfl]
  exact ite_self _

/-- What the function says of the pivots, when the first round is the last. -/
structure Balanced (keys : List Int) (maxKey nWorkers : Int) (histogram result : List Int) : Prop where
  length : result.length = nWorkers
  sorted : result.Pairwise (· ≤ ·)
  last : result.getLast? = some maxKey
  share : ∀ i : Nat, 1 ≤ i → i ≤ nWorkers → ∃ pivot, result[i - 1]? = some pivot ∧
    i * (keys.length / nWorkers) ≤ upTo keys pivot ∧
    if i < nWorkers then
      ∃ count ∈ histogram, upTo keys pivot ≤ i * (keys.length / nWorkers) + count
    else upTo keys pivot = i * (keys.length / nWorkers) + keys.length % nWorkers

theorem result_balanced {r : Round} (spread : Spread maxKey r.pivots)
    (length : r.pivots.length = r.nPivots) (histogram : r.histogram = counts keys 0 r.pivots)
    (range : ∀ key ∈ keys, 1 ≤ key ∧ key ≤ maxKey) (workers : 1 ≤ nWorkers) :
    ∃ result, r.result maxKey keys.length nWorkers = some result ∧
      Balanced keys maxKey nWorkers r.histogram result := by
  have perWorker : (keys.length : Int).tdiv nWorkers = keys.length / nWorkers :=
    Int.tdiv_eq_ediv_of_nonneg (Int.natCast_nonneg _)
  have nonneg : (0 : Int) ≤ keys.length / nWorkers :=
    Int.ediv_nonneg (Int.natCast_nonneg _) (by omega)
  have shares : nWorkers * (keys.length / nWorkers) ≤ (keys.length : Int) :=
    Int.mul_ediv_self_le (by omega)
  have each : ∀ i : Nat, i ≤ nWorkers →
      ∃ p, PivotFor keys r.pivots maxKey (i * (keys.length / nWorkers)) p := by
    intro i le
    exact exists_pivot spread range ((Int.mul_le_mul_of_nonneg_right le nonneg).trans shares)
      (Int.mul_nonneg (Int.natCast_nonneg i) nonneg)
  choose! pivot chosen using each
  have inside : ∀ i ∈ List.range' 1 (nWorkers.toNat - 1), (i : Int) < nWorkers := by
    intro i member
    have range := List.mem_range'_1.mp member
    omega
  have found : (List.range' 1 (nWorkers.toNat - 1)).mapM (fun i : Nat =>
      r.pivots.find? fun p => i * (keys.length : Int).tdiv nWorkers ≤ upTo keys p) =
      some ((List.range' 1 (nWorkers.toNat - 1)).map pivot) := by
    refine mapM_some fun i member => ?_
    rw [perWorker]
    exact (chosen i (inside i member).le).found
  have count : ((List.range' 1 (nWorkers.toNat - 1)).map pivot).length = nWorkers.toNat - 1 := by
    rw [List.length_map, List.length_range']
  refine ⟨(List.range' 1 (nWorkers.toNat - 1)).map pivot ++ [maxKey], ?_, ?_, ?_,
    List.getLast?_concat, fun i first le => ?_⟩
  · rw [result_eq spread length histogram range, found]
    rfl
  · rw [List.length_append, count, List.length_singleton]
    omega
  · refine List.pairwise_append.mpr ⟨List.pairwise_map.mpr ?_, List.pairwise_singleton _ _, ?_⟩
    · refine (List.pairwise_lt_range' 1).imp_of_mem fun {i j} here there less => ?_
      have order : (i : Int) ≤ j := by omega
      exact (chosen i (inside i here).le).mono spread (chosen j (inside j there).le)
        (Int.mul_le_mul_of_nonneg_right order nonneg)
    · intro x member y only
      obtain ⟨i, here, rfl⟩ := List.mem_map.mp member
      rw [List.mem_singleton.mp only]
      exact (chosen i (inside i here).le).le
  · rcases Int.lt_or_eq_of_le le with less | last
    · have place : i - 1 < nWorkers.toNat - 1 := by omega
      have same : 1 + 1 * (i - 1) = i := by omega
      refine ⟨pivot i, ?_, (chosen i le).reaches, ?_⟩
      · rw [List.getElem?_append_left (count.symm ▸ place), List.getElem?_map,
          List.getElem?_range' place, same]
        rfl
      · rw [if_pos less, histogram]
        exact (chosen i le).exceeds
    · have place : i - 1 = nWorkers.toNat - 1 := by omega
      have all := (upTo_all range).1
      have whole := Int.mul_ediv_add_emod (keys.length : Int) nWorkers
      refine ⟨maxKey, ?_, ?_, ?_⟩
      · rw [place, List.getElem?_append_right count.le, count, Nat.sub_self]
        rfl
      · rw [last, all]
        exact shares
      · rw [if_neg (by omega), last, all, whole]

/-- Without a slot that is too full in the first round the function returns, and every worker gets its
share of the keys. -/
theorem partition_balanced (keys : List Int) (maxKey nWorkers : Int)
    (getHist : List Int → List Int) (range : ∀ key ∈ keys, 1 ≤ key ∧ key ≤ maxKey)
    (present : maxKey ∈ keys) (workers : 1 ≤ nWorkers)
    (exact : ∀ pivots, pivots.Pairwise (· ≤ ·) → getHist pivots = counts keys 0 pivots) :
    ∃ r, nextRound maxKey nWorkers getHist 32 [] = some r ∧
      (r.retry keys.length = false →
        ∃ result, partition maxKey keys.length nWorkers getHist = some result ∧
          Balanced keys maxKey nWorkers r.histogram result) := by
  have key : 0 < maxKey := (range maxKey present).1
  have keyCount := List.length_pos_of_mem present
  obtain ⟨r, first, length, spread, histogram, rounds⟩ :=
    rounds_eq keys.length getHist key (by omega : 0 < nWorkers)
  refine ⟨r, first, fun even => ?_⟩
  rw [exact r.pivots (List.pairwise_cons.mp spread.sorted).2] at histogram
  obtain ⟨result, run, balanced⟩ := result_balanced spread length histogram range workers
  refine ⟨result, ?_, balanced⟩
  rw [even, if_neg Bool.false_ne_true] at rounds
  rw [partition, if_pos ⟨key, by omega, by omega⟩, rounds, Option.bind_some, run, Option.bind_some,
    if_pos ⟨balanced.length, balanced.last⟩]

theorem partition_balanced_two :
    ∃ r, nextRound 5 2 (counts [1, 2, 3, 4, 5] 0) 32 [] = some r ∧
      (r.retry 5 = false →
        ∃ result, partition 5 5 2 (counts [1, 2, 3, 4, 5] 0) = some result ∧
          Balanced [1, 2, 3, 4, 5] 5 2 r.histogram result) :=
  partition_balanced [1, 2, 3, 4, 5] 5 2 (counts [1, 2, 3, 4, 5] 0) (by decide) (by decide)
    (by decide) fun _ _ => rfl

/-- The pivots of the first round: as far apart as `32 * nWorkers` slots make them, and `maxKey`. -/
def firstPivots (maxKey nWorkers : Int) : List Int :=
  let (increment, nPivots) := spacing maxKey (32 * nWorkers)
  (List.range' 1 (nPivots.toNat - 1)).map (fun i : Nat => i * increment) ++ [maxKey]

theorem nextRound_first {r : Round} (first : nextRound maxKey nWorkers getHist 32 [] = some r) :
    r.pivots = firstPivots maxKey nWorkers ∧ r.nPivots = (spacing maxKey (32 * nWorkers)).2 := by
  simp only [nextRound, List.nil_append] at first
  obtain ⟨-, same⟩ := Option.ite_none_right_eq_some.mp first
  cases same
  exact ⟨rfl, rfl⟩

/-- Every worker gets its share, and no more than a bucket of the histogram above it. -/
structure Shared (keys : List Int) (maxKey nWorkers : Int) (histogram result : List Int) : Prop where
  length : result.length = nWorkers
  sorted : result.Pairwise (· ≤ ·)
  last : result.getLast? = some maxKey
  share : ∀ i : Nat, 1 ≤ i → i ≤ nWorkers → ∃ pivot, result[i - 1]? = some pivot ∧
    i * (keys.length / nWorkers) ≤ upTo keys pivot ∧
      ∃ count ∈ histogram, upTo keys pivot ≤ i * (keys.length / nWorkers) + count

theorem Balanced.shared_iff {histogram result : List Int} (workers : 1 ≤ nWorkers)
    (balanced : Balanced keys maxKey nWorkers histogram result) :
    Shared keys maxKey nWorkers histogram result ↔
      ∃ count ∈ histogram, keys.length % nWorkers ≤ count := by
  constructor
  · intro shared
    have cast : (nWorkers.toNat : Int) = nWorkers := Int.toNat_of_nonneg (by omega)
    obtain ⟨pivot, there, -, count, member, most⟩ :=
      shared.share nWorkers.toNat (by omega) (by omega)
    obtain ⟨pivot', there', -, whole⟩ := balanced.share nWorkers.toNat (by omega) (by omega)
    cases there.symm.trans there'
    rw [if_neg (by omega)] at whole
    exact ⟨count, member, by omega⟩
  · rintro ⟨count, member, remainder⟩
    refine ⟨balanced.length, balanced.sorted, balanced.last, fun i first le => ?_⟩
    obtain ⟨pivot, there, least, most⟩ := balanced.share i first le
    refine ⟨pivot, there, least, ?_⟩
    split at most
    · exact most
    · exact ⟨count, member, by omega⟩

theorem retry_false_iff {r : Round} (keyCount : Int) : r.retry keyCount = false ↔
    ∀ count ∈ r.histogram, count ≤ (int64 (2 * keyCount)).tdiv r.nPivots := by
  rw [Round.retry, List.any_eq_false]
  simp only [decide_eq_true_eq, Int.not_lt]

/-- The function returns pivots that share the keys out if and only if no slot of the first round is
too full, which would make it retry, and a slot has room for the remainder of the division. -/
theorem partition_shares_iff (keys : List Int) (maxKey nWorkers : Int)
    (getHist : List Int → List Int) (range : ∀ key ∈ keys, 1 ≤ key ∧ key ≤ maxKey)
    (present : maxKey ∈ keys) (workers : 1 ≤ nWorkers)
    (exact : ∀ pivots, pivots.Pairwise (· ≤ ·) → getHist pivots = counts keys 0 pivots) :
    (∃ r result, rounds maxKey keys.length nWorkers getHist 7 32 [] = some r ∧
      partition maxKey keys.length nWorkers getHist = some result ∧
      Shared keys maxKey nWorkers r.histogram result) ↔
    (∀ count ∈ counts keys 0 (firstPivots maxKey nWorkers),
      count ≤ (int64 (2 * keys.length)).tdiv (spacing maxKey (32 * nWorkers)).2) ∧
    ∃ count ∈ counts keys 0 (firstPivots maxKey nWorkers), keys.length % nWorkers ≤ count := by
  have key : 0 < maxKey := (range maxKey present).1
  obtain ⟨r, first, length, spread, histogram, looped⟩ :=
    rounds_eq keys.length getHist key (by omega : 0 < nWorkers)
  obtain ⟨r', first', returns⟩ := partition_balanced keys maxKey nWorkers getHist range present workers exact
  cases first.symm.trans first'
  obtain ⟨pivots, slots⟩ := nextRound_first first
  rw [exact r.pivots (List.pairwise_cons.mp spread.sorted).2] at histogram
  rw [← pivots, ← slots, ← histogram, ← retry_false_iff, looped]
  cases full : r.retry keys.length with
  | true =>
    rw [if_pos rfl]
    constructor
    · rintro ⟨_, _, missing, -⟩
      cases missing
    · rintro ⟨even, -⟩
      cases even
  | false =>
    rw [if_neg Bool.false_ne_true]
    obtain ⟨result, run, balanced⟩ := returns full
    constructor
    · rintro ⟨r', result', last, run', shared⟩
      cases last
      cases run.symm.trans run'
      exact ⟨rfl, (balanced.shared_iff workers).mp shared⟩
    · rintro ⟨-, room⟩
      exact ⟨r, result, rfl, run, (balanced.shared_iff workers).mpr room⟩

theorem partition_shares_two :
    ∃ r result, rounds 5 5 2 (counts [1, 2, 3, 4, 5] 0) 7 32 [] = some r ∧
      partition 5 5 2 (counts [1, 2, 3, 4, 5] 0) = some result ∧
      Shared [1, 2, 3, 4, 5] 5 2 r.histogram result :=
  (partition_shares_iff [1, 2, 3, 4, 5] 5 2 (counts [1, 2, 3, 4, 5] 0) (by decide) (by decide)
    (by decide) fun _ _ => rfl).mpr ⟨by decide, 1, by decide, by decide⟩

theorem partition_unbalanced :
    partition 5 1 1 (counts [5] 0) = none ∧
      partition 5 5 3 (counts [1, 2, 3, 4, 5] 0) = some [1, 2, 5] ∧
      counts [1, 2, 3, 4, 5] 0 [1, 2, 3, 4, 5] = [1, 1, 1, 1, 1] :=
  ⟨by decide, by decide, by decide⟩

end

end ProjectsCpp.WordFreq
