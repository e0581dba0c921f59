import ProjectsCpp.Lib.Masks
import ProjectsCpp.Lib.Words
import ProjectsCpp.Lib.TwosComplement
import Mathlib.Data.List.Permutation
import Mathlib.Logic.Function.Basic
import Mathlib.Tactic.Lift

/-! The server that counts the placements of queens (`nqueens/server.cc`). An array is a function,
an access outside of it gives `none`, and so does a shift that C++ does not define. -/

namespace ProjectsCpp.ProtoRpc.NQueens
open ProjectsCpp.Masks ProjectsCpp.Words ProjectsCpp.TwosComplement

def kMaxQueens : Nat := 20

structure BackTracking (N : Nat) where
  count : Int
  columns : Nat → BitVec 32
  diagnoal : Nat → BitVec 32
  antidiagnoal : Nat → BitVec 32

namespace BackTracking

variable {N : Nat}

/-- `none` where the assertion fails. -/
def new (N : Nat) : Option (BackTracking N) :=
  if 0 < N ∧ N ≤ kMaxQueens then some ⟨0, fun _ => 0, fun _ => 0, fun _ => 0⟩ else none

/-- `avail`: the places of a row that are not occupied. -/
def avail (bt : BackTracking N) (row : Nat) : BitVec 32 :=
  ~~~(bt.columns row ||| bt.diagnoal row ||| bt.antidiagnoal row)

def put (bt : BackTracking N) (row : Nat) (column diagnoal antidiagnoal : BitVec 32) :
    BackTracking N :=
  { bt with
    columns := Function.update bt.columns row column
    diagnoal := Function.update bt.diagnoal row diagnoal
    antidiagnoal := Function.update bt.antidiagnoal row antidiagnoal }

def below (bt : BackTracking N) (row : Nat) (mask : BitVec 32) : Option (BackTracking N) :=
  if row + 1 < kMaxQueens then
    some (bt.put (row + 1) (bt.columns row ||| mask) ((bt.diagnoal row ||| mask) >>> 1)
      ((bt.antidiagnoal row ||| mask) <<< 1))
  else none

/-- The body of the loop of `search`, where `deeper` is `search(row+1)`. -/
def visit (deeper : BackTracking N → Option (BackTracking N)) (row i : Nat) (bt : BackTracking N) :
    Option (BackTracking N) :=
  if row + 1 = N then some { bt with count := int64 (bt.count + 1) }
  else (bt.below row (1#32 <<< i)).bind deeper

/-- `depth` bounds the recursion, and 33 rounds clear 32 bits. -/
def search : Nat → Nat → BackTracking N → Option (BackTracking N)
  | 0, _, _ => none
  | depth + 1, row, bt =>
    if row < kMaxQueens then
      eachBit N (visit (search depth (row + 1)) row) 33 (bt.avail row) bt
    else none

end BackTracking

def bit (k : Int) : Option (BitVec 32) := if 0 ≤ k ∧ k < 32 then some (1#32 <<< k.toNat) else none

def backtrackingsub (N : Nat) (first_row second_row : Int) : Option Int :=
  (bit first_row).bind fun m0 => (BackTracking.new N).bind fun bt =>
    let bt := bt.put 1 m0 (m0 >>> 1) (m0 <<< 1)
    if 0 ≤ second_row then
      (bit second_row).bind fun m1 =>
        if bt.avail 1 &&& m1 ≠ 0#32 then
          (bt.below 1 m1).bind fun bt => (bt.search kMaxQueens 2).map BackTracking.count
        else some 0
    else (bt.search kMaxQueens 1).map BackTracking.count

/-! ### What is counted -/

/-- Two queens in the columns `c` and `d`, with the second `k` rows below the first. -/
def Attacks (c d k : Nat) : Prop := c = d ∨ c = d + k ∨ d = c + k

/-- A queen in column `i` of the next row is not attacked. -/
def Safe (placed : List Nat) (i : Nat) : Prop :=
  ∀ r c, placed[r]? = some c → ¬Attacks c i (placed.length - r)

def Peaceful (queens : List Nat) : Prop :=
  ∀ r s c d, r < s → queens[r]? = some c → queens[s]? = some d → ¬Attacks c d (s - r)

structure Solution (N : Nat) (queens : List Nat) : Prop where
  length : queens.length = N
  columns : ∀ c ∈ queens, c < N
  peaceful : Peaceful queens

def solutions (N : Nat) (placed : List Nat) : Set (List Nat) :=
  { queens | Solution N queens ∧ placed <+: queens }

theorem peaceful_concat (placed : List Nat) (i : Nat) :
    Peaceful (placed ++ [i]) ↔ Peaceful placed ∧ Safe placed i := by
  constructor
  · intro all
    refine ⟨fun r s c d less first second => ?_, fun r c first => ?_⟩
    · have bound := (List.getElem?_eq_some_iff.mp second).1
      refine all r s c d less ?_ ?_
      · rw [List.getElem?_append_left (less.trans bound), first]
      · rw [List.getElem?_append_left bound, second]
    · have bound := (List.getElem?_eq_some_iff.mp first).1
      refine all r placed.length c i bound ?_ List.getElem?_concat_length
      rw [List.getElem?_append_left bound, first]
  · rintro ⟨peaceful, safe⟩ r s c d less first second
    have bound := (List.getElem?_eq_some_iff.mp second).1
    rw [List.length_append, List.length_singleton] at bound
    rw [List.getElem?_append_left (by omega)] at first
    rcases Nat.lt_or_eq_of_le (Nat.le_of_lt_succ bound) with inner | rfl
    · rw [List.getElem?_append_left inner] at second
      exact peaceful r s c d less first second
    · rw [List.getElem?_concat_length] at second
      exact Option.some.inj second ▸ safe r c first

open Classical in
noncomputable def completions (N : Nat) (placed : List Nat) : List (List Nat) :=
  words (List.range N) Safe (N - placed.length) placed

theorem mem_completions {N : Nat} {placed w : List Nat} (short : placed.length ≤ N)
    (start : Peaceful placed) (inside : ∀ c ∈ placed, c < N) :
    w ∈ completions N placed ↔ w ∈ solutions N placed := by
  classical
  rw [completions, mem_words peaceful_concat start, Nat.add_sub_cancel' short]
  constructor
  · rintro ⟨starts, length, letters, peaceful⟩
    refine ⟨⟨length, fun c member => ?_, peaceful⟩, starts⟩
    obtain ⟨tail, rfl⟩ := starts
    rcases List.mem_append.mp member with first | later
    · exact inside c first
    · rw [List.drop_left] at letters
      exact List.mem_range.mp (letters c later)
  · rintro ⟨⟨length, columns, peaceful⟩, starts⟩
    exact ⟨starts, length, fun c member =>
      List.mem_range.mpr (columns c (List.mem_of_mem_drop member)), peaceful⟩

theorem length_completions {N : Nat} {placed : List Nat} (short : placed.length ≤ N)
    (start : Peaceful placed) (inside : ∀ c ∈ placed, c < N) :
    (completions N placed).length = (solutions N placed).ncard := by
  classical
  exact length_words_eq List.nodup_range fun w => (mem_completions short start inside).symm

open Classical in
theorem length_completions_succ {N : Nat} {placed : List Nat} (short : placed.length < N) :
    (completions N placed).length = (((List.range N).filter fun i => Safe placed i).map
      fun i => (completions N (placed ++ [i])).length).sum := by
  rw [completions, show N - placed.length = N - (placed.length + 1) + 1 by omega, length_words_succ]
  simp only [completions, List.length_append, List.length_singleton]

theorem length_completions_le {N : Nat} {placed : List Nat} (short : placed.length ≤ N)
    (start : Peaceful placed) (inside : ∀ c ∈ placed, c < N) :
    (completions N placed).length ≤ N.factorial := by
  have distinct : (completions N placed).Nodup := by
    classical
    exact nodup_words List.nodup_range _ _
  have sub : completions N placed ⊆ (List.range N).permutations := by
    intro w member
    obtain ⟨⟨length, columns, peaceful⟩, -⟩ := (mem_completions short start inside).mp member
    have nodup : w.Nodup := by
      refine List.pairwise_iff_getElem.mpr fun r s hr hs less same => ?_
      exact peaceful r s _ _ less (List.getElem?_eq_getElem hr) (List.getElem?_eq_getElem hs)
        (.inl same)
    rw [List.mem_permutations]
    refine (List.subperm_of_subset nodup fun c here => ?_).perm_of_length_le ?_
    · exact List.mem_range.mpr (columns c here)
    · rw [List.length_range, length]
  have le := (List.subperm_of_subset distinct sub).length_le
  rwa [List.length_permutations, List.length_range] at le

/-! ### The masks of a row -/

namespace BackTracking

variable {N : Nat} {bt bt' : BackTracking N} {placed : List Nat} {row i j : Nat}

structure Shows (bt : BackTracking N) (row : Nat) (placed : List Nat) : Prop where
  length : placed.length = row
  inside : ∀ c ∈ placed, c < 32
  columns : ∀ j < 32, (bt.columns row).getLsbD j = true ↔ ∃ r : Nat, placed[r]? = some j
  diagnoal : ∀ j < 32, (bt.diagnoal row).getLsbD j = true ↔
    ∃ r c : Nat, placed[r]? = some c ∧ c = j + (row - r)
  antidiagnoal : ∀ j < 32, (bt.antidiagnoal row).getLsbD j = true ↔
    ∃ r c : Nat, placed[r]? = some c ∧ j = c + (row - r)

structure SameAbove (bt bt' : BackTracking N) (row : Nat) : Prop where
  columns : ∀ r ≤ row, bt'.columns r = bt.columns r
  diagnoal : ∀ r ≤ row, bt'.diagnoal r = bt.diagnoal r
  antidiagnoal : ∀ r ≤ row, bt'.antidiagnoal r = bt.antidiagnoal r

theorem SameAbove.refl (bt : BackTracking N) (row : Nat) : SameAbove bt bt row :=
  ⟨fun _ _ => rfl, fun _ _ => rfl, fun _ _ => rfl⟩

theorem SameAbove.trans {bt'' : BackTracking N} (first : SameAbove bt bt' row)
    (second : SameAbove bt' bt'' row) : SameAbove bt bt'' row :=
  ⟨fun r le => (second.columns r le).trans (first.columns r le),
    fun r le => (second.diagnoal r le).trans (first.diagnoal r le),
    fun r le => (second.antidiagnoal r le).trans (first.antidiagnoal r le)⟩

theorem SameAbove.higher (same : SameAbove bt bt' (row + 1)) : SameAbove bt bt' row :=
  ⟨fun r le => same.columns r (Nat.le_succ_of_le le),
    fun r le => same.diagnoal r (Nat.le_succ_of_le le),
    fun r le => same.antidiagnoal r (Nat.le_succ_of_le le)⟩

theorem SameAbove.shows (same : SameAbove bt bt' row) (shows : bt.Shows row placed) :
    bt'.Shows row placed := by
  refine ⟨shows.length, shows.inside, ?_, ?_, ?_⟩
  · rw [same.columns row (Nat.le_refl _)]
    exact shows.columns
  · rw [same.diagnoal row (Nat.le_refl _)]
    exact shows.diagnoal
  · rw [same.antidiagnoal row (Nat.le_refl _)]
    exact shows.antidiagnoal

theorem put_sameAbove (bt : BackTracking N) (row : Nat) (c d a : BitVec 32) :
    SameAbove bt (bt.put (row + 1) c d a) row :=
  ⟨fun _ le => Function.update_of_ne (by omega) _ _, fun _ le => Function.update_of_ne (by omega) _ _,
    fun _ le => Function.update_of_ne (by omega) _ _⟩

theorem Shows.avail (shows : bt.Shows row placed) (small : j < 32) :
    (bt.avail row).getLsbD j = true ↔ Safe placed j := by
  rw [BackTracking.avail, BitVec.getLsbD_not, decide_eq_true small, Bool.true_and, Bool.not_eq_true',
    ← Bool.not_eq_true, BitVec.getLsbD_or, BitVec.getLsbD_or, Bool.or_eq_true, Bool.or_eq_true,
    shows.columns j small, shows.diagnoal j small, shows.antidiagnoal j small, Safe, shows.length]
  constructor
  · intro free r c there attacks
    rcases attacks with rfl | up | down
    · exact free (.inl (.inl ⟨r, there⟩))
    · exact free (.inl (.inr ⟨r, c, there, up⟩))
    · exact free (.inr ⟨r, c, there, down⟩)
  · rintro safe ((⟨r, there⟩ | ⟨r, c, there, up⟩) | ⟨r, c, there, down⟩)
    · exact safe r j there (.inl rfl)
    · exact safe r c there (.inr (.inl up))
    · exact safe r c there (.inr (.inr down))

theorem getElem?_concat_iff {r c : Nat} : (placed ++ [i])[r]? = some c ↔
    placed[r]? = some c ∨ r = placed.length ∧ c = i := by
  rcases Nat.lt_trichotomy r placed.length with less | rfl | more
  · rw [List.getElem?_append_left less]
    exact ⟨.inl, fun its => its.resolve_right fun last => absurd last.1 (Nat.ne_of_lt less)⟩
  · rw [List.getElem?_concat_length, List.getElem?_eq_none (Nat.le_refl _)]
    exact ⟨fun same => .inr ⟨rfl, (Option.some.inj same).symm⟩,
      fun its => congrArg some (its.resolve_left fun first => by cases first).2.symm⟩
  · rw [List.getElem?_eq_none (by rw [List.length_append, List.length_singleton]; omega),
      List.getElem?_eq_none (Nat.le_of_lt more)]
    constructor
    · intro first
      cases first
    · rintro (first | last)
      · cases first
      · exact absurd last.1 (Nat.ne_of_gt more)

theorem Shows.row_lt (shows : bt.Shows row placed) {r c : Nat} (there : placed[r]? = some c) :
    r < row := by
  rw [← shows.length]
  exact (List.getElem?_eq_some_iff.mp there).1

theorem Shows.put_columns (shows : bt.Shows row placed) (inside : j < 32) :
    (bt.columns row ||| 1#32 <<< i).getLsbD j = true ↔ ∃ r : Nat, (placed ++ [i])[r]? = some j := by
  rw [BitVec.getLsbD_or, Bool.or_eq_true, shows.columns j inside, getLsbD_one_shiftLeft inside,
    decide_eq_true_iff]
  constructor
  · rintro (⟨r, there⟩ | rfl)
    · exact ⟨r, getElem?_concat_iff.mpr (.inl there)⟩
    · exact ⟨_, getElem?_concat_iff.mpr (.inr ⟨rfl, rfl⟩)⟩
  · rintro ⟨r, there⟩
    rcases getElem?_concat_iff.mp there with old | ⟨-, rfl⟩
    · exact .inl ⟨r, old⟩
    · exact .inr rfl

theorem Shows.put_diagnoal (shows : bt.Shows row placed) (small : i < 32) (inside : j < 32) :
    ((bt.diagnoal row ||| 1#32 <<< i) >>> 1).getLsbD j = true ↔
      ∃ r c : Nat, (placed ++ [i])[r]? = some c ∧ c = j + (row + 1 - r) := by
  have length := shows.length
  rw [BitVec.getLsbD_ushiftRight, BitVec.getLsbD_or, Bool.or_eq_true]
  constructor
  · intro on_
    have edge : 1 + j < 32 := by
      rcases on_ with on_ | on_ <;> exact BitVec.lt_of_getLsbD on_
    rw [shows.diagnoal (1 + j) edge, getLsbD_one_shiftLeft edge, decide_eq_true_iff] at on_
    rcases on_ with ⟨r, c, there, up⟩ | same
    · have := shows.row_lt there
      exact ⟨r, c, getElem?_concat_iff.mpr (.inl there), by omega⟩
    · exact ⟨placed.length, i, getElem?_concat_iff.mpr (.inr ⟨rfl, rfl⟩), by omega⟩
  · rintro ⟨r, c, there, up⟩
    rcases getElem?_concat_iff.mp there with old | ⟨rfl, rfl⟩
    · have := shows.row_lt old
      have edge : 1 + j < 32 := by
        have := shows.inside c (List.mem_of_getElem? old)
        omega
      exact .inl ((shows.diagnoal (1 + j) edge).mpr ⟨r, c, old, by omega⟩)
    · have edge : 1 + j < 32 := by omega
      rw [getLsbD_one_shiftLeft edge]
      exact .inr (decide_eq_true (by omega))

theorem Shows.put_antidiagnoal (shows : bt.Shows row placed) (inside : j < 32) :
    ((bt.antidiagnoal row ||| 1#32 <<< i) <<< 1).getLsbD j = true ↔
      ∃ r c : Nat, (placed ++ [i])[r]? = some c ∧ j = c + (row + 1 - r) := by
  have length := shows.length
  rw [BitVec.getLsbD_shiftLeft, decide_eq_true inside, Bool.true_and, Bool.and_eq_true,
    Bool.not_eq_true', decide_eq_false_iff_not, BitVec.getLsbD_or, Bool.or_eq_true,
    shows.antidiagnoal (j - 1) (by omega), getLsbD_one_shiftLeft (by omega), decide_eq_true_iff]
  constructor
  · rintro ⟨some_, ⟨r, c, there, down⟩ | same⟩
    · have := shows.row_lt there
      exact ⟨r, c, getElem?_concat_iff.mpr (.inl there), by omega⟩
    · exact ⟨placed.length, i, getElem?_concat_iff.mpr (.inr ⟨rfl, rfl⟩), by omega⟩
  · rintro ⟨r, c, there, down⟩
    rcases getElem?_concat_iff.mp there with old | ⟨rfl, rfl⟩
    · have := shows.row_lt old
      exact ⟨by omega, .inl ⟨r, c, old, by omega⟩⟩
    · exact ⟨by omega, .inr (by omega)⟩

theorem Shows.put (shows : bt.Shows row placed) (small : i < 32) :
    (bt.put (row + 1) (bt.columns row ||| 1#32 <<< i) ((bt.diagnoal row ||| 1#32 <<< i) >>> 1)
      ((bt.antidiagnoal row ||| 1#32 <<< i) <<< 1)).Shows (row + 1) (placed ++ [i]) := by
  refine ⟨by rw [List.length_append, List.length_singleton, shows.length], fun c member => ?_,
    fun j inside => ?_, fun j inside => ?_, fun j inside => ?_⟩
  · rcases List.mem_append.mp member with old | new
    · exact shows.inside c old
    · rw [List.mem_singleton.mp new]
      exact small
  · simp only [BackTracking.put, Function.update_self]
    exact shows.put_columns inside
  · simp only [BackTracking.put, Function.update_self]
    exact shows.put_diagnoal small inside
  · simp only [BackTracking.put, Function.update_self]
    exact shows.put_antidiagnoal inside

/-- The search of a row has gone from `bt` to `s`, and has the places `rest` before it. -/
structure Counting (bt s : BackTracking N) (row : Nat) (placed rest : List Nat) : Prop where
  inside : ∀ i ∈ rest, i < N
  same : SameAbove bt s row
  counted : ∀ m : Int, bt.count = int64 m → ∃ k : Nat, s.count = int64 (m + k) ∧
    k + (rest.map fun i => (completions N (placed ++ [i])).length).sum =
      (completions N placed).length

def Counts (deeper : BackTracking N → Option (BackTracking N)) (row : Nat) (placed : List Nat) :
    Prop :=
  ∀ bt : BackTracking N, bt.Shows row placed → ∃ t, deeper bt = some t ∧ SameAbove bt t row ∧
    ∀ m : Int, bt.count = int64 m → t.count = int64 (m + (completions N placed).length)

theorem Counting.step {s : BackTracking N} {rest : List Nat}
    {deeper : BackTracking N → Option (BackTracking N)}
    (counting : Counting bt s row placed (i :: rest)) (shows : bt.Shows row placed) (more : row < N)
    (size : N ≤ kMaxQueens) (counts : row + 1 < N → Counts deeper (row + 1) (placed ++ [i])) :
    ∃ t, visit deeper row i s = some t ∧ Counting bt t row placed rest := by
  obtain ⟨inside, same, counted⟩ := counting
  have small : i < 32 := Nat.lt_of_lt_of_le (inside i (.head _)) (size.trans (by decide))
  rw [visit]
  split
  · rename_i last
    have one : (completions N (placed ++ [i])).length = 1 := by
      rw [completions, List.length_append, List.length_singleton, shows.length, last, Nat.sub_self]
      rfl
    refine ⟨_, rfl, fun i' member => inside i' (.tail _ member),
      ⟨same.columns, same.diagnoal, same.antidiagnoal⟩, fun m began => ?_⟩
    obtain ⟨k, count, sum⟩ := counted m began
    rw [List.map_cons, List.sum_cons, one] at sum
    refine ⟨k + 1, ?_, by omega⟩
    simp only [count, int64_add]
    rw [Int.add_assoc]
    rfl
  · rename_i other
    have below_ : row + 1 < N := by omega
    have shows' := (same.shows shows).put small
    rw [below, if_pos (Nat.lt_of_lt_of_le below_ size), Option.bind_some]
    obtain ⟨t, done, frame, adds⟩ := counts below_ _ shows'
    refine ⟨t, done, fun i' member => inside i' (.tail _ member),
      same.trans ((put_sameAbove _ _ _ _ _).trans frame.higher), fun m began => ?_⟩
    obtain ⟨k, count, sum⟩ := counted m began
    rw [List.map_cons, List.sum_cons] at sum
    refine ⟨k + (completions N (placed ++ [i])).length, ?_, by omega⟩
    rw [adds (m + k) count, Int.add_assoc]
    rfl

open Classical in
theorem Shows.open_places (shows : bt.Shows row placed) (size : N ≤ kMaxQueens) :
    (bits (bt.avail row)).takeWhile (· < N) = (List.range N).filter fun i => Safe placed i := by
  rw [bits_takeWhile _ (size.trans (by decide))]
  refine List.filter_congr fun i inside => ?_
  have small : i < 32 := Nat.lt_of_lt_of_le (List.mem_range.mp inside) (size.trans (by decide))
  rw [Bool.eq_iff_iff, shows.avail small, decide_eq_true_iff]

theorem search_spec {depth : Nat} (shows : bt.Shows row placed) (more : row < N)
    (size : N ≤ kMaxQueens) (deep : N - row ≤ depth) :
    ∃ bt', search depth row bt = some bt' ∧ SameAbove bt bt' row ∧ ∀ m : Int,
      bt.count = int64 m → bt'.count = int64 (m + (completions N placed).length) := by
  induction depth generalizing bt row placed with
  | zero => omega
  | succ depth ih =>
    rw [search, if_pos (Nat.lt_of_lt_of_le more size)]
    have start : Counting bt bt row placed ((bits (bt.avail row)).takeWhile (· < N)) := by
      rw [shows.open_places size]
      refine ⟨fun i inside => List.mem_range.mp (List.mem_of_mem_filter inside), .refl bt row,
        fun m began => ⟨0, by rw [began, Nat.cast_zero, Int.add_zero], ?_⟩⟩
      rw [Nat.zero_add, length_completions_succ (by rw [shows.length]; exact more)]
    have enough : (bits (bt.avail row)).length < 33 := Nat.lt_succ_of_le (length_bits_le _)
    obtain ⟨t, done, -, same, counted⟩ := eachBit_rule
      (P := fun rest s => Counting bt s row placed rest)
      (fun i rest s counting => counting.step shows more size fun below_ bt' shows' =>
        ih shows' below_ (by omega)) enough start
    refine ⟨t, done, same, fun m began => ?_⟩
    obtain ⟨k, count, sum⟩ := counted m began
    rw [List.map_nil, List.sum_nil, Nat.add_zero] at sum
    rw [count, sum]

end BackTracking

/-! ### The answer of the server -/

theorem peaceful_nil : Peaceful [] := fun r s c d _ first => by
  rw [List.getElem?_nil] at first
  cases first

theorem safe_nil (i : Nat) : Safe [] i := fun r c there => by
  rw [List.getElem?_nil] at there
  cases there

theorem peaceful_one (i : Nat) : Peaceful [i] := (peaceful_concat [] i).mpr ⟨peaceful_nil, safe_nil i⟩

theorem bit_eq {k : Nat} (small : k < 32) : bit k = some (1#32 <<< k) :=
  if_pos ⟨Int.natCast_nonneg k, by omega⟩

theorem factorial_small {N : Nat} (few : N ≤ kMaxQueens) : N.factorial < 2 ^ 63 :=
  (Nat.factorial_le few).trans_lt (by decide)

theorem search_solutions {N depth row : Nat} {bt : BackTracking N} {placed : List Nat}
    (shows : bt.Shows row placed) (count : bt.count = 0) (more : row < N) (few : N ≤ kMaxQueens)
    (deep : N - row ≤ depth) (start : Peaceful placed) (inside : ∀ c ∈ placed, c < N) :
    (bt.search depth row).map BackTracking.count = some ((solutions N placed).ncard : Int) := by
  have short : placed.length ≤ N := shows.length.trans_le (Nat.le_of_lt more)
  obtain ⟨bt', done, -, adds⟩ := BackTracking.search_spec shows more few deep
  have few' := (length_completions_le short start inside).trans_lt (factorial_small few)
  rw [done, Option.map_some, adds 0 (by rw [count]; rfl), Int.zero_add, int64_eq ⟨by omega, by omega⟩,
    length_completions short start inside]

theorem exists_new {N first : Nat} (size : 2 ≤ N) (few : N ≤ kMaxQueens) (small : first < 32) :
    ∃ bt : BackTracking N, BackTracking.new N = some bt ∧ bt.count = 0 ∧
      (bt.put 1 (1#32 <<< first) ((1#32 <<< first) >>> 1) ((1#32 <<< first) <<< 1)).Shows 1 [first] := by
  refine ⟨_, if_pos ⟨by omega, few⟩, rfl, ?_⟩
  have empty : (⟨0, fun _ => 0, fun _ => 0, fun _ => 0⟩ : BackTracking N).Shows 0 [] := by
    refine ⟨rfl, fun c member => ?_, fun j _ => ?_, fun j _ => ?_, fun j _ => ?_⟩
    · cases member
    all_goals simp
  simpa using empty.put small

theorem backtrackingsub_first {N first : Nat} {second : Int} (size : 2 ≤ N) (few : N ≤ kMaxQueens)
    (left : first < N) (none : ¬ 0 ≤ second) :
    backtrackingsub N first second = some ((solutions N [first]).ncard : Int) := by
  have small : first < 32 := left.trans_le (few.trans (by decide))
  obtain ⟨bt, made, zero, shows⟩ := exists_new size few small
  rw [backtrackingsub, bit_eq small, made, Option.bind_some, Option.bind_some, if_neg none]
  exact search_solutions shows zero (by omega) few (by omega) (peaceful_one first) (by simpa using left)

/-- A board of two rows or more: the answer is the number of the solutions that have the first
queens as the request says. -/
theorem backtrackingsub_counts {N first : Nat} {second : Int} (size : 2 ≤ N)
    (few : N ≤ kMaxQueens) (left : first < N) (right : second < N) :
    backtrackingsub N first second = some
      ((solutions N (first :: if 0 ≤ second then [second.toNat] else [])).ncard : Int) := by
  by_cases given : 0 ≤ second
  · have small : first < 32 := left.trans_le (few.trans (by decide))
    obtain ⟨bt, made, zero, shows⟩ := exists_new size few small
    rw [backtrackingsub, bit_eq small, made, Option.bind_some, Option.bind_some, if_pos given,
      if_pos given]
    lift second to Nat using given
    have right : second < N := by omega
    have small' : second < 32 := right.trans_le (few.trans (by decide))
    have inside : ∀ c ∈ [first, second], c < N := by simp [left, right]
    rw [bit_eq small', Option.bind_some, Int.toNat_natCast]
    by_cases safe : Safe [first] second
    · have wide : 2 < N := by
        by_contra narrow
        refine safe 0 first rfl ?_
        simp only [Attacks, List.length_singleton]
        omega
      rw [if_pos (by rw [ne_eq, and_one_shiftLeft small', shows.avail small']; exact not_not.mpr safe),
        BackTracking.below, if_pos (by decide), Option.bind_some]
      exact search_solutions (shows.put small') zero wide few (by omega)
        ((peaceful_concat [first] second).mpr ⟨peaceful_one first, safe⟩) inside
    · have none : solutions N [first, second] = ∅ := by
        refine Set.eq_empty_iff_forall_notMem.mpr ?_
        rintro _ ⟨its, rest, rfl⟩
        refine safe fun r c there => ?_
        have bound : r < 1 := (List.getElem?_eq_some_iff.mp there).1
        obtain rfl : r = 0 := by omega
        exact its.peaceful 0 1 c second Nat.one_pos there rfl
      rw [if_neg (by rw [ne_eq, not_not, and_one_shiftLeft small', shows.avail small']; exact safe), none,
        Set.ncard_empty]
      rfl
  · rw [if_neg given]
    exact backtrackingsub_first size few left given

theorem backtrackingsub_counts_four :
    backtrackingsub 4 (1 : Nat) (-1) = some ((solutions 4 [1]).ncard : Int) :=
  backtrackingsub_counts (by decide) (by decide) (by decide) (by decide)

-- A board of one row: the search begins in the row below it and finds nothing.
example : backtrackingsub 1 0 (-1) = some 0 := by decide +kernel

end ProjectsCpp.ProtoRpc.NQueens
