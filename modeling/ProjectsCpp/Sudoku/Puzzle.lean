import ProjectsCpp.Sudoku.Layout
import Mathlib.Data.Finset.Card

/-! The digits that fill the columns exactly are the solutions of the puzzle: the columns that the
givens have left out are filled by the givens, since a house has as many cells as digits. -/

namespace ProjectsCpp.Sudoku
open ProjectsCpp.ExactCover

/-- A filled grid that keeps the givens and has each digit once in every row, column and box. -/
structure Solves (inout g : Nat → Nat) : Prop where
  agrees : ∀ i < kCells, inout i ≠ 0 → g i = inout i
  digit : ∀ i < kCells, 1 ≤ g i ∧ g i ≤ 9
  once : ∀ (k : House) (p v : Nat), p < 9 → 1 ≤ v ∧ v ≤ 9 → ∃! i, i < kCells ∧ k.place i = p ∧ g i = v

variable {inout g : Nat → Nat} {ds : List (Nat × Nat)} {i v : Nat}

/-! ### Writing the digits -/

theorem fill_other (inout : Nat → Nat) (other : i ∉ ds.map Prod.fst) : fill inout ds i = inout i := by
  induction ds generalizing inout with
  | nil => rfl
  | cons d ds ih =>
    rw [List.map_cons, List.mem_cons, not_or] at other
    exact (ih _ other.2).trans (Function.update_of_ne other.1 _ _)

theorem fill_chosen (inout : Nat → Nat) (distinct : (ds.map Prod.fst).Nodup) (chosen : (i, v) ∈ ds) :
    fill inout ds i = v := by
  induction ds generalizing inout with
  | nil => cases chosen
  | cons d ds ih =>
    obtain ⟨first, distinct⟩ := List.nodup_cons.mp distinct
    rcases List.mem_cons.mp chosen with rfl | chosen
    · exact (fill_other _ first).trans (Function.update_self ..)
    · exact ih _ distinct chosen

namespace Fills

theorem cells_nodup (fills : Fills inout ds) : (ds.map Prod.fst).Nodup := by
  have all : (ds.flatMap fun d => rowNames d.1 d.2).Nodup :=
    fills.exact.nodup_iff.mpr (columnNames_nodup inout)
  have cells : (ds.flatMap fun d => [d.1]).Sublist (ds.flatMap fun d => rowNames d.1 d.2) :=
    List.Sublist.flatMap_right _ fun d _ => List.cons_sublist_cons.mpr (List.nil_sublist _)
  rw [List.map_eq_flatMap]
  exact all.sublist cells

theorem fill_given (fills : Fills inout ds) (given : inout i ≠ 0) : fill inout ds i = inout i := by
  refine fill_other inout fun member => ?_
  obtain ⟨d, chosen, rfl⟩ := List.mem_map.mp member
  exact given (mem_digits.mp (fills.may d chosen)).2.1

theorem cell_filled (fills : Fills inout ds) (cell : i < kCells) (empty : inout i = 0) :
    ∃ v, (i, v) ∈ ds := by
  have name : i ∈ columnNames inout := mem_columnNames.mpr (.inl ⟨cell, empty⟩)
  obtain ⟨d, chosen, member⟩ := List.mem_flatMap.mp (fills.exact.symm.subset name)
  rcases mem_rowNames.mp member with rfl | ⟨k, rfl⟩
  · exact ⟨d.2, chosen⟩
  · exact absurd (Nat.lt_trans cell (by decide)) (Nat.not_lt.mpr (k.name_large _ _))

theorem house_filled (fills : Fills inout ds) (k : House) {p : Nat} (place : p < 9)
    (digit : 1 ≤ v ∧ v ≤ 9) : ∃ i, i < kCells ∧ k.place i = p ∧ fill inout ds i = v := by
  cases marked : marks k.place inout p v with
  | true =>
    obtain ⟨i, cell, here, given⟩ := (marks_iff k.place inout p v).mp marked
    refine ⟨i, cell, here, (fills.fill_given ?_).trans given⟩
    rw [given]
    exact Nat.ne_of_gt digit.1
  | false =>
    have name : k.name p v ∈ columnNames inout :=
      mem_columnNames.mpr (.inr ⟨k, p, v, place, digit, marked, rfl⟩)
    obtain ⟨d, chosen, member⟩ := List.mem_flatMap.mp (fills.exact.symm.subset name)
    obtain ⟨cell, -, digit', -⟩ := mem_digits.mp (fills.may d chosen)
    rcases mem_rowNames.mp member with same | ⟨k', same⟩
    · exact absurd (same ▸ Nat.lt_trans cell (by decide)) (Nat.not_lt.mpr (k.name_large p v))
    · obtain ⟨rfl, rfl, rfl⟩ := House.name_inj place (k'.place_lt cell) digit.2 digit'.2 same
      exact ⟨d.1, cell, rfl, fill_chosen inout fills.cells_nodup chosen⟩

end Fills

/-! ### Houses -/

def House.cells (k : House) (p : Nat) : Finset Nat := {i ∈ Finset.range kCells | k.place i = p}

theorem House.cells_card (k : House) {p : Nat} (place : p < 9) : (k.cells p).card = 9 := by
  have all : ∀ p < 9, (House.row.cells p).card = 9 ∧ (House.col.cells p).card = 9 ∧
      (House.box.cells p).card = 9 := by decide +kernel
  cases k
  · exact (all p place).1
  · exact (all p place).2.1
  · exact (all p place).2.2

theorem House.mem_cells {k : House} {p : Nat} : i ∈ k.cells p ↔ i < kCells ∧ k.place i = p := by
  rw [House.cells, Finset.mem_filter, Finset.mem_range]

theorem House.digits_once {k : House} {p : Nat} (place : p < 9)
    (digit : ∀ i < kCells, 1 ≤ g i ∧ g i ≤ 9)
    (all : ∀ v, 1 ≤ v ∧ v ≤ 9 → ∃ i, i < kCells ∧ k.place i = p ∧ g i = v) :
    Set.InjOn g (k.cells p) := by
  have values (v : Nat) : v ∈ (Finset.range 10).erase 0 ↔ 1 ≤ v ∧ v ≤ 9 := by
    rw [Finset.mem_erase, Finset.mem_range]
    omega
  refine Finset.injOn_of_surjOn_of_card_le (t := (Finset.range 10).erase 0) g ?_ ?_ ?_
  · intro i member
    exact Finset.mem_coe.mpr ((values _).mpr (digit i (House.mem_cells.mp member).1))
  · intro v range
    obtain ⟨i, cell, here, rfl⟩ := all v ((values v).mp (Finset.mem_coe.mp range))
    exact ⟨i, House.mem_cells.mpr ⟨cell, here⟩, rfl⟩
  · rw [k.cells_card place]
    decide

/-! ### Solutions -/

theorem Fills.solves (fills : Fills inout ds) (given : ∀ i < kCells, inout i ≤ 9) :
    Solves inout (fill inout ds) := by
  have digit : ∀ i < kCells, 1 ≤ fill inout ds i ∧ fill inout ds i ≤ 9 := by
    intro i cell
    by_cases empty : inout i = 0
    · obtain ⟨v, chosen⟩ := fills.cell_filled cell empty
      rw [fill_chosen inout fills.cells_nodup chosen]
      exact (mem_digits.mp (fills.may _ chosen)).2.2.1
    · rw [fills.fill_given empty]
      exact ⟨Nat.pos_of_ne_zero empty, given i cell⟩
  refine ⟨fun i _ given => fills.fill_given given, digit, fun k p v place range => ?_⟩
  obtain ⟨i, cell, here, same⟩ := fills.house_filled k place range
  refine ⟨i, ⟨cell, here, same⟩, fun j other => ?_⟩
  obtain ⟨cell', here', same'⟩ := other
  exact House.digits_once place digit (fun v range => fills.house_filled k place range)
    (House.mem_cells.mpr ⟨cell', here'⟩) (House.mem_cells.mpr ⟨cell, here⟩) (same'.trans same.symm)

namespace Solves

/-- The digits of the open cells. -/
def answer (inout g : Nat → Nat) : List (Nat × Nat) :=
  ((List.range kCells).filter (inout · = 0)).map fun i => (i, g i)

theorem mem_answer {d : Nat × Nat} :
    d ∈ answer inout g ↔ (d.1 < kCells ∧ inout d.1 = 0) ∧ d.2 = g d.1 := by
  rw [answer, List.mem_map]
  constructor
  · rintro ⟨i, member, rfl⟩
    rw [List.mem_filter, List.mem_range, decide_eq_true_iff] at member
    exact ⟨member, rfl⟩
  · rintro ⟨⟨cell, empty⟩, same⟩
    refine ⟨d.1, List.mem_filter.mpr ⟨List.mem_range.mpr cell, decide_eq_true empty⟩, ?_⟩
    rw [← same]

theorem cell_unique (solves : Solves inout g) {i j : Nat} (k : House) (cell : i < kCells)
    (cell' : j < kCells) (house : k.place i = k.place j) (same : g i = g j) : i = j :=
  (solves.once k (k.place j) (g j) (k.place_lt cell') (solves.digit j cell')).unique
    ⟨cell, house, same⟩ ⟨cell', rfl, rfl⟩

theorem may (solves : Solves inout g) {d : Nat × Nat} (chosen : d ∈ answer inout g) :
    d ∈ digits inout := by
  obtain ⟨⟨cell, empty⟩, same⟩ := mem_answer.mp chosen
  have digit := solves.digit d.1 cell
  refine mem_digits.mpr ⟨cell, empty, same ▸ digit, fun k => ?_⟩
  rw [same]
  refine Bool.eq_false_iff.mpr fun marked => ?_
  obtain ⟨j, cell', house, given⟩ := (marks_iff k.place inout _ _).mp marked
  have there : inout j ≠ 0 := by
    rw [given]
    exact Nat.ne_of_gt digit.1
  have found := solves.cell_unique k cell' cell house ((solves.agrees j cell' there).trans given)
  exact there (found ▸ empty)

theorem fills (solves : Solves inout g) : Fills inout (answer inout g) := by
  refine ⟨fun d => solves.may, (List.perm_ext_iff_of_nodup ?_ (columnNames_nodup inout)).mpr
    fun x => ⟨?_, ?_⟩⟩
  · have distinct : (answer inout g).Nodup :=
      (List.nodup_range.filter _).map fun i j same => congrArg Prod.fst same
    refine List.nodup_flatMap.mpr ⟨fun d chosen => rowNames_nodup (solves.may chosen),
      distinct.pairwise_of_forall_ne fun d chosen e chosen' other x here there => ?_⟩
    obtain ⟨⟨cell, -⟩, same⟩ := mem_answer.mp chosen
    obtain ⟨⟨cell', -⟩, same'⟩ := mem_answer.mp chosen'
    suffices cells : d.1 = e.1 by
      exact other (Prod.ext cells (by rw [same, same', cells]))
    have digit := solves.digit d.1 cell
    have digit' := solves.digit e.1 cell'
    have small {i : Nat} (cell : i < kCells) : i < 100 := Nat.lt_trans cell (by decide)
    rcases mem_rowNames.mp here with rfl | ⟨k, rfl⟩ <;>
      rcases mem_rowNames.mp there with title | ⟨k', title⟩
    · exact title
    · exact absurd (title ▸ small cell) (Nat.not_lt.mpr (k'.name_large _ _))
    · exact absurd (title ▸ small cell') (Nat.not_lt.mpr (k.name_large _ _))
    · rw [same, same'] at title
      obtain ⟨rfl, house, values⟩ := House.name_inj (k.place_lt cell) (k'.place_lt cell') digit.2
        digit'.2 title
      exact solves.cell_unique k cell cell' house values
  · intro member
    obtain ⟨d, chosen, name⟩ := List.mem_flatMap.mp member
    exact rowNames_columnNames (solves.may chosen) x name
  · intro name
    rw [List.mem_flatMap]
    rcases mem_columnNames.mp name with ⟨cell, empty⟩ | ⟨k, p, v, place, digit, free, rfl⟩
    · exact ⟨(x, g x), mem_answer.mpr ⟨⟨cell, empty⟩, rfl⟩, .head _⟩
    · obtain ⟨i, ⟨cell, rfl, rfl⟩, -⟩ := solves.once k p v place digit
      have empty : inout i = 0 := by
        by_contra given
        refine Bool.eq_false_iff.mp free ((marks_iff k.place inout _ _).mpr ⟨i, cell, rfl, ?_⟩)
        exact (solves.agrees i cell given).symm
      exact ⟨(i, g i), mem_answer.mpr ⟨⟨cell, empty⟩, rfl⟩, mem_rowNames.mpr (.inr ⟨k, rfl⟩)⟩

end Solves

/-! ### The solver -/

theorem new_small {inout : Nat → Nat} {s : SudokuSolver} (made : SudokuSolver.new inout = some s) :
    s.curNode ≤ kMaxNodes := by
  obtain ⟨s', cols, rows, made', -, built⟩ := new_built inout
  cases made.symm.trans made'
  exact built.small

theorem new_failed {inout : Nat → Nat} {s t u : SudokuSolver} {depth : Nat}
    (made : SudokuSolver.new inout = some s) (reached : s.Reaches .call t)
    (failed : t.solve depth = some (false, u)) : u = t := by
  obtain ⟨s', cols, rows, made', -, built⟩ := new_built inout
  cases made.symm.trans made'
  obtain ⟨X, shows⟩ := Torus.reaches_at built.shows reached
  exact Torus.solve_failed shows failed

theorem new_solve (inout : Nat → Nat) (given : ∀ i < kCells, inout i ≤ 9) : ∃ s t solved,
    SudokuSolver.new inout = some s ∧ s.solve kMaxNodes = some (solved, t) ∧
      if solved then Solves inout t.inout else ∀ g, ¬ Solves inout g := by
  obtain ⟨s, cols, rows, made, rfl, built⟩ := new_built inout
  have deep : (built.torus.cols.filter (· ∉ [])).length < kMaxNodes := by
    rw [Built.all_cols]
    exact built.torus.cols_small
  rcases Torus.solve_answers built.shows deep with ⟨failed, none_⟩ | ⟨t, Y, sel, covers, shows, stack,
    inout, solved⟩
  · refine ⟨s, s, false, made, failed, ?_⟩
    rw [if_neg Bool.false_ne_true]
    intro g solves
    obtain ⟨sel, covers⟩ := built.fills_covers solves.fills
    exact none_ sel covers
  · rw [built.stack, List.nil_append] at stack
    obtain ⟨u, filled, board⟩ := built.fillBoard_spec shows (stack ▸ covers.nodes)
    refine ⟨s, u, true, made, ?_, ?_⟩
    · rw [solved, filled, Option.map_some]
    · rw [if_pos rfl, board, stack, inout]
      exact (built.covers_fills covers).solves given

/-! ### Strings -/

/-- The digit at a place of a puzzle or of a grid. -/
def digitAt (puzzle : List Char) (i : Nat) : Nat := (puzzle.getD i '0').toNat - '0'.toNat

structure IsSolution (puzzle grid : List Char) : Prop where
  size : grid.length = kCells
  digits : ∀ c ∈ grid, c.isDigit
  solves : Solves (digitAt puzzle) (digitAt grid)

theorem isDigit_iff {c : Char} : c.isDigit = true ↔ '0'.toNat ≤ c.toNat ∧ c.toNat ≤ '9'.toNat := by
  rw [Char.isDigit, Bool.and_eq_true, decide_eq_true_iff, decide_eq_true_iff, ge_iff_le,
    UInt32.le_iff_toNat_le, UInt32.le_iff_toNat_le]
  rfl

theorem digit_char {v : Nat} (digit : v ≤ 9) :
    (Char.ofNat (v + '0'.toNat)).isDigit ∧ (Char.ofNat (v + '0'.toNat)).toNat - '0'.toNat = v := by
  have all : ∀ v < 10, (Char.ofNat (v + '0'.toNat)).isDigit ∧
      (Char.ofNat (v + '0'.toNat)).toNat - '0'.toNat = v := by decide
  exact all v (Nat.lt_succ_of_le digit)

theorem Solves.congr {h : Nat → Nat} (solves : Solves inout g) (same : ∀ i < kCells, h i = g i) :
    Solves inout h := by
  refine ⟨fun i cell given => (same i cell).trans (solves.agrees i cell given),
    fun i cell => (same i cell).symm ▸ solves.digit i cell, fun k p v place digit => ?_⟩
  obtain ⟨i, ⟨cell, here, value⟩, unique⟩ := solves.once k p v place digit
  refine ⟨i, ⟨cell, here, (same i cell).trans value⟩, fun j other => ?_⟩
  obtain ⟨cell', here', value'⟩ := other
  exact unique j ⟨cell', here', (same j cell').symm.trans value'⟩

theorem isSolution_grid {puzzle : List Char} (solves : Solves (digitAt puzzle) g) :
    IsSolution puzzle ((List.range kCells).map fun i => Char.ofNat (g i + '0'.toNat)) := by
  refine ⟨by rw [List.length_map, List.length_range], List.forall_mem_map.mpr fun i member => ?_,
    solves.congr fun i cell => ?_⟩
  · exact (digit_char (solves.digit i (List.mem_range.mp member)).2).1
  · have found : ((List.range kCells).map fun i => Char.ofNat (g i + '0'.toNat)).getD i '0' =
        Char.ofNat (g i + '0'.toNat) := by
      rw [List.getD_eq_getElem?_getD, List.getElem?_map, List.getElem?_range cell]
      rfl
    rw [digitAt, found]
    exact (digit_char (solves.digit i cell).2).2

section Puzzles
variable {puzzle : List Char} (size : puzzle.length = kCells) (digits : ∀ c ∈ puzzle, c.isDigit)
include size digits

theorem cell_digit {i : Nat} (cell : i < kCells) :
    '0'.toNat ≤ (puzzle.getD i '0').toNat ∧ (puzzle.getD i '0').toNat ≤ '9'.toNat := by
  have inside : i < puzzle.length := size ▸ cell
  rw [List.getD_eq_getElem?_getD, List.getElem?_eq_getElem inside, Option.getD_some]
  exact isDigit_iff.mp (digits _ (List.getElem_mem _))

theorem digitAt_le {i : Nat} (cell : i < kCells) : digitAt puzzle i ≤ 9 :=
  Nat.sub_le_sub_right (cell_digit size digits cell).2 '0'.toNat

theorem solveSudoku_eq : solveSudoku puzzle =
    (SudokuSolver.new (digitAt puzzle)).bind fun s =>
      (s.solve kMaxNodes).map fun (solved, s) =>
        if solved then (List.range kCells).map fun i => Char.ofNat (s.inout i + '0'.toNat)
        else kNoSolution := by
  have board (i : Nat) : (((puzzle.getD i '0').toNat : Int) - ('0'.toNat : Int)).toNat =
      digitAt puzzle i := Int.toNat_sub _ _
  have valid : ((List.range kCells).all fun i =>
      decide (0 ≤ ((puzzle.getD i '0').toNat : Int) - ('0'.toNat : Int) ∧
        ((puzzle.getD i '0').toNat : Int) - ('0'.toNat : Int) ≤ 9)) = true := by
    refine List.all_eq_true.mpr fun i member => decide_eq_true ?_
    obtain ⟨low, high⟩ := cell_digit size digits (List.mem_range.mp member)
    change 48 ≤ _ at low
    change _ ≤ 57 at high
    change 0 ≤ _ - (48 : Int) ∧ _ - (48 : Int) ≤ 9
    omega
  rw [solveSudoku, if_pos size]
  simp only [valid, if_true, board]

end Puzzles

/-- The solver ends on every puzzle, with a solution where there is one and with `kNoSolution` where
there is none. No more than `kMaxNodes` nodes are made, and a call of `solve` that fails, however deep,
leaves everything as it was. -/
theorem solveSudoku_correct {puzzle : List Char} (size : puzzle.length = kCells)
    (digits : ∀ c ∈ puzzle, c.isDigit) :
    (∃ result, solveSudoku puzzle = some result ∧
      (IsSolution puzzle result ∨ result = kNoSolution ∧ ∀ grid, ¬ IsSolution puzzle grid)) ∧
    ∃ s, SudokuSolver.new (digitAt puzzle) = some s ∧ s.curNode ≤ kMaxNodes ∧
      ∀ t, s.Reaches .call t → ∀ depth u, t.solve depth = some (false, u) → u = t := by
  obtain ⟨s, t, solved, made, answer, right⟩ := new_solve (digitAt puzzle) fun i =>
    digitAt_le size digits
  refine ⟨?_, s, made, new_small made, fun t reached depth u => new_failed made reached⟩
  rw [solveSudoku_eq size digits, made, Option.bind_some, answer, Option.map_some]
  refine ⟨_, rfl, ?_⟩
  cases solved with
  | true => exact .inl (isSolution_grid right)
  | false => exact .inr ⟨rfl, fun grid solution => right _ solution.solves⟩

/-- A solution whose rows are shifts of one another, and some of its digits as the givens. -/
def shifted (i : Nat) : Nat := (3 * (i / 9 % 3) + i / 9 / 3 + i % 9) % 9 + 1

def givens : List Char :=
  "020450709056089003009000406230067000000800000801234507040078900000012000002005070".toList

theorem solves_shifted : Solves (digitAt givens) shifted where
  agrees := by decide +kernel
  digit i _ := by
    rw [shifted]
    omega
  once k p v place digit := by
    have one : ∀ k : House, ∀ p < 9, ∀ v < 10, 1 ≤ v →
        ((List.range kCells).filter fun i => k.place i = p ∧ shifted i = v).length = 1 := by
      intro k
      cases k <;> decide +kernel
    obtain ⟨i, only⟩ := List.length_eq_one_iff.mp (one k p place v (Nat.lt_succ_of_le digit.2) digit.1)
    have there (j : Nat) : j = i ↔ j < kCells ∧ k.place j = p ∧ shifted j = v := by
      rw [← List.mem_singleton, ← only, List.mem_filter, List.mem_range, decide_eq_true_iff]
    exact ⟨i, (there i).mp rfl, fun j found => (there j).mpr found⟩

/-- Two givens of one row are the same digit. -/
def clash : List Char := "55".toList ++ List.replicate 79 '0'

theorem not_isSolution_clash (grid : List Char) : ¬ IsSolution clash grid := by
  intro solution
  have first := solution.solves.agrees 0 (by decide) (by decide)
  have second := solution.solves.agrees 1 (by decide) (by decide)
  obtain ⟨i, -, only⟩ := solution.solves.once .row 0 5 (by decide) (by decide)
  have same := (only 0 ⟨by decide, by decide, first⟩).trans (only 1 ⟨by decide, by decide, second⟩).symm
  exact absurd same (by decide)

theorem solveSudoku_correct_givens :
    (∃ result, solveSudoku givens = some result ∧ IsSolution givens result) ∧
      solveSudoku clash = some kNoSolution := by
  constructor
  · obtain ⟨⟨result, solved, right | ⟨-, none⟩⟩, -⟩ :=
      solveSudoku_correct (by decide +kernel : givens.length = kCells)
        (List.all_eq_true.mp (by decide +kernel : givens.all Char.isDigit = true))
    · exact ⟨result, solved, right⟩
    · exact absurd (isSolution_grid solves_shifted) (none _)
  · obtain ⟨⟨result, solved, right | ⟨rfl, -⟩⟩, -⟩ :=
      solveSudoku_correct (by decide +kernel : clash.length = kCells)
        (List.all_eq_true.mp (by decide +kernel : clash.all Char.isDigit = true))
    · exact absurd right (not_isSolution_clash result)
    · exact solved

end ProjectsCpp.Sudoku
