import ProjectsCpp.Sudoku.Build
import ProjectsCpp.Sudoku.Search

/-! The links behind the constructor show a torus: the columns for what the givens leave open, and a
row for each digit that a cell may get. -/

namespace ProjectsCpp.Sudoku
open ProjectsCpp.Rings

/-! ### The loops of the constructor -/

/-- The columns in the order of `append_column`. -/
def columnNames (inout : Nat → Nat) : List Nat :=
  ((List.range kCells).flatMap fun i => if inout i = 0 then [i] else []) ++
  (List.range 9).flatMap fun i => (List.range' 1 9).flatMap fun v =>
    (if marks rowOf inout i v then [] else [getRowCol i v]) ++
    ((if marks colOf inout i v then [] else [getColCol i v]) ++
    if marks boxOf inout i v then [] else [getBoxCol i v])

/-- The cells without a given and the digits that they may get. -/
def digits (inout : Nat → Nat) : List (Nat × Nat) :=
  (List.range kCells).flatMap fun i =>
    if inout i = 0 then
      (List.range' 1 9).flatMap fun v =>
        if marks rowOf inout (rowOf i) v || marks colOf inout (colOf i) v ||
          marks boxOf inout (boxOf i) v then [] else [(i, v)]
    else []

section Loops
variable {α β σ : Type} {g : σ → β → Option σ}

theorem foldlM_flatMap (f : α → List β) (l : List α) (s : σ) :
    (l.flatMap f).foldlM g s = l.foldlM (fun s a => (f a).foldlM g s) s := by
  induction l generalizing s with
  | nil => rfl
  | cons a l ih =>
    rw [List.flatMap_cons, List.foldlM_append, List.foldlM_cons]
    exact bind_congr fun t => ih t

theorem foldlM_if (p : Prop) [Decidable p] (l l' : List β) (s : σ) :
    (if p then l else l').foldlM g s = if p then l.foldlM g s else l'.foldlM g s := by
  split <;> rfl

theorem foldlM_one (b : β) (s : σ) : [b].foldlM g s = g s b := bind_pure (g s b)

end Loops

def bare (inout : Nat → Nat) : SudokuSolver :=
  ⟨inout, fun _ => none, [],
    ⟨fun _ => 0, fun _ => 0, fun _ => 0, fun _ => 0, fun _ => 0, fun _ => 0, fun _ => 0⟩, 0⟩

theorem new_eq (inout : Nat → Nat) : SudokuSolver.new inout =
    ((bare inout).newColumn 0).bind fun (_, s) =>
      ((columnNames inout).foldlM SudokuSolver.appendColumn s).bind fun s =>
        (digits inout).foldlM (fun s d => s.newRows d.1 d.2) s := by
  simp only [columnNames, digits, List.foldlM_append, foldlM_flatMap, foldlM_if, foldlM_one,
    List.foldlM_nil, Option.bind_eq_bind, Option.bind_assoc]
  rfl

/-! ### Names -/

inductive House where
  | row
  | col
  | box
deriving DecidableEq

namespace House

def place : House → Nat → Nat
  | row => rowOf
  | col => colOf
  | box => boxOf

/-- The name of the column for a digit in a house. -/
def name : House → Nat → Nat → Nat
  | row => getRowCol
  | col => getColCol
  | box => getBoxCol

theorem place_lt (k : House) {i : Nat} (cell : i < kCells) : k.place i < 9 := by
  rw [kCells] at cell
  cases k
  · change i / 9 < 9
    omega
  · change i % 9 < 9
    omega
  · change i / 9 / 3 * 3 + i % 9 / 3 < 9
    omega

theorem name_large (k : House) (p v : Nat) : 100 ≤ k.name p v := by
  cases k <;> simp only [name, getRowCol, getColCol, getBoxCol, kRow, kCol, kBox] <;> omega

theorem name_digit (k : House) (p : Nat) {v : Nat} (digit : v ≤ 9) : k.name p v % 10 = v := by
  cases k <;> simp only [name, getRowCol, getColCol, getBoxCol, kRow, kCol, kBox] <;> omega

theorem name_inj {k k' : House} {p p' v v' : Nat} (small : p < 9) (small' : p' < 9) (digit : v ≤ 9)
    (digit' : v' ≤ 9) (same : k.name p v = k'.name p' v') : k = k' ∧ p = p' ∧ v = v' := by
  cases k <;> cases k' <;>
    simp only [name, getRowCol, getColCol, getBoxCol, kRow, kCol, kBox, true_and, reduceCtorEq,
      false_and] at same ⊢ <;> omega

end House

theorem mem_rowNames {i v x : Nat} :
    x ∈ rowNames i v ↔ x = i ∨ ∃ k : House, x = k.name (k.place i) v := by
  simp only [rowNames, List.mem_cons, List.not_mem_nil, or_false]
  refine or_congr_right ⟨?_, ?_⟩
  · rintro (row | col | box)
    · exact ⟨.row, row⟩
    · exact ⟨.col, col⟩
    · exact ⟨.box, box⟩
  · rintro ⟨k, same⟩
    cases k
    · exact .inl same
    · exact .inr (.inl same)
    · exact .inr (.inr same)

theorem marks_iff (place inout : Nat → Nat) (p v : Nat) :
    marks place inout p v = true ↔ ∃ i < kCells, place i = p ∧ inout i = v := by
  have marked : ∀ (l : List Nat) (m : Nat → Nat → Bool), l.foldl (fun m i =>
      Function.update m (place i) (Function.update (m (place i)) (inout i) true)) m p v = true ↔
      m p v = true ∨ ∃ i ∈ l, place i = p ∧ inout i = v := by
    intro l
    induction l with
    | nil => simp
    | cons i l ih =>
      intro m
      rw [List.foldl_cons, ih]
      simp only [List.mem_cons, exists_eq_or_imp]
      rw [← or_assoc]
      refine or_congr_left ?_
      by_cases here : place i = p
      · subst here
        rw [Function.update_self]
        by_cases digit : inout i = v
        · subst digit
          rw [Function.update_self]
          exact iff_of_true rfl (.inr ⟨rfl, rfl⟩)
        · rw [Function.update_of_ne (Ne.symm digit)]
          exact (or_iff_left fun both => digit both.2).symm
      · rw [Function.update_of_ne (Ne.symm here)]
        exact (or_iff_left fun both => here both.1).symm
  rw [marks, marked]
  simp only [Bool.false_eq_true, false_or, List.mem_range]

theorem mem_digits {inout : Nat → Nat} {i v : Nat} : (i, v) ∈ digits inout ↔
    i < kCells ∧ inout i = 0 ∧ (1 ≤ v ∧ v ≤ 9) ∧
      ∀ k : House, marks k.place inout (k.place i) v = false := by
  have houses : (∀ k : House, marks k.place inout (k.place i) v = false) ↔
      (marks rowOf inout (rowOf i) v || marks colOf inout (colOf i) v ||
        marks boxOf inout (boxOf i) v) = false := by
    rw [Bool.or_eq_false_iff, Bool.or_eq_false_iff]
    constructor
    · exact fun all => ⟨⟨all .row, all .col⟩, all .box⟩
    · rintro ⟨⟨row, col⟩, box⟩ k
      cases k
      · exact row
      · exact col
      · exact box
  rw [houses, digits, List.mem_flatMap]
  constructor
  · rintro ⟨j, cell, member⟩
    split_ifs at member with empty
    · obtain ⟨w, range, member⟩ := List.mem_flatMap.mp member
      split_ifs at member with marked
      · cases member
      · cases List.mem_singleton.mp member
        rw [List.mem_range'_1] at range
        exact ⟨List.mem_range.mp cell, empty, ⟨range.1, Nat.le_of_lt_succ range.2⟩,
          Bool.eq_false_iff.mpr marked⟩
    · cases member
  · rintro ⟨cell, empty, range, free⟩
    refine ⟨i, List.mem_range.mpr cell, ?_⟩
    rw [if_pos empty, List.mem_flatMap]
    refine ⟨v, List.mem_range'_1.mpr ⟨range.1, Nat.lt_succ_of_le range.2⟩, ?_⟩
    rw [free, if_neg Bool.false_ne_true]
    exact List.mem_singleton_self _

theorem mem_columnNames {inout : Nat → Nat} {n : Nat} : n ∈ columnNames inout ↔
    (n < kCells ∧ inout n = 0) ∨ ∃ (k : House) (p v : Nat), p < 9 ∧ (1 ≤ v ∧ v ≤ 9) ∧
      marks k.place inout p v = false ∧ n = k.name p v := by
  rw [columnNames, List.mem_append]
  refine or_congr ?_ ?_
  · simp only [List.mem_flatMap, List.mem_range, List.mem_ite_nil_right, List.mem_singleton]
    constructor
    · rintro ⟨i, cell, empty, rfl⟩
      exact ⟨cell, empty⟩
    · exact fun both => ⟨n, both.1, both.2, rfl⟩
  · simp only [List.mem_flatMap, List.mem_range, List.mem_range'_1, List.mem_append,
      List.mem_ite_nil_left, List.mem_singleton, Bool.not_eq_true]
    constructor
    · rintro ⟨p, place, v, digit, free | free | free⟩
      · exact ⟨.row, p, v, place, ⟨digit.1, Nat.le_of_lt_succ digit.2⟩, free⟩
      · exact ⟨.col, p, v, place, ⟨digit.1, Nat.le_of_lt_succ digit.2⟩, free⟩
      · exact ⟨.box, p, v, place, ⟨digit.1, Nat.le_of_lt_succ digit.2⟩, free⟩
    · rintro ⟨k, p, v, place, digit, free⟩
      refine ⟨p, place, v, ⟨digit.1, Nat.lt_succ_of_le digit.2⟩, ?_⟩
      cases k
      · exact .inl free
      · exact .inr (.inl free)
      · exact .inr (.inr free)

def allColumnNames : List Nat :=
  ((List.range kCells).flatMap fun i => [i]) ++
  (List.range 9).flatMap fun i => (List.range' 1 9).flatMap fun v =>
    [getRowCol i v] ++ ([getColCol i v] ++ [getBoxCol i v])

theorem ite_nil_sublist {α : Type} (p : Prop) [Decidable p] (l : List α) :
    (if p then [] else l).Sublist l := by
  split
  · exact List.nil_sublist l
  · exact List.Sublist.refl l

theorem columnNames_sublist (inout : Nat → Nat) : (columnNames inout).Sublist allColumnNames := by
  refine List.Sublist.append (List.Sublist.flatMap_right _ fun i _ => ?_) <|
    List.Sublist.flatMap_right _ fun i _ => List.Sublist.flatMap_right _ fun v _ =>
      (ite_nil_sublist _ _).append ((ite_nil_sublist _ _).append (ite_nil_sublist _ _))
  split
  · exact List.Sublist.refl [i]
  · exact List.nil_sublist [i]

theorem allColumnNames_nodup : allColumnNames.Nodup := by
  have house {p v n : Nat} (member : n ∈ [getRowCol p v] ++ ([getColCol p v] ++ [getBoxCol p v])) :
      ∃ k : House, n = k.name p v := by
    simp only [List.mem_append, List.mem_singleton] at member
    rcases member with row | col | box
    · exact ⟨.row, row⟩
    · exact ⟨.col, col⟩
    · exact ⟨.box, box⟩
  have digit {v : Nat} (member : v ∈ List.range' 1 9) : v ≤ 9 :=
    Nat.le_of_lt_succ (List.mem_range'_1.mp member).2
  refine List.nodup_append.mpr ⟨?_, List.nodup_flatMap.mpr ⟨fun p place =>
    List.nodup_flatMap.mpr ⟨fun v _ => ?_, ?_⟩, ?_⟩, ?_⟩
  · rw [List.flatMap_singleton']
    exact List.nodup_range
  · have apart : (House.row.name p v ≠ House.col.name p v ∧ House.row.name p v ≠ House.box.name p v) ∧
        House.col.name p v ≠ House.box.name p v := by
      simp only [House.name, getRowCol, getColCol, getBoxCol, kRow, kCol, kBox]
      omega
    simpa [House.name] using apart
  · refine (List.nodup_range' (n := 9)).pairwise_of_forall_ne fun v range w range' other n here there => ?_
    obtain ⟨k, same⟩ := house here
    obtain ⟨k', same'⟩ := house there
    exact other (House.name_inj (List.mem_range.mp place) (List.mem_range.mp place) (digit range)
      (digit range') (same.symm.trans same')).2.2
  · refine List.nodup_range.pairwise_of_forall_ne fun p place q place' other n here there => ?_
    obtain ⟨v, range, here⟩ := List.mem_flatMap.mp here
    obtain ⟨w, range', there⟩ := List.mem_flatMap.mp there
    obtain ⟨k, same⟩ := house here
    obtain ⟨k', same'⟩ := house there
    exact other (House.name_inj (List.mem_range.mp place) (List.mem_range.mp place') (digit range)
      (digit range') (same.symm.trans same')).2.1
  · rintro n cell _ member rfl
    obtain ⟨p, -, member⟩ := List.mem_flatMap.mp member
    obtain ⟨v, -, member⟩ := List.mem_flatMap.mp member
    obtain ⟨k, rfl⟩ := house member
    rw [List.flatMap_singleton', List.mem_range, kCells] at cell
    have large := k.name_large p v
    omega

theorem columnNames_nodup (inout : Nat → Nat) : (columnNames inout).Nodup :=
  allColumnNames_nodup.sublist (columnNames_sublist inout)

theorem columnNames_length (inout : Nat → Nat) : (columnNames inout).length ≤ 81 * 4 :=
  Nat.le_trans (columnNames_sublist inout).length_le
    (Nat.le_of_eq (by simp [allColumnNames, List.length_flatMap, kCells]))

theorem digits_length (inout : Nat → Nat) : (digits inout).length ≤ 9 * 9 * 9 := by
  have all : (digits inout).Sublist
      ((List.range kCells).flatMap fun i => (List.range' 1 9).flatMap fun v => [(i, v)]) := by
    refine List.Sublist.flatMap_right _ fun i _ => ?_
    split
    · exact List.Sublist.flatMap_right _ fun v _ => ite_nil_sublist _ _
    · exact List.nil_sublist _
  refine Nat.le_trans all.length_le (Nat.le_of_eq ?_)
  simp [List.length_flatMap, kCells]

theorem rowNames_columnNames {inout : Nat → Nat} {d : Nat × Nat} (may : d ∈ digits inout) :
    ∀ name ∈ rowNames d.1 d.2, name ∈ columnNames inout := by
  obtain ⟨cell, empty, digit, free⟩ := mem_digits.mp may
  intro name member
  rcases mem_rowNames.mp member with rfl | ⟨k, rfl⟩
  · exact mem_columnNames.mpr (.inl ⟨cell, empty⟩)
  · exact mem_columnNames.mpr (.inr ⟨k, k.place d.1, d.2, k.place_lt cell, digit, free k, rfl⟩)

/-! ### The links -/

theorem appendColumns_spec {s : SudokuSolver} {cols rest : List Nat} (placed : Placed s cols [])
    (distinct : (cols.map s.nodes.name ++ rest).Nodup)
    (room : 1 + cols.length + rest.length ≤ kMaxNodes) :
    ∃ t cols', rest.foldlM SudokuSolver.appendColumn s = some t ∧ Placed t cols' [] ∧
      t.inout = s.inout ∧ t.stack = s.stack ∧
      cols'.map t.nodes.name = cols.map s.nodes.name ++ rest := by
  induction rest generalizing s cols with
  | nil => exact ⟨s, cols, rfl, placed, rfl, rfl, (List.append_nil _).symm⟩
  | cons name rest ih =>
    have missing : s.columns name = none := by
      refine Option.eq_none_iff_forall_ne_some.mpr fun c found => ?_
      obtain ⟨inside, title⟩ := (placed.table name c).mp found
      have old : name ∈ cols.map s.nodes.name := title ▸ List.mem_map_of_mem inside
      exact (List.nodup_append.mp distinct).2.2 name old name (.head _) rfl
    have next : s.curNode < kMaxNodes := by
      rw [placed.count]
      rw [List.length_cons] at room
      rw [List.length_nil]
      omega
    obtain ⟨t, made, placed', inout, stack, titles⟩ := placed.appendColumn_spec missing next
    obtain ⟨u, cols', run, placed'', inout', stack', titles'⟩ := ih placed'
      (by rwa [titles, List.append_assoc])
      (by rw [List.length_append, List.length_singleton]; rw [List.length_cons] at room; omega)
    refine ⟨u, cols', ?_, placed'', inout'.trans inout, stack'.trans stack, ?_⟩
    · rw [List.foldlM_cons, made]
      exact run
    · rw [titles', titles, List.append_assoc]
      rfl

theorem newRows_run {s : SudokuSolver} {cols : List Nat} {rows : List (List Nat)}
    {rest : List (Nat × Nat)} (linked : Linked s cols rows)
    (columns : ∀ d ∈ rest, ∀ name ∈ rowNames d.1 d.2, name ∈ cols.map s.nodes.name)
    (room : s.curNode + 4 * rest.length ≤ kMaxNodes) :
    ∃ t rows', rest.foldlM (fun s d => s.newRows d.1 d.2) s = some t ∧ Linked t cols rows' ∧
      t.inout = s.inout ∧ t.stack = s.stack ∧ cols.map t.nodes.name = cols.map s.nodes.name ∧
      rows'.map (List.map t.nodes.name) =
        rows.map (List.map s.nodes.name) ++ rest.map (fun d => rowNames d.1 d.2) ∧
      t.curNode = s.curNode + 4 * rest.length := by
  induction rest generalizing s rows with
  | nil => exact ⟨s, rows, rfl, linked, rfl, rfl, rfl, (List.append_nil _).symm, rfl⟩
  | cons d rest ih =>
    have there : ∀ name ∈ rowNames d.1 d.2, ∃ c, s.columns name = some c := by
      intro name member
      obtain ⟨c, inside, title⟩ := List.mem_map.mp (columns d (.head _) name member)
      exact ⟨c, (linked.placed.table name c).mpr ⟨inside, title⟩⟩
    rw [List.length_cons] at room
    obtain ⟨t, row, made, linked', names, kept, -, inout, stack, four⟩ :=
      newRows_spec linked there (by omega)
    have titles : cols.map t.nodes.name = cols.map s.nodes.name :=
      List.map_congr_left fun c inside => kept c (.tail _ (List.mem_append_left _ inside))
    have older : rows.map (List.map t.nodes.name) = rows.map (List.map s.nodes.name) :=
      List.map_congr_left fun row' old => List.map_congr_left fun n inside =>
        kept n (.tail _ (List.mem_append_right _ (List.mem_flatten.mpr ⟨row', old, inside⟩)))
    have count : t.curNode = s.curNode + 4 := by
      rw [linked'.placed.count, linked.placed.count, List.flatten_append, List.length_append,
        List.flatten_singleton, four]
      omega
    obtain ⟨u, rows', run, linked'', inout', stack', titles', names', count'⟩ := ih linked'
      (fun e member => titles ▸ columns e (.tail _ member)) (by omega)
    refine ⟨u, rows', ?_, linked'', inout'.trans inout, stack'.trans stack, titles'.trans titles,
      ?_, ?_⟩
    · rw [List.foldlM_cons, made]
      exact run
    · rw [names', List.map_append, older, List.map_singleton, names, List.append_assoc]
      rfl
    · rw [count', count, List.length_cons]
      omega

/-- What the constructor has made for the givens. -/
structure Built (s : SudokuSolver) (cols : List Nat) (rows : List (List Nat)) : Prop where
  linked : Linked s cols rows
  titles : cols.map s.nodes.name = columnNames s.inout
  names : rows.map (List.map s.nodes.name) = (digits s.inout).map fun d => rowNames d.1 d.2
  stack : s.stack = []
  small : s.curNode ≤ kMaxNodes

theorem new_built (inout : Nat → Nat) : ∃ s cols rows,
    SudokuSolver.new inout = some s ∧ s.inout = inout ∧ Built s cols rows := by
  obtain ⟨s₀, rooted, placed₀, inout₀, stack₀⟩ : ∃ s₀, (bare inout).newColumn 0 = some (0, s₀) ∧
      Placed s₀ [] [] ∧ s₀.inout = inout ∧ s₀.stack = [] := by
    refine ⟨_, if_pos (show 0 < kMaxNodes by decide), ?_, rfl, rfl⟩
    constructor
    · exact ring_alone _ _ _
    · exact nofun
    · exact List.nodup_singleton _
    · intro n member
      rw [List.mem_singleton.mp member]
      exact Nat.one_pos
    · rfl
    · exact nofun
    · exact nofun
    · exact nofun
    · exact fun name c => iff_of_false nofun fun both => nomatch both.1
  have many := columnNames_length inout
  have limit : kMaxNodes = 1 + 81 * 4 + 4 * (9 * 9 * 9) := by decide
  have distinct : (([] : List Nat).map s₀.nodes.name ++ columnNames inout).Nodup := by
    rw [List.map_nil, List.nil_append]
    exact columnNames_nodup inout
  obtain ⟨s₁, cols, columns, placed₁, inout₁, stack₁, titles⟩ :=
    appendColumns_spec placed₀ distinct (by rw [List.length_nil]; omega)
  rw [List.map_nil, List.nil_append] at titles
  have size : s₁.curNode = 1 + (columnNames inout).length := by
    rw [placed₁.count, ← titles, List.length_map]
    rfl
  have few := digits_length inout
  have start : Linked s₁ cols [] := ⟨placed₁, nofun⟩
  have there : ∀ d ∈ digits inout, ∀ name ∈ rowNames d.1 d.2, name ∈ cols.map s₁.nodes.name :=
    fun d may => titles ▸ rowNames_columnNames may
  obtain ⟨s₂, rows, run, linked, inout₂, stack₂, titles₂, names, count⟩ :=
    newRows_run start there (by omega)
  have inout' : s₂.inout = inout := inout₂.trans (inout₁.trans inout₀)
  refine ⟨s₂, cols, rows, ?_, inout', linked, ?_, ?_, stack₂.trans (stack₁.trans stack₀), by omega⟩
  · rw [new_eq, rooted, Option.bind_some]
    dsimp only
    rw [columns, Option.bind_some, run]
  · rw [inout', titles₂, titles]
  · rw [inout', names, List.map_nil, List.nil_append]

end ProjectsCpp.Sudoku
