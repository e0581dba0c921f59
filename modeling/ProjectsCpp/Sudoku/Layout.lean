import ProjectsCpp.Sudoku.Constructor
import Mathlib.Data.List.Pairwise

/-! The torus behind the constructor's links, and what an exact cover of its columns is in terms of
cells and digits. -/

namespace ProjectsCpp.Sudoku
open ProjectsCpp.Rings ProjectsCpp.ExactCover

/-! ### Rows -/

/-- The other elements of a row, from the one behind `n`. -/
def others (row : List Nat) (n : Nat) : List Nat :=
  (row.dropWhile (· ≠ n)).tail ++ row.takeWhile (· ≠ n)

theorem others_split {before after : List Nat} {n : Nat} (first : n ∉ before) :
    others (before ++ n :: after) n = after ++ before := by
  have away : ∀ x ∈ before, decide (x ≠ n) = true := by
    rintro x member
    rw [decide_eq_true_iff]
    rintro rfl
    exact first member
  rw [others, List.dropWhile_append_of_pos away, List.takeWhile_append_of_pos away,
    List.dropWhile_cons_of_neg (by simp), List.takeWhile_cons_of_neg (by simp), List.tail_cons,
    List.append_nil]

theorem others_length (row : List Nat) (n : Nat) : (others row n).length ≤ row.length := by
  have whole := congrArg List.length (List.takeWhile_append_dropWhile (p := (· ≠ n)) (l := row))
  rw [List.length_append] at whole
  rw [others, List.length_append, List.length_tail]
  omega

/-- The other nodes of the row of `n`. -/
def matesIn (rows : List (List Nat)) (n : Nat) : List Nat :=
  others ((rows.find? (n ∈ ·)).getD []) n

variable {rows : List (List Nat)} {n m : Nat}

theorem matesIn_length (rows : List (List Nat)) (n : Nat) :
    (matesIn rows n).length ≤ rows.flatten.length := by
  refine Nat.le_trans (others_length _ n) ?_
  cases found : rows.find? (n ∈ ·) with
  | none => exact Nat.zero_le _
  | some row => exact (List.sublist_flatten_of_mem (List.mem_of_find?_eq_some found)).length_le

theorem matesIn_split (distinct : rows.flatten.Nodup) {before after : List Nat}
    (row : before ++ n :: after ∈ rows) : matesIn rows n = after ++ before := by
  have apart := List.nodup_flatten.mp distinct
  have member : n ∈ before ++ n :: after := List.mem_append_right before List.mem_cons_self
  obtain ⟨row', found⟩ : ∃ row', rows.find? (n ∈ ·) = some row' :=
    Option.isSome_iff_exists.mp (List.find?_isSome.mpr ⟨_, row, decide_eq_true member⟩)
  have there : row' ∈ rows := List.mem_of_find?_eq_some found
  have member' : n ∈ row' := by simpa using List.find?_some found
  have same : row' = before ++ n :: after := by
    by_contra other
    have : Std.Symm (List.Disjoint : List Nat → List Nat → Prop) :=
      ⟨fun _ _ apart _ here there => apart there here⟩
    exact apart.2.forall there row other member' member
  have first : n ∉ before := fun early =>
    (List.nodup_append.mp (apart.1 _ row)).2.2 n early n List.mem_cons_self rfl
  rw [matesIn, found, same, Option.getD_some, others_split first]

theorem row_split (member : n ∈ rows.flatten) :
    ∃ before after, before ++ n :: after ∈ rows := by
  obtain ⟨row, inside, here⟩ := List.mem_flatten.mp member
  obtain ⟨before, after, rfl⟩ := List.append_of_mem here
  exact ⟨before, after, inside⟩

theorem matesIn_perm (distinct : rows.flatten.Nodup) {row : List Nat} (inside : row ∈ rows)
    (member : n ∈ row) : (n :: matesIn rows n).Perm row := by
  obtain ⟨before, after, rfl⟩ := List.append_of_mem member
  rw [matesIn_split distinct inside]
  rw [← List.cons_append]
  exact List.perm_append_comm

theorem matesIn_subset (distinct : rows.flatten.Nodup) (node : n ∈ rows.flatten)
    (mate : m ∈ matesIn rows n) : ∃ row ∈ rows, n ∈ row ∧ m ∈ row := by
  obtain ⟨row, inside, here⟩ := List.mem_flatten.mp node
  exact ⟨row, inside, here, (matesIn_perm distinct inside here).subset (.tail _ mate)⟩

theorem rowNames_nodup {inout : Nat → Nat} {d : Nat × Nat} (may : d ∈ digits inout) :
    (rowNames d.1 d.2).Nodup := by
  obtain ⟨cell, -, digit, -⟩ := mem_digits.mp may
  have large := fun k : House => k.name_large (k.place d.1) d.2
  have apart (k k' : House) (other : k ≠ k') : k.name (k.place d.1) d.2 ≠ k'.name (k'.place d.1) d.2 :=
    fun same => other (House.name_inj (k.place_lt cell) (k'.place_lt cell) digit.2 digit.2 same).1
  have small : d.1 < 81 := cell
  have cells (k : House) : d.1 ≠ k.name (k.place d.1) d.2 := Nat.ne_of_lt (by have := large k; omega)
  simp only [rowNames, List.nodup_cons, List.mem_cons, List.not_mem_nil, or_false, not_or,
    not_false_eq_true, List.nodup_nil, and_true]
  exact ⟨⟨cells .row, cells .col, cells .box⟩,
    ⟨apart .row .col (by simp), apart .row .box (by simp)⟩, apart .col .box (by simp)⟩

/-! ### The torus -/

namespace Built
variable {s : SudokuSolver} {cols : List Nat}

theorem cols_nodes (built : Built s cols rows) : (root :: cols).Nodup ∧ rows.flatten.Nodup ∧
    ∀ n ∈ rows.flatten, n ∉ root :: cols := by
  have distinct := built.linked.placed.distinct
  rw [← List.cons_append] at distinct
  obtain ⟨heads, nodes, apart⟩ := List.nodup_append.mp distinct
  exact ⟨heads, nodes, fun n node head => apart n head n node rfl⟩

theorem row_digit (built : Built s cols rows) {row : List Nat} (inside : row ∈ rows) :
    ∃ d ∈ digits s.inout, row.map s.nodes.name = rowNames d.1 d.2 := by
  have member : row.map s.nodes.name ∈ rows.map (List.map s.nodes.name) := List.mem_map_of_mem inside
  rw [built.names] at member
  obtain ⟨d, may, same⟩ := List.mem_map.mp member
  exact ⟨d, may, same.symm⟩

theorem row_titles (built : Built s cols rows) {row : List Nat} (inside : row ∈ rows) :
    (row.map s.nodes.col).map s.nodes.name = row.map s.nodes.name := by
  rw [List.map_map]
  exact List.map_congr_left fun n member =>
    built.linked.placed.named n (List.mem_flatten.mpr ⟨row, inside, member⟩)

def torus (built : Built s cols rows) : Torus where
  cols := cols
  nodesOf d := rows.flatten.filter (s.nodes.col · = d)
  mates := matesIn rows
  col := s.nodes.col
  name := s.nodes.name
  cols_nodup := built.cols_nodes.1
  col_col := built.linked.placed.own
  nodes_nodup d := built.cols_nodes.2.1.filter _
  nodes_col d _ n member := of_decide_eq_true (List.mem_filter.mp member).2
  nodes_apart d _ n member := built.cols_nodes.2.2 n (List.mem_filter.mp member).1
  mates_node n m _ node mate := by
    obtain ⟨row, inside, -, there⟩ := matesIn_subset built.cols_nodes.2.1 (List.mem_filter.mp node).1
      mate
    have made : m ∈ rows.flatten := List.mem_flatten.mpr ⟨row, inside, there⟩
    exact ⟨built.linked.placed.under m made, List.mem_filter.mpr ⟨made, decide_eq_true rfl⟩⟩
  mates_row n m _ node mate := by
    have distinct := built.cols_nodes.2.1
    obtain ⟨row, inside, here, there⟩ := matesIn_subset distinct (List.mem_filter.mp node).1 mate
    exact (matesIn_perm distinct inside there).trans (matesIn_perm distinct inside here).symm
  row_nodup n _ node := by
    obtain ⟨row, inside, here⟩ := List.mem_flatten.mp (List.mem_filter.mp node).1
    obtain ⟨d, may, names⟩ := built.row_digit inside
    have distinct : (row.map s.nodes.col).Nodup := by
      refine List.Nodup.of_map s.nodes.name ?_
      rw [built.row_titles inside, names]
      exact rowNames_nodup may
    exact ((matesIn_perm built.cols_nodes.2.1 inside here).map _).nodup_iff.mpr distinct
  cols_small := by
    have count := built.linked.placed.count
    have small := built.small
    omega
  nodes_small d := by
    have count := built.linked.placed.count
    have small := built.small
    have le := List.length_filter_le (fun n => decide (s.nodes.col n = d)) rows.flatten
    omega
  mates_small n := by
    have count := built.linked.placed.count
    have small := built.small
    have le := matesIn_length rows n
    omega

theorem isNode (built : Built s cols rows) : built.torus.IsNode n ↔ n ∈ rows.flatten := by
  refine ⟨fun node => (List.mem_filter.mp node.2).1, fun made => ⟨?_, ?_⟩⟩
  · exact built.linked.placed.under n made
  · exact List.mem_filter.mpr ⟨made, decide_eq_true rfl⟩

theorem all_cols (built : Built s cols rows) : built.torus.cols.filter (· ∉ []) = cols :=
  List.filter_eq_self.mpr fun _ _ => decide_eq_true List.not_mem_nil

theorem shows (built : Built s cols rows) : built.torus.Shows s.nodes [] where
  heads := by
    rw [all_cols]
    exact built.linked.placed.heads
  column d inside _ := by
    have all : built.torus.column [] d = rows.flatten.filter (s.nodes.col · = d) :=
      List.filter_eq_self.mpr fun n _ => decide_eq_true fun _ _ => List.not_mem_nil
    rw [all]
    exact built.linked.placed.columns d inside
  rows n node := by
    change Ring s.nodes.right s.nodes.left n (matesIn rows n)
    obtain ⟨before, after, inside⟩ := row_split (built.isNode.mp node)
    rw [matesIn_split built.cols_nodes.2.1 inside]
    obtain ⟨first, l, row, ring⟩ := built.linked.links _ inside
    cases before with
    | nil =>
      cases row
      rw [List.append_nil]
      exact ring
    | cons x before =>
      cases row
      exact ring.rotate
  col := rfl
  name := rfl

end Built

/-! ### Reading a row -/

namespace Nodes
variable {s : Nodes} {i v a stop fuel : Nat} {cell val : Option Nat} {rest : List Nat}

theorem readRow_step (s : Nodes) (fuel : Nat) (n : Nat) (open_ : cell = none ∨ val = none) :
    s.readRow (fuel + 1) cell val n =
      if s.name n < 100 then s.readRow fuel (some (s.name n)) val (s.right n)
      else s.readRow fuel cell (some (s.name n % 10)) (s.right n) := by
  rcases open_ with rfl | rfl
  · rfl
  · cases cell <;> rfl

def Named (s : Nodes) (i v n : Nat) : Prop :=
  (s.name n < 100 ∧ s.name n = i) ∨ (¬ s.name n < 100 ∧ s.name n % 10 = v)

theorem readRow_spec (walk : Walk s.right a rest stop) (named : ∀ n ∈ rest, s.Named i v n)
    (cells : cell = some i ∨ cell = none ∧ ∃ n ∈ rest, s.name n < 100)
    (vals : val = some v ∨ val = none ∧ ∃ n ∈ rest, ¬ s.name n < 100) (enough : rest.length < fuel) :
    s.readRow fuel cell val (s.right a) = some (i, v) := by
  induction rest generalizing a cell val fuel with
  | nil =>
    obtain ⟨fuel, rfl⟩ := Nat.exists_eq_succ_of_ne_zero (Nat.ne_of_gt enough)
    obtain rfl : cell = some i := cells.resolve_right fun both => nomatch both.2
    obtain rfl : val = some v := vals.resolve_right fun both => nomatch both.2
    rfl
  | cons n rest ih =>
    obtain ⟨fuel, rfl⟩ := Nat.exists_eq_succ_of_ne_zero (Nat.ne_of_gt (Nat.lt_of_le_of_lt
      (Nat.zero_le _) enough))
    obtain ⟨first, walk⟩ := walk
    obtain ⟨here, named⟩ := List.forall_mem_cons.mp named
    have enough' := Nat.lt_of_succ_lt_succ enough
    by_cases done : cell = some i ∧ val = some v
    · obtain ⟨rfl, rfl⟩ := done
      rfl
    have open_ : cell = none ∨ val = none := by
      rcases cells with found | ⟨none_, -⟩
      · exact .inr (vals.resolve_left fun found' => done ⟨found, found'⟩).1
      · exact .inl none_
    rw [first, readRow_step s fuel n open_]
    rcases here with ⟨small, rfl⟩ | ⟨large, rfl⟩
    · rw [if_pos small]
      refine ih walk named (.inl rfl) (vals.imp_right ?_) enough'
      rintro ⟨none_, m, member, large⟩
      rcases List.mem_cons.mp member with rfl | member
      · exact absurd small large
      · exact ⟨none_, m, member, large⟩
    · rw [if_neg large]
      refine ih walk named (cells.imp_right ?_) (.inl rfl) enough'
      rintro ⟨none_, m, member, small⟩
      rcases List.mem_cons.mp member with rfl | member
      · exact absurd small large
      · exact ⟨none_, m, member, small⟩

end Nodes

/-- The digit that `solve` reads from the row of a node. -/
def digitOf (nodes : Nodes) (n : Nat) : Nat × Nat := (nodes.readRow kMaxNodes none none n).getD (0, 0)

theorem rowNames_named {inout : Nat → Nat} {d : Nat × Nat} (may : d ∈ digits inout) {x : Nat}
    (member : x ∈ rowNames d.1 d.2) : (x < 100 ∧ x = d.1) ∨ (¬ x < 100 ∧ x % 10 = d.2) := by
  obtain ⟨cell, -, digit, -⟩ := mem_digits.mp may
  rcases mem_rowNames.mp member with rfl | ⟨k, rfl⟩
  · exact .inl ⟨Nat.lt_trans cell (by decide), rfl⟩
  · exact .inr ⟨Nat.not_lt.mpr (k.name_large _ _), k.name_digit _ digit.2⟩

namespace Built
variable {s : SudokuSolver} {cols : List Nat}

theorem node_digit (built : Built s cols rows) (node : built.torus.IsNode n) :
    digitOf s.nodes n ∈ digits s.inout ∧
    ((built.torus.colsOf n).map s.nodes.name).Perm
      (rowNames (digitOf s.nodes n).1 (digitOf s.nodes n).2) ∧
    ∀ u Y, built.torus.Shows u Y → u.readRow kMaxNodes none none n = some (digitOf s.nodes n) := by
  obtain ⟨row, inside, here⟩ := List.mem_flatten.mp (built.isNode.mp node)
  obtain ⟨d, may, names⟩ := built.row_digit inside
  have perm : (n :: matesIn rows n).Perm row := matesIn_perm built.cols_nodes.2.1 inside here
  have names' : ((n :: matesIn rows n).map s.nodes.name).Perm (rowNames d.1 d.2) :=
    names ▸ perm.map _
  have reads : ∀ u Y, built.torus.Shows u Y → u.readRow kMaxNodes none none n = some d := by
    intro u Y shows
    have ring : Ring u.right u.left n (matesIn rows n) := shows.rows n node
    have title : u.name = s.nodes.name := shows.name
    have around := ring.around (.head _)
    have walk : Walk u.right (u.left n) (n :: matesIn rows n) n := ⟨around.2.2.2, ring.walk⟩
    have has (x : Nat) (member : x ∈ rowNames d.1 d.2) :
        ∃ m ∈ n :: matesIn rows n, s.nodes.name m = x := List.mem_map.mp (names'.symm.subset member)
    suffices read : u.readRow kMaxNodes none none (u.right (u.left n)) = some (d.1, d.2) by
      rw [around.2.2.2] at read
      exact read
    refine Nodes.readRow_spec walk ?_ ?_ ?_ ?_
    · intro m member
      rw [Nodes.Named, title]
      exact rowNames_named may (names'.subset (List.mem_map_of_mem member))
    · obtain ⟨m, member, name⟩ := has d.1 (.head _)
      refine .inr ⟨rfl, m, member, ?_⟩
      obtain ⟨cell, -⟩ := mem_digits.mp may
      rw [title, name]
      exact Nat.lt_trans cell (by decide)
    · obtain ⟨m, member, name⟩ := has _ (.tail _ (.head _))
      refine .inr ⟨rfl, m, member, ?_⟩
      rw [title, name]
      exact Nat.not_lt.mpr (House.row.name_large _ _)
    · have four := names'.length_eq
      rw [List.length_map] at four
      rw [four]
      exact (by decide : 4 < kMaxNodes)
  have same : digitOf s.nodes n = d := by rw [digitOf, reads s.nodes [] built.shows, Option.getD_some]
  rw [same]
  refine ⟨may, ?_, reads⟩
  have titles := (perm.map s.nodes.col).map s.nodes.name
  rw [built.row_titles inside, names] at titles
  exact titles

end Built

/-! ### Covers and digits -/

/-- Digits for cells that fill the columns exactly. -/
structure Fills (inout : Nat → Nat) (ds : List (Nat × Nat)) : Prop where
  may : ∀ d ∈ ds, d ∈ digits inout
  exact : Exact (fun d => rowNames d.1 d.2) (columnNames inout) ds

def fill (inout : Nat → Nat) (ds : List (Nat × Nat)) : Nat → Nat :=
  ds.foldl (fun inout d => Function.update inout d.1 d.2) inout

namespace Built
variable {s t : SudokuSolver} {cols sel : List Nat} {ds : List (Nat × Nat)}

theorem names_digits (built : Built s cols rows) (nodes : ∀ n ∈ sel, built.torus.IsNode n) :
    ((sel.flatMap built.torus.colsOf).map s.nodes.name).Perm
      ((sel.map (digitOf s.nodes)).flatMap fun d => rowNames d.1 d.2) := by
  rw [List.map_flatMap, List.flatMap_map]
  exact List.Perm.flatMap_left sel fun n member => (built.node_digit (nodes n member)).2.1

theorem covers_fills (built : Built s cols rows) (covers : built.torus.Covers [] sel) :
    Fills s.inout (sel.map (digitOf s.nodes)) where
  may := List.forall_mem_map.mpr fun n member => (built.node_digit (covers.nodes n member)).1
  exact := by
    have exact := covers.exact
    rw [all_cols, Exact] at exact
    rw [Exact, ← built.titles]
    exact (built.names_digits covers.nodes).symm.trans (exact.map _)

theorem digit_node (built : Built s cols rows) {d : Nat × Nat} (may : d ∈ digits s.inout) :
    ∃ n, built.torus.IsNode n ∧
      ((built.torus.colsOf n).map s.nodes.name).Perm (rowNames d.1 d.2) := by
  have member : rowNames d.1 d.2 ∈ rows.map (List.map s.nodes.name) := by
    rw [built.names]
    exact List.mem_map_of_mem may
  obtain ⟨row, inside, names⟩ := List.mem_map.mp member
  obtain ⟨n, l, rfl, -⟩ := built.linked.links row inside
  refine ⟨n, built.isNode.mpr (List.mem_flatten.mpr ⟨_, inside, .head _⟩), ?_⟩
  have titles := ((matesIn_perm built.cols_nodes.2.1 inside (.head _)).map s.nodes.col).map s.nodes.name
  rw [built.row_titles inside, names] at titles
  exact titles

theorem map_names (built : Built s cols rows) {l : List Nat} (inside : ∀ c ∈ l, c ∈ cols) :
    (l.map s.nodes.name).map (fun name => (s.columns name).getD root) = l := by
  rw [List.map_map]
  refine (List.map_congr_left fun c member => ?_).trans (List.map_id l)
  have found := (built.linked.placed.table _ c).mpr ⟨inside c member, rfl⟩
  rw [Function.comp_apply, found]
  rfl

theorem fills_covers (built : Built s cols rows) (fills : Fills s.inout ds) :
    ∃ sel, built.torus.Covers [] sel := by
  have rows_ : ∀ ds : List (Nat × Nat), (∀ d ∈ ds, d ∈ digits s.inout) →
      ∃ sel : List Nat, (∀ n ∈ sel, built.torus.IsNode n) ∧
        ((sel.flatMap built.torus.colsOf).map s.nodes.name).Perm
          (ds.flatMap fun d => rowNames d.1 d.2) := by
    intro ds may
    induction ds with
    | nil => exact ⟨[], nofun, List.Perm.nil⟩
    | cons d ds ih =>
      obtain ⟨sel, nodes, names⟩ := ih fun e member => may e (.tail _ member)
      obtain ⟨n, node, names'⟩ := built.digit_node (may d (.head _))
      refine ⟨n :: sel, List.forall_mem_cons.mpr ⟨node, nodes⟩, ?_⟩
      rw [List.flatMap_cons, List.flatMap_cons, List.map_append]
      exact names'.append names
  obtain ⟨sel, nodes, names⟩ := rows_ ds fills.may
  refine ⟨sel, nodes, ?_⟩
  have titles : ((sel.flatMap built.torus.colsOf).map s.nodes.name).Perm (cols.map s.nodes.name) := by
    rw [built.titles]
    exact names.trans fills.exact
  have inside : ∀ c ∈ sel.flatMap built.torus.colsOf, c ∈ cols := by
    intro c member
    obtain ⟨n, chosen, here⟩ := List.mem_flatMap.mp member
    exact (Torus.colsOf_mem (nodes n chosen) here).1
  have perm := titles.map fun name => (s.columns name).getD root
  rw [built.map_names inside, built.map_names fun c member => member] at perm
  rw [all_cols]
  exact perm

theorem fillBoard_spec (built : Built s cols rows) {Y : List Nat}
    (shows : built.torus.Shows t.nodes Y) (nodes : ∀ n ∈ t.stack, built.torus.IsNode n) :
    ∃ u, t.fillBoard = some u ∧ u.inout = fill t.inout (t.stack.map (digitOf s.nodes)) := by
  rw [SudokuSolver.fillBoard]
  generalize t.stack = sel at nodes
  induction sel generalizing t with
  | nil => exact ⟨t, rfl, rfl⟩
  | cons n sel ih =>
    obtain ⟨node, nodes⟩ := List.forall_mem_cons.mp nodes
    rw [List.foldlM_cons, (built.node_digit node).2.2 t.nodes Y shows, Option.map_some]
    exact ih (t := { t with inout := Function.update t.inout _ _ }) shows nodes

end Built

end ProjectsCpp.Sudoku
