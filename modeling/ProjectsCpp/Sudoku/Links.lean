import ProjectsCpp.Sudoku.Solver
import Mathlib.Data.List.Induction

/-! What `cover` does to the links, and that `uncover` undoes it exactly. -/

namespace ProjectsCpp.Sudoku
open ProjectsCpp.Rings

/-- The columns and the rows that the constructor has linked. `nodesOf` are the nodes of a column from
the top, `mates` the other nodes of a row from a node to the right. -/
structure Torus where
  cols : List Nat
  nodesOf : Nat → List Nat
  mates : Nat → List Nat
  col : Nat → Nat
  name : Nat → Nat
  cols_nodup : (root :: cols).Nodup
  col_col : ∀ d ∈ cols, col d = d
  nodes_nodup : ∀ d, (nodesOf d).Nodup
  nodes_col : ∀ d ∈ cols, ∀ n ∈ nodesOf d, col n = d
  nodes_apart : ∀ d ∈ cols, ∀ n ∈ nodesOf d, n ∉ root :: cols
  mates_node : ∀ n m, col n ∈ cols → n ∈ nodesOf (col n) → m ∈ mates n →
    col m ∈ cols ∧ m ∈ nodesOf (col m)
  mates_row : ∀ n m, col n ∈ cols → n ∈ nodesOf (col n) → m ∈ mates n →
    (m :: mates m).Perm (n :: mates n)
  row_nodup : ∀ n, col n ∈ cols → n ∈ nodesOf (col n) → ((n :: mates n).map col).Nodup
  cols_small : cols.length < kMaxNodes
  nodes_small : ∀ d, (nodesOf d).length < kMaxNodes
  mates_small : ∀ n, (mates n).length < kMaxNodes

namespace Torus
variable (T : Torus)

def IsNode (n : Nat) : Prop := T.col n ∈ T.cols ∧ n ∈ T.nodesOf (T.col n)

def colsOf (n : Nat) : List Nat := (n :: T.mates n).map T.col

/-- A row without a column of `X`. -/
def Alive (X : List Nat) (n : Nat) : Prop := ∀ d ∈ T.colsOf n, d ∉ X

instance (X : List Nat) (n : Nat) : Decidable (T.Alive X n) :=
  inferInstanceAs (Decidable (∀ d ∈ T.colsOf n, d ∉ X))

/-- What is left of a column when those of `X` are covered. -/
def column (X : List Nat) (d : Nat) : List Nat := (T.nodesOf d).filter fun n => T.Alive X n

/-- The nodes that `cover` unlinks, in its order. -/
def gone (X : List Nat) (c : Nat) : List Nat := (T.column X c).flatMap T.mates

/-- The links when the columns of `X` have been covered. -/
structure Shows (s : Nodes) (X : List Nat) : Prop where
  heads : Ring s.right s.left root (T.cols.filter (· ∉ X))
  column : ∀ d ∈ T.cols, d ∉ X → Ring s.down s.up d (T.column X d)
  rows : ∀ n, T.IsNode n → Ring s.right s.left n (T.mates n)
  col : s.col = T.col
  name : s.name = T.name

/-- And when the nodes `U` have been unlinked besides. -/
def Cut (s : Nodes) (X U : List Nat) : Prop :=
  ∀ d ∈ T.cols, d ∉ X → Ring s.down s.up d ((T.column X d).filter (· ∉ U))

end Torus

/-! ### Single nodes -/

namespace Nodes
variable {s : Nodes} {c j : Nat}

theorem write_self (f : Nat → Nat) (i j : Nat) : Function.update f i (f j) j = f j := by
  rw [Function.update_apply]
  split <;> rfl

theorem unlinkNode_up (s : Nodes) (j : Nat) :
    (s.unlinkNode j).up = Function.update s.up (s.down j) (s.up j) := rfl

theorem unlinkNode_down (s : Nodes) (j : Nat) :
    (s.unlinkNode j).down = Function.update s.down (s.up j) (s.down j) := by
  change Function.update s.down (Function.update s.up (s.down j) (s.up j) j) (s.down j) = _
  rw [write_self]

theorem unlinkColumn_left (s : Nodes) (c : Nat) :
    (s.unlinkColumn c).left = Function.update s.left (s.right c) (s.left c) := rfl

theorem unlinkColumn_right (s : Nodes) (c : Nat) :
    (s.unlinkColumn c).right = Function.update s.right (s.left c) (s.right c) := by
  change Function.update s.right (Function.update s.left (s.right c) (s.left c) c) (s.right c) = _
  rw [write_self]

theorem relink_unlink (below : s.up (s.down j) = j) (above : s.down (s.up j) = j) :
    (s.unlinkNode j).relinkNode j = s := by
  have down : (s.unlinkNode j).down j = s.down j := by rw [unlinkNode_down, write_self]
  have up : (s.unlinkNode j).up j = s.up j := by rw [unlinkNode_up, write_self]
  have up' : ((s.unlinkNode j).relinkNode j).up = s.up := by
    change Function.update (s.unlinkNode j).up ((s.unlinkNode j).down j) j = s.up
    rw [down, unlinkNode_up, Function.update_idem]
    exact Function.update_eq_self_iff.mpr below.symm
  have down' : ((s.unlinkNode j).relinkNode j).down = s.down := by
    change Function.update (s.unlinkNode j).down (((s.unlinkNode j).relinkNode j).up j) j = s.down
    rw [up', unlinkNode_down, Function.update_idem]
    exact Function.update_eq_self_iff.mpr above.symm
  have size : ((s.unlinkNode j).relinkNode j).size = s.size := by
    change Function.update (Function.update s.size (s.col j) (s.size (s.col j) - 1)) (s.col j)
      (Function.update s.size (s.col j) (s.size (s.col j) - 1) (s.col j) + 1) = s.size
    rw [Function.update_idem, Function.update_self, Int.sub_add_cancel, Function.update_eq_self]
  exact Nodes.ext rfl rfl up' down' rfl rfl size

theorem relink_unlinkColumn (after : s.left (s.right c) = c) (before : s.right (s.left c) = c) :
    (s.unlinkColumn c).relinkColumn c = s := by
  have right : (s.unlinkColumn c).right c = s.right c := by rw [unlinkColumn_right, write_self]
  have left' : ((s.unlinkColumn c).relinkColumn c).left = s.left := by
    change Function.update (s.unlinkColumn c).left ((s.unlinkColumn c).right c) c = s.left
    rw [right, unlinkColumn_left, Function.update_idem]
    exact Function.update_eq_self_iff.mpr after.symm
  have right' : ((s.unlinkColumn c).relinkColumn c).right = s.right := by
    change Function.update (s.unlinkColumn c).right (((s.unlinkColumn c).relinkColumn c).left c) c =
      s.right
    rw [left', unlinkColumn_right, Function.update_idem]
    exact Function.update_eq_self_iff.mpr before.symm
  exact Nodes.ext left' right' rfl rfl rfl rfl rfl

/-- The nodes `js` are unlinked one after the other. -/
def unlinkAll (s : Nodes) (js : List Nat) : Nodes := js.foldl unlinkNode s

theorem unlinkAll_concat (s : Nodes) (js : List Nat) (j : Nat) :
    s.unlinkAll (js ++ [j]) = (s.unlinkAll js).unlinkNode j := List.foldl_concat ..

theorem unlinkAll_rows (s : Nodes) (js : List Nat) :
    (s.unlinkAll js).right = s.right ∧ (s.unlinkAll js).left = s.left ∧
      (s.unlinkAll js).col = s.col ∧ (s.unlinkAll js).name = s.name := by
  induction js generalizing s with
  | nil => exact ⟨rfl, rfl, rfl, rfl⟩
  | cons j js ih => exact ih (s.unlinkNode j)

end Nodes

/-! ### Rows and columns -/

namespace Torus
variable {T : Torus} {s t : Nodes} {X U : List Nat} {c d j m n : Nat}

theorem col_mem (n : Nat) : T.col n ∈ T.colsOf n := List.mem_cons_self

theorem mate_col (mate : m ∈ T.mates n) : T.col m ∈ T.colsOf n :=
  List.mem_map_of_mem (.tail _ mate)

theorem mate_node (node : T.IsNode n) (mate : m ∈ T.mates n) : T.IsNode m :=
  T.mates_node n m node.1 node.2 mate

theorem mate_colsOf (node : T.IsNode n) (mate : m ∈ T.mates n) :
    (T.colsOf m).Perm (T.colsOf n) := (T.mates_row n m node.1 node.2 mate).map T.col

theorem colsOf_nodup (node : T.IsNode n) : (T.colsOf n).Nodup := T.row_nodup n node.1 node.2

theorem mate_other (node : T.IsNode n) (mate : m ∈ T.mates n) : T.col m ≠ T.col n := by
  intro same
  have nodup := T.colsOf_nodup node
  rw [colsOf, List.map_cons, List.nodup_cons] at nodup
  exact nodup.1 (same ▸ List.mem_map_of_mem mate)

theorem mate_symm (node : T.IsNode n) (mate : m ∈ T.mates n) : n ∈ T.mates m := by
  have member := (T.mates_row n m node.1 node.2 mate).mem_iff.mpr (List.mem_cons_self (a := n))
  rcases List.mem_cons.mp member with rfl | member
  · exact absurd rfl (mate_other node mate)
  · exact member

theorem colsOf_mem (node : T.IsNode n) (member : d ∈ T.colsOf n) :
    d ∈ T.cols ∧ ∃ m, (m = n ∨ m ∈ T.mates n) ∧ T.IsNode m ∧ T.col m = d := by
  obtain ⟨m, inside, rfl⟩ := List.mem_map.mp member
  rcases List.mem_cons.mp inside with rfl | mate
  · exact ⟨node.1, _, .inl rfl, node, rfl⟩
  · exact ⟨(mate_node node mate).1, m, .inr mate, mate_node node mate, rfl⟩

theorem alive_col (alive : T.Alive X n) : T.col n ∉ X := alive _ (col_mem n)

theorem mate_alive (node : T.IsNode n) (mate : m ∈ T.mates n) (alive : T.Alive X n) :
    T.Alive X m := fun d member => alive d ((mate_colsOf node mate).mem_iff.mp member)

theorem mem_column (inside : d ∈ T.cols) :
    n ∈ T.column X d ↔ T.IsNode n ∧ T.col n = d ∧ T.Alive X n := by
  rw [column, List.mem_filter, decide_eq_true_iff]
  constructor
  · rintro ⟨member, alive⟩
    have here := T.nodes_col d inside n member
    exact ⟨⟨here.symm ▸ inside, here.symm ▸ member⟩, here, alive⟩
  · rintro ⟨node, rfl, alive⟩
    exact ⟨node.2, alive⟩

theorem column_nodup (X : List Nat) (d : Nat) : (T.column X d).Nodup := (T.nodes_nodup d).filter _

theorem ring_col (inside : d ∈ T.cols) {l : List Nat} (part : ∀ x ∈ l, x ∈ T.nodesOf d)
    (member : n ∈ d :: l) : T.col n = d := by
  rcases List.mem_cons.mp member with rfl | member
  · exact T.col_col n inside
  · exact T.nodes_col d inside n (part n member)

theorem ring_nodup (inside : d ∈ T.cols) {l : List Nat} (part : l.Sublist (T.nodesOf d)) :
    (d :: l).Nodup := by
  refine List.nodup_cons.mpr ⟨fun member => ?_, part.nodup (T.nodes_nodup d)⟩
  exact T.nodes_apart d inside d (part.subset member) (.tail _ inside)

theorem cut_sublist (T : Torus) (X U : List Nat) (d : Nat) :
    ((T.column X d).filter (· ∉ U)).Sublist (T.nodesOf d) :=
  List.filter_sublist.trans List.filter_sublist

theorem mem_cut (node : T.IsNode j) (alive : T.Alive X j) (linked : j ∉ U) :
    j ∈ (T.column X (T.col j)).filter (· ∉ U) :=
  List.mem_filter.mpr ⟨(mem_column node.1).mpr ⟨node, rfl, alive⟩, decide_eq_true linked⟩

theorem Cut.around (cut : T.Cut s X U) (node : T.IsNode j) (alive : T.Alive X j)
    (linked : j ∉ U) : T.col (s.down j) = T.col j ∧ T.col (s.up j) = T.col j ∧
      s.up (s.down j) = j ∧ s.down (s.up j) = j := by
  obtain ⟨below, above, back, forth⟩ := (cut _ node.1 (alive_col alive)).around
    (.tail _ (mem_cut node alive linked))
  have part : ∀ x ∈ (T.column X (T.col j)).filter (· ∉ U), x ∈ T.nodesOf (T.col j) :=
    fun _ member => (T.cut_sublist X U (T.col j)).subset member
  exact ⟨ring_col node.1 part below, ring_col node.1 part above, back, forth⟩

theorem Cut.unlink (cut : T.Cut s X U) (node : T.IsNode j) (alive : T.Alive X j)
    (linked : j ∉ U) : T.Cut (s.unlinkNode j) X (U ++ [j]) := by
  intro d inside outside
  obtain ⟨below, above, -, -⟩ := cut.around node alive linked
  have part := T.cut_sublist X U d
  rw [Nodes.unlinkNode_down, Nodes.unlinkNode_up]
  by_cases here : d = T.col j
  · subst here
    have ring := (cut _ inside outside).unlink (ring_nodup inside part) (mem_cut node alive linked)
    rw [List.filter_filter] at ring
    refine (List.filter_congr fun n _ => ?_) ▸ ring
    rw [← Bool.decide_and]
    refine decide_eq_decide.mpr ?_
    rw [List.mem_append, List.mem_singleton, not_or]
    exact and_comm
  · have other : ∀ x, T.col x = T.col j → x ∉ d :: (T.column X d).filter (· ∉ U) := fun x same member =>
      here ((ring_col inside (fun _ inner => part.subset inner) member).symm.trans same)
    have same : (T.column X d).filter (· ∉ U ++ [j]) = (T.column X d).filter (· ∉ U) := by
      refine List.filter_congr fun n member => decide_eq_decide.mpr ?_
      rw [List.mem_append, List.mem_singleton, not_or, and_iff_left_iff_imp]
      rintro - rfl
      exact here ((mem_column inside).mp member).2.1.symm
    rw [same]
    exact (cut d inside outside).update (other _ above) (other _ below)

/-! ### `cover` -/

theorem mem_gone (inside : c ∈ T.cols) : j ∈ T.gone X c ↔
    ∃ r, (T.IsNode r ∧ T.col r = c ∧ T.Alive X r) ∧ j ∈ T.mates r := by
  rw [gone, List.mem_flatMap]
  exact exists_congr fun r => and_congr_left fun _ => mem_column inside

theorem gone_node (inside : c ∈ T.cols) (member : j ∈ T.gone X c) :
    T.IsNode j ∧ T.Alive X j ∧ T.col j ≠ c := by
  obtain ⟨r, ⟨node, rfl, alive⟩, mate⟩ := (mem_gone inside).mp member
  exact ⟨mate_node node mate, mate_alive node mate alive, mate_other node mate⟩

theorem gone_nodup (inside : c ∈ T.cols) : (T.gone X c).Nodup := by
  refine List.nodup_flatMap.mpr ⟨fun r member => ?_, ?_⟩
  · have nodup := T.colsOf_nodup ((mem_column inside).mp member).1
    rw [colsOf, List.map_cons, List.nodup_cons] at nodup
    exact nodup.2.of_map
  · refine (column_nodup X c).imp_of_mem fun {r r'} member member' other => ?_
    obtain ⟨node, here, -⟩ := (mem_column inside).mp member
    obtain ⟨node', here', -⟩ := (mem_column inside).mp member'
    intro j mate mate'
    -- the row of `j` has one node in the column
    have row := (T.mates_row r j node.1 node.2 mate).mem_iff (a := r')
    have back := mate_symm node' mate'
    rcases List.mem_cons.mp (row.mp (.tail _ back)) with rfl | mate''
    · exact other rfl
    · exact mate_other node mate'' (here'.trans here.symm)

theorem filter_gone (inside : c ∈ T.cols) (here : d ∈ T.cols) (other : d ≠ c) :
    (T.column X d).filter (· ∉ T.gone X c) = T.column (c :: X) d := by
  rw [column, column, List.filter_filter]
  refine List.filter_congr fun n member => ?_
  rw [← Bool.decide_and]
  refine decide_eq_decide.mpr ?_
  have col := T.nodes_col d here n member
  have node : T.IsNode n := ⟨col.symm ▸ here, col.symm ▸ member⟩
  have gone : T.Alive X n → (n ∈ T.gone X c ↔ c ∈ T.colsOf n) := by
    intro alive
    rw [mem_gone inside]
    constructor
    · rintro ⟨r, ⟨node', rfl, -⟩, mate⟩
      exact (mate_colsOf node' mate).mem_iff.mpr (col_mem r)
    · intro member
      obtain ⟨-, m, rfl | mate, node', same⟩ := colsOf_mem node member
      · exact absurd (col.symm.trans same) other
      · exact ⟨m, ⟨node', same, mate_alive node mate alive⟩, mate_symm node mate⟩
  constructor
  · rintro ⟨linked, alive⟩ e member
    refine List.mem_cons.not.mpr (not_or.mpr ⟨?_, alive e member⟩)
    rintro rfl
    exact linked ((gone alive).mpr member)
  · intro alive
    have alive' : T.Alive X n := fun e member covered => alive e member (.tail _ covered)
    exact ⟨fun unlinked => alive c ((gone alive').mp unlinked) (.head _), alive'⟩

theorem filter_own (inside : c ∈ T.cols) {first rest : List Nat} (part : T.gone X c = first ++ rest) :
    (T.column X c).filter (· ∉ first) = T.column X c := by
  refine List.filter_eq_self.mpr fun n member => decide_eq_true fun unlinked => ?_
  have gone : n ∈ T.gone X c := part ▸ List.mem_append_left rest unlinked
  exact (gone_node inside gone).2.2 ((mem_column inside).mp member).2.1

theorem mates_away {n : Nat} (node : T.IsNode n) : n ∉ T.mates n := fun mate =>
  mate_other node mate rfl

theorem column_away (inside : c ∈ T.cols) : c ∉ T.column X c :=
  (List.nodup_cons.mp (ring_nodup inside List.filter_sublist)).1

theorem column_small (X : List Nat) (c : Nat) : (T.column X c).length < kMaxNodes :=
  Nat.lt_of_le_of_lt (List.length_filter_le _ _) (T.nodes_small c)

theorem gone_split {first rest : List Nat} {n : Nat} (whole : T.column X c = first ++ n :: rest) :
    T.gone X c = first.flatMap T.mates ++ (T.mates n ++ rest.flatMap T.mates) := by
  rw [gone, whole, List.flatMap_append, List.flatMap_cons]

section Cover
variable (shows : T.Shows s X) (inside : c ∈ T.cols) (outside : c ∉ X)
include shows inside outside

theorem head_around : s.left (s.right c) = c ∧ s.right (s.left c) = c ∧
    s.right c ∈ root :: T.cols ∧ s.left c ∈ root :: T.cols := by
  have head : c ∈ T.cols.filter (· ∉ X) := List.mem_filter.mpr ⟨inside, decide_eq_true outside⟩
  obtain ⟨after, before, back, forth⟩ := shows.heads.around (.tail _ head)
  have part : ∀ x ∈ root :: T.cols.filter (· ∉ X), x ∈ root :: T.cols := fun x member =>
    List.cons_subset_cons root (List.filter_sublist.subset) member
  exact ⟨back, forth, part _ after, part _ before⟩

omit inside outside in
theorem unlinkColumn_cut (c : Nat) : T.Cut (s.unlinkColumn c) X [] := by
  intro d inside outside
  have all : (T.column X d).filter (· ∉ []) = T.column X d :=
    List.filter_eq_self.mpr fun _ _ => rfl
  rw [all]
  exact shows.column d inside outside

omit outside in
theorem unlinkAll_cut {first rest : List Nat} (part : T.gone X c = first ++ rest) :
    T.Cut ((s.unlinkColumn c).unlinkAll first) X first := by
  induction first using List.reverseRecOn generalizing rest with
  | nil => exact unlinkColumn_cut shows c
  | append_singleton first j ih =>
    rw [List.append_assoc] at part
    have nodup := part ▸ T.gone_nodup (X := X) inside
    have member : j ∈ T.gone X c := part ▸ List.mem_append_right first List.mem_cons_self
    obtain ⟨node, alive, -⟩ := gone_node inside member
    rw [Nodes.unlinkAll_concat]
    refine (ih part).unlink node alive fun before => ?_
    exact (List.nodup_append.mp nodup).2.2 j before j List.mem_cons_self rfl

theorem unlinkAll_ring {first rest : List Nat} (part : T.gone X c = first ++ rest) :
    Ring ((s.unlinkColumn c).unlinkAll first).down ((s.unlinkColumn c).unlinkAll first).up c
      (T.column X c) := by
  have ring := unlinkAll_cut shows inside part c inside outside
  rwa [filter_own inside part] at ring

theorem unlinkAll_row (js : List Nat) {n : Nat} (node : T.IsNode n) :
    Ring ((s.unlinkColumn c).unlinkAll js).right ((s.unlinkColumn c).unlinkAll js).left n
      (T.mates n) := by
  obtain ⟨right, left, -, -⟩ := (s.unlinkColumn c).unlinkAll_rows js
  obtain ⟨-, -, after, before⟩ := head_around shows inside outside
  have apart : ∀ x ∈ root :: T.cols, x ∉ n :: T.mates n := by
    intro x head member
    have node' : T.IsNode x := by
      rcases List.mem_cons.mp member with rfl | mate
      · exact node
      · exact mate_node node mate
    exact T.nodes_apart _ node'.1 x node'.2 head
  rw [right, left, Nodes.unlinkColumn_right, Nodes.unlinkColumn_left]
  exact (shows.rows n node).update (apart _ before) (apart _ after)

theorem unlink_row (js : List Nat) {n : Nat} (node : T.IsNode n) :
    loop Nodes.right (fun s j => some (s.unlinkNode j)) n kMaxNodes
      ((s.unlinkColumn c).unlinkAll js) (((s.unlinkColumn c).unlinkAll js).right n) =
    some ((s.unlinkColumn c).unlinkAll (js ++ T.mates n)) := by
  have looped : ∃ t, loop Nodes.right (fun s j => some (s.unlinkNode j)) n kMaxNodes
      ((s.unlinkColumn c).unlinkAll js) (((s.unlinkColumn c).unlinkAll js).right n) = some t ∧
      t = (s.unlinkColumn c).unlinkAll (js ++ T.mates n) := by
    refine loop_rule (P := fun first t => t = (s.unlinkColumn c).unlinkAll (js ++ first))
      (mates_away node) (T.mates_small n) ?_ ?_ (by rw [List.append_nil])
    · rintro first rest t - rfl
      exact Path.walk (unlinkAll_row shows inside outside _ node)
    · rintro first j rest t - rfl
      exact ⟨_, rfl, by rw [← List.append_assoc, Nodes.unlinkAll_concat]⟩
  obtain ⟨t, looped, rfl⟩ := looped
  exact looped

theorem cover_eq : s.cover c = some ((s.unlinkColumn c).unlinkAll (T.gone X c)) := by
  have looped : ∃ t, s.cover c = some t ∧ t = (s.unlinkColumn c).unlinkAll (T.gone X c) := by
    refine loop_rule
      (P := fun first t => t = (s.unlinkColumn c).unlinkAll (first.flatMap T.mates))
      (column_away inside) (column_small X c) ?_ ?_ rfl
    · rintro first rest t whole rfl
      have part : T.gone X c = first.flatMap T.mates ++ rest.flatMap T.mates := by
        rw [gone, whole, List.flatMap_append]
      exact Path.walk (unlinkAll_ring shows inside outside part)
    · rintro first n rest t whole rfl
      have node := ((mem_column inside).mp (whole ▸ List.mem_append_right first List.mem_cons_self)).1
      refine ⟨_, unlink_row shows inside outside _ node, ?_⟩
      rw [List.flatMap_append, List.flatMap_singleton]
  obtain ⟨t, covered, rfl⟩ := looped
  exact covered

omit outside in
theorem relink_node {first rest : List Nat} (part : T.gone X c = first ++ j :: rest) :
    ((s.unlinkColumn c).unlinkAll (first ++ [j])).relinkNode j =
      (s.unlinkColumn c).unlinkAll first := by
  have member : j ∈ T.gone X c := part ▸ List.mem_append_right first List.mem_cons_self
  have nodup := part ▸ T.gone_nodup (X := X) inside
  obtain ⟨node, alive, -⟩ := gone_node inside member
  have linked : j ∉ first := fun before =>
    (List.nodup_append.mp nodup).2.2 j before j List.mem_cons_self rfl
  obtain ⟨-, -, back, forth⟩ := (unlinkAll_cut shows inside part).around node alive linked
  rw [Nodes.unlinkAll_concat]
  exact Nodes.relink_unlink back forth

theorem relink_row {first rest : List Nat} {n : Nat} (node : T.IsNode n)
    (part : T.gone X c = first ++ (T.mates n ++ rest)) :
    loop Nodes.left (fun s j => some (s.relinkNode j)) n kMaxNodes
      ((s.unlinkColumn c).unlinkAll (first ++ T.mates n))
      (((s.unlinkColumn c).unlinkAll (first ++ T.mates n)).left n) =
    some ((s.unlinkColumn c).unlinkAll first) := by
  have looped : ∃ t, loop Nodes.left (fun s j => some (s.relinkNode j)) n kMaxNodes
      ((s.unlinkColumn c).unlinkAll (first ++ T.mates n))
      (((s.unlinkColumn c).unlinkAll (first ++ T.mates n)).left n) = some t ∧
      ∃ js, T.mates n = js ++ (T.mates n).reverse.reverse ∧
        t = (s.unlinkColumn c).unlinkAll (first ++ js) := by
    refine loop_rule (P := fun back t => ∃ js, T.mates n = js ++ back.reverse ∧
        t = (s.unlinkColumn c).unlinkAll (first ++ js)) ?_ ?_ ?_ ?_ ⟨T.mates n, ?_, rfl⟩
    · exact fun mate => mates_away node (List.mem_reverse.mp mate)
    · exact Nat.lt_of_le_of_lt (Nat.le_of_eq List.length_reverse) (T.mates_small n)
    · rintro back more t - ⟨js, -, rfl⟩
      exact (unlinkAll_row shows inside outside _ node).reverse.walk
    · rintro back j more t whole ⟨js, mates, rfl⟩
      have mates' : T.mates n = more.reverse ++ [j] ++ back.reverse := by
        rw [← List.reverse_reverse (T.mates n), whole, List.reverse_append, List.reverse_cons]
      have same := List.append_cancel_right (mates.symm.trans mates')
      have part' : T.gone X c = first ++ more.reverse ++ j :: (back.reverse ++ rest) := by
        rw [part, mates']
        simp only [List.append_assoc, List.cons_append, List.nil_append]
      have relinked := relink_node shows inside part'
      rw [List.append_assoc, ← same] at relinked
      refine ⟨_, congrArg some relinked, more.reverse, ?_, rfl⟩
      rw [mates', List.reverse_concat, List.append_assoc]
      rfl
    · rw [List.reverse_nil, List.append_nil]
  obtain ⟨t, looped, js, mates, rfl⟩ := looped
  rw [List.reverse_reverse] at mates
  have nil : js = [] := List.append_left_eq_self.mp mates.symm
  rwa [nil, List.append_nil] at looped

theorem uncover_eq : ((s.unlinkColumn c).unlinkAll (T.gone X c)).uncover c = some s := by
  have looped : ∃ t, loop Nodes.up (fun s row =>
      loop Nodes.left (fun s j => some (s.relinkNode j)) row kMaxNodes s (s.left row)) c kMaxNodes
      ((s.unlinkColumn c).unlinkAll (T.gone X c))
      (((s.unlinkColumn c).unlinkAll (T.gone X c)).up c) = some t ∧
      ∃ rows, T.column X c = rows ++ (T.column X c).reverse.reverse ∧
        t = (s.unlinkColumn c).unlinkAll (rows.flatMap T.mates) := by
    refine loop_rule (P := fun back t => ∃ rows, T.column X c = rows ++ back.reverse ∧
        t = (s.unlinkColumn c).unlinkAll (rows.flatMap T.mates)) ?_ ?_ ?_ ?_
      ⟨T.column X c, ?_, rfl⟩
    · exact fun member => column_away inside (List.mem_reverse.mp member)
    · exact Nat.lt_of_le_of_lt (Nat.le_of_eq List.length_reverse) (column_small X c)
    · rintro back more t - ⟨rows, whole, rfl⟩
      have part : T.gone X c = rows.flatMap T.mates ++ back.reverse.flatMap T.mates := by
        rw [gone, whole, List.flatMap_append]
      exact (unlinkAll_ring shows inside outside part).reverse.walk
    · rintro back n more t whole ⟨rows, column, rfl⟩
      have column' : T.column X c = more.reverse ++ n :: back.reverse := by
        rw [← List.reverse_reverse (T.column X c), whole, List.reverse_append, List.reverse_cons,
          List.append_assoc]
        rfl
      have same : rows = more.reverse ++ [n] := by
        refine List.append_cancel_right (column.symm.trans (column'.trans ?_))
        rw [List.append_assoc]
        rfl
      have node := ((mem_column inside).mp
        (column' ▸ List.mem_append_right more.reverse List.mem_cons_self)).1
      have relinked := relink_row shows inside outside node (gone_split column')
      refine ⟨(s.unlinkColumn c).unlinkAll (more.reverse.flatMap T.mates), ?_, more.reverse, ?_, rfl⟩
      · rw [same, List.flatMap_append, List.flatMap_singleton]
        exact relinked
      · rw [column', List.reverse_concat]
    · rw [List.reverse_nil, List.append_nil]
  obtain ⟨t, looped, rows, column, rfl⟩ := looped
  rw [List.reverse_reverse] at column
  have nil : rows = [] := List.append_left_eq_self.mp column.symm
  rw [nil] at looped
  obtain ⟨back, forth, -, -⟩ := head_around shows inside outside
  rw [Nodes.uncover, looped, Option.map_some]
  exact congrArg some (Nodes.relink_unlinkColumn back forth)

theorem cover_spec : ∃ t, s.cover c = some t ∧ T.Shows t (c :: X) ∧
    Ring t.down t.up c (T.column X c) ∧ t.uncover c = some s := by
  obtain ⟨right, left, col, name⟩ := (s.unlinkColumn c).unlinkAll_rows (T.gone X c)
  have all : T.gone X c = T.gone X c ++ [] := (List.append_nil _).symm
  refine ⟨_, cover_eq shows inside outside, ⟨?_, ?_, ?_, ?_, ?_⟩,
    unlinkAll_ring shows inside outside all, uncover_eq shows inside outside⟩
  · have nodup : (root :: T.cols.filter (· ∉ X)).Nodup :=
      T.cols_nodup.sublist (List.filter_sublist.cons_cons root)
    have head : c ∈ T.cols.filter (· ∉ X) := List.mem_filter.mpr ⟨inside, decide_eq_true outside⟩
    have ring := shows.heads.unlink nodup head
    rw [right, left, Nodes.unlinkColumn_right, Nodes.unlinkColumn_left]
    rw [List.filter_filter] at ring
    refine (List.filter_congr fun d _ => ?_) ▸ ring
    rw [← Bool.decide_and]
    refine decide_eq_decide.mpr ?_
    rw [List.mem_cons, not_or]
  · intro d here other
    have ring := unlinkAll_cut shows inside all d here fun covered => other (.tail _ covered)
    rwa [filter_gone inside here fun same => other (same ▸ .head _)] at ring
  · exact fun n node => unlinkAll_row shows inside outside _ node
  · exact col.trans shows.col
  · exact name.trans shows.name

end Cover

/-! ### `coverRow` -/

/-- The columns `cs` are covered one after the other. -/
def coverAll (s : Nodes) (cs : List Nat) : Option Nodes := cs.foldlM Nodes.cover s

theorem coverAll_concat (s : Nodes) (cs : List Nat) (c : Nat) :
    coverAll s (cs ++ [c]) = (coverAll s cs).bind fun t => t.cover c := by
  rw [coverAll, List.foldlM_append, coverAll]
  exact bind_congr fun t => bind_pure _

theorem coverAll_spec {cs : List Nat} (shows : T.Shows s X) (nodup : cs.Nodup)
    (inside : ∀ c ∈ cs, c ∈ T.cols ∧ c ∉ X) :
    ∃ t, coverAll s cs = some t ∧ T.Shows t (cs.reverse ++ X) := by
  induction cs generalizing s X with
  | nil => exact ⟨s, rfl, shows⟩
  | cons c cs ih =>
    obtain ⟨here, outside⟩ := inside c (.head _)
    obtain ⟨fresh, nodup⟩ := List.nodup_cons.mp nodup
    obtain ⟨t, covered, shows', -, -⟩ := cover_spec shows here outside
    obtain ⟨u, all, shows''⟩ := ih shows' nodup fun d member => by
      obtain ⟨there, other⟩ := inside d (.tail _ member)
      refine ⟨there, List.mem_cons.not.mpr (not_or.mpr ⟨?_, other⟩)⟩
      rintro rfl
      exact fresh member
    refine ⟨u, ?_, ?_⟩
    · rw [coverAll, List.foldlM_cons, covered]
      exact all
    · rwa [List.reverse_cons, List.append_assoc]

section CoverRow
variable (shows : T.Shows s X) (node : T.IsNode n) (free : ∀ m ∈ T.mates n, T.col m ∉ X)
include shows node free

theorem coverAll_mates {first rest : List Nat} (mates : T.mates n = first ++ rest) :
    ∃ t, coverAll s (first.map T.col) = some t ∧ T.Shows t ((first.map T.col).reverse ++ X) := by
  have nodup := T.colsOf_nodup node
  rw [colsOf, List.map_cons, List.nodup_cons, mates, List.map_append] at nodup
  refine coverAll_spec shows (List.nodup_append.mp nodup.2).1 fun c member => ?_
  obtain ⟨m, inside, rfl⟩ := List.mem_map.mp member
  have mate : m ∈ T.mates n := mates ▸ List.mem_append_left rest inside
  exact ⟨(mate_node node mate).1, free m mate⟩

theorem coverRow_eq : s.coverRow n = coverAll s ((T.mates n).map T.col) := by
  have looped : ∃ t, s.coverRow n = some t ∧ coverAll s ((T.mates n).map T.col) = some t := by
    refine loop_rule (P := fun first t => coverAll s (first.map T.col) = some t) (mates_away node)
      (T.mates_small n) ?_ ?_ rfl
    · intro first rest t mates covered
      obtain ⟨t', covered', shows'⟩ := coverAll_mates shows node free mates
      cases covered.symm.trans covered'
      exact (shows'.rows n node).walk
    · intro first m rest t mates covered
      have mates' : T.mates n = first ++ [m] ++ rest := by rw [mates, List.append_assoc]; rfl
      obtain ⟨t₁, covered₁, shows₁⟩ := coverAll_mates shows node free mates
      obtain ⟨t₂, covered₂, -⟩ := coverAll_mates shows node free mates'
      cases covered.symm.trans covered₁
      refine ⟨t₂, ?_, covered₂⟩
      rw [List.map_append, List.map_singleton, coverAll_concat, covered, Option.bind_some] at covered₂
      rw [shows₁.col]
      exact covered₂
  obtain ⟨t, looped, covered⟩ := looped
  exact looped.trans covered.symm

theorem uncoverRow_eq {t : Nodes} (covered : coverAll s ((T.mates n).map T.col) = some t) :
    t.uncoverRow n = some s := by
  have looped : ∃ u, t.uncoverRow n = some u ∧ ∃ first, T.mates n = first ++
      (T.mates n).reverse.reverse ∧ coverAll s (first.map T.col) = some u := by
    refine loop_rule (P := fun back u => ∃ first, T.mates n = first ++ back.reverse ∧
      coverAll s (first.map T.col) = some u) ?_ ?_ ?_ ?_ ⟨T.mates n, ?_, covered⟩
    · exact fun mate => mates_away node (List.mem_reverse.mp mate)
    · exact Nat.lt_of_le_of_lt (Nat.le_of_eq List.length_reverse) (T.mates_small n)
    · rintro back more u - ⟨first, mates, covered⟩
      obtain ⟨u', covered', shows'⟩ := coverAll_mates shows node free mates
      cases covered.symm.trans covered'
      exact (shows'.rows n node).reverse.walk
    · rintro back m more u whole ⟨first, mates, covered⟩
      have mates' : T.mates n = more.reverse ++ m :: back.reverse := by
        rw [← List.reverse_reverse (T.mates n), whole, List.reverse_append, List.reverse_cons,
          List.append_assoc]
        rfl
      have same : first = more.reverse ++ [m] := by
        refine List.append_cancel_right (mates.symm.trans (mates'.trans ?_))
        rw [List.append_assoc]
        rfl
      have mate : m ∈ T.mates n := mates' ▸ List.mem_append_right more.reverse List.mem_cons_self
      obtain ⟨v, before, shows'⟩ := coverAll_mates shows node free mates'
      have outside : T.col m ∉ (more.reverse.map T.col).reverse ++ X := by
        have nodup := T.colsOf_nodup node
        rw [colsOf, List.map_cons, List.nodup_cons, mates', List.map_append, List.map_cons] at nodup
        rw [List.mem_append, List.mem_reverse, not_or]
        exact ⟨fun earlier => (List.nodup_append.mp nodup.2).2.2 _ earlier _ List.mem_cons_self rfl,
          free m mate⟩
      obtain ⟨u', next, shows'', -, back'⟩ := cover_spec shows' (mate_node node mate).1 outside
      rw [same, List.map_append, List.map_singleton, coverAll_concat, before, Option.bind_some] at covered
      cases covered.symm.trans next
      refine ⟨v, ?_, more.reverse, ?_, before⟩
      · rw [shows''.col]
        exact back'
      · rw [mates', List.reverse_concat]
    · rw [List.reverse_nil, List.append_nil]
  obtain ⟨u, looped, first, mates, covered'⟩ := looped
  rw [List.reverse_reverse] at mates
  have nil : first = [] := List.append_left_eq_self.mp mates.symm
  rw [nil] at covered'
  cases covered'
  exact looped

theorem coverRow_spec : ∃ t, s.coverRow n = some t ∧
    T.Shows t (((T.mates n).map T.col).reverse ++ X) ∧ t.uncoverRow n = some s := by
  obtain ⟨t, covered, shows'⟩ := coverAll_mates shows node free (List.append_nil (T.mates n)).symm
  exact ⟨t, (coverRow_eq shows node free).trans covered, shows',
    uncoverRow_eq shows node free covered⟩

end CoverRow

end Torus

end ProjectsCpp.Sudoku
