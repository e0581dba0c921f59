import ProjectsCpp.Lib.ExactCover
import ProjectsCpp.Sudoku.Links

/-! `solve` finds an exact cover of the columns that are left, or there is none and everything is as
it was. -/

namespace ProjectsCpp.Sudoku
open ProjectsCpp.Rings ProjectsCpp.ExactCover

namespace Torus
variable (T : Torus)

/-- The nodes stand for rows that cover the columns outside `X`. -/
structure Covers (X sel : List Nat) : Prop where
  nodes : ∀ n ∈ sel, T.IsNode n
  exact : Exact T.colsOf (T.cols.filter (· ∉ X)) sel

def chosen (X : List Nat) (m : Nat) : List Nat :=
  ((T.mates m).map T.col).reverse ++ T.col m :: X

def Answers (s : SudokuSolver) (X : List Nat) (result : Option (Bool × SudokuSolver)) : Prop :=
  (result = some (false, s) ∧ ∀ sel, ¬ T.Covers X sel) ∨
  ∃ (t : SudokuSolver) (Y sel : List Nat), T.Covers X sel ∧ T.Shows t.nodes Y ∧ t.stack = s.stack ++ sel ∧ t.inout = s.inout ∧
    result = t.fillBoard.map fun t => (true, t)

variable {T} {s : SudokuSolver} {X sel : List Nat} {c m : Nat}

theorem left_nodup (T : Torus) (X : List Nat) : (T.cols.filter (· ∉ X)).Nodup :=
  (List.nodup_cons.mp T.cols_nodup).2.filter _

theorem mem_left : c ∈ T.cols.filter (· ∉ X) ↔ c ∈ T.cols ∧ c ∉ X := by
  rw [List.mem_filter, decide_eq_true_iff]

theorem mem_chosen : c ∈ T.chosen X m ↔ c ∈ T.colsOf m ∨ c ∈ X := by
  rw [chosen, colsOf, List.map_cons, List.mem_append, List.mem_reverse, List.mem_cons, List.mem_cons]
  tauto

theorem filter_chosen (X : List Nat) (m : Nat) :
    (T.cols.filter (· ∉ X)).filter (· ∉ T.colsOf m) = T.cols.filter (· ∉ T.chosen X m) := by
  rw [List.filter_filter]
  refine List.filter_congr fun d _ => ?_
  rw [← Bool.decide_and]
  refine decide_eq_decide.mpr ?_
  rw [mem_chosen, not_or]

theorem row_left (node : T.IsNode m) (alive : T.Alive X m) :
    T.colsOf m ⊆ T.cols.filter (· ∉ X) := fun d member =>
  mem_left.mpr ⟨(colsOf_mem node member).1, alive d member⟩

/-! ### Choosing a row -/

theorem Covers.cons (covers : T.Covers (T.chosen X m) sel) (node : T.IsNode m)
    (alive : T.Alive X m) : T.Covers X (m :: sel) where
  nodes := List.forall_mem_cons.mpr ⟨node, covers.nodes⟩
  exact := by
    have exact := covers.exact
    rw [← filter_chosen] at exact
    exact exact.cons (T.left_nodup X) (T.colsOf_nodup node) (row_left node alive)

theorem Covers.branch (covers : T.Covers X sel) (inside : c ∈ T.cols) (outside : c ∉ X) :
    ∃ m ∈ T.column X c, ∃ sel', T.Covers (T.chosen X m) sel' := by
  obtain ⟨n, member, here, subset, rest⟩ := covers.exact.branch (T.left_nodup X)
    (mem_left.mpr ⟨inside, outside⟩)
  have node := covers.nodes n member
  have alive : T.Alive X n := fun d row => (mem_left.mp (subset row)).2
  obtain ⟨-, m, which, node', rfl⟩ := colsOf_mem node here
  have same : (T.colsOf m).Perm (T.colsOf n) ∧ T.Alive X m := by
    rcases which with rfl | mate
    · exact ⟨List.Perm.refl _, alive⟩
    · exact ⟨mate_colsOf node mate, mate_alive node mate alive⟩
  refine ⟨m, (mem_column inside).mpr ⟨node', rfl, same.2⟩, sel.erase n,
    fun n' member' => covers.nodes n' (List.mem_of_mem_erase member'), ?_⟩
  have others : ∀ d, (d ∉ T.colsOf n) = (d ∉ T.colsOf m) := fun d =>
    propext (not_congr same.1.mem_iff.symm)
  rw [← filter_chosen]
  simp only [others] at rest
  exact rest

theorem chosen_less (node : T.IsNode m) (alive : T.Alive X m) :
    (T.cols.filter (· ∉ T.chosen X m)).length < (T.cols.filter (· ∉ X)).length := by
  have split := perm_split (T.left_nodup X) (T.colsOf_nodup node) (row_left node alive)
  rw [split.length_eq, List.length_append, filter_chosen, colsOf, List.length_map, List.length_cons]
  omega

/-! ### `get_min_column` -/

theorem minColumnFrom_spec {s : Nodes} {heads l : List Nat} {c cc fuel : Nat} {minSize : Int}
    (walk : Walk s.right cc l root) (away : root ∉ l) (subset : l ⊆ heads) (here : c ∈ heads)
    (enough : l.length < fuel) :
    ∃ c' ∈ heads, s.minColumnFrom fuel c minSize (s.right cc) = some c' := by
  induction l generalizing cc c fuel minSize with
  | nil =>
    obtain ⟨fuel, rfl⟩ := Nat.exists_eq_succ_of_ne_zero (Nat.ne_of_gt enough)
    exact ⟨c, here, if_pos walk⟩
  | cons x l ih =>
    obtain ⟨fuel, rfl⟩ := Nat.exists_eq_succ_of_ne_zero (Nat.ne_of_gt (Nat.lt_of_le_of_lt
      (Nat.zero_le _) enough))
    obtain ⟨first, rest⟩ := walk
    have other : x ≠ root := fun same => away (same ▸ .head _)
    have away' : root ∉ l := fun member => away (.tail _ member)
    have subset' : l ⊆ heads := fun y member => subset (.tail _ member)
    have head : x ∈ heads := subset (.head _)
    have enough' := Nat.lt_of_succ_lt_succ enough
    rw [first, Nodes.minColumnFrom, if_neg other]
    split_ifs
    · exact ⟨x, head, rfl⟩
    · exact ih rest away' subset' head enough'
    · exact ih rest away' subset' here enough'

theorem getMinColumn_spec {s : Nodes} (shows : T.Shows s X) (some_ : T.cols.filter (· ∉ X) ≠ []) :
    ∃ c, s.getMinColumn = some c ∧ c ∈ T.cols ∧ c ∉ X := by
  obtain ⟨h, l, heads⟩ := List.exists_cons_of_ne_nil some_
  have walk := shows.heads.walk
  rw [heads] at walk
  obtain ⟨first, rest⟩ := walk
  have head : h ∈ h :: l := .head _
  have away : root ∉ l := by
    intro member
    have inside : root ∈ T.cols.filter (· ∉ X) := heads ▸ .tail _ member
    exact (List.nodup_cons.mp T.cols_nodup).1 (mem_left.mp inside).1
  have small : l.length < kMaxNodes := by
    have le : (h :: l).length ≤ T.cols.length := heads ▸ List.length_filter_le _ _
    exact Nat.lt_of_lt_of_le (Nat.lt_succ_self _) (Nat.le_of_lt (Nat.lt_of_le_of_lt le T.cols_small))
  obtain ⟨c, member, found⟩ : ∃ c ∈ h :: l, s.getMinColumn = some c := by
    rw [Nodes.getMinColumn, first]
    split_ifs
    · exact minColumnFrom_spec rest away (fun y member => .tail _ member) head small
    · exact ⟨h, head, rfl⟩
  exact ⟨c, found, mem_left.mp (heads ▸ member)⟩

/-! ### `solve` -/

theorem push_pop (s : SudokuSolver) (row : Nat) : (s.push row).pop = s := by
  rw [SudokuSolver.push, SudokuSolver.pop]
  dsimp only
  rw [List.dropLast_concat]

theorem tryRows_answers {solve : SudokuSolver → Option (Bool × SudokuSolver)} {nodes : Nodes}
    {first rest : List Nat} {fuel : Nat}
    (answers : ∀ m u, m ∈ T.column X c → T.Shows u.nodes (T.chosen X m) →
      T.Answers u (T.chosen X m) (solve u))
    (inside : c ∈ T.cols) (outside : c ∉ X) (shows : T.Shows nodes (c :: X))
    (ring : Ring nodes.down nodes.up c (T.column X c)) (back : nodes.uncover c = some s.nodes)
    (column : T.column X c = first ++ rest)
    (tried : ∀ m ∈ first, ∀ sel, ¬ T.Covers (T.chosen X m) sel) (enough : rest.length < fuel) :
    T.Answers s X (SudokuSolver.tryRows solve c fuel (s.withNodes nodes) (rest.headD c)) := by
  induction rest generalizing first fuel with
  | nil =>
    obtain ⟨fuel, rfl⟩ := Nat.exists_eq_succ_of_ne_zero (Nat.ne_of_gt enough)
    refine .inl ⟨?_, fun sel covers => ?_⟩
    · rw [List.headD_nil, SudokuSolver.tryRows, if_pos rfl]
      change (nodes.uncover c).map _ = _
      rw [back]
      rfl
    · obtain ⟨m, member, sel', covers'⟩ := covers.branch inside outside
      rw [column, List.append_nil] at member
      exact tried m member sel' covers'
  | cons m rest ih =>
    obtain ⟨fuel, rfl⟩ := Nat.exists_eq_succ_of_ne_zero (Nat.ne_of_gt (Nat.lt_of_le_of_lt
      (Nat.zero_le _) enough))
    have member : m ∈ T.column X c := column ▸ List.mem_append_right first List.mem_cons_self
    obtain ⟨node, rfl, alive⟩ := (mem_column inside).mp member
    have other : m ≠ T.col m := fun same => column_away (X := X) inside (same ▸ member)
    have free : ∀ j ∈ T.mates m, T.col j ∉ T.col m :: X := fun j mate =>
      List.mem_cons.not.mpr (not_or.mpr ⟨mate_other node mate, alive _ (mate_col mate)⟩)
    obtain ⟨nodes', covered, shows', back'⟩ := coverRow_spec shows node free
    have further : nodes.down m = rest.headD (T.col m) := (column ▸ ring.walk).second
    rw [List.headD_cons, SudokuSolver.tryRows, if_neg other]
    change T.Answers s X ((nodes.coverRow m).bind _)
    rw [covered, Option.bind_some]
    rcases answers m (((s.withNodes nodes).push m).withNodes nodes') member shows' with
      ⟨failed, none_⟩ | ⟨t, Y, sel, covers, shown, stack, inout, solved⟩
    · rw [failed, Option.bind_some]
      dsimp only
      rw [if_neg Bool.false_ne_true]
      change T.Answers s X ((nodes'.uncoverRow m).bind _)
      rw [back', Option.bind_some, further]
      have same : (((s.withNodes nodes).push m).withNodes nodes').pop.withNodes nodes =
          s.withNodes nodes := by
        change ((s.push m).pop).withNodes nodes = _
        rw [push_pop]
      rw [same]
      have column' : T.column X (T.col m) = first ++ [m] ++ rest := by
        rw [column, List.append_assoc]
        rfl
      refine ih column' (fun n earlier => ?_) (Nat.lt_of_succ_lt_succ enough)
      rcases List.mem_append.mp earlier with earlier | now
      · exact tried n earlier
      · rw [List.mem_singleton.mp now]
        exact none_
    · refine .inr ⟨t, Y, m :: sel, covers.cons node alive, shown, ?_, inout, ?_⟩
      · rw [stack]
        exact List.append_assoc ..
      · rw [solved]
        cases t.fillBoard <;> rfl

theorem solve_answers {depth : Nat} (shows : T.Shows s.nodes X)
    (deep : (T.cols.filter (· ∉ X)).length < depth) : T.Answers s X (s.solve depth) := by
  induction depth generalizing s X with
  | zero => exact absurd deep (Nat.not_lt_zero _)
  | succ depth ih =>
    rw [SudokuSolver.solve]
    by_cases none_ : T.cols.filter (· ∉ X) = []
    · have heads := shows.heads
      rw [none_] at heads
      rw [if_pos heads.2]
      refine .inr ⟨s, X, [], ⟨nofun, ?_⟩, shows, (List.append_nil _).symm, rfl, rfl⟩
      rw [none_]
      exact List.Perm.nil
    · have some_ : s.nodes.left root ≠ root := by
        intro same
        have last := shows.heads.reverse.walk.first
        obtain ⟨h, l, heads⟩ := List.exists_cons_of_ne_nil (List.reverse_ne_nil_iff.mpr none_)
        rw [same, heads, List.headD_cons] at last
        have inside : root ∈ T.cols.filter (· ∉ X) :=
          List.mem_reverse.mp (heads ▸ last ▸ List.mem_cons_self)
        exact (List.nodup_cons.mp T.cols_nodup).1 (mem_left.mp inside).1
      obtain ⟨c, chosen, inside, outside⟩ := getMinColumn_spec shows none_
      obtain ⟨nodes, covered, shows', ring, back⟩ := cover_spec shows inside outside
      rw [if_neg some_, chosen, Option.bind_some, covered, Option.bind_some, ring.walk.first]
      refine tryRows_answers ?_ inside outside shows' ring back (List.nil_append _).symm nofun
        (column_small X c)
      intro m u member shown
      obtain ⟨node, rfl, alive⟩ := (mem_column inside).mp member
      exact ih shown (Nat.lt_of_lt_of_le (chosen_less node alive) (Nat.le_of_lt_succ deep))

end Torus

/-! ### Every call of `solve` -/

namespace SudokuSolver

theorem tryRows_mono {solve solve' : SudokuSolver → Option (Bool × SudokuSolver)} {col fuel row : Nat}
    {s : SudokuSolver} {result : Bool × SudokuSolver}
    (more : ∀ s result, solve s = some result → solve' s = some result)
    (done : tryRows solve col fuel s row = some result) :
    tryRows solve' col fuel s row = some result := by
  induction fuel generalizing s row with
  | zero => cases done
  | succ fuel ih =>
    rw [tryRows] at done ⊢
    by_cases last : row = col
    · rwa [if_pos last] at done ⊢
    rw [if_neg last] at done ⊢
    obtain ⟨nodes, covered, done⟩ := Option.bind_eq_some_iff.mp done
    obtain ⟨⟨solved, t⟩, answer, done⟩ := Option.bind_eq_some_iff.mp done
    refine Option.bind_eq_some_iff.mpr ⟨nodes, covered, Option.bind_eq_some_iff.mpr
      ⟨(solved, t), more _ _ answer, ?_⟩⟩
    cases solved with
    | true => exact done
    | false =>
      obtain ⟨nodes', back, done⟩ := Option.bind_eq_some_iff.mp done
      exact Option.bind_eq_some_iff.mpr ⟨nodes', back, ih done⟩

theorem solve_mono {depth depth' : Nat} {s : SudokuSolver} {result : Bool × SudokuSolver}
    (le : depth ≤ depth') (done : s.solve depth = some result) : s.solve depth' = some result := by
  induction depth generalizing depth' s result with
  | zero => cases done
  | succ depth ih =>
    obtain ⟨depth', rfl⟩ := Nat.exists_eq_succ_of_ne_zero (Nat.ne_of_gt (Nat.lt_of_lt_of_le
      (Nat.succ_pos depth) le))
    rw [solve] at done ⊢
    by_cases empty : s.nodes.left root = root
    · rwa [if_pos empty] at done ⊢
    rw [if_neg empty] at done ⊢
    obtain ⟨col, chosen, done⟩ := Option.bind_eq_some_iff.mp done
    obtain ⟨nodes, covered, done⟩ := Option.bind_eq_some_iff.mp done
    exact Option.bind_eq_some_iff.mpr ⟨col, chosen, Option.bind_eq_some_iff.mpr ⟨nodes, covered,
      tryRows_mono (fun _ _ answer => ih (Nat.le_of_succ_le_succ le) answer) done⟩⟩

/-- A call of `solve`, or its loop along the rows of `col` at `row`. -/
inductive Place where
  | call
  | loop (col row : Nat)

/-- What a call of `solve` on `s` comes to. -/
inductive Reaches (s : SudokuSolver) : Place → SudokuSolver → Prop
  | first : Reaches s .call s
  | enter {t : SudokuSolver} {col : Nat} {nodes : Nodes} : Reaches s .call t →
    t.nodes.left root ≠ root → t.nodes.getMinColumn = some col → t.nodes.cover col = some nodes →
    Reaches s (.loop col (nodes.down col)) (t.withNodes nodes)
  | deeper {t : SudokuSolver} {col row : Nat} {nodes : Nodes} : Reaches s (.loop col row) t →
    row ≠ col → t.nodes.coverRow row = some nodes → Reaches s .call ((t.push row).withNodes nodes)
  | again {t u : SudokuSolver} {col row depth : Nat} {nodes nodes' : Nodes} :
    Reaches s (.loop col row) t → row ≠ col → t.nodes.coverRow row = some nodes →
    ((t.push row).withNodes nodes).solve depth = some (false, u) →
    u.nodes.uncoverRow row = some nodes' →
    Reaches s (.loop col (nodes'.down row)) (u.pop.withNodes nodes')

end SudokuSolver

namespace Torus
variable {T : Torus} {s t : SudokuSolver} {place : SudokuSolver.Place}

theorem solve_failed {X : List Nat} {depth : Nat} {u : SudokuSolver} (shows : T.Shows s.nodes X)
    (failed : s.solve depth = some (false, u)) : u = s := by
  have answers : T.Answers s X (s.solve (depth + ((T.cols.filter (· ∉ X)).length + 1))) :=
    solve_answers shows (by omega)
  have failed' := SudokuSolver.solve_mono
    (Nat.le_add_right depth ((T.cols.filter (· ∉ X)).length + 1)) failed
  rcases answers with ⟨failed'', -⟩ | ⟨t, -, -, -, -, -, -, solved⟩
  · cases failed'.symm.trans failed''
    rfl
  · obtain ⟨_, -, same⟩ := Option.map_eq_some_iff.mp (solved.symm.trans failed')
    cases same

def At (T : Torus) (s : SudokuSolver) : SudokuSolver.Place → Prop
  | .call => ∃ X, T.Shows s.nodes X
  | .loop col row => ∃ X first rest, col ∈ T.cols ∧ col ∉ X ∧ T.Shows s.nodes (col :: X) ∧
    Ring s.nodes.down s.nodes.up col (T.column X col) ∧ T.column X col = first ++ rest ∧
    row = rest.headD col

theorem reaches_at {X : List Nat} (shows : T.Shows s.nodes X) (reached : s.Reaches place t) :
    T.At t place := by
  -- the row of the loop may be pushed
  have pushed : ∀ {t col row nodes}, T.At t (.loop col row) → row ≠ col →
      t.nodes.coverRow row = some nodes → (∃ Y, T.Shows nodes Y) ∧
        nodes.uncoverRow row = some t.nodes ∧ T.At t (.loop col (t.nodes.down row)) := by
    rintro t col row nodes ⟨X, first, rest, inside, outside, shows, ring, column, rfl⟩ other covered
    cases rest with
    | nil => exact absurd rfl other
    | cons m rest =>
      have member : m ∈ T.column X col := column ▸ List.mem_append_right first List.mem_cons_self
      obtain ⟨node, rfl, alive⟩ := (mem_column inside).mp member
      obtain ⟨nodes', covered', shows', back⟩ := coverRow_spec shows node fun j mate =>
        List.mem_cons.not.mpr (not_or.mpr ⟨mate_other node mate, alive _ (mate_col mate)⟩)
      cases covered.symm.trans covered'
      have column' : T.column X (T.col m) = first ++ [m] ++ rest := by
        rw [column, List.append_assoc]
        rfl
      exact ⟨⟨_, shows'⟩, back, X, first ++ [m], rest, inside, outside, shows, ring, column',
        (column ▸ ring.walk).second⟩
  induction reached with
  | first => exact ⟨X, shows⟩
  | @enter t col nodes _ more chosen covered ih =>
    obtain ⟨X, shows⟩ := ih
    have some_ : T.cols.filter (· ∉ X) ≠ [] := by
      intro none_
      have heads := shows.heads
      rw [none_] at heads
      exact more heads.2
    obtain ⟨c, chosen', inside, outside⟩ := getMinColumn_spec shows some_
    cases chosen.symm.trans chosen'
    obtain ⟨nodes', covered', shows', ring, -⟩ := cover_spec shows inside outside
    cases covered.symm.trans covered'
    exact ⟨X, [], T.column X col, inside, outside, shows', ring, rfl, ring.walk.first⟩
  | deeper _ other covered ih => exact (pushed ih other covered).1
  | @again t u col row depth nodes nodes' _ other covered failed back ih =>
    obtain ⟨⟨Y, shows'⟩, back', here⟩ := pushed ih other covered
    cases solve_failed shows' failed
    cases back.symm.trans back'
    have same : ((t.push row).withNodes nodes).pop.withNodes t.nodes = t := push_pop t row
    rwa [same]

end Torus

end ProjectsCpp.Sudoku
