import ProjectsCpp.Sudoku.Links
import Mathlib.Data.List.Flatten

/-! What the constructor of the solver links. -/

namespace ProjectsCpp.Sudoku
open ProjectsCpp.Rings

/-! ### Writes to the links -/

namespace Nodes
variable {s : Nodes} {c n old : Nat} {l : List Nat}

theorem putLeft_right (s : Nodes) {old nnew : Nat} (other : old ≠ nnew) : (s.putLeft old nnew).right =
    Function.update (Function.update s.right nnew old) (s.left old) nnew := by
  change Function.update (Function.update s.right nnew old)
    (Function.update s.left nnew (s.left old) old) nnew = _
  rw [Function.update_of_ne other]

theorem putLeft_left (s : Nodes) (old nnew : Nat) : (s.putLeft old nnew).left =
    Function.update (Function.update s.left nnew (s.left old)) old nnew := rfl

theorem putUp_up (s : Nodes) (old nnew : Nat) : (s.putUp old nnew).up =
    Function.update (Function.update s.up nnew (s.up old)) old nnew := rfl

theorem putUp_down (s : Nodes) {old nnew : Nat} (other : old ≠ nnew) : (s.putUp old nnew).down =
    Function.update (Function.update s.down nnew old) (s.up old) nnew := by
  change Function.update (Function.update s.down nnew old)
    (Function.update s.up nnew (s.up old) old) nnew = _
  rw [Function.update_of_ne other]

end Nodes

/-! ### Rings and writes -/

variable {next prev : Nat → Nat} {c d j n : Nat} {l : List Nat}

theorem ring_put_other (ring : Ring next prev d l) (new : n ∉ d :: l) (old : c ∉ d :: l)
    (last : prev c ∉ d :: l) :
    Ring (Function.update (Function.update next n c) (prev c) n)
      (Function.update (Function.update prev n (prev c)) c n) d l :=
  (ring.update new new).update last old

theorem ring_fresh (ring : Ring next prev d l) (new : n ∉ d :: l) :
    Ring (Function.update next n n) (Function.update prev n n) d l := ring.update new new

theorem ring_alone (next prev : Nat → Nat) (n : Nat) :
    Ring (Function.update next n n) (Function.update prev n n) n [] :=
  ⟨Function.update_self .., Function.update_self ..⟩

/-! ### Columns -/

/-- The columns and the nodes under them that have been made. -/
structure Placed (s : SudokuSolver) (cols nodes : List Nat) : Prop where
  heads : Ring s.nodes.right s.nodes.left root cols
  columns : ∀ d ∈ cols, Ring s.nodes.down s.nodes.up d (nodes.filter (s.nodes.col · = d))
  distinct : (root :: (cols ++ nodes)).Nodup
  below : ∀ n ∈ root :: (cols ++ nodes), n < s.curNode
  count : s.curNode = 1 + cols.length + nodes.length
  own : ∀ d ∈ cols, s.nodes.col d = d
  under : ∀ n ∈ nodes, s.nodes.col n ∈ cols
  named : ∀ n ∈ nodes, s.nodes.name (s.nodes.col n) = s.nodes.name n
  table : ∀ name c, s.columns name = some c ↔ c ∈ cols ∧ s.nodes.name c = name

namespace Placed
variable {s : SudokuSolver} {cols nodes : List Nat} {name : Nat}

theorem fresh (placed : Placed s cols nodes) : s.curNode ∉ root :: (cols ++ nodes) := fun member =>
  Nat.lt_irrefl _ (placed.below _ member)

theorem ring_nodes (placed : Placed s cols nodes) {d : Nat} (inside : d ∈ cols) :
    ∀ x ∈ d :: nodes.filter (s.nodes.col · = d), x ∈ cols ++ nodes ∧ s.nodes.col x = d := by
  intro x member
  rcases List.mem_cons.mp member with rfl | member
  · exact ⟨List.mem_append_left _ inside, placed.own x inside⟩
  · obtain ⟨member, same⟩ := List.mem_filter.mp member
    exact ⟨List.mem_append_right _ member, of_decide_eq_true same⟩

theorem apart (placed : Placed s cols nodes) {x : Nat} (made : x ∈ root :: (cols ++ nodes)) :
    x ≠ s.curNode := fun same => placed.fresh (same ▸ made)

theorem head_made {x : Nat} (head : x ∈ root :: cols) : x ∈ root :: (cols ++ nodes) := by
  rw [← List.cons_append]
  exact List.mem_append_left nodes head

theorem node_made {x : Nat} (node : x ∈ nodes) : x ∈ root :: (cols ++ nodes) :=
  .tail _ (List.mem_append_right cols node)

theorem distinct_concat (placed : Placed s cols nodes) :
    (root :: (cols ++ nodes) ++ [s.curNode]).Nodup :=
  List.concat_eq_append ▸ placed.distinct.concat placed.fresh

/-- What `new_row` gives besides the node. -/
structure NewRow (s t : SudokuSolver) (c name : Nat) : Prop where
  right : t.nodes.right = Function.update s.nodes.right s.curNode s.curNode
  left : t.nodes.left = Function.update s.nodes.left s.curNode s.curNode
  name : t.nodes.name = Function.update s.nodes.name s.curNode name
  columns : t.columns = s.columns
  inout : t.inout = s.inout
  stack : t.stack = s.stack
  curNode : t.curNode = s.curNode + 1

theorem NewRow.ring {t : SudokuSolver} {c d : Nat} {l : List Nat} (new : NewRow s t c name)
    (ring : Ring s.nodes.right s.nodes.left d l) (apart : s.curNode ∉ d :: l) :
    Ring t.nodes.right t.nodes.left d l := by
  rw [new.right, new.left]
  exact ring_fresh ring apart

theorem NewRow.alone {t : SudokuSolver} {c : Nat} (new : NewRow s t c name) :
    Ring t.nodes.right t.nodes.left s.curNode [] := by
  rw [new.right, new.left]
  exact ring_alone _ _ _

theorem newRow_spec (placed : Placed s cols nodes) {c : Nat} (column : s.columns name = some c)
    (room : s.curNode < kMaxNodes) : ∃ t, s.newRow name = some (s.curNode, t) ∧
      Placed t cols (nodes ++ [s.curNode]) ∧ NewRow s t c name := by
  obtain ⟨inside, title⟩ := (placed.table name c).mp column
  have made : ∀ x ∈ cols ++ nodes, x ∈ root :: (cols ++ nodes) := fun x member => .tail _ member
  have other : c ≠ s.curNode := placed.apart (made c (List.mem_append_left _ inside))
  refine ⟨_, (congrArg (Option.bind · _) column).trans (if_pos room), ?_,
    ⟨rfl, rfl, rfl, rfl, rfl, rfl, rfl⟩⟩
  have col' : ((s.nodes.fresh s.curNode name).putUp c s.curNode).col =
      Function.update s.nodes.col s.curNode c := Function.update_idem ..
  have name' : ((s.nodes.fresh s.curNode name).putUp c s.curNode).name =
      Function.update s.nodes.name s.curNode name := rfl
  have col_made : ∀ x ∈ root :: (cols ++ nodes),
      ((s.nodes.fresh s.curNode name).putUp c s.curNode).col x = s.nodes.col x := fun x member => by
    rw [col', Function.update_of_ne (placed.apart member)]
  have name_made : ∀ x ∈ root :: (cols ++ nodes),
      ((s.nodes.fresh s.curNode name).putUp c s.curNode).name x = s.nodes.name x := fun x member =>
    Function.update_of_ne (placed.apart member) _ _
  constructor
  · exact ring_fresh placed.heads fun member => placed.apart (head_made member) rfl
  · intro d here
    have old : nodes.filter (((s.nodes.fresh s.curNode name).putUp c s.curNode).col · = d) =
        nodes.filter (s.nodes.col · = d) := List.filter_congr fun x member => by
      rw [col_made x (node_made member)]
    have ring : ∀ e ∈ cols, Ring (s.nodes.fresh s.curNode name).down
        (s.nodes.fresh s.curNode name).up e (nodes.filter (s.nodes.col · = e)) := fun e there =>
      ring_fresh (placed.columns e there) fun member =>
        placed.apart (made _ (placed.ring_nodes there _ member).1) rfl
    have new : s.curNode ∉ d :: nodes.filter (s.nodes.col · = d) := fun member =>
      placed.apart (made _ (placed.ring_nodes here _ member).1) rfl
    rw [List.filter_append, old, Nodes.putUp_down _ other, Nodes.putUp_up]
    have single : ((s.nodes.fresh s.curNode name).putUp c s.curNode).col s.curNode = c := by
      rw [col', Function.update_self]
    by_cases same : d = c
    · subst same
      rw [List.filter_singleton, single, decide_eq_true rfl, cond_true]
      refine (ring d here).put ?_ new
      have distinct := (List.nodup_append.mp (List.nodup_cons.mp placed.distinct).2)
      refine List.nodup_cons.mpr ⟨fun member => ?_, distinct.2.1.filter _⟩
      exact distinct.2.2 d here d (List.mem_filter.mp member).1 rfl
    · rw [List.filter_singleton, single, decide_eq_false (Ne.symm same), cond_false, List.append_nil]
      have outside : ∀ x, s.nodes.col x = c → x ∉ d :: nodes.filter (s.nodes.col · = d) :=
        fun x col member => same ((placed.ring_nodes here x member).2.symm.trans col)
      have last := (placed.columns c inside).around (.head _)
      refine ring_put_other (ring d here) new (outside c (placed.own c inside)) ?_
      have up : (s.nodes.fresh s.curNode name).up c = s.nodes.up c := Function.update_of_ne other _ _
      rw [up]
      exact outside _ (placed.ring_nodes inside _ last.2.1).2
  · have distinct := placed.distinct_concat
    rwa [List.cons_append, List.append_assoc] at distinct
  · intro x member
    rw [← List.append_assoc, ← List.cons_append] at member
    rcases List.mem_append.mp member with old | new
    · exact Nat.lt_succ_of_lt (placed.below x old)
    · exact List.mem_singleton.mp new ▸ Nat.lt_succ_self _
  · change s.curNode + 1 = _
    rw [placed.count, List.length_append, List.length_singleton]
    omega
  · exact fun d here => (col_made d (made d (List.mem_append_left _ here))).trans (placed.own d here)
  · intro x member
    rcases List.mem_append.mp member with old | new
    · exact (col_made x (node_made old)).symm ▸ placed.under x old
    · rw [List.mem_singleton.mp new]
      change ((s.nodes.fresh s.curNode name).putUp c s.curNode).col s.curNode ∈ cols
      rwa [col', Function.update_self]
  · intro x member
    change ((s.nodes.fresh s.curNode name).putUp c s.curNode).name
      (((s.nodes.fresh s.curNode name).putUp c s.curNode).col x) =
        ((s.nodes.fresh s.curNode name).putUp c s.curNode).name x
    rcases List.mem_append.mp member with old | new
    · rw [col_made x (node_made old), name_made x (node_made old),
        name_made _ (made _ (List.mem_append_left _ (placed.under x old))), placed.named x old]
    · rw [List.mem_singleton.mp new, col', Function.update_self,
        name_made c (made c (List.mem_append_left _ inside)), title, name', Function.update_self]
  · intro title' d
    rw [placed.table title' d]
    exact and_congr_right fun here => by
      change _ ↔ ((s.nodes.fresh s.curNode name).putUp c s.curNode).name d = title'
      rw [name_made d (made d (List.mem_append_left _ here))]

theorem appendColumn_spec (placed : Placed s cols []) (missing : s.columns name = none)
    (room : s.curNode < kMaxNodes) : ∃ t, s.appendColumn name = some t ∧
      Placed t (cols ++ [s.curNode]) [] ∧ t.inout = s.inout ∧ t.stack = s.stack ∧
      (cols ++ [s.curNode]).map t.nodes.name = cols.map s.nodes.name ++ [name] := by
  have made : ∀ x ∈ cols, x ∈ root :: (cols ++ []) := fun x member =>
    .tail _ (List.mem_append_left _ member)
  have other : root ≠ s.curNode := placed.apart (.head _)
  have name_made : ∀ x ∈ cols, Function.update s.nodes.name s.curNode name x = s.nodes.name x :=
    fun x member => Function.update_of_ne (placed.apart (made x member)) _ _
  refine ⟨_, (if_pos missing).trans (congrArg (Option.map _) (if_pos room)), ?_, rfl, rfl, ?_⟩
  · constructor
    · have new : s.curNode ∉ root :: cols := fun member => placed.apart (head_made member) rfl
      have distinct := placed.distinct
      rw [List.append_nil] at distinct
      change Ring ((s.nodes.fresh s.curNode name).putLeft root s.curNode).right
        ((s.nodes.fresh s.curNode name).putLeft root s.curNode).left root (cols ++ [s.curNode])
      rw [Nodes.putLeft_right _ other, Nodes.putLeft_left]
      exact (ring_fresh placed.heads new).put distinct new
    · intro d here
      rcases List.mem_append.mp here with old | new
      · refine ring_fresh (placed.columns d old) fun member => ?_
        exact placed.apart (made d old) (List.mem_singleton.mp member).symm
      · rw [List.mem_singleton.mp new]
        exact ring_alone _ _ _
    · have distinct := placed.distinct_concat
      rw [List.append_nil] at distinct ⊢
      exact distinct
    · intro x member
      rw [List.append_nil, ← List.cons_append] at member
      rcases List.mem_append.mp member with old | new
      · exact Nat.lt_succ_of_lt (placed.below x (head_made old))
      · exact List.mem_singleton.mp new ▸ Nat.lt_succ_self _
    · change s.curNode + 1 = _
      rw [placed.count, List.length_append, List.length_singleton]
      omega
    · intro d here
      change Function.update s.nodes.col s.curNode s.curNode d = d
      rcases List.mem_append.mp here with old | new
      · rw [Function.update_of_ne (placed.apart (made d old)), placed.own d old]
      · rw [List.mem_singleton.mp new, Function.update_self]
    · exact nofun
    · exact nofun
    · intro title c
      change Function.update s.columns name (some s.curNode) title = some c ↔
        c ∈ cols ++ [s.curNode] ∧ Function.update s.nodes.name s.curNode name c = title
      rw [List.mem_append, List.mem_singleton]
      have old : c ∈ cols → (Function.update s.nodes.name s.curNode name c = title ↔
          s.nodes.name c = title) := fun here => by rw [name_made c here]
      by_cases same : title = name
      · subst same
        rw [Function.update_self]
        constructor
        · intro this
          cases this
          exact ⟨.inr rfl, Function.update_self ..⟩
        · rintro ⟨here | rfl, title'⟩
          · have found := (placed.table title c).mpr ⟨here, (old here).mp title'⟩
            exact nomatch missing.symm.trans found
          · rfl
      · rw [Function.update_of_ne same, placed.table title c]
        constructor
        · rintro ⟨here, title'⟩
          exact ⟨.inl here, (old here).mpr title'⟩
        · rintro ⟨here | rfl, title'⟩
          · exact ⟨here, (old here).mp title'⟩
          · rw [Function.update_self] at title'
            exact absurd title'.symm same
  · change (cols ++ [s.curNode]).map (Function.update s.nodes.name s.curNode name) = _
    rw [List.map_append, List.map_singleton, Function.update_self, List.map_congr_left name_made]

end Placed

/-! ### Rows -/

namespace Nodes
variable {s : Nodes} {c d n : Nat} {l r : List Nat}

theorem putLeft_ring (ring : Ring s.right s.left c l) (distinct : (c :: l).Nodup)
    (new : n ∉ c :: l) : Ring (s.putLeft c n).right (s.putLeft c n).left c (l ++ [n]) := by
  have apart : c ≠ n := by
    rintro rfl
    exact new (.head _)
  rw [putLeft_right s apart, putLeft_left]
  exact ring.put distinct new

theorem putLeft_older {k : Nat} (older : Ring s.right s.left d r) (below : ∀ x ∈ d :: r, x < k)
    (ring : Ring s.right s.left c l) (above : ∀ x ∈ c :: l, k ≤ x) (new : n ∉ c :: l) (large : k ≤ n) :
    Ring (s.putLeft c n).right (s.putLeft c n).left d r := by
  have apart : ∀ x, k ≤ x → x ∉ d :: r := fun x large member => Nat.not_lt.mpr large (below x member)
  have other : c ≠ n := by
    rintro rfl
    exact new (.head _)
  rw [putLeft_right s other, putLeft_left]
  exact ring_put_other older (apart n large) (apart c (above c (.head _)))
    (apart _ (above _ (ring.around (.head _)).2.1))

end Nodes

/-- The columns and the rows that have been made. -/
structure Linked (s : SudokuSolver) (cols : List Nat) (rows : List (List Nat)) : Prop where
  placed : Placed s cols rows.flatten
  links : ∀ row ∈ rows, ∃ n l, row = n :: l ∧ Ring s.nodes.right s.nodes.left n l

def rowNames (i v : Nat) : List Nat :=
  [i, getRowCol (rowOf i) v, getColCol (colOf i) v, getBoxCol (boxOf i) v]

theorem Placed.putLeft {s : SudokuSolver} {cols nodes : List Nat} {c n : Nat}
    (placed : Placed s cols nodes)
    (heads : Ring (s.nodes.putLeft c n).right (s.nodes.putLeft c n).left root cols) :
    Placed (s.withNodes (s.nodes.putLeft c n)) cols nodes where
  heads := heads
  columns := placed.columns
  distinct := placed.distinct
  below := placed.below
  count := placed.count
  own := placed.own
  under := placed.under
  named := placed.named
  table := placed.table

theorem newRows_spec {s : SudokuSolver} {cols : List Nat} {rows : List (List Nat)} {i v : Nat}
    (linked : Linked s cols rows) (columns : ∀ name ∈ rowNames i v, ∃ c, s.columns name = some c)
    (room : s.curNode + 4 ≤ kMaxNodes) : ∃ t row, s.newRows i v = some t ∧
      Linked t cols (rows ++ [row]) ∧ row.map t.nodes.name = rowNames i v ∧
      (∀ x ∈ root :: (cols ++ rows.flatten), t.nodes.name x = s.nodes.name x) ∧
      t.columns = s.columns ∧ t.inout = s.inout ∧ t.stack = s.stack ∧ row.length = 4 := by
  obtain ⟨c₀, column₀⟩ := columns i (by simp [rowNames])
  obtain ⟨c₁, column₁⟩ := columns (getRowCol (rowOf i) v) (by simp [rowNames])
  obtain ⟨c₂, column₂⟩ := columns (getColCol (colOf i) v) (by simp [rowNames])
  obtain ⟨c₃, column₃⟩ := columns (getBoxCol (boxOf i) v) (by simp [rowNames])
  obtain ⟨t₁, made₁, placed₁, new₁⟩ := linked.placed.newRow_spec column₀ (by omega)
  obtain ⟨t₂, made₂, placed₂, new₂⟩ := placed₁.newRow_spec (new₁.columns ▸ column₁)
    (by rw [new₁.curNode]; omega)
  obtain ⟨t₃, made₃, placed₃, new₃⟩ := placed₂.newRow_spec
    (new₂.columns ▸ new₁.columns ▸ column₂) (by rw [new₂.curNode, new₁.curNode]; omega)
  obtain ⟨t₄, made₄, placed₄, new₄⟩ := placed₃.newRow_spec
    (new₃.columns ▸ new₂.columns ▸ new₁.columns ▸ column₃)
    (by rw [new₃.curNode, new₂.curNode, new₁.curNode]; omega)
  have cur₁ := new₁.curNode
  have cur₂ : t₂.curNode = s.curNode + 2 := by rw [new₂.curNode, cur₁]
  have cur₃ : t₃.curNode = s.curNode + 3 := by rw [new₃.curNode, cur₂]
  have row₀ : Ring t₄.nodes.right t₄.nodes.left s.curNode [] :=
    new₄.ring (new₃.ring (new₂.ring new₁.alone (by simp; omega)) (by simp; omega)) (by simp; omega)
  have row₁ := Nodes.putLeft_ring (n := t₁.curNode) row₀ (by simp) (by simp; omega)
  have row₂ := Nodes.putLeft_ring (n := t₂.curNode) row₁ (by simp; omega) (by simp; omega)
  have row₃ := Nodes.putLeft_ring (n := t₃.curNode) row₂ (by simp; omega) (by simp; omega)
  -- the rings of older nodes stay
  have kept : ∀ d l, Ring s.nodes.right s.nodes.left d l → (∀ x ∈ d :: l, x < s.curNode) →
      ∃ _ : Ring (t₄.nodes.putLeft s.curNode t₁.curNode).right
          (t₄.nodes.putLeft s.curNode t₁.curNode).left d l,
        ∃ _ : Ring ((t₄.nodes.putLeft s.curNode t₁.curNode).putLeft s.curNode t₂.curNode).right
          ((t₄.nodes.putLeft s.curNode t₁.curNode).putLeft s.curNode t₂.curNode).left d l,
        Ring (((t₄.nodes.putLeft s.curNode t₁.curNode).putLeft s.curNode t₂.curNode).putLeft
          s.curNode t₃.curNode).right (((t₄.nodes.putLeft s.curNode t₁.curNode).putLeft s.curNode
          t₂.curNode).putLeft s.curNode t₃.curNode).left d l := by
    intro d l ring below
    have apart : ∀ n, s.curNode ≤ n → n ∉ d :: l := fun n large member =>
      Nat.not_lt.mpr large (below n member)
    have ring₄ := new₄.ring (new₃.ring (new₂.ring (new₁.ring ring (apart _ (by omega)))
      (apart _ (by omega))) (apart _ (by omega))) (apart _ (by omega))
    have ring₅ := Nodes.putLeft_older (n := t₁.curNode) ring₄ below row₀ (by simp) (by simp; omega)
      (by omega)
    have ring₆ := Nodes.putLeft_older (n := t₂.curNode) ring₅ below row₁ (by simp; omega)
      (by simp; omega) (by omega)
    exact ⟨ring₅, ring₆, Nodes.putLeft_older ring₆ below row₂ (by simp; omega) (by simp; omega)
      (by omega)⟩
  obtain ⟨heads₁, heads₂, heads₃⟩ := kept root cols linked.placed.heads fun x head =>
    linked.placed.below x (Placed.head_made head)
  have placed := ((placed₄.putLeft heads₁).putLeft heads₂).putLeft heads₃
  have names : t₄.nodes.name = Function.update (Function.update (Function.update (Function.update
      s.nodes.name s.curNode i) (s.curNode + 1) (getRowCol (rowOf i) v)) (s.curNode + 2)
      (getColCol (colOf i) v)) (s.curNode + 3) (getBoxCol (boxOf i) v) := by
    rw [new₄.name, new₃.name, new₂.name, new₁.name, cur₁, cur₂, cur₃]
  refine ⟨t₄.withNodes (((t₄.nodes.putLeft s.curNode t₁.curNode).putLeft s.curNode
    t₂.curNode).putLeft s.curNode t₃.curNode), [s.curNode, t₁.curNode, t₂.curNode, t₃.curNode],
    ?_, ⟨?_, ?_⟩, ?_, ?_, ?_, ?_, ?_, rfl⟩
  · simp only [SudokuSolver.newRows, made₁, made₂, made₃, made₄, Option.bind_some, Option.map_some]
    rfl
  · have flat : (rows ++ [[s.curNode, t₁.curNode, t₂.curNode, t₃.curNode]]).flatten =
        rows.flatten ++ [s.curNode] ++ [t₁.curNode] ++ [t₂.curNode] ++ [t₃.curNode] := by simp
    rw [flat]
    exact placed
  · intro row member
    rcases List.mem_append.mp member with old | new
    · obtain ⟨n, l, rfl, ring⟩ := linked.links row old
      refine ⟨n, l, rfl, (kept n l ring fun x inside => ?_).2.2⟩
      exact linked.placed.below x (Placed.node_made (List.mem_flatten.mpr ⟨_, old, inside⟩))
    · rw [List.mem_singleton.mp new]
      exact ⟨s.curNode, _, rfl, row₃⟩
  · change [s.curNode, t₁.curNode, t₂.curNode, t₃.curNode].map t₄.nodes.name = _
    rw [names, cur₁, cur₂, cur₃]
    simp [rowNames]
  · intro x made
    have below := linked.placed.below x made
    change t₄.nodes.name x = _
    rw [names, Function.update_of_ne (by omega), Function.update_of_ne (by omega),
      Function.update_of_ne (by omega), Function.update_of_ne (by omega)]
  · exact new₄.columns.trans (new₃.columns.trans (new₂.columns.trans new₁.columns))
  · exact new₄.inout.trans (new₃.inout.trans (new₂.inout.trans new₁.inout))
  · exact new₄.stack.trans (new₃.stack.trans (new₂.stack.trans new₁.stack))

end ProjectsCpp.Sudoku
