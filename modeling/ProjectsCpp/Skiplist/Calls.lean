import ProjectsCpp.Skiplist.Edits
import Mathlib.Order.Basic
import Mathlib.Data.List.Range

/-! A skip list answers as an ordered map does that remembers the level of each entry. -/

namespace ProjectsCpp.Skiplist
open ProjectsCpp.Chains

inductive Call (K V : Type) where
  | insert_element (key : K) (value : V) (ones : Nat)
  | delete_element (key : K)
  | search_element (key : K)
  | size
  | display_list
  | dump_file

inductive Answer (K V : Type) where
  | code (n : Int)
  | done
  | present (b : Bool)
  | size (n : Int)
  | levels (entries : List (List (K × V)))
  | file (entries : List (K × V))

/-! ### The ordered map -/

variable {K V : Type}

structure Entry (K V : Type) where
  key : K
  value : V
  level : Nat

/-- The entries in the order of their keys. -/
abbrev OrderedMap (K V : Type) := List (Entry K V)

namespace OrderedMap

def level (m : OrderedMap K V) (i : Nat) : List (K × V) :=
  (m.filter fun e => i ≤ e.level).map fun e => (e.key, e.value)

def top (m : OrderedMap K V) : Nat := (m.map Entry.level).foldr max 0

theorem le_top {m : OrderedMap K V} {e : Entry K V} (member : e ∈ m) : e.level ≤ m.top := by
  induction m with
  | nil => cases member
  | cons f m ih =>
    show e.level ≤ max f.level (OrderedMap.top m)
    rcases List.mem_cons.mp member with rfl | later
    · exact Nat.le_max_left _ _
    · exact (ih later).trans (Nat.le_max_right _ _)

theorem top_le {m : OrderedMap K V} {n : Nat} (low : ∀ e ∈ m, e.level ≤ n) : m.top ≤ n := by
  induction m with
  | nil => exact Nat.zero_le n
  | cons f m ih => exact Nat.max_le.mpr ⟨low f (.head _), ih fun e later => low e (.tail _ later)⟩

variable [LinearOrder K]

def put (m : OrderedMap K V) (e : Entry K V) : OrderedMap K V :=
  m.filter (·.key < e.key) ++ e :: m.filter (e.key < ·.key)

def call (m : OrderedMap K V) (max_level : Nat) : Call K V → Answer K V × OrderedMap K V
  | .insert_element key value ones =>
    if key ∈ m.map Entry.key then (.code 1, m)
    else (.code 0, m.put ⟨key, value, min (1 + ones) max_level⟩)
  | .delete_element key => (.done, m.filter (·.key ≠ key))
  | .search_element key => (.present (key ∈ m.map Entry.key), m)
  | .size => (.size m.length, m)
  | .display_list => (.levels ((List.range (m.top + 1)).map m.level), m)
  | .dump_file => (.file (m.level 0), m)

def calls (m : OrderedMap K V) (max_level : Nat) : List (Call K V) → List (Answer K V)
  | [] => []
  | c :: cs => (m.call max_level c).1 :: (m.call max_level c).2.calls max_level cs

end OrderedMap

/-! ### The calls of the skip list -/

def Row.entry (r : Row K V) : Entry K V := ⟨r.key, r.value, r.level⟩

variable [LinearOrder K]

namespace SkipList

def call (s : SkipList K V) : Call K V → Option (Answer K V × SkipList K V)
  | .insert_element key value ones => (s.insert_element key value ones).map fun r => (.code r.1, r.2)
  | .delete_element key => (s.delete_element key).map fun t => (.done, t)
  | .search_element key => (s.search_element key).map fun b => (.present b, s)
  | .size => some (.size s.size, s)
  | .display_list => s.display_list.map fun levels => (.levels levels, s)
  | .dump_file => (s.display 0).map fun entries => (.file entries, s)

def calls (s : SkipList K V) : List (Call K V) → Option (List (Answer K V))
  | [] => some []
  | c :: cs => (s.call c).bind fun r => (r.2.calls cs).map (r.1 :: ·)

variable {s t u : SkipList K V} {rows l r : List (Row K V)} {x : Row K V} {key : K} {value : V}
variable {i ones : Nat} {update : Nat → Option Nat}

theorem Rep.new [Inhabited K] [Inhabited V] (max_level : Nat) :
    (SkipList.new max_level : SkipList K V).Rep [] where
  header := ⟨default, default, by simp [SkipList.new, label]⟩
  alive := by simp
  sorted := .nil
  distinct := by simp
  fresh a some_ := by
    by_contra above
    have other : a ≠ 0 := by
      rintro rfl
      exact above Nat.one_pos
    simp [SkipList.new, label, other] at some_
  levels := by simp
  highest := .inl rfl
  top := Nat.zero_le _
  chains i := by simp [SkipList.new, addrs, Chain, next]
  count := rfl

theorem Placed.start (placed : s.Placed l r key) : ∃ update,
    s.descend key s.skip_list_level 0 (fun _ => none) = some (lastOf 0 (addrs 0 l), update) ∧
      s.forwardOf (lastOf 0 (addrs 0 l)) 0 = some ((r.map Row.addr).head?) ∧
      ∀ j ≤ s.skip_list_level, update j = some (lastOf 0 (addrs j l)) := by
  obtain ⟨update, done, filled, -⟩ := placed.descend placed.rep.top [] rfl fun _ => none
  refine ⟨update, done, ?_, filled⟩
  rw [(placed.reads_last (Nat.zero_le _)).forwardOf, placed.next_last, addrs_zero]

theorem Placed.node (placed : s.Placed l (x :: r) key) :
    ∃ forward, s.nodes x.addr = some ⟨x.key, x.value, x.level, forward⟩ :=
  node_of_label (placed.rep.alive x (by simp))

theorem Rep.addr_lt (rep : s.Rep rows) {a : Nat} (member : a ∈ 0 :: addrs i rows) : a < s.fresh := by
  have inside : a ∈ 0 :: addrs 0 rows := by
    rw [addrs_zero]
    exact ((addrs_sublist i rows).cons_cons 0).subset member
  obtain ⟨k, v, n, its, -⟩ := rep.reads (Nat.zero_le _) inside
  exact rep.fresh a (by simp [its])

/-! ### A node more -/

/-- The node of `x` is made, whatever the levels point at. -/
structure Grown (s t : SkipList K V) (x : Row K V) : Prop where
  addr : x.addr = s.fresh
  own : t.label x.addr = some (x.key, x.value, x.level)
  other : ∀ a, a ≠ x.addr → t.label a = s.label a
  fresh : t.fresh = s.fresh + 1
  max_level : t.max_level = s.max_level
  skip_list_level : t.skip_list_level = max s.skip_list_level x.level

omit [LinearOrder K] in
theorem Grown.same (grown : Grown s t x) (same : Same t u) : Grown s u x where
  addr := grown.addr
  own := by rw [same.label, grown.own]
  other a other := by rw [same.label, grown.other a other]
  fresh := same.fresh.trans grown.fresh
  max_level := same.max_level.trans grown.max_level
  skip_list_level := same.skip_list_level.trans grown.skip_list_level

theorem Grown.label_old (grown : Grown s t x) (rep : s.Rep rows) {a : Nat}
    (alive : s.label a ≠ none) : t.label a = s.label a := by
  refine grown.other a ?_
  rw [grown.addr]
  exact Nat.ne_of_lt (rep.fresh a alive)

theorem Grown.reads (grown : Grown s t x) (rep : s.Rep rows) {a : Nat} (reads : s.Reads a i) :
    t.Reads a i := by
  obtain ⟨k, v, n, its, le⟩ := reads
  refine ⟨k, v, n, ?_, le⟩
  rw [grown.label_old rep (by simp [its]), its]

theorem Grown.alive (grown : Grown s t x) (rep : s.Rep (l ++ r)) :
    ∀ y ∈ l ++ x :: r, t.label y.addr = some (y.key, y.value, y.level) := by
  intro y member
  rcases List.mem_cons.mp (List.perm_middle.mem_iff.mp member) with rfl | old
  · exact grown.own
  · have its := rep.alive y old
    rw [grown.label_old rep (by simp [its]), its]

theorem Grown.lt_fresh (grown : Grown s t x) (rep : s.Rep rows) {a : Nat}
    (alive : t.label a ≠ none) : a < t.fresh := by
  rw [grown.fresh]
  by_cases own : a = x.addr
  · rw [own, grown.addr]
    exact Nat.lt_succ_self _
  · rw [grown.other a own] at alive
    exact Nat.lt_succ_of_lt (rep.fresh a alive)

theorem Grown.levels (grown : Grown s t x) (rep : s.Rep (l ++ r)) :
    ∀ y ∈ l ++ x :: r, y.level ≤ t.skip_list_level := by
  intro y member
  rw [grown.skip_list_level]
  rcases List.mem_cons.mp (List.perm_middle.mem_iff.mp member) with rfl | old
  · exact Nat.le_max_right _ _
  · exact (rep.levels y old).trans (Nat.le_max_left _ _)

theorem Grown.highest (grown : Grown s t x) (rep : s.Rep (l ++ r)) :
    t.skip_list_level = 0 ∨ ∃ y ∈ l ++ x :: r, y.level = t.skip_list_level := by
  rw [grown.skip_list_level]
  rcases Nat.le_total s.skip_list_level x.level with higher | lower
  · exact .inr ⟨x, by simp, (Nat.max_eq_right higher).symm⟩
  · rw [Nat.max_eq_left lower]
    refine rep.highest.imp_right ?_
    rintro ⟨y, old, same⟩
    exact ⟨y, List.perm_middle.mem_iff.mpr (.tail x old), same⟩

theorem Grown.distinct (grown : Grown s t x) (rep : s.Rep (l ++ r)) :
    (0 :: (l ++ x :: r).map Row.addr).Nodup := by
  have apart : x.addr ∉ 0 :: (l ++ r).map Row.addr := by
    rw [grown.addr, ← addrs_zero]
    exact fun member => Nat.lt_irrefl _ (rep.addr_lt member)
  have perm : (0 :: (l ++ x :: r).map Row.addr).Perm (x.addr :: 0 :: (l ++ r).map Row.addr) := by
    simp only [List.map_append, List.map_cons]
    exact (List.perm_middle.cons 0).trans (.swap _ _ _)
  exact perm.nodup_iff.mpr (List.nodup_cons.mpr ⟨apart, rep.distinct⟩)

theorem Grown.rep (grown : Grown s t x) (rep : s.Rep (l ++ r)) (low : x.level ≤ s.max_level)
    (sorted : (l ++ x :: r).Pairwise fun y z => y.key < z.key)
    (chains : ∀ i, Chain (t.next i) 0 (addrs i (l ++ x :: r)))
    (count : t.element_count = s.element_count + 1) : t.Rep (l ++ x :: r) where
  header := by
    obtain ⟨k, v, its⟩ := rep.header
    refine ⟨k, v, ?_⟩
    rw [grown.label_old rep (by simp [its]), its, grown.max_level]
  alive := grown.alive rep
  sorted := sorted
  distinct := grown.distinct rep
  fresh _ alive := grown.lt_fresh rep alive
  levels := grown.levels rep
  highest := grown.highest rep
  top := by
    rw [grown.skip_list_level, grown.max_level]
    exact Nat.max_le.mpr ⟨rep.top, low⟩
  chains := chains
  count := by
    rw [count, rep.count]
    simp only [List.length_append, List.length_cons]
    omega

theorem Placed.sorted_insert (placed : s.Placed l r x.key) (absent : ∀ y ∈ r, y.key ≠ x.key) :
    (l ++ x :: r).Pairwise fun y z => y.key < z.key := by
  obtain ⟨left, right, cross⟩ := List.pairwise_append.mp placed.rep.sorted
  have behind : ∀ y ∈ r, x.key < y.key := fun y member =>
    lt_of_le_of_ne (placed.large y member) (absent y member).symm
  refine List.pairwise_append.mpr ⟨left, List.pairwise_cons.mpr ⟨behind, right⟩, ?_⟩
  intro y first z later
  rcases List.mem_cons.mp later with rfl | later
  · exact placed.small y first
  · exact cross y first z later

theorem Placed.filled_new (placed : s.Placed l r key)
    (filled : ∀ j ≤ s.skip_list_level, update j = some (lastOf 0 (addrs j l))) {n : Nat}
    (le : i ≤ n) :
    (if s.skip_list_level < i ∧ i ≤ n then some 0 else update i) = some (lastOf 0 (addrs i l)) := by
  by_cases above : s.skip_list_level < i
  · have none : addrs i l = [] := addrs_none fun x member =>
      (placed.rep.levels x (List.mem_append_left _ member)).trans_lt above
    simp [above, le, none]
  · simp [above, filled i (Nat.not_lt.mp above)]

theorem Placed.insert_node (placed : s.Placed l r key) (absent : ∀ x ∈ r, x.key ≠ key)
    (filled : ∀ j ≤ s.skip_list_level, update j = some (lastOf 0 (addrs j l))) (value : V)
    (ones : Nat) :
    ∃ t, s.insert_node key value ones update = some t ∧ t.max_level = s.max_level ∧
      t.Rep (l ++ ⟨s.fresh, s.get_random_level ones, key, value⟩ :: r) := by
  have rep := placed.rep
  let x : Row K V := ⟨s.fresh, s.get_random_level ones, key, value⟩
  have low : x.level ≤ s.max_level := Nat.min_le_right _ _
  let made : SkipList K V := { s with
    skip_list_level := max s.skip_list_level x.level
    nodes := Function.update s.nodes s.fresh (some ⟨key, value, x.level, fun _ => none⟩)
    fresh := s.fresh + 1 }
  have grown : Grown s made x := by
    refine ⟨rfl, by simp [made, x, label], fun a other => ?_, rfl, rfl, rfl⟩
    have other : a ≠ s.fresh := other
    simp [made, label, other]
  have chains (i : Nat) : Chain (made.next i) 0 (addrs i (l ++ r)) := by
    refine (rep.chains i).congr fun a member => ?_
    have other : a ≠ s.fresh := Nat.ne_of_lt (rep.addr_lt member)
    simp [made, next, other]
  obtain ⟨t, linked, same, inside, outside⟩ := link_spec (s := made) (p := s.fresh)
    (fun i => addrs i l) (fun i => addrs i r)
    (List.nodup_range : (List.range (x.level + 1)).Nodup)
    (fun i member => ⟨key, value, x.level, grown.own, Nat.le_of_lt_succ (List.mem_range.mp member)⟩)
    (fun i _ => by
      rw [← addrs_append]
      exact fun member => Nat.lt_irrefl _ (rep.addr_lt member))
    (fun i member => by
      have le := Nat.le_of_lt_succ (List.mem_range.mp member)
      rw [← addrs_append]
      exact ⟨chains i, rep.nodup i, placed.filled_new filled le,
        grown.reads rep (placed.reads_last (le.trans low))⟩)
  have inserted := grown.same same
  refine ⟨{ t with element_count := t.element_count + 1 }, ?_, same.max_level, ?_⟩
  · exact Option.map_eq_some_iff.mpr ⟨t, linked, rfl⟩
  refine Grown.rep (x := x) ⟨inserted.addr, inserted.own, inserted.other, inserted.fresh,
    inserted.max_level, inserted.skip_list_level⟩ rep low (placed.sorted_insert absent)
    (fun i => ?_) (congrArg (· + 1) same.element_count)
  show Chain (t.next i) 0 _
  by_cases le : i ≤ x.level
  · rw [addrs_middle le]
    exact inside i (List.mem_range.mpr (Nat.lt_succ_of_le le))
  · rw [addrs_above (Nat.not_le.mp le),
      outside i fun member => le (Nat.le_of_lt_succ (List.mem_range.mp member))]
    exact chains i

/-! ### A node less -/

theorem Placed.next_above (placed : s.Placed l (x :: r) key) (more : x.level < i) :
    s.next i (lastOf 0 (addrs i l)) ≠ some x.addr := by
  rw [placed.next_last]
  intro first
  obtain ⟨y, inside, le, equal⟩ := mem_addrs.mp (List.mem_of_mem_head? first)
  rcases List.mem_cons.mp inside with rfl | later
  · exact Nat.not_le.mpr more le
  · have nodup := (List.nodup_cons.mp placed.rep.distinct).2
    rw [List.map_append, List.map_cons] at nodup
    have right := (List.nodup_append.mp nodup).2.1
    exact (List.nodup_cons.mp right).1 (equal ▸ List.mem_map_of_mem later)

/-- The loop takes the node out of its levels, and stops at the first level above them. -/
theorem Placed.unlinked (placed : s.Placed l (x :: r) key)
    (filled : ∀ j ≤ s.skip_list_level, update j = some (lastOf 0 (addrs j l))) :
    ∃ t, s.unlink x.addr update (List.range (s.skip_list_level + 1)) = some t ∧ Same s t ∧
      ∀ i, Chain (t.next i) 0 (addrs i (l ++ r)) := by
  have rep := placed.rep
  have mine : x ∈ l ++ x :: r := by simp
  have low : x.level ≤ s.skip_list_level := rep.levels x mine
  have cut : List.range (s.skip_list_level + 1) = List.range (x.level + 1) ++
      (List.range (s.skip_list_level - x.level)).map (x.level + 1 + ·) := by
    rw [← List.range_add]
    congr 1
    omega
  obtain ⟨t, done, same, inside, outside⟩ := unlink_spec (s := s) (p := x.addr)
    (fun i => addrs i l) (fun i => addrs i r)
    ((List.range (s.skip_list_level - x.level)).map (x.level + 1 + ·))
    (List.nodup_range : (List.range (x.level + 1)).Nodup)
    (fun i member => ⟨x.key, x.value, x.level, rep.alive x mine,
      Nat.le_of_lt_succ (List.mem_range.mp member)⟩)
    (fun i member => by
      have le := Nat.le_of_lt_succ (List.mem_range.mp member)
      rw [← addrs_middle le]
      exact ⟨rep.chains i, rep.nodup i, filled i (le.trans low),
        placed.reads_last ((le.trans low).trans rep.top)⟩)
    (by
      intro i head
      obtain ⟨d, inside, rfl⟩ := List.mem_map.mp (List.mem_of_mem_head? head)
      have bound := List.mem_range.mp inside
      have inRange : x.level + 1 + d ≤ s.skip_list_level := by omega
      refine ⟨?_, _, filled _ inRange, placed.reads_last (inRange.trans rep.top),
        placed.next_above (by omega)⟩
      rw [List.mem_range]
      omega)
  refine ⟨t, cut ▸ done, same, fun i => ?_⟩
  by_cases le : i ≤ x.level
  · rw [addrs_append]
    exact inside i (List.mem_range.mpr (Nat.lt_succ_of_le le))
  · rw [outside i fun member => le (Nat.le_of_lt_succ (List.mem_range.mp member)),
      ← addrs_above (Nat.not_le.mp le)]
    exact rep.chains i

theorem Placed.delete (placed : s.Placed l (x :: r) x.key)
    (filled : ∀ j ≤ s.skip_list_level, update j = some (lastOf 0 (addrs j l))) :
    ∃ t u, s.unlink x.addr update (List.range (s.skip_list_level + 1)) = some t ∧
      t.shrink t.skip_list_level = some u ∧ u.max_level = s.max_level ∧
      Rep { u with element_count := u.element_count - 1 } (l ++ r) := by
  have rep := placed.rep
  have sub : (l ++ r).Sublist (l ++ x :: r) := (List.sublist_cons_self x r).append_left l
  obtain ⟨t, done, same, chains⟩ := placed.unlinked filled
  obtain ⟨top, lower, shrunk, empty, last⟩ := shrink_spec (s := t) t.skip_list_level (by
    intro i le
    obtain ⟨k, v, its⟩ := rep.header
    rw [same.skip_list_level] at le
    exact same.reads ⟨k, v, s.max_level, its, le.trans rep.top⟩)
  rw [same.skip_list_level] at lower empty
  have levels (y : Row K V) (member : y ∈ l ++ r) : y.level ≤ top := by
    refine Nat.not_lt.mp fun more => ?_
    have used := (next_ne_none_iff (chains y.level)).mpr ⟨y, member, Nat.le_refl _⟩
    exact used (empty y.level more (rep.levels y (sub.subset member)))
  refine ⟨t, _, done, shrunk, same.max_level, ?_⟩
  constructor
  · show ∃ k v, t.label 0 = some (k, v, t.max_level)
    rw [same.label, same.max_level]
    exact rep.header
  · intro y member
    show t.label y.addr = _
    rw [same.label]
    exact rep.alive y (sub.subset member)
  · exact rep.sorted.sublist sub
  · exact rep.distinct.sublist ((sub.map _).cons_cons 0)
  · intro a some_
    show a < t.fresh
    rw [same.fresh]
    refine rep.fresh a ?_
    rw [← same.label]
    exact some_
  · exact levels
  · refine last.imp_right fun some_ => ?_
    obtain ⟨y, member, le⟩ := (next_ne_none_iff (chains top)).mp some_
    exact ⟨y, member, Nat.le_antisymm (levels y member) le⟩
  · show top ≤ t.max_level
    rw [same.max_level]
    exact lower.trans rep.top
  · exact chains
  · show t.element_count - 1 = _
    rw [same.element_count, rep.count]
    simp only [List.length_append, List.length_cons]
    omega

/-! ### Each call -/

/-- Where the key is in the map, it is that of the first element behind. -/
theorem Placed.mem_key (placed : s.Placed l r key) :
    key ∈ ((l ++ r).map Row.entry).map Entry.key ↔ ∃ x r', r = x :: r' ∧ x.key = key := by
  rw [List.map_map, List.mem_map]
  constructor
  · rintro ⟨y, member, rfl⟩
    rcases List.mem_append.mp member with first | later
    · exact absurd (placed.small y first) (lt_irrefl _)
    · cases r with
      | nil => cases later
      | cons x r =>
        refine ⟨x, r, rfl, le_antisymm ?_ (placed.large x (.head _))⟩
        rcases List.mem_cons.mp later with rfl | later
        · exact le_rfl
        · have sorted := (List.pairwise_append.mp placed.rep.sorted).2.1
          exact ((List.pairwise_cons.mp sorted).1 y later).le
  · rintro ⟨x, r', rfl, same⟩
    exact ⟨x, by simp, same⟩

theorem Placed.put (placed : s.Placed l r key) (absent : ∀ x ∈ r, x.key ≠ key) (e : Entry K V)
    (its : e.key = key) :
    OrderedMap.put ((l ++ r).map Row.entry) e = l.map Row.entry ++ e :: r.map Row.entry := by
  have left : ∀ x ∈ l, x.key < key := placed.small
  have right : ∀ x ∈ r, key < x.key := fun x member =>
    lt_of_le_of_ne (placed.large x member) (absent x member).symm
  rw [OrderedMap.put, its, List.map_append, List.filter_append, List.filter_append]
  congr 1
  · rw [List.filter_eq_self.mpr, List.filter_eq_nil_iff.mpr, List.append_nil]
    · simpa [Row.entry] using fun x member => (right x member).le
    · simpa [Row.entry] using left
  · congr 1
    rw [List.filter_eq_nil_iff.mpr, List.filter_eq_self.mpr, List.nil_append]
    · simpa [Row.entry] using right
    · simpa [Row.entry] using fun x member => (left x member).le

theorem Rep.insert_element (rep : s.Rep rows) (key : K) (value : V) (ones : Nat) :
    ∃ t rows' code, s.insert_element key value ones = some (code, t) ∧ t.max_level = s.max_level ∧
      t.Rep rows' ∧ OrderedMap.call (rows.map Row.entry) s.max_level
        (.insert_element key value ones) = (.code code, rows'.map Row.entry) := by
  obtain ⟨l, r, rfl, small, large⟩ := exists_split rep.sorted key
  have placed : s.Placed l r key := ⟨rep, small, large⟩
  obtain ⟨update, down, front, filled⟩ := placed.start
  rw [SkipList.insert_element, down, Option.bind_some]
  simp only [front, Option.bind_some]
  have fresh (absent : ∀ x ∈ r, x.key ≠ key) : ∃ t rows', s.insert_node key value ones update = some t ∧
      t.max_level = s.max_level ∧ t.Rep rows' ∧
        OrderedMap.call ((l ++ r).map Row.entry) s.max_level (.insert_element key value ones) =
          (.code 0, rows'.map Row.entry) := by
    obtain ⟨t, done, most, rep'⟩ := placed.insert_node absent filled value ones
    refine ⟨t, _, done, most, rep', ?_⟩
    rw [OrderedMap.call, if_neg, placed.put absent _ rfl]
    · simp [Row.entry, get_random_level]
    · rw [placed.mem_key]
      rintro ⟨x, r', rfl, same⟩
      exact absent x (.head _) same
  cases r with
  | nil =>
    obtain ⟨t, rows', done, its⟩ := fresh (by simp)
    refine ⟨t, rows', 0, ?_, its⟩
    simp [done]
  | cons x r =>
    obtain ⟨forward, there⟩ := placed.node
    simp only [List.map_cons, List.head?_cons, there, Option.bind_some]
    split
    · rename_i same
      refine ⟨s, _, 1, rfl, rfl, rep, ?_⟩
      rw [OrderedMap.call, if_pos (placed.mem_key.mpr ⟨x, r, rfl, same⟩)]
    · rename_i other
      obtain ⟨t, rows', done, its⟩ := fresh (by
        intro y member same
        obtain ⟨x', r', equal, first⟩ := placed.mem_key.mp
          (List.mem_map.mpr ⟨y.entry, List.mem_map_of_mem (List.mem_append_right _ member), same⟩)
        obtain ⟨rfl, -⟩ := List.cons.inj equal
        exact other first)
      refine ⟨t, rows', 0, ?_, its⟩
      simp [done]

theorem Rep.delete_element (rep : s.Rep rows) (key : K) :
    ∃ t rows', s.delete_element key = some t ∧ t.max_level = s.max_level ∧ t.Rep rows' ∧
      (rows.map Row.entry).filter (·.key ≠ key) = rows'.map Row.entry := by
  obtain ⟨l, r, rfl, small, large⟩ := exists_split rep.sorted key
  have placed : s.Placed l r key := ⟨rep, small, large⟩
  obtain ⟨update, down, front, filled⟩ := placed.start
  rw [SkipList.delete_element, down, Option.bind_some]
  simp only [front, Option.bind_some]
  have same (absent : ∀ x ∈ r, x.key ≠ key) :
      ((l ++ r).map Row.entry).filter (·.key ≠ key) = (l ++ r).map Row.entry := by
    refine List.filter_eq_self.mpr fun e member => ?_
    obtain ⟨y, inside, rfl⟩ := List.mem_map.mp member
    rcases List.mem_append.mp inside with first | later
    · exact decide_eq_true (ne_of_lt (small y first))
    · exact decide_eq_true (absent y later)
  cases r with
  | nil => exact ⟨s, _, rfl, rfl, rep, same (by simp)⟩
  | cons x r =>
    obtain ⟨forward, there⟩ := placed.node
    have behind : ∀ y ∈ r, x.key < y.key :=
      (List.pairwise_cons.mp (List.pairwise_append.mp rep.sorted).2.1).1
    simp only [List.map_cons, List.head?_cons, there, Option.bind_some]
    split
    · rename_i mine
      subst mine
      obtain ⟨t, u, done, shrunk, most, rep'⟩ := placed.delete filled
      refine ⟨{ u with element_count := u.element_count - 1 }, _,
        by rw [done, Option.bind_some, shrunk, Option.map_some], most, rep', ?_⟩
      have left : (l.map Row.entry).filter (·.key ≠ x.key) = l.map Row.entry := by
        refine List.filter_eq_self.mpr ?_
        simpa [Row.entry] using fun y member => ne_of_lt (small y member)
      have right : (r.map Row.entry).filter (·.key ≠ x.key) = r.map Row.entry := by
        refine List.filter_eq_self.mpr ?_
        simpa [Row.entry] using fun y member => ne_of_gt (behind y member)
      rw [List.map_append, List.filter_append, left, List.map_cons, List.filter_cons_of_neg
        (by simp [Row.entry]), right, List.map_append]
    · rename_i other
      refine ⟨s, _, rfl, rfl, rep, same fun y member => ?_⟩
      rcases List.mem_cons.mp member with rfl | later
      · exact other
      · exact ne_of_gt ((lt_of_le_of_ne (large x (.head _)) (Ne.symm other)).trans (behind y later))

theorem Rep.search_element (rep : s.Rep rows) (key : K) :
    s.search_element key = some (decide (key ∈ (rows.map Row.entry).map Entry.key)) := by
  obtain ⟨l, r, rfl, small, large⟩ := exists_split rep.sorted key
  have placed : s.Placed l r key := ⟨rep, small, large⟩
  obtain ⟨update, -, front, -⟩ := placed.start
  have found := placed.seek rep.top [] rfl
  rw [lastOf_nil] at found
  rw [SkipList.search_element, found, Option.bind_some]
  simp only [front, Option.bind_some]
  cases r with
  | nil =>
    refine congrArg some (decide_eq_false ?_).symm
    rw [placed.mem_key]
    rintro ⟨x, r', equal, -⟩
    cases equal
  | cons x r =>
    obtain ⟨forward, there⟩ := placed.node
    simp only [List.map_cons, List.head?_cons, there, Option.map_some]
    refine congrArg some (decide_eq_decide.mpr ?_)
    rw [placed.mem_key]
    constructor
    · intro same
      exact ⟨x, r, rfl, same⟩
    · rintro ⟨x', r', equal, same⟩
      obtain ⟨rfl, -⟩ := List.cons.inj equal
      exact same

theorem Rep.display (rep : s.Rep rows) (low : i ≤ s.max_level) :
    s.display i = some (OrderedMap.level (rows.map Row.entry) i) := by
  have walk (part : List (Row K V)) (a rounds : Nat) (alive : ∀ x ∈ part, x ∈ rows ∧ i ≤ x.level)
      (chain : Chain (s.next i) a (part.map Row.addr)) (enough : part.length ≤ rounds) :
      s.entries i rounds (s.next i a) = some (part.map fun x => (x.key, x.value)) := by
    induction part generalizing a rounds with
    | nil =>
      have last : s.next i a = none := chain
      cases rounds <;> rw [last] <;> rfl
    | cons x part ih =>
      obtain ⟨inside, le⟩ := alive x (.head _)
      obtain ⟨rounds, rfl⟩ := Nat.exists_eq_add_one_of_ne_zero
        (Nat.ne_of_gt (Nat.zero_lt_of_lt enough))
      have its := rep.alive x inside
      obtain ⟨forward, there⟩ := node_of_label its
      have reads : s.Reads x.addr i := ⟨x.key, x.value, x.level, its, le⟩
      rw [chain.1, SkipList.entries, there, Option.bind_some, reads.forwardOf, Option.bind_some,
        ih x.addr rounds (fun y member => alive y (.tail _ member)) chain.2
          (Nat.le_of_succ_le_succ enough), Option.map_some, List.map_cons]
  have reads : s.Reads 0 i := rep.reads low (.head _)
  rw [SkipList.display, reads.forwardOf, Option.bind_some,
    walk (rows.filter fun x => i ≤ x.level) 0 s.fresh (by simp) (rep.chains i)
      ((List.length_filter_le _ _).trans rep.length_lt.le)]
  rw [OrderedMap.level, List.filter_map, List.map_map]
  rfl

theorem Rep.skip_list_level (rep : s.Rep rows) :
    s.skip_list_level = OrderedMap.top (rows.map Row.entry) := by
  refine Nat.le_antisymm ?_ (OrderedMap.top_le ?_)
  · rcases rep.highest with zero | ⟨x, member, same⟩
    · exact zero ▸ Nat.zero_le _
    · exact same ▸ OrderedMap.le_top (e := x.entry) (List.mem_map_of_mem member)
  · simpa [Row.entry] using rep.levels

theorem Rep.display_list (rep : s.Rep rows) : s.display_list =
    some ((List.range (OrderedMap.top (rows.map Row.entry) + 1)).map
      (OrderedMap.level (rows.map Row.entry))) := by
  have all (levels : List Nat) (low : ∀ i ∈ levels, i ≤ s.max_level) :
      levels.mapM s.display = some (levels.map (OrderedMap.level (rows.map Row.entry))) := by
    induction levels with
    | nil => rfl
    | cons i levels ih =>
      rw [List.mapM_cons, rep.display (low i (.head _)), ih fun j later => low j (.tail _ later)]
      rfl
  rw [SkipList.display_list, ← rep.skip_list_level]
  refine all _ fun i member => ?_
  exact (Nat.le_of_lt_succ (List.mem_range.mp member)).trans rep.top

theorem Rep.call (rep : s.Rep rows) (c : Call K V) : ∃ answer t rows', s.call c = some (answer, t) ∧
    t.max_level = s.max_level ∧ t.Rep rows' ∧
      OrderedMap.call (rows.map Row.entry) s.max_level c = (answer, rows'.map Row.entry) := by
  cases c with
  | insert_element key value ones =>
    obtain ⟨t, rows', code, done, most, rep', its⟩ := rep.insert_element key value ones
    exact ⟨_, t, rows', by rw [SkipList.call, done, Option.map_some], most, rep', its⟩
  | delete_element key =>
    obtain ⟨t, rows', done, most, rep', its⟩ := rep.delete_element key
    exact ⟨_, t, rows', by rw [SkipList.call, done, Option.map_some], most, rep', congrArg _ its⟩
  | search_element key =>
    exact ⟨_, s, rows, by rw [SkipList.call, rep.search_element, Option.map_some], rfl, rep, rfl⟩
  | size =>
    refine ⟨_, s, rows, rfl, rfl, rep, ?_⟩
    simp [OrderedMap.call, SkipList.size, rep.count]
  | display_list =>
    exact ⟨_, s, rows, by rw [SkipList.call, rep.display_list, Option.map_some], rfl, rep, rfl⟩
  | dump_file =>
    exact ⟨_, s, rows, by rw [SkipList.call, rep.display (Nat.zero_le _), Option.map_some], rfl, rep, rfl⟩

theorem Rep.calls (rep : s.Rep rows) (cs : List (Call K V)) :
    s.calls cs = some (OrderedMap.calls (rows.map Row.entry) s.max_level cs) := by
  induction cs generalizing s rows with
  | nil => rfl
  | cons c cs ih =>
    obtain ⟨answer, t, rows', done, most, rep', its⟩ := rep.call c
    rw [SkipList.calls, done, Option.bind_some, ih rep', OrderedMap.calls, its, most]
    rfl

/-- Whatever levels the random numbers give: no call goes through a null pointer or out of an array,
and each answers as the ordered map does. -/
theorem calls_of_new [Inhabited K] [Inhabited V] (max_level : Nat) (cs : List (Call K V)) :
    (SkipList.new max_level).calls cs = some (OrderedMap.calls [] max_level cs) :=
  (Rep.new max_level).calls cs

end SkipList

end ProjectsCpp.Skiplist
