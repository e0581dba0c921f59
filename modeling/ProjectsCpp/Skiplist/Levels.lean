import ProjectsCpp.Skiplist.SkipList
import Mathlib.Data.List.Nodup
import Mathlib.Data.List.Perm.Subperm

/-! What the levels of a skip list are, and what the loops of `skiplist.h` do to them. -/

namespace ProjectsCpp.Skiplist
open ProjectsCpp.Chains

/-- An element: its node, the highest level of the node, and the entry. -/
structure Row (K V : Type) where
  addr : Nat
  level : Nat
  key : K
  value : V

variable {K V : Type}

def addrs (i : Nat) (rows : List (Row K V)) : List Nat :=
  (rows.filter fun r => i ≤ r.level).map Row.addr

theorem addrs_append (i : Nat) (l r : List (Row K V)) : addrs i (l ++ r) = addrs i l ++ addrs i r := by
  simp [addrs]

theorem addrs_zero (rows : List (Row K V)) : addrs 0 rows = rows.map Row.addr := by
  simp [addrs]

theorem mem_addrs {i a : Nat} {rows : List (Row K V)} :
    a ∈ addrs i rows ↔ ∃ r ∈ rows, i ≤ r.level ∧ r.addr = a := by
  simp [addrs, and_assoc]

theorem addrs_succ (i : Nat) (rows : List (Row K V)) :
    (addrs (i + 1) rows).Sublist (addrs i rows) := by
  refine List.Sublist.map _ (List.monotone_filter_right rows fun r => ?_)
  simp only [decide_eq_true_eq]
  omega

theorem addrs_sublist (i : Nat) (rows : List (Row K V)) :
    (addrs i rows).Sublist (rows.map Row.addr) := List.filter_sublist.map _

theorem addrs_none {i : Nat} {rows : List (Row K V)} (low : ∀ r ∈ rows, r.level < i) :
    addrs i rows = [] := by
  have none : rows.filter (fun r => i ≤ r.level) = [] := by
    simpa [List.filter_eq_nil_iff] using low
  rw [addrs, none, List.map_nil]

theorem addrs_middle {i : Nat} {x : Row K V} {l r : List (Row K V)} (le : i ≤ x.level) :
    addrs i (l ++ x :: r) = addrs i l ++ x.addr :: addrs i r := by
  rw [addrs_append, addrs, addrs, List.filter_cons_of_pos (by simpa using le), List.map_cons]
  rfl

theorem addrs_above {i : Nat} {x : Row K V} {l r : List (Row K V)} (more : x.level < i) :
    addrs i (l ++ x :: r) = addrs i (l ++ r) := by
  rw [addrs_append, addrs_append, addrs, addrs, List.filter_cons_of_neg (by simpa using more)]
  rfl

namespace SkipList

variable {s t u : SkipList K V} {a i : Nat}

def label (s : SkipList K V) (a : Nat) : Option (K × V × Nat) :=
  (s.nodes a).map fun node => (node.key, node.value, node.node_level)

def next (s : SkipList K V) (i a : Nat) : Option Nat := (s.nodes a).bind fun node => node.forward i

theorem node_of_label {k : K} {v : V} {n : Nat} (its : s.label a = some (k, v, n)) :
    ∃ forward, s.nodes a = some ⟨k, v, n, forward⟩ := by
  obtain ⟨node, there, same⟩ := Option.map_eq_some_iff.mp its
  obtain ⟨rfl, rfl, rfl⟩ : node.key = k ∧ node.value = v ∧ node.node_level = n := by simpa using same
  exact ⟨node.forward, there⟩

/-- The node has a pointer for level `i`. -/
def Reads (s : SkipList K V) (a i : Nat) : Prop := ∃ k v n, s.label a = some (k, v, n) ∧ i ≤ n

theorem Reads.forwardOf (reads : s.Reads a i) : s.forwardOf a i = some (s.next i a) := by
  obtain ⟨k, v, n, its, le⟩ := reads
  obtain ⟨forward, there⟩ := node_of_label its
  simp [SkipList.forwardOf, SkipList.next, there, le]

/-- The nodes and the counters are the same up to the pointers. -/
structure Same (s t : SkipList K V) : Prop where
  label : t.label = s.label
  max_level : t.max_level = s.max_level
  skip_list_level : t.skip_list_level = s.skip_list_level
  element_count : t.element_count = s.element_count
  fresh : t.fresh = s.fresh

theorem Same.refl (s : SkipList K V) : Same s s := ⟨rfl, rfl, rfl, rfl, rfl⟩

theorem Same.trans (first : Same s t) (second : Same t u) : Same s u :=
  ⟨second.label.trans first.label, second.max_level.trans first.max_level,
    second.skip_list_level.trans first.skip_list_level,
    second.element_count.trans first.element_count, second.fresh.trans first.fresh⟩

theorem Same.reads (same : Same s t) (reads : s.Reads a i) : t.Reads a i := by
  rwa [Reads, same.label]

theorem setForward_spec (reads : s.Reads a i) (next : Option Nat) :
    ∃ t, s.setForward a i next = some t ∧ Same s t ∧ t.next i a = next ∧
      (∀ b, b ≠ a → t.next i b = s.next i b) ∧ ∀ j, j ≠ i → t.next j = s.next j := by
  obtain ⟨k, v, n, its, le⟩ := reads
  obtain ⟨forward, there⟩ := node_of_label its
  let node : Node K V := ⟨k, v, n, Function.update forward i next⟩
  refine ⟨{ s with nodes := Function.update s.nodes a (some node) },
    by simp [setForward, there, le, node], ⟨?_, rfl, rfl, rfl, rfl⟩, ?_, ?_, ?_⟩
  · funext b
    by_cases same : b = a
    · simp [SkipList.label, same, there, node]
    · simp [SkipList.label, same]
  · simp [SkipList.next, node]
  · intro b other
    simp [SkipList.next, other]
  · intro j other
    funext b
    by_cases same : b = a
    · simp [SkipList.next, same, there, other, node]
    · simp [SkipList.next, same]

variable [LinearOrder K] {rows l r : List (Row K V)} {key : K}

/-- The elements are sorted by their keys, and each level is the chain of the nodes that reach it. -/
structure Rep (s : SkipList K V) (rows : List (Row K V)) : Prop where
  header : ∃ k v, s.label 0 = some (k, v, s.max_level)
  alive : ∀ r ∈ rows, s.label r.addr = some (r.key, r.value, r.level)
  sorted : rows.Pairwise fun r r' => r.key < r'.key
  distinct : (0 :: rows.map Row.addr).Nodup
  fresh : ∀ a, s.label a ≠ none → a < s.fresh
  levels : ∀ r ∈ rows, r.level ≤ s.skip_list_level
  highest : s.skip_list_level = 0 ∨ ∃ r ∈ rows, r.level = s.skip_list_level
  top : s.skip_list_level ≤ s.max_level
  chains : ∀ i, Chain (s.next i) 0 (addrs i rows)
  count : s.element_count = rows.length

theorem Rep.reads (rep : s.Rep rows) (low : i ≤ s.max_level) (member : a ∈ 0 :: addrs i rows) :
    s.Reads a i := by
  rcases List.mem_cons.mp member with rfl | member
  · obtain ⟨k, v, its⟩ := rep.header
    exact ⟨k, v, s.max_level, its, low⟩
  · obtain ⟨r, inside, le, rfl⟩ := mem_addrs.mp member
    exact ⟨r.key, r.value, r.level, rep.alive r inside, le⟩

theorem Rep.nodup (rep : s.Rep rows) (i : Nat) : (0 :: addrs i rows).Nodup :=
  rep.distinct.sublist ((addrs_sublist i rows).cons_cons 0)

omit [LinearOrder K] in
theorem next_ne_none_iff (chain : Chain (s.next i) 0 (addrs i rows)) :
    s.next i 0 ≠ none ↔ ∃ x ∈ rows, i ≤ x.level := by
  cases nodes : addrs i rows with
  | nil =>
    rw [nodes] at chain
    refine ⟨fun some_ => absurd chain some_, ?_⟩
    rintro ⟨x, member, le⟩
    have there : x.addr ∈ addrs i rows := mem_addrs.mpr ⟨x, member, le, rfl⟩
    simp [nodes] at there
  | cons a rest =>
    rw [nodes] at chain
    obtain ⟨x, member, le, -⟩ := mem_addrs.mp (nodes ▸ List.mem_cons_self : a ∈ addrs i rows)
    exact ⟨fun _ => ⟨x, member, le⟩, fun _ => by simp [chain.1]⟩

theorem Rep.length_lt (rep : s.Rep rows) : rows.length < s.fresh := by
  have sub : 0 :: rows.map Row.addr ⊆ List.range s.fresh := by
    intro a member
    refine List.mem_range.mpr (rep.fresh a ?_)
    rw [← addrs_zero] at member
    obtain ⟨k, v, n, its, -⟩ := rep.reads (Nat.zero_le _) member
    simp [its]
  have le := (List.subperm_of_subset rep.distinct sub).length_le
  rwa [List.length_cons, List.length_map, List.length_range] at le

theorem exists_split (sorted : rows.Pairwise fun r r' : Row K V => r.key < r'.key) (key : K) :
    ∃ l r, rows = l ++ r ∧ (∀ x ∈ l, x.key < key) ∧ ∀ x ∈ r, key ≤ x.key := by
  induction rows with
  | nil => exact ⟨[], [], rfl, by simp, by simp⟩
  | cons x rows ih =>
    obtain ⟨first, rest⟩ := List.pairwise_cons.mp sorted
    by_cases small : x.key < key
    · obtain ⟨l, r, rfl, before, behind⟩ := ih rest
      exact ⟨x :: l, r, rfl, by simpa [small] using before, behind⟩
    · refine ⟨[], x :: rows, rfl, by simp, ?_⟩
      have least : key ≤ x.key := not_lt.mp small
      intro y member
      rcases List.mem_cons.mp member with rfl | later
      · exact least
      · exact le_trans least (le_of_lt (first y later))

structure Placed (s : SkipList K V) (l r : List (Row K V)) (key : K) : Prop where
  rep : s.Rep (l ++ r)
  small : ∀ x ∈ l, x.key < key
  large : ∀ x ∈ r, key ≤ x.key

theorem Placed.reads_last (placed : s.Placed l r key) (low : i ≤ s.max_level) :
    s.Reads (lastOf 0 (addrs i l)) i := by
  refine placed.rep.reads low ?_
  rw [addrs_append]
  exact List.Sublist.subset ((List.sublist_append_left _ _).cons_cons 0) (lastOf_mem 0 _)

theorem Placed.next_last (placed : s.Placed l r key) (i : Nat) :
    s.next i (lastOf 0 (addrs i l)) = (addrs i r).head? := by
  have chain := placed.rep.chains i
  rw [addrs_append] at chain
  exact chain.next_last

theorem Placed.walk (placed : s.Placed l r key) (low : i ≤ s.max_level) {rounds : Nat}
    {front rest : List Nat} (split : addrs i l = front ++ rest) (enough : rest.length < rounds) :
    s.walk key i rounds (lastOf 0 front) = some (lastOf 0 (addrs i l)) := by
  induction rest generalizing front rounds with
  | nil =>
    obtain ⟨rounds, rfl⟩ := Nat.exists_eq_add_one_of_ne_zero (Nat.ne_of_gt enough)
    rw [List.append_nil] at split
    rw [SkipList.walk, ← split, (placed.reads_last low).forwardOf, placed.next_last, Option.bind_some]
    cases behind : addrs i r with
    | nil => rfl
    | cons a more =>
      obtain ⟨x, inside, -, rfl⟩ := mem_addrs.mp (behind ▸ List.mem_cons_self : a ∈ addrs i r)
      obtain ⟨forward, there⟩ := node_of_label (placed.rep.alive x (List.mem_append_right _ inside))
      simp [there, not_lt.mpr (placed.large x inside)]
  | cons a rest ih =>
    obtain ⟨rounds, rfl⟩ := Nat.exists_eq_add_one_of_ne_zero (Nat.ne_of_gt (Nat.zero_lt_of_lt enough))
    have chain := placed.rep.chains i
    have whole : addrs i (l ++ r) = front ++ a :: (rest ++ addrs i r) := by
      rw [addrs_append, split, List.append_assoc, List.cons_append]
    have reads : s.Reads (lastOf 0 front) i := by
      refine placed.rep.reads low ?_
      rw [whole]
      exact List.Sublist.subset ((List.sublist_append_left _ _).cons_cons 0) (lastOf_mem 0 _)
    rw [whole] at chain
    obtain ⟨x, inside, -, rfl⟩ := mem_addrs.mp (split ▸ by simp : a ∈ addrs i l)
    obtain ⟨forward, there⟩ := node_of_label (placed.rep.alive x (List.mem_append_left _ inside))
    rw [SkipList.walk, reads.forwardOf, chain.next_last, Option.bind_some]
    simp only [List.head?_cons, there, Option.bind_some, if_pos (placed.small x inside)]
    have here : lastOf 0 (front ++ [x.addr]) = x.addr := lastOf_concat _ _ _
    rw [← here]
    exact ih (by simpa using split) (Nat.lt_of_succ_lt_succ enough)

theorem Placed.walk_level (placed : s.Placed l r key) (low : i ≤ s.max_level)
    {front rest : List Nat} (split : addrs i l = front ++ rest) :
    s.walk key i s.fresh (lastOf 0 front) = some (lastOf 0 (addrs i l)) := by
  refine placed.walk low split ?_
  have length := placed.rep.length_lt
  have few := (addrs_sublist i l).length_le
  rw [split, List.length_append, List.length_map] at few
  rw [List.length_append] at length
  omega

theorem Placed.seek (placed : s.Placed l r key) (low : i ≤ s.max_level) (front : List Nat) {rest : List Nat}
    (split : addrs i l = front ++ rest) :
    s.seek key i (lastOf 0 front) = some (lastOf 0 (addrs 0 l)) := by
  induction i generalizing front rest with
  | zero => exact placed.walk_level low split
  | succ i ih =>
    obtain ⟨front', rest', split', same⟩ := exists_split_of_sublist (addrs_succ i l) 0
    rw [SkipList.seek, placed.walk_level low split, Option.bind_some, ← same]
    exact ih (Nat.le_of_succ_le low) front' split'

theorem Placed.descend (placed : s.Placed l r key) (low : i ≤ s.max_level) (front : List Nat) {rest : List Nat}
    (split : addrs i l = front ++ rest) (update : Nat → Option Nat) :
    ∃ update', s.descend key i (lastOf 0 front) update = some (lastOf 0 (addrs 0 l), update') ∧
      (∀ j ≤ i, update' j = some (lastOf 0 (addrs j l))) ∧ ∀ j, i < j → update' j = update j := by
  induction i generalizing front rest update with
  | zero =>
    refine ⟨_, by rw [SkipList.descend, placed.walk_level low split, Option.map_some], ?_, ?_⟩
    · intro j le
      obtain rfl := Nat.le_zero.mp le
      simp
    · intro j more
      simp [Nat.ne_of_gt more]
  | succ i ih =>
    obtain ⟨front', rest', split', same⟩ := exists_split_of_sublist (addrs_succ i l) 0
    rw [SkipList.descend, placed.walk_level low split, Option.bind_some]
    obtain ⟨update', done, filled, others⟩ := ih (Nat.le_of_succ_le low) front' split'
      (Function.update update (i + 1) (some (lastOf 0 (addrs (i + 1) l))))
    rw [same] at done
    refine ⟨update', done, fun j le => ?_, fun j more => ?_⟩
    · rcases Nat.lt_or_eq_of_le le with less | rfl
      · exact filled j (Nat.le_of_lt_succ less)
      · rw [others _ (Nat.lt_succ_self i), Function.update_self]
    · rw [others j (Nat.lt_of_succ_lt more), Function.update_of_ne (Nat.ne_of_gt more)]

end SkipList

end ProjectsCpp.Skiplist
