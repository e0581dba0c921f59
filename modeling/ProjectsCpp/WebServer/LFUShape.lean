import ProjectsCpp.WebServer.LFUCache
import Mathlib.Data.List.Flatten

/-! What the heaps of the LFU cache represent: a list of rows, each with its frequency and its
nodes in the order of the pointers, and what each operation on the pointers does to the rows. -/

namespace ProjectsCpp.WebServer
open ProjectsCpp.Text ProjectsCpp.LinkedList

/-- A node of the frequency list with its inner list. -/
structure Row where
  addr : Nat
  freq : Int
  dummy : Nat
  nodes : List Nat

namespace Row

def content (row : Row) : KeyList := ⟨row.freq, row.dummy, row.nodes.getLastD row.dummy⟩

def cells (row : Row) : List Nat := row.dummy :: row.nodes

/-- What remains of the row once it is dropped if empty. -/
def kept (row : Row) : List Row := if row.nodes = [] then [] else [row]

end Row

/-- The rows as they stand on the heaps, in any order. -/
structure Stored (keys : Heap Key) (lists : Heap KeyList) (rows : List Row) : Prop where
  addrs : (rows.map Row.addr).Nodup
  content : ∀ row ∈ rows, valueOf lists row.addr = some row.content
  linked : ∀ row ∈ rows, Linked keys row.dummy row.nodes
  cells : (rows.flatMap Row.cells).Nodup

namespace Stored
variable {keys keys' : Heap Key} {lists lists' : Heap KeyList} {rows rows' : List Row} {row : Row}
  {x z : Nat}

theorem perm (stored : Stored keys lists rows) (same : rows.Perm rows') :
    Stored keys lists rows' where
  addrs := (same.map _).nodup_iff.mp stored.addrs
  content := fun row inside => stored.content row (same.mem_iff.mpr inside)
  linked := fun row inside => stored.linked row (same.mem_iff.mpr inside)
  cells := (same.flatMap_right _).nodup_iff.mp stored.cells

theorem apart (stored : Stored keys lists (row :: rows)) :
    row.cells.Nodup ∧ (rows.flatMap Row.cells).Nodup ∧
      ∀ other ∈ rows, ∀ z ∈ other.cells, z ∉ row.cells := by
  obtain ⟨own, others, disjoint⟩ := List.nodup_append'.mp (List.flatMap_cons ▸ stored.cells)
  exact ⟨own, others, fun other inside z cell mine =>
    disjoint mine (List.mem_flatMap.mpr ⟨other, inside, cell⟩)⟩

theorem same_row {other : Row} (stored : Stored keys lists rows) (left : row ∈ rows)
    (right : other ∈ rows) (mine : z ∈ row.cells) (its : z ∈ other.cells) : row = other := by
  obtain ⟨l, r, rfl⟩ := List.append_of_mem left
  rcases List.mem_cons.mp (List.perm_middle.mem_iff.mp right) with rfl | right
  · rfl
  · exact absurd mine ((stored.perm List.perm_middle).apart.2.2 other right z its)

theorem replace (stored : Stored keys lists (row :: rows)) {nodes cut after : List Nat}
    (edited : Edited keys keys' row.dummy nodes cut after)
    (wrote : Wrote lists lists' row.addr { row with nodes := nodes }.content)
    (foreign : ∀ other ∈ rows, x ∉ other.cells) (once : (row.dummy :: nodes).Nodup)
    (inNodes : ∀ z ∈ nodes, z ∈ x :: row.cells) (inCut : ∀ z ∈ cut, z ∈ x :: row.cells)
    (inAfter : ∀ z ∈ after, z ∈ x :: row.cells) :
    Stored keys' lists' ({ row with nodes := nodes } :: rows) := by
  obtain ⟨-, others, apart⟩ := stored.apart
  have away : ∀ other ∈ rows, ∀ z ∈ other.cells, z ∉ x :: row.cells :=
    fun other inside z cell mine => (List.mem_cons.mp mine).elim
      (fun same => foreign other inside (same ▸ cell)) (apart other inside z cell)
  refine ⟨stored.addrs, fun other inside => ?_, fun other inside => ?_, ?_⟩
  · rcases List.mem_cons.mp inside with rfl | inside
    · exact wrote.value
    · rw [wrote.others _ fun same => (List.nodup_cons.mp stored.addrs).1
        (same ▸ List.mem_map_of_mem inside)]
      exact stored.content other (.tail _ inside)
  · rcases List.mem_cons.mp inside with rfl | inside
    · exact edited.linked
    · exact (stored.linked other (.tail _ inside)).edited edited
        (fun z cell touched => away other inside z cell (inCut z touched))
        fun z cell touched => away other inside z (.tail _ cell) (inAfter z touched)
  · rw [List.flatMap_cons]
    refine List.nodup_append'.mpr ⟨once, others, fun z mine elsewhere => ?_⟩
    obtain ⟨other, inside, cell⟩ := List.mem_flatMap.mp elsewhere
    refine away other inside z cell ?_
    rcases List.mem_cons.mp mine with rfl | mine
    · exact .tail _ (.head _)
    · exact inNodes z mine

theorem frame (stored : Stored keys lists rows)
    (value : ∀ z ∈ rows.map Row.addr, valueOf lists' z = valueOf lists z)
    (kept : ∀ z ∈ rows.flatMap Row.cells, keys' z = keys z) : Stored keys' lists' rows := by
  refine ⟨stored.addrs, fun other inside => ?_, fun other inside => ?_, stored.cells⟩
  · rw [value _ (List.mem_map_of_mem inside)]
    exact stored.content other inside
  · have old : ∀ z ∈ other.cells, keys' z = keys z :=
      fun z cell => kept z (List.mem_flatMap.mpr ⟨other, inside, cell⟩)
    refine (stored.linked other inside).congr (fun z cell => ?_) fun z cell => ?_
    · rw [nextOf, nextOf, old z cell]
    · rw [preOf, preOf, old z (.tail _ cell)]

theorem tail (stored : Stored keys lists (row :: rows)) : Stored keys lists rows where
  addrs := (List.nodup_cons.mp stored.addrs).2
  content := fun other inside => stored.content other (.tail _ inside)
  linked := fun other inside => stored.linked other (.tail _ inside)
  cells := stored.apart.2.1

theorem cons (stored : Stored keys lists rows) (bare : row.nodes = [])
    (content : valueOf lists row.addr = some row.content)
    (linked : nextOf keys row.dummy = some none) (newAddr : row.addr ∉ rows.map Row.addr)
    (newCell : row.dummy ∉ rows.flatMap Row.cells) : Stored keys lists (row :: rows) := by
  refine ⟨List.nodup_cons.mpr ⟨newAddr, stored.addrs⟩, fun other inside => ?_,
    fun other inside => ?_, ?_⟩
  · rcases List.mem_cons.mp inside with rfl | inside
    · exact content
    · exact stored.content other inside
  · rcases List.mem_cons.mp inside with rfl | inside
    · rw [bare]
      exact linked
    · exact stored.linked other inside
  · rw [List.flatMap_cons, Row.cells, bare]
    exact List.nodup_cons.mpr ⟨newCell, stored.cells⟩

end Stored

namespace LFUCache

/-- `top` stands for the dummy head of the frequency list. Rows may be empty here, as they are in
the middle of an operation. -/
structure Shape (c : LFUCache) (top : Row) (rest : List Row) : Prop where
  head : top.addr = c.dummyHead
  zero : top.freq = 0
  bare : top.nodes = []
  lists : Linked c.lists top.addr (rest.map Row.addr)
  stored : Stored c.keys c.lists (top :: rest)
  fresh : ∀ a, c.fresh ≤ a → c.keys a = none ∧ c.lists a = none

/-- What an operation on the lists leaves alone: the maps, and the keys of all nodes but `dead`. -/
structure Frame (c c' : LFUCache) (dead : List Nat) : Prop where
  dummyHead : c'.dummyHead = c.dummyHead
  capacity : c'.capacity = c.capacity
  kmap : c'.kmap = c.kmap
  fmap : c'.fmap = c.fmap
  value : ∀ z, valueOf c.keys z ≠ none → z ∉ dead → valueOf c'.keys z = valueOf c.keys z

variable {c c' d : LFUCache} {top row : Row} {rest l r : List Row} {f x z : Nat}

theorem Frame.mono {dead more : List Nat} (frame : Frame c c' dead) (sub : dead ⊆ more) :
    Frame c c' more :=
  { frame with value := fun z alive kept => frame.value z alive fun inside => kept (sub inside) }

theorem Frame.trans {dead : List Nat} (first : Frame c c' dead) (second : Frame c' d dead) :
    Frame c d dead where
  dummyHead := second.dummyHead.trans first.dummyHead
  capacity := second.capacity.trans first.capacity
  kmap := second.kmap.trans first.kmap
  fmap := second.fmap.trans first.fmap
  value := fun z alive kept => by
    have same := first.value z alive kept
    rw [second.value z (same ▸ alive) kept, same]

theorem Frame.insert {dead : List Nat} (frame : Frame c c' dead) (key : Str) (f : Nat) :
    Frame { c with fmap := c.fmap.insert key f } { c' with fmap := c'.fmap.insert key f } dead :=
  ⟨frame.dummyHead, frame.capacity, frame.kmap, congrArg (AList.insert key f) frame.fmap,
    frame.value⟩

/-- The list of the next frequency is the one that follows, if it has that frequency, or else a
new one. -/
def Next (c : LFUCache) (row nxt : Row) (r r' : List Row) : Prop :=
  nxt.freq = row.freq + 1 ∧ (nxt :: r' = r ∨ nxt.nodes = [] ∧ valueOf c.keys nxt.dummy = none ∧
    r' = r ∧ ∀ after ∈ r.head?, after.freq ≠ row.freq + 1)

theorem Next.outside {nxt : Row} {r' : List Row} (next : Next c row nxt r r')
    (alive : valueOf c.keys x ≠ none) (outside : x ∉ r.flatMap Row.cells) :
    x ∉ (nxt :: r').flatMap Row.cells := by
  rcases next.2 with rfl | ⟨bare, dead, rfl, -⟩
  · exact outside
  · rw [List.flatMap_cons, Row.cells, bare]
    intro member
    rcases List.mem_cons.mp member with rfl | member
    · exact alive dead
    · exact outside member

namespace Shape

theorem middle : (top :: (l ++ row :: r)).Perm (row :: (top :: (l ++ r))) :=
  show ((top :: l) ++ row :: r).Perm (row :: ((top :: l) ++ r)) from List.perm_middle

theorem getFreq (shape : Shape c top rest) (inside : row ∈ top :: rest) :
    c.getFreq row.addr = some row.freq := by
  rw [LFUCache.getFreq, shape.stored.content row inside]
  rfl

theorem getLast (shape : Shape c top rest) (inside : row ∈ top :: rest) :
    c.getLast row.addr = some (row.nodes.getLastD row.dummy) := by
  rw [LFUCache.getLast, shape.stored.content row inside]
  rfl

theorem cell_alive (shape : Shape c top rest) (inside : row ∈ top :: rest) (cell : z ∈ row.cells) :
    valueOf c.keys z ≠ none := (shape.stored.linked row inside).alive cell

theorem cell_lt (shape : Shape c top rest) (inside : row ∈ top :: rest) (cell : z ∈ row.cells) :
    z < c.fresh :=
  Nat.lt_of_not_le fun above =>
    shape.cell_alive inside cell (valueOf_eq_none.mpr (shape.fresh z above).1)

theorem addr_lt (shape : Shape c top rest) (inside : row ∈ top :: rest) : row.addr < c.fresh := by
  refine Nat.lt_of_not_le fun above => ?_
  have found := shape.stored.content row inside
  rw [valueOf_eq_none.mpr (shape.fresh _ above).2] at found
  cases found

theorem own_nodup (shape : Shape c top rest) (inside : row ∈ top :: rest) : row.cells.Nodup :=
  (List.nodup_flatMap.mp shape.stored.cells).1 row inside

theorem isEmpty (shape : Shape c top rest) (inside : row ∈ top :: rest) :
    c.isEmpty row.addr = some (decide (row.nodes = [])) := by
  rw [LFUCache.isEmpty, shape.stored.content row inside]
  refine congrArg some (decide_eq_decide.mpr ?_)
  have alone : row.dummy ∉ row.nodes := (List.nodup_cons.mp (shape.own_nodup inside)).1
  rcases List.eq_nil_or_concat row.nodes with none | ⟨xs, y, some⟩
  · simp [Row.content, none]
  · rw [List.concat_eq_append] at some
    have last : row.content.tail = y := by simp [Row.content, some]
    rw [last]
    refine ⟨fun same => absurd ?_ alone, fun nil => by simp [nil] at some⟩
    rw [some, show row.dummy = y from same]
    exact List.mem_append_right _ (List.mem_singleton_self y)

theorem edit (shape : Shape c top (l ++ row :: r)) {keys' : Heap Key} {lists' : Heap KeyList}
    {nodes cut after : List Nat} (edited : Edited c.keys keys' row.dummy nodes cut after)
    (wrote : Wrote c.lists lists' row.addr { row with nodes := nodes }.content)
    (foreign : ∀ other ∈ top :: (l ++ r), x ∉ other.cells) (once : (row.dummy :: nodes).Nodup)
    (inNodes : ∀ z ∈ nodes, z ∈ x :: row.cells) (inCut : ∀ z ∈ cut, z ∈ x :: row.cells)
    (inAfter : ∀ z ∈ after, z ∈ x :: row.cells) :
    Shape { c with keys := keys', lists := lists' } top (l ++ { row with nodes := nodes } :: r) ∧
      Frame c { c with keys := keys', lists := lists' } [] := by
  refine ⟨⟨shape.head, shape.zero, shape.bare, ?_, ?_, fun a above => ?_⟩,
    rfl, rfl, rfl, rfl, fun z _ _ => congrFun edited.value z⟩
  · have linked := shape.lists
    simp only [List.map_append, List.map_cons] at linked ⊢
    exact linked.congr (fun z _ => congrFun wrote.next z) fun z _ => congrFun wrote.pre z
  · exact ((shape.stored.perm middle).replace edited wrote foreign once inNodes inCut inAfter).perm
      middle.symm
  · have other : a ≠ row.addr :=
      (Nat.lt_of_lt_of_le (shape.addr_lt (.tail _ (List.mem_append_right _ (.head _)))) above).ne'
    rw [← valueOf_eq_none, ← valueOf_eq_none, edited.value, wrote.others a other]
    exact ⟨valueOf_eq_none.mpr (shape.fresh a above).1, valueOf_eq_none.mpr (shape.fresh a above).2⟩

theorem setTail {list : KeyList} (c : LFUCache) (tail : Nat)
    (found : valueOf c.lists f = some list) :
    ∃ lists', c.setTail f tail = some { c with lists := lists' } ∧
      Wrote c.lists lists' f { list with tail := tail } := by
  obtain ⟨lists', done, wrote⟩ := setValue_spec (h := c.lists) (a := f)
    (v := { list with tail := tail }) (by simp [found])
  exact ⟨lists', by rw [LFUCache.setTail, found, Option.bind_some, done]; rfl, wrote⟩

theorem outside_of (cut : x ∉ (top :: (l ++ row :: r)).flatMap Row.cells) :
    x ∉ row.cells ∧ ∀ other ∈ top :: (l ++ r), x ∉ other.cells := by
  rw [(middle.flatMap_right _).mem_iff, List.flatMap_cons, List.mem_append, not_or] at cut
  exact ⟨cut.1, fun other inside cell => cut.2 (List.mem_flatMap.mpr ⟨other, inside, cell⟩)⟩

theorem delKey (shape : Shape c top (l ++ row :: r)) {xs ys : List Nat}
    (nodes : row.nodes = xs ++ x :: ys) :
    ∃ c', c.delKey row.addr x = some c' ∧
      Shape c' top (l ++ { row with nodes := xs ++ ys } :: r) ∧ Frame c c' [] := by
  have inside : row ∈ top :: (l ++ row :: r) := .tail _ (List.mem_append_right _ (.head _))
  have linked := shape.stored.linked row inside
  have once := shape.own_nodup inside
  rw [Row.cells, nodes] at once
  rw [nodes] at linked
  obtain ⟨keys', done, edited⟩ := unlink_within linked once
  obtain ⟨path, behind⟩ := linked_append.mp linked
  obtain ⟨there, found, pre⟩ := Option.map_eq_some_iff.mp path.pre
  have next : there.next = ys.head? := by
    have out := behind.next
    rw [nextOf, found] at out
    exact Option.some.inj out
  have cell : x ∈ row.cells := .tail _ (nodes ▸ List.mem_append_right _ (.head _))
  have foreign : ∀ other ∈ top :: (l ++ r), x ∉ other.cells :=
    fun other away mine => (shape.stored.perm middle).apart.2.2 other away x mine cell
  have sub : ∀ z, z ∈ row.dummy :: (xs ++ ys) → z ∈ row.cells := fun z mine => by
    simp only [Row.cells, nodes, List.mem_cons, List.mem_append] at mine ⊢
    tauto
  have fewer : (row.dummy :: (xs ++ ys)).Nodup :=
    once.sublist (((List.sublist_cons_self x ys).append_left xs).cons_cons row.dummy)
  have ready : ∀ lists', Wrote c.lists lists' row.addr { row with nodes := xs ++ ys }.content →
      Shape { c with keys := keys', lists := lists' } top
        (l ++ { row with nodes := xs ++ ys } :: r) ∧
      Frame c { c with keys := keys', lists := lists' } [] := fun lists' wrote =>
    shape.edit edited wrote foreign fewer (fun z mine => .tail _ (sub z (.tail _ mine)))
      (fun z mine => .tail _ (sub z (by
        rcases List.mem_cons.mp mine with rfl | mine
        · exact .head _
        · exact .tail _ (List.mem_append_left _ mine))))
      fun z mine => .tail _ (sub z (.tail _ (List.mem_append_right _ mine)))
  cases ys with
  | nil =>
    obtain ⟨lists', written, wrote⟩ := setTail { c with keys := keys' } (xs.getLastD row.dummy)
      (shape.stored.content row inside)
    refine ⟨_, ?_, ready lists' ?_⟩
    · rw [LFUCache.delKey, found, Option.bind_some, done, Option.bind_some, next,
        if_pos List.head?_nil, pre, Option.bind_some]
      exact written
    · rwa [List.append_nil]
  | cons y ys =>
    refine ⟨_, ?_, ready c.lists (.refl ?_)⟩
    · rw [LFUCache.delKey, found, Option.bind_some, done, Option.bind_some, next,
        if_neg (by simp)]
    · rw [shape.stored.content row inside]
      simp [Row.content, nodes, List.getLastD_eq_getLast?]

theorem addKey (shape : Shape c top (l ++ row :: r)) (alive : valueOf c.keys x ≠ none)
    (new : x ∉ (top :: (l ++ row :: r)).flatMap Row.cells) :
    ∃ c', c.addKey row.addr x = some c' ∧
      Shape c' top (l ++ { row with nodes := x :: row.nodes } :: r) ∧ Frame c c' [] := by
  have inside : row ∈ top :: (l ++ row :: r) := .tail _ (List.mem_append_right _ (.head _))
  have linked := shape.stored.linked row inside
  obtain ⟨own, foreign⟩ := outside_of new
  obtain ⟨keys', done, edited⟩ := insertAfter_spec linked alive own (shape.own_nodup inside)
  have once : (row.dummy :: x :: row.nodes).Nodup := by
    obtain ⟨alone, once⟩ := List.nodup_cons.mp (shape.own_nodup inside)
    obtain ⟨unlike, outside⟩ : x ≠ row.dummy ∧ x ∉ row.nodes := by simpa [Row.cells] using own
    refine List.nodup_cons.mpr ⟨fun mine => ?_, List.nodup_cons.mpr ⟨outside, once⟩⟩
    exact (List.mem_cons.mp mine).elim (fun same => unlike same.symm) alone
  have sub : ∀ z ∈ x :: row.nodes, z ∈ x :: row.cells := fun z mine =>
    (List.mem_cons.mp mine).elim (fun same => same ▸ .head _) fun mine => .tail _ (.tail _ mine)
  have ready : ∀ lists', Wrote c.lists lists' row.addr { row with nodes := x :: row.nodes }.content →
      Shape { c with keys := keys', lists := lists' } top
        (l ++ { row with nodes := x :: row.nodes } :: r) ∧
      Frame c { c with keys := keys', lists := lists' } [] := fun lists' wrote =>
    shape.edit edited wrote foreign once sub (fun z mine => by
      rcases List.mem_cons.mp mine with rfl | mine
      · exact .tail _ (.head _)
      · exact List.mem_singleton.mp mine ▸ .head _) sub
  have start : c.addKey row.addr x = if row.nodes.head? = none then
      { c with keys := keys' }.setTail row.addr x else some { c with keys := keys' } := by
    rw [LFUCache.addKey, shape.stored.content row inside, Option.bind_some]
    simp only [Row.content]
    rw [linked.next, Option.bind_some, done, Option.bind_some]
  rcases eq_or_ne row.nodes [] with found | found
  · obtain ⟨lists', written, wrote⟩ := setTail { c with keys := keys' } x
      (shape.stored.content row inside)
    refine ⟨_, ?_, ready lists' ?_⟩
    · rw [start, if_pos (by rw [found]; rfl), written]
    · simpa [Row.content, found] using wrote
  · obtain ⟨y, ys, found⟩ := List.exists_cons_of_ne_nil found
    refine ⟨_, ?_, ready c.lists (.refl ?_)⟩
    · rw [start, if_neg (by simp [found])]
    · rw [shape.stored.content row inside]
      simp [Row.content, found]

theorem dummy_alone (shape : Shape c top rest) (inside : row ∈ top :: rest) :
    row.dummy ∉ row.nodes := (List.nodup_cons.mp (shape.own_nodup inside)).1

theorem cell_lt_of_mem (shape : Shape c top rest) (cell : z ∈ (top :: rest).flatMap Row.cells) :
    z < c.fresh :=
  let ⟨_, inside, cell⟩ := List.mem_flatMap.mp cell
  shape.cell_lt inside cell

theorem addr_lt_of_mem (shape : Shape c top rest) (addr : z ∈ (top :: rest).map Row.addr) :
    z < c.fresh :=
  let ⟨_, inside, same⟩ := List.mem_map.mp addr
  same ▸ shape.addr_lt inside

theorem newKey (shape : Shape c top rest) (content : Key) :
    Shape (c.newKey content) top rest ∧ Frame c (c.newKey content) [] ∧
      valueOf (c.newKey content).keys c.fresh = some content ∧
      c.fresh ∉ (top :: rest).flatMap Row.cells := by
  have other : ∀ z, z ≠ c.fresh → (c.newKey content).keys z = c.keys z :=
    fun z apart => Function.update_of_ne apart ..
  refine ⟨⟨shape.head, shape.zero, shape.bare, shape.lists, shape.stored.frame (fun _ _ => rfl)
    fun z cell => other z (shape.cell_lt_of_mem cell).ne, fun a above => ?_⟩,
    ⟨rfl, rfl, rfl, rfl, fun z alive _ => ?_⟩, ?_,
    fun cell => Nat.lt_irrefl _ (shape.cell_lt_of_mem cell)⟩
  · have later : c.fresh + 1 ≤ a := above
    rw [other a (by omega)]
    exact shape.fresh a (by omega)
  · rw [valueOf, valueOf, other z fun same => alive ?_]
    rw [same, valueOf_eq_none]
    exact (shape.fresh _ (Nat.le_refl _)).1
  · simp [LFUCache.newKey, valueOf]

theorem discard (shape : Shape c top rest) (outside : x ∉ (top :: rest).flatMap Row.cells) :
    Shape { c with keys := Function.update c.keys x none } top rest ∧
      Frame c { c with keys := Function.update c.keys x none } [x] := by
  have other : ∀ z, z ≠ x → Function.update c.keys x none z = c.keys z :=
    fun z apart => Function.update_of_ne apart ..
  refine ⟨⟨shape.head, shape.zero, shape.bare, shape.lists, shape.stored.frame (fun _ _ => rfl)
    fun z cell => other z fun same => outside (same ▸ cell), fun a above => ⟨?_, ?_⟩⟩,
    rfl, rfl, rfl, rfl, fun z _ kept => ?_⟩
  · by_cases same : a = x
    · rw [same]
      exact Function.update_self ..
    · exact (other a same).trans (shape.fresh a above).1
  · exact (shape.fresh a above).2
  · exact congrArg (Option.map Node.value) (other z fun same => kept (same ▸ .head _))

theorem destory_bare {keys : Heap Key} {rounds : Nat} (positive : 0 < rounds)
    (last : nextOf keys x = some none) :
    destory keys rounds (some x) = some (Function.update keys x none) := by
  obtain ⟨rounds, rfl⟩ := Nat.exists_eq_add_of_lt positive
  rw [Nat.zero_add, destory, last, Option.bind_some, destory]

theorem delList (shape : Shape c top (l ++ row :: r)) (bare : row.nodes = []) :
    ∃ c', c.delList row.addr = some c' ∧ Shape c' top (l ++ r) ∧ Frame c c' [row.dummy] := by
  have inside : row ∈ top :: (l ++ row :: r) := .tail _ (List.mem_append_right _ (.head _))
  have turned := shape.stored.perm middle
  have addrs := shape.stored.addrs
  have linked := shape.lists
  simp only [List.map_cons, List.map_append] at linked addrs
  obtain ⟨lists', done, edited⟩ := unlink_within linked addrs
  have last : nextOf c.keys row.dummy = some none := by
    have list := shape.stored.linked row inside
    rwa [bare] at list
  have positive : 0 < c.fresh := Nat.lt_of_le_of_lt (Nat.zero_le _) (shape.addr_lt inside)
  have unlike : row.addr ∉ (top :: (l ++ r)).map Row.addr := (List.nodup_cons.mp turned.addrs).1
  have kept : ∀ z, z ≠ row.addr → Function.update lists' row.addr none z = lists' z :=
    fun z apart => Function.update_of_ne apart ..
  have away : ∀ z ∈ (top :: (l ++ r)).map Row.addr, z ≠ row.addr :=
    fun z addr same => unlike (same ▸ addr)
  refine ⟨{ c with
      keys := Function.update c.keys row.dummy none
      lists := Function.update lists' row.addr none }, ?_,
    ⟨shape.head, shape.zero, shape.bare, ?_, ?_, fun a above => ⟨?_, ?_⟩⟩,
    ⟨rfl, rfl, rfl, rfl, fun z _ alive => ?_⟩⟩
  · rw [LFUCache.delList, done, Option.bind_some, edited.value, shape.stored.content row inside,
      Option.bind_some]
    simp only [Row.content]
    rw [destory_bare positive last]
    rfl
  · simp only [List.map_append]
    refine edited.linked.congr (fun z inside => ?_) fun z inside => ?_
    · rw [nextOf, nextOf, kept z (away z (by simpa only [List.map_cons, List.map_append] using inside))]
    · refine congrArg (Option.map Node.pre) (kept z (away z (.tail _ ?_)))
      rwa [← List.map_append] at inside
  · refine turned.tail.frame (fun z addr => ?_) fun z cell => ?_
    · exact (congrArg (Option.map Node.value) (kept z (away z addr))).trans
        (congrFun edited.value z)
    · refine Function.update_of_ne (fun same => ?_) ..
      obtain ⟨other, inside, cell⟩ := List.mem_flatMap.mp cell
      exact turned.apart.2.2 other inside z cell (same ▸ .head _)
  · simp only [Function.update_apply]
    split
    · rfl
    · exact (shape.fresh a above).1
  · refine (kept a (Nat.lt_of_lt_of_le (shape.addr_lt inside) above).ne').trans ?_
    rw [← valueOf_eq_none, edited.value, valueOf_eq_none]
    exact (shape.fresh a above).2
  · exact congrArg (Option.map Node.value)
      (Function.update_of_ne (fun same : z = row.dummy => alive (same ▸ .head _)) ..)

theorem newList_linked (shape : Shape c top rest) (freq : Int) :
    Linked (c.newList freq).lists top.addr (rest.map Row.addr) := by
  have other : ∀ z ∈ top.addr :: rest.map Row.addr, (c.newList freq).lists z = c.lists z :=
    fun z inside => Function.update_of_ne
      (Nat.ne_of_lt (Nat.lt_succ_of_lt (shape.addr_lt_of_mem inside))) ..
  exact shape.lists.congr (fun z inside => congrArg (Option.map Node.next) (other z inside))
    fun z inside => congrArg (Option.map Node.pre) (other z (.tail _ inside))

theorem makeList (shape : Shape c top rest) (cut : top :: rest = l ++ row :: r) (freq : Int) :
    ∃ lists' rest', top :: rest' = l ++ row :: ⟨c.fresh + 1, freq, c.fresh, []⟩ :: r ∧
      insertAfter (c.newList freq).lists row.addr (c.fresh + 1) = some lists' ∧
      Shape { c.newList freq with lists := lists' } top rest' ∧
      Frame c { c.newList freq with lists := lists' } [] := by
  have below : ∀ z ∈ (top :: rest).map Row.addr, z < c.fresh := fun _ => shape.addr_lt_of_mem
  have addrs := congrArg (List.map Row.addr) cut
  simp only [List.map_cons, List.map_append] at addrs
  have new : c.fresh + 1 ∉ (top :: rest).map Row.addr := fun inside => by
    have := below _ inside
    omega
  obtain ⟨lists', ys, whole, done, edited⟩ := insertAfter_any (shape.newList_linked freq) addrs
    (x := c.fresh + 1) (by simp [newList, valueOf]) new shape.stored.addrs
  have kept : ∀ z, z ≠ c.fresh → (c.newList freq).keys z = c.keys z :=
    fun z apart => Function.update_of_ne apart ..
  have value : ∀ z, z ≠ c.fresh + 1 → valueOf lists' z = valueOf c.lists z := fun z apart =>
    (congrFun edited.value z).trans (congrArg (Option.map Node.value) (Function.update_of_ne apart ..))
  have own : valueOf lists' (c.fresh + 1) = some ⟨freq, c.fresh, c.fresh⟩ := by
    rw [edited.value]
    simp [newList, valueOf]
  obtain ⟨rest', wholeRows⟩ :
      ∃ rest', top :: rest' = l ++ row :: ⟨c.fresh + 1, freq, c.fresh, []⟩ :: r := by
    cases l with
    | nil => exact ⟨_, congrArg (· :: _) (List.cons.inj cut).1⟩
    | cons first l => exact ⟨_, congrArg (· :: _) (List.cons.inj cut).1⟩
  have names : ys = rest'.map Row.addr := by
    have same := congrArg (List.map Row.addr) wholeRows
    simp only [List.map_cons, List.map_append] at same
    rw [← whole] at same
    exact (List.cons.inj same).2.symm
  have turned : (⟨c.fresh + 1, freq, c.fresh, []⟩ :: top :: rest : List Row).Perm (top :: rest') := by
    have middle : (l ++ [row] ++ ⟨c.fresh + 1, freq, c.fresh, []⟩ :: r).Perm
        (⟨c.fresh + 1, freq, c.fresh, []⟩ :: (l ++ [row] ++ r)) := List.perm_middle
    rw [wholeRows, cut]
    simpa using middle.symm
  refine ⟨lists', rest', wholeRows, done, ⟨shape.head, shape.zero, shape.bare, ?_, ?_,
    fun a above => ?_⟩, rfl, rfl, rfl, rfl, fun z alive _ => ?_⟩
  · rw [← names]
    exact edited.linked
  · refine ((shape.stored.frame (fun z inside => value z (by have := below z inside; omega))
      fun z cell => kept z (shape.cell_lt_of_mem cell).ne).cons rfl own ?_ new ?_).perm turned
    · simp [newList, nextOf]
    · exact fun cell => Nat.lt_irrefl _ (shape.cell_lt_of_mem cell)
  · have later : c.fresh + 2 ≤ a := above
    rw [← valueOf_eq_none (h := lists'), value a (by omega), valueOf_eq_none]
    exact ⟨(kept a (by omega)).trans (shape.fresh a (by omega)).1, (shape.fresh a (by omega)).2⟩
  · refine congrArg (Option.map Node.value) (kept z fun same => alive ?_)
    rw [same, valueOf_eq_none]
    exact (shape.fresh _ (Nat.le_refl _)).1

theorem next (shape : Shape c top rest) (cut : top :: rest = l ++ row :: r) :
    nextOf c.lists row.addr = some (r.map Row.addr).head? := by
  cases l with
  | nil =>
    obtain ⟨rfl, rfl⟩ := List.cons.inj cut
    exact shape.lists.next
  | cons first l =>
    obtain ⟨rfl, rfl⟩ := List.cons.inj cut
    have linked : Linked c.lists top.addr ((l ++ row :: r).map Row.addr) := shape.lists
    rw [List.map_append] at linked
    exact (linked_append.mp linked).2.next

theorem nextList (shape : Shape c top rest) (cut : top :: rest = l ++ row :: r)
    (room : row.freq ≠ intMax) :
    ∃ c' nxt r' rest', c.nextList row.addr = some (c', nxt.addr) ∧
      top :: rest' = l ++ row :: nxt :: r' ∧ Shape c' top rest' ∧ Frame c c' [] ∧
      Next c row nxt r r' := by
  have inside : row ∈ top :: rest := cut ▸ List.mem_append_right _ (.head _)
  have make : (∀ after ∈ r.head?, after.freq ≠ row.freq + 1) →
      ∃ c' nxt r' rest', (insertAfter (c.newList (row.freq + 1)).lists row.addr (c.fresh + 1)).map
        (fun lists => ({ c.newList (row.freq + 1) with lists := lists }, c.fresh + 1)) =
          some (c', nxt.addr) ∧ top :: rest' = l ++ row :: nxt :: r' ∧ Shape c' top rest' ∧
      Frame c c' [] ∧ Next c row nxt r r' := by
    intro other
    obtain ⟨lists', rest', whole, done, shape', frame⟩ := shape.makeList cut (row.freq + 1)
    exact ⟨_, ⟨c.fresh + 1, row.freq + 1, c.fresh, []⟩, r, rest', by rw [done]; rfl, whole, shape',
      frame, rfl, .inr ⟨rfl, valueOf_eq_none.mpr (shape.fresh _ (Nat.le_refl _)).1, rfl, other⟩⟩
  rw [LFUCache.nextList, shape.getFreq inside, Option.bind_some, shape.next cut, Option.bind_some,
    if_neg room]
  cases r with
  | nil => exact make nofun
  | cons after r' =>
    have behind : after ∈ top :: rest := cut ▸ List.mem_append_right _ (.tail _ (.head _))
    simp only [List.map_cons, List.head?_cons, shape.getFreq behind, Option.bind_some]
    by_cases same : after.freq = row.freq + 1
    · exact ⟨c, after, r', rest, if_neg (not_not.mpr same), cut, shape,
        ⟨rfl, rfl, rfl, rfl, fun _ _ _ => rfl⟩, same, .inl rfl⟩
    · rw [if_pos same]
      exact make fun first member => Option.some.inj member ▸ same

theorem with_maps (shape : Shape c top rest) (kmap fmap : AList fun _ : Str => Nat) :
    Shape { c with kmap := kmap, fmap := fmap } top rest :=
  ⟨shape.head, shape.zero, shape.bare, shape.lists, shape.stored, shape.fresh⟩

theorem dropEmpty (shape : Shape c top (l ++ row :: r)) :
    ∃ c', c.dropEmpty row.addr = some c' ∧ Shape c' top (l ++ row.kept ++ r) ∧
      Frame c c' [row.dummy] := by
  have inside : row ∈ top :: (l ++ row :: r) := .tail _ (List.mem_append_right _ (.head _))
  rw [LFUCache.dropEmpty, shape.isEmpty inside, Option.bind_some, Row.kept]
  by_cases bare : row.nodes = []
  · obtain ⟨c', done, shape', frame⟩ := shape.delList bare
    refine ⟨c', ?_, ?_, frame⟩
    · rw [if_pos (decide_eq_true bare), done]
    · rwa [if_pos bare, List.append_nil]
  · refine ⟨c, if_neg (by simpa using bare), ?_, rfl, rfl, rfl, rfl, fun _ _ _ => rfl⟩
    rwa [if_neg bare, List.append_assoc]

theorem assertFull (shape : Shape c top rest) (inside : row ∈ top :: rest)
    (full : row.nodes ≠ []) : c.assertFull row.addr = some c := by
  rw [LFUCache.assertFull, shape.isEmpty inside, Option.bind_some, if_neg (by simpa using full)]

theorem addFreq_new (shape : Shape c top rest) {content : Key}
    (found : valueOf c.keys x = some content) (new : x ∉ (top :: rest).flatMap Row.cells) :
    ∃ c' nxt r', c.addFreq x c.dummyHead = some c' ∧
      Shape c' top ({ nxt with nodes := x :: nxt.nodes } :: r') ∧
      Frame { c with fmap := c.fmap.insert content.key nxt.addr } c' [] ∧
      Next c top nxt rest r' := by
  have room : top.freq ≠ intMax := by
    rw [shape.zero]
    decide
  have alive : valueOf c.keys x ≠ none := by simp [found]
  obtain ⟨c₁, nxt, r', rest', made, whole, shape₁, frame₁, next⟩ :=
    shape.nextList (l := []) rfl room
  obtain ⟨-, rfl⟩ := List.cons.inj whole
  have found₁ : valueOf c₁.keys x = some content := by
    rw [frame₁.value x alive List.not_mem_nil, found]
  have new₁ : x ∉ (top :: ([] ++ nxt :: r')).flatMap Row.cells := by
    rw [List.flatMap_cons, List.mem_append, not_or] at new ⊢
    exact ⟨new.1, next.outside alive new.2⟩
  have shape₂ : Shape { c₁ with fmap := c₁.fmap.insert content.key nxt.addr } top
      ([] ++ nxt :: r') := shape₁.with_maps _ _
  obtain ⟨c₃, added, shape₃, frame₃⟩ := shape₂.addKey (x := x) (found₁ ▸ Option.some_ne_none _) new₁
  have head₁ : top.addr = c₁.dummyHead := shape.head.trans frame₁.dummyHead.symm
  refine ⟨c₃, nxt, r', ?_, shape₃, ?_, next⟩
  · rw [LFUCache.addFreq, ← shape.head, made]
    simp only [Option.bind_some, found₁]
    rw [leaveList, if_neg (not_not.mpr head₁), Option.bind_some, added, Option.bind_some,
      shape₃.assertFull (.tail _ (.head _)) (List.cons_ne_nil _ _), Option.bind_some,
      if_neg (not_not.mpr (head₁.trans frame₃.dummyHead.symm))]
  · exact (frame₁.insert content.key nxt.addr).trans frame₃

theorem addFreq_move (shape : Shape c top (l ++ row :: r)) {content : Key} {xs ys : List Nat}
    (nodes : row.nodes = xs ++ x :: ys) (found : valueOf c.keys x = some content)
    (room : row.freq ≠ intMax) :
    ∃ c' nxt r', c.addFreq x row.addr = some c' ∧
      Shape c' top (l ++ { row with nodes := xs ++ ys }.kept ++
        { nxt with nodes := x :: nxt.nodes } :: r') ∧
      Frame { c with fmap := c.fmap.insert content.key nxt.addr } c' [row.dummy] ∧
      Next c row nxt r r' := by
  obtain ⟨c₁, nxt, r', rest', made, whole, shape₁, frame₁, next⟩ :=
    shape.nextList (l := top :: l) rfl room
  obtain ⟨-, rfl⟩ := List.cons.inj whole
  have alive : valueOf c.keys x ≠ none := by simp [found]
  have found₁ : valueOf c₁.keys x = some content := by
    rw [frame₁.value x alive List.not_mem_nil, found]
  have shape₂ : Shape { c₁ with fmap := c₁.fmap.insert content.key nxt.addr } top
      (l ++ row :: nxt :: r') := shape₁.with_maps _ _
  obtain ⟨c₃, left, shape₃, frame₃⟩ := shape₂.delKey nodes
  have turned := shape₂.stored.perm middle
  have cell : x ∈ row.cells := .tail _ (nodes ▸ List.mem_append_right _ (.head _))
  have new₃ : x ∉ (top :: (l ++ { row with nodes := xs ++ ys } :: nxt :: r')).flatMap Row.cells := by
    rw [(middle.flatMap_right _).mem_iff, List.flatMap_cons, List.mem_append, not_or]
    refine ⟨?_, fun member => ?_⟩
    · have once := turned.apart.1
      rw [Row.cells, nodes, ← List.cons_append, List.nodup_middle] at once
      exact (List.nodup_cons.mp once).1
    · obtain ⟨other, inside, mine⟩ := List.mem_flatMap.mp member
      exact turned.apart.2.2 other inside x mine cell
  rw [List.append_cons] at shape₃ new₃
  have found₃ : valueOf c₃.keys x = some content :=
    (frame₃.value x (found₁ ▸ Option.some_ne_none _) List.not_mem_nil).trans found₁
  obtain ⟨c₄, added, shape₄, frame₄⟩ := shape₃.addKey (found₃ ▸ Option.some_ne_none _) new₃
  have full := shape₄.assertFull (.tail _ (List.mem_append_right _ (.head _))) (List.cons_ne_nil _ _)
  rw [← List.append_cons] at shape₄
  obtain ⟨c₅, dropped, shape₅, frame₅⟩ := shape₄.dropEmpty
  have frame := (frame₁.insert content.key nxt.addr).trans (frame₃.trans frame₄)
  have apart : row.addr ≠ top.addr := fun same => turned.addrs.notMem (same ▸ .head _)
  have head₁ : row.addr ≠ c₁.dummyHead := fun same =>
    apart (same.trans (frame₁.dummyHead.trans shape.head.symm))
  have head₄ : row.addr ≠ c₄.dummyHead := fun same =>
    apart (same.trans (frame.dummyHead.trans shape.head.symm))
  refine ⟨c₅, nxt, r', ?_, shape₅, (frame.mono (List.nil_subset _)).trans frame₅, next⟩
  rw [LFUCache.addFreq, made]
  simp only [Option.bind_some, found₁]
  rw [leaveList, if_pos head₁, left, Option.bind_some, added, Option.bind_some, full,
    Option.bind_some, if_pos head₄, dropped]

theorem evict {r : List Row} (shape : Shape c top (row :: r)) {content : Key} {xs : List Nat}
    (nodes : row.nodes = xs ++ [x]) (found : valueOf c.keys x = some content) :
    ∃ c', c.evict = some c' ∧ Shape c' top ({ row with nodes := xs }.kept ++ r) ∧
      Frame { c with kmap := c.kmap.erase content.key, fmap := c.fmap.erase content.key } c'
        [x, row.dummy] := by
  have inside : row ∈ top :: row :: r := .tail _ (.head _)
  obtain ⟨c₁, left, shape₁, frame₁⟩ := shape.delKey (l := []) nodes
  rw [List.append_nil] at shape₁
  have turned := shape.stored.perm (middle (l := []))
  have found₁ : valueOf c₁.keys x = some content :=
    (frame₁.value x (found ▸ Option.some_ne_none _) List.not_mem_nil).trans found
  have outside : x ∉ (top :: ([] ++ { row with nodes := xs } :: r)).flatMap Row.cells := by
    rw [(middle.flatMap_right _).mem_iff, List.flatMap_cons, List.mem_append, not_or]
    refine ⟨?_, fun member => ?_⟩
    · have once := turned.apart.1
      rw [Row.cells, nodes, ← List.cons_append, List.nodup_middle, List.append_nil] at once
      exact (List.nodup_cons.mp once).1
    · obtain ⟨other, member, mine⟩ := List.mem_flatMap.mp member
      refine turned.apart.2.2 other member x mine (.tail _ ?_)
      rw [nodes]
      exact List.mem_append_right _ (.head _)
  have shape₂ : Shape { c₁ with
      kmap := c₁.kmap.erase content.key
      fmap := c₁.fmap.erase content.key } top ([] ++ { row with nodes := xs } :: r) :=
    shape₁.with_maps _ _
  obtain ⟨shape₃, frame₃⟩ := shape₂.discard outside
  obtain ⟨c₄, dropped, shape₄, frame₄⟩ := shape₃.dropEmpty
  have last : row.nodes.getLastD row.dummy = x := by simp [nodes]
  have frame₂ : Frame { c with kmap := c.kmap.erase content.key, fmap := c.fmap.erase content.key }
      { c₁ with kmap := c₁.kmap.erase content.key, fmap := c₁.fmap.erase content.key } [] :=
    ⟨frame₁.dummyHead, frame₁.capacity, congrArg (AList.erase content.key) frame₁.kmap,
      congrArg (AList.erase content.key) frame₁.fmap, frame₁.value⟩
  refine ⟨c₄, ?_, shape₄, ?_⟩
  · rw [LFUCache.evict, ← shape.head, shape.next (l := []) rfl]
    simp only [List.map_cons, List.head?_cons, Option.bind_some, shape.getLast inside, last]
    rw [left, Option.bind_some, found₁, Option.bind_some]
    exact dropped
  · refine (frame₂.mono (List.nil_subset _)).trans ((frame₃.mono ?_).trans (frame₄.mono ?_))
    · exact fun z member => List.mem_singleton.mp member ▸ .head _
    · exact fun z member => List.mem_singleton.mp member ▸ .tail _ (.head _)

end Shape

end LFUCache

end ProjectsCpp.WebServer
