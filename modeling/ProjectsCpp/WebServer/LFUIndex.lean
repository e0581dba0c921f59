import ProjectsCpp.WebServer.LFUShape

/-! The two maps of the LFU cache against its lists, and what `get` and `set` do where both are
in order. -/

namespace ProjectsCpp.WebServer
open ProjectsCpp.Text ProjectsCpp.LinkedList

/-- A map from keys to nodes and one from keys to lists that both say where each key is;
`place f a` says that the node `a` is in the list `f`. -/
structure Indexed (place : Nat → Nat → Prop) (keyOf : Nat → Option Str)
    (kmap fmap : AList fun _ : Str => Nat) : Prop where
  kmap : ∀ k a, kmap.lookup k = some a ↔ (∃ f, place f a) ∧ keyOf a = some k
  fmap : ∀ k f, fmap.lookup k = some f ↔ ∃ a, place f a ∧ keyOf a = some k

namespace Indexed
variable {place place' : Nat → Nat → Prop} {keyOf keyOf' : Nat → Option Str}
  {kmap kmap' fmap fmap' : AList fun _ : Str => Nat} {x f g a b : Nat} {k : Str}

theorem unique (indexed : Indexed place keyOf kmap fmap) (left : place f a) (right : place g b)
    (same : keyOf a = keyOf b) (alive : keyOf a ≠ none) : a = b := by
  obtain ⟨k, found⟩ := Option.ne_none_iff_exists'.mp alive
  have first := (indexed.kmap k a).mpr ⟨⟨f, left⟩, found⟩
  have second := (indexed.kmap k b).mpr ⟨⟨g, right⟩, same ▸ found⟩
  exact Option.some.inj (first.symm.trans second)

theorem same_keys (indexed : Indexed place keyOf kmap fmap) : k ∈ kmap ↔ k ∈ fmap := by
  rw [← AList.lookup_isSome, ← AList.lookup_isSome, Option.isSome_iff_exists,
    Option.isSome_iff_exists]
  constructor
  · rintro ⟨a, found⟩
    obtain ⟨⟨f, there⟩, key⟩ := (indexed.kmap k a).mp found
    exact ⟨f, (indexed.fmap k f).mpr ⟨a, there, key⟩⟩
  · rintro ⟨f, found⟩
    obtain ⟨a, there, key⟩ := (indexed.fmap k f).mp found
    exact ⟨a, (indexed.kmap k a).mpr ⟨⟨f, there⟩, key⟩⟩

theorem insert (indexed : Indexed place keyOf kmap fmap)
    (moved : ∀ g a, place' g a ↔ a ≠ x ∧ place g a ∨ a = x ∧ g = f)
    (same : ∀ g a, place g a → a ≠ x → keyOf' a = keyOf a) (own : keyOf' x = some k)
    (before : ∀ g a, place g a → (keyOf a = some k ↔ a = x))
    (nodes : ∀ j, kmap'.lookup j = if j = k then some x else kmap.lookup j)
    (lists : ∀ j, fmap'.lookup j = if j = k then some f else fmap.lookup j) :
    Indexed place' keyOf' kmap' fmap' := by
  have there : place' f x := (moved f x).mpr (.inr ⟨rfl, rfl⟩)
  have only : ∀ g a, place' g a → keyOf' a = some k → a = x := fun g a inside key => by
    rcases (moved g a).mp inside with ⟨other, old⟩ | ⟨rfl, -⟩
    · exact (before g a old).mp ((same g a old other).symm.trans key)
    · rfl
  have others : ∀ g a j, j ≠ k → (place' g a ∧ keyOf' a = some j ↔ place g a ∧ keyOf a = some j) := by
    intro g a j unlike
    rw [moved]
    constructor
    · rintro ⟨⟨other, old⟩ | ⟨rfl, -⟩, key⟩
      · exact ⟨old, (same g a old other).symm.trans key⟩
      · exact absurd (Option.some.inj (key.symm.trans own)) unlike
    · rintro ⟨old, key⟩
      have other : a ≠ x := fun equal =>
        unlike (Option.some.inj (key.symm.trans ((before g a old).mpr equal)))
      exact ⟨.inl ⟨other, old⟩, (same g a old other).trans key⟩
  refine ⟨fun j a => ?_, fun j g => ?_⟩
  · rw [nodes]
    split
    · rename_i equal
      subst equal
      exact ⟨fun found => Option.some.inj found ▸ ⟨⟨f, there⟩, own⟩,
        fun ⟨⟨g, inside⟩, key⟩ => congrArg some (only g a inside key).symm⟩
    · rename_i unlike
      rw [indexed.kmap]
      exact ⟨fun ⟨⟨g, inside⟩, key⟩ => let both := (others g a j unlike).mpr ⟨inside, key⟩
          ⟨⟨g, both.1⟩, both.2⟩,
        fun ⟨⟨g, inside⟩, key⟩ => let both := (others g a j unlike).mp ⟨inside, key⟩
          ⟨⟨g, both.1⟩, both.2⟩⟩
  · rw [lists]
    split
    · rename_i equal
      subst equal
      refine ⟨fun found => Option.some.inj found ▸ ⟨x, there, own⟩, fun ⟨a, inside, key⟩ => ?_⟩
      obtain rfl := only g a inside key
      rcases (moved g a).mp inside with ⟨other, -⟩ | ⟨-, rfl⟩
      · exact absurd rfl other
      · rfl
    · rename_i unlike
      rw [indexed.fmap]
      exact exists_congr fun a => (others g a j unlike).symm

theorem erase (indexed : Indexed place keyOf kmap fmap) (there : place f x)
    (own : keyOf x = some k) (moved : ∀ g a, place' g a ↔ a ≠ x ∧ place g a)
    (same : ∀ g a, place g a → a ≠ x → keyOf' a = keyOf a) :
    Indexed place' keyOf' (kmap.erase k) (fmap.erase k) := by
  have away : ∀ g a j, place' g a ∧ keyOf' a = some j ↔ j ≠ k ∧ place g a ∧ keyOf a = some j := by
    intro g a j
    rw [moved]
    constructor
    · rintro ⟨⟨other, old⟩, key⟩
      rw [same g a old other] at key
      refine ⟨?_, old, key⟩
      rintro rfl
      exact other (indexed.unique old there (key.trans own.symm) (key ▸ Option.some_ne_none _))
    · rintro ⟨unlike, old, key⟩
      have other : a ≠ x := fun equal => unlike (Option.some.inj (key.symm.trans (equal ▸ own)))
      exact ⟨⟨other, old⟩, (same g a old other).trans key⟩
  refine ⟨fun j a => ?_, fun j g => ?_⟩
  · by_cases equal : j = k
    · rw [equal, AList.lookup_erase]
      exact ⟨nofun, fun ⟨⟨g, inside⟩, key⟩ => absurd rfl ((away g a k).mp ⟨inside, key⟩).1⟩
    · rw [AList.lookup_erase_ne equal, indexed.kmap]
      exact ⟨fun ⟨⟨g, old⟩, key⟩ => let both := (away g a j).mpr ⟨equal, old, key⟩
          ⟨⟨g, both.1⟩, both.2⟩,
        fun ⟨⟨g, inside⟩, key⟩ => let both := ((away g a j).mp ⟨inside, key⟩).2
          ⟨⟨g, both.1⟩, both.2⟩⟩
  · by_cases equal : j = k
    · rw [equal, AList.lookup_erase]
      exact ⟨nofun, fun ⟨a, both⟩ => absurd rfl ((away g a k).mp both).1⟩
    · rw [AList.lookup_erase_ne equal, indexed.fmap]
      exact exists_congr fun a =>
        ⟨fun old => (away g a j).mpr ⟨equal, old⟩, fun both => ((away g a j).mp both).2⟩

end Indexed

/-- The node `a` is in the list `f` of the frequency `g`. -/
def Place (rows : List Row) (f : Nat) (g : Int) (a : Nat) : Prop :=
  ∃ row ∈ rows, row.addr = f ∧ row.freq = g ∧ a ∈ row.nodes

section Places
variable {row nxt : Row} {rows l r r' : List Row} {f x a : Nat} {g : Int} {xs ys : List Nat}

@[simp] theorem place_cons :
    Place (row :: rows) f g a ↔ (row.addr = f ∧ row.freq = g ∧ a ∈ row.nodes) ∨ Place rows f g a := by
  simp [Place]

@[simp] theorem place_append : Place (l ++ r) f g a ↔ Place l f g a ∨ Place r f g a := by
  simp [Place, or_and_right, exists_or]

@[simp] theorem place_kept :
    Place row.kept f g a ↔ row.addr = f ∧ row.freq = g ∧ a ∈ row.nodes := by
  by_cases bare : row.nodes = [] <;> simp [Place, Row.kept, bare]

theorem Place.cell (place : Place rows f g a) : a ∈ rows.flatMap Row.cells :=
  let ⟨row, inside, _, _, node⟩ := place
  List.mem_flatMap.mpr ⟨row, inside, .tail _ node⟩

theorem LFUCache.Next.place {c : LFUCache} (next : LFUCache.Next c row nxt r r') :
    Place (nxt :: r') f g a ↔ Place r f g a := by
  rcases next.2 with rfl | ⟨bare, -, rfl, -⟩
  · exact Iff.rfl
  · simp [bare]

theorem full_of_kept (member : nxt ∈ row.kept) : nxt.nodes ≠ [] := by
  by_cases bare : row.nodes = []
  · simp [Row.kept, bare] at member
  · simp [Row.kept, bare] at member
    rwa [member]

theorem nodes_of_kept (member : nxt ∈ row.kept) : nxt.nodes = row.nodes := by
  by_cases bare : row.nodes = []
  · simp [Row.kept, bare] at member
  · simp [Row.kept, bare] at member
    rw [member]

theorem kept_freq : (({ row with nodes := xs } : Row).kept.map Row.freq).Sublist [row.freq] := by
  by_cases bare : xs = [] <;> simp [Row.kept, bare]

theorem LFUCache.Next.sub {c : LFUCache} (next : LFUCache.Next c row nxt r r') : r' ⊆ r := by
  rcases next.2 with rfl | ⟨-, -, rfl, -⟩
  · exact List.subset_cons_self _ _
  · exact List.Subset.refl _

theorem LFUCache.Next.ordered {c : LFUCache} (next : c.Next row nxt r r')
    (ordered : ((l ++ row :: r).map Row.freq).Pairwise (· < ·)) :
    ((l ++ row :: nxt :: r').map Row.freq).Pairwise (· < ·) := by
  obtain ⟨step, rfl | ⟨-, -, rfl, other⟩⟩ := next
  · exact ordered
  · simp only [List.map_append, List.map_cons, List.pairwise_append, List.pairwise_cons] at ordered ⊢
    obtain ⟨left, ⟨below, right⟩, across⟩ := ordered
    have above : ∀ g ∈ r'.map Row.freq, row.freq + 1 < g := by
      cases r' with
      | nil => exact nofun
      | cons after r' =>
        have first : row.freq + 1 < after.freq := by
          have := below _ (.head _)
          have := other after rfl
          omega
        intro g inside
        rcases List.mem_cons.mp inside with rfl | inside
        · exact first
        · exact Int.lt_trans first ((List.pairwise_cons.mp right).1 g inside)
    refine ⟨left, ⟨fun g inside => ?_, fun g inside => ?_, right⟩, fun g inside h after => ?_⟩
    · rcases List.mem_cons.mp inside with rfl | inside
      · omega
      · exact below g inside
    · rw [step]
      exact above g inside
    · rcases List.mem_cons.mp after with rfl | after
      · exact across g inside _ (.head _)
      · rcases List.mem_cons.mp after with rfl | after
        · have := across g inside _ (.head _)
          omega
        · exact across g inside h (.tail _ after)

theorem place_move {c : LFUCache} (next : c.Next row nxt r r') (nodes : row.nodes = xs ++ x :: ys)
    (once : x ∉ xs ++ ys) (left : ∀ f g, ¬ Place l f g x) (right : ∀ f g, ¬ Place r f g x) :
    Place (l ++ { row with nodes := xs ++ ys }.kept ++ { nxt with nodes := x :: nxt.nodes } :: r')
      f g a ↔ a ≠ x ∧ Place (l ++ row :: r) f g a ∨ a = x ∧ f = nxt.addr ∧ g = nxt.freq := by
  have behind : Place r f g a ↔ Place (nxt :: r') f g a := next.place.symm
  rw [List.mem_append, not_or] at once
  have right : ¬ Place (nxt :: r') f g x := fun inside => right f g (next.place.mp inside)
  simp only [place_append, place_cons, place_kept, behind, nodes, List.mem_append,
    List.mem_cons] at right ⊢
  have left := left f g
  grind

theorem place_new {c : LFUCache} (next : c.Next row nxt r r') (right : ∀ f g, ¬ Place r f g x) :
    Place ({ nxt with nodes := x :: nxt.nodes } :: r') f g a ↔
      a ≠ x ∧ Place r f g a ∨ a = x ∧ f = nxt.addr ∧ g = nxt.freq := by
  have behind : Place r f g a ↔ Place (nxt :: r') f g a := next.place.symm
  have right : ¬ Place (nxt :: r') f g x := fun inside => right f g (next.place.mp inside)
  simp only [place_cons, behind, List.mem_cons] at right ⊢
  grind

end Places

namespace LFUCache
variable {c c' : LFUCache} {top row : Row} {rest rest' l r : List Row} {f x a : Nat} {g : Int}
  {xs ys : List Nat} {content : Key} {k : Str}

def keyOf (c : LFUCache) (a : Nat) : Option Str := (valueOf c.keys a).map Key.key

/-- The frequency list is strictly increasing with no empty inner list, and the two maps hold the
keys of the nodes, at most `capacity` of them, each with its node and its list. -/
structure Rep (c : LFUCache) (top : Row) (rest : List Row) : Prop where
  shape : Shape c top rest
  full : ∀ row ∈ rest, row.nodes ≠ []
  ordered : ((top :: rest).map Row.freq).Pairwise (· < ·)
  indexed : Indexed (fun f a => ∃ g, Place rest f g a) c.keyOf c.kmap c.fmap
  bounded : c.kmap.entries.length ≤ c.capacity

/-- What a call does to the nodes in the lists: `x` is moved to the front of the list `f`, and
no other node changes its place, its order or its contents. -/
structure Moved (c c' : LFUCache) (rest rest' : List Row) (x f : Nat) (g : Int) : Prop where
  place : ∀ f' g' a, Place rest' f' g' a ↔ a ≠ x ∧ Place rest f' g' a ∨ a = x ∧ f' = f ∧ g' = g
  value : ∀ f' g' a, Place rest' f' g' a → valueOf c'.keys a = valueOf c.keys a
  order : ∀ row ∈ rest', ∃ nodes, (row.nodes = nodes ∨ row.nodes = x :: nodes) ∧ x ∉ nodes ∧
    (nodes = [] ∨ ∃ old ∈ rest, nodes.Sublist old.nodes)

theorem Shape.foreign (shape : Shape c top (l ++ row :: r)) (cell : x ∈ row.cells) :
    (∀ f g, ¬ Place l f g x) ∧ (∀ f g, ¬ Place r f g x) ∧ x ∉ top.cells := by
  have apart := (shape.stored.perm middle).apart.2.2
  refine ⟨fun f g place => ?_, fun f g place => ?_, fun mine => apart top (.head _) x mine cell⟩
  · obtain ⟨other, inside, -, -, node⟩ := place
    exact apart other (.tail _ (List.mem_append_left _ inside)) x (.tail _ node) cell
  · obtain ⟨other, inside, -, -, node⟩ := place
    exact apart other (.tail _ (List.mem_append_right _ inside)) x (.tail _ node) cell

theorem Shape.ne_dummy (shape : Shape c top (l ++ row :: r)) (place : Place (l ++ row :: r) f g a) :
    a ≠ row.dummy := by
  rintro rfl
  obtain ⟨left, right, -⟩ := shape.foreign (x := row.dummy) (.head _)
  rw [place_append, place_cons] at place
  rcases place with before | ⟨-, -, node⟩ | behind
  · exact left f g before
  · exact shape.dummy_alone (.tail _ (List.mem_append_right _ (.head _))) node
  · exact right f g behind

theorem Shape.place_unique (shape : Shape c top rest) {f' : Nat} {g' : Int}
    (left : Place rest f g a) (right : Place rest f' g' a) : f = f' ∧ g = g' := by
  obtain ⟨row, inside, rfl, rfl, node⟩ := left
  obtain ⟨other, member, rfl, rfl, its⟩ := right
  obtain rfl := shape.stored.same_row (.tail _ inside) (.tail _ member) (.tail _ node) (.tail _ its)
  exact ⟨rfl, rfl⟩

theorem alive_of_place (shape : Shape c top rest) (place : Place rest f g a) :
    valueOf c.keys a ≠ none :=
  let ⟨_, inside, _, _, node⟩ := place
  shape.cell_alive (.tail _ inside) (.tail _ node)

theorem Rep.promote (rep : Rep c top (l ++ row :: r)) (nodes : row.nodes = xs ++ x :: ys)
    (found : valueOf c.keys x = some content) (room : row.freq ≠ intMax) :
    ∃ c' rest' f, c.addFreq x row.addr = some c' ∧ Rep c' top rest' ∧ c'.capacity = c.capacity ∧
      Moved c c' (l ++ row :: r) rest' x f (row.freq + 1) := by
  have shape := rep.shape
  have inside : row ∈ top :: (l ++ row :: r) := .tail _ (List.mem_append_right _ (.head _))
  have node : x ∈ row.nodes := nodes ▸ List.mem_append_right _ (.head _)
  have there : Place (l ++ row :: r) row.addr row.freq x :=
    ⟨row, List.mem_append_right _ (.head _), rfl, rfl, node⟩
  obtain ⟨c', nxt, r', done, shape', frame, next⟩ := shape.addFreq_move nodes found room
  have once : x ∉ xs ++ ys := by
    have once := (List.nodup_cons.mp (shape.own_nodup inside)).2
    rw [nodes, List.nodup_middle] at once
    exact (List.nodup_cons.mp once).1
  obtain ⟨left, right, -⟩ := shape.foreign (x := x) (.tail _ node)
  have place := fun f' g' a => place_move (f := f') (g := g') (a := a) next nodes once left right
  have value : ∀ f' g' a, Place (l ++ row :: r) f' g' a → valueOf c'.keys a = valueOf c.keys a :=
    fun f' g' a old => frame.value a (alive_of_place (c := c) shape old)
      fun member => shape.ne_dummy old (List.mem_singleton.mp member)
  have own : valueOf c'.keys x = some content := (value _ _ _ there).trans found
  have key : c.keyOf x = some content.key := congrArg (Option.map Key.key) found
  refine ⟨c', _, nxt.addr, done, ⟨shape', ?_, ?_, ?_, ?_⟩, frame.capacity, ⟨?_, ?_, ?_⟩⟩
  · intro other member
    simp only [List.append_assoc, List.mem_append, List.mem_cons] at member
    rcases member with before | ⟨kept⟩ | rfl | behind
    · exact rep.full other (List.mem_append_left _ before)
    · exact full_of_kept kept
    · exact List.cons_ne_nil _ _
    · exact rep.full other (List.mem_append_right _ (.tail _ (next.sub behind)))
  · refine (next.ordered (l := top :: l) rep.ordered).sublist ?_
    simp only [List.map_append, List.map_cons, List.cons_append, List.append_assoc]
    exact ((kept_freq.append (.refl _)).append_left _).cons_cons _
  · refine rep.indexed.insert (x := x) (f := nxt.addr) (k := content.key) ?_ ?_ ?_ ?_ ?_ ?_
    · intro g a
      simp only [place]
      constructor
      · rintro ⟨g', ⟨other, old⟩ | ⟨rfl, rfl, -⟩⟩
        · exact .inl ⟨other, g', old⟩
        · exact .inr ⟨rfl, rfl⟩
      · rintro (⟨other, g', old⟩ | ⟨rfl, rfl⟩)
        · exact ⟨g', .inl ⟨other, old⟩⟩
        · exact ⟨nxt.freq, .inr ⟨rfl, rfl, rfl⟩⟩
    · rintro g a ⟨g', old⟩ -
      exact congrArg (Option.map Key.key) (value _ _ _ old)
    · exact congrArg (Option.map Key.key) own
    · rintro g a ⟨g', old⟩
      refine ⟨fun same => ?_, fun same => same ▸ key⟩
      exact rep.indexed.unique ⟨g', old⟩ ⟨_, there⟩ (same.trans key.symm)
        (same ▸ Option.some_ne_none _)
    · intro j
      rw [frame.kmap]
      split
      · rename_i same
        rw [same]
        exact (rep.indexed.kmap _ _).mpr ⟨⟨_, _, there⟩, key⟩
      · rfl
    · intro j
      rw [frame.fmap]
      split
      · rename_i same
        rw [same, AList.lookup_insert]
      · rename_i unlike
        exact AList.lookup_insert_ne unlike
  · rw [frame.kmap, frame.capacity]
    exact rep.bounded
  · intro f' g' a
    rw [place, next.1]
  · intro f' g' a new
    rcases (place f' g' a).mp new with ⟨-, old⟩ | ⟨rfl, -, -⟩
    · exact value _ _ _ old
    · exact value _ _ _ there
  · intro other member
    simp only [List.append_assoc, List.mem_append, List.mem_cons] at member
    rcases member with before | kept | rfl | behind
    · exact ⟨other.nodes, .inl rfl, fun node => left _ _ ⟨other, before, rfl, rfl, node⟩,
        .inr ⟨other, List.mem_append_left _ before, .refl _⟩⟩
    · refine ⟨xs ++ ys, .inl (nodes_of_kept kept), once,
        .inr ⟨row, List.mem_append_right _ (.head _), ?_⟩⟩
      rw [nodes]
      exact (List.sublist_cons_self x ys).append_left xs
    · refine ⟨nxt.nodes, .inr rfl, fun node => ?_, ?_⟩
      · exact right nxt.addr nxt.freq (next.place.mp ⟨nxt, .head _, rfl, rfl, node⟩)
      · rcases next.2 with rfl | ⟨bare, -⟩
        · exact .inr ⟨nxt, List.mem_append_right _ (.tail _ (.head _)), .refl _⟩
        · exact .inl bare
    · exact ⟨other.nodes, .inl rfl, fun node => right _ _ ⟨other, next.sub behind, rfl, rfl, node⟩,
        .inr ⟨other, List.mem_append_right _ (.tail _ (next.sub behind)), .refl _⟩⟩

theorem Rep.absent (rep : Rep c top rest) (absent : k ∉ c.kmap) (place : Place rest f g a) :
    c.keyOf a ≠ some k := fun key =>
  absent (AList.lookup_isSome.mp (by rw [(rep.indexed.kmap k a).mpr ⟨⟨f, g, place⟩, key⟩]; rfl))

theorem Rep.put {v : Str} (rep : Rep c top rest) (absent : k ∉ c.kmap)
    (room : c.kmap.entries.length < c.capacity) :
    ∃ c' rest' f, c.put k v = some c' ∧ Rep c' top rest' ∧ c'.capacity = c.capacity ∧
      Moved (c.newKey ⟨k, v⟩) c' rest rest' c.fresh f 1 ∧ (∀ f g, ¬ Place rest f g c.fresh) ∧
      c'.kmap = c.kmap.insert k c.fresh := by
  obtain ⟨shape, frame, found, new⟩ := rep.shape.newKey ⟨k, v⟩
  obtain ⟨c', nxt, r', done, shape', frame', next⟩ := shape.addFreq_new found new
  have head : (c.newKey ⟨k, v⟩).dummyHead = c.dummyHead := frame.dummyHead
  have outside : ∀ f g, ¬ Place rest f g c.fresh := fun f g place =>
    new (List.mem_flatMap.mpr (let ⟨row, inside, _, _, node⟩ := place
      ⟨row, .tail _ inside, .tail _ node⟩))
  have place := fun f' g' a => place_new (f := f') (g := g') (a := a) next outside
  have one : nxt.freq = 1 := by rw [next.1, rep.shape.zero, Int.zero_add]
  have value : ∀ f' g' a, Place rest f' g' a → valueOf c'.keys a = valueOf c.keys a :=
    fun f' g' a old => by
      have same := frame.value a (alive_of_place rep.shape old) List.not_mem_nil
      rw [← same]
      exact frame'.value a (by rw [same]; exact alive_of_place rep.shape old) List.not_mem_nil
  have own : valueOf c'.keys c.fresh = some ⟨k, v⟩ :=
    (frame'.value _ (found ▸ Option.some_ne_none _) List.not_mem_nil).trans found
  let d : LFUCache := { c' with
    kmap := c'.kmap.insert k c.fresh
    fmap := c'.fmap.insert k nxt.addr }
  refine ⟨d, _, nxt.addr, ?_, ⟨shape'.with_maps _ _, ?_, ?_, ?_, ?_⟩, frame'.capacity, ⟨?_, ?_, ?_⟩,
    outside, congrArg (AList.insert k c.fresh) frame'.kmap⟩
  · have first := shape'.next (l := []) rfl
    rw [shape'.head] at first
    rw [LFUCache.put, ← head, done, Option.bind_some, first]
    rfl
  · intro other member
    rcases List.mem_cons.mp member with rfl | behind
    · exact List.cons_ne_nil _ _
    · exact rep.full other (next.sub behind)
  · exact next.ordered (l := []) rep.ordered
  · refine rep.indexed.insert (x := c.fresh) (f := nxt.addr) (k := k) ?_ ?_ ?_ ?_ ?_ ?_
    · intro g a
      simp only [place]
      constructor
      · rintro ⟨g', ⟨other, old⟩ | ⟨rfl, rfl, -⟩⟩
        · exact .inl ⟨other, g', old⟩
        · exact .inr ⟨rfl, rfl⟩
      · rintro (⟨other, g', old⟩ | ⟨rfl, rfl⟩)
        · exact ⟨g', .inl ⟨other, old⟩⟩
        · exact ⟨nxt.freq, .inr ⟨rfl, rfl, rfl⟩⟩
    · rintro g a ⟨g', old⟩ -
      exact congrArg (Option.map Key.key) (value _ _ _ old)
    · exact congrArg (Option.map Key.key) own
    · refine fun g a ⟨g', old⟩ => ⟨fun same => absurd same (rep.absent absent old), ?_⟩
      rintro rfl
      exact absurd old (outside _ _)
    · intro j
      show (c'.kmap.insert k c.fresh).lookup j = _
      rw [frame'.kmap]
      split
      · rename_i same
        rw [same, AList.lookup_insert]
      · rename_i unlike
        exact AList.lookup_insert_ne unlike
    · intro j
      show (c'.fmap.insert k nxt.addr).lookup j = _
      rw [frame'.fmap]
      split
      · rename_i same
        rw [same, AList.lookup_insert]
      · rename_i unlike
        rw [AList.lookup_insert_ne unlike]
        exact AList.lookup_insert_ne unlike
  · show (c'.kmap.insert k c.fresh).entries.length ≤ c'.capacity
    rw [frame'.kmap, frame'.capacity]
    exact (congrArg List.length (AList.entries_insert_of_notMem absent)).trans_le room
  · intro f' g' a
    rw [place, one]
  · intro f' g' a new
    rcases (place f' g' a).mp new with ⟨-, old⟩ | ⟨rfl, -, -⟩
    · exact (value _ _ _ old).trans (frame.value a (alive_of_place rep.shape old)
        List.not_mem_nil).symm
    · exact own.trans found.symm
  · intro other member
    rcases List.mem_cons.mp member with rfl | behind
    · refine ⟨nxt.nodes, .inr rfl, fun node => ?_, ?_⟩
      · exact outside nxt.addr nxt.freq (next.place.mp ⟨nxt, .head _, rfl, rfl, node⟩)
      · rcases next.2 with rfl | ⟨bare, -⟩
        · exact .inr ⟨nxt, .head _, .refl _⟩
        · exact .inl bare
    · exact ⟨other.nodes, .inl rfl,
        fun node => outside _ _ ⟨other, next.sub behind, rfl, rfl, node⟩,
        .inr ⟨other, next.sub behind, .refl _⟩⟩

theorem Rep.victim (rep : Rep c top rest) (full : 0 < c.kmap.entries.length) :
    ∃ row r xs x content, rest = row :: r ∧ row.nodes = xs ++ [x] ∧
      valueOf c.keys x = some content := by
  cases rest with
  | nil =>
    obtain ⟨e, inside⟩ := List.exists_mem_of_length_pos full
    have there : e.1 ∈ c.kmap := List.mem_map_of_mem inside
    obtain ⟨a, found⟩ := Option.isSome_iff_exists.mp (AList.lookup_isSome.mpr there)
    obtain ⟨⟨-, -, row, inside, -⟩, -⟩ := (rep.indexed.kmap _ _).mp found
    exact nomatch inside
  | cons row r =>
    rcases List.eq_nil_or_concat row.nodes with bare | ⟨xs, x, nodes⟩
    · exact absurd bare (rep.full row (.head _))
    · rw [List.concat_eq_append] at nodes
      obtain ⟨content, found⟩ := Option.ne_none_iff_exists'.mp (rep.shape.cell_alive (z := x)
        (.tail _ (.head _)) (.tail _ (nodes ▸ List.mem_append_right _ (.head _))))
      exact ⟨row, r, xs, x, content, rfl, nodes, found⟩

structure Removed (c c' : LFUCache) (rest rest' : List Row) (x : Nat) : Prop where
  place : ∀ f g a, Place rest' f g a ↔ a ≠ x ∧ Place rest f g a
  value : ∀ f g a, Place rest' f g a → valueOf c'.keys a = valueOf c.keys a
  order : ∀ row ∈ rest', ∃ old ∈ rest, row.nodes.Sublist old.nodes

theorem Rep.evict (rep : Rep c top (row :: r)) (nodes : row.nodes = xs ++ [x])
    (found : valueOf c.keys x = some content) :
    ∃ c' rest', c.evict = some c' ∧ Rep c' top rest' ∧ c'.capacity = c.capacity ∧
      Removed c c' (row :: r) rest' x ∧ c'.kmap = c.kmap.erase content.key := by
  have shape := rep.shape
  have inside : row ∈ top :: row :: r := .tail _ (.head _)
  have node : x ∈ row.nodes := nodes ▸ List.mem_append_right _ (.head _)
  have there : Place (row :: r) row.addr row.freq x := ⟨row, .head _, rfl, rfl, node⟩
  obtain ⟨c', done, shape', frame⟩ := shape.evict nodes found
  obtain ⟨-, right, -⟩ := Shape.foreign (l := []) shape (x := x) (.tail _ node)
  have once : x ∉ xs := by
    have once := (List.nodup_cons.mp (shape.own_nodup inside)).2
    rw [nodes, List.nodup_middle, List.append_nil] at once
    exact (List.nodup_cons.mp once).1
  have place : ∀ f g a, Place ({ row with nodes := xs }.kept ++ r) f g a ↔
      a ≠ x ∧ Place (row :: r) f g a := fun f g a => by
    simp only [place_append, place_cons, place_kept, nodes, List.mem_append, List.mem_singleton]
    have right := right f g
    grind
  have value : ∀ f g a, Place ({ row with nodes := xs }.kept ++ r) f g a →
      valueOf c'.keys a = valueOf c.keys a := fun f g a new => by
    obtain ⟨other, old⟩ := (place f g a).mp new
    refine frame.value a (alive_of_place (c := c) shape old) fun member => ?_
    rcases List.mem_cons.mp member with same | member
    · exact other same
    · exact Shape.ne_dummy (l := []) shape old (List.mem_singleton.mp member)
  have moved : ∀ g a, (∃ g', Place ({ row with nodes := xs }.kept ++ r) g g' a) ↔
      a ≠ x ∧ ∃ g', Place (row :: r) g g' a := fun g a => by
    simp only [place]
    exact exists_and_left
  refine ⟨c', _, done, ⟨shape', ?_, ?_, ?_, ?_⟩, frame.capacity, ⟨place, value, ?_⟩, frame.kmap⟩
  · intro other member
    rcases List.mem_append.mp member with kept | behind
    · exact full_of_kept kept
    · exact rep.full other (.tail _ behind)
  · refine rep.ordered.sublist ?_
    simp only [List.map_append, List.map_cons]
    exact (kept_freq.append (.refl _)).cons_cons _
  · rw [frame.kmap, frame.fmap]
    refine rep.indexed.erase ⟨_, there⟩ (congrArg (Option.map Key.key) found) moved ?_
    rintro g a ⟨g', old⟩ other
    exact congrArg (Option.map Key.key) (value g g' a ((place g g' a).mpr ⟨other, old⟩))
  · rw [frame.kmap, frame.capacity]
    exact (List.kerase_sublist _ _).length_le.trans rep.bounded
  · intro other member
    rcases List.mem_append.mp member with kept | behind
    · exact ⟨row, .head _, by
        rw [nodes_of_kept kept, nodes]
        exact List.sublist_append_left xs [x]⟩
    · exact ⟨other, .tail _ behind, .refl _⟩

theorem length_erase {m : AList fun _ : Str => Nat} (there : k ∈ m) :
    (m.erase k).entries.length < m.entries.length := by
  obtain ⟨b, l₁, l₂, -, whole, rest⟩ := List.exists_of_kerase (show k ∈ m.keys from there)
  show (List.kerase k m.entries).length < _
  rw [rest, whole]
  simp

/-- What an eviction takes, and what it leaves. -/
structure Evicted (c c' : LFUCache) (rest rest' : List Row) (k v : Str) : Prop where
  full : c.kmap.entries.length = c.capacity
  removed : ∃ row r xs x, rest = row :: r ∧ row.nodes = xs ++ [x] ∧
    valueOf c.keys x = some ⟨k, v⟩ ∧ Removed c c' rest rest' x
  kmap : c'.kmap = c.kmap.erase k

theorem Rep.makeRoom (rep : Rep c top rest) (positive : 0 < c.capacity) :
    ∃ c' rest', c.makeRoom = some c' ∧ Rep c' top rest' ∧ c'.capacity = c.capacity ∧
      c'.kmap.entries.length < c'.capacity ∧
      (c.kmap.entries.length ≠ c.capacity ∧ c' = c ∧ rest' = rest ∨
        ∃ k v, Evicted c c' rest rest' k v) := by
  rw [LFUCache.makeRoom]
  by_cases full : c.kmap.entries.length = c.capacity
  · obtain ⟨row, r, xs, x, ⟨k, v⟩, rfl, nodes, found⟩ := rep.victim (full ▸ positive)
    obtain ⟨c', rest', done, rep', capacity, removed, kmap⟩ := rep.evict nodes found
    have there : k ∈ c.kmap := AList.lookup_isSome.mp (by
      rw [(rep.indexed.kmap k x).mpr ⟨⟨_, _, row, .head _, rfl, rfl,
        nodes ▸ List.mem_append_right _ (.head _)⟩, by rw [keyOf, found]; rfl⟩]
      rfl)
    refine ⟨c', rest', by rw [if_pos full, done], rep', capacity, ?_,
      .inr ⟨k, v, full, ⟨row, r, xs, x, rfl, nodes, found, removed⟩, kmap⟩⟩
    rw [kmap, capacity, ← full]
    exact length_erase there
  · exact ⟨c, rest, if_neg full, rep, rfl, Nat.lt_of_le_of_ne rep.bounded full,
      .inl ⟨full, rfl, rfl⟩⟩

theorem Rep.get_miss (rep : Rep c top rest) (absent : k ∉ c.kmap) : c.get k = some (c, none) := by
  have miss : c.fmap.lookup k = none :=
    AList.lookup_eq_none.mpr fun there => absent (rep.indexed.same_keys.mpr there)
  rw [get, miss]
  split <;> rfl

theorem Rep.find (rep : Rep c top rest) (there : k ∈ c.kmap) :
    ∃ l row r xs x ys v, rest = l ++ row :: r ∧ row.nodes = xs ++ x :: ys ∧
      valueOf c.keys x = some ⟨k, v⟩ ∧
      c.get k = (c.addFreq x row.addr).map fun c => (c, some v) := by
  obtain ⟨x, node⟩ := Option.isSome_iff_exists.mp (AList.lookup_isSome.mpr there)
  obtain ⟨f, list⟩ := Option.isSome_iff_exists.mp
    (AList.lookup_isSome.mpr (rep.indexed.same_keys.mp there))
  obtain ⟨y, place, key⟩ := (rep.indexed.fmap k f).mp list
  obtain rfl : x = y :=
    Option.some.inj (node.symm.trans ((rep.indexed.kmap k y).mpr ⟨⟨f, place⟩, key⟩))
  obtain ⟨g, row, inside, rfl, -, member⟩ := place
  obtain ⟨l, r, rfl⟩ := List.append_of_mem inside
  obtain ⟨xs, ys, nodes⟩ := List.append_of_mem member
  obtain ⟨content, found, rfl⟩ := Option.map_eq_some_iff.mp key
  refine ⟨l, row, r, xs, x, ys, content.value, rfl, nodes, found, ?_⟩
  have room : c.capacity ≠ 0 := fun none => by
    have bounded := rep.bounded
    rw [none, Nat.le_zero, List.length_eq_zero_iff] at bounded
    exact absurd there (by simp [AList.mem_keys, AList.keys, bounded])
  rw [get, if_neg room, list]
  simp only [node, Option.bind_some, found]

theorem Shape.overflow (shape : Shape c top rest) (inside : row ∈ rest) (last : row.freq = intMax) :
    c.addFreq x row.addr = none := by
  obtain ⟨l, r, rfl⟩ := List.append_of_mem inside
  rw [addFreq, LFUCache.nextList, shape.getFreq (.tail _ inside), Option.bind_some,
    shape.next (l := top :: l) rfl, Option.bind_some, if_pos last, Option.bind_none]

theorem Rep.make (capacity : Nat) : Rep (make capacity) ⟨1, 0, 0, []⟩ [] where
  shape := by
    refine ⟨rfl, rfl, rfl, rfl, ⟨List.nodup_singleton _, ?_, ?_, List.nodup_singleton _⟩, ?_⟩
    · intro row inside
      rw [List.mem_singleton.mp inside]
      rfl
    · intro row inside
      rw [List.mem_singleton.mp inside]
      rfl
    · intro a above
      have later : 2 ≤ a := above
      exact ⟨Function.update_of_ne (show a ≠ 0 by omega) ..,
        Function.update_of_ne (show a ≠ 1 by omega) ..⟩
  full := nofun
  ordered := List.pairwise_singleton _ _
  indexed := ⟨fun k a => ⟨nofun, fun ⟨⟨_, _, _, inside, _⟩, _⟩ => nomatch inside⟩,
    fun k f => ⟨nofun, fun ⟨_, ⟨_, _, inside, _⟩, _⟩ => nomatch inside⟩⟩
  bounded := Nat.zero_le _

end LFUCache

end ProjectsCpp.WebServer
