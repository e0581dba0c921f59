import ProjectsCpp.WebServer.LFUIndex
import ProjectsCpp.Lib.Run
import Mathlib.Data.List.Perm.Subperm

/-! The cache that the event-loop threads share. `get` and `set` are each one step under `mutex_`;
a client that has missed sets the key some time later. -/

namespace ProjectsCpp.WebServer
open ProjectsCpp.Text ProjectsCpp.LinkedList ProjectsCpp.Run

namespace LFUCache

def innerNodes (c : LFUCache) : Option (List Nat) :=
  (walk c.lists c.fresh c.dummyHead).bind fun lists =>
    (lists.mapM fun f => (valueOf c.lists f).bind fun list =>
      walk c.keys c.fresh list.dummyHead).map List.flatten

/-- No key has two nodes, the nodes in the lists are those of the map and not more than the capacity,
and a key that `get` finds has a node. -/
def Intact (c : LFUCache) : Prop :=
  ∃ nodes, c.innerNodes = some nodes ∧ (nodes.map c.keyOf).Nodup ∧
    (∀ a, a ∈ nodes ↔ ∃ k, c.kmap.lookup k = some a) ∧ nodes.length ≤ c.capacity ∧
    ∀ k, k ∈ c.fmap → ∃ a ∈ nodes, c.keyOf a = some k

variable {c : LFUCache} {top : Row} {rest : List Row}

theorem length_le_of_lt {xs : List Nat} {n : Nat} (once : xs.Nodup) (below : ∀ x ∈ xs, x < n) :
    xs.length ≤ n := by
  have inside : xs ⊆ List.range n := fun x member => List.mem_range.mpr (below x member)
  simpa using (once.subperm inside).length_le

theorem Shape.innerNodes (shape : Shape c top rest) :
    c.innerNodes = some (rest.flatMap Row.nodes) := by
  have few : ((top :: rest).map Row.addr).length ≤ c.fresh :=
    length_le_of_lt shape.stored.addrs fun z => shape.addr_lt_of_mem
  have inner : ∀ row ∈ rest, ((valueOf c.lists row.addr).bind fun list =>
      walk c.keys c.fresh list.dummyHead) = some row.nodes := by
    intro row inside
    have cells : row.cells.length ≤ c.fresh :=
      length_le_of_lt (shape.own_nodup (.tail _ inside)) fun z => shape.cell_lt (.tail _ inside)
    rw [shape.stored.content row (.tail _ inside)]
    exact (shape.stored.linked row (.tail _ inside)).walk cells
  have behind : (rest.map Row.addr).length < c.fresh := few
  rw [LFUCache.innerNodes, ← shape.head, shape.lists.walk behind, Option.bind_some,
    mapM_map_some rest inner]
  rfl

theorem Shape.nodes_nodup (shape : Shape c top rest) : (rest.flatMap Row.nodes).Nodup := by
  obtain ⟨-, cells, -⟩ := shape.stored.apart
  obtain ⟨own, apart⟩ := List.nodup_flatMap.mp cells
  refine List.nodup_flatMap.mpr ⟨fun row inside => (List.nodup_cons.mp (own row inside)).2,
    apart.imp fun {left right} disjoint z mine its => ?_⟩
  exact disjoint (.tail _ mine) (.tail _ its)

theorem mem_nodes {a : Nat} : a ∈ rest.flatMap Row.nodes ↔ ∃ f g, Place rest f g a := by
  rw [List.mem_flatMap]
  exact ⟨fun ⟨row, inside, node⟩ => ⟨_, _, row, inside, rfl, rfl, node⟩,
    fun ⟨_, _, row, inside, _, _, node⟩ => ⟨row, inside, node⟩⟩

theorem Rep.intact (rep : Rep c top rest) : c.Intact := by
  have alive : ∀ a ∈ rest.flatMap Row.nodes, ∃ k, c.keyOf a = some k := fun a inside => by
    obtain ⟨f, g, place⟩ := mem_nodes.mp inside
    obtain ⟨content, found⟩ := Option.ne_none_iff_exists'.mp (alive_of_place rep.shape place)
    exact ⟨content.key, by rw [keyOf, found]; rfl⟩
  have keys : ((rest.flatMap Row.nodes).map c.keyOf).Nodup := by
    refine rep.shape.nodes_nodup.map_on fun a left b right same => ?_
    obtain ⟨k, key⟩ := alive a left
    obtain ⟨f, place⟩ := mem_nodes.mp left
    obtain ⟨g, other⟩ := mem_nodes.mp right
    exact rep.indexed.unique place other same (key ▸ Option.some_ne_none _)
  refine ⟨_, rep.shape.innerNodes, keys, fun a => ?_, ?_, fun k there => ?_⟩
  · rw [mem_nodes]
    constructor
    · rintro ⟨f, g, place⟩
      obtain ⟨k, key⟩ := alive a (mem_nodes.mpr ⟨f, g, place⟩)
      exact ⟨k, (rep.indexed.kmap k a).mpr ⟨⟨f, g, place⟩, key⟩⟩
    · rintro ⟨k, found⟩
      exact ((rep.indexed.kmap k a).mp found).1
  · have inside : (rest.flatMap Row.nodes).map c.keyOf ⊆ c.kmap.keys.map some := by
      intro o member
      obtain ⟨a, node, rfl⟩ := List.mem_map.mp member
      obtain ⟨k, key⟩ := alive a node
      have found := (rep.indexed.kmap k a).mpr ⟨mem_nodes.mp node, key⟩
      rw [key]
      exact List.mem_map_of_mem (AList.lookup_isSome.mp (by rw [found]; rfl))
    have few := (List.subperm_of_subset keys inside).length_le
    simp only [List.length_map, AList.keys, List.keys] at few
    exact few.trans rep.bounded
  · obtain ⟨f, found⟩ := Option.isSome_iff_exists.mp (AList.lookup_isSome.mpr there)
    obtain ⟨a, place, key⟩ := (rep.indexed.fmap k f).mp found
    exact ⟨a, mem_nodes.mpr ⟨f, place⟩, key⟩

def nextVictim (c : LFUCache) : Option Str :=
  (nextOf c.lists c.dummyHead).bind fun head => head.bind fun head =>
    (c.getLast head).bind fun last => c.keyOf last

theorem Rep.set {k v : Str} (rep : Rep c top rest)
    (clear : k ∉ c.kmap ∨ c.kmap.entries.length = c.capacity ∧ c.nextVictim = some k) :
    ∃ c' rest', c.set k v = some c' ∧ Rep c' top rest' := by
  rw [LFUCache.set]
  by_cases none : c.capacity = 0
  · exact ⟨c, rest, if_pos none, rep⟩
  · rw [if_neg none]
    obtain ⟨c₁, rest₁, done, rep₁, capacity₁, less, which⟩ := rep.makeRoom (Nat.pos_of_ne_zero none)
    have absent : k ∉ c₁.kmap := by
      rcases which with ⟨unfilled, rfl, rfl⟩ | ⟨k', v', full, ⟨row, r, xs, x, rfl, nodes, found, -⟩,
        kmap⟩
      · exact clear.resolve_right fun both => unfilled both.1
      · intro inside
        rw [kmap, AList.mem_erase] at inside
        rcases clear with absent | ⟨-, victim⟩
        · exact absent inside.2
        · rw [nextVictim, ← rep.shape.head, rep.shape.next (l := []) rfl] at victim
          simp only [List.map_cons, List.head?_cons, Option.bind_some,
            rep.shape.getLast (.tail _ (.head _)), nodes, List.getLastD_concat, keyOf, found,
            Option.map_some, Option.some.injEq] at victim
          exact inside.1 victim.symm
    obtain ⟨c₂, rest₂, f, placed, rep₂, -⟩ := rep₁.put (v := v) absent less
    exact ⟨c₂, rest₂, by rw [done, Option.bind_some, placed], rep₂⟩

theorem Rep.get {k : Str} (rep : Rep c top rest)
    (counts : (c.fmap.lookup k).all fun f => c.getFreq f ≠ some intMax) :
    ∃ c' rest' answer, c.get k = some (c', answer) ∧ Rep c' top rest' := by
  by_cases present : k ∈ c.kmap
  · obtain ⟨l, row, r, xs, x, ys, v, rfl, nodes, found, got⟩ := rep.find present
    have place : Place (l ++ row :: r) row.addr row.freq x :=
      ⟨row, List.mem_append_right _ (.head _), rfl, rfl, nodes ▸ List.mem_append_right _ (.head _)⟩
    have list := (rep.indexed.fmap k row.addr).mpr ⟨x, ⟨_, place⟩, by rw [keyOf, found]; rfl⟩
    have room : row.freq ≠ intMax := by
      rw [list, Option.all_some, rep.shape.getFreq (.tail _ (List.mem_append_right _ (.head _)))]
        at counts
      simpa using counts
    obtain ⟨c', rest', f, done, rep', -⟩ := rep.promote nodes found room
    exact ⟨c', rest', some v, by rw [got, done]; rfl, rep'⟩
  · exact ⟨c, rest, none, rep.get_miss present, rep⟩

end LFUCache

/-- The threads; `pending` is the key that a thread has missed and will set. -/
structure LFUClients (T : Type) where
  cache : Option LFUCache
  pending : T → Option Str

inductive ClientCall (T : Type) where
  | get (t : T) (k : Str)
  | set (t : T) (v : Str)
deriving DecidableEq

namespace LFUClients
open LFUCache
variable {T : Type} [DecidableEq T]

def step (s : LFUClients T) : ClientCall T → Option (LFUClients T)
  | .get t k =>
    if s.pending t = none then
      let result := s.cache.bind (·.get k)
      some ⟨result.map Prod.fst,
        Function.update s.pending t (if result.bind Prod.snd = none then some k else none)⟩
    else none
  | .set t v =>
    (s.pending t).map fun k =>
      ⟨s.cache.bind (·.set k v), Function.update s.pending t none⟩

def machine (T : Type) [DecidableEq T] (capacity : Nat) : Machine (LFUClients T) (ClientCall T) where
  start := (· = ⟨some (.make capacity), fun _ => none⟩)
  step := step

/-- The key that is set is absent or the one that this `set` evicts, and the count of a key that is
hit is not the last `int`. -/
def Clear (s : LFUClients T) : ClientCall T → Prop
  | .get _ k => s.cache.all fun c => (c.fmap.lookup k).all fun f => c.getFreq f ≠ some intMax
  | .set t _ => s.cache.all fun c => (s.pending t).all fun k =>
    k ∉ c.kmap ∨ c.kmap.entries.length = c.capacity ∧ c.nextVictim = some k

instance (s : LFUClients T) (call : ClientCall T) : Decidable (s.Clear call) := by
  cases call <;> (unfold Clear; infer_instance)

def Sound (s : LFUClients T) : Prop := ∃ c top rest, s.cache = some c ∧ Rep c top rest

theorem step_sound {s t : LFUClients T} {call : ClientCall T} (sound : s.Sound)
    (clear : s.Clear call) (next : s.step call = some t) : t.Sound := by
  obtain ⟨c, top, rest, there, rep⟩ := sound
  cases call with
  | get t k =>
    rw [step] at next
    split at next
    · cases next
      rw [Clear, there, Option.all_some] at clear
      obtain ⟨c', rest', answer, got, rep'⟩ := rep.get clear
      exact ⟨c', top, rest', by rw [there, Option.bind_some, got]; rfl, rep'⟩
    · cases next
  | set t v =>
    obtain ⟨k, missed, rfl⟩ := Option.map_eq_some_iff.mp next
    rw [Clear, there, missed, Option.all_some, Option.all_some] at clear
    obtain ⟨c', rest', done, rep'⟩ := rep.set (v := v) (of_decide_eq_true clear)
    exact ⟨c', top, rest', by rw [there, Option.bind_some, done], rep'⟩

/-- Whatever the threads do, the cache stays intact as long as no key is set that is there. -/
theorem cache_intact (T : Type) [DecidableEq T] (capacity : Nat) {s : LFUClients T}
    (reach : Reach (machine T capacity) Clear s) : ∃ c, s.cache = some c ∧ c.Intact := by
  have sound : s.Sound := reach.invariant
    (fun s begin => ⟨_, _, [], by rw [begin], Rep.make capacity⟩)
    fun s call t sound clear next => step_sound sound clear next
  obtain ⟨c, top, rest, there, rep⟩ := sound
  exact ⟨c, there, rep.intact⟩

def begin (capacity : Nat) : LFUClients T := ⟨some (.make capacity), fun _ => none⟩

def bothMiss : List (ClientCall Bool) :=
  [.get true ['k'], .get false ['k'], .set true ['v'], .set false ['v']]

theorem key_set_twice : ∃ s, exec (machine Bool 10) (begin 10) bothMiss = some s ∧
    ¬ ∃ c, s.cache = some c ∧ c.Intact := by
  have ran : (exec (machine Bool 10) (begin 10) bothMiss).any (fun s => s.cache.any fun c =>
      c.innerNodes.any fun nodes => ¬ (nodes.map c.keyOf).Nodup) = true := by
    decide +kernel
  obtain ⟨s, done, facts⟩ := (Option.any_eq_true _ _).mp ran
  obtain ⟨c, there, facts⟩ := (Option.any_eq_true _ _).mp facts
  obtain ⟨nodes, walked, twice⟩ := (Option.any_eq_true _ _).mp facts
  refine ⟨s, done, fun ⟨c', cache, nodes', walked', once, _⟩ => of_decide_eq_true twice ?_⟩
  obtain rfl := Option.some.inj (there.symm.trans cache)
  obtain rfl := Option.some.inj (walked.symm.trans walked')
  exact once

theorem cache_intact_two_threads :
    ∃ s, execWhere (machine Bool 1) Clear (begin 1)
        [.get true ['a'], .get false ['b'], .set true ['1'], .get true ['a'], .set false ['2']] =
          some s ∧ (s.cache.map fun c => c.kmap.keys) = some [['b']] ∧
      ∃ c, s.cache = some c ∧ c.Intact := by
  have ran : (execWhere (machine Bool 1) Clear (begin 1)
      [.get true ['a'], .get false ['b'], .set true ['1'], .get true ['a'], .set false ['2']]).any
        (fun s => (s.cache.map fun c => c.kmap.keys) = some [['b']]) = true := by
    decide +kernel
  obtain ⟨s, done, keys⟩ := (Option.any_eq_true _ _).mp ran
  exact ⟨s, done, of_decide_eq_true keys,
    cache_intact Bool 1 ((Reach.start (M := machine Bool 1) rfl).execWhere done)⟩

end LFUClients

end ProjectsCpp.WebServer
