import ProjectsCpp.WebServer.LFUIndex
import ProjectsCpp.Lib.Run

/-! The LFU policy without pointers, and the cache against it: both are called alike, and as long
as no count overflows they answer alike and hold the same keys with the same values. -/

namespace ProjectsCpp.WebServer
open ProjectsCpp.Text ProjectsCpp.LinkedList ProjectsCpp.Run

/-- What the policy knows of a key: how often it was used since it was set, and when last. -/
structure Entry where
  key : Str
  value : Str
  uses : Nat
  lastUse : Nat
deriving DecidableEq

structure Reference where
  entries : List Entry
  clock : Nat
  capacity : Nat

namespace Reference

def find (r : Reference) (k : Str) : Option Entry := r.entries.find? (·.key = k)

def touch (clock : Nat) (k : Str) (e : Entry) : Entry :=
  if e.key = k then { e with uses := e.uses + 1, lastUse := clock } else e

def get (r : Reference) (k : Str) : Reference × Option Str :=
  match r.find k with
  | none => (r, none)
  | some e =>
    ({ r with entries := r.entries.map (touch r.clock k), clock := r.clock + 1 }, some e.value)

def Before (e e' : Entry) : Prop := e.uses < e'.uses ∨ e.uses = e'.uses ∧ e.lastUse < e'.lastUse

instance (e e' : Entry) : Decidable (Before e e') := by
  unfold Before
  infer_instance

def victim : List Entry → Option Entry
  | [] => none
  | e :: es =>
    match victim es with
    | none => some e
    | some v => if Before e v then some e else some v

def makeRoom (r : Reference) : List Entry :=
  if r.entries.length = r.capacity then
    match victim r.entries with
    | none => r.entries
    | some v => r.entries.filter (·.key ≠ v.key)
  else r.entries

theorem makeRoom_subset (r : Reference) : r.makeRoom ⊆ r.entries := by
  rw [makeRoom]
  split
  · split
    · exact fun _ => id
    · exact List.filter_sublist.subset
  · exact fun _ => id

def set (r : Reference) (k v : Str) : Reference :=
  { r with entries := ⟨k, v, 1, r.clock⟩ :: r.makeRoom, clock := r.clock + 1 }

theorem find_eq_none {r : Reference} {k : Str} : r.find k = none ↔ ∀ e ∈ r.entries, e.key ≠ k := by
  simp [find]

theorem find_eq_some {r : Reference} {k : Str} {e : Entry}
    (once : (r.entries.map Entry.key).Nodup) :
    r.find k = some e ↔ e ∈ r.entries ∧ e.key = k := by
  constructor
  · intro found
    exact ⟨List.mem_of_find?_eq_some found, by simpa using List.find?_some found⟩
  · rintro ⟨inside, rfl⟩
    cases found : r.find e.key with
    | none => exact absurd rfl (find_eq_none.mp found e inside)
    | some e' =>
      have same : e'.key = e.key := by simpa using List.find?_some found
      rw [List.inj_on_of_nodup_map once (List.mem_of_find?_eq_some found) inside same]

theorem victim_mem {es : List Entry} {v : Entry} (found : victim es = some v) : v ∈ es := by
  induction es generalizing v with
  | nil => cases found
  | cons e es ih =>
    rw [victim] at found
    cases rest : victim es with
    | none =>
      rw [rest] at found
      cases found
      exact .head _
    | some w =>
      simp only [rest] at found
      split at found
      · cases found
        exact .head _
      · cases found
        exact .tail _ (ih rest)

theorem victim_eq {es : List Entry} {m : Entry} (inside : m ∈ es)
    (first : ∀ e ∈ es, e ≠ m → Before m e) : victim es = some m := by
  induction es with
  | nil => exact nomatch inside
  | cons e es ih =>
    rw [victim]
    by_cases later : m ∈ es
    · rw [ih later fun e' member => first e' (.tail _ member)]
      refine if_neg fun before => ?_
      have other : e ≠ m := by
        rintro rfl
        unfold Before at before
        omega
      have := first e (.head _) other
      unfold Before at this before
      omega
    · obtain rfl : m = e := (List.mem_cons.mp inside).resolve_right later
      cases found : victim es with
      | none => rfl
      | some v =>
        have member := victim_mem found
        exact if_pos (first v (.tail _ member) fun same => later (same ▸ member))

end Reference

namespace LFUCache
variable {c c' : LFUCache} {top row : Row} {rest rest' l r : List Row} {stamp : Nat → Nat}
  {f x a : Nat} {g : Int} {xs ys : List Nat} {k v : Str} {ref : Reference}

/-- The entries of the policy are the nodes in the lists, and each list is in the order of the last
use; `stamp` is the time of the last use of a node. -/
structure Mirrors (c : LFUCache) (rest : List Row) (stamp : Nat → Nat) (ref : Reference) : Prop where
  capacity : ref.capacity = c.capacity
  once : (ref.entries.map Entry.key).Nodup
  entries : ∀ e, e ∈ ref.entries ↔ ∃ f a, Place rest f e.uses a ∧
    valueOf c.keys a = some ⟨e.key, e.value⟩ ∧ e.lastUse = stamp a
  order : ∀ row ∈ rest, row.nodes.Pairwise fun a b => stamp b < stamp a
  clock : ∀ f g a, Place rest f g a → stamp a < ref.clock

theorem Rep.positive (rep : Rep c top rest) (place : Place rest f g a) : 0 < g := by
  obtain ⟨row, inside, -, rfl, -⟩ := place
  have first := (List.pairwise_cons.mp rep.ordered).1 row.freq (List.mem_map_of_mem inside)
  rwa [rep.shape.zero] at first

theorem Mirrors.entry (mirrors : Mirrors c rest stamp ref) (rep : Rep c top rest)
    (place : Place rest f g a) (found : valueOf c.keys a = some ⟨k, v⟩) :
    ∃ n : Nat, (n : Int) = g ∧ ⟨k, v, n, stamp a⟩ ∈ ref.entries := by
  obtain ⟨n, rfl⟩ := Int.eq_ofNat_of_zero_le (Int.le_of_lt (rep.positive place))
  exact ⟨n, rfl, (mirrors.entries _).mpr ⟨f, a, place, found, rfl⟩⟩

theorem Mirrors.present (mirrors : Mirrors c rest stamp ref) (rep : Rep c top rest) :
    k ∈ c.kmap ↔ ∃ e ∈ ref.entries, e.key = k := by
  rw [← AList.lookup_isSome, Option.isSome_iff_exists]
  constructor
  · rintro ⟨a, found⟩
    obtain ⟨⟨f, g, place⟩, key⟩ := (rep.indexed.kmap k a).mp found
    obtain ⟨content, there, rfl⟩ := Option.map_eq_some_iff.mp key
    obtain ⟨n, -, inside⟩ := mirrors.entry rep place there
    exact ⟨_, inside, rfl⟩
  · rintro ⟨e, inside, rfl⟩
    obtain ⟨f, a, place, found, -⟩ := (mirrors.entries e).mp inside
    exact ⟨a, (rep.indexed.kmap _ a).mpr ⟨⟨f, _, place⟩, by rw [keyOf, found]; rfl⟩⟩

theorem Mirrors.length (mirrors : Mirrors c rest stamp ref) (rep : Rep c top rest) :
    ref.entries.length = c.kmap.entries.length := by
  have same : (ref.entries.map Entry.key).Perm c.kmap.keys :=
    (List.perm_ext_iff_of_nodup mirrors.once c.kmap.keys_nodup).mpr fun k => by
      rw [← AList.mem_keys, mirrors.present rep, List.mem_map]
  simpa [AList.keys, List.keys] using same.length_eq

theorem Moved.decreasing (moved : Moved c c' rest rest' x f g) {clock : Nat}
    (order : ∀ row ∈ rest, row.nodes.Pairwise fun a b => stamp b < stamp a)
    (early : ∀ f g a, Place rest f g a → stamp a < clock) :
    ∀ row ∈ rest', row.nodes.Pairwise fun a b =>
      Function.update stamp x clock b < Function.update stamp x clock a := by
  intro row inside
  obtain ⟨nodes, shape, away, old⟩ := moved.order row inside
  have kept : ∀ a ∈ nodes, Function.update stamp x clock a = stamp a :=
    fun a member => Function.update_of_ne (fun same : a = x => away (same ▸ member)) ..
  have tail : nodes.Pairwise fun a b =>
      Function.update stamp x clock b < Function.update stamp x clock a := by
    rcases old with rfl | ⟨other, there, sub⟩
    · exact .nil
    · exact ((order other there).sublist sub).imp_of_mem fun {a b} first second less => by
        rwa [kept a first, kept b second]
  rcases shape with same | same <;> rw [same]
  · exact tail
  · refine List.pairwise_cons.mpr ⟨fun a member => ?_, tail⟩
    rw [kept a member, Function.update_self]
    rcases old with rfl | ⟨other, there, sub⟩
    · exact nomatch member
    · exact early _ _ a ⟨other, there, rfl, rfl, sub.subset member⟩

theorem Moved.clock (moved : Moved c c' rest rest' x f g) {clock : Nat}
    (early : ∀ f g a, Place rest f g a → stamp a < clock) :
    ∀ f g a, Place rest' f g a → Function.update stamp x clock a < clock + 1 := by
  intro f' g' a place
  by_cases same : a = x
  · rw [same, Function.update_self]
    exact Nat.lt_succ_self _
  · rw [Function.update_of_ne same]
    rcases (moved.place f' g' a).mp place with ⟨-, old⟩ | ⟨rfl, -⟩
    · exact Nat.lt_succ_of_lt (early f' g' a old)
    · exact absurd rfl same

theorem Mirrors.find (mirrors : Mirrors c rest stamp ref) (rep : Rep c top rest)
    (place : Place rest f g x) (found : valueOf c.keys x = some ⟨k, v⟩) :
    ∃ e, ref.find k = some e ∧ e.value = v ∧ (e.uses : Int) = g := by
  obtain ⟨n, freq, inside⟩ := mirrors.entry rep place found
  exact ⟨_, (Reference.find_eq_some mirrors.once).mpr ⟨inside, rfl⟩, rfl, freq⟩

theorem Mirrors.hit (mirrors : Mirrors c rest stamp ref) (rep : Rep c top rest)
    (place : Place rest f g x) (found : valueOf c.keys x = some ⟨k, v⟩) {f' : Nat}
    (moved : Moved c c' rest rest' x f' (g + 1)) (capacity : c'.capacity = c.capacity) :
    Mirrors c' rest' (Function.update stamp x ref.clock) (ref.get k).1 ∧
      (ref.get k).2 = some v := by
  obtain ⟨e, known, value, uses⟩ := mirrors.find rep place found
  have only : ∀ f a (e' : Entry), Place rest f e'.uses a → valueOf c.keys a = some ⟨e'.key, e'.value⟩ →
      e'.key = k → a = x := fun f a e' there content same =>
    rep.indexed.unique ⟨_, there⟩ ⟨_, place⟩ (by rw [keyOf, keyOf, found, content, ← same]; rfl)
      (by rw [keyOf, content]; exact Option.some_ne_none _)
  have own : valueOf c'.keys x = valueOf c.keys x :=
    moved.value f' (g + 1) x ((moved.place _ _ _).mpr (.inr ⟨rfl, rfl, rfl⟩))
  rw [Reference.get, known]
  refine ⟨⟨mirrors.capacity.trans capacity.symm, ?_, fun e' => ?_,
    moved.decreasing mirrors.order mirrors.clock, moved.clock mirrors.clock⟩, congrArg some value⟩
  · have keys : ∀ e, (Reference.touch ref.clock k e).key = e.key := fun e => by
      rw [Reference.touch]
      split <;> rfl
    rw [List.map_map]
    simpa only [Function.comp_def, keys] using mirrors.once
  · rw [List.mem_map]
    constructor
    · rintro ⟨old, inside, rfl⟩
      obtain ⟨f₀, a, there, content, last⟩ := (mirrors.entries old).mp inside
      rw [Reference.touch]
      split
      · rename_i same
        obtain rfl := only f₀ a old there content same
        obtain ⟨-, freq⟩ := rep.shape.place_unique there place
        refine ⟨f', a, (moved.place _ _ _).mpr (.inr ⟨rfl, rfl, ?_⟩), own.trans content,
          by rw [Function.update_self]⟩
        exact congrArg (· + 1) freq
      · rename_i unlike
        have other : a ≠ x := by
          rintro rfl
          exact unlike (congrArg Key.key (Option.some.inj (content.symm.trans found)))
        have there' := (moved.place f₀ old.uses a).mpr (.inl ⟨other, there⟩)
        exact ⟨f₀, a, there', (moved.value _ _ _ there').trans content,
          last.trans (Function.update_of_ne other ..).symm⟩
    · rintro ⟨f₀, a, there, content, last⟩
      have content := (moved.value _ _ _ there).symm.trans content
      rcases (moved.place _ _ _).mp there with ⟨other, old⟩ | ⟨rfl, -, freq⟩
      · refine ⟨e', (mirrors.entries e').mpr ⟨f₀, a, old, content, ?_⟩, if_neg fun same =>
          other (only f₀ a e' old content same)⟩
        rw [last, Function.update_of_ne other]
      · obtain ⟨n, number, inside⟩ := mirrors.entry rep place found
        refine ⟨_, inside, (if_pos rfl).trans ?_⟩
        rw [Function.update_self] at last
        obtain ⟨rfl, rfl⟩ := Key.mk.inj (Option.some.inj (found.symm.trans content))
        have uses : e'.uses = n + 1 := by omega
        rw [← last, ← uses]

theorem Mirrors.evict (mirrors : Mirrors c (row :: r) stamp ref) (rep : Rep c top (row :: r))
    (nodes : row.nodes = xs ++ [x]) (found : valueOf c.keys x = some ⟨k, v⟩)
    (removed : Removed c c' (row :: r) rest' x) (capacity : c'.capacity = c.capacity) :
    ∃ e, Reference.victim ref.entries = some e ∧
      Mirrors c' rest' stamp { ref with entries := ref.entries.filter (·.key ≠ e.key) } := by
  have node : x ∈ row.nodes := nodes ▸ List.mem_append_right _ (.head _)
  have place : Place (row :: r) row.addr row.freq x := ⟨row, .head _, rfl, rfl, node⟩
  obtain ⟨n, number, inside⟩ := mirrors.entry rep place found
  refine ⟨⟨k, v, n, stamp x⟩, Reference.victim_eq inside fun e member unlike => ?_,
    mirrors.capacity.trans capacity.symm, ?_, fun e => ?_, fun other member => ?_,
    fun f g a there => mirrors.clock f g a ((removed.place f g a).mp there).2⟩
  · obtain ⟨f, a, ⟨other, there, -, freq, its⟩, content, last⟩ := (mirrors.entries e).mp member
    rcases List.mem_cons.mp there with rfl | behind
    · have uses : e.uses = n := by omega
      have apart : a ≠ x := by
        rintro rfl
        obtain ⟨same, equal⟩ := Key.mk.inj (Option.some.inj (found.symm.trans content))
        apply unlike
        cases e
        simp_all
      have order := mirrors.order other (.head _)
      rw [nodes] at order its
      have before : a ∈ xs :=
        (List.mem_append.mp its).resolve_right fun same => apart (List.mem_singleton.mp same)
      have less := (List.pairwise_append.mp order).2.2 a before x (.head _)
      exact .inr ⟨uses.symm, by rw [last]; exact less⟩
    · have sorted := (List.pairwise_cons.mp rep.ordered).2
      have less := (List.pairwise_cons.mp sorted).1 other.freq (List.mem_map_of_mem behind)
      exact .inl (by show n < e.uses; omega)
  · exact mirrors.once.sublist (List.filter_sublist.map _)
  · simp only [List.mem_filter, mirrors.entries, decide_eq_true_eq]
    constructor
    · rintro ⟨⟨f, a, there, content, last⟩, unlike⟩
      have other : a ≠ x := by
        rintro rfl
        exact unlike (congrArg Key.key (Option.some.inj (content.symm.trans found)))
      have there' := (removed.place f e.uses a).mpr ⟨other, there⟩
      exact ⟨f, a, there', (removed.value _ _ _ there').trans content, last⟩
    · rintro ⟨f, a, there, content, last⟩
      have content := (removed.value _ _ _ there).symm.trans content
      obtain ⟨other, old⟩ := (removed.place _ _ _).mp there
      refine ⟨⟨f, a, old, content, last⟩, fun same => other ?_⟩
      exact rep.indexed.unique ⟨_, old⟩ ⟨_, place⟩ (by rw [keyOf, keyOf, found, content, same]; rfl)
        (by rw [keyOf, content]; exact Option.some_ne_none _)
  · obtain ⟨old, there, sub⟩ := removed.order other member
    exact (mirrors.order old there).sublist sub

theorem Mirrors.put (mirrors : Mirrors c rest stamp ref) (rep : Rep c top rest)
    (absent : k ∉ c.kmap) (outside : ∀ f g, ¬ Place rest f g c.fresh)
    (moved : Moved (c.newKey ⟨k, v⟩) c' rest rest' c.fresh f 1)
    (capacity : c'.capacity = c.capacity) :
    Mirrors c' rest' (Function.update stamp c.fresh ref.clock)
      { ref with entries := ⟨k, v, 1, ref.clock⟩ :: ref.entries, clock := ref.clock + 1 } := by
  have other : ∀ f g a, Place rest f g a → a ≠ c.fresh := fun f g a there same =>
    outside f g (same ▸ there)
  have value : ∀ f' g' a, Place rest' f' g' a → a ≠ c.fresh →
      valueOf c'.keys a = valueOf c.keys a := fun f' g' a there apart =>
    (moved.value f' g' a there).trans
      (congrArg (Option.map Node.value) (Function.update_of_ne apart ..))
  have place := (moved.place f 1 c.fresh).mpr (.inr ⟨rfl, rfl, rfl⟩)
  have own : valueOf c'.keys c.fresh = some ⟨k, v⟩ :=
    (moved.value f 1 _ place).trans (by simp [newKey, valueOf])
  refine ⟨mirrors.capacity.trans capacity.symm, List.nodup_cons.mpr ⟨fun known => ?_, mirrors.once⟩,
    fun e => ?_, moved.decreasing mirrors.order mirrors.clock, moved.clock mirrors.clock⟩
  · obtain ⟨e, inside, same⟩ := List.mem_map.mp known
    exact absent ((mirrors.present rep).mpr ⟨e, inside, same⟩)
  · rw [List.mem_cons]
    constructor
    · rintro (rfl | inside)
      · exact ⟨f, c.fresh, place, own, by rw [Function.update_self]⟩
      · obtain ⟨f', a, there, content, last⟩ := (mirrors.entries e).mp inside
        have apart := other _ _ _ there
        have there' := (moved.place f' e.uses a).mpr (.inl ⟨apart, there⟩)
        exact ⟨f', a, there', (value _ _ _ there' apart).trans content,
          last.trans (Function.update_of_ne apart ..).symm⟩
    · rintro ⟨f', a, there, content, last⟩
      rcases (moved.place _ _ _).mp there with ⟨apart, old⟩ | ⟨rfl, -, freq⟩
      · rw [Function.update_of_ne apart] at last
        exact .inr ((mirrors.entries e).mpr
          ⟨f', a, old, (value _ _ _ there apart).symm.trans content, last⟩)
      · rw [Function.update_self] at last
        obtain ⟨rfl, rfl⟩ := Key.mk.inj (Option.some.inj (own.symm.trans content))
        have uses : e.uses = 1 := by omega
        exact .inl (by rw [← last, ← uses])

theorem Mirrors.set (mirrors : Mirrors c rest stamp ref) (rep : Rep c top rest)
    (absent : k ∉ c.kmap) (room : 0 < c.capacity) :
    ∃ c' rest' stamp', c.set k v = some c' ∧ Rep c' top rest' ∧ c'.capacity = c.capacity ∧
      Mirrors c' rest' stamp' (ref.set k v) := by
  rw [LFUCache.set, if_neg (by omega)]
  obtain ⟨c₁, rest₁, done, rep₁, capacity₁, less, which⟩ := rep.makeRoom room
  have ready : k ∉ c₁.kmap ∧ Mirrors c₁ rest₁ stamp { ref with entries := ref.makeRoom } := by
    have sizes := mirrors.length rep
    have limit := mirrors.capacity
    rcases which with ⟨unfilled, rfl, rfl⟩ | ⟨k', v', full, ⟨row, r, xs, x, rfl, nodes, found,
      removed⟩, kmap⟩
    · rw [Reference.makeRoom, if_neg (by omega)]
      exact ⟨absent, mirrors⟩
    · obtain ⟨e, victim, mirrors₁⟩ := mirrors.evict rep nodes found removed capacity₁
      rw [Reference.makeRoom, if_pos (by omega), victim]
      exact ⟨fun inside => absent (AList.mem_erase.mp (kmap ▸ inside)).2, mirrors₁⟩
  obtain ⟨c₂, rest₂, f, placed, rep₂, capacity₂, moved, outside, -⟩ :=
    rep₁.put (v := v) ready.1 less
  refine ⟨c₂, rest₂, _, ?_, rep₂, capacity₂.trans capacity₁,
    ready.2.put rep₁ ready.1 outside moved capacity₂⟩
  rw [done, Option.bind_some, placed]

end LFUCache

/-- A cache and the policy side by side, with the answers of all `get`s so far, the latest first. A
call that fails in the code leaves no cache. -/
structure LFURun where
  cache : Option LFUCache
  reference : Reference
  answers : List (Option Str)
  expected : List (Option Str)

inductive LFUCall where
  | get (k : Str)
  | set (k v : Str)
deriving DecidableEq

namespace LFURun
open LFUCache

/-- `handleSuccess` in one thread: `set` comes after a `get` that has missed. -/
def step (s : LFURun) : LFUCall → Option LFURun
  | .get k =>
    let result := s.cache.bind (·.get k)
    some ⟨result.map Prod.fst, (s.reference.get k).1, result.bind Prod.snd :: s.answers,
      (s.reference.get k).2 :: s.expected⟩
  | .set k v =>
    if s.reference.find k = none then
      some { s with cache := s.cache.bind (·.set k v), reference := s.reference.set k v }
    else none

def machine (capacity : Nat) : Machine LFURun LFUCall where
  start := (· = ⟨some (.make capacity), ⟨[], 0, capacity⟩, [], []⟩)
  step := step

/-- The answers are the same, the structures of the cache are in order, and the cache holds the keys
of the policy with their values; what an eviction takes shows in the keys. -/
def Refined (s : LFURun) : Prop :=
  s.answers = s.expected ∧ ∃ c top rest, s.cache = some c ∧ Rep c top rest ∧
    ∀ k v, (∃ a, c.kmap.lookup k = some a ∧ valueOf c.keys a = some ⟨k, v⟩) ↔
      ∃ e ∈ s.reference.entries, e.key = k ∧ e.value = v

def CountsOn (s : LFURun) : LFUCall → Prop
  | .get k => (s.reference.find k).all fun e => (e.uses : Int) ≠ intMax
  | .set _ _ => True

instance (s : LFURun) (call : LFUCall) : Decidable (s.CountsOn call) := by
  cases call <;> (unfold CountsOn; infer_instance)

def Mirrored (s : LFURun) : Prop :=
  s.answers = s.expected ∧ ∃ c top rest stamp, s.cache = some c ∧ 0 < c.capacity ∧ Rep c top rest ∧
    Mirrors c rest stamp s.reference

theorem Mirrored.refined {s : LFURun} (mirrored : s.Mirrored) : s.Refined := by
  obtain ⟨same, c, top, rest, stamp, there, -, rep, mirrors⟩ := mirrored
  refine ⟨same, c, top, rest, there, rep, fun k v => ⟨?_, ?_⟩⟩
  · rintro ⟨a, node, found⟩
    obtain ⟨⟨f, g, place⟩, -⟩ := (rep.indexed.kmap k a).mp node
    obtain ⟨n, -, inside⟩ := mirrors.entry rep place found
    exact ⟨_, inside, rfl, rfl⟩
  · rintro ⟨e, inside, rfl, rfl⟩
    obtain ⟨f, a, place, found, -⟩ := (mirrors.entries e).mp inside
    exact ⟨a, (rep.indexed.kmap _ a).mpr ⟨⟨f, _, place⟩, by rw [keyOf, found]; rfl⟩, found⟩

theorem step_mirrored {s t : LFURun} {call : LFUCall} (mirrored : s.Mirrored)
    (counts : s.CountsOn call) (next : s.step call = some t) : t.Mirrored := by
  obtain ⟨same, c, top, rest, stamp, there, positive, rep, mirrors⟩ := mirrored
  cases call with
  | get k =>
    cases next
    rw [Mirrored, there, Option.bind_some]
    by_cases present : k ∈ c.kmap
    · obtain ⟨l, row, r, xs, x, ys, v, rfl, nodes, found, got⟩ := rep.find present
      have place : Place (l ++ row :: r) row.addr row.freq x :=
        ⟨row, List.mem_append_right _ (.head _), rfl, rfl, nodes ▸ List.mem_append_right _ (.head _)⟩
      obtain ⟨e, known, -, uses⟩ := mirrors.find rep place found
      have room : row.freq ≠ intMax := by
        rw [← uses]
        simpa [CountsOn, known] using counts
      obtain ⟨c', rest', f, done, rep', capacity, moved⟩ := rep.promote nodes found room
      obtain ⟨mirrors', answer⟩ := mirrors.hit rep place found moved capacity
      rw [got, done]
      exact ⟨by rw [answer, same]; rfl, c', top, rest', _, rfl, capacity ▸ positive, rep', mirrors'⟩
    · have unknown : s.reference.find k = none := by
        rw [Reference.find_eq_none]
        exact fun e inside key => present ((mirrors.present rep).mpr ⟨e, inside, key⟩)
      rw [rep.get_miss present, Reference.get, unknown]
      exact ⟨congrArg _ same, c, top, rest, stamp, rfl, positive, rep, mirrors⟩
  | set k v =>
    rw [step] at next
    split at next
    · rename_i unknown
      cases next
      have absent : k ∉ c.kmap := fun inside =>
        let ⟨e, member, key⟩ := (mirrors.present rep).mp inside
        Reference.find_eq_none.mp unknown e member key
      obtain ⟨c', rest', stamp', done, rep', capacity, mirrors'⟩ :=
        mirrors.set (v := v) rep absent positive
      exact ⟨same, c', top, rest', stamp', by rw [there, Option.bind_some, done],
        capacity ▸ positive, rep', mirrors'⟩
    · cases next

theorem Mirrored.countsOn {s : LFURun} {c : LFUCache} {k : Str} (mirrored : s.Mirrored)
    (there : s.cache = some c)
    (counts : (c.fmap.lookup k).all fun f => c.getFreq f ≠ some intMax) : s.CountsOn (.get k) := by
  obtain ⟨-, c', top, rest, stamp, cached, -, rep, mirrors⟩ := mirrored
  obtain rfl : c' = c := Option.some.inj (cached.symm.trans there)
  cases known : s.reference.find k with
  | none => simp [CountsOn, known]
  | some e =>
    obtain ⟨inside, rfl⟩ := (Reference.find_eq_some mirrors.once).mp known
    obtain ⟨-, a, ⟨row, member, rfl, freq, node⟩, found, -⟩ := (mirrors.entries e).mp inside
    have list : c'.fmap.lookup e.key = some row.addr :=
      (rep.indexed.fmap _ _).mpr ⟨a, ⟨_, row, member, rfl, freq, node⟩, by rw [keyOf, found]; rfl⟩
    rw [list, Option.all_some, rep.shape.getFreq (.tail _ member), freq] at counts
    simpa [CountsOn, known] using counts

theorem Mirrored.get {s : LFURun} {c : LFUCache} {k : Str} (mirrored : s.Mirrored)
    (there : s.cache = some c) (counts : s.CountsOn (.get k)) :
    ∃ c' t, c.get k = some (c', (s.reference.get k).2) ∧ t.cache = some c' ∧
      t.reference = (s.reference.get k).1 ∧ Mirrored t := by
  have next : s.step (.get k) = some ⟨(c.get k).map Prod.fst, (s.reference.get k).1,
      (c.get k).bind Prod.snd :: s.answers, (s.reference.get k).2 :: s.expected⟩ := by
    rw [step, there, Option.bind_some]
  have mirrored' := step_mirrored mirrored counts next
  obtain ⟨same, c', -, -, -, got, -⟩ := id mirrored'
  obtain ⟨⟨c', answer⟩, found, rfl⟩ := Option.map_eq_some_iff.mp got
  have heads := (List.cons.inj same).1
  rw [found, Option.bind_some] at heads
  refine ⟨c', _, ?_, got, rfl, mirrored'⟩
  rw [found, ← heads]

theorem Mirrored.set {s : LFURun} {c : LFUCache} {k : Str} (v : Str) (mirrored : s.Mirrored)
    (there : s.cache = some c) (unknown : s.reference.find k = none) :
    ∃ c' t, c.set k v = some c' ∧ t.cache = some c' ∧ t.reference = s.reference.set k v ∧
      Mirrored t := by
  have next : s.step (.set k v) =
      some { s with cache := c.set k v, reference := s.reference.set k v } := by
    rw [step, if_pos unknown, there, Option.bind_some]
  have mirrored' := step_mirrored mirrored (show s.CountsOn (.set k v) from trivial) next
  obtain ⟨-, c', -, -, -, put, -⟩ := id mirrored'
  exact ⟨c', _, put, put, rfl, mirrored'⟩

theorem mirrored_of_reach {capacity : Nat} (positive : 0 < capacity) {s : LFURun}
    (reach : Reach (machine capacity) CountsOn s) : s.Mirrored := by
  refine reach.invariant ?_ fun s call t mirrored counts next => step_mirrored mirrored counts next
  rintro s rfl
  refine ⟨rfl, .make capacity, _, [], fun _ => 0, rfl, positive, Rep.make capacity, rfl,
    List.nodup_nil, fun e => ⟨nofun, fun ⟨_, _, ⟨_, inside, _⟩, _⟩ => nomatch inside⟩, nofun,
    fun _ _ _ ⟨_, inside, _⟩ => nomatch inside⟩

/-- The cache behaves as the policy in every run in which no count reaches past the last `int`. -/
theorem cache_refines_reference {capacity : Nat} (positive : 0 < capacity) {s : LFURun}
    (reach : Reach (machine capacity) CountsOn s) : s.Refined :=
  (mirrored_of_reach positive reach).refined

def begin (capacity : Nat) : LFURun := ⟨some (.make capacity), ⟨[], 0, capacity⟩, [], []⟩

theorem cache_refines_reference_eviction :
    ∃ s, execWhere (machine 2) CountsOn (begin 2)
        [.get ['a'], .set ['a'] ['1'], .set ['b'] ['2'], .get ['a'], .set ['c'] ['3'],
          .get ['b'], .get ['a']] = some s ∧
      s.answers = [some ['1'], none, some ['1'], none] ∧ s.Refined := by
  have ran : (execWhere (machine 2) CountsOn (begin 2)
      [.get ['a'], .set ['a'] ['1'], .set ['b'] ['2'], .get ['a'], .set ['c'] ['3'],
        .get ['b'], .get ['a']]).any
          (fun s => s.answers = [some ['1'], none, some ['1'], none]) = true := by
    decide +kernel
  obtain ⟨s, done, answers⟩ := (Option.any_eq_true _ _).mp ran
  exact ⟨s, done, of_decide_eq_true answers, cache_refines_reference (by decide)
    ((Reach.start (M := machine 2) rfl).execWhere done)⟩

theorem used_often (n : Nat) (below : (n : Int) + 1 ≤ intMax) :
    ∃ s, Reach (machine 10) CountsOn s ∧
      ∃ t, s.reference.entries = [⟨['k'], ['v'], n + 1, t⟩] := by
  induction n with
  | zero =>
    exact ⟨_, .step (a := .set ['k'] ['v']) (.start rfl) trivial rfl, 0, rfl⟩
  | succ n ih =>
    obtain ⟨s, reach, t, entries⟩ := ih (by omega)
    have known : s.reference.find ['k'] = some ⟨['k'], ['v'], n + 1, t⟩ := by
      rw [Reference.find, entries]
      rfl
    have counts : s.CountsOn (.get ['k']) := by
      rw [CountsOn, known]
      simp only [Option.all_some, decide_eq_true_eq]
      omega
    refine ⟨_, .step reach counts rfl, s.reference.clock, ?_⟩
    simp only [Reference.get, known, entries]
    rfl

theorem count_overflows : ¬ ∀ s, Reachable (machine 10) s → s.Refined := by
  intro always
  obtain ⟨s, reach, t, entries⟩ := used_often (2 ^ 31 - 2) (by decide)
  obtain ⟨-, c, top, rest, stamp, there, -, rep, mirrors⟩ :=
    mirrored_of_reach (by decide) reach
  have present : ['k'] ∈ c.kmap := (mirrors.present rep).mpr
    ⟨_, by rw [entries]; exact .head _, rfl⟩
  obtain ⟨l, row, r, xs, x, ys, v, rfl, nodes, found, got⟩ := rep.find present
  have inside : row ∈ l ++ row :: r := List.mem_append_right _ (.head _)
  have place : Place (l ++ row :: r) row.addr row.freq x :=
    ⟨row, inside, rfl, rfl, nodes ▸ List.mem_append_right _ (.head _)⟩
  obtain ⟨e, known, -, uses⟩ := mirrors.find rep place found
  have last : row.freq = intMax := by
    rw [Reference.find, entries] at known
    obtain rfl := Option.some.inj known
    rw [← uses]
    rfl
  have failed : c.get ['k'] = none := by rw [got, rep.shape.overflow inside last, Option.map_none]
  obtain ⟨-, c', -, -, alive, -⟩ := always _ (.step (a := .get ['k']) reach.reachable trivial rfl)
  rw [there, Option.bind_some, failed] at alive
  cases alive

end LFURun

end ProjectsCpp.WebServer
