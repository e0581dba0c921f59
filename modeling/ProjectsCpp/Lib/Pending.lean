import Mathlib.Logic.Function.Basic
import Mathlib.Data.List.Basic
import Mathlib.Data.List.Forall2
import Mathlib.Data.List.Perm.Basic
import Mathlib.Order.Basic
import Mathlib.Algebra.Group.Nat.Defs
import Mathlib.Algebra.Group.Int.Defs

/-! A table of requests under ids that a counter gives out. The history of the ids is a list with one
record for each of them, and a record says what is in the table under its id. -/

namespace ProjectsCpp.Pending

variable {α ε : Type}

structure Table (α : Type) where
  last : BitVec 64
  entries : BitVec 64 → Option α

namespace Table

def new : Table α := ⟨0, fun _ => none⟩

def count (t : Table α) : Table α := { t with last := t.last + 1 }

def insert (t : Table α) (id : BitVec 64) (a : α) : Table α :=
  { t with entries := Function.update t.entries id (some a) }

def erase (t : Table α) (id : BitVec 64) : Table α :=
  { t with entries := Function.update t.entries id none }

/-- The id of record `n`. -/
def idOf (n : Nat) : BitVec 64 := BitVec.ofNat 64 (n + 1)

theorem idOf_inj {m n : Nat} (left : m + 1 < 2 ^ 64) (right : n + 1 < 2 ^ 64) (same : idOf m = idOf n) :
    m = n := by
  have values := congrArg BitVec.toNat same
  rw [idOf, idOf, BitVec.toNat_ofNat, BitVec.toNat_ofNat, Nat.mod_eq_of_lt left,
    Nat.mod_eq_of_lt right] at values
  exact Nat.succ.inj values

variable {t : Table α} {view : ε → Option α} {log : List ε} {e : ε} {a : α} {n : Nat}

/-- `view` gives what is in the table for a record. -/
structure Shows (t : Table α) (view : ε → Option α) (log : List ε) : Prop where
  few : log.length < 2 ^ 64
  last : t.last = BitVec.ofNat 64 log.length
  here : ∀ n e, log[n]? = some e → t.entries (idOf n) = view e
  only : ∀ id a, t.entries id = some a → ∃ n e, log[n]? = some e ∧ id = idOf n

theorem Shows.new (view : ε → Option α) : (new : Table α).Shows view [] where
  few := Nat.two_pow_pos 64
  last := rfl
  here n e there := by simp at there
  only id a found := by simp [Table.new] at found

theorem Shows.small (shows : t.Shows view log) (there : log[n]? = some e) : n + 1 < 2 ^ 64 :=
  Nat.lt_of_le_of_lt (List.getElem?_eq_some_iff.mp there).1 shows.few

theorem Shows.fresh (shows : t.Shows view log) (room : log.length + 1 < 2 ^ 64) :
    t.entries (idOf log.length) = none := by
  cases found : t.entries (idOf log.length) with
  | none => rfl
  | some a =>
    obtain ⟨n, e, there, same⟩ := shows.only _ a found
    have inside := (List.getElem?_eq_some_iff.mp there).1
    rw [idOf_inj room (shows.small there) same] at inside
    exact absurd inside (Nat.lt_irrefl n)

theorem Shows.count (shows : t.Shows view log) (room : log.length + 1 < 2 ^ 64) (none : view e = none) :
    t.count.last = idOf log.length ∧ t.count.Shows view (log ++ [e]) := by
  have last : t.count.last = idOf log.length := by
    rw [Table.count, shows.last, idOf, BitVec.ofNat_add]
    rfl
  refine ⟨last, by simpa using room, by simpa [idOf] using last, fun n e' there => ?_, fun id a found => ?_⟩
  · by_cases inside : n < log.length
    · rw [List.getElem?_append_left inside] at there
      exact shows.here n e' there
    · rw [List.getElem?_append_right (Nat.not_lt.mp inside)] at there
      obtain ⟨zero, same⟩ : n - log.length = 0 ∧ e = e' := by
        simpa [List.getElem?_singleton] using there
      obtain rfl : n = log.length := by omega
      exact (shows.fresh room).trans (same ▸ none.symm)
  · obtain ⟨n, e', there, same⟩ := shows.only id a found
    refine ⟨n, e', ?_, same⟩
    rw [List.getElem?_append_left (List.getElem?_eq_some_iff.mp there).1, there]

theorem Shows.set (shows : t.Shows view log) (there : log[n]? = some e) (e' : ε) {u : Table α}
    (last : u.last = t.last) (entries : u.entries = Function.update t.entries (idOf n) (view e')) :
    u.Shows view (log.set n e') := by
  refine ⟨by simpa using shows.few, by simpa [last] using shows.last, fun m f found => ?_,
    fun id a found => ?_⟩
  · rw [List.getElem?_set] at found
    split at found
    · rename_i same
      subst same
      have inside := (List.getElem?_eq_some_iff.mp there).1
      obtain rfl : e' = f := by simpa [inside] using found
      rw [entries, Function.update_self]
    · rename_i other
      have unlike : idOf m ≠ idOf n := fun same =>
        other (idOf_inj (shows.small there) (shows.small found) same.symm)
      rw [entries, Function.update_of_ne unlike, shows.here m f found]
  · by_cases same : id = idOf n
    · exact ⟨n, e', by simp [(List.getElem?_eq_some_iff.mp there).1], same⟩
    · rw [entries, Function.update_of_ne same] at found
      obtain ⟨m, f, found, its⟩ := shows.only id a found
      have other : n ≠ m := fun equal => same (equal ▸ its)
      exact ⟨m, f, by rw [List.getElem?_set_ne other, found], its⟩

theorem Shows.find (shows : t.Shows view log) {id : BitVec 64} (found : t.entries id = some a) :
    ∃ n e, log[n]? = some e ∧ id = idOf n ∧ view e = some a := by
  obtain ⟨n, e, there, rfl⟩ := shows.only id a found
  exact ⟨n, e, there, rfl, (shows.here n e there).symm.trans found⟩

theorem Shows.keep (shows : t.Shows view log) (there : log[n]? = some e) (e' : ε)
    (same : view e' = view e) : t.Shows view (log.set n e') := by
  refine shows.set there e' rfl ?_
  rw [same, ← shows.here n e there, Function.update_eq_self]

theorem Shows.erase (shows : t.Shows view log) (there : log[n]? = some e) (e' : ε)
    (gone : view e' = none) : (t.erase (idOf n)).Shows view (log.set n e') :=
  shows.set there e' rfl (by rw [gone]; rfl)

theorem Shows.insert (shows : t.Shows view log) (there : log[n]? = some e) (e' : ε)
    (new : view e' = some a) : (t.insert (idOf n) a).Shows view (log.set n e') :=
  shows.set there e' rfl (by rw [new]; rfl)

end Table

/-! ### Tables side by side -/

section
variable {β γ : Type} {R : β → γ → Prop} {xs : List β} {ys : List γ} {x : β} {y : γ}

theorem forall₂_get (all : List.Forall₂ R xs ys) {k : Nat} (there : xs[k]? = some x) :
    ∃ y, ys[k]? = some y ∧ R x y := by
  induction all generalizing k with
  | nil => simp at there
  | cons first _ ih =>
    cases k with
    | zero =>
      obtain rfl : _ = x := by simpa using there
      exact ⟨_, rfl, first⟩
    | succ k => simpa using ih (by simpa using there)

theorem forall₂_set (all : List.Forall₂ R xs ys) (k : Nat) (new : R x y) :
    List.Forall₂ R (xs.set k x) (ys.set k y) := by
  induction all generalizing k with
  | nil => exact .nil
  | cons first rest ih =>
    cases k with
    | zero => exact .cons new rest
    | succ k => exact .cons first (ih k)

theorem perm_set {k : Nat} (there : xs[k]? = some x) :
    ∃ rest, xs.Perm (x :: rest) ∧ ∀ y, (xs.set k y).Perm (y :: rest) := by
  induction xs generalizing k with
  | nil => simp at there
  | cons first xs ih =>
    cases k with
    | zero =>
      obtain rfl : first = x := by simpa using there
      exact ⟨xs, .refl _, fun y => .refl _⟩
    | succ k =>
      obtain ⟨rest, perm, set⟩ := ih (by simpa using there)
      exact ⟨first :: rest, (perm.cons first).trans (.swap _ _ _),
        fun y => ((set y).cons first).trans (.swap _ _ _)⟩

theorem perm_eraseIdx {k : Nat} (there : xs[k]? = some x) : xs.Perm (x :: xs.eraseIdx k) := by
  obtain ⟨inside, rfl⟩ := List.getElem?_eq_some_iff.mp there
  exact (List.getElem_cons_eraseIdx_perm inside).symm

theorem flatten_set {logs : List (List β)} {log : List β} {k : Nat} (there : logs[k]? = some log) :
    ∃ rest, logs.flatten.Perm (log ++ rest) ∧ ∀ log', (logs.set k log').flatten.Perm (log' ++ rest) := by
  obtain ⟨rest, perm, set⟩ := perm_set there
  exact ⟨rest.flatten, perm.flatten, fun log' => (set log').flatten⟩

end

/-! ### Where the records are -/

section
variable {β : Type} {log : List ε} {e e' : ε} {x : β} {n : Nat} {xs ys : List β}

/-- The records under their ids. -/
def items (log : List ε) : List (BitVec 64 × ε) := log.mapIdx fun n e => (Table.idOf n, e)

theorem items_concat (log : List ε) (e : ε) :
    items (log ++ [e]) = items log ++ [(Table.idOf log.length, e)] := by
  simp [items, List.mapIdx_append]

theorem items_set (there : log[n]? = some e) : ∃ rest, (items log).Perm ((Table.idOf n, e) :: rest) ∧
    ∀ e', (items (log.set n e')).Perm ((Table.idOf n, e') :: rest) := by
  have item : (items log)[n]? = some (Table.idOf n, e) := by simp [items, there]
  obtain ⟨rest, perm, set⟩ := perm_set item
  refine ⟨rest, perm, fun e' => ?_⟩
  have same : items (log.set n e') = (items log).set n (Table.idOf n, e') := by
    refine List.ext_getElem? fun m => ?_
    simp only [items, List.getElem?_mapIdx, List.getElem?_set]
    split
    · rename_i here
      subst here
      simp [(List.getElem?_eq_some_iff.mp there).1]
    · rfl
  exact same ▸ set _

theorem mem_items {id : BitVec 64} (member : (id, e) ∈ items log) :
    ∃ n, log[n]? = some e ∧ id = Table.idOf n := by
  obtain ⟨n, inside, same⟩ := List.mem_mapIdx.mp member
  obtain ⟨rfl, rfl⟩ := Prod.mk.inj same
  exact ⟨n, List.getElem?_eq_getElem inside, rfl⟩

/-- In `xs` is what `f` gives for the records, in some order. -/
def Holds (f : BitVec 64 × ε → Option β) (xs : List β) (log : List ε) : Prop :=
  xs.Perm ((items log).filterMap f)

variable {f : BitVec 64 × ε → Option β}

theorem Holds.mem (holds : Holds f xs log) (member : x ∈ xs) :
    ∃ n e, log[n]? = some e ∧ f (Table.idOf n, e) = some x := by
  obtain ⟨⟨id, e⟩, inside, its⟩ := List.mem_filterMap.mp (holds.subset member)
  obtain ⟨n, there, rfl⟩ := mem_items inside
  exact ⟨n, e, there, its⟩

theorem Holds.empty (holds : Holds f [] log) (there : log[n]? = some e) : f (Table.idOf n, e) = none := by
  have empty := List.nil_perm.mp holds
  refine List.filterMap_eq_nil_iff.mp empty _ ?_
  exact List.mem_of_getElem? (show (items log)[n]? = _ by simp [items, there])

theorem Holds.concat (holds : Holds f xs log) (none : f (Table.idOf log.length, e) = none) :
    Holds f xs (log ++ [e]) := by
  rw [Holds, items_concat, List.filterMap_append, List.filterMap_cons_none none, List.filterMap_nil,
    List.append_nil]
  exact holds

theorem Holds.concat_some (holds : Holds f xs log) (new : f (Table.idOf log.length, e) = some x) :
    Holds f (xs ++ [x]) (log ++ [e]) := by
  rw [Holds, items_concat, List.filterMap_append, List.filterMap_cons_some new]
  exact holds.append_right [x]

theorem Holds.keep (holds : Holds f xs log) (there : log[n]? = some e)
    (same : f (Table.idOf n, e') = f (Table.idOf n, e)) : Holds f xs (log.set n e') := by
  obtain ⟨rest, perm, set⟩ := items_set there
  refine holds.trans ((perm.filterMap f).trans (.trans ?_ ((set e').filterMap f).symm))
  rw [List.filterMap_cons, List.filterMap_cons, same]

theorem Holds.enter (holds : Holds f xs log) (there : log[n]? = some e)
    (none : f (Table.idOf n, e) = none) (new : f (Table.idOf n, e') = some x) :
    Holds f (xs ++ [x]) (log.set n e') := by
  obtain ⟨rest, perm, set⟩ := items_set there
  have old := holds.trans (perm.filterMap f)
  rw [List.filterMap_cons_none none] at old
  refine .trans ?_ ((set e').filterMap f).symm
  rw [List.filterMap_cons_some new]
  exact List.perm_append_comm.trans (old.cons x)

theorem Holds.leave (holds : Holds f xs log) (there : log[n]? = some e) (apart : xs.Perm (x :: ys))
    (old : f (Table.idOf n, e) = some x) (none : f (Table.idOf n, e') = none) :
    Holds f ys (log.set n e') := by
  obtain ⟨rest, perm, set⟩ := items_set there
  have before := (apart.symm.trans holds).trans (perm.filterMap f)
  rw [List.filterMap_cons_some old] at before
  refine before.cons_inv.trans (.trans ?_ ((set e').filterMap f).symm)
  rw [List.filterMap_cons_none none]

end

end ProjectsCpp.Pending
