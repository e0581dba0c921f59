import Mathlib.Data.List.Basic
import Mathlib.Data.List.TakeDrop
import Mathlib.Tactic.SplitIfs

/-! Buffers of a fixed capacity whose `pushBack` drops the oldest item once they are full. The items
are looked at from the back, where the newest has index 0. -/

namespace ProjectsCpp.Windows

/-- A write through the reference that `operator[]` or `back()` gives is a change of the item. -/
class CircularBuffer (α : outParam Type) (B : Type) where
  make : Nat → B
  capacity : B → Nat
  items : B → List α
  clear : B → B
  pushBack : B → α → B
  modifyAt : B → Nat → (α → α) → Option B
  modifyBack : B → (α → α) → Option B

namespace CircularBuffer

def size {α B : Type} [CircularBuffer α B] (b : B) : Nat := (items b).length

def fromBack {α B : Type} [CircularBuffer α B] (b : B) (k : Nat) : Option α := (items b).reverse[k]?

end CircularBuffer

open CircularBuffer

/-- What is promised of the operations. Nothing is of an index with no item, nor of the back of an
empty buffer. -/
class LawfulCircularBuffer (α : outParam Type) (B : Type) [CircularBuffer α B] : Prop where
  capacity_make (n : Nat) : capacity (make n : B) = n
  items_make (n : Nat) : items (make n : B) = []
  fits (b : B) : size b ≤ capacity b
  capacity_clear (b : B) : capacity (clear b) = capacity b
  items_clear (b : B) : items (clear b) = []
  capacity_pushBack (b : B) (x : α) : capacity (pushBack b x) = capacity b
  items_pushBack (b : B) (x : α) :
    items (pushBack b x) = if size b < capacity b then items b ++ [x] else (items b ++ [x]).tail
  modifyAt_eq (b : B) (idx : Nat) (f : α → α) : idx < size b →
    ∃ c, modifyAt b idx f = some c ∧ capacity c = capacity b ∧ items c = (items b).modify idx f
  modifyBack_eq (b : B) (f : α → α) : size b ≠ 0 → modifyBack b f = modifyAt b (size b - 1) f

namespace CircularBuffer
open LawfulCircularBuffer

variable {α B : Type} [CircularBuffer α B] {b c : B} {k : Nat}

theorem fromBack_none (outside : size b ≤ k) : fromBack b k = none :=
  List.getElem?_eq_none (by rwa [List.length_reverse])

theorem fromBack_some (b : B) (inside : k < size b) : ∃ x, fromBack b k = some x :=
  ⟨_, List.getElem?_eq_getElem (by rwa [List.length_reverse])⟩

theorem fromBack_eq {i : Nat} (inside : i < size b) : fromBack b (size b - 1 - i) = (items b)[i]? := by
  have reversed := List.getElem?_reverse (l := items b) (i := size b - 1 - i)
    (by unfold size at *; omega)
  rw [fromBack, reversed]
  congr 1
  unfold size at *
  omega

theorem size_modify {idx : Nat} {f : α → α} (items_eq : items c = (items b).modify idx f) :
    size c = size b := by
  rw [size, items_eq, List.length_modify]
  rfl

theorem fromBack_modify {idx : Nat} {f : α → α} (items_eq : items c = (items b).modify idx f)
    (k : Nat) :
    fromBack c k = if idx + k + 1 = size b then (fromBack b k).map f else fromBack b k := by
  have same := size_modify items_eq
  rcases Nat.lt_or_ge k (size b) with inside | outside
  · have place : size b - 1 - (size b - 1 - k) = k := by omega
    have old := fromBack_eq (b := b) (i := size b - 1 - k) (by omega)
    have new := fromBack_eq (b := c) (i := size b - 1 - k) (by omega)
    rw [same, place] at new
    rw [place] at old
    rw [new, old, items_eq, List.getElem?_modify]
    by_cases here : idx = size b - 1 - k
    · simp only [if_pos here]
      rw [if_pos (by omega)]
      rfl
    · simp only [if_neg here]
      rw [if_neg (by omega)]
      exact id_map _
  · rw [fromBack_none outside, fromBack_none (same ▸ outside)]
    simp only [Option.map_none, ite_self]

variable [LawfulCircularBuffer α B]

theorem size_make (n : Nat) : size (make n : B) = 0 := congrArg List.length (items_make n)

theorem size_clear (b : B) : size (clear b) = 0 := congrArg List.length (items_clear b)

theorem size_pushBack (b : B) (x : α) : size (pushBack b x) = min (size b + 1) (capacity b) := by
  have fits := fits b
  rw [size, items_pushBack]
  split_ifs <;> simp only [List.length_append, List.length_tail, List.length_singleton] <;>
    unfold size at * <;> omega

/-- The new item comes in at the back, and moves the others on. -/
theorem reverse_pushBack (b : B) (x : α) :
    (items (pushBack b x)).reverse = (x :: (items b).reverse).take (capacity b) := by
  have fits := fits b
  have back : (items b ++ [x]).reverse = x :: (items b).reverse := List.reverse_concat ..
  have length : (x :: (items b).reverse).length = size b + 1 := by
    rw [List.length_cons, List.length_reverse]
    rfl
  rw [items_pushBack]
  split_ifs with room
  · rw [back, List.take_of_length_le (length ▸ room)]
  · rw [← List.dropLast_reverse, back, List.dropLast_eq_take, length]
    congr 1
    omega

theorem fromBack_pushBack_zero (x : α) (room : 0 < capacity b) :
    fromBack (pushBack b x) 0 = some x := by
  rw [fromBack, reverse_pushBack, List.getElem?_take, if_pos room]
  rfl

theorem fromBack_pushBack_succ (x : α) (k : Nat) :
    fromBack (pushBack b x) (k + 1) = if k + 1 < capacity b then fromBack b k else none := by
  rw [fromBack, reverse_pushBack, List.getElem?_take]
  rfl

end CircularBuffer

/-- A list with its capacity. -/
structure ListBuffer (α : Type) where
  capacity : Nat
  items : List α
  fits : items.length ≤ capacity

namespace ListBuffer
variable {α : Type}

def pushBack (b : ListBuffer α) (x : α) : ListBuffer α where
  capacity := b.capacity
  items := if b.items.length < b.capacity then b.items ++ [x] else (b.items ++ [x]).tail
  fits := by
    have fits := b.fits
    split <;> simp only [List.length_append, List.length_tail, List.length_singleton] <;> omega

def modifyAt (b : ListBuffer α) (idx : Nat) (f : α → α) : Option (ListBuffer α) :=
  if idx < b.items.length then
    some ⟨b.capacity, b.items.modify idx f, Nat.le_trans (Nat.le_of_eq (List.length_modify ..)) b.fits⟩
  else none

instance : CircularBuffer α (ListBuffer α) where
  make n := ⟨n, [], Nat.zero_le n⟩
  capacity := capacity
  items := items
  clear b := ⟨b.capacity, [], Nat.zero_le _⟩
  pushBack := pushBack
  modifyAt := modifyAt
  modifyBack b f := if b.items.length = 0 then none else b.modifyAt (b.items.length - 1) f

instance : LawfulCircularBuffer α (ListBuffer α) where
  capacity_make _ := rfl
  items_make _ := rfl
  fits := fits
  capacity_clear _ := rfl
  items_clear _ := rfl
  capacity_pushBack _ _ := rfl
  items_pushBack _ _ := rfl
  modifyAt_eq _ _ _ inside := ⟨_, if_pos inside, rfl, rfl⟩
  modifyBack_eq _ _ some := if_neg some

end ListBuffer

end ProjectsCpp.Windows
