import Mathlib.Data.List.Nodup
import Mathlib.Logic.Function.Basic

/-! Singly linked lists. `next` reads the pointer of a node; a chain hangs behind a node that is not
one of its elements and ends with a null pointer. -/

namespace ProjectsCpp.Chains

variable {α : Type} {next next' : α → Option α} {a b x : α} {l r : List α}

/-- The nodes behind `a`. -/
def Chain (next : α → Option α) : α → List α → Prop
  | a, [] => next a = none
  | a, x :: l => next a = some x ∧ Chain next x l

/-- The last of the nodes, or the one in front of them. -/
def lastOf (a : α) (l : List α) : α := l.getLastD a

@[simp] theorem lastOf_nil (a : α) : lastOf a [] = a := rfl

@[simp] theorem lastOf_cons (a x : α) (l : List α) : lastOf a (x :: l) = lastOf x l := by
  rw [lastOf, List.getLastD_cons, lastOf]

@[simp] theorem lastOf_concat (a x : α) (l : List α) : lastOf a (l ++ [x]) = x := by
  simp [lastOf]

theorem lastOf_mem (a : α) (l : List α) : lastOf a l ∈ a :: l := by
  induction l generalizing a with
  | nil => simp
  | cons x l ih =>
    rw [lastOf_cons]
    exact .tail _ (ih x)

theorem ne_lastOf (apart : a ∉ x :: (l ++ r)) : a ≠ lastOf x l := by
  rintro rfl
  refine apart (List.Sublist.subset ?_ (lastOf_mem x l))
  exact (List.sublist_append_left l r).cons_cons x

theorem chain_append : Chain next a (l ++ r) → Chain next (lastOf a l) r := by
  induction l generalizing a with
  | nil => exact id
  | cons x l ih =>
    rintro ⟨-, rest⟩
    rw [lastOf_cons]
    exact ih rest

theorem Chain.next_last (chain : Chain next a (l ++ r)) : next (lastOf a l) = r.head? := by
  have rest := chain_append chain
  cases r with
  | nil => exact rest
  | cons x r => exact rest.1

theorem Chain.congr (chain : Chain next a l) (same : ∀ y ∈ a :: l, next' y = next y) :
    Chain next' a l := by
  induction l generalizing a with
  | nil => exact (same a (.head _)).trans chain
  | cons x l ih =>
    exact ⟨(same a (.head _)).trans chain.1, ih chain.2 fun y member => same y (.tail _ member)⟩

theorem Chain.insert (chain : Chain next a (l ++ r)) (distinct : (a :: (l ++ r)).Nodup)
    (apart : x ∉ a :: (l ++ r)) (own : next' x = next (lastOf a l))
    (before : next' (lastOf a l) = some x)
    (others : ∀ y, y ≠ x → y ≠ lastOf a l → next' y = next y) : Chain next' a (l ++ x :: r) := by
  induction l generalizing a with
  | nil =>
    refine ⟨before, ?_⟩
    simp only [lastOf_nil, List.nil_append] at *
    cases r with
    | nil => exact own.trans chain
    | cons y r =>
      refine ⟨own.trans chain.1, chain.2.congr fun z member => others z ?_ ?_⟩
      · rintro rfl
        exact apart (.tail _ member)
      · rintro rfl
        exact (List.nodup_cons.mp distinct).1 member
  | cons y l ih =>
    rw [lastOf_cons] at *
    have front := List.nodup_cons.mp distinct
    refine ⟨(others a ?_ (ne_lastOf front.1)).trans chain.1,
      ih chain.2 front.2 ?_ own before others⟩
    · rintro rfl
      exact apart (.head _)
    · exact fun member => apart (.tail _ member)

theorem Chain.erase (chain : Chain next a (l ++ x :: r)) (distinct : (a :: (l ++ x :: r)).Nodup)
    (before : next' (lastOf a l) = next x) (others : ∀ y, y ≠ lastOf a l → next' y = next y) :
    Chain next' a (l ++ r) := by
  induction l generalizing a with
  | nil =>
    simp only [lastOf_nil, List.nil_append] at *
    obtain ⟨-, rest⟩ := chain
    have front := (List.nodup_cons.mp distinct).1
    cases r with
    | nil => exact before.trans rest
    | cons y r =>
      refine ⟨before.trans rest.1, rest.2.congr fun z member => others z ?_⟩
      rintro rfl
      exact front (.tail _ member)
  | cons y l ih =>
    rw [lastOf_cons] at *
    have front := List.nodup_cons.mp distinct
    exact ⟨(others a (ne_lastOf front.1)).trans chain.1, ih chain.2 front.2 before others⟩

theorem exists_split_of_sublist {s : List α} (sub : s.Sublist l) (a : α) :
    ∃ p q, l = p ++ q ∧ lastOf a p = lastOf a s := by
  rcases List.eq_nil_or_concat s with rfl | ⟨s, x, rfl⟩
  · exact ⟨[], l, rfl, rfl⟩
  · obtain ⟨p, q, rfl⟩ := List.append_of_mem (sub.subset (by simp : x ∈ s.concat x))
    exact ⟨p ++ [x], q, by simp, by simp⟩

end ProjectsCpp.Chains
