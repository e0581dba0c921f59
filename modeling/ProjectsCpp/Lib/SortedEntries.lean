import Mathlib.Order.Lattice
import Mathlib.Data.List.Basic

/-! Maps as lists of entries in the order of their keys. -/

namespace ProjectsCpp.SortedEntries

variable {K V : Type} [LinearOrder K] [BEq K] [LawfulBEq K] {entries l r : List (K × V)} {k : K}

/-- The keys increase. -/
def Sorted (entries : List (K × V)) : Prop := entries.Pairwise fun a b => a.1 < b.1

theorem lookup_filter (p : K → Bool) (entries : List (K × V)) (key : K) :
    (entries.filter fun e => p e.1).lookup key = if p key then entries.lookup key else none := by
  induction entries with
  | nil => simp
  | cons e entries ih =>
    obtain ⟨k, v⟩ := e
    by_cases here : key = k
    · subst here
      cases holds : p key <;> simp [holds, ih]
    · have other : (key == k) = false := beq_false_of_ne here
      cases holds : p k <;> simp [List.lookup_cons, holds, other, ih]

theorem lookup_below (above : ∀ e ∈ entries, k < e.1) : entries.lookup k = none := by
  rw [List.lookup_eq_none_iff]
  intro e member
  simp [(above e member).ne]

theorem lookup_first {key : K} {v : V} (less : k < key) (sorted : Sorted ((key, v) :: entries)) :
    ((key, v) :: entries).lookup k = none := by
  refine lookup_below fun e member => ?_
  rcases List.mem_cons.mp member with rfl | later
  · exact less
  · exact less.trans ((List.pairwise_cons.mp sorted).1 e later)

theorem lookup_of_mem {e : K × V} (sorted : Sorted entries) (member : e ∈ entries) :
    entries.lookup e.1 = some e.2 := by
  induction entries with
  | nil => cases member
  | cons f entries ih =>
    obtain ⟨k, v⟩ := f
    obtain ⟨first, sorted⟩ := List.pairwise_cons.mp sorted
    rcases List.mem_cons.mp member with rfl | later
    · simp
    · have other : (e.1 == k) = false := beq_false_of_ne (first e later).ne'
      simp [List.lookup_cons, other, ih sorted later]

theorem eq_of_lookup (left : Sorted l) (right : Sorted r)
    (same : ∀ key, l.lookup key = r.lookup key) : l = r := by
  induction l generalizing r with
  | nil =>
    cases r with
    | nil => rfl
    | cons e r =>
      obtain ⟨k, v⟩ := e
      simpa using same k
  | cons e l ih =>
    obtain ⟨k, v⟩ := e
    cases r with
    | nil => simpa using same k
    | cons f r =>
      obtain ⟨k', v'⟩ := f
      rcases lt_trichotomy k k' with less | rfl | more
      · simpa [lookup_first less right] using same k
      · have value : v = v' := by simpa using same k
        obtain ⟨first, left⟩ := List.pairwise_cons.mp left
        obtain ⟨first', right⟩ := List.pairwise_cons.mp right
        rw [value, ih left right]
        intro key
        by_cases here : key = k
        · rw [here, lookup_below first, lookup_below first']
        · have other : (key == k) = false := beq_false_of_ne here
          simpa [List.lookup_cons, other] using same key
      · simpa [lookup_first more left] using same k'

end ProjectsCpp.SortedEntries
