import Mathlib.Data.List.Nodup
import Mathlib.Data.List.Perm.Basic
import Mathlib.Tactic.Common

/-! Exact covers: rows that have each item once among them. A row of the cover may be taken out, and
what is left covers the other items. -/

namespace ProjectsCpp.ExactCover

variable {α ι : Type} {row : ι → List α} {items : List α} {sel : List ι} {r : ι} {c : α}

def Exact (row : ι → List α) (items : List α) (sel : List ι) : Prop := (sel.flatMap row).Perm items

variable [DecidableEq α]

/-- The items of a row, and the others. -/
theorem perm_split {part : List α} (distinct : items.Nodup) (distinct' : part.Nodup)
    (subset : part ⊆ items) : items.Perm (part ++ items.filter (· ∉ part)) := by
  have inside : (items.filter (· ∈ part)).Perm part := by
    refine (List.perm_ext_iff_of_nodup (distinct.filter _) distinct').mpr fun x => ?_
    rw [List.mem_filter, decide_eq_true_iff]
    exact ⟨fun both => both.2, fun member => ⟨subset member, member⟩⟩
  have halves := (List.filter_append_perm (fun x => decide (x ∈ part)) items).symm
  refine halves.trans (inside.append (List.Perm.of_eq ?_))
  exact List.filter_congr fun x _ => (decide_not).symm

theorem Exact.cons (rest : Exact row (items.filter (· ∉ row r)) sel) (distinct : items.Nodup)
    (distinct' : (row r).Nodup) (subset : row r ⊆ items) : Exact row items (r :: sel) := by
  rw [Exact, List.flatMap_cons]
  exact (rest.append_left (row r)).trans (perm_split distinct distinct' subset).symm

theorem Exact.branch [DecidableEq ι] (exact : Exact row items sel) (distinct : items.Nodup)
    (member : c ∈ items) : ∃ r ∈ sel, c ∈ row r ∧ row r ⊆ items ∧
      Exact row (items.filter (· ∉ row r)) (sel.erase r) := by
  obtain ⟨r, chosen, here⟩ := List.mem_flatMap.mp (exact.mem_iff.mpr member)
  have first : (row r ++ (sel.erase r).flatMap row).Perm items := by
    rw [← List.flatMap_cons]
    exact ((List.perm_cons_erase chosen).symm.flatMap_right row).trans exact
  have subset : row r ⊆ items := fun x inside => first.subset (List.mem_append_left _ inside)
  have distinct' : (row r).Nodup := (List.nodup_append.mp (first.nodup_iff.mpr distinct)).1
  refine ⟨r, chosen, here, subset, ?_⟩
  exact (List.perm_append_left_iff (row r)).mp (first.trans (perm_split distinct distinct' subset))

end ProjectsCpp.ExactCover
