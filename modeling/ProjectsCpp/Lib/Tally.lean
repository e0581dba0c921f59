import Mathlib.Data.List.Dedup
import Mathlib.Data.List.Basic
import Mathlib.Data.List.Perm.Basic
import Mathlib.Algebra.BigOperators.Group.List.Lemmas
import Mathlib.Algebra.GroupWithZero.Nat

/-! Tallies: every element of a list with the number of its occurrences. -/

namespace ProjectsCpp.Tally

variable {α β : Type} [DecidableEq α] [DecidableEq β]

def tally (l : List α) : List (α × Nat) := l.dedup.map fun a => (a, l.count a)

theorem mem_tally {l : List α} {p : α × Nat} :
    p ∈ tally l ↔ p.1 ∈ l ∧ p.2 = l.count p.1 := by
  rw [tally, List.mem_map]
  constructor
  · rintro ⟨a, member, rfl⟩
    exact ⟨List.mem_dedup.mp member, rfl⟩
  · rintro ⟨member, count⟩
    exact ⟨p.1, List.mem_dedup.mpr member, by rw [← count]⟩

theorem nodup_tally (l : List α) : (tally l).Nodup :=
  l.nodup_dedup.map fun _ _ same => congrArg Prod.fst same

theorem tally_congr {l l' : List α} (perm : l.Perm l') : (tally l).Perm (tally l') := by
  rw [List.perm_ext_iff_of_nodup (nodup_tally l) (nodup_tally l')]
  intro p
  rw [mem_tally, mem_tally, perm.mem_iff, perm.count_eq]

/-- The tallies of the classes of `f` together are the tally of the whole. -/
theorem tally_classes (f : α → β) {classes : List β} (once : classes.Nodup) {l : List α}
    (all : ∀ a ∈ l, f a ∈ classes) :
    (classes.flatMap fun b => tally (l.filter fun a => f a = b)).Perm (tally l) := by
  have inClass {b : β} {p : α × Nat} (member : p ∈ tally (l.filter fun a => f a = b)) :
      p.1 ∈ l ∧ f p.1 = b := by
    simpa using (mem_tally.mp member).1
  have nodup : (classes.flatMap fun b => tally (l.filter fun a => f a = b)).Nodup := by
    refine List.nodup_flatMap.mpr ⟨fun b _ => nodup_tally _, once.imp fun {b c} apart => ?_⟩
    intro p left right
    exact apart ((inClass left).2.symm.trans (inClass right).2)
  rw [List.perm_ext_iff_of_nodup nodup (nodup_tally l)]
  intro p
  have count {b : β} (same : f p.1 = b) :
      (l.filter fun a => f a = b).count p.1 = l.count p.1 :=
    List.count_filter (by simpa using same)
  rw [List.mem_flatMap]
  constructor
  · rintro ⟨b, -, member⟩
    obtain ⟨inside, same⟩ := inClass member
    refine mem_tally.mpr ⟨inside, ?_⟩
    rw [(mem_tally.mp member).2, count same]
  · intro member
    obtain ⟨inside, number⟩ := mem_tally.mp member
    refine ⟨f p.1, all p.1 inside, mem_tally.mpr ⟨?_, ?_⟩⟩
    · simpa using inside
    · rw [number, count rfl]

theorem sum_tally (l : List α) : ((tally l).map Prod.snd).sum = l.length := by
  rw [tally, List.map_map]
  exact List.sum_map_count_dedup_eq_length l

theorem sum_classes (f : α → β) {classes : List β} (once : classes.Nodup) {l : List α}
    (all : ∀ a ∈ l, f a ∈ classes) :
    (classes.map fun b => (l.filter fun a => f a = b).length).sum = l.length := by
  have counts := ((tally_classes f once all).map Prod.snd).sum_nat
  rw [sum_tally, List.map_flatMap, List.flatMap, List.sum_flatten, List.map_map] at counts
  rw [← counts]
  congr 1
  exact List.map_congr_left fun b _ => (sum_tally _).symm

end ProjectsCpp.Tally
