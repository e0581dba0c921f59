import ProjectsCpp.Lib.Balance
import Mathlib.Data.Finset.Max
import Mathlib.Algebra.BigOperators.Group.Finset.Basic
import Mathlib.Algebra.Order.BigOperators.Group.Finset

/-! Levelling moves no more items than it has to. A bin that has got an item is among the
emptiest ones and gives none away; so every bin either still has all it started with, or
has got nothing. -/

namespace ProjectsCpp.Balance

variable {κ ι : Type} [DecidableEq κ]

/-! ### The bins after one push and one pop -/

theorem mem_entries_pushBack {bins : Bins κ ι} {low bin : Bin κ ι} {item : ι}
    (fromLow : low ∈ bins.entries) (member : bin ∈ (pushBack low.1 item bins).entries) :
    bin = ⟨low.1, low.2 ++ [item]⟩ ∨ (bin ∈ bins.entries ∧ bin.1 ≠ low.1) := by
  rw [entry_iff, pushBack, entry_iff.mp fromLow, Option.getD_some] at member
  by_cases same : bin.1 = low.1
  · left
    rw [same, AList.lookup_insert, Option.some.injEq] at member
    exact Sigma.ext same (heq_of_eq member.symm)
  · right
    rw [AList.lookup_insert_ne same] at member
    exact ⟨entry_iff.mpr member, same⟩

theorem mem_entries_move {bins : Bins κ ι} {low high bin : Bin κ ι} {item : ι}
    (fromLow : low ∈ bins.entries) (fromHigh : high ∈ bins.entries) (apart : low.1 ≠ high.1)
    (member : bin ∈ (popBack high.1 (pushBack low.1 item bins)).entries) :
    bin = ⟨high.1, high.2.dropLast⟩ ∨ bin = ⟨low.1, low.2 ++ [item]⟩ ∨
      (bin ∈ bins.entries ∧ bin.1 ≠ low.1 ∧ bin.1 ≠ high.1) := by
  have present : (pushBack low.1 item bins).lookup high.1 = some high.2 := by
    rw [pushBack, AList.lookup_insert_ne apart.symm, entry_iff.mp fromHigh]
  rw [entry_iff, popBack, present, Option.getD_some] at member
  by_cases same : bin.1 = high.1
  · left
    rw [same, AList.lookup_insert, Option.some.injEq] at member
    exact Sigma.ext same (heq_of_eq member.symm)
  · rw [AList.lookup_insert_ne same, ← entry_iff] at member
    rcases mem_entries_pushBack fromLow member with new | ⟨old, other⟩
    · exact .inr (.inl new)
    · exact .inr (.inr ⟨old, other, same⟩)

/-! ### Bins that are being filled, and bins that are being levelled -/

variable {start : κ → List ι} {bins : Bins κ ι}

structure Filling (start : κ → List ι) (bins : Bins κ ι) : Prop where
  keeps : ∀ bin ∈ bins.entries, start bin.1 <+: bin.2
  gained : ∀ bin ∈ bins.entries, (start bin.1).length < bin.2.length → ∀ other ∈ bins.entries,
    bin.2.length ≤ other.2.length + 1

theorem Filling.push {low : Bin κ ι} (filling : Filling start bins) (item : ι)
    (fromLow : low ∈ bins.entries) (least : ∀ bin ∈ bins.entries, low.2.length ≤ bin.2.length) :
    Filling start (pushBack low.1 item bins) where
  keeps bin member := by
    rcases mem_entries_pushBack fromLow member with rfl | ⟨old, -⟩
    · exact (filling.keeps low fromLow).trans (List.prefix_append _ _)
    · exact filling.keeps bin old
  gained bin member more other member' := by
    have grown : (low.2 ++ [item]).length = low.2.length + 1 := List.length_append
    rcases mem_entries_pushBack fromLow member with rfl | ⟨old, -⟩
    · rcases mem_entries_pushBack fromLow member' with rfl | ⟨old', -⟩
      · exact Nat.le_succ _
      · have above := least other old'
        simp only [grown]
        omega
    · rcases mem_entries_pushBack fromLow member' with rfl | ⟨old', -⟩
      · have near := filling.gained bin old more low fromLow
        simp only [grown]
        omega
      · exact filling.gained bin old more other old'

/-- What levelling keeps: a bin has all it started with or got nothing; those that got some
are among the emptiest and those that lost some among the fullest, with none of the first
above one of the second. -/
structure Sparing (start : κ → List ι) (bins : Bins κ ι) : Prop where
  comparable : ∀ bin ∈ bins.entries, start bin.1 <+: bin.2 ∨ bin.2 <+: start bin.1
  gained : ∀ bin ∈ bins.entries, (start bin.1).length < bin.2.length → ∀ other ∈ bins.entries,
    bin.2.length ≤ other.2.length + 1
  lost : ∀ bin ∈ bins.entries, bin.2.length < (start bin.1).length → ∀ other ∈ bins.entries,
    other.2.length ≤ bin.2.length + 1
  crossed : ∀ bin ∈ bins.entries, bin.2.length < (start bin.1).length →
    ∀ other ∈ bins.entries, (start other.1).length < other.2.length →
      other.2.length ≤ bin.2.length

omit [DecidableEq κ] in
theorem Filling.sparing (filling : Filling start bins) : Sparing start bins where
  comparable bin member := .inl (filling.keeps bin member)
  gained := filling.gained
  lost bin member less := absurd (filling.keeps bin member).length_le (by omega)
  crossed bin member less := absurd (filling.keeps bin member).length_le (by omega)

omit [DecidableEq κ] in
theorem Sparing.high_le {low high : Bin κ ι} (sparing : Sparing start bins)
    (extremes : Extremes bins low high) (wide : low.2.length + 2 ≤ high.2.length) :
    high.2.length ≤ (start high.1).length := by
  by_contra more
  have near := sparing.gained high extremes.high_mem (by omega) low extremes.low_mem
  omega

omit [DecidableEq κ] in
theorem Sparing.le_low {low high : Bin κ ι} (sparing : Sparing start bins)
    (extremes : Extremes bins low high) (wide : low.2.length + 2 ≤ high.2.length) :
    (start low.1).length ≤ low.2.length := by
  by_contra less
  have near := sparing.lost low extremes.low_mem (by omega) high extremes.high_mem
  omega

private theorem sizes_move {low high bin : Bin κ ι} {item : ι} (extremes : Extremes bins low high)
    (apart : low.1 ≠ high.1) (wide : low.2.length + 2 ≤ high.2.length)
    (member : bin ∈ (popBack high.1 (pushBack low.1 item bins)).entries) :
    (bin.1 = high.1 ∧ bin.2 = high.2.dropLast ∧ bin.2.length + 1 = high.2.length) ∨
    (bin.1 = low.1 ∧ bin.2 = low.2 ++ [item] ∧ bin.2.length = low.2.length + 1) ∨
    (bin ∈ bins.entries ∧ low.2.length ≤ bin.2.length ∧ bin.2.length ≤ high.2.length) := by
  rcases mem_entries_move extremes.low_mem extremes.high_mem apart member with rfl | rfl | old
  · refine .inl ⟨rfl, rfl, ?_⟩
    rw [List.length_dropLast]
    omega
  · exact .inr (.inl ⟨rfl, rfl, List.length_append⟩)
  · exact .inr (.inr ⟨old.1, extremes.least bin old.1, extremes.most bin old.1⟩)

theorem Sparing.move {low high : Bin κ ι} (sparing : Sparing start bins) (item : ι)
    (extremes : Extremes bins low high) (apart : low.1 ≠ high.1)
    (wide : low.2.length + 2 ≤ high.2.length) :
    Sparing start (popBack high.1 (pushBack low.1 item bins)) := by
  have giver := sparing.high_le extremes wide
  have taker := sparing.le_low extremes wide
  refine ⟨fun bin member => ?_, fun bin member more other member' => ?_,
    fun bin member less other member' => ?_, fun bin member less other member' more => ?_⟩
  · rcases sizes_move extremes apart wide member with ⟨key, items, -⟩ | ⟨key, items, -⟩ | ⟨old, -⟩
    · rw [key, items]
      right
      rcases sparing.comparable high extremes.high_mem with all | part
      · rw [all.eq_of_length (le_antisymm all.length_le giver)]
        exact List.dropLast_prefix _
      · exact (List.dropLast_prefix _).trans part
    · rw [key, items]
      left
      rcases sparing.comparable low extremes.low_mem with all | part
      · exact all.trans (List.prefix_append _ _)
      · rw [part.eq_of_length (le_antisymm part.length_le taker)]
        exact List.prefix_append _ _
    · exact sparing.comparable bin old
  · rcases sizes_move extremes apart wide member with ⟨key, -, size⟩ | ⟨key, -, size⟩ | ⟨old, -⟩
    · rw [key] at more
      omega
    · rcases sizes_move extremes apart wide member' with ⟨-, -, size'⟩ | ⟨-, -, size'⟩ | ⟨-, le, -⟩
        <;> omega
    · have near := sparing.gained bin old more
      rcases sizes_move extremes apart wide member' with ⟨-, -, size'⟩ | ⟨-, -, size'⟩ | ⟨old', -⟩
      · have low' := near low extremes.low_mem
        omega
      · have low' := near low extremes.low_mem
        omega
      · exact near other old'
  · rcases sizes_move extremes apart wide member with ⟨key, -, size⟩ | ⟨key, -, size⟩ | ⟨old, -⟩
    · rcases sizes_move extremes apart wide member' with ⟨-, -, size'⟩ | ⟨-, -, size'⟩ | ⟨-, -, le⟩
        <;> omega
    · rw [key] at less
      omega
    · have near := sparing.lost bin old less
      rcases sizes_move extremes apart wide member' with ⟨-, -, size'⟩ | ⟨-, -, size'⟩ | ⟨old', -⟩
      · have high' := near high extremes.high_mem
        omega
      · have high' := near high extremes.high_mem
        omega
      · exact near other old'
  · rcases sizes_move extremes apart wide member with ⟨key, -, size⟩ | ⟨key, -, size⟩ | ⟨old, -⟩
    · rcases sizes_move extremes apart wide member' with ⟨key', -, size'⟩ | ⟨-, -, size'⟩ | ⟨old', -⟩
      · rw [key'] at more
        omega
      · omega
      · have near := sparing.gained other old' more low extremes.low_mem
        omega
    · rw [key] at less
      omega
    · have near := sparing.lost bin old less high extremes.high_mem
      rcases sizes_move extremes apart wide member' with ⟨key', -, size'⟩ | ⟨-, -, size'⟩ | ⟨old', -⟩
      · rw [key'] at more
        omega
      · omega
      · exact sparing.crossed bin old less other old' more

/-! ### No other even way to place the items takes fewer moves -/

section Sums

variable {s : Finset κ} {a b c : κ → Nat}

omit [DecidableEq κ] in
private theorem same_band {q : Nat} (least : ∃ g ∈ s, b g = q)
    (nearB : ∀ g ∈ s, q ≤ b g ∧ b g ≤ q + 1) (nearC : ∀ g ∈ s, ∀ h ∈ s, c g ≤ c h + 1)
    (same : ∑ g ∈ s, b g = ∑ g ∈ s, c g) : ∀ g ∈ s, q ≤ c g ∧ c g ≤ q + 1 := by
  obtain ⟨low, inside, lowEq⟩ := least
  intro g member
  constructor
  · by_contra under
    have less : ∑ h ∈ s, c h < ∑ h ∈ s, b h := by
      refine Finset.sum_lt_sum (fun h other => ?_) ⟨g, member, ?_⟩
      · have near := nearC h other g member
        have above := (nearB h other).1
        omega
      · have above := (nearB g member).1
        omega
    omega
  · by_contra beyond
    have more : ∑ h ∈ s, b h < ∑ h ∈ s, c h := by
      refine Finset.sum_lt_sum (fun h other => ?_) ⟨low, inside, ?_⟩
      · have near := nearC g member h other
        have below := (nearB h other).2
        omega
      · have near := nearC g member low inside
        omega
    omega

omit [DecidableEq κ] in
theorem sum_sub_le (nearB : ∀ g ∈ s, ∀ h ∈ s, b g ≤ b h + 1)
    (nearC : ∀ g ∈ s, ∀ h ∈ s, c g ≤ c h + 1) (same : ∑ g ∈ s, b g = ∑ g ∈ s, c g)
    (crossed : ∀ g ∈ s, b g < a g → ∀ h ∈ s, a h < b h → b h ≤ b g) :
    ∑ g ∈ s, (a g - b g) ≤ ∑ g ∈ s, (a g - c g) := by
  rcases s.eq_empty_or_nonempty with rfl | some_
  · simp
  obtain ⟨low, inside, least⟩ := s.exists_min_image b some_
  have bandB : ∀ g ∈ s, b low ≤ b g ∧ b g ≤ b low + 1 := fun g member =>
    ⟨least g member, nearB g member low inside⟩
  have bandC := same_band ⟨low, inside, rfl⟩ bandB nearC same
  by_cases down : ∃ g ∈ s, b g < a g ∧ b g = b low
  · -- a bin went down to the least size, so none of the larger ones has grown
    obtain ⟨g, member, shrank, atLeast⟩ := down
    have keeps : ∀ h ∈ s, a h - b h + (b h - b low) = a h - b low := fun h other => by
      have band := bandB h other
      by_cases grew : a h < b h
      · have le := crossed g member shrank h other grew
        omega
      · omega
    have covers : ∀ h ∈ s, a h - b low ≤ a h - c h + (c h - b low) := fun h _ => by omega
    have excess : ∑ h ∈ s, (b h - b low) = ∑ h ∈ s, (c h - b low) := by
      have splitB : ∑ h ∈ s, b h = ∑ h ∈ s, (b h - b low) + ∑ _h ∈ s, b low := by
        rw [← Finset.sum_add_distrib]
        exact Finset.sum_congr rfl fun h other => by have band := bandB h other; omega
      have splitC : ∑ h ∈ s, c h = ∑ h ∈ s, (c h - b low) + ∑ _h ∈ s, b low := by
        rw [← Finset.sum_add_distrib]
        exact Finset.sum_congr rfl fun h other => by have band := bandC h other; omega
      omega
    have whole := Finset.sum_congr rfl keeps
    have part := Finset.sum_le_sum covers
    rw [Finset.sum_add_distrib] at whole part
    omega
  · -- every bin that shrank has the greatest size
    refine Finset.sum_le_sum fun g member => ?_
    have band := bandB g member
    have bandC' := bandC g member
    by_cases shrank : b g < a g
    · have above : b g ≠ b low := fun atLeast => down ⟨g, member, shrank, atLeast⟩
      omega
    · omega

end Sums

end ProjectsCpp.Balance
