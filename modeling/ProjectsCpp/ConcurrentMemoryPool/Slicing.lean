import ProjectsCpp.ConcurrentMemoryPool.Objects

/-! The loop of `GetOneSpan` that cuts a new span into objects. It links the object that reaches
the end of the span before it tests for the end, so a size that does not divide the span leaves a
last object that ends behind it. -/

namespace ProjectsCpp.ConcurrentMemoryPool
open ProjectsCpp.Ranges PageCache SizeClass

def Span.slices (span : Span) (byteSize : Nat) : List Nat :=
  let cur := span.pageid * pageSize
  let stop := cur + span.npage * pageSize
  Pool.slice byteSize stop (stop - cur) cur

theorem getOneSpan_slices {T : Type} {pool : Pool T} {size page a : Nat} {pages : PageCache}
    {span : Span} (none : Pool.firstFull pool.pages (pool.central (index size)) = some none)
    (new : pool.pages.newSpan (numMovePage size) page = some (pages, a))
    (there : pages.spans a = some span) :
    ∃ pool', pool.getOneSpan size page = some (pool', a) ∧
      pool'.pages.spans a = some { span with list := span.slices size, objsize := size } := by
  rw [Pool.getOneSpan, none, Option.bind_some]
  simp only [new, Option.bind_some, there, Option.map_some]
  exact ⟨_, rfl, Function.update_self ..⟩

def slots (bytes size : Nat) : Nat := (bytes + size - 1) / size

theorem slots_le {bytes size : Nat} (some : 0 < bytes) (less : bytes ≤ size) :
    slots bytes size = 1 :=
  Nat.div_eq_of_lt_le (by omega) (by omega)

theorem slots_add {bytes size : Nat} (positive : 0 < size) (some : 0 < bytes) :
    slots (bytes + size) size = slots bytes size + 1 := by
  rw [slots, slots, show bytes + size + size - 1 = bytes + size - 1 + size by omega]
  exact Nat.add_div_right _ positive

theorem slice_eq {size stop rounds cur : Nat} (positive : 0 < size) (less : cur < stop)
    (enough : stop - cur ≤ rounds) :
    Pool.slice size stop rounds cur =
      (List.range (slots (stop - cur) size)).map fun j => cur + j * size := by
  induction rounds generalizing cur with
  | zero => omega
  | succ rounds ih =>
    rw [Pool.slice]
    split
    · rename_i more
      have count : slots (stop - cur) size = slots (stop - (cur + size)) size + 1 := by
        rw [← slots_add positive (by omega)]
        congr 1
        omega
      rw [ih more (by omega), count, List.range_succ_eq_map, List.map_cons, List.map_map, Nat.zero_mul,
        Nat.add_zero]
      refine congrArg (cur :: ·) (List.map_congr_left fun j _ => ?_)
      show cur + size + j * size = cur + (j + 1) * size
      rw [Nat.succ_mul]
      omega
    · rw [slots_le (by omega) (by omega), List.range_one, List.map_singleton, Nat.zero_mul, Nat.add_zero]

/-- A span is cut as it should be. -/
structure Sliced (span : Span) (byteSize : Nat) (list : List Nat) : Prop where
  apart : list.Pairwise fun p q => (⟨p, byteSize⟩ : Range).Apart ⟨q, byteSize⟩
  inside : ∀ p ∈ list, (⟨p, byteSize⟩ : Range).Inside span.bytes
  count : list.length = span.npage * pageSize / byteSize

variable {span : Span} {size : Nat}

theorem slices_eq (positive : 0 < size) (room : size ≤ span.npage * pageSize) :
    span.slices size = (List.range (slots (span.npage * pageSize) size)).map
      fun j => span.pageid * pageSize + j * size := by
  rw [Span.slices, slice_eq positive (by omega) (Nat.le_refl _), Nat.add_sub_cancel_left]

theorem slots_of_dvd {bytes : Nat} (positive : 0 < size) (whole : size ∣ bytes) :
    slots bytes size = bytes / size := by
  obtain ⟨k, rfl⟩ := whole
  rw [slots, Nat.mul_div_cancel_left _ positive, Nat.add_sub_assoc positive,
    Nat.mul_add_div positive, Nat.div_eq_of_lt (Nat.sub_lt positive Nat.one_pos), Nat.add_zero]

theorem slots_of_not_dvd {bytes : Nat} (positive : 0 < size) (part : ¬ size ∣ bytes) :
    slots bytes size = bytes / size + 1 := by
  have remains : 0 < bytes % size := Nat.pos_of_ne_zero fun none => part (Nat.dvd_of_mod_eq_zero none)
  have split : bytes + size - 1 = size * (bytes / size) + (bytes % size + size - 1) := by
    have := Nat.div_add_mod bytes size
    omega
  have less := Nat.mod_lt bytes positive
  rw [slots, split, Nat.mul_add_div positive]
  congr 1
  exact Nat.div_eq_of_lt_le (by omega) (by omega)

theorem slices_apart (positive : 0 < size) (room : size ≤ span.npage * pageSize) :
    (span.slices size).Pairwise fun p q => (⟨p, size⟩ : Range).Apart ⟨q, size⟩ := by
  rw [slices_eq positive room, List.pairwise_map]
  refine List.pairwise_lt_range.imp fun {j k} less => .inl ?_
  have := Nat.mul_le_mul_right size (Nat.succ_le_of_lt less)
  rw [Nat.succ_mul] at this
  simp only
  omega

/-- A new span is cut as it should be exactly if the size of the objects divides its own. -/
theorem sliced_iff (positive : 0 < size) (room : size ≤ span.npage * pageSize) :
    Sliced span size (span.slices size) ↔ size ∣ span.npage * pageSize := by
  have length : (span.slices size).length = slots (span.npage * pageSize) size := by
    rw [slices_eq positive room, List.length_map, List.length_range]
  constructor
  · intro sliced
    by_contra part
    have count := sliced.count
    rw [length, slots_of_not_dvd positive part] at count
    omega
  · intro whole
    refine ⟨slices_apart positive room, fun p member => ?_, length.trans (slots_of_dvd positive whole)⟩
    rw [slices_eq positive room, slots_of_dvd positive whole] at member
    obtain ⟨j, less, rfl⟩ := List.mem_map.mp member
    have most := Nat.mul_le_mul_right size (Nat.succ_le_of_lt (List.mem_range.mp less))
    rw [Nat.succ_mul, Nat.div_mul_cancel whole] at most
    refine ⟨Nat.le_add_right _ _, ?_⟩
    show span.pageid * pageSize + j * size + size ≤ span.pageid * pageSize + span.npage * pageSize
    omega

theorem sliced_three : Sliced ⟨7, 3, [], 0, 0⟩ 4096 (Span.slices ⟨7, 3, [], 0, 0⟩ 4096) :=
  (sliced_iff (by decide) (by decide)).mpr (by decide)

theorem seventh_slice_outside : roundUp 8193 = 9216 ∧ numMovePage 9216 = 15 ∧
    ¬ Sliced ⟨1, 15, [], 0, 0⟩ 9216 (Span.slices ⟨1, 15, [], 0, 0⟩ 9216) := by
  refine ⟨by decide, by decide, fun sliced => ?_⟩
  have count := sliced.count
  rw [slices_eq (by decide) (by decide), List.length_map, List.length_range] at count
  exact absurd count (by decide)

end ProjectsCpp.ConcurrentMemoryPool
