import ProjectsCpp.ConcurrentMemoryPool.Pool
import ProjectsCpp.ConcurrentMemoryPool.PageSpans
import Mathlib.Tactic.SplitIfs
import Mathlib.Data.List.Count
import Mathlib.Data.List.Perm.Subperm

/-! The objects that spans are cut into: size classes, the cut itself, and who has which object. -/

namespace ProjectsCpp.ConcurrentMemoryPool
open ProjectsCpp.Ranges PageCache

namespace SizeClass
variable {a b size : Nat}

theorem roundup_eq {align : Nat} (few : align ≤ 12) (small : size ≤ maxBytes) :
    roundup size align = (size + 2 ^ align - 1) / 2 ^ align * 2 ^ align := by
  have : 2 ^ align ≤ 2 ^ 12 := Nat.pow_le_pow_right (by decide) few
  rw [roundup, Nat.mod_eq_of_lt]
  unfold maxBytes at small
  omega

theorem roundUp_cases (small : size ≤ maxBytes) : roundUp size =
    if size ≤ 128 then (size + 7) / 8 * 8 else if size ≤ 1024 then (size + 15) / 16 * 16
    else if size ≤ 8192 then (size + 127) / 128 * 128 else (size + 1023) / 1024 * 1024 := by
  rw [roundUp, roundup_eq (by decide) small, roundup_eq (by decide) small,
    roundup_eq (by decide) small, roundup_eq (by decide) small]
  rfl

theorem index_cases : index size =
    if size ≤ 128 then (size + 7) / 8 - 1 else if size ≤ 1024 then (size - 128 + 15) / 16 - 1 + 16
    else if size ≤ 8192 then (size - 1024 + 127) / 128 - 1 + 72
    else (size - 8192 + 1023) / 1024 - 1 + 128 := by
  unfold index index'
  split_ifs <;> omega

theorem le_roundUp (small : size ≤ maxBytes) : size ≤ roundUp size := by
  rw [roundUp_cases small]
  split_ifs <;> omega

theorem roundUp_le (small : size ≤ maxBytes) : roundUp size ≤ maxBytes := by
  rw [roundUp_cases small]
  unfold maxBytes at *
  split_ifs <;> omega

theorem index_roundUp (positive : 0 < size) (small : size ≤ maxBytes) :
    index (roundUp size) = index size := by
  rw [roundUp_cases small, index_cases, index_cases]
  by_cases first : size ≤ 128
  · rw [if_pos first, if_pos first, if_pos (by omega)]
    omega
  rw [if_neg first, if_neg first]
  by_cases second : size ≤ 1024
  · rw [if_pos second, if_pos second, if_neg (by omega), if_pos (by omega)]
    omega
  rw [if_neg second, if_neg second]
  by_cases third : size ≤ 8192
  · rw [if_pos third, if_pos third, if_neg (by omega), if_neg (by omega), if_pos (by omega)]
    omega
  · rw [if_neg third, if_neg third, if_neg (by omega), if_neg (by omega), if_neg (by omega)]
    omega

def classSize (index : Nat) : Nat :=
  if index < 16 then (index + 1) * 8 else if index < 72 then (index - 15) * 16 + 128
  else if index < 128 then (index - 71) * 128 + 1024 else (index - 127) * 1024 + 8192

theorem roundUp_eq (positive : 0 < size) (small : size ≤ maxBytes) :
    roundUp size = classSize (index size) := by
  rw [roundUp_cases small, index_cases, classSize]
  by_cases first : size ≤ 128
  · rw [if_pos first, if_pos first, if_pos (by omega)]
    omega
  rw [if_neg first, if_neg first]
  by_cases second : size ≤ 1024
  · rw [if_pos second, if_pos second, if_neg (by omega), if_pos (by omega)]
    omega
  rw [if_neg second, if_neg second]
  by_cases third : size ≤ 8192
  · rw [if_pos third, if_pos third, if_neg (by omega), if_neg (by omega), if_pos (by omega)]
    omega
  · rw [if_neg third, if_neg third, if_neg (by omega), if_neg (by omega), if_neg (by omega)]
    omega

theorem roundUp_of_index (left : 0 < a) (right : 0 < b) (smallA : a ≤ maxBytes)
    (smallB : b ≤ maxBytes) (same : index a = index b) : roundUp a = roundUp b := by
  rw [roundUp_eq left smallA, roundUp_eq right smallB, same]

theorem roundUp_roundUp (small : size ≤ maxBytes) : roundUp (roundUp size) = roundUp size := by
  rcases Nat.eq_zero_or_pos size with rfl | positive
  · rfl
  · have rounded : 0 < roundUp size := positive.trans_le (le_roundUp small)
    exact roundUp_of_index rounded positive (roundUp_le small) small (index_roundUp positive small)

theorem le_numMovePage (size : Nat) : size ≤ numMovePage size * pageSize := by
  by_cases few : size ≤ pageSize
  · exact few.trans (Nat.le_mul_of_pos_left _ (Nat.le_max_right _ _))
  · have two : 2 ≤ numMoveSize size := by
      rw [numMoveSize, if_neg (by unfold pageSize at few; omega)]
      exact Nat.le_min.mpr ⟨Nat.le_max_right _ _, by decide⟩
    have more := Nat.mul_le_mul_right size two
    refine Nat.le_trans ?_ (Nat.mul_le_mul_right _ (Nat.le_max_left _ _))
    unfold pageSize at *
    omega

theorem numMovePage_lt (small : size ≤ maxBytes) : numMovePage size < npages := by
  have limit : numMoveSize size * size ≤ 2 * maxBytes := by
    rw [numMoveSize]
    split_ifs with none
    · simp
    · have first : maxBytes / size * size ≤ maxBytes := Nat.div_mul_le_self _ _
      have second := Nat.mul_le_mul_right size (Nat.min_le_left (max (maxBytes / size) 2) 512)
      rcases Nat.le_total (maxBytes / size) 2 with less | more
      · rw [Nat.max_eq_right less] at second ⊢
        omega
      · rw [Nat.max_eq_left more] at second ⊢
        omega
  refine Nat.max_lt.mpr ⟨?_, by decide⟩
  unfold pageSize npages maxBytes at *
  omega
end SizeClass

/-! ### The cut of a span -/

/-- A place where an object of the span begins; the last object may end behind the span. -/
def Span.Grid (span : Span) (q : Nat) : Prop :=
  (∃ j, q = span.bytes.start + j * span.objsize) ∧ q < span.bytes.start + span.bytes.size

section
variable {size stop rounds cur q : Nat}

theorem mem_slice (positive : 0 < size) (enough : stop - cur ≤ rounds) :
    q ∈ Pool.slice size stop rounds cur ↔
      (∃ j, q = cur + j * size) ∧ (q = cur ∨ q < stop) := by
  induction rounds generalizing cur with
  | zero =>
    rw [Pool.slice, List.mem_singleton]
    constructor
    · rintro rfl
      exact ⟨⟨0, by omega⟩, .inl rfl⟩
    · rintro ⟨⟨j, rfl⟩, same | less⟩
      · exact same
      · omega
  | succ rounds ih =>
    rw [Pool.slice, List.mem_cons]
    split
    · rw [ih (by omega)]
      constructor
      · rintro (rfl | ⟨⟨j, rfl⟩, last⟩)
        · exact ⟨⟨0, by omega⟩, .inl rfl⟩
        · refine ⟨⟨j + 1, by rw [Nat.succ_mul]; omega⟩, .inr ?_⟩
          rcases last with same | less <;> omega
      · rintro ⟨⟨j, rfl⟩, last⟩
        cases j with
        | zero => exact .inl (by omega)
        | succ j =>
          rw [Nat.succ_mul] at last ⊢
          refine .inr ⟨⟨j, by omega⟩, ?_⟩
          rcases last with same | less
          · omega
          · exact .inr less
    · constructor
      · rintro (rfl | none)
        · exact ⟨⟨0, by omega⟩, .inl rfl⟩
        · exact nomatch none
      · rintro ⟨⟨j, rfl⟩, last⟩
        cases j with
        | zero => exact .inl (by omega)
        | succ j =>
          rw [Nat.succ_mul] at last ⊢
          rcases last with same | less
          · exact .inl same
          · omega

theorem slice_nodup (positive : 0 < size) (enough : stop - cur ≤ rounds) :
    (Pool.slice size stop rounds cur).Nodup := by
  induction rounds generalizing cur with
  | zero => exact List.nodup_singleton _
  | succ rounds ih =>
    rw [Pool.slice]
    split
    · refine List.nodup_cons.mpr ⟨fun inside => ?_, ih (by omega)⟩
      obtain ⟨⟨j, same⟩, -⟩ := (mem_slice positive (by omega)).mp inside
      omega
    · exact List.nodup_singleton _

end

variable {span other : Span} {q p : Nat}

theorem Span.bytes_congr (same : span.pages = other.pages) : span.bytes = other.bytes := by
  obtain ⟨start, size⟩ := Range.mk.inj same
  rw [bytes, bytes, start, size]

theorem Span.Grid.page (grid : span.Grid q) : span.pages.Has (q / pageSize) := by
  obtain ⟨⟨j, rfl⟩, less⟩ := grid
  simp only [Span.bytes, Span.pages, Range.Has] at less ⊢
  unfold pageSize at *
  omega

/-- A whole number of objects before one that fits leaves room for it. -/
theorem Span.Grid.ends (grid : span.Grid q) {size : Nat} (some : 0 < span.objsize)
    (class' : span.objsize = SizeClass.roundUp size)
    (pages : span.npage = SizeClass.numMovePage span.objsize) (small : size ≤ span.objsize)
    (fits : SizeClass.LastFits size) : q + size ≤ span.bytes.start + span.bytes.size := by
  obtain ⟨⟨j, rfl⟩, less⟩ := grid
  rw [SizeClass.LastFits, ← class', ← pages] at fits
  have bytes : span.bytes.size = span.npage * pageSize := rfl
  have before : j * span.objsize < span.npage * pageSize := by omega
  rcases fits with ⟨count, whole⟩ | fits
  · have fewer : j < count := Nat.lt_of_mul_lt_mul_left (a := span.objsize) (by
      rw [Nat.mul_comm span.objsize j, ← whole]
      exact before)
    have most := Nat.mul_le_mul_right span.objsize (Nat.succ_le_of_lt fewer)
    rw [Nat.succ_mul, Nat.mul_comm count, ← whole] at most
    omega
  · have turns : j ≤ span.npage * pageSize / span.objsize :=
      (Nat.le_div_iff_mul_le some).mpr before.le
    have most := Nat.mul_le_mul_right span.objsize turns
    have split := Nat.div_add_mod (span.npage * pageSize) span.objsize
    rw [Nat.mul_comm] at split
    omega

theorem Span.Grid.apart (left : span.Grid p) (right : span.Grid q) (unlike : p ≠ q) :
    p + span.objsize ≤ q ∨ q + span.objsize ≤ p := by
  obtain ⟨⟨j, rfl⟩, -⟩ := left
  obtain ⟨⟨k, rfl⟩, -⟩ := right
  rcases Nat.lt_trichotomy j k with less | same | more
  · have := Nat.mul_le_mul_right span.objsize (Nat.succ_le_of_lt less)
    rw [Nat.succ_mul] at this
    exact .inl (by omega)
  · exact absurd (by rw [same]) unlike
  · have := Nat.mul_le_mul_right span.objsize (Nat.succ_le_of_lt more)
    rw [Nat.succ_mul] at this
    exact .inr (by omega)

/-! ### The spans of the central cache -/

/-- The span with its first `n` objects lent. -/
abbrev Span.lend (span : Span) (n : Nat) : Span :=
  { span with list := span.list.drop n, usecount := span.usecount + (span.list.take n).length }

/-- The span with the object `q` given back. -/
abbrev Span.back (span : Span) (q : Nat) : Span :=
  { span with list := q :: span.list, usecount := span.usecount - 1 }

/-- The spans that are cut into objects, the lists of the central cache, and the objects that are
out. -/
structure Objects (busy : Nat → Span → Prop) (central : Nat → List Nat) (out : List Nat) : Prop where
  unique : ∀ a span other, busy a span → busy a other → span = other
  apart : ∀ a b span other p, busy a span → busy b other → span.pages.Has p → other.pages.Has p →
    a = b
  shelf : ∀ i a, a ∈ central i ↔ ∃ span, busy a span ∧ SizeClass.index span.objsize = i
  once : ∀ i, (central i).Nodup
  sized : ∀ a span, busy a span → 0 < span.objsize ∧ span.objsize ≤ maxBytes ∧
    SizeClass.roundUp span.objsize = span.objsize ∧
      span.npage = SizeClass.numMovePage span.objsize
  few : ∀ a span, busy a span → span.npage < npages
  cut : ∀ a span, busy a span → span.list.Nodup ∧ ∀ q ∈ span.list, span.Grid q
  lent : ∀ q ∈ out, ∃ a span, busy a span ∧ span.Grid q ∧ q ∉ span.list
  outOnce : out.Nodup
  count : ∀ a span, busy a span → span.usecount = out.countP fun q => span.pages.Has (q / pageSize)

namespace Objects
variable {busy busy' : Nat → Span → Prop} {central central' : Nat → List Nat} {out : List Nat}
  {a n : Nat} {span : Span} {q : Nat}

theorem congr (objects : Objects busy central out) (same : ∀ a span, busy' a span ↔ busy a span) :
    Objects busy' central out := by
  obtain rfl : busy' = busy := funext fun a => funext fun span => propext (same a span)
  exact objects

theorem grid (objects : Objects busy central out) (inside : q ∈ out) (there : busy a span)
    (has : span.pages.Has (q / pageSize)) : span.Grid q ∧ q ∉ span.list := by
  obtain ⟨b, other, its, grid, unlisted⟩ := objects.lent q inside
  obtain rfl := objects.apart a b span other _ there its has grid.page
  obtain rfl := objects.unique a span other there its
  exact ⟨grid, unlisted⟩

theorem usecount_le (objects : Objects busy central out) (there : busy a span) :
    span.usecount ≤ span.bytes.size := by
  rw [objects.count a span there, List.countP_eq_length_filter]
  have within : out.filter (fun q => span.pages.Has (q / pageSize)) ⊆
      List.range' span.bytes.start span.bytes.size := by
    intro q inside
    obtain ⟨mine, has⟩ := List.mem_filter.mp inside
    obtain ⟨⟨⟨j, same⟩, less⟩, -⟩ := objects.grid mine there (of_decide_eq_true has)
    exact List.mem_range'_1.mpr ⟨same ▸ Nat.le_add_right _ _, less⟩
  have := (List.Nodup.subperm (objects.outOnce.filter _) within).length_le
  rwa [List.length_range'] at this

theorem usecount_lt (objects : Objects busy central out) (there : busy a span) :
    span.usecount < 2 ^ 64 := by
  have limit : span.usecount ≤ span.npage * pageSize := objects.usecount_le there
  have few := objects.few a span there
  unfold npages at few
  unfold pageSize at limit
  omega

theorem open' (objects : Objects busy central out) (new : ∀ other, ¬ busy a other)
    (apart : ∀ b other p, busy b other → span.pages.Has p → ¬ other.pages.Has p)
    (sized : 0 < span.objsize ∧ span.objsize ≤ maxBytes ∧
      SizeClass.roundUp span.objsize = span.objsize ∧
        span.npage = SizeClass.numMovePage span.objsize) (few : span.npage < npages)
    (cut : span.list.Nodup ∧ ∀ q ∈ span.list, span.Grid q) (unused : span.usecount = 0)
    (after : ∀ b other, busy' b other ↔ b = a ∧ other = span ∨ busy b other) :
    Objects busy' (Function.update central (SizeClass.index span.objsize)
      (a :: central (SizeClass.index span.objsize))) out where
  unique := by
    intro b first second left right
    rcases (after b first).mp left with ⟨rfl, rfl⟩ | left
    · rcases (after b second).mp right with ⟨-, rfl⟩ | right
      · rfl
      · exact absurd right (new second)
    · rcases (after b second).mp right with ⟨rfl, rfl⟩ | right
      · exact absurd left (new first)
      · exact objects.unique b first second left right
  apart := by
    intro b c first second p left right has has'
    rcases (after b first).mp left with ⟨rfl, rfl⟩ | left
    · rcases (after c second).mp right with ⟨rfl, rfl⟩ | right
      · rfl
      · exact absurd has' (apart c second p right has)
    · rcases (after c second).mp right with ⟨rfl, rfl⟩ | right
      · exact absurd has (apart b first p left has')
      · exact objects.apart b c first second p left right has has'
  shelf := by
    intro i b
    have before := objects.shelf i b
    simp only [after, Function.update_apply]
    by_cases mine : i = SizeClass.index span.objsize
    · subst mine
      rw [if_pos rfl, List.mem_cons, before]
      constructor
      · rintro (rfl | ⟨other, its, same⟩)
        · exact ⟨span, .inl ⟨rfl, rfl⟩, rfl⟩
        · exact ⟨other, .inr its, same⟩
      · rintro ⟨other, ⟨rfl, rfl⟩ | its, same⟩
        · exact .inl rfl
        · exact .inr ⟨other, its, same⟩
    · rw [if_neg mine, before]
      constructor
      · rintro ⟨other, its, same⟩
        exact ⟨other, .inr its, same⟩
      · rintro ⟨other, ⟨rfl, rfl⟩ | its, same⟩
        · exact absurd same.symm mine
        · exact ⟨other, its, same⟩
  once := by
    intro i
    rw [Function.update_apply]
    split
    · refine List.nodup_cons.mpr ⟨fun inside => ?_, objects.once _⟩
      obtain ⟨other, its, -⟩ := (objects.shelf _ a).mp inside
      exact new other its
    · exact objects.once i
  sized := by
    intro b other its
    rcases (after b other).mp its with ⟨-, rfl⟩ | its
    · exact sized
    · exact objects.sized b other its
  few := by
    intro b other its
    rcases (after b other).mp its with ⟨-, rfl⟩ | its
    · exact few
    · exact objects.few b other its
  cut := by
    intro b other its
    rcases (after b other).mp its with ⟨-, rfl⟩ | its
    · exact cut
    · exact objects.cut b other its
  lent := by
    intro q inside
    obtain ⟨b, other, its, rest⟩ := objects.lent q inside
    exact ⟨b, other, (after b other).mpr (.inr its), rest⟩
  outOnce := objects.outOnce
  count := by
    intro b other its
    rcases (after b other).mp its with ⟨-, rfl⟩ | its
    · rw [unused, eq_comm, List.countP_eq_zero]
      intro q inside has
      obtain ⟨c, third, there, grid, -⟩ := objects.lent q inside
      exact apart c third _ there (of_decide_eq_true has) grid.page
    · exact objects.count b other its

theorem swap {s : Span} {out' : List Nat} (objects : Objects busy central out)
    (there : busy a span) (pages : s.pages = span.pages) (size : s.objsize = span.objsize)
    (shelves : ∀ i, (central' i).Perm (central i))
    (cut : s.list.Nodup ∧ ∀ q ∈ s.list, s.Grid q)
    (lent : ∀ q ∈ out', (q ∈ out ∧ ¬ span.pages.Has (q / pageSize)) ∨
      (s.Grid q ∧ q ∉ s.list)) (once : out'.Nodup)
    (count : s.usecount = out'.countP fun q => span.pages.Has (q / pageSize))
    (others : ∀ b other, busy b other → b ≠ a →
      out'.countP (fun q => other.pages.Has (q / pageSize)) =
        out.countP fun q => other.pages.Has (q / pageSize))
    (after : ∀ b other, busy' b other ↔ b = a ∧ other = s ∨ b ≠ a ∧ busy b other) :
    Objects busy' central' out' where
  unique := by
    intro b first second left right
    have same := objects.unique b first second
    have := after b first
    have := after b second
    grind
  apart := by
    intro b c first second p left right has has'
    rcases (after b first).mp left with ⟨rfl, rfl⟩ | ⟨-, left⟩
    · rcases (after c second).mp right with ⟨rfl, rfl⟩ | ⟨-, right⟩
      · rfl
      · exact objects.apart b c span second p there right (pages ▸ has) has'
    · rcases (after c second).mp right with ⟨rfl, rfl⟩ | ⟨-, right⟩
      · exact objects.apart b c first span p left there has (pages ▸ has')
      · exact objects.apart b c first second p left right has has'
  shelf := by
    intro i b
    rw [(shelves i).mem_iff, objects.shelf i b]
    constructor
    · rintro ⟨other, its, same⟩
      by_cases mine : b = a
      · subst mine
        obtain rfl := objects.unique b span other there its
        exact ⟨s, (after b s).mpr (.inl ⟨rfl, rfl⟩), size ▸ same⟩
      · exact ⟨other, (after b other).mpr (.inr ⟨mine, its⟩), same⟩
    · rintro ⟨other, its, same⟩
      rcases (after b other).mp its with ⟨rfl, rfl⟩ | ⟨-, its⟩
      · exact ⟨span, there, size ▸ same⟩
      · exact ⟨other, its, same⟩
  once := fun i => (shelves i).nodup_iff.mpr (objects.once i)
  sized := by
    intro b other its
    rcases (after b other).mp its with ⟨-, rfl⟩ | ⟨-, its⟩
    · rw [size, show other.npage = span.npage from congrArg Range.size pages]
      exact objects.sized a span there
    · exact objects.sized b other its
  few := by
    intro b other its
    rcases (after b other).mp its with ⟨-, rfl⟩ | ⟨-, its⟩
    · rw [show other.npage = span.npage from congrArg Range.size pages]
      exact objects.few a span there
    · exact objects.few b other its
  cut := by
    intro b other its
    rcases (after b other).mp its with ⟨-, rfl⟩ | ⟨-, its⟩
    · exact cut
    · exact objects.cut b other its
  lent := by
    intro q inside
    rcases lent q inside with ⟨before, apart⟩ | here
    · obtain ⟨b, other, its, grid, unlisted⟩ := objects.lent q before
      refine ⟨b, other, (after b other).mpr (.inr ⟨?_, its⟩), grid, unlisted⟩
      rintro rfl
      obtain rfl := objects.unique b span other there its
      exact apart grid.page
    · exact ⟨a, s, (after a s).mpr (.inl ⟨rfl, rfl⟩), here⟩
  outOnce := once
  count := by
    intro b other its
    rcases (after b other).mp its with ⟨-, rfl⟩ | ⟨unlike, its⟩
    · rw [pages]
      exact count
    · rw [others b other its unlike]
      exact objects.count b other its

theorem lend (objects : Objects busy central out) (there : busy a span)
    (shelves : ∀ i, (central' i).Perm (central i))
    (after : ∀ b other, busy' b other ↔ b = a ∧ other = span.lend n ∨ b ≠ a ∧ busy b other) :
    Objects busy' central' (span.list.take n ++ out) := by
  obtain ⟨once, inside⟩ := objects.cut a span there
  have first : ∀ q ∈ span.list.take n, span.Grid q := fun q taken =>
    inside q (List.mem_of_mem_take taken)
  have halves : (span.list.take n ++ span.list.drop n).Nodup := (List.take_append_drop n _).symm ▸ once
  obtain ⟨onceTaken, onceLeft, unlike⟩ := List.nodup_append.mp halves
  have held : ∀ q ∈ span.list, q ∉ out := fun q listed lent =>
    (objects.grid lent there (inside q listed).page).2 listed
  refine objects.swap (s := span.lend n) there rfl rfl shelves
    ⟨onceLeft, fun q left => inside q (List.mem_of_mem_drop left)⟩ ?_ ?_ ?_ ?_ after
  · intro q mine
    rcases List.mem_append.mp mine with taken | before
    · exact .inr ⟨first q taken, fun left => unlike q taken q left rfl⟩
    · by_cases has : span.pages.Has (q / pageSize)
      · obtain ⟨grid, unlisted⟩ := objects.grid before there has
        exact .inr ⟨grid, fun left => unlisted (List.mem_of_mem_drop left)⟩
      · exact .inl ⟨before, has⟩
  · refine List.nodup_append.mpr ⟨onceTaken, objects.outOnce, ?_⟩
    rintro q taken _ before rfl
    exact held q (List.mem_of_mem_take taken) before
  · rw [List.countP_append, List.countP_eq_length.mpr fun q taken => ?_, ← objects.count a span there,
      Nat.add_comm]
    exact decide_eq_true (first q taken).page
  · intro b other its apart
    rw [List.countP_append, List.countP_eq_zero.mpr fun q taken has => ?_, Nat.zero_add]
    exact apart (objects.apart b a other span _ its there (of_decide_eq_true has) (first q taken).page)

theorem back (objects : Objects busy central out) (there : busy a span) (inside : q ∈ out)
    (has : span.pages.Has (q / pageSize))
    (after : ∀ b other, busy' b other ↔ b = a ∧ other = span.back q ∨ b ≠ a ∧ busy b other) :
    Objects busy' central (out.erase q) := by
  obtain ⟨grid, unlisted⟩ := objects.grid inside there has
  obtain ⟨once, cut⟩ := objects.cut a span there
  refine objects.swap (s := span.back q) there rfl rfl (fun _ => .refl _)
    ⟨List.nodup_cons.mpr ⟨unlisted, once⟩, ?_⟩ ?_ (objects.outOnce.erase q) ?_ ?_ after
  · rintro p listed
    rcases List.mem_cons.mp listed with rfl | before
    · exact grid
    · exact cut p before
  · intro p kept
    obtain ⟨unlike, before⟩ := objects.outOnce.mem_erase_iff.mp kept
    by_cases mine : span.pages.Has (p / pageSize)
    · obtain ⟨its, apart⟩ := objects.grid before there mine
      exact .inr ⟨its, List.not_mem_cons_of_ne_of_not_mem unlike apart⟩
    · exact .inl ⟨before, mine⟩
  · rw [List.countP_erase, if_pos ⟨inside, decide_eq_true has⟩, ← objects.count a span there]
  · intro b other its apart
    have elsewhere : ¬ other.pages.Has (q / pageSize) := fun has' =>
      apart (objects.apart b a other span _ its there has' has)
    rw [List.countP_erase, if_neg fun both => elsewhere (of_decide_eq_true both.2), Nat.sub_zero]

theorem close {s : Span} (objects : Objects busy central out) (there : busy a s) (unused : s.usecount = 0)
    (after : ∀ b other, busy' b other ↔ b ≠ a ∧ busy b other) :
    Objects busy' (Function.update central (SizeClass.index s.objsize)
      ((central (SizeClass.index s.objsize)).erase a)) out where
  unique := fun b first second left right =>
    objects.unique b first second ((after b first).mp left).2 ((after b second).mp right).2
  apart := fun b c first second p left right =>
    objects.apart b c first second p ((after b first).mp left).2 ((after c second).mp right).2
  shelf := by
    intro i b
    have before := objects.shelf i b
    have same : ∀ other, busy a other → s = other := fun other its =>
      objects.unique a s other there its
    simp only [after, Function.update_apply]
    split
    · rename_i mine
      subst mine
      rw [(objects.once _).mem_erase_iff, before]
      grind
    · rw [before]
      grind
  once := by
    intro i
    rw [Function.update_apply]
    split
    · exact (objects.once _).erase a
    · exact objects.once i
  sized := fun b other its => objects.sized b other ((after b other).mp its).2
  few := fun b other its => objects.few b other ((after b other).mp its).2
  cut := fun b other its => objects.cut b other ((after b other).mp its).2
  lent := by
    intro q inside
    obtain ⟨b, other, its, grid, unlisted⟩ := objects.lent q inside
    refine ⟨b, other, (after b other).mpr ⟨?_, its⟩, grid, unlisted⟩
    rintro rfl
    obtain rfl := objects.unique b s other there its
    have none := objects.count b s there
    rw [unused, eq_comm, List.countP_eq_zero] at none
    exact none q inside (decide_eq_true grid.page)
  outOnce := objects.outOnce
  count := fun b other its => objects.count b other ((after b other).mp its).2

end Objects

end ProjectsCpp.ConcurrentMemoryPool
