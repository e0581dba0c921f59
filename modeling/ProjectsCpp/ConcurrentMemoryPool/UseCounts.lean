import ProjectsCpp.ConcurrentMemoryPool.Blocks
import Mathlib.Data.Set.Card

/-! `ThreadCache::Allocate` and `Deallocate` with the sizes that the `Freelist`s record, over the
spans of the central cache and their use counts. A block is freed by any thread, with a size of its
class; the rounds of `ReleaseListToSpans` and of the merging loops are steps of their own. `_size` and
`_maxsize` have 64 bits. -/

namespace ProjectsCpp.ConcurrentMemoryPool
open ProjectsCpp.Run ProjectsCpp.Ranges PageCache SizeClass

namespace Counts

structure Freelist extends ConcurrentMemoryPool.Freelist where
  size : Nat

namespace Freelist

def new : Freelist := ⟨⟨[], 1⟩, 0⟩

def push (freelist : Freelist) (obj : Nat) : Freelist :=
  ⟨⟨obj :: freelist.list, freelist.maxsize⟩, (freelist.size + 1) % 2 ^ 64⟩

def pushRange (freelist : Freelist) (objs : List Nat) (n : Nat) : Freelist :=
  ⟨⟨objs ++ freelist.list, freelist.maxsize⟩, (freelist.size + n) % 2 ^ 64⟩

def pop (freelist : Freelist) : Option (Freelist × Nat) :=
  match freelist.list with
  | [] => none
  | obj :: list => some (⟨⟨list, freelist.maxsize⟩, (freelist.size + 2 ^ 64 - 1) % 2 ^ 64⟩, obj)

def popRange (freelist : Freelist) : Freelist × List Nat :=
  (⟨⟨[], freelist.maxsize⟩, 0⟩, freelist.list)

def setMaxSize (freelist : Freelist) (maxsize : Nat) : Freelist :=
  ⟨⟨freelist.list, maxsize⟩, freelist.size⟩

/-- The end of `FetchFromCentralCache`, where the first object of the batch is for the caller. -/
def keep (freelist : Freelist) (others : List Nat) (batchsize : Nat) : Freelist :=
  let maxsize := freelist.maxsize
  let freelist := if 1 < batchsize then freelist.pushRange others (batchsize - 1) else freelist
  if freelist.maxsize ≤ batchsize then freelist.setMaxSize ((maxsize + 1) % 2 ^ 64) else freelist

end Freelist

/-- The thread caches over the central cache, the blocks that users hold, and what is left of a
`ReleaseListToSpans`. -/
structure State (T : Type) where
  pages : PageCache
  central : Nat → List Nat
  freelist : T → Nat → Freelist
  user : List Nat
  work : Work

namespace State
variable {T : Type}

/-- The pool without the recorded sizes; of a block only the first byte is taken as used. -/
def pool (s : State T) : Pool T where
  pages := s.pages
  central := s.central
  tlslist := fun t => some fun i => (s.freelist t i).toFreelist
  live := s.user.map fun p => (p, 1)

variable [DecidableEq T]

def putList (s : State T) (t : T) (i : Nat) (freelist : Freelist) : State T :=
  { s with freelist := Function.update s.freelist t (Function.update (s.freelist t) i freelist) }

def fetchFromCentralCache (s : State T) (t : T) (i size page : Nat) : Option (State T × Nat) :=
  let maxsize := (s.freelist t i).maxsize
  (s.pool.fetchRangeObj (min (numMoveSize size) maxsize) size page).bind fun (pool, batch) =>
    match batch with
    | [] => none
    | start :: others =>
      some ({ s with pages := pool.pages, central := pool.central }.putList t i
        ((s.freelist t i).keep others batch.length), start)

def allocate (s : State T) (t : T) (size page : Nat) : Option (State T × Nat) :=
  let i := index size
  if (s.freelist t i).list ≠ [] then
    (s.freelist t i).pop.map fun (freelist, obj) => (s.putList t i freelist, obj)
  else s.fetchFromCentralCache t i (roundUp size) page

def deallocate (s : State T) (t : T) (ptr size : Nat) : State T :=
  let i := index size
  let freelist := (s.freelist t i).push ptr
  if freelist.maxsize ≤ freelist.size then
    let (freelist, start) := freelist.popRange
    { s.putList t i freelist with work := .objects start i }
  else s.putList t i freelist

def round (s : State T) : Option (State T) :=
  (s.pool.round s.work).map fun (pool, work) =>
    { s with pages := pool.pages, central := pool.central, work := work }

/-- The size is one of the size class of the span that has the block. -/
def RightClass (s : State T) (p size : Nat) : Prop :=
  0 < size ∧ size ≤ maxBytes ∧ ∀ a ∈ Pool.mapObjectToSpan s.pages p, ∀ span ∈ s.pages.spans a,
    index span.objsize = index size

instance (s : State T) (p size : Nat) : Decidable (s.RightClass p size) := by
  unfold RightClass
  infer_instance

/-- An object of a span that is in a thread cache, in a user's hands or still to be put back by the
`ReleaseListToSpans` that is under way. -/
def Lent (s : State T) (q : Nat) : Prop :=
  (∃ t i, q ∈ (s.freelist t i).list) ∨ q ∈ s.user ∨ ∃ i, q ∈ s.work.pending i

end State

inductive Call (T : Type) where
  | allocate (t : T) (size page : Nat)
  | deallocate (t : T) (ptr size : Nat)
  | round
deriving DecidableEq

section
variable {T : Type}

def begin : State T := ⟨.init, fun _ => [], fun _ _ => .new, [], .idle⟩

variable [DecidableEq T]

def step (s : Option (State T)) (call : Call T) : Option (Option (State T)) :=
  s.bind fun s =>
    match s.work, call with
    | .idle, .allocate t size page =>
      if 0 < size ∧ size ≤ maxBytes ∧ s.pages.SpanFresh (numMovePage (roundUp size)) page then
        some ((s.allocate t size page).map fun (s, p) => { s with user := p :: s.user })
      else none
    | .idle, .deallocate t p size =>
      if p ∈ s.user ∧ s.RightClass p size then
        some (some ({ s with user := s.user.erase p }.deallocate t p size))
      else none
    | .idle, .round => none
    | _, .round => some s.round
    | _, _ => none

def machine (T : Type) [DecidableEq T] : Machine (Option (State T)) (Call T) where
  start := (· = some begin)
  step := step

end

/-! ### What holds in every state -/

/-- The use count and the length of the list make up the number of objects that were cut. -/
def Whole (span : Span) : Prop :=
  span.usecount + span.list.length = (span.slices span.objsize).length

/-- Every span in a list of the central cache is counted right, and so is every `Freelist`; a span is
in a list of the page cache, in one of the central cache, or in the hands of a release. -/
structure Balanced {T : Type} (s : State T) : Prop where
  size : ∀ t i, (s.freelist t i).size = (s.freelist t i).list.length
  counted : ∀ i, ∀ a ∈ s.central i, ∃ span, s.pages.spans a = some span ∧ 0 < span.usecount ∧
    span.usecount = {q | q ∈ span.slices span.objsize ∧ s.Lent q}.ncard ∧ Whole span
  placed : ∀ a span, s.pages.spans a = some span →
    s.pages.Listed a ∨ s.work.hand.map Prod.fst = some a ∨ ∃ i, a ∈ s.central i

/-- A span that leaves the central cache has all its objects again and goes to
`ReleaseSpanToPageCache`; one that stays lacks some. -/
def GivenBackWhole {T : Type} (s s' : State T) : Prop :=
  ∀ i, ∀ a ∈ s.central i, ∃ span, s'.pages.spans a = some span ∧
    ((∀ q ∈ span.slices span.objsize, q ∈ span.list) ↔ s'.work.hand = some (a, .prev)) ∧
      ((∀ q ∈ span.slices span.objsize, q ∈ span.list) ↔ a ∉ s'.central i)

section
variable {span : Span} {q n : Nat}

theorem mem_slices (positive : 0 < span.objsize) (grid : span.Grid q) :
    q ∈ span.slices span.objsize := by
  obtain ⟨place, less⟩ := grid
  exact (mem_slice positive (Nat.le_refl _)).mpr ⟨place, .inr less⟩

theorem grid_of_mem_slices (positive : 0 < span.objsize) (some : 0 < span.npage)
    (inside : q ∈ span.slices span.objsize) : span.Grid q := by
  obtain ⟨place, last⟩ := (mem_slice positive (Nat.le_refl _)).mp inside
  refine ⟨place, ?_⟩
  rcases last with rfl | less
  · exact Nat.lt_add_of_pos_right (Nat.mul_pos some (by decide))
  · exact less

theorem Whole.lend (whole : Whole span) : Whole (span.lend n) := by
  have cut : (span.list.take n).length + (span.list.drop n).length = span.list.length := by
    rw [← List.length_append, List.take_append_drop]
  have before : span.usecount + span.list.length = (span.slices span.objsize).length := whole
  show span.usecount + (span.list.take n).length + (span.list.drop n).length =
    (span.slices span.objsize).length
  omega

theorem Whole.back (whole : Whole span) (used : 0 < span.usecount) : Whole (span.back q) := by
  have before : span.usecount + span.list.length = (span.slices span.objsize).length := whole
  show span.usecount - 1 + (span.list.length + 1) = (span.slices span.objsize).length
  omega

theorem Whole.lacks (whole : Whole span) (positive : 0 < span.objsize) (used : 0 < span.usecount) :
    ¬ ∀ q ∈ span.slices span.objsize, q ∈ span.list := by
  intro all
  have once : (span.slices span.objsize).Nodup := slice_nodup positive (Nat.le_refl _)
  have less := (once.subperm all).length_le
  have before : span.usecount + span.list.length = (span.slices span.objsize).length := whole
  omega

theorem Whole.all (whole : Whole span) (positive : 0 < span.objsize) (unused : span.usecount = 0)
    (once : span.list.Nodup) (cut : ∀ q ∈ span.list, span.Grid q) :
    ∀ q ∈ span.slices span.objsize, q ∈ span.list := by
  have before : span.usecount + span.list.length = (span.slices span.objsize).length := whole
  have sub : span.list.Subperm (span.slices span.objsize) :=
    once.subperm fun q listed => mem_slices positive (cut q listed)
  have same := sub.perm_of_length_le (by omega)
  exact fun q inside => same.mem_iff.mpr inside

end

/-- The list is shorter than it may get, and its size is recorded. -/
structure Freelist.Short (freelist : Freelist) : Prop where
  size : freelist.size = freelist.list.length
  less : freelist.list.length < freelist.maxsize
  few : freelist.maxsize ≤ 513

section
variable {T : Type}

/-- The invariant: the pool is in order, and no object gets lost. -/
structure Sane (s : State T) (out : List Nat) : Prop where
  kept : s.pool.Kept s.work out
  all : ∀ q ∈ out, s.Lent q
  whole : ∀ a span, s.pages.HandedOut s.work.hand a span → 0 < span.usecount ∧ Whole span
  short : ∀ t i, (s.freelist t i).Short

def Goes (s s' : State T) : Prop :=
  ∀ a span, s.pages.HandedOut s.work.hand a span → ∃ span', s'.pages.spans a = some span' ∧
    span'.objsize = span.objsize ∧ (s'.pages.HandedOut s'.work.hand a span' ∨
      s'.work.hand = some (a, .prev) ∧ ∀ q ∈ span'.slices span'.objsize, q ∈ span'.list)

variable {s s' : State T} {out out' : List Nat} {a : Nat} {span : Span} {q : Nat}

theorem lent_iff : s.Lent q ↔ ∃ h, q ∈ s.pool.held s.work h := by
  have client : s.pool.held s.work .client = s.user := by
    simp only [Pool.held, State.pool]
    rw [List.filter_eq_self.mpr, List.map_map]
    · exact List.map_id _
    · intro b inside
      obtain ⟨p, -, rfl⟩ := List.mem_map.mp inside
      exact decide_eq_true (show 1 ≤ maxBytes by decide)
  constructor
  · rintro (⟨t, i, inside⟩ | inside | ⟨i, inside⟩)
    · exact ⟨.cache t i, inside⟩
    · exact ⟨.client, client ▸ inside⟩
    · exact ⟨.pending i, inside⟩
  · rintro ⟨t | _ | i, inside⟩
    · exact .inl ⟨_, _, inside⟩
    · exact .inr (.inl (client ▸ inside))
    · exact .inr (.inr ⟨i, inside⟩)

namespace Sane

theorem lent (sane : Sane s out) : s.Lent q ↔ q ∈ out :=
  ⟨fun lent => let ⟨h, inside⟩ := lent_iff.mp lent; sane.kept.held.lent h q inside, sane.all q⟩

theorem busy (sane : Sane s out) : s.pool.Busy s.work a span ↔ s.pages.HandedOut s.work.hand a span :=
  and_iff_left_of_imp fun its => (sane.whole a span its).1

theorem count (sane : Sane s out) (its : s.pages.HandedOut s.work.hand a span) :
    span.usecount = {q | q ∈ span.slices span.objsize ∧ s.Lent q}.ncard := by
  have there := sane.busy.mpr its
  have positive := (sane.kept.objects.sized a span there).1
  have same : {q | q ∈ span.slices span.objsize ∧ s.Lent q} =
      ↑(out.filter fun q => span.pages.Has (q / pageSize)).toFinset := by
    ext q
    rw [List.coe_toFinset, Set.mem_ofPred_eq, Set.mem_ofPred_eq, List.mem_filter, decide_eq_true_iff,
      sane.lent]
    constructor
    · rintro ⟨inside, lent⟩
      have some : 0 < span.npage := Nat.pos_of_ne_zero fun none => by
        have used := there.2
        have limit : span.usecount ≤ span.npage * pageSize := sane.kept.objects.usecount_le there
        rw [none, Nat.zero_mul] at limit
        omega
      exact ⟨lent, (grid_of_mem_slices positive some inside).page⟩
    · rintro ⟨lent, has⟩
      exact ⟨mem_slices positive (sane.kept.objects.grid lent there has).1, lent⟩
  rw [same, Set.ncard_coe_finset, List.toFinset_card_of_nodup (sane.kept.objects.outOnce.filter _),
    sane.kept.objects.count a span there, List.countP_eq_length_filter]

theorem balanced (sane : Sane s out) : Balanced s where
  size := fun t i => (sane.short t i).size
  counted := by
    intro i a inside
    obtain ⟨span, there, -⟩ := (sane.kept.objects.shelf i a).mp inside
    have its := sane.busy.mp there
    exact ⟨span, its.1.1, (sane.whole a span its).1, sane.count its, (sane.whole a span its).2⟩
  placed := by
    intro a span there
    by_cases listed : s.pages.Listed a
    · exact .inl listed
    · by_cases current : s.work.hand.map Prod.fst = some a
      · exact .inr (.inl current)
      · have its : s.pages.HandedOut s.work.hand a span := ⟨⟨there, listed⟩, current⟩
        exact .inr (.inr ⟨_, (sane.kept.objects.shelf _ a).mpr ⟨span, sane.busy.mpr its, rfl⟩⟩)

theorem givenBack (sane : Sane s out) (sane' : Sane s' out') (goes : Goes s s') :
    GivenBackWhole s s' := by
  intro i a inside
  obtain ⟨span, there, rfl⟩ := (sane.kept.objects.shelf i a).mp inside
  obtain ⟨span', its', sized, stays | ⟨current, all⟩⟩ := goes a span (sane.busy.mp there)
  · have there' := sane'.busy.mpr stays
    have lacks := (sane'.whole a span' stays).2.lacks (sane'.kept.objects.sized a span' there').1 there'.2
    refine ⟨span', its', iff_of_false lacks fun current => ?_, iff_of_false lacks fun gone => gone ?_⟩
    · exact stays.2 (by rw [current, Option.map_some])
    · exact (sane'.kept.objects.shelf _ a).mpr ⟨span', there', by rw [sized]⟩
  · refine ⟨span', its', iff_of_true all current, iff_of_true all fun still => ?_⟩
    obtain ⟨other, there', -⟩ := (sane'.kept.objects.shelf _ a).mp still
    exact there'.1.2 (by rw [current, Option.map_some])

end Sane
end

/-! ### The steps -/

namespace Freelist.Short
variable {freelist : Freelist} {obj : Nat} {list others : List Nat}

theorem new : Freelist.new.Short := ⟨rfl, Nat.one_pos, by decide⟩

theorem push_size (short : freelist.Short) : (freelist.push obj).size = freelist.list.length + 1 := by
  obtain ⟨size, less, few⟩ := short
  show (freelist.size + 1) % 2 ^ 64 = _
  omega

theorem push (short : freelist.Short) (room : ¬ (freelist.push obj).maxsize ≤ (freelist.push obj).size) :
    (freelist.push obj).Short := by
  have size : (freelist.push obj).size = (freelist.push obj).list.length := short.push_size
  exact ⟨size, by omega, short.few⟩

theorem popRange (short : freelist.Short) : freelist.popRange.1.Short :=
  ⟨rfl, Nat.lt_of_le_of_lt (Nat.zero_le _) short.less, short.few⟩

theorem pop (short : freelist.Short) (there : freelist.list = obj :: list) :
    ∃ rest, freelist.pop = some (rest, obj) ∧ rest.toFreelist = ⟨list, freelist.maxsize⟩ ∧
      rest.Short := by
  obtain ⟨size, less, few⟩ := short
  rw [there, List.length_cons] at size less
  refine ⟨⟨⟨list, freelist.maxsize⟩, (freelist.size + 2 ^ 64 - 1) % 2 ^ 64⟩, ?_, rfl, ?_, ?_, few⟩
  · rw [Freelist.pop, there]
  · show (freelist.size + 2 ^ 64 - 1) % 2 ^ 64 = list.length
    omega
  · show list.length < freelist.maxsize
    omega

theorem keep (short : freelist.Short) (empty : freelist.list = [])
    (few : others.length + 1 ≤ min 512 freelist.maxsize) :
    (freelist.keep others (others.length + 1)).list = others ∧
      (freelist.keep others (others.length + 1)).Short := by
  obtain ⟨size, less, most⟩ := short
  rw [empty, List.length_nil] at size
  have pushed : (if 1 < others.length + 1 then freelist.pushRange others (others.length + 1 - 1)
      else freelist) = ⟨⟨others, freelist.maxsize⟩, others.length⟩ := by
    obtain ⟨⟨list, maxsize⟩, recorded⟩ := freelist
    obtain rfl : list = [] := empty
    obtain rfl : recorded = 0 := size
    split
    · have fits : (0 + (others.length + 1 - 1)) % 2 ^ 64 = others.length := by omega
      rw [Freelist.pushRange, fits, List.append_nil]
    · obtain rfl : others = [] := List.eq_nil_of_length_eq_zero (by omega)
      rfl
  rw [Freelist.keep]
  simp only [pushed]
  split
  · have next : (freelist.maxsize + 1) % 2 ^ 64 = freelist.maxsize + 1 := by omega
    rw [next]
    refine ⟨rfl, rfl, ?_, ?_⟩
    · show others.length < freelist.maxsize + 1
      omega
    · show freelist.maxsize + 1 ≤ 513
      omega
  · refine ⟨rfl, rfl, ?_, most⟩
    show others.length < freelist.maxsize
    omega

end Freelist.Short

section
variable {T : Type} {s s' : State T} {out out' : List Nat} {a p q i : Nat} {t : T} {span : Span}
  {freelist : Freelist}

theorem pool_takeBack : { s with user := s.user.erase p }.pool = s.pool.takeBack p := by
  have live : (s.user.erase p).map (fun p => (p, 1)) =
      (s.user.map fun p => (p, 1)).eraseP fun block => block.1 = p := by
    rw [List.eraseP_map, List.erase_eq_eraseP']
    rfl
  exact congrArg (fun live => (⟨s.pages, s.central, s.pool.tlslist, live⟩ : Pool T)) live

theorem goes_of_same (pages : s'.pages = s.pages) (hand : s'.work.hand = s.work.hand) : Goes s s' :=
  fun _ span its => ⟨span, pages ▸ its.1.1, rfl, .inl (pages ▸ hand ▸ its)⟩

theorem firstByte {pool : Pool T} {work : Work} (kept : pool.Kept work out) (inside : q ∈ out) (a : Nat)
    (span : Span) (there : pool.Busy work a span) (has : span.pages.Has (q / pageSize)) :
    1 ≤ span.objsize ∧ q + 1 ≤ span.bytes.start + span.bytes.size :=
  ⟨(kept.objects.sized a span there).1, (kept.objects.grid inside there has).1.2⟩

namespace Sane

theorem wholeFetched {pool' : Pool T} {size n : Nat} {batch : List Nat} (sane : Sane s out)
    (idle : s.work = .idle) (fetched : Pool.Fetched s.pool pool' out size n batch a span) (b : Nat)
    (other : Span) (its : pool'.pages.Out b other) : 0 < other.usecount ∧ Whole other := by
  have old : ∀ c third, s.pages.Out c third → 0 < third.usecount ∧ Whole third := fun c third before =>
    sane.whole c third (by rw [idle]; exact handedOut_none.mpr before)
  rcases (fetched.after b other).mp its with ⟨rfl, rfl⟩ | ⟨-, before⟩
  · have more : 0 < (span.list.take n).length :=
      List.length_pos_iff.mpr (fetched.objs ▸ fetched.full)
    refine ⟨Nat.add_pos_right _ more, Whole.lend ?_⟩
    obtain ⟨pool₁, opened⟩ := fetched.source
    rcases opened.origin with ⟨unused, list⟩ | ⟨-, busy⟩
    · show span.usecount + span.list.length = _
      rw [unused, Nat.zero_add, ← list]
    · exact (old b span (handedOut_none.mp busy.1)).2
  · exact old b other before

theorem goesFetched {pool' : Pool T} {size n : Nat} {batch : List Nat}
    (fetched : Pool.Fetched s.pool pool' out size n batch a span) {b : Nat} {other : Span}
    (its : s.pages.Out b other) :
    ∃ other', pool'.pages.Out b other' ∧ other'.objsize = other.objsize := by
  by_cases same : b = a
  · subst same
    obtain ⟨pool₁, opened⟩ := fetched.source
    obtain ⟨rfl, -⟩ := opened.old other its
    exact ⟨_, (fetched.after b _).mpr (.inl ⟨rfl, rfl⟩), rfl⟩
  · exact ⟨other, (fetched.after b other).mpr (.inr ⟨same, its⟩), rfl⟩

end Sane

variable [DecidableEq T]

theorem freelist_putList (t' : T) (j : Nat) : (s.putList t i freelist).freelist t' j =
    if t' = t ∧ j = i then freelist else s.freelist t' j := by
  simp only [State.putList, Function.update_apply]
  by_cases thread : t' = t
  · subst thread
    simp only [if_pos, true_and, Function.update_apply]
  · rw [if_neg thread, if_neg fun both => thread both.1]

theorem pool_putList : (s.putList t i freelist).pool =
    s.pool.putList t ((s.pool.tlslist t).getD .new) i freelist.toFreelist := by
  have lists : (s.putList t i freelist).pool.tlslist =
      (s.pool.putList t ((s.pool.tlslist t).getD .new) i freelist.toFreelist).tlslist := by
    funext t'
    show some (fun j => ((s.putList t i freelist).freelist t' j).toFreelist) =
      Function.update s.pool.tlslist t
        (some (Function.update ((s.pool.tlslist t).getD .new) i freelist.toFreelist)) t'
    rw [Function.update_apply]
    split
    · rename_i thread
      refine congrArg some (funext fun j => ?_)
      rw [freelist_putList, Function.update_apply]
      by_cases same : j = i
      · rw [if_pos ⟨thread, same⟩, if_pos same]
      · rw [if_neg fun both => same both.2, if_neg same, thread]
        rfl
    · rename_i thread
      refine congrArg some (funext fun j => ?_)
      rw [freelist_putList, if_neg fun both => thread both.1]
  exact congrArg (fun lists => (⟨s.pages, s.central, lists, s.user.map fun p => (p, 1)⟩ : Pool T)) lists

theorem State.Lent.putList (lent : s.Lent q) (t : T) (i : Nat) (freelist : Freelist) :
    (s.putList t i freelist).Lent q ∨ q ∈ (s.freelist t i).list := by
  rcases lent with ⟨t', j, inside⟩ | inside | inside
  · by_cases same : t' = t ∧ j = i
    · obtain ⟨rfl, rfl⟩ := same
      exact .inr inside
    · refine .inl (.inl ⟨t', j, ?_⟩)
      rwa [freelist_putList, if_neg same]
  · exact .inl (.inr (.inl inside))
  · exact .inl (.inr (.inr inside))

theorem short_putList (short : ∀ t i, (s.freelist t i).Short) (new : freelist.Short) (t' : T) (j : Nat) :
    ((s.putList t i freelist).freelist t' j).Short := by
  rw [freelist_putList]
  split
  · exact new
  · exact short t' j

namespace Sane

theorem pop {list : List Nat} (sane : Sane s out) (idle : s.work = .idle)
    (there : (s.freelist t i).list = p :: list) :
    ∃ rest, (s.freelist t i).pop = some (rest, p) ∧
      Sane { s.putList t i rest with user := p :: s.user } out := by
  obtain ⟨rest, popped, lists, short⟩ := (sane.short t i).pop there
  have kept := idle ▸ sane.kept
  obtain ⟨inside, held, free⟩ := kept.popCache there (s.freelist t i).maxsize
  have more : 0 < (s.freelist t i).maxsize := Nat.lt_of_le_of_lt (Nat.zero_le _) (sane.short t i).less
  have kept' : ((s.pool.putList t ((s.pool.tlslist t).getD .new) i
      ⟨list, (s.freelist t i).maxsize⟩).handOut p 1).Kept .idle out :=
    kept.allocated inside Nat.one_pos (by decide) rfl more held free (firstByte kept inside)
  refine ⟨rest, popped, ⟨?_, fun q lent => ?_, sane.whole, short_putList sane.short short⟩⟩
  · have same : { s.putList t i rest with user := p :: s.user }.pool =
        (s.putList t i rest).pool.handOut p 1 := rfl
    rw [same, pool_putList, lists]
    exact idle.symm ▸ kept'
  · rcases State.Lent.putList (sane.all q lent) t i rest with here | was
    · rcases here with here | here | here
      · exact .inl here
      · exact .inr (.inl (.tail _ here))
      · exact .inr (.inr here)
    · rw [there] at was
      rcases List.mem_cons.mp was with rfl | was
      · exact .inr (.inl (.head _))
      · refine .inl ⟨t, i, ?_⟩
        rw [freelist_putList, if_pos ⟨rfl, rfl⟩, lists]
        exact was

theorem fetch {size page : Nat} (sane : Sane s out) (idle : s.work = .idle) (positive : 0 < size)
    (small : size ≤ maxBytes) (fresh : s.pages.SpanFresh (numMovePage (roundUp size)) page)
    (empty : (s.freelist t (index size)).list = []) :
    ∃ s' p out', s.fetchFromCentralCache t (index size) (roundUp size) page = some (s', p) ∧
      Sane { s' with user := p :: s'.user } out' ∧ Goes s { s' with user := p :: s'.user } := by
  have kept := idle ▸ sane.kept
  have short := sane.short t (index size)
  have more : 0 < (s.freelist t (index size)).maxsize := Nat.lt_of_le_of_lt (Nat.zero_le _) short.less
  obtain ⟨pool', batch, a, span, done, fetched⟩ :=
    kept.fetchRangeObj (Pool.Kept.numToMove positive small more) positive small fresh
  have length : batch.length ≤ min (numMoveSize (roundUp size)) (s.freelist t (index size)).maxsize :=
    fetched.objs ▸ List.length_take_le _ _
  rw [State.fetchFromCentralCache, done, Option.bind_some]
  cases batch with
  | nil => exact absurd rfl fetched.full
  | cons start others =>
    have few : others.length + 1 ≤ min 512 (s.freelist t (index size)).maxsize := by
      refine length.trans (le_min_iff.mpr ⟨(Nat.min_le_left _ _).trans ?_, Nat.min_le_right _ _⟩)
      rw [numMoveSize]
      split
      · exact Nat.zero_le _
      · exact Nat.min_le_right _ _
    dsimp only [List.length_cons]
    obtain ⟨lists, kept₁⟩ := short.keep empty few
    generalize (s.freelist t (index size)).keep others (others.length + 1) = rest at lists kept₁
    obtain ⟨held, free⟩ := kept.pushCache fetched empty rest.maxsize
    have more' : 0 < rest.maxsize := Nat.lt_of_le_of_lt (Nat.zero_le _) kept₁.less
    have kept' : ((pool'.putList t ((s.pool.tlslist t).getD .new) (index size)
        ⟨others, rest.maxsize⟩).handOut start 1).Kept .idle (start :: others ++ out) :=
      fetched.kept.allocated (.head _) Nat.one_pos (by decide) (fetched.tlslist ▸ rfl) more' held free
        (firstByte fetched.kept (.head _))
    let s₁ : State T := { s with pages := pool'.pages, central := pool'.central }
    have same : s₁.pool = pool' := by
      have lists := fetched.tlslist
      have live := fetched.live
      obtain ⟨pages, central, tlslist, live'⟩ := pool'
      obtain rfl : tlslist = s.pool.tlslist := lists
      obtain rfl : live' = s.pool.live := live
      rfl
    have pool₁ : { s₁.putList t (index size) rest with user := start :: s.user }.pool =
        (pool'.putList t ((s.pool.tlslist t).getD .new) (index size) ⟨others, rest.maxsize⟩).handOut
          start 1 := by
      have handed : { s₁.putList t (index size) rest with user := start :: s.user }.pool =
          (s₁.putList t (index size) rest).pool.handOut start 1 := rfl
      rw [handed, pool_putList, same, fetched.tlslist, ← lists]
    have hand : s.work.hand = none := by rw [idle]; rfl
    refine ⟨_, start, start :: others ++ out, rfl, ⟨?_, fun q lent => ?_, fun b other its => ?_, ?_⟩, fun b other its => ?_⟩
    · show Pool.Kept { s₁.putList t (index size) rest with user := start :: s.user }.pool s.work _
      rw [pool₁, idle]
      exact kept'
    · rcases List.mem_append.mp lent with mine | before
      · rcases List.mem_cons.mp mine with rfl | mine
        · exact .inr (.inl (.head _))
        · refine .inl ⟨t, index size, ?_⟩
          show q ∈ ((s₁.putList t (index size) rest).freelist t (index size)).list
          rw [freelist_putList, if_pos ⟨rfl, rfl⟩, lists]
          exact mine
      · have lent₁ : s₁.Lent q := sane.all q before
        rcases lent₁.putList t (index size) rest with here | was
        · rcases here with here | here | here
          · exact .inl here
          · exact .inr (.inl (.tail _ here))
          · exact .inr (.inr here)
        · have was : q ∈ (s.freelist t (index size)).list := was
          rw [empty] at was
          cases was
    · exact sane.wholeFetched idle fetched b other its.1
    · exact short_putList sane.short kept₁
    · obtain ⟨other', its', sized⟩ := goesFetched fetched its.1
      refine ⟨other', its'.1, sized, .inl ⟨its', ?_⟩⟩
      show s.work.hand.map Prod.fst ≠ some b
      rw [hand]
      exact fun same => by cases same

theorem allocate {size page : Nat} (sane : Sane s out) (idle : s.work = .idle) (positive : 0 < size)
    (small : size ≤ maxBytes) (fresh : s.pages.SpanFresh (numMovePage (roundUp size)) page) :
    ∃ s' p out', s.allocate t size page = some (s', p) ∧
      Sane { s' with user := p :: s'.user } out' ∧ Goes s { s' with user := p :: s'.user } := by
  rw [State.allocate]
  cases there : (s.freelist t (index size)).list with
  | nil =>
    obtain ⟨s', p, out', done, rest⟩ := sane.fetch idle positive small fresh there
    exact ⟨s', p, out', by simpa only [ne_eq, not_true_eq_false, if_false] using done, rest⟩
  | cons p list =>
    obtain ⟨rest, popped, sane'⟩ := sane.pop idle there
    refine ⟨s.putList t (index size) rest, p, out, ?_, sane', goes_of_same rfl rfl⟩
    rw [if_pos (List.cons_ne_nil p list), popped]
    rfl

theorem deallocate {size : Nat} (sane : Sane s out) (idle : s.work = .idle) (mine : p ∈ s.user)
    (right : s.RightClass p size) :
    Sane ({ s with user := s.user.erase p }.deallocate t p size) out ∧
      Goes s ({ s with user := s.user.erase p }.deallocate t p size) := by
  have kept := idle ▸ sane.kept
  have short := sane.short t (index size)
  have more : 0 < (s.freelist t (index size)).maxsize := Nat.lt_of_le_of_lt (Nat.zero_le _) short.less
  have live : (p, 1) ∈ s.pool.live := List.mem_map_of_mem mine
  obtain ⟨held, -⟩ := kept.out_of_client live (show 1 ≤ maxBytes by decide)
  have kind : ∀ a span, s.pool.Busy .idle a span → span.pages.Has (p / pageSize) →
      index span.objsize = index size := fun a span busy has =>
    right.2.2 a (kept.sound.mapped a span _ busy.1.1.1 has (.inl (kept.objects.few a span busy))) span
      busy.1.1.1
  let s₁ : State T := { s with user := s.user.erase p }
  have lent₁ : ∀ q, s.Lent q → s₁.Lent q ∨ q = p := by
    rintro q (cached | user | pending)
    · exact .inl (.inl cached)
    · by_cases same : q = p
      · exact .inr same
      · exact .inl (.inr (.inl ((List.mem_erase_of_ne same).mpr user)))
    · exact .inl (.inr (.inr pending))
  show Sane (s₁.deallocate t p size) out ∧ Goes s (s₁.deallocate t p size)
  have pool₁ : s₁.pool = s.pool.takeBack p := pool_takeBack
  by_cases long : ((s.freelist t (index size)).push p).maxsize ≤ ((s.freelist t (index size)).push p).size
  · have done : s₁.deallocate t p size =
        { s₁.putList t (index size) ((s.freelist t (index size)).push p).popRange.1 with
          work := .objects (p :: (s.freelist t (index size)).list) (index size) } := if_pos long
    have kept' : ((s.pool.takeBack p).putList t ((s.pool.tlslist t).getD .new) (index size)
        ⟨[], (s.freelist t (index size)).maxsize⟩).Kept
          (.objects (p :: (s.freelist t (index size)).list) (index size)) out :=
      kept.freed (b := (p, 1)) rfl rfl more (kept.toPending (t := t) rfl held kind)
    have short' : ((s.freelist t (index size)).push p).popRange.1.Short :=
      ⟨rfl, more, short.few⟩
    have mine' : ∀ q ∈ p :: (s.freelist t (index size)).list,
        q ∈ (Work.objects (p :: (s.freelist t (index size)).list) (index size)).pending (index size) :=
      fun q inside => by rwa [Work.pending, if_pos rfl]
    rw [done]
    refine ⟨⟨?_, fun q out => ?_, fun a span its => sane.whole a span (idle ▸ its),
      short_putList sane.short short'⟩, goes_of_same rfl (by rw [idle]; rfl)⟩
    · show Pool.Kept (s₁.putList t (index size) ((s.freelist t (index size)).push p).popRange.1).pool _ _
      rw [pool_putList, pool₁]
      exact kept'
    · rcases lent₁ q (sane.all q out) with lent | rfl
      · rcases State.Lent.putList lent t (index size) ((s.freelist t (index size)).push p).popRange.1
          with here | was
        · rcases here with here | here | ⟨i, here⟩
          · exact .inl here
          · exact .inr (.inl here)
          · rw [show (s₁.putList t (index size) ((s.freelist t (index size)).push p).popRange.1).work =
              .idle from idle] at here
            cases here
        · exact .inr (.inr ⟨_, mine' q (.tail _ was)⟩)
      · exact .inr (.inr ⟨_, mine' q (.head _)⟩)
  · have done : s₁.deallocate t p size =
        s₁.putList t (index size) ((s.freelist t (index size)).push p) := if_neg long
    have kept' : ((s.pool.takeBack p).putList t ((s.pool.tlslist t).getD .new) (index size)
        ((s.freelist t (index size)).push p).toFreelist).Kept .idle out :=
      kept.freed (b := (p, 1)) rfl rfl more (kept.toCache (t := t) rfl held kind)
    rw [done]
    refine ⟨⟨?_, fun q out => ?_, sane.whole, short_putList sane.short (short.push long)⟩,
      goes_of_same rfl rfl⟩
    · show Pool.Kept (s₁.putList t (index size) ((s.freelist t (index size)).push p)).pool s.work _
      rw [pool_putList, pool₁, idle]
      exact kept'
    · have cached : ∀ q ∈ p :: (s.freelist t (index size)).list,
          (s₁.putList t (index size) ((s.freelist t (index size)).push p)).Lent q := by
        intro q inside
        refine .inl ⟨t, index size, ?_⟩
        rw [freelist_putList, if_pos ⟨rfl, rfl⟩]
        exact inside
      rcases lent₁ q (sane.all q out) with lent | rfl
      · rcases State.Lent.putList lent t (index size) ((s.freelist t (index size)).push p) with here | was
        · exact here
        · exact cached q (.tail _ was)
      · exact cached q (.head _)

end Sane
end

section
variable {T : Type} {s : State T} {out : List Nat}

theorem pending_givenBack {pool pool' : Pool T} {work' : Work} {p i a j : Nat} {rest : List Nat}
    {span : Span} (given : Pool.GivenBack pool pool' work' p i rest a span) :
    work'.pending j = if j = i then rest else [] := by
  by_cases last : span.usecount = 1
  · rw [(given.last last).1, Work.pending]
  · rw [(given.more last).1, Work.pending]

theorem Sane.all_back {p a : Nat} {span : Span} (sane : Sane s out)
    (its : s.pages.HandedOut s.work.hand a span) (one : span.usecount = 1) (inside : p ∈ out)
    (grid : span.Grid p) :
    ∀ q ∈ (span.back p).slices (span.back p).objsize, q ∈ (span.back p).list := by
  have there := sane.busy.mpr its
  obtain ⟨used, whole⟩ := sane.whole a span its
  obtain ⟨once, cut⟩ := sane.kept.objects.cut a span there
  have unlisted := (sane.kept.objects.grid inside there grid.page).2
  refine (whole.back used).all (sane.kept.objects.sized a span there).1 ?_
    (List.nodup_cons.mpr ⟨unlisted, once⟩) ?_
  · show span.usecount - 1 = 0
    omega
  · intro q listed
    rcases List.mem_cons.mp listed with rfl | before
    · exact grid
    · exact cut q before

theorem Sane.giveBack {p i : Nat} {rest : List Nat} (sane : Sane s out)
    (busy : s.work = .objects (p :: rest) i) :
    ∃ s' out', s.round = some s' ∧ Sane s' out' ∧ Goes s s' := by
  obtain ⟨pages, central, freelist, user, work⟩ := s
  obtain rfl : work = .objects (p :: rest) i := busy
  obtain ⟨pool', work', a, span, done, kept', given⟩ := sane.kept.giveBack
  obtain ⟨pages', central', tlslist, live⟩ := pool'
  obtain ⟨lists, lives⟩ := given.lists
  dsimp only at lists lives
  subst lists lives
  have its : pages.HandedOut none a span := given.busy.1
  have first : p ∈ (Work.objects (p :: rest) i).pending i := by
    rw [Work.pending, if_pos rfl]
    exact .head _
  have inside : p ∈ out := sane.lent.mp (.inr (.inr ⟨i, first⟩))
  obtain ⟨used, whole⟩ := sane.whole a span its
  refine ⟨⟨pages', central', freelist, user, work'⟩, out.erase p, ?_,
    ⟨kept', fun q still => ?_, fun b other handed => ?_, sane.short⟩, fun b other handed => ?_⟩
  · rw [State.round, Pool.round, show (State.pool _).giveBack p rest i = _ from done]
    rfl
  · obtain ⟨unlike, before⟩ := sane.kept.objects.outOnce.mem_erase_iff.mp still
    rcases sane.all q before with cached | held | ⟨j, pending⟩
    · exact .inl cached
    · exact .inr (.inl held)
    · refine .inr (.inr ⟨j, ?_⟩)
      have pending : q ∈ if j = i then p :: rest else [] := pending
      show q ∈ work'.pending j
      rw [pending_givenBack given]
      split
      · rename_i same
        rw [if_pos same] at pending
        exact (List.mem_cons.mp pending).resolve_left unlike
      · rename_i other
        rw [if_neg other] at pending
        cases pending
  · rcases (given.handed b other).mp handed with ⟨more, rfl, rfl⟩ | ⟨-, before⟩
    · refine ⟨?_, whole.back used⟩
      show 0 < span.usecount - 1
      omega
    · exact sane.whole b other (handedOut_none.mpr before)
  · by_cases same : b = a
    · subst same
      obtain rfl := Option.some.inj (its.1.1.symm.trans handed.1.1)
      refine ⟨span.back p, ?_⟩
      by_cases one : span.usecount = 1
      · obtain ⟨merging, -, there⟩ := given.last one
        exact ⟨there, rfl, .inr ⟨by rw [merging]; rfl, sane.all_back its one inside given.grid⟩⟩
      · have stays := (given.handed b (span.back p)).mpr (.inl ⟨one, rfl, rfl⟩)
        exact ⟨stays.1.1, rfl, .inl stays⟩
    · have stays := (given.handed b other).mpr (.inr ⟨same, handed.1⟩)
      exact ⟨other, stays.1.1, rfl, .inl stays⟩

theorem Sane.round (sane : Sane s out) (busy : s.work ≠ .idle) :
    ∃ s' out', s.round = some s' ∧ Sane s' out' ∧ Goes s s' := by
  cases work : s.work with
  | idle => exact absurd work busy
  | objects objs i =>
    cases objs with
    | nil =>
      obtain ⟨pages, central, freelist, user, work'⟩ := s
      obtain rfl : work' = .objects [] i := work
      have moved : ∀ q, (⟨pages, central, freelist, user, .objects [] i⟩ : State T).Lent q →
          (⟨pages, central, freelist, user, .idle⟩ : State T).Lent q := by
        rintro q (cached | held | ⟨j, pending⟩)
        · exact .inl cached
        · exact .inr (.inl held)
        · have none : (Work.objects [] i).pending j = [] := ite_self []
          exact absurd (none ▸ pending) List.not_mem_nil
      exact ⟨_, out, rfl, ⟨sane.kept.ended, fun q inside => moved q (sane.all q inside), sane.whole,
        sane.short⟩, goes_of_same rfl rfl⟩
    | cons p rest => exact sane.giveBack work
  | merging hand objs i =>
    obtain ⟨pages, central, freelist, user, work'⟩ := s
    obtain rfl : work' = .merging hand objs i := work
    -- no big span is handed out that a merge could find
    have unused : ∀ b big, pages.Out b big → b ≠ hand.1 → big.usecount ≠ 0 := fun b big its unlike =>
      Nat.pos_iff_ne_zero.mp (sane.whole b big (handedOut_some.mpr ⟨unlike, its⟩)).1
    have guarded : pages.Guarded hand := by
      obtain ⟨cur, _ | _⟩ := hand
      all_goals
        exact fun _ b big _ its unlike zero => absurd zero (unused b big its unlike)
    obtain ⟨pages', hand', done, kept', handed⟩ := sane.kept.merging guarded
    have handed' : ∀ b other, pages'.HandedOut (Pool.workOf hand' objs i).hand b other ↔
        pages.HandedOut (some hand) b other := by
      intro b other
      rw [Pool.workOf_hand]
      exact handed b other
    refine ⟨⟨pages', central, freelist, user, Pool.workOf hand' objs i⟩, out, ?_,
      ⟨kept', fun q inside => ?_, fun b other its => sane.whole b other ((handed' b other).mp its),
        sane.short⟩, fun b other its => ?_⟩
    · rw [State.round, show (State.pool _).round _ = _ from done]
      rfl
    · rcases sane.all q inside with cached | held | ⟨j, pending⟩
      · exact .inl cached
      · exact .inr (.inl held)
      · refine .inr (.inr ⟨j, ?_⟩)
        show q ∈ (Pool.workOf hand' objs i).pending j
        rw [Pool.workOf_pending]
        exact pending
    · have stays := (handed' b other).mpr its
      exact ⟨other, stays.1.1, rfl, .inl stays⟩
end

section
variable {T : Type} {s : State T} {t : Option (State T)} {out : List Nat} {call : Call T}

theorem sane_begin : Sane (begin : State T) [] :=
  ⟨.new (fun _ _ => rfl) fun _ _ _ there => Option.some.inj there ▸ Nat.one_pos, nofun,
    fun _ _ its => (nomatch its.1.1), fun _ _ => .new⟩

variable [DecidableEq T]

theorem Sane.step (sane : Sane s out) (next : step (some s) call = some t) :
    ∃ s' out', t = some s' ∧ Sane s' out' ∧ Goes s s' := by
  rw [Counts.step, Option.bind_some] at next
  cases work : s.work with
  | idle =>
    rw [work] at next
    cases call with
    | round => cases next
    | allocate thread size page =>
      obtain ⟨⟨positive, small, fresh⟩, same⟩ := Option.ite_none_right_eq_some.mp next
      obtain ⟨s', p, out', done, sane', goes⟩ :=
        sane.allocate (t := thread) work positive small fresh
      rw [done] at same
      exact ⟨_, out', (Option.some.inj same).symm, sane', goes⟩
    | deallocate thread p size =>
      obtain ⟨⟨mine, right⟩, same⟩ := Option.ite_none_right_eq_some.mp next
      obtain ⟨sane', goes⟩ := sane.deallocate (t := thread) work mine right
      refine ⟨_, out, (Option.some.inj same).symm, ?_, ?_⟩
      · exact work ▸ sane'
      · exact work ▸ goes
  | _ =>
    rw [work] at next
    cases call with
    | round =>
      obtain ⟨s', out', done, sane', goes⟩ := sane.round (by rw [work]; exact nofun)
      exact ⟨s', out', (Option.some.inj next).symm.trans done, sane', goes⟩
    | _ => cases next

/-- In every run of two or more threads no call fails, the counts balance in every state, and a span
goes back to the page cache in the step that puts its last object back. -/
theorem counts_balance (reach : Reachable (machine T) t) :
    ∃ s, t = some s ∧ Balanced s ∧ ∀ call u, step (some s) call = some u →
      ∃ s', u = some s' ∧ GivenBackWhole s s' := by
  have sane : ∃ s out, t = some s ∧ Sane s out := by
    refine reach.invariant (P := fun t => ∃ s out, t = some s ∧ Sane s out) ?_ ?_
    · rintro t rfl
      exact ⟨begin, [], rfl, sane_begin⟩
    · rintro t call u ⟨s, out, rfl, sane⟩ - next
      obtain ⟨s', out', done, sane', -⟩ := sane.step next
      exact ⟨s', out', done, sane'⟩
  obtain ⟨s, out, rfl, sane⟩ := sane
  refine ⟨s, rfl, sane.balanced, fun call u next => ?_⟩
  obtain ⟨s', out', done, sane', goes⟩ := sane.step next
  exact ⟨s', done, sane.givenBack sane' goes⟩
end

/-- Two threads share the three objects of a span; at last all of them go back, and the span too. -/
def twoCaches : List (Call Bool) :=
  [Call.allocate true 20000 1, .allocate true 20480 0, .deallocate false 4096 20000] ++
    List.replicate 2 Call.round ++ [Call.allocate false 20000 0, .deallocate true 4096 20000,
      .deallocate true 24576 20000] ++ List.replicate 6 Call.round

theorem counts_balance_two_caches :
    ∃ s, exec (machine Bool) (some begin) twoCaches = some (some s) ∧
      s.work = .idle ∧ s.user = [] ∧ s.central (index 20000) = [] ∧ Balanced s := by
  have ran : (exec (machine Bool) (some begin) twoCaches).any (fun s => s.any fun s =>
      s.work = .idle ∧ s.user = [] ∧ s.central (index 20000) = []) = true := by
    decide +kernel
  obtain ⟨t, done, facts⟩ := (Option.any_eq_true _ _).mp ran
  obtain ⟨s, rfl, facts⟩ := (Option.any_eq_true _ _).mp facts
  obtain ⟨idle, free, empty⟩ := of_decide_eq_true facts
  obtain ⟨s', same, balanced, -⟩ :=
    counts_balance (Reach.exec (Reach.start (M := machine Bool) rfl) done)
  obtain rfl := Option.some.inj same
  exact ⟨s, done, idle, free, empty, balanced⟩

end Counts

end ProjectsCpp.ConcurrentMemoryPool
