import ProjectsCpp.WebServer.MemoryPool
import Mathlib.Data.List.Perm.Basic

/-! `use_Memory` and `free_Memory` over the 64 pools (`memory/MemoryPool.cc`), called by one thread.
What `operator new` would return comes with each call. -/

namespace ProjectsCpp.WebServer
open ProjectsCpp.Run ProjectsCpp.Ranges

namespace MemoryPool

def allocateBlock (pool : MemoryPool) (newBlock : Nat) : MemoryPool × Nat :=
  let pool := pool.linkBlock newBlock
  (pool.bump, pool.currentSlot)

def nofreeSolve (pool : MemoryPool) (newBlock : Nat) : MemoryPool × Nat :=
  if pool.currentSlot ≥ pool.lastSlot then pool.allocateBlock newBlock
  else (pool.bump, pool.currentSlot)

def allocate (pool : MemoryPool) (newBlock : Nat) : MemoryPool × Nat :=
  match pool.freeSlot with
  | p :: rest => ({ pool with freeSlot := rest }, p)
  | [] => pool.nofreeSolve newBlock

def deAllocate (pool : MemoryPool) (p : Nat) : MemoryPool :=
  { pool with freeSlot := p :: pool.freeSlot }

end MemoryPool

/-- `heap` has what `operator new` gave and `operator delete` has not taken back, and `live` the
regions that clients hold, with the sizes they asked for. -/
structure PoolMemory where
  pools : Fin 64 → MemoryPool
  heap : List Range
  live : List Range

inductive MemoryCall where
  | use (size given : Nat)
  | free (size p : Nat)

/-- `((size + 7) >> 3) - 1`. -/
def poolIndex (size : Nat) : Nat := (size + 7) / 8 - 1

namespace PoolMemory

def initMemoryPool : PoolMemory := ⟨fun i => .init (8 * (i.val + 1)), [], []⟩

/-- `memorypool_` has 64 elements. -/
def getMemoryPool (id : Nat) : Option (Fin 64) := if h : id < 64 then some ⟨id, h⟩ else none

/-- What a call of `use_Memory` asks of `operator new`. -/
def asks (s : PoolMemory) (size : Nat) : Option Nat :=
  if size > 512 then some size
  else (getMemoryPool (poolIndex size)).bind fun id =>
    let pool := s.pools id
    if pool.freeSlot = [] ∧ pool.currentSlot ≥ pool.lastSlot then some blockSize else none

def useMemory (s : PoolMemory) (size given : Nat) : Option (PoolMemory × Nat) :=
  if size = 0 then some (s, 0)
  else
    let heap := (s.asks size).elim s.heap fun n => ⟨given, n⟩ :: s.heap
    if size > 512 then some ({ s with heap := heap, live := ⟨given, size⟩ :: s.live }, given)
    else (getMemoryPool (poolIndex size)).map fun id =>
      let (pool, p) := (s.pools id).allocate given
      (⟨Function.update s.pools id pool, heap, ⟨p, size⟩ :: s.live⟩, p)

def freeMemory (s : PoolMemory) (size p : Nat) : Option PoolMemory :=
  if p = 0 then some s
  else if size > 512 then
    some { s with heap := s.heap.erase ⟨p, size⟩, live := s.live.erase ⟨p, size⟩ }
  else (getMemoryPool (poolIndex size)).map fun id =>
    { s with
      pools := Function.update s.pools id ((s.pools id).deAllocate p)
      live := s.live.erase ⟨p, size⟩ }

def step (s : PoolMemory) : MemoryCall → Option PoolMemory
  | .use size given => (s.useMemory size given).map Prod.fst
  | .free size p => s.freeMemory size p

def machine : Machine PoolMemory MemoryCall where
  start := (· = initMemoryPool)
  step := step

/-- What `operator new` promises: a region of `n` bytes, aligned, and apart from the others. -/
def Promised (s : PoolMemory) (n given : Nat) : Prop :=
  0 < given ∧ given % 16 = 0 ∧ given + n ≤ 2 ^ 64 ∧ ∀ r ∈ s.heap, Range.Apart ⟨given, n⟩ r

instance (s : PoolMemory) (n given : Nat) : Decidable (s.Promised n given) :=
  inferInstanceAs (Decidable (_ ∧ _ ∧ _ ∧ _))

def Called (s : PoolMemory) : MemoryCall → Prop
  | .use size given => 1 ≤ size ∧ ∀ n ∈ s.asks size, s.Promised n given
  | .free size p => ⟨p, size⟩ ∈ s.live

instance (s : PoolMemory) (a : MemoryCall) : Decidable (s.Called a) := by
  unfold Called
  split <;> infer_instance

/-! ### The invariant -/

def slotsOf (live : List Range) (id : Fin 64) : List Nat :=
  (live.filter fun r => r.size ≤ 512 ∧ poolIndex r.size = id.val).map Range.start

def poolSystem (pool : MemoryPool) (out : List Nat) : PoolSystem Unit :=
  ⟨pool, fun _ => .idle, pool.blocks, out⟩

structure AlignedPool (pool : MemoryPool) : Prop where
  current : pool.currentSlot % 8 = 0
  free : ∀ p ∈ pool.freeSlot, p % 8 = 0

structure Kept (s : PoolMemory) : Prop where
  pool : ∀ id, (poolSystem (s.pools id) (slotsOf s.live id)).Sound
  size : ∀ id, (s.pools id).slotSize = 8 * (id.val + 1)
  heap : Spread id s.heap
  blocks : ∀ id, ∀ b ∈ (s.pools id).blocks, PoolSystem.region b ∈ s.heap
  owner : ∀ i j b, b ∈ (s.pools i).blocks → b ∈ (s.pools j).blocks → i = j
  big : ∀ r ∈ s.live, 512 < r.size → r ∈ s.heap ∧
    ∀ id, ∀ b ∈ (s.pools id).blocks, r ≠ PoolSystem.region b
  live : Spread id s.live
  some_ : ∀ r ∈ s.live, 0 < r.size
  aligned : ∀ r ∈ s.live, r.start % 8 = 0
  ready : ∀ id, AlignedPool (s.pools id)

variable {s s' : PoolMemory} {id : Fin 64} {pool : MemoryPool} {live : List Range} {r : Range}
variable {size given p b : Nat}

theorem slotsOf_cons_self (small : r.size ≤ 512) (index : poolIndex r.size = id.val) :
    slotsOf (r :: live) id = r.start :: slotsOf live id := by
  unfold slotsOf
  rw [List.filter_cons, if_pos (decide_eq_true ⟨small, index⟩), List.map_cons]

theorem slotsOf_cons_other (other : ¬ (r.size ≤ 512 ∧ poolIndex r.size = id.val)) :
    slotsOf (r :: live) id = slotsOf live id := by
  unfold slotsOf
  rw [List.filter_cons, if_neg (decide_eq_true_iff.not.mpr other)]

theorem slotsOf_perm {live' : List Range} (perm : live.Perm live') (id : Fin 64) :
    (slotsOf live id).Perm (slotsOf live' id) := (perm.filter _).map _

theorem mem_slotsOf (member : r ∈ live) (small : r.size ≤ 512) (index : poolIndex r.size = id.val) :
    r.start ∈ slotsOf live id :=
  List.mem_map.mpr ⟨r, List.mem_filter.mpr ⟨member, decide_eq_true ⟨small, index⟩⟩, rfl⟩

theorem poolIndex_lt (small : size ≤ 512) : poolIndex size < 64 := by
  unfold poolIndex
  omega

theorem getMemoryPool_poolIndex (small : size ≤ 512) :
    getMemoryPool (poolIndex size) = some ⟨poolIndex size, poolIndex_lt small⟩ :=
  dif_pos (poolIndex_lt small)

theorem Kept.start : initMemoryPool.Kept where
  pool id := ⟨⟨id, rfl⟩, .nil, nofun, nofun, nofun, .nil, nofun, nofun, fun _ => ⟨rfl, nofun⟩⟩
  size _ := rfl
  heap := .nil
  blocks _ _ member := nomatch member
  owner _ _ _ member := nomatch member
  big _ member := nomatch member
  live := .nil
  some_ _ member := nomatch member
  aligned _ member := nomatch member
  ready _ := ⟨rfl, nofun⟩

theorem Kept.fits (kept : s.Kept) (index : poolIndex r.size = id.val) :
    r.Inside ⟨r.start, (s.pools id).slotSize⟩ := by
  have slot := kept.size id
  rw [← index, poolIndex] at slot
  refine ⟨Nat.le_refl _, ?_⟩
  dsimp only
  omega

theorem Kept.inside (kept : s.Kept) (id : Fin 64) (member : r ∈ s.live) (small : r.size ≤ 512)
    (index : poolIndex r.size = id.val) :
    ∃ b ∈ (s.pools id).blocks, r.Inside (PoolSystem.body b) := by
  have slot : r.start ∈ (poolSystem (s.pools id) (slotsOf s.live id)).slots :=
    List.mem_append_left _ (mem_slotsOf member small index)
  obtain ⟨b, block, inside⟩ := (kept.pool id).inside r.start slot
  exact ⟨b, block, (kept.fits index).trans inside⟩

theorem Kept.apart (kept : s.Kept) {r r' q q' : Range} (left : q ∈ s.heap) (right : q' ∈ s.heap)
    (ne : q ≠ q') (inside : r.Inside q) (inside' : r'.Inside q') : r.Apart r' :=
  (kept.heap.apart left right ne).inside inside inside'

theorem region_inj {b c : Nat} (ne : b ≠ c) : PoolSystem.region b ≠ PoolSystem.region c :=
  fun same => ne (congrArg Range.start same)

theorem Kept.handOut (kept : s.Kept) (small : size ≤ 512) (pos : 0 < size)
    (index : poolIndex size = id.val)
    (sound : (poolSystem pool (p :: slotsOf s.live id)).Sound)
    (slotSize : pool.slotSize = (s.pools id).slotSize) (blocks : pool.blocks = (s.pools id).blocks)
    (aligned : p % 8 = 0) (ready : AlignedPool pool) :
    Kept ⟨Function.update s.pools id pool, s.heap, ⟨p, size⟩ :: s.live⟩ := by
  have sameBlocks : ∀ j, (Function.update s.pools id pool j).blocks = (s.pools j).blocks :=
    (Function.forall_update_iff s.pools fun j pool => pool.blocks = (s.pools j).blocks).mpr
      ⟨blocks, fun _ _ => rfl⟩
  have fits : Range.Inside ⟨p, size⟩ ⟨p, pool.slotSize⟩ := by
    rw [slotSize]
    exact kept.fits (r := ⟨p, size⟩) index
  refine ⟨?_, ?_, kept.heap, fun j b member => ?_, fun i j b first second => ?_,
    fun r member large => ?_, ?_, fun r member => ?_, fun r member => ?_, ?_⟩
  · refine (Function.forall_update_iff s.pools fun j pool =>
      (poolSystem pool (slotsOf (⟨p, size⟩ :: s.live) j)).Sound).mpr ⟨?_, fun j other => ?_⟩
    · rw [slotsOf_cons_self small index]
      exact sound
    · rw [slotsOf_cons_other fun both => other (Fin.ext (both.2.symm.trans index))]
      exact kept.pool j
  · exact (Function.forall_update_iff s.pools fun j pool => pool.slotSize = 8 * (j.val + 1)).mpr
      ⟨slotSize.trans (kept.size id), fun j _ => kept.size j⟩
  · exact kept.blocks j b (sameBlocks j ▸ member)
  · exact kept.owner i j b (sameBlocks i ▸ first) (sameBlocks j ▸ second)
  · rcases List.mem_cons.mp member with rfl | old
    · exact absurd small (Nat.not_le.mpr large)
    · obtain ⟨inside, noBlock⟩ := kept.big r old large
      exact ⟨inside, fun j b member => noBlock j b (sameBlocks j ▸ member)⟩
  · refine spread_cons.mpr ⟨fun r member => ?_, kept.live⟩
    obtain ⟨b, block, home⟩ := sound.inside p (.head _)
    have block : b ∈ (s.pools id).blocks := blocks ▸ block
    have home : Range.Inside ⟨p, size⟩ (PoolSystem.body b) := fits.trans home
    have homeRegion := home.trans (PoolSystem.body_inside_region b)
    by_cases large : 512 < r.size
    · obtain ⟨inside, noBlock⟩ := kept.big r member large
      exact kept.apart (kept.blocks id b block) inside (noBlock id b block).symm homeRegion
        (.refl r)
    · have small' : r.size ≤ 512 := Nat.not_lt.mp large
      obtain ⟨c, block', home'⟩ := kept.inside ⟨_, poolIndex_lt small'⟩ member small' rfl
      by_cases same : b = c
      · -- Two slots of one pool.
        have pools := kept.owner _ _ b block (same ▸ block')
        have index' : poolIndex r.size = id.val := (congrArg Fin.val pools).symm
        have apart := (spread_cons.mp sound.cut).1 r.start
          (List.mem_append_left _ (mem_slotsOf member small' index'))
        refine apart.inside fits ?_
        show r.Inside ⟨r.start, pool.slotSize⟩
        rw [slotSize]
        exact kept.fits index'
      · exact kept.apart (kept.blocks id b block) (kept.blocks _ c block') (region_inj same)
          homeRegion (home'.trans (PoolSystem.body_inside_region c))
  · rcases List.mem_cons.mp member with rfl | old
    · exact pos
    · exact kept.some_ r old
  · rcases List.mem_cons.mp member with rfl | old
    · exact aligned
    · exact kept.aligned r old
  · exact (Function.forall_update_iff s.pools fun _ pool => AlignedPool pool).mpr
      ⟨ready, fun j _ => kept.ready j⟩

theorem Kept.carve (kept : s.Kept) (small : size ≤ 512) (pos : 0 < size)
    (index : poolIndex size = id.val) (room : (s.pools id).currentSlot < (s.pools id).lastSlot) :
    Kept ⟨Function.update s.pools id (s.pools id).bump, s.heap,
      ⟨(s.pools id).currentSlot, size⟩ :: s.live⟩ := by
  have ready := kept.ready id
  cases head : (s.pools id).blocks.head? with
  | none =>
    have last := ((kept.pool id).empty (List.head?_eq_none_iff.mp head)).1
    exact absurd room (by rw [show (s.pools id).lastSlot = 0 from last]; exact Nat.not_lt_zero _)
  | some b =>
    refine kept.handOut small pos index ((kept.pool id).carve head room) rfl rfl ready.current
      ⟨?_, ready.free⟩
    show ((s.pools id).currentSlot + 8 * _) % 8 = 0
    rw [Nat.add_mul_mod_self_left]
    exact ready.current

theorem Kept.takeFree (kept : s.Kept) {rest : List Nat} (small : size ≤ 512) (pos : 0 < size)
    (index : poolIndex size = id.val) (free : (s.pools id).freeSlot = p :: rest) :
    Kept ⟨Function.update s.pools id { s.pools id with freeSlot := rest }, s.heap,
      ⟨p, size⟩ :: s.live⟩ := by
  have ready := kept.ready id
  refine kept.handOut small pos index ?_ rfl rfl (ready.free p (free ▸ .head _))
    ⟨ready.current, fun q member => ready.free q (free ▸ .tail _ member)⟩
  refine (kept.pool id).exchange ?_
  rw [PoolSystem.slots, show (poolSystem (s.pools id) _).pool.freeSlot = p :: rest from free]
  exact List.perm_middle.symm

theorem padPointer_mod {p align : Nat} (p8 : p % 8 = 0) (align8 : align % 8 = 0) :
    MemoryPool.padPointer p align % 8 = 0 := by
  have divides : 8 ∣ align := Nat.dvd_of_mod_eq_zero align8
  rw [MemoryPool.padPointer, Nat.mod_mod_of_dvd _ divides]
  omega

theorem Kept.linkBlock (kept : s.Kept) (promised : s.Promised blockSize given) (id : Fin 64) :
    Kept ⟨Function.update s.pools id ((s.pools id).linkBlock given),
        PoolSystem.region given :: s.heap, s.live⟩ ∧
      ((s.pools id).linkBlock given).currentSlot < ((s.pools id).linkBlock given).lastSlot := by
  obtain ⟨-, aligned, -, apart⟩ := promised
  have new : ∀ r ∈ s.heap, r ≠ PoolSystem.region given := by
    rintro r member rfl
    exact Range.Apart.ne (apart _ member) (show 0 < blockSize by decide) rfl
  have unlinked : ∀ j, given ∉ (s.pools j).blocks := fun j member =>
    new _ (kept.blocks j given member) rfl
  have members : ∀ j b, b ∈ (Function.update s.pools id ((s.pools id).linkBlock given) j).blocks →
      b = given ∧ j = id ∨ b ∈ (s.pools j).blocks :=
    (Function.forall_update_iff s.pools fun j pool => ∀ b, b ∈ pool.blocks →
      b = given ∧ j = id ∨ b ∈ (s.pools j).blocks).mpr
        ⟨fun b member => (List.mem_cons.mp member).imp_left fun equal => ⟨equal, rfl⟩,
          fun _ _ b member => .inr member⟩
  -- The region is there before the block is linked.
  have owned : PoolSystem.Sound { poolSystem (s.pools id) (slotsOf s.live id) with
      regions := given :: (s.pools id).blocks } :=
    { kept.pool id with
      spread := spread_cons.mpr
        ⟨fun b member => apart _ (kept.blocks id b member), (kept.pool id).spread⟩
      owned := fun b member => .tail _ member
      pending := nofun
      current := fun b head =>
        have cutting := (kept.pool id).current b head
        ⟨cutting.low, cutting.high, cutting.last, cutting.below⟩ }
  obtain ⟨linked, room⟩ := owned.linkBlock (.head _) (unlinked id) nofun
  refine ⟨⟨?_, ?_, spread_cons.mpr ⟨apart, kept.heap⟩, fun j b member => ?_,
    fun i j b first second => ?_, fun r member large => ?_, kept.live, kept.some_, kept.aligned,
    ?_⟩, room⟩
  · exact (Function.forall_update_iff s.pools fun j pool =>
      (poolSystem pool (slotsOf s.live j)).Sound).mpr ⟨linked, fun j _ => kept.pool j⟩
  · exact (Function.forall_update_iff s.pools fun j pool => pool.slotSize = 8 * (j.val + 1)).mpr
      ⟨kept.size id, fun j _ => kept.size j⟩
  · rcases members j b member with ⟨rfl, -⟩ | old
    · exact .head _
    · exact .tail _ (kept.blocks j b old)
  · rcases members i b first with ⟨rfl, rfl⟩ | old
    · rcases members j b second with ⟨-, same⟩ | old'
      · exact same.symm
      · exact absurd old' (unlinked j)
    · rcases members j b second with ⟨rfl, -⟩ | old'
      · exact absurd old (unlinked i)
      · exact kept.owner i j b old old'
  · obtain ⟨inside, noBlock⟩ := kept.big r member large
    refine ⟨.tail _ inside, fun j b linked => ?_⟩
    rcases members j b linked with ⟨rfl, -⟩ | old
    · exact new r inside
    · exact noBlock j b old
  · refine (Function.forall_update_iff s.pools fun _ pool => AlignedPool pool).mpr
      ⟨⟨?_, (kept.ready id).free⟩, fun j _ => kept.ready j⟩
    have start : (given + headerSize) % 8 = 0 := by
      unfold headerSize
      omega
    have slot : (s.pools id).slotSize % 8 = 0 := by rw [kept.size id, Nat.mul_mod_right]
    have pad := padPointer_mod start slot
    show (given + headerSize + MemoryPool.padPointer _ _) % 8 = 0
    unfold headerSize at pad ⊢
    omega

theorem Kept.useLarge (kept : s.Kept) (large : 512 < size) (promised : s.Promised size given) :
    Kept ⟨s.pools, ⟨given, size⟩ :: s.heap, ⟨given, size⟩ :: s.live⟩ := by
  obtain ⟨-, aligned, -, apart⟩ := promised
  have pos : 0 < size := Nat.zero_lt_of_lt large
  have new : (⟨given, size⟩ : Range) ∉ s.heap := fun member =>
    Range.Apart.ne (apart _ member) pos rfl
  have old : ∀ j, slotsOf (⟨given, size⟩ :: s.live) j = slotsOf s.live j := fun j =>
    slotsOf_cons_other fun both => absurd both.1 (Nat.not_le.mpr large)
  refine ⟨fun j => ?_, kept.size, spread_cons.mpr ⟨apart, kept.heap⟩,
    fun j b member => .tail _ (kept.blocks j b member), kept.owner, fun r member large' => ?_,
    spread_cons.mpr ⟨fun r member => ?_, kept.live⟩, fun r member => ?_, fun r member => ?_,
    kept.ready⟩
  · show (poolSystem (s.pools j) (slotsOf _ j)).Sound
    rw [old]
    exact kept.pool j
  · rcases List.mem_cons.mp member with rfl | before
    · exact ⟨.head _, fun j b linked same => new (same ▸ kept.blocks j b linked)⟩
    · obtain ⟨inside, noBlock⟩ := kept.big r before large'
      exact ⟨.tail _ inside, noBlock⟩
  · by_cases large' : 512 < r.size
    · exact apart r (kept.big r member large').1
    · have small : r.size ≤ 512 := Nat.not_lt.mp large'
      obtain ⟨b, linked, home⟩ := kept.inside ⟨_, poolIndex_lt small⟩ member small rfl
      exact (apart _ (kept.blocks _ b linked)).inside (.refl _)
        (home.trans (PoolSystem.body_inside_region b))
  · rcases List.mem_cons.mp member with rfl | before
    · exact pos
    · exact kept.some_ r before
  · rcases List.mem_cons.mp member with rfl | before
    · show given % 8 = 0
      omega
    · exact kept.aligned r before

theorem Kept.shrink (kept : s.Kept) {heap : List Range} (sub : live.Sublist s.live)
    (slots : ∀ j, (slotsOf live j).Perm (slotsOf s.live j)) (heapSub : heap.Sublist s.heap)
    (blocks : ∀ j, ∀ b ∈ (s.pools j).blocks, PoolSystem.region b ∈ heap)
    (big : ∀ r ∈ live, 512 < r.size → r ∈ heap) : Kept ⟨s.pools, heap, live⟩ where
  pool j := (kept.pool j).exchange ((slots j).append_right _)
  size := kept.size
  heap := kept.heap.sublist heapSub
  blocks := blocks
  owner := kept.owner
  big r member large := ⟨big r member large, (kept.big r (sub.subset member) large).2⟩
  live := kept.live.sublist sub
  some_ r member := kept.some_ r (sub.subset member)
  aligned r member := kept.aligned r (sub.subset member)
  ready := kept.ready

theorem Kept.nodup (kept : s.Kept) : s.live.Nodup := by
  have positive := kept.some_
  refine List.Pairwise.imp_of_mem (fun {a b} left _ apart same => ?_) kept.live
  exact apart.ne (positive a left) same

theorem Kept.freeLarge (kept : s.Kept) (member : r ∈ s.live) (large : 512 < r.size) :
    Kept { s with heap := s.heap.erase r, live := s.live.erase r } := by
  obtain ⟨-, noBlock⟩ := kept.big r member large
  refine kept.shrink List.erase_sublist (fun j => ?_) List.erase_sublist (fun j b linked => ?_)
    fun q inside large' => ?_
  · have perm := slotsOf_perm (List.perm_cons_erase member) j
    rw [slotsOf_cons_other fun both => absurd both.1 (Nat.not_le.mpr large)] at perm
    exact perm.symm
  · exact (List.mem_erase_of_ne (noBlock j b linked).symm).mpr (kept.blocks j b linked)
  · obtain ⟨other, old⟩ := (kept.nodup.mem_erase_iff).mp inside
    exact (List.mem_erase_of_ne other).mpr (kept.big q old large').1

theorem Kept.freeSmall (kept : s.Kept) (member : r ∈ s.live) (small : r.size ≤ 512)
    (index : poolIndex r.size = id.val) :
    Kept { s with
      pools := Function.update s.pools id ((s.pools id).deAllocate r.start)
      live := s.live.erase r } := by
  have blocks : ∀ j, (Function.update s.pools id ((s.pools id).deAllocate r.start) j).blocks =
      (s.pools j).blocks :=
    (Function.forall_update_iff s.pools fun j pool => pool.blocks = (s.pools j).blocks).mpr
      ⟨rfl, fun _ _ => rfl⟩
  have sub : (s.live.erase r).Sublist s.live := List.erase_sublist
  refine ⟨?_, ?_, kept.heap, fun j b linked => ?_, fun i j b first second => ?_,
    fun q inside large => ?_, kept.live.sublist sub,
    fun q inside => kept.some_ q (sub.subset inside),
    fun q inside => kept.aligned q (sub.subset inside), ?_⟩
  · have perm := slotsOf_perm (List.perm_cons_erase member)
    refine (Function.forall_update_iff s.pools fun j pool =>
      (poolSystem pool (slotsOf (s.live.erase r) j)).Sound).mpr ⟨?_, fun j other => ?_⟩
    · have mine := perm id
      rw [slotsOf_cons_self small index] at mine
      exact (kept.pool id).exchange (List.perm_middle.trans (mine.symm.append_right _))
    · have others := perm j
      rw [slotsOf_cons_other fun both => other (Fin.ext (both.2.symm.trans index))] at others
      exact (kept.pool j).exchange (others.symm.append_right _)
  · exact (Function.forall_update_iff s.pools fun j pool => pool.slotSize = 8 * (j.val + 1)).mpr
      ⟨kept.size id, fun j _ => kept.size j⟩
  · exact kept.blocks j b (blocks j ▸ linked)
  · exact kept.owner i j b (blocks i ▸ first) (blocks j ▸ second)
  · obtain ⟨there, noBlock⟩ := kept.big q (sub.subset inside) large
    exact ⟨there, fun j b linked => noBlock j b (blocks j ▸ linked)⟩
  · refine (Function.forall_update_iff s.pools fun _ pool => AlignedPool pool).mpr
      ⟨⟨(kept.ready id).current, fun p free => ?_⟩, fun j _ => kept.ready j⟩
    rcases List.mem_cons.mp free with rfl | old
    · exact kept.aligned r member
    · exact (kept.ready id).free p old

theorem Kept.useMemory (kept : s.Kept) (pos : 1 ≤ size)
    (promised : ∀ n ∈ s.asks size, s.Promised n given) :
    ∃ s' p, s.useMemory size given = some (s', p) ∧ s'.Kept ∧ s'.live = ⟨p, size⟩ :: s.live ∧
      (512 < size → p = given) := by
  have notZero : size ≠ 0 := Nat.ne_of_gt pos
  by_cases large : 512 < size
  · have asked : s.asks size = some size := if_pos large
    refine ⟨_, given, ?_, kept.useLarge large (promised size asked), rfl, fun _ => rfl⟩
    rw [PoolMemory.useMemory, if_neg notZero, asked]
    exact if_pos large
  · have small : size ≤ 512 := Nat.not_lt.mp large
    have found := getMemoryPool_poolIndex small
    generalize at_ : (⟨poolIndex size, poolIndex_lt small⟩ : Fin 64) = id at found
    have index : poolIndex size = id.val := at_ ▸ rfl
    have asked : s.asks size = if (s.pools id).freeSlot = [] ∧
        (s.pools id).currentSlot ≥ (s.pools id).lastSlot then some blockSize else none := by
      rw [asks, if_neg large, found]
      rfl
    have used : s.useMemory size given = some (⟨Function.update s.pools id
        ((s.pools id).allocate given).1, (s.asks size).elim s.heap fun n => ⟨given, n⟩ :: s.heap,
        ⟨((s.pools id).allocate given).2, size⟩ :: s.live⟩, ((s.pools id).allocate given).2) := by
      rw [PoolMemory.useMemory, if_neg notZero]
      dsimp only
      rw [if_neg large, found]
      rfl
    refine ⟨_, _, used, ?_, rfl, fun large' => absurd large' large⟩
    cases free : (s.pools id).freeSlot with
    | cons p rest =>
      rw [asked, if_neg (by simp [free])]
      simp only [MemoryPool.allocate, free]
      exact kept.takeFree small pos index free
    | nil =>
      by_cases full : (s.pools id).currentSlot ≥ (s.pools id).lastSlot
      · have asked' : s.asks size = some blockSize := by rw [asked, if_pos ⟨free, full⟩]
        obtain ⟨linked, room⟩ := kept.linkBlock (promised _ asked') id
        have here : Function.update s.pools id ((s.pools id).linkBlock given) id =
          (s.pools id).linkBlock given := Function.update_self ..
        have room' := room
        rw [← here] at room'
        have carved := linked.carve small pos index room'
        simp only [here, Function.update_idem] at carved
        simp only [asked', MemoryPool.allocate, free, MemoryPool.nofreeSolve, if_pos full,
          MemoryPool.allocateBlock, Option.elim_some]
        exact carved
      · rw [asked, if_neg fun both => full both.2]
        simp only [MemoryPool.allocate, free, MemoryPool.nofreeSolve, if_neg full]
        exact kept.carve small pos index (Nat.lt_of_not_le full)

theorem Kept.freeMemory (kept : s.Kept) (member : r ∈ s.live) :
    ∃ s', s.freeMemory r.size r.start = some s' ∧ s'.Kept := by
  unfold PoolMemory.freeMemory
  by_cases null : r.start = 0
  · exact ⟨s, if_pos null, kept⟩
  · rw [if_neg null]
    by_cases large : 512 < r.size
    · exact ⟨_, if_pos large, kept.freeLarge member large⟩
    · have small : r.size ≤ 512 := Nat.not_lt.mp large
      rw [if_neg large, getMemoryPool_poolIndex small]
      exact ⟨_, rfl, kept.freeSmall member small rfl⟩

theorem kept_of_reach (reach : Reach machine Called s) : s.Kept := by
  refine reach.invariant (fun s start => ?_) fun s call s' kept called next => ?_
  · cases start
    exact .start
  · cases call with
    | use size given =>
      obtain ⟨t, p, used, kept', -⟩ := kept.useMemory called.1 called.2
      rw [show machine.step s (.use size given) = (s.useMemory size given).map Prod.fst from rfl,
        used] at next
      cases next
      exact kept'
    | free size p =>
      obtain ⟨t, freed, kept'⟩ := kept.freeMemory called
      cases freed.symm.trans next
      exact kept'

/-- What a region promises to its client: it is aligned, lies behind the link word of one block of
the pools or is that of `operator new`, and is apart from all that others hold. -/
structure Granted (s s' : PoolMemory) (size given p : Nat) : Prop where
  aligned : p % 8 = 0
  home : 512 < size ∧ p = given ∨ size ≤ 512 ∧ ∃ id, ∃ b ∈ (s'.pools id).blocks,
    PoolSystem.region b ∈ s'.heap ∧ Range.Inside ⟨p, size⟩ (PoolSystem.body b)
  apart : ∀ r ∈ s.live, Range.Apart ⟨p, size⟩ r

/-- In every state the index is one of the pools, every call of `use_Memory` brings a region that is
as it should be, and every live region can be given back. -/
theorem memory_granted (reach : Reach machine Called s) :
    (∀ size, 1 ≤ size → size ≤ 512 → poolIndex size < 64) ∧
      (∀ size given, 1 ≤ size → (∀ n ∈ s.asks size, s.Promised n given) →
        ∃ s' p, s.useMemory size given = some (s', p) ∧ s.Granted s' size given p) ∧
      ∀ r ∈ s.live, ∃ s', s.freeMemory r.size r.start = some s' := by
  have kept := kept_of_reach reach
  refine ⟨fun size _ small => poolIndex_lt small, fun size given pos promised => ?_,
    fun r member => ?_⟩
  · obtain ⟨s', p, used, kept', live, fromNew⟩ := kept.useMemory pos promised
    have member : (⟨p, size⟩ : Range) ∈ s'.live := live ▸ .head _
    refine ⟨s', p, used, kept'.aligned _ member, ?_, ?_⟩
    · by_cases large : 512 < size
      · exact .inl ⟨large, fromNew large⟩
      · have small : size ≤ 512 := Nat.not_lt.mp large
        obtain ⟨b, linked, home⟩ :=
          kept'.inside ⟨_, poolIndex_lt small⟩ member small rfl
        exact .inr ⟨small, _, b, linked, kept'.blocks _ b linked, home⟩
    · have spread := kept'.live
      rw [live] at spread
      exact (spread_cons.mp spread).1
  · obtain ⟨s', freed, -⟩ := kept.freeMemory member
    exact ⟨s', freed⟩

/-- Slots of 24 bytes, of which one is used again, and a region of `operator new`. -/
private def mixedCalls : List MemoryCall :=
  [.use 24 4096, .use 20 0, .use 600 16384, .free 24 4120, .use 17 0]

theorem memory_granted_mixed :
    ∃ s, execWhere machine Called initMemoryPool mixedCalls = some s ∧
      s.live = [⟨4120, 17⟩, ⟨16384, 600⟩, ⟨4144, 20⟩] ∧
      (∀ size, 1 ≤ size → size ≤ 512 → poolIndex size < 64) ∧
      (∀ size given, 1 ≤ size → (∀ n ∈ s.asks size, s.Promised n given) →
        ∃ s' p, s.useMemory size given = some (s', p) ∧ s.Granted s' size given p) ∧
      ∀ r ∈ s.live, ∃ s', s.freeMemory r.size r.start = some s' := by
  have ran : (execWhere machine Called initMemoryPool mixedCalls).any
      (fun s => s.live = [⟨4120, 17⟩, ⟨16384, 600⟩, ⟨4144, 20⟩]) = true := by
    decide +kernel
  obtain ⟨s, done, live⟩ := (Option.any_eq_true _ _).mp ran
  exact ⟨s, done, of_decide_eq_true live,
    memory_granted ((Reach.start (M := machine) rfl).execWhere done)⟩

end PoolMemory

end ProjectsCpp.WebServer
