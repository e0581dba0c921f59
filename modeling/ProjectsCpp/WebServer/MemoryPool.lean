import ProjectsCpp.Lib.Ranges
import ProjectsCpp.Lib.Run
import Mathlib.Logic.Function.Basic
import Mathlib.Algebra.Group.Nat.Defs
import Mathlib.Algebra.Group.Int.Defs

/-! A memory pool of the web server (`memory/MemoryPool.cc`) under any number of threads. The
steps of a thread are the lock sections of `allocate` and `deAllocate` and the reads of
`freeSlot_`, `currentSlot_` and `lastSlot_` outside them. Addresses are natural numbers, 0 is
`NULL`; `operator new` gives a region apart from those it has given before. `regions` lists
those, and `out` the slots that are handed out and not given back. -/

namespace ProjectsCpp.WebServer
open ProjectsCpp.Run ProjectsCpp.Ranges

def blockSize : Nat := 4096

def headerSize : Nat := 8

/-- `blocks` and `freeSlot` are the linked lists behind `currentBolck_` and `freeSlot_`. -/
structure MemoryPool where
  slotSize : Nat
  blocks : List Nat
  currentSlot : Nat
  lastSlot : Nat
  freeSlot : List Nat

namespace MemoryPool

def init (size : Nat) : MemoryPool := ⟨size, [], 0, 0, []⟩

def padPointer (p align : Nat) : Nat := (align + 2 ^ 64 - p) % 2 ^ 64 % align

def bump (pool : MemoryPool) : MemoryPool :=
  { pool with currentSlot := pool.currentSlot + 8 * (pool.slotSize / 8) }

/-- The lock section of `allocateBlock`; the slot it uses is the `currentSlot` before the bump. -/
def linkBlock (pool : MemoryPool) (newBlock : Nat) : MemoryPool :=
  let body := newBlock + headerSize
  { pool with
    blocks := newBlock :: pool.blocks
    currentSlot := body + padPointer body pool.slotSize
    lastSlot := newBlock + blockSize - pool.slotSize + 1 }

end MemoryPool

inductive AllocStage where
  | idle
  | sawFree
  | noFree
  | readCurrent (currentSlot : Nat)
  | full
  | newBlock (block : Nat)
  | room
deriving DecidableEq

structure PoolSystem (T : Type) where
  pool : MemoryPool
  threads : T → AllocStage
  regions : List Nat
  out : List Nat

inductive PoolEvent (T : Type) where
  | allocate (t : T)
  | takeFree (t : T)
  | readCurrent (t : T)
  | readLast (t : T)
  | newBlock (t : T) (block : Nat)
  | linkBlock (t : T)
  | carve (t : T)
  | deAllocate (t : T) (p : Nat)

namespace PoolSystem
variable {T : Type}

def setStage [DecidableEq T] (s : PoolSystem T) (t : T) (stage : AllocStage) : PoolSystem T :=
  { s with threads := Function.update s.threads t stage }

theorem setStage_self [DecidableEq T] (s : PoolSystem T) (t : T) (stage : AllocStage) :
    (s.setStage t stage).threads t = stage := Function.update_self ..

theorem setStage_of_ne [DecidableEq T] {t u : T} (s : PoolSystem T) (stage : AllocStage)
    (apart : u ≠ t) : (s.setStage t stage).threads u = s.threads u := Function.update_of_ne apart ..

def handOut [DecidableEq T] (s : PoolSystem T) (t : T) (p : Nat) (pool : MemoryPool) : PoolSystem T :=
  { s.setStage t .idle with pool := pool, out := p :: s.out }

def region (b : Nat) : Range := ⟨b, blockSize⟩

def Fresh (s : PoolSystem T) (block : Nat) : Prop :=
  0 < block ∧ ∀ b ∈ s.regions, (region block).Apart (region b)

instance (s : PoolSystem T) (block : Nat) : Decidable (s.Fresh block) := by
  unfold Fresh
  infer_instance

def step [DecidableEq T] (s : PoolSystem T) : PoolEvent T → Option (PoolSystem T)
  | .allocate t =>
    if s.threads t = .idle then
      some (s.setStage t (if s.pool.freeSlot = [] then .noFree else .sawFree))
    else none
  | .takeFree t =>
    if s.threads t = .sawFree then
      match s.pool.freeSlot with
      | [] => some (s.setStage t .noFree)
      | p :: rest => some (s.handOut t p { s.pool with freeSlot := rest })
    else none
  | .readCurrent t =>
    if s.threads t = .noFree then some (s.setStage t (.readCurrent s.pool.currentSlot)) else none
  | .readLast t =>
    match s.threads t with
    | .readCurrent currentSlot =>
      some (s.setStage t (if currentSlot ≥ s.pool.lastSlot then .full else .room))
    | _ => none
  | .newBlock t block =>
    if s.threads t = .full ∧ s.Fresh block then
      some { s.setStage t (.newBlock block) with regions := block :: s.regions }
    else none
  | .linkBlock t =>
    match s.threads t with
    | .newBlock block =>
      let pool := s.pool.linkBlock block
      some (s.handOut t pool.currentSlot pool.bump)
    | _ => none
  | .carve t =>
    if s.threads t = .room then some (s.handOut t s.pool.currentSlot s.pool.bump) else none
  | .deAllocate t p =>
    if s.threads t = .idle ∧ p ∈ s.out then
      some { s with
        pool := { s.pool with freeSlot := p :: s.pool.freeSlot }
        out := s.out.erase p }
    else none

def machine (T : Type) [DecidableEq T] (id : Fin 64) : Machine (PoolSystem T) (PoolEvent T) where
  start := (· = ⟨.init (8 * (id.val + 1)), fun _ => .idle, [], []⟩)
  step := step

def slot (s : PoolSystem T) (p : Nat) : Range := ⟨p, s.pool.slotSize⟩

/-- The part of a block behind its header. -/
def body (b : Nat) : Range := ⟨b + headerSize, blockSize - headerSize⟩

/-- Every slot handed out lies in the body of one block, and no two of them meet; in particular
none is handed out twice. -/
structure Valid (s : PoolSystem T) : Prop where
  inside : ∀ p ∈ s.out, ∃ b ∈ s.pool.blocks, (s.slot p).Inside (body b)
  once : s.out.Nodup
  apart : Spread s.slot s.out

def Roomy (s : PoolSystem T) : PoolEvent T → Prop
  | .carve _ => s.pool.currentSlot < s.pool.lastSlot
  | _ => True

instance (s : PoolSystem T) (event : PoolEvent T) : Decidable (s.Roomy event) := by
  unfold Roomy
  split <;> infer_instance

/-! ### The invariant -/

def slots (s : PoolSystem T) : List Nat := s.out ++ s.pool.freeSlot

/-- The block that is cut up now has room above `currentSlot` only. -/
structure Cutting (s : PoolSystem T) (b : Nat) : Prop where
  low : b + headerSize ≤ s.pool.currentSlot
  high : s.pool.currentSlot ≤ b + blockSize
  last : s.pool.lastSlot = b + blockSize - s.pool.slotSize + 1
  below : ∀ p ∈ s.slots, (s.slot p).Inside (body b) → p + s.pool.slotSize ≤ s.pool.currentSlot

structure Sound (s : PoolSystem T) : Prop where
  size : ∃ id : Fin 64, s.pool.slotSize = 8 * (id.val + 1)
  spread : Spread region s.regions
  owned : ∀ b ∈ s.pool.blocks, b ∈ s.regions
  pending : ∀ t b, s.threads t = .newBlock b → b ∈ s.regions ∧ b ∉ s.pool.blocks
  pendingOnce : ∀ t u b, s.threads t = .newBlock b → s.threads u = .newBlock b → t = u
  cut : Spread s.slot s.slots
  inside : ∀ p ∈ s.slots, ∃ b ∈ s.pool.blocks, (s.slot p).Inside (body b)
  current : ∀ b ∈ s.pool.blocks.head?, s.Cutting b
  empty : s.pool.blocks = [] → s.pool.lastSlot = 0 ∧ ∀ t, s.threads t ≠ .room

variable {s : PoolSystem T}

theorem slotSize_bounds (sound : s.Sound) :
    0 < s.pool.slotSize ∧ s.pool.slotSize ≤ 512 ∧ 8 * (s.pool.slotSize / 8) = s.pool.slotSize := by
  obtain ⟨id, size⟩ := sound.size
  have := id.isLt
  omega

theorem body_inside_region (b : Nat) : (body b).Inside (region b) := by
  refine ⟨Nat.le_add_right _ _, ?_⟩
  dsimp only [body, region, headerSize, blockSize]
  omega

theorem Sound.valid (sound : s.Sound) : s.Valid := by
  have given : s.out.Sublist s.slots := List.sublist_append_left _ _
  have apart : Spread s.slot s.out := sound.cut.sublist given
  exact ⟨fun p member => sound.inside p (given.subset member),
    apart.nodup fun _ => (slotSize_bounds sound).1, apart⟩

theorem Sound.setStage [DecidableEq T] (sound : s.Sound) {t : T} {stage : AllocStage}
    (noBlock : ∀ b, stage ≠ .newBlock b) (room : stage = .room → s.pool.blocks ≠ []) :
    (s.setStage t stage).Sound := by
  have moved : ∀ u b, (s.setStage t stage).threads u = .newBlock b → s.threads u = .newBlock b := by
    intro u b there
    by_cases same : u = t
    · rw [same, setStage_self] at there
      exact absurd there (noBlock b)
    · rwa [setStage_of_ne s stage same] at there
  refine ⟨sound.size, sound.spread, sound.owned, fun u b there => sound.pending u b (moved u b there),
    fun u v b first second => sound.pendingOnce u v b (moved u b first) (moved v b second),
    sound.cut, sound.inside,
    fun b head => ⟨(sound.current b head).low, (sound.current b head).high,
      (sound.current b head).last, (sound.current b head).below⟩, fun none => ?_⟩
  obtain ⟨last, noRoom⟩ := sound.empty none
  refine ⟨last, fun u there => ?_⟩
  by_cases same : u = t
  · rw [same, setStage_self] at there
    exact room there none
  · rw [setStage_of_ne s stage same] at there
    exact noRoom u there

theorem Sound.exchange (sound : s.Sound) {out free : List Nat}
    (perm : (out ++ free).Perm s.slots) :
    Sound { s with out := out, pool := { s.pool with freeSlot := free } } where
  size := sound.size
  spread := sound.spread
  owned := sound.owned
  pending := sound.pending
  pendingOnce := sound.pendingOnce
  cut := sound.cut.perm perm.symm
  inside := fun p member => sound.inside p (perm.subset member)
  current := fun b head =>
    ⟨(sound.current b head).low, (sound.current b head).high, (sound.current b head).last,
      fun p member => (sound.current b head).below p (perm.subset member)⟩
  empty := sound.empty

theorem Sound.carve (sound : s.Sound) {b : Nat} (head : b ∈ s.pool.blocks.head?)
    (roomy : s.pool.currentSlot < s.pool.lastSlot) :
    Sound { s with out := s.pool.currentSlot :: s.out, pool := s.pool.bump } := by
  obtain ⟨low, high, last, below⟩ := sound.current b head
  obtain ⟨pos, small, size⟩ := slotSize_bounds sound
  have member : b ∈ s.pool.blocks := List.mem_of_mem_head? head
  have fits : (s.slot s.pool.currentSlot).Inside (body b) := by
    refine ⟨low, ?_⟩
    dsimp only [slot, body, headerSize, blockSize] at *
    omega
  refine ⟨sound.size, sound.spread, sound.owned, sound.pending, sound.pendingOnce, ?_, ?_, ?_, ?_⟩
  · refine spread_cons.mpr ⟨fun p there => ?_, sound.cut⟩
    obtain ⟨c, other, inside⟩ := sound.inside p there
    by_cases same : c = b
    · rw [same] at inside
      exact .inr (below p there inside)
    · exact ((sound.spread.apart (sound.owned b member) (sound.owned c other) (Ne.symm same)).inside
        (body_inside_region b) (body_inside_region c)).inside fits inside
  · intro p there
    rcases List.mem_cons.mp there with rfl | old
    · exact ⟨b, member, fits⟩
    · exact sound.inside p old
  · intro c head'
    cases Option.mem_unique head head'
    refine ⟨?_, ?_, last, ?_⟩
    · dsimp only [MemoryPool.bump]
      omega
    · have top := fits.2
      dsimp only [slot, body, headerSize, blockSize, MemoryPool.bump] at *
      omega
    · intro p there inside
      dsimp only [MemoryPool.bump]
      rcases List.mem_cons.mp there with rfl | old
      · omega
      · have := below p old inside
        omega
  · exact fun none => absurd member (none ▸ List.not_mem_nil)

theorem Sound.linkBlock (sound : s.Sound) {b : Nat} (owned : b ∈ s.regions)
    (new : b ∉ s.pool.blocks) (pending : ∀ t, s.threads t ≠ .newBlock b) :
    Sound { s with pool := s.pool.linkBlock b } ∧
      (s.pool.linkBlock b).currentSlot < (s.pool.linkBlock b).lastSlot := by
  obtain ⟨pos, small, size⟩ := slotSize_bounds sound
  have pad : MemoryPool.padPointer (b + headerSize) s.pool.slotSize < s.pool.slotSize :=
    Nat.mod_lt _ pos
  refine ⟨⟨sound.size, sound.spread, ?_, ?_, sound.pendingOnce, sound.cut, ?_, ?_, ?_⟩, ?_⟩
  · intro c member
    rcases List.mem_cons.mp member with rfl | old
    · exact owned
    · exact sound.owned c old
  · intro t c there
    refine ⟨(sound.pending t c there).1, fun member => ?_⟩
    rcases List.mem_cons.mp member with rfl | old
    · exact pending t there
    · exact (sound.pending t c there).2 old
  · intro p member
    obtain ⟨c, old, inside⟩ := sound.inside p member
    exact ⟨c, .tail _ old, inside⟩
  · intro c head
    cases Option.some.inj head
    refine ⟨?_, ?_, rfl, ?_⟩
    · exact Nat.le_add_right _ _
    · dsimp only [MemoryPool.linkBlock, headerSize, blockSize] at *
      omega
    · intro p member inside
      obtain ⟨c, old, other⟩ := sound.inside p member
      have ne : b ≠ c := fun same => new (same ▸ old)
      have apart := ((sound.spread.apart owned (sound.owned c old) ne).inside
        (body_inside_region b) (body_inside_region c)).inside inside other
      exact absurd rfl (apart.ne pos)
  · exact fun none => nomatch none
  · dsimp only [MemoryPool.linkBlock, headerSize, blockSize] at *
    omega

theorem Sound.overrun (sound : s.Sound) {b : Nat} (head : b ∈ s.pool.blocks.head?)
    (full : s.pool.lastSlot ≤ s.pool.currentSlot) :
    ∀ c ∈ s.pool.blocks, ¬ (s.slot s.pool.currentSlot).Inside (body c) := by
  intro c member inside
  obtain ⟨low, high, last, -⟩ := sound.current b head
  obtain ⟨pos, small, size⟩ := slotSize_bounds sound
  obtain ⟨start, stop⟩ := inside
  by_cases same : b = c
  · rw [← same] at stop
    dsimp only [slot, body, headerSize, blockSize] at *
    omega
  · have apart := sound.spread.apart (sound.owned b (List.mem_of_mem_head? head))
      (sound.owned c member) same
    rcases apart with before | after
    · dsimp only [slot, body, region, headerSize, blockSize] at *
      omega
    · dsimp only [slot, body, region, headerSize, blockSize] at *
      omega

section
variable [DecidableEq T] {s' : PoolSystem T} {event : PoolEvent T}

theorem Sound.idle (sound : s.Sound) (t : T) : (s.setStage t .idle).Sound :=
  sound.setStage nofun nofun

theorem Sound.step (sound : s.Sound) (roomy : s.Roomy event) (next : s.step event = some s') :
    s'.Sound := by
  cases event with
  | allocate t =>
    obtain ⟨idle, ⟨⟩⟩ := Option.ite_none_right_eq_some.mp next
    split
    · exact sound.setStage nofun nofun
    · exact sound.setStage nofun nofun
  | takeFree t =>
    obtain ⟨saw, taken⟩ := Option.ite_none_right_eq_some.mp next
    cases free : s.pool.freeSlot with
    | nil =>
      rw [free] at taken
      cases taken
      exact sound.setStage nofun nofun
    | cons p rest =>
      rw [free] at taken
      cases taken
      refine (sound.idle t).exchange ?_
      rw [slots, show (s.setStage t .idle).pool.freeSlot = p :: rest from free]
      exact List.perm_middle.symm
  | readCurrent t =>
    obtain ⟨-, ⟨⟩⟩ := Option.ite_none_right_eq_some.mp next
    exact sound.setStage nofun nofun
  | readLast t =>
    rw [PoolSystem.step] at next
    split at next
    · rename_i currentSlot read
      cases next
      split
      · exact sound.setStage nofun nofun
      · rename_i less
        refine sound.setStage nofun fun _ none => ?_
        rw [(sound.empty none).1] at less
        exact less (Nat.zero_le _)
    · cases next
  | newBlock t block =>
    obtain ⟨⟨-, -, fresh⟩, ⟨⟩⟩ := Option.ite_none_right_eq_some.mp next
    have new : block ∉ s.regions := by
      intro old
      rcases fresh block old with before | after
      · dsimp only [region, blockSize] at before
        omega
      · dsimp only [region, blockSize] at after
        omega
    have moved : ∀ u b, (s.setStage t (.newBlock block)).threads u = .newBlock b →
        (u = t ∧ b = block) ∨ s.threads u = .newBlock b := by
      intro u b there
      by_cases same : u = t
      · rw [same, setStage_self] at there
        exact .inl ⟨same, (AllocStage.newBlock.inj there).symm⟩
      · exact .inr (setStage_of_ne s _ same ▸ there)
    refine ⟨sound.size, spread_cons.mpr ⟨fresh, sound.spread⟩,
      fun b member => .tail _ (sound.owned b member), ?_, ?_, sound.cut, sound.inside,
      fun b head => ⟨(sound.current b head).low, (sound.current b head).high,
        (sound.current b head).last, (sound.current b head).below⟩, ?_⟩
    · intro u b there
      rcases moved u b there with ⟨-, rfl⟩ | old
      · exact ⟨.head _, fun linked => new (sound.owned _ linked)⟩
      · exact ⟨.tail _ (sound.pending u b old).1, (sound.pending u b old).2⟩
    · intro u v b first second
      rcases moved u b first with ⟨left, rfl⟩ | old
      · rcases moved v _ second with ⟨right, -⟩ | old
        · exact left.trans right.symm
        · exact absurd (sound.pending v _ old).1 new
      · rcases moved v b second with ⟨-, rfl⟩ | other
        · exact absurd (sound.pending u _ old).1 new
        · exact sound.pendingOnce u v b old other
    · intro none
      refine ⟨(sound.empty none).1, fun u there => ?_⟩
      by_cases same : u = t
      · rw [same] at there
        exact nomatch (setStage_self s t _).symm.trans there
      · exact (sound.empty none).2 u ((setStage_of_ne s _ same).symm.trans there)
  | linkBlock t =>
    rw [PoolSystem.step] at next
    split at next
    · rename_i block there
      cases next
      obtain ⟨owned, new⟩ := sound.pending t block there
      have moved := sound.idle t
      obtain ⟨linked, room⟩ := moved.linkBlock owned new (by
        intro u other
        by_cases same : u = t
        · rw [same] at other
          exact nomatch (setStage_self s t _).symm.trans other
        · exact same (sound.pendingOnce u t block ((setStage_of_ne s _ same).symm.trans other) there))
      exact linked.carve rfl room
    · cases next
  | carve t =>
    obtain ⟨there, ⟨⟩⟩ := Option.ite_none_right_eq_some.mp next
    cases head : s.pool.blocks.head? with
    | none => exact absurd there ((sound.empty (List.head?_eq_none_iff.mp head)).2 t)
    | some b => exact (sound.idle t).carve head roomy
  | deAllocate t p =>
    obtain ⟨⟨-, held⟩, ⟨⟩⟩ := Option.ite_none_right_eq_some.mp next
    refine sound.exchange ?_
    exact List.perm_middle.trans ((List.perm_cons_erase held).symm.append_right _)

theorem sound {id : Fin 64} (reach : Reach (machine T id) Roomy s) : s.Sound := by
  refine reach.invariant (fun s start => ?_) fun _ _ _ before roomy next => before.step roomy next
  cases start
  refine ⟨⟨id, rfl⟩, List.Pairwise.nil, nofun, nofun, nofun, List.Pairwise.nil, nofun, nofun, ?_⟩
  exact fun _ => ⟨rfl, nofun⟩

theorem Sound.overtaken (sound : s.Sound) (full : ¬ s.Roomy event)
    (next : s.step event = some s') : ¬ s'.Valid := by
  cases event with
  | carve t =>
    obtain ⟨there, ⟨⟩⟩ := Option.ite_none_right_eq_some.mp next
    intro valid
    obtain ⟨b, member, inside⟩ := valid.inside s.pool.currentSlot (.head _)
    cases head : s.pool.blocks.head? with
    | none => exact absurd there ((sound.empty (List.head?_eq_none_iff.mp head)).2 t)
    | some c => exact sound.overrun head (Nat.le_of_not_lt full) b member inside
  | _ => exact absurd trivial full

/-- The slots handed out by a pool are valid in every state of a run exactly when no slot is
carved after the last one of the block: such a run never leaves `Valid`, and the first slot
carved without room breaks it. -/
theorem slots_valid {id : Fin 64} :
    (∀ s : PoolSystem T, Reach (machine T id) Roomy s → s.Valid) ∧
    ∀ (s s' : PoolSystem T) (event : PoolEvent T), Reach (machine T id) Roomy s →
      s.step event = some s' → (s'.Valid ↔ s.Roomy event) := by
  refine ⟨fun s reach => (sound reach).valid, fun s s' event reach next => ⟨fun valid => ?_, ?_⟩⟩
  · by_contra full
    exact (sound reach).overtaken full next valid
  · exact fun roomy => ((sound reach).step roomy next).valid

end

/-- One allocation that finds no free slot and has room in the block. -/
private def cutOne (t : Bool) : List (PoolEvent Bool) :=
  [.allocate t, .readCurrent t, .readLast t, .carve t]

/-- The first allocation: a block at 4096. -/
private def firstBlock : List (PoolEvent Bool) :=
  [.allocate true, .readCurrent true, .readLast true, .newBlock true 4096, .linkBlock true]

private def freshPool : PoolSystem Bool := ⟨.init 512, fun _ => .idle, [], []⟩

theorem last_slot_taken_twice :
    ∃ s, exec (machine Bool 63) freshPool
        (firstBlock ++ cutOne true ++ cutOne true ++ cutOne true ++ cutOne true ++ cutOne true ++
          [.allocate true, .allocate false, .readCurrent true, .readCurrent false,
            .readLast true, .readLast false, .carve true, .carve false]) = some s ∧
      s.pool.blocks = [4096] ∧ 8192 ∈ s.out ∧ ¬ s.Valid := by
  have ran : (exec (machine Bool 63) freshPool
      (firstBlock ++ cutOne true ++ cutOne true ++ cutOne true ++ cutOne true ++ cutOne true ++
        [PoolEvent.allocate true, .allocate false, .readCurrent true, .readCurrent false,
          .readLast true, .readLast false, .carve true, .carve false])).any (fun s =>
            s.pool.blocks = [4096] ∧ 8192 ∈ s.out ∧ s.pool.slotSize = 512) = true := by
    decide +kernel
  obtain ⟨s, done, facts⟩ := (Option.any_eq_true _ _).mp ran
  obtain ⟨blocks, taken, size⟩ := of_decide_eq_true facts
  refine ⟨s, done, blocks, taken, fun valid => ?_⟩
  obtain ⟨b, member, inside⟩ := valid.inside 8192 taken
  rw [blocks] at member
  rw [List.mem_singleton.mp member, slot, size] at inside
  exact absurd inside (by decide)

theorem slots_valid_two_threads :
    ∃ s, execWhere (machine Bool 63) Roomy freshPool
        (firstBlock ++ cutOne true ++ cutOne false) = some s ∧
      s.out.length = 3 ∧ s.Valid := by
  have ran : (execWhere (machine Bool 63) Roomy freshPool
      (firstBlock ++ cutOne true ++ cutOne false)).any (fun s => s.out.length = 3) = true := by
    decide +kernel
  obtain ⟨s, done, length⟩ := (Option.any_eq_true _ _).mp ran
  exact ⟨s, done, of_decide_eq_true length,
    slots_valid.1 s ((Reach.start (M := machine Bool 63) rfl).execWhere done)⟩

end PoolSystem

end ProjectsCpp.WebServer
