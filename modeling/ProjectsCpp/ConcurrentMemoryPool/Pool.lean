import ProjectsCpp.ConcurrentMemoryPool.PageCache

/-! `ConcurrentAlloc` and `ConcurrentFree` with the thread caches and the central cache over the page
cache. Calls do not overlap; the rounds of `ReleaseListToSpans` and of the merging loops are steps of
their own. A list of objects stands for the chain of `NEXT_OBJ` pointers, which lie in the objects;
`_size` of a `Freelist` is the length of its list. `live` lists the blocks that clients hold. -/

namespace ProjectsCpp.ConcurrentMemoryPool
open ProjectsCpp.Run ProjectsCpp.Ranges PageCache

namespace SizeClass

def index' (size align : Nat) : Nat := (size + 2 ^ align - 1) / 2 ^ align - 1

def index (size : Nat) : Nat :=
  if size ≤ 128 then index' size 3
  else if size ≤ 1024 then index' (size - 128) 4 + 16
  else if size ≤ 8192 then index' (size - 1024) 7 + 16 + 56
  else index' (size - 8 * 1024) 10 + 16 + 56 + 56

def roundUp (bytes : Nat) : Nat :=
  if bytes ≤ 128 then roundup bytes 3
  else if bytes ≤ 1024 then roundup bytes 4
  else if bytes ≤ 8192 then roundup bytes 7
  else roundup bytes 10

def numMoveSize (size : Nat) : Nat :=
  if size = 0 then 0 else min (max (maxBytes / size) 2) 512

def numMovePage (size : Nat) : Nat := max (numMoveSize size * size / pageSize) 1

/-- The objects of the class divide a span of it, or the last one that is cut has room for `size`. -/
def LastFits (size : Nat) : Prop :=
  roundUp size ∣ numMovePage (roundUp size) * pageSize ∨
    size ≤ numMovePage (roundUp size) * pageSize % roundUp size

instance (size : Nat) : Decidable (LastFits size) := inferInstanceAs (Decidable (_ ∨ _))

end SizeClass

structure Freelist where
  list : List Nat
  maxsize : Nat

abbrev ThreadCache := Nat → Freelist

def ThreadCache.new : ThreadCache := fun _ => ⟨[], 1⟩

def Span.bytes (span : Span) : Range := ⟨span.pageid * pageSize, span.npage * pageSize⟩

structure Pool (T : Type) where
  pages : PageCache
  central : Nat → List Nat
  tlslist : T → Option ThreadCache
  live : List (Nat × Nat)

/-- What is left of a call to `ConcurrentFree`: the rounds of `ReleaseListToSpans` over a list of
objects, or those of the merging loops before them. -/
inductive Work where
  | idle
  | objects (objs : List Nat) (index : Nat)
  | merging (hand : Nat × Merging) (objs : List Nat) (index : Nat)
deriving DecidableEq

namespace Pool
open SizeClass
variable {T : Type}

/-- The loop of `GetOneSpan` over the list of its size. -/
def firstFull (pages : PageCache) : List Nat → Option (Option Nat)
  | [] => some none
  | a :: rest => (pages.spans a).bind fun span =>
    if span.list ≠ [] then some (some a) else firstFull pages rest

/-- The loop that cuts a span into objects, from `cur` on; a round for each byte there is. -/
def slice (size stop : Nat) : Nat → Nat → List Nat
  | 0, cur => [cur]
  | rounds + 1, cur => cur :: if cur + size < stop then slice size stop rounds (cur + size) else []

def getOneSpan (pool : Pool T) (size page : Nat) : Option (Pool T × Nat) :=
  (firstFull pool.pages (pool.central (index size))).bind fun found =>
    match found with
    | some a => some (pool, a)
    | none => (pool.pages.newSpan (numMovePage size) page).bind fun (pages, a) =>
      (pages.spans a).map fun span =>
        let first := span.pageid * pageSize
        let stop := first + span.npage * pageSize
        let span := { span with list := slice size stop (stop - first) first, objsize := size }
        ({ pool with
          pages := pages.putSpan a span
          central := Function.update pool.central (index size) (a :: pool.central (index size)) }, a)

def fetchRangeObj (pool : Pool T) (n size page : Nat) : Option (Pool T × List Nat) :=
  (pool.getOneSpan size page).bind fun (pool, a) => (pool.pages.spans a).map fun span =>
    let batch := span.list.take n
    let rest := span.list.drop n
    let span := { span with list := rest, usecount := span.usecount + batch.length }
    let spanlist := pool.central (index size)
    ({ pool with
      pages := pool.pages.putSpan a span
      central := if rest = [] then
          Function.update pool.central (index size) (spanlist.erase a ++ [a])
        else pool.central }, batch)

variable [DecidableEq T]

def putList (pool : Pool T) (t : T) (cache : ThreadCache) (i : Nat) (freelist : Freelist) : Pool T :=
  { pool with
    tlslist := Function.update pool.tlslist t (some (Function.update cache i freelist)) }

def handOut (pool : Pool T) (p size : Nat) : Pool T := { pool with live := (p, size) :: pool.live }

/-- `FetchFromCentralCache`, where the list of the thread is empty. -/
def fetchFromCentralCache (pool : Pool T) (t : T) (cache : ThreadCache) (i size page : Nat) :
    Option (Pool T × Nat) :=
  let maxsize := (cache i).maxsize
  (pool.fetchRangeObj (min (numMoveSize size) maxsize) size page).bind fun (pool, batch) =>
    match batch with
    | [] => none
    | start :: others =>
      let maxsize := if maxsize ≤ batch.length then maxsize + 1 else maxsize
      some (pool.putList t cache i ⟨others, maxsize⟩, start)

def allocate (pool : Pool T) (t : T) (size page : Nat) : Option (Pool T × Nat) :=
  let cache := (pool.tlslist t).getD .new
  match (cache (index size)).list with
  | p :: rest => some (pool.putList t cache (index size) ⟨rest, (cache (index size)).maxsize⟩, p)
  | [] => pool.fetchFromCentralCache t cache (index size) (roundUp size) page

def concurrentAlloc (pool : Pool T) (t : T) (size page : Nat) : Option (Pool T) :=
  if maxBytes < size then
    (pool.pages.allocBigPageObj size page).bind fun (pages, a) => (pages.spans a).map fun span =>
      { pool with pages := pages }.handOut (span.pageid * pageSize) size
  else (pool.allocate t size page).map fun (pool, p) => pool.handOut p size

def mapObjectToSpan (pages : PageCache) (p : Nat) : Option Nat := pages.idspanmap (p / pageSize)

def workOf (hand : Option (Nat × Merging)) (objs : List Nat) (i : Nat) : Work :=
  match hand with
  | none => .objects objs i
  | some hand => .merging hand objs i

def deallocate (pool : Pool T) (t : T) (p size : Nat) : Option (Pool T × Work) :=
  (pool.tlslist t).map fun cache =>
    let freelist := cache (index size)
    let list := p :: freelist.list
    if freelist.maxsize ≤ list.length then
      (pool.putList t cache (index size) ⟨[], freelist.maxsize⟩, .objects list (index size))
    else (pool.putList t cache (index size) ⟨list, freelist.maxsize⟩, .idle)

def takeBack (pool : Pool T) (p : Nat) : Pool T :=
  { pool with live := pool.live.eraseP fun block => block.1 = p }

def concurrentFree (pool : Pool T) (t : T) (p : Nat) : Option (Pool T × Work) :=
  (mapObjectToSpan pool.pages p).bind fun a => (pool.pages.spans a).bind fun span =>
    if maxBytes < span.objsize then
      (pool.pages.freeBigPageObj a).map fun (pages, hand) =>
        ({ pool.takeBack p with pages := pages }, workOf hand [] 0)
    else (pool.takeBack p).deallocate t p span.objsize

def giveBack (pool : Pool T) (p : Nat) (rest : List Nat) (i : Nat) : Option (Pool T × Work) :=
  (mapObjectToSpan pool.pages p).bind fun a => (pool.pages.spans a).bind fun span =>
    let usecount := (span.usecount + 2 ^ 64 - 1) % 2 ^ 64
    let pages := pool.pages.putSpan a { span with list := p :: span.list, usecount := usecount }
    if usecount = 0 then
      if a ∈ pool.central i then
        (pages.release a).map fun (pages, hand) =>
          ({ pool with
            pages := pages
            central := Function.update pool.central i ((pool.central i).erase a) },
            workOf hand rest i)
      else none
    else some ({ pool with pages := pages }, .objects rest i)

def round (pool : Pool T) : Work → Option (Pool T × Work)
  | .idle => some (pool, .idle)
  | .objects [] _ => some (pool, .idle)
  | .objects (p :: rest) i => pool.giveBack p rest i
  | .merging hand objs i => (pool.pages.merge hand).map fun (pages, hand) =>
    ({ pool with pages := pages }, workOf hand objs i)

def AllocFresh (pool : Pool T) (size page : Nat) : Prop :=
  if maxBytes < size then pool.pages.BigFresh size page
  else pool.pages.SpanFresh (numMovePage (roundUp size)) page

instance (pool : Pool T) (size page : Nat) : Decidable (pool.AllocFresh size page) := by
  unfold AllocFresh
  infer_instance

end Pool

structure PoolState (T : Type) where
  pool : Option (Pool T)
  work : Work

inductive PoolCall (T : Type) where
  | alloc (t : T) (size page : Nat)
  | free (t : T) (p : Nat)
  | round
deriving DecidableEq

namespace PoolState
variable {T : Type} [DecidableEq T]

def begin : PoolState T := ⟨some ⟨.init, fun _ => [], fun _ => none, []⟩, .idle⟩

def of (result : Option (Pool T × Work)) : PoolState T :=
  ⟨result.map Prod.fst, (result.map Prod.snd).getD .idle⟩

def step (s : PoolState T) (call : PoolCall T) : Option (PoolState T) :=
  s.pool.bind fun pool =>
    match s.work, call with
    | .idle, .alloc t size page =>
      if 0 < size ∧ size < 2 ^ 64 ∧ pool.AllocFresh size page then
        some ⟨pool.concurrentAlloc t size page, .idle⟩
      else none
    | .idle, .free t p =>
      if p ∈ pool.live.map Prod.fst then some (of (pool.concurrentFree t p)) else none
    | .idle, .round => none
    | work, .round => some (of (pool.round work))
    | _, _ => none

def machine (T : Type) [DecidableEq T] : Machine (PoolState T) (PoolCall T) where
  start := (· = begin)
  step := step

end PoolState

namespace Pool
variable {T : Type}

def block (b : Nat × Nat) : Range := ⟨b.1, b.2⟩

/-- Every live block lies in one span, whose pages all come from the system, and no two live blocks
meet. A span may go on from one region of the system into the next; where no two regions touch,
every block lies in one region. -/
structure Apart (pool : Pool T) : Prop where
  inside : ∀ b ∈ pool.live, ∃ a span, pool.pages.spans a = some span ∧ ¬ pool.pages.Listed a ∧
    (block b).Inside span.bytes ∧ ∀ p, span.pages.Has p → ∃ r ∈ pool.pages.regions, r.Has p
  region : (∀ r ∈ pool.pages.regions, ∀ r' ∈ pool.pages.regions, r.start + r.size ≠ r'.start) →
    ∀ b ∈ pool.live, ∃ r ∈ pool.pages.regions,
      (block b).Inside ⟨r.start * pageSize, r.size * pageSize⟩
  spread : Spread block pool.live

end Pool

namespace PoolState
open Pool
variable {T : Type} [DecidableEq T]

def BigOut (pool : Pool T) (cur b : Nat) (big : Span) : Prop :=
  ¬ pool.pages.Listed b ∧ big.usecount = 0 ∧ b ≠ cur

instance (pool : Pool T) (cur b : Nat) (big : Span) : Decidable (BigOut pool cur b big) := by
  unfold BigOut
  infer_instance

/-- The size does not overflow when it is rounded, and is of a class whose spans have room for it in
every object; who frees a small object has a thread cache; no object of more than 128 pages is freed
whose page id is not its number of pages; and no round of a release finds a big span that is handed
out and small enough to be merged at the next page. -/
def Clear (s : PoolState T) (call : PoolCall T) : Prop :=
  ∀ pool ∈ s.pool,
    match s.work, call with
    | .idle, .alloc _ size _ =>
      if maxBytes < size then size ≤ 2 ^ 64 - pageSize else SizeClass.LastFits size
    | .idle, .free t p => ∀ a ∈ mapObjectToSpan pool.pages p, ∀ span ∈ pool.pages.spans a,
      if maxBytes < span.objsize then
        npages ≤ span.objsize / pageSize → span.pageid = span.objsize / pageSize
      else (pool.tlslist t).isSome
    | .merging (cur, .prev) _ _, .round => ∀ span ∈ pool.pages.spans cur, ∀ b < pool.pages.fresh,
      ∀ big ∈ pool.pages.spans b, BigOut pool cur b big → big.pages.Has (span.pageid - 1) →
        npages - 1 < span.npage + big.npage
    | .merging (cur, .next) _ _, .round => ∀ span ∈ pool.pages.spans cur, ∀ b < pool.pages.fresh,
      ∀ big ∈ pool.pages.spans b, BigOut pool cur b big →
        big.pages.Has (span.pageid + span.npage) → npages - 1 ≤ span.npage + big.npage
    | _, _ => True

instance (s : PoolState T) (call : PoolCall T) : Decidable (s.Clear call) := by
  unfold Clear
  rcases s with ⟨_ | pool, _ | ⟨objs, i⟩ | ⟨⟨cur, _ | _⟩, objs, i⟩⟩ <;> cases call <;> infer_instance

end PoolState

end ProjectsCpp.ConcurrentMemoryPool
