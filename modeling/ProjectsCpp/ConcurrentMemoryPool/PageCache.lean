import ProjectsCpp.Lib.Ranges
import ProjectsCpp.Lib.Run
import Mathlib.Logic.Function.Basic
import Mathlib.Data.List.Range
import Mathlib.Algebra.Group.Nat.Defs
import Mathlib.Algebra.Group.Int.Defs

/-! The page cache of `ConcurrentMemoryPool` (`PageCache.cpp`). `size_t` and `PageID` have 64 bits.
A span is named by its address; `new Span` takes one that no span has had. A deleted span cannot be
read, and `Erase` of a span that is in no list, whose pointers are stale or null, gives `none`. The
pages that `VirtualAlloc` gives are inputs; `regions` lists those not given back. -/

namespace ProjectsCpp.ConcurrentMemoryPool
open ProjectsCpp.Run ProjectsCpp.Ranges

def maxBytes : Nat := 64 * 1024

def npages : Nat := 129

def pageSize : Nat := 2 ^ 12

structure Span where
  pageid : Nat
  npage : Nat
  list : List Nat
  objsize : Nat
  usecount : Nat
deriving DecidableEq

def Span.pages (span : Span) : Range := ⟨span.pageid, span.npage⟩

structure PageCache where
  spans : Nat → Option Span
  fresh : Nat
  spanlist : Nat → List Nat
  idspanmap : Nat → Option Nat
  regions : List Range

namespace PageCache

def init : PageCache := ⟨fun _ => none, 0, fun _ => [], fun _ => none, []⟩

def putSpan (pc : PageCache) (a : Nat) (span : Span) : PageCache :=
  { pc with spans := Function.update pc.spans a (some span) }

def makeSpan (pc : PageCache) (span : Span) : PageCache :=
  { pc.putSpan pc.fresh span with fresh := pc.fresh + 1 }

def deleteSpan (pc : PageCache) (a : Nat) : PageCache :=
  { pc with spans := Function.update pc.spans a none }

def mapPages (pc : PageCache) (pages : Range) (a : Nat) : PageCache :=
  { pc with idspanmap := fun p => if pages.Has p then some a else pc.idspanmap p }

def unmap (pc : PageCache) (p : Nat) : PageCache :=
  { pc with idspanmap := Function.update pc.idspanmap p none }

def pushFront (pc : PageCache) (k a : Nat) : PageCache :=
  { pc with spanlist := Function.update pc.spanlist k (a :: pc.spanlist k) }

def erase (pc : PageCache) (k a : Nat) : Option PageCache :=
  if a ∈ pc.spanlist k then
    some { pc with spanlist := Function.update pc.spanlist k ((pc.spanlist k).erase a) }
  else none

def popFront (pc : PageCache) (k : Nat) : Option (PageCache × Nat) :=
  match pc.spanlist k with
  | [] => none
  | a :: _ => (pc.erase k a).map fun pc => (pc, a)

/-- The first `n` pages of the first span in the bucket `i` become a span of their own. -/
def split (pc : PageCache) (n i : Nat) : Option (PageCache × Nat) :=
  (pc.popFront i).bind fun (pc, a) => (pc.spans a).map fun span =>
    let splist : Span := ⟨span.pageid, n, [], 0, 0⟩
    let rest : Span := { span with pageid := span.pageid + n, npage := span.npage - n }
    ((((pc.makeSpan splist).putSpan a rest).mapPages splist.pages pc.fresh).pushFront rest.npage a,
      pc.fresh)

def take (pc : PageCache) (n : Nat) : Option (PageCache × Nat) :=
  if pc.spanlist n ≠ [] then pc.popFront n
  else
    ((List.range' (n + 1) (npages - 1 - n)).find? fun i => pc.spanlist i ≠ []).bind fun i =>
      pc.split n i

/-- `_NewSpan` where the lists have nothing: 128 pages from the system. -/
def grow (pc : PageCache) (page : Nat) : PageCache :=
  let span : Span := ⟨page, npages - 1, [], 0, 0⟩
  { ((pc.makeSpan span).mapPages span.pages pc.fresh).pushFront span.npage pc.fresh with
    regions := span.pages :: pc.regions }

def newSpan (pc : PageCache) (n page : Nat) : Option (PageCache × Nat) :=
  if n < npages then
    match pc.take n with
    | some taken => some taken
    | none => (pc.grow page).take n
  else none

def roundup (size align : Nat) : Nat := (size + 2 ^ align - 1) % 2 ^ 64 / 2 ^ align * 2 ^ align

def allocBigPageObj (pc : PageCache) (size page : Nat) : Option (PageCache × Nat) :=
  if maxBytes < size then
    let size := roundup size 12
    let npage := size / pageSize
    if npage < npages then
      (pc.newSpan npage page).bind fun (pc, a) => (pc.spans a).map fun span =>
        (pc.putSpan a { span with objsize := size }, a)
    else
      let span : Span := ⟨page, npage, [], npage * pageSize, 0⟩
      some ({ (pc.makeSpan span).mapPages ⟨page, 1⟩ pc.fresh with
        regions := span.pages :: pc.regions }, pc.fresh)
  else none

def virtualFree (pc : PageCache) (page : Nat) : PageCache :=
  { pc with regions := pc.regions.filter (·.start ≠ page) }

/-- Which loop of `ReleaseSpanToPageCache` the current span is in. -/
inductive Merging where
  | prev
  | next
deriving DecidableEq

/-- The start of `ReleaseSpanToPageCache`; with the current span where the loops follow. -/
def release (pc : PageCache) (cur : Nat) : Option (PageCache × Option (Nat × Merging)) :=
  (pc.spans cur).map fun span =>
    if npages ≤ span.npage then
      (((pc.unmap span.pageid).virtualFree span.pageid).deleteSpan cur, none)
    else (pc, some (cur, .prev))

def freeBigPageObj (pc : PageCache) (a : Nat) : Option (PageCache × Option (Nat × Merging)) :=
  (pc.spans a).bind fun span =>
    let npage := span.objsize / pageSize
    if npage < npages then (pc.putSpan a { span with objsize := 0 }).release a
    else some (((pc.unmap npage).deleteSpan a).virtualFree span.pageid, none)

def mergePrev (pc : PageCache) (cur : Nat) : Option (PageCache × Option (Nat × Merging)) :=
  (pc.spans cur).bind fun span =>
    match pc.idspanmap ((span.pageid + 2 ^ 64 - 1) % 2 ^ 64) with
    | none => some (pc, some (cur, .next))
    | some p => (pc.spans p).bind fun prev =>
      if prev.usecount ≠ 0 ∨ npages - 1 < span.npage + prev.npage then some (pc, some (cur, .next))
      else
        (pc.erase prev.npage p).map fun pc =>
          (((pc.putSpan p { prev with npage := prev.npage + span.npage }).mapPages
            span.pages p).deleteSpan cur, some (p, .prev))

def mergeNext (pc : PageCache) (cur : Nat) : Option (PageCache × Option (Nat × Merging)) :=
  (pc.spans cur).bind fun span =>
    match pc.idspanmap ((span.pageid + span.npage) % 2 ^ 64) with
    | none => some (pc.pushFront span.npage cur, none)
    | some n => (pc.spans n).bind fun next =>
      if next.usecount ≠ 0 ∨ npages - 1 ≤ span.npage + next.npage then
        some (pc.pushFront span.npage cur, none)
      else
        (pc.erase next.npage n).map fun pc =>
          (((pc.putSpan cur { span with npage := span.npage + next.npage }).mapPages
            next.pages cur).deleteSpan n, some (cur, .next))

def merge (pc : PageCache) : Nat × Merging → Option (PageCache × Option (Nat × Merging))
  | (cur, .prev) => pc.mergePrev cur
  | (cur, .next) => pc.mergeNext cur

def Fresh (pc : PageCache) (pages : Range) : Prop :=
  0 < pages.start ∧ pages.start + pages.size ≤ 2 ^ 52 ∧ ∀ r ∈ pc.regions, pages.Apart r

instance (pc : PageCache) (pages : Range) : Decidable (pc.Fresh pages) := by
  unfold Fresh
  infer_instance

def SpanFresh (pc : PageCache) (n page : Nat) : Prop :=
  pc.take n = none → pc.Fresh ⟨page, npages - 1⟩

instance (pc : PageCache) (n page : Nat) : Decidable (pc.SpanFresh n page) := by
  unfold SpanFresh
  infer_instance

def BigFresh (pc : PageCache) (size page : Nat) : Prop :=
  let npage := roundup size 12 / pageSize
  if npage < npages then pc.SpanFresh npage page else pc.Fresh ⟨page, npage⟩

instance (pc : PageCache) (size page : Nat) : Decidable (pc.BigFresh size page) := by
  unfold BigFresh
  infer_instance

def Listed (pc : PageCache) (a : Nat) : Prop := ∃ k < npages, a ∈ pc.spanlist k

instance (pc : PageCache) (a : Nat) : Decidable (pc.Listed a) := by
  unfold Listed
  infer_instance

end PageCache

/-- The page cache and the release that is under way. A call that fails leaves no cache. -/
structure PageSystem where
  cache : Option PageCache
  hand : Option (Nat × PageCache.Merging)

inductive PageCall where
  | newSpan (n uses page : Nat)
  | use (a uses : Nat)
  | allocBigPageObj (size page : Nat)
  | freeBigPageObj (a : Nat)
  | release (a : Nat)
  | round
deriving DecidableEq

namespace PageSystem
open PageCache

def begin : PageSystem := ⟨some .init, none⟩

def of (result : Option (PageCache × Option (Nat × Merging))) : PageSystem :=
  ⟨result.map Prod.fst, result.bind Prod.snd⟩

/-- Each span is released once, and a span for small objects has a count above zero while it is
handed out; its last object is given back when it is released. A round is a step of its own, and
no other call comes between the rounds. -/
def step (s : PageSystem) (call : PageCall) : Option PageSystem :=
  s.cache.bind fun pc =>
    match s.hand, call with
    | some hand, .round => some (of (pc.merge hand))
    | none, .newSpan n uses page =>
      if n < npages ∧ 0 < uses ∧ pc.SpanFresh n page then
        some ⟨(pc.newSpan n page).bind fun (pc, a) => (pc.spans a).map fun span =>
          pc.putSpan a { span with usecount := uses }, none⟩
      else none
    | none, .use a uses =>
      (pc.spans a).bind fun span =>
        if 0 < span.usecount ∧ 0 < uses then
          some ⟨some (pc.putSpan a { span with usecount := uses }), none⟩
        else none
    | none, .allocBigPageObj size page =>
      if maxBytes < size ∧ size < 2 ^ 64 ∧ pc.BigFresh size page then
        some ⟨(pc.allocBigPageObj size page).map Prod.fst, none⟩
      else none
    | none, .freeBigPageObj a =>
      (pc.spans a).bind fun span =>
        if span.usecount = 0 ∧ ¬ pc.Listed a then some (of (pc.freeBigPageObj a)) else none
    | none, .release a =>
      (pc.spans a).bind fun span =>
        if ¬ pc.Listed a then some (of ((pc.putSpan a { span with usecount := 0 }).release a))
        else none
    | _, _ => none

def machine : Machine PageSystem PageCall where
  start := (· = begin)
  step := step

end PageSystem

namespace PageCache

/-- Who owns the pages: the spans, in a list or handed out, have no page in common, the lists are
sorted by size, the pages of all but the biggest spans are mapped to them, and no entry of the map
is stale. -/
structure Owned (pc : PageCache) : Prop where
  apart : ∀ a b span other p, pc.spans a = some span → pc.spans b = some other →
    span.pages.Has p → other.pages.Has p → a = b
  sized : ∀ k a, a ∈ pc.spanlist k → ∃ span, pc.spans a = some span ∧ span.npage = k
  mapped : ∀ a span p, pc.spans a = some span → span.npage < npages → span.pages.Has p →
    pc.idspanmap p = some a
  alive : ∀ p a, pc.idspanmap p = some a → pc.spans a ≠ none

end PageCache

namespace PageSystem
open PageCache

def BigOut (s : PageSystem) (pc : PageCache) (b : Nat) (big : Span) : Prop :=
  ¬ pc.Listed b ∧ big.usecount = 0 ∧ s.hand.map Prod.fst ≠ some b

/-- No round of a release finds a big span that is handed out and small enough to be merged at the
next page, and no object of more than 128 pages is freed whose page id is not its number of
pages. -/
def Clear (s : PageSystem) (call : PageCall) : Prop :=
  ∀ pc ∈ s.cache,
    match s.hand, call with
    | some (cur, .prev), .round => ∀ span ∈ pc.spans cur, ∀ b < pc.fresh, ∀ big ∈ pc.spans b,
      s.BigOut pc b big → big.pages.Has (span.pageid - 1) → npages - 1 < span.npage + big.npage
    | some (cur, .next), .round => ∀ span ∈ pc.spans cur, ∀ b < pc.fresh, ∀ big ∈ pc.spans b,
      s.BigOut pc b big → big.pages.Has (span.pageid + span.npage) →
        npages - 1 ≤ span.npage + big.npage
    | none, .freeBigPageObj a => ∀ span ∈ pc.spans a, npages ≤ span.objsize / pageSize →
      span.pageid = span.objsize / pageSize
    | _, _ => True

instance (s : PageSystem) (pc : PageCache) (b : Nat) (big : Span) : Decidable (s.BigOut pc b big) := by
  unfold BigOut
  infer_instance

instance (s : PageSystem) (call : PageCall) : Decidable (s.Clear call) := by
  unfold Clear
  rcases s with ⟨_ | pc, _ | ⟨cur, _ | _⟩⟩ <;> cases call <;> infer_instance

end PageSystem

end ProjectsCpp.ConcurrentMemoryPool
