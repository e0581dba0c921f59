import ProjectsCpp.ConcurrentMemoryPool.PageSpans

/-! What `_NewSpan` does to any page cache that is in order: an exact hit, a split of a bigger span,
or 128 pages from the system and the call again. -/

namespace ProjectsCpp.ConcurrentMemoryPool
open ProjectsCpp.Ranges

namespace PageCache

def newSpanRec (n : Nat) : List Nat → PageCache → Option (PageCache × Nat)
  | [], pc => pc.take n
  | page :: pages, pc =>
    match pc.take n with
    | some taken => some taken
    | none => newSpanRec n pages (pc.grow page)

/-- The spans in a list have its number of pages, no two spans have a page in common, and every page
is mapped to its span; of a span of more than 128 pages this is only the first one. A span is in a
list once, and `new` takes addresses that no span has. -/
structure WellFormed (pc : PageCache) : Prop where
  sized : ∀ k a, a ∈ pc.spanlist k → k < npages ∧ ∃ span, pc.spans a = some span ∧ span.npage = k
  once : ∀ k, (pc.spanlist k).Nodup
  apart : ∀ a b span other p, pc.spans a = some span → pc.spans b = some other →
    span.pages.Has p → other.pages.Has p → a = b
  mapped : ∀ a span p, pc.spans a = some span → span.pages.Has p →
    (span.npage < npages ∨ p = span.pageid) → pc.idspanmap p = some a
  fresh : ∀ a, pc.fresh ≤ a → pc.spans a = none

def FreePage (pc : PageCache) (p : Nat) : Prop :=
  ∃ k a span, a ∈ pc.spanlist k ∧ pc.spans a = some span ∧ span.pages.Has p

variable {pc pc' : PageCache} {a k n p page : Nat} {span : Span}

theorem WellFormed.listed_once (wf : pc.WellFormed) {j : Nat} (left : a ∈ pc.spanlist k)
    (right : a ∈ pc.spanlist j) : k = j := by
  obtain ⟨-, span, there, size⟩ := wf.sized k a left
  obtain ⟨-, other, its, size'⟩ := wf.sized j a right
  obtain rfl := Option.some.inj (there.symm.trans its)
  exact size.symm.trans size'

structure Popped (pc pc' : PageCache) (a : Nat) : Prop where
  spans : pc'.spans = pc.spans
  fresh : pc'.fresh = pc.fresh
  idspanmap : pc'.idspanmap = pc.idspanmap
  lists : ∀ j b, b ∈ pc'.spanlist j ↔ b ∈ pc.spanlist j ∧ b ≠ a
  wf : pc'.WellFormed

theorem WellFormed.popFront {rest : List Nat} (wf : pc.WellFormed)
    (there : pc.spanlist k = a :: rest) :
    ∃ pc', pc.popFront k = some (pc', a) ∧ Popped pc pc' a := by
  have inside : a ∈ pc.spanlist k := there ▸ List.mem_cons_self
  have lists : ∀ j b, b ∈ Function.update pc.spanlist k ((pc.spanlist k).erase a) j ↔
      b ∈ pc.spanlist j ∧ b ≠ a := by
    intro j b
    by_cases same : j = k
    · rw [same, Function.update_self, (wf.once k).mem_erase_iff, and_comm]
    · rw [Function.update_of_ne same]
      exact ⟨fun here => ⟨here, fun equal => same (wf.listed_once (equal ▸ here) inside)⟩, And.left⟩
  refine ⟨{ pc with spanlist := Function.update pc.spanlist k ((pc.spanlist k).erase a) }, ?_, rfl, rfl,
    rfl, lists, fun j b here => wf.sized j b ((lists j b).mp here).1, fun j => ?_, wf.apart, wf.mapped,
    wf.fresh⟩
  · have erased : pc.erase k a = _ := if_pos inside
    simp only [PageCache.popFront, there, erased, Option.map_some]
  · show (Function.update pc.spanlist k ((pc.spanlist k).erase a) j).Nodup
    rw [Function.update_apply]
    split
    · exact (wf.once k).erase a
    · exact wf.once j

theorem Popped.freePage (popped : Popped pc pc' a) (wf : pc.WellFormed)
    (there : pc.spans a = some span) : pc'.FreePage p ↔ pc.FreePage p ∧ ¬ span.pages.Has p := by
  rw [FreePage, FreePage, popped.spans]
  constructor
  · rintro ⟨k, b, other, listed, its, has⟩
    obtain ⟨inside, unlike⟩ := (popped.lists k b).mp listed
    exact ⟨⟨k, b, other, inside, its, has⟩, fun mine =>
      unlike (wf.apart b a other span p its there has mine)⟩
  · rintro ⟨⟨k, b, other, inside, its, has⟩, other_⟩
    refine ⟨k, b, other, (popped.lists k b).mpr ⟨inside, ?_⟩, its, has⟩
    rintro rfl
    exact other_ (Option.some.inj (its.symm.trans there) ▸ has)

structure NewSpan (pc pc' : PageCache) (n a : Nat) (more : Nat → Prop) (span : Span) : Prop where
  there : pc'.spans a = some span
  size : span.npage = n
  unlisted : ∀ k, a ∉ pc'.spanlist k
  mapped : ∀ p, span.pages.Has p → pc'.idspanmap p = some a
  freePages : ∀ p, pc'.FreePage p ↔ (pc.FreePage p ∨ more p) ∧ ¬ span.pages.Has p
  wf : pc'.WellFormed

theorem WellFormed.hit {rest : List Nat} (wf : pc.WellFormed) (there : pc.spanlist n = a :: rest) :
    ∃ pc' span, pc.popFront n = some (pc', a) ∧ NewSpan pc pc' n a (fun _ => False) span := by
  obtain ⟨few, span, found, size⟩ := wf.sized n a (there ▸ List.mem_cons_self)
  obtain ⟨pc', done, popped⟩ := wf.popFront there
  refine ⟨pc', span, done, popped.spans ▸ found, size, fun k listed => ((popped.lists k a).mp listed).2 rfl,
    fun p has => ?_, fun p => ?_, popped.wf⟩
  · rw [popped.idspanmap]
    exact wf.mapped a span p found has (.inl (size ▸ few))
  · rw [popped.freePage wf found, or_false]

/-- The span `a` of a list is cut in two: `splist` is new, and `left` is in the list of its size. -/
structure Halved (pc pc' : PageCache) (a : Nat) (span splist left : Span) : Prop where
  was : pc.spans a = some span
  spans : ∀ b other, pc'.spans b = some other ↔ b = a ∧ other = left ∨
    b = pc.fresh ∧ other = splist ∨ b ≠ a ∧ b ≠ pc.fresh ∧ pc.spans b = some other
  map : ∀ p, pc'.idspanmap p = if splist.pages.Has p then some pc.fresh else pc.idspanmap p
  lists : ∀ j b, b ∈ pc'.spanlist j ↔ j = left.npage ∧ b = a ∨ b ∈ pc.spanlist j ∧ b ≠ a
  once : ∀ j, (pc'.spanlist j).Nodup
  fresh : pc'.fresh = pc.fresh + 1
  halves : ∀ p, span.pages.Has p ↔ splist.pages.Has p ∨ left.pages.Has p
  between : ∀ p, splist.pages.Has p → ¬ left.pages.Has p
  few : span.npage < npages
  less : left.npage ≤ span.npage

section Halved
variable {splist left : Span}

theorem WellFormed.not_fresh (wf : pc.WellFormed) (there : pc.spans a = some span) :
    a ≠ pc.fresh := fun same =>
  nomatch (same ▸ there).symm.trans (wf.fresh _ (Nat.le_refl _))

theorem WellFormed.listed_not_fresh (wf : pc.WellFormed) (listed : a ∈ pc.spanlist k) :
    a ≠ pc.fresh := by
  obtain ⟨-, span, there, -⟩ := wf.sized k a listed
  exact wf.not_fresh there

theorem Halved.unlisted (halved : Halved pc pc' a span splist left) (wf : pc.WellFormed) :
    pc.fresh ∉ pc'.spanlist k := by
  intro listed
  rcases (halved.lists k pc.fresh).mp listed with ⟨-, same⟩ | ⟨inside, -⟩
  · exact wf.not_fresh halved.was same.symm
  · exact wf.listed_not_fresh inside rfl

theorem Halved.freePage (halved : Halved pc pc' a span splist left) (wf : pc.WellFormed)
    (inside : a ∈ pc.spanlist k) : pc'.FreePage p ↔ pc.FreePage p ∧ ¬ splist.pages.Has p := by
  rw [FreePage, FreePage]
  constructor
  · rintro ⟨j, b, other, listed, its, has⟩
    rcases (halved.spans b other).mp its with ⟨rfl, rfl⟩ | ⟨rfl, rfl⟩ | ⟨unlike, -, its⟩
    · exact ⟨⟨k, b, span, inside, halved.was, (halved.halves p).mpr (.inr has)⟩,
        fun mine => halved.between p mine has⟩
    · exact absurd listed (halved.unlisted wf)
    · rcases (halved.lists j b).mp listed with ⟨-, same⟩ | ⟨listed, -⟩
      · exact absurd same unlike
      · exact ⟨⟨j, b, other, listed, its, has⟩, fun mine => unlike
          (wf.apart b a other span p its halved.was has ((halved.halves p).mpr (.inl mine)))⟩
  · rintro ⟨⟨j, b, other, listed, its, has⟩, outside⟩
    by_cases same : b = a
    · subst same
      obtain rfl := Option.some.inj (its.symm.trans halved.was)
      exact ⟨left.npage, b, left, (halved.lists _ b).mpr (.inl ⟨rfl, rfl⟩),
        (halved.spans b left).mpr (.inl ⟨rfl, rfl⟩),
        ((halved.halves p).mp has).resolve_left outside⟩
    · exact ⟨j, b, other, (halved.lists j b).mpr (.inr ⟨listed, same⟩),
        (halved.spans b other).mpr (.inr (.inr ⟨same, wf.listed_not_fresh listed, its⟩)), has⟩

theorem Halved.wellFormed (halved : Halved pc pc' a span splist left) (wf : pc.WellFormed) :
    pc'.WellFormed where
  sized j b listed := by
    rcases (halved.lists j b).mp listed with ⟨rfl, rfl⟩ | ⟨inside, unlike⟩
    · exact ⟨Nat.lt_of_le_of_lt halved.less halved.few, left,
        (halved.spans b left).mpr (.inl ⟨rfl, rfl⟩), rfl⟩
    · obtain ⟨few, other, its, same⟩ := wf.sized j b inside
      exact ⟨few, other,
        (halved.spans b other).mpr (.inr (.inr ⟨unlike, wf.not_fresh its, its⟩)), same⟩
  once := halved.once
  apart b c one two p its hers mine has := by
    have key := wf.apart
    have was := halved.was
    have halves := halved.halves p
    have between := halved.between p
    rw [halved.spans] at its hers
    grind
  mapped b other p its has covered := by
    have key := wf.mapped
    have apart := wf.apart
    have was := halved.was
    have few := halved.few
    have halves := halved.halves p
    have between := halved.between p
    rw [halved.spans] at its
    rw [halved.map]
    grind
  fresh b above := by
    rw [halved.fresh] at above
    have none_ := wf.fresh b (by omega)
    rw [Option.eq_none_iff_forall_ne_some]
    intro other its
    rcases (halved.spans b other).mp its with ⟨rfl, -⟩ | ⟨rfl, -⟩ | ⟨-, -, its⟩
    · exact nomatch none_.symm.trans halved.was
    · omega
    · exact nomatch none_.symm.trans its

end Halved

theorem WellFormed.split {rest : List Nat} {i : Nat} (wf : pc.WellFormed)
    (there : pc.spanlist i = a :: rest) (less : n < i) :
    ∃ pc' b span, pc.split n i = some (pc', b) ∧ NewSpan pc pc' n b (fun _ => False) span := by
  have inside : a ∈ pc.spanlist i := there ▸ List.mem_cons_self
  obtain ⟨few, span, found, size⟩ := wf.sized i a inside
  obtain ⟨pc₁, done, popped⟩ := wf.popFront there
  let splist : Span := ⟨span.pageid, n, [], 0, 0⟩
  let left : Span := { span with pageid := span.pageid + n, npage := span.npage - n }
  let pc₂ := (((pc₁.makeSpan splist).putSpan a left).mapPages splist.pages pc₁.fresh).pushFront
    left.npage a
  have unlike := wf.not_fresh found
  have halved : Halved pc pc₂ a span splist left := by
    refine ⟨found, fun b other => ?_, fun p => ?_, fun j b => ?_, fun j => ?_, ?_, fun p => ?_,
      fun p => ?_, size ▸ few, Nat.sub_le _ _⟩
    · show Function.update (Function.update pc₁.spans pc₁.fresh (some splist)) a (some left) b = _ ↔ _
      rw [popped.spans, popped.fresh]
      simp only [Function.update_apply]
      grind
    · show (if splist.pages.Has p then some pc₁.fresh else pc₁.idspanmap p) = _
      rw [popped.idspanmap, popped.fresh]
    · exact mem_pushFront.trans (or_congr_right (popped.lists j b))
    · show (Function.update pc₁.spanlist left.npage (a :: pc₁.spanlist left.npage) j).Nodup
      rw [Function.update_apply]
      split
      · exact List.nodup_cons.mpr
          ⟨fun inside => ((popped.lists _ a).mp inside).2 rfl, popped.wf.once _⟩
      · exact popped.wf.once j
    · exact congrArg (· + 1) popped.fresh
    · simp only [splist, left, Range.Has, Span.pages]
      omega
    · simp only [splist, left, Range.Has, Span.pages]
      omega
  refine ⟨pc₂, pc.fresh, splist, ?_, (halved.spans _ _).mpr (.inr (.inl ⟨rfl, rfl⟩)), rfl,
    fun k => halved.unlisted wf, fun p has => (halved.map p).trans (if_pos has), fun p => ?_,
    halved.wellFormed wf⟩
  · have found₁ : pc₁.spans a = some span := popped.spans ▸ found
    rw [PageCache.split, done]
    simp only [Option.bind_some, found₁, Option.map_some]
    rw [← popped.fresh]
  · rw [or_false, halved.freePage wf inside]

theorem WellFormed.take (wf : pc.WellFormed) :
    (pc.take n = none ∧ ∀ k, n ≤ k → k < npages → pc.spanlist k = []) ∨
      ∃ pc' a span, pc.take n = some (pc', a) ∧ NewSpan pc pc' n a (fun _ => False) span := by
  rw [PageCache.take]
  by_cases none : pc.spanlist n = []
  · rw [if_neg (not_not.mpr none)]
    cases found : (List.range' (n + 1) (npages - 1 - n)).find? fun i => pc.spanlist i ≠ [] with
    | none =>
      refine .inl ⟨rfl, fun k above below => ?_⟩
      rcases Nat.eq_or_lt_of_le above with rfl | above
      · exact none
      · have inside : k ∈ List.range' (n + 1) (npages - 1 - n) := by
          rw [List.mem_range'_1]
          omega
        simpa using List.find?_eq_none.mp found k inside
    | some i =>
      have some := List.find?_some found
      have inside := List.mem_of_find?_eq_some found
      rw [List.mem_range'_1] at inside
      obtain ⟨a, rest, there⟩ := List.exists_cons_of_ne_nil (of_decide_eq_true some)
      exact .inr (wf.split there inside.1)
  · rw [if_pos none]
    obtain ⟨a, rest, there⟩ := List.exists_cons_of_ne_nil none
    obtain ⟨pc', span, done, new⟩ := wf.hit there
    exact .inr ⟨pc', a, span, done, new⟩

theorem WellFormed.grow (wf : pc.WellFormed)
    (fresh : ∀ a span p, pc.spans a = some span → span.pages.Has p →
      ¬ (⟨page, npages - 1⟩ : Range).Has p) :
    (pc.grow page).WellFormed ∧ (pc.grow page).spanlist (npages - 1) ≠ [] ∧
      ∀ p, (pc.grow page).FreePage p ↔ pc.FreePage p ∨ (⟨page, npages - 1⟩ : Range).Has p := by
  let span : Span := ⟨page, npages - 1, [], 0, 0⟩
  have few : npages - 1 < npages := by decide
  have unused : pc.spans pc.fresh = none := wf.fresh _ (Nat.le_refl _)
  have spans : ∀ b other, (pc.grow page).spans b = some other ↔
      b = pc.fresh ∧ other = span ∨ b ≠ pc.fresh ∧ pc.spans b = some other := by
    intro b other
    show Function.update pc.spans pc.fresh (some span) b = _ ↔ _
    rw [Function.update_apply]
    grind
  have lists : ∀ j b, b ∈ (pc.grow page).spanlist j ↔
      j = npages - 1 ∧ b = pc.fresh ∨ b ∈ pc.spanlist j := fun j b => mem_pushFront
  have old : ∀ j b, b ∈ pc.spanlist j → b ≠ pc.fresh := fun j b listed same => by
    obtain ⟨-, other, its, -⟩ := wf.sized j b listed
    exact nomatch (same ▸ its).symm.trans unused
  refine ⟨⟨fun j b listed => ?_, fun j => ?_, ?_, ?_, fun b above => ?_⟩, ?_, fun p => ?_⟩
  · rcases (lists j b).mp listed with ⟨rfl, rfl⟩ | inside
    · exact ⟨few, span, (spans _ _).mpr (.inl ⟨rfl, rfl⟩), rfl⟩
    · obtain ⟨small, other, its, same⟩ := wf.sized j b inside
      exact ⟨small, other, (spans b other).mpr (.inr ⟨old j b inside, its⟩), same⟩
  · show (Function.update pc.spanlist (npages - 1) (pc.fresh :: pc.spanlist (npages - 1)) j).Nodup
    rw [Function.update_apply]
    split
    · exact List.nodup_cons.mpr ⟨fun inside => old _ _ inside rfl, wf.once _⟩
    · exact wf.once j
  · intro b c one two p its hers mine has
    have key := wf.apart
    have away : ∀ d other, pc.spans d = some other → other.pages.Has p → ¬ span.pages.Has p :=
      fun d other there has => fresh d other p there has
    rw [spans] at its hers
    grind
  · intro b other p its has covered
    show (if span.pages.Has p then some pc.fresh else pc.idspanmap p) = some b
    have key := wf.mapped
    have away : ∀ d other, pc.spans d = some other → other.pages.Has p → ¬ span.pages.Has p :=
      fun d other there has => fresh d other p there has
    rw [spans] at its
    grind
  · have above : pc.fresh + 1 ≤ b := above
    show Function.update pc.spans pc.fresh (some span) b = none
    rw [Function.update_of_ne (by omega)]
    exact wf.fresh b (by omega)
  · show Function.update pc.spanlist (npages - 1) _ (npages - 1) ≠ []
    rw [Function.update_self]
    exact List.cons_ne_nil _ _
  · rw [FreePage, FreePage]
    constructor
    · rintro ⟨k, b, other, listed, its, has⟩
      rcases (spans b other).mp its with ⟨rfl, rfl⟩ | ⟨other_, its⟩
      · exact .inr has
      · rcases (lists k b).mp listed with ⟨-, same⟩ | inside
        · exact absurd same other_
        · exact .inl ⟨k, b, other, inside, its, has⟩
    · rintro (⟨k, b, other, inside, its, has⟩ | has)
      · exact ⟨k, b, other, (lists k b).mpr (.inr inside),
          (spans b other).mpr (.inr ⟨old k b inside, its⟩), has⟩
      · exact ⟨npages - 1, pc.fresh, span, (lists _ _).mpr (.inl ⟨rfl, rfl⟩),
          (spans _ _).mpr (.inl ⟨rfl, rfl⟩), has⟩

/-- For every page cache in order, `_NewSpan` ends after at most one call to the system, and its
result is a span of `n` pages that are free no longer. -/
theorem newSpan_wellFormed (wf : pc.WellFormed) (few : n < npages)
    (fresh : pc.take n = none → ∀ a span p, pc.spans a = some span → span.pages.Has p →
      ¬ (⟨page, npages - 1⟩ : Range).Has p) :
    ∃ pc' a span, (∀ pages, newSpanRec n (page :: pages) pc = some (pc', a)) ∧
      pc.newSpan n page = some (pc', a) ∧
      NewSpan pc pc' n a (fun p => pc.take n = none ∧ (⟨page, npages - 1⟩ : Range).Has p) span := by
  rw [PageCache.newSpan, if_pos few]
  simp only [newSpanRec]
  rcases wf.take (n := n) with ⟨none, -⟩ | ⟨pc', a, span, done, new⟩
  · obtain ⟨wf₁, full, free⟩ := wf.grow (fresh none)
    rcases wf₁.take (n := n) with ⟨-, empty⟩ | ⟨pc', a, span, done, new⟩
    · exact absurd (empty _ (Nat.le_pred_of_lt few) (by decide)) full
    · refine ⟨pc', a, span, fun pages => ?_, ?_, { new with freePages := fun p => ?_ }⟩
      · rw [none]
        cases pages <;> simp only [newSpanRec, done]
      · rw [none, done]
      · rw [new.freePages, free, or_false, none]
        simp only [true_and]
  · refine ⟨pc', a, span, fun pages => ?_, ?_, { new with freePages := fun p => ?_ }⟩
    · rw [done]
    · rw [done]
    · rw [new.freePages, done]
      simp

theorem WellFormed.init : init.WellFormed where
  sized := fun _ _ listed => nomatch listed
  once := fun _ => List.nodup_nil
  apart := fun _ _ _ _ _ there => nomatch there
  mapped := fun _ _ _ there => nomatch there
  fresh := fun _ _ => rfl

theorem newSpan_first : ∃ pc' a span, init.newSpan 3 1000 = some (pc', a) ∧
    NewSpan init pc' 3 a (fun p => init.take 3 = none ∧ (⟨1000, 128⟩ : Range).Has p) span := by
  obtain ⟨pc', a, span, -, done, new⟩ := newSpan_wellFormed WellFormed.init
    (show 3 < npages by decide) fun _ _ _ _ there => nomatch there
  exact ⟨pc', a, span, done, new⟩

end PageCache

end ProjectsCpp.ConcurrentMemoryPool
