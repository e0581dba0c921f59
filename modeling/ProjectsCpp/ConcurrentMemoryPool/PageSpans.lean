import ProjectsCpp.ConcurrentMemoryPool.PageCache

/-! What each operation of the page cache does to the spans, the lists and the page map: the parts
first, then the operations, each said with the spans that are in no list. -/

namespace ProjectsCpp.ConcurrentMemoryPool
open ProjectsCpp.Run ProjectsCpp.Ranges

namespace PageCache

/-- The page cache is in order; a span may be in no list. -/
structure Sound (pc : PageCache) : Prop where
  apart : ∀ a b span other p, pc.spans a = some span → pc.spans b = some other →
    span.pages.Has p → other.pages.Has p → a = b
  mapped : ∀ a span p, pc.spans a = some span → span.pages.Has p →
    (span.npage < npages ∨ p = span.pageid) → pc.idspanmap p = some a
  owner : ∀ p a, pc.idspanmap p = some a → ∃ span, pc.spans a = some span ∧ span.pages.Has p ∧
    (span.npage < npages ∨ p = span.pageid)
  listed : ∀ k a, a ∈ pc.spanlist k → k < npages ∧
    ∃ span, pc.spans a = some span ∧ span.npage = k ∧ span.usecount = 0
  once : ∀ k, (pc.spanlist k).Nodup
  fresh : ∀ a, pc.fresh ≤ a → pc.spans a = none
  within : ∀ a span p, pc.spans a = some span → span.pages.Has p → ∃ r ∈ pc.regions, r.Has p
  bound : ∀ a span, pc.spans a = some span → 0 < span.pageid ∧ span.pageid + span.npage ≤ 2 ^ 52
  whole : ∀ a span, pc.spans a = some span → npages ≤ span.npage → span.pages ∈ pc.regions
  spread : Spread id pc.regions

variable {pc pc' : PageCache} {a b k n p page : Nat} {span span' other : Span}

theorem Sound.owned (sound : Sound pc) : pc.Owned where
  apart := sound.apart
  sized := fun k a inside => let ⟨_, span, there, size, _⟩ := sound.listed k a inside
    ⟨span, there, size⟩
  mapped := fun a span p there few has => sound.mapped a span p there has (.inl few)
  alive := fun p a found => let ⟨_, there, _⟩ := sound.owner p a found
    there ▸ Option.some_ne_none _

theorem Sound.init : Sound init where
  apart := fun _ _ _ _ _ there => nomatch there
  mapped := fun _ _ _ there => nomatch there
  owner := fun _ _ found => nomatch found
  listed := fun _ _ inside => nomatch inside
  once := fun _ => List.nodup_nil
  fresh := fun _ _ => rfl
  within := fun _ _ _ there => nomatch there
  bound := fun _ _ there => nomatch there
  whole := fun _ _ there => nomatch there
  spread := .nil

/-! ### The parts of the operations -/

theorem Sound.put (sound : Sound pc) (there : pc.spans a = some span)
    (pages : span'.pages = span.pages) (unused : pc.Listed a → span'.usecount = 0) :
    Sound (pc.putSpan a span') := by
  have size : span'.npage = span.npage := congrArg Range.size pages
  have start : span'.pageid = span.pageid := congrArg Range.start pages
  have new : ∀ c before, (pc.putSpan a span').spans c = some before ↔
      c = a ∧ before = span' ∨ c ≠ a ∧ pc.spans c = some before := by
    intro c before
    simp only [putSpan, Function.update_apply]
    grind
  refine ⟨fun c d _ _ p one two mine hers => ?_, fun c _ p one has small => ?_,
    fun p c found => ?_, fun j c inside => ?_, sound.once, fun c above => ?_,
    fun c _ p one has => ?_, fun c _ one => ?_, fun c _ one big => ?_, sound.spread⟩
  · rw [new] at one two
    have key := sound.apart
    grind
  · rw [new] at one
    have key := sound.mapped
    show pc.idspanmap p = some c
    grind
  · have key := sound.owner p c found
    simp only [new]
    grind
  · have key := sound.listed j c inside
    have zero : c = a → span'.usecount = 0 := fun same => unused ⟨j, key.1, same ▸ inside⟩
    simp only [new]
    grind
  · have key := sound.fresh c above
    simp only [putSpan, Function.update_apply]
    grind
  · rw [new] at one
    have key := sound.within
    show ∃ r ∈ pc.regions, _
    grind
  · rw [new] at one
    have key := sound.bound
    grind
  · rw [new] at one
    have key := sound.whole
    show _ ∈ pc.regions
    grind

theorem Sound.not_listed_twice (sound : Sound pc) {j : Nat} (left : a ∈ pc.spanlist k)
    (right : a ∈ pc.spanlist j) : k = j := by
  obtain ⟨-, span, there, size, -⟩ := sound.listed k a left
  obtain ⟨-, other, its, size', -⟩ := sound.listed j a right
  obtain rfl := Option.some.inj (there.symm.trans its)
  exact size.symm.trans size'

/-- What `Erase` does: the span leaves its list, and nothing else changes. -/
structure Erased (pc pc' : PageCache) (a : Nat) : Prop where
  spans : pc'.spans = pc.spans
  fresh : pc'.fresh = pc.fresh
  idspanmap : pc'.idspanmap = pc.idspanmap
  regions : pc'.regions = pc.regions
  unlisted : ¬ pc'.Listed a
  others : ∀ b, b ≠ a → (pc'.Listed b ↔ pc.Listed b)

theorem Sound.erase (sound : Sound pc) (inside : a ∈ pc.spanlist k) :
    ∃ pc', pc.erase k a = some pc' ∧ Sound pc' ∧ Erased pc pc' a := by
  have others : ∀ j b, b ∈ Function.update pc.spanlist k ((pc.spanlist k).erase a) j ↔
      b ∈ pc.spanlist j ∧ b ≠ a := by
    intro j b
    by_cases same : j = k
    · subst same
      rw [Function.update_self, (sound.once j).mem_erase_iff, and_comm]
    · rw [Function.update_of_ne same]
      exact ⟨fun there => ⟨there, fun equal => same (sound.not_listed_twice (equal ▸ there) inside)⟩,
        And.left⟩
  have once : ∀ j, (Function.update pc.spanlist k ((pc.spanlist k).erase a) j).Nodup := fun j => by
    rw [Function.update_apply]
    split
    · exact (sound.once k).erase a
    · exact sound.once j
  refine ⟨_, if_pos inside, ⟨sound.apart, sound.mapped, sound.owner,
    fun j b there => sound.listed j b ((others j b).mp there).1, once, sound.fresh,
    sound.within, sound.bound, sound.whole, sound.spread⟩, rfl, rfl, rfl, rfl,
    fun ⟨j, _, there⟩ => ((others j a).mp there).2 rfl, fun b unlike => ?_⟩
  exact ⟨fun ⟨j, few, there⟩ => ⟨j, few, ((others j b).mp there).1⟩,
    fun ⟨j, few, there⟩ => ⟨j, few, (others j b).mpr ⟨there, unlike⟩⟩⟩

theorem mem_pushFront {j : Nat} :
    b ∈ (pc.pushFront k a).spanlist j ↔ j = k ∧ b = a ∨ b ∈ pc.spanlist j := by
  show b ∈ Function.update pc.spanlist k (a :: pc.spanlist k) j ↔ _
  rw [Function.update_apply]
  split
  · rename_i same
    subst same
    simp
  · rename_i unlike
    simp [unlike]

theorem listed_pushFront (few : k < npages) :
    (pc.pushFront k a).Listed b ↔ b = a ∨ pc.Listed b := by
  simp only [Listed, mem_pushFront]
  constructor
  · rintro ⟨j, small, ⟨-, same⟩ | there⟩
    · exact .inl same
    · exact .inr ⟨j, small, there⟩
  · rintro (same | ⟨j, small, there⟩)
    · exact ⟨k, few, .inl ⟨rfl, same⟩⟩
    · exact ⟨j, small, .inr there⟩

theorem Sound.pushFront {s : Span} (sound : Sound pc) (there : pc.spans a = some s)
    (few : s.npage < npages) (unused : s.usecount = 0) (out : ¬ pc.Listed a) :
    Sound (pc.pushFront s.npage a) := by
  refine ⟨sound.apart, sound.mapped, sound.owner, fun j b inside => ?_, fun j => ?_, sound.fresh,
    sound.within, sound.bound, sound.whole, sound.spread⟩
  · rcases mem_pushFront.mp inside with ⟨rfl, rfl⟩ | inside
    · exact ⟨few, s, there, rfl, unused⟩
    · exact sound.listed j b inside
  · show (Function.update pc.spanlist s.npage (a :: pc.spanlist s.npage) j).Nodup
    rw [Function.update_apply]
    split
    · exact List.nodup_cons.mpr ⟨fun inside => out ⟨_, few, inside⟩, sound.once _⟩
    · exact sound.once j

theorem Sound.absorb {s : Span} (sound : Sound pc) (there : pc.spans a = some span)
    (its : pc.spans b = some other) (unlike : a ≠ b) (out : ¬ pc.Listed a) (gone : ¬ pc.Listed b)
    (pages : ∀ p, s.pages.Has p ↔ span.pages.Has p ∨ other.pages.Has p)
    (few : s.npage < npages) (left : span.npage < npages)
    (start : 0 < s.pageid) (stop : s.pageid + s.npage ≤ 2 ^ 52) :
    Sound (((pc.putSpan a s).mapPages other.pages a).deleteSpan b) := by
  have new : ∀ c before, (((pc.putSpan a s).mapPages other.pages a).deleteSpan b).spans c =
      some before ↔ c ≠ b ∧ (c = a ∧ before = s ∨ c ≠ a ∧ pc.spans c = some before) := by
    intro c before
    simp only [deleteSpan, mapPages, putSpan, Function.update_apply]
    grind
  refine ⟨fun c d _ _ p one two mine hers => ?_, fun c _ p one has small => ?_,
    fun p c found => ?_, fun j c inside => ?_, sound.once, fun c above => ?_,
    fun c _ p one has => ?_, fun c _ one => ?_, fun c _ one big => ?_, sound.spread⟩
  · rw [new] at one two
    have key := sound.apart
    grind
  · rw [new] at one
    show (if other.pages.Has p then some a else pc.idspanmap p) = some c
    have key := sound.mapped
    have apart := sound.apart
    grind
  · have found : (if other.pages.Has p then some a else pc.idspanmap p) = some c := found
    have key := sound.owner p c
    have apart := sound.apart
    simp only [new]
    grind
  · have key := sound.listed j c inside
    have few : j < npages := key.1
    refine ⟨few, ?_⟩
    have other : c ≠ a := fun same => out ⟨j, few, same ▸ inside⟩
    have last : c ≠ b := fun same => gone ⟨j, few, same ▸ inside⟩
    simp only [new]
    grind
  · have key := sound.fresh c above
    simp only [deleteSpan, mapPages, putSpan, Function.update_apply]
    grind
  · rw [new] at one
    have key := sound.within
    show ∃ r ∈ pc.regions, _
    grind
  · rw [new] at one
    have key := sound.bound
    grind
  · rw [new] at one
    have key := sound.whole
    show _ ∈ pc.regions
    grind

theorem Sound.cut (sound : Sound pc) (there : pc.spans a = some span) (out : ¬ pc.Listed a)
    (few : span.npage < npages) (room : n ≤ span.npage) :
    Sound (((pc.makeSpan ⟨span.pageid, n, [], 0, 0⟩).putSpan a
      { span with pageid := span.pageid + n, npage := span.npage - n }).mapPages
        ⟨span.pageid, n⟩ pc.fresh) := by
  have unlike : a ≠ pc.fresh := fun same =>
    nomatch there.symm.trans (sound.fresh a (Nat.le_of_eq same.symm))
  have unused := sound.fresh pc.fresh (Nat.le_refl _)
  have new : ∀ c before, (((pc.makeSpan ⟨span.pageid, n, [], 0, 0⟩).putSpan a
      { span with pageid := span.pageid + n, npage := span.npage - n }).mapPages
        ⟨span.pageid, n⟩ pc.fresh).spans c = some before ↔
      c = pc.fresh ∧ before = ⟨span.pageid, n, [], 0, 0⟩ ∨
      c = a ∧ before = { span with pageid := span.pageid + n, npage := span.npage - n } ∨
      c ≠ pc.fresh ∧ c ≠ a ∧ pc.spans c = some before := by
    intro c before
    simp only [mapPages, makeSpan, putSpan, Function.update_apply]
    grind
  have first : ∀ p, (⟨span.pageid, n⟩ : Range).Has p → span.pages.Has p :=
    fun p has => ⟨has.1, Nat.lt_of_lt_of_le has.2 (Nat.add_le_add_left room _)⟩
  have last : ∀ p, (⟨span.pageid + n, span.npage - n⟩ : Range).Has p ↔
      span.pages.Has p ∧ ¬ (⟨span.pageid, n⟩ : Range).Has p := fun p => by
    simp only [Range.Has, Span.pages]
    omega
  refine ⟨fun c d _ _ p one two mine hers => ?_, fun c _ p one has small => ?_,
    fun p c found => ?_, fun j c inside => ?_, sound.once, fun c above => ?_,
    fun c _ p one has => ?_, fun c _ one => ?_, fun c _ one big => ?_, sound.spread⟩
  · rw [new] at one two
    have key := sound.apart
    simp only [Span.pages] at mine hers last first key
    grind
  · rw [new] at one
    show (if (⟨span.pageid, n⟩ : Range).Has p then some pc.fresh else pc.idspanmap p) = some c
    have key := sound.mapped
    have apart := sound.apart
    simp only [Span.pages] at has last first key apart
    grind
  · have found : (if (⟨span.pageid, n⟩ : Range).Has p then some pc.fresh else pc.idspanmap p) =
      some c := found
    split at found
    · rename_i has
      obtain rfl := Option.some.inj found
      exact ⟨_, (new _ _).mpr (.inl ⟨rfl, rfl⟩), has, .inl (Nat.lt_of_le_of_lt room few)⟩
    · rename_i outside
      obtain ⟨before, one, has, size⟩ := sound.owner p c found
      by_cases same : c = a
      · subst same
        obtain rfl := Option.some.inj (there.symm.trans one)
        exact ⟨_, (new _ _).mpr (.inr (.inl ⟨rfl, rfl⟩)), (last p).mpr ⟨has, outside⟩,
          .inl (Nat.lt_of_le_of_lt (Nat.sub_le _ _) few)⟩
      · have old : c ≠ pc.fresh := fun equal => nomatch (equal ▸ one).symm.trans unused
        exact ⟨before, (new _ _).mpr (.inr (.inr ⟨old, same, one⟩)), has, size⟩
  · have key := sound.listed j c inside
    refine ⟨key.1, ?_⟩
    have other : c ≠ a := fun same => out ⟨j, key.1, same ▸ inside⟩
    simp only [new]
    grind
  · have above : pc.fresh + 1 ≤ c := above
    have key := sound.fresh c (by omega)
    simp only [mapPages, makeSpan, putSpan, Function.update_apply]
    grind
  · rw [new] at one
    have key := sound.within
    show ∃ r ∈ pc.regions, _
    simp only [Span.pages] at has last first key
    grind
  · rw [new] at one
    have key := sound.bound
    grind
  · rw [new] at one
    have key := sound.whole
    show _ ∈ pc.regions
    grind

theorem Sound.adopt {s : Span} (sound : Sound pc) (fresh : pc.Fresh s.pages) {m : Range}
    (map : ∀ p, m.Has p ↔ s.pages.Has p ∧ (s.npage < npages ∨ p = s.pageid)) :
    Sound { (pc.makeSpan s).mapPages m pc.fresh with
      regions := s.pages :: pc.regions } := by
  obtain ⟨start, stop, apart⟩ := fresh
  have unused := sound.fresh pc.fresh (Nat.le_refl _)
  have away : ∀ c before p, pc.spans c = some before → before.pages.Has p → ¬ s.pages.Has p :=
    fun c before p found has mine => by
      obtain ⟨r, inside, its⟩ := sound.within c before p found has
      exact (apart r inside).not_has mine its
  have new : ∀ c before, ((pc.makeSpan s).mapPages m pc.fresh).spans c = some before ↔
      c = pc.fresh ∧ before = s ∨ c ≠ pc.fresh ∧ pc.spans c = some before := by
    intro c before
    simp only [mapPages, makeSpan, putSpan, Function.update_apply]
    grind
  refine ⟨fun c d _ _ p one two mine hers => ?_, fun c _ p one has small => ?_,
    fun p c found => ?_, fun j c inside => ?_, sound.once, fun c above => ?_,
    fun c _ p one has => ?_, fun c _ one => ?_, fun c _ one big => ?_,
    spread_cons.mpr ⟨apart, sound.spread⟩⟩
  · have one := (new _ _).mp one
    have two := (new _ _).mp two
    have key := sound.apart
    grind
  · have one := (new _ _).mp one
    show (if m.Has p then some pc.fresh else pc.idspanmap p) = some c
    have key := sound.mapped
    grind
  · have found : (if m.Has p then some pc.fresh else pc.idspanmap p) = some c := found
    have key := sound.owner p c
    show ∃ before, ((pc.makeSpan s).mapPages m pc.fresh).spans c = some before ∧ _
    simp only [new]
    grind
  · have key := sound.listed j c inside
    refine ⟨key.1, ?_⟩
    show ∃ before, ((pc.makeSpan s).mapPages m pc.fresh).spans c = some before ∧ _
    simp only [new]
    grind
  · have above : pc.fresh + 1 ≤ c := above
    have key := sound.fresh c (by omega)
    show Function.update pc.spans pc.fresh (some s) c = none
    rw [Function.update_of_ne (by omega)]
    exact key
  · have one := (new _ _).mp one
    have key := sound.within
    show ∃ r ∈ s.pages :: pc.regions, _
    grind
  · have one := (new _ _).mp one
    have key := sound.bound
    simp only [Span.pages] at start stop
    grind
  · have one := (new _ _).mp one
    have key := sound.whole
    show _ ∈ s.pages :: pc.regions
    grind

theorem Sound.drop (sound : Sound pc) (there : pc.spans a = some span)
    (big : npages ≤ span.npage) :
    Sound (((pc.unmap span.pageid).virtualFree span.pageid).deleteSpan a) := by
  have whole := sound.whole a span there big
  have first : span.pages.Has span.pageid := ⟨Nat.le_refl _, Nat.lt_add_of_pos_right
    (Nat.lt_of_lt_of_le (by decide) big)⟩
  have new : ∀ c before, (((pc.unmap span.pageid).virtualFree span.pageid).deleteSpan a).spans c =
      some before ↔ c ≠ a ∧ pc.spans c = some before := by
    intro c before
    simp only [deleteSpan, virtualFree, unmap, Function.update_apply]
    grind
  have kept : ∀ r, r ∈ pc.regions.filter (·.start ≠ span.pageid) ↔
      r ∈ pc.regions ∧ r.start ≠ span.pageid := fun r => by simp
  have meets : ∀ r ∈ pc.regions, r.start = span.pageid → 0 < r.size → r = span.pages := by
    intro r inside start positive
    by_contra other
    refine (sound.spread.apart inside whole other).not_has (p := span.pageid) ?_ first
    exact ⟨Nat.le_of_eq start, by show span.pageid < r.start + r.size; omega⟩
  refine ⟨fun c d _ _ p one two mine hers => ?_, fun c _ p one has small => ?_,
    fun p c found => ?_, fun j c inside => ?_, sound.once, fun c above => ?_,
    fun c _ p one has => ?_, fun c _ one => ?_, fun c _ one large => ?_,
    sound.spread.sublist List.filter_sublist⟩
  · rw [new] at one two
    exact sound.apart c d _ _ p one.2 two.2 mine hers
  · rw [new] at one
    show Function.update pc.idspanmap span.pageid none p = some c
    have key := sound.mapped
    have apart := sound.apart
    rw [Function.update_apply]
    grind
  · have found : Function.update pc.idspanmap span.pageid none p = some c := found
    have key := sound.owner p c
    rw [Function.update_apply] at found
    simp only [new]
    grind
  · have key := sound.listed j c inside
    refine ⟨key.1, ?_⟩
    simp only [new]
    grind
  · show Function.update pc.spans a none c = none
    have key := sound.fresh c above
    rw [Function.update_apply]
    grind
  · rw [new] at one
    obtain ⟨r, inside, its⟩ := sound.within c _ p one.2 has
    refine ⟨r, (kept r).mpr ⟨inside, fun start => ?_⟩, its⟩
    have same := meets r inside start (by unfold Range.Has at its; omega)
    exact one.1 (sound.apart c a _ _ p one.2 there has (same ▸ its))
  · rw [new] at one
    exact sound.bound c _ one.2
  · rw [new] at one
    have inside := sound.whole c _ one.2 large
    refine (kept _).mpr ⟨inside, fun start => one.1 ?_⟩
    refine sound.apart c a _ _ span.pageid one.2 there ⟨Nat.le_of_eq start, ?_⟩ first
    have positive : 0 < npages := by decide
    have := start
    simp only [Span.pages] at this ⊢
    omega

/-! ### The operations -/

def Out (pc : PageCache) (a : Nat) (span : Span) : Prop := pc.spans a = some span ∧ ¬ pc.Listed a

/-- The span `a` comes out of the lists. -/
structure Taken (pc pc' : PageCache) (a : Nat) (span : Span) : Prop where
  sound : Sound pc'
  unused : span.usecount = 0
  out : ∀ b other, pc'.Out b other ↔ b = a ∧ other = span ∨ pc.Out b other
  new : ∀ other, ¬ pc.Out a other
  regions : pc.regions ⊆ pc'.regions

theorem Sound.popFront {rest : List Nat} (sound : Sound pc) (there : pc.spanlist k = a :: rest) :
    ∃ pc' span, pc.popFront k = some (pc', a) ∧ Taken pc pc' a span ∧ Erased pc pc' a ∧
      pc.spans a = some span ∧ span.npage = k := by
  have inside : a ∈ pc.spanlist k := there ▸ .head _
  obtain ⟨few, span, found, size, unused⟩ := sound.listed k a inside
  obtain ⟨pc', done, sound', erased⟩ := sound.erase inside
  refine ⟨pc', span, by rw [PageCache.popFront, there]; simp only [done, Option.map_some],
    ⟨sound', unused, fun b other => ?_, fun other out => out.2 ⟨k, few, inside⟩,
      erased.regions ▸ List.Subset.refl _⟩, erased, found, size⟩
  have others := erased.others b
  have unlisted := erased.unlisted
  have listed : pc.Listed a := ⟨k, few, inside⟩
  rw [Out, Out, erased.spans]
  grind

theorem Sound.split {rest : List Nat} {i : Nat} (sound : Sound pc)
    (there : pc.spanlist i = a :: rest) (less : n < i) :
    ∃ pc' b span, pc.split n i = some (pc', b) ∧ Taken pc pc' b span ∧ span.npage = n := by
  obtain ⟨pc₁, span, popped, taken, erased, found, size⟩ := sound.popFront there
  have few : i < npages := (sound.listed i a (there ▸ .head _)).1
  have found₁ : pc₁.spans a = some span := erased.spans ▸ found
  let splist : Span := ⟨span.pageid, n, [], 0, 0⟩
  let rest : Span := { span with pageid := span.pageid + n, npage := span.npage - n }
  let pc₂ := ((pc₁.makeSpan splist).putSpan a rest).mapPages splist.pages pc₁.fresh
  have sound₂ : Sound pc₂ :=
    taken.sound.cut found₁ erased.unlisted (size ▸ few) (size ▸ Nat.le_of_lt less)
  have unlike : a ≠ pc₁.fresh := fun same =>
    nomatch found₁.symm.trans (taken.sound.fresh a (Nat.le_of_eq same.symm))
  have spans : ∀ b, pc₂.spans b = if b = a then some rest else if b = pc₁.fresh then some splist
      else pc₁.spans b := fun b => by
    show Function.update (Function.update pc₁.spans pc₁.fresh (some splist)) a (some rest) b = _
    simp only [Function.update_apply]
  have own : pc₂.spans a = some rest := by rw [spans, if_pos rfl]
  have small : rest.npage < npages := Nat.lt_of_le_of_lt (Nat.sub_le _ _) (size ▸ few)
  have outside : ¬ pc₂.Listed a := erased.unlisted
  have noFresh : ∀ other, ¬ pc₁.Out pc₁.fresh other := fun other out =>
    nomatch out.1.symm.trans (taken.sound.fresh _ (Nat.le_refl _))
  have unlisted : ¬ pc₁.Listed pc₁.fresh := fun ⟨k, _, inside⟩ => by
    obtain ⟨-, other, its, -⟩ := taken.sound.listed k _ inside
    exact nomatch its.symm.trans (taken.sound.fresh _ (Nat.le_refl _))
  refine ⟨pc₂.pushFront rest.npage a, pc₁.fresh, splist, ?_,
    ⟨sound₂.pushFront own small taken.unused outside, rfl, fun b other => ?_, fun other out => ?_,
      taken.regions⟩, rfl⟩
  · rw [PageCache.split, popped]
    simp only [Option.bind_some, found₁, Option.map_some]
    rfl
  · have before := taken.out b other
    have new := taken.new other
    have listed : (pc₂.pushFront rest.npage a).Listed b ↔ b = a ∨ pc₁.Listed b :=
      listed_pushFront small
    have here : (pc₂.pushFront rest.npage a).spans b = pc₂.spans b := rfl
    rw [Out, listed, here, spans]
    by_cases first : b = a
    · subst first
      exact ⟨fun both => absurd (.inl rfl) both.2,
        fun which => which.elim (fun both => absurd both.1 unlike) fun out => absurd out new⟩
    · by_cases second : b = pc₁.fresh
      · subst second
        have none := fun out => noFresh other (before.mpr (.inr out))
        rw [if_neg first, if_pos rfl]
        exact ⟨fun both => .inl ⟨rfl, (Option.some.inj both.1).symm⟩, fun which =>
          which.elim (fun both => ⟨congrArg some both.2.symm, fun bad => bad.elim first unlisted⟩)
            fun out => absurd out none⟩
      · rw [if_neg first, if_neg second]
        rw [Out] at before
        grind
  · exact noFresh other ((taken.out _ _).mpr (.inr out))

theorem Sound.take (sound : Sound pc) (few : n < npages) :
    (pc.take n = none ∧ ∀ k, n ≤ k → k < npages → pc.spanlist k = []) ∨
      ∃ pc' a span, pc.take n = some (pc', a) ∧ Taken pc pc' a span ∧ span.npage = n := by
  rw [PageCache.take]
  by_cases none : pc.spanlist n = []
  · rw [if_neg (not_not.mpr none)]
    cases found : (List.range' (n + 1) (npages - 1 - n)).find? fun i => pc.spanlist i ≠ [] with
    | none =>
      refine .inl ⟨rfl, fun k above below => ?_⟩
      rcases Nat.eq_or_lt_of_le above with rfl | above
      · exact none
      · have inside : k ∈ List.range' (n + 1) (npages - 1 - n) := by
          rw [List.mem_range'_1]
          omega
        simpa using List.find?_eq_none.mp found k inside
    | some i =>
      have some := List.find?_some found
      have inside := List.mem_of_find?_eq_some found
      rw [List.mem_range'_1] at inside
      obtain ⟨a, rest, there⟩ := List.exists_cons_of_ne_nil (of_decide_eq_true some)
      obtain ⟨pc', b, span, done, taken, size⟩ := sound.split there inside.1
      exact .inr ⟨pc', b, span, done, taken, size⟩
  · rw [if_pos none]
    obtain ⟨a, rest, there⟩ := List.exists_cons_of_ne_nil none
    obtain ⟨pc', span, done, taken, -, -, size⟩ := sound.popFront there
    exact .inr ⟨pc', a, span, done, taken, size⟩

theorem Sound.grow (sound : Sound pc) (fresh : pc.Fresh ⟨page, npages - 1⟩) :
    Sound (pc.grow page) ∧ (pc.grow page).spanlist (npages - 1) ≠ [] ∧
      ∀ b other, (pc.grow page).Out b other ↔ pc.Out b other := by
  let span : Span := ⟨page, npages - 1, [], 0, 0⟩
  have few : npages - 1 < npages := by decide
  have sound₁ := sound.adopt (s := span) (m := span.pages) fresh fun p =>
    ⟨fun has => ⟨has, .inl few⟩, And.left⟩
  have unlisted : ¬ pc.Listed pc.fresh := fun ⟨k, _, inside⟩ => by
    obtain ⟨-, other, its, -⟩ := sound.listed k _ inside
    exact nomatch its.symm.trans (sound.fresh _ (Nat.le_refl _))
  refine ⟨sound₁.pushFront (s := span) (Function.update_self ..) few rfl unlisted, ?_,
    fun b other => ?_⟩
  · show Function.update pc.spanlist (npages - 1) _ (npages - 1) ≠ []
    rw [Function.update_self]
    exact List.cons_ne_nil _ _
  · have listed : (pc.grow page).Listed b ↔ b = pc.fresh ∨ pc.Listed b := listed_pushFront few
    have here : (pc.grow page).spans b = if b = pc.fresh then some span else pc.spans b :=
      Function.update_apply ..
    have unused := sound.fresh pc.fresh (Nat.le_refl _)
    rw [Out, Out, listed, here]
    grind

theorem Sound.newSpan (sound : Sound pc) (few : n < npages)
    (fresh : pc.SpanFresh n page) :
    ∃ pc' a span, pc.newSpan n page = some (pc', a) ∧ Taken pc pc' a span ∧ span.npage = n := by
  rw [PageCache.newSpan, if_pos few]
  rcases sound.take few with ⟨none, -⟩ | ⟨pc', a, span, done, taken, size⟩
  · obtain ⟨sound₁, full, out⟩ := sound.grow (fresh none)
    rw [none]
    rcases sound₁.take few with ⟨-, empty⟩ | ⟨pc', a, span, done, taken, size⟩
    · exact absurd (empty _ (Nat.le_pred_of_lt few) (by decide)) full
    · refine ⟨pc', a, span, done, ⟨taken.sound, taken.unused, fun b other => ?_, fun other => ?_,
        fun r inside => taken.regions (.tail _ inside)⟩, size⟩
      · rw [taken.out, out]
      · rw [← out]
        exact taken.new other
  · exact ⟨pc', a, span, by rw [done], taken, size⟩

/-- A round of a release: the span `next` is now the current one, in the place of `cur`. -/
structure Merged (pc pc' : PageCache) (cur next : Nat) (span' : Span) : Prop where
  sound : Sound pc'
  few : span'.npage < npages
  unused : span'.usecount = 0
  out : ∀ b other, pc'.Out b other ↔ b = next ∧ other = span' ∨ b ≠ cur ∧ pc.Out b other
  old : next = cur ∨ ∀ other, ¬ pc.Out next other
  regions : pc'.regions = pc.regions

theorem Sound.out_lt (sound : Sound pc) (out : pc.Out a span) : a < pc.fresh :=
  Nat.lt_of_not_le fun above => nomatch out.1.symm.trans (sound.fresh a above)

def Nested (pc : PageCache) (span : Span) : Prop :=
  span.npage = 0 → ∀ b other, pc.spans b = some other → other.npage < npages →
    other.pages.Has (span.pageid - 1) → other.pages.Has span.pageid → other.usecount ≠ 0

theorem Sound.mergePrev {cur : Nat} (sound : Sound pc) (out : pc.Out cur span)
    (few : span.npage < npages) (unused : span.usecount = 0)
    (clear : ∀ b big, pc.Out b big → b ≠ cur → big.usecount = 0 →
      big.pages.Has (span.pageid - 1) → npages - 1 < span.npage + big.npage) :
    (pc.mergePrev cur = some (pc, some (cur, .next)) ∧ pc.Nested span) ∨
      ∃ pc' p span', pc.mergePrev cur = some (pc', some (p, .prev)) ∧ Merged pc pc' cur p span' := by
  obtain ⟨start, stop⟩ := sound.bound cur span out.1
  have before : (span.pageid + 2 ^ 64 - 1) % 2 ^ 64 = span.pageid - 1 := by omega
  rw [PageCache.mergePrev, out.1, Option.bind_some, before]
  cases found : pc.idspanmap (span.pageid - 1) with
  | none =>
    refine .inl ⟨rfl, fun _ b other there small has _ => ?_⟩
    exact nomatch found.symm.trans (sound.mapped b other _ there has (.inl small))
  | some p =>
    obtain ⟨prev, there, has, size⟩ := sound.owner _ p found
    simp only [there, Option.bind_some]
    by_cases stops : prev.usecount ≠ 0 ∨ npages - 1 < span.npage + prev.npage
    · rw [if_pos stops]
      refine .inl ⟨rfl, fun none b other its small mine _ => ?_⟩
      obtain rfl := sound.apart b p other prev _ its there mine has
      obtain rfl := Option.some.inj (its.symm.trans there)
      rcases stops with used | large
      · exact used
      · rw [none, Nat.zero_add] at large
        unfold npages at *
        omega
    · rw [not_or, not_not, Nat.not_lt] at stops
      obtain ⟨zero, limit⟩ := stops
      have unlike : p ≠ cur := by
        rintro rfl
        obtain rfl := Option.some.inj (there.symm.trans out.1)
        unfold Range.Has Span.pages at has
        simp only at has
        omega
      have listed : pc.Listed p := by
        by_contra free
        have := clear p prev ⟨there, free⟩ unlike zero has
        omega
      obtain ⟨k, -, inside⟩ := listed
      obtain ⟨-, prev', its, rfl, -⟩ := sound.listed k p inside
      obtain rfl := Option.some.inj (there.symm.trans its)
      obtain ⟨pc₁, done, sound₁, erased⟩ := sound.erase inside
      have there₁ : pc₁.spans p = some prev := erased.spans ▸ there
      have out₁ : pc₁.Out cur span :=
        ⟨erased.spans ▸ out.1, fun listed => out.2 ((erased.others cur unlike.symm).mp listed)⟩
      have touch : span.npage = 0 ∨ prev.pageid + prev.npage = span.pageid := by
        by_contra neither
        refine unlike (sound.apart p cur prev span span.pageid there out.1 ?_ ?_)
        all_goals
          simp only [Range.Has, Span.pages] at has ⊢
          omega
      have limits := sound.bound p prev there
      let span' : Span := { prev with npage := prev.npage + span.npage }
      have small : span'.npage < npages := by
        show prev.npage + span.npage < npages
        unfold npages at *
        omega
      have sound₂ := sound₁.absorb (s := span') there₁ out₁.1 unlike erased.unlisted out₁.2
        (fun q => by
          simp only [span', Range.Has, Span.pages] at has ⊢
          omega) small (by unfold npages at *; omega) limits.1
        (by
          show prev.pageid + (prev.npage + span.npage) ≤ 2 ^ 52
          simp only [Range.Has, Span.pages] at has
          omega)
      refine .inr ⟨_, p, span', by rw [if_neg (by omega), done]; rfl, sound₂, small, zero,
        fun b other => ?_, .inr fun other its => its.2 ⟨_, (sound.listed _ p inside).1, inside⟩,
        erased.regions⟩
      have here : (((pc₁.putSpan p span').mapPages span.pages p).deleteSpan cur).spans b =
          if b = cur then none else if b = p then some span' else pc.spans b := by
        show Function.update (Function.update pc₁.spans p (some span')) cur none b = _
        rw [erased.spans]
        simp only [Function.update_apply]
      have lists : (((pc₁.putSpan p span').mapPages span.pages p).deleteSpan cur).Listed b ↔
          pc₁.Listed b := Iff.rfl
      rw [Out, Out, here, lists]
      by_cases last : b = cur
      · subst last
        simp [unlike.symm]
      · by_cases first : b = p
        · subst first
          have listed : pc.Listed b := ⟨_, (sound.listed _ b inside).1, inside⟩
          have unlisted := erased.unlisted
          grind
        · have others := erased.others b first
          grind

structure Shelved (pc pc' : PageCache) (cur : Nat) : Prop where
  sound : Sound pc'
  out : ∀ b other, pc'.Out b other ↔ b ≠ cur ∧ pc.Out b other
  regions : pc'.regions = pc.regions

theorem Sound.shelve {cur : Nat} (sound : Sound pc) (out : pc.Out cur span)
    (few : span.npage < npages) (unused : span.usecount = 0) :
    Shelved pc (pc.pushFront span.npage cur) cur := by
  refine ⟨sound.pushFront out.1 few unused out.2, fun b other => ?_, rfl⟩
  have here : (pc.pushFront span.npage cur).spans b = pc.spans b := rfl
  rw [Out, Out, here, listed_pushFront few]
  grind

theorem Sound.mergeNext {cur : Nat} (sound : Sound pc) (out : pc.Out cur span)
    (few : span.npage < npages) (unused : span.usecount = 0) (nested : pc.Nested span)
    (clear : ∀ b big, pc.Out b big → b ≠ cur → big.usecount = 0 →
      big.pages.Has (span.pageid + span.npage) → npages - 1 ≤ span.npage + big.npage) :
    (∃ pc', pc.mergeNext cur = some (pc', none) ∧ Shelved pc pc' cur) ∨
      ∃ pc' span', pc.mergeNext cur = some (pc', some (cur, .next)) ∧
        Merged pc pc' cur cur span' ∧ 0 < span'.npage := by
  obtain ⟨start, stop⟩ := sound.bound cur span out.1
  have behind : (span.pageid + span.npage) % 2 ^ 64 = span.pageid + span.npage := by omega
  rw [PageCache.mergeNext, out.1, Option.bind_some, behind]
  have shelved := sound.shelve out few unused
  cases found : pc.idspanmap (span.pageid + span.npage) with
  | none => exact .inl ⟨_, rfl, shelved⟩
  | some n =>
    obtain ⟨next, there, has, -⟩ := sound.owner _ n found
    simp only [there, Option.bind_some]
    by_cases stops : next.usecount ≠ 0 ∨ npages - 1 ≤ span.npage + next.npage
    · rw [if_pos stops]
      exact .inl ⟨_, rfl, shelved⟩
    · rw [not_or, not_not, Nat.not_le] at stops
      obtain ⟨zero, limit⟩ := stops
      have unlike : n ≠ cur := by
        rintro rfl
        obtain rfl := Option.some.inj (there.symm.trans out.1)
        exact Nat.lt_irrefl _ has.2
      have listed : pc.Listed n := by
        by_contra free
        have := clear n next ⟨there, free⟩ unlike zero has
        omega
      obtain ⟨k, -, inside⟩ := listed
      obtain ⟨-, next', its, rfl, -⟩ := sound.listed k n inside
      obtain rfl := Option.some.inj (there.symm.trans its)
      obtain ⟨pc₁, done, sound₁, erased⟩ := sound.erase inside
      have there₁ : pc₁.spans n = some next := erased.spans ▸ there
      have out₁ : pc₁.Out cur span :=
        ⟨erased.spans ▸ out.1, fun listed => out.2 ((erased.others cur unlike.symm).mp listed)⟩
      have touch : span.pageid + span.npage = next.pageid := by
        by_contra apart
        by_cases none : span.npage = 0
        · refine nested none n next there (by unfold npages at *; omega) ?_ ?_ zero
          all_goals
            simp only [Range.Has, Span.pages] at has ⊢
            omega
        · refine unlike (sound.apart n cur next span (span.pageid + span.npage - 1) there out.1 ?_ ?_)
          all_goals
            simp only [Range.Has, Span.pages] at has ⊢
            omega
      have limits := sound.bound n next there
      let span' : Span := { span with npage := span.npage + next.npage }
      have small : span'.npage < npages := by
        show span.npage + next.npage < npages
        unfold npages at *
        omega
      have sound₂ := sound₁.absorb (s := span') out₁.1 there₁ unlike.symm out₁.2 erased.unlisted
        (fun q => by
          simp only [span', Range.Has, Span.pages]
          omega) small few start
        (by
          show span.pageid + (span.npage + next.npage) ≤ 2 ^ 52
          omega)
      refine .inr ⟨_, span', by rw [if_neg (by omega), done]; rfl, ⟨sound₂, small, unused,
        fun b other => ?_, .inl rfl, erased.regions⟩, ?_⟩
      · have here : (((pc₁.putSpan cur span').mapPages next.pages cur).deleteSpan n).spans b =
            if b = n then none else if b = cur then some span' else pc.spans b := by
          show Function.update (Function.update pc₁.spans cur (some span')) n none b = _
          rw [erased.spans]
          simp only [Function.update_apply]
        have lists : (((pc₁.putSpan cur span').mapPages next.pages cur).deleteSpan n).Listed b ↔
            pc₁.Listed b := Iff.rfl
        rw [Out, Out, here, lists]
        by_cases first : b = n
        · subst first
          have listed : pc.Listed b := ⟨_, (sound.listed _ b inside).1, inside⟩
          simp [unlike, listed]
        · have others := erased.others b first
          have mine := out₁.2
          grind
      · show 0 < span.npage + next.npage
        simp only [Range.Has, Span.pages] at has
        omega

def InHand (pc : PageCache) (hand : Nat × Merging) : Prop :=
  ∃ span, pc.Out hand.1 span ∧ span.npage < npages ∧ span.usecount = 0 ∧
    (hand.2 = .next → pc.Nested span)

def HandedOut (pc : PageCache) (hand : Option (Nat × Merging)) (a : Nat) (span : Span) : Prop :=
  pc.Out a span ∧ hand.map Prod.fst ≠ some a

theorem handedOut_none : pc.HandedOut none a span ↔ pc.Out a span :=
  and_iff_left nofun

theorem handedOut_some {hand : Nat × Merging} :
    pc.HandedOut (some hand) a span ↔ a ≠ hand.1 ∧ pc.Out a span := by
  rw [HandedOut, Option.map_some, ne_eq, Option.some_inj, and_comm, eq_comm]

theorem Merged.handedOut {cur next : Nat} {m m' : Merging} (merged : Merged pc pc' cur next span') :
    pc'.HandedOut (some (next, m')) b other ↔ pc.HandedOut (some (cur, m)) b other := by
  rw [handedOut_some, handedOut_some, merged.out]
  rcases merged.old with rfl | before
  · grind
  · have := before other
    grind

def Guarded (pc : PageCache) : Nat × Merging → Prop
  | (cur, .prev) => ∀ span b big, pc.Out cur span → pc.Out b big → b ≠ cur → big.usecount = 0 →
    big.pages.Has (span.pageid - 1) → npages - 1 < span.npage + big.npage
  | (cur, .next) => ∀ span b big, pc.Out cur span → pc.Out b big → b ≠ cur → big.usecount = 0 →
    big.pages.Has (span.pageid + span.npage) → npages - 1 ≤ span.npage + big.npage

/-- A part of a release is done, and these are the spans that are handed out. -/
structure Leaves (pc : PageCache) (hand : Option (Nat × Merging)) (rest : Nat → Span → Prop) :
    Prop where
  sound : Sound pc
  current : ∀ h ∈ hand, pc.InHand h
  rest : ∀ b other, pc.HandedOut hand b other ↔ rest b other

theorem Sound.merge {hand : Nat × Merging} (sound : Sound pc) (mine : pc.InHand hand)
    (guarded : pc.Guarded hand) :
    ∃ pc' hand', pc.merge hand = some (pc', hand') ∧ Leaves pc' hand' (pc.HandedOut (some hand)) := by
  obtain ⟨cur, m⟩ := hand
  obtain ⟨span, out, few, unused, nested⟩ := mine
  cases m with
  | prev =>
    rcases sound.mergePrev out few unused fun b big => guarded span b big out with
      ⟨done, nested⟩ | ⟨pc', p, span', done, merged⟩
    · refine ⟨pc, some (cur, .next), done, sound, ?_, fun b other => ?_⟩
      · rintro _ ⟨⟩
        exact ⟨span, out, few, unused, fun _ => nested⟩
      · rw [handedOut_some, handedOut_some]
    · refine ⟨pc', some (p, .prev), done, merged.sound, ?_, fun b other => merged.handedOut⟩
      rintro _ ⟨⟩
      exact ⟨span', (merged.out p span').mpr (.inl ⟨rfl, rfl⟩), merged.few, merged.unused, nofun⟩
  | next =>
    rcases sound.mergeNext out few unused (nested rfl) fun b big => guarded span b big out with
      ⟨pc', done, shelved⟩ | ⟨pc', span', done, merged, positive⟩
    · refine ⟨pc', none, done, shelved.sound, nofun, fun b other => ?_⟩
      rw [handedOut_none, handedOut_some, shelved.out]
    · refine ⟨pc', some (cur, .next), done, merged.sound, ?_, fun b other => merged.handedOut⟩
      rintro _ ⟨⟩
      exact ⟨span', (merged.out cur span').mpr (.inl ⟨rfl, rfl⟩), merged.few, merged.unused,
        fun _ none => absurd none (Nat.pos_iff_ne_zero.mp positive)⟩

theorem Sound.release {cur : Nat} (sound : Sound pc) (out : pc.Out cur span)
    (unused : span.usecount = 0) :
    ∃ pc' hand', pc.release cur = some (pc', hand') ∧
      Leaves pc' hand' fun b other => b ≠ cur ∧ pc.Out b other := by
  rw [PageCache.release, out.1]
  by_cases few : span.npage < npages
  · refine ⟨pc, some (cur, .prev), by simp only [Option.map_some, if_neg (Nat.not_le.mpr few)],
      sound, ?_, fun b other => handedOut_some⟩
    rintro _ ⟨⟩
    exact ⟨span, out, few, unused, nofun⟩
  · refine ⟨_, none, by simp only [Option.map_some, if_pos (Nat.not_lt.mp few)],
      sound.drop out.1 (Nat.not_lt.mp few), nofun, fun b other => ?_⟩
    have here : (((pc.unmap span.pageid).virtualFree span.pageid).deleteSpan cur).spans b =
        if b = cur then none else pc.spans b := Function.update_apply ..
    have lists : (((pc.unmap span.pageid).virtualFree span.pageid).deleteSpan cur).Listed b ↔
        pc.Listed b := Iff.rfl
    rw [handedOut_none, Out, Out, here, lists]
    grind

theorem Sound.putOut {s : Span} (sound : Sound pc) (out : pc.Out a span) (pages : s.pages = span.pages) :
    Sound (pc.putSpan a s) ∧
      ∀ b other, (pc.putSpan a s).Out b other ↔ b = a ∧ other = s ∨ b ≠ a ∧ pc.Out b other := by
  refine ⟨sound.put out.1 pages fun listed => absurd listed out.2, fun b other => ?_⟩
  have here : (pc.putSpan a s).spans b = if b = a then some s else pc.spans b :=
    Function.update_apply ..
  have lists : (pc.putSpan a s).Listed b ↔ pc.Listed b := Iff.rfl
  have mine := out.2
  rw [Out, Out, here, lists]
  grind

theorem Sound.allocBigPageObj {size : Nat} (sound : Sound pc) (big : maxBytes < size)
    (fresh : pc.BigFresh size page) :
    ∃ pc' a span, pc.allocBigPageObj size page = some (pc', a) ∧ Taken pc pc' a span ∧
      span.objsize / pageSize = span.npage ∧ span.npage = roundup size 12 / pageSize := by
  rw [BigFresh] at fresh
  rw [PageCache.allocBigPageObj, if_pos big]
  by_cases few : roundup size 12 / pageSize < npages
  · rw [if_pos few] at fresh
    obtain ⟨pc₁, a, span, done, taken, count⟩ := sound.newSpan few fresh
    have out : pc₁.Out a span := (taken.out a span).mpr (.inl ⟨rfl, rfl⟩)
    obtain ⟨sound₂, out₂⟩ := taken.sound.putOut (s := { span with objsize := roundup size 12 })
      out rfl
    refine ⟨_, a, { span with objsize := roundup size 12 }, ?_,
      ⟨sound₂, taken.unused, fun b other => ?_, taken.new, taken.regions⟩, count.symm, count⟩
    · simp only [if_pos few, done, Option.bind_some, out.1, Option.map_some]
    · have before := taken.out b other
      have new := taken.new other
      rw [out₂]
      grind
  · rw [if_neg few] at fresh
    let span : Span := ⟨page, roundup size 12 / pageSize, [], roundup size 12 / pageSize * pageSize, 0⟩
    have sound₁ := sound.adopt (s := span) (m := ⟨page, 1⟩) fresh fun p => by
      simp only [Range.Has, Span.pages, span]
      unfold npages at *
      omega
    have none : ∀ other, ¬ pc.Out pc.fresh other := fun other out =>
      Nat.lt_irrefl _ (sound.out_lt out)
    have unlisted : ¬ pc.Listed pc.fresh := by
      rintro ⟨k, -, inside⟩
      obtain ⟨-, other, its, -⟩ := sound.listed k _ inside
      cases its.symm.trans (sound.fresh _ (Nat.le_refl _))
    refine ⟨_, pc.fresh, span, by simp only [if_neg few]; rfl,
      ⟨sound₁, rfl, fun b other => ?_, none, List.subset_cons_self _ _⟩,
      Nat.mul_div_cancel _ (by decide), rfl⟩
    have unused := sound.fresh pc.fresh (Nat.le_refl _)
    have here : ({ (pc.makeSpan span).mapPages ⟨page, 1⟩ pc.fresh with
        regions := span.pages :: pc.regions } : PageCache).spans b =
        if b = pc.fresh then some span else pc.spans b := Function.update_apply ..
    have lists : ({ (pc.makeSpan span).mapPages ⟨page, 1⟩ pc.fresh with
        regions := span.pages :: pc.regions } : PageCache).Listed b ↔ pc.Listed b := Iff.rfl
    rw [Out, Out, here, lists]
    grind

theorem Sound.freeBigPageObj (sound : Sound pc) (out : pc.Out a span) (unused : span.usecount = 0)
    (size : span.objsize / pageSize = span.npage)
    (clear : npages ≤ span.objsize / pageSize → span.pageid = span.objsize / pageSize) :
    ∃ pc' hand', pc.freeBigPageObj a = some (pc', hand') ∧
      Leaves pc' hand' fun b other => b ≠ a ∧ pc.Out b other := by
  rw [PageCache.freeBigPageObj, out.1, Option.bind_some]
  by_cases few : span.objsize / pageSize < npages
  · obtain ⟨sound₁, out₁⟩ := sound.putOut (s := { span with objsize := 0 }) out rfl
    have mine := (out₁ a _).mpr (.inl ⟨rfl, rfl⟩)
    obtain ⟨pc', hand', done, leaves⟩ := sound₁.release mine unused
    refine ⟨pc', hand', by rw [if_pos few, done], leaves.sound, leaves.current, fun b other => ?_⟩
    have first := out₁ b other
    rw [leaves.rest]
    grind
  · have large : npages ≤ span.npage := by omega
    refine ⟨_, none, if_neg few, ?_, nofun, fun b other => ?_⟩
    · rw [← clear (Nat.not_lt.mp few)]
      exact sound.drop out.1 large
    · have here : (((pc.unmap (span.objsize / pageSize)).deleteSpan a).virtualFree
          span.pageid).spans b = if b = a then none else pc.spans b := Function.update_apply ..
      have lists : (((pc.unmap (span.objsize / pageSize)).deleteSpan a).virtualFree
          span.pageid).Listed b ↔ pc.Listed b := Iff.rfl
      rw [handedOut_none, Out, Out, here, lists]
      grind

end PageCache

end ProjectsCpp.ConcurrentMemoryPool
