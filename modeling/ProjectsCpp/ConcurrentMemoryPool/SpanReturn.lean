import ProjectsCpp.ConcurrentMemoryPool.SpanTaking

/-! What `ReleaseSpanToPageCache` does to any page cache that is in order. The first loop joins spans
up to 128 pages; the second one stops already where exactly 128 would come together. -/

namespace ProjectsCpp.ConcurrentMemoryPool
open ProjectsCpp.Ranges

namespace PageCache

/-! ### The loops -/

def mergeLoop : Nat → PageCache → Nat × Merging → Option PageCache
  | 0, _, _ => none
  | rounds + 1, pc, hand =>
    (pc.merge hand).bind fun (pc, next) =>
      match next with
      | none => some pc
      | some hand => mergeLoop rounds pc hand

def releaseSpan (pc : PageCache) (rounds cur : Nat) : Option PageCache :=
  (pc.release cur).bind fun (pc, hand) =>
    match hand with
    | none => some pc
    | some hand => mergeLoop rounds pc hand

/-- The page cache is in order for a release of the span `cur`: the spans in the lists are unused,
those that are handed out are used, but for `cur`, no entry of the page map is stale, and the
addresses of the pages have 64 bits. -/
structure InOrder (pc : PageCache) (cur : Option Nat) : Prop where
  wf : pc.WellFormed
  owner : ∀ p a, pc.idspanmap p = some a → ∃ span, pc.spans a = some span ∧ span.pages.Has p ∧
    (span.npage < npages ∨ p = span.pageid)
  unused : ∀ k a span, a ∈ pc.spanlist k → pc.spans a = some span → span.usecount = 0
  used : ∀ a span, pc.Out a span → some a ≠ cur → 0 < span.usecount
  bound : ∀ a span, pc.spans a = some span → 0 < span.pageid ∧ span.pageid + span.npage ≤ 2 ^ 52

def Free (pc : PageCache) (a : Nat) (span : Span) : Prop := pc.spans a = some span ∧ pc.Listed a

structure Returned (pc pc' : PageCache) (span : Span) (a : Nat) (merged : Span) : Prop where
  there : pc'.spans a = some merged
  listed : a ∈ pc'.spanlist merged.npage
  few : merged.npage ≤ npages - 1
  covers : ∀ p, span.pages.Has p → merged.pages.Has p
  freePages : ∀ p, pc'.FreePage p ↔ pc.FreePage p ∨ span.pages.Has p
  order : pc'.InOrder none

def Maximal (pc : PageCache) (a : Nat) (merged : Span) : Prop :=
  ∀ b other, pc.Free b other → b ≠ a →
    other.pages.Has (merged.pageid - 1) ∨ other.pages.Has (merged.pageid + merged.npage) →
      npages - 1 < merged.npage + other.npage

/-- Free spans one after the other make up the `m` pages from `p` on. -/
inductive Row (pc : PageCache) : Nat → Nat → Prop
  | nil (p : Nat) : Row pc p 0
  | cons {a m : Nat} {span : Span} : pc.Free a span → Row pc (span.pageid + span.npage) m →
    Row pc span.pageid (span.npage + m)

/-- As many free pages as fit lie before the span, and with them and free spans behind it there are
exactly 128 pages. -/
def FillsUp (pc : PageCache) (span : Span) : Prop :=
  ∃ b f, b ≤ span.pageid ∧ pc.Row (span.pageid - b) b ∧ b + span.npage ≤ npages - 1 ∧
    (∀ b', b < b' → b' ≤ span.pageid → pc.Row (span.pageid - b') b' →
      npages - 1 < b' + span.npage) ∧
    0 < f ∧ pc.Row (span.pageid + span.npage) f ∧ b + span.npage + f = npages - 1

variable {pc pc' : PageCache} {a b c k m p cur : Nat} {span other s : Span}

/-! ### Rows -/

theorem Row.append {m k : Nat} (row : pc.Row p m) (more : pc.Row (p + m) k) : pc.Row p (m + k) := by
  induction row with
  | nil => simpa using more
  | cons free _ ih =>
    rw [Nat.add_assoc]
    exact .cons free (ih (by rwa [← Nat.add_assoc] at more))

theorem Row.single (free : pc.Free a span) : pc.Row span.pageid span.npage :=
  .cons free (.nil _)

theorem Row.covers {q : Nat} (row : pc.Row p m) (above : p ≤ q) (below : q < p + m) :
    ∃ a span, pc.Free a span ∧ span.pages.Has q ∧ p ≤ span.pageid ∧
      span.pageid + span.npage ≤ p + m := by
  induction row with
  | nil => omega
  | @cons a m span free _ ih =>
    by_cases first : q < span.pageid + span.npage
    · exact ⟨a, span, free, ⟨above, first⟩, Nat.le_refl _, by omega⟩
    · obtain ⟨c, other, its, has, start, stop⟩ := ih (by omega) (by omega)
      exact ⟨c, other, its, has, by omega, by omega⟩

/-! ### One round -/

structure Returning (pc : PageCache) (cur : Nat) (span : Span) : Prop where
  sound : Sound pc
  out : pc.Out cur span
  unused : span.usecount = 0
  positive : 0 < span.npage
  few : span.npage < npages
  used : ∀ b other, pc.Out b other → b ≠ cur → 0 < other.usecount

/-- The free span at `b` and the current one become one at `a`. -/
structure Joined (pc pc' : PageCache) (span : Span) (b : Nat) (other : Span) (a : Nat) (s : Span) :
    Prop where
  returning : Returning pc' a s
  pages : ∀ p, s.pages.Has p ↔ span.pages.Has p ∨ other.pages.Has p
  free : ∀ x y, pc'.Free x y ↔ pc.Free x y ∧ x ≠ b

theorem Returning.found (mine : Returning pc cur span) (found : pc.idspanmap p = some b)
    (outside : ¬ span.pages.Has p) :
    ∃ other, pc.spans b = some other ∧ other.pages.Has p ∧ b ≠ cur ∧
      (other.usecount = 0 → pc.Free b other) := by
  obtain ⟨other, there, has, -⟩ := mine.sound.owner p b found
  have unlike : b ≠ cur := by
    rintro rfl
    exact outside (Option.some.inj (there.symm.trans mine.out.1) ▸ has)
  refine ⟨other, there, has, unlike, fun zero => ⟨there, ?_⟩⟩
  by_contra free
  exact Nat.lt_irrefl _ (zero ▸ mine.used b other ⟨there, free⟩ unlike)

theorem Returning.mapped (mine : Returning pc cur span) (free : pc.Free b other)
    (has : other.pages.Has p) : pc.idspanmap p = some b ∧ other.usecount = 0 := by
  obtain ⟨there, k, few, listed⟩ := free
  obtain ⟨-, its, same, rfl, zero⟩ := mine.sound.listed k b listed
  obtain rfl := Option.some.inj (there.symm.trans same)
  exact ⟨mine.sound.mapped b other p there has (.inl few), zero⟩

theorem Returning.join {d : Nat} {gone : Span} (mine : Returning pc cur span)
    (free : pc.Free b other)
    (which : a = b ∧ d = cur ∧ gone = span ∨ a = cur ∧ d = b ∧ gone = other)
    (pages : ∀ p, s.pages.Has p ↔ span.pages.Has p ∨ other.pages.Has p) (zero : s.usecount = 0)
    (few : s.npage < npages) (start : 0 < s.pageid) (stop : s.pageid + s.npage ≤ 2 ^ 52) :
    ∃ pc₁, pc.erase other.npage b = some pc₁ ∧
      Joined pc (((pc₁.putSpan a s).mapPages gone.pages a).deleteSpan d) span b other a s := by
  obtain ⟨there, k, small, inside⟩ := free
  obtain ⟨-, other', its, rfl, unused⟩ := mine.sound.listed k b inside
  obtain rfl := Option.some.inj (there.symm.trans its)
  obtain ⟨pc₁, done, sound₁, erased⟩ := mine.sound.erase inside
  have unlike : b ≠ cur := by
    rintro rfl
    exact mine.out.2 ⟨_, small, inside⟩
  have there₁ : pc₁.spans b = some other := erased.spans ▸ there
  have out₁ : pc₁.Out cur span :=
    ⟨erased.spans ▸ mine.out.1, fun listed => mine.out.2 ((erased.others cur unlike.symm).mp listed)⟩
  have apart : a ≠ d := by
    rcases which with ⟨rfl, rfl, -⟩ | ⟨rfl, rfl, -⟩
    · exact unlike
    · exact unlike.symm
  have sound' : Sound (((pc₁.putSpan a s).mapPages gone.pages a).deleteSpan d) := by
    rcases which with ⟨rfl, rfl, rfl⟩ | ⟨rfl, rfl, rfl⟩
    · exact sound₁.absorb there₁ out₁.1 apart erased.unlisted out₁.2 (fun q => (pages q).trans or_comm)
        few small start stop
    · exact sound₁.absorb out₁.1 there₁ apart out₁.2 erased.unlisted pages few mine.few start stop
  have spans : ∀ x, (((pc₁.putSpan a s).mapPages gone.pages a).deleteSpan d).spans x =
      if x = d then none else if x = a then some s else pc.spans x := by
    intro x
    show Function.update (Function.update pc₁.spans a (some s)) d none x = _
    rw [erased.spans]
    simp only [Function.update_apply]
  have lists : ∀ x, (((pc₁.putSpan a s).mapPages gone.pages a).deleteSpan d).Listed x ↔
      pc.Listed x ∧ x ≠ b := by
    intro x
    show pc₁.Listed x ↔ _
    by_cases same : x = b
    · subst same
      simp [erased.unlisted]
    · rw [erased.others x same, and_iff_left same]
  have old : ∀ x, x ≠ b → x ≠ cur → x ≠ a ∧ x ≠ d := by
    rcases which with ⟨rfl, rfl, -⟩ | ⟨rfl, rfl, -⟩
    · exact fun x first second => ⟨first, second⟩
    · exact fun x first second => ⟨second, first⟩
  have current : a = b ∨ a = cur := which.imp And.left And.left
  have deleted : d = b ∨ d = cur := which.symm.imp (fun its => its.2.1) fun its => its.2.1
  have some' : 0 < s.npage := by
    have first := (pages span.pageid).mpr (.inl ⟨Nat.le_refl _, Nat.lt_add_of_pos_right mine.positive⟩)
    simp only [Range.Has, Span.pages] at first
    omega
  refine ⟨pc₁, done, ⟨sound', ⟨?_, ?_⟩, zero, some', few, fun x y its elsewhere => ?_⟩, pages,
    fun x y => ?_⟩
  · rw [spans, if_neg apart, if_pos rfl]
  · rw [lists]
    rintro ⟨listed, other_⟩
    exact mine.out.2 (current.resolve_left other_ ▸ listed)
  · obtain ⟨its, unlisted⟩ := its
    rw [spans] at its
    rw [lists] at unlisted
    split at its
    · cases its
    · rename_i stays
      have other_ : x ≠ b := by
        rintro rfl
        rcases deleted with same | same
        · exact stays same.symm
        · exact elsewhere (current.resolve_right fun equal => apart (equal.trans same.symm)).symm
      have outer : x ≠ cur := by
        rintro rfl
        rcases deleted with same | same
        · exact elsewhere (current.resolve_left fun equal => apart (equal.trans same.symm)).symm
        · exact stays same.symm
      exact mine.used x y ⟨its, fun listed => unlisted ⟨listed, other_⟩⟩ outer
  · rw [Free, Free, spans, lists]
    constructor
    · rintro ⟨its, listed, other_⟩
      have outer : x ≠ cur := fun same => mine.out.2 (same ▸ listed)
      obtain ⟨first, second⟩ := old x other_ outer
      rw [if_neg second, if_neg first] at its
      exact ⟨⟨its, listed⟩, other_⟩
    · rintro ⟨⟨its, listed⟩, other_⟩
      have outer : x ≠ cur := fun same => mine.out.2 (same ▸ listed)
      obtain ⟨first, second⟩ := old x other_ outer
      rw [if_neg second, if_neg first]
      exact ⟨its, listed, other_⟩

theorem Returning.joinPrev (mine : Returning pc cur span) :
    (pc.mergePrev cur = some (pc, some (cur, .next)) ∧
      ∀ b other, pc.Free b other → other.pages.Has (span.pageid - 1) →
        npages - 1 < span.npage + other.npage) ∨
    ∃ pc' b other s, pc.mergePrev cur = some (pc', some (b, .prev)) ∧ pc.Free b other ∧
      other.pageid + other.npage = span.pageid ∧ 0 < other.npage ∧ s.pageid = other.pageid ∧
        s.npage = other.npage + span.npage ∧ Joined pc pc' span b other b s := by
  obtain ⟨start, stop⟩ := mine.sound.bound cur span mine.out.1
  have before : (span.pageid + 2 ^ 64 - 1) % 2 ^ 64 = span.pageid - 1 := by omega
  have outside : ¬ span.pages.Has (span.pageid - 1) := fun has => by
    simp only [Range.Has, Span.pages] at has
    omega
  rw [PageCache.mergePrev, mine.out.1, Option.bind_some, before]
  cases found : pc.idspanmap (span.pageid - 1) with
  | none =>
    refine .inl ⟨rfl, fun b other free has => ?_⟩
    cases found.symm.trans (mine.mapped free has).1
  | some b =>
    obtain ⟨other, there, has, unlike, free⟩ := mine.found found outside
    simp only [there, Option.bind_some]
    by_cases stops : other.usecount ≠ 0 ∨ npages - 1 < span.npage + other.npage
    · refine .inl ⟨if_pos stops, fun c third its has' => ?_⟩
      obtain ⟨same, zero⟩ := mine.mapped its has'
      obtain rfl := Option.some.inj (found.symm.trans same)
      obtain rfl := Option.some.inj (there.symm.trans its.1)
      exact stops.resolve_left (not_not.mpr zero)
    · rw [if_neg stops]
      rw [not_or, not_not, Nat.not_lt] at stops
      have free := free stops.1
      have touch : other.pageid + other.npage = span.pageid := by
        by_contra gap
        refine unlike (mine.sound.apart b cur other span span.pageid there mine.out.1 ?_ ?_)
        · simp only [Range.Has, Span.pages] at has ⊢
          omega
        · exact ⟨Nat.le_refl _, Nat.lt_add_of_pos_right mine.positive⟩
      have limits := mine.sound.bound b other there
      obtain ⟨pc₁, done, joined⟩ := mine.join (s := { other with npage := other.npage + span.npage })
        free (.inl ⟨rfl, rfl, rfl⟩)
        (fun q => by
          simp only [Range.Has, Span.pages]
          omega) stops.1
        (by
          show other.npage + span.npage < npages
          unfold npages at *
          omega) limits.1
        (by
          show other.pageid + (other.npage + span.npage) ≤ 2 ^ 52
          omega)
      refine .inr ⟨_, b, other, { other with npage := other.npage + span.npage }, by rw [done]; rfl,
        free, touch, ?_, rfl, rfl, joined⟩
      simp only [Range.Has, Span.pages] at has
      omega

theorem Returning.joinNext (mine : Returning pc cur span) :
    (pc.mergeNext cur = some (pc.pushFront span.npage cur, none) ∧
      ∀ b other, pc.Free b other → other.pages.Has (span.pageid + span.npage) →
        npages - 1 ≤ span.npage + other.npage) ∨
    ∃ pc' b other s, pc.mergeNext cur = some (pc', some (cur, .next)) ∧ pc.Free b other ∧
      other.pageid = span.pageid + span.npage ∧ 0 < other.npage ∧ s.pageid = span.pageid ∧
        s.npage = span.npage + other.npage ∧ s.npage < npages - 1 ∧
          Joined pc pc' span b other cur s := by
  obtain ⟨start, stop⟩ := mine.sound.bound cur span mine.out.1
  have behind : (span.pageid + span.npage) % 2 ^ 64 = span.pageid + span.npage := by omega
  have outside : ¬ span.pages.Has (span.pageid + span.npage) := fun has => Nat.lt_irrefl _ has.2
  rw [PageCache.mergeNext, mine.out.1, Option.bind_some, behind]
  cases found : pc.idspanmap (span.pageid + span.npage) with
  | none =>
    refine .inl ⟨rfl, fun b other free has => ?_⟩
    cases found.symm.trans (mine.mapped free has).1
  | some b =>
    obtain ⟨other, there, has, unlike, free⟩ := mine.found found outside
    simp only [there, Option.bind_some]
    by_cases stops : other.usecount ≠ 0 ∨ npages - 1 ≤ span.npage + other.npage
    · refine .inl ⟨if_pos stops, fun c third its has' => ?_⟩
      obtain ⟨same, zero⟩ := mine.mapped its has'
      obtain rfl := Option.some.inj (found.symm.trans same)
      obtain rfl := Option.some.inj (there.symm.trans its.1)
      exact stops.resolve_left (not_not.mpr zero)
    · rw [if_neg stops]
      rw [not_or, not_not, Nat.not_le] at stops
      have free := free stops.1
      have touch : other.pageid = span.pageid + span.npage := by
        by_contra gap
        have positive := mine.positive
        refine unlike (mine.sound.apart b cur other span (span.pageid + span.npage - 1) there
          mine.out.1 ?_ ?_)
        all_goals
          simp only [Range.Has, Span.pages] at has ⊢
          omega
      have limits := mine.sound.bound b other there
      obtain ⟨pc₁, done, joined⟩ := mine.join (s := { span with npage := span.npage + other.npage })
        free (.inr ⟨rfl, rfl, rfl⟩)
        (fun q => by
          simp only [Range.Has, Span.pages]
          omega) mine.unused
        (by
          show span.npage + other.npage < npages
          unfold npages at *
          omega) start
        (by
          show span.pageid + (span.npage + other.npage) ≤ 2 ^ 52
          omega)
      refine .inr ⟨_, b, other, { span with npage := span.npage + other.npage }, by rw [done]; rfl,
        free, touch, ?_, rfl, rfl, stops.2, joined⟩
      simp only [Range.Has, Span.pages] at has
      omega

/-! ### The whole release -/

/-- The current span of a release of `span` in `pc`: `b` pages before it and `f` behind it have come
to it. -/
structure Between (pc : PageCache) (span : Span) (pc' : PageCache) (cur : Nat) (s : Span)
    (b f : Nat) : Prop where
  returning : Returning pc' cur s
  start : s.pageid + b = span.pageid
  size : s.npage = b + span.npage + f
  before : pc.Row s.pageid b
  behind : pc.Row (span.pageid + span.npage) f
  free : ∀ x y, pc'.Free x y ↔ pc.Free x y ∧ ∀ p, y.pages.Has p → ¬ s.pages.Has p

theorem Between.begin (mine : Returning pc cur span) : Between pc span pc cur span 0 0 where
  returning := mine
  start := rfl
  size := by omega
  before := .nil _
  behind := .nil _
  free x y := by
    refine ⟨fun free => ⟨free, fun p has has' => ?_⟩, And.left⟩
    exact mine.out.2 (mine.sound.apart x cur y span p free.1 mine.out.1 has has' ▸ free.2)

theorem Between.joined {pc₁ pc₂ : PageCache} {s₁ s₂ : Span} {f : Nat} {b₀ : Nat}
    (between : Between pc span pc₁ cur s₁ b₀ f) (free : pc₁.Free b other) (some_ : 0 < other.npage)
    (joined : Joined pc₁ pc₂ s₁ b other a s₂) :
    ∀ x y, pc₂.Free x y ↔ pc.Free x y ∧ ∀ p, y.pages.Has p → ¬ s₂.pages.Has p := by
  intro x y
  rw [joined.free, between.free]
  constructor
  · rintro ⟨⟨its, apart⟩, unlike⟩
    refine ⟨its, fun p has mine => ?_⟩
    have there := ((between.free x y).mpr ⟨its, apart⟩).1
    exact ((joined.pages p).mp mine).elim (apart p has) fun has' =>
      unlike (between.returning.sound.apart x b y other p there free.1 has has')
  · rintro ⟨its, apart⟩
    refine ⟨⟨its, fun p has mine => apart p has ((joined.pages p).mpr (.inl mine))⟩, ?_⟩
    rintro rfl
    obtain rfl := Option.some.inj (its.1.symm.trans ((between.free x other).mp free).1.1)
    have first : y.pages.Has y.pageid := ⟨Nat.le_refl _, Nat.lt_add_of_pos_right some_⟩
    exact apart y.pageid first ((joined.pages _).mpr (.inr first))

theorem Between.loopPrev {pc₁ : PageCache} {s₁ : Span} {b₀ room : Nat}
    (between : Between pc span pc₁ cur s₁ b₀ 0) (enough : npages - 1 - s₁.npage ≤ room) :
    ∃ pc₂ cur₂ s₂ b₂, Between pc span pc₂ cur₂ s₂ b₂ 0 ∧
      (∀ x y, pc₂.Free x y → y.pages.Has (s₂.pageid - 1) → npages - 1 < s₂.npage + y.npage) ∧
      ∃ k ≤ room + 1, ∀ rounds,
        mergeLoop (rounds + k) pc₁ (cur, .prev) = mergeLoop rounds pc₂ (cur₂, .next) := by
  induction room generalizing pc₁ cur s₁ b₀ with
  | zero =>
    rcases between.returning.joinPrev with ⟨done, last⟩ | ⟨pc₂, x, y, s₂, -, -, -, more, -, size, joined⟩
    · refine ⟨pc₁, cur, s₁, b₀, between, last, 1, Nat.le_refl _, fun rounds => ?_⟩
      rw [mergeLoop, PageCache.merge, done]
      rfl
    · have few := joined.returning.few
      unfold npages at *
      omega
  | succ room ih =>
    rcases between.returning.joinPrev with
      ⟨done, last⟩ | ⟨pc₂, x, y, s₂, done, free, touch, more, start, size, joined⟩
    · refine ⟨pc₁, cur, s₁, b₀, between, last, 1, by omega, fun rounds => ?_⟩
      rw [mergeLoop, PageCache.merge, done]
      rfl
    · have old := ((between.free x y).mp free).1
      have row : pc.Row s₂.pageid (y.npage + b₀) := by
        rw [start]
        exact (Row.single old).append (touch ▸ between.before)
      have next : Between pc span pc₂ x s₂ (y.npage + b₀) 0 :=
        ⟨joined.returning, by have := between.start; omega, by have := between.size; omega, row,
          between.behind, between.joined free more joined⟩
      obtain ⟨pc₃, cur₃, s₃, b₃, after, last, k, few, runs⟩ := ih next (by omega)
      refine ⟨pc₃, cur₃, s₃, b₃, after, last, k + 1, by omega, fun rounds => ?_⟩
      rw [← Nat.add_assoc, mergeLoop, PageCache.merge, done]
      exact runs rounds

theorem Between.loopNext {pc₁ : PageCache} {s₁ : Span} {b₀ f room : Nat}
    (between : Between pc span pc₁ cur s₁ b₀ f) (short : f = 0 ∨ s₁.npage < npages - 1)
    (enough : npages - 1 - s₁.npage ≤ room) :
    ∃ pc₂ s₂ f₂, Between pc span pc₂ cur s₂ b₀ f₂ ∧ (f₂ = 0 ∨ s₂.npage < npages - 1) ∧
      (∀ x y, pc₂.Free x y → y.pages.Has (s₂.pageid + s₂.npage) →
        npages - 1 ≤ s₂.npage + y.npage) ∧
      ∃ k ≤ room + 1, ∀ rounds,
        mergeLoop (rounds + k) pc₁ (cur, .next) = some (pc₂.pushFront s₂.npage cur) := by
  induction room generalizing pc₁ s₁ f with
  | zero =>
    rcases between.returning.joinNext with
      ⟨done, last⟩ | ⟨pc₂, x, y, s₂, -, -, -, more, -, size, less, -⟩
    · refine ⟨pc₁, s₁, f, between, short, last, 1, Nat.le_refl _, fun rounds => ?_⟩
      rw [mergeLoop, PageCache.merge, done]
      rfl
    · omega
  | succ room ih =>
    rcases between.returning.joinNext with
      ⟨done, last⟩ | ⟨pc₂, x, y, s₂, done, free, touch, more, start, size, less, joined⟩
    · refine ⟨pc₁, s₁, f, between, short, last, 1, by omega, fun rounds => ?_⟩
      rw [mergeLoop, PageCache.merge, done]
      rfl
    · have old := ((between.free x y).mp free).1
      have place : span.pageid + span.npage + f = y.pageid := by
        have := between.start
        have := between.size
        omega
      have row : pc.Row (span.pageid + span.npage) (f + y.npage) :=
        between.behind.append (place ▸ Row.single old)
      have next : Between pc span pc₂ cur s₂ b₀ (f + y.npage) :=
        ⟨joined.returning, start ▸ between.start, by have := between.size; omega,
          start ▸ between.before, row, between.joined free more joined⟩
      obtain ⟨pc₃, s₃, f₃, after, short₃, last, k, few, runs⟩ := ih next (.inr less) (by omega)
      refine ⟨pc₃, s₃, f₃, after, short₃, last, k + 1, by omega, fun rounds => ?_⟩
      rw [← Nat.add_assoc, mergeLoop, PageCache.merge, done]
      exact runs rounds

section
variable {pc₁ : PageCache} {cur₁ : Nat} {s₁ : Span} {f : Nat}

theorem Between.has (between : Between pc span pc₁ cur₁ s₁ b f) :
    s₁.pages.Has p ↔ s₁.pageid ≤ p ∧ p < s₁.pageid + b ∨ span.pages.Has p ∨
      span.pageid + span.npage ≤ p ∧ p < span.pageid + span.npage + f := by
  have start := between.start
  have size := between.size
  simp only [Range.Has, Span.pages]
  omega

theorem Between.inside (between : Between pc span pc₁ cur₁ s₁ b f) (mine : Returning pc cur span)
    (free : pc.Free a other) (has : other.pages.Has p) (joined : s₁.pages.Has p) :
    s₁.pageid ≤ other.pageid ∧ other.pageid + other.npage ≤ s₁.pageid + s₁.npage := by
  have start := between.start
  have size := between.size
  have same {c : Nat} {third : Span} (its : pc.Free c third) (there : third.pages.Has p) :
      third = other := by
    obtain rfl := mine.sound.apart c a third other p its.1 free.1 there has
    exact Option.some.inj (its.1.symm.trans free.1)
  rcases between.has.mp joined with ⟨above, below⟩ | here | ⟨above, below⟩
  · obtain ⟨c, third, its, there, low, high⟩ := between.before.covers above below
    obtain rfl := same its there
    omega
  · exact absurd (mine.sound.apart a cur other span p free.1 mine.out.1 has here ▸ free.2) mine.out.2
  · obtain ⟨c, third, its, there, low, high⟩ := between.behind.covers above below
    obtain rfl := same its there
    omega

theorem Between.stays (between : Between pc span pc₁ cur₁ s₁ b f) (mine : Returning pc cur span)
    (free : pc.Free a other) (has : other.pages.Has p) (outside : ¬ s₁.pages.Has p) :
    pc₁.Free a other := by
  refine (between.free a other).mpr ⟨free, fun q there joined => outside ?_⟩
  obtain ⟨low, high⟩ := between.inside mine free there joined
  simp only [Range.Has, Span.pages] at has ⊢
  omega

theorem Between.next (between : Between pc span pc₁ cur₁ s₁ b f) (free : pc₁.Free a other)
    (has : other.pages.Has (s₁.pageid + s₁.npage)) : other.pageid = s₁.pageid + s₁.npage := by
  have apart := ((between.free a other).mp free).2 (s₁.pageid + s₁.npage - 1)
  have positive := between.returning.positive
  simp only [Range.Has, Span.pages] at has apart
  omega

theorem Between.prev (between : Between pc span pc₁ cur₁ s₁ b f) (free : pc₁.Free a other)
    (has : other.pages.Has (s₁.pageid - 1)) : other.pageid + other.npage ≤ s₁.pageid := by
  have apart := ((between.free a other).mp free).2 s₁.pageid
  have positive := between.returning.positive
  simp only [Range.Has, Span.pages] at has apart
  omega

theorem Between.most (between : Between pc span pc₁ cur₁ s₁ b 0) (mine : Returning pc cur span)
    (last : ∀ x y, pc₁.Free x y → y.pages.Has (s₁.pageid - 1) → npages - 1 < s₁.npage + y.npage) :
    ∀ b', b < b' → b' ≤ span.pageid → pc.Row (span.pageid - b') b' →
      npages - 1 < b' + span.npage := by
  intro b' more within row
  have start := between.start
  have size := between.size
  obtain ⟨x, y, free, has, low, high⟩ :=
    row.covers (q := s₁.pageid - 1) (by omega) (by omega)
  have outside : ¬ s₁.pages.Has (s₁.pageid - 1) := fun joined => by
    simp only [Range.Has, Span.pages] at joined
    omega
  have stays := between.stays mine free has outside
  have ends := between.prev stays has
  have full := last x y stays has
  omega

theorem free_pushFront (few : k < npages) (there : pc.spans c = some s) :
    (pc.pushFront k c).Free a other ↔ a = c ∧ other = s ∨ pc.Free a other := by
  have here : (pc.pushFront k c).spans a = pc.spans a := rfl
  rw [Free, Free, here, listed_pushFront few]
  constructor
  · rintro ⟨its, rfl | listed⟩
    · exact .inl ⟨rfl, Option.some.inj (its.symm.trans there)⟩
    · exact .inr ⟨its, listed⟩
  · rintro (⟨rfl, rfl⟩ | ⟨its, listed⟩)
    · exact ⟨there, .inl rfl⟩
    · exact ⟨its, .inr listed⟩

theorem Sound.freePage (sound : Sound pc) : pc.FreePage p ↔ ∃ a span, pc.Free a span ∧ span.pages.Has p :=
  ⟨fun ⟨k, a, span, inside, there, has⟩ =>
      ⟨a, span, ⟨there, k, (sound.listed k a inside).1, inside⟩, has⟩,
    fun ⟨a, span, ⟨there, k, _, inside⟩, has⟩ => ⟨k, a, span, inside, there, has⟩⟩

theorem Sound.inOrder {hand : Option Nat} (sound : Sound pc)
    (used : ∀ a span, pc.Out a span → some a ≠ hand → 0 < span.usecount) : pc.InOrder hand where
  wf := ⟨fun k a inside => let ⟨few, span, there, size, _⟩ := sound.listed k a inside
      ⟨few, span, there, size⟩, sound.once, sound.apart, sound.mapped, sound.fresh⟩
  owner := sound.owner
  unused k a span inside there := by
    obtain ⟨-, other, its, -, zero⟩ := sound.listed k a inside
    exact Option.some.inj (its.symm.trans there) ▸ zero
  used := used
  bound := sound.bound

theorem Between.returned (between : Between pc span pc₁ cur₁ s₁ b f) (mine : Returning pc cur span) :
    Returned pc (pc₁.pushFront s₁.npage cur₁) span cur₁ s₁ where
  there := between.returning.out.1
  listed := mem_pushFront.mpr (.inl ⟨rfl, rfl⟩)
  few := Nat.le_pred_of_lt between.returning.few
  covers p has := between.has.mpr (.inr (.inl has))
  order := by
    have shelved := between.returning.sound.shelve between.returning.out between.returning.few
      between.returning.unused
    refine shelved.sound.inOrder fun x y out _ => ?_
    obtain ⟨unlike, before⟩ := (shelved.out x y).mp out
    exact between.returning.used x y before unlike
  freePages p := by
    have shelved := between.returning.sound.shelve between.returning.out between.returning.few
      between.returning.unused
    have free : ∀ x y, (pc₁.pushFront s₁.npage cur₁).Free x y ↔ x = cur₁ ∧ y = s₁ ∨ pc₁.Free x y :=
      fun _ _ => free_pushFront between.returning.few between.returning.out.1
    rw [shelved.sound.freePage, mine.sound.freePage]
    constructor
    · rintro ⟨x, y, its, has⟩
      rcases (free x y).mp its with ⟨rfl, rfl⟩ | its
      · rcases between.has.mp has with ⟨above, below⟩ | here | ⟨above, below⟩
        · obtain ⟨c, third, its, there, -⟩ := between.before.covers above below
          exact .inl ⟨c, third, its, there⟩
        · exact .inr here
        · obtain ⟨c, third, its, there, -⟩ := between.behind.covers above below
          exact .inl ⟨c, third, its, there⟩
      · exact .inl ⟨x, y, ((between.free x y).mp its).1, has⟩
    · rintro (⟨x, y, its, has⟩ | has)
      · by_cases joined : s₁.pages.Has p
        · exact ⟨cur₁, s₁, (free _ _).mpr (.inl ⟨rfl, rfl⟩), joined⟩
        · exact ⟨x, y, (free x y).mpr (.inr (between.stays mine its has joined)), has⟩
      · exact ⟨cur₁, s₁, (free _ _).mpr (.inl ⟨rfl, rfl⟩), between.has.mpr (.inr (.inl has))⟩

theorem Between.maximal_iff {pc₀ : PageCache} {cur₀ : Nat} {s₀ : Span}
    (first : Between pc span pc₀ cur₀ s₀ b 0) (between : Between pc span pc₁ cur₁ s₁ b f)
    (mine : Returning pc cur span)
    (lastPrev : ∀ x y, pc₀.Free x y → y.pages.Has (s₀.pageid - 1) → npages - 1 < s₀.npage + y.npage)
    (short : f = 0 ∨ s₁.npage < npages - 1)
    (lastNext : ∀ x y, pc₁.Free x y → y.pages.Has (s₁.pageid + s₁.npage) →
      npages - 1 ≤ s₁.npage + y.npage) :
    (pc₁.pushFront s₁.npage cur₁).Maximal cur₁ s₁ ↔ ¬ pc.FillsUp span := by
  have most := first.most mine lastPrev
  have free : ∀ x y, (pc₁.pushFront s₁.npage cur₁).Free x y ↔ x = cur₁ ∧ y = s₁ ∨ pc₁.Free x y :=
    fun _ _ => free_pushFront between.returning.few between.returning.out.1
  have start := between.start
  have size := between.size
  have size₀ := first.size
  have place : s₀.pageid = s₁.pageid := by
    have := first.start
    omega
  have few := first.returning.few
  constructor
  · rintro maximal ⟨b', f', within, row, fits, most', some_, behind, full⟩
    have same : b' = b := by
      rcases Nat.lt_trichotomy b' b with less | same | more
      · have := most' b less (by omega) (by
          rw [show span.pageid - b = s₁.pageid by omega]
          exact between.before)
        unfold npages at *
        omega
      · exact same
      · have := most b' more within row
        omega
    subst same
    have less : f < f' := by
      rcases short with none | less <;> omega
    obtain ⟨x, y, its, has, low, high⟩ :=
      behind.covers (q := s₁.pageid + s₁.npage) (by omega) (by omega)
    have outside : ¬ s₁.pages.Has (s₁.pageid + s₁.npage) := fun joined => Nat.lt_irrefl _ joined.2
    have stays := between.stays mine its has outside
    have begins := between.next stays has
    have unlike : x ≠ cur₁ := fun same => between.returning.out.2 (same ▸ stays.2)
    have limit := maximal x y ((free x y).mpr (.inr stays)) unlike (.inr has)
    omega
  · intro apart x y its unlike beside
    have before : pc₁.Free x y := ((free x y).mp its).resolve_left fun same => unlike same.1
    rcases beside with has | has
    · -- the first loop would have joined it
      have outside : ¬ s₀.pages.Has (s₁.pageid - 1) := fun joined => by
        have := first.returning.sound.bound cur₀ s₀ first.returning.out.1
        simp only [Range.Has, Span.pages] at joined
        omega
      have old := first.stays mine ((between.free x y).mp before).1 has outside
      have := lastPrev x y old (place ▸ has)
      omega
    · have reach := lastNext x y before has
      have begins := between.next before has
      rcases Nat.lt_or_eq_of_le reach with more | full
      · exact more
      · have its := ((between.free x y).mp before).1
        have row : pc.Row (span.pageid + span.npage) (f + y.npage) := by
          refine between.behind.append ?_
          rw [show span.pageid + span.npage + f = y.pageid by omega]
          exact Row.single its
        have whole : pc.Row (span.pageid - b) b := by
          rw [show span.pageid - b = s₁.pageid by omega]
          exact between.before
        refine absurd ⟨b, f + y.npage, by omega, whole, ?_, most, ?_, row, by omega⟩ apart
        · unfold npages at *
          omega
        · simp only [Range.Has, Span.pages] at has
          omega

end

/-! ### The regions of the system -/

def withRegions (pc : PageCache) (regions : List Range) : PageCache := { pc with regions := regions }

section
variable {regions : List Range} {m : Nat}

theorem erase_withRegions :
    (pc.withRegions regions).erase k a = (pc.erase k a).map (·.withRegions regions) := by
  have here : (pc.withRegions regions).spanlist = pc.spanlist := rfl
  rw [erase, erase, here]
  split <;> rfl

theorem merge_withRegions (hand : Nat × Merging) :
    (pc.withRegions regions).merge hand =
      (pc.merge hand).map fun next => (next.1.withRegions regions, next.2) := by
  have spans : (pc.withRegions regions).spans = pc.spans := rfl
  have map : (pc.withRegions regions).idspanmap = pc.idspanmap := rfl
  obtain ⟨cur, _ | _⟩ := hand
  · simp only [merge, mergePrev, spans, map]
    cases pc.spans cur with
    | none => rfl
    | some span =>
      simp only [Option.bind_some]
      cases pc.idspanmap ((span.pageid + 2 ^ 64 - 1) % 2 ^ 64) with
      | none => rfl
      | some b =>
        dsimp only
        cases pc.spans b with
        | none => rfl
        | some other =>
          simp only [Option.bind_some]
          split
          · rfl
          · rw [erase_withRegions]
            cases pc.erase other.npage b <;> rfl
  · simp only [merge, mergeNext, spans, map]
    cases pc.spans cur with
    | none => rfl
    | some span =>
      simp only [Option.bind_some]
      cases pc.idspanmap ((span.pageid + span.npage) % 2 ^ 64) with
      | none => rfl
      | some b =>
        dsimp only
        cases pc.spans b with
        | none => rfl
        | some other =>
          simp only [Option.bind_some]
          split
          · rfl
          · rw [erase_withRegions]
            cases pc.erase other.npage b <;> rfl

theorem mergeLoop_withRegions (rounds : Nat) (hand : Nat × Merging) :
    mergeLoop rounds (pc.withRegions regions) hand =
      (mergeLoop rounds pc hand).map (·.withRegions regions) := by
  induction rounds generalizing pc hand with
  | zero => rfl
  | succ rounds ih =>
    rw [mergeLoop, mergeLoop, merge_withRegions]
    rcases pc.merge hand with _ | ⟨next, _ | again⟩
    · rfl
    · rfl
    · exact ih again

theorem row_withRegions : (pc.withRegions regions).Row p m ↔ pc.Row p m := by
  constructor
  · intro row
    induction row with
    | nil p => exact .nil p
    | cons free _ ih => exact .cons free ih
  · intro row
    induction row with
    | nil p => exact .nil p
    | cons free _ ih => exact .cons free ih

end

def regionsOf (pc : PageCache) : List Range :=
  (List.range pc.fresh).filterMap fun a =>
    ((pc.spans a).map Span.pages).filter fun pages => 0 < pages.size

theorem mem_regionsOf {r : Range} :
    r ∈ pc.regionsOf ↔ ∃ a < pc.fresh, ∃ span, pc.spans a = some span ∧ 0 < span.npage ∧
      span.pages = r := by
  simp only [regionsOf, List.mem_filterMap, List.mem_range, Option.filter_eq_some_iff,
    Option.map_eq_some_iff, decide_eq_true_eq]
  constructor
  · rintro ⟨a, less, ⟨span, there, rfl⟩, some_⟩
    exact ⟨a, less, span, there, some_, rfl⟩
  · rintro ⟨a, less, span, there, some_, rfl⟩
    exact ⟨a, less, ⟨span, there, rfl⟩, some_⟩

theorem InOrder.sound {hand : Option Nat} (order : pc.InOrder hand) :
    Sound (pc.withRegions pc.regionsOf) := by
  have old {a : Nat} {span : Span} (there : pc.spans a = some span) : a < pc.fresh :=
    Nat.lt_of_not_le fun above => nomatch there.symm.trans (order.wf.fresh a above)
  refine ⟨order.wf.apart, order.wf.mapped, order.owner, fun k a inside => ?_, order.wf.once,
    order.wf.fresh, fun a span p there has => ?_, order.bound, fun a span there big => ?_, ?_⟩
  · obtain ⟨few, span, there, size⟩ := order.wf.sized k a inside
    exact ⟨few, span, there, size, order.unused k a span inside there⟩
  · refine ⟨span.pages, mem_regionsOf.mpr ⟨a, old there, span, there, ?_, rfl⟩, has⟩
    simp only [Range.Has, Span.pages] at has
    omega
  · exact mem_regionsOf.mpr ⟨a, old there, span, there, Nat.lt_of_lt_of_le (by decide) big, rfl⟩
  · show pc.regionsOf.Pairwise fun r s => r.Apart s
    refine List.pairwise_filterMap.mpr (List.pairwise_lt_range.imp fun {a b} less r left r' right => ?_)
    obtain ⟨mine, first⟩ := Option.filter_eq_some_iff.mp left
    obtain ⟨hers, second⟩ := Option.filter_eq_some_iff.mp right
    obtain ⟨span, there, rfl⟩ := Option.map_eq_some_iff.mp mine
    obtain ⟨other, its, rfl⟩ := Option.map_eq_some_iff.mp hers
    refine Range.Apart.of_not_has (of_decide_eq_true first) (of_decide_eq_true second) fun p has has' => ?_
    exact absurd (order.wf.apart a b span other p there its has has') (Nat.ne_of_lt less)

/-- A release of any span of up to 128 pages ends, and the merged span takes its place; no free span
beside it could still be joined with it exactly if nothing fills it up to 128 pages. -/
theorem releaseSpan_iff (order : pc.InOrder (some cur)) (out : pc.Out cur span)
    (unused : span.usecount = 0) (some_ : 0 < span.npage) (few : span.npage < npages) :
    (∃ pc' a merged, (∀ rounds, 2 * npages ≤ rounds → pc.releaseSpan rounds cur = some pc') ∧
      Returned pc pc' span a merged ∧ pc'.Maximal a merged) ↔ ¬ pc.FillsUp span := by
  let pc₀ := pc.withRegions pc.regionsOf
  have mine : Returning pc₀ cur span := ⟨order.sound, out, unused, some_, few, fun b other its unlike =>
    order.used b other its fun same => unlike (Option.some.inj same)⟩
  obtain ⟨pc₁, cur₁, s₁, b, first, lastPrev, k, kFew, runs⟩ :=
    (Between.begin mine).loopPrev (Nat.sub_le (npages - 1) span.npage)
  obtain ⟨pc₂, s₂, f, between, short, lastNext, m, mFew, ends⟩ :=
    first.loopNext (.inl rfl) (Nat.sub_le (npages - 1) s₁.npage)
  have loop : ∀ rounds, 2 * npages ≤ rounds →
      mergeLoop rounds pc₀ (cur, .prev) = some (pc₂.pushFront s₂.npage cur₁) := by
    intro rounds enough
    obtain ⟨more, rfl⟩ := Nat.exists_eq_add_of_le' (show m + k ≤ rounds by unfold npages at *; omega)
    rw [← Nat.add_assoc, runs, ends]
  let pc' := (pc₂.pushFront s₂.npage cur₁).withRegions pc.regions
  have run : ∀ rounds, 2 * npages ≤ rounds → pc.releaseSpan rounds cur = some pc' := by
    intro rounds enough
    have same : pc₀.withRegions pc.regions = pc := rfl
    rw [releaseSpan, release, out.1]
    simp only [Option.map_some, Option.bind_some, if_neg (Nat.not_le.mpr few)]
    rw [← same, mergeLoop_withRegions, loop rounds enough, Option.map_some]
  obtain ⟨there, listed, size, covers, freePages, after⟩ := between.returned mine
  have returned : Returned pc pc' span cur₁ s₂ :=
    ⟨there, listed, size, covers, freePages,
      ⟨⟨after.wf.sized, after.wf.once, after.wf.apart, after.wf.mapped, after.wf.fresh⟩, after.owner,
        after.unused, after.used, after.bound⟩⟩
  have maximal : pc'.Maximal cur₁ s₂ ↔ ¬ pc.FillsUp span := by
    refine (first.maximal_iff between mine lastPrev short lastNext).trans (not_congr ?_)
    simp only [FillsUp, pc₀, row_withRegions]
  refine ⟨?_, fun apart => ⟨pc', cur₁, s₂, run, returned, maximal.mpr apart⟩⟩
  rintro ⟨pc'', a, merged, run', returned', maximal'⟩
  have same := Option.some.inj ((run _ (Nat.le_refl _)).symm.trans (run' _ (Nat.le_refl _)))
  subst same
  have page : span.pages.Has span.pageid := ⟨Nat.le_refl _, Nat.lt_add_of_pos_right some_⟩
  obtain rfl := returned.order.wf.apart cur₁ a s₂ merged span.pageid returned.there returned'.there
    (returned.covers _ page) (returned'.covers _ page)
  obtain rfl := Option.some.inj (returned.there.symm.trans returned'.there)
  exact maximal.mp maximal'

theorem Row.outside {q : Nat} (row : pc.Row p m) (taken : ∀ a span, pc.Free a span → ¬ span.pages.Has q) :
    q < p ∨ p + m ≤ q := by
  by_contra within
  obtain ⟨a, span, free, has, -⟩ := row.covers (q := q) (by omega) (by omega)
  exact taken a span free has

/-! ### Spans laid out -/

/-- The spans by their places in the list, of which the places in `free` are in the lists. -/
def laidOut (spans : List Span) (free : List Nat) : PageCache where
  spans a := spans[a]?
  fresh := spans.length
  spanlist k := free.filter fun a => (spans[a]?).any (·.npage = k)
  idspanmap p := spans.findIdx? fun span => decide (span.pages.Has p)
  regions := []

section
variable {spans : List Span} {free : List Nat}

theorem mem_laidOut : a ∈ (laidOut spans free).spanlist k ↔
    a ∈ free ∧ ∃ span, spans[a]? = some span ∧ span.npage = k := by
  show a ∈ free.filter _ ↔ _
  rw [List.mem_filter, Option.any_eq_true]
  simp only [decide_eq_true_eq]

theorem laidOut_owner (found : (laidOut spans free).idspanmap p = some a) :
    ∃ span, spans[a]? = some span ∧ span.pages.Has p := by
  obtain ⟨inside, has, -⟩ := List.findIdx?_eq_some_iff_getElem.mp found
  exact ⟨_, List.getElem?_eq_getElem inside, of_decide_eq_true has⟩

theorem laidOut_inOrder
    (apart : ∀ a < spans.length, ∀ b < spans.length, a ≠ b → ∀ s ∈ spans[a]?, ∀ t ∈ spans[b]?,
      s.pages.Apart t.pages)
    (bound : ∀ s ∈ spans, s.npage < npages ∧ 0 < s.pageid ∧ s.pageid + s.npage ≤ 2 ^ 52)
    (once : free.Nodup) (unused : ∀ a ∈ free, ∀ s ∈ spans[a]?, s.usecount = 0)
    (used : ∀ a < spans.length, a ∉ free → a ≠ cur → ∀ s ∈ spans[a]?, 0 < s.usecount) :
    (laidOut spans free).InOrder (some cur) := by
  have inside {a : Nat} {span : Span} (there : spans[a]? = some span) : a < spans.length :=
    (List.getElem?_eq_some_iff.mp there).1
  have bound' {a : Nat} {span : Span} (there : spans[a]? = some span) :=
    bound span (List.mem_of_getElem? there)
  have same {a b : Nat} {span other : Span} {p : Nat} (there : spans[a]? = some span)
      (its : spans[b]? = some other) (has : span.pages.Has p) (has' : other.pages.Has p) : a = b := by
    by_contra unlike
    rcases apart a (inside there) b (inside its) unlike span there other its with before | after
    · obtain ⟨-, last⟩ := has
      obtain ⟨first, -⟩ := has'
      omega
    · obtain ⟨first, -⟩ := has
      obtain ⟨-, last⟩ := has'
      omega
  refine ⟨⟨fun k a listed => ?_, fun k => once.filter _,
    fun a b span other p there its has has' => same there its has has',
    fun a span p there has _ => ?_, fun a above => List.getElem?_eq_none above⟩, fun p a found => ?_,
    fun k a span listed there => ?_, fun a span out unlike => ?_, fun a span there => (bound' there).2⟩
  · obtain ⟨-, span, there, rfl⟩ := mem_laidOut.mp listed
    exact ⟨(bound' there).1, span, there, rfl⟩
  · cases found : (laidOut spans free).idspanmap p with
    | none =>
      have lacks := List.findIdx?_eq_none_iff.mp found span (List.mem_of_getElem? there)
      exact absurd has (of_decide_eq_false lacks)
    | some b =>
      obtain ⟨other, its, has'⟩ := laidOut_owner found
      exact congrArg some (same its there has' has)
  · obtain ⟨span, there, has⟩ := laidOut_owner found
    exact ⟨span, there, has, .inl (bound' there).1⟩
  · exact unused a (mem_laidOut.mp listed).1 span there
  · refine used a (inside out.1) (fun listed => out.2 ?_) (fun same => unlike (congrArg some same))
      span out.1
    exact ⟨span.npage, (bound' out.1).1, mem_laidOut.mpr ⟨listed, span, out.1, rfl⟩⟩

theorem laidOut_out (there : spans[a]? = some span) (outside : a ∉ free) :
    (laidOut spans free).Out a span :=
  ⟨there, fun ⟨_, _, listed⟩ => outside (mem_laidOut.mp listed).1⟩

theorem laidOut_free (free' : (laidOut spans free).Free a span) : a ∈ free ∧ spans[a]? = some span := by
  obtain ⟨there, k, -, listed⟩ := free'
  exact ⟨(mem_laidOut.mp listed).1, there⟩

end

/-- A span of 20 pages that comes back between free spans of 10 and 30 pages. -/
def between : PageCache :=
  laidOut [⟨1000, 10, [], 0, 0⟩, ⟨1010, 20, [], 0, 0⟩, ⟨1030, 30, [], 0, 0⟩] [0, 2]

theorem between_free (free : between.Free a span) :
    span = ⟨1000, 10, [], 0, 0⟩ ∨ span = ⟨1030, 30, [], 0, 0⟩ := by
  obtain ⟨listed, there⟩ := laidOut_free free
  rcases List.mem_cons.mp listed with rfl | last
  · exact .inl (Option.some.inj there).symm
  · obtain rfl := List.mem_singleton.mp last
    exact .inr (Option.some.inj there).symm

theorem between_inOrder : between.InOrder (some 1) :=
  laidOut_inOrder (by decide) (by decide) (by decide) (by decide) (by decide)

theorem between_returned : ∃ pc' a merged,
    (∀ rounds, 2 * npages ≤ rounds → between.releaseSpan rounds 1 = some pc') ∧
      Returned between pc' ⟨1010, 20, [], 0, 0⟩ a merged ∧ pc'.Maximal a merged ∧
        merged.pageid = 1000 ∧ merged.npage = 60 := by
  obtain ⟨pc', a, merged, run, returned, maximal⟩ := (releaseSpan_iff between_inOrder
    (laidOut_out rfl (by decide)) rfl (by decide) (by decide)).mpr (by
      rintro ⟨b, f, le, before, -, -, -, behind, whole⟩
      have first : between.Row (1010 - b) b := before
      have last : between.Row 1030 f := behind
      have whole : b + 20 + f = 128 := whole
      have taken : ∀ q, q = 999 ∨ q = 1060 → ∀ a span, between.Free a span → ¬ span.pages.Has q := by
        rintro q (rfl | rfl) a span free
        all_goals rcases between_free free with rfl | rfl <;> decide
      have few := first.outside (taken 999 (.inl rfl))
      have few' := last.outside (taken 1060 (.inr rfl))
      have le : b ≤ 1010 := le
      omega)
  have done : (between.releaseSpan (2 * npages) 1).any (fun pc =>
      ((pc.idspanmap 1010).bind pc.spans).any fun span =>
        span.pageid = 1000 ∧ span.npage = 60) = true := by
    decide +kernel
  rw [run _ (Nat.le_refl _), Option.any_some,
    returned.order.wf.mapped a merged 1010 returned.there (returned.covers 1010 (by decide))
      (.inl (Nat.lt_of_le_of_lt returned.few (by decide))), Option.bind_some, returned.there,
    Option.any_some] at done
  exact ⟨pc', a, merged, run, returned, maximal, of_decide_eq_true done⟩

/-! ### Two halves of a region -/

def halves : PageCache := laidOut [⟨1064, 64, [], 0, 0⟩, ⟨1000, 64, [], 0, 0⟩] [0]

theorem halves_free (free : halves.Free a span) : span = ⟨1064, 64, [], 0, 0⟩ := by
  obtain ⟨listed, there⟩ := laidOut_free free
  obtain rfl := List.mem_singleton.mp listed
  exact (Option.some.inj there).symm

theorem halves_not_joined : ∃ pc cur span, pc.InOrder (some cur) ∧ pc.Out cur span ∧
    span.usecount = 0 ∧ 0 < span.npage ∧ span.npage < npages ∧
      ¬ ∃ pc' a merged, (∀ rounds, 2 * npages ≤ rounds → pc.releaseSpan rounds cur = some pc') ∧
        Returned pc pc' span a merged ∧ pc'.Maximal a merged := by
  have order : halves.InOrder (some 1) :=
    laidOut_inOrder (by decide) (by decide) (by decide) (by decide) (by decide)
  have out : halves.Out 1 ⟨1000, 64, [], 0, 0⟩ := laidOut_out rfl (by decide)
  refine ⟨halves, 1, _, order, out, rfl, by decide, by decide, ?_⟩
  have other : halves.Free 0 ⟨1064, 64, [], 0, 0⟩ :=
    ⟨rfl, 64, by decide, mem_laidOut.mpr ⟨List.mem_singleton_self 0, _, rfl, rfl⟩⟩
  refine fun joins => (releaseSpan_iff order out rfl (by decide) (by decide)).mp joins ?_
  refine ⟨0, 64, by decide, .nil _, by decide, fun b some_ le row => ?_, by decide, .single other, rfl⟩
  have before : halves.Row (1000 - b) b := row
  have le : b ≤ 1000 := le
  have outside := before.outside (q := 999) fun a span free => by
    obtain rfl := halves_free free
    decide
  omega

end PageCache

end ProjectsCpp.ConcurrentMemoryPool
