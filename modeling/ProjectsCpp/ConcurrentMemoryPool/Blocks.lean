import ProjectsCpp.ConcurrentMemoryPool.Slicing

/-! The blocks that clients hold: who has which object, what every step keeps of that, and that no
two live blocks meet as long as no step goes wrong in one of the known ways. -/

namespace ProjectsCpp.ConcurrentMemoryPool
open ProjectsCpp.Run ProjectsCpp.Ranges PageCache SizeClass

/-- Who has an object that is out of its span. -/
inductive Holder (T : Type) where
  | cache (t : T) (i : Nat)
  | client
  | pending (i : Nat)

def Holder.sizeClass {T : Type} : Holder T → Option Nat
  | .cache _ i => some i
  | .client => none
  | .pending i => some i

/-- Each object that someone has is out of its span, is had once, and is of the right class. -/
structure Held {T : Type} (busy : Nat → Span → Prop) (has : Holder T → List Nat) (out : List Nat) :
    Prop where
  lent : ∀ h, ∀ q ∈ has h, q ∈ out
  once : ∀ h, (has h).Nodup
  single : ∀ h h', ∀ q ∈ has h, q ∈ has h' → h = h'
  kind : ∀ h i, h.sizeClass = some i → ∀ q ∈ has h, ∀ a span, busy a span →
    span.pages.Has (q / pageSize) → index span.objsize = i

def Stays (busy busy' : Nat → Span → Prop) (out : List Nat) : Prop :=
  ∀ q ∈ out, ∀ a span, busy' a span → span.pages.Has (q / pageSize) →
    ∃ before, busy a before ∧ span.pages = before.pages ∧ span.objsize = before.objsize

namespace Held
variable {T : Type} {busy busy' : Nat → Span → Prop} {has has' : Holder T → List Nat}
  {out out' : List Nat}

theorem stays (held : Held busy has out) (stays : Stays busy busy' out) (more : out ⊆ out') :
    Held busy' has out' where
  lent := fun h q inside => more (held.lent h q inside)
  once := held.once
  single := held.single
  kind := by
    intro h i its q inside a span there page
    obtain ⟨before, old, pages, size⟩ := stays q (held.lent h q inside) a span there page
    exact size ▸ held.kind h i its q inside a before old (pages ▸ page)

theorem pass (held : Held busy has out) (new : Holder T) (moved : List Nat)
    (inside : moved ⊆ out) (once : moved.Nodup) (mine : has' new = moved ++ has new)
    (others : ∀ h, h ≠ new → (has' h).Sublist (has h))
    (gone : ∀ h, ∀ q ∈ moved, q ∈ has' h → h = new) (apart : ∀ q ∈ moved, q ∉ has new)
    (kind : ∀ i, new.sizeClass = some i → ∀ q ∈ moved, ∀ a span, busy a span →
      span.pages.Has (q / pageSize) → index span.objsize = i) :
    Held busy has' out := by
  have old : ∀ h, ∀ q ∈ has' h, q ∉ moved → q ∈ has h := by
    intro h q its still
    by_cases same : h = new
    · subst same
      rw [mine] at its
      exact (List.mem_append.mp its).resolve_left still
    · exact (others h same).subset its
  refine ⟨fun h q its => ?_, fun h => ?_, fun h h' q left right => ?_,
    fun h i sized q its a span there page => ?_⟩
  · by_cases moves : q ∈ moved
    · exact inside moves
    · exact held.lent h q (old h q its moves)
  · by_cases same : h = new
    · subst same
      rw [mine]
      refine List.nodup_append.mpr ⟨once, held.once h, ?_⟩
      rintro q moves _ its rfl
      exact apart q moves its
    · exact (held.once h).sublist (others h same)
  · by_cases moves : q ∈ moved
    · rw [gone h q moves left, gone h' q moves right]
    · exact held.single h h' q (old h q left moves) (old h' q right moves)
  · by_cases moves : q ∈ moved
    · obtain rfl := gone h q moves its
      exact kind i sized q moves a span there page
    · exact held.kind h i sized q (old h q its moves) a span there page

theorem drop {q : Nat} {h : Holder T} (held : Held busy has out) (mine : has h = q :: has' h)
    (others : ∀ h', h' ≠ h → has' h' = has h') : Held busy has' (out.erase q) := by
  have sub : ∀ h', (has' h').Sublist (has h') := by
    intro h'
    by_cases same : h' = h
    · subst same
      exact mine ▸ List.sublist_cons_self _ _
    · exact others h' same ▸ .refl _
  refine ⟨fun h' p its => ?_, fun h' => (held.once h').sublist (sub h'),
    fun h₁ h₂ p left right => held.single h₁ h₂ p ((sub h₁).subset left) ((sub h₂).subset right),
    fun h' i sized p its => held.kind h' i sized p ((sub h').subset its)⟩
  have unlike : p ≠ q := by
    rintro rfl
    have first : p ∈ has h := mine ▸ .head _
    obtain rfl := held.single h' h p ((sub h').subset its) first
    have once := held.once h'
    rw [mine] at once
    exact (List.nodup_cons.mp once).1 its
  exact (List.mem_erase_of_ne unlike).mpr (held.lent h' p ((sub h').subset its))

end Held

namespace Work

def hand : Work → Option (Nat × Merging)
  | .merging hand _ _ => some hand
  | _ => none

def pending : Work → Nat → List Nat
  | .idle, _ => []
  | .objects objs i, j => if j = i then objs else []
  | .merging _ objs i, j => if j = i then objs else []

end Work

namespace Pool
variable {T : Type} {pool : Pool T} {work : Work} {out : List Nat} {a : Nat} {span : Span}

theorem workOf_hand (hand : Option (Nat × Merging)) (objs : List Nat) (i : Nat) :
    (workOf hand objs i).hand = hand := by
  cases hand <;> rfl

theorem workOf_pending (hand : Option (Nat × Merging)) (objs : List Nat) (i j : Nat) :
    (workOf hand objs i).pending j = if j = i then objs else [] := by
  cases hand <;> rfl

def Busy (pool : Pool T) (work : Work) (a : Nat) (span : Span) : Prop :=
  pool.pages.HandedOut work.hand a span ∧ 0 < span.usecount

def held (pool : Pool T) (work : Work) : Holder T → List Nat
  | .cache t i => (((pool.tlslist t).getD .new) i).list
  | .client => (pool.live.filter (·.2 ≤ maxBytes)).map Prod.fst
  | .pending i => work.pending i

/-- A big block is the start of a span of its own. -/
def Big (pool : Pool T) (work : Work) (b : Nat × Nat) : Prop :=
  ∃ a span, pool.pages.HandedOut work.hand a span ∧ span.usecount = 0 ∧ maxBytes < span.objsize ∧
    span.objsize / pageSize = span.npage ∧ b.1 = span.pageid * pageSize ∧
      b.2 ≤ span.npage * pageSize

/-- What holds of a pool that has not failed, in every state that a run passes. -/
structure Kept (pool : Pool T) (work : Work) (out : List Nat) : Prop where
  sound : Sound pool.pages
  hand : ∀ h ∈ work.hand, pool.pages.InHand h
  objects : Objects (pool.Busy work) pool.central out
  held : Held (pool.Busy work) (pool.held work) out
  small : ∀ b ∈ pool.live, b.2 ≤ maxBytes → ∀ a span, pool.Busy work a span →
    span.pages.Has (b.1 / pageSize) →
      b.2 ≤ span.objsize ∧ b.1 + b.2 ≤ span.bytes.start + span.bytes.size
  big : ∀ b ∈ pool.live, maxBytes < b.2 → pool.Big work b
  positive : ∀ b ∈ pool.live, 0 < b.2
  once : (pool.live.map Prod.fst).Nodup
  moves : ∀ t cache i, pool.tlslist t = some cache → 0 < (cache i).maxsize

/-- The object `p` has gone back to its span; a span without lent objects is with the page cache. -/
structure GivenBack (pool pool' : Pool T) (work' : Work) (p i : Nat) (rest : List Nat) (a : Nat)
    (span : Span) : Prop where
  busy : pool.Busy (.objects (p :: rest) i) a span
  grid : span.Grid p
  sized : index span.objsize = i
  lists : pool'.tlslist = pool.tlslist ∧ pool'.live = pool.live
  handed : ∀ b other, pool'.pages.HandedOut work'.hand b other ↔
    span.usecount ≠ 1 ∧ b = a ∧ other = span.back p ∨ b ≠ a ∧ pool.pages.Out b other
  last : span.usecount = 1 → work' = .merging (a, .prev) rest i ∧
    pool'.central = Function.update pool.central i ((pool.central i).erase a) ∧
      pool'.pages.spans a = some (span.back p)
  more : span.usecount ≠ 1 → work' = .objects rest i ∧ pool'.central = pool.central

theorem Big.page {b : Nat × Nat} {span : Span} (start : b.1 = span.pageid * pageSize)
    (size : b.2 ≤ span.npage * pageSize) (positive : 0 < b.2) :
    b.1 / pageSize = span.pageid ∧ span.pages.Has (b.1 / pageSize) := by
  have page : b.1 / pageSize = span.pageid := by
    rw [start]
    exact Nat.mul_div_cancel _ (by decide)
  refine ⟨page, Nat.le_of_eq page.symm, ?_⟩
  have some : 0 < span.npage := Nat.pos_of_mul_pos_right (Nat.lt_of_lt_of_le positive size)
  show b.1 / pageSize < span.pageid + span.npage
  omega

namespace Kept

theorem out_of_client (kept : pool.Kept work out) {b : Nat × Nat} (live : b ∈ pool.live)
    (small : b.2 ≤ maxBytes) : b.1 ∈ pool.held work .client ∧ b.1 ∈ out :=
  have mine : b.1 ∈ pool.held work .client :=
    List.mem_map_of_mem (List.mem_filter.mpr ⟨live, decide_eq_true small⟩)
  ⟨mine, kept.held.lent _ _ mine⟩

theorem not_big (kept : pool.Kept work out) {b : Nat × Nat} (live : b ∈ pool.live)
    (big : maxBytes < b.2) : b.1 ∉ out := by
  intro inside
  obtain ⟨a, span, its, unused, -, -, start, size⟩ := kept.big b live big
  obtain ⟨c, other, busy, grid, -⟩ := kept.objects.lent b.1 inside
  have page := (Big.page start size (kept.positive b live)).2
  obtain rfl := kept.sound.apart a c span other _ its.1.1 busy.1.1.1 page grid.page
  obtain rfl := Option.some.inj (its.1.1.symm.trans busy.1.1.1)
  exact Nat.lt_irrefl _ (unused ▸ busy.2)

theorem not_live (kept : pool.Kept work out) {q : Nat} (inside : q ∈ out)
    (other : q ∉ pool.held work .client) : q ∉ pool.live.map Prod.fst := by
  intro mine
  obtain ⟨b, live, rfl⟩ := List.mem_map.mp mine
  by_cases small : b.2 ≤ maxBytes
  · exact other (kept.out_of_client live small).1
  · exact kept.not_big live (Nat.not_le.mp small) inside

theorem mapped (kept : pool.Kept work out) {q : Nat} (inside : q ∈ out) :
    ∃ a span, mapObjectToSpan pool.pages q = some a ∧ pool.pages.spans a = some span ∧
      pool.Busy work a span ∧ span.Grid q ∧ q ∉ span.list := by
  obtain ⟨a, span, busy, grid, unlisted⟩ := kept.objects.lent q inside
  exact ⟨a, span, kept.sound.mapped a span _ busy.1.1.1 grid.page (.inl (kept.objects.few a span busy)),
    busy.1.1.1, busy, grid, unlisted⟩

theorem new {tlslist : T → Option ThreadCache}
    (empty : ∀ t i, (((tlslist t).getD .new) i).list = [])
    (moves : ∀ t cache i, tlslist t = some cache → 0 < (cache i).maxsize) :
    (⟨.init, fun _ => [], tlslist, []⟩ : Pool T).Kept .idle [] := by
  refine ⟨Sound.init, nofun, ?_, ?_, nofun, nofun, nofun, List.nodup_nil, moves⟩
  · have none : ∀ a span, ¬ (⟨.init, fun _ => [], tlslist, []⟩ : Pool T).Busy .idle a span :=
      fun a span busy => nomatch busy.1.1.1
    exact {
      unique := fun a span _ its => absurd its (none a span)
      apart := fun a _ span _ _ its => absurd its (none a span)
      shelf := fun i a => ⟨nofun, fun ⟨span, its, _⟩ => absurd its (none a span)⟩
      once := fun _ => List.nodup_nil
      sized := fun a span its => absurd its (none a span)
      few := fun a span its => absurd its (none a span)
      cut := fun a span its => absurd its (none a span)
      lent := nofun
      outOnce := List.nodup_nil
      count := fun a span its => absurd its (none a span) }
  · have nobody : ∀ h : Holder T,
        (⟨.init, fun _ => [], tlslist, []⟩ : Pool T).held .idle h = [] := by
      rintro (⟨t, i⟩ | _ | _)
      · exact empty t i
      all_goals rfl
    have nothing : ∀ (h : Holder T) (q : Nat),
        q ∉ (⟨.init, fun _ => [], tlslist, []⟩ : Pool T).held .idle h := fun h q its => by
      rw [nobody] at its
      exact nomatch its
    exact ⟨fun h q its => absurd its (nothing h q), fun h => nobody h ▸ List.nodup_nil,
      fun h _ q its => absurd its (nothing h q), fun h _ _ q its => absurd its (nothing h q)⟩

/-! ### The rounds of a release -/

theorem small_stays (kept : pool.Kept work out) {busy' : Nat → Span → Prop}
    (stays : Stays (pool.Busy work) busy' out) {b : Nat × Nat} (live : b ∈ pool.live)
    (small : b.2 ≤ maxBytes) (there : busy' a span) (has : span.pages.Has (b.1 / pageSize)) :
    b.2 ≤ span.objsize ∧ b.1 + b.2 ≤ span.bytes.start + span.bytes.size := by
  obtain ⟨before, busy, pages, size⟩ := stays b.1 (kept.out_of_client live small).2 a span there has
  obtain ⟨fits, ends⟩ := kept.small b live small a before busy (pages ▸ has)
  rw [size, Span.bytes_congr pages]
  exact ⟨fits, ends⟩

theorem merging {hand : Nat × Merging} {objs : List Nat} {i : Nat}
    (kept : pool.Kept (.merging hand objs i) out) (guarded : pool.pages.Guarded hand) :
    ∃ pages' hand', pool.round (.merging hand objs i) =
        some ({ pool with pages := pages' }, workOf hand' objs i) ∧
      ({ pool with pages := pages' } : Pool T).Kept (workOf hand' objs i) out ∧
        ∀ b other, pages'.HandedOut hand' b other ↔ pool.pages.HandedOut (some hand) b other := by
  obtain ⟨pages', hand', done, leaves⟩ := kept.sound.merge (kept.hand hand rfl) guarded
  have same : ({ pool with pages := pages' } : Pool T).Busy (workOf hand' objs i) =
      pool.Busy (.merging hand objs i) := by
    funext a span
    rw [Busy, workOf_hand, leaves.rest]
    rfl
  have held : ({ pool with pages := pages' } : Pool T).held (workOf hand' objs i) =
      pool.held (.merging hand objs i) := by
    funext h
    cases h with
    | pending j => exact workOf_pending hand' objs i j
    | _ => rfl
  refine ⟨pages', hand', by rw [round, done]; rfl, ⟨leaves.sound, ?_, ?_, ?_, ?_, ?_, kept.positive,
    kept.once, kept.moves⟩, leaves.rest⟩
  · rw [workOf_hand]
    exact leaves.current
  · rw [same]
    exact kept.objects
  · rw [same, held]
    exact kept.held
  · rw [same]
    exact kept.small
  · intro b live large
    obtain ⟨a, span, its, rest⟩ := kept.big b live large
    refine ⟨a, span, ?_, rest⟩
    rw [workOf_hand]
    exact (leaves.rest a span).mpr its

section GiveBack
variable {p i : Nat} {rest : List Nat}

theorem held_objects : pool.held (.objects (p :: rest) i) (.pending i) = p :: rest := if_pos rfl

theorem inside_of_objects (kept : pool.Kept (.objects (p :: rest) i) out) : p ∈ out := by
  refine kept.held.lent (.pending i) p ?_
  rw [held_objects]
  exact .head _

theorem usecount_back (kept : pool.Kept (.objects (p :: rest) i) out)
    (busy : pool.Busy (.objects (p :: rest) i) a span) :
    (span.usecount + 2 ^ 64 - 1) % 2 ^ 64 = span.usecount - 1 := by
  have := busy.2
  have := kept.objects.usecount_lt busy
  omega

theorem busy_objects {b : Nat} {other : Span} :
    pool.Busy (.objects (p :: rest) i) b other ↔ pool.pages.Out b other ∧ 0 < other.usecount :=
  and_congr_left' handedOut_none

theorem big_apart (kept : pool.Kept (.objects (p :: rest) i) out)
    (busy : pool.Busy (.objects (p :: rest) i) a span) {b : Nat × Nat} (live : b ∈ pool.live)
    (large : maxBytes < b.2) : ∃ c other, c ≠ a ∧ pool.pages.Out c other ∧
      other.usecount = 0 ∧ maxBytes < other.objsize ∧ other.objsize / pageSize = other.npage ∧
        b.1 = other.pageid * pageSize ∧ b.2 ≤ other.npage * pageSize := by
  obtain ⟨c, other, its, unused, rest⟩ := kept.big b live large
  refine ⟨c, other, ?_, its.1, unused, rest⟩
  rintro rfl
  obtain rfl := Option.some.inj (its.1.1.symm.trans busy.1.1.1)
  exact Nat.lt_irrefl _ (unused ▸ busy.2)

theorem objects_back (kept : pool.Kept (.objects (p :: rest) i) out)
    (busy : pool.Busy (.objects (p :: rest) i) a span) (grid : span.Grid p) :
    Objects (fun b other => b = a ∧ other = span.back p ∨
      b ≠ a ∧ pool.Busy (.objects (p :: rest) i) b other) pool.central (out.erase p) :=
  kept.objects.back busy (inside_of_objects kept) grid.page fun _ _ => .rfl

theorem giveBack_last (kept : pool.Kept (.objects (p :: rest) i) out)
    (found : mapObjectToSpan pool.pages p = some a)
    (busy : pool.Busy (.objects (p :: rest) i) a span) (grid : span.Grid p)
    (sized : index span.objsize = i) (one : span.usecount = 1) :
    ∃ pool' work', pool.giveBack p rest i = some (pool', work') ∧
      pool'.Kept work' (out.erase p) ∧ GivenBack pool pool' work' p i rest a span := by
  have last : span.usecount - 1 = 0 := by omega
  obtain ⟨sound₁, out₁⟩ := kept.sound.putOut (s := span.back p) busy.1.1 rfl
  have shelved : a ∈ pool.central i := (kept.objects.shelf i a).mpr ⟨span, busy, sized⟩
  obtain ⟨pages', hand', done, leaves⟩ := sound₁.release ((out₁ a _).mpr (.inl ⟨rfl, rfl⟩)) last
  have after : ∀ b other, pages'.HandedOut (workOf hand' rest i).hand b other ↔
      b ≠ a ∧ pool.pages.Out b other := by
    intro b other
    rw [workOf_hand, leaves.rest, out₁]
    grind
  have busy' : ∀ b other, (pages'.HandedOut (workOf hand' rest i).hand b other ∧
      0 < other.usecount) ↔ b ≠ a ∧ pool.Busy (.objects (p :: rest) i) b other := by
    intro b other
    rw [after, busy_objects, and_assoc]
  have stays : Stays (pool.Busy (.objects (p :: rest) i)) (fun b other =>
      pages'.HandedOut (workOf hand' rest i).hand b other ∧ 0 < other.usecount) out :=
    fun q _ b other its _ => ⟨other, ((busy' b other).mp its).2, rfl, rfl⟩
  have started : (pool.pages.putSpan a (span.back p)).release a =
      some (pool.pages.putSpan a (span.back p), some (a, .prev)) := by
    rw [release, ((out₁ a _).mpr (.inl ⟨rfl, rfl⟩)).1, Option.map_some]
    exact congrArg some (if_neg (Nat.not_le.mpr (kept.objects.few a span busy)))
  obtain ⟨rfl, rfl⟩ := Prod.mk.inj (Option.some.inj (done.symm.trans started))
  rw [Pool.giveBack, found, Option.bind_some, busy.1.1.1, Option.bind_some, usecount_back kept busy]
  refine ⟨{ pool with
      pages := pool.pages.putSpan a (span.back p)
      central := Function.update pool.central i ((pool.central i).erase a) },
    workOf (some (a, .prev)) rest i,
    by simp only [if_pos last, if_pos shelved, done, Option.map_some],
    ⟨leaves.sound, ?_, ?_, ?_, fun b live small c other => kept.small_stays stays live small, ?_,
      kept.positive, kept.once, kept.moves⟩,
    busy, grid, sized, ⟨rfl, rfl⟩, fun b other => ?_, fun _ => ⟨rfl, rfl, ?_⟩,
    fun apart => absurd one apart⟩
  · rw [workOf_hand]
    exact leaves.current
  · rw [← sized]
    have back := objects_back kept busy grid
    refine back.close (s := span.back p) (.inl ⟨rfl, rfl⟩) last fun b other => ?_
    have := busy' b other
    rw [Busy, sized]
    grind
  · refine (kept.held.stays stays (List.Subset.refl _)).drop (h := .pending i) ?_ fun h unlike => ?_
    · rw [held_objects]
      exact congrArg (p :: ·) ((workOf_pending (some (a, .prev)) rest i i).trans (if_pos rfl)).symm
    · cases h with
      | pending j =>
        have apart : j ≠ i := fun same => unlike (congrArg _ same)
        exact ((workOf_pending (some (a, .prev)) rest i j).trans (if_neg apart)).trans
          (if_neg apart).symm
      | _ => rfl
  · intro b live large
    obtain ⟨c, other, unlike, its, rest⟩ := big_apart kept busy live large
    exact ⟨c, other, (after c other).mpr ⟨unlike, its⟩, rest⟩
  · rw [after, or_iff_right fun both => both.1 one]
  · exact Function.update_self ..

theorem giveBack_more (kept : pool.Kept (.objects (p :: rest) i) out)
    (found : mapObjectToSpan pool.pages p = some a)
    (busy : pool.Busy (.objects (p :: rest) i) a span) (grid : span.Grid p)
    (sized : index span.objsize = i) (more : span.usecount ≠ 1) :
    ∃ pool' work', pool.giveBack p rest i = some (pool', work') ∧
      pool'.Kept work' (out.erase p) ∧ GivenBack pool pool' work' p i rest a span := by
  have last : span.usecount - 1 ≠ 0 := by
    have := busy.2
    omega
  obtain ⟨sound₁, out₁⟩ := kept.sound.putOut (s := span.back p) busy.1.1 rfl
  have busy' : ∀ b other, ((pool.pages.putSpan a (span.back p)).HandedOut none b other ∧
        0 < other.usecount) ↔ b = a ∧ other = span.back p ∨
        b ≠ a ∧ pool.Busy (.objects (p :: rest) i) b other := by
    intro b other
    rw [handedOut_none, out₁, busy_objects]
    constructor
    · rintro ⟨⟨rfl, rfl⟩ | ⟨unlike, its⟩, some⟩
      · exact .inl ⟨rfl, rfl⟩
      · exact .inr ⟨unlike, its, some⟩
    · rintro (⟨rfl, rfl⟩ | ⟨unlike, its, some⟩)
      · exact ⟨.inl ⟨rfl, rfl⟩, Nat.pos_of_ne_zero last⟩
      · exact ⟨.inr ⟨unlike, its⟩, some⟩
  have stays : Stays (pool.Busy (.objects (p :: rest) i)) (fun b other =>
      (pool.pages.putSpan a (span.back p)).HandedOut none b other ∧
        0 < other.usecount) out := by
    intro q _ b other its _
    rcases (busy' b other).mp its with ⟨rfl, rfl⟩ | ⟨-, its⟩
    · exact ⟨span, busy, rfl, rfl⟩
    · exact ⟨other, its, rfl, rfl⟩
  rw [Pool.giveBack, found, Option.bind_some, busy.1.1.1, Option.bind_some, usecount_back kept busy]
  refine ⟨{ pool with pages := pool.pages.putSpan a (span.back p) }, .objects rest i,
    by simp only [if_neg last],
    ⟨sound₁, nofun, (objects_back kept busy grid).congr busy', ?_,
      fun b live small c other => kept.small_stays stays live small, ?_, kept.positive, kept.once,
      kept.moves⟩,
    busy, grid, sized, ⟨rfl, rfl⟩, fun b other => ?_, fun one => absurd one more,
    fun _ => ⟨rfl, rfl⟩⟩
  · refine (kept.held.stays stays (List.Subset.refl _)).drop (h := .pending i) ?_ fun h unlike => ?_
    · rw [held_objects]
      exact congrArg (p :: ·) (if_pos rfl).symm
    · cases h with
      | pending j =>
        have apart : j ≠ i := fun same => unlike (congrArg _ same)
        exact (if_neg apart).trans (if_neg apart).symm
      | _ => rfl
  · intro b live large
    obtain ⟨c, other, unlike, its, rest⟩ := big_apart kept busy live large
    exact ⟨c, other, handedOut_none.mpr ((out₁ c other).mpr (.inr ⟨unlike, its⟩)), rest⟩
  · rw [show Work.hand (.objects rest i) = none from rfl, handedOut_none, out₁, and_iff_right more]

theorem giveBack (kept : pool.Kept (.objects (p :: rest) i) out) :
    ∃ pool' work' a span, pool.giveBack p rest i = some (pool', work') ∧
      pool'.Kept work' (out.erase p) ∧ GivenBack pool pool' work' p i rest a span := by
  have first : p ∈ pool.held (.objects (p :: rest) i) (.pending i) := by
    rw [held_objects]
    exact .head _
  obtain ⟨a, span, found, there, busy, grid, -⟩ := kept.mapped (inside_of_objects kept)
  have sized : index span.objsize = i := kept.held.kind _ i rfl p first a span busy grid.page
  by_cases one : span.usecount = 1
  · obtain ⟨pool', work', back⟩ := giveBack_last kept found busy grid sized one
    exact ⟨pool', work', a, span, back⟩
  · obtain ⟨pool', work', back⟩ := giveBack_more kept found busy grid sized one
    exact ⟨pool', work', a, span, back⟩

end GiveBack

/-! ### Objects come out -/

end Kept

theorem firstFull_cases {pages : PageCache} {l : List Nat}
    (there : ∀ a ∈ l, ∃ span, pages.spans a = some span) :
    firstFull pages l = some none ∨ ∃ a ∈ l, ∃ span, pages.spans a = some span ∧ span.list ≠ [] ∧
      firstFull pages l = some (some a) := by
  induction l with
  | nil => exact .inl rfl
  | cons a rest ih =>
    obtain ⟨span, its⟩ := there a (.head _)
    rw [firstFull, its, Option.bind_some]
    by_cases full : span.list ≠ []
    · exact .inr ⟨a, .head _, span, its, full, if_pos full⟩
    · rw [if_neg full]
      rcases ih fun b inside => there b (.tail _ inside) with none | ⟨b, inside, rest⟩
      · exact .inl none
      · exact .inr ⟨b, .tail _ inside, rest⟩

/-- A span that has objects to give: it is new, with all its objects, or the first in its list that
has any. -/
structure Opened (pool pool' : Pool T) (out : List Nat) (size a : Nat) (span : Span) : Prop where
  sound : Sound pool'.pages
  tlslist : pool'.tlslist = pool.tlslist
  live : pool'.live = pool.live
  full : span.list ≠ []
  sized : index span.objsize = index size
  pages : ∀ b other, pool'.pages.Out b other ↔ b = a ∧ other = span ∨ b ≠ a ∧ pool.pages.Out b other
  old : ∀ other, pool.pages.Out a other → other = span ∧ 0 < span.usecount
  objects : Objects (fun b other => b = a ∧ other = span ∨ pool.Busy .idle b other) pool'.central out
  origin : span.usecount = 0 ∧ span.list = span.slices span.objsize ∨
    firstFull pool.pages (pool.central (index size)) = some (some a) ∧ pool.Busy .idle a span

namespace Kept

theorem cut {size page : Nat} (kept : pool.Kept .idle out) (positive : 0 < size)
    (small : size ≤ maxBytes) (fresh : pool.pages.SpanFresh (numMovePage (roundUp size)) page)
    (none : firstFull pool.pages (pool.central (index (roundUp size))) = some none) :
    ∃ pool' a span, pool.getOneSpan (roundUp size) page = some (pool', a) ∧
      Opened pool pool' out size a span := by
  have rounded := roundUp_le small
  have fits := le_roundUp small
  obtain ⟨pages', a, span, done, taken, count⟩ := kept.sound.newSpan (numMovePage_lt rounded) fresh
  have mine : pages'.Out a span := (taken.out a span).mpr (.inl ⟨rfl, rfl⟩)
  have some : 0 < span.npage := count ▸ Nat.le_max_right _ _
  let first := span.pageid * pageSize
  let stop := first + span.npage * pageSize
  let span' : Span := { span with
    list := slice (roundUp size) stop (stop - first) first, objsize := roundUp size }
  obtain ⟨sound', out'⟩ := taken.sound.putOut (s := span') mine rfl
  have room : roundUp size ≤ span.npage * pageSize := count ▸ le_numMovePage (roundUp size)
  have less : first < stop := Nat.lt_add_of_pos_right (by omega)
  have cut : ∀ q ∈ span'.list, span'.Grid q := by
    intro q listed
    obtain ⟨place, last⟩ := (mem_slice (by omega) (Nat.le_refl _)).mp listed
    refine ⟨place, ?_⟩
    rcases last with rfl | before
    · exact less
    · exact before
  have pages : ∀ b other, (pages'.putSpan a span').Out b other ↔
      b = a ∧ other = span' ∨ b ≠ a ∧ pool.pages.Out b other := by
    intro b other
    rw [out', taken.out]
    grind
  have new : ∀ other, ¬ pool.Busy .idle a other := fun other busy =>
    taken.new other (handedOut_none.mp busy.1)
  refine ⟨{ pool with
      pages := pages'.putSpan a span'
      central := Function.update pool.central (index (roundUp size))
        (a :: pool.central (index (roundUp size))) }, a, span', by
    rw [getOneSpan, none, Option.bind_some]
    simp only [done, Option.bind_some, mine.1, Option.map_some]
    rfl, sound', rfl, rfl, ?_, index_roundUp positive small, pages,
    fun other before => absurd before (taken.new other), ?_, ?_⟩
  · show slice (roundUp size) stop (stop - first) first ≠ []
    cases stop - first <;> exact List.cons_ne_nil _ _
  · refine kept.objects.open' new ?_ ⟨by show 0 < roundUp size; omega, rounded, roundUp_roundUp small, count⟩
      (by show span.npage < npages; exact count ▸ numMovePage_lt rounded)
      ⟨slice_nodup (by omega) (Nat.le_refl _), cut⟩ taken.unused fun b other => .rfl
    intro b other p busy has has'
    have before := handedOut_none.mp busy.1
    have unlike : b ≠ a := fun same => taken.new other (same ▸ before)
    have there := ((pages b other).mpr (.inr ⟨unlike, before⟩)).1
    exact unlike (sound'.apart b a other span' p there
      ((pages a span').mpr (.inl ⟨rfl, rfl⟩)).1 has' has)
  · exact .inl ⟨taken.unused, rfl⟩

theorem getOneSpan {size page : Nat} (kept : pool.Kept .idle out) (positive : 0 < size)
    (small : size ≤ maxBytes) (fresh : pool.pages.SpanFresh (numMovePage (roundUp size)) page) :
    ∃ pool' a span, pool.getOneSpan (roundUp size) page = some (pool', a) ∧
      Opened pool pool' out size a span := by
  have there : ∀ i, ∀ a ∈ pool.central i, ∃ span, pool.pages.spans a = some span := by
    intro i a inside
    obtain ⟨span, busy, -⟩ := (kept.objects.shelf i a).mp inside
    exact ⟨span, busy.1.1.1⟩
  rcases firstFull_cases (there (index (roundUp size))) with none | ⟨a, inside, span, its, full, found⟩
  · exact kept.cut positive small fresh none
  · obtain ⟨span', busy, sized⟩ := (kept.objects.shelf _ a).mp inside
    obtain rfl := Option.some.inj (busy.1.1.1.symm.trans its)
    rw [index_roundUp positive small] at sized found
    have opened : ∀ b other, pool.Busy .idle b other ↔
        b = a ∧ other = span' ∨ pool.Busy .idle b other := by
      intro b other
      constructor
      · exact .inr
      · rintro (⟨rfl, rfl⟩ | before)
        · exact busy
        · exact before
    refine ⟨pool, a, span', by
      rw [Pool.getOneSpan, index_roundUp positive small, found]
      rfl, kept.sound, rfl, rfl, full, sized, fun b other => ?_, fun other before =>
      ⟨Option.some.inj (before.1.symm.trans its), busy.2⟩,
      kept.objects.congr fun b other => (opened b other).symm, .inr ⟨found, busy⟩⟩
    have mine := busy.1.1
    rw [Out] at mine ⊢
    grind

end Kept

/-- A batch of objects has come out of a span; no one has them yet. -/
structure Fetched (pool pool' : Pool T) (out : List Nat) (size n : Nat) (batch : List Nat) (a : Nat)
    (span : Span) : Prop where
  kept : pool'.Kept .idle (batch ++ out)
  tlslist : pool'.tlslist = pool.tlslist
  live : pool'.live = pool.live
  full : batch ≠ []
  sized : ∀ q ∈ batch, ∀ a span, pool'.Busy .idle a span → span.pages.Has (q / pageSize) →
    index span.objsize = index size
  source : ∃ pool₁, Opened pool pool₁ out size a span
  objs : batch = span.list.take n
  mine : ∀ q ∈ batch, ∀ b other, pool'.Busy .idle b other → other.pages.Has (q / pageSize) →
    other = span.lend n
  after : ∀ b other, pool'.pages.Out b other ↔
    b = a ∧ other = span.lend n ∨ b ≠ a ∧ pool.pages.Out b other

theorem held_congr {pool' : Pool T} (lists : pool'.tlslist = pool.tlslist)
    (live : pool'.live = pool.live) : pool'.held work = pool.held work := by
  funext h
  cases h with
  | cache t i => rw [held, held, lists]
  | client => rw [held, held, live]
  | pending i => rfl

theorem Opened.lent {pool₁ pool₂ : Pool T} {size n : Nat} (kept : pool.Kept .idle out)
    (opened : Opened pool pool₁ out size a span) (some : 0 < n)
    (pages : pool₂.pages = pool₁.pages.putSpan a (span.lend n))
    (central : ∀ i, (pool₂.central i).Perm (pool₁.central i))
    (lists : pool₂.tlslist = pool₁.tlslist) (live : pool₂.live = pool₁.live) :
    Fetched pool pool₂ out size n (span.list.take n) a span := by
  obtain ⟨sound₂, out₂⟩ := opened.sound.putOut (s := span.lend n)
    ((opened.pages a span).mpr (.inl ⟨rfl, rfl⟩)) rfl
  rw [← pages] at sound₂ out₂
  have taken : span.list.take n ≠ [] := fun none => by
    rcases List.take_eq_nil_iff.mp none with zero | empty
    · omega
    · exact opened.full empty
  have after : ∀ b other, pool₂.pages.Out b other ↔
      b = a ∧ other = span.lend n ∨ b ≠ a ∧ pool.pages.Out b other := by
    intro b other
    rw [out₂, opened.pages]
    grind
  have busy : ∀ b other, pool₂.Busy .idle b other ↔ b = a ∧ other = span.lend n ∨
      b ≠ a ∧ (b = a ∧ other = span ∨ pool.Busy .idle b other) := by
    intro b other
    have more : 0 < (span.lend n).usecount :=
      Nat.add_pos_right _ (List.length_pos_iff.mpr taken)
    show pool₂.pages.HandedOut none b other ∧ _ ↔ _ ∧ _ ∨ _ ∧ (_ ∨ pool.pages.HandedOut none b other ∧ _)
    rw [handedOut_none, handedOut_none, after]
    grind
  have objects := opened.objects.lend (.inl ⟨rfl, rfl⟩) central busy
  have stays : Stays (pool.Busy .idle) (pool₂.Busy .idle) out := by
    intro q inside b other its has
    rcases (busy b other).mp its with ⟨rfl, rfl⟩ | ⟨unlike, ⟨same, -⟩ | before⟩
    · obtain ⟨c, before, there, grid, -⟩ := kept.objects.lent q inside
      obtain rfl := opened.objects.apart b c span before _ (.inl ⟨rfl, rfl⟩) (.inr there) has grid.page
      obtain rfl := opened.objects.unique b span before (.inl ⟨rfl, rfl⟩) (.inr there)
      exact ⟨span, there, rfl, rfl⟩
    · exact absurd same unlike
    · exact ⟨other, before, rfl, rfl⟩
  have mine : ∀ q ∈ span.list.take n, ∀ b other, pool₂.Busy .idle b other →
      other.pages.Has (q / pageSize) → other = span.lend n := by
    intro q inside b other its has
    have grid := (opened.objects.cut a span (.inl ⟨rfl, rfl⟩)).2 q (List.mem_of_mem_take inside)
    have there := (busy a (span.lend n)).mpr (.inl ⟨rfl, rfl⟩)
    obtain rfl := objects.apart b a other _ _ its there has grid.page
    exact objects.unique b _ _ its there
  have live' : pool₂.live = pool.live := live.trans opened.live
  have lists' : pool₂.tlslist = pool.tlslist := lists.trans opened.tlslist
  refine ⟨⟨sound₂, nofun, objects, ?_, ?_, ?_, ?_, ?_, ?_⟩, lists', live', taken, ?_, ⟨pool₁, opened⟩,
    rfl, mine, after⟩
  · rw [held_congr lists' live']
    exact kept.held.stays stays (List.subset_append_right _ _)
  · intro b inside small c other
    exact kept.small_stays stays (live' ▸ inside) small
  · intro b inside large
    obtain ⟨c, other, its, unused, rest⟩ := kept.big b (live' ▸ inside) large
    refine ⟨c, other, handedOut_none.mpr ((after c other).mpr (.inr ⟨?_, its.1⟩)), unused, rest⟩
    rintro rfl
    obtain ⟨rfl, used⟩ := opened.old other its.1
    exact Nat.lt_irrefl _ (unused ▸ used)
  · exact live' ▸ kept.positive
  · exact live' ▸ kept.once
  · exact lists' ▸ kept.moves
  · intro q inside b other its has
    rw [mine q inside b other its has]
    exact opened.sized

theorem Kept.fetchRangeObj {n size page : Nat} (kept : pool.Kept .idle out) (more : 0 < n)
    (positive : 0 < size) (small : size ≤ maxBytes)
    (fresh : pool.pages.SpanFresh (numMovePage (roundUp size)) page) :
    ∃ pool' batch a span, pool.fetchRangeObj n (roundUp size) page = some (pool', batch) ∧
      Fetched pool pool' out size n batch a span := by
  obtain ⟨pool₁, a, span, done, opened⟩ := kept.getOneSpan positive small fresh
  have there := ((opened.pages a span).mpr (.inl ⟨rfl, rfl⟩)).1
  rw [Pool.fetchRangeObj, done, Option.bind_some]
  simp only [there, Option.map_some]
  refine ⟨{ pool₁ with
    pages := pool₁.pages.putSpan a (span.lend n)
    central := if span.list.drop n = [] then
        Function.update pool₁.central (index (roundUp size))
          ((pool₁.central (index (roundUp size))).erase a ++ [a])
      else pool₁.central }, span.list.take n, a, span, rfl,
    opened.lent kept more rfl (fun i => ?_) rfl rfl⟩
  dsimp only
  split
  · rw [Function.update_apply]
    split
    · rename_i same
      subst same
      refine (List.perm_append_singleton _ _).trans (List.perm_cons_erase ?_).symm
      rw [opened.objects.shelf]
      exact ⟨span, .inl ⟨rfl, rfl⟩, by rw [index_roundUp positive small]; exact opened.sized⟩
    · exact .refl _
  · exact .refl _

namespace Kept

theorem passed (kept : pool.Kept work out) {pool' : Pool T} {work' : Work}
    (pages : pool'.pages = pool.pages) (central : pool'.central = pool.central)
    (hand : work'.hand = work.hand) (held : Held (pool.Busy work) (pool'.held work') out)
    (small : ∀ b ∈ pool'.live, b.2 ≤ maxBytes → ∀ a span, pool.Busy work a span →
      span.pages.Has (b.1 / pageSize) →
        b.2 ≤ span.objsize ∧ b.1 + b.2 ≤ span.bytes.start + span.bytes.size)
    (big : ∀ b ∈ pool'.live, maxBytes < b.2 → b ∈ pool.live) (positive : ∀ b ∈ pool'.live, 0 < b.2)
    (once : (pool'.live.map Prod.fst).Nodup)
    (moves : ∀ t cache i, pool'.tlslist t = some cache → 0 < (cache i).maxsize) :
    pool'.Kept work' out := by
  have busy : pool'.Busy work' = pool.Busy work := by
    funext a span
    rw [Busy, Busy, pages, hand]
  refine ⟨pages ▸ kept.sound, ?_, ?_, busy ▸ held, busy ▸ small, ?_, positive, once, moves⟩
  · rw [hand, pages]
    exact kept.hand
  · rw [busy, central]
    exact kept.objects
  · intro b live large
    obtain ⟨a, span, its, rest⟩ := kept.big b (big b live large) large
    refine ⟨a, span, ?_, rest⟩
    rw [pages, hand]
    exact its

theorem ended {i : Nat} (kept : pool.Kept (.objects [] i) out) : pool.Kept .idle out := by
  refine kept.passed rfl rfl rfl ?_ kept.small (fun _ live _ => live) kept.positive kept.once kept.moves
  have same : pool.held (.objects [] i) = pool.held .idle := by
    funext h
    cases h with
    | pending j => exact ite_self []
    | _ => rfl
  exact same ▸ kept.held

theorem fits {size q : Nat} (kept : pool.Kept work out) (positive : 0 < size) (small : size ≤ maxBytes)
    (there : pool.Busy work a span) (same : index span.objsize = index size) (grid : span.Grid q)
    (last : LastFits size) :
    size ≤ span.objsize ∧ q + size ≤ span.bytes.start + span.bytes.size := by
  obtain ⟨some, limit, rounded, pages⟩ := kept.objects.sized a span there
  have class' : span.objsize = roundUp size :=
    rounded.symm.trans (roundUp_of_index some positive limit small same)
  have fits : size ≤ span.objsize := class' ▸ le_roundUp small
  exact ⟨fits, grid.ends some class' pages fits last⟩

end Kept

section
variable [DecidableEq T] {t : T} {cache : ThreadCache} {i : Nat} {freelist : Freelist}

theorem held_putList : (pool.putList t cache i freelist).held work (.cache t i) = freelist.list := by
  simp only [held, putList, Function.update_self, Option.getD_some]

theorem held_putList_ne (its : cache = (pool.tlslist t).getD .new) {h : Holder T}
    (other : h ≠ .cache t i) : (pool.putList t cache i freelist).held work h = pool.held work h := by
  cases h with
  | cache t' j =>
    simp only [held, putList, Function.update_apply]
    by_cases thread : t' = t
    · subst thread
      have class' : j ≠ i := fun same => other (same ▸ rfl)
      rw [if_pos rfl, Option.getD_some, Function.update_of_ne class', its]
    · rw [if_neg thread]
  | client => rfl
  | pending j => rfl

theorem putList_moves (moves : ∀ t cache i, pool.tlslist t = some cache → 0 < (cache i).maxsize)
    (its : cache = (pool.tlslist t).getD .new) (more : 0 < freelist.maxsize) :
    ∀ t' cache' j, (pool.putList t cache i freelist).tlslist t' = some cache' →
      0 < (cache' j).maxsize := by
  intro t' cache' j there
  simp only [putList, Function.update_apply] at there
  split at there
  · obtain rfl := Option.some.inj there
    rw [Function.update_apply]
    split
    · exact more
    · rw [its]
      cases before : pool.tlslist t with
      | none => exact Nat.one_pos
      | some cache => exact moves t cache j before
  · exact moves t' cache' j there

namespace Kept

theorem allocated {p size : Nat} (kept : pool.Kept .idle out) (inside : p ∈ out) (positive : 0 < size)
    (small : size ≤ maxBytes) (its : cache = (pool.tlslist t).getD .new) (more : 0 < freelist.maxsize)
    (held : Held (pool.Busy .idle) ((pool.putList t cache i freelist).held .idle) out)
    (free : ∀ h, p ∉ (pool.putList t cache i freelist).held .idle h)
    (fits : ∀ a span, pool.Busy .idle a span → span.pages.Has (p / pageSize) →
      size ≤ span.objsize ∧ p + size ≤ span.bytes.start + span.bytes.size) :
    ((pool.putList t cache i freelist).handOut p size).Kept .idle out := by
  have client : ((pool.putList t cache i freelist).handOut p size).held .idle .client =
      p :: (pool.putList t cache i freelist).held .idle .client := by
    simp only [Pool.held, handOut, List.filter_cons, decide_eq_true small, if_true, List.map_cons]
  refine kept.passed rfl rfl rfl ?_ ?_ ?_ ?_ ?_ (putList_moves kept.moves its more)
  · refine held.pass .client [p] (fun q moved => List.mem_singleton.mp moved ▸ inside) (List.nodup_singleton p) client
      (fun h other => ?_) (fun h q moved mine => ?_) ?_ nofun
    · cases h with
      | client => exact absurd rfl other
      | _ => exact .refl _
    · obtain rfl := List.mem_singleton.mp moved
      cases h with
      | client => rfl
      | cache t' j => exact absurd mine (free (.cache t' j))
      | pending j => exact absurd mine (free (.pending j))
    · intro q moved
      exact List.mem_singleton.mp moved ▸ free .client
  · intro b live less a span there has
    rcases List.mem_cons.mp live with rfl | before
    · exact fits a span there has
    · exact kept.small b before less a span there has
  · intro b live large
    rcases List.mem_cons.mp live with rfl | before
    · exact absurd small (Nat.not_le.mpr large)
    · exact before
  · intro b live
    rcases List.mem_cons.mp live with rfl | before
    · exact positive
    · exact kept.positive b before
  · exact List.nodup_cons.mpr ⟨kept.not_live inside (free .client), kept.once⟩

theorem popCache {p : Nat} {rest : List Nat} (kept : pool.Kept .idle out)
    (list : (((pool.tlslist t).getD .new) i).list = p :: rest) (m : Nat) :
    p ∈ out ∧ Held (pool.Busy .idle) ((pool.putList t ((pool.tlslist t).getD .new) i ⟨rest, m⟩).held
      .idle) out ∧ ∀ h, p ∉ (pool.putList t ((pool.tlslist t).getD .new) i ⟨rest, m⟩).held .idle h := by
  have cached : pool.held .idle (.cache t i) = p :: rest := list
  have mine : p ∈ pool.held .idle (.cache t i) := cached ▸ .head _
  have once := kept.held.once (.cache t i)
  rw [cached] at once
  have sub : ∀ h : Holder T, ((pool.putList t ((pool.tlslist t).getD .new) i ⟨rest, m⟩).held
      .idle h).Sublist (pool.held .idle h) := by
    intro h
    by_cases same : h = .cache t i
    · rw [same, held_putList, cached]
      exact List.sublist_cons_self _ _
    · rw [held_putList_ne rfl same]
  refine ⟨kept.held.lent _ p mine, ?_, fun h its => ?_⟩
  · exact kept.held.pass .client [] (List.nil_subset _) List.nodup_nil rfl (fun h _ => sub h)
      nofun nofun nofun
  · have same : h = .cache t i := kept.held.single h _ p ((sub h).subset its) mine
    rw [same, held_putList] at its
    exact (List.nodup_cons.mp once).1 its

theorem pushCache {pool' : Pool T} {size n start : Nat} {others : List Nat} (kept : pool.Kept .idle out)
    (fetched : Fetched pool pool' out size n (start :: others) a span)
    (list : (((pool.tlslist t).getD .new) (index size)).list = []) (m : Nat) :
    Held (pool'.Busy .idle) ((pool'.putList t ((pool.tlslist t).getD .new) (index size)
      ⟨others, m⟩).held .idle) (start :: others ++ out) ∧
      ∀ h, start ∉ (pool'.putList t ((pool.tlslist t).getD .new) (index size) ⟨others, m⟩).held
        .idle h := by
  obtain ⟨kept', lists, live, -, sized, -⟩ := fetched
  obtain ⟨onceBatch, -, apart⟩ := List.nodup_append.mp kept'.objects.outOnce
  obtain ⟨notOthers, onceOthers⟩ := List.nodup_cons.mp onceBatch
  have unheld : ∀ q ∈ start :: others, ∀ h, q ∉ pool'.held .idle h := by
    intro q inside h mine
    rw [held_congr lists live] at mine
    exact apart q inside q (kept.held.lent h q mine) rfl
  have empty : pool'.held .idle (.cache t (index size)) = [] := by
    rw [held_congr lists live]
    exact list
  refine ⟨kept'.held.pass (.cache t (index size)) others ?_ onceOthers ?_ ?_ ?_ ?_ ?_, fun h mine => ?_⟩
  · exact fun q inside => List.mem_append_left _ (.tail _ inside)
  · rw [held_putList, empty, List.append_nil]
  · intro h other
    rw [held_putList_ne (lists ▸ rfl) other]
  · intro h q moved mine
    by_contra other
    rw [held_putList_ne (lists ▸ rfl) other] at mine
    exact unheld q (.tail _ moved) h mine
  · exact fun q moved => unheld q (.tail _ moved) _
  · rintro _ ⟨⟩ q moved
    exact sized q (.tail _ moved)
  · by_cases same : h = .cache t (index size)
    · rw [same, held_putList] at mine
      exact notOthers mine
    · rw [held_putList_ne (lists ▸ rfl) same] at mine
      exact unheld start (.head _) h mine

theorem numToMove {m size : Nat} (positive : 0 < size) (small : size ≤ maxBytes) (more : 0 < m) :
    0 < min (numMoveSize (roundUp size)) m := by
  refine Nat.lt_min.mpr ⟨?_, more⟩
  have := le_roundUp small
  rw [numMoveSize, if_neg (by omega)]
  exact Nat.lt_min.mpr ⟨Nat.lt_of_lt_of_le (by decide) (Nat.le_max_right _ _), by decide⟩

theorem allocate {size page : Nat} (kept : pool.Kept .idle out) (positive : 0 < size)
    (small : size ≤ maxBytes) (fresh : pool.AllocFresh size page)
    (last : LastFits size) :
    ∃ pool' p out', pool.allocate t size page = some (pool', p) ∧
      (pool'.handOut p size).Kept .idle out' := by
  rw [AllocFresh, if_neg (Nat.not_lt.mpr small)] at fresh
  have more : 0 < (((pool.tlslist t).getD .new) (index size)).maxsize := by
    cases before : pool.tlslist t with
    | none => exact Nat.one_pos
    | some cache => exact kept.moves t cache _ before
  rw [Pool.allocate]
  cases list : (((pool.tlslist t).getD .new) (index size)).list with
  | cons p rest =>
    obtain ⟨inside, held, free⟩ := kept.popCache list (((pool.tlslist t).getD .new) (index size)).maxsize
    refine ⟨_, p, out, rfl, kept.allocated inside positive small rfl more held free ?_⟩
    intro a span there has
    have mine : p ∈ pool.held .idle (.cache t (index size)) := by
      change p ∈ (((pool.tlslist t).getD .new) (index size)).list
      rw [list]
      exact .head _
    have sized := kept.held.kind _ _ rfl p mine a span there has
    exact kept.fits positive small there sized (kept.objects.grid inside there has).1 last
  | nil =>
    obtain ⟨pool', batch, a, span, done, fetched⟩ :=
      kept.fetchRangeObj (numToMove positive small more) positive small fresh
    rw [fetchFromCentralCache, done, Option.bind_some]
    cases batch with
    | nil => exact absurd rfl fetched.full
    | cons start others =>
      obtain ⟨held, free⟩ := kept.pushCache fetched list _
      refine ⟨_, start, _, rfl, fetched.kept.allocated (.head _) positive small
        (fetched.tlslist ▸ rfl) ?_ held free fun a span there has => ?_⟩
      · show 0 < ite _ _ _
        split
        · exact Nat.succ_pos _
        · exact more
      · exact fetched.kept.fits positive small there (fetched.sized start (.head _) a span there has)
          (fetched.kept.objects.grid (.head _) there has).1 last

/-! ### Blocks come back -/

end Kept
end

theorem ne_of_mem_eraseP {p : Nat} {l : List (Nat × Nat)} (once : (l.map Prod.fst).Nodup) :
    ∀ b ∈ l.eraseP fun block => block.1 = p, b.1 ≠ p := by
  induction l with
  | nil => exact nofun
  | cons c rest ih =>
    obtain ⟨new, once⟩ := List.nodup_cons.mp once
    intro b inside
    by_cases first : c.1 = p
    · rw [List.eraseP_cons, decide_eq_true first, cond_true] at inside
      rintro rfl
      exact new (first ▸ List.mem_map_of_mem inside)
    · rw [List.eraseP_cons, decide_eq_false first, cond_false] at inside
      rcases List.mem_cons.mp inside with rfl | inside
      · exact first
      · exact ih once b inside

theorem mem_takeBack {p : Nat} {b : Nat × Nat} (once : (pool.live.map Prod.fst).Nodup)
    (inside : b ∈ (pool.takeBack p).live) : b ∈ pool.live ∧ b.1 ≠ p :=
  ⟨List.mem_of_mem_eraseP inside, ne_of_mem_eraseP once b inside⟩

theorem client_takeBack {p : Nat} :
    ((pool.takeBack p).held work .client).Sublist (pool.held work .client) :=
  (List.eraseP_sublist.filter _).map _

theorem not_client_takeBack {p : Nat} (once : (pool.live.map Prod.fst).Nodup) :
    p ∉ (pool.takeBack p).held work .client := by
  intro still
  obtain ⟨b, inside, same⟩ := List.mem_map.mp still
  exact (mem_takeBack once (List.mem_filter.mp inside).1).2 same

theorem Kept.span_of_live (kept : pool.Kept work out) {b : Nat × Nat} (live : b ∈ pool.live) :
    ∃ a span, pool.pages.HandedOut work.hand a span ∧ span.pages.Has (b.1 / pageSize) ∧
      (block b).Inside span.bytes ∧ (b.2 ≤ maxBytes ∧ span.Grid b.1 ∧ b.2 ≤ span.objsize ∧
          0 < span.usecount ∨
        maxBytes < b.2 ∧ b.1 = span.pageid * pageSize ∧ span.usecount = 0) := by
  by_cases small : b.2 ≤ maxBytes
  · obtain ⟨a, span, -, -, busy, grid, -⟩ := kept.mapped (kept.out_of_client live small).2
    obtain ⟨fits, ends⟩ := kept.small b live small a span busy grid.page
    have starts : span.bytes.start ≤ b.1 := by
      obtain ⟨⟨j, same⟩, -⟩ := grid
      exact same ▸ Nat.le_add_right _ _
    exact ⟨a, span, busy.1, grid.page, ⟨starts, ends⟩,
      .inl ⟨small, grid, fits, busy.2⟩⟩
  · obtain ⟨a, span, its, unused, -, -, start, size⟩ := kept.big b live (Nat.not_le.mp small)
    refine ⟨a, span, its, (Big.page start size (kept.positive b live)).2,
      ⟨Nat.le_of_eq start.symm, ?_⟩, .inr ⟨Nat.not_le.mp small, start, unused⟩⟩
    show b.1 + b.2 ≤ span.pageid * pageSize + span.npage * pageSize
    omega

section
variable [DecidableEq T] {t : T} {p size page : Nat}

namespace Kept

theorem allocBig (kept : pool.Kept .idle out) (big : maxBytes < size) (limit : size ≤ 2 ^ 64 - pageSize)
    (fresh : pool.AllocFresh size page) :
    ∃ pool', pool.concurrentAlloc t size page = some pool' ∧ pool'.Kept .idle out := by
  rw [AllocFresh, if_pos big] at fresh
  obtain ⟨pages', a, span, done, taken, count, pages⟩ := kept.sound.allocBigPageObj big fresh
  have mine : pages'.Out a span := (taken.out a span).mpr (.inl ⟨rfl, rfl⟩)
  have room : size ≤ span.npage * pageSize := by
    rw [pages, roundup, Nat.mod_eq_of_lt (by unfold pageSize at limit; omega)]
    unfold pageSize
    omega
  have large : maxBytes < span.objsize := by
    have : span.objsize / pageSize * pageSize ≤ span.objsize := Nat.div_mul_le_self _ _
    rw [count] at this
    omega
  have some : 0 < span.npage := Nat.pos_of_mul_pos_right (Nat.lt_of_lt_of_le (by omega) room)
  have after : ∀ b other, pages'.HandedOut none b other ↔
      b = a ∧ other = span ∨ pool.pages.HandedOut none b other := fun b other => by
    rw [handedOut_none, handedOut_none, taken.out]
  have busy : ({ pool with pages := pages' }.handOut (span.pageid * pageSize) size).Busy .idle =
      pool.Busy .idle := by
    funext b other
    refine propext ((and_congr_left' (after b other)).trans ⟨?_, fun its => ⟨.inr its.1, its.2⟩⟩)
    rintro ⟨⟨-, rfl⟩ | its, used⟩
    · exact absurd taken.unused (Nat.pos_iff_ne_zero.mp used)
    · exact ⟨its, used⟩
  have held : ({ pool with pages := pages' }.handOut (span.pageid * pageSize) size).held .idle =
      pool.held .idle := by
    funext h
    cases h with
    | client =>
      simp only [Pool.held, handOut, List.filter_cons, decide_eq_false (Nat.not_le.mpr big)]
      rfl
    | _ => rfl
  refine ⟨{ pool with pages := pages' }.handOut (span.pageid * pageSize) size, ?_, taken.sound,
    (fun _ member => by cases member),
    ?_, ?_, ?_, ?_, ?_, ?_, kept.moves⟩
  · rw [concurrentAlloc, if_pos big, done]
    simp only [Option.bind_some, mine.1, Option.map_some]
  · exact busy ▸ kept.objects
  · exact busy ▸ held ▸ kept.held
  · rw [busy]
    intro b live less
    rcases List.mem_cons.mp live with rfl | before
    · exact absurd less (Nat.not_le.mpr big)
    · exact kept.small b before less
  · intro b live more
    rcases List.mem_cons.mp live with rfl | before
    · exact ⟨a, span, (after a span).mpr (.inl ⟨rfl, rfl⟩), taken.unused, large, count, rfl, room⟩
    · obtain ⟨c, other, its, rest⟩ := kept.big b before more
      exact ⟨c, other, (after c other).mpr (.inr its), rest⟩
  · intro b live
    rcases List.mem_cons.mp live with rfl | before
    · exact Nat.lt_of_le_of_lt (Nat.zero_le _) big
    · exact kept.positive b before
  · refine List.nodup_cons.mpr ⟨fun twice => ?_, kept.once⟩
    obtain ⟨b, live, same⟩ := List.mem_map.mp twice
    obtain ⟨c, other, its, has, -⟩ := kept.span_of_live live
    rw [same, Nat.mul_div_cancel _ (by decide)] at has
    have there := ((after c other).mpr (.inr its)).1.1
    obtain rfl := taken.sound.apart c a other span _ there mine.1 has
      ⟨Nat.le_refl _, Nat.lt_add_of_pos_right some⟩
    exact taken.new other its.1

theorem freeBig {b : Nat × Nat} (kept : pool.Kept .idle out) (live : b ∈ pool.live)
    (large : maxBytes < b.2)
    (clear : ∀ a ∈ mapObjectToSpan pool.pages b.1, ∀ span ∈ pool.pages.spans a,
      maxBytes < span.objsize → npages ≤ span.objsize / pageSize →
        span.pageid = span.objsize / pageSize) :
    ∃ pool' work', pool.concurrentFree t b.1 = some (pool', work') ∧ pool'.Kept work' out := by
  obtain ⟨a, span, its, unused, big, count, start, size⟩ := kept.big b live large
  obtain ⟨page, has⟩ := Big.page start size (kept.positive b live)
  have found : mapObjectToSpan pool.pages b.1 = some a :=
    kept.sound.mapped a span _ its.1.1 has (.inr page)
  obtain ⟨pages', hand', done, leaves⟩ :=
    kept.sound.freeBigPageObj its.1 unused count (clear a found span its.1.1 big)
  have old := fun b' => mem_takeBack kept.once (p := b.1) (b := b')
  have busy : ({ pool.takeBack b.1 with pages := pages' } : Pool T).Busy (workOf hand' [] 0) =
      pool.Busy .idle := by
    funext c other
    refine propext ?_
    show pages'.HandedOut (workOf hand' [] 0).hand c other ∧ _ ↔ pool.pages.HandedOut none c other ∧ _
    rw [workOf_hand, leaves.rest, handedOut_none]
    refine ⟨fun ⟨⟨_, its⟩, used⟩ => ⟨its, used⟩, fun ⟨before, used⟩ => ⟨⟨?_, before⟩, used⟩⟩
    rintro rfl
    obtain rfl := Option.some.inj (before.1.symm.trans its.1.1)
    exact Nat.lt_irrefl _ (unused ▸ used)
  refine ⟨{ pool.takeBack b.1 with pages := pages' }, workOf hand' [] 0, ?_, leaves.sound, ?_,
    busy ▸ kept.objects, ?_, ?_, ?_, fun b' inside => kept.positive b' (old b' inside).1, ?_, kept.moves⟩
  · rw [concurrentFree, found, Option.bind_some, its.1.1, Option.bind_some, if_pos big, done]
    rfl
  · rw [workOf_hand]
    exact leaves.current
  · rw [busy]
    refine kept.held.pass (.pending 0) [] (List.nil_subset _) List.nodup_nil ?_ ?_ nofun nofun nofun
    · exact (workOf_pending hand' [] 0 0).trans (if_pos rfl)
    · intro h _
      cases h with
      | cache t i => exact .refl _
      | client => exact (List.eraseP_sublist.filter _).map _
      | pending i =>
        show ((workOf hand' [] 0).pending i).Sublist []
        rw [workOf_pending, ite_self]
  · rw [busy]
    exact fun b' inside => kept.small b' (old b' inside).1
  · intro b' inside more
    obtain ⟨before, unlike⟩ := old b' inside
    obtain ⟨c, other, its', rest⟩ := kept.big b' before more
    refine ⟨c, other, ?_, rest⟩
    rw [workOf_hand]
    refine (leaves.rest c other).mpr ⟨?_, its'.1⟩
    rintro rfl
    obtain rfl := Option.some.inj (its'.1.1.symm.trans its.1.1)
    exact unlike (rest.2.2.2.1.trans start.symm)
  · exact kept.once.sublist (List.eraseP_sublist.map _)

theorem freed {b : Nat × Nat} {cache : ThreadCache} {i : Nat} {freelist : Freelist} {work : Work}
    (kept : pool.Kept .idle out) (its : cache = (pool.tlslist t).getD .new)
    (hand : work.hand = none) (more : 0 < freelist.maxsize)
    (held : Held (pool.Busy .idle) (((pool.takeBack b.1).putList t cache i freelist).held work) out) :
    ((pool.takeBack b.1).putList t cache i freelist).Kept work out :=
  have old := fun b' => mem_takeBack kept.once (p := b.1) (b := b')
  kept.passed rfl rfl hand held (fun b' inside => kept.small b' (old b' inside).1)
    (fun b' inside _ => (old b' inside).1) (fun b' inside => kept.positive b' (old b' inside).1)
    (kept.once.sublist (List.eraseP_sublist.map _))
    (putList_moves (show ∀ t cache i, (pool.takeBack b.1).tlslist t = some cache →
      0 < (cache i).maxsize from kept.moves) its more)

theorem toCache {cache : ThreadCache} {i m : Nat} (kept : pool.Kept .idle out)
    (its : cache = (pool.tlslist t).getD .new) (mine : p ∈ pool.held .idle .client)
    (kind : ∀ a span, pool.Busy .idle a span → span.pages.Has (p / pageSize) → index span.objsize = i) :
    Held (pool.Busy .idle) (((pool.takeBack p).putList t cache i ⟨p :: (cache i).list, m⟩).held .idle)
      out := by
  have its' : cache = ((pool.takeBack p).tlslist t).getD .new := its
  have cached : pool.held .idle (.cache t i) = (cache i).list := by
    rw [its]
    rfl
  have others : ∀ h, p ∈ pool.held .idle h → h = .client := fun h its =>
    kept.held.single h .client p its mine
  refine kept.held.pass (.cache t i) [p]
    (fun q moved => List.mem_singleton.mp moved ▸ kept.held.lent _ p mine) (List.nodup_singleton _)
    ?_ ?_ ?_ ?_ ?_
  · rw [held_putList, cached]
    rfl
  · intro h apart
    rw [held_putList_ne its' apart]
    cases h with
    | client => exact client_takeBack
    | _ => exact .refl _
  · intro h q moved still
    obtain rfl := List.mem_singleton.mp moved
    by_contra apart
    rw [held_putList_ne its' apart] at still
    cases h with
    | client => exact not_client_takeBack kept.once still
    | cache t' j => exact nomatch others (.cache t' j) still
    | pending j => exact nomatch still
  · intro q moved twice
    exact nomatch others (.cache t i) (List.mem_singleton.mp moved ▸ twice)
  · rintro _ ⟨⟩ q moved a span busy has
    obtain rfl := List.mem_singleton.mp moved
    exact kind a span busy has

theorem toPending {cache : ThreadCache} {i m : Nat} (kept : pool.Kept .idle out)
    (its : cache = (pool.tlslist t).getD .new) (mine : p ∈ pool.held .idle .client)
    (kind : ∀ a span, pool.Busy .idle a span → span.pages.Has (p / pageSize) → index span.objsize = i) :
    Held (pool.Busy .idle) (((pool.takeBack p).putList t cache i ⟨[], m⟩).held
      (.objects (p :: (cache i).list) i)) out := by
  have its' : cache = ((pool.takeBack p).tlslist t).getD .new := its
  have cached : pool.held .idle (.cache t i) = (cache i).list := by
    rw [its]
    rfl
  have others : ∀ h, p ∈ pool.held .idle h → h = .client := fun h its =>
    kept.held.single h .client p its mine
  have elsewhere : ∀ h : Holder T, h ≠ .pending i → h ≠ .cache t i →
      (((pool.takeBack p).putList t cache i ⟨[], m⟩).held (.objects (p :: (cache i).list) i) h).Sublist
        ((pool.takeBack p).held .idle h) := by
    intro h apart same
    rw [held_putList_ne its' same]
    cases h with
    | pending j =>
      have unlike : j ≠ i := fun same => apart (same ▸ rfl)
      show (ite _ _ _ : List Nat).Sublist _
      rw [if_neg unlike]
      exact .refl _
    | _ => exact .refl _
  have before : ∀ h : Holder T, ((pool.takeBack p).held .idle h).Sublist (pool.held .idle h) := by
    intro h
    cases h with
    | client => exact client_takeBack
    | _ => exact .refl _
  refine kept.held.pass (.pending i) (p :: (cache i).list) ?_ ?_ ?_ ?_ ?_ nofun ?_
  · intro q moved
    rcases List.mem_cons.mp moved with rfl | moved
    · exact kept.held.lent _ q mine
    · exact kept.held.lent (.cache t i) q (cached ▸ moved)
  · exact List.nodup_cons.mpr ⟨fun twice => (nomatch others (.cache t i) (cached ▸ twice)),
      cached ▸ kept.held.once (.cache t i)⟩
  · exact (if_pos rfl).trans (List.append_nil _).symm
  · intro h apart
    by_cases same : h = .cache t i
    · rw [same, held_putList]
      exact List.nil_sublist _
    · exact (elsewhere h apart same).trans (before h)
  · intro h q moved still
    by_contra apart
    by_cases same : h = .cache t i
    · rw [same, held_putList] at still
      exact nomatch still
    · have still := (elsewhere h apart same).subset still
      rcases List.mem_cons.mp moved with rfl | moved
      · obtain rfl := others h ((before h).subset still)
        exact not_client_takeBack kept.once still
      · exact same (kept.held.single h _ q ((before h).subset still) (cached ▸ moved))
  · rintro _ ⟨⟩ q moved a span busy has
    rcases List.mem_cons.mp moved with rfl | moved
    · exact kind a span busy has
    · exact kept.held.kind (.cache t i) i rfl q (cached ▸ moved) a span busy has

theorem freeSmall {b : Nat × Nat} (kept : pool.Kept .idle out) (live : b ∈ pool.live)
    (small : b.2 ≤ maxBytes)
    (clear : ∀ a ∈ mapObjectToSpan pool.pages b.1, ∀ span ∈ pool.pages.spans a,
      ¬ maxBytes < span.objsize → (pool.tlslist t).isSome) :
    ∃ pool' work', pool.concurrentFree t b.1 = some (pool', work') ∧ pool'.Kept work' out := by
  obtain ⟨mine, inside⟩ := kept.out_of_client live small
  obtain ⟨a, span, found, there, busy, grid, -⟩ := kept.mapped inside
  have few : ¬ maxBytes < span.objsize := Nat.not_lt.mpr (kept.objects.sized a span busy).2.1
  obtain ⟨cache, thread⟩ := Option.isSome_iff_exists.mp (clear a found span there few)
  have its : cache = (pool.tlslist t).getD .new := by
    rw [thread, Option.getD_some]
  have kind : ∀ a' span', pool.Busy .idle a' span' → span'.pages.Has (b.1 / pageSize) →
      index span'.objsize = index span.objsize := by
    intro a' span' busy' has
    obtain rfl := kept.objects.apart a' a span' span _ busy' busy has grid.page
    rw [kept.objects.unique a' span' span busy' busy]
  have more := kept.moves t cache (index span.objsize) thread
  rw [concurrentFree, found, Option.bind_some, there, Option.bind_some, if_neg few, deallocate,
    show (pool.takeBack b.1).tlslist t = some cache from thread, Option.map_some]
  by_cases long : (cache (index span.objsize)).maxsize ≤ (b.1 :: (cache (index span.objsize)).list).length
  · exact ⟨_, _, congrArg some (if_pos long),
      kept.freed its rfl more (kept.toPending its mine kind)⟩
  · exact ⟨_, _, congrArg some (if_neg long), kept.freed its rfl more (kept.toCache its mine kind)⟩

end Kept
end

/-! ### Live blocks -/

theorem bytes_apart {other : Span} (apart : span.pages.Apart other.pages) :
    span.bytes.Apart other.bytes := by
  simp only [Range.Apart, Span.pages, Span.bytes] at apart ⊢
  unfold pageSize
  omega

theorem Kept.apart (kept : pool.Kept work out) : pool.Apart where
  inside := by
    intro b live
    obtain ⟨a, span, its, -, inside, -⟩ := kept.span_of_live live
    exact ⟨a, span, its.1.1, its.1.2, inside, fun p => kept.sound.within a span p its.1.1⟩
  region := by
    intro gaps b live
    obtain ⟨a, span, its, has, inside, -⟩ := kept.span_of_live live
    have some : 0 < span.pages.size := by
      obtain ⟨below, above⟩ := has
      omega
    obtain ⟨r, mine, below, above⟩ := kept.sound.spread.covers gaps some fun p =>
      kept.sound.within a span p its.1.1
    refine ⟨r, mine, inside.trans ⟨Nat.mul_le_mul_right _ below, ?_⟩⟩
    have := Nat.mul_le_mul_right pageSize above
    simp only [Span.bytes, Span.pages, Nat.add_mul] at this ⊢
    exact this
  spread := by
    refine (List.pairwise_map.mp kept.once).imp_of_mem fun {b c} left right unlike => ?_
    obtain ⟨a, span, its, has, inside, kind⟩ := kept.span_of_live left
    obtain ⟨a', span', its', has', inside', kind'⟩ := kept.span_of_live right
    by_cases same : a = a'
    · subst same
      obtain rfl := Option.some.inj (its.1.1.symm.trans its'.1.1)
      rcases kind with ⟨-, grid, fits, used⟩ | ⟨-, start, unused⟩
      · rcases kind' with ⟨-, grid', fits', -⟩ | ⟨-, -, unused⟩
        · rcases grid.apart grid' unlike with before | after
          · exact .inl (Nat.le_trans (Nat.add_le_add_left fits _) before)
          · exact .inr (Nat.le_trans (Nat.add_le_add_left fits' _) after)
        · exact absurd unused (Nat.pos_iff_ne_zero.mp used)
      · rcases kind' with ⟨-, -, -, used⟩ | ⟨-, start', -⟩
        · exact absurd unused (Nat.pos_iff_ne_zero.mp used)
        · exact absurd (start.trans start'.symm) unlike
    · refine (bytes_apart (.of_not_has ?_ ?_ fun p first second => ?_)).inside inside inside'
      · exact Nat.pos_of_ne_zero fun none => by
          obtain ⟨below, above⟩ := has
          omega
      · exact Nat.pos_of_ne_zero fun none => by
          obtain ⟨below, above⟩ := has'
          omega
      · exact same (kept.sound.apart a a' span span' p its.1.1 its'.1.1 first second)

end Pool

namespace PoolState
open Pool
variable {T : Type} {s t : PoolState T} {pool : Pool T} {out : List Nat} {call : PoolCall T}

theorem guarded {hand : Nat × Merging} {objs : List Nat} {i : Nat} (there : s.pool = some pool)
    (busy : s.work = .merging hand objs i) (sound : Sound pool.pages) (clear : s.Clear .round) :
    pool.pages.Guarded hand := by
  have clear := clear pool there
  rw [busy] at clear
  obtain ⟨cur, _ | _⟩ := hand
  all_goals
    exact fun span b big out its unlike zero =>
      clear span out.1 b (sound.out_lt its) big its.1 ⟨its.2, zero, unlike⟩

variable [DecidableEq T]

theorem step_kept (there : s.pool = some pool) (kept : pool.Kept s.work out) (clear : s.Clear call)
    (next : s.step call = some t) : ∃ pool' out', t.pool = some pool' ∧ pool'.Kept t.work out' := by
  obtain ⟨pool?, work⟩ := s
  obtain rfl : pool? = some pool := there
  have clear' := clear pool rfl
  rw [step, Option.bind_some] at next
  cases work with
  | idle =>
    cases call with
    | round => cases next
    | alloc thread size page =>
      obtain ⟨⟨positive, -, fresh⟩, same⟩ := Option.ite_none_right_eq_some.mp next
      obtain rfl := Option.some.inj same
      by_cases big : maxBytes < size
      · obtain ⟨pool', done, kept'⟩ := kept.allocBig (t := thread) big
          ((if_pos big).mp clear') fresh
        exact ⟨pool', out, done, kept'⟩
      · obtain ⟨pool', p, out', done, kept'⟩ := kept.allocate (t := thread) positive
          (Nat.not_lt.mp big) fresh ((if_neg big).mp clear')
        refine ⟨pool'.handOut p size, out', ?_, kept'⟩
        rw [concurrentAlloc, if_neg big, done]
        rfl
    | free thread p =>
      obtain ⟨live, same⟩ := Option.ite_none_right_eq_some.mp next
      obtain rfl := Option.some.inj same
      obtain ⟨b, mine, rfl⟩ := List.mem_map.mp live
      by_cases small : b.2 ≤ maxBytes
      · obtain ⟨pool', work', done, kept'⟩ := kept.freeSmall (t := thread) mine small
          fun a found span its few => (if_neg few).mp (clear' a found span its)
        exact ⟨pool', out, by rw [of, done]; rfl, by rw [of, done]; exact kept'⟩
      · obtain ⟨pool', work', done, kept'⟩ := kept.freeBig (t := thread) mine
          (Nat.not_le.mp small) fun a found span its big => (if_pos big).mp (clear' a found span its)
        exact ⟨pool', out, by rw [of, done]; rfl, by rw [of, done]; exact kept'⟩
  | objects objs i =>
    cases call with
    | round =>
      obtain rfl := Option.some.inj next
      cases objs with
      | nil =>
        exact ⟨pool, out, rfl, kept.ended⟩
      | cons p rest =>
        obtain ⟨pool', work', -, -, done, kept', -⟩ := kept.giveBack
        exact ⟨pool', _, by rw [Pool.round, of, done]; rfl, by rw [Pool.round, of, done]; exact kept'⟩
    | _ => cases next
  | merging hand objs i =>
    cases call with
    | round =>
      obtain rfl := Option.some.inj next
      obtain ⟨pages', hand', done, kept', -⟩ := kept.merging (guarded rfl rfl kept.sound clear)
      exact ⟨_, out, by rw [of, done]; rfl, by rw [of, done]; exact kept'⟩
    | _ => cases next

/-- In every run without a step that goes wrong in one of these ways, the pool does not fail, and
every live block lies in one span and apart from the others. -/
theorem blocks_apart (reach : Reach (machine T) Clear s) :
    ∃ pool, s.pool = some pool ∧ pool.Apart := by
  have kept : ∃ pool out, s.pool = some pool ∧ pool.Kept s.work out := by
    refine reach.invariant (P := fun s => ∃ pool out, s.pool = some pool ∧ pool.Kept s.work out) ?_
      fun s call t ⟨pool, out, there, kept⟩ clear next => step_kept there kept clear next
    rintro s rfl
    exact ⟨_, [], rfl, .new (fun _ _ => rfl) nofun⟩
  obtain ⟨pool, out, there, kept⟩ := kept
  exact ⟨pool, there, kept.apart⟩

theorem last_object_overlaps :
    ∃ s, exec (machine Unit) begin (List.replicate 8 (.alloc () 8193 1)) = some s ∧
      ∃ pool, s.pool = some pool ∧ ¬ pool.Apart := by
  have ran : (exec (machine Unit) begin (List.replicate 8 (.alloc () 8193 1))).any (fun s =>
      s.pool.any fun pool => ¬ pool.live.Pairwise fun b c => (block b).Apart (block c)) = true := by
    decide +kernel
  obtain ⟨s, done, facts⟩ := (Option.any_eq_true _ _).mp ran
  obtain ⟨pool, there, facts⟩ := (Option.any_eq_true _ _).mp facts
  exact ⟨s, done, pool, there, fun apart => of_decide_eq_true facts apart.spread⟩

/-- Two threads, with small blocks and a big one; objects and pages come back. -/
def twoThreads : List (PoolCall Bool) :=
  [PoolCall.alloc true 100 1, .alloc true 100 0, .alloc false 40000 0, .alloc true 70000 0,
    .free true 4096, .free false 139264] ++ List.replicate 4 PoolCall.round ++
      [PoolCall.free true 4200] ++ List.replicate 6 PoolCall.round ++ [PoolCall.alloc false 16 0]

theorem blocks_apart_two_threads :
    ∃ s, execWhere (machine Bool) Clear begin twoThreads = some s ∧
      ∃ pool, s.pool = some pool ∧ pool.live = [(4096, 16), (57344, 40000)] ∧ pool.Apart := by
  have ran : (execWhere (machine Bool) Clear begin twoThreads).any (fun s =>
      s.pool.any fun pool => pool.live = [(4096, 16), (57344, 40000)]) = true := by
    decide +kernel
  obtain ⟨s, done, facts⟩ := (Option.any_eq_true _ _).mp ran
  obtain ⟨pool, there, facts⟩ := (Option.any_eq_true _ _).mp facts
  obtain ⟨pool', its, apart⟩ := blocks_apart ((Reach.start (M := machine Bool) rfl).execWhere done)
  obtain rfl := Option.some.inj (its.symm.trans there)
  exact ⟨s, done, pool', there, of_decide_eq_true facts, apart⟩

end PoolState

end ProjectsCpp.ConcurrentMemoryPool
