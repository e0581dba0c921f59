import ProjectsCpp.ConcurrentMemoryPool.PageSpans

/-! Who owns the pages of the page cache: what every run keeps in which no big span is merged while
it is handed out. -/

namespace ProjectsCpp.ConcurrentMemoryPool
open ProjectsCpp.Run ProjectsCpp.Ranges

namespace PageSystem
open PageCache

structure Kept (s : PageSystem) (pc : PageCache) : Prop where
  there : s.cache = some pc
  sound : Sound pc
  hand : ∀ h ∈ s.hand, pc.InHand h
  big : ∀ b span, pc.HandedOut s.hand b span → span.usecount = 0 →
    span.objsize / pageSize = span.npage

variable {s t : PageSystem} {pc pc' : PageCache} {call : PageCall}

theorem Kept.leaves (kept : s.Kept pc) {hand' : Option (Nat × Merging)} {rest : Nat → Span → Prop}
    (leaves : Leaves pc' hand' rest) (before : ∀ b other, rest b other → other.usecount = 0 →
      pc.HandedOut s.hand b other) : (of (some (pc', hand'))).Kept pc' :=
  ⟨rfl, leaves.sound, leaves.current, fun b other its zero =>
    kept.big b other (before b other ((leaves.rest b other).mp its) zero) zero⟩

theorem Kept.guarded {hand : Nat × Merging} (kept : s.Kept pc) (holds : s.hand = some hand)
    (clear : s.Clear .round) : pc.Guarded hand := by
  have clear := clear pc kept.there
  rw [holds] at clear
  have unheld : ∀ b, b ≠ hand.1 → s.hand.map Prod.fst ≠ some b := fun b unlike => by
    rw [holds]
    exact fun same => unlike (Option.some.inj same).symm
  obtain ⟨cur, _ | _⟩ := hand
  all_goals
    exact fun span b big out its unlike zero =>
      clear span out.1 b (kept.sound.out_lt its) big its.1 ⟨its.2, zero, unheld b unlike⟩

theorem Kept.round {hand : Nat × Merging} (kept : s.Kept pc) (holds : s.hand = some hand)
    (clear : s.Clear .round) : ∃ pc', (of (pc.merge hand)).Kept pc' := by
  obtain ⟨pc', hand', done, leaves⟩ :=
    kept.sound.merge (kept.hand hand holds) (kept.guarded holds clear)
  refine ⟨pc', ?_⟩
  rw [done]
  exact kept.leaves leaves fun b other its _ => holds ▸ its

theorem Kept.taken (kept : s.Kept pc) (free : s.hand = none) {a : Nat} {span : Span}
    (taken : Taken pc pc' a span)
    (size : span.usecount = 0 → span.objsize / pageSize = span.npage) :
    Kept ⟨some pc', none⟩ pc' := by
  refine ⟨rfl, taken.sound, nofun, fun b other its zero => ?_⟩
  rcases (taken.out b other).mp (handedOut_none.mp its) with ⟨-, rfl⟩ | before
  · exact size zero
  · exact kept.big b other (free ▸ handedOut_none.mpr before) zero

theorem Kept.count (kept : s.Kept pc) (free : s.hand = none) {a uses : Nat} {span : Span}
    (out : pc.Out a span) (used : 0 < uses) :
    Kept ⟨some (pc.putSpan a { span with usecount := uses }), none⟩
      (pc.putSpan a { span with usecount := uses }) := by
  obtain ⟨sound, after⟩ := kept.sound.putOut (s := { span with usecount := uses }) out rfl
  refine ⟨rfl, sound, nofun, fun b other its zero => ?_⟩
  rcases (after b other).mp (handedOut_none.mp its) with ⟨-, rfl⟩ | ⟨-, before⟩
  · exact absurd zero (Nat.pos_iff_ne_zero.mp used)
  · exact kept.big b other (free ▸ handedOut_none.mpr before) zero

theorem step_kept (kept : s.Kept pc) (clear : s.Clear call) (next : s.step call = some t) :
    ∃ pc', t.Kept pc' := by
  rw [step, kept.there, Option.bind_some] at next
  cases free : s.hand with
  | some hand =>
    cases call with
    | round =>
      simp only [free] at next
      cases next
      exact kept.round free clear
    | _ => simp [free] at next
  | none =>
    have old : ∀ {b other}, pc.Out b other → pc.HandedOut s.hand b other := fun out =>
      free ▸ handedOut_none.mpr out
    simp only [free] at next
    cases call with
    | round => cases next
    | newSpan n uses page =>
      obtain ⟨⟨few, used, fresh⟩, same⟩ := Option.ite_none_right_eq_some.mp next
      obtain ⟨pc₁, a, span, done, taken, -⟩ := kept.sound.newSpan few fresh
      have out : pc₁.Out a span := (taken.out a span).mpr (.inl ⟨rfl, rfl⟩)
      obtain ⟨sound₂, out₂⟩ := taken.sound.putOut (s := { span with usecount := uses }) out rfl
      refine ⟨pc₁.putSpan a { span with usecount := uses }, ?_⟩
      rw [← Option.some.inj same, done]
      simp only [Option.bind_some, out.1, Option.map_some]
      refine ⟨rfl, sound₂, nofun, fun b other its zero => ?_⟩
      rcases (out₂ b other).mp (handedOut_none.mp its) with ⟨-, rfl⟩ | ⟨apart, before⟩
      · exact absurd zero (Nat.pos_iff_ne_zero.mp used)
      · rcases (taken.out b other).mp before with ⟨same, -⟩ | before
        · exact absurd same apart
        · exact kept.big b other (old before) zero
    | use a uses =>
      obtain ⟨span, there, next⟩ := Option.bind_eq_some_iff.mp next
      obtain ⟨⟨counted, used⟩, same⟩ := Option.ite_none_right_eq_some.mp next
      have out : pc.Out a span := ⟨there, fun ⟨k, _, inside⟩ => by
        obtain ⟨-, other, its, -, zero⟩ := kept.sound.listed k a inside
        obtain rfl := Option.some.inj (there.symm.trans its)
        omega⟩
      exact ⟨_, Option.some.inj same ▸ kept.count free out used⟩
    | allocBigPageObj size page =>
      obtain ⟨⟨big, -, fresh⟩, same⟩ := Option.ite_none_right_eq_some.mp next
      obtain ⟨pc', a, span, done, taken, count, -⟩ := kept.sound.allocBigPageObj big fresh
      refine ⟨pc', ?_⟩
      rw [← Option.some.inj same, done]
      exact kept.taken free taken fun _ => count
    | freeBigPageObj a =>
      obtain ⟨span, there, next⟩ := Option.bind_eq_some_iff.mp next
      obtain ⟨⟨zero, unlisted⟩, same⟩ := Option.ite_none_right_eq_some.mp next
      have out : pc.Out a span := ⟨there, unlisted⟩
      have clear := clear pc kept.there
      simp only [free] at clear
      obtain ⟨pc', hand', done, leaves⟩ :=
        kept.sound.freeBigPageObj out zero (kept.big a span (old out) zero) (clear span there)
      refine ⟨pc', ?_⟩
      rw [← Option.some.inj same, done]
      exact kept.leaves leaves fun b other its _ => old its.2
    | release a =>
      obtain ⟨span, there, next⟩ := Option.bind_eq_some_iff.mp next
      obtain ⟨unlisted, same⟩ := Option.ite_none_right_eq_some.mp next
      have out : pc.Out a span := ⟨there, unlisted⟩
      obtain ⟨sound₁, out₁⟩ := kept.sound.putOut (s := { span with usecount := 0 }) out rfl
      obtain ⟨pc', hand', done, leaves⟩ := sound₁.release ((out₁ a _).mpr (.inl ⟨rfl, rfl⟩)) rfl
      refine ⟨pc', ?_⟩
      rw [← Option.some.inj same, done]
      refine kept.leaves leaves fun b other ⟨unlike, its⟩ _ => ?_
      rcases (out₁ b other).mp its with ⟨same, -⟩ | ⟨-, before⟩
      · exact absurd same unlike
      · exact old before

/-- In every run without such a round or such a free, the page cache does not fail and owns its
pages. -/
theorem pages_owned (reach : Reach machine Clear s) : ∃ pc, s.cache = some pc ∧ pc.Owned := by
  have kept : ∃ pc, s.Kept pc := by
    refine reach.invariant (P := fun s => ∃ pc, s.Kept pc) ?_
      fun s call t ⟨pc, kept⟩ clear next => step_kept kept clear next
    rintro s rfl
    exact ⟨.init, rfl, Sound.init, nofun, fun _ _ its => nomatch its.1.1⟩
  obtain ⟨pc, kept⟩ := kept
  exact ⟨pc, kept.there, kept.sound.owned⟩

def besideBig : List PageCall :=
  [.allocBigPageObj 69632 1000, .newSpan 1 1 0, .release 2, .round]

theorem big_spans_unguarded :
    (∃ s, exec machine begin besideBig = some s ∧ ¬ ∃ pc, s.cache = some pc ∧ pc.Owned) ∧
      ∃ s, exec machine begin [.allocBigPageObj 528384 1000, .freeBigPageObj 0] = some s ∧
        ¬ ∃ pc, s.cache = some pc ∧ pc.Owned := by
  have merged : (exec machine begin besideBig).any (fun s => s.cache.isNone) = true := by
    decide +kernel
  have stale : (exec machine begin [.allocBigPageObj 528384 1000, .freeBigPageObj 0]).any
      (fun s => s.cache.any fun pc => pc.idspanmap 1000 = some 0 ∧ pc.spans 0 = none) = true := by
    decide +kernel
  constructor
  · obtain ⟨s, done, failed⟩ := (Option.any_eq_true _ _).mp merged
    refine ⟨s, done, fun ⟨pc, there, _⟩ => ?_⟩
    rw [there] at failed
    cases failed
  · obtain ⟨s, done, facts⟩ := (Option.any_eq_true _ _).mp stale
    obtain ⟨pc, there, facts⟩ := (Option.any_eq_true _ _).mp facts
    obtain ⟨entry, deleted⟩ := of_decide_eq_true facts
    refine ⟨s, done, fun ⟨pc', its, owned⟩ => ?_⟩
    obtain rfl := Option.some.inj (there.symm.trans its)
    exact owned.alive 1000 0 entry deleted

def threeSpans : List PageCall :=
  [.newSpan 1 1 1000, .newSpan 2 3 0, .allocBigPageObj 69632 0, .release 1, .round, .round,
    .freeBigPageObj 3, .round, .round, .round, .release 2, .round, .round, .round]

theorem pages_owned_three_spans :
    ∃ s, execWhere machine Clear begin threeSpans = some s ∧
      ∃ pc, s.cache = some pc ∧ pc.spanlist 3 = [1] ∧ pc.spanlist 125 = [3] ∧ pc.Owned := by
  have ran : (execWhere machine Clear begin threeSpans).any (fun s => s.cache.any fun pc =>
      pc.spanlist 3 = [1] ∧ pc.spanlist 125 = [3]) = true := by
    decide +kernel
  obtain ⟨s, done, facts⟩ := (Option.any_eq_true _ _).mp ran
  obtain ⟨pc, there, facts⟩ := (Option.any_eq_true _ _).mp facts
  obtain ⟨first, second⟩ := of_decide_eq_true facts
  obtain ⟨pc', its, owned⟩ := pages_owned ((Reach.start (M := machine) rfl).execWhere done)
  obtain rfl := Option.some.inj (there.symm.trans its)
  exact ⟨s, done, pc, there, first, second, owned⟩

end PageSystem

end ProjectsCpp.ConcurrentMemoryPool
