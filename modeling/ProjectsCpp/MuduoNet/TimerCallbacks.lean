import ProjectsCpp.MuduoNet.TimerQueue

/-! What the callbacks of expired timers do to the timer queue, and `handleRead` around them. -/

namespace ProjectsCpp.MuduoNet
namespace TimerQueue

variable {s s' s'' : TimerQueue} {out : List (TimerPtr × Timer)} {acts acts' : List Act}
  {runs runs' : List (Nat × Int)} {id : ActiveTimer} {ptr : TimerPtr} {t : Timer}

/-- With a timer whose expiration is of a kind, the timerfd is armed or readable. -/
def Guarded (P : Int → Prop) (s : TimerQueue) : Prop :=
  ∀ e ∈ s.timers, P e.1 → s.timerfd ≠ .disarmed

theorem resetTimerfd_timerfd (s : TimerQueue) (expiration clock : Int) :
    (s.resetTimerfd expiration clock).timerfd = .armed := by
  have positive : howMuchTimeFromNow expiration clock ≠ 0 := by
    rw [howMuchTimeFromNow]
    split <;> omega
  rw [resetTimerfd]
  exact if_neg positive

/-! ### What one act does -/

theorem Held.add_free (held : Held s out) {timer : Timer} (clock : Int)
    (free : s.heap ptr = none ∧ ptr < UINTPTR_MAX ∧ s.made timer.sequence = none) :
    ∃ s', s.act (.add ptr timer clock) = some s' ∧ Held s' out ∧
      s'.heap = Function.update s.heap ptr (some timer) ∧
      s'.made = Function.update s.made timer.sequence (some timer) ∧
      (∀ e, e ∈ s'.timers ↔ e = (timer.expiration, ptr) ∨ e ∈ s.timers) ∧
      s'.callingExpiredTimers = s.callingExpiredTimers ∧
      s'.cancelingTimers = s.cancelingTimers ∧ s'.ran = s.ran ∧
      s'.timerfd = if s.earliestChanged timer.expiration then .armed else s.timerfd := by
  obtain ⟨held₁, outside, other⟩ := held.alloc free.1 free.2.1 free.2.2
  obtain ⟨s₂, inserted, held₂, left⟩ := held₁.insert (Function.update_self ..) outside other
  have told : s.act (.add ptr timer clock) = some (if s.earliestChanged timer.expiration then
      s₂.resetTimerfd timer.expiration clock else s₂) := by
    rw [TimerQueue.act, if_pos free, addTimerInLoop]
    simp only [Function.update_self, Option.bind_some, inserted, Option.map_some]
    rfl
  refine ⟨_, told, ?_⟩
  split
  · exact ⟨{ held₂ with }, left.heap, left.made, left.timers, left.calling, left.canceling,
      left.ran, resetTimerfd_timerfd ..⟩
  · exact ⟨held₂, left.heap, left.made, left.timers, left.calling, left.canceling, left.ran,
      left.timerfd⟩

theorem Held.expired_ne (held : Held s out) (active : id ∈ s.activeTimers) :
    ∀ o ∈ out, o.1 ≠ id.1 := by
  intro o member same
  obtain ⟨t, here, sequence, -⟩ := held.active id.1 id.2 active
  obtain ⟨here', outside⟩ := held.lone o member
  rw [same, here, Option.some_inj] at here'
  rw [← here', same, sequence] at outside
  exact outside active

theorem Held.erased (held : Held s out) (active : id ∈ s.activeTimers)
    (here : s.heap id.1 = some t) :
    Held { s with
      timers := s.timers.erase (t.expiration, id.1)
      activeTimers := s.activeTimers.erase id
      heap := Function.update s.heap id.1 none } out := by
  obtain ⟨t', here', sequence, inside⟩ := held.active id.1 id.2 active
  cases here.symm.trans here'
  refine { held with
    timer := fun w k inside' => ?_, active := fun k q active' => ?_
    sorted := held.sorted.sublist List.erase_sublist
    once := held.once.erase _, size := ?_
    lone := fun o member => ⟨deleted_iff.mpr ⟨held.expired_ne active o member,
      (held.lone o member).1⟩, fun active' =>
        (held.lone o member).2 (Finset.mem_of_mem_erase active')⟩
    made := fun k t' here => held.made k t' (deleted_iff.mp here).2
    one := fun k k' t₁ t₂ here here' =>
      held.one k k' t₁ t₂ (deleted_iff.mp here).2 (deleted_iff.mp here').2
    low := fun k t' here => held.low k t' (deleted_iff.mp here).2 }
  · obtain ⟨apart, inside'⟩ := (List.Nodup.mem_erase_iff held.once).mp inside'
    obtain ⟨t', here', expiration, active'⟩ := held.timer w k inside'
    have other : k ≠ id.1 := by
      rintro rfl
      cases here.symm.trans here'
      exact apart (by rw [expiration])
    refine ⟨t', deleted_iff.mpr ⟨other, here'⟩, expiration, Finset.mem_erase.mpr ⟨fun same => ?_,
      active'⟩⟩
    exact other (congrArg Prod.fst same)
  · obtain ⟨apart, active'⟩ := Finset.mem_erase.mp active'
    obtain ⟨t', here', sequence', inside'⟩ := held.active k q active'
    have other : k ≠ id.1 := by
      rintro rfl
      cases here.symm.trans here'
      exact apart (Prod.ext rfl (sequence'.symm.trans sequence))
    exact ⟨t', deleted_iff.mpr ⟨other, here'⟩, sequence', (List.Nodup.mem_erase_iff held.once).mpr
      ⟨fun same => other (congrArg Prod.snd same), inside'⟩⟩
  · show (s.timers.erase _).length = (s.activeTimers.erase id).card
    rw [List.length_erase_of_mem inside, Finset.card_erase_of_mem active, held.size]

theorem Held.cancel_active (held : Held s out) (active : id ∈ s.activeTimers) :
    ∃ t, s.heap id.1 = some t ∧ t.sequence = id.2 ∧ s.act (.cancel id) = some { s with
      timers := s.timers.erase (t.expiration, id.1)
      activeTimers := s.activeTimers.erase id
      heap := Function.update s.heap id.1 none } := by
  obtain ⟨t, here, sequence, inside⟩ := held.active id.1 id.2 active
  refine ⟨t, here, sequence, ?_⟩
  rw [TimerQueue.act, cancelInLoop, held.sized_eq, Option.bind_some, if_pos active, here,
    Option.bind_some, if_pos inside]
  exact if_pos (held.erased active here).size

theorem Held.cancel_other (held : Held s out) (outside : id ∉ s.activeTimers) :
    s.act (.cancel id) = some { s with
      cancelingTimers := if s.callingExpiredTimers then Insert.insert id s.cancelingTimers
        else s.cancelingTimers } := by
  rw [TimerQueue.act, cancelInLoop, held.sized_eq, Option.bind_some, if_neg outside]
  by_cases calling : s.callingExpiredTimers = true
  · rw [if_pos calling, if_pos calling]
    exact if_pos held.size
  · rw [if_neg calling, if_neg calling, held.sized_eq]

/-- What acts, and the runs of callbacks, make of the queue while `out` have expired. -/
structure Acted (out : List (TimerPtr × Timer)) (acts : List Act) (runs : List (Nat × Int))
    (s s' : TimerQueue) : Prop where
  held : Held s' out
  calling : s'.callingExpiredTimers = s.callingExpiredTimers
  ran : s'.ran = s.ran ++ runs
  made : ∀ q t, s.made q = some t → s'.made q = some t
  heap : ∀ p t, s'.heap p = some t → s.heap p = some t ∨ s.made t.sequence = none
  canceling : s.callingExpiredTimers = true → ∀ o ∈ out,
    ((o.1, o.2.sequence) ∈ s'.cancelingTimers ↔
      (o.1, o.2.sequence) ∈ s.cancelingTimers ∨ .cancel (o.1, o.2.sequence) ∈ acts)
  guarded : ∀ P : Int → Prop, (∀ a b, a ≤ b → P b → P a) → Guarded P s → Guarded P s'

theorem Acted.refl (held : Held s out) : Acted out [] [] s s where
  held := held
  calling := rfl
  ran := (List.append_nil _).symm
  made _ _ known := known
  heap _ _ here := .inl here
  canceling _ _ _ := (or_iff_left (List.not_mem_nil)).symm
  guarded _ _ guard := guard

theorem Acted.trans (first : Acted out acts runs s s') (second : Acted out acts' runs' s' s'') :
    Acted out (acts ++ acts') (runs ++ runs') s s'' where
  held := second.held
  calling := second.calling.trans first.calling
  ran := by rw [second.ran, first.ran, List.append_assoc]
  made q t known := second.made q t (first.made q t known)
  heap p t here := by
    rcases second.heap p t here with before | unused
    · exact first.heap p t before
    · refine .inr ?_
      cases known : s.made t.sequence with
      | none => rfl
      | some made => exact nomatch unused.symm.trans (first.made _ _ known)
  canceling calling o inside := by
    rw [second.canceling (first.calling.trans calling) o inside, first.canceling calling o inside,
      List.mem_append, or_assoc]
  guarded P downward guard := second.guarded P downward (first.guarded P downward guard)

theorem Held.add (held : Held s out) (ptr : TimerPtr) (timer : Timer) (clock : Int) :
    ∃ s', s.act (.add ptr timer clock) = some s' ∧ Acted out [.add ptr timer clock] [] s s' := by
  by_cases free : s.heap ptr = none ∧ ptr < UINTPTR_MAX ∧ s.made timer.sequence = none
  · obtain ⟨s₁, told, held₁, heap, made, timers, calling, canceling, ran, timerfd⟩ :=
      held.add_free clock free
    refine ⟨s₁, told, held₁, calling, ran.trans (List.append_nil _).symm, fun q t known => ?_,
      fun p t here => ?_, fun _ o _ => ?_, fun P downward guard e inside small => ?_⟩
    · have used : q ≠ timer.sequence := by
        rintro rfl
        exact nomatch free.2.2.symm.trans known
      rw [made, Function.update_of_ne used, known]
    · rw [heap] at here
      by_cases mine : p = ptr
      · rw [mine, Function.update_self, Option.some_inj] at here
        exact .inr (here ▸ free.2.2)
      · rw [Function.update_of_ne mine] at here
        exact .inl here
    · rw [canceling, List.mem_singleton, or_iff_left Act.noConfusion]
    · rw [timerfd]
      by_cases changed : s.earliestChanged timer.expiration = true
      · rw [if_pos changed]
        exact nofun
      · rw [if_neg changed]
        rcases (timers e).mp inside with rfl | before
        · cases waiting : s.timers with
          | nil =>
            rw [earliestChanged, waiting] at changed
            exact absurd rfl changed
          | cons first rest =>
            rw [earliestChanged, waiting, decide_eq_true_iff] at changed
            have earlier := downward _ _ (Int.not_lt.mp changed) small
            exact guard first (waiting ▸ List.mem_cons_self) earlier
        · exact guard e before small
  · refine ⟨s, if_neg free, { Acted.refl held with canceling := fun _ _ _ => ?_ }⟩
    rw [List.mem_singleton, or_iff_left Act.noConfusion]

theorem Held.cancel (held : Held s out) (timer : ActiveTimer) :
    ∃ s', s.act (.cancel timer) = some s' ∧ Acted out [.cancel timer] [] s s' := by
  by_cases active : timer ∈ s.activeTimers
  · obtain ⟨t, here, -, told⟩ := held.cancel_active active
    refine ⟨_, told, {
      held := held.erased active here, calling := rfl, ran := (List.append_nil _).symm
      made := fun _ _ known => known, heap := fun p t' here => .inl (deleted_iff.mp here).2
      canceling := fun _ o member => ?_
      guarded := fun P downward guard e inside' => guard e (List.mem_of_mem_erase inside') }⟩
    refine (or_iff_left fun now => held.expired_ne active o member ?_).symm
    exact congrArg Prod.fst (Act.cancel.inj (List.mem_singleton.mp now))
  · refine ⟨_, held.cancel_other active, { Acted.refl held with
      held := { held with }, canceling := fun calling o member => ?_ }⟩
    dsimp only
    rw [if_pos calling, Finset.mem_insert, List.mem_singleton, Act.cancel.injEq, or_comm]

theorem Held.act (held : Held s out) (a : Act) :
    ∃ s', s.act a = some s' ∧ Acted out [a] [] s s' := by
  cases a with
  | add ptr timer clock => exact held.add ptr timer clock
  | cancel timer => exact held.cancel timer

theorem Held.foldlM_act (held : Held s out) (acts : List Act) :
    ∃ s', acts.foldlM TimerQueue.act s = some s' ∧ Acted out acts [] s s' := by
  induction acts generalizing s with
  | nil => exact ⟨s, rfl, .refl held⟩
  | cons a acts ih =>
    obtain ⟨s₁, first, acted⟩ := held.act a
    obtain ⟨s', rest, acted'⟩ := ih acted.held
    refine ⟨s', ?_, acted.trans acted'⟩
    rw [List.foldlM_cons, first]
    exact rest

def entryOf (o : TimerPtr × Timer) : Entry := (o.2.expiration, o.1)

theorem Held.calls (held : Held s out) (now : Int) (callbacks : Nat → List Act)
    {todo : List (TimerPtr × Timer)} (expired : ∀ o ∈ todo, o ∈ out) :
    ∃ s', (todo.map entryOf).foldlM (call now callbacks) s = some s' ∧
      Acted out (todo.flatMap fun o => callbacks o.2.sequence)
        (todo.map fun o => (o.2.sequence, now)) s s' := by
  induction todo generalizing s with
  | nil => exact ⟨s, rfl, .refl held⟩
  | cons o todo ih =>
    have here := (held.lone o (expired o List.mem_cons_self)).1
    have held₀ : Held { s with ran := s.ran ++ [(o.2.sequence, now)] } out := { held with }
    obtain ⟨s₁, ran, acted⟩ := held₀.foldlM_act (callbacks o.2.sequence)
    have acted₁ : Acted out (callbacks o.2.sequence) [(o.2.sequence, now)] s s₁ :=
      { acted with ran := by rw [acted.ran, List.append_nil] }
    obtain ⟨s', rest, acted'⟩ := ih acted.held fun o inside => expired o (List.mem_cons_of_mem _ inside)
    refine ⟨s', ?_, acted₁.trans acted'⟩
    have first : call now callbacks s (entryOf o) = some s₁ := by
      rw [call]
      exact (congrArg (Option.bind · _) here).trans ran
    rw [List.map_cons, List.foldlM_cons, first]
    exact rest

end TimerQueue

end ProjectsCpp.MuduoNet
