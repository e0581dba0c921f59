import ProjectsCpp.Lib.Run
import ProjectsCpp.MuduoNet.TimerCallbacks
import Mathlib.Data.List.TakeWhile

/-! Runs of the timer queue: adding, cancelling and reading the timerfd in any order. -/

namespace ProjectsCpp.MuduoNet
open ProjectsCpp.Run

namespace TimerQueue

variable {s s' : TimerQueue} {out : List (TimerPtr × Timer)}

/-! ### Expired timers leave the sets -/

theorem Held.deactivate {e : Entry} {rest : List Entry}
    (held : Held { s with timers := e :: rest } out) :
    ∃ t s', entryOf (e.2, t) = e ∧ s.deactivate e = some s' ∧
      s' = { s with activeTimers := s'.activeTimers } ∧
      Held { s' with timers := rest } (out ++ [(e.2, t)]) := by
  obtain ⟨t, here, expiration, active⟩ := held.timer e.1 e.2 List.mem_cons_self
  have entry_ : entryOf (e.2, t) = e := Prod.ext expiration rfl
  have told : s.deactivate e =
      some { s with activeTimers := s.activeTimers.erase (e.2, t.sequence) } := by
    rw [TimerQueue.deactivate]
    exact (congrArg (Option.bind · _) here).trans (if_pos active)
  have once := List.nodup_cons.mp held.once
  refine ⟨t, _, entry_, told, rfl, { held with
    timer := fun w k inside => ?_, active := fun k q inside => ?_
    sorted := (List.pairwise_cons.mp held.sorted).2, once := once.2, size := ?_
    lone := fun o inside => ?_, apart := ?_ }⟩
  · obtain ⟨t', here', expiration', active'⟩ := held.timer w k (List.mem_cons_of_mem _ inside)
    refine ⟨t', here', expiration', Finset.mem_erase.mpr ⟨fun same => ?_, active'⟩⟩
    obtain ⟨rfl, -⟩ := Prod.mk.inj same
    cases here.symm.trans here'
    exact once.1 ((Prod.ext (expiration'.symm.trans expiration) rfl : (w, e.2) = e) ▸ inside)
  · obtain ⟨other, active'⟩ := Finset.mem_erase.mp inside
    obtain ⟨t', here', sequence, member⟩ := held.active k q active'
    refine ⟨t', here', sequence, (List.mem_cons.mp member).resolve_left fun same => other ?_⟩
    have ptr : k = e.2 := congrArg Prod.snd same
    rw [ptr] at here'
    cases here.symm.trans here'
    rw [ptr, sequence]
  · have size := held.size
    rw [List.length_cons] at size
    exact (Finset.card_erase_of_mem active).symm ▸ (Nat.eq_sub_of_add_eq size)
  · rcases List.mem_append.mp inside with before | now
    · exact ⟨(held.lone o before).1, fun active' => (held.lone o before).2 (Finset.mem_of_mem_erase active')⟩
    · rw [List.mem_singleton.mp now]
      exact ⟨here, Finset.notMem_erase _ _⟩
  · rw [List.map_append, List.map_singleton]
    refine List.nodup_append_comm.mp (List.nodup_cons.mpr ⟨fun inside => ?_, held.apart⟩)
    obtain ⟨o, member, same⟩ := List.mem_map.mp inside
    have lone := held.lone o member
    rw [same] at lone
    cases here.symm.trans lone.1
    exact lone.2 active

theorem Held.foldlM_deactivate {expired rest : List Entry}
    (held : Held { s with timers := expired ++ rest } out) :
    ∃ gone s', expired.foldlM TimerQueue.deactivate s = some s' ∧ gone.map entryOf = expired ∧
      s' = { s with activeTimers := s'.activeTimers } ∧
      Held { s' with timers := rest } (out ++ gone) := by
  induction expired generalizing s out with
  | nil => exact ⟨[], s, rfl, rfl, rfl, by rwa [List.append_nil]⟩
  | cons e expired ih =>
    obtain ⟨t, s₁, entry_, told, frame, held₁⟩ := Held.deactivate held
    obtain ⟨gone, s', rest_, entries, frame', held'⟩ := ih held₁
    refine ⟨(e.2, t) :: gone, s', ?_, ?_, ?_, ?_⟩
    · rw [List.foldlM_cons, told]
      exact rest_
    · rw [List.map_cons, entries, entry_]
    · rw [frame', frame]
    · rwa [List.append_assoc] at held'

theorem Held.getExpired (held : Held s []) (now : Int) :
    ∃ gone s', s.getExpired now = some s' ∧
      gone.map entryOf = s.timers.takeWhile (expiredBy now) ∧
      s' = { s with
        timers := s.timers.dropWhile (expiredBy now), activeTimers := s'.activeTimers } ∧
      Held s' gone := by
  have whole : Held { s with
      timers := s.timers.takeWhile (expiredBy now) ++ s.timers.dropWhile (expiredBy now) } [] := by
    rwa [List.takeWhile_append_dropWhile]
  have later : ((s.timers.dropWhile (expiredBy now)).head?.all fun e => now < e.1) = true := by
    cases first : (s.timers.dropWhile (expiredBy now)).head? with
    | none => rfl
    | some e =>
      have open_ := List.head?_dropWhile_not (expiredBy now) s.timers
      rw [first] at open_
      have inside := (List.dropWhile_sublist _).subset (List.mem_of_mem_head? first)
      obtain ⟨t, here, -⟩ := held.timer e.1 e.2 inside
      have low := held.low e.2 t here
      have closed : ¬ (e.1 < now ∨ e.1 = now ∧ e.2 < UINTPTR_MAX) := of_decide_eq_false open_
      obtain ⟨notBefore, notNow⟩ := not_or.mp closed
      exact decide_eq_true (lt_of_le_of_ne (Int.not_lt.mp notBefore) fun same =>
        notNow ⟨same.symm, low⟩)
  obtain ⟨gone, s', told, entries, frame, held'⟩ := Held.foldlM_deactivate
    (s := { s with timers := s.timers.dropWhile (expiredBy now) }) whole
  have same : { s' with timers := s.timers.dropWhile (expiredBy now) } = s' := by rw [frame]
  rw [same, List.nil_append] at held'
  refine ⟨gone, s', ?_, entries, frame, held'⟩
  rw [TimerQueue.getExpired, held.sized_eq, Option.bind_some, if_pos later, told, Option.bind_some,
    held'.sized_eq]

/-! ### They come back or are deleted -/

structure Finished (now : Int) (out : List (TimerPtr × Timer)) (s s' : TimerQueue) : Prop where
  calling : s'.callingExpiredTimers = s.callingExpiredTimers
  canceling : s'.cancelingTimers = s.cancelingTimers
  timerfd : s'.timerfd = s.timerfd
  made : s'.made = s.made
  ran : s'.ran = s.ran
  back : ∀ o ∈ out, o.2.repeat_ = true → (o.1, o.2.sequence) ∉ s.cancelingTimers →
    s'.heap o.1 = some (o.2.restart now) ∧ (addTime now o.2.delta, o.1) ∈ s'.timers
  deleted : ∀ o ∈ out, ¬ (o.2.repeat_ = true ∧ (o.1, o.2.sequence) ∉ s.cancelingTimers) →
    s'.heap o.1 = none
  others : ∀ p, p ∉ out.map Prod.fst → s'.heap p = s.heap p
  stay : ∀ e ∈ s.timers, e ∈ s'.timers
  origin : ∀ e ∈ s'.timers, e ∈ s.timers ∨ ∃ o ∈ out, o.2.repeat_ = true ∧ e.1 = addTime now o.2.delta

theorem Held.finish {o : TimerPtr × Timer} (held : Held s (o :: out)) (now : Int) :
    ∃ s', s.finish now (entryOf o) = some s' ∧ Held s' out ∧ Finished now [o] s s' := by
  obtain ⟨here, outside⟩ := held.lone o List.mem_cons_self
  have told : s.finish now (entryOf o) =
      if o.2.repeat_ ∧ (o.1, o.2.sequence) ∉ s.cancelingTimers then
        TimerQueue.insert { s with heap := Function.update s.heap o.1 (some (o.2.restart now)) } o.1
          (o.2.restart now)
      else some { s with heap := Function.update s.heap o.1 none } := by
    rw [TimerQueue.finish]
    exact congrArg (Option.bind · _) here
  have only : ∀ p, p ∉ [o].map Prod.fst → p ≠ o.1 := fun p absent same =>
    absent (List.mem_singleton.mpr same)
  by_cases again : o.2.repeat_ = true ∧ (o.1, o.2.sequence) ∉ s.cancelingTimers
  · have apart := held.apart
    rw [List.map_cons, List.nodup_cons] at apart
    have later : (o.2.restart now).expiration = addTime now o.2.delta := if_pos again.1
    obtain ⟨s', inserted, held', left⟩ := (held.restart again.1 now).insert
      (t := o.2.restart now) (Function.update_self ..) outside apart.1
    refine ⟨s', told.trans ((if_pos again).trans inserted), held', left.calling, left.canceling,
      left.timerfd, left.made, left.ran, fun o' one _ _ => ?_, fun o' one never => ?_,
      fun p absent => ?_, fun e inside => (left.timers e).mpr (.inr inside), fun e inside => ?_⟩
    · rw [List.mem_singleton.mp one, left.heap]
      exact ⟨Function.update_self .., (left.timers _).mpr (.inl (by rw [later]))⟩
    · rw [List.mem_singleton.mp one] at never
      exact absurd again never
    · rw [left.heap]
      exact Function.update_of_ne (only p absent) _ _
    · rcases (left.timers e).mp inside with rfl | before
      · exact .inr ⟨o, List.mem_cons_self, again.1, later⟩
      · exact .inl before
  · refine ⟨_, told.trans (if_neg again), held.delete, rfl, rfl, rfl, rfl, rfl,
      fun o' one repeats free => ?_, fun o' one _ => ?_,
      fun p absent => Function.update_of_ne (only p absent) _ _, fun e inside => inside,
      fun e inside => .inl inside⟩
    · rw [List.mem_singleton.mp one] at repeats free
      exact absurd ⟨repeats, free⟩ again
    · rw [List.mem_singleton.mp one]
      exact Function.update_self ..

theorem Held.foldlM_finish (held : Held s out) (now : Int) :
    ∃ s', (out.map entryOf).foldlM (TimerQueue.finish now) s = some s' ∧ Held s' [] ∧
      Finished now out s s' := by
  induction out generalizing s with
  | nil =>
    exact ⟨s, rfl, held, rfl, rfl, rfl, rfl, rfl, nofun, nofun, fun _ _ => rfl,
      fun _ inside => inside, fun _ inside => .inl inside⟩
  | cons o out ih =>
    have apart := held.apart
    rw [List.map_cons, List.nodup_cons] at apart
    obtain ⟨s₁, first, held₁, one⟩ := held.finish now
    obtain ⟨s', rest, held', all⟩ := ih held₁
    refine ⟨s', ?_, held', all.calling.trans one.calling, all.canceling.trans one.canceling,
      all.timerfd.trans one.timerfd, all.made.trans one.made, all.ran.trans one.ran,
      fun o' member repeats free => ?_, fun o' member never => ?_, fun p absent => ?_,
      fun e inside => all.stay e (one.stay e inside), fun e inside => ?_⟩
    · rw [List.map_cons, List.foldlM_cons, first]
      exact rest
    · rcases List.mem_cons.mp member with rfl | member
      · obtain ⟨here, inside⟩ := one.back o' List.mem_cons_self repeats free
        exact ⟨(all.others _ apart.1).trans here, all.stay _ inside⟩
      · exact all.back o' member repeats (by rwa [one.canceling])
    · rcases List.mem_cons.mp member with rfl | member
      · exact (all.others _ apart.1).trans (one.deleted o' List.mem_cons_self never)
      · exact all.deleted o' member (by rwa [one.canceling])
    · rw [List.map_cons, List.mem_cons, not_or] at absent
      rw [all.others p absent.2, one.others p (by rw [List.map_singleton, List.mem_singleton]; exact absent.1)]
    · rcases all.origin e inside with before | ⟨o', member, repeats, time⟩
      · rcases one.origin e before with before | ⟨o', member, repeats, time⟩
        · exact .inl before
        · exact .inr ⟨o', by rw [List.mem_singleton.mp member]; exact List.mem_cons_self, repeats, time⟩
      · exact .inr ⟨o', List.mem_cons_of_mem _ member, repeats, time⟩

/-! ### `handleRead` -/

theorem expiredBy_iff {now : Int} {e : Entry} (low : e.2 < UINTPTR_MAX) :
    expiredBy now e = true ↔ e.1 ≤ now := by
  rw [expiredBy, decide_eq_true_iff, Int.le_iff_lt_or_eq]
  exact or_congr_right (and_iff_left low)

theorem expiredBy_mono {now : Int} {e e' : Entry} (le : e.le e') (expired : expiredBy now e' = true) :
    expiredBy now e = true := by
  rw [expiredBy, decide_eq_true_iff] at expired ⊢
  rcases le with less | ⟨same, le⟩
  · rcases expired with less' | ⟨same', -⟩
    · exact .inl (less.trans less')
    · exact .inl (same' ▸ less)
  · rcases expired with less' | ⟨same', low⟩
    · exact .inl (same ▸ less')
    · exact .inr ⟨same.trans same', Nat.lt_of_le_of_lt le low⟩

theorem not_expired_of_mem_dropWhile {now : Int} {e : Entry} {l : List Entry}
    (sorted : l.Pairwise Entry.le) (inside : e ∈ l.dropWhile (expiredBy now)) :
    ¬ expiredBy now e = true := by
  induction l with
  | nil => exact nomatch inside
  | cons first l ih =>
    obtain ⟨least, sorted⟩ := List.pairwise_cons.mp sorted
    by_cases expired : expiredBy now first = true
    · rw [List.dropWhile_cons_of_pos expired] at inside
      exact ih sorted inside
    · rw [List.dropWhile_cons_of_neg expired] at inside
      rcases List.mem_cons.mp inside with rfl | later
      · exact expired
      · exact fun late => expired (expiredBy_mono (least e later) late)

theorem Held.mem_takeWhile (held : Held s out) (now : Int) {e : Entry} :
    e ∈ s.timers.takeWhile (expiredBy now) ↔ e ∈ s.timers ∧ e.1 ≤ now := by
  have low : e ∈ s.timers → e.2 < UINTPTR_MAX := by
    intro inside
    obtain ⟨t, here, -⟩ := held.timer e.1 e.2 inside
    exact held.low e.2 t here
  constructor
  · intro inside
    have member := (List.takeWhile_prefix (expiredBy now)).subset inside
    exact ⟨member, (expiredBy_iff (low member)).mp (List.mem_takeWhile_imp inside)⟩
  · rintro ⟨member, time⟩
    have expired := (expiredBy_iff (low member)).mpr time
    rw [← List.takeWhile_append_dropWhile (p := expiredBy now) (l := s.timers)] at member
    refine (List.mem_append.mp member).resolve_right fun stays => ?_
    exact not_expired_of_mem_dropWhile held.sorted stays expired

structure Handled (now : Int) (callbacks : Nat → List Act) (gone : List (TimerPtr × Timer))
    (s s' : TimerQueue) : Prop where
  held : Held s' []
  calling : s'.callingExpiredTimers = false
  expired : gone.map entryOf = s.timers.takeWhile (expiredBy now)
  here : ∀ o ∈ gone, s.heap o.1 = some o.2
  apart : (gone.map Prod.fst).Nodup
  ran : s'.ran = s.ran ++ gone.map fun o => (o.2.sequence, now)
  made : ∀ q t, s.made q = some t → s'.made q = some t
  others : ∀ p t, s'.heap p = some t → p ∉ gone.map Prod.fst →
    s.heap p = some t ∨ s.made t.sequence = none
  back : ∀ o ∈ gone, o.2.repeat_ = true →
    Act.cancel (o.1, o.2.sequence) ∉ gone.flatMap (fun o => callbacks o.2.sequence) →
    s'.heap o.1 = some (o.2.restart now) ∧ (addTime now o.2.delta, o.1) ∈ s'.timers
  deleted : ∀ o ∈ gone, ¬ (o.2.repeat_ = true ∧
    Act.cancel (o.1, o.2.sequence) ∉ gone.flatMap (fun o => callbacks o.2.sequence)) →
    s'.heap o.1 = none
  armed : (∀ e ∈ s.timers, now < e.1 → 0 < e.1) →
    (∀ o ∈ gone, o.2.repeat_ = true → 0 < addTime now o.2.delta) →
    s'.timers ≠ [] → s'.timerfd ≠ .disarmed

theorem Held.reset (held : Held s out) (now clock : Int) :
    ∃ s₃ s', s.reset (out.map entryOf) now clock = some s' ∧ Held s₃ [] ∧ Finished now out s s₃ ∧
      s' = { s₃ with timerfd := s'.timerfd } ∧
      (Guarded (· ≤ 0) s₃ → s₃.timers ≠ [] → s'.timerfd ≠ .disarmed) := by
  obtain ⟨s₃, ran, held₃, finished⟩ := held.foldlM_finish now
  rw [TimerQueue.reset, ran, Option.bind_some]
  cases timers : s₃.timers with
  | nil => exact ⟨s₃, s₃, rfl, held₃, finished, rfl, fun _ some_ => absurd timers some_⟩
  | cons e rest =>
    have first : e ∈ s₃.timers := timers ▸ List.mem_cons_self
    obtain ⟨t, here, expiration, -⟩ := held₃.timer e.1 e.2 first
    refine ⟨s₃, if 0 < t.expiration then s₃.resetTimerfd t.expiration clock else s₃,
      congrArg (Option.map _) here, held₃, finished, ?_, fun guard _ disarmed => ?_⟩
    · split <;> rfl
    · by_cases valid : 0 < t.expiration
      · rw [if_pos valid, resetTimerfd_timerfd] at disarmed
        exact nomatch disarmed
      · rw [if_neg valid] at disarmed
        exact guard e first (expiration ▸ Int.not_lt.mp valid) disarmed

theorem Held.handleRead (held : Held s []) (now clock : Int) (callbacks : Nat → List Act) :
    ∃ gone s', s.handleRead now clock callbacks = some s' ∧ Handled now callbacks gone s s' := by
  have held₀ : Held s.readTimerfd [] := { held with }
  obtain ⟨gone, s₁, got, entries, frame, held₁⟩ := held₀.getExpired now
  have calling : Held { s₁ with callingExpiredTimers := true, cancelingTimers := ∅ } gone :=
    { held₁ with }
  obtain ⟨s₂, called, acted⟩ := calling.calls now callbacks fun o inside => inside
  have held₂ : Held { s₂ with callingExpiredTimers := false } gone := { acted.held with }
  obtain ⟨s₃, s', reset, held₃, finished, frame', armed⟩ := held₂.reset now clock
  have heap₁ : s₁.heap = s.heap :=
    (congrArg TimerQueue.heap frame).trans rfl
  have made₁ : s₁.made = s.made :=
    (congrArg TimerQueue.made frame).trans rfl
  have ran₁ : s₁.ran = s.ran :=
    (congrArg TimerQueue.ran frame).trans rfl
  have timers₁ : s₁.timers = s.timers.dropWhile (expiredBy now) :=
    (congrArg TimerQueue.timers frame).trans rfl
  have heap' : s'.heap = s₃.heap :=
    (congrArg TimerQueue.heap frame').trans rfl
  have made' : s'.made = s₃.made :=
    (congrArg TimerQueue.made frame').trans rfl
  have timers' : s'.timers = s₃.timers :=
    (congrArg TimerQueue.timers frame').trans rfl
  have ran' : s'.ran = s₃.ran :=
    (congrArg TimerQueue.ran frame').trans rfl
  have cancelled : ∀ o ∈ gone, ((o.1, o.2.sequence) ∈ s₂.cancelingTimers ↔
      Act.cancel (o.1, o.2.sequence) ∈ gone.flatMap fun o => callbacks o.2.sequence) := by
    intro o inside
    exact (acted.canceling rfl o inside).trans (or_iff_right (Finset.notMem_empty _))
  refine ⟨gone, s', ?_, ?_⟩
  · have entries : s.timers.takeWhile (expiredBy now) = gone.map entryOf := entries.symm
    rw [TimerQueue.handleRead, entries, got, Option.bind_some, called, Option.bind_some, reset]
  · refine ⟨frame' ▸ { held₃ with }, ?_, entries, fun o inside => heap₁ ▸ (held₁.lone o inside).1,
      held₁.apart, ?_, fun q t known => ?_, fun p t here outside => ?_,
      fun o inside repeats free => ?_, fun o inside never => ?_, fun later times some_ => ?_⟩
    · exact (congrArg TimerQueue.callingExpiredTimers frame').trans finished.calling
    · exact ran'.trans (finished.ran.trans (acted.ran.trans (congrArg (· ++ _) ran₁)))
    · rw [made', finished.made]
      exact acted.made q t (made₁ ▸ known)
    · rw [heap', finished.others p outside] at here
      have origin := acted.heap p t here
      rwa [heap₁, made₁] at origin
    · rw [heap', timers']
      exact finished.back o inside repeats fun now => free ((cancelled o inside).mp now)
    · rw [heap']
      exact finished.deleted o inside fun again => never ⟨again.1, fun now =>
        again.2 ((cancelled o inside).mpr now)⟩
    · have stay : Guarded (· ≤ 0) { s₁ with callingExpiredTimers := true, cancelingTimers := ∅ } := by
        intro e inside small
        have inside : e ∈ s.timers.dropWhile (expiredBy now) := timers₁ ▸ inside
        have member := (List.dropWhile_sublist _).subset inside
        obtain ⟨t, here, -⟩ := held.timer e.1 e.2 member
        have open_ := not_expired_of_mem_dropWhile held.sorted inside
        rw [expiredBy_iff (held.low e.2 t here)] at open_
        exact absurd (later e member (Int.not_le.mp open_)) (Int.not_lt.mpr small)
      have guard₂ := acted.guarded (· ≤ 0) (fun a b le small => le.trans small) stay
      refine armed (fun e inside small => ?_) (timers' ▸ some_)
      rcases finished.origin e inside with before | ⟨o, member, repeats, time⟩
      · exact finished.timerfd ▸ guard₂ e before small
      · exact absurd (times o member repeats) (Int.not_lt.mpr (time ▸ small))

/-! ### Runs -/

def machine : Machine TimerQueue TimerStep where
  start s := s = new
  step := step

/-- Between the steps: the sets fit the timers that there are, and of the callbacks that have run
those of one-shot timers ran once and not too early. -/
structure InOrder (s : TimerQueue) : Prop where
  timers : ∀ w p, (w, p) ∈ s.timers → ∃ t, s.heap p = some t ∧ t.expiration = w
  active : ∀ p q, (p, q) ∈ s.activeTimers → ∃ t, s.heap p = some t ∧ t.sequence = q
  same : ∀ p t, s.heap p = some t →
    ((t.expiration, p) ∈ s.timers ↔ (p, t.sequence) ∈ s.activeTimers)
  size : s.timers.length = s.activeTimers.card
  once : ∀ q t, s.made q = some t → t.repeat_ = false → s.ran.countP (fun run => run.1 = q) ≤ 1
  notBefore : ∀ run ∈ s.ran, ∃ t, s.made run.1 = some t ∧
    (t.repeat_ = false → t.expiration ≤ run.2)

def Cancelled (s : TimerQueue) (now : Int) (callbacks : Nat → List Act) (timer : ActiveTimer) :
    Prop :=
  ∃ e ∈ s.timers, e.1 ≤ now ∧ ∃ t, s.heap e.2 = some t ∧ .cancel timer ∈ callbacks t.sequence

/-- Each expired timer runs; it comes back if it repeats and is not cancelled, and is deleted
otherwise. -/
def ComesBack (s : TimerQueue) : Prop :=
  ∀ now clock callbacks s', s.handleRead now clock callbacks = some s' →
    ∀ e ∈ s.timers, e.1 ≤ now → ∃ t, s.heap e.2 = some t ∧
      s'.ran.count (t.sequence, now) = s.ran.count (t.sequence, now) + 1 ∧
      (t.repeat_ = true ∧ ¬ s.Cancelled now callbacks (e.2, t.sequence) →
        s'.heap e.2 = some (t.restart now) ∧ (addTime now t.delta, e.2) ∈ s'.timers) ∧
      (¬ (t.repeat_ = true ∧ ¬ s.Cancelled now callbacks (e.2, t.sequence)) → s'.heap e.2 = none)

/-- `handleRead` leaves no timer with an expiration that `valid()` denies: none that is later than
the clock has one, and none comes back with one. -/
def Clocked (s : TimerQueue) : TimerStep → Prop
  | .handleRead now _ _ => (∀ e ∈ s.timers, now < e.1 → 0 < e.1) ∧
      ∀ e ∈ s.timers, e.1 ≤ now → ∀ t, s.heap e.2 = some t → t.repeat_ = true →
        0 < addTime now t.delta
  | _ => True

structure Sound (s : TimerQueue) : Prop where
  held : Held s []
  calling : s.callingExpiredTimers = false
  once : ∀ q t, s.made q = some t → t.repeat_ = false → s.ran.countP (fun run => run.1 = q) ≤ 1
  notBefore : ∀ run ∈ s.ran, ∃ t, s.made run.1 = some t ∧
    (t.repeat_ = false → t.expiration ≤ run.2)
  waiting : ∀ p t, s.heap p = some t → t.repeat_ = false → ∀ run ∈ s.ran, run.1 ≠ t.sequence

theorem Sound.new : Sound new where
  held := .new
  calling := rfl
  once _ _ made := nomatch made
  notBefore _ inside := nomatch inside
  waiting _ _ here := nomatch here

theorem Sound.inOrder (sound : Sound s) : InOrder s where
  timers w p inside := by
    obtain ⟨t, here, expiration, -⟩ := sound.held.timer w p inside
    exact ⟨t, here, expiration⟩
  active p q inside := by
    obtain ⟨t, here, sequence, -⟩ := sound.held.active p q inside
    exact ⟨t, here, sequence⟩
  same p t here := by
    constructor
    · intro inside
      obtain ⟨t', here', -, active⟩ := sound.held.timer _ p inside
      cases here.symm.trans here'
      exact active
    · intro active
      obtain ⟨t', here', -, inside⟩ := sound.held.active p _ active
      cases here.symm.trans here'
      exact inside
  size := sound.held.size
  once := sound.once
  notBefore := sound.notBefore

theorem Sound.unmade (sound : Sound s) {q : Nat} (unused : s.made q = none) :
    ∀ run ∈ s.ran, run.1 ≠ q := by
  rintro run inside rfl
  obtain ⟨t, known, -⟩ := sound.notBefore run inside
  exact nomatch unused.symm.trans known

theorem countP_eq_zero {ran : List (Nat × Int)} {q : Nat} (never : ∀ run ∈ ran, run.1 ≠ q) :
    ran.countP (fun run => run.1 = q) = 0 :=
  List.countP_eq_zero.mpr fun run inside same => never run inside (of_decide_eq_true same)

theorem Sound.act (sound : Sound s) (a : Act) :
    ∃ s', s.act a = some s' ∧ Sound s' ∧ (Guarded (fun _ => True) s → Guarded (fun _ => True) s') := by
  obtain ⟨s', told, acted⟩ := sound.held.act a
  have ran : s'.ran = s.ran := acted.ran.trans (List.append_nil _)
  refine ⟨s', told, ⟨acted.held, acted.calling.trans sound.calling, fun q t known once => ?_,
    fun run inside => ?_, fun p t here once => ?_⟩, acted.guarded _ fun _ _ _ _ => trivial⟩
  · rw [ran]
    cases before : s.made q with
    | none =>
      rw [countP_eq_zero (sound.unmade before)]
      exact Nat.zero_le 1
    | some t₀ =>
      cases (acted.made q t₀ before).symm.trans known
      exact sound.once q t before once
  · obtain ⟨t, known, early⟩ := sound.notBefore run (ran ▸ inside)
    exact ⟨t, acted.made _ t known, early⟩
  · rw [ran]
    rcases acted.heap p t here with before | unused
    · exact sound.waiting p t before once
    · exact sound.unmade unused

theorem Handled.sequences {now : Int} {callbacks : Nat → List Act}
    {gone : List (TimerPtr × Timer)} (handled : Handled now callbacks gone s s') (held : Held s []) :
    (gone.map fun o => o.2.sequence).Nodup := by
  refine List.Nodup.map_on (fun o inside o' inside' same => ?_) (List.Nodup.of_map _ handled.apart)
  have ptr := held.one _ _ _ _ (handled.here o inside) (handled.here o' inside') same
  have timer := handled.here o inside
  rw [ptr, handled.here o' inside', Option.some_inj] at timer
  exact Prod.ext ptr timer.symm

theorem Handled.mem_gone {now : Int} {callbacks : Nat → List Act}
    {gone : List (TimerPtr × Timer)} (handled : Handled now callbacks gone s s') (held : Held s [])
    {o : TimerPtr × Timer} : o ∈ gone ↔
      s.heap o.1 = some o.2 ∧ entryOf o ∈ s.timers ∧ o.2.expiration ≤ now := by
  have entries := held.mem_takeWhile now (e := entryOf o)
  rw [← handled.expired] at entries
  constructor
  · intro inside
    exact ⟨handled.here o inside, entries.mp (List.mem_map_of_mem inside)⟩
  · rintro ⟨here, inside, time⟩
    obtain ⟨o', inside', same⟩ := List.mem_map.mp (entries.mpr ⟨inside, time⟩)
    have ptr : o'.1 = o.1 := congrArg Prod.snd same
    have here' := handled.here o' inside'
    rw [ptr, here, Option.some_inj] at here'
    exact (Prod.ext ptr here'.symm : o' = o) ▸ inside'

theorem Sound.handleRead (sound : Sound s) (now clock : Int) (callbacks : Nat → List Act) :
    ∃ gone s', s.handleRead now clock callbacks = some s' ∧ Sound s' ∧
      Handled now callbacks gone s s' := by
  obtain ⟨gone, s', told, handled⟩ := sound.held.handleRead now clock callbacks
  have sequences := handled.sequences sound.held
  have known : ∀ o ∈ gone, ∃ made, s.made o.2.sequence = some made ∧ made.Like o.2 :=
    fun o inside => sound.held.made _ _ (handled.here o inside)
  refine ⟨gone, s', told, ⟨handled.held, handled.calling, fun q t made once => ?_,
    fun run inside => ?_, fun p t here once run inside => ?_⟩, handled⟩
  · have split : s'.ran.countP (fun run => run.1 = q) =
        s.ran.countP (fun run => run.1 = q) + (gone.map fun o => o.2.sequence).count q := by
      rw [handled.ran, List.countP_append, List.countP_map, List.count, List.countP_map]
      rfl
    have few := List.nodup_iff_count_le_one.mp sequences q
    rw [split]
    by_cases expired : q ∈ gone.map fun o => o.2.sequence
    · obtain ⟨o, inside, rfl⟩ := List.mem_map.mp expired
      obtain ⟨t₀, made₀, like⟩ := known o inside
      cases (handled.made _ _ made₀).symm.trans made
      have never := sound.waiting _ _ (handled.here o inside) (like.2.1 ▸ once)
      rw [countP_eq_zero never]
      omega
    · rw [List.count_eq_zero.mpr expired]
      cases before : s.made q with
      | none =>
        rw [countP_eq_zero (sound.unmade before)]
        exact Nat.zero_le 1
      | some t₀ =>
        cases (handled.made q t₀ before).symm.trans made
        exact sound.once q t before once
  · rw [handled.ran] at inside
    rcases List.mem_append.mp inside with before | now_
    · obtain ⟨t, made, early⟩ := sound.notBefore run before
      exact ⟨t, handled.made _ t made, early⟩
    · obtain ⟨o, member, rfl⟩ := List.mem_map.mp now_
      obtain ⟨t₀, made₀, like⟩ := known o member
      refine ⟨t₀, handled.made _ _ made₀, fun once => ?_⟩
      rw [like.2.2.2 (like.2.1 ▸ once)]
      exact ((handled.mem_gone sound.held).mp member).2.2
  · by_cases expired : p ∈ gone.map Prod.fst
    · obtain ⟨o, member, rfl⟩ := List.mem_map.mp expired
      have never : ¬ (o.2.repeat_ = true ∧ Act.cancel (o.1, o.2.sequence) ∉
          gone.flatMap fun o => callbacks o.2.sequence) := by
        rintro ⟨repeats, free⟩
        obtain ⟨here', -⟩ := handled.back o member repeats free
        cases here.symm.trans here'
        exact nomatch repeats.symm.trans once
      exact nomatch (handled.deleted o member never).symm.trans here
    · rw [handled.ran] at inside
      rcases List.mem_append.mp inside with before | now_
      · rcases handled.others p t here expired with old | unused
        · exact sound.waiting p t old once run before
        · exact sound.unmade unused run before
      · obtain ⟨o, member, rfl⟩ := List.mem_map.mp now_
        intro same
        rcases handled.others p t here expired with old | unused
        · have ptr := sound.held.one _ _ _ _ (handled.here o member) old same
          exact expired (ptr ▸ List.mem_map_of_mem member)
        · obtain ⟨t₀, made₀, -⟩ := known o member
          have same : o.2.sequence = t.sequence := same
          rw [same, unused] at made₀
          exact nomatch made₀

theorem Sound.step (sound : Sound s) (e : TimerStep) : ∃ s', s.step e = some s' ∧ Sound s' := by
  cases e with
  | act a =>
    obtain ⟨s', told, sound', -⟩ := sound.act a
    exact ⟨s', told, sound'⟩
  | handleRead now clock callbacks =>
    obtain ⟨gone, s', told, sound', -⟩ := sound.handleRead now clock callbacks
    exact ⟨s', told, sound'⟩
  | alarm => exact ⟨_, rfl, { sound with held := { sound.held with } }⟩

theorem sound_of_reach {ok : TimerQueue → TimerStep → Prop} (reach : Reach machine ok s) :
    Sound s := by
  refine reach.invariant ?_ ?_
  · rintro _ rfl
    exact .new
  · intro s e t sound _ taken
    obtain ⟨s', told, sound'⟩ := sound.step e
    cases told.symm.trans taken
    exact sound'

theorem Sound.comesBack (sound : Sound s) : ComesBack s := by
  intro now clock callbacks s' taken e inside time
  obtain ⟨gone, s₁, told, -, handled⟩ := sound.handleRead now clock callbacks
  cases told.symm.trans taken
  obtain ⟨t, here, expiration, -⟩ := sound.held.timer e.1 e.2 inside
  have entry_ : entryOf (e.2, t) = e := Prod.ext expiration rfl
  have member : (e.2, t) ∈ gone :=
    (handled.mem_gone sound.held).mpr ⟨here, entry_ ▸ inside, expiration ▸ time⟩
  have cancelled : s.Cancelled now callbacks (e.2, t.sequence) ↔
      Act.cancel (e.2, t.sequence) ∈ gone.flatMap fun o => callbacks o.2.sequence := by
    rw [List.mem_flatMap]
    constructor
    · rintro ⟨e', inside', time', t', here', act⟩
      obtain ⟨t₁, here₁, expiration', -⟩ := sound.held.timer e'.1 e'.2 inside'
      cases here'.symm.trans here₁
      have entry' : entryOf (e'.2, t') = e' := Prod.ext expiration' rfl
      exact ⟨(e'.2, t'), (handled.mem_gone sound.held).mpr
        ⟨here', entry' ▸ inside', expiration' ▸ time'⟩, act⟩
    · rintro ⟨o, member', act⟩
      obtain ⟨here', inside', time'⟩ := (handled.mem_gone sound.held).mp member'
      exact ⟨entryOf o, inside', time', o.2, here', act⟩
  refine ⟨t, here, ?_, fun again => ?_, fun never => ?_⟩
  · have single : (gone.map fun o => (o.2.sequence, now)).count (t.sequence, now) = 1 := by
      have once : (gone.map fun o => (o.2.sequence, now)).Nodup := by
        have pairs := (handled.sequences sound.held).map
          (f := fun q => (q, now)) fun _ _ same => (Prod.mk.inj same).1
        rwa [List.map_map] at pairs
      exact List.count_eq_one_of_mem once (List.mem_map.mpr ⟨(e.2, t), member, rfl⟩)
    rw [handled.ran, List.count_append, single]
  · exact handled.back (e.2, t) member again.1 fun now => again.2 (cancelled.mpr now)
  · exact handled.deleted (e.2, t) member fun again =>
      never ⟨again.1, fun now => again.2 (cancelled.mp now)⟩

theorem armed_of_reach (reach : Reach machine Clocked s) : Guarded (fun _ => True) s := by
  refine reach.invariant_of (fun _ before => sound_of_reach before) ?_ ?_
  · rintro _ rfl e inside
    exact nomatch inside
  · intro s step t sound guard clocked taken
    cases step with
    | act a =>
      obtain ⟨s', told, -, guarded⟩ := sound.act a
      cases told.symm.trans taken
      exact guarded guard
    | handleRead now clock callbacks =>
      obtain ⟨gone, s', told, -, handled⟩ := sound.handleRead now clock callbacks
      cases told.symm.trans taken
      intro e inside _
      refine handled.armed clocked.1 (fun o member repeats => ?_) (List.ne_nil_of_mem inside)
      obtain ⟨here, inside', time⟩ := (handled.mem_gone sound.held).mp member
      exact clocked.2 _ inside' time _ here repeats
    | alarm =>
      cases taken
      intro e inside _ disarmed
      have before := guard e inside trivial
      by_cases armed : s.timerfd = .armed
      · exact nomatch (if_pos armed).symm.trans disarmed
      · exact before ((if_neg armed).symm.trans disarmed)

/-- In every run the books are in order, every step completes without touching a timer that is no
more, and expired timers run and come back or are deleted; and while `handleRead` leaves no
expiration that is not valid, the timerfd is armed or readable whenever there is a timer. -/
theorem timerQueue_runs (s : TimerQueue) :
    (Reachable machine s → InOrder s ∧ (∀ e, ∃ s', s.step e = some s') ∧ ComesBack s) ∧
    (Reach machine Clocked s → s.timers ≠ [] → s.timerfd ≠ .disarmed) := by
  constructor
  · intro reach
    have sound := sound_of_reach reach
    refine ⟨sound.inOrder, fun e => ?_, sound.comesBack⟩
    obtain ⟨s', taken, -⟩ := sound.step e
    exact ⟨s', taken⟩
  · intro reach some_
    obtain ⟨e, inside⟩ := List.exists_mem_of_ne_nil _ some_
    exact armed_of_reach reach e inside trivial

instance (s : TimerQueue) (e : TimerStep) : Decidable (s.Clocked e) :=
  match e with
  | .handleRead now _ _ => decidable_of_iff ((∀ e ∈ s.timers, now < e.1 → 0 < e.1) ∧
      ∀ e ∈ s.timers, e.1 ≤ now → (s.heap e.2).all fun t => !t.repeat_ || 0 < addTime now t.delta) <| by
    rw [Clocked]
    refine and_congr_right fun _ => forall₂_congr fun e _ => imp_congr_right fun _ => ?_
    cases s.heap e.2 with
    | none => simp
    | some t => cases repeats : t.repeat_ <;> simp [repeats]
  | .act _ => .isTrue trivial
  | .alarm => .isTrue trivial

theorem timerQueue_runs_threeTimers : ∃ s : TimerQueue, s.timers = [(150, 3), (300, 1)] ∧
    s.timerfd = .armed ∧ s.ran = [(1, 200), (2, 200)] ∧
    (s.timers ≠ [] → s.timerfd ≠ .disarmed) := by
  have runs : ((execWhere machine Clocked new [.act (.add 1 ⟨100, true, 100, 1⟩ 10),
      .act (.add 2 ⟨100, false, 0, 2⟩ 20), .alarm, .handleRead 200 201 fun q =>
        if q = 2 then [.add 3 ⟨150, false, 0, 3⟩ 200] else []]).any fun s =>
      decide (s.timers = [(150, 3), (300, 1)] ∧ s.timerfd = .armed ∧
        s.ran = [(1, 200), (2, 200)])) = true := by decide +kernel
  obtain ⟨s, ran, holds⟩ := (Option.any_eq_true _ _).mp runs
  obtain ⟨timers, armed, run⟩ := of_decide_eq_true holds
  exact ⟨s, timers, armed, run, (timerQueue_runs s).2 (Reach.execWhere (.start rfl) ran)⟩

theorem timerQueue_left_disarmed :
    (∃ s, Reachable machine s ∧ s.timers = [(-9222544073709551616, 1)] ∧ s.timerfd = .disarmed) ∧
    ∃ s, Reachable machine s ∧ s.timers = [(-50, 2)] ∧ s.timerfd = .disarmed := by
  have runs : ((exec machine new
      [.act (.add 1 ⟨1700000000000000, true, 9222500000000000000, 1⟩ 1690000000000000), .alarm,
        .handleRead 1700000000000000 1700000000000001 fun _ => []]).any fun s =>
      decide (s.timers = [(-9222544073709551616, 1)] ∧ s.timerfd = .disarmed)) = true := by
    decide +kernel
  have runs' : ((exec machine new [.act (.add 1 ⟨-200, false, 0, 1⟩ (-300)),
      .act (.add 2 ⟨-50, false, 0, 2⟩ (-300)), .alarm, .handleRead (-100) (-99) fun _ => []]).any
      fun s => decide (s.timers = [(-50, 2)] ∧ s.timerfd = .disarmed)) = true := by decide +kernel
  obtain ⟨s, ran, holds⟩ := (Option.any_eq_true _ _).mp runs
  obtain ⟨s', ran', holds'⟩ := (Option.any_eq_true _ _).mp runs'
  exact ⟨⟨s, Reach.exec (.start rfl) ran, of_decide_eq_true holds⟩,
    s', Reach.exec (.start rfl) ran', of_decide_eq_true holds'⟩

end TimerQueue

end ProjectsCpp.MuduoNet
