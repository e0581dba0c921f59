import Mathlib.Data.Finset.Insert
import Mathlib.Data.Finset.Card
import Mathlib.Data.List.Sort
import Mathlib.Algebra.Order.Group.Int
import Mathlib.Algebra.Group.Nat.Defs
import Mathlib.Algebra.Group.Int.Defs

/-! The timer queue of muduo (`TimerQueue.cc`, `Timer.cc`), in the loop thread. A failing assertion,
a timer that is used or deleted when it is no more, give `none`. Sums of `int64_t` wrap around. -/

namespace ProjectsCpp.MuduoNet

abbrev TimerPtr := Nat

def UINTPTR_MAX : Nat := 2 ^ 64 - 1

/-- `delta` has the microseconds that `addTime` makes of `interval_`. -/
structure Timer where
  expiration : Int
  repeat_ : Bool
  delta : Int
  sequence : Nat
deriving DecidableEq

def addTime (timestamp delta : Int) : Int := (timestamp + delta).bmod (2 ^ 64)

def Timer.restart (t : Timer) (now : Int) : Timer :=
  { t with expiration := if t.repeat_ then addTime now t.delta else 0 }

def howMuchTimeFromNow (when_ now : Int) : Int :=
  let microseconds := (when_ - now).bmod (2 ^ 64)
  if microseconds < 100 then 100 else microseconds

inductive Timerfd where
  | disarmed | armed | readable
deriving DecidableEq

abbrev Entry := Int × TimerPtr

abbrev ActiveTimer := TimerPtr × Nat

def Entry.le (e e' : Entry) : Prop := e.1 < e'.1 ∨ e.1 = e'.1 ∧ e.2 ≤ e'.2

instance : DecidableRel Entry.le := fun _ _ => inferInstanceAs (Decidable (_ ∨ _))

/-- `heap` has the timer objects that there are. `made` has each timer as it was made, by its
sequence number, and `ran` the timers whose callbacks have run, with the time. -/
structure TimerQueue where
  heap : TimerPtr → Option Timer
  timers : List Entry
  activeTimers : Finset ActiveTimer
  callingExpiredTimers : Bool
  cancelingTimers : Finset ActiveTimer
  timerfd : Timerfd
  made : Nat → Option Timer
  ran : List (Nat × Int)

/-- What a callback does; `clock` is the time when `resetTimerfd` looks. -/
inductive Act where
  | add (ptr : TimerPtr) (timer : Timer) (clock : Int)
  | cancel (timer : ActiveTimer)
deriving DecidableEq

namespace TimerQueue

def new : TimerQueue := ⟨fun _ => none, [], ∅, false, ∅, .disarmed, fun _ => none, []⟩

/-- `assert(timers_.size() == activeTimers_.size())`. -/
def sized (s : TimerQueue) : Option TimerQueue :=
  if s.timers.length = s.activeTimers.card then some s else none

def resetTimerfd (s : TimerQueue) (expiration clock : Int) : TimerQueue :=
  { s with timerfd := if howMuchTimeFromNow expiration clock = 0 then .disarmed else .armed }

def earliestChanged (s : TimerQueue) (when_ : Int) : Bool :=
  match s.timers with
  | [] => true
  | e :: _ => when_ < e.1

def insert (s : TimerQueue) (ptr : TimerPtr) (timer : Timer) : Option TimerQueue :=
  s.sized.bind fun s =>
    if (timer.expiration, ptr) ∉ s.timers ∧ (ptr, timer.sequence) ∉ s.activeTimers then
      sized { s with
        timers := s.timers.orderedInsert Entry.le (timer.expiration, ptr)
        activeTimers := Insert.insert (ptr, timer.sequence) s.activeTimers }
    else none

def addTimerInLoop (s : TimerQueue) (ptr : TimerPtr) (clock : Int) : Option TimerQueue :=
  (s.heap ptr).bind fun timer => (s.insert ptr timer).map fun s' =>
    if s.earliestChanged timer.expiration then s'.resetTimerfd timer.expiration clock else s'

def cancelInLoop (s : TimerQueue) (timer : ActiveTimer) : Option TimerQueue :=
  s.sized.bind fun s =>
    if timer ∈ s.activeTimers then
      (s.heap timer.1).bind fun object =>
        if (object.expiration, timer.1) ∈ s.timers then
          sized { s with
            timers := s.timers.erase (object.expiration, timer.1)
            activeTimers := s.activeTimers.erase timer
            heap := Function.update s.heap timer.1 none }
        else none
    else if s.callingExpiredTimers then
      sized { s with cancelingTimers := Insert.insert timer s.cancelingTimers }
    else s.sized

/-- `new Timer` takes an address and a sequence number that are free, so others are passed over;
then `addTimerInLoop`. -/
def act (s : TimerQueue) : Act → Option TimerQueue
  | .add ptr timer clock =>
    if s.heap ptr = none ∧ ptr < UINTPTR_MAX ∧ s.made timer.sequence = none then
      addTimerInLoop { s with
        heap := Function.update s.heap ptr (some timer)
        made := Function.update s.made timer.sequence (some timer) } ptr clock
    else some s
  | .cancel timer => s.cancelInLoop timer

def expiredBy (now : Int) (e : Entry) : Bool := e.1 < now ∨ e.1 = now ∧ e.2 < UINTPTR_MAX

def readTimerfd (s : TimerQueue) : TimerQueue :=
  { s with timerfd := if s.timerfd = .readable then .disarmed else s.timerfd }

def deactivate (s : TimerQueue) (e : Entry) : Option TimerQueue :=
  (s.heap e.2).bind fun timer =>
    if (e.2, timer.sequence) ∈ s.activeTimers then
      some { s with activeTimers := s.activeTimers.erase (e.2, timer.sequence) }
    else none

def getExpired (s : TimerQueue) (now : Int) : Option TimerQueue :=
  s.sized.bind fun s =>
    if (s.timers.dropWhile (expiredBy now)).head?.all fun e => now < e.1 then
      ((s.timers.takeWhile (expiredBy now)).foldlM deactivate
        { s with timers := s.timers.dropWhile (expiredBy now) }).bind sized
    else none

def call (now : Int) (callbacks : Nat → List Act) (s : TimerQueue) (e : Entry) :
    Option TimerQueue :=
  (s.heap e.2).bind fun timer =>
    (callbacks timer.sequence).foldlM act { s with ran := s.ran ++ [(timer.sequence, now)] }

def finish (now : Int) (s : TimerQueue) (e : Entry) : Option TimerQueue :=
  (s.heap e.2).bind fun timer =>
    if timer.repeat_ ∧ (e.2, timer.sequence) ∉ s.cancelingTimers then
      insert { s with heap := Function.update s.heap e.2 (some (timer.restart now)) } e.2
        (timer.restart now)
    else some { s with heap := Function.update s.heap e.2 none }

def reset (s : TimerQueue) (expired : List Entry) (now clock : Int) : Option TimerQueue :=
  (expired.foldlM (finish now) s).bind fun s =>
    match s.timers with
    | [] => some s
    | e :: _ => (s.heap e.2).map fun timer =>
      if 0 < timer.expiration then s.resetTimerfd timer.expiration clock else s

def handleRead (s : TimerQueue) (now clock : Int) (callbacks : Nat → List Act) :
    Option TimerQueue :=
  let expired := s.timers.takeWhile (expiredBy now)
  (s.readTimerfd.getExpired now).bind fun s =>
    (expired.foldlM (call now callbacks)
      { s with callingExpiredTimers := true, cancelingTimers := ∅ }).bind fun s =>
        reset { s with callingExpiredTimers := false } expired now clock

end TimerQueue

/-- What happens in the loop thread; `alarm` is the kernel's. -/
inductive TimerStep where
  | act (a : Act)
  | handleRead (now clock : Int) (callbacks : Nat → List Act)
  | alarm

def TimerQueue.step (s : TimerQueue) : TimerStep → Option TimerQueue
  | .act a => s.act a
  | .handleRead now clock callbacks => s.handleRead now clock callbacks
  | .alarm => some { s with timerfd := if s.timerfd = .armed then .readable else s.timerfd }

/-! ### The bookkeeping -/

instance : Std.Total Entry.le where
  total e e' := by
    rcases Int.lt_trichotomy e.1 e'.1 with less | same | more
    · exact .inl (.inl less)
    · exact (Nat.le_total e.2 e'.2).imp (fun le => .inr ⟨same, le⟩) fun le => .inr ⟨same.symm, le⟩
    · exact .inr (.inl more)

instance : IsTrans Entry Entry.le where
  trans a b c first second := by
    rcases first with less | ⟨same, le⟩
    · rcases second with less' | ⟨same', -⟩
      · exact .inl (Int.lt_trans less less')
      · exact .inl (same' ▸ less)
    · rcases second with less' | ⟨same', le'⟩
      · exact .inl (same ▸ less')
      · exact .inr ⟨same.trans same', Nat.le_trans le le'⟩

def Timer.Like (made t : Timer) : Prop :=
  made.sequence = t.sequence ∧ made.repeat_ = t.repeat_ ∧ made.delta = t.delta ∧
    (t.repeat_ = false → made = t)

theorem Timer.Like.refl (t : Timer) : t.Like t := ⟨rfl, rfl, rfl, fun _ => rfl⟩

theorem Timer.Like.restart {made t : Timer} (like : made.Like t) (repeats : t.repeat_ = true)
    (now : Int) : made.Like (t.restart now) :=
  ⟨like.1, like.2.1, like.2.2.1, fun once => nomatch repeats.symm.trans once⟩

namespace TimerQueue

/-- Both sets hold the same timers, which are there; `out` are timers in neither. -/
structure Held (s : TimerQueue) (out : List (TimerPtr × Timer)) : Prop where
  timer : ∀ w p, (w, p) ∈ s.timers →
    ∃ t, s.heap p = some t ∧ t.expiration = w ∧ (p, t.sequence) ∈ s.activeTimers
  active : ∀ p q, (p, q) ∈ s.activeTimers →
    ∃ t, s.heap p = some t ∧ t.sequence = q ∧ (t.expiration, p) ∈ s.timers
  sorted : s.timers.Pairwise Entry.le
  once : s.timers.Nodup
  size : s.timers.length = s.activeTimers.card
  lone : ∀ o ∈ out, s.heap o.1 = some o.2 ∧ (o.1, o.2.sequence) ∉ s.activeTimers
  apart : (out.map Prod.fst).Nodup
  made : ∀ p t, s.heap p = some t → ∃ made, s.made t.sequence = some made ∧ made.Like t
  one : ∀ p p' t t', s.heap p = some t → s.heap p' = some t' → t.sequence = t'.sequence → p = p'
  low : ∀ p t, s.heap p = some t → p < UINTPTR_MAX

variable {s s' : TimerQueue} {out : List (TimerPtr × Timer)} {p : TimerPtr} {t : Timer}

theorem Held.new : Held new [] where
  timer _ _ inside := nomatch inside
  active _ _ inside := absurd inside (Finset.notMem_empty _)
  sorted := .nil
  once := .nil
  size := rfl
  lone _ inside := nomatch inside
  apart := .nil
  made _ _ held := nomatch held
  one _ _ _ _ held := nomatch held
  low _ _ held := nomatch held

theorem Held.sized_eq (held : Held s out) : s.sized = some s := if_pos held.size

theorem Held.not_mem (held : Held s out) (here : s.heap p = some t)
    (outside : (p, t.sequence) ∉ s.activeTimers) (w : Int) : (w, p) ∉ s.timers := by
  intro inside
  obtain ⟨t', here', -, active⟩ := held.timer w p inside
  cases here.symm.trans here'
  exact outside active

/-- What `insert` leaves of the queue. -/
structure Inserted (s : TimerQueue) (p : TimerPtr) (t : Timer) (s' : TimerQueue) : Prop where
  heap : s'.heap = s.heap
  timers : ∀ e, e ∈ s'.timers ↔ e = (t.expiration, p) ∨ e ∈ s.timers
  calling : s'.callingExpiredTimers = s.callingExpiredTimers
  canceling : s'.cancelingTimers = s.cancelingTimers
  timerfd : s'.timerfd = s.timerfd
  made : s'.made = s.made
  ran : s'.ran = s.ran

theorem Held.insert (held : Held s out) (here : s.heap p = some t)
    (outside : (p, t.sequence) ∉ s.activeTimers) (other : p ∉ out.map Prod.fst) :
    ∃ s', s.insert p t = some s' ∧ Held s' out ∧ Inserted s p t s' := by
  have absent := held.not_mem here outside t.expiration
  have size : (s.timers.orderedInsert Entry.le (t.expiration, p)).length =
      (Insert.insert (p, t.sequence) s.activeTimers).card := by
    rw [List.orderedInsert_length, Finset.card_insert_of_notMem outside, held.size]
  refine ⟨{ s with
    timers := s.timers.orderedInsert Entry.le (t.expiration, p)
    activeTimers := Insert.insert (p, t.sequence) s.activeTimers }, ?_, ?_,
    rfl, fun e => List.mem_orderedInsert _, rfl, rfl, rfl, rfl, rfl⟩
  · rw [TimerQueue.insert, held.sized_eq, Option.bind_some, if_pos ⟨absent, outside⟩]
    exact if_pos size
  · refine { held with
      timer := fun w k inside => ?_, active := fun k q inside => ?_
      sorted := held.sorted.orderedInsert _ _
      once := ?_, size := size, lone := fun o inside => ⟨(held.lone o inside).1, fun now => ?_⟩ }
    · rcases (List.mem_orderedInsert _).mp inside with same | before
      · cases same
        exact ⟨t, here, rfl, Finset.mem_insert_self _ _⟩
      · obtain ⟨t', here', expiration, active⟩ := held.timer w k before
        exact ⟨t', here', expiration, Finset.mem_insert_of_mem active⟩
    · rcases Finset.mem_insert.mp inside with same | before
      · cases same
        exact ⟨t, here, rfl, (List.mem_orderedInsert _).mpr (.inl rfl)⟩
      · obtain ⟨t', here', sequence, inside⟩ := held.active k q before
        exact ⟨t', here', sequence, (List.mem_orderedInsert _).mpr (.inr inside)⟩
    · exact (List.perm_orderedInsert _ _ _).nodup_iff.mpr (List.nodup_cons.mpr ⟨absent, held.once⟩)
    · rcases Finset.mem_insert.mp now with same | before
      · exact other ((Prod.mk.inj same).1 ▸ List.mem_map_of_mem inside)
      · exact (held.lone o inside).2 before

theorem Held.alloc (held : Held s out) (free : s.heap p = none) (low : p < UINTPTR_MAX)
    (unused : s.made t.sequence = none) :
    Held { s with
      heap := Function.update s.heap p (some t)
      made := Function.update s.made t.sequence (some t) } out ∧
    (p, t.sequence) ∉ s.activeTimers ∧ p ∉ out.map Prod.fst := by
  have other : ∀ k t', s.heap k = some t' → k ≠ p := by
    rintro k t' here rfl
    exact nomatch free.symm.trans here
  have kept : ∀ k t', s.heap k = some t' → Function.update s.heap p (some t) k = some t' :=
    fun k t' here => (Function.update_of_ne (other k t' here) _ _).trans here
  have fresh : ∀ k t', s.heap k = some t' → t'.sequence ≠ t.sequence := by
    intro k t' here same
    obtain ⟨made, known, -⟩ := held.made k t' here
    rw [same, unused] at known
    exact nomatch known
  refine ⟨{ held with
      timer := fun w k inside => ?_, active := fun k q inside => ?_, lone := fun o inside => ?_
      made := fun k t' here => ?_, one := fun k k' t₁ t₂ here here' same => ?_
      low := fun k t' here => ?_ }, fun active => ?_, fun inside => ?_⟩
  · obtain ⟨t', here, rest⟩ := held.timer w k inside
    exact ⟨t', kept k t' here, rest⟩
  · obtain ⟨t', here, rest⟩ := held.active k q inside
    exact ⟨t', kept k t' here, rest⟩
  · exact ⟨kept _ _ (held.lone o inside).1, (held.lone o inside).2⟩
  · by_cases mine : k = p
    · simp only [mine, Function.update_self, Option.some_inj] at here
      rw [← here]
      exact ⟨t, Function.update_self .., .refl t⟩
    · simp only [Function.update_of_ne mine] at here
      obtain ⟨made, known, like⟩ := held.made k t' here
      exact ⟨made, (Function.update_of_ne (fresh k t' here) _ _).trans known, like⟩
  · by_cases mine : k = p
    · simp only [mine, Function.update_self, Option.some_inj] at here
      by_cases mine' : k' = p
      · exact mine.trans mine'.symm
      · simp only [Function.update_of_ne mine'] at here'
        exact absurd (same.symm.trans (congrArg Timer.sequence here.symm)) (fresh k' t₂ here')
    · simp only [Function.update_of_ne mine] at here
      by_cases mine' : k' = p
      · simp only [mine', Function.update_self, Option.some_inj] at here'
        exact absurd (same.trans (congrArg Timer.sequence here'.symm)) (fresh k t₁ here)
      · simp only [Function.update_of_ne mine'] at here'
        exact held.one k k' t₁ t₂ here here' same
  · by_cases mine : k = p
    · rwa [mine]
    · simp only [Function.update_of_ne mine] at here
      exact held.low k t' here
  · obtain ⟨t', here, -⟩ := held.active _ _ active
    exact other p t' here rfl
  · obtain ⟨o, member, same⟩ := List.mem_map.mp inside
    exact other o.1 o.2 (held.lone o member).1 same

theorem deleted_iff {heap : TimerPtr → Option Timer} {ptr : TimerPtr} :
    Function.update heap ptr none p = some t ↔ p ≠ ptr ∧ heap p = some t := by
  by_cases mine : p = ptr
  · rw [mine, Function.update_self]
    exact ⟨nofun, fun both => absurd rfl both.1⟩
  · rw [Function.update_of_ne mine, and_iff_right mine]

theorem Held.delete (held : Held s ((p, t) :: out)) :
    Held { s with heap := Function.update s.heap p none } out := by
  obtain ⟨here, outside⟩ := held.lone _ List.mem_cons_self
  have apart := held.apart
  rw [List.map_cons, List.nodup_cons] at apart
  refine { held with
    timer := fun w k inside => ?_, active := fun k q inside => ?_, lone := fun o inside => ?_
    apart := apart.2, made := fun k t' here => held.made k t' (deleted_iff.mp here).2
    one := fun k k' t₁ t₂ here here' =>
      held.one k k' t₁ t₂ (deleted_iff.mp here).2 (deleted_iff.mp here').2
    low := fun k t' here => held.low k t' (deleted_iff.mp here).2 }
  · obtain ⟨t', here', rest⟩ := held.timer w k inside
    have other : k ≠ p := fun same => held.not_mem here outside w (same ▸ inside)
    exact ⟨t', deleted_iff.mpr ⟨other, here'⟩, rest⟩
  · obtain ⟨t', here', sequence, rest⟩ := held.active k q inside
    have other : k ≠ p := fun same => held.not_mem here outside t'.expiration (same ▸ rest)
    exact ⟨t', deleted_iff.mpr ⟨other, here'⟩, sequence, rest⟩
  · have old := held.lone o (List.mem_cons_of_mem _ inside)
    have other : o.1 ≠ p := fun same => apart.1 (List.mem_map.mpr ⟨o, inside, same⟩)
    exact ⟨deleted_iff.mpr ⟨other, old.1⟩, old.2⟩

theorem Held.restart (held : Held s ((p, t) :: out)) (repeats : t.repeat_ = true) (now : Int) :
    Held { s with heap := Function.update s.heap p (some (t.restart now)) } out := by
  obtain ⟨here, outside⟩ := held.lone _ List.mem_cons_self
  have apart := held.apart
  rw [List.map_cons, List.nodup_cons] at apart
  have kept : ∀ k t', k ≠ p → s.heap k = some t' →
      Function.update s.heap p (some (t.restart now)) k = some t' :=
    fun k t' other here => (Function.update_of_ne other _ _).trans here
  have before : ∀ k t', Function.update s.heap p (some (t.restart now)) k = some t' →
      ∃ t₀, s.heap k = some t₀ ∧ t₀.sequence = t'.sequence ∧ ∀ made : Timer, made.Like t₀ → made.Like t' := by
    intro k t' here'
    by_cases mine : k = p
    · simp only [mine, Function.update_self, Option.some_inj] at here'
      rw [← here', mine]
      exact ⟨t, here, rfl, fun made like => like.restart repeats now⟩
    · rw [Function.update_of_ne mine] at here'
      exact ⟨t', here', rfl, fun made like => like⟩
  refine { held with
    timer := fun w k inside => ?_, active := fun k q inside => ?_, lone := fun o inside => ?_
    apart := apart.2, made := fun k t' here => ?_, one := fun k k' t₁ t₂ here here' same => ?_
    low := fun k t' here => ?_ }
  · obtain ⟨t', here', rest⟩ := held.timer w k inside
    have other : k ≠ p := fun same => held.not_mem here outside w (same ▸ inside)
    exact ⟨t', kept k t' other here', rest⟩
  · obtain ⟨t', here', sequence, rest⟩ := held.active k q inside
    have other : k ≠ p := fun same => held.not_mem here outside t'.expiration (same ▸ rest)
    exact ⟨t', kept k t' other here', sequence, rest⟩
  · have old := held.lone o (List.mem_cons_of_mem _ inside)
    have other : o.1 ≠ p := fun same => apart.1 (List.mem_map.mpr ⟨o, inside, same⟩)
    exact ⟨kept _ _ other old.1, old.2⟩
  · obtain ⟨t₀, here₀, sequence, like⟩ := before k t' here
    obtain ⟨made, known, like₀⟩ := held.made k t₀ here₀
    exact ⟨made, sequence ▸ known, like made like₀⟩
  · obtain ⟨t₃, here₃, sequence, -⟩ := before k t₁ here
    obtain ⟨t₄, here₄, sequence', -⟩ := before k' t₂ here'
    exact held.one k k' t₃ t₄ here₃ here₄ (sequence.trans (same.trans sequence'.symm))
  · obtain ⟨t₀, here₀, -⟩ := before k t' here
    exact held.low k t₀ here₀

end TimerQueue

end ProjectsCpp.MuduoNet
