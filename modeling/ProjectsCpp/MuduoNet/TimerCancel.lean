import ProjectsCpp.MuduoNet.TimerRuns

/-! Cancelling timers at any moment: `handleRead` is cut at its callbacks, and what the loop thread
does between two cuts is a step of its own. -/

namespace ProjectsCpp.MuduoNet
open ProjectsCpp.Run
open TimerQueue (expiredBy entryOf Held)

/-- `handleRead` at work: `expired` is what `getExpired` gave, `todo` waits for its callbacks. -/
structure Batch where
  now : Int
  expired : List Entry
  todo : List Entry
deriving DecidableEq

/-- `address` is where the timer with a number was made, `cancelled` what `cancelInLoop` was
called with. -/
structure TimerLoop where
  queue : TimerQueue
  batch : Option Batch
  address : Nat → Option TimerPtr
  cancelled : List ActiveTimer

inductive LoopStep where
  | act (a : Act)
  | getExpired (now : Int)
  | callback
  | reset (clock : Int)
  | alarm

namespace TimerLoop

def new : TimerLoop := ⟨.new, none, fun _ => none, []⟩

/-- `addTimer` takes an address and a number that are free. -/
def addressed (s : TimerLoop) : Act → Nat → Option TimerPtr
  | .add ptr timer _ =>
    if s.queue.heap ptr = none ∧ ptr < UINTPTR_MAX ∧ s.queue.made timer.sequence = none then
      Function.update s.address timer.sequence (some ptr)
    else s.address
  | .cancel _ => s.address

def cancels : Act → List ActiveTimer
  | .add _ _ _ => []
  | .cancel timer => [timer]

def started (s : TimerLoop) (now : Int) (queue : TimerQueue) : TimerLoop :=
  let expired := s.queue.timers.takeWhile (expiredBy now)
  { s with
    queue := { queue with callingExpiredTimers := true, cancelingTimers := ∅ }
    batch := some ⟨now, expired, expired⟩ }

def step (s : TimerLoop) : LoopStep → Option TimerLoop
  | .act a => (s.queue.act a).map fun queue =>
    { s with queue := queue, address := s.addressed a, cancelled := s.cancelled ++ cancels a }
  | .getExpired now =>
    match s.batch with
    | some _ => none
    | none => (s.queue.readTimerfd.getExpired now).map (s.started now)
  | .callback =>
    match s.batch with
    | some ⟨now, expired, e :: todo⟩ => (s.queue.call now (fun _ => []) e).map fun queue =>
      { s with queue := queue, batch := some ⟨now, expired, todo⟩ }
    | _ => none
  | .reset clock =>
    match s.batch with
    | some ⟨now, expired, []⟩ =>
      (TimerQueue.reset { s.queue with callingExpiredTimers := false } expired now clock).map
        fun queue => { s with queue := queue, batch := none }
    | _ => none
  | .alarm => (s.queue.step .alarm).map fun queue => { s with queue := queue }

def machine : Machine TimerLoop LoopStep where
  start := (· = new)
  step := step

/-- How often the callback of the timer with the number `q` has run. -/
def runs (s : TimerLoop) (q : Nat) : Nat := s.queue.ran.countP fun run => run.1 = q

def Due (s : TimerLoop) (id : ActiveTimer) : Prop :=
  ∃ b, s.batch = some b ∧ ∃ t, s.queue.heap id.1 = some t ∧ t.sequence = id.2 ∧
    (t.expiration, id.1) ∈ b.todo

/-- Nothing about the timer `id` differs. -/
structure Untouched (s s' : TimerLoop) (id : ActiveTimer) : Prop where
  object : ∀ t, t.sequence = id.2 → (s'.queue.heap id.1 = some t ↔ s.queue.heap id.1 = some t)
  waiting : ∀ t, s.queue.heap id.1 = some t → t.sequence = id.2 →
    ((t.expiration, id.1) ∈ s'.queue.timers ↔ (t.expiration, id.1) ∈ s.queue.timers)
  active : id ∈ s'.queue.activeTimers ↔ id ∈ s.queue.activeTimers
  canceling : id ∈ s'.queue.cancelingTimers ↔ id ∈ s.queue.cancelingTimers
  batch : s'.batch = s.batch

def Alive (s : TimerLoop) (id : ActiveTimer) : Prop :=
  ∃ t, s.queue.heap id.1 = some t ∧ t.sequence = id.2 ∧
    ((t.expiration, id.1) ∈ s.queue.timers ∧ id ∈ s.queue.activeTimers ∨
      ∃ b, s.batch = some b ∧ (t.expiration, id.1) ∈ if t.repeat_ then b.expired else b.todo)

end TimerLoop

namespace TimerQueue
variable {s s' : TimerQueue} {out : List (TimerPtr × Timer)} {a : Act} {id : ActiveTimer}

/-! ### The timers that there are -/

structure Effect (a : Act) (s s' : TimerQueue) : Prop where
  heap : ∀ p t, s'.heap p = some t → s.heap p = some t ∨
    (∃ clock, a = .add p t clock) ∧ s.heap p = none ∧ p < UINTPTR_MAX ∧
      s.made t.sequence = none ∧ (t.expiration, p) ∈ s'.timers
  kept : ∀ p t, s.heap p = some t → a ≠ .cancel (p, t.sequence) → s'.heap p = some t
  timers : ∀ p t, s.heap p = some t → s'.heap p = some t → (t.expiration, p) ∈ s.timers →
    (t.expiration, p) ∈ s'.timers
  canceling : ∀ id ∈ s'.cancelingTimers, id ∈ s.cancelingTimers ∨ a = .cancel id
  marks : ∀ id ∈ s.cancelingTimers, id ∈ s'.cancelingTimers
  calling : s'.callingExpiredTimers = s.callingExpiredTimers
  made : ∀ q t, s.made q = some t → s'.made q = some t
  ran : s'.ran = s.ran
  added : ∀ p t clock, a = .add p t clock →
    s.heap p = none ∧ p < UINTPTR_MAX ∧ s.made t.sequence = none → s'.heap p = some t

theorem Effect.refl {a : Act} {s : TimerQueue} (nothing : ∀ p t clock, a = .add p t clock →
    ¬ (s.heap p = none ∧ p < UINTPTR_MAX ∧ s.made t.sequence = none)) : Effect a s s where
  heap _ _ here := .inl here
  kept _ _ here _ := here
  timers _ _ _ _ inside := inside
  canceling _ inside := .inl inside
  marks _ inside := inside
  calling := rfl
  made _ _ known := known
  ran := rfl
  added p t clock same free := absurd free (nothing p t clock same)

theorem Held.effect (held : Held s out) (a : Act) :
    ∃ s', s.act a = some s' ∧ Held s' out ∧ Effect a s s' := by
  obtain ⟨s', told, acted⟩ := held.act a
  refine ⟨s', told, acted.held, ?_⟩
  cases a with
  | add ptr timer clock =>
    by_cases free : s.heap ptr = none ∧ ptr < UINTPTR_MAX ∧ s.made timer.sequence = none
    · obtain ⟨s₁, told₁, -, heap, -, timers, -, canceling, -⟩ := held.add_free clock free
      cases told.symm.trans told₁
      refine ⟨fun p t here => ?_, fun p t here _ => ?_, fun p t _ _ inside =>
        (timers _).mpr (.inr inside), fun id inside => .inl (canceling ▸ inside),
        fun id inside => canceling ▸ inside, acted.calling, acted.made,
        acted.ran.trans (List.append_nil _), fun p t clock' same _ => ?_⟩
      · rw [heap] at here
        by_cases mine : p = ptr
        · subst mine
          rw [Function.update_self, Option.some_inj] at here
          subst here
          exact .inr ⟨⟨clock, rfl⟩, free.1, free.2.1, free.2.2, (timers _).mpr (.inl rfl)⟩
        · rw [Function.update_of_ne mine] at here
          exact .inl here
      · have other : p ≠ ptr := by
          rintro rfl
          exact nomatch free.1.symm.trans here
        rw [heap, Function.update_of_ne other, here]
      · cases same
        rw [heap, Function.update_self]
    · cases (if_neg free : s.act (.add ptr timer clock) = some s).symm.trans told
      exact .refl fun p t clock' same free' => by cases same; exact free free'
  | cancel id =>
    by_cases active : id ∈ s.activeTimers
    · obtain ⟨t₀, here₀, sequence, told₁⟩ := held.cancel_active active
      cases told.symm.trans told₁
      refine ⟨fun p t here => ?_, fun p t here other => ?_, fun p t here here' inside => ?_,
        fun id inside => .inl inside, fun id inside => inside, rfl, fun _ _ known => known, rfl,
        nofun⟩
      · exact .inl (TimerQueue.deleted_iff.mp here).2
      · refine TimerQueue.deleted_iff.mpr ⟨?_, here⟩
        rintro rfl
        cases here₀.symm.trans here
        exact absurd (by rw [sequence]) other
      · have other := (TimerQueue.deleted_iff.mp here').1
        exact (List.mem_erase_of_ne fun same => other (congrArg Prod.snd same)).mpr inside
    · cases told.symm.trans (held.cancel_other active)
      have same : Effect (.cancel id) s s := .refl nofun
      refine { same with canceling := fun k inside => ?_, marks := fun k inside => ?_ }
      · dsimp only at inside
        split at inside
        · exact (Finset.mem_insert.mp inside).symm.imp_right fun same =>
            congrArg Act.cancel same.symm
        · exact .inl inside
      · dsimp only
        split
        · exact Finset.mem_insert_of_mem inside
        · exact inside

end TimerQueue

namespace TimerLoop
variable {s s' : TimerLoop} {out : List (TimerPtr × Timer)} {a : Act} {p : TimerPtr} {q : Nat}

/-! ### The cuts make up `handleRead` -/

theorem exec_acts {acts : List Act} {queue : TimerQueue}
    (told : acts.foldlM TimerQueue.act s.queue = some queue) :
    ∃ t, exec machine s (acts.map .act) = some t ∧ t.queue = queue ∧ t.batch = s.batch := by
  induction acts generalizing s with
  | nil =>
    cases told
    exact ⟨s, rfl, rfl, rfl⟩
  | cons a acts ih =>
    rw [List.foldlM_cons] at told
    obtain ⟨q, first, rest⟩ := Option.bind_eq_some_iff.mp told
    obtain ⟨t, run, same, batch⟩ := ih (s := { s with
      queue := q, address := s.addressed a, cancelled := s.cancelled ++ cancels a }) rest
    refine ⟨t, Option.bind_eq_some_iff.mpr ⟨_, ?_, run⟩, same, batch⟩
    exact congrArg (Option.map _) first

theorem exec_calls {now : Int} {expired todo : List Entry} {callbacks : Nat → List Act}
    {queue : TimerQueue} (batch : s.batch = some ⟨now, expired, todo⟩)
    (told : todo.foldlM (TimerQueue.call now callbacks) s.queue = some queue) :
    ∃ steps t, exec machine s steps = some t ∧ t.queue = queue ∧
      t.batch = some ⟨now, expired, []⟩ := by
  induction todo generalizing s with
  | nil =>
    cases told
    exact ⟨[], s, rfl, rfl, batch⟩
  | cons e todo ih =>
    rw [List.foldlM_cons] at told
    obtain ⟨q, first, rest⟩ := Option.bind_eq_some_iff.mp told
    obtain ⟨t, here, acts⟩ := Option.bind_eq_some_iff.mp first
    let s₁ : TimerLoop := { s with
      queue := { s.queue with ran := s.queue.ran ++ [(t.sequence, now)] }
      batch := some ⟨now, expired, todo⟩ }
    have started : s.step .callback = some s₁ := by
      rw [step, batch]
      exact (congrArg (fun timer => Option.map _ (Option.bind timer _)) here).trans rfl
    obtain ⟨s₂, ran, same, batch₂⟩ := exec_acts (s := s₁) acts
    obtain ⟨steps, s', run, same', batch'⟩ := ih batch₂ (same ▸ rest)
    exact ⟨.callback :: (_ ++ steps), s',
      Option.bind_eq_some_iff.mpr ⟨s₁, started, exec_append ran run⟩, same', batch'⟩

theorem exec_handleRead {now clock : Int} {callbacks : Nat → List Act} {queue : TimerQueue}
    (batch : s.batch = none) (told : s.queue.handleRead now clock callbacks = some queue) :
    ∃ steps t, exec machine s steps = some t ∧ t.queue = queue ∧ t.batch = none := by
  obtain ⟨q₁, got, rest⟩ := Option.bind_eq_some_iff.mp told
  obtain ⟨q₂, called, reset⟩ := Option.bind_eq_some_iff.mp rest
  have begin : s.step (.getExpired now) = some (s.started now q₁) := by
    rw [step, batch]
    exact congrArg (Option.map _) got
  obtain ⟨steps, t, run, rfl, batch'⟩ := exec_calls (s := s.started now q₁) rfl called
  have done : t.step (.reset clock) = some { t with queue := queue, batch := none } := by
    rw [step, batch']
    exact congrArg (Option.map _) reset
  have last : exec machine t [.reset clock] = some { t with queue := queue, batch := none } :=
    Option.bind_eq_some_iff.mpr ⟨_, done, rfl⟩
  exact ⟨.getExpired now :: (steps ++ [.reset clock]), _, Option.bind_eq_some_iff.mpr ⟨_, begin,
    exec_append run last⟩, rfl, rfl⟩

theorem reach_of_queue {queue : TimerQueue} (reach : Reachable TimerQueue.machine queue) :
    ∃ s, Reachable machine s ∧ s.queue = queue ∧ s.batch = none := by
  refine reach.invariant (P := fun queue => ∃ s, Reachable machine s ∧ s.queue = queue ∧
    s.batch = none) ?_ ?_
  · rintro _ rfl
    exact ⟨new, .start rfl, rfl, rfl⟩
  · rintro _ e next ⟨s, before, rfl, batch⟩ - took
    cases e with
    | act a =>
      have told : [a].foldlM TimerQueue.act s.queue = some next :=
        Option.bind_eq_some_iff.mpr ⟨next, took, rfl⟩
      obtain ⟨t, run, same, still⟩ := exec_acts told
      exact ⟨t, Reach.exec before run, same, still.trans batch⟩
    | handleRead now clock callbacks =>
      obtain ⟨steps, t, run, same, still⟩ := exec_handleRead batch took
      exact ⟨t, Reach.exec before run, same, still⟩
    | alarm =>
      cases took
      exact ⟨_, .step before trivial (rfl : machine.step s .alarm = _), rfl, batch⟩

/-! ### The invariant -/

/-- `out` are the timers of the batch. -/
structure Kept (s : TimerLoop) (out : List (TimerPtr × Timer)) : Prop where
  held : Held s.queue out
  idle : s.batch = none → out = [] ∧ s.queue.callingExpiredTimers = false
  calling : ∀ b, s.batch = some b →
    out.map entryOf = b.expired ∧ b.todo <:+ b.expired ∧ s.queue.callingExpiredTimers = true
  placed : ∀ p t, s.queue.heap p = some t → (t.expiration, p) ∈ s.queue.timers ∨ (p, t) ∈ out
  address : ∀ p t, s.queue.heap p = some t → s.address t.sequence = some p
  known : ∀ q, s.queue.made q = none → s.address q = none
  canceling : ∀ id ∈ s.queue.cancelingTimers, id ∈ s.cancelled
  alive : ∀ p q made, s.address q = some p → s.queue.made q = some made → (p, q) ∉ s.cancelled →
    (made.repeat_ = true ∨ s.runs q = 0) → ∃ t, s.queue.heap p = some t ∧ t.sequence = q ∧
      (made.repeat_ = false → ∀ b, s.batch = some b → (t.expiration, p) ∈ b.expired →
        (t.expiration, p) ∈ b.todo)

theorem Kept.new : Kept new [] where
  held := .new
  idle _ := ⟨rfl, rfl⟩
  calling _ some_ := nomatch some_
  placed _ _ here := nomatch here
  address _ _ here := nomatch here
  known _ _ := rfl
  canceling _ inside := absurd inside (Finset.notMem_empty _)
  alive _ _ _ address := nomatch address

theorem addressed_of_made (made : s.queue.made q ≠ none) : s.addressed a q = s.address q := by
  cases a with
  | add ptr timer clock =>
    rw [addressed]
    split
    · rename_i free
      exact Function.update_of_ne (fun same => made (by rw [same]; exact free.2.2)) _ _
    · rfl
  | cancel id => rfl

theorem addressed_cases (address : s.addressed a q = some p) : s.address q = some p ∨
    ∃ t clock, a = .add p t clock ∧ t.sequence = q ∧
      s.queue.heap p = none ∧ p < UINTPTR_MAX ∧ s.queue.made t.sequence = none := by
  cases a with
  | add ptr timer clock =>
    rw [addressed] at address
    split at address
    · rename_i free
      by_cases mine : q = timer.sequence
      · subst mine
        rw [Function.update_self, Option.some_inj] at address
        subst address
        exact .inr ⟨timer, clock, rfl, rfl, free⟩
      · exact .inl ((Function.update_of_ne mine _ _).symm.trans address)
    · exact .inl address
  | cancel id => exact .inl address

theorem Kept.expired_mem (kept : Kept s out) {b : Batch} (batch : s.batch = some b) {e : Entry}
    (inside : e ∈ b.expired) : ∃ t, (e.2, t) ∈ out ∧ t.expiration = e.1 ∧
      s.queue.heap e.2 = some t := by
  rw [← (kept.calling b batch).1] at inside
  obtain ⟨o, member, rfl⟩ := List.mem_map.mp inside
  exact ⟨o.2, member, rfl, (kept.held.lone o member).1⟩

theorem Kept.act (kept : Kept s out) (a : Act) : ∃ queue, s.queue.act a = some queue ∧
    Kept { s with
      queue := queue, address := s.addressed a, cancelled := s.cancelled ++ cancels a } out := by
  obtain ⟨queue, told, held, effect⟩ := kept.held.effect a
  have runs : ∀ q, TimerLoop.runs { s with
      queue := queue, address := s.addressed a, cancelled := s.cancelled ++ cancels a } q =
      s.runs q := fun q => by rw [TimerLoop.runs, effect.ran]; rfl
  have makes : ∀ q, s.address q ≠ none → s.queue.made q ≠ none :=
    fun q address unmade => address (kept.known q unmade)
  refine ⟨queue, told, ⟨held, fun none_ => ?_, fun b some_ => ?_, fun p t here => ?_,
    fun p t here => ?_, fun q unmade => ?_, fun id inside => ?_,
    fun p q made address known free waits => ?_⟩⟩
  · exact ⟨(kept.idle none_).1, effect.calling.trans (kept.idle none_).2⟩
  · obtain ⟨entries, suffix, calling⟩ := kept.calling b some_
    exact ⟨entries, suffix, effect.calling.trans calling⟩
  · rcases effect.heap p t here with before | ⟨-, -, -, -, inside⟩
    · exact (kept.placed p t before).imp_left (effect.timers p t before here)
    · exact .inl inside
  · rcases effect.heap p t here with before | ⟨⟨clock, rfl⟩, free⟩
    · obtain ⟨made, known, -⟩ := kept.held.made p t before
      exact (addressed_of_made fun none_ => nomatch none_.symm.trans known).trans
        (kept.address p t before)
    · show s.addressed (.add p t clock) t.sequence = some p
      rw [addressed, if_pos ⟨free.1, free.2.1, free.2.2.1⟩, Function.update_self]
  · cases address : s.addressed a q with
    | none => exact address
    | some p =>
      exfalso
      rcases addressed_cases address with before | ⟨t, clock, added, sequence, free⟩
      · cases known : s.queue.made q with
        | none => exact nomatch (kept.known q known).symm.trans before
        | some made => exact nomatch unmade.symm.trans (effect.made q made known)
      · obtain ⟨made, known, -⟩ := held.made p t (effect.added p t clock added free)
        rw [sequence] at known
        exact nomatch unmade.symm.trans known
  · rcases effect.canceling id inside with before | rfl
    · exact List.mem_append_left _ (kept.canceling id before)
    · exact List.mem_append_right _ List.mem_cons_self
  · rw [runs] at waits
    rcases addressed_cases address with before | ⟨t, clock, added, sequence, notThere⟩
    · obtain ⟨made₀, known₀⟩ := Option.ne_none_iff_exists'.mp
        (makes q fun none_ => nomatch none_.symm.trans before)
      cases (effect.made q made₀ known₀).symm.trans known
      obtain ⟨t, here, sequence, todo⟩ := kept.alive p q made before known₀
        (fun inside => free (List.mem_append_left _ inside)) waits
      refine ⟨t, effect.kept p t here ?_, sequence, todo⟩
      rintro rfl
      exact free (List.mem_append_right _ (List.mem_singleton.mpr (by rw [sequence])))
    · refine ⟨t, effect.added p t clock added notThere, sequence, fun _ b some_ inside => ?_⟩
      obtain ⟨t', -, -, here⟩ := kept.expired_mem some_ inside
      exact nomatch notThere.1.symm.trans here

theorem Kept.getExpired (kept : Kept s out) (batch : s.batch = none) (now : Int) :
    ∃ gone queue, s.step (.getExpired now) = some (s.started now queue) ∧
      Kept (s.started now queue) gone ∧ queue.heap = s.queue.heap ∧ queue.ran = s.queue.ran := by
  obtain ⟨rfl, -⟩ := kept.idle batch
  have held₀ : Held s.queue.readTimerfd [] := { kept.held with }
  obtain ⟨gone, q, got, entries, frame, held⟩ := held₀.getExpired now
  have heap : q.heap = s.queue.heap := (congrArg TimerQueue.heap frame).trans rfl
  have made : q.made = s.queue.made := (congrArg TimerQueue.made frame).trans rfl
  have ran : q.ran = s.queue.ran := (congrArg TimerQueue.ran frame).trans rfl
  have timers : q.timers = s.queue.timers.dropWhile (expiredBy now) :=
    (congrArg TimerQueue.timers frame).trans rfl
  have told : s.step (.getExpired now) = some (s.started now q) := by
    rw [step, batch]
    exact congrArg (Option.map _) got
  refine ⟨gone, q, told, ⟨{ held with }, nofun, fun b some_ => ?_, fun p t here => ?_,
    fun p t here => ?_, fun q unmade => kept.known q (made ▸ unmade),
    fun id inside => absurd inside (Finset.notMem_empty _),
    fun p q made' address known free waits => ?_⟩, heap, ran⟩
  · cases some_
    exact ⟨entries, List.suffix_rfl, rfl⟩
  · have here₀ : s.queue.heap p = some t := heap ▸ here
    have inside := (kept.placed p t here₀).resolve_right (nomatch ·)
    rw [← List.takeWhile_append_dropWhile (p := expiredBy now) (l := s.queue.timers)] at inside
    rcases List.mem_append.mp inside with expired | stays
    · obtain ⟨o, member, same⟩ := List.mem_map.mp (entries ▸ expired)
      have ptr : o.1 = p := congrArg Prod.snd same
      have there := (held.lone o member).1
      rw [ptr] at there
      cases there.symm.trans here
      exact .inr (ptr ▸ member)
    · exact .inl (timers ▸ stays)
  · exact kept.address p t (heap ▸ here)
  · have waits₀ : made'.repeat_ = true ∨ s.runs q = 0 := by
      refine waits.imp_right fun never => ?_
      rwa [runs, ← ran]
    obtain ⟨t, here, sequence, -⟩ := kept.alive p q made' address (made ▸ known) free waits₀
    refine ⟨t, heap ▸ here, sequence, fun _ b some_ inside => ?_⟩
    cases some_
    exact inside

def called (s : TimerLoop) (b : Batch) (todo : List Entry) (t : Timer) : TimerLoop :=
  { s with
    queue := { s.queue with ran := s.queue.ran ++ [(t.sequence, b.now)] }
    batch := some { b with todo := todo } }

theorem runs_called (s : TimerLoop) (b : Batch) (todo : List Entry) (t : Timer) (q : Nat) :
    (s.called b todo t).runs q = s.runs q + if t.sequence = q then 1 else 0 := by
  rw [runs, called, List.countP_append, List.countP_singleton]
  simp only [decide_eq_true_eq]
  rfl

theorem Kept.callback (kept : Kept s out) {b : Batch} {e : Entry} {todo : List Entry}
    (batch : s.batch = some b) (more : b.todo = e :: todo) : ∃ t, s.queue.heap e.2 = some t ∧
      t.expiration = e.1 ∧ s.step .callback = some (s.called b todo t) ∧
      Kept (s.called b todo t) out := by
  obtain ⟨now, expired, todo'⟩ := b
  cases more
  obtain ⟨entries, suffix, calling⟩ := kept.calling _ batch
  obtain ⟨t, -, expiration, here⟩ := kept.expired_mem batch (suffix.subset List.mem_cons_self)
  have told : s.step .callback = some (s.called ⟨now, expired, e :: todo⟩ todo t) := by
    rw [step, batch]
    refine (congrArg (Option.map _) (?_ : s.queue.call now (fun _ => []) e =
      some { s.queue with ran := s.queue.ran ++ [(t.sequence, now)] })).trans rfl
    rw [TimerQueue.call, here]
    rfl
  refine ⟨t, here, expiration, told, { kept with
    held := { kept.held with }, idle := fun none_ => (by cases none_), calling := fun b some_ => ?_
    alive := fun p q made address known free waits => ?_ }⟩
  · cases some_
    exact ⟨entries, (List.suffix_cons _ _).trans suffix, calling⟩
  · rw [runs_called] at waits
    have waits₀ : made.repeat_ = true ∨ s.runs q = 0 := waits.imp_right fun never => by omega
    obtain ⟨t', here', sequence, due⟩ := kept.alive p q made address known free waits₀
    refine ⟨t', here', sequence, fun once b some_ inside => ?_⟩
    cases some_
    refine (List.mem_cons.mp (due once _ batch inside)).resolve_left ?_
    rintro rfl
    cases here.symm.trans here'
    have never := waits.resolve_left (Bool.eq_false_iff.mp once)
    rw [if_pos sequence] at never
    omega

/-- What is there after `reset` was not in the batch, or has come back from it. -/
def CameBack (now : Int) (out : List (TimerPtr × Timer)) (queue : TimerQueue) (p : TimerPtr)
    (t : Timer) : Prop :=
  p ∉ out.map Prod.fst ∧ queue.heap p = some t ∨
    ∃ o ∈ out, o.1 = p ∧ t = o.2.restart now ∧ o.2.repeat_ = true ∧
      (p, o.2.sequence) ∉ queue.cancelingTimers

theorem Kept.reset (kept : Kept s out) {b : Batch} (batch : s.batch = some b) (done : b.todo = [])
    (clock : Int) : ∃ queue, s.step (.reset clock) = some { s with queue := queue, batch := none } ∧
      Kept { s with queue := queue, batch := none } [] ∧ queue.ran = s.queue.ran ∧
      ∀ p t, queue.heap p = some t → CameBack b.now out s.queue p t := by
  obtain ⟨now, expired, todo⟩ := b
  cases done
  obtain ⟨entries, -, -⟩ := kept.calling _ batch
  have held₀ : Held { s.queue with callingExpiredTimers := false } out := { kept.held with }
  obtain ⟨q₃, queue, told, held₃, finished, frame, -⟩ := held₀.reset now clock
  have heap : queue.heap = q₃.heap := (congrArg TimerQueue.heap frame).trans rfl
  have timers : queue.timers = q₃.timers := (congrArg TimerQueue.timers frame).trans rfl
  have made : queue.made = s.queue.made :=
    ((congrArg TimerQueue.made frame).trans rfl).trans finished.made
  have ran : queue.ran = s.queue.ran :=
    ((congrArg TimerQueue.ran frame).trans rfl).trans finished.ran
  have canceling : queue.cancelingTimers = s.queue.cancelingTimers :=
    ((congrArg TimerQueue.cancelingTimers frame).trans rfl).trans finished.canceling
  have calling : queue.callingExpiredTimers = false :=
    ((congrArg TimerQueue.callingExpiredTimers frame).trans rfl).trans finished.calling
  have held : Held queue [] := frame ▸ { held₃ with }
  have back : ∀ p t, queue.heap p = some t → CameBack now out s.queue p t := by
    intro p t here
    rw [heap] at here
    by_cases inside : p ∈ out.map Prod.fst
    · obtain ⟨o, member, rfl⟩ := List.mem_map.mp inside
      by_cases again : o.2.repeat_ = true ∧ (o.1, o.2.sequence) ∉ s.queue.cancelingTimers
      · obtain ⟨here', -⟩ := finished.back o member again.1 again.2
        cases here.symm.trans here'
        exact .inr ⟨o, member, rfl, rfl, again⟩
      · exact nomatch (finished.deleted o member again).symm.trans here
    · exact .inl ⟨inside, (finished.others p inside).symm.trans here⟩
  have told₁ : s.step (.reset clock) = some { s with queue := queue, batch := none } := by
    rw [step, batch]
    rw [entries] at told
    exact congrArg (Option.map _) told
  refine ⟨queue, told₁, ⟨held, fun _ => ⟨rfl, calling⟩, nofun, fun p t here => .inl ?_,
    fun p t here => ?_, fun q unmade => kept.known q (made ▸ unmade),
    fun id inside => kept.canceling id (canceling ▸ inside),
    fun p q made' address known free waits => ?_⟩, ran, back⟩
  · rcases back p t here with ⟨outside, here₀⟩ | ⟨o, member, rfl, rfl, again⟩
    · have stays := (kept.placed p t here₀).resolve_right fun member =>
        outside (List.mem_map_of_mem member)
      exact timers ▸ finished.stay _ stays
    · obtain ⟨-, inside⟩ := finished.back o member again.1 again.2
      have later : (o.2.restart now).expiration = addTime now o.2.delta := if_pos again.1
      exact timers ▸ later ▸ inside
  · rcases back p t here with ⟨-, here₀⟩ | ⟨o, member, rfl, rfl, -⟩
    · exact kept.address p t here₀
    · exact kept.address o.1 o.2 (kept.held.lone o member).1
  · have waits₀ : made'.repeat_ = true ∨ s.runs q = 0 := by
      refine waits.imp_right fun never => ?_
      rwa [runs, ← ran]
    obtain ⟨t, here, sequence, due⟩ := kept.alive p q made' address (made ▸ known) free waits₀
    by_cases inside : p ∈ out.map Prod.fst
    · obtain ⟨o, member, rfl⟩ := List.mem_map.mp inside
      cases here.symm.trans (kept.held.lone o member).1
      obtain ⟨made₀, known₀, like⟩ := kept.held.made o.1 o.2 here
      have same : made₀ = made' := by
        rw [sequence, ← made] at known₀
        exact Option.some.inj (known₀.symm.trans known)
      subst same
      by_cases once : made₀.repeat_ = false
      · exact nomatch due once _ batch (entries ▸ List.mem_map_of_mem member)
      · have unmarked : (o.1, o.2.sequence) ∉ s.queue.cancelingTimers := fun marked =>
          free (sequence ▸ kept.canceling _ marked)
        obtain ⟨here', -⟩ := finished.back o member
          (like.2.1.symm.trans (Bool.eq_true_of_not_eq_false once)) unmarked
        exact ⟨o.2.restart now, heap ▸ here', sequence, nofun⟩
    · exact ⟨t, heap ▸ (finished.others p inside).trans here, sequence, nofun⟩

theorem Kept.alarm (kept : Kept s out) : ∃ queue, s.step .alarm = some { s with queue := queue } ∧
    Kept { s with queue := queue } out ∧ queue.heap = s.queue.heap ∧ queue.ran = s.queue.ran ∧
    queue.cancelingTimers = s.queue.cancelingTimers :=
  ⟨_, rfl, { kept with held := { kept.held with } }, rfl, rfl, rfl⟩

/-! ### Every step -/

inductive Stepped (out : List (TimerPtr × Timer)) (s : TimerLoop) : TimerLoop → Prop
  | act {a : Act} {queue : TimerQueue} : TimerQueue.Effect a s.queue queue → Stepped out s { s with
      queue := queue, address := s.addressed a, cancelled := s.cancelled ++ cancels a }
  | getExpired {now : Int} {queue : TimerQueue} : s.batch = none →
      queue.heap = s.queue.heap → queue.ran = s.queue.ran → Stepped out s (s.started now queue)
  | callback {b : Batch} {t : Timer} {e : Entry} {todo : List Entry} : s.batch = some b →
      b.todo = e :: todo → s.queue.heap e.2 = some t → t.expiration = e.1 →
      Stepped out s (s.called b todo t)
  | reset {b : Batch} {queue : TimerQueue} : s.batch = some b → b.todo = [] →
      queue.ran = s.queue.ran → (∀ p t, queue.heap p = some t → CameBack b.now out s.queue p t) →
      Stepped out s { s with queue := queue, batch := none }
  | alarm {queue : TimerQueue} : queue.heap = s.queue.heap → queue.ran = s.queue.ran →
      queue.cancelingTimers = s.queue.cancelingTimers → Stepped out s { s with queue := queue }

theorem Kept.step (kept : Kept s out) {e : LoopStep} (took : s.step e = some s') :
    Stepped out s s' ∧ ∃ out', Kept s' out' := by
  cases e with
  | act a =>
    obtain ⟨queue, told, -, effect⟩ := kept.held.effect a
    obtain ⟨queue', told', kept'⟩ := kept.act a
    cases told.symm.trans told'
    cases (congrArg (Option.map _) told).symm.trans took
    exact ⟨.act effect, out, kept'⟩
  | getExpired now =>
    cases batch : s.batch with
    | none =>
      obtain ⟨gone, queue, told, kept', heap, ran⟩ := kept.getExpired batch now
      cases told.symm.trans took
      exact ⟨.getExpired batch heap ran, gone, kept'⟩
    | some b =>
      rw [TimerLoop.step, batch] at took
      exact nomatch took
  | callback =>
    rcases batch : s.batch with _ | ⟨now, expired, _ | ⟨first, todo⟩⟩
    · rw [TimerLoop.step, batch] at took
      exact nomatch took
    · rw [TimerLoop.step, batch] at took
      exact nomatch took
    · obtain ⟨t, here, expiration, told, kept'⟩ := kept.callback batch rfl
      cases told.symm.trans took
      exact ⟨.callback batch rfl here expiration, out, kept'⟩
  | reset clock =>
    rcases batch : s.batch with _ | ⟨now, expired, _ | ⟨first, todo⟩⟩
    · rw [TimerLoop.step, batch] at took
      exact nomatch took
    · obtain ⟨queue, told, kept', ran, back⟩ := kept.reset batch rfl clock
      cases told.symm.trans took
      exact ⟨.reset batch rfl ran back, [], kept'⟩
    · rw [TimerLoop.step, batch] at took
      exact nomatch took
  | alarm =>
    obtain ⟨queue, told, kept', heap, ran, canceling⟩ := kept.alarm
    cases told.symm.trans took
    exact ⟨.alarm heap ran canceling, out, kept'⟩

theorem kept_of_reach (reach : Reachable machine s) : ∃ out, Kept s out := by
  refine reach.invariant (P := fun s => ∃ out, Kept s out) ?_ ?_
  · rintro _ rfl
    exact ⟨[], .new⟩
  · rintro s e t ⟨out, kept⟩ - took
    exact (kept.step took).2

/-! ### A timer that was cancelled -/

/-- The timer with the number `q` is no more, or its callback has run in the batch at work and it
is marked. -/
structure Quiet (s : TimerLoop) (p : TimerPtr) (q : Nat) : Prop where
  address : s.address q = some p
  gone : ∀ t, s.queue.heap p = some t → t.sequence = q → ∃ b, s.batch = some b ∧
    (t.expiration, p) ∈ b.expired ∧ (t.expiration, p) ∉ b.todo ∧
    (p, q) ∈ s.queue.cancelingTimers

theorem Quiet.step (quiet : Quiet s p q) (kept : Kept s out) (stepped : Stepped out s s') :
    Quiet s' p q ∧ s'.runs q = s.runs q := by
  cases stepped with
  | @act a queue effect =>
    have made : s.queue.made q ≠ none := fun none_ =>
      nomatch (kept.known q none_).symm.trans quiet.address
    refine ⟨⟨(addressed_of_made made).trans quiet.address, fun t here sequence => ?_⟩, ?_⟩
    · rcases effect.heap p t here with before | ⟨-, -, -, unmade, -⟩
      · obtain ⟨b, batch, expired, todo, marked⟩ := quiet.gone t before sequence
        exact ⟨b, batch, expired, todo, effect.marks _ marked⟩
      · exact absurd (sequence ▸ unmade) made
    · rw [runs, effect.ran]
      rfl
  | @getExpired now queue batch heap ran =>
    refine ⟨⟨quiet.address, fun t here sequence => ?_⟩, congrArg (List.countP _) ran⟩
    obtain ⟨b, batch', -⟩ := quiet.gone t (heap ▸ here) sequence
    exact nomatch batch.symm.trans batch'
  | @callback b t e todo batch more here expiration =>
    have other : t.sequence ≠ q := by
      intro same
      have ptr : e.2 = p := by
        have address := kept.address e.2 t here
        rw [same] at address
        exact Option.some.inj (address.symm.trans quiet.address)
      obtain ⟨b', batch', -, out, -⟩ := quiet.gone t (ptr ▸ here) same
      cases batch.symm.trans batch'
      exact out (more ▸ expiration ▸ ptr ▸ List.mem_cons_self)
    refine ⟨⟨quiet.address, fun t' here' sequence => ?_⟩, ?_⟩
    · obtain ⟨b', batch', expired, out, marked⟩ := quiet.gone t' here' sequence
      cases batch.symm.trans batch'
      exact ⟨_, rfl, expired, fun inside => out (more ▸ List.mem_cons_of_mem _ inside), marked⟩
    · rw [runs_called, if_neg other, Nat.add_zero]
  | @reset b queue batch done ran back =>
    refine ⟨⟨quiet.address, fun t here sequence => ?_⟩, congrArg (List.countP _) ran⟩
    rcases back p t here with ⟨outside, before⟩ | ⟨o, member, ptr, rfl, -, unmarked⟩
    · obtain ⟨b', batch', expired, -⟩ := quiet.gone t before sequence
      obtain ⟨t', member, -⟩ := kept.expired_mem batch' expired
      exact absurd (List.mem_map_of_mem member) outside
    · obtain ⟨b', -, -, -, marked⟩ := quiet.gone o.2 (ptr ▸ (kept.held.lone o member).1) sequence
      have same : o.2.sequence = q := sequence
      exact absurd marked (same ▸ unmarked)
  | @alarm queue heap ran canceling =>
    refine ⟨⟨quiet.address, fun t here sequence => ?_⟩, congrArg (List.countP _) ran⟩
    obtain ⟨b, batch, expired, todo, marked⟩ := quiet.gone t (heap ▸ here) sequence
    exact ⟨b, batch, expired, todo, canceling ▸ marked⟩

theorem Quiet.exec {t : TimerLoop} {steps : List LoopStep} (quiet : Quiet s p q)
    (kept : ∃ out, Kept s out) (run : exec machine s steps = some t) : t.runs q = s.runs q := by
  induction steps generalizing s with
  | nil =>
    cases run
    rfl
  | cons e steps ih =>
    obtain ⟨u, took, rest⟩ := Option.bind_eq_some_iff.mp run
    obtain ⟨out, kept⟩ := kept
    obtain ⟨stepped, kept'⟩ := kept.step took
    obtain ⟨quiet', same⟩ := quiet.step kept stepped
    exact (ih quiet' kept' rest).trans same

def afterCancel (s : TimerLoop) (id : ActiveTimer) (queue : TimerQueue) : TimerLoop :=
  { s with queue := queue, cancelled := s.cancelled ++ [id] }

theorem Kept.cancel (kept : Kept s out) (id : ActiveTimer) :
    ∃ queue, s.queue.act (.cancel id) = some queue ∧
      s.step (.act (.cancel id)) = some (s.afterCancel id queue) ∧
      Kept (s.afterCancel id queue) out := by
  obtain ⟨queue, told, kept'⟩ := kept.act (.cancel id)
  exact ⟨queue, told, (congrArg (Option.map _) told).trans rfl, kept'⟩

theorem Kept.not_active (kept : Kept s out) {t : Timer} (here : s.queue.heap p = some t)
    (outside : (p, t.sequence) ∉ s.queue.activeTimers) : (p, t) ∈ out := by
  refine (kept.placed p t here).resolve_left fun inside => ?_
  obtain ⟨t', here', -, active⟩ := kept.held.timer _ _ inside
  cases here.symm.trans here'
  exact outside active

theorem Kept.quiet (kept : Kept s out) (address : s.address q = some p) (notDue : ¬ s.Due (p, q))
    {queue : TimerQueue} (told : s.queue.act (.cancel (p, q)) = some queue) :
    Quiet (s.afterCancel (p, q) queue) p q := by
  refine ⟨address, fun t here sequence => ?_⟩
  by_cases active : (p, q) ∈ s.queue.activeTimers
  · obtain ⟨t₀, -, -, told'⟩ := kept.held.cancel_active active
    cases told.symm.trans told'
    exact absurd rfl (TimerQueue.deleted_iff.mp here).1
  · cases told.symm.trans (kept.held.cancel_other active)
    have member := kept.not_active here (sequence ▸ active)
    cases batch : s.batch with
    | none => exact nomatch (kept.idle batch).1 ▸ member
    | some b =>
      obtain ⟨entries, -, calling⟩ := kept.calling b batch
      refine ⟨b, batch, entries ▸ List.mem_map_of_mem member,
        fun inside => notDue ⟨b, batch, t, here, sequence, inside⟩, ?_⟩
      show (p, q) ∈ if s.queue.callingExpiredTimers then _ else _
      rw [if_pos calling]
      exact Finset.mem_insert_self _ _

theorem Kept.due_runs (kept : Kept s out) (due : s.Due (p, q)) :
    ∃ steps t, exec machine s steps = some t ∧ s.runs q < t.runs q := by
  obtain ⟨b, batch, t, here, sequence, inside⟩ := due
  generalize waiting : b.todo = todo at inside
  induction todo generalizing s b with
  | nil => exact nomatch inside
  | cons e todo ih =>
    obtain ⟨t₀, here₀, expiration, told, kept'⟩ := kept.callback batch waiting
    have counted := runs_called s b todo t₀ q
    rcases List.mem_cons.mp inside with rfl | later
    · cases here.symm.trans here₀
      refine ⟨[.callback], _, (congrArg (Option.bind · _) told).trans rfl, ?_⟩
      rw [counted, if_pos sequence]
      exact Nat.lt_succ_self _
    · obtain ⟨steps, u, run, more⟩ := ih kept' { b with todo := todo } rfl here rfl later
      refine ⟨.callback :: steps, u, (congrArg (Option.bind · _) told).trans run, ?_⟩
      rw [counted] at more
      omega

theorem Kept.due_cancel (kept : Kept s out) (due : s.Due (p, q)) {queue : TimerQueue}
    (told : s.queue.act (.cancel (p, q)) = some queue) :
    (s.afterCancel (p, q) queue).Due (p, q) := by
  obtain ⟨b, batch, t, here, sequence, inside⟩ := due
  obtain ⟨-, suffix, -⟩ := kept.calling b batch
  obtain ⟨t', member, -, here'⟩ := kept.expired_mem batch (suffix.subset inside)
  cases here.symm.trans here'
  have active : (p, q) ∉ s.queue.activeTimers := by
    rw [← show t.sequence = q from sequence]
    exact (kept.held.lone _ member).2
  cases told.symm.trans (kept.held.cancel_other active)
  exact ⟨b, batch, t, here, sequence, inside⟩

theorem Kept.untouched (kept : Kept s out) {id other : ActiveTimer} (different : other ≠ id)
    {queue : TimerQueue} (told : s.queue.act (.cancel id) = some queue) :
    Untouched s (s.afterCancel id queue) other := by
  by_cases active : id ∈ s.queue.activeTimers
  · obtain ⟨t₀, here₀, sequence₀, told'⟩ := kept.held.cancel_active active
    cases told.symm.trans told'
    have apart : ∀ t, s.queue.heap other.1 = some t → t.sequence = other.2 → other.1 ≠ id.1 := by
      intro t here sequence same
      rw [same] at here
      cases here₀.symm.trans here
      exact different (Prod.ext same (sequence.symm.trans sequence₀))
    refine ⟨fun t sequence => ⟨fun here => ?_, fun here => ?_⟩, fun t here sequence => ?_, ?_,
      Iff.rfl, rfl⟩
    · exact (TimerQueue.deleted_iff.mp here).2
    · exact TimerQueue.deleted_iff.mpr ⟨apart t here sequence, here⟩
    · exact List.mem_erase_of_ne fun same => apart t here sequence (congrArg Prod.snd same)
    · exact Finset.mem_erase.trans (and_iff_right different)
  · cases told.symm.trans (kept.held.cancel_other active)
    refine ⟨fun _ _ => Iff.rfl, fun _ _ _ => Iff.rfl, Iff.rfl, ?_, rfl⟩
    show other ∈ (if s.queue.callingExpiredTimers then _ else _) ↔ _
    split
    · exact Finset.mem_insert.trans (or_iff_right different)
    · exact Iff.rfl

theorem Kept.alive_of_free (kept : Kept s out) {made : Timer} (address : s.address q = some p)
    (known : s.queue.made q = some made) (free : (p, q) ∉ s.cancelled)
    (waits : made.repeat_ = true ∨ s.runs q = 0) : s.Alive (p, q) := by
  obtain ⟨t, here, sequence, due⟩ := kept.alive p q made address known free waits
  refine ⟨t, here, sequence, ?_⟩
  rcases kept.placed p t here with inside | member
  · obtain ⟨t', here', -, active⟩ := kept.held.timer _ _ inside
    cases here.symm.trans here'
    exact .inl ⟨inside, sequence ▸ active⟩
  · cases batch : s.batch with
    | none => exact nomatch (kept.idle batch).1 ▸ member
    | some b =>
      have expired : (t.expiration, p) ∈ b.expired :=
        (kept.calling b batch).1 ▸ List.mem_map_of_mem member
      obtain ⟨made', known', like⟩ := kept.held.made p t here
      rw [sequence] at known'
      cases known.symm.trans known'
      refine .inr ⟨b, rfl, ?_⟩
      split
      · exact expired
      · rename_i once
        exact due (like.2.1.trans (Bool.eq_false_of_not_eq_true once)) b batch expired

/-- A timer that was cancelled runs no more, but for one that is due in the batch at work; nothing
about other timers changes, and a timer that was not cancelled waits for its callback. -/
theorem cancel_runs (reach : Reachable machine s) :
    (∀ p q, s.address q = some p → ∃ s', s.step (.act (.cancel (p, q))) = some s' ∧
      ((∀ steps t, exec machine s' steps = some t → t.runs q = s'.runs q) ↔ ¬ s.Due (p, q)) ∧
      ∀ other ≠ (p, q), Untouched s s' other) ∧
    ∀ p q made, s.address q = some p → s.queue.made q = some made → (p, q) ∉ s.cancelled →
      (made.repeat_ = true ∨ s.runs q = 0) → s.Alive (p, q) := by
  obtain ⟨out, kept⟩ := kept_of_reach reach
  refine ⟨fun p q address => ?_, fun p q made => kept.alive_of_free⟩
  obtain ⟨queue, told, took, kept'⟩ := kept.cancel (p, q)
  refine ⟨_, took, ⟨fun never due => ?_, fun notDue steps t run => ?_⟩,
    fun other different => kept.untouched different told⟩
  · obtain ⟨steps, t, run, more⟩ := kept'.due_runs (kept.due_cancel due told)
    exact absurd (never steps t run) (Nat.ne_of_gt more)
  · exact (kept.quiet address notDue told).exec ⟨out, kept'⟩ run

def firstOfTwo : List LoopStep :=
  [LoopStep.act (.add 1 ⟨100, false, 0, 1⟩ 10), .act (.add 2 ⟨100, true, 50, 2⟩ 20), .alarm,
    .getExpired 200, .callback]

theorem cancel_runs_itself : ∃ s, s.address 1 = some 1 ∧ s.runs 1 = 1 ∧
    ∃ s', s.step (.act (.cancel (1, 1))) = some s' ∧
      ((∀ steps t, exec machine s' steps = some t → t.runs 1 = s'.runs 1) ↔ ¬ s.Due (1, 1)) ∧
      ∀ other ≠ (1, 1), Untouched s s' other := by
  have runs : ((exec machine new firstOfTwo).any fun s =>
      decide (s.address 1 = some 1 ∧ s.runs 1 = 1)) = true := by decide +kernel
  obtain ⟨s, ran, holds⟩ := (Option.any_eq_true _ _).mp runs
  obtain ⟨address, once⟩ := of_decide_eq_true holds
  have reach : Reachable machine s := Reach.exec (.start rfl) ran
  exact ⟨s, address, once, (cancel_runs reach).1 1 1 address⟩

theorem cancelled_runs : ∃ s s' t, Reachable machine s ∧ s.address 2 = some 2 ∧
    s.step (.act (.cancel (2, 2))) = some s' ∧ exec machine s' [.callback] = some t ∧
    s'.runs 2 = 0 ∧ t.runs 2 = 1 := by
  have runs : ((exec machine new firstOfTwo).any fun s => decide (s.address 2 = some 2) &&
      (s.step (.act (.cancel (2, 2)))).any fun s' => decide (s'.runs 2 = 0) &&
        (exec machine s' [.callback]).any fun t => decide (t.runs 2 = 1)) = true := by
    decide +kernel
  obtain ⟨s, ran, holds⟩ := (Option.any_eq_true _ _).mp runs
  obtain ⟨address, next⟩ := Bool.and_eq_true_iff.mp holds
  obtain ⟨s', took, holds'⟩ := (Option.any_eq_true _ _).mp next
  obtain ⟨before, last⟩ := Bool.and_eq_true_iff.mp holds'
  obtain ⟨t, run, after⟩ := (Option.any_eq_true _ _).mp last
  exact ⟨s, s', t, Reach.exec (.start rfl) ran, of_decide_eq_true address, took, run,
    of_decide_eq_true before, of_decide_eq_true after⟩

end TimerLoop

end ProjectsCpp.MuduoNet
