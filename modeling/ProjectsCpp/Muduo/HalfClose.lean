import ProjectsCpp.Muduo.CallerStrings

/-! `send` and one `shutdown`, from the loop thread and from others. A queued send holds its data and
how many sends returned before it. A write after `shutdownWrite` fails; a run of the model ends where
the peer closes or a write fails. -/

namespace ProjectsCpp.Muduo
open ProjectsCpp.Run

/-- How far the call of `shutdown` is, and how many sends had returned when it began. -/
inductive ShutdownCall (T : Type) where
  | notCalled
  | tested (t : T) (owed : Nat)
  | set (t : T) (owed : Nat)
  | done (owed : Nat)
deriving DecidableEq

/-- `returned` is the data of the sends that returned, `entered` what `sendInLoop` was called with. -/
structure HalfClose (T : Type) where
  conn : TcpConnection (Nat × List UInt8)
  sending : List (T × List UInt8)
  shutdown : ShutdownCall T
  returned : List (List UInt8)
  entered : List (Nat × List UInt8)

inductive CloseStep (T : Type) where
  | send (t : T) (data : List UInt8)
  | queueSend (t : T) (data : List UInt8)
  | shutdown (t : T)
  | setDisconnecting
  | queueShutdown
  | sendHere (data : List UInt8) (w : WriteResult)
  | shutdownHere
  | call (w : WriteResult)
  | handleWrite (w : WriteResult)

namespace ShutdownCall
variable {T : Type}

def owed : ShutdownCall T → Nat
  | .notCalled => 0
  | .tested _ n | .set _ n | .done n => n

def caller? : ShutdownCall T → Option T
  | .tested t _ | .set t _ => some t
  | .notCalled | .done _ => none

def early : ShutdownCall T → Bool
  | .notCalled | .tested _ _ => true
  | .set _ _ | .done _ => false

def pending : ShutdownCall T → Bool
  | .done _ => false
  | _ => true

end ShutdownCall

namespace HalfClose
variable {T : Type}

def answers (s : HalfClose T) (data : List UInt8) (w : WriteResult) : Bool :=
  w.fits data && !s.conn.calls.contains .shutdownWrite

section Step
variable [DecidableEq T]

def idle (s : HalfClose T) (t : T) : Prop :=
  (∀ r ∈ s.sending, r.1 ≠ t) ∧ s.shutdown.caller? ≠ some t

instance (s : HalfClose T) (t : T) : Decidable (s.idle t) := inferInstanceAs (Decidable (_ ∧ _))

def step (s : HalfClose T) : CloseStep T → Option (HalfClose T)
  | .send t data =>
    if s.idle t then
      some (if s.conn.state = .kConnected then { s with sending := (t, data) :: s.sending } else s)
    else none
  | .queueSend t data =>
    if (t, data) ∈ s.sending then
      some { s with
        conn := s.conn.queueInLoop (.sendInLoop (s.returned.length, data))
        sending := s.sending.erase (t, data)
        returned := s.returned ++ [data] }
    else none
  | .shutdown t =>
    if s.idle t ∧ s.shutdown = .notCalled then
      some { s with
        shutdown := if s.conn.state = .kConnected then .tested t s.returned.length
          else .done s.returned.length }
    else none
  | .setDisconnecting =>
    match s.shutdown with
    | .tested t owed =>
      some { s with conn := s.conn.setState .kDisconnecting, shutdown := .set t owed }
    | _ => none
  | .queueShutdown =>
    match s.shutdown with
    | .set _ owed => some { s with conn := s.conn.queueInLoop .shutdownInLoop, shutdown := .done owed }
    | _ => none
  | .sendHere data w =>
    if s.conn.state = .kConnected then
      if s.answers data w then
        some { s with
          conn := s.conn.send data w
          returned := s.returned ++ [data]
          entered := s.entered ++ [(s.returned.length, data)] }
      else none
    else some { s with conn := s.conn.send data w }
  | .shutdownHere =>
    if s.shutdown = .notCalled then
      some { s with conn := s.conn.shutdown, shutdown := .done s.returned.length }
    else none
  | .call w =>
    match s.conn.functors with
    | .sendInLoop m :: rest =>
      if s.answers m.2 w then
        some { s with
          conn := (s.conn.withFunctors rest).runFunctor w Prod.snd (.sendInLoop m)
          entered := s.entered ++ [m] }
      else none
    | f :: rest => some { s with conn := (s.conn.withFunctors rest).runFunctor w Prod.snd f }
    | [] => none
  | .handleWrite w =>
    if s.conn.channel.writing → s.answers s.conn.outputBuffer.readable w then
      some { s with conn := s.conn.handleWrite w }
    else none

end Step

def machine (T : Type) [DecidableEq T] : Machine (HalfClose T) (CloseStep T) where
  start s := ∃ writeComplete highWater mark,
    s = ⟨(TcpConnection.new writeComplete highWater mark).connectEstablished, [], .notCalled, [], []⟩
  step := step

def Accepted (calls : List Call) (entered : List (Nat × List UInt8)) (m : Nat × List UInt8) : Prop :=
  ∃ front back, entered = front ++ m :: back ∧ (front ++ [m]).flatMap Prod.snd <+: accepted calls

/-- `shutdownWrite` is called once, after the sends that returned before the call of `shutdown`. -/
def Graceful (s : HalfClose T) : Prop :=
  ∀ before after, s.conn.calls = before ++ .shutdownWrite :: after → .shutdownWrite ∉ before ∧
    ∀ i data, i < s.shutdown.owed → s.returned[i]? = some data → Accepted before s.entered (i, data)

/-- `shutdown` in the loop thread does not overtake a queued send, and the output buffer does not get
empty between the calls of `shutdown` and `shutdownInLoop`, or with such a send in the queue. -/
def Clear (s : HalfClose T) : CloseStep T → Prop
  | .shutdownHere => s.conn.channel.writing = true ∨ sends s.conn.functors = []
  | .handleWrite w => s.conn.state = .kDisconnecting →
      w = .accepted s.conn.outputBuffer.readable.length →
      s.shutdown.pending = false ∧ .shutdownInLoop ∉ s.conn.functors ∧
        ∀ m ∈ sends s.conn.functors, s.shutdown.owed ≤ m.1
  | _ => True

end HalfClose

/-- A functor that may stand behind `shutdownInLoop`: no send that returned before the call. -/
def Functor.Late {D : Type} (owed : Nat) : Functor (Nat × D) → Prop
  | .sendInLoop m => owed ≤ m.1
  | .shutdownInLoop => False
  | _ => True

namespace HalfClose
variable {T : Type}

structure Kept (s : HalfClose T) : Prop where
  stream : s.conn.Stream (s.entered.flatMap Prod.snd)
  output : ∀ f ∈ s.conn.functors, f.isOutput = true ∨ f = .shutdownInLoop
  there : ∀ i data, s.returned[i]? = some data →
    (i, data) ∈ sends s.conn.functors ∨ (i, data) ∈ s.entered
  owed_le : s.shutdown.owed ≤ s.returned.length
  order : s.conn.functors.Pairwise fun f g => f = .shutdownInLoop → g.Late s.shutdown.owed
  state : s.shutdown.early = true → s.conn.state = .kConnected
  once : s.shutdown.pending = true →
    .shutdownInLoop ∉ s.conn.functors ∧ .shutdownWrite ∉ s.conn.calls
  shut : .shutdownWrite ∈ s.conn.calls →
    s.conn.channel.writing = false ∧ .shutdownInLoop ∉ s.conn.functors
  graceful : s.Graceful

variable {s s' : HalfClose T} {c : TcpConnection (Nat × List UInt8)} {data : List UInt8}
  {w : WriteResult} {entered : List (Nat × List UInt8)} {returned : List (List UInt8)}
  {functors : List (Functor (Nat × List UInt8))}

theorem answers_spec (answers : s.answers data w = true) :
    w.fits data = true ∧ .shutdownWrite ∉ s.conn.calls := by
  obtain ⟨fits, fresh⟩ := Bool.and_eq_true_iff.mp answers
  exact ⟨fits, by simpa using fresh⟩

theorem graceful_of_fresh (fresh : .shutdownWrite ∉ s.conn.calls) : s.Graceful :=
  fun before _ calls => absurd (calls ▸ List.mem_append_right before List.mem_cons_self) fresh

theorem Graceful.mono (graceful : s.Graceful) (calls : s'.conn.calls = s.conn.calls)
    (entered : s'.entered = s.entered) (owed : s'.shutdown.owed = s.shutdown.owed)
    (owed_le : s.shutdown.owed ≤ s.returned.length) (returned : s.returned <+: s'.returned) :
    s'.Graceful := by
  intro before after split
  obtain ⟨once, taken⟩ := graceful before after (calls ▸ split)
  refine ⟨once, fun i data less here => ?_⟩
  rw [owed] at less
  rw [entered]
  refine taken i data less ?_
  obtain ⟨more, these⟩ := returned
  rw [← here, ← these, List.getElem?_append_left (Nat.lt_of_lt_of_le less owed_le)]

theorem Kept.work (kept : s.Kept) (stream : c.Stream (entered.flatMap Prod.snd))
    (callbacks : (s.conn.withFunctors functors).Calls c) (within : functors.Sublist s.conn.functors)
    (there : ∀ i data, returned[i]? = some data →
      (i, data) ∈ sends functors ∨ (i, data) ∈ entered)
    (few : s.returned.length ≤ returned.length) (state : c.state = s.conn.state)
    (fresh : .shutdownWrite ∉ c.calls) :
    Kept { s with conn := c, entered := entered, returned := returned } := by
  obtain ⟨more, these, callbacks⟩ := callbacks
  have these : c.functors = functors ++ more := these
  have callback : ∀ f ∈ more, f.isOutput = true ∧ f ≠ .shutdownInLoop ∧ f.Late s.shutdown.owed := by
    intro f its
    have such := List.all_eq_true.mp callbacks f its
    match f with
    | .writeCompleteCallback | .highWaterMarkCallback _ => exact ⟨rfl, nofun, trivial⟩
  have absent : .shutdownInLoop ∉ s.conn.functors → .shutdownInLoop ∉ c.functors := by
    intro absent its
    rcases List.mem_append.mp (these ▸ its) with old | new
    · exact absent (within.subset old)
    · exact (callback _ new).2.1 rfl
  exact {
    stream := stream
    output := fun f its => (List.mem_append.mp (these ▸ its)).elim
      (fun old => kept.output f (within.subset old)) fun new => .inl (callback f new).1
    there := fun i data here => by
      show (i, data) ∈ sends c.functors ∨ _
      rw [these, sends_append, sends_of_callbacks callbacks, List.append_nil]
      exact there i data here
    owed_le := Nat.le_trans kept.owed_le few
    order := by
      show c.functors.Pairwise _
      rw [these, List.pairwise_append]
      refine ⟨kept.order.sublist within, ?_, fun f _ g its _ => (callback g its).2.2⟩
      exact List.pairwise_of_forall_mem_list fun f _ g its _ => (callback g its).2.2
    state := fun early => state.trans (kept.state early)
    once := fun pending => ⟨absent (kept.once pending).1, fresh⟩
    shut := fun its => absurd its fresh
    graceful := graceful_of_fresh fresh }

theorem Kept.skip (kept : s.Kept) (within : functors.Sublist s.conn.functors)
    (same : sends functors = sends s.conn.functors) :
    Kept { s with conn := s.conn.withFunctors functors } where
  stream := kept.stream.withFunctors functors
  output := fun f its => kept.output f (within.subset its)
  there := fun i data here => by
    show (i, data) ∈ sends functors ∨ _
    rw [same]
    exact kept.there i data here
  owed_le := kept.owed_le
  order := kept.order.sublist within
  state := kept.state
  once := fun pending => ⟨fun its => (kept.once pending).1 (within.subset its), (kept.once pending).2⟩
  shut := fun its => ⟨(kept.shut its).1, fun there => (kept.shut its).2 (within.subset there)⟩
  graceful := kept.graceful

theorem Kept.close (kept : s.Kept) (done : s.shutdown.pending = false)
    (fresh : .shutdownWrite ∉ s.conn.calls) (last : .shutdownInLoop ∉ s.conn.functors)
    (late : ∀ m ∈ sends s.conn.functors, s.shutdown.owed ≤ m.1) :
    Kept { s with conn := s.conn.shutdownInLoop } := by
  rw [TcpConnection.shutdownInLoop]
  split
  · rename_i idle
    have idle : s.conn.channel.writing = false := Bool.eq_false_iff.mpr idle
    have empty : s.conn.outputBuffer.readable = [] := by
      have writing := kept.stream.writing
      rw [idle] at writing
      exact not_not.mp fun some => by cases writing.mpr some
    have all : accepted s.conn.calls = s.entered.flatMap Prod.snd := by
      rw [← kept.stream.stream, empty, List.append_nil]
    refine { kept with
      stream := kept.stream.call rfl
      once := fun pending => by cases done.symm.trans pending
      shut := fun _ => ⟨idle, last⟩
      graceful := fun before after calls => ?_ }
    obtain ⟨rfl, -, rfl⟩ := (List.append_cons_inj_of_notMem fresh (by simp)).mp calls
    refine ⟨fresh, fun i data less here => ?_⟩
    rcases kept.there i data here with waits | its
    · exact absurd (late _ waits) (Nat.not_le_of_lt less)
    · obtain ⟨front, back, split⟩ := List.append_of_mem its
      refine ⟨front, back, split, ?_⟩
      have split : s.entered = front ++ [(i, data)] ++ back := split.trans (List.append_cons ..)
      exact ⟨back.flatMap Prod.snd, by rw [all, split]; exact List.flatMap_append.symm⟩
  · exact kept

theorem Kept.sendInLoop (kept : s.Kept) {m : Nat × List UInt8}
    (answers : s.answers m.2 w = true) (within : functors.Sublist s.conn.functors)
    (there : ∀ i data, returned[i]? = some data →
      (i, data) ∈ sends functors ∨ (i, data) ∈ s.entered ++ [m])
    (few : s.returned.length ≤ returned.length) :
    Kept { s with
      conn := (s.conn.withFunctors functors).sendInLoop m.2 w
      entered := s.entered ++ [m]
      returned := returned } := by
  obtain ⟨fits, fresh⟩ := answers_spec answers
  obtain ⟨state, more, calls, kinds⟩ := (s.conn.withFunctors functors).sendInLoop_frame m.2 w
  refine kept.work ?_ (TcpConnection.sendInLoop_callbacks _ m.2 w) within there few state fun its => ?_
  · rw [List.flatMap_append, List.flatMap_singleton]
    exact (kept.stream.withFunctors functors).sendInLoop fits
  · rcases List.mem_append.mp (calls ▸ its) with old | new
    · exact fresh old
    · rcases kinds _ new with buffering | write
      · exact nomatch buffering
      · exact nomatch write

theorem Kept.call (kept : s.Kept) {f : Functor (Nat × List UInt8)}
    (first : s.conn.functors = f :: functors) (other : ∀ m, f ≠ .sendInLoop m) :
    Kept { s with conn := (s.conn.withFunctors functors).runFunctor w Prod.snd f } := by
  have within : functors.Sublist s.conn.functors := first ▸ List.sublist_cons_self f functors
  have same : sends functors = sends s.conn.functors := by
    rw [first]
    match f with
    | .sendInLoop m => exact absurd rfl (other m)
    | .connectEstablished | .shutdownInLoop | .writeCompleteCallback | .highWaterMarkCallback _
    | .connectDestroyed => rfl
  have skipped := kept.skip within same
  rcases kept.output f (first ▸ List.mem_cons_self) with output | rfl
  · match f with
    | .sendInLoop m => exact absurd rfl (other m)
    | .writeCompleteCallback | .highWaterMarkCallback _ => exact skipped
  · have queued : .shutdownInLoop ∈ s.conn.functors := first ▸ List.mem_cons_self
    have order := kept.order
    rw [first, List.pairwise_cons] at order
    have late : ∀ g ∈ functors, g.Late s.shutdown.owed := fun g its => order.1 g its rfl
    refine skipped.close (Bool.eq_false_iff.mpr fun pending => (kept.once pending).1 queued)
      (fun shut => (kept.shut shut).2 queued) (fun its => late _ its) fun m its => ?_
    exact late _ (mem_sends.mp its)

theorem Kept.handleWrite (kept : s.Kept)
    (answers : s.conn.channel.writing = true → s.answers s.conn.outputBuffer.readable w = true)
    (clear : s.Clear (.handleWrite w)) :
    Kept { s with conn := s.conn.handleWrite w } := by
  have stream := kept.stream.handleWrite (w := w)
  have within := List.Sublist.refl s.conn.functors
  -- A write leaves no trace of a half-close where there was none.
  have open' : ∀ {more : List Call}, .shutdownWrite ∉ s.conn.calls → .shutdownWrite ∉ more →
      .shutdownWrite ∉ s.conn.calls ++ more := fun fresh none its =>
    (List.mem_append.mp its).elim fresh none
  obtain ⟨-, same⟩ | ⟨writing, nothing, same⟩ | ⟨writing, n, rfl, -, same⟩ :=
    TcpConnection.handleWrite_cases s.conn w
  · rw [same]
    exact kept
  · obtain ⟨-, fresh⟩ := answers_spec (answers writing)
    rw [same] at stream ⊢
    exact kept.work stream (.refl _) within kept.there (Nat.le_refl _) rfl (open' fresh (by simp))
  · obtain ⟨fits, fresh⟩ := answers_spec (answers writing)
    split at same
    · rename_i all
      obtain ⟨state, callbacks, op, calls⟩ := s.conn.drained_frame n
      have drained := kept.work (kept.stream.drained all) callbacks within kept.there (Nat.le_refl _)
        state (calls ▸ open' fresh (by simp))
      rw [same]
      show Kept { s with conn := if (s.conn.drained n).state = .kDisconnecting then
        (s.conn.drained n).shutdownInLoop else s.conn.drained n }
      split
      · rename_i disconnecting
        have whole : n = s.conn.outputBuffer.readable.length :=
          Nat.le_antisymm (of_decide_eq_true fits) (List.drop_eq_nil_iff.mp all)
        obtain ⟨done, last, late⟩ := clear (state ▸ disconnecting) (whole ▸ rfl)
        obtain ⟨more, functors, callbacks⟩ := callbacks
        refine drained.close done (calls ▸ open' fresh (by simp)) ?_ ?_
        · show .shutdownInLoop ∉ (s.conn.drained n).functors
          rw [functors]
          intro its
          rcases List.mem_append.mp its with old | new
          · exact last old
          · exact nomatch List.all_eq_true.mp callbacks _ new
        · show ∀ m ∈ sends (s.conn.drained n).functors, _
          rw [functors, sends_append, sends_of_callbacks callbacks, List.append_nil]
          exact late
      · exact drained
    · rw [same] at stream ⊢
      exact kept.work stream (.refl _) within kept.there (Nat.le_refl _) rfl (open' fresh (by simp))

theorem returned_concat {P : Nat → List UInt8 → Prop} (old : ∀ i d, returned[i]? = some d → P i d)
    (new : P returned.length data) (i : Nat) (d : List UInt8)
    (here : (returned ++ [data])[i]? = some d) : P i d := by
  rw [List.getElem?_append] at here
  split at here
  · exact old i d here
  · rename_i beyond
    obtain ⟨inside, rfl⟩ := List.getElem?_eq_some_iff.mp here
    have last : i = returned.length := by
      have small : i - returned.length < 1 := inside
      omega
    subst last
    simpa using new

theorem Kept.queueInLoop (kept : s.Kept) {f : Functor (Nat × List UInt8)}
    (output : f.isOutput = true ∨ f = .shutdownInLoop)
    (late : .shutdownInLoop ∈ s.conn.functors → f.Late s.shutdown.owed)
    (there : ∀ i data, returned[i]? = some data →
      (i, data) ∈ sends (s.conn.functors ++ [f]) ∨ (i, data) ∈ s.entered)
    (few : s.returned <+: returned) (call : ShutdownCall T) (owed : call.owed = s.shutdown.owed)
    (early : call.early = true → s.shutdown.early = true)
    (once : call.pending = true → s.shutdown.pending = true ∧ f ≠ .shutdownInLoop)
    (shut : .shutdownWrite ∈ s.conn.calls → f ≠ .shutdownInLoop) (sending : List (T × List UInt8)) :
    Kept { s with
      conn := s.conn.queueInLoop f
      shutdown := call
      returned := returned
      sending := sending } := by
  have absent : .shutdownInLoop ∉ s.conn.functors → f ≠ .shutdownInLoop →
      .shutdownInLoop ∉ s.conn.functors ++ [f] := fun absent other its =>
    (List.mem_append.mp its).elim absent fun new => other (List.mem_singleton.mp new).symm
  exact {
    stream := ⟨kept.stream.reading, kept.stream.added, kept.stream.stream, kept.stream.writing⟩
    output := fun g its => (List.mem_append.mp its).elim (kept.output g)
      fun new => List.mem_singleton.mp new ▸ output
    there := there
    owed_le := owed ▸ Nat.le_trans kept.owed_le few.length_le
    order := by
      show (s.conn.functors ++ [f]).Pairwise fun _ g => _ → g.Late call.owed
      rw [owed, List.pairwise_append]
      refine ⟨kept.order, List.pairwise_singleton _ _, fun g its h new same => ?_⟩
      rw [List.mem_singleton.mp new]
      exact late (same ▸ its)
    state := fun isEarly => kept.state (early isEarly)
    once := fun pending => ⟨absent (kept.once (once pending).1).1 (once pending).2,
      (kept.once (once pending).1).2⟩
    shut := fun its => ⟨(kept.shut its).1, absent (kept.shut its).2 (shut its)⟩
    graceful := kept.graceful.mono rfl rfl owed kept.owed_le few }

theorem Kept.advance (kept : s.Kept) (pending : s.shutdown.pending = true) (call : ShutdownCall T)
    (owed : call.owed ≤ s.returned.length) (stream : c.Stream (s.entered.flatMap Prod.snd))
    (functors : c.functors = s.conn.functors) (fresh : .shutdownWrite ∉ c.calls)
    (state : call.early = true → c.state = .kConnected) :
    Kept { s with conn := c, shutdown := call } := by
  obtain ⟨absent, -⟩ := kept.once pending
  exact {
    stream := stream
    output := fun f its => kept.output f (functors ▸ its)
    there := fun i data here => by
      show (i, data) ∈ sends c.functors ∨ _
      rw [functors]
      exact kept.there i data here
    owed_le := owed
    order := by
      show c.functors.Pairwise _
      rw [functors]
      exact List.pairwise_of_forall_mem_list fun f its g _ same => absurd (same ▸ its) absent
    state := state
    once := fun _ => ⟨fun its => absent (functors ▸ its), fresh⟩
    shut := fun its => absurd its fresh
    graceful := graceful_of_fresh fresh }

theorem Kept.shutdownHere (kept : s.Kept) (first : s.shutdown = .notCalled)
    (clear : s.Clear .shutdownHere) :
    Kept { s with conn := s.conn.shutdown, shutdown := .done s.returned.length } := by
  have state : s.conn.state = .kConnected := kept.state (first ▸ rfl)
  obtain ⟨absent, fresh⟩ := kept.once (first ▸ rfl)
  have fresh : .shutdownWrite ∉ s.conn.calls ++ [.setState .kDisconnecting] := fun its =>
    (List.mem_append.mp its).elim fresh nofun
  have set : Kept { s with
      conn := s.conn.setState .kDisconnecting, shutdown := .done s.returned.length } :=
    kept.advance (first ▸ rfl) _ (Nat.le_refl _) (kept.stream.setState _) rfl fresh nofun
  rw [TcpConnection.shutdown, if_pos state]
  rcases clear with writing | none
  · have same : (s.conn.setState .kDisconnecting).shutdownInLoop =
        s.conn.setState .kDisconnecting := if_neg (not_not.mpr writing)
    rw [same]
    exact set
  · refine set.close rfl fresh absent fun m its => ?_
    rw [show sends (s.conn.setState .kDisconnecting).functors = [] from none] at its
    cases its

variable [DecidableEq T]

theorem step_kept {a : CloseStep T} (kept : s.Kept) (clear : s.Clear a) (next : step s a = some s') :
    s'.Kept := by
  cases a with
  | send t data =>
    obtain ⟨-, same⟩ := Option.ite_none_right_eq_some.mp next
    obtain rfl := Option.some.inj same
    split
    · exact { kept with }
    · exact kept
  | queueSend t data =>
    obtain ⟨-, same⟩ := Option.ite_none_right_eq_some.mp next
    obtain rfl := Option.some.inj same
    refine kept.queueInLoop (f := .sendInLoop (s.returned.length, data)) (.inl rfl)
      (fun _ => kept.owed_le) (returned_concat (fun i d here => ?_) ?_)
      (List.prefix_append _ _) s.shutdown rfl id (fun pending => ⟨pending, nofun⟩) (fun _ => nofun) _
    · rw [sends_append]
      exact (kept.there i d here).imp_left (List.mem_append_left _)
    · rw [sends_append]
      exact .inl (List.mem_append_right _ List.mem_cons_self)
  | shutdown t =>
    obtain ⟨⟨-, first⟩, same⟩ := Option.ite_none_right_eq_some.mp next
    obtain rfl := Option.some.inj same
    have pending : s.shutdown.pending = true := first ▸ rfl
    have state : s.conn.state = .kConnected := kept.state (first ▸ rfl)
    rw [if_pos state]
    exact kept.advance pending (.tested t s.returned.length) (Nat.le_refl _) kept.stream rfl
      (kept.once pending).2 fun _ => state
  | setDisconnecting =>
    simp only [step] at next
    split at next
    · rename_i t owed phase
      obtain rfl := Option.some.inj next
      have pending : s.shutdown.pending = true := phase ▸ rfl
      have owed_le := kept.owed_le
      rw [phase] at owed_le
      exact kept.advance pending (.set t owed) owed_le (kept.stream.setState _) rfl
        (fun its => (List.mem_append.mp its).elim (kept.once pending).2 nofun) nofun
    · cases next
  | queueShutdown =>
    simp only [step] at next
    split at next
    · rename_i t owed phase
      obtain rfl := Option.some.inj next
      obtain ⟨absent, fresh⟩ := kept.once (phase ▸ rfl)
      refine kept.queueInLoop (.inr rfl) (fun its => absurd its absent) (fun i d here => ?_)
        (List.prefix_refl _) (.done owed) (by rw [phase]; rfl) nofun nofun
        (fun its => absurd its fresh) _
      rw [sends_append]
      exact (kept.there i d here).imp_left (List.mem_append_left _)
    · cases next
  | sendHere data w =>
    simp only [step] at next
    split at next
    · rename_i connected
      obtain ⟨answers, same⟩ := Option.ite_none_right_eq_some.mp next
      obtain rfl := Option.some.inj same
      rw [TcpConnection.send, if_pos connected]
      refine kept.sendInLoop (m := (s.returned.length, data)) answers (.refl _)
        (returned_concat (fun i d here => ?_) ?_) ?_
      · exact (kept.there i d here).imp_right (List.mem_append_left _)
      · exact .inr (List.mem_append_right _ List.mem_cons_self)
      · exact (List.prefix_append s.returned [data]).length_le
    · rename_i off
      obtain rfl := Option.some.inj next
      rw [TcpConnection.send, if_neg off]
      exact kept
  | shutdownHere =>
    obtain ⟨first, same⟩ := Option.ite_none_right_eq_some.mp next
    exact Option.some.inj same ▸ kept.shutdownHere first clear
  | call w =>
    simp only [step] at next
    split at next
    · rename_i m rest first
      obtain ⟨answers, same⟩ := Option.ite_none_right_eq_some.mp next
      obtain rfl := Option.some.inj same
      refine kept.sendInLoop answers (first ▸ List.sublist_cons_self _ rest) (fun i d here => ?_)
        (Nat.le_refl _)
      have there := kept.there i d here
      rw [first] at there
      rcases there with waits | its
      · rcases List.mem_cons.mp waits with same | waits
        · exact .inr (List.mem_append_right _ (List.mem_singleton.mpr same))
        · exact .inl waits
      · exact .inr (List.mem_append_left _ its)
    · rename_i f rest other first
      obtain rfl := Option.some.inj next
      exact kept.call first other
    · cases next
  | handleWrite w =>
    obtain ⟨answers, same⟩ := Option.ite_none_right_eq_some.mp next
    exact Option.some.inj same ▸ kept.handleWrite answers clear

/-- In a run that is clear, what the sends before the call of `shutdown` brought is accepted when
`shutdownWrite` is called, and that is once. -/
theorem shutdown_graceful (reach : Reach (machine T) Clear s) : s.Graceful := by
  refine (reach.invariant (P := Kept) ?_ fun s a s' kept clear next =>
    step_kept kept clear next).graceful
  rintro s ⟨writeComplete, highWater, mark, rfl⟩
  have empty := Buffer.readable_new kInitialSize
  have fresh : .shutdownWrite ∉ (TcpConnection.new (D := Nat × List UInt8) writeComplete highWater
      mark).connectEstablished.calls := by
    show .shutdownWrite ∉ [Call.setState .kConnected, .epollCtl .add, .connectionCallback true]
    decide
  exact ⟨⟨rfl, rfl, empty, iff_of_false nofun fun some => some empty⟩, nofun, nofun, Nat.le_refl _,
    .nil, fun _ => rfl, fun _ => ⟨nofun, fresh⟩, fun its => absurd its fresh, graceful_of_fresh fresh⟩

instance (s : HalfClose T) (a : CloseStep T) : Decidable (s.Clear a) :=
  match a with
  | .shutdownHere => inferInstanceAs (Decidable (_ ∨ _))
  | .handleWrite _ => inferInstanceAs (Decidable (_ → _ → _ ∧ _ ∧ _))
  | .send _ _ | .queueSend _ _ | .shutdown _ | .setDisconnecting | .queueShutdown | .sendHere _ _
  | .call _ => isTrue trivial

def begin : HalfClose Unit :=
  ⟨(TcpConnection.new true false 64).connectEstablished, [], .notCalled, [], []⟩

theorem shutdown_overtakes_send :
    ∃ s, Reachable (machine Unit) s ∧ s.returned = [[1]] ∧ accepted s.conn.calls = [] ∧
      ¬ s.Graceful := by
  have ran : (exec (machine Unit) begin [.send () [1], .queueSend () [1], .shutdownHere]).any
      (fun s => s.returned = [[1]] ∧ s.shutdown.owed = 1 ∧ accepted s.conn.calls = [] ∧
        s.entered = [] ∧ s.conn.calls.contains .shutdownWrite) = true := by
    decide +kernel
  obtain ⟨s, done, facts⟩ := (Option.any_eq_true _ _).mp ran
  obtain ⟨returned, owed, none, entered, shut⟩ := of_decide_eq_true facts
  refine ⟨s, Reach.exec (.start ⟨true, false, 64, rfl⟩) done, returned, none, fun graceful => ?_⟩
  obtain ⟨before, after, split⟩ := List.append_of_mem (List.contains_iff_mem.mp shut)
  obtain ⟨front, back, its, -⟩ := (graceful before after split).2 0 [1] (owed ▸ Nat.one_pos)
    (returned ▸ rfl)
  rw [entered] at its
  exact absurd its.symm (List.append_ne_nil_of_right_ne_nil front (List.cons_ne_nil _ back))

def shutdownBehind : List (CloseStep Unit) :=
  [.send () [1, 2], .queueSend () [1, 2], .shutdown (), .setDisconnecting, .queueShutdown,
    .call (.accepted 1), .call (.accepted 0), .handleWrite (.accepted 1)]

theorem shutdown_graceful_behind :
    ∃ s, execWhere (machine Unit) Clear begin shutdownBehind = some s ∧
      .shutdownWrite ∈ s.conn.calls ∧ accepted s.conn.calls = [1, 2] ∧ s.Graceful := by
  have ran : (execWhere (machine Unit) Clear begin shutdownBehind).any (fun s =>
      .shutdownWrite ∈ s.conn.calls ∧ accepted s.conn.calls = [1, 2]) = true := by
    decide +kernel
  obtain ⟨s, done, facts⟩ := (Option.any_eq_true _ _).mp ran
  obtain ⟨shut, all⟩ := of_decide_eq_true facts
  exact ⟨s, done, shut, all,
    shutdown_graceful ((Reach.start (M := machine Unit) ⟨true, false, 64, rfl⟩).execWhere done)⟩

end HalfClose

end ProjectsCpp.Muduo
