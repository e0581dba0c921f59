import ProjectsCpp.Muduo.Life
import Mathlib.Data.List.Infix

/-! How often a connection calls its callbacks, from `newConnection` to `connectDestroyed`. -/

namespace ProjectsCpp.Muduo
open ProjectsCpp.Run

/-- What makes `handleEventWithGuard` call `closeCallback_`. -/
def Revents.closes (r : Revents) : Bool := r.epollHup && !r.epollIn

/-- What makes `handleEventWithGuard` call `readCallback_`. -/
def Revents.reads (r : Revents) : Bool := r.epollIn || r.epollPri

namespace Life
variable {T : Type}

/-- One call up, one down by `connectDestroyed`, one close, and no message after the call down. -/
structure Cycle (s : Life T) : Prop where
  up : s.conn.calls.count (.connectionCallback true) =
    if .connectEstablished ∈ s.conn.functors then 0 else 1
  down : s.conn.calls.count (.connectionCallback false) ≤ 1
  destroyed : s.destroyed = true → s.conn.calls.count (.connectionCallback false) = 1
  close : s.conn.calls.count .closeCallback ≤ 1
  silent : ∀ before after, s.conn.calls = before ++ .connectionCallback false :: after →
    .messageCallback ∉ after

/-- `connectDestroyed` does not meet a connection that is shutting down and not closed yet. -/
def Settled (c : TcpConnection (List UInt8)) : Prop :=
  ¬(c.state = .kDisconnecting ∧ c.channel.reading = true)

/-- An event without anything that closes or reads. -/
def Harmless (r : Revents) : Prop := r.closes = false ∧ r.reads = false

/-- A channel that is not read brings nothing that closes or reads, and an event that closes does not
read; `connectDestroyed` does not meet a connection that is shutting down, nor inline, in the
destructor of the server, an event that closes or reads; and a destroyed server is not called. -/
def Orderly (s : Life T) : LifeStep T → Prop
  | .poll r => s.conn.channel.reading = false → Harmless r
  | .handler r _ => (s.event.closes = true → s.handlers.head? = some .read → r = .failed) ∧
      (s.closes r → s.server = true)
  | .call _ => s.conn.functors.head? = some .connectDestroyed → Settled s.conn
  | .destroyServer => s.single = true ∧ s.listed = true →
      Settled s.conn ∧ ∀ r ∈ s.active, Harmless r
  | .removeConnectionInLoop => s.server = true
  | _ => True

end Life

namespace TcpConnection
variable {D : Type} {c c' : TcpConnection D}

structure Up (c : TcpConnection D) : Prop where
  state : c.state = .kConnected ∨ c.state = .kDisconnecting
  reading : c.channel.reading = true
  established : .connectEstablished ∉ c.functors
  up : c.calls.count (.connectionCallback true) = 1
  down : .connectionCallback false ∉ c.calls
  close : .closeCallback ∉ c.calls

structure Down (c : TcpConnection D) : Prop where
  state : c.state = .kDisconnected ∨ c.state = .kDisconnecting
  reading : c.channel.reading = false
  established : .connectEstablished ∉ c.functors
  up : c.calls.count (.connectionCallback true) = 1
  down : c.calls.count (.connectionCallback false) = 1
  close : c.calls.count .closeCallback ≤ 1
  silent : ∃ before after, c.calls = before ++ .connectionCallback false :: after ∧
    .messageCallback ∉ after

theorem established_of_callbacks (callbacks : Calls c c')
    (established : .connectEstablished ∉ c.functors) : .connectEstablished ∉ c'.functors := by
  obtain ⟨more, functors, callbacks⟩ := callbacks
  rw [functors]
  intro its
  rcases List.mem_append.mp its with old | new
  · exact established old
  · exact nomatch List.all_eq_true.mp callbacks _ new

theorem Up.extend (its : c.Up) {more : List Call} (calls : c'.calls = c.calls ++ more)
    (quiet : ∀ a ∈ more, a ≠ .closeCallback ∧ ∀ b, a ≠ .connectionCallback b)
    (state : c'.state = .kConnected ∨ c'.state = .kDisconnecting)
    (reading : c'.channel.reading = c.channel.reading)
    (established : .connectEstablished ∉ c'.functors) : c'.Up := by
  have same : ∀ {a : Call}, a ∉ more → a ∉ c.calls → a ∉ c'.calls := fun new old its =>
    (List.mem_append.mp (calls ▸ its)).elim old new
  refine ⟨state, reading.trans its.reading, established, ?_,
    same (fun its => (quiet _ its).2 false rfl) its.down,
    same (fun its => (quiet _ its).1 rfl) its.close⟩
  rw [calls, List.count_append, its.up,
    List.count_eq_zero.mpr fun its => (quiet _ its).2 true rfl]

theorem Down.extend (its : c.Down) {more : List Call} (calls : c'.calls = c.calls ++ more)
    (quiet : ∀ a ∈ more, a ≠ .closeCallback ∧ a ≠ .messageCallback ∧ ∀ b, a ≠ .connectionCallback b)
    (state : c'.state = .kDisconnected ∨ c'.state = .kDisconnecting)
    (reading : c'.channel.reading = c.channel.reading)
    (established : .connectEstablished ∉ c'.functors) : c'.Down := by
  have same : ∀ {a : Call}, a ∉ more → c'.calls.count a = c.calls.count a := fun none => by
    rw [calls, List.count_append, List.count_eq_zero.mpr none, Nat.add_zero]
  obtain ⟨before, after, split, silent⟩ := its.silent
  refine ⟨state, reading.trans its.reading, established,
    (same fun its => (quiet _ its).2.2 true rfl).trans its.up,
    (same fun its => (quiet _ its).2.2 false rfl).trans its.down,
    Nat.le_trans (Nat.le_of_eq (same fun its => (quiet _ its).1 rfl)) its.close,
    before, after ++ more, ?_, ?_⟩
  · rw [calls, split, List.append_assoc, List.cons_append]
  · exact fun its => (List.mem_append.mp its).elim silent fun new => (quiet _ new).2.1 rfl

theorem Works.quiet (works : Works c c') : ∃ more, c'.calls = c.calls ++ more ∧
    ∀ a ∈ more, a ≠ .closeCallback ∧ a ≠ .messageCallback ∧ ∀ b, a ≠ .connectionCallback b := by
  obtain ⟨more, calls, output⟩ := works.calls
  refine ⟨more, calls, fun a its => ?_⟩
  have such := List.all_eq_true.mp output a its
  match a with
  | .write _ _ | .append _ | .epollCtl _ | .shutdownWrite => exact ⟨nofun, nofun, nofun⟩

theorem Up.works (its : c.Up) (works : Works c c') : c'.Up := by
  obtain ⟨more, calls, quiet⟩ := works.quiet
  exact its.extend calls (fun a new => ⟨(quiet a new).1, (quiet a new).2.2⟩)
    (works.state ▸ its.state) works.reading
    (established_of_callbacks works.functors its.established)

theorem Down.works (its : c.Down) (works : Works c c') : c'.Down := by
  obtain ⟨more, calls, quiet⟩ := works.quiet
  exact its.extend calls quiet (works.state ▸ its.state) works.reading
    (established_of_callbacks works.functors its.established)

theorem Up.call (its : c.Up) {a : Call} (close : a ≠ .closeCallback)
    (cb : ∀ b, a ≠ .connectionCallback b) : (c.call a).Up :=
  its.extend rfl (fun _ new => List.mem_singleton.mp new ▸ ⟨close, cb⟩) its.state rfl its.established

theorem Up.functors (its : c.Up) {functors : List (Functor D)}
    (established : .connectEstablished ∉ functors) : (c.withFunctors functors).Up :=
  ⟨its.state, its.reading, established, its.up, its.down, its.close⟩

theorem Down.functors (its : c.Down) {functors : List (Functor D)}
    (established : .connectEstablished ∉ functors) : (c.withFunctors functors).Down :=
  ⟨its.state, its.reading, established, its.up, its.down, its.close, its.silent⟩

theorem Up.setDisconnecting (its : c.Up) : (c.setState .kDisconnecting).Up :=
  its.extend (rfl : _ = c.calls ++ [.setState .kDisconnecting])
    (fun _ new => List.mem_singleton.mp new ▸ ⟨nofun, nofun⟩) (.inr rfl) rfl its.established

theorem Down.setDisconnecting (its : c.Down) : (c.setState .kDisconnecting).Down :=
  its.extend (rfl : _ = c.calls ++ [.setState .kDisconnecting])
    (fun _ new => List.mem_singleton.mp new ▸ ⟨nofun, nofun, nofun⟩) (.inr rfl) rfl its.established

theorem Up.tell (its : c.Up) {front back : List Call}
    (calls : c'.calls = c.calls ++ front ++ .connectionCallback false :: back)
    (quiet : ∀ a ∈ front, a ≠ .closeCallback ∧ ∀ b, a ≠ .connectionCallback b)
    (last : back = [] ∨ back = [.closeCallback]) (state : c'.state = .kDisconnected)
    (reading : c'.channel.reading = false)
    (established : .connectEstablished ∉ c'.functors) : c'.Down := by
  have before : Up { c with calls := c.calls ++ front } :=
    its.extend rfl quiet its.state rfl its.established
  have up : (c.calls ++ front).count (.connectionCallback true) = 1 := before.up
  have down : (c.calls ++ front).count (.connectionCallback false) = 0 :=
    List.count_eq_zero.mpr before.down
  have close : (c.calls ++ front).count .closeCallback = 0 := List.count_eq_zero.mpr before.close
  refine ⟨.inl state, reading, established, ?_, ?_, ?_, _, back, calls, ?_⟩
  · rw [calls, List.count_append, up]
    rcases last with rfl | rfl <;> rfl
  · rw [calls, List.count_append, down]
    rcases last with rfl | rfl <;> rfl
  · rw [calls, List.count_append, close]
    rcases last with rfl | rfl <;> decide
  · rcases last with rfl | rfl <;> decide

theorem disconnect_calls (c : TcpConnection D) :
    (c.setState .kDisconnected).disableAll.connectionCallback.calls =
      c.calls ++ [.setState .kDisconnected, .epollCtl (Channel.updateChannel
        { c.channel with reading := false, writing := false }).1] ++ [.connectionCallback false] :=
  congrArg (· ++ [_]) (List.append_assoc c.calls [_] [_])

theorem quiet_front (op : CtlOp) : ∀ a ∈ [Call.setState .kDisconnected, .epollCtl op],
    a ≠ .closeCallback ∧ ∀ b, a ≠ .connectionCallback b := by
  intro a its
  rcases List.mem_cons.mp its with rfl | its
  · exact ⟨nofun, nofun⟩
  · exact List.mem_singleton.mp its ▸ ⟨nofun, nofun⟩

theorem Up.handleClose (its : c.Up) : c.handleClose.Down := by
  have calls := congrArg (· ++ [Call.closeCallback]) c.disconnect_calls
  exact its.tell (calls.trans (List.append_assoc _ _ _)) (quiet_front _) (.inr rfl) rfl
    (updateChannel_reading _) its.established

theorem remove_works (c : TcpConnection D) : Works c c.remove := by
  rw [remove]
  dsimp only
  split
  · exact ⟨rfl, rfl, ⟨[.epollCtl .del], rfl, rfl⟩, .refl c⟩
  · exact ⟨rfl, rfl, ⟨[], (List.append_nil _).symm, rfl⟩, .refl c⟩

theorem Up.connectDestroyed (its : c.Up) (open' : c.state ≠ .kDisconnecting) :
    c.connectDestroyed.Down := by
  have state : c.state = .kConnected := its.state.resolve_right open'
  rw [TcpConnection.connectDestroyed, if_pos state]
  exact (its.tell c.disconnect_calls (quiet_front _) (.inl rfl) rfl (updateChannel_reading _)
    its.established).works (remove_works _)

theorem Down.off (its : c.Down) : c.state ≠ .kConnected := fun on => by
  rcases its.state with state | state
  · exact nomatch state.symm.trans on
  · exact nomatch state.symm.trans on

theorem Down.connectDestroyed (its : c.Down) : c.connectDestroyed.Down := by
  rw [TcpConnection.connectDestroyed, if_neg its.off]
  exact its.works (remove_works c)

theorem Up.connectEstablished (calls : c.calls = []) (absent : .connectEstablished ∉ c.functors) :
    c.connectEstablished.Up := by
  obtain ⟨op, calls⟩ : ∃ op, c.connectEstablished.calls =
      [.setState .kConnected, .epollCtl op, .connectionCallback true] := by
    refine ⟨(Channel.updateChannel { c.channel with reading := true }).1, ?_⟩
    show c.calls ++ [_] ++ [_] ++ [_] = _
    rw [calls]
    rfl
  refine ⟨.inl rfl, updateChannel_reading _, absent, ?_, ?_, ?_⟩
  · rw [calls]
    rfl
  · rw [calls]
    simp
  · rw [calls]
    simp

theorem send_works (c : TcpConnection D) (data : List UInt8) (w : WriteResult) :
    Works c (c.send data w) := by
  rw [send]
  split
  · exact c.sendInLoop_works data w
  · exact .refl c

theorem Up.shutdown (its : c.Up) : c.shutdown.Up := by
  rw [TcpConnection.shutdown]
  split
  · exact its.setDisconnecting.works (shutdownInLoop_works _)
  · exact its

theorem Down.shutdown (its : c.Down) : c.shutdown.Down := by
  rw [TcpConnection.shutdown, if_neg its.off]
  exact its

theorem Down.silent_after (its : c.Down) {before after : List Call}
    (split : c.calls = before ++ .connectionCallback false :: after) : .messageCallback ∉ after := by
  obtain ⟨before', after', split', silent⟩ := its.silent
  have none : ∀ {front back : List Call}, c.calls = front ++ .connectionCallback false :: back →
      .connectionCallback false ∉ front ∧ .connectionCallback false ∉ back := fun split => by
    have once := its.down
    rw [split, List.count_append, List.count_cons_self] at once
    exact ⟨List.count_eq_zero.mp (by omega), List.count_eq_zero.mp (by omega)⟩
  obtain ⟨-, -, rfl⟩ := (List.append_cons_inj_of_notMem (none split').1 (none split').2).mp
    (split'.symm.trans split)
  exact silent

end TcpConnection

theorem handlers_tails (r : Revents) : ∀ t ∈ r.handlers.tails,
    (t.head? = some .close → r.closes = true ∧ .close ∉ t.tail) ∧
      (t.head? = some .read → .close ∉ t.tail ∧ .read ∉ t.tail) := by
  rcases r with ⟨epollIn, epollPri, epollOut, epollErr, epollHup⟩
  revert epollIn epollPri epollOut epollErr epollHup
  decide

theorem not_mem_handlers {r : Revents} (harmless : Life.Harmless r) :
    .close ∉ r.handlers ∧ .read ∉ r.handlers := by
  rcases r with ⟨epollIn, epollPri, epollOut, epollErr, epollHup⟩
  revert epollIn epollPri epollOut epollErr epollHup
  unfold Life.Harmless
  decide

namespace Life
variable {T : Type} {s s' : Life T} {a : LifeStep T}

/-- What a step does to the event of the connection. -/
inductive Turn (s : Life T) (a : LifeStep T) (s' : Life T) : Prop where
  | keep (active : s'.active = s.active) (event : s'.event = s.event)
      (handlers : s'.handlers = s.handlers)
  | poll (r : Revents) (step : a = .poll r) (active : s'.active = some r)
      (handlers : s'.handlers = [])
  | begin (r : Revents) (active : s.active = some r) (none : s'.active = none)
      (event : s'.event = r) (handlers : s'.handlers = r.handlers)
  | handler (h : Handler) (active : s'.active = s.active) (event : s'.event = s.event)
      (handlers : s.handlers = h :: s'.handlers)

theorem removeConnection_turn (s : Life T) : s.removeConnection.active = s.active ∧
    s.removeConnection.event = s.event ∧ s.removeConnection.handlers = s.handlers := by
  rw [removeConnection]
  split
  · split <;> exact ⟨rfl, rfl, rfl⟩
  · exact ⟨rfl, rfl, rfl⟩

theorem runHandler_turn {r : ReadResult} {w : WriteResult} {h : Handler}
    (ran : s.runHandler r w h = some s') :
    s'.active = s.active ∧ s'.event = s.event ∧ s'.handlers = s.handlers := by
  cases h with
  | close =>
    obtain rfl := Option.some.inj ran
    exact removeConnection_turn { s with conn := s.conn.handleClose }
  | error =>
    obtain rfl := Option.some.inj ran
    exact ⟨rfl, rfl, rfl⟩
  | read =>
    obtain ⟨-, same⟩ := Option.ite_none_right_eq_some.mp ran
    obtain rfl := Option.some.inj same
    split
    · exact removeConnection_turn { s with conn := s.conn.handleRead r }
    · exact ⟨rfl, rfl, rfl⟩
  | write =>
    obtain ⟨-, same⟩ := Option.ite_none_right_eq_some.mp ran
    obtain rfl := Option.some.inj same
    exact ⟨rfl, rfl, rfl⟩

theorem handler_turn [DecidableEq T] {r : ReadResult} {w : WriteResult}
    (next : step s (.handler r w) = some s') : ∃ h, s.handlers = h :: s'.handlers ∧
      s'.active = s.active ∧ s'.event = s.event := by
  simp only [step] at next
  split at next
  · rename_i h rest first
    obtain ⟨active, event, handlers⟩ := runHandler_turn next
    exact ⟨h, first.trans (congrArg (h :: ·) handlers.symm), active, event⟩
  · cases next

theorem step_turn [DecidableEq T] (next : step s a = some s') : Turn s a s' := by
  cases a with
  | poll r =>
    obtain ⟨⟨-, free, -⟩, same⟩ := Option.ite_none_right_eq_some.mp next
    obtain rfl := Option.some.inj same
    exact .poll r rfl rfl free
  | handleEvent =>
    obtain ⟨r, active, rfl⟩ := Option.map_eq_some_iff.mp next
    exact .begin r active rfl rfl rfl
  | handler r w =>
    obtain ⟨h, handlers, active, event⟩ := handler_turn next
    exact .handler h active event handlers
  | call w =>
    simp only [step] at next
    split at next
    · obtain ⟨-, same⟩ := Option.ite_none_right_eq_some.mp next
      exact Option.some.inj same ▸ .keep rfl rfl rfl
    · cases next
  | shutdownHere => exact Option.some.inj next ▸ .keep rfl rfl rfl
  | send t data | shutdown t =>
    obtain ⟨-, same⟩ := Option.ite_none_right_eq_some.mp next
    obtain rfl := Option.some.inj same
    split
    · exact .keep rfl rfl rfl
    · exact .keep rfl rfl rfl
  | sendHere data w | queueSend t data | setDisconnecting t | queueShutdown t
  | removeConnectionInLoop =>
    obtain ⟨-, same⟩ := Option.ite_none_right_eq_some.mp next
    exact Option.some.inj same ▸ .keep rfl rfl rfl
  | destroyServer =>
    obtain ⟨-, same⟩ := Option.ite_none_right_eq_some.mp next
    obtain rfl := Option.some.inj same
    rw [destroyServer]
    split
    · split <;> exact .keep rfl rfl rfl
    · exact .keep rfl rfl rfl

/-- The handlers that are left are the end of the event, and no other one is polled before them. -/
structure Handling (s : Life T) : Prop where
  rest : s.handlers <:+ s.event.handlers
  alone : s.handlers ≠ [] → s.active = none

theorem Handling.turn (handling : s.Handling) (turn : Turn s a s') : s'.Handling := by
  cases turn with
  | keep active event handlers =>
    exact ⟨event ▸ handlers ▸ handling.rest, fun some => active.trans (handling.alone (handlers ▸ some))⟩
  | poll r step active handlers =>
    exact ⟨handlers ▸ List.nil_suffix, fun some => absurd handlers some⟩
  | begin r active none event handlers =>
    exact ⟨event ▸ handlers ▸ List.suffix_refl _, fun _ => none⟩
  | handler h active event handlers =>
    have rest : s'.handlers <:+ s.handlers := handlers ▸ List.suffix_cons h _
    exact ⟨event ▸ rest.trans handling.rest, fun _ =>
      active.trans (handling.alone (handlers ▸ List.cons_ne_nil h _))⟩

/-- Nothing that is left of the event, or polled, closes or reads, but for a read behind the close
of the same event. -/
structure Spent (s : Life T) : Prop where
  close : .close ∉ s.handlers
  read : .read ∈ s.handlers → s.event.closes = true
  active : ∀ r ∈ s.active, Harmless r

theorem Spent.turn (spent : s.Spent) (turn : Turn s a s')
    (polled : ∀ r, a = .poll r → Harmless r) : s'.Spent := by
  cases turn with
  | keep active event handlers =>
    exact ⟨handlers ▸ spent.close, event ▸ handlers ▸ spent.read, active ▸ spent.active⟩
  | poll r step active handlers =>
    refine ⟨handlers ▸ List.not_mem_nil, fun its => absurd (handlers ▸ its) List.not_mem_nil, ?_⟩
    intro r' its
    rw [active] at its
    exact Option.some.inj its ▸ polled r step
  | begin r active none event handlers =>
    obtain ⟨close, read⟩ := not_mem_handlers (spent.active r active)
    refine ⟨handlers ▸ close, fun its => absurd (handlers ▸ its) read, fun r' its => ?_⟩
    rw [none] at its
    cases its
  | handler h active event handlers =>
    have rest : ∀ {h'}, h' ∈ s'.handlers → h' ∈ s.handlers := fun its =>
      handlers ▸ List.mem_cons_of_mem h its
    exact ⟨fun its => spent.close (rest its), fun its => event ▸ spent.read (rest its),
      active ▸ spent.active⟩

theorem spent_of_idle (handlers : s.handlers = []) (active : ∀ r ∈ s.active, Harmless r) : s.Spent :=
  ⟨handlers ▸ List.not_mem_nil, fun its => absurd (handlers ▸ its) List.not_mem_nil, active⟩

/-- A handler that closes the connection is the last one of its event that may close or read, and
no other event waits. -/
theorem Handling.spent [DecidableEq T] {r : ReadResult} {w : WriteResult} (handling : s.Handling)
    (closes : s.closes r) (next : step s (.handler r w) = some s') : s'.Spent := by
  obtain ⟨h, handlers, active, event⟩ := handler_turn next
  have none : s'.active = none :=
    active.trans (handling.alone (handlers ▸ List.cons_ne_nil h s'.handlers))
  obtain ⟨behindClose, behindRead⟩ :=
    handlers_tails s.event s.handlers ((List.mem_tails _ _).mpr handling.rest)
  rw [Life.closes, handlers] at closes
  rw [handlers] at behindClose behindRead
  have quiet : ∀ r ∈ s'.active, Harmless r := fun r' its => by
    rw [none] at its
    cases its
  rcases closes with head | ⟨head, -⟩
  · obtain ⟨closed, once⟩ := behindClose head
    exact ⟨once, fun _ => event ▸ closed, quiet⟩
  · obtain ⟨open', once⟩ := behindRead head
    exact ⟨open', fun its => absurd its once, quiet⟩

inductive Stage (s : Life T) : Prop where
  | opening (its : s.Opening)
  | up (its : s.conn.Up) (there : s.destroyed = false)
  | down (its : s.conn.Down) (spent : s.Spent)

theorem Stage.cycle (stage : s.Stage) : s.Cycle := by
  cases stage with
  | opening its =>
    obtain ⟨rest, functors, -⟩ := its.functors
    have calls := its.calls
    refine ⟨?_, ?_, fun gone => (nomatch its.destroyed.symm.trans gone), ?_,
      fun before after split => ?_⟩
    · rw [calls, functors, if_pos List.mem_cons_self]
      rfl
    · rw [calls]
      exact Nat.zero_le _
    · rw [calls]
      exact Nat.zero_le _
    · rw [calls] at split
      exact absurd split.symm (List.append_ne_nil_of_right_ne_nil before (List.cons_ne_nil _ after))
  | up its there =>
    refine ⟨?_, ?_, fun gone => (nomatch there.symm.trans gone), ?_, fun before after split => ?_⟩
    · rw [its.up, if_neg its.established]
    · exact Nat.le_trans (Nat.le_of_eq (List.count_eq_zero.mpr its.down)) (Nat.zero_le 1)
    · exact Nat.le_trans (Nat.le_of_eq (List.count_eq_zero.mpr its.close)) (Nat.zero_le 1)
    · exact absurd (split ▸ List.mem_append_right before List.mem_cons_self) its.down
  | down its =>
    refine ⟨?_, Nat.le_of_eq its.down, fun _ => its.down, its.close, fun _ _ split =>
      its.silent_after split⟩
    rw [its.up, if_neg its.established]

theorem runFunctor_cases (f : Functor (List UInt8)) (w : WriteResult)
    (c : TcpConnection (List UInt8)) (other : f ≠ .connectEstablished) :
    f = .connectDestroyed ∧ c.runFunctor w id f = c.connectDestroyed ∨
      f ≠ .connectDestroyed ∧ c.Works (c.runFunctor w id f) := by
  match f with
  | .connectEstablished => exact absurd rfl other
  | .sendInLoop data => exact .inr ⟨nofun, c.sendInLoop_works data w⟩
  | .shutdownInLoop => exact .inr ⟨nofun, c.shutdownInLoop_works⟩
  | .writeCompleteCallback | .highWaterMarkCallback _ => exact .inr ⟨nofun, .refl c⟩
  | .connectDestroyed => exact .inl ⟨rfl, rfl⟩

theorem Stage.step [DecidableEq T] (stage : s.Stage) (handling : s.Handling) (orderly : s.Orderly a)
    (next : step s a = some s') : s'.Stage := by
  have queued : ∀ {c : TcpConnection (List UInt8)} {f : Functor (List UInt8)},
      f ≠ .connectEstablished → .connectEstablished ∉ c.functors →
      .connectEstablished ∉ c.functors ++ [f] := fun other absent its =>
    (List.mem_append.mp its).elim absent fun new => other (List.mem_singleton.mp new).symm
  have turn := step_turn next
  cases stage with
  | opening its =>
    rcases its.step next with opening | ⟨there, rest, absent, conn⟩
    · exact .opening opening
    · exact .up (conn ▸ .connectEstablished its.calls absent) there
  | up its there =>
    cases step_effect next with
    | keep conn destroyed => exact .up (conn ▸ its) (destroyed.trans there)
    | queue f other conn destroyed =>
      exact .up (conn ▸ its.functors (queued other its.established)) (destroyed.trans there)
    | take w f rest step idle first conn destroyed =>
      have absent := its.established
      rw [first] at absent
      obtain ⟨other, absent⟩ := List.ne_and_not_mem_of_not_mem_cons absent
      have taken := its.functors absent
      rcases runFunctor_cases f w (s.conn.withFunctors rest) other.symm with ⟨rfl, ran⟩ | ⟨apart, works⟩
      · have settled : s.conn.state ≠ .kDisconnecting := fun state => by
          subst step
          exact orderly (by rw [first, List.head?_cons]) ⟨state, its.reading⟩
        have spent : s.Spent := spent_of_idle idle.2 fun r its => by
          rw [idle.1] at its
          cases its
        refine .down (conn ▸ ran ▸ taken.connectDestroyed settled) (spent.turn turn fun r same => ?_)
        cases step.symm.trans same
      · refine .up (conn ▸ taken.works works) (destroyed.trans ?_)
        rw [there, decide_eq_false apart]
        rfl
    | send data w conn destroyed =>
      exact .up (conn ▸ its.works (s.conn.send_works data w)) (destroyed.trans there)
    | shutdown conn destroyed => exact .up (conn ▸ its.shutdown) (destroyed.trans there)
    | set conn destroyed => exact .up (conn ▸ its.setDisconnecting) (destroyed.trans there)
    | close r w step closes conn destroyed =>
      subst step
      have spent := handling.spent closes next
      rcases conn with conn | conn
      · exact .down (conn ▸ its.handleClose) spent
      · exact .down (conn ▸ its.handleClose.functors (queued nofun its.established)) spent
    | read b data w step head conn destroyed =>
      have its : { s.conn with inputBuffer := s.conn.inputBuffer.readFd (b :: data) }.Up :=
        ⟨its.state, its.reading, its.established, its.up, its.down, its.close⟩
      exact .up (conn ▸ its.call (a := .messageCallback) nofun nofun) (destroyed.trans there)
    | write r w step head fits conn destroyed =>
      exact .up (conn ▸ its.works (s.conn.handleWrite_works w)) (destroyed.trans there)
    | destroy step here idle conn destroyed =>
      subst step
      obtain ⟨settled, harmless⟩ := orderly here
      refine .down (conn ▸ its.connectDestroyed fun state => settled ⟨state, its.reading⟩)
        ((spent_of_idle idle harmless).turn turn fun r same => ?_)
      cases same
  | down its before =>
    have spent : s'.Spent := before.turn turn fun r same => by
      subst same
      exact orderly its.reading
    cases step_effect next with
    | keep conn destroyed => exact .down (conn ▸ its) spent
    | queue f other conn destroyed =>
      exact .down (conn ▸ its.functors (queued other its.established)) spent
    | take w f rest step idle first conn destroyed =>
      have absent := its.established
      rw [first] at absent
      obtain ⟨other, absent⟩ := List.ne_and_not_mem_of_not_mem_cons absent
      have taken := its.functors absent
      rcases runFunctor_cases f w (s.conn.withFunctors rest) other.symm with ⟨-, ran⟩ | ⟨-, works⟩
      · exact .down (conn ▸ ran ▸ taken.connectDestroyed) spent
      · exact .down (conn ▸ taken.works works) spent
    | send data w conn destroyed => exact .down (conn ▸ its.works (s.conn.send_works data w)) spent
    | shutdown conn destroyed => exact .down (conn ▸ its.shutdown) spent
    | set conn destroyed => exact .down (conn ▸ its.setDisconnecting) spent
    | close r w step closes conn destroyed =>
      subst step
      rcases closes with head | ⟨head, rfl⟩
      · exact absurd (List.mem_of_head? head) before.close
      · exact nomatch orderly.1 (before.read (List.mem_of_head? head)) head
    | read b data w step head conn destroyed =>
      subst step
      exact nomatch orderly.1 (before.read (List.mem_of_head? head)) head
    | write r w step head fits conn destroyed =>
      exact .down (conn ▸ its.works (s.conn.handleWrite_works w)) spent
    | destroy step here idle conn destroyed => exact .down (conn ▸ its.connectDestroyed) spent

instance (c : TcpConnection (List UInt8)) : Decidable (Settled c) :=
  inferInstanceAs (Decidable ¬(_ ∧ _))

instance (r : Revents) : Decidable (Harmless r) := inferInstanceAs (Decidable (_ ∧ _))

instance (s : Life T) (a : LifeStep T) : Decidable (s.Orderly a) :=
  match a with
  | .poll _ => inferInstanceAs (Decidable (_ → _))
  | .handler _ _ => inferInstanceAs (Decidable ((_ → _ → _) ∧ (_ → _)))
  | .call _ => inferInstanceAs (Decidable (_ → _))
  | .destroyServer => inferInstanceAs (Decidable (_ → _ ∧ ∀ _ ∈ _, _))
  | .removeConnectionInLoop => inferInstanceAs (Decidable (_ = _))
  | .handleEvent | .sendHere _ _ | .shutdownHere | .send _ _ | .queueSend _ _
  | .shutdown _ | .setDisconnecting _ | .queueShutdown _ => isTrue trivial

/-- A message, a `shutdown` in its callback, and the end that the peer answers with. -/
def answeredShutdown : List (LifeStep Empty) :=
  [.call (.accepted 0), .poll ⟨true, false, false, false, false⟩, .handleEvent,
    .handler (.received [1]) (.accepted 0), .shutdownHere, .poll ⟨true, false, false, false, true⟩,
    .handleEvent, .handler (.received []) (.accepted 0), .removeConnectionInLoop, .call (.accepted 0)]

end Life

end ProjectsCpp.Muduo
