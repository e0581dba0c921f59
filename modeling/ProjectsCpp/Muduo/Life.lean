import ProjectsCpp.Muduo.OutputStream

/-! The life of one connection (`TcpServer.cc`, `Channel::handleEvent` and `TcpConnection.cc` of
muduo_cpp11), from `newConnection` on. The connection runs in an io loop, the server in the base loop;
with `single` they are one. Other threads call `send` and `shutdown`. The connection object is taken
to live on. -/

namespace ProjectsCpp.Muduo
open ProjectsCpp.Run

structure Revents where
  epollIn : Bool
  epollPri : Bool
  epollOut : Bool
  epollErr : Bool
  epollHup : Bool
deriving DecidableEq

inductive Handler where
  | close
  | error
  | read
  | write
deriving DecidableEq

def Revents.handlers (r : Revents) : List Handler :=
  (if r.epollHup && !r.epollIn then [.close] else []) ++ (if r.epollErr then [.error] else []) ++
    (if r.epollIn || r.epollPri then [.read] else []) ++ (if r.epollOut then [.write] else [])

def WriteResult.possible (w : WriteResult) (data : List UInt8) : Bool :=
  match w with
  | .accepted n => n ≤ data.length
  | .failed _ => true

def ReadResult.possible (r : ReadResult) (b : Buffer) : Bool :=
  match r with
  | .received data => data.length ≤ b.readMax
  | .failed => true

def Call.isOutput : Call → Bool
  | .write _ _ | .append _ | .epollCtl _ | .shutdownWrite => true
  | _ => false

namespace TcpConnection
variable {D : Type} {c c' : TcpConnection D}

/-- A step from `c` to `c'` brings out data and queues callbacks. -/
structure Works (c c' : TcpConnection D) : Prop where
  state : c'.state = c.state
  reading : c'.channel.reading = c.channel.reading
  calls : ∃ more, c'.calls = c.calls ++ more ∧ more.all Call.isOutput = true
  functors : Calls c c'

theorem Works.refl (c : TcpConnection D) : Works c c :=
  ⟨rfl, rfl, ⟨[], (List.append_nil _).symm, rfl⟩, .refl c⟩

theorem Works.trans {c'' : TcpConnection D} (first : Works c c') (second : Works c' c'') :
    Works c c'' := by
  obtain ⟨calls₁, these₁, output₁⟩ := first.calls
  obtain ⟨calls₂, these₂, output₂⟩ := second.calls
  refine ⟨second.state.trans first.state, second.reading.trans first.reading,
    ⟨calls₁ ++ calls₂, ?_, ?_⟩, first.functors.trans second.functors⟩
  · rw [these₂, these₁, List.append_assoc]
  · rw [List.all_append, output₁, output₂]
    rfl

theorem updateChannel_reading (ch : Channel) : ch.updateChannel.2.reading = ch.reading := by
  rw [Channel.updateChannel]
  split
  · rfl
  · rfl
  · split <;> rfl

theorem queueWriteComplete_reading (c : TcpConnection D) :
    c.queueWriteComplete.channel.reading = c.channel.reading := by
  rw [queueWriteComplete]
  split <;> rfl

theorem appendOutput_reading (c : TcpConnection D) (rest : List UInt8) :
    (c.appendOutput rest).channel.reading = c.channel.reading := by
  have marked : (c.checkMark rest.length).channel.reading = c.channel.reading := by
    rw [checkMark]
    split <;> rfl
  rw [appendOutput]
  split
  · rw [watchOutput]
    split
    · exact (updateChannel_reading _).trans marked
    · exact marked
  · rfl

theorem sendInLoop_reading (c : TcpConnection D) (data : List UInt8) (w : WriteResult) :
    (c.sendInLoop data w).channel.reading = c.channel.reading := by
  rw [sendInLoop]
  split
  · cases w with
    | accepted n =>
      dsimp only
      rw [appendOutput_reading]
      split
      · exact queueWriteComplete_reading _
      · rfl
    | failed errno =>
      dsimp only
      split
      · rfl
      · exact appendOutput_reading _ data
  · exact appendOutput_reading c data

theorem sendInLoop_works (c : TcpConnection D) (data : List UInt8) (w : WriteResult) :
    Works c (c.sendInLoop data w) := by
  obtain ⟨state, more, calls, kinds⟩ := c.sendInLoop_frame data w
  refine ⟨state, c.sendInLoop_reading data w, ⟨more, calls, List.all_eq_true.mpr fun a its => ?_⟩,
    c.sendInLoop_callbacks data w⟩
  rcases kinds a its with buffering | rfl
  · match a with
    | .append _ | .epollCtl _ => rfl
  · rfl

theorem shutdownInLoop_works (c : TcpConnection D) : Works c c.shutdownInLoop := by
  rw [shutdownInLoop]
  split
  · exact ⟨rfl, rfl, ⟨[.shutdownWrite], rfl, rfl⟩, .refl c⟩
  · exact .refl c

theorem handleWrite_works (c : TcpConnection D) (w : WriteResult) : Works c (c.handleWrite w) := by
  have wrote : ∀ b : Buffer, Works c ({ c with outputBuffer := b }.call
      (.write c.outputBuffer.readable w)) := fun b => ⟨rfl, rfl, ⟨[_], rfl, rfl⟩, .refl c⟩
  obtain ⟨-, same⟩ | ⟨-, -, same⟩ | ⟨-, n, rfl, -, same⟩ := handleWrite_cases c w
  · exact same.symm ▸ .refl c
  · exact same ▸ wrote c.outputBuffer
  · split at same
    · obtain ⟨state, functors, op, calls⟩ := c.drained_frame n
      have reading : (c.drained n).channel.reading = c.channel.reading := by
        rw [drained, queueWriteComplete_reading]
        exact updateChannel_reading _
      have drained : Works c (c.drained n) := ⟨state, reading, ⟨_, calls, rfl⟩, functors⟩
      rw [same]
      show Works c (if (c.drained n).state = .kDisconnecting then (c.drained n).shutdownInLoop
        else c.drained n)
      split
      · exact drained.trans (shutdownInLoop_works _)
      · exact drained
    · exact same ▸ wrote _

end TcpConnection

/-- `active` is the channel in `activeChannels_`, `event` the last event that it began to handle and
`handlers` the rest of it. A send of another thread that has passed its test stands in `sending`, a
`shutdown` in `shutting` with whether it has set the state. `listed` is the connection in
`connections_`, `removing` how often `removeConnectionInLoop` stands in the queue of the base loop. -/
structure Life (T : Type) where
  conn : TcpConnection (List UInt8)
  active : Option Revents
  event : Revents
  handlers : List Handler
  sending : List (T × List UInt8)
  shutting : List (T × Bool)
  single : Bool
  server : Bool
  listed : Bool
  removing : Nat
  destroyed : Bool

inductive LifeStep (T : Type) where
  | poll (r : Revents)
  | handleEvent
  | handler (r : ReadResult) (w : WriteResult)
  | call (w : WriteResult)
  | sendHere (data : List UInt8) (w : WriteResult)
  | shutdownHere
  | send (t : T) (data : List UInt8)
  | queueSend (t : T) (data : List UInt8)
  | shutdown (t : T)
  | setDisconnecting (t : T)
  | queueShutdown (t : T)
  | destroyServer
  | removeConnectionInLoop
deriving DecidableEq

namespace Life
variable {T : Type}

/-- `TcpServer::removeConnection`. The source reads freed memory where the server is gone; the model
does nothing there. -/
def removeConnection (s : Life T) : Life T :=
  if s.server then
    if s.single then
      { s with listed := false, conn := s.conn.queueInLoop .connectDestroyed }
    else { s with removing := s.removing + 1 }
  else s

def destroyServer (s : Life T) : Life T :=
  if s.listed then
    if s.single then
      { s with server := false, listed := false, conn := s.conn.connectDestroyed, destroyed := true }
    else { s with server := false, listed := false, conn := s.conn.queueInLoop .connectDestroyed }
  else { s with server := false }

def runHandler (s : Life T) (r : ReadResult) (w : WriteResult) : Handler → Option (Life T)
  | .close => some { s with conn := s.conn.handleClose }.removeConnection
  | .error => some s
  | .read =>
    if r.possible s.conn.inputBuffer then
      let s := { s with conn := s.conn.handleRead r }
      some (if r = .received [] then s.removeConnection else s)
    else none
  | .write =>
    if w.possible s.conn.outputBuffer.readable then some { s with conn := s.conn.handleWrite w }
    else none

section Step
variable [DecidableEq T]

local instance sending_lawful : LawfulBEq (T × List UInt8) := inferInstance

def idle (s : Life T) (t : T) : Prop := (∀ r ∈ s.sending, r.1 ≠ t) ∧ ∀ r ∈ s.shutting, r.1 ≠ t

instance (s : Life T) (t : T) : Decidable (s.idle t) := inferInstanceAs (Decidable (_ ∧ _))

def step (s : Life T) : LifeStep T → Option (Life T)
  | .poll r =>
    if s.active = none ∧ s.handlers = [] ∧ s.conn.channel.index = .kAdded then
      some { s with active := some r }
    else none
  | .handleEvent =>
    s.active.map fun r => { s with active := none, event := r, handlers := r.handlers }
  | .handler r w =>
    match s.handlers with
    | h :: rest => { s with handlers := rest }.runHandler r w h
    | [] => none
  | .call w =>
    match s.conn.functors with
    | f :: rest =>
      if s.active = none ∧ s.handlers = [] ∧ ∀ data ∈ f.data?, w.possible data then
        some { s with
          conn := (s.conn.withFunctors rest).runFunctor w id f
          destroyed := s.destroyed || f = .connectDestroyed }
      else none
    | [] => none
  | .sendHere data w => if w.possible data then some { s with conn := s.conn.send data w } else none
  | .shutdownHere => some { s with conn := s.conn.shutdown }
  | .send t data =>
    if s.idle t then
      some (if s.conn.state = .kConnected then { s with sending := (t, data) :: s.sending } else s)
    else none
  | .queueSend t data =>
    if (t, data) ∈ s.sending then
      some { s with
        conn := s.conn.queueInLoop (.sendInLoop data)
        sending := s.sending.erase (t, data) }
    else none
  | .shutdown t =>
    if s.idle t then
      some (if s.conn.state = .kConnected then { s with shutting := (t, false) :: s.shutting } else s)
    else none
  | .setDisconnecting t =>
    if (t, false) ∈ s.shutting then
      some { s with
        conn := s.conn.setState .kDisconnecting
        shutting := (t, true) :: s.shutting.erase (t, false) }
    else none
  | .queueShutdown t =>
    if (t, true) ∈ s.shutting then
      some { s with
        conn := s.conn.queueInLoop .shutdownInLoop
        shutting := s.shutting.erase (t, true) }
    else none
  | .destroyServer =>
    if s.server ∧ (s.single → s.handlers = []) then some s.destroyServer else none
  | .removeConnectionInLoop =>
    if 0 < s.removing then
      some { s with
        removing := s.removing - 1
        listed := false
        conn := s.conn.queueInLoop .connectDestroyed }
    else none

end Step

/-- `newConnection`, in the loop of the connection or in another one. -/
def begin (writeComplete highWater : Bool) (mark : Nat) (single : Bool) : Life T :=
  let c := TcpConnection.new writeComplete highWater mark
  ⟨if single then c.connectEstablished else c.queueInLoop .connectEstablished, none,
    ⟨false, false, false, false, false⟩, [], [], [], single, true, true, 0, false⟩

def machine (T : Type) [DecidableEq T] : Machine (Life T) (LifeStep T) where
  start s := ∃ writeComplete highWater mark single, s = begin writeComplete highWater mark single
  step := step

def closes (s : Life T) (r : ReadResult) : Prop :=
  s.handlers.head? = some .close ∨ s.handlers.head? = some .read ∧ r = .received []

instance (s : Life T) (r : ReadResult) : Decidable (s.closes r) :=
  inferInstanceAs (Decidable (_ ∨ _ ∧ _))

inductive Effect (s : Life T) (a : LifeStep T) (s' : Life T) : Prop where
  | keep (conn : s'.conn = s.conn) (destroyed : s'.destroyed = s.destroyed)
  | queue (f : Functor (List UInt8)) (other : f ≠ .connectEstablished)
      (conn : s'.conn = s.conn.queueInLoop f) (destroyed : s'.destroyed = s.destroyed)
  | take (w : WriteResult) (f : Functor (List UInt8)) (rest : List (Functor (List UInt8)))
      (step : a = .call w) (idle : s.active = none ∧ s.handlers = [])
      (first : s.conn.functors = f :: rest)
      (conn : s'.conn = (s.conn.withFunctors rest).runFunctor w id f)
      (destroyed : s'.destroyed = (s.destroyed || f = .connectDestroyed))
  | send (data : List UInt8) (w : WriteResult) (conn : s'.conn = s.conn.send data w)
      (destroyed : s'.destroyed = s.destroyed)
  | shutdown (conn : s'.conn = s.conn.shutdown) (destroyed : s'.destroyed = s.destroyed)
  | set (conn : s'.conn = s.conn.setState .kDisconnecting) (destroyed : s'.destroyed = s.destroyed)
  | close (r : ReadResult) (w : WriteResult) (step : a = .handler r w) (closes : s.closes r)
      (conn : s'.conn = s.conn.handleClose ∨
        s'.conn = s.conn.handleClose.queueInLoop .connectDestroyed)
      (destroyed : s'.destroyed = s.destroyed)
  | read (b : UInt8) (data : List UInt8) (w : WriteResult)
      (step : a = .handler (.received (b :: data)) w) (head : s.handlers.head? = some .read)
      (conn : s'.conn = { s.conn with inputBuffer := s.conn.inputBuffer.readFd (b :: data) }.call
        .messageCallback)
      (destroyed : s'.destroyed = s.destroyed)
  | write (r : ReadResult) (w : WriteResult) (step : a = .handler r w)
      (head : s.handlers.head? = some .write) (fits : w.possible s.conn.outputBuffer.readable = true)
      (conn : s'.conn = s.conn.handleWrite w) (destroyed : s'.destroyed = s.destroyed)
  | destroy (step : a = .destroyServer) (here : s.single = true ∧ s.listed = true)
      (idle : s.handlers = [])
      (conn : s'.conn = s.conn.connectDestroyed) (destroyed : s'.destroyed = true)

variable {s s' : Life T} {a : LifeStep T}

theorem removeConnection_spec (s : Life T) : s.removeConnection.destroyed = s.destroyed ∧
    (s.removeConnection.conn = s.conn ∨
      s.removeConnection.conn = s.conn.queueInLoop .connectDestroyed) := by
  rw [removeConnection]
  split
  · split
    · exact ⟨rfl, .inr rfl⟩
    · exact ⟨rfl, .inl rfl⟩
  · exact ⟨rfl, .inl rfl⟩

theorem step_effect [DecidableEq T] (next : step s a = some s') : Effect s a s' := by
  cases a with
  | poll r =>
    obtain ⟨-, same⟩ := Option.ite_none_right_eq_some.mp next
    exact Option.some.inj same ▸ .keep rfl rfl
  | handleEvent =>
    obtain ⟨r, -, rfl⟩ := Option.map_eq_some_iff.mp next
    exact .keep rfl rfl
  | handler r w =>
    simp only [step] at next
    split at next
    · rename_i h rest first
      have head : s.handlers.head? = some h := by rw [first, List.head?_cons]
      cases h with
      | close =>
        obtain rfl := Option.some.inj next
        obtain ⟨destroyed, conn⟩ := removeConnection_spec
          { s with handlers := rest, conn := s.conn.handleClose }
        exact .close r w rfl (.inl head) conn destroyed
      | error =>
        obtain rfl := Option.some.inj next
        exact .keep rfl rfl
      | read =>
        obtain ⟨-, same⟩ := Option.ite_none_right_eq_some.mp next
        obtain rfl := Option.some.inj same
        match r with
        | .received [] =>
          obtain ⟨destroyed, conn⟩ := removeConnection_spec
            { s with handlers := rest, conn := s.conn.handleClose }
          exact .close _ w rfl (.inr ⟨head, rfl⟩) conn destroyed
        | .received (b :: data) => exact .read b data w rfl head rfl rfl
        | .failed => exact .keep rfl rfl
      | write =>
        obtain ⟨fits, same⟩ := Option.ite_none_right_eq_some.mp next
        obtain rfl := Option.some.inj same
        exact .write r w rfl head fits rfl rfl
    · cases next
  | call w =>
    simp only [step] at next
    split at next
    · rename_i f rest first
      obtain ⟨⟨active, handlers, -⟩, same⟩ := Option.ite_none_right_eq_some.mp next
      obtain rfl := Option.some.inj same
      exact .take w f rest rfl ⟨active, handlers⟩ first rfl rfl
    · cases next
  | sendHere data w =>
    obtain ⟨-, same⟩ := Option.ite_none_right_eq_some.mp next
    exact Option.some.inj same ▸ .send data w rfl rfl
  | shutdownHere => exact Option.some.inj next ▸ .shutdown rfl rfl
  | send t data | shutdown t =>
    obtain ⟨-, same⟩ := Option.ite_none_right_eq_some.mp next
    obtain rfl := Option.some.inj same
    split
    · exact .keep rfl rfl
    · exact .keep rfl rfl
  | queueSend t data =>
    obtain ⟨-, same⟩ := Option.ite_none_right_eq_some.mp next
    exact Option.some.inj same ▸ .queue (.sendInLoop data) nofun rfl rfl
  | setDisconnecting t =>
    obtain ⟨-, same⟩ := Option.ite_none_right_eq_some.mp next
    exact Option.some.inj same ▸ .set rfl rfl
  | queueShutdown t =>
    obtain ⟨-, same⟩ := Option.ite_none_right_eq_some.mp next
    exact Option.some.inj same ▸ .queue .shutdownInLoop nofun rfl rfl
  | destroyServer =>
    obtain ⟨⟨-, between⟩, same⟩ := Option.ite_none_right_eq_some.mp next
    obtain rfl := Option.some.inj same
    rw [destroyServer]
    split
    · rename_i listed
      split
      · rename_i single
        exact .destroy rfl ⟨single, listed⟩ (between single) rfl rfl
      · exact .queue .connectDestroyed nofun rfl rfl
    · exact .keep rfl rfl
  | removeConnectionInLoop =>
    obtain ⟨-, same⟩ := Option.ite_none_right_eq_some.mp next
    exact Option.some.inj same ▸ .queue .connectDestroyed nofun rfl rfl

/-- `connectEstablished` waits in the queue, and nothing else was done. -/
structure Opening (s : Life T) : Prop where
  state : s.conn.state = .kConnecting
  channel : s.conn.channel = .new
  calls : s.conn.calls = []
  active : s.active = none
  handlers : s.handlers = []
  sending : s.sending = []
  shutting : s.shutting = []
  single : s.single = false
  destroyed : s.destroyed = false
  functors : ∃ rest, s.conn.functors = .connectEstablished :: rest ∧ .connectEstablished ∉ rest

theorem Opening.queueInLoop (opening : s.Opening) {f : Functor (List UInt8)}
    (other : f ≠ .connectEstablished) (server listed : Bool) (removing : Nat) :
    Opening { s with
      conn := s.conn.queueInLoop f, server := server, listed := listed, removing := removing } := by
  obtain ⟨rest, functors, absent⟩ := opening.functors
  refine ⟨opening.state, opening.channel, opening.calls, opening.active, opening.handlers,
    opening.sending, opening.shutting, opening.single, opening.destroyed, rest ++ [f], ?_, ?_⟩
  · show s.conn.functors ++ [f] = _
    rw [functors, List.cons_append]
  · exact fun its => (List.mem_append.mp its).elim absent fun new =>
      other (List.mem_singleton.mp new).symm

theorem Opening.off (opening : s.Opening) : s.conn.state ≠ .kConnected :=
  fun on => nomatch opening.state.symm.trans on

theorem Opening.step [DecidableEq T] (opening : s.Opening) (next : step s a = some s') :
    s'.Opening ∨ s'.destroyed = false ∧ ∃ rest, .connectEstablished ∉ rest ∧
      s'.conn = (s.conn.withFunctors rest).connectEstablished := by
  cases a with
  | poll r =>
    obtain ⟨⟨-, -, added⟩, -⟩ := Option.ite_none_right_eq_some.mp next
    rw [opening.channel] at added
    cases added
  | handleEvent =>
    obtain ⟨r, active, -⟩ := Option.map_eq_some_iff.mp next
    exact nomatch opening.active.symm.trans active
  | handler r w =>
    simp only [Life.step, opening.handlers] at next
    cases next
  | call w =>
    obtain ⟨rest, functors, absent⟩ := opening.functors
    simp only [Life.step, functors] at next
    obtain ⟨-, same⟩ := Option.ite_none_right_eq_some.mp next
    obtain rfl := Option.some.inj same
    refine .inr ⟨?_, rest, absent, rfl⟩
    show (s.destroyed || _) = false
    rw [opening.destroyed]
    rfl
  | sendHere data w =>
    obtain ⟨-, same⟩ := Option.ite_none_right_eq_some.mp next
    obtain rfl := Option.some.inj same
    have same : s.conn.send data w = s.conn := if_neg opening.off
    rw [same]
    exact .inl opening
  | shutdownHere =>
    obtain rfl := Option.some.inj next
    have same : s.conn.shutdown = s.conn := if_neg opening.off
    rw [same]
    exact .inl opening
  | send t data | shutdown t =>
    obtain ⟨-, same⟩ := Option.ite_none_right_eq_some.mp next
    obtain rfl := Option.some.inj same
    rw [if_neg opening.off]
    exact .inl opening
  | queueSend t data =>
    obtain ⟨its, -⟩ := Option.ite_none_right_eq_some.mp next
    rw [opening.sending] at its
    cases its
  | setDisconnecting t | queueShutdown t =>
    obtain ⟨its, -⟩ := Option.ite_none_right_eq_some.mp next
    rw [opening.shutting] at its
    cases its
  | destroyServer =>
    obtain ⟨-, same⟩ := Option.ite_none_right_eq_some.mp next
    obtain rfl := Option.some.inj same
    have apart : ¬ s.single = true := Bool.eq_false_iff.mp opening.single
    rw [Life.destroyServer]
    split
    · exact .inl (opening.queueInLoop (f := .connectDestroyed) nofun _ _ _)
    · exact .inl { opening with }
  | removeConnectionInLoop =>
    obtain ⟨-, same⟩ := Option.ite_none_right_eq_some.mp next
    exact .inl (Option.some.inj same ▸ opening.queueInLoop (f := .connectDestroyed) nofun _ _ _)

end Life

end ProjectsCpp.Muduo
