import ProjectsCpp.Lib.Run
import Mathlib.Data.List.Basic
import Mathlib.Logic.Basic

/-! The life of one connection of a server (`TcpConnection.cc`, `Channel.cc`, `TcpServer.cc`), in
the loop of the connection, which with `single` is the loop of the server. What the user's callbacks
call, what the poller answers and what `read` and `write` do are arguments of the steps. A failing
assertion gives `none`, and so does a call of a destroyed server. -/

namespace ProjectsCpp.MuduoNet
open ProjectsCpp.Run

inductive StateE where
  | kDisconnected | kConnecting | kConnected | kDisconnecting
deriving DecidableEq

/-- `POLLIN` and `POLLPRI` are asked for together, the events come one by one. -/
structure Revents where
  pollIn : Bool
  pollPri : Bool
  pollOut : Bool
  pollErr : Bool
  pollHup : Bool
deriving DecidableEq

inductive Functor where
  | forceCloseInLoop
  | connectDestroyed
deriving DecidableEq

inductive Written where
  | wrote (n : Nat)
  | failed (fault : Bool)
deriving DecidableEq

inductive Call where
  | send (len : Nat) (result : Written)
  | shutdown
  | forceClose
  | startRead
  | stopRead
deriving DecidableEq

inductive Read where
  | data (calls : List Call)
  | eof
  | error
deriving DecidableEq

def Read.calls : Read → List Call
  | .data calls => calls
  | _ => []

/-- `isReading` and `isWriting` are the interest of the channel and `registered` tells whether the
poller has it. `active` is the channel in `activeChannels_` while the loop handles events, with
`revents` as long as its own event waits. `server` is the server that lives, `inServer` the entry of
`connections_`, and `removing` how often `removeConnectionInLoop` waits in the loop of the server.
`downs` counts the reports of down, and `again` that the channel went to the poller after one. -/
structure TcpConnection where
  state : StateE
  reading : Bool
  isReading : Bool
  isWriting : Bool
  registered : Bool
  outputBuffer : Nat
  active : Bool
  revents : Option Revents
  functors : List Functor
  single : Bool
  server : Bool
  inServer : Bool
  removing : Nat
  downs : Nat
  again : Bool

namespace TcpConnection

def new (single : Bool) : TcpConnection where
  state := .kConnecting
  reading := true
  isReading := false
  isWriting := false
  registered := false
  outputBuffer := 0
  active := false
  revents := none
  functors := []
  single := single
  server := true
  inServer := true
  removing := 0
  downs := 0
  again := false

def update (c : TcpConnection) (isReading isWriting : Bool) : TcpConnection :=
  { c with
    isReading := isReading
    isWriting := isWriting
    registered := true
    again := c.again || 0 < c.downs }

/-- `Channel::remove`, and what `removeChannel` of the loop and of a poller assert. It does not run
in a callback of the channel itself. -/
def remove (c : TcpConnection) : Option TcpConnection :=
  if c.isReading = false ∧ c.isWriting = false ∧ c.active = false ∧ c.registered then
    some { c with registered := false }
  else none

def buffer (c : TcpConnection) (remaining : Nat) : TcpConnection :=
  if remaining = 0 then c
  else
    let c := { c with outputBuffer := c.outputBuffer + remaining }
    if c.isWriting then c else c.update c.isReading true

def sendInLoop (c : TcpConnection) (len : Nat) (result : Written) : TcpConnection :=
  if c.state = .kDisconnected then c
  else if c.isWriting = false ∧ c.outputBuffer = 0 then
    match result with
    | .wrote n => c.buffer (len - n)
    | .failed fault => if fault then c else c.buffer len
  else c.buffer len

def startReadInLoop (c : TcpConnection) : TcpConnection :=
  if c.reading = false ∨ c.isReading = false then
    { c.update true c.isWriting with reading := true }
  else c

def stopReadInLoop (c : TcpConnection) : TcpConnection :=
  if c.reading ∨ c.isReading then
    { c.update false c.isWriting with reading := false }
  else c

def call (c : TcpConnection) : Call → TcpConnection
  | .send len result => if c.state = .kConnected then c.sendInLoop len result else c
  | .shutdown => if c.state = .kConnected then { c with state := .kDisconnecting } else c
  | .forceClose =>
    if c.state = .kConnected ∨ c.state = .kDisconnecting then
      { c with state := .kDisconnecting, functors := c.functors ++ [.forceCloseInLoop] }
    else c
  | .startRead => c.startReadInLoop
  | .stopRead => c.stopReadInLoop

def calls (c : TcpConnection) (calls : List Call) : TcpConnection := calls.foldl call c

/-- `setState(kDisconnected)`, `disableAll` and `connectionCallback_`. -/
def down (c : TcpConnection) (closing : List Call) : TcpConnection :=
  calls { { c with state := .kDisconnected }.update false false with downs := c.downs + 1 } closing

/-- With the assertion `n == 1`. -/
def removeConnectionInLoop (c : TcpConnection) : Option TcpConnection :=
  if c.server ∧ c.inServer then
    some { c with inServer := false, functors := c.functors ++ [.connectDestroyed] }
  else none

/-- `TcpServer::removeConnection`. -/
def closeCallback (c : TcpConnection) : Option TcpConnection :=
  if c.server = false then none
  else if c.single then c.removeConnectionInLoop
  else some { c with removing := c.removing + 1 }

def handleClose (c : TcpConnection) (closing : List Call) : Option TcpConnection :=
  if c.state = .kConnected ∨ c.state = .kDisconnecting then (c.down closing).closeCallback
  else none

def handleRead (c : TcpConnection) (closing : List Call) : Read → Option TcpConnection
  | .data calls => some (c.calls calls)
  | .eof => c.handleClose closing
  | .error => some c

def handleWrite (c : TcpConnection) (written : Written) : TcpConnection :=
  if c.isWriting then
    match written with
    | .wrote n =>
      let c := { c with outputBuffer := c.outputBuffer - n }
      if 0 < n ∧ c.outputBuffer = 0 then c.update c.isReading false else c
    | .failed _ => c
  else c

def handleEvent (c : TcpConnection) (r : Revents) (closing : List Call) (read : Read)
    (written : Written) : Option TcpConnection :=
  (if r.pollHup ∧ r.pollIn = false then c.handleClose closing else some c).bind fun c =>
    (if r.pollIn ∨ r.pollPri then c.handleRead closing read else some c).map fun c =>
      if r.pollOut then c.handleWrite written else c

def connectEstablished (c : TcpConnection) (calls : List Call) : Option TcpConnection :=
  if c.state = .kConnecting then
    some (TcpConnection.calls ({ c with state := .kConnected }.update true c.isWriting) calls)
  else none

def connectDestroyed (c : TcpConnection) (closing : List Call) : Option TcpConnection :=
  (if c.state = .kConnected then c.down closing else c).remove

def forceCloseInLoop (c : TcpConnection) (closing : List Call) : Option TcpConnection :=
  if c.state = .kConnected ∨ c.state = .kDisconnecting then c.handleClose closing else some c

def run (c : TcpConnection) (closing : List Call) : Functor → Option TcpConnection
  | .forceCloseInLoop => c.forceCloseInLoop closing
  | .connectDestroyed => c.connectDestroyed closing

/-- `TcpServer::~TcpServer`, in a callback of another channel, a timer or a queued functor. -/
def destroyServer (c : TcpConnection) (closing : List Call) : Option TcpConnection :=
  let gone := { c with server := false, inServer := false }
  if c.inServer = false then some gone
  else if c.single then gone.connectDestroyed closing
  else some { gone with functors := c.functors ++ [.connectDestroyed] }

end TcpConnection

/-- `calls` is for callbacks of other channels, of timers and of queued functors. With `endEvents`
the loop has handled the events of all channels. -/
inductive LifeStep where
  | connectEstablished (calls : List Call)
  | poll (r : Revents)
  | handleEvent (closing : List Call) (read : Read) (written : Written)
  | endEvents
  | calls (calls : List Call)
  | run (f : Functor) (closing : List Call)
  | removeConnectionInLoop
  | destroyServer (closing : List Call)

namespace TcpConnection

/-- `poll(2)` tells of what it was asked for, of errors and of hang-ups. -/
def Polled (c : TcpConnection) (r : Revents) : Prop :=
  c.registered ∧ (c.isReading ∨ c.isWriting) ∧ c.active = false ∧
    ((r.pollIn ∨ r.pollPri) → c.isReading) ∧ (r.pollOut → c.isWriting)

def Enabled (c : TcpConnection) : LifeStep → Prop
  | .connectEstablished _ => c.state = .kConnecting
  | .poll r => c.Polled r
  | .handleEvent _ _ _ => c.revents ≠ none
  | .endEvents => c.active ∧ c.revents = none
  | .calls _ => c.state ≠ .kConnecting
  | .run f _ => c.state ≠ .kConnecting ∧ c.active = false ∧ f ∈ c.functors
  | .removeConnectionInLoop => 0 < c.removing
  | .destroyServer _ => c.server ∧ (c.single → c.state ≠ .kConnecting)

instance (c : TcpConnection) (r : Revents) : Decidable (c.Polled r) := by
  unfold Polled
  infer_instance

instance (c : TcpConnection) : (e : LifeStep) → Decidable (c.Enabled e)
  | .connectEstablished _ => inferInstanceAs (Decidable (c.state = .kConnecting))
  | .poll r => inferInstanceAs (Decidable (c.Polled r))
  | .handleEvent _ _ _ => inferInstanceAs (Decidable (c.revents ≠ none))
  | .endEvents => inferInstanceAs (Decidable (c.active ∧ c.revents = none))
  | .calls _ => inferInstanceAs (Decidable (c.state ≠ .kConnecting))
  | .run f _ =>
    inferInstanceAs (Decidable (c.state ≠ .kConnecting ∧ c.active = false ∧ f ∈ c.functors))
  | .removeConnectionInLoop => inferInstanceAs (Decidable (0 < c.removing))
  | .destroyServer _ => inferInstanceAs (Decidable (c.server ∧ (c.single → c.state ≠ .kConnecting)))

def take (c : TcpConnection) : LifeStep → Option TcpConnection
  | .connectEstablished calls => c.connectEstablished calls
  | .poll r => some { c with active := true, revents := some r }
  | .handleEvent closing read written =>
    c.revents.bind fun r => handleEvent { c with revents := none } r closing read written
  | .endEvents => some { c with active := false }
  | .calls calls => some (c.calls calls)
  | .run f closing => TcpConnection.run { c with functors := c.functors.erase f } closing f
  | .removeConnectionInLoop => removeConnectionInLoop { c with removing := c.removing - 1 }
  | .destroyServer closing => c.destroyServer closing

def step (c : TcpConnection) (e : LifeStep) : Option TcpConnection :=
  if c.Enabled e then c.take e else none

def machine : Machine TcpConnection LifeStep where
  start c := ∃ single, c = new single
  step := step

def Quiet (c : TcpConnection) (calls : List Call) : Prop :=
  Call.startRead ∉ calls ∧ (c.reading → Call.stopRead ∉ calls)

def Single (c : TcpConnection) (closing : List Call) (read : Read) (r : Revents) : Prop :=
  if r.pollHup ∧ r.pollIn = false then
    c.server ∧ c.Quiet closing ∧ (r.pollPri → read ≠ .eof ∧ c.Quiet read.calls)
  else (r.pollIn ∨ r.pollPri) → read = .eof → c.server ∧ c.Quiet closing

/-- The down report and what comes after it keep off the channel, an event ends the connection
once, and `connectDestroyed` does not come in `kDisconnecting`. The destructor of the server comes
neither before a `removeConnectionInLoop` that waits nor, where it runs `connectDestroyed` itself,
while the loop has the channel in `activeChannels_`. -/
def Careful (c : TcpConnection) : LifeStep → Prop
  | .handleEvent closing read _ => ∀ r ∈ c.revents, c.Single closing read r
  | .calls calls => c.state = .kDisconnected → c.Quiet calls
  | .run .forceCloseInLoop closing =>
    c.state ≠ .kDisconnected → c.server ∧ c.Quiet closing
  | .run .connectDestroyed closing =>
    c.state ≠ .kDisconnecting ∧ (c.state = .kConnected → c.Quiet closing)
  | .destroyServer closing => c.removing = 0 ∧ (c.single ∧ c.inServer → c.active = false ∧
      c.state ≠ .kDisconnecting ∧ (c.state = .kConnected → c.Quiet closing))
  | _ => True

instance (c : TcpConnection) (calls : List Call) : Decidable (c.Quiet calls) := by
  unfold Quiet
  infer_instance

instance (c : TcpConnection) (closing : List Call) (read : Read) (r : Revents) :
    Decidable (c.Single closing read r) := by
  unfold Single
  infer_instance

instance (c : TcpConnection) : (e : LifeStep) → Decidable (c.Careful e)
  | .handleEvent closing read _ =>
    inferInstanceAs (Decidable (∀ r ∈ c.revents, c.Single closing read r))
  | .calls calls => inferInstanceAs (Decidable (c.state = .kDisconnected → c.Quiet calls))
  | .run .forceCloseInLoop closing =>
    inferInstanceAs (Decidable (c.state ≠ .kDisconnected → c.server ∧ c.Quiet closing))
  | .run .connectDestroyed closing => inferInstanceAs
    (Decidable (c.state ≠ .kDisconnecting ∧ (c.state = .kConnected → c.Quiet closing)))
  | .destroyServer closing => inferInstanceAs (Decidable (c.removing = 0 ∧ (c.single ∧ c.inServer →
      c.active = false ∧ c.state ≠ .kDisconnecting ∧ (c.state = .kConnected → c.Quiet closing))))
  | .connectEstablished _ | .poll _ | .endEvents | .removeConnectionInLoop =>
    inferInstanceAs (Decidable True)

/-- `dtor` has the assertions of `~TcpConnection` and `~Channel`, for when the server, the queues and
the event loop hold the connection no more. -/
structure Good (c : TcpConnection) : Prop where
  once : c.downs = if c.state = .kDisconnected then 1 else 0
  registered : c.again = false
  dtor : c.inServer = false → c.removing = 0 → c.functors = [] → c.revents = none →
    c.state = .kDisconnected ∧ c.registered = false

/-! ### A connection that is up -/

/-- An event waits only while the loop handles events. -/
structure Open (c : TcpConnection) : Prop where
  state : c.state = .kConnected ∨ c.state = .kDisconnecting
  registered : c.registered = true
  polled : c.active = false → c.revents = none
  downs : c.downs = 0
  again : c.again = false
  removing : c.removing = 0
  entry : c.inServer = c.server
  alone : c.single = true → c.server = true
  queued : c.functors.count .connectDestroyed = if c.server then 0 else 1

/-- After the report of down; registered as long as `connectDestroyed` is to come. -/
structure Closed (c : TcpConnection) : Prop where
  state : c.state = .kDisconnected
  isReading : c.isReading = false
  isWriting : c.isWriting = false
  revents : c.revents = none
  downs : c.downs = 1
  again : c.again = false
  entry : c.inServer = true ↔ 0 < c.removing
  server : 0 < c.removing → c.server = true
  queued : c.functors.count .connectDestroyed + c.removing = if c.registered then 1 else 0

/-- Before `connectEstablished`. -/
structure Fresh (c : TcpConnection) : Prop where
  state : c.state = .kConnecting
  registered : c.registered = false
  active : c.active = false
  revents : c.revents = none
  downs : c.downs = 0
  again : c.again = false
  removing : c.removing = 0
  entry : c.inServer = c.server
  alone : c.single = true → c.server = true
  queued : c.functors.count .connectDestroyed = if c.server then 0 else 1

variable {c c' : TcpConnection}

theorem Open.update (up : Open c) (isReading isWriting : Bool) :
    Open (c.update isReading isWriting) where
  state := up.state
  registered := rfl
  polled := up.polled
  downs := up.downs
  again := by
    rw [TcpConnection.update, up.again, up.downs]
    rfl
  removing := up.removing
  entry := up.entry
  alone := up.alone
  queued := up.queued

theorem Open.outputBuffer (up : Open c) (outputBuffer : Nat) :
    Open { c with outputBuffer := outputBuffer } := { up with }

theorem Open.buffer (up : Open c) (remaining : Nat) : Open (c.buffer remaining) := by
  rw [TcpConnection.buffer]
  split
  · exact up
  · dsimp only
    split
    · exact up.outputBuffer _
    · exact (up.outputBuffer _).update _ _

theorem Open.sendInLoop (up : Open c) (len : Nat) (result : Written) :
    Open (c.sendInLoop len result) := by
  unfold TcpConnection.sendInLoop
  split
  · exact up
  · split
    · cases result with
      | wrote n => exact up.buffer _
      | failed fault =>
        dsimp only
        split
        · exact up
        · exact up.buffer _
    · exact up.buffer _

theorem Open.call (up : Open c) (x : Call) : Open (c.call x) := by
  cases x with
  | send len result =>
    rw [TcpConnection.call]
    split
    · exact up.sendInLoop len result
    · exact up
  | shutdown =>
    rw [TcpConnection.call]
    split
    · exact { up with state := .inr rfl }
    · exact up
  | forceClose =>
    rw [TcpConnection.call, if_pos up.state]
    have queued : (c.functors ++ [Functor.forceCloseInLoop]).count Functor.connectDestroyed =
        c.functors.count .connectDestroyed := List.count_append.trans (Nat.add_zero _)
    exact { up with state := .inr rfl, queued := queued.trans up.queued }
  | startRead =>
    rw [TcpConnection.call, startReadInLoop]
    split
    · exact { up.update true c.isWriting with }
    · exact up
  | stopRead =>
    rw [TcpConnection.call, stopReadInLoop]
    split
    · exact { up.update false c.isWriting with }
    · exact up

theorem Open.calls (up : Open c) (calls : List Call) : Open (c.calls calls) := by
  induction calls generalizing c with
  | nil => exact up
  | cons x calls ih => exact ih (up.call x)

theorem Open.handleWrite (up : Open c) (written : Written) : Open (c.handleWrite written) := by
  unfold TcpConnection.handleWrite
  split
  · cases written with
    | wrote n =>
      dsimp only
      split
      · exact (up.outputBuffer _).update _ _
      · exact up.outputBuffer _
    | failed fault => exact up
  · exact up

/-! ### The report of down -/

theorem Quiet.call {x : Call} {calls : List Call} (quiet : c.Quiet (x :: calls))
    (state : c.state = .kDisconnected) (isReading : c.isReading = false) : c.call x = c := by
  cases x with
  | send len result =>
    refine if_neg fun up => ?_
    rw [state] at up
    cases up
  | shutdown =>
    refine if_neg fun up => ?_
    rw [state] at up
    cases up
  | forceClose =>
    refine if_neg fun up => ?_
    rw [state] at up
    rcases up with up | up <;> cases up
  | startRead => exact absurd List.mem_cons_self quiet.1
  | stopRead =>
    refine if_neg fun reading => ?_
    rw [isReading] at reading
    exact quiet.2 (reading.resolve_right Bool.false_ne_true) List.mem_cons_self

theorem Quiet.calls {calls : List Call} (quiet : c.Quiet calls) (state : c.state = .kDisconnected)
    (isReading : c.isReading = false) : c.calls calls = c := by
  induction calls with
  | nil => rfl
  | cons x calls ih =>
    have rest : c.Quiet calls := ⟨fun inside => quiet.1 (List.mem_cons_of_mem _ inside),
      fun reading inside => quiet.2 reading (List.mem_cons_of_mem _ inside)⟩
    rw [TcpConnection.calls, List.foldl_cons, quiet.call state isReading]
    exact ih rest

def downed (c : TcpConnection) : TcpConnection :=
  { c.update false false with state := .kDisconnected, downs := c.downs + 1 }

theorem Quiet.down {closing : List Call} (quiet : c.Quiet closing) : c.down closing = c.downed :=
  Quiet.calls (c := c.downed) quiet rfl rfl

/-- What is left of a connection that has reported down. -/
theorem Open.gone (up : Open c) {registered server inServer : Bool} {removing : Nat}
    {functors : List Functor} (revents : c.revents = none) (entry : inServer = true ↔ 0 < removing)
    (alive : 0 < removing → server = true)
    (queued : functors.count .connectDestroyed + removing = if registered then 1 else 0) :
    Closed { c.downed with
      registered := registered
      functors := functors
      server := server
      inServer := inServer
      removing := removing } where
  state := rfl
  isReading := rfl
  isWriting := rfl
  revents := revents
  downs := congrArg (· + 1) up.downs
  again := (up.update false false).again
  entry := entry
  server := alive
  queued := queued

theorem Open.unqueued (up : Open c) (server : c.server = true) :
    c.functors.count .connectDestroyed = 0 := by
  rw [up.queued, if_pos server]

theorem Open.noEntry (up : Open c) : false = true ↔ 0 < c.removing := by
  rw [up.removing]
  decide

theorem Open.handleClose (up : Open c) {closing : List Call} (quiet : c.Quiet closing)
    (server : c.server = true) (revents : c.revents = none) :
    ∃ c', c.handleClose closing = some c' ∧ Closed c' ∧ c'.reading = c.reading := by
  have alive : ¬c.server = false := by rw [server]; decide
  have entry : c.inServer = true := up.entry.trans server
  have none := up.unqueued server
  by_cases single : c.single = true
  · have queued : (c.functors ++ [Functor.connectDestroyed]).count .connectDestroyed + c.removing =
        1 := by
      rw [List.count_append, none, up.removing]
      rfl
    refine ⟨{ c.downed with inServer := false, functors := c.functors ++ [.connectDestroyed] }, ?_,
      up.gone revents up.noEntry (fun _ => server) queued, rfl⟩
    rw [TcpConnection.handleClose, if_pos up.state, quiet.down]
    exact (if_neg alive).trans ((if_pos single).trans (if_pos ⟨server, entry⟩))
  · have queued : c.functors.count .connectDestroyed + (c.removing + 1) = 1 := by
      rw [none, up.removing]
    refine ⟨{ c.downed with removing := c.removing + 1 }, ?_,
      up.gone revents ⟨fun _ => Nat.succ_pos _, fun _ => entry⟩ (fun _ => server) queued, rfl⟩
    rw [TcpConnection.handleClose, if_pos up.state, quiet.down]
    exact (if_neg alive).trans (if_neg single)

theorem connectDestroyed_open {closing : List Call} (quiet : c.Quiet closing)
    (state : c.state = .kConnected) (active : c.active = false) :
    c.connectDestroyed closing = some { c.downed with registered := false } := by
  rw [TcpConnection.connectDestroyed, if_pos state, quiet.down]
  exact if_pos ⟨rfl, rfl, active, rfl⟩

theorem Closed.handleWrite (gone : Closed c) (written : Written) : c.handleWrite written = c :=
  if_neg (by rw [gone.isWriting]; exact Bool.false_ne_true)

theorem Closed.calls (gone : Closed c) {calls : List Call} (quiet : c.Quiet calls) :
    c.calls calls = c := quiet.calls gone.state gone.isReading

/-! ### Events and queued calls -/

theorem Open.handleRead (up : Open c) {closing : List Call} {read : Read}
    (ends : read = .eof → c.server ∧ c.Quiet closing) (revents : c.revents = none) :
    ∃ c', c.handleRead closing read = some c' ∧ (Open c' ∨ Closed c') := by
  cases read with
  | data calls => exact ⟨_, rfl, .inl (up.calls calls)⟩
  | eof =>
    obtain ⟨c', closes, gone, -⟩ := up.handleClose (ends rfl).2 (ends rfl).1 revents
    exact ⟨c', closes, .inr gone⟩
  | error => exact ⟨c, rfl, .inl up⟩

theorem Open.handleEvent (up : Open c) {r : Revents} {closing : List Call} {read : Read}
    (written : Written) (single : c.Single closing read r) (revents : c.revents = none) :
    ∃ c', c.handleEvent r closing read written = some c' ∧ (Open c' ∨ Closed c') := by
  have wrote : ∀ d : TcpConnection, Open d ∨ Closed d →
      Open (if r.pollOut then d.handleWrite written else d) ∨
        Closed (if r.pollOut then d.handleWrite written else d) := by
    intro d phase
    split
    · rcases phase with up | gone
      · exact .inl (up.handleWrite written)
      · rw [gone.handleWrite written]
        exact .inr gone
    · exact phase
  suffices reads : ∃ d, ((if r.pollHup ∧ r.pollIn = false then c.handleClose closing
      else some c).bind fun c => if r.pollIn ∨ r.pollPri then c.handleRead closing read
        else some c) = some d ∧ (Open d ∨ Closed d) by
    obtain ⟨d, reads, phase⟩ := reads
    refine ⟨_, ?_, wrote d phase⟩
    obtain ⟨b, closed, rest⟩ := Option.bind_eq_some_iff.mp reads
    exact Option.bind_eq_some_iff.mpr ⟨b, closed, Option.map_eq_some_iff.mpr ⟨d, rest, rfl⟩⟩
  unfold Single at single
  split at single
  · rename_i hup
    obtain ⟨server, quiet, after⟩ := single
    obtain ⟨d, closes, gone, reading⟩ := up.handleClose quiet server revents
    refine ⟨d, ?_, .inr gone⟩
    rw [if_pos hup, closes]
    show (if r.pollIn ∨ r.pollPri then d.handleRead closing read else some d) = some d
    split
    · rename_i reads
      have pri : r.pollPri := reads.resolve_left (by rw [hup.2]; exact Bool.false_ne_true)
      obtain ⟨more, quiet⟩ := after pri
      cases read with
      | data calls =>
        have quiet : d.Quiet calls := ⟨quiet.1, fun is => quiet.2 (reading ▸ is)⟩
        exact congrArg _ (gone.calls quiet)
      | eof => exact absurd rfl more
      | error => rfl
    · rfl
  · rename_i stays
    rw [if_neg stays]
    show ∃ d, (if r.pollIn ∨ r.pollPri then c.handleRead closing read else some c) = some d ∧ _
    split
    · rename_i reads
      exact up.handleRead (single reads) revents
    · exact ⟨c, rfl, .inl up⟩

theorem Open.run (up : Open c) {f : Functor} {closing : List Call} (inside : f ∈ c.functors)
    (careful : c.Careful (.run f closing)) (active : c.active = false) :
    ∃ c', TcpConnection.run { c with functors := c.functors.erase f } closing f = some c' ∧
      (Open c' ∨ Closed c') := by
  have revents := up.polled active
  cases f with
  | forceCloseInLoop =>
    have queued : (c.functors.erase .forceCloseInLoop).count .connectDestroyed =
        c.functors.count .connectDestroyed := List.count_erase_of_ne (by decide)
    have alive : c.state ≠ .kDisconnected := by
      rcases up.state with state | state <;> rw [state] <;> decide
    obtain ⟨server, quiet⟩ := careful alive
    have still : Open { c with functors := c.functors.erase .forceCloseInLoop } :=
      { up with queued := queued.trans up.queued }
    obtain ⟨c', closes, gone, -⟩ := still.handleClose quiet server revents
    exact ⟨c', (if_pos up.state).trans closes, .inr gone⟩
  | connectDestroyed =>
    have once : 0 < c.functors.count .connectDestroyed := List.count_pos_iff.mpr inside
    rw [up.queued] at once
    have dead : c.server = false := by
      refine Bool.eq_false_iff.mpr fun server => ?_
      rw [if_pos server] at once
      omega
    have state : c.state = .kConnected := up.state.resolve_right careful.1
    have quiet : Quiet { c with functors := c.functors.erase .connectDestroyed } closing :=
      careful.2 state
    have queued : (c.functors.erase .connectDestroyed).count .connectDestroyed + c.removing = 0 := by
      rw [List.count_erase_self, up.queued, dead, up.removing]
      rfl
    have left : c.inServer = true ↔ 0 < c.removing := by
      rw [up.entry, dead, up.removing]
      decide
    refine ⟨_, connectDestroyed_open quiet state active, .inr (up.gone revents left ?_ queued)⟩
    intro waits
    rw [up.removing] at waits
    cases waits

/-- While `connectDestroyed` is to come, by a functor or by `removeConnectionInLoop`. -/
theorem Closed.waiting (gone : Closed c)
    (waits : 0 < c.functors.count .connectDestroyed + c.removing) :
    c.registered = true ∧ c.functors.count .connectDestroyed + c.removing = 1 := by
  have whole := gone.queued
  have registered : c.registered = true := by
    by_contra gone
    rw [if_neg gone] at whole
    omega
  rw [if_pos registered] at whole
  exact ⟨registered, whole⟩

theorem Closed.run (gone : Closed c) {f : Functor} {closing : List Call} (inside : f ∈ c.functors)
    (active : c.active = false) :
    ∃ c', TcpConnection.run { c with functors := c.functors.erase f } closing f = some c' ∧
      Closed c' := by
  cases f with
  | forceCloseInLoop =>
    have queued : (c.functors.erase .forceCloseInLoop).count .connectDestroyed =
        c.functors.count .connectDestroyed := List.count_erase_of_ne (by decide)
    refine ⟨{ c with functors := c.functors.erase .forceCloseInLoop }, if_neg fun up => ?_, ?_⟩
    · rw [gone.state] at up
      rcases up with up | up <;> cases up
    · exact { gone with queued := by rw [queued]; exact gone.queued }
  | connectDestroyed =>
    have once : 0 < c.functors.count .connectDestroyed := List.count_pos_iff.mpr inside
    obtain ⟨registered, whole⟩ := gone.waiting (by omega)
    have connected : c.state ≠ .kConnected := by rw [gone.state]; decide
    refine ⟨{ c with functors := c.functors.erase .connectDestroyed, registered := false }, ?_, ?_⟩
    · exact (congrArg TcpConnection.remove (if_neg connected)).trans
        (if_pos ⟨gone.isReading, gone.isWriting, active, registered⟩)
    · have queued : (c.functors.erase .connectDestroyed).count .connectDestroyed + c.removing = 0 := by
        rw [List.count_erase_self]
        omega
      exact { gone with queued := queued }

/-! ### The server -/

theorem Closed.removeConnectionInLoop (gone : Closed c) (waits : 0 < c.removing) :
    ∃ c', TcpConnection.removeConnectionInLoop { c with removing := c.removing - 1 } = some c' ∧
      Closed c' := by
  have server := gone.server waits
  obtain ⟨registered, whole⟩ := gone.waiting (by omega)
  have queued : (c.functors ++ [Functor.connectDestroyed]).count .connectDestroyed +
      (c.removing - 1) = if c.registered then 1 else 0 := by
    rw [List.count_append, if_pos registered]
    show c.functors.count .connectDestroyed + 1 + (c.removing - 1) = 1
    omega
  have left : false = true ↔ 0 < c.removing - 1 := by
    constructor
    · exact nofun
    · omega
  exact ⟨_, if_pos ⟨server, gone.entry.mpr waits⟩,
    { gone with entry := left, server := fun _ => server, queued := queued }⟩

/-- The entry of `connections_` goes with the server. -/
theorem Closed.destroyServer (gone : Closed c) (closing : List Call) (none : c.removing = 0) :
    ∃ c', c.destroyServer closing = some c' ∧ Closed c' := by
  have entry : c.inServer = false := Bool.eq_false_iff.mpr fun entry => by
    have waits := gone.entry.mp entry
    omega
  have left : false = true ↔ 0 < c.removing := by rw [none]; decide
  have nobody : 0 < c.removing → false = true := fun waits => by omega
  exact ⟨_, if_pos entry, { gone with entry := left, server := nobody }⟩

theorem Open.destroyServer (up : Open c) {closing : List Call}
    (careful : c.Careful (.destroyServer closing)) (server : c.server = true) :
    ∃ c', c.destroyServer closing = some c' ∧ (Open c' ∨ Closed c') := by
  have entry : c.inServer = true := up.entry.trans server
  have here : ¬c.inServer = false := by rw [entry]; decide
  have none := up.unqueued server
  by_cases single : c.single = true
  · obtain ⟨active, apart, quiet⟩ := careful.2 ⟨single, entry⟩
    have state : c.state = .kConnected := up.state.resolve_right apart
    have queued : c.functors.count .connectDestroyed + c.removing = 0 := by rw [none, up.removing]
    have quiet : Quiet { c with server := false, inServer := false } closing := quiet state
    refine ⟨_, (if_neg here).trans ((if_pos single).trans (connectDestroyed_open quiet state active)),
      .inr (up.gone (up.polled active) up.noEntry ?_ queued)⟩
    intro waits
    rw [up.removing] at waits
    cases waits
  · have queued : (c.functors ++ [Functor.connectDestroyed]).count .connectDestroyed = 1 := by
      rw [List.count_append, none]
      rfl
    exact ⟨_, (if_neg here).trans (if_neg single),
      .inl { up with entry := rfl, alone := fun its => absurd its single, queued := queued }⟩

theorem Fresh.destroyServer (fresh : Fresh c) (closing : List Call) (server : c.server = true)
    (apart : c.single ≠ true) : ∃ c', c.destroyServer closing = some c' ∧ Fresh c' := by
  have here : ¬c.inServer = false := by rw [fresh.entry, server]; decide
  have queued : (c.functors ++ [Functor.connectDestroyed]).count .connectDestroyed = 1 := by
    rw [List.count_append, fresh.queued, if_pos server]
    rfl
  exact ⟨_, (if_neg here).trans (if_neg apart),
    { fresh with entry := rfl, alone := fun its => absurd its apart, queued := queued }⟩

/-! ### Runs -/

inductive Phase (c : TcpConnection) : Prop where
  | fresh : Fresh c → Phase c
  | up : Open c → Phase c
  | gone : Closed c → Phase c

theorem Phase.of (either : Open c ∨ Closed c) : Phase c := either.elim .up .gone

theorem fresh_new (single : Bool) : Fresh (new single) :=
  ⟨rfl, rfl, rfl, rfl, rfl, rfl, rfl, rfl, fun _ => rfl, rfl⟩

theorem Phase.good (phase : Phase c) : Good c := by
  cases phase with
  | fresh fresh =>
    refine ⟨?_, fresh.again, fun inServer _ functors _ => ?_⟩
    · rw [fresh.downs, if_neg]
      rw [fresh.state]
      decide
    · have queued := fresh.queued
      rw [← fresh.entry, inServer, functors] at queued
      cases queued
  | up up =>
    refine ⟨?_, up.again, fun inServer _ functors _ => ?_⟩
    · rw [up.downs, if_neg]
      rcases up.state with state | state <;> rw [state] <;> decide
    · have queued := up.queued
      rw [← up.entry, inServer, functors] at queued
      cases queued
  | gone gone =>
    refine ⟨?_, gone.again, fun _ removing functors _ => ⟨gone.state, ?_⟩⟩
    · rw [gone.downs, if_pos gone.state]
    · refine Bool.eq_false_iff.mpr fun registered => ?_
      have queued := gone.queued
      rw [functors, removing, if_pos registered] at queued
      cases queued

theorem Phase.step (phase : Phase c) {e : LifeStep} (enabled : c.Enabled e)
    (careful : c.Careful e) : ∃ c', c.take e = some c' ∧ Phase c' := by
  cases phase with
  | fresh fresh =>
    have early := fresh.state
    cases e with
    | connectEstablished calls =>
      have up : Open ({ c with state := .kConnected }.update true c.isWriting) := {
        state := .inl rfl
        registered := rfl
        polled := fun _ => fresh.revents
        downs := fresh.downs
        again := by
          rw [TcpConnection.update, fresh.again, fresh.downs]
          rfl
        removing := fresh.removing
        entry := fresh.entry
        alone := fresh.alone
        queued := fresh.queued }
      exact ⟨_, if_pos early, .up (up.calls calls)⟩
    | poll r => exact absurd (fresh.registered.symm.trans enabled.1) Bool.false_ne_true
    | handleEvent closing read written => exact absurd fresh.revents enabled
    | endEvents => exact absurd (fresh.active.symm.trans enabled.1) Bool.false_ne_true
    | calls calls => exact absurd early enabled
    | run f closing => exact absurd early enabled.1
    | removeConnectionInLoop =>
      have waits : 0 < c.removing := enabled
      rw [fresh.removing] at waits
      cases waits
    | destroyServer closing =>
      obtain ⟨c', takes, fresh⟩ := fresh.destroyServer closing enabled.1 fun single =>
        enabled.2 single early
      exact ⟨c', takes, .fresh fresh⟩
  | up up =>
    cases e with
    | connectEstablished calls =>
      have state : c.state = .kConnecting := enabled
      rcases up.state with up | up <;> rw [up] at state <;> cases state
    | poll r => exact ⟨_, rfl, .up { up with polled := fun idle => nomatch idle }⟩
    | handleEvent closing read written =>
      obtain ⟨r, revents⟩ := Option.ne_none_iff_exists'.mp enabled
      have still : Open { c with revents := none } := { up with polled := fun _ => rfl }
      obtain ⟨c', handles, phase⟩ := still.handleEvent written (careful r revents) rfl
      exact ⟨c', (congrArg (Option.bind · _) revents).trans handles, .of phase⟩
    | endEvents => exact ⟨_, rfl, .up { up with polled := fun _ => enabled.2 }⟩
    | calls calls => exact ⟨_, rfl, .up (up.calls calls)⟩
    | run f closing =>
      obtain ⟨c', runs, phase⟩ := up.run enabled.2.2 careful enabled.2.1
      exact ⟨c', runs, .of phase⟩
    | removeConnectionInLoop =>
      have waits : 0 < c.removing := enabled
      rw [up.removing] at waits
      cases waits
    | destroyServer closing =>
      obtain ⟨c', takes, phase⟩ := up.destroyServer careful enabled.1
      exact ⟨c', takes, .of phase⟩
  | gone gone =>
    cases e with
    | connectEstablished calls =>
      have state : c.state = .kConnecting := enabled
      rw [gone.state] at state
      cases state
    | poll r =>
      have interest := enabled.2.1
      rw [gone.isReading, gone.isWriting] at interest
      exact absurd interest (by decide)
    | handleEvent closing read written => exact absurd gone.revents enabled
    | endEvents => exact ⟨_, rfl, .gone { gone with }⟩
    | calls calls => exact ⟨_, rfl, (gone.calls (careful gone.state)).symm ▸ .gone gone⟩
    | run f closing =>
      obtain ⟨c', runs, after⟩ := gone.run enabled.2.2 enabled.2.1
      exact ⟨c', runs, .gone after⟩
    | removeConnectionInLoop =>
      obtain ⟨c', takes, after⟩ := gone.removeConnectionInLoop enabled
      exact ⟨c', takes, .gone after⟩
    | destroyServer closing =>
      obtain ⟨c', takes, after⟩ := gone.destroyServer closing careful.1
      exact ⟨c', takes, .gone after⟩

theorem phase_reach (reach : Reach machine Careful c) : Phase c := by
  refine reach.invariant ?_ fun c e c' phase careful next => ?_
  · rintro c ⟨single, rfl⟩
    exact .fresh (fresh_new single)
  · obtain ⟨enabled, takes⟩ := Option.ite_none_right_eq_some.mp next
    obtain ⟨c'', takes', phase⟩ := phase.step enabled careful
    rw [takes] at takes'
    cases takes'
    exact phase

end TcpConnection

end ProjectsCpp.MuduoNet
