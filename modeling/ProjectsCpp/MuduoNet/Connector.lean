import ProjectsCpp.Lib.Run
import Mathlib.Data.List.Count
import Mathlib.Data.List.Basic
import Mathlib.Data.Option.Basic

/-! The connector of muduo (`Connector.cc`) under a client (`TcpClient.cc`), in the loop thread. The
functors wait in the queue of the loop, the retry timers are never cancelled. What `connect`, the
poller and `SO_ERROR` answer are arguments of the steps; a failing assertion sets `failed`. -/

namespace ProjectsCpp.MuduoNet
open ProjectsCpp.Run

inductive Errno where
  | none | EINPROGRESS | EINTR | EISCONN | EAGAIN | EADDRINUSE | EADDRNOTAVAIL | ECONNREFUSED
  | ENETUNREACH | EACCES | EPERM | EAFNOSUPPORT | EALREADY | EBADF | EFAULT | ENOTSOCK | other
deriving DecidableEq

/-- The answers of `connect` that go on to `connecting`. -/
def Errno.starts : Errno → Bool
  | .none | .EINPROGRESS | .EINTR | .EISCONN => true
  | _ => false

inductive States where
  | kDisconnected | kConnecting | kConnected
deriving DecidableEq

/-- `registered` tells that the poller has the channel. -/
structure ConnectorChannel where
  fd : Nat
  registered : Bool
deriving DecidableEq

inductive Task where
  | resetChannel
  | stopInLoop
  | forceCloseInLoop (fd : Nat)
deriving DecidableEq

/-- `active` are the connections that the poller has returned, `batch` is what `doPendingFunctors`
has to call. -/
inductive Phase where
  | handling (active : List Nat)
  | calling (batch : List Task)
deriving DecidableEq

def kInitRetryDelayMs : Nat := 500

def kMaxRetryDelayMs : Nat := 30 * 1000

/-- `timers` has the delays of the retry timers that wait, `established` the connections that are
up. `created`, `closed` and `handed` are the sockets so far, with `connect_` when one was handed to
`newConnectionCallback_`. -/
structure TcpClient where
  connect_ : Bool
  state : States
  channel : Option ConnectorChannel
  retryDelayMs : Nat
  clientConnect : Bool
  connection : Option Nat
  established : List Nat
  phase : Phase
  pendingFunctors : List Task
  timers : List Nat
  created : Nat
  closed : List Nat
  handed : List (Nat × Bool)
  failed : Bool
deriving DecidableEq

namespace TcpClient

def new : TcpClient where
  connect_ := false
  state := .kDisconnected
  channel := none
  retryDelayMs := kInitRetryDelayMs
  clientConnect := true
  connection := none
  established := []
  phase := .handling []
  pendingFunctors := []
  timers := []
  created := 0
  closed := []
  handed := []
  failed := false

variable (s : TcpClient)

def fail : TcpClient := { s with failed := true }

def queueInLoop (task : Task) : TcpClient :=
  { s with pendingFunctors := s.pendingFunctors ++ [task] }

def close (sockfd : Nat) : TcpClient := { s with closed := s.closed ++ [sockfd] }

def retry (sockfd : Nat) : TcpClient :=
  let s := { s.close sockfd with state := .kDisconnected }
  if s.connect_ then
    { s with
      timers := s.timers ++ [s.retryDelayMs]
      retryDelayMs := min (s.retryDelayMs * 2) kMaxRetryDelayMs }
  else s

def connecting (sockfd : Nat) : TcpClient :=
  let s := { s with state := .kConnecting }
  if s.channel = none then { s with channel := some ⟨sockfd, true⟩ } else s.fail

def connect (errno : Errno) : TcpClient :=
  let sockfd := s.created
  let s := { s with created := s.created + 1 }
  match errno with
  | .none | .EINPROGRESS | .EINTR | .EISCONN => s.connecting sockfd
  | .EAGAIN | .EADDRINUSE | .EADDRNOTAVAIL | .ECONNREFUSED | .ENETUNREACH => s.retry sockfd
  | _ => s.close sockfd

def startInLoop (errno : Errno) : TcpClient :=
  if s.state = .kDisconnected then
    if s.connect_ then s.connect errno else s
  else s.fail

def start (errno : Errno) : TcpClient := { s with connect_ := true }.startInLoop errno

def restart (errno : Errno) : TcpClient :=
  { s with
    state := .kDisconnected
    retryDelayMs := kInitRetryDelayMs
    connect_ := true }.startInLoop errno

def stop : TcpClient := { s with connect_ := false }.queueInLoop .stopInLoop

/-- `rest` goes on with the socket; without a channel a null pointer is used. -/
def removeAndResetChannel (rest : TcpClient → Nat → TcpClient) : TcpClient :=
  match s.channel with
  | some channel =>
    rest ({ s with channel := some ⟨channel.fd, false⟩ }.queueInLoop .resetChannel) channel.fd
  | none => s.fail

def stopInLoop : TcpClient :=
  if s.state = .kConnecting then
    { s with state := .kDisconnected }.removeAndResetChannel fun s sockfd => s.retry sockfd
  else s

def newConnection (sockfd : Nat) : TcpClient :=
  { s with
    handed := s.handed ++ [(sockfd, s.connect_)]
    connection := some sockfd
    established := s.established ++ [sockfd] }

def handleWrite (soError selfConnect : Bool) : TcpClient :=
  if s.state = .kConnecting then
    s.removeAndResetChannel fun s sockfd =>
      if soError then s.retry sockfd
      else if selfConnect then s.retry sockfd
      else
        let s := { s with state := .kConnected }
        if s.connect_ then s.newConnection sockfd else s.close sockfd
  else if s.state = .kDisconnected then s
  else s.fail

def handleError : TcpClient :=
  if s.state = .kConnecting then s.removeAndResetChannel fun s sockfd => s.retry sockfd else s

/-- `Channel::handleEvent` with the two callbacks that the connector sets. -/
def handleEvent (error writable soError selfConnect : Bool) : TcpClient :=
  let s := if error then s.handleError else s
  if writable then s.handleWrite soError selfConnect else s

/-- `TcpClient::removeConnection`, out of `handleClose` of a connection. -/
def removeConnection (sockfd : Nat) (retry : Bool) (errno : Errno) : TcpClient :=
  let s := { s with established := s.established.erase sockfd }
  if s.connection = some sockfd then
    let s := { s with connection := none }
    if retry && s.clientConnect then s.restart errno else s
  else s.fail

def call (task : Task) (retry : Bool) (errno : Errno) : TcpClient :=
  match task with
  | .resetChannel => { s with channel := none }
  | .stopInLoop => s.stopInLoop
  | .forceCloseInLoop fd =>
    if fd ∈ s.established then s.removeConnection fd retry errno else s

end TcpClient

/-- The calls of the user come at any time; `retry` is `retry_` of the client. -/
inductive ClientStep where
  | connect (errno : Errno)
  | stop
  | disconnect
  | forceClose (fd : Nat)
  | timer (i : Nat) (errno : Errno)
  | handleEvent (error writable soError selfConnect : Bool)
  | lost (fd : Nat) (retry : Bool) (errno : Errno)
  | doPendingFunctors
  | functor (retry : Bool) (errno : Errno)
  | poll

namespace TcpClient

def step (s : TcpClient) (e : ClientStep) : Option TcpClient :=
  if s.failed then none
  else
    match e, s.phase with
    | .connect errno, _ => some ({ s with clientConnect := true }.start errno)
    | .stop, _ => some { s with clientConnect := false }.stop
    | .disconnect, _ => some { s with clientConnect := false }
    | .forceClose fd, _ =>
      if fd ∈ s.established then some (s.queueInLoop (.forceCloseInLoop fd)) else none
    | .timer i errno, .handling _ =>
      if i < s.timers.length then
        some ({ s with timers := s.timers.eraseIdx i }.startInLoop errno)
      else none
    | .handleEvent error writable soError selfConnect, .handling _ =>
      if s.channel.any (·.registered) then
        some (s.handleEvent error writable soError selfConnect)
      else none
    | .lost fd retry errno, .handling active =>
      if fd ∈ active ∧ fd ∈ s.established then some (s.removeConnection fd retry errno) else none
    | .doPendingFunctors, .handling _ =>
      some { s with phase := .calling s.pendingFunctors, pendingFunctors := [] }
    | .functor retry errno, .calling (task :: batch) =>
      some ({ s with phase := .calling batch }.call task retry errno)
    | .poll, .calling [] => some { s with phase := .handling s.established }
    | _, _ => none

def machine : Machine TcpClient ClientStep where
  start := (· = new)
  step := step

/-- The client asks for a connection when the connector is at rest and no retry timer waits; and
where a socket comes to be connected, the last channel has been reset. -/
def Careful (s : TcpClient) : ClientStep → Prop
  | .connect errno => s.state = .kDisconnected ∧ s.timers = [] ∧
      (errno.starts = true → s.channel = none)
  | .timer _ errno => s.connect_ = true → errno.starts = true → s.channel = none
  | _ => True

instance (s : TcpClient) (e : ClientStep) : Decidable (s.Careful e) := by
  cases e <;> unfold Careful <;> infer_instance

def fate (s : TcpClient) (fd : Nat) : Nat := s.closed.count fd + (s.handed.map Prod.fst).count fd

/-- A socket that is neither closed nor handed over is the one being connected, of which there is
one at most; each other socket has been closed or handed over once, and only while `connect_` was
set. -/
structure Accounted (s : TcpClient) : Prop where
  one : ∀ fd fd', fd < s.created → fd' < s.created → s.fate fd = 0 → s.fate fd' = 0 → fd = fd'
  being : ∀ fd < s.created, s.fate fd = 0 → s.state = .kConnecting ∧ s.channel = some ⟨fd, true⟩
  once : ∀ fd < s.created, s.fate fd ≤ 1
  others : ∀ fd, s.created ≤ fd → s.fate fd = 0
  wanted : ∀ report ∈ s.handed, report.2 = true

end TcpClient

namespace TcpClient
variable {s s' : TcpClient} {fd : Nat} {errno : Errno} {task : Task}

def queue (s : TcpClient) : List Task :=
  match s.phase with
  | .handling _ => s.pendingFunctors
  | .calling batch => batch ++ s.pendingFunctors

def ResetFirst (fd : Nat) (tasks : List Task) : Prop :=
  ∃ before after, tasks = before ++ .resetChannel :: after ∧ .forceCloseInLoop fd ∉ before

/-- While the channel of a connection is still there, it is reset before the connection can be
lost. -/
def ResetSoon (s : TcpClient) (fd : Nat) : Prop :=
  match s.phase with
  | .handling active => fd ∉ active ∧ ResetFirst fd s.pendingFunctors
  | .calling batch => ResetFirst fd batch

structure Booked (s : TcpClient) : Prop where
  fates : ∀ fd < s.created, s.fate fd =
    if s.state = .kConnecting ∧ s.channel = some ⟨fd, true⟩ then 0 else 1
  others : ∀ fd, s.created ≤ fd → s.fate fd = 0
  wanted : ∀ report ∈ s.handed, report.2 = true
  connecting : s.state = .kConnecting → ∃ fd < s.created, s.channel = some ⟨fd, true⟩
  resting : s.state ≠ .kConnecting → ∀ fd, s.channel ≠ some ⟨fd, true⟩
  resets : s.queue.count .resetChannel = if s.channel.any (!·.registered) then 1 else 0
  established : s.established = s.connection.toList
  connected : ∀ fd, s.connection = some fd → s.state = .kConnected ∧ fd ∈ s.handed.map Prod.fst
  closings : ∀ fd, .forceCloseInLoop fd ∈ s.queue → fd ∈ s.handed.map Prod.fst
  reported : ∀ active, s.phase = .handling active → ∀ fd ∈ active, fd ∈ s.handed.map Prod.fst
  order : ∀ fd, s.connection = some fd → s.channel ≠ none → s.ResetSoon fd

theorem Booked.new : Booked new where
  fates _ low := nomatch low
  others _ _ := rfl
  wanted _ inside := nomatch inside
  connecting now := nomatch now
  resting _ _ := nofun
  resets := rfl
  established := rfl
  connected _ some_ := nomatch some_
  closings _ inside := nomatch inside
  reported _ same fd inside := by cases same; exact nomatch inside
  order _ some_ := nomatch some_

theorem Booked.accounted (booked : Booked s) : s.Accounted := by
  have being : ∀ fd < s.created, s.fate fd = 0 →
      s.state = .kConnecting ∧ s.channel = some ⟨fd, true⟩ := by
    intro fd low none_
    by_contra other
    have once := booked.fates fd low
    rw [if_neg other] at once
    omega
  refine ⟨fun fd fd' low low' none_ none_' => ?_, being, fun fd low => ?_, booked.others,
    booked.wanted⟩
  · have same := (being fd low none_).2.symm.trans (being fd' low' none_').2
    cases same
    rfl
  · rw [booked.fates fd low]
    split <;> omega

/-! ### The queue and the sockets -/

theorem queue_append (s : TcpClient) (task : Task) :
    (s.queueInLoop task).queue = s.queue ++ [task] := by
  rw [queue, queue]
  cases phase : s.phase with
  | handling active => simp only [queueInLoop, phase]
  | calling batch => simp only [queueInLoop, phase, List.append_assoc]

theorem ResetFirst.append {tasks : List Task} (first : ResetFirst fd tasks) (more : List Task) :
    ResetFirst fd (tasks ++ more) := by
  obtain ⟨before, after, rfl, free⟩ := first
  exact ⟨before, after ++ more, by simp, free⟩

theorem ResetSoon.queueInLoop (soon : s.ResetSoon fd) (task : Task) :
    (s.queueInLoop task).ResetSoon fd := by
  rw [ResetSoon] at soon ⊢
  cases phase : s.phase with
  | handling active =>
    simp only [phase] at soon
    simp only [TcpClient.queueInLoop, phase]
    exact ⟨soon.1, soon.2.append [task]⟩
  | calling batch =>
    simp only [phase] at soon
    simp only [TcpClient.queueInLoop, phase]
    exact soon

theorem fate_close (s : TcpClient) (sockfd fd : Nat) :
    (s.close sockfd).fate fd = s.fate fd + if sockfd = fd then 1 else 0 := by
  rw [fate, fate, close, List.count_append, List.count_singleton]
  simp only [beq_iff_eq]
  omega

theorem fate_newConnection (s : TcpClient) (sockfd fd : Nat) :
    (s.newConnection sockfd).fate fd = s.fate fd + if sockfd = fd then 1 else 0 := by
  rw [fate, fate, newConnection, List.map_append, List.count_append, List.map_singleton,
    List.count_singleton]
  simp only [beq_iff_eq]
  omega

theorem not_handed (none_ : s.fate fd = 0) : fd ∉ s.handed.map Prod.fst := by
  rw [fate] at none_
  exact List.count_eq_zero.mp (by omega)

/-! ### A new attempt -/

theorem Booked.no_connection (booked : Booked s) (rest : s.state ≠ .kConnected) :
    s.connection = none := by
  cases same : s.connection with
  | none => rfl
  | some fd => exact absurd (booked.connected fd same).1 rest

theorem Booked.fate_rest (booked : Booked s) (rest : s.state ≠ .kConnecting)
    (low : fd < s.created) : s.fate fd = 1 :=
  (booked.fates fd low).trans (if_neg fun both => rest both.1)

theorem Booked.closeNew (booked : Booked s) (rest : s.state ≠ .kConnecting) :
    Booked ({ s with created := s.created + 1 }.close s.created) := by
  refine { booked with
    fates := fun fd low => ?_, others := fun fd high => ?_
    connecting := fun now => absurd now rest }
  · refine Eq.trans ?_ (if_neg fun both => rest both.1).symm
    refine (fate_close _ _ _).trans (?_ : s.fate fd + _ = 1)
    rcases Nat.lt_succ_iff_lt_or_eq.mp low with before | rfl
    · rw [booked.fate_rest rest before, if_neg (Nat.ne_of_gt before)]
    · rw [booked.others s.created (Nat.le_refl _), if_pos rfl]
  · have high : s.created + 1 ≤ fd := high
    rw [fate_close, if_neg (Nat.ne_of_lt high)]
    exact booked.others fd (Nat.le_of_succ_le high)

theorem Booked.begin (booked : Booked s) (rest : s.state = .kDisconnected)
    (room : s.channel = none) : Booked { s with
      created := s.created + 1
      state := .kConnecting
      channel := some ⟨s.created, true⟩ } := by
  have none_ := booked.no_connection (by rw [rest]; exact nofun)
  refine { booked with
    fates := fun fd low => ?_, others := fun fd high => booked.others fd (Nat.le_of_succ_le high)
    connecting := fun _ => ⟨s.created, Nat.lt_succ_self _, rfl⟩
    resting := fun now => absurd rfl now
    resets := ?_, connected := fun fd some_ => nomatch none_.symm.trans some_
    order := fun fd some_ => nomatch none_.symm.trans some_ }
  · rcases Nat.lt_succ_iff_lt_or_eq.mp low with before | rfl
    · refine (booked.fate_rest (by rw [rest]; exact nofun) before).trans (if_neg ?_).symm
      rintro ⟨-, same⟩
      cases same
      exact Nat.lt_irrefl _ before
    · exact (booked.others s.created (Nat.le_refl _)).trans (if_pos ⟨rfl, rfl⟩).symm
  · have resets := booked.resets
    rw [room] at resets
    exact resets

structure Started (s s' : TcpClient) : Prop where
  booked : Booked s'
  failed : s'.failed = s.failed
  timers : s'.timers = s.timers ∨
    s'.state = .kDisconnected ∧ ∃ delay, s'.timers = s.timers ++ [delay]

theorem Booked.connect (booked : Booked s) (rest : s.state = .kDisconnected)
    (room : errno.starts = true → s.channel = none) : Started s (s.connect errno) := by
  have begin : errno.starts = true → Started s
      (TcpClient.connecting { s with created := s.created + 1 } s.created) := by
    intro starts
    have told : TcpClient.connecting { s with created := s.created + 1 } s.created = { s with
        created := s.created + 1
        state := .kConnecting
        channel := some ⟨s.created, true⟩ } := if_pos (room starts)
    rw [told]
    exact ⟨booked.begin rest (room starts), rfl, .inl rfl⟩
  have closed := booked.closeNew (by rw [rest]; exact nofun)
  have again : Started s (TcpClient.retry { s with created := s.created + 1 } s.created) := by
    have same : { TcpClient.close { s with created := s.created + 1 } s.created with
        state := .kDisconnected } =
          TcpClient.close { s with created := s.created + 1 } s.created := by
      rw [← rest]
      rfl
    rw [TcpClient.retry, same]
    split
    · exact ⟨{ closed with }, rfl, .inr ⟨rest, _, rfl⟩⟩
    · exact ⟨closed, rfl, .inl rfl⟩
  cases errno with
  | none => exact begin rfl
  | EINPROGRESS => exact begin rfl
  | EINTR => exact begin rfl
  | EISCONN => exact begin rfl
  | EAGAIN => exact again
  | EADDRINUSE => exact again
  | EADDRNOTAVAIL => exact again
  | ECONNREFUSED => exact again
  | ENETUNREACH => exact again
  | EACCES => exact ⟨closed, rfl, .inl rfl⟩
  | EPERM => exact ⟨closed, rfl, .inl rfl⟩
  | EAFNOSUPPORT => exact ⟨closed, rfl, .inl rfl⟩
  | EALREADY => exact ⟨closed, rfl, .inl rfl⟩
  | EBADF => exact ⟨closed, rfl, .inl rfl⟩
  | EFAULT => exact ⟨closed, rfl, .inl rfl⟩
  | ENOTSOCK => exact ⟨closed, rfl, .inl rfl⟩
  | other => exact ⟨closed, rfl, .inl rfl⟩

theorem Booked.startInLoop (booked : Booked s) (rest : s.state = .kDisconnected)
    (room : s.connect_ = true → errno.starts = true → s.channel = none) :
    Started s (s.startInLoop errno) := by
  rw [TcpClient.startInLoop, if_pos rest]
  split
  · rename_i wants
    exact booked.connect rest (room wants)
  · exact ⟨booked, rfl, .inl rfl⟩

theorem Booked.startInLoop_or (booked : Booked s) (errno : Errno) :
    (s.startInLoop errno).failed = true ∨ Booked (s.startInLoop errno) := by
  by_cases rest : s.state = .kDisconnected
  · by_cases room : s.connect_ = true → errno.starts = true → s.channel = none
    · exact .inr (booked.startInLoop rest room).booked
    · simp only [Classical.not_imp] at room
      obtain ⟨wants, starts, busy⟩ := room
      refine .inl ?_
      rw [TcpClient.startInLoop, if_pos rest, if_pos wants]
      cases errno with
      | none | EINPROGRESS | EINTR | EISCONN =>
        rw [TcpClient.connect, TcpClient.connecting]
        dsimp only
        rw [if_neg busy]
        rfl
      | _ => exact nomatch starts
  · rw [TcpClient.startInLoop, if_neg rest]
    exact .inl rfl

/-! ### The end of an attempt -/

def removed (s : TcpClient) (fd : Nat) (state : States) : TcpClient :=
  { s with state := state, channel := some ⟨fd, false⟩ }.queueInLoop .resetChannel

theorem Booked.removed (booked : Booked s) (now : s.state = .kConnecting)
    (channel : s.channel = some ⟨fd, true⟩) (low : fd < s.created) {state : States}
    (over_ : state ≠ .kConnecting) : Booked ((s.removed fd state).close fd) := by
  have none_ := booked.no_connection (by rw [now]; exact nofun)
  have queue : ((s.removed fd state).close fd).queue = s.queue ++ [.resetChannel] :=
    queue_append s .resetChannel
  refine { booked with
    fates := fun k below => ?_, others := fun k high => ?_
    connecting := fun now => absurd now over_, resting := fun _ k same => nomatch same
    resets := ?_, connected := fun k some_ => nomatch none_.symm.trans some_
    closings := fun k inside => ?_
    order := fun k some_ => nomatch none_.symm.trans some_ }
  · refine Eq.trans ?_ (if_neg fun both => over_ both.1).symm
    refine (fate_close _ _ _).trans (?_ : s.fate k + _ = 1)
    have once := booked.fates k below
    by_cases mine : fd = k
    · rw [once, if_pos ⟨now, mine ▸ channel⟩, if_pos mine]
    · rw [once, if_neg mine, if_neg]
      rintro ⟨-, same⟩
      cases channel.symm.trans same
      exact mine rfl
  · have high : s.created ≤ k := high
    rw [fate_close, if_neg (Nat.ne_of_lt (Nat.lt_of_lt_of_le low high))]
    exact booked.others k high
  · have resets := booked.resets
    rw [channel] at resets
    rw [queue, List.count_append, resets]
    rfl
  · rw [queue] at inside
    rcases List.mem_append.mp inside with before | last
    · exact booked.closings k before
    · exact nomatch List.mem_singleton.mp last

theorem Booked.linked (booked : Booked s) (now : s.state = .kConnecting)
    (channel : s.channel = some ⟨fd, true⟩) (low : fd < s.created) (wants : s.connect_ = true)
    {active : List Nat} (phase : s.phase = .handling active) :
    Booked ((s.removed fd .kConnected).newConnection fd) := by
  have none_ := booked.no_connection (by rw [now]; exact nofun)
  have zero : s.fate fd = 0 := (booked.fates fd low).trans (if_pos ⟨now, channel⟩)
  have queue : ((s.removed fd .kConnected).newConnection fd).queue = s.queue ++ [.resetChannel] :=
    queue_append s .resetChannel
  have more : ∀ k ∈ s.handed.map Prod.fst,
      k ∈ ((s.removed fd .kConnected).newConnection fd).handed.map Prod.fst := by
    intro k inside
    exact List.map_append ▸ List.mem_append_left _ inside
  refine { booked with
    fates := fun k below => ?_, others := fun k high => ?_, wanted := fun report inside => ?_
    connecting := nofun
    resting := fun _ k same => (nomatch same)
    resets := ?_, established := ?_
    connected := fun k some_ => ?_, closings := fun k inside => ?_
    reported := fun active same k inside => more k (booked.reported active same k inside)
    order := fun k some_ _ => ?_ }
  · refine Eq.trans ?_ (if_neg fun both => nomatch both.1).symm
    refine (fate_newConnection _ _ _).trans (?_ : s.fate k + _ = 1)
    have once := booked.fates k below
    by_cases mine : fd = k
    · rw [once, if_pos ⟨now, mine ▸ channel⟩, if_pos mine]
    · rw [once, if_neg mine, if_neg]
      rintro ⟨-, same⟩
      cases channel.symm.trans same
      exact mine rfl
  · have high : s.created ≤ k := high
    rw [fate_newConnection, if_neg (Nat.ne_of_lt (Nat.lt_of_lt_of_le low high))]
    exact booked.others k high
  · rcases List.mem_append.mp inside with before | last
    · exact booked.wanted report before
    · rw [List.mem_singleton.mp last]
      exact wants
  · have resets := booked.resets
    rw [channel] at resets
    rw [queue, List.count_append, resets]
    rfl
  · show s.established ++ [fd] = [fd]
    rw [booked.established, none_]
    rfl
  · cases some_
    exact ⟨rfl, List.map_append ▸ List.mem_append_right _ List.mem_cons_self⟩
  · rw [queue] at inside
    rcases List.mem_append.mp inside with before | last
    · exact more k (booked.closings k before)
    · exact nomatch List.mem_singleton.mp last
  · cases some_
    have fresh := not_handed zero
    show ResetSoon { s with pendingFunctors := s.pendingFunctors ++ [.resetChannel] } fd
    rw [ResetSoon]
    simp only [phase]
    refine ⟨fun inside => fresh (booked.reported active phase fd inside),
      s.pendingFunctors, [], rfl, fun inside => fresh (booked.closings fd ?_)⟩
    rw [TcpClient.queue]
    simp only [phase]
    exact inside

theorem Booked.retried (booked : Booked s) (now : s.state = .kConnecting)
    (channel : s.channel = some ⟨fd, true⟩) (low : fd < s.created) (state : States) :
    Started s ((s.removed fd state).retry fd) := by
  have gone : Booked ((s.removed fd .kDisconnected).close fd) :=
    booked.removed now channel low nofun
  rw [TcpClient.retry]
  split
  · exact ⟨{ gone with }, rfl, .inr ⟨rfl, _, rfl⟩⟩
  · exact ⟨gone, rfl, .inl rfl⟩

theorem removeAndResetChannel_eq (channel : s.channel = some ⟨fd, true⟩)
    (rest : TcpClient → Nat → TcpClient) :
    s.removeAndResetChannel rest = rest (s.removed fd s.state) fd := by
  rw [removeAndResetChannel, channel]
  rfl

theorem Booked.handleError (booked : Booked s) (now : s.state = .kConnecting) :
    Started s s.handleError ∧ s.handleError.state = .kDisconnected := by
  obtain ⟨fd, low, channel⟩ := booked.connecting now
  rw [TcpClient.handleError, if_pos now, removeAndResetChannel_eq channel]
  refine ⟨booked.retried now channel low _, ?_⟩
  rw [TcpClient.retry]
  split <;> rfl

theorem Booked.stopInLoop (booked : Booked s) (now : s.state = .kConnecting) :
    Started s s.stopInLoop := by
  obtain ⟨fd, low, channel⟩ := booked.connecting now
  have same : TcpClient.removeAndResetChannel { s with state := .kDisconnected }
      (fun s sockfd => s.retry sockfd) = (s.removed fd .kDisconnected).retry fd :=
    removeAndResetChannel_eq (s := { s with state := .kDisconnected }) channel _
  rw [TcpClient.stopInLoop, if_pos now, same]
  exact booked.retried now channel low _

theorem Booked.handleWrite (booked : Booked s) (now : s.state = .kConnecting) {active : List Nat}
    (phase : s.phase = .handling active) (soError selfConnect : Bool) :
    Started s (s.handleWrite soError selfConnect) := by
  obtain ⟨fd, low, channel⟩ := booked.connecting now
  rw [TcpClient.handleWrite, if_pos now, removeAndResetChannel_eq channel]
  have again := booked.retried now channel low s.state
  cases soError with
  | true => exact again
  | false =>
    cases selfConnect with
    | true => exact again
    | false =>
      by_cases wants : s.connect_ = true
      · have told : (if (s.removed fd s.state).connect_ then
            TcpClient.newConnection { s.removed fd s.state with state := .kConnected } fd
          else TcpClient.close { s.removed fd s.state with state := .kConnected } fd) =
            (s.removed fd .kConnected).newConnection fd := if_pos wants
        exact ⟨told ▸ booked.linked now channel low wants phase, told ▸ rfl, .inl (told ▸ rfl)⟩
      · have told : (if (s.removed fd s.state).connect_ then
            TcpClient.newConnection { s.removed fd s.state with state := .kConnected } fd
          else TcpClient.close { s.removed fd s.state with state := .kConnected } fd) =
            (s.removed fd .kConnected).close fd := if_neg wants
        exact ⟨told ▸ booked.removed now channel low nofun, told ▸ rfl, .inl (told ▸ rfl)⟩

theorem Booked.connecting_of_registered (booked : Booked s)
    (registered : s.channel.any (·.registered) = true) : s.state = .kConnecting := by
  by_contra rest
  obtain ⟨⟨fd, up⟩, channel, up_⟩ := (Option.any_eq_true _ _).mp registered
  cases up_
  exact booked.resting rest fd channel

theorem Booked.handleEvent (booked : Booked s) (now : s.state = .kConnecting) {active : List Nat}
    (phase : s.phase = .handling active) (error writable soError selfConnect : Bool) :
    Started s (s.handleEvent error writable soError selfConnect) := by
  cases error with
  | true =>
    obtain ⟨started, rest⟩ := booked.handleError now
    cases writable with
    | true =>
      have told : s.handleError.handleWrite soError selfConnect = s.handleError := by
        rw [TcpClient.handleWrite, if_neg (by rw [rest]; exact nofun), if_pos rest]
      show Started s (s.handleError.handleWrite soError selfConnect)
      rw [told]
      exact started
    | false => exact started
  | false =>
    cases writable with
    | true => exact booked.handleWrite now phase soError selfConnect
    | false => exact ⟨booked, rfl, .inl rfl⟩

/-! ### A connection that is lost -/

theorem Booked.lost (booked : Booked s) (up : fd ∈ s.established) : s.connection = some fd := by
  rw [booked.established] at up
  exact Option.mem_toList.mp up

theorem Booked.removeConnection (booked : Booked s) (up : fd ∈ s.established)
    (room : s.channel = none) (retry : Bool) (errno : Errno) :
    Started s (s.removeConnection fd retry errno) := by
  have mine := booked.lost up
  obtain ⟨state, -⟩ := booked.connected fd mine
  have empty : s.established.erase fd = [] := by
    rw [booked.established, mine, Option.toList_some, List.erase_cons_head]
  have gone : Booked { s with established := s.established.erase fd, connection := none } :=
    { booked with
      established := empty, connected := fun _ some_ => nomatch some_
      order := fun _ some_ => nomatch some_ }
  rw [TcpClient.removeConnection, if_pos mine]
  dsimp only
  split
  · have rested : Booked { s with
        established := s.established.erase fd
        connection := none
        state := .kDisconnected
        retryDelayMs := kInitRetryDelayMs
        connect_ := true } :=
      { gone with
        fates := fun k low => (gone.fate_rest (by rw [state]; exact nofun) low).trans
          (if_neg fun both => nomatch both.1).symm
        connecting := nofun
        resting := fun _ => gone.resting (by rw [state]; exact nofun)
        connected := fun _ some_ => nomatch some_ }
    have started : Started _ (TcpClient.startInLoop _ errno) :=
      rested.startInLoop rfl fun _ _ => room
    exact ⟨started.booked, started.failed, started.timers⟩
  · exact ⟨gone, rfl, .inl rfl⟩

/-! ### The queue -/

theorem Booked.queueInLoop (booked : Booked s) (other : task ≠ .resetChannel)
    (handed : ∀ fd, task = .forceCloseInLoop fd → fd ∈ s.handed.map Prod.fst) :
    Booked (s.queueInLoop task) := by
  have queue := queue_append s task
  refine { booked with
    resets := ?_, closings := fun k inside => ?_
    order := fun k some_ busy => (booked.order k some_ busy).queueInLoop task }
  · rw [queue, List.count_append, List.count_singleton, if_neg (by simpa using other)]
    exact booked.resets
  · rw [queue] at inside
    rcases List.mem_append.mp inside with before | last
    · exact booked.closings k before
    · exact handed k (List.mem_singleton.mp last).symm

theorem queue_calling {batch : List Task} (phase : s.phase = .calling batch) :
    s.queue = batch ++ s.pendingFunctors := by
  rw [queue, phase]

theorem Booked.taken (booked : Booked s) {batch : List Task}
    (phase : s.phase = .calling (task :: batch)) (other : task ≠ .resetChannel) :
    Booked { s with phase := .calling batch } := by
  have queue := queue_calling phase
  refine { booked with
    resets := ?_, closings := fun k inside => booked.closings k ?_, reported := nofun
    order := fun k some_ busy => ?_ }
  · have resets := booked.resets
    rw [queue, List.cons_append, List.count_cons_of_ne other] at resets
    exact resets
  · rw [queue]
    exact List.mem_cons_of_mem _ inside
  · have soon := booked.order k some_ busy
    rw [ResetSoon, phase] at soon
    obtain ⟨before, after, same, free⟩ := soon
    cases before with
    | nil => exact absurd (List.cons.inj same).1 other
    | cons first before =>
      exact ⟨before, after, (List.cons.inj same).2, fun inside =>
        free (List.mem_cons_of_mem _ inside)⟩

theorem Booked.resetChannel (booked : Booked s) {batch : List Task}
    (phase : s.phase = .calling (.resetChannel :: batch)) :
    Booked { s with phase := .calling batch, channel := none } := by
  have queue := queue_calling phase
  have resets := booked.resets
  rw [queue, List.cons_append, List.count_cons_self] at resets
  have last : (batch ++ s.pendingFunctors).count .resetChannel = 0 := by
    split at resets <;> omega
  have rest : s.state ≠ .kConnecting := by
    intro now
    obtain ⟨fd, -, channel⟩ := booked.connecting now
    rw [channel] at resets
    exact nomatch resets
  exact { booked with
    fates := fun k low => (booked.fate_rest rest low).trans (if_neg fun both => rest both.1).symm
    connecting := fun now => absurd now rest, resting := fun _ _ => nofun, resets := last
    closings := fun k inside => booked.closings k (queue ▸ List.mem_cons_of_mem _ inside)
    reported := nofun, order := fun _ _ busy => absurd rfl busy }

theorem Booked.room_of_task (booked : Booked s) {batch : List Task}
    (phase : s.phase = .calling (.forceCloseInLoop fd :: batch)) (up : fd ∈ s.established) :
    s.channel = none := by
  by_contra busy
  have soon := booked.order fd (booked.lost up) busy
  rw [ResetSoon, phase] at soon
  obtain ⟨before, after, same, free⟩ := soon
  cases before with
  | nil => exact nomatch (List.cons.inj same).1
  | cons first before =>
    obtain ⟨rfl, -⟩ := List.cons.inj same
    exact free List.mem_cons_self

theorem Booked.room_of_active (booked : Booked s) {active : List Nat}
    (phase : s.phase = .handling active) (inside : fd ∈ active) (up : fd ∈ s.established) :
    s.channel = none := by
  by_contra busy
  have soon := booked.order fd (booked.lost up) busy
  rw [ResetSoon, phase] at soon
  exact soon.1 inside

structure Quiet (s s' : TcpClient) : Prop where
  booked : Booked s'
  failed : s'.failed = s.failed
  timers : s'.timers = s.timers
  state : s'.state = s.state

theorem Booked.call (booked : Booked s) {batch : List Task}
    (phase : s.phase = .calling (task :: batch)) (retry : Bool) (errno : Errno) :
    s.state ≠ .kDisconnected ∧
        Started s ({ s with phase := .calling batch }.call task retry errno) ∨
      Quiet s ({ s with phase := .calling batch }.call task retry errno) := by
  cases task with
  | resetChannel => exact .inr ⟨booked.resetChannel phase, rfl, rfl, rfl⟩
  | stopInLoop =>
    have taken := booked.taken phase nofun
    by_cases now : s.state = .kConnecting
    · have started := taken.stopInLoop now
      exact .inl ⟨by rw [now]; exact nofun, started.booked, started.failed, started.timers⟩
    · have told : TcpClient.stopInLoop { s with phase := .calling batch } =
          { s with phase := .calling batch } := if_neg now
      rw [TcpClient.call, told]
      exact .inr ⟨taken, rfl, rfl, rfl⟩
  | forceCloseInLoop fd =>
    have taken := booked.taken phase nofun
    rw [TcpClient.call]
    dsimp only
    split
    · rename_i up
      have started := taken.removeConnection up (booked.room_of_task phase up) retry errno
      have state := (booked.connected fd (booked.lost up)).1
      exact .inl ⟨by rw [state]; exact nofun, started.booked, started.failed, started.timers⟩
    · exact .inr ⟨taken, rfl, rfl, rfl⟩

theorem Booked.doPendingFunctors (booked : Booked s) {active : List Nat}
    (phase : s.phase = .handling active) :
    Booked { s with phase := .calling s.pendingFunctors, pendingFunctors := [] } := by
  have queue : s.queue = s.pendingFunctors ++ [] := by
    rw [TcpClient.queue, phase, List.append_nil]
  refine { booked with
    resets := (congrArg (List.count _) queue).symm.trans booked.resets
    closings := fun k inside => booked.closings k (queue ▸ inside)
    reported := nofun, order := fun k some_ busy => ?_ }
  have soon := booked.order k some_ busy
  rw [ResetSoon, phase] at soon
  exact soon.2

theorem Booked.poll (booked : Booked s) (phase : s.phase = .calling []) :
    Booked { s with phase := .handling s.established } := by
  have queue : s.queue = s.pendingFunctors := queue_calling phase
  refine { booked with
    resets := (congrArg (List.count _) queue).symm.trans booked.resets
    closings := fun k inside => booked.closings k (queue ▸ inside)
    reported := fun active same k inside => ?_, order := fun k some_ busy => ?_ }
  · cases same
    exact (booked.connected k (booked.lost inside)).2
  · have soon := booked.order k some_ busy
    rw [ResetSoon, phase] at soon
    obtain ⟨before, after, same, -⟩ := soon
    exact absurd same (by simp)

/-! ### Every step -/

inductive Stepped (s : TcpClient) : ClientStep → TcpClient → Prop
  | connect {base : TcpClient} {errno : Errno} : Booked base → base.failed = s.failed →
      base.state = s.state → base.channel = s.channel → base.timers = s.timers →
      Stepped s (.connect errno) (base.startInLoop errno)
  | timer {base : TcpClient} {i : Nat} {errno : Errno} : Booked base → base.failed = s.failed →
      base.state = s.state → base.channel = s.channel → base.connect_ = s.connect_ →
      i < s.timers.length → base.timers = s.timers.eraseIdx i →
      Stepped s (.timer i errno) (base.startInLoop errno)
  | busy {e : ClientStep} {s' : TcpClient} : s.state ≠ .kDisconnected → Started s s' →
      Stepped s e s'
  | quiet {e : ClientStep} {s' : TcpClient} : Quiet s s' → Stepped s e s'

theorem Booked.step (booked : Booked s) {e : ClientStep} (took : s.step e = some s') :
    s.failed = false ∧ Stepped s e s' := by
  unfold TcpClient.step at took
  split at took
  · exact nomatch took
  · rename_i fine
    refine ⟨Bool.eq_false_iff.mpr fine, ?_⟩
    cases e with
    | connect errno =>
      cases took
      exact .connect { booked with } rfl rfl rfl rfl
    | stop =>
      cases took
      have queued : Booked (s.queueInLoop .stopInLoop) := booked.queueInLoop nofun nofun
      exact .quiet ⟨{ queued with }, rfl, rfl, rfl⟩
    | disconnect =>
      cases took
      exact .quiet ⟨{ booked with }, rfl, rfl, rfl⟩
    | forceClose fd =>
      obtain ⟨up, same⟩ := Option.ite_none_right_eq_some.mp took
      cases same
      refine .quiet ⟨booked.queueInLoop nofun ?_, rfl, rfl, rfl⟩
      rintro k ⟨⟩
      exact (booked.connected fd (booked.lost up)).2
    | timer i errno =>
      cases phase : s.phase with
      | handling active =>
        rw [phase] at took
        obtain ⟨waits, same⟩ := Option.ite_none_right_eq_some.mp took
        rw [← phase] at same
        cases same
        exact .timer { booked with } rfl rfl rfl rfl waits rfl
      | calling batch =>
        rw [phase] at took
        exact nomatch took
    | handleEvent error writable soError selfConnect =>
      cases phase : s.phase with
      | handling active =>
        rw [phase] at took
        obtain ⟨registered, same⟩ := Option.ite_none_right_eq_some.mp took
        cases same
        have now := booked.connecting_of_registered registered
        exact .busy (by rw [now]; exact nofun)
          (booked.handleEvent now phase error writable soError selfConnect)
      | calling batch =>
        rw [phase] at took
        exact nomatch took
    | lost fd retry errno =>
      cases phase : s.phase with
      | handling active =>
        rw [phase] at took
        obtain ⟨⟨inside, up⟩, same⟩ := Option.ite_none_right_eq_some.mp took
        cases same
        have state := (booked.connected fd (booked.lost up)).1
        exact .busy (by rw [state]; exact nofun)
          (booked.removeConnection up (booked.room_of_active phase inside up) retry errno)
      | calling batch =>
        rw [phase] at took
        exact nomatch took
    | doPendingFunctors =>
      cases phase : s.phase with
      | handling active =>
        rw [phase] at took
        cases took
        exact .quiet ⟨booked.doPendingFunctors phase, rfl, rfl, rfl⟩
      | calling batch =>
        rw [phase] at took
        exact nomatch took
    | functor retry errno =>
      rcases phase : s.phase with active | _ | ⟨task, batch⟩
      · rw [phase] at took
        exact nomatch took
      · rw [phase] at took
        exact nomatch took
      · rw [phase] at took
        cases took
        exact (booked.call phase retry errno).elim (fun both => .busy both.1 both.2) .quiet
    | poll =>
      rcases phase : s.phase with active | _ | ⟨task, batch⟩
      · rw [phase] at took
        exact nomatch took
      · rw [phase] at took
        cases took
        exact .quiet ⟨booked.poll phase, rfl, rfl, rfl⟩
      · rw [phase] at took
        exact nomatch took

theorem booked_of_reach (reach : Reachable machine s) : s.failed = true ∨ Booked s := by
  refine reach.invariant (P := fun s => s.failed = true ∨ Booked s) ?_ ?_
  · rintro _ rfl
    exact .inr .new
  · rintro s e t (broken | booked) - took
    · have dead : s.step e = none := if_pos broken
      exact nomatch dead.symm.trans took
    · obtain ⟨-, stepped⟩ := booked.step took
      cases stepped with
      | connect base => exact base.startInLoop_or _
      | timer base => exact base.startInLoop_or _
      | busy _ started => exact .inr started.booked
      | quiet quiet => exact .inr quiet.booked

/-! ### Runs with care -/

/-- A retry timer waits only while the connector is at rest, and then it is the only one. -/
structure Calm (s : TcpClient) : Prop where
  booked : Booked s
  failed : s.failed = false
  timers : s.timers = [] ∨ s.state = .kDisconnected ∧ s.timers.length = 1

theorem Started.calm {base : TcpClient} (started : Started base s') (fine : base.failed = false)
    (none_ : base.timers = []) : Calm s' := by
  refine ⟨started.booked, started.failed.trans fine, ?_⟩
  rcases started.timers with same | ⟨rest, delay, more⟩
  · exact .inl (same.trans none_)
  · exact .inr ⟨rest, by rw [more, none_]; rfl⟩

theorem Calm.step (calm : Calm s) {e : ClientStep} (careful : s.Careful e)
    (took : s.step e = some s') : Calm s' := by
  obtain ⟨-, stepped⟩ := calm.booked.step took
  cases stepped with
  | @connect base errno booked failed state channel timers =>
    have started : Started base (base.startInLoop errno) :=
      booked.startInLoop (state.trans careful.1) fun _ starts => channel.trans (careful.2.2 starts)
    exact started.calm (failed.trans calm.failed) (timers.trans careful.2.1)
  | @timer base i errno booked failed state channel wants waits timers =>
    have some_ : s.timers ≠ [] := fun none_ => by
      rw [none_] at waits
      exact nomatch waits
    obtain ⟨rest, one⟩ := calm.timers.resolve_left some_
    have none_ : base.timers = [] := by
      rw [timers]
      refine List.eq_nil_of_length_eq_zero ?_
      rw [List.length_eraseIdx_of_lt waits, one]
    have started : Started base (base.startInLoop errno) :=
      booked.startInLoop (state.trans rest) fun connects starts =>
        channel.trans (careful (wants ▸ connects) starts)
    exact started.calm (failed.trans calm.failed) none_
  | busy other started =>
    exact started.calm calm.failed (calm.timers.resolve_right fun both => other both.1)
  | quiet quiet =>
    exact ⟨quiet.booked, quiet.failed.trans calm.failed, quiet.timers ▸ quiet.state ▸ calm.timers⟩

/-- In a run with care no assertion fails. In every run, as long as none fails, one socket at most
is being connected, the others are closed or handed over once, and none is handed over while
`connect_` is not set. -/
theorem connector_runs (s : TcpClient) :
    (Reach machine Careful s → s.failed = false ∧ s.Accounted) ∧
    (Reachable machine s → s.failed = false → s.Accounted) := by
  constructor
  · intro reach
    have calm : Calm s := by
      refine reach.invariant (P := Calm) ?_ ?_
      · rintro _ rfl
        exact ⟨.new, rfl, .inl rfl⟩
      · intro s e t calm careful took
        exact calm.step careful took
    exact ⟨calm.failed, calm.booked.accounted⟩
  · intro reach fine
    rcases booked_of_reach reach with broken | booked
    · exact nomatch fine.symm.trans broken
    · exact booked.accounted

/-- A client that is refused, comes through at the second attempt, loses the connection and
connects again. -/
def reconnects : List ClientStep :=
  [ClientStep.connect .ECONNREFUSED, .doPendingFunctors, .poll, .timer 0 .EINPROGRESS,
    .handleEvent false true false false, .doPendingFunctors, .functor false .none, .poll,
    .lost 1 true .EINPROGRESS]

theorem connector_runs_reconnects : ∃ s : TcpClient, s.closed = [0] ∧ s.handed = [(1, true)] ∧
    s.state = .kConnecting ∧ s.failed = false ∧ s.Accounted := by
  have runs : ((execWhere machine Careful new reconnects).any fun s => decide (s.closed = [0] ∧
      s.handed = [(1, true)] ∧ s.state = .kConnecting)) = true := by decide +kernel
  obtain ⟨s, ran, holds⟩ := (Option.any_eq_true _ _).mp runs
  obtain ⟨closed, handed, state⟩ := of_decide_eq_true holds
  exact ⟨s, closed, handed, state, (connector_runs s).1 (Reach.execWhere (.start rfl) ran)⟩

/-- A second call while the first attempt goes on, a call before the channel has been reset, a retry
timer left over by an attempt before `stop`, one that comes before the channel has been reset, and a
call after the connection was lost. -/
def leftovers : List (List ClientStep) :=
  [[.connect .EINPROGRESS, .connect .EINPROGRESS],
    [.connect .EINPROGRESS, .stop, .doPendingFunctors, .functor false .none, .connect .EINPROGRESS],
    [.connect .ECONNREFUSED, .stop, .connect .EINPROGRESS, .timer 0 .EINPROGRESS],
    [.connect .EINPROGRESS, .handleEvent true true true false, .timer 0 .EINPROGRESS],
    [.connect .EINPROGRESS, .handleEvent false true false false, .doPendingFunctors,
      .functor false .none, .poll, .lost 0 false .none, .connect .EINPROGRESS]]

theorem leftovers_fail : leftovers.Forall fun steps => ∃ s, Reachable machine s ∧
    exec machine new steps = some s ∧ s.failed = true := by
  have runs : ∀ steps ∈ leftovers, (exec machine new steps).any (·.failed) = true := by
    decide +kernel
  refine List.forall_iff_forall_mem.mpr fun steps inside => ?_
  obtain ⟨s, ran, broken⟩ := (Option.any_eq_true _ _).mp (runs steps inside)
  exact ⟨s, Reach.exec (.start rfl) ran, ran, broken⟩

end TcpClient

end ProjectsCpp.MuduoNet
