import ProjectsCpp.Muduo.Buffer
import ProjectsCpp.Lib.Run

/-! A connection (`TcpConnection.cc`, `Channel.h` and the channel part of `EPollPoller.cc` of
muduo_cpp11). What the kernel answers is an argument; what the connection asks of the kernel, of the
poller and of the callbacks is kept in `calls`. The functors it queues stand in `functors`. -/

namespace ProjectsCpp.Muduo
open ProjectsCpp.Run

inductive StateE where
  | kDisconnected
  | kConnecting
  | kConnected
  | kDisconnecting
deriving DecidableEq

inductive Index where
  | kNew
  | kAdded
  | kDeleted
deriving DecidableEq

inductive CtlOp where
  | add
  | mod
  | del
deriving DecidableEq

inductive Errno where
  | EWOULDBLOCK
  | EPIPE
  | ECONNRESET
  | other
deriving DecidableEq

inductive WriteResult where
  | accepted (n : Nat)
  | failed (errno : Errno)
deriving DecidableEq

/-- `received []` is the end of the stream. -/
inductive ReadResult where
  | received (data : List UInt8)
  | failed
deriving DecidableEq

inductive Call where
  | write (data : List UInt8) (result : WriteResult)
  | append (data : List UInt8)
  | epollCtl (op : CtlOp)
  | shutdownWrite
  | setState (state : StateE)
  | connectionCallback (connected : Bool)
  | messageCallback
  | closeCallback
deriving DecidableEq

/-- What a connection queues; `D` is what a queued send holds of its data. -/
inductive Functor (D : Type) where
  | connectEstablished
  | sendInLoop (data : D)
  | shutdownInLoop
  | writeCompleteCallback
  | highWaterMarkCallback (len : Nat)
  | connectDestroyed
deriving DecidableEq

structure Channel where
  reading : Bool
  writing : Bool
  index : Index
deriving DecidableEq

namespace Channel

def new : Channel := ⟨false, false, .kNew⟩

def isNoneEvent (ch : Channel) : Bool := !ch.reading && !ch.writing

def updateChannel (ch : Channel) : CtlOp × Channel :=
  match ch.index with
  | .kNew | .kDeleted => (.add, { ch with index := .kAdded })
  | .kAdded => if ch.isNoneEvent then (.del, { ch with index := .kDeleted }) else (.mod, ch)

end Channel

structure TcpConnection (D : Type) where
  state : StateE
  channel : Channel
  writeCompleteCallback : Bool
  highWaterMarkCallback : Bool
  highWaterMark : Nat
  inputBuffer : Buffer
  outputBuffer : Buffer
  functors : List (Functor D)
  calls : List Call
deriving DecidableEq

def accepted (calls : List Call) : List UInt8 :=
  calls.flatMap fun
    | .write data (.accepted n) => data.take n
    | _ => []

namespace TcpConnection
variable {D : Type} (c : TcpConnection D) (data : List UInt8) (w : WriteResult)

def new (writeCompleteCallback highWaterMarkCallback : Bool) (highWaterMark : Nat) :
    TcpConnection D :=
  ⟨.kConnecting, .new, writeCompleteCallback, highWaterMarkCallback, highWaterMark,
    .new kInitialSize, .new kInitialSize, [], []⟩

def call (a : Call) : TcpConnection D := { c with calls := c.calls ++ [a] }

def queueInLoop (f : Functor D) : TcpConnection D := { c with functors := c.functors ++ [f] }

def setState (state : StateE) : TcpConnection D := { c with state := state }.call (.setState state)

def update : TcpConnection D :=
  { c with channel := c.channel.updateChannel.2 }.call (.epollCtl c.channel.updateChannel.1)

def enableReading : TcpConnection D :=
  { c with channel := { c.channel with reading := true } }.update

def enableWriting : TcpConnection D :=
  { c with channel := { c.channel with writing := true } }.update

def disableWriting : TcpConnection D :=
  { c with channel := { c.channel with writing := false } }.update

def disableAll : TcpConnection D :=
  { c with channel := { c.channel with reading := false, writing := false } }.update

def remove : TcpConnection D :=
  let c := if c.channel.index = .kAdded then c.call (.epollCtl .del) else c
  { c with channel := { c.channel with index := .kNew } }

/-- The test of the high water mark in `sendInLoop`. -/
def checkMark (remaining : Nat) : TcpConnection D :=
  let oldLen := c.outputBuffer.readableBytes
  if oldLen + remaining ≥ c.highWaterMark ∧ oldLen < c.highWaterMark ∧ c.highWaterMarkCallback then
    c.queueInLoop (.highWaterMarkCallback (oldLen + remaining))
  else c

def watchOutput : TcpConnection D := if ¬ c.channel.writing then c.enableWriting else c

/-- The last part of `sendInLoop`, for what `write` did not accept. -/
def appendOutput (rest : List UInt8) : TcpConnection D :=
  if 0 < rest.length then
    let c := c.checkMark rest.length
    ({ c with outputBuffer := c.outputBuffer.append rest }.call (.append rest)).watchOutput
  else c

def queueWriteComplete : TcpConnection D :=
  if c.writeCompleteCallback then c.queueInLoop .writeCompleteCallback else c

/-- In `kDisconnected` the source logs an error and goes on. -/
def sendInLoop : TcpConnection D :=
  if ¬ c.channel.writing ∧ c.outputBuffer.readableBytes = 0 then
    let c := c.call (.write data w)
    match w with
    | .accepted n =>
      let c := if data.length - n = 0 then c.queueWriteComplete else c
      c.appendOutput (data.drop n)
    | .failed errno => if errno = .EPIPE ∨ errno = .ECONNRESET then c else c.appendOutput data
  else c.appendOutput data

def shutdownInLoop : TcpConnection D :=
  if ¬ c.channel.writing then c.call .shutdownWrite else c

def send : TcpConnection D := if c.state = .kConnected then c.sendInLoop data w else c

def shutdown : TcpConnection D :=
  if c.state = .kConnected then (c.setState .kDisconnecting).shutdownInLoop else c

def connectionCallback : TcpConnection D :=
  c.call (.connectionCallback (c.state = .kConnected))

def connectEstablished : TcpConnection D :=
  (c.setState .kConnected).enableReading.connectionCallback

def connectDestroyed : TcpConnection D :=
  (if c.state = .kConnected then (c.setState .kDisconnected).disableAll.connectionCallback
    else c).remove

/-- The last part of `handleWrite`, where the kernel took all that was in the buffer. -/
def outputDone : TcpConnection D :=
  let c := c.disableWriting.queueWriteComplete
  if c.state = .kDisconnecting then c.shutdownInLoop else c

def handleWrite : TcpConnection D :=
  if c.channel.writing then
    let c := c.call (.write c.outputBuffer.readable w)
    match w with
    | .accepted n =>
      if 0 < n then
        let c := { c with outputBuffer := c.outputBuffer.retrieve n }
        if c.outputBuffer.readableBytes = 0 then c.outputDone else c
      else c
    | .failed _ => c
  else c

def handleClose : TcpConnection D :=
  ((c.setState .kDisconnected).disableAll.connectionCallback).call .closeCallback

def handleRead (r : ReadResult) : TcpConnection D :=
  match r with
  | .received [] => c.handleClose
  | .received data => { c with inputBuffer := c.inputBuffer.readFd data }.call .messageCallback
  | .failed => c

def withFunctors (functors : List (Functor D)) : TcpConnection D := { c with functors := functors }

/-- A functor that the loop takes; `data` is what a queued send finds, and the other callbacks do
nothing to the connection. -/
def runFunctor (data : D → List UInt8) : Functor D → TcpConnection D
  | .connectEstablished => c.connectEstablished
  | .sendInLoop d => c.sendInLoop (data d) w
  | .shutdownInLoop => c.shutdownInLoop
  | .writeCompleteCallback | .highWaterMarkCallback _ => c
  | .connectDestroyed => c.connectDestroyed

end TcpConnection

end ProjectsCpp.Muduo
