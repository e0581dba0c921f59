import ProjectsCpp.KvRaft.Wire
import Mathlib.Data.List.Sort
import Mathlib.Data.List.OfFn
import Mathlib.Data.Fin.Basic

/-! One Raft object of kvRaft (`raft.hpp`): its data, its file, and its critical
sections as functions. A section of the source that indexes a vector out of range,
throws, or uses an uninitialised variable gives `none`. Wall-clock tests are left to
the caller, so every time-out is possible at every moment. -/

namespace ProjectsCpp.KvRaft
open ProjectsCpp.Text

inductive RaftState where
  | LEADER
  | CANDIDATE
  | FOLLOWER
deriving DecidableEq

/-- The file `persister-<id>`. The code writes in place (`O_WRONLY | O_CREAT`), which
keeps an old tail; `atomic` replaces the whole file instead. `saved` and `voteErased`
are history: the record last written, and whether that write was the early one of a
handler that had just cleared a vote. No function of the code reads them. -/
structure PersisterFile where
  atomic : Bool
  bytes : Option Str
  saved : Option Persister
  voteErased : Bool

def PersisterFile.write (f : PersisterFile) (p : Persister) : PersisterFile :=
  { f with
    bytes := some (if f.atomic then p.serialize
      else p.serialize ++ (f.bytes.getD []).drop p.serialize.length)
    saved := some p
    voteErased := false }

structure Raft (n : Nat) where
  peerId : Fin n
  dead : Bool
  curTerm : Int
  votedFor : Int
  logs : List LogEntry
  lastIncludedIndex : Int
  lastIncludedTerm : Int
  nextIndex : Fin n → Int
  matchIndex : Fin n → Int
  lastApplied : Int
  commitIndex : Int
  recvVotes : Nat
  finishedVote : Nat
  curPeerId : Nat
  state : RaftState
  isInstallFlag : Fin n → Bool
  isExistIndex : List (Fin n)
  persister : Persister
  file : PersisterFile
  snapFile : Option Str
  /-- `recvSnapShot` has returned without unlocking `m_lock`. -/
  lockKept : Bool

/-! Clusters of two and of three nodes are run below. -/

scoped instance two_nodes : @NeZero Nat Zero.ofOfNat0 2 := ⟨by decide⟩

scoped instance three_nodes : @NeZero Nat Zero.ofOfNat0 3 := ⟨by decide⟩

namespace Raft
variable {n : Nat}

def id (r : Raft n) : Int := r.peerId.val

/-! ### Log positions -/

def idxToCompressLogPos (r : Raft n) (index : Int) : Int := index - r.lastIncludedIndex - 1

def lastIndex (r : Raft n) : Int := r.lastIncludedIndex + r.logs.length

def lastTerm (r : Raft n) : Int :=
  match r.logs.getLast? with
  | some e => e.term
  | none => r.lastIncludedTerm

def entryAt (r : Raft n) (index : Int) : Option LogEntry :=
  if r.idxToCompressLogPos index < 0 then none
  else r.logs[(r.idxToCompressLogPos index).toNat]?

theorem entryAt_eq (r : Raft n) (index : Int) :
    r.entryAt index = if index ≤ r.lastIncludedIndex then none
      else r.logs[(index - r.lastIncludedIndex - 1).toNat]? := by
  have position : r.idxToCompressLogPos index = index - r.lastIncludedIndex - 1 := rfl
  by_cases below : index ≤ r.lastIncludedIndex
  · rw [entryAt, if_pos (by omega), if_pos below]
  · rw [entryAt, if_neg (by omega), if_neg below, position]

def popBack : Nat → List LogEntry → List LogEntry
  | 0, logs => logs
  | k + 1, logs => popBack k logs.dropLast

theorem popBack_eq_take (k : Nat) (logs : List LogEntry) :
    popBack k logs = logs.take (logs.length - k) := by
  induction k generalizing logs with
  | zero => simp [popBack]
  | succ k ih =>
    rw [popBack, ih, List.length_dropLast, List.dropLast_eq_take, List.take_take]
    congr 1
    omega

def pushBackLog (r : Raft n) (e : LogEntry) : Raft n := { r with logs := r.logs ++ [e] }

/-! ### Persistence -/

def saveRaftState (r : Raft n) : Raft n :=
  let p : Persister :=
    { r.persister with
      curTerm := r.curTerm
      votedFor := r.votedFor
      logs := r.logs
      lastIncludedIndex := r.lastIncludedIndex
      lastIncludedTerm := r.lastIncludedTerm }
  { r with persister := p, file := r.file.write p }

/-- `readRaftState` restores the term and the vote and appends the saved log; it leaves
the snapshot index and term alone. -/
def readRaftState (r : Raft n) : Option (Raft n) :=
  match r.file.bytes with
  | none => some r
  | some bytes =>
    (deserialize bytes r.persister.snapShot).map fun p =>
      { r with
        persister := p
        curTerm := p.curTerm
        votedFor := p.votedFor
        logs := r.logs ++ p.logs }

def saveSnapShot (r : Raft n) : Raft n :=
  let text := r.persister.snapShot ++ ['\x00']
  { r with snapFile := some (text ++ (r.snapFile.getD []).drop text.length) }

def readSnapShot (r : Raft n) : Option (Raft n) :=
  r.snapFile.map fun bytes =>
    { r with persister := { r.persister with snapShot := bytes.takeWhile (· ≠ '\x00') } }

/-! ### Elections -/

def electionStart (r : Raft n) : Option (Raft n) :=
  if r.state = .LEADER then none
  else
    let r := { r with state := .CANDIDATE, curTerm := r.curTerm + 1, votedFor := r.id }
    some { r.saveRaftState with recvVotes := 1, finishedVote := 1, curPeerId := 0 }

def electionWake (r : Raft n) : Option (Raft n) :=
  if r.recvVotes ≤ n / 2 ∧ r.finishedVote ≠ n then none
  else if r.state ≠ .CANDIDATE then some r
  else if r.recvVotes > n / 2 then
    some { r with
      state := .LEADER
      nextIndex := fun _ => r.lastIndex + 1
      matchIndex := fun _ => 0 }
  else some r

def nextPeer (n self cur : Nat) : Nat × Nat :=
  let chosen := if cur = self then cur + 1 else cur
  let next := chosen + 1
  (chosen, if next = n ∨ (next = n - 1 ∧ self = next) then 0 else next)

def callRequestVote (r : Raft n) : Option (Raft n × Fin n × RequestVoteArgs) :=
  let peer := nextPeer n r.peerId r.curPeerId
  if h : peer.1 < n then
    some ({ r with curPeerId := peer.2 }, ⟨peer.1, h⟩,
      { term := r.curTerm
        candidateId := r.id
        lastLogTerm := r.lastTerm
        lastLogIndex := r.lastIndex })
  else none

def voteReply (r : Raft n) (reply : RequestVoteReply) : Option (Raft n) :=
  let r := { r with finishedVote := r.finishedVote + 1 }
  if reply.term > r.curTerm then
    { r with state := .FOLLOWER, curTerm := reply.term, votedFor := -1 }.readRaftState
  else if reply.voteGranted then some { r with recvVotes := r.recvVotes + 1 }
  else some r

def checkLogUptodate (r : Raft n) (term index : Int) : Bool :=
  if term > r.lastTerm then true
  else if term = r.lastTerm ∧ index ≥ r.lastIndex then true
  else false

def stepDown (r : Raft n) (term : Int) : Raft n :=
  if r.curTerm < term then { r with state := .FOLLOWER, curTerm := term, votedFor := -1 } else r

def requestVote (r : Raft n) (args : RequestVoteArgs) : Raft n × RequestVoteReply :=
  if r.curTerm > args.term then (r, ⟨r.curTerm, false⟩)
  else
    let s := r.stepDown args.term
    if s.votedFor = -1 ∨ s.votedFor = args.candidateId then
      if s.checkLogUptodate args.lastLogTerm args.lastLogIndex then
        ({ s with votedFor := args.candidateId }.saveRaftState, ⟨r.curTerm, true⟩)
      else (s, ⟨r.curTerm, false⟩)
    else (s.saveRaftState, ⟨r.curTerm, false⟩)

/-! ### Log replication -/

def clearVote (r : Raft n) : Raft n :=
  let s := { r with votedFor := -1 }.saveRaftState
  { s with file := { s.file with voteErased := decide (r.votedFor ≠ -1) } }

def enterTerm (r : Raft n) (term : Int) : Raft n :=
  let s := if term > r.curTerm then r.clearVote else r
  { s with curTerm := term, state := .FOLLOWER }

def firstIndexOfTerm (r : Raft n) (term : Int) : Int → Nat → Int
  | _, 0 => -1
  | index, count + 1 =>
    if (r.entryAt index).map LogEntry.term = some term then index
    else firstIndexOfTerm r term (index + 1) count

/-- The tests of `appendEntries` on `prevLogIndex` and `prevLogTerm`: `some none` lets the
request pass, `some (some reply)` refuses it. -/
def checkPrevLog (r : Raft n) (args : AppendEntriesArgs) (term : Int) :
    Option (Option AppendEntriesReply) :=
  if r.dead then some (some ⟨term, false, -100, -1⟩)
  else if args.prevLogIndex < r.lastIncludedIndex then some (some ⟨term, false, -1, 1⟩)
  else if args.prevLogIndex = r.lastIncludedIndex then
    if args.prevLogTerm ≠ r.lastIncludedTerm then some (some ⟨term, false, -1, 1⟩)
    else some none
  else if r.lastIndex < args.prevLogIndex then
    some (some ⟨term, false, -1, r.lastIndex + 1⟩)
  else
    (r.entryAt args.prevLogIndex).map fun e =>
      if e.term ≠ args.prevLogTerm then
        some ⟨term, false, e.term, r.firstIndexOfTerm e.term (r.lastIncludedIndex + 1)
          (args.prevLogIndex - r.lastIncludedIndex).toNat⟩
      else none

/-- The overwriting part of `appendEntries`: everything after `prevLogIndex` goes, whatever
was received is appended. -/
def overwriteLog (r : Raft n) (args : AppendEntriesArgs) (recvLog : List LogEntry) : Raft n :=
  let logs := popBack (r.lastIndex - args.prevLogIndex).toNat r.logs ++ recvLog
  let s := { r with logs := logs }.saveRaftState
  if s.commitIndex < args.leaderCommit then
    { s with commitIndex := min args.leaderCommit s.lastIndex }
  else s

def appendEntries (r : Raft n) (args : AppendEntriesArgs) :
    Option (Raft n × AppendEntriesReply) :=
  match getCmdAndTerm args.sendLogs with
  | none => none
  | some recvLog =>
    if args.term < r.curTerm then some (r, ⟨r.curTerm, false, -1, -1⟩)
    else
      let s := r.enterTerm args.term
      (s.checkPrevLog args r.curTerm).map fun
        | some reply => (s, reply)
        | none => (s.overwriteLog args recvLog, ⟨r.curTerm, true, -1, -1⟩)

def processEntries (r : Raft n) : Option (Raft n × Nat × Nat) :=
  if r.state ≠ .LEADER then none
  else
    let behind := fun p : Fin n => decide (p ≠ r.peerId ∧ r.nextIndex p ≤ r.lastIncludedIndex)
    let installs := (List.finRange n).countP behind
    some ({ r with isInstallFlag := fun p => behind p || r.isInstallFlag p },
      n - 1 - installs, installs)

/-- The peer chosen by `sendAppendEntries` (`install = false`) and `sendInstallSnapShot`, with
the flags after it. When no peer is left the source uses an uninitialised index. -/
def takePeer (r : Raft n) (install : Bool) : Option (Fin n × Raft n) :=
  ((List.finRange n).find? fun p =>
      decide (p ≠ r.peerId ∧ r.isInstallFlag p = install ∧ p ∉ r.isExistIndex)).map fun p =>
    let taken := p :: r.isExistIndex
    (p, if taken.length = n - 1 then { r with isInstallFlag := fun _ => false, isExistIndex := [] }
      else { r with isExistIndex := taken })

/-- The entries of the loop `for(int i = idxToCompressLogPos(prev) + 1; i < m_logs.size(); i++)`;
a negative `i` compares as a huge unsigned number. -/
def logsAfter (r : Raft n) (index : Int) : List LogEntry :=
  if r.idxToCompressLogPos index + 1 < 0 then []
  else r.logs.drop (r.idxToCompressLogPos index + 1).toNat

def prevTermOf (r : Raft n) (index : Int) : Option Int :=
  if index = r.lastIncludedIndex then some r.lastIncludedTerm
  else (r.entryAt index).map LogEntry.term

def sendAppendEntries (r : Raft n) : Option (Raft n × Fin n × AppendEntriesArgs) :=
  match r.takePeer false with
  | none => none
  | some (peer, s) =>
    (s.prevTermOf (s.nextIndex peer - 1)).map fun prevLogTerm =>
      (s, peer,
        { term := s.curTerm
          leaderId := s.id
          prevLogIndex := s.nextIndex peer - 1
          prevLogTerm := prevLogTerm
          leaderCommit := s.commitIndex
          sendLogs := sendLogsOf (s.logsAfter (s.nextIndex peer - 1)) })

def realMajorityMatchIndex (r : Raft n) : Int :=
  ((List.ofFn r.matchIndex).insertionSort (· ≤ ·)).getD (n / 2) 0

def advanceCommit (r : Raft n) : Option (Raft n) :=
  let index := r.realMajorityMatchIndex
  if index > r.commitIndex then
    if index ≤ r.lastIncludedIndex then some { r with commitIndex := index }
    else
      (r.entryAt index).map fun e =>
        if e.term = r.curTerm then { r with commitIndex := index } else r
  else some r

/-- The last index down to `m_lastIncludedIndex + 1`, among `count` ending at `index`, whose
entry has the term; `-1` when there is none. -/
def lastIndexOfTerm (r : Raft n) (term : Int) : Int → Nat → Option Int
  | _, 0 => some (-1)
  | index, count + 1 =>
    match r.entryAt index with
    | none => none
    | some e => if e.term = term then some index else lastIndexOfTerm r term (index - 1) count

def setNextIndex (r : Raft n) (peer : Fin n) (index : Int) : Raft n :=
  { r with nextIndex := Function.update r.nextIndex peer index }

def setMatchIndex (r : Raft n) (peer : Fin n) (index : Int) : Raft n :=
  { r with matchIndex := Function.update r.matchIndex peer index }

def backOff (r : Raft n) (peer : Fin n) (args : AppendEntriesArgs)
    (reply : AppendEntriesReply) : Option (Raft n) :=
  if reply.conflictTerm ≠ -1 ∧ reply.conflictTerm ≠ -100 then
    (r.lastIndexOfTerm reply.conflictTerm args.prevLogIndex
        (args.prevLogIndex - r.lastIncludedIndex).toNat).map fun leaderConflictIndex =>
      if leaderConflictIndex ≠ -1 then r.setNextIndex peer (leaderConflictIndex + 1)
      else r.setNextIndex peer reply.conflictIndex
  else if reply.conflictTerm = -100 then some r
  else some (r.setNextIndex peer reply.conflictIndex)

def appendReply (r : Raft n) (peer : Fin n) (args : AppendEntriesArgs)
    (reply : AppendEntriesReply) : Option (Raft n) :=
  if r.curTerm ≠ args.term then some r
  else if reply.term > r.curTerm then
    some ({ r with state := .FOLLOWER, curTerm := reply.term, votedFor := -1 }.saveRaftState)
  else if reply.success then
    match getCmdAndTerm args.sendLogs with
    | none => none
    | some sent =>
      let next := args.prevLogIndex + sent.length + 1
      let s := ((r.setNextIndex peer next).setMatchIndex peer (next - 1)).setMatchIndex
        r.peerId r.lastIndex
      s.advanceCommit.map saveRaftState
  else (r.backOff peer args reply).map saveRaftState

def start (r : Raft n) (command : Str) : Raft n × StartRet :=
  if r.state ≠ .LEADER then (r, ⟨-1, -1, false⟩)
  else
    let s := r.pushBackLog ⟨command, r.curTerm⟩
    (s, ⟨s.lastIndex, s.curTerm, true⟩)

/-! ### Snapshots -/

def sendInstallSnapShot (r : Raft n) : Option (Raft n × Fin n × InstallSnapShotArgs) :=
  (r.takePeer true).map fun (peer, s) =>
    let s := s.readSnapShot.getD s
    (s, peer,
      { term := s.curTerm
        leaderId := s.id
        lastIncludedIndex := s.lastIncludedIndex
        lastIncludedTerm := s.lastIncludedTerm
        snapShot := s.persister.snapShot })

def installReply (r : Raft n) (peer : Fin n) (args : InstallSnapShotArgs)
    (reply : InstallSnapSHotReply) : Option (Raft n) :=
  if r.curTerm ≠ args.term then some r
  else if r.curTerm < reply.term then
    some ({ r with state := .FOLLOWER, votedFor := -1, curTerm := reply.term }.saveRaftState)
  else
    (((r.setNextIndex peer (r.lastIndex + 1)).setMatchIndex peer args.lastIncludedIndex).setMatchIndex
      r.peerId r.lastIndex).advanceCommit

def logsAfterSnapShot (r : Raft n) (args : InstallSnapShotArgs) : Option (List LogEntry) :=
  if args.lastIncludedIndex < r.lastIndex then
    (r.entryAt r.lastIndex).map fun e =>
      if e.term ≠ args.lastIncludedTerm then []
      else r.logs.drop (r.idxToCompressLogPos args.lastIncludedIndex + 1).toNat
  else some []

/-- The locked part of `installSnapShot`; the flag says that `installSnapShotTokvServer` is
called after the lock is released. -/
def installSnapShot (r : Raft n) (args : InstallSnapShotArgs) :
    Option (Raft n × InstallSnapSHotReply × Bool) :=
  if args.term < r.curTerm then some (r, ⟨r.curTerm⟩, false)
  else
    let s := r.enterTerm args.term
    if args.lastIncludedIndex ≤ s.lastIncludedIndex then some (s, ⟨r.curTerm⟩, false)
    else
      (s.logsAfterSnapShot args).map fun logs =>
        let t := { s with
          logs := logs
          lastIncludedIndex := args.lastIncludedIndex
          lastIncludedTerm := args.lastIncludedTerm
          persister := { s.persister with snapShot := args.snapShot } }
        (t.saveRaftState.saveSnapShot, ⟨r.curTerm⟩, true)

/-- The locked part of `installSnapShotTokvServer`: the message to push, if there is a
snapshot file. -/
def installSnapShotTokvServer (r : Raft n) : Raft n × Option ApplyMsg :=
  match r.readSnapShot with
  | none => (r, none)
  | some s =>
    ({ s with lastApplied := s.lastIncludedIndex },
      some (.snapShot s.persister.snapShot s.lastIncludedIndex s.lastIncludedTerm))

def recvSnapShot (r : Raft n) (snapShot : Str) (lastIncludedIndex : Int) : Option (Raft n) :=
  if lastIncludedIndex < r.lastIncludedIndex then some { r with lockKept := true }
  else
    (r.entryAt lastIncludedIndex).map fun e =>
      let s := { r with
        lastIncludedTerm := e.term
        lastIncludedIndex := lastIncludedIndex
        logs := r.logs.drop (lastIncludedIndex - r.lastIncludedIndex).toNat
        persister := { r.persister with snapShot := snapShot } }
      s.saveRaftState.saveSnapShot

/-! ### Applying -/

def collectMsgs : Nat → Raft n → Option (Raft n × List ApplyMsg)
  | 0, r => some (r, [])
  | count + 1, r =>
    let s := { r with lastApplied := r.lastApplied + 1 }
    match s.entryAt s.lastApplied with
    | none => none
    | some e =>
      (collectMsgs count s).map fun (t, msgs) => (t, .command e.command s.lastApplied e.term :: msgs)

def applyLog (r : Raft n) : Option (Raft n × List ApplyMsg) :=
  collectMsgs (r.commitIndex - r.lastApplied).toNat r

/-! ### Starting -/

def fresh (peerId : Fin n) (file : PersisterFile) (snapFile : Option Str) : Raft n :=
  { peerId := peerId, dead := false, curTerm := 0, votedFor := -1, logs := []
    lastIncludedIndex := 0, lastIncludedTerm := 0
    nextIndex := fun _ => 1, matchIndex := fun _ => 0, lastApplied := 0, commitIndex := 0
    recvVotes := 0, finishedVote := 0, curPeerId := 0, state := .FOLLOWER
    isInstallFlag := fun _ => false, isExistIndex := []
    persister := ⟨[], [], 0, 0, 0, 0⟩, file := file, snapFile := snapFile, lockKept := false }

def make (peerId : Fin n) (file : PersisterFile) (snapFile : Option Str) : Option (Raft n) :=
  (fresh peerId file snapFile).readRaftState.map fun r => r.installSnapShotTokvServer.1

def noFile (atomic : Bool) : PersisterFile := ⟨atomic, none, none, false⟩

end Raft

end ProjectsCpp.KvRaft
