import ProjectsCpp.KvRaft.Node

/-! One Raft object without snapshots (`Raft/raft.cpp`). Messages, log entries and their
texts are those of kvRaft. A read past the end of `m_logs` and an exception give `none`.
Time-outs are possible at every moment. What `deserialize` finds in the file is an input
of `readRaftState`, so saving leaves no trace here. -/

namespace ProjectsCpp.PlainRaft
open ProjectsCpp.Text ProjectsCpp.KvRaft

/-- What `deserialize` reads. -/
structure Saved where
  logs : List LogEntry
  curTerm : Int
  votedFor : Int

structure Raft (n : Nat) where
  peerId : Fin n
  curTerm : Int
  votedFor : Int
  logs : List LogEntry
  nextIndex : Fin n → Int
  matchIndex : Fin n → Int
  commitIndex : Int
  recvVotes : Nat
  finishedVote : Nat
  curPeerId : Nat
  state : RaftState

namespace Raft
variable {n : Nat}

def fresh (peerId : Fin n) : Raft n :=
  { peerId := peerId, curTerm := 0, votedFor := -1, logs := []
    nextIndex := fun _ => 1, matchIndex := fun _ => 0, commitIndex := 0
    recvVotes := 0, finishedVote := 0, curPeerId := 0, state := .FOLLOWER }

def readRaftState (r : Raft n) : Option Saved → Raft n
  | none => r
  | some saved =>
    { r with
      curTerm := saved.curTerm
      votedFor := saved.votedFor
      logs := r.logs ++ saved.logs }

def entryAt (r : Raft n) (index : Int) : Option LogEntry :=
  if index < 1 then none else r.logs[(index - 1).toNat]?

/-! ### Elections -/

def attemptElection (r : Raft n) : Option (Raft n) :=
  if r.state = .LEADER then none
  else
    some { r with
      state := .CANDIDATE
      curTerm := r.curTerm + 1
      votedFor := r.peerId.val
      recvVotes := 1
      finishedVote := 1
      curPeerId := 0 }

def becomeLeader (r : Raft n) : Option (Raft n) :=
  if r.state = .CANDIDATE ∧ n / 2 < r.recvVotes then
    some { r with
      state := .LEADER
      nextIndex := fun _ => r.logs.length + 1
      matchIndex := fun _ => 0 }
  else none

def voteReply (r : Raft n) (reply : RequestVoteReply) (saved : Option Saved) : Raft n :=
  let counted := { r with finishedVote := r.finishedVote + 1 }
  if reply.term > r.curTerm then
    { counted with state := .FOLLOWER, curTerm := reply.term, votedFor := -1 }.readRaftState saved
  else if reply.voteGranted then { counted with recvVotes := r.recvVotes + 1 }
  else counted

/-- `requestVote` up to the point where it gives the lock back to look at the log. -/
def requestVote (r : Raft n) (term : Int) : Raft n :=
  if r.curTerm < term then { r with state := .FOLLOWER, curTerm := term, votedFor := -1 } else r

def grantVote (r : Raft n) (candidateId : Int) : Raft n := { r with votedFor := candidateId }

/-! ### The leader's side of AppendEntries -/

def takePeer (r : Raft n) : Option (Fin n × Raft n) :=
  let cur := if r.curPeerId = r.peerId.val then r.curPeerId + 1 else r.curPeerId
  if inside : cur < n then
    let next := cur + 1
    some (⟨cur, inside⟩,
      { r with curPeerId := if next = n ∨ (next = n - 1 ∧ r.peerId.val = next) then 0 else next })
  else none

/-- The entries of the loop from `m_logs[prevLogIndex]` on; a negative index compares as a huge
unsigned number. -/
def logsAfter (r : Raft n) (prevLogIndex : Int) : List LogEntry :=
  if prevLogIndex < 0 then [] else r.logs.drop prevLogIndex.toNat

def prevTermOf (r : Raft n) (prevLogIndex : Int) : Option Int :=
  if prevLogIndex = 0 then some ((r.logs.head?.map LogEntry.term).getD 0)
  else (r.entryAt prevLogIndex).map LogEntry.term

def sendAppendEntries (r : Raft n) : Option (Raft n × Fin n × AppendEntriesArgs) :=
  r.takePeer.bind fun (peer, s) =>
    (r.prevTermOf (r.nextIndex peer - 1)).map fun prevLogTerm =>
      (s, peer,
        { term := r.curTerm
          leaderId := r.peerId.val
          prevLogIndex := r.nextIndex peer - 1
          prevLogTerm := prevLogTerm
          leaderCommit := r.commitIndex
          sendLogs := sendLogsOf (r.logsAfter (r.nextIndex peer - 1)) })

def setNextIndex (r : Raft n) (peer : Fin n) (index : Int) : Raft n :=
  { r with nextIndex := Function.update r.nextIndex peer index }

def setMatchIndex (r : Raft n) (peer : Fin n) (index : Int) : Raft n :=
  { r with matchIndex := Function.update r.matchIndex peer index }

def realMajorityMatchIndex (r : Raft n) : Int :=
  ((List.ofFn r.matchIndex).insertionSort (· ≤ ·)).getD (n / 2) 0

def advanceCommit (r : Raft n) : Option (Raft n) :=
  let index := r.realMajorityMatchIndex
  if index > r.commitIndex then
    (r.entryAt index).map fun e => if e.term = r.curTerm then { r with commitIndex := index } else r
  else some r

def countReply (r : Raft n) (peer : Fin n) (args : AppendEntriesArgs) : Option (Raft n) :=
  (getCmdAndTerm args.sendLogs).map fun sent =>
    let next := r.nextIndex peer + sent.length
    (r.setNextIndex peer next).setMatchIndex peer (next - 1)

/-- The last index at or below the given one whose entry has the term; `-1` when there is none. -/
def lastIndexOfTerm (r : Raft n) (term : Int) : Nat → Option Int
  | 0 => some (-1)
  | index + 1 => (r.entryAt (index + 1)).bind fun e =>
    if e.term = term then some (index + 1) else lastIndexOfTerm r term index

def backOff (r : Raft n) (peer : Fin n) (args : AppendEntriesArgs) (reply : AppendEntriesReply) :
    Option (Raft n) :=
  if reply.conflictTerm ≠ -1 then
    (r.lastIndexOfTerm reply.conflictTerm args.prevLogIndex.toNat).map fun leaderConflictIndex =>
      if leaderConflictIndex ≠ -1 then r.setNextIndex peer (leaderConflictIndex + 1)
      else r.setNextIndex peer reply.conflictIndex
  else some (r.setNextIndex peer (reply.conflictIndex + 1))

def appendReply (r : Raft n) (peer : Fin n) (args : AppendEntriesArgs) (reply : AppendEntriesReply) :
    Option (Raft n) :=
  if reply.term > r.curTerm then
    some { r with state := .FOLLOWER, curTerm := reply.term, votedFor := -1 }
  else if reply.success then (r.countReply peer args).bind advanceCommit
  else r.backOff peer args reply

def start (r : Raft n) (command : Str) : Raft n :=
  if r.state ≠ .LEADER then r else { r with logs := r.logs ++ [⟨command, r.curTerm⟩] }

/-! ### The follower's side -/

def firstIndexOfTerm (logs : List LogEntry) (term : Int) (count : Nat) : Int :=
  match (logs.take count).findIdx? fun e => e.term = term with
  | some i => i + 1
  | none => -1

def commitUpTo (r : Raft n) (leaderCommit : Int) : Raft n :=
  if r.commitIndex < leaderCommit then
    { r with commitIndex := min leaderCommit r.logs.length }
  else r

def enterTerm (r : Raft n) (term : Int) : Raft n :=
  { r with
    votedFor := if term > r.curTerm then -1 else r.votedFor
    curTerm := term
    state := .FOLLOWER }

/-- The checks on `prevLogIndex`, made only on a log that is not empty: `some none` lets the
request pass. A negative index compares as a huge unsigned number. -/
def checkPrevLog (r : Raft n) (args : AppendEntriesArgs) (term : Int) :
    Option (Option AppendEntriesReply) :=
  if args.prevLogIndex < 0 ∨ (r.logs.length : Int) < args.prevLogIndex then
    some (some ⟨term, false, -1, r.logs.length⟩)
  else if args.prevLogIndex > 0 then
    (r.entryAt args.prevLogIndex).map fun e =>
      if e.term ≠ args.prevLogTerm then
        some ⟨term, false, e.term, firstIndexOfTerm r.logs e.term args.prevLogIndex.toNat⟩
      else none
  else some none

def appendEntries (r : Raft n) (args : AppendEntriesArgs) :
    Option (Raft n × AppendEntriesReply) :=
  (getCmdAndTerm args.sendLogs).bind fun recvLog =>
    if args.term < r.curTerm then some (r, ⟨r.curTerm, false, -1, -1⟩)
    else
      let s := r.enterTerm args.term
      if s.logs = [] then
        some ({ s with logs := recvLog }.commitUpTo args.leaderCommit, ⟨r.curTerm, true, -1, -1⟩)
      else
        (s.checkPrevLog args r.curTerm).map fun
          | some reply => (s, reply)
          | none =>
            ({ s with logs := s.logs.take args.prevLogIndex.toNat ++ recvLog }.commitUpTo
              args.leaderCommit, ⟨r.curTerm, true, -1, -1⟩)

end Raft

def received (args : AppendEntriesArgs) : AppendEntriesArgs :=
  { args with sendLogs := transmit args.sendLogs }

end ProjectsCpp.PlainRaft
