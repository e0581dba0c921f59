import ProjectsCpp.KvRaft.LogFrame
import ProjectsCpp.KvRaft.Server
import ProjectsCpp.Lib.Handoff

/-! A follower under a correct leader, with its kv server. The leader's messages travel in
any order; the node's sections, the two producers of messages, the consumer
`KVServer::applyLoop` and `snapShotLoop` interleave freely. -/

namespace ProjectsCpp.KvRaft
open ProjectsCpp.Text ProjectsCpp.Run

variable {n : Nat}

/-- What a correct leader has: its log from index 1 on, how far it is committed and how far
it is compacted. -/
structure Leader where
  term : Int
  log : List LogEntry
  commit : Nat
  compacted : Nat

def Leader.termAt (l : Leader) (index : Nat) : Int :=
  match index with
  | 0 => 0
  | k + 1 => (l.log[k]?.map LogEntry.term).getD 0

inductive Producer where
  | applyLogLoop
  | installSnapShotTokvServer
deriving DecidableEq

structure Delivery (n : Nat) where
  node : Process n
  leader : Leader
  /-- Requests in flight to the node. -/
  appends : List AppendEntriesArgs
  installs : List InstallSnapShotArgs
  /-- What `applyLogLoop` has collected and not yet taken to the slot. -/
  batch : List ApplyMsg
  /-- `applyLogLoop` is between `waitRecvSem` and `postSendSem`. -/
  applying : Bool
  /-- `installSnapShotTokvServer` calls at their `waitRecvSem`. -/
  installers : List ApplyMsg
  slot : Handoff Producer ApplyMsg
  kv : KVServer
  /-- The index `snapShotLoop` has read and not yet passed to `recvSnapShot`. -/
  snapShotting : Option Int

namespace Delivery

inductive Step where
  | leaderStart (command : Str)
  | leaderCommit (index : Nat)
  | leaderCompact (index : Nat)
  | newLeader (next : Leader)
  | sendAppendEntries (prevLogIndex : Nat)
  | sendInstallSnapShot (snapShot : Str)
  | appendEntries (k : Nat)
  | installSnapShot (k : Nat)
  | installSnapShotTokvServer
  | start (command : Str)
  | applyLog
  | snapShotLoop
  | recvSnapShot (snapShot : Str)
  | enterBatch
  | enterInstaller (k : Nat)
  | push
  | post
  | wake
  | take
  | handle
  | release

def nodeStep (s : Delivery n) : Step → Option (Delivery n)
  | .appendEntries k =>
    (s.appends[k]?).bind fun args =>
      (s.node.step (.appendEntries args)).map fun q =>
        { s with node := q.1, appends := s.appends.eraseIdx k }
  | .installSnapShot k =>
    (s.installs[k]?).bind fun args =>
      (s.node.step (.installSnapShot args)).map fun q =>
        { s with node := q.1, installs := s.installs.eraseIdx k }
  | .installSnapShotTokvServer =>
    match s.node.step .installSnapShotTokvServer with
    | some (q, .apply msgs) => some { s with node := q, installers := s.installers ++ msgs }
    | _ => none
  | .start command => (s.node.step (.start command)).map fun q => { s with node := q.1 }
  | .applyLog =>
    if s.batch ≠ [] ∨ s.applying then none
    else match s.node.step .applyLog with
    | some (q, .apply msgs) => some { s with node := q, batch := msgs }
    | _ => none
  | .recvSnapShot snapShot =>
    s.snapShotting.bind fun index =>
      (s.node.step (.recvSnapShot snapShot index)).map fun q =>
        { s with node := q.1, snapShotting := none }
  | _ => none

/-- The leader: it appends, commits, compacts what is committed, may be followed by another
one that has the committed entries, and sends any suffix of its log or its snapshot. -/
def leaderStep (s : Delivery n) : Step → Option (Delivery n)
  | .leaderStart command =>
    some { s with leader := { s.leader with log := s.leader.log ++ [⟨command, s.leader.term⟩] } }
  | .leaderCommit index =>
    if s.leader.commit < index ∧ index ≤ s.leader.log.length then
      some { s with leader := { s.leader with commit := index } }
    else none
  | .leaderCompact index =>
    if s.leader.compacted < index ∧ index ≤ s.leader.commit then
      some { s with leader := { s.leader with compacted := index } }
    else none
  | .newLeader next =>
    if s.leader.term < next.term ∧ next.log.take s.leader.commit = s.leader.log.take s.leader.commit ∧
        s.leader.commit ≤ next.log.length ∧ next.commit ≤ s.leader.commit ∧
        next.compacted ≤ next.commit then
      some { s with leader := next }
    else none
  | .sendAppendEntries prevLogIndex =>
    if s.leader.compacted ≤ prevLogIndex ∧ prevLogIndex ≤ s.leader.log.length then
      some { s with appends :=
        { term := s.leader.term
          leaderId := 0
          prevLogIndex := prevLogIndex
          prevLogTerm := s.leader.termAt prevLogIndex
          leaderCommit := s.leader.commit
          sendLogs := transmit (sendLogsOf (s.leader.log.drop prevLogIndex)) } :: s.appends }
    else none
  | .sendInstallSnapShot snapShot =>
    if s.leader.compacted = 0 then none
    else some { s with installs :=
      { term := s.leader.term
        leaderId := 0
        lastIncludedIndex := s.leader.compacted
        lastIncludedTerm := s.leader.termAt s.leader.compacted
        snapShot := transmit snapShot } :: s.installs }
  | _ => none

def slotStep (s : Delivery n) : Step → Option (Delivery n)
  | .snapShotLoop =>
    if s.snapShotting = none then some { s with snapShotting := some s.kv.lastAppliedIndex } else none
  | .enterBatch =>
    match s.batch with
    | [] => none
    | m :: rest =>
      if s.applying then none
      else (s.slot.enter .applyLogLoop m).map fun slot =>
        { s with slot := slot, batch := rest, applying := true }
  | .enterInstaller k =>
    (s.installers[k]?).bind fun m =>
      (s.slot.enter .installSnapShotTokvServer m).map fun slot =>
        { s with slot := slot, installers := s.installers.eraseIdx k }
  | .push => s.slot.push.map fun slot => { s with slot := slot }
  | .post =>
    s.slot.post.map fun p =>
      { s with slot := p.2, applying := if p.1 = .applyLogLoop then false else s.applying }
  | .wake => s.slot.wake.map fun slot => { s with slot := slot }
  | .take => s.slot.take.map fun slot => { s with slot := slot }
  | .handle =>
    s.slot.handle.bind fun p =>
      (s.kv.applyLoop p.1).map fun kv => { s with slot := p.2, kv := kv.1 }
  | .release => s.slot.release.map fun slot => { s with slot := slot }
  | _ => none

def step (s : Delivery n) (a : Step) : Option (Delivery n) :=
  match a with
  | .leaderStart _ | .leaderCommit _ | .leaderCompact _ | .newLeader _ | .sendAppendEntries _
  | .sendInstallSnapShot _ => s.leaderStep a
  | .appendEntries _ | .installSnapShot _ | .installSnapShotTokvServer | .start _ | .applyLog
  | .recvSnapShot _ => s.nodeStep a
  | _ => s.slotStep a

def boot (atomic : Bool) (i : Fin n) (leader : Leader) : Delivery n :=
  { node := Process.boot atomic i, leader := leader, appends := [], installs := [], batch := []
    applying := false, installers := [], slot := Handoff.start, kv := KVServer.empty
    snapShotting := none }

def machine (atomic : Bool) (i : Fin n) : Machine (Delivery n) Step where
  start s := ∃ leader : Leader, leader.compacted ≤ leader.commit ∧
    leader.commit ≤ leader.log.length ∧ s = boot atomic i leader
  step := step

/-! ### Which part of the state a step changes -/

variable {s t : Delivery n} {a : Step}

theorem step_kind (next : s.step a = some t) :
    s.leaderStep a = some t ∨ s.nodeStep a = some t ∨ s.slotStep a = some t := by
  cases a <;> first | exact .inl next | exact .inr (.inl next) | exact .inr (.inr next)

theorem leaderStep_rest (next : s.leaderStep a = some t) :
    t.node = s.node ∧ t.batch = s.batch ∧ t.installers = s.installers ∧ t.slot = s.slot := by
  cases a with
  | leaderStart command =>
    cases next
    exact ⟨rfl, rfl, rfl, rfl⟩
  | sendInstallSnapShot snapShot =>
    rw [leaderStep] at next
    split at next <;> cases next
    exact ⟨rfl, rfl, rfl, rfl⟩
  | leaderCommit index =>
    rw [leaderStep] at next
    split at next <;> cases next
    exact ⟨rfl, rfl, rfl, rfl⟩
  | leaderCompact index =>
    rw [leaderStep] at next
    split at next <;> cases next
    exact ⟨rfl, rfl, rfl, rfl⟩
  | newLeader following =>
    rw [leaderStep] at next
    split at next <;> cases next
    exact ⟨rfl, rfl, rfl, rfl⟩
  | sendAppendEntries prevLogIndex =>
    rw [leaderStep] at next
    split at next <;> cases next
    exact ⟨rfl, rfl, rfl, rfl⟩
  | _ => cases next

theorem slotStep_node (next : s.slotStep a = some t) : t.node = s.node := by
  cases a with
  | snapShotLoop =>
    rw [slotStep] at next
    split at next <;> cases next
    rfl
  | enterBatch =>
    rw [slotStep] at next
    split at next
    · cases next
    · split at next
      · cases next
      · obtain ⟨slot, -, rfl⟩ := Option.map_eq_some_iff.mp next
        rfl
  | enterInstaller k =>
    obtain ⟨m, -, entered⟩ := Option.bind_eq_some_iff.mp next
    obtain ⟨slot, -, rfl⟩ := Option.map_eq_some_iff.mp entered
    rfl
  | push =>
    obtain ⟨slot, -, rfl⟩ := Option.map_eq_some_iff.mp next
    rfl
  | post =>
    obtain ⟨slot, -, rfl⟩ := Option.map_eq_some_iff.mp next
    rfl
  | wake =>
    obtain ⟨slot, -, rfl⟩ := Option.map_eq_some_iff.mp next
    rfl
  | take =>
    obtain ⟨slot, -, rfl⟩ := Option.map_eq_some_iff.mp next
    rfl
  | handle =>
    obtain ⟨p, -, handled⟩ := Option.bind_eq_some_iff.mp next
    obtain ⟨kv, -, rfl⟩ := Option.map_eq_some_iff.mp handled
    rfl
  | release =>
    obtain ⟨slot, -, rfl⟩ := Option.map_eq_some_iff.mp next
    rfl
  | _ => cases next

end Delivery

end ProjectsCpp.KvRaft
