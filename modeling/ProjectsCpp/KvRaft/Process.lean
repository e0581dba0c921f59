import ProjectsCpp.KvRaft.Node
import ProjectsCpp.Lib.Run

/-! A kvRaft process: the Raft object and the threads that work on it.
Every action is one critical section; between two of them other threads run. A thread
that waits for `m_lock`, for an answer or in `m_cond.wait` is recorded by what it still
has to do. -/

namespace ProjectsCpp.KvRaft
open ProjectsCpp.Text

structure Process (n : Nat) where
  raft : Raft n
  /-- `electionLoop` is in its `m_cond.wait` loop. -/
  electing : Bool
  /-- `callRequestVote` threads that have not run yet, by the term of the election that
  created them. -/
  voteThreads : List Int
  voteCalls : List (Fin n × RequestVoteArgs)
  appendThreads : Nat
  appendCalls : List (Fin n × AppendEntriesArgs)
  installThreads : Nat
  installCalls : List (Fin n × InstallSnapShotArgs)
  /-- `installSnapShot` handlers between their unlock and `installSnapShotTokvServer`. -/
  kvInstalls : Nat

inductive Action (n : Nat) where
  | electionStart
  | electionWake
  | callRequestVote (born : Int)
  | requestVote (args : RequestVoteArgs)
  | voteReply (peer : Fin n) (args : RequestVoteArgs) (reply : RequestVoteReply)
  | processEntries
  | sendAppendEntries
  | appendEntries (args : AppendEntriesArgs)
  | appendReply (peer : Fin n) (args : AppendEntriesArgs) (reply : AppendEntriesReply)
  | sendInstallSnapShot
  | installSnapShot (args : InstallSnapShotArgs)
  | installReply (peer : Fin n) (args : InstallSnapShotArgs) (reply : InstallSnapSHotReply)
  | installSnapShotTokvServer
  | start (command : Str)
  | applyLog
  | recvSnapShot (snapShot : Str) (lastIncludedIndex : Int)

inductive Output (n : Nat) where
  | none
  | promoted
  | voteRequest (peer : Fin n) (args : RequestVoteArgs)
  | voteAnswer (reply : RequestVoteReply)
  | appendRequest (peer : Fin n) (args : AppendEntriesArgs)
  | appendAnswer (reply : AppendEntriesReply)
  | installRequest (peer : Fin n) (args : InstallSnapShotArgs)
  | installAnswer (reply : InstallSnapSHotReply)
  | started (ret : StartRet)
  | apply (msgs : List ApplyMsg)

namespace Process
variable {n : Nat}

def ofRaft (r : Raft n) : Process n := ⟨r, false, [], [], 0, [], 0, [], 0⟩

def boot (atomic : Bool) (i : Fin n) : Process n :=
  ofRaft (Raft.fresh i (Raft.noFile atomic) none)

/-- The election branch of `electionLoop`, up to its wait. -/
def electionStart (p : Process n) : Option (Process n × Output n) :=
  if p.electing then none
  else p.raft.electionStart.map fun r =>
    ({ p with
      raft := r
      electing := true
      voteThreads := p.voteThreads ++ List.replicate (n - 1) r.curTerm }, .none)

def electionWake (p : Process n) : Option (Process n × Output n) :=
  if p.electing then
    p.raft.electionWake.map fun r =>
      ({ p with raft := r, electing := false },
        if r.state = .LEADER ∧ p.raft.state ≠ .LEADER then .promoted else .none)
  else none

def callRequestVote (p : Process n) (born : Int) : Option (Process n × Output n) :=
  if born ∈ p.voteThreads then
    p.raft.callRequestVote.map fun (r, peer, args) =>
      ({ p with
        raft := r
        voteThreads := p.voteThreads.erase born
        voteCalls := (peer, args) :: p.voteCalls }, .voteRequest peer args)
  else none

def voteReply (p : Process n) (peer : Fin n) (args : RequestVoteArgs)
    (reply : RequestVoteReply) : Option (Process n × Output n) :=
  if (peer, args) ∈ p.voteCalls then
    (p.raft.voteReply reply).map fun r =>
      ({ p with raft := r, voteCalls := p.voteCalls.erase (peer, args) }, .none)
  else none

def processEntries (p : Process n) : Option (Process n × Output n) :=
  p.raft.processEntries.map fun (r, appends, installs) =>
    ({ p with
      raft := r
      appendThreads := p.appendThreads + appends
      installThreads := p.installThreads + installs }, .none)

def sendAppendEntries (p : Process n) : Option (Process n × Output n) :=
  if p.appendThreads = 0 then none
  else p.raft.sendAppendEntries.map fun (r, peer, args) =>
    ({ p with
      raft := r
      appendThreads := p.appendThreads - 1
      appendCalls := (peer, args) :: p.appendCalls }, .appendRequest peer args)

def appendReply (p : Process n) (peer : Fin n) (args : AppendEntriesArgs)
    (reply : AppendEntriesReply) : Option (Process n × Output n) :=
  if (peer, args) ∈ p.appendCalls then
    (p.raft.appendReply peer args reply).map fun r =>
      ({ p with raft := r, appendCalls := p.appendCalls.erase (peer, args) }, .none)
  else none

def sendInstallSnapShot (p : Process n) : Option (Process n × Output n) :=
  if p.installThreads = 0 then none
  else p.raft.sendInstallSnapShot.map fun (r, peer, args) =>
    ({ p with
      raft := r
      installThreads := p.installThreads - 1
      installCalls := (peer, args) :: p.installCalls }, .installRequest peer args)

def installReply (p : Process n) (peer : Fin n) (args : InstallSnapShotArgs)
    (reply : InstallSnapSHotReply) : Option (Process n × Output n) :=
  if (peer, args) ∈ p.installCalls then
    (p.raft.installReply peer args reply).map fun r =>
      ({ p with raft := r, installCalls := p.installCalls.erase (peer, args) }, .none)
  else none

def installSnapShotTokvServer (p : Process n) : Option (Process n × Output n) :=
  if p.kvInstalls = 0 then none
  else
    let s := p.raft.installSnapShotTokvServer
    some ({ p with raft := s.1, kvInstalls := p.kvInstalls - 1 }, .apply s.2.toList)

/-- One critical section. Nothing runs once `m_lock` is never released. -/
def step (p : Process n) (a : Action n) : Option (Process n × Output n) :=
  if p.raft.lockKept then none
  else match a with
  | .electionStart => p.electionStart
  | .electionWake => p.electionWake
  | .callRequestVote born => p.callRequestVote born
  | .requestVote args =>
    let s := p.raft.requestVote args
    some ({ p with raft := s.1 }, .voteAnswer s.2)
  | .voteReply peer args reply => p.voteReply peer args reply
  | .processEntries => p.processEntries
  | .sendAppendEntries => p.sendAppendEntries
  | .appendEntries args =>
    (p.raft.appendEntries args).map fun s => ({ p with raft := s.1 }, .appendAnswer s.2)
  | .appendReply peer args reply => p.appendReply peer args reply
  | .sendInstallSnapShot => p.sendInstallSnapShot
  | .installSnapShot args =>
    (p.raft.installSnapShot args).map fun s =>
      ({ p with raft := s.1, kvInstalls := p.kvInstalls + s.2.2.toNat }, .installAnswer s.2.1)
  | .installReply peer args reply => p.installReply peer args reply
  | .installSnapShotTokvServer => p.installSnapShotTokvServer
  | .start command =>
    let s := p.raft.start command
    some ({ p with raft := s.1 }, .started s.2)
  | .applyLog => p.raft.applyLog.map fun s => ({ p with raft := s.1 }, .apply s.2)
  | .recvSnapShot snapShot index =>
    (p.raft.recvSnapShot snapShot index).map fun r => ({ p with raft := r }, .none)

/-- What one section did, by its action: the function of the Raft object that ran, and the
threads that changed. -/
inductive Ran (p : Process n) : Action n → Process n → Output n → Prop
  | electionStart {r : Raft n} (idle : ¬ p.electing) (run : p.raft.electionStart = some r) :
      Ran p .electionStart
        { p with
          raft := r
          electing := true
          voteThreads := p.voteThreads ++ List.replicate (n - 1) r.curTerm } .none
  | electionWake {r : Raft n} (waits : p.electing) (run : p.raft.electionWake = some r) :
      Ran p .electionWake { p with raft := r, electing := false }
        (if r.state = .LEADER ∧ p.raft.state ≠ .LEADER then .promoted else .none)
  | callRequestVote {born : Int} {r : Raft n} {peer : Fin n} {args : RequestVoteArgs}
      (thread : born ∈ p.voteThreads) (run : p.raft.callRequestVote = some (r, peer, args)) :
      Ran p (.callRequestVote born)
        { p with
          raft := r
          voteThreads := p.voteThreads.erase born
          voteCalls := (peer, args) :: p.voteCalls } (.voteRequest peer args)
  | requestVote {args : RequestVoteArgs} :
      Ran p (.requestVote args) { p with raft := (p.raft.requestVote args).1 }
        (.voteAnswer (p.raft.requestVote args).2)
  | voteReply {r : Raft n} {peer : Fin n} {args : RequestVoteArgs} {reply : RequestVoteReply}
      (call : (peer, args) ∈ p.voteCalls) (run : p.raft.voteReply reply = some r) :
      Ran p (.voteReply peer args reply)
        { p with raft := r, voteCalls := p.voteCalls.erase (peer, args) } .none
  | processEntries {r : Raft n} {appends installs : Nat}
      (run : p.raft.processEntries = some (r, appends, installs)) :
      Ran p .processEntries
        { p with
          raft := r
          appendThreads := p.appendThreads + appends
          installThreads := p.installThreads + installs } .none
  | sendAppendEntries {r : Raft n} {peer : Fin n} {args : AppendEntriesArgs}
      (thread : p.appendThreads ≠ 0) (run : p.raft.sendAppendEntries = some (r, peer, args)) :
      Ran p .sendAppendEntries
        { p with
          raft := r
          appendThreads := p.appendThreads - 1
          appendCalls := (peer, args) :: p.appendCalls } (.appendRequest peer args)
  | appendEntries {r : Raft n} {args : AppendEntriesArgs} {reply : AppendEntriesReply}
      (run : p.raft.appendEntries args = some (r, reply)) :
      Ran p (.appendEntries args) { p with raft := r } (.appendAnswer reply)
  | appendReply {r : Raft n} {peer : Fin n} {args : AppendEntriesArgs}
      {reply : AppendEntriesReply} (call : (peer, args) ∈ p.appendCalls)
      (run : p.raft.appendReply peer args reply = some r) :
      Ran p (.appendReply peer args reply)
        { p with raft := r, appendCalls := p.appendCalls.erase (peer, args) } .none
  | sendInstallSnapShot {r : Raft n} {peer : Fin n} {args : InstallSnapShotArgs}
      (thread : p.installThreads ≠ 0)
      (run : p.raft.sendInstallSnapShot = some (r, peer, args)) :
      Ran p .sendInstallSnapShot
        { p with
          raft := r
          installThreads := p.installThreads - 1
          installCalls := (peer, args) :: p.installCalls } (.installRequest peer args)
  | installSnapShot {r : Raft n} {args : InstallSnapShotArgs} {reply : InstallSnapSHotReply}
      {push : Bool} (run : p.raft.installSnapShot args = some (r, reply, push)) :
      Ran p (.installSnapShot args)
        { p with raft := r, kvInstalls := p.kvInstalls + push.toNat } (.installAnswer reply)
  | installReply {r : Raft n} {peer : Fin n} {args : InstallSnapShotArgs}
      {reply : InstallSnapSHotReply} (call : (peer, args) ∈ p.installCalls)
      (run : p.raft.installReply peer args reply = some r) :
      Ran p (.installReply peer args reply)
        { p with raft := r, installCalls := p.installCalls.erase (peer, args) } .none
  | installSnapShotTokvServer (waits : p.kvInstalls ≠ 0) :
      Ran p .installSnapShotTokvServer
        { p with raft := p.raft.installSnapShotTokvServer.1, kvInstalls := p.kvInstalls - 1 }
        (.apply p.raft.installSnapShotTokvServer.2.toList)
  | start {command : Str} :
      Ran p (.start command) { p with raft := (p.raft.start command).1 }
        (.started (p.raft.start command).2)
  | applyLog {r : Raft n} {msgs : List ApplyMsg} (run : p.raft.applyLog = some (r, msgs)) :
      Ran p .applyLog { p with raft := r } (.apply msgs)
  | recvSnapShot {r : Raft n} {snapShot : Str} {index : Int}
      (run : p.raft.recvSnapShot snapShot index = some r) :
      Ran p (.recvSnapShot snapShot index) { p with raft := r } .none

variable {p q : Process n} {a : Action n} {o : Output n}

theorem ran_of_step (next : p.step a = some (q, o)) : p.Ran a q o := by
  unfold step at next
  split at next
  · cases next
  cases a with
  | electionStart =>
    simp only [Process.electionStart] at next
    split at next
    · cases next
    · obtain ⟨r, run, done⟩ := Option.map_eq_some_iff.mp next
      cases done
      exact .electionStart ‹_› run
  | electionWake =>
    simp only [Process.electionWake] at next
    split at next
    · obtain ⟨r, run, done⟩ := Option.map_eq_some_iff.mp next
      cases done
      exact .electionWake ‹_› run
    · cases next
  | callRequestVote born =>
    simp only [Process.callRequestVote] at next
    split at next
    · obtain ⟨⟨r, peer, args⟩, run, done⟩ := Option.map_eq_some_iff.mp next
      cases done
      exact .callRequestVote ‹_› run
    · cases next
  | requestVote args =>
    cases next
    exact .requestVote
  | voteReply peer args reply =>
    simp only [Process.voteReply] at next
    split at next
    · obtain ⟨r, run, done⟩ := Option.map_eq_some_iff.mp next
      cases done
      exact .voteReply ‹_› run
    · cases next
  | processEntries =>
    obtain ⟨⟨r, k, l⟩, run, done⟩ := Option.map_eq_some_iff.mp next
    cases done
    exact .processEntries run
  | sendAppendEntries =>
    simp only [Process.sendAppendEntries] at next
    split at next
    · cases next
    · obtain ⟨⟨r, peer, args⟩, run, done⟩ := Option.map_eq_some_iff.mp next
      cases done
      exact .sendAppendEntries ‹_› run
  | appendEntries args =>
    obtain ⟨⟨r, reply⟩, run, done⟩ := Option.map_eq_some_iff.mp next
    cases done
    exact .appendEntries run
  | appendReply peer args reply =>
    simp only [Process.appendReply] at next
    split at next
    · obtain ⟨r, run, done⟩ := Option.map_eq_some_iff.mp next
      cases done
      exact .appendReply ‹_› run
    · cases next
  | sendInstallSnapShot =>
    simp only [Process.sendInstallSnapShot] at next
    split at next
    · cases next
    · obtain ⟨⟨r, peer, args⟩, run, done⟩ := Option.map_eq_some_iff.mp next
      cases done
      exact .sendInstallSnapShot ‹_› run
  | installSnapShot args =>
    obtain ⟨⟨r, reply, push⟩, run, done⟩ := Option.map_eq_some_iff.mp next
    cases done
    exact .installSnapShot run
  | installReply peer args reply =>
    simp only [Process.installReply] at next
    split at next
    · obtain ⟨r, run, done⟩ := Option.map_eq_some_iff.mp next
      cases done
      exact .installReply ‹_› run
    · cases next
  | installSnapShotTokvServer =>
    simp only [Process.installSnapShotTokvServer] at next
    split at next <;> cases next
    exact .installSnapShotTokvServer ‹_›
  | start command =>
    cases next
    exact .start
  | applyLog =>
    obtain ⟨⟨r, msgs⟩, run, done⟩ := Option.map_eq_some_iff.mp next
    cases done
    exact .applyLog run
  | recvSnapShot snapShot index =>
    obtain ⟨r, run, done⟩ := Option.map_eq_some_iff.mp next
    cases done
    exact .recvSnapShot run

end Process

end ProjectsCpp.KvRaft
