import ProjectsCpp.PlainRaft.Node
import ProjectsCpp.KvRaft.PeerTurns

/-! The peers that the threads of a node without snapshots take by `cur_peerId`: those of
`callRequestVote` and those of `sendAppendEntries` share it. -/

namespace ProjectsCpp.PlainRaft
open ProjectsCpp.Text ProjectsCpp.KvRaft ProjectsCpp.RoundRobin

/-! ### The sections of a node without snapshots -/

inductive Section (n : Nat) where
  | attemptElection
  | callRequestVote
  | becomeLeader
  | voteReply (reply : RequestVoteReply) (saved : Option Saved)
  | requestVote (term : Int)
  | grantVote (candidateId : Int)
  | start (command : Str)
  | sendAppendEntries
  | appendReply (peer : Fin n) (args : AppendEntriesArgs) (reply : AppendEntriesReply)
  | appendEntries (args : AppendEntriesArgs)

namespace Raft
variable {n : Nat}

def callRequestVote (r : Raft n) : Option (Raft n × Fin n × RequestVoteArgs) :=
  r.takePeer.map fun (peer, s) =>
    (s, peer,
      { term := r.curTerm
        candidateId := r.peerId.val
        lastLogTerm := (r.logs.getLast?.map LogEntry.term).getD 0
        lastLogIndex := r.logs.length })

def step (r : Raft n) : Section n → Option (Raft n × Option (Fin n))
  | .attemptElection => r.attemptElection.map (·, none)
  | .callRequestVote => r.callRequestVote.map fun (s, peer, _) => (s, some peer)
  | .becomeLeader => r.becomeLeader.map (·, none)
  | .voteReply reply saved => some (r.voteReply reply saved, none)
  | .requestVote term => some (r.requestVote term, none)
  | .grantVote candidateId => some (r.grantVote candidateId, none)
  | .start command => some (r.start command, none)
  | .sendAppendEntries => r.sendAppendEntries.map fun (s, peer, _) => (s, some peer)
  | .appendReply peer args reply => (r.appendReply peer args reply).map (·, none)
  | .appendEntries args => (r.appendEntries args).map fun (s, _) => (s, none)

end Raft

/-! ### The sections that take no peer -/

namespace Raft
variable {n : Nat} {r s : Raft n}

structure Quiet (r s : Raft n) : Prop where
  peer : s.peerId = r.peerId
  next : s.curPeerId = r.curPeerId

theorem voteReply_quiet (r : Raft n) (reply : RequestVoteReply) (saved : Option Saved) :
    Quiet r (r.voteReply reply saved) := by
  simp only [voteReply]
  split_ifs
  · cases saved <;> exact ⟨rfl, rfl⟩
  · exact ⟨rfl, rfl⟩
  · exact ⟨rfl, rfl⟩

theorem requestVote_quiet (r : Raft n) (term : Int) : Quiet r (r.requestVote term) := by
  rw [requestVote]
  split_ifs <;> exact ⟨rfl, rfl⟩

theorem start_quiet (r : Raft n) (command : Str) : Quiet r (r.start command) := by
  rw [start]
  split_ifs <;> exact ⟨rfl, rfl⟩

theorem becomeLeader_quiet (next : r.becomeLeader = some s) : Quiet r s := by
  rw [becomeLeader] at next
  split_ifs at next
  cases next
  exact ⟨rfl, rfl⟩

theorem advanceCommit_quiet (next : r.advanceCommit = some s) : Quiet r s := by
  simp only [advanceCommit] at next
  split_ifs at next
  · obtain ⟨e, -, rfl⟩ := Option.map_eq_some_iff.mp next
    split_ifs <;> exact ⟨rfl, rfl⟩
  · cases next
    exact ⟨rfl, rfl⟩

theorem countReply_quiet {peer : Fin n} {args : AppendEntriesArgs}
    (next : r.countReply peer args = some s) : Quiet r s := by
  obtain ⟨sent, -, rfl⟩ := Option.map_eq_some_iff.mp next
  exact ⟨rfl, rfl⟩

theorem backOff_quiet {peer : Fin n} {args : AppendEntriesArgs} {reply : AppendEntriesReply}
    (next : r.backOff peer args reply = some s) : Quiet r s := by
  rw [backOff] at next
  split_ifs at next
  · obtain ⟨index, -, rfl⟩ := Option.map_eq_some_iff.mp next
    split_ifs <;> exact ⟨rfl, rfl⟩
  · cases next
    exact ⟨rfl, rfl⟩

theorem appendReply_quiet {peer : Fin n} {args : AppendEntriesArgs} {reply : AppendEntriesReply}
    (next : r.appendReply peer args reply = some s) : Quiet r s := by
  rw [appendReply] at next
  split_ifs at next
  · cases next
    exact ⟨rfl, rfl⟩
  · obtain ⟨t, counted, committed⟩ := Option.bind_eq_some_iff.mp next
    have first := countReply_quiet counted
    have second := advanceCommit_quiet committed
    exact ⟨second.peer.trans first.peer, second.next.trans first.next⟩
  · exact backOff_quiet next

theorem commitUpTo_quiet (r : Raft n) (leaderCommit : Int) : Quiet r (r.commitUpTo leaderCommit) := by
  rw [commitUpTo]
  split_ifs <;> exact ⟨rfl, rfl⟩

theorem appendEntries_quiet {args : AppendEntriesArgs} {reply : AppendEntriesReply}
    (next : r.appendEntries args = some (s, reply)) : Quiet r s := by
  obtain ⟨recvLog, -, next⟩ := Option.bind_eq_some_iff.mp next
  dsimp only at next
  split_ifs at next
  · cases next
    exact ⟨rfl, rfl⟩
  · cases next
    have kept := commitUpTo_quiet { r.enterTerm args.term with logs := recvLog } args.leaderCommit
    exact ⟨kept.peer, kept.next⟩
  · obtain ⟨answer, -, same⟩ := Option.map_eq_some_iff.mp next
    cases answer with
    | some reply =>
      cases same
      exact ⟨rfl, rfl⟩
    | none =>
      cases same
      have kept := commitUpTo_quiet
        { r.enterTerm args.term with
          logs := (r.enterTerm args.term).logs.take args.prevLogIndex.toNat ++ recvLog }
        args.leaderCommit
      exact ⟨kept.peer, kept.next⟩

/-! ### The sections that take a peer -/

theorem takePeer_eq_nextPeer (r : Raft n) :
    r.takePeer = if inside : (KvRaft.Raft.nextPeer n r.peerId r.curPeerId).1 < n then
      some (⟨_, inside⟩, { r with curPeerId := (KvRaft.Raft.nextPeer n r.peerId r.curPeerId).2 })
    else none := rfl

/-- The section takes the peer by `cur_peerId`. -/
structure Takes (r s : Raft n) (peer : Fin n) : Prop where
  chosen : peer.val = (KvRaft.Raft.nextPeer n r.peerId r.curPeerId).1
  peer : s.peerId = r.peerId
  next : s.curPeerId = (KvRaft.Raft.nextPeer n r.peerId r.curPeerId).2

theorem takePeer_takes {peer : Fin n} (taken : r.takePeer = some (peer, s)) : Takes r s peer := by
  rw [takePeer_eq_nextPeer] at taken
  split_ifs at taken with inside
  cases taken
  exact ⟨rfl, rfl, rfl⟩

theorem callRequestVote_takes {peer : Fin n} {args : RequestVoteArgs}
    (next : r.callRequestVote = some (s, peer, args)) : Takes r s peer := by
  obtain ⟨⟨p, t⟩, taken, same⟩ := Option.map_eq_some_iff.mp next
  cases same
  exact takePeer_takes taken

theorem sendAppendEntries_takes {peer : Fin n} {args : AppendEntriesArgs}
    (next : r.sendAppendEntries = some (s, peer, args)) : Takes r s peer := by
  obtain ⟨⟨p, t⟩, taken, built⟩ := Option.bind_eq_some_iff.mp next
  obtain ⟨prevLogTerm, -, same⟩ := Option.map_eq_some_iff.mp built
  cases same
  exact takePeer_takes taken

theorem step_turn {a : Section n} {choice : Option (Fin n)} (next : r.step a = some (s, choice)) :
    (∃ peer, choice = some peer ∧ Takes r s peer) ∨
      choice = none ∧ (Quiet r s ∨ a = .attemptElection ∧ s.peerId = r.peerId ∧ s.curPeerId = 0) := by
  cases a with
  | attemptElection =>
    obtain ⟨t, started, same⟩ := Option.map_eq_some_iff.mp next
    cases same
    rw [attemptElection] at started
    split_ifs at started
    cases started
    exact .inr ⟨rfl, .inr ⟨rfl, rfl, rfl⟩⟩
  | callRequestVote =>
    obtain ⟨⟨t, peer, args⟩, taken, same⟩ := Option.map_eq_some_iff.mp next
    cases same
    exact .inl ⟨peer, rfl, callRequestVote_takes taken⟩
  | becomeLeader =>
    obtain ⟨t, became, same⟩ := Option.map_eq_some_iff.mp next
    cases same
    exact .inr ⟨rfl, .inl (becomeLeader_quiet became)⟩
  | voteReply reply saved =>
    cases next
    exact .inr ⟨rfl, .inl (voteReply_quiet r reply saved)⟩
  | requestVote term =>
    cases next
    exact .inr ⟨rfl, .inl (requestVote_quiet r term)⟩
  | grantVote candidateId =>
    cases next
    exact .inr ⟨rfl, .inl ⟨rfl, rfl⟩⟩
  | start command =>
    cases next
    exact .inr ⟨rfl, .inl (start_quiet r command)⟩
  | sendAppendEntries =>
    obtain ⟨⟨t, peer, args⟩, taken, same⟩ := Option.map_eq_some_iff.mp next
    cases same
    exact .inl ⟨peer, rfl, sendAppendEntries_takes taken⟩
  | appendReply peer args reply =>
    obtain ⟨t, answered, same⟩ := Option.map_eq_some_iff.mp next
    cases same
    exact .inr ⟨rfl, .inl (appendReply_quiet answered)⟩
  | appendEntries args =>
    obtain ⟨⟨t, reply⟩, answered, same⟩ := Option.map_eq_some_iff.mp next
    cases same
    exact .inr ⟨rfl, .inl (appendEntries_quiet answered)⟩

structure AtTurn (node : Fin n) (r : Raft n) : Prop where
  peer : r.peerId = node
  turn : InTurn node r.curPeerId

theorem rota (self : Fin n) (two : 2 ≤ n) :
    Rota step (AtTurn self) (· = .attemptElection)
      (fun r => turnAt self r.curPeerId) (turnOfPeer self) (n - 1) where
  bound r good := good.turn.1
  good r a s choice good next := by
    rcases step_turn next with ⟨peer, -, takes⟩ | ⟨-, quiet | ⟨-, same, zero⟩⟩
    · obtain ⟨-, -, turn, -⟩ := good.turn.next
      exact ⟨takes.peer.trans good.peer, by rw [takes.next, good.peer]; exact turn⟩
    · exact ⟨quiet.peer.trans good.peer, quiet.next ▸ good.turn⟩
    · exact ⟨same.trans good.peer, zero ▸ inTurn_zero self two⟩
  chooses r a s k good next := by
    rcases step_turn next with ⟨peer, same, takes⟩ | ⟨none, -⟩
    · cases same
      obtain ⟨inside, ranked, -, following⟩ := good.turn.next
      have chosen := takes.chosen
      have after := takes.next
      rw [good.peer] at chosen after
      rw [after, show k = ⟨_, inside⟩ from Fin.ext chosen]
      exact ⟨ranked, following⟩
    · cases none
  passes r a s good next := by
    rcases step_turn next with ⟨peer, same, -⟩ | ⟨-, quiet | ⟨reset, -, -⟩⟩
    · cases same
    · exact .inl (congrArg (turnAt self) quiet.next)
    · exact .inr reset

/-- The peer that the next `callRequestVote` or `sendAppendEntries` would take. -/
def takes (r : Raft n) : Option (Fin n) := r.takePeer.map Prod.fst

theorem takesTurns (self : Fin n) (two : 2 ≤ n) (peer : r.peerId = self)
    (zero : r.curPeerId = 0) :
    TakesTurns step curPeerId takes (· = .attemptElection) self r := by
  refine KvRaft.takesTurns (rota self two) (fun r good => good.turn) ?_
    ⟨peer, zero ▸ inTurn_zero self two⟩
  intro r good
  obtain ⟨inside, ranked, -, -⟩ := good.turn.next
  refine ⟨_, ?_, ranked⟩
  simp only [takes, takePeer_eq_nextPeer, good.peer, dif_pos inside, Option.map_some]

end Raft

/-- With `cur_peerId` 0 at the start, both kinds of nodes take their peers in turns. -/
theorem nodes_takeTurns {n : Nat} (self : Fin n) (two : 2 ≤ n) :
    (∀ r : Raft n, r.peerId = self → r.curPeerId = 0 →
      TakesTurns Raft.step Raft.curPeerId Raft.takes (· = .attemptElection) self r) ∧
    ∀ p : Process n, p.raft.peerId = self → p.raft.curPeerId = 0 →
      TakesTurns Process.ask (fun q => q.raft.curPeerId) (fun q => q.raft.asks)
        (· = .electionStart) self p :=
  ⟨fun _ => Raft.takesTurns self two, fun _ => Process.takesTurns self two⟩

theorem nodes_takeTurns_three :
    (∀ r : Raft 3, r.peerId = 1 → r.curPeerId = 0 →
      TakesTurns Raft.step Raft.curPeerId Raft.takes (· = .attemptElection) 1 r) ∧
    ∀ p : Process 3, p.raft.peerId = 1 → p.raft.curPeerId = 0 →
      TakesTurns Process.ask (fun q => q.raft.curPeerId) (fun q => q.raft.asks)
        (· = .electionStart) 1 p :=
  nodes_takeTurns (n := 3) 1 (by decide)

end ProjectsCpp.PlainRaft
