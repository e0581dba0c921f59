import ProjectsCpp.KvRaft.Canvass
import ProjectsCpp.KvRaft.Indices
import ProjectsCpp.Lib.ReplicaSteps

/-! What the sections of one node do for log replication: the log, `m_matchIndex` and
`m_commitIndex`. Without snapshots the log starts at index 1, so a request of a leader
describes a prefix of its log, and a follower that takes the request ends with that
prefix, whatever it had after `prevLogIndex`. -/

namespace ProjectsCpp.KvRaft
open ProjectsCpp.Text ProjectsCpp.Replication

variable {n : Nat}

namespace Raft
variable {r s : Raft n}

structure Whole (r : Raft n) : Prop where
  index : r.lastIncludedIndex = 0
  term : r.lastIncludedTerm = 0

theorem SameLog.whole (same : SameLog r s) (whole : r.Whole) : s.Whole :=
  ⟨same.index.trans whole.index, same.term.trans whole.term⟩

theorem Whole.lastIndex (whole : r.Whole) : r.lastIndex = r.logs.length := by
  rw [Raft.lastIndex, whole.index, zero_add]

theorem Whole.lastTerm (whole : r.Whole) :
    r.lastTerm = Replication.lastTerm LogEntry.term r.logs := by
  rw [Raft.lastTerm, Replication.lastTerm]
  cases r.logs.getLast? with
  | none => exact whole.term
  | some e => rfl

theorem Whole.entryAt (whole : r.Whole) (k : Nat) : r.entryAt (k + 1) = r.logs[k]? := by
  rw [entryAt_eq, whole.index, if_neg (by omega)]
  congr 1
  omega

theorem Whole.entryAt_some (whole : r.Whole) {index : Int} {e : LogEntry}
    (found : r.entryAt index = some e) : ∃ k : Nat, index = k + 1 ∧ r.logs[k]? = some e := by
  have above : ¬ index ≤ 0 := by
    intro below
    rw [entryAt_eq, whole.index, if_pos below] at found
    cases found
  obtain ⟨k, rfl⟩ : ∃ k : Nat, index = k + 1 := ⟨(index - 1).toNat, by omega⟩
  rw [whole.entryAt] at found
  exact ⟨k, rfl, found⟩

/-! ### Sections that leave replication alone -/

/-- Log, matched and committed indices stay as they are. -/
structure Still (r s : Raft n) : Prop where
  log : SameLog r s
  matched : s.matchIndex = r.matchIndex
  commit : s.commitIndex = r.commitIndex

theorem Still.refl (r : Raft n) : Still r r := ⟨.refl r, rfl, rfl⟩

theorem electionStart_still (run : r.electionStart = some s) : Still r s := by
  rw [electionStart] at run
  split at run <;> cases run
  exact ⟨⟨rfl, rfl, rfl⟩, rfl, rfl⟩

theorem electionWake_cases (run : r.electionWake = some s) :
    s = r ∨ (r.state = .CANDIDATE ∧ s.state = .LEADER ∧ SameLog r s ∧ s.curTerm = r.curTerm ∧
      s.file = r.file ∧ s.commitIndex = r.commitIndex ∧ ∀ v, s.matchIndex v = 0) := by
  rw [electionWake] at run
  split at run
  · cases run
  · split at run
    · cases run
      exact .inl rfl
    · rename_i candidate
      split at run <;> cases run
      · exact .inr ⟨not_not.mp candidate, rfl, ⟨rfl, rfl, rfl⟩, rfl, rfl, rfl, fun _ => rfl⟩
      · exact .inl rfl

theorem callRequestVote_still {peer : Fin n} {args : RequestVoteArgs}
    (run : r.callRequestVote = some (s, peer, args)) : Still r s := by
  simp only [callRequestVote] at run
  split at run <;> cases run
  exact ⟨⟨rfl, rfl, rfl⟩, rfl, rfl⟩

theorem requestVote_still (r : Raft n) (args : RequestVoteArgs) :
    Still r (r.requestVote args).1 := by
  refine ⟨requestVote_log r args, ?_, ?_⟩ <;> rw [requestVote] <;> split
  · rfl
  · simp only [stepDown]
    split <;> split <;> first | rfl | (split <;> rfl)
  · rfl
  · simp only [stepDown]
    split <;> split <;> first | rfl | (split <;> rfl)

def NoSavedLog (r : Raft n) : Prop :=
  ∀ bytes ∈ r.file.bytes, ∀ p ∈ deserialize bytes r.persister.snapShot, p.logs = []

instance (r : Raft n) : Decidable r.NoSavedLog := by
  unfold NoSavedLog
  infer_instance

theorem voteReply_still {reply : RequestVoteReply} (clean : reply.term > r.curTerm → r.NoSavedLog)
    (run : r.voteReply reply = some s) : Still r s := by
  by_cases higher : reply.term > r.curTerm
  · simp only [voteReply, if_pos higher, readRaftState] at run
    split at run
    · cases run
      exact ⟨⟨rfl, rfl, rfl⟩, rfl, rfl⟩
    · rename_i bytes there
      obtain ⟨p, read, rfl⟩ := Option.map_eq_some_iff.mp run
      have none := clean higher bytes there p read
      exact ⟨⟨by rw [none, List.append_nil], rfl, rfl⟩, rfl, rfl⟩
  · simp only [voteReply, if_neg higher] at run
    split at run <;> cases run <;> exact ⟨⟨rfl, rfl, rfl⟩, rfl, rfl⟩

theorem voteReply_steps {reply : RequestVoteReply} (higher : reply.term > r.curTerm)
    (run : r.voteReply reply = some s) : s.state = .FOLLOWER := by
  simp only [voteReply, if_pos higher, readRaftState] at run
  split at run
  · cases run
    rfl
  · obtain ⟨p, -, rfl⟩ := Option.map_eq_some_iff.mp run
    rfl

theorem processEntries_still {k l : Nat} (run : r.processEntries = some (s, k, l)) :
    Still r s := by
  simp only [processEntries] at run
  split at run <;> cases run
  exact ⟨⟨rfl, rfl, rfl⟩, rfl, rfl⟩

theorem applyLog_still {msgs : List ApplyMsg} (run : r.applyLog = some (s, msgs)) :
    Still r s := by
  rw [collectMsgs_applied run]
  exact ⟨⟨rfl, rfl, rfl⟩, rfl, rfl⟩

/-! ### A granted vote -/

theorem requestVote_grants {args : RequestVoteArgs}
    (granted : (r.requestVote args).2.voteGranted) :
    r.curTerm ≤ args.term ∧ (r.requestVote args).1.curTerm = args.term ∧
      (r.lastTerm < args.lastLogTerm ∨
        (args.lastLogTerm = r.lastTerm ∧ r.lastIndex ≤ args.lastLogIndex)) := by
  rw [requestVote] at granted ⊢
  by_cases old : r.curTerm > args.term
  · rw [if_pos old] at granted
    cases granted
  rw [if_neg old] at granted ⊢
  have entered : (r.stepDown args.term).curTerm = args.term ∧
      (r.stepDown args.term).lastTerm = r.lastTerm ∧
      (r.stepDown args.term).lastIndex = r.lastIndex := by
    rw [stepDown]
    by_cases higher : r.curTerm < args.term
    · rw [if_pos higher]
      exact ⟨rfl, rfl, rfl⟩
    · rw [if_neg higher]
      exact ⟨by omega, rfl, rfl⟩
  simp only at granted ⊢
  split at granted
  · rename_i free
    rw [if_pos free]
    split at granted
    · rename_i upToDate
      rw [if_pos upToDate]
      refine ⟨by omega, entered.1, ?_⟩
      rw [checkLogUptodate, entered.2.1, entered.2.2] at upToDate
      split at upToDate
      · rename_i later
        exact .inl later
      · split at upToDate
        · rename_i same
          exact .inr same
        · cases upToDate
    · cases granted
  · cases granted

/-! ### A request of the leader -/

/-- The request describes the log of the sender from place `p` on. -/
structure Asks (r : Raft n) (peer : Fin n) (args : AppendEntriesArgs) (p : Nat) : Prop where
  apart : peer ≠ r.peerId
  term : args.term = r.curTerm
  commit : args.leaderCommit = r.commitIndex
  prev : args.prevLogIndex = p
  within : p ≤ r.logs.length
  prevTerm : args.prevLogTerm = Replication.lastTerm LogEntry.term (r.logs.take p)
  logs : args.sendLogs = sendLogsOf (r.logs.drop p)

theorem takePeer_apart {install : Bool} {peer : Fin n} (run : r.takePeer install = some (peer, s)) :
    peer ≠ r.peerId := by
  obtain ⟨p, found, done⟩ := Option.map_eq_some_iff.mp run
  cases done
  have free := List.find?_some found
  exact (of_decide_eq_true free).1

theorem sendAppendEntries_asks {peer : Fin n} {args : AppendEntriesArgs} (whole : r.Whole)
    (run : r.sendAppendEntries = some (s, peer, args)) :
    Still r s ∧ ∃ p, r.Asks peer args p := by
  rw [sendAppendEntries] at run
  split at run
  · cases run
  · rename_i taken
    have apart := takePeer_apart taken
    obtain ⟨flags, exist, rfl⟩ := takePeer_flags taken
    obtain ⟨prevLogTerm, found, done⟩ := Option.map_eq_some_iff.mp run
    cases done
    refine ⟨⟨⟨rfl, rfl, rfl⟩, rfl, rfl⟩, ?_⟩
    have found : r.prevTermOf (r.nextIndex peer - 1) = some prevLogTerm := found
    generalize r.nextIndex peer - 1 = prev at found
    have after : ∀ p : Nat, prev = p → r.logsAfter prev = r.logs.drop p := by
      rintro p rfl
      rw [logsAfter, idxToCompressLogPos, whole.index, if_neg (by omega)]
      congr 1
      omega
    rw [prevTermOf] at found
    split at found
    · rename_i base
      rw [whole.index] at base
      cases found
      refine ⟨0, apart, rfl, rfl, base, Nat.zero_le _, ?_, congrArg sendLogsOf (after 0 base)⟩
      rw [whole.term]
      rfl
    · obtain ⟨e, there, rfl⟩ := Option.map_eq_some_iff.mp found
      obtain ⟨k, rfl, inLog⟩ := whole.entryAt_some there
      have inside := (List.getElem?_eq_some_iff.mp inLog).1
      refine ⟨k + 1, apart, rfl, rfl, rfl, inside, ?_, congrArg sendLogsOf (after (k + 1) rfl)⟩
      exact (lastTerm_take LogEntry.term inLog).symm

/-! ### The follower -/

/-- The request passes the tests of `appendEntries`. -/
structure Takes (r : Raft n) (args : AppendEntriesArgs) (recvLog : List LogEntry) : Prop where
  read : getCmdAndTerm args.sendLogs = some recvLog
  current : ¬ args.term < r.curTerm
  passes : (r.enterTerm args.term).checkPrevLog args r.curTerm = some none

theorem checkPrevLog_refuses {args : AppendEntriesArgs} {term : Int} {reply : AppendEntriesReply}
    (refused : r.checkPrevLog args term = some (some reply)) : reply.success = false := by
  rw [checkPrevLog] at refused
  split at refused
  · cases refused
    rfl
  split at refused
  · cases refused
    rfl
  split at refused
  · split at refused <;> cases refused
    rfl
  · split at refused
    · cases refused
      rfl
    · obtain ⟨e, -, decided⟩ := Option.map_eq_some_iff.mp refused
      split at decided <;> cases decided
      rfl

theorem appendEntries_cases {args : AppendEntriesArgs} {reply : AppendEntriesReply}
    (run : r.appendEntries args = some (s, reply)) :
    (Still r s ∧ reply.success = false) ∨
      ∃ recvLog, r.Takes args recvLog ∧ s = (r.enterTerm args.term).overwriteLog args recvLog := by
  rw [appendEntries] at run
  split at run
  · cases run
  · rename_i recvLog read
    split at run
    · cases run
      exact .inl ⟨.refl r, rfl⟩
    · rename_i current
      obtain ⟨answer, checked, done⟩ := Option.map_eq_some_iff.mp run
      cases answer with
      | some refused =>
        cases done
        refine .inl ⟨⟨enterTerm_log r args.term, ?_, (enterTerm_indices r args.term).commit⟩, ?_⟩
        · simp only [enterTerm]
          split <;> rfl
        · exact checkPrevLog_refuses checked
      | none =>
        cases done
        exact .inr ⟨recvLog, ⟨read, current, checked⟩, rfl⟩

theorem checkPrevLog_prev {args : AppendEntriesArgs} {term : Int} (whole : r.Whole)
    (pass : r.checkPrevLog args term = some none) :
    ∃ p : Nat, args.prevLogIndex = p ∧ p ≤ r.logs.length ∧
      args.prevLogTerm = Replication.lastTerm LogEntry.term (r.logs.take p) := by
  rw [checkPrevLog] at pass
  split at pass
  · cases pass
  split at pass
  · cases pass
  split at pass
  · rename_i base
    split at pass
    · cases pass
    · rename_i same
      rw [whole.term, not_not] at same
      exact ⟨0, base.trans whole.index, Nat.zero_le _, same⟩
  · split at pass
    · cases pass
    · obtain ⟨e, there, decided⟩ := Option.map_eq_some_iff.mp pass
      obtain ⟨k, prev, inLog⟩ := whole.entryAt_some there
      have inside := (List.getElem?_eq_some_iff.mp inLog).1
      split at decided
      · cases decided
      · rename_i same
        refine ⟨k + 1, prev, inside, ?_⟩
        rw [lastTerm_take LogEntry.term inLog]
        exact (not_not.mp same).symm

/-- What a request that is taken leaves behind. -/
structure Overwritten (r s : Raft n) (args : AppendEntriesArgs) (p : Nat)
    (recvLog : List LogEntry) : Prop where
  whole : s.Whole
  logs : s.logs = r.logs.take p ++ recvLog
  term : s.curTerm = args.term
  state : s.state = .FOLLOWER
  matched : s.matchIndex = r.matchIndex
  commit : s.commitIndex = r.commitIndex ∨ s.commitIndex ≤ args.leaderCommit
  saved : ∀ record, s.file.saved = some record → record.curTerm = args.term

theorem overwriteLog_fields (r : Raft n) (args : AppendEntriesArgs)
    (recvLog : List LogEntry) :
    (r.overwriteLog args recvLog).logs =
        popBack (r.lastIndex - args.prevLogIndex).toNat r.logs ++ recvLog ∧
      (r.overwriteLog args recvLog).state = r.state ∧
      (r.overwriteLog args recvLog).matchIndex = r.matchIndex ∧
      ((r.overwriteLog args recvLog).commitIndex = r.commitIndex ∨
        (r.overwriteLog args recvLog).commitIndex ≤ args.leaderCommit) ∧
      ∀ record, (r.overwriteLog args recvLog).file.saved = some record →
        record.curTerm = r.curTerm := by
  simp only [overwriteLog]
  split
  · refine ⟨rfl, rfl, rfl, .inr (min_le_left _ _), ?_⟩
    rintro record ⟨⟩
    rfl
  · refine ⟨rfl, rfl, rfl, .inl rfl, ?_⟩
    rintro record ⟨⟩
    rfl

theorem Takes.overwritten {args : AppendEntriesArgs} {recvLog : List LogEntry} (whole : r.Whole)
    (takes : r.Takes args recvLog) : ∃ p : Nat, args.prevLogIndex = p ∧ p ≤ r.logs.length ∧
      args.prevLogTerm = Replication.lastTerm LogEntry.term (r.logs.take p) ∧
      Overwritten r ((r.enterTerm args.term).overwriteLog args recvLog) args p recvLog := by
  have entered := enterTerm_indices r args.term
  have whole' := entered.log.whole whole
  obtain ⟨p, prev, within, prevTerm⟩ := checkPrevLog_prev whole' takes.passes
  rw [entered.log.logs] at within prevTerm
  have matched : (r.enterTerm args.term).matchIndex = r.matchIndex := by
    simp only [enterTerm]
    split <;> rfl
  have cut : popBack ((r.enterTerm args.term).lastIndex - args.prevLogIndex).toNat
      (r.enterTerm args.term).logs = r.logs.take p := by
    rw [popBack_eq_take, whole'.lastIndex, prev, entered.log.logs]
    congr 1
    omega
  obtain ⟨logs, state, same, commit, saved⟩ :=
    overwriteLog_fields (r.enterTerm args.term) args recvLog
  have base := overwriteLog_base (r.enterTerm args.term) args recvLog
  refine ⟨p, prev, within, prevTerm, ?_⟩
  exact {
    whole := ⟨base.1.trans whole'.index, base.2.trans whole'.term⟩
    logs := by rw [logs, cut]
    term := (overwriteLog_savedOver _ args recvLog).2.1
    state := state
    matched := same.trans matched
    commit := entered.commit ▸ commit
    saved := saved }

/-! ### The leader counts -/

theorem advanceCommit_index (whole : r.Whole) (run : r.advanceCommit = some s) :
    s.commitIndex = r.commitIndex ∨ s.commitIndex ≤ 0 ∨
      ∃ (k : Nat) (e : LogEntry), s.commitIndex = k + 1 ∧ r.realMajorityMatchIndex = k + 1 ∧
        r.logs[k]? = some e ∧ e.term = r.curTerm := by
  simp only [advanceCommit] at run
  split at run
  · split at run
    · rename_i low
      cases run
      rw [whole.index] at low
      exact .inr (.inl low)
    · obtain ⟨e, there, rfl⟩ := Option.map_eq_some_iff.mp run
      obtain ⟨k, index, inLog⟩ := whole.entryAt_some there
      split
      · rename_i own
        exact .inr (.inr ⟨k, e, index, index, inLog, own⟩)
      · exact .inl rfl
  · cases run
    exact .inl rfl

structure Counts (r s : Raft n) (peer : Fin n) (args : AppendEntriesArgs)
    (sent : List LogEntry) : Prop where
  current : r.curTerm = args.term
  read : getCmdAndTerm args.sendLogs = some sent
  log : SameLog r s
  matched : s.matchIndex = Function.update
    (Function.update r.matchIndex peer (args.prevLogIndex + sent.length)) r.peerId r.lastIndex
  commit : s.commitIndex = r.commitIndex ∨ s.commitIndex ≤ 0 ∨
    ∃ (k : Nat) (e : LogEntry), s.commitIndex = k + 1 ∧ s.realMajorityMatchIndex = k + 1 ∧
      r.logs[k]? = some e ∧ e.term = r.curTerm

theorem appendReply_cases {peer : Fin n} {args : AppendEntriesArgs} {reply : AppendEntriesReply}
    (whole : r.Whole) (run : r.appendReply peer args reply = some s) :
    Still r s ∨ (reply.success ∧ ∃ sent, r.Counts s peer args sent) := by
  rw [appendReply] at run
  split at run
  · cases run
    exact .inl (.refl r)
  · rename_i current
    split at run
    · cases run
      exact .inl ⟨⟨rfl, rfl, rfl⟩, rfl, rfl⟩
    · split at run
      · rename_i success
        split at run
        · cases run
        · rename_i sent read
          obtain ⟨t, commit, rfl⟩ := Option.map_eq_some_iff.mp run
          refine .inr ⟨success, sent, not_not.mp current, read, ?_, ?_, ?_⟩
          · obtain ⟨index, rfl⟩ := advanceCommit_commit commit
            simp only [setMatchIndex, setNextIndex]
            exact ⟨rfl, rfl, rfl⟩
          · obtain ⟨index, rfl⟩ := advanceCommit_commit commit
            simp only [saveRaftState, setMatchIndex, setNextIndex, add_sub_cancel_right]
          · have index := advanceCommit_index (by exact ⟨whole.index, whole.term⟩) commit
            obtain ⟨_, rfl⟩ := advanceCommit_commit commit
            exact index
      · obtain ⟨t, back, rfl⟩ := Option.map_eq_some_iff.mp run
        obtain ⟨next, rfl⟩ := backOff_nextIndex back
        exact .inl ⟨⟨rfl, rfl, rfl⟩, rfl, rfl⟩

/-! ### Applying -/

theorem applyLog_entries {msgs : List ApplyMsg} (run : r.applyLog = some (s, msgs)) :
    ∀ m ∈ msgs, ∃ index e, m = .command e.command index e.term ∧ r.entryAt index = some e ∧
      index ≤ r.commitIndex := by
  have collected : ∀ count (r : Raft n) s msgs, collectMsgs count r = some (s, msgs) →
      ∀ m ∈ msgs, ∃ index e, m = .command e.command index e.term ∧ r.entryAt index = some e ∧
        index ≤ r.lastApplied + count := by
    intro count
    induction count with
    | zero =>
      rintro r s msgs run m member
      cases run
      cases member
    | succ count ih =>
      intro r s msgs run m member
      simp only [collectMsgs] at run
      split at run
      · cases run
      · rename_i e there
        obtain ⟨⟨t, more⟩, later, done⟩ := Option.map_eq_some_iff.mp run
        cases done
        cases List.mem_cons.mp member with
        | inl first => exact ⟨_, e, first, there, by omega⟩
        | inr rest =>
          obtain ⟨index, d, same, found, le⟩ := ih _ _ _ later m rest
          refine ⟨index, d, same, found, ?_⟩
          have le : index ≤ r.lastApplied + 1 + count := le
          omega
  intro m member
  obtain ⟨index, e, same, found, le⟩ := collected _ r s msgs run m member
  refine ⟨index, e, same, found, ?_⟩
  by_cases ahead : r.lastApplied ≤ r.commitIndex
  · omega
  · have idle : (r.commitIndex - r.lastApplied).toNat = 0 := by omega
    rw [applyLog, idle] at run
    cases run
    cases member

end Raft

end ProjectsCpp.KvRaft
