import ProjectsCpp.KvRaft.Ballot

/-! The logical log across one critical section: the entry at each index, and the base
below the first of them. -/

namespace ProjectsCpp.KvRaft
open ProjectsCpp.Text

variable {n : Nat}

namespace Raft
variable {r s : Raft n}

/-- The same entries at the same indices. -/
structure SameLog (r s : Raft n) : Prop where
  logs : s.logs = r.logs
  index : s.lastIncludedIndex = r.lastIncludedIndex
  term : s.lastIncludedTerm = r.lastIncludedTerm

/-- Compaction drops entries and moves none. -/
def Compacted (r s : Raft n) : Prop :=
  ∀ index e, s.entryAt index = some e → r.entryAt index = some e

/-- What the section may do to the logical log. -/
def LogFrame (r s : Raft n) : Action n → Prop
  | .start command =>
    s.lastIncludedIndex = r.lastIncludedIndex ∧ s.lastIncludedTerm = r.lastIncludedTerm ∧
      s.logs = if r.state = .LEADER then r.logs ++ [⟨command, r.curTerm⟩] else r.logs
  | .appendEntries _ => s.lastIncludedIndex = r.lastIncludedIndex ∧
      s.lastIncludedTerm = r.lastIncludedTerm
  | .installSnapShot _ => Compacted r s
  | .recvSnapShot _ _ => Compacted r s
  | _ => SameLog r s

theorem SameLog.refl (r : Raft n) : SameLog r r := ⟨rfl, rfl, rfl⟩

theorem SameLog.compacted (same : SameLog r s) : Compacted r s := by
  intro index e there
  rw [entryAt_eq, same.logs, same.index] at there
  rw [entryAt_eq, there]

theorem compacted_drop (base : Int) (le : r.lastIncludedIndex ≤ base)
    (index : s.lastIncludedIndex = base)
    (logs : s.logs = r.logs.drop (base - r.lastIncludedIndex).toNat) : Compacted r s := by
  intro i e there
  rw [entryAt_eq, index, logs] at there
  rw [entryAt_eq]
  split at there
  · cases there
  · rw [if_neg (by omega), ← there, List.getElem?_drop]
    congr 1
    omega

theorem compacted_nil (logs : s.logs = []) : Compacted r s := by
  intro i e there
  simp [entryAt, logs] at there

theorem electionStart_log (run : r.electionStart = some s) : SameLog r s := by
  rw [electionStart] at run
  split at run <;> cases run
  exact ⟨rfl, rfl, rfl⟩

theorem electionWake_log (run : r.electionWake = some s) : SameLog r s := by
  rw [electionWake] at run
  split at run
  · cases run
  · split at run
    · cases run
      exact .refl r
    · split at run <;> cases run <;> exact ⟨rfl, rfl, rfl⟩

theorem callRequestVote_log {peer : Fin n} {args : RequestVoteArgs}
    (run : r.callRequestVote = some (s, peer, args)) : SameLog r s := by
  simp only [callRequestVote] at run
  split at run <;> cases run
  exact ⟨rfl, rfl, rfl⟩

theorem requestVote_log (r : Raft n) (args : RequestVoteArgs) :
    SameLog r (r.requestVote args).1 := by
  rw [requestVote]
  split
  · exact .refl r
  · simp only [stepDown]
    split <;> split <;> first | exact ⟨rfl, rfl, rfl⟩ | (split <;> exact ⟨rfl, rfl, rfl⟩)

theorem voteReply_log {reply : RequestVoteReply} (low : ¬ reply.term > r.curTerm)
    (run : r.voteReply reply = some s) : SameLog r s := by
  simp only [voteReply, if_neg low] at run
  split at run <;> cases run <;> exact ⟨rfl, rfl, rfl⟩

theorem processEntries_log {k l : Nat} (run : r.processEntries = some (s, k, l)) :
    SameLog r s := by
  simp only [processEntries] at run
  split at run <;> cases run
  exact ⟨rfl, rfl, rfl⟩

theorem sendAppendEntries_log {peer : Fin n} {args : AppendEntriesArgs}
    (run : r.sendAppendEntries = some (s, peer, args)) : SameLog r s := by
  rw [sendAppendEntries] at run
  split at run
  · cases run
  · rename_i taken
    obtain ⟨flags, exist, rfl⟩ := takePeer_flags taken
    obtain ⟨t, -, ht⟩ := Option.map_eq_some_iff.mp run
    cases ht
    exact ⟨rfl, rfl, rfl⟩

theorem enterTerm_log (r : Raft n) (term : Int) : SameLog r (r.enterTerm term) := by
  simp only [enterTerm]
  split <;> exact ⟨rfl, rfl, rfl⟩

theorem overwriteLog_base (r : Raft n) (args : AppendEntriesArgs) (recvLog : List LogEntry) :
    (r.overwriteLog args recvLog).lastIncludedIndex = r.lastIncludedIndex ∧
      (r.overwriteLog args recvLog).lastIncludedTerm = r.lastIncludedTerm := by
  simp only [overwriteLog]
  split <;> exact ⟨rfl, rfl⟩

theorem appendEntries_base {args : AppendEntriesArgs} {reply : AppendEntriesReply}
    (run : r.appendEntries args = some (s, reply)) :
    s.lastIncludedIndex = r.lastIncludedIndex ∧ s.lastIncludedTerm = r.lastIncludedTerm := by
  rw [appendEntries] at run
  split at run
  · cases run
  · rename_i recvLog _
    split at run
    · cases run
      exact ⟨rfl, rfl⟩
    · obtain ⟨answer, -, done⟩ := Option.map_eq_some_iff.mp run
      have entered := enterTerm_log r args.term
      cases answer with
      | some refused =>
        cases done
        exact ⟨entered.index, entered.term⟩
      | none =>
        cases done
        have base := overwriteLog_base (r.enterTerm args.term) args recvLog
        exact ⟨base.1.trans entered.index, base.2.trans entered.term⟩

theorem Answered.log {term : Int} (answered : Answered r term s) : SameLog r s := by
  cases answered <;> exact ⟨rfl, rfl, rfl⟩

theorem appendReply_log {peer : Fin n} {args : AppendEntriesArgs} {reply : AppendEntriesReply}
    (run : r.appendReply peer args reply = some s) : SameLog r s :=
  (appendReply_answered run).log

theorem sendInstallSnapShot_log {peer : Fin n} {args : InstallSnapShotArgs}
    (run : r.sendInstallSnapShot = some (s, peer, args)) : SameLog r s := by
  obtain ⟨⟨p, t⟩, taken, done⟩ := Option.map_eq_some_iff.mp run
  obtain ⟨flags, exist, rfl⟩ := takePeer_flags taken
  cases done
  rw [readSnapShot]
  cases r.snapFile <;> exact ⟨rfl, rfl, rfl⟩

theorem installReply_log {peer : Fin n} {args : InstallSnapShotArgs}
    {reply : InstallSnapSHotReply} (run : r.installReply peer args reply = some s) :
    SameLog r s :=
  (installReply_answered run).log

theorem installSnapShot_log {args : InstallSnapShotArgs} {reply : InstallSnapSHotReply}
    {push : Bool} (run : r.installSnapShot args = some (s, reply, push)) : Compacted r s := by
  simp only [installSnapShot] at run
  split at run
  · cases run
    exact (SameLog.refl r).compacted
  have entered := enterTerm_log r args.term
  split at run
  · cases run
    exact entered.compacted
  · rename_i ahead
    obtain ⟨logs, kept, done⟩ := Option.map_eq_some_iff.mp run
    cases done
    rw [entered.index] at ahead
    simp only [logsAfterSnapShot] at kept
    split at kept
    · obtain ⟨e, -, chosen⟩ := Option.map_eq_some_iff.mp kept
      split at chosen
      · exact compacted_nil chosen.symm
      · refine compacted_drop args.lastIncludedIndex (by omega) rfl ?_
        rw [show (saveSnapShot _).logs = logs from rfl, ← chosen, entered.logs,
          idxToCompressLogPos, entered.index]
        congr 2
        omega
    · cases kept
      exact compacted_nil rfl

theorem installSnapShotTokvServer_log (r : Raft n) :
    SameLog r r.installSnapShotTokvServer.1 := by
  rw [installSnapShotTokvServer, readSnapShot]
  cases r.snapFile <;> exact ⟨rfl, rfl, rfl⟩

theorem recvSnapShot_log {snapShot : Str} {index : Int}
    (run : r.recvSnapShot snapShot index = some s) : Compacted r s := by
  rw [recvSnapShot] at run
  split at run
  · cases run
    exact SameLog.compacted ⟨rfl, rfl, rfl⟩
  · obtain ⟨e, -, rfl⟩ := Option.map_eq_some_iff.mp run
    exact compacted_drop index (by omega) rfl rfl

theorem applyLog_log {msgs : List ApplyMsg} (run : r.applyLog = some (s, msgs)) :
    SameLog r s := by
  rw [collectMsgs_applied run]
  exact ⟨rfl, rfl, rfl⟩

theorem start_log (r : Raft n) (command : Str) :
    LogFrame r (r.start command).1 (.start command) := by
  rw [start]
  by_cases leader : r.state = .LEADER
  · rw [if_neg (not_not_intro leader)]
    exact ⟨rfl, rfl, (if_pos leader).symm⟩
  · rw [if_pos leader]
    exact ⟨rfl, rfl, (if_neg leader).symm⟩

end Raft

open Raft

theorem Process.step_log {p q : Process n} {a : Action n} {o : Output n}
    (keeps : ¬ a.Reloads p.raft) (next : p.step a = some (q, o)) :
    LogFrame p.raft q.raft a := by
  cases Process.ran_of_step next with
  | electionStart idle run => exact electionStart_log run
  | electionWake waits run => exact electionWake_log run
  | callRequestVote thread run => exact callRequestVote_log run
  | requestVote => exact requestVote_log _ _
  | voteReply call run => exact voteReply_log keeps run
  | processEntries run => exact processEntries_log run
  | sendAppendEntries thread run => exact sendAppendEntries_log run
  | appendEntries run => exact appendEntries_base run
  | appendReply call run => exact appendReply_log run
  | sendInstallSnapShot thread run => exact sendInstallSnapShot_log run
  | installSnapShot run => exact installSnapShot_log run
  | installReply call run => exact installReply_log run
  | installSnapShotTokvServer waits => exact installSnapShotTokvServer_log _
  | start => exact start_log _ _
  | applyLog run => exact applyLog_log run
  | recvSnapShot run => exact recvSnapShot_log run

end ProjectsCpp.KvRaft
