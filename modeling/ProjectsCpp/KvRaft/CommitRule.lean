import ProjectsCpp.KvRaft.Compaction
import ProjectsCpp.Lib.Quorum

/-! The commit rule of the leader: the middle of the sorted `m_matchIndex` is the largest
index that more than half of the peers have, and it becomes `m_commitIndex` only with an
entry of the current term or below the base of the log. -/

namespace ProjectsCpp.KvRaft
open ProjectsCpp.Text

namespace Raft
variable {n : Nat} {r s : Raft n}

def MajorityHas (r : Raft n) (index : Int) : Prop :=
  n / 2 < (List.finRange n).countP fun p => decide (index ≤ r.matchIndex p)

/-- What a changed `m_commitIndex` has to be. -/
structure CommitsBy (r s : Raft n) : Prop where
  own : s.matchIndex s.peerId = s.lastIndex
  greatest : IsGreatest {index | s.MajorityHas index} s.commitIndex
  more : r.commitIndex < s.commitIndex
  current : s.commitIndex ≤ s.lastIncludedIndex ∨ s.HoldsTerm s.commitIndex s.curTerm

theorem realMajority_le {bound : Int} (all : ∀ p, r.matchIndex p ≤ bound) :
    r.realMajorityMatchIndex ≤ bound := by
  have positive : 0 < n := r.peerId.pos
  have length : ((List.ofFn r.matchIndex).insertionSort (· ≤ ·)).length = n := by
    rw [List.length_insertionSort, List.length_ofFn]
  have member : r.realMajorityMatchIndex ∈ (List.ofFn r.matchIndex).insertionSort (· ≤ ·) := by
    rw [realMajorityMatchIndex, List.getD_eq_getElem?_getD, List.getElem?_eq_getElem (by omega),
      Option.getD_some]
    exact List.getElem_mem _
  rw [List.mem_insertionSort, List.mem_ofFn] at member
  obtain ⟨p, value⟩ := member
  rw [← value]
  exact all p

theorem advanceCommit_commits (odd : n % 2 = 1) (own : r.matchIndex r.peerId = r.lastIndex)
    (run : r.advanceCommit = some s) (changed : s.commitIndex ≠ r.commitIndex) : CommitsBy r s := by
  have greatest : IsGreatest {index | r.MajorityHas index} r.realMajorityMatchIndex :=
    Quorum.isGreatest_median odd r.matchIndex
  simp only [advanceCommit] at run
  split at run
  · rename_i more
    split at run
    · rename_i below
      cases run
      exact ⟨own, greatest, more, .inl below⟩
    · obtain ⟨e, found, done⟩ := Option.map_eq_some_iff.mp run
      split at done
      · rename_i current
        cases done
        refine ⟨own, greatest, more, .inr ?_⟩
        rw [HoldsTerm]
        exact (congrArg (Option.map LogEntry.term) found).trans (congrArg some current)
      · rw [done] at changed
        exact absurd rfl changed
  · cases run
    exact absurd rfl changed

theorem advanceCommit_isSome (all : ∀ p, r.matchIndex p ≤ r.lastIndex) : r.advanceCommit.isSome := by
  simp only [advanceCommit]
  split
  · split
    · rfl
    · rename_i above
      rw [Option.isSome_map]
      exact entryAt_isSome (not_le.mp above) (realMajority_le all)
  · rfl

/-! ### The two handlers -/

def acknowledged (r : Raft n) (peer : Fin n) (index : Int) : Fin n → Int :=
  Function.update (Function.update r.matchIndex peer index) r.peerId r.lastIndex

theorem CommitsBy.saved (commits : CommitsBy r s) : CommitsBy r s.saveRaftState :=
  ⟨commits.own, commits.greatest, commits.more, commits.current⟩

theorem advance_of_acknowledged (odd : n % 2 = 1) {before : Raft n} {peer : Fin n} {index : Int}
    (run : before.advanceCommit = some s) (values : before.matchIndex = r.acknowledged peer index)
    (commit : before.commitIndex = r.commitIndex) (same : before.peerId = r.peerId)
    (last : before.lastIndex = r.lastIndex) (changed : s.commitIndex ≠ r.commitIndex) :
    CommitsBy r s := by
  have own : before.matchIndex before.peerId = before.lastIndex := by
    rw [values, acknowledged, same, last, Function.update_self]
  have commits := advanceCommit_commits odd own run (by rwa [commit])
  exact ⟨commits.own, commits.greatest, commit ▸ commits.more, commits.current⟩

theorem appendReply_commits (odd : n % 2 = 1) {peer : Fin n} {args : AppendEntriesArgs}
    {reply : AppendEntriesReply} (run : r.appendReply peer args reply = some s)
    (changed : s.commitIndex ≠ r.commitIndex) : CommitsBy r s := by
  simp only [appendReply] at run
  split at run
  · cases run
    exact absurd rfl changed
  · split at run
    · cases run
      exact absurd rfl changed
    · split at run
      · split at run
        · cases run
        · rename_i sent parsed
          obtain ⟨t, advanced, rfl⟩ := Option.map_eq_some_iff.mp run
          exact (advance_of_acknowledged (r := r) odd advanced rfl rfl rfl rfl changed).saved
      · obtain ⟨t, back, rfl⟩ := Option.map_eq_some_iff.mp run
        have same : t.commitIndex = r.commitIndex := by
          simp only [backOff] at back
          split at back
          · obtain ⟨index, -, rfl⟩ := Option.map_eq_some_iff.mp back
            split <;> rfl
          · split at back <;> cases back <;> rfl
        exact absurd same changed

theorem installReply_commits (odd : n % 2 = 1) {peer : Fin n} {args : InstallSnapShotArgs}
    {reply : InstallSnapSHotReply} (run : r.installReply peer args reply = some s)
    (changed : s.commitIndex ≠ r.commitIndex) : CommitsBy r s := by
  simp only [installReply] at run
  split at run
  · cases run
    exact absurd rfl changed
  · split at run
    · cases run
      exact absurd rfl changed
    · exact advance_of_acknowledged (r := r) odd run rfl rfl rfl rfl changed

theorem appendReply_isSome {peer : Fin n} {args : AppendEntriesArgs} {reply : AppendEntriesReply}
    {sent : List LogEntry} (parsed : getCmdAndTerm args.sendLogs = some sent)
    (success : reply.success = true)
    (all : ∀ p, r.acknowledged peer (args.prevLogIndex + sent.length) p ≤ r.lastIndex) :
    (r.appendReply peer args reply).isSome := by
  simp only [appendReply]
  split
  · rfl
  · split
    · rfl
    · rw [parsed]
      simp only [Option.isSome_map]
      refine advanceCommit_isSome ?_
      rw [add_sub_cancel_right]
      exact all

theorem installReply_isSome {peer : Fin n} {args : InstallSnapShotArgs}
    {reply : InstallSnapSHotReply}
    (all : ∀ p, r.acknowledged peer args.lastIncludedIndex p ≤ r.lastIndex) :
    (r.installReply peer args reply).isSome := by
  simp only [installReply]
  split
  · rfl
  · split
    · rfl
    · exact advanceCommit_isSome all

/-- With an odd number of peers a handler that changes `m_commitIndex` sets it to the largest
index that more than half of `m_matchIndex` reach, up from a smaller one and with an entry of
the current term or none above the base; and it reads inside `m_logs` as long as no value of
`m_matchIndex` is beyond the log. -/
theorem commit_rule (odd : n % 2 = 1) (r : Raft n) (peer : Fin n) :
    (∀ args reply s, r.appendReply peer args reply = some s → s.commitIndex ≠ r.commitIndex →
      CommitsBy r s) ∧
    (∀ args reply s, r.installReply peer args reply = some s → s.commitIndex ≠ r.commitIndex →
      CommitsBy r s) ∧
    (∀ args reply sent, getCmdAndTerm args.sendLogs = some sent → reply.success = true →
      (∀ p, r.acknowledged peer (args.prevLogIndex + sent.length) p ≤ r.lastIndex) →
        (r.appendReply peer args reply).isSome) ∧
    ∀ args reply, (∀ p, r.acknowledged peer args.lastIncludedIndex p ≤ r.lastIndex) →
      (r.installReply peer args reply).isSome :=
  ⟨fun _ _ _ run changed => appendReply_commits odd run changed,
    fun _ _ _ run changed => installReply_commits odd run changed,
    fun _ _ _ parsed success all => appendReply_isSome parsed success all,
    fun _ _ all => installReply_isSome all⟩

def leaderOfThree : Raft 3 :=
  { fresh 0 (noFile true) none with
    curTerm := 1
    state := .LEADER
    logs := [⟨['a'], 1⟩]
    nextIndex := fun _ => 2 }

theorem leaderOfThree_commits :
    ∃ s, leaderOfThree.appendReply 1 ⟨1, 0, 0, 0, 0, ['a', ',', '1', ';']⟩ ⟨1, true, -1, -1⟩ = some s ∧
      s.commitIndex = 1 ∧ CommitsBy leaderOfThree s := by
  have ran : (leaderOfThree.appendReply 1 ⟨1, 0, 0, 0, 0, ['a', ',', '1', ';']⟩
      ⟨1, true, -1, -1⟩).any (fun s => decide (s.commitIndex = 1)) = true := by decide +kernel
  obtain ⟨s, run, one⟩ := (Option.any_eq_true _ _).mp ran
  refine ⟨s, run, of_decide_eq_true one, (commit_rule rfl leaderOfThree 1).1 _ _ _ run ?_⟩
  rw [of_decide_eq_true one]
  decide

end Raft

end ProjectsCpp.KvRaft
