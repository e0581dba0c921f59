import ProjectsCpp.KvRaft.Delivery

/-! The order of the indices of a follower, `m_lastIncludedIndex ≤ m_lastApplied` and
`m_commitIndex ≤ lastIndex()`, which keeps every read of `applyLogLoop` inside `m_logs`.
`appendEntries` cuts its log without a look at `m_commitIndex`, `installSnapShot` raises the
base before `m_lastApplied` follows, and `installSnapShotTokvServer` may set `m_lastApplied`
back, so the order holds in the runs whose requests respect the indices they meet. -/

namespace ProjectsCpp.KvRaft
open ProjectsCpp.Text ProjectsCpp.Run

variable {n : Nat}

namespace Raft
variable {r s : Raft n}

structure Ordered (r : Raft n) : Prop where
  applied : r.lastIncludedIndex ≤ r.lastApplied
  commit : r.commitIndex ≤ r.lastIndex

structure SameIndices (r s : Raft n) : Prop where
  log : SameLog r s
  applied : s.lastApplied = r.lastApplied
  commit : s.commitIndex = r.commitIndex

theorem SameLog.lastIndex (same : SameLog r s) : s.lastIndex = r.lastIndex := by
  rw [Raft.lastIndex, Raft.lastIndex, same.logs, same.index]

theorem SameLog.entryAt (same : SameLog r s) (index : Int) : s.entryAt index = r.entryAt index := by
  rw [entryAt_eq, entryAt_eq, same.logs, same.index]

theorem SameIndices.ordered (same : SameIndices r s) (ordered : r.Ordered) : s.Ordered := by
  constructor
  · rw [same.log.index, same.applied]
    exact ordered.applied
  · rw [same.commit, same.log.lastIndex]
    exact ordered.commit

theorem entryAt_isSome {index : Int} (above : r.lastIncludedIndex < index)
    (within : index ≤ r.lastIndex) : (r.entryAt index).isSome := by
  rw [lastIndex] at within
  rw [entryAt_eq, if_neg (by omega), List.getElem?_eq_getElem (by omega)]
  rfl

theorem enterTerm_indices (r : Raft n) (term : Int) : SameIndices r (r.enterTerm term) := by
  refine ⟨enterTerm_log r term, ?_, ?_⟩ <;> simp only [enterTerm] <;> split <;> rfl

theorem checkPrevLog_bounds {args : AppendEntriesArgs} {term : Int}
    (pass : r.checkPrevLog args term = some none) :
    r.lastIncludedIndex ≤ args.prevLogIndex ∧ args.prevLogIndex ≤ r.lastIndex := by
  have len : r.lastIndex = r.lastIncludedIndex + r.logs.length := rfl
  rw [checkPrevLog] at pass
  split at pass
  · cases pass
  · split at pass
    · cases pass
    · split at pass
      · omega
      · split at pass
        · cases pass
        · omega

theorem overwriteLog_lastIndex {args : AppendEntriesArgs} {recvLog : List LogEntry}
    (above : r.lastIncludedIndex ≤ args.prevLogIndex) (within : args.prevLogIndex ≤ r.lastIndex) :
    (r.overwriteLog args recvLog).lastIndex = args.prevLogIndex + recvLog.length := by
  have logs : (r.overwriteLog args recvLog).logs =
      popBack (r.lastIndex - args.prevLogIndex).toNat r.logs ++ recvLog := by
    simp only [overwriteLog]
    split <;> rfl
  have len : r.lastIndex = r.lastIncludedIndex + r.logs.length := rfl
  rw [lastIndex, (overwriteLog_base r args recvLog).1, logs, popBack_eq_take, List.length_append,
    List.length_take]
  omega

theorem overwriteLog_commit (r : Raft n) (args : AppendEntriesArgs) (recvLog : List LogEntry) :
    (r.overwriteLog args recvLog).commitIndex = r.commitIndex ∨
      (r.overwriteLog args recvLog).commitIndex ≤ (r.overwriteLog args recvLog).lastIndex := by
  simp only [overwriteLog]
  split
  · exact .inr (min_le_right _ _)
  · exact .inl rfl

theorem overwriteLog_applied (r : Raft n) (args : AppendEntriesArgs) (recvLog : List LogEntry) :
    (r.overwriteLog args recvLog).lastApplied = r.lastApplied := by
  simp only [overwriteLog]
  split <;> rfl

theorem appendEntries_indices {args : AppendEntriesArgs} {reply : AppendEntriesReply}
    (run : r.appendEntries args = some (s, reply)) :
    SameIndices r s ∨ ∃ recvLog, getCmdAndTerm args.sendLogs = some recvLog ∧
      ¬ args.term < r.curTerm ∧
      (r.enterTerm args.term).checkPrevLog args r.curTerm = some none ∧
      s.lastIncludedIndex = r.lastIncludedIndex ∧ s.lastApplied = r.lastApplied ∧
      s.lastIndex = args.prevLogIndex + recvLog.length ∧
      (s.commitIndex = r.commitIndex ∨ s.commitIndex ≤ s.lastIndex) := by
  rw [appendEntries] at run
  split at run
  · cases run
  · rename_i recvLog parsed
    split at run
    · cases run
      exact .inl ⟨.refl r, rfl, rfl⟩
    · rename_i current
      obtain ⟨answer, checked, done⟩ := Option.map_eq_some_iff.mp run
      have entered := enterTerm_indices r args.term
      cases answer with
      | some refused =>
        cases done
        exact .inl entered
      | none =>
        cases done
        have bounds := checkPrevLog_bounds checked
        refine .inr ⟨recvLog, parsed, current, checked, ?_, ?_, ?_, ?_⟩
        · rw [(overwriteLog_base _ args recvLog).1, entered.log.index]
        · rw [overwriteLog_applied, entered.applied]
        · exact overwriteLog_lastIndex bounds.1 bounds.2
        · rw [← entered.commit]
          exact overwriteLog_commit _ args recvLog

theorem installSnapShot_indices {args : InstallSnapShotArgs} {reply : InstallSnapSHotReply}
    {push : Bool} (run : r.installSnapShot args = some (s, reply, push)) :
    SameIndices r s ∨ (¬ args.term < r.curTerm ∧ r.lastIncludedIndex < args.lastIncludedIndex ∧
      s.lastIncludedIndex = args.lastIncludedIndex ∧ s.lastApplied = r.lastApplied ∧
      s.commitIndex = r.commitIndex ∧ args.lastIncludedIndex ≤ s.lastIndex ∧
      (args.lastIncludedIndex < r.lastIndex →
        (r.entryAt r.lastIndex).map LogEntry.term = some args.lastIncludedTerm →
        s.lastIndex = r.lastIndex)) := by
  simp only [installSnapShot] at run
  split at run
  · cases run
    exact .inl ⟨.refl r, rfl, rfl⟩
  · rename_i current
    have entered := enterTerm_indices r args.term
    split at run
    · cases run
      exact .inl entered
    · rename_i ahead
      rw [entered.log.index] at ahead
      obtain ⟨logs, kept, done⟩ := Option.map_eq_some_iff.mp run
      cases done
      have len : r.lastIndex = r.lastIncludedIndex + r.logs.length := rfl
      refine .inr ⟨current, by omega, rfl, entered.applied, entered.commit, ?_, ?_⟩
      · rw [show (saveSnapShot _).lastIndex = args.lastIncludedIndex + logs.length from rfl]
        omega
      · intro inside matches_
        simp only [logsAfterSnapShot, entered.log.lastIndex, entered.log.entryAt, if_pos inside] at kept
        obtain ⟨e, found, chosen⟩ := Option.map_eq_some_iff.mp kept
        rw [found, Option.map_some, Option.some.injEq] at matches_
        rw [if_neg (not_not_intro matches_), entered.log.logs, idxToCompressLogPos,
          entered.log.index] at chosen
        rw [show (saveSnapShot _).lastIndex = args.lastIncludedIndex + logs.length from rfl, ← chosen,
          List.length_drop]
        omega

theorem recvSnapShot_indices {snapShot : Str} {index : Int}
    (run : r.recvSnapShot snapShot index = some s) :
    s.lastApplied = r.lastApplied ∧ s.commitIndex = r.commitIndex ∧ s.lastIndex = r.lastIndex ∧
      (s.lastIncludedIndex = r.lastIncludedIndex ∨ s.lastIncludedIndex = index) := by
  rw [recvSnapShot] at run
  split at run
  · cases run
    exact ⟨rfl, rfl, rfl, .inl rfl⟩
  · obtain ⟨e, found, rfl⟩ := Option.map_eq_some_iff.mp run
    refine ⟨rfl, rfl, ?_, .inr rfl⟩
    rw [entryAt_eq] at found
    split at found
    · cases found
    · have inside := (List.getElem?_eq_some_iff.mp found).1
      have len : r.lastIndex = r.lastIncludedIndex + r.logs.length := rfl
      rw [show (saveSnapShot _).lastIndex =
        index + (r.logs.drop (index - r.lastIncludedIndex).toNat).length from rfl, List.length_drop]
      omega

theorem installSnapShotTokvServer_indices (r : Raft n) :
    SameLog r r.installSnapShotTokvServer.1 ∧
      r.installSnapShotTokvServer.1.commitIndex = r.commitIndex ∧
      (r.installSnapShotTokvServer.1.lastApplied = r.lastApplied ∨
        r.installSnapShotTokvServer.1.lastApplied = r.lastIncludedIndex) := by
  refine ⟨installSnapShotTokvServer_log r, ?_⟩
  rw [installSnapShotTokvServer, readSnapShot]
  cases r.snapFile with
  | none => exact ⟨rfl, .inl rfl⟩
  | some bytes => exact ⟨rfl, .inr rfl⟩

theorem start_indices (r : Raft n) (command : Str) :
    (r.start command).1.lastIncludedIndex = r.lastIncludedIndex ∧
      (r.start command).1.lastApplied = r.lastApplied ∧
      (r.start command).1.commitIndex = r.commitIndex ∧
      r.lastIndex ≤ (r.start command).1.lastIndex := by
  rw [start]
  split
  · exact ⟨rfl, rfl, rfl, le_refl _⟩
  · refine ⟨rfl, rfl, rfl, ?_⟩
    simp only [lastIndex, pushBackLog, List.length_append]
    omega

theorem collectMsgs_isSome {count : Nat} (above : r.lastIncludedIndex ≤ r.lastApplied)
    (within : count = 0 ∨ r.lastApplied + count ≤ r.lastIndex) : (collectMsgs count r).isSome := by
  induction count generalizing r with
  | zero => rfl
  | succ count ih =>
    have read : (entryAt { r with lastApplied := r.lastApplied + 1 } (r.lastApplied + 1)).isSome := by
      refine entryAt_isSome ?_ ?_
      · exact Int.lt_add_one_of_le above
      · exact show r.lastApplied + 1 ≤ r.lastIndex by omega
    obtain ⟨e, found⟩ := Option.isSome_iff_exists.mp read
    have later : (collectMsgs count { r with lastApplied := r.lastApplied + 1 }).isSome := by
      refine ih ?_ ?_
      · exact show r.lastIncludedIndex ≤ r.lastApplied + 1 by omega
      · refine .inr ?_
        exact show r.lastApplied + 1 + count ≤ r.lastIndex by omega
    simp only [collectMsgs, found, Option.isSome_map, later]

theorem Ordered.applyLog_isSome (ordered : r.Ordered) : r.applyLog.isSome := by
  have commit := ordered.commit
  refine collectMsgs_isSome ordered.applied ?_
  omega

end Raft

open Raft

namespace Delivery

/-- The request respects the indices it meets: an `AppendEntries` that is taken reaches up to
`m_commitIndex`; a snapshot that is taken is not ahead of `m_lastApplied` and leaves the log
up to `m_commitIndex`; the kv server compacts up to `m_lastApplied` at most. -/
def RespectsIndices (s : Delivery n) : Step → Prop
  | .appendEntries k =>
    ∀ args ∈ s.appends[k]?, ∀ recvLog ∈ getCmdAndTerm args.sendLogs,
      ¬ args.term < s.node.raft.curTerm →
      (s.node.raft.enterTerm args.term).checkPrevLog args s.node.raft.curTerm = some none →
      s.node.raft.commitIndex ≤ args.prevLogIndex + recvLog.length
  | .installSnapShot k =>
    ∀ args ∈ s.installs[k]?, ¬ args.term < s.node.raft.curTerm →
      s.node.raft.lastIncludedIndex < args.lastIncludedIndex →
      args.lastIncludedIndex ≤ s.node.raft.lastApplied ∧
        (s.node.raft.commitIndex ≤ args.lastIncludedIndex ∨
          (args.lastIncludedIndex < s.node.raft.lastIndex ∧
            (s.node.raft.entryAt s.node.raft.lastIndex).map LogEntry.term =
              some args.lastIncludedTerm))
  | .recvSnapShot _ => ∀ index ∈ s.snapShotting, index ≤ s.node.raft.lastApplied
  | _ => True

instance (s : Delivery n) (a : Step) : Decidable (RespectsIndices s a) := by
  rcases a <;> (unfold RespectsIndices; infer_instance)

variable {s t : Delivery n} {a : Step}

theorem nodeStep_ordered (ordered : s.node.raft.Ordered) (respects : RespectsIndices s a)
    (next : s.nodeStep a = some t) : t.node.raft.Ordered := by
  cases a with
  | appendEntries k =>
    obtain ⟨args, inFlight, delivered⟩ := Option.bind_eq_some_iff.mp next
    obtain ⟨⟨q, o⟩, ran, rfl⟩ := Option.map_eq_some_iff.mp delivered
    cases Process.ran_of_step ran with
    | appendEntries run =>
      cases appendEntries_indices run with
      | inl same => exact same.ordered ordered
      | inr taken =>
        obtain ⟨recvLog, parsed, current, checked, base, applied, last, commit⟩ := taken
        have reaches := respects args inFlight recvLog parsed current checked
        have above := ordered.applied
        constructor
        · simp only [base, applied]
          exact above
        · cases commit with
          | inl same =>
            simp only [same, last]
            exact reaches
          | inr le => exact le
  | installSnapShot k =>
    obtain ⟨args, inFlight, delivered⟩ := Option.bind_eq_some_iff.mp next
    obtain ⟨⟨q, o⟩, ran, rfl⟩ := Option.map_eq_some_iff.mp delivered
    cases Process.ran_of_step ran with
    | installSnapShot run =>
      cases installSnapShot_indices run with
      | inl same => exact same.ordered ordered
      | inr taken =>
        obtain ⟨current, ahead, base, applied, commit, reaches, keeps⟩ := taken
        obtain ⟨low, covers⟩ := respects args inFlight current ahead
        have within := ordered.commit
        constructor
        · simp only [base, applied]
          exact low
        · simp only [commit]
          cases covers with
          | inl small => exact small.trans reaches
          | inr tail =>
            rw [keeps tail.1 tail.2]
            exact within
  | installSnapShotTokvServer =>
    rw [nodeStep] at next
    split at next
    · rename_i q msgs ran
      cases next
      cases Process.ran_of_step ran with
      | installSnapShotTokvServer waits =>
        obtain ⟨log, commit, applied⟩ := installSnapShotTokvServer_indices s.node.raft
        have above := ordered.applied
        constructor
        · simp only [log.index]
          cases applied with
          | inl same => rwa [same]
          | inr base => rw [base]
        · simp only [commit, log.lastIndex]
          exact ordered.commit
    · cases next
  | start command =>
    obtain ⟨⟨q, o⟩, ran, rfl⟩ := Option.map_eq_some_iff.mp next
    cases Process.ran_of_step ran with
    | start =>
      obtain ⟨base, applied, commit, grows⟩ := start_indices s.node.raft command
      constructor
      · simp only [base, applied]
        exact ordered.applied
      · simp only [commit]
        exact ordered.commit.trans grows
  | applyLog =>
    rw [nodeStep] at next
    split at next
    · cases next
    · split at next
      · rename_i q msgs ran
        cases next
        cases Process.ran_of_step ran with
        | applyLog run =>
          have above := ordered.applied
          have applied := collectMsgs_applied run
          constructor
          · rw [applied]
            exact show s.node.raft.lastIncludedIndex ≤ s.node.raft.lastApplied + _ by omega
          · rw [applied]
            exact ordered.commit
      · cases next
  | recvSnapShot snapShot =>
    obtain ⟨index, read, compacted⟩ := Option.bind_eq_some_iff.mp next
    obtain ⟨⟨q, o⟩, ran, rfl⟩ := Option.map_eq_some_iff.mp compacted
    cases Process.ran_of_step ran with
    | recvSnapShot run =>
      obtain ⟨applied, commit, last, base⟩ := recvSnapShot_indices run
      constructor
      · simp only [applied]
        cases base with
        | inl same =>
          rw [same]
          exact ordered.applied
        | inr moved =>
          rw [moved]
          exact respects index read
      · simp only [commit, last]
        exact ordered.commit
  | _ => cases next

theorem step_ordered (ordered : s.node.raft.Ordered) (respects : RespectsIndices s a)
    (next : s.step a = some t) : t.node.raft.Ordered := by
  rcases step_kind next with leads | sections | hands
  · rw [(leaderStep_rest leads).1]
    exact ordered
  · exact nodeStep_ordered ordered respects sections
  · rw [slotStep_node hands]
    exact ordered

/-- In a run whose requests respect the indices, the order holds in every state and
`applyLogLoop` reads inside `m_logs`. -/
theorem indices_ordered {atomic : Bool} {i : Fin n} {s : Delivery n}
    (reach : Reach (machine atomic i) RespectsIndices s) :
    s.node.raft.lastIncludedIndex ≤ s.node.raft.lastApplied ∧
      s.node.raft.commitIndex ≤ s.node.raft.lastIndex ∧ s.node.raft.applyLog.isSome := by
  have ordered : s.node.raft.Ordered := by
    refine reach.invariant (P := fun s : Delivery n => s.node.raft.Ordered) ?_ ?_
    · rintro s ⟨leader, -, -, rfl⟩
      exact ⟨le_refl 0, le_refl 0⟩
    · intro s a t ordered respects next
      exact step_ordered ordered respects next
  exact ⟨ordered.applied, ordered.commit, ordered.applyLog_isSome⟩

/-- A leader of term 1 sends one entry, then both, and commits both; the follower takes the
requests in the order of the list. -/
def overlappingRounds (deliveries : List Step) : List Step :=
  [Step.leaderStart ['a'], .sendAppendEntries 0, .leaderStart ['b'], .leaderCommit 2,
    .sendAppendEntries 0] ++ deliveries

theorem indices_ordered_sample :
    ∃ s, execWhere (machine false (1 : Fin 3)) RespectsIndices (boot false 1 ⟨1, [], 0, 0⟩)
        (overlappingRounds [.appendEntries 1, .appendEntries 0]) = some s ∧
      s.node.raft.commitIndex = 2 ∧ s.node.raft.lastIncludedIndex ≤ s.node.raft.lastApplied ∧
      s.node.raft.commitIndex ≤ s.node.raft.lastIndex ∧ s.node.raft.applyLog.isSome := by
  have run : ∃ s, execWhere (machine false (1 : Fin 3)) RespectsIndices
      (boot false 1 ⟨1, [], 0, 0⟩) (overlappingRounds [.appendEntries 1, .appendEntries 0]) =
        some s ∧ s.node.raft.commitIndex = 2 := ⟨_, rfl, by decide⟩
  obtain ⟨s, ran, commit⟩ := run
  have reach : Reach (machine false (1 : Fin 3)) RespectsIndices s :=
    Reach.execWhere (.start ⟨⟨1, [], 0, 0⟩, by decide, by decide, rfl⟩) ran
  exact ⟨s, ran, commit, indices_ordered reach⟩

theorem late_request_cuts_committed_entry :
    ¬ ∀ s : Delivery 3, Reachable (machine false 1) s →
      s.node.raft.lastIncludedIndex ≤ s.node.raft.lastApplied ∧
        s.node.raft.commitIndex ≤ s.node.raft.lastIndex := by
  intro ordered
  have run : ∃ s, exec (machine false (1 : Fin 3)) (boot false 1 ⟨1, [], 0, 0⟩)
      (overlappingRounds [.appendEntries 0, .appendEntries 0]) = some s ∧
        s.node.raft.commitIndex = 2 ∧ s.node.raft.lastIndex = 1 := ⟨_, rfl, by decide, by decide⟩
  obtain ⟨s, ran, commit, last⟩ := run
  have within := (ordered s (Reach.exec (.start ⟨⟨1, [], 0, 0⟩, by decide, by decide, rfl⟩) ran)).2
  rw [commit, last] at within
  exact absurd within (by decide)

end Delivery

end ProjectsCpp.KvRaft
