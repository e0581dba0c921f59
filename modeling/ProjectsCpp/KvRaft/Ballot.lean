import ProjectsCpp.KvRaft.Process

/-! The term, the vote and the persister file across one critical section.
A section that does not reload the file keeps the vote, clears it while it raises the
term, or gives it; the header of the file always decodes to the record last saved. -/

namespace ProjectsCpp.KvRaft
open ProjectsCpp.Text

variable {n : Nat}

/-! ### The file -/

def PersisterFile.Sound (f : PersisterFile) : Prop :=
  (f.bytes = none ∧ f.saved = none) ∨
    ∃ p tail, f.bytes = some (p.serialize ++ tail) ∧ f.saved = some p

theorem noFile_sound (atomic : Bool) : (Raft.noFile atomic).Sound := .inl ⟨rfl, rfl⟩

theorem PersisterFile.write_sound (f : PersisterFile) (p : Persister) : (f.write p).Sound := by
  refine .inr ⟨p, if f.atomic then [] else (f.bytes.getD []).drop p.serialize.length, ?_, rfl⟩
  cases h : f.atomic <;> simp [write, h]

private theorem decimal_word (sep : Char) (digit : sep.isDigit = false) (dash : sep ≠ '-')
    (z : Int) :
    decimal z ≠ [] ∧ sep ∉ decimal z := ⟨decimal_ne_nil z, notMem_decimal z digit dash⟩

/-- The text after the header, up to the first NUL byte. -/
def Persister.body (p : Persister) (tail : Str) : Str :=
  (ended '.' (p.logs.map LogEntry.text) ++ tail).takeWhile (· ≠ '\x00')

private theorem header_words (p : Persister) :
    ∀ w ∈ [decimal p.curTerm, decimal p.votedFor, decimal p.lastIncludedIndex,
      decimal p.lastIncludedTerm], w ≠ [] ∧ ';' ∉ w := by
  intro w hw
  simp only [List.mem_cons, List.not_mem_nil, or_false] at hw
  rcases hw with rfl | rfl | rfl | rfl <;> exact decimal_word ';' (by decide) (by decide) _

theorem Persister.content (p : Persister) (tail : Str) :
    (p.serialize ++ tail).takeWhile (· ≠ '\x00') =
      ended ';' [decimal p.curTerm, decimal p.votedFor, decimal p.lastIncludedIndex,
        decimal p.lastIncludedTerm] ++ p.body tail := by
  have clean : ∀ c ∈ ended ';' [decimal p.curTerm, decimal p.votedFor,
      decimal p.lastIncludedIndex, decimal p.lastIncludedTerm], decide (c ≠ '\x00') = true := by
    intro c hc
    have number : ∀ z : Int, '\x00' ∉ decimal z := fun z =>
      notMem_decimal z (by decide) (by decide)
    rw [decide_eq_true_iff]
    rintro rfl
    simp [number] at hc
  rw [serialize, List.append_assoc, List.takeWhile_append_of_pos clean]
  rfl

theorem deserialize_serialize (p : Persister) (tail snapShot : Str) :
    deserialize (p.serialize ++ tail) snapShot =
      ((pieces '.' (firstPiece ';' (p.body tail))).mapM entryOf).map fun logs =>
        ⟨logs, snapShot, p.curTerm, p.votedFor, p.lastIncludedIndex, p.lastIncludedTerm⟩ := by
  simp only [deserialize, p.content tail, firstPiece]
  rw [pieces_ended _ (header_words p), rest_ended _ fun w hw => (header_words p w hw).2]
  cases pieces ';' (p.body tail) with
  | nil => simp
  | cons log more => simp

theorem PersisterFile.Sound.readRaftState {r s : Raft n} (sound : r.file.Sound)
    (read : r.readRaftState = some s) :
    s.file = r.file ∧
      ((r.file.bytes = none ∧ r.file.saved = none ∧ s = r) ∨
        ∃ p, r.file.saved = some p ∧ s.curTerm = p.curTerm ∧ s.votedFor = p.votedFor) := by
  rw [Raft.readRaftState] at read
  rcases sound with ⟨absent, none⟩ | ⟨p, tail, present, saved⟩
  · simp only [absent, Option.some.injEq] at read
    exact ⟨by rw [read], .inl ⟨absent, none, read.symm⟩⟩
  · simp only [present, deserialize_serialize, Option.map_map, Option.map_eq_some_iff] at read
    obtain ⟨logs, -, rfl⟩ := read
    exact ⟨rfl, .inr ⟨p, saved, rfl, rfl⟩⟩

/-! ### The ballot of one section -/

namespace Raft

/-- The file is `f` overwritten with the state at hand. -/
def SavedOver (s : Raft n) (f : PersisterFile) : Prop :=
  ∃ p, s.file = f.write p ∧ p.curTerm = s.curTerm ∧ p.votedFor = s.votedFor ∧ p.logs = s.logs

theorem clearVote_sound (r : Raft n) : r.clearVote.file.Sound := by
  have sound := r.file.write_sound { r with votedFor := -1 }.saveRaftState.persister
  exact sound

theorem saveRaftState_savedOver (r : Raft n) : r.saveRaftState.SavedOver r.file :=
  ⟨_, rfl, rfl, rfl, rfl⟩

/-- What a section that does not reload the file does to term, vote and file; the index is
the support it gives. -/
inductive BallotStep (r s : Raft n) : Option (Int × Int) → Prop
  | quiet (term : s.curTerm = r.curTerm) (vote : s.votedFor = r.votedFor)
      (file : s.file = r.file ∨ s.SavedOver r.file) : BallotStep r s none
  | raised (term : r.curTerm < s.curTerm) (vote : s.votedFor = -1)
      (file : s.file = r.file ∨ s.SavedOver r.file) : BallotStep r s none
  | cleared (term : r.curTerm < s.curTerm) (vote : s.votedFor = -1)
      (file : s.file = r.clearVote.file ∨ s.SavedOver r.clearVote.file) : BallotStep r s none
  | voted (candidate : Int) (term : r.curTerm ≤ s.curTerm)
      (free : r.curTerm = s.curTerm → r.votedFor = -1 ∨ r.votedFor = candidate)
      (vote : s.votedFor = candidate) (file : s.SavedOver r.file) :
      BallotStep r s (some (s.curTerm, candidate))

variable {r s : Raft n}

theorem BallotStep.term {support : Option (Int × Int)} (h : BallotStep r s support) :
    r.curTerm ≤ s.curTerm := by
  cases h <;> omega

theorem BallotStep.saved_from {support : Option (Int × Int)} (ballot : BallotStep r s support)
    {T : Int} (reached : T ≤ r.curTerm)
    (saved : ∀ record, r.file.saved = some record → T ≤ record.curTerm) :
    ∀ record, s.file.saved = some record → T ≤ record.curTerm := by
  have reached' := reached.trans ballot.term
  intro record found
  have written : ∀ f, s.SavedOver f → T ≤ record.curTerm := by
    rintro f ⟨recent, file, term, -⟩
    rw [file] at found
    cases found
    rwa [term]
  cases ballot with
  | quiet _ _ file | raised _ _ file =>
    cases file with
    | inl same => exact saved record (same ▸ found)
    | inr fresh => exact written _ fresh
  | cleared _ _ file =>
    cases file with
    | inl early =>
      rw [early] at found
      cases found
      exact reached
    | inr fresh => exact written _ fresh
  | voted _ _ _ _ file => exact written _ file

theorem electionStart_ballot (run : r.electionStart = some s) :
    BallotStep r s (some (s.curTerm, s.id)) := by
  rw [electionStart] at run
  split at run
  · cases run
  · cases run
    refine .voted r.id ?_ ?_ rfl ⟨_, rfl, rfl, rfl, rfl⟩ <;> simp only [saveRaftState] <;> omega

theorem electionWake_ballot (run : r.electionWake = some s) : BallotStep r s none := by
  rw [electionWake] at run
  split at run
  · cases run
  · split at run
    · cases run
      exact .quiet rfl rfl (.inl rfl)
    · split at run <;> cases run <;> exact .quiet rfl rfl (.inl rfl)

theorem callRequestVote_ballot {peer : Fin n} {args : RequestVoteArgs}
    (run : r.callRequestVote = some (s, peer, args)) : BallotStep r s none := by
  simp only [callRequestVote] at run
  split at run <;> cases run
  exact .quiet rfl rfl (.inl rfl)

theorem voteReply_ballot {reply : RequestVoteReply} (low : ¬ reply.term > r.curTerm)
    (run : r.voteReply reply = some s) : BallotStep r s none := by
  simp only [voteReply, if_neg low] at run
  split at run <;> cases run <;> exact .quiet rfl rfl (.inl rfl)

theorem voteReply_reload {reply : RequestVoteReply} (sound : r.file.Sound)
    (higher : reply.term > r.curTerm) (run : r.voteReply reply = some s) :
    s.file = r.file ∧
      (r.file.saved = none ∨
        ∃ p, r.file.saved = some p ∧ s.curTerm = p.curTerm ∧ s.votedFor = p.votedFor) := by
  simp only [voteReply, if_pos higher] at run
  have whole : PersisterFile.Sound { r with
      finishedVote := r.finishedVote + 1
      state := .FOLLOWER, curTerm := reply.term, votedFor := -1 }.file := sound
  have restored := whole.readRaftState run
  exact ⟨restored.1, restored.2.imp (fun none => none.2.1) (fun found => found)⟩

theorem requestVote_ballot (r : Raft n) (args : RequestVoteArgs) :
    BallotStep r (r.requestVote args).1
      (if (r.requestVote args).2.voteGranted then some (args.term, args.candidateId) else none) := by
  rw [requestVote]
  by_cases old : r.curTerm > args.term
  · rw [if_pos old]
    exact .quiet rfl rfl (.inl rfl)
  rw [if_neg old]
  by_cases higher : r.curTerm < args.term
  · -- the vote is free after the step-down
    simp only [stepDown, if_pos higher, true_or, if_true]
    split
    · exact .voted args.candidateId (by simp [saveRaftState]; omega)
        (by simp [saveRaftState]; omega) rfl ⟨_, rfl, rfl, rfl, rfl⟩
    · exact .raised higher rfl (.inl rfl)
  · have same : r.curTerm = args.term := by omega
    simp only [stepDown, if_neg higher]
    by_cases free : r.votedFor = -1 ∨ r.votedFor = args.candidateId
    · rw [if_pos free]
      split
      · simp only [if_true, ← same]
        exact .voted args.candidateId (by simp [saveRaftState]) (fun _ => free) rfl
          ⟨_, rfl, rfl, rfl, rfl⟩
      · exact .quiet rfl rfl (.inl rfl)
    · rw [if_neg free]
      exact .quiet rfl rfl (.inr r.saveRaftState_savedOver)

theorem processEntries_ballot {k l : Nat} (run : r.processEntries = some (s, k, l)) :
    BallotStep r s none := by
  simp only [processEntries] at run
  split at run <;> cases run
  exact .quiet rfl rfl (.inl rfl)

theorem takePeer_flags {install : Bool} {peer : Fin n} (run : r.takePeer install = some (peer, s)) :
    ∃ flags exist, s = { r with isInstallFlag := flags, isExistIndex := exist } := by
  obtain ⟨p, -, hp⟩ := Option.map_eq_some_iff.mp run
  cases hp
  split
  · exact ⟨_, _, rfl⟩
  · exact ⟨r.isInstallFlag, _, rfl⟩

theorem sendAppendEntries_ballot {peer : Fin n} {args : AppendEntriesArgs}
    (run : r.sendAppendEntries = some (s, peer, args)) : BallotStep r s none := by
  rw [sendAppendEntries] at run
  split at run
  · cases run
  · rename_i taken
    obtain ⟨flags, exist, rfl⟩ := takePeer_flags taken
    obtain ⟨t, -, ht⟩ := Option.map_eq_some_iff.mp run
    cases ht
    exact .quiet rfl rfl (.inl rfl)

theorem overwriteLog_savedOver (r : Raft n) (args : AppendEntriesArgs) (recvLog : List LogEntry) :
    (r.overwriteLog args recvLog).SavedOver r.file ∧
      (r.overwriteLog args recvLog).curTerm = r.curTerm ∧
      (r.overwriteLog args recvLog).votedFor = r.votedFor := by
  simp only [overwriteLog]
  split <;> exact ⟨⟨_, rfl, rfl, rfl, rfl⟩, rfl, rfl⟩

theorem enterTerm_ballot {term : Int} (current : ¬ term < r.curTerm) (s : Raft n)
    (sameTerm : s.curTerm = (r.enterTerm term).curTerm)
    (sameVote : s.votedFor = (r.enterTerm term).votedFor)
    (file : s.file = (r.enterTerm term).file ∨ s.SavedOver (r.enterTerm term).file) :
    BallotStep r s none := by
  by_cases higher : term > r.curTerm
  · simp only [enterTerm, if_pos higher] at sameTerm sameVote file
    refine .cleared (by omega) ?_ file
    rw [sameVote]
    rfl
  · simp only [enterTerm, if_neg higher] at sameTerm sameVote file
    exact .quiet (by omega) sameVote file

theorem appendEntries_ballot {args : AppendEntriesArgs} {reply : AppendEntriesReply}
    (run : r.appendEntries args = some (s, reply)) : BallotStep r s none := by
  rw [appendEntries] at run
  split at run
  · cases run
  · rename_i recvLog _
    by_cases old : args.term < r.curTerm
    · simp only [if_pos old] at run
      cases run
      exact .quiet rfl rfl (.inl rfl)
    · simp only [if_neg old] at run
      obtain ⟨answer, -, done⟩ := Option.map_eq_some_iff.mp run
      cases answer with
      | some refused =>
        cases done
        exact enterTerm_ballot old _ rfl rfl (.inl rfl)
      | none =>
        cases done
        have saved := overwriteLog_savedOver (r.enterTerm args.term) args recvLog
        exact enterTerm_ballot old _ saved.2.1 saved.2.2 (.inr saved.1)

theorem advanceCommit_commit (run : r.advanceCommit = some s) :
    ∃ index, s = { r with commitIndex := index } := by
  simp only [advanceCommit] at run
  split at run
  · split at run
    · cases run
      exact ⟨_, rfl⟩
    · obtain ⟨e, -, he⟩ := Option.map_eq_some_iff.mp run
      cases he
      split
      · exact ⟨_, rfl⟩
      · exact ⟨r.commitIndex, rfl⟩
  · cases run
    exact ⟨r.commitIndex, rfl⟩

theorem backOff_nextIndex {peer : Fin n} {args : AppendEntriesArgs} {reply : AppendEntriesReply}
    (run : r.backOff peer args reply = some s) : ∃ next, s = { r with nextIndex := next } := by
  rw [backOff] at run
  split at run
  · obtain ⟨index, -, hs⟩ := Option.map_eq_some_iff.mp run
    cases hs
    split <;> exact ⟨_, rfl⟩
  · split at run <;> cases run
    · exact ⟨r.nextIndex, rfl⟩
    · exact ⟨_, rfl⟩

/-- What an answer to a leader's request does: nothing, the step down to a higher term, or a
move of the leader's indices, which `sendAppendEntries` saves. -/
inductive Answered (r : Raft n) (term : Int) : Raft n → Prop
  | late : Answered r term r
  | higher (newer : r.curTerm < term) : Answered r term
      { r with state := .FOLLOWER, curTerm := term, votedFor := -1 }.saveRaftState
  | moved (next found : Fin n → Int) (commit : Int) : Answered r term
      { r with nextIndex := next, matchIndex := found, commitIndex := commit }
  | saved (next found : Fin n → Int) (commit : Int) : Answered r term
      { r with nextIndex := next, matchIndex := found, commitIndex := commit }.saveRaftState

theorem appendReply_answered {peer : Fin n} {args : AppendEntriesArgs} {reply : AppendEntriesReply}
    (run : r.appendReply peer args reply = some s) : Answered r reply.term s := by
  rw [appendReply] at run
  split at run
  · cases run
    exact .late
  · split at run
    · rename_i higher
      cases run
      exact .higher higher
    · split at run
      · split at run
        · cases run
        · obtain ⟨t, commit, rfl⟩ := Option.map_eq_some_iff.mp run
          obtain ⟨index, rfl⟩ := advanceCommit_commit commit
          simp only [setMatchIndex, setNextIndex]
          exact .saved _ _ index
      · obtain ⟨t, back, rfl⟩ := Option.map_eq_some_iff.mp run
        obtain ⟨next, rfl⟩ := backOff_nextIndex back
        exact .saved next _ _

theorem installReply_answered {peer : Fin n} {args : InstallSnapShotArgs}
    {reply : InstallSnapSHotReply} (run : r.installReply peer args reply = some s) :
    Answered r reply.term s := by
  rw [installReply] at run
  split at run
  · cases run
    exact .late
  · split at run
    · rename_i higher
      cases run
      exact .higher higher
    · obtain ⟨index, rfl⟩ := advanceCommit_commit run
      simp only [setMatchIndex, setNextIndex]
      exact .moved _ _ index

theorem Answered.ballot {term : Int} (answered : Answered r term s) : BallotStep r s none := by
  cases answered with
  | late => exact .quiet rfl rfl (.inl rfl)
  | higher newer => exact .raised newer rfl (.inr (saveRaftState_savedOver _))
  | moved next found commit => exact .quiet rfl rfl (.inl rfl)
  | saved next found commit => exact .quiet rfl rfl (.inr (saveRaftState_savedOver _))

theorem appendReply_ballot {peer : Fin n} {args : AppendEntriesArgs} {reply : AppendEntriesReply}
    (run : r.appendReply peer args reply = some s) : BallotStep r s none :=
  (appendReply_answered run).ballot

theorem start_ballot (r : Raft n) (command : Str) : BallotStep r (r.start command).1 none := by
  rw [start]
  split <;> exact .quiet rfl rfl (.inl rfl)

theorem sendInstallSnapShot_ballot {peer : Fin n} {args : InstallSnapShotArgs}
    (run : r.sendInstallSnapShot = some (s, peer, args)) : BallotStep r s none := by
  obtain ⟨⟨p, t⟩, taken, done⟩ := Option.map_eq_some_iff.mp run
  obtain ⟨flags, exist, rfl⟩ := takePeer_flags taken
  cases done
  rw [readSnapShot]
  cases r.snapFile <;> exact .quiet rfl rfl (.inl rfl)

theorem installReply_ballot {peer : Fin n} {args : InstallSnapShotArgs}
    {reply : InstallSnapSHotReply} (run : r.installReply peer args reply = some s) :
    BallotStep r s none :=
  (installReply_answered run).ballot

theorem installSnapShot_ballot {args : InstallSnapShotArgs} {reply : InstallSnapSHotReply}
    {push : Bool} (run : r.installSnapShot args = some (s, reply, push)) :
    BallotStep r s none := by
  rw [installSnapShot] at run
  by_cases old : args.term < r.curTerm
  · simp only [if_pos old] at run
    cases run
    exact .quiet rfl rfl (.inl rfl)
  · simp only [if_neg old] at run
    split at run
    · cases run
      exact enterTerm_ballot old _ rfl rfl (.inl rfl)
    · obtain ⟨logs, -, done⟩ := Option.map_eq_some_iff.mp run
      cases done
      exact enterTerm_ballot old _ rfl rfl (.inr ⟨_, rfl, rfl, rfl, rfl⟩)

theorem installSnapShotTokvServer_ballot (r : Raft n) :
    BallotStep r r.installSnapShotTokvServer.1 none := by
  rw [installSnapShotTokvServer, readSnapShot]
  cases r.snapFile <;> exact .quiet rfl rfl (.inl rfl)

theorem recvSnapShot_ballot {snapShot : Str} {index : Int}
    (run : r.recvSnapShot snapShot index = some s) : BallotStep r s none := by
  rw [recvSnapShot] at run
  split at run
  · cases run
    exact .quiet rfl rfl (.inl rfl)
  · obtain ⟨e, -, rfl⟩ := Option.map_eq_some_iff.mp run
    exact .quiet rfl rfl (.inr ⟨_, rfl, rfl, rfl, rfl⟩)

theorem collectMsgs_applied {count : Nat} {msgs : List ApplyMsg}
    (run : collectMsgs count r = some (s, msgs)) :
    s = { r with lastApplied := r.lastApplied + count } := by
  induction count generalizing r msgs with
  | zero =>
    cases run
    simp
  | succ count ih =>
    simp only [collectMsgs] at run
    split at run
    · cases run
    · obtain ⟨⟨t, more⟩, later, done⟩ := Option.map_eq_some_iff.mp run
      cases done
      rw [ih later]
      simp only [Raft.mk.injEq, true_and, and_true]
      omega

theorem applyLog_ballot {msgs : List ApplyMsg} (run : r.applyLog = some (s, msgs)) :
    BallotStep r s none := by
  rw [collectMsgs_applied run]
  exact .quiet rfl rfl (.inl rfl)

end Raft

/-! ### Any section -/

/-- A `RequestVote` reply of a higher term, the one section that reads the file again. -/
def Action.Reloads (r : Raft n) : Action n → Prop
  | .voteReply _ _ reply => reply.term > r.curTerm
  | _ => False

def supportOf (a : Action n) (o : Output n) (after : Raft n) : Option (Int × Int) :=
  match a, o with
  | .electionStart, _ => some (after.curTerm, after.id)
  | .requestVote args, .voteAnswer reply =>
    if reply.voteGranted then some (args.term, args.candidateId) else none
  | _, _ => none

theorem Process.step_ballot {p q : Process n} {a : Action n} {o : Output n}
    (keeps : ¬ a.Reloads p.raft) (next : p.step a = some (q, o)) :
    Raft.BallotStep p.raft q.raft (supportOf a o q.raft) := by
  cases Process.ran_of_step next with
  | electionStart idle run => exact Raft.electionStart_ballot run
  | electionWake waits run => exact Raft.electionWake_ballot run
  | callRequestVote thread run => exact Raft.callRequestVote_ballot run
  | requestVote => exact Raft.requestVote_ballot _ _
  | voteReply call run => exact Raft.voteReply_ballot keeps run
  | processEntries run => exact Raft.processEntries_ballot run
  | sendAppendEntries thread run => exact Raft.sendAppendEntries_ballot run
  | appendEntries run => exact Raft.appendEntries_ballot run
  | appendReply call run => exact Raft.appendReply_ballot run
  | sendInstallSnapShot thread run => exact Raft.sendInstallSnapShot_ballot run
  | installSnapShot run => exact Raft.installSnapShot_ballot run
  | installReply call run => exact Raft.installReply_ballot run
  | installSnapShotTokvServer waits => exact Raft.installSnapShotTokvServer_ballot _
  | start => exact Raft.start_ballot _ _
  | applyLog run => exact Raft.applyLog_ballot run
  | recvSnapShot run => exact Raft.recvSnapShot_ballot run

end ProjectsCpp.KvRaft
