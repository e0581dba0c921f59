import ProjectsCpp.KvRaft.Votes

/-! The frame of a running node: the term never falls, and the log changes by `start`,
by `appendEntries` and by compaction only. The one section outside the frame is the
step-down on a `RequestVote` reply, which reads the file back; the file is never ahead of
the term in memory, so that section never ends in the term of the reply. -/

namespace ProjectsCpp.KvRaft
open ProjectsCpp.Text ProjectsCpp.Run

variable {n : Nat}

open Raft

/-- Term and log frame of one section, with the step-down that a `RequestVote` reply of a
higher term asks for. -/
structure Raft.Frame (r s : Raft n) (a : Action n) : Prop where
  term : r.curTerm ≤ s.curTerm
  log : LogFrame r s a
  voteReply : ∀ peer args reply, a = .voteReply peer args reply → s.logs = r.logs ∧
    (reply.term > r.curTerm → s.state = .FOLLOWER ∧ s.curTerm = reply.term)

/-! ### The file against the term in memory -/

structure FileBehind (p : Process n) : Prop where
  sound : p.raft.file.Sound
  term : ∀ saved, p.raft.file.saved = some saved → saved.curTerm ≤ p.raft.curTerm
  present : p.voteThreads ≠ [] ∨ p.voteCalls ≠ [] → p.raft.file.saved ≠ none

theorem Raft.SavedOver.behind {s : Raft n} {f : PersisterFile} (h : s.SavedOver f) :
    s.file.Sound ∧ (∀ saved, s.file.saved = some saved → saved.curTerm ≤ s.curTerm) ∧
      s.file.saved ≠ none := by
  obtain ⟨p, file, term, -⟩ := h
  rw [file]
  refine ⟨f.write_sound p, ?_, nofun⟩
  rintro saved ⟨⟩
  exact le_of_eq term

theorem Raft.BallotStep.file_behind {r s : Raft n} {support : Option (Int × Int)}
    (ballot : r.BallotStep s support) :
    s.file = r.file ∨ (s.file.Sound ∧
      (∀ saved, s.file.saved = some saved → saved.curTerm ≤ s.curTerm) ∧ s.file.saved ≠ none) := by
  cases ballot with
  | quiet _ _ file => exact file.imp_right SavedOver.behind
  | raised _ _ file => exact file.imp_right SavedOver.behind
  | cleared term vote file =>
    refine .inr ?_
    cases file with
    | inl early =>
      rw [early]
      refine ⟨r.clearVote_sound, ?_, nofun⟩
      rintro saved ⟨⟩
      exact le_of_lt term
    | inr saved => exact saved.behind
  | voted _ _ _ _ file => exact .inr file.behind

theorem Process.threads_from {p q : Process n} {a : Action n} {o : Output n}
    (next : p.step a = some (q, o)) (waits : q.voteThreads ≠ [] ∨ q.voteCalls ≠ []) :
    a = .electionStart ∨ p.voteThreads ≠ [] ∨ p.voteCalls ≠ [] := by
  cases Process.ran_of_step next with
  | electionStart idle run => exact .inl rfl
  | callRequestVote thread run => exact .inr (.inl (List.ne_nil_of_mem thread))
  | voteReply call run => exact .inr (.inr (List.ne_nil_of_mem call))
  | _ => exact .inr waits

theorem FileBehind.act {p q : Process n} {a : Action n} {o : Output n} (behind : FileBehind p)
    (next : p.step a = some (q, o)) : FileBehind q := by
  have saves : a = .electionStart → q.raft.file.saved ≠ none := by
    rintro rfl
    cases Process.ran_of_step next with
    | electionStart idle run =>
      rw [Raft.electionStart] at run
      split at run <;> cases run
      exact fun same => by cases same
  by_cases reloads : a.Reloads p.raft
  · cases Process.ran_of_step next with
    | voteReply call run =>
      obtain ⟨file, restored⟩ := Raft.voteReply_reload behind.sound reloads run
      have there := behind.present (.inr (List.ne_nil_of_mem call))
      refine ⟨file ▸ behind.sound, ?_, fun _ => file ▸ there⟩
      intro saved found
      cases restored with
      | inl none => exact absurd none there
      | inr restored =>
        obtain ⟨record, found', term, -⟩ := restored
        rw [show _ = p.raft.file from file, found'] at found
        cases found
        exact le_of_eq term.symm
    | _ => exact reloads.elim
  · have ballot := Process.step_ballot reloads next
    cases ballot.file_behind with
    | inl same =>
      refine ⟨same ▸ behind.sound, ?_, ?_⟩
      · intro saved found
        exact (behind.term saved (same ▸ found)).trans ballot.term
      · intro waits
        cases Process.threads_from next waits with
        | inl starts => exact saves starts
        | inr waited => exact same ▸ behind.present waited
    | inr written => exact ⟨written.1, written.2.1, fun _ => written.2.2⟩

theorem FileBehind.disk {p : Process n} (behind : FileBehind p) {during : Option (Action n)}
    {disk : PersisterFile × Option Str} (left : disk ∈ p.raft.disks during) : disk.1.Sound := by
  rcases Raft.mem_disks left with same | ⟨term, -, early⟩ | ⟨s, ballot, -, file⟩
  · exact same ▸ behind.sound
  · exact early ▸ p.raft.clearVote_sound
  · cases ballot.file_behind with
    | inl same =>
      rw [file, same]
      exact behind.sound
    | inr written =>
      rw [file]
      exact written.1

theorem FileBehind.make {i : Fin n} {file : PersisterFile} {snap : Option Str} {r : Raft n}
    (sound : file.Sound) (made : Raft.make i file snap = some r) :
    FileBehind (Process.ofRaft r) := by
  obtain ⟨base, read, term, -, -, -, -, sameFile⟩ := Raft.make_read made
  have whole : (Raft.fresh i file snap).file.Sound := sound
  obtain ⟨kept, restored⟩ := whole.readRaftState read
  rw [← sameFile] at kept
  refine ⟨?_, ?_, ?_⟩
  · exact kept ▸ whole
  · intro saved found
    rw [show (Process.ofRaft r).raft = r from rfl, kept] at found
    rcases restored with ⟨-, none, -⟩ | ⟨record, found', sameTerm, -⟩
    · rw [none] at found
      cases found
    · rw [found'] at found
      cases found
      exact le_of_eq (sameTerm.symm.trans term.symm)
  · intro waits
    cases waits with
    | inl threads => exact absurd rfl threads
    | inr calls => exact absurd rfl calls

theorem Life.fileBehind {atomic : Bool} {i : Fin n} {s : Life n}
    (reach : Reachable (Life.machine atomic i) s) : FileBehind s.process := by
  refine reach.invariant (P := fun s : Life n => FileBehind s.process) ?_ ?_
  · rintro s rfl
    refine ⟨noFile_sound atomic, nofun, fun waits => ?_⟩
    cases waits with
    | inl threads => exact absurd rfl threads
    | inr calls => exact absurd rfl calls
  · intro s e t behind _ next
    rcases Life.step_cases next with ⟨a, q, o, rfl, run, rfl⟩ |
      ⟨during, point, disk, r, rfl, left, made, rfl⟩
    · exact behind.act run
    · exact FileBehind.make (behind.disk (List.mem_of_getElem? left)) made

def askForVotes : List (Event 3) :=
  [.act (.appendEntries ⟨1, 1, 0, 0, 0, ['g', ',', '1', ';']⟩), .act .electionStart,
    .act (.callRequestVote 2)]

end ProjectsCpp.KvRaft
