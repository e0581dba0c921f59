import ProjectsCpp.KvRaft.Frame

/-! What a restart restores. The file is overwritten in place, so the text of the last
save is followed by what an earlier, longer text has left there, and the parser reads on
into it; the index and the term of the snapshot are saved but never read back. -/

namespace ProjectsCpp.KvRaft
open ProjectsCpp.Text ProjectsCpp.Run

variable {n : Nat}

/-! ### Clean commands in memory and on disk -/

def CleanLogs (logs : List LogEntry) : Prop := ∀ e ∈ logs, Clean e.command

theorem cleanLogs_parsed {text : Str} {logs : List LogEntry} (semicolon : ';' ∉ text)
    (read : (pieces '.' text).mapM entryOf = some logs) : CleanLogs logs := by
  intro e member
  obtain ⟨piece, inside, parsed⟩ := mem_of_mapM read member
  obtain ⟨⟨command, term⟩, cut, rfl⟩ := Option.map_eq_some_iff.mp parsed
  obtain ⟨text_piece, comma⟩ := eq_of_cutAt cut
  have within : command ⊆ piece := by
    rw [text_piece]
    exact List.subset_append_left _ _
  exact ⟨comma, fun h => semicolon (pieces_subset inside (within h)),
    fun h => (mem_pieces inside).2 (within h)⟩

structure CleanNode (r : Raft n) : Prop where
  memory : CleanLogs r.logs
  sound : r.file.Sound
  disk : ∀ p, r.file.saved = some p → CleanLogs p.logs

def Action.CleanCommands : Action n → Prop
  | .start command => Clean command
  | .appendEntries args => ∀ logs ∈ getCmdAndTerm args.sendLogs, CleanLogs logs
  | _ => True

def Event.CleanCommands (_ : Life n) : Event n → Prop
  | .act a => a.CleanCommands
  | .restart _ _ => True

variable {r s : Raft n}

theorem Raft.Compacted.cleanLogs (compacted : Raft.Compacted r s) (clean : CleanLogs r.logs) :
    CleanLogs s.logs := by
  intro e member
  obtain ⟨k, there⟩ := List.mem_iff_getElem?.mp member
  have found : s.entryAt (s.lastIncludedIndex + 1 + k) = some e := by
    rw [Raft.entryAt_eq, if_neg (by omega), ← there]
    congr 1
    omega
  have kept := compacted _ _ found
  rw [Raft.entryAt_eq] at kept
  split at kept
  · cases kept
  · exact clean e (List.mem_of_getElem? kept)

theorem appendEntries_cleanLogs {args : AppendEntriesArgs} {reply : AppendEntriesReply}
    (clean : CleanLogs r.logs)
    (arrived : ∀ logs ∈ getCmdAndTerm args.sendLogs, CleanLogs logs)
    (run : r.appendEntries args = some (s, reply)) : CleanLogs s.logs := by
  rw [Raft.appendEntries] at run
  split at run
  · cases run
  · rename_i recvLog parsed
    split at run
    · cases run
      exact clean
    · obtain ⟨answer, -, done⟩ := Option.map_eq_some_iff.mp run
      have entered := Raft.enterTerm_log r args.term
      cases answer with
      | some refused =>
        cases done
        rw [entered.logs]
        exact clean
      | none =>
        cases done
        have logs : ((r.enterTerm args.term).overwriteLog args recvLog).logs =
            Raft.popBack ((r.enterTerm args.term).lastIndex - args.prevLogIndex).toNat
              (r.enterTerm args.term).logs ++ recvLog := by
          simp only [Raft.overwriteLog]
          split <;> rfl
        intro e member
        rw [logs, entered.logs, Raft.popBack_eq_take, List.mem_append] at member
        cases member with
        | inl old => exact clean e (List.mem_of_mem_take old)
        | inr new => exact arrived recvLog parsed e new

theorem readRaftState_cleanLogs (read : r.readRaftState = some s) (sound : r.file.Sound)
    (clean : CleanLogs r.logs) : CleanLogs s.logs := by
  rw [Raft.readRaftState] at read
  rcases sound with ⟨absent, -⟩ | ⟨p, tail, present, -⟩
  · simp only [absent, Option.some.injEq] at read
    exact read ▸ clean
  · simp only [present, deserialize_serialize, Option.map_map, Option.map_eq_some_iff] at read
    obtain ⟨logs, parsed, rfl⟩ := read
    intro e member
    cases List.mem_append.mp member with
    | inl old => exact clean e old
    | inr new => exact cleanLogs_parsed notMem_firstPiece parsed e new

theorem CleanNode.ballot {support : Option (Int × Int)} (clean : CleanNode r)
    (logs : CleanLogs s.logs) (ballot : r.BallotStep s support) : CleanNode s := by
  have written : ∀ f, s.SavedOver f → ∀ p, s.file.saved = some p → CleanLogs p.logs := by
    rintro f ⟨record, file, -, -, same⟩ p saved
    rw [file] at saved
    cases saved
    rwa [same]
  refine ⟨logs, ?_, ?_⟩
  · cases ballot.file_behind with
    | inl same => exact same ▸ clean.sound
    | inr written => exact written.1
  · cases ballot with
    | quiet _ _ file =>
      cases file with
      | inl same => exact same ▸ clean.disk
      | inr saved => exact written _ saved
    | raised _ _ file =>
      cases file with
      | inl same => exact same ▸ clean.disk
      | inr saved => exact written _ saved
    | cleared _ _ file =>
      cases file with
      | inl early =>
        rw [early]
        rintro p ⟨⟩
        exact clean.memory
      | inr saved => exact written _ saved
    | voted _ _ _ _ file => exact written _ file

theorem CleanNode.act {p q : Process n} {a : Action n} {o : Output n} (clean : CleanNode p.raft)
    (arrived : a.CleanCommands) (next : p.step a = some (q, o)) : CleanNode q.raft := by
  by_cases reloads : a.Reloads p.raft
  · cases Process.ran_of_step next with
    | voteReply call run =>
      have file := (Raft.voteReply_reload clean.sound reloads run).1
      simp only [Raft.voteReply] at run
      rw [if_pos (show _ > _ from reloads)] at run
      exact ⟨readRaftState_cleanLogs run clean.sound clean.memory, file ▸ clean.sound,
        file ▸ clean.disk⟩
    | _ => exact reloads.elim
  · refine clean.ballot ?_ (Process.step_ballot reloads next)
    have log := Process.step_log reloads next
    cases Process.ran_of_step next with
    | appendEntries run => exact appendEntries_cleanLogs clean.memory arrived run
    | installSnapShot run => exact log.cleanLogs clean.memory
    | recvSnapShot run => exact log.cleanLogs clean.memory
    | @start command =>
      intro e member
      rw [log.2.2] at member
      split at member
      · cases List.mem_append.mp member with
        | inl old => exact clean.memory e old
        | inr new =>
          rw [List.mem_singleton.mp new]
          exact arrived
      · exact clean.memory e member
    | _ =>
      rw [log.logs]
      exact clean.memory

theorem CleanNode.disks (clean : CleanNode r) {during : Option (Action n)}
    {disk : PersisterFile × Option Str} (left : disk ∈ r.disks during) :
    disk.1.Sound ∧ ∀ p, disk.1.saved = some p → CleanLogs p.logs := by
  rcases Raft.mem_disks left with same | ⟨term, -, early⟩ | ⟨s, ballot, compacted, file⟩
  · exact same ▸ ⟨clean.sound, clean.disk⟩
  · rw [early]
    refine ⟨r.clearVote_sound, ?_⟩
    rintro p ⟨⟩
    exact clean.memory
  · have after := clean.ballot (compacted.cleanLogs clean.memory) ballot
    exact file ▸ ⟨after.sound, after.disk⟩

theorem Life.cleanNode {atomic : Bool} {i : Fin n} {s : Life n}
    (reach : Reach (Life.machine atomic i) Event.CleanCommands s) : CleanNode s.process.raft := by
  refine reach.invariant (P := fun s : Life n => CleanNode s.process.raft) ?_ ?_
  · rintro s rfl
    exact ⟨nofun, noFile_sound atomic, nofun⟩
  · intro s e t clean arrived next
    rcases Life.step_cases next with ⟨a, q, o, rfl, run, rfl⟩ |
      ⟨during, point, disk, r, rfl, left, made, rfl⟩
    · exact clean.act arrived run
    · obtain ⟨sound, saved⟩ := clean.disks (List.mem_of_getElem? left)
      obtain ⟨base, read, -, -, logs, -, -, file⟩ := Raft.make_read made
      have whole : (Raft.fresh s.process.raft.peerId disk.1 disk.2).file.Sound := sound
      have same := (whole.readRaftState read).1
      have memory := readRaftState_cleanLogs read whole nofun
      refine ⟨?_, ?_, ?_⟩
      · rwa [← logs] at memory
      · rw [show (Process.ofRaft r).raft = r from rfl, file, same]
        exact sound
      · rw [show (Process.ofRaft r).raft = r from rfl, file, same]
        exact saved

/-! ### The restart -/

def PersisterFile.oldTail (f : PersisterFile) (p : Persister) : Str :=
  (f.bytes.getD []).drop p.serialize.length

/-- What the parser still takes as log text of an old tail: up to the first `;`, or with an
empty saved log the first field. -/
def staleText (logs : List LogEntry) (tail : Str) : Str :=
  if logs = [] then firstPiece ';' (tail.takeWhile (· ≠ '\x00'))
  else (tail.takeWhile (· ≠ '\x00')).takeWhile (· ≠ ';')

/-- The restored node has the term, the vote, the snapshot position and the log of `p`. -/
structure Raft.Restores (r : Raft n) (p : Persister) : Prop where
  curTerm : r.curTerm = p.curTerm
  votedFor : r.votedFor = p.votedFor
  logs : r.logs = p.logs
  lastIncludedIndex : r.lastIncludedIndex = p.lastIncludedIndex
  lastIncludedTerm : r.lastIncludedTerm = p.lastIncludedTerm

theorem Raft.Restores.same_log {p : Persister} {b : Raft n} (restored : r.Restores p)
    (saved : b.Restores p) :
    r.lastIndex = b.lastIndex ∧ r.lastTerm = b.lastTerm ∧ ∀ i, r.entryAt i = b.entryAt i := by
  have logs : r.logs = b.logs := restored.logs.trans saved.logs.symm
  have index := restored.lastIncludedIndex.trans saved.lastIncludedIndex.symm
  have term := restored.lastIncludedTerm.trans saved.lastIncludedTerm.symm
  refine ⟨?_, ?_, fun i => ?_⟩
  · rw [Raft.lastIndex, Raft.lastIndex, logs, index]
  · rw [Raft.lastTerm, Raft.lastTerm, logs, term]
  · rw [Raft.entryAt_eq, Raft.entryAt_eq, logs, index]

variable {p : Persister}

theorem texts_words (clean : CleanLogs p.logs) :
    ∀ w ∈ p.logs.map LogEntry.text, w ≠ [] ∧ '.' ∉ w := by
  intro w hw
  obtain ⟨e, he, rfl⟩ := List.mem_map.mp hw
  exact ⟨e.text_ne_nil, e.notMem_text (clean e he).2.2 (by decide) (by decide) (by decide)⟩

theorem notMem_ended_texts {c : Char} {logs : List LogEntry} (commands : ∀ e ∈ logs, c ∉ e.command)
    (dot : c ≠ '.') (comma : c ≠ ',') (digit : c.isDigit = false) (dash : c ≠ '-') :
    c ∉ ended '.' (logs.map LogEntry.text) := by
  induction logs with
  | nil => simp
  | cons e logs ih =>
    have first := e.notMem_text (commands e (by simp)) comma digit dash
    have later := ih fun d hd => commands d (by simp [hd])
    simp [first, dot, later]

theorem firstPiece_body (clean : CleanLogs p.logs) (noNul : ∀ e ∈ p.logs, '\x00' ∉ e.command)
    (tail : Str) :
    firstPiece ';' (p.body tail) =
      ended '.' (p.logs.map LogEntry.text) ++ staleText p.logs tail := by
  have nul := notMem_ended_texts noNul (by decide) (by decide) (by decide) (by decide)
  have semicolon := notMem_ended_texts (c := ';') (fun e he => (clean e he).2.1) (by decide)
    (by decide) (by decide) (by decide)
  have past : ∀ c ∈ ended '.' (p.logs.map LogEntry.text), decide (c ≠ '\x00') = true := by
    intro c inside
    simpa using fun same : c = '\x00' => nul (same ▸ inside)
  rw [Persister.body, List.takeWhile_append_of_pos past, staleText]
  by_cases empty : p.logs = []
  · rw [if_pos empty, empty]
    rfl
  · rw [if_neg empty, firstPiece_append ?_ semicolon]
    obtain ⟨e, logs, split⟩ := List.exists_cons_of_ne_nil empty
    rw [split]
    simp [e.text_ne_nil]

theorem body_short (clean : CleanLogs p.logs) (nul : ¬ ∀ e ∈ p.logs, '\x00' ∉ e.command)
    (tail : Str) : (pieces '.' (firstPiece ';' (p.body tail))).length < p.logs.length := by
  have inside : '\x00' ∈ ended '.' (p.logs.map LogEntry.text) := by
    by_contra none
    refine nul fun e he there => none ?_
    rw [ended, List.mem_flatMap]
    exact ⟨e.text, List.mem_map_of_mem he, by simp [LogEntry.text, there]⟩
  cases split_first '\x00' (ended '.' (p.logs.map LogEntry.text)) with
  | inl none => exact absurd inside none
  | inr some =>
    obtain ⟨w, u, whole, before⟩ := some
    have past : ∀ c ∈ w, decide (c ≠ '\x00') = true := by
      intro c there
      simpa using fun same : c = '\x00' => before (same ▸ there)
    have body : p.body tail = w := by
      rw [Persister.body, whole, List.append_assoc, List.takeWhile_append_of_pos past]
      simp
    have semicolon : ';' ∉ w := by
      intro there
      refine notMem_ended_texts (c := ';') (fun e he => (clean e he).2.1) (by decide)
        (by decide) (by decide) (by decide) ?_
      rw [whole]
      simp [there]
    have prefix_w : w = (ended '.' (p.logs.map LogEntry.text)).take w.length := by
      rw [whole]
      simp
    have fewer := (length_pieces_take_ended (p.logs.map LogEntry.text)
      (fun w hw => (texts_words clean w hw).2) w.length).2 (by rw [whole]; simp)
    rw [← prefix_w, List.length_map] at fewer
    rwa [body, firstPiece_clean semicolon]

theorem parsed_iff (clean : CleanLogs p.logs) (tail : Str) :
    (pieces '.' (firstPiece ';' (p.body tail))).mapM entryOf = some p.logs ↔
      (∀ e ∈ p.logs, '\x00' ∉ e.command) ∧ pieces '.' (staleText p.logs tail) = [] := by
  by_cases noNul : ∀ e ∈ p.logs, '\x00' ∉ e.command
  · rw [firstPiece_body clean noNul, pieces_ended _ (texts_words clean), List.mapM_append,
      mapM_entryOf_text _ fun e he => (clean e he).1]
    constructor
    · intro read
      refine ⟨noNul, ?_⟩
      cases parsed : (pieces '.' (staleText p.logs tail)).mapM entryOf with
      | none => simp [parsed] at read
      | some more =>
        have none : more = [] := by simpa [parsed] using read
        have count := length_of_mapM parsed
        rw [none] at count
        exact List.length_eq_zero_iff.mp count.symm
    · rintro ⟨-, stale⟩
      simp [stale]
  · constructor
    · intro read
      have count := length_of_mapM read
      have short := body_short clean noNul tail
      omega
    · rintro ⟨none, -⟩
      exact absurd none noNul

theorem make_restores_iff {i : Fin n} {file : PersisterFile} {snap : Option Str}
    (sound : file.Sound) (saved : file.saved = some p) (clean : CleanLogs p.logs) :
    (∃ r, Raft.make i file snap = some r ∧ r.Restores p) ↔
      (p.lastIncludedIndex = 0 ∧ p.lastIncludedTerm = 0) ∧
        (∀ e ∈ p.logs, '\x00' ∉ e.command) ∧
        pieces '.' (staleText p.logs (file.oldTail p)) = [] := by
  rcases sound with ⟨-, none⟩ | ⟨q, tail, present, saved'⟩
  · rw [none] at saved
    cases saved
  rw [saved'] at saved
  cases saved
  have old : file.oldTail p = tail := by simp [PersisterFile.oldTail, present]
  have read : (Raft.fresh i file snap).readRaftState =
      ((pieces '.' (firstPiece ';' (p.body tail))).mapM entryOf).map fun logs =>
        { Raft.fresh i file snap with
          persister := ⟨logs, [], p.curTerm, p.votedFor, p.lastIncludedIndex, p.lastIncludedTerm⟩
          curTerm := p.curTerm
          votedFor := p.votedFor
          logs := logs } := by
    simp only [Raft.readRaftState, Raft.fresh, present, deserialize_serialize, Option.map_map]
    rfl
  rw [old, ← parsed_iff clean]
  constructor
  · rintro ⟨r, made, restored⟩
    obtain ⟨base, reads, -, -, logs, index, term, -⟩ := Raft.make_read made
    rw [read] at reads
    obtain ⟨parsed, parse, rfl⟩ := Option.map_eq_some_iff.mp reads
    refine ⟨⟨?_, ?_⟩, ?_⟩
    · exact restored.lastIncludedIndex.symm.trans index
    · exact restored.lastIncludedTerm.symm.trans term
    · rw [parse]
      exact congrArg some (logs.symm.trans restored.logs)
  · rintro ⟨⟨index, term⟩, parse⟩
    rw [parse, Option.map_some] at read
    obtain ⟨r, made⟩ : ∃ r, Raft.make i file snap = some r := by
      rw [Raft.make, read]
      exact ⟨_, rfl⟩
    obtain ⟨base, reads, sameTerm, vote, logs, sameIndex, sameIncluded, -⟩ := Raft.make_read made
    rw [read] at reads
    cases reads
    exact ⟨r, made, sameTerm, vote, logs, sameIndex.trans index.symm, sameIncluded.trans term.symm⟩

/-- After any run and at any point of a section, a restart restores the record last saved
exactly when no snapshot position was saved, no command holds a NUL byte and the parser
finds no ended entry in the old tail of the file. -/
theorem restart_restores_last_save {i : Fin n} {s : Life n}
    (reach : Reach (Life.machine false i) Event.CleanCommands s) {during : Option (Action n)}
    {disk : PersisterFile × Option Str} (left : disk ∈ s.process.raft.disks during)
    {p : Persister} (saved : disk.1.saved = some p) :
    (∃ r, Raft.make s.process.raft.peerId disk.1 disk.2 = some r ∧ r.Restores p ∧
      ∀ b : Raft n, b.Restores p →
        r.lastIndex = b.lastIndex ∧ r.lastTerm = b.lastTerm ∧ ∀ i, r.entryAt i = b.entryAt i) ↔
      (p.lastIncludedIndex = 0 ∧ p.lastIncludedTerm = 0) ∧
        (∀ e ∈ p.logs, '\x00' ∉ e.command) ∧
        pieces '.' (staleText p.logs (disk.1.oldTail p)) = [] := by
  obtain ⟨sound, clean⟩ := (Life.cleanNode reach).disks left
  rw [← make_restores_iff sound saved (clean p saved)]
  constructor
  · rintro ⟨r, made, restored, -⟩
    exact ⟨r, made, restored⟩
  · rintro ⟨r, made, restored⟩
    exact ⟨r, made, restored, fun b before => restored.same_log before⟩

instance (command : Str) : Decidable (Clean command) := by
  unfold Clean
  infer_instance

instance (logs : List LogEntry) : Decidable (CleanLogs logs) := by
  unfold CleanLogs
  infer_instance

instance (s : Life n) (e : Event n) : Decidable (Event.CleanCommands s e) := by
  cases e with
  | act a => rcases a <;> (unfold Event.CleanCommands Action.CleanCommands; infer_instance)
  | restart during point => exact isTrue trivial

def twoEntries : List (Event 3) :=
  [.act (.appendEntries ⟨1, 1, 0, 0, 0, ['g', ',', '1', ';', 'h', ',', '1', ';']⟩)]

theorem restart_restores_last_save_sample :
    ∃ s p, execWhere (Life.machine false (0 : Fin 3)) Event.CleanCommands
        ⟨Process.boot false 0, []⟩ twoEntries = some s ∧
      s.process.raft.file.saved = some p ∧ p.logs = [⟨['g'], 1⟩, ⟨['h'], 1⟩] ∧
      ∃ r, Raft.make s.process.raft.peerId s.process.raft.file s.process.raft.snapFile = some r ∧
        r.Restores p := by
  have run : ∃ s p, execWhere (Life.machine false (0 : Fin 3)) Event.CleanCommands
        ⟨Process.boot false 0, []⟩ twoEntries = some s ∧
      s.process.raft.file.saved = some p ∧ p.logs = [⟨['g'], 1⟩, ⟨['h'], 1⟩] ∧
      (p.lastIncludedIndex = 0 ∧ p.lastIncludedTerm = 0) ∧
      pieces '.' (staleText p.logs (s.process.raft.file.oldTail p)) = [] :=
    ⟨_, _, rfl, rfl, by decide, by decide, by decide⟩
  obtain ⟨s, p, ran, saved, logs, base, stale⟩ := run
  have reach : Reach (Life.machine false (0 : Fin 3)) Event.CleanCommands s :=
    Reach.execWhere (.start rfl) ran
  have noNul : ∀ e ∈ p.logs, '\x00' ∉ e.command := by
    rw [logs]
    decide
  have here : (s.process.raft.file, s.process.raft.snapFile) ∈ s.process.raft.disks none :=
    List.mem_singleton.mpr rfl
  obtain ⟨r, made, restored, -⟩ :=
    (restart_restores_last_save reach here saved).mpr ⟨base, noNul, stale⟩
  exact ⟨s, p, ran, saved, logs, r, made, restored⟩

theorem restart_loses_snapshot_index :
    ¬ ∀ s : Life 3, Reach (Life.machine false 0) Event.CleanCommands s →
      ∀ p, s.process.raft.file.saved = some p →
        ∃ r, Raft.make s.process.raft.peerId s.process.raft.file s.process.raft.snapFile = some r ∧
          r.Restores p := by
  intro restores
  have run : ∃ s p, execWhere (Life.machine false (0 : Fin 3)) Event.CleanCommands
        ⟨Process.boot false 0, []⟩ (twoEntries ++ [.act (.recvSnapShot ['s'] 1)]) = some s ∧
      s.process.raft.file.saved = some p ∧ p.lastIncludedIndex = 1 ∧ CleanLogs p.logs :=
    ⟨_, _, rfl, rfl, by decide, by decide⟩
  obtain ⟨s, p, ran, saved, index, clean⟩ := run
  have reach : Reach (Life.machine false (0 : Fin 3)) Event.CleanCommands s :=
    Reach.execWhere (.start rfl) ran
  have sound := (Life.cleanNode reach).sound
  have zero := ((make_restores_iff sound saved clean).mp (restores s reach p saved)).1.1
  exact absurd (index.symm.trans zero) (by decide)

end ProjectsCpp.KvRaft
