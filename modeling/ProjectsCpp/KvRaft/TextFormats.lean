import ProjectsCpp.KvRaft.Ballot
import ProjectsCpp.KvRaft.Server

/-! Which values survive the three texts of a server: the entries of an append message, the
persister file, and the command of an operation. A reader never makes a word that holds its
own separator, so a value that holds one is not read back. -/

namespace ProjectsCpp.KvRaft
open ProjectsCpp.Text

/-! ### Entries -/

theorem notMem_command_of_mapM {sep : Char} {text : Str} {logs : List LogEntry}
    (read : (pieces sep text).mapM entryOf = some logs) :
    ∀ e ∈ logs, ',' ∉ e.command ∧ sep ∉ e.command := by
  intro e member
  obtain ⟨piece, from_, made⟩ := mem_of_mapM read member
  rw [entryOf, Option.map_eq_some_iff] at made
  obtain ⟨cut, here, rfl⟩ := made
  obtain ⟨rfl, comma⟩ := eq_of_cutAt here
  have whole := (mem_pieces from_).2
  rw [List.mem_append, not_or] at whole
  exact ⟨comma, whole.1⟩

/-- A list of entries survives an append message exactly if no command holds a comma or a
semicolon. -/
theorem sendLogs_iff (logs : List LogEntry) :
    getCmdAndTerm (sendLogsOf logs) = some logs ↔
      ∀ e ∈ logs, ',' ∉ e.command ∧ ';' ∉ e.command :=
  ⟨fun read => notMem_command_of_mapM read, getCmdAndTerm_sendLogsOf logs⟩

/-! ### The persister file -/

theorem Persister.body_whole {p : Persister} (noNul : ∀ e ∈ p.logs, '\x00' ∉ e.command) :
    p.body [] = ended '.' (p.logs.map LogEntry.text) := by
  have clean : '\x00' ∉ ended '.' (p.logs.map LogEntry.text) := by
    refine notMem_ended (by decide) fun w member => ?_
    obtain ⟨e, here, rfl⟩ := List.mem_map.mp member
    exact e.notMem_text (noNul e here) (by decide) (by decide) (by decide)
  rw [body, List.append_nil, List.takeWhile_eq_self_iff]
  intro c inside
  simpa using fun same : c = '\x00' => clean (same ▸ inside)

theorem clean_of_firstPiece {text : Str} {logs : List LogEntry}
    (read : (pieces '.' (firstPiece ';' text)).mapM entryOf = some logs) :
    ∀ e ∈ logs, Clean e.command := by
  intro e member
  obtain ⟨comma, dot⟩ := notMem_command_of_mapM read e member
  obtain ⟨piece, from_, made⟩ := mem_of_mapM read member
  rw [entryOf, Option.map_eq_some_iff] at made
  obtain ⟨cut, here, rfl⟩ := made
  obtain ⟨rfl, -⟩ := eq_of_cutAt here
  refine ⟨comma, fun semicolon => notMem_firstPiece (pieces_subset from_ ?_), dot⟩
  exact List.mem_append_left _ semicolon

theorem pieces_body {logs : List LogEntry} (clean : ∀ e ∈ logs, Clean e.command) :
    (pieces '.' (firstPiece ';' (ended '.' (logs.map LogEntry.text)))).mapM entryOf =
      some logs := by
  have apart (c : Char) (outside : ∀ e ∈ logs, c ∉ e.command) (comma : c ≠ ',')
      (digit : c.isDigit = false) (dash : c ≠ '-') :
      ∀ w ∈ logs.map LogEntry.text, c ∉ w := by
    intro w member
    obtain ⟨e, here, rfl⟩ := List.mem_map.mp member
    exact e.notMem_text (outside e here) comma digit dash
  have dots := apart '.' (fun e here => (clean e here).2.2) (by decide) (by decide) (by decide)
  have semicolons :=
    apart ';' (fun e here => (clean e here).2.1) (by decide) (by decide) (by decide)
  have words : ∀ w ∈ logs.map LogEntry.text, w ≠ [] ∧ '.' ∉ w := by
    intro w member
    refine ⟨?_, dots w member⟩
    obtain ⟨e, -, rfl⟩ := List.mem_map.mp member
    exact e.text_ne_nil
  rw [firstPiece_clean (notMem_ended (by decide) semicolons), pieces_all_ended _ words]
  exact mapM_entryOf_text logs fun e here => (clean e here).1

/-- A state without NUL bytes survives the persister file exactly if no command holds a
separator. The snapshot is not part of the file. -/
theorem serialize_iff {p : Persister} (noNul : ∀ e ∈ p.logs, '\x00' ∉ e.command)
    (snapShot : Str) :
    deserialize p.serialize snapShot = some { p with snapShot := snapShot } ↔
      ∀ e ∈ p.logs, ';' ∉ e.command ∧ ',' ∉ e.command ∧ '.' ∉ e.command := by
  have read := deserialize_serialize p [] snapShot
  rw [List.append_nil, p.body_whole noNul] at read
  rw [read, Option.map_eq_some_iff]
  constructor
  · rintro ⟨logs, decoded, same⟩ e member
    have logsSame : logs = p.logs := congrArg Persister.logs same
    obtain ⟨comma, semicolon, dot⟩ := clean_of_firstPiece decoded e (logsSame ▸ member)
    exact ⟨semicolon, comma, dot⟩
  · intro clean
    refine ⟨p.logs, pieces_body fun e member => ?_, rfl⟩
    obtain ⟨semicolon, comma, dot⟩ := clean e member
    exact ⟨comma, semicolon, dot⟩

def savedOnce : Persister := ⟨[⟨['a', ' ', 'b'], 3⟩], [], 3, -1, 0, 0⟩

theorem savedOnce_survives :
    deserialize savedOnce.serialize [] = some { savedOnce with snapShot := [] } :=
  (serialize_iff (p := savedOnce) (by decide) []).mpr (by decide)

/-! ### Operations -/

/-- An operation survives its command exactly if its three words are words, and then the
server executes it. -/
theorem getCmd_iff (o : Operation) (commandTerm : Int) :
    (getOperation o.getCmd commandTerm = some { o with term := commandTerm } ↔
      (o.op ≠ [] ∧ ' ' ∉ o.op) ∧ (o.key ≠ [] ∧ ' ' ∉ o.key) ∧ (o.value ≠ [] ∧ ' ' ∉ o.value)) ∧
    (((o.op ≠ [] ∧ ' ' ∉ o.op) ∧ (o.key ≠ [] ∧ ' ' ∉ o.key) ∧ (o.value ≠ [] ∧ ' ' ∉ o.value)) →
      ∀ (kv : KVServer) (commandIndex : Int),
        kv.applyLoop (.command o.getCmd commandIndex commandTerm) =
          some (kv.applyOperation { o with term := commandTerm } commandIndex)) := by
  have survives (words : (o.op ≠ [] ∧ ' ' ∉ o.op) ∧ (o.key ≠ [] ∧ ' ' ∉ o.key) ∧
      (o.value ≠ [] ∧ ' ' ∉ o.value)) :
      getOperation o.getCmd commandTerm = some { o with term := commandTerm } :=
    getOperation_getCmd o commandTerm words.1 words.2.1 words.2.2
  refine ⟨⟨fun read => ?_, survives⟩, fun words kv commandIndex => ?_⟩
  · rw [getOperation] at read
    split at read
    · rename_i op key value clientId requestId more cut
      have word : ∀ w ∈ [op, key, value], w ≠ [] ∧ ' ' ∉ w := by
        intro w member
        refine mem_fields (t := o.getCmd) ?_
        rw [cut]
        simp only [List.mem_cons, List.not_mem_nil, or_false] at member
        rcases member with rfl | rfl | rfl <;> simp
      have same := Option.some.inj read
      have opSame : op = o.op := congrArg Operation.op same
      have keySame : key = o.key := congrArg Operation.key same
      have valueSame : value = o.value := congrArg Operation.value same
      rw [← opSame, ← keySame, ← valueSame]
      exact ⟨word op (by simp), word key (by simp), word value (by simp)⟩
    · cases read
  · rw [KVServer.applyLoop, survives words]
    rfl

def getRandom : Operation :=
  ⟨['g', 'e', 't'], ['k'], ['r', 'a', 'n', 'd', 'o', 'm'], -1, 7, 2⟩

theorem getRandom_survives :
    getOperation getRandom.getCmd 2 = some { getRandom with term := 2 } :=
  (getCmd_iff getRandom 2).1.mpr (by decide)

end ProjectsCpp.KvRaft
