import ProjectsCpp.Lib.Text

/-! Messages, log entries and their text forms (`raft.hpp`).
Field names keep the source's words without the `m_` prefix. Strings are lists of
characters and every `int` is an unbounded integer, so nothing here speaks of
overflow. A text on which the source would throw or index out of range gives
`none`. -/

namespace ProjectsCpp.KvRaft
open ProjectsCpp.Text

/-! ### Data -/

structure LogEntry where
  command : Str
  term : Int
deriving DecidableEq

structure Operation where
  op : Str
  key : Str
  value : Str
  clientId : Int
  requestId : Int
  term : Int
deriving DecidableEq

/-- `commandValid` of the source tells the two kinds of message apart. -/
inductive ApplyMsg where
  | command (command : Str) (commandIndex commandTerm : Int)
  | snapShot (snapShot : Str) (lastIncludedIndex lastIncludedTerm : Int)
deriving DecidableEq

structure RequestVoteArgs where
  term : Int
  candidateId : Int
  lastLogTerm : Int
  lastLogIndex : Int
deriving DecidableEq

structure RequestVoteReply where
  term : Int
  voteGranted : Bool
deriving DecidableEq

structure AppendEntriesArgs where
  term : Int
  leaderId : Int
  prevLogIndex : Int
  prevLogTerm : Int
  leaderCommit : Int
  sendLogs : Str
deriving DecidableEq

structure AppendEntriesReply where
  term : Int
  success : Bool
  conflictTerm : Int
  conflictIndex : Int
deriving DecidableEq

structure InstallSnapShotArgs where
  term : Int
  leaderId : Int
  lastIncludedIndex : Int
  lastIncludedTerm : Int
  snapShot : Str
deriving DecidableEq

structure InstallSnapSHotReply where
  term : Int
deriving DecidableEq

structure StartRet where
  cmdIndex : Int
  curTerm : Int
  isLeader : Bool
deriving DecidableEq

structure Persister where
  logs : List LogEntry
  snapShot : Str
  curTerm : Int
  votedFor : Int
  lastIncludedIndex : Int
  lastIncludedTerm : Int
deriving DecidableEq

/-! ### Commands -/

def Operation.getCmd (o : Operation) : Str :=
  o.op ++ ' ' :: (o.key ++ ' ' :: (o.value ++ ' ' ::
    (decimal o.clientId ++ ' ' :: decimal o.requestId)))

def getOperation (command : Str) (commandTerm : Int) : Option Operation :=
  match fields ' ' command with
  | op :: key :: value :: clientId :: requestId :: _ =>
    some ⟨op, key, value, atoi clientId, atoi requestId, commandTerm⟩
  | _ => none

/-! ### Log entries on the wire -/

/-- One entry of `m_sendLogs`, or of the persisted log, without its terminator. -/
def LogEntry.text (e : LogEntry) : Str := e.command ++ ',' :: decimal e.term

def sendLogsOf (logs : List LogEntry) : Str := ended ';' (logs.map LogEntry.text)

/-- A piece without a comma makes the source build a string from a reversed range,
which throws. -/
def entryOf (piece : Str) : Option LogEntry :=
  (cutAt ',' piece).map fun p => ⟨p.1, atoi p.2⟩

def getCmdAndTerm (text : Str) : Option (List LogEntry) := (pieces ';' text).mapM entryOf

/-- A string through the RPC serializer: the length travels in 16 bits and only that
many bytes follow. -/
def transmit (text : Str) : Str := text.take (text.length % 65536)

/-! ### The persister file -/

def Persister.serialize (p : Persister) : Str :=
  ended ';' [decimal p.curTerm, decimal p.votedFor,
    decimal p.lastIncludedIndex, decimal p.lastIncludedTerm] ++
  ended '.' (p.logs.map LogEntry.text)

/-- `Raft::deserialize` on the bytes of the file. The buffer becomes a C string, so a
NUL byte ends it; the snapshot is not part of the file. -/
def deserialize (bytes : Str) (snapShot : Str) : Option Persister :=
  let content := bytes.takeWhile (· ≠ '\x00')
  match pieces ';' content ++ [rest ';' content] with
  | curTerm :: votedFor :: lastIncludedIndex :: lastIncludedTerm :: log :: _ =>
    ((pieces '.' log).mapM entryOf).map fun logs =>
      ⟨logs, snapShot, atoi curTerm, atoi votedFor, atoi lastIncludedIndex,
        atoi lastIncludedTerm⟩
  | _ => none

/-! ### Reading back what was written -/

def Clean (command : Str) : Prop := ',' ∉ command ∧ ';' ∉ command ∧ '.' ∉ command

instance (command : Str) : Decidable (Clean command) := by
  unfold Clean
  infer_instance

theorem LogEntry.text_ne_nil (e : LogEntry) : e.text ≠ [] := by simp [LogEntry.text]

theorem LogEntry.notMem_text {e : LogEntry} {c : Char} (command : c ∉ e.command)
    (comma : c ≠ ',') (digit : c.isDigit = false) (dash : c ≠ '-') : c ∉ e.text := by
  simp [LogEntry.text, command, comma, notMem_decimal e.term digit dash]

@[simp] theorem entryOf_text {e : LogEntry} (clean : ',' ∉ e.command) :
    entryOf e.text = some e := by
  simp [entryOf, LogEntry.text, cutAt_sep clean]

theorem mapM_entryOf_text (logs : List LogEntry) (clean : ∀ e ∈ logs, ',' ∉ e.command) :
    (logs.map LogEntry.text).mapM entryOf = some logs :=
  mapM_map logs fun e he => entryOf_text (clean e he)

theorem getCmdAndTerm_sendLogsOf_append (logs : List LogEntry) (t : Str)
    (clean : ∀ e ∈ logs, ',' ∉ e.command ∧ ';' ∉ e.command) :
    getCmdAndTerm (sendLogsOf logs ++ t) = (getCmdAndTerm t).map (logs ++ ·) := by
  have words : ∀ w ∈ logs.map LogEntry.text, w ≠ [] ∧ ';' ∉ w := by
    intro w hw
    obtain ⟨e, he, rfl⟩ := List.mem_map.mp hw
    exact ⟨e.text_ne_nil, e.notMem_text (clean e he).2 (by decide) (by decide) (by decide)⟩
  rw [getCmdAndTerm, sendLogsOf, pieces_ended _ words, List.mapM_append,
    mapM_entryOf_text logs fun e he => (clean e he).1]
  cases h : (pieces ';' t).mapM entryOf <;> simp [getCmdAndTerm, h]

@[simp] theorem getCmdAndTerm_nil : getCmdAndTerm [] = some [] := rfl

theorem getCmdAndTerm_sendLogsOf (logs : List LogEntry)
    (clean : ∀ e ∈ logs, ',' ∉ e.command ∧ ';' ∉ e.command) :
    getCmdAndTerm (sendLogsOf logs) = some logs := by
  have h := getCmdAndTerm_sendLogsOf_append logs [] clean
  simpa using h

theorem transmit_short {text : Str} (short : text.length < 65536) : transmit text = text := by
  rw [transmit, Nat.mod_eq_of_lt short, List.take_length]

theorem getOperation_getCmd (o : Operation) (t : Int)
    (op : o.op ≠ [] ∧ ' ' ∉ o.op) (key : o.key ≠ [] ∧ ' ' ∉ o.key)
    (value : o.value ≠ [] ∧ ' ' ∉ o.value) :
    getOperation o.getCmd t = some { o with term := t } := by
  have client : ' ' ∉ decimal o.clientId := notMem_decimal _ (by decide) (by decide)
  have request : ' ' ∉ decimal o.requestId := notMem_decimal _ (by decide) (by decide)
  rw [getOperation, Operation.getCmd, fields_sep op.1 op.2, fields_sep key.1 key.2,
    fields_sep value.1 value.2, fields_sep (decimal_ne_nil _) client,
    fields_clean (decimal_ne_nil _) request]
  simp

theorem getOperation_short {command : Str} (few : command.count ' ' < 4) (t : Int) :
    getOperation command t = none := by
  have len := length_fields_le ' ' command
  rw [getOperation]
  split
  · rename_i h
    rw [h] at len
    simp only [List.length_cons] at len
    omega
  · rfl

end ProjectsCpp.KvRaft
