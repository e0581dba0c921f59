import ProjectsCpp.KvRaft.Server
import ProjectsCpp.Lib.Maps

/-! The snapshot text of the key-value server and what a fresh server reads out of it. The
decoder drops empty sections, so a server whose database is empty writes a text in which the
clients stand where the database should be. -/

namespace ProjectsCpp.KvRaft
open ProjectsCpp.Text ProjectsCpp.Maps

namespace KVServer
variable {kv : KVServer} {operation : Operation} {events : List Event}

/-- `getSnapShot`. -/
def getSnapShot (kv : KVServer) : Str :=
  ended ';' [ended '.' (kv.database.entries.map fun ele => row ' ' ele.1 ele.2)] ++
    ended '.' (kv.clientSeqMap.entries.map fun ele => row ' ' (decimal ele.1) (decimal ele.2))

/-! ### Databases of words -/

def Word (text : Str) : Prop := text ≠ [] ∧ ' ' ∉ text ∧ '.' ∉ text ∧ ';' ∉ text

instance (text : Str) : Decidable (Word text) := by
  unfold Word
  infer_instance

def Storable : Event → Prop
  | .commit operation _ => isPut operation ∨ isAppend operation →
    Word operation.key ∧ Word operation.value
  | _ => True

instance (event : Event) : Decidable (Storable event) := by
  unfold Storable
  split <;> infer_instance

def Words (kv : KVServer) : Prop :=
  ∀ key value, kv.database.lookup key = some value → Word key ∧ Word value

theorem Word.append {a b : Str} (first : Word a) (second : Word b) : Word (a ++ b) := by
  refine ⟨List.append_ne_nil_of_left_ne_nil first.1 _, ?_, ?_, ?_⟩
  · simp [first.2.1, second.2.1]
  · simp [first.2.2.1, second.2.2.1]
  · simp [first.2.2.2, second.2.2.2]

theorem Words.insert (words : Words kv) {key value : Str} (new : Word key ∧ Word value) :
    Words { kv with database := kv.database.insert key value } := by
  intro k v found
  by_cases same : k = key
  · rw [same, AList.lookup_insert, Option.some.injEq] at found
    rw [same, ← found]
    exact new
  · rw [AList.lookup_insert_ne same] at found
    exact words k v found

theorem Words.appendDatabase (words : Words kv) (new : Word operation.key ∧ Word operation.value) :
    Words (kv.appendDatabase operation) := by
  rw [KVServer.appendDatabase]
  cases found : kv.database.lookup operation.key with
  | none => exact words.insert new
  | some old => exact words.insert ⟨new.1, (words _ _ found).2.append new.2⟩

theorem Words.of_database {s : KVServer} (words : Words kv) (same : s.database = kv.database) :
    Words s := by
  intro key value found
  rw [same] at found
  exact words key value found

theorem applyOperation_database_write
    (new : (isPut operation ∨ isAppend operation) ∧ kv.isNew operation) (index : Int) :
    (kv.applyOperation operation index).1.database = (kv.putDatabase operation).database ∨
      (kv.applyOperation operation index).1.database = (kv.appendDatabase operation).database := by
  simp only [applyOperation]
  rw [if_pos new.1, if_pos]
  · by_cases put : isPut operation
    · rw [if_pos put]
      left
      simp [putDatabase]
    · rw [if_neg put]
      right
      simp only [appendDatabase, setContext_database]
      split <;> rfl
  · simpa only [isNew, setContext_clientSeqMap] using new.2

theorem Words.step {event : Event} (words : Words kv) (storable : Storable event) :
    Words (kv.step event) := by
  cases event with
  | commit operation index =>
    by_cases new : (isPut operation ∨ isAppend operation) ∧ kv.isNew operation
    · have word := storable new.1
      cases applyOperation_database_write new index with
      | inl put => exact (words.insert word).of_database put
      | inr append => exact (words.appendDatabase word).of_database append
    · exact words.of_database (applyOperation_database new)
  | await index operation => exact words
  | erase index => exact words

def Recorded (kv : KVServer) : Prop := kv.clientSeqMap.entries = [] → kv.database.entries = []

theorem Recorded.step (recorded : Recorded kv) (event : Event) : Recorded (kv.step event) := by
  cases event with
  | commit operation index =>
    intro none
    rw [KVServer.step, applyOperation_clientSeqMap, AList.entries_insert] at none
    cases none
  | await index operation => exact recorded
  | erase index => exact recorded

theorem run_words (events : List Event) (storable : ∀ event ∈ events, Storable event) :
    Words (empty.run events) ∧ Recorded (empty.run events) := by
  induction events using List.reverseRecOn with
  | nil => exact ⟨nofun, fun _ => rfl⟩
  | append_singleton events event ih =>
    obtain ⟨words, recorded⟩ := ih fun e member => storable e (List.mem_append_left _ member)
    rw [run_concat]
    exact ⟨words.step (storable event (by simp)), recorded.step event⟩

/-! ### Reading the text back -/

def dataRows (kv : KVServer) : List (Str × Str) :=
  kv.database.entries.map fun ele => (ele.1, ele.2)

def seqRows (kv : KVServer) : List (Str × Str) :=
  kv.clientSeqMap.entries.map fun ele => (decimal ele.1, decimal ele.2)

theorem getSnapShot_rows (kv : KVServer) :
    kv.getSnapShot = ended '.' (kv.dataRows.map fun r => row ' ' r.1 r.2) ++
      ';' :: ended '.' (kv.seqRows.map fun r => row ' ' r.1 r.2) := by
  simp only [getSnapShot, dataRows, seqRows, List.map_map, ended_cons, ended_nil, List.append_assoc,
    List.cons_append, List.nil_append]
  rfl

theorem Words.rows (words : Words kv) : ∀ r ∈ kv.dataRows, Word r.1 ∧ Word r.2 := by
  intro r member
  obtain ⟨ele, inside, rfl⟩ := List.mem_map.mp member
  exact words ele.1 ele.2 (AList.mem_lookup_iff.mpr inside)

theorem seqRows_clean (kv : KVServer) {c : Char} (digit : c.isDigit = false) (dash : c ≠ '-') :
    ∀ r ∈ kv.seqRows, c ∉ r.1 ∧ c ∉ r.2 := by
  intro r member
  obtain ⟨ele, -, rfl⟩ := List.mem_map.mp member
  exact ⟨notMem_decimal _ digit dash, notMem_decimal _ digit dash⟩

theorem section_clean {rows : List (Str × Str)} {c : Char} (clean : ∀ r ∈ rows, c ∉ r.1 ∧ c ∉ r.2)
    (dot : c ≠ '.') (blank : c ≠ ' ') : c ∉ ended '.' (rows.map fun r => row ' ' r.1 r.2) := by
  refine notMem_ended dot fun w member => ?_
  obtain ⟨r, inside, rfl⟩ := List.mem_map.mp member
  rw [mem_row, not_or, not_or]
  exact ⟨(clean r inside).1, blank, (clean r inside).2⟩

theorem section_ne_nil {rows : List (Str × Str)} (some : rows ≠ []) :
    ended '.' (rows.map fun r => row ' ' r.1 r.2) ≠ [] :=
  ended_ne_nil fun none => some (List.map_eq_nil_iff.mp none)

theorem recoverySnapShot_rows (words : Words kv) (stored : kv.database.entries ≠ [])
    (recorded : kv.clientSeqMap.entries ≠ []) :
    empty.recoverySnapShot kv.getSnapShot = some { empty with
      database := kv.dataRows.foldl (fun m p => m.insert p.1 p.2) ∅
      clientSeqMap := kv.seqRows.foldl (fun m p => m.insert (atoi p.1) (atoi p.2)) ∅ } := by
  have dataClean : ';' ∉ ended '.' (kv.dataRows.map fun r => row ' ' r.1 r.2) :=
    section_clean (fun r member => ⟨(words.rows r member).1.2.2.2, (words.rows r member).2.2.2.2⟩)
      (by decide) (by decide)
  have seqClean : ';' ∉ ended '.' (kv.seqRows.map fun r => row ' ' r.1 r.2) :=
    section_clean (kv.seqRows_clean (by decide) (by decide)) (by decide) (by decide)
  have dataSome : kv.dataRows ≠ [] := fun none => stored (List.map_eq_nil_iff.mp none)
  have seqSome : kv.seqRows ≠ [] := fun none => recorded (List.map_eq_nil_iff.mp none)
  have sections : fields ';' kv.getSnapShot =
      [ended '.' (kv.dataRows.map fun r => row ' ' r.1 r.2),
        ended '.' (kv.seqRows.map fun r => row ' ' r.1 r.2)] := by
    rw [getSnapShot_rows, fields_sep (section_ne_nil dataSome) dataClean,
      fields_clean (section_ne_nil seqSome) seqClean]
  have data := mapM_cutAt_rows '.' ' ' kv.dataRows (fun r member =>
    ⟨(words.rows r member).1.2.2.1, (words.rows r member).2.2.2.1, (words.rows r member).1.2.1⟩)
    (by decide)
  have seqs := mapM_cutAt_rows '.' ' ' kv.seqRows (fun r member =>
    ⟨(kv.seqRows_clean (by decide) (by decide) r member).1,
      (kv.seqRows_clean (by decide) (by decide) r member).2,
      (kv.seqRows_clean (by decide) (by decide) r member).1⟩) (by decide)
  rw [recoverySnapShot, sections]
  simp only [data, seqs]
  rfl

theorem recoverySnapShot_empty (nothing : kv.database.entries = []) :
    empty.recoverySnapShot kv.getSnapShot = none := by
  have seqClean : ';' ∉ ended '.' (kv.seqRows.map fun r => row ' ' r.1 r.2) :=
    section_clean (kv.seqRows_clean (by decide) (by decide)) (by decide) (by decide)
  have noRows : kv.dataRows = [] := by rw [dataRows, nothing, List.map_nil]
  have text : kv.getSnapShot = ';' :: ended '.' (kv.seqRows.map fun r => row ' ' r.1 r.2) := by
    rw [getSnapShot_rows, noRows]
    rfl
  have short : (fields ';' kv.getSnapShot).length ≤ 1 := by
    have sections : fields ';' kv.getSnapShot =
        fields ';' (ended '.' (kv.seqRows.map fun r => row ' ' r.1 r.2)) := by
      rw [text, fields, fields, pieces_sep_nil]
      have left : rest ';' ([] ++ ';' :: ended '.' (kv.seqRows.map fun r => row ' ' r.1 r.2)) =
          rest ';' (ended '.' (kv.seqRows.map fun r => row ' ' r.1 r.2)) :=
        rest_sep List.not_mem_nil
      rw [List.nil_append] at left
      rw [left]
    rw [sections]
    have bound := length_fields_le ';' (ended '.' (kv.seqRows.map fun r => row ' ' r.1 r.2))
    rw [List.count_eq_zero.mpr seqClean] at bound
    omega
  rw [recoverySnapShot]
  split
  · rename_i first second others sections
    rw [sections, List.length_cons, List.length_cons] at short
    omega
  · rfl

/-- A fresh server that reads the snapshot holds the pairs and the clients of the server that
wrote it. -/
def Restores (kv : KVServer) : Prop :=
  ∃ t, empty.recoverySnapShot kv.getSnapShot = some t ∧
    (∀ key, t.database.lookup key = kv.database.lookup key) ∧
    ∀ client, t.clientSeqMap.lookup client = kv.clientSeqMap.lookup client

/-- The snapshot of a server restores a fresh one exactly when the database holds a pair. -/
theorem restores_iff_stored (events : List Event) (storable : ∀ event ∈ events, Storable event) :
    Restores (empty.run events) ↔ (empty.run events).database.entries ≠ [] := by
  obtain ⟨words, recorded⟩ := run_words events storable
  constructor
  · rintro ⟨t, read, -⟩ none
    rw [recoverySnapShot_empty none] at read
    cases read
  · intro stored
    refine ⟨_, recoverySnapShot_rows words stored (fun none => stored (recorded none)), ?_, ?_⟩
    · exact lookup_foldl_pairs (empty.run events).database
    · exact lookup_foldl_rows atoi_decimal atoi_decimal (empty.run events).clientSeqMap

theorem restores_iff_stored_two_clients :
    (∀ event ∈ [Event.commit ⟨['p', 'u', 't'], ['k'], ['v'], 7, 1, 1⟩ 1,
        .commit ⟨['g', 'e', 't'], ['k'], ['n'], 8, 1, 1⟩ 2], Storable event) ∧
      Restores (empty.run [Event.commit ⟨['p', 'u', 't'], ['k'], ['v'], 7, 1, 1⟩ 1,
        .commit ⟨['g', 'e', 't'], ['k'], ['n'], 8, 1, 1⟩ 2]) :=
  ⟨by decide, (restores_iff_stored _ (by decide)).mpr (by decide)⟩

theorem snapShot_of_get_is_not_read :
    Storable (.commit ⟨['g', 'e', 't'], ['k'], ['n'], 7, 1, 1⟩ 1) ∧
      empty.recoverySnapShot
        (empty.run [.commit ⟨['g', 'e', 't'], ['k'], ['n'], 7, 1, 1⟩ 1]).getSnapShot = none ∧
      ¬ ∀ events, events ≠ [] → (∀ event ∈ events, Storable event) →
        Restores (empty.run events) := by
  refine ⟨by decide, by decide, fun restores => ?_⟩
  obtain ⟨t, read, -⟩ := restores [.commit ⟨['g', 'e', 't'], ['k'], ['n'], 7, 1, 1⟩ 1]
    (List.cons_ne_nil _ _) (by decide)
  have crash : empty.recoverySnapShot
      (empty.run [.commit ⟨['g', 'e', 't'], ['k'], ['n'], 7, 1, 1⟩ 1]).getSnapShot = none := by
    decide
  rw [crash] at read
  cases read

end KVServer
end ProjectsCpp.KvRaft
