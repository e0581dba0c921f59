import ProjectsCpp.ShardKv.Pairs
import ProjectsCpp.ShardKv.Replicas
import ProjectsCpp.Lib.Run

/-! The snapshot text of a shardKv server and what a replica reads out of it
(`shardKv/server.cpp`). A section that is not the word `empty` is written over what the
replica has: keys that the sender no longer holds stay. A shard that was moved out without
pairs leaves no text behind its comma, and the reader looks there. -/

namespace ProjectsCpp.Sharding
open ProjectsCpp.Text ProjectsCpp.Maps ProjectsCpp.Run

namespace ShardKv

/-! ### Writing -/

def sectionText (sep : Char) (rows : List Str) : Str :=
  if rows = [] then empty else ended sep rows

def dataRow (data : Sigma fun _ : Str => Str) : Str := row ' ' data.1 data.2

def numberRow (ele : Sigma fun _ : Int => Int) : Str := row ' ' (decimal ele.1) (decimal ele.2)

def shardRow (shardDB : Sigma fun _ : Int => AList fun _ : Str => Str) : Str :=
  row ',' (decimal shardDB.1) (ended '.' (shardDB.2.entries.map dataRow))

def cfgRow (cfg2shardDB : Sigma fun _ : Int => AList fun _ : Int => AList fun _ : Str => Str) : Str :=
  row ':' (decimal cfg2shardDB.1) (ended '/' (cfg2shardDB.2.entries.map shardRow))

def garbageRow (garbage : Sigma fun _ : Int => List Int) : Str :=
  row ':' (decimal garbage.1) (ended '.' (garbage.2.map decimal))

def containers (kv : ShardKv) : List Str :=
  [sectionText '.' (kv.database.entries.map dataRow),
    sectionText '.' (kv.clientSeqMap.entries.map numberRow),
    sectionText '.' (kv.comeInShards.entries.map numberRow),
    sectionText '|' (kv.toOutShards.entries.map cfgRow),
    sectionText '.' (kv.availableShards.map decimal),
    sectionText '|' (kv.garbages.entries.map garbageRow)]

def getSnapShot (kv : ShardKv) : Str :=
  ended ';' (kv.containers ++ [getStringFromConfig kv.config])

/-! ### Reading -/

/-- One container: the word `empty` clears it, other rows are written into it. -/
def readSection {β γ : Type} (sep : Char) (read : Str → Option γ) (clear : β)
    (write : β → List γ → β) (own : β) (text : Str) : Option β :=
  if text = empty then some clear else ((fields sep text).mapM read).map (write own)

def readNumbers (text : Str) : Option (Int × Int) :=
  (cutAt ' ' text).bind fun cut => (stoi cut.1).bind fun key => (stoi cut.2).map fun value =>
    (key, value)

/-- `data[1]` is read whether or not it is there. -/
def readShard (text : Str) : Option (Int × List (Str × Str)) :=
  match fields ',' text with
  | shard :: data :: _ => (stoi shard).bind fun s =>
      ((fields '.' data).mapM (cutAt ' ')).map fun key2Value => (s, key2Value)
  | _ => none

def readCfg (text : Str) : Option (Int × List (Int × List (Str × Str))) :=
  match fields ':' text with
  | cfg :: shards => (stoi cfg).bind fun cfgNum =>
      ((shards.flatMap (fields '/')).mapM readShard).map fun shardData => (cfgNum, shardData)
  | [] => none

def readGarbage (text : Str) : Option (Int × List Int) :=
  (cutAt ':' text).bind fun cut => (stoi cut.1).bind fun cfgNum =>
    ((fields '.' cut.2).mapM stoi).map fun shards => (cfgNum, shards)

def writeMap {α β : Type} [DecidableEq α] (own : AList fun _ : α => β) (rows : List (α × β)) :
    AList fun _ : α => β := rows.foldl (fun m r => m.insert r.1 r.2) own

/-- `toOutShards[cfgNum][shard][key] = value` in three loops. -/
def writeToOut (own : AList fun _ : Int => AList fun _ : Int => AList fun _ : Str => Str)
    (cfgs : List (Int × List (Int × List (Str × Str)))) :
    AList fun _ : Int => AList fun _ : Int => AList fun _ : Str => Str :=
  cfgs.foldl (fun m cfg => cfg.2.foldl (fun m shard => shard.2.foldl (fun m data =>
    setToOut cfg.1 shard.1 ((outData m cfg.1 shard.1).insert data.1 data.2) m) m) m) own

def writeShards (own : List Int) (shards : List Int) : List Int :=
  shards.foldl (fun l shard => l.insert shard) own

/-- `garbages[cfgNum].insert(shard)` in two loops. -/
def writeGarbages (own : AList fun _ : Int => List Int) (rows : List (Int × List Int)) :
    AList fun _ : Int => List Int :=
  rows.foldl (fun m garbage => garbage.2.foldl (fun m shard =>
    m.insert garbage.1 (((m.lookup garbage.1).getD []).insert shard)) m) own

def recoverySnapShot (kv : ShardKv) (snapShot : Str) : Option ShardKv :=
  match fields ';' snapShot with
  | data :: clientSeq :: inShards :: cfg2Shards :: shards :: cfg2garbage :: config :: _ => do
    let database ← readSection '.' (cutAt ' ') ∅ writeMap kv.database data
    let clientSeqMap ← readSection '.' readNumbers ∅ writeMap kv.clientSeqMap clientSeq
    let comeInShards ← readSection '.' readNumbers ∅ writeMap kv.comeInShards inShards
    let toOutShards ← readSection '|' readCfg ∅ writeToOut kv.toOutShards cfg2Shards
    let availableShards ← readSection '.' stoi [] writeShards kv.availableShards shards
    let garbages ← readSection '|' readGarbage ∅ writeGarbages kv.garbages cfg2garbage
    let config ← getConfig config
    return { kv with
      database := database
      clientSeqMap := clientSeqMap
      comeInShards := comeInShards
      toOutShards := toOutShards
      availableShards := availableShards
      garbages := garbages
      config := config }
  | _ => none

def doSnapShot (kv : ShardKv) (snapShot : Str) (lastIncludedIndex : Int) : Option ShardKv :=
  if snapShot.length = 0 then
    some { kv with database := ∅, clientSeqMap := ∅, lastAppliedIndex := lastIncludedIndex }
  else (kv.recoverySnapShot snapShot).map fun kv => { kv with lastAppliedIndex := lastIncludedIndex }

theorem doSnapShot_getSnapShot (t s : ShardKv) (lastIncludedIndex : Int) :
    t.doSnapShot s.getSnapShot lastIncludedIndex =
      (t.recoverySnapShot s.getSnapShot).map fun kv =>
        { kv with lastAppliedIndex := lastIncludedIndex } := by
  have some : s.getSnapShot ≠ [] := ended_ne_nil (List.append_ne_nil_of_right_ne_nil _ nofun)
  rw [doSnapShot, if_neg fun none => some (List.length_eq_zero_iff.mp none)]

/-! ### Texts without separators -/

def separators : List Char := [' ', '.', ';', ':', ',', '/', '|']

def Word (text : Str) : Prop := text ≠ [] ∧ ∀ c ∈ separators, c ∉ text

instance (text : Str) : Decidable (Word text) :=
  decidable_of_iff (text ≠ [] ∧ separators.all (fun c => decide (c ∉ text)) = true) (by
    simp only [Word, List.all_eq_true, decide_eq_true_eq])

theorem Word.append {a b : Str} (first : Word a) (second : Word b) : Word (a ++ b) := by
  refine ⟨List.append_ne_nil_of_left_ne_nil first.1 _, fun c member => ?_⟩
  rw [List.mem_append, not_or]
  exact ⟨first.2 c member, second.2 c member⟩

theorem word_decimal (z : Int) : Word (decimal z) := by
  have plain : ∀ c ∈ separators, c.isDigit = false ∧ c ≠ '-' := by simp [separators]
  exact ⟨decimal_ne_nil z, fun c member => notMem_decimal z (plain c member).1 (plain c member).2⟩

/-- The separators that a text holds are among `seps`. -/
def Uses (seps : List Char) (text : Str) : Prop := ∀ c ∈ separators, c ∈ text → c ∈ seps

variable {seps : List Char} {sep c : Char} {key value text : Str} {rows : List Str}

theorem Word.uses (word : Word text) : Uses seps text :=
  fun c member inside => absurd inside (word.2 c member)

theorem Uses.notMem (uses : Uses seps text) (member : c ∈ separators) (other : c ∉ seps) :
    c ∉ text := fun inside => other (uses c member inside)

theorem Uses.row (key_ : Uses seps key) (value_ : Uses seps value) :
    Uses (sep :: seps) (row sep key value) := by
  intro c member inside
  rcases mem_row.mp inside with here | rfl | here
  · exact List.mem_cons_of_mem _ (key_ c member here)
  · exact List.mem_cons_self
  · exact List.mem_cons_of_mem _ (value_ c member here)

theorem Uses.ended (uses : ∀ r ∈ rows, Uses seps r) : Uses (sep :: seps) (ended sep rows) := by
  intro c member inside
  by_cases same : c = sep
  · exact List.mem_cons.mpr (.inl same)
  · by_contra other
    exact notMem_ended same (fun r here there =>
      other (List.mem_cons_of_mem _ (uses r here c member there))) inside

theorem Uses.sectionText (uses : ∀ r ∈ rows, Uses seps r) :
    Uses (sep :: seps) (sectionText sep rows) := by
  rw [ShardKv.sectionText]
  split
  · have plain : ∀ c ∈ separators, c ∉ empty := by simp [separators, empty]
    exact fun c member inside => absurd inside (plain c member)
  · exact Uses.ended uses

theorem sectionText_ne_nil : sectionText sep rows ≠ [] := by
  rw [sectionText]
  split
  · decide
  · rename_i some
    exact ended_ne_nil some

def AllWords (database : AList fun _ : Str => Str) : Prop :=
  Every (fun key value => Word key ∧ Word value) database

/-- The names of servers, as `getConfig` reads them. -/
def Named (groups : AList fun _ : Int => List Str) : Prop :=
  Every (fun _ names => ∀ name ∈ names, name ≠ [] ∧ ':' ∉ name ∧ '|' ∉ name ∧ '/' ∉ name) groups

/-- A configuration that lists shards, every one of them with pairs that are words. -/
def WordShards (byShard : AList fun _ : Int => AList fun _ : Str => Str) : Prop :=
  byShard.entries ≠ [] ∧ Every (fun _ data => AllWords data) byShard

/-- The containers of a server that can be written down. -/
structure Writable (kv : ShardKv) : Prop where
  database : AllWords kv.database
  toOutShards : Every (fun _ => WordShards) kv.toOutShards
  garbages : Every (fun _ shards => shards ≠ []) kv.garbages
  shards : kv.config.shards ≠ []
  groups : Named kv.config.groups

variable {database data : AList fun _ : Str => Str}
  {byShard : AList fun _ : Int => AList fun _ : Str => Str}

theorem uses_dataRow (words : AllWords data) :
    ∀ r ∈ data.entries.map dataRow, Uses [' '] r := by
  intro r member
  obtain ⟨e, inside, rfl⟩ := List.mem_map.mp member
  exact Uses.row (words.mem inside).1.uses (words.mem inside).2.uses

theorem uses_numberRow (numbers : AList fun _ : Int => Int) :
    ∀ r ∈ numbers.entries.map numberRow, Uses [' '] r := by
  intro r member
  obtain ⟨e, -, rfl⟩ := List.mem_map.mp member
  exact Uses.row (word_decimal e.1).uses (word_decimal e.2).uses

theorem uses_decimal (zs : List Int) : ∀ r ∈ zs.map decimal, Uses [] r := by
  intro r member
  obtain ⟨z, -, rfl⟩ := List.mem_map.mp member
  exact (word_decimal z).uses

theorem uses_shardRow (words : Every (fun _ data => AllWords data) byShard) :
    ∀ r ∈ byShard.entries.map shardRow, Uses [',', '.', ' '] r := by
  intro r member
  obtain ⟨e, inside, rfl⟩ := List.mem_map.mp member
  exact Uses.row (word_decimal e.1).uses (Uses.ended (uses_dataRow (words.mem inside)))

variable {kv t : ShardKv}

theorem Writable.uses_cfgRow (writable : kv.Writable) :
    ∀ r ∈ kv.toOutShards.entries.map cfgRow, Uses [':', '/', ',', '.', ' '] r := by
  intro r member
  obtain ⟨e, inside, rfl⟩ := List.mem_map.mp member
  exact Uses.row (word_decimal e.1).uses
    (Uses.ended (uses_shardRow (writable.toOutShards.mem inside).2))

theorem uses_garbageRow (garbages : AList fun _ : Int => List Int) :
    ∀ r ∈ garbages.entries.map garbageRow, Uses [':', '.'] r := by
  intro r member
  obtain ⟨e, -, rfl⟩ := List.mem_map.mp member
  exact Uses.row (word_decimal e.1).uses (Uses.ended (uses_decimal e.2))

theorem Writable.containers_clean (writable : kv.Writable) :
    ∀ w ∈ kv.containers, w ≠ [] ∧ ';' ∉ w := by
  intro w member
  simp only [containers, List.mem_cons, List.not_mem_nil, or_false] at member
  rcases member with rfl | rfl | rfl | rfl | rfl | rfl <;> refine ⟨sectionText_ne_nil, ?_⟩
  · exact (Uses.sectionText (uses_dataRow writable.database)).notMem (by decide) (by decide)
  · exact (Uses.sectionText (uses_numberRow _)).notMem (by decide) (by decide)
  · exact (Uses.sectionText (uses_numberRow _)).notMem (by decide) (by decide)
  · exact (Uses.sectionText writable.uses_cfgRow).notMem (by decide) (by decide)
  · exact (Uses.sectionText (uses_decimal _)).notMem (by decide) (by decide)
  · exact (Uses.sectionText (uses_garbageRow _)).notMem (by decide) (by decide)

/-! ### Rows read back -/

section
variable {α β γ : Type} {l : List α} {f : α → Str} {read : Str → Option γ} {h : α → γ}
  {clear own : β} {write : β → List γ → β}

theorem sectionText_ne_empty (some : rows ≠ []) (mark : sep ∉ empty) :
    sectionText sep rows ≠ empty := by
  rw [sectionText, if_neg some]
  exact ended_ne_empty some mark

theorem readSection_sectionText (words : ∀ r ∈ l.map f, r ≠ [] ∧ sep ∉ r) (mark : sep ∉ empty) :
    readSection sep read clear write own (sectionText sep (l.map f)) =
      if l = [] then some clear else ((l.map f).mapM read).map (write own) := by
  by_cases none : l = []
  · rw [none, if_pos rfl]
    rfl
  · have some : l.map f ≠ [] := fun nothing => none (List.map_eq_nil_iff.mp nothing)
    rw [readSection, if_neg (sectionText_ne_empty some mark), sectionText, if_neg some,
      fields_ended _ words, if_neg none]

theorem readSection_reads (words : ∀ r ∈ l.map f, r ≠ [] ∧ sep ∉ r) (mark : sep ∉ empty)
    (reads : ∀ a ∈ l, read (f a) = some (h a)) :
    readSection sep read clear write own (sectionText sep (l.map f)) =
      some (if l = [] then clear else write own (l.map h)) := by
  rw [readSection_sectionText words mark, mapM_map_some l reads]
  split <;> rfl

end

theorem words_of_uses {α : Type} {l : List α} {f : α → Str} (uses : ∀ r ∈ l.map f, Uses seps r)
    (some : ∀ a, f a ≠ []) (member : c ∈ separators) (other : c ∉ seps) :
    ∀ r ∈ l.map f, r ≠ [] ∧ c ∉ r := by
  intro r inside
  refine ⟨?_, (uses r inside).notMem member other⟩
  obtain ⟨a, -, rfl⟩ := List.mem_map.mp inside
  exact some a

def pairRows {α β : Type} (m : AList fun _ : α => β) : List (α × β) :=
  m.entries.map fun e => (e.1, e.2)

def shardRows (byShard : AList fun _ : Int => AList fun _ : Str => Str) :
    List (Int × List (Str × Str)) := byShard.entries.map fun e => (e.1, pairRows e.2)

def cfgRows (toOut : AList fun _ : Int => AList fun _ : Int => AList fun _ : Str => Str) :
    List (Int × List (Int × List (Str × Str))) := toOut.entries.map fun e => (e.1, shardRows e.2)

theorem alike_writeMap {α β : Type} [DecidableEq α] [Inhabited β] (own n : AList fun _ : α => β) :
    Alike Eq (writeMap own (pairRows n)) n ↔ KeysIn own n := by
  have write : writeMap own (pairRows n) =
      overlay (fun _ value => value) default own (n.entries.map fun e => (e.1, id e.2)) := rfl
  rw [write]
  exact alike_overlay (fun x y => iff_of_true rfl trivial) fun _ => trivial

theorem readNumbers_numberRow (e : Sigma fun _ : Int => Int) :
    readNumbers (numberRow e) = some (e.1, e.2) := by
  have blank : ' ' ∉ decimal e.1 := (word_decimal e.1).2 ' ' (by decide)
  rw [readNumbers, numberRow, row, cutAt_sep blank]
  simp

theorem readGarbage_garbageRow (e : Sigma fun _ : Int => List Int) :
    readGarbage (garbageRow e) = some (e.1, e.2) := by
  have colon : ':' ∉ decimal e.1 := (word_decimal e.1).2 ':' (by decide)
  have words := words_of_uses (uses_decimal e.2) decimal_ne_nil (c := '.') (by decide) (by decide)
  rw [readGarbage, garbageRow, row, cutAt_sep colon]
  simp [fields_ended _ words, mapM_map e.2 fun z _ => stoi_decimal z]

theorem mapM_dataRow (words : AllWords data) :
    (data.entries.map dataRow).mapM (cutAt ' ') = some (pairRows data) :=
  mapM_map_some _ fun e inside => cutAt_sep ((words.mem inside).1.2 ' ' (by decide))

theorem dataRow_ne_nil (e : Sigma fun _ : Str => Str) : dataRow e ≠ [] := row_ne_nil _ _ _

theorem fields_dataRow (words : AllWords data) :
    fields '.' (ended '.' (data.entries.map dataRow)) = data.entries.map dataRow :=
  fields_ended _ (words_of_uses (uses_dataRow words) dataRow_ne_nil (by decide) (by decide))

theorem readShard_shardRow {e : Sigma fun _ : Int => AList fun _ : Str => Str}
    (words : AllWords e.2) :
    readShard (shardRow e) = if e.2.entries = [] then none else some (e.1, pairRows e.2) := by
  have number := word_decimal e.1
  rw [readShard, shardRow, row, fields_sep number.1 (number.2 ',' (by decide))]
  by_cases nothing : e.2.entries = []
  · rw [if_pos nothing, nothing]
    rfl
  · have some : e.2.entries.map dataRow ≠ [] := fun none => nothing (List.map_eq_nil_iff.mp none)
    have clean : ',' ∉ ended '.' (e.2.entries.map dataRow) :=
      (Uses.ended (uses_dataRow words)).notMem (by decide) (by decide)
    rw [fields_clean (ended_ne_nil some) clean, if_neg nothing]
    simp [fields_dataRow words, mapM_dataRow words]

theorem shardRow_ne_nil (e : Sigma fun _ : Int => AList fun _ : Str => Str) : shardRow e ≠ [] :=
  row_ne_nil _ _ _

theorem readCfg_cfgRow
    {e : Sigma fun _ : Int => AList fun _ : Int => AList fun _ : Str => Str}
    (some_ : e.2.entries ≠ []) (words : Every (fun _ data => AllWords data) e.2) :
    ((∀ shardDB ∈ e.2.entries, shardDB.2.entries ≠ []) →
      readCfg (cfgRow e) = some (e.1, shardRows e.2)) ∧
    ((∃ shardDB ∈ e.2.entries, shardDB.2.entries = []) → readCfg (cfgRow e) = none) := by
  have number := word_decimal e.1
  have uses := uses_shardRow words
  have rows : e.2.entries.map shardRow ≠ [] := fun none => some_ (List.map_eq_nil_iff.mp none)
  have colon : ':' ∉ ended '/' (e.2.entries.map shardRow) :=
    (Uses.ended uses).notMem (by decide) (by decide)
  have slash := words_of_uses uses shardRow_ne_nil (c := '/') (by decide) (by decide)
  have read : readCfg (cfgRow e) =
      ((e.2.entries.map shardRow).mapM readShard).map fun shardData => (e.1, shardData) := by
    rw [readCfg, cfgRow, row, fields_sep number.1 (number.2 ':' (by decide)),
      fields_clean (ended_ne_nil rows) colon]
    simp [fields_ended _ slash]
  rw [read]
  constructor
  · intro full
    have reads : ∀ shardDB ∈ e.2.entries,
        readShard (shardRow shardDB) = some (shardDB.1, pairRows shardDB.2) := by
      intro shardDB inside
      rw [readShard_shardRow (words.mem inside), if_neg (full shardDB inside)]
    rw [mapM_map_some _ reads]
    rfl
  · rintro ⟨shardDB, inside, nothing⟩
    have stops : readShard (shardRow shardDB) = none := by
      rw [readShard_shardRow (words.mem inside), if_pos nothing]
    rw [mapM_eq_none (List.mem_map_of_mem inside) stops]
    rfl

/-! ### The configuration -/

def groupText (group : Sigma fun _ : Int => List Str) : Str := ended ':' (decimal group.1 :: group.2)

/-- The parts of the text of a configuration: its numbers and its groups. -/
def numberTexts (config : Config) : List Str :=
  [decimal config.configNum, ended ':' (config.shards.map decimal)]

def groupsText (config : Config) : Str := ended '|' (config.groups.entries.map groupText)

def PlainNames (config : Config) : Prop :=
  ∀ group ∈ config.groups.entries, ∀ name ∈ group.2, ';' ∉ name

def SameConfig (c config : Config) : Prop :=
  c.configNum = config.configNum ∧ c.shards = config.shards ∧
    ∀ gid, c.groups.lookup gid = config.groups.lookup gid

variable {config : Config}

theorem getString_parts (config : Config) :
    getStringFromConfig config =
      ended '/' (numberTexts config) ++ (groupsText config ++ ['/']) := by
  have fields_ : getStringFromConfig config = ended '/' [decimal config.configNum,
      ended ':' (config.shards.map decimal), groupsText config] := rfl
  simp only [fields_, numberTexts, ended_cons, ended_nil, List.append_assoc, List.cons_append,
    List.nil_append]

theorem numberTexts_words (sized : config.shards ≠ []) (member : c ∈ separators)
    (colon : c ≠ ':') : ∀ w ∈ numberTexts config, w ≠ [] ∧ c ∉ w := by
  intro w inside
  rcases List.mem_cons.mp inside with rfl | inside
  · exact ⟨decimal_ne_nil _, (word_decimal _).2 c member⟩
  · cases List.mem_singleton.mp inside
    refine ⟨ended_ne_nil fun none => sized (List.map_eq_nil_iff.mp none), ?_⟩
    exact notMem_ended colon fun w there => (uses_decimal _ w there).notMem member List.not_mem_nil

theorem mem_groupsText (member : c ∈ separators) (bar : c ≠ '|') (colon : c ≠ ':') :
    c ∈ groupsText config ↔ ∃ group ∈ config.groups.entries, ∃ name ∈ group.2, c ∈ name := by
  constructor
  · intro inside
    by_contra none
    refine notMem_ended bar (fun w there => ?_) inside
    obtain ⟨group, here, rfl⟩ := List.mem_map.mp there
    refine notMem_ended colon fun name listed => ?_
    cases List.mem_cons.mp listed with
    | inl number => exact number ▸ (word_decimal group.1).2 c member
    | inr name_ => exact fun holds => none ⟨group, here, name, name_, holds⟩
  · rintro ⟨group, here, name, listed, holds⟩
    refine List.mem_flatMap.mpr ⟨groupText group, List.mem_map_of_mem here, ?_⟩
    refine List.mem_append_left _ (List.mem_flatMap.mpr ⟨name, List.mem_cons_of_mem _ listed, ?_⟩)
    exact List.mem_append_left _ holds

theorem Named.noSlash (named : Named config.groups) : '/' ∉ groupsText config := by
  rw [mem_groupsText (by decide) (by decide) (by decide)]
  rintro ⟨group, inside, name, listed, bad⟩
  exact (named.mem inside name listed).2.2.2 bad

theorem getMap_groupsText (named : Named config.groups) :
    ∃ m, getMap (groupsText config) = some m ∧
      ∀ gid, m.lookup gid = config.groups.lookup gid := by
  have words : ∀ w ∈ config.groups.entries.map groupText, w ≠ [] ∧ '|' ∉ w := by
    intro w member
    obtain ⟨group, inside, rfl⟩ := List.mem_map.mp member
    refine ⟨ended_ne_nil (List.cons_ne_nil _ _), notMem_ended (by decide) fun name there => ?_⟩
    cases List.mem_cons.mp there with
    | inl number => exact number ▸ (word_decimal group.1).2 '|' (by decide)
    | inr name_ => exact (named.mem inside name name_).2.2.1
  have names : ∀ group ∈ config.groups.entries, ∀ w ∈ decimal group.1 :: group.2,
      w ≠ [] ∧ ':' ∉ w := by
    intro group inside w there
    cases List.mem_cons.mp there with
    | inl number => exact number ▸ ⟨decimal_ne_nil _, (word_decimal group.1).2 ':' (by decide)⟩
    | inr name_ => exact ⟨(named.mem inside w name_).1, (named.mem inside w name_).2.1⟩
  have left : ∀ s ∈ config.groups.entries.map groupText, rest ':' s = [] := by
    intro s member
    obtain ⟨group, inside, rfl⟩ := List.mem_map.mp member
    exact rest_all_ended _ fun w there => (names group inside w there).2
  have reads : ∀ group ∈ config.groups.entries,
      groupOf (pieces ':' (groupText group)) = some (group.1, group.2) := by
    intro group inside
    rw [groupText, pieces_all_ended _ (names group inside), groupOf, stoi_decimal]
    rfl
  have read : ((config.groups.entries.map groupText).map (pieces ':')).mapM groupOf =
      some (pairRows config.groups) := by
    rw [List.map_map]
    exact mapM_map_some _ reads
  refine ⟨writeMap ∅ (pairRows config.groups), ?_, fun gid => ?_⟩
  · rw [getMap, groupsText, pieces_all_ended _ words, serverNames_pieces _ left, read]
    rfl
  · exact alike_eq.mp ((alike_writeMap ∅ config.groups).mpr covered_empty) gid

theorem getConfig_whole (sized : config.shards ≠ []) (named : Named config.groups) :
    ∃ c, getConfig (getStringFromConfig config) = some c ∧ SameConfig c config := by
  have parts : pieces '/' (getStringFromConfig config) =
      numberTexts config ++ pieces '/' (groupsText config ++ ['/']) := by
    rw [getString_parts, pieces_ended _ (numberTexts_words sized (by decide) (by decide))]
  by_cases none : config.groups.entries = []
  · refine ⟨⟨config.configNum, config.shards, ∅⟩, ?_, rfl, rfl, fun gid => ?_⟩
    · rw [getConfig, parts, numberTexts, groupsText, none]
      simp [getVectorOfInt_decimal]
    · have nothing : config.groups = ∅ := AList.ext none
      rw [nothing]
  · obtain ⟨m, read, same⟩ := getMap_groupsText named
    have rows : config.groups.entries.map groupText ≠ [] :=
      fun nothing => none (List.map_eq_nil_iff.mp nothing)
    have some : groupsText config ≠ [] := ended_ne_nil rows
    have last : pieces '/' (groupsText config ++ ['/']) = [groupsText config] := by
      rw [pieces_sep some named.noSlash, pieces_nil]
    refine ⟨⟨config.configNum, config.shards, m⟩, ?_, rfl, rfl, same⟩
    rw [getConfig, parts, last, numberTexts]
    simp [getVectorOfInt_decimal, read]

theorem getConfig_cut (sized : config.shards ≠ []) (clean : '/' ∉ text) :
    getConfig (ended '/' (numberTexts config) ++ text) =
      some ⟨config.configNum, config.shards, ∅⟩ := by
  rw [getConfig, pieces_ended _ (numberTexts_words sized (by decide) (by decide)),
    pieces_clean clean, numberTexts]
  simp [getVectorOfInt_decimal]

theorem fields_config (sized : config.shards ≠ []) (named : Named config.groups) :
    ∃ text more c, fields ';' (getStringFromConfig config ++ [';']) = text :: more ∧
      getConfig text = some c ∧ (SameConfig c config ↔ PlainNames config) := by
  have semicolon : ';' ∉ ended '/' (numberTexts config) :=
    notMem_ended (by decide) fun w member =>
      (numberTexts_words sized (by decide) (by decide) w member).2
  have front : ended '/' (numberTexts config) ≠ [] := ended_ne_nil (List.cons_ne_nil _ _)
  have plain : PlainNames config ↔ ';' ∉ groupsText config := by
    rw [mem_groupsText (by decide) (by decide) (by decide)]
    simp only [PlainNames, not_exists, not_and]
  cases split_first ';' (groupsText config) with
  | inl clean =>
    obtain ⟨c, read, same⟩ := getConfig_whole sized named
    have whole : ';' ∉ getStringFromConfig config := by
      rw [getString_parts, List.mem_append, List.mem_append, not_or, not_or]
      exact ⟨semicolon, clean, by decide⟩
    have some : getStringFromConfig config ≠ [] := by
      rw [getString_parts]
      exact List.append_ne_nil_of_left_ne_nil front _
    exact ⟨_, _, c, fields_sep (t := []) some whole, read, iff_of_true same (plain.mpr clean)⟩
  | inr cut =>
    -- the cut is in the groups, so the reader has none of them
    obtain ⟨w, u, split, before⟩ := cut
    have head : getStringFromConfig config ++ [';'] =
        (ended '/' (numberTexts config) ++ w) ++ ';' :: (u ++ ['/', ';']) := by
      rw [getString_parts, split]
      simp
    have inside : ';' ∈ groupsText config := split ▸ List.mem_append_right _ List.mem_cons_self
    have noSlash : '/' ∉ w := by
      have all := named.noSlash
      rw [split, List.mem_append, not_or] at all
      exact all.1
    have clean : ';' ∉ ended '/' (numberTexts config) ++ w := by
      rw [List.mem_append, not_or]
      exact ⟨semicolon, before⟩
    have first : fields ';' (getStringFromConfig config ++ [';']) =
        (ended '/' (numberTexts config) ++ w) :: fields ';' (u ++ ['/', ';']) := by
      rw [head, fields_sep (List.append_ne_nil_of_left_ne_nil front _) clean]
    refine ⟨_, _, _, first, getConfig_cut sized noSlash, iff_of_false (fun same => ?_)
      (fun h => plain.mp h inside)⟩
    obtain ⟨group, here, -⟩ := (mem_groupsText (by decide) (by decide) (by decide)).mp inside
    have found := same.2.2 group.1
    rw [AList.mem_lookup_iff.mpr here] at found
    cases found

/-! ### Containers read back -/

variable {toOut own : AList fun _ : Int => AList fun _ : Int => AList fun _ : Str => Str}

theorem read_database (words : AllWords database) (own : AList fun _ : Str => Str) :
    readSection '.' (cutAt ' ') ∅ writeMap own (sectionText '.' (database.entries.map dataRow)) =
      some (if database.entries = [] then ∅ else writeMap own (pairRows database)) :=
  readSection_reads (words_of_uses (uses_dataRow words) dataRow_ne_nil (by decide) (by decide))
    (by decide) fun e inside => cutAt_sep ((words.mem inside).1.2 ' ' (by decide))

theorem read_numbers (numbers own : AList fun _ : Int => Int) :
    readSection '.' readNumbers ∅ writeMap own (sectionText '.' (numbers.entries.map numberRow)) =
      some (if numbers.entries = [] then ∅ else writeMap own (pairRows numbers)) :=
  readSection_reads (words_of_uses (uses_numberRow numbers) (fun e => row_ne_nil _ _ _) (by decide)
    (by decide)) (by decide) fun e _ => readNumbers_numberRow e

theorem read_shards (shards own : List Int) :
    readSection '.' stoi [] writeShards own (sectionText '.' (shards.map decimal)) =
      some (if shards = [] then [] else writeShards own shards) := by
  have read : readSection '.' stoi [] writeShards own (sectionText '.' (shards.map decimal)) =
      some (if shards = [] then [] else writeShards own (shards.map id)) :=
    readSection_reads (words_of_uses (uses_decimal shards) decimal_ne_nil (by decide) (by decide))
      (by decide) fun z _ => stoi_decimal z
  rwa [List.map_id] at read

theorem read_garbages (garbages own : AList fun _ : Int => List Int) :
    readSection '|' readGarbage ∅ writeGarbages own
        (sectionText '|' (garbages.entries.map garbageRow)) =
      some (if garbages.entries = [] then ∅ else writeGarbages own (pairRows garbages)) :=
  readSection_reads (words_of_uses (uses_garbageRow garbages) (fun e => row_ne_nil _ _ _) (by decide)
    (by decide)) (by decide) fun e _ => readGarbage_garbageRow e

def Moved (toOut : AList fun _ : Int => AList fun _ : Int => AList fun _ : Str => Str) : Prop :=
  ∀ cfg ∈ toOut.entries, ∀ shardDB ∈ cfg.2.entries, shardDB.2.entries ≠ []

theorem Writable.words_cfgRow (writable : kv.Writable) :
    ∀ r ∈ kv.toOutShards.entries.map cfgRow, r ≠ [] ∧ '|' ∉ r :=
  words_of_uses writable.uses_cfgRow (fun e => row_ne_nil _ _ _) (by decide) (by decide)

theorem Writable.read_toOut (writable : kv.Writable) (moved : Moved kv.toOutShards)
    (own : AList fun _ : Int => AList fun _ : Int => AList fun _ : Str => Str) :
    readSection '|' readCfg ∅ writeToOut own (sectionText '|' (kv.toOutShards.entries.map cfgRow)) =
      some (if kv.toOutShards.entries = [] then ∅ else writeToOut own (cfgRows kv.toOutShards)) :=
  readSection_reads writable.words_cfgRow (by decide) fun cfg inside =>
    (readCfg_cfgRow (writable.toOutShards.mem inside).1 (writable.toOutShards.mem inside).2).1
      (moved cfg inside)

theorem Writable.read_toOut_none (writable : kv.Writable) (moved : ¬ Moved kv.toOutShards)
    (own : AList fun _ : Int => AList fun _ : Int => AList fun _ : Str => Str) :
    readSection '|' readCfg ∅ writeToOut own (sectionText '|' (kv.toOutShards.entries.map cfgRow)) =
      none := by
  simp only [Moved, not_forall, not_not] at moved
  obtain ⟨cfg, inside, shardDB, there, nothing⟩ := moved
  have some : kv.toOutShards.entries ≠ [] := List.ne_nil_of_mem inside
  have stops : readCfg (cfgRow cfg) = none :=
    (readCfg_cfgRow (writable.toOutShards.mem inside).1 (writable.toOutShards.mem inside).2).2
      ⟨shardDB, there, nothing⟩
  rw [readSection_sectionText writable.words_cfgRow (by decide), if_neg some,
    mapM_eq_none (List.mem_map_of_mem inside) stops]
  rfl

theorem recoverySnapShot_getSnapShot {s : ShardKv} (writable : s.Writable) (t : ShardKv) :
    (¬ Moved s.toOutShards → t.recoverySnapShot s.getSnapShot = none) ∧
    (Moved s.toOutShards → ∃ c, (SameConfig c s.config ↔ PlainNames s.config) ∧
      t.recoverySnapShot s.getSnapShot = some { t with
        database := if s.database.entries = [] then ∅ else writeMap t.database (pairRows s.database)
        clientSeqMap := if s.clientSeqMap.entries = [] then ∅
          else writeMap t.clientSeqMap (pairRows s.clientSeqMap)
        comeInShards := if s.comeInShards.entries = [] then ∅
          else writeMap t.comeInShards (pairRows s.comeInShards)
        toOutShards := if s.toOutShards.entries = [] then ∅
          else writeToOut t.toOutShards (cfgRows s.toOutShards)
        availableShards := if s.availableShards = [] then []
          else writeShards t.availableShards s.availableShards
        garbages := if s.garbages.entries = [] then ∅
          else writeGarbages t.garbages (pairRows s.garbages)
        config := c }) := by
  obtain ⟨text, more, c, first, read, same⟩ := fields_config writable.shards writable.groups
  have sections : fields ';' s.getSnapShot = s.containers ++ text :: more := by
    have snapShot : s.getSnapShot =
        ended ';' s.containers ++ (getStringFromConfig s.config ++ [';']) := by
      simp [getSnapShot, ended]
    rw [snapShot, fields_append _ writable.containers_clean, first]
  have database := read_database writable.database t.database
  have clientSeqMap := read_numbers s.clientSeqMap t.clientSeqMap
  have comeInShards := read_numbers s.comeInShards t.comeInShards
  have availableShards := read_shards s.availableShards t.availableShards
  have garbages := read_garbages s.garbages t.garbages
  rw [recoverySnapShot, sections]
  simp only [containers, List.cons_append, List.nil_append, database, clientSeqMap, comeInShards,
    availableShards, garbages, read, Option.bind_eq_bind, Option.bind_some, Option.pure_def]
  constructor
  · intro moved
    rw [writable.read_toOut_none moved]
    rfl
  · intro moved
    rw [writable.read_toOut moved]
    exact ⟨c, same, rfl⟩

/-! ### Written over what is there -/

theorem mem_writeShards {x : Int} (own shards : List Int) :
    x ∈ writeShards own shards ↔ x ∈ own ∨ x ∈ shards := by
  induction shards generalizing own with
  | nil => simp [writeShards]
  | cons shard shards ih =>
    rw [writeShards, List.foldl_cons, ← writeShards, ih, List.mem_insert_iff, List.mem_cons]
    tauto

theorem writeToOut_eq (own : AList fun _ : Int => AList fun _ : Int => AList fun _ : Str => Str)
    {cfgs : List (Int × List (Int × List (Str × Str)))}
    (full : ∀ cfg ∈ cfgs, cfg.2 ≠ [] ∧ ∀ shard ∈ cfg.2, shard.2 ≠ []) :
    writeToOut own cfgs = overlay (overlay writeMap ∅) ∅ own cfgs := by
  rw [writeToOut, overlay]
  refine List.foldl_ext _ _ _ fun m cfg inside => ?_
  obtain ⟨some, full⟩ := full cfg inside
  have shardLoop : ∀ m, ∀ shard ∈ cfg.2, shard.2.foldl (fun m data =>
        setToOut cfg.1 shard.1 ((outData m cfg.1 shard.1).insert data.1 data.2) m) m =
      m.insert cfg.1 (((m.lookup cfg.1).getD ∅).insert shard.1
        (writeMap ((((m.lookup cfg.1).getD ∅).lookup shard.1).getD ∅) shard.2)) := by
    intro m shard inside
    have outer := foldl_insert_key
      (fun (byShard : AList fun _ : Int => AList fun _ : Str => Str) (data : Str × Str) =>
        byShard.insert shard.1 (((byShard.lookup shard.1).getD ∅).insert data.1 data.2)) ∅
      (full shard inside) m cfg.1
    have inner := foldl_insert_key
      (fun (pairs : AList fun _ : Str => Str) (data : Str × Str) => pairs.insert data.1 data.2) ∅
      (full shard inside) ((m.lookup cfg.1).getD ∅) shard.1
    rw [inner] at outer
    exact outer
  rw [List.foldl_ext _ _ m shardLoop]
  exact foldl_insert_key (fun (byShard : AList fun _ : Int => AList fun _ : Str => Str) shard =>
    byShard.insert shard.1 (writeMap ((byShard.lookup shard.1).getD ∅) shard.2)) ∅ some m cfg.1

theorem writeGarbages_eq (own : AList fun _ : Int => List Int) {rows : List (Int × List Int)}
    (full : ∀ r ∈ rows, r.2 ≠ []) : writeGarbages own rows = overlay writeShards [] own rows := by
  rw [writeGarbages, overlay]
  exact List.foldl_ext _ _ _ fun m garbage inside =>
    foldl_insert_key (fun l (shard : Int) => l.insert shard) [] (full garbage inside) m garbage.1

/-! ### What a server holds -/

theorem mem_serverNames {texts : List Str} {tmp : Str} (colon : ':' ∉ tmp) :
    ∀ names ∈ serverNames texts tmp, ∀ w ∈ names, w ≠ [] ∧ ':' ∉ w ∧
      ∀ c, c ∉ tmp → (∀ s ∈ texts, c ∉ s) → c ∉ w := by
  induction texts generalizing tmp with
  | nil => exact fun names member => nomatch member
  | cons s texts ih =>
    have whole : scan ':' s tmp = scan ':' (tmp ++ s) [] := by
      rw [scan_append colon, List.nil_append]
    intro names member w there
    rw [serverNames] at member
    cases List.mem_cons.mp member with
    | inl here =>
      rw [here] at there
      have piece : w ∈ pieces ':' (tmp ++ s) := by rwa [pieces, ← whole]
      refine ⟨(mem_pieces piece).1, (mem_pieces piece).2, fun c before clean => ?_⟩
      exact (notMem_scan before (clean s List.mem_cons_self)).1 w there
    | inr later =>
      have left : ':' ∉ (scan ':' s tmp).2 := by
        rw [whole]
        exact notMem_rest
      obtain ⟨some, clean, others⟩ := ih left names later w there
      refine ⟨some, clean, fun c before clean => others c ?_ fun t member =>
        clean t (List.mem_cons_of_mem _ member)⟩
      exact (notMem_scan before (clean s List.mem_cons_self)).2

theorem named_of_getConfig {c : Config} (read : getConfig text = some c) : Named c.groups := by
  rw [getConfig] at read
  split at read
  · simp only [Option.bind_eq_some_iff, Option.map_eq_some_iff] at read
    obtain ⟨n, -, owners, -, rfl⟩ := read
    exact every_empty
  · rename_i num shards groups more parts
    simp only [getMap, Option.bind_eq_some_iff, Option.map_eq_some_iff] at read
    obtain ⟨n, -, owners, -, gs, ⟨rows, listed, rfl⟩, rfl⟩ := read
    have slash : '/' ∉ groups := by
      have piece : groups ∈ pieces '/' text := by simp [parts]
      exact (mem_pieces piece).2
    refine every_foldl every_empty fun r member name there => ?_
    obtain ⟨names, inside, group⟩ := mem_of_mapM listed member
    have name_ : name ∈ names := by
      cases names with
      | nil => cases group
      | cons gid servers =>
        obtain ⟨g, -, rfl⟩ := Option.map_eq_some_iff.mp group
        exact List.mem_cons_of_mem _ there
    obtain ⟨some, colon, others⟩ := mem_serverNames List.not_mem_nil names inside name name_
    have clean : ∀ c, c ∉ groups ∨ c = '|' → c ∉ name := by
      refine fun c plain => others c List.not_mem_nil fun s piece => ?_
      cases plain with
      | inl none => exact fun bad => none (pieces_subset piece bad)
      | inr bar => exact bar ▸ (mem_pieces piece).2
    exact ⟨some, colon, clean '|' (.inr rfl), clean '/' (.inl slash)⟩
  · cases read

variable {s : ShardKv} {operation : Operation} {index cfgNum shard : Int}

theorem entries_insert_ne_nil {α β : Type} [DecidableEq α] {m : AList fun _ : α => β} (a : α)
    (b : β) : (m.insert a b).entries ≠ [] := by
  rw [AList.entries_insert]
  exact List.cons_ne_nil _ _

theorem words_setToOut (words : Every (fun _ => WordShards) toOut) (new : AllWords data) :
    Every (fun _ => WordShards) (setToOut cfgNum shard data toOut) := by
  refine words.insert ⟨entries_insert_ne_nil _ _, Every.insert ?_ new⟩
  cases found : toOut.lookup cfgNum with
  | none => exact every_empty
  | some byShard => exact (words cfgNum byShard found).2

theorem words_takeShard (shard : Int) (words : AllWords database) :
    AllWords (takeShard shard database).1 ∧ AllWords (takeShard shard database).2 := by
  constructor
  · intro key value found
    rw [(lookup_takeShard shard database key).1, lookup_pairsOf] at found
    split at found
    · exact words key value found
    · cases found
  · intro key value found
    rw [(lookup_takeShard shard database key).2] at found
    split at found
    · cases found
    · exact words key value found

theorem words_moveShards {shards : List Int} (words : AllWords database)
    (out : Every (fun _ => WordShards) toOut) :
    AllWords (moveShards cfgNum shards database toOut).1 ∧
      Every (fun _ => WordShards) (moveShards cfgNum shards database toOut).2 := by
  induction shards generalizing database toOut with
  | nil => exact ⟨words, out⟩
  | cons shard shards ih =>
    obtain ⟨taken, left⟩ := words_takeShard shard words
    exact ih left (words_setToOut out taken)

theorem words_insertData (words : AllWords database) (new : AllWords data) :
    AllWords (insertData database data.entries) := by
  intro key value found
  rw [lookup_insertData data.nodupKeys] at found
  cases own : database.lookup key with
  | none =>
    rw [own, Option.none_or] at found
    exact new key value found
  | some old =>
    rw [own, Option.some_or, Option.some.injEq] at found
    exact words key value (found ▸ own)

namespace Writable

theorem update (writable : kv.Writable) {c : Config} (sized : c.shards ≠ [])
    (named : Named c.groups) : (kv.updateComeInAndOutShrads c).Writable := by
  rw [updateComeInAndOutShrads]
  split
  · exact writable
  · obtain ⟨database, toOut⟩ := words_moveShards writable.database writable.toOutShards
    exact ⟨database, toOut, writable.garbages, sized, named⟩

theorem updateDataBase (writable : kv.Writable) {reply : MigrateReply}
    (words : AllWords reply.database) : (kv.updateDataBaseWithMigrateReply reply).Writable := by
  rw [updateDataBaseWithMigrateReply]
  split
  · exact writable
  · have erased : ({ kv with comeInShards := kv.comeInShards.erase reply.shard } :
        ShardKv).Writable := { writable with }
    simp only
    split
    · exact erased
    · exact { writable with
        database := words_insertData writable.database words
        garbages := writable.garbages.insert
          (List.ne_nil_of_mem (List.mem_insert_self : reply.shard ∈ _)) }

theorem clearToOutData (writable : kv.Writable) (cfgNum shard : Int) :
    (kv.clearToOutData cfgNum shard).Writable := by
  rw [ShardKv.clearToOutData]
  split
  · exact writable
  · rename_i byShard found
    refine { writable with toOutShards := ?_ }
    have old := writable.toOutShards cfgNum byShard found
    simp only
    split
    · exact writable.toOutShards.erase cfgNum
    · rename_i left
      refine writable.toOutShards.insert ⟨fun none => left ?_, old.2.erase shard⟩
      exact List.map_eq_nil_iff.mpr none

theorem putAppend (writable : kv.Writable) (word : Word operation.key ∧ Word operation.value) :
    (kv.putAppendDatabase operation).Writable := by
  refine { writable with database := writable.database.insert ⟨word.1, ?_⟩ }
  split
  · cases found : kv.database.lookup operation.key with
    | none => exact word.2
    | some old => exact (writable.database _ _ found).2.append word.2
  · exact word.2

theorem touchToOut (writable : kv.Writable) (cfgNum shard : Int) :
    (kv.touchToOut cfgNum shard).1.Writable := by
  rw [ShardKv.touchToOut]
  split
  · exact writable
  · exact { writable with toOutShards := words_setToOut writable.toOutShards every_empty }

theorem shardMigration (writable : kv.Writable) (shard configNum : Int) :
    (kv.shardMigration shard configNum).1.Writable := by
  rw [ShardKv.shardMigration]
  split
  · exact writable
  · exact writable.touchToOut configNum shard

theorem dropGarbage (writable : kv.Writable) (configNum shard : Int) :
    (kv.dropGarbage configNum shard).Writable := by
  rw [ShardKv.dropGarbage]
  refine { writable with garbages := ?_ }
  split
  · exact writable.garbages.erase configNum
  · rename_i left
    exact writable.garbages.insert left

theorem of_forget (writable : kv.Writable) (same : s.forget = kv.forget) : s.Writable := by
  have shared : kv.forget.Writable := { writable with }
  rw [← same] at shared
  exact { shared with }

end Writable

/-- Puts and appends of words, configurations with shards, migrated shards with words. -/
def StorableCommand (operation : Operation) : Prop :=
  match operation.op with
  | .UC => ∀ config ∈ getConfig operation.value, config.shards ≠ []
  | .UD => ∀ reply ∈ str2MigrateReply operation.value,
      ∀ data ∈ reply.database.entries, Word data.1 ∧ Word data.2
  | .put => Word operation.key ∧ Word operation.value
  | .append => Word operation.key ∧ Word operation.value
  | _ => True

instance (operation : Operation) : Decidable (StorableCommand operation) := by
  unfold StorableCommand
  rcases operation.op <;> infer_instance

theorem Writable.applyLoop (writable : kv.Writable) (storable : StorableCommand operation)
    (run : kv.applyLoop operation index = some s) : s.Writable := by
  obtain ⟨t, command, same⟩ := applyCommand_of_applyLoop run
  refine Writable.of_forget ?_ same
  have recorded : (kv.numbered operation index).Writable := { writable with }
  rw [applyCommand] at command
  rw [StorableCommand] at storable
  cases op : operation.op with
  | UC =>
    simp only [op] at command storable
    obtain ⟨config, read, rfl⟩ := Option.map_eq_some_iff.mp command
    exact writable.update (storable config read) (named_of_getConfig read)
  | UD =>
    simp only [op] at command storable
    obtain ⟨reply, read, rfl⟩ := Option.map_eq_some_iff.mp command
    exact writable.updateDataBase fun key value found =>
      storable reply read ⟨key, value⟩ (AList.mem_lookup_iff.mp found)
  | GC =>
    simp only [op] at command
    obtain ⟨cfgNum, -, rfl⟩ := Option.map_eq_some_iff.mp command
    exact recorded.clearToOutData cfgNum operation.requestId
  | get =>
    simp only [op, Option.some.injEq] at command
    have reads : ¬ kv.executes operation := by simp [executes, op]
    rw [if_neg reads] at command
    exact command ▸ recorded
  | put =>
    simp only [op, Option.some.injEq] at command storable
    rw [← command]
    split
    · exact recorded.putAppend storable
    · exact recorded
  | append =>
    simp only [op, Option.some.injEq] at command storable
    rw [← command]
    split
    · exact recorded.putAppend storable
    · exact recorded

/-! ### Runs of a server -/

/-- What a server does under its lock: it applies committed commands, its handlers wait for
them, it hands shards to other groups, and it drops collected garbage. -/
inductive Event where
  | command (operation : Operation) (index : Int)
  | await (index : Int) (context : OpContext)
  | erase (index : Int)
  | migrate (shard configNum : Int)
  | collected (configNum shard : Int)

def step (kv : ShardKv) : Event → Option ShardKv
  | .command operation index => kv.applyLoop operation index
  | .await index context => some { kv with requestMap := kv.requestMap.insert index context }
  | .erase index => some { kv with requestMap := kv.requestMap.erase index }
  | .migrate shard configNum => some (kv.shardMigration shard configNum).1
  | .collected configNum shard => some (kv.dropGarbage configNum shard)

def machine (groupId : Int) : Machine ShardKv Event := ⟨fun kv => kv = start groupId, step⟩

def Storable : Event → Prop
  | .command operation _ => StorableCommand operation
  | _ => True

instance (event : Event) : Decidable (Storable event) := by
  unfold Storable
  split <;> infer_instance

variable {groupId : Int}

theorem writable_start (groupId : Int) : (start groupId).Writable :=
  ⟨every_empty, every_empty, every_empty, List.cons_ne_nil _ _, every_empty⟩

theorem Writable.step {event : Event} (writable : kv.Writable) (storable : Storable event)
    (next : kv.step event = some s) : s.Writable := by
  cases event with
  | command operation index => exact writable.applyLoop storable next
  | await index context =>
    cases next
    exact { writable with }
  | erase index =>
    cases next
    exact { writable with }
  | migrate shard configNum =>
    cases next
    exact writable.shardMigration shard configNum
  | collected configNum shard =>
    cases next
    exact writable.dropGarbage configNum shard

theorem writable (reach : Reach (machine groupId) (fun _ => Storable) s) : s.Writable := by
  refine reach.invariant (fun s init => ?_) fun _ _ _ writable storable next =>
    writable.step storable next
  cases init
  exact writable_start groupId

/-! ### Installing a snapshot -/

def SameShards (l l' : List Int) : Prop := ∀ shard, shard ∈ l ↔ shard ∈ l'

/-- Two servers with the same containers and configuration; maps and sets are compared by
what they hold. -/
structure Same (u s : ShardKv) : Prop where
  database : Alike Eq u.database s.database
  clientSeqMap : Alike Eq u.clientSeqMap s.clientSeqMap
  comeInShards : Alike Eq u.comeInShards s.comeInShards
  toOutShards : Alike (Alike (Alike Eq)) u.toOutShards s.toOutShards
  availableShards : SameShards u.availableShards s.availableShards
  garbages : Alike SameShards u.garbages s.garbages
  config : SameConfig u.config s.config

/-- A replica in state `t` that reads the snapshot of `s` holds what `s` holds. -/
def Installs (t s : ShardKv) : Prop :=
  ∃ u, t.recoverySnapShot s.getSnapShot = some u ∧ u.Same s

/-- Every shard that `s` moved out has pairs, no server name holds the separator, and `t` has
no key that `s` does not have, except in containers that `s` sends as `empty`. -/
structure Fits (t s : ShardKv) : Prop where
  moved : Moved s.toOutShards
  names : PlainNames s.config
  database : s.database.entries = [] ∨ KeysIn t.database s.database
  clientSeqMap : s.clientSeqMap.entries = [] ∨ KeysIn t.clientSeqMap s.clientSeqMap
  comeInShards : s.comeInShards.entries = [] ∨ KeysIn t.comeInShards s.comeInShards
  toOutShards : s.toOutShards.entries = [] ∨
    Covered (Covered KeysIn) t.toOutShards s.toOutShards
  availableShards : s.availableShards = [] ∨ t.availableShards ⊆ s.availableShards
  garbages : s.garbages.entries = [] ∨ Covered (fun l l' => l ⊆ l') t.garbages s.garbages

instance : DecidablePred Moved := fun toOut => by
  unfold Moved
  infer_instance

instance : DecidablePred PlainNames := fun config => by
  unfold PlainNames
  infer_instance

instance (t s : ShardKv) : Decidable (Fits t s) :=
  decidable_of_iff (Moved s.toOutShards ∧ PlainNames s.config ∧
    (s.database.entries = [] ∨ KeysIn t.database s.database) ∧
    (s.clientSeqMap.entries = [] ∨ KeysIn t.clientSeqMap s.clientSeqMap) ∧
    (s.comeInShards.entries = [] ∨ KeysIn t.comeInShards s.comeInShards) ∧
    (s.toOutShards.entries = [] ∨ Covered (Covered KeysIn) t.toOutShards s.toOutShards) ∧
    (s.availableShards = [] ∨ t.availableShards ⊆ s.availableShards) ∧
    (s.garbages.entries = [] ∨ Covered (fun l l' => l ⊆ l') t.garbages s.garbages))
    ⟨fun ⟨a, b, c, d, e, f, g, h⟩ => ⟨a, b, c, d, e, f, g, h⟩,
      fun ⟨a, b, c, d, e, f, g, h⟩ => ⟨a, b, c, d, e, f, g, h⟩⟩

theorem alike_section {α β : Type} [DecidableEq α] {same : β → β → Prop} {covers : Prop}
    {n written : AList fun _ : α => β} (writes : Alike same written n ↔ covers) :
    Alike same (if n.entries = [] then ∅ else written) n ↔ n.entries = [] ∨ covers := by
  by_cases none : n.entries = []
  · have nothing : n = ∅ := AList.ext none
    rw [if_pos none, nothing]
    exact iff_of_true (fun _ => .none) (.inl rfl)
  · rw [if_neg none, writes, or_iff_right none]

theorem sameShards_writeShards (own shards : List Int) :
    SameShards (writeShards own shards) shards ↔ own ⊆ shards := by
  constructor
  · exact fun same x inside => (same x).mp ((mem_writeShards own shards).mpr (.inl inside))
  · intro sub x
    rw [mem_writeShards]
    exact ⟨fun h => h.elim (fun inside => sub inside) id, .inr⟩

theorem sameShards_section (own shards : List Int) :
    SameShards (if shards = [] then [] else writeShards own shards) shards ↔
      shards = [] ∨ own ⊆ shards := by
  by_cases none : shards = []
  · rw [if_pos none, none]
    exact iff_of_true (fun _ => Iff.rfl) (.inl rfl)
  · rw [if_neg none, sameShards_writeShards, or_iff_right none]

theorem alike_toOut (writable : s.Writable) (moved : Moved s.toOutShards)
    (own : AList fun _ : Int => AList fun _ : Int => AList fun _ : Str => Str) :
    Alike (Alike (Alike Eq)) (writeToOut own (cfgRows s.toOutShards)) s.toOutShards ↔
      Covered (Covered KeysIn) own s.toOutShards := by
  have full : ∀ cfg ∈ cfgRows s.toOutShards, cfg.2 ≠ [] ∧ ∀ shard ∈ cfg.2, shard.2 ≠ [] := by
    intro cfg member
    obtain ⟨e, inside, rfl⟩ := List.mem_map.mp member
    refine ⟨fun none => (writable.toOutShards.mem inside).1 (List.map_eq_nil_iff.mp none), ?_⟩
    intro shard there
    obtain ⟨shardDB, listed, rfl⟩ := List.mem_map.mp there
    exact fun none => moved e inside shardDB listed (List.map_eq_nil_iff.mp none)
  rw [writeToOut_eq own full]
  refine alike_overlay (fun byShard rows => ?_) fun _ => covered_empty
  exact alike_overlay (fun pairs rows => alike_writeMap pairs rows) fun _ => covered_empty

theorem alike_garbages (writable : s.Writable) (own : AList fun _ : Int => List Int) :
    Alike SameShards (writeGarbages own (pairRows s.garbages)) s.garbages ↔
      Covered (fun l l' => l ⊆ l') own s.garbages := by
  have full : ∀ r ∈ pairRows s.garbages, r.2 ≠ [] := by
    intro r member
    obtain ⟨e, inside, rfl⟩ := List.mem_map.mp member
    exact writable.garbages.mem inside
  rw [writeGarbages_eq own full]
  exact alike_overlay (fun l shards => sameShards_writeShards l shards) fun _ => List.nil_subset _

/-- The snapshot of a server can be installed exactly in the states that fit. -/
theorem installs_iff (reach : Reach (machine groupId) (fun _ => Storable) s) (t : ShardKv) :
    Installs t s ↔ Fits t s := by
  have writable := writable reach
  obtain ⟨stops, reads⟩ := recoverySnapShot_getSnapShot writable t
  by_cases moved : Moved s.toOutShards
  · obtain ⟨c, config, read⟩ := reads moved
    have database := alike_section (alike_writeMap t.database s.database)
    have clientSeqMap := alike_section (alike_writeMap t.clientSeqMap s.clientSeqMap)
    have comeInShards := alike_section (alike_writeMap t.comeInShards s.comeInShards)
    have toOutShards := alike_section (alike_toOut writable moved t.toOutShards)
    have availableShards := sameShards_section t.availableShards s.availableShards
    have garbages := alike_section (alike_garbages writable t.garbages)
    constructor
    · rintro ⟨u, read', same⟩
      rw [read, Option.some.injEq] at read'
      subst read'
      exact ⟨moved, config.mp same.config, database.mp same.database,
        clientSeqMap.mp same.clientSeqMap, comeInShards.mp same.comeInShards,
        toOutShards.mp same.toOutShards, availableShards.mp same.availableShards,
        garbages.mp same.garbages⟩
    · intro fits
      exact ⟨_, read, ⟨database.mpr fits.database, clientSeqMap.mpr fits.clientSeqMap,
        comeInShards.mpr fits.comeInShards, toOutShards.mpr fits.toOutShards,
        availableShards.mpr fits.availableShards, garbages.mpr fits.garbages,
        config.mpr fits.names⟩⟩
  · refine iff_of_false ?_ fun fits => moved fits.moved
    rintro ⟨u, read, -⟩
    rw [stops moved] at read
    cases read

/-! ### Runs -/

def changeTo (config : Config) : Event :=
  .command ⟨.UC, [], getStringFromConfig config, 0, 0, 1⟩ config.configNum

def write (key value : Str) (requestId index : Int) : Event :=
  .command ⟨.put, key, value, 7, requestId, 1⟩ index

def allToOne : Config := ⟨1, List.replicate NShards 1, ∅⟩

def oneToTwo : Config := ⟨2, 1 :: 2 :: List.replicate (NShards - 2) 1, ∅⟩

theorem installs_iff_write :
    ∃ t s, Reach (machine 1) (fun _ => Storable) t ∧
      t.step (write ['c'] ['y'] 1 3) = some s ∧ Installs t s := by
  have runs : ((execWhere (machine 1) (fun _ => Storable) (start 1)
      [changeTo allToOne, write ['b'] ['x'] 0 2]).any fun t =>
        (t.step (write ['c'] ['y'] 1 3)).any fun s => decide (Fits t s)) = true := by
    decide +kernel
  obtain ⟨t, before, next⟩ := (Option.any_eq_true _ _).mp runs
  obtain ⟨s, ran, fits⟩ := (Option.any_eq_true _ _).mp next
  have boots : Reach (machine 1) (fun _ => Storable) (start 1) := .start rfl
  have earlier := boots.execWhere before
  have storable : Storable (write ['c'] ['y'] 1 3) := by decide
  exact ⟨t, s, earlier, ran,
    (installs_iff (earlier.step storable ran) t).mpr (of_decide_eq_true fits)⟩

theorem moved_shard_is_not_installed :
    ((execWhere (machine 1) (fun _ => Storable) (start 1)
        [changeTo allToOne, changeTo oneToTwo]).any fun s =>
      ((start 1).recoverySnapShot s.getSnapShot).isNone) = true ∧
    ((execWhere (machine 1) (fun _ => Storable) (start 1)
        [changeTo allToOne, write ['b'] ['x'] 0 2]).any fun t =>
      (t.step (changeTo oneToTwo)).any fun s =>
        (t.recoverySnapShot s.getSnapShot).any fun u =>
          decide (1 ∈ u.availableShards ∧ 1 ∉ s.availableShards)) = true ∧
    ¬ ∀ groupId t s events, Reach (machine groupId) (fun _ => Storable) t →
      execWhere (machine groupId) (fun _ => Storable) t events = some s → Installs t s := by
  have stops : ((execWhere (machine 1) (fun _ => Storable) (start 1)
        [changeTo allToOne, changeTo oneToTwo]).any fun s =>
      ((start 1).recoverySnapShot s.getSnapShot).isNone) = true := by
    decide +kernel
  refine ⟨stops, by decide +kernel, fun installs => ?_⟩
  obtain ⟨s, ran, none⟩ := (Option.any_eq_true _ _).mp stops
  obtain ⟨u, read, -⟩ := installs 1 (start 1) s _ (.start rfl) ran
  rw [read] at none
  cases none

end ShardKv
end ProjectsCpp.Sharding
