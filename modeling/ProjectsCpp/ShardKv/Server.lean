import ProjectsCpp.ShardKv.Wire
import Mathlib.Algebra.Order.Group.Int

/-! One replica group of shardKv as the state machine that `applyLoop` drives
(`shardKv/server.cpp`), with the parts of its request handlers that run under `m_lock`.
A call through a null `OpContext` and a read past the end of `shards` give `none`. -/

namespace ProjectsCpp.Sharding
open ProjectsCpp.Text

inductive OpName where
  | get | put | append | UC | UD | GC
deriving DecidableEq

/-- `term` is filled in by the log; `args` is never read. -/
structure Operation where
  op : OpName
  key : Str
  value : Str
  clientId : Int
  requestId : Int
  term : Int

/-- `isWrongGroup` stands for `op.op == ErrWrongGroup`; `isRecved` is set through the fifo. -/
structure OpContext where
  term : Int
  isWrongGroup : Bool
  isWrongLeader : Bool
  isIgnored : Bool
  isKeyExisted : Bool
  value : Str
  isRecved : Bool

def OpContext.ofTerm (term : Int) : OpContext := ⟨term, false, false, false, true, [], false⟩

structure ShardKv where
  groupId : Int
  lastAppliedIndex : Int
  config : Config
  database : AList fun _ : Str => Str
  clientSeqMap : AList fun _ : Int => Int
  requestMap : AList fun _ : Int => OpContext
  /-- configNum -> shard -> (key, value) -/
  toOutShards : AList fun _ : Int => AList fun _ : Int => AList fun _ : Str => Str
  comeInShards : AList fun _ : Int => Int
  availableShards : List Int
  garbages : AList fun _ : Int => List Int

def ShardKv.start (groupId : Int) : ShardKv := ⟨groupId, 0, .empty, ∅, ∅, ∅, ∅, ∅, [], ∅⟩

def charValue (c : Char) : Int := if c.toNat < 128 then c.toNat else c.toNat - 256

def key2shard (key : Str) : Int :=
  match key with
  | [] => 0
  | c :: _ => (charValue c - charValue 'a').tmod NShards

namespace ShardKv

def isMatchShard (kv : ShardKv) (key : Str) : Option Bool :=
  if key2shard key < 0 then none
  else kv.config.shards[(key2shard key).toNat]?.map fun owner => decide (kv.groupId = owner)

/-! ### A new configuration -/

/-- The variables of the first loop of `updateComeInAndOutShrads`. -/
structure Sorted where
  toOut : List Int
  available : List Int
  comeIn : AList fun _ : Int => Int

def sortShards (groupId oldNum : Int) : Int → List Int → Sorted → Sorted
  | _, [], v => v
  | i, owner :: owners, v =>
    sortShards groupId oldNum (i + 1) owners
      (if owner ≠ groupId then v
      else if i ∈ v.toOut ∨ oldNum = 0 then
        { v with toOut := v.toOut.erase i, available := v.available.insert i }
      else { v with comeIn := v.comeIn.insert i oldNum })

def takeShard (shard : Int) (database : AList fun _ : Str => Str) :
    (AList fun _ : Str => Str) × AList fun _ : Str => Str :=
  database.entries.foldl
    (fun r data =>
      if key2shard data.1 = shard then (r.1.insert data.1 data.2, r.2.erase data.1) else r)
    (∅, database)

def setToOut (cfgNum shard : Int) (data : AList fun _ : Str => Str)
    (toOut : AList fun _ : Int => AList fun _ : Int => AList fun _ : Str => Str) :
    AList fun _ : Int => AList fun _ : Int => AList fun _ : Str => Str :=
  toOut.insert cfgNum (((toOut.lookup cfgNum).getD ∅).insert shard data)

def moveShards (cfgNum : Int) : List Int → (AList fun _ : Str => Str) →
    (AList fun _ : Int => AList fun _ : Int => AList fun _ : Str => Str) →
    (AList fun _ : Str => Str) × AList fun _ : Int => AList fun _ : Int => AList fun _ : Str => Str
  | [], database, toOut => (database, toOut)
  | shard :: shards, database, toOut =>
    let r := takeShard shard database
    moveShards cfgNum shards r.2 (setToOut cfgNum shard r.1 toOut)

theorem mem_sortShards {groupId oldNum : Int} {owners : List Int} {i : Int} {v : Sorted} {x : Int} :
    x ∈ (sortShards groupId oldNum i owners v).available ↔
      x ∈ v.available ∨ (i ≤ x ∧ owners[(x - i).toNat]? = some groupId ∧
        (x ∈ v.toOut ∨ oldNum = 0)) := by
  induction owners generalizing i v with
  | nil => simp [sortShards]
  | cons owner owners ih =>
    rw [sortShards, ih]
    by_cases here : x = i
    · subst here
      have stop : ¬ x + 1 ≤ x := by omega
      by_cases mine : owner = groupId
      · rw [if_neg (not_not.mpr mine)]
        split
        · rename_i kept
          simp [stop, mine, kept]
        · rename_i new
          simp [stop, mine, new]
      · rw [if_pos mine]
        simp [stop, mine]
    · by_cases later : i ≤ x
      · have next : (x - i).toNat = (x - (i + 1)).toNat + 1 := by omega
        have le : i + 1 ≤ x := by omega
        rw [next, List.getElem?_cons_succ]
        split
        · simp [later, le]
        · split
          · simp [later, le, List.mem_erase_of_ne here, here]
          · simp [later, le]
      · have le : ¬ i + 1 ≤ x := by omega
        split
        · simp [later, le]
        · split
          · simp [later, le, here]
          · simp [later, le]

theorem lookup_sortShards {groupId oldNum : Int} {owners : List Int} {i : Int} {v : Sorted}
    {x : Int} :
    (sortShards groupId oldNum i owners v).comeIn.lookup x =
      if i ≤ x ∧ owners[(x - i).toNat]? = some groupId ∧ ¬ (x ∈ v.toOut ∨ oldNum = 0) then
        some oldNum
      else v.comeIn.lookup x := by
  induction owners generalizing i v with
  | nil => simp [sortShards]
  | cons owner owners ih =>
    rw [sortShards, ih]
    by_cases here : x = i
    · subst here
      have stop : ¬ x + 1 ≤ x := by omega
      by_cases mine : owner = groupId
      · rw [if_neg (not_not.mpr mine)]
        split
        · rename_i kept
          simp [stop, mine, kept]
        · rename_i new
          simp only [stop, false_and, if_false, AList.lookup_insert]
          simp [mine, new]
      · rw [if_pos mine]
        simp [stop, mine]
    · by_cases later : i ≤ x
      · have next : (x - i).toNat = (x - (i + 1)).toNat + 1 := by omega
        have le : i + 1 ≤ x := by omega
        rw [next, List.getElem?_cons_succ]
        split
        · simp [later, le]
        · split
          · simp [later, le, List.mem_erase_of_ne here]
          · simp [later, le, AList.lookup_insert_ne here]
      · have le : ¬ i + 1 ≤ x := by omega
        split
        · simp [later, le]
        · split
          · simp [later, le]
          · simp [later, le, AList.lookup_insert_ne here]

def updateComeInAndOutShrads (kv : ShardKv) (config : Config) : ShardKv :=
  if config.configNum ≤ kv.config.configNum then kv
  else
    let oldNum := kv.config.configNum
    let v := sortShards kv.groupId oldNum 0 config.shards
      ⟨kv.availableShards, [], kv.comeInShards⟩
    let moved := moveShards oldNum v.toOut kv.database kv.toOutShards
    { kv with
      config := config
      availableShards := v.available
      comeInShards := v.comeIn
      database := moved.1
      toOutShards := moved.2 }

theorem update_available {kv : ShardKv} {config : Config}
    (newer : kv.config.configNum < config.configNum) (shard : Int) :
    shard ∈ (kv.updateComeInAndOutShrads config).availableShards ↔
      config.owner shard = some kv.groupId ∧
        (shard ∈ kv.availableShards ∨ kv.config.configNum = 0) := by
  rw [updateComeInAndOutShrads, if_neg (not_le.mpr newer)]
  simp only [mem_sortShards, List.not_mem_nil, false_or, Int.sub_zero, Config.owner]
  by_cases negative : 0 ≤ shard <;> simp [negative]

theorem update_comeIn {kv : ShardKv} {config : Config}
    (newer : kv.config.configNum < config.configNum) (shard : Int) :
    (kv.updateComeInAndOutShrads config).comeInShards.lookup shard =
      if config.owner shard = some kv.groupId ∧
        ¬ (shard ∈ kv.availableShards ∨ kv.config.configNum = 0) then some kv.config.configNum
      else kv.comeInShards.lookup shard := by
  rw [updateComeInAndOutShrads, if_neg (not_le.mpr newer)]
  simp only [lookup_sortShards, Int.sub_zero, Config.owner]
  by_cases negative : 0 ≤ shard <;> simp [negative]

theorem update_config {kv : ShardKv} {config : Config}
    (newer : kv.config.configNum < config.configNum) :
    (kv.updateComeInAndOutShrads config).config = config := by
  rw [updateComeInAndOutShrads, if_neg (not_le.mpr newer)]

theorem update_frame (kv : ShardKv) (config : Config) :
    (kv.updateComeInAndOutShrads config).groupId = kv.groupId ∧
      (kv.updateComeInAndOutShrads config).clientSeqMap = kv.clientSeqMap ∧
      (kv.updateComeInAndOutShrads config).requestMap = kv.requestMap := by
  rw [updateComeInAndOutShrads]
  split <;> exact ⟨rfl, rfl, rfl⟩

/-! ### Shards on the move -/

/-- `m_clientSeqMap[c] = max(m_clientSeqMap[c], r)` for every request of the reply. -/
def mergeSeqs (own : AList fun _ : Int => Int) (reqs : List (Sigma fun _ : Int => Int)) :
    AList fun _ : Int => Int :=
  reqs.foldl (fun m req => m.insert req.1 (max ((m.lookup req.1).getD 0) req.2)) own

theorem lookup_mergeSeqs (own : AList fun _ : Int => Int) {reqs : List (Sigma fun _ : Int => Int)}
    (once : reqs.NodupKeys) (c : Int) :
    (mergeSeqs own reqs).lookup c =
      match reqs.dlookup c with
      | none => own.lookup c
      | some r => some (max ((own.lookup c).getD 0) r) := by
  induction reqs generalizing own with
  | nil => rfl
  | cons req reqs ih =>
    obtain ⟨k, r⟩ := req
    obtain ⟨fresh, once⟩ := List.nodupKeys_cons.mp once
    rw [mergeSeqs, List.foldl_cons, ← mergeSeqs, ih _ once]
    by_cases same : c = k
    · rw [same, List.dlookup_eq_none.mpr fresh, List.dlookup_cons_eq]
      exact AList.lookup_insert own
    · rw [List.dlookup_cons_ne _ _ same, AList.lookup_insert_ne same]

def insertData (own : AList fun _ : Str => Str) (data : List (Sigma fun _ : Str => Str)) :
    AList fun _ : Str => Str :=
  data.foldl (fun m d => if d.1 ∈ m then m else m.insert d.1 d.2) own

def updateDataBaseWithMigrateReply (kv : ShardKv) (reply : MigrateReply) : ShardKv :=
  if reply.configNum ≠ kv.config.configNum - 1 then kv
  else
    let s := { kv with comeInShards := kv.comeInShards.erase reply.shard }
    if reply.shard ∈ s.availableShards then s
    else
      { s with
        database := insertData s.database reply.database.entries
        clientSeqMap := mergeSeqs s.clientSeqMap reply.clientReqId.entries
        availableShards := s.availableShards.insert reply.shard
        garbages := s.garbages.insert reply.configNum
          (((s.garbages.lookup reply.configNum).getD []).insert reply.shard) }

theorem updateDataBase_cases (kv : ShardKv) (reply : MigrateReply) :
    kv.updateDataBaseWithMigrateReply reply = kv ∨
      (reply.configNum = kv.config.configNum - 1 ∧ reply.shard ∈ kv.availableShards ∧
        kv.updateDataBaseWithMigrateReply reply =
          { kv with comeInShards := kv.comeInShards.erase reply.shard }) ∨
      (reply.configNum = kv.config.configNum - 1 ∧ reply.shard ∉ kv.availableShards ∧
        ∃ database garbages, kv.updateDataBaseWithMigrateReply reply =
          { kv with
            comeInShards := kv.comeInShards.erase reply.shard
            availableShards := kv.availableShards.insert reply.shard
            clientSeqMap := mergeSeqs kv.clientSeqMap reply.clientReqId.entries
            database := database
            garbages := garbages }) := by
  rw [updateDataBaseWithMigrateReply]
  by_cases current : reply.configNum = kv.config.configNum - 1
  · rw [if_neg (not_not.mpr current)]
    by_cases there : reply.shard ∈ kv.availableShards
    · exact .inr (.inl ⟨current, there, if_pos there⟩)
    · exact .inr (.inr ⟨current, there, _, _, if_neg there⟩)
  · exact .inl (if_pos current)

/-- `toOutShards[cfgNum][shard]`, which creates what is not there. -/
def touchToOut (kv : ShardKv) (cfgNum shard : Int) : ShardKv × AList fun _ : Str => Str :=
  match ((kv.toOutShards.lookup cfgNum).getD ∅).lookup shard with
  | some data => (kv, data)
  | none => ({ kv with toOutShards := setToOut cfgNum shard ∅ kv.toOutShards }, ∅)

def shardMigration (kv : ShardKv) (shard configNum : Int) : ShardKv × Str :=
  if configNum ≥ kv.config.configNum then
    (kv, migrateReply2Str ⟨ErrWrongGroup, shard, configNum, ∅, ∅⟩)
  else
    let s := kv.touchToOut configNum shard
    (s.1, migrateReply2Str ⟨OK, shard, configNum, s.2, kv.clientSeqMap⟩)

def hasToOut (kv : ShardKv) (configNum shard : Int) : Bool :=
  (kv.toOutShards.lookup configNum).any fun byShard => decide (shard ∈ byShard)

def clearToOutData (kv : ShardKv) (cfgNum shard : Int) : ShardKv :=
  match kv.toOutShards.lookup cfgNum with
  | none => kv
  | some byShard =>
    { kv with
      toOutShards :=
        if (byShard.erase shard).keys = [] then kv.toOutShards.erase cfgNum
        else kv.toOutShards.insert cfgNum (byShard.erase shard) }

def dropGarbage (kv : ShardKv) (configNum shard : Int) : ShardKv :=
  let left := ((kv.garbages.lookup configNum).getD []).erase shard
  { kv with
    garbages := if left = [] then kv.garbages.erase configNum else kv.garbages.insert configNum left }

/-! ### Committed commands -/

/-- A write through the pointer `m_requestMap[index]`, when there is one. -/
def setContext (kv : ShardKv) (index : Int) (f : OpContext → OpContext) : ShardKv :=
  match kv.requestMap.lookup index with
  | some c => { kv with requestMap := kv.requestMap.insert index (f c) }
  | none => kv

def isNew (kv : ShardKv) (operation : Operation) : Bool :=
  match kv.clientSeqMap.lookup operation.clientId with
  | none => true
  | some prevRequestIdx => decide (prevRequestIdx < operation.requestId)

/-- What `applyLoop` does for every command but UC and UD, before it looks at the command. -/
def record (kv : ShardKv) (operation : Operation) (index : Int) : ShardKv :=
  let s := { kv with lastAppliedIndex := index }.setContext index fun c =>
    if c.term ≠ operation.term then { c with isWrongLeader := true } else c
  { s with clientSeqMap := s.clientSeqMap.insert operation.clientId operation.requestId }

def putAppendDatabase (kv : ShardKv) (operation : Operation) : ShardKv :=
  let old := if operation.op = .append then (kv.database.lookup operation.key).getD [] else []
  { kv with database := kv.database.insert operation.key (old ++ operation.value) }

/-- `getPutAppendOnDataBase`; `new` is its test on the number recorded before. -/
def getPutAppendOnDataBase (kv : ShardKv) (operation : Operation) (index : Int) (new : Bool) :
    Option ShardKv :=
  if key2shard operation.key ∉ kv.availableShards then
    if index ∈ kv.requestMap then some (kv.setContext index fun c => { c with isWrongGroup := true })
    else none
  else if operation.op = .put ∨ operation.op = .append then
    if new then some (kv.putAppendDatabase operation)
    else some (kv.setContext index fun c => { c with isIgnored := true })
  else
    some (kv.setContext index fun c =>
      match kv.database.lookup operation.key with
      | some value => { c with value := value }
      | none => { c with isKeyExisted := false, value := [] })

def signal (kv : ShardKv) (index : Int) : ShardKv :=
  kv.setContext index fun c => { c with isRecved := true }

def applyLoop (kv : ShardKv) (operation : Operation) (index : Int) : Option ShardKv :=
  match operation.op with
  | .UC => (getConfig operation.value).map kv.updateComeInAndOutShrads
  | .UD => (str2MigrateReply operation.value).map kv.updateDataBaseWithMigrateReply
  | .GC => (stoi operation.key).map fun cfgNum =>
      ((kv.record operation index).clearToOutData cfgNum operation.requestId).signal index
  | _ => ((kv.record operation index).getPutAppendOnDataBase operation index
      (kv.isNew operation)).map fun s => s.signal index

structure Recorded (kv : ShardKv) (operation : Operation) (index : Int) (s : ShardKv) : Prop where
  groupId : s.groupId = kv.groupId
  config : s.config = kv.config
  availableShards : s.availableShards = kv.availableShards
  comeInShards : s.comeInShards = kv.comeInShards
  clientSeqMap : s.clientSeqMap = kv.clientSeqMap.insert operation.clientId operation.requestId
  requestMap : ∀ i, i ≠ index → s.requestMap.lookup i = kv.requestMap.lookup i

theorem setContext_contexts (kv : ShardKv) (index : Int) (f : OpContext → OpContext) :
    ∃ contexts, kv.setContext index f = { kv with requestMap := contexts } ∧
      ∀ i, i ≠ index → contexts.lookup i = kv.requestMap.lookup i := by
  rw [setContext]
  split
  · exact ⟨_, rfl, fun i apart => AList.lookup_insert_ne apart⟩
  · exact ⟨_, rfl, fun i apart => rfl⟩

variable {kv s : ShardKv} {operation : Operation} {index : Int}

theorem Recorded.setContext (recorded : kv.Recorded operation index s)
    (f : OpContext → OpContext) : kv.Recorded operation index (s.setContext index f) := by
  obtain ⟨contexts, same, others⟩ := s.setContext_contexts index f
  rw [same]
  exact { recorded with
    requestMap := fun i apart => (others i apart).trans (recorded.requestMap i apart) }

theorem record_recorded (kv : ShardKv) (operation : Operation) (index : Int) :
    kv.Recorded operation index (kv.record operation index) := by
  obtain ⟨contexts, same, others⟩ := { kv with lastAppliedIndex := index }.setContext_contexts index
    fun c => if c.term ≠ operation.term then { c with isWrongLeader := true } else c
  rw [record, same]
  exact ⟨rfl, rfl, rfl, rfl, rfl, others⟩

theorem Recorded.getPutAppend {t : ShardKv} {new : Bool} (recorded : kv.Recorded operation index s)
    (run : s.getPutAppendOnDataBase operation index new = some t) :
    kv.Recorded operation index t := by
  rw [getPutAppendOnDataBase] at run
  split at run
  · split at run <;> cases run
    exact recorded.setContext _
  · split at run
    · split at run <;> cases run
      · exact { recorded with }
      · exact recorded.setContext _
    · cases run
      exact recorded.setContext _

theorem Recorded.clearToOutData (recorded : kv.Recorded operation index s) (cfgNum shard : Int) :
    kv.Recorded operation index (s.clearToOutData cfgNum shard) := by
  rw [ShardKv.clearToOutData]
  split
  · exact recorded
  · exact { recorded with }

theorem applyLoop_cases (run : kv.applyLoop operation index = some s) :
    (∃ config, operation.op = .UC ∧ getConfig operation.value = some config ∧
      s = kv.updateComeInAndOutShrads config) ∨
    (∃ reply, operation.op = .UD ∧ str2MigrateReply operation.value = some reply ∧
      s = kv.updateDataBaseWithMigrateReply reply) ∨
    (operation.op ≠ .UC ∧ operation.op ≠ .UD ∧ kv.Recorded operation index s) := by
  have recorded := kv.record_recorded operation index
  have data : (((kv.record operation index).getPutAppendOnDataBase operation index
      (kv.isNew operation)).map fun s => s.signal index) = some s →
      kv.Recorded operation index s := by
    intro run
    obtain ⟨t, ran, rfl⟩ := Option.map_eq_some_iff.mp run
    exact (recorded.getPutAppend ran).setContext _
  rw [applyLoop] at run
  cases op : operation.op with
  | UC =>
    simp only [op] at run
    obtain ⟨config, read, rfl⟩ := Option.map_eq_some_iff.mp run
    exact .inl ⟨config, rfl, read, rfl⟩
  | UD =>
    simp only [op] at run
    obtain ⟨reply, read, rfl⟩ := Option.map_eq_some_iff.mp run
    exact .inr (.inl ⟨reply, rfl, read, rfl⟩)
  | GC =>
    simp only [op] at run
    obtain ⟨cfgNum, read, rfl⟩ := Option.map_eq_some_iff.mp run
    exact .inr (.inr ⟨nofun, nofun, (recorded.clearToOutData cfgNum _).setContext _⟩)
  | get =>
    simp only [op] at run
    exact .inr (.inr ⟨nofun, nofun, data run⟩)
  | put =>
    simp only [op] at run
    exact .inr (.inr ⟨nofun, nofun, data run⟩)
  | append =>
    simp only [op] at run
    exact .inr (.inr ⟨nofun, nofun, data run⟩)

def executes (kv : ShardKv) (operation : Operation) : Bool :=
  (operation.op = .put ∨ operation.op = .append) ∧
    key2shard operation.key ∈ kv.availableShards ∧ kv.isNew operation

theorem executes_iff {kv : ShardKv} {operation : Operation} :
    kv.executes operation ↔ (operation.op = .put ∨ operation.op = .append) ∧
      key2shard operation.key ∈ kv.availableShards ∧
        ∀ prev, kv.clientSeqMap.lookup operation.clientId = some prev →
          prev < operation.requestId := by
  rw [executes, isNew]
  cases kv.clientSeqMap.lookup operation.clientId <;> simp

end ShardKv

end ProjectsCpp.Sharding
