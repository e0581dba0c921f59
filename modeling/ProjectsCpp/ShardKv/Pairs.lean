import ProjectsCpp.ShardKv.Server

/-! The pairs of a shard: what a change of configuration takes out of the database and puts
into `toOutShards`, what a migrated shard adds to it, and which pairs survive the text in
between. Maps are compared key by key. -/

namespace ProjectsCpp.Sharding
open ProjectsCpp.Text ProjectsCpp.Maps

def pairsOf (database : AList fun _ : Str => Str) (shard : Int) : AList fun _ : Str => Str :=
  ⟨database.entries.filter fun data => key2shard data.1 = shard,
    database.nodupKeys.sublist List.filter_sublist⟩

theorem lookup_pairsOf (database : AList fun _ : Str => Str) (shard : Int) (key : Str) :
    (pairsOf database shard).lookup key =
      if key2shard key = shard then database.lookup key else none := by
  apply Option.ext
  intro value
  rw [← Option.mem_def, AList.mem_lookup_iff, pairsOf, List.mem_filter, decide_eq_true_eq]
  by_cases mine : key2shard key = shard
  · rw [if_pos mine, and_iff_left mine, ← AList.mem_lookup_iff, Option.mem_def]
  · simp [mine]

theorem mem_pairsOf {database : AList fun _ : Str => Str} {shard : Int} {key : Str}
    (inside : key ∈ pairsOf database shard) : key2shard key = shard := by
  have found := AList.lookup_isSome.mpr inside
  rw [lookup_pairsOf] at found
  by_contra other
  rw [if_neg other] at found
  cases found

namespace ShardKv
variable {shard cfgNum n x : Int} {key : Str} {shards : List Int}
  {database : AList fun _ : Str => Str}
  {toOut : AList fun _ : Int => AList fun _ : Int => AList fun _ : Str => Str}

/-! ### Out of the database -/

theorem lookup_takeShard_loop (shard : Int) (key : Str)
    (entries : List (Sigma fun _ : Str => Str)) (once : entries.NodupKeys)
    (taken left : AList fun _ : Str => Str) :
    let r := entries.foldl (fun r data =>
      if key2shard data.1 = shard then (r.1.insert data.1 data.2, r.2.erase data.1) else r)
      (taken, left)
    (r.1.lookup key = if key2shard key = shard then (entries.dlookup key).or (taken.lookup key)
      else taken.lookup key) ∧
    (r.2.lookup key = if key2shard key = shard ∧ key ∈ entries.keys then none
      else left.lookup key) := by
  induction entries generalizing taken left with
  | nil => simp
  | cons data entries ih =>
    obtain ⟨k, value⟩ := data
    obtain ⟨fresh, once⟩ := List.nodupKeys_cons.mp once
    have skip : key ≠ k → List.dlookup key (⟨k, value⟩ :: entries) = entries.dlookup key :=
      fun apart => List.dlookup_cons_ne entries ⟨k, value⟩ apart
    simp only [List.foldl_cons]
    by_cases mine : key2shard k = shard
    · rw [if_pos mine]
      obtain ⟨first, second⟩ := ih once (taken.insert k value) (left.erase k)
      refine ⟨first.trans ?_, second.trans ?_⟩ <;> by_cases same : key = k
      · subst same
        simp [mine, List.dlookup_eq_none.mpr fresh]
      · rw [AList.lookup_insert_ne same, skip same]
      · subst same
        simp [mine]
      · simp [AList.lookup_erase_ne same, same]
    · rw [if_neg mine]
      obtain ⟨first, second⟩ := ih once taken left
      refine ⟨first.trans ?_, second.trans ?_⟩ <;> by_cases same : key = k
      · subst same
        simp [mine]
      · rw [skip same]
      · subst same
        simp [mine]
      · simp [same]

theorem lookup_takeShard (shard : Int) (database : AList fun _ : Str => Str) (key : Str) :
    (takeShard shard database).1.lookup key = (pairsOf database shard).lookup key ∧
      (takeShard shard database).2.lookup key =
        if key2shard key = shard then none else database.lookup key := by
  obtain ⟨first, second⟩ := lookup_takeShard_loop shard key database.entries database.nodupKeys ∅
    database
  refine ⟨first.trans ?_, second.trans ?_⟩
  · rw [lookup_pairsOf, AList.lookup_empty, Option.or_none]
    rfl
  · by_cases mine : key2shard key = shard
    · by_cases there : key ∈ database.entries.keys
      · rw [if_pos ⟨mine, there⟩, if_pos mine]
      · rw [if_neg (fun h => there h.2), if_pos mine]
        exact AList.lookup_eq_none.mpr there
    · rw [if_neg (fun h => mine h.1), if_neg mine]

/-- `toOutShards[cfgNum][shard]`, empty when it is not there. -/
def outData (toOut : AList fun _ : Int => AList fun _ : Int => AList fun _ : Str => Str)
    (cfgNum shard : Int) : AList fun _ : Str => Str :=
  (((toOut.lookup cfgNum).getD ∅).lookup shard).getD ∅

theorem outData_setToOut (data : AList fun _ : Str => Str) :
    outData (setToOut cfgNum shard data toOut) n x =
      if n = cfgNum ∧ x = shard then data else outData toOut n x := by
  rw [outData, setToOut]
  by_cases same : n = cfgNum
  · subst same
    rw [AList.lookup_insert, Option.getD_some]
    by_cases here : x = shard
    · subst here
      simp
    · simp [here, AList.lookup_insert_ne here, outData]
  · simp [same, AList.lookup_insert_ne same, outData]

theorem lookup_moveShards (cfgNum n x : Int) (key : Str) (database : AList fun _ : Str => Str)
    (toOut : AList fun _ : Int => AList fun _ : Int => AList fun _ : Str => Str)
    (once : shards.Nodup) :
    (moveShards cfgNum shards database toOut).1.lookup key =
        (if key2shard key ∈ shards then none else database.lookup key) ∧
      (outData (moveShards cfgNum shards database toOut).2 n x).lookup key =
        if n = cfgNum ∧ x ∈ shards then (pairsOf database x).lookup key
        else (outData toOut n x).lookup key := by
  induction shards generalizing database toOut with
  | nil => simp [moveShards]
  | cons shard shards ih =>
    obtain ⟨fresh, once⟩ := List.nodup_cons.mp once
    obtain ⟨taken, left⟩ := lookup_takeShard shard database key
    obtain ⟨first, second⟩ := ih (takeShard shard database).2
      (setToOut cfgNum shard (takeShard shard database).1 toOut) once
    rw [moveShards]
    refine ⟨first.trans ?_, second.trans ?_⟩
    · rw [left]
      by_cases mine : key2shard key = shard
      · simp [mine]
      · simp [mine]
    · rw [outData_setToOut, lookup_pairsOf, left]
      by_cases here : n = cfgNum ∧ x = shard
      · obtain ⟨rfl, rfl⟩ := here
        simp [fresh, taken]
      · rw [if_neg here]
        by_cases num : n = cfgNum
        · have apart : x ≠ shard := fun same => here ⟨num, same⟩
          by_cases inside : x ∈ shards
          · by_cases mine : key2shard key = x
            · simp [num, inside, mine, apart, lookup_pairsOf]
            · simp [num, inside, mine, lookup_pairsOf]
          · simp [num, inside, apart]
        · simp [num]

theorem mem_sortShards_toOut {groupId oldNum : Int} {owners : List Int} {i : Int} {v : Sorted}
    (once : v.toOut.Nodup) :
    x ∈ (sortShards groupId oldNum i owners v).toOut ↔
      x ∈ v.toOut ∧ ¬ (i ≤ x ∧ owners[(x - i).toNat]? = some groupId) := by
  induction owners generalizing i v with
  | nil => simp [sortShards]
  | cons owner owners ih =>
    have once' : (if owner ≠ groupId then v
        else if i ∈ v.toOut ∨ oldNum = 0 then
          { v with toOut := v.toOut.erase i, available := v.available.insert i }
        else { v with comeIn := v.comeIn.insert i oldNum }).toOut.Nodup := by
      split
      · exact once
      · split
        · exact once.erase i
        · exact once
    rw [sortShards, ih once']
    by_cases here : x = i
    · subst here
      have stop : ¬ x + 1 ≤ x := by omega
      by_cases mine : owner = groupId
      · rw [if_neg (not_not.mpr mine)]
        split
        · simp [stop, mine, once.mem_erase_iff]
        · rename_i new
          have gone : x ∉ v.toOut := fun there => new (.inl there)
          simp [mine, gone]
      · rw [if_pos mine]
        simp [stop, mine]
    · have member : x ∈ (if owner ≠ groupId then v
          else if i ∈ v.toOut ∨ oldNum = 0 then
            { v with toOut := v.toOut.erase i, available := v.available.insert i }
          else { v with comeIn := v.comeIn.insert i oldNum }).toOut ↔ x ∈ v.toOut := by
        split
        · rfl
        · split
          · exact List.mem_erase_of_ne here
          · rfl
      rw [member]
      by_cases later : i ≤ x
      · have next : (x - i).toNat = (x - (i + 1)).toNat + 1 := by omega
        have le : i + 1 ≤ x := by omega
        rw [next, List.getElem?_cons_succ]
        simp [later, le]
      · have le : ¬ i + 1 ≤ x := by omega
        simp [later, le]

theorem nodup_sortShards (groupId oldNum : Int) (owners : List Int) (i : Int) (v : Sorted)
    (toOut : v.toOut.Nodup) (available : v.available.Nodup) :
    (sortShards groupId oldNum i owners v).toOut.Nodup ∧
      (sortShards groupId oldNum i owners v).available.Nodup := by
  induction owners generalizing i v with
  | nil => exact ⟨toOut, available⟩
  | cons owner owners ih =>
    rw [sortShards]
    split
    · exact ih _ _ toOut available
    · split
      · exact ih _ _ (toOut.erase i) available.insert
      · exact ih _ _ toOut available

/-- A shard that the new configuration takes away from the group. -/
def GivesAway (kv : ShardKv) (config : Config) (shard : Int) : Prop :=
  shard ∈ kv.availableShards ∧ config.owner shard ≠ some kv.groupId

variable {kv : ShardKv} {config : Config}

theorem lookup_update (key : Str) (n x : Int)
    (newer : kv.config.configNum < config.configNum)
    (once : kv.availableShards.Nodup) :
    ((kv.GivesAway config (key2shard key) →
        (kv.updateComeInAndOutShrads config).database.lookup key = none) ∧
      (¬ kv.GivesAway config (key2shard key) →
        (kv.updateComeInAndOutShrads config).database.lookup key = kv.database.lookup key)) ∧
    ((n = kv.config.configNum ∧ kv.GivesAway config x →
        (outData (kv.updateComeInAndOutShrads config).toOutShards n x).lookup key =
          (pairsOf kv.database x).lookup key) ∧
      (¬ (n = kv.config.configNum ∧ kv.GivesAway config x) →
        (outData (kv.updateComeInAndOutShrads config).toOutShards n x).lookup key =
          (outData kv.toOutShards n x).lookup key)) := by
  have nodup := (nodup_sortShards kv.groupId kv.config.configNum config.shards 0
    ⟨kv.availableShards, [], kv.comeInShards⟩ once List.nodup_nil).1
  have gives : ∀ s, s ∈ (sortShards kv.groupId kv.config.configNum 0 config.shards
      ⟨kv.availableShards, [], kv.comeInShards⟩).toOut ↔ kv.GivesAway config s := by
    intro s
    rw [mem_sortShards_toOut once, GivesAway, Config.owner, Int.sub_zero]
    by_cases negative : 0 ≤ s <;> simp [negative]
  obtain ⟨database, toOut⟩ := lookup_moveShards kv.config.configNum n x key kv.database
    kv.toOutShards nodup
  rw [updateComeInAndOutShrads, if_neg (not_le.mpr newer)]
  refine ⟨⟨fun away => database.trans (if_pos ((gives _).mpr away)),
      fun kept => database.trans (if_neg fun away => kept ((gives _).mp away))⟩,
    fun away => toOut.trans (if_pos ⟨away.1, (gives _).mpr away.2⟩),
    fun kept => toOut.trans (if_neg fun away => kept ⟨away.1, (gives _).mp away.2⟩)⟩

theorem nodup_update (once : kv.availableShards.Nodup) (config : Config) :
    (kv.updateComeInAndOutShrads config).availableShards.Nodup := by
  rw [updateComeInAndOutShrads]
  split
  · exact once
  · exact (nodup_sortShards _ _ _ _ _ once List.nodup_nil).2

theorem stored_update (newer : kv.config.configNum < config.configNum)
    (once : kv.availableShards.Nodup)
    (stored : ∀ key ∈ kv.database, key2shard key ∈ kv.availableShards) (key : Str)
    (there : key ∈ (kv.updateComeInAndOutShrads config).database) :
    key2shard key ∈ (kv.updateComeInAndOutShrads config).availableShards := by
  obtain ⟨⟨away, stays⟩, -⟩ := lookup_update key 0 0 newer once
  have some_ := AList.lookup_isSome.mpr there
  by_cases gives : kv.GivesAway config (key2shard key)
  · rw [away gives] at some_
    cases some_
  · rw [stays gives] at some_
    have before := stored key (AList.lookup_isSome.mp some_)
    have mine : config.owner (key2shard key) = some kv.groupId :=
      not_not.mp fun other => gives ⟨before, other⟩
    exact (update_available newer _).mpr ⟨mine, .inl before⟩

/-! ### Into the database -/

theorem lookup_insertData {data : List (Sigma fun _ : Str => Str)} (once : data.NodupKeys)
    (own : AList fun _ : Str => Str) :
    (insertData own data).lookup key = (own.lookup key).or (data.dlookup key) := by
  induction data generalizing own with
  | nil => simp [insertData]
  | cons d data ih =>
    obtain ⟨k, value⟩ := d
    obtain ⟨fresh, once⟩ := List.nodupKeys_cons.mp once
    rw [insertData, List.foldl_cons, ← insertData, ih once]
    by_cases there : k ∈ own
    · rw [if_pos there]
      by_cases same : key = k
      · subst same
        obtain ⟨v, found⟩ := Option.isSome_iff_exists.mp (AList.lookup_isSome.mpr there)
        rw [found, Option.some_or, Option.some_or]
      · rw [List.dlookup_cons_ne data ⟨k, value⟩ same]
    · rw [if_neg there]
      by_cases same : key = k
      · subst same
        rw [AList.lookup_insert, AList.lookup_eq_none.mpr there, List.dlookup_cons_eq]
        rfl
      · rw [AList.lookup_insert_ne same, List.dlookup_cons_ne data ⟨k, value⟩ same]

end ShardKv

/-! ### The text in between -/

/-- A pair that the text of a migrated shard can hold. -/
def Portable (key value : Str) : Prop :=
  (':' ∉ key ∧ '/' ∉ key ∧ '|' ∉ key) ∧ '/' ∉ value ∧ '|' ∉ value

instance (key value : Str) : Decidable (Portable key value) := by
  unfold Portable
  infer_instance

def AllPortable (data : AList fun _ : Str => Str) : Prop :=
  ∀ pair ∈ data.entries, Portable pair.1 pair.2

instance (data : AList fun _ : Str => Str) : Decidable (AllPortable data) := by
  unfold AllPortable
  infer_instance

variable {sent reply : MigrateReply} {database m : AList fun _ : Str => Str}

theorem AllPortable.congr (portable : AllPortable database)
    (same : ∀ key, m.lookup key = database.lookup key) : AllPortable m := by
  intro pair inside
  have found := AList.mem_lookup_iff.mpr inside
  rw [Option.mem_def, same] at found
  exact portable pair (AList.mem_lookup_iff.mp found)

theorem databaseText_clean (portable : AllPortable database) :
    databaseText database ≠ [] ∧ '|' ∉ databaseText database := by
  rw [databaseText]
  split
  · decide
  · rename_i some_
    refine ⟨ended_ne_nil fun none => some_ (List.map_eq_nil_iff.mp none), ?_⟩
    refine notMem_ended (by decide) fun w member => ?_
    obtain ⟨data, inside, rfl⟩ := List.mem_map.mp member
    obtain ⟨⟨-, -, key⟩, -, value⟩ := portable data inside
    rw [List.mem_append, List.mem_cons, not_or, not_or]
    exact ⟨key, by decide, value⟩

theorem databaseOf_whole (portable : AllPortable database) :
    ∃ m, databaseOf (databaseText database) = some m ∧
      ∀ key, m.lookup key = database.lookup key := by
  by_cases none : database.entries = []
  · have nothing : database = ∅ := AList.ext none
    exact ⟨∅, by rw [databaseText, if_pos none, databaseOf, if_pos rfl], fun key => by rw [nothing]⟩
  · have words : ∀ w ∈ database.entries.map fun data => data.1 ++ ':' :: data.2,
        w ≠ [] ∧ '/' ∉ w := by
      intro w member
      obtain ⟨data, inside, rfl⟩ := List.mem_map.mp member
      obtain ⟨⟨-, slash, -⟩, slash', -⟩ := portable data inside
      refine ⟨List.append_ne_nil_of_right_ne_nil _ (List.cons_ne_nil _ _), ?_⟩
      rw [List.mem_append, List.mem_cons, not_or, not_or]
      exact ⟨slash, by decide, slash'⟩
    have cuts : ∀ data ∈ database.entries,
        cutAt ':' (data.1 ++ ':' :: data.2) = some (data.1, data.2) :=
      fun data inside => cutAt_sep (portable data inside).1.1
    have notEmpty : ended '/' (database.entries.map fun data => data.1 ++ ':' :: data.2) ≠ empty :=
      ended_ne_empty (fun nothing => none (List.map_eq_nil_iff.mp nothing)) (by decide)
    rw [databaseText, if_neg none, databaseOf, if_neg notEmpty, fields_ended _ words,
      mapM_map_some _ cuts]
    exact ⟨_, rfl, lookup_foldl_pairs database⟩

theorem databaseOf_databaseText (portable : AllPortable database)
    (read : databaseOf (databaseText database) = some m) (key : Str) :
    m.lookup key = database.lookup key := by
  obtain ⟨whole, readWhole, same⟩ := databaseOf_whole portable
  rw [read, Option.some.injEq] at readWhole
  rw [readWhole, same]

theorem str2MigrateReply_database (word : sent.err ≠ [] ∧ '|' ∉ sent.err)
    (portable : AllPortable sent.database)
    (read : str2MigrateReply (migrateReply2Str sent) = some reply) (key : Str) :
    reply.database.lookup key = sent.database.lookup key := by
  obtain ⟨ne, clean⟩ := databaseText_clean portable
  have last : pieces '|' (ended '|' [databaseText sent.database]) =
      [databaseText sent.database] := by
    rw [ended_cons, ended_nil, pieces_sep ne clean, pieces_nil]
  rw [str2MigrateReply, pieces_migrateReply2Str word, last] at read
  simp only [List.cons_append, List.nil_append, stoi_decimal, Option.bind_some,
    Option.bind_eq_some_iff, Option.map_eq_some_iff] at read
  obtain ⟨requests, -, database, decoded, rfl⟩ := read
  exact databaseOf_databaseText portable decoded key

end ProjectsCpp.Sharding
