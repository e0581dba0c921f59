import ProjectsCpp.ShardKv.HandOver

/-! The books a group keeps about its shards: `m_AvailableShards`, `comeInShards`, `m_database`
and `toOutShards` against `m_config`, over every log of commands. -/

namespace ProjectsCpp.Sharding
open ProjectsCpp.Text ProjectsCpp.Run

namespace ShardKv

def toOutEntry (kv : ShardKv) (cfgNum shard : Int) : Option (AList fun _ : Str => Str) :=
  (kv.toOutShards.lookup cfgNum).bind fun byShard => byShard.lookup shard

def NewestOut (kv : ShardKv) (shard cfgNum : Int) (data : AList fun _ : Str => Str) : Prop :=
  kv.toOutEntry cfgNum shard = some data ∧
    ∀ n, (kv.toOutEntry n shard).isSome → n ≤ cfgNum

structure Booked (kv : ShardKv) : Prop where
  apart : ∀ shard ∈ kv.availableShards, shard ∉ kv.comeInShards
  assigned : 1 ≤ kv.config.configNum → ∀ shard,
    shard ∈ kv.availableShards ∨ shard ∈ kv.comeInShards ↔
      kv.config.owner shard = some kv.groupId
  stored : ∀ key ∈ kv.database, key2shard key ∈ kv.availableShards
  moved : ∀ shard ∉ kv.availableShards, ∀ cfgNum data, kv.NewestOut shard cfgNum data →
    ∀ key, key2shard key = shard → ¬(key ∈ kv.database ∧ key ∈ data)

end ShardKv

/-- A group over its log, with the shard and the configuration of every UD applied. -/
structure Books where
  kv : ShardKv
  pulled : List (Int × Int)

/-- A committed command at its index, and what `m_requestMap` holds when it is applied. -/
structure Commit where
  operation : Operation
  index : Int
  requestMap : AList fun _ : Int => OpContext

namespace Books

def start (gid : Int) : Books := ⟨.start gid, []⟩

def pulledBy (operation : Operation) : List (Int × Int) :=
  if operation.op = .UD then
    ((str2MigrateReply operation.value).map fun reply => (reply.shard, reply.configNum)).toList
  else []

def step (s : Books) (commit : Commit) : Option Books :=
  ({ s.kv with requestMap := commit.requestMap }.applyLoop commit.operation commit.index).map
    fun kv => ⟨kv, pulledBy commit.operation ++ s.pulled⟩

def machine (gid : Int) : Machine Books Commit := ⟨fun s => s = start gid, step⟩

def RegularConfig (s : Books) (config : Config) : Prop :=
  config.configNum ≤ s.kv.config.configNum ∨
    (config.configNum = s.kv.config.configNum + 1 ∧ s.kv.comeInShards.keys = [])

def RegularReply (s : Books) (reply : MigrateReply) : Prop :=
  (s.kv.comeInShards.lookup reply.shard = some reply.configNum ∧
    ∀ key ∈ reply.database, key2shard key = reply.shard) ∨
  (reply.shard, reply.configNum) ∈ s.pulled

def Regular (s : Books) (commit : Commit) : Prop :=
  (commit.operation.op = .UC → ∀ config, getConfig commit.operation.value = some config →
    s.RegularConfig config) ∧
  (commit.operation.op = .UD → ∀ reply, str2MigrateReply commit.operation.value = some reply →
    s.RegularReply reply)

/-- What the books rest on: nothing before the first configuration, everything awaited from the
one before, and every answered pull either of an earlier configuration or carried out. -/
structure Kept (s : Books) : Prop where
  num : 0 ≤ s.kv.config.configNum
  once : s.kv.availableShards.Nodup
  first : s.kv.config.configNum = 0 → s.kv.availableShards = [] ∧ s.kv.comeInShards.keys = []
  awaited : ∀ shard n, s.kv.comeInShards.lookup shard = some n → n + 1 = s.kv.config.configNum
  pulled : ∀ p ∈ s.pulled, p.2 + 1 < s.kv.config.configNum ∨
    (p.2 + 1 = s.kv.config.configNum ∧ p.1 ∈ s.kv.availableShards)
  apart : ∀ shard ∈ s.kv.availableShards, shard ∉ s.kv.comeInShards
  assigned : 1 ≤ s.kv.config.configNum → ∀ shard,
    shard ∈ s.kv.availableShards ∨ shard ∈ s.kv.comeInShards ↔
      s.kv.config.owner shard = some s.kv.groupId
  stored : ∀ key ∈ s.kv.database, key2shard key ∈ s.kv.availableShards

variable {s t : Books} {gid : Int} {config : Config} {reply : MigrateReply}

theorem Kept.books (kept : Kept s) : s.kv.Booked where
  apart := kept.apart
  assigned := kept.assigned
  stored := kept.stored
  moved _ absent _ _ _ key mine both := absent (mine ▸ kept.stored key both.1)

theorem Kept.start (gid : Int) : Kept (start gid) where
  num := le_refl 0
  once := List.nodup_nil
  first _ := ⟨rfl, rfl⟩
  awaited := nofun
  pulled := nofun
  apart := nofun
  assigned low := absurd (show (1 : Int) ≤ 0 from low) (by decide)
  stored := nofun

theorem Kept.requests (kept : Kept s) (contexts : AList fun _ : Int => OpContext) :
    Kept ⟨{ s.kv with requestMap := contexts }, s.pulled⟩ := { kept with }

/-! ### A new configuration -/

theorem Kept.update (kept : Kept s) (regular : s.RegularConfig config) :
    Kept ⟨s.kv.updateComeInAndOutShrads config, s.pulled⟩ := by
  rcases regular with old | ⟨next, arrived⟩
  · rw [ShardKv.updateComeInAndOutShrads, if_pos old]
    exact kept
  have newer : s.kv.config.configNum < config.configNum := by omega
  have low := kept.num
  have is := ShardKv.update_config newer
  have available := ShardKv.update_available newer
  have comeIn : ∀ shard, shard ∈ (s.kv.updateComeInAndOutShrads config).comeInShards ↔
      config.owner shard = some s.kv.groupId ∧
        ¬(shard ∈ s.kv.availableShards ∨ s.kv.config.configNum = 0) := by
    intro shard
    rw [← AList.lookup_isSome, ShardKv.update_comeIn newer,
      AList.lookup_eq_none.mpr (Deployment.comeIn_empty arrived shard)]
    split
    · rename_i new
      simp [new]
    · rename_i old
      simpa using old
  refine ⟨?_, ShardKv.nodup_update kept.once config, fun zero => ?_, fun shard n found => ?_,
    fun p member => .inl ?_, fun shard held awaited => ?_, fun _ shard => ?_,
    ShardKv.stored_update newer kept.once kept.stored⟩
  · rw [is]
    omega
  · rw [is] at zero
    omega
  · rw [ShardKv.update_comeIn newer,
      AList.lookup_eq_none.mpr (Deployment.comeIn_empty arrived shard)] at found
    rw [is, next]
    split at found <;> cases found
    rfl
  · rw [is]
    rcases kept.pulled p member with past | ⟨now, -⟩ <;> omega
  · exact ((comeIn shard).mp awaited).2 ((available shard).mp held).2
  · rw [available, comeIn, is, (ShardKv.update_frame s.kv config).1, ← and_or_left,
      and_iff_left (Classical.em _)]

/-! ### A shard that comes in -/

theorem Kept.takeIn (kept : Kept s) (regular : s.RegularReply reply) :
    Kept ⟨s.kv.updateDataBaseWithMigrateReply reply,
      (reply.shard, reply.configNum) :: s.pulled⟩ := by
  rcases regular with ⟨awaited, mine⟩ | before
  · have current := kept.awaited _ _ awaited
    have there : reply.shard ∈ s.kv.comeInShards :=
      AList.lookup_isSome.mp (by rw [awaited]; rfl)
    have absent : reply.shard ∉ s.kv.availableShards := fun held => kept.apart _ held there
    rw [History.takes_in s.kv current absent]
    refine ⟨kept.num, kept.once.insert, fun zero => ?_, fun shard n found => ?_,
      fun p member => ?_, fun shard held still => ?_, fun low shard => ?_, fun key inside => ?_⟩
    · have nothing := (kept.first zero).2
      exact absurd there (Deployment.comeIn_empty nothing _)
    · by_cases same : shard = reply.shard
      · rw [same, AList.lookup_erase] at found
        cases found
      · rw [AList.lookup_erase_ne same] at found
        exact kept.awaited shard n found
    · cases List.mem_cons.mp member with
      | inl new =>
        rw [new]
        exact .inr ⟨current, List.mem_insert_self⟩
      | inr before =>
        exact (kept.pulled p before).imp id fun now => ⟨now.1, List.mem_insert_of_mem now.2⟩
    · obtain ⟨other, still⟩ := AList.mem_erase.mp still
      exact kept.apart shard ((List.mem_insert_iff.mp held).resolve_left other) still
    · rw [← kept.assigned low shard, List.mem_insert_iff, AList.mem_erase]
      by_cases same : shard = reply.shard
      · simp [same, there]
      · simp [same]
    · rw [← AList.lookup_isSome, ShardKv.lookup_insertData reply.database.nodupKeys] at inside
      by_cases own : key ∈ s.kv.database
      · exact List.mem_insert_of_mem (kept.stored key own)
      · rw [AList.lookup_eq_none.mpr own, Option.none_or] at inside
        rw [mine key (AList.lookup_isSome.mp inside)]
        exact List.mem_insert_self
  · -- the pull was answered before: its shard is here, or its configuration is gone
    have settled : s.kv.updateDataBaseWithMigrateReply reply = s.kv := by
      rw [ShardKv.updateDataBaseWithMigrateReply]
      rcases kept.pulled _ before with past | ⟨now, here⟩
      · have late : reply.configNum ≠ s.kv.config.configNum - 1 := by
          simp only at past
          omega
        rw [if_pos late]
      · have current : ¬ reply.configNum ≠ s.kv.config.configNum - 1 := by
          simp only at now
          omega
        have same : s.kv.comeInShards.erase reply.shard = s.kv.comeInShards :=
          AList.ext (List.kerase_of_notMem_keys (kept.apart _ here))
        rw [if_neg current, same]
        exact if_pos here
    rw [settled]
    exact { kept with
      pulled := fun p member => kept.pulled p
        ((List.mem_cons.mp member).elim (fun new => new ▸ before) id) }

/-! ### Every command -/

theorem Kept.step {commit : Commit} (kept : Kept s) (regular : s.Regular commit)
    (next : s.step commit = some t) : Kept t := by
  obtain ⟨kv, ran, rfl⟩ := Option.map_eq_some_iff.mp next
  have start := kept.requests commit.requestMap
  rcases ShardKv.applyLoop_cases ran with ⟨config, op, read, rfl⟩ | ⟨reply, op, read, rfl⟩ |
    ⟨notConfig, notShard, recorded⟩
  · have nothing : pulledBy commit.operation = [] := if_neg (by rw [op]; decide)
    rw [nothing]
    exact start.update (regular.1 op config read)
  · have new : pulledBy commit.operation = [(reply.shard, reply.configNum)] := by
      rw [pulledBy, if_pos op, read]
      rfl
    rw [new]
    exact start.takeIn (regular.2 op reply read)
  · have nothing : pulledBy commit.operation = [] := if_neg notShard
    have pairs := ShardKv.pairsKept_of_applyLoop notConfig notShard ran
    rw [nothing]
    obtain ⟨num, once, first, awaited, pulled, apart, assigned, stored⟩ := start
    refine ⟨?_, ?_, ?_, ?_, ?_, ?_, ?_, fun key inside => ?_⟩
    all_goals simp only [recorded.config, recorded.availableShards, recorded.comeInShards,
      recorded.groupId, List.nil_append]
    · exact num
    · exact once
    · exact first
    · exact awaited
    · exact pulled
    · exact apart
    · exact assigned
    · cases pairs.database key with
      | inl same =>
        refine stored key (AList.lookup_isSome.mp ?_)
        rw [← same]
        exact AList.lookup_isSome.mpr inside
      | inr held => exact held

theorem kept (reach : Reach (machine gid) Regular s) : Kept s := by
  refine reach.invariant (P := Kept) ?_ fun s commit t kept regular next => kept.step regular next
  rintro s rfl
  exact .start gid

/-- The books are right behind every command of a regular log. -/
theorem booked (reach : Reach (machine gid) Regular s) : s.kv.Booked := (kept reach).books

instance (s : Books) (config : Config) : Decidable (s.RegularConfig config) := by
  unfold RegularConfig
  infer_instance

instance (s : Books) (reply : MigrateReply) : Decidable (s.RegularReply reply) :=
  decidable_of_iff ((s.kv.comeInShards.lookup reply.shard = some reply.configNum ∧
      ∀ key ∈ reply.database.keys, key2shard key = reply.shard) ∨
    (reply.shard, reply.configNum) ∈ s.pulled) Iff.rfl

instance (s : Books) (commit : Commit) : Decidable (s.Regular commit) :=
  decidable_of_iff ((commit.operation.op = .UC → ∀ config ∈ getConfig commit.operation.value,
      s.RegularConfig config) ∧
    (commit.operation.op = .UD → ∀ reply ∈ str2MigrateReply commit.operation.value,
      s.RegularReply reply)) Iff.rfl

/-- Configuration `n`, in which the first shard belongs to `owner` and the others to group 1. -/
def ownerOfFirst (n owner : Int) : Commit :=
  ⟨⟨.UC, [], getStringFromConfig ⟨n, owner :: List.replicate 9 1, ∅⟩, 0, 0, 1⟩, n, ∅⟩

def awayAndBack : List Commit :=
  let back := migrateReply2Str ⟨OK, 0, 2, AList.singleton ['a'] ['y'], AList.singleton 7 0⟩
  [ownerOfFirst 1 1, ⟨⟨.put, ['a'], ['x'], 7, 0, 1⟩, 2, ∅⟩, ownerOfFirst 2 2, ownerOfFirst 3 1,
    ⟨⟨.UD, [], back, 0, 0, 1⟩, 5, ∅⟩, ⟨⟨.UD, [], back, 0, 0, 1⟩, 6, ∅⟩]

theorem booked_awayAndBack :
    ∃ s, execWhere (machine 1) Regular (start 1) awayAndBack = some s ∧
      (s.kv.toOutEntry 1 0).isSome ∧ s.kv.database.lookup ['a'] = some ['y'] ∧ s.kv.Booked := by
  have runs : ((execWhere (machine 1) Regular (start 1) awayAndBack).any fun s =>
      decide ((s.kv.toOutEntry 1 0).isSome ∧ s.kv.database.lookup ['a'] = some ['y'])) = true := by
    decide +kernel
  obtain ⟨s, ran, shows⟩ := (Option.any_eq_true _ _).mp runs
  obtain ⟨left, returned⟩ := of_decide_eq_true shows
  have starts : Reach (machine 1) Regular (start 1) := .start rfl
  exact ⟨s, ran, left, returned, booked (starts.execWhere ran)⟩

end Books

end ProjectsCpp.Sharding
