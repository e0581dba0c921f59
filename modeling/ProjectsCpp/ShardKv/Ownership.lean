import ProjectsCpp.ShardKv.Deployment

/-! Who may hold a shard. A group moves through the configurations one by one, and into the
next only when everything it waits for has come in; a shard comes in only after its
group of the configuration before has moved on. So whoever holds a shard knows that every
earlier owner has left its configuration behind. -/

namespace ProjectsCpp.Sharding
open ProjectsCpp.Text ProjectsCpp.Run

namespace Deployment

def num (s : Deployment) (gid : Int) : Int := (s.group gid).kv.config.configNum

variable {C : Configs} {s t : Deployment} {gid shard n m : Int}

/-- The owner of the shard in configuration `n` has moved on. -/
def Departed (C : Configs) (s : Deployment) (n shard : Int) : Prop :=
  ∃ gid, (C.query n).owner shard = some gid ∧ n < s.num gid

/-- The owner of the shard in configuration `n` has moved on, or holds it there now. -/
def Held (C : Configs) (s : Deployment) (n shard gid : Int) : Prop :=
  (C.query n).owner shard = some gid ∧
    (n < s.num gid ∨ (s.num gid = n ∧ shard ∈ (s.group gid).kv.availableShards))

structure GroupOwned (C : Configs) (gid : Int) (kv : ShardKv) : Prop where
  groupId : kv.groupId = gid
  num : 0 ≤ kv.config.configNum
  shards : kv.config.shards = (C.query kv.config.configNum).shards
  available : ∀ shard ∈ kv.availableShards,
    1 ≤ kv.config.configNum ∧ (C.query kv.config.configNum).owner shard = some gid
  complete : 1 ≤ kv.config.configNum → ∀ shard,
    (C.query kv.config.configNum).owner shard = some gid →
      shard ∈ kv.availableShards ∨ shard ∈ kv.comeInShards
  comeIn : ∀ shard n, kv.comeInShards.lookup shard = some n →
    1 ≤ n ∧ kv.config.configNum = n + 1 ∧ (C.query (n + 1)).owner shard = some gid

/-- A configuration that group `gid` may be told: at most the next one, and the next one
only when nothing has to come in. -/
structure NextConfig (C : Configs) (s : Deployment) (gid : Int) (config : Config) : Prop where
  num : 0 ≤ config.configNum
  shards : config.shards = (C.query config.configNum).shards
  next : config.configNum ≤ s.num gid + 1
  arrived : config.configNum = s.num gid + 1 → (s.group gid).kv.comeInShards.keys = []

/-- A shard that `gid` takes over from configuration `n`. -/
structure Handed (C : Configs) (s : Deployment) (gid shard n : Int) : Prop where
  num : 1 ≤ n
  owner : (C.query (n + 1)).owner shard = some gid
  reached : n + 1 ≤ s.num gid
  departed : Departed C s n shard

structure Owned (C : Configs) (s : Deployment) : Prop where
  groups : ∀ gid, GroupOwned C gid (s.group gid).kv
  configs : ∀ gid, ∀ operation ∈ (s.group gid).log, operation.op = .UC → ∀ config,
    getConfig operation.value = some config → NextConfig C s gid config
  shards : ∀ gid, ∀ operation ∈ (s.group gid).log, operation.op = .UD → ∀ reply,
    str2MigrateReply operation.value = some reply → Handed C s gid reply.shard reply.configNum
  updates : ∀ u ∈ s.updates, 0 ≤ u.2 ∧ NextConfig C s u.1 (C.query u.2)
  pulls : ∀ p ∈ s.pulls, 1 ≤ p.configNum ∧
    (C.query (p.configNum + 1)).owner p.shard = some p.dst ∧ p.configNum + 1 ≤ s.num p.dst
  replies : ∀ p ∈ s.pulls, ∀ text, p.reply = some text → ∀ reply,
    str2MigrateReply text = some reply → reply.err = OK →
      reply.shard = p.shard ∧ reply.configNum = p.configNum ∧ Departed C s p.configNum p.shard
  chain : ∀ n shard gid, Held C s n shard gid → ∀ m, 1 ≤ m → m < n → Departed C s m shard

/-! ### Later states -/

def Later (s t : Deployment) : Prop :=
  ∀ gid, s.num gid ≤ t.num gid ∧ (t.num gid = s.num gid →
    (s.group gid).kv.comeInShards.keys = [] → (t.group gid).kv.comeInShards.keys = [])

theorem Departed.later (departed : Departed C s n shard) (later : Later s t) :
    Departed C t n shard := by
  obtain ⟨gid, owner, past⟩ := departed
  exact ⟨gid, owner, lt_of_lt_of_le past (later gid).1⟩

theorem Handed.later (handed : Handed C s gid shard n) (later : Later s t) :
    Handed C t gid shard n :=
  ⟨handed.num, handed.owner, handed.reached.trans (later gid).1, handed.departed.later later⟩

theorem NextConfig.later {config : Config} (next : NextConfig C s gid config)
    (later : Later s t) : NextConfig C t gid config := by
  obtain ⟨forward, waits⟩ := later gid
  refine ⟨next.num, next.shards, next.next.trans (by omega), fun reached => ?_⟩
  have same : t.num gid = s.num gid := by
    have bound := next.next
    omega
  exact waits same (next.arrived (by omega))

theorem Quiet.num (quiet : Quiet C s t) (gid : Int) : t.num gid = s.num gid := by
  rw [Deployment.num, Deployment.num, (quiet.shards gid).config]

theorem Quiet.later (quiet : Quiet C s t) : Later s t := by
  intro gid
  refine ⟨le_of_eq (quiet.num gid).symm, fun _ arrived => ?_⟩
  rw [(quiet.shards gid).comeInShards]
  exact arrived

theorem Quiet.held (quiet : Quiet C s t) (held : Held C t n shard gid) : Held C s n shard gid := by
  obtain ⟨owner, place⟩ := held
  rw [quiet.num, (quiet.shards gid).availableShards] at place
  exact ⟨owner, place⟩

theorem GroupOwned.same {kv kv' : ShardKv} (owned : GroupOwned C gid kv)
    (same : SameShards kv kv') : GroupOwned C gid kv' := by
  obtain ⟨a, b, c, d, e, f⟩ := owned
  refine ⟨same.groupId.trans a, ?_, ?_, ?_, ?_, ?_⟩ <;>
    simp only [same.config, same.availableShards, same.comeInShards] <;> assumption

/-! ### The text of a configuration and of a reply -/

theorem getConfig_query {config : Config}
    (read : getConfig (getStringFromConfig (C.query n)) = some config)
    (next : NextConfig C s gid (C.query n)) (num : (C.query n).configNum = n) :
    NextConfig C s gid config := by
  have sized : (C.query n).shards ≠ [] := by
    intro nothing
    have length := C.sized n
    rw [nothing] at length
    cases length
  obtain ⟨sameNum, sameShards⟩ := getConfig_getString sized read
  refine ⟨?_, ?_, ?_, ?_⟩
  · exact sameNum ▸ next.num
  · rw [sameShards, sameNum, num]
  · exact sameNum ▸ next.next
  · intro reached
    exact next.arrived (sameNum ▸ reached)

theorem err_word : (OK ≠ [] ∧ '|' ∉ OK) ∧ ErrWrongGroup ≠ [] ∧ '|' ∉ ErrWrongGroup := by decide

theorem shardMigration_ok {kv : ShardKv} {text : Str} {reply : MigrateReply}
    (answer : (kv.shardMigration shard n).2 = text) (read : str2MigrateReply text = some reply)
    (ok : reply.err = OK) : reply.shard = shard ∧ reply.configNum = n ∧
      n < kv.config.configNum ∧ ∀ c, reply.clientReqId.lookup c = kv.clientSeqMap.lookup c := by
  rw [ShardKv.shardMigration] at answer
  split at answer
  · rw [← answer] at read
    have sent := str2MigrateReply_sent err_word.2 read
    rw [sent.err] at ok
    exact absurd (show ErrWrongGroup = OK from ok) (by decide)
  · rename_i past
    rw [← answer] at read
    have sent := str2MigrateReply_sent err_word.1 read
    exact ⟨sent.shard, sent.configNum, not_le.mp past, sent.clientReqId⟩

theorem updateDataBase_reply {reply again : MigrateReply} (ok : reply.err = OK)
    (read : str2MigrateReply (migrateReply2Str reply) = some again) : reply.Sent again :=
  str2MigrateReply_sent (ok ▸ err_word.1) read

/-! ### Steps -/

theorem Owned.boot : Owned C boot where
  groups gid := by
    refine ⟨rfl, le_refl 0, ?_, nofun, fun low => absurd (show (1 : Int) ≤ 0 from low) (by decide),
      nofun⟩
    rw [show (Deployment.boot.group gid).kv.config.configNum = 0 from rfl, C.first]
    rfl
  configs := nofun
  shards := nofun
  updates := nofun
  pulls := nofun
  replies := nofun
  chain n shard gid held m low high := by
    obtain ⟨-, past | ⟨here, held⟩⟩ := held
    · have zero : Deployment.boot.num gid = 0 := rfl
      omega
    · cases held

theorem Quiet.mem_log (quiet : Quiet C s t) {operation : Operation}
    (member : operation ∈ (t.group gid).log) :
    operation ∈ (s.group gid).log ∨ Proposed C s gid operation := by
  cases quiet.log gid with
  | inl same => exact .inl (same ▸ member)
  | inr grown =>
    obtain ⟨new, proposed, log⟩ := grown
    rw [log, List.mem_append, List.mem_singleton] at member
    exact member.imp id fun same => by rwa [same]

theorem Quiet.replies (quiet : Quiet C s t) {p : Pull} (pending : p ∈ t.pulls) {text : Str}
    (answered : p.reply = some text) :
    p ∈ s.pulls ∨ ∃ q ∈ s.pulls, q.dst = p.dst ∧ q.shard = p.shard ∧ q.configNum = p.configNum ∧
      ∃ gid, (C.query p.configNum).owner p.shard = some gid ∧
        ((s.group gid).kv.shardMigration p.shard p.configNum).2 = text := by
  cases quiet.pulls p pending with
  | old before => exact .inl before
  | asked awaited => cases answered
  | again before => cases answered
  | @answered q gid before owner =>
    cases answered
    exact .inr ⟨q, before, rfl, rfl, rfl, gid, owner, rfl⟩

theorem Owned.quiet (owned : Owned C s) (quiet : Quiet C s t) : Owned C t := by
  have later := quiet.later
  refine ⟨fun gid => (owned.groups gid).same (quiet.shards gid), ?_, ?_, ?_, ?_, ?_, ?_⟩
  · intro gid operation member op config read
    cases quiet.mem_log member with
    | inl before => exact (owned.configs gid operation before op config read).later later
    | inr proposed =>
      cases proposed with
      | @config num term pending =>
        obtain ⟨low, next⟩ := owned.updates (gid, num) pending
        exact (getConfig_query read next (C.numbered num low)).later later
      | shard => cases op
      | garbage gc => cases gc.symm.trans op
      | command call last =>
        rcases Clerk.operation_data last with data | data | data <;> cases data.symm.trans op
  · intro gid operation member op reply read
    cases quiet.mem_log member with
    | inl before => exact (owned.shards gid operation before op reply read).later later
    | inr proposed =>
      cases proposed with
      | config => cases op
      | @shard p text sent term pending dst answered decoded ok =>
        obtain ⟨shard, configNum, departed⟩ := owned.replies p pending text answered sent decoded ok
        obtain ⟨low, owner, reached⟩ := owned.pulls p pending
        have again := updateDataBase_reply ok read
        rw [again.shard, again.configNum, shard, configNum, ← dst]
        exact Handed.later ⟨low, owner, reached, departed⟩ later
      | garbage gc => cases gc.symm.trans op
      | command call last =>
        rcases Clerk.operation_data last with data | data | data <;> cases data.symm.trans op
  · intro u pending
    cases quiet.updates u pending with
    | inl before =>
      obtain ⟨low, next⟩ := owned.updates u before
      exact ⟨low, next.later later⟩
    | inr new =>
      obtain ⟨arrived, value⟩ := new
      have low := (owned.groups u.1).num
      have nonneg : 0 ≤ u.2 := by omega
      have numbered := C.numbered u.2 nonneg
      have sameNum : s.num u.1 = (s.group u.1).kv.config.configNum := rfl
      refine ⟨nonneg, NextConfig.later ⟨?_, ?_, ?_, fun _ => arrived⟩ later⟩
      · rw [numbered]
        exact nonneg
      · rw [numbered]
      · rw [numbered, value, sameNum]
  · intro p pending
    have old : ∀ q ∈ s.pulls, q.dst = p.dst → q.shard = p.shard → q.configNum = p.configNum →
        1 ≤ p.configNum ∧ (C.query (p.configNum + 1)).owner p.shard = some p.dst ∧
          p.configNum + 1 ≤ t.num p.dst := by
      intro q before dst shard configNum
      have facts := owned.pulls q before
      rw [dst, shard, configNum] at facts
      rw [quiet.num]
      exact facts
    cases quiet.pulls p pending with
    | old before => exact old p before rfl rfl rfl
    | @asked gid shard cfgNum awaited =>
      obtain ⟨low, current, owner⟩ := (owned.groups gid).comeIn shard cfgNum awaited
      rw [quiet.num]
      exact ⟨low, owner, le_of_eq current.symm⟩
    | again before => exact old _ before rfl rfl rfl
    | answered before owner => exact old _ before rfl rfl rfl
  · intro p pending text answered reply read ok
    cases quiet.replies pending answered with
    | inl before =>
      obtain ⟨shard, configNum, departed⟩ := owned.replies p before text answered reply read ok
      exact ⟨shard, configNum, departed.later later⟩
    | inr new =>
      obtain ⟨q, before, dst, shard, configNum, gid, owner, answer⟩ := new
      obtain ⟨shard, configNum, past, -⟩ := shardMigration_ok answer read ok
      exact ⟨shard, configNum, Departed.later ⟨gid, owner, past⟩ later⟩
  · intro n shard gid held m low high
    exact (owned.chain n shard gid (quiet.held held) m low high).later later

/-- What the next command of a group can be. -/
inductive Turn (C : Configs) (s : Deployment) (gid : Int) (operation : Operation) : ShardKv → Prop
  | config {config : Config} (op : operation.op = .UC) (next : config.configNum = s.num gid + 1)
      (shards : config.shards = (C.query config.configNum).shards)
      (arrived : (s.group gid).kv.comeInShards.keys = []) :
      Turn C s gid operation ((s.group gid).kv.updateComeInAndOutShrads config)
  | nothing (op : operation.op = .UC ∨ operation.op = .UD) :
      Turn C s gid operation (s.group gid).kv
  | again {reply : MigrateReply} (op : operation.op = .UD)
      (there : reply.shard ∈ (s.group gid).kv.availableShards) :
      Turn C s gid operation { (s.group gid).kv with
        comeInShards := (s.group gid).kv.comeInShards.erase reply.shard }
  | shard {reply : MigrateReply} {database : AList fun _ : Str => Str}
      {garbages : AList fun _ : Int => List Int} (op : operation.op = .UD)
      (read : str2MigrateReply operation.value = some reply)
      (handed : Handed C s gid reply.shard reply.configNum)
      (current : reply.configNum + 1 = s.num gid)
      (absent : reply.shard ∉ (s.group gid).kv.availableShards) :
      Turn C s gid operation { (s.group gid).kv with
        comeInShards := (s.group gid).kv.comeInShards.erase reply.shard
        availableShards := (s.group gid).kv.availableShards.insert reply.shard
        clientSeqMap := ShardKv.mergeSeqs (s.group gid).kv.clientSeqMap reply.clientReqId.entries
        database := database
        garbages := garbages }
  | command {kv : ShardKv} (notConfig : operation.op ≠ .UC) (notShard : operation.op ≠ .UD)
      (recorded : (s.group gid).kv.Recorded operation ((s.group gid).applied + 1) kv) :
      Turn C s gid operation kv

theorem Turn.recorded {operation : Operation} {kv : ShardKv} (turn : Turn C s gid operation kv)
    (notConfig : operation.op ≠ .UC) (notShard : operation.op ≠ .UD) :
    (s.group gid).kv.Recorded operation ((s.group gid).applied + 1) kv := by
  cases turn with
  | command _ _ recorded => exact recorded
  | config op => exact absurd op notConfig
  | nothing op => exact absurd op (by simp [notConfig, notShard])
  | again op => exact absurd op notShard
  | shard op => exact absurd op notShard

variable {operation : Operation} {kv : ShardKv}

theorem Owned.turn (owned : Owned C s) (ran : Applied s gid operation kv t) :
    Turn C s gid operation kv := by
  have member : operation ∈ (s.group gid).log := List.mem_of_getElem? ran.next
  rcases ShardKv.applyLoop_cases ran.run with ⟨config, op, read, rfl⟩ | ⟨reply, op, read, rfl⟩ |
    ⟨notConfig, notShard, recorded⟩
  · have next := owned.configs gid operation member op config read
    by_cases newer : config.configNum ≤ s.num gid
    · rw [show (s.group gid).kv.updateComeInAndOutShrads config = (s.group gid).kv from
        if_pos newer]
      exact .nothing (.inl op)
    · have bound := next.next
      have reached : config.configNum = s.num gid + 1 := by omega
      exact .config op reached next.shards (next.arrived reached)
  · rcases ShardKv.updateDataBase_cases (s.group gid).kv reply with same |
      ⟨current, there, same⟩ | ⟨current, absent, database, garbages, same⟩
    · rw [same]
      exact .nothing (.inr op)
    · rw [same]
      exact .again op there
    · rw [same]
      have handed := owned.shards gid operation member op reply read
      refine .shard op read handed ?_ absent
      rw [current, Deployment.num]
      omega
  · exact .command notConfig notShard recorded

theorem owner_congr {config : Config} (shards : config.shards = (C.query n).shards) (shard : Int) :
    config.owner shard = (C.query n).owner shard := by
  rw [Config.owner, Config.owner, shards]

theorem comeIn_empty {kv : ShardKv} (arrived : kv.comeInShards.keys = []) (shard : Int) :
    shard ∉ kv.comeInShards := by
  rw [AList.mem_keys, arrived]
  exact List.not_mem_nil

theorem Turn.owned (turn : Turn C s gid operation kv) (before : GroupOwned C gid (s.group gid).kv) :
    GroupOwned C gid kv := by
  cases turn with
  | @config config op next shards arrived =>
    have newer : (s.group gid).kv.config.configNum < config.configNum := by
      rw [next, Deployment.num]
      omega
    have is := ShardKv.update_config newer
    have low := before.num
    have owner := owner_congr shards
    refine ⟨?_, ?_, ?_, ?_, ?_, ?_⟩
    · rw [(ShardKv.update_frame _ _).1]
      exact before.groupId
    · rw [is]
      omega
    · rw [is]
      exact shards
    · intro shard held
      have mine := ((ShardKv.update_available newer shard).mp held).1
      rw [is, ← owner, mine, before.groupId]
      exact ⟨by omega, rfl⟩
    · intro _ shard mine
      rw [is, ← owner, ← before.groupId] at mine
      by_cases kept : shard ∈ (s.group gid).kv.availableShards ∨
          (s.group gid).kv.config.configNum = 0
      · exact .inl ((ShardKv.update_available newer shard).mpr ⟨mine, kept⟩)
      · refine .inr (AList.lookup_isSome.mp ?_)
        rw [ShardKv.update_comeIn newer, if_pos ⟨mine, kept⟩]
        rfl
    · intro shard n awaited
      rw [ShardKv.update_comeIn newer] at awaited
      split at awaited
      · rename_i new
        cases awaited
        have sameNum : s.num gid = (s.group gid).kv.config.configNum := rfl
        rw [is, next, sameNum]
        refine ⟨?_, rfl, ?_⟩
        · have notFirst : (s.group gid).kv.config.configNum ≠ 0 := fun zero => new.2 (.inr zero)
          omega
        · rw [← sameNum, ← next, ← owner, new.1, before.groupId]
      · have none := AList.lookup_eq_none.mpr (comeIn_empty arrived shard)
        rw [none] at awaited
        cases awaited
  | nothing op => exact before
  | @again reply op there =>
    refine { before with
      complete := fun low shard mine => ?_, comeIn := fun shard n awaited => ?_ }
    · cases before.complete low shard mine with
      | inl held => exact .inl held
      | inr awaited =>
        by_cases same : shard = reply.shard
        · exact .inl (same ▸ there)
        · exact .inr (AList.mem_erase.mpr ⟨same, awaited⟩)
    · by_cases same : shard = reply.shard
      · rw [same, AList.lookup_erase] at awaited
        cases awaited
      · rw [AList.lookup_erase_ne same] at awaited
        exact before.comeIn shard n awaited
  | @shard reply database garbages op read handed current absent =>
    refine { before with
      available := fun shard held => ?_, complete := fun low shard mine => ?_,
      comeIn := fun shard n awaited => ?_ }
    · cases List.mem_insert_iff.mp held with
      | inl new =>
        have low := handed.num
        have sameNum : s.num gid = (s.group gid).kv.config.configNum := rfl
        rw [new, ← sameNum, ← current]
        exact ⟨by omega, handed.owner⟩
      | inr old => exact before.available shard old
    · by_cases same : shard = reply.shard
      · exact .inl (List.mem_insert_iff.mpr (.inl same))
      · cases before.complete low shard mine with
        | inl held => exact .inl (List.mem_insert_iff.mpr (.inr held))
        | inr awaited => exact .inr (AList.mem_erase.mpr ⟨same, awaited⟩)
    · by_cases same : shard = reply.shard
      · rw [same, AList.lookup_erase] at awaited
        cases awaited
      · rw [AList.lookup_erase_ne same] at awaited
        exact before.comeIn shard n awaited
  | command notConfig notShard recorded =>
    obtain ⟨a, b, c, d, e, f⟩ := before
    refine ⟨recorded.groupId.trans a, ?_, ?_, ?_, ?_, ?_⟩ <;>
      simp only [recorded.config, recorded.availableShards, recorded.comeInShards] <;> assumption

theorem Turn.num (turn : Turn C s gid operation kv) :
    kv.config.configNum = s.num gid ∨
      (kv.config.configNum = s.num gid + 1 ∧ (s.group gid).kv.comeInShards.keys = []) := by
  cases turn with
  | @config config op next shards arrived =>
    have newer : (s.group gid).kv.config.configNum < config.configNum := by
      rw [next, Deployment.num]
      omega
    have is := ShardKv.update_config newer
    rw [is]
    exact .inr ⟨next, arrived⟩
  | command notConfig notShard recorded => exact .inl (by rw [recorded.config, Deployment.num])
  | _ => exact .inl rfl

theorem Applied.num_self (ran : Applied s gid operation kv t) :
    t.num gid = kv.config.configNum := by rw [Deployment.num, ran.self]

theorem Applied.num_other (ran : Applied s gid operation kv t) {g : Int} (apart : g ≠ gid) :
    t.num g = s.num g := by rw [Deployment.num, Deployment.num, ran.other apart]

theorem Applied.later (ran : Applied s gid operation kv t) (turn : Turn C s gid operation kv) :
    Later s t := by
  intro g
  by_cases same : g = gid
  · subst same
    have num := turn.num
    rw [ran.num_self, ran.self]
    refine ⟨by omega, fun still arrived => ?_⟩
    cases turn with
    | config op next shards here =>
      have sameNum : s.num g = (s.group g).kv.config.configNum := rfl
      rw [ShardKv.update_config (by omega)] at still
      omega
    | nothing op => exact arrived
    | again op there =>
      simp only [AList.keys_erase, arrived]
      rfl
    | shard op read handed current absent =>
      simp only [AList.keys_erase, arrived]
      rfl
    | command notConfig notShard recorded =>
      rw [recorded.comeInShards]
      exact arrived
  · rw [ran.num_other same, ran.other same]
    exact ⟨le_refl _, fun _ arrived => arrived⟩

theorem Held.before {g : Int} (held : Held C t n shard g) (num : t.num g = s.num g)
    (available : shard ∈ (t.group g).kv.availableShards → shard ∈ (s.group g).kv.availableShards) :
    Held C s n shard g := by
  obtain ⟨owner, place⟩ := held
  rw [num] at place
  exact ⟨owner, place.imp id fun here => ⟨here.1, available here.2⟩⟩

theorem Owned.departed_below (owned : Owned C s) (departed : Departed C s n shard) (low : 1 ≤ m)
    (le : m ≤ n) : Departed C s m shard := by
  obtain ⟨gid, owner, past⟩ := departed
  by_cases same : m = n
  · rw [same]
    exact ⟨gid, owner, past⟩
  · exact owned.chain n shard gid ⟨owner, .inl past⟩ m low (by omega)

theorem Owned.held_config (owned : Owned C s) (low : 1 ≤ s.num gid)
    (owner : (C.query (s.num gid)).owner shard = some gid)
    (arrived : (s.group gid).kv.comeInShards.keys = []) : Held C s (s.num gid) shard gid := by
  refine ⟨owner, .inr ⟨rfl, ?_⟩⟩
  exact ((owned.groups gid).complete low shard owner).resolve_right (comeIn_empty arrived shard)

theorem Owned.apply_chain (owned : Owned C s) (ran : Applied s gid operation kv t)
    (turn : Turn C s gid operation kv) {g : Int} (held : Held C t n shard g) (low : 1 ≤ m)
    (high : m < n) : Departed C t m shard := by
  have later := ran.later turn
  by_cases same : g = gid
  · subst same
    have num := ran.num_self
    cases turn with
    | @config config op next shards arrived =>
      have sameNum : s.num g = (s.group g).kv.config.configNum := rfl
      have newer : (s.group g).kv.config.configNum < config.configNum := by omega
      have is := ShardKv.update_config newer
      rw [is] at num
      obtain ⟨owner, place⟩ := held
      have passed : n ≤ s.num g → Departed C t m shard := by
        intro le
        by_cases past : n < s.num g
        · exact (owned.chain n shard g ⟨owner, .inl past⟩ m low high).later later
        · have here : n = s.num g := by omega
          rw [here] at owner high
          exact (owned.chain _ shard g (owned.held_config (by omega) owner arrived) m low high).later
            later
      cases place with
      | inl past => exact passed (by omega)
      | inr now =>
        obtain ⟨now, held⟩ := now
        rw [ran.self] at held
        cases ((ShardKv.update_available newer shard).mp held).2 with
        | inr first => omega
        | inl kept =>
          obtain ⟨low', mine⟩ := (owned.groups g).available shard kept
          have kept' : Held C s (s.num g) shard g := ⟨mine, .inr ⟨rfl, kept⟩⟩
          by_cases here : m = s.num g
          · rw [here]
            have past : s.num g < t.num g := by omega
            exact ⟨g, mine, past⟩
          · exact (owned.chain _ shard g kept' m low (by omega)).later later
    | nothing op =>
      refine (owned.chain n shard g (held.before num fun here => ?_) m low high).later later
      rwa [ran.self] at here
    | again op there =>
      refine (owned.chain n shard g (held.before num fun here => ?_) m low high).later later
      rwa [ran.self] at here
    | @shard reply database garbages op read handed current absent =>
      by_cases new : shard = reply.shard ∧ n = s.num g
      · obtain ⟨rfl, rfl⟩ := new
        exact (owned.departed_below handed.departed low (by omega)).later later
      · obtain ⟨owner, place⟩ := held
        rw [num] at place
        refine (owned.chain n shard g ⟨owner, place.imp id fun here => ⟨here.1, ?_⟩⟩ m low high).later
          later
        have held := here.2
        rw [ran.self] at held
        have apart : shard ≠ reply.shard := fun same => new ⟨same, here.1.symm⟩
        exact (List.mem_insert_iff.mp held).resolve_left apart
    | command notConfig notShard recorded =>
      rw [recorded.config] at num
      refine (owned.chain n shard g (held.before num fun here => ?_) m low high).later later
      rwa [ran.self, recorded.availableShards] at here
  · refine (owned.chain n shard g (held.before (ran.num_other same) fun here => ?_) m low high).later
      later
    rwa [ran.other same] at here

theorem Owned.apply (owned : Owned C s) (ran : Applied s gid operation kv t) : Owned C t := by
  have turn := owned.turn ran
  have later := ran.later turn
  have updates : t.updates = s.updates := by rw [ran.state]; rfl
  have pulls : t.pulls = s.pulls := by rw [ran.state]; rfl
  refine ⟨fun g => ?_, ?_, ?_, ?_, ?_, ?_, ?_⟩
  · by_cases same : g = gid
    · rw [same, ran.self]
      exact turn.owned (owned.groups gid)
    · rw [ran.other same]
      exact owned.groups g
  · intro g operation member op config read
    rw [ran.log] at member
    exact (owned.configs g operation member op config read).later later
  · intro g operation member op reply read
    rw [ran.log] at member
    exact (owned.shards g operation member op reply read).later later
  · intro u pending
    rw [updates] at pending
    obtain ⟨low, next⟩ := owned.updates u pending
    exact ⟨low, next.later later⟩
  · intro p pending
    rw [pulls] at pending
    obtain ⟨low, owner, reached⟩ := owned.pulls p pending
    exact ⟨low, owner, reached.trans (later p.dst).1⟩
  · intro p pending text answered reply read ok
    rw [pulls] at pending
    obtain ⟨shard, configNum, departed⟩ := owned.replies p pending text answered reply read ok
    exact ⟨shard, configNum, departed.later later⟩
  · exact fun n shard g held m low high => owned.apply_chain ran turn held low high

theorem Owned.step {a : Step} (owned : Owned C s) (next : s.step C a = some t) : Owned C t := by
  rcases step_cases next with ⟨gid, operation, kv, rfl, ran⟩ | quiet
  · exact owned.apply ran
  · exact owned.quiet quiet

theorem owned (reach : Reachable (machine C) s) : Owned C s := by
  refine reach.invariant (P := Owned C) ?_ fun s a t owned _ next => owned.step next
  rintro s rfl
  exact .boot

theorem holder_unique (owned : Owned C s) {g g' : Int}
    (holds : shard ∈ (s.group g).kv.availableShards)
    (holds' : shard ∈ (s.group g').kv.availableShards) : g = g' := by
  obtain ⟨low, owner⟩ := (owned.groups g).available shard holds
  obtain ⟨low', owner'⟩ := (owned.groups g').available shard holds'
  have held : Held C s (s.num g) shard g := ⟨owner, .inr ⟨rfl, holds⟩⟩
  have held' : Held C s (s.num g') shard g' := ⟨owner', .inr ⟨rfl, holds'⟩⟩
  rcases lt_trichotomy (s.num g) (s.num g') with less | same | less
  · obtain ⟨h, mine, past⟩ := owned.chain _ shard g' held' (s.num g) low less
    rw [show (C.query (s.num g)).owner shard = some g from owner] at mine
    cases mine
    exact absurd past (lt_irrefl _)
  · have mine : (C.query (s.num g)).owner shard = some g := owner
    have mine' : (C.query (s.num g')).owner shard = some g' := owner'
    rw [same, mine'] at mine
    exact (Option.some.inj mine).symm
  · obtain ⟨h, mine, past⟩ := owned.chain _ shard g held (s.num g') low' less
    rw [show (C.query (s.num g')).owner shard = some g' from owner'] at mine
    cases mine
    exact absurd past (lt_irrefl _)

end Deployment

end ProjectsCpp.Sharding
