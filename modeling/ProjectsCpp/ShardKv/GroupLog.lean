import ProjectsCpp.ShardKv.Deployment

/-! The replicas of one group over their logs (`shardKv/server.cpp`). Any replica may lead
for a while; what it has started stands in its log, and an entry is committed when a replica
whose log holds the committed one has spread it. A log is backed when every UC in it was
started with nothing left to come in, and every UD for a shard that was awaited then. -/

namespace ProjectsCpp.Sharding
open ProjectsCpp.Text ProjectsCpp.Run

/-! ### What decides a change of configuration -/

structure View where
  groupId : Int
  config : Config
  available : List Int
  comeIn : AList fun _ : Int => Int

def ShardKv.view (kv : ShardKv) : View :=
  ⟨kv.groupId, kv.config, kv.availableShards, kv.comeInShards⟩

namespace View
variable {v : View} {config : Config} {reply : MigrateReply} {operation : Operation}

def start (gid : Int) : View := ⟨gid, .empty, [], ∅⟩

def num (v : View) : Int := v.config.configNum

def Arrived (v : View) : Prop := v.comeIn.keys = []

def update (v : View) (config : Config) : View :=
  if config.configNum ≤ v.num then v
  else
    let r := ShardKv.sortShards v.groupId v.num 0 config.shards ⟨v.available, [], v.comeIn⟩
    ⟨v.groupId, config, r.available, r.comeIn⟩

def takeIn (v : View) (reply : MigrateReply) : View :=
  if reply.configNum ≠ v.num - 1 then v
  else { v with comeIn := v.comeIn.erase reply.shard, available := v.available.insert reply.shard }

/-- A text that cannot be read stops the replica, so it changes no view. -/
def apply (v : View) (operation : Operation) : View :=
  match operation.op with
  | .UC => (getConfig operation.value).elim v v.update
  | .UD => (str2MigrateReply operation.value).elim v v.takeIn
  | _ => v

/-- The view of a replica that has applied the log. -/
def after (gid : Int) (log : List Operation) : View := log.foldl apply (start gid)

theorem after_concat (gid : Int) (log : List Operation) (operation : Operation) :
    after gid (log ++ [operation]) = (after gid log).apply operation := by
  rw [after, List.foldl_append]
  rfl

theorem update_old (old : config.configNum ≤ v.num) : v.update config = v := if_pos old

theorem update_num (newer : v.num < config.configNum) :
    (v.update config).num = config.configNum := by
  rw [update, if_neg (not_le.mpr newer)]
  rfl

theorem takeIn_config (v : View) (reply : MigrateReply) : (v.takeIn reply).config = v.config := by
  rw [takeIn]
  split <;> rfl

theorem apply_cases (v : View) (operation : Operation) :
    v.apply operation = v ∨
      (∃ config, operation.op = .UC ∧ getConfig operation.value = some config ∧
        v.num < config.configNum ∧ v.apply operation = v.update config) ∨
      ∃ reply : MigrateReply, v.apply operation =
        { v with
          comeIn := v.comeIn.erase reply.shard
          available := v.available.insert reply.shard } := by
  rw [apply]
  split
  · rename_i op
    cases read : getConfig operation.value with
    | none => exact .inl rfl
    | some config =>
      rw [Option.elim_some]
      by_cases old : config.configNum ≤ v.num
      · exact .inl (update_old old)
      · exact .inr (.inl ⟨config, op, rfl, not_le.mp old, rfl⟩)
  · cases str2MigrateReply operation.value with
    | none => exact .inl rfl
    | some reply =>
      rw [Option.elim_some, takeIn]
      split
      · exact .inl rfl
      · exact .inr (.inr ⟨reply, rfl⟩)
  · exact .inl rfl

theorem apply_forward (v : View) (operation : Operation) :
    v.num ≤ (v.apply operation).num ∧
      ((v.apply operation).num = v.num → v.Arrived → (v.apply operation).Arrived) := by
  rcases v.apply_cases operation with same | ⟨config, op, read, newer, same⟩ | ⟨reply, same⟩
  · rw [same]
    exact ⟨le_refl _, fun _ arrived => arrived⟩
  · rw [same, update_num newer]
    exact ⟨le_of_lt newer, fun still => absurd still (ne_of_gt newer)⟩
  · rw [same]
    refine ⟨le_refl _, fun _ arrived => ?_⟩
    change (v.comeIn.erase reply.shard).keys = []
    rw [AList.keys_erase, show v.comeIn.keys = [] from arrived]
    rfl

theorem after_forward (gid : Int) (log : List Operation) {j p : Nat} (le : j ≤ p) :
    (after gid (log.take j)).num ≤ (after gid (log.take p)).num ∧
      ((after gid (log.take p)).num = (after gid (log.take j)).num →
        (after gid (log.take j)).Arrived → (after gid (log.take p)).Arrived) := by
  induction p, le using Nat.le_induction with
  | base => exact ⟨le_refl _, fun _ arrived => arrived⟩
  | succ p le ih =>
    cases next : log[p]? with
    | none =>
      have past := List.getElem?_eq_none_iff.mp next
      have whole : log.take (p + 1) = log.take p := by
        rw [List.take_of_length_le (Nat.le_succ_of_le past), List.take_of_length_le past]
      rw [whole]
      exact ih
    | some operation =>
      rw [List.take_add_one, next, Option.toList_some, after_concat]
      obtain ⟨grows, stays⟩ := (after gid (log.take p)).apply_forward operation
      refine ⟨ih.1.trans grows, fun same arrived => stays ?_ (ih.2 ?_ arrived)⟩
      · have first := ih.1
        omega
      · have first := ih.1
        omega

end View

namespace ShardKv
variable {kv s : ShardKv} {operation : Operation} {index : Int}

theorem view_update (kv : ShardKv) (config : Config) :
    (kv.updateComeInAndOutShrads config).view = kv.view.update config := by
  rw [updateComeInAndOutShrads, View.update]
  by_cases old : config.configNum ≤ kv.config.configNum
  · rw [if_pos old, if_pos (show config.configNum ≤ kv.view.num from old)]
  · rw [if_neg old, if_neg (show ¬ config.configNum ≤ kv.view.num from old)]
    rfl

theorem view_updateDataBase (kv : ShardKv) (reply : MigrateReply) :
    (kv.updateDataBaseWithMigrateReply reply).view = kv.view.takeIn reply := by
  rw [updateDataBaseWithMigrateReply, View.takeIn]
  by_cases late : reply.configNum ≠ kv.config.configNum - 1
  · rw [if_pos late, if_pos (show reply.configNum ≠ kv.view.num - 1 from late)]
  · rw [if_neg late, if_neg (show ¬ reply.configNum ≠ kv.view.num - 1 from late)]
    by_cases there : reply.shard ∈ kv.availableShards
    · simp only [there, if_true]
      simp [view, List.insert_of_mem there]
    · simp only [there, if_false]
      rfl

theorem view_applyLoop (run : kv.applyLoop operation index = some s) :
    s.view = kv.view.apply operation := by
  rw [View.apply]
  rcases applyLoop_cases run with ⟨config, op, read, rfl⟩ | ⟨reply, op, read, rfl⟩ |
    ⟨notConfig, notShard, recorded⟩
  · simp only [op, read, Option.elim_some]
    exact kv.view_update config
  · simp only [op, read, Option.elim_some]
    exact kv.view_updateDataBase reply
  · have same : s.view = kv.view := by
      rw [view, view, recorded.groupId, recorded.config, recorded.availableShards,
        recorded.comeInShards]
    rw [same]
    split
    · exact absurd ‹_› notConfig
    · exact absurd ‹_› notShard
    · rfl

theorem view_congr (same : Deployment.SameShards kv s) : s.view = kv.view := by
  rw [view, view, same.groupId, same.config, same.availableShards, same.comeInShards]

end ShardKv

/-! ### The replicas and their logs -/

deriving instance DecidableEq for Operation

structure Replica where
  kv : ShardKv
  applied : Nat
  log : List Operation

structure ReplicaGroup where
  replica : Int → Replica
  committed : List Operation
  /-- turns of `updateConfigLoop` after their test: the replica and `nextCfgNum` -/
  updates : List (Int × Int)
  /-- `doPullShard` threads: the replica, the shard and its configuration -/
  pulls : List (Int × Int × Int)

namespace ReplicaGroup

/-- `replicate` stands for what a follower takes over from the log of another replica, and
`requests` for the handlers that enter and leave `m_requestMap`. -/
inductive Step where
  | apply (i : Int)
  | requests (i : Int) (contexts : AList fun _ : Int => OpContext)
  | shardMigration (i shard configNum : Int)
  | garbageFinished (i configNum shard : Int)
  | readConfig (i : Int)
  | updateConfig (k : Nat) (config : Config) (term : Int)
  | pullShard (i shard : Int)
  | updateDataBase (k : Nat) (reply : MigrateReply) (term : Int)
  | propose (i : Int) (operation : Operation)
  | replicate (leader follower : Int) (length : Nat)
  | commit (i : Int) (length : Nat)

def boot (gid : Int) : ReplicaGroup := ⟨fun _ => ⟨.start gid, 0, []⟩, [], [], []⟩

def setReplica (s : ReplicaGroup) (i : Int) (r : Replica) : ReplicaGroup :=
  { s with replica := Function.update s.replica i r }

def setKv (s : ReplicaGroup) (i : Int) (kv : ShardKv) : ReplicaGroup :=
  s.setReplica i { s.replica i with kv := kv }

def setLog (s : ReplicaGroup) (i : Int) (log : List Operation) : ReplicaGroup :=
  s.setReplica i { s.replica i with log := log }

/-- A replica may lead when its log holds the committed one. -/
def Leads (s : ReplicaGroup) (i : Int) : Prop := s.committed <+: (s.replica i).log

instance (s : ReplicaGroup) (i : Int) : Decidable (s.Leads i) := by
  unfold Leads
  infer_instance

/-- `m_raft.start` of a leader. -/
def start (s : ReplicaGroup) (i : Int) (operation : Operation) : Option ReplicaGroup :=
  if s.Leads i then some (s.setLog i ((s.replica i).log ++ [operation])) else none

def step (s : ReplicaGroup) : Step → Option ReplicaGroup
  | .apply i => s.committed[(s.replica i).applied]?.bind fun operation =>
      ((s.replica i).kv.applyLoop operation ((s.replica i).applied + 1)).map fun kv =>
        s.setReplica i ⟨kv, (s.replica i).applied + 1, (s.replica i).log⟩
  | .requests i contexts => some (s.setKv i { (s.replica i).kv with requestMap := contexts })
  | .shardMigration i shard configNum =>
    some (s.setKv i ((s.replica i).kv.shardMigration shard configNum).1)
  | .garbageFinished i configNum shard =>
    some (s.setKv i ((s.replica i).kv.dropGarbage configNum shard))
  | .readConfig i =>
    if (s.replica i).kv.comeInShards.keys = [] then
      some { s with updates := (i, (s.replica i).kv.config.configNum + 1) :: s.updates }
    else none
  | .updateConfig k config term => s.updates[k]?.bind fun u =>
      if config.configNum = u.2 ∧ config.shards.length = NShards then
        (s.start u.1 ⟨.UC, [], getStringFromConfig config, 0, 0, term⟩).map fun t =>
          { t with updates := s.updates.eraseIdx k }
      else none
  | .pullShard i shard => ((s.replica i).kv.comeInShards.lookup shard).map fun cfgNum =>
      { s with pulls := (i, shard, cfgNum) :: s.pulls }
  | .updateDataBase k reply term => s.pulls[k]?.bind fun p =>
      if reply.err = OK ∧ reply.shard = p.2.1 ∧ reply.configNum = p.2.2 then
        (s.start p.1 ⟨.UD, [], migrateReply2Str reply, 0, 0, term⟩).map fun t =>
          { t with pulls := s.pulls.eraseIdx k }
      else none
  | .propose i operation =>
    if operation.op ≠ .UC ∧ operation.op ≠ .UD then s.start i operation else none
  | .replicate leader follower length =>
    some (s.setLog follower ((s.replica leader).log.take length))
  | .commit i length =>
    if s.committed <+: (s.replica i).log.take length then
      some { s with committed := (s.replica i).log.take length }
    else none

def machine (gid : Int) : Machine ReplicaGroup Step := ⟨fun s => s = boot gid, step⟩

end ReplicaGroup

/-! ### Backed logs -/

/-- What the entry at position `p` was started for holds before it. -/
structure Backed (gid : Int) (log : List Operation) (p : Nat) (operation : Operation) : Prop where
  config : operation.op = .UC → ∀ config, getConfig operation.value = some config →
    ∃ j, j ≤ p ∧ (View.after gid (log.take j)).num + 1 = config.configNum ∧
      (View.after gid (log.take j)).Arrived
  shard : operation.op = .UD → ∀ reply, str2MigrateReply operation.value = some reply →
    ∃ j, j ≤ p ∧ (View.after gid (log.take j)).num = reply.configNum + 1

def AllBacked (gid : Int) (log : List Operation) : Prop :=
  ∀ p operation, log[p]? = some operation → Backed gid log p operation

variable {gid : Int} {log log' : List Operation} {p : Nat} {operation : Operation}

theorem Backed.congr (backed : Backed gid log p operation) (same : log'.take p = log.take p) :
    Backed gid log' p operation := by
  have upTo : ∀ j, j ≤ p → log'.take j = log.take j := by
    intro j le
    rw [← min_eq_left le, ← List.take_take, same, List.take_take]
  refine ⟨fun op config read => ?_, fun op reply read => ?_⟩
  · obtain ⟨j, le, num, arrived⟩ := backed.config op config read
    exact ⟨j, le, by rw [upTo j le]; exact num, by rw [upTo j le]; exact arrived⟩
  · obtain ⟨j, le, num⟩ := backed.shard op reply read
    exact ⟨j, le, by rw [upTo j le]; exact num⟩

theorem AllBacked.take (all : AllBacked gid log) (m : Nat) : AllBacked gid (log.take m) := by
  intro p operation found
  rw [List.getElem?_take] at found
  split at found
  · refine (all p operation found).congr ?_
    rw [List.take_take, min_eq_left (by omega)]
  · cases found

theorem AllBacked.concat (all : AllBacked gid log) (backed : Backed gid log log.length operation) :
    AllBacked gid (log ++ [operation]) := by
  intro p o found
  by_cases last : p < log.length
  · rw [List.getElem?_append_left last] at found
    refine (all p o found).congr ?_
    rw [List.take_append_of_le_length (le_of_lt last)]
  · have bound := (List.getElem?_eq_some_iff.mp found).1
    rw [List.length_append, List.length_singleton] at bound
    have here : p = log.length := by omega
    subst here
    rw [List.getElem?_append_right (le_refl _), Nat.sub_self] at found
    cases found
    refine backed.congr ?_
    rw [List.take_append_of_le_length (le_refl _)]

theorem AllBacked.next (all : AllBacked gid log) (found : log[p]? = some operation)
    (op : operation.op = .UC) {config : Config} (read : getConfig operation.value = some config)
    (newer : (View.after gid (log.take p)).num < config.configNum) :
    config.configNum = (View.after gid (log.take p)).num + 1 ∧
      (View.after gid (log.take p)).Arrived := by
  obtain ⟨j, le, num, arrived⟩ := (all p operation found).config op config read
  obtain ⟨forward, stays⟩ := View.after_forward gid log le
  have same : (View.after gid (log.take p)).num = (View.after gid (log.take j)).num := by omega
  exact ⟨by omega, stays same arrived⟩

/-- Shards come in from the configuration before. -/
def View.InStep (v : View) : Prop := ∀ shard n, v.comeIn.lookup shard = some n → v.num = n + 1

theorem View.InStep.update {v : View} {config : Config} (arrived : v.Arrived)
    (next : config.configNum = v.num + 1) : (v.update config).InStep := by
  have newer : v.num < config.configNum := by omega
  intro shard n awaited
  rw [View.update_num newer]
  rw [View.update, if_neg (not_le.mpr newer), ShardKv.lookup_sortShards] at awaited
  split at awaited
  · cases awaited
    exact next
  · have none : v.comeIn.lookup shard = none := by
      rw [AList.lookup_eq_none, AList.mem_keys, show v.comeIn.keys = [] from arrived]
      exact List.not_mem_nil
    rw [none] at awaited
    cases awaited

theorem AllBacked.inStep (all : AllBacked gid log) (p : Nat) :
    (View.after gid (log.take p)).InStep := by
  induction p with
  | zero => exact nofun
  | succ p ih =>
    cases found : log[p]? with
    | none =>
      have past := List.getElem?_eq_none_iff.mp found
      have whole : log.take (p + 1) = log.take p := by
        rw [List.take_of_length_le (Nat.le_succ_of_le past), List.take_of_length_le past]
      rw [whole]
      exact ih
    | some operation =>
      rw [List.take_add_one, found, Option.toList_some, View.after_concat]
      rcases (View.after gid (log.take p)).apply_cases operation with same |
        ⟨config, op, read, newer, same⟩ | ⟨reply, same⟩
      · rw [same]
        exact ih
      · obtain ⟨next, arrived⟩ := all.next found op read newer
        rw [same]
        exact .update arrived next
      · rw [same]
        intro shard n awaited
        by_cases here : shard = reply.shard
        · rw [here, AList.lookup_erase] at awaited
          cases awaited
        · rw [AList.lookup_erase_ne here] at awaited
          exact ih shard n awaited

/-! ### Runs of a group -/

namespace ReplicaGroup
variable {s t : ReplicaGroup} {i : Int}

/-- The committed log, at some point, shows this. -/
def Seen (gid : Int) (s : ReplicaGroup) (P : View → Prop) : Prop :=
  ∃ j, j ≤ s.committed.length ∧ P (View.after gid (s.committed.take j))

structure Sequenced (gid : Int) (s : ReplicaGroup) : Prop where
  replicas : ∀ i, (s.replica i).applied ≤ s.committed.length ∧
    (s.replica i).kv.view = View.after gid (s.committed.take (s.replica i).applied)
  logs : ∀ i, AllBacked gid (s.replica i).log
  committed : AllBacked gid s.committed
  updates : ∀ u ∈ s.updates, s.Seen gid fun v => v.num + 1 = u.2 ∧ v.Arrived
  pulls : ∀ p ∈ s.pulls, s.Seen gid fun v => v.num = p.2.2 + 1

theorem take_prefixed {before : List Operation} (grown : before <+: log) {j : Nat}
    (le : j ≤ before.length) : log.take j = before.take j := by
  obtain ⟨more, rfl⟩ := grown
  exact List.take_append_of_le_length le

theorem Seen.prolong {P : View → Prop} (seen : s.Seen gid P) (grown : s.committed <+: log) :
    ∃ j, j ≤ log.length ∧ P (View.after gid (log.take j)) := by
  obtain ⟨j, le, holds⟩ := seen
  refine ⟨j, le.trans grown.length_le, ?_⟩
  rw [take_prefixed grown le]
  exact holds

theorem Sequenced.boot : Sequenced gid (boot gid) :=
  ⟨fun _ => ⟨le_refl _, rfl⟩, fun _ => nofun, nofun, nofun, nofun⟩

theorem Sequenced.setReplica {r : Replica} (sequenced : Sequenced gid s)
    (replica : r.applied ≤ s.committed.length ∧
      r.kv.view = View.after gid (s.committed.take r.applied))
    (log : AllBacked gid r.log) : Sequenced gid (s.setReplica i r) := by
  have self : (s.setReplica i r).replica i = r := Function.update_self _ _ _
  have other : ∀ j, j ≠ i → (s.setReplica i r).replica j = s.replica j :=
    fun j apart => Function.update_of_ne apart _ _
  refine { sequenced with replicas := fun j => ?_, logs := fun j => ?_ } <;> by_cases same : j = i
  · rw [same, self]
    exact replica
  · rw [other j same]
    exact sequenced.replicas j
  · rw [same, self]
    exact log
  · rw [other j same]
    exact sequenced.logs j

theorem Sequenced.setKv {kv : ShardKv} (sequenced : Sequenced gid s)
    (same : kv.view = (s.replica i).kv.view) : Sequenced gid (s.setKv i kv) := by
  obtain ⟨bound, view⟩ := sequenced.replicas i
  exact sequenced.setReplica ⟨bound, same.trans view⟩ (sequenced.logs i)

theorem Sequenced.setLog (sequenced : Sequenced gid s) (backed : AllBacked gid log) :
    Sequenced gid (s.setLog i log) := sequenced.setReplica (sequenced.replicas i) backed

theorem start_eq (started : s.start i operation = some t) :
    s.Leads i ∧ t = s.setLog i ((s.replica i).log ++ [operation]) := by
  rw [ReplicaGroup.start] at started
  split at started
  · exact ⟨‹_›, (Option.some.inj started).symm⟩
  · cases started

theorem Sequenced.start (sequenced : Sequenced gid s) (started : s.start i operation = some t)
    (backed : s.committed <+: (s.replica i).log →
      Backed gid (s.replica i).log (s.replica i).log.length operation) : Sequenced gid t := by
  obtain ⟨leads, rfl⟩ := start_eq started
  exact sequenced.setLog ((sequenced.logs i).concat (backed leads))

theorem Sequenced.apply {kv : ShardKv} (sequenced : Sequenced gid s)
    (next : s.committed[(s.replica i).applied]? = some operation)
    (run : (s.replica i).kv.applyLoop operation ((s.replica i).applied + 1) = some kv) :
    Sequenced gid (s.setReplica i ⟨kv, (s.replica i).applied + 1, (s.replica i).log⟩) := by
  obtain ⟨bound, view⟩ := sequenced.replicas i
  have inside := (List.getElem?_eq_some_iff.mp next).1
  refine sequenced.setReplica ⟨inside, ?_⟩ (sequenced.logs i)
  rw [ShardKv.view_applyLoop run, view, List.take_add_one, next, Option.toList_some,
    View.after_concat]

theorem Sequenced.commit (sequenced : Sequenced gid s) (grown : s.committed <+: log)
    (backed : AllBacked gid log) : Sequenced gid { s with committed := log } := by
  refine ⟨fun j => ?_, sequenced.logs, backed, fun u pending => ?_, fun p pending => ?_⟩
  · obtain ⟨bound, view⟩ := sequenced.replicas j
    refine ⟨bound.trans grown.length_le, ?_⟩
    rw [take_prefixed grown bound]
    exact view
  · exact (sequenced.updates u pending).prolong grown
  · exact (sequenced.pulls p pending).prolong grown

theorem backed_config {config : Config} {term : Int}
    (sized : config.shards.length = NShards)
    (seen : ∃ j, j ≤ log.length ∧ (View.after gid (log.take j)).num + 1 = config.configNum ∧
      (View.after gid (log.take j)).Arrived) :
    Backed gid log log.length ⟨.UC, [], getStringFromConfig config, 0, 0, term⟩ := by
  refine ⟨fun _ told read => ?_, nofun⟩
  have owners : config.shards ≠ [] := by
    intro nothing
    rw [nothing] at sized
    cases sized
  have same : told.configNum = config.configNum := (getConfig_getString owners read).1
  rw [same]
  exact seen

theorem backed_shard {reply : MigrateReply} {term : Int} (ok : reply.err = OK)
    (seen : ∃ j, j ≤ log.length ∧ (View.after gid (log.take j)).num = reply.configNum + 1) :
    Backed gid log log.length ⟨.UD, [], migrateReply2Str reply, 0, 0, term⟩ := by
  refine ⟨nofun, fun _ again read => ?_⟩
  have word : reply.err ≠ [] ∧ '|' ∉ reply.err := by
    rw [ok]
    decide
  have same : again.configNum = reply.configNum := (str2MigrateReply_sent word read).configNum
  rw [same]
  exact seen

theorem Sequenced.step {a : Step} (sequenced : Sequenced gid s) (next : s.step a = some t) :
    Sequenced gid t := by
  cases a with
  | apply i =>
    obtain ⟨operation, found, ran⟩ := Option.bind_eq_some_iff.mp next
    obtain ⟨kv, run, rfl⟩ := Option.map_eq_some_iff.mp ran
    exact sequenced.apply found run
  | requests i contexts =>
    cases next
    exact sequenced.setKv rfl
  | shardMigration i shard configNum =>
    cases next
    exact sequenced.setKv (ShardKv.view_congr (Deployment.shardMigration_shards _ _ _).1)
  | garbageFinished i configNum shard =>
    cases next
    exact sequenced.setKv rfl
  | readConfig i =>
    simp only [ReplicaGroup.step] at next
    split at next <;> cases next
    rename_i arrived
    refine { sequenced with updates := fun u pending => ?_ }
    cases List.mem_cons.mp pending with
    | inl new =>
      obtain ⟨bound, view⟩ := sequenced.replicas i
      refine ⟨(s.replica i).applied, bound, ?_⟩
      rw [new, ← view]
      exact ⟨rfl, arrived⟩
    | inr before => exact sequenced.updates u before
  | updateConfig k config term =>
    obtain ⟨u, pending, asked⟩ := Option.bind_eq_some_iff.mp next
    split at asked
    · rename_i told
      obtain ⟨v, started, rfl⟩ := Option.map_eq_some_iff.mp asked
      have seen := sequenced.updates u (List.mem_of_getElem? pending)
      have after := sequenced.start started fun leads =>
        backed_config told.2 (told.1 ▸ seen.prolong leads)
      obtain ⟨-, rfl⟩ := start_eq started
      exact { after with
        updates := fun w left => sequenced.updates w (List.mem_of_mem_eraseIdx left) }
    · cases asked
  | pullShard i shard =>
    obtain ⟨cfgNum, awaited, rfl⟩ := Option.map_eq_some_iff.mp next
    refine { sequenced with pulls := fun p pending => ?_ }
    cases List.mem_cons.mp pending with
    | inl new =>
      obtain ⟨bound, view⟩ := sequenced.replicas i
      refine ⟨(s.replica i).applied, bound, ?_⟩
      rw [new]
      refine sequenced.committed.inStep _ shard cfgNum ?_
      rw [← view]
      exact awaited
    | inr before => exact sequenced.pulls p before
  | updateDataBase k reply term =>
    obtain ⟨p, pending, asked⟩ := Option.bind_eq_some_iff.mp next
    split at asked
    · rename_i told
      obtain ⟨v, started, rfl⟩ := Option.map_eq_some_iff.mp asked
      have seen := sequenced.pulls p (List.mem_of_getElem? pending)
      have after := sequenced.start started fun leads =>
        backed_shard told.1 (told.2.2 ▸ seen.prolong leads)
      obtain ⟨-, rfl⟩ := start_eq started
      exact { after with
        pulls := fun q left => sequenced.pulls q (List.mem_of_mem_eraseIdx left) }
    · cases asked
  | propose i operation =>
    simp only [ReplicaGroup.step] at next
    split at next
    · rename_i other
      refine sequenced.start next fun _ => ⟨fun op => absurd op other.1, fun op => absurd op other.2⟩
    · cases next
  | replicate leader follower length =>
    cases next
    exact sequenced.setLog ((sequenced.logs leader).take length)
  | commit i length =>
    simp only [ReplicaGroup.step] at next
    split at next
    · rename_i grown
      cases next
      exact sequenced.commit grown ((sequenced.logs i).take length)
    · cases next

theorem sequenced (reach : Reachable (machine gid) s) : Sequenced gid s := by
  refine reach.invariant (P := Sequenced gid) ?_ fun s a t sequenced _ next => sequenced.step next
  rintro s rfl
  exact .boot

/-- A command that changes the configuration of a replica takes it to the next one, and finds
nothing left to come in. -/
theorem config_changes_by_one (reach : Reachable (machine gid) s) {kv : ShardKv}
    (next : s.committed[(s.replica i).applied]? = some operation)
    (run : (s.replica i).kv.applyLoop operation ((s.replica i).applied + 1) = some kv)
    (changed : kv.config ≠ (s.replica i).kv.config) :
    kv.config.configNum = (s.replica i).kv.config.configNum + 1 ∧
      (s.replica i).kv.comeInShards.keys = [] := by
  have sequenced := sequenced reach
  have view := (sequenced.replicas i).2
  rcases ShardKv.applyLoop_cases run with ⟨config, op, read, rfl⟩ | ⟨reply, op, read, rfl⟩ |
    ⟨notConfig, notShard, recorded⟩
  · have newer : (s.replica i).kv.config.configNum < config.configNum := by
      by_contra old
      refine changed ?_
      rw [ShardKv.updateComeInAndOutShrads, if_pos (not_lt.mp old)]
    have num : (View.after gid (s.committed.take (s.replica i).applied)).num =
        (s.replica i).kv.config.configNum := by
      rw [← view]
      rfl
    obtain ⟨byOne, arrived⟩ := sequenced.committed.next next op read (by omega)
    rw [← view] at arrived
    rw [ShardKv.update_config newer]
    exact ⟨by omega, arrived⟩
  · have same := congrArg View.config (ShardKv.view_updateDataBase (s.replica i).kv reply)
    exact absurd (same.trans (View.takeIn_config _ reply)) changed
  · exact absurd recorded.config changed

/-- Shard 0 goes from group 2 to group 1, with a pair and twice, and then comes a configuration more. -/
def movedShard : List Step :=
  let moved : MigrateReply := ⟨OK, 0, 1, AList.insert ['a'] ['x'] ∅, ∅⟩
  [.readConfig 0, .updateConfig 0 ⟨1, 2 :: List.replicate 9 1, ∅⟩ 1, .commit 0 1, .apply 0,
    .readConfig 0, .updateConfig 0 ⟨2, List.replicate NShards 1, ∅⟩ 1, .commit 0 2, .apply 0,
    .pullShard 0 0, .pullShard 0 0, .updateDataBase 0 moved 1, .updateDataBase 0 moved 1,
    .commit 0 4, .apply 0, .apply 0,
    .readConfig 0, .updateConfig 0 ⟨3, List.replicate NShards 1, ∅⟩ 1, .commit 0 5]

theorem config_changes_by_one_moved :
    ∃ s kv operation, Reachable (machine 1) s ∧
      s.committed[(s.replica 0).applied]? = some operation ∧
      (s.replica 0).kv.applyLoop operation ((s.replica 0).applied + 1) = some kv ∧
      (s.replica 0).kv.database.lookup ['a'] = some ['x'] ∧
      kv.config.configNum = (s.replica 0).kv.config.configNum + 1 ∧
      (s.replica 0).kv.comeInShards.keys = [] := by
  have runs : ((exec (machine 1) (boot 1) movedShard).any fun s =>
      s.committed[(s.replica 0).applied]?.any fun operation =>
        ((s.replica 0).kv.applyLoop operation ((s.replica 0).applied + 1)).any fun kv =>
          decide (kv.config.configNum ≠ (s.replica 0).kv.config.configNum ∧
            (s.replica 0).kv.database.lookup ['a'] = some ['x'])) = true := by
    decide +kernel
  obtain ⟨s, ran, rest⟩ := (Option.any_eq_true _ _).mp runs
  obtain ⟨operation, next, rest⟩ := (Option.any_eq_true _ _).mp rest
  obtain ⟨kv, run, rest⟩ := (Option.any_eq_true _ _).mp rest
  obtain ⟨changed, arrived⟩ := of_decide_eq_true rest
  have boots : Reachable (machine 1) (boot 1) := .start rfl
  have reach : Reachable (machine 1) s := Reach.exec boots ran
  have differ : kv.config ≠ (s.replica 0).kv.config := fun same => changed (by rw [same])
  exact ⟨s, kv, operation, reach, next, run, arrived, config_changes_by_one reach next run differ⟩

end ReplicaGroup

end ProjectsCpp.Sharding
