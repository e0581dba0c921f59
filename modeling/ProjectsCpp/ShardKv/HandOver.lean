import ProjectsCpp.ShardKv.ExactlyOnce
import ProjectsCpp.ShardKv.Pairs
import ProjectsCpp.ShardKv.Replicas

/-! What a group hands over. A history beside the deployment keeps the pairs that a group had
for a shard when a configuration took it away; `toOutShards`, the answers to pulls and the UD
commands hold these pairs, until the shard has come in where it belongs. -/

namespace ProjectsCpp.Sharding
open ProjectsCpp.Text ProjectsCpp.Run

/-! ### What commands do to the pairs -/

namespace ShardKv
variable {kv t : ShardKv} {operation : Operation} {index n shard : Int} {key : Str}

def garbage (kv : ShardKv) (cfgNum : Int) : List Int := (kv.garbages.lookup cfgNum).getD []

theorem clearToOutData_eq (kv : ShardKv) (cfgNum shard : Int) :
    ∃ toOut, kv.clearToOutData cfgNum shard = { kv with toOutShards := toOut } ∧
      ∀ n x, outData toOut n x =
        if n = cfgNum ∧ x = shard then ∅ else outData kv.toOutShards n x := by
  rw [clearToOutData]
  cases found : kv.toOutShards.lookup cfgNum with
  | none =>
    refine ⟨_, rfl, fun n x => ?_⟩
    by_cases here : n = cfgNum ∧ x = shard
    · rw [if_pos here, outData, here.1, found]
      rfl
    · rw [if_neg here]
  | some byShard =>
    refine ⟨_, rfl, fun n x => ?_⟩
    by_cases num : n = cfgNum
    · subst num
      have left : outData (if (byShard.erase shard).keys = [] then kv.toOutShards.erase n
          else kv.toOutShards.insert n (byShard.erase shard)) n x =
            ((byShard.erase shard).lookup x).getD ∅ := by
        split
        · rename_i nothing
          have absent : x ∉ byShard.erase shard := by
            rw [AList.mem_keys, nothing]
            exact List.not_mem_nil
          rw [outData, AList.lookup_erase, AList.lookup_eq_none.mpr absent]
          rfl
        · rw [outData, AList.lookup_insert]
          rfl
      rw [left]
      by_cases here : x = shard
      · rw [here, AList.lookup_erase, if_pos ⟨rfl, rfl⟩]
        rfl
      · rw [AList.lookup_erase_ne here, if_neg (fun h => here h.2), outData, found]
        rfl
    · have elsewhere : ¬ (n = cfgNum ∧ x = shard) := fun h => num h.1
      rw [if_neg elsewhere]
      split
      · rw [outData, AList.lookup_erase_ne num]
        rfl
      · rw [outData, AList.lookup_insert_ne num]
        rfl

/-- What a command other than UC and UD does to the pairs. -/
structure PairsKept (kv : ShardKv) (operation : Operation) (t : ShardKv) : Prop where
  database : ∀ key, t.database.lookup key = kv.database.lookup key ∨
    key2shard key ∈ kv.availableShards
  outData : ∀ n x, outData t.toOutShards n x = outData kv.toOutShards n x ∨
    (operation.op = .GC ∧ stoi operation.key = some n ∧ operation.requestId = x ∧
      outData t.toOutShards n x = ∅)
  garbages : t.garbages = kv.garbages

theorem pairsKept_of_applyLoop (notConfig : operation.op ≠ .UC) (notShard : operation.op ≠ .UD)
    (run : kv.applyLoop operation index = some t) : kv.PairsKept operation t := by
  obtain ⟨u, command, same⟩ := applyCommand_of_applyLoop run
  have database : t.database = u.database := (congrArg ShardKv.database same :)
  have toOut : t.toOutShards = u.toOutShards := (congrArg ShardKv.toOutShards same :)
  have garbages : t.garbages = u.garbages := (congrArg ShardKv.garbages same :)
  rw [applyCommand] at command
  split at command
  · exact absurd ‹_› notConfig
  · exact absurd ‹_› notShard
  · rename_i op
    obtain ⟨cfgNum, read, rfl⟩ := Option.map_eq_some_iff.mp command
    obtain ⟨left, cleared, outs⟩ :=
      (kv.numbered operation index).clearToOutData_eq cfgNum operation.requestId
    rw [cleared] at database toOut garbages
    refine ⟨fun key => .inl (by rw [database]; rfl), fun n x => ?_, garbages⟩
    rw [toOut]
    change ShardKv.outData left n x = _ ∨ _
    rw [outs]
    by_cases here : n = cfgNum ∧ x = operation.requestId
    · rw [if_pos here]
      exact .inr ⟨op, by rw [here.1, read], here.2.symm, rfl⟩
    · rw [if_neg here]
      exact .inl rfl
  · cases command
    split at database
    · rename_i runs
      refine ⟨fun k => ?_, fun n x => .inl ?_, ?_⟩
      · by_cases written : k = operation.key
        · rw [written]
          exact .inr (executes_iff.mp runs).2.1
        · rw [database, putAppendDatabase]
          exact .inl (AList.lookup_insert_ne written)
      · rw [toOut, if_pos runs]
        rfl
      · rw [garbages, if_pos runs]
        rfl
    · rename_i skipped
      refine ⟨fun k => .inl (by rw [database]; rfl), fun n x => .inl ?_, ?_⟩
      · rw [toOut, if_neg skipped]
        rfl
      · rw [garbages, if_neg skipped]
        rfl

end ShardKv

/-! ### Steps that apply no command -/

namespace Deployment
variable {C : Configs} {s t : Deployment} {gid : Int}

structure SamePairs (kv t : ShardKv) : Prop where
  database : t.database = kv.database
  outData : ∀ n x, ShardKv.outData t.toOutShards n x = ShardKv.outData kv.toOutShards n x
  garbage : ∀ n, t.garbage n ⊆ kv.garbage n

theorem SamePairs.refl (kv : ShardKv) : SamePairs kv kv :=
  ⟨rfl, fun _ _ => rfl, fun _ => List.Subset.refl _⟩

theorem SamePairs.requests (kv : ShardKv) (contexts : AList fun _ : Int => OpContext) :
    SamePairs kv { kv with requestMap := contexts } :=
  ⟨rfl, fun _ _ => rfl, fun _ => List.Subset.refl _⟩

theorem samePairs_shardMigration (kv : ShardKv) (shard configNum : Int) :
    SamePairs kv (kv.shardMigration shard configNum).1 := by
  rw [ShardKv.shardMigration, ShardKv.touchToOut]
  split
  · exact .refl kv
  · split
    · exact .refl kv
    · rename_i absent
      refine ⟨rfl, fun n x => ?_, fun _ => List.Subset.refl _⟩
      rw [ShardKv.outData_setToOut]
      split
      · rename_i here
        rw [here.1, here.2, ShardKv.outData, absent]
        rfl
      · rfl

theorem samePairs_dropGarbage (kv : ShardKv) (configNum shard : Int) :
    SamePairs kv (kv.dropGarbage configNum shard) := by
  refine ⟨rfl, fun _ _ => rfl, fun n x member => ?_⟩
  rw [ShardKv.garbage, ShardKv.dropGarbage] at member
  by_cases same : n = configNum
  · subst same
    split at member
    · rw [AList.lookup_erase] at member
      cases member
    · rw [AList.lookup_insert] at member
      exact List.mem_of_mem_erase member
  · split at member
    · rwa [AList.lookup_erase_ne same] at member
    · rwa [AList.lookup_insert_ne same] at member

/-- The pairs of the groups, and who may clear them. -/
structure QuietPairs (s t : Deployment) : Prop where
  pairs : ∀ g, SamePairs (s.group g).kv (t.group g).kv
  collects : ∀ c ∈ t.collects, c ∈ s.collects ∨
    ∃ gid, c.2.2 ∈ (s.group gid).kv.garbage c.2.1
  cleared : ∀ g, ∀ operation ∈ (t.group g).log, operation.op = .GC →
    operation ∈ (s.group g).log ∨
      ∃ c ∈ s.collects, operation.key = decimal c.2.1 ∧ operation.requestId = c.2.2

theorem QuietPairs.of_eq (groups : t.group = s.group) (collects : t.collects = s.collects) :
    QuietPairs s t := by
  refine ⟨fun g => ?_, fun c pending => .inl (collects ▸ pending), fun g o member _ => ?_⟩
  · rw [groups]
    exact .refl _
  · rw [groups] at member
    exact .inl member

theorem QuietPairs.setKv {kv : ShardKv} (same : SamePairs (s.group gid).kv kv)
    (groups : t.group = (s.setKv gid kv).group) (collects : t.collects = s.collects) :
    QuietPairs s t := by
  have self : t.group gid = { s.group gid with kv := kv } := by
    rw [groups]
    exact Function.update_self _ _ _
  have other : ∀ g, g ≠ gid → t.group g = s.group g := by
    intro g apart
    rw [groups]
    exact Function.update_of_ne apart _ _
  refine ⟨fun g => ?_, fun c pending => .inl (collects ▸ pending), fun g o member _ => .inl ?_⟩ <;>
    by_cases here : g = gid
  · rw [here, self]
    exact same
  · rw [other g here]
    exact .refl _
  · rw [here, self] at member
    rw [here]
    exact member
  · rwa [other g here] at member

theorem QuietPairs.propose {operation : Operation}
    (cleared : operation.op = .GC →
      ∃ c ∈ s.collects, operation.key = decimal c.2.1 ∧ operation.requestId = c.2.2)
    (groups : t.group = (s.propose gid operation).group) (collects : t.collects = s.collects) :
    QuietPairs s t := by
  have self : t.group gid = (s.group gid).propose operation := by
    rw [groups]
    exact Function.update_self _ _ _
  have other : ∀ g, g ≠ gid → t.group g = s.group g := by
    intro g apart
    rw [groups]
    exact Function.update_of_ne apart _ _
  refine ⟨fun g => ?_, fun c pending => .inl (collects ▸ pending), fun g o member op => ?_⟩ <;>
    by_cases here : g = gid
  · rw [here, self]
    exact .refl _
  · rw [other g here]
    exact .refl _
  · rw [here, self, Group.propose, List.mem_append, List.mem_singleton] at member
    rw [here]
    cases member with
    | inl before => exact .inl before
    | inr new =>
      subst new
      exact .inr (cleared op)
  · rw [other g here] at member
    exact .inl member

theorem quietPairs {a : Step} (step : s.step C a = some t) (quiet : ∀ gid, a ≠ .apply gid) :
    QuietPairs s t := by
  cases a with
  | apply gid => exact absurd rfl (quiet gid)
  | readConfig gid =>
    simp only [Deployment.step] at step
    split at step <;> cases step
    exact .of_eq rfl rfl
  | updateConfig k term =>
    obtain ⟨u, -, rfl⟩ := Option.map_eq_some_iff.mp step
    exact .propose (fun op => by cases op) rfl rfl
  | pullShard gid shard =>
    obtain ⟨cfgNum, -, rfl⟩ := Option.map_eq_some_iff.mp step
    exact .of_eq rfl rfl
  | shardMigration k =>
    obtain ⟨p, -, asked⟩ := Option.bind_eq_some_iff.mp step
    obtain ⟨gid, -, rfl⟩ := Option.map_eq_some_iff.mp asked
    exact .setKv (samePairs_shardMigration _ _ _) rfl rfl
  | updateDataBase k term =>
    obtain ⟨p, -, read⟩ := Option.bind_eq_some_iff.mp step
    obtain ⟨text, -, read⟩ := Option.bind_eq_some_iff.mp read
    obtain ⟨reply, -, done⟩ := Option.map_eq_some_iff.mp read
    split at done <;> cases done
    · exact .propose (fun op => by cases op) rfl rfl
    · exact .of_eq rfl rfl
  | doGarbage gid configNum shard =>
    simp only [Deployment.step] at step
    split at step
    · rename_i member
      obtain ⟨src, -, rfl⟩ := Option.map_eq_some_iff.mp step
      have same : QuietPairs s s := .of_eq rfl rfl
      refine { same with collects := fun c pending => ?_ }
      cases List.mem_cons.mp pending with
      | inl new =>
        rw [new]
        exact .inr ⟨gid, member⟩
      | inr before => exact .inl before
    · cases step
  | garbagesCollect k rand term =>
    obtain ⟨⟨gid, configNum, shard⟩, pending, asked⟩ := Option.bind_eq_some_iff.mp step
    simp only at asked
    split at asked <;> cases asked
    exact .propose (fun _ => ⟨_, List.mem_of_getElem? pending, rfl, rfl⟩) rfl rfl
  | garbageFinished gid configNum shard =>
    cases step
    exact .setKv (samePairs_dropGarbage _ _ _) rfl rfl
  | request client r =>
    simp only [Deployment.step] at step
    split at step <;> cases step
    exact .of_eq rfl rfl
  | call client gid =>
    simp only [Deployment.step] at step
    split at step
    · split at step
      · obtain ⟨r, -, matched⟩ := Option.bind_eq_some_iff.mp step
        obtain ⟨isMatch, -, done⟩ := Option.bind_eq_some_iff.mp matched
        split at done <;> cases done <;> exact .of_eq rfl rfl
      · cases step
    · cases step
  | start client term =>
    simp only [Deployment.step] at step
    split at step
    · obtain ⟨operation, last, rfl⟩ := Option.map_eq_some_iff.mp step
      refine .propose (fun op => ?_) rfl rfl
      rcases Clerk.operation_data last with data | data | data <;> cases data.symm.trans op
    · cases step
  | await client =>
    simp only [Deployment.step] at step
    split at step <;> cases step
    refine .setKv ?_ rfl rfl
    exact .requests _ _
  | answer client =>
    simp only [Deployment.step] at step
    split at step
    · obtain ⟨c, -, step⟩ := Option.bind_eq_some_iff.mp step
      split at step
      · obtain ⟨r, -, done⟩ := Option.map_eq_some_iff.mp step
        split at done <;> cases done <;> refine .setKv ?_ rfl rfl <;> exact .requests _ _
      · cases step
    · cases step
  | giveUp client =>
    simp only [Deployment.step] at step
    split at step
    · cases step
      exact .of_eq rfl rfl
    · cases step
      refine .setKv ?_ rfl rfl
      exact .requests _ _
    · cases step

theorem touchToOut_data (kv : ShardKv) (cfgNum shard : Int) :
    (kv.touchToOut cfgNum shard).2 = ShardKv.outData kv.toOutShards cfgNum shard := by
  rw [ShardKv.touchToOut, ShardKv.outData]
  split
  · rename_i data found
    rw [found, Option.getD_some]
  · rename_i absent
    rw [absent]
    rfl

theorem shardMigration_pairs {kv : ShardKv} {shard n : Int} {text : Str} {reply : MigrateReply}
    (answer : (kv.shardMigration shard n).2 = text) (read : str2MigrateReply text = some reply)
    (ok : reply.err = OK) (portable : AllPortable (ShardKv.outData kv.toOutShards n shard))
    (key : Str) :
    reply.database.lookup key = (ShardKv.outData kv.toOutShards n shard).lookup key := by
  rw [ShardKv.shardMigration] at answer
  split at answer
  · rw [← answer] at read
    have sent := str2MigrateReply_sent err_word.2 read
    rw [sent.err] at ok
    exact absurd (show ErrWrongGroup = OK from ok) (by decide)
  · rw [← answer] at read
    simp only [touchToOut_data] at read
    exact str2MigrateReply_database err_word.1 portable read key

end Deployment

/-! ### The history -/

/-- A shard that left a group, with the pairs it had there. -/
structure Taken where
  gid : Int
  configNum : Int
  shard : Int
  data : AList fun _ : Str => Str

structure History where
  deployment : Deployment
  taken : List Taken

namespace History
open Deployment

def takenBy (s t : Deployment) : Step → List Taken
  | .apply gid =>
    if t.num gid = s.num gid then []
    else ((s.group gid).kv.availableShards.filter fun shard =>
        shard ∉ (t.group gid).kv.availableShards).map fun shard =>
      ⟨gid, s.num gid, shard, pairsOf (s.group gid).kv.database shard⟩
  | _ => []

def step (C : Configs) (h : History) (a : Step) : Option History :=
  (h.deployment.step C a).map fun t => ⟨t, takenBy h.deployment t a ++ h.taken⟩

def machine (C : Configs) : Machine History Step := ⟨fun h => h = ⟨.boot, []⟩, step C⟩

def PortableStep (C : Configs) (h : History) (a : Step) : Prop :=
  ∀ t ∈ h.deployment.step C a, ∀ e ∈ takenBy h.deployment t a, AllPortable e.data

instance (C : Configs) (h : History) (a : Step) : Decidable (PortableStep C h a) := by
  unfold PortableStep
  infer_instance

variable {C : Configs} {h : History} {s t : Deployment} {n shard gid : Int}
  {data : AList fun _ : Str => Str}

/-- The shard has come in where the configuration after `n` puts it. -/
def Delivered (C : Configs) (s : Deployment) (n shard : Int) : Prop := ∃ gid, Held C s (n + 1) shard gid

/-- The pairs of the shard when configuration `n` ended, unless nobody needs them any more. -/
def Faithful (C : Configs) (h : History) (n shard : Int) (data : AList fun _ : Str => Str) : Prop :=
  (∃ e ∈ h.taken, e.configNum = n ∧ e.shard = shard ∧ ∀ key, data.lookup key = e.data.lookup key) ∨
    Delivered C h.deployment n shard

structure Entered (C : Configs) (s : Deployment) (e : Taken) : Prop where
  portable : AllPortable e.data
  owner : (C.query e.configNum).owner e.shard = some e.gid
  past : e.configNum < s.num e.gid
  keys : ∀ key ∈ e.data, key2shard key = e.shard

def Apart (e e' : Taken) : Prop :=
  ¬ (e.gid = e'.gid ∧ e.configNum = e'.configNum ∧ e.shard = e'.shard)

instance : Std.Symm Apart where
  symm _ _ apart same := apart ⟨same.1.symm, same.2.1.symm, same.2.2.symm⟩

structure Kept (C : Configs) (h : History) : Prop where
  once : ∀ gid, (h.deployment.group gid).kv.availableShards.Nodup
  stored : ∀ gid, ∀ key ∈ (h.deployment.group gid).kv.database,
    key2shard key ∈ (h.deployment.group gid).kv.availableShards
  awaited : ∀ gid shard n, (h.deployment.group gid).kv.comeInShards.lookup shard = some n →
    (C.query n).owner shard ≠ some gid
  pulls : ∀ p ∈ h.deployment.pulls, (C.query p.configNum).owner p.shard ≠ some p.dst
  out : ∀ gid n shard, 1 ≤ n → n < h.deployment.num gid → (C.query n).owner shard = some gid →
    (C.query (n + 1)).owner shard ≠ some gid →
      Faithful C h n shard (ShardKv.outData (h.deployment.group gid).kv.toOutShards n shard)
  replies : ∀ p ∈ h.deployment.pulls, ∀ text, p.reply = some text → ∀ reply,
    str2MigrateReply text = some reply → reply.err = OK →
      Faithful C h p.configNum p.shard reply.database
  logs : ∀ gid, ∀ operation ∈ (h.deployment.group gid).log, operation.op = .UD → ∀ reply,
    str2MigrateReply operation.value = some reply →
      Faithful C h reply.configNum reply.shard reply.database
  garbage : ∀ gid n, ∀ shard ∈ (h.deployment.group gid).kv.garbage n,
    Delivered C h.deployment n shard
  collects : ∀ c ∈ h.deployment.collects, Delivered C h.deployment c.2.1 c.2.2
  cleared : ∀ gid, ∀ operation ∈ (h.deployment.group gid).log, operation.op = .GC → ∀ n,
    stoi operation.key = some n → Delivered C h.deployment n operation.requestId
  taken : ∀ e ∈ h.taken, Entered C h.deployment e
  distinct : h.taken.Pairwise Apart

theorem Kept.boot : Kept C ⟨.boot, []⟩ :=
  ⟨fun _ => List.nodup_nil, nofun, nofun, nofun,
    fun gid n shard low past => by
      have zero : Deployment.boot.num gid = 0 := rfl
      have past : n < Deployment.boot.num gid := past
      omega,
    nofun, nofun, nofun, nofun, nofun, nofun, List.Pairwise.nil⟩

theorem Faithful.mono {h' : History} (faithful : Faithful C h n shard data)
    (grown : h.taken ⊆ h'.taken)
    (held : ∀ n shard gid, Held C h.deployment n shard gid → Held C h'.deployment n shard gid) :
    Faithful C h' n shard data := by
  cases faithful with
  | inl written =>
    obtain ⟨e, member, rest⟩ := written
    exact .inl ⟨e, grown member, rest⟩
  | inr delivered =>
    obtain ⟨gid, here⟩ := delivered
    exact .inr ⟨gid, held _ _ _ here⟩

theorem Faithful.congr {data' : AList fun _ : Str => Str} (faithful : Faithful C h n shard data)
    (same : ∀ key, data'.lookup key = data.lookup key) : Faithful C h n shard data' := by
  refine faithful.imp (fun written => ?_) id
  obtain ⟨e, member, num, is, pairs⟩ := written
  exact ⟨e, member, num, is, fun key => (same key).trans (pairs key)⟩

theorem Faithful.sent {data' : AList fun _ : Str => Str} (faithful : Faithful C h n shard data)
    (kept : Kept C h)
    (survives : AllPortable data → ∀ key, data'.lookup key = data.lookup key) :
    Faithful C h n shard data' := by
  refine faithful.imp (fun written => ?_) id
  obtain ⟨e, member, num, is, pairs⟩ := written
  have portable : AllPortable data := (kept.taken e member).portable.congr pairs
  exact ⟨e, member, num, is, fun key => (survives portable key).trans (pairs key)⟩

theorem held_quiet (quiet : Quiet C s t) (held : Held C s n shard gid) : Held C t n shard gid := by
  obtain ⟨owner, place⟩ := held
  rw [Held, quiet.num, (quiet.shards gid).availableShards]
  exact ⟨owner, place⟩

theorem Kept.quiet (kept : Kept C h) (owned : Owned C h.deployment)
    (quiet : Quiet C h.deployment t) (pairs : QuietPairs h.deployment t) : Kept C ⟨t, h.taken⟩ := by
  have mono : ∀ {n shard data}, Faithful C h n shard data → Faithful C ⟨t, h.taken⟩ n shard data :=
    fun faithful => faithful.mono (List.Subset.refl _) fun _ _ _ => held_quiet quiet
  have arrives : ∀ {n shard}, Delivered C h.deployment n shard → Delivered C t n shard :=
    fun ⟨gid, held⟩ => ⟨gid, held_quiet quiet held⟩
  refine ⟨fun gid => ?_, fun gid key there => ?_, fun gid shard n awaited => ?_, fun p pending => ?_,
    fun gid n shard low past owner left => ?_, fun p pending text answered reply read ok => ?_,
    fun gid operation member op reply read => ?_, fun gid n shard member => ?_,
    fun c pending => ?_, fun gid operation member op n read => ?_, fun e member => ?_, kept.distinct⟩
  · rw [(quiet.shards gid).availableShards]
    exact kept.once gid
  · rw [(pairs.pairs gid).database] at there
    rw [(quiet.shards gid).availableShards]
    exact kept.stored gid key there
  · rw [(quiet.shards gid).comeInShards] at awaited
    exact kept.awaited gid shard n awaited
  · cases quiet.pulls p pending with
    | old before => exact kept.pulls p before
    | asked awaited => exact kept.awaited _ _ _ awaited
    | @again q before => exact kept.pulls q before
    | @answered q gid before owner => exact kept.pulls q before
  · change n < t.num gid at past
    rw [quiet.num] at past
    rw [(pairs.pairs gid).outData]
    exact mono (kept.out gid n shard low past owner left)
  · cases quiet.replies pending answered with
    | inl before => exact mono (kept.replies p before text answered reply read ok)
    | inr new =>
      obtain ⟨q, before, dst, shard, configNum, gid, owner, answer⟩ := new
      obtain ⟨-, -, past, -⟩ := shardMigration_ok answer read ok
      have source := kept.pulls q before
      obtain ⟨low, next, -⟩ := owned.pulls q before
      rw [shard, configNum] at source next
      rw [configNum] at low
      have left : (C.query (p.configNum + 1)).owner p.shard ≠ some gid := by
        rw [next]
        exact fun same => source (by rw [owner, same])
      have faithful := kept.out gid p.configNum p.shard low past owner left
      exact mono (faithful.sent kept fun portable => shardMigration_pairs answer read ok portable)
  · cases quiet.mem_log member with
    | inl before => exact mono (kept.logs gid operation before op reply read)
    | inr proposed =>
      cases proposed with
      | config => cases op
      | @shard p text sent term pending dst answered decoded ok =>
        obtain ⟨shard, configNum, -⟩ := owned.replies p pending text answered sent decoded ok
        have faithful := kept.replies p pending text answered sent decoded ok
        have again := updateDataBase_reply ok read
        rw [again.shard, again.configNum, shard, configNum]
        exact mono (faithful.sent kept fun portable =>
          str2MigrateReply_database (ok ▸ err_word.1) portable read)
      | garbage gc => cases gc.symm.trans op
      | command call last =>
        rcases Clerk.operation_data last with data | data | data <;> cases data.symm.trans op
  · exact arrives (kept.garbage gid n shard ((pairs.pairs gid).garbage n member))
  · cases pairs.collects c pending with
    | inl before => exact arrives (kept.collects c before)
    | inr new =>
      obtain ⟨gid, member⟩ := new
      exact arrives (kept.garbage gid _ _ member)
  · cases pairs.cleared gid operation member op with
    | inl before => exact arrives (kept.cleared gid operation before op n read)
    | inr new =>
      obtain ⟨c, pending, key, shard⟩ := new
      rw [key, stoi_decimal] at read
      cases read
      rw [shard]
      exact arrives (kept.collects c pending)
  · obtain ⟨portable, owner, past, keys⟩ := kept.taken e member
    exact ⟨portable, owner, by rw [quiet.num]; exact past, keys⟩

/-! ### Steps that apply a command -/

variable {operation : Operation} {kv : ShardKv} {h' : History}

theorem held_applied (ran : Applied s gid operation kv t) (turn : Turn C s gid operation kv)
    {g : Int} (held : Held C s n shard g) : Held C t n shard g := by
  by_cases same : g = gid
  · subst same
    obtain ⟨owner, place⟩ := held
    have num := ran.num_self
    refine ⟨owner, ?_⟩
    rw [num, ran.self]
    cases turn with
    | @config config op next shards arrived =>
      have sameNum : s.num g = (s.group g).kv.config.configNum := rfl
      rw [ShardKv.update_config (by omega)]
      exact .inl (by omega)
    | nothing op => exact place
    | again op there => exact place
    | shard op read handed current absent =>
      exact place.imp id fun here => ⟨here.1, List.mem_insert_of_mem here.2⟩
    | command notConfig notShard recorded =>
      rw [recorded.config, recorded.availableShards]
      exact place
  · obtain ⟨owner, place⟩ := held
    rw [Held, ran.num_other same, ran.other same]
    exact ⟨owner, place⟩

theorem Entered.later {e : Taken} (entered : Entered C s e) (later : Later s t) : Entered C t e :=
  ⟨entered.portable, entered.owner, lt_of_lt_of_le entered.past (later e.gid).1, entered.keys⟩

/-- What a group that has applied a command has to show. -/
structure Turned (C : Configs) (gid : Int) (h' : History) (kv : ShardKv) : Prop where
  once : kv.availableShards.Nodup
  stored : ∀ key ∈ kv.database, key2shard key ∈ kv.availableShards
  awaited : ∀ shard n, kv.comeInShards.lookup shard = some n → (C.query n).owner shard ≠ some gid
  out : ∀ n shard, 1 ≤ n → n < kv.config.configNum → (C.query n).owner shard = some gid →
    (C.query (n + 1)).owner shard ≠ some gid →
      Faithful C h' n shard (ShardKv.outData kv.toOutShards n shard)
  garbage : ∀ n, ∀ shard ∈ kv.garbage n, Delivered C h'.deployment n shard
  taken : ∀ e ∈ h'.taken, Entered C h'.deployment e
  distinct : h'.taken.Pairwise Apart

theorem Kept.applied (kept : Kept C h) (h' : History)
    (ran : Applied h.deployment gid operation kv h'.deployment)
    (turn : Turn C h.deployment gid operation kv) (grown : h.taken ⊆ h'.taken)
    (turned : Turned C gid h' kv) : Kept C h' := by
  have mono : ∀ {n shard data}, Faithful C h n shard data → Faithful C h' n shard data :=
    fun faithful => faithful.mono grown fun _ _ _ => held_applied ran turn
  have arrives : ∀ {n shard}, Delivered C h.deployment n shard → Delivered C h'.deployment n shard :=
    fun ⟨gid, held⟩ => ⟨gid, held_applied ran turn held⟩
  have pulls : h'.deployment.pulls = h.deployment.pulls := by rw [ran.state]; rfl
  have collects : h'.deployment.collects = h.deployment.collects := by rw [ran.state]; rfl
  refine ⟨fun g => ?_, fun g => ?_, fun g => ?_, fun p pending => ?_, fun g => ?_,
    fun p pending => ?_, fun g o member => ?_, fun g => ?_, fun c pending => ?_,
    fun g o member op n read => ?_, turned.taken, turned.distinct⟩
  · by_cases same : g = gid
    · rw [same, ran.self]
      exact turned.once
    · rw [ran.other same]
      exact kept.once g
  · by_cases same : g = gid
    · rw [same, ran.self]
      exact turned.stored
    · rw [ran.other same]
      exact kept.stored g
  · by_cases same : g = gid
    · rw [same, ran.self]
      exact turned.awaited
    · rw [ran.other same]
      exact kept.awaited g
  · rw [pulls] at pending
    exact kept.pulls p pending
  · by_cases same : g = gid
    · rw [same, ran.num_self, ran.self]
      exact turned.out
    · rw [ran.num_other same, ran.other same]
      exact fun n shard low past owner left => mono (kept.out g n shard low past owner left)
  · rw [pulls] at pending
    exact fun text answered reply read ok =>
      mono (kept.replies p pending text answered reply read ok)
  · rw [ran.log] at member
    exact fun op reply read => mono (kept.logs g o member op reply read)
  · by_cases same : g = gid
    · rw [same, ran.self]
      exact turned.garbage
    · rw [ran.other same]
      exact fun n shard member => arrives (kept.garbage g n shard member)
  · rw [collects] at pending
    exact arrives (kept.collects c pending)
  · rw [ran.log] at member
    exact arrives (kept.cleared g o member op n read)

theorem Kept.same_config (kept : Kept C h)
    (ran : Applied h.deployment gid operation kv t) (turn : Turn C h.deployment gid operation kv)
    (config : kv.config = (h.deployment.group gid).kv.config)
    (once : kv.availableShards.Nodup)
    (stored : ∀ key ∈ kv.database, key2shard key ∈ kv.availableShards)
    (comeIn : ∀ shard n, kv.comeInShards.lookup shard = some n →
      (h.deployment.group gid).kv.comeInShards.lookup shard = some n)
    (out : ∀ n shard, (∀ key, (ShardKv.outData kv.toOutShards n shard).lookup key =
        (ShardKv.outData (h.deployment.group gid).kv.toOutShards n shard).lookup key) ∨
      Delivered C h.deployment n shard)
    (garbage : ∀ n, ∀ shard ∈ kv.garbage n, Delivered C t n shard) :
    Kept C ⟨t, takenBy h.deployment t (.apply gid) ++ h.taken⟩ := by
  have num : t.num gid = h.deployment.num gid := by
    rw [ran.num_self, config]
    rfl
  have none : takenBy h.deployment t (.apply gid) = [] := if_pos num
  rw [none, List.nil_append]
  refine kept.applied ⟨t, h.taken⟩ ran turn (List.Subset.refl _) ⟨once, stored,
    fun shard n awaited => kept.awaited gid shard n (comeIn shard n awaited),
    fun n shard low past owner left => ?_, garbage,
    fun e member => (kept.taken e member).later (ran.later turn), kept.distinct⟩
  have mono : ∀ {data}, Faithful C h n shard data → Faithful C ⟨t, h.taken⟩ n shard data :=
    fun faithful => faithful.mono (List.Subset.refl _) fun _ _ _ => held_applied ran turn
  cases out n shard with
  | inl same =>
    have past' : n < h.deployment.num gid := by
      rw [config] at past
      exact past
    exact mono ((kept.out gid n shard low past' owner left).congr same)
  | inr delivered => exact mono (.inr delivered)

theorem garbage_update (kv : ShardKv) (config : Config) (n : Int) :
    (kv.updateComeInAndOutShrads config).garbage n = kv.garbage n := by
  rw [ShardKv.garbage, ShardKv.updateComeInAndOutShrads]
  split <;> rfl

theorem mem_takenBy {config : Config} (ran : Applied s gid operation
      ((s.group gid).kv.updateComeInAndOutShrads config) t)
    (newer : (s.group gid).kv.config.configNum < config.configNum)
    (groupId : (s.group gid).kv.groupId = gid)
    {e : Taken} : e ∈ takenBy s t (.apply gid) ↔
      (s.group gid).kv.GivesAway config e.shard ∧ e.gid = gid ∧ e.configNum = s.num gid ∧
        e.data = pairsOf (s.group gid).kv.database e.shard := by
  have moved : t.num gid ≠ s.num gid := by
    rw [ran.num_self, ShardKv.update_config newer]
    exact ne_of_gt newer
  rw [takenBy, if_neg moved, List.mem_map]
  constructor
  · rintro ⟨shard, member, rfl⟩
    obtain ⟨here, gone⟩ := List.mem_filter.mp member
    rw [decide_eq_true_eq, ran.self] at gone
    refine ⟨⟨here, fun mine => gone ?_⟩, rfl, rfl, rfl⟩
    exact (ShardKv.update_available newer shard).mpr ⟨mine, .inl here⟩
  · rintro ⟨⟨here, other⟩, rfl, num, data⟩
    refine ⟨e.shard, List.mem_filter.mpr ⟨here, ?_⟩, ?_⟩
    · rw [decide_eq_true_eq, ran.self]
      exact fun still => other ((ShardKv.update_available newer e.shard).mp still).1
    · rw [← num, ← data]

theorem distinct_takenBy (once : (s.group gid).kv.availableShards.Nodup) :
    (takenBy s t (.apply gid)).Pairwise Apart := by
  rw [takenBy]
  split
  · exact List.Pairwise.nil
  · rw [List.pairwise_map]
    exact (once.filter _).imp fun apart same => apart same.2.2

theorem Kept.config {config : Config} (kept : Kept C h) (owned : Owned C h.deployment)
    (ran : Applied h.deployment gid operation
      ((h.deployment.group gid).kv.updateComeInAndOutShrads config) t)
    (turn : Turn C h.deployment gid operation
      ((h.deployment.group gid).kv.updateComeInAndOutShrads config))
    (next : config.configNum = h.deployment.num gid + 1)
    (shards : config.shards = (C.query config.configNum).shards)
    (arrived : (h.deployment.group gid).kv.comeInShards.keys = [])
    (portable : ∀ e ∈ takenBy h.deployment t (.apply gid), AllPortable e.data) :
    Kept C ⟨t, takenBy h.deployment t (.apply gid) ++ h.taken⟩ := by
  have group := owned.groups gid
  have sameNum : h.deployment.num gid = (h.deployment.group gid).kv.config.configNum := rfl
  have newer : (h.deployment.group gid).kv.config.configNum < config.configNum := by omega
  have is := ShardKv.update_config newer
  have once := kept.once gid
  have owner : ∀ shard, config.owner shard = (C.query (h.deployment.num gid + 1)).owner shard := by
    intro shard
    rw [owner_congr shards, next]
  have mem := fun {e} => mem_takenBy ran newer group.groupId (e := e)
  have moved := ran.num_self
  rw [is] at moved
  have later := ran.later turn
  have here : ∀ shard, 1 ≤ h.deployment.num gid →
      (C.query (h.deployment.num gid)).owner shard = some gid →
        shard ∈ (h.deployment.group gid).kv.availableShards := fun shard low mine =>
    (group.complete low shard mine).resolve_right (comeIn_empty arrived shard)
  refine kept.applied ⟨t, _⟩ ran turn (List.subset_append_right _ _)
    ⟨ShardKv.nodup_update once config, ShardKv.stored_update newer once (kept.stored gid),
      fun shard n awaited => ?_, fun n shard low past mine left => ?_, fun n shard member => ?_,
      fun e member => ?_, ?_⟩
  · rw [ShardKv.update_comeIn newer] at awaited
    split at awaited
    · rename_i new
      cases awaited
      intro mine
      have low : 1 ≤ h.deployment.num gid := by
        have first : (h.deployment.group gid).kv.config.configNum ≠ 0 :=
          fun zero => new.2 (.inr zero)
        have bound := group.num
        omega
      exact new.2 (.inl (here shard low mine))
    · rw [AList.lookup_eq_none.mpr (comeIn_empty arrived shard)] at awaited
      cases awaited
  · rw [is] at past
    have mono : ∀ {data}, Faithful C h n shard data →
        Faithful C ⟨t, takenBy h.deployment t (.apply gid) ++ h.taken⟩ n shard data :=
      fun faithful => faithful.mono (List.subset_append_right _ _) fun _ _ _ => held_applied ran turn
    have outs := fun key => (ShardKv.lookup_update key n shard newer once).2
    by_cases last : n = h.deployment.num gid
    · subst last
      have gives : (h.deployment.group gid).kv.GivesAway config shard := by
        refine ⟨here shard low mine, ?_⟩
        rw [owner, group.groupId]
        exact left
      refine .inl ⟨⟨gid, h.deployment.num gid, shard,
        pairsOf (h.deployment.group gid).kv.database shard⟩, ?_, rfl, rfl, fun key => ?_⟩
      · exact List.mem_append_left _ (mem.mpr ⟨gives, rfl, rfl, rfl⟩)
      · exact (outs key).1 ⟨sameNum, gives⟩
    · have before : n < h.deployment.num gid := by omega
      refine mono ((kept.out gid n shard low before mine left).congr fun key => ?_)
      exact (outs key).2 fun now => last now.1
  · rw [garbage_update] at member
    obtain ⟨g, held⟩ := kept.garbage gid n shard member
    exact ⟨g, held_applied ran turn held⟩
  · cases List.mem_append.mp member with
    | inl new =>
      obtain ⟨gives, rfl, num, data⟩ := mem.mp new
      refine ⟨portable e new, ?_, ?_, fun key inside => mem_pairsOf (data ▸ inside)⟩
      · rw [num]
        exact (group.available e.shard gives.1).2
      · rw [num]
        change h.deployment.num e.gid < t.num e.gid
        omega
    | inr old => exact (kept.taken e old).later later
  · refine List.pairwise_append.mpr ⟨distinct_takenBy once, kept.distinct, ?_⟩
    intro e new e' old same
    obtain ⟨-, rfl, num, -⟩ := mem.mp new
    have past := (kept.taken e' old).past
    rw [← same.1, ← same.2.1, num] at past
    exact absurd past (lt_irrefl _)

theorem Kept.brought (kept : Kept C h) (owned : Owned C h.deployment)
    (member : operation ∈ (h.deployment.group gid).log) (op : operation.op = .UD)
    {reply : MigrateReply} (read : str2MigrateReply operation.value = some reply)
    (current : reply.configNum + 1 = h.deployment.num gid)
    (absent : reply.shard ∉ (h.deployment.group gid).kv.availableShards) :
    ∃ e ∈ h.taken, e.configNum = reply.configNum ∧ e.shard = reply.shard ∧
      ∀ key, reply.database.lookup key = e.data.lookup key := by
  refine (kept.logs gid operation member op reply read).resolve_right ?_
  rintro ⟨g, owner, place⟩
  have handed := (owned.shards gid operation member op reply read).owner
  rw [handed] at owner
  cases owner
  cases place with
  | inl past => omega
  | inr here => exact absent here.2

theorem takes_in (kv : ShardKv) {reply : MigrateReply}
    (current : reply.configNum + 1 = kv.config.configNum)
    (absent : reply.shard ∉ kv.availableShards) :
    kv.updateDataBaseWithMigrateReply reply = { kv with
      comeInShards := kv.comeInShards.erase reply.shard
      database := ShardKv.insertData kv.database reply.database.entries
      clientSeqMap := ShardKv.mergeSeqs kv.clientSeqMap reply.clientReqId.entries
      availableShards := kv.availableShards.insert reply.shard
      garbages := kv.garbages.insert reply.configNum
        ((kv.garbage reply.configNum).insert reply.shard) } := by
  have now : ¬ reply.configNum ≠ kv.config.configNum - 1 := by omega
  simp only [ShardKv.updateDataBaseWithMigrateReply]
  rw [if_neg now, if_neg absent]
  rfl

theorem lookup_takes_in (kv : ShardKv) {reply : MigrateReply}
    (current : reply.configNum + 1 = kv.config.configNum)
    (absent : reply.shard ∉ kv.availableShards) (key : Str) :
    (kv.updateDataBaseWithMigrateReply reply).database.lookup key =
      (kv.database.lookup key).or (reply.database.lookup key) := by
  rw [takes_in kv current absent]
  exact ShardKv.lookup_insertData reply.database.nodupKeys kv.database

theorem Kept.installed {reply : MigrateReply} (kept : Kept C h) (owned : Owned C h.deployment)
    (member : operation ∈ (h.deployment.group gid).log) (op : operation.op = .UD)
    (read : str2MigrateReply operation.value = some reply)
    (current : reply.configNum + 1 = h.deployment.num gid)
    (absent : reply.shard ∉ (h.deployment.group gid).kv.availableShards)
    (ran : Applied h.deployment gid operation
      ((h.deployment.group gid).kv.updateDataBaseWithMigrateReply reply) t)
    (turn : Turn C h.deployment gid operation
      ((h.deployment.group gid).kv.updateDataBaseWithMigrateReply reply)) :
    Kept C ⟨t, takenBy h.deployment t (.apply gid) ++ h.taken⟩ := by
  obtain ⟨e, entry, num, shard, pairs⟩ := kept.brought owned member op read current absent
  have keys := (kept.taken e entry).keys
  have takes := takes_in (h.deployment.group gid).kv current absent
  have database := lookup_takes_in (h.deployment.group gid).kv current absent
  have handed := owned.shards gid operation member op reply read
  have same : ((h.deployment.group gid).kv.updateDataBaseWithMigrateReply reply).config =
      (h.deployment.group gid).kv.config := by rw [takes]
  have available : ((h.deployment.group gid).kv.updateDataBaseWithMigrateReply reply).availableShards =
      (h.deployment.group gid).kv.availableShards.insert reply.shard := by rw [takes]
  refine kept.same_config ran turn same ?_ (fun key there => ?_) (fun x n awaited => ?_)
    (fun n x => .inl fun key => ?_) fun n x inside => ?_
  · rw [available]
    exact (kept.once gid).insert
  · rw [available]
    have some_ := AList.lookup_isSome.mpr there
    rw [database, pairs, Option.isSome_or, Bool.or_eq_true] at some_
    cases some_ with
    | inl old => exact List.mem_insert_of_mem (kept.stored gid key (AList.lookup_isSome.mp old))
    | inr new =>
      rw [keys key (AList.lookup_isSome.mp new), shard]
      exact List.mem_insert_self
  · rw [takes] at awaited
    by_cases here : x = reply.shard
    · rw [here, AList.lookup_erase] at awaited
      cases awaited
    · rwa [AList.lookup_erase_ne here] at awaited
  · rw [takes]
  · have old : x ∈ (h.deployment.group gid).kv.garbage n → Delivered C t n x := by
      intro before
      obtain ⟨g, held⟩ := kept.garbage gid n x before
      exact ⟨g, held_applied ran turn held⟩
    rw [takes, ShardKv.garbage] at inside
    by_cases here : n = reply.configNum
    · rw [here, AList.lookup_insert, Option.getD_some, List.mem_insert_iff] at inside
      cases inside with
      | inl new =>
        refine ⟨gid, ?_, .inr ⟨?_, ?_⟩⟩
        · rw [here, new]
          exact handed.owner
        · rw [ran.num_self, same, here]
          exact current.symm
        · rw [ran.self, available, new]
          exact List.mem_insert_self
      | inr before => exact old (here ▸ before)
    · rw [AList.lookup_insert_ne here] at inside
      exact old inside

theorem Kept.apply (kept : Kept C h) (owned : Owned C h.deployment)
    (ran : Applied h.deployment gid operation kv t)
    (portable : ∀ e ∈ takenBy h.deployment t (.apply gid), AllPortable e.data) :
    Kept C ⟨t, takenBy h.deployment t (.apply gid) ++ h.taken⟩ := by
  have member : operation ∈ (h.deployment.group gid).log := List.mem_of_getElem? ran.next
  have turn := owned.turn ran
  have unchanged : kv = (h.deployment.group gid).kv →
      Kept C ⟨t, takenBy h.deployment t (.apply gid) ++ h.taken⟩ := by
    rintro rfl
    refine kept.same_config ran turn rfl (kept.once gid) (kept.stored gid) (fun x n awaited => awaited)
      (fun n x => .inl fun key => rfl) fun n x inside => ?_
    obtain ⟨g, held⟩ := kept.garbage gid n x inside
    exact ⟨g, held_applied ran turn held⟩
  rcases ShardKv.applyLoop_cases ran.run with ⟨config, op, read, rfl⟩ | ⟨reply, op, read, rfl⟩ |
    ⟨notConfig, notShard, recorded⟩
  · have told := owned.configs gid operation member op config read
    by_cases old : config.configNum ≤ h.deployment.num gid
    · exact unchanged (if_pos old)
    · have bound := told.next
      have next : config.configNum = h.deployment.num gid + 1 := by omega
      exact kept.config owned ran turn next told.shards (told.arrived next) portable
  · have sameNum : h.deployment.num gid = (h.deployment.group gid).kv.config.configNum := rfl
    rcases (h.deployment.group gid).kv.updateDataBase_cases reply with same |
      ⟨current, there, same⟩ | ⟨current, absent, -⟩
    · exact unchanged same
    · refine kept.same_config ran turn (by rw [same]) ?_ ?_ (fun x n awaited => ?_)
        (fun n x => .inl fun key => by rw [same]) fun n x inside => ?_
      · rw [same]
        exact kept.once gid
      · rw [same]
        exact kept.stored gid
      · rw [same] at awaited
        by_cases here : x = reply.shard
        · rw [here, AList.lookup_erase] at awaited
          cases awaited
        · rwa [AList.lookup_erase_ne here] at awaited
      · rw [same] at inside
        obtain ⟨g, held⟩ := kept.garbage gid n x inside
        exact ⟨g, held_applied ran turn held⟩
    · exact kept.installed owned member op read (by omega) absent ran turn
  · have pairs := ShardKv.pairsKept_of_applyLoop notConfig notShard ran.run
    refine kept.same_config ran turn recorded.config ?_ (fun key there => ?_) (fun x n awaited => ?_)
      (fun n x => ?_) fun n x inside => ?_
    · rw [recorded.availableShards]
      exact kept.once gid
    · rw [recorded.availableShards]
      cases pairs.database key with
      | inl same =>
        have some_ := AList.lookup_isSome.mpr there
        rw [same] at some_
        exact kept.stored gid key (AList.lookup_isSome.mp some_)
      | inr here => exact here
    · rw [recorded.comeInShards] at awaited
      exact awaited
    · cases pairs.outData n x with
      | inl same => exact .inl fun key => by rw [same]
      | inr cleared =>
        obtain ⟨op, read, id, -⟩ := cleared
        rw [← id]
        exact .inr (kept.cleared gid operation member op n read)
    · rw [ShardKv.garbage, pairs.garbages] at inside
      obtain ⟨g, held⟩ := kept.garbage gid n x inside
      exact ⟨g, held_applied ran turn held⟩

/-! ### Runs -/

theorem reach_deployment {ok : History → Step → Prop} (reach : Reach (machine C) ok h) :
    Reachable (Deployment.machine C) h.deployment := by
  induction reach with
  | start boots =>
    rw [boots]
    exact .start rfl
  | step _ _ next ih =>
    obtain ⟨t, moved, rfl⟩ := Option.map_eq_some_iff.mp next
    exact .step ih trivial moved

theorem Kept.step {a : Step} (kept : Kept C h) (owned : Owned C h.deployment)
    (portable : PortableStep C h a) (next : (machine C).step h a = some h') : Kept C h' := by
  obtain ⟨t, moved, rfl⟩ := Option.map_eq_some_iff.mp next
  by_cases applies : ∃ gid, a = .apply gid
  · obtain ⟨gid, rfl⟩ := applies
    obtain ⟨operation, kv, ran⟩ := applied_of_step moved
    exact kept.apply owned ran (portable t moved)
  · have none : takenBy h.deployment t a = [] := by
      cases a with
      | apply gid => exact absurd ⟨gid, rfl⟩ applies
      | _ => rfl
    rcases step_cases moved with ⟨gid, operation, kv, is, -⟩ | quiet
    · exact absurd ⟨gid, is⟩ applies
    · rw [none, List.nil_append]
      exact kept.quiet owned quiet (quietPairs moved fun gid is => applies ⟨gid, is⟩)

theorem kept (reach : Reach (machine C) (PortableStep C) h) : Kept C h := by
  refine reach.invariant_of (P := Kept C) (fun h reach => owned (reach_deployment reach)) ?_
    fun h a t owned kept portable next => kept.step owned portable next
  rintro h rfl
  exact .boot

/-- Two groups never hold a shard at once, and a shard that comes in by UD brings exactly the
pairs that the owner before had when the configuration took it away. -/
theorem shards_handed_over (reach : Reach (machine C) (PortableStep C) h) :
    (∀ shard g g', shard ∈ (h.deployment.group g).kv.availableShards →
      shard ∈ (h.deployment.group g').kv.availableShards → g = g') ∧
    ∀ gid operation kv, (h.deployment.group gid).log[(h.deployment.group gid).applied]? = some operation →
      operation.op = .UD →
      (h.deployment.group gid).kv.applyLoop operation ((h.deployment.group gid).applied + 1) = some kv →
      ∀ shard ∈ kv.availableShards, shard ∉ (h.deployment.group gid).kv.availableShards →
        ∃ e ∈ h.taken, e.shard = shard ∧ e.configNum + 1 = h.deployment.num gid ∧
          (C.query e.configNum).owner shard = some e.gid ∧
          (∀ key, key2shard key = shard → kv.database.lookup key = e.data.lookup key) ∧
          ∀ e' ∈ h.taken, e'.shard = shard → e'.configNum = e.configNum → e' = e := by
  have owned := owned (reach_deployment reach)
  have kept := kept reach
  refine ⟨fun shard g g' => holder_unique owned, ?_⟩
  intro gid operation kv next op run shard now before
  have member : operation ∈ (h.deployment.group gid).log := List.mem_of_getElem? next
  have sameNum : h.deployment.num gid = (h.deployment.group gid).kv.config.configNum := rfl
  rcases ShardKv.applyLoop_cases run with ⟨config, uc, -⟩ | ⟨reply, -, read, rfl⟩ | ⟨-, notShard, -⟩
  · cases uc.symm.trans op
  · rcases (h.deployment.group gid).kv.updateDataBase_cases reply with same | ⟨-, -, same⟩ |
      ⟨current, absent, -⟩
    · rw [same] at now
      exact absurd now before
    · rw [same] at now
      exact absurd now before
    · have reached : reply.configNum + 1 = (h.deployment.group gid).kv.config.configNum := by omega
      have database := lookup_takes_in _ reached absent
      rw [takes_in _ reached absent] at now
      have here : shard = reply.shard := (List.mem_insert_iff.mp now).resolve_right before
      subst here
      obtain ⟨e, entry, num, shard, pairs⟩ := kept.brought owned member op read reached absent
      have entered := kept.taken e entry
      refine ⟨e, entry, shard, by omega, shard ▸ entered.owner, fun key mine => ?_,
        fun e' entry' shard' num' => ?_⟩
      · have fresh : (h.deployment.group gid).kv.database.lookup key = none := by
          rw [AList.lookup_eq_none]
          intro there
          exact absent (mine ▸ kept.stored gid key there)
        rw [database, fresh, Option.none_or, pairs]
      · have owner := (kept.taken e' entry').owner
        rw [shard', num', ← shard, entered.owner, Option.some.injEq] at owner
        by_contra apart
        exact kept.distinct.forall entry' entry apart ⟨owner.symm, num', shard'.trans shard.symm⟩
  · exact absurd op notShard

def writeThenMove (value : Str) : List Step :=
  adopt 1 ++ adopt 2 ++ [Step.request 5 ⟨.put, ['a'], value, put_data⟩, .call 5 1,
      .start 5 1, .await 5, .apply 1] ++
    adopt 1 ++ adopt 2 ++ [Step.pullShard 2 0, .shardMigration 0, .updateDataBase 0 1]

def nextTurn (h : History) (gid : Int) : Option (Operation × ShardKv) :=
  (h.deployment.group gid).log[(h.deployment.group gid).applied]?.bind fun operation =>
    ((h.deployment.group gid).kv.applyLoop operation ((h.deployment.group gid).applied + 1)).map
      fun kv => (operation, kv)

theorem nextTurn_eq (turn : h.nextTurn gid = some (operation, kv)) :
    (h.deployment.group gid).log[(h.deployment.group gid).applied]? = some operation ∧
      (h.deployment.group gid).kv.applyLoop operation ((h.deployment.group gid).applied + 1) =
        some kv := by
  obtain ⟨o, next, ran⟩ := Option.bind_eq_some_iff.mp turn
  obtain ⟨s, run, same⟩ := Option.map_eq_some_iff.mp ran
  cases same
  exact ⟨next, run⟩

theorem shards_handed_over_write :
    ∃ h kv, ∃ e ∈ h.taken, e.shard = 0 ∧
      execWhere (machine oneThenTwo) (PortableStep oneThenTwo) ⟨.boot, []⟩ (writeThenMove ['x']) =
        some h ∧
      (h.nextTurn 2).map (fun r => r.2) = some kv ∧
      ∀ key, key2shard key = 0 → kv.database.lookup key = e.data.lookup key := by
  have runs : ((execWhere (machine oneThenTwo) (PortableStep oneThenTwo) ⟨.boot, []⟩
      (writeThenMove ['x'])).any fun h => (h.nextTurn 2).any fun r => decide (r.1.op = .UD ∧
        0 ∈ r.2.availableShards ∧ 0 ∉ (h.deployment.group 2).kv.availableShards)) = true := by
    decide +kernel
  obtain ⟨h, ran, rest⟩ := (Option.any_eq_true _ _).mp runs
  obtain ⟨⟨operation, kv⟩, turn, shows⟩ := (Option.any_eq_true _ _).mp rest
  obtain ⟨op, now, before⟩ := of_decide_eq_true shows
  obtain ⟨next, run⟩ := nextTurn_eq turn
  have boots : Reach (machine oneThenTwo) (PortableStep oneThenTwo) ⟨.boot, []⟩ := .start rfl
  have reach := Reach.execWhere boots ran
  obtain ⟨e, entry, shard, -, -, pairs, -⟩ :=
    (shards_handed_over reach).2 2 operation kv next op run 0 now before
  exact ⟨h, kv, e, entry, shard, ran, by rw [turn]; rfl, pairs⟩

theorem separator_cuts_value :
    ¬ ∀ C h, Reachable (machine C) h → ∀ gid operation kv, h.nextTurn gid = some (operation, kv) →
      operation.op = .UD → ∀ shard ∈ kv.availableShards,
        shard ∉ (h.deployment.group gid).kv.availableShards →
          ∃ e ∈ h.taken, e.shard = shard ∧ e.configNum + 1 = h.deployment.num gid ∧
            ∀ key, key2shard key = shard → kv.database.lookup key = e.data.lookup key := by
  intro faithful
  have runs : ((exec (machine oneThenTwo) ⟨.boot, []⟩ (writeThenMove ['x', '|', 'y'])).any fun h =>
      (h.nextTurn 2).any fun r => decide (r.1.op = .UD ∧ 0 ∈ r.2.availableShards ∧
        0 ∉ (h.deployment.group 2).kv.availableShards ∧ r.2.database.lookup ['a'] = some ['x'] ∧
        ∀ e ∈ h.taken, e.shard = 0 → e.data.lookup ['a'] = some ['x', '|', 'y'])) = true := by
    decide +kernel
  obtain ⟨h, ran, rest⟩ := (Option.any_eq_true _ _).mp runs
  obtain ⟨⟨operation, kv⟩, turn, shows⟩ := (Option.any_eq_true _ _).mp rest
  obtain ⟨op, now, before, arrived, left⟩ := of_decide_eq_true shows
  have boots : Reachable (machine oneThenTwo) ⟨.boot, []⟩ := .start rfl
  obtain ⟨e, entry, shard, -, pairs⟩ :=
    faithful oneThenTwo h (Reach.exec boots ran) 2 operation kv turn op 0 now before
  have same := pairs ['a'] (by decide)
  rw [arrived, left e entry shard] at same
  cases same

end History

end ProjectsCpp.Sharding
