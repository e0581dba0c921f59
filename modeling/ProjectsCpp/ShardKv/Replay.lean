import ProjectsCpp.ShardKv.GroupLog
import ProjectsCpp.ShardKv.Replicas

/-! Replay behind a snapshot. `snapShotLoop` labels a snapshot with `m_lastAppliedIndex`, which
UC and UD leave where it is, so a restored replica applies the UC and UD commands behind the
label once more. A command that has been applied is settled from then on: applying it again
changes nothing. -/

namespace ProjectsCpp.Sharding
open ProjectsCpp.Text ProjectsCpp.Run

/-! ### Settled commands -/

/-- The configuration of a UC is reached; the shard of a UD is here, or belongs to a
configuration that is gone. -/
def View.Settled (v : View) (operation : Operation) : Prop :=
  (operation.op = .UC ∧ ∃ config, getConfig operation.value = some config ∧
    config.configNum ≤ v.num) ∨
  (operation.op = .UD ∧ ∃ reply, str2MigrateReply operation.value = some reply ∧
    (reply.configNum + 1 < v.num ∨
      (reply.configNum + 1 = v.num ∧ reply.shard ∈ v.available ∧ reply.shard ∉ v.comeIn)))

namespace ShardKv
variable {kv s : ShardKv} {operation : Operation} {index : Int}

theorem applyLoop_settled (settled : kv.view.Settled operation) (index : Int) :
    kv.applyLoop operation index = some kv := by
  rcases settled with ⟨op, config, read, old⟩ | ⟨op, reply, read, gone | ⟨current, there, arrived⟩⟩
  · simp only [applyLoop, op, read, Option.map_some, updateComeInAndOutShrads]
    rw [if_pos (show config.configNum ≤ kv.config.configNum from old)]
  · have late : reply.configNum ≠ kv.config.configNum - 1 := by
      have num : kv.view.num = kv.config.configNum := rfl
      omega
    simp only [applyLoop, op, read, Option.map_some, updateDataBaseWithMigrateReply]
    rw [if_pos late]
  · have now : ¬ reply.configNum ≠ kv.config.configNum - 1 := by
      have num : kv.view.num = kv.config.configNum := rfl
      omega
    have kept : kv.comeInShards.erase reply.shard = kv.comeInShards :=
      AList.ext (List.kerase_of_notMem_keys arrived)
    have here : reply.shard ∈ kv.availableShards := there
    simp only [applyLoop, op, read, Option.map_some, updateDataBaseWithMigrateReply]
    rw [if_neg now, kept, if_pos here]

end ShardKv

namespace View
variable {v : View} {operation : Operation}

theorem Settled.apply (settled : v.Settled operation) (o : Operation) :
    (v.apply o).Settled operation := by
  have forward := (v.apply_forward o).1
  rcases settled with ⟨op, config, read, old⟩ | ⟨op, reply, read, gone | ⟨current, there, arrived⟩⟩
  · exact .inl ⟨op, config, read, old.trans forward⟩
  · exact .inr ⟨op, reply, read, .inl (lt_of_lt_of_le gone forward)⟩
  · refine .inr ⟨op, reply, read, ?_⟩
    rcases v.apply_cases o with same | ⟨config, -, -, newer, same⟩ | ⟨other, same⟩
    · rw [same]
      exact .inr ⟨current, there, arrived⟩
    · rw [same, update_num newer]
      exact .inl (by omega)
    · rw [same]
      refine .inr ⟨current, List.mem_insert_of_mem there, ?_⟩
      rw [AList.mem_erase]
      exact fun still => arrived still.2

theorem Settled.after {gid : Int} {log : List Operation} {j p : Nat}
    (settled : (after gid (log.take j)).Settled operation) (le : j ≤ p) :
    (View.after gid (log.take p)).Settled operation := by
  induction p, le using Nat.le_induction with
  | base => exact settled
  | succ p le ih =>
    rw [List.take_add_one]
    cases log[p]? with
    | none => rwa [Option.toList_none, List.append_nil]
    | some o =>
      rw [Option.toList_some, after_concat]
      exact ih.apply o

end View

namespace ShardKv
variable {kv s : ShardKv} {operation : Operation} {index : Int}

theorem settled_of_applyLoop (run : kv.applyLoop operation index = some s)
    (change : operation.op = .UC ∨ operation.op = .UD)
    (reached : operation.op = .UD → ∀ reply, str2MigrateReply operation.value = some reply →
      reply.configNum + 1 ≤ kv.view.num) : s.view.Settled operation := by
  rw [view_applyLoop run, View.apply]
  rcases applyLoop_cases run with ⟨config, op, read, rfl⟩ | ⟨reply, op, read, rfl⟩ |
    ⟨notConfig, notShard, -⟩
  · simp only [op, read, Option.elim_some]
    refine .inl ⟨op, config, read, ?_⟩
    by_cases old : config.configNum ≤ kv.view.num
    · rw [View.update_old old]
      exact old
    · rw [View.update_num (not_le.mp old)]
  · simp only [op, read, Option.elim_some]
    have bound := reached op reply read
    refine .inr ⟨op, reply, read, ?_⟩
    rw [View.takeIn]
    split
    · exact .inl (by omega)
    · refine .inr ⟨?_, List.mem_insert_self, ?_⟩
      · change reply.configNum + 1 = kv.view.num
        omega
      · change reply.shard ∉ kv.view.comeIn.erase reply.shard
        rw [AList.mem_erase]
        exact fun still => still.1 rfl
  · exact absurd change (by simp [notConfig, notShard])

theorem lastApplied_updateDataBase (kv : ShardKv) (reply : MigrateReply) :
    (kv.updateDataBaseWithMigrateReply reply).lastAppliedIndex = kv.lastAppliedIndex := by
  rcases kv.updateDataBase_cases reply with same | ⟨-, -, same⟩ | ⟨-, -, database, garbages, same⟩ <;>
    rw [same]

theorem lastApplied_applyLoop (run : kv.applyLoop operation index = some s) :
    ((operation.op = .UC ∨ operation.op = .UD) ∧ s.lastAppliedIndex = kv.lastAppliedIndex) ∨
      s.lastAppliedIndex = index := by
  obtain ⟨t, command, same⟩ := applyCommand_of_applyLoop run
  have label : s.lastAppliedIndex = t.lastAppliedIndex :=
    (congrArg ShardKv.lastAppliedIndex same :)
  rw [label]
  rw [applyCommand] at command
  split at command
  · rename_i op
    obtain ⟨config, -, rfl⟩ := Option.map_eq_some_iff.mp command
    refine .inl ⟨.inl op, ?_⟩
    rw [updateComeInAndOutShrads]
    split <;> rfl
  · rename_i op
    obtain ⟨reply, -, rfl⟩ := Option.map_eq_some_iff.mp command
    exact .inl ⟨.inr op, kv.lastApplied_updateDataBase reply⟩
  · obtain ⟨cfgNum, -, rfl⟩ := Option.map_eq_some_iff.mp command
    right
    rw [clearToOutData]
    split <;> rfl
  · cases command
    right
    split <;> rfl

/-- The commands of a log, from `index` on. -/
def applyFrom (kv : ShardKv) (index : Int) : List Operation → Option ShardKv
  | [] => some kv
  | operation :: log => (kv.applyLoop operation index).bind fun s => s.applyFrom (index + 1) log

theorem applyFrom_settled {settled more : List Operation}
    (all : ∀ operation ∈ settled, kv.view.Settled operation) :
    kv.applyFrom index (settled ++ more) = kv.applyFrom (index + settled.length) more := by
  induction settled generalizing index with
  | nil => simp
  | cons operation settled ih =>
    rw [List.cons_append, applyFrom, applyLoop_settled (all operation List.mem_cons_self),
      Option.bind_some, ih fun o member => all o (List.mem_cons_of_mem _ member), List.length_cons]
    congr 1
    omega

end ShardKv

theorem AllBacked.reached {gid : Int} {log : List Operation} {p : Nat} {operation : Operation}
    (all : AllBacked gid log) (found : log[p]? = some operation) (op : operation.op = .UD)
    {reply : MigrateReply} (read : str2MigrateReply operation.value = some reply) :
    reply.configNum + 1 ≤ (View.after gid (log.take p)).num := by
  obtain ⟨j, le, num⟩ := (all p operation found).shard op reply read
  have forward := (View.after_forward gid log le).1
  omega

/-! ### The label of a replica -/

namespace ReplicaGroup
variable {gid i : Int} {s t : ReplicaGroup}

structure Labelled (committed : List Operation) (r : Replica) : Prop where
  low : 0 ≤ r.kv.lastAppliedIndex
  high : r.kv.lastAppliedIndex ≤ r.applied
  settled : ∀ p : Nat, r.kv.lastAppliedIndex ≤ p → p < r.applied →
    ∀ operation, committed[p]? = some operation → r.kv.view.Settled operation

structure Still (r r' : Replica) : Prop where
  applied : r'.applied = r.applied
  view : r'.kv.view = r.kv.view
  label : r'.kv.lastAppliedIndex = r.kv.lastAppliedIndex

theorem Still.refl (r : Replica) : Still r r := ⟨rfl, rfl, rfl⟩

theorem Labelled.still {committed committed' : List Operation} {r r' : Replica}
    (labelled : Labelled committed r) (still : Still r r') (grown : committed <+: committed')
    (bound : r.applied ≤ committed.length) : Labelled committed' r' := by
  obtain ⟨applied, view, label⟩ := still
  refine ⟨label ▸ labelled.low, ?_, fun p from_ upTo operation found => ?_⟩
  · rw [label, applied]
    exact labelled.high
  · rw [label] at from_
    rw [applied] at upTo
    rw [view]
    have inside : p < committed.length := by omega
    obtain ⟨more, rfl⟩ := grown
    rw [List.getElem?_append_left inside] at found
    exact labelled.settled p from_ upTo operation found

theorem step_cases {a : Step} (next : s.step a = some t) :
    (∃ i operation kv, s.committed[(s.replica i).applied]? = some operation ∧
      (s.replica i).kv.applyLoop operation ((s.replica i).applied + 1) = some kv ∧
      t = s.setReplica i ⟨kv, (s.replica i).applied + 1, (s.replica i).log⟩) ∨
    ((∀ i, Still (s.replica i) (t.replica i)) ∧ s.committed <+: t.committed) := by
  have one : ∀ i r, Still (s.replica i) r →
      ∀ j, Still (s.replica j) ((s.setReplica i r).replica j) := by
    intro i r still j
    by_cases same : j = i
    · rw [same, show (s.setReplica i r).replica i = r from Function.update_self _ _ _]
      exact still
    · rw [show (s.setReplica i r).replica j = s.replica j from Function.update_of_ne same _ _]
      exact .refl _
  cases a with
  | apply i =>
    obtain ⟨operation, found, ran⟩ := Option.bind_eq_some_iff.mp next
    obtain ⟨kv, run, rfl⟩ := Option.map_eq_some_iff.mp ran
    exact .inl ⟨i, operation, kv, found, run, rfl⟩
  | requests i contexts =>
    cases next
    exact .inr ⟨one i _ ⟨rfl, rfl, rfl⟩, List.prefix_rfl⟩
  | shardMigration i shard configNum =>
    cases next
    have same := (Deployment.shardMigration_shards (s.replica i).kv shard configNum).1
    refine .inr ⟨one i _ ⟨rfl, ShardKv.view_congr same, ?_⟩, List.prefix_rfl⟩
    change ((s.replica i).kv.shardMigration shard configNum).1.lastAppliedIndex = _
    rw [ShardKv.shardMigration, ShardKv.touchToOut]
    split
    · rfl
    · split <;> rfl
  | garbageFinished i configNum shard =>
    cases next
    exact .inr ⟨one i _ ⟨rfl, rfl, rfl⟩, List.prefix_rfl⟩
  | readConfig i =>
    simp only [ReplicaGroup.step] at next
    split at next <;> cases next
    exact .inr ⟨fun j => .refl _, List.prefix_rfl⟩
  | updateConfig k config term =>
    obtain ⟨u, -, asked⟩ := Option.bind_eq_some_iff.mp next
    split at asked
    · obtain ⟨v, started, rfl⟩ := Option.map_eq_some_iff.mp asked
      obtain ⟨-, rfl⟩ := start_eq started
      exact .inr ⟨one u.1 _ ⟨rfl, rfl, rfl⟩, List.prefix_rfl⟩
    · cases asked
  | pullShard i shard =>
    obtain ⟨cfgNum, -, rfl⟩ := Option.map_eq_some_iff.mp next
    exact .inr ⟨fun j => .refl _, List.prefix_rfl⟩
  | updateDataBase k reply term =>
    obtain ⟨p, -, asked⟩ := Option.bind_eq_some_iff.mp next
    split at asked
    · obtain ⟨v, started, rfl⟩ := Option.map_eq_some_iff.mp asked
      obtain ⟨-, rfl⟩ := start_eq started
      exact .inr ⟨one p.1 _ ⟨rfl, rfl, rfl⟩, List.prefix_rfl⟩
    · cases asked
  | propose i operation =>
    simp only [ReplicaGroup.step] at next
    split at next
    · obtain ⟨-, rfl⟩ := start_eq next
      exact .inr ⟨one i _ ⟨rfl, rfl, rfl⟩, List.prefix_rfl⟩
    · cases next
  | replicate leader follower length =>
    cases next
    exact .inr ⟨one follower _ ⟨rfl, rfl, rfl⟩, List.prefix_rfl⟩
  | commit i length =>
    simp only [ReplicaGroup.step] at next
    split at next
    · rename_i grown
      cases next
      exact .inr ⟨fun j => .refl _, grown⟩
    · cases next

theorem labelled_apply (sequenced : Sequenced gid s) {operation : Operation} {kv : ShardKv}
    (labelled : Labelled s.committed (s.replica i))
    (next : s.committed[(s.replica i).applied]? = some operation)
    (run : (s.replica i).kv.applyLoop operation ((s.replica i).applied + 1) = some kv) :
    Labelled s.committed ⟨kv, (s.replica i).applied + 1, (s.replica i).log⟩ := by
  have view := (sequenced.replicas i).2
  rcases ShardKv.lastApplied_applyLoop run with ⟨change, label⟩ | label
  · refine ⟨label ▸ labelled.low, ?_, fun p from_ upTo o found => ?_⟩
    · have high := labelled.high
      change kv.lastAppliedIndex ≤ (((s.replica i).applied + 1 : Nat) : Int)
      omega
    · change kv.lastAppliedIndex ≤ p at from_
      change p < (s.replica i).applied + 1 at upTo
      by_cases last : p = (s.replica i).applied
      · rw [last, next, Option.some.injEq] at found
        subst found
        refine ShardKv.settled_of_applyLoop run change fun op reply read => ?_
        rw [view]
        exact sequenced.committed.reached next op read
      · have settled := labelled.settled p (by omega) (by omega) o found
        change kv.view.Settled o
        rw [ShardKv.view_applyLoop run]
        exact settled.apply operation
  · refine ⟨?_, ?_, fun p from_ upTo => ?_⟩
    · change 0 ≤ kv.lastAppliedIndex
      omega
    · change kv.lastAppliedIndex ≤ (((s.replica i).applied + 1 : Nat) : Int)
      omega
    · change kv.lastAppliedIndex ≤ p at from_
      change p < (s.replica i).applied + 1 at upTo
      omega

theorem labelled (reach : Reachable (machine gid) s) : ∀ i, Labelled s.committed (s.replica i) := by
  refine reach.invariant_of (P := fun s => ∀ i, Labelled s.committed (s.replica i))
    (fun s reach => sequenced reach) ?_ ?_
  · rintro s rfl i
    exact ⟨le_refl _, le_refl _, fun p _ upTo => absurd upTo (Nat.not_lt_zero p)⟩
  · intro s a t sequenced before _ next j
    rcases step_cases next with ⟨i, operation, kv, found, run, rfl⟩ | ⟨still, grown⟩
    · by_cases same : j = i
      · rw [same, show (s.setReplica i _).replica i = _ from Function.update_self _ _ _]
        exact labelled_apply sequenced (before i) found run
      · rw [show (s.setReplica i _).replica j = s.replica j from Function.update_of_ne same _ _]
        exact before j
    · exact (before j).still (still j) grown (sequenced.replicas j).1

def behindLabel (s : ReplicaGroup) (i : Int) : List Operation :=
  (s.committed.take (s.replica i).applied).drop (s.replica i).kv.lastAppliedIndex.toNat

theorem settled_behindLabel (reach : Reachable (machine gid) s) :
    ∀ operation ∈ s.behindLabel i, (s.replica i).kv.view.Settled operation := by
  intro operation member
  obtain ⟨p, found⟩ := List.getElem?_of_mem member
  rw [behindLabel, List.getElem?_drop, List.getElem?_take] at found
  split at found
  · have low := (labelled reach i).low
    exact (labelled reach i).settled _ (by omega) (by omega) operation found
  · cases found

/-- Applying the commands behind the label again changes nothing, so a replica that is restored
from its snapshot and replays the log from the label is the replica that goes on directly. -/
theorem replay_from_label (reach : Reachable (machine gid) s)
    (contexts : AList fun _ : Int => OpContext) :
    let restored := { (s.replica i).kv with requestMap := contexts }
    restored.applyFrom (restored.lastAppliedIndex + 1) (s.behindLabel i) = some restored ∧
      ∀ more, restored.applyFrom (restored.lastAppliedIndex + 1) (s.behindLabel i ++ more) =
        restored.applyFrom ((s.replica i).applied + 1) more := by
  intro restored
  have settled : ∀ operation ∈ s.behindLabel i, restored.view.Settled operation :=
    settled_behindLabel reach
  have label : restored.lastAppliedIndex + 1 + (s.behindLabel i).length =
      (s.replica i).applied + 1 := by
    have bound := ((sequenced reach).replicas i).1
    have low := (labelled reach i).low
    have high := (labelled reach i).high
    have same : restored.lastAppliedIndex = (s.replica i).kv.lastAppliedIndex := rfl
    rw [behindLabel, List.length_drop, List.length_take, min_eq_left bound]
    omega
  have again : ∀ more, restored.applyFrom (restored.lastAppliedIndex + 1) (s.behindLabel i ++ more) =
      restored.applyFrom (restored.lastAppliedIndex + 1 + (s.behindLabel i).length) more :=
    fun more => ShardKv.applyFrom_settled settled
  refine ⟨?_, fun more => ?_⟩
  · have all := again []
    rw [List.append_nil] at all
    rw [all]
    rfl
  · rw [again more, label]

def takeOver : List Step :=
  [.readConfig 0, .updateConfig 0 ⟨1, List.replicate NShards 2, ∅⟩ 1, .commit 0 1, .apply 0,
    .propose 0 ⟨.get, ['a'], [], 7, 0, 1⟩, .readConfig 0,
    .updateConfig 0 ⟨2, 1 :: List.replicate 9 2, ∅⟩ 1, .commit 0 3,
    .requests 0 (AList.singleton 2 (.ofTerm 1)), .apply 0, .apply 0, .pullShard 0 0,
    .updateDataBase 0 ⟨OK, 0, 1, AList.singleton ['a'] ['v'], ∅⟩ 1, .commit 0 4, .apply 0]

theorem replay_from_label_takeOver :
    ∃ s, Reachable (machine 1) s ∧ (s.behindLabel 0).length = 2 ∧
      0 ∈ (s.replica 0).kv.availableShards ∧
      (s.replica 0).kv.applyFrom ((s.replica 0).kv.lastAppliedIndex + 1) (s.behindLabel 0) =
        some (s.replica 0).kv := by
  have runs : ((exec (machine 1) (boot 1) takeOver).any fun s =>
      decide ((s.behindLabel 0).length = 2 ∧ 0 ∈ (s.replica 0).kv.availableShards)) = true := by
    decide +kernel
  obtain ⟨s, ran, shows⟩ := (Option.any_eq_true _ _).mp runs
  have boots : Reachable (machine 1) (boot 1) := .start rfl
  have reach : Reachable (machine 1) s := Reach.exec boots ran
  obtain ⟨two, here⟩ := of_decide_eq_true shows
  exact ⟨s, reach, two, here, (replay_from_label reach (s.replica 0).kv.requestMap).1⟩

end ReplicaGroup

end ProjectsCpp.Sharding
