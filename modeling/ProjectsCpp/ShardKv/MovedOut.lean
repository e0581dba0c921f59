import ProjectsCpp.ShardKv.GroupLog
import ProjectsCpp.ShardKv.ShardBooks

/-! The shards that a group keeps for others. `shardMigration` answers out of `toOutShards`
and `garbagesCollect` wants an entry cleared; both are asked again and again, also when the
entry is gone. -/

namespace ProjectsCpp.Sharding
open ProjectsCpp.Text ProjectsCpp.Run

namespace ShardKv
variable {kv : ShardKv} {n m shard x : Int}

theorem toOutEntry_setToOut (data : AList fun _ : Str => Str) :
    ({ kv with toOutShards := setToOut n shard data kv.toOutShards } : ShardKv).toOutEntry m x =
      if m = n ∧ x = shard then some data else kv.toOutEntry m x := by
  rw [toOutEntry, setToOut]
  by_cases same : m = n
  · subst same
    rw [AList.lookup_insert, Option.bind_some]
    by_cases here : x = shard
    · subst here
      simp
    · rw [AList.lookup_insert_ne here, if_neg (fun h => here h.2), toOutEntry]
      cases kv.toOutShards.lookup m <;> rfl
  · simp [same, AList.lookup_insert_ne same, toOutEntry]

theorem touchToOut_entry {data : AList fun _ : Str => Str} (there : kv.toOutEntry n shard = some data) :
    kv.touchToOut n shard = (kv, data) := by
  obtain ⟨byShard, num, found⟩ := Option.bind_eq_some_iff.mp there
  rw [touchToOut, num, Option.getD_some, found]

theorem touchToOut_absent (absent : kv.toOutEntry n shard = none) :
    kv.touchToOut n shard = ({ kv with toOutShards := setToOut n shard ∅ kv.toOutShards }, ∅) := by
  have nothing : ((kv.toOutShards.lookup n).getD ∅).lookup shard = none := by
    rw [toOutEntry] at absent
    cases num : kv.toOutShards.lookup n with
    | none => rfl
    | some byShard =>
      rw [num] at absent
      exact absent
  rw [touchToOut, nothing]

theorem hasToOut_iff : kv.hasToOut n shard = (kv.toOutEntry n shard).isSome := by
  rw [hasToOut, toOutEntry]
  cases kv.toOutShards.lookup n with
  | none => rfl
  | some byShard =>
    rw [Option.any_some, Option.bind_some, Bool.eq_iff_iff, decide_eq_true_iff, AList.lookup_isSome]

/-! ### Answers to pulls -/

def errOf (text : Str) : Option Str := (pieces '|' text)[2]?

theorem errOf_migrateReply2Str {reply : MigrateReply} (word : reply.err ≠ [] ∧ '|' ∉ reply.err) :
    errOf (migrateReply2Str reply) = some reply.err := by
  rw [errOf, pieces_migrateReply2Str word]
  rfl

/-- An answer OK is exactly an entry of `toOutShards`, and the question leaves them alone. -/
structure PureMigration (kv : ShardKv) (shard configNum : Int) : Prop where
  entry : errOf (kv.shardMigration shard configNum).2 = some OK →
    ∃ data, kv.toOutEntry configNum shard = some data ∧
      (kv.shardMigration shard configNum).2 =
        migrateReply2Str ⟨OK, shard, configNum, data, kv.clientSeqMap⟩
  unchanged : (kv.shardMigration shard configNum).1.toOutShards = kv.toOutShards

/-- The leader's answer to a pull is a pure read of an existing entry exactly when the group has
not left the configuration, or the entry is there. -/
theorem pureMigration_iff (kv : ShardKv) (shard configNum : Int) :
    kv.PureMigration shard configNum ↔
      kv.config.configNum ≤ configNum ∨ (kv.toOutEntry configNum shard).isSome := by
  by_cases early : kv.config.configNum ≤ configNum
  · have refused : kv.shardMigration shard configNum =
        (kv, migrateReply2Str ⟨ErrWrongGroup, shard, configNum, ∅, ∅⟩) := if_pos early
    refine iff_of_true ⟨fun ok => ?_, by rw [refused]⟩ (.inl early)
    rw [refused, errOf_migrateReply2Str Deployment.err_word.2] at ok
    exact absurd (Option.some.inj ok) (show ErrWrongGroup ≠ OK by decide)
  have served : kv.shardMigration shard configNum = ((kv.touchToOut configNum shard).1,
      migrateReply2Str ⟨OK, shard, configNum, (kv.touchToOut configNum shard).2,
        kv.clientSeqMap⟩) := if_neg early
  rw [or_iff_right early]
  cases there : kv.toOutEntry configNum shard with
  | some data =>
    rw [touchToOut_entry there] at served
    exact iff_of_true ⟨fun _ => ⟨data, there, by rw [served]⟩, by rw [served]⟩ rfl
  | none =>
    rw [touchToOut_absent there] at served
    refine iff_of_false (fun pure => ?_) nofun
    obtain ⟨data, found, -⟩ := pure.entry (by rw [served, errOf_migrateReply2Str Deployment.err_word.1])
    rw [there] at found
    cases found

/-! ### Requests to clear an entry -/

def ErrWrongLeader : Str :=
  ['E', 'r', 'r', 'W', 'r', 'o', 'n', 'g', 'L', 'e', 'a', 'd', 'e', 'r']

/-- How the handler of `garbagesCollect` gets on with its command: `start` finds that the server
leads no more, the context is signalled, or two seconds pass. -/
inductive Wait where
  | notLeader
  | isRecved (isWrongLeader : Bool)
  | timeout

def garbagesCollect (kv : ShardKv) (isLeader : Bool) (shard configNum : Int) (wait : Wait) : Str :=
  if !isLeader then ErrWrongLeader
  else if !kv.hasToOut configNum shard then ErrWrongLeader
  else
    match wait with
    | .notLeader => ErrWrongLeader
    | .isRecved isWrongLeader => if isWrongLeader then ErrWrongLeader else OK
    | .timeout => ErrWrongLeader

theorem garbagesCollect_absent (absent : kv.toOutEntry n shard = none) (isLeader : Bool)
    (wait : Wait) : kv.garbagesCollect isLeader shard n wait = ErrWrongLeader := by
  have gone : kv.hasToOut n shard = false := by rw [hasToOut_iff, absent, Option.isSome_none]
  cases isLeader <;> simp [garbagesCollect, gone]

theorem clearToOutData_entry (absent : kv.toOutEntry n shard = none) (cfgNum gone : Int) :
    (kv.clearToOutData cfgNum gone).toOutEntry n shard = none := by
  cases found : kv.toOutShards.lookup cfgNum with
  | none =>
    rw [clearToOutData, found]
    exact absent
  | some byShard =>
    have is : kv.clearToOutData cfgNum gone = { kv with
        toOutShards := if (byShard.erase gone).keys = [] then kv.toOutShards.erase cfgNum
          else kv.toOutShards.insert cfgNum (byShard.erase gone) } := by
      rw [clearToOutData, found]
    rw [is, toOutEntry]
    rw [toOutEntry] at absent
    by_cases same : n = cfgNum
    · subst same
      have left : (byShard.erase gone).lookup shard = none := by
        rw [found, Option.bind_some] at absent
        by_cases here : shard = gone
        · rw [here, AList.lookup_erase]
        · rwa [AList.lookup_erase_ne here]
      split
      · rw [AList.lookup_erase]
        rfl
      · rw [AList.lookup_insert]
        exact left
    · split
      · rwa [AList.lookup_erase_ne same]
      · rwa [AList.lookup_insert_ne same]

theorem moveShards_lookup (apart : m ≠ n) (shards : List Int) (database : AList fun _ : Str => Str)
    (toOut : AList fun _ : Int => AList fun _ : Int => AList fun _ : Str => Str) :
    (moveShards n shards database toOut).2.lookup m = toOut.lookup m := by
  induction shards generalizing database toOut with
  | nil => rfl
  | cons shard shards ih => rw [moveShards, ih, setToOut, AList.lookup_insert_ne apart]

theorem update_entry (past : m < kv.config.configNum) (config : Config) :
    (kv.updateComeInAndOutShrads config).toOutEntry m shard = kv.toOutEntry m shard := by
  rw [updateComeInAndOutShrads]
  split
  · rfl
  · simp only [toOutEntry, moveShards_lookup (ne_of_lt past)]

theorem applyLoop_absent {operation : Operation} {index : Int} {t : ShardKv}
    (past : n < kv.config.configNum) (absent : kv.toOutEntry n shard = none)
    (run : kv.applyLoop operation index = some t) : t.toOutEntry n shard = none := by
  rcases applyLoop_cases run with ⟨config, -, -, rfl⟩ | ⟨reply, -, -, rfl⟩ |
    ⟨notConfig, notShard, -⟩
  · rwa [update_entry past]
  · rcases kv.updateDataBase_cases reply with same | ⟨-, -, same⟩ | ⟨-, -, database, garbages, same⟩ <;>
      rw [same] <;> exact absent
  · obtain ⟨u, command, same⟩ := applyCommand_of_applyLoop run
    have entry : t.toOutEntry n shard = u.toOutEntry n shard :=
      (congrArg (fun kv : ShardKv => kv.toOutEntry n shard) same :)
    rw [entry]
    rw [applyCommand] at command
    split at command
    · exact absurd ‹_› notConfig
    · exact absurd ‹_› notShard
    · obtain ⟨cfgNum, -, rfl⟩ := Option.map_eq_some_iff.mp command
      have before : (kv.numbered operation index).toOutEntry n shard = none := absent
      exact clearToOutData_entry before cfgNum operation.requestId
    · cases command
      split <;> exact absent

end ShardKv

namespace Deployment
variable {C : Configs} {s t : Deployment} {gid n shard : Int} {a : Step}

inductive Beside (C : Configs) (s : Deployment) (a : Step) (gid : Int) : ShardKv → Prop
  | same : Beside C s a gid (s.group gid).kv
  | requests (contexts : AList fun _ : Int => OpContext) :
      Beside C s a gid { (s.group gid).kv with requestMap := contexts }
  | dropGarbage (configNum shard : Int) :
      Beside C s a gid ((s.group gid).kv.dropGarbage configNum shard)
  | asked {k : Nat} {p : Pull} (pull : a = .shardMigration k) (pending : s.pulls[k]? = some p)
      (src : source C p.configNum p.shard = some gid) :
      Beside C s a gid ((s.group gid).kv.shardMigration p.shard p.configNum).1

theorem Beside.of_eq (groups : t.group = s.group) (g : Int) : Beside C s a g (t.group g).kv := by
  rw [groups]
  exact .same

theorem Beside.setKv {kv : ShardKv} (new : Beside C s a gid kv)
    (groups : t.group = (s.setKv gid kv).group) (g : Int) : Beside C s a g (t.group g).kv := by
  rw [groups]
  by_cases here : g = gid
  · subst here
    rwa [show ((s.setKv g kv).group g).kv = kv by
      simp only [Deployment.setKv, setGroup, Function.update_self]]
  · rw [show (s.setKv gid kv).group g = s.group g from Function.update_of_ne here _ _]
    exact .same

theorem Beside.propose {operation : Operation}
    (groups : t.group = (s.propose gid operation).group) (g : Int) :
    Beside C s a g (t.group g).kv := by
  have kv : ((s.propose gid operation).group g).kv = (s.group g).kv := by
    by_cases here : g = gid
    · subst here
      simp only [Deployment.propose, setGroup, Function.update_self, Group.propose]
    · rw [show (s.propose gid operation).group g = s.group g from Function.update_of_ne here _ _]
  rw [groups, kv]
  exact .same

theorem beside (step : s.step C a = some t) (quiet : ∀ gid, a ≠ .apply gid) (g : Int) :
    Beside C s a g (t.group g).kv := by
  cases a with
  | apply gid => exact absurd rfl (quiet gid)
  | readConfig gid =>
    simp only [Deployment.step] at step
    split at step <;> cases step
    exact .of_eq rfl g
  | updateConfig k term =>
    obtain ⟨u, -, rfl⟩ := Option.map_eq_some_iff.mp step
    exact .propose rfl g
  | pullShard gid shard =>
    obtain ⟨cfgNum, -, rfl⟩ := Option.map_eq_some_iff.mp step
    exact .of_eq rfl g
  | shardMigration k =>
    obtain ⟨p, pending, asked⟩ := Option.bind_eq_some_iff.mp step
    obtain ⟨gid, src, rfl⟩ := Option.map_eq_some_iff.mp asked
    exact .setKv (.asked rfl pending src) rfl g
  | updateDataBase k term =>
    obtain ⟨p, -, read⟩ := Option.bind_eq_some_iff.mp step
    obtain ⟨text, -, read⟩ := Option.bind_eq_some_iff.mp read
    obtain ⟨reply, -, done⟩ := Option.map_eq_some_iff.mp read
    split at done <;> cases done
    · exact .propose rfl g
    · exact .of_eq rfl g
  | doGarbage gid configNum shard =>
    simp only [Deployment.step] at step
    split at step
    · obtain ⟨src, -, rfl⟩ := Option.map_eq_some_iff.mp step
      exact .of_eq rfl g
    · cases step
  | garbagesCollect k rand term =>
    obtain ⟨c, -, asked⟩ := Option.bind_eq_some_iff.mp step
    simp only at asked
    split at asked <;> cases asked
    exact .propose rfl g
  | garbageFinished gid configNum shard =>
    cases step
    exact .setKv (.dropGarbage configNum shard) rfl g
  | request client r =>
    simp only [Deployment.step] at step
    split at step <;> cases step
    exact .of_eq rfl g
  | call client gid =>
    simp only [Deployment.step] at step
    split at step
    · split at step
      · obtain ⟨r, -, matched⟩ := Option.bind_eq_some_iff.mp step
        obtain ⟨isMatch, -, done⟩ := Option.bind_eq_some_iff.mp matched
        split at done <;> cases done <;> exact .of_eq rfl g
      · cases step
    · cases step
  | start client term =>
    simp only [Deployment.step] at step
    split at step
    · obtain ⟨operation, -, rfl⟩ := Option.map_eq_some_iff.mp step
      exact .propose rfl g
    · cases step
  | await client =>
    simp only [Deployment.step] at step
    split at step <;> cases step
    exact .setKv (.requests _) rfl g
  | answer client =>
    simp only [Deployment.step] at step
    split at step
    · obtain ⟨c, -, step⟩ := Option.bind_eq_some_iff.mp step
      split at step
      · obtain ⟨r, -, done⟩ := Option.map_eq_some_iff.mp step
        split at done <;> cases done <;> exact .setKv (.requests _) rfl g
      · cases step
    · cases step
  | giveUp client =>
    simp only [Deployment.step] at step
    split at step
    · cases step
      exact .of_eq rfl g
    · cases step
      exact .setKv (.requests _) rfl g
    · cases step

/-! ### A shard that is collected -/

def Gone (s : Deployment) (gid n shard : Int) : Prop :=
  n < s.num gid ∧ (s.group gid).kv.toOutEntry n shard = none

def Collected (s : Deployment) (gid n shard : Int) : Prop :=
  ∃ p < (s.group gid).applied, ∃ operation, (s.group gid).log[p]? = some operation ∧
    operation.op = .GC ∧ stoi operation.key = some n ∧ operation.requestId = shard

def Unasked (n shard : Int) (s : Deployment) (a : Step) : Prop :=
  ∀ k, a = .shardMigration k → ∀ p ∈ s.pulls[k]?, ¬(p.configNum = n ∧ p.shard = shard)

theorem shardMigration_entry {kv : ShardKv} {m x : Int} (apart : ¬(m = n ∧ x = shard)) :
    (kv.shardMigration x m).1.toOutEntry n shard = kv.toOutEntry n shard := by
  rw [ShardKv.shardMigration]
  split
  · rfl
  · cases there : kv.toOutEntry m x with
    | some data => rw [ShardKv.touchToOut_entry there]
    | none =>
      rw [ShardKv.touchToOut_absent there]
      exact (ShardKv.toOutEntry_setToOut ∅).trans
        (if_neg fun same => apart ⟨same.1.symm, same.2.symm⟩)

theorem Gone.step (gone : s.Gone gid n shard) (unasked : Unasked n shard s a)
    (step : s.step C a = some t) : t.Gone gid n shard := by
  obtain ⟨past, absent⟩ := gone
  by_cases turn : ∃ g, a = .apply g
  · obtain ⟨g, rfl⟩ := turn
    obtain ⟨operation, kv, ran⟩ := applied_of_step step
    by_cases same : gid = g
    · subst same
      rw [Gone, ran.num_self, ran.self]
      have forward := ((s.group gid).kv.view.apply_forward operation).1
      rw [← ShardKv.view_applyLoop ran.run] at forward
      exact ⟨lt_of_lt_of_le past forward, ShardKv.applyLoop_absent past absent ran.run⟩
    · rw [Gone, ran.num_other same, ran.other same]
      exact ⟨past, absent⟩
  · have notApply : ∀ g, a ≠ .apply g := fun g same => turn ⟨g, same⟩
    have num : t.num gid = s.num gid := by
      rcases step_cases step with ⟨g, operation, kv, same, ran⟩ | quiet
      · exact absurd same (notApply g)
      · exact quiet.num gid
    refine ⟨num ▸ past, ?_⟩
    have left := beside step notApply gid
    generalize (t.group gid).kv = kv at left ⊢
    cases left with
    | same => exact absent
    | requests contexts => exact absent
    | dropGarbage configNum x => exact absent
    | asked pull pending src =>
      rw [shardMigration_entry (unasked _ pull _ pending)]
      exact absent

/-- A group that keeps nothing of a shard from a configuration it has left never again answers
OK to the request to clear it, in any state that follows, unless the shard is pulled once more. -/
theorem garbagesCollect_never_ok (past : n < s.num gid)
    (absent : (s.group gid).kv.toOutEntry n shard = none)
    (later : Reach ⟨fun u => u = s, Deployment.step C⟩ (Unasked n shard) t)
    (isLeader : Bool) (wait : ShardKv.Wait) :
    (t.group gid).kv.garbagesCollect isLeader shard n wait ≠ OK := by
  have gone : t.Gone gid n shard := by
    refine later.invariant (P := fun u => u.Gone gid n shard) ?_
      fun u a v gone unasked step => gone.step unasked step
    rintro u rfl
    exact ⟨past, absent⟩
  rw [ShardKv.garbagesCollect_absent gone.2]
  decide

def moveAndCollect : List Step :=
  adopt 1 ++ adopt 2 ++ adopt 1 ++ adopt 2 ++ takeOver ++
    [.doGarbage 2 1 0, .garbagesCollect 0 0 1, .apply 1]

theorem exec_moveAndCollect :
    ∃ s, Reachable (machine oneThenTwo) s ∧ s.Collected 1 1 0 ∧ 1 < s.num 1 ∧
      (s.group 1).kv.toOutEntry 1 0 = none ∧ 0 ∈ (s.group 2).kv.garbage 1 := by
  have runs : ((exec (machine oneThenTwo) boot moveAndCollect).any fun s =>
      decide (2 < (s.group 1).applied ∧ (((s.group 1).log[2]?).any fun operation =>
          decide (operation.op = .GC ∧ stoi operation.key = some 1 ∧ operation.requestId = 0)) ∧
        1 < s.num 1 ∧ ((s.group 1).kv.toOutEntry 1 0).isNone ∧ 0 ∈ (s.group 2).kv.garbage 1)) =
      true := by
    decide +kernel
  obtain ⟨s, ran, shows⟩ := (Option.any_eq_true _ _).mp runs
  obtain ⟨applied, logged, past, absent, waits⟩ := of_decide_eq_true shows
  obtain ⟨operation, found, gc⟩ := (Option.any_eq_true _ _).mp logged
  have boots : Reachable (machine oneThenTwo) boot := .start rfl
  exact ⟨s, Reach.exec boots ran, ⟨2, applied, operation, found, of_decide_eq_true gc⟩, past,
    Option.isNone_iff_eq_none.mp absent, waits⟩

theorem garbagesCollect_never_ok_again :
    ∃ s, Reachable (machine oneThenTwo) s ∧ s.Collected 1 1 0 ∧ 0 ∈ (s.group 2).kv.garbage 1 ∧
      ∀ isLeader wait, (s.group 1).kv.garbagesCollect isLeader 0 1 wait ≠ OK := by
  obtain ⟨s, reach, collected, past, absent, waits⟩ := exec_moveAndCollect
  have here : Reach ⟨fun u => u = s, Deployment.step oneThenTwo⟩ (Unasked 1 0) s := .start rfl
  exact ⟨s, reach, collected, waits, garbagesCollect_never_ok past absent here⟩

theorem collected_shard_is_refused :
    ¬ ∀ C s, Reachable (machine C) s → ∀ gid n shard, n < s.num gid → s.Collected gid n shard →
      (s.group gid).kv.toOutEntry n shard = none →
        ∃ wait, (s.group gid).kv.garbagesCollect true shard n wait = OK := by
  intro answered
  obtain ⟨s, reach, collected, past, absent, -⟩ := exec_moveAndCollect
  obtain ⟨wait, ok⟩ := answered oneThenTwo s reach 1 1 0 past collected absent
  rw [ShardKv.garbagesCollect_absent absent] at ok
  exact absurd ok (by decide)

theorem collected_shard_is_served :
    ¬ ∀ C s, Reachable (machine C) s → ∀ gid shard configNum,
      (s.group gid).kv.PureMigration shard configNum := by
  intro pure
  obtain ⟨s, reach, -, past, absent, -⟩ := exec_moveAndCollect
  rcases ((s.group 1).kv.pureMigration_iff 0 1).mp (pure oneThenTwo s reach 1 0 1) with early | there
  · exact absurd past (not_lt.mpr early)
  · rw [absent] at there
    cases there

end Deployment

end ProjectsCpp.Sharding
