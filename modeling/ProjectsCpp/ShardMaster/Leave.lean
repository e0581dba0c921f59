import ProjectsCpp.ShardMaster.Configs

/-! The shard master over whole runs of its loop. The stored configurations are only
extended and are numbered by their index. A `Leave` takes its groups out of the latest
configuration unless it takes out the last group: then nothing is stored. -/

namespace ProjectsCpp.Mastering
open ProjectsCpp.Text ProjectsCpp.Sharding ProjectsCpp.Balance ProjectsCpp.Run

namespace ShardMaster

def machine (ties : Ties Int Nat) : Machine ShardMaster Event where
  start := (· = .start)
  step := step ties

variable {ties : Ties Int Nat} {fuel : Nat} {master master' : ShardMaster} {msg : ApplyMsg}
  {operation : Operation} {ids : List Int} {config : Config}

@[simp] theorem markWrongLeader_configs (index term : Int) (master : ShardMaster) :
    (master.markWrongLeader index term).configs = master.configs := by
  rw [markWrongLeader]
  split
  · rfl
  · split <;> rfl

@[simp] theorem record_configs (operation : Operation) (master : ShardMaster) :
    (master.record operation).configs = master.configs := rfl

theorem answerQuery_configs {index : Int}
    (answered : master.answerQuery index operation = some master') :
    master'.configs = master.configs := by
  rw [answerQuery] at answered
  split at answered
  · cases answered
    rfl
  · obtain ⟨queryNum, -, answered⟩ := Option.bind_eq_some_iff.mp answered
    obtain ⟨config, -, rfl⟩ := Option.map_eq_some_iff.mp answered
    rfl

theorem applyLoop_configs (applied : master.applyLoop ties fuel msg = some master') :
    master'.configs = master.configs ∨ ∃ operation, msg.getOperation = some operation ∧
      operation.op ≠ .Query ∧ master.isFresh operation = true ∧
      doJoinLeaveMove ties fuel master.configs operation = some master'.configs := by
  obtain ⟨operation, read, applied⟩ := Option.bind_eq_some_iff.mp applied
  by_cases query : operation.op = .Query
  · rw [if_pos query] at applied
    left
    rw [answerQuery_configs applied, record_configs, markWrongLeader_configs]
  · rw [if_neg query] at applied
    by_cases fresh : master.isFresh operation = true
    · rw [if_pos fresh] at applied
      obtain ⟨configs, done, rfl⟩ := Option.map_eq_some_iff.mp applied
      exact .inr ⟨operation, read, query, fresh, done⟩
    · rw [if_neg fresh, Option.some.injEq] at applied
      rw [← applied]
      exact .inl (markWrongLeader_configs _ _ _)

theorem applyLoop_fresh (ties : Ties Int Nat) (read : msg.getOperation = some operation)
    (change : operation.op ≠ .Query)
    (fresh : master.isFresh operation = true) (fuel : Nat) :
    (master.applyLoop ties fuel msg).map configs =
      doJoinLeaveMove ties fuel master.configs operation := by
  rw [applyLoop, read, Option.bind_some, if_neg change, if_pos fresh, Option.map_map]
  exact Option.map_id'

theorem step_configs {event : Event} (next : step ties master event = some master') :
    master'.configs = master.configs ∨ ∃ fuel operation,
      doJoinLeaveMove ties fuel master.configs operation = some master'.configs := by
  cases event with
  | apply fuel msg =>
    rcases applyLoop_configs next with same | ⟨operation, -, -, -, done⟩
    · exact .inl same
    · exact .inr ⟨fuel, operation, done⟩
  | «open» index operation =>
    cases next
    exact .inl rfl
  | close index =>
    cases next
    exact .inl rfl

theorem step_extends {event : Event} (next : step ties master event = some master') :
    master.configs <+: master'.configs := by
  rcases step_configs next with same | ⟨fuel, operation, done⟩
  · exact same.symm ▸ List.prefix_rfl
  · exact doJoinLeaveMove_extends done

theorem history (reach : Reachable (machine ties) master) : History master.configs :=
  reach.invariant (P := fun master => History master.configs)
    (fun _ init => init ▸ History.start)
    (fun _ _ _ before _ next => by
      rcases step_configs next with same | ⟨fuel, operation, done⟩
      · rwa [same]
      · exact before.step done)

/-! ### Groups that leave -/

/-- No gid of `ids` is left in a configuration. -/
def Gone (ids : List Int) (config : Config) : Prop :=
  ∀ id ∈ ids, id ∉ config.groups ∧ id ∉ config.shards

instance (ids : List Int) (config : Config) : Decidable (Gone ids config) := by
  unfold Gone
  infer_instance

/-- Some group stays and balancing comes to its end; or no group stays, and the latest
configuration knew nothing of `ids` before. -/
def LeaveLands (ids : List Int) (config : Config) : Prop :=
  if (left ids config).groups.entries = [] then Gone ids config else Balances (left ids config)

instance (ids : List Int) (config : Config) : Decidable (LeaveLands ids config) := by
  unfold LeaveLands
  infer_instance

theorem gone_of_rebalanced (written : Rebalanced (left ids config) config') : Gone ids config' := by
  intro id leaving
  refine ⟨fun inside => ?_, fun inside => ?_⟩
  · rw [written.groups] at inside
    exact (mem_left_groups.mp inside).1 leaving
  · rcases written.owners id inside with known | ⟨ne, owner⟩
    · exact (mem_left_groups.mp known).1 leaving
    · exact ((mem_left_shards owner).resolve_left ne).1 leaving

theorem leave_lands_iff (ties : Ties Int Nat) {configs : List Config} (history : History configs)
    (op : operation.op = .Leave) (read : getVectorOfInt operation.args = some ids)
    (last : configs.getLast? = some config) :
    (∃ fuel configs' config', doJoinLeaveMove ties fuel configs operation = some configs' ∧
      configs'.getLast? = some config' ∧ Gone ids config') ↔ LeaveLands ids config := by
  have sized : (left ids config).shards.length = NShards := by
    rw [left, List.length_map]
    exact history.sized config (List.mem_of_getLast? last)
  have leave : ∀ fuel, doJoinLeaveMove ties fuel configs operation =
      storeBalanced ties fuel configs (left ids config) := fun fuel => by
    simp only [doJoinLeaveMove, last, Option.bind_some, op, read]
  simp only [leave]
  by_cases nil : (left ids config).groups.entries = []
  · rw [LeaveLands, if_pos nil]
    simp only [storeBalanced, if_pos nil]
    constructor
    · rintro ⟨fuel, configs', config', same, last', gone⟩
      cases same
      rw [last] at last'
      cases last'
      exact gone
    · exact fun gone => ⟨0, configs, config, rfl, last, gone⟩
  · rw [LeaveLands, if_neg nil, ← balances_iff ties sized nil]
    simp only [storeBalanced, if_neg nil]
    constructor
    · rintro ⟨fuel, configs', config', stored, -, -⟩
      obtain ⟨next, balanced, -⟩ := Option.map_eq_some_iff.mp stored
      exact ⟨fuel, next, balanced⟩
    · rintro ⟨fuel, next, balanced⟩
      exact ⟨fuel, configs ++ [next], next, by rw [balanced]; rfl, List.getLast?_concat,
        gone_of_rebalanced (rebalanced nil balanced)⟩

/-- The law of the configuration history, for every run. -/
theorem config_history (ties : Ties Int Nat) (reach : Reachable (machine ties) master) :
    (∀ (i : Nat) (config : Config), master.configs[i]? = some config → config.configNum = i) ∧
    (∀ event master', step ties master event = some master' → master.configs <+: master'.configs) ∧
    ∀ (msg : ApplyMsg) (operation : Operation) (ids : List Int) (config : Config),
      msg.getOperation = some operation → operation.op = .Leave →
      master.isFresh operation = true → getVectorOfInt operation.args = some ids →
      master.configs.getLast? = some config →
      ((∃ fuel master' config', master.applyLoop ties fuel msg = some master' ∧
        master'.configs.getLast? = some config' ∧ Gone ids config') ↔ LeaveLands ids config) := by
  have history := history reach
  refine ⟨history.numbered, fun event master' => step_extends,
    fun msg operation ids config read op fresh readIds last => ?_⟩
  have change : operation.op ≠ .Query := by
    rw [op]
    decide
  rw [← leave_lands_iff ties history op readIds last]
  constructor
  · rintro ⟨fuel, master', config', applied, last', gone⟩
    have done := applyLoop_fresh ties read change fresh fuel
    rw [applied, Option.map_some] at done
    exact ⟨fuel, master'.configs, config', done.symm, last', gone⟩
  · rintro ⟨fuel, configs', config', done, last', gone⟩
    rw [← applyLoop_fresh ties read change fresh] at done
    obtain ⟨master', applied, rfl⟩ := Option.map_eq_some_iff.mp done
    exact ⟨fuel, master', config', applied, last', gone⟩

private def joinMsg (gids : List Int) : ApplyMsg :=
  ⟨Operation.getCmd ⟨.Join, ended '|' (gids.map fun gid => ended ':' [decimal gid, ['a']]), 5, 0, 1⟩,
    1, 1⟩

private def leaveOne : Operation := ⟨.Leave, groupIdsInfo [1], 5, 1, 1⟩

private def leaveMsg : ApplyMsg := ⟨leaveOne.getCmd, 2, 1⟩

theorem leave_of_last_group_stores_nothing :
    ∃ master master' config, exec (machine firstTie) .start [.apply 9 (joinMsg [1])] = some master ∧
      leaveMsg.getOperation = some leaveOne ∧ master.isFresh leaveOne = true ∧
      getVectorOfInt leaveOne.args = some [1] ∧
      master.applyLoop firstTie 9 leaveMsg = some master' ∧
      master'.configs.getLast? = some config ∧ ¬Gone [1] config :=
  ⟨_, _, _, rfl, rfl, rfl, rfl, rfl, rfl, by decide⟩

theorem config_history_two_groups :
    ∃ (master : ShardMaster) (config : Config), exec (machine firstTie) .start [.apply 9 (joinMsg [1, 2])] = some master ∧
      config.configNum = 1 ∧ ∃ fuel master' config',
        master.applyLoop firstTie fuel leaveMsg = some master' ∧
        master'.configs.getLast? = some config' ∧ Gone [1] config' := by
  obtain ⟨master, config, ran, last, fresh, lands⟩ : ∃ (master : ShardMaster) (config : Config),
      exec (machine firstTie) .start [.apply 9 (joinMsg [1, 2])] = some master ∧
      master.configs.getLast? = some config ∧ master.isFresh leaveOne = true ∧
      LeaveLands [1] config := ⟨_, _, rfl, rfl, rfl, by decide⟩
  have reach := Reach.exec (Reach.start (M := machine firstTie) rfl) ran
  obtain ⟨numbered, -, law⟩ := config_history firstTie reach
  have length : master.configs.length = 2 := by
    cases ran
    rfl
  have number := numbered 1 config (by rw [← last, List.getLast?_eq_getElem?, length])
  exact ⟨master, config, ran, number,
    (law leaveMsg leaveOne [1] config rfl rfl fresh rfl last).mpr lands⟩

end ShardMaster
end ProjectsCpp.Mastering
