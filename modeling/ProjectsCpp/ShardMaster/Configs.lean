import ProjectsCpp.ShardMaster.WorkLoad
import ProjectsCpp.Lib.Run

/-! The configurations that the shard master stores: they are only extended, the index of
each is its number, and as long as `Move` names known groups every shard has a valid owner
and every command comes to its end. -/

namespace ProjectsCpp.Mastering
open ProjectsCpp.Text ProjectsCpp.Sharding ProjectsCpp.Balance ProjectsCpp.Run

variable {ties : Ties Int Nat} {fuel : Nat} {configs configs' : List Config}
  {operation : Operation}

/-! ### What one command can store -/

def Prepared (operation : Operation) (config base : Config) : Prop :=
  (operation.op = .Join ∧ ∃ newGroups, getMap operation.args = some newGroups ∧
    base = joined newGroups config) ∨
  (operation.op = .Leave ∧ ∃ groupIds, getVectorOfInt operation.args = some groupIds ∧
    base = left groupIds config)

def Moved (operation : Operation) (config next : Config) : Prop :=
  operation.op = .Move ∧ ∃ shard gId more,
    getShardAndGroupId operation.args = some (shard :: gId :: more) ∧
    moved shard gId config = some next

theorem doJoinLeaveMove_cases
    (done : doJoinLeaveMove ties fuel configs operation = some configs') :
    configs' = configs ∨ ∃ config next, configs.getLast? = some config ∧
      configs' = configs ++ [next] ∧
      (Moved operation config next ∨ ∃ base, Prepared operation config base ∧
        base.groups.entries ≠ [] ∧ balanceWorkLoad ties fuel base = some next) := by
  obtain ⟨config, last, done⟩ := Option.bind_eq_some_iff.mp done
  have stored : ∀ base, Prepared operation config base →
      storeBalanced ties fuel configs base = some configs' → configs' = configs ∨
        ∃ config next, configs.getLast? = some config ∧ configs' = configs ++ [next] ∧
          (Moved operation config next ∨ ∃ base, Prepared operation config base ∧
            base.groups.entries ≠ [] ∧ balanceWorkLoad ties fuel base = some next) := by
    intro base prepared store
    by_cases nil : base.groups.entries = []
    · rw [storeBalanced, if_pos nil, Option.some.injEq] at store
      exact .inl store.symm
    · rw [storeBalanced, if_neg nil] at store
      obtain ⟨next, balanced, rfl⟩ := Option.map_eq_some_iff.mp store
      exact .inr ⟨config, next, last, rfl, .inr ⟨base, prepared, nil, balanced⟩⟩
  cases op : operation.op with
  | Join =>
    rw [op] at done
    obtain ⟨newGroups, read, store⟩ := Option.bind_eq_some_iff.mp done
    exact stored _ (.inl ⟨op, newGroups, read, rfl⟩) store
  | Leave =>
    rw [op] at done
    obtain ⟨groupIds, read, store⟩ := Option.bind_eq_some_iff.mp done
    exact stored _ (.inr ⟨op, groupIds, read, rfl⟩) store
  | Move =>
    rw [op] at done
    obtain ⟨moveInfo, read, store⟩ := Option.bind_eq_some_iff.mp done
    match moveInfo, read, store with
    | shard :: gId :: more, read, store =>
      obtain ⟨next, moved, rfl⟩ := Option.map_eq_some_iff.mp store
      exact .inr ⟨config, next, last, rfl, .inl ⟨op, shard, gId, more, read, moved⟩⟩
  | Query =>
    rw [op, Option.some.injEq] at done
    exact .inl done.symm

theorem doJoinLeaveMove_extends
    (done : doJoinLeaveMove ties fuel configs operation = some configs') : configs <+: configs' := by
  rcases doJoinLeaveMove_cases done with rfl | ⟨config, next, -, rfl, -⟩
  · exact List.prefix_rfl
  · exact List.prefix_append _ _

theorem doJoinLeaveMove_mono (more : Nat)
    (done : doJoinLeaveMove ties fuel configs operation = some configs') :
    doJoinLeaveMove ties (fuel + more) configs operation = some configs' := by
  have stored : ∀ base, storeBalanced ties fuel configs base = some configs' →
      storeBalanced ties (fuel + more) configs base = some configs' := by
    intro base store
    by_cases nil : base.groups.entries = []
    · rw [storeBalanced, if_pos nil] at store ⊢
      exact store
    · rw [storeBalanced, if_neg nil] at store ⊢
      obtain ⟨next, balanced, rfl⟩ := Option.map_eq_some_iff.mp store
      rw [balanceWorkLoad_mono more balanced, Option.map_some]
  obtain ⟨config, last, done⟩ := Option.bind_eq_some_iff.mp done
  rw [doJoinLeaveMove, last, Option.bind_some]
  cases op : operation.op with
  | Join =>
    rw [op] at done
    obtain ⟨newGroups, read, store⟩ := Option.bind_eq_some_iff.mp done
    simp only [read, Option.bind_some, stored _ store]
  | Leave =>
    rw [op] at done
    obtain ⟨groupIds, read, store⟩ := Option.bind_eq_some_iff.mp done
    simp only [read, Option.bind_some, stored _ store]
  | Move =>
    rw [op] at done
    exact done
  | Query =>
    rw [op] at done
    exact done

/-! ### Numbers and sizes -/

/-- Index and number agree, and every configuration owns all shards. -/
structure History (configs : List Config) : Prop where
  nonempty : configs ≠ []
  numbered : ∀ (i : Nat) (config : Config), configs[i]? = some config → config.configNum = i
  sized : ∀ config ∈ configs, config.shards.length = NShards

theorem History.start : History [Config.empty] where
  nonempty := List.cons_ne_nil _ _
  numbered := by
    intro i config found
    cases i with
    | zero =>
      cases found
      rfl
    | succ i => cases found
  sized := by
    intro config member
    rw [List.mem_singleton.mp member]
    rfl

theorem prepared_num {config base : Config} (prepared : Prepared operation config base) :
    base.configNum = config.configNum + 1 ∧ base.shards.length = config.shards.length := by
  rcases prepared with ⟨-, newGroups, -, rfl⟩ | ⟨-, groupIds, -, rfl⟩
  · exact ⟨rfl, rfl⟩
  · exact ⟨rfl, List.length_map _⟩

theorem moved_eq {shard gId : Int} {config next : Config}
    (move : moved shard gId config = some next) :
    (0 ≤ shard ∧ shard.toNat < config.shards.length) ∧
      next = ⟨config.configNum + 1, config.shards.set shard.toNat gId, config.groups⟩ := by
  rw [moved] at move
  split at move
  · rename_i inside
    exact ⟨inside, (Option.some.inj move).symm⟩
  · cases move

theorem History.step (history : History configs)
    (done : doJoinLeaveMove ties fuel configs operation = some configs') : History configs' := by
  rcases doJoinLeaveMove_cases done with rfl | ⟨config, next, last, rfl, kind⟩
  · exact history
  · have next_ : next.configNum = config.configNum + 1 ∧
        next.shards.length = config.shards.length := by
      rcases kind with ⟨-, shard, gId, more, -, move⟩ | ⟨base, prepared, some_, balanced⟩
      · rw [(moved_eq move).2]
        exact ⟨rfl, List.length_set⟩
      · have written := rebalanced some_ balanced
        have base_ := prepared_num prepared
        exact ⟨written.configNum.trans base_.1, written.size.trans base_.2⟩
    have number : config.configNum = (configs.length - 1 : Nat) :=
      history.numbered _ _ (by rw [← List.getLast?_eq_getElem?]; exact last)
    have positive := List.length_pos_of_ne_nil history.nonempty
    refine ⟨by simp, fun i c found => ?_, fun c member => ?_⟩
    · by_cases old : i < configs.length
      · rw [List.getElem?_append_left old] at found
        exact history.numbered i c found
      · rw [List.getElem?_append_right (by omega)] at found
        have here : i - configs.length = 0 := by
          by_contra far
          rw [List.getElem?_eq_none (by simp; omega)] at found
          cases found
        rw [here, List.getElem?_cons_zero, Option.some.injEq] at found
        rw [← found, next_.1, number]
        omega
    · rcases List.mem_append.mp member with old | new
      · exact history.sized c old
      · rw [List.mem_singleton.mp new, next_.2]
        exact history.sized config (List.mem_of_getLast? last)

/-! ### Owners -/

theorem mem_joined {newGroups : AList fun _ : Int => List Str} {config : Config} {k : Int} :
    k ∈ (joined newGroups config).groups ↔ k ∈ newGroups ∨ k ∈ config.groups := by
  have all : ∀ (entries : List (Sigma fun _ : Int => List Str)) (m : AList fun _ : Int => List Str),
      k ∈ entries.foldl (fun groups group => groups.insert group.1 group.2) m ↔
        k ∈ entries.keys ∨ k ∈ m := by
    intro entries
    induction entries with
    | nil => simp
    | cons e entries ih =>
      intro m
      rw [List.foldl_cons, ih, AList.mem_insert, List.keys_cons, List.mem_cons]
      tauto
  exact all newGroups.entries config.groups

theorem mem_left_groups {groupIds : List Int} {config : Config} {k : Int} :
    k ∈ (left groupIds config).groups ↔ k ∉ groupIds ∧ k ∈ config.groups := by
  have all : ∀ (ids : List Int) (m : AList fun _ : Int => List Str),
      k ∈ ids.foldl (fun groups id => groups.erase id) m ↔ k ∉ ids ∧ k ∈ m := by
    intro ids
    induction ids with
    | nil => simp
    | cons id ids ih =>
      intro m
      rw [List.foldl_cons, ih, AList.mem_erase, List.mem_cons]
      tauto
  exact all groupIds config.groups

theorem mem_left_shards {groupIds : List Int} {config : Config} {owner : Int}
    (member : owner ∈ (left groupIds config).shards) :
    owner = 0 ∨ (owner ∉ groupIds ∧ owner ∈ config.shards) := by
  obtain ⟨old, inside, rfl⟩ := List.mem_map.mp member
  by_cases gone : old ∈ groupIds
  · rw [if_pos gone]
    exact .inl rfl
  · rw [if_neg gone]
    exact .inr ⟨gone, inside⟩

theorem Assigned.prepared {config base : Config} (assigned : Assigned config)
    (prepared : Prepared operation config base) : Assigned base := by
  intro owner member
  rcases prepared with ⟨-, newGroups, -, rfl⟩ | ⟨-, groupIds, -, rfl⟩
  · exact (assigned owner member).imp_right fun inside => mem_joined.mpr (.inr inside)
  · rcases mem_left_shards member with zero | ⟨stays, inside⟩
    · exact .inl zero
    · exact (assigned owner inside).imp_right fun known => mem_left_groups.mpr ⟨stays, known⟩

theorem Assigned.rebalanced {config config' : Config} (assigned : Assigned config)
    (written : Rebalanced config config') : Assigned config' := by
  intro owner member
  right
  rw [written.groups]
  rcases written.owners owner member with inside | ⟨ne, inside⟩
  · exact inside
  · exact (assigned owner inside).resolve_left ne

/-! ### Any sequence of the clerk's commands -/

/-- `doJoinLeaveMove` on one command after the other. -/
def doAll (ties : Ties Int Nat) (fuel : Nat) : List Config → List Command → Option (List Config)
  | configs, [] => some configs
  | configs, command :: commands =>
    (doJoinLeaveMove ties fuel configs command.operation).bind fun configs =>
      doAll ties fuel configs commands

/-- What the code takes for granted of a command: the text of `Join` can be read, and
`Move` names a group of the latest configuration, or none. -/
def Known (config : Config) : Request → Prop
  | .join servers => getMap (serversShardInfo servers) ≠ none
  | .leave _ => True
  | .move _ gId => gId = 0 ∨ gId ∈ config.groups

theorem getVectorOfInt_groupIds (gIds : List Int) :
    getVectorOfInt (groupIdsInfo gIds) = some gIds := getVectorOfInt_decimal gIds

theorem getShardAndGroupId_text (shard gId : Int) :
    getShardAndGroupId (shardAndGroupIdInfo shard gId) = some [shard, gId] :=
  getVectorOfInt_decimal [shard, gId]

theorem getMap_serversShardInfo {servers : AList fun _ : Int => List Str}
    (clean : ∀ ser ∈ servers.entries, ∀ name ∈ ser.2, ':' ∉ name ∧ '|' ∉ name) :
    getMap (serversShardInfo servers) ≠ none := by
  have noColon : ∀ ser ∈ servers.entries, ∀ w ∈ decimal ser.1 :: ser.2, ':' ∉ w := by
    intro ser inside w member
    cases List.mem_cons.mp member with
    | inl number => exact number ▸ notMem_decimal _ (by decide) (by decide)
    | inr name => exact (clean ser inside w name).1
  have words : ∀ w ∈ servers.entries.map fun ser => ended ':' (decimal ser.1 :: ser.2),
      w ≠ [] ∧ '|' ∉ w := by
    intro w member
    obtain ⟨ser, inside, rfl⟩ := List.mem_map.mp member
    refine ⟨ended_ne_nil (List.cons_ne_nil _ _), notMem_ended (by decide) fun name named => ?_⟩
    cases List.mem_cons.mp named with
    | inl number => exact number ▸ notMem_decimal _ (by decide) (by decide)
    | inr named => exact (clean ser inside name named).2
  have left : ∀ s ∈ servers.entries.map fun ser => ended ':' (decimal ser.1 :: ser.2),
      rest ':' s = [] := by
    intro s member
    obtain ⟨ser, inside, rfl⟩ := List.mem_map.mp member
    exact rest_all_ended _ (noColon ser inside)
  have reads : ∀ ser ∈ servers.entries,
      groupOf (pieces ':' (ended ':' (decimal ser.1 :: ser.2))) =
        some (ser.1, pieces ':' (ended ':' ser.2)) := by
    intro ser inside
    rw [ended_cons, pieces_sep (decimal_ne_nil _) (noColon ser inside _ List.mem_cons_self), groupOf,
      stoi_decimal]
    rfl
  have read : ((servers.entries.map fun ser => ended ':' (decimal ser.1 :: ser.2)).map
      (pieces ':')).mapM groupOf =
        some (servers.entries.map fun ser => (ser.1, pieces ':' (ended ':' ser.2))) := by
    rw [List.map_map]
    exact mapM_map_some _ reads
  rw [getMap, serversShardInfo, pieces_all_ended _ words, serverNames_pieces _ left, read]
  exact Option.some_ne_none _

theorem doAll_mono {commands : List Command} (more : Nat)
    (done : doAll ties fuel configs commands = some configs') :
    doAll ties (fuel + more) configs commands = some configs' := by
  induction commands generalizing configs with
  | nil => exact done
  | cons command commands ih =>
    obtain ⟨mid, first, rest⟩ := Option.bind_eq_some_iff.mp done
    rw [doAll, doJoinLeaveMove_mono more first, Option.bind_some]
    exact ih rest

theorem doAll_append {before after : List Command} :
    doAll ties fuel configs (before ++ after) =
      (doAll ties fuel configs before).bind fun configs => doAll ties fuel configs after := by
  induction before generalizing configs with
  | nil => rfl
  | cons command before ih =>
    rw [List.cons_append, doAll, doAll]
    cases doJoinLeaveMove ties fuel configs command.operation with
    | none => rfl
    | some next =>
      rw [Option.bind_some, Option.bind_some]
      exact ih

theorem doAll_extends {commands : List Command}
    (done : doAll ties fuel configs commands = some configs') : configs <+: configs' := by
  induction commands generalizing configs with
  | nil =>
    cases done
    exact List.prefix_rfl
  | cons command commands ih =>
    obtain ⟨mid, first, rest⟩ := Option.bind_eq_some_iff.mp done
    exact (doJoinLeaveMove_extends first).trans (ih rest)

theorem doAll_history {commands : List Command} (history : History configs)
    (done : doAll ties fuel configs commands = some configs') : History configs' := by
  induction commands generalizing configs with
  | nil =>
    cases done
    exact history
  | cons command commands ih =>
    obtain ⟨mid, first, rest⟩ := Option.bind_eq_some_iff.mp done
    exact ih (history.step first) rest

theorem storeBalanced_ends_iff (ties : Ties Int Nat) (configs : List Config) {base : Config}
    (sized : base.shards.length = NShards) :
    (∃ fuel configs', storeBalanced ties fuel configs base = some configs') ↔
      base.groups.entries = [] ∨ Balances base := by
  by_cases nil : base.groups.entries = []
  · exact ⟨fun _ => .inl nil, fun _ => ⟨0, configs, if_pos nil⟩⟩
  · rw [or_iff_right nil, ← balances_iff ties sized nil]
    constructor
    · rintro ⟨fuel, configs', stored⟩
      rw [storeBalanced, if_neg nil] at stored
      obtain ⟨next, balanced, -⟩ := Option.map_eq_some_iff.mp stored
      exact ⟨fuel, next, balanced⟩
    · rintro ⟨fuel, next, balanced⟩
      exact ⟨fuel, configs ++ [next], by rw [storeBalanced, if_neg nil, balanced]; rfl⟩

theorem doJoinLeaveMove_known (ties : Ties Int Nat) {command : Command} {config : Config}
    (history : History configs)
    (valid : ∀ config ∈ configs, Assigned config) (last : configs.getLast? = some config)
    (known : Known config command.request) :
    ∃ fuel configs', doJoinLeaveMove ties fuel configs command.operation = some configs' ∧
      ∀ config ∈ configs', Assigned config := by
  have member := List.mem_of_getLast? last
  have sized := history.sized config member
  have assigned := valid config member
  have ends : ∃ fuel configs',
      doJoinLeaveMove ties fuel configs command.operation = some configs' := by
    obtain ⟨request, clientId, requestId, term⟩ := command
    cases request with
    | join servers =>
      obtain ⟨newGroups, read⟩ := Option.ne_none_iff_exists'.mp known
      have prepared : Prepared (Command.operation ⟨.join servers, clientId, requestId, term⟩) config
          (joined newGroups config) := .inl ⟨rfl, newGroups, read, rfl⟩
      obtain ⟨fuel, configs', stored⟩ := (storeBalanced_ends_iff ties configs
        ((prepared_num prepared).2.trans sized)).mpr (.inr (assigned.prepared prepared).balances)
      refine ⟨fuel, configs', ?_⟩
      simp only [doJoinLeaveMove, last, Option.bind_some, Command.operation, read, stored]
    | leave gIds =>
      have read := getVectorOfInt_groupIds gIds
      have prepared : Prepared (Command.operation ⟨.leave gIds, clientId, requestId, term⟩) config
          (left gIds config) := .inr ⟨rfl, gIds, read, rfl⟩
      obtain ⟨fuel, configs', stored⟩ := (storeBalanced_ends_iff ties configs
        ((prepared_num prepared).2.trans sized)).mpr (.inr (assigned.prepared prepared).balances)
      refine ⟨fuel, configs', ?_⟩
      simp only [doJoinLeaveMove, last, Option.bind_some, Command.operation, read, stored]
    | move shard gId =>
      have inside : 0 ≤ (shard.val : Int) ∧ (shard.val : Int).toNat < config.shards.length := by
        have bound := shard.isLt
        rw [sized]
        omega
      refine ⟨0, configs ++ [⟨config.configNum + 1, config.shards.set (shard.val : Int).toNat gId,
        config.groups⟩], ?_⟩
      simp only [doJoinLeaveMove, last, Option.bind_some, Command.operation,
        getShardAndGroupId_text, moved, if_pos inside, Option.map_some]
  obtain ⟨fuel, configs', done⟩ := ends
  refine ⟨fuel, configs', done, ?_⟩
  rcases doJoinLeaveMove_cases done with rfl | ⟨old, next, last', rfl, kind⟩
  · exact valid
  · rw [last, Option.some.injEq] at last'
    subst last'
    have next_ : Assigned next := by
      rcases kind with ⟨op, shard, gId, more, read, move⟩ | ⟨base, prepared, some_, balanced⟩
      · obtain ⟨request, clientId, requestId, term⟩ := command
        cases request with
        | join => cases op
        | leave => cases op
        | move s g =>
          rw [Command.operation, getShardAndGroupId_text] at read
          cases read
          obtain ⟨-, rfl⟩ := moved_eq move
          intro owner member
          rcases List.mem_or_eq_of_mem_set member with old | rfl
          · exact assigned owner old
          · exact known
      · exact (assigned.prepared prepared).rebalanced (rebalanced some_ balanced)
    intro config member
    rcases List.mem_append.mp member with old | new
    · exact valid config old
    · rw [List.mem_singleton.mp new]
      exact next_

theorem known_of_valid {command : Command} {config : Config} (history : History configs)
    (last : configs.getLast? = some config)
    (done : doJoinLeaveMove ties fuel configs command.operation = some configs')
    (valid : ∀ config ∈ configs', Assigned config) : Known config command.request := by
  obtain ⟨request, clientId, requestId, term⟩ := command
  cases request with
  | join servers =>
    intro unread
    simp [doJoinLeaveMove, last, Command.operation, unread] at done
  | leave gIds => trivial
  | move shard gId =>
    have sized := history.sized config (List.mem_of_getLast? last)
    have inside : shard.val < config.shards.length := by
      rw [sized]
      exact shard.isLt
    have bounds : 0 ≤ (shard.val : Int) ∧ (shard.val : Int).toNat < config.shards.length := by
      omega
    simp only [doJoinLeaveMove, last, Option.bind_some, Command.operation,
      getShardAndGroupId_text, moved, if_pos bounds, Option.map_some, Option.some.injEq] at done
    have stored : (⟨config.configNum + 1, config.shards.set (shard.val : Int).toNat gId,
        config.groups⟩ : Config) ∈ configs' := by
      rw [← done]
      exact List.mem_append_right _ (List.mem_singleton_self _)
    exact valid _ stored gId (List.mem_set bounds.2 _)

private def joinOne : Command := ⟨.join (AList.singleton 1 [['a']]), 0, 0, 1⟩

private def joinTwo : Command := ⟨.join (AList.singleton 2 [['b']]), 0, 2, 1⟩

private def moveAway : Command := ⟨.move ⟨0, by decide⟩ 7, 0, 1, 1⟩

def firstTie : Ties Int Nat := ⟨fun _ => 0, fun _ => 0⟩

private def movedAway : Config := ⟨2, 7 :: List.replicate 9 1, AList.singleton 1 [['a']]⟩

private theorem doAll_moveAway : doAll firstTie 9 [Config.empty] [joinOne, moveAway] =
    some [Config.empty, ⟨1, List.replicate 10 1, AList.singleton 1 [['a']]⟩, movedAway] := by
  rfl

end ProjectsCpp.Mastering
