import ProjectsCpp.Lib.Balance
import ProjectsCpp.ShardKv.Wire

/-! The shard master as the state machine that its `applyLoop` drives
(`shardmaster/shardMaster.hpp`, `shardmaster/common.h`). A read past the end of a vector and
an exception give `none`, and so does a balancing loop that has used up its fuel. -/

namespace ProjectsCpp.Mastering
open ProjectsCpp.Text ProjectsCpp.Sharding ProjectsCpp.Balance

/-! ### What the clerk sends -/

def serversShardInfo (servers : AList fun _ : Int => List Str) : Str :=
  ended '|' (servers.entries.map fun ser => ended ':' (decimal ser.1 :: ser.2))

def groupIdsInfo (gIds : List Int) : Str := ended ':' (gIds.map decimal)

def shardAndGroupIdInfo (shard gId : Int) : Str := ended ':' [decimal shard, decimal gId]

def getShardAndGroupId (text : Str) : Option (List Int) := getVectorOfInt text

inductive OpName where
  | Join | Leave | Move | Query
deriving DecidableEq

def OpName.text : OpName → Str
  | .Join => ['J', 'o', 'i', 'n']
  | .Leave => ['L', 'e', 'a', 'v', 'e']
  | .Move => ['M', 'o', 'v', 'e']
  | .Query => ['Q', 'u', 'e', 'r', 'y']

def OpName.ofText (text : Str) : OpName :=
  if text = OpName.text .Join then .Join
  else if text = OpName.text .Leave then .Leave
  else if text = OpName.text .Move then .Move
  else .Query

@[simp] theorem OpName.ofText_text (op : OpName) : OpName.ofText op.text = op := by
  cases op <;> rfl

/-- `key` and `value` are the word `random` and are never read. -/
structure Operation where
  op : OpName
  args : Str
  clientId : Int
  requestId : Int
  term : Int

/-- What a clerk asks for; `Move` takes a shard there is. -/
inductive Request where
  | join (servers : AList fun _ : Int => List Str)
  | leave (gIds : List Int)
  | move (shard : Fin NShards) (gId : Int)

structure Command where
  request : Request
  clientId : Int
  requestId : Int
  term : Int

def Command.operation (command : Command) : Operation :=
  match command.request with
  | .join servers =>
    ⟨.Join, serversShardInfo servers, command.clientId, command.requestId, command.term⟩
  | .leave gIds => ⟨.Leave, groupIdsInfo gIds, command.clientId, command.requestId, command.term⟩
  | .move shard gId => ⟨.Move, shardAndGroupIdInfo (shard.val : Int) gId, command.clientId,
    command.requestId, command.term⟩

def random : Str := ['r', 'a', 'n', 'd', 'o', 'm']

def Operation.getCmd (operation : Operation) : Str :=
  operation.op.text ++ ' ' :: random ++ ' ' :: random ++ ' ' :: decimal operation.clientId ++
    ' ' :: decimal operation.requestId ++ ' ' :: operation.args

structure ApplyMsg where
  command : Str
  commandIndex : Int
  commandTerm : Int

def ApplyMsg.getOperation (msg : ApplyMsg) : Option Operation :=
  match fields ' ' msg.command with
  | op :: _ :: _ :: clientId :: requestId :: args :: _ =>
    some ⟨OpName.ofText op, args, atoi clientId, atoi requestId, msg.commandTerm⟩
  | _ => none

/-! ### Balancing -/

def workLoadOf (config : Config) : Bins Int Nat :=
  config.shards.zipIdx.foldl (fun load shard => if shard.1 ≠ 0 then pushBack shard.1 shard.2 load
    else load) (config.groups.entries.foldl (fun load group => load.insert group.1 []) ∅)

def assignFree (ties : Ties Int Nat) : List Nat → Bins Int Nat → List (Bin Int Nat) →
    Option (Bins Int Nat × List (Bin Int Nat))
  | [], workLoad, lowerLoadSize => some (workLoad, lowerLoadSize)
  | i :: free, workLoad, lowerLoadSize =>
    (lowest ties lowerLoadSize).bind fun load =>
      assignFree ties free (pushBack load.1 i workLoad)
        (⟨load.1, load.2 ++ [i]⟩ :: lowerLoadSize.erase load)

def freeShards (config : Config) : List Nat :=
  (config.shards.zipIdx.filter fun shard => shard.1 = 0).map Prod.snd

/-- The exit condition of the balancing loop. The sizes are unsigned, but the upper one is
never the smaller. -/
def balanced (config : Config) (lower upper : Nat) : Bool :=
  if NShards % config.groups.entries.length = 0 then lower = upper else ¬upper - lower > 1

def storeLoad (workLoad : List (Bin Int Nat)) (shards : List Int) : List Int :=
  workLoad.foldl (fun shards load => load.2.foldl (fun shards idx => shards.set idx load.1) shards)
    shards

def balanceWorkLoad (ties : Ties Int Nat) (fuel : Nat) (config : Config) : Option Config :=
  (assignFree ties (freeShards config) (workLoadOf config) (workLoadOf config).entries).bind fun r =>
    (level ties (balanced config) fuel r.1 r.2 r.1.entries).map fun workLoad =>
      { config with shards := storeLoad workLoad.entries config.shards }

/-! ### One command -/

def joined (newGroups : AList fun _ : Int => List Str) (config : Config) : Config :=
  { config with
    configNum := config.configNum + 1
    groups := newGroups.entries.foldl (fun groups group => groups.insert group.1 group.2)
      config.groups }

/-- The configuration that `Leave` builds before it is balanced. -/
def left (groupIds : List Int) (config : Config) : Config :=
  { configNum := config.configNum + 1
    shards := config.shards.map fun owner => if owner ∈ groupIds then 0 else owner
    groups := groupIds.foldl (fun groups id => groups.erase id) config.groups }

def storeBalanced (ties : Ties Int Nat) (fuel : Nat) (configs : List Config) (config : Config) :
    Option (List Config) :=
  if config.groups.entries = [] then some configs
  else (balanceWorkLoad ties fuel config).map fun config => configs ++ [config]

def moved (shard gId : Int) (config : Config) : Option Config :=
  if 0 ≤ shard ∧ shard.toNat < config.shards.length then
    some { config with
      configNum := config.configNum + 1
      shards := config.shards.set shard.toNat gId }
  else none

def doJoinLeaveMove (ties : Ties Int Nat) (fuel : Nat) (configs : List Config)
    (operation : Operation) : Option (List Config) :=
  configs.getLast?.bind fun config =>
    match operation.op with
    | .Join => (getMap operation.args).bind fun newGroups =>
      storeBalanced ties fuel configs (joined newGroups config)
    | .Leave => (getVectorOfInt operation.args).bind fun groupIds =>
      storeBalanced ties fuel configs (left groupIds config)
    | .Move => (getShardAndGroupId operation.args).bind fun moveInfo =>
      match moveInfo with
      | shard :: gId :: _ => (moved shard gId config).map fun config => configs ++ [config]
      | _ => none
    | .Query => some configs

/-! ### The loop over committed commands -/

/-- `config` is the answer to a query. -/
structure OpContext where
  op : Operation
  isWrongLeader : Bool
  config : Config

structure ShardMaster where
  configs : List Config
  clientSeqMap : AList fun _ : Int => Int
  requestMap : AList fun _ : Int => OpContext

def ShardMaster.start : ShardMaster := ⟨[.empty], ∅, ∅⟩

namespace ShardMaster

def markWrongLeader (index term : Int) (master : ShardMaster) : ShardMaster :=
  match master.requestMap.lookup index with
  | none => master
  | some opctx =>
    if opctx.op.term ≠ term then
      { master with
        requestMap := master.requestMap.insert index { opctx with isWrongLeader := true } }
    else master

def isFresh (master : ShardMaster) (operation : Operation) : Bool :=
  match master.clientSeqMap.lookup operation.clientId with
  | none => true
  | some prevRequestIdx => prevRequestIdx < operation.requestId

def record (operation : Operation) (master : ShardMaster) : ShardMaster :=
  { master with
    clientSeqMap := master.clientSeqMap.insert operation.clientId operation.requestId }

def queryConfig (master : ShardMaster) (queryNum : Int) : Option Config :=
  if queryNum < 0 ∨ (master.configs.length : Int) ≤ queryNum then master.configs.getLast?
  else master.configs[queryNum.toNat]?

def answerQuery (index : Int) (operation : Operation) (master : ShardMaster) : Option ShardMaster :=
  match master.requestMap.lookup index with
  | none => some master
  | some opctx => (stoi operation.args).bind fun queryNum =>
    (master.queryConfig queryNum).map fun config =>
      { master with requestMap := master.requestMap.insert index { opctx with config := config } }

def applyLoop (ties : Ties Int Nat) (fuel : Nat) (master : ShardMaster) (msg : ApplyMsg) :
    Option ShardMaster :=
  msg.getOperation.bind fun operation =>
    let marked := master.markWrongLeader msg.commandIndex operation.term
    if operation.op = .Query then
      (marked.record operation).answerQuery msg.commandIndex operation
    else if master.isFresh operation then
      (doJoinLeaveMove ties fuel master.configs operation).map fun configs =>
        { marked.record operation with configs := configs }
    else some (marked.record operation)

/-- A handler that got the leader's index puts its context into the map and takes it out when
it answers. -/
inductive Event where
  | apply (fuel : Nat) (msg : ApplyMsg)
  | open (index : Int) (operation : Operation)
  | close (index : Int)

def step (ties : Ties Int Nat) (master : ShardMaster) : Event → Option ShardMaster
  | .apply fuel msg => master.applyLoop ties fuel msg
  | .open index operation =>
    some { master with requestMap := master.requestMap.insert index ⟨operation, false, .empty⟩ }
  | .close index => some { master with requestMap := master.requestMap.erase index }

end ShardMaster
end ProjectsCpp.Mastering
