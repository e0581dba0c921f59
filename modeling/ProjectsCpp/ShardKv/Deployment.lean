import ProjectsCpp.ShardKv.Server
import ProjectsCpp.Lib.Run
import Mathlib.Logic.Function.Basic

/-! Replica groups, the loops and handlers of their leaders, and Clerks (`shardKv/server.cpp`,
`shardKv/client.cpp`). Each group is one state machine with a log that only grows; a loop
or a handler is cut where it gives up `m_lock`, and what it still has to do is kept in the
state. Requests to a group that is not the leader, and commands that are never committed,
are calls that end without an answer. The handler of GC waits like that of a Clerk's request;
its context is left out, since nothing reads it. -/

namespace ProjectsCpp.Sharding
open ProjectsCpp.Text ProjectsCpp.Run

/-- The configurations of the shard master, as `Query` hands them out. -/
structure Configs where
  query : Int → Config
  first : query 0 = .empty
  numbered : ∀ n, 0 ≤ n → (query n).configNum = n
  sized : ∀ n, (query n).shards.length = NShards

structure Group where
  kv : ShardKv
  log : List Operation
  applied : Nat

namespace Group

def boot (gid : Int) : Group := ⟨.start gid, [], 0⟩

def propose (g : Group) (operation : Operation) : Group := { g with log := g.log ++ [operation] }

def nextIndex (g : Group) : Int := g.log.length + 1

def apply (g : Group) : Option (Operation × Group) :=
  g.log[g.applied]?.bind fun operation =>
    (g.kv.applyLoop operation (g.applied + 1)).map fun s =>
      (operation, { g with kv := s, applied := g.applied + 1 })

end Group

/-- A `get`, `put` or `append` of a Clerk; the value of a get is never read. -/
structure Request where
  op : OpName
  key : Str
  value : Str
  data : op = .get ∨ op = .put ∨ op = .append

/-- How far the call of the open request has come: `isMatchShard` has let it through, it has
an index, or its context is in `m_requestMap`. -/
inductive Call where
  | idle
  | matched (gid : Int)
  | started (gid index term : Int)
  | waiting (gid index : Int)

/-- `requests` are all requests so far; the position of a request is its `requestId`. -/
structure Clerk where
  requests : List Request
  unanswered : Bool
  call : Call

namespace Clerk

def new : Clerk := ⟨[], false, .idle⟩

def requestId (clerk : Clerk) : Int := clerk.requests.length - 1

def operation (clerk : Clerk) (client term : Int) : Option Operation :=
  clerk.requests.getLast?.map fun r => ⟨r.op, r.key, r.value, client, clerk.requestId, term⟩

theorem operation_eq {clerk : Clerk} {client term : Int} {operation : Operation}
    (last : clerk.operation client term = some operation) :
    ∃ r, clerk.requests.getLast? = some r ∧
      operation = ⟨r.op, r.key, r.value, client, clerk.requestId, term⟩ := by
  obtain ⟨r, found, same⟩ := Option.map_eq_some_iff.mp last
  exact ⟨r, found, same.symm⟩

theorem operation_data {clerk : Clerk} {client term : Int} {operation : Operation}
    (last : clerk.operation client term = some operation) :
    operation.op = .get ∨ operation.op = .put ∨ operation.op = .append := by
  obtain ⟨r, -, rfl⟩ := operation_eq last
  exact r.data

end Clerk

/-- A `doPullShard` thread of group `dst`, and the answer to its last call. -/
structure Pull where
  dst : Int
  shard : Int
  configNum : Int
  reply : Option Str

/-- A write of a Clerk that has changed `m_database` of a group. -/
structure Execution where
  clientId : Int
  requestId : Int
  gid : Int
  configNum : Int

/-- `executed` and `acked` are history: the writes carried out, and the requests of
`Clerk::putAppend` that were answered OK. -/
structure Deployment where
  group : Int → Group
  clerk : Int → Clerk
  /-- turns of `updateConfigLoop` after their test: the group and `nextCfgNum` -/
  updates : List (Int × Int)
  pulls : List Pull
  /-- `doGarbage` calls: the group they go to, the configuration and the shard -/
  collects : List (Int × Int × Int)
  executed : List Execution
  acked : List (Int × Int)

inductive Step where
  | apply (gid : Int)
  | readConfig (gid : Int)
  | updateConfig (k : Nat) (term : Int)
  | pullShard (gid shard : Int)
  | shardMigration (k : Nat)
  | updateDataBase (k : Nat) (term : Int)
  | doGarbage (gid configNum shard : Int)
  | garbagesCollect (k rand : Nat) (term : Int)
  | garbageFinished (gid configNum shard : Int)
  | request (client : Int) (r : Request)
  | call (client gid : Int)
  | start (client term : Int)
  | await (client : Int)
  | answer (client : Int)
  | giveUp (client : Int)

namespace Deployment

def boot : Deployment := ⟨Group.boot, fun _ => .new, [], [], [], [], []⟩

def setGroup (s : Deployment) (gid : Int) (g : Group) : Deployment :=
  { s with group := Function.update s.group gid g }

def setKv (s : Deployment) (gid : Int) (kv : ShardKv) : Deployment :=
  s.setGroup gid { s.group gid with kv := kv }

def propose (s : Deployment) (gid : Int) (operation : Operation) : Deployment :=
  s.setGroup gid ((s.group gid).propose operation)

def setCall (s : Deployment) (client : Int) (call : Call) : Deployment :=
  { s with clerk := Function.update s.clerk client { s.clerk client with call := call } }

def execution (gid : Int) (kv : ShardKv) (operation : Operation) : List Execution :=
  if kv.executes operation then
    [⟨operation.clientId, operation.requestId, gid, kv.config.configNum⟩]
  else []

def source (C : Configs) (configNum shard : Int) : Option Int :=
  ((C.query configNum).owner shard).filter fun gid =>
    ((C.query configNum).groups.lookup gid).any fun servers => decide (servers ≠ [])

def dropContext (kv : ShardKv) (index : Int) : ShardKv :=
  { kv with requestMap := kv.requestMap.erase index }

def accepted (c : OpContext) : Bool := !c.isWrongLeader && !c.isWrongGroup

def complete (s : Deployment) (client : Int) (r : Request) : Deployment :=
  { s with
    clerk := Function.update s.clerk client
      { s.clerk client with unanswered := false, call := .idle }
    acked := if r.op = .get then s.acked else (client, (s.clerk client).requestId) :: s.acked }

def step (C : Configs) (s : Deployment) : Step → Option Deployment
  | .apply gid => (s.group gid).apply.map fun r =>
      { s.setGroup gid r.2 with executed := execution gid (s.group gid).kv r.1 ++ s.executed }
  | .readConfig gid =>
    if (s.group gid).kv.comeInShards.keys = [] then
      some { s with updates := (gid, (s.group gid).kv.config.configNum + 1) :: s.updates }
    else none
  | .updateConfig k term => s.updates[k]?.map fun u =>
      { s.propose u.1 ⟨.UC, [], getStringFromConfig (C.query u.2), 0, 0, term⟩ with
        updates := s.updates.eraseIdx k }
  | .pullShard gid shard => ((s.group gid).kv.comeInShards.lookup shard).map fun cfgNum =>
      { s with pulls := ⟨gid, shard, cfgNum, none⟩ :: s.pulls }
  | .shardMigration k => s.pulls[k]?.bind fun p => (source C p.configNum p.shard).map fun gid =>
      let r := (s.group gid).kv.shardMigration p.shard p.configNum
      { s.setKv gid r.1 with pulls := s.pulls.set k { p with reply := some r.2 } }
  | .updateDataBase k term => s.pulls[k]?.bind fun p => p.reply.bind fun text =>
      (str2MigrateReply text).map fun reply =>
        if reply.err = OK then
          { s.propose p.dst ⟨.UD, [], migrateReply2Str reply, 0, 0, term⟩ with
            pulls := s.pulls.eraseIdx k }
        else { s with pulls := s.pulls.set k { p with reply := none } }
  | .doGarbage gid configNum shard =>
    if shard ∈ ((s.group gid).kv.garbages.lookup configNum).getD [] then
      (source C configNum shard).map fun src =>
        { s with collects := (src, configNum, shard) :: s.collects }
    else none
  | .garbagesCollect k rand term => s.collects[k]?.bind fun (gid, configNum, shard) =>
      if (s.group gid).kv.hasToOut configNum shard then
        some (s.propose gid ⟨.GC, decimal configNum, [], rand % 10000 + 10000, shard, term⟩)
      else none
  | .garbageFinished gid configNum shard =>
    some (s.setKv gid ((s.group gid).kv.dropGarbage configNum shard))
  | .request client r =>
    if (s.clerk client).unanswered then none
    else
      let clerk : Clerk := ⟨(s.clerk client).requests ++ [r], true, .idle⟩
      some { s with clerk := Function.update s.clerk client clerk }
  | .call client gid =>
    if (s.clerk client).unanswered then
      match (s.clerk client).call with
      | .idle => (s.clerk client).requests.getLast?.bind fun r =>
          ((s.group gid).kv.isMatchShard r.key).bind fun isMatch =>
            if isMatch then some (s.setCall client (.matched gid)) else some s
      | _ => none
    else none
  | .start client term =>
    match (s.clerk client).call with
    | .matched gid => ((s.clerk client).operation client term).map fun operation =>
        (s.propose gid operation).setCall client (.started gid (s.group gid).nextIndex term)
    | _ => none
  | .await client =>
    match (s.clerk client).call with
    | .started gid index term =>
      some ((s.setKv gid { (s.group gid).kv with
        requestMap := (s.group gid).kv.requestMap.insert index (.ofTerm term) }).setCall client
          (.waiting gid index))
    | _ => none
  | .answer client =>
    match (s.clerk client).call with
    | .waiting gid index =>
      ((s.group gid).kv.requestMap.lookup index).bind fun c =>
        if c.isRecved then
          (s.clerk client).requests.getLast?.map fun r =>
            let t := s.setKv gid (dropContext (s.group gid).kv index)
            if accepted c then t.complete client r else t.setCall client .idle
        else none
    | _ => none
  | .giveUp client =>
    match (s.clerk client).call with
    | .matched _ => some (s.setCall client .idle)
    | .waiting gid index =>
      some ((s.setKv gid (dropContext (s.group gid).kv index)).setCall client .idle)
    | _ => none

/-! ### What a step does to the groups -/

structure SameShards (kv t : ShardKv) : Prop where
  groupId : t.groupId = kv.groupId
  config : t.config = kv.config
  availableShards : t.availableShards = kv.availableShards
  comeInShards : t.comeInShards = kv.comeInShards
  clientSeqMap : t.clientSeqMap = kv.clientSeqMap

theorem SameShards.refl (kv : ShardKv) : SameShards kv kv := ⟨rfl, rfl, rfl, rfl, rfl⟩

/-- What may be started at group `gid`. -/
inductive Proposed (C : Configs) (s : Deployment) (gid : Int) : Operation → Prop
  | config {num term : Int} (pending : (gid, num) ∈ s.updates) :
      Proposed C s gid ⟨.UC, [], getStringFromConfig (C.query num), 0, 0, term⟩
  | shard {p : Pull} {text : Str} {reply : MigrateReply} {term : Int} (pending : p ∈ s.pulls)
      (dst : p.dst = gid) (answered : p.reply = some text)
      (read : str2MigrateReply text = some reply) (ok : reply.err = OK) :
      Proposed C s gid ⟨.UD, [], migrateReply2Str reply, 0, 0, term⟩
  | garbage {operation : Operation} (op : operation.op = .GC) : Proposed C s gid operation
  | command {client term : Int} {operation : Operation}
      (call : (s.clerk client).call = .matched gid)
      (last : (s.clerk client).operation client term = some operation) :
      Proposed C s gid operation

inductive Pulled (C : Configs) (s : Deployment) : Pull → Prop
  | old {p : Pull} (before : p ∈ s.pulls) : Pulled C s p
  | asked {gid shard cfgNum : Int} (awaited : (s.group gid).kv.comeInShards.lookup shard = some cfgNum) :
      Pulled C s ⟨gid, shard, cfgNum, none⟩
  | again {p : Pull} (before : p ∈ s.pulls) : Pulled C s { p with reply := none }
  | answered {p : Pull} {gid : Int} (before : p ∈ s.pulls)
      (owner : (C.query p.configNum).owner p.shard = some gid) :
      Pulled C s { p with
        reply := some ((s.group gid).kv.shardMigration p.shard p.configNum).2 }

inductive Moved (s t : Deployment) (client : Int) : Prop
  | same (clerk : t.clerk client = s.clerk client)
  | request (r : Request)
      (clerk : t.clerk client = ⟨(s.clerk client).requests ++ [r], true, .idle⟩)
  | idle (requests : (t.clerk client).requests = (s.clerk client).requests)
      (call : (t.clerk client).call = .idle)
  | matched (gid : Int) (requests : (t.clerk client).requests = (s.clerk client).requests)
      (call : (t.clerk client).call = .matched gid)
  | started (gid term : Int) (operation : Operation)
      (last : (s.clerk client).operation client term = some operation)
      (log : (t.group gid).log = (s.group gid).log ++ [operation])
      (requests : (t.clerk client).requests = (s.clerk client).requests)
      (call : (t.clerk client).call = .started gid (s.group gid).nextIndex term)
  | waiting (gid index term : Int) (before : (s.clerk client).call = .started gid index term)
      (requests : (t.clerk client).requests = (s.clerk client).requests)
      (call : (t.clerk client).call = .waiting gid index)

def Woken (s : Deployment) (ack : Int × Int) : Prop :=
  ∃ gid index c r, (s.clerk ack.1).call = .waiting gid index ∧
    (s.group gid).kv.requestMap.lookup index = some c ∧ c.isRecved ∧
    (s.clerk ack.1).requests.getLast? = some r ∧ r.op ≠ .get ∧
    ack.2 = (s.clerk ack.1).requestId

/-- A step other than `applyLoop`. -/
structure Quiet (C : Configs) (s t : Deployment) : Prop where
  shards : ∀ g, SameShards (s.group g).kv (t.group g).kv
  applied : ∀ g, (t.group g).applied = (s.group g).applied
  log : ∀ g, (t.group g).log = (s.group g).log ∨
    ∃ operation, Proposed C s g operation ∧ (t.group g).log = (s.group g).log ++ [operation]
  contexts : ∀ g i c, (t.group g).kv.requestMap.lookup i = some c → c.isRecved →
    (s.group g).kv.requestMap.lookup i = some c
  updates : ∀ u ∈ t.updates, u ∈ s.updates ∨
    ((s.group u.1).kv.comeInShards.keys = [] ∧ u.2 = (s.group u.1).kv.config.configNum + 1)
  pulls : ∀ p ∈ t.pulls, Pulled C s p
  clerks : ∀ client, Moved s t client
  executed : t.executed = s.executed
  acked : ∀ ack ∈ t.acked, ack ∈ s.acked ∨ s.Woken ack

variable {C : Configs} {s t u : Deployment} {gid : Int}

structure SameGroups (C : Configs) (s t : Deployment) : Prop where
  shards : ∀ g, SameShards (s.group g).kv (t.group g).kv
  applied : ∀ g, (t.group g).applied = (s.group g).applied
  log : ∀ g, (t.group g).log = (s.group g).log ∨
    ∃ operation, Proposed C s g operation ∧ (t.group g).log = (s.group g).log ++ [operation]
  contexts : ∀ g i c, (t.group g).kv.requestMap.lookup i = some c → c.isRecved →
    (s.group g).kv.requestMap.lookup i = some c

theorem SameGroups.of_eq (same : t.group = s.group) : SameGroups C s t := by
  refine ⟨fun g => ?_, fun g => ?_, fun g => .inl ?_, fun g i c found _ => ?_⟩
  · rw [same]
    exact .refl _
  · rw [same]
  · rw [same]
  · rwa [same] at found

theorem SameGroups.setKv {kv : ShardKv} (same : SameShards (s.group gid).kv kv)
    (contexts : ∀ i c, kv.requestMap.lookup i = some c → c.isRecved →
      (s.group gid).kv.requestMap.lookup i = some c) : SameGroups C s (s.setKv gid kv) := by
  have self : (s.setKv gid kv).group gid = { s.group gid with kv := kv } :=
    Function.update_self _ _ _
  have other : ∀ g, g ≠ gid → (s.setKv gid kv).group g = s.group g :=
    fun g apart => Function.update_of_ne apart _ _
  refine ⟨fun g => ?_, fun g => ?_, fun g => .inl ?_, fun g => ?_⟩ <;> by_cases here : g = gid
  · rw [here, self]
    exact same
  · rw [other g here]
    exact .refl _
  · rw [here, self]
  · rw [other g here]
  · rw [here, self]
  · rw [other g here]
  · rw [here, self]
    exact contexts
  · rw [other g here]
    exact fun i c found _ => found

theorem SameGroups.propose {operation : Operation} (proposed : Proposed C s gid operation) :
    SameGroups C s (s.propose gid operation) := by
  have self : (s.propose gid operation).group gid = (s.group gid).propose operation :=
    Function.update_self _ _ _
  have other : ∀ g, g ≠ gid → (s.propose gid operation).group g = s.group g :=
    fun g apart => Function.update_of_ne apart _ _
  refine ⟨fun g => ?_, fun g => ?_, fun g => ?_, fun g => ?_⟩ <;> by_cases here : g = gid
  · rw [here, self]
    exact .refl _
  · rw [other g here]
    exact .refl _
  · rw [here, self]
    rfl
  · rw [other g here]
  · subst here
    exact .inr ⟨operation, proposed, by rw [self]; rfl⟩
  · exact .inl (by rw [other g here])
  · rw [here, self]
    exact fun i c found _ => found
  · rw [other g here]
    exact fun i c found _ => found

theorem SameGroups.quiet (groups : SameGroups C s t) (updates : t.updates = s.updates)
    (pulls : t.pulls = s.pulls) (clerk : t.clerk = s.clerk) (executed : t.executed = s.executed)
    (acked : t.acked = s.acked) : Quiet C s t :=
  { groups with
    updates := fun _ pending => .inl (updates ▸ pending)
    pulls := fun _ pending => .old (pulls ▸ pending)
    clerks := fun client => .same (by rw [clerk])
    executed := executed
    acked := fun _ given => .inl (acked ▸ given) }

theorem SameGroups.clerk {client : Int} {clerk : Clerk} (groups : SameGroups C s t)
    (updates : t.updates = s.updates) (pulls : t.pulls = s.pulls)
    (clerks : t.clerk = Function.update s.clerk client clerk) (moved : Moved s t client)
    (executed : t.executed = s.executed) (acked : ∀ ack ∈ t.acked, ack ∈ s.acked ∨ s.Woken ack) :
    Quiet C s t :=
  { groups with
    updates := fun _ pending => .inl (updates ▸ pending)
    pulls := fun _ pending => .old (pulls ▸ pending)
    clerks := fun c => by
      by_cases same : c = client
      · exact same ▸ moved
      · exact .same (by rw [clerks, Function.update_of_ne same])
    executed := executed
    acked := acked }

theorem SameGroups.setCall (groups : SameGroups C s t) (client : Int) (call : Call) :
    SameGroups C s (t.setCall client call) :=
  ⟨groups.shards, groups.applied, groups.log, groups.contexts⟩

theorem SameGroups.dropContext (index : Int) :
    SameGroups C s (s.setKv gid (dropContext (s.group gid).kv index)) := by
  refine .setKv ⟨rfl, rfl, rfl, rfl, rfl⟩ fun i c found _ => ?_
  by_cases same : i = index
  · rw [same, Deployment.dropContext, AList.lookup_erase] at found
    cases found
  · rwa [Deployment.dropContext, AList.lookup_erase_ne same] at found

theorem shardMigration_shards (kv : ShardKv) (shard configNum : Int) :
    SameShards kv (kv.shardMigration shard configNum).1 ∧
      (kv.shardMigration shard configNum).1.requestMap = kv.requestMap := by
  rw [ShardKv.shardMigration, ShardKv.touchToOut]
  split
  · exact ⟨.refl kv, rfl⟩
  · split <;> exact ⟨⟨rfl, rfl, rfl, rfl, rfl⟩, rfl⟩

structure Applied (s : Deployment) (gid : Int) (operation : Operation) (kv : ShardKv) (t : Deployment) :
    Prop where
  next : (s.group gid).log[(s.group gid).applied]? = some operation
  run : (s.group gid).kv.applyLoop operation ((s.group gid).applied + 1) = some kv
  state : t = { s.setGroup gid ⟨kv, (s.group gid).log, (s.group gid).applied + 1⟩ with
    executed := execution gid (s.group gid).kv operation ++ s.executed }

theorem Applied.self {operation : Operation} {kv : ShardKv} (ran : Applied s gid operation kv t) :
    t.group gid = ⟨kv, (s.group gid).log, (s.group gid).applied + 1⟩ := by
  rw [ran.state]
  exact Function.update_self _ _ _

theorem Applied.other {operation : Operation} {kv : ShardKv} (ran : Applied s gid operation kv t)
    {g : Int} (apart : g ≠ gid) : t.group g = s.group g := by
  rw [ran.state]
  exact Function.update_of_ne apart _ _

theorem Applied.applied {operation : Operation} {kv : ShardKv} (ran : Applied s gid operation kv t) :
    (t.group gid).applied = (s.group gid).applied + 1 := by rw [ran.self]

theorem Applied.log {operation : Operation} {kv : ShardKv} (ran : Applied s gid operation kv t)
    (g : Int) : (t.group g).log = (s.group g).log := by
  by_cases same : g = gid
  · rw [same, ran.self]
  · rw [ran.other same]

theorem applied_of_step (step : s.step C (.apply gid) = some t) :
    ∃ operation kv, Applied s gid operation kv t := by
  obtain ⟨⟨operation, g⟩, ran, rfl⟩ := Option.map_eq_some_iff.mp step
  obtain ⟨operation', next, ran⟩ := Option.bind_eq_some_iff.mp ran
  obtain ⟨kv, run, same⟩ := Option.map_eq_some_iff.mp ran
  cases same
  exact ⟨operation, kv, next, run, rfl⟩

theorem step_cases {a : Step} (step : s.step C a = some t) :
    (∃ gid operation kv, a = .apply gid ∧ Applied s gid operation kv t) ∨ Quiet C s t := by
  cases a with
  | apply gid =>
    obtain ⟨operation, kv, applied⟩ := applied_of_step step
    exact .inl ⟨gid, operation, kv, rfl, applied⟩
  | readConfig gid =>
    simp only [Deployment.step] at step
    split at step <;> cases step
    rename_i arrived
    have quiet : Quiet C s s := SameGroups.quiet (.of_eq rfl) rfl rfl rfl rfl rfl
    refine .inr { quiet with updates := fun u pending => ?_, clerks := fun c => .same rfl }
    cases List.mem_cons.mp pending with
    | inl new =>
      cases new
      exact .inr ⟨arrived, rfl⟩
    | inr before => exact .inl before
  | updateConfig k term =>
    obtain ⟨⟨g, num⟩, pending, rfl⟩ := Option.map_eq_some_iff.mp step
    have proposed : Proposed C s g ⟨.UC, [], getStringFromConfig (C.query num), 0, 0, term⟩ :=
      .config (List.mem_of_getElem? pending)
    have quiet := (SameGroups.propose proposed).quiet rfl rfl rfl rfl rfl
    exact .inr { quiet with
      updates := fun u left => .inl (List.mem_of_mem_eraseIdx left), clerks := fun c => .same rfl }
  | pullShard gid shard =>
    obtain ⟨cfgNum, awaited, rfl⟩ := Option.map_eq_some_iff.mp step
    have quiet : Quiet C s s := SameGroups.quiet (.of_eq rfl) rfl rfl rfl rfl rfl
    refine .inr { quiet with pulls := fun p pending => ?_, clerks := fun c => .same rfl }
    cases List.mem_cons.mp pending with
    | inl new =>
      rw [new]
      exact .asked awaited
    | inr before => exact .old before
  | shardMigration k =>
    obtain ⟨p, pending, asked⟩ := Option.bind_eq_some_iff.mp step
    obtain ⟨gid, src, rfl⟩ := Option.map_eq_some_iff.mp asked
    obtain ⟨same, contexts⟩ := shardMigration_shards (s.group gid).kv p.shard p.configNum
    have groups : SameGroups C s (s.setKv gid _) :=
      .setKv same fun i c found _ => contexts ▸ found
    have quiet := groups.quiet rfl rfl rfl rfl rfl
    refine .inr { quiet with pulls := fun q left => ?_, clerks := fun c => .same rfl }
    cases List.mem_or_eq_of_mem_set left with
    | inl before => exact .old before
    | inr new =>
      rw [new]
      exact .answered (List.mem_of_getElem? pending) (Option.filter_eq_some_iff.mp src).1
  | updateDataBase k term =>
    obtain ⟨p, pending, read⟩ := Option.bind_eq_some_iff.mp step
    obtain ⟨text, answered, read⟩ := Option.bind_eq_some_iff.mp read
    obtain ⟨reply, decoded, done⟩ := Option.map_eq_some_iff.mp read
    split at done
    · rename_i ok
      cases done
      have proposed : Proposed C s p.dst ⟨.UD, [], migrateReply2Str reply, 0, 0, term⟩ :=
        .shard (List.mem_of_getElem? pending) rfl answered decoded ok
      have quiet := (SameGroups.propose proposed).quiet rfl rfl rfl rfl rfl
      exact .inr { quiet with
        pulls := fun q left => .old (List.mem_of_mem_eraseIdx left), clerks := fun c => .same rfl }
    · cases done
      have quiet : Quiet C s s := SameGroups.quiet (.of_eq rfl) rfl rfl rfl rfl rfl
      refine .inr { quiet with pulls := fun q left => ?_, clerks := fun c => .same rfl }
      cases List.mem_or_eq_of_mem_set left with
      | inl before => exact .old before
      | inr new =>
        rw [new]
        exact .again (List.mem_of_getElem? pending)
  | doGarbage gid configNum shard =>
    simp only [Deployment.step] at step
    split at step
    · obtain ⟨src, -, rfl⟩ := Option.map_eq_some_iff.mp step
      exact .inr (SameGroups.quiet (.of_eq rfl) rfl rfl rfl rfl rfl)
    · cases step
  | garbagesCollect k rand term =>
    obtain ⟨⟨gid, configNum, shard⟩, pending, asked⟩ := Option.bind_eq_some_iff.mp step
    simp only at asked
    split at asked <;> cases asked
    exact .inr (SameGroups.quiet (.propose (.garbage rfl)) rfl rfl rfl rfl rfl)
  | garbageFinished gid configNum shard =>
    cases step
    have groups : SameGroups C s (s.setKv gid ((s.group gid).kv.dropGarbage configNum shard)) :=
      .setKv ⟨rfl, rfl, rfl, rfl, rfl⟩ fun i c found _ => found
    exact .inr (groups.quiet rfl rfl rfl rfl rfl)
  | request client r =>
    simp only [Deployment.step] at step
    split at step <;> cases step
    exact .inr (SameGroups.clerk (.of_eq rfl) rfl rfl rfl (.request r (Function.update_self _ _ _))
      rfl fun ack given => .inl given)
  | call client gid =>
    simp only [Deployment.step] at step
    split at step
    · split at step
      · obtain ⟨r, -, matched⟩ := Option.bind_eq_some_iff.mp step
        obtain ⟨isMatch, -, done⟩ := Option.bind_eq_some_iff.mp matched
        split at done <;> cases done
        · refine .inr (SameGroups.clerk (.of_eq rfl) rfl rfl rfl (.matched gid ?_ ?_) rfl
            fun ack given => .inl given) <;> simp only [Deployment.setCall, Function.update_self]
        · exact .inr (SameGroups.quiet (.of_eq rfl) rfl rfl rfl rfl rfl)
      · cases step
    · cases step
  | start client term =>
    simp only [Deployment.step] at step
    split at step
    · rename_i gid call
      obtain ⟨operation, last, rfl⟩ := Option.map_eq_some_iff.mp step
      have groups := (SameGroups.propose (Proposed.command (C := C) call last)).setCall client
        (.started gid (s.group gid).nextIndex term)
      refine .inr (groups.clerk rfl rfl rfl (.started gid term operation last ?_ ?_ ?_) rfl
        fun ack given => .inl given)
      · simp only [Deployment.setCall, Deployment.propose, setGroup, Function.update_self, Group.propose]
      · simp only [Deployment.setCall, Function.update_self]
        rfl
      · simp only [Deployment.setCall, Function.update_self]
    · cases step
  | await client =>
    simp only [Deployment.step] at step
    split at step <;> cases step
    rename_i gid index term before
    have groups : SameGroups C s (s.setKv gid { (s.group gid).kv with
        requestMap := (s.group gid).kv.requestMap.insert index (.ofTerm term) }) := by
      refine .setKv ⟨rfl, rfl, rfl, rfl, rfl⟩ fun i c found recved => ?_
      by_cases same : i = index
      · rw [same, AList.lookup_insert] at found
        cases found
        cases recved
      · rwa [AList.lookup_insert_ne same] at found
    refine .inr ((groups.setCall client (.waiting gid index)).clerk rfl rfl rfl
      (.waiting gid index term before ?_ ?_) rfl fun ack given => .inl given)
    · simp only [Deployment.setCall, Function.update_self]
      rfl
    · simp only [Deployment.setCall, Function.update_self]
  | answer client =>
    simp only [Deployment.step] at step
    split at step
    · rename_i gid index call
      obtain ⟨c, found, step⟩ := Option.bind_eq_some_iff.mp step
      split at step
      · rename_i recved
        obtain ⟨r, last, done⟩ := Option.map_eq_some_iff.mp step
        have groups : SameGroups C s (s.setKv gid (dropContext (s.group gid).kv index)) :=
          .dropContext index
        split at done <;> cases done
        · refine .inr (SameGroups.clerk ⟨groups.shards, groups.applied, groups.log, groups.contexts⟩
            rfl rfl rfl (.idle ?_ ?_) rfl fun ack given => ?_)
          · simp only [Deployment.complete, Function.update_self]
            rfl
          · simp only [Deployment.complete, Function.update_self]
          · simp only [Deployment.complete] at given
            split at given
            · exact .inl given
            · rename_i write
              cases List.mem_cons.mp given with
              | inl new =>
                cases new
                exact .inr ⟨gid, index, c, r, call, found, recved, last, write, rfl⟩
              | inr before => exact .inl before
        · refine .inr ((groups.setCall client .idle).clerk rfl rfl rfl (.idle ?_ ?_) rfl
            fun ack given => .inl given)
          · simp only [Deployment.setCall, Function.update_self]
            rfl
          · simp only [Deployment.setCall, Function.update_self]
      · cases step
    · cases step
  | giveUp client =>
    simp only [Deployment.step] at step
    split at step
    · cases step
      refine .inr (SameGroups.clerk (.of_eq rfl) rfl rfl rfl (.idle ?_ ?_) rfl
        fun ack given => .inl given) <;> simp only [Deployment.setCall, Function.update_self]
    · rename_i gid index call
      cases step
      have groups : SameGroups C s (s.setKv gid (dropContext (s.group gid).kv index)) :=
        .dropContext index
      refine .inr ((groups.setCall client .idle).clerk rfl rfl rfl (.idle ?_ ?_) rfl
        fun ack given => .inl given)
      · simp only [Deployment.setCall, Function.update_self]
        rfl
      · simp only [Deployment.setCall, Function.update_self]
    · cases step

def machine (C : Configs) : Machine Deployment Step where
  start s := s = boot
  step := step C

end Deployment

end ProjectsCpp.Sharding
