import ProjectsCpp.ShardKv.Ownership

/-! The request numbers of one Clerk. A group records the numbers of the commands it applies
and takes over those of the groups it gets shards from; the Clerk sends one request at a
time, so the numbers that reach a group, through its log or with a shard, never fall. -/

namespace ProjectsCpp.Sharding
open ProjectsCpp.Text ProjectsCpp.Run

namespace Deployment

def OfClerk (c : Int) (operation : Operation) : Prop :=
  operation.clientId = c ∧
    (operation.op = .get ∨ operation.op = .put ∨ operation.op = .append)

def requestOf (s : Deployment) (c v : Int) : Option Request :=
  if 0 ≤ v then (s.clerk c).requests[v.toNat]? else none

/-- The write with this number has changed some `m_database`. -/
def Done (s : Deployment) (c v : Int) : Prop := ∃ x ∈ s.executed, x.clientId = c ∧ x.requestId = v

def Settled (s : Deployment) (c v : Int) : Prop :=
  ∃ r, s.requestOf c v = some r ∧ (r.op ≠ .get → s.Done c v)

inductive Around (s : Deployment) (reply : MigrateReply) : Prop
  | logged {gid : Int} {operation : Operation} (member : operation ∈ (s.group gid).log)
      (op : operation.op = .UD) (read : str2MigrateReply operation.value = some reply) :
      Around s reply
  | sent {p : Pull} {text : Str} (pending : p ∈ s.pulls) (answered : p.reply = some text)
      (read : str2MigrateReply text = some reply) (ok : reply.err = OK) : Around s reply

/-- The command brings the number `v` of the Clerk into the record of the group. -/
def Carries (c : Int) (operation : Operation) (v : Int) : Prop :=
  (OfClerk c operation ∧ v = operation.requestId) ∨
    (operation.op = .UD ∧ ∃ reply, str2MigrateReply operation.value = some reply ∧
      reply.clientReqId.lookup c = some v)

def waiting (s : Deployment) (gid : Int) : List Operation :=
  (s.group gid).log.drop (s.group gid).applied

/-- The numbers of Clerk `c` in a system. -/
structure Numbers (c : Int) (s : Deployment) : Prop where
  bounded : ∀ gid, (s.group gid).applied ≤ (s.group gid).log.length
  issued : ∀ gid, ∀ operation ∈ (s.group gid).log, OfClerk c operation →
    ∃ r, s.requestOf c operation.requestId = some r ∧ operation.op = r.op ∧ operation.key = r.key
  recorded : ∀ gid v, (s.group gid).kv.clientSeqMap.lookup c = some v → s.Settled c v
  carried : ∀ reply, s.Around reply → ∀ v, reply.clientReqId.lookup c = some v → s.Settled c v
  order : ∀ gid, (s.waiting gid).Pairwise fun a b =>
    OfClerk c b → ∀ v, Carries c a v → v ≤ b.requestId
  ahead : ∀ gid, ∀ operation ∈ s.waiting gid, OfClerk c operation → ∀ v,
    (s.group gid).kv.clientSeqMap.lookup c = some v → v ≤ operation.requestId

variable {C : Configs} {s t : Deployment} {c v : Int} {a : Step}

/-! ### What only grows -/

structure Grows (s t : Deployment) : Prop where
  requests : ∀ client, ∃ more, (t.clerk client).requests = (s.clerk client).requests ++ more
  executed : ∃ more, t.executed = more ++ s.executed

theorem Grows.of_eq (requests : ∀ client, (t.clerk client).requests = (s.clerk client).requests)
    (executed : t.executed = s.executed) : Grows s t :=
  ⟨fun client => ⟨[], by rw [requests, List.append_nil]⟩, ⟨[], executed⟩⟩

theorem Quiet.grows (quiet : Quiet C s t) : Grows s t := by
  refine ⟨fun client => ?_, ⟨[], quiet.executed⟩⟩
  cases quiet.clerks client with
  | same clerk => exact ⟨[], by rw [clerk, List.append_nil]⟩
  | request r clerk => exact ⟨[r], by rw [clerk]⟩
  | idle requests => exact ⟨[], by rw [requests, List.append_nil]⟩
  | matched gid requests => exact ⟨[], by rw [requests, List.append_nil]⟩
  | started gid term operation last log requests =>
    exact ⟨[], by rw [requests, List.append_nil]⟩
  | waiting gid index term before requests => exact ⟨[], by rw [requests, List.append_nil]⟩

variable {gid : Int} {operation : Operation} {kv : ShardKv}

theorem Applied.grows (ran : Applied s gid operation kv t) : Grows s t := by
  rw [ran.state]
  exact ⟨fun client => ⟨[], (List.append_nil _).symm⟩, ⟨_, rfl⟩⟩

theorem Grows.requestOf (grows : Grows s t) {r : Request} (found : s.requestOf c v = some r) :
    t.requestOf c v = some r := by
  obtain ⟨more, requests⟩ := grows.requests c
  rw [Deployment.requestOf] at found ⊢
  split at found
  · rename_i low
    rw [if_pos low, requests, List.getElem?_append_left (List.getElem?_eq_some_iff.mp found).1]
    exact found
  · cases found

theorem Grows.done (grows : Grows s t) (done : s.Done c v) : t.Done c v := by
  obtain ⟨x, member, mine, number⟩ := done
  obtain ⟨more, executed⟩ := grows.executed
  exact ⟨x, executed ▸ List.mem_append_right more member, mine, number⟩

theorem Grows.settled (grows : Grows s t) (settled : s.Settled c v) : t.Settled c v := by
  obtain ⟨r, found, done⟩ := settled
  exact ⟨r, grows.requestOf found, fun write => grows.done (done write)⟩

theorem requestOf_le {r : Request} (found : s.requestOf c v = some r) :
    0 ≤ v ∧ v ≤ (s.clerk c).requestId := by
  rw [requestOf] at found
  split at found
  · rename_i low
    have bound := (List.getElem?_eq_some_iff.mp found).1
    rw [Clerk.requestId]
    omega
  · cases found

theorem Settled.bounds (settled : s.Settled c v) : 0 ≤ v ∧ v ≤ (s.clerk c).requestId := by
  obtain ⟨r, found, -⟩ := settled
  exact requestOf_le found

/-! ### Steps -/

theorem Numbers.boot (c : Int) : Numbers c boot where
  bounded gid := Nat.zero_le _
  issued := nofun
  recorded gid v found := by cases found
  carried reply around := by
    cases around with
    | logged member => cases member
    | sent pending => cases pending
  order gid := List.Pairwise.nil
  ahead gid operation member := by cases member

theorem ofClerk_last {client term : Int}
    (last : (s.clerk client).operation client term = some operation) :
    OfClerk client operation ∧ operation.requestId = (s.clerk client).requestId ∧
      ∃ r, (s.clerk client).requests.getLast? = some r ∧
        s.requestOf client operation.requestId = some r ∧ operation.op = r.op ∧
        operation.key = r.key := by
  obtain ⟨r, found, rfl⟩ := Clerk.operation_eq last
  refine ⟨⟨rfl, r.data⟩, rfl, r, found, ?_, rfl, rfl⟩
  have some_ : 0 < (s.clerk client).requests.length := by
    cases none : (s.clerk client).requests with
    | nil =>
      rw [none] at found
      cases found
    | cons => exact Nat.zero_lt_succ _
  rw [List.getLast?_eq_getElem?] at found
  have index : (s.clerk client).requestId.toNat = (s.clerk client).requests.length - 1 := by
    rw [Clerk.requestId]
    omega
  have low : 0 ≤ (s.clerk client).requestId := by
    rw [Clerk.requestId]
    omega
  rw [requestOf, if_pos low, index]
  exact found

theorem Quiet.around (quiet : Quiet C s t) {reply : MigrateReply} (around : t.Around reply) :
    (∃ sent, s.Around sent ∧ sent.Sent reply) ∨
      ∃ gid, (C.query reply.configNum).owner reply.shard = some gid ∧
        reply.configNum < s.num gid ∧
        ∀ c, reply.clientReqId.lookup c = (s.group gid).kv.clientSeqMap.lookup c := by
  cases around with
  | logged member op read =>
    cases quiet.mem_log member with
    | inl before => exact .inl ⟨reply, .logged before op read, rfl, rfl, rfl, fun _ => rfl⟩
    | inr proposed =>
      cases proposed with
      | config => cases op
      | @shard p text sent term pending dst answered decoded ok =>
        exact .inl ⟨sent, .sent pending answered decoded ok, updateDataBase_reply ok read⟩
      | garbage gc => cases gc.symm.trans op
      | command call last =>
        rcases Clerk.operation_data last with data | data | data <;> cases data.symm.trans op
  | sent pending answered read ok =>
    cases quiet.replies pending answered with
    | inl before =>
      exact .inl ⟨reply, .sent before answered read ok, rfl, rfl, rfl, fun _ => rfl⟩
    | inr new =>
      obtain ⟨q, before, dst, shard, configNum, gid, owner, answer⟩ := new
      obtain ⟨sameShard, sameNum, past, numbers⟩ := shardMigration_ok answer read ok
      rw [← sameShard, ← sameNum] at owner
      exact .inr ⟨gid, owner, sameNum ▸ past, numbers⟩

theorem Numbers.carries (numbers : Numbers c s) (member : operation ∈ (s.group gid).log)
    (carries : Carries c operation v) : 0 ≤ v ∧ v ≤ (s.clerk c).requestId := by
  cases carries with
  | inl own =>
    obtain ⟨r, found, -⟩ := numbers.issued gid operation member own.1
    exact own.2 ▸ requestOf_le found
  | inr shard =>
    obtain ⟨op, reply, read, found⟩ := shard
    exact (numbers.carried reply (.logged member op read) v found).bounds

theorem Proposed.highest (proposed : Proposed C s gid operation) (own : OfClerk c operation) :
    operation.requestId = (s.clerk c).requestId ∧
      ∃ r, s.requestOf c operation.requestId = some r ∧ operation.op = r.op ∧
        operation.key = r.key := by
  cases proposed with
  | config => rcases own.2 with op | op | op <;> cases op
  | shard => rcases own.2 with op | op | op <;> cases op
  | garbage gc => rcases own.2 with op | op | op <;> cases gc.symm.trans op
  | @command client term operation call last =>
    obtain ⟨mine, number, r, -, found, op, key⟩ := ofClerk_last last
    have same : client = c := mine.1.symm.trans own.1
    subst same
    exact ⟨number, r, found, op, key⟩

theorem Quiet.waiting (quiet : Quiet C s t)
    (bounded : (s.group gid).applied ≤ (s.group gid).log.length) :
    t.waiting gid = s.waiting gid ∨
      ∃ operation, Proposed C s gid operation ∧ t.waiting gid = s.waiting gid ++ [operation] := by
  rw [Deployment.waiting, Deployment.waiting, quiet.applied]
  rcases quiet.log gid with same | ⟨new, proposed, log⟩
  · exact .inl (by rw [same])
  · exact .inr ⟨new, proposed, by rw [log, List.drop_append_of_le_length bounded]⟩

theorem Numbers.quiet (numbers : Numbers c s) (quiet : Quiet C s t) : Numbers c t := by
  have grows := quiet.grows
  refine ⟨?_, ?_, ?_, ?_, ?_, ?_⟩
  · intro gid
    have before := numbers.bounded gid
    rw [quiet.applied]
    rcases quiet.log gid with same | ⟨new, -, log⟩
    · rwa [same]
    · rw [log, List.length_append]
      omega
  · intro gid operation member own
    cases quiet.mem_log member with
    | inl before =>
      obtain ⟨r, found, same⟩ := numbers.issued gid operation before own
      exact ⟨r, grows.requestOf found, same⟩
    | inr proposed =>
      obtain ⟨-, r, found, same⟩ := proposed.highest own
      exact ⟨r, grows.requestOf found, same⟩
  · intro gid v found
    rw [(quiet.shards gid).clientSeqMap] at found
    exact grows.settled (numbers.recorded gid v found)
  · intro reply around v found
    cases quiet.around around with
    | inl old =>
      obtain ⟨sent, before, same⟩ := old
      rw [same.clientReqId] at found
      exact grows.settled (numbers.carried sent before v found)
    | inr new =>
      obtain ⟨gid, owner, past, same⟩ := new
      rw [same] at found
      exact grows.settled (numbers.recorded gid v found)
  · intro gid
    rcases quiet.waiting (numbers.bounded gid) with same | ⟨new, proposed, longer⟩
    · rw [same]
      exact numbers.order gid
    · rw [longer, List.pairwise_append]
      refine ⟨numbers.order gid, List.pairwise_singleton _ _, ?_⟩
      intro a member b last own v carries
      cases List.mem_singleton.mp last
      rw [(proposed.highest own).1]
      exact (numbers.carries (List.mem_of_mem_drop member) carries).2
  · intro gid operation member own v found
    rw [(quiet.shards gid).clientSeqMap] at found
    rcases quiet.waiting (numbers.bounded gid) with same | ⟨new, proposed, longer⟩
    · rw [same] at member
      exact numbers.ahead gid operation member own v found
    · rw [longer, List.mem_append] at member
      cases member with
      | inl before => exact numbers.ahead gid operation before own v found
      | inr last =>
        cases List.mem_singleton.mp last
        rw [(proposed.highest own).1]
        exact (numbers.recorded gid v found).bounds.2

/-! ### Applying a command -/

/-- The commands of Clerk `c` are applied where their shard is available, and no GC command
carries its number. -/
def Step.Kept (c : Int) (s : Deployment) : Step → Prop
  | .apply gid => ∀ operation ∈ (s.group gid).log[(s.group gid).applied]?,
      operation.op ≠ .UC → operation.op ≠ .UD → operation.clientId = c →
        operation.op ≠ .GC ∧ key2shard operation.key ∈ (s.group gid).kv.availableShards
  | _ => True

theorem Turn.record (turn : Turn C s gid operation kv)
    (kept : operation.op ≠ .UC → operation.op ≠ .UD → operation.clientId = c →
      operation.op ≠ .GC ∧ key2shard operation.key ∈ (s.group gid).kv.availableShards) :
    kv.clientSeqMap.lookup c = (s.group gid).kv.clientSeqMap.lookup c ∨
      (OfClerk c operation ∧ key2shard operation.key ∈ (s.group gid).kv.availableShards ∧
        kv.clientSeqMap.lookup c = some operation.requestId) ∨
      ∃ reply r, operation.op = .UD ∧ str2MigrateReply operation.value = some reply ∧
        reply.clientReqId.lookup c = some r ∧
        kv.clientSeqMap.lookup c =
          some (max (((s.group gid).kv.clientSeqMap.lookup c).getD 0) r) := by
  cases turn with
  | config op next shards arrived => exact .inl (by rw [(ShardKv.update_frame _ _).2.1])
  | nothing op => exact .inl rfl
  | again op there => exact .inl rfl
  | @shard reply database garbages op read handed current absent =>
    have merged := ShardKv.lookup_mergeSeqs (s.group gid).kv.clientSeqMap
      reply.clientReqId.nodupKeys c
    cases found : reply.clientReqId.lookup c with
    | none =>
      rw [show reply.clientReqId.entries.dlookup c = none from found] at merged
      exact .inl merged
    | some r =>
      rw [show reply.clientReqId.entries.dlookup c = some r from found] at merged
      exact .inr (.inr ⟨reply, r, op, read, found, merged⟩)
  | command notConfig notShard recorded =>
    rw [recorded.clientSeqMap]
    by_cases mine : operation.clientId = c
    · obtain ⟨notGarbage, there⟩ := kept notConfig notShard mine
      have own : OfClerk c operation := by
        refine ⟨mine, ?_⟩
        cases op : operation.op <;> simp_all
      exact .inr (.inl ⟨own, there, by rw [mine, AList.lookup_insert]⟩)
    · exact .inl (AList.lookup_insert_ne (Ne.symm mine))

theorem Applied.waiting (ran : Applied s gid operation kv t) :
    s.waiting gid = operation :: t.waiting gid ∧ ∀ g, g ≠ gid → t.waiting g = s.waiting g := by
  refine ⟨?_, fun g apart => by rw [Deployment.waiting, Deployment.waiting, ran.other apart]⟩
  rw [Deployment.waiting, Deployment.waiting, ran.self]
  obtain ⟨inside, here⟩ := List.getElem?_eq_some_iff.mp ran.next
  rw [List.drop_eq_getElem_cons inside, here]

theorem mem_execution {x : Execution} :
    x ∈ execution gid kv operation ↔ kv.executes operation ∧
      x = ⟨operation.clientId, operation.requestId, gid, kv.config.configNum⟩ := by
  rw [execution]
  split <;> simp [*]

theorem Applied.executed (ran : Applied s gid operation kv t) :
    t.executed = execution gid (s.group gid).kv operation ++ s.executed := by rw [ran.state]

theorem Numbers.settled_command (numbers : Numbers c s) (ran : Applied s gid operation kv t)
    (own : OfClerk c operation)
    (there : key2shard operation.key ∈ (s.group gid).kv.availableShards) :
    t.Settled c operation.requestId := by
  have grows := ran.grows
  have member : operation ∈ (s.group gid).log := List.mem_of_getElem? ran.next
  obtain ⟨r, found, op, -⟩ := numbers.issued gid operation member own
  refine ⟨r, grows.requestOf found, fun write => ?_⟩
  have isWrite : operation.op = .put ∨ operation.op = .append :=
    own.2.resolve_left fun get => write (op.symm.trans get)
  by_cases runs : (s.group gid).kv.executes operation
  · refine ⟨⟨operation.clientId, operation.requestId, gid, (s.group gid).kv.config.configNum⟩, ?_,
      own.1, rfl⟩
    rw [ran.executed]
    exact List.mem_append_left _ (mem_execution.mpr ⟨runs, rfl⟩)
  · -- the number has been recorded before, so the write is an old one
    rw [ShardKv.executes_iff] at runs
    have old : ∃ prev, (s.group gid).kv.clientSeqMap.lookup operation.clientId = some prev ∧
        ¬ prev < operation.requestId := by
      by_contra none
      refine runs ⟨isWrite, there, fun prev recorded => ?_⟩
      by_contra late
      exact none ⟨prev, recorded, late⟩
    obtain ⟨prev, recorded, late⟩ := old
    rw [own.1] at recorded
    have waits : operation ∈ s.waiting gid := by
      rw [ran.waiting.1]
      exact List.mem_cons_self
    have le := numbers.ahead gid operation waits own prev recorded
    have same : prev = operation.requestId := by omega
    obtain ⟨r', found', done⟩ := numbers.recorded gid prev recorded
    rw [same, found] at found'
    cases found'
    exact grows.done (same ▸ done write)

theorem Applied.around (ran : Applied s gid operation kv t) {reply : MigrateReply}
    (around : t.Around reply) : s.Around reply := by
  cases around with
  | logged member op read =>
    rw [ran.log] at member
    exact .logged member op read
  | sent pending answered read ok =>
    rw [ran.state] at pending
    exact .sent pending answered read ok

theorem Numbers.apply (numbers : Numbers c s) (owned : Owned C s)
    (ran : Applied s gid operation kv t) (kept : Step.Kept c s (.apply gid)) : Numbers c t := by
  have grows := ran.grows
  have turn := owned.turn ran
  have record := turn.record (kept operation ran.next)
  have member : operation ∈ (s.group gid).log := List.mem_of_getElem? ran.next
  obtain ⟨waitsHere, waitsThere⟩ := ran.waiting
  have order := numbers.order gid
  rw [waitsHere, List.pairwise_cons] at order
  have waits : ∀ b ∈ t.waiting gid, b ∈ s.waiting gid := by
    intro b later
    rw [waitsHere]
    exact List.mem_cons_of_mem _ later
  refine ⟨?_, ?_, ?_, ?_, ?_, ?_⟩
  · intro g
    by_cases same : g = gid
    · rw [same, ran.self]
      exact (List.getElem?_eq_some_iff.mp ran.next).1
    · rw [ran.other same]
      exact numbers.bounded g
  · intro g b inside own
    rw [ran.log] at inside
    obtain ⟨r, found, same⟩ := numbers.issued g b inside own
    exact ⟨r, grows.requestOf found, same⟩
  · intro g v found
    by_cases same : g = gid
    · rw [same, ran.self] at found
      rcases record with kept | ⟨own, there, mine⟩ | ⟨reply, r, op, read, carried, merged⟩
      · rw [kept] at found
        exact grows.settled (numbers.recorded gid v found)
      · rw [mine] at found
        cases found
        exact numbers.settled_command ran own there
      · rw [merged] at found
        have settled := numbers.carried reply (.logged member op read) r carried
        cases before : (s.group gid).kv.clientSeqMap.lookup c with
        | none =>
          rw [before, Option.getD_none, max_eq_right settled.bounds.1] at found
          cases found
          exact grows.settled settled
        | some w =>
          rw [before, Option.getD_some] at found
          cases found
          rcases le_total w r with le | le
          · rw [max_eq_right le]
            exact grows.settled settled
          · rw [max_eq_left le]
            exact grows.settled (numbers.recorded gid w before)
    · rw [ran.other same] at found
      exact grows.settled (numbers.recorded g v found)
  · intro reply around v found
    exact grows.settled (numbers.carried reply (ran.around around) v found)
  · intro g
    by_cases same : g = gid
    · rw [same]
      exact order.2
    · rw [waitsThere g same]
      exact numbers.order g
  · intro g b later own v found
    by_cases same : g = gid
    · subst same
      rw [ran.self] at found
      have below := fun w carries => order.1 b later own w carries
      have ahead := numbers.ahead g b (waits b later) own
      rcases record with kept | ⟨mine, there, recorded⟩ | ⟨reply, r, op, read, carried, merged⟩
      · exact ahead v (kept ▸ found)
      · rw [recorded] at found
        cases found
        exact below _ (.inl ⟨mine, rfl⟩)
      · rw [merged] at found
        cases found
        have le := below r (.inr ⟨op, reply, read, carried⟩)
        have low := (numbers.carried reply (.logged member op read) r carried).bounds.1
        cases before : (s.group g).kv.clientSeqMap.lookup c with
        | none =>
          rw [Option.getD_none]
          omega
        | some w =>
          have old := ahead w before
          rw [Option.getD_some]
          omega
    · rw [ran.other same] at found
      rw [waitsThere g same] at later
      exact numbers.ahead g b later own v found

theorem numbers (reach : Reach (machine C) (Step.Kept c) s) : Numbers c s := by
  refine reach.invariant_of (P := Numbers c) (Q := Owned C) (fun s before => owned before.reachable)
    ?_ ?_
  · rintro s rfl
    exact .boot c
  · intro s a t owned numbers kept next
    rcases step_cases next with ⟨gid, operation, kv, rfl, ran⟩ | quiet
    · exact numbers.apply owned ran kept
    · exact numbers.quiet quiet

end Deployment

end ProjectsCpp.Sharding
