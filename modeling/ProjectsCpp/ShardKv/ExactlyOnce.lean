import ProjectsCpp.ShardKv.Numbers

/-! No write of a Clerk is carried out twice, and none that is answered OK is left out, as
long as its commands are applied where their shards are. Whoever holds a shard, or has
passed it on, has recorded every write that was carried out on it until then. -/

namespace ProjectsCpp.Sharding
open ProjectsCpp.Text ProjectsCpp.Run

namespace Deployment

/-- The record has a number of the Clerk that is not below `v`. -/
def Knows (record : AList fun _ : Int => Int) (c v : Int) : Prop :=
  ∃ w, record.lookup c = some w ∧ v ≤ w

/-- The writes of Clerk `c` that are done, against the shards. -/
structure Spread (C : Configs) (c : Int) (s : Deployment) : Prop where
  placed : ∀ x ∈ s.executed, x.clientId = c → 1 ≤ x.configNum ∧
    ∃ r, s.requestOf c x.requestId = some r ∧ ∃ h, Held C s x.configNum (key2shard r.key) h
  known : ∀ x ∈ s.executed, x.clientId = c → ∀ r, s.requestOf c x.requestId = some r →
    ∀ n h, x.configNum ≤ n → Held C s n (key2shard r.key) h →
      Knows (s.group h).kv.clientSeqMap c x.requestId
  handed : ∀ x ∈ s.executed, x.clientId = c → ∀ r, s.requestOf c x.requestId = some r →
    ∀ reply, s.Around reply → reply.shard = key2shard r.key → x.configNum ≤ reply.configNum →
      Knows reply.clientReqId c x.requestId
  once : s.executed.Pairwise fun x y => x.clientId = c → y.clientId = c →
    x.requestId ≠ y.requestId

variable {C : Configs} {s t : Deployment} {c v n shard gid : Int} {operation : Operation}
  {kv : ShardKv}

theorem Spread.boot (C : Configs) (c : Int) : Spread C c boot where
  placed := nofun
  known := nofun
  handed := nofun
  once := List.Pairwise.nil

theorem Owned.around (owned : Owned C s) {reply : MigrateReply} (around : s.Around reply) :
    1 ≤ reply.configNum ∧ Departed C s reply.configNum reply.shard := by
  cases around with
  | logged member op read =>
    have handed := owned.shards _ _ member op reply read
    exact ⟨handed.num, handed.departed⟩
  | @sent p text pending answered read ok =>
    obtain ⟨shard, configNum, departed⟩ := owned.replies p pending text answered reply read ok
    rw [shard, configNum]
    exact ⟨(owned.pulls p pending).1, departed⟩

theorem Departed.held (departed : Departed C s n shard) : ∃ h, Held C s n shard h := by
  obtain ⟨h, owner, past⟩ := departed
  exact ⟨h, owner, .inl past⟩

theorem Quiet.held_after (quiet : Quiet C s t) {h : Int} (held : Held C s n shard h) :
    Held C t n shard h := by
  obtain ⟨owner, place⟩ := held
  refine ⟨owner, ?_⟩
  rw [quiet.num, (quiet.shards h).availableShards]
  exact place

theorem Spread.request (spread : Spread C c s) (grows : Grows s t) {x : Execution}
    (member : x ∈ s.executed) (mine : x.clientId = c) {r : Request}
    (found : t.requestOf c x.requestId = some r) : s.requestOf c x.requestId = some r := by
  obtain ⟨-, r', before, -⟩ := spread.placed x member mine
  rw [grows.requestOf before] at found
  exact found ▸ before

theorem Spread.quiet (spread : Spread C c s) (quiet : Quiet C s t) : Spread C c t := by
  have grows := quiet.grows
  refine ⟨?_, ?_, ?_, ?_⟩
  · intro x member mine
    rw [quiet.executed] at member
    obtain ⟨low, r, found, h, held⟩ := spread.placed x member mine
    exact ⟨low, r, grows.requestOf found, h, quiet.held_after held⟩
  · intro x member mine r found n h le held
    rw [quiet.executed] at member
    rw [(quiet.shards h).clientSeqMap]
    exact spread.known x member mine r (spread.request grows member mine found) n h le
      (quiet.held held)
  · intro x member mine r found reply around shard le
    rw [quiet.executed] at member
    have before := spread.request grows member mine found
    cases quiet.around around with
    | inl old =>
      obtain ⟨sent, there, same⟩ := old
      rw [same.shard] at shard
      rw [same.configNum] at le
      rw [Knows, same.clientReqId]
      exact spread.handed x member mine r before sent there shard le
    | inr new =>
      obtain ⟨gid, owner, past, same⟩ := new
      rw [Knows, same]
      rw [shard] at owner
      exact spread.known x member mine r before reply.configNum gid le ⟨owner, .inl past⟩
  · rw [quiet.executed]
    exact spread.once

/-! ### Applying a command -/

theorem Turn.available (turn : Turn C s gid operation kv) :
    kv.config.configNum = s.num gid + 1 ∨
      (kv.config.configNum = s.num gid ∧
        ∀ shard ∈ (s.group gid).kv.availableShards, shard ∈ kv.availableShards) := by
  cases turn with
  | @config config op next shards arrived =>
    rw [ShardKv.update_config (by rw [next, Deployment.num]; omega)]
    exact .inl next
  | nothing op => exact .inr ⟨rfl, fun shard held => held⟩
  | again op there => exact .inr ⟨rfl, fun shard held => held⟩
  | shard op read handed current absent =>
    exact .inr ⟨rfl, fun shard held => List.mem_insert_iff.mpr (.inr held)⟩
  | command notConfig notShard recorded =>
    rw [recorded.config, recorded.availableShards]
    exact .inr ⟨rfl, fun shard held => held⟩

theorem Applied.held_after (ran : Applied s gid operation kv t) (turn : Turn C s gid operation kv)
    {h : Int} (held : Held C s n shard h) : Held C t n shard h := by
  obtain ⟨owner, place⟩ := held
  refine ⟨owner, ?_⟩
  by_cases same : h = gid
  · subst same
    rw [ran.num_self, ran.self]
    rcases turn.available with next | ⟨still, available⟩
    · rw [next]
      cases place with
      | inl past => exact .inl (by omega)
      | inr here => exact .inl (by omega)
    · rw [still]
      exact place.imp id fun here => ⟨here.1, available shard here.2⟩
  · rw [ran.num_other same, ran.other same]
    exact place

theorem Owned.held_new (owned : Owned C s) (ran : Applied s gid operation kv t)
    (turn : Turn C s gid operation kv) {h : Int} (low : 1 ≤ n) (held : Held C t n shard h) :
    Held C s n shard h ∨
      (h = gid ∧ n = s.num gid + 1 ∧ (s.num gid = 0 ∨ Held C s (s.num gid) shard gid)) ∨
      (h = gid ∧ n = s.num gid ∧ shard ∉ (s.group gid).kv.availableShards ∧
        ∃ reply, operation.op = .UD ∧ str2MigrateReply operation.value = some reply ∧
          reply.shard = shard ∧ reply.configNum + 1 = n ∧
          kv.clientSeqMap =
            ShardKv.mergeSeqs (s.group gid).kv.clientSeqMap reply.clientReqId.entries) := by
  by_cases same : h = gid
  · subst same
    have num := ran.num_self
    cases turn with
    | @config config op next shards arrived =>
      have sameNum : s.num h = (s.group h).kv.config.configNum := rfl
      have newer : (s.group h).kv.config.configNum < config.configNum := by omega
      rw [ShardKv.update_config newer] at num
      obtain ⟨owner, place⟩ := held
      rcases place with past | ⟨now, there⟩
      · by_cases before : n < s.num h
        · exact .inl ⟨owner, .inl before⟩
        · have here : n = s.num h := by omega
          subst here
          exact .inl (owned.held_config low owner arrived)
      · rw [ran.self] at there
        refine .inr (.inl ⟨rfl, by omega, ?_⟩)
        cases ((ShardKv.update_available newer shard).mp there).2 with
        | inr first => exact .inl first
        | inl kept =>
          exact .inr ⟨((owned.groups h).available shard kept).2, .inr ⟨rfl, kept⟩⟩
    | nothing op =>
      refine .inl (held.before num fun here => ?_)
      rwa [ran.self] at here
    | again op there =>
      refine .inl (held.before num fun here => ?_)
      rwa [ran.self] at here
    | @shard reply database garbages op read handed current absent =>
      by_cases new : shard = reply.shard ∧ n = s.num h
      · obtain ⟨rfl, rfl⟩ := new
        exact .inr (.inr ⟨rfl, rfl, absent, reply, op, read, rfl, current, rfl⟩)
      · obtain ⟨owner, place⟩ := held
        rw [num] at place
        refine .inl ⟨owner, place.imp id fun here => ⟨here.1, ?_⟩⟩
        have there := here.2
        rw [ran.self] at there
        exact (List.mem_insert_iff.mp there).resolve_left fun same => new ⟨same, here.1.symm⟩
    | command notConfig notShard recorded =>
      rw [recorded.config] at num
      refine .inl (held.before num fun here => ?_)
      rwa [ran.self, recorded.availableShards] at here
  · refine .inl (held.before (ran.num_other same) fun here => ?_)
    rwa [ran.other same] at here

theorem Numbers.knows_after (numbers : Numbers c s) (ran : Applied s gid operation kv t)
    (turn : Turn C s gid operation kv) (kept : Step.Kept c s (.apply gid)) {h : Int}
    (knows : Knows (s.group h).kv.clientSeqMap c v) : Knows (t.group h).kv.clientSeqMap c v := by
  by_cases same : h = gid
  · subst same
    obtain ⟨w, found, le⟩ := knows
    rw [ran.self]
    rcases turn.record (kept operation ran.next) with kept | ⟨own, there, mine⟩ |
      ⟨reply, r, op, read, carried, merged⟩
    · exact ⟨w, kept.trans found, le⟩
    · have waits : operation ∈ s.waiting h := by
        rw [ran.waiting.1]
        exact List.mem_cons_self
      exact ⟨_, mine, le.trans (numbers.ahead h operation waits own w found)⟩
    · rw [found, Option.getD_some] at merged
      exact ⟨_, merged, le.trans (le_max_left w r)⟩
  · rw [ran.other same]
    exact knows

theorem owner_unique {g h : Int} (first : (C.query n).owner shard = some g)
    (second : (C.query n).owner shard = some h) : g = h :=
  Option.some.inj (first.symm.trans second)

theorem Spread.known_after (spread : Spread C c s) (owned : Owned C s) (numbers : Numbers c s)
    (ran : Applied s gid operation kv t) (turn : Turn C s gid operation kv)
    (kept : Step.Kept c s (.apply gid)) {x : Execution} (member : x ∈ s.executed)
    (mine : x.clientId = c) {r : Request} (found : s.requestOf c x.requestId = some r) {h : Int}
    (le : x.configNum ≤ n) (held : Held C t n (key2shard r.key) h) :
    Knows (t.group h).kv.clientSeqMap c x.requestId := by
  obtain ⟨low, r', found', g, place⟩ := spread.placed x member mine
  cases found'.symm.trans found
  have known := fun m k below there =>
    numbers.knows_after ran turn kept (spread.known x member mine r found m k below there)
  rcases owned.held_new ran turn (by omega) held with before | ⟨rfl, next, source⟩ |
    ⟨rfl, here, absent, reply, op, read, shard, current, merged⟩
  · exact known n h le before
  · -- the write was not done in the configuration that begins only now
    have earlier : x.configNum ≠ s.num h + 1 := by
      intro same
      rw [same] at place
      have owner := held.1
      rw [next] at owner
      cases owner_unique place.1 owner
      rcases place.2 with past | now
      · omega
      · omega
    cases source with
    | inl first => omega
    | inr kept => exact known _ h (by omega) kept
  · -- nor by the group itself before the shard came in
    have earlier : x.configNum ≠ n := by
      intro same
      rw [same] at place
      cases owner_unique place.1 held.1
      rcases place.2 with past | now
      · omega
      · exact absent now.2
    have around : s.Around reply := .logged (List.mem_of_getElem? ran.next) op read
    obtain ⟨w, carried, le'⟩ := spread.handed x member mine r found reply around shard (by omega)
    have merges := ShardKv.lookup_mergeSeqs (s.group h).kv.clientSeqMap reply.clientReqId.nodupKeys c
    rw [show reply.clientReqId.entries.dlookup c = some w from carried] at merges
    rw [ran.self, merged]
    exact ⟨_, merges, le'.trans (le_max_right _ w)⟩

structure Fresh (C : Configs) (c : Int) (s t : Deployment) (gid : Int) (operation : Operation)
    (r : Request) : Prop where
  found : s.requestOf c operation.requestId = some r
  low : 1 ≤ s.num gid
  owner : (C.query (s.num gid)).owner (key2shard r.key) = some gid
  held : Held C s (s.num gid) (key2shard r.key) gid
  still : t.num gid = s.num gid
  record : (t.group gid).kv.clientSeqMap.lookup c = some operation.requestId
  new : ∀ prev, (s.group gid).kv.clientSeqMap.lookup c = some prev → prev < operation.requestId

theorem Owned.fresh (owned : Owned C s) (numbers : Numbers c s)
    (ran : Applied s gid operation kv t) (turn : Turn C s gid operation kv)
    (runs : (s.group gid).kv.executes operation) (mine : operation.clientId = c) :
    ∃ r, Fresh C c s t gid operation r := by
  obtain ⟨write, there, new⟩ := ShardKv.executes_iff.mp runs
  have own : OfClerk c operation := ⟨mine, .inr write⟩
  obtain ⟨r, found, -, key⟩ := numbers.issued gid operation (List.mem_of_getElem? ran.next) own
  obtain ⟨low, owner⟩ := (owned.groups gid).available _ there
  rw [key] at there owner
  rw [mine] at new
  have data : operation.op ≠ .UC ∧ operation.op ≠ .UD := by
    rcases write with put | append
    · rw [put]
      decide
    · rw [append]
      decide
  have recorded := turn.recorded data.1 data.2
  refine ⟨r, found, low, owner, ⟨owner, .inr ⟨rfl, there⟩⟩, ?_, ?_, new⟩
  · rw [ran.num_self, recorded.config, Deployment.num]
  · rw [ran.self, recorded.clientSeqMap, mine]
    exact AList.lookup_insert _

theorem Fresh.not_departed {r : Request} (fresh : Fresh C c s t gid operation r)
    (departed : Departed C s (s.num gid) (key2shard r.key)) : False := by
  obtain ⟨h, owner, past⟩ := departed
  cases owner_unique fresh.owner owner
  exact lt_irrefl _ past

theorem Spread.apply (spread : Spread C c s) (owned : Owned C s) (numbers : Numbers c s)
    (ran : Applied s gid operation kv t) (kept : Step.Kept c s (.apply gid)) : Spread C c t := by
  have grows := ran.grows
  have turn := owned.turn ran
  have ownedAfter := owned.apply ran
  have members : ∀ x ∈ t.executed, x.clientId = c → x ∈ s.executed ∨
      (x = ⟨operation.clientId, operation.requestId, gid, s.num gid⟩ ∧
        ∃ r, Fresh C c s t gid operation r) := by
    intro x member mine
    rw [ran.executed] at member
    cases List.mem_append.mp member with
    | inr before => exact .inl before
    | inl new =>
      obtain ⟨runs, rfl⟩ := mem_execution.mp new
      exact .inr ⟨rfl, owned.fresh numbers ran turn runs mine⟩
  refine ⟨?_, ?_, ?_, ?_⟩
  · intro x member mine
    rcases members x member mine with before | ⟨rfl, r, fresh⟩
    · obtain ⟨low, r, found, h, held⟩ := spread.placed x before mine
      exact ⟨low, r, grows.requestOf found, h, ran.held_after turn held⟩
    · exact ⟨fresh.low, r, grows.requestOf fresh.found, gid, ran.held_after turn fresh.held⟩
  · intro x member mine r found n h le held
    rcases members x member mine with before | ⟨rfl, r', fresh⟩
    · exact spread.known_after owned numbers ran turn kept before mine
        (spread.request grows before mine found) le held
    · cases (grows.requestOf fresh.found).symm.trans found
      have le : s.num gid ≤ n := le
      by_cases here : n = s.num gid
      · rw [here] at held
        cases owner_unique fresh.owner held.1
        exact ⟨_, fresh.record, le_refl _⟩
      · obtain ⟨g, owner, past⟩ := ownedAfter.chain n _ h held (s.num gid) fresh.low (by omega)
        cases owner_unique fresh.owner owner
        rw [fresh.still] at past
        exact absurd past (lt_irrefl _)
  · intro x member mine r found reply around shard le
    rcases members x member mine with before | ⟨rfl, r', fresh⟩
    · exact spread.handed x before mine r (spread.request grows before mine found) reply
        (ran.around around) shard le
    · cases (grows.requestOf fresh.found).symm.trans found
      have departed := (owned.around (ran.around around)).2
      rw [shard] at departed
      exact (fresh.not_departed (owned.departed_below departed fresh.low le)).elim
  · rw [ran.executed, List.pairwise_append]
    refine ⟨?_, spread.once, ?_⟩
    · rw [execution]
      split
      · exact List.pairwise_singleton _ _
      · exact List.Pairwise.nil
    · intro x new y before mineX mineY same
      obtain ⟨runs, rfl⟩ := mem_execution.mp new
      obtain ⟨r, fresh⟩ := owned.fresh numbers ran turn runs mineX
      obtain ⟨low, r', found, h, held⟩ := spread.placed y before mineY
      have same : operation.requestId = y.requestId := same
      cases (same ▸ fresh.found).symm.trans found
      by_cases le : y.configNum ≤ s.num gid
      · obtain ⟨w, recorded, beyond⟩ := spread.known y before mineY r found _ gid le fresh.held
        have below := fresh.new w recorded
        omega
      · exact fresh.not_departed (owned.chain _ _ h held _ fresh.low (by omega))

/-! ### Answers -/

def Call.At (call : Call) (gid index : Int) : Prop :=
  (∃ term, call = .started gid index term) ∨ call = .waiting gid index

/-- The calls of Clerk `c`: what has been applied is settled, and only what has been
applied wakes a handler up. -/
structure Answers (c : Int) (s : Deployment) : Prop where
  applied : ∀ gid k, k < (s.group gid).applied → ∀ operation,
    (s.group gid).log[k]? = some operation → OfClerk c operation → s.Settled c operation.requestId
  contexts : ∀ gid i context, (s.group gid).kv.requestMap.lookup i = some context →
    context.isRecved → 1 ≤ i ∧ i ≤ (s.group gid).applied
  calls : ∀ gid i, Call.At (s.clerk c).call gid i → 1 ≤ i → ∃ operation term,
    (s.group gid).log[(i - 1).toNat]? = some operation ∧
      (s.clerk c).operation c term = some operation
  acked : ∀ r, (c, r) ∈ s.acked → s.Done c r

theorem Answers.boot (c : Int) : Answers c boot where
  applied := nofun
  contexts gid i context found := by cases found
  calls gid i at_ := by
    rcases at_ with ⟨term, none⟩ | none <;> cases none
  acked := nofun

theorem Quiet.log_at (quiet : Quiet C s t) {k : Nat}
    (there : (s.group gid).log[k]? = some operation) : (t.group gid).log[k]? = some operation := by
  rcases quiet.log gid with same | ⟨new, -, log⟩
  · rwa [same]
  · rw [log, List.getElem?_append_left (List.getElem?_eq_some_iff.mp there).1]
    exact there

theorem operation_congr {clerk clerk' : Clerk} (same : clerk'.requests = clerk.requests)
    (client term : Int) : clerk'.operation client term = clerk.operation client term := by
  rw [Clerk.operation, Clerk.operation, Clerk.requestId, Clerk.requestId, same]

theorem Answers.calls_quiet (answers : Answers c s) (quiet : Quiet C s t) (i : Int)
    (at_ : Call.At (t.clerk c).call gid i) (low : 1 ≤ i) : ∃ operation term,
      (t.group gid).log[(i - 1).toNat]? = some operation ∧
        (t.clerk c).operation c term = some operation := by
  have before : (t.clerk c).requests = (s.clerk c).requests → Call.At (s.clerk c).call gid i →
      ∃ operation term, (t.group gid).log[(i - 1).toNat]? = some operation ∧
        (t.clerk c).operation c term = some operation := by
    intro same at_
    obtain ⟨operation, term, there, last⟩ := answers.calls gid i at_ low
    exact ⟨operation, term, quiet.log_at there, (operation_congr same c term).trans last⟩
  cases quiet.clerks c with
  | same clerk =>
    rw [clerk] at at_
    exact before (by rw [clerk]) at_
  | request r clerk =>
    rw [clerk] at at_
    rcases at_ with ⟨term, none⟩ | none <;> cases none
  | idle requests call =>
    rw [call] at at_
    rcases at_ with ⟨term, none⟩ | none <;> cases none
  | matched g requests call =>
    rw [call] at at_
    rcases at_ with ⟨term, none⟩ | none <;> cases none
  | started g term operation last log requests call =>
    rw [call] at at_
    rcases at_ with ⟨term', same⟩ | none
    · cases same
      refine ⟨operation, term, ?_, (operation_congr requests c term).trans last⟩
      have index : ((s.group gid).nextIndex - 1).toNat = (s.group gid).log.length := by
        rw [Group.nextIndex]
        omega
      rw [log, index, List.getElem?_concat_length]
    · cases none
  | waiting g index term started requests call =>
    rw [call] at at_
    rcases at_ with ⟨term', none⟩ | same
    · cases none
    · cases same
      exact before requests (.inl ⟨term, started⟩)

theorem Answers.quiet (answers : Answers c s) (quiet : Quiet C s t)
    (bounded : ∀ gid, (s.group gid).applied ≤ (s.group gid).log.length) : Answers c t := by
  have grows := quiet.grows
  refine ⟨?_, ?_, ?_, ?_⟩
  · intro gid k below operation there own
    rw [quiet.applied] at below
    have inside : k < (s.group gid).log.length := lt_of_lt_of_le below (bounded gid)
    have before : (s.group gid).log[k]? = some operation := by
      rw [List.getElem?_eq_getElem inside, ← there]
      exact (quiet.log_at (List.getElem?_eq_getElem inside)).symm
    exact grows.settled (answers.applied gid k below operation before own)
  · intro gid i context found recved
    rw [quiet.applied]
    exact answers.contexts gid i context (quiet.contexts gid i context found recved) recved
  · exact fun gid i at_ low => answers.calls_quiet quiet i at_ low
  · intro r given
    cases quiet.acked (c, r) given with
    | inl before => exact grows.done (answers.acked r before)
    | inr woken =>
      obtain ⟨gid, index, context, request, call, found, recved, last, write, number⟩ := woken
      obtain ⟨low, applied⟩ := answers.contexts gid index context found recved
      obtain ⟨operation, term, there, same⟩ := answers.calls gid index (.inr call) low
      obtain ⟨own, requestId, request', last', found', -⟩ := ofClerk_last same
      cases last.symm.trans last'
      obtain ⟨request', again, done⟩ := answers.applied gid _ (by omega) operation there own
      cases found'.symm.trans again
      have number : r = (s.clerk c).requestId := number
      rw [number, ← requestId]
      exact grows.done (done write)

theorem Turn.contexts (turn : Turn C s gid operation kv) {i : Int} {context : OpContext}
    (found : kv.requestMap.lookup i = some context) :
    i = (s.group gid).applied + 1 ∨ (s.group gid).kv.requestMap.lookup i = some context := by
  cases turn with
  | config op next shards arrived =>
    rw [(ShardKv.update_frame _ _).2.2] at found
    exact .inr found
  | command notConfig notShard recorded =>
    by_cases here : i = (s.group gid).applied + 1
    · exact .inl here
    · rw [recorded.requestMap i here] at found
      exact .inr found
  | _ => exact .inr found

theorem Answers.apply (answers : Answers c s) (owned : Owned C s) (numbers : Numbers c s)
    (ran : Applied s gid operation kv t) (kept : Step.Kept c s (.apply gid)) : Answers c t := by
  have grows := ran.grows
  have turn := owned.turn ran
  have clerk : t.clerk = s.clerk := by rw [ran.state]; rfl
  refine ⟨?_, ?_, ?_, ?_⟩
  · intro g k below other there own
    rw [ran.log] at there
    by_cases same : g = gid
    · subst same
      rw [ran.applied] at below
      by_cases before : k < (s.group g).applied
      · exact grows.settled (answers.applied g k before other there own)
      · have here : k = (s.group g).applied := by omega
        rw [here, ran.next] at there
        cases there
        have notConfig : operation.op ≠ .UC := by
          rcases own.2 with op | op | op <;> rw [op] <;> decide
        have notShard : operation.op ≠ .UD := by
          rcases own.2 with op | op | op <;> rw [op] <;> decide
        exact numbers.settled_command ran own (kept operation ran.next notConfig notShard own.1).2
    · rw [ran.other same] at below
      exact grows.settled (answers.applied g k below other there own)
  · intro g i context found recved
    by_cases same : g = gid
    · subst same
      rw [ran.self] at found
      rw [ran.applied]
      cases turn.contexts found with
      | inl new => omega
      | inr before =>
        have bounds := answers.contexts g i context before recved
        omega
    · rw [ran.other same] at found ⊢
      exact answers.contexts g i context found recved
  · intro g i at_ low
    rw [ran.log, clerk]
    rw [clerk] at at_
    exact answers.calls g i at_ low
  · intro r given
    have before : (c, r) ∈ s.acked := by rwa [ran.state] at given
    exact grows.done (answers.acked r before)

theorem spread_answers (reach : Reach (machine C) (Step.Kept c) s) :
    Spread C c s ∧ Answers c s := by
  refine reach.invariant_of (P := fun s => Spread C c s ∧ Answers c s)
    (Q := fun s => Owned C s ∧ Numbers c s)
    (fun s before => ⟨owned before.reachable, numbers before⟩) ?_ ?_
  · rintro s rfl
    exact ⟨.boot C c, .boot c⟩
  · rintro s a t ⟨owned, numbers⟩ ⟨spread, answers⟩ kept next
    rcases step_cases next with ⟨gid, operation, kv, rfl, ran⟩ | quiet
    · exact ⟨spread.apply owned numbers ran kept, answers.apply owned numbers ran kept⟩
    · exact ⟨spread.quiet quiet, answers.quiet quiet numbers.bounded⟩

/-- How often the write of a request has changed some `m_database`. -/
def timesDone (s : Deployment) (c r : Int) : Nat :=
  s.executed.countP fun x => x.clientId = c ∧ x.requestId = r

instance (c : Int) (s : Deployment) (a : Step) : Decidable (Step.Kept c s a) := by
  rcases a <;> (unfold Step.Kept; infer_instance)

def twoServers : AList fun _ : Int => List Str :=
  AList.insert 2 [['2', '1']] (AList.singleton 1 [['1', '1']])

def oneThenTwo : Configs where
  query n := if n = 0 then .empty else
    ⟨n, List.replicate NShards (if n = 1 then 1 else 2), twoServers⟩
  first := rfl
  numbered n low := by
    by_cases zero : n = 0
    · rw [if_pos zero, zero]
      rfl
    · rw [if_neg zero]
  sized n := by
    by_cases zero : n = 0
    · rw [if_pos zero]
      rfl
    · rw [if_neg zero, List.length_replicate]

def adopt (gid : Int) : List Step := [.readConfig gid, .updateConfig 0 1, .apply gid]

def takeOver : List Step := [.pullShard 2 0, .shardMigration 0, .updateDataBase 0 1, .apply 2]

theorem put_data : OpName.put = .get ∨ OpName.put = .put ∨ OpName.put = .append := .inr (.inl rfl)

def putA : Request := ⟨.put, ['a'], ['x'], put_data⟩

def retryAfterMove : List Step :=
  adopt 1 ++ adopt 2 ++
    [Step.request 5 putA, .call 5 1, .start 5 1, .await 5, .apply 1, .giveUp 5] ++
    adopt 1 ++ adopt 2 ++ takeOver ++
    [Step.call 5 2, .start 5 1, .await 5, .apply 2, .answer 5]

def putTooEarly : List Step :=
  adopt 1 ++ adopt 2 ++ adopt 1 ++ adopt 2 ++
    [Step.request 5 putA, .call 5 2, .start 5 1, .await 5, .apply 2, .answer 5] ++ takeOver ++
    [Step.call 5 2, .start 5 1, .await 5, .apply 2, .answer 5]

end Deployment

end ProjectsCpp.Sharding
