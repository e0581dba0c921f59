import ProjectsCpp.KvRaft.Wire
import Mathlib.Data.List.AList
import Mathlib.Data.List.Induction
import Mathlib.Algebra.Order.Group.Int

/-! The key-value server of kvRaft (`server.cpp`): the state machine that `applyLoop` drives
with committed commands and snapshots. The duplicate test compares a request with the id
last recorded for its client, and every command overwrites that record, so the test does
what it is for exactly on logs that keep each client's ids in order. -/

namespace ProjectsCpp.KvRaft
open ProjectsCpp.Text

/-! ### The server -/

structure OpContext where
  op : Operation
  isWrongLeader : Bool
  isIgnored : Bool
  isKeyExisted : Bool
  value : Str

def OpContext.ofOperation (op : Operation) : OpContext := ⟨op, false, false, true, []⟩

structure KVServer where
  lastAppliedIndex : Int
  database : AList fun _ : Str => Str
  clientSeqMap : AList fun _ : Int => Int
  requestMap : AList fun _ : Int => OpContext

namespace KVServer

def empty : KVServer := ⟨0, ∅, ∅, ∅⟩

/-- A write through the pointer `m_requestMap[index]`, when there is one. -/
def setContext (kv : KVServer) (index : Int) (f : OpContext → OpContext) : KVServer :=
  match kv.requestMap.lookup index with
  | some c => { kv with requestMap := kv.requestMap.insert index (f c) }
  | none => kv

def checkTerm (term : Int) (c : OpContext) : OpContext :=
  if c.op.term ≠ term then { c with isWrongLeader := true } else c

/-- `!isSeqExist || prevRequestIdx < operation.requestId`. -/
def isNew (kv : KVServer) (operation : Operation) : Bool :=
  match kv.clientSeqMap.lookup operation.clientId with
  | none => true
  | some prevRequestIdx => prevRequestIdx < operation.requestId

def isPut (operation : Operation) : Bool := operation.op = ['p', 'u', 't']

def isAppend (operation : Operation) : Bool := operation.op = ['a', 'p', 'p', 'e', 'n', 'd']

def putDatabase (kv : KVServer) (operation : Operation) : KVServer :=
  { kv with database := kv.database.insert operation.key operation.value }

def appendDatabase (kv : KVServer) (operation : Operation) : KVServer :=
  match kv.database.lookup operation.key with
  | some old => { kv with database := kv.database.insert operation.key (old ++ operation.value) }
  | none => { kv with database := kv.database.insert operation.key operation.value }

def answerGet (found : Option Str) (c : OpContext) : OpContext :=
  match found with
  | some value => { c with value := value }
  | none => { c with isKeyExisted := false, value := [] }

/-- The command branch of `applyLoop`, and the context of the request it wakes up. -/
def applyOperation (kv : KVServer) (operation : Operation) (index : Int) :
    KVServer × Option OpContext :=
  let s := { kv with lastAppliedIndex := index }.setContext index (checkTerm operation.term)
  let t := { s with clientSeqMap := s.clientSeqMap.insert operation.clientId operation.requestId }
  let u :=
    if isPut operation ∨ isAppend operation then
      if s.isNew operation then
        if isPut operation then t.putDatabase operation else t.appendDatabase operation
      else t.setContext index fun c => { c with isIgnored := true }
    else t.setContext index (answerGet (t.database.lookup operation.key))
  (u, u.requestMap.lookup index)

/-- `recoverySnapShot`: the pairs of the snapshot are stored over what is there. -/
def recoverySnapShot (kv : KVServer) (snapShot : Str) : Option KVServer :=
  match fields ';' snapShot with
  | kvData :: clientSeq :: _ =>
    match (pieces '.' kvData).mapM (cutAt ' '), (pieces '.' clientSeq).mapM (cutAt ' ') with
    | some data, some seqs =>
      some { kv with
        database := data.foldl (fun m p => m.insert p.1 p.2) kv.database
        clientSeqMap := seqs.foldl (fun m p => m.insert (atoi p.1) (atoi p.2)) kv.clientSeqMap }
    | _, _ => none
  | _ => none

/-- One turn of `applyLoop`. -/
def applyLoop (kv : KVServer) : ApplyMsg → Option (KVServer × Option OpContext)
  | .snapShot snapShot lastIncludedIndex _ =>
    if snapShot = [] then
      some ({ kv with database := ∅, clientSeqMap := ∅, lastAppliedIndex := lastIncludedIndex },
        none)
    else
      (kv.recoverySnapShot snapShot).map fun s =>
        ({ s with lastAppliedIndex := lastIncludedIndex }, none)
  | .command command commandIndex commandTerm =>
    (getOperation command commandTerm).map fun operation => kv.applyOperation operation commandIndex

theorem applyLoop_getCmd (kv : KVServer) (o : Operation) (index : Int)
    (op : o.op ≠ [] ∧ ' ' ∉ o.op) (key : o.key ≠ [] ∧ ' ' ∉ o.key)
    (value : o.value ≠ [] ∧ ' ' ∉ o.value) :
    kv.applyLoop (.command o.getCmd index o.term) = some (kv.applyOperation o index) := by
  rw [applyLoop, getOperation_getCmd o o.term op key value]
  rfl

/-! ### Committed commands and waiting requests -/

/-- A committed command, or a request handler that enters or leaves `m_requestMap`. -/
inductive Event where
  | commit (operation : Operation) (index : Int)
  | await (index : Int) (operation : Operation)
  | erase (index : Int)

def step (kv : KVServer) : Event → KVServer
  | .commit operation index => (kv.applyOperation operation index).1
  | .await index operation =>
    { kv with requestMap := kv.requestMap.insert index (OpContext.ofOperation operation) }
  | .erase index => { kv with requestMap := kv.requestMap.erase index }

def run (kv : KVServer) (events : List Event) : KVServer := events.foldl step kv

def writes (kv : KVServer) : Event → List (Int × Int)
  | .commit operation _ =>
    if (isPut operation ∨ isAppend operation) ∧ kv.isNew operation then
      [(operation.clientId, operation.requestId)]
    else []
  | _ => []

def allWrites : KVServer → List Event → List (Int × Int)
  | _, [] => []
  | kv, e :: events => kv.writes e ++ allWrites (kv.step e) events

def requestIds (client : Int) (events : List Event) : List Int :=
  events.filterMap fun
    | .commit operation _ =>
      if operation.clientId = client then some operation.requestId else none
    | _ => none

variable {kv : KVServer} {operation : Operation} {index client : Int} {events : List Event}

@[simp] theorem setContext_database (f : OpContext → OpContext) :
    (kv.setContext index f).database = kv.database := by
  rw [setContext]
  split <;> rfl

@[simp] theorem setContext_clientSeqMap (f : OpContext → OpContext) :
    (kv.setContext index f).clientSeqMap = kv.clientSeqMap := by
  rw [setContext]
  split <;> rfl

@[simp] theorem putDatabase_clientSeqMap :
    (kv.putDatabase operation).clientSeqMap = kv.clientSeqMap := rfl

@[simp] theorem appendDatabase_clientSeqMap :
    (kv.appendDatabase operation).clientSeqMap = kv.clientSeqMap := by
  rw [appendDatabase]
  split <;> rfl

theorem applyOperation_clientSeqMap :
    (kv.applyOperation operation index).1.clientSeqMap =
      kv.clientSeqMap.insert operation.clientId operation.requestId := by
  simp only [applyOperation]
  split
  · split
    · split <;> simp
    · simp
  · simp

theorem applyOperation_database
    (skipped : ¬ ((isPut operation ∨ isAppend operation) ∧ kv.isNew operation)) :
    (kv.applyOperation operation index).1.database = kv.database := by
  simp only [applyOperation]
  split
  · rename_i write
    rw [if_neg]
    · simp
    · intro new
      refine skipped ⟨write, ?_⟩
      simpa only [isNew, setContext_clientSeqMap] using new
  · simp

theorem run_concat (e : Event) : kv.run (events ++ [e]) = (kv.run events).step e := by
  rw [run, List.foldl_append]
  rfl

theorem allWrites_concat (e : Event) :
    kv.allWrites (events ++ [e]) = kv.allWrites events ++ (kv.run events).writes e := by
  induction events generalizing kv with
  | nil => simp [allWrites, run]
  | cons first events ih => simp [allWrites, ih, run]

theorem requestIds_concat (e : Event) :
    requestIds client (events ++ [e]) = requestIds client events ++ requestIds client [e] := by
  simp [requestIds]

theorem run_clientSeqMap (events : List Event) (client : Int) :
    (empty.run events).clientSeqMap.lookup client = (requestIds client events).getLast? := by
  induction events using List.reverseRecOn with
  | nil => rfl
  | append_singleton events e ih =>
    rw [run_concat, requestIds_concat]
    cases e with
    | commit operation index =>
      rw [step, applyOperation_clientSeqMap]
      by_cases same : operation.clientId = client
      · rw [← same, AList.lookup_insert]
        simp [requestIds]
      · rw [AList.lookup_insert_ne (Ne.symm same), ih]
        simp [requestIds, same]
    | await index operation =>
      rw [show requestIds client [.await index operation] = [] from rfl, List.append_nil]
      exact ih
    | erase index =>
      rw [show requestIds client [.erase index] = [] from rfl, List.append_nil]
      exact ih

/-! ### At most once -/

def AtMostOnce (events : List Event) : Prop := (empty.allWrites events).Nodup

def SeqNeverDecreases (events : List Event) : Prop :=
  ∀ before e after, events = before ++ e :: after →
    ∀ client v, (empty.run before).clientSeqMap.lookup client = some v →
      ∃ w, ((empty.run before).step e).clientSeqMap.lookup client = some w ∧ v ≤ w

theorem SeqNeverDecreases.init {e : Event} (h : SeqNeverDecreases (events ++ [e])) :
    SeqNeverDecreases events := by
  intro before d after split
  refine h before d (after ++ [e]) ?_
  rw [split]
  simp

theorem le_getLast {ids : List Int} {v w : Int} (ordered : ids.Pairwise (· ≤ ·)) (member : v ∈ ids)
    (last : ids.getLast? = some w) : v ≤ w := by
  obtain ⟨front, rfl⟩ := List.getLast?_eq_some_iff.mp last
  rw [List.pairwise_append] at ordered
  cases List.mem_append.mp member with
  | inl inside => exact ordered.2.2 v inside w (by simp)
  | inr same => exact le_of_eq (List.mem_singleton.mp same)

theorem mem_allWrites {r : Int} (events : List Event)
    (written : (client, r) ∈ empty.allWrites events) : r ∈ requestIds client events := by
  induction events using List.reverseRecOn with
  | nil => cases written
  | append_singleton events e ih =>
    rw [allWrites_concat] at written
    rw [requestIds_concat, List.mem_append]
    cases List.mem_append.mp written with
    | inl earlier => exact .inl (ih earlier)
    | inr now =>
      cases e with
      | commit operation index =>
        rw [writes] at now
        split at now
        · obtain ⟨rfl, rfl⟩ := Prod.mk.inj (List.mem_singleton.mp now)
          exact .inr (by simp [requestIds])
        · cases now
      | await index operation => cases now
      | erase index => cases now

theorem ordered_of_seqNeverDecreases (events : List Event) (h : SeqNeverDecreases events)
    (client : Int) : (requestIds client events).Pairwise (· ≤ ·) := by
  induction events using List.reverseRecOn with
  | nil => exact List.Pairwise.nil
  | append_singleton events e ih =>
    have ordered := ih h.init
    rw [requestIds_concat]
    cases e with
    | commit operation index =>
      by_cases same : operation.clientId = client
      · have ids : requestIds client [.commit operation index] = [operation.requestId] := by
          simp [requestIds, same]
        rw [ids, List.pairwise_append]
        refine ⟨ordered, List.pairwise_singleton _ _, ?_⟩
        intro v member w new
        rw [List.mem_singleton.mp new]
        cases last : (requestIds client events).getLast? with
        | none =>
          rw [List.getLast?_eq_none_iff.mp last] at member
          cases member
        | some u =>
          have recorded := (run_clientSeqMap events client).trans last
          obtain ⟨w', now, le⟩ := h events (.commit operation index) [] rfl client u recorded
          rw [step, applyOperation_clientSeqMap, same, AList.lookup_insert] at now
          cases now
          exact (le_getLast ordered member last).trans le
      · have ids : requestIds client [.commit operation index] = [] := by
          simp [requestIds, same]
        rw [ids, List.append_nil]
        exact ordered
    | await index operation => simpa [requestIds] using ordered
    | erase index => simpa [requestIds] using ordered

theorem seqNeverDecreases_of_ordered
    (ordered : ∀ client, (requestIds client events).Pairwise (· ≤ ·)) :
    SeqNeverDecreases events := by
  intro before e after split client v recorded
  cases e with
  | commit operation index =>
    rw [step, applyOperation_clientSeqMap]
    by_cases same : client = operation.clientId
    · refine ⟨operation.requestId, by rw [same, AList.lookup_insert], ?_⟩
      have ids := ordered client
      have parts : requestIds client events =
          requestIds client before ++ operation.requestId :: requestIds client after := by
        rw [split]
        simp [requestIds, same]
      rw [parts, List.pairwise_append] at ids
      rw [run_clientSeqMap] at recorded
      exact ids.2.2 v (List.mem_of_getLast? recorded) operation.requestId (by simp)
    · exact ⟨v, by rw [AList.lookup_insert_ne same, recorded], le_refl v⟩
  | await index operation => exact ⟨v, recorded, le_refl v⟩
  | erase index => exact ⟨v, recorded, le_refl v⟩

theorem atMostOnce_of_ordered (events : List Event)
    (ordered : ∀ client, (requestIds client events).Pairwise (· ≤ ·)) : AtMostOnce events := by
  induction events using List.reverseRecOn with
  | nil => exact List.nodup_nil
  | append_singleton events e ih =>
    have earlier : ∀ client, (requestIds client events).Pairwise (· ≤ ·) := by
      intro client
      have h := ordered client
      rw [requestIds_concat, List.pairwise_append] at h
      exact h.1
    rw [AtMostOnce, allWrites_concat]
    cases e with
    | commit operation index =>
      rw [writes]
      split
      · rename_i executed
        rw [List.nodup_append]
        refine ⟨ih earlier, List.nodup_singleton _, ?_⟩
        intro p member q new
        rintro rfl
        rw [List.mem_singleton.mp new] at member
        -- the id is recorded or exceeded, so the test fails
        have asked := mem_allWrites events member
        have new := executed.2
        rw [isNew, run_clientSeqMap] at new
        cases last : (requestIds operation.clientId events).getLast? with
        | none =>
          rw [List.getLast?_eq_none_iff.mp last] at asked
          cases asked
        | some u =>
          have le := le_getLast (earlier operation.clientId) asked last
          simp only [last, decide_eq_true_eq] at new
          omega
      · rw [List.append_nil]
        exact ih earlier
    | await index operation =>
      rw [show (empty.run events).writes (.await index operation) = [] from rfl, List.append_nil]
      exact ih earlier
    | erase index =>
      rw [show (empty.run events).writes (.erase index) = [] from rfl, List.append_nil]
      exact ih earlier

/-- Every write is executed at most once and no recorded id falls, exactly on the logs in
which the request ids of each client never fall. -/
theorem at_most_once_iff_ids_ordered (events : List Event) :
    AtMostOnce events ∧ SeqNeverDecreases events ↔
      ∀ client, (requestIds client events).Pairwise (· ≤ ·) := by
  constructor
  · rintro ⟨-, never⟩ client
    exact ordered_of_seqNeverDecreases events never client
  · intro ordered
    exact ⟨atMostOnce_of_ordered events ordered, seqNeverDecreases_of_ordered ordered⟩

def retriedAppends : List Event :=
  [.commit ⟨['a', 'p', 'p', 'e', 'n', 'd'], ['k'], ['a'], 7, 1, 1⟩ 1,
    .commit ⟨['a', 'p', 'p', 'e', 'n', 'd'], ['k'], ['b'], 7, 2, 1⟩ 2,
    .commit ⟨['a', 'p', 'p', 'e', 'n', 'd'], ['k'], ['a'], 7, 1, 1⟩ 3,
    .commit ⟨['a', 'p', 'p', 'e', 'n', 'd'], ['k'], ['b'], 7, 2, 1⟩ 4]

theorem retried_append_runs_twice :
    (empty.run retriedAppends).database.lookup ['k'] = some ['a', 'b', 'b'] ∧
      ¬ ∀ events, AtMostOnce events ∧ SeqNeverDecreases events := by
  refine ⟨by decide, fun once => ?_⟩
  exact absurd (once retriedAppends).1 (by unfold AtMostOnce; decide)

end KVServer

end ProjectsCpp.KvRaft
