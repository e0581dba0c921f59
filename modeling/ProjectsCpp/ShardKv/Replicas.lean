import ProjectsCpp.ShardKv.Server

/-! Replicas of one group. Every replica applies the same commands, and only the contexts of
waiting requests differ from one to the other. `applyCommand` is the command without them;
`applyLoop` carries it out, except that the wrong-group branch needs a context. -/

namespace ProjectsCpp.Sharding
open ProjectsCpp.Text

namespace ShardKv
variable {kv s t : ShardKv} {operation : Operation} {index : Int}

def forget (kv : ShardKv) : ShardKv := { kv with requestMap := ∅ }

@[simp] theorem forget_setContext (kv : ShardKv) (index : Int) (f : OpContext → OpContext) :
    (kv.setContext index f).forget = kv.forget := by
  obtain ⟨contexts, same, -⟩ := kv.setContext_contexts index f
  rw [same]
  rfl

def numbered (kv : ShardKv) (operation : Operation) (index : Int) : ShardKv :=
  { kv with
    lastAppliedIndex := index
    clientSeqMap := kv.clientSeqMap.insert operation.clientId operation.requestId }

theorem record_eq (kv : ShardKv) (operation : Operation) (index : Int) :
    ∃ contexts, kv.record operation index = { kv.numbered operation index with
      requestMap := contexts } ∧ (index ∈ contexts ↔ index ∈ kv.requestMap) := by
  rw [record, setContext]
  cases found : ({ kv with lastAppliedIndex := index } : ShardKv).requestMap.lookup index with
  | none => exact ⟨_, rfl, Iff.rfl⟩
  | some c =>
    have there : index ∈ kv.requestMap := AList.lookup_isSome.mp (by rw [found]; rfl)
    exact ⟨_, rfl, by simp [there]⟩

@[simp] theorem forget_clearToOutData (kv : ShardKv) (cfgNum shard : Int) :
    (kv.clearToOutData cfgNum shard).forget = kv.forget.clearToOutData cfgNum shard := by
  rw [clearToOutData, clearToOutData]
  cases found : kv.toOutShards.lookup cfgNum with
  | none => simp only [forget, found]
  | some byShard => simp only [forget, found]

theorem forget_update (kv : ShardKv) (config : Config) :
    (kv.updateComeInAndOutShrads config).forget = kv.forget.updateComeInAndOutShrads config := by
  rw [updateComeInAndOutShrads, updateComeInAndOutShrads]
  by_cases old : config.configNum ≤ kv.config.configNum
  · rw [if_pos old, if_pos (show config.configNum ≤ kv.forget.config.configNum from old)]
  · rw [if_neg old, if_neg (show ¬ config.configNum ≤ kv.forget.config.configNum from old)]
    rfl

theorem forget_updateDataBase (kv : ShardKv) (reply : MigrateReply) :
    (kv.updateDataBaseWithMigrateReply reply).forget =
      kv.forget.updateDataBaseWithMigrateReply reply := by
  rw [updateDataBaseWithMigrateReply, updateDataBaseWithMigrateReply]
  by_cases late : reply.configNum ≠ kv.config.configNum - 1
  · rw [if_pos late, if_pos (show reply.configNum ≠ kv.forget.config.configNum - 1 from late)]
  · rw [if_neg late, if_neg (show ¬ reply.configNum ≠ kv.forget.config.configNum - 1 from late)]
    by_cases there : reply.shard ∈ kv.availableShards
    · simp only [forget, there, if_true]
    · simp only [forget, there, if_false]

/-! ### One command -/

def Readable (operation : Operation) : Prop :=
  match operation.op with
  | .UC => (getConfig operation.value).isSome
  | .UD => (str2MigrateReply operation.value).isSome
  | .GC => (stoi operation.key).isSome
  | _ => True

instance : Decidable (Readable operation) := by
  unfold Readable
  rcases operation.op <;> infer_instance

def Refused (kv : ShardKv) (operation : Operation) : Prop :=
  (operation.op = .get ∨ operation.op = .put ∨ operation.op = .append) ∧
    key2shard operation.key ∉ kv.availableShards

instance : Decidable (kv.Refused operation) := by
  unfold Refused
  infer_instance

def applyCommand (kv : ShardKv) (operation : Operation) (index : Int) : Option ShardKv :=
  match operation.op with
  | .UC => (getConfig operation.value).map kv.updateComeInAndOutShrads
  | .UD => (str2MigrateReply operation.value).map kv.updateDataBaseWithMigrateReply
  | .GC => (stoi operation.key).map fun cfgNum =>
      (kv.numbered operation index).clearToOutData cfgNum operation.requestId
  | _ => some (if kv.executes operation then
      (kv.numbered operation index).putAppendDatabase operation else kv.numbered operation index)

theorem applyCommand_isSome (kv : ShardKv) (operation : Operation) (index : Int) :
    (kv.applyCommand operation index).isSome ↔ Readable operation := by
  rw [applyCommand, Readable]
  split <;> simp

theorem forget_getPutAppend
    (data : operation.op = .get ∨ operation.op = .put ∨ operation.op = .append) :
    ((kv.record operation index).getPutAppendOnDataBase operation index
        (kv.isNew operation)).map forget =
      if kv.Refused operation ∧ index ∉ kv.requestMap then none
      else some (if kv.executes operation then
        (kv.numbered operation index).putAppendDatabase operation
        else kv.numbered operation index).forget := by
  obtain ⟨contexts, recorded, waits⟩ := kv.record_eq operation index
  have available : (kv.record operation index).availableShards = kv.availableShards :=
    (kv.record_recorded operation index).availableShards
  by_cases here : key2shard operation.key ∈ kv.availableShards
  · have served : ¬ (kv.Refused operation ∧ index ∉ kv.requestMap) := fun h => h.1.2 here
    rw [if_neg served, getPutAppendOnDataBase, available, if_neg (not_not.mpr here)]
    by_cases write : operation.op = .put ∨ operation.op = .append
    · rw [if_pos write]
      by_cases new : kv.isNew operation
      · have runs : kv.executes operation := by simp [executes, write, here, new]
        rw [if_pos new, if_pos runs, Option.map_some, recorded]
        rfl
      · have runs : ¬ kv.executes operation := by simp [executes, new]
        rw [if_neg new, if_neg runs, Option.map_some, forget_setContext, recorded]
        rfl
    · have runs : ¬ kv.executes operation := by simp [executes, write]
      rw [if_neg write, if_neg runs, Option.map_some, forget_setContext, recorded]
      rfl
  · have runs : ¬ kv.executes operation := by simp [executes, here]
    rw [getPutAppendOnDataBase, available, if_pos here, if_neg runs, recorded]
    by_cases waiting : index ∈ kv.requestMap
    · rw [if_pos (waits.mpr waiting), if_neg (fun h => h.2 waiting), Option.map_some,
        forget_setContext]
      rfl
    · rw [if_neg (fun h => waiting (waits.mp h)), if_pos ⟨⟨data, here⟩, waiting⟩]
      rfl

theorem not_refused
    (other : ¬ (operation.op = .get ∨ operation.op = .put ∨ operation.op = .append)) :
    ¬ (kv.Refused operation ∧ index ∉ kv.requestMap) := fun h => other h.1.1

theorem applyLoop_forget (kv : ShardKv) (operation : Operation) (index : Int) :
    (kv.applyLoop operation index).map forget =
      if kv.Refused operation ∧ index ∉ kv.requestMap then none
      else (kv.applyCommand operation index).map forget := by
  have data : (operation.op = .get ∨ operation.op = .put ∨ operation.op = .append) →
      (((kv.record operation index).getPutAppendOnDataBase operation index
        (kv.isNew operation)).map fun s => s.signal index).map forget =
      if kv.Refused operation ∧ index ∉ kv.requestMap then none
      else some (if kv.executes operation then
        (kv.numbered operation index).putAppendDatabase operation
        else kv.numbered operation index).forget := by
    intro data
    rw [← forget_getPutAppend data, Option.map_map]
    congr 1
    funext s
    exact forget_setContext s index _
  rw [applyLoop, applyCommand]
  cases op : operation.op with
  | UC => rw [if_neg (not_refused (by simp [op]))]
  | UD => rw [if_neg (not_refused (by simp [op]))]
  | GC =>
    obtain ⟨contexts, recorded, -⟩ := kv.record_eq operation index
    rw [if_neg (not_refused (by simp [op])), Option.map_map, Option.map_map]
    congr 1
    funext cfgNum
    simp only [Function.comp_apply, signal, forget_setContext, recorded, forget_clearToOutData]
    rfl
  | get => exact data (.inl op)
  | put => exact data (.inr (.inl op))
  | append => exact data (.inr (.inr op))

theorem applyCommand_forget :
    (kv.applyCommand operation index).map forget = kv.forget.applyCommand operation index := by
  have data : some (if kv.executes operation then
        (kv.numbered operation index).putAppendDatabase operation
        else kv.numbered operation index).forget =
      some (if kv.forget.executes operation then
        (kv.forget.numbered operation index).putAppendDatabase operation
        else kv.forget.numbered operation index) := by
    have same : kv.forget.executes operation = kv.executes operation := rfl
    rw [same]
    split <;> rfl
  rw [applyCommand, applyCommand]
  cases op : operation.op with
  | UC =>
    simp only [Option.map_map]
    congr 1
    funext config
    exact kv.forget_update config
  | UD =>
    simp only [Option.map_map]
    congr 1
    funext reply
    exact kv.forget_updateDataBase reply
  | GC =>
    simp only [Option.map_map]
    congr 1
    funext cfgNum
    exact forget_clearToOutData _ _ _
  | get => exact data
  | put => exact data
  | append => exact data

/-! ### Two replicas -/

/-- The command is carried out at both replicas and leaves them with the same shared state. -/
def AppliesAlike (s t : ShardKv) (operation : Operation) (index : Int) : Prop :=
  ∃ s' t', s.applyLoop operation index = some s' ∧ t.applyLoop operation index = some t' ∧
    s'.forget = t'.forget

def Served (s : ShardKv) (operation : Operation) (index : Int)
    (here there : AList fun _ : Int => OpContext) : Prop :=
  Readable operation ∧ (s.Refused operation → index ∈ here ∧ index ∈ there)

theorem applyLoop_of_served (readable : Readable operation)
    (served : s.Refused operation → index ∈ s.requestMap) :
    ∃ s', s.applyLoop operation index = some s' ∧
      s.forget.applyCommand operation index = some s'.forget := by
  have applied := applyLoop_forget s operation index
  rw [if_neg (fun h => h.2 (served h.1)), applyCommand_forget] at applied
  obtain ⟨u, command⟩ := Option.isSome_iff_exists.mp
    ((applyCommand_isSome s.forget operation index).mpr readable)
  rw [command] at applied
  obtain ⟨s', ran, same⟩ := Option.map_eq_some_iff.mp applied
  exact ⟨s', ran, by rw [command, same]⟩

theorem served_of_applyLoop {s' : ShardKv} (ran : s.applyLoop operation index = some s') :
    Readable operation ∧ (s.Refused operation → index ∈ s.requestMap) := by
  have applied := applyLoop_forget s operation index
  rw [ran, Option.map_some] at applied
  split at applied
  · cases applied
  · rename_i served
    refine ⟨?_, fun refused => not_not.mp fun none => served ⟨refused, none⟩⟩
    rw [← applyCommand_isSome s operation index, ← Option.isSome_map, ← applied]
    rfl

theorem applyCommand_of_applyLoop {s' : ShardKv} (ran : s.applyLoop operation index = some s') :
    ∃ u, s.applyCommand operation index = some u ∧ s'.forget = u.forget := by
  have applied := applyLoop_forget s operation index
  rw [ran, if_neg (fun h => h.2 ((served_of_applyLoop ran).2 h.1)), Option.map_some] at applied
  obtain ⟨u, command, same⟩ := Option.map_eq_some_iff.mp applied.symm
  exact ⟨u, command, same.symm⟩

theorem refused_congr (alike : s.forget = t.forget) : s.Refused operation ↔ t.Refused operation := by
  have same := congrArg ShardKv.availableShards alike
  change s.availableShards = t.availableShards at same
  rw [Refused, Refused, same]

theorem served_of_both {s' t' : ShardKv} (alike : s.forget = t.forget)
    (here : s.applyLoop operation index = some s') (there : t.applyLoop operation index = some t') :
    s.Served operation index s.requestMap t.requestMap := by
  obtain ⟨readable, mine⟩ := served_of_applyLoop here
  obtain ⟨-, yours⟩ := served_of_applyLoop there
  exact ⟨readable, fun refused => ⟨mine refused, yours ((refused_congr alike).mp refused)⟩⟩

theorem Served.both (served : s.Served operation index s.requestMap t.requestMap)
    (alike : s.forget = t.forget) :
    ∃ s' t', s.applyLoop operation index = some s' ∧ t.applyLoop operation index = some t' ∧
      s'.forget = t'.forget ∧ s.forget.applyCommand operation index = some s'.forget := by
  obtain ⟨readable, waits⟩ := served
  have yours : t.Refused operation → index ∈ t.requestMap :=
    fun refused => (waits ((refused_congr alike).mpr refused)).2
  obtain ⟨s', here, command⟩ := applyLoop_of_served readable fun refused => (waits refused).1
  obtain ⟨t', there, command'⟩ := applyLoop_of_served readable yours
  have same := command
  rw [alike, command'] at same
  exact ⟨s', t', here, there, (Option.some.inj same).symm, command⟩

theorem appliesAlike_iff (operation : Operation) (index : Int) (alike : s.forget = t.forget) :
    AppliesAlike s t operation index ↔
      s.Served operation index s.requestMap t.requestMap := by
  constructor
  · rintro ⟨s', t', here, there, -⟩
    exact served_of_both alike here there
  · intro served
    obtain ⟨s', t', here, there, same, -⟩ := served.both alike
    exact ⟨s', t', here, there, same⟩

/-- A log applied at one replica, whose request handlers have left `contexts n` in
`m_requestMap` when the command at position `n` arrives. -/
def applyLog (contexts : Nat → AList fun _ : Int => OpContext) (kv : ShardKv) :
    List (Operation × Int) → Option ShardKv
  | [] => some kv
  | (operation, index) :: log =>
    ({ kv with requestMap := contexts 0 }.applyLoop operation index).bind fun s =>
      applyLog (fun n => contexts (n + 1)) s log

def AllServed (here there : Nat → AList fun _ : Int => OpContext) (kv : ShardKv) :
    List (Operation × Int) → Prop
  | [] => True
  | (operation, index) :: log =>
    kv.Served operation index (here 0) (there 0) ∧ ∀ s, kv.applyCommand operation index = some s →
      AllServed (fun n => here (n + 1)) (fun n => there (n + 1)) s log

theorem applyLog_alike_iff {here there : Nat → AList fun _ : Int => OpContext}
    (log : List (Operation × Int)) (alike : s.forget = t.forget) :
    (∃ s' t', s.applyLog here log = some s' ∧ t.applyLog there log = some t' ∧
        s'.forget = t'.forget) ↔ AllServed here there s.forget log := by
  induction log generalizing s t here there with
  | nil => exact ⟨fun _ => trivial, fun _ => ⟨s, t, rfl, rfl, alike⟩⟩
  | cons command log ih =>
    obtain ⟨operation, index⟩ := command
    have alike' : ({ s with requestMap := here 0 } : ShardKv).forget =
        ({ t with requestMap := there 0 } : ShardKv).forget := alike
    constructor
    · rintro ⟨s', t', mine, yours, same⟩
      obtain ⟨u, first, rest⟩ := Option.bind_eq_some_iff.mp mine
      obtain ⟨w, first', rest'⟩ := Option.bind_eq_some_iff.mp yours
      have served := served_of_both alike' first first'
      obtain ⟨u', w', again, again', equal, command⟩ := served.both alike'
      cases first.symm.trans again
      cases first'.symm.trans again'
      refine ⟨served, fun v next => ?_⟩
      cases command.symm.trans next
      exact (ih equal).mp ⟨s', t', rest, rest', same⟩
    · rintro ⟨served, later⟩
      obtain ⟨u, w, first, first', equal, command⟩ :=
        Served.both (s := { s with requestMap := here 0 }) (t := { t with requestMap := there 0 })
          served alike'
      obtain ⟨s', t', rest, rest', same⟩ := (ih equal).mpr (later u.forget command)
      exact ⟨s', t', Option.bind_eq_some_iff.mpr ⟨u, first, rest⟩,
        Option.bind_eq_some_iff.mpr ⟨w, first', rest'⟩, same⟩

def takingOver : ShardKv :=
  ((start 1).updateComeInAndOutShrads ⟨1, List.replicate NShards 2, ∅⟩).updateComeInAndOutShrads
    ⟨2, List.replicate NShards 1, ∅⟩

def firstWrite : Operation := ⟨.put, ['a'], ['v'], 7, 0, 1⟩

/-- A replica where a request waits at `index`. -/
def awaiting (kv : ShardKv) (index : Int) : ShardKv :=
  { kv with requestMap := AList.singleton index (.ofTerm 1) }

def takenOver : ShardKv := { takingOver with availableShards := [0] }

end ShardKv
end ProjectsCpp.Sharding
