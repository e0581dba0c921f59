import ProjectsCpp.MapReduce.Job
import Mathlib.Data.Finset.Card
import Mathlib.Data.Finset.Dedup

/-! The output of a whole run. A task that only one worker ever works on is written once, however
often it was handed out; a task that two of them work on is written twice, and every file is
appended to. -/

namespace ProjectsCpp.MapReduce
open ProjectsCpp.Text ProjectsCpp.Tally ProjectsCpp.Run ProjectsCpp.TaskBoard ProjectsCpp.Crew

/-! ### The files -/

theorem bytesOf_erase_ne (dir : Directory) {path file : Str} (other : file ≠ path) :
    bytesOf (dir.erase path) file = bytesOf dir file := by
  rw [bytesOf, AList.lookup_erase_ne other, bytesOf]

theorem bytesOf_removeFiles (mapNum reduceNum : Nat) (dir : Directory) {file : Str}
    (other : ∀ i, ∀ r < reduceNum, file ≠ mapPath i r) :
    bytesOf (removeFiles mapNum reduceNum dir) file = bytesOf dir file := by
  have inner (i : Nat) (rs : List Nat) (inside : ∀ r ∈ rs, r < reduceNum) (dir : Directory) :
      bytesOf (rs.foldl (fun dir (r : Nat) => dir.erase (mapPath i r)) dir) file =
        bytesOf dir file := by
    induction rs generalizing dir with
    | nil => rfl
    | cons r rs ih =>
      rw [List.foldl_cons, ih (fun r member => inside r (List.mem_cons_of_mem _ member)),
        bytesOf_erase_ne _ (other i r (inside r List.mem_cons_self))]
  have outer (is_ : List Nat) (dir : Directory) :
      bytesOf (is_.foldl (fun dir i =>
        (List.range reduceNum).foldl (fun dir (r : Nat) => dir.erase (mapPath i r)) dir) dir) file =
        bytesOf dir file := by
    induction is_ generalizing dir with
    | nil => rfl
    | cons i is_ ih =>
      rw [List.foldl_cons, ih, inner i _ fun r => List.mem_range.mp]
  exact outer _ dir

theorem mapPath_ne_outPath (idx : Nat) (k : Int) (r : Nat) : mapPath idx k ≠ outPath r := by
  intro same
  have tail : decimal idx ++ '-' :: decimal k = 'o' :: ("ut".toList ++ '-' :: decimal r) :=
    (List.cons.inj (List.cons.inj (List.cons.inj same).2).2).2
  match digits : decimal idx with
  | [] => exact decimal_ne_nil idx digits
  | c :: cs =>
    rw [digits] at tail
    have member : 'o' ∈ decimal idx := by
      rw [digits, ← (List.cons.inj tail).1]
      exact List.mem_cons_self
    exact absurd (isDigit_of_mem_toDigits (n := idx) member) (by decide)

/-- The words so far: each lies, ended, in a file of the task that its hash names. -/
structure Stored (reduceNum : Nat) (dir : Directory) (words : List Str) : Prop where
  whole : ∀ r < reduceNum, ∀ file, isFileOf r file = true → Whole dir file
  gathered : ∀ r < reduceNum, (stored dir r).Perm
    ((words.filter fun w => (ihash reduceNum w).natAbs = r).map pieceOf)

variable {reduceNum : Nat} {dir : Directory} {words : List Str}

theorem Stored.start (apart : ∀ file ∈ dir, ∀ r < reduceNum, isFileOf r file = false) :
    Stored reduceNum dir [] where
  whole r small file its := by
    refine whole_of_notMem fun there => ?_
    rw [apart _ there _ small] at its
    cases its
  gathered r small := by
    have none : getAllfile dir r = [] := by
      rw [getAllfile, List.filter_eq_nil_iff]
      intro file member
      rw [apart file (AList.mem_keys.mp member) r small]
      exact Bool.false_ne_true
    rw [stored, none]
    exact .refl _

theorem Stored.congr {words' : List Str} (holds : Stored reduceNum dir words)
    (perm : words.Perm words') : Stored reduceNum dir words' where
  whole := holds.whole
  gathered r small := (holds.gathered r small).trans ((perm.filter _).map _)

theorem Stored.writeKV (holds : Stored reduceNum dir words) (positive : 0 < reduceNum) (idx : Nat)
    {kv : KeyValue} (word : Word kv.key) :
    Stored reduceNum (writeKV reduceNum idx dir kv) (kv.key :: words) := by
  have old := holds.whole _ (natAbs_ihash_lt positive kv.key) _
    ((isFileOf_mapPath _ idx (ihash reduceNum kv.key)).mpr rfl)
  exact ⟨fun r small file its => whole_writeKV word old (holds.whole r small file its),
    fun r small => stored_writeKV word old (holds.gathered r small)⟩

/-! ### What is known of the tasks -/

def wordsOf (dir : Directory) (file : Str) : List Str := letterRuns (bytesOf dir file)

theorem word_of_mem_wordsOf {file w : Str} (member : w ∈ wordsOf dir file) : Word w := by
  rw [wordsOf, ← splitWords_eq] at member
  exact word_of_mem_splitWords member

/-- `part` has the words of each file that are written. -/
def mapProgress (dir : Directory) (part : Str → List Str) : Progress Str MapWork where
  untouched file := part file = []
  underway file
    | .reading => part file = []
    | .writing kvs => (∀ kv ∈ kvs, Word kv.key) ∧
      (part file ++ kvs.map KeyValue.key).Perm (wordsOf dir file)
  complete file := (part file).Perm (wordsOf dir file)

def classOf (reduceNum : Nat) (all : List Str) (r : Nat) : List Str :=
  all.filter fun w => (ihash reduceNum w).natAbs = r

def countsOf (reduceNum : Nat) (all : List Str) (r : Nat) : List (Str × Str) :=
  (tally (classOf reduceNum all r)).map fun p => (p.1, decimal p.2)

section Reduce
variable (reduceNum : Nat) (all : List Str) (running : Prop) (dir : Directory)

/-- What a reducer has done so far. -/
def Reduced (r : Nat) : ReduceWork → Prop
  | .listing => bytesOf dir (outPath r) = [] ∧ (∀ file, isFileOf r file = true → Whole dir file) ∧
    (stored dir r).Perm ((classOf reduceNum all r).map pieceOf)
  | .reading files str => bytesOf dir (outPath r) = [] ∧
    (∀ file ∈ files, isFileOf r file = true ∧ Whole dir file) ∧
    (str ++ files.flatMap fun file => pieces ' ' (bytesOf dir file)).Perm
      ((classOf reduceNum all r).map pieceOf)
  | .writing texts => ∃ pairs, pairs.Perm (countsOf reduceNum all r) ∧
    bytesOf dir (outPath r) ++ texts.flatten = outputText pairs

def reduceProgress : Progress Int ReduceWork where
  untouched r := bytesOf dir (outPath r.toNat) = [] ∧
    (running → (∀ file, isFileOf r.toNat file = true → Whole dir file) ∧
      (stored dir r.toNat).Perm ((classOf reduceNum all r.toNat).map pieceOf))
  underway r work := running ∧ Reduced reduceNum all dir r.toNat work
  complete r := ∃ pairs, pairs.Perm (countsOf reduceNum all r.toNat) ∧
    bytesOf dir (outPath r.toNat) = outputText pairs

end Reduce

variable {all : List Str} {running : Prop} {path bytes : Str} {r : Nat} {task : Int}

theorem Whole.append {file : Str} (whole : Whole dir file) (apart : file ≠ path) :
    Whole (appendFile dir path bytes) file := by
  rw [Whole, bytesOf_appendFile_ne dir bytes apart]
  exact whole

theorem Reduced.append {work : ReduceWork} (reduced : Reduced reduceNum all dir r work)
    (other : isFileOf r path = false) :
    Reduced reduceNum all (appendFile dir path bytes) r work := by
  have apart {file : Str} (its : isFileOf r file = true) : file ≠ path := ne_of_isFileOf other its
  have out := bytesOf_appendFile_ne dir bytes (apart ((isFileOf_outPath r r).mpr rfl))
  cases work with
  | listing =>
    obtain ⟨empty, whole, perm⟩ := reduced
    refine ⟨out.trans empty, fun file its => (whole file its).append (apart its), ?_⟩
    rw [stored_appendFile_other dir bytes other]
    exact perm
  | reading files str =>
    obtain ⟨empty, files_, perm⟩ := reduced
    refine ⟨out.trans empty,
      fun file member => (files_ file member).imp_right (·.append (apart (files_ file member).1)),
      .trans (.of_eq ?_) perm⟩
    congr 1
    refine List.flatMap_congr fun file member => ?_
    rw [bytesOf_appendFile_ne dir bytes (apart (files_ file member).1)]
  | writing texts =>
    obtain ⟨pairs, perm, written⟩ := reduced
    exact ⟨pairs, perm, by rw [out, written]⟩

theorem stays_append (other : isFileOf task.toNat path = false) :
    (reduceProgress reduceNum all running dir).Stays
      (reduceProgress reduceNum all running (appendFile dir path bytes)) task := by
  have out : bytesOf (appendFile dir path bytes) (outPath task.toNat) =
      bytesOf dir (outPath task.toNat) := by
    refine bytesOf_appendFile_ne dir bytes fun same => ?_
    rw [← same, (isFileOf_outPath _ _).mpr rfl] at other
    cases other
  refine ⟨fun ⟨empty, gathered⟩ => ?_, fun work ⟨on_, reduced⟩ => ⟨on_, reduced.append other⟩,
    fun ⟨pairs, perm, written⟩ => ⟨pairs, perm, out.trans written⟩⟩
  refine ⟨out.trans empty, fun on_ => ?_⟩
  obtain ⟨whole, perm⟩ := gathered on_
  rw [stored_appendFile_other dir bytes other]
  exact ⟨fun file its => (whole file its).append (ne_of_isFileOf other its), perm⟩

theorem stays_before {dir' : Directory} (before : ¬ running)
    (out : bytesOf dir' (outPath task.toNat) = bytesOf dir (outPath task.toNat)) :
    (reduceProgress reduceNum all running dir).Stays
      (reduceProgress reduceNum all running dir') task :=
  ⟨fun ⟨empty, _⟩ => ⟨out.trans empty, fun on_ => absurd on_ before⟩,
    fun _ ⟨on_, _⟩ => absurd on_ before,
    fun ⟨pairs, perm, written⟩ => ⟨pairs, perm, out.trans written⟩⟩

theorem flatten_outputWrites (pairs : List (Str × Str)) :
    (outputWrites pairs).flatten = outputText pairs := by
  induction pairs with
  | nil => rfl
  | cons pair pairs ih =>
    rw [outputText] at ih ⊢
    rw [outputWrites, List.flatMap_cons, List.flatten_append, ← outputWrites, ih, List.flatMap_cons]
    simp

theorem Reduced.opened {str : List Str} (clean : ∀ w ∈ all, Word w)
    (reduced : Reduced reduceNum all dir r (.reading [] str)) :
    Reduced reduceNum all (appendFile dir (outPath r) []) r
      (.writing (outputWrites (pairsOf str))) := by
  obtain ⟨empty, -, perm⟩ := reduced
  rw [List.flatMap_nil, List.append_nil] at perm
  refine ⟨pairsOf str, ?_, ?_⟩
  · have inside : ∀ w ∈ classOf reduceNum all r, Word w :=
      fun w member => clean w (List.mem_of_mem_filter member)
    have counted := pairsOf_perm perm
    rwa [splitComma_pieces inside] at counted
  · rw [bytesOf_appendFile, empty, flatten_outputWrites]
    rfl

theorem Reduced.wrote {text : Str} {texts : List Str}
    (reduced : Reduced reduceNum all dir r (.writing (text :: texts))) :
    Reduced reduceNum all (appendFile dir (outPath r) text) r (.writing texts) := by
  obtain ⟨pairs, perm, written⟩ := reduced
  refine ⟨pairs, perm, ?_⟩
  rw [bytesOf_appendFile, List.append_assoc]
  exact written

theorem Reduced.read {file behind : Str} {files str : List Str}
    (reduced : Reduced reduceNum all dir r (.reading (file :: files) str))
    (none : pieces ' ' (cString behind) = []) :
    Reduced reduceNum all dir r
      (.reading files (str ++ pieces ' ' (getContent dir behind file).value)) := by
  obtain ⟨empty, its, perm⟩ := reduced
  refine ⟨empty, fun file member => its file (List.mem_cons_of_mem _ member), ?_⟩
  rw [pieces_getContent (its file List.mem_cons_self).2, none, List.append_nil, List.append_assoc]
  exact perm

theorem Reduced.listed (reduced : Reduced reduceNum all dir r .listing) :
    Reduced reduceNum all dir r (.reading (getAllfile dir r) []) := by
  obtain ⟨empty, whole, perm⟩ := reduced
  refine ⟨empty, fun file member => ?_, perm⟩
  have its := (List.mem_filter.mp member).2
  exact ⟨its, whole file its⟩

/-! ### The master -/

namespace Master
variable {m m' : Master} {event : MasterEvent} {files : List Str}

/-- A step that is no report of a worker. -/
structure Same (m m' : Master) : Prop where
  fileNum : m'.fileNum = m.fileNum
  reduceNum : m'.reduceNum = m.reduceNum
  map : m'.map.finished = m.map.finished
  reduce : m'.reduce.finished = m.reduce.finished

theorem Same.isMapDone (same : m.Same m') (mapDone : m.isMapDone) : m'.isMapDone := by
  rw [Master.isMapDone, same.map, same.fileNum]
  exact mapDone

theorem step_same (next : m.step event = some m') (noFile : ∀ file, event ≠ .setMapStat file)
    (noTask : ∀ r, event ≠ .setReduceStat r) : m.Same m' := by
  cases event with
  | setMapStat file => exact absurd rfl (noFile file)
  | setReduceStat r => exact absurd rfl (noTask r)
  | waitMap =>
    obtain ⟨b, served, rfl⟩ := Option.map_eq_some_iff.mp next
    exact ⟨rfl, rfl, Board.serve_finished served, rfl⟩
  | waitReduce =>
    obtain ⟨b, served, rfl⟩ := Option.map_eq_some_iff.mp next
    exact ⟨rfl, rfl, rfl, Board.serve_finished served⟩
  | waitMapTask =>
    obtain ⟨b, fired, rfl⟩ := Option.map_eq_some_iff.mp next
    obtain ⟨task, -, -, rfl⟩ := Board.fire_cases fired
    exact ⟨rfl, rfl, rfl, rfl⟩
  | waitReduceTask =>
    obtain ⟨b, fired, rfl⟩ := Option.map_eq_some_iff.mp next
    obtain ⟨task, -, -, rfl⟩ := Board.fire_cases fired
    exact ⟨rfl, rfl, rfl, rfl⟩
  | assignTask =>
    obtain ⟨-, ⟨⟩⟩ := Option.ite_none_right_eq_some.mp next
    rw [assignTask]
    split <;> exact ⟨rfl, rfl, rfl, rfl⟩
  | assignReduceTask =>
    obtain ⟨-, ⟨⟩⟩ := Option.ite_none_right_eq_some.mp next
    rw [assignReduceTask]
    split <;> exact ⟨rfl, rfl, rfl, rfl⟩

/-- The boards hand out files of the input and numbers of reduce tasks only. -/
structure Within (reduceNum : Nat) (files : List Str) (m : Master) : Prop where
  map : m.map.Among mapHandles files
  reduce : m.reduce.Among reduceHandles (reduceNumbers reduceNum)

theorem mapHandles_honest : mapHandles.Honest := by
  intro capacity capacity' task read its
  obtain ⟨-, same⟩ := Option.ite_none_right_eq_some.mp its
  exact (Option.some.inj same).symm

theorem reduceHandles_honest : reduceHandles.Honest :=
  fun _ _ _ _ its => (Option.some.inj its).symm

theorem Within.step (within : m.Within reduceNum files) (next : m.step event = some m') :
    m'.Within reduceNum files where
  map := by
    rcases map_step next with ⟨-, served⟩ | aside
    · exact within.map.serve served
    · exact within.map.aside mapHandles_honest aside
  reduce := by
    rcases reduce_step next with served | aside
    · exact within.reduce.serve served
    · exact within.reduce.aside reduceHandles_honest aside

end Master

/-! ### The invariant -/

namespace Job
variable {mapNum reduceNum : Nat} {files : List Str} {dir : Directory} {j j' : Job mapNum reduceNum}
  {event : JobEvent mapNum reduceNum}

/-- `dir` is what the run started with. Once the reducers run, every file is mapped. -/
structure Kept (files : List Str) (dir : Directory) (j : Job mapNum reduceNum) : Prop where
  positive : 0 < reduceNum
  within : j.master.Within reduceNum files
  fileNum : j.master.fileNum = files.length
  taskNum : j.master.reduceNum = reduceNum
  inputs : ∀ file ∈ files, bytesOf j.dir file = bytesOf dir file
  phase : j.main = .running → j.master.isMapDone
  map : ∃ part, Crew.Kept files j.master.map.finished (mapProgress dir part) j.mappers ∧
    (j.main ≠ .running → Stored reduceNum j.dir (files.dedup.flatMap part))
  reduce : Crew.Kept (Master.reduceNumbers reduceNum) j.master.reduce.finished
    (reduceProgress reduceNum (files.flatMap (wordsOf dir)) (j.main = .running) j.dir) j.reducers
  mapCaller : ∀ i, j.mapCaller = some i → j.mappers i = .calling
  reduceCaller : ∀ i, j.reduceCaller = some i → j.reducers i = .calling

theorem Kept.mapped (kept : j.Kept files dir) (mapDone : j.master.isMapDone) :
    files.Nodup ∧ ∀ file ∈ files, file ∈ j.master.map.finished := by
  obtain ⟨part, crew, -⟩ := kept.map
  exact crew.all_finished (mapDone.trans kept.fileNum)

theorem Kept.reduced (kept : j.Kept files dir) (done : j.master.done) :
    ∀ r ∈ Master.reduceNumbers reduceNum, r ∈ j.master.reduce.finished := by
  refine (kept.reduce.all_finished ?_).2
  rw [Master.reduceNumbers, List.length_map, List.length_range]
  exact (show _ = _ from done).trans kept.taskNum

theorem Kept.before (kept : j.Kept files dir) {i : Fin mapNum} {file : Str} {work : MapWork}
    (has : j.mappers i = .working file work) : j.main ≠ .running := by
  intro running
  obtain ⟨part, crew, -⟩ := kept.map
  obtain ⟨member, unfinished, -⟩ := crew.underway i file work has
  exact unfinished ((kept.mapped (kept.phase running)).2 file member)

theorem Kept.onMaster {master : Master} (kept : j.Kept files dir)
    (within : master.Within reduceNum files) (same : j.master.Same master) :
    Kept files dir { j with master := master } where
  positive := kept.positive
  within := within
  fileNum := same.fileNum.trans kept.fileNum
  taskNum := same.reduceNum.trans kept.taskNum
  inputs := kept.inputs
  phase running := same.isMapDone (kept.phase running)
  map := by
    rw [same.map]
    exact kept.map
  reduce := by
    rw [same.reduce]
    exact kept.reduce
  mapCaller := kept.mapCaller
  reduceCaller := kept.reduceCaller

theorem Kept.masterStep {master : Master} {event : MasterEvent} (kept : j.Kept files dir)
    (next : j.master.step event = some master) (noFile : ∀ file, event ≠ .setMapStat file)
    (noTask : ∀ r, event ≠ .setReduceStat r) : Kept files dir { j with master := master } :=
  kept.onMaster (kept.within.step next) (Master.step_same next noFile noTask)

theorem Kept.noMapCaller {i : Fin mapNum} {worker : Worker Str MapWork} (kept : j.Kept files dir)
    (has : j.mappers i = worker) (other : worker ≠ .calling) : j.mapCaller ≠ some i :=
  fun calls => other (has.symm.trans (kept.mapCaller i calls))

theorem Kept.noReduceCaller {i : Fin reduceNum} {worker : Worker Int ReduceWork}
    (kept : j.Kept files dir) (has : j.reducers i = worker) (other : worker ≠ .calling) :
    j.reduceCaller ≠ some i :=
  fun calls => other (has.symm.trans (kept.reduceCaller i calls))

theorem calling_update {ι τ ω : Type} [DecidableEq ι] {workers : ι → Worker τ ω}
    {caller : Option ι} {i : ι} (worker : Worker τ ω)
    (calls : ∀ k, caller = some k → workers k = .calling) (free : caller ≠ some i) :
    ∀ k, caller = some k → Function.update workers i worker k = .calling := by
  intro k its
  have other : k ≠ i := fun same => free (same ▸ its)
  exact (Function.update_of_ne other _ _).trans (calls k its)

theorem Kept.pauseMapper {i : Fin mapNum} {worker : Worker Str MapWork} (kept : j.Kept files dir)
    (free : j.mapCaller ≠ some i) (idle : (j.mappers i).task = none) (none : worker.task = none)
    (known : ∀ file, worker = .received file → file ∈ files) :
    (j.setMapper i worker).Kept files dir := by
  obtain ⟨part, crew, stored⟩ := kept.map
  exact { kept with
    map := ⟨part, crew.pause idle none known, stored⟩
    mapCaller := calling_update worker kept.mapCaller free }

theorem Kept.pauseReducer {i : Fin reduceNum} {worker : Worker Int ReduceWork}
    (kept : j.Kept files dir) (free : j.reduceCaller ≠ some i)
    (idle : (j.reducers i).task = none) (none : worker.task = none)
    (known : ∀ r, worker = .received r → r ∈ Master.reduceNumbers reduceNum) :
    (j.setReducer i worker).Kept files dir :=
  { kept with
    reduce := kept.reduce.pause idle none known
    reduceCaller := calling_update worker kept.reduceCaller free }

theorem Kept.run (kept : j.Kept files dir) (mapDone : j.master.isMapDone) :
    Kept files dir { j with main := .running } := by
  obtain ⟨part, crew, stored⟩ := kept.map
  obtain ⟨once, all⟩ := kept.mapped mapDone
  refine { kept with
    phase := fun _ => mapDone
    map := ⟨part, crew, fun other => absurd rfl other⟩
    reduce := ?_ }
  by_cases running : j.main = .running
  · have same : (j.main = .running) = (MainStage.running = .running) := by simp [running]
    exact same ▸ kept.reduce
  · refine kept.reduce.mono fun r member => ⟨fun ⟨empty, _⟩ => ⟨empty, fun _ => ?_⟩,
      fun _ ⟨on_, _⟩ => absurd on_ running, id⟩
    have words : (files.dedup.flatMap part).Perm (files.flatMap (wordsOf dir)) := by
      rw [once.dedup]
      exact .flatMap_left _ fun file member => (crew.complete file (all file member)).2
    obtain ⟨n, small, rfl⟩ := List.mem_map.mp member
    have holds := (stored running).congr words
    exact ⟨holds.whole n (List.mem_range.mp small), holds.gathered n (List.mem_range.mp small)⟩

theorem perm_flatMap_update {part : Str → List Str} {file w : Str} {l : List Str} (once : l.Nodup)
    (member : file ∈ l) :
    (w :: l.flatMap part).Perm
      (l.flatMap (Function.update part file (part file ++ [w]))) := by
  have split (f : Str → List Str) : (l.flatMap f).Perm (f file ++ (l.erase file).flatMap f) :=
    (List.perm_cons_erase member).flatMap_right f
  have others : (l.erase file).flatMap (Function.update part file (part file ++ [w])) =
      (l.erase file).flatMap part :=
    List.flatMap_congr fun other inside =>
      Function.update_of_ne (fun same => once.not_mem_erase (same ▸ inside)) _ _
  refine .trans ?_ (split _).symm
  rw [Function.update_self, others, List.append_assoc, List.singleton_append]
  exact ((split part).cons w).trans List.perm_middle.symm

theorem Readable.ne {path : Str} {r : Nat} (readable : Readable reduceNum files dir)
    (small : r < reduceNum) (its : isFileOf r path = true) : ∀ file ∈ files, file ≠ path := by
  intro file member same
  rw [← same, readable.apart file (readable.present file member) r small] at its
  cases its

theorem Kept.writeKV {i : Fin mapNum} {file : Str} {kv : KeyValue} {kvs : List KeyValue}
    (kept : j.Kept files dir) (readable : Readable reduceNum files dir)
    (has : j.mappers i = .working file (.writing (kv :: kvs))) :
    Kept files dir { j.setMapper i (.working file (.writing kvs)) with
      dir := MapReduce.writeKV reduceNum (j.mapTaskIdx i) j.dir kv } := by
  have before := kept.before has
  obtain ⟨part, crew, stored⟩ := kept.map
  obtain ⟨member, -, clean, -⟩ := crew.underway i file _ has
  have small := natAbs_ihash_lt kept.positive kv.key
  have free := kept.noMapCaller has (fun same => by cases same)
  refine { kept with
    inputs := fun input inside => ?_
    map := ?_
    reduce := ?_
    mapCaller := calling_update _ kept.mapCaller free }
  · rw [MapReduce.writeKV, bytesOf_appendFile_ne _ _
      (readable.ne small ((isFileOf_mapPath _ _ _).mpr rfl) input inside)]
    exact kept.inputs input inside
  · refine ⟨Function.update part file (part file ++ [kv.key]), crew.goOn has ?_ ?_, fun _ => ?_⟩
    · rintro ⟨words, perm⟩
      refine ⟨fun later inside => words later (List.mem_cons_of_mem _ inside), ?_⟩
      rw [Function.update_self, List.append_assoc]
      exact perm
    · intro other _ unlike
      have same : Function.update part file (part file ++ [kv.key]) other = part other :=
        Function.update_of_ne unlike _ _
      refine ⟨fun known => same.trans known, fun work known => ?_, fun known => ?_⟩
      · cases work with
        | reading => exact same.trans known
        | writing kvs => exact ⟨known.1, by rw [same]; exact known.2⟩
      · exact (List.Perm.of_eq same).trans known
    · exact ((stored before).writeKV kept.positive _ (clean kv List.mem_cons_self)).congr
        (perm_flatMap_update (List.nodup_dedup files) (List.mem_dedup.mpr member))
  · refine kept.reduce.mono fun r _ => stays_before before ?_
    rw [MapReduce.writeKV, bytesOf_appendFile_ne _ _ (mapPath_ne_outPath _ _ _).symm]

theorem Kept.takeFile {i : Fin mapNum} {file : Str} (kept : j.Kept files dir)
    (has : j.mappers i = .received file)
    (fresh : file ∉ j.master.map.finished ∧ ∀ k, (j.mappers k).task ≠ some file) :
    (j.setMapper i (.working file .reading)).Kept files dir := by
  have free := kept.noMapCaller has nofun
  obtain ⟨part, crew, stored⟩ := kept.map
  exact { kept with
    map := ⟨part, crew.take has fresh.1 fresh.2 id, stored⟩
    mapCaller := calling_update _ kept.mapCaller free }

theorem nul_notMem_cString (bytes : Str) : '\x00' ∉ cString bytes := by
  intro member
  have kept := List.mem_takeWhile_imp member
  exact absurd kept (by decide)

theorem Kept.readFile {i : Fin mapNum} {file behind : Str} {kvs : List KeyValue}
    (kept : j.Kept files dir) (readable : Readable reduceNum files dir)
    (has : j.mappers i = .working file .reading)
    (other : ∀ c ∈ cString behind, isLetter c = false)
    (made : mapF (getContent j.dir behind file) = some kvs) :
    (j.setMapper i (.working file (.writing kvs))).Kept files dir := by
  have free := kept.noMapCaller has nofun
  obtain ⟨part, crew, stored⟩ := kept.map
  obtain ⟨member, -, -⟩ := crew.underway i file _ has
  have text := kept.inputs file member
  have noNul : '\x00' ∉ bytesOf j.dir file := text ▸ readable.noNul file member
  rw [mapF_eq (nul_notMem_cString _), getContent, cString_append noNul, letterRuns_append other,
    text] at made
  cases made
  refine { kept with
    map := ⟨part, crew.goOn has (fun none => ?_) fun other _ _ => .refl _ other, stored⟩
    mapCaller := calling_update _ kept.mapCaller free }
  refine ⟨fun kv inside => ?_, ?_⟩
  · obtain ⟨w, run, rfl⟩ := List.mem_map.mp inside
    exact word_of_mem_wordsOf run
  · have keys : ((letterRuns (bytesOf dir file)).map
        fun s => (⟨s, ['1']⟩ : KeyValue)).map KeyValue.key = wordsOf dir file := by
      rw [List.map_map]
      exact List.map_id _
    rw [keys, show part file = [] from none, List.nil_append]

theorem Kept.reportFile {i : Fin mapNum} {file : Str} (kept : j.Kept files dir)
    (has : j.mappers i = .working file (.writing [])) (idle : j.master.idle) :
    Kept files dir { j.setMapper i .polling with master := j.master.setMapStat file } := by
  have free := kept.noMapCaller has nofun
  have reported : j.master.step (.setMapStat file) = some (j.master.setMapStat file) :=
    if_pos idle
  obtain ⟨part, crew, stored⟩ := kept.map
  have all (perm : (part file ++ []).Perm (wordsOf dir file)) :
      (part file).Perm (wordsOf dir file) := by
    rwa [List.append_nil] at perm
  exact { kept with
    within := kept.within.step reported
    phase := fun running => absurd running (kept.before has)
    map := ⟨part, crew.tell has fun ⟨_, perm⟩ => all perm, stored⟩
    mapCaller := calling_update _ kept.mapCaller free }

theorem Kept.mapWorker {i : Fin mapNum} {behind : Str} (kept : j.Kept files dir)
    (readable : Readable reduceNum files dir) (regular : j.Regular (.mapWorker i behind))
    (next : j.mapWorker i behind = some j') : j'.Kept files dir := by
  rw [Job.mapWorker] at next
  rw [Regular] at regular
  cases has : j.mappers i with
  | starting =>
    rw [has] at next
    cases next
    have paused : (j.setMapper i .polling).Kept files dir :=
      kept.pauseMapper (kept.noMapCaller has (fun same => by cases same))
        (by rw [has]; rfl) rfl (fun _ member => by cases member)
    exact { paused with }
  | polling =>
    rw [has] at next
    obtain ⟨idle, next⟩ := Option.ite_none_right_eq_some.mp next
    split at next
    · rename_i mapDone
      cases next
      have paused : (j.setMapper i .returned).Kept files dir :=
        kept.pauseMapper (kept.noMapCaller has (fun same => by cases same))
          (by rw [has]; rfl) rfl (fun _ member => by cases member)
      by_cases waiting : j.main = .waiting
      · rw [if_pos waiting]
        exact { paused.run mapDone with }
      · rw [if_neg waiting]
        exact { paused with }
    · cases next
      exact kept.pauseMapper (kept.noMapCaller has (fun same => by cases same))
        (by rw [has]; rfl) rfl (fun _ member => by cases member)
  | asking =>
    rw [has] at next
    obtain ⟨idle, next⟩ := Option.ite_none_right_eq_some.mp next
    split at next
    · cases next
      exact kept.pauseMapper (kept.noMapCaller has (fun same => by cases same))
        (by rw [has]; rfl) rfl (fun _ member => by cases member)
    · cases next
      have asked : j.master.step .assignTask = some j.master.assignTask := if_pos idle
      have paused : Kept files dir
          (setMapper { j with master := j.master.assignTask } i .calling) :=
        (kept.masterStep asked (fun _ member => by cases member) (fun _ member => by cases member)).pauseMapper
            (kept.noMapCaller has (fun same => by cases same))
          (by rw [has]; rfl) rfl (fun _ member => by cases member)
      refine { paused with mapCaller := fun k its => ?_ }
      cases its
      exact Function.update_self _ _ _
  | calling =>
    rw [has] at next
    cases next
  | received file =>
    rw [has] at next regular
    cases next
    by_cases off : disabled j.disabledMapId = true
    · have paused : (j.setMapper i .hanging).Kept files dir :=
        kept.pauseMapper (kept.noMapCaller has (fun same => by cases same))
          (by rw [has]; rfl) rfl (fun _ member => by cases member)
      rw [if_pos off]
      exact { paused with }
    · have taken := kept.takeFile has (regular (eq_false_of_ne_true off))
      rw [if_neg off]
      exact { taken with }
  | hanging =>
    rw [has] at next
    cases next
  | working file work =>
    cases work with
    | reading =>
      rw [has] at next regular
      obtain ⟨present, next⟩ := Option.ite_none_right_eq_some.mp next
      obtain ⟨kvs, made, rfl⟩ := Option.map_eq_some_iff.mp next
      exact kept.readFile readable has regular made
    | writing kvs =>
      cases kvs with
      | cons kv kvs =>
        rw [has] at next
        cases next
        exact kept.writeKV readable has
      | nil =>
        rw [has] at next
        obtain ⟨idle, next⟩ := Option.ite_none_right_eq_some.mp next
        cases next
        exact kept.reportFile has idle
  | returned =>
    rw [has] at next
    cases next

theorem Kept.append {i : Fin reduceNum} {r : Int} {work work' : ReduceWork} {bytes : Str}
    (kept : j.Kept files dir) (readable : Readable reduceNum files dir)
    (has : j.reducers i = .working r work)
    (own : Reduced reduceNum (files.flatMap (wordsOf dir)) j.dir r.toNat work →
      Reduced reduceNum (files.flatMap (wordsOf dir))
        (appendFile j.dir (outPath r.toNat) bytes) r.toNat work') :
    Kept files dir { j.setReducer i (.working r work') with
      dir := appendFile j.dir (outPath r.toNat) bytes } := by
  obtain ⟨member, -, running, -⟩ := kept.reduce.underway i r work has
  obtain ⟨n, small, rfl⟩ := List.mem_map.mp member
  have free := kept.noReduceCaller has nofun
  obtain ⟨part, crew, -⟩ := kept.map
  refine { kept with
    inputs := fun input inside => ?_
    map := ⟨part, crew, fun before => absurd running before⟩
    reduce := kept.reduce.goOn has (fun ⟨_, reduced⟩ => ⟨running, own reduced⟩) ?_
    reduceCaller := calling_update _ kept.reduceCaller free }
  · have other :=
      readable.ne (List.mem_range.mp small) ((isFileOf_outPath n n).mpr rfl) input inside
    exact (bytesOf_appendFile_ne _ _ other).trans (kept.inputs input inside)
  · intro other others unlike
    obtain ⟨m, -, rfl⟩ := List.mem_map.mp others
    refine stays_append (Bool.eq_false_iff.mpr fun file => unlike ?_)
    exact congrArg Int.ofNat ((isFileOf_outPath _ _).mp file)

theorem Kept.goOn {i : Fin reduceNum} {r : Int} {work work' : ReduceWork} (kept : j.Kept files dir)
    (has : j.reducers i = .working r work)
    (own : Reduced reduceNum (files.flatMap (wordsOf dir)) j.dir r.toNat work →
      Reduced reduceNum (files.flatMap (wordsOf dir)) j.dir r.toNat work') :
    (j.setReducer i (.working r work')).Kept files dir := by
  have free := kept.noReduceCaller has nofun
  exact { kept with
    reduce := kept.reduce.goOn has (fun ⟨running, reduced⟩ => ⟨running, own reduced⟩)
      fun other _ _ => .refl _ other
    reduceCaller := calling_update _ kept.reduceCaller free }

theorem Kept.takeTask {i : Fin reduceNum} {r : Int} (kept : j.Kept files dir)
    (running : j.main = .running) (has : j.reducers i = .received r)
    (fresh : r ∉ j.master.reduce.finished ∧ ∀ k, (j.reducers k).task ≠ some r) :
    (j.setReducer i (.working r .listing)).Kept files dir := by
  have free := kept.noReduceCaller has nofun
  exact { kept with
    reduce := kept.reduce.take has fresh.1 fresh.2 fun ⟨empty, gathered⟩ =>
      ⟨running, empty, gathered running⟩
    reduceCaller := calling_update _ kept.reduceCaller free }

theorem Kept.reportTask {i : Fin reduceNum} {r : Int} (kept : j.Kept files dir)
    (has : j.reducers i = .working r (.writing [])) (idle : j.master.idle) :
    Kept files dir { j.setReducer i .polling with master := j.master.setReduceStat r } := by
  have free := kept.noReduceCaller has nofun
  have reported : j.master.step (.setReduceStat r) = some (j.master.setReduceStat r) :=
    if_pos idle
  refine { kept with
    within := kept.within.step reported
    reduce := kept.reduce.tell has fun ⟨_, pairs, perm, written⟩ => ⟨pairs, perm, ?_⟩
    reduceCaller := calling_update _ kept.reduceCaller free }
  exact List.append_nil (bytesOf j.dir (outPath r.toNat)) ▸ written

theorem Kept.reduceWorker {i : Fin reduceNum} {behind : Str} (kept : j.Kept files dir)
    (readable : Readable reduceNum files dir) (running : j.main = .running)
    (regular : j.Regular (.reduceWorker i behind))
    (next : j.reduceWorker i behind = some j') : j'.Kept files dir := by
  rw [Job.reduceWorker] at next
  rw [Regular] at regular
  cases has : j.reducers i with
  | starting =>
    rw [has] at next
    cases next
  | polling =>
    rw [has] at next
    obtain ⟨idle, next⟩ := Option.ite_none_right_eq_some.mp next
    cases next
    refine kept.pauseReducer
        (kept.noReduceCaller has (fun same => by cases same)) (by rw [has]; rfl) ?_ fun r => ?_
    · split <;> rfl
    · split <;> exact fun same => by cases same
  | asking =>
    rw [has] at next
    obtain ⟨idle, next⟩ := Option.ite_none_right_eq_some.mp next
    split at next
    · cases next
      exact kept.pauseReducer (kept.noReduceCaller has (fun same => by cases same))
        (by rw [has]; rfl) rfl (fun _ member => by cases member)
    · cases next
      have asked : j.master.step .assignReduceTask = some j.master.assignReduceTask := if_pos idle
      have paused : Kept files dir
          (setReducer { j with master := j.master.assignReduceTask } i .calling) :=
        (kept.masterStep asked (fun _ member => by cases member) (fun _ member => by cases member)).pauseReducer
            (kept.noReduceCaller has (fun same => by cases same))
          (by rw [has]; rfl) rfl (fun _ member => by cases member)
      refine { paused with reduceCaller := fun k its => ?_ }
      cases its
      exact Function.update_self _ _ _
  | calling =>
    rw [has] at next
    cases next
  | received r =>
    rw [has] at next regular
    cases next
    by_cases off : disabled j.disabledReduceId = true
    · have paused : (j.setReducer i .hanging).Kept files dir :=
        kept.pauseReducer (kept.noReduceCaller has (fun same => by cases same))
          (by rw [has]; rfl) rfl (fun _ member => by cases member)
      rw [if_pos off]
      exact { paused with }
    · have taken := kept.takeTask running has (regular (eq_false_of_ne_true off))
      rw [if_neg off]
      exact { taken with }
  | hanging =>
    rw [has] at next
    cases next
  | working r work =>
    cases work with
    | listing =>
      rw [has] at next
      cases next
      obtain ⟨member, -, -⟩ := kept.reduce.underway i r _ has
      obtain ⟨n, -, rfl⟩ := List.mem_map.mp member
      exact kept.goOn has Reduced.listed
    | reading files str =>
      cases files with
      | cons file files =>
        rw [has] at next regular
        obtain ⟨-, next⟩ := Option.ite_none_right_eq_some.mp next
        cases next
        exact kept.goOn has (·.read regular)
      | nil =>
        rw [has] at next
        cases next
        have clean : ∀ w ∈ files.flatMap (wordsOf dir), Word w := fun w member => by
          obtain ⟨file, -, run⟩ := List.mem_flatMap.mp member
          exact word_of_mem_wordsOf run
        exact kept.append readable has (Reduced.opened clean)
    | writing texts =>
      cases texts with
      | cons text texts =>
        rw [has] at next
        cases next
        exact kept.append readable has Reduced.wrote
      | nil =>
        rw [has] at next
        obtain ⟨idle, next⟩ := Option.ite_none_right_eq_some.mp next
        cases next
        exact kept.reportTask has idle
  | returned =>
    rw [has] at next
    cases next

theorem Points.serve (points : j.Points) (stale : Str) :
    j.master.map.serve (mapReads stale) = j.master.map.serve mapHandles ∧
      j.master.map.reply (mapReads stale) = j.master.map.reply mapHandles := by
  have reads {handle : CString} (its : (mapHandles.read j.master.map.capacity handle).isSome) :
      (mapReads stale).read j.master.map.capacity handle =
        mapHandles.read j.master.map.capacity handle := by
    obtain ⟨task, read⟩ := Option.isSome_iff_exists.mp its
    show some ((mapHandles.read j.master.map.capacity handle).getD stale) = _
    rw [read, Option.getD_some]
  rw [Points] at points
  rw [Board.serve, Board.serve, Board.reply, Board.reply]
  cases stage : j.master.map.stage with
  | popped handle =>
    rw [stage] at points
    dsimp only
    rw [reads points]
    exact ⟨rfl, rfl⟩
  | returning handle =>
    rw [stage] at points
    dsimp only
    rw [reads points]
    exact ⟨rfl, rfl⟩
  | idle | asked | popping | starting handle => exact ⟨rfl, rfl⟩

theorem mapAnswer_cases (stale : Str) (b : Board CString Str) :
    (mapAnswer stale b).task = none ∧ ∀ file, mapAnswer stale b = .received file →
      b.reply (mapReads stale) = some file := by
  rw [mapAnswer]
  split
  · rename_i taskTmp its
    split
    · exact ⟨rfl, nofun⟩
    · exact ⟨rfl, fun file same => by cases same; exact its⟩
  · exact ⟨rfl, nofun⟩

theorem reduceAnswer_cases (b : Board Int Int) :
    (reduceAnswer b).task = none ∧ ∀ r, reduceAnswer b = .received r →
      b.reply reduceHandles = some r := by
  rw [reduceAnswer]
  split
  · rename_i reduceTaskIdx its
    split
    · exact ⟨rfl, nofun⟩
    · exact ⟨rfl, fun r same => by cases same; exact its⟩
  · exact ⟨rfl, nofun⟩

theorem Kept.waitMap {stale : Str} (kept : j.Kept files dir) (points : j.Points)
    (next : j.waitMap stale = some j') : j'.Kept files dir := by
  obtain ⟨master, served, rfl⟩ := Option.map_eq_some_iff.mp next
  rw [(points.serve stale).1] at served
  have stepped :=
    kept.masterStep (show j.master.step .waitMap = some master from served) nofun nofun
  split
  · rename_i i caller
    split
    · have calling := kept.mapCaller i caller
      obtain ⟨none, known⟩ := mapAnswer_cases stale j.master.map
      have answered : Kept files dir { j with master := master, mapCaller := Option.none } :=
        { stepped with mapCaller := nofun }
      exact answered.pauseMapper nofun (by rw [calling]; rfl) none
        fun file its => kept.within.map.reply ((points.serve stale).2 ▸ known file its)
    · exact stepped
  · exact stepped

theorem Kept.waitReduce (kept : j.Kept files dir) (next : j.waitReduce = some j') :
    j'.Kept files dir := by
  obtain ⟨master, served, rfl⟩ := Option.map_eq_some_iff.mp next
  have stepped :=
    kept.masterStep (show j.master.step .waitReduce = some master from served) nofun nofun
  split
  · rename_i i caller
    split
    · have calling := kept.reduceCaller i caller
      obtain ⟨none, known⟩ := reduceAnswer_cases j.master.reduce
      have answered : Kept files dir { j with master := master, reduceCaller := Option.none } :=
        { stepped with reduceCaller := nofun }
      exact answered.pauseReducer nofun (by rw [calling]; rfl) none
        fun r its => kept.within.reduce.reply (known r its)
    · exact stepped
  · exact stepped

theorem Kept.removeFiles (kept : j.Kept files dir) (readable : Readable reduceNum files dir)
    (running : j.main = .running) (done : j.master.done) :
    Kept files dir { j with dir := MapReduce.removeFiles mapNum reduceNum j.dir } := by
  obtain ⟨part, crew, -⟩ := kept.map
  refine { kept with
    inputs := fun input inside => ?_
    map := ⟨part, crew, fun before => absurd running before⟩
    reduce := kept.reduce.whenAll (kept.reduced done) fun r _ ⟨pairs, perm, written⟩ =>
      ⟨pairs, perm, ?_⟩ }
  · rw [bytesOf_removeFiles _ _ _ fun i r small =>
      readable.ne small ((isFileOf_mapPath _ _ _).mpr rfl) input inside]
    exact kept.inputs input inside
  · rw [bytesOf_removeFiles _ _ _ fun i _ _ => (mapPath_ne_outPath i _ _).symm]
    exact written

theorem Kept.step (kept : j.Kept files dir) (readable : Readable reduceNum files dir)
    (regular : j.Regular event) (next : j.step event = some j') : j'.Kept files dir := by
  cases event with
  | mapWorker i behind => exact kept.mapWorker readable regular next
  | reduceWorker i behind =>
    obtain ⟨running, next⟩ := Option.ite_none_right_eq_some.mp next
    exact kept.reduceWorker readable running regular next
  | waitMap stale => exact kept.waitMap regular next
  | waitReduce => exact kept.waitReduce next
  | waitMapTask =>
    obtain ⟨master, fired, rfl⟩ := Option.map_eq_some_iff.mp next
    exact kept.masterStep (show j.master.step .waitMapTask = some master from fired) nofun nofun
  | waitReduceTask =>
    obtain ⟨master, fired, rfl⟩ := Option.map_eq_some_iff.mp next
    exact kept.masterStep (show j.master.step .waitReduceTask = some master from fired) nofun nofun
  | wait =>
    obtain ⟨creating, next⟩ := Option.ite_none_right_eq_some.mp next
    cases next
    obtain ⟨part, crew, stored⟩ := kept.map
    have same : (j.main = .running) = (MainStage.waiting = .running) := by simp [creating]
    refine { kept with
      phase := nofun
      map := ⟨part, crew, fun _ => stored (by rw [creating]; exact nofun)⟩
      reduce := ?_ }
    exact same ▸ kept.reduce
  | wake =>
    obtain ⟨waiting, next⟩ := Option.ite_none_right_eq_some.mp next
    cases next
    exact kept.run regular
  | removeFiles =>
    obtain ⟨⟨running, -, done⟩, next⟩ := Option.ite_none_right_eq_some.mp next
    cases next
    exact kept.removeFiles readable running done

theorem Kept.start {given : Directory} {master : Master}
    (readable : Readable reduceNum files (cleaned mapNum reduceNum given))
    (made : Master.make mapNum reduceNum files = some master) :
    Kept files (cleaned mapNum reduceNum given)
      (make master given : Job mapNum reduceNum) := by
  obtain ⟨map, reduce⟩ := Master.make_boards made
  obtain ⟨positive, fileNum, taskNum⟩ : 0 < reduceNum ∧ master.fileNum = files.length ∧
      master.reduceNum = reduceNum := by
    rw [Master.make] at made
    split at made
    · cases made
    · rename_i nonzero
      cases made
      exact ⟨Nat.pos_of_ne_zero fun none => nonzero (.inr none), rfl, rfl⟩
  have none : files.dedup.flatMap (fun _ => ([] : List Str)) = [] :=
    List.flatMap_eq_nil_iff.mpr fun _ _ => rfl
  constructor
  · exact positive
  · constructor
    · rw [make, map]
      refine ⟨fun handle member capacity task read => ?_, fun task member => by cases member⟩
      obtain ⟨file, inside, rfl⟩ := List.mem_map.mp ((List.append_nil _) ▸ member)
      cases read
      exact inside
    · rw [make, reduce]
      refine ⟨fun handle member capacity task read => ?_, fun task member => by cases member⟩
      cases read
      exact List.append_nil (Master.reduceNumbers reduceNum) ▸ member
  · exact fileNum
  · exact taskNum
  · exact fun _ _ => rfl
  · exact fun same => by cases same
  · refine ⟨fun _ => [], ?_, fun _ => ?_⟩
    · rw [make, map]
      exact .start (fun _ => .inl rfl) fun _ _ => rfl
    · rw [none]
      exact .start readable.apart
  · rw [make, reduce]
    refine .start (fun _ => .inr rfl) fun r member => ⟨bytesOf_of_notMem fun there => ?_, fun same => by cases same⟩
    obtain ⟨n, small, rfl⟩ := List.mem_map.mp member
    have its : isFileOf n (outPath (Int.ofNat n).toNat) = true := (isFileOf_outPath n n).mpr rfl
    rw [readable.apart _ there n (List.mem_range.mp small)] at its
    cases its
  · exact fun _ member => by cases member
  · exact fun _ member => by cases member

theorem kept {given : Directory}
    (readable : Readable reduceNum files (cleaned mapNum reduceNum given))
    (reach : Reach (machine mapNum reduceNum files given) Regular j) :
    j.Kept files (cleaned mapNum reduceNum given) := by
  refine reach.invariant (fun j start => ?_) fun j event j' kept regular next =>
    kept.step readable regular next
  obtain ⟨master, made, rfl⟩ := start
  exact .start readable made

def linesOf (pairs : List (Str × Str)) : List Str := pairs.map fun pair => pair.1 ++ ' ' :: pair.2

theorem outputText_eq (pairs : List (Str × Str)) :
    outputText pairs = ended '\n' (linesOf pairs) := by
  rw [linesOf, ended, List.flatMap_map]
  rfl

/-- In a run in which only one worker ever works on a task and no stray bytes are read, the output is
right when `Done` is true. -/
theorem output_counted {given : Directory}
    (readable : Readable reduceNum files (cleaned mapNum reduceNum given))
    (reach : Reach (machine mapNum reduceNum files given) Regular j) (done : j.master.done) :
    j.Counted (files.map (bytesOf (cleaned mapNum reduceNum given))) := by
  have kept := Job.kept readable reach
  generalize cleaned mapNum reduceNum given = dir at kept
  have each (r : Nat) : ∃ pairs, r < reduceNum →
      pairs.Perm (countsOf reduceNum (files.flatMap (wordsOf dir)) r) ∧
        bytesOf j.dir (outPath r) = outputText pairs := by
    by_cases small : r < reduceNum
    · have member : Int.ofNat r ∈ Master.reduceNumbers reduceNum :=
        List.mem_map_of_mem (List.mem_range.mpr small)
      obtain ⟨-, pairs, perm, written⟩ := kept.reduce.complete _ (kept.reduced done _ member)
      exact ⟨pairs, fun _ => ⟨perm, written⟩⟩
    · exact ⟨[], fun small' => absurd small' small⟩
  choose pairs complete using each
  refine ⟨fun r => linesOf (pairs r), fun r small => ?_, ?_⟩
  · rw [(complete r small).2, outputText_eq]
  · have classes := tally_classes (fun w => (ihash reduceNum w).natAbs)
      (List.nodup_range (n := reduceNum)) (l := files.flatMap (wordsOf dir)) fun w _ =>
        List.mem_range.mpr (natAbs_ihash_lt kept.positive w)
    have lines : ((List.range reduceNum).flatMap fun r => linesOf (pairs r)).Perm
        ((List.range reduceNum).flatMap fun r =>
          linesOf (countsOf reduceNum (files.flatMap (wordsOf dir)) r)) :=
      .flatMap_left _ fun r member => ((complete r (List.mem_range.mp member)).1).map _
    have shape (r : Nat) : linesOf (countsOf reduceNum (files.flatMap (wordsOf dir)) r) =
        (tally (classOf reduceNum (files.flatMap (wordsOf dir)) r)).map
          fun p => p.1 ++ ' ' :: decimal p.2 := List.map_map
    rw [List.flatMap_congr fun r _ => shape r, ← List.map_flatMap] at lines
    rw [List.flatMap_map]
    exact lines.trans (classes.map _)

private def oneText : Directory := AList.insert "pg-being_ernest.txt".toList ['a'] ∅

private def oneFile : List Str := ["pg-being_ernest.txt".toList]

private theorem cleaned_oneText :
    cleaned 3 1 oneText = oneText ∧ cleaned 1 1 oneText = oneText :=
  ⟨AList.ext (by decide +kernel), AList.ext (by decide +kernel)⟩

private theorem readable_oneText : Readable 1 oneFile oneText := by
  have present : "pg-being_ernest.txt".toList ∈ oneText := AList.mem_insert _ |>.mpr (.inl rfl)
  have text : bytesOf oneText "pg-being_ernest.txt".toList = ['a'] := by
    rw [bytesOf, oneText, AList.lookup_insert, Option.getD_some]
  refine ⟨fun file member => ?_, fun file member => ?_, fun file member r small => ?_⟩
  · rw [List.mem_singleton.mp member]
    exact present
  · rw [List.mem_singleton.mp member, text]
    decide
  · obtain rfl := Nat.lt_one_iff.mp small
    rcases (AList.mem_insert _).mp member with rfl | other
    · decide +kernel
    · exact absurd other (AList.notMem_empty _)

/-- A mapper from its poll until it has a file. -/
private def mapCall {mapNum reduceNum : Nat} (i : Fin mapNum) : List (JobEvent mapNum reduceNum) :=
  List.replicate 2 (JobEvent.mapWorker i []) ++ List.replicate 5 (JobEvent.waitMap []) ++
    [JobEvent.mapWorker i []]

/-- A reducer from its poll until it has written one line out of `files` files. -/
private def reduceRound {mapNum reduceNum : Nat} (i : Fin reduceNum) (files : Nat) (behind : Str) :
    List (JobEvent mapNum reduceNum) :=
  List.replicate 2 (JobEvent.reduceWorker i []) ++ List.replicate 5 JobEvent.waitReduce ++
    List.replicate (files + 6) (JobEvent.reduceWorker i behind)

theorem output_doubled :
    ∃ j : Job 3 1, Reachable (machine 3 1 oneFile oneText) j ∧
      Readable 1 oneFile (cleaned 3 1 oneText) ∧ j.master.done ∧
      bytesOf j.dir (outPath 0) = "a 2\n".toList ∧ ¬ j.Counted [['a']] := by
  have ran : ((Master.make 3 1 oneFile).bind fun master =>
      exec (machine 3 1 oneFile oneText) (make master oneText)
        ([JobEvent.wait, .mapWorker 0 [], .mapWorker 1 [], .mapWorker 2 []] ++ mapCall 0 ++
          [JobEvent.waitMapTask] ++ mapCall 1 ++ [JobEvent.waitMapTask] ++ mapCall 2 ++
          List.replicate 3 (JobEvent.mapWorker 0 []) ++ List.replicate 2 (JobEvent.mapWorker 2 []) ++
          [JobEvent.mapWorker 0 []] ++ reduceRound 0 2 [])).any (fun j =>
        j.master.done ∧ bytesOf j.dir (outPath 0) = "a 2\n".toList) = true := by
    decide +kernel
  obtain ⟨j, run, facts⟩ := (Option.any_eq_true _ _).mp ran
  obtain ⟨master, made, run⟩ := Option.bind_eq_some_iff.mp run
  obtain ⟨done, bytes⟩ := of_decide_eq_true facts
  refine ⟨j, Reach.exec (.start ⟨master, made, rfl⟩) run, ?_, done, bytes, ?_⟩
  · rw [cleaned_oneText.1]
    exact readable_oneText
  intro ⟨lines, written, perm⟩
  have all : ([['a']] : List Str).flatMap letterRuns = [['a']] := by decide
  rw [all] at perm
  have one : lines 0 = ["a 1".toList] := by
    have shape : (List.range 1).flatMap lines = lines 0 := List.append_nil _
    rw [shape] at perm
    exact List.perm_singleton.mp perm
  have short := written 0 Nat.one_pos
  rw [bytes, one] at short
  exact absurd short (by decide)

theorem output_counted_one_text :
    ∃ j : Job 1 1, Reach (machine 1 1 oneFile oneText) Regular j ∧ j.master.done ∧
      bytesOf j.dir (outPath 0) = "a 1\n".toList ∧
      j.Counted (oneFile.map (bytesOf (cleaned 1 1 oneText))) := by
  have ran : ((Master.make 1 1 oneFile).bind fun master =>
      execWhere (machine 1 1 oneFile oneText) Regular (make master oneText)
        ([JobEvent.wait, .mapWorker 0 []] ++ mapCall 0 ++
          List.replicate 4 (JobEvent.mapWorker 0 [',', '\x00', 'b']) ++
          reduceRound 0 1 ['b', '\x00', 'c', ' '])).any (fun j =>
        j.master.done ∧ bytesOf j.dir (outPath 0) = "a 1\n".toList) = true := by
    decide +kernel
  obtain ⟨j, run, facts⟩ := (Option.any_eq_true _ _).mp ran
  obtain ⟨master, made, run⟩ := Option.bind_eq_some_iff.mp run
  obtain ⟨done, bytes⟩ := of_decide_eq_true facts
  have reach : Reach (machine 1 1 oneFile oneText) Regular j :=
    Reach.execWhere (.start ⟨master, made, rfl⟩) run
  have readable : Readable 1 oneFile (cleaned 1 1 oneText) := by
    rw [cleaned_oneText.2]
    exact readable_oneText
  exact ⟨j, reach, done, bytes, output_counted readable reach done⟩

end Job

end ProjectsCpp.MapReduce
