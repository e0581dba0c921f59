import ProjectsCpp.Lib.Crew
import ProjectsCpp.MapReduce.Master
import ProjectsCpp.MapReduce.WordCount

/-! A whole run of MapReduce: the master, the threads of one worker process (`mapWorker`,
`reduceWorker` and `main` in `MapReduce/worker.cpp`) and the files. A thread goes from one call,
critical section or access to a file to the next in one step. Calls are answered one at a time. -/

namespace ProjectsCpp.MapReduce
open ProjectsCpp.Text ProjectsCpp.Tally ProjectsCpp.Run ProjectsCpp.TaskBoard ProjectsCpp.Crew

inductive MapWork where
  | reading
  | writing (kvs : List KeyValue)

/-- `listing` is before `getAllfile`; `reading` has the file names that are left and `str`;
`writing` the texts of the calls of `write` that are left. -/
inductive ReduceWork where
  | listing
  | reading (filename str : List Str)
  | writing (texts : List Str)

/-- How far `main` is: it creates the mappers, waits for `cond`, and has created the reducers. -/
inductive MainStage where
  | creating
  | waiting
  | running
deriving DecidableEq

/-- `mapTaskIdx` is a variable of each mapper; the callers are the threads whose calls of
`assignTask` and `assignReduceTask` are under way. -/
structure Job (mapNum reduceNum : Nat) where
  master : Master
  dir : Directory
  main : MainStage
  mapId : Nat
  mapTaskIdx : Fin mapNum → Nat
  disabledMapId : Nat
  disabledReduceId : Nat
  mappers : Fin mapNum → Worker Str MapWork
  reducers : Fin reduceNum → Worker Int ReduceWork
  mapCaller : Option (Fin mapNum)
  reduceCaller : Option (Fin reduceNum)

def removeFiles (mapNum reduceNum : Nat) (dir : Directory) : Directory :=
  (List.range mapNum).foldl (fun dir i =>
    (List.range reduceNum).foldl (fun dir (r : Nat) => dir.erase (mapPath i r)) dir) dir

def removeOutputFiles (dir : Directory) : Directory :=
  (List.range 15).foldl (fun dir i => dir.erase (outPath i)) dir

def disabled (id : Nat) : Bool := id = 1 || id = 3 || id = 5

def outputWrites (pairs : List (Str × Str)) : List Str :=
  pairs.flatMap fun pair => [pair.1 ++ ' ' :: pair.2, ['\n']]

/-- A pointer that dangles reads as `stale`. -/
def mapReads (stale : Str) : Handles CString Str where
  hand := mapHandles.hand
  read capacity handle := some ((handle.read capacity).getD stale)
  read_hand capacity task := congrArg (fun read : Option Str => some (read.getD stale))
    (mapHandles.read_hand capacity task)

def mapAnswer (stale : Str) (b : Board CString Str) : Worker Str MapWork :=
  match b.reply (mapReads stale) with
  | some taskTmp => if taskTmp = "empty".toList then .polling else .received taskTmp
  | none => .polling

def reduceAnswer (b : Board Int Int) : Worker Int ReduceWork :=
  match b.reply reduceHandles with
  | some reduceTaskIdx => if reduceTaskIdx = -1 then .polling else .received reduceTaskIdx
  | none => .polling

namespace Job
variable {mapNum reduceNum : Nat}

def setMapper (j : Job mapNum reduceNum) (i : Fin mapNum) (worker : Worker Str MapWork) :
    Job mapNum reduceNum := { j with mappers := Function.update j.mappers i worker }

def setReducer (j : Job mapNum reduceNum) (i : Fin reduceNum) (worker : Worker Int ReduceWork) :
    Job mapNum reduceNum := { j with reducers := Function.update j.reducers i worker }

/-- `behind` lies behind the buffer, where the step reads a file. -/
def mapWorker (j : Job mapNum reduceNum) (i : Fin mapNum) (behind : Str) :
    Option (Job mapNum reduceNum) :=
  match j.mappers i with
  | .starting =>
    some { j.setMapper i .polling with
      mapTaskIdx := Function.update j.mapTaskIdx i j.mapId
      mapId := j.mapId + 1 }
  | .polling =>
    if j.master.idle then
      if j.master.isMapDone then
        some { j.setMapper i .returned with
          main := if j.main = .waiting then .running else j.main }
      else some (j.setMapper i .asking)
    else none
  | .asking =>
    if j.master.idle then
      -- with all files mapped the answer comes at once, and is "empty"
      if j.master.isMapDone then some (j.setMapper i .polling)
      else some { j.setMapper i .calling with master := j.master.assignTask, mapCaller := some i }
    else none
  | .calling => none
  | .received task =>
    let worker := if disabled j.disabledMapId then .hanging else .working task .reading
    some { j.setMapper i worker with disabledMapId := j.disabledMapId + 1 }
  | .hanging => none
  | .working task .reading =>
    if task ∈ j.dir then
      (mapF (getContent j.dir behind task)).map fun kvs => j.setMapper i (.working task (.writing kvs))
    else none
  | .working task (.writing (kv :: kvs)) =>
    some { j.setMapper i (.working task (.writing kvs)) with
      dir := writeKV reduceNum (j.mapTaskIdx i) j.dir kv }
  | .working task (.writing []) =>
    if j.master.idle then
      some { j.setMapper i .polling with master := j.master.setMapStat task }
    else none
  | .returned => none

def reduceWorker (j : Job mapNum reduceNum) (i : Fin reduceNum) (behind : Str) :
    Option (Job mapNum reduceNum) :=
  match j.reducers i with
  | .starting => none
  | .polling =>
    if j.master.idle then
      some (j.setReducer i (if j.master.done then .returned else .asking))
    else none
  | .asking =>
    if j.master.idle then
      if j.master.done then some (j.setReducer i .polling)
      else some { j.setReducer i .calling with
        master := j.master.assignReduceTask, reduceCaller := some i }
    else none
  | .calling => none
  | .received task =>
    let worker := if disabled j.disabledReduceId then .hanging else .working task .listing
    some { j.setReducer i worker with disabledReduceId := j.disabledReduceId + 1 }
  | .hanging => none
  | .working task .listing =>
    some (j.setReducer i (.working task (.reading (getAllfile j.dir task) [])))
  | .working task (.reading (file :: files) str) =>
    if file ∈ j.dir then
      some (j.setReducer i
        (.working task (.reading files (str ++ pieces ' ' (getContent j.dir behind file).value))))
    else none
  | .working task (.reading [] str) =>
    some { j.setReducer i (.working task (.writing (outputWrites (pairsOf str)))) with
      dir := appendFile j.dir (outPath task.toNat) [] }
  | .working task (.writing (text :: texts)) =>
    some { j.setReducer i (.working task (.writing texts)) with
      dir := appendFile j.dir (outPath task.toNat) text }
  | .working task (.writing []) =>
    if j.master.idle then
      some { j.setReducer i .polling with master := j.master.setReduceStat task }
    else none
  | .returned => none

def waitMap (j : Job mapNum reduceNum) (stale : Str) : Option (Job mapNum reduceNum) :=
  ((j.master.map.serve (mapReads stale)).map j.master.onMap).map fun master =>
    match j.mapCaller with
    | some i =>
      if master.map.stage = .idle then
        { j.setMapper i (mapAnswer stale j.master.map) with
          master := master, mapCaller := none }
      else { j with master := master }
    | none => { j with master := master }

def waitReduce (j : Job mapNum reduceNum) : Option (Job mapNum reduceNum) :=
  j.master.waitReduce.map fun master =>
    match j.reduceCaller with
    | some i =>
      if master.reduce.stage = .idle then
        { j.setReducer i (reduceAnswer j.master.reduce) with
          master := master, reduceCaller := none }
      else { j with master := master }
    | none => { j with master := master }

end Job

inductive JobEvent (mapNum reduceNum : Nat) where
  | mapWorker (i : Fin mapNum) (behind : Str)
  | reduceWorker (i : Fin reduceNum) (behind : Str)
  | waitMap (stale : Str)
  | waitReduce
  | waitMapTask
  | waitReduceTask
  | wait
  | wake
  | removeFiles

namespace Job
variable {mapNum reduceNum : Nat}

def step (j : Job mapNum reduceNum) : JobEvent mapNum reduceNum → Option (Job mapNum reduceNum)
  | .mapWorker i behind => j.mapWorker i behind
  | .reduceWorker i behind => if j.main = .running then j.reduceWorker i behind else none
  | .waitMap stale => j.waitMap stale
  | .waitReduce => j.waitReduce
  | .waitMapTask => j.master.waitMapTask.map fun master => { j with master := master }
  | .waitReduceTask => j.master.waitReduceTask.map fun master => { j with master := master }
  | .wait => if j.main = .creating then some { j with main := .waiting } else none
  | .wake => if j.main = .waiting then some { j with main := .running } else none
  | .removeFiles =>
    if j.main = .running ∧ j.master.idle ∧ j.master.done then
      some { j with dir := MapReduce.removeFiles mapNum reduceNum j.dir }
    else none

def cleaned (mapNum reduceNum : Nat) (dir : Directory) : Directory :=
  removeOutputFiles (MapReduce.removeFiles mapNum reduceNum dir)

def make (master : Master) (dir : Directory) : Job mapNum reduceNum where
  master := master
  dir := cleaned mapNum reduceNum dir
  main := .creating
  mapId := 0
  mapTaskIdx _ := 0
  disabledMapId := 0
  disabledReduceId := 0
  mappers _ := .starting
  reducers _ := .polling
  mapCaller := none
  reduceCaller := none

def machine (mapNum reduceNum : Nat) (files : List Str) (dir : Directory) :
    Machine (Job mapNum reduceNum) (JobEvent mapNum reduceNum) where
  start j := ∃ master, Master.make mapNum reduceNum files = some master ∧ j = make master dir
  step := step

structure Readable (reduceNum : Nat) (files : List Str) (dir : Directory) : Prop where
  present : ∀ file ∈ files, file ∈ dir
  noNul : ∀ file ∈ files, '\x00' ∉ bytesOf dir file
  apart : ∀ file ∈ dir, ∀ r < reduceNum, isFileOf r file = false

/-- The pointer that the next section of `waitMap` reads does not dangle. -/
def Points (j : Job mapNum reduceNum) : Prop :=
  match j.master.map.stage with
  | .popped handle | .returning handle => (mapHandles.read j.master.map.capacity handle).isSome
  | _ => True

instance (j : Job mapNum reduceNum) : Decidable j.Points := by
  unfold Points
  split <;> infer_instance

/-- The mapper that gets past the test of `disabledMapId` is the only one that ever works on its
task, a reducer likewise, and the reducers are not created early. No word comes from behind the
buffer of a file, and no name from a pointer that dangles. -/
def Regular (j : Job mapNum reduceNum) : JobEvent mapNum reduceNum → Prop
  | .mapWorker i behind =>
    match j.mappers i with
    | .received task => disabled j.disabledMapId = false →
      task ∉ j.master.map.finished ∧ ∀ k, (j.mappers k).task ≠ some task
    | .working _ .reading => ∀ c ∈ cString behind, isLetter c = false
    | _ => True
  | .reduceWorker i behind =>
    match j.reducers i with
    | .received task => disabled j.disabledReduceId = false →
      task ∉ j.master.reduce.finished ∧ ∀ k, (j.reducers k).task ≠ some task
    | .working _ (.reading (_ :: _) _) => pieces ' ' (cString behind) = []
    | _ => True
  | .waitMap _ => j.Points
  | .wake => j.master.isMapDone
  | _ => True

instance (j : Job mapNum reduceNum) (event : JobEvent mapNum reduceNum) :
    Decidable (j.Regular event) := by
  unfold Regular
  split
  · split
    · infer_instance
    · exact List.decidableBAll _ _
    · infer_instance
  · split <;> infer_instance
  · infer_instance
  · infer_instance
  · infer_instance

def Counted (texts : List Str) (j : Job mapNum reduceNum) : Prop :=
  ∃ lines : Nat → List Str,
    (∀ r < reduceNum, bytesOf j.dir (outPath r) = ended '\n' (lines r)) ∧
      ((List.range reduceNum).flatMap lines).Perm
        ((tally (texts.flatMap letterRuns)).map fun p => p.1 ++ ' ' :: decimal p.2)

end Job

end ProjectsCpp.MapReduce
