import ProjectsCpp.Lib.TaskBoard
import ProjectsCpp.Lib.Text
import ProjectsCpp.Lib.Run

/-! The master of MapReduce (`MapReduce/master.cpp`). `m_list` holds C strings: those of
`argv`, and those that a timer takes with `c_str()` from an element of `runningMapWork`. A
string of up to 15 characters lies inside its element (libstdc++), so such a pointer dangles
once the vector has moved to another buffer; longer strings are moved with their text. -/

namespace ProjectsCpp.MapReduce
open ProjectsCpp.Text ProjectsCpp.Run ProjectsCpp.TaskBoard

/-- A `char*`; a pointer into `runningMapWork` carries the capacity that the vector had when it
was taken. -/
inductive CString where
  | argv (text : Str)
  | running (text : Str) (capacity : Nat)
deriving DecidableEq

def CString.read (capacity : Nat) : CString → Option Str
  | .argv text => some text
  | .running text taken => if taken = capacity ∨ 15 < text.length then some text else none

def mapHandles : Handles CString Str where
  hand capacity text := .running text capacity
  read := CString.read
  read_hand _ _ := if_pos (.inl rfl)

def reduceHandles : Handles Int Int where
  hand _ reduceIdx := reduceIdx
  read _ := some
  read_hand _ _ := rfl

/-- `map` has `m_list`, `runningMapWork`, `curMapIndex` and `finishedMapTask`; `reduce` has
`reduceIndex`, `runningReduceWork`, `curReduceIndex` and `finishedReduceTask`. -/
structure Master where
  fileNum : Nat
  mapNum : Nat
  reduceNum : Nat
  map : Board CString Str
  reduce : Board Int Int

namespace Master

def make (mapNum reduceNum : Nat) (files : List Str) : Option Master :=
  if mapNum = 0 ∨ reduceNum = 0 then none
  else
    some {
      fileNum := files.length
      mapNum := mapNum
      reduceNum := reduceNum
      map := ⟨files.map .argv, [], 0, 0, ∅, 0, .idle⟩
      reduce := ⟨(List.range reduceNum).map Int.ofNat, [], 0, 0, ∅, 0, .idle⟩ }

def isMapDone (m : Master) : Prop := m.map.finished.card = m.fileNum

def done (m : Master) : Prop := m.reduce.finished.card = m.reduceNum

instance (m : Master) : Decidable m.isMapDone := by
  unfold isMapDone
  infer_instance

instance (m : Master) : Decidable m.done := by
  unfold done
  infer_instance

def idle (m : Master) : Prop := m.map.stage = .idle ∧ m.reduce.stage = .idle

instance (m : Master) : Decidable m.idle := by
  unfold idle
  infer_instance

def onMap (m : Master) (b : Board CString Str) : Master := { m with map := b }

def onReduce (m : Master) (b : Board Int Int) : Master := { m with reduce := b }

def assignTask (m : Master) : Master :=
  if m.isMapDone then m else m.onMap { m.map with stage := .asked }

def assignReduceTask (m : Master) : Master :=
  if m.done then m else m.onReduce { m.reduce with stage := .asked }

def waitMap (m : Master) : Option Master := (m.map.serve mapHandles).map m.onMap

/-- The rest of `assignReduceTask` with `waitReduce`, section by section. -/
def waitReduce (m : Master) : Option Master := (m.reduce.serve reduceHandles).map m.onReduce

def waitMapTask (m : Master) : Option Master := (m.map.fire mapHandles).map m.onMap

def waitReduceTask (m : Master) : Option Master := (m.reduce.fire reduceHandles).map m.onReduce

def setMapStat (m : Master) (filename : Str) : Master := m.onMap (m.map.finish filename)

def setReduceStat (m : Master) (taskIndex : Int) : Master := m.onReduce (m.reduce.finish taskIndex)

end Master

inductive MasterEvent where
  | assignTask
  | waitMap
  | waitMapTask
  | setMapStat (filename : Str)
  | assignReduceTask
  | waitReduce
  | waitReduceTask
  | setReduceStat (taskIndex : Int)

namespace Master

def step (m : Master) : MasterEvent → Option Master
  | .assignTask => if m.idle then some m.assignTask else none
  | .waitMap => m.waitMap
  | .waitMapTask => m.waitMapTask
  | .setMapStat filename => if m.idle then some (m.setMapStat filename) else none
  | .assignReduceTask => if m.idle then some m.assignReduceTask else none
  | .waitReduce => m.waitReduce
  | .waitReduceTask => m.waitReduceTask
  | .setReduceStat taskIndex => if m.idle then some (m.setReduceStat taskIndex) else none

def machine (mapNum reduceNum : Nat) (files : List Str) : Machine Master MasterEvent where
  start m := make mapNum reduceNum files = some m
  step := step

def reduceNumbers (reduceNum : Nat) : List Int := (List.range reduceNum).map Int.ofNat

/-- A timer of either kind that is still to fire has a running task under its cursor. -/
structure TimersInside (m : Master) : Prop where
  map : 0 < m.map.timers → m.map.cursor < m.map.running.length
  reduce : 0 < m.reduce.timers → m.reduce.cursor < m.reduce.running.length

/-- When `runningMapWork` moves to a larger buffer, no entry of `m_list` for an unfinished file
points into the old one. -/
def Outlives (m : Master) : MasterEvent → Prop
  | .waitMap =>
    match m.map.stage with
    | .popped _ => m.map.Outlives mapHandles
    | _ => True
  | _ => True

instance (m : Master) (event : MasterEvent) : Decidable (m.Outlives event) := by
  unfold Outlives
  split
  · split <;> infer_instance
  · infer_instance

variable {mapNum reduceNum : Nat} {files : List Str} {m m' : Master} {event : MasterEvent}

theorem make_boards (made : make mapNum reduceNum files = some m) :
    m.map = ⟨files.map .argv, [], 0, 0, ∅, 0, .idle⟩ ∧
      m.reduce = ⟨reduceNumbers reduceNum, [], 0, 0, ∅, 0, .idle⟩ := by
  rw [make] at made
  split at made
  · cases made
  · cases made
    exact ⟨rfl, rfl⟩

theorem map_step (next : m.step event = some m') :
    (event = .waitMap ∧ m.map.serve mapHandles = some m'.map) ∨ m.map.Aside mapHandles m'.map := by
  cases event with
  | waitMap =>
    obtain ⟨b, served, rfl⟩ := Option.map_eq_some_iff.mp next
    exact .inl ⟨rfl, served⟩
  | waitMapTask =>
    obtain ⟨b, fired, rfl⟩ := Option.map_eq_some_iff.mp next
    exact .inr (.fire fired)
  | waitReduce =>
    obtain ⟨b, served, rfl⟩ := Option.map_eq_some_iff.mp next
    exact .inr .stay
  | waitReduceTask =>
    obtain ⟨b, fired, rfl⟩ := Option.map_eq_some_iff.mp next
    exact .inr .stay
  | assignTask =>
    obtain ⟨idle, ⟨⟩⟩ := Option.ite_none_right_eq_some.mp next
    rw [assignTask]
    split
    · exact .inr .stay
    · exact .inr (.ask idle.1)
  | setMapStat filename =>
    obtain ⟨idle, ⟨⟩⟩ := Option.ite_none_right_eq_some.mp next
    exact .inr (.finish filename)
  | assignReduceTask =>
    obtain ⟨idle, ⟨⟩⟩ := Option.ite_none_right_eq_some.mp next
    rw [assignReduceTask]
    split <;> exact .inr .stay
  | setReduceStat taskIndex =>
    obtain ⟨idle, ⟨⟩⟩ := Option.ite_none_right_eq_some.mp next
    exact .inr .stay

theorem reduce_step (next : m.step event = some m') :
    m.reduce.serve reduceHandles = some m'.reduce ∨ m.reduce.Aside reduceHandles m'.reduce := by
  cases event with
  | waitMap =>
    obtain ⟨b, served, rfl⟩ := Option.map_eq_some_iff.mp next
    exact .inr .stay
  | waitMapTask =>
    obtain ⟨b, fired, rfl⟩ := Option.map_eq_some_iff.mp next
    exact .inr .stay
  | waitReduce =>
    obtain ⟨b, served, rfl⟩ := Option.map_eq_some_iff.mp next
    exact .inl served
  | waitReduceTask =>
    obtain ⟨b, fired, rfl⟩ := Option.map_eq_some_iff.mp next
    exact .inr (.fire fired)
  | assignTask =>
    obtain ⟨idle, ⟨⟩⟩ := Option.ite_none_right_eq_some.mp next
    rw [assignTask]
    split <;> exact .inr .stay
  | setMapStat filename =>
    obtain ⟨idle, ⟨⟩⟩ := Option.ite_none_right_eq_some.mp next
    exact .inr .stay
  | assignReduceTask =>
    obtain ⟨idle, ⟨⟩⟩ := Option.ite_none_right_eq_some.mp next
    rw [assignReduceTask]
    split
    · exact .inr .stay
    · exact .inr (.ask idle.2)
  | setReduceStat taskIndex =>
    obtain ⟨idle, ⟨⟩⟩ := Option.ite_none_right_eq_some.mp next
    exact .inr (.finish taskIndex)

/-- The timers are counted, and no reduce number is lost: their entries are no pointers. -/
structure Kept (reduceNum : Nat) (m : Master) : Prop where
  map : m.map.Counted
  reduce : m.reduce.Counted
  covers : m.reduce.Covers reduceHandles (reduceNumbers reduceNum)

theorem Kept.step (kept : m.Kept reduceNum) (next : m.step event = some m') : m'.Kept reduceNum where
  map := by
    rcases map_step next with ⟨-, served⟩ | aside
    · exact kept.map.serve served
    · exact kept.map.aside aside
  reduce := by
    rcases reduce_step next with served | aside
    · exact kept.reduce.serve served
    · exact kept.reduce.aside aside
  covers := by
    rcases reduce_step next with served | aside
    · exact kept.covers.serve kept.reduce (fun _ _ _ _ _ read _ => read) served
    · exact kept.covers.aside aside

theorem kept (reach : Reachable (machine mapNum reduceNum files) m) : m.Kept reduceNum := by
  refine reach.invariant (fun m made => ?_) fun _ _ _ before _ next => before.step next
  obtain ⟨map, reduce⟩ := make_boards made
  refine ⟨?_, ?_, ?_⟩
  · rw [map]
    rfl
  · rw [reduce]
    rfl
  · rw [reduce]
    exact fun task member _ => .inl ⟨task, member, rfl⟩

/-- Every timer finds a running task under the cursor and no reduce number is lost, in every run;
and no file is lost in a run in which no entry of `m_list` for an unfinished file is left
pointing into an old buffer of `runningMapWork`. -/
theorem no_task_lost :
    (∀ m, Reachable (machine mapNum reduceNum files) m →
      m.TimersInside ∧ m.reduce.Covers reduceHandles (reduceNumbers reduceNum)) ∧
    ∀ m, Reach (machine mapNum reduceNum files) Outlives m → m.map.Covers mapHandles files := by
  refine ⟨fun m reach => ?_, fun m reach => ?_⟩
  · have kept := kept reach
    exact ⟨⟨kept.map.inside, kept.reduce.inside⟩, kept.covers⟩
  · refine reach.invariant_of (P := fun m => m.map.Covers mapHandles files)
      (fun m reach => (kept reach.reachable).map) (fun m made => ?_)
      fun m event m' counted covers outlives next => ?_
    · rw [(make_boards made).1]
      exact fun file member _ => .inl ⟨.argv file, List.mem_map_of_mem member, rfl⟩
    · rcases map_step next with ⟨rfl, served⟩ | aside
      · refine covers.serve counted (fun handle popped => ?_) served
        rwa [Outlives, popped] at outlives
      · exact covers.aside aside

private def handOut : List MasterEvent :=
  [.assignTask, .waitMap, .waitMap, .waitMap, .waitMap, .waitMap]

theorem requeued_file_is_lost :
    ∃ start m, make 1 1 [['a'], ['b']] = some start ∧
      exec (machine 1 1 [['a'], ['b']]) start (handOut ++ handOut ++
        [.waitMapTask, .waitMapTask, .assignTask, .waitMap, .waitMap, .waitMap]) = some m ∧
      m.map.queue = [.running ['b'] 2] ∧ m.map.capacity = 4 ∧
      ¬ m.map.Covers mapHandles [['a'], ['b']] := by
  have ran : ((make 1 1 [['a'], ['b']]).bind fun start =>
      exec (machine 1 1 [['a'], ['b']]) start (handOut ++ handOut ++
        [MasterEvent.waitMapTask, .waitMapTask, .assignTask, .waitMap, .waitMap, .waitMap])).any (fun m =>
          m.map.queue = [.running ['b'] 2] ∧ m.map.capacity = 4 ∧ m.map.cursor = 2 ∧
            m.map.running = [['b'], ['a'], ['a']] ∧ m.map.finished = ∅ ∧
            m.map.stage = .starting (.running ['a'] 2)) = true := by
    decide +kernel
  obtain ⟨m, done, facts⟩ := (Option.any_eq_true _ _).mp ran
  obtain ⟨start, made, done⟩ := Option.bind_eq_some_iff.mp done
  obtain ⟨queue, capacity, cursor, running, finished, stage⟩ := of_decide_eq_true facts
  refine ⟨start, m, made, done, queue, capacity, fun covers => ?_⟩
  have unfinished : ['b'] ∉ m.map.finished := finished ▸ Finset.notMem_empty _
  rcases covers ['b'] (by decide) unfinished with ⟨handle, queued, read⟩ | ⟨i, later, there⟩ |
    ⟨handle, popped, -⟩
  · rw [queue] at queued
    rw [List.mem_singleton.mp queued, capacity] at read
    exact absurd read (by decide)
  · rw [running] at there
    rw [cursor] at later
    match i, later, there with
    | 2, _, there => exact absurd there (by decide)
    | i + 3, _, there => cases there
  · cases stage.symm.trans popped

theorem no_task_lost_two_files :
    ∃ start m, make 1 1 [['a'], ['b']] = some start ∧
      execWhere (machine 1 1 [['a'], ['b']]) Outlives start
        (handOut ++ handOut ++ [.waitMapTask]) = some m ∧
      m.map.queue = [.running ['b'] 2] ∧ m.map.running = [['b'], ['a']] ∧
      m.TimersInside ∧ m.map.Covers mapHandles [['a'], ['b']] := by
  have ran : ((make 1 1 [['a'], ['b']]).bind fun start =>
      execWhere (machine 1 1 [['a'], ['b']]) Outlives start
        (handOut ++ handOut ++ [MasterEvent.waitMapTask])).any (fun m =>
          m.map.queue = [.running ['b'] 2] ∧ m.map.running = [['b'], ['a']]) = true := by
    decide +kernel
  obtain ⟨m, done, facts⟩ := (Option.any_eq_true _ _).mp ran
  obtain ⟨start, made, done⟩ := Option.bind_eq_some_iff.mp done
  obtain ⟨queue, running⟩ := of_decide_eq_true facts
  have reach := (Reach.start (M := machine 1 1 [['a'], ['b']]) made).execWhere done
  exact ⟨start, m, made, done, queue, running, (no_task_lost.1 m reach.reachable).1,
    no_task_lost.2 m reach⟩

end Master

end ProjectsCpp.MapReduce
