import ProjectsCpp.Lib.Run
import ProjectsCpp.Lib.Hands
import Mathlib.Order.Fin.Basic

/-! A thread pool that has been started (`base/ThreadPool.cc`). A section under `mutex_`, up to its
wait or its end, is one step, and so is the test of `running_` in the loop of a thread. A wait may
end at any time. A failed assertion gives `none`. -/

namespace ProjectsCpp.Muduo.ThreadPool
open ProjectsCpp.Run ProjectsCpp.Hands

inductive RunCall where
  | notYet
  | locking
  | waiting
  | accepted
  | refused
deriving DecidableEq

inductive Worker (m : Nat) where
  | testing
  | locking
  | waiting
  | holding (task : Option (Fin m))
  | executing (task : Fin m)
  | exited
deriving DecidableEq

inductive StopCall where
  | notYet
  | locking
  | joining
  | returned
deriving DecidableEq

/-- A pool of `n + 1` threads and `m` calls of `run`. The last four fields are history: the tasks
put into the queue, taken from it, begun and executed. -/
structure Pool (n m : Nat) where
  maxQueueSize : Nat
  queue : List (Fin m)
  running : Bool
  runs : Fin m → RunCall
  workers : Fin (n + 1) → Worker m
  stopCall : StopCall
  accepted : List (Fin m)
  taken : List (Fin m)
  begun : List (Fin m)
  executed : List (Fin m)

inductive Event (n m : Nat) where
  | run (c : Fin m)
  | runLocked (c : Fin m) (woken : Option (Fin (n + 1)))
  | test (i : Fin (n + 1))
  | takeLocked (i : Fin (n + 1)) (woken : Option (Fin m))
  | task (i : Fin (n + 1))
  | taskDone (i : Fin (n + 1))
  | stop
  | stopLocked
  | joined
  | wakeRun (c : Fin m)
  | wakeWorker (i : Fin (n + 1))

namespace Pool
variable {n m : Nat}

def started (n m maxQueueSize : Nat) : Pool n m :=
  { maxQueueSize := maxQueueSize, queue := [], running := true, runs := fun _ => .notYet
    workers := fun _ => .testing, stopCall := .notYet, accepted := [], taken := [], begun := []
    executed := [] }

def setRun (s : Pool n m) (c : Fin m) (call : RunCall) : Pool n m :=
  { s with runs := Function.update s.runs c call }

def setWorker (s : Pool n m) (i : Fin (n + 1)) (worker : Worker m) : Pool n m :=
  { s with workers := Function.update s.workers i worker }

def notifyNotEmpty (s : Pool n m) : Option (Fin (n + 1)) → Option (Pool n m)
  | some i => if s.workers i = .waiting then some (s.setWorker i .locking) else none
  | none => if ∀ i, s.workers i ≠ .waiting then some s else none

def notifyNotFull (s : Pool n m) : Option (Fin m) → Option (Pool n m)
  | some c => if s.runs c = .waiting then some (s.setRun c .locking) else none
  | none => if ∀ c, s.runs c ≠ .waiting then some s else none

def isFull (s : Pool n m) : Bool := 0 < s.maxQueueSize && s.maxQueueSize ≤ s.queue.length

/-- `run` under the lock, at the start or behind a wait. -/
def run (s : Pool n m) (c : Fin m) (woken : Option (Fin (n + 1))) : Option (Pool n m) :=
  if s.isFull ∧ s.running then some (s.setRun c .waiting)
  else if ¬ s.running then some (s.setRun c .refused)
  else if s.isFull then none
  else
    { s.setRun c .accepted with
      queue := s.queue ++ [c]
      accepted := s.accepted ++ [c] }.notifyNotEmpty woken

/-- `take` under the lock, at the start or behind a wait. -/
def take (s : Pool n m) (i : Fin (n + 1)) (woken : Option (Fin m)) : Option (Pool n m) :=
  if s.queue = [] ∧ s.running then some (s.setWorker i .waiting)
  else match s.queue with
  | [] => some (s.setWorker i (.holding none))
  | task :: queue =>
    let s := { s.setWorker i (.holding (some task)) with
      queue := queue
      taken := s.taken ++ [task] }
    if 0 < s.maxQueueSize then s.notifyNotFull woken else some s

/-- `stop` under the lock. -/
def stop (s : Pool n m) : Pool n m :=
  { s with
    running := false
    stopCall := .joining
    workers := fun i => if s.workers i = .waiting then .locking else s.workers i
    runs := fun c => if s.runs c = .waiting then .locking else s.runs c }

def step (s : Pool n m) : Event n m → Option (Pool n m)
  | .run c => if s.runs c = .notYet then some (s.setRun c .locking) else none
  | .runLocked c woken => if s.runs c = .locking then s.run c woken else none
  | .test i =>
    if s.workers i = .testing then
      some (s.setWorker i (if s.running then .locking else .exited))
    else none
  | .takeLocked i woken => if s.workers i = .locking then s.take i woken else none
  | .task i =>
    match s.workers i with
    | .holding (some task) => some { s.setWorker i (.executing task) with begun := s.begun ++ [task] }
    | .holding none => some (s.setWorker i .testing)
    | _ => none
  | .taskDone i =>
    match s.workers i with
    | .executing task => some { s.setWorker i .testing with executed := s.executed ++ [task] }
    | _ => none
  | .stop => if s.stopCall = .notYet then some { s with stopCall := .locking } else none
  | .stopLocked => if s.stopCall = .locking then some s.stop else none
  | .joined =>
    if s.stopCall = .joining ∧ ∀ i, s.workers i = .exited then some { s with stopCall := .returned }
    else none
  | .wakeRun c => if s.runs c = .waiting then some (s.setRun c .locking) else none
  | .wakeWorker i => if s.workers i = .waiting then some (s.setWorker i .locking) else none

end Pool

def machine (n m : Nat) : Machine (Pool n m) (Event n m) where
  start s := ∃ maxQueueSize, s = .started n m maxQueueSize
  step := Pool.step

/-! ### The invariant -/

def Worker.hand {m : Nat} : Worker m → Option (Fin m × Bool)
  | .holding (some task) => some (task, false)
  | .executing task => some (task, true)
  | _ => none

namespace Pool
variable {n m : Nat} {s t : Pool n m}

def hands (s : Pool n m) (i : Fin (n + 1)) : Option (Fin m × Bool) := (s.workers i).hand

structure Invariant (s : Pool n m) : Prop where
  bounded : 0 < s.maxQueueSize → s.queue.length ≤ s.maxQueueSize
  fifo : s.accepted = s.taken ++ s.queue
  distinct : s.accepted.Nodup
  calls : ∀ c ∈ s.accepted, s.runs c = .accepted
  handled : Handled s.hands s.taken s.begun s.executed
  ended : s.stopCall = .returned → ∀ i, s.workers i = .exited

theorem started_invariant (maxQueueSize : Nat) : (started n m maxQueueSize).Invariant where
  bounded _ := Nat.zero_le _
  fifo := rfl
  distinct := List.nodup_nil
  calls := nofun
  handled := .none
  ended := nofun

/-- Only threads and calls that wait or come to a lock have moved. -/
structure Moved (s t : Pool n m) : Prop where
  maxQueueSize : t.maxQueueSize = s.maxQueueSize
  queue : t.queue = s.queue
  accepted : t.accepted = s.accepted
  taken : t.taken = s.taken
  begun : t.begun = s.begun
  executed : t.executed = s.executed
  calls : ∀ c, s.runs c = .accepted → t.runs c = .accepted
  hands : t.hands = s.hands
  exited : ∀ i, s.workers i = .exited → t.workers i = .exited
  ended : t.stopCall = .returned → s.stopCall = .returned

theorem Invariant.moved (invariant : s.Invariant) (moved : Moved s t) : t.Invariant where
  bounded := by
    rw [moved.maxQueueSize, moved.queue]
    exact invariant.bounded
  fifo := by rw [moved.accepted, moved.taken, moved.queue, invariant.fifo]
  distinct := moved.accepted ▸ invariant.distinct
  calls c member := moved.calls c (invariant.calls c (moved.accepted ▸ member))
  handled := by
    rw [moved.hands, moved.taken, moved.begun, moved.executed]
    exact invariant.handled
  ended returned i := moved.exited i (invariant.ended (moved.ended returned) i)

theorem hands_setWorker (s : Pool n m) (i : Fin (n + 1)) (worker : Worker m) :
    (s.setWorker i worker).hands = Function.update s.hands i worker.hand := by
  funext j
  rw [hands, setWorker]
  dsimp only
  rcases eq_or_ne j i with rfl | other
  · rw [Function.update_self, Function.update_self]
  · rw [Function.update_of_ne other, Function.update_of_ne other]
    rfl

theorem setWorker_moved {i : Fin (n + 1)} {worker : Worker m} (free : s.hands i = none)
    (empty : worker.hand = none) (here : s.workers i ≠ .exited) : Moved s (s.setWorker i worker) where
  maxQueueSize := rfl
  queue := rfl
  accepted := rfl
  taken := rfl
  begun := rfl
  executed := rfl
  calls _ := id
  hands := by rw [hands_setWorker, empty, ← free, Function.update_eq_self]
  exited j gone := by
    have other : j ≠ i := by
      rintro rfl
      exact here gone
    exact (Function.update_of_ne other _ _).trans gone
  ended := id

theorem setRun_moved {c : Fin m} {call : RunCall} (here : s.runs c ≠ .accepted) :
    Moved s (s.setRun c call) where
  maxQueueSize := rfl
  queue := rfl
  accepted := rfl
  taken := rfl
  begun := rfl
  executed := rfl
  calls d accepted := by
    have other : d ≠ c := by
      rintro rfl
      exact here accepted
    exact (Function.update_of_ne other _ _).trans accepted
  hands := rfl
  exited _ := id
  ended := id

theorem Moved.refl (s : Pool n m) : Moved s s :=
  ⟨rfl, rfl, rfl, rfl, rfl, rfl, fun _ => id, rfl, fun _ => id, id⟩

theorem notifyNotEmpty_moved {woken : Option (Fin (n + 1))} (notified : s.notifyNotEmpty woken = some t) :
    Moved s t := by
  cases woken with
  | none =>
    rw [notifyNotEmpty] at notified
    split_ifs at notified
    cases notified
    exact .refl s
  | some i =>
    rw [notifyNotEmpty] at notified
    split_ifs at notified with waits
    cases notified
    exact setWorker_moved (by rw [hands, waits]; rfl) rfl (by rw [waits]; nofun)

theorem notifyNotFull_moved {woken : Option (Fin m)} (notified : s.notifyNotFull woken = some t) :
    Moved s t := by
  cases woken with
  | none =>
    rw [notifyNotFull] at notified
    split_ifs at notified
    cases notified
    exact .refl s
  | some c =>
    rw [notifyNotFull] at notified
    split_ifs at notified with waits
    cases notified
    exact setRun_moved (by rw [waits]; nofun)

/-! ### Steps -/

theorem run_invariant (invariant : s.Invariant) {c : Fin m} {woken : Option (Fin (n + 1))}
    (here : s.runs c = .locking) (next : s.run c woken = some t) : t.Invariant := by
  have unaccepted : s.runs c ≠ .accepted := by rw [here]; nofun
  rw [run] at next
  by_cases waits : s.isFull ∧ s.running
  · rw [if_pos waits] at next
    cases next
    exact invariant.moved (setRun_moved unaccepted)
  rw [if_neg waits] at next
  by_cases stopped : ¬ s.running
  · rw [if_pos stopped] at next
    cases next
    exact invariant.moved (setRun_moved unaccepted)
  rw [if_neg stopped] at next
  split_ifs at next with full
  refine Invariant.moved ?_ (notifyNotEmpty_moved next)
  have fresh : c ∉ s.accepted := fun member => unaccepted (invariant.calls c member)
  have call : (s.setRun c .accepted).runs c = .accepted := Function.update_self ..
  constructor
  · intro (positive : 0 < s.maxQueueSize)
    have room : ¬ s.maxQueueSize ≤ s.queue.length := by
      intro large
      exact full (by rw [isFull, decide_eq_true positive, decide_eq_true large]; rfl)
    change (s.queue ++ [c]).length ≤ s.maxQueueSize
    rw [List.length_append, List.length_singleton]
    omega
  · change s.accepted ++ [c] = s.taken ++ (s.queue ++ [c])
    rw [invariant.fifo, List.append_assoc]
  · change (s.accepted ++ [c]).Nodup
    exact List.concat_eq_append ▸ invariant.distinct.concat fresh
  · intro d member
    rcases List.mem_append.mp member with before | new
    · exact (setRun_moved unaccepted).calls d (invariant.calls d before)
    · rw [List.mem_singleton.mp new]
      exact call
  · exact invariant.handled
  · exact invariant.ended

theorem take_invariant (invariant : s.Invariant) {i : Fin (n + 1)} {woken : Option (Fin m)}
    (here : s.workers i = .locking) (next : s.take i woken = some t) : t.Invariant := by
  have free : s.hands i = none := by rw [hands, here]; rfl
  have present : s.workers i ≠ .exited := by rw [here]; nofun
  rw [take] at next
  split_ifs at next with waits
  · cases next
    exact invariant.moved (setWorker_moved free rfl present)
  · split at next
    · cases next
      exact invariant.moved (setWorker_moved free rfl present)
    · rename_i task queue nonempty
      have fifo : s.accepted = s.taken ++ task :: queue := nonempty ▸ invariant.fifo
      have distinct := invariant.distinct
      have bounded := invariant.bounded
      rw [nonempty, List.length_cons] at bounded
      rw [fifo] at distinct
      have fresh : task ∉ s.taken := fun member =>
        (List.nodup_append.mp distinct).2.2 task member task List.mem_cons_self rfl
      have received : Invariant { s.setWorker i (.holding (some task)) with
          queue := queue
          taken := s.taken ++ [task] } := by
        constructor
        · exact fun positive => Nat.le_of_succ_le (bounded positive)
        · exact fifo.trans (List.append_cons ..)
        · exact invariant.distinct
        · exact invariant.calls
        · have handled := invariant.handled.receive free fresh
          rwa [show some (task, false) = (Worker.holding (some task)).hand from rfl,
            ← hands_setWorker] at handled
        · intro returned
          exact absurd (invariant.ended returned i) present
      dsimp only at next
      split_ifs at next
      · exact received.moved (notifyNotFull_moved next)
      · cases next
        exact received

theorem stop_moved (s : Pool n m) : Moved s s.stop where
  maxQueueSize := rfl
  queue := rfl
  accepted := rfl
  taken := rfl
  begun := rfl
  executed := rfl
  calls c accepted := by
    rw [stop]
    dsimp only
    rw [accepted, if_neg nofun]
  hands := by
    funext i
    rw [hands, hands, stop]
    dsimp only
    split_ifs with waits
    · rw [waits]
      rfl
    · rfl
  exited i gone := by
    rw [stop]
    dsimp only
    rw [gone, if_neg nofun]
  ended := nofun

theorem step_invariant (invariant : s.Invariant) {e : Event n m} (next : s.step e = some t) :
    t.Invariant := by
  cases e with
  | run c =>
    rw [step] at next
    split_ifs at next with here
    cases next
    exact invariant.moved (setRun_moved (by rw [here]; nofun))
  | runLocked c woken =>
    rw [step] at next
    split_ifs at next with here
    exact run_invariant invariant here next
  | test i =>
    have empty : (if s.running then Worker.locking else .exited : Worker m).hand = none := by
      split <;> rfl
    rw [step] at next
    by_cases here : s.workers i = .testing
    swap
    · rw [if_neg here] at next
      cases next
    rw [if_pos here] at next
    cases next
    exact invariant.moved (setWorker_moved (by rw [hands, here]; rfl) empty (by rw [here]; nofun))
  | takeLocked i woken =>
    rw [step] at next
    split_ifs at next with here
    exact take_invariant invariant here next
  | task i =>
    rw [step] at next
    split at next
    · rename_i task here
      cases next
      have held : s.hands i = some (task, false) := by rw [hands, here]; rfl
      have handled := invariant.handled.begin held
      rw [show some (task, true) = (Worker.executing task).hand from rfl, ← hands_setWorker]
        at handled
      exact ⟨invariant.bounded, invariant.fifo, invariant.distinct, invariant.calls, handled,
        fun returned => absurd (invariant.ended returned i) (by rw [here]; nofun)⟩
    · rename_i here
      cases next
      exact invariant.moved (setWorker_moved (by rw [hands, here]; rfl) rfl (by rw [here]; nofun))
    · cases next
  | taskDone i =>
    rw [step] at next
    split at next
    · rename_i task here
      cases next
      have held : s.hands i = some (task, true) := by rw [hands, here]; rfl
      have handled := invariant.handled.finish held
      rw [show none = (Worker.testing : Worker m).hand from rfl, ← hands_setWorker] at handled
      exact ⟨invariant.bounded, invariant.fifo, invariant.distinct, invariant.calls, handled,
        fun returned => absurd (invariant.ended returned i) (by rw [here]; nofun)⟩
    · cases next
  | stop =>
    rw [step] at next
    split_ifs at next with here
    cases next
    exact { invariant with ended := nofun }
  | stopLocked =>
    rw [step] at next
    split_ifs at next with here
    cases next
    exact invariant.moved (stop_moved s)
  | joined =>
    rw [step] at next
    split_ifs at next with all
    cases next
    exact { invariant with ended := fun _ => all.2 }
  | wakeRun c =>
    rw [step] at next
    split_ifs at next with here
    cases next
    exact invariant.moved (setRun_moved (by rw [here]; nofun))
  | wakeWorker i =>
    rw [step] at next
    split_ifs at next with here
    cases next
    exact invariant.moved (setWorker_moved (by rw [hands, here]; rfl) rfl (by rw [here]; nofun))

theorem reachable_invariant (reach : Reachable (machine n m) s) : s.Invariant := by
  refine Reach.invariant ?_ (fun s e t invariant _ next => step_invariant invariant next) reach
  rintro s ⟨maxQueueSize, rfl⟩
  exact started_invariant maxQueueSize

end Pool

/-- At every moment the queue is as small as it should be and no task has been begun twice. Behind
`stop` each accepted task has been executed once or is still in the queue; those are the last ones. -/
theorem stop_keeps {n m : Nat} (s : Pool n m) (reach : Reachable (machine n m) s) :
    (0 < s.maxQueueSize → s.queue.length ≤ s.maxQueueSize) ∧ s.begun.Nodup ∧
      (s.stopCall = .returned →
        (∀ c ∈ s.accepted, s.executed.count c = if c ∈ s.queue then 0 else 1) ∧
        ∃ executed, s.executed.Perm executed ∧ s.accepted = executed ++ s.queue) := by
  obtain ⟨bounded, fifo, distinct, -, handled, ended⟩ := Pool.reachable_invariant reach
  refine ⟨bounded, handled.begun_once, fun returned => ?_⟩
  have empty : ∀ i, s.hands i = none := fun i => by rw [Pool.hands, ended returned i]; rfl
  rw [fifo] at distinct
  have perm := handled.perm (List.nodup_append.mp distinct).1 empty
  refine ⟨fun c member => ?_, s.taken, perm, fifo⟩
  have apart := (List.nodup_append.mp distinct).2.2
  have executed := perm.mem_iff (a := c)
  rw [handled.once.count]
  rcases List.mem_append.mp (fifo ▸ member) with taken | queued
  · rw [if_pos (executed.mpr taken), if_neg fun queued => apart c taken c queued rfl]
  · rw [if_neg fun done => apart c (executed.mp done) c queued rfl, if_pos queued]

def earlyStop : List (Event 0 2) :=
  [.run 0, .runLocked 0 none, .run 1, .runLocked 1 none, .test 0, .takeLocked 0 none, .stop,
    .stopLocked, .task 0, .taskDone 0, .test 0, .joined]

theorem stop_keeps_early :
    ∃ s : Pool 0 2, exec (machine 0 2) (.started 0 2 5) earlyStop = some s ∧
      (0 < s.maxQueueSize → s.queue.length ≤ s.maxQueueSize) ∧ s.begun.Nodup ∧
      (s.stopCall = .returned →
        (∀ c ∈ s.accepted, s.executed.count c = if c ∈ s.queue then 0 else 1) ∧
        ∃ executed, s.executed.Perm executed ∧ s.accepted = executed ++ s.queue) := by
  have start : Reachable (machine 0 2) (.started 0 2 5) := .start ⟨5, rfl⟩
  obtain ⟨s, run⟩ : ∃ s, exec (machine 0 2) (.started 0 2 5) earlyStop = some s :=
    Option.isSome_iff_exists.mp rfl
  exact ⟨s, run, stop_keeps s (Reach.exec start run)⟩

theorem stop_drops :
    (exec (machine 0 1) (.started 0 1 0) [.run 0, .runLocked 0 none]).map
      (fun s => (s.runs 0, s.stopCall)) = some (.accepted, .notYet) ∧
    (exec (machine 0 1) (.started 0 1 0)
        [.run 0, .runLocked 0 none, .stop, .stopLocked, .test 0, .joined]).map
      (fun s => (s.stopCall, s.executed)) = some (.returned, []) := by
  decide

end ProjectsCpp.Muduo.ThreadPool
