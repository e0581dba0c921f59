import Mathlib.Data.Finset.Card
import Mathlib.Data.List.Basic

/-! A board that hands out tasks and takes them back by timers that do not know which task
they guard: every timer that fires looks at the task under one shared cursor. The queue holds
handles, which are read when a task is handed out; the list of running tasks lives in a
growing buffer, and a handle that points into the buffer need not outlive it. -/

namespace ProjectsCpp.TaskBoard

/-- What the queue holds for a task, depending on the buffer of the running tasks. -/
structure Handles (η τ : Type) where
  hand : Nat → τ → η
  read : Nat → η → Option τ
  read_hand : ∀ capacity task, read capacity (hand capacity task) = some task

inductive Stage (η : Type) where
  | idle
  | asked
  | popping
  | popped (handle : η)
  | starting (handle : η)
  | returning (handle : η)
deriving DecidableEq

def Stage.coming {η : Type} : Stage η → Nat
  | .starting _ => 1
  | _ => 0

def Stage.held {η : Type} : Stage η → List η
  | .popped handle | .starting handle | .returning handle => [handle]
  | _ => []

def Handles.Honest {η τ : Type} (h : Handles η τ) : Prop :=
  ∀ capacity capacity' task read, h.read capacity' (h.hand capacity task) = some read → read = task

structure Board (η τ : Type) where
  queue : List η
  running : List τ
  cursor : Nat
  capacity : Nat
  finished : Finset τ
  timers : Nat
  stage : Stage η

def grown (capacity size : Nat) : Nat := if size = capacity then max 1 (2 * capacity) else capacity

namespace Board
variable {η τ : Type} (h : Handles η τ)

def serve (b : Board η τ) : Option (Board η τ) :=
  match b.stage with
  | .idle => none
  | .asked => some { b with stage := if b.queue = [] then .idle else .popping }
  | .popping => b.queue.getLast?.map fun handle =>
    { b with queue := b.queue.dropLast, stage := .popped handle }
  | .popped handle => (h.read b.capacity handle).map fun task =>
    { b with
      running := b.running ++ [task]
      capacity := grown b.capacity b.running.length
      stage := .starting handle }
  | .starting handle => some { b with timers := b.timers + 1, stage := .returning handle }
  | .returning handle => (h.read b.capacity handle).map fun _ => { b with stage := .idle }

def reply (b : Board η τ) : Option τ :=
  match b.stage with
  | .returning handle => h.read b.capacity handle
  | _ => none

def fire [DecidableEq τ] (b : Board η τ) : Option (Board η τ) :=
  if b.timers = 0 then none
  else b.running[b.cursor]?.map fun task =>
    { b with
      queue := if task ∈ b.finished then b.queue else b.queue ++ [h.hand b.capacity task]
      cursor := b.cursor + 1
      timers := b.timers - 1 }

def finish [DecidableEq τ] (b : Board η τ) (task : τ) : Board η τ :=
  { b with finished := insert task b.finished }

/-- Everything that can happen to a board besides the sections of a call under way. -/
inductive Aside [DecidableEq τ] (b : Board η τ) : Board η τ → Prop
  | fire {b' : Board η τ} : b.fire h = some b' → Aside b b'
  | finish (task : τ) : Aside b (b.finish task)
  | ask : b.stage = .idle → Aside b { b with stage := .asked }
  | stay : Aside b b

/-- The timers to come, the one about to be started included, are as many as the tasks from the
cursor on. -/
def Counted (b : Board η τ) : Prop :=
  b.running.length = b.cursor + b.timers + b.stage.coming

theorem Counted.inside {b : Board η τ} (counted : b.Counted) (pending : 0 < b.timers) :
    b.cursor < b.running.length := by
  rw [Counted] at counted
  omega

/-- Where a task is: in the queue, running with its timer to come, or on its way from the one
to the other. -/
def Held (b : Board η τ) (task : τ) : Prop :=
  (∃ handle ∈ b.queue, h.read b.capacity handle = some task) ∨
  (∃ i, b.cursor ≤ i ∧ b.running[i]? = some task) ∨
  ∃ handle, b.stage = .popped handle ∧ h.read b.capacity handle = some task

def Outlives (b : Board η τ) : Prop :=
  ∀ handle ∈ b.queue, ∀ task ∈ h.read b.capacity handle, task ∉ b.finished →
    h.read (grown b.capacity b.running.length) handle = some task

instance [DecidableEq τ] (b : Board η τ) : Decidable (b.Outlives h) := by
  unfold Outlives
  infer_instance

def Covers (tasks : List τ) (b : Board η τ) : Prop :=
  ∀ task ∈ tasks, task ∉ b.finished → b.Held h task

/-- All handles and all running tasks are of these tasks. -/
structure Among (tasks : List τ) (b : Board η τ) : Prop where
  handles : ∀ handle ∈ b.queue ++ b.stage.held, ∀ capacity task,
    h.read capacity handle = some task → task ∈ tasks
  running : ∀ task ∈ b.running, task ∈ tasks

variable {h} {b b' : Board η τ} {tasks : List τ}

theorem serve_finished (next : b.serve h = some b') : b'.finished = b.finished := by
  rw [Board.serve] at next
  split at next
  · cases next
  · cases next
    rfl
  · obtain ⟨handle, -, rfl⟩ := Option.map_eq_some_iff.mp next
    rfl
  · obtain ⟨task, -, rfl⟩ := Option.map_eq_some_iff.mp next
    rfl
  · cases next
    rfl
  · obtain ⟨task, -, rfl⟩ := Option.map_eq_some_iff.mp next
    rfl

theorem Among.reply {task : τ} (among : b.Among h tasks) (its : b.reply h = some task) :
    task ∈ tasks := by
  rw [Board.reply] at its
  split at its
  · rename_i handle stage
    refine among.handles handle (List.mem_append_right _ ?_) _ task its
    rw [stage]
    exact List.mem_singleton_self handle
  · cases its

theorem Among.serve (among : b.Among h tasks) (next : b.serve h = some b') : b'.Among h tasks := by
  have handles := among.handles
  rw [Board.serve] at next
  split at next
  · cases next
  · rename_i stage
    cases next
    refine ⟨fun handle member => handles handle ?_, among.running⟩
    dsimp only at member
    split at member
    · exact List.mem_append_left _ (List.append_nil b.queue ▸ member)
    · exact List.mem_append_left _ (List.append_nil b.queue ▸ member)
  · rename_i stage
    obtain ⟨last, found, rfl⟩ := Option.map_eq_some_iff.mp next
    refine ⟨fun handle member => handles handle (List.mem_append_left _ ?_), among.running⟩
    rw [← List.dropLast_append_getLast? last found]
    exact member
  · rename_i held stage
    obtain ⟨task, read, rfl⟩ := Option.map_eq_some_iff.mp next
    have its : held ∈ b.stage.held := by
      rw [stage]
      exact List.mem_singleton_self held
    refine ⟨fun handle member => handles handle (stage ▸ member), fun other member => ?_⟩
    rcases List.mem_append.mp member with before | new
    · exact among.running other before
    · rw [List.mem_singleton.mp new]
      exact handles held (List.mem_append_right _ its) _ task read
  · rename_i held stage
    cases next
    exact ⟨fun handle member => handles handle (stage ▸ member), among.running⟩
  · rename_i held stage
    obtain ⟨task, read, rfl⟩ := Option.map_eq_some_iff.mp next
    refine ⟨fun handle member => handles handle (List.mem_append_left _ ?_), among.running⟩
    exact List.append_nil b.queue ▸ member

theorem Counted.serve (counted : b.Counted) (next : b.serve h = some b') : b'.Counted := by
  rw [Counted] at counted
  rw [Board.serve] at next
  split at next
  · cases next
  · rename_i stage
    cases next
    rw [stage] at counted
    rw [Counted, counted]
    dsimp only
    split <;> rfl
  · rename_i stage
    obtain ⟨handle, -, rfl⟩ := Option.map_eq_some_iff.mp next
    rw [stage] at counted
    exact counted
  · rename_i handle stage
    obtain ⟨task, -, rfl⟩ := Option.map_eq_some_iff.mp next
    rw [stage] at counted
    rw [Counted, List.length_append, counted]
    rfl
  · rename_i handle stage
    cases next
    rw [stage] at counted
    rw [Counted, counted]
    rfl
  · rename_i handle stage
    obtain ⟨task, -, rfl⟩ := Option.map_eq_some_iff.mp next
    rw [stage] at counted
    exact counted

section
variable [DecidableEq τ]

theorem fire_cases (next : b.fire h = some b') :
    ∃ task, 0 < b.timers ∧ b.running[b.cursor]? = some task ∧
      b' = { b with
        queue := if task ∈ b.finished then b.queue else b.queue ++ [h.hand b.capacity task]
        cursor := b.cursor + 1
        timers := b.timers - 1 } := by
  rw [fire] at next
  split at next
  · cases next
  · rename_i pending
    obtain ⟨task, found, rfl⟩ := Option.map_eq_some_iff.mp next
    exact ⟨task, Nat.pos_of_ne_zero pending, found, rfl⟩

theorem Counted.fire (counted : b.Counted) (next : b.fire h = some b') : b'.Counted := by
  obtain ⟨task, pending, -, rfl⟩ := fire_cases next
  rw [Counted] at counted ⊢
  dsimp only
  omega

theorem Covers.fire (covers : b.Covers h tasks) (next : b.fire h = some b') : b'.Covers h tasks := by
  obtain ⟨moved, -, found, rfl⟩ := fire_cases next
  intro task member unfinished
  have stays : b.queue ⊆ if moved ∈ b.finished then b.queue
      else b.queue ++ [h.hand b.capacity moved] := by
    split
    · exact List.Subset.refl _
    · exact List.subset_append_left _ _
  rcases covers task member unfinished with ⟨handle, queued, read⟩ | ⟨i, reached, there⟩ | popped
  · exact .inl ⟨handle, stays queued, read⟩
  · rcases reached.lt_or_eq with later | rfl
    · exact .inr (.inl ⟨i, later, there⟩)
    · cases found.symm.trans there
      refine .inl ⟨h.hand b.capacity moved, ?_, h.read_hand _ _⟩
      rw [if_neg unfinished]
      exact List.mem_append_right _ (List.mem_singleton_self _)
  · exact .inr (.inr popped)

theorem Counted.aside (counted : b.Counted) (moved : b.Aside h b') : b'.Counted := by
  cases moved with
  | fire next => exact counted.fire next
  | finish task => exact counted
  | ask idle =>
    rw [Counted, idle] at counted
    exact counted
  | stay => exact counted

theorem Covers.aside (covers : b.Covers h tasks) (moved : b.Aside h b') : b'.Covers h tasks := by
  cases moved with
  | fire next => exact covers.fire next
  | finish task =>
    exact fun other member unfinished =>
      covers other member fun before => unfinished (Finset.mem_insert_of_mem before)
  | ask idle =>
    intro task member unfinished
    rcases covers task member unfinished with queued | there | ⟨handle, popped, -⟩
    · exact .inl queued
    · exact .inr (.inl there)
    · cases idle.symm.trans popped
  | stay => exact covers

theorem Among.aside (among : b.Among h tasks) (honest : h.Honest) (moved : b.Aside h b') :
    b'.Among h tasks := by
  cases moved with
  | fire next =>
    obtain ⟨task, -, found, rfl⟩ := fire_cases next
    refine ⟨fun handle member capacity read its => ?_, among.running⟩
    rcases List.mem_append.mp member with queued | held
    · dsimp only at queued
      split at queued
      · exact among.handles handle (List.mem_append_left _ queued) capacity read its
      · rcases List.mem_append.mp queued with before | new
        · exact among.handles handle (List.mem_append_left _ before) capacity read its
        · rw [List.mem_singleton.mp new] at its
          rw [honest _ _ _ _ its]
          exact among.running task (List.mem_of_getElem? found)
    · exact among.handles handle (List.mem_append_right _ held) capacity read its
  | finish task => exact ⟨among.handles, among.running⟩
  | ask idle =>
    refine ⟨fun handle member => among.handles handle (List.mem_append_left _ ?_), among.running⟩
    exact List.append_nil b.queue ▸ member
  | stay => exact among

end

theorem Covers.serve (covers : b.Covers h tasks) (counted : b.Counted)
    (outlives : ∀ handle, b.stage = .popped handle → b.Outlives h)
    (next : b.serve h = some b') : b'.Covers h tasks := by
  intro task member unfinished
  rw [Board.serve] at next
  split at next
  · cases next
  · rename_i stage
    cases next
    rcases covers task member unfinished with queued | there | ⟨handle, popped, -⟩
    · exact .inl queued
    · exact .inr (.inl there)
    · cases stage.symm.trans popped
  · rename_i stage
    obtain ⟨last, found, rfl⟩ := Option.map_eq_some_iff.mp next
    rcases covers task member unfinished with ⟨handle, queued, read⟩ | there | ⟨handle, popped, -⟩
    · rw [← List.dropLast_append_getLast? last found] at queued
      rcases List.mem_append.mp queued with before | taken
      · exact .inl ⟨handle, before, read⟩
      · cases List.mem_singleton.mp taken
        exact .inr (.inr ⟨last, rfl, read⟩)
    · exact .inr (.inl there)
    · cases stage.symm.trans popped
  · rename_i handle stage
    obtain ⟨moved, read, rfl⟩ := Option.map_eq_some_iff.mp next
    rcases covers task member unfinished with ⟨other, queued, reads⟩ | ⟨i, later, there⟩ |
      ⟨other, popped, reads⟩
    · exact .inl ⟨other, queued, outlives handle stage other queued task reads unfinished⟩
    · obtain ⟨inside, -⟩ := List.getElem?_eq_some_iff.mp there
      exact .inr (.inl ⟨i, later, (List.getElem?_append_left inside).trans there⟩)
    · cases stage.symm.trans popped
      cases read.symm.trans reads
      have le : b.cursor ≤ b.running.length := by
        rw [Counted] at counted
        omega
      exact .inr (.inl ⟨b.running.length, le, List.getElem?_concat_length⟩)
  · rename_i handle stage
    cases next
    rcases covers task member unfinished with queued | there | ⟨other, popped, -⟩
    · exact .inl queued
    · exact .inr (.inl there)
    · cases stage.symm.trans popped
  · rename_i handle stage
    obtain ⟨returned, -, rfl⟩ := Option.map_eq_some_iff.mp next
    rcases covers task member unfinished with queued | there | ⟨other, popped, -⟩
    · exact .inl queued
    · exact .inr (.inl there)
    · cases stage.symm.trans popped

end Board

end ProjectsCpp.TaskBoard
