import ProjectsCpp.Lib.Run
import Mathlib.Logic.Function.Basic
import Mathlib.Algebra.Group.Nat.Defs
import Mathlib.Algebra.Group.Int.Defs

/-! The functor queue of an event loop (`EventLoop.cc` of muduo_cpp11) and its wake-up. The loop
thread is `none`, the others are `some t`; a step is what a thread does between two accesses to
what is shared. What an event callback or a functor does is the queueing steps that the loop thread
takes meanwhile. `queued` and `executed` are history. -/

namespace ProjectsCpp.Muduo
open ProjectsCpp.Run

/-- Where the loop thread is in `loop`. -/
inductive Phase (F : Type) where
  | stopped
  | head
  | poll
  | events (wakeup : Bool)
  | swap
  | calling (functors : List F)

/-- Where a thread is in `queueInLoop` or `quit`. -/
inductive Caller where
  | idle
  | pushed
  | quitting
deriving DecidableEq

structure EventLoop (T F : Type) where
  phase : Phase F
  quit : Bool
  callingPendingFunctors : Bool
  pendingFunctors : List F
  wakeupFd : Nat
  caller : Option T → Caller
  queued : List F
  executed : List F

inductive LoopStep (T F : Type) where
  | loop
  | check
  | poll (wakeup : Bool)
  | handleRead
  | beginFunctors
  | swap
  | call
  | endFunctors
  | runInLoop (t : Option T) (f : F)
  | queueInLoop (t : Option T) (f : F)
  | quit (t : Option T)
  | wakeup (t : Option T)

namespace EventLoop
variable {T F : Type} [DecidableEq T]

def new : EventLoop T F := ⟨.stopped, false, false, [], 0, fun _ => .idle, [], []⟩

def inCallback (s : EventLoop T F) : Bool :=
  match s.phase with
  | .events _ | .calling _ => true
  | _ => false

/-- The section of `queueInLoop` under the lock, and whether it goes on with `wakeup`. -/
def push (s : EventLoop T F) (t : Option T) (f : F) : EventLoop T F :=
  { s with
    pendingFunctors := s.pendingFunctors ++ [f]
    queued := s.queued ++ [f]
    caller := Function.update s.caller t
      (if t ≠ none ∨ s.callingPendingFunctors then .pushed else .idle) }

def queueInLoop (s : EventLoop T F) (t : Option T) (f : F) : Option (EventLoop T F) :=
  if s.caller t = .idle ∧ (t = none → s.inCallback) then some (s.push t f) else none

def wakeup (s : EventLoop T F) : EventLoop T F :=
  { s with wakeupFd := if s.wakeupFd < 2 ^ 64 - 2 then s.wakeupFd + 1 else s.wakeupFd }

def advance (s : EventLoop T F) (next : Phase F → Option (EventLoop T F)) :
    Option (EventLoop T F) :=
  if s.caller none = .idle then next s.phase else none

def step (s : EventLoop T F) : LoopStep T F → Option (EventLoop T F)
  | .loop => s.advance fun
    | .stopped => some { s with phase := .head, quit := false }
    | _ => none
  | .check => s.advance fun
    | .head => some { s with phase := if s.quit then .stopped else .poll }
    | _ => none
  | .poll wakeup => s.advance fun
    | .poll => if wakeup → 0 < s.wakeupFd then some { s with phase := .events wakeup } else none
    | _ => none
  | .handleRead => s.advance fun
    | .events true => some { s with phase := .events false, wakeupFd := 0 }
    | _ => none
  | .beginFunctors => s.advance fun
    | .events false => some { s with phase := .swap, callingPendingFunctors := true }
    | _ => none
  | .swap => s.advance fun
    | .swap => some { s with phase := .calling s.pendingFunctors, pendingFunctors := [] }
    | _ => none
  | .call => s.advance fun
    | .calling (f :: rest) => some { s with phase := .calling rest, executed := s.executed ++ [f] }
    | _ => none
  | .endFunctors => s.advance fun
    | .calling [] => some { s with phase := .head, callingPendingFunctors := false }
    | _ => none
  | .runInLoop t f =>
    match t with
    | none => if s.caller none = .idle ∧ s.inCallback then some s else none
    | some t => s.queueInLoop (some t) f
  | .queueInLoop t f => s.queueInLoop t f
  | .quit t =>
    if s.caller t = .idle ∧ (t = none → s.inCallback) then
      some { s with
        quit := true
        caller := Function.update s.caller t (if t ≠ none then .quitting else .idle) }
    else none
  | .wakeup t =>
    if s.caller t ≠ .idle then
      some { s.wakeup with caller := Function.update s.caller t .idle }
    else none

def machine (T F : Type) [DecidableEq T] : Machine (EventLoop T F) (LoopStep T F) where
  start := (· = new)
  step := step

def running (s : EventLoop T F) : List F :=
  match s.phase with
  | .calling functors => functors
  | _ => []

def todo (s : EventLoop T F) : List F := s.running ++ s.pendingFunctors

def Awake (s : EventLoop T F) : Prop :=
  s.pendingFunctors ≠ [] → 0 < s.wakeupFd ∨ ∃ t, s.caller t = .pushed

end EventLoop

namespace Phase
variable {F : Type}

def late : Phase F → Bool
  | .swap | .calling _ => true
  | _ => false

def early : Phase F → Bool
  | .events _ | .swap => true
  | _ => false

end Phase

namespace EventLoop
variable {T F : Type}

structure Kept (s : EventLoop T F) : Prop where
  history : s.executed ++ s.todo = s.queued
  flag : s.phase.late = true → s.callingPendingFunctors = true
  awake : s.phase.early = false → s.Awake

variable {s s' : EventLoop T F} {t : Option T} {f : F} {a : LoopStep T F}

theorem advance_spec {next : Phase F → Option (EventLoop T F)}
    (done : s.advance next = some s') : s.caller none = .idle ∧ next s.phase = some s' :=
  Option.ite_none_right_eq_some.mp done

theorem Awake.mono (awake : s.Awake) (pending : s'.pendingFunctors = s.pendingFunctors)
    (counter : s.wakeupFd ≤ s'.wakeupFd) (caller : ∀ t, s.caller t = .pushed → s'.caller t = .pushed) :
    s'.Awake := by
  intro waiting
  rcases awake (pending ▸ waiting) with positive | ⟨t, pushed⟩
  · exact .inl (Nat.lt_of_lt_of_le positive counter)
  · exact .inr ⟨t, caller t pushed⟩

variable [DecidableEq T]

theorem Kept.queueInLoop (kept : s.Kept) (done : s.queueInLoop t f = some s') : s'.Kept := by
  obtain ⟨⟨idle, inside⟩, same⟩ := Option.ite_none_right_eq_some.mp done
  obtain rfl := Option.some.inj same
  refine ⟨?_, kept.flag, fun notEarly _ => .inr ⟨t, ?_⟩⟩
  · show s.executed ++ (s.running ++ (s.pendingFunctors ++ [f])) = s.queued ++ [f]
    rw [← kept.history, todo, List.append_assoc, List.append_assoc]
  · -- In these phases the loop thread is in a functor, so that the flag is set.
    show Function.update s.caller t _ t = .pushed
    rw [Function.update_self, if_pos]
    by_cases other : t = none
    · have inside := inside other
      rw [inCallback] at inside
      split at inside
      · rename_i phase
        exact nomatch (phase ▸ notEarly : (Phase.events _).early = false)
      · rename_i phase
        exact .inr (kept.flag (by rw [phase]; rfl))
      · cases inside
    · exact .inl other

theorem Kept.quit (kept : s.Kept) (idle : s.caller t = .idle) (c : Caller) (q : Bool) :
    Kept { s with quit := q, caller := Function.update s.caller t c } :=
  ⟨kept.history, kept.flag, fun notEarly =>
    (kept.awake notEarly).mono rfl (Nat.le_refl _) fun u pushed => by
      have apart : u ≠ t := fun same => nomatch (same ▸ idle).symm.trans pushed
      exact (Function.update_of_ne apart ..).trans pushed⟩

theorem Kept.wakeup (kept : s.Kept) :
    Kept { s.wakeup with caller := Function.update s.caller t .idle } := by
  refine ⟨kept.history, kept.flag, fun _ _ => .inl ?_⟩
  show 0 < if s.wakeupFd < 2 ^ 64 - 2 then s.wakeupFd + 1 else s.wakeupFd
  split
  · exact Nat.succ_pos _
  · omega

theorem step_kept (kept : s.Kept) (next : step s a = some s') : s'.Kept := by
  have history := kept.history
  rw [todo, running] at history
  cases a with
  | loop =>
    simp only [step] at next
    obtain ⟨-, next⟩ := advance_spec next
    split at next
    · rename_i phase
      obtain rfl := Option.some.inj next
      rw [phase] at history
      exact ⟨history, nofun, fun _ => (kept.awake (phase ▸ rfl)).mono rfl (Nat.le_refl _) fun _ => id⟩
    · cases next
  | check =>
    simp only [step] at next
    obtain ⟨-, next⟩ := advance_spec next
    split at next
    · rename_i phase
      obtain rfl := Option.some.inj next
      rw [phase] at history
      have awake := (kept.awake (phase ▸ rfl)).mono rfl (Nat.le_refl _) fun _ => id
      cases quit : s.quit with
      | true => exact ⟨history, nofun, fun _ => awake⟩
      | false => exact ⟨history, nofun, fun _ => awake⟩
    · cases next
  | poll wakeup =>
    simp only [step] at next
    obtain ⟨-, next⟩ := advance_spec next
    split at next
    · rename_i phase
      obtain ⟨-, same⟩ := Option.ite_none_right_eq_some.mp next
      obtain rfl := Option.some.inj same
      rw [phase] at history
      exact ⟨history, nofun, nofun⟩
    · cases next
  | handleRead =>
    simp only [step] at next
    obtain ⟨-, next⟩ := advance_spec next
    split at next
    · rename_i phase
      obtain rfl := Option.some.inj next
      rw [phase] at history
      exact ⟨history, nofun, nofun⟩
    · cases next
  | beginFunctors =>
    simp only [step] at next
    obtain ⟨-, next⟩ := advance_spec next
    split at next
    · rename_i phase
      obtain rfl := Option.some.inj next
      rw [phase] at history
      exact ⟨history, fun _ => rfl, nofun⟩
    · cases next
  | swap =>
    simp only [step] at next
    obtain ⟨-, next⟩ := advance_spec next
    split at next
    · rename_i phase
      obtain rfl := Option.some.inj next
      rw [phase, List.nil_append] at history
      refine ⟨?_, fun _ => kept.flag (phase ▸ rfl), fun _ waiting => absurd rfl waiting⟩
      show s.executed ++ (s.pendingFunctors ++ []) = s.queued
      rw [List.append_nil, history]
    · cases next
  | call =>
    simp only [step] at next
    obtain ⟨-, next⟩ := advance_spec next
    split at next
    · rename_i f rest phase
      obtain rfl := Option.some.inj next
      rw [phase] at history
      refine ⟨?_, fun _ => kept.flag (phase ▸ rfl), fun _ =>
        (kept.awake (phase ▸ rfl)).mono rfl (Nat.le_refl _) fun _ => id⟩
      show s.executed ++ [f] ++ (rest ++ s.pendingFunctors) = s.queued
      rw [List.append_assoc, ← history]
      rfl
    · cases next
  | endFunctors =>
    simp only [step] at next
    obtain ⟨-, next⟩ := advance_spec next
    split at next
    · rename_i phase
      obtain rfl := Option.some.inj next
      rw [phase] at history
      exact ⟨history, nofun, fun _ =>
        (kept.awake (phase ▸ rfl)).mono rfl (Nat.le_refl _) fun _ => id⟩
    · cases next
  | runInLoop t f =>
    cases t with
    | none =>
      obtain ⟨-, same⟩ := Option.ite_none_right_eq_some.mp next
      exact Option.some.inj same ▸ kept
    | some t => exact kept.queueInLoop next
  | queueInLoop t f => exact kept.queueInLoop next
  | quit t =>
    obtain ⟨⟨idle, -⟩, same⟩ := Option.ite_none_right_eq_some.mp next
    exact Option.some.inj same ▸ kept.quit idle _ _
  | wakeup t =>
    obtain ⟨-, same⟩ := Option.ite_none_right_eq_some.mp next
    exact Option.some.inj same ▸ kept.wakeup

theorem step_history (next : step s a = some s') :
    (s'.executed = s.executed ∧ s'.queued = s.queued) ∨
    (∃ f, s'.executed = s.executed ∧ s'.queued = s.queued ++ [f]) ∨
    ∃ f, s'.executed = s.executed ++ [f] ∧ s'.queued = s.queued := by
  have queue : ∀ {t f}, s.queueInLoop t f = some s' →
      s'.executed = s.executed ∧ s'.queued = s.queued ++ [f] := fun done => by
    obtain ⟨-, same⟩ := Option.ite_none_right_eq_some.mp done
    obtain rfl := Option.some.inj same
    exact ⟨rfl, rfl⟩
  cases a with
  | loop | check | handleRead | beginFunctors | swap | endFunctors =>
    simp only [step] at next
    obtain ⟨-, next⟩ := advance_spec next
    split at next
    · obtain rfl := Option.some.inj next
      exact .inl ⟨rfl, rfl⟩
    · cases next
  | poll wakeup =>
    simp only [step] at next
    obtain ⟨-, next⟩ := advance_spec next
    split at next
    · obtain ⟨-, same⟩ := Option.ite_none_right_eq_some.mp next
      obtain rfl := Option.some.inj same
      exact .inl ⟨rfl, rfl⟩
    · cases next
  | call =>
    simp only [step] at next
    obtain ⟨-, next⟩ := advance_spec next
    split at next
    · rename_i f rest phase
      obtain rfl := Option.some.inj next
      exact .inr (.inr ⟨f, rfl, rfl⟩)
    · cases next
  | runInLoop t f =>
    cases t with
    | none =>
      obtain ⟨-, same⟩ := Option.ite_none_right_eq_some.mp next
      obtain rfl := Option.some.inj same
      exact .inl ⟨rfl, rfl⟩
    | some t => exact .inr (.inl ⟨f, queue next⟩)
  | queueInLoop t f => exact .inr (.inl ⟨f, queue next⟩)
  | quit t | wakeup t =>
    obtain ⟨-, same⟩ := Option.ite_none_right_eq_some.mp next
    obtain rfl := Option.some.inj same
    exact .inl ⟨rfl, rfl⟩

theorem step_todo (kept : s.Kept) (next : step s a = some s') :
    s'.todo = s.todo ∨ (∃ f, s'.todo = s.todo ++ [f]) ∨ ∃ f, s.todo = f :: s'.todo := by
  have before := kept.history
  have after := (step_kept kept next).history
  rcases step_history next with ⟨executed, queued⟩ | ⟨f, executed, queued⟩ | ⟨f, executed, queued⟩
  · refine .inl ((List.append_right_inj s.executed).mp ?_)
    rw [before, ← executed, after, queued]
  · refine .inr (.inl ⟨f, (List.append_right_inj s.executed).mp ?_⟩)
    rw [← List.append_assoc, before, ← executed, after, queued]
  · refine .inr (.inr ⟨f, (List.append_right_inj s.executed).mp ?_⟩)
    rw [before, ← queued, ← after, executed, List.append_assoc, List.singleton_append]

/-- Functors are executed in the order in which they are queued, and the loop thread does not go to
sleep over one. -/
theorem functors_in_order (reach : Reachable (machine T F) s) :
    s.executed ++ s.todo = s.queued ∧ (s.phase = .poll → s.Awake) := by
  have kept : s.Kept := by
    refine reach.invariant (fun s => ?_) fun s a s' kept _ next => step_kept kept next
    rintro rfl
    exact ⟨rfl, nofun, fun _ waiting => absurd rfl waiting⟩
  exact ⟨kept.history, fun polls => kept.awake (polls ▸ rfl)⟩

/-- A functor of another thread comes between `poll` and the swap, and queues one itself. -/
def twoRounds : List (LoopStep Unit Nat) :=
  [.loop, .check, .queueInLoop (some ()) 1, .wakeup (some ()), .poll true, .handleRead,
    .queueInLoop none 2, .beginFunctors, .swap, .call, .queueInLoop none 3, .wakeup none, .call,
    .endFunctors, .check]

theorem functors_in_order_two_rounds :
    ∃ s, exec (machine Unit Nat) new twoRounds = some s ∧ s.executed = [1, 2] ∧
      s.executed ++ s.todo = s.queued ∧ s.phase = .poll ∧ s.Awake := by
  obtain ⟨s, ran, executed, phase⟩ : ∃ s, exec (machine Unit Nat) new twoRounds = some s ∧
      s.executed = [1, 2] ∧ s.phase = .poll := ⟨_, rfl, rfl, rfl⟩
  obtain ⟨history, awake⟩ := functors_in_order (Reach.exec (.start rfl) ran)
  exact ⟨s, ran, executed, history, phase, awake phase⟩

end EventLoop

end ProjectsCpp.Muduo
