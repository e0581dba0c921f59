import ProjectsCpp.WebServer.AsyncLogging

/-! `stop` of the asynchronous log (`base/AsyncLogging.h`) against the loop of `threadFunc`, which
tests `running_` at its head and does not look at the buffers of the front end again. -/

namespace ProjectsCpp.WebServer.AsyncLogging
open ProjectsCpp.Run

def frontLines (s : AsyncLogging) : List Line := linesOf s.buffers ++ linesOf s.currentBuffer.toList

def Before (s : AsyncLogging) : LogStep → Prop
  | .append _ => s.running = true
  | _ => True

/-- Where there are lines in the front end, `stop` finds the back end between its test of `running_`
and its swap. -/
def Timely (s : AsyncLogging) : LogStep → Prop
  | .append _ => s.running = true
  | .stop => s.phase = .lock ∨ s.phase = .waiting ∨ s.frontLines = []
  | _ => True

def Saved (s : AsyncLogging) : Prop :=
  s.phase = .done → s.appended = s.takenLines ∧ s.output.flushed = s.keptLines

structure Closing (s : AsyncLogging) : Prop where
  front : s.running = false → s.phase = .lock ∨ s.phase = .waiting ∨ s.frontLines = []
  ended : s.phase = .finish ∨ s.phase = .done → s.running = false
  flushed : s.phase = .done → s.output.flushed = s.output.file

variable {s s' : AsyncLogging} {a : LogStep}

theorem Closing.saved (closing : s.Closing) (kept : s.Kept) : s.Saved := by
  intro done
  have empty : s.frontLines = [] := by
    rcases closing.front (closing.ended (.inr done)) with lock | waiting | empty
    · cases lock.symm.trans done
    · cases waiting.symm.trans done
    · exact empty
  have appended := kept.appended
  have written := kept.written
  rw [untaken, done, if_neg (fun same => by cases same), linesOf_nil, List.append_nil,
    List.append_assoc] at appended
  rw [unwritten, done, linesOf_nil, List.append_nil] at written
  constructor
  · calc s.appended = s.takenLines ++ s.frontLines := appended
      _ = s.takenLines := by rw [empty, List.append_nil]
  · exact (closing.flushed done).trans written

theorem Closing.move (closing : s.Closing) (later : s.phase ≠ .lock ∧ s.phase ≠ .waiting)
    (front : s'.frontLines = s.frontLines) (same : s'.running = s.running)
    (loop : s'.phase ≠ .finish ∧ s'.phase ≠ .done) : s'.Closing where
  front := fun stopped => by
    rcases closing.front (same ▸ stopped) with lock | waiting | empty
    · exact absurd lock later.1
    · exact absurd waiting later.2
    · exact .inr (.inr (front.trans empty))
  ended := fun ended => ended.elim (absurd · loop.1) (absurd · loop.2)
  flushed := fun ended => absurd ended loop.2

theorem closing_of_running (on : s.running = true) (loop : ¬(s.phase = .finish ∨ s.phase = .done)) :
    s.Closing :=
  ⟨fun off => (nomatch on.symm.trans off), fun ended => absurd ended loop,
    fun ended => absurd (.inr ended) loop⟩

theorem closing_swap (kept : s.Kept) (resting : s.phase.resting = true) (done : s.swap = some s') :
    s'.Closing := by
  obtain ⟨current, here, rfl⟩ := Option.map_eq_some_iff.mp done
  obtain ⟨new1, -, empty⟩ := kept.ready resting
  refine ⟨fun _ => .inr (.inr ?_), nofun, nofun⟩
  show linesOf s.buffersToWrite ++ linesOf s.newBuffer1.toList = []
  rw [empty, new1]
  rfl

theorem step_closing (kept : s.Kept) (closing : s.Closing) (timely : s.Timely a)
    (next : step s a = some s') : s'.Closing := by
  cases a with
  | append line =>
    obtain ⟨short, done⟩ := Option.ite_none_right_eq_some.mp next
    obtain ⟨current, here, rfl⟩ := Option.map_eq_some_iff.mp done
    have on : s.running = true := timely
    have loop : ¬(s.phase = .finish ∨ s.phase = .done) :=
      fun ended => Bool.false_ne_true ((closing.ended ended).symm.trans on)
    split <;> exact closing_of_running on loop
  | test =>
    simp only [step] at next
    split at next
    · rename_i phase
      obtain rfl := Option.some.inj next
      refine ⟨fun off => ?_, fun ended => ?_, fun ended => ?_⟩
      · rcases closing.front off with lock | waiting | empty
        · cases phase.symm.trans lock
        · cases phase.symm.trans waiting
        · exact .inr (.inr empty)
      · change (if s.running then LogPhase.lock else .finish) = .finish ∨
          (if s.running then LogPhase.lock else .finish) = .done at ended
        split at ended
        · exact ended.elim (fun same => by cases same) (fun same => by cases same)
        · exact Bool.eq_false_iff.mpr ‹_›
      · change (if s.running then LogPhase.lock else .finish) = .done at ended
        split at ended <;> cases ended
    · cases next
  | lock =>
    simp only [step] at next
    split at next
    · rename_i phase
      split at next
      · exact Option.some.inj next ▸ ⟨fun _ => .inr (.inl rfl), (by simp), fun same => by cases same⟩
      · exact closing_swap kept (phase ▸ rfl) next
    · cases next
  | wake =>
    simp only [step] at next
    split at next
    · rename_i phase
      exact closing_swap kept (phase ▸ rfl) next
    · cases next
  | drop =>
    simp only [step] at next
    split at next
    · rename_i phase
      exact Option.some.inj next ▸ closing.move
        ⟨phase ▸ (fun same => by cases same), phase ▸ (fun same => by cases same)⟩ rfl rfl
        ⟨(fun same => by cases same), fun same => by cases same⟩
    · cases next
  | write =>
    simp only [step] at next
    split at next
    · rename_i phase
      exact Option.some.inj next ▸ closing.move
        ⟨phase ▸ (fun same => by cases same), phase ▸ (fun same => by cases same)⟩ rfl rfl
        ⟨(fun same => by cases same), fun same => by cases same⟩
    · cases next
  | refill =>
    simp only [step] at next
    split at next
    · rename_i phase
      exact Option.some.inj next ▸ closing.move
        ⟨phase ▸ (fun same => by cases same), phase ▸ (fun same => by cases same)⟩ rfl rfl
        ⟨(fun same => by cases same), fun same => by cases same⟩
    · cases next
  | finish =>
    simp only [step] at next
    split at next
    · rename_i phase
      have off := closing.ended (.inl phase)
      obtain rfl := Option.some.inj next
      refine ⟨fun _ => ?_, fun _ => off, fun _ => rfl⟩
      rcases closing.front off with lock | waiting | empty
      · cases phase.symm.trans lock
      · cases phase.symm.trans waiting
      · exact .inr (.inr empty)
    · cases next
  | stop =>
    obtain ⟨-, same⟩ := Option.ite_none_right_eq_some.mp next
    exact Option.some.inj same ▸ ⟨fun _ => timely, fun _ => rfl, closing.flushed⟩

/-- In a run whose `stop` is timely no line is lost. -/
theorem stop_saves (reach : Reach machine Timely s) : s.Saved := by
  have closing : s.Closing := by
    refine reach.invariant_of (P := Closing) (fun _ before => kept_of_reachable before) ?_
      fun s a s' kept closing timely next => step_closing kept closing timely next
    rintro s rfl
    exact ⟨nofun, nofun, nofun⟩
  exact closing.saved (kept_of_reachable reach)

instance (s : AsyncLogging) (a : LogStep) : Decidable (s.Before a) :=
  match a with
  | .append _ => inferInstanceAs (Decidable (_ = _))
  | .test | .lock | .wake | .drop | .write | .refill | .finish | .stop => isTrue trivial

instance (s : AsyncLogging) (a : LogStep) : Decidable (s.Timely a) :=
  match a with
  | .append _ => inferInstanceAs (Decidable (_ = _))
  | .stop => inferInstanceAs (Decidable (_ ∨ _ ∨ _))
  | .test | .lock | .wake | .drop | .write | .refill | .finish => isTrue trivial

theorem stop_loses_line :
    ∃ s, Reach machine Before s ∧ s.phase = .done ∧ s.appended = [[1]] ∧ s.takenLines = [] ∧
      ¬ s.Saved := by
  have ran : (execWhere machine Before start [.append [1], .stop, .test, .finish]).any (fun s =>
      s.phase = .done ∧ s.appended = [[1]] ∧ s.takenLines = []) = true := by
    decide +kernel
  obtain ⟨s, done, facts⟩ := (Option.any_eq_true _ _).mp ran
  obtain ⟨phase, appended, taken⟩ := of_decide_eq_true facts
  refine ⟨s, (Reach.start (M := machine) rfl).execWhere done, phase, appended, taken, fun saved => ?_⟩
  exact absurd (appended.symm.trans ((saved phase).1.trans taken)) (List.cons_ne_nil _ _)

def wakes : List LogStep :=
  [.append [1], .test, .lock, .append [2], .stop, .wake, .drop, .write, .refill, .test, .finish]

theorem stop_saves_waiting :
    ∃ s, execWhere machine Timely start wakes = some s ∧ s.phase = .done ∧
      s.output.flushed = [[1], [2]] ∧ s.Saved := by
  have ran : (execWhere machine Timely start wakes).any (fun s =>
      s.phase = .done ∧ s.output.flushed = [[1], [2]]) = true := by
    decide +kernel
  obtain ⟨s, done, facts⟩ := (Option.any_eq_true _ _).mp ran
  obtain ⟨phase, flushed⟩ := of_decide_eq_true facts
  exact ⟨s, done, phase, flushed, stop_saves ((Reach.start (M := machine) rfl).execWhere done)⟩

end ProjectsCpp.WebServer.AsyncLogging
