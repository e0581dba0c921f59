import Mathlib.Data.Finset.Card
import Mathlib.Logic.Function.Basic

/-! A crew of workers that ask for tasks and work on them in steps. What is known of a task depends
on how far it is: nobody has begun it, a worker is at it, or it is finished. -/

namespace ProjectsCpp.Crew

inductive Worker (τ ω : Type) where
  | starting
  | polling
  | asking
  | calling
  | received (task : τ)
  | hanging
  | working (task : τ) (work : ω)
  | returned

variable {ι τ ω : Type}

def Worker.task : Worker τ ω → Option τ
  | .working task _ => some task
  | _ => none

/-- What is known of a task that nobody has begun, that a worker is at, that is finished. -/
structure Progress (τ ω : Type) where
  untouched : τ → Prop
  underway : τ → ω → Prop
  complete : τ → Prop

structure Progress.Stays (progress progress' : Progress τ ω) (task : τ) : Prop where
  untouched : progress.untouched task → progress'.untouched task
  underway : ∀ work, progress.underway task work → progress'.underway task work
  complete : progress.complete task → progress'.complete task

theorem Progress.Stays.refl (progress : Progress τ ω) (task : τ) : progress.Stays progress task :=
  ⟨id, fun _ => id, id⟩

/-- No two workers are at one task, nobody is at a finished one, and the progress is as known. -/
structure Kept (tasks : List τ) (finished : Finset τ) (progress : Progress τ ω)
    (workers : ι → Worker τ ω) : Prop where
  received : ∀ i task, workers i = .received task → task ∈ tasks
  underway : ∀ i task work, workers i = .working task work →
    task ∈ tasks ∧ task ∉ finished ∧ progress.underway task work
  sole : ∀ i j task, (workers i).task = some task → (workers j).task = some task → i = j
  untouched : ∀ task ∈ tasks, task ∉ finished → (∀ i, (workers i).task ≠ some task) →
    progress.untouched task
  complete : ∀ task ∈ finished, task ∈ tasks ∧ progress.complete task

variable {tasks : List τ} {finished : Finset τ} {progress progress' : Progress τ ω}
  {workers : ι → Worker τ ω} {i : ι} {task : τ} {work work' : ω} {worker : Worker τ ω}

theorem Kept.start (idle : ∀ i, workers i = .starting ∨ workers i = .polling)
    (all : ∀ task ∈ tasks, progress.untouched task) : Kept tasks ∅ progress workers where
  received i task has := by
    rcases idle i with at_ | at_ <;> cases at_.symm.trans has
  underway i task work has := by
    rcases idle i with at_ | at_ <;> cases at_.symm.trans has
  sole i j task has _ := by
    rcases idle i with at_ | at_ <;> rw [at_] at has <;> cases has
  untouched task member _ _ := all task member
  complete task member := absurd member (Finset.notMem_empty task)

theorem Kept.mono (kept : Kept tasks finished progress workers)
    (stays : ∀ task ∈ tasks, progress.Stays progress' task) :
    Kept tasks finished progress' workers where
  received := kept.received
  underway i task work has := by
    obtain ⟨member, unfinished, known⟩ := kept.underway i task work has
    exact ⟨member, unfinished, (stays task member).underway work known⟩
  sole := kept.sole
  untouched task member unfinished alone :=
    (stays task member).untouched (kept.untouched task member unfinished alone)
  complete task member := by
    obtain ⟨known, complete⟩ := kept.complete task member
    exact ⟨known, (stays task known).complete complete⟩

theorem Kept.whenAll (kept : Kept tasks finished progress workers)
    (all : ∀ task ∈ tasks, task ∈ finished)
    (stays : ∀ task ∈ tasks, progress.complete task → progress'.complete task) :
    Kept tasks finished progress' workers where
  received := kept.received
  underway i task work has := by
    obtain ⟨member, unfinished, -⟩ := kept.underway i task work has
    exact absurd (all task member) unfinished
  sole := kept.sole
  untouched task member unfinished _ := absurd (all task member) unfinished
  complete task member := by
    obtain ⟨known, complete⟩ := kept.complete task member
    exact ⟨known, stays task known complete⟩

theorem Kept.all_finished [DecidableEq τ] (kept : Kept tasks finished progress workers)
    (card : finished.card = tasks.length) : tasks.Nodup ∧ ∀ task ∈ tasks, task ∈ finished := by
  have sub : finished ⊆ tasks.toFinset :=
    fun task member => List.mem_toFinset.mpr (kept.complete task member).1
  have most : tasks.toFinset.card ≤ finished.card := card ▸ List.toFinset_card_le tasks
  have same := Finset.eq_of_subset_of_card_le sub most
  refine ⟨?_, fun task member => same ▸ List.mem_toFinset.mpr member⟩
  exact Multiset.toFinset_card_eq_card_iff_nodup.mp ((congrArg Finset.card same.symm).trans card)

variable [DecidableEq ι]

theorem Kept.pause (kept : Kept tasks finished progress workers) (idle : (workers i).task = none)
    (none : worker.task = none) (known : ∀ task, worker = .received task → task ∈ tasks) :
    Kept tasks finished progress (Function.update workers i worker) := by
  have same (j : ι) : (Function.update workers i worker j).task = (workers j).task := by
    by_cases mine : j = i
    · rw [mine, Function.update_self, none, idle]
    · rw [Function.update_of_ne mine]
  refine ⟨fun j task has => ?_, fun j task work has => ?_, fun j k task => ?_, ?_, kept.complete⟩
  · by_cases mine : j = i
    · rw [mine, Function.update_self] at has
      exact known task has
    · rw [Function.update_of_ne mine] at has
      exact kept.received j task has
  · have its : (workers j).task = some task := by rw [← same j, has, Worker.task]
    by_cases mine : j = i
    · rw [mine, idle] at its
      cases its
    · rw [Function.update_of_ne mine] at has
      exact kept.underway j task work has
  · rw [same j, same k]
    exact kept.sole j k task
  · intro task member unfinished alone
    exact kept.untouched task member unfinished fun j => same j ▸ alone j

theorem Kept.take (kept : Kept tasks finished progress workers) (has : workers i = .received task)
    (unfinished : task ∉ finished) (alone : ∀ j, (workers j).task ≠ some task)
    (begun : progress.untouched task → progress.underway task work) :
    Kept tasks finished progress (Function.update workers i (.working task work)) := by
  have member := kept.received i task has
  refine ⟨fun j task' has' => ?_, fun j task' work' has' => ?_, fun j k task' => ?_, ?_,
    kept.complete⟩
  · by_cases mine : j = i
    · rw [mine, Function.update_self] at has'
      cases has'
    · rw [Function.update_of_ne mine] at has'
      exact kept.received j task' has'
  · by_cases mine : j = i
    · rw [mine, Function.update_self] at has'
      cases has'
      exact ⟨member, unfinished, begun (kept.untouched task member unfinished alone)⟩
    · rw [Function.update_of_ne mine] at has'
      exact kept.underway j task' work' has'
  · intro first second
    by_cases left : j = i <;> by_cases right : k = i
    · rw [left, right]
    · rw [left, Function.update_self] at first
      rw [Function.update_of_ne right] at second
      cases first
      exact absurd second (alone k)
    · rw [Function.update_of_ne left] at first
      rw [right, Function.update_self] at second
      cases second
      exact absurd first (alone j)
    · rw [Function.update_of_ne left] at first
      rw [Function.update_of_ne right] at second
      exact kept.sole j k task' first second
  · intro task' member' unfinished' alone'
    refine kept.untouched task' member' unfinished' fun j its => ?_
    have other : j ≠ i := fun mine => by
      rw [mine, has] at its
      cases its
    exact alone' j ((congrArg Worker.task (Function.update_of_ne other _ _)).trans its)

theorem Kept.goOn (kept : Kept tasks finished progress workers)
    (has : workers i = .working task work)
    (own : progress.underway task work → progress'.underway task work')
    (stays : ∀ other ∈ tasks, other ≠ task → progress.Stays progress' other) :
    Kept tasks finished progress' (Function.update workers i (.working task work')) := by
  have its : (workers i).task = some task := by rw [has, Worker.task]
  have same (j : ι) : (Function.update workers i (.working task work') j).task =
      (workers j).task := by
    by_cases mine : j = i
    · rw [mine, Function.update_self, its, Worker.task]
    · rw [Function.update_of_ne mine]
  obtain ⟨member, unfinished, known⟩ := kept.underway i task work has
  refine ⟨fun j other has' => ?_, fun j other work₁ has' => ?_, fun j k other => ?_, ?_, ?_⟩
  · by_cases mine : j = i
    · rw [mine, Function.update_self] at has'
      cases has'
    · rw [Function.update_of_ne mine] at has'
      exact kept.received j other has'
  · by_cases mine : j = i
    · rw [mine, Function.update_self] at has'
      cases has'
      exact ⟨member, unfinished, own known⟩
    · rw [Function.update_of_ne mine] at has'
      obtain ⟨member', unfinished', known'⟩ := kept.underway j other work₁ has'
      refine ⟨member', unfinished', (stays other member' fun equal => mine ?_).underway _ known'⟩
      refine kept.sole j i task ?_ its
      rw [has', equal, Worker.task]
  · rw [same j, same k]
    exact kept.sole j k other
  · intro other member' unfinished' alone
    refine (stays other member' fun equal => alone i ?_).untouched
      (kept.untouched other member' unfinished' fun j => same j ▸ alone j)
    rw [same i, its, equal]
  · intro other finished'
    obtain ⟨member', complete⟩ := kept.complete other finished'
    exact ⟨member', (stays other member' fun equal => unfinished (equal ▸ finished')).complete
      complete⟩

theorem Kept.tell [DecidableEq τ] (kept : Kept tasks finished progress workers)
    (has : workers i = .working task work)
    (own : progress.underway task work → progress.complete task) :
    Kept tasks (insert task finished) progress (Function.update workers i .polling) := by
  have its : (workers i).task = some task := by rw [has, Worker.task]
  obtain ⟨member, -, known⟩ := kept.underway i task work has
  refine ⟨fun j other has' => ?_, fun j other work₁ has' => ?_, fun j k other => ?_, ?_, ?_⟩
  · by_cases mine : j = i
    · rw [mine, Function.update_self] at has'
      cases has'
    · rw [Function.update_of_ne mine] at has'
      exact kept.received j other has'
  · by_cases mine : j = i
    · rw [mine, Function.update_self] at has'
      cases has'
    · rw [Function.update_of_ne mine] at has'
      obtain ⟨member', unfinished', known'⟩ := kept.underway j other work₁ has'
      refine ⟨member', fun inside => ?_, known'⟩
      rcases Finset.mem_insert.mp inside with equal | before
      · refine mine (kept.sole j i task ?_ its)
        rw [has', equal, Worker.task]
      · exact unfinished' before
  · intro first second
    by_cases left : j = i
    · rw [left, Function.update_self] at first
      cases first
    · by_cases right : k = i
      · rw [right, Function.update_self] at second
        cases second
      · rw [Function.update_of_ne left] at first
        rw [Function.update_of_ne right] at second
        exact kept.sole j k other first second
  · intro other member' unfinished' alone
    have unlike : other ≠ task := fun equal =>
      unfinished' (by rw [equal]; exact Finset.mem_insert_self task finished)
    have before : other ∉ finished := fun old => unfinished' (Finset.mem_insert_of_mem old)
    refine kept.untouched other member' before fun j its' => ?_
    have mine : j ≠ i := fun mine => by
      rw [mine, its] at its'
      exact unlike (Option.some.inj its').symm
    exact alone j ((congrArg Worker.task (Function.update_of_ne mine _ _)).trans its')
  · intro other inside
    rcases Finset.mem_insert.mp inside with rfl | before
    · exact ⟨member, own known⟩
    · exact kept.complete other before

end ProjectsCpp.Crew
