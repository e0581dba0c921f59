import Mathlib.Data.List.Nodup
import Mathlib.Data.List.Perm.Basic
import Mathlib.Logic.Function.Basic
import Mathlib.Tactic.SplitIfs

/-! Tasks that pass through the hands of workers: taken, begun, executed. -/

namespace ProjectsCpp.Hands

variable {ι τ : Type} {hands : ι → Option (τ × Bool)} {taken begun executed : List τ} {i : ι}
  {task : τ}

/-- Every task that has been taken is in the hands of one thread, begun or not, or it has been
executed, once. -/
structure Handled (hands : ι → Option (τ × Bool)) (taken begun executed : List τ) : Prop where
  taken_iff : ∀ t, t ∈ taken ↔ t ∈ executed ∨ ∃ i b, hands i = some (t, b)
  begun_iff : ∀ t, t ∈ begun ↔ t ∈ executed ∨ ∃ i, hands i = some (t, true)
  sole : ∀ i j t b b', hands i = some (t, b) → hands j = some (t, b') → i = j
  done : ∀ t ∈ executed, ∀ i b, hands i ≠ some (t, b)
  begun_once : begun.Nodup
  once : executed.Nodup

theorem Handled.none : Handled (fun _ : ι => (Option.none : Option (τ × Bool))) [] [] [] where
  taken_iff t := ⟨nofun, by rintro (⟨⟨⟩⟩ | ⟨i, b, ⟨⟩⟩)⟩
  begun_iff t := ⟨nofun, by rintro (⟨⟨⟩⟩ | ⟨i, ⟨⟩⟩)⟩
  sole := nofun
  done := nofun
  begun_once := List.nodup_nil
  once := List.nodup_nil

theorem Handled.perm (handled : Handled hands taken begun executed) (distinct : taken.Nodup)
    (empty : ∀ i, hands i = Option.none) : executed.Perm taken := by
  refine (List.perm_ext_iff_of_nodup handled.once distinct).mpr fun t => ?_
  rw [handled.taken_iff]
  refine ⟨.inl, fun place => place.resolve_right ?_⟩
  rintro ⟨i, b, has⟩
  cases (empty i).symm.trans has

variable [DecidableEq ι]

theorem update_some_iff {hand : Option (τ × Bool)} {j : ι} {t : τ} {b : Bool} :
    Function.update hands i hand j = some (t, b) ↔
      if j = i then hand = some (t, b) else hands j = some (t, b) := by
  rw [Function.update_apply]
  split_ifs <;> rfl

theorem Handled.receive (handled : Handled hands taken begun executed) (free : hands i = Option.none)
    (fresh : task ∉ taken) :
    Handled (Function.update hands i (some (task, false))) (taken ++ [task]) begun executed := by
  obtain ⟨taken_iff, begun_iff, sole, done, begun_once, once⟩ := handled
  constructor
  · intro t
    simp only [update_some_iff, List.mem_append, List.mem_singleton, taken_iff]
    grind
  · intro t
    simp only [update_some_iff, begun_iff]
    grind
  · simp only [update_some_iff]
    grind
  · simp only [Ne, update_some_iff]
    grind
  · exact begun_once
  · exact once

theorem Handled.begin (handled : Handled hands taken begun executed)
    (held : hands i = some (task, false)) :
    Handled (Function.update hands i (some (task, true))) taken (begun ++ [task]) executed := by
  obtain ⟨taken_iff, begun_iff, sole, done, begun_once, once⟩ := handled
  constructor
  · intro t
    simp only [update_some_iff, taken_iff]
    grind
  · intro t
    simp only [update_some_iff, List.mem_append, List.mem_singleton, begun_iff]
    grind
  · simp only [update_some_iff]
    grind
  · simp only [Ne, update_some_iff]
    grind
  · have new : task ∉ begun := by grind
    exact List.concat_eq_append ▸ begun_once.concat new
  · exact once

theorem Handled.finish (handled : Handled hands taken begun executed)
    (held : hands i = some (task, true)) :
    Handled (Function.update hands i Option.none) taken begun (executed ++ [task]) := by
  obtain ⟨taken_iff, begun_iff, sole, done, begun_once, once⟩ := handled
  constructor
  · intro t
    simp only [update_some_iff, List.mem_append, List.mem_singleton, taken_iff]
    grind
  · intro t
    simp only [update_some_iff, List.mem_append, List.mem_singleton, begun_iff]
    grind
  · simp only [update_some_iff]
    grind
  · simp only [Ne, update_some_iff]
    grind
  · exact begun_once
  · have new : task ∉ executed := by grind
    exact List.concat_eq_append ▸ once.concat new

end ProjectsCpp.Hands
