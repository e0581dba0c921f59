import Mathlib.Logic.Basic
import Mathlib.Data.Option.Basic

/-! Labelled machines with a partial step function.
`Reach ok` collects the states met by runs in which every step satisfies `ok` in
the state it leaves, so one induction serves both unrestricted and guarded runs.
`exec` and `execWhere` compute a run from a list of labels. -/

namespace ProjectsCpp.Run

structure Machine (σ α : Type) where
  start : σ → Prop
  step : σ → α → Option σ

variable {σ α : Type}

inductive Reach (M : Machine σ α) (ok : σ → α → Prop) : σ → Prop
  | start {s : σ} : M.start s → Reach M ok s
  | step {s t : σ} {a : α} : Reach M ok s → ok s a → M.step s a = some t → Reach M ok t

/-- Reachability with no condition on the steps. -/
def Reachable (M : Machine σ α) : σ → Prop := Reach M fun _ _ => True

variable {M : Machine σ α} {ok ok' : σ → α → Prop} {s t : σ}

theorem Reach.mono (weaker : ∀ s a, ok s a → ok' s a) (reach : Reach M ok s) :
    Reach M ok' s := by
  induction reach with
  | start init => exact .start init
  | step _ allowed next ih => exact .step ih (weaker _ _ allowed) next

theorem Reach.reachable (reach : Reach M ok s) : Reachable M s :=
  reach.mono fun _ _ _ => trivial

theorem Reach.invariant {P : σ → Prop} (init : ∀ s, M.start s → P s)
    (keep : ∀ s a t, P s → ok s a → M.step s a = some t → P t)
    (reach : Reach M ok s) : P s := by
  induction reach with
  | start begin => exact init _ begin
  | step _ allowed next ih => exact keep _ _ _ ih allowed next

theorem Reach.invariant_of {P Q : σ → Prop} (known : ∀ s, Reach M ok s → Q s)
    (init : ∀ s, M.start s → P s)
    (keep : ∀ s a t, Q s → P s → ok s a → M.step s a = some t → P t)
    (reach : Reach M ok s) : P s := by
  induction reach with
  | start begin => exact init _ begin
  | step before allowed next ih => exact keep _ _ _ (known _ before) ih allowed next

def exec (M : Machine σ α) : σ → List α → Option σ
  | s, [] => some s
  | s, a :: as => (M.step s a).bind fun t => exec M t as

/-- `exec` that stops where a step does not satisfy `ok`. -/
def execWhere (M : Machine σ α) (ok : σ → α → Prop) [∀ s a, Decidable (ok s a)] :
    σ → List α → Option σ
  | s, [] => some s
  | s, a :: as => if ok s a then (M.step s a).bind fun t => execWhere M ok t as else none

theorem exec_append {u : σ} {as bs : List α} (first : exec M s as = some t)
    (second : exec M t bs = some u) : exec M s (as ++ bs) = some u := by
  induction as generalizing s with
  | nil =>
    cases first
    exact second
  | cons a as ih =>
    obtain ⟨v, next, rest⟩ := Option.bind_eq_some_iff.mp first
    exact Option.bind_eq_some_iff.mpr ⟨v, next, ih rest⟩

theorem Reach.exec (before : Reachable M s) {as : List α} (run : exec M s as = some t) :
    Reachable M t := by
  induction as generalizing s with
  | nil =>
    cases run
    exact before
  | cons a as ih =>
    obtain ⟨u, next, rest⟩ := Option.bind_eq_some_iff.mp run
    exact ih (.step before trivial next) rest

theorem Reach.execWhere [∀ s a, Decidable (ok s a)] (before : Reach M ok s) {as : List α}
    (run : execWhere M ok s as = some t) : Reach M ok t := by
  induction as generalizing s with
  | nil =>
    cases run
    exact before
  | cons a as ih =>
    rw [Run.execWhere] at run
    split at run
    · rename_i allowed
      obtain ⟨u, next, rest⟩ := Option.bind_eq_some_iff.mp run
      exact ih (.step before allowed next) rest
    · cases run

end ProjectsCpp.Run
