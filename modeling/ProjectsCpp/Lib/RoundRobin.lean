import Mathlib.Data.List.Nodup
import Mathlib.Data.List.Range
import Mathlib.Data.Option.Basic

/-! Choices that go round. A step makes at most one choice; the choice is the one whose turn it is,
and after the last of the `m` turns comes the first. The rank of a choice is its turn, if it has one. -/

namespace ProjectsCpp.RoundRobin

variable {σ α κ : Type}

def run (step : σ → α → Option (σ × Option κ)) : σ → List α → Option (σ × List κ)
  | s, [] => some (s, [])
  | s, a :: as => (step s a).bind fun (t, choice) =>
    (run step t as).map fun (u, choices) => (u, choice.toList ++ choices)

/-- Every state has one of the turns, and a step that makes no choice keeps it or starts again. -/
structure Rota (step : σ → α → Option (σ × Option κ)) (Good : σ → Prop) (Resets : α → Prop)
    (turn : σ → Nat) (rank : κ → Option Nat) (m : Nat) : Prop where
  bound : ∀ s, Good s → turn s < m
  good : ∀ s a t choice, Good s → step s a = some (t, choice) → Good t
  chooses : ∀ s a t k, Good s → step s a = some (t, some k) →
    rank k = some (turn s) ∧ turn t = (turn s + 1) % m
  passes : ∀ s a t, Good s → step s a = some (t, none) → turn t = turn s ∨ Resets a

variable {step : σ → α → Option (σ × Option κ)} {Good : σ → Prop} {Resets : α → Prop}
  {turn : σ → Nat} {rank : κ → Option Nat} {m : Nat} {s t u : σ} {a : α} {as : List α} {choices : List κ}

theorem run_cons (ran : run step s (a :: as) = some (u, choices)) :
    ∃ t choice rest, step s a = some (t, choice) ∧ run step t as = some (u, rest) ∧
      choices = choice.toList ++ rest := by
  obtain ⟨⟨t, choice⟩, first, later⟩ := Option.bind_eq_some_iff.mp ran
  obtain ⟨⟨v, rest⟩, after, same⟩ := Option.map_eq_some_iff.mp later
  cases same
  exact ⟨t, choice, rest, first, after, rfl⟩

theorem Rota.run_good (rota : Rota step Good Resets turn rank m) (good : Good s)
    (ran : run step s as = some (t, choices)) :
    Good t ∧ ∀ k ∈ choices, ∃ i < m, rank k = some i := by
  induction as generalizing s choices with
  | nil =>
    cases ran
    exact ⟨good, nofun⟩
  | cons a as ih =>
    obtain ⟨u, choice, rest, first, later, rfl⟩ := run_cons ran
    obtain ⟨last, others⟩ := ih (rota.good s a u choice good first) later
    refine ⟨last, fun k member => ?_⟩
    rcases List.mem_append.mp member with here | there
    · rw [Option.mem_toList] at here
      exact ⟨turn s, rota.bound s good, (rota.chooses s a u k good (here ▸ first)).1⟩
    · exact others k there

theorem Rota.run_turns (rota : Rota step Good Resets turn rank m) (good : Good s)
    (through : ∀ a ∈ as, ¬ Resets a) (ran : run step s as = some (t, choices)) :
    turn t = (turn s + choices.length) % m ∧
      choices.map rank = (List.range' (turn s) choices.length).map fun i => some (i % m) := by
  induction as generalizing s choices with
  | nil =>
    cases ran
    exact ⟨(Nat.mod_eq_of_lt (rota.bound _ good)).symm, rfl⟩
  | cons a as ih =>
    obtain ⟨u, choice, rest, first, later, rfl⟩ := run_cons ran
    have next := rota.good s a u choice good first
    obtain ⟨last, ranks⟩ := ih next (fun b member => through b (List.mem_cons_of_mem a member)) later
    cases choice with
    | none =>
      have kept := (rota.passes s a u good first).resolve_right (through a List.mem_cons_self)
      rw [← kept]
      exact ⟨last, ranks⟩
    | some k =>
      obtain ⟨chosen, following⟩ := rota.chooses s a u k good first
      have shift : ∀ i, (turn u + i) % m = (turn s + 1 + i) % m := fun i => by
        rw [following, Nat.mod_add_mod]
      have tail : (List.range' (turn u) rest.length).map (fun i => some (i % m)) =
          (List.range' (turn s + 1) rest.length).map fun i => some (i % m) := by
        refine List.ext_getElem (by simp only [List.length_map, List.length_range']) fun i _ _ => ?_
        simp only [List.getElem_map, List.getElem_range', Nat.one_mul]
        exact congrArg some (shift i)
      constructor
      · rw [last, shift]
        congr 1
        simp only [Option.toList_some, List.singleton_append, List.length_cons]
        omega
      · simp only [Option.toList_some, List.singleton_append, List.map_cons, List.length_cons,
          List.range'_succ]
        rw [ranks, tail, chosen, Nat.mod_eq_of_lt (rota.bound s good)]

theorem Rota.run_round (rota : Rota step Good Resets turn rank m) (good : Good s)
    (start : turn s = 0) (through : ∀ a ∈ as, ¬ Resets a)
    (ran : run step s as = some (t, choices)) (whole : choices.length = m) :
    turn t = 0 ∧ choices.map rank = (List.range m).map some := by
  obtain ⟨last, ranks⟩ := rota.run_turns good through ran
  rw [start, whole] at last ranks
  refine ⟨last.trans ((congrArg (· % m) (Nat.zero_add m)).trans (Nat.mod_self m)), ranks.trans ?_⟩
  rw [← List.range_eq_range']
  refine List.map_congr_left fun i member => ?_
  rw [Nat.mod_eq_of_lt (List.mem_range.mp member)]

theorem count_round [DecidableEq κ] (ranks : choices.map rank = (List.range m).map some)
    (apart : ∀ k l i, rank k = some i → rank l = some i → k = l) (k : κ) :
    choices.count k = if ∃ i < m, rank k = some i then 1 else 0 := by
  have distinct : ((List.range m).map some).Nodup :=
    List.Nodup.map (Option.some_injective Nat) List.nodup_range
  rw [← ranks] at distinct
  have member : k ∈ choices ↔ ∃ i < m, rank k = some i := by
    constructor
    · intro chosen
      have ranked := List.mem_map_of_mem chosen (f := rank)
      rw [ranks] at ranked
      obtain ⟨i, inside, same⟩ := List.mem_map.mp ranked
      exact ⟨i, List.mem_range.mp inside, same.symm⟩
    · rintro ⟨i, inside, ranked⟩
      have listed : some i ∈ choices.map rank := by
        rw [ranks]
        exact List.mem_map_of_mem (List.mem_range.mpr inside)
      obtain ⟨l, chosen, same⟩ := List.mem_map.mp listed
      rwa [apart k l i ranked same]
  simp only [distinct.of_map.count, member]

end ProjectsCpp.RoundRobin
