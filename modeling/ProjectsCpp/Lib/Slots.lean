import Mathlib.Data.List.Basic
import Mathlib.Data.Option.Basic
import Mathlib.Logic.Function.Basic
import Mathlib.Tactic.Common

/-! A list of keys each of which knows its own position. A key is taken out by putting the last
one in its place. -/

namespace ProjectsCpp.Slots

variable {κ ε : Type} {pos : κ → Int} {slots : List κ} {c k last : κ} {i : Nat}

def Placed (pos : κ → Int) (slots : List κ) : Prop :=
  ∀ (i : Nat) (c : κ), slots[i]? = some c → pos c = i

theorem Placed.nil : Placed pos [] := fun _ _ held => nomatch held

theorem Placed.at_eq (placed : Placed pos slots) (member : c ∈ slots) :
    ∃ i : Nat, pos c = i ∧ slots[i]? = some c := by
  obtain ⟨i, held⟩ := List.mem_iff_getElem?.mp member
  exact ⟨i, placed i c held, held⟩

theorem Placed.congr {pos' : κ → Int} (placed : Placed pos slots)
    (same : ∀ c ∈ slots, pos' c = pos c) : Placed pos' slots := by
  intro i c held
  rw [same c (List.mem_of_getElem? held), placed i c held]

/-- The last key in the place of the one at `i`: that one is gone. -/
theorem Placed.mem_swapRemove (placed : Placed pos slots) (held : slots[i]? = some c)
    (back : slots.getLast? = some last) :
    k ∈ (slots.set i last).dropLast ↔ k ∈ slots ∧ k ≠ c := by
  rw [List.getLast?_eq_getElem?] at back
  have first := placed i c held
  have inside : i < slots.length := (List.getElem?_eq_some_iff.mp held).1
  rw [List.mem_iff_getElem?]
  constructor
  · rintro ⟨j, found⟩
    rw [List.getElem?_dropLast, List.length_set] at found
    by_cases before : j < slots.length - 1
    · rw [if_pos before, List.getElem?_set] at found
      by_cases here : i = j
      · rw [if_pos here, if_pos inside] at found
        cases found
        refine ⟨List.mem_of_getElem? back, fun same => ?_⟩
        have second := placed (slots.length - 1) _ back
        rw [same, first] at second
        omega
      · rw [if_neg here] at found
        refine ⟨List.mem_of_getElem? found, fun same => ?_⟩
        have second := placed j k found
        rw [same, first] at second
        omega
    · rw [if_neg before] at found
      exact nomatch found
  · rintro ⟨member, other⟩
    obtain ⟨j, found⟩ := List.mem_iff_getElem?.mp member
    have apart : j ≠ i := fun same => other (Option.some.inj ((same ▸ found).symm.trans held))
    have within : j < slots.length := (List.getElem?_eq_some_iff.mp found).1
    by_cases before : j < slots.length - 1
    · refine ⟨j, ?_⟩
      rw [List.getElem?_dropLast, List.length_set, if_pos before, List.getElem?_set_ne apart.symm]
      exact found
    · have atEnd : j = slots.length - 1 := by omega
      refine ⟨i, ?_⟩
      rw [List.getElem?_dropLast, List.length_set, if_pos (by omega), List.getElem?_set_self inside,
        ← back, ← atEnd, found]

variable [DecidableEq κ]

theorem Placed.push (placed : Placed pos slots) (fresh : c ∉ slots) :
    Placed (Function.update pos c slots.length) (slots ++ [c]) := by
  intro i k held
  rw [List.getElem?_append] at held
  by_cases before : i < slots.length
  · rw [if_pos before] at held
    have other : k ≠ c := fun same => fresh (same ▸ List.mem_of_getElem? held)
    rw [Function.update_of_ne other]
    exact placed i k held
  · rw [if_neg before] at held
    have last := List.mem_of_getElem? held
    have here : i = slots.length := by
      have inside := (List.getElem?_eq_some_iff.mp held).1
      rw [List.length_singleton] at inside
      omega
    rw [List.mem_singleton.mp last, Function.update_self, here]

theorem Placed.swapRemove (placed : Placed pos slots) (back : slots.getLast? = some last) :
    Placed (Function.update pos last i) (slots.set i last).dropLast := by
  rw [List.getLast?_eq_getElem?] at back
  intro j k found
  rw [List.getElem?_dropLast, List.length_set] at found
  by_cases before : j < slots.length - 1
  · rw [if_pos before, List.getElem?_set] at found
    by_cases here : i = j
    · rw [if_pos here, if_pos (by omega)] at found
      cases found
      rw [Function.update_self, here]
    · rw [if_neg here] at found
      have other : k ≠ last := by
        intro same
        have first := placed j k found
        have second := placed (slots.length - 1) last back
        rw [same, second] at first
        omega
      rw [Function.update_of_ne other]
      exact placed j k found
  · rw [if_neg before] at found
    exact nomatch found

theorem Placed.map_set (placed : Placed pos slots) (held : slots[i]? = some c) (entry : κ → ε)
    (x : ε) : (slots.map entry).set i x = slots.map (Function.update entry c x) := by
  apply List.ext_getElem?
  intro j
  rw [List.getElem?_set, List.length_map, List.getElem?_map, List.getElem?_map]
  by_cases here : i = j
  · have inside : i < slots.length := (List.getElem?_eq_some_iff.mp held).1
    rw [if_pos here, if_pos inside, ← here, held, Option.map_some, Function.update_self]
  · rw [if_neg here]
    cases found : slots[j]? with
    | none => rfl
    | some k =>
      have other : k ≠ c := by
        intro same
        have first := placed i c held
        have second := placed j k found
        rw [same, first] at second
        omega
      rw [Option.map_some, Option.map_some, Function.update_of_ne other]

end ProjectsCpp.Slots
