import Mathlib.Data.List.Basic
import Mathlib.Data.List.Infix
import Mathlib.Tactic.Common

/-! The first occurrence of one list in another, as `std::string::find` looks for it. -/

namespace ProjectsCpp.Substring

variable {α : Type} {sub w t u : List α} {a b : α}

theorem pair_free (apart : a ≠ b) (free : ¬[a, b] <:+: w) : ¬[a, b] <:+: w ++ [a] := by
  rintro ⟨before, after, same⟩
  rcases List.eq_nil_or_concat after with rfl | ⟨after, c, rfl⟩
  · have ends := congrArg List.getLast? same
    simp at ends
    exact apart ends.symm
  · have tail := congrArg List.dropLast same
    rw [List.concat_eq_append, ← List.append_assoc, List.dropLast_concat, List.dropLast_concat] at tail
    exact free ⟨before, after, tail⟩

theorem cons_free {c : α} (other : c ≠ a) (free : ¬[a, b] <:+: w) : ¬[a, b] <:+: c :: w := by
  rw [List.infix_cons_iff]
  rintro (⟨_, starts⟩ | occurs)
  · exact other (List.cons.inj starts).1.symm
  · exact free occurs

theorem append_free (left : ¬[a, b] <:+: w) (right : ¬[a, b] <:+: t)
    (across : w.getLast? = some a → t.head? ≠ some b) : ¬[a, b] <:+: w ++ t := by
  induction w with
  | nil => exact right
  | cons c w ih =>
    have rest : ¬[a, b] <:+: w := fun occurs => left (List.infix_cons occurs)
    rw [List.cons_append, List.infix_cons_iff]
    rintro (starts | occurs)
    · cases w with
      | nil =>
        obtain ⟨rfl, next⟩ := List.cons_prefix_cons.mp starts
        obtain ⟨v, same⟩ := next
        exact across rfl (List.head?_eq_some_iff.mpr ⟨v, same.symm⟩)
      | cons d w =>
        obtain ⟨rfl, next⟩ := List.cons_prefix_cons.mp starts
        obtain ⟨rfl, -⟩ := List.cons_prefix_cons.mp next
        exact left (List.IsPrefix.isInfix ⟨w, rfl⟩)
    · refine ih rest (fun last => ?_) occurs
      cases w with
      | nil => cases last
      | cons d w => exact across (by rwa [List.getLast?_cons_cons])

variable [DecidableEq α]

def findSub (sub : List α) : List α → Option Nat
  | [] => if sub = [] then some 0 else none
  | c :: cs => if sub <+: c :: cs then some 0 else (findSub sub cs).map (· + 1)

/-- The search from a place on. -/
def findFrom (text sub : List α) (pos : Nat) : Option Nat := (findSub sub (text.drop pos)).map (· + pos)

theorem findSub_eq_none : findSub sub t = none ↔ ¬sub <:+: t := by
  induction t with
  | nil => simp [findSub]
  | cons c t ih =>
    rw [findSub, List.infix_cons_iff]
    split <;> simp [*]

theorem findSub_le {k : Nat} (found : findSub sub t = some k) : k + sub.length ≤ t.length := by
  induction t generalizing k with
  | nil =>
    obtain ⟨rfl, same⟩ := Option.ite_none_right_eq_some.mp found
    obtain rfl := Option.some.inj same
    exact Nat.le_refl _
  | cons c t ih =>
    rw [findSub] at found
    split at found
    · rename_i starts
      obtain rfl := Option.some.inj found
      rw [Nat.zero_add]
      exact starts.length_le
    · obtain ⟨j, later, rfl⟩ := Option.map_eq_some_iff.mp found
      have := ih later
      rw [List.length_cons]
      omega

theorem findSub_append {k : Nat} (found : findSub sub t = some k) : findSub sub (t ++ u) = some k := by
  induction t generalizing k with
  | nil =>
    obtain ⟨rfl, same⟩ := Option.ite_none_right_eq_some.mp found
    cases u with
    | nil => exact found
    | cons c u => exact (if_pos List.nil_prefix).trans same
  | cons c t ih =>
    rw [findSub] at found
    rw [List.cons_append, findSub]
    have longer : c :: t <+: c :: (t ++ u) := List.prefix_append (c :: t) u
    by_cases starts : sub <+: c :: t
    · rw [if_pos starts] at found
      rw [if_pos (starts.trans longer), found]
    · rw [if_neg starts] at found
      obtain ⟨j, later, rfl⟩ := Option.map_eq_some_iff.mp found
      have long : sub.length ≤ (c :: t).length := by
        have le := findSub_le later
        rw [List.length_cons]
        omega
      rw [if_neg fun now => starts (List.prefix_of_prefix_length_le now longer long), ih later,
        Option.map_some]

theorem findSub_first (some : sub ≠ []) (free : ¬sub <:+: w ++ sub.dropLast) :
    findSub sub (w ++ (sub ++ u)) = .some w.length := by
  induction w with
  | nil =>
    obtain ⟨c, cs, rfl⟩ := List.exists_cons_of_ne_nil some
    exact if_pos (List.prefix_append (c :: cs) u)
  | cons c w ih =>
    have later : ¬sub <:+: w ++ sub.dropLast := fun occurs => free (List.infix_cons occurs)
    have here : ¬sub <+: c :: (w ++ (sub ++ u)) := by
      intro starts
      refine free (List.IsPrefix.isInfix ?_)
      have whole : c :: w ++ sub.dropLast <+: c :: (w ++ (sub ++ u)) := by
        rw [← List.cons_append, List.prefix_append_right_inj]
        exact (List.dropLast_prefix sub).trans (List.prefix_append sub u)
      refine List.prefix_of_prefix_length_le starts whole ?_
      have := List.length_pos_iff.mpr some
      simp only [List.length_append, List.length_cons, List.length_dropLast]
      omega
    rw [List.cons_append, findSub, if_neg here, ih later]
    rfl

theorem findSub_pair (apart : a ≠ b) (free : ¬[a, b] <:+: w) :
    findSub [a, b] (w ++ a :: b :: u) = .some w.length :=
  findSub_first (List.cons_ne_nil a [b]) (pair_free apart free)

theorem findSub_single (free : a ∉ w) : findSub [a] (w ++ a :: u) = .some w.length := by
  refine findSub_first (List.cons_ne_nil a []) fun occurs => free ?_
  simpa using occurs.subset (List.mem_singleton_self a)

end ProjectsCpp.Substring
