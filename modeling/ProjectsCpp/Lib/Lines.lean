import ProjectsCpp.Lib.Substring

/-! Lines that each end with a pair of letters, and a buffer that holds the beginning of them. -/

namespace ProjectsCpp.Lines
open ProjectsCpp.Substring

variable {α : Type} {a b : α} {lines : List (List α)} {line tail buffer rest : List α}

/-- The text of the lines. -/
def ended (a b : α) (lines : List (List α)) : List α := lines.flatMap (· ++ [a, b])

@[simp] theorem ended_nil : ended a b [] = [] := rfl

@[simp] theorem ended_cons : ended a b (line :: lines) = line ++ a :: b :: ended a b lines := by
  simp [ended]

@[simp] theorem ended_append (more : List (List α)) :
    ended a b (lines ++ more) = ended a b lines ++ ended a b more := by
  simp [ended]

theorem length_le_ended : 2 * lines.length ≤ (ended a b lines).length := by
  induction lines with
  | nil => exact le_rfl
  | cons line lines ih =>
    simp only [ended_cons, List.length_cons, List.length_append]
    omega

theorem prefix_ended (starts : buffer <+: ended a b lines ++ rest) :
    (∃ more, buffer = ended a b lines ++ more ∧ more <+: rest) ∨
      ∃ before line after tail, lines = before ++ line :: after ∧
        buffer = ended a b before ++ tail ∧ tail <+: line ++ [a] := by
  induction lines generalizing buffer with
  | nil => exact .inl ⟨buffer, rfl, starts⟩
  | cons line lines ih =>
    have whole : ended a b (line :: lines) ++ rest = (line ++ [a, b]) ++ (ended a b lines ++ rest) := by
      simp
    rw [whole] at starts
    by_cases short : buffer.length ≤ (line ++ [a]).length
    · have head : line ++ [a] <+: (line ++ [a, b]) ++ (ended a b lines ++ rest) := by
        rw [List.append_assoc, List.prefix_append_right_inj]
        exact List.prefix_append [a] _
      exact .inr ⟨[], line, lines, buffer, rfl, rfl, List.prefix_of_prefix_length_le starts head short⟩
    · have head : line ++ [a, b] <+: (line ++ [a, b]) ++ (ended a b lines ++ rest) :=
        List.prefix_append _ _
      have long : (line ++ [a, b]).length ≤ buffer.length := by
        simp only [List.length_append, List.length_cons, List.length_nil] at short ⊢
        omega
      obtain ⟨left, rfl⟩ := List.prefix_of_prefix_length_le head starts long
      rcases ih ((List.prefix_append_right_inj _).mp starts) with ⟨more, rfl, behind⟩ |
        ⟨before, next, after, tail, rfl, rfl, part⟩
      · exact .inl ⟨more, by simp, behind⟩
      · exact .inr ⟨line :: before, next, after, tail, rfl, by simp, part⟩

theorem tail_free (apart : a ≠ b) (free : ¬[a, b] <:+: line) (part : tail <+: line ++ [a]) :
    ¬[a, b] <:+: tail :=
  fun occurs => pair_free apart free (occurs.trans part.isInfix)

end ProjectsCpp.Lines
