import Mathlib.Data.List.Basic
import Mathlib.Data.List.Infix
import Mathlib.Data.Option.Basic
import Mathlib.Tactic.Common

/-! A stream of frames that arrives in pieces. `run_frames` is the rule for a reader that takes the
frames out of its buffer as they become whole: what it does with one piece decides what it
does with the stream, however the stream is cut. -/

namespace ProjectsCpp.Frames

variable {α β σ : Type} {frame : β → List α} {ms before after : List β} {buffer tail chunk : List α}

/-- The beginning of the next frame, nothing when there is none. -/
def Part (frame : β → List α) (tail : List α) : List β → Prop
  | [] => tail = []
  | m :: _ => tail <+: frame m ∧ tail.length < (frame m).length

theorem prefix_frames (starts : buffer <+: ms.flatMap frame) :
    ∃ before after tail, ms = before ++ after ∧ buffer = before.flatMap frame ++ tail ∧
      Part frame tail after := by
  induction ms generalizing buffer with
  | nil => exact ⟨[], [], buffer, rfl, rfl, List.prefix_nil.mp starts⟩
  | cons m ms ih =>
    rw [List.flatMap_cons] at starts
    have head : frame m <+: frame m ++ ms.flatMap frame := List.prefix_append _ _
    by_cases short : buffer.length < (frame m).length
    · exact ⟨[], m :: ms, buffer, rfl, rfl,
        List.prefix_of_prefix_length_le starts head (Nat.le_of_lt short), short⟩
    · obtain ⟨left, rfl⟩ := List.prefix_of_prefix_length_le head starts (Nat.le_of_not_lt short)
      obtain ⟨before, after, tail, rfl, rfl, part⟩ := ih ((List.prefix_append_right_inj _).mp starts)
      exact ⟨m :: before, after, tail, rfl, by simp, part⟩

theorem run_frames {read : σ → List α → Option σ} {At : List β → List α → σ → Prop} {Q : β → Prop}
    (step : ∀ done before after tail tail' chunk s, At done tail s →
      tail ++ chunk = before.flatMap frame ++ tail' → Part frame tail' after →
      (∀ m ∈ before ++ after, Q m) → ∃ s', read s chunk = some s' ∧ At (done ++ before) tail' s')
    {chunks : List (List α)} {done rest : List β} {s : σ} (here : At done tail s)
    (stream : tail ++ chunks.flatten = rest.flatMap frame) (all : ∀ m ∈ rest, Q m)
    (part : Part frame tail rest) :
    ∃ s', chunks.foldlM read s = some s' ∧ At (done ++ rest) [] s' := by
  induction chunks generalizing done rest tail s with
  | nil =>
    rw [List.flatten_nil, List.append_nil] at stream
    cases rest with
    | nil =>
      cases part
      exact ⟨s, rfl, by rwa [List.append_nil]⟩
    | cons m rest =>
      have short := part.2
      rw [stream, List.flatMap_cons, List.length_append] at short
      omega
  | cons chunk chunks ih =>
    rw [List.flatten_cons, ← List.append_assoc] at stream
    obtain ⟨before, after, tail', rfl, whole, part'⟩ := prefix_frames ⟨_, stream⟩
    obtain ⟨s₁, first, here₁⟩ := step done before after tail tail' chunk s here whole part' all
    have later : tail' ++ chunks.flatten = after.flatMap frame := by
      rw [whole, List.flatMap_append, List.append_assoc] at stream
      exact List.append_cancel_left stream
    obtain ⟨s', others, here'⟩ := ih here₁ later
      (fun m member => all m (List.mem_append_right before member)) part'
    refine ⟨s', ?_, by rwa [← List.append_assoc]⟩
    rw [List.foldlM_cons, first]
    exact others

end ProjectsCpp.Frames
