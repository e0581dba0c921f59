import Mathlib.Data.List.Pairwise
import Mathlib.Data.List.Perm.Basic
import Mathlib.Data.List.Nodup
import Mathlib.Order.Basic
import Mathlib.Tactic.ByContra

/-! Ranges of addresses: which lie inside one another and which are apart. -/

namespace ProjectsCpp.Ranges

structure Range where
  start : Nat
  size : Nat
deriving DecidableEq

namespace Range
variable {r s r' s' : Range}

def Inside (r s : Range) : Prop := s.start ≤ r.start ∧ r.start + r.size ≤ s.start + s.size

def Apart (r s : Range) : Prop := r.start + r.size ≤ s.start ∨ s.start + s.size ≤ r.start

def Has (r : Range) (p : Nat) : Prop := r.start ≤ p ∧ p < r.start + r.size

instance (r : Range) (p : Nat) : Decidable (r.Has p) := by
  unfold Has
  infer_instance

instance (r s : Range) : Decidable (r.Inside s) := by
  unfold Inside
  infer_instance

instance (r s : Range) : Decidable (r.Apart s) := by
  unfold Apart
  infer_instance

theorem Inside.refl (r : Range) : r.Inside r := ⟨Nat.le_refl _, Nat.le_refl _⟩

theorem Inside.trans {t : Range} (first : r.Inside s) (second : s.Inside t) : r.Inside t :=
  ⟨Nat.le_trans second.1 first.1, Nat.le_trans first.2 second.2⟩

theorem Apart.symm (apart : r.Apart s) : s.Apart r := Or.symm apart

theorem Apart.inside (apart : r.Apart s) (left : r'.Inside r) (right : s'.Inside s) :
    r'.Apart s' := by
  obtain ⟨l₁, l₂⟩ := left
  obtain ⟨r₁, r₂⟩ := right
  rcases apart with before | after
  · exact .inl (by omega)
  · exact .inr (by omega)

/-- Ranges that are apart have no place in common. -/
theorem Apart.not_has {p : Nat} (apart : r.Apart s) (left : r.Has p) : ¬ s.Has p := by
  obtain ⟨l₁, l₂⟩ := left
  rintro ⟨r₁, r₂⟩
  rcases apart with before | after <;> omega

theorem Apart.ne (apart : r.Apart s) (some : 0 < r.size) : r ≠ s := by
  rintro rfl
  rcases apart with before | after <;> omega

theorem Apart.of_not_has (left : 0 < r.size) (right : 0 < s.size)
    (none : ∀ p, r.Has p → ¬ s.Has p) : r.Apart s := by
  by_contra meets
  rw [Apart, not_or] at meets
  refine none (max r.start s.start) ?_ ?_
  all_goals
    unfold Has
    omega

end Range

section
variable {α : Type} (range : α → Range)

/-- The ranges of a list of things do not meet. -/
def Spread (l : List α) : Prop := l.Pairwise fun a b => (range a).Apart (range b)

variable {range} {l l' : List α} {a : α}

theorem spread_cons : Spread range (a :: l) ↔ (∀ b ∈ l, (range a).Apart (range b)) ∧ Spread range l :=
  List.pairwise_cons

theorem Spread.perm (spread : Spread range l) (perm : l.Perm l') : Spread range l' :=
  (perm.pairwise_iff fun apart => apart.symm).mp spread

theorem Spread.sublist (spread : Spread range l) (sub : l'.Sublist l) : Spread range l' :=
  List.Pairwise.sublist sub spread

theorem Spread.nodup (spread : Spread range l) (some : ∀ a, 0 < (range a).size) : l.Nodup :=
  List.Pairwise.imp (fun {a _} apart same => apart.ne (some a) (congrArg range same)) spread

theorem Spread.apart {b : α} (spread : Spread range l) (left : a ∈ l) (right : b ∈ l) (ne : a ≠ b) :
    (range a).Apart (range b) :=
  have : Std.Symm fun a b : α => (range a).Apart (range b) := ⟨fun _ _ apart => apart.symm⟩
  List.Pairwise.forall spread left right ne

end

/-- What is covered by ranges that neither meet nor touch lies in one of them. -/
theorem Spread.covers {l : List Range} {s : Range} (spread : Spread id l)
    (gaps : ∀ r ∈ l, ∀ r' ∈ l, r.start + r.size ≠ r'.start) (some : 0 < s.size)
    (cover : ∀ p, s.Has p → ∃ r ∈ l, r.Has p) : ∃ r ∈ l, s.Inside r := by
  obtain ⟨start, size⟩ := s
  induction size with
  | zero => exact absurd some (Nat.lt_irrefl 0)
  | succ size ih =>
    rcases Nat.eq_zero_or_pos size with rfl | more
    · obtain ⟨r, inside, below, above⟩ := cover start ⟨Nat.le_refl _, Nat.lt_succ_self _⟩
      exact ⟨r, inside, below, above⟩
    · obtain ⟨r, inside, below, above⟩ := ih more fun p has =>
        cover p ⟨has.1, Nat.lt_succ_of_lt has.2⟩
      obtain ⟨r', inside', has⟩ := cover (start + size) ⟨Nat.le_add_right _ _, Nat.lt_succ_self _⟩
      have gap := gaps r inside r' inside'
      by_cases same : r = r'
      · subst same
        exact ⟨r, inside, below, has.2⟩
      · have apart := spread.apart inside inside' same
        simp only [id, Range.Apart, Range.Has] at apart has above below
        omega

end ProjectsCpp.Ranges
