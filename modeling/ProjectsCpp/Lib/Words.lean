import Mathlib.Data.List.Nodup
import Mathlib.Data.Set.Card

/-! Words that grow by one letter at the end, where `ok` says which letter may follow a word. Such
words are what a search with backtracking goes through. -/

namespace ProjectsCpp.Words

variable {α : Type} {symbols : List α} {ok : List α → α → Prop} [∀ p, DecidablePred (ok p)]
variable {P : List α → Prop} {placed w : List α} {n : Nat}

/-- The words that have `n` letters more. -/
def words (symbols : List α) (ok : List α → α → Prop) [∀ p, DecidablePred (ok p)] :
    Nat → List α → List (List α)
  | 0, placed => [placed]
  | n + 1, placed =>
    (symbols.filter fun x => ok placed x).flatMap fun x => words symbols ok n (placed ++ [x])

theorem length_words_succ (n : Nat) (placed : List α) :
    (words symbols ok (n + 1) placed).length =
      ((symbols.filter fun x => ok placed x).map
        fun x => (words symbols ok n (placed ++ [x])).length).sum := by
  rw [words, List.length_flatMap]

theorem drop_append_one {x : α} (starts : placed ++ [x] <+: w) :
    w.drop placed.length = x :: w.drop (placed ++ [x]).length := by
  obtain ⟨rest, rfl⟩ := starts
  rw [List.drop_left, List.append_assoc, List.drop_left, List.singleton_append]

theorem mem_words (grow : ∀ p x, P (p ++ [x]) ↔ P p ∧ ok p x) (start : P placed) :
    w ∈ words symbols ok n placed ↔
      placed <+: w ∧ w.length = placed.length + n ∧ (∀ x ∈ w.drop placed.length, x ∈ symbols) ∧
        P w := by
  induction n generalizing placed with
  | zero =>
    rw [words, List.mem_singleton]
    constructor
    · rintro rfl
      refine ⟨List.prefix_refl _, rfl, fun x inside => ?_, start⟩
      rw [List.drop_length] at inside
      cases inside
    · rintro ⟨starts, length, -⟩
      exact (starts.eq_of_length length.symm).symm
  | succ n ih =>
    rw [words, List.mem_flatMap]
    constructor
    · rintro ⟨x, inside, member⟩
      obtain ⟨letter, fits⟩ := List.mem_filter.mp inside
      obtain ⟨starts, length, rest, its⟩ :=
        (ih ((grow placed x).mpr ⟨start, of_decide_eq_true fits⟩)).mp member
      refine ⟨(List.prefix_append _ _).trans starts, ?_, ?_, its⟩
      · rw [length, List.length_append, List.length_singleton, Nat.add_assoc, Nat.add_comm 1]
      · rw [drop_append_one starts]
        intro y here
        rcases List.mem_cons.mp here with rfl | here
        · exact letter
        · exact rest y here
    · rintro ⟨⟨tail, rfl⟩, length, letters, its⟩
      rw [List.length_append] at length
      cases tail with
      | nil =>
        rw [List.length_nil] at length
        omega
      | cons x tail =>
        have starts : placed ++ [x] <+: placed ++ x :: tail :=
          ⟨tail, by rw [List.append_assoc, List.singleton_append]⟩
        have earlier : ∀ more : List α, P (placed ++ [x] ++ more) → P (placed ++ [x]) := by
          intro more
          induction more using List.reverseRecOn with
          | nil => exact fun all => by rwa [List.append_nil] at all
          | append_singleton more y ih =>
            intro all
            rw [← List.append_assoc] at all
            exact ih ((grow _ y).mp all).1
        have first : P (placed ++ [x]) := by
          refine earlier tail ?_
          rwa [List.append_assoc, List.singleton_append]
        have fits := ((grow placed x).mp first).2
        rw [drop_append_one starts] at letters
        refine ⟨x, List.mem_filter.mpr ⟨letters x (.head _), decide_eq_true fits⟩,
          (ih first).mpr ⟨starts, ?_, fun y here => letters y (.tail _ here), its⟩⟩
        rw [List.length_cons] at length
        rw [List.length_append, List.length_append, List.length_singleton, List.length_cons]
        omega

theorem prefix_of_mem (member : w ∈ words symbols ok n placed) : placed <+: w := by
  induction n generalizing placed with
  | zero => exact List.mem_singleton.mp member ▸ List.prefix_refl _
  | succ n ih =>
    obtain ⟨x, -, member⟩ := List.mem_flatMap.mp member
    exact (List.prefix_append _ _).trans (ih member)

theorem nodup_words (distinct : symbols.Nodup) (n : Nat) (placed : List α) :
    (words symbols ok n placed).Nodup := by
  induction n generalizing placed with
  | zero => exact List.nodup_singleton placed
  | succ n ih =>
    refine List.nodup_flatMap.mpr ⟨fun x _ => ih _, ?_⟩
    refine (distinct.filter _).pairwise_of_forall_ne fun x _ y _ other => ?_
    intro w left right
    have first := prefix_of_mem left
    have second := prefix_of_mem right
    have same : placed ++ [x] = placed ++ [y] :=
      (List.prefix_of_prefix_length_le first second (by simp)).eq_of_length (by simp)
    exact other (List.singleton_inj.mp (List.append_cancel_left same))

theorem length_words_eq {S : Set (List α)} (distinct : symbols.Nodup)
    (all : ∀ w, w ∈ S ↔ w ∈ words symbols ok n placed) :
    (words symbols ok n placed).length = S.ncard := by
  classical
  rw [← List.toFinset_card_of_nodup (nodup_words distinct n placed), ← Set.ncard_coe_finset]
  congr 1
  ext w
  rw [Finset.mem_coe, List.mem_toFinset, all]

end ProjectsCpp.Words
