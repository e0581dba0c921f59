import ProjectsCpp.Skiplist.Levels

/-! The loops of a skip list that write: a node goes into its levels, out of them, and the levels at
the top that are empty are given up. -/

namespace ProjectsCpp.Skiplist.SkipList
open ProjectsCpp.Chains

variable {K V : Type} {s t : SkipList K V} {p i : Nat} {update : Nat → Option Nat}
variable {levels : List Nat}

/-- `update` has the node of level `i` behind which the loops write. -/
structure Found (s : SkipList K V) (update : Nat → Option Nat) (i : Nat) (front level : List Nat) :
    Prop where
  chain : Chain (s.next i) 0 level
  distinct : (0 :: level).Nodup
  place : update i = some (lastOf 0 front)
  reads : s.Reads (lastOf 0 front) i

theorem Found.congr {front level : List Nat} (found : s.Found update i front level)
    (same : Same s t) (next : t.next i = s.next i) : t.Found update i front level :=
  ⟨next ▸ found.chain, found.distinct, found.place, same.reads found.reads⟩

theorem link_spec (before after : Nat → List Nat) (once : levels.Nodup) (own : ∀ i ∈ levels, s.Reads p i)
    (apart : ∀ i ∈ levels, p ∉ 0 :: (before i ++ after i))
    (found : ∀ i ∈ levels, s.Found update i (before i) (before i ++ after i)) :
    ∃ t, s.link p update levels = some t ∧ Same s t ∧
      (∀ i ∈ levels, Chain (t.next i) 0 (before i ++ p :: after i)) ∧
      ∀ i ∉ levels, t.next i = s.next i := by
  induction levels generalizing s with
  | nil => exact ⟨s, rfl, .refl s, by simp, fun i _ => rfl⟩
  | cons i levels ih =>
    obtain ⟨first, once⟩ := List.nodup_cons.mp once
    have here := found i (.head _)
    have other : lastOf 0 (before i) ≠ p := by
      intro same
      refine apart i (.head _) (same ▸ List.Sublist.subset ?_ (lastOf_mem 0 (before i)))
      exact (List.sublist_append_left _ _).cons_cons 0
    obtain ⟨s₁, wrote₁, same₁, next₁, others₁, rest₁⟩ :=
      setForward_spec (own i (.head _)) (s.next i (lastOf 0 (before i)))
    obtain ⟨s₂, wrote₂, same₂, next₂, others₂, rest₂⟩ :=
      setForward_spec (same₁.reads here.reads) (some p)
    have same := same₁.trans same₂
    have rest (j : Nat) (unlike : j ≠ i) : s₂.next j = s.next j :=
      (rest₂ j unlike).trans (rest₁ j unlike)
    obtain ⟨t, done, same', chains, others⟩ := ih (s := s₂) once
      (fun j member => same.reads (own j (.tail _ member)))
      (fun j member => apart j (.tail _ member))
      (fun j member => (found j (.tail _ member)).congr same
        (rest j fun equal => first (equal ▸ member)))
    refine ⟨t, ?_, same.trans same', ?_, ?_⟩
    · rw [link, here.place, Option.bind_some, here.reads.forwardOf, Option.bind_some, wrote₁,
        Option.bind_some, wrote₂, Option.bind_some, done]
    · intro j member
      rcases List.mem_cons.mp member with rfl | member
      · rw [others j first]
        refine here.chain.insert here.distinct (apart j (.head _)) ?_ next₂ ?_
        · rw [others₂ p other.symm, next₁]
        · intro y unlike last
          rw [others₂ y last, others₁ y unlike]
      · exact chains j member
    · intro j outside
      obtain ⟨unlike, outside⟩ := not_or.mp (List.mem_cons.not.mp outside)
      rw [others j outside, rest j unlike]

theorem unlink_spec (before after : Nat → List Nat) (more : List Nat) (once : levels.Nodup) (own : ∀ i ∈ levels, s.Reads p i)
    (found : ∀ i ∈ levels, s.Found update i (before i) (before i ++ p :: after i))
    (stop : ∀ i, more.head? = some i → i ∉ levels ∧
      ∃ a, update i = some a ∧ s.Reads a i ∧ s.next i a ≠ some p) :
    ∃ t, s.unlink p update (levels ++ more) = some t ∧ Same s t ∧
      (∀ i ∈ levels, Chain (t.next i) 0 (before i ++ after i)) ∧
      ∀ i ∉ levels, t.next i = s.next i := by
  induction levels generalizing s with
  | nil =>
    refine ⟨s, ?_, .refl s, by simp, fun i _ => rfl⟩
    cases more with
    | nil => rfl
    | cons i more =>
      obtain ⟨-, a, place, reads, other⟩ := stop i rfl
      rw [List.nil_append, unlink, place, Option.bind_some, reads.forwardOf, Option.bind_some,
        if_neg other]
  | cons i levels ih =>
    obtain ⟨first, once⟩ := List.nodup_cons.mp once
    have here := found i (.head _)
    obtain ⟨s₁, wrote, same, next, others, rest⟩ := setForward_spec here.reads (s.next i p)
    obtain ⟨t, done, same', chains, others'⟩ := ih (s := s₁) once
      (fun j member => same.reads (own j (.tail _ member)))
      (fun j member => (found j (.tail _ member)).congr same
        (rest j fun equal => first (equal ▸ member)))
      (by
        intro j head
        obtain ⟨outside, a, place, reads, other⟩ := stop j head
        obtain ⟨unlike, outside⟩ := not_or.mp (List.mem_cons.not.mp outside)
        refine ⟨outside, a, place, same.reads reads, ?_⟩
        rwa [rest j unlike])
    refine ⟨t, ?_, same.trans same', ?_, ?_⟩
    · rw [List.cons_append, unlink, here.place, Option.bind_some, here.reads.forwardOf,
        Option.bind_some, here.chain.next_last, List.head?_cons, if_pos rfl,
        (own i (.head _)).forwardOf, Option.bind_some, wrote, Option.bind_some, done]
    · intro j member
      rcases List.mem_cons.mp member with rfl | member
      · rw [others' j first]
        exact here.chain.erase here.distinct next others
      · exact chains j member
    · intro j outside
      obtain ⟨unlike, outside⟩ := not_or.mp (List.mem_cons.not.mp outside)
      rw [others' j outside, rest j unlike]

theorem shrink_spec (level : Nat) (reads : ∀ i ≤ level, s.Reads 0 i) :
    ∃ top ≤ level, s.shrink level = some { s with skip_list_level := top } ∧
      (∀ i, top < i → i ≤ level → s.next i 0 = none) ∧ (top = 0 ∨ s.next top 0 ≠ none) := by
  induction level with
  | zero => exact ⟨0, Nat.le_refl _, rfl, by omega, .inl rfl⟩
  | succ level ih =>
    rw [shrink, (reads _ (Nat.le_refl _)).forwardOf, Option.bind_some]
    split
    · rename_i empty
      obtain ⟨top, le, done, none, last⟩ := ih fun i le => reads i (Nat.le_succ_of_le le)
      refine ⟨top, Nat.le_succ_of_le le, done, fun i above inside => ?_, last⟩
      rcases Nat.lt_or_eq_of_le inside with less | rfl
      · exact none i above (Nat.le_of_lt_succ less)
      · exact empty
    · rename_i some_
      exact ⟨level + 1, Nat.le_refl _, rfl, by omega, .inr some_⟩

end ProjectsCpp.Skiplist.SkipList
