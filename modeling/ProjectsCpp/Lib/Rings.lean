import Mathlib.Data.List.Nodup
import Mathlib.Logic.Function.Basic
import Mathlib.Tactic.Common

/-! Rings of elements linked in both directions, as pairs of functions. An element that is unlinked
keeps its own links, so that it can be put back. `loop_rule` is the rule for a loop that follows the
links of a ring while its body changes others. -/

namespace ProjectsCpp.Rings

variable {α : Type} {next prev next' prev' : α → α} {a b c j n : α} {l r : List α}

/-- The way from `a` through a list to `b`. -/
def Path (next prev : α → α) : α → List α → α → Prop
  | a, [], b => next a = b ∧ prev b = a
  | a, x :: l, b => (next a = x ∧ prev x = a) ∧ Path next prev x l b

/-- The elements of `l` follow `c`, and `c` follows the last one. -/
def Ring (next prev : α → α) (c : α) (l : List α) : Prop := Path next prev c l c

theorem path_append : Path next prev a (l ++ j :: r) b ↔ Path next prev a l j ∧ Path next prev j r b := by
  induction l generalizing a with
  | nil => exact Iff.rfl
  | cons x l ih =>
    rw [List.cons_append, Path, Path, ih]
    exact and_assoc.symm

theorem Path.congr (path : Path next prev a l b) (forth : ∀ x ∈ a :: l, next' x = next x)
    (back : ∀ x ∈ l ++ [b], prev' x = prev x) : Path next' prev' a l b := by
  induction l generalizing a with
  | nil => exact ⟨(forth a (.head _)).trans path.1, (back b (.head _)).trans path.2⟩
  | cons x l ih =>
    obtain ⟨⟨here, there⟩, rest⟩ := path
    exact ⟨⟨(forth a (.head _)).trans here, (back x (.head _)).trans there⟩,
      ih rest (fun y inside => forth y (.tail _ inside)) fun y inside => back y (.tail _ inside)⟩

theorem Path.reverse (path : Path next prev a l b) : Path prev next b l.reverse a := by
  induction l generalizing a with
  | nil => exact path.symm
  | cons x l ih =>
    rw [List.reverse_cons]
    exact path_append.mpr ⟨ih path.2, path.1.symm⟩

theorem Path.next_mem (path : Path next prev a l b) : next a ∈ l ++ [b] := by
  cases l with
  | nil => exact path.1 ▸ List.mem_singleton_self _
  | cons x l => exact path.1.1 ▸ List.mem_cons_self

theorem Path.prev_mem (path : Path next prev a l b) : prev b ∈ a :: l := by
  have member := path.reverse.next_mem
  rw [List.mem_append, List.mem_reverse, List.mem_singleton] at member
  exact List.mem_cons.mpr member.symm

theorem Path.prev_next (path : Path next prev a l b) : prev (next a) = a := by
  cases l with
  | nil => rw [path.1, path.2]
  | cons x l => rw [path.1.1, path.1.2]

theorem Path.next_prev (path : Path next prev a l b) : next (prev b) = b := path.reverse.prev_next

theorem Path.put (path : Path next prev a l b) (distinct : (a :: l).Nodup) (apart : n ∉ l)
    (next_ : next' (prev b) = n) (prev_ : prev' n = prev b)
    (forth : ∀ x ∈ a :: l, x ≠ prev b → next' x = next x) (back : ∀ x ∈ l, prev' x = prev x) :
    Path next' prev' a l n := by
  induction l generalizing a with
  | nil =>
    obtain ⟨-, there⟩ := path
    rw [there] at next_ prev_
    exact ⟨next_, prev_⟩
  | cons x l ih =>
    obtain ⟨⟨here, there⟩, rest⟩ := path
    have other : a ≠ prev b := fun same => (List.nodup_cons.mp distinct).1 (same ▸ rest.prev_mem)
    exact ⟨⟨(forth a (.head _) other).trans here, (back x (.head _)).trans there⟩,
      ih rest (List.nodup_cons.mp distinct).2 (fun inside => apart (.tail _ inside))
        (fun y inside => forth y (.tail _ inside)) fun y inside => back y (.tail _ inside)⟩

def Walk (next : α → α) : α → List α → α → Prop
  | a, [], b => next a = b
  | a, x :: l, b => next a = x ∧ Walk next x l b

theorem Path.walk (path : Path next prev a l b) : Walk next a l b := by
  induction l generalizing a with
  | nil => exact path.1
  | cons x l ih => exact ⟨path.1.1, ih path.2⟩

theorem Walk.first (walk : Walk next a l b) : next a = l.headD b := by
  cases l with
  | nil => exact walk
  | cons x l => exact walk.1

theorem Walk.second (walk : Walk next a (l ++ j :: r) b) : next j = r.headD b := by
  induction l generalizing a with
  | nil => exact Walk.first walk.2
  | cons x l ih => exact ih walk.2

namespace Ring

theorem rotate (ring : Ring next prev c (l ++ j :: r)) : Ring next prev j (r ++ c :: l) :=
  path_append.mpr (path_append.mp ring).symm

theorem reverse (ring : Ring next prev c l) : Ring prev next c l.reverse := Path.reverse ring

theorem congr (ring : Ring next prev c l) (forth : ∀ x ∈ c :: l, next' x = next x)
    (back : ∀ x ∈ c :: l, prev' x = prev x) : Ring next' prev' c l := by
  refine Path.congr ring forth fun x member => back x ?_
  rw [List.mem_append, List.mem_singleton] at member
  exact List.mem_cons.mpr member.symm

theorem around (ring : Ring next prev c l) (member : j ∈ c :: l) :
    next j ∈ c :: l ∧ prev j ∈ c :: l ∧ prev (next j) = j ∧ next (prev j) = j := by
  have turned : ∃ l', Ring next prev j l' ∧ ∀ x, x ∈ j :: l' → x ∈ c :: l := by
    rcases List.mem_cons.mp member with rfl | member
    · exact ⟨l, ring, fun _ => id⟩
    · obtain ⟨before, after, rfl⟩ := List.append_of_mem member
      refine ⟨_, ring.rotate, fun x inside => ?_⟩
      simp only [List.mem_cons, List.mem_append] at inside ⊢
      tauto
  obtain ⟨l', ring', inside⟩ := turned
  have forth := Path.next_mem ring'
  rw [List.mem_append, List.mem_singleton] at forth
  exact ⟨inside _ (List.mem_cons.mpr forth.symm), inside _ (Path.prev_mem ring'),
    Path.prev_next ring', Path.next_prev ring'⟩

variable [DecidableEq α]

theorem update (ring : Ring next prev c l) {x y v w : α} (forth : x ∉ c :: l) (back : y ∉ c :: l) :
    Ring (Function.update next x v) (Function.update prev y w) c l := by
  refine ring.congr (fun z inside => Function.update_of_ne ?_ _ _) fun z inside =>
    Function.update_of_ne ?_ _ _
  · rintro rfl
    exact forth inside
  · rintro rfl
    exact back inside

end Ring

variable [DecidableEq α]

theorem Path.unlink (path : Path next prev a (l ++ j :: r) b) (distinct : (a :: l ++ j :: r).Nodup)
    (apart : b ∉ l ++ j :: r) :
    Path (Function.update next (prev j) (next j)) (Function.update prev (next j) (prev j)) a (l ++ r)
      b := by
  induction l generalizing a with
  | nil =>
    obtain ⟨⟨-, back⟩, rest⟩ := path
    rw [back]
    cases r with
    | nil =>
      obtain ⟨forth, -⟩ := rest
      rw [forth]
      exact ⟨Function.update_self .., Function.update_self ..⟩
    | cons x r =>
      obtain ⟨⟨forth, -⟩, rest⟩ := rest
      rw [forth]
      have outside : a ∉ x :: r := fun inside => (List.nodup_cons.mp distinct).1 (.tail _ inside)
      have once : x ∉ r :=
        (List.nodup_cons.mp (List.nodup_cons.mp (List.nodup_cons.mp distinct).2).2).1
      have ends : x ≠ b := by
        rintro rfl
        exact apart (.tail _ (.head _))
      refine ⟨⟨Function.update_self .., Function.update_self ..⟩, rest.congr (fun y inside => ?_)
        fun y inside => ?_⟩
      · refine Function.update_of_ne ?_ _ _
        rintro rfl
        exact outside inside
      · refine Function.update_of_ne ?_ _ _
        rintro rfl
        rcases List.mem_append.mp inside with inside | last
        · exact once inside
        · exact ends (List.mem_singleton.mp last)
  | cons y l ih =>
    obtain ⟨⟨forth, back⟩, rest⟩ := path
    obtain ⟨first, second⟩ := path_append.mp rest
    rw [List.cons_append, List.cons_append] at distinct
    rw [List.cons_append] at apart
    refine ⟨⟨?_, ?_⟩, ih rest (List.nodup_cons.mp distinct).2 fun inside => apart (.tail _ inside)⟩
    · refine (Function.update_of_ne ?_ _ _).trans forth
      intro same
      have inside := first.prev_mem
      rw [← same] at inside
      refine (List.nodup_cons.mp distinct).1 ?_
      rw [← List.cons_append]
      exact List.mem_append_left _ inside
    · refine (Function.update_of_ne ?_ _ _).trans back
      intro same
      have inside := second.next_mem
      rw [← same, List.mem_append] at inside
      rcases inside with inside | last
      · exact (List.nodup_cons.mp (List.nodup_cons.mp distinct).2).1
          (List.mem_append_right _ (.tail _ inside))
      · exact apart (List.mem_singleton.mp last ▸ .head _)

theorem Ring.unlink (ring : Ring next prev c l) (distinct : (c :: l).Nodup) (member : j ∈ l) :
    Ring (Function.update next (prev j) (next j)) (Function.update prev (next j) (prev j)) c
      (l.filter (· ≠ j)) := by
  obtain ⟨before, after, rfl⟩ := List.append_of_mem member
  have inner := (List.nodup_cons.mp distinct).2
  have once := List.nodup_middle.mp inner
  have left : before ++ after = (before ++ j :: after).filter (· ≠ j) := by
    rw [List.filter_append, List.filter_cons_of_neg (by simp), ← List.filter_append]
    refine (List.filter_eq_self.mpr fun x inside => ?_).symm
    rw [decide_eq_true_iff]
    rintro rfl
    exact (List.nodup_cons.mp once).1 inside
  rw [← left]
  exact Path.unlink ring distinct (List.nodup_cons.mp distinct).1

theorem Ring.put (ring : Ring next prev c l) (distinct : (c :: l).Nodup) (apart : n ∉ c :: l) :
    Ring (Function.update (Function.update next n c) (prev c) n)
      (Function.update (Function.update prev n (prev c)) c n) c (l ++ [n]) := by
  have other : n ≠ c := fun same => apart (same ▸ List.mem_cons_self)
  have last : n ≠ prev c := fun same => apart (same ▸ (ring.around (.head _)).2.1)
  refine path_append.mpr ⟨Path.put ring distinct (fun inside => apart (.tail _ inside))
    (Function.update_self ..) ?_ ?_ ?_, ?_, Function.update_self ..⟩
  · rw [Function.update_of_ne other, Function.update_self]
  · intro x inside notLast
    rw [Function.update_of_ne notLast, Function.update_of_ne]
    rintro rfl
    exact apart inside
  · intro x inside
    rw [Function.update_of_ne, Function.update_of_ne]
    · rintro rfl
      exact apart (.tail _ inside)
    · rintro rfl
      exact (List.nodup_cons.mp distinct).1 inside
  · rw [Function.update_of_ne last, Function.update_self]

/-! ### Loops along a ring -/

variable {σ : Type}

/-- `for (n = ..; n != stop; n = n->next)` -/
def loop (next : σ → α → α) (body : σ → α → Option σ) (stop : α) : Nat → σ → α → Option σ
  | 0, _, _ => none
  | fuel + 1, s, n =>
    if n = stop then some s else (body s n).bind fun s => loop next body stop fuel s (next s n)

theorem loop_rule {next : σ → α → α} {body : σ → α → Option σ} {stop : α} {P : List α → σ → Prop}
    {fuel : Nat} {s : σ} (away : stop ∉ l) (enough : l.length < fuel)
    (walk : ∀ first rest t, l = first ++ rest → P first t → Walk (next t) stop l stop)
    (step : ∀ first n rest t, l = first ++ n :: rest → P first t →
      ∃ t', body t n = some t' ∧ P (first ++ [n]) t')
    (start : P [] s) : ∃ t, loop next body stop fuel s (next s stop) = some t ∧ P l t := by
  suffices from_ : ∀ rest first t fuel, l = first ++ rest → P first t → rest.length < fuel →
      ∃ t', loop next body stop fuel t (rest.headD stop) = some t' ∧ P l t' by
    rw [(walk [] l s rfl start).first]
    exact from_ l [] s fuel rfl start enough
  intro rest
  induction rest with
  | nil =>
    intro first t fuel whole here less
    obtain ⟨fuel, rfl⟩ := Nat.exists_eq_succ_of_ne_zero (Nat.ne_of_gt less)
    rw [List.append_nil] at whole
    exact ⟨t, if_pos rfl, whole ▸ here⟩
  | cons n rest ih =>
    intro first t fuel whole here less
    obtain ⟨fuel, rfl⟩ := Nat.exists_eq_succ_of_ne_zero (Nat.ne_of_gt (Nat.lt_of_le_of_lt
      (Nat.zero_le _) less))
    have other : n ≠ stop := by
      rintro rfl
      exact away (whole ▸ List.mem_append_right _ List.mem_cons_self)
    obtain ⟨t', did, here'⟩ := step first n rest t whole here
    have whole' : l = first ++ [n] ++ rest := by rw [whole, List.append_assoc]; rfl
    have further : next t' n = rest.headD stop := (whole ▸ walk _ rest t' whole' here').second
    rw [List.headD_cons, loop, if_neg other, did, Option.bind_some, further]
    exact ih (first ++ [n]) t' fuel whole' here' (Nat.lt_of_succ_lt_succ less)

end ProjectsCpp.Rings
