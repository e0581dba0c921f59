import ProjectsCpp.Lib.Text
import Mathlib.Data.List.AList

/-! Finite maps written as texts: building a map from its entries, and rows of two words that
are read back entry by entry. -/

namespace ProjectsCpp.Maps
open ProjectsCpp.Text

variable {α β : Type} [DecidableEq α]

theorem lookup_foldl_insert (entries : List (Sigma fun _ : α => β)) (once : entries.NodupKeys)
    (m : AList fun _ : α => β) (key : α) :
    (entries.foldl (fun m e => m.insert e.1 e.2) m).lookup key =
      (entries.dlookup key).or (m.lookup key) := by
  induction entries generalizing m with
  | nil => rfl
  | cons e entries ih =>
    obtain ⟨k, v⟩ := e
    obtain ⟨fresh, once⟩ := List.nodupKeys_cons.mp once
    rw [List.foldl_cons, ih once]
    by_cases same : key = k
    · rw [same, AList.lookup_insert, List.dlookup_cons_eq,
        List.dlookup_eq_none.mpr fresh]
      rfl
    · rw [AList.lookup_insert_ne same, List.dlookup_cons_ne _ _ same]

/-- A row: two words with a separator between them. -/
def row (sep : Char) (key value : Str) : Str := key ++ sep :: value

theorem row_ne_nil (sep : Char) (key value : Str) : row sep key value ≠ [] :=
  List.append_ne_nil_of_right_ne_nil _ (List.cons_ne_nil _ _)

theorem mem_row {sep c : Char} {key value : Str} :
    c ∈ row sep key value ↔ c ∈ key ∨ c = sep ∨ c ∈ value := by
  rw [row, List.mem_append, List.mem_cons]

variable {outer inner : Char}

theorem mapM_cutAt_rows (outer inner : Char) (rows : List (Str × Str))
    (clean : ∀ r ∈ rows, outer ∉ r.1 ∧ outer ∉ r.2 ∧ inner ∉ r.1) (apart : outer ≠ inner) :
    (pieces outer (ended outer (rows.map fun r => row inner r.1 r.2))).mapM (cutAt inner) =
      some rows := by
  have words : ∀ w ∈ rows.map fun r => row inner r.1 r.2, w ≠ [] ∧ outer ∉ w := by
    intro w member
    obtain ⟨r, inside, rfl⟩ := List.mem_map.mp member
    have clean := clean r inside
    refine ⟨row_ne_nil _ _ _, ?_⟩
    rw [mem_row, not_or, not_or]
    exact ⟨clean.1, apart, clean.2.1⟩
  rw [pieces_all_ended _ words]
  exact mapM_map rows fun r inside => cutAt_sep (clean r inside).2.2

theorem lookup_foldl_rows {key : α → Str} {value : β → Str} {unkey : Str → α} {unvalue : Str → β}
    (keys : ∀ a, unkey (key a) = a) (values : ∀ b, unvalue (value b) = b)
    (m : AList fun _ : α => β) (a : α) :
    ((m.entries.map fun e => (key e.1, value e.2)).foldl
      (fun m r => m.insert (unkey r.1) (unvalue r.2)) (∅ : AList fun _ : α => β)).lookup a =
      m.lookup a := by
  rw [List.foldl_map]
  simp only [keys, values]
  rw [lookup_foldl_insert _ m.nodupKeys, AList.lookup_empty, Option.or_none]
  rfl

theorem lookup_foldl_pairs (m : AList fun _ : α => β) (a : α) :
    ((m.entries.map fun e => (e.1, e.2)).foldl (fun m r => m.insert r.1 r.2)
      (∅ : AList fun _ : α => β)).lookup a = m.lookup a := by
  rw [List.foldl_map, lookup_foldl_insert _ m.nodupKeys, AList.lookup_empty, Option.or_none]
  rfl

/-! ### Contents of a kind -/

def Every (P : α → β → Prop) (m : AList fun _ : α => β) : Prop :=
  ∀ a b, m.lookup a = some b → P a b

variable {P : α → β → Prop} {m n own : AList fun _ : α => β}

theorem every_empty : Every P (∅ : AList fun _ : α => β) := fun _ _ found => nomatch found

theorem Every.insert {a : α} {b : β} (every : Every P m) (new : P a b) : Every P (m.insert a b) := by
  intro k c found
  by_cases same : k = a
  · rw [same, AList.lookup_insert, Option.some.injEq] at found
    rwa [same, ← found]
  · rw [AList.lookup_insert_ne same] at found
    exact every k c found

theorem Every.erase (every : Every P m) (a : α) : Every P (m.erase a) := by
  intro k c found
  by_cases same : k = a
  · rw [same, AList.lookup_erase] at found
    cases found
  · rw [AList.lookup_erase_ne same] at found
    exact every k c found

theorem Every.mem (every : Every P m) {e : Sigma fun _ : α => β} (member : e ∈ m.entries) :
    P e.1 e.2 := every e.1 e.2 (AList.mem_lookup_iff.mpr member)

theorem Every.getD {Q : β → Prop} (every : Every (fun _ => Q) m) {d : β} (default : Q d) (a : α) :
    Q ((m.lookup a).getD d) := by
  cases found : m.lookup a with
  | none => exact default
  | some b => exact every a b found

theorem every_foldl {rows : List (α × β)} (every : Every P m) (new : ∀ r ∈ rows, P r.1 r.2) :
    Every P (rows.foldl (fun m r => m.insert r.1 r.2) m) := by
  induction rows generalizing m with
  | nil => exact every
  | cons r rows ih =>
    exact ih (every.insert (new r List.mem_cons_self)) fun q member =>
      new q (List.mem_cons_of_mem _ member)

/-! ### Writing over what is there -/

/-- `entries` written over `own`; `d` stands for contents that are not there. -/
def overlay {γ : Type} (write : β → γ → β) (d : β) (own : AList fun _ : α => β)
    (entries : List (α × γ)) : AList fun _ : α => β :=
  entries.foldl (fun m e => m.insert e.1 (write ((m.lookup e.1).getD d) e.2)) own

def Alike (same : β → β → Prop) (m n : AList fun _ : α => β) : Prop :=
  ∀ a, Option.Rel same (m.lookup a) (n.lookup a)

/-- Every key of `m` is a key of `n`, and what it has there fits. -/
def Covered (fits : β → β → Prop) (m n : AList fun _ : α => β) : Prop :=
  ∀ a b, m.lookup a = some b → ∃ c, n.lookup a = some c ∧ fits b c

def KeysIn (m n : AList fun _ : α => β) : Prop := Covered (fun _ _ => True) m n

theorem covered_iff {fits : β → β → Prop} [∀ b c, Decidable (fits b c)] :
    Covered fits m n ↔
      ∀ e ∈ m.entries, ((n.lookup e.1).any fun c => decide (fits e.2 c)) = true := by
  simp only [Covered, Option.any_eq_true, decide_eq_true_eq]
  constructor
  · exact fun covered e member => covered e.1 e.2 (AList.mem_lookup_iff.mpr member)
  · exact fun every a b found => every ⟨a, b⟩ (AList.mem_lookup_iff.mp found)

instance {fits : β → β → Prop} [∀ b c, Decidable (fits b c)] : Decidable (Covered fits m n) :=
  decidable_of_iff _ covered_iff.symm

instance : Decidable (KeysIn m n) := inferInstanceAs (Decidable (Covered _ m n))

theorem alike_eq : Alike Eq m n ↔ ∀ a, m.lookup a = n.lookup a := by
  have equal : ∀ x y : Option β, Option.Rel Eq x y ↔ x = y := by
    intro x y
    constructor
    · rintro (same | _)
      · rw [same]
      · rfl
    · rintro rfl
      cases x with
      | none => exact .none
      | some b => exact .some rfl
  exact forall_congr' fun a => equal _ _

theorem covered_empty {fits : β → β → Prop} : Covered fits ∅ n := fun _ _ found => nomatch found

section
variable {γ : Type} {write : β → γ → β} {d : β} {g : β → γ} {same fits : β → β → Prop}

theorem lookup_overlay (own n : AList fun _ : α => β) (a : α) :
    (overlay write d own (n.entries.map fun e => (e.1, g e.2))).lookup a =
      match n.lookup a with
      | none => own.lookup a
      | some b => some (write ((own.lookup a).getD d) (g b)) := by
  have loop : ∀ (entries : List (Sigma fun _ : α => β)) (own : AList fun _ : α => β),
      entries.NodupKeys → (overlay write d own (entries.map fun e => (e.1, g e.2))).lookup a =
        match entries.dlookup a with
        | none => own.lookup a
        | some b => some (write ((own.lookup a).getD d) (g b)) := by
    intro entries
    induction entries with
    | nil => exact fun own once => rfl
    | cons e entries ih =>
      intro own once
      obtain ⟨k, b⟩ := e
      obtain ⟨fresh, once⟩ := List.nodupKeys_cons.mp once
      rw [overlay, List.map_cons, List.foldl_cons, ← overlay, ih _ once]
      by_cases here : a = k
      · rw [here, List.dlookup_eq_none.mpr fresh, List.dlookup_cons_eq, AList.lookup_insert]
      · rw [List.dlookup_cons_ne entries ⟨k, b⟩ here, AList.lookup_insert_ne here]
  exact loop n.entries own n.nodupKeys

theorem alike_overlay (inner : ∀ x y, same (write x (g y)) y ↔ fits x y) (base : ∀ y, fits d y) :
    Alike same (overlay write d own (n.entries.map fun e => (e.1, g e.2))) n ↔
      Covered fits own n := by
  constructor
  · intro alike a x found
    have agree := alike a
    rw [lookup_overlay, found] at agree
    cases there : n.lookup a with
    | none =>
      rw [there] at agree
      cases agree
    | some y =>
      rw [there] at agree
      exact ⟨y, rfl, (inner x y).mp (Option.rel_some_some.mp agree)⟩
  · intro covered a
    rw [lookup_overlay]
    cases there : n.lookup a with
    | none =>
      cases found : own.lookup a with
      | none => exact .none
      | some x =>
        obtain ⟨y, at_, -⟩ := covered a x found
        rw [there] at at_
        cases at_
    | some y =>
      refine .some ((inner _ y).mpr ?_)
      cases found : own.lookup a with
      | none => exact base y
      | some x =>
        obtain ⟨z, at_, fit⟩ := covered a x found
        rw [there, Option.some.injEq] at at_
        rw [at_]
        exact fit

theorem foldl_insert_key (write : β → γ → β) (d : β) {xs : List γ} (some : xs ≠ [])
    (m : AList fun _ : α => β) (a : α) :
    xs.foldl (fun m x => m.insert a (write ((m.lookup a).getD d) x)) m =
      m.insert a (xs.foldl write ((m.lookup a).getD d)) := by
  induction xs generalizing m with
  | nil => exact absurd rfl some
  | cons x xs ih =>
    rw [List.foldl_cons, List.foldl_cons]
    by_cases last : xs = []
    · rw [last]
      rfl
    · rw [ih last, AList.lookup_insert, AList.insert_insert]
      rfl

end

end ProjectsCpp.Maps
