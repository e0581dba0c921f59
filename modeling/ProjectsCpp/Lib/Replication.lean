import ProjectsCpp.Lib.Quorum
import Mathlib.Data.List.Infix
import Mathlib.Logic.Function.Basic

/-! Logs replicated under elected leaders, for any nodes, entries and terms.
A leader of a term inherits the log it was elected with and adds entries of its term; a
follower acknowledges a prefix of it. A node that has pledged itself to a term
acknowledges nothing of an earlier one, so an entry either keeps its place in the later
leaders' logs or is blocked by a majority. What a majority has acknowledged of a
leader's own entries is never blocked, and all later leaders inherit it. -/

namespace ProjectsCpp.Replication
open ProjectsCpp.Quorum

/-- `owned` is the log of the leader of a term, `base` the length it was elected with, and
`acked` how much of it a node has acknowledged; these outlast the leader. -/
structure Replicas (N E : Type) where
  log : N → List E
  owned : Int → List E
  base : Int → Nat
  acked : Int → N → Nat
  pledge : N → Int
  led : Int → Prop

variable {N E : Type} {term : E → Int}

def lastTerm (term : E → Int) (L : List E) : Int := (L.getLast?.map term).getD 0

theorem lastTerm_eq (term : E → Int) {L : List E} (some_ : L ≠ []) :
    ∃ e, L[L.length - 1]? = some e ∧ lastTerm term L = term e := by
  refine ⟨L.getLast some_, ?_, ?_⟩
  · rw [← List.getLast?_eq_getElem?, List.getLast?_eq_some_getLast some_]
  · rw [lastTerm, List.getLast?_eq_some_getLast some_]
    rfl

theorem lastTerm_take (term : E → Int) {L : List E} {k : Nat} {e : E} (there : L[k]? = some e) :
    lastTerm term (L.take (k + 1)) = term e := by
  have inside := (List.getElem?_eq_some_iff.mp there).1
  have length : (L.take (k + 1)).length = k + 1 := by
    rw [List.length_take]
    omega
  rw [lastTerm, List.getLast?_eq_getElem?, length, Nat.add_sub_cancel, List.getElem?_take,
    if_pos (Nat.lt_succ_self k), there]
  rfl

theorem take_of_start {L M : List E} {m : Nat} (start : L <+: M) (within : m ≤ L.length) :
    M.take m = L.take m := by
  obtain ⟨rest, rfl⟩ := start
  exact List.take_append_of_le_length within

theorem getElem?_of_start {L M : List E} {k : Nat} {e : E} (start : L <+: M)
    (there : L[k]? = some e) : M[k]? = some e := by
  obtain ⟨rest, rfl⟩ := start
  rw [List.getElem?_append_left (List.getElem?_eq_some_iff.mp there).1]
  exact there

theorem eq_of_start {L M K : List E} (first : L <+: K) (second : M <+: K)
    (length : L.length = M.length) : L = M :=
  (List.prefix_of_prefix_length_le first second (le_of_eq length)).eq_of_length length

namespace Replicas

def Formed (term : E → Int) (A : Replicas N E) (L : List E) : Prop :=
  ∀ k e, L[k]? = some e → A.led (term e) ∧ L.take (k + 1) <+: A.owned (term e)

def Own (A : Replicas N E) (t : Int) (k : Nat) : Prop :=
  A.led t ∧ A.base t ≤ k ∧ k < (A.owned t).length

/-- A majority will never acknowledge place `k` of term `t`. -/
def Blocked [Fintype N] (A : Replicas N E) (t : Int) (k : Nat) : Prop :=
  ∃ voters : List N, Majority voters ∧ ∀ v ∈ voters, t < A.pledge v ∧ A.acked t v ≤ k

/-- The log holds the entries of term `t` up to place `k`, unless these are blocked. -/
def Safe [Fintype N] (A : Replicas N E) (t : Int) (k : Nat) (L : List E) : Prop :=
  (A.owned t).take (k + 1) <+: L ∨ A.Blocked t k

def Chosen [Fintype N] (A : Replicas N E) (t : Int) (k : Nat) : Prop :=
  A.Own t k ∧ ∃ voters : List N, Majority voters ∧ ∀ v ∈ voters, k < A.acked t v

/-- A node that has pledged itself to term `T` and found the log `L` up to date. -/
structure Backs [Fintype N] (A : Replicas N E) (T : Int) (L : List E) (v : N) : Prop where
  pledge : T ≤ A.pledge v
  safe : ∀ t k, t < T → A.Own t k → k < A.acked t v → A.Safe t k L

structure Consistent [Fintype N] (term : E → Int) (A : Replicas N E) : Prop where
  formed : ∀ v, A.Formed term (A.log v)
  recent : ∀ v, ∀ e ∈ A.log v, term e ≤ A.pledge v
  positive : ∀ T, A.led T → 0 < T
  ownedFormed : ∀ T, A.led T → A.Formed term (A.owned T)
  inherited : ∀ T k e, A.led T → (A.owned T)[k]? = some e → k < A.base T → term e < T
  added : ∀ T k e, A.led T → (A.owned T)[k]? = some e → A.base T ≤ k → term e = T
  based : ∀ T, A.led T → A.base T ≤ (A.owned T).length
  counted : ∀ T v, A.acked T v ≤ (A.owned T).length
  pledged : ∀ T v, 0 < A.acked T v → A.led T ∧ T ≤ A.pledge v
  kept : ∀ t k v, k < A.acked t v → A.Own t k → A.Safe t k (A.log v)
  elected : ∀ T, A.led T → ∃ voters : List N, Majority voters ∧ ∀ v ∈ voters, T ≤ A.pledge v
  complete : ∀ T t k, A.led T → t < T → A.Own t k → A.Safe t k ((A.owned T).take (A.base T))

/-- Terms stay led, logs of leaders grow, and no node acknowledges below its pledge. -/
structure Extends (A B : Replicas N E) : Prop where
  led : ∀ t, A.led t → B.led t
  owned : ∀ t, A.led t → A.owned t <+: B.owned t
  base : ∀ t, A.led t → B.base t = A.base t
  acked : ∀ t v, A.acked t v ≤ B.acked t v
  pledge : ∀ v, A.pledge v ≤ B.pledge v
  frozen : ∀ t v, t < A.pledge v → B.acked t v = A.acked t v

theorem Extends.refl (A : Replicas N E) : Extends A A :=
  ⟨fun _ => id, fun _ _ => List.prefix_rfl, fun _ _ => rfl, fun _ _ => le_refl _,
    fun _ => le_refl _, fun _ _ _ => rfl⟩

section
variable {A B : Replicas N E} {t T : Int} {k m : Nat} {L M : List E} {v w : N} {e : E}

/-! ### What growth keeps -/

theorem Extends.take (ext : Extends A B) (led : A.led t) (within : m ≤ (A.owned t).length) :
    (B.owned t).take m = (A.owned t).take m :=
  take_of_start (ext.owned t led) within

theorem Extends.formed (ext : Extends A B) (formed : A.Formed term L) : B.Formed term L := by
  intro k e there
  obtain ⟨led, start⟩ := formed k e there
  exact ⟨ext.led _ led, start.trans (ext.owned _ led)⟩

theorem Extends.own (ext : Extends A B) (own : A.Own t k) : B.Own t k := by
  obtain ⟨led, above, within⟩ := own
  refine ⟨ext.led t led, ?_, ?_⟩
  · rwa [ext.base t led]
  · exact lt_of_lt_of_le within (ext.owned t led).length_le

/-! ### Logs that are formed -/

theorem Formed.take (formed : A.Formed term L) (m : Nat) : A.Formed term (L.take m) := by
  intro k e there
  rw [List.getElem?_take] at there
  split at there
  · rename_i inside
    obtain ⟨led, start⟩ := formed k e there
    rw [List.take_take, min_eq_left inside]
    exact ⟨led, start⟩
  · cases there

theorem Formed.last (formed : A.Formed term L) (some_ : L ≠ []) :
    A.led (lastTerm term L) ∧ L <+: A.owned (lastTerm term L) := by
  obtain ⟨e, there, last⟩ := lastTerm_eq term some_
  obtain ⟨led, start⟩ := formed _ e there
  have inside := List.length_pos_iff.mpr some_
  rw [List.take_of_length_le (by omega)] at start
  rw [last]
  exact ⟨led, start⟩

theorem Formed.eq_of_last (first : A.Formed term L) (second : A.Formed term M)
    (length : L.length = M.length) (last : lastTerm term L = lastTerm term M) : L = M := by
  by_cases empty : L = []
  · rw [empty] at length ⊢
    exact (List.length_eq_zero_iff.mp length.symm).symm
  · have some_ : M ≠ [] := by
      rintro rfl
      exact empty (List.length_eq_zero_iff.mp length)
    have start := (first.last empty).2
    rw [last] at start
    exact eq_of_start start (second.last some_).2 length

variable [Fintype N]

/-! ### What growth keeps -/

theorem Extends.blocked (ext : Extends A B) (blocked : A.Blocked t k) : B.Blocked t k := by
  obtain ⟨voters, majority, apart⟩ := blocked
  refine ⟨voters, majority, fun v member => ?_⟩
  obtain ⟨later, few⟩ := apart v member
  refine ⟨lt_of_lt_of_le later (ext.pledge v), ?_⟩
  rwa [ext.frozen t v later]

theorem Extends.safe (ext : Extends A B) (own : A.Own t k) (longer : L <+: M)
    (safe : A.Safe t k L) : B.Safe t k M := by
  cases safe with
  | inl start =>
    refine .inl ?_
    rw [ext.take own.1 own.2.2]
    exact start.trans longer
  | inr blocked => exact .inr (ext.blocked blocked)

theorem Extends.chosen (ext : Extends A B) (chosen : A.Chosen t k) : B.Chosen t k := by
  obtain ⟨own, voters, majority, enough⟩ := chosen
  exact ⟨ext.own own, voters, majority, fun v member =>
    lt_of_lt_of_le (enough v member) (ext.acked t v)⟩

theorem Extends.own_of_acked (ext : Extends A B) (c : A.Consistent term) (acked : k < A.acked t v)
    (own : B.Own t k) : A.Own t k := by
  have led := (c.pledged t v (by omega)).1
  refine ⟨led, ?_, lt_of_lt_of_le acked (c.counted t v)⟩
  rw [← ext.base t led]
  exact own.2.1

theorem Extends.backs (ext : Extends A B) (c : A.Consistent term) (backs : A.Backs T L v) :
    B.Backs T L v := by
  refine ⟨backs.pledge.trans (ext.pledge v), fun t k older own acked => ?_⟩
  rw [ext.frozen t v (lt_of_lt_of_le older backs.pledge)] at acked
  have before := ext.own_of_acked c acked own
  exact ext.safe before List.prefix_rfl (backs.safe t k older before acked)

theorem Extends.kept (ext : Extends A B) (c : A.Consistent term) (acked : k < A.acked t v)
    (own : B.Own t k) (longer : A.log v <+: B.log v) : B.Safe t k (B.log v) := by
  have before := ext.own_of_acked c acked own
  exact ext.safe before longer (c.kept t k v acked before)

theorem Extends.elected (ext : Extends A B) (c : A.Consistent term) (led : A.led T) :
    ∃ voters : List N, Majority voters ∧ ∀ v ∈ voters, T ≤ B.pledge v := by
  obtain ⟨voters, majority, later⟩ := c.elected T led
  exact ⟨voters, majority, fun v member => (later v member).trans (ext.pledge v)⟩

theorem Extends.complete (ext : Extends A B) (c : A.Consistent term) (led : A.led T) (older : t < T)
    (own : B.Own t k) : B.Safe t k ((B.owned T).take (B.base T)) := by
  by_cases before : A.Own t k
  · have safe := c.complete T t k led older before
    rw [ext.base T led, ext.take led (c.based T led)]
    exact ext.safe before List.prefix_rfl safe
  · obtain ⟨voters, majority, later⟩ := c.elected T led
    refine .inr ⟨voters, majority, fun v member => ?_⟩
    have pledged := lt_of_lt_of_le older (later v member)
    refine ⟨lt_of_lt_of_le pledged (ext.pledge v), ?_⟩
    rw [ext.frozen t v pledged]
    by_contra acked
    exact before (ext.own_of_acked (v := v) c (by omega) own)

/-! ### The vote rule -/

theorem Consistent.owned_term_le (c : A.Consistent term) (led : A.led T) (member : e ∈ A.owned T) :
    term e ≤ T := by
  obtain ⟨k, there⟩ := List.getElem?_of_mem member
  by_cases below : k < A.base T
  · exact le_of_lt (c.inherited T k e led there below)
  · exact le_of_eq (c.added T k e led there (by omega))

theorem Consistent.term_le_lastTerm (c : A.Consistent term) (formed : A.Formed term L)
    (member : e ∈ L) : term e ≤ lastTerm term L := by
  obtain ⟨led, start⟩ := formed.last (List.ne_nil_of_mem member)
  exact c.owned_term_le led (start.subset member)

theorem Consistent.own_entry (c : A.Consistent term) (own : A.Own t k)
    (start : (A.owned t).take (k + 1) <+: L) : ∃ e, L[k]? = some e ∧ term e = t := by
  obtain ⟨led, above, within⟩ := own
  have there := List.getElem?_eq_getElem within
  refine ⟨(A.owned t)[k], getElem?_of_start start ?_, c.added t k _ led there above⟩
  rwa [List.getElem?_take, if_pos (Nat.lt_succ_self k)]

theorem Consistent.safe_of_upToDate (c : A.Consistent term) (formed : A.Formed term L)
    (upToDate : lastTerm term (A.log v) < lastTerm term L ∨
      (lastTerm term L = lastTerm term (A.log v) ∧ (A.log v).length ≤ L.length))
    (own : A.Own t k) (acked : k < A.acked t v) : A.Safe t k L := by
  cases c.kept t k v acked own with
  | inr blocked => exact .inr blocked
  | inl start =>
    obtain ⟨e, there, termE⟩ := c.own_entry own start
    have member := List.mem_of_getElem? there
    have inside := (List.getElem?_eq_some_iff.mp there).1
    obtain ⟨ledV, startV⟩ := (c.formed v).last (List.ne_nil_of_mem member)
    have least := c.term_le_lastTerm (c.formed v) member
    have some_ : L ≠ [] := by
      rintro rfl
      have zero : lastTerm term ([] : List E) = 0 := rfl
      have positive := c.positive _ ledV
      cases upToDate with
      | inl later => omega
      | inr same => exact absurd same.2 (by simp; omega)
    obtain ⟨ledL, startL⟩ := formed.last some_
    cases upToDate with
    | inr same =>
      rw [same.1] at startL
      exact .inl (start.trans (List.prefix_of_prefix_length_le startV startL same.2))
    | inl later =>
      -- the last entry of `L` is the leader's own, so `L` has all that the leader inherited
      have long : A.base (lastTerm term L) ≤ L.length := by
        obtain ⟨d, last, termD⟩ := lastTerm_eq term some_
        by_contra short
        have less := c.inherited _ _ d ledL (getElem?_of_start startL last) (by omega)
        omega
      have inherits : (A.owned (lastTerm term L)).take (A.base (lastTerm term L)) <+: L := by
        rw [take_of_start startL long]
        exact List.take_prefix _ _
      have older : t < lastTerm term L := by omega
      exact (Extends.refl A).safe own inherits (c.complete _ t k ledL older own)

/-! ### Chosen places -/

theorem Chosen.not_blocked [DecidableEq N] (chosen : A.Chosen t k) : ¬ A.Blocked t k := by
  rintro ⟨voters', majority', apart⟩
  obtain ⟨-, voters, majority, enough⟩ := chosen
  obtain ⟨v, member, member'⟩ := majority.meet majority'
  have more := enough v member
  have less := (apart v member').2
  omega

theorem Consistent.chosen_inherited [DecidableEq N] (c : A.Consistent term) (chosen : A.Chosen t k)
    (led : A.led T) (le : t ≤ T) : (A.owned t).take (k + 1) <+: A.owned T := by
  by_cases same : t = T
  · rw [same]
    exact List.take_prefix _ _
  · have safe := c.complete T t k led (by omega) chosen.1
    exact (safe.resolve_right chosen.not_blocked).trans (List.take_prefix _ _)

def Decided (A : Replicas N E) (i : Nat) (e : E) : Prop :=
  ∃ t k, A.Chosen t k ∧ i ≤ k ∧ (A.owned t)[i]? = some e

theorem Extends.decided (ext : Extends A B) {i : Nat} (decided : A.Decided i e) : B.Decided i e := by
  obtain ⟨t, k, chosen, le, there⟩ := decided
  exact ⟨t, k, ext.chosen chosen, le, getElem?_of_start (ext.owned t chosen.1.1) there⟩

theorem Consistent.decided_unique [DecidableEq N] (c : A.Consistent term) {i : Nat} {d : E}
    (first : A.Decided i e) (second : A.Decided i d) : e = d := by
  have ordered : ∀ t k T e d, A.Chosen t k → i ≤ k → (A.owned t)[i]? = some e → A.led T →
      (A.owned T)[i]? = some d → t ≤ T → e = d := by
    intro t k T e d chosen le there led there' older
    have start := c.chosen_inherited chosen led older
    have inside : ((A.owned t).take (k + 1))[i]? = some e := by
      rwa [List.getElem?_take, if_pos (by omega)]
    have found := getElem?_of_start start inside
    rw [there'] at found
    exact (Option.some.inj found).symm
  obtain ⟨t, k, chosen, le, there⟩ := first
  obtain ⟨T, m, chosen', le', there'⟩ := second
  cases le_total t T with
  | inl older => exact ordered t k T e d chosen le there chosen'.1.1 there' older
  | inr older => exact (ordered T m t d e chosen' le' there' chosen.1.1 there older).symm

/-! ### Committed prefixes -/

/-- The first `m` entries of the leader of term `T` are chosen. -/
def Committed (A : Replicas N E) (T : Int) (m : Nat) : Prop :=
  m = 0 ∨ ∃ t k, A.Chosen t k ∧ t ≤ T ∧ m ≤ k + 1

def CommittedAt (A : Replicas N E) (v : N) (m : Nat) : Prop :=
  m = 0 ∨ ∃ t k, A.Chosen t k ∧ t ≤ A.pledge v ∧ m ≤ k + 1 ∧ (A.log v).take m <+: A.owned t

theorem Extends.committed (ext : Extends A B) (le : t ≤ T) (committed : A.Committed t m) :
    B.Committed T m := by
  cases committed with
  | inl none => exact .inl none
  | inr some_ =>
    obtain ⟨t', k, chosen, older, within⟩ := some_
    exact .inr ⟨t', k, ext.chosen chosen, older.trans le, within⟩

theorem Committed.fewer {m' : Nat} (committed : A.Committed T m) (less : m' ≤ m) :
    A.Committed T m' := by
  cases committed with
  | inl none => exact .inl (by omega)
  | inr some_ =>
    obtain ⟨t, k, chosen, older, within⟩ := some_
    exact .inr ⟨t, k, chosen, older, less.trans within⟩

theorem CommittedAt.committed (committed : A.CommittedAt v m) : A.Committed (A.pledge v) m := by
  cases committed with
  | inl none => exact .inl none
  | inr some_ =>
    obtain ⟨t, k, chosen, older, within, -⟩ := some_
    exact .inr ⟨t, k, chosen, older, within⟩

theorem Extends.committedAt (ext : Extends A B) (log : B.log v = A.log v)
    (committed : A.CommittedAt v m) : B.CommittedAt v m := by
  cases committed with
  | inl none => exact .inl none
  | inr some_ =>
    obtain ⟨t, k, chosen, older, within, start⟩ := some_
    refine .inr ⟨t, k, ext.chosen chosen, older.trans (ext.pledge v), within, ?_⟩
    rw [log]
    exact start.trans (ext.owned t chosen.1.1)

theorem Consistent.committedAt [DecidableEq N] (c : A.Consistent term) (led : A.led T)
    (pledge : A.pledge v = T) (follows : A.log v <+: A.owned T) (committed : A.Committed T m) :
    A.CommittedAt v m := by
  cases committed with
  | inl none => exact .inl none
  | inr some_ =>
    obtain ⟨t, k, chosen, older, within⟩ := some_
    refine .inr ⟨t, k, chosen, le_of_le_of_eq older pledge.symm, within, ?_⟩
    have start := c.chosen_inherited chosen led older
    have length : ((A.owned t).take (k + 1)).length = k + 1 := by
      have inside := chosen.1.2.2
      rw [List.length_take]
      omega
    have front : (A.owned T).take m <+: A.owned t := by
      rw [take_of_start start (by omega), List.take_take, min_eq_left within]
      exact List.take_prefix _ _
    exact (follows.take m).trans front

theorem CommittedAt.decided (committed : A.CommittedAt v m) {i : Nat} (below : i < m)
    (there : (A.log v)[i]? = some e) : A.Decided i e := by
  cases committed with
  | inl none => omega
  | inr some_ =>
    obtain ⟨t, k, chosen, -, within, start⟩ := some_
    refine ⟨t, k, chosen, by omega, getElem?_of_start start ?_⟩
    rwa [List.getElem?_take, if_pos below]

end

end Replicas

end ProjectsCpp.Replication
