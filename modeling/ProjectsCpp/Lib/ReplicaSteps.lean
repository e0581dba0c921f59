import ProjectsCpp.Lib.Replication

/-! The steps of replicated logs: a node pledges itself to a term, is elected with the log it
has, adds an entry, or takes over entries of its leader. Each step extends what was
there and keeps the logs consistent. -/

namespace ProjectsCpp.Replication
open ProjectsCpp.Quorum

namespace Replicas

variable {N E : Type} {term : E → Int}

/-! ### The start -/

def empty (N E : Type) : Replicas N E :=
  ⟨fun _ => [], fun _ => [], fun _ => 0, fun _ _ => 0, fun _ => 0, fun _ => False⟩

theorem empty_consistent [Fintype N] : (empty N E).Consistent term where
  formed := fun _ _ _ there => nomatch there
  recent := fun _ _ member => nomatch member
  positive := nofun
  ownedFormed := nofun
  inherited := nofun
  added := nofun
  based := nofun
  counted := fun _ _ => le_refl 0
  pledged := fun _ _ some_ => absurd some_ (Nat.lt_irrefl 0)
  kept := fun _ _ _ acked => absurd acked (Nat.not_lt_zero _)
  elected := nofun
  complete := nofun

/-! ### The steps -/

variable [DecidableEq N]

/-- `acked` after node `v` has acknowledged `m` entries of term `T`. -/
def acknowledge (A : Replicas N E) (T : Int) (v : N) (m : Nat) : Int → N → Nat :=
  fun t w => if t = T ∧ w = v then m else A.acked t w

def vote (A : Replicas N E) (v : N) (T : Int) : Replicas N E :=
  { A with pledge := Function.update A.pledge v T }

def lead (A : Replicas N E) (v : N) (T : Int) : Replicas N E :=
  { A with
    owned := Function.update A.owned T (A.log v)
    base := Function.update A.base T (A.log v).length
    acked := A.acknowledge T v (A.log v).length
    led := fun t => t = T ∨ A.led t }

def append (A : Replicas N E) (v : N) (T : Int) (e : E) : Replicas N E :=
  { A with
    log := Function.update A.log v (A.log v ++ [e])
    owned := Function.update A.owned T (A.owned T ++ [e])
    acked := A.acknowledge T v ((A.owned T).length + 1) }

/-- Node `v` takes over `m` entries of the leader of term `T`. -/
def accept (A : Replicas N E) (v : N) (T : Int) (m : Nat) : Replicas N E :=
  { A with
    log := Function.update A.log v ((A.owned T).take m)
    pledge := Function.update A.pledge v T
    acked := A.acknowledge T v (max (A.acked T v) m) }

section
variable {A B : Replicas N E} {t T : Int} {k m : Nat} {v w : N} {e : E}

@[simp] theorem vote_pledge : (A.vote v T).pledge v = T := Function.update_self _ _ _

@[simp] theorem lead_owned : (A.lead v T).owned T = A.log v := Function.update_self _ _ _

theorem lead_owned_of_ne (apart : t ≠ T) : (A.lead v T).owned t = A.owned t :=
  Function.update_of_ne apart _ _

@[simp] theorem lead_base : (A.lead v T).base T = (A.log v).length := Function.update_self _ _ _

theorem lead_base_of_ne (apart : t ≠ T) : (A.lead v T).base t = A.base t :=
  Function.update_of_ne apart _ _

@[simp] theorem append_log : (A.append v T e).log v = A.log v ++ [e] := Function.update_self _ _ _

@[simp] theorem append_owned : (A.append v T e).owned T = A.owned T ++ [e] :=
  Function.update_self _ _ _

theorem append_owned_of_ne (apart : t ≠ T) : (A.append v T e).owned t = A.owned t :=
  Function.update_of_ne apart _ _

@[simp] theorem accept_log : (A.accept v T m).log v = (A.owned T).take m :=
  Function.update_self _ _ _

@[simp] theorem accept_pledge : (A.accept v T m).pledge v = T := Function.update_self _ _ _

theorem acknowledge_self : A.acknowledge T v m T v = m := if_pos ⟨rfl, rfl⟩

theorem acknowledge_node (apart : w ≠ v) : A.acknowledge T v m t w = A.acked t w :=
  if_neg fun same => apart same.2

theorem acknowledge_term (apart : t ≠ T) : A.acknowledge T v m t w = A.acked t w :=
  if_neg fun same => apart same.1

theorem le_acknowledge (more : A.acked T v ≤ m) : A.acked t w ≤ A.acknowledge T v m t w := by
  rw [acknowledge]
  split
  · rename_i same
    rw [same.1, same.2]
    exact more
  · exact le_refl _

theorem acknowledge_frozen (late : A.pledge v ≤ T) (before : t < A.pledge w) :
    A.acknowledge T v m t w = A.acked t w := by
  refine if_neg fun same => ?_
  rw [same.1, same.2] at before
  omega

/-- The step changes log, pledge and acknowledgements of node `v` only. -/
structure OnlyAt (A B : Replicas N E) (v : N) : Prop where
  log : ∀ w, w ≠ v → B.log w = A.log w
  pledge : ∀ w, w ≠ v → B.pledge w = A.pledge w
  acked : ∀ t w, w ≠ v → B.acked t w = A.acked t w

/-! #### Pledging -/

theorem vote_onlyAt : OnlyAt A (A.vote v T) v :=
  ⟨fun _ _ => rfl, fun _ apart => Function.update_of_ne apart _ _, fun _ _ _ => rfl⟩

theorem vote_extends (later : A.pledge v ≤ T) : Extends A (A.vote v T) where
  led := fun _ => id
  owned := fun _ _ => List.prefix_rfl
  base := fun _ _ => rfl
  acked := fun _ _ => le_refl _
  pledge := fun w => by
    by_cases same : w = v
    · rw [same, vote_pledge]
      exact later
    · exact le_of_eq (vote_onlyAt.pledge w same).symm
  frozen := fun _ _ _ => rfl

variable [Fintype N]

theorem Consistent.vote (c : A.Consistent term) (later : A.pledge v ≤ T) :
    (A.vote v T).Consistent term := by
  have ext := vote_extends later
  exact {
    formed := fun w => ext.formed (c.formed w)
    recent := fun w e member => (c.recent w e member).trans (ext.pledge w)
    positive := c.positive
    ownedFormed := fun T' led => ext.formed (c.ownedFormed T' led)
    inherited := c.inherited
    added := c.added
    based := c.based
    counted := c.counted
    pledged := fun t w some_ =>
      ⟨(c.pledged t w some_).1, (c.pledged t w some_).2.trans (ext.pledge w)⟩
    kept := fun t k w acked own => ext.kept c acked own List.prefix_rfl
    elected := fun T' led => ext.elected c led
    complete := fun T' t k led older own => ext.complete c led older own }

theorem Consistent.vote_backs (c : A.Consistent term) (later : A.pledge v ≤ T) {L : List E}
    (formed : A.Formed term L)
    (upToDate : lastTerm term (A.log v) < lastTerm term L ∨
      (lastTerm term L = lastTerm term (A.log v) ∧ (A.log v).length ≤ L.length)) :
    (A.vote v T).Backs T L v := by
  refine ⟨?_, fun t k older own acked => ?_⟩
  · rw [vote_pledge]
  · have safe := c.safe_of_upToDate formed upToDate own acked
    exact (vote_extends later).safe own List.prefix_rfl safe

/-! #### Leading -/

structure Wins (A : Replicas N E) (v : N) (T : Int) : Prop where
  unled : ¬ A.led T
  positive : 0 < T
  pledge : A.pledge v = T
  voters : ∃ voters : List N, Majority voters ∧ ∀ w ∈ voters, A.Backs T (A.log v) w

omit [DecidableEq N] in
theorem Wins.apart (wins : A.Wins v T) (led : A.led t) : t ≠ T := by
  rintro rfl
  exact wins.unled led

omit [Fintype N] in
theorem lead_onlyAt : OnlyAt A (A.lead v T) v :=
  ⟨fun _ _ => rfl, fun _ _ => rfl, fun _ _ apart => acknowledge_node apart⟩

theorem lead_extends (c : A.Consistent term) (wins : A.Wins v T) : Extends A (A.lead v T) where
  led := fun _ => .inr
  owned := fun t led => by
    rw [lead_owned_of_ne (wins.apart led)]
  base := fun t led => lead_base_of_ne (wins.apart led)
  acked := fun t w => by
    refine le_acknowledge ?_
    by_contra some_
    exact wins.unled (c.pledged T v (by omega)).1
  pledge := fun _ => le_refl _
  frozen := fun t w before => acknowledge_frozen (le_of_eq wins.pledge) before

theorem Consistent.lead (c : A.Consistent term) (wins : A.Wins v T) :
    (A.lead v T).Consistent term := by
  have ext := lead_extends c wins
  -- the leader has filled no place yet
  have unfilled : ∀ k, ¬ (A.lead v T).Own T k := by
    intro k own
    have above := own.2.1
    have within := own.2.2
    rw [lead_base] at above
    rw [lead_owned] at within
    omega
  have older : ∀ t, t ≠ T → (A.lead v T).led t → A.led t := fun t apart led => led.resolve_left apart
  exact {
    formed := fun w => ext.formed (c.formed w)
    recent := c.recent
    positive := fun t led => led.elim (fun same => same ▸ wins.positive) (c.positive t)
    ownedFormed := fun t led => by
      by_cases same : t = T
      · rw [same, lead_owned]
        exact ext.formed (c.formed v)
      · rw [lead_owned_of_ne same]
        exact ext.formed (c.ownedFormed t (older t same led))
    inherited := fun t k e led there below => by
      by_cases same : t = T
      · rw [same, lead_owned] at there
        have le := c.recent v e (List.mem_of_getElem? there)
        rw [wins.pledge] at le
        have apart : term e ≠ T := fun own => wins.unled (own ▸ (c.formed v k e there).1)
        omega
      · rw [lead_owned_of_ne same] at there
        rw [lead_base_of_ne same] at below
        exact c.inherited t k e (older t same led) there below
    added := fun t k e led there above => by
      by_cases same : t = T
      · rw [same, lead_owned] at there
        rw [same, lead_base] at above
        have inside := (List.getElem?_eq_some_iff.mp there).1
        omega
      · rw [lead_owned_of_ne same] at there
        rw [lead_base_of_ne same] at above
        exact c.added t k e (older t same led) there above
    based := fun t led => by
      by_cases same : t = T
      · rw [same, lead_owned, lead_base]
      · rw [lead_owned_of_ne same, lead_base_of_ne same]
        exact c.based t (older t same led)
    counted := fun t w => by
      by_cases same : t = T
      · rw [same, lead_owned]
        by_cases self : w = v
        · rw [self, show (A.lead v T).acked T v = _ from acknowledge_self]
        · rw [lead_onlyAt.acked T w self]
          by_contra some_
          exact wins.unled (c.pledged T w (by omega)).1
      · rw [lead_owned_of_ne same, show (A.lead v T).acked t w = _ from acknowledge_term same]
        exact c.counted t w
    pledged := fun t w some_ => by
      by_cases same : t = T
      · refine ⟨.inl same, ?_⟩
        by_cases self : w = v
        · rw [same, self]
          exact le_of_eq wins.pledge.symm
        · rw [lead_onlyAt.acked t w self] at some_
          exact (c.pledged t w some_).2
      · rw [show (A.lead v T).acked t w = _ from acknowledge_term same] at some_
        exact ⟨.inr (c.pledged t w some_).1, (c.pledged t w some_).2⟩
    kept := fun t k w acked own => by
      have apart : t ≠ T := fun same => unfilled k (same ▸ own)
      rw [show (A.lead v T).acked t w = _ from acknowledge_term apart] at acked
      exact ext.kept c acked own List.prefix_rfl
    elected := fun t led => by
      by_cases same : t = T
      · obtain ⟨voters, majority, backs⟩ := wins.voters
        exact ⟨voters, majority, fun w member => same ▸ (backs w member).pledge⟩
      · exact ext.elected c (older t same led)
    complete := fun T' t k led before own => by
      by_cases same : T' = T
      · -- a voter has acknowledged the place, or the majority of the election blocks it
        rw [same] at before
        rw [same, lead_owned, lead_base, List.take_length]
        have apart : t ≠ T := by omega
        have own' : A.Own t k := by
          obtain ⟨led', above, within⟩ := own
          rw [lead_base_of_ne apart] at above
          rw [lead_owned_of_ne apart] at within
          exact ⟨older t apart led', above, within⟩
        obtain ⟨voters, majority, backs⟩ := wins.voters
        by_cases some_ : ∃ w ∈ voters, k < A.acked t w
        · obtain ⟨w, member, acked⟩ := some_
          exact ext.safe own' List.prefix_rfl ((backs w member).safe t k before own' acked)
        · refine .inr (ext.blocked ⟨voters, majority, fun w member => ?_⟩)
          refine ⟨lt_of_lt_of_le before (backs w member).pledge, ?_⟩
          by_contra acked
          exact some_ ⟨w, member, by omega⟩
      · exact ext.complete c (older T' same led) before own }

/-! #### Adding an entry -/

/-- Node `v` leads term `T` and is pledged to no later one. -/
structure Leads (A : Replicas N E) (v : N) (T : Int) : Prop where
  led : A.led T
  pledge : A.pledge v = T
  log : A.log v = A.owned T

omit [Fintype N] in
theorem append_onlyAt : OnlyAt A (A.append v T e) v :=
  ⟨fun _ apart => Function.update_of_ne apart _ _, fun _ _ => rfl,
    fun _ _ apart => acknowledge_node apart⟩

theorem append_extends (c : A.Consistent term) (leads : A.Leads v T) :
    Extends A (A.append v T e) where
  led := fun _ => id
  owned := fun t _ => by
    by_cases same : t = T
    · rw [same, append_owned]
      exact List.prefix_append _ _
    · rw [append_owned_of_ne same]
  base := fun _ _ => rfl
  acked := fun t w => le_acknowledge (by have le := c.counted T v; omega)
  pledge := fun _ => le_refl _
  frozen := fun t w before => acknowledge_frozen (le_of_eq leads.pledge) before

theorem Consistent.append (c : A.Consistent term) (leads : A.Leads v T) (own : term e = T) :
    (A.append v T e).Consistent term := by
  have ext := append_extends (e := e) c leads
  have log : (A.append v T e).log v = A.owned T ++ [e] := by
    rw [append_log, leads.log]
  have self : (A.append v T e).acked T v = (A.owned T).length + 1 := acknowledge_self
  -- an entry of the longer log is an old one or the new one
  have split_ : ∀ k d, (A.owned T ++ [e])[k]? = some d →
      (A.owned T)[k]? = some d ∨ (k = (A.owned T).length ∧ d = e) := by
    intro k d there
    by_cases old : k < (A.owned T).length
    · rw [List.getElem?_append_left old] at there
      exact .inl there
    · rw [List.getElem?_append_right (by omega)] at there
      have inside := (List.getElem?_eq_some_iff.mp there).1
      have last : k = (A.owned T).length := by
        rw [List.length_singleton] at inside
        omega
      rw [last, Nat.sub_self] at there
      exact .inr ⟨last, (Option.some.inj there).symm⟩
  have formed : (A.append v T e).Formed term (A.owned T ++ [e]) := by
    intro k d there
    cases split_ k d there with
    | inl old =>
      obtain ⟨led, start⟩ := ext.formed (c.ownedFormed T leads.led) k d old
      have inside := (List.getElem?_eq_some_iff.mp old).1
      rw [List.take_append_of_le_length (by omega)]
      exact ⟨led, start⟩
    | inr new =>
      rw [new.2, own, append_owned]
      exact ⟨leads.led, List.take_prefix _ _⟩
  exact {
    formed := fun w => by
      by_cases same : w = v
      · rw [same, log]
        exact formed
      · rw [append_onlyAt.log w same]
        exact ext.formed (c.formed w)
    recent := fun w d member => by
      by_cases same : w = v
      · rw [same, log] at member
        rw [same, show (A.append v T e).pledge v = T from leads.pledge]
        cases List.mem_append.mp member with
        | inl old => exact c.owned_term_le leads.led old
        | inr new =>
          rw [List.mem_singleton.mp new]
          exact le_of_eq own
      · rw [append_onlyAt.log w same] at member
        exact c.recent w d member
    positive := c.positive
    ownedFormed := fun t led => by
      by_cases same : t = T
      · rw [same, append_owned]
        exact formed
      · rw [append_owned_of_ne same]
        exact ext.formed (c.ownedFormed t led)
    inherited := fun t k d led there below => by
      by_cases same : t = T
      · rw [same, append_owned] at there
        rw [same] at below ⊢
        have based := c.based T leads.led
        have below' : k < A.base T := below
        cases split_ k d there with
        | inl old => exact c.inherited T k d leads.led old below
        | inr new => omega
      · rw [append_owned_of_ne same] at there
        exact c.inherited t k d led there below
    added := fun t k d led there above => by
      by_cases same : t = T
      · rw [same, append_owned] at there
        rw [same] at above ⊢
        cases split_ k d there with
        | inl old => exact c.added T k d leads.led old above
        | inr new =>
          rw [new.2]
          exact own
      · rw [append_owned_of_ne same] at there
        exact c.added t k d led there above
    based := fun t led => (c.based t led).trans (ext.owned t led).length_le
    counted := fun t w => by
      by_cases mine : t = T ∧ w = v
      · rw [mine.1, mine.2, self, append_owned, List.length_append, List.length_singleton]
      · rw [show (A.append v T e).acked t w = _ from if_neg mine]
        by_cases same : t = T
        · rw [same, append_owned, List.length_append]
          exact (c.counted T w).trans (Nat.le_add_right _ _)
        · rw [append_owned_of_ne same]
          exact c.counted t w
    pledged := fun t w some_ => by
      by_cases mine : t = T ∧ w = v
      · rw [mine.1, mine.2]
        exact ⟨leads.led, le_of_eq leads.pledge.symm⟩
      · rw [show (A.append v T e).acked t w = _ from if_neg mine] at some_
        exact c.pledged t w some_
    kept := fun t k w acked filled => by
      by_cases mine : t = T ∧ w = v
      · rw [mine.1, mine.2, log]
        refine .inl ?_
        rw [append_owned]
        exact List.take_prefix _ _
      · rw [show (A.append v T e).acked t w = _ from if_neg mine] at acked
        refine ext.kept c acked filled ?_
        by_cases same : w = v
        · rw [same, log, leads.log]
          exact List.prefix_append _ _
        · rw [append_onlyAt.log w same]
    elected := fun t led => ext.elected c led
    complete := fun T' t k led older filled => ext.complete c led older filled }

/-! #### Taking over entries -/

/-- The follower has all that its leader inherited, and gives up no entry of its term. -/
structure Accepts (term : E → Int) (A : Replicas N E) (v : N) (T : Int) (m : Nat) : Prop where
  led : A.led T
  pledge : A.pledge v ≤ T
  long : A.base T ≤ m
  within : m ≤ (A.owned T).length
  uncut : lastTerm term (A.log v) = T → (A.log v).length ≤ m

omit [Fintype N] in
theorem accept_onlyAt : OnlyAt A (A.accept v T m) v :=
  ⟨fun _ apart => Function.update_of_ne apart _ _, fun _ apart => Function.update_of_ne apart _ _,
    fun _ _ apart => acknowledge_node apart⟩

omit [Fintype N] in
theorem accept_extends (accepts : A.Accepts term v T m) : Extends A (A.accept v T m) where
  led := fun _ => id
  owned := fun _ _ => List.prefix_rfl
  base := fun _ _ => rfl
  acked := fun t w => le_acknowledge (le_max_left _ _)
  pledge := fun w => by
    by_cases same : w = v
    · rw [same, accept_pledge]
      exact accepts.pledge
    · exact le_of_eq (accept_onlyAt.pledge w same).symm
  frozen := fun t w before => acknowledge_frozen accepts.pledge before

theorem Consistent.accept (c : A.Consistent term) (accepts : A.Accepts term v T m) :
    (A.accept v T m).Consistent term := by
  have ext := accept_extends accepts
  have self : (A.accept v T m).acked T v = max (A.acked T v) m := acknowledge_self
  exact {
    formed := fun w => by
      by_cases same : w = v
      · rw [same, accept_log]
        exact ext.formed ((c.ownedFormed T accepts.led).take m)
      · rw [accept_onlyAt.log w same]
        exact ext.formed (c.formed w)
    recent := fun w e member => by
      by_cases same : w = v
      · rw [same, accept_log] at member
        rw [same, accept_pledge]
        exact c.owned_term_le accepts.led (List.mem_of_mem_take member)
      · rw [accept_onlyAt.log w same] at member
        rw [accept_onlyAt.pledge w same]
        exact c.recent w e member
    positive := c.positive
    ownedFormed := fun t led => ext.formed (c.ownedFormed t led)
    inherited := c.inherited
    added := c.added
    based := c.based
    counted := fun t w => by
      by_cases mine : t = T ∧ w = v
      · rw [mine.1, mine.2, self]
        exact max_le (c.counted T v) accepts.within
      · rw [show (A.accept v T m).acked t w = _ from if_neg mine]
        exact c.counted t w
    pledged := fun t w some_ => by
      by_cases mine : t = T ∧ w = v
      · rw [mine.1, mine.2, accept_pledge]
        exact ⟨accepts.led, le_refl T⟩
      · rw [show (A.accept v T m).acked t w = _ from if_neg mine] at some_
        obtain ⟨led, le⟩ := c.pledged t w some_
        exact ⟨led, le.trans (ext.pledge w)⟩
    kept := fun t k w acked own => by
      by_cases same : w = v
      · rw [same] at acked ⊢
        rw [accept_log]
        by_cases current : t = T
        · rw [current] at acked own ⊢
          rw [self] at acked
          by_cases taken : k < m
          · refine .inl (List.take_prefix_take_left ?_)
            omega
          · -- what the follower had acknowledged beyond `m` would have been cut
            cases c.kept T k v (by omega) own with
            | inr blocked => exact .inr (ext.blocked blocked)
            | inl start =>
              obtain ⟨e, there, termE⟩ := c.own_entry own start
              have member := List.mem_of_getElem? there
              have least := c.term_le_lastTerm (c.formed v) member
              obtain ⟨led, start'⟩ := (c.formed v).last (List.ne_nil_of_mem member)
              obtain ⟨d, last, termD⟩ := lastTerm_eq term (List.ne_nil_of_mem member)
              have most := c.recent v d (List.mem_of_getElem? last)
              have pledged := accepts.pledge
              have long := accepts.uncut (by omega)
              have inside := (List.getElem?_eq_some_iff.mp there).1
              omega
        · rw [show (A.accept v T m).acked t v = _ from acknowledge_term current] at acked
          obtain ⟨-, le⟩ := c.pledged t v (by omega)
          have pledged := accepts.pledge
          have safe := c.complete T t k accepts.led (by omega) own
          exact ext.safe own (List.take_prefix_take_left accepts.long) safe
      · rw [accept_onlyAt.acked t w same] at acked
        refine ext.kept c acked own ?_
        rw [accept_onlyAt.log w same]
    elected := fun t led => ext.elected c led
    complete := fun T' t k led older own => ext.complete c led older own }

end

end Replicas

end ProjectsCpp.Replication
