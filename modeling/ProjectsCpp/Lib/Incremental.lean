import ProjectsCpp.Lib.Run
import Mathlib.Data.List.Infix
import Mathlib.Tactic.Common

/-! A reader that works in rounds on its buffer until the buffer is empty or it waits for more.
`CutFree` states what one round must do for the result not to depend on how the stream is cut
into calls. -/

namespace ProjectsCpp.Incremental
open ProjectsCpp.Run

inductive Outcome (σ α : Type) where
  | goOn (s : σ) (left : List α)
  | wait (s : σ)

variable {σ α : Type}

def drain (round : σ → List α → Option (Outcome σ α)) : Nat → σ → List α → Option (σ × List α)
  | _, s, [] => some (s, [])
  | 0, _, _ :: _ => none
  | n + 1, s, a :: as => (round s (a :: as)).bind fun
    | .goOn t left => drain round n t left
    | .wait t => some (t, a :: as)

def feed (round : σ → List α → Option (Outcome σ α)) (s : σ) (buf : List α) : Option (σ × List α) :=
  drain round buf.length s buf

/-- Whether `ok` holds before every round of `drain`. -/
def allRounds (round : σ → List α → Option (Outcome σ α)) (ok : σ → List α → Bool) :
    Nat → σ → List α → Bool
  | _, _, [] => true
  | 0, _, _ :: _ => true
  | n + 1, s, a :: as => ok s (a :: as) && match round s (a :: as) with
    | some (.goOn t left) => allRounds round ok n t left
    | _ => true

def reader (round : σ → List α → Option (Outcome σ α)) (start : σ → Prop) :
    Machine (σ × List α) (List α) where
  start c := start c.1 ∧ c.2 = []
  step c chunk := feed round c.1 (c.2 ++ chunk)

/-- Every round of the call is `ok`. -/
def CallOk (round : σ → List α → Option (Outcome σ α)) (ok : σ → List α → Bool)
    (c : σ × List α) (chunk : List α) : Prop :=
  allRounds round ok (c.2 ++ chunk).length c.1 (c.2 ++ chunk) = true

instance {round : σ → List α → Option (Outcome σ α)} {ok : σ → List α → Bool} (c : σ × List α)
    (chunk : List α) : Decidable (CallOk round ok c chunk) := inferInstanceAs (Decidable (_ = true))

/-- With more in the buffer a round does the same, unless it has emptied the buffer and the next
round would have taken what came. A calm wait leaves the state as it is. -/
structure CutFree (round : σ → List α → Option (Outcome σ α)) (Inv : σ → Prop)
    (calm : σ → List α → Prop) : Prop where
  goes : ∀ {s t buf left}, Inv s → buf ≠ [] → round s buf = some (.goOn t left) →
    Inv t ∧ left.length < buf.length
  waits : ∀ {s t buf}, Inv s → buf ≠ [] → round s buf = some (.wait t) →
    Inv t ∧ (calm t buf → t = s)
  fails : ∀ {s buf} more, Inv s → buf ≠ [] → round s buf = none → round s (buf ++ more) = none
  grows : ∀ {s t buf left} more, Inv s → buf ≠ [] → more ≠ [] →
    round s buf = some (.goOn t left) →
    round s (buf ++ more) = some (.goOn t (left ++ more)) ∨
      left = [] ∧ round s (buf ++ more) = round t more ∧ ∀ u, round t more ≠ some (.wait u)

variable {round : σ → List α → Option (Outcome σ α)} {Inv : σ → Prop} {calm : σ → List α → Prop}
  {s t : σ} {buf left more : List α}

theorem drain_enough (inc : CutFree round Inv calm) {n : Nat} (inv : Inv s)
    (enough : buf.length ≤ n) : drain round n s buf = feed round s buf := by
  induction n using Nat.strongRecOn generalizing s buf with
  | ind n ih =>
    cases buf with
    | nil => rw [feed, drain, drain]
    | cons a as =>
      obtain ⟨m, rfl⟩ := Nat.exists_eq_succ_of_ne_zero (Nat.ne_of_gt (Nat.lt_of_lt_of_le
        (Nat.succ_pos _) enough))
      rw [feed, List.length_cons, drain, drain]
      cases rounded : round s (a :: as) with
      | none => rfl
      | some outcome =>
        cases outcome with
        | wait t => rfl
        | goOn t left =>
          obtain ⟨inv', less⟩ := inc.goes inv (List.cons_ne_nil a as) rounded
          have small : left.length ≤ as.length := Nat.le_of_lt_succ less
          have enough' : as.length ≤ m := Nat.le_of_succ_le_succ enough
          refine (ih m (Nat.lt_succ_self m) inv' (small.trans enough')).trans ?_
          rcases Nat.eq_or_lt_of_le enough' with rfl | shorter
          · exact (ih _ (Nat.lt_succ_self _) inv' small).symm
          · exact (ih _ (shorter.trans (Nat.lt_succ_self m)) inv' small).symm

theorem feed_nil (round : σ → List α → Option (Outcome σ α)) (s : σ) :
    feed round s [] = some (s, []) := rfl

theorem feed_goOn (inc : CutFree round Inv calm) (inv : Inv s) (some_ : buf ≠ [])
    (rounded : round s buf = some (.goOn t left)) : feed round s buf = feed round t left := by
  obtain ⟨a, as, rfl⟩ := List.exists_cons_of_ne_nil some_
  obtain ⟨inv', less⟩ := inc.goes inv some_ rounded
  rw [feed, List.length_cons, drain, rounded]
  exact drain_enough inc inv' (Nat.le_of_lt_succ less)

theorem feed_wait (some_ : buf ≠ []) (rounded : round s buf = some (.wait t)) :
    feed round s buf = some (t, buf) := by
  obtain ⟨a, as, rfl⟩ := List.exists_cons_of_ne_nil some_
  rw [feed, List.length_cons, drain, rounded]
  rfl

theorem feed_none (some_ : buf ≠ []) (rounded : round s buf = none) :
    feed round s buf = none := by
  obtain ⟨a, as, rfl⟩ := List.exists_cons_of_ne_nil some_
  rw [feed, List.length_cons, drain, rounded]
  rfl

theorem feed_congr (inc : CutFree round Inv calm) (inv : Inv s) (inv' : Inv t)
    (some_ : buf ≠ []) (some' : more ≠ []) (same : round s buf = round t more)
    (goes : ∀ u, round t more ≠ some (.wait u)) : feed round s buf = feed round t more := by
  cases rounded : round t more with
  | none => rw [feed_none some_ (same.trans rounded), feed_none some' rounded]
  | some outcome =>
    cases outcome with
    | wait u => exact absurd rounded (goes u)
    | goOn u left =>
      rw [feed_goOn inc inv some_ (same.trans rounded), feed_goOn inc inv' some' rounded]

theorem feed_inv (inc : CutFree round Inv calm) (inv : Inv s)
    (fed : feed round s buf = some (t, left)) : Inv t := by
  induction size : buf.length using Nat.strongRecOn generalizing s buf with
  | ind n ih =>
    by_cases some_ : buf = []
    · subst some_
      cases fed
      exact inv
    cases rounded : round s buf with
    | none => cases (feed_none some_ rounded).symm.trans fed
    | some outcome =>
      cases outcome with
      | wait u =>
        cases (feed_wait some_ rounded).symm.trans fed
        exact (inc.waits inv some_ rounded).1
      | goOn u rest =>
        obtain ⟨inv', less⟩ := inc.goes inv some_ rounded
        exact ih _ (size ▸ less) inv' ((feed_goOn inc inv some_ rounded).symm.trans fed) rfl

theorem feed_length (inc : CutFree round Inv calm) (inv : Inv s)
    (fed : feed round s buf = some (t, left)) : left.length ≤ buf.length := by
  induction size : buf.length using Nat.strongRecOn generalizing s buf with
  | ind n ih =>
    by_cases some_ : buf = []
    · subst some_
      cases fed
      exact Nat.zero_le _
    cases rounded : round s buf with
    | none => cases (feed_none some_ rounded).symm.trans fed
    | some outcome =>
      cases outcome with
      | wait u =>
        cases (feed_wait some_ rounded).symm.trans fed
        exact Nat.le_of_eq size
      | goOn u rest =>
        obtain ⟨inv', less⟩ := inc.goes inv some_ rounded
        have le := ih _ (size ▸ less) inv' ((feed_goOn inc inv some_ rounded).symm.trans fed) rfl
        exact le.trans (Nat.le_of_lt (size ▸ less))

theorem feed_append (inc : CutFree round Inv calm) (inv : Inv s) (more : List α)
    (calms : ∀ t left, feed round s buf = some (t, left) → calm t left) :
    feed round s (buf ++ more) = (feed round s buf).bind fun c => feed round c.1 (c.2 ++ more) := by
  induction size : buf.length using Nat.strongRecOn generalizing s buf with
  | ind n ih =>
    by_cases some_ : buf = []
    · subst some_
      rfl
    have long : buf ++ more ≠ [] := List.append_ne_nil_of_left_ne_nil some_ more
    cases rounded : round s buf with
    | none => rw [feed_none some_ rounded, feed_none long (inc.fails more inv some_ rounded)]; rfl
    | some outcome =>
      cases outcome with
      | wait u =>
        have fed := feed_wait some_ rounded
        obtain rfl := (inc.waits inv some_ rounded).2 (calms _ _ fed)
        rw [fed]
        rfl
      | goOn t left =>
        obtain ⟨inv', less⟩ := inc.goes inv some_ rounded
        have fed := feed_goOn inc inv some_ rounded
        have stays : round s (buf ++ more) = some (.goOn t (left ++ more)) →
            feed round s (buf ++ more) =
              (feed round s buf).bind fun c => feed round c.1 (c.2 ++ more) := by
          intro goes
          rw [feed_goOn inc inv long goes, fed]
          exact ih _ (size ▸ less) inv' (fed ▸ calms) rfl
        by_cases nothing : more = []
        · exact stays (by rw [nothing, List.append_nil, List.append_nil, rounded])
        rcases inc.grows more inv some_ nothing rounded with goes | ⟨rfl, same, goes⟩
        · exact stays goes
        · rw [feed_congr inc inv inv' long nothing same goes, fed]
          rfl

theorem feed_idle (inc : CutFree round Inv calm) (inv : Inv s)
    (fed : feed round s buf = some (t, left)) (calms : calm t left) :
    feed round t left = some (t, left) := by
  have again := feed_append inc inv [] fun t' left' fed' => by
    cases fed.symm.trans fed'
    exact calms
  rw [List.append_nil, fed, Option.bind_some, List.append_nil] at again
  exact again.symm

variable {start : σ → Prop} {calls : List (List α)}

theorem exec_length (inc : CutFree round Inv calm) (inv : Inv s) {c : σ × List α}
    (ran : exec (reader round start) (s, left) calls = some c) :
    c.2.length ≤ left.length + calls.flatten.length := by
  induction calls generalizing s left with
  | nil =>
    cases ran
    exact Nat.le_add_right _ _
  | cons chunk calls ih =>
    obtain ⟨⟨t, rest⟩, fed, ran⟩ := Option.bind_eq_some_iff.mp ran
    have le : rest.length ≤ (left ++ chunk).length := feed_length inc inv fed
    have le' := ih (feed_inv inc inv fed) ran
    rw [List.length_append] at le
    rw [List.flatten_cons, List.length_append]
    omega

theorem exec_calls (inc : CutFree round Inv calm) (inv : Inv s)
    (idle : feed round s left = some (s, left))
    (calms : ∀ first c, first <+: calls → exec (reader round start) (s, left) first = some c →
      calm c.1 c.2) :
    exec (reader round start) (s, left) calls = feed round s (left ++ calls.flatten) := by
  induction calls generalizing s left with
  | nil => exact idle.symm.trans (by rw [List.flatten_nil, List.append_nil])
  | cons chunk calls ih =>
    have first : ∀ c, feed round s (left ++ chunk) = some c → calm c.1 c.2 := fun c fed =>
      calms [chunk] c (List.prefix_append [chunk] calls) (congrArg (Option.bind · some) fed)
    have whole := feed_append inc inv calls.flatten fun t rest fed => first (t, rest) fed
    rw [List.flatten_cons, ← List.append_assoc, whole]
    change (feed round s (left ++ chunk)).bind _ = _
    cases fed : feed round s (left ++ chunk) with
    | none => rfl
    | some c =>
      refine ih (feed_inv inc inv fed) (feed_idle inc inv fed (first c fed)) ?_
      intro later d before ran
      exact calms (chunk :: later) d ((List.prefix_cons_inj chunk).mpr before)
        ((congrArg (Option.bind · _) fed).trans ran)

theorem exec_cuts (inc : CutFree round Inv calm) (inv : Inv s) {calls' : List (List α)}
    (same : calls'.flatten = calls.flatten)
    (calms : ∀ first c, first <+: calls → exec (reader round start) (s, []) first = some c →
      calm c.1 c.2)
    (calms' : ∀ first c, first <+: calls' → exec (reader round start) (s, []) first = some c →
      calm c.1 c.2) :
    exec (reader round start) (s, []) calls' = exec (reader round start) (s, []) calls := by
  rw [exec_calls inc inv (feed_nil round s) calms, exec_calls inc inv (feed_nil round s) calms',
    same]

/-! ### Calls that return -/

variable {ok : σ → List α → Bool}

theorem feed_isSome (inc : CutFree round Inv calm)
    (rounds : ∀ {s buf}, Inv s → buf ≠ [] → ((round s buf).isSome ↔ ok s buf = true)) (inv : Inv s) :
    (feed round s buf).isSome ↔ allRounds round ok buf.length s buf = true := by
  suffices small : ∀ n s buf, Inv s → buf.length ≤ n →
      ((drain round n s buf).isSome ↔ allRounds round ok n s buf = true) from
    small buf.length s buf inv (Nat.le_refl _)
  intro n
  induction n with
  | zero =>
    intro s buf inv none
    cases List.length_eq_zero_iff.mp (Nat.le_zero.mp none)
    rw [drain, allRounds]
    exact iff_of_true rfl rfl
  | succ n ih =>
    intro s buf inv le
    cases buf with
    | nil =>
      rw [drain, allRounds]
      exact iff_of_true rfl rfl
    | cons a as =>
      have round' := rounds inv (List.cons_ne_nil a as)
      rw [drain, allRounds, Bool.and_eq_true, ← round']
      cases rounded : round s (a :: as) with
      | none => exact iff_of_false Bool.false_ne_true fun both => Bool.false_ne_true both.1
      | some outcome =>
        cases outcome with
        | wait t => exact iff_of_true rfl ⟨rfl, rfl⟩
        | goOn t left =>
          obtain ⟨inv', less⟩ := inc.goes inv (List.cons_ne_nil a as) rounded
          have rest := ih t left inv' (Nat.le_of_lt_succ (Nat.lt_of_lt_of_le less le))
          rw [Option.bind_some]
          exact rest.trans (and_iff_right rfl).symm

theorem exec_isSome (inc : CutFree round Inv calm)
    (rounds : ∀ {s buf}, Inv s → buf ≠ [] → ((round s buf).isSome ↔ ok s buf = true)) (inv : Inv s) :
    (exec (reader round start) (s, left) calls).isSome ↔
      ∀ first chunk c, first ++ [chunk] <+: calls →
        exec (reader round start) (s, left) first = some c → CallOk round ok c chunk := by
  induction calls generalizing s left with
  | nil =>
    refine iff_of_true rfl fun first chunk c part => ?_
    exact absurd (List.prefix_nil.mp part)
      (List.append_ne_nil_of_right_ne_nil _ (List.cons_ne_nil chunk []))
  | cons call calls ih =>
    have returns : (feed round s (left ++ call)).isSome ↔ CallOk round ok (s, left) call :=
      feed_isSome inc rounds inv
    have run : ∀ later, exec (reader round start) (s, left) (call :: later) =
        (feed round s (left ++ call)).bind fun c => exec (reader round start) c later := fun _ => rfl
    rw [run]
    cases fed : feed round s (left ++ call) with
    | none =>
      refine iff_of_false Bool.false_ne_true fun sound => ?_
      have first := returns.mpr (sound [] call (s, left) (List.prefix_append [call] calls) rfl)
      rw [fed] at first
      cases first
    | some c =>
      rw [Option.bind_some, ih (feed_inv inc inv fed)]
      constructor
      · intro sound first chunk d part ran
        cases first with
        | nil =>
          obtain ⟨rfl, -⟩ := List.cons_prefix_cons.mp part
          cases ran
          exact returns.mp (Option.isSome_of_eq_some fed)
        | cons call' first =>
          obtain ⟨rfl, behind⟩ := List.cons_prefix_cons.mp part
          rw [run, fed] at ran
          exact sound first chunk d behind ran
      · intro sound first chunk d part ran
        refine sound (call :: first) chunk d ((List.prefix_cons_inj call).mpr part) ?_
        rw [run, fed]
        exact ran

end ProjectsCpp.Incremental
