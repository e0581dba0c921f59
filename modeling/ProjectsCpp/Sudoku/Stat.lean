import ProjectsCpp.Lib.CircularBuffer
import ProjectsCpp.Lib.TwosComplement
import Mathlib.Data.Int.Order.Basic
import Mathlib.Order.Basic
import Mathlib.Data.List.Induction
import Mathlib.Tactic.SplitIfs
import Mathlib.Algebra.Ring.Int.Defs

/-! The statistics of the Sudoku server (`sudoku/stat.h`): responses by the second, over the last
minute. A failed assertion and an item that is not there give `none`. -/

namespace ProjectsCpp.Sudoku
open ProjectsCpp.Windows ProjectsCpp.Windows.CircularBuffer
open ProjectsCpp.Windows.LawfulCircularBuffer ProjectsCpp.TwosComplement

def kSeconds : Nat := 60

structure SudokuStat (B : Type) where
  lastSecond : Int
  requests : B
  latencies : B
  totalRequests : Int
  totalResponses : Int
  totalSolved : Int
  badRequests : Int
  droppedRequests : Int
  totalLatency : Int
  badLatency : Int

namespace SudokuStat
variable {B : Type} [CircularBuffer Int B]

def new : SudokuStat B :=
  { lastSecond := 0, requests := make kSeconds, latencies := make kSeconds, totalRequests := 0
    totalResponses := 0, totalSolved := 0, badRequests := 0, droppedRequests := 0, totalLatency := 0
    badLatency := 0 }

def reset (s : SudokuStat B) : SudokuStat B :=
  { s with
    lastSecond := 0
    requests := clear s.requests
    latencies := clear s.latencies
    totalRequests := 0
    totalResponses := 0
    totalSolved := 0
    badRequests := 0
    totalLatency := 0
    badLatency := 0 }

/-- A slot of no responses at the back, for the second that becomes the last. -/
def pushSlot (s : SudokuStat B) (second : Int) : SudokuStat B :=
  { s with
    lastSecond := second
    requests := pushBack s.requests 0
    latencies := pushBack s.latencies 0 }

/-- The turns of `while (lastSecond_ < second)`. -/
def pushSlots (s : SudokuStat B) : Nat → SudokuStat B
  | 0 => s
  | turns + 1 => (s.pushSlot (s.lastSecond + 1)).pushSlots turns

def clearSlots (s : SudokuStat B) : SudokuStat B := { s with
  requests := clear s.requests
  latencies := clear s.latencies }

/-- `++requests_.back()` and `latencies_.back() += elapsed_us`. -/
def recordBack (s : SudokuStat B) (elapsed_us : Int) : Option (SudokuStat B) := do
  let requests ← modifyBack s.requests fun n => int64 (n + 1)
  let latencies ← modifyBack s.latencies fun n => int64 (n + elapsed_us)
  pure { s with requests := requests, latencies := latencies }

def recordAt (s : SudokuStat B) (idx : Nat) (elapsed_us : Int) : Option (SudokuStat B) := do
  guard (idx < size s.requests)
  let requests ← modifyAt s.requests idx fun n => int64 (n + 1)
  let latencies ← modifyAt s.latencies idx fun n => int64 (n + elapsed_us)
  pure { s with requests := requests, latencies := latencies }

def firstSecond (s : SudokuStat B) : Int := s.lastSecond - size s.requests + 1

def recordSecond (s : SudokuStat B) (second elapsed_us : Int) : Option (SudokuStat B) :=
  if s.lastSecond = second then s.recordBack elapsed_us
  else if s.lastSecond + 1 = second ∨ s.lastSecond = 0 then (s.pushSlot second).recordBack elapsed_us
  else if second > s.lastSecond then
    if second < s.lastSecond + kSeconds then
      (s.pushSlots (second - s.lastSecond).toNat).recordBack elapsed_us
    else (s.clearSlots.pushSlot second).recordBack elapsed_us
  else if second ≥ s.firstSecond then s.recordAt (second - s.firstSecond).toNat elapsed_us
  else some s

def assertSizes (s : SudokuStat B) : Option (SudokuStat B) :=
  if size s.requests = size s.latencies then some s else none

def recordResponse (s : SudokuStat B) (now receive : Int) (solved : Bool) : Option (SudokuStat B) := do
  let second := now.tdiv 1000000
  let elapsed_us := int64 (now - receive)
  let s ← s.assertSizes
  let s := { s with totalResponses := int64 (s.totalResponses + 1) }
  let s := if solved then { s with totalSolved := int64 (s.totalSolved + 1) } else s
  if elapsed_us < 0 then pure { s with badLatency := int64 (s.badLatency + 1) }
  else
    let s ← { s with totalLatency := int64 (s.totalLatency + elapsed_us) }.recordSecond second
      elapsed_us
    s.assertSizes

def recordRequest (s : SudokuStat B) : SudokuStat B :=
  { s with totalRequests := int64 (s.totalRequests + 1) }

def recordBadRequest (s : SudokuStat B) : SudokuStat B :=
  { s with badRequests := int64 (s.badRequests + 1) }

def recordDroppedRequest (s : SudokuStat B) : SudokuStat B :=
  { s with droppedRequests := int64 (s.droppedRequests + 1) }

end SudokuStat

inductive Call where
  | recordResponse (now receive : Int) (solved : Bool)
  | reset
  | recordRequest
  | recordBadRequest
  | recordDroppedRequest

namespace SudokuStat
variable {B : Type} [CircularBuffer Int B]

def call (s : SudokuStat B) : Call → Option (SudokuStat B)
  | .recordResponse now receive solved => s.recordResponse now receive solved
  | .reset => some s.reset
  | .recordRequest => some s.recordRequest
  | .recordBadRequest => some s.recordBadRequest
  | .recordDroppedRequest => some s.recordDroppedRequest

variable (B) in
/-- What the calls leave of a new object, whose buffers are of the type `B`. -/
def run (calls : List Call) : Option (SudokuStat B) := calls.foldlM call new

/-! ### Slots by their seconds -/

variable {s t : SudokuStat B} {second elapsed_us x : Int} {k idx : Nat} {p : Int × Int}

/-- The number of responses and the latency sum, by the seconds before the last. -/
def fromBack (s : SudokuStat B) (k : Nat) : Option (Int × Int) :=
  (CircularBuffer.fromBack s.requests k).bind fun count =>
    (CircularBuffer.fromBack s.latencies k).map (count, ·)

def slot (s : SudokuStat B) (second : Int) : Option (Int × Int) :=
  if second ≤ s.lastSecond then s.fromBack (s.lastSecond - second).toNat else none

def credit (elapsed_us : Int) (p : Int × Int) : Int × Int := (int64 (p.1 + 1), int64 (p.2 + elapsed_us))

theorem slot_after (after : s.lastSecond < second) : s.slot second = none :=
  if_neg (Int.not_le.mpr after)

theorem slot_before (before : second < s.firstSecond) : s.slot second = none := by
  unfold firstSecond at before
  have outside : size s.requests ≤ (s.lastSecond - second).toNat := by omega
  rw [slot, fromBack, fromBack_none outside]
  exact ite_self _

/-- The capacities that the buffers were made with. -/
structure Minute (s : SudokuStat B) : Prop where
  requests : capacity s.requests = kSeconds
  latencies : capacity s.latencies = kSeconds

/-- The invariant that the source states: the last slot is that of the last second, once there is
one, so that the first is that of `firstSecond`. -/
structure Invariant (s : SudokuStat B) : Prop where
  minute : s.Minute
  sizes : size s.requests = size s.latencies
  last : 0 ≤ s.lastSecond
  back : s.lastSecond = 0 ↔ size s.requests = 0

theorem Invariant.slot_some (invariant : s.Invariant) (first : s.firstSecond ≤ x)
    (last : x ≤ s.lastSecond) : ∃ p, s.slot x = some p := by
  have sizes := invariant.sizes
  unfold firstSecond at first
  obtain ⟨count, counts⟩ := fromBack_some s.requests (k := (s.lastSecond - x).toNat) (by omega)
  obtain ⟨latency, sums⟩ := fromBack_some s.latencies (k := (s.lastSecond - x).toNat) (by omega)
  rw [slot, if_pos last, fromBack, counts, sums]
  exact ⟨_, rfl⟩

/-- The slots up to the last second are old ones, the others are empty. -/
structure Keeps (s t : SudokuStat B) : Prop where
  last : s.lastSecond ≤ t.lastSecond
  old : ∀ x p, t.slot x = some p → x ≤ s.lastSecond → s.slot x = some p
  new : ∀ x p, t.slot x = some p → s.lastSecond < x → p = (0, 0)

theorem Keeps.refl (s : SudokuStat B) : Keeps s s :=
  ⟨le_rfl, fun _ _ there _ => there, fun x p there after => by
    rw [slot_after after] at there
    cases there⟩

theorem Keeps.trans {u : SudokuStat B} (first : Keeps s t) (second : Keeps t u) : Keeps s u where
  last := first.last.trans second.last
  old x p there before := first.old x p (second.old x p there (before.trans first.last)) before
  new x p there after := by
    rcases le_or_gt x t.lastSecond with old | new
    · exact first.new x p (second.old x p there old) after
    · exact second.new x p there new

theorem Keeps.getD (keeps : Keeps s t) (there : t.slot x = some p) : p = (s.slot x).getD (0, 0) := by
  rcases le_or_gt x s.lastSecond with old | new
  · rw [keeps.old x p there old]
    rfl
  · rw [slot_after new]
    exact keeps.new x p there new

theorem fromBack_empty (empty : size s.requests = 0) (k : Nat) : s.fromBack k = none := by
  rw [fromBack, fromBack_none (empty ▸ Nat.zero_le k)]
  rfl

variable [LawfulCircularBuffer Int B]

theorem Minute.pushSlot (minute : s.Minute) (second : Int) : (s.pushSlot second).Minute where
  requests := (capacity_pushBack _ _).trans minute.requests
  latencies := (capacity_pushBack _ _).trans minute.latencies

theorem Minute.clearSlots (minute : s.Minute) : s.clearSlots.Minute where
  requests := (capacity_clear _).trans minute.requests
  latencies := (capacity_clear _).trans minute.latencies

theorem fromBack_pushSlot_zero (minute : s.Minute) : (s.pushSlot second).fromBack 0 = some (0, 0) := by
  have sixty : 0 < kSeconds := by decide
  rw [fromBack, SudokuStat.pushSlot]
  dsimp only
  rw [fromBack_pushBack_zero 0 (minute.requests ▸ sixty),
    fromBack_pushBack_zero 0 (minute.latencies ▸ sixty)]
  rfl

theorem fromBack_pushSlot_succ (kept : (s.pushSlot second).fromBack (k + 1) = some p) :
    s.fromBack k = some p := by
  rw [fromBack, pushSlot] at kept
  dsimp only at kept
  rw [fromBack_pushBack_succ, fromBack_pushBack_succ] at kept
  split_ifs at kept
  · exact kept
  · obtain ⟨count, -, there⟩ := Option.bind_eq_some_iff.mp kept
    cases there
  · cases kept
  · cases kept

theorem pushSlot_keeps (minute : s.Minute) (next : s.lastSecond + 1 = second) :
    Keeps s (s.pushSlot second) := by
  have last : (s.pushSlot second).lastSecond = second := rfl
  refine ⟨by rw [last]; omega, fun x p there before => ?_, fun x p there after => ?_⟩
  · have shift : (second - x).toNat = (s.lastSecond - x).toNat + 1 := by omega
    rw [slot, last, if_pos (by omega), shift] at there
    rw [slot, if_pos before]
    exact fromBack_pushSlot_succ there
  · rw [slot, last] at there
    split_ifs at there with inside
    have same : (second - x).toNat = 0 := by omega
    rw [same, fromBack_pushSlot_zero minute] at there
    exact (Option.some.inj there).symm

theorem pushSlot_keeps_of_empty (minute : s.Minute) (empty : size s.requests = 0)
    (later : s.lastSecond < second) : Keeps s (s.pushSlot second) := by
  have last : (s.pushSlot second).lastSecond = second := rfl
  have only : ∀ x p, (s.pushSlot second).slot x = some p → x = second := by
    intro x p there
    rw [slot, last] at there
    split_ifs at there with inside
    by_contra other
    obtain ⟨k, shift⟩ : ∃ k, (second - x).toNat = k + 1 := ⟨(second - x).toNat - 1, by omega⟩
    rw [shift] at there
    have old := fromBack_pushSlot_succ there
    rw [fromBack_empty empty] at old
    cases old
  refine ⟨later.le, fun x p there before => ?_, fun x p there after => ?_⟩
  · obtain rfl := only x p there
    exact absurd before (Int.not_le.mpr later)
  · obtain rfl := only x p there
    rw [slot, last, if_pos le_rfl, Int.sub_self] at there
    exact (Option.some.inj ((fromBack_pushSlot_zero minute).symm.trans there)).symm

theorem clearSlots_keeps (s : SudokuStat B) : Keeps s s.clearSlots := by
  have none : ∀ x, s.clearSlots.slot x = Option.none := by
    intro x
    rw [slot, fromBack_empty (size_clear _)]
    exact ite_self _
  refine ⟨le_rfl, fun x p there => ?_, fun x p there => ?_⟩ <;>
    rw [none] at there <;> cases there

theorem pushSlots_keeps (minute : s.Minute) (turns : Nat) : Keeps s (s.pushSlots turns) := by
  induction turns generalizing s with
  | zero => exact .refl s
  | succ turns ih => exact (pushSlot_keeps minute rfl).trans (ih (minute.pushSlot _))

/-! ### The invariant -/

theorem new_invariant : (new : SudokuStat B).Invariant where
  minute := ⟨capacity_make _, capacity_make _⟩
  sizes := (size_make _).trans (size_make _).symm
  last := le_rfl
  back := iff_of_true rfl (size_make _)

theorem reset_invariant (minute : s.Minute) : s.reset.Invariant where
  minute := ⟨minute.clearSlots.requests, minute.clearSlots.latencies⟩
  sizes := (size_clear _).trans (size_clear _).symm
  last := le_rfl
  back := iff_of_true rfl (size_clear _)

theorem pushSlot_invariant (minute : s.Minute) (sizes : size s.requests = size s.latencies)
    (positive : 0 < second) : (s.pushSlot second).Invariant := by
  have requests := size_pushBack s.requests 0
  have latencies := size_pushBack s.latencies 0
  rw [minute.requests] at requests
  rw [minute.latencies] at latencies
  refine ⟨minute.pushSlot second, ?_, positive.le, ?_⟩
  · exact requests.trans (sizes ▸ latencies.symm)
  · have some_slot : size (s.pushSlot second).requests ≠ 0 := by
      have sixty : kSeconds = 60 := rfl
      rw [pushSlot]
      dsimp only
      omega
    exact iff_of_false (ne_of_gt positive) some_slot

theorem pushSlots_invariant (invariant : s.Invariant) (turns : Nat) :
    (s.pushSlots turns).Invariant ∧ (s.pushSlots turns).lastSecond = s.lastSecond + turns := by
  induction turns generalizing s with
  | zero => exact ⟨invariant, (Int.add_zero _).symm⟩
  | succ turns ih =>
    have positive : 0 < s.lastSecond + 1 := by
      have last := invariant.last
      omega
    obtain ⟨after, last⟩ := ih (pushSlot_invariant invariant.minute invariant.sizes positive)
    refine ⟨after, last.trans ?_⟩
    change s.lastSecond + 1 + turns = s.lastSecond + (turns + 1 : Nat)
    omega

/-! ### One response -/

/-- The slot of the second has one more response than the old one, if there was one; the other slots
are as they were, and those that are new are empty. -/
structure Records (s t : SudokuStat B) (second elapsed_us : Int) : Prop where
  last : s.lastSecond ≤ t.lastSecond
  slots : ∀ x p, t.slot x = some p →
    p = if x = second then credit elapsed_us ((s.slot x).getD (0, 0)) else (s.slot x).getD (0, 0)

theorem recordAt_spec (elapsed_us : Int) (invariant : s.Invariant) (inside : idx < size s.requests) :
    ∃ t, s.recordAt idx elapsed_us = some t ∧ t.Invariant ∧ size t.requests = size s.requests ∧
      t.lastSecond = s.lastSecond ∧
      ∀ k, t.fromBack k = if idx + k + 1 = size s.requests then (s.fromBack k).map (credit elapsed_us)
        else s.fromBack k := by
  have sizes := invariant.sizes
  obtain ⟨requests, counted, room₁, items₁⟩ :=
    modifyAt_eq s.requests idx (fun n => int64 (n + 1)) inside
  obtain ⟨latencies, summed, room₂, items₂⟩ :=
    modifyAt_eq s.latencies idx (fun n => int64 (n + elapsed_us)) (sizes ▸ inside)
  have size₁ : size requests = size s.requests := size_modify items₁
  have size₂ : size latencies = size s.latencies := size_modify items₂
  refine ⟨{ s with requests := requests, latencies := latencies }, ?_, ⟨⟨?_, ?_⟩, ?_, invariant.last, ?_⟩,
    size₁, rfl, fun k => ?_⟩
  · rw [recordAt, guard, if_pos inside, counted, summed]
    rfl
  · exact room₁.trans invariant.minute.requests
  · exact room₂.trans invariant.minute.latencies
  · exact size₁.trans (sizes.trans size₂.symm)
  · exact invariant.back.trans (by rw [size₁])
  · rw [fromBack]
    dsimp only
    rw [fromBack_modify items₁, fromBack_modify items₂, ← sizes, fromBack]
    split_ifs
    · cases CircularBuffer.fromBack s.requests k <;> cases CircularBuffer.fromBack s.latencies k <;> rfl
    · rfl

theorem recordBack_eq (sizes : size s.requests = size s.latencies) (back : size s.requests ≠ 0) :
    s.recordBack elapsed_us = s.recordAt (size s.requests - 1) elapsed_us := by
  rw [recordBack, recordAt, modifyBack_eq _ _ back, modifyBack_eq _ _ (sizes ▸ back), ← sizes, guard,
    if_pos (Nat.sub_one_lt back)]
  rfl

theorem Keeps.recordBack (keeps : Keeps s t) (elapsed_us : Int) (invariant : t.Invariant)
    (positive : 0 < t.lastSecond) :
    ∃ u, t.recordBack elapsed_us = some u ∧ u.Invariant ∧ Records s u t.lastSecond elapsed_us := by
  have back : size t.requests ≠ 0 := fun zero => positive.ne' (invariant.back.mpr zero)
  obtain ⟨u, recorded, after, -, last, slots⟩ :=
    recordAt_spec elapsed_us invariant (Nat.sub_one_lt back)
  refine ⟨u, (recordBack_eq invariant.sizes back).trans recorded, after, last ▸ keeps.last,
    fun x p there => ?_⟩
  rw [slot, last] at there
  split_ifs at there with inside
  rw [slots] at there
  have old : t.slot x = t.fromBack (t.lastSecond - x).toNat := if_pos inside
  rw [← old] at there
  by_cases same : x = t.lastSecond
  · rw [if_pos (by omega)] at there
    obtain ⟨q, before, rfl⟩ := Option.map_eq_some_iff.mp there
    rw [if_pos same, ← keeps.getD before]
  · rw [if_neg (by omega)] at there
    rw [if_neg same]
    exact keeps.getD there

theorem recordAt_records (invariant : s.Invariant) (first : s.firstSecond ≤ second)
    (before : second < s.lastSecond) :
    ∃ u, s.recordAt (second - s.firstSecond).toNat elapsed_us = some u ∧ u.Invariant ∧
      Records s u second elapsed_us := by
  have window : s.firstSecond = s.lastSecond - size s.requests + 1 := rfl
  have inside : (second - s.firstSecond).toNat < size s.requests := by omega
  obtain ⟨u, recorded, after, -, last, slots⟩ := recordAt_spec elapsed_us invariant inside
  refine ⟨u, recorded, after, last.ge, fun x p there => ?_⟩
  rw [slot, last] at there
  split_ifs at there with below
  rw [slots] at there
  have old : s.slot x = s.fromBack (s.lastSecond - x).toNat := if_pos below
  rw [← old] at there
  by_cases same : x = second
  · rw [if_pos (by omega)] at there
    obtain ⟨q, found, rfl⟩ := Option.map_eq_some_iff.mp there
    rw [if_pos same, found]
    rfl
  · rw [if_neg (by omega)] at there
    rw [if_neg same, there]
    rfl

theorem recordSecond_spec (elapsed_us : Int) (invariant : s.Invariant) (positive : 1 ≤ second) :
    ∃ t, s.recordSecond second elapsed_us = some t ∧ t.Invariant ∧
      Records s t second elapsed_us := by
  have last := invariant.last
  have sizes := invariant.sizes
  have minute := invariant.minute
  unfold recordSecond
  split_ifs with same next ahead near behind
  · subst same
    exact (Keeps.refl s).recordBack elapsed_us invariant positive
  · have after := pushSlot_invariant minute sizes positive
    refine Keeps.recordBack ?_ elapsed_us after positive
    rcases next with following | fresh
    · exact pushSlot_keeps minute following
    · exact pushSlot_keeps_of_empty minute (invariant.back.mp fresh) (by omega)
  · obtain ⟨after, reached⟩ := pushSlots_invariant invariant (second - s.lastSecond).toNat
    have end_ : (s.pushSlots (second - s.lastSecond).toNat).lastSecond = second := by
      rw [reached]
      omega
    have recorded := (pushSlots_keeps minute (second - s.lastSecond).toNat).recordBack
      elapsed_us after (by omega)
    rwa [end_] at recorded
  · have empty : size s.clearSlots.requests = 0 := size_clear _
    have after := pushSlot_invariant minute.clearSlots (empty.trans (size_clear _).symm) positive
    exact ((clearSlots_keeps s).trans
      (pushSlot_keeps_of_empty minute.clearSlots empty ahead)).recordBack elapsed_us after positive
  · exact recordAt_records invariant behind (by omega)
  · refine ⟨s, rfl, invariant, le_rfl, fun x p there => ?_⟩
    have other : x ≠ second := by
      rintro rfl
      rw [slot_before (by omega)] at there
      cases there
    rw [if_neg other, there]
    rfl

end SudokuStat

/-! ### Runs -/

/-- The times are positive, and `now` is past the second that stands for none. -/
def Call.Clocked : Call → Prop
  | .recordResponse now receive _ => (1000000 ≤ now ∧ now < 2 ^ 63) ∧ 0 < receive ∧ receive < 2 ^ 63
  | _ => True

instance (c : Call) : Decidable c.Clocked := by cases c <;> (unfold Call.Clocked; infer_instance)

def Call.counts (second : Int) : Call → Bool
  | .recordResponse now receive _ => receive ≤ now ∧ now / 1000000 = second
  | _ => false

def Call.latency : Call → Int
  | .recordResponse now receive _ => now - receive
  | _ => 0

def tally (calls : List Call) (second : Int) : Int × Int :=
  (int64 (calls.countP (Call.counts second) : Nat),
    int64 ((calls.filter (Call.counts second)).map Call.latency).sum)

namespace SudokuStat
variable {B : Type} [CircularBuffer Int B] {s t : SudokuStat B} {x : Int} {p : Int × Int} {c : Call}

theorem tally_concat (calls : List Call) (c : Call) (x : Int) :
    tally (calls ++ [c]) x =
      if c.counts x then credit c.latency (tally calls x) else tally calls x := by
  unfold tally credit
  rw [List.countP_append, List.filter_append, List.map_append, List.sum_append,
    List.countP_singleton, List.filter_singleton]
  cases counted : c.counts x with
  | true =>
    simp only [cond_true, if_true, int64_add, Int.natCast_add, Int.natCast_one, List.map_cons,
      List.map_nil, List.sum_singleton]
  | false =>
    rw [if_neg Bool.false_ne_true, if_neg Bool.false_ne_true]
    simp only [cond_false, Nat.add_zero, List.map_nil, List.sum_nil, Int.add_zero]

theorem tally_singleton (c : Call) (x : Int) :
    tally [c] x = if c.counts x then credit c.latency (0, 0) else (0, 0) := by
  have zero : int64 0 = 0 := int64_eq (by decide)
  have none : tally [] x = (0, 0) := by
    simp only [tally, List.countP_nil, List.filter_nil, List.map_nil, List.sum_nil, Int.natCast_zero,
      zero]
  have one := tally_concat [] c x
  rwa [List.nil_append, none] at one

theorem assertSizes_eq (invariant : s.Invariant) : s.assertSizes = some s := if_pos invariant.sizes

/-- Only the totals differ. -/
structure SameSlots (s u : SudokuStat B) : Prop where
  last : u.lastSecond = s.lastSecond
  requests : u.requests = s.requests
  latencies : u.latencies = s.latencies

theorem SameSlots.invariant (same : SameSlots s t) (invariant : s.Invariant) : t.Invariant where
  minute := ⟨same.requests ▸ invariant.minute.requests, same.latencies ▸ invariant.minute.latencies⟩
  sizes := by rw [same.requests, same.latencies, invariant.sizes]
  last := same.last ▸ invariant.last
  back := by rw [same.last, same.requests, invariant.back]

theorem SameSlots.slot (same : SameSlots s t) (x : Int) : t.slot x = s.slot x := by
  unfold SudokuStat.slot fromBack
  rw [same.last, same.requests, same.latencies]

theorem Invariant.item (invariant : s.Invariant) {idx : Nat} (inside : idx < size s.requests) :
    ∃ p, s.slot (s.firstSecond + idx) = some p ∧ (items s.requests)[idx]? = some p.1 ∧
      (items s.latencies)[idx]? = some p.2 := by
  have sizes := invariant.sizes
  have first : s.firstSecond = s.lastSecond - size s.requests + 1 := rfl
  obtain ⟨p, there⟩ := invariant.slot_some (x := s.firstSecond + idx) (by omega) (by omega)
  refine ⟨p, there, ?_⟩
  have place : (s.lastSecond - (s.firstSecond + idx)).toNat = size s.requests - 1 - idx := by omega
  rw [slot, if_pos (by omega), place, fromBack, fromBack_eq inside, sizes,
    fromBack_eq (sizes ▸ inside)] at there
  obtain ⟨count, counts, later⟩ := Option.bind_eq_some_iff.mp there
  obtain ⟨latency, sums, rfl⟩ := Option.map_eq_some_iff.mp later
  exact ⟨counts, sums⟩

variable (B) in
/-- The slot of the second has come into the window with the first of the calls `since`, and has
stayed there. -/
def Entered (before since : List Call) (second : Int) : Prop :=
  (∀ s, run B before = some s → s.slot second = none) ∧
    ∀ part, part ≠ [] → part <+: since →
      ∀ s, run B (before ++ part) = some s → ∃ p, s.slot second = some p

theorem run_concat {calls : List Call} (ran : run B calls = some s) (next : s.call c = some t) :
    run B (calls ++ [c]) = some t := by
  rw [run, List.foldlM_append, ← run, ran]
  exact (bind_pure (s.call c)).trans next

variable [LawfulCircularBuffer Int B]

theorem recordResponse_spec (invariant : s.Invariant) {now receive : Int} (solved : Bool)
    (clocked : (Call.recordResponse now receive solved).Clocked) :
    ∃ t, s.recordResponse now receive solved = some t ∧ t.Invariant ∧
      ∀ x p, t.slot x = some p →
        p = if receive ≤ now ∧ now / 1000000 = x then credit (now - receive) ((s.slot x).getD (0, 0))
          else (s.slot x).getD (0, 0) := by
  obtain ⟨⟨late, small⟩, early, fits⟩ := clocked
  have elapsed : int64 (now - receive) = now - receive := int64_eq ⟨by omega, by omega⟩
  have second : now.tdiv 1000000 = now / 1000000 := Int.tdiv_eq_ediv_of_nonneg (by omega)
  obtain ⟨u, totals⟩ : ∃ u : SudokuStat B, u = if solved then
      { s with
        totalResponses := int64 (s.totalResponses + 1)
        totalSolved := int64 (s.totalSolved + 1) }
    else { s with totalResponses := int64 (s.totalResponses + 1) } := ⟨_, rfl⟩
  have same : SameSlots s u := by
    rw [totals]
    split <;> exact ⟨rfl, rfl, rfl⟩
  have run : s.recordResponse now receive solved =
      if now - receive < 0 then some { u with badLatency := int64 (u.badLatency + 1) }
      else ({ u with totalLatency := int64 (u.totalLatency + (now - receive)) }.recordSecond
        (now / 1000000) (now - receive)).bind assertSizes := by
    rw [recordResponse, elapsed, second, assertSizes_eq invariant, totals]
    cases solved <;> rfl
  rw [run]
  split_ifs with negative
  · have kept : SameSlots s { u with badLatency := int64 (u.badLatency + 1) } :=
      ⟨same.last, same.requests, same.latencies⟩
    refine ⟨_, rfl, kept.invariant invariant, fun x p there => ?_⟩
    rw [kept.slot] at there
    rw [if_neg fun counted => by omega, there]
    rfl
  · have kept : SameSlots s { u with totalLatency := int64 (u.totalLatency + (now - receive)) } :=
      ⟨same.last, same.requests, same.latencies⟩
    obtain ⟨t, recorded, after, records⟩ := recordSecond_spec (now - receive) (kept.invariant invariant)
      (by omega : 1 ≤ now / 1000000)
    refine ⟨t, ?_, after, fun x p there => (records.slots x p there).trans ?_⟩
    · rw [recorded]
      exact assertSizes_eq after
    · have order : receive ≤ now := by omega
      rw [kept.slot]
      simp only [order, true_and, eq_comm]

theorem call_spec (invariant : s.Invariant) (clocked : c.Clocked) :
    ∃ t, s.call c = some t ∧ t.Invariant ∧ ∀ x p, t.slot x = some p →
      p = if c.counts x then credit c.latency ((s.slot x).getD (0, 0))
        else (s.slot x).getD (0, 0) := by
  have same : ∀ x p, s.slot x = some p → p = (s.slot x).getD (0, 0) := by
    intro x p there
    rw [there]
    rfl
  cases c with
  | recordResponse now receive solved =>
    obtain ⟨t, next, after, slots⟩ := recordResponse_spec invariant solved clocked
    refine ⟨t, next, after, fun x p there => (slots x p there).trans ?_⟩
    simp only [Call.counts, Call.latency, decide_eq_true_eq, Bool.decide_and, Bool.and_eq_true]
  | reset =>
    refine ⟨s.reset, rfl, reset_invariant invariant.minute, fun x p there => ?_⟩
    rw [slot, fromBack_empty (size_clear _), ite_self] at there
    cases there
  | recordRequest =>
    exact ⟨s.recordRequest, rfl, SameSlots.invariant (s := s) ⟨rfl, rfl, rfl⟩ invariant, same⟩
  | recordBadRequest =>
    exact ⟨s.recordBadRequest, rfl, SameSlots.invariant (s := s) ⟨rfl, rfl, rfl⟩ invariant, same⟩
  | recordDroppedRequest =>
    exact ⟨s.recordDroppedRequest, rfl, SameSlots.invariant (s := s) ⟨rfl, rfl, rfl⟩ invariant, same⟩

theorem run_tally {calls : List Call} (clocked : ∀ c ∈ calls, c.Clocked) :
    ∃ s, run B calls = some s ∧ s.Invariant ∧ ∀ x p, s.slot x = some p →
      ∃ before since, calls = before ++ since ∧ Entered B before since x ∧ p = tally since x := by
  induction calls using List.reverseRecOn with
  | nil =>
    refine ⟨new, rfl, new_invariant, fun x p there => ?_⟩
    rw [slot, fromBack_empty (size_make _), ite_self] at there
    cases there
  | append_singleton calls c ih =>
    obtain ⟨s, ran, invariant, slots⟩ := ih fun c member => clocked c (List.mem_append_left _ member)
    have last := clocked c (List.mem_append_right _ (List.mem_singleton_self c))
    obtain ⟨t, next, after, changes⟩ := call_spec invariant last
    have whole := run_concat ran next
    refine ⟨t, whole, after, fun x p there => ?_⟩
    have value := changes x p there
    cases old : s.slot x with
    | none =>
      refine ⟨calls, [c], rfl, ⟨fun u again => ?_, fun part some_call inside u again => ?_⟩, ?_⟩
      · cases ran.symm.trans again
        exact old
      · have grown : part <+: [] ++ [c] := inside
        rcases List.prefix_concat_iff.mp grown with rfl | nothing
        · cases whole.symm.trans again
          exact ⟨p, there⟩
        · exact absurd (List.prefix_nil.mp nothing) some_call
      · rw [value, old, Option.getD_none]
        exact (tally_singleton c x).symm
    | some q =>
      obtain ⟨before, since, rfl, ⟨outside, within⟩, total⟩ := slots x q old
      refine ⟨before, since ++ [c], by rw [List.append_assoc],
        ⟨outside, fun part some_call inside u again => ?_⟩, ?_⟩
      · rcases List.prefix_concat_iff.mp inside with rfl | shorter
        · rw [← List.append_assoc] at again
          cases whole.symm.trans again
          exact ⟨p, there⟩
        · exact within part some_call shorter u again
      · rw [value, tally_concat, old, Option.getD_some, total]

/-- Every index is in range, and every slot says what has come for its second. -/
theorem run_slots (B : Type) [CircularBuffer Int B] [LawfulCircularBuffer Int B] (calls : List Call)
    (clocked : ∀ c ∈ calls, c.Clocked) :
    ∃ s, run B calls = some s ∧ s.Invariant ∧ size s.requests ≤ kSeconds ∧
      ∀ idx < size s.requests, ∃ before since, calls = before ++ since ∧
        Entered B before since (s.firstSecond + idx) ∧
        (items s.requests)[idx]? = some (tally since (s.firstSecond + idx)).1 ∧
        (items s.latencies)[idx]? = some (tally since (s.firstSecond + idx)).2 := by
  obtain ⟨s, ran, invariant, slots⟩ := run_tally (B := B) clocked
  refine ⟨s, ran, invariant, (fits s.requests).trans invariant.minute.requests.le, fun idx inside => ?_⟩
  obtain ⟨p, there, count, latency⟩ := invariant.item inside
  obtain ⟨before, since, whole, entered, rfl⟩ := slots _ p there
  exact ⟨before, since, whole, entered, count, latency⟩

theorem run_slots_jumps :
    ∃ s, run (ListBuffer Int) [.recordResponse 100000000 99000000 true,
        .recordResponse 159000000 158000000 false, .recordResponse 100000001 1 true,
        .recordResponse 160000000 170000000 true] = some s ∧
      s.Invariant ∧ size s.requests ≤ kSeconds ∧
      ∀ idx < size s.requests, ∃ before since,
        [.recordResponse 100000000 99000000 true, .recordResponse 159000000 158000000 false,
          .recordResponse 100000001 1 true, .recordResponse 160000000 170000000 true] =
          before ++ since ∧
        Entered (ListBuffer Int) before since (s.firstSecond + idx) ∧
        (items s.requests)[idx]? = some (tally since (s.firstSecond + idx)).1 ∧
        (items s.latencies)[idx]? = some (tally since (s.firstSecond + idx)).2 :=
  run_slots (ListBuffer Int) _ (by decide)

theorem run_early_or_large :
    run (ListBuffer Int) [.recordResponse 500000 500000 true] = none ∧
      (run (ListBuffer Int) [.recordResponse (2 ^ 62 + 1) 1 true,
        .recordResponse (2 ^ 62 + 1) 1 true]).map (fun s => items s.latencies) = some [-2 ^ 63] := by
  constructor
  · rfl
  · decide

end SudokuStat

end ProjectsCpp.Sudoku
