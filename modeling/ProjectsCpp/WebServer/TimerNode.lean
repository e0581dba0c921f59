import Mathlib.Data.Nat.Basic
import Mathlib.Data.Int.Basic
import Mathlib.Tactic.ByContra
import Mathlib.Algebra.Group.Nat.Defs
import Mathlib.Algebra.Group.Int.Defs

/-! The timer nodes of the web server (`reactor/Timer.cpp`, `reactor/Timer.h`) against a clock that
counts all its milliseconds. A node takes the seconds modulo 10000. -/

namespace ProjectsCpp.WebServer

structure Timeval where
  sec : Nat
  usec : Nat
deriving DecidableEq

namespace Timeval

def Valid (now : Timeval) : Prop := now.usec < 1000000

instance (now : Timeval) : Decidable now.Valid := inferInstanceAs (Decidable (_ < _))

def millis (now : Timeval) : Nat := now.sec * 1000 + now.usec / 1000

def period (now : Timeval) : Nat := now.sec / 10000

def clockMillis (now : Timeval) : Nat := now.sec % 10000 * 1000 + now.usec / 1000

theorem millis_eq (now : Timeval) : now.millis = now.clockMillis + 10000000 * now.period := by
  unfold millis clockMillis period
  omega

theorem clockMillis_lt {now : Timeval} (valid : now.Valid) : now.clockMillis < 10000000 := by
  unfold Valid at valid
  unfold clockMillis
  omega

/-- What the milliseconds of the clock jump by where they wrap between the two times. -/
def jump (t u : Timeval) : Nat := 10000000 * (u.period - t.period)

end Timeval

abbrev SpChannel := Nat

/-- `serial` stands for the address: it tells the nodes apart that are alive. -/
structure TimerNode where
  serial : Nat
  channel : SpChannel
  expiredTime : Nat
deriving DecidableEq

def toSize (n : Int) : Nat := (n % 2 ^ 64).toNat

namespace TimerNode

def expiry (timeout : Int) (now : Timeval) : Nat := toSize (now.clockMillis + timeout)

def new (serial : Nat) (channel : SpChannel) (timeout : Int) (now : Timeval) : TimerNode :=
  ⟨serial, channel, expiry timeout now⟩

def update (node : TimerNode) (timeout : Int) (now : Timeval) : TimerNode :=
  { node with expiredTime := expiry timeout now }

def isValid (node : TimerNode) (now : Timeval) : Bool := now.clockMillis < node.expiredTime

end TimerNode

def TimerCmp (a b : TimerNode) : Bool := a.expiredTime > b.expiredTime

/-- The time, in milliseconds since the epoch, that a node stands for. -/
def deadline (timeout : Int) (made : Timeval) : Int := made.millis + timeout

theorem toSize_of_nonneg {n : Int} (low : 0 ≤ n) (high : n < 2 ^ 64) : (toSize n : Int) = n := by
  unfold toSize
  rw [Int.toNat_of_nonneg (Int.emod_nonneg _ (by decide))]
  exact Int.emod_eq_of_lt low high

theorem expiry_eq {t : Timeval} {d : Int} (valid : t.Valid) (low : 0 ≤ d) (int : d < 2 ^ 31) :
    (TimerNode.expiry d t : Int) = t.clockMillis + d := by
  have small := Timeval.clockMillis_lt valid
  exact toSize_of_nonneg (by omega) (by omega)

/-- The clock runs on into another period and has not yet caught up with the jump. -/
def HeldBack (t : Timeval) (d : Int) (u : Timeval) : Prop :=
  deadline d t ≤ u.millis ∧ (u.millis : Int) < deadline d t + t.jump u

def SecondJumpsBack (t : Timeval) (d : Int) (t' : Timeval) (d' : Int) : Prop :=
  deadline d t ≤ deadline d' t' ∧ deadline d' t' < deadline d t + t.jump t'

def FirstJumpsBack (t : Timeval) (d : Int) (t' : Timeval) (d' : Int) : Prop :=
  deadline d' t' < deadline d t ∧ deadline d t ≤ deadline d' t' + t'.jump t

/-- Two nodes made at `t` and `t'` with the timeouts `d` and `d'`: the first one is found to be
invalid at a later time `u` just when its timeout has passed, unless the clock holds it back, and
the two are compared by their deadlines, unless one has jumped past the other. -/
theorem node_times {t t' u : Timeval} {d d' : Int} (c c' : SpChannel) (n n' : Nat)
    (valid : t.Valid) (valid' : t'.Valid) (later : t.sec ≤ u.sec)
    (low : 0 ≤ d) (int : d < 2 ^ 31) (low' : 0 ≤ d') (int' : d' < 2 ^ 31) :
    (((TimerNode.new n c d t).isValid u = false ↔ d ≤ (u.millis : Int) - t.millis) ↔
        ¬ HeldBack t d u) ∧
      ((TimerCmp (.new n c d t) (.new n' c' d' t') = true ↔ deadline d t > deadline d' t') ↔
        ¬ SecondJumpsBack t d t' d' ∧ ¬ FirstJumpsBack t d t' d') := by
  have first := expiry_eq valid low int
  have second := expiry_eq valid' low' int'
  have atT := t.millis_eq
  have atT' := t'.millis_eq
  have atU := u.millis_eq
  have periods : t.period ≤ u.period := Nat.div_le_div_right later
  constructor
  · have decided : (TimerNode.new n c d t).isValid u = false ↔ TimerNode.expiry d t ≤ u.clockMillis :=
      decide_eq_false_iff_not.trans Nat.not_lt
    rw [decided]
    unfold HeldBack deadline Timeval.jump
    omega
  · have decided : TimerCmp (.new n c d t) (.new n' c' d' t') = true ↔
        TimerNode.expiry d t > TimerNode.expiry d' t' := decide_eq_true_iff
    rw [decided]
    unfold SecondJumpsBack FirstJumpsBack deadline Timeval.jump
    omega

theorem expired_node_valid :
    (TimerNode.new 0 0 500 ⟨9999, 900000⟩).isValid ⟨10001, 0⟩ = true ∧
      (500 : Int) ≤ (Timeval.millis ⟨10001, 0⟩ : Int) - Timeval.millis ⟨9999, 900000⟩ := by decide

theorem node_times_one_period :
    (((TimerNode.new 0 0 500 ⟨1, 0⟩).isValid ⟨2, 0⟩ = false ↔
          (500 : Int) ≤ (Timeval.millis ⟨2, 0⟩ : Int) - Timeval.millis ⟨1, 0⟩) ↔
        ¬ HeldBack ⟨1, 0⟩ 500 ⟨2, 0⟩) ∧
      ((TimerCmp (.new 0 0 500 ⟨1, 0⟩) (.new 1 1 500 ⟨2, 0⟩) = true ↔
          deadline 500 ⟨1, 0⟩ > deadline 500 ⟨2, 0⟩) ↔
        ¬ SecondJumpsBack ⟨1, 0⟩ 500 ⟨2, 0⟩ 500 ∧ ¬ FirstJumpsBack ⟨1, 0⟩ 500 ⟨2, 0⟩ 500) :=
  node_times 0 1 0 1 (by decide) (by decide) (by decide) (by decide) (by decide)
    (by decide) (by decide)

end ProjectsCpp.WebServer
