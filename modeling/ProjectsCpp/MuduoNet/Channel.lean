import Mathlib.Data.List.Basic
import Mathlib.Data.Option.Basic
import Mathlib.Data.Set.Defs
import Mathlib.Logic.Function.Basic

/-! The channels of one event loop (`Channel.cc`): what they are interested in, and what a poller
has to make of it. `fd` gives the descriptor of each channel. -/

namespace ProjectsCpp.MuduoNet

/-- `int events_`, a set of event bits. -/
abbrev Events := BitVec 32

def POLLIN : Events := 1

def POLLPRI : Events := 2

def POLLOUT : Events := 4

def kNoneEvent : Events := 0

def kReadEvent : Events := POLLIN ||| POLLPRI

def kWriteEvent : Events := POLLOUT

/-- `events_`, and `index_`, which belongs to the poller. -/
structure Channel where
  events : Events
  index : Int
deriving DecidableEq

def Channel.new : Channel := ⟨kNoneEvent, -1⟩

def Channel.isNoneEvent (c : Channel) : Bool := c.events = kNoneEvent

inductive Update where
  | enableReading | disableReading | enableWriting | disableWriting | disableAll
deriving DecidableEq

def Update.apply : Update → Events → Events
  | .enableReading, events => events ||| kReadEvent
  | .disableReading, events => events &&& ~~~ kReadEvent
  | .enableWriting, events => events ||| kWriteEvent
  | .disableWriting, events => events &&& ~~~ kWriteEvent
  | .disableAll, _ => kNoneEvent

abbrev ChannelPtr := Nat

inductive Op where
  | update (u : Update) (c : ChannelPtr)
  | remove (c : ChannelPtr)
deriving DecidableEq

/-! ### What is asked of a poller -/

/-- The interests of the channels, and which of them are registered. -/
structure Registry where
  events : ChannelPtr → Events
  registered : List ChannelPtr

def Registry.new : Registry := ⟨fun _ => kNoneEvent, []⟩

/-- Registered channels have different descriptors; only a registered channel without interest
is removed. -/
def Registry.step (fd : ChannelPtr → Nat) (r : Registry) : Op → Option Registry
  | .update u c =>
    if ∀ k ∈ r.registered, fd k = fd c → k = c then
      some ⟨Function.update r.events c (u.apply (r.events c)),
        if c ∈ r.registered then r.registered else c :: r.registered⟩
    else none
  | .remove c =>
    if c ∈ r.registered ∧ r.events c = kNoneEvent then
      some { r with registered := r.registered.filter (· ≠ c) }
    else none

def Registry.run (fd : ChannelPtr → Nat) (ops : List Op) : Option Registry :=
  ops.foldlM (Registry.step fd) .new

def Registry.wanted (fd : ChannelPtr → Nat) (r : Registry) : Set (Nat × Events) :=
  { w | w.2 ≠ kNoneEvent ∧ ∃ c ∈ r.registered, fd c = w.1 ∧ r.events c = w.2 }

def masks : List Events := [kNoneEvent, kReadEvent, kWriteEvent, kReadEvent ||| kWriteEvent]

theorem of_mem_masks {events : Events} (known : events ∈ masks) : events = kNoneEvent ∨
    events = kReadEvent ∨ events = kWriteEvent ∨ events = kReadEvent ||| kWriteEvent := by
  simpa only [masks, List.mem_cons, List.not_mem_nil, or_false] using known

theorem apply_mem_masks (u : Update) {events : Events} (known : events ∈ masks) :
    u.apply events ∈ masks := by
  rcases of_mem_masks known with rfl | rfl | rfl | rfl <;> cases u <;> decide

theorem short_of_mem_masks {events : Events} (known : events ∈ masks) :
    (events.setWidth 16).signExtend 32 = events := by
  rcases of_mem_masks known with rfl | rfl | rfl | rfl <;> decide

variable {fd : ChannelPtr → Nat} {r r' : Registry} {c k : ChannelPtr} {u : Update}

theorem Registry.step_update (taken : r.step fd (.update u c) = some r') :
    (∀ k ∈ r.registered, fd k = fd c → k = c) ∧
      r'.events = Function.update r.events c (u.apply (r.events c)) ∧
      (∀ k, k ∈ r'.registered ↔ k ∈ r.registered ∨ k = c) := by
  rw [Registry.step] at taken
  by_cases apart : ∀ k ∈ r.registered, fd k = fd c → k = c
  · rw [if_pos apart] at taken
    cases taken
    refine ⟨apart, rfl, fun k => ?_⟩
    by_cases member : c ∈ r.registered
    · simp only [if_pos member]
      exact ⟨.inl, fun either => either.elim id fun same => same ▸ member⟩
    · simp only [if_neg member, List.mem_cons]
      exact or_comm
  · rw [if_neg apart] at taken
    exact nomatch taken

theorem Registry.step_remove (taken : r.step fd (.remove c) = some r') :
    c ∈ r.registered ∧ r.events c = kNoneEvent ∧ r'.events = r.events ∧
      (∀ k, k ∈ r'.registered ↔ k ∈ r.registered ∧ k ≠ c) := by
  rw [Registry.step] at taken
  by_cases idle : c ∈ r.registered ∧ r.events c = kNoneEvent
  · rw [if_pos idle] at taken
    cases taken
    refine ⟨idle.1, idle.2, rfl, fun k => ?_⟩
    rw [List.mem_filter, decide_eq_true_iff]
  · rw [if_neg idle] at taken
    exact nomatch taken

end ProjectsCpp.MuduoNet
