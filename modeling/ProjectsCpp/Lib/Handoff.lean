import ProjectsCpp.Lib.Run
import Mathlib.Data.List.Basic

/-! A handoff of messages from any number of producers to one consumer, through two
semaphores of which one starts at 1 and the other at 0. A producer waits for the first,
pushes its message on a shared list and posts the second; the consumer waits for the
second, takes the last message, handles it and posts the first. There is one token in the
system, so every message is handled once and in the order of the pushes. -/

namespace ProjectsCpp

/-- Where the consumer is. -/
inductive Consumer (α : Type) where
  | idle
  | awake
  | holding (a : α)
  | finished

/-- `entered` and `leaving` are the producers, with their owner, between the wait and the
push and between the push and the post; `handled` is history. -/
structure Handoff (ω α : Type) where
  recvSem : Nat
  sendSem : Nat
  entered : List (ω × α)
  leaving : List ω
  pushed : List α
  consumer : Consumer α
  handled : List α

namespace Handoff
variable {ω α : Type}

def start : Handoff ω α := ⟨1, 0, [], [], [], .idle, []⟩

def enter (h : Handoff ω α) (o : ω) (a : α) : Option (Handoff ω α) :=
  if h.recvSem = 0 then none
  else some { h with recvSem := h.recvSem - 1, entered := (o, a) :: h.entered }

def push (h : Handoff ω α) : Option (Handoff ω α) :=
  match h.entered with
  | [] => none
  | (o, a) :: rest =>
    some { h with entered := rest, pushed := h.pushed ++ [a], leaving := o :: h.leaving }

/-- Some producer that has pushed posts the consumer's semaphore. -/
def post (h : Handoff ω α) : Option (ω × Handoff ω α) :=
  match h.leaving with
  | [] => none
  | o :: rest => some (o, { h with leaving := rest, sendSem := h.sendSem + 1 })

def wake (h : Handoff ω α) : Option (Handoff ω α) :=
  match h.consumer with
  | .idle =>
    if h.sendSem = 0 then none else some { h with sendSem := h.sendSem - 1, consumer := .awake }
  | _ => none

/-- The consumer reads the last message; an empty list has none. -/
def take (h : Handoff ω α) : Option (Handoff ω α) :=
  match h.consumer with
  | .awake => h.pushed.getLast?.map fun a => { h with consumer := .holding a }
  | _ => none

def handle (h : Handoff ω α) : Option (α × Handoff ω α) :=
  match h.consumer with
  | .holding a => some (a, { h with consumer := .finished, handled := h.handled ++ [a] })
  | _ => none

def release (h : Handoff ω α) : Option (Handoff ω α) :=
  match h.consumer with
  | .finished => some { h with consumer := .idle, recvSem := h.recvSem + 1 }
  | _ => none

/-! ### The token -/

def full (h : Handoff ω α) : Nat :=
  h.leaving.length + h.sendSem + match h.consumer with
    | .awake | .holding _ => 1
    | _ => 0

def tokens (h : Handoff ω α) : Nat :=
  h.recvSem + h.entered.length + h.full + match h.consumer with
    | .finished => 1
    | _ => 0

/-- One token; the handled messages are the pushed ones but for the one under way, which is
the one the consumer holds. -/
structure Sound (h : Handoff ω α) : Prop where
  token : h.tokens = 1
  order : h.handled <+: h.pushed
  count : h.pushed.length = h.handled.length + h.full
  held : ∀ a, h.consumer = .holding a → h.pushed.getLast? = some a

variable {h k : Handoff ω α} {o : ω} {a : α}

theorem start_sound : (start : Handoff ω α).Sound := ⟨rfl, List.prefix_refl _, rfl, nofun⟩

theorem Sound.enter (sound : h.Sound) (next : h.enter o a = some k) : k.Sound := by
  rw [Handoff.enter] at next
  split at next
  · cases next
  · cases next
    have token := sound.token
    refine ⟨?_, sound.order, sound.count, sound.held⟩
    simp only [tokens, full, List.length_cons] at token ⊢
    omega

theorem Sound.push (sound : h.Sound) (next : h.push = some k) : k.Sound := by
  cases entered : h.entered with
  | nil => simp [Handoff.push, entered] at next
  | cons first rest =>
    simp only [Handoff.push, entered, Option.some.injEq] at next
    subst next
    have token := sound.token
    have count := sound.count
    simp only [tokens, full, entered, List.length_cons] at token count
    have free : ∀ b, h.consumer ≠ .holding b := by
      intro b holds
      simp only [holds] at token
      omega
    refine ⟨?_, sound.order.trans (List.prefix_append _ _), ?_, fun b holds => absurd holds (free b)⟩
    · simp only [tokens, full, List.length_cons]
      omega
    · simp only [full, List.length_cons, List.length_append, List.length_nil]
      omega

theorem Sound.post (sound : h.Sound) (next : h.post = some (o, k)) : k.Sound := by
  cases leaving : h.leaving with
  | nil => simp [Handoff.post, leaving] at next
  | cons first rest =>
    simp only [Handoff.post, leaving, Option.some.injEq, Prod.mk.injEq] at next
    obtain ⟨-, rfl⟩ := next
    have token := sound.token
    have count := sound.count
    simp only [tokens, full, leaving, List.length_cons] at token count
    refine ⟨?_, sound.order, ?_, sound.held⟩
    · simp only [tokens, full]
      omega
    · simp only [full]
      omega

theorem Sound.wake (sound : h.Sound) (next : h.wake = some k) : k.Sound := by
  cases consumer : h.consumer with
  | idle =>
    simp only [Handoff.wake, consumer] at next
    split at next
    · cases next
    · cases next
      have token := sound.token
      have count := sound.count
      simp only [tokens, full, consumer] at token count
      refine ⟨?_, sound.order, ?_, nofun⟩
      · simp only [tokens, full]
        omega
      · simp only [full]
        omega
  | _ => simp [Handoff.wake, consumer] at next

theorem Sound.take (sound : h.Sound) (next : h.take = some k) : k.Sound := by
  cases consumer : h.consumer with
  | awake =>
    simp only [Handoff.take, consumer] at next
    obtain ⟨b, last, rfl⟩ := Option.map_eq_some_iff.mp next
    have token := sound.token
    have count := sound.count
    simp only [tokens, full, consumer] at token count
    refine ⟨token, sound.order, count, ?_⟩
    rintro c ⟨⟩
    exact last
  | _ => simp [Handoff.take, consumer] at next

theorem Sound.handle (sound : h.Sound) (next : h.handle = some (a, k)) : k.Sound := by
  cases consumer : h.consumer with
  | holding b =>
    simp only [Handoff.handle, consumer, Option.some.injEq, Prod.mk.injEq] at next
    obtain ⟨rfl, rfl⟩ := next
    have token := sound.token
    have count := sound.count
    simp only [tokens, full, consumer] at token count
    have last := sound.held b consumer
    -- the one message that is not handled is the last one
    have all : h.pushed = h.handled ++ [b] := by
      obtain ⟨rest, split⟩ := sound.order
      have one : rest.length = 1 := by
        rw [← split, List.length_append] at count
        omega
      obtain ⟨c, rfl⟩ := List.length_eq_one_iff.mp one
      rw [← split, List.getLast?_concat] at last
      cases last
      exact split.symm
    refine ⟨?_, ?_, ?_, nofun⟩
    · simp only [tokens, full]
      omega
    · exact all.symm ▸ List.prefix_refl _
    · simp only [full, List.length_append, List.length_cons, List.length_nil]
      omega
  | _ => simp [Handoff.handle, consumer] at next

theorem Sound.release (sound : h.Sound) (next : h.release = some k) : k.Sound := by
  cases consumer : h.consumer with
  | finished =>
    simp only [Handoff.release, consumer, Option.some.injEq] at next
    subst next
    have token := sound.token
    have count := sound.count
    simp only [tokens, full, consumer] at token count
    refine ⟨?_, sound.order, ?_, nofun⟩
    · simp only [tokens, full]
      omega
    · simp only [full]
      omega
  | _ => simp [Handoff.release, consumer] at next

theorem Sound.length_le (sound : h.Sound) : h.pushed.length ≤ h.handled.length + 1 := by
  have token := sound.token
  have count := sound.count
  simp only [tokens] at token
  omega

/-! ### What each step does to the lists -/

def line (h : Handoff ω α) : List α := h.pushed ++ h.entered.map Prod.snd

theorem enter_line (sound : h.Sound) (next : h.enter o a = some k) : k.line = h.line ++ [a] := by
  rw [Handoff.enter] at next
  split at next
  · cases next
  · rename_i free
    cases next
    have token := sound.token
    have empty : h.entered = [] := by
      rw [← List.length_eq_zero_iff]
      simp only [tokens] at token
      omega
    simp [line, empty]

theorem push_line (next : h.push = some k) (sound : h.Sound) : k.line = h.line := by
  cases entered : h.entered with
  | nil => simp [Handoff.push, entered] at next
  | cons first rest =>
    simp only [Handoff.push, entered, Option.some.injEq] at next
    subst next
    have token := sound.token
    have empty : rest = [] := by
      rw [← List.length_eq_zero_iff]
      simp only [tokens, entered, List.length_cons] at token
      omega
    simp [line, entered, empty]

theorem post_line (next : h.post = some (o, k)) : k.line = h.line := by
  rw [Handoff.post] at next
  split at next <;> cases next
  rfl

theorem wake_line (next : h.wake = some k) : k.line = h.line := by
  rw [Handoff.wake] at next
  split at next
  · split at next <;> cases next
    rfl
  · cases next

theorem take_line (next : h.take = some k) : k.line = h.line := by
  rw [Handoff.take] at next
  split at next
  · obtain ⟨b, -, rfl⟩ := Option.map_eq_some_iff.mp next
    rfl
  · cases next

theorem handle_line (next : h.handle = some (a, k)) : k.line = h.line := by
  rw [Handoff.handle] at next
  split at next <;> cases next
  rfl

theorem release_line (next : h.release = some k) : k.line = h.line := by
  rw [Handoff.release] at next
  split at next <;> cases next
  rfl

end Handoff

end ProjectsCpp
