import ProjectsCpp.Muduo.OutputStream
import Mathlib.Data.List.Forall2

/-! `send` from other threads. A queued `sendInLoop` holds the address and the length of its caller's
string; what it finds there when it runs is what goes out. -/

namespace ProjectsCpp.Muduo
open ProjectsCpp.Run

/-- `strings` holds `none` for a string that is released. A send that has passed its test and has not
queued its functor stands in `sending` with what its string held; `messages` is what the queued
sends were called with. -/
structure CallerStrings (T P : Type) where
  conn : TcpConnection (P × Nat)
  strings : P → Option (List UInt8)
  sending : List (T × P × List UInt8)
  messages : List (List UInt8)
  executed : Nat

inductive CallerStep (T P : Type) where
  | send (t : T) (buf : P)
  | queueInLoop (t : T) (buf : P) (contents : List UInt8)
  | change (buf : P) (contents : Option (List UInt8))
  | call (w : WriteResult) (stale : List UInt8)
  | handleWrite (w : WriteResult)

namespace CallerStrings
variable {T P : Type}

/-- What stands at an address, with `stale` behind a string. -/
def found (s : CallerStrings T P) (stale : List UInt8) (d : P × Nat) : List UInt8 :=
  ((s.strings d.1).getD [] ++ stale).take d.2

section Step
variable [DecidableEq T] [DecidableEq P]

/-- A string does not change while `send` runs with it. -/
def step (s : CallerStrings T P) : CallerStep T P → Option (CallerStrings T P)
  | .send t buf =>
    match s.strings buf with
    | some contents =>
      if ∀ r ∈ s.sending, r.1 ≠ t then
        some (if s.conn.state = .kConnected then
          { s with sending := (t, buf, contents) :: s.sending } else s)
      else none
    | none => none
  | .queueInLoop t buf contents =>
    if (t, buf, contents) ∈ s.sending then
      some { s with
        conn := s.conn.queueInLoop (.sendInLoop (buf, contents.length))
        sending := s.sending.erase (t, buf, contents)
        messages := s.messages ++ [contents] }
    else none
  | .change buf contents =>
    if ∀ r ∈ s.sending, r.2.1 ≠ buf then
      some { s with strings := Function.update s.strings buf contents }
    else none
  | .call w stale =>
    match s.conn.functors with
    | .sendInLoop d :: rest =>
      if (s.found stale d).length = d.2 ∧ w.fits (s.found stale d) then
        some { s with
          conn := (s.conn.withFunctors rest).runFunctor w (s.found stale) (.sendInLoop d)
          executed := s.executed + 1 }
      else none
    | f :: rest => some { s with conn := (s.conn.withFunctors rest).runFunctor w (s.found stale) f }
    | [] => none
  | .handleWrite w =>
    if w.fits s.conn.outputBuffer.readable then some { s with conn := s.conn.handleWrite w } else none

end Step

def machine (T P : Type) [DecidableEq T] [DecidableEq P] :
    Machine (CallerStrings T P) (CallerStep T P) where
  start s := ∃ writeComplete highWater mark strings,
    s = ⟨(TcpConnection.new writeComplete highWater mark).connectEstablished, strings, [], [], 0⟩
  step := step

def Leaves (s : CallerStrings T P) : CallerStep T P → Prop
  | .change buf contents => ∀ len, .sendInLoop (buf, len) ∈ s.conn.functors →
      (contents.getD []).take len = ((s.strings buf).getD []).take len
  | _ => True

def Delivered (s : CallerStrings T P) : Prop :=
  accepted s.conn.calls ++ s.conn.outputBuffer.readable = (s.messages.take s.executed).flatten

def Refers (s : CallerStrings T P) (d : P × Nat) (message : List UInt8) : Prop :=
  ((s.strings d.1).getD []).take d.2 = message ∧ d.2 = message.length

end CallerStrings

def sends {D : Type} (functors : List (Functor D)) : List D := functors.filterMap Functor.data?

def Functor.isOutput {D : Type} : Functor D → Bool
  | .sendInLoop _ => true
  | f => f.isCallback

theorem sends_of_callbacks {D : Type} {functors : List (Functor D)}
    (callbacks : functors.all Functor.isCallback = true) : sends functors = [] := by
  refine List.filterMap_eq_nil_iff.mpr fun f its => ?_
  have such := List.all_eq_true.mp callbacks f its
  match f with
  | .writeCompleteCallback | .highWaterMarkCallback _ => rfl

theorem sends_append {D : Type} (functors more : List (Functor D)) :
    sends (functors ++ more) = sends functors ++ sends more := List.filterMap_append

theorem mem_sends {D : Type} {functors : List (Functor D)} {d : D} :
    d ∈ sends functors ↔ .sendInLoop d ∈ functors := by
  rw [sends, List.mem_filterMap]
  constructor
  · rintro ⟨f, its, same⟩
    match f with
    | .sendInLoop e => exact Option.some.inj same ▸ its
  · exact fun its => ⟨_, its, rfl⟩

namespace CallerStrings
variable {T P : Type}

structure Kept (s : CallerStrings T P) : Prop where
  stream : s.conn.Stream (s.messages.take s.executed).flatten
  output : ∀ f ∈ s.conn.functors, f.isOutput = true
  queue : List.Forall₂ s.Refers (sends s.conn.functors) (s.messages.drop s.executed)
  sending : ∀ r ∈ s.sending, s.strings r.2.1 = some r.2.2
  few : s.executed ≤ s.messages.length

variable {s s' : CallerStrings T P} {d : P × Nat} {stale message : List UInt8} {w : WriteResult}

theorem Refers.found (refers : s.Refers d message) : s.found stale d = message := by
  obtain ⟨same, length⟩ := refers
  have enough : d.2 ≤ ((s.strings d.1).getD []).length := by
    rw [length, ← same, List.length_take]
    exact Nat.min_le_right _ _
  rw [CallerStrings.found, List.take_append_of_le_length enough, same]

theorem Kept.conn (kept : s.Kept) {c : TcpConnection (P × Nat)} {executed : Nat}
    (stream : c.Stream (s.messages.take executed).flatten)
    {functors : List (Functor (P × Nat))} (callbacks : (s.conn.withFunctors functors).Calls c)
    (within : ∀ f ∈ functors, f ∈ s.conn.functors)
    (queue : List.Forall₂ s.Refers (sends functors) (s.messages.drop executed))
    (few : executed ≤ s.messages.length) :
    Kept { s with conn := c, executed := executed } := by
  obtain ⟨more, these, callbacks⟩ := callbacks
  have these : c.functors = functors ++ more := these
  refine ⟨stream, fun f its => ?_, ?_, kept.sending, few⟩
  · rcases List.mem_append.mp (these ▸ its) with old | new
    · exact kept.output f (within f old)
    · have such := List.all_eq_true.mp callbacks f new
      match f with
      | .writeCompleteCallback | .highWaterMarkCallback _ => rfl
  · show List.Forall₂ s.Refers (sends c.functors) _
    rw [these, sends_append, sends_of_callbacks callbacks, List.append_nil]
    exact queue

theorem Kept.queueInLoop [DecidableEq T] [DecidableEq P] (kept : s.Kept) {t : T} {buf : P}
    (running : (t, buf, message) ∈ s.sending) :
    Kept { s with
      conn := s.conn.queueInLoop (.sendInLoop (buf, message.length))
      sending := s.sending.erase (t, buf, message)
      messages := s.messages ++ [message] } := by
  have same : (s.messages ++ [message]).take s.executed = s.messages.take s.executed :=
    List.take_append_of_le_length kept.few
  have stream := kept.stream
  rw [← same] at stream
  refine ⟨⟨stream.reading, stream.added, stream.stream, stream.writing⟩, fun f its => ?_, ?_,
    fun r its => kept.sending r (List.mem_of_mem_erase its), ?_⟩
  · rcases List.mem_append.mp its with old | new
    · exact kept.output f old
    · exact List.mem_singleton.mp new ▸ rfl
  · show List.Forall₂ s.Refers (sends (s.conn.functors ++ [_])) ((s.messages ++ [message]).drop _)
    rw [sends_append, List.drop_append_of_le_length kept.few]
    refine List.rel_append kept.queue (.cons ⟨?_, rfl⟩ .nil)
    show ((s.strings buf).getD []).take message.length = message
    rw [kept.sending _ running]
    exact List.take_length
  · rw [List.length_append]
    exact Nat.le_add_right_of_le kept.few

theorem take_drop_cons {α : Type} {l rest : List α} {n : Nat} {x : α} (front : l.drop n = x :: rest) :
    l.take (n + 1) = l.take n ++ [x] ∧ l.drop (n + 1) = rest ∧ n + 1 ≤ l.length := by
  have inside : n < l.length := by
    refine Nat.lt_of_not_le fun short => ?_
    rw [List.drop_eq_nil_of_le short] at front
    cases front
  obtain ⟨first, others⟩ := List.cons.inj ((List.drop_eq_getElem_cons inside).symm.trans front)
  exact ⟨first ▸ List.take_succ_eq_append_getElem inside, others, inside⟩

theorem Kept.call (kept : s.Kept) {rest : List (Functor (P × Nat))}
    (first : s.conn.functors = .sendInLoop d :: rest) (fits : w.fits (s.found stale d) = true) :
    Kept { s with
      conn := (s.conn.withFunctors rest).sendInLoop (s.found stale d) w
      executed := s.executed + 1 } := by
  have queue := kept.queue
  rw [first] at queue
  obtain ⟨message, waiting, refers, others, front⟩ := List.forall₂_cons_left_iff.mp queue
  obtain ⟨taken, left, few⟩ := take_drop_cons front
  have stream := (kept.stream.withFunctors rest).sendInLoop fits
  have together : (s.messages.take s.executed).flatten ++ s.found stale d =
      (s.messages.take (s.executed + 1)).flatten := by
    rw [taken, List.flatten_append, List.flatten_singleton, refers.found]
  exact kept.conn (together ▸ stream) (TcpConnection.sendInLoop_callbacks ..)
    (fun f its => first ▸ List.mem_cons_of_mem _ its) (left.symm ▸ others) few

theorem Kept.change [DecidableEq P] (kept : s.Kept) {buf : P} {contents : Option (List UInt8)}
    (apart : ∀ r ∈ s.sending, r.2.1 ≠ buf)
    (leaves : ∀ len, .sendInLoop (buf, len) ∈ s.conn.functors →
      (contents.getD []).take len = ((s.strings buf).getD []).take len) :
    Kept { s with strings := Function.update s.strings buf contents } := by
  refine ⟨kept.stream, kept.output, ?_, fun r its => ?_, kept.few⟩
  · refine ((List.forall₂_and_left _ _).mpr ⟨fun d its => mem_sends.mp its, kept.queue⟩).imp ?_
    rintro ⟨p, len⟩ message ⟨its, same, length⟩
    refine ⟨?_, length⟩
    show ((Function.update s.strings buf contents p).getD []).take len = message
    by_cases here : p = buf
    · subst here
      rw [Function.update_self]
      exact (leaves len its).trans same
    · rw [Function.update_of_ne here]
      exact same
  · exact (Function.update_of_ne (apart r its) ..).trans (kept.sending r its)

theorem step_kept [DecidableEq T] [DecidableEq P] {a : CallerStep T P} (kept : s.Kept)
    (leaves : s.Leaves a) (next : step s a = some s') : s'.Kept := by
  cases a with
  | send t buf =>
    simp only [step] at next
    split at next
    · rename_i contents here
      obtain ⟨-, same⟩ := Option.ite_none_right_eq_some.mp next
      obtain rfl := Option.some.inj same
      split
      · exact { kept with sending := List.forall_mem_cons.mpr ⟨here, kept.sending⟩ }
      · exact kept
    · cases next
  | queueInLoop t buf contents =>
    obtain ⟨running, same⟩ := Option.ite_none_right_eq_some.mp next
    exact Option.some.inj same ▸ kept.queueInLoop running
  | change buf contents =>
    obtain ⟨apart, same⟩ := Option.ite_none_right_eq_some.mp next
    exact Option.some.inj same ▸ kept.change apart leaves
  | call w stale =>
    simp only [step] at next
    split at next
    · rename_i d rest first
      obtain ⟨⟨-, fits⟩, same⟩ := Option.ite_none_right_eq_some.mp next
      exact Option.some.inj same ▸ kept.call first fits
    · rename_i f rest other first
      obtain rfl := Option.some.inj next
      -- Only callbacks stand in the queue beside the sends.
      have output := kept.output f (first ▸ List.mem_cons_self)
      have queue : List.Forall₂ s.Refers (sends rest) (s.messages.drop s.executed) := by
        have queue := kept.queue
        rw [first] at queue
        match f with
        | .writeCompleteCallback | .highWaterMarkCallback _ => exact queue
        | .sendInLoop d => exact absurd rfl (other d)
      have same : (s.conn.withFunctors rest).runFunctor w (s.found stale) f =
          s.conn.withFunctors rest := by
        match f with
        | .writeCompleteCallback | .highWaterMarkCallback _ => rfl
        | .sendInLoop d => exact absurd rfl (other d)
      rw [same]
      exact kept.conn (kept.stream.withFunctors rest) (.refl _)
        (fun f its => first ▸ List.mem_cons_of_mem _ its) queue kept.few
    · cases next
  | handleWrite w =>
    obtain ⟨-, same⟩ := Option.ite_none_right_eq_some.mp next
    exact Option.some.inj same ▸ kept.conn kept.stream.handleWrite
      (TcpConnection.handleWrite_callbacks s.conn w) (fun _ => id) kept.queue kept.few

/-- Where no string changes under a queued functor, what goes out is what the sends were called with,
in the order of their queueing. -/
theorem sends_delivered [DecidableEq T] [DecidableEq P] (reach : Reach (machine T P) Leaves s) :
    s.Delivered := by
  have kept : s.Kept := by
    refine reach.invariant (P := Kept) ?_ fun s a s' kept leaves next => step_kept kept leaves next
    rintro s ⟨writeComplete, highWater, mark, strings, rfl⟩
    have empty := Buffer.readable_new kInitialSize
    exact ⟨⟨rfl, rfl, empty, iff_of_false nofun fun some => some empty⟩, nofun, .nil, nofun,
      Nat.le_refl _⟩
  exact kept.stream.stream

instance (s : CallerStrings T P) [DecidableEq P] (a : CallerStep T P) : Decidable (s.Leaves a) :=
  match a with
  | .change buf contents => decidable_of_iff (∀ f ∈ s.conn.functors, ∀ d ∈ f.data?, d.1 = buf →
      (contents.getD []).take d.2 = ((s.strings buf).getD []).take d.2) <| by
    constructor
    · exact fun all len its => all _ its _ rfl rfl
    · rintro all f its ⟨p, len⟩ d rfl
      match f with
      | .sendInLoop _ =>
        obtain rfl := Option.some.inj d
        exact all len its
  | .send _ _ | .queueInLoop _ _ _ | .call _ _ | .handleWrite _ => isTrue trivial

def begin : CallerStrings Unit Bool :=
  ⟨(TcpConnection.new true false 64).connectEstablished, fun p => some (if p then [1, 2] else [3]),
    [], [], 0⟩

def overwrites : List (CallerStep Unit Bool) :=
  [.send () true, .queueInLoop () true [1, 2], .change true (some [4, 5]), .call (.accepted 2) []]

theorem overwritten_string_goes_out :
    ∃ s, Reachable (machine Unit Bool) s ∧ s.messages = [[1, 2]] ∧ accepted s.conn.calls = [4, 5] ∧
      ¬ s.Delivered := by
  have ran : (exec (machine Unit Bool) begin overwrites).any (fun s => s.messages = [[1, 2]] ∧
      accepted s.conn.calls = [4, 5] ∧ accepted s.conn.calls ++ s.conn.outputBuffer.readable ≠
        (s.messages.take s.executed).flatten) = true := by
    decide +kernel
  obtain ⟨s, done, facts⟩ := (Option.any_eq_true _ _).mp ran
  obtain ⟨messages, out, differ⟩ := of_decide_eq_true facts
  exact ⟨s, Reach.exec (.start ⟨true, false, 64, _, rfl⟩) done, messages, out, differ⟩

/-- Two sends wait, the first string changes after its functor has run. -/
def waits : List (CallerStep Unit Bool) :=
  [.send () true, .queueInLoop () true [1, 2], .send () false, .queueInLoop () false [3],
    .call (.accepted 1) [], .change true none, .call (.accepted 0) [], .handleWrite (.accepted 2)]

theorem sends_delivered_waits :
    ∃ s, execWhere (machine Unit Bool) Leaves begin waits = some s ∧ s.messages = [[1, 2], [3]] ∧
      s.executed = 2 ∧ s.Delivered := by
  have ran : (execWhere (machine Unit Bool) Leaves begin waits).any (fun s =>
      s.messages = [[1, 2], [3]] ∧ s.executed = 2) = true := by
    decide +kernel
  obtain ⟨s, done, facts⟩ := (Option.any_eq_true _ _).mp ran
  obtain ⟨messages, executed⟩ := of_decide_eq_true facts
  exact ⟨s, done, messages, executed,
    sends_delivered ((Reach.start (M := machine Unit Bool) ⟨true, false, 64, _, rfl⟩).execWhere done)⟩

end CallerStrings

end ProjectsCpp.Muduo
