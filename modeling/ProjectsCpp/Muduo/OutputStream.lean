import ProjectsCpp.Muduo.TcpConnection

/-! The output of a connection: what the kernel accepted, then what waits in the output buffer, is
what was sent. -/

namespace ProjectsCpp.Muduo
open ProjectsCpp.Run

def Call.isAccepted : Call → Bool
  | .write _ (.accepted _) => true
  | _ => false

/-- The calls of the part of `sendInLoop` that works on the output buffer. -/
def Call.isBuffering : Call → Bool
  | .append _ | .epollCtl _ => true
  | _ => false

def Functor.isWriteComplete {D : Type} : Functor D → Bool
  | .writeCompleteCallback => true
  | _ => false

/-- The functors that `sendInLoop` and `handleWrite` queue. -/
def Functor.isCallback {D : Type} : Functor D → Bool
  | .writeCompleteCallback | .highWaterMarkCallback _ => true
  | _ => false

def Functor.data? {D : Type} : Functor D → Option D
  | .sendInLoop d => some d
  | _ => none

/-- What `write` answers for `data` where nothing goes wrong. -/
def WriteResult.fits (w : WriteResult) (data : List UInt8) : Bool :=
  match w with
  | .accepted n => n ≤ data.length
  | .failed errno => errno = .EWOULDBLOCK

@[simp] theorem accepted_append (calls more : List Call) :
    accepted (calls ++ more) = accepted calls ++ accepted more := List.flatMap_append

theorem accepted_of_none {calls : List Call} (none : calls.any Call.isAccepted = false) :
    accepted calls = [] := by
  refine List.flatMap_eq_nil_iff.mpr fun call its => ?_
  have quiet := List.any_eq_false.mp none call its
  match call with
  | .write _ (.accepted _) => exact absurd rfl quiet
  | .write _ (.failed _) | .append _ | .epollCtl _ | .shutdownWrite | .setState _
  | .connectionCallback _ | .messageCallback | .closeCallback => rfl

theorem none_accepted {calls : List Call} (buffering : calls.all Call.isBuffering = true) :
    calls.any Call.isAccepted = false := by
  refine List.any_eq_false.mpr fun call its => ?_
  have such := List.all_eq_true.mp buffering call its
  match call with
  | .append _ | .epollCtl _ => exact Bool.false_ne_true

theorem Channel.updateChannel_reading {ch : Channel} (added : ch.index = .kAdded)
    (reading : ch.reading = true) : ch.updateChannel = (.mod, ch) := by
  rw [updateChannel, added]
  show (if ch.isNoneEvent then _ else _) = _
  rw [isNoneEvent, reading]
  rfl

namespace TcpConnection
variable {D : Type} {c c' : TcpConnection D} {data rest : List UInt8} {w : WriteResult}
  {sent : List UInt8}

/-- A successful `write` of a step from `c` to `c'` leaves no pending output. -/
def flushes (c c' : TcpConnection D) : Bool :=
  c'.outputBuffer.readable.isEmpty && (c'.calls.drop c.calls.length).any Call.isAccepted

/-- How often `writeCompleteCallback_` was queued. -/
def completions (c : TcpConnection D) : Nat := c.functors.countP Functor.isWriteComplete

structure Stream (c : TcpConnection D) (sent : List UInt8) : Prop where
  reading : c.channel.reading = true
  added : c.channel.index = .kAdded
  stream : accepted c.calls ++ c.outputBuffer.readable = sent
  writing : c.channel.writing = true ↔ c.outputBuffer.readable ≠ []

/-- A step from `c` to `c'` that calls no `write` puts `rest` into the output buffer. -/
structure Buffers (c c' : TcpConnection D) (rest : List UInt8) : Prop where
  state : c'.state = c.state
  callback : c'.writeCompleteCallback = c.writeCompleteCallback
  readable : c'.outputBuffer.readable = c.outputBuffer.readable ++ rest
  calls : ∃ more, c'.calls = c.calls ++ more ∧ more.all Call.isBuffering = true
  functors : ∃ more, c'.functors = c.functors ++ more ∧ ∀ f ∈ more, ∃ len,
    f = .highWaterMarkCallback len
  channel : c.channel.reading = true → c.channel.index = .kAdded →
    c'.channel = { c.channel with writing := c.channel.writing || !rest.isEmpty }

theorem readableBytes_eq_zero : c.outputBuffer.readableBytes = 0 ↔ c.outputBuffer.readable = [] := by
  rw [← Buffer.readable_length, List.length_eq_zero_iff]

theorem Buffers.refl (c : TcpConnection D) : Buffers c c [] := by
  refine ⟨rfl, rfl, (List.append_nil _).symm, ⟨[], (List.append_nil _).symm, rfl⟩,
    ⟨[], (List.append_nil _).symm, nofun⟩, fun _ _ => ?_⟩
  show c.channel = { c.channel with writing := c.channel.writing || false }
  rw [Bool.or_false]

theorem checkMark_spec (c : TcpConnection D) (remaining : Nat) :
    Buffers c (c.checkMark remaining) [] := by
  rw [checkMark]
  split
  · have same := Buffers.refl c
    exact { same with functors := ⟨_, rfl, fun f its => ⟨_, List.mem_singleton.mp its⟩⟩ }
  · exact .refl c

theorem watchOutput_spec (c : TcpConnection D) (b : UInt8) (bs : List UInt8) :
    Buffers c ({ c with outputBuffer := c.outputBuffer.append (b :: bs) }.call
      (.append (b :: bs))).watchOutput (b :: bs) := by
  have same := Buffers.refl c
  rw [watchOutput]
  split
  · refine { same with
      readable := Buffer.readable_append _ _
      calls := ⟨[.append (b :: bs), .epollCtl _], List.append_assoc _ _ _, rfl⟩
      channel := fun reading added => ?_ }
    have still : { c.channel with writing := true }.updateChannel =
        (.mod, { c.channel with writing := true }) := Channel.updateChannel_reading added reading
    show Prod.snd (Channel.updateChannel { c.channel with writing := true }) = _
    rw [still]
    show _ = { c.channel with writing := c.channel.writing || true }
    rw [Bool.or_true]
  · rename_i writing
    refine { same with
      readable := Buffer.readable_append _ _
      calls := ⟨[.append (b :: bs)], rfl, rfl⟩
      channel := fun _ _ => ?_ }
    have writing : c.channel.writing = true := not_not.mp writing
    show c.channel = { c.channel with writing := c.channel.writing || true }
    rw [Bool.or_true, ← writing]

theorem Buffers.trans {c'' : TcpConnection D} {more : List UInt8} (first : Buffers c c' rest)
    (second : Buffers c' c'' more) : Buffers c c'' (rest ++ more) := by
  obtain ⟨calls₁, these₁, quiet₁⟩ := first.calls
  obtain ⟨calls₂, these₂, quiet₂⟩ := second.calls
  obtain ⟨functors₁, those₁, marks₁⟩ := first.functors
  obtain ⟨functors₂, those₂, marks₂⟩ := second.functors
  exact {
    state := second.state.trans first.state
    callback := second.callback.trans first.callback
    readable := by rw [second.readable, first.readable, List.append_assoc]
    calls := ⟨calls₁ ++ calls₂, by rw [these₂, these₁, List.append_assoc],
      by rw [List.all_append, quiet₁, quiet₂]; rfl⟩
    functors := ⟨functors₁ ++ functors₂, by rw [those₂, those₁, List.append_assoc],
      fun f its => (List.mem_append.mp its).elim (marks₁ f) (marks₂ f)⟩
    channel := fun reading added => by
      have same := first.channel reading added
      rw [second.channel (by rw [same]; exact reading) (by rw [same]; exact added), same]
      cases rest with
      | nil => rw [List.nil_append, List.isEmpty_nil, Bool.not_true, Bool.or_false]
      | cons b bs => rw [List.cons_append, List.isEmpty_cons, List.isEmpty_cons, Bool.not_false,
          Bool.or_true, Bool.true_or] }

theorem appendOutput_spec (c : TcpConnection D) (rest : List UInt8) :
    Buffers c (c.appendOutput rest) rest := by
  rw [appendOutput]
  cases rest with
  | nil => exact .refl c
  | cons b bs => exact (c.checkMark_spec _).trans (watchOutput_spec _ b bs)

theorem sendInLoop_cases (c : TcpConnection D) (data : List UInt8) (w : WriteResult) :
    (c.channel.writing = false ∧ c.outputBuffer.readable = [] ∧ ∃ n, w = .accepted n ∧
      Buffers (if data.length - n = 0 then (c.call (.write data w)).queueWriteComplete
        else c.call (.write data w)) (c.sendInLoop data w) (data.drop n)) ∨
    (c.channel.writing = false ∧ c.outputBuffer.readable = [] ∧ ∃ errno, w = .failed errno ∧
      if errno = .EPIPE ∨ errno = .ECONNRESET then c.sendInLoop data w = c.call (.write data w)
      else Buffers (c.call (.write data w)) (c.sendInLoop data w) data) ∨
    ((c.channel.writing = true ∨ c.outputBuffer.readable ≠ []) ∧
      Buffers c (c.sendInLoop data w) data) := by
  rw [sendInLoop]
  split
  · rename_i free
    have direct : c.channel.writing = false := Bool.eq_false_iff.mpr free.1
    have empty := readableBytes_eq_zero.mp free.2
    match w with
    | .accepted n => exact .inl ⟨direct, empty, n, rfl, appendOutput_spec _ _⟩
    | .failed errno =>
      refine .inr (.inl ⟨direct, empty, errno, rfl, ?_⟩)
      split
      · rename_i fatal
        exact if_pos fatal
      · rename_i gentle
        show Buffers _ (if _ then _ else _) data
        rw [if_neg gentle]
        exact appendOutput_spec _ _
  · rename_i busy
    refine .inr (.inr ⟨?_, c.appendOutput_spec data⟩)
    rw [not_and_or, readableBytes_eq_zero] at busy
    exact busy.imp_left not_not.mp

theorem handleWrite_cases (c : TcpConnection D) (w : WriteResult) :
    (c.channel.writing = false ∧ c.handleWrite w = c) ∨
    (c.channel.writing = true ∧ (∀ n, w = .accepted n → n = 0) ∧
      c.handleWrite w = c.call (.write c.outputBuffer.readable w)) ∨
    (c.channel.writing = true ∧ ∃ n, w = .accepted n ∧ 0 < n ∧
      if c.outputBuffer.readable.drop n = [] then
        c.handleWrite w = ({ c with outputBuffer := c.outputBuffer.retrieve n }.call
          (.write c.outputBuffer.readable w)).outputDone
      else c.handleWrite w = { c with outputBuffer := c.outputBuffer.retrieve n }.call
          (.write c.outputBuffer.readable w)) := by
  rw [handleWrite]
  split
  · rename_i writing
    match w with
    | .accepted 0 => exact .inr (.inl ⟨writing, fun n same => (WriteResult.accepted.inj same).symm, rfl⟩)
    | .accepted (n + 1) =>
      refine .inr (.inr ⟨writing, n + 1, rfl, Nat.succ_pos n, ?_⟩)
      rw [← c.outputBuffer.readable_retrieve (n + 1)]
      split
      · rename_i all
        exact if_pos (readableBytes_eq_zero (c := { c with outputBuffer := _ }).mpr all)
      · rename_i part
        exact if_neg fun all =>
          part (readableBytes_eq_zero (c := { c with outputBuffer := _ }).mp all)
    | .failed errno => exact .inr (.inl ⟨writing, nofun, rfl⟩)
  · rename_i idle
    exact .inl ⟨Bool.eq_false_iff.mpr idle, rfl⟩

theorem Stream.buffers (its : Stream c sent) (buffers : Buffers c c' rest) :
    Stream c' (sent ++ rest) := by
  have channel := buffers.channel its.reading its.added
  obtain ⟨more, calls, buffering⟩ := buffers.calls
  refine ⟨channel ▸ its.reading, channel ▸ its.added, ?_, ?_⟩
  · rw [calls, accepted_append, accepted_of_none (none_accepted buffering), List.append_nil,
      buffers.readable, ← List.append_assoc, its.stream]
  · rw [channel, buffers.readable]
    show (c.channel.writing || !rest.isEmpty) = true ↔ _
    rw [Bool.or_eq_true, its.writing]
    cases rest with
    | nil => simp
    | cons b bs => simp

theorem Stream.withFunctors (its : Stream c sent) (functors : List (Functor D)) :
    Stream (c.withFunctors functors) sent :=
  ⟨its.reading, its.added, its.stream, its.writing⟩

theorem Stream.queueWriteComplete (its : Stream c sent) : Stream c.queueWriteComplete sent := by
  rw [TcpConnection.queueWriteComplete]
  split
  · exact ⟨its.reading, its.added, its.stream, its.writing⟩
  · exact its

theorem Stream.call {a : Call} (its : Stream c sent) (silent : accepted [a] = []) :
    Stream (c.call a) sent := by
  refine ⟨its.reading, its.added, ?_, its.writing⟩
  show accepted (c.calls ++ [a]) ++ _ = _
  rw [accepted_append, silent, List.append_nil]
  exact its.stream

theorem Stream.setState (its : Stream c sent) (state : StateE) : Stream (c.setState state) sent :=
  Stream.call (c := { c with state := state }) ⟨its.reading, its.added, its.stream, its.writing⟩ rfl

theorem Stream.write {n : Nat} (its : Stream c sent) (empty : c.outputBuffer.readable = []) :
    Stream (c.call (.write data (.accepted n))) (sent ++ data.take n) := by
  refine ⟨its.reading, its.added, ?_, its.writing⟩
  show accepted (c.calls ++ [.write data (.accepted n)]) ++ c.outputBuffer.readable = _
  have stream := its.stream
  rw [empty, List.append_nil] at stream
  rw [empty, List.append_nil, accepted_append, stream]
  exact congrArg (sent ++ ·) (List.append_nil _)

theorem Stream.sendInLoop (its : Stream c sent) (fits : w.fits data = true) :
    Stream (c.sendInLoop data w) (sent ++ data) := by
  obtain ⟨-, empty, n, rfl, buffers⟩ | ⟨-, -, errno, rfl, refused⟩ | ⟨-, buffers⟩ :=
    sendInLoop_cases c data w
  · rw [← List.take_append_drop n data, ← List.append_assoc]
    refine Stream.buffers ?_ (by rwa [List.take_append_drop])
    split
    · exact (its.write empty).queueWriteComplete
    · exact its.write empty
  · obtain rfl : errno = .EWOULDBLOCK := of_decide_eq_true fits
    exact (its.call (List.append_nil _)).buffers refused
  · exact its.buffers buffers

theorem Stream.shutdownInLoop (its : Stream c sent) : Stream c.shutdownInLoop sent := by
  rw [TcpConnection.shutdownInLoop]
  split
  · exact its.call rfl
  · exact its

theorem Stream.disableWriting (reading : c.channel.reading = true)
    (added : c.channel.index = .kAdded)
    (stream : accepted c.calls = sent) (empty : c.outputBuffer.readable = []) :
    Stream c.disableWriting sent := by
  have still : { c.channel with writing := false }.updateChannel =
      (.mod, { c.channel with writing := false }) := Channel.updateChannel_reading added reading
  rw [TcpConnection.disableWriting, update]
  simp only [still]
  refine ⟨reading, added, ?_, ?_⟩
  · show accepted (c.calls ++ [_]) ++ c.outputBuffer.readable = _
    rw [empty, List.append_nil, accepted_append, stream]
    exact List.append_nil _
  · exact ⟨nofun, fun some => absurd empty some⟩

theorem Stream.took (its : Stream c sent) (n : Nat) :
    accepted (c.calls ++ [.write c.outputBuffer.readable (.accepted n)]) ++
      c.outputBuffer.readable.drop n = sent := by
  have one : accepted [.write c.outputBuffer.readable (.accepted n)] =
      c.outputBuffer.readable.take n := List.append_nil _
  rw [accepted_append, one, List.append_assoc, List.take_append_drop]
  exact its.stream

/-- A connection whose buffer `handleWrite` takes whole, before it may shut down. -/
def drained (c : TcpConnection D) (n : Nat) : TcpConnection D :=
  ({ c with outputBuffer := c.outputBuffer.retrieve n }.call
    (.write c.outputBuffer.readable (.accepted n))).disableWriting.queueWriteComplete

theorem Stream.drained {n : Nat} (its : Stream c sent) (all : c.outputBuffer.readable.drop n = []) :
    Stream (c.drained n) sent := by
  have stream := its.took n
  rw [all, List.append_nil] at stream
  exact (Stream.disableWriting (c := { c with outputBuffer := c.outputBuffer.retrieve n }.call
    (.write c.outputBuffer.readable (.accepted n))) its.reading its.added stream
    (all ▸ c.outputBuffer.readable_retrieve n)).queueWriteComplete

theorem Stream.handleWrite (its : Stream c sent) : Stream (c.handleWrite w) sent := by
  obtain ⟨-, same⟩ | ⟨-, nothing, same⟩ | ⟨writing, n, rfl, -, same⟩ := handleWrite_cases c w
  · rwa [same]
  · rw [same]
    refine its.call ?_
    match w with
    | .accepted n =>
      rw [nothing n rfl]
      rfl
    | .failed errno => rfl
  · split at same
    · rename_i all
      rw [same, outputDone]
      split
      · exact (its.drained all).shutdownInLoop
      · exact its.drained all
    · rename_i part
      rw [same]
      have readable := c.outputBuffer.readable_retrieve n
      refine ⟨its.reading, its.added, (by rw [← its.took n, ← readable]; rfl), ?_⟩
      show c.channel.writing = true ↔ (c.outputBuffer.retrieve n).readable ≠ []
      rw [readable]
      exact iff_of_true writing part

theorem Buffers.completions (buffers : Buffers c c' rest) : c'.completions = c.completions := by
  obtain ⟨more, functors, marks⟩ := buffers.functors
  have none : more.countP Functor.isWriteComplete = 0 := List.countP_eq_zero.mpr fun f its => by
    obtain ⟨len, rfl⟩ := marks f its
    exact Bool.false_ne_true
  rw [TcpConnection.completions, functors, List.countP_append, none, Nat.add_zero]
  rfl

theorem completions_queueWriteComplete (c : TcpConnection D) :
    c.queueWriteComplete.completions = c.completions + if c.writeCompleteCallback then 1 else 0 := by
  rw [queueWriteComplete]
  split
  · exact List.countP_append
  · rfl

theorem flushes_write (data : List UInt8) (w : WriteResult) {more : List Call}
    (calls : c'.calls = c.calls ++ [.write data w] ++ more)
    (quiet : more.any Call.isAccepted = false) :
    c.flushes c' = (c'.outputBuffer.readable.isEmpty && Call.isAccepted (.write data w)) := by
  rw [flushes, calls, List.append_assoc, List.drop_left, List.singleton_append, List.any_cons,
    quiet, Bool.or_false]

theorem flushes_quiet {more : List Call} (calls : c'.calls = c.calls ++ more)
    (quiet : more.any Call.isAccepted = false) : c.flushes c' = false := by
  rw [flushes, calls, List.drop_left, quiet, Bool.and_false]

theorem calls_queueWriteComplete (c : TcpConnection D) : c.queueWriteComplete.calls = c.calls := by
  rw [queueWriteComplete]
  split <;> rfl

theorem readable_queueWriteComplete (c : TcpConnection D) :
    c.queueWriteComplete.outputBuffer.readable = c.outputBuffer.readable := by
  rw [queueWriteComplete]
  split <;> rfl

theorem sendInLoop_completions (c : TcpConnection D) (data : List UInt8) (w : WriteResult) :
    (c.sendInLoop data w).completions = c.completions +
      if c.writeCompleteCallback && c.flushes (c.sendInLoop data w) then 1 else 0 := by
  obtain ⟨-, empty, n, rfl, buffers⟩ | ⟨-, -, errno, rfl, refused⟩ | ⟨-, buffers⟩ :=
    sendInLoop_cases c data w
  · have readable := buffers.readable
    obtain ⟨more, calls, buffering⟩ := buffers.calls
    have quiet := none_accepted buffering
    rw [buffers.completions]
    by_cases all : data.length - n = 0
    · rw [if_pos all] at calls readable ⊢
      rw [calls_queueWriteComplete] at calls
      rw [readable_queueWriteComplete] at readable
      have rest : data.drop n = [] := List.drop_eq_nil_of_le (Nat.sub_eq_zero_iff_le.mp all)
      have readable : (c.sendInLoop data (.accepted n)).outputBuffer.readable = [] := by
        rw [readable, rest, List.append_nil]
        exact empty
      rw [completions_queueWriteComplete, flushes_write data _ calls quiet, readable]
      show c.completions + _ = _
      rw [List.isEmpty_nil, Bool.true_and, show Call.isAccepted (.write data (.accepted n)) = true
        from rfl, Bool.and_true]
      rfl
    · rw [if_neg all] at calls readable ⊢
      have rest : data.drop n ≠ [] := fun rest => all (by
        rw [← List.length_drop, rest]
        rfl)
      have readable : (c.sendInLoop data (.accepted n)).outputBuffer.readable.isEmpty = false := by
        rw [readable]
        show (c.outputBuffer.readable ++ data.drop n).isEmpty = false
        rw [empty, List.nil_append, List.isEmpty_eq_false_iff]
        exact rest
      rw [flushes_write data _ calls quiet, readable, Bool.false_and, Bool.and_false]
      rfl
  · have calls : ∃ more, (c.sendInLoop data (.failed errno)).calls =
        c.calls ++ [.write data (.failed errno)] ++ more ∧ more.any Call.isAccepted = false := by
      split at refused
      · exact ⟨[], by rw [refused, List.append_nil]; rfl, rfl⟩
      · obtain ⟨more, calls, buffering⟩ := refused.calls
        exact ⟨more, calls, none_accepted buffering⟩
    have same : (c.sendInLoop data (.failed errno)).completions = c.completions := by
      split at refused
      · rw [refused]
        rfl
      · exact refused.completions
    obtain ⟨more, calls, quiet⟩ := calls
    rw [same, flushes_write data _ calls quiet, show Call.isAccepted (.write data (.failed errno)) =
      false from rfl, Bool.and_false, Bool.and_false]
    rfl
  · obtain ⟨more, calls, buffering⟩ := buffers.calls
    rw [buffers.completions, flushes_quiet calls (none_accepted buffering), Bool.and_false]
    rfl

theorem shutdownInLoop_spec (c : TcpConnection D) :
    c.shutdownInLoop.functors = c.functors ∧
      c.shutdownInLoop.outputBuffer = c.outputBuffer ∧
      ∃ more, c.shutdownInLoop.calls = c.calls ++ more ∧ more.any Call.isAccepted = false := by
  rw [shutdownInLoop]
  split
  · exact ⟨rfl, rfl, [.shutdownWrite], rfl, rfl⟩
  · exact ⟨rfl, rfl, [], (List.append_nil _).symm, rfl⟩

theorem outputDone_spec (c : TcpConnection D) :
    c.outputDone.completions = c.completions + (if c.writeCompleteCallback then 1 else 0) ∧
      c.outputDone.outputBuffer = c.outputBuffer ∧
      ∃ more, c.outputDone.calls = c.calls ++ more ∧ more.any Call.isAccepted = false := by
  have completions := completions_queueWriteComplete c.disableWriting
  have calls := calls_queueWriteComplete c.disableWriting
  obtain ⟨op, disabled⟩ : ∃ op, c.disableWriting.calls = c.calls ++ [.epollCtl op] := ⟨_, rfl⟩
  have output : c.disableWriting.queueWriteComplete.outputBuffer = c.outputBuffer := by
    rw [queueWriteComplete]
    split <;> rfl
  rw [outputDone]
  split
  · obtain ⟨functors, buffer, more, shut, quiet⟩ :=
      c.disableWriting.queueWriteComplete.shutdownInLoop_spec
    refine ⟨?_, buffer.trans output, .epollCtl op :: more, ?_, quiet⟩
    · rw [TcpConnection.completions, functors]
      exact completions
    · rw [shut, calls, disabled, List.append_assoc, List.singleton_append]
  · exact ⟨completions, output, [.epollCtl op], calls.trans disabled, rfl⟩

theorem handleWrite_completions (c : TcpConnection D) (w : WriteResult)
    (some : c.channel.writing = true → c.outputBuffer.readable ≠ []) :
    (c.handleWrite w).completions = c.completions +
      if c.writeCompleteCallback && c.flushes (c.handleWrite w) then 1 else 0 := by
  obtain ⟨-, same⟩ | ⟨writing, -, same⟩ | ⟨-, n, rfl, -, same⟩ := handleWrite_cases c w
  · rw [same, flushes_quiet (List.append_nil _).symm rfl, Bool.and_false]
    rfl
  · have left : (c.handleWrite w).outputBuffer.readable.isEmpty = false := by
      rw [same, List.isEmpty_eq_false_iff]
      exact some writing
    rw [flushes_write c.outputBuffer.readable w (by rw [same]; exact (List.append_nil _).symm) rfl, left,
      Bool.false_and, Bool.and_false, same]
    rfl
  · split at same
    · rename_i all
      obtain ⟨completions, output, more, calls, quiet⟩ := outputDone_spec
        ({ c with outputBuffer := c.outputBuffer.retrieve n }.call
          (.write c.outputBuffer.readable (.accepted n)))
      have none : (c.handleWrite (.accepted n)).outputBuffer.readable = [] := by
        rw [same, output]
        exact (c.outputBuffer.readable_retrieve n).trans all
      rw [flushes_write c.outputBuffer.readable _ (by rw [same]; exact calls) quiet, none, same,
        completions, List.isEmpty_nil, Bool.true_and, show Call.isAccepted (.write _ (.accepted n)) =
          true from rfl, Bool.and_true]
      rfl
    · rename_i part
      have left : (c.handleWrite (.accepted n)).outputBuffer.readable.isEmpty = false := by
        rw [same, List.isEmpty_eq_false_iff]
        exact c.outputBuffer.readable_retrieve n ▸ part
      rw [flushes_write c.outputBuffer.readable _ (by rw [same]; exact (List.append_nil _).symm) rfl, left,
        Bool.false_and, Bool.and_false, same]
      rfl

theorem sendInLoop_frame (c : TcpConnection D) (data : List UInt8) (w : WriteResult) :
    (c.sendInLoop data w).state = c.state ∧ ∃ more, (c.sendInLoop data w).calls = c.calls ++ more ∧
      ∀ a ∈ more, a.isBuffering = true ∨ a = .write data w := by
  have behind : ∀ {b : TcpConnection D} {rest : List UInt8}, b.state = c.state →
      b.calls = c.calls ++ [.write data w] → Buffers b (c.sendInLoop data w) rest →
      (c.sendInLoop data w).state = c.state ∧ ∃ more, (c.sendInLoop data w).calls = c.calls ++ more ∧
        ∀ a ∈ more, a.isBuffering = true ∨ a = .write data w := fun state calls buffers => by
    obtain ⟨more, these, buffering⟩ := buffers.calls
    refine ⟨buffers.state.trans state, .write data w :: more,
      by rw [these, calls, List.append_assoc, List.singleton_append], fun a its => ?_⟩
    rcases List.mem_cons.mp its with write | its
    · exact .inr write
    · exact .inl (List.all_eq_true.mp buffering a its)
  obtain ⟨-, -, n, rfl, buffers⟩ | ⟨-, -, errno, rfl, refused⟩ | ⟨-, buffers⟩ :=
    sendInLoop_cases c data w
  · split at buffers
    · refine behind ?_ (calls_queueWriteComplete _) buffers
      rw [queueWriteComplete]
      split <;> rfl
    · exact behind (b := c.call (.write data (.accepted n))) rfl rfl buffers
  · split at refused
    · exact ⟨by rw [refused]; rfl, [_], by rw [refused]; rfl,
        fun a its => .inr (List.mem_singleton.mp its)⟩
    · exact behind (b := c.call (.write data (.failed errno))) rfl rfl refused
  · obtain ⟨more, calls, buffering⟩ := buffers.calls
    exact ⟨buffers.state, more, calls, fun a its => .inl (List.all_eq_true.mp buffering a its)⟩

def Calls (c c' : TcpConnection D) : Prop :=
  ∃ more, c'.functors = c.functors ++ more ∧ more.all Functor.isCallback = true

theorem Calls.refl (c : TcpConnection D) : Calls c c := ⟨[], (List.append_nil _).symm, rfl⟩

theorem Calls.trans {c'' : TcpConnection D} (first : Calls c c') (second : Calls c' c'') :
    Calls c c'' := by
  obtain ⟨functors₁, those₁, callbacks₁⟩ := first
  obtain ⟨functors₂, those₂, callbacks₂⟩ := second
  refine ⟨functors₁ ++ functors₂, by rw [those₂, those₁, List.append_assoc], ?_⟩
  rw [List.all_append, callbacks₁, callbacks₂]
  rfl

theorem Buffers.callbacks (buffers : Buffers c c' rest) : Calls c c' := by
  obtain ⟨more, functors, marks⟩ := buffers.functors
  refine ⟨more, functors, List.all_eq_true.mpr fun f its => ?_⟩
  obtain ⟨len, rfl⟩ := marks f its
  rfl

theorem queueWriteComplete_callbacks (c : TcpConnection D) : Calls c c.queueWriteComplete := by
  rw [queueWriteComplete]
  split
  · exact ⟨[.writeCompleteCallback], rfl, rfl⟩
  · exact .refl c

theorem sendInLoop_callbacks (c : TcpConnection D) (data : List UInt8) (w : WriteResult) :
    Calls c (c.sendInLoop data w) := by
  obtain ⟨-, -, n, rfl, buffers⟩ | ⟨-, -, errno, rfl, refused⟩ | ⟨-, buffers⟩ :=
    sendInLoop_cases c data w
  · split at buffers
    · exact (queueWriteComplete_callbacks (c.call (.write data (.accepted n)))).trans
        buffers.callbacks
    · exact buffers.callbacks
  · split at refused
    · exact refused ▸ .refl c
    · exact refused.callbacks
  · exact buffers.callbacks

theorem drained_frame (c : TcpConnection D) (n : Nat) :
    (c.drained n).state = c.state ∧ Calls c (c.drained n) ∧ ∃ op, (c.drained n).calls =
      c.calls ++ [Call.write c.outputBuffer.readable (.accepted n), Call.epollCtl op] := by
  refine ⟨?_, queueWriteComplete_callbacks _, _, (calls_queueWriteComplete _).trans
    (List.append_assoc _ _ _)⟩
  rw [drained, queueWriteComplete]
  split <;> rfl

theorem outputDone_callbacks (c : TcpConnection D) : Calls c c.outputDone := by
  have these := queueWriteComplete_callbacks c.disableWriting
  rw [outputDone]
  split
  · rw [Calls, (shutdownInLoop_spec _).1]
    exact these
  · exact these

theorem handleWrite_callbacks (c : TcpConnection D) (w : WriteResult) :
    Calls c (c.handleWrite w) := by
  obtain ⟨-, same⟩ | ⟨-, -, same⟩ | ⟨-, n, rfl, -, same⟩ := handleWrite_cases c w
  · exact same.symm ▸ .refl c
  · exact same ▸ .refl c
  · split at same
    · rw [same]
      exact outputDone_callbacks ({ c with outputBuffer := c.outputBuffer.retrieve n }.call
        (.write c.outputBuffer.readable (.accepted n)))
    · exact same ▸ .refl c

end TcpConnection

structure Output (D : Type) where
  conn : TcpConnection D
  sent : List UInt8
deriving DecidableEq

inductive OutputStep where
  | sendInLoop (data : List UInt8) (w : WriteResult)
  | handleWrite (w : WriteResult)

namespace Output
variable {D : Type} {o : Output D}

def step (o : Output D) : OutputStep → Option (Output D)
  | .sendInLoop data w =>
    if w.fits data then some ⟨o.conn.sendInLoop data w, o.sent ++ data⟩ else none
  | .handleWrite w =>
    if w.fits o.conn.outputBuffer.readable then some ⟨o.conn.handleWrite w, o.sent⟩ else none

def machine (D : Type) : Machine (Output D) OutputStep where
  start o := ∃ writeComplete highWater mark,
    o = ⟨(TcpConnection.new writeComplete highWater mark).connectEstablished, []⟩
  step := step

theorem stream_of_start (start : (machine D).start o) : o.conn.Stream o.sent := by
  obtain ⟨writeComplete, highWater, mark, rfl⟩ := start
  have empty := Buffer.readable_new kInitialSize
  exact ⟨rfl, rfl, empty, iff_of_false nofun fun some => some empty⟩

theorem step_stream {a : OutputStep} {o' : Output D} (its : o.conn.Stream o.sent)
    (next : step o a = some o') :
    o'.conn.Stream o'.sent ∧ o'.conn.completions = o.conn.completions +
      if o.conn.writeCompleteCallback && o.conn.flushes o'.conn then 1 else 0 := by
  cases a with
  | sendInLoop data w =>
    obtain ⟨fits, same⟩ := Option.ite_none_right_eq_some.mp next
    obtain rfl := Option.some.inj same
    exact ⟨its.sendInLoop fits, o.conn.sendInLoop_completions data w⟩
  | handleWrite w =>
    obtain ⟨-, same⟩ := Option.ite_none_right_eq_some.mp next
    obtain rfl := Option.some.inj same
    exact ⟨its.handleWrite, o.conn.handleWrite_completions w its.writing.mp⟩

/-- What the kernel accepted and what waits is what was sent, the channel waits to write where
something waits, and `writeCompleteCallback_` is queued by the steps that leave nothing. -/
theorem output_stream (reach : Reachable (machine D) o) :
    accepted o.conn.calls ++ o.conn.outputBuffer.readable = o.sent ∧
      (o.conn.channel.writing = true ↔ o.conn.outputBuffer.readable ≠ []) ∧
      ∀ a o', step o a = some o' → o'.conn.completions = o.conn.completions +
        if o.conn.writeCompleteCallback && o.conn.flushes o'.conn then 1 else 0 := by
  have its : o.conn.Stream o.sent := reach.invariant (P := fun o => o.conn.Stream o.sent)
    (fun _ => stream_of_start) fun _ _ _ its _ next => (step_stream its next).1
  exact ⟨its.stream, its.writing, fun _ _ next => (step_stream its next).2⟩

def partialWrites : List OutputStep :=
  [.sendInLoop [1, 2, 3] (.accepted 1), .sendInLoop [4] (.failed .EWOULDBLOCK),
    .handleWrite (.accepted 0), .handleWrite (.accepted 3), .sendInLoop [] (.accepted 0)]

theorem output_stream_partial_writes :
    ∃ o, exec (machine Unit) ⟨(TcpConnection.new true false 64).connectEstablished, []⟩ partialWrites =
        some o ∧ o.sent = [1, 2, 3, 4] ∧ o.conn.completions = 2 ∧
      accepted o.conn.calls ++ o.conn.outputBuffer.readable = o.sent := by
  have ran : (exec (machine Unit) ⟨(TcpConnection.new true false 64).connectEstablished, []⟩
      partialWrites).any (fun o => o.sent = [1, 2, 3, 4] ∧ o.conn.completions = 2) = true := by
    decide +kernel
  obtain ⟨o, done, facts⟩ := (Option.any_eq_true _ _).mp ran
  obtain ⟨sent, completions⟩ := of_decide_eq_true facts
  have reach : Reachable (machine Unit) o := Reach.exec (.start ⟨true, false, 64, rfl⟩) done
  exact ⟨o, done, sent, completions, (output_stream reach).1⟩

end Output

end ProjectsCpp.Muduo
