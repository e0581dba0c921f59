import ProjectsCpp.Muduo.Buffer
import ProjectsCpp.Lib.Run
import Mathlib.Algebra.Group.Nat.Defs
import Mathlib.Algebra.Group.Int.Defs

/-! The buffer of muduo_cpp11 with what `Buffer` leaves out: the arithmetic of `size_t`, the largest
vector, and whether each copy and each target of `readv` lies inside the vector. -/

namespace ProjectsCpp.Muduo
open ProjectsCpp.Run

def plus (a b : Nat) : Nat := (a + b) % 2 ^ 64

def minus (a b : Nat) : Nat := (a + 2 ^ 64 - b) % 2 ^ 64

theorem plus_eq {a b : Nat} (fits : a + b < 2 ^ 64) : plus a b = a + b := Nat.mod_eq_of_lt fits

theorem minus_eq {a b : Nat} (le : b ≤ a) (fits : a < 2 ^ 64) : minus a b = a - b := by
  rw [minus, Nat.sub_add_comm le, Nat.add_mod_right]
  exact Nat.mod_eq_of_lt (by omega)

/-- `max_size()` of a `std::vector<char>`. A longer one is refused with an exception. -/
def maxSize : Nat := 2 ^ 63 - 1

def Chunk : Type := { data : List UInt8 // data.length ≤ maxSize }

/-- `inside` says of every copy, string and target of `readv` so far that it was inside `buffer`. -/
structure RawBuffer where
  buffer : List UInt8
  readerIndex : Nat
  writerIndex : Nat
  inside : Bool
deriving DecidableEq

namespace RawBuffer

def new (initialSize : Nat) : Option RawBuffer :=
  if plus kCheapPrepend initialSize ≤ maxSize then
    some ⟨List.replicate (plus kCheapPrepend initialSize) 0, kCheapPrepend, kCheapPrepend, true⟩
  else none

variable (b : RawBuffer)

def readableBytes : Nat := minus b.writerIndex b.readerIndex

def writableBytes : Nat := minus b.buffer.length b.writerIndex

def prependableBytes : Nat := b.readerIndex

/-- `len` bytes from `place` on are read or written. -/
def touch (place len : Nat) : RawBuffer :=
  { b with inside := b.inside && decide (place + len ≤ b.buffer.length) }

/-- `std::copy` of `data` to `begin() + place`. -/
def copy (place : Nat) (data : List UInt8) : RawBuffer :=
  { b.touch place data.length with buffer := copyTo b.buffer place data }

def retrieveAll : RawBuffer :=
  { b with readerIndex := kCheapPrepend, writerIndex := kCheapPrepend }

def retrieve (len : Nat) : RawBuffer :=
  if len < b.readableBytes then { b with readerIndex := plus b.readerIndex len }
  else b.retrieveAll

def retrieveAsString (len : Nat) : List UInt8 × RawBuffer :=
  ((b.buffer.drop b.readerIndex).take len, (b.touch b.readerIndex len).retrieve len)

def resize (size : Nat) : Option RawBuffer :=
  if size ≤ maxSize then
    some { b with buffer := b.buffer.take size ++ List.replicate (size - b.buffer.length) 0 }
  else none

def makeSpace (len : Nat) : Option RawBuffer :=
  if plus b.writableBytes b.prependableBytes < plus len kCheapPrepend then
    b.resize (plus b.writerIndex len)
  else
    let readable := b.readableBytes
    let moved := (b.touch b.readerIndex readable).copy kCheapPrepend
      ((b.buffer.drop b.readerIndex).take readable)
    some { moved with
      readerIndex := kCheapPrepend
      writerIndex := plus kCheapPrepend readable }

def ensureWritableBytes (len : Nat) : Option RawBuffer :=
  if b.writableBytes < len then b.makeSpace len else some b

def append (data : List UInt8) : Option RawBuffer :=
  (b.ensureWritableBytes data.length).map fun b =>
    { b.copy b.writerIndex data with writerIndex := plus b.writerIndex data.length }

/-- What the vectors given to `readv` hold together. -/
def offered : Nat :=
  if b.writableBytes < Buffer.extrabufSize then b.writableBytes + Buffer.extrabufSize
  else b.writableBytes

/-- `extrabuf` has room for what `readv` gets beyond the buffer. -/
def touchExtra (len : Nat) : RawBuffer :=
  { b with inside := b.inside && decide (len ≤ Buffer.extrabufSize) }

/-- `received` is what `readv` gets, `none` where it fails. -/
def readFd (received : Option (List UInt8)) : Option RawBuffer :=
  let writable := b.writableBytes
  let b := b.touch b.writerIndex writable
  match received with
  | none => some b
  | some received =>
    let b := b.copy b.writerIndex (received.take writable)
    if received.length ≤ writable then
      some { b with writerIndex := plus b.writerIndex received.length }
    else
      let extra := received.drop writable
      ({ b.touchExtra extra.length with writerIndex := b.buffer.length }).append extra

end RawBuffer

inductive BufferOp
  | append (data : Chunk)
  | retrieve (n : Nat)
  | retrieveAsString (n : Nat)
  | retrieveAll
  | readFd (received : Option (List UInt8))

/-- `arrived` is what was appended and read from the descriptor, `taken` how much of it was
retrieved; both do not look at the buffer. -/
structure BufferLife where
  buffer : RawBuffer
  arrived : List UInt8
  taken : Nat
deriving DecidableEq

namespace BufferLife

def Allowed (l : BufferLife) : BufferOp → Prop
  | .retrieveAsString n => n ≤ l.buffer.readableBytes
  | .readFd (some received) => received.length ≤ l.buffer.offered
  | _ => True

instance (l : BufferLife) (op : BufferOp) : Decidable (l.Allowed op) := by
  unfold Allowed
  split <;> infer_instance

def take (l : BufferLife) (n : Nat) : Nat := min (l.taken + n) l.arrived.length

def step (l : BufferLife) : BufferOp → Option BufferLife
  | .append data =>
    (l.buffer.append data.val).map fun b => ⟨b, l.arrived ++ data.val, l.taken⟩
  | .retrieve n => some ⟨l.buffer.retrieve n, l.arrived, l.take n⟩
  | .retrieveAsString n => some ⟨(l.buffer.retrieveAsString n).2, l.arrived, l.take n⟩
  | .retrieveAll => some ⟨l.buffer.retrieveAll, l.arrived, l.arrived.length⟩
  | .readFd received =>
    (l.buffer.readFd received).map fun b => ⟨b, l.arrived ++ received.getD [], l.taken⟩

def machine (initialSize : Nat) : Machine BufferLife BufferOp where
  start l := ∃ b, RawBuffer.new initialSize = some b ∧ l = ⟨b, [], 0⟩
  step := step

/-- The buffer is a queue of what has arrived and was not taken. -/
structure IsQueue (l : BufferLife) : Prop where
  prepend_le : kCheapPrepend ≤ l.buffer.readerIndex
  reader_le : l.buffer.readerIndex ≤ l.buffer.writerIndex
  writer_le : l.buffer.writerIndex ≤ l.buffer.buffer.length
  inside : l.buffer.inside = true
  readable : (l.buffer.buffer.drop l.buffer.readerIndex).take l.buffer.readableBytes =
    l.arrived.drop l.taken
  string : ∀ n ≤ l.buffer.readableBytes,
    (l.buffer.retrieveAsString n).1 = (l.arrived.drop l.taken).take n

end BufferLife

namespace Buffer
variable {b : Buffer} {c : RawBuffer} {n : Nat} {data : List UInt8}

def raw (b : Buffer) : RawBuffer := ⟨b.buffer, b.readerIndex, b.writerIndex, true⟩

theorem maxSize_lt : maxSize < 2 ^ 63 := by decide

theorem raw_new (fits : kCheapPrepend + n < 2 ^ 64) (made : RawBuffer.new n = some c) :
    c = (Buffer.new n).raw ∧ (Buffer.new n).buffer.length ≤ maxSize := by
  rw [RawBuffer.new, plus_eq fits] at made
  split at made
  · rename_i small
    cases made
    exact ⟨rfl, by rwa [Buffer.new, List.length_replicate]⟩
  · cases made

theorem raw_touch {place len : Nat} (room : place + len ≤ b.buffer.length) :
    b.raw.touch place len = b.raw := by
  rw [RawBuffer.touch, decide_eq_true (show _ ≤ b.raw.buffer.length from room)]
  rfl

theorem raw_copy {place : Nat} (room : place + data.length ≤ b.buffer.length) :
    b.raw.copy place data =
      ⟨copyTo b.buffer place data, b.readerIndex, b.writerIndex, true⟩ := by
  rw [RawBuffer.copy, raw_touch room]
  rfl

theorem raw_spill (whole : b.writerIndex + data.length = b.buffer.length)
    (extra : n ≤ extrabufSize) :
    { (b.raw.copy b.raw.writerIndex data).touchExtra n with
      writerIndex := (b.raw.copy b.raw.writerIndex data).buffer.length } = (b.fill data).raw := by
  have length : (copyTo b.buffer b.writerIndex data).length = b.writerIndex + data.length := by
    rw [copyTo_length (Nat.le_of_eq whole), whole]
  rw [show b.raw.copy b.raw.writerIndex data = _ from raw_copy (Nat.le_of_eq whole),
    RawBuffer.touchExtra, decide_eq_true extra]
  show RawBuffer.mk (copyTo b.buffer b.writerIndex data) b.readerIndex
    (copyTo b.buffer b.writerIndex data).length true = _
  rw [length]
  rfl

section sizes
variable (small : b.buffer.length ≤ maxSize)
include small

theorem raw_readableBytes : b.raw.readableBytes = b.readableBytes := by
  have inside := b.writer_le
  have bound := maxSize_lt
  exact minus_eq b.reader_le (show b.writerIndex < _ by omega)

theorem raw_writableBytes : b.raw.writableBytes = b.writableBytes := by
  have bound := maxSize_lt
  exact minus_eq b.writer_le (show b.buffer.length < _ by omega)

theorem raw_retrieve (n : Nat) : b.raw.retrieve n = (b.retrieve n).raw := by
  have inside := b.writer_le
  have bound := maxSize_lt
  rw [RawBuffer.retrieve, raw_readableBytes small, retrieve]
  split
  · rename_i less
    rw [readableBytes] at less
    show RawBuffer.mk _ (plus b.readerIndex n) _ _ = _
    rw [plus_eq (by omega)]
    rfl
  · rfl

theorem raw_retrieveAsString (le : n ≤ b.raw.readableBytes) :
    b.raw.retrieveAsString n = (b.readable.take n, (b.retrieve n).raw) := by
  have inside := b.writer_le
  rw [raw_readableBytes small] at le
  have ordered := b.reader_le
  have room : b.readerIndex + n ≤ b.buffer.length := by
    rw [readableBytes] at le
    omega
  rw [RawBuffer.retrieveAsString]
  show (_, (b.raw.touch b.readerIndex n).retrieve n) = _
  rw [raw_touch room, raw_retrieve small, readable, List.take_take, Nat.min_eq_left le]
  rfl

theorem raw_makeSpace (fits : n ≤ maxSize)
    (made : b.raw.makeSpace n = some c) :
    c = (b.makeSpace n).raw ∧ (b.makeSpace n).buffer.length ≤ maxSize := by
  have front := b.prepend_le
  have ordered := b.reader_le
  have inside := b.writer_le
  have bound := maxSize_lt
  have length := b.readable_length
  rw [RawBuffer.makeSpace, raw_writableBytes small, raw_readableBytes small] at made
  have sum : plus b.writableBytes b.raw.prependableBytes = b.writableBytes + b.prependableBytes :=
    plus_eq (by rw [writableBytes]; show _ + b.readerIndex < _; omega)
  have wanted : plus n kCheapPrepend = n + kCheapPrepend :=
    plus_eq (by rw [kCheapPrepend]; omega)
  have size : plus b.raw.writerIndex n = b.writerIndex + n :=
    plus_eq (show b.writerIndex + n < _ by omega)
  rw [sum, wanted, size] at made
  rw [makeSpace]
  split at made <;> rename_i room
  · rw [if_pos room]
    rw [RawBuffer.resize] at made
    split at made
    · rename_i allowed
      cases made
      refine ⟨rfl, ?_⟩
      rw [resize, List.length_append, List.length_take, List.length_replicate]
      omega
    · cases made
  · rw [if_neg room]
    cases made
    have filled : kCheapPrepend + b.readable.length ≤ b.buffer.length := by
      rw [length, readableBytes]
      omega
    have read : b.readerIndex + b.readableBytes ≤ b.buffer.length := by
      rw [readableBytes]
      omega
    have moved : (b.raw.touch b.raw.readerIndex b.readableBytes).copy kCheapPrepend
        ((b.raw.buffer.drop b.raw.readerIndex).take b.readableBytes) =
        ⟨copyTo b.buffer kCheapPrepend b.readable, b.readerIndex, b.writerIndex, true⟩ := by
      rw [show b.raw.touch b.raw.readerIndex b.readableBytes = b.raw from raw_touch read]
      exact raw_copy filled
    rw [moved, plus_eq (by rw [← length]; omega)]
    exact ⟨rfl, le_of_eq_of_le (copyTo_length filled) small⟩

theorem raw_ensureWritableBytes (fits : n ≤ maxSize)
    (made : b.raw.ensureWritableBytes n = some c) :
    c = (b.ensureWritableBytes n).raw ∧ (b.ensureWritableBytes n).buffer.length ≤ maxSize := by
  rw [RawBuffer.ensureWritableBytes, raw_writableBytes small] at made
  rw [ensureWritableBytes]
  split at made <;> rename_i short
  · rw [if_pos short]
    exact raw_makeSpace small fits made
  · rw [if_neg short]
    cases made
    exact ⟨rfl, small⟩

theorem raw_fill (room : data.length ≤ b.writableBytes) :
    { b.raw.copy b.raw.writerIndex data with
      writerIndex := plus b.raw.writerIndex data.length } = (b.fill data).raw ∧
      (b.fill data).buffer.length ≤ maxSize := by
  have bound := maxSize_lt
  have inside := b.writer_le
  rw [writableBytes] at room
  have fits : b.writerIndex + data.length ≤ b.buffer.length := by omega
  have next : plus b.raw.writerIndex data.length = b.writerIndex + data.length :=
    plus_eq (show b.writerIndex + data.length < _ by omega)
  rw [next]
  refine ⟨?_, le_of_eq_of_le (copyTo_length fits) small⟩
  rw [show b.raw.copy b.raw.writerIndex data = _ from raw_copy fits]
  rfl

theorem raw_append (fits : data.length ≤ maxSize) (made : b.raw.append data = some c) :
    c = (b.append data).raw ∧ (b.append data).buffer.length ≤ maxSize := by
  obtain ⟨grown, enough, rfl⟩ := Option.map_eq_some_iff.mp made
  obtain ⟨rfl, still⟩ := raw_ensureWritableBytes small fits enough
  exact raw_fill still (b.ensureWritableBytes_le data.length)

theorem raw_offered : b.raw.offered = b.readMax := by
  rw [RawBuffer.offered, raw_writableBytes small, readMax]

theorem raw_target : b.raw.touch b.raw.writerIndex b.raw.writableBytes = b.raw := by
  have inside := b.writer_le
  rw [raw_writableBytes small]
  refine raw_touch (show b.writerIndex + b.writableBytes ≤ _ from ?_)
  rw [writableBytes]
  omega

theorem raw_readFd (received : List UInt8) (le : received.length ≤ b.raw.offered)
    (made : b.raw.readFd (some received) = some c) :
    c = (b.readFd received).raw ∧ (b.readFd received).buffer.length ≤ maxSize := by
  have bound := maxSize_lt
  have inside := b.writer_le
  rw [raw_offered small, readMax] at le
  rw [RawBuffer.readFd] at made
  dsimp only at made
  rw [raw_target small, raw_writableBytes small] at made
  rw [readFd]
  split at made <;> rename_i room
  · rw [if_pos room]
    cases made
    rw [List.take_of_length_le room]
    exact raw_fill small room
  · rw [if_neg room]
    have front : (received.take b.writableBytes).length = b.writableBytes :=
      List.length_take_of_le (by omega)
    have extra : (received.drop b.writableBytes).length ≤ extrabufSize := by
      rw [List.length_drop]
      split at le <;> omega
    have fits : b.writerIndex + (received.take b.writableBytes).length = b.buffer.length := by
      rw [front, writableBytes]
      omega
    obtain ⟨-, still⟩ := raw_fill small (Nat.le_of_eq front)
    rw [raw_spill fits extra] at made
    refine raw_append still ?_ made
    exact Nat.le_trans extra (by decide)

theorem raw_readFd_none (made : b.raw.readFd none = some c) : c = b.raw := by
  rw [RawBuffer.readFd, raw_target small] at made
  exact (Option.some.inj made).symm

end sizes

end Buffer

namespace BufferLife
variable {l : BufferLife} {op : BufferOp} {initialSize : Nat}

def Holds (l : BufferLife) : Prop :=
  ∃ b : Buffer, l.buffer = b.raw ∧ b.buffer.length ≤ maxSize ∧
    b.readable = l.arrived.drop l.taken ∧ l.taken ≤ l.arrived.length

theorem holds_retrieve {b : Buffer} {arrived : List UInt8} {taken : Nat} (n : Nat)
    (small : b.buffer.length ≤ maxSize) (readable : b.readable = arrived.drop taken) :
    Holds ⟨(b.retrieve n).raw, arrived, min (taken + n) arrived.length⟩ := by
  refine ⟨b.retrieve n, rfl, ?_, ?_, Nat.min_le_right _ _⟩
  · rw [Buffer.retrieve]
    split <;> exact small
  · rw [Buffer.readable_retrieve, readable, List.drop_drop]
    rcases Nat.le_total (taken + n) arrived.length with le | le
    · rw [Nat.min_eq_left le]
    · rw [Nat.min_eq_right le, List.drop_of_length_le le, List.drop_length]

theorem Holds.step {next : BufferLife} (held : l.Holds) (allowed : l.Allowed op)
    (went : l.step op = some next) : next.Holds := by
  obtain ⟨b, same, small, readable, taken⟩ := held
  obtain ⟨buffer, arrived, count⟩ := l
  dsimp only at same readable taken
  subst same
  have further (data : List UInt8) : b.readable ++ data = (arrived ++ data).drop count := by
    rw [List.drop_append_of_le_length taken, readable]
  have still (data : List UInt8) : count ≤ (arrived ++ data).length := by
    rw [List.length_append]
    omega
  cases op with
  | append data =>
    obtain ⟨c, made, rfl⟩ := Option.map_eq_some_iff.mp went
    obtain ⟨rfl, fits⟩ := Buffer.raw_append small data.property made
    exact ⟨b.append data.val, rfl, fits, by rw [Buffer.readable_append, further], still _⟩
  | retrieve n =>
    cases went
    dsimp only
    rw [Buffer.raw_retrieve small]
    exact holds_retrieve n small readable
  | retrieveAsString n =>
    cases went
    dsimp only
    rw [Buffer.raw_retrieveAsString small allowed]
    exact holds_retrieve n small readable
  | retrieveAll =>
    cases went
    refine ⟨b.retrieveAll, rfl, small, ?_, Nat.le_refl _⟩
    rw [Buffer.readable_retrieveAll, List.drop_length]
  | readFd received =>
    obtain ⟨c, made, rfl⟩ := Option.map_eq_some_iff.mp went
    cases received with
    | none =>
      obtain rfl := Buffer.raw_readFd_none small made
      exact ⟨b, rfl, small, by simpa using readable, by simpa using taken⟩
    | some received =>
      obtain ⟨rfl, fits⟩ := Buffer.raw_readFd small received allowed made
      exact ⟨b.readFd received, rfl, fits, by rw [Buffer.readable_readFd]; exact further _,
        still _⟩

theorem Holds.isQueue (held : l.Holds) : l.IsQueue := by
  obtain ⟨b, same, small, readable, -⟩ := held
  obtain ⟨buffer, arrived, taken⟩ := l
  dsimp only at same readable
  subst same
  refine ⟨b.prepend_le, b.reader_le, b.writer_le, rfl, ?_, fun n le => ?_⟩
  · rw [Buffer.raw_readableBytes small]
    exact readable
  · rw [Buffer.raw_retrieveAsString small le, readable]

/-- In every run the buffer is a queue of bytes, if the first vector has the size asked for. -/
theorem byte_queue (fits : kCheapPrepend + initialSize < 2 ^ 64)
    (reach : Reach (machine initialSize) Allowed l) : l.IsQueue := by
  refine Holds.isQueue (reach.invariant (P := Holds) ?_ ?_)
  · rintro s ⟨b, made, rfl⟩
    obtain ⟨rfl, small⟩ := Buffer.raw_new fits made
    exact ⟨Buffer.new initialSize, rfl, small, Buffer.readable_new initialSize, Nat.le_refl _⟩
  · intro s op t held allowed went
    exact held.step allowed went

def shortRun : List BufferOp :=
  [BufferOp.append ⟨[1, 2, 3], by decide⟩, .retrieve 1, .readFd (some [4, 5, 6]),
    .retrieveAsString 2, .append ⟨[7], by decide⟩, .readFd none]

theorem byte_queue_short :
    ∃ l : BufferLife, l.arrived = [1, 2, 3, 4, 5, 6, 7] ∧ l.taken = 3 ∧ l.IsQueue := by
  have begin : (machine 2).start ⟨⟨List.replicate 10 0, 8, 8, true⟩, [], 0⟩ := ⟨_, by decide, rfl⟩
  have run : execWhere (machine 2) Allowed ⟨⟨List.replicate 10 0, 8, 8, true⟩, [], 0⟩ shortRun =
      some ⟨⟨[0, 0, 0, 0, 0, 0, 0, 0, 4, 5, 6, 7, 5, 6], 8, 12, true⟩,
        [1, 2, 3, 4, 5, 6, 7], 3⟩ := by
    decide +kernel
  exact ⟨_, rfl, rfl, byte_queue (by decide) ((Reach.start begin).execWhere run)⟩

theorem first_size_wraps : ∃ l : BufferLife, Reach (machine (2 ^ 64 - 8)) Allowed l ∧
    l.buffer.inside = false ∧ ¬ l.IsQueue := by
  have begin : (machine (2 ^ 64 - 8)).start ⟨⟨[], 8, 8, true⟩, [], 0⟩ := ⟨_, by decide, rfl⟩
  have run : execWhere (machine (2 ^ 64 - 8)) Allowed ⟨⟨[], 8, 8, true⟩, [], 0⟩
      [BufferOp.append ⟨[1], by decide⟩] = some ⟨⟨[1], 8, 9, false⟩, [1], 0⟩ := by
    decide +kernel
  exact ⟨_, (Reach.start begin).execWhere run, rfl, fun queue => nomatch queue.inside⟩

end BufferLife

end ProjectsCpp.Muduo
