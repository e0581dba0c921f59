import Mathlib.Data.List.Basic

/-! The buffer of a connection (`Buffer.h` and `Buffer.cc` of muduo_cpp11): a vector with a reader
and a writer index, whose readable part is what the connection works with. -/

namespace ProjectsCpp.Muduo

/-- `std::copy` of `data` over what begins at `place`. -/
def copyTo (vector : List UInt8) (place : Nat) (data : List UInt8) : List UInt8 :=
  vector.take place ++ data ++ vector.drop (place + data.length)

theorem copyTo_length {vector data : List UInt8} {place : Nat}
    (room : place + data.length ≤ vector.length) :
    (copyTo vector place data).length = vector.length := by
  simp only [copyTo, List.length_append, List.length_take, List.length_drop]
  omega

theorem copyTo_slice {vector data : List UInt8} {place start : Nat} (before : start ≤ place)
    (room : place ≤ vector.length) :
    ((copyTo vector place data).drop start).take (place + data.length - start) =
      (vector.drop start).take (place - start) ++ data := by
  have lengths : (vector.take place).length = place := List.length_take_of_le room
  have front : ((vector.drop start).take (place - start)).length = place - start :=
    List.length_take_of_le (by rw [List.length_drop]; omega)
  have together : ((vector.drop start).take (place - start) ++ data).length =
      place + data.length - start := by
    rw [List.length_append, front]
    omega
  rw [copyTo, List.append_assoc, List.drop_append_of_le_length (by omega), List.drop_take,
    ← List.append_assoc, ← together, List.take_left']
  rfl

def kCheapPrepend : Nat := 8

def kInitialSize : Nat := 1024

structure Buffer where
  buffer : List UInt8
  readerIndex : Nat
  writerIndex : Nat
  prepend_le : kCheapPrepend ≤ readerIndex
  reader_le : readerIndex ≤ writerIndex
  writer_le : writerIndex ≤ buffer.length
deriving DecidableEq

namespace Buffer
variable (b : Buffer) {data : List UInt8}

def new (initialSize : Nat) : Buffer where
  buffer := List.replicate (kCheapPrepend + initialSize) 0
  readerIndex := kCheapPrepend
  writerIndex := kCheapPrepend
  prepend_le := Nat.le_refl _
  reader_le := Nat.le_refl _
  writer_le := by rw [List.length_replicate]; exact Nat.le_add_right _ _

def readableBytes : Nat := b.writerIndex - b.readerIndex

def writableBytes : Nat := b.buffer.length - b.writerIndex

def prependableBytes : Nat := b.readerIndex

def readable : List UInt8 := (b.buffer.drop b.readerIndex).take b.readableBytes

def retrieveAll : Buffer where
  buffer := b.buffer
  readerIndex := kCheapPrepend
  writerIndex := kCheapPrepend
  prepend_le := Nat.le_refl _
  reader_le := Nat.le_refl _
  writer_le := Nat.le_trans (Nat.le_trans b.prepend_le b.reader_le) b.writer_le

def retrieve (len : Nat) : Buffer :=
  if less : len < b.readableBytes then
    { b with
      readerIndex := b.readerIndex + len
      prepend_le := Nat.le_trans b.prepend_le (Nat.le_add_right _ _)
      reader_le := by
        rw [readableBytes] at less
        omega }
  else b.retrieveAll

theorem readable_length : b.readable.length = b.readableBytes :=
  List.length_take_of_le (by
    rw [List.length_drop]
    exact Nat.sub_le_sub_right b.writer_le _)

/-- The branch of `makeSpace` that lets the vector grow. -/
def resize (len : Nat) : Buffer :=
  { b with
    buffer := b.buffer.take (b.writerIndex + len) ++
      List.replicate (b.writerIndex + len - b.buffer.length) 0
    writer_le := by
      have inside := b.writer_le
      rw [List.length_append, List.length_take, List.length_replicate]
      omega }

/-- The branch of `makeSpace` that moves the readable part to the front. -/
def compact : Buffer where
  buffer := copyTo b.buffer kCheapPrepend b.readable
  readerIndex := kCheapPrepend
  writerIndex := kCheapPrepend + b.readableBytes
  prepend_le := Nat.le_refl _
  reader_le := Nat.le_add_right _ _
  writer_le := by
    have front := b.prepend_le
    have inside := b.writer_le
    have ordered := b.reader_le
    have length := b.readable_length
    rw [copyTo_length] <;> rw [readableBytes] at * <;> omega

def makeSpace (len : Nat) : Buffer :=
  if b.writableBytes + b.prependableBytes < len + kCheapPrepend then b.resize len else b.compact

def ensureWritableBytes (len : Nat) : Buffer :=
  if b.writableBytes < len then b.makeSpace len else b

/-- `data` is copied behind the readable part. -/
def fill (data : List UInt8) : Buffer where
  buffer := copyTo b.buffer b.writerIndex data
  readerIndex := b.readerIndex
  writerIndex := b.writerIndex + data.length
  prepend_le := b.prepend_le
  reader_le := Nat.le_trans b.reader_le (Nat.le_add_right _ _)
  writer_le := by
    rw [copyTo, List.length_append, List.length_append, List.length_take_of_le b.writer_le]
    exact Nat.le_add_right _ _

def append (data : List UInt8) : Buffer := (b.ensureWritableBytes data.length).fill data

def extrabufSize : Nat := 65536

/-- How much `readv` can get at once. -/
def readMax : Nat :=
  if b.writableBytes < extrabufSize then b.writableBytes + extrabufSize else b.writableBytes

/-- `readFd` where `readv` gets `received`. -/
def readFd (received : List UInt8) : Buffer :=
  if received.length ≤ b.writableBytes then b.fill received
  else (b.fill (received.take b.writableBytes)).append (received.drop b.writableBytes)

@[simp] theorem readable_new (initialSize : Nat) : (new initialSize).readable = [] :=
  List.take_zero

@[simp] theorem readable_retrieveAll : b.retrieveAll.readable = [] := List.take_zero

theorem readable_retrieve (len : Nat) : (b.retrieve len).readable = b.readable.drop len := by
  rw [retrieve]
  split
  · show ((b.buffer.drop (b.readerIndex + len)).take (b.writerIndex - (b.readerIndex + len))) = _
    rw [readable, readableBytes, List.drop_take, List.drop_drop, Nat.sub_sub]
  · rename_i all
    rw [readable_retrieveAll, List.drop_eq_nil_of_le]
    exact b.readable_length ▸ Nat.not_lt.mp all

theorem readable_resize (len : Nat) : (b.resize len).readable = b.readable := by
  have inside := b.writer_le
  have ordered := b.reader_le
  show ((b.buffer.take (b.writerIndex + len) ++ _).drop b.readerIndex).take b.readableBytes = _
  rw [List.drop_append_of_le_length (by rw [List.length_take]; omega), List.take_append_of_le_length
    (by rw [List.length_drop, List.length_take, readableBytes]; omega), List.drop_take,
    List.take_take, Nat.min_eq_left (by rw [readableBytes]; omega), readable]

theorem readable_compact : b.compact.readable = b.readable := by
  have front := b.prepend_le
  have inside := b.writer_le
  have ordered := b.reader_le
  show ((copyTo b.buffer kCheapPrepend b.readable).drop kCheapPrepend).take
    (kCheapPrepend + b.readableBytes - kCheapPrepend) = _
  rw [← b.readable_length, copyTo_slice (Nat.le_refl _) (by omega), Nat.sub_self, List.take_zero,
    List.nil_append]

@[simp] theorem readable_ensureWritableBytes (len : Nat) :
    (b.ensureWritableBytes len).readable = b.readable := by
  rw [ensureWritableBytes]
  split
  · rw [makeSpace]
    split
    · exact b.readable_resize len
    · exact b.readable_compact
  · rfl

theorem ensureWritableBytes_le (len : Nat) : len ≤ (b.ensureWritableBytes len).writableBytes := by
  have front := b.prepend_le
  have inside := b.writer_le
  have ordered := b.reader_le
  have length := b.readable_length
  rw [ensureWritableBytes]
  split
  · rename_i small
    rw [makeSpace]
    split
    · show len ≤ (b.buffer.take (b.writerIndex + len) ++ _).length - b.writerIndex
      rw [List.length_append, List.length_take, List.length_replicate]
      omega
    · rename_i room
      rw [prependableBytes, writableBytes] at room
      show len ≤ (copyTo b.buffer kCheapPrepend b.readable).length -
        (kCheapPrepend + b.readableBytes)
      rw [readableBytes] at *
      rw [copyTo_length (by omega)]
      omega
  · rename_i room
    exact Nat.not_lt.mp room

theorem readable_fill (data : List UInt8) : (b.fill data).readable = b.readable ++ data :=
  copyTo_slice b.reader_le b.writer_le

@[simp] theorem readable_append (data : List UInt8) :
    (b.append data).readable = b.readable ++ data := by
  rw [append, readable_fill, readable_ensureWritableBytes]

theorem readable_readFd (received : List UInt8) :
    (b.readFd received).readable = b.readable ++ received := by
  rw [readFd]
  split
  · exact b.readable_fill received
  · rw [readable_append, readable_fill, List.append_assoc, List.take_append_drop]

end Buffer

end ProjectsCpp.Muduo
