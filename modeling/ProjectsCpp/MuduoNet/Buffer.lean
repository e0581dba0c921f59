import Mathlib.Data.List.Basic
import Mathlib.Data.Option.Basic

/-! The buffer of muduo (`Buffer.h`) by what can be read of it: the readable bytes, the place where
they begin and the size of the vector around them. A failing assertion gives `none`. -/

namespace ProjectsCpp.MuduoNet

def kCheapPrepend : Nat := 8

def kInitialSize : Nat := 1024

structure Buffer where
  size : Nat
  readerIndex : Nat
  readable : List UInt8
  within : readerIndex + readable.length ≤ size
deriving DecidableEq

namespace Buffer

def new : Buffer := ⟨kCheapPrepend + kInitialSize, kCheapPrepend, [], Nat.le_add_right _ _⟩

def readableBytes (b : Buffer) : Nat := b.readable.length

def writerIndex (b : Buffer) : Nat := b.readerIndex + b.readableBytes

def writableBytes (b : Buffer) : Nat := b.size - b.writerIndex

def prependableBytes (b : Buffer) : Nat := b.readerIndex

def makeSpace (b : Buffer) (len : Nat) : Option Buffer :=
  if b.writableBytes + b.prependableBytes < len + kCheapPrepend then
    some ⟨b.writerIndex + len, b.readerIndex, b.readable, Nat.le_add_right _ _⟩
  else if inside : kCheapPrepend < b.readerIndex then
    some ⟨b.size, kCheapPrepend, b.readable,
      Nat.le_trans (Nat.add_le_add_right (Nat.le_of_lt inside) _) b.within⟩
  else none

def ensureWritableBytes (b : Buffer) (len : Nat) : Option Buffer :=
  if b.writableBytes < len then b.makeSpace len else some b

/-- The bytes that have been put at `beginWrite()`, and `hasWritten`. -/
def write (b : Buffer) (data : List UInt8) : Option Buffer :=
  if fits : data.length ≤ b.writableBytes then
    some ⟨b.size, b.readerIndex, b.readable ++ data, by
      have := b.within
      rw [writableBytes, writerIndex, readableBytes] at fits
      rw [List.length_append]
      omega⟩
  else none

def append (b : Buffer) (data : List UInt8) : Option Buffer :=
  (b.ensureWritableBytes data.length).bind fun b => b.write data

def prepend (b : Buffer) (data : List UInt8) : Option Buffer :=
  if fits : data.length ≤ b.prependableBytes then
    some ⟨b.size, b.readerIndex - data.length, data ++ b.readable, by
      have := b.within
      rw [prependableBytes] at fits
      rw [List.length_append]
      omega⟩
  else none

variable {b b' : Buffer}

/-- Room for `len` bytes, and still eight bytes in front. -/
theorem ensureWritableBytes_some (front : kCheapPrepend ≤ b.readerIndex) (len : Nat) :
    ∃ b', b.ensureWritableBytes len = some b' ∧ b'.readable = b.readable ∧
      kCheapPrepend ≤ b'.readerIndex ∧ len ≤ b'.writableBytes := by
  rw [ensureWritableBytes]
  by_cases short : b.writableBytes < len
  · rw [if_pos short, makeSpace]
    by_cases grow : b.writableBytes + b.prependableBytes < len + kCheapPrepend
    · exact ⟨_, if_pos grow, rfl, front, Nat.le_of_eq (Nat.add_sub_cancel_left _ _).symm⟩
    · have moved : kCheapPrepend < b.readerIndex := by
        rw [prependableBytes] at grow
        omega
      refine ⟨_, (if_neg grow).trans (dif_pos moved), rfl, Nat.le_refl _, ?_⟩
      have := b.within
      simp only [writableBytes, writerIndex, readableBytes, prependableBytes] at short grow ⊢
      omega
  · exact ⟨b, if_neg short, rfl, front, Nat.le_of_not_lt short⟩

theorem write_some (data : List UInt8) (fits : data.length ≤ b.writableBytes) :
    ∃ b', b.write data = some b' ∧ b'.readable = b.readable ++ data ∧
      b'.readerIndex = b.readerIndex :=
  ⟨_, dif_pos fits, rfl, rfl⟩

theorem append_some (front : kCheapPrepend ≤ b.readerIndex) (data : List UInt8) :
    ∃ b', b.append data = some b' ∧ b'.readable = b.readable ++ data ∧
      kCheapPrepend ≤ b'.readerIndex := by
  obtain ⟨b₁, room, readable, front₁, fits⟩ := ensureWritableBytes_some front data.length
  obtain ⟨b', written, appended, front'⟩ := write_some data fits
  refine ⟨b', ?_, by rw [appended, readable], by rwa [front']⟩
  rw [append, room, Option.bind_some, written]

theorem prepend_some (front : kCheapPrepend ≤ b.readerIndex) (data : List UInt8)
    (short : data.length ≤ kCheapPrepend) :
    ∃ b', b.prepend data = some b' ∧ b'.readable = data ++ b.readable :=
  ⟨_, dif_pos (Nat.le_trans short front), rfl⟩

end Buffer

end ProjectsCpp.MuduoNet
