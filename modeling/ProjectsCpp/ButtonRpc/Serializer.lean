import Mathlib.Data.List.Basic
import Mathlib.Data.Option.Basic
import Mathlib.Data.List.Forall2

/-! The serializer of buttonrpc (`Serializer.hpp`) in the byte order that its constructors choose. A
read past the end of the buffer gives `none`. -/

namespace ProjectsCpp.ButtonRpc

/-- A variable that is written or read: the bytes of a plain type, or a `std::string`. -/
inductive Value where
  | plain (bytes : List UInt8)
  | str (bytes : List UInt8)

structure Serializer where
  m_iodevice : List UInt8
  m_curpos : Nat

def uint16_bytes (n : Nat) : List UInt8 := [UInt8.ofNat n, UInt8.ofNat (n / 256)]

def uint16_of : List UInt8 → Nat
  | low :: high :: _ => low.toNat + 256 * high.toNat
  | _ => 0

namespace Serializer

def new (m_iodevice : List UInt8) : Serializer := ⟨m_iodevice, 0⟩

def is_eof (s : Serializer) : Prop := s.m_iodevice.length ≤ s.m_curpos

instance (s : Serializer) : Decidable s.is_eof := inferInstanceAs (Decidable (_ ≤ _))

def current (s : Serializer) : List UInt8 := s.m_iodevice.drop s.m_curpos

/-- The `memcpy` from `current()`, with the `offset`. -/
def get_length_mem (s : Serializer) (len : Nat) : Option (List UInt8 × Serializer) :=
  if len ≤ s.current.length then
    some (s.current.take len, { s with m_curpos := s.m_curpos + len })
  else none

/-- The length of a string is cut to a `uint16_t`. -/
def input_type (s : Serializer) : Value → Serializer
  | .plain t => { s with m_iodevice := s.m_iodevice ++ t }
  | .str t =>
    let len := t.length % 65536
    { s with m_iodevice := s.m_iodevice ++ uint16_bytes len ++ t.take len }

def output_type (s : Serializer) : Value → Option (Value × Serializer)
  | .plain t =>
    if s.is_eof then some (.plain t, s)
    else (s.get_length_mem t.length).map fun r => (.plain r.1, r.2)
  | .str t => (s.get_length_mem 2).bind fun mark =>
    (mark.2.get_length_mem (uint16_of mark.1)).map fun r => (.str (r.1 ++ t), r.2)

def inputs (s : Serializer) : List Value → Serializer
  | [] => s
  | v :: vs => (s.input_type v).inputs vs

def outputs (s : Serializer) : List Value → Option (List Value × Serializer)
  | [] => some ([], s)
  | v :: vs => (s.output_type v).bind fun r => (r.2.outputs vs).map fun rs => (r.1 :: rs.1, rs.2)

end Serializer

/-! ### What is read back -/

def cut (t : List UInt8) : List UInt8 := t.take (t.length % 65536)

def Alike : Value → Value → Prop
  | .plain t, .plain u => t.length = u.length
  | .str _, .str _ => True
  | _, _ => False

/-- The variable that held `old` when `sent` has come. -/
def received : Value → Value → Value
  | .str t, .str old => .str (cut t ++ old)
  | sent, _ => sent

def encoded : Value → List UInt8
  | .plain t => t
  | .str t => uint16_bytes (t.length % 65536) ++ cut t

theorem uint16_of_bytes {n : Nat} (small : n < 65536) : uint16_of (uint16_bytes n) = n := by
  simp only [uint16_bytes, uint16_of, UInt8.toNat_ofNat']
  omega

namespace Serializer

variable {s : Serializer} {v w : Value} {rest : List UInt8}

theorem input_type_eq (s : Serializer) (v : Value) :
    s.input_type v = { s with m_iodevice := s.m_iodevice ++ encoded v } := by
  cases v with
  | plain t => rfl
  | str t => simp [input_type, encoded, cut]

structure Later (s t : Serializer) (rest : List UInt8) : Prop where
  m_iodevice : t.m_iodevice = s.m_iodevice
  current : t.current = rest

theorem get_length_mem_append {bytes : List UInt8} (there : s.current = bytes ++ rest) :
    ∃ t, s.get_length_mem bytes.length = some (bytes, t) ∧ s.Later t rest := by
  refine ⟨{ s with m_curpos := s.m_curpos + bytes.length }, ?_, rfl, ?_⟩
  · rw [get_length_mem, there, if_pos (by simp), List.take_left]
  · show s.m_iodevice.drop (s.m_curpos + bytes.length) = rest
    rw [← List.drop_drop]
    show s.current.drop bytes.length = rest
    rw [there, List.drop_left]

theorem output_encoded (alike : Alike v w) (there : s.current = encoded v ++ rest) :
    ∃ t, s.output_type w = some (received v w, t) ∧ s.Later t rest := by
  cases v with
  | plain sent =>
    cases w with
    | str old => cases alike
    | plain old =>
      have length : sent.length = old.length := alike
      rw [output_type]
      split
      · rename_i eof
        have none : s.current = [] := List.drop_eq_nil_iff.mpr eof
        obtain ⟨rfl, rfl⟩ := List.append_eq_nil_iff.mp (there.symm.trans none)
        obtain rfl : old = [] := List.length_eq_zero_iff.mp length.symm
        exact ⟨s, rfl, rfl, none⟩
      · obtain ⟨t, read, later⟩ := get_length_mem_append (show s.current = sent ++ rest from there)
        refine ⟨t, ?_, later⟩
        rw [length] at read
        rw [read]
        rfl
  | str sent =>
    cases w with
    | plain old => cases alike
    | str old =>
      have small : sent.length % 65536 < 65536 := Nat.mod_lt _ (by decide)
      rw [encoded, List.append_assoc] at there
      obtain ⟨t, mark, later⟩ := get_length_mem_append there
      obtain ⟨u, read, later'⟩ := get_length_mem_append later.current
      have length : (cut sent).length = sent.length % 65536 := by
        rw [cut, List.length_take, Nat.min_eq_left (Nat.mod_le _ _)]
      refine ⟨u, ?_, later'.m_iodevice.trans later.m_iodevice, later'.current⟩
      rw [show (uint16_bytes _).length = 2 from rfl] at mark
      rw [length] at read
      rw [output_type, mark, Option.bind_some, uint16_of_bytes small, read]
      rfl

theorem inputs_eq (s : Serializer) (vs : List Value) :
    s.inputs vs = { s with m_iodevice := s.m_iodevice ++ vs.flatMap encoded } := by
  induction vs generalizing s with
  | nil => simp [inputs]
  | cons v vs ih => rw [inputs, ih, input_type_eq, List.flatMap_cons, List.append_assoc]

theorem outputs_encoded {vs ws : List Value} (alike : List.Forall₂ Alike vs ws)
    (there : s.current = vs.flatMap encoded ++ rest) :
    ∃ t, s.outputs ws = some (List.zipWith received vs ws, t) ∧ s.Later t rest := by
  induction alike generalizing s with
  | nil => exact ⟨s, rfl, rfl, there⟩
  | cons first _ ih =>
    rw [List.flatMap_cons, List.append_assoc] at there
    obtain ⟨t, read, later⟩ := output_encoded first there
    obtain ⟨u, reads, later'⟩ := ih later.current
    refine ⟨u, ?_, later'.m_iodevice.trans later.m_iodevice, later'.current⟩
    rw [outputs, read, Option.bind_some, reads]
    rfl

end Serializer

end ProjectsCpp.ButtonRpc
