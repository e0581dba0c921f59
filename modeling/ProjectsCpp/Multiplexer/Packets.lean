import ProjectsCpp.Lib.Text
import ProjectsCpp.Lib.Substring
import ProjectsCpp.Multiplexer.MultiplexServer
import Mathlib.Tactic.IntervalCases

/-! What the multiplexer writes to its backend (`multiplexer.cc`): a header of three bytes with the
length and the id, and up to 255 bytes; the id 0 is for commands. -/

namespace ProjectsCpp.Multiplexer
open ProjectsCpp.Text ProjectsCpp.Substring

def kMaxPacketLen : Nat := 255

def kHeaderLen : Nat := 3

/-- The characters of `toIpPort`. -/
def ipPortChars : Str := "0123456789abcdef.:[]".toList

structure Peer where
  toIpPort : Str
  chars : ∀ c ∈ toIpPort, c ∈ ipPortChars
  short : toIpPort.length < 64

def toBytes (text : Str) : List UInt8 := text.map fun c => UInt8.ofNat c.toNat

def toText (bytes : List UInt8) : Str := bytes.map fun b => Char.ofNat b.toNat

def header (len : Nat) (id : Int) : List UInt8 :=
  [UInt8.ofNat len, UInt8.ofNat (id % 256).toNat, UInt8.ofNat (id / 256 % 256).toNat]

/-- The bytes of `sendBackendPacket`, and its assertion. -/
def sendBackendPacket (id : Int) (buf : List UInt8) : Option (List UInt8) :=
  if buf.length ≤ kMaxPacketLen then some (header buf.length id ++ buf) else none

/-- `snprintf` into 256 characters. -/
def snprintf (text : Str) : Str := text.take 255

def command (id : Int) (peer : Peer) (event : String) : Str :=
  snprintf ("CONN ".toList ++ decimal id ++ " FROM ".toList ++ peer.toIpPort ++ event.toList)

def upCommand (id : Int) (peer : Peer) : Str := command id peer " IS UP\r\n"

def downCommand (id : Int) (peer : Peer) : Str := command id peer " IS DOWN\r\n"

/-- A round of `sendBackendBuffer`: what it sends, and what is left. -/
def nextPacket (buf : List UInt8) : List UInt8 × List UInt8 :=
  if kMaxPacketLen < buf.length then (buf.take kMaxPacketLen, buf.drop kMaxPacketLen) else (buf, [])

theorem nextPacket_append (buf : List UInt8) : (nextPacket buf).1 ++ (nextPacket buf).2 = buf := by
  rw [nextPacket]
  split
  · exact List.take_append_drop ..
  · exact List.append_nil buf

theorem nextPacket_length (buf : List UInt8) : (nextPacket buf).1.length ≤ kMaxPacketLen := by
  rw [nextPacket]
  split
  · exact List.length_take_le ..
  · rename_i short
    exact Nat.le_of_not_lt short

theorem nextPacket_ne_nil {buf : List UInt8} (more : buf ≠ []) : (nextPacket buf).1 ≠ [] := by
  have positive := List.length_pos_iff.mpr more
  rw [nextPacket]
  split
  · rename_i long
    refine List.ne_nil_of_length_pos ?_
    rw [List.length_take, kMaxPacketLen]
    omega
  · exact more

/-! ### What the bytes say -/

theorem Peer.char (peer : Peer) {c : Char} (inside : c ∈ peer.toIpPort) :
    c.toNat < 128 ∧ c ≠ 'U' := by
  have all : (ipPortChars.all fun c => decide (c.toNat < 128 ∧ c ≠ 'U')) = true := by decide
  exact of_decide_eq_true (List.all_eq_true.mp all c (peer.chars c inside))

theorem toText_toBytes {text : Str} (ascii : ∀ c ∈ text, c.toNat < 128) :
    toText (toBytes text) = text := by
  rw [toText, toBytes, List.map_map]
  refine List.map_congr_left (fun c inside => ?_) |>.trans (List.map_id text)
  have bound := ascii c inside
  have small : (UInt8.ofNat c.toNat).toNat = c.toNat := by
    rw [UInt8.toNat_ofNat']
    omega
  rw [Function.comp_apply, small, Char.ofNat_toNat]
  rfl

theorem decimal_ascii {id : Int} {c : Char} (inside : c ∈ decimal id) : c.toNat < 128 := by
  rcases mem_decimal inside with digit | rfl
  · have bounds : 48 ≤ c.toNat ∧ c.toNat ≤ 57 := by
      simpa [Char.isDigit, UInt32.le_iff_toNat_le] using digit
    omega
  · decide

theorem decimal_short {id : Int} (low : 0 < id) (high : id ≤ kMaxConns) :
    (decimal id).length ≤ 2 := by
  rw [kMaxConns] at high
  interval_cases id <;> decide

theorem atoi_id {id : Int} (low : 0 < id) (high : id ≤ kMaxConns) (rest : Str) :
    atoi (decimal id ++ ' ' :: rest) = id := by
  rw [kMaxConns] at high
  interval_cases id <;> rfl

variable {id : Int} {peer : Peer} {event : String}

theorem command_whole (low : 0 < id) (high : id ≤ kMaxConns) (short : event.toList.length ≤ 10) :
    command id peer event =
        "CONN ".toList ++ decimal id ++ " FROM ".toList ++ peer.toIpPort ++ event.toList ∧
      (command id peer event).length ≤ kMaxPacketLen := by
  have digits := decimal_short low high
  have address := peer.short
  have words : "CONN ".toList.length = 5 ∧ " FROM ".toList.length = 6 := ⟨rfl, rfl⟩
  have length : ("CONN ".toList ++ decimal id ++ " FROM ".toList ++ peer.toIpPort ++
      event.toList).length ≤ 255 := by
    simp only [List.length_append]
    omega
  have whole : command id peer event =
      "CONN ".toList ++ decimal id ++ " FROM ".toList ++ peer.toIpPort ++ event.toList :=
    List.take_of_length_le length
  exact ⟨whole, whole ▸ length⟩

theorem command_ascii (low : 0 < id) (high : id ≤ kMaxConns) (short : event.toList.length ≤ 10)
    (ascii : (event.toList.all fun c => decide (c.toNat < 128)) = true) :
    ∀ c ∈ command id peer event, c.toNat < 128 := by
  have words : (("CONN ".toList ++ " FROM ".toList).all fun c => decide (c.toNat < 128)) = true := by
    decide
  rw [(command_whole low high short).1]
  intro c inside
  simp only [List.mem_append] at inside
  rcases inside with (((word | digit) | word) | address) | word
  · exact of_decide_eq_true (List.all_eq_true.mp words c (List.mem_append_left _ word))
  · exact decimal_ascii digit
  · exact of_decide_eq_true (List.all_eq_true.mp words c (List.mem_append_right _ word))
  · exact (peer.char address).1
  · exact of_decide_eq_true (List.all_eq_true.mp ascii c word)

theorem command_id (low : 0 < id) (high : id ≤ kMaxConns) (short : event.toList.length ≤ 10) :
    atoi ((command id peer event).drop 5) = id := by
  rw [(command_whole low high short).1]
  have rest : ("CONN ".toList ++ decimal id ++ " FROM ".toList ++ peer.toIpPort ++
      event.toList).drop 5 = decimal id ++ ' ' :: ("FROM ".toList ++ peer.toIpPort ++
      event.toList) := by
    simp only [List.append_assoc]
    rfl
  rw [rest, atoi_id low high]

theorem upCommand_isUp (low : 0 < id) (high : id ≤ kMaxConns) :
    (findSub " IS UP".toList (upCommand id peer)).isSome := by
  rw [Option.isSome_iff_ne_none]
  refine mt findSub_eq_none.mp (not_not_intro ?_)
  rw [upCommand, (command_whole low high (by decide)).1]
  exact ⟨_, "\r\n".toList, by rw [List.append_assoc]; rfl⟩

theorem downCommand_isUp (low : 0 < id) (high : id ≤ kMaxConns) :
    (findSub " IS UP".toList (downCommand id peer)).isSome = false := by
  rw [Option.isSome_eq_false_iff, Option.isNone_iff_eq_none, findSub_eq_none, downCommand,
    (command_whole low high (by decide)).1]
  intro occurs
  have letter : 'U' ∈ "CONN ".toList ++ decimal id ++ " FROM ".toList ++ peer.toIpPort ++
      " IS DOWN\r\n".toList := occurs.subset (by decide)
  simp only [List.mem_append] at letter
  rcases letter with (((word | digit) | word) | address) | word
  · exact absurd word (by decide)
  · exact notMem_decimal id (by decide) (by decide) digit
  · exact absurd word (by decide)
  · exact (peer.char address).2 rfl
  · exact absurd word (by decide)

end ProjectsCpp.Multiplexer
