import Mathlib.Data.List.Basic
import Mathlib.Data.Nat.Basic

/-! `download` of an FTP connection (`connection/ftpConnection.cc`): the file is read in blocks, and
the loop goes on as long as the stream has delivered a whole one. -/

namespace ProjectsCpp.WebServer

abbrev FileBytes := List UInt8

def bufferSize : Nat := 4096

structure IfStream where
  isOpen : Bool
  rest : FileBytes
  eof : Bool
  fail : Bool
  gcount : Nat
deriving DecidableEq

namespace IfStream

def good (f : IfStream) : Bool := !f.eof && !f.fail

def openFile (f : IfStream) (file : Option FileBytes) : IfStream :=
  match f.isOpen, file with
  | false, some content => ⟨true, content, false, false, f.gcount⟩
  | _, _ => { f with fail := true }

def close (f : IfStream) : IfStream := { f with isOpen := false }

def read (f : IfStream) (n : Nat) : IfStream × FileBytes :=
  if f.good then
    if n ≤ f.rest.length then ({ f with rest := f.rest.drop n, gcount := n }, f.rest.take n)
    else ({ f with rest := [], eof := true, fail := true, gcount := f.rest.length }, f.rest)
  else ({ f with fail := true, gcount := 0 }, [])

theorem read_rest {f : IfStream} {n : Nat} (pos : 0 < n) (whole : (f.read n).1.fail = false) :
    (f.read n).1.rest.length < f.rest.length := by
  unfold read at whole ⊢
  split at whole
  · split at whole
    · rename_i good enough
      simp only [if_pos good, if_pos enough, List.length_drop]
      omega
    · cases whole
  · cases whole

/-- The blocks that the loop hands to `writen`. -/
def readLoop (f : IfStream) : IfStream × List FileBytes :=
  if _whole : (f.read bufferSize).1.fail = false then
    let (f', blocks) := readLoop (f.read bufferSize).1
    (f', (f.read bufferSize).2.take (f.read bufferSize).1.gcount :: blocks)
  else ((f.read bufferSize).1, [])
termination_by f.rest.length
decreasing_by exact read_rest (by decide) _whole

/-- What comes of a `download`: the stream, and what is handed to `writen`, or nothing where the
file could not be opened and the client is told so. -/
def download (f : IfStream) (file : Option FileBytes) : IfStream × Option (List FileBytes) :=
  let f := f.openFile file
  if f.isOpen then
    let (f, blocks) := f.readLoop
    (f.close, some blocks)
  else (f.close, none)

variable {f : IfStream} {content : FileBytes}

theorem read_whole (good : f.good = true) (enough : bufferSize ≤ f.rest.length) :
    f.read bufferSize = ({ f with rest := f.rest.drop bufferSize, gcount := bufferSize },
      f.rest.take bufferSize) := by
  rw [read, if_pos good, if_pos enough]

theorem readLoop_sent (good : f.good = true) :
    f.readLoop.2.flatten = f.rest.take (bufferSize * (f.rest.length / bufferSize)) := by
  have fine : f.fail = false := by
    have both := (Bool.and_eq_true_iff.mp good).2
    rwa [Bool.not_eq_true'] at both
  induction more : f.rest.length using Nat.strong_induction_on generalizing f with
  | _ size ih =>
    rw [readLoop]
    by_cases enough : bufferSize ≤ f.rest.length
    · rw [read_whole good enough]
      have pos : 0 < bufferSize := by decide
      have length : (f.rest.drop bufferSize).length = size - bufferSize := by
        rw [List.length_drop, more]
      have later := ih (size - bufferSize) (by omega)
        (f := { f with rest := f.rest.drop bufferSize, gcount := bufferSize }) good fine length
      have blocks : bufferSize * (size / bufferSize) =
          bufferSize + bufferSize * ((size - bufferSize) / bufferSize) := by
        rw [Nat.div_eq_sub_div pos (more ▸ enough), Nat.mul_add, Nat.mul_one, Nat.add_comm]
      rw [dif_pos fine, List.flatten_cons, later, blocks, List.take_add, List.take_take,
        Nat.min_self]
    · have short : (f.read bufferSize).1.fail = true := by
        rw [read, if_pos good, if_neg enough]
      rw [dif_neg (by rw [short]; exact Bool.noConfusion), Nat.div_eq_of_lt (by omega)]
      rfl

theorem download_sent (closed : f.isOpen = false) :
    (f.download (some content)).2.map List.flatten =
      some (content.take (bufferSize * (content.length / bufferSize))) := by
  unfold download openFile
  rw [closed]
  exact congrArg some (readLoop_sent (f := ⟨true, content, false, false, f.gcount⟩) rfl)

/-- The whole file is handed on exactly when its length is a multiple of the size of the buffer. -/
theorem download_whole (closed : f.isOpen = false) :
    (f.download (some content)).2.map List.flatten = some content ↔
      bufferSize ∣ content.length := by
  rw [download_sent closed, Option.some_inj]
  have below := Nat.mul_div_le content.length bufferSize
  constructor
  · intro same
    have length := congrArg List.length same
    rw [List.length_take, Nat.min_eq_left below] at length
    exact ⟨_, length.symm⟩
  · intro divides
    rw [Nat.mul_div_cancel' divides, List.take_length]

theorem short_file_lost :
    (IfStream.download ⟨false, [], false, false, 0⟩ (some [65])).2 = some [] ∧
      (IfStream.download ⟨false, [], false, false, 0⟩ (some [65])).2.map List.flatten ≠
        some [65] := by
  have sent : (IfStream.download ⟨false, [], false, false, 0⟩ (some [65])).2 = some [] := by
    rw [download, openFile, if_pos (show true = true from rfl), readLoop, dif_neg (by decide)]
    exact rfl
  refine ⟨sent, ?_⟩
  rw [sent]
  decide

theorem download_whole_two_blocks :
    (IfStream.download ⟨false, [], true, true, 1⟩ (some (List.replicate 8192 65))).2.map
      List.flatten = some (List.replicate 8192 65) :=
  (download_whole (f := ⟨false, [], true, true, 1⟩) rfl).mpr (by
    rw [List.length_replicate]
    decide)

end IfStream

end ProjectsCpp.WebServer
