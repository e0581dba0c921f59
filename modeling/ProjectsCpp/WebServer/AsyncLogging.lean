import ProjectsCpp.Lib.Run
import Mathlib.Tactic.Common

/-! The asynchronous log of the web server (`base/AsyncLogging.cpp`): any threads append, and the
thread of `threadFunc` writes the buffers it swaps out. A step is a section under the lock, or what
the back end does between two of them. A buffer is kept as its lines, whose bytes stand in it one
after the other; `fwrite` takes what it gets. -/

namespace ProjectsCpp.WebServer
open ProjectsCpp.Run

abbrev Line := List UInt8

def kLargeBuffer : Nat := 4000 * 1000

structure FixedBuffer where
  lines : List Line
  fits : lines.flatten.length ≤ kLargeBuffer
deriving DecidableEq

namespace FixedBuffer

def new : FixedBuffer := ⟨[], Nat.zero_le _⟩

def data (b : FixedBuffer) : List UInt8 := b.lines.flatten

def length (b : FixedBuffer) : Nat := b.data.length

def avail (b : FixedBuffer) : Nat := kLargeBuffer - b.length

def append (b : FixedBuffer) (line : Line) : FixedBuffer :=
  if room : b.avail > line.length then
    ⟨b.lines ++ [line], by
      rw [avail, length, data] at room
      rw [List.flatten_append, List.length_append, List.flatten_singleton]
      omega⟩
  else b

def reset (_ : FixedBuffer) : FixedBuffer := new

theorem append_lines {b : FixedBuffer} {line : Line} (room : b.avail > line.length) :
    (b.append line).lines = b.lines ++ [line] := by
  rw [append, dif_pos room]

end FixedBuffer

def linesOf (buffers : List FixedBuffer) : List Line := buffers.flatMap FixedBuffer.lines

/-- `LogFile` with its `AppendFile`. -/
structure LogFile where
  file : List Line
  flushed : List Line
  count : Nat
deriving DecidableEq

namespace LogFile

def flushEveryN : Nat := 1024

def flush (f : LogFile) : LogFile := { f with flushed := f.file }

def append (f : LogFile) (b : FixedBuffer) : LogFile :=
  let f := { f with file := f.file ++ b.lines, count := f.count + 1 }
  if f.count ≥ flushEveryN then { f with count := 0 }.flush else f

@[simp] theorem file_append (f : LogFile) (b : FixedBuffer) :
    (f.append b).file = f.file ++ b.lines := by
  rw [append]
  dsimp only
  split <;> rfl

end LogFile

/-- Where the back end is in `threadFunc`. -/
inductive LogPhase where
  | head
  | lock
  | waiting
  | swapped
  | writing (rest : List FixedBuffer)
  | finish
  | done
deriving DecidableEq

/-- `appended` are the lines that were appended, and `turns` what the back end has taken to write in
each of its turns. -/
structure AsyncLogging where
  running : Bool
  currentBuffer : Option FixedBuffer
  nextBuffer : Option FixedBuffer
  buffers : List FixedBuffer
  newBuffer1 : Option FixedBuffer
  newBuffer2 : Option FixedBuffer
  buffersToWrite : List FixedBuffer
  output : LogFile
  phase : LogPhase
  appended : List Line
  turns : List (List FixedBuffer)
deriving DecidableEq

inductive LogStep where
  | append (line : Line)
  | test
  | lock
  | wake
  | drop
  | write
  | refill
  | finish
  | stop
deriving DecidableEq

namespace AsyncLogging

/-- `start` has run. -/
def start : AsyncLogging :=
  ⟨true, some .new, some .new, [], some .new, some .new, [], ⟨[], [], 0⟩, .head, [], []⟩

def append (s : AsyncLogging) (line : Line) : Option AsyncLogging :=
  s.currentBuffer.map fun current =>
    let s := { s with appended := s.appended ++ [line] }
    if current.avail > line.length then { s with currentBuffer := some (current.append line) }
    else { s with
      buffers := s.buffers ++ [current]
      currentBuffer := some ((s.nextBuffer.getD .new).append line)
      nextBuffer := none }

/-- The section of `threadFunc` under the lock, behind the wait. -/
def swap (s : AsyncLogging) : Option AsyncLogging :=
  s.currentBuffer.map fun current => { s with
    buffers := s.buffersToWrite
    buffersToWrite := s.buffers ++ [current]
    currentBuffer := s.newBuffer1
    newBuffer1 := none
    nextBuffer := if s.nextBuffer = none then s.newBuffer2 else s.nextBuffer
    newBuffer2 := if s.nextBuffer = none then none else s.newBuffer2
    phase := .swapped }

def drop (s : AsyncLogging) : AsyncLogging :=
  let kept := if s.buffersToWrite.length > 25 then s.buffersToWrite.take 2 else s.buffersToWrite
  { s with
    buffersToWrite := kept
    phase := .writing kept
    turns := s.turns ++ [s.buffersToWrite] }

/-- A buffer that the back end has no more is got back from those it wrote. -/
def recycle (newBuffer : Option FixedBuffer) (written : List FixedBuffer) :
    Option FixedBuffer × List FixedBuffer :=
  match newBuffer with
  | some b => (some b, written)
  | none => (written.getLast?.map FixedBuffer.reset, written.dropLast)

def refill (s : AsyncLogging) : AsyncLogging :=
  let written := if s.buffersToWrite.length > 2 then s.buffersToWrite.take 2 else s.buffersToWrite
  let first := recycle s.newBuffer1 written
  let second := recycle s.newBuffer2 first.2
  { s with
    newBuffer1 := first.1
    newBuffer2 := second.1
    buffersToWrite := []
    output := s.output.flush
    phase := .head }

def step (s : AsyncLogging) : LogStep → Option AsyncLogging
  | .append line => if line.length < kLargeBuffer then s.append line else none
  | .test =>
    match s.phase with
    | .head => some { s with phase := if s.running then .lock else .finish }
    | _ => none
  | .lock =>
    match s.phase with
    | .lock => if s.buffers = [] then some { s with phase := .waiting } else s.swap
    | _ => none
  | .wake =>
    match s.phase with
    | .waiting => s.swap
    | _ => none
  | .drop =>
    match s.phase with
    | .swapped => some s.drop
    | _ => none
  | .write =>
    match s.phase with
    | .writing (b :: rest) => some { s with output := s.output.append b, phase := .writing rest }
    | _ => none
  | .refill =>
    match s.phase with
    | .writing [] => some s.refill
    | _ => none
  | .finish =>
    match s.phase with
    | .finish => some { s with output := s.output.flush, phase := .done }
    | _ => none
  | .stop => if s.running then some { s with running := false } else none

def machine : Machine AsyncLogging LogStep where
  start := (· = start)
  step := step

/-- A turn of up to 25 buffers is written whole, and of a longer one the first two buffers. -/
def keptOf (turn : List FixedBuffer) : List FixedBuffer :=
  if turn.length ≤ 25 then turn else turn.take 2

def keptLines (s : AsyncLogging) : List Line := linesOf (s.turns.flatMap keptOf)

def takenLines (s : AsyncLogging) : List Line := linesOf s.turns.flatten

def untaken (s : AsyncLogging) : List FixedBuffer :=
  if s.phase = .swapped then s.buffersToWrite else []

def unwritten (s : AsyncLogging) : List FixedBuffer :=
  match s.phase with
  | .writing rest => rest
  | _ => []

/-- The lines stay in order, and the assertions of the loop head hold. -/
structure InOrder (s : AsyncLogging) : Prop where
  head : s.phase = .head → s.newBuffer1 = some .new ∧ s.newBuffer2 = some .new ∧
    s.buffersToWrite = []
  current : s.currentBuffer ≠ none
  appended : s.appended = s.takenLines ++ linesOf s.untaken ++ linesOf s.buffers ++
    linesOf s.currentBuffer.toList
  written : s.output.file ++ linesOf s.unwritten = s.keptLines

end AsyncLogging

def LogPhase.resting : LogPhase → Bool
  | .swapped | .writing _ => false
  | _ => true

@[simp] theorem linesOf_nil : linesOf [] = [] := rfl

@[simp] theorem linesOf_append (bs cs : List FixedBuffer) :
    linesOf (bs ++ cs) = linesOf bs ++ linesOf cs := List.flatMap_append

@[simp] theorem linesOf_cons (b : FixedBuffer) (bs : List FixedBuffer) :
    linesOf (b :: bs) = b.lines ++ linesOf bs := List.flatMap_cons

namespace AsyncLogging

/-- A buffer of the front end that is handed out has a buffer behind it in `buffers` or
`buffersToWrite`, so that the back end gets back what it gives. -/
structure Kept (s : AsyncLogging) : Prop where
  current : ∃ c, s.currentBuffer = some c
  next : ∀ b, s.nextBuffer = some b → b = .new
  fed : s.nextBuffer = none → s.buffers ≠ []
  ready : s.phase.resting = true → s.newBuffer1 = some .new ∧ s.newBuffer2 = some .new ∧
    s.buffersToWrite = []
  lent : s.phase.resting = false → s.newBuffer1 = none ∧ s.buffersToWrite ≠ [] ∧
    (s.newBuffer2 = some .new ∨ s.newBuffer2 = none ∧ 2 ≤ s.buffersToWrite.length)
  appended : s.appended = s.takenLines ++ linesOf s.untaken ++ linesOf s.buffers ++
    linesOf s.currentBuffer.toList
  written : s.output.file ++ linesOf s.unwritten = s.keptLines

variable {s s' : AsyncLogging} {line : Line} {a : LogStep}

theorem Kept.inOrder (kept : s.Kept) : s.InOrder where
  head := fun head => kept.ready (head ▸ rfl)
  current := fun none => by
    obtain ⟨c, here⟩ := kept.current
    exact nomatch none.symm.trans here
  appended := kept.appended
  written := kept.written

theorem Kept.append (kept : s.Kept) (short : line.length < kLargeBuffer)
    (done : s.append line = some s') : s'.Kept := by
  obtain ⟨current, here, rfl⟩ := Option.map_eq_some_iff.mp done
  have appended := kept.appended
  rw [here] at appended
  split
  · rename_i room
    refine { kept with current := ⟨_, rfl⟩, appended := ?_ }
    show s.appended ++ [line] = s.takenLines ++ linesOf s.untaken ++ linesOf s.buffers ++ linesOf [_]
    rw [appended, linesOf_cons, FixedBuffer.append_lines room]
    simp
  · -- The line begins an empty buffer.
    have empty : s.nextBuffer.getD .new = .new := by
      cases next : s.nextBuffer with
      | none => rfl
      | some b => exact kept.next b next
    have room : FixedBuffer.new.avail > line.length := short
    refine { kept with
      current := ⟨_, rfl⟩
      next := nofun
      fed := fun _ => List.append_ne_nil_of_right_ne_nil _ (List.cons_ne_nil _ _)
      appended := ?_ }
    show s.appended ++ [line] = s.takenLines ++ linesOf s.untaken ++ linesOf (s.buffers ++ [current]) ++
      linesOf [_]
    rw [appended, empty, linesOf_cons, FixedBuffer.append_lines room]
    simp [FixedBuffer.new]

theorem Kept.swap (kept : s.Kept) (resting : s.phase.resting = true) (before : s.untaken = [])
    (none : s.unwritten = []) (done : s.swap = some s') : s'.Kept := by
  obtain ⟨current, here, rfl⟩ := Option.map_eq_some_iff.mp done
  obtain ⟨new1, new2, empty⟩ := kept.ready resting
  have appended := kept.appended
  have written := kept.written
  rw [here, before] at appended
  rw [none] at written
  refine ⟨⟨_, new1⟩, fun b next => ?_, fun gone => ?_, nofun, fun _ => ⟨rfl, ?_, ?_⟩, ?_, written⟩
  · change (if s.nextBuffer = Option.none then s.newBuffer2 else s.nextBuffer) = some b at next
    split at next
    · exact Option.some.inj (next.symm.trans new2)
    · exact kept.next b next
  · change (if s.nextBuffer = Option.none then s.newBuffer2 else s.nextBuffer) = Option.none at gone
    split at gone
    · exact nomatch gone.symm.trans new2
    · rename_i some
      exact absurd gone some
  · exact List.append_ne_nil_of_right_ne_nil _ (List.cons_ne_nil _ _)
  · show (if s.nextBuffer = Option.none then Option.none else s.newBuffer2) = _ ∨ (if s.nextBuffer =
      Option.none then Option.none else s.newBuffer2) = _ ∧ 2 ≤ (s.buffers ++ [current]).length
    split
    · rename_i gone
      have some := List.length_pos_iff.mpr (kept.fed gone)
      refine .inr ⟨rfl, ?_⟩
      rw [List.length_append]
      exact Nat.succ_le_succ some
    · exact .inl new2
  · show s.appended = s.takenLines ++ linesOf (s.buffers ++ [current]) ++ linesOf s.buffersToWrite ++
      linesOf s.newBuffer1.toList
    rw [appended, new1, empty]
    simp [FixedBuffer.new]

theorem drop_eq (s : AsyncLogging) : s.drop = { s with
    buffersToWrite := keptOf s.buffersToWrite
    phase := .writing (keptOf s.buffersToWrite)
    turns := s.turns ++ [s.buffersToWrite] } := by
  have kept : (if s.buffersToWrite.length > 25 then s.buffersToWrite.take 2 else s.buffersToWrite) =
      keptOf s.buffersToWrite := by
    unfold keptOf
    split
    · rw [if_neg (by omega)]
    · rw [if_pos (by omega)]
  rw [drop, kept]

theorem keptOf_ne_nil {turn : List FixedBuffer} (some : turn ≠ []) : keptOf turn ≠ [] := by
  have length := List.length_pos_iff.mpr some
  refine List.ne_nil_of_length_pos ?_
  unfold keptOf
  split
  · exact length
  · rw [List.length_take]
    omega

theorem two_le_keptOf {turn : List FixedBuffer} (two : 2 ≤ turn.length) :
    2 ≤ (keptOf turn).length := by
  unfold keptOf
  split
  · exact two
  · rw [List.length_take]
    omega

theorem Kept.drop (kept : s.Kept) (phase : s.phase = .swapped) : s.drop.Kept := by
  obtain ⟨new1, some, new2⟩ := kept.lent (phase ▸ rfl)
  have appended := kept.appended
  have written := kept.written
  rw [untaken, if_pos phase] at appended
  rw [unwritten, phase, linesOf_nil, List.append_nil] at written
  rw [drop_eq]
  refine { kept with
    ready := nofun
    lent := fun _ => ⟨new1, keptOf_ne_nil some,
      new2.imp_right fun ⟨gone, two⟩ => ⟨gone, two_le_keptOf two⟩⟩
    appended := ?_
    written := ?_ }
  · show s.appended = linesOf (s.turns ++ [s.buffersToWrite]).flatten ++ linesOf [] ++ _ ++ _
    rw [appended, List.flatten_append, List.flatten_singleton, linesOf_append, linesOf_nil,
      List.append_nil]
    rfl
  · show s.output.file ++ linesOf (keptOf s.buffersToWrite) =
      linesOf ((s.turns ++ [s.buffersToWrite]).flatMap keptOf)
    rw [written, List.flatMap_append, List.flatMap_singleton, linesOf_append]
    rfl

theorem recycle_new {newBuffer : Option FixedBuffer} {written : List FixedBuffer}
    (enough : newBuffer = some .new ∨ newBuffer = none ∧ written ≠ []) :
    (recycle newBuffer written).1 = some .new := by
  rcases enough with rfl | ⟨rfl, held⟩
  · rfl
  · show written.getLast?.map FixedBuffer.reset = some .new
    rw [List.getLast?_eq_some_getLast held]
    rfl

theorem Kept.refill (kept : s.Kept) (phase : s.phase = .writing []) : s.refill.Kept := by
  obtain ⟨new1, some, new2⟩ := kept.lent (phase ▸ rfl)
  have appended := kept.appended
  have written := kept.written
  rw [untaken, phase, if_neg nofun] at appended
  rw [unwritten, phase] at written
  -- `resize(2)` leaves as many buffers as are asked for.
  obtain ⟨front, these, some, two⟩ : ∃ front, s.refill = { s with
      newBuffer1 := (recycle s.newBuffer1 front).1
      newBuffer2 := (recycle s.newBuffer2 (recycle s.newBuffer1 front).2).1
      buffersToWrite := []
      output := s.output.flush
      phase := .head } ∧ front ≠ [] ∧ (2 ≤ s.buffersToWrite.length → 2 ≤ front.length) := by
    refine ⟨_, rfl, ?_⟩
    split
    · have two : (s.buffersToWrite.take 2).length = 2 := List.length_take_of_le (by omega)
      exact ⟨List.ne_nil_of_length_pos (by omega), fun _ => Nat.le_of_eq two.symm⟩
    · exact ⟨some, id⟩
  rw [these]
  refine { kept with
    ready := fun _ => ⟨recycle_new (.inr ⟨new1, some⟩), recycle_new ?_, rfl⟩
    lent := nofun
    appended := appended
    written := written }
  refine new2.imp_right fun ⟨gone, enough⟩ => ⟨gone, ?_⟩
  rw [new1]
  show front.dropLast ≠ []
  exact List.ne_nil_of_length_pos (by
    have := two enough
    rw [List.length_dropLast]
    omega)

theorem Kept.move (kept : s.Kept) (before : s.phase.resting = true) {phase : LogPhase}
    (after : phase.resting = true) (f : LogFile) (file : f.file = s.output.file) :
    Kept { s with phase := phase, output := f } := by
  have rest : ∀ {p : LogPhase}, p.resting = true → ∀ t : AsyncLogging, t.phase = p →
      t.untaken = [] ∧ t.unwritten = [] := by
    intro p resting t same
    rw [untaken, unwritten, same]
    cases p with
    | swapped | writing rest => cases resting
    | head | lock | waiting | finish | done => exact ⟨rfl, rfl⟩
  obtain ⟨taken₁, written₁⟩ := rest before s rfl
  obtain ⟨taken₂, written₂⟩ := rest after { s with phase := phase, output := f } rfl
  have appended := kept.appended
  have written := kept.written
  refine { kept with
    ready := fun _ => kept.ready before
    lent := fun held => nomatch after.symm.trans held
    appended := ?_
    written := ?_ }
  · rw [taken₂]
    rwa [taken₁] at appended
  · rw [written₂]
    rw [written₁] at written
    exact (congrArg (· ++ linesOf []) file).trans written

theorem step_kept (kept : s.Kept) (next : step s a = some s') : s'.Kept := by
  cases a with
  | append line =>
    obtain ⟨short, done⟩ := Option.ite_none_right_eq_some.mp next
    exact kept.append short done
  | test =>
    simp only [step] at next
    split at next
    · rename_i phase
      obtain rfl := Option.some.inj next
      refine kept.move (phase ▸ rfl) ?_ s.output rfl
      split <;> rfl
    · cases next
  | lock =>
    simp only [step] at next
    split at next
    · rename_i phase
      split at next
      · exact Option.some.inj next ▸ kept.move (phase ▸ rfl) rfl s.output rfl
      · exact kept.swap (phase ▸ rfl) (by rw [untaken, phase, if_neg nofun]) (by rw [unwritten, phase])
          next
    · cases next
  | wake =>
    simp only [step] at next
    split at next
    · rename_i phase
      exact kept.swap (phase ▸ rfl) (by rw [untaken, phase, if_neg nofun]) (by rw [unwritten, phase])
        next
    · cases next
  | drop =>
    simp only [step] at next
    split at next
    · exact Option.some.inj next ▸ kept.drop ‹_›
    · cases next
  | write =>
    simp only [step] at next
    split at next
    · rename_i b rest phase
      obtain rfl := Option.some.inj next
      have appended := kept.appended
      have written := kept.written
      rw [untaken, phase, if_neg nofun] at appended
      rw [unwritten, phase] at written
      refine { kept with
        ready := nofun
        lent := fun _ => kept.lent (phase ▸ rfl)
        appended := appended
        written := ?_ }
      show (s.output.append b).file ++ linesOf rest = _
      rw [LogFile.file_append, List.append_assoc, ← linesOf_cons]
      exact written
    · cases next
  | refill =>
    simp only [step] at next
    split at next
    · exact Option.some.inj next ▸ kept.refill ‹_›
    · cases next
  | finish =>
    simp only [step] at next
    split at next
    · rename_i phase
      exact Option.some.inj next ▸ kept.move (phase ▸ rfl) rfl s.output.flush rfl
    · cases next
  | stop =>
    obtain ⟨-, same⟩ := Option.ite_none_right_eq_some.mp next
    exact Option.some.inj same ▸ { kept with }

theorem kept_of_reachable {ok : AsyncLogging → LogStep → Prop} (reach : Reach machine ok s) :
    s.Kept := by
  refine reach.invariant (P := Kept) ?_ fun s a s' kept _ next => step_kept kept next
  rintro s rfl
  exact ⟨⟨_, rfl⟩, fun b next => (Option.some.inj next).symm, nofun, fun _ => ⟨rfl, rfl, rfl⟩, nofun,
    rfl, rfl⟩

/-- The log keeps its lines in order, and its assertions hold. -/
theorem lines_in_order (reach : Reachable machine s) : s.InOrder := (kept_of_reachable reach).inOrder

def holding (line : Line) : FixedBuffer := FixedBuffer.new.append line

theorem holding_lines (short : line.length < kLargeBuffer) : (holding line).lines = [line] :=
  FixedBuffer.append_lines (b := .new) short

/-- What `n + 1` appends of a line leave that is longer than half a buffer. -/
def crowded (line : Line) (n : Nat) : AsyncLogging :=
  { start with
    currentBuffer := some (holding line)
    nextBuffer := if n = 0 then some .new else none
    buffers := List.replicate n (holding line)
    appended := List.replicate (n + 1) line }

theorem append_full {current : FixedBuffer} (here : s.currentBuffer = some current)
    (full : ¬ current.avail > line.length) : s.append line = some { s with
      appended := s.appended ++ [line]
      buffers := s.buffers ++ [current]
      currentBuffer := some ((s.nextBuffer.getD .new).append line)
      nextBuffer := none } := by
  rw [append, here, Option.map_some]
  exact congrArg some (if_neg full)

theorem append_crowded (short : line.length < kLargeBuffer) (long : kLargeBuffer ≤ 2 * line.length)
    (n : Nat) : exec machine start (List.replicate (n + 1) (.append line)) = some (crowded line n) := by
  induction n with
  | zero =>
    have room : FixedBuffer.new.avail > line.length := short
    show (if line.length < kLargeBuffer then start.append line else none).bind some = _
    rw [if_pos short, append, start, Option.map_some, if_pos room]
    rfl
  | succ n ih =>
    have full : ¬ (holding line).avail > line.length := by
      have length : (holding line).length = line.length := by
        rw [FixedBuffer.length, FixedBuffer.data, holding_lines short]
        exact congrArg List.length (List.flatten_singleton (l := line))
      rw [FixedBuffer.avail, length]
      omega
    have empty : (crowded line n).nextBuffer.getD .new = .new := by
      show (if n = 0 then some FixedBuffer.new else none).getD .new = .new
      split <;> rfl
    have next : (crowded line n).append line = some (crowded line (n + 1)) := by
      rw [append_full rfl full, empty]
      simp only [crowded, List.replicate_succ', holding, Nat.succ_ne_zero, if_false]
    rw [List.replicate_succ']
    refine exec_append ih ?_
    show (if line.length < kLargeBuffer then (crowded line n).append line else none).bind some = _
    rw [if_pos short, next, Option.bind_some]

def dropsTurn (line : Line) : List LogStep :=
  List.replicate 27 (.append line) ++ [.test, .lock, .drop, .write, .write, .refill]

theorem exec_dropsTurn (short : line.length < kLargeBuffer) (long : kLargeBuffer ≤ 2 * line.length) :
    ∃ s, exec machine start (dropsTurn line) = some s ∧ s.output.flushed = [line, line] ∧
      s.appended = List.replicate 27 line := by
  obtain ⟨s, done, flushed, appended⟩ : ∃ s, exec machine (crowded line 26)
      [.test, .lock, .drop, .write, .write, .refill] = some s ∧
      s.output.flushed = (holding line).lines ++ (holding line).lines ∧
      s.appended = List.replicate 27 line := ⟨_, rfl, rfl, rfl⟩
  rw [holding_lines short] at flushed
  exact ⟨s, exec_append (append_crowded short long 26) done, flushed, appended⟩

@[irreducible] def longLine : Line := List.replicate 2000000 7

theorem length_longLine : longLine.length = 2000000 := by
  rw [longLine]
  exact List.length_replicate

theorem lines_in_order_dropped :
    ∃ s, exec machine start (dropsTurn longLine) = some s ∧
      s.output.flushed = [longLine, longLine] ∧ s.appended = List.replicate 27 longLine ∧
      s.InOrder := by
  have short : longLine.length < kLargeBuffer := by
    rw [length_longLine]
    decide
  have long : kLargeBuffer ≤ 2 * longLine.length := by
    rw [length_longLine]
    decide
  obtain ⟨s, ran, flushed, appended⟩ := exec_dropsTurn short long
  exact ⟨s, ran, flushed, appended, lines_in_order (Reach.exec (.start (M := machine) rfl) ran)⟩

end AsyncLogging

end ProjectsCpp.WebServer
