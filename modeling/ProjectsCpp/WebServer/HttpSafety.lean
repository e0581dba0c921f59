import ProjectsCpp.WebServer.HttpParsing
import ProjectsCpp.Lib.Run

/-! Whether the parser of an HTTP connection stays inside its buffer and ends, whatever the bytes.
Here `nowReadPos_` is kept as `find` and `substr` see it: an `int` turned into a `size_t`, so that a
negative one is a place far behind the buffer. A `none` is a place out of range or an `int` sum that
overflows. -/

namespace ProjectsCpp.WebServer
open ProjectsCpp.Text (Str)
open ProjectsCpp.Substring ProjectsCpp.Run

namespace HttpConnection
namespace Wrapping

def asInt (n : Nat) : Nat := ((n : Int).bmod (2 ^ 32) % 2 ^ 64).toNat

def plus (pos n : Nat) : Option Nat :=
  if pos ≤ kIntMax ∧ kIntMax < pos + n then none else some ((pos + n) % 2 ^ 64)

def substr (s : Str) (pos n : Nat) : Option Str :=
  if pos ≤ s.length then some ((s.drop pos).take n) else none

/-- `operator[]`, which may read the NUL behind the end. -/
def charAt (s : Str) (i : Nat) : Option Char := if i ≤ s.length then some (s.getD i '\x00') else none

def findStrFromBuffer (c : HttpConnection) (str : Str) : Option (Option (Str × HttpConnection)) :=
  match findFrom c.inBuffer str c.nowReadPos with
  | none => some none
  | some pos => (substr c.inBuffer c.nowReadPos (pos - c.nowReadPos)).map fun msg =>
    some (msg, { c with nowReadPos := asInt (pos + str.length) })

def parseVersion (c : HttpConnection) : Option HttpConnection :=
  (findStrFromBuffer c crlf).map fun
    | none => c.fail .badRequest
    | some (msg, c) =>
      match versionOf msg with
      | none => c.fail .badRequest
      | some version => { c with version := version, parseState := .header }

variable (files : Str → Option Str)

def parseFileName (c : HttpConnection) : Option HttpConnection :=
  (findStrFromBuffer c [' ']).bind fun
    | none => some (c.fail .badRequest)
    | some (msg, c) =>
      let c := { c with fileName := if msg = [] then "index.html".toList else msg }
      match files c.fileName with
      | none => some (c.fail .notFound)
      | some content => parseVersion { c with fileSize := (content.length : Int).bmod (2 ^ 32) }

def parseRequest (c : HttpConnection) : Option HttpConnection :=
  (findStrFromBuffer c [' ', '/']).bind fun
    | none => some (c.fail .badRequest)
    | some (msg, c) =>
      match methodOf msg with
      | none => some (c.fail .badRequest)
      | some method => parseFileName files { c with method := method }

/-- The test for the empty line; the second place is only read behind a `'\r'`. -/
def atEmptyLine (c : HttpConnection) : Option Bool :=
  (charAt c.inBuffer c.nowReadPos).bind fun first =>
    if first = '\r' then
      (plus c.nowReadPos 1).bind fun next => (charAt c.inBuffer next).map fun second => second = '\n'
    else some false

def parseHeader (c : HttpConnection) : Option HttpConnection :=
  (atEmptyLine c).bind fun
    | true => some { c with parseState := .success }
    | false => (findStrFromBuffer c [':', ' ']).bind fun
      | none => some (c.fail .badRequest)
      | some (key, c) => (findStrFromBuffer c crlf).map fun
        | none => c.fail .badRequest
        | some (value, c) =>
          { c with headers := setHeader c.headers key value, parseState := .header }

def fileTypeOf (fileName : Str) : Option Str :=
  match findSub ['.'] fileName with
  | none => some (getMime "default".toList)
  | some dot => (substr fileName dot fileName.length).map getMime

def parseSuccess (c : HttpConnection) : Option HttpConnection :=
  (plus c.nowReadPos 2).bind fun pos => (substr c.inBuffer pos c.inBuffer.length).bind fun rest =>
    (fileTypeOf c.fileName).map fun fileType =>
      let keepAlive := c.keepAlive || keepAliveOf c.version c.headers
      { c with
        inBuffer := rest
        nowReadPos := 0
        keepAlive := keepAlive
        fileType := fileType
        writeHandler := some .handleSuccess
        headers := []
        parseState := .request
        successes := c.successes ++ [⟨c.method, c.fileName, c.version, c.headers, keepAlive⟩] }

def parse (c : HttpConnection) : Option HttpConnection :=
  match c.parseState with
  | .error => some c.parseError
  | .request => parseRequest files c
  | .header => parseHeader c
  | .success => parseSuccess c

end Wrapping

/-! ### Runs -/

/-- A connection, and whether `handleRead` is in its loop. A call that leaves the buffer leaves no
connection. -/
structure Parsing where
  conn : Option HttpConnection
  looping : Bool
deriving DecidableEq

/-- The start of a `handleRead` with what `readn` brings, one that finds the connection closed, a
round of the loop with the files there are, and a write handler with what it makes of
`outBuffer_`. -/
inductive ParsingStep where
  | read (bytes : Str)
  | close (bytes : Str)
  | round (files : Str → Option Str)
  | write (out : Str)

namespace Parsing

def step (s : Parsing) (a : ParsingStep) : Option Parsing :=
  s.conn.bind fun c =>
    match s.looping, a with
    | false, .read bytes => some ⟨some { c with inBuffer := c.inBuffer ++ bytes }, true⟩
    | false, .close bytes => some ⟨some { c with inBuffer := c.inBuffer ++ bytes }.reset, false⟩
    | false, .write out => c.writeHandler.map fun
      | .handleSuccess => ⟨some { c with outBuffer := out }.reset, false⟩
      | .handleError _ => ⟨some { c with outBuffer := [] }, false⟩
    | true, .round files => if c.hasLine then some ⟨Wrapping.parse files c, true⟩ else some ⟨some c, false⟩
    | _, _ => none

def machine : Machine Parsing ParsingStep where
  start := (· = ⟨some new, false⟩)
  step := step

end Parsing

def endOf (text sub : Str) (pos : Nat) : Option Nat := (findFrom text sub pos).map (· + sub.length)

/-- The places that a round takes `nowReadPos_` to, as far as it comes, are no larger than an `int`;
so is the one behind an empty line. -/
def Fits (files : Str → Option Str) (c : HttpConnection) : Prop :=
  match c.parseState with
  | .error => True
  | .request => ∀ i ∈ endOf c.inBuffer [' ', '/'] c.nowReadPos, i ≤ kIntMax ∧
    (methodOf ((c.inBuffer.drop c.nowReadPos).take (i - 2 - c.nowReadPos)) ≠ none →
      ∀ j ∈ endOf c.inBuffer [' '] i, j ≤ kIntMax ∧
        (files (if (c.inBuffer.drop i).take (j - 1 - i) = [] then "index.html".toList
            else (c.inBuffer.drop i).take (j - 1 - i)) ≠ none →
          ∀ k ∈ endOf c.inBuffer crlf j, k ≤ kIntMax))
  | .header => (c.inBuffer[c.nowReadPos]? = some '\r' → c.nowReadPos + 1 ≤ kIntMax) ∧
    (¬(c.inBuffer[c.nowReadPos]? = some '\r' ∧ c.inBuffer[c.nowReadPos + 1]? = some '\n') →
      ∀ i ∈ endOf c.inBuffer [':', ' '] c.nowReadPos, i ≤ kIntMax ∧
        ∀ j ∈ endOf c.inBuffer crlf i, j ≤ kIntMax)
  | .success => c.nowReadPos + 2 ≤ kIntMax

instance (files : Str → Option Str) (c : HttpConnection) : Decidable (c.Fits files) := by
  unfold Fits
  cases c.parseState <;> infer_instance

namespace Parsing

def Ok (s : Parsing) : ParsingStep → Prop
  | .round files => ∀ c ∈ s.conn, c.hasLine → c.Fits files
  | _ => True

instance (s : Parsing) (a : ParsingStep) : Decidable (s.Ok a) := by
  rcases a <;> (unfold Ok; infer_instance)

/-- No call has left the buffer, `nowReadPos_` is in it, and the loop ends: so many rounds, each with
what files there are, are the most. -/
def Safe (s : Parsing) : Prop :=
  ∃ c, s.conn = some c ∧ c.nowReadPos ≤ c.inBuffer.length ∧
    ∀ (rounds : List (Str → Option Str)) t, execWhere machine Ok s (rounds.map .round) = some t →
      rounds.length ≤ 3 * c.inBuffer.length + 3

end Parsing

/-! ### A round -/

section
variable {files : Str → Option Str} {c d : HttpConnection} {text sub str : Str} {pos i : Nat}

theorem endOf_le (some : sub ≠ []) (found : endOf text sub pos = .some i) :
    pos + sub.length ≤ i ∧ i ≤ text.length := by
  obtain ⟨k, first, rfl⟩ := Option.map_eq_some_iff.mp found
  obtain ⟨j, here, rfl⟩ := Option.map_eq_some_iff.mp first
  have limit := findSub_le here
  rw [List.length_drop] at limit
  have := List.length_pos_iff.mpr some
  omega

namespace Wrapping

theorem asInt_small {n : Nat} (small : n ≤ kIntMax) : asInt n = n := by
  unfold asInt
  unfold kIntMax at small
  rw [Int.bmod_eq_of_le (by omega) (by omega)]
  omega

theorem plus_small {n : Nat} (small : pos + n ≤ kIntMax) : plus pos n = some (pos + n) := by
  rw [plus, if_neg fun both => Nat.not_le.mpr both.2 small, Nat.mod_eq_of_lt]
  unfold kIntMax at small
  omega

end Wrapping

theorem find_cases (some : str ≠ []) (fits : ∀ i ∈ endOf c.inBuffer str c.nowReadPos, i ≤ kIntMax) :
    (Wrapping.findStrFromBuffer c str = .some none ∧ c.findStrFromBuffer str = .some none) ∨
    ∃ i, endOf c.inBuffer str c.nowReadPos = .some i ∧ c.nowReadPos + str.length ≤ i ∧
      i ≤ c.inBuffer.length ∧
      Wrapping.findStrFromBuffer c str = .some (.some
        ((c.inBuffer.drop c.nowReadPos).take (i - str.length - c.nowReadPos), { c with nowReadPos := i })) ∧
      c.findStrFromBuffer str = .some (.some
        ((c.inBuffer.drop c.nowReadPos).take (i - str.length - c.nowReadPos), { c with nowReadPos := i })) := by
  cases found : findFrom c.inBuffer str c.nowReadPos with
  | none => exact .inl ⟨by rw [Wrapping.findStrFromBuffer, found], by rw [findStrFromBuffer, found]⟩
  | some k =>
    have ends : endOf c.inBuffer str c.nowReadPos = .some (k + str.length) := by
      rw [endOf, found, Option.map_some]
    obtain ⟨above, below⟩ := endOf_le some ends
    have small := fits _ ends
    refine .inr ⟨k + str.length, ends, above, below, ?_, ?_⟩
    · rw [Wrapping.findStrFromBuffer, found]
      simp only [Wrapping.substr, if_pos (show c.nowReadPos ≤ c.inBuffer.length by omega),
        Option.map_some, Wrapping.asInt_small small, Nat.add_sub_cancel]
    · rw [findStrFromBuffer, found]
      simp only [if_pos small, Nat.add_sub_cancel]

/-- The buffer is as it was, and `nowReadPos_` has gone on in it. -/
structure Advanced (c d : HttpConnection) : Prop where
  buffer : d.inBuffer = c.inBuffer
  inside : d.nowReadPos ≤ d.inBuffer.length
  ahead : d.parseState = .error ∧ c.nowReadPos ≤ d.nowReadPos ∨
    d.parseState = .header ∧ c.nowReadPos < d.nowReadPos

theorem Advanced.fail (inside : c.nowReadPos ≤ c.inBuffer.length) (e : ErrorState) :
    Advanced c (c.fail e) := ⟨rfl, inside, .inl ⟨rfl, Nat.le_refl _⟩⟩

theorem Advanced.after {b : HttpConnection} (advanced : Advanced c d) (buffer : c.inBuffer = b.inBuffer)
    (ahead : b.nowReadPos ≤ c.nowReadPos) : Advanced b d := by
  refine ⟨advanced.buffer.trans buffer, advanced.inside, ?_⟩
  rcases advanced.ahead with ⟨error, le⟩ | ⟨header, lt⟩
  · exact .inl ⟨error, ahead.trans le⟩
  · exact .inr ⟨header, ahead.trans_lt lt⟩

theorem parseVersion_advanced (inside : c.nowReadPos ≤ c.inBuffer.length)
    (fits : ∀ k ∈ endOf c.inBuffer crlf c.nowReadPos, k ≤ kIntMax) :
    ∃ d, Wrapping.parseVersion c = some d ∧ c.parseVersion = some d ∧ Advanced c d := by
  rcases find_cases (show crlf ≠ [] by decide) fits with
    ⟨wraps, plain⟩ | ⟨k, -, above, below, wraps, plain⟩
  · exact ⟨c.fail .badRequest, by rw [Wrapping.parseVersion, wraps]; rfl,
      by rw [parseVersion, plain]; rfl, .fail inside _⟩
  · rw [Wrapping.parseVersion, parseVersion, wraps, plain]
    simp only [Option.map_some]
    cases versionOf ((c.inBuffer.drop c.nowReadPos).take (k - crlf.length - c.nowReadPos)) with
    | none => exact ⟨_, rfl, rfl, (Advanced.fail (c := { c with nowReadPos := k }) below _).after rfl
        (by simp only; omega)⟩
    | some version =>
      exact ⟨_, rfl, rfl, rfl, below, .inr ⟨rfl, Nat.lt_of_lt_of_le (Nat.lt_add_of_pos_right (by decide)) above⟩⟩

theorem parseFileName_advanced (inside : c.nowReadPos ≤ c.inBuffer.length)
    (fits : ∀ j ∈ endOf c.inBuffer [' '] c.nowReadPos, j ≤ kIntMax ∧
      (files (if (c.inBuffer.drop c.nowReadPos).take (j - 1 - c.nowReadPos) = [] then "index.html".toList
          else (c.inBuffer.drop c.nowReadPos).take (j - 1 - c.nowReadPos)) ≠ none →
        ∀ k ∈ endOf c.inBuffer crlf j, k ≤ kIntMax)) :
    ∃ d, Wrapping.parseFileName files c = some d ∧ c.parseFileName files = some d ∧ Advanced c d := by
  rcases find_cases (List.cons_ne_nil _ _) (fun j ends => (fits j ends).1) with
    ⟨wraps, plain⟩ | ⟨j, ends, above, below, wraps, plain⟩
  · exact ⟨c.fail .badRequest, by rw [Wrapping.parseFileName, wraps]; rfl,
      by rw [parseFileName, plain]; rfl, .fail inside _⟩
  · have fits := (fits j ends).2
    have ahead : c.nowReadPos ≤ j := by omega
    rw [Wrapping.parseFileName, parseFileName, wraps, plain]
    simp only [Option.bind_some]
    have one : ([' '] : Str).length = 1 := rfl
    rw [one]
    generalize (if (c.inBuffer.drop c.nowReadPos).take (j - 1 - c.nowReadPos) = [] then
      "index.html".toList else (c.inBuffer.drop c.nowReadPos).take (j - 1 - c.nowReadPos)) = name at fits
    cases there : files name with
    | none =>
      exact ⟨_, rfl, rfl, (Advanced.fail (c := { c with nowReadPos := j, fileName := name }) below _).after
        rfl ahead⟩
    | some content =>
      have fits := fits (by rw [there]; exact Option.some_ne_none content)
      obtain ⟨d, wraps, plain, advanced⟩ := parseVersion_advanced (c := { c with
        nowReadPos := j, fileName := name, fileSize := (content.length : Int).bmod (2 ^ 32) }) below fits
      exact ⟨d, wraps, plain, advanced.after rfl ahead⟩

theorem parseRequest_advanced (request : c.parseState = .request)
    (inside : c.nowReadPos ≤ c.inBuffer.length) (fits : c.Fits files) :
    ∃ d, Wrapping.parseRequest files c = some d ∧ c.parseRequest files = some d ∧ Advanced c d := by
  rw [Fits, request] at fits
  dsimp only at fits
  rcases find_cases (List.cons_ne_nil _ _) (fun i ends => (fits i ends).1) with
    ⟨wraps, plain⟩ | ⟨i, ends, above, below, wraps, plain⟩
  · exact ⟨c.fail .badRequest, by rw [Wrapping.parseRequest, wraps]; rfl,
      by rw [parseRequest, plain]; rfl, .fail inside _⟩
  · have fits := (fits i ends).2
    have ahead : c.nowReadPos ≤ i := by omega
    rw [Wrapping.parseRequest, parseRequest, wraps, plain]
    simp only [Option.bind_some]
    have two : ([' ', '/'] : Str).length = 2 := rfl
    rw [two]
    cases known : methodOf ((c.inBuffer.drop c.nowReadPos).take (i - 2 - c.nowReadPos)) with
    | none =>
      exact ⟨_, rfl, rfl, (Advanced.fail (c := { c with nowReadPos := i }) below _).after rfl ahead⟩
    | some method =>
      have fits := fits (by rw [known]; exact Option.some_ne_none method)
      obtain ⟨d, wraps, plain, advanced⟩ :=
        parseFileName_advanced (c := { c with nowReadPos := i, method := method }) below fits
      exact ⟨d, wraps, plain, advanced.after rfl ahead⟩

theorem hasLine_room (line : c.hasLine) : c.nowReadPos + 2 ≤ c.inBuffer.length := by
  obtain ⟨-, found⟩ := of_decide_eq_true line
  obtain ⟨k, found⟩ := Option.isSome_iff_exists.mp found
  have ends : endOf c.inBuffer crlf c.nowReadPos = some (k + crlf.length) := by
    rw [endOf, found, Option.map_some]
  obtain ⟨above, below⟩ := endOf_le (by decide) ends
  exact Nat.le_trans above below

theorem charAt_inside (inside : i < c.inBuffer.length) :
    ∃ a, Wrapping.charAt c.inBuffer i = some a ∧ c.inBuffer[i]? = some a := by
  refine ⟨c.inBuffer[i], ?_, List.getElem?_eq_getElem inside⟩
  rw [Wrapping.charAt, if_pos inside.le, List.getD_eq_getElem?_getD, List.getElem?_eq_getElem inside,
    Option.getD_some]

theorem atEmptyLine_eq (room : c.nowReadPos + 2 ≤ c.inBuffer.length)
    (fits : c.inBuffer[c.nowReadPos]? = some '\r' → c.nowReadPos + 1 ≤ kIntMax) :
    Wrapping.atEmptyLine c = some (decide
      (c.inBuffer[c.nowReadPos]? = some '\r' ∧ c.inBuffer[c.nowReadPos + 1]? = some '\n')) := by
  obtain ⟨first, read, here⟩ := charAt_inside (c := c) (i := c.nowReadPos) (by omega)
  obtain ⟨second, next, there⟩ := charAt_inside (c := c) (i := c.nowReadPos + 1) (by omega)
  rw [Wrapping.atEmptyLine, read, Option.bind_some]
  rw [here] at fits ⊢
  rw [there]
  by_cases same : first = '\r'
  · rw [if_pos same, Wrapping.plus_small (fits (congrArg some same)), Option.bind_some, next]
    subst same
    simp only [Option.map_some, true_and, Option.some_inj]
  · rw [if_neg same]
    simp only [Option.some_inj, same, false_and, decide_false]

theorem parseHeader_advanced (header : c.parseState = .header)
    (room : c.nowReadPos + 2 ≤ c.inBuffer.length) (fits : c.Fits files) :
    ∃ d, Wrapping.parseHeader c = some d ∧ c.parseHeader = some d ∧
      (Advanced c d ∨ d = { c with parseState := .success } ∧
        c.inBuffer[c.nowReadPos]? = some '\r' ∧ c.inBuffer[c.nowReadPos + 1]? = some '\n') := by
  rw [Fits, header] at fits
  obtain ⟨next, fits⟩ := fits
  have beyond : ¬(c.inBuffer[c.nowReadPos]? = some '\r' ∧ kIntMax < c.nowReadPos + 1) := fun both =>
    Nat.not_le.mpr both.2 (next both.1)
  rw [Wrapping.parseHeader, parseHeader, atEmptyLine_eq room next, Option.bind_some, if_neg beyond]
  by_cases empty : c.inBuffer[c.nowReadPos]? = some '\r' ∧ c.inBuffer[c.nowReadPos + 1]? = some '\n'
  · rw [decide_eq_true empty, if_pos empty]
    exact ⟨_, rfl, rfl, .inr ⟨rfl, empty⟩⟩
  · have fits := fits empty
    have inside : c.nowReadPos ≤ c.inBuffer.length := by omega
    rw [decide_eq_false empty, if_neg empty]
    rcases find_cases (List.cons_ne_nil _ _) (fun i ends => (fits i ends).1) with
      ⟨wraps, plain⟩ | ⟨i, ends, above, below, wraps, plain⟩
    · simp only [wraps, plain, Option.bind_some]
      exact ⟨_, rfl, rfl, .inl (.fail inside _)⟩
    · have ahead : c.nowReadPos ≤ i := by omega
      simp only [wraps, plain, Option.bind_some]
      rcases find_cases (c := { c with nowReadPos := i }) (show crlf ≠ [] by decide) (fits i ends).2 with
        ⟨wraps, plain⟩ | ⟨j, -, above', below', wraps, plain⟩
      · rw [wraps, plain]
        exact ⟨_, rfl, rfl, .inl ((Advanced.fail (c := { c with nowReadPos := i }) below _).after rfl ahead)⟩
      · rw [wraps, plain]
        refine ⟨_, rfl, rfl, .inl ⟨rfl, below', .inr ⟨rfl, ?_⟩⟩⟩
        exact Nat.lt_of_lt_of_le (Nat.lt_of_le_of_lt ahead (Nat.lt_add_of_pos_right (by decide))) above'

theorem fileTypeOf_eq (fileName : Str) : Wrapping.fileTypeOf fileName = some (fileTypeOf fileName) := by
  rw [Wrapping.fileTypeOf, fileTypeOf]
  cases found : findSub ['.'] fileName with
  | none => rfl
  | some dot =>
    have inside : dot ≤ fileName.length := (Nat.le_add_right _ _).trans (findSub_le found)
    have rest : (fileName.drop dot).take fileName.length = fileName.drop dot :=
      List.take_of_length_le (by rw [List.length_drop]; exact Nat.sub_le _ _)
    simp only [Wrapping.substr, if_pos inside, rest, Option.map_some]

theorem parseSuccess_consumes (success : c.parseState = .success)
    (room : c.nowReadPos + 2 ≤ c.inBuffer.length) (fits : c.Fits files) :
    ∃ d, Wrapping.parseSuccess c = some d ∧ c.parseSuccess = some d ∧ d.parseState = .request ∧
      d.nowReadPos = 0 ∧ d.inBuffer.length + 2 ≤ c.inBuffer.length - c.nowReadPos := by
  rw [Fits, success] at fits
  have fits : c.nowReadPos + 2 ≤ kIntMax := fits
  have rest : (c.inBuffer.drop (c.nowReadPos + 2)).take c.inBuffer.length =
      c.inBuffer.drop (c.nowReadPos + 2) :=
    List.take_of_length_le (by rw [List.length_drop]; exact Nat.sub_le _ _)
  rw [Wrapping.parseSuccess, parseSuccess, Wrapping.plus_small fits, Option.bind_some, Wrapping.substr,
    if_pos room, Option.bind_some, fileTypeOf_eq, Option.map_some, rest, if_pos fits]
  refine ⟨_, rfl, rfl, rfl, rfl, ?_⟩
  show (c.inBuffer.drop (c.nowReadPos + 2)).length + 2 ≤ _
  rw [List.length_drop]
  omega

/-- The place is in the buffer, and the state behind the header is left in the next round. -/
structure Inside (c : HttpConnection) : Prop where
  place : c.nowReadPos ≤ c.inBuffer.length
  success : c.parseState = .success → c.hasLine

def rank (c : HttpConnection) : Nat :=
  match c.parseState with
  | .error => 3
  | .success => 3 * (c.inBuffer.length - c.nowReadPos) + 1
  | _ => 3 * (c.inBuffer.length - c.nowReadPos) + 2

theorem Advanced.inside_rank (advanced : Advanced c d) (room : c.nowReadPos + 2 ≤ c.inBuffer.length) :
    d.Inside ∧ d.rank < 3 * (c.inBuffer.length - c.nowReadPos) + 2 := by
  have buffer := congrArg List.length advanced.buffer
  have inside := advanced.inside
  rw [rank]
  rcases advanced.ahead with ⟨state, ahead⟩ | ⟨state, ahead⟩
  · rw [state]
    exact ⟨⟨inside, fun success => (nomatch state.symm.trans success)⟩, by simp only; omega⟩
  · rw [state]
    exact ⟨⟨inside, fun success => (nomatch state.symm.trans success)⟩, by simp only; omega⟩

theorem hasLine_of_crlf (first : c.inBuffer[c.nowReadPos]? = some '\r')
    (second : c.inBuffer[c.nowReadPos + 1]? = some '\n') : c.hasLine := by
  obtain ⟨inside, same⟩ := List.getElem?_eq_some_iff.mp first
  obtain ⟨inside', same'⟩ := List.getElem?_eq_some_iff.mp second
  have starts : c.inBuffer.drop c.nowReadPos =
      '\r' :: '\n' :: c.inBuffer.drop (c.nowReadPos + 1 + 1) := by
    rw [List.drop_eq_getElem_cons inside, List.drop_eq_getElem_cons inside', same, same']
  refine decide_eq_true ⟨fun nothing => ?_, ?_⟩
  · rw [nothing] at inside
    exact absurd inside (Nat.not_lt_zero _)
  · rw [findFrom, starts, Option.isSome_map, findSub, if_pos]
    · rfl
    · exact ⟨_, rfl⟩

theorem parse_inside (inside : c.Inside) (line : c.hasLine) (fits : c.Fits files) :
    ∃ d, Wrapping.parse files c = some d ∧ c.parse files = some d ∧ d.Inside ∧ d.rank < c.rank := by
  have room := hasLine_room line
  rw [Wrapping.parse, parse]
  cases state : c.parseState with
  | error =>
    refine ⟨c.parseError, rfl, rfl, ⟨Nat.le_refl 0, fun same => by cases same⟩, ?_⟩
    rw [rank, rank, state]
    exact Nat.lt_succ_self 2
  | request =>
    obtain ⟨d, wraps, plain, advanced⟩ := parseRequest_advanced state inside.place fits
    obtain ⟨inside', less⟩ := advanced.inside_rank room
    refine ⟨d, wraps, plain, inside', ?_⟩
    rw [rank, rank, state] at *
    exact less
  | header =>
    obtain ⟨d, wraps, plain, advanced | ⟨rfl, first, second⟩⟩ := parseHeader_advanced state room fits
    · obtain ⟨inside', less⟩ := advanced.inside_rank room
      refine ⟨d, wraps, plain, inside', ?_⟩
      rw [rank, rank, state] at *
      exact less
    · refine ⟨_, wraps, plain, ⟨inside.place, fun _ => hasLine_of_crlf first second⟩, ?_⟩
      rw [rank, rank, state]
      exact Nat.lt_succ_self _
  | success =>
    obtain ⟨d, wraps, plain, request, zero, left⟩ := parseSuccess_consumes state room fits
    refine ⟨d, wraps, plain, ⟨by rw [zero]; exact Nat.zero_le _, fun success => by
      cases request.symm.trans success⟩, ?_⟩
    rw [rank, rank, state, request, zero]
    simp only
    omega
end

/-! ### Runs -/

namespace Parsing
variable {s t : Parsing} {a : ParsingStep} {c : HttpConnection}

/-- What holds in every state: a connection whose place is in the buffer, and which is behind the
header only in the loop. -/
def Kept (s : Parsing) : Prop :=
  ∃ c, s.conn = some c ∧ c.Inside ∧ (s.looping = false → c.parseState ≠ .success)

theorem step_kept (kept : s.Kept) (ok : s.Ok a) (next : s.step a = some t) : t.Kept := by
  obtain ⟨conn, looping⟩ := s
  obtain ⟨c, rfl, inside, other⟩ := kept
  rw [step, Option.bind_some] at next
  cases looping with
  | false =>
    have other := other rfl
    cases a with
    | round files => cases next
    | read bytes =>
      obtain rfl := Option.some.inj next
      refine ⟨_, rfl, ⟨?_, fun success => absurd success other⟩, nofun⟩
      show c.nowReadPos ≤ (c.inBuffer ++ bytes).length
      rw [List.length_append]
      exact inside.place.trans (Nat.le_add_right _ _)
    | close bytes =>
      obtain rfl := Option.some.inj next
      exact ⟨_, rfl, ⟨Nat.zero_le _, fun success => absurd success other⟩, fun _ => other⟩
    | write out =>
      obtain ⟨handler, -, same⟩ := Option.map_eq_some_iff.mp next
      cases handler with
      | handleSuccess =>
        obtain rfl := same
        exact ⟨_, rfl, ⟨Nat.zero_le _, fun success => absurd success other⟩, fun _ => other⟩
      | handleError state =>
        obtain rfl := same
        exact ⟨_, rfl, ⟨inside.place, fun success => absurd success other⟩, fun _ => other⟩
  | true =>
    cases a with
    | round files =>
      dsimp only at next
      by_cases line : c.hasLine
      · obtain ⟨d, done, -, inside', -⟩ := parse_inside inside line (ok c rfl line)
        rw [if_pos line, done] at next
        obtain rfl := Option.some.inj next
        exact ⟨d, rfl, inside', nofun⟩
      · rw [if_neg line] at next
        obtain rfl := Option.some.inj next
        exact ⟨c, rfl, inside, fun _ success => line (inside.success success)⟩
    | _ => cases next

theorem rounds_le (inside : c.Inside) {looping : Bool} {rounds : List (Str → Option Str)}
    (ran : execWhere machine Ok ⟨some c, looping⟩ (rounds.map .round) = some t) :
    rounds.length ≤ if c.hasLine then c.rank + 1 else 1 := by
  induction rounds generalizing c looping with
  | nil => exact Nat.zero_le _
  | cons files rounds ih =>
    rw [List.map_cons, execWhere] at ran
    obtain ⟨ok, ran⟩ := Option.ite_none_right_eq_some.mp ran
    obtain ⟨u, next, ran⟩ := Option.bind_eq_some_iff.mp ran
    cases looping with
    | false => cases next
    | true =>
      have next : (if c.hasLine then some (⟨Wrapping.parse files c, true⟩ : Parsing)
          else some ⟨some c, false⟩) = some u := next
      by_cases line : c.hasLine
      · obtain ⟨d, done, -, inside', less⟩ := parse_inside inside line (ok c rfl line)
        rw [if_pos line, done] at next
        obtain rfl := Option.some.inj next
        have rest := ih inside' ran
        rw [if_pos line, List.length_cons]
        split at rest <;> omega
      · rw [if_neg line] at next
        obtain rfl := Option.some.inj next
        rw [if_neg line]
        cases rounds with
        | nil => exact Nat.le_refl _
        | cons files' rounds =>
          rw [List.map_cons, execWhere] at ran
          obtain ⟨-, ran⟩ := Option.ite_none_right_eq_some.mp ran
          obtain ⟨u, next, -⟩ := Option.bind_eq_some_iff.mp ran
          cases next

theorem rank_le (line : c.hasLine) : c.rank ≤ 3 * c.inBuffer.length + 2 := by
  have room := hasLine_room line
  rw [rank]
  split <;> omega

theorem Kept.safe (kept : s.Kept) : s.Safe := by
  obtain ⟨conn, looping⟩ := s
  obtain ⟨c, rfl, inside, -⟩ := kept
  refine ⟨c, rfl, inside.place, fun rounds t ran => ?_⟩
  have most := rounds_le inside ran
  by_cases line : c.hasLine
  · have := rank_le line
    rw [if_pos line] at most
    omega
  · rw [if_neg line] at most
    omega

/-- In every run in which no round takes `nowReadPos_` out of the range of an `int`, the parser stays
in its buffer, and its loop ends. -/
theorem parser_safe (reach : Reach machine Ok s) : s.Safe := by
  refine Kept.safe (reach.invariant (P := Kept) ?_ fun s a t kept ok next => step_kept kept ok next)
  rintro s rfl
  exact ⟨.new, rfl, ⟨Nat.le_refl 0, nofun⟩, nofun⟩

def twoRequests : List ParsingStep :=
  [.read "GET /a HTTP/1.1\r".toList, .round fun _ => some [], .read "\nKey: ".toList,
    .round fun _ => some [], .round fun _ => some [], .read "value\r\n\r\n".toList,
    .round fun _ => some [], .round fun _ => some [], .round fun _ => some [],
    .round fun _ => some [], .write "HTTP/1.1 200 OK".toList, .read "\r\n: \r\n".toList,
    .round fun _ => none, .round fun _ => none, .round fun _ => none, .write []]

theorem parser_safe_two : ∃ s, execWhere machine Ok ⟨some new, false⟩ twoRequests = some s ∧
    (s.conn.any fun c => c.successes.length = 1) ∧ s.Safe := by
  have ran : (execWhere machine Ok ⟨some new, false⟩ twoRequests).any (fun s =>
      s.conn.any fun c => c.successes.length = 1) = true := by
    decide +kernel
  obtain ⟨s, done, facts⟩ := (Option.any_eq_true _ _).mp ran
  exact ⟨s, done, facts, parser_safe ((Reach.start (M := machine) rfl).execWhere done)⟩

def longLine (n : Nat) : Str := List.replicate n 'a' ++ ' ' :: '/' :: crlf

def longRead (n : Nat) : HttpConnection := { new with inBuffer := longLine n }

def longParsed (n : Nat) : HttpConnection :=
  { longRead n with nowReadPos := Wrapping.asInt (n + 2) }

theorem longRead_search (n : Nat) : Wrapping.findStrFromBuffer (longRead n) [' ', '/'] =
    some (some (List.replicate n 'a', longParsed n)) := by
  have free : ¬[' ', '/'] <:+: List.replicate n 'a' := fun occurs => by
    have member : ' ' ∈ List.replicate n 'a' := occurs.subset List.mem_cons_self
    exact absurd (List.eq_of_mem_replicate member) (by decide)
  have found := findSub_pair (u := crlf) (show ' ' ≠ '/' by decide) free
  rw [List.length_replicate] at found
  have place : findFrom (longLine n) [' ', '/'] 0 = some n := by
    rw [findFrom, List.drop_zero, longLine, found]
    rfl
  have msg : ((longLine n).drop 0).take (n - 0) = List.replicate n 'a' := by
    rw [List.drop_zero, Nat.sub_zero, longLine, List.take_left' List.length_replicate]
  rw [Wrapping.findStrFromBuffer]
  simp only [longRead, show new.nowReadPos = 0 from rfl, place, Wrapping.substr, if_pos (Nat.zero_le _),
    msg, Option.map_some]
  rfl

theorem longRead_parse {n : Nat} (positive : 0 < n) (files : Str → Option Str) :
    Wrapping.parse files (longRead n) = some ((longParsed n).fail .badRequest) := by
  have other : methodOf (List.replicate n 'a') = none := by
    obtain ⟨m, rfl⟩ := Nat.exists_eq_succ_of_ne_zero (Nat.pos_iff_ne_zero.mp positive)
    rw [List.replicate_succ, methodOf, if_neg, if_neg]
    · exact fun same => absurd (List.cons.inj same).1 (by decide)
    · exact fun same => absurd (List.cons.inj same).1 (by decide)
  have request : Wrapping.parse files (longRead n) = Wrapping.parseRequest files (longRead n) := rfl
  rw [request, Wrapping.parseRequest, longRead_search, Option.bind_some]
  simp only [other]

theorem longRead_leaves {n : Nat} (positive : 0 < n)
    (wraps : (longLine n).length < Wrapping.asInt (n + 2)) :
    ∃ s, Reachable machine s ∧ ¬s.Safe := by
  have line : (longRead n).hasLine :=
    (hasLine_iff _).mpr ⟨List.replicate n 'a' ++ [' ', '/'], [], by simp [unread, longRead, new, longLine]⟩
  have round : machine.step ⟨some (longRead n), true⟩ (.round fun _ => none) =
      some ⟨some ((longParsed n).fail .badRequest), true⟩ := by
    rw [← longRead_parse positive]
    exact if_pos line
  have start : Reachable machine ⟨some (longRead n), true⟩ :=
    .step (a := .read (longLine n)) (.start rfl) trivial rfl
  refine ⟨_, .step start trivial round, ?_⟩
  rintro ⟨c, same, inside, -⟩
  obtain rfl := Option.some.inj same
  simp only [fail, longParsed, longRead] at inside
  exact Nat.not_le.mpr wraps inside

theorem place_leaves_buffer : ∃ s, Reachable machine s ∧ ¬s.Safe := by
  refine longRead_leaves (n := 2 ^ 31 - 2) (by decide) ?_
  have wrapped : Wrapping.asInt (2 ^ 31 - 2 + 2) = 2 ^ 64 - 2 ^ 31 := by decide
  rw [wrapped, longLine, List.length_append, List.length_replicate]
  decide

end Parsing
end HttpConnection

end ProjectsCpp.WebServer
