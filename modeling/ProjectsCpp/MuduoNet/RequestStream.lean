import ProjectsCpp.MuduoNet.HttpContext
import ProjectsCpp.MuduoNet.Buffer
import ProjectsCpp.MuduoNet.TcpConnection

/-! The HTTP server of muduo on its buffers, with every assertion of `Buffer`: what `onMessage` does
with any bytes in any pieces, before and after a request line that it rejects. -/

namespace ProjectsCpp.MuduoNet
open ProjectsCpp.Run
open ProjectsCpp.Text (Str)
open ProjectsCpp.Substring

/-- A buffer that nothing is prepended to. -/
structure PlainBuffer extends Buffer where
  front : kCheapPrepend ≤ readerIndex
deriving DecidableEq

namespace PlainBuffer

def new : PlainBuffer := ⟨Buffer.new, Nat.le_refl _⟩

variable (b : PlainBuffer)

def retrieveAll : PlainBuffer where
  size := b.size
  readerIndex := kCheapPrepend
  readable := []
  within := Nat.le_trans b.front (Nat.le_trans (Nat.le_add_right _ _) b.within)
  front := Nat.le_refl _

def retrieve (len : Nat) : Option PlainBuffer :=
  if len ≤ b.readableBytes then
    some (if less : len < b.readableBytes then
      { size := b.size
        readerIndex := b.readerIndex + len
        readable := b.readable.drop len
        within := by
          have within := b.within
          rw [Buffer.readableBytes] at less
          rw [List.length_drop]
          omega
        front := Nat.le_trans b.front (Nat.le_add_right _ _) }
    else b.retrieveAll)
  else none

/-- `end_` counts from `peek()`. -/
def retrieveUntil (end_ : Nat) : Option PlainBuffer :=
  if end_ ≤ b.readableBytes then b.retrieve end_ else none

theorem write_front {data : List UInt8} {b' : Buffer} (wrote : b.toBuffer.write data = some b') :
    kCheapPrepend ≤ b'.readerIndex := by
  rw [Buffer.write] at wrote
  split at wrote
  · cases wrote
    exact b.front
  · cases wrote

def write (data : List UInt8) : Option PlainBuffer :=
  (b.toBuffer.write data).pmap (fun b' front => ⟨b', front⟩) fun _ wrote => b.write_front wrote

theorem append_front {data : List UInt8} {b' : Buffer}
    (appended : b.toBuffer.append data = some b') : kCheapPrepend ≤ b'.readerIndex := by
  obtain ⟨b₁, appended₁, -, front⟩ := Buffer.append_some b.front data
  cases appended.symm.trans appended₁
  exact front

def append (data : List UInt8) : Option PlainBuffer :=
  (b.toBuffer.append data).pmap (fun b' front => ⟨b', front⟩) fun _ appended =>
    b.append_front appended

/-- `readFd` where `readv` gets `received`. -/
def readFd (received : List UInt8) : Option PlainBuffer :=
  if received.length ≤ b.writableBytes then b.write received
  else (b.write (received.take b.writableBytes)).bind fun b' =>
    b'.append (received.drop b.writableBytes)

def charOf (byte : UInt8) : Char := Char.ofNat byte.toNat

def text : Str := b.readable.map charOf

end PlainBuffer

namespace HttpContext

/-- One round of the loop of `parseRequest`; the first part is what it returns, where it ends. -/
def parseRound (receiveTime : Int) (c : HttpContext) (buf : PlainBuffer) :
    Option (Option Bool × HttpContext × PlainBuffer) :=
  match c.state with
  | .expectRequestLine =>
    match findSub crlf buf.text with
    | none => some (some true, c, buf)
    | some n => (processRequestLine c.request (buf.text.take n)).bind fun (ok, r) =>
      if ok then (buf.retrieveUntil (n + 2)).map fun buf =>
        (none, ⟨.expectHeaders, { r with receiveTime := receiveTime }⟩, buf)
      else some (some false, ⟨.expectRequestLine, r⟩, buf)
  | .expectHeaders =>
    match findSub crlf buf.text with
    | none => some (some true, c, buf)
    | some n => (buf.retrieveUntil (n + 2)).map fun left =>
      if ':' ∈ buf.text.take n then
        (none, ⟨.expectHeaders, c.request.addHeader (buf.text.take n)⟩, left)
      else (some true, ⟨.gotAll, c.request⟩, left)
  | .expectBody => some (none, c, buf)
  | .gotAll => some (none, c, buf)

def parseRounds (receiveTime : Int) :
    Nat → HttpContext → PlainBuffer → Option (Bool × HttpContext × PlainBuffer)
  | 0, _, _ => none
  | rounds + 1, c, buf => (c.parseRound receiveTime buf).bind fun (ends, c, buf) =>
    match ends with
    | some ok => some (ok, c, buf)
    | none => parseRounds receiveTime rounds c buf

end HttpContext

structure HttpResponse where
  headers : List (List UInt8 × List UInt8)
  statusCode : Nat
  statusMessage : List UInt8
  closeConnection : Bool
  body : List UInt8

namespace HttpResponse

def new (close : Bool) : HttpResponse := ⟨[], 0, [], close, []⟩

def bytes (s : String) : List UInt8 := s.toList.map fun c => c.toNat.toUInt8

/-- The texts that `appendToBuffer` appends. -/
def pieces (r : HttpResponse) : List (List UInt8) :=
  [bytes ("HTTP/1.1 " ++ toString r.statusCode ++ " "), r.statusMessage, bytes "\r\n"] ++
  (if r.closeConnection then [bytes "Connection: close\r\n"]
    else [bytes ("Content-Length: " ++ toString r.body.length ++ "\r\n"),
      bytes "Connection: Keep-Alive\r\n"]) ++
  (r.headers.flatMap fun header => [header.1, bytes ": ", header.2, bytes "\r\n"]) ++
  [bytes "\r\n", r.body]

def appendToBuffer (r : HttpResponse) (output : PlainBuffer) : Option PlainBuffer :=
  r.pieces.foldlM PlainBuffer.append output

end HttpResponse

/-- A connection of the server; `connected` tells that its state is `kConnected`. -/
structure HttpStream where
  context : HttpContext
  input : PlainBuffer
  output : PlainBuffer
  isWriting : Bool
  connected : Bool

/-- `handleRead` gets `bytes` and `write` answers `result` in it; `handleWrite` writes `n` bytes. -/
inductive HttpEvent where
  | message (bytes : List UInt8) (receiveTime : Int) (result : Written)
  | handleWrite (n : Nat)

namespace HttpStream

def new : HttpStream := ⟨.new, .new, .new, false, true⟩

variable (c : HttpStream)

/-- What `write` left goes to the buffer. -/
def buffer (rest : List UInt8) : Option HttpStream :=
  if rest = [] then some c
  else (c.output.append rest).map fun output => { c with output := output, isWriting := true }

def sendInLoop (data : List UInt8) (result : Written) : Option HttpStream :=
  if c.isWriting = false ∧ c.output.readableBytes = 0 then
    match result with
    | .wrote n => c.buffer (data.drop n)
    | .failed fault => if fault then some c else c.buffer data
  else c.buffer data

def send (data : List UInt8) (result : Written) : Option HttpStream :=
  if c.connected then c.sendInLoop data result else some c

def shutdown : HttpStream := { c with connected := false }

variable (httpCallback : HttpRequest → HttpResponse → HttpResponse)

def onRequest (req : HttpRequest) (result : Written) : Option HttpStream :=
  let response := httpCallback req (.new (HttpConnection.closes req))
  (response.appendToBuffer .new).bind fun buf =>
    (c.send buf.readable result).map fun c => if response.closeConnection then c.shutdown else c

def badRequest : List UInt8 := HttpResponse.bytes "HTTP/1.1 400 Bad Request\r\n\r\n"

def onMessage (receiveTime : Int) (result : Written) : Option HttpStream :=
  (c.context.parseRounds receiveTime (c.input.readable.length + 1) c.input).bind
    fun (ok, context, input) =>
      let c := { c with context := context, input := input }
      (if ok then some c else (c.send badRequest result).map shutdown).bind fun c =>
        if context.state = .gotAll then
          (c.onRequest httpCallback context.request result).map fun c => { c with context := .new }
        else some c

/-- `write` takes at most what it is given. -/
def handleWrite (n : Nat) : Option HttpStream :=
  if c.isWriting then
    (c.output.retrieve (min n c.output.readableBytes)).map fun output =>
      { c with output := output, isWriting := output.readableBytes ≠ 0 }
  else some c

def step (c : HttpStream) : HttpEvent → Option HttpStream
  | .message bytes receiveTime result => (c.input.readFd bytes).bind fun input =>
    { c with input := input }.onMessage httpCallback receiveTime result
  | .handleWrite n => c.handleWrite n

def machine : Machine HttpStream HttpEvent where
  start := (· = new)
  step := step httpCallback

end HttpStream

def isVersion (start : Str) : Bool := start = "HTTP/1.0".toList ∨ start = "HTTP/1.1".toList

def spoils (line : Str) : Bool :=
  let word := line.takeWhile (· ≠ ' ')
  let start := line.drop (word.length + 1)
  let target := start.takeWhile (· ≠ ' ')
  word.length ≠ line.length && HttpRequest.methodOf word ≠ .invalid &&
    !(target.length ≠ start.length && isVersion (start.drop (target.length + 1)))

def firstLine (text : Str) : Option Str := (findSub crlf text).map text.take

namespace HttpStream

def Sound (c : HttpStream) : HttpEvent → Prop
  | .message bytes _ _ => ¬ (c.context.state = .expectRequestLine ∧
      (firstLine (c.input.text ++ bytes.map PlainBuffer.charOf)).any spoils = true)
  | .handleWrite _ => True

instance (c : HttpStream) (e : HttpEvent) : Decidable (c.Sound e) := by
  cases e <;> unfold Sound <;> infer_instance

end HttpStream

/-! ### The buffers do not fail -/

namespace PlainBuffer
variable {b b' : PlainBuffer} {n : Nat}

theorem write_some {data : List UInt8} (fits : data.length ≤ b.writableBytes) :
    ∃ b', b.write data = some b' ∧ b'.readable = b.readable ++ data := by
  obtain ⟨b₁, wrote, readable, -⟩ := Buffer.write_some data fits
  exact ⟨⟨b₁, b.write_front wrote⟩, Option.pmap_eq_some_iff.mpr ⟨b₁, _, wrote, rfl⟩, readable⟩

theorem append_some (b : PlainBuffer) (data : List UInt8) :
    ∃ b', b.append data = some b' ∧ b'.readable = b.readable ++ data := by
  obtain ⟨b₁, appended, readable, front⟩ := Buffer.append_some b.front data
  exact ⟨⟨b₁, front⟩, Option.pmap_eq_some_iff.mpr ⟨b₁, _, appended, rfl⟩, readable⟩

theorem readFd_some (b : PlainBuffer) (received : List UInt8) :
    ∃ b', b.readFd received = some b' ∧ b'.readable = b.readable ++ received := by
  rw [readFd]
  split
  · rename_i fits
    exact write_some fits
  · obtain ⟨b₁, wrote, readable₁⟩ := b.write_some (List.length_take_le b.writableBytes received)
    obtain ⟨b', appended, readable⟩ := b₁.append_some (received.drop b.writableBytes)
    refine ⟨b', Option.bind_eq_some_iff.mpr ⟨b₁, wrote, appended⟩, ?_⟩
    rw [readable, readable₁, List.append_assoc, List.take_append_drop]

theorem retrieve_some (le : n ≤ b.readableBytes) :
    ∃ b', b.retrieve n = some b' ∧ b'.readable = b.readable.drop n := by
  rw [retrieve, if_pos le]
  refine ⟨_, rfl, ?_⟩
  split
  · rfl
  · rename_i all
    exact (List.drop_eq_nil_of_le (Nat.not_lt.mp all)).symm

theorem retrieveUntil_some (le : n ≤ b.readableBytes) :
    ∃ b', b.retrieveUntil n = some b' ∧ b'.text = b.text.drop n := by
  obtain ⟨b', retrieved, readable⟩ := retrieve_some le
  refine ⟨b', (if_pos le).trans retrieved, ?_⟩
  rw [text, readable, List.map_drop, text]

theorem text_length (b : PlainBuffer) : b.text.length = b.readableBytes := List.length_map _

end PlainBuffer

/-! ### The loop of `parseRequest` -/

namespace HttpContext
variable {c : HttpContext} {receiveTime : Int}

theorem parseRounds_text (rounds : Nat) (c : HttpContext) (buf : PlainBuffer) :
    (c.parseRounds receiveTime rounds buf).map (fun (ok, c, buf) => (ok, c, buf.text)) =
      c.parseLoop receiveTime rounds buf.text := by
  induction rounds generalizing c buf with
  | zero => rfl
  | succ rounds ih =>
    rw [parseRounds, parseRound, parseLoop]
    cases state : c.state with
    | expectRequestLine =>
      cases found : findSub crlf buf.text with
      | none => rfl
      | some n =>
        have le : n + 2 ≤ buf.readableBytes := buf.text_length ▸ findSub_le found
        obtain ⟨left, retrieved, text⟩ := PlainBuffer.retrieveUntil_some le
        dsimp only
        cases line : processRequestLine c.request (buf.text.take n) with
        | none => rfl
        | some result =>
          obtain ⟨ok, r⟩ := result
          cases ok with
          | false => rfl
          | true =>
            simp only [Option.bind_some, retrieved, Option.map_some, if_true]
            exact (ih _ left).trans (by rw [text])
    | expectHeaders =>
      cases found : findSub crlf buf.text with
      | none => rfl
      | some n =>
        have le : n + 2 ≤ buf.readableBytes := buf.text_length ▸ findSub_le found
        obtain ⟨left, retrieved, text⟩ := PlainBuffer.retrieveUntil_some le
        by_cases colon : ':' ∈ buf.text.take n
        · simp only [retrieved, Option.map_some, Option.bind_some, if_pos colon]
          exact (ih _ left).trans (by rw [text])
        · simp only [retrieved, Option.map_some, Option.bind_some, if_neg colon, text]
    | expectBody => exact ih c buf
    | gotAll => exact ih c buf

theorem parseRounds_of_parseLoop {rounds : Nat} {buf : PlainBuffer} {ok : Bool} {c' : HttpContext}
    {left : Str} (parsed : c.parseLoop receiveTime rounds buf.text = some (ok, c', left)) :
    ∃ buf' : PlainBuffer, c.parseRounds receiveTime rounds buf = some (ok, c', buf') ∧
      buf'.text = left := by
  rw [← parseRounds_text, Option.map_eq_some_iff] at parsed
  obtain ⟨⟨ok', c₁, buf'⟩, parsed, same⟩ := parsed
  cases same
  exact ⟨buf', parsed, rfl⟩

theorem parseLoop_headers (q : HttpRequest) {rounds : Nat} {buf : Str}
    (enough : buf.length < rounds) : ∃ state q' left,
      (⟨.expectHeaders, q⟩ : HttpContext).parseLoop receiveTime rounds buf =
        some (true, ⟨state, q'⟩, left) ∧ (state = .expectHeaders ∨ state = .gotAll) := by
  induction rounds generalizing q buf with
  | zero => exact absurd enough (Nat.not_lt_zero _)
  | succ rounds ih =>
    rw [parseLoop]
    dsimp only
    cases found : findSub crlf buf with
    | none => exact ⟨_, _, _, rfl, .inl rfl⟩
    | some n =>
      have le : n + 2 ≤ buf.length := findSub_le found
      dsimp only
      split
      · exact ih _ (by rw [List.length_drop]; omega)
      · exact ⟨_, _, _, rfl, .inr rfl⟩

end HttpContext

/-! ### The request line -/

theorem setVersion_fst (r : HttpRequest) (start : Str) :
    (setVersion r start).1 = isVersion start := by
  have whole : ∀ c, start.length = 8 ∧ start.take 7 = "HTTP/1.".toList ∧ start.getLast? = some c ↔
      start = "HTTP/1.".toList ++ [c] := by
    intro c
    constructor
    · rintro ⟨eight, front, last⟩
      obtain ⟨init, rfl⟩ := List.getLast?_eq_some_iff.mp last
      have seven : init.length = 7 := by simpa using eight
      rw [List.take_append_of_le_length (Nat.le_of_eq seven.symm),
        List.take_of_length_le (Nat.le_of_eq seven)] at front
      rw [front]
    · rintro rfl
      exact ⟨rfl, rfl, List.getLast?_concat⟩
  have fst : (setVersion r start).1 =
      decide ((start.length = 8 ∧ start.take 7 = "HTTP/1.".toList) ∧
        (start.getLast? = some '0' ∨ start.getLast? = some '1')) := by
    rw [setVersion]
    by_cases shape : start.length = 8 ∧ start.take 7 = "HTTP/1.".toList
    · rw [if_pos shape]
      by_cases one : start.getLast? = some '1'
      · rw [if_pos one, decide_eq_true ⟨shape, .inr one⟩]
      · by_cases zero : start.getLast? = some '0'
        · rw [if_neg one, if_pos zero, decide_eq_true ⟨shape, .inl zero⟩]
        · rw [if_neg one, if_neg zero, decide_eq_false fun both => both.2.elim zero one]
    · rw [if_neg shape, decide_eq_false fun both => shape both.1]
  rw [fst, isVersion, decide_eq_decide, and_or_left, and_assoc, and_assoc, whole, whole]
  rfl

theorem setVersion_method (r : HttpRequest) (start : Str) :
    (setVersion r start).2.method = r.method := by
  rw [setVersion]
  split
  · split
    · rfl
    · split <;> rfl
  · rfl

theorem setTarget_method (r : HttpRequest) (target : Str) :
    (setTarget r target).method = r.method := by
  rw [setTarget]
  split <;> rfl

theorem processRequestLine_fresh {r : HttpRequest} (fresh : r.method = .invalid) (line : Str) :
    ∃ ok r', processRequestLine r line = some (ok, r') ∧
      (ok = false → (r'.method ≠ .invalid ↔ spoils line = true)) ∧
      (ok = true → spoils line = false) := by
  rw [processRequestLine, spoils]
  dsimp only
  generalize wordOf : line.takeWhile (· ≠ ' ') = word
  generalize startOf : line.drop (word.length + 1) = start
  generalize targetOf : start.takeWhile (· ≠ ' ') = target
  by_cases whole : word.length = line.length
  · rw [if_pos whole]
    exact ⟨false, r, rfl, fun _ => by simp [fresh, whole], nofun⟩
  · rw [if_neg whole, HttpRequest.setMethod, if_pos fresh, Option.map_some]
    dsimp only
    by_cases known : HttpRequest.methodOf word = .invalid
    · exact ⟨false, _, by simp [known]; rfl, fun _ => by simp [known], nofun⟩
    · by_cases open_ : target.length = start.length
      · exact ⟨false, _, by simp [known, open_]; rfl, fun _ => by simp [known, open_, whole], nofun⟩
      · generalize versioned : setVersion (setTarget { r with method := HttpRequest.methodOf word }
          target) (start.drop (target.length + 1)) = result
        have method : result.2.method = HttpRequest.methodOf word := by
          rw [← versioned, setVersion_method, setTarget_method]
        have ok : result.1 = isVersion (start.drop (target.length + 1)) := by
          rw [← versioned, setVersion_fst]
        refine ⟨result.1, result.2, by simp [known, open_], fun bad => ?_, fun good => ?_⟩
        · rw [ok] at bad
          simp [method, known, open_, whole, bad]
        · rw [ok] at good
          simp [good, open_]

theorem processRequestLine_stuck {r : HttpRequest} (recorded : r.method ≠ .invalid) {line : Str}
    (spoilt : spoils line = true) : processRequestLine r line = none := by
  rw [spoils, Bool.and_eq_true, Bool.and_eq_true, decide_eq_true_iff] at spoilt
  rw [processRequestLine]
  dsimp only
  rw [if_neg spoilt.1.1, HttpRequest.setMethod, if_neg recorded]
  rfl

theorem firstLine_append {text line : Str} (found : firstLine text = some line) (more : Str) :
    firstLine (text ++ more) = some line := by
  obtain ⟨n, first, rfl⟩ := Option.map_eq_some_iff.mp found
  have le : n + 2 ≤ text.length := findSub_le first
  rw [firstLine, findSub_append first, Option.map_some, List.take_append_of_le_length (by omega)]

theorem HttpContext.parseLoop_requestLine {q : HttpRequest} (fresh : q.method = .invalid)
    {receiveTime : Int} {rounds : Nat} {buf : Str} (enough : buf.length < rounds) :
    ∃ ok context left, (⟨.expectRequestLine, q⟩ : HttpContext).parseLoop receiveTime rounds buf =
        some (ok, context, left) ∧
      ((firstLine buf).any spoils = false →
        context.state = .expectRequestLine ∧ context.request.method = .invalid ∨
          context.state = .expectHeaders ∨ context.state = .gotAll) ∧
      ((firstLine buf).any spoils = true →
        context.state = .expectRequestLine ∧ context.request.method ≠ .invalid ∧ left = buf) := by
  obtain ⟨rounds, rfl⟩ := Nat.exists_eq_succ_of_ne_zero (Nat.ne_zero_of_lt enough)
  rw [parseLoop, firstLine]
  dsimp only
  cases found : findSub crlf buf with
  | none => exact ⟨true, _, _, rfl, fun _ => .inl ⟨rfl, fresh⟩, nofun⟩
  | some n =>
    have le : n + 2 ≤ buf.length := findSub_le found
    obtain ⟨ok, r, line, bad, good⟩ := processRequestLine_fresh fresh (buf.take n)
    rw [Option.map_some, Option.any_some]
    dsimp only
    rw [line, Option.bind_some]
    cases ok with
    | false =>
      refine ⟨false, _, _, rfl, fun free => .inl ⟨rfl, ?_⟩, fun spoilt =>
        ⟨rfl, (bad rfl).mpr spoilt, rfl⟩⟩
      by_contra recorded
      exact nomatch ((bad rfl).mp recorded).symm.trans free
    | true =>
      have less : (buf.drop (n + 2)).length < rounds := by
        rw [List.length_drop]
        omega
      obtain ⟨state, q', left, parsed, place⟩ :=
        @parseLoop_headers receiveTime { r with receiveTime := receiveTime } _ _ less
      exact ⟨true, _, _, parsed, fun _ => .inr place, fun spoilt =>
        nomatch (good rfl).symm.trans spoilt⟩

/-! ### Every call -/

namespace HttpStream
variable (httpCallback : HttpRequest → HttpResponse → HttpResponse)
variable {c c' : HttpStream} {receiveTime : Int} {result : Written} {e : HttpEvent}

/-- Between two calls, when no rejected line has left a method behind. -/
structure Clean (c : HttpStream) : Prop where
  state : c.context.state = .expectRequestLine ∨ c.context.state = .expectHeaders
  method : c.context.state = .expectRequestLine → c.context.request.method = .invalid

/-- A rejected line stands in front of the buffer, and its method is recorded. -/
structure Stuck (c : HttpStream) : Prop where
  state : c.context.state = .expectRequestLine
  method : c.context.request.method ≠ .invalid
  line : (firstLine c.input.text).any spoils = true

theorem send_some (c : HttpStream) (data : List UInt8) (result : Written) :
    ∃ c', c.send data result = some c' ∧ c'.context = c.context ∧ c'.input = c.input := by
  have buffers : ∀ rest, ∃ c', c.buffer rest = some c' ∧ c'.context = c.context ∧
      c'.input = c.input := by
    intro rest
    rw [buffer]
    split
    · exact ⟨c, rfl, rfl, rfl⟩
    · obtain ⟨output, appended, -⟩ := c.output.append_some rest
      exact ⟨_, congrArg (Option.map _) appended, rfl, rfl⟩
  rw [send]
  split
  · cases result with
    | wrote n =>
      rw [sendInLoop]
      split <;> exact buffers _
    | failed fault =>
      rw [sendInLoop]
      split
      · cases fault with
        | true => exact ⟨c, rfl, rfl, rfl⟩
        | false => exact buffers _
      · exact buffers _
  · exact ⟨c, rfl, rfl, rfl⟩

theorem append_pieces (pieces : List (List UInt8)) (b : PlainBuffer) :
    ∃ b', pieces.foldlM PlainBuffer.append b = some b' := by
  induction pieces generalizing b with
  | nil => exact ⟨b, rfl⟩
  | cons piece pieces ih =>
    obtain ⟨b₁, appended, -⟩ := b.append_some piece
    obtain ⟨b', rest⟩ := ih b₁
    exact ⟨b', by rw [List.foldlM_cons, appended]; exact rest⟩

theorem onRequest_some (c : HttpStream) (req : HttpRequest) (result : Written) :
    ∃ c', c.onRequest httpCallback req result = some c' ∧ c'.context = c.context ∧
      c'.input = c.input := by
  obtain ⟨buf, made⟩ := append_pieces
    (httpCallback req (.new (HttpConnection.closes req))).pieces .new
  obtain ⟨c₁, sent, context, input⟩ := c.send_some buf.readable result
  refine ⟨_, Option.bind_eq_some_iff.mpr ⟨buf, made, congrArg (Option.map _) sent⟩, ?_⟩
  split
  · exact ⟨context, input⟩
  · exact ⟨context, input⟩

theorem onMessage_some {ok : Bool} {context : HttpContext} {input : PlainBuffer}
    (parsed : c.context.parseRounds receiveTime (c.input.readable.length + 1) c.input =
      some (ok, context, input)) (result : Written) :
    ∃ c', c.onMessage httpCallback receiveTime result = some c' ∧ c'.input = input ∧
      c'.context = if context.state = .gotAll then .new else context := by
  obtain ⟨c₁, told, context₁, input₁⟩ : ∃ c₁ : HttpStream,
      (if ok then some { c with context := context, input := input }
        else (send { c with context := context, input := input } badRequest result).map shutdown) =
          some c₁ ∧ c₁.context = context ∧ c₁.input = input := by
    cases ok with
    | true => exact ⟨_, rfl, rfl, rfl⟩
    | false =>
      obtain ⟨c₁, sent, same, same'⟩ :=
        send_some { c with context := context, input := input } badRequest result
      exact ⟨c₁.shutdown, congrArg (Option.map _) sent, same, same'⟩
  rw [onMessage, parsed, Option.bind_some]
  dsimp only
  rw [told, Option.bind_some]
  by_cases all : context.state = .gotAll
  · obtain ⟨c₂, asked, -, input₂⟩ := c₁.onRequest_some httpCallback context.request result
    exact ⟨{ c₂ with context := .new }, by rw [if_pos all, asked]; rfl, input₂.trans input₁,
      (if_pos all).symm⟩
  · exact ⟨c₁, if_neg all, input₁, context₁.trans (if_neg all).symm⟩

theorem clean_of_context {context : HttpContext}
    (left : c'.context = if context.state = .gotAll then .new else context)
    (place : context.state = .expectRequestLine ∧ context.request.method = .invalid ∨
      context.state = .expectHeaders ∨ context.state = .gotAll) : c'.Clean := by
  by_cases all : context.state = .gotAll
  · rw [if_pos all] at left
    exact ⟨.inl (by rw [left]; rfl), fun _ => by rw [left]; rfl⟩
  · rw [if_neg all] at left
    rw [← left] at place all
    refine ⟨place.imp And.left (·.resolve_right all), fun line => ?_⟩
    rcases place with here | headers | got
    · exact here.2
    · exact nomatch line.symm.trans headers
    · exact absurd got all

theorem Clean.message (clean : c.Clean) (bytes : List UInt8) (receiveTime : Int)
    (result : Written) : ∃ c', c.step httpCallback (.message bytes receiveTime result) = some c' ∧
      (c.Sound (.message bytes receiveTime result) → c'.Clean) ∧
      (¬ c.Sound (.message bytes receiveTime result) → c'.Stuck) := by
  obtain ⟨input, got, readable⟩ := c.input.readFd_some bytes
  have text : input.text = c.input.text ++ bytes.map PlainBuffer.charOf := by
    rw [PlainBuffer.text, readable, List.map_append, PlainBuffer.text]
  have enough : input.text.length < input.readable.length + 1 := by
    rw [input.text_length]
    exact Nat.lt_succ_self _
  rw [Sound, ← text, Decidable.not_not]
  rcases context : c.context with ⟨state, q⟩
  have told : ∀ {ok context left}, (⟨state, q⟩ : HttpContext).parseLoop receiveTime
      (input.readable.length + 1) input.text = some (ok, context, left) →
      ∃ c' : HttpStream, c.step httpCallback (.message bytes receiveTime result) = some c' ∧
        c'.input.text = left ∧ c'.context = if context.state = .gotAll then .new else context := by
    intro ok context₁ left parsed
    obtain ⟨buf, parsed, same⟩ := HttpContext.parseRounds_of_parseLoop parsed
    obtain ⟨c', took, input', context'⟩ := onMessage_some (c := { c with input := input })
      httpCallback (context ▸ parsed) result
    exact ⟨c', (congrArg (Option.bind · _) got).trans took, by rw [input', same], context'⟩
  rcases clean.state with line | headers
  · have fresh := clean.method line
    rw [context] at line fresh
    cases line
    obtain ⟨ok, context₁, left, parsed, sound, spoilt⟩ :=
      HttpContext.parseLoop_requestLine fresh enough
    obtain ⟨c', took, input', context'⟩ := told parsed
    refine ⟨c', took, fun free => clean_of_context context' (sound ?_), fun spoils => ?_⟩
    · exact Bool.eq_false_iff.mpr fun spoils => free ⟨rfl, spoils⟩
    · obtain ⟨line, method, rfl⟩ := spoilt spoils.2
      rw [line, if_neg (nomatch ·)] at context'
      exact ⟨context' ▸ line, context' ▸ method, input' ▸ spoils.2⟩
  · rw [context] at headers
    cases headers
    obtain ⟨state, q', left, parsed, place⟩ := HttpContext.parseLoop_headers q enough
    obtain ⟨c', took, input', context'⟩ := told parsed
    exact ⟨c', took, fun _ => clean_of_context context' (.inr place), fun spoils =>
      nomatch spoils.1⟩

theorem Stuck.message (stuck : c.Stuck) (bytes : List UInt8) (receiveTime : Int)
    (result : Written) : c.step httpCallback (.message bytes receiveTime result) = none := by
  obtain ⟨input, got, readable⟩ := c.input.readFd_some bytes
  have text : input.text = c.input.text ++ bytes.map PlainBuffer.charOf := by
    rw [PlainBuffer.text, readable, List.map_append, PlainBuffer.text]
  obtain ⟨line, first, spoilt⟩ := (Option.any_eq_true _ _).mp stuck.line
  have again := firstLine_append first (bytes.map PlainBuffer.charOf)
  rw [← text] at again
  obtain ⟨n, found, rfl⟩ := Option.map_eq_some_iff.mp again
  have failed : c.context.parseRound receiveTime input = none := by
    rw [HttpContext.parseRound, stuck.state]
    dsimp only
    rw [found]
    dsimp only
    rw [processRequestLine_stuck stuck.method spoilt, Option.bind_none]
  have none_ : c.context.parseRounds receiveTime (input.readable.length + 1) input = none := by
    rw [HttpContext.parseRounds, failed, Option.bind_none]
  rw [step, got, Option.bind_some, onMessage, none_, Option.bind_none]

theorem handleWrite_some (c : HttpStream) (n : Nat) :
    ∃ c', c.step httpCallback (.handleWrite n) = some c' ∧ c'.context = c.context ∧
      c'.input = c.input := by
  rw [step, handleWrite]
  split
  · obtain ⟨output, retrieved, -⟩ := PlainBuffer.retrieve_some
      (Nat.min_le_right n c.output.readableBytes)
    exact ⟨_, congrArg (Option.map _) retrieved, rfl, rfl⟩
  · exact ⟨c, rfl, rfl, rfl⟩

theorem Clean.step (clean : c.Clean) (e : HttpEvent) : ∃ c', c.step httpCallback e = some c' ∧
    (c.Sound e → c'.Clean) ∧ (¬ c.Sound e → c'.Stuck) := by
  cases e with
  | message bytes receiveTime result => exact clean.message httpCallback bytes receiveTime result
  | handleWrite n =>
    obtain ⟨c', took, context, input⟩ := c.handleWrite_some httpCallback n
    exact ⟨c', took, fun _ => ⟨context ▸ clean.state, context ▸ clean.method⟩,
      fun spoils => absurd trivial spoils⟩

theorem Stuck.run (stuck : c.Stuck) (events : List HttpEvent) (bytes : List UInt8)
    (receiveTime : Int) (result : Written) :
    exec (machine httpCallback) c (events ++ [.message bytes receiveTime result]) = none := by
  induction events generalizing c with
  | nil => exact congrArg (Option.bind · _) (stuck.message httpCallback bytes receiveTime result)
  | cons e events ih =>
    cases e with
    | message bytes' receiveTime' result' =>
      exact congrArg (Option.bind · _) (stuck.message httpCallback bytes' receiveTime' result')
    | handleWrite n =>
      obtain ⟨c', took, context, input⟩ := c.handleWrite_some httpCallback n
      have stuck' : c'.Stuck := ⟨context ▸ stuck.state, context ▸ stuck.method, input ▸ stuck.line⟩
      exact (congrArg (Option.bind · _) took).trans (ih stuck')

theorem Clean.run (clean : c.Clean) (events : List HttpEvent) (bytes : List UInt8)
    (receiveTime : Int) (result : Written) :
    (exec (machine httpCallback) c (events ++ [.message bytes receiveTime result])).isSome ↔
      (execWhere (machine httpCallback) Sound c events).isSome := by
  induction events generalizing c with
  | nil =>
    obtain ⟨c', took, -⟩ := clean.message httpCallback bytes receiveTime result
    have run : exec (machine httpCallback) c [.message bytes receiveTime result] = some c' :=
      congrArg (Option.bind · _) took
    rw [List.nil_append, run]
    exact iff_of_true rfl rfl
  | cons e events ih =>
    obtain ⟨c', took, sound, spoilt⟩ := clean.step httpCallback e
    have first : exec (machine httpCallback) c
        (e :: events ++ [.message bytes receiveTime result]) =
          exec (machine httpCallback) c' (events ++ [.message bytes receiveTime result]) :=
      congrArg (Option.bind · _) took
    rw [first, execWhere]
    by_cases free : c.Sound e
    · rw [if_pos free, ih (sound free)]
      show _ ↔ ((c.step httpCallback e).bind fun t =>
        execWhere (machine httpCallback) Sound t events).isSome
      rw [took]
      rfl
    · rw [if_neg free, (spoilt free).run httpCallback events bytes receiveTime result]

/-- On every stream of bytes in any pieces: the calls return, and no assertion fails, if and only if
no call before the last one completes a request line that spoils the context. -/
theorem calls_return_iff (events : List HttpEvent) (bytes : List UInt8) (receiveTime : Int)
    (result : Written) :
    (exec (machine httpCallback) new (events ++ [.message bytes receiveTime result])).isSome ↔
      (execWhere (machine httpCallback) Sound new events).isSome :=
  Clean.run httpCallback ⟨.inl rfl, fun _ => rfl⟩ events bytes receiveTime result

theorem second_call_fails : ∃ c, exec (machine fun _ response => response) new
      [.message (HttpResponse.bytes "GET /\r\n") 1 (.wrote 28)] = some c ∧
    c.Stuck ∧ c.step (fun _ response => response)
      (.message (HttpResponse.bytes "x") 2 (.wrote 0)) = none := by
  have runs : ((exec (machine fun _ response => response) new
      [.message (HttpResponse.bytes "GET /\r\n") 1 (.wrote 28)]).any fun c =>
    decide (c.context.state = .expectRequestLine ∧ c.context.request.method ≠ .invalid ∧
      (firstLine c.input.text).any spoils = true) &&
    (c.step (fun _ response => response)
      (.message (HttpResponse.bytes "x") 2 (.wrote 0))).isNone) = true := by decide +kernel
  obtain ⟨c, ran, holds⟩ := (Option.any_eq_true _ _).mp runs
  obtain ⟨stuck, fails⟩ := Bool.and_eq_true_iff.mp holds
  obtain ⟨state, method, line⟩ := of_decide_eq_true stuck
  exact ⟨c, ran, ⟨state, method, line⟩, Option.isNone_iff_eq_none.mp fails⟩

end HttpStream

end ProjectsCpp.MuduoNet
