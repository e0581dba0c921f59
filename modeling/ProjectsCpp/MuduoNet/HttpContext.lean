import ProjectsCpp.Lib.Lines
import ProjectsCpp.Lib.Maps
import Mathlib.Data.List.DropRight

/-! The HTTP side of muduo (`http/HttpRequest.h`, `http/HttpContext.cc`, `http/HttpServer.cc`) on
the readable part of the input buffer. A failing assertion, or a loop that goes on for ever,
gives `none`; a time is its number of microseconds. -/

namespace ProjectsCpp.MuduoNet
open ProjectsCpp.Text (Str)
open ProjectsCpp.Substring

inductive Method where
  | invalid | get | post | head | put | delete
deriving DecidableEq

inductive Version where
  | unknown | http10 | http11
deriving DecidableEq

structure HttpRequest where
  method : Method
  version : Version
  path : Str
  query : Str
  receiveTime : Int
  headers : AList fun _ : Str => Str

namespace HttpRequest

def new : HttpRequest := ⟨.invalid, .unknown, [], [], 0, ∅⟩

def methodOf (m : Str) : Method :=
  if m = "GET".toList then .get
  else if m = "POST".toList then .post
  else if m = "HEAD".toList then .head
  else if m = "PUT".toList then .put
  else if m = "DELETE".toList then .delete
  else .invalid

def setMethod (r : HttpRequest) (m : Str) : Option (Bool × HttpRequest) :=
  if r.method = .invalid then some (methodOf m ≠ .invalid, { r with method := methodOf m }) else none

def isspace (c : Char) : Bool := c = ' ' ∨ (9 ≤ c.toNat ∧ c.toNat ≤ 13)

def addHeader (r : HttpRequest) (line : Str) : HttpRequest :=
  let field := line.takeWhile (· ≠ ':')
  let value := ((line.drop (field.length + 1)).dropWhile isspace).rdropWhile isspace
  { r with headers := r.headers.insert field value }

def getHeader (r : HttpRequest) (field : Str) : Str := (r.headers.lookup field).getD []

end HttpRequest

inductive HttpRequestParseState where
  | expectRequestLine | expectHeaders | expectBody | gotAll
deriving DecidableEq

structure HttpContext where
  state : HttpRequestParseState
  request : HttpRequest

def crlf : Str := ['\r', '\n']

def setVersion (r : HttpRequest) (start : Str) : Bool × HttpRequest :=
  if start.length = 8 ∧ start.take 7 = "HTTP/1.".toList then
    if start.getLast? = some '1' then (true, { r with version := .http11 })
    else if start.getLast? = some '0' then (true, { r with version := .http10 })
    else (false, r)
  else (false, r)

def setTarget (r : HttpRequest) (target : Str) : HttpRequest :=
  let path := target.takeWhile (· ≠ '?')
  if path.length ≠ target.length then { r with path := path, query := target.drop path.length }
  else { r with path := target }

def processRequestLine (r : HttpRequest) (line : Str) : Option (Bool × HttpRequest) :=
  let word := line.takeWhile (· ≠ ' ')
  if word.length = line.length then some (false, r)
  else
    (r.setMethod word).map fun (valid, r) =>
      let start := line.drop (word.length + 1)
      let target := start.takeWhile (· ≠ ' ')
      if !valid then (false, r)
      else if target.length = start.length then (false, r)
      else setVersion (setTarget r target) (start.drop (target.length + 1))

namespace HttpContext

def new : HttpContext := ⟨.expectRequestLine, .new⟩

/-- The loop of `parseRequest`, for so many rounds; what is left of the buffer at the end. -/
def parseLoop (receiveTime : Int) : Nat → HttpContext → Str → Option (Bool × HttpContext × Str)
  | 0, _, _ => none
  | rounds + 1, c, buf =>
    match c.state with
    | .expectRequestLine =>
      match findSub crlf buf with
      | none => some (true, c, buf)
      | some n => (processRequestLine c.request (buf.take n)).bind fun (ok, r) =>
        if ok then
          parseLoop receiveTime rounds ⟨.expectHeaders, { r with receiveTime := receiveTime }⟩
            (buf.drop (n + 2))
        else some (false, ⟨.expectRequestLine, r⟩, buf)
    | .expectHeaders =>
      match findSub crlf buf with
      | none => some (true, c, buf)
      | some n =>
        if ':' ∈ buf.take n then
          parseLoop receiveTime rounds ⟨.expectHeaders, c.request.addHeader (buf.take n)⟩
            (buf.drop (n + 2))
        else some (true, ⟨.gotAll, c.request⟩, buf.drop (n + 2))
    | .expectBody => parseLoop receiveTime rounds c buf
    | .gotAll => parseLoop receiveTime rounds c buf

/-- `parseRequest`; every round that does not end the loop takes a CRLF out of the buffer. -/
def parseRequest (c : HttpContext) (buf : Str) (receiveTime : Int) :
    Option (Bool × HttpContext × Str) :=
  c.parseLoop receiveTime (buf.length + 1) buf

end HttpContext

/-- A connection with its `HttpContext`. `calls` are the requests `httpCallback_` has been called
with, `sent` is what has been sent, `shutdown` stands for a call of `shutdown()`. -/
structure HttpConnection where
  context : HttpContext
  input : Str
  calls : List HttpRequest
  sent : Str
  shutdown : Bool

namespace HttpConnection

def new : HttpConnection := ⟨.new, [], [], [], false⟩

def closes (req : HttpRequest) : Bool :=
  req.getHeader "Connection".toList = "close".toList ∨
    (req.version = .http10 ∧ req.getHeader "Connection".toList ≠ "Keep-Alive".toList)

/-- `onRequest`; the callback gives the text of the response and its `closeConnection()`. -/
def onRequest (httpCallback : HttpRequest → Bool → Str × Bool) (c : HttpConnection)
    (req : HttpRequest) : HttpConnection :=
  let response := httpCallback req (closes req)
  { c with
    calls := c.calls ++ [req]
    sent := c.sent ++ response.1
    shutdown := c.shutdown || response.2 }

def onMessage (httpCallback : HttpRequest → Bool → Str × Bool) (c : HttpConnection) (bytes : Str)
    (receiveTime : Int) : Option HttpConnection :=
  (c.context.parseRequest (c.input ++ bytes) receiveTime).map fun (ok, context, left) =>
    let c := { c with context := context, input := left }
    let c := if ok then c
      else { c with sent := c.sent ++ "HTTP/1.1 400 Bad Request\r\n\r\n".toList, shutdown := true }
    if context.state = .gotAll then { c.onRequest httpCallback context.request with context := .new }
    else c

def onMessages (httpCallback : HttpRequest → Bool → Str × Bool) (c : HttpConnection)
    (chunks : List (Str × Int)) : Option HttpConnection :=
  chunks.foldlM (fun c chunk => c.onMessage httpCallback chunk.1 chunk.2) c

end HttpConnection

end ProjectsCpp.MuduoNet
