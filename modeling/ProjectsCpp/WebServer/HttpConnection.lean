import ProjectsCpp.Lib.Substring
import ProjectsCpp.Lib.Text
import Mathlib.Algebra.Group.Nat.Defs
import Mathlib.Algebra.Group.Int.Defs

/-! An HTTP connection of the web server (`connection/httpConnection.cpp`). A character stands for a
byte, and `files` for what `stat` and `open` find below `page/`. A `none` is an `int` out of its
range: `nowReadPos_` takes the places of `find`, which are `size_t`. -/

namespace ProjectsCpp.WebServer
open ProjectsCpp.Text (Str)
open ProjectsCpp.Substring

inductive HttpMethod where
  | post
  | get
deriving DecidableEq

inductive HttpVersion where
  | http10
  | http11
deriving DecidableEq

inductive ParseState where
  | error
  | request
  | header
  | success
deriving DecidableEq

inductive ErrorState where
  | notFound
  | badRequest
deriving DecidableEq

/-- The handler that waits for `EPOLLOUT`. -/
inductive WriteHandler where
  | handleSuccess
  | handleError (state : ErrorState)
deriving DecidableEq

/-- What a `parseSuccess` accepts. -/
structure ParsedRequest where
  method : HttpMethod
  fileName : Str
  version : HttpVersion
  headers : List (Str × Str)
  keepAlive : Bool
deriving DecidableEq

/-- While a write handler waits the channel is registered for `EPOLLOUT` alone, and else for
`EPOLLIN`. -/
structure HttpConnection where
  nowReadPos : Nat
  parseState : ParseState
  inBuffer : Str
  outBuffer : Str
  method : HttpMethod
  version : HttpVersion
  keepAlive : Bool
  fileName : Str
  fileType : Str
  fileSize : Int
  errorState : ErrorState
  headers : List (Str × Str)
  writeHandler : Option WriteHandler
  successes : List ParsedRequest
deriving DecidableEq

def crlf : Str := ['\r', '\n']

def kIntMax : Nat := 2 ^ 31 - 1

def getMime (suffix : Str) : Str :=
  if suffix = ".html".toList then "text/html".toList
  else if suffix = ".avi".toList then "video/x-msvideo".toList
  else if suffix = ".bmp".toList then "image/bmp".toList
  else if suffix = ".c".toList then "text/plain".toList
  else if suffix = ".doc".toList then "application/msword".toList
  else if suffix = ".gif".toList then "image/gif".toList
  else if suffix = ".gz".toList then "application/x-gzip".toList
  else if suffix = ".htm".toList then "text/html".toList
  else if suffix = ".ico".toList then "image/x-icon".toList
  else if suffix = ".jpg".toList then "image/jepg".toList
  else if suffix = ".png".toList then "image/png".toList
  else if suffix = ".txt".toList then "text/plain".toList
  else if suffix = ".mp3".toList then "audio/mp3".toList
  else "text/html".toList

def fileTypeOf (fileName : Str) : Str :=
  match findSub ['.'] fileName with
  | none => getMime "default".toList
  | some dot => getMime (fileName.drop dot)

def setHeader (headers : List (Str × Str)) (key value : Str) : List (Str × Str) :=
  (key, value) :: headers.filter (·.1 ≠ key)

def keepAliveOf (version : HttpVersion) (headers : List (Str × Str)) : Bool :=
  version = .http11 ∧
    (headers.lookup "Connection".toList = some "Keep-Alive".toList ∨
      headers.lookup "Connection".toList = some "Keep-alive".toList)

namespace HttpConnection

def new : HttpConnection :=
  ⟨0, .request, [], [], .get, .http11, false, [], [], 0, .badRequest, [], none, []⟩

def reset (c : HttpConnection) : HttpConnection :=
  { c with fileName := [], nowReadPos := 0, headers := [] }

/-- The text up to the first `str` from `nowReadPos_` on, with the connection behind it. -/
def findStrFromBuffer (c : HttpConnection) (str : Str) : Option (Option (Str × HttpConnection)) :=
  match findFrom c.inBuffer str c.nowReadPos with
  | none => some none
  | some pos =>
    if pos + str.length ≤ kIntMax then
      some (some ((c.inBuffer.drop c.nowReadPos).take (pos - c.nowReadPos),
        { c with nowReadPos := pos + str.length }))
    else none

def fail (c : HttpConnection) (e : ErrorState) : HttpConnection :=
  { c with errorState := e, parseState := .error }

def methodOf (msg : Str) : Option HttpMethod :=
  if msg = "GET".toList then some .get else if msg = "POST".toList then some .post else none

def versionOf (msg : Str) : Option HttpVersion :=
  if msg = "HTTP/1.0".toList then some .http10
  else if msg = "HTTP/1.1".toList then some .http11
  else none

variable (files : Str → Option Str)

def parseVersion (c : HttpConnection) : Option HttpConnection :=
  (c.findStrFromBuffer crlf).map fun
    | none => c.fail .badRequest
    | some (msg, c) =>
      match versionOf msg with
      | none => c.fail .badRequest
      | some version => { c with version := version, parseState := .header }

def parseFileName (c : HttpConnection) : Option HttpConnection :=
  (c.findStrFromBuffer [' ']).bind fun
    | none => some (c.fail .badRequest)
    | some (msg, c) =>
      let c := { c with fileName := if msg = [] then "index.html".toList else msg }
      match files c.fileName with
      | none => some (c.fail .notFound)
      | some content => { c with fileSize := (content.length : Int).bmod (2 ^ 32) }.parseVersion

def parseRequest (c : HttpConnection) : Option HttpConnection :=
  (c.findStrFromBuffer [' ', '/']).bind fun
    | none => some (c.fail .badRequest)
    | some (msg, c) =>
      match methodOf msg with
      | none => some (c.fail .badRequest)
      | some method => { c with method := method }.parseFileName files

def parseHeader (c : HttpConnection) : Option HttpConnection :=
  if c.inBuffer[c.nowReadPos]? = some '\r' ∧ kIntMax < c.nowReadPos + 1 then none
  else if c.inBuffer[c.nowReadPos]? = some '\r' ∧ c.inBuffer[c.nowReadPos + 1]? = some '\n' then
    some { c with parseState := .success }
  else
    (c.findStrFromBuffer [':', ' ']).bind fun
      | none => some (c.fail .badRequest)
      | some (key, c) =>
        (c.findStrFromBuffer crlf).map fun
          | none => c.fail .badRequest
          | some (value, c) =>
            { c with headers := setHeader c.headers key value, parseState := .header }

def parseError (c : HttpConnection) : HttpConnection :=
  { { c with inBuffer := [] }.reset with
    writeHandler := some (.handleError c.errorState)
    parseState := .request }

def parseSuccess (c : HttpConnection) : Option HttpConnection :=
  if c.nowReadPos + 2 ≤ kIntMax then
    let keepAlive := c.keepAlive || keepAliveOf c.version c.headers
    some { c with
      inBuffer := c.inBuffer.drop (c.nowReadPos + 2)
      nowReadPos := 0
      keepAlive := keepAlive
      fileType := fileTypeOf c.fileName
      writeHandler := some .handleSuccess
      headers := []
      parseState := .request
      successes := c.successes ++ [⟨c.method, c.fileName, c.version, c.headers, keepAlive⟩] }
  else none

def parse (c : HttpConnection) : Option HttpConnection :=
  match c.parseState with
  | .error => some c.parseError
  | .request => c.parseRequest files
  | .header => c.parseHeader
  | .success => c.parseSuccess

def hasLine (c : HttpConnection) : Bool :=
  c.inBuffer ≠ [] ∧ (findFrom c.inBuffer crlf c.nowReadPos).isSome

def parseLoop : Nat → HttpConnection → Option HttpConnection
  | 0, c => if c.hasLine then none else some c
  | rounds + 1, c => if c.hasLine then (c.parse files).bind (parseLoop rounds) else some c

/-- A call of `handleRead` whose `readn` brings the bytes. Each round but three of a request passes
a CRLF. -/
def handleRead (c : HttpConnection) (bytes : Str) : Option HttpConnection :=
  let c := { c with inBuffer := c.inBuffer ++ bytes }
  c.parseLoop files (4 * c.inBuffer.length + 4)

end HttpConnection

end ProjectsCpp.WebServer
