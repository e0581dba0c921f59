import ProjectsCpp.WebServer.HttpParsing
import ProjectsCpp.WebServer.LFUReference

/-! A connection that answers one request after the other: its reads, and the write handlers that
they register (`handleSuccess` and `handleError` of `connection/httpConnection.cpp`). -/

namespace ProjectsCpp.WebServer
open ProjectsCpp.Text (Str decimal)
open ProjectsCpp.Run

def defaultKeepAliveTime : Nat := 60000

def lfuCapacity : Nat := 10

/-- The bytes of a file that the server sends: `fileSize_` is an `int`, and a mapping of a negative
size fails. -/
def sentOf (content : Str) : Option Str :=
  if (content.length : Int).bmod (2 ^ 32) < 0 then none
  else some (content.take ((content.length : Int).bmod (2 ^ 32)).toNat)

namespace HttpConnection

/-- `Open` and `mmap` of the file whose size `stat` gave. -/
def mapFile (files : Str → Option Str) (c : HttpConnection) : Option Str :=
  (files c.fileName).bind fun content =>
    if c.fileSize < 0 then none else some (content.take c.fileSize.toNat)

def responseHead (keepAlive : Bool) (fileType : Str) (fileSize : Int) : Str :=
  "HTTP/1.1 200 OK\r\n".toList ++
    (if keepAlive then
      "Connection: Keep-Alive\r\n".toList ++
        ("Keep-Alive: timeout=".toList ++ (decimal defaultKeepAliveTime ++ crlf))
    else []) ++
    ("Content-Type: ".toList ++ (fileType ++ crlf)) ++
    ("Content-Length: ".toList ++ (decimal fileSize ++ crlf)) ++
    "Server: Lawson's HttpServer\r\n".toList ++ crlf

def responseBody (files : Str → Option Str) (c : HttpConnection) (cache : LFUCache) :
    Option (Str × LFUCache) :=
  (cache.get c.fileName).bind fun
    | (cache, some value) => some (value, cache)
    | (cache, none) => (c.mapFile files).bind fun context =>
      (cache.set c.fileName context).map fun cache => (context, cache)

/-- What `handleSuccess` puts into `outBuffer_`. -/
def response (files : Str → Option Str) (c : HttpConnection) (cache : LFUCache) :
    Option (Str × LFUCache) :=
  match c.method with
  | .post => some ([], cache)
  | .get => (c.responseBody files cache).map fun (body, cache) =>
    (responseHead c.keepAlive c.fileType c.fileSize ++ body, cache)

def timeout (c : HttpConnection) : Option Nat :=
  match c.method with
  | .post => none
  | .get => some (if c.keepAlive then defaultKeepAliveTime else 0)

def errorNum : ErrorState → Int
  | .notFound => 404
  | .badRequest => 400

def shortMsg : ErrorState → Str
  | .notFound => "Not Found".toList
  | .badRequest => "Bad Request".toList

def errorResponse (state : ErrorState) : Str :=
  let body := "<html><title>sorry, it's an error!</title>".toList ++
    "<body bgcolor=\"ffffff\">".toList ++ decimal (errorNum state) ++ ' ' :: shortMsg state ++
    "<hr><em> Lawson's WebServer</em>\n</body></html>".toList
  "HTTP/1.1 ".toList ++ decimal (errorNum state) ++ ' ' :: shortMsg state ++ crlf ++
    "Content-Type: text/html\r\n".toList ++ "Connection: Close\r\n".toList ++
    "Content-Length: ".toList ++ decimal body.length ++ crlf ++
    "Server: Lawson's HttpServer\r\n".toList ++ crlf ++ body

end HttpConnection

/-! ### The session -/

def HttpRequest.keepAlive (r : HttpRequest) : Bool :=
  keepAliveOf r.version (HttpConnection.headersOf r.headers)

/-- A connection with the cache, how many bytes of the client it has taken, and the bytes it has
written. A call that fails in the code leaves no connection. -/
structure HttpSession where
  conn : Option HttpConnection
  cache : LFUCache
  taken : Nat
  written : Str
  timer : Option Nat
  closed : Bool

/-- A call of `handleRead` that finds `n` bytes, one of the write handler where the socket has room
for so many, and the end of the timer. -/
inductive SessionStep where
  | read (n : Nat)
  | write (room : Nat)
  | expire
deriving DecidableEq

namespace HttpSession
open HttpConnection LFUCache

variable (files : Str → Option Str) (requests : List HttpRequest)

def stream (requests : List HttpRequest) : Str := requests.flatMap HttpRequest.text

def step (s : HttpSession) : SessionStep → Option HttpSession
  | .read n => s.conn.bind fun c =>
    if s.closed = false ∧ c.writeHandler = none ∧ 0 < n ∧ s.taken + n ≤ (stream requests).length then
      some { s with
        conn := c.handleRead files (((stream requests).drop s.taken).take n)
        taken := s.taken + n }
    else none
  | .write room => s.conn.bind fun c =>
    if s.closed then none
    else c.writeHandler.map fun
      | .handleSuccess =>
        match c.response files s.cache with
        | none => { s with conn := none }
        | some (out, cache) =>
          { s with
            conn := some { c with outBuffer := out.drop room, writeHandler := none }.reset
            cache := cache
            written := s.written ++ out.take room
            timer := c.timeout.orElse fun _ => s.timer }
      | .handleError state =>
        { s with
          conn := some { c with outBuffer := [], writeHandler := none }
          written := s.written ++ (c.outBuffer ++ errorResponse state).take room }
  | .expire => if s.timer.isSome then some { s with timer := none, closed := true } else none

def firstResponse (r : HttpRequest) : Option Str :=
  (new.handleRead files r.text).bind fun c =>
    if c.writeHandler = some .handleSuccess then
      (c.response files (.make lfuCapacity)).map Prod.fst
    else none

def received : List HttpRequest → Nat → List HttpRequest
  | [], _ => []
  | r :: rest, n => if r.text.length ≤ n then r :: received rest (n - r.text.length) else []

def behind (n : Nat) : Str := ((stream requests).take n).drop (stream (received requests n)).length

def Serves (cache : LFUCache) : Prop :=
  ∃ run : LFURun, run.cache = some cache ∧ run.Mirrored ∧
    ∀ e ∈ run.reference.entries, (files e.key).bind sentOf = some e.value

def Answered (s : HttpSession) : Prop :=
  ∃ c done waits texts, s.conn = some c ∧ received requests s.taken = done ++ waits ∧
    waits.length = (if c.writeHandler = none then 0 else 1) ∧
    done.mapM (firstResponse files) = some texts ∧ s.written = texts.flatten

structure Gets : Prop where
  method : ∀ r ∈ requests, r.method = .get
  there : ∀ r ∈ requests, ∃ content, files r.fileName = some content

/-- `nowReadPos_` and `fileSize_` count up to the length of a request and of a file, and no request
behind one that keeps the connection alive lets it close. -/
structure Fits : Prop where
  text : ∀ r ∈ requests, r.text.length ≤ kIntMax
  sent : ∀ r ∈ requests, (files r.fileName).bind sentOf ≠ none
  alive : requests.Pairwise fun q r => q.keepAlive → r.keepAlive

/-- A read brings the end of one request at most, and then no line of the next one. The socket has
room for the whole response, and the use count of the file in the cache is not the last `int`. The
timer ends when all is answered. -/
def Orderly (s : HttpSession) : SessionStep → Prop
  | .read n => (received requests (s.taken + n)).length = (received requests s.taken).length ∨
    (received requests (s.taken + n)).length = (received requests s.taken).length + 1 ∧
      ¬crlf <:+: behind requests (s.taken + n)
  | .write room => s.conn.all fun c =>
    ((c.response files s.cache).all fun out => out.1.length ≤ room) ∧
      (s.cache.fmap.lookup c.fileName).all fun f => s.cache.getFreq f ≠ some intMax
  | .expire => s.taken = (stream requests).length ∧ s.conn.all fun c => c.writeHandler = none

instance (s : HttpSession) (a : SessionStep) : Decidable (s.Orderly files requests a) := by
  rcases a <;> (unfold Orderly; infer_instance)

def machine : Machine HttpSession SessionStep where
  start s := s.conn = some new ∧ Serves files s.cache ∧ s.taken = 0 ∧ s.written = [] ∧
    s.timer = none ∧ s.closed = false
  step := step files requests

variable {files requests} {s : HttpSession} {cache : LFUCache} {c d : HttpConnection}
  {r : HttpRequest} {content text : Str}

/-! ### The cache -/

theorem Serves.responseBody (serves : Serves files cache)
    (counts : (cache.fmap.lookup c.fileName).all fun f => cache.getFreq f ≠ some intMax)
    (there : files c.fileName = some content)
    (size : c.fileSize = (content.length : Int).bmod (2 ^ 32)) (sent : sentOf content = some text) :
    ∃ cache', c.responseBody files cache = some (text, cache') ∧ Serves files cache' := by
  obtain ⟨run, cached, mirrored, holds⟩ := serves
  obtain ⟨cache₁, run₁, found, cached₁, reference₁, mirrored₁⟩ :=
    mirrored.get cached (mirrored.countsOn cached counts)
  have file : (files c.fileName).bind sentOf = some text := by rw [there, Option.bind_some, sent]
  rw [HttpConnection.responseBody, found, Option.bind_some]
  cases known : run.reference.find c.fileName with
  | some e =>
    obtain ⟨inside, key⟩ : e ∈ run.reference.entries ∧ e.key = c.fileName :=
      ⟨List.mem_of_find?_eq_some known, by simpa using List.find?_some known⟩
    have value : e.value = text := by
      have held := holds e inside
      rw [key, file] at held
      exact (Option.some.inj held).symm
    rw [Reference.get, known] at reference₁
    rw [Reference.get, known, ← value]
    refine ⟨cache₁, rfl, run₁, cached₁, mirrored₁, ?_⟩
    rw [reference₁]
    intro e' member
    obtain ⟨old, inside', rfl⟩ := List.mem_map.mp member
    have held := holds old inside'
    rw [Reference.touch]
    split <;> exact held
  | none =>
    have mapped : c.mapFile files = some text := by
      rw [HttpConnection.mapFile, there, Option.bind_some, size]
      exact sent
    have miss : run.reference.get c.fileName = (run.reference, none) := by
      rw [Reference.get, known]
    rw [miss] at reference₁
    have unknown : run₁.reference.find c.fileName = none := by
      rw [reference₁, known]
    obtain ⟨cache₂, run₂, put, cached₂, reference₂, mirrored₂⟩ :=
      mirrored₁.set text cached₁ unknown
    refine ⟨cache₂, ?_, run₂, cached₂, mirrored₂, ?_⟩
    · rw [miss]
      dsimp only
      rw [mapped, Option.bind_some, put]
      rfl
    rw [reference₂, reference₁]
    intro e member
    rcases List.mem_cons.mp member with rfl | member
    · exact file
    · exact holds e (Reference.makeRoom_subset _ member)

theorem Serves.response (serves : Serves files cache)
    (counts : (cache.fmap.lookup c.fileName).all fun f => cache.getFreq f ≠ some intMax)
    (get : c.method = .get) (there : files c.fileName = some content)
    (size : c.fileSize = (content.length : Int).bmod (2 ^ 32)) (sent : sentOf content = some text) :
    ∃ cache', c.response files cache =
      some (responseHead c.keepAlive c.fileType c.fileSize ++ text, cache') ∧
        Serves files cache' := by
  obtain ⟨cache', body, serves'⟩ := serves.responseBody counts there size sent
  refine ⟨cache', ?_, serves'⟩
  rw [HttpConnection.response, get]
  dsimp only
  rw [body]
  rfl

theorem serves_make {capacity : Nat} (positive : 0 < capacity) : Serves files (.make capacity) :=
  ⟨_, rfl, LFURun.mirrored_of_reach positive (.start (M := LFURun.machine capacity) rfl), nofun⟩

theorem firstResponse_eq (get : r.method = .get) (there : files r.fileName = some content)
    (sent : sentOf content = some text) (fits : r.text.length ≤ kIntMax) :
    firstResponse files r = some (responseHead r.keepAlive (fileTypeOf r.fileName)
      ((content.length : Int).bmod (2 ^ 32)) ++ text) := by
  have serves : Serves files (.make lfuCapacity) := serves_make (by decide)
  have empty : (make lfuCapacity).fmap = ∅ := rfl
  have counts : ((make lfuCapacity).fmap.lookup r.fileName).all
      fun f => (make lfuCapacity).getFreq f ≠ some intMax := by
    rw [empty, AList.lookup_empty]
    rfl
  have size : (new.finished r content []).fileSize = (content.length : Int).bmod (2 ^ 32) := by
    rw [finished]
  obtain ⟨cache, response, -⟩ :=
    serves.response (c := new.finished r content []) counts get there size sent
  rw [firstResponse, handleRead_text new_ready rfl there, if_pos fits, Option.bind_some,
    if_pos (show (new.finished r content []).writeHandler = some .handleSuccess from rfl), response,
    size]
  rfl

/-! ### The stream -/

theorem stream_append (done rest : List HttpRequest) :
    stream (done ++ rest) = stream done ++ stream rest := List.flatMap_append

theorem received_append (done rest : List HttpRequest) (n : Nat) :
    received (done ++ rest) ((stream done).length + n) = done ++ received rest n := by
  induction done with
  | nil =>
    rw [List.nil_append, List.nil_append, stream, List.flatMap_nil, List.length_nil, Nat.zero_add]
  | cons r done ih =>
    have size : (stream (r :: done)).length = r.text.length + (stream done).length := by
      rw [stream, List.flatMap_cons, List.length_append, stream]
    rw [List.cons_append, List.cons_append, received, size, if_pos (by omega), ← ih]
    congr 2
    omega

theorem received_all (requests : List HttpRequest) :
    received requests (stream requests).length = requests := by
  have whole := received_append requests [] 0
  rwa [List.append_nil, Nat.add_zero, received, List.append_nil] at whole

theorem received_none {rest : List HttpRequest} {buffer : Str} (starts : buffer <+: stream rest)
    (part : ∀ r more, rest = r :: more → ∃ k input, k < r.lines.length ∧ ¬crlf <:+: input ∧
      buffer = HttpRequest.textOf (r.lines.take k) ++ input) :
    received rest buffer.length = [] := by
  cases rest with
  | nil => rfl
  | cons r more =>
    obtain ⟨k, input, place, free, rfl⟩ := part r more rfl
    refine if_neg fun whole => free ?_
    have text : r.text <+: HttpRequest.textOf (r.lines.take k) ++ input :=
      List.prefix_of_prefix_length_le (List.prefix_append _ _) starts whole
    rw [text_split r k, List.prefix_append_right_inj] at text
    exact (textOf_drop_crlf place).trans text.isInfix

/-! ### The invariant -/

section Invariant
variable {done rest : List HttpRequest} {t : HttpSession}

/-- The requests that came whole, the others, and the bytes that were read of these. -/
structure Reached (files : Str → Option Str) (requests : List HttpRequest) (s : HttpSession)
    (c : HttpConnection) (done rest : List HttpRequest) : Prop where
  conn : s.conn = some c
  serves : Serves files s.cache
  parts : requests = done ++ rest
  bytes : (stream requests).take s.taken = stream done ++ c.inBuffer
  bound : s.taken ≤ (stream requests).length
  alive : c.keepAlive = true → ∃ q ∈ done, q.keepAlive = true

/-- No request waits: all are done, or the connection is behind some lines of the next one. -/
inductive Idle (files : Str → Option Str) : List HttpRequest → HttpConnection → Prop
  | last {c : HttpConnection} : c.Ready → c.writeHandler = none → c.inBuffer = [] → Idle files [] c
  | inside {d : HttpConnection} {r : HttpRequest} {more : List HttpRequest} {content input : Str}
      {k : Nat} : d.Ready → d.writeHandler = none → files r.fileName = some content →
      k < r.lines.length → ¬crlf <:+: input →
      Idle files (r :: more) (d.passed r content k (HttpRequest.textOf (r.lines.take k) ++ input))

/-- The request waits for its response, and no line of the next one was read. -/
structure Waiting (files : Str → Option Str) (r : HttpRequest) (c : HttpConnection) : Prop where
  ready : c.Ready
  handler : c.writeHandler = some .handleSuccess
  method : c.method = r.method
  fileName : c.fileName = r.fileName
  fileType : c.fileType = fileTypeOf r.fileName
  fileSize : ∀ content, files r.fileName = some content →
    c.fileSize = (content.length : Int).bmod (2 ^ 32)
  keepAlive : c.keepAlive = r.keepAlive
  free : ¬crlf <:+: c.inBuffer

def Kept (files : Str → Option Str) (requests : List HttpRequest) (s : HttpSession) : Prop :=
  ∃ c done rest answered texts, Reached files requests s c done rest ∧
    answered.mapM (firstResponse files) = some texts ∧ s.written = texts.flatten ∧
    (answered = done ∧ Idle files rest c ∨ ∃ r, done = answered ++ [r] ∧ Waiting files r c)

theorem passed_writeHandler (d : HttpConnection) (r : HttpRequest) (content : Str) (k : Nat)
    (buffer : Str) : (d.passed r content k buffer).writeHandler = d.writeHandler := by
  cases k <;> rfl

theorem passed_keepAlive (d : HttpConnection) (r : HttpRequest) (content : Str) (k : Nat)
    (buffer : Str) : (d.passed r content k buffer).keepAlive = d.keepAlive := by
  cases k <;> rfl

theorem Idle.handler (idle : Idle files rest c) : c.writeHandler = none := by
  cases idle with
  | last _ handler _ => exact handler
  | inside _ handler _ _ _ => rw [passed_writeHandler, handler]

theorem Reached.starts (reached : Reached files requests s c done rest) :
    c.inBuffer <+: stream rest := by
  have taken := List.take_prefix s.taken (stream requests)
  rw [reached.bytes, reached.parts, stream_append, List.prefix_append_right_inj] at taken
  exact taken

theorem Reached.taken_eq (reached : Reached files requests s c done rest) :
    s.taken = (stream done).length + c.inBuffer.length := by
  have size := congrArg List.length reached.bytes
  rwa [List.length_take_of_le reached.bound, List.length_append] at size

theorem Reached.received_eq (reached : Reached files requests s c done rest) :
    received requests s.taken = done ++ received rest c.inBuffer.length := by
  rw [reached.taken_eq, reached.parts, received_append]

theorem Reached.received_idle (reached : Reached files requests s c done rest)
    (idle : Idle files rest c) : received requests s.taken = done := by
  have none : received rest c.inBuffer.length = [] := by
    refine received_none reached.starts ?_
    rintro r more rfl
    cases idle with
    | inside _ _ _ place free => exact ⟨_, _, place, free, passed_inBuffer ..⟩
  rw [reached.received_eq, none, List.append_nil]

theorem Reached.received_waiting (reached : Reached files requests s c done rest)
    (waiting : Waiting files r c) : received requests s.taken = done := by
  have none : received rest c.inBuffer.length = [] :=
    received_none reached.starts fun _ _ _ => ⟨0, c.inBuffer, Nat.succ_pos _, waiting.free, rfl⟩
  rw [reached.received_eq, none, List.append_nil]

theorem Kept.answered (kept : Kept files requests s) : Answered files requests s := by
  obtain ⟨c, done, rest, answered, texts, reached, responses, written,
    ⟨rfl, idle⟩ | ⟨r, rfl, waiting⟩⟩ := kept
  · refine ⟨c, answered, [], texts, reached.conn, ?_, ?_, responses, written⟩
    · rw [reached.received_idle idle, List.append_nil]
    · rw [if_pos idle.handler, List.length_nil]
  · refine ⟨c, answered, [r], texts, reached.conn, reached.received_waiting waiting, ?_, responses,
      written⟩
    rw [waiting.handler]
    rfl

theorem behind_eq {n : Nat} {beyond : Str}
    (bytes : (stream requests).take n = stream done ++ beyond)
    (came : received requests n = done) : behind requests n = beyond := by
  rw [behind, bytes, came, List.drop_left]

theorem alive_of_pairwise (alive : requests.Pairwise fun q r => q.keepAlive → r.keepAlive)
    (parts : requests = done ++ r :: rest) (earlier : ∃ q ∈ done, q.keepAlive = true) :
    r.keepAlive = true := by
  obtain ⟨q, member, kept⟩ := earlier
  rw [parts, List.pairwise_append] at alive
  exact alive.2.2 q member r List.mem_cons_self kept

theorem read_kept (fits : Fits files requests) {n : Nat} {texts : List Str}
    (reached : Reached files requests s c done rest) (idle : Idle files rest c)
    (responses : done.mapM (firstResponse files) = some texts) (written : s.written = texts.flatten)
    (orderly : s.Orderly files requests (.read n))
    (next : s.step files requests (.read n) = some t) : Kept files requests t := by
  have before := reached.received_idle idle
  rw [step, reached.conn, Option.bind_some] at next
  split at next
  · rename_i guard
    obtain ⟨-, -, positive, bound⟩ := guard
    generalize fresh : ((stream requests).drop s.taken).take n = bytes at next
    cases next
    have consumed : (stream requests).take (s.taken + n) = stream done ++ (c.inBuffer ++ bytes) := by
      rw [List.take_add, reached.bytes, fresh, List.append_assoc]
    have starts : c.inBuffer ++ bytes <+: stream rest := by
      have taken := List.take_prefix (s.taken + n) (stream requests)
      rw [consumed, reached.parts, stream_append, List.prefix_append_right_inj] at taken
      exact taken
    cases idle with
    | last _ _ _ =>
      have size : bytes.length = n := by
        rw [← fresh, List.length_take_of_le]
        rw [List.length_drop]
        omega
      have none := (List.append_eq_nil_iff.mp (List.prefix_nil.mp starts)).2
      rw [none, List.length_nil] at size
      omega
    | @inside d r more content input k ready handler there place free =>
      rw [passed_inBuffer] at starts consumed
      have member : r ∈ requests := by
        rw [reached.parts]
        exact List.mem_append_right _ List.mem_cons_self
      rcases handleRead_next ready there (fits.text r member) place starts with
        ⟨beyond, whole, -, read⟩ | ⟨j, tail, place', free', parts, read⟩
      · have parts : requests = done ++ [r] ++ more := by
          rw [reached.parts, List.append_assoc, List.singleton_append]
        have consumed' : (stream requests).take (s.taken + n) = stream (done ++ [r]) ++ beyond := by
          rw [consumed, whole, stream_append, List.append_assoc]
          simp [stream]
        have size : s.taken + n = (stream (done ++ [r])).length + beyond.length := by
          have size := congrArg List.length consumed'
          rwa [List.length_take_of_le bound, List.length_append] at size
        have came : received requests (s.taken + n) = done ++ [r] ++ received more beyond.length := by
          rw [size, parts, received_append]
        have short : ¬crlf <:+: beyond := by
          rw [Orderly, came, before] at orderly
          simp only [List.length_append, List.length_cons, List.length_nil] at orderly
          rcases orderly with same | ⟨one, short⟩
          · omega
          · have none : received more beyond.length = [] := List.length_eq_zero_iff.mp (by omega)
            rwa [behind_eq consumed' (by rw [came, none, List.append_nil])] at short
        have alive : (d.finished r content beyond).keepAlive = r.keepAlive := by
          change (d.keepAlive || r.keepAlive) = r.keepAlive
          cases kept : d.keepAlive with
          | false => rfl
          | true =>
            have earlier := reached.alive (by rw [passed_keepAlive, kept])
            rw [alive_of_pairwise fits.alive reached.parts earlier]
            rfl
        refine ⟨d.finished r content beyond, done ++ [r], more, done, texts,
          ⟨read short, reached.serves, parts, consumed', bound, fun kept => ?_⟩, responses, written,
          .inr ⟨r, rfl, ⟨rfl, rfl, rfl⟩, rfl, rfl, rfl, rfl, fun content' there' => ?_, alive, short⟩⟩
        · exact ⟨r, List.mem_append_right _ (List.mem_singleton_self r), alive ▸ kept⟩
        · obtain rfl := Option.some.inj (there.symm.trans there')
          rw [finished]
      · refine ⟨_, done, r :: more, done, texts, ⟨read, reached.serves, reached.parts, ?_, bound, ?_⟩,
          responses, written, .inl ⟨rfl, .inside ready handler there place' free'⟩⟩
        · rw [consumed, parts, passed_inBuffer]
        · rw [passed_keepAlive]
          intro kept
          exact reached.alive (by rw [passed_keepAlive, kept])
  · cases next

theorem Idle.of_ready (gets : Gets files requests) (parts : requests = done ++ rest)
    (ready : c.Ready) (handler : c.writeHandler = none) (free : ¬crlf <:+: c.inBuffer)
    (starts : c.inBuffer <+: stream rest) : Idle files rest c := by
  cases rest with
  | nil => exact .last ready handler (List.prefix_nil.mp starts)
  | cons r more =>
    obtain ⟨content, there⟩ := gets.there r (parts ▸ List.mem_append_right _ List.mem_cons_self)
    have idle : Idle files (r :: more)
        (c.passed r content 0 (HttpRequest.textOf (r.lines.take 0) ++ c.inBuffer)) :=
      .inside ready handler there (Nat.succ_pos _) free
    exact idle

theorem write_kept (gets : Gets files requests) (fits : Fits files requests) {room : Nat}
    {answered : List HttpRequest} {texts : List Str}
    (reached : Reached files requests s c (answered ++ [r]) rest) (waiting : Waiting files r c)
    (responses : answered.mapM (firstResponse files) = some texts)
    (written : s.written = texts.flatten) (orderly : s.Orderly files requests (.write room))
    (next : s.step files requests (.write room) = some t) : Kept files requests t := by
  have member : r ∈ requests := by
    rw [reached.parts]
    exact List.mem_append_left _ (List.mem_append_right _ (List.mem_singleton_self r))
  obtain ⟨content, there⟩ := gets.there r member
  have get := gets.method r member
  obtain ⟨text, sent⟩ := Option.ne_none_iff_exists'.mp (fits.sent r member)
  rw [there, Option.bind_some] at sent
  rw [Orderly, reached.conn, Option.all_some, decide_eq_true_iff] at orderly
  obtain ⟨enough, counts⟩ := orderly
  obtain ⟨cache, response, serves⟩ := reached.serves.response counts (waiting.method.trans get)
    (waiting.fileName.symm ▸ there) (waiting.fileSize content there) sent
  rw [response, Option.all_some, decide_eq_true_iff] at enough
  have first : firstResponse files r =
      some (responseHead c.keepAlive c.fileType c.fileSize ++ text) := by
    rw [firstResponse_eq get there sent (fits.text r member), waiting.keepAlive, waiting.fileType,
      waiting.fileSize content there]
  generalize responseHead c.keepAlive c.fileType c.fileSize ++ text = out at response enough first
  rw [step, reached.conn, Option.bind_some, waiting.handler] at next
  split at next
  · cases next
  · rw [Option.map_some] at next
    dsimp only at next
    rw [response] at next
    cases next
    refine ⟨_, answered ++ [r], rest, answered ++ [r], texts ++ [out], ⟨rfl, serves, reached.parts,
      reached.bytes, reached.bound, reached.alive⟩, ?_, ?_, .inl ⟨rfl, ?_⟩⟩
    · rw [List.mapM_append, responses, List.mapM_cons, first]
      rfl
    · dsimp only
      rw [List.take_of_length_le enough, written, List.flatten_append, List.flatten_singleton]
    · exact .of_ready gets reached.parts ⟨rfl, waiting.ready.state, rfl⟩ rfl waiting.free reached.starts

theorem expire_kept (kept : Kept files requests s)
    (next : s.step files requests .expire = some t) : Kept files requests t := by
  obtain ⟨c, done, rest, answered, texts, reached, responses, written, state⟩ := kept
  rw [step] at next
  split at next
  · cases next
    exact ⟨c, done, rest, answered, texts, ⟨reached.conn, reached.serves, reached.parts,
      reached.bytes, reached.bound, reached.alive⟩, responses, written, state⟩
  · cases next

theorem step_kept (gets : Gets files requests) (fits : Fits files requests) {a : SessionStep}
    (kept : Kept files requests s) (orderly : s.Orderly files requests a)
    (next : s.step files requests a = some t) : Kept files requests t := by
  cases a with
  | read n =>
    obtain ⟨c, done, rest, answered, texts, reached, responses, written,
      ⟨rfl, idle⟩ | ⟨r, rfl, waiting⟩⟩ := kept
    · exact read_kept fits reached idle responses written orderly next
    · rw [step, reached.conn, Option.bind_some, if_neg fun guard => by
        rw [waiting.handler] at guard
        exact absurd guard.2.1 (by decide)] at next
      cases next
  | write room =>
    obtain ⟨c, done, rest, answered, texts, reached, responses, written,
      ⟨rfl, idle⟩ | ⟨r, rfl, waiting⟩⟩ := kept
    · rw [step, reached.conn, Option.bind_some, idle.handler, Option.map_none, ite_self] at next
      cases next
    · exact write_kept gets fits reached waiting responses written orderly next
  | expire => exact expire_kept kept next

end Invariant

theorem kept_of_reach (gets : Gets files requests) (fits : Fits files requests)
    (reach : Reach (machine files requests) (Orderly files requests) s) : Kept files requests s := by
  refine reach.invariant ?_ fun s a t kept orderly next => step_kept gets fits kept orderly next
  rintro s ⟨conn, serves, taken, written, -, -⟩
  refine ⟨new, [], requests, [], [], ⟨conn, serves, rfl, ?_, ?_, nofun⟩, rfl, written, .inl ⟨rfl, ?_⟩⟩
  · rw [taken]
    rfl
  · rw [taken]
    exact Nat.zero_le _
  · exact .of_ready gets (List.nil_append _).symm new_ready rfl (by decide) (List.nil_prefix)

/-- In every orderly run each request gets, in the order of the requests, the one response that it
would get as the first request of a fresh connection. -/
theorem responses_in_order (gets : Gets files requests) (fits : Fits files requests)
    (reach : Reach (machine files requests) (Orderly files requests) s) :
    Answered files requests s :=
  (kept_of_reach gets fits reach).answered

theorem all_answered (gets : Gets files requests) (fits : Fits files requests)
    (reach : Reach (machine files requests) (Orderly files requests) s)
    (whole : s.taken = (stream requests).length) (idle : s.conn.all fun c => c.writeHandler = none) :
    ∃ texts, requests.mapM (firstResponse files) = some texts ∧ s.written = texts.flatten := by
  obtain ⟨c, done, waits, texts, conn, came, count, responses, written⟩ :=
    (kept_of_reach gets fits reach).answered
  rw [conn, Option.all_some, decide_eq_true_iff] at idle
  rw [if_pos idle, List.length_eq_zero_iff] at count
  rw [whole, received_all, count, List.append_nil] at came
  exact ⟨texts, came ▸ responses, written⟩

def pages (fileName : Str) : Option Str :=
  if fileName = "index.html".toList then some "hello".toList else none

def indexRequest : HttpRequest := headerRequest "Keep-Alive".toList (by decide)

def begin : HttpSession := ⟨some new, .make lfuCapacity, 0, [], none, false⟩

theorem begin_start (requests : List HttpRequest) : (machine pages requests).start begin :=
  ⟨rfl, serves_make (by decide), rfl, rfl, rfl, rfl⟩

theorem indexRequests_gets : Gets pages [indexRequest, indexRequest] :=
  ⟨by decide, fun r member => ⟨"hello".toList, by
    rcases List.mem_cons.mp member with rfl | member
    · decide
    · rw [List.mem_singleton.mp member]
      decide⟩⟩

theorem responses_in_order_two :
    ∃ s, execWhere (machine pages [indexRequest, indexRequest])
        (Orderly pages [indexRequest, indexRequest]) begin
        [.read 17, .read 30, .write 1000, .read 37, .write 1000, .expire] = some s ∧
      s.closed ∧ s.taken = 84 ∧ Answered pages [indexRequest, indexRequest] s := by
  have ran : (execWhere (machine pages [indexRequest, indexRequest])
      (Orderly pages [indexRequest, indexRequest]) begin
      [.read 17, .read 30, .write 1000, .read 37, .write 1000, .expire]).any
        (fun s => s.closed ∧ s.taken = 84) = true := by
    decide +kernel
  obtain ⟨s, done, facts⟩ := (Option.any_eq_true _ _).mp ran
  obtain ⟨closed, taken⟩ := of_decide_eq_true facts
  have fits : Fits pages [indexRequest, indexRequest] :=
    ⟨by decide +kernel, by decide +kernel, by decide +kernel⟩
  exact ⟨s, done, closed, taken, responses_in_order indexRequests_gets fits
    ((Reach.start (begin_start _)).execWhere done)⟩

theorem one_response_for_two : Gets pages [indexRequest, indexRequest] ∧
    ∃ s, Reachable (machine pages [indexRequest, indexRequest]) s ∧
      ¬Answered pages [indexRequest, indexRequest] s := by
  have ran : (exec (machine pages [indexRequest, indexRequest]) begin [.read 84, .write 1000]).any
      (fun s => (s.conn.all fun c => c.writeHandler = none) ∧
        ((received [indexRequest, indexRequest] s.taken).mapM (firstResponse pages)).all
          fun texts => s.written ≠ texts.flatten) = true := by
    decide +kernel
  obtain ⟨s, done, facts⟩ := (Option.any_eq_true _ _).mp ran
  obtain ⟨idle, unlike⟩ := of_decide_eq_true facts
  refine ⟨indexRequests_gets, s, Reach.exec (.start (begin_start _)) done, ?_⟩
  rintro ⟨c, answered, waits, texts, conn, came, count, responses, written⟩
  rw [conn, Option.all_some, decide_eq_true_iff] at idle
  rw [if_pos idle, List.length_eq_zero_iff] at count
  rw [came, count, List.append_nil, responses, Option.all_some, decide_eq_true_iff] at unlike
  exact unlike written

end HttpSession

end ProjectsCpp.WebServer
