import ProjectsCpp.WebServer.HttpConnection
import ProjectsCpp.Lib.Lines

/-! What the parser of an HTTP connection makes of a well-formed request, however its bytes arrive. -/

namespace ProjectsCpp.WebServer
open ProjectsCpp.Text (Str)
open ProjectsCpp.Substring

structure HttpRequest where
  method : HttpMethod
  path : Str
  version : HttpVersion
  headers : List (Str × Str)
  plainPath : ' ' ∉ path ∧ ¬crlf <:+: path
  plainHeaders : ∀ h ∈ headers, ¬[':', ' '] <:+: h.1 ∧ ¬crlf <:+: h.1 ∧ ¬crlf <:+: h.2
deriving DecidableEq

namespace HttpRequest

def methodText : HttpMethod → Str
  | .get => "GET".toList
  | .post => "POST".toList

def versionText : HttpVersion → Str
  | .http10 => "HTTP/1.0".toList
  | .http11 => "HTTP/1.1".toList

def requestLine (r : HttpRequest) : Str :=
  methodText r.method ++ (' ' :: '/' :: (r.path ++ ' ' :: versionText r.version))

def headerLine (h : Str × Str) : Str := h.1 ++ (':' :: ' ' :: h.2)

def lines (r : HttpRequest) : List Str := r.requestLine :: (r.headers.map headerLine ++ [[]])

def textOf (lines : List Str) : Str := lines.flatMap (· ++ crlf)

def text (r : HttpRequest) : Str := textOf r.lines

/-- The file that the request names. -/
def fileName (r : HttpRequest) : Str := if r.path = [] then "index.html".toList else r.path

end HttpRequest

namespace HttpConnection
open HttpRequest

def unread (c : HttpConnection) : Str := c.inBuffer.drop c.nowReadPos

def skip (c : HttpConnection) (n : Nat) : HttpConnection := { c with nowReadPos := c.nowReadPos + n }

variable {files : Str → Option Str} {c : HttpConnection} {r : HttpRequest}
  {w sep after content : Str}

theorem unread_skip (here : c.unread = w ++ (sep ++ after)) :
    (c.skip (w.length + sep.length)).unread = after := by
  rw [unread] at here
  rw [unread, skip, ← List.drop_drop, here, ← List.append_assoc, ← List.length_append, List.drop_left]

theorem findStrFromBuffer_at (here : c.unread = w ++ (sep ++ after))
    (found : findSub sep (w ++ (sep ++ after)) = some w.length) :
    c.findStrFromBuffer sep =
      if c.nowReadPos + (w.length + sep.length) ≤ kIntMax then
        some (some (w, c.skip (w.length + sep.length)))
      else none := by
  rw [unread] at here
  have place : findFrom c.inBuffer sep c.nowReadPos = some (c.nowReadPos + w.length) := by
    rw [findFrom, here, found, Nat.add_comm c.nowReadPos]
    rfl
  have msg : (c.inBuffer.drop c.nowReadPos).take (c.nowReadPos + w.length - c.nowReadPos) = w := by
    rw [here, Nat.add_sub_cancel_left, List.take_left]
  simp only [findStrFromBuffer, place, msg, skip, Nat.add_assoc]

theorem methodText_free (m : HttpMethod) : ¬[' ', '/'] <:+: methodText m := by
  cases m <;> decide

theorem versionText_free (v : HttpVersion) : ¬crlf <:+: versionText v := by
  cases v <;> decide

theorem methodOf_text (m : HttpMethod) : methodOf (methodText m) = some m := by
  cases m <;> decide

theorem versionOf_text (v : HttpVersion) : versionOf (versionText v) = some v := by
  cases v <;> decide

theorem parseVersion_at {v : HttpVersion} (here : c.unread = versionText v ++ (crlf ++ after)) :
    c.parseVersion =
      if c.nowReadPos + ((versionText v).length + 2) ≤ kIntMax then
        some { c.skip ((versionText v).length + 2) with version := v, parseState := .header }
      else none := by
  have found := findSub_pair (u := after) (show '\r' ≠ '\n' by decide) (versionText_free v)
  rw [parseVersion, findStrFromBuffer_at here found]
  change Option.map _ (if c.nowReadPos + ((versionText v).length + 2) ≤ kIntMax then _ else _) = _
  split
  · simp only [Option.map_some, versionOf_text]
    rfl
  · rfl

theorem parseFileName_at
    (here : c.unread = r.path ++ ([' '] ++ (versionText r.version ++ (crlf ++ after))))
    (there : files r.fileName = some content) :
    c.parseFileName files =
      if c.nowReadPos + (r.path.length + 1 + ((versionText r.version).length + 2)) ≤ kIntMax then
        some { c.skip (r.path.length + 1 + ((versionText r.version).length + 2)) with
          fileName := r.fileName
          fileSize := (content.length : Int).bmod (2 ^ 32)
          version := r.version
          parseState := .header }
      else none := by
  have name : (if r.path = [] then "index.html".toList else r.path) = r.fileName := rfl
  rw [parseFileName, findStrFromBuffer_at here (findSub_single r.plainPath.1)]
  change Option.bind (if c.nowReadPos + (r.path.length + 1) ≤ kIntMax then _ else _) _ = _
  split
  · simp only [Option.bind_some, name, there]
    have version := parseVersion_at (c := { c.skip (r.path.length + 1) with
      fileName := r.fileName, fileSize := (content.length : Int).bmod (2 ^ 32) }) (unread_skip here)
    refine version.trans ?_
    simp only [skip, Nat.add_assoc]
  · rw [if_neg (by omega)]
    rfl

/-- The connection behind the request line. -/
def behindRequestLine (c : HttpConnection) (r : HttpRequest) (content : Str) : HttpConnection :=
  { c.skip (r.requestLine ++ crlf).length with
    parseState := .header
    method := r.method
    fileName := r.fileName
    fileSize := (content.length : Int).bmod (2 ^ 32)
    version := r.version }

theorem length_requestLine (r : HttpRequest) : (r.requestLine ++ crlf).length =
    (methodText r.method).length + 2 + (r.path.length + 1 + ((versionText r.version).length + 2)) := by
  simp [requestLine, crlf]
  omega

theorem parseRequest_at (here : c.unread = r.requestLine ++ crlf ++ after)
    (there : files r.fileName = some content) :
    c.parseRequest files =
      if c.nowReadPos + (r.requestLine ++ crlf).length ≤ kIntMax then
        some (c.behindRequestLine r content)
      else none := by
  have size := length_requestLine r
  have parts : c.unread = methodText r.method ++ ([' ', '/'] ++
      (r.path ++ ([' '] ++ (versionText r.version ++ (crlf ++ after))))) := by
    rw [here, requestLine]
    simp
  rw [parseRequest, findStrFromBuffer_at parts (findSub_pair (by decide) (methodText_free r.method))]
  change Option.bind (if c.nowReadPos + ((methodText r.method).length + 2) ≤ kIntMax then _ else _) _ = _
  split
  · simp only [Option.bind_some, methodOf_text]
    have name := parseFileName_at (c := { c.skip ((methodText r.method).length + 2) with
      method := r.method }) (unread_skip parts) there
    refine name.trans ?_
    simp only [behindRequestLine, skip, size, Nat.add_assoc]
  · rw [if_neg (by omega)]
    rfl

/-! ### Lines without a line end -/

theorem requestLine_free (r : HttpRequest) : ¬crlf <:+: r.requestLine := by
  refine append_free ?_ (cons_free (by decide) (cons_free (by decide) ?_)) fun _ => by simp
  · cases r.method <;> decide
  · exact append_free r.plainPath.2 (cons_free (by decide) (versionText_free _)) fun _ => by simp

theorem headerLine_free {h : Str × Str}
    (plain : ¬[':', ' '] <:+: h.1 ∧ ¬crlf <:+: h.1 ∧ ¬crlf <:+: h.2) : ¬crlf <:+: headerLine h :=
  append_free plain.2.1 (cons_free (by decide) (cons_free (by decide) plain.2.2)) fun _ => by simp

theorem lines_free {line : Str} (member : line ∈ r.lines) : ¬crlf <:+: line := by
  rcases List.mem_cons.mp member with rfl | later
  · exact requestLine_free r
  · rcases List.mem_append.mp later with header | last
    · obtain ⟨h, among, rfl⟩ := List.mem_map.mp header
      exact headerLine_free (r.plainHeaders h among)
    · rw [List.mem_singleton.mp last]
      decide

/-! ### Header lines -/

theorem char_at (c : HttpConnection) (i : Nat) :
    c.inBuffer[c.nowReadPos + i]? = c.unread[i]? := by
  rw [unread, List.getElem?_drop]

theorem headerLine_starts {h : Str × Str} (free : ¬crlf <:+: h.1)
    (here : c.unread = headerLine h ++ (crlf ++ after)) :
    ¬(c.inBuffer[c.nowReadPos]? = some '\r' ∧ c.inBuffer[c.nowReadPos + 1]? = some '\n') := by
  rw [← Nat.add_zero c.nowReadPos, char_at, Nat.add_zero, char_at, here, headerLine]
  obtain ⟨key, value⟩ := h
  rintro ⟨first, second⟩
  match key with
  | [] =>
    have wrong : (':' : Char) = '\r' := Option.some.inj first
    exact absurd wrong (by decide)
  | [a] =>
    have wrong : (':' : Char) = '\n' := Option.some.inj second
    exact absurd wrong (by decide)
  | a :: b :: rest =>
    have one : a = '\r' := Option.some.inj first
    have two : b = '\n' := Option.some.inj second
    subst one two
    exact free (List.IsPrefix.isInfix ⟨rest, rfl⟩)

theorem parseHeader_at {h : Str × Str}
    (plain : ¬[':', ' '] <:+: h.1 ∧ ¬crlf <:+: h.1 ∧ ¬crlf <:+: h.2)
    (here : c.unread = headerLine h ++ (crlf ++ after)) :
    c.parseHeader =
      if c.nowReadPos + (headerLine h ++ crlf).length ≤ kIntMax then
        some { c.skip (headerLine h ++ crlf).length with
          headers := setHeader c.headers h.1 h.2
          parseState := .header }
      else none := by
  have size : (headerLine h ++ crlf).length = h.1.length + 2 + (h.2.length + 2) := by
    simp [headerLine, crlf]
    omega
  have parts : c.unread = h.1 ++ ([':', ' '] ++ (h.2 ++ (crlf ++ after))) := by
    rw [here, headerLine]
    simp
  have value : (c.skip (h.1.length + 2)).unread = h.2 ++ (crlf ++ after) := unread_skip parts
  have ends : (c.skip (h.1.length + [':', ' '].length)).findStrFromBuffer crlf =
      if c.nowReadPos + (h.1.length + 2) + (h.2.length + 2) ≤ kIntMax then
        some (some (h.2, (c.skip (h.1.length + 2)).skip (h.2.length + 2)))
      else none := findStrFromBuffer_at value (findSub_pair (by decide) plain.2.2)
  have starts := headerLine_starts plain.2.1 here
  rw [parseHeader, size, if_neg starts,
    findStrFromBuffer_at parts (findSub_pair (by decide) plain.1)]
  change (if _ then none else Option.bind
    (if c.nowReadPos + (h.1.length + 2) ≤ kIntMax then _ else _) _) = _
  by_cases fits : c.nowReadPos + (h.1.length + 2 + (h.2.length + 2)) ≤ kIntMax
  · rw [if_pos fits, if_neg (fun both => by omega), if_pos (by omega), Option.bind_some]
    dsimp only
    rw [ends, if_pos (by omega), Option.map_some]
    simp only [skip, Nat.add_assoc]
  · rw [if_neg fits]
    split
    · rfl
    · by_cases half : c.nowReadPos + (h.1.length + 2) ≤ kIntMax
      · rw [if_pos half, Option.bind_some]
        dsimp only
        rw [ends, if_neg (by omega)]
        rfl
      · rw [if_neg half]
        rfl

theorem parseHeader_empty (here : c.unread = crlf ++ after) :
    c.parseHeader =
      if kIntMax < c.nowReadPos + 1 then none else some { c with parseState := .success } := by
  have first : c.inBuffer[c.nowReadPos]? = some '\r' := by
    have start := char_at c 0
    rw [here] at start
    exact start
  have second : c.inBuffer[c.nowReadPos + 1]? = some '\n' := by
    rw [char_at, here]
    rfl
  rw [parseHeader]
  by_cases beyond : kIntMax < c.nowReadPos + 1
  · rw [if_pos ⟨first, beyond⟩, if_pos beyond]
  · rw [if_neg fun both => beyond both.2, if_pos ⟨first, second⟩, if_neg beyond]

/-! ### Lines -/

theorem hasLine_iff (c : HttpConnection) : c.hasLine ↔ crlf <:+: c.unread := by
  have found : (findFrom c.inBuffer crlf c.nowReadPos).isSome ↔ crlf <:+: c.unread := by
    rw [findFrom, Option.isSome_map, ← not_iff_not, Option.not_isSome_iff_eq_none, findSub_eq_none]
    rfl
  rw [hasLine, decide_eq_true_eq, found]
  refine ⟨fun both => both.2, fun occurs => ⟨?_, occurs⟩⟩
  rintro nothing
  rw [unread, nothing, List.drop_nil] at occurs
  exact absurd occurs (by decide)

/-- Between two requests. -/
structure Ready (c : HttpConnection) : Prop where
  start : c.nowReadPos = 0
  state : c.parseState = .request
  headers : c.headers = []

def headersOf (headers : List (Str × Str)) : List (Str × Str) :=
  headers.foldl (fun known h => setHeader known h.1 h.2) []

/-- The connection behind the first `k` lines of a request, with these bytes in the buffer. -/
def passed (c : HttpConnection) (r : HttpRequest) (content : Str) (k : Nat) (buffer : Str) :
    HttpConnection :=
  match k with
  | 0 => { c with inBuffer := buffer }
  | k + 1 =>
    { c with
      inBuffer := buffer
      nowReadPos := (textOf (r.lines.take (k + 1))).length
      parseState := .header
      method := r.method
      fileName := r.fileName
      fileSize := (content.length : Int).bmod (2 ^ 32)
      version := r.version
      headers := headersOf (r.headers.take k) }

/-- The connection behind the whole request, with these bytes left. -/
def finished (c : HttpConnection) (r : HttpRequest) (content rest : Str) : HttpConnection :=
  { c with
    inBuffer := rest
    nowReadPos := 0
    parseState := .request
    method := r.method
    fileName := r.fileName
    fileType := fileTypeOf r.fileName
    fileSize := (content.length : Int).bmod (2 ^ 32)
    version := r.version
    keepAlive := c.keepAlive || keepAliveOf r.version (headersOf r.headers)
    headers := []
    writeHandler := some .handleSuccess
    successes := c.successes ++ [⟨r.method, r.fileName, r.version, headersOf r.headers,
      c.keepAlive || keepAliveOf r.version (headersOf r.headers)⟩] }

theorem textOf_eq_ended (ls : List Str) : textOf ls = Lines.ended '\r' '\n' ls := rfl

theorem length_le_textOf (ls : List Str) : 2 * ls.length ≤ (textOf ls).length := by
  rw [textOf_eq_ended]
  exact Lines.length_le_ended

theorem textOf_nil : textOf [] = [] := rfl

theorem textOf_nil_append (ls : List Str) (rest : Str) : textOf (ls.take 0) ++ rest = rest := rfl

theorem textOf_append (ls more : List Str) : textOf (ls ++ more) = textOf ls ++ textOf more :=
  List.flatMap_append ..

theorem textOf_cons (line : Str) (more : List Str) :
    textOf (line :: more) = line ++ (crlf ++ textOf more) := by
  rw [textOf, List.flatMap_cons, List.append_assoc]
  rfl

theorem passed_inBuffer (c : HttpConnection) (r : HttpRequest) (content : Str) (k : Nat)
    (buffer : Str) :
    (c.passed r content k buffer).inBuffer = buffer := by
  cases k <;> rfl

theorem passed_pos (ready : c.Ready) (r : HttpRequest) (content : Str) (k : Nat) (buffer : Str) :
    (c.passed r content k buffer).nowReadPos = (textOf (r.lines.take k)).length := by
  cases k with
  | zero => exact ready.start
  | succ k => rfl

theorem passed_unread (ready : c.Ready) (r : HttpRequest) (content : Str) (k : Nat) (rest : Str) :
    (c.passed r content k (textOf (r.lines.take k) ++ rest)).unread = rest := by
  rw [unread, passed_inBuffer, passed_pos ready, List.drop_left]

theorem headerLine_of_place {k : Nat} {line : Str} {left : List Str}
    (place : r.lines.drop (k + 1) = line :: left) (more : left ≠ []) :
    ∃ h, h ∈ r.headers ∧ line = headerLine h ∧ r.headers.take (k + 1) = r.headers.take k ++ [h] := by
  rw [lines, List.drop_succ_cons] at place
  have inside : k < r.headers.length := by
    by_contra beyond
    have size := congrArg List.length place
    have positive := List.length_pos_of_ne_nil more
    simp only [List.length_drop, List.length_append, List.length_map, List.length_cons,
      List.length_nil] at size
    omega
  have first := congrArg List.head? place
  rw [List.head?_drop, List.head?_cons, List.getElem?_append_left (by simpa using inside),
    List.getElem?_map, List.getElem?_eq_getElem inside, Option.map_some, Option.some.injEq] at first
  exact ⟨r.headers[k], List.getElem_mem inside, first.symm, List.take_succ_eq_append_getElem inside⟩

theorem parse_line (ready : c.Ready) (there : files r.fileName = some content) {k : Nat}
    {line : Str} {left : List Str} (place : r.lines.drop k = line :: left) (more : left ≠ [])
    (rest : Str) :
    (c.passed r content k (textOf (r.lines.take k) ++ (line ++ (crlf ++ rest)))).parse files =
      if (textOf (r.lines.take (k + 1))).length ≤ kIntMax then
        some (c.passed r content (k + 1) (textOf (r.lines.take (k + 1)) ++ rest))
      else none := by
  have next : r.lines.take (k + 1) = r.lines.take k ++ [line] := by
    rw [List.take_add, place]
    rfl
  have text : textOf (r.lines.take (k + 1)) = textOf (r.lines.take k) ++ (line ++ crlf) := by
    rw [next, textOf_append]
    simp [textOf]
  have size : (textOf (r.lines.take (k + 1))).length =
      (textOf (r.lines.take k)).length + (line ++ crlf).length := by
    rw [text, List.length_append]
  have here := passed_unread ready r content k (line ++ (crlf ++ rest))
  have pos := passed_pos ready r content k
    (textOf (r.lines.take k) ++ (line ++ (crlf ++ rest)))
  have whole : textOf (r.lines.take k) ++ (line ++ (crlf ++ rest)) =
      textOf (r.lines.take (k + 1)) ++ rest := by
    rw [text]
    simp
  generalize start : c.passed r content k (textOf (r.lines.take k) ++ (line ++ (crlf ++ rest))) = d
    at here pos
  cases k with
  | zero =>
    have first : r.requestLine = line := (List.cons.inj place).1
    subst first
    have state : d.parseState = .request := by
      rw [← start]
      exact ready.state
    have whole : d.unread = r.requestLine ++ crlf ++ rest := by
      rw [here, List.append_assoc]
    have run := parseRequest_at whole there
    rw [parse, state]
    change d.parseRequest files = _
    rw [run, pos, size]
    congr 2
    rw [← start]
    have line : textOf (r.lines.take 1) = r.requestLine ++ crlf := text
    simp [behindRequestLine, skip, passed, line, textOf_nil, headersOf, ready.start, ready.headers]
  | succ k =>
    obtain ⟨h, member, rfl, headers⟩ := headerLine_of_place place more
    have state : d.parseState = .header := by
      rw [← start]
      rfl
    have run := parseHeader_at (r.plainHeaders h member) here
    rw [parse, state]
    change d.parseHeader = _
    rw [run, pos, size]
    congr 2
    rw [← start]
    have known : headersOf (r.headers.take (k + 1)) =
        setHeader (headersOf (r.headers.take k)) h.1 h.2 := by
      rw [headersOf, headers, List.foldl_append]
      rfl
    simp [skip, passed, text, known]

theorem textOf_take_le (r : HttpRequest) {j k : Nat} (le : j ≤ k) :
    (textOf (r.lines.take j)).length ≤ (textOf (r.lines.take k)).length := by
  obtain ⟨d, rfl⟩ := Nat.exists_eq_add_of_le le
  rw [List.take_add, textOf_append, List.length_append]
  omega

theorem parseLoop_succ (rounds : Nat) (line : crlf <:+: c.unread) :
    c.parseLoop files (rounds + 1) = (c.parse files).bind (parseLoop files rounds) := by
  rw [parseLoop, if_pos ((hasLine_iff c).mpr line)]

theorem parseLoop_still (rounds : Nat) (free : ¬crlf <:+: c.unread) :
    c.parseLoop files rounds = some c := by
  have none : ¬c.hasLine := fun has => free ((hasLine_iff c).mp has)
  cases rounds with
  | zero => rw [parseLoop, if_neg none]
  | succ rounds => rw [parseLoop, if_neg none]

theorem crlf_infix (line rest : Str) : crlf <:+: line ++ (crlf ++ rest) := ⟨line, rest, by simp⟩

theorem parseLoop_lines (ready : c.Ready) (there : files r.fileName = some content)
    {before left : List Str} {k : Nat} (place : r.lines.drop k = before ++ left) (more : left ≠ [])
    (fits : (textOf (r.lines.take k)).length ≤ kIntMax) (rest : Str) (rounds : Nat) :
    (c.passed r content k (textOf (r.lines.take k) ++ (textOf before ++ rest))).parseLoop files
        (rounds + before.length) =
      if (textOf (r.lines.take (k + before.length))).length ≤ kIntMax then
        (c.passed r content (k + before.length)
          (textOf (r.lines.take (k + before.length)) ++ rest)).parseLoop files rounds
      else none := by
  induction before generalizing k with
  | nil =>
    simp only [List.length_nil, Nat.add_zero]
    rw [if_pos fits, textOf_nil]
    rfl
  | cons line before ih =>
    have more' : before ++ left ≠ [] := fun nil => more (List.append_eq_nil_iff.mp nil).2
    have whole : textOf (line :: before) ++ rest = line ++ (crlf ++ (textOf before ++ rest)) := by
      rw [textOf_cons]
      simp
    have place' : r.lines.drop (k + 1) = before ++ left := by
      rw [← List.drop_drop, place]
      rfl
    have count : k + (line :: before).length = k + 1 + before.length := by
      rw [List.length_cons]
      omega
    rw [whole, List.length_cons, ← Nat.add_assoc, parseLoop_succ, parse_line ready there place more',
      ← List.length_cons, count]
    · by_cases fits' : (textOf (r.lines.take (k + 1))).length ≤ kIntMax
      · rw [if_pos fits', Option.bind_some]
        exact ih place' fits'
      · have grows := textOf_take_le r (show k + 1 ≤ k + 1 + before.length by omega)
        rw [if_neg fits', if_neg (by omega)]
        rfl
    · rw [passed_unread ready]
      exact crlf_infix line _

theorem parseLoop_last (ready : c.Ready) {k : Nat} (place : r.lines.drop k = [[]]) (rest : Str)
    (rounds : Nat) :
    (c.passed r content k (textOf (r.lines.take k) ++ (crlf ++ rest))).parseLoop files (rounds + 2) =
      if r.text.length ≤ kIntMax then (c.finished r content rest).parseLoop files rounds
      else none := by
  have size : r.text.length = (textOf (r.lines.take k)).length + 2 := by
    rw [text]
    nth_rewrite 1 [← List.take_append_drop k r.lines]
    rw [place, textOf_append, List.length_append]
    rfl
  have here := passed_unread ready r content k (crlf ++ rest)
  have pos := passed_pos ready r content k (textOf (r.lines.take k) ++ (crlf ++ rest))
  have buffer := passed_inBuffer c r content k (textOf (r.lines.take k) ++ (crlf ++ rest))
  obtain ⟨j, rfl⟩ : ∃ j, k = j + 1 := by
    cases k with
    | zero =>
      have two := congrArg List.length place
      simp [lines] at two
    | succ j => exact ⟨j, rfl⟩
  have all : r.headers.take j = r.headers := by
    have count := congrArg List.length place
    simp only [lines, List.drop_succ_cons, List.length_drop, List.length_append, List.length_map,
      List.length_cons, List.length_nil] at count
    exact List.take_of_length_le (by omega)
  have ends : crlf <:+: crlf ++ rest := crlf_infix [] rest
  rw [parseLoop_succ _ (by rw [here]; exact ends)]
  change Option.bind (parseHeader _) _ = _
  rw [parseHeader_empty here, pos]
  by_cases half : kIntMax < (textOf (r.lines.take (j + 1))).length + 1
  · rw [if_pos half, if_neg (by omega)]
    rfl
  · rw [if_neg half, Option.bind_some, parseLoop_succ]
    · change Option.bind (parseSuccess _) _ = _
      rw [parseSuccess]
      dsimp only
      rw [buffer]
      by_cases fits : (textOf (r.lines.take (j + 1))).length + 2 ≤ kIntMax
      · rw [if_pos fits, if_pos (by omega), Option.bind_some]
        have left : (textOf (r.lines.take (j + 1)) ++ (crlf ++ rest)).drop
            ((textOf (r.lines.take (j + 1))).length + 2) = rest := by
          rw [← List.drop_drop, List.drop_left]
          rfl
        rw [left]
        simp only [passed, finished, all]
      · rw [if_neg fits, if_neg (by omega)]
        rfl
    · simp only [unread, buffer, List.drop_left]
      exact ends

/-! ### Reads -/

theorem handleRead_passed (c : HttpConnection) (r : HttpRequest) (content : Str) (k : Nat)
    (buffer bytes : Str) :
    (c.passed r content k buffer).handleRead files bytes =
      (c.passed r content k (buffer ++ bytes)).parseLoop files (4 * (buffer ++ bytes).length + 4) := by
  cases k <;> simp only [handleRead, passed]

theorem handleRead_part (ready : c.Ready) (there : files r.fileName = some content) {k : Nat}
    {before after : List Str} {line input bytes tail : Str}
    (place : r.lines.drop k = before ++ line :: after)
    (fits : (textOf (r.lines.take (k + before.length))).length ≤ kIntMax)
    (read : input ++ bytes = textOf before ++ tail) (short : ¬crlf <:+: tail) :
    (c.passed r content k (textOf (r.lines.take k) ++ input)).handleRead files bytes =
      some (c.passed r content (k + before.length)
        (textOf (r.lines.take (k + before.length)) ++ tail)) := by
  have enough : before.length ≤
      4 * (textOf (r.lines.take k) ++ (textOf before ++ tail)).length + 4 := by
    have lines := length_le_textOf before
    simp only [List.length_append]
    omega
  obtain ⟨rounds, count⟩ := Nat.exists_eq_add_of_le' enough
  rw [handleRead_passed, List.append_assoc, read]
  have start := (textOf_take_le r (show k ≤ k + before.length by omega)).trans fits
  rw [count, parseLoop_lines ready there place (List.cons_ne_nil _ _) start, if_pos fits]
  refine parseLoop_still rounds ?_
  rw [passed_unread ready]
  exact short

theorem handleRead_whole (ready : c.Ready) (there : files r.fileName = some content) {k : Nat}
    {left : List Str} {input bytes rest : Str} (place : r.lines.drop k = left) (more : left ≠ [])
    (read : input ++ bytes = textOf left ++ rest) (short : ¬crlf <:+: rest)
    (start : (textOf (r.lines.take k)).length ≤ kIntMax) :
    (c.passed r content k (textOf (r.lines.take k) ++ input)).handleRead files bytes =
      if r.text.length ≤ kIntMax then some (c.finished r content rest) else none := by
  obtain ⟨before, last, rfl⟩ : ∃ before last, left = before ++ [last] :=
    ⟨left.dropLast, left.getLast more, (List.dropLast_append_getLast more).symm⟩
  have empty : last = [] := by
    have ends := congrArg List.getLast? place
    have inside : k < r.lines.length := by
      have count := congrArg List.length place
      simp only [List.length_drop, List.length_append, List.length_cons, List.length_nil] at count
      omega
    rw [List.getLast?_drop, if_neg (by omega), lines, ← List.cons_append, List.getLast?_concat,
      List.getLast?_concat, Option.some.injEq] at ends
    exact ends.symm
  subst empty
  have whole : input ++ bytes = textOf before ++ (crlf ++ rest) := by
    rw [read, textOf_append]
    simp [textOf]
  have enough : before.length + 2 ≤
      4 * (textOf (r.lines.take k) ++ (textOf before ++ (crlf ++ rest))).length + 4 := by
    have lines := length_le_textOf before
    simp only [List.length_append]
    omega
  obtain ⟨rounds, count⟩ := Nat.exists_eq_add_of_le' enough
  have last : r.lines.drop (k + before.length) = [[]] := by
    rw [← List.drop_drop, place, List.drop_left]
  have size : r.text.length = (textOf (r.lines.take (k + before.length))).length + 2 := by
    rw [text]
    nth_rewrite 1 [← List.take_append_drop (k + before.length) r.lines]
    rw [last, textOf_append, List.length_append]
    rfl
  rw [handleRead_passed, List.append_assoc, whole]
  rw [count, show rounds + (before.length + 2) = rounds + 2 + before.length by omega,
    parseLoop_lines ready there place (List.cons_ne_nil _ _) start, parseLoop_last ready last]
  by_cases fits : r.text.length ≤ kIntMax
  · rw [if_pos (by omega), if_pos fits, if_pos fits]
    exact parseLoop_still rounds short
  · rw [if_neg fits, if_neg fits]
    split <;> rfl

theorem text_split (r : HttpRequest) (k : Nat) :
    r.text = textOf (r.lines.take k) ++ textOf (r.lines.drop k) := by
  rw [← textOf_append, List.take_append_drop, text]

theorem handleRead_next (ready : c.Ready) (there : files r.fileName = some content)
    (fits : r.text.length ≤ kIntMax) {k : Nat} {input bytes more : Str} (place : k < r.lines.length)
    (starts : textOf (r.lines.take k) ++ input ++ bytes <+: r.text ++ more) :
    (∃ beyond, textOf (r.lines.take k) ++ input ++ bytes = r.text ++ beyond ∧ beyond <+: more ∧
      (¬crlf <:+: beyond →
        (c.passed r content k (textOf (r.lines.take k) ++ input)).handleRead files bytes =
          some (c.finished r content beyond))) ∨
    ∃ j tail, j < r.lines.length ∧ ¬crlf <:+: tail ∧
      textOf (r.lines.take k) ++ input ++ bytes = textOf (r.lines.take j) ++ tail ∧
      (c.passed r content k (textOf (r.lines.take k) ++ input)).handleRead files bytes =
        some (c.passed r content j (textOf (r.lines.take j) ++ tail)) := by
  have inside : ∀ j ≤ r.lines.length, (textOf (r.lines.take j)).length ≤ kIntMax := by
    intro j le
    have grows := textOf_take_le r le
    rw [List.take_length] at grows
    exact grows.trans fits
  have left : r.lines.drop k ≠ [] := by
    rw [Ne, List.drop_eq_nil_iff]
    omega
  rw [text_split r k, List.append_assoc, List.append_assoc, List.prefix_append_right_inj] at starts
  rcases Lines.prefix_ended starts with
    ⟨beyond, whole, rest⟩ | ⟨before, line, after, tail, parts, whole, part⟩
  · rw [← textOf_eq_ended] at whole
    refine .inl ⟨beyond, ?_, rest, fun short => ?_⟩
    · rw [List.append_assoc, whole, text_split r k, List.append_assoc]
    · rw [handleRead_whole ready there rfl left whole short (inside k place.le), if_pos fits]
  · rw [← textOf_eq_ended] at whole
    have member : line ∈ r.lines :=
      List.mem_of_mem_drop (parts ▸ List.mem_append_right _ List.mem_cons_self)
    have free : ¬crlf <:+: tail := Lines.tail_free (by decide) (lines_free member) part
    have count := congrArg List.length parts
    simp only [List.length_drop, List.length_append, List.length_cons] at count
    have place' : k + before.length < r.lines.length := by omega
    have passes : r.lines.take (k + before.length) = r.lines.take k ++ before := by
      rw [List.take_add, parts, List.take_left]
    refine .inr ⟨k + before.length, tail, place', free, ?_, ?_⟩
    · rw [List.append_assoc, whole, passes, textOf_append, List.append_assoc]
    · exact handleRead_part ready there parts (inside _ place'.le) whole free

theorem textOf_drop_crlf {k : Nat} (place : k < r.lines.length) :
    crlf <:+: textOf (r.lines.drop k) := by
  rw [List.drop_eq_getElem_cons place, textOf_cons]
  exact crlf_infix _ _

/-- The calls of `handleRead` that bring these bytes. -/
def receive (files : Str → Option Str) : List Str → HttpConnection → Option HttpConnection
  | [], c => some c
  | bytes :: cuts, c => (c.handleRead files bytes).bind (receive files cuts)

theorem handleRead_nothing (free : ¬crlf <:+: c.unread) : c.handleRead files [] = some c := by
  rw [handleRead, List.append_nil]
  exact parseLoop_still _ free

theorem receive_nothing (free : ¬crlf <:+: c.unread) {cuts : List Str} (none : cuts.flatten = []) :
    receive files cuts c = some c := by
  induction cuts with
  | nil => rfl
  | cons bytes cuts ih =>
    obtain ⟨empty, rest⟩ := List.append_eq_nil_iff.mp none
    rw [receive, empty, handleRead_nothing free, Option.bind_some]
    exact ih rest

theorem receive_rest (ready : c.Ready) (there : files r.fileName = some content)
    (fits : r.text.length ≤ kIntMax) {cuts : List Str} {k : Nat} {input : Str}
    (place : k < r.lines.length) (short : ¬crlf <:+: input)
    (rest : textOf (r.lines.take k) ++ input ++ cuts.flatten = r.text) :
    receive files cuts (c.passed r content k (textOf (r.lines.take k) ++ input)) =
      some (c.finished r content []) := by
  induction cuts generalizing k input with
  | nil =>
    rw [List.flatten_nil, List.append_nil, text_split r k, List.append_right_inj] at rest
    exact absurd (rest ▸ textOf_drop_crlf place) short
  | cons bytes cuts ih =>
    rw [List.flatten_cons, ← List.append_assoc] at rest
    have starts : textOf (r.lines.take k) ++ input ++ bytes <+: r.text ++ [] := by
      rw [List.append_nil, ← rest]
      exact List.prefix_append _ _
    rw [receive]
    rcases handleRead_next ready there fits place starts with
      ⟨beyond, whole, nothing, read⟩ | ⟨j, tail, place', free, parts, read⟩
    · obtain rfl := List.prefix_nil.mp nothing
      rw [List.append_nil] at whole
      have none : cuts.flatten = [] := by
        rw [whole] at rest
        exact List.append_right_eq_self.mp rest
      rw [read (by decide), Option.bind_some]
      refine receive_nothing ?_ none
      show ¬crlf <:+: ([] : Str)
      decide
    · rw [read, Option.bind_some]
      exact ih place' free (parts ▸ rest)

/-- However the bytes of the request are cut into reads, the connection ends as after one read
of all of them, and has accepted this one request. -/
def ParsesAlike (files : Str → Option Str) (c : HttpConnection) (r : HttpRequest) : Prop :=
  ∀ cuts : List Str, cuts.flatten = r.text → ∃ d, receive files cuts c = some d ∧
    c.handleRead files r.text = some d ∧ d.inBuffer = [] ∧
    d.successes = c.successes ++ [⟨r.method, r.fileName, r.version, headersOf r.headers,
      c.keepAlive || keepAliveOf r.version (headersOf r.headers)⟩]

theorem handleRead_text (ready : c.Ready) (empty : c.inBuffer = [])
    (there : files r.fileName = some content) :
    c.handleRead files r.text =
      if r.text.length ≤ kIntMax then some (c.finished r content []) else none := by
  have start : c.passed r content 0 (textOf (r.lines.take 0) ++ []) = c := by
    rw [passed, textOf_nil_append, ← empty]
  have read : ([] : Str) ++ r.text = textOf r.lines ++ [] := (List.append_nil _).symm
  have whole := handleRead_whole ready there (k := 0) (List.drop_zero) (List.cons_ne_nil _ _) read
    (by decide) (Nat.zero_le _)
  rw [start] at whole
  exact whole

theorem not_parsesAlike (ready : c.Ready) (empty : c.inBuffer = [])
    (there : files r.fileName = some content) (long : ¬r.text.length ≤ kIntMax) :
    ¬c.ParsesAlike files r := by
  intro alike
  obtain ⟨d, -, read, -, -⟩ := alike [r.text] (List.flatten_singleton)
  rw [handleRead_text ready empty there, if_neg long] at read
  cases read

/-- The parse does not depend on the cuts exactly if the request is no longer than an `int`
counts. -/
theorem parsesAlike_iff (ready : c.Ready) (empty : c.inBuffer = [])
    (there : files r.fileName = some content) :
    c.ParsesAlike files r ↔ r.text.length ≤ kIntMax := by
  constructor
  · intro alike
    by_contra long
    exact not_parsesAlike ready empty there long alike
  · intro fits cuts whole
    have start : c.passed r content 0 (textOf (r.lines.take 0) ++ []) = c := by
      rw [passed, textOf_nil_append, ← empty]
    have ends := receive_rest ready there fits (k := 0) (Nat.succ_pos _)
      (show ¬crlf <:+: [] by decide) whole
    rw [start] at ends
    refine ⟨c.finished r content [], ends, ?_, rfl, rfl⟩
    rw [handleRead_text ready empty there, if_pos fits]

theorem new_ready : new.Ready := ⟨rfl, rfl, rfl⟩

/-- A request with one header of this value. -/
def headerRequest (value : Str) (free : ¬crlf <:+: value) : HttpRequest where
  method := .get
  path := []
  version := .http11
  headers := [("Connection".toList, value)]
  plainPath := by decide
  plainHeaders := by
    intro h member
    have plainKey : ¬[':', ' '] <:+: "Connection".toList ∧ ¬crlf <:+: "Connection".toList := by decide
    rw [List.mem_singleton.mp member]
    exact ⟨plainKey.1, plainKey.2, free⟩

theorem length_headerRequest (value : Str) (free : ¬crlf <:+: value) :
    value.length ≤ (headerRequest value free).text.length := by
  simp only [HttpRequest.text, lines, headerRequest, List.map_cons, List.map_nil, textOf_cons,
    List.cons_append, List.nil_append, headerLine, List.length_append, List.length_cons]
  omega

theorem longValue_free (n : Nat) : ¬crlf <:+: List.replicate n 'a' := by
  intro occurs
  have member : '\r' ∈ List.replicate n 'a' := occurs.subset List.mem_cons_self
  exact absurd (List.eq_of_mem_replicate member) (by decide)

theorem long_headerRequest {value : Str} (free : ¬crlf <:+: value) (long : kIntMax < value.length) :
    ¬new.ParsesAlike (fun _ => some []) (headerRequest value free) :=
  not_parsesAlike new_ready rfl rfl
    (Nat.not_le.mpr (long.trans_le (length_headerRequest value free)))

theorem longValue_never_parsed :
    ¬new.ParsesAlike (fun _ => some [])
      (headerRequest (List.replicate (kIntMax + 1) 'a') (longValue_free (kIntMax + 1))) :=
  long_headerRequest _ (List.length_replicate.symm ▸ Nat.lt_succ_self kIntMax)

theorem keepAlive_parsesAlike :
    new.ParsesAlike (fun _ => some []) (headerRequest "Keep-Alive".toList (by decide)) := by
  have there : (fun _ => some []) (headerRequest "Keep-Alive".toList (by decide)).fileName =
      some ([] : Str) := rfl
  exact (parsesAlike_iff new_ready rfl there).mpr (by decide)

end HttpConnection

end ProjectsCpp.WebServer
