import ProjectsCpp.MuduoNet.HttpContext
import ProjectsCpp.Lib.Turns

/-! Well-formed requests on one connection. `parseRequest` takes the lines of one request out of
the buffer as they come, and `onMessage` answers at most one request at a time: what else has
come waits in the buffer for the next call. -/

namespace ProjectsCpp.MuduoNet
open ProjectsCpp.Text (Str)
open ProjectsCpp.Substring ProjectsCpp.Lines ProjectsCpp.Turns

/-- A request without a body, whose header lines have a colon. -/
structure Request where
  method : Method
  target : Str
  version : Version
  headers : List Str
  known : method ≠ .invalid
  versioned : version ≠ .unknown
  plainTarget : ' ' ∉ target ∧ ¬crlf <:+: target
  plainHeaders : ∀ line ∈ headers, ':' ∈ line ∧ ¬crlf <:+: line

namespace Request

def methodText : Method → Str
  | .invalid => []
  | .get => "GET".toList
  | .post => "POST".toList
  | .head => "HEAD".toList
  | .put => "PUT".toList
  | .delete => "DELETE".toList

def versionText : Version → Str
  | .unknown => []
  | .http10 => "HTTP/1.0".toList
  | .http11 => "HTTP/1.1".toList

def requestLine (r : Request) : Str :=
  methodText r.method ++ ' ' :: (r.target ++ ' ' :: versionText r.version)

def lines (r : Request) : List Str := r.requestLine :: (r.headers ++ [[]])

def text (r : Request) : Str := ended '\r' '\n' r.lines

variable (r : Request) {sep : Char} {w t : Str}

/-! ### The request line -/

theorem takeWhile_sep (free : sep ∉ w) : (w ++ sep :: t).takeWhile (· ≠ sep) = w := by
  have all : ∀ c ∈ w, decide (c ≠ sep) = true :=
    fun c member => decide_eq_true (ne_of_mem_of_not_mem member free)
  rw [List.takeWhile_append_of_pos all, List.takeWhile_cons_of_neg (by simp), List.append_nil]

theorem methodText_plain (m : Method) : ' ' ∉ methodText m ∧ ¬crlf <:+: methodText m := by
  cases m <;> decide

theorem methodOf_methodText (m : Method) (known : m ≠ .invalid) :
    HttpRequest.methodOf (methodText m) = m ∧ methodText m ≠ [] := by
  cases m <;> first | exact absurd rfl known | decide

theorem versionText_free (v : Version) : ¬crlf <:+: versionText v := by
  cases v <;> decide

theorem setVersion_versionText (q : HttpRequest) (v : Version) (versioned : v ≠ .unknown) :
    setVersion q (versionText v) = (true, { q with version := v }) := by
  cases v with
  | unknown => exact absurd rfl versioned
  | http10 => rfl
  | http11 => rfl

def named : HttpRequest :=
  { setTarget { HttpRequest.new with method := r.method } r.target with version := r.version }

theorem processRequestLine_requestLine :
    processRequestLine .new r.requestLine = some (true, r.named) := by
  obtain ⟨method, some_⟩ := methodOf_methodText r.method r.known
  have word : r.requestLine.takeWhile (· ≠ ' ') = methodText r.method :=
    takeWhile_sep (methodText_plain r.method).1
  have start : r.requestLine.drop ((methodText r.method).length + 1) =
      r.target ++ ' ' :: versionText r.version := by
    rw [requestLine, ← List.drop_drop, List.drop_left, List.drop_one, List.tail_cons]
  have target : (r.target ++ ' ' :: versionText r.version).takeWhile (· ≠ ' ') = r.target :=
    takeWhile_sep r.plainTarget.1
  have version : (r.target ++ ' ' :: versionText r.version).drop (r.target.length + 1) =
      versionText r.version := by
    rw [← List.drop_drop, List.drop_left, List.drop_one, List.tail_cons]
  have longer : (methodText r.method).length ≠ r.requestLine.length := by
    simp [requestLine]
  have longer' : r.target.length ≠ (r.target ++ ' ' :: versionText r.version).length := by
    simp
  have valid : HttpRequest.new.setMethod (methodText r.method) =
      some (true, { HttpRequest.new with method := r.method }) := by
    simp [HttpRequest.setMethod, HttpRequest.new, method, r.known]
  simp only [processRequestLine, word, if_neg longer, valid, Option.map_some, start, target,
    if_neg longer', version, setVersion_versionText _ _ r.versioned, named, Bool.not_true]
  rfl

theorem requestLine_free : ¬crlf <:+: r.requestLine := by
  refine append_free (methodText_plain r.method).2 (cons_free (by decide) ?_) fun _ => by simp
  exact append_free r.plainTarget.2 (cons_free (by decide) (versionText_free _)) fun _ => by simp

theorem lines_free {line : Str} (member : line ∈ r.lines) : ¬crlf <:+: line := by
  rcases List.mem_cons.mp member with rfl | later
  · exact r.requestLine_free
  · rcases List.mem_append.mp later with header | last
    · exact (r.plainHeaders line header).2
    · rw [List.mem_singleton.mp last]
      decide

/-! ### Lines as they come -/

/-- The request behind some of its header lines. -/
def partly (time : Int) (headers : List Str) : HttpRequest :=
  headers.foldl HttpRequest.addHeader { r.named with receiveTime := time }

/-- The context behind some lines of the request. -/
def behind (time : Int) : List Str → HttpContext
  | [] => .new
  | _ :: headers => ⟨.expectHeaders, r.partly time headers⟩

variable {r} {passed before after : List Str} {line tail : Str}

theorem parseLoop_line (place : r.lines = passed ++ line :: after) (more : after ≠ [])
    (time receiveTime : Int) : ∃ time', ∀ rounds rest,
      (r.behind time passed).parseLoop receiveTime (rounds + 1) (line ++ '\r' :: '\n' :: rest) =
        (r.behind time' (passed ++ [line])).parseLoop receiveTime rounds rest := by
  have free : ¬crlf <:+: line := r.lines_free (by rw [place]; simp)
  have found : ∀ rest, findSub crlf (line ++ '\r' :: '\n' :: rest) = some line.length :=
    fun rest => findSub_pair (by decide) free
  have taken : ∀ rest, (line ++ '\r' :: '\n' :: rest).take line.length = line :=
    fun rest => List.take_left
  have left : ∀ rest, (line ++ '\r' :: '\n' :: rest).drop (line.length + 2) = rest := by
    intro rest
    rw [← List.drop_drop, List.drop_left]
    rfl
  cases passed with
  | nil =>
    obtain ⟨rfl, -⟩ := List.cons.inj place
    refine ⟨receiveTime, fun rounds rest => ?_⟩
    rw [behind, HttpContext.parseLoop, HttpContext.new]
    simp only [found, taken, left, processRequestLine_requestLine, Option.bind_some]
    rfl
  | cons first headers =>
    have colon : ':' ∈ line := by
      obtain ⟨after, last, rfl⟩ := (List.eq_nil_or_concat after).resolve_left more
      have headersOf : r.headers ++ [[]] = (headers ++ line :: after) ++ [last] := by
        have tail : r.headers ++ [[]] = headers ++ line :: after.concat last :=
          (List.cons.inj place).2
        rw [tail, List.concat_eq_append, List.append_assoc, List.cons_append]
      obtain ⟨same, -⟩ := List.append_inj' headersOf rfl
      exact (r.plainHeaders line (by rw [same]; simp)).1
    refine ⟨time, fun rounds rest => ?_⟩
    simp only [behind, List.cons_append, HttpContext.parseLoop, found, taken, left, if_pos colon,
      partly, List.foldl_append, List.foldl_cons, List.foldl_nil]

theorem parseLoop_lines (place : r.lines = passed ++ (before ++ after)) (more : after ≠ [])
    (time receiveTime : Int) : ∃ time', ∀ rounds rest,
      (r.behind time passed).parseLoop receiveTime (rounds + before.length)
          (ended '\r' '\n' before ++ rest) =
        (r.behind time' (passed ++ before)).parseLoop receiveTime rounds rest := by
  induction before generalizing passed time with
  | nil => exact ⟨time, fun rounds rest => by simp⟩
  | cons w before ih =>
    obtain ⟨time₁, first⟩ := parseLoop_line place (by simp [more]) time receiveTime
    have place' : r.lines = (passed ++ [w]) ++ (before ++ after) := by simpa using place
    obtain ⟨time₂, others⟩ := ih place' time₁
    refine ⟨time₂, fun rounds rest => ?_⟩
    rw [List.length_cons, ← Nat.add_assoc, ended_cons, List.append_assoc, List.cons_append,
      List.cons_append, first, others, List.append_assoc, List.singleton_append]

theorem parseRequest_part (place : r.lines = passed ++ (before ++ line :: after))
    (part : tail <+: line ++ ['\r']) (time receiveTime : Int) :
    ∃ time', (r.behind time passed).parseRequest (ended '\r' '\n' before ++ tail) receiveTime =
      some (true, r.behind time' (passed ++ before), tail) := by
  obtain ⟨time', others⟩ := parseLoop_lines place (by simp) time receiveTime
  have free : ¬crlf <:+: tail :=
    tail_free (by decide) (r.lines_free (by rw [place]; simp)) part
  have stop : ∀ rounds, (r.behind time' (passed ++ before)).parseLoop receiveTime (rounds + 1) tail =
      some (true, r.behind time' (passed ++ before), tail) := by
    intro rounds
    have none := findSub_eq_none.mpr free
    cases passed ++ before with
    | nil => simp only [behind, HttpContext.new, HttpContext.parseLoop, none]
    | cons first headers => simp only [behind, HttpContext.parseLoop, none]
  have size : 2 * before.length ≤ (ended '\r' '\n' before).length := length_le_ended
  obtain ⟨rounds, enough⟩ : ∃ rounds,
      (ended '\r' '\n' before ++ tail).length + 1 = rounds + 1 + before.length := by
    refine ⟨(ended '\r' '\n' before ++ tail).length - before.length, ?_⟩
    rw [List.length_append]
    omega
  exact ⟨time', by rw [HttpContext.parseRequest, enough, others, stop]⟩

theorem parseRequest_whole (place : r.lines = passed ++ before) (more : before ≠ [])
    (time receiveTime : Int) (rest : Str) :
    ∃ time', (r.behind time passed).parseRequest (ended '\r' '\n' before ++ rest) receiveTime =
      some (true, ⟨.gotAll, r.partly time' r.headers⟩, rest) := by
  obtain ⟨before, last, rfl⟩ := (List.eq_nil_or_concat before).resolve_left more
  rw [List.concat_eq_append] at place ⊢
  have split : (r.requestLine :: r.headers) ++ [[]] = (passed ++ before) ++ [last] := by
    rw [List.append_assoc, ← place]
    rfl
  obtain ⟨lines, same⟩ := List.append_inj' split rfl
  cases same
  obtain ⟨time', others⟩ := parseLoop_lines place (by simp) time receiveTime
  have finish : ∀ rounds,
      (r.behind time' (passed ++ before)).parseLoop receiveTime (rounds + 1) ('\r' :: '\n' :: rest) =
        some (true, ⟨.gotAll, r.partly time' r.headers⟩, rest) := by
    intro rounds
    have found : findSub crlf ('\r' :: '\n' :: rest) = some 0 := findSub_pair (w := []) (by decide) (by decide)
    rw [← lines]
    simp only [behind, HttpContext.parseLoop, found]
    rfl
  have size : 2 * before.length ≤ (ended '\r' '\n' before).length := length_le_ended
  obtain ⟨rounds, enough⟩ : ∃ rounds,
      (ended '\r' '\n' (before ++ [[]]) ++ rest).length + 1 = rounds + 1 + before.length := by
    refine ⟨(ended '\r' '\n' (before ++ [[]]) ++ rest).length - before.length, ?_⟩
    simp only [List.length_append, ended_append]
    omega
  refine ⟨time', ?_⟩
  rw [HttpContext.parseRequest, enough, ended_append, List.append_assoc, others]
  exact finish rounds

/-! ### Requests one after the other -/

def contentOf (q : HttpRequest) : Method × Str × Str × Version × AList fun _ : Str => Str :=
  (q.method, q.path, q.query, q.version, q.headers)

theorem contentOf_partly (r : Request) (time time' : Int) (headers : List Str) :
    contentOf (r.partly time headers) = contentOf (r.partly time' headers) := by
  have same : ∀ q q' : HttpRequest, contentOf q = contentOf q' →
      contentOf (headers.foldl HttpRequest.addHeader q) =
        contentOf (headers.foldl HttpRequest.addHeader q') := by
    induction headers with
    | nil => exact fun q q' same => same
    | cons line headers ih =>
      intro q q' same
      refine ih _ _ ?_
      simp only [contentOf, Prod.mk.injEq] at same
      simp [contentOf, HttpRequest.addHeader, same]
  exact same _ _ rfl

def texts (rs : List Request) : Str := rs.flatMap text

theorem texts_append (rs more : List Request) : texts (rs ++ more) = texts rs ++ texts more :=
  List.flatMap_append

def complete : List Request → Nat → Nat
  | [], _ => 0
  | r :: rs, size => if r.text.length ≤ size then complete rs (size - r.text.length) + 1 else 0

theorem le_complete {rs : List Request} {k size : Nat} :
    k ≤ complete rs size ↔ k ≤ rs.length ∧ (texts (rs.take k)).length ≤ size := by
  induction rs generalizing k size with
  | nil => simp [complete, texts]
  | cons r rs ih =>
    cases k with
    | zero => simp [texts]
    | succ k =>
      have split : texts ((r :: rs).take (k + 1)) = r.text ++ texts (rs.take k) := rfl
      rw [complete, split, List.length_append, List.length_cons]
      split
      · rw [Nat.add_le_add_iff_right, Nat.add_le_add_iff_right, ih]
        omega
      · omega

theorem complete_zero (rs : List Request) : complete rs 0 = 0 := by
  cases rs with
  | nil => rfl
  | cons r rs =>
    have some_ : ¬ r.text.length ≤ 0 := by simp [text, lines]
    exact if_neg some_

/-- Where the connection stands between the requests that are answered and the others, when
these bytes have come. -/
inductive Place (done : List Request) : List Request → Str → HttpContext → Str → Prop
  | all : Place done [] (texts done) .new []
  | within {r : Request} {later : List Request} {passed left : List Str} {input : Str} {time : Int}
      (place : r.lines = passed ++ left) (more : left ≠ []) :
      Place done (r :: later) (texts done ++ (ended '\r' '\n' passed ++ input)) (r.behind time passed)
        input

theorem Place.fresh {done rest : List Request} {more : Str} (inside : more <+: texts rest) :
    Place done rest (texts done ++ more) .new more := by
  cases rest with
  | nil =>
    have nothing : more = [] := List.prefix_nil.mp inside
    rw [nothing, List.append_nil]
    exact .all
  | cons r later =>
    have start : Place done (r :: later) (texts done ++ (ended '\r' '\n' [] ++ more)) (r.behind 0 [])
        more := .within rfl (List.cons_ne_nil _ _)
    exact start

/-- The connection when these bytes have come and `n` requests are answered. -/
structure Serving (rs : List Request) (n : Nat) (bytes : Str) (c : HttpConnection) : Prop where
  calls : c.calls.map contentOf = (rs.take n).map fun r => contentOf (r.partly 0 r.headers)
  place : Place (rs.take n) (rs.drop n) bytes c.context c.input

variable {rs : List Request} {n : Nat} {bytes chunk input : Str} {c : HttpConnection}
  {context : HttpContext} {httpCallback : HttpRequest → Bool → Str × Bool} {receiveTime : Int}

theorem onMessage_part
    (parsed : c.context.parseRequest (c.input ++ chunk) receiveTime = some (true, context, input))
    (goesOn : context.state ≠ .gotAll) :
    c.onMessage httpCallback chunk receiveTime =
      some { c with context := context, input := input } := by
  rw [HttpConnection.onMessage, parsed, Option.map_some]
  exact congrArg some (if_neg goesOn)

theorem onMessage_whole {q : HttpRequest}
    (parsed : c.context.parseRequest (c.input ++ chunk) receiveTime = some (true, ⟨.gotAll, q⟩, input)) :
    c.onMessage httpCallback chunk receiveTime =
      some { { c with context := .new, input := input }.onRequest httpCallback q with
        context := .new } := by
  rw [HttpConnection.onMessage, parsed]
  rfl

theorem behind_state (r : Request) (time : Int) (passed : List Str) :
    (r.behind time passed).state ≠ .gotAll := by
  cases passed <;> exact nofun

theorem Serving.onMessage (serving : Serving rs n bytes c) (inside : bytes ++ chunk <+: texts rs)
    (receiveTime : Int) : ∃ c', c.onMessage httpCallback chunk receiveTime = some c' ∧
      Serving rs (if n < complete rs (bytes ++ chunk).length then n + 1 else n) (bytes ++ chunk) c' := by
  obtain ⟨calls, place⟩ := serving
  have split : texts rs = texts (rs.take n) ++ texts (rs.drop n) := by
    rw [← texts_append, List.take_append_drop]
  generalize restIs : rs.drop n = rest at place split
  generalize contextIs : c.context = context at place
  generalize inputIs : c.input = input at place
  cases place with
  | all =>
    have nothing : chunk = [] := by
      rw [split] at inside
      exact List.prefix_nil.mp ((List.prefix_append_right_inj _).mp inside)
    have last : ¬ n < complete rs (texts (rs.take n) ++ chunk).length := by
      intro less
      have bound := (le_complete.mp less).1
      have length := List.drop_eq_nil_iff.mp restIs
      omega
    subst nothing
    have parsed : c.context.parseRequest (c.input ++ []) receiveTime = some (true, .new, []) := by
      rw [contextIs, inputIs]
      rfl
    rw [if_neg last, List.append_nil]
    refine ⟨{ c with context := .new, input := [] }, onMessage_part parsed nofun, calls, ?_⟩
    rw [restIs]
    exact .all
  | @within r later passed left _ time place more =>
    have next : rs.take (n + 1) = rs.take n ++ [r] := by
      rw [List.take_add, restIs]
      rfl
    have others : rs.drop (n + 1) = later := by
      rw [← List.drop_drop, restIs]
      rfl
    have within_ : n + 1 ≤ rs.length := by
      have length := congrArg List.length restIs
      simp only [List.length_drop, List.length_cons] at length
      omega
    have textIs : r.text = ended '\r' '\n' passed ++ ended '\r' '\n' left := by
      rw [text, place, ended_append]
    have size : (texts (rs.take (n + 1))).length = (texts (rs.take n)).length +
        ((ended '\r' '\n' passed).length + (ended '\r' '\n' left).length) := by
      rw [next, texts_append, show texts [r] = r.text ++ [] from rfl, List.append_nil, textIs,
        List.length_append, List.length_append]
    have ahead : input ++ chunk <+: ended '\r' '\n' left ++ texts later := by
      rw [split, show texts (r :: later) = r.text ++ texts later from rfl, textIs] at inside
      simpa [List.prefix_append_right_inj] using inside
    rcases prefix_ended ahead with ⟨rest, whole, behind⟩ | ⟨before, line, after, tail, rfl, part, short⟩
    · have answered : n < complete rs
          (texts (rs.take n) ++ (ended '\r' '\n' passed ++ input) ++ chunk).length := by
        refine le_complete.mpr ⟨within_, le_of_eq_of_le size ?_⟩
        have length := congrArg List.length whole
        simp only [List.length_append] at length ⊢
        omega
      obtain ⟨time', parsed⟩ := parseRequest_whole place more time receiveTime rest
      rw [if_pos answered]
      rw [← whole, ← inputIs, ← contextIs] at parsed
      refine ⟨_, onMessage_whole parsed, ?_, ?_⟩
      · rw [next, List.map_append, ← calls]
        exact List.map_append.trans (congrArg (fun q => c.calls.map contentOf ++ [q])
          (contentOf_partly r time' 0 r.headers))
      · rw [next, others]
        have bytesAre : texts (rs.take n) ++ (ended '\r' '\n' passed ++ input) ++ chunk =
            texts (rs.take n ++ [r]) ++ rest := by
          rw [texts_append, show texts [r] = r.text ++ [] from rfl, textIs]
          simp [whole]
        rw [bytesAre]
        exact .fresh behind
    · have unanswered : ¬ n < complete rs
          (texts (rs.take n) ++ (ended '\r' '\n' passed ++ input) ++ chunk).length := by
        intro less
        have bound := (le_complete.mp less).2
        have length := congrArg List.length part
        have little := short.length_le
        rw [show n.succ = n + 1 from rfl, size] at bound
        simp only [List.length_append, ended_append, ended_cons, List.length_cons, List.length_nil]
          at bound length little
        omega
      obtain ⟨time', parsed⟩ := parseRequest_part place short time receiveTime
      rw [if_neg unanswered]
      rw [← part, ← inputIs, ← contextIs] at parsed
      refine ⟨_, onMessage_part parsed (behind_state r time' _), calls, ?_⟩
      have bytesAre : texts (rs.take n) ++ (ended '\r' '\n' passed ++ input) ++ chunk =
          texts (rs.take n) ++ (ended '\r' '\n' (passed ++ before) ++ tail) := by
        rw [ended_append]
        simp [part]
      rw [restIs, bytesAre]
      exact .within (by rw [place, List.append_assoc]) (List.cons_ne_nil _ _)

/-! ### Runs -/

def bytesOf (chunks : List (Str × Int)) : Str := (chunks.map Prod.fst).flatten

def arrived (rs : List Request) (chunks : List (Str × Int)) (turn : Nat) : Nat :=
  complete rs (bytesOf (chunks.take turn)).length

variable {chunks : List (Str × Int)}

theorem bytesOf_append (chunks more : List (Str × Int)) :
    bytesOf (chunks ++ more) = bytesOf chunks ++ bytesOf more := by
  simp [bytesOf]

theorem bytesOf_take_mono (chunks : List (Str × Int)) {j k : Nat} (le : j ≤ k) :
    bytesOf (chunks.take j) <+: bytesOf (chunks.take k) := by
  have split : chunks.take k = chunks.take j ++ (chunks.drop j).take (k - j) := by
    rw [← List.take_add, Nat.add_sub_cancel' le]
  rw [split, bytesOf_append]
  exact List.prefix_append _ _

theorem arrived_mono (rs : List Request) (chunks : List (Str × Int)) : Monotone (arrived rs chunks) :=
  fun j k le => by
    have before := le_complete.mp (le_refl (arrived rs chunks j))
    exact le_complete.mpr ⟨before.1, before.2.trans (bytesOf_take_mono chunks le).length_le⟩

theorem serving_take (httpCallback : HttpRequest → Bool → Str × Bool)
    (whole : bytesOf chunks = texts rs) (turn : Nat) (le : turn ≤ chunks.length) :
    ∃ c, HttpConnection.new.onMessages httpCallback (chunks.take turn) = some c ∧
      Serving rs (done (arrived rs chunks) turn) (bytesOf (chunks.take turn)) c := by
  induction turn with
  | zero =>
    refine ⟨.new, rfl, rfl, ?_⟩
    have start : Place [] (rs.drop 0) (texts [] ++ []) .new [] := .fresh List.nil_prefix
    exact start
  | succ turn ih =>
    obtain ⟨c, ran, serving⟩ := ih (by omega)
    have less : turn < chunks.length := by omega
    have next : chunks.take (turn + 1) = chunks.take turn ++ [chunks[turn]] :=
      List.take_succ_eq_append_getElem less
    have bytes : bytesOf (chunks.take (turn + 1)) = bytesOf (chunks.take turn) ++ chunks[turn].1 := by
      rw [next, bytesOf_append]
      simp [bytesOf]
    have inside : bytesOf (chunks.take turn) ++ chunks[turn].1 <+: texts rs := by
      rw [← bytes, ← whole]
      have part := bytesOf_take_mono chunks le
      rwa [List.take_length] at part
    obtain ⟨c', called, serving'⟩ := serving.onMessage inside chunks[turn].2
    refine ⟨c', ?_, ?_⟩
    · rw [next, HttpConnection.onMessages, List.foldlM_append, ← HttpConnection.onMessages, ran]
      simpa using called
    · rw [done, arrived, bytes]
      exact serving'

theorem onMessage_alone (r : Request) (receiveTime : Int) : ∃ c alone,
    HttpConnection.new.onMessage httpCallback r.text receiveTime = some c ∧ c.calls = [alone] ∧
      contentOf alone = contentOf (r.partly 0 r.headers) := by
  have passed : r.lines = [] ++ r.lines := rfl
  obtain ⟨time', parsed⟩ := parseRequest_whole passed (List.cons_ne_nil _ _) 0 receiveTime []
  rw [List.append_nil] at parsed
  exact ⟨_, _, onMessage_whole parsed, rfl, contentOf_partly r time' 0 r.headers⟩

/-- `httpCallback_` is called once for each request, in order, each time with what it is called
with when the request comes alone. -/
def OncePerRequest (httpCallback : HttpRequest → Bool → Str × Bool) (rs : List Request)
    (chunks : List (Str × Int)) : Prop :=
  ∃ c, HttpConnection.new.onMessages httpCallback chunks = some c ∧
    List.Forall₂ (fun call r => ∀ receiveTime, ∃ c' alone,
      HttpConnection.new.onMessage httpCallback (text r) receiveTime = some c' ∧ c'.calls = [alone] ∧
        contentOf call = contentOf alone) c.calls rs

/-- The calls but the last `i` hold the requests but the last `i`. -/
def InTime (rs : List Request) (chunks : List (Str × Int)) : Prop :=
  ∀ i < rs.length, (texts (rs.take (rs.length - i))).length ≤
    (bytesOf (chunks.take (chunks.length - i))).length

theorem all_arrived_iff (rs : List Request) (chunks : List (Str × Int)) :
    done (arrived rs chunks) chunks.length = rs.length ↔ InTime rs chunks := by
  have none : arrived rs chunks 0 = 0 := complete_zero rs
  have all : arrived rs chunks chunks.length ≤ rs.length := (le_complete.mp le_rfl).1
  rw [done_eq_iff (arrived_mono rs chunks) none all]
  refine forall₂_congr fun i _ => ?_
  rw [arrived, le_complete, and_iff_right (Nat.sub_le _ _)]

/-- However the bytes of the requests come, each is answered once, in order, as if it had come
alone, exactly when no request has to wait behind the last call. -/
theorem oncePerRequest_iff (httpCallback : HttpRequest → Bool → Str × Bool)
    (whole : bytesOf chunks = texts rs) : OncePerRequest httpCallback rs chunks ↔ InTime rs chunks := by
  obtain ⟨c, ran, serving⟩ := serving_take httpCallback whole chunks.length le_rfl
  rw [List.take_length] at ran
  have calls := serving.calls
  rw [← all_arrived_iff]
  constructor
  · rintro ⟨c', ran', each⟩
    rw [ran] at ran'
    cases ran'
    have length := congrArg List.length calls
    rw [List.length_map, List.length_map, List.length_take, each.length_eq] at length
    have bound := done_le_arrived (arrived_mono rs chunks) chunks.length
    have all : arrived rs chunks chunks.length ≤ rs.length := (le_complete.mp le_rfl).1
    omega
  · intro answered
    rw [answered, List.take_length, ← List.forall₂_eq_eq_eq, List.forall₂_map_left_iff,
      List.forall₂_map_right_iff] at calls
    refine ⟨c, ran, calls.imp fun call r same receiveTime => ?_⟩
    obtain ⟨c', alone, came, one, content⟩ := onMessage_alone r receiveTime
    exact ⟨c', alone, came, one, same.trans content.symm⟩

instance (rs : List Request) (chunks : List (Str × Int)) : Decidable (InTime rs chunks) :=
  inferInstanceAs (Decidable (∀ i < rs.length, _))

def getRoot : Request where
  method := .get
  target := "/?a".toList
  version := .http11
  headers := ["Host: x".toList]
  known := by decide
  versioned := by decide
  plainTarget := by decide
  plainHeaders := by decide

def postForm : Request where
  method := .post
  target := "/b".toList
  version := .http10
  headers := ["Connection: Keep-Alive ".toList, "A:".toList]
  known := by decide
  versioned := by decide
  plainTarget := by decide
  plainHeaders := by decide

/-- Two requests in three calls, cut inside the first CRLF and inside the second request. -/
def threeCalls : List (Str × Int) :=
  let bytes := getRoot.text ++ postForm.text
  [(bytes.take 16, 1), ((bytes.drop 16).take 20, 2), (bytes.drop 36, 3)]

theorem oncePerRequest_threeCalls :
    bytesOf threeCalls = texts [getRoot, postForm] ∧
      OncePerRequest (fun _ close => ([], close)) [getRoot, postForm] threeCalls := by
  have whole : bytesOf threeCalls = texts [getRoot, postForm] := by decide +kernel
  exact ⟨whole, (oncePerRequest_iff _ whole).mpr (by decide +kernel)⟩

theorem second_request_waits :
    ¬ ∀ httpCallback rs chunks, bytesOf chunks = texts rs → OncePerRequest httpCallback rs chunks := by
  intro each
  obtain ⟨c, ran, answered⟩ := each (fun _ close => ([], close)) [getRoot, postForm]
    [(getRoot.text ++ postForm.text, 1)] (by decide +kernel)
  have one : ((HttpConnection.new.onMessages (fun _ close => ([], close))
      [(getRoot.text ++ postForm.text, 1)]).any fun c => decide (c.calls.length = 1)) = true := by
    decide +kernel
  obtain ⟨c', ran', length⟩ := (Option.any_eq_true _ _).mp one
  rw [ran] at ran'
  cases ran'
  have both := answered.length_eq
  rw [of_decide_eq_true length] at both
  exact absurd both (by decide)

end Request

end ProjectsCpp.MuduoNet
