import ProjectsCpp.Lib.Text
import ProjectsCpp.Lib.Substring
import ProjectsCpp.Lib.Frames

/-! The text protocol of the hub (`examples/hub/codec.cc`), and the client that reads it
(`examples/hub/pubsub.cc`). -/

namespace ProjectsCpp.Hub
open ProjectsCpp.Text ProjectsCpp.Substring ProjectsCpp.Frames

def crlf : Str := ['\r', '\n']

def pub : Str := ['p', 'u', 'b']

def sub : Str := ['s', 'u', 'b']

def unsub : Str := ['u', 'n', 's', 'u', 'b']

structure Message where
  cmd : Str
  topic : Str
  content : Str
deriving DecidableEq

inductive ParseResult where
  | kError
  | kSuccess (message : Message) (left : Str)
  | kContinue

/-- Only a `pub` has a second line. -/
def parseMessage (buf : Str) : ParseResult :=
  match findSub crlf buf with
  | none => .kContinue
  | some k => match cutAt ' ' (buf.take k) with
    | none => .kError
    | some (cmd, topic) =>
      let start := buf.drop (k + 2)
      if cmd = pub then
        match findSub crlf start with
        | none => .kContinue
        | some n => .kSuccess ⟨cmd, topic, start.take n⟩ (start.drop (n + 2))
      else .kSuccess ⟨cmd, topic, []⟩ start

/-- `makeMessage`, and what `publish` of the client sends. -/
def makeMessage (topic content : Str) : Str := pub ++ ' ' :: topic ++ crlf ++ (content ++ crlf)

/-- What `subscribe` and `unsubscribe` of the client send. -/
def makeCommand (cmd topic : Str) : Str := cmd ++ ' ' :: topic ++ crlf

def frame (m : Message) : Str :=
  if m.cmd = pub then makeMessage m.topic m.content else makeCommand m.cmd m.topic

structure Message.Plain (m : Message) : Prop where
  word : ' ' ∉ m.cmd
  line : ¬crlf <:+: m.cmd ++ ' ' :: m.topic
  content : ¬crlf <:+: m.content
  none : m.cmd ≠ pub → m.content = []

theorem findSub_line {line : Str} (free : ¬crlf <:+: line) (rest : Str) :
    findSub crlf (line ++ crlf ++ rest) = some line.length := by
  rw [List.append_assoc]
  exact findSub_pair (by decide) free

theorem drop_line (line rest : Str) : (line ++ crlf ++ rest).drop (line.length + 2) = rest := by
  have length : line.length + 2 = (line ++ crlf).length := by simp [crlf]
  rw [length, List.drop_left]

theorem take_line (line rest : Str) : (line ++ crlf ++ rest).take line.length = line := by
  rw [List.append_assoc, List.take_left]

theorem parse_line {m : Message} (plain : m.Plain) (rest : Str) :
    parseMessage (m.cmd ++ ' ' :: m.topic ++ crlf ++ rest) =
      if m.cmd = pub then
        match findSub crlf rest with
        | none => .kContinue
        | some n => .kSuccess ⟨m.cmd, m.topic, rest.take n⟩ (rest.drop (n + 2))
      else .kSuccess ⟨m.cmd, m.topic, []⟩ rest := by
  rw [parseMessage, findSub_line plain.line]
  simp only [take_line, cutAt_sep plain.word, drop_line]

theorem parse_frame {m : Message} (plain : m.Plain) (rest : Str) :
    parseMessage (frame m ++ rest) = .kSuccess m rest := by
  rw [frame]
  split
  · rename_i its
    rw [makeMessage, ← its, List.append_assoc, parse_line plain, if_pos its,
      findSub_line plain.content]
    simp only [take_line, drop_line]
  · rename_i other
    rw [makeCommand, parse_line plain, if_neg other, ← plain.none other]

theorem free_of_prefix {line tail : Str} (free : ¬crlf <:+: line) (starts : tail <+: line ++ crlf)
    (short : tail.length < line.length + 2) : findSub crlf tail = none := by
  rw [findSub_eq_none]
  have inner : tail <+: line ++ ['\r'] := by
    refine List.prefix_of_prefix_length_le starts ?_ ?_
    · exact (List.prefix_append_right_inj line).mpr ⟨['\n'], rfl⟩
    · simp only [List.length_append, List.length_singleton]
      omega
  exact fun occurs => pair_free (by decide) free (occurs.trans inner.isInfix)

theorem parse_part {m : Message} (plain : m.Plain) {tail : Str} (part : tail <+: frame m)
    (short : tail.length < (frame m).length) : parseMessage tail = .kContinue := by
  have length : crlf.length = 2 := rfl
  have first (rest : Str) (part : tail <+: m.cmd ++ ' ' :: m.topic ++ crlf ++ rest)
      (few : tail.length < (m.cmd ++ ' ' :: m.topic).length + 2) : parseMessage tail = .kContinue := by
    have front : tail <+: m.cmd ++ ' ' :: m.topic ++ crlf := by
      refine List.prefix_of_prefix_length_le part (List.prefix_append _ _) ?_
      simp only [List.length_append, length] at few ⊢
      omega
    rw [parseMessage, free_of_prefix plain.line front few]
  rw [frame] at part short
  split at part
  · rename_i its
    rw [if_pos its] at short
    rw [makeMessage, ← its] at part short
    by_cases few : tail.length < (m.cmd ++ ' ' :: m.topic).length + 2
    · exact first _ part few
    · have front : m.cmd ++ ' ' :: m.topic ++ crlf <+: tail := by
        refine List.prefix_of_prefix_length_le (List.prefix_append _ _) part ?_
        simp only [List.length_append, length] at few ⊢
        omega
      obtain ⟨u, rfl⟩ := front
      have second := (List.prefix_append_right_inj _).mp part
      rw [parse_line plain, if_pos its, free_of_prefix plain.content second]
      simp only [List.length_append, length] at short ⊢
      omega
  · rename_i other
    rw [if_neg other, makeCommand] at short
    refine first [] (by simpa [makeCommand] using part) ?_
    rw [List.length_append] at short
    exact short

theorem exists_line {buf : Str} {k : Nat} (found : findSub crlf buf = some k) :
    ∃ line rest, buf = line ++ crlf ++ rest ∧ line.length = k ∧ ¬crlf <:+: line := by
  induction buf generalizing k with
  | nil => cases found
  | cons c buf ih =>
    rw [findSub] at found
    split at found
    · rename_i starts
      obtain ⟨rest, whole⟩ := starts
      exact ⟨[], rest, whole.symm, by simpa using found, by decide⟩
    · rename_i other
      obtain ⟨n, later, rfl⟩ := Option.map_eq_some_iff.mp found
      obtain ⟨line, rest, rfl, length, free⟩ := ih later
      refine ⟨c :: line, rest, rfl, by rw [List.length_cons, length], ?_⟩
      rw [List.infix_cons_iff]
      rintro (starts | inside)
      · refine other (starts.trans ⟨crlf ++ rest, ?_⟩)
        simp
      · exact free inside

theorem cutAt_some {line cmd topic : Str} (cut : cutAt ' ' line = some (cmd, topic)) :
    line = cmd ++ ' ' :: topic ∧ ' ' ∉ cmd := by
  rcases split_first ' ' line with clean | ⟨w, t, rfl, clean⟩
  · rw [cutAt_clean clean] at cut
    cases cut
  · rw [cutAt_sep clean] at cut
    cases cut
    exact ⟨rfl, clean⟩

theorem parse_success {buf left : Str} {m : Message} (parsed : parseMessage buf = .kSuccess m left) :
    buf = frame m ++ left ∧ m.Plain := by
  rw [parseMessage] at parsed
  cases found : findSub crlf buf with
  | none => simp [found] at parsed
  | some k =>
    obtain ⟨line, rest, rfl, rfl, free⟩ := exists_line found
    simp only [found, take_line, drop_line] at parsed
    cases cut : cutAt ' ' line with
    | none => simp [cut] at parsed
    | some word =>
      obtain ⟨cmd, topic⟩ := word
      obtain ⟨rfl, clean⟩ := cutAt_some cut
      simp only [cut] at parsed
      split at parsed
      · rename_i its
        cases found' : findSub crlf rest with
        | none => simp [found'] at parsed
        | some n =>
          obtain ⟨content, rest, rfl, rfl, free'⟩ := exists_line found'
          simp only [found', take_line, drop_line, ParseResult.kSuccess.injEq] at parsed
          obtain ⟨rfl, rfl⟩ := parsed
          refine ⟨?_, clean, free, free', fun other => absurd its other⟩
          rw [frame, if_pos its, makeMessage, its]
          simp only [List.append_assoc]
      · rename_i other
        cases parsed
        refine ⟨?_, clean, free, show ¬crlf <:+: ([] : Str) by decide, fun _ => rfl⟩
        rw [frame, if_neg other, makeCommand]

/-! ### The client -/

/-- The connection of a client, and what its callback was called with. -/
structure PubSubClient where
  input : Str
  callbacks : List (Str × Str)
  shutdown : Bool

namespace PubSubClient

def new : PubSubClient := ⟨[], [], false⟩

/-- The loop of `onMessage`, for so many rounds. -/
def drain : Nat → PubSubClient → Option PubSubClient
  | 0, _ => none
  | rounds + 1, c => match parseMessage c.input with
    | .kSuccess m left => drain rounds { c with
        input := left
        callbacks := if m.cmd = pub then c.callbacks ++ [(m.topic, m.content)] else c.callbacks }
    | .kError => some { c with shutdown := true }
    | .kContinue => some c

def onMessage (c : PubSubClient) (chunk : Str) : Option PubSubClient :=
  drain ((c.input ++ chunk).length + 1) { c with input := c.input ++ chunk }

end PubSubClient

def publication (p : Str × Str) : Message := ⟨pub, p.1, p.2⟩

theorem frame_publication (p : Str × Str) : frame (publication p) = makeMessage p.1 p.2 := if_pos rfl

theorem publication_pos (p : Str × Str) : 0 < (frame (publication p)).length := by
  rw [frame_publication]
  exact Nat.zero_lt_succ _

theorem drain_frames {before : List (Str × Str)} {tail : Str} {rounds : Nat} (c : PubSubClient)
    (plain : ∀ p ∈ before, (publication p).Plain) (last : parseMessage tail = .kContinue)
    (enough : (before.flatMap fun p => frame (publication p)).length + tail.length < rounds)
    (here : c.input = before.flatMap (fun p => frame (publication p)) ++ tail) :
    c.drain rounds = some { c with input := tail, callbacks := c.callbacks ++ before } := by
  induction before generalizing c rounds with
  | nil =>
    obtain ⟨rounds, rfl⟩ := Nat.exists_eq_succ_of_ne_zero (Nat.ne_of_gt (Nat.zero_lt_of_lt enough))
    have here : c.input = tail := here
    rw [PubSubClient.drain, here, last, List.append_nil, ← here]
  | cons p before ih =>
    obtain ⟨rounds, rfl⟩ := Nat.exists_eq_succ_of_ne_zero (Nat.ne_of_gt (Nat.zero_lt_of_lt enough))
    rw [List.flatMap_cons] at here enough
    have some_ := publication_pos p
    rw [List.length_append] at enough
    rw [PubSubClient.drain, here, List.append_assoc, parse_frame (plain p List.mem_cons_self)]
    simp only [publication, if_true]
    rw [ih _ (fun q later => plain q (List.mem_cons_of_mem _ later)) (by omega) rfl]
    simp

theorem client_reads {ps : List (Str × Str)} (plain : ∀ p ∈ ps, (publication p).Plain)
    {chunks : List Str} (stream : chunks.flatten = ps.flatMap fun p => makeMessage p.1 p.2) :
    chunks.foldlM PubSubClient.onMessage .new = some ⟨[], ps, false⟩ := by
  have reads : ∀ done before after tail tail' chunk (c : PubSubClient), c = ⟨tail, done, false⟩ →
      tail ++ chunk = before.flatMap (fun p => frame (publication p)) ++ tail' →
      Part (fun p => frame (publication p)) tail' after →
      (∀ p ∈ before ++ after, (publication p).Plain) →
      ∃ c', c.onMessage chunk = some c' ∧ c' = ⟨tail', done ++ before, false⟩ := by
    rintro done before after tail tail' chunk _ rfl whole part plain
    have last : parseMessage tail' = .kContinue := by
      cases after with
      | nil =>
        rw [show tail' = [] from part]
        rfl
      | cons p after => exact parse_part (plain p (by simp)) part.1 part.2
    refine ⟨_, ?_, rfl⟩
    rw [PubSubClient.onMessage, drain_frames _ (fun p member => plain p (List.mem_append_left _ member))
      last ?_ whole]
    rw [whole, List.length_append]
    exact Nat.lt_succ_self _
  have start : Part (fun p => frame (publication p)) [] ps := by
    cases ps with
    | nil => rfl
    | cons p ps => exact ⟨List.nil_prefix, publication_pos p⟩
  have stream : [] ++ chunks.flatten = ps.flatMap fun p => frame (publication p) := by
    rw [List.nil_append, stream]
    exact congrArg ps.flatMap (funext fun p => (frame_publication p).symm)
  obtain ⟨c, run, rfl⟩ := run_frames reads (rfl : PubSubClient.new = ⟨[], [], false⟩) stream plain start
  exact run

end ProjectsCpp.Hub
