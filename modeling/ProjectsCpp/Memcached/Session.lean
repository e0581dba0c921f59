import ProjectsCpp.Lib.Incremental
import ProjectsCpp.Lib.Substring
import ProjectsCpp.Memcached.Item

/-! `Session` on what its connection receives. `protocol_` is `kAscii`, as the constructor sets it.
`processRequest` and `doUpdate` tell first whether they have finished the request. -/

namespace ProjectsCpp.Memcached
open ProjectsCpp.Run ProjectsCpp.Substring ProjectsCpp.Incremental ProjectsCpp.TwosComplement

def kLongestKeySize : Nat := 250

inductive State where
  | kNewCommand
  | kReceiveValue
  | kDiscardValue
deriving DecidableEq

/-! ### Tokens and numbers -/

def space : UInt8 := 32

/-- The token from `next` on, and what is behind it. -/
def spaceSeparator (next : Bytes) : Option (Bytes × Bytes) :=
  let start := next.dropWhile (· = space)
  if start = [] then none
  else some (start.takeWhile (· ≠ space), start.dropWhile (· ≠ space))

/-- `boost::tokenizer`: the tokens of a text by a separator. -/
abbrev Tokenizer := (Bytes → Option (Bytes × Bytes)) → Bytes → List Bytes

/-- What is promised of it: the separator is called on what it has left, until it finds no token. -/
structure Tokenizes (tokenizer : Tokenizer) : Prop where
  ends : ∀ {separator next}, separator next = none → tokenizer separator next = []
  goesOn : ∀ {separator next token left},
    (∀ next token left, separator next = some (token, left) → left.length < next.length) →
    separator next = some (token, left) →
    tokenizer separator next = token :: tokenizer separator left

def tokensFrom (separator : Bytes → Option (Bytes × Bytes)) : Nat → Bytes → List Bytes
  | 0, _ => []
  | n + 1, next => match separator next with
    | none => []
    | some (token, next) => token :: tokensFrom separator n next

/-- The tokens of a request line. -/
def tokens (request : Bytes) : List Bytes := tokensFrom spaceSeparator request.length request

theorem spaceSeparator_shorter {next token left : Bytes}
    (found : spaceSeparator next = some (token, left)) : left.length < next.length := by
  rw [spaceSeparator] at found
  split_ifs at found with empty
  cases found
  have whole := (List.dropWhile_suffix (· = space) (l := next)).length_le
  have head := List.head?_dropWhile_not (· = space) next
  cases start : next.dropWhile (· = space) with
  | nil => exact absurd start empty
  | cons c more =>
    rw [start] at whole head
    have other : c ≠ space := of_decide_eq_false head
    have rest := (List.dropWhile_suffix (· ≠ space) (l := more)).length_le
    rw [List.dropWhile_cons_of_pos (p := (· ≠ space)) (decide_eq_true other)]
    exact Nat.lt_of_lt_of_le (Nat.lt_succ_of_le rest) whole

theorem tokensFrom_enough {separator : Bytes → Option (Bytes × Bytes)} {tokenizer : Tokenizer}
    (tokenizes : Tokenizes tokenizer)
    (shorter : ∀ next token left, separator next = some (token, left) → left.length < next.length) :
    ∀ (n : Nat) (next : Bytes), next.length ≤ n →
      tokenizer separator next = tokensFrom separator n next := by
  intro n
  induction n with
  | zero =>
    intro next none
    obtain rfl := List.length_eq_zero_iff.mp (Nat.le_zero.mp none)
    cases found : separator [] with
    | none => exact tokenizes.ends found
    | some result => exact absurd (shorter _ _ _ found) (Nat.not_lt_zero _)
  | succ n ih =>
    intro next enough
    rw [tokensFrom]
    cases found : separator next with
    | none => exact tokenizes.ends found
    | some result =>
      have less := shorter _ _ _ found
      rw [tokenizes.goesOn shorter found, ih _ (Nat.le_of_lt_succ (Nat.lt_of_lt_of_le less enough))]

theorem tokenizer_eq {tokenizer : Tokenizer} (tokenizes : Tokenizes tokenizer) (request : Bytes) :
    tokenizer spaceSeparator request = tokens request :=
  tokensFrom_enough tokenizes (fun _ _ _ => spaceSeparator_shorter) _ _ le_rfl

def listTokenizer : Tokenizer := fun separator next => tokensFrom separator (next.length + 1) next

theorem tokensFrom_fuel {separator : Bytes → Option (Bytes × Bytes)}
    (shorter : ∀ next token left, separator next = some (token, left) → left.length < next.length) :
    ∀ (n m : Nat) (next : Bytes), next.length < n → next.length < m →
      tokensFrom separator n next = tokensFrom separator m next := by
  intro n
  induction n with
  | zero => exact fun m next none => absurd none (Nat.not_lt_zero _)
  | succ n ih =>
    intro m next enough enough'
    obtain ⟨m, rfl⟩ := Nat.exists_eq_succ_of_ne_zero (Nat.ne_zero_of_lt enough')
    rw [tokensFrom, tokensFrom]
    cases found : separator next with
    | none => rfl
    | some result =>
      have less := shorter _ _ _ found
      exact congrArg _ (ih m _ (by omega) (by omega))

theorem listTokenizer_tokenizes : Tokenizes listTokenizer where
  ends none_ := by
    rw [listTokenizer, tokensFrom, none_]
  goesOn shorter found := by
    have less := shorter _ _ _ found
    have same := tokensFrom_fuel shorter _ _ _ less (Nat.lt_succ_self _)
    rw [listTokenizer, listTokenizer, tokensFrom, found, ← same]

def isSpace (c : UInt8) : Bool := c = space ∨ 9 ≤ c ∧ c ≤ 13

def isDigit (c : UInt8) : Bool := 48 ≤ c ∧ c ≤ 57

def strtoull (text : Bytes) : Nat × Bytes :=
  let start := text.dropWhile isSpace
  let (negative, number) := match start with
    | 45 :: number => (true, number)
    | 43 :: number => (false, number)
    | number => (false, number)
  let digits := number.takeWhile isDigit
  if digits = [] then (0, text)
  else
    let x := digits.foldl (fun x digit => 10 * x + (digit.toNat - 48)) 0
    (if 2 ^ 64 ≤ x then 2 ^ 64 - 1 else if negative then (2 ^ 64 - x) % 2 ^ 64 else x,
      number.dropWhile isDigit)

/-- `Reader::read`. What follows a token is a space or a CR, so that `strtoull` ends there at the
latest, or finds nothing in the token and ends somewhere else. -/
def read : List Bytes → Option (Nat × List Bytes)
  | [] => none
  | token :: first => match strtoull token with
    | (x, []) => some (x, first)
    | _ => none

structure UpdateFields where
  flags : UInt32
  exptime : Int
  bytes : Int
  cas : UInt64

/-- What `doUpdate` reads behind the key; `none` where `good` becomes false. -/
def readFields (policy : UpdatePolicy) (first : List Bytes) : Option UpdateFields :=
  (read first).bind fun (flags, first) =>
    (read first).bind fun (exptime, first) =>
      (read first).bind fun (bytes, first) =>
        let fields cas := ⟨.ofNat flags, int64 exptime, int32 bytes, .ofNat cas⟩
        if policy = .cas then (read first).map fun (cas, _) => fields cas else some (fields 0)

def updatePolicy (command : Bytes) : Option UpdatePolicy :=
  if command = bytes "set" then some .set
  else if command = bytes "add" then some .add
  else if command = bytes "replace" then some .replace
  else if command = bytes "append" then some .append
  else if command = bytes "prepend" then some .prepend
  else if command = bytes "cas" then some .cas
  else none

/-! ### The session -/

/-- `sent` is what `conn_` has been given to send while it was connected. -/
structure Session where
  server : MemcacheServer
  connected : Bool
  sent : Bytes
  state : State
  command : Bytes
  noreply : Bool
  policy : UpdatePolicy
  currItem : Option Item
  bytesToDiscard : Nat
  needle : Bytes
  outputBuf : Bytes

namespace Session

def new (server : MemcacheServer) : Session :=
  { server := server, connected := true, sent := [], state := .kNewCommand, command := []
    noreply := false, policy := .invalid, currItem := none, bytesToDiscard := 0
    needle := List.replicate kLongestKeySize 120, outputBuf := [] }

variable (s : Session)

def resetRequest : Session :=
  { s with command := [], noreply := false, policy := .invalid, currItem := none
           bytesToDiscard := 0 }

def send (msg : Bytes) : Session := if s.connected then { s with sent := s.sent ++ msg } else s

/-- `conn_->send(&outputBuf_)` -/
def sendOutput : Session :=
  if s.connected then { s with sent := s.sent ++ s.outputBuf, outputBuf := [] } else s

def shutdown : Session := { s with connected := false }

def reply (msg : String) : Session := if s.noreply then s else s.send (bytes msg)

def resetKey (key : Bytes) : Option Session :=
  if key.length ≤ 250 then some { s with needle := key } else none

def relExptime (exptime : Int) : Int :=
  if exptime > 60 * 60 * 24 * 30 then max 1 (int32 (exptime - s.server.startTime)) else int32 exptime

def doUpdate (policy : UpdatePolicy) (beg : List Bytes) : Option (Bool × Session) :=
  let s := { s with policy := policy }
  match beg with
  | [] => none
  | key :: first =>
    match if key.length ≤ kLongestKeySize then readFields policy first else none with
    | none => some (true, s.reply "CLIENT_ERROR bad command line format\r\n")
    | some r =>
      if r.bytes > 1024 * 1024 then
        ((s.reply "SERVER_ERROR object too large for cache\r\n").resetKey key).map fun s =>
          (false, { s with
            server := (s.server.deleteItem s.needle).2
            -- a negative `int` becomes a `size_t`
            bytesToDiscard := (int32 (r.bytes + 2) % 2 ^ 64).toNat
            state := .kDiscardValue })
      else
        (Item.makeItem key r.flags (s.relExptime r.exptime) (int32 (r.bytes + 2)) r.cas).map fun item =>
          (false, { s with currItem := some item, state := .kReceiveValue })

def get (cas : Bool) : List Bytes → Session → Option Session
  | [], s => some { s with outputBuf := s.outputBuf ++ bytes "END\r\n" }.sendOutput
  | key :: beg, s =>
    if key.length ≤ kLongestKeySize then
      (s.resetKey key).bind fun s =>
        get cas beg (match s.server.getItem s.needle with
          | some item => { s with outputBuf := s.outputBuf ++ item.output cas }
          | none => s)
    else some (s.reply "CLIENT_ERROR bad command line format\r\n")

def doDelete (beg : List Bytes) : Option Session :=
  match beg with
  | [] => none
  | key :: beg =>
    if kLongestKeySize < key.length then some (s.reply "CLIENT_ERROR bad command line format\r\n")
    else if beg.head?.any (· ≠ bytes "0") then
      some (s.reply "CLIENT_ERROR bad command line format.  Usage: delete <key> [noreply]\r\n")
    else (s.resetKey key).map fun s =>
      let (deleted, server) := s.server.deleteItem s.needle
      { s with server := server }.reply (if deleted then "DELETED\r\n" else "NOT_FOUND\r\n")

/-- What is in front of ` noreply` at the end of the request line. -/
def checkNoreply (request : Bytes) : Option Bytes :=
  if request.length ≥ 8 ∧ request.drop (request.length - 8) = bytes " noreply" then
    some (request.take (request.length - 8))
  else none

def processTokens : List Bytes → Option (Bool × Session)
  | [] => some (true, s.reply "ERROR\r\n")
  | command :: beg =>
    let s := { s with command := command }
    match updatePolicy command with
    | some policy => s.doUpdate policy beg
    | none =>
      if command = bytes "get" ∨ command = bytes "gets" then
        (get (command = bytes "gets") beg s).map fun s => (true, s)
      else if command = bytes "delete" then (s.doDelete beg).map fun s => (true, s)
      else if command = bytes "version" then some (true, s.reply "VERSION 0.01 muduo\r\n")
      else if command = bytes "quit" then some (true, s.shutdown)
      else if command = bytes "shutdown" then
        some (true, { s.shutdown with server := s.server.stop })
      else some (true, s.reply "ERROR\r\n")

def processRequest (tokenizer : Tokenizer) (request : Bytes) : Option (Bool × Session) :=
  if s.command = [] ∧ s.noreply = false ∧ s.policy = .invalid ∧ s.currItem.isNone ∧
      s.bytesToDiscard = 0 then
    match checkNoreply request with
    | some request => { s with noreply := true }.processTokens (tokenizer spaceSeparator request)
    | none => s.processTokens (tokenizer spaceSeparator request)
  else none

/-- The end of `receiveValue`, with the whole item. -/
def storeValue (item : Item) : Option Session :=
  (if whole : item.endsWithCRLF then
    (s.server.storeItem ⟨item, whole⟩ s.policy).map fun (stored, exists_, server) =>
      { s with server := server }.reply
        (if stored then "STORED\r\n"
        else if s.policy = UpdatePolicy.cas then if exists_ then "EXISTS\r\n" else "NOT_FOUND\r\n"
        else "NOT_STORED\r\n")
  else some (s.reply "CLIENT_ERROR bad data chunk\r\n")).map fun s =>
    { s.resetRequest with state := .kNewCommand }

def receiveValue (buf : Bytes) : Option (Outcome Session UInt8) :=
  s.currItem.bind fun item =>
    let avail := min buf.length item.neededBytes
    (item.append (buf.take avail)).bind fun item =>
      let s := { s with currItem := some item }
      if item.neededBytes = 0 then (s.storeValue item).map fun s => .goOn s (buf.drop avail)
      else some (.goOn s (buf.drop avail))

def discardValue (buf : Bytes) : Option (Outcome Session UInt8) :=
  if s.currItem.isSome then none
  else if buf.length < s.bytesToDiscard then
    some (.goOn { s with bytesToDiscard := s.bytesToDiscard - buf.length } [])
  else
    some (.goOn { s.resetRequest with state := .kNewCommand } (buf.drop s.bytesToDiscard))

/-- A round of the loop of `onMessage`. A request line whose length is negative as an `int` would
end in front of its first byte. -/
def round (tokenizer : Tokenizer) (s : Session) (buf : Bytes) : Option (Outcome Session UInt8) :=
  match s.state with
  | .kNewCommand =>
    match findSub crlf buf with
    | some n =>
      let len := int32 n
      if len < 0 then none
      else (s.processRequest tokenizer (buf.take len.toNat)).map fun (finished, s) =>
        .goOn (if finished then s.resetRequest else s) (buf.drop (n + 2))
    | none => some (.wait (if buf.length > 1024 then s.shutdown else s))
  | .kReceiveValue => s.receiveValue buf
  | .kDiscardValue => s.discardValue buf

end Session

/-- A session and its input buffer; a step is a call of `onMessage` with what has come. -/
def machine (tokenizer : Tokenizer) (server : MemcacheServer) : Machine (Session × Bytes) Bytes :=
  reader (Session.round tokenizer) (· = Session.new server)

/-- The tokens make no assertion fail: an update or a deletion names a key, and the number of bytes
that an update reads is not negative. -/
def tokensSound : List Bytes → Bool
  | [] => true
  | command :: beg => match updatePolicy command with
    | some policy => match beg with
      | [] => false
      | key :: first =>
        kLongestKeySize < key.length || (readFields policy first).all (0 ≤ ·.bytes)
    | none => command ≠ bytes "delete" || beg ≠ []

def lineSound (request : Bytes) : Bool :=
  tokensSound (tokens ((Session.checkNoreply request).getD request))

namespace Session

/-- The next round processes no request line that is not sound, and does not join two values to one
that is too long. -/
def sound (s : Session) (buf : Bytes) : Bool :=
  match s.state with
  | .kNewCommand => (findSub crlf buf).all fun n : Nat =>
    0 ≤ int32 n && lineSound (buf.take (int32 n).toNat)
  | .kReceiveValue => s.currItem.all fun item =>
    buf.length < item.neededBytes || ¬ crlf <:+ item.data ++ buf.take item.neededBytes ||
      s.server.fits item s.policy
  | .kDiscardValue => true

/-! ### What the session is between two rounds -/

structure Fresh (s : Session) : Prop where
  command : s.command = []
  noreply : s.noreply = false
  policy : s.policy = .invalid
  currItem : s.currItem = none
  bytesToDiscard : s.bytesToDiscard = 0

def Ready (s : Session) : Prop :=
  match s.state with
  | .kNewCommand => s.Fresh
  | .kReceiveValue => s.policy ≠ .invalid ∧ ∃ item, s.currItem = some item ∧ item.neededBytes ≠ 0
  | .kDiscardValue => s.currItem = none ∧ s.bytesToDiscard ≠ 0

variable {tokenizer : Tokenizer} {s t : Session} {buf more : Bytes}

theorem new_ready (server : MemcacheServer) : (new server).Ready := ⟨rfl, rfl, rfl, rfl, rfl⟩

theorem resetRequest_fresh (s : Session) : s.resetRequest.Fresh := ⟨rfl, rfl, rfl, rfl, rfl⟩

theorem reply_state (s : Session) (msg : String) : (s.reply msg).state = s.state := by
  rw [reply, send]
  split_ifs <;> rfl

theorem resetKey_some {key : Bytes} (short : key.length ≤ kLongestKeySize) :
    s.resetKey key = some { s with needle := key } := if_pos short

theorem get_some (cas : Bool) (beg : List Bytes) (s : Session) :
    ∃ t, get cas beg s = some t ∧ t.state = s.state := by
  induction beg generalizing s with
  | nil =>
    refine ⟨_, rfl, ?_⟩
    rw [sendOutput]
    split_ifs <;> rfl
  | cons key beg ih =>
    rw [get]
    by_cases short : key.length ≤ kLongestKeySize
    · rw [if_pos short, resetKey_some short, Option.bind_some]
      obtain ⟨t, got, state⟩ := ih (match s.server.getItem key with
        | some item => { s with needle := key, outputBuf := s.outputBuf ++ item.output cas }
        | none => { s with needle := key })
      refine ⟨t, ?_, state.trans ?_⟩
      · exact got
      · cases s.server.getItem key <;> rfl
    · rw [if_neg short]
      exact ⟨_, rfl, reply_state s _⟩

theorem doDelete_some {beg : List Bytes} (key : beg ≠ []) :
    ∃ t, s.doDelete beg = some t ∧ t.state = s.state := by
  obtain ⟨key, beg, rfl⟩ := List.exists_cons_of_ne_nil key
  rw [doDelete]
  split_ifs with long
  · exact ⟨_, rfl, reply_state s _⟩
  · exact ⟨_, rfl, reply_state s _⟩
  · rw [resetKey_some (Nat.not_lt.mp long)]
    exact ⟨_, rfl, reply_state _ _⟩

theorem readFields_bytes {policy : UpdatePolicy} {first : List Bytes} {r : UpdateFields}
    (good : readFields policy first = some r) : ∃ n, r.bytes = int32 n := by
  rw [readFields] at good
  obtain ⟨⟨flags, first₁⟩, -, good⟩ := Option.bind_eq_some_iff.mp good
  obtain ⟨⟨exptime, first₂⟩, -, good⟩ := Option.bind_eq_some_iff.mp good
  obtain ⟨⟨bytes, first₃⟩, -, good⟩ := Option.bind_eq_some_iff.mp good
  dsimp only at good
  split at good
  · obtain ⟨-, -, rfl⟩ := Option.map_eq_some_iff.mp good
    refine ⟨bytes, ?_⟩
    dsimp only
  · cases good
    refine ⟨bytes, ?_⟩
    dsimp only

/-! ### A request line -/

/-- What a request line leads to: a session for the next one, or one that takes or skips a value. -/
def Answers (ok : Bool) (result : Option (Bool × Session)) : Prop :=
  if ok then ∃ finished t, result = some (finished, t) ∧
    if finished then t.state = .kNewCommand else t.Ready
  else result = none

theorem Answers.finished {result : Option (Bool × Session)} (eq : result = some (true, t))
    (state : t.state = .kNewCommand) : Answers true result := by
  rw [Answers, if_pos rfl]
  exact ⟨true, t, eq, (if_pos rfl).mpr state⟩

theorem Answers.goesOn {result : Option (Bool × Session)} (eq : result = some (false, t))
    (ready : t.Ready) : Answers true result := by
  rw [Answers, if_pos rfl]
  exact ⟨false, t, eq, (if_neg Bool.false_ne_true).mpr ready⟩

theorem Answers.isSome {ok : Bool} {result : Option (Bool × Session)} (answers : Answers ok result) :
    result.isSome ↔ ok = true := by
  cases ok with
  | true =>
    rw [Answers, if_pos rfl] at answers
    obtain ⟨_, _, rfl, -⟩ := answers
    exact iff_of_true rfl rfl
  | false =>
    rw [Answers, if_neg Bool.false_ne_true] at answers
    rw [answers]
    exact Iff.rfl

theorem Answers.next {ok finished : Bool} (answers : Answers ok (some (finished, t))) :
    if finished then t.state = .kNewCommand else t.Ready := by
  cases ok with
  | true =>
    rw [Answers, if_pos rfl] at answers
    obtain ⟨_, _, same, next⟩ := answers
    cases same
    exact next
  | false => cases answers

theorem doUpdate_answers {policy : UpdatePolicy} (valid : policy ≠ .invalid)
    (state : s.state = .kNewCommand) (empty : s.currItem = none) (key : Bytes) (first : List Bytes) :
    Answers (kLongestKeySize < key.length || (readFields policy first).all (0 ≤ ·.bytes))
      (s.doUpdate policy (key :: first)) := by
  have malformed : ∀ msg, ({ s with policy := policy }.reply msg).state = .kNewCommand := fun msg =>
    (reply_state _ msg).trans state
  rw [doUpdate]
  dsimp only
  by_cases short : key.length ≤ kLongestKeySize
  swap
  · rw [if_neg short, decide_eq_true (Nat.not_le.mp short), Bool.true_or]
    exact .finished rfl (malformed _)
  rw [if_pos short, decide_eq_false (Nat.not_lt.mpr short), Bool.false_or]
  cases good : readFields policy first with
  | none => exact .finished rfl (malformed _)
  | some r =>
    obtain ⟨n, number⟩ := readFields_bytes good
    have high := int32_lt n
    have low := int32_ge n
    rw [← number] at high low
    rw [Option.all_some]
    dsimp only
    by_cases large : r.bytes > 1024 * 1024
    · rw [if_pos large, decide_eq_true (by omega), resetKey_some short]
      refine .goesOn rfl ⟨?_, ?_⟩
      · rw [reply, send]
        split_ifs <;> exact empty
      · change (int32 (r.bytes + 2) % 2 ^ 64).toNat ≠ 0
        rw [int32, Int.bmod_def]
        split <;> omega
    · rw [if_neg large, int32_eq (by omega) (by omega)]
      rw [kLongestKeySize] at short
      cases made : Item.makeItem key r.flags ({ s with policy := policy }.relExptime r.exptime)
          (r.bytes + 2) r.cas with
      | none =>
        have negative := Item.makeItem_isSome.not.mp (Option.not_isSome_iff_eq_none.mpr made)
        rw [decide_eq_false (by omega)]
        rfl
      | some item =>
        have sound := Item.makeItem_isSome.mp (Option.isSome_of_eq_some made)
        rw [decide_eq_true (by omega)]
        refine .goesOn rfl ⟨valid, item, rfl, ?_⟩
        rw [(Item.makeItem_some made).2]
        omega

theorem updatePolicy_valid {command : Bytes} {policy : UpdatePolicy}
    (update : updatePolicy command = some policy) : policy ≠ .invalid := by
  rw [updatePolicy] at update
  rintro rfl
  split_ifs at update <;> cases update

theorem processTokens_answers (state : s.state = .kNewCommand) (empty : s.currItem = none)
    (tokens : List Bytes) : Answers (tokensSound tokens) (s.processTokens tokens) := by
  have finished : ∀ msg, (s.reply msg).state = .kNewCommand := fun msg =>
    (reply_state _ msg).trans state
  cases tokens with
  | nil => exact .finished rfl (finished _)
  | cons command beg =>
    rw [tokensSound, processTokens]
    dsimp only
    cases update : updatePolicy command with
    | some policy =>
      cases beg with
      | nil => rfl
      | cons key first =>
        exact doUpdate_answers (s := { s with command := command }) (updatePolicy_valid update) state
          empty key first
    | none =>
      dsimp only
      by_cases got : command = bytes "get" ∨ command = bytes "gets"
      · obtain ⟨t, answer, state'⟩ := get_some (command = bytes "gets") beg
          { s with command := command }
        have other : command ≠ bytes "delete" := by
          rintro rfl
          revert got
          decide +kernel
        rw [if_pos got, answer, decide_eq_true other, Bool.true_or]
        exact .finished rfl (state'.trans state)
      rw [if_neg got]
      by_cases delete : command = bytes "delete"
      · rw [if_pos delete, decide_eq_false (not_not_intro delete), Bool.false_or]
        by_cases key : beg = []
        · rw [key]
          rfl
        · obtain ⟨t, deleted, state'⟩ := doDelete_some (s := { s with command := command }) key
          rw [deleted, decide_eq_true key]
          exact .finished rfl (state'.trans state)
      rw [if_neg delete, decide_eq_true delete, Bool.true_or]
      split_ifs
      · exact .finished rfl ((reply_state _ _).trans state)
      · exact .finished rfl state
      · exact .finished rfl state
      · exact .finished rfl ((reply_state _ _).trans state)

theorem processRequest_answers (state : s.state = .kNewCommand) (fresh : s.Fresh)
    (request : Bytes) :
    Answers (tokensSound (tokenizer spaceSeparator ((checkNoreply request).getD request)))
      (s.processRequest tokenizer request) := by
  rw [processRequest, if_pos ⟨fresh.command, fresh.noreply, fresh.policy,
    Option.isNone_iff_eq_none.mpr fresh.currItem, fresh.bytesToDiscard⟩]
  cases checkNoreply request with
  | none => exact processTokens_answers state fresh.currItem _
  | some request =>
    exact processTokens_answers (s := { s with noreply := true }) state fresh.currItem _

/-! ### A round -/

theorem storeValue_ready {item : Item} (stored : s.storeValue item = some t) : t.Ready := by
  obtain ⟨u, -, rfl⟩ := Option.map_eq_some_iff.mp stored
  exact ⟨rfl, rfl, rfl, rfl, rfl⟩

theorem storeValue_isSome {item : Item} (valid : s.policy ≠ .invalid) (all : item.neededBytes = 0) :
    (s.storeValue item).isSome ↔ ¬ crlf <:+ item.data ∨ s.server.fits item s.policy = true := by
  have length := Item.neededBytes_eq_zero.mp all
  rw [storeValue, Option.isSome_map]
  by_cases ends : crlf <:+ item.data
  · have whole : item.endsWithCRLF := ⟨length, ends⟩
    rw [dif_pos whole, Option.isSome_map, MemcacheServer.storeItem_isSome valid]
    exact (or_iff_right (not_not_intro ends)).symm
  · rw [dif_neg fun whole => ends whole.2]
    exact iff_of_true rfl (.inl ends)

theorem receiveValue_part {item : Item} (here : s.currItem = some item)
    (part : buf.length < item.neededBytes) : ∃ item', item.append buf = some item' ∧
      item'.neededBytes ≠ 0 ∧
      s.receiveValue buf = some (.goOn { s with currItem := some item' } []) := by
  obtain ⟨item', appended, -, -, -, needed⟩ := Item.append_some (Nat.le_of_lt part)
  have some_ : item'.neededBytes ≠ 0 := by omega
  refine ⟨item', appended, some_, ?_⟩
  rw [receiveValue, here, Option.bind_some]
  dsimp only
  rw [Nat.min_eq_left (Nat.le_of_lt part), List.take_length, appended, Option.bind_some,
    List.drop_length]
  exact if_neg some_

theorem receiveValue_all {item : Item} (here : s.currItem = some item)
    (all : item.neededBytes ≤ buf.length) : ∃ item',
      item.append (buf.take item.neededBytes) = some item' ∧ item'.neededBytes = 0 ∧
      item'.data = item.data ++ buf.take item.neededBytes ∧
      s.server.fits item' s.policy = s.server.fits item s.policy ∧
      s.receiveValue buf = (({ s with currItem := some item' } : Session).storeValue item').map
        fun s => .goOn s (buf.drop item.neededBytes) := by
  have length : (buf.take item.neededBytes).length = item.neededBytes := List.length_take_of_le all
  obtain ⟨item', appended, data, keylen, valuelen, needed⟩ := Item.append_some
    (Nat.le_of_eq length)
  have none_ : item'.neededBytes = 0 := by rw [needed, length, Nat.sub_self]
  refine ⟨item', appended, none_, data,
    MemcacheServer.fits_congr (Item.key_eq keylen data) keylen valuelen, ?_⟩
  rw [receiveValue, here, Option.bind_some]
  dsimp only
  rw [Nat.min_eq_right all, appended, Option.bind_some]
  exact if_pos none_

theorem round_newCommand (state : s.state = .kNewCommand) (buf : Bytes) :
    s.round tokenizer buf = match findSub crlf buf with
      | some n => if int32 n < 0 then none
        else (s.processRequest tokenizer (buf.take (int32 n).toNat)).map fun (finished, s) =>
          .goOn (if finished then s.resetRequest else s) (buf.drop (n + 2))
      | none => some (.wait (if buf.length > 1024 then s.shutdown else s)) := by
  rw [round, state]

theorem round_receiveValue (state : s.state = .kReceiveValue) (buf : Bytes) :
    s.round tokenizer buf = s.receiveValue buf := by
  rw [round, state]

theorem round_discardValue (state : s.state = .kDiscardValue) (buf : Bytes) :
    s.round tokenizer buf = s.discardValue buf := by
  rw [round, state]

theorem discardValue_eq (none_ : s.currItem = none) (buf : Bytes) :
    s.discardValue buf = if buf.length < s.bytesToDiscard then
      some (.goOn { s with bytesToDiscard := s.bytesToDiscard - buf.length } [])
    else some (.goOn { s.resetRequest with state := .kNewCommand } (buf.drop s.bytesToDiscard)) := by
  rw [discardValue, none_]
  rfl

theorem ready_newCommand (state : s.state = .kNewCommand) : s.Ready ↔ s.Fresh := by
  rw [Ready, state]

theorem round_isSome (tokenizes : Tokenizes tokenizer) (ready : s.Ready) :
    (s.round tokenizer buf).isSome ↔ s.sound buf = true := by
  rw [sound]
  cases state : s.state with
  | kNewCommand =>
    have fresh := (ready_newCommand state).mp ready
    rw [round_newCommand state]
    cases findSub crlf buf with
    | none => exact iff_of_true rfl rfl
    | some n =>
      have answers : ∀ request,
          (s.processRequest tokenizer request).isSome ↔ lineSound request = true := by
        intro request
        rw [(processRequest_answers state fresh request).isSome, tokenizer_eq tokenizes, lineSound]
      dsimp only
      rw [Option.all_some]
      by_cases negative : int32 n < 0
      · rw [if_pos negative, decide_eq_false (Int.not_le.mpr negative), Bool.false_and]
        exact Iff.rfl
      · rw [if_neg negative, Option.isSome_map, answers,
          decide_eq_true (Int.not_lt.mp negative), Bool.true_and]
  | kReceiveValue =>
    rw [Ready, state] at ready
    obtain ⟨valid, item, here, -⟩ := ready
    rw [round_receiveValue state, here, Option.all_some]
    by_cases part : buf.length < item.neededBytes
    · obtain ⟨item', -, -, received⟩ := receiveValue_part here part
      rw [received, decide_eq_true part, Bool.true_or, Bool.true_or]
      exact iff_of_true rfl rfl
    · obtain ⟨item', -, none_, data, fits, received⟩ := receiveValue_all here (Nat.not_lt.mp part)
      have stored := storeValue_isSome (s := { s with currItem := some item' }) valid none_
      rw [received, Option.isSome_map, stored, data, decide_eq_false part, Bool.false_or,
        Bool.or_eq_true, decide_eq_true_iff, ← fits]
  | kDiscardValue =>
    rw [Ready, state] at ready
    rw [round_discardValue state, discardValue_eq ready.1]
    split <;> exact iff_of_true rfl rfl

theorem receiveValue_goes (u : Session) : s.receiveValue buf ≠ some (.wait u) := by
  rw [receiveValue]
  intro waits
  obtain ⟨item, -, waits⟩ := Option.bind_eq_some_iff.mp waits
  obtain ⟨item', -, waits⟩ := Option.bind_eq_some_iff.mp waits
  dsimp only at waits
  split_ifs at waits
  · obtain ⟨_, -, same⟩ := Option.map_eq_some_iff.mp waits
    cases same
  · cases waits

theorem discardValue_goes (u : Session) : s.discardValue buf ≠ some (.wait u) := by
  rw [discardValue]
  split_ifs <;> exact nofun

/-! ### Cuts of the stream -/

def Calm (s : Session) (left : Bytes) : Prop := s.state = .kNewCommand → left.length ≤ 1024

theorem round_goes {left : Bytes} (ready : s.Ready) (some_ : buf ≠ [])
    (rounded : s.round tokenizer buf = some (.goOn t left)) : t.Ready ∧ left.length < buf.length := by
  have positive := List.length_pos_iff.mpr some_
  cases state : s.state with
  | kNewCommand =>
    have fresh := (ready_newCommand state).mp ready
    rw [round_newCommand state] at rounded
    cases found : findSub crlf buf with
    | none =>
      rw [found] at rounded
      cases rounded
    | some n =>
      have le : n + 2 ≤ buf.length := findSub_le found
      rw [found] at rounded
      dsimp only at rounded
      split_ifs at rounded
      obtain ⟨⟨finished, u⟩, processed, same⟩ := Option.map_eq_some_iff.mp rounded
      have next := (processed ▸ processRequest_answers state fresh _).next
      cases same
      refine ⟨?_, by rw [List.length_drop]; omega⟩
      cases finished with
      | true => exact (ready_newCommand (s := u.resetRequest) next).mpr (resetRequest_fresh u)
      | false => exact next
  | kReceiveValue =>
    have ready' := ready
    rw [Ready, state] at ready'
    obtain ⟨valid, item, here, needed⟩ := ready'
    rw [round_receiveValue state] at rounded
    by_cases part : buf.length < item.neededBytes
    · obtain ⟨item', -, needed', received⟩ := receiveValue_part here part
      cases received.symm.trans rounded
      refine ⟨?_, positive⟩
      rw [Ready]
      dsimp only
      rw [state]
      exact ⟨valid, item', rfl, needed'⟩
    · obtain ⟨item', -, -, -, -, received⟩ := receiveValue_all here (Nat.not_lt.mp part)
      obtain ⟨u, stored, same⟩ := Option.map_eq_some_iff.mp (received.symm.trans rounded)
      cases same
      exact ⟨storeValue_ready stored, by rw [List.length_drop]; omega⟩
  | kDiscardValue =>
    have ready' := ready
    rw [Ready, state] at ready'
    obtain ⟨none_, bytes⟩ := ready'
    rw [round_discardValue state, discardValue_eq none_] at rounded
    split_ifs at rounded with part
    · cases rounded
      refine ⟨?_, positive⟩
      rw [Ready]
      dsimp only
      rw [state]
      exact ⟨none_, Nat.sub_ne_zero_of_lt part⟩
    · cases rounded
      exact ⟨⟨rfl, rfl, rfl, rfl, rfl⟩, by rw [List.length_drop]; omega⟩

theorem round_waits (ready : s.Ready) (rounded : s.round tokenizer buf = some (.wait t)) :
    t.Ready ∧ (t.Calm buf → t = s) := by
  cases state : s.state with
  | kNewCommand =>
    rw [round_newCommand state] at rounded
    cases found : findSub crlf buf with
    | none =>
      rw [found] at rounded
      cases rounded
      split_ifs with long
      · have fresh := (ready_newCommand state).mp ready
        refine ⟨(ready_newCommand (s := s.shutdown) state).mpr
          ⟨fresh.command, fresh.noreply, fresh.policy, fresh.currItem, fresh.bytesToDiscard⟩, ?_⟩
        exact fun calm => absurd (calm state) (Nat.not_le.mpr long)
      · exact ⟨ready, fun _ => rfl⟩
    | some n =>
      rw [found] at rounded
      dsimp only at rounded
      split_ifs at rounded
      obtain ⟨_, -, same⟩ := Option.map_eq_some_iff.mp rounded
      cases same
  | kReceiveValue =>
    exact absurd ((round_receiveValue state buf).symm.trans rounded) (receiveValue_goes t)
  | kDiscardValue =>
    exact absurd ((round_discardValue state buf).symm.trans rounded) (discardValue_goes t)

theorem receiveValue_append {item item' : Item} (here : s.currItem = some item)
    (part : buf.length < item.neededBytes) (appended : item.append buf = some item') :
    s.receiveValue (buf ++ more) = ({ s with currItem := some item' } : Session).receiveValue more := by
  obtain ⟨item₁, appended₁, -, -, -, needed⟩ := Item.append_some (Nat.le_of_lt part)
  cases appended.symm.trans appended₁
  have avail : min (buf ++ more).length item.neededBytes =
      buf.length + min more.length item'.neededBytes := by
    rw [List.length_append, needed]
    omega
  rw [receiveValue, receiveValue, here, Option.bind_some, Option.bind_some]
  dsimp only
  rw [avail, List.take_length_add_append, List.drop_length_add_append, ← Item.append_append,
    appended, Option.bind_some]

theorem discardValue_append (none_ : s.currItem = none) (part : buf.length < s.bytesToDiscard) :
    s.discardValue (buf ++ more) = ({ s with bytesToDiscard := s.bytesToDiscard - buf.length } :
      Session).discardValue more := by
  rw [discardValue_eq none_, discardValue_eq
    (s := { s with bytesToDiscard := s.bytesToDiscard - buf.length }) none_]
  dsimp only
  rw [List.length_append, List.drop_append, List.drop_eq_nil_of_le (Nat.le_of_lt part),
    List.nil_append, Nat.sub_add_eq]
  by_cases more' : buf.length + more.length < s.bytesToDiscard
  · rw [if_pos more', if_pos (by omega)]
  · rw [if_neg more', if_neg (by omega)]
    rfl

theorem round_append (ready : s.Ready) (more : Bytes) :
    (s.round tokenizer buf = none → s.round tokenizer (buf ++ more) = none) ∧
    ∀ t left, s.round tokenizer buf = some (.goOn t left) →
      s.round tokenizer (buf ++ more) = some (.goOn t (left ++ more)) ∨
        left = [] ∧ s.round tokenizer (buf ++ more) = t.round tokenizer more ∧ ∀ u, t.round tokenizer more ≠ some (.wait u) := by
  cases state : s.state with
  | kNewCommand =>
    rw [round_newCommand state, round_newCommand state]
    cases found : findSub crlf buf with
    | none => exact ⟨(nomatch ·), fun _ _ same => nomatch same⟩
    | some n =>
      have le : n + 2 ≤ buf.length := findSub_le found
      rw [findSub_append found]
      dsimp only
      by_cases negative : int32 n < 0
      · rw [if_pos negative, if_pos negative]
        exact ⟨fun _ => rfl, fun _ _ same => nomatch same⟩
      have short := int32_le (Int.not_lt.mp negative)
      rw [if_neg negative, if_neg negative, List.take_append_of_le_length (by omega),
        List.drop_append_of_le_length le]
      cases s.processRequest tokenizer (buf.take (int32 n).toNat) with
      | none => exact ⟨fun _ => rfl, fun _ _ same => nomatch same⟩
      | some result =>
        refine ⟨(nomatch ·), fun t left same => .inl ?_⟩
        cases same
        rfl
  | kReceiveValue =>
    rw [Ready, state] at ready
    obtain ⟨valid, item, here, -⟩ := ready
    rw [round_receiveValue state, round_receiveValue state]
    by_cases part : buf.length < item.neededBytes
    · obtain ⟨item', appended, -, received⟩ := receiveValue_part here part
      rw [received]
      refine ⟨(nomatch ·), fun t left same => .inr ?_⟩
      cases same
      have goes := @round_receiveValue tokenizer { s with currItem := some item' } state more
      rw [goes]
      exact ⟨rfl, receiveValue_append here part appended, receiveValue_goes⟩
    · have all := Nat.not_lt.mp part
      obtain ⟨item', appended, -, -, -, received⟩ := receiveValue_all here all
      have long : item.neededBytes ≤ (buf ++ more).length := by
        rw [List.length_append]
        omega
      obtain ⟨item₁, appended₁, -, -, -, received₁⟩ := receiveValue_all here long
      rw [List.take_append_of_le_length all] at appended₁
      cases appended.symm.trans appended₁
      rw [received, received₁, List.drop_append_of_le_length all]
      cases ({ s with currItem := some item' } : Session).storeValue item' with
      | none => exact ⟨fun _ => rfl, fun _ _ same => nomatch same⟩
      | some u =>
        refine ⟨(nomatch ·), fun t left same => .inl ?_⟩
        cases same
        rfl
  | kDiscardValue =>
    rw [Ready, state] at ready
    rw [round_discardValue state, round_discardValue state]
    by_cases part : buf.length < s.bytesToDiscard
    · rw [discardValue_eq ready.1 buf, if_pos part]
      refine ⟨(nomatch ·), fun t left same => .inr ?_⟩
      cases same
      have goes := @round_discardValue tokenizer
        { s with bytesToDiscard := s.bytesToDiscard - buf.length } state more
      rw [goes]
      exact ⟨rfl, discardValue_append ready.1 part, discardValue_goes⟩
    · have long : ¬ (buf ++ more).length < s.bytesToDiscard := by
        rw [List.length_append]
        omega
      rw [discardValue_eq ready.1, discardValue_eq ready.1, if_neg part, if_neg long,
        List.drop_append_of_le_length (Nat.not_lt.mp part)]
      refine ⟨(nomatch ·), fun t left same => .inl ?_⟩
      cases same
      rfl

theorem round_cutFree (tokenizer : Tokenizer) : CutFree (round tokenizer) Ready Calm where
  goes := round_goes
  waits ready _ := round_waits ready
  fails more ready _ := (round_append ready more).1
  grows more ready _ _ := (round_append ready more).2 _ _

end Session

/-! ### The calls -/

def Short (tokenizer : Tokenizer) (server : MemcacheServer) (calls : List Bytes) : Prop :=
  ∀ first c, first <+: calls → exec (machine tokenizer server) (.new server, []) first = some c →
    c.1.Calm c.2

theorem short_of_length {tokenizer : Tokenizer} {server : MemcacheServer} {calls : List Bytes}
    (short : calls.flatten.length ≤ 1024) : Short tokenizer server calls := by
  rintro first c ⟨rest, rfl⟩ ran -
  have le := exec_length (Session.round_cutFree tokenizer) (Session.new_ready server) ran
  rw [List.flatten_append, List.length_append] at short
  rw [List.length_nil] at le
  omega

/-- On every stream of bytes in any pieces: the calls return, and no assertion fails, if and only if
every round is sound that a call begins with what the calls before it have left. Two short cuts of
one stream leave the same session, replies and table. -/
theorem messages_return_iff (tokenizer : Tokenizer) (tokenizes : Tokenizes tokenizer)
    (server : MemcacheServer) (calls : List Bytes) :
    ((exec (machine tokenizer server) (.new server, []) calls).isSome ↔
      ∀ first chunk c, first ++ [chunk] <+: calls →
        exec (machine tokenizer server) (.new server, []) first = some c →
          CallOk (Session.round tokenizer) Session.sound c chunk) ∧
    ∀ calls', calls'.flatten = calls.flatten →
      Short tokenizer server calls → Short tokenizer server calls' →
        exec (machine tokenizer server) (.new server, []) calls' =
          exec (machine tokenizer server) (.new server, []) calls := by
  have ready := Session.new_ready server
  have cutFree := Session.round_cutFree tokenizer
  refine ⟨exec_isSome cutFree (fun ready _ => Session.round_isSome tokenizes ready) ready, ?_⟩
  intro calls' same short short'
  exact exec_cuts cutFree ready same short short'

theorem calls_return_set :
    (exec (machine listTokenizer (.new 0)) (.new (.new 0), [])
      [bytes "set k 0 0 1\r", bytes "\nx", bytes "\r\n"]).isSome = true ∧
    exec (machine listTokenizer (.new 0)) (.new (.new 0), [])
        [bytes "set k 0 0 1\r", bytes "\nx", bytes "\r\n"] =
      exec (machine listTokenizer (.new 0)) (.new (.new 0), []) [bytes "set k 0 0 1\r\nx\r\n"] := by
  have returns := messages_return_iff listTokenizer listTokenizer_tokenizes (.new 0)
    [bytes "set k 0 0 1\r\nx\r\n"]
  have same := returns.2 [bytes "set k 0 0 1\r", bytes "\nx", bytes "\r\n"] (by decide +kernel)
    (short_of_length (by decide +kernel)) (short_of_length (by decide +kernel))
  refine ⟨?_, same⟩
  rw [same]
  refine returns.1.mpr fun first chunk c part ran => ?_
  cases first with
  | nil =>
    obtain ⟨rfl, -⟩ := List.cons_prefix_cons.mp part
    cases ran
    decide +kernel
  | cons call first =>
    have two := part.length_le
    rw [List.length_append, List.length_cons] at two
    simp at two

theorem calls_fail :
    (exec (machine listTokenizer (.new 0)) (.new (.new 0), []) [bytes "set\r\n"]).isSome = false ∧
    (exec (machine listTokenizer (.new 0)) (.new (.new 0), [])
      [bytes "delete\r\n"]).isSome = false ∧
    (exec (machine listTokenizer (.new 0)) (.new (.new 0), [])
      [bytes "set k 0 0 4294967295\r\n"]).isSome = false := by
  decide +kernel

end ProjectsCpp.Memcached
