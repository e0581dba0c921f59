import ProjectsCpp.Lib.Pending
import ProjectsCpp.Lib.Run

/-! Two RPC channels on one connection (`muduo/net/protorpc/RpcChannel.cc`): a client whose threads
call, and a server. The critical sections of `CallMethod` are steps of their own, and a service may
run its `done` at any later time. What the services parse and answer is a parameter. A failing
assertion gives `none`. -/

namespace ProjectsCpp.MuduoNet.RpcChannel
open ProjectsCpp.Pending ProjectsCpp.Run

inductive ErrorCode where
  | NO_ERROR | WRONG_PROTO | NO_SERVICE | NO_METHOD | INVALID_REQUEST | INVALID_RESPONSE | TIMEOUT
deriving DecidableEq

inductive MessageType where
  | REQUEST | RESPONSE | ERROR

structure RpcMessage (N B : Type) where
  type : MessageType
  id : BitVec 64
  service : N
  method : N
  request : B
  response : Option B
  error : Option ErrorCode

/-- A service: its methods, and which requests they can parse. -/
structure Service (N B : Type) where
  FindMethodByName : N → Bool
  ParseFromString : N → B → Bool

/-- What a caller gives to `CallMethod`; `done` is the closure. -/
structure Call (N B κ : Type) where
  service : N
  method : N
  request : B
  done : κ

/-- `counted` and `inserted` are the threads in `CallMethod`, `running` the requests that a service
has and has not answered, `sent` what is on its way, and `finished` the closures that have run, with
what was parsed into the response. -/
structure Channel (N B κ : Type) where
  services_ : Option (N → Option (Service N B))
  outstandings_ : Table κ
  counted : List (BitVec 64 × Call N B κ)
  inserted : List (BitVec 64 × Call N B κ)
  running : List (BitVec 64 × N × N × B)
  sent : List (RpcMessage N B)
  finished : List (κ × Option B)

variable {N B κ : Type} [Inhabited N] [Inhabited B]

def request (id : BitVec 64) (call : Call N B κ) : RpcMessage N B :=
  ⟨.REQUEST, id, call.service, call.method, call.request, none, none⟩

def response (id : BitVec 64) (response : Option B) (error : Option ErrorCode) : RpcMessage N B :=
  ⟨.RESPONSE, id, default, default, default, response, error⟩

namespace Channel

def new (services_ : Option (N → Option (Service N B))) : Channel N B κ :=
  ⟨services_, .new, [], [], [], [], []⟩

def lookup (c : Channel N B κ) (message : RpcMessage N B) : ErrorCode :=
  match c.services_ with
  | none => .NO_SERVICE
  | some services => match services message.service with
    | none => .NO_SERVICE
    | some service =>
      if service.FindMethodByName message.method then
        if service.ParseFromString message.method message.request then .NO_ERROR else .INVALID_REQUEST
      else .NO_METHOD

def onRpcMessage (c : Channel N B κ) (message : RpcMessage N B) : Option (Channel N B κ) :=
  match message.type with
  | .RESPONSE =>
    if message.response.isSome ∨ message.error.isSome then
      match c.outstandings_.entries message.id with
      | some done => some { c with
        outstandings_ := c.outstandings_.erase message.id
        finished := c.finished ++ [(done, message.response)] }
      | none => some c
    else none
  | .REQUEST =>
    let error := c.lookup message
    if error = .NO_ERROR then some { c with
      running := c.running ++ [(message.id, message.service, message.method, message.request)] }
    else some { c with sent := c.sent ++ [response message.id none (some error)] }
  | .ERROR => some c

end Channel

structure Net (N B κ : Type) where
  client : Channel N B κ
  server : Channel N B κ
  calls : List (Call N B κ)
  answers : List (BitVec 64 × B)

/-- `insert` and `send` are the next steps of some thread in `CallMethod`. -/
inductive Step (N B κ : Type) where
  | call (call : Call N B κ)
  | insert (k : Nat)
  | send (k : Nat)
  | toServer
  | done (k : Nat) (answer : B)
  | toClient

def step (s : Net N B κ) : Step N B κ → Option (Net N B κ)
  | .call call =>
    let table := s.client.outstandings_.count
    some { s with
      client := { s.client with
        outstandings_ := table
        counted := s.client.counted ++ [(table.last, call)] }
      calls := s.calls ++ [call] }
  | .insert k => s.client.counted[k]?.map fun entry => { s with
      client := { s.client with
        outstandings_ := s.client.outstandings_.insert entry.1 entry.2.done
        counted := s.client.counted.eraseIdx k
        inserted := s.client.inserted ++ [entry] } }
  | .send k => s.client.inserted[k]?.map fun entry => { s with
      client := { s.client with
        inserted := s.client.inserted.eraseIdx k
        sent := s.client.sent ++ [request entry.1 entry.2] } }
  | .toServer => match s.client.sent with
    | [] => none
    | message :: sent => (s.server.onRpcMessage message).map fun server => { s with
      client := { s.client with sent }
      server }
  | .done k answer => s.server.running[k]?.map fun entry => { s with
      server := { s.server with
        running := s.server.running.eraseIdx k
        sent := s.server.sent ++ [response entry.1 (some answer) none] }
      answers := s.answers ++ [(entry.1, answer)] }
  | .toClient => match s.server.sent with
    | [] => none
    | message :: sent => (s.client.onRpcMessage message).map fun client => { s with
      server := { s.server with sent }
      client }

def machine (services : Option (N → Option (Service N B))) : Machine (Net N B κ) (Step N B κ) where
  start s := s = ⟨.new none, .new services, [], []⟩
  step := step

def Room (s : Net N B κ) : Step N B κ → Prop
  | .call _ => s.client.outstandings_.last.toNat + 1 < 2 ^ 64
  | _ => True

/-! ### The calls and where they are -/

inductive Stage (B : Type) where
  | counted
  | inserted
  | requested
  | running
  | answered (answer : B)
  | refused (error : ErrorCode)
  | finished (result : Option B)

structure Record (N B κ : Type) where
  call : Call N B κ
  stage : Stage B

namespace Record

/-- What is in `outstandings_`. -/
def outstanding (e : Record N B κ) : Option κ :=
  match e.stage with
  | .counted => none
  | .finished _ => none
  | _ => some e.call.done

def counted (item : BitVec 64 × Record N B κ) : Option (BitVec 64 × Call N B κ) :=
  match item.2.stage with
  | .counted => some (item.1, item.2.call)
  | _ => none

def inserted (item : BitVec 64 × Record N B κ) : Option (BitVec 64 × Call N B κ) :=
  match item.2.stage with
  | .inserted => some (item.1, item.2.call)
  | _ => none

def requested (item : BitVec 64 × Record N B κ) : Option (RpcMessage N B) :=
  match item.2.stage with
  | .requested => some (request item.1 item.2.call)
  | _ => none

def running (item : BitVec 64 × Record N B κ) : Option (BitVec 64 × N × N × B) :=
  match item.2.stage with
  | .running => some (item.1, item.2.call.service, item.2.call.method, item.2.call.request)
  | _ => none

def replied (item : BitVec 64 × Record N B κ) : Option (RpcMessage N B) :=
  match item.2.stage with
  | .answered answer => some (response item.1 (some answer) none)
  | .refused error => some (response item.1 none (some error))
  | _ => none

def answered (item : BitVec 64 × Record N B κ) : Option (BitVec 64 × B) :=
  match item.2.stage with
  | .answered answer => some (item.1, answer)
  | .finished (some answer) => some (item.1, answer)
  | _ => none

def finished (item : BitVec 64 × Record N B κ) : Option (κ × Option B) :=
  match item.2.stage with
  | .finished result => some (item.2.call.done, result)
  | _ => none

/-- The service has been asked exactly if there is one that takes the request. -/
def Right (services : Option (N → Option (Service N B))) (e : Record N B κ) : Prop :=
  let error := (Channel.new services : Channel N B κ).lookup (request 0 e.call)
  match e.stage with
  | .running | .answered _ | .finished (some _) => error = .NO_ERROR
  | .refused code => error = code ∧ code ≠ .NO_ERROR
  | .finished none => error ≠ .NO_ERROR
  | _ => True

end Record

/-- `log` has the calls in the order of their ids, and where each of them is. -/
structure Kept (services : Option (N → Option (Service N B))) (s : Net N B κ)
    (log : List (Record N B κ)) : Prop where
  serves : s.server.services_ = services
  calls : s.calls = log.map Record.call
  shows : s.client.outstandings_.Shows Record.outstanding log
  counted : Holds Record.counted s.client.counted log
  inserted : Holds Record.inserted s.client.inserted log
  requested : Holds Record.requested s.client.sent log
  running : Holds Record.running s.server.running log
  replied : Holds Record.replied s.server.sent log
  answered : Holds Record.answered s.answers log
  finished : Holds Record.finished s.client.finished log
  right : ∀ e ∈ log, e.Right services

variable {services : Option (N → Option (Service N B))} {s t : Net N B κ} {log : List (Record N B κ)}

theorem Kept.start : Kept services (⟨.new none, .new services, [], []⟩ : Net N B κ) [] where
  serves := rfl
  calls := rfl
  shows := .new _
  counted := .refl _
  inserted := .refl _
  requested := .refl _
  running := .refl _
  replied := .refl _
  answered := .refl _
  finished := .refl _
  right e member := by cases member

theorem Kept.call (kept : Kept services s log) (call : Call N B κ)
    (room : s.client.outstandings_.last.toNat + 1 < 2 ^ 64) (next : step s (.call call) = some t) :
    Kept services t (log ++ [⟨call, .counted⟩]) := by
  have room : log.length + 1 < 2 ^ 64 := by
    rwa [kept.shows.last, BitVec.toNat_ofNat, Nat.mod_eq_of_lt kept.shows.few] at room
  obtain ⟨last, shows⟩ := kept.shows.count (e := (⟨call, .counted⟩ : Record N B κ)) room rfl
  obtain rfl := Option.some.inj next
  refine ⟨kept.serves, by simp [kept.calls], shows, ?_, kept.inserted.concat rfl,
    kept.requested.concat rfl, kept.running.concat rfl, kept.replied.concat rfl,
    kept.answered.concat rfl, kept.finished.concat rfl, fun e member => ?_⟩
  · rw [last]
    exact kept.counted.concat_some rfl
  · rcases List.mem_append.mp member with old | new
    · exact kept.right e old
    · rw [List.mem_singleton.mp new]
      trivial

omit [Inhabited N] [Inhabited B] in
theorem map_call_set {n : Nat} {call : Call N B κ} {stage : Stage B} (there : log[n]? = some ⟨call, stage⟩)
    (stage' : Stage B) : (log.set n ⟨call, stage'⟩).map Record.call = log.map Record.call := by
  obtain ⟨inside, same⟩ := List.getElem?_eq_some_iff.mp there
  have inside : n < (log.map Record.call).length := by simpa using inside
  have own : (log.map Record.call)[n] = call := by simp [same]
  rw [List.map_set, ← own, List.set_getElem_self]

theorem Kept.right_set (kept : Kept services s log) {n : Nat} {e : Record N B κ}
    (new : e.Right services) : ∀ f ∈ log.set n e, f.Right services := by
  intro f member
  rcases List.mem_or_eq_of_mem_set member with old | rfl
  · exact kept.right f old
  · exact new

theorem Kept.insert (kept : Kept services s log) {k : Nat} (next : step s (.insert k) = some t) :
    ∃ log', Kept services t log' := by
  obtain ⟨entry, found, rfl⟩ := Option.map_eq_some_iff.mp next
  obtain ⟨n, ⟨call, stage⟩, there, its⟩ := kept.counted.mem (List.mem_of_getElem? found)
  cases stage <;> simp [Record.counted] at its
  subst its
  exact ⟨log.set n ⟨call, .inserted⟩, kept.serves, kept.calls.trans (map_call_set there _).symm,
    kept.shows.insert there _ rfl, kept.counted.leave there (perm_eraseIdx found) rfl rfl,
    kept.inserted.enter there rfl rfl, kept.requested.keep there rfl, kept.running.keep there rfl,
    kept.replied.keep there rfl, kept.answered.keep there rfl, kept.finished.keep there rfl,
    kept.right_set trivial⟩

theorem Kept.send (kept : Kept services s log) {k : Nat} (next : step s (.send k) = some t) :
    ∃ log', Kept services t log' := by
  obtain ⟨entry, found, rfl⟩ := Option.map_eq_some_iff.mp next
  obtain ⟨n, ⟨call, stage⟩, there, its⟩ := kept.inserted.mem (List.mem_of_getElem? found)
  cases stage <;> simp [Record.inserted] at its
  subst its
  exact ⟨log.set n ⟨call, .requested⟩, kept.serves, kept.calls.trans (map_call_set there _).symm,
    kept.shows.keep there _ rfl,
    kept.counted.keep there rfl, kept.inserted.leave there (perm_eraseIdx found) rfl rfl,
    kept.requested.enter there rfl rfl, kept.running.keep there rfl, kept.replied.keep there rfl,
    kept.answered.keep there rfl, kept.finished.keep there rfl, kept.right_set trivial⟩

section
omit [Inhabited N] [Inhabited B]
variable {c : Channel N B κ} {id : BitVec 64} {call : Call N B κ}

theorem lookup_request (serves : c.services_ = services) (id : BitVec 64) (call : Call N B κ) :
    c.lookup (request id call) = (Channel.new services : Channel N B κ).lookup (request 0 call) := by
  subst serves
  rfl

end

section
variable {c : Channel N B κ} {id : BitVec 64} {call : Call N B κ}

theorem onRpcMessage_taken (taken : c.lookup (request id call) = .NO_ERROR) :
    c.onRpcMessage (request id call) = some { c with
      running := c.running ++ [(id, call.service, call.method, call.request)] } := if_pos taken

theorem onRpcMessage_refused (refused : c.lookup (request id call) ≠ .NO_ERROR) :
    c.onRpcMessage (request id call) = some { c with
      sent := c.sent ++ [response id none (some (c.lookup (request id call)))] } := if_neg refused

theorem onRpcMessage_response {done : κ} (waits : c.outstandings_.entries id = some done)
    (result : Option B) (error : Option ErrorCode) (full : result.isSome ∨ error.isSome) :
    c.onRpcMessage (response id result error) = some { c with
      outstandings_ := c.outstandings_.erase id
      finished := c.finished ++ [(done, result)] } := by
  simp only [Channel.onRpcMessage, response, if_pos full, waits]

end

theorem Kept.toServer (kept : Kept services s log) {message : RpcMessage N B}
    {sent : List (RpcMessage N B)} (front : s.client.sent = message :: sent) :
    ∃ t log', step s .toServer = some t ∧ Kept services t log' := by
  obtain ⟨n, ⟨call, stage⟩, there, its⟩ := kept.requested.mem (front ▸ List.mem_cons_self)
  cases stage <;> simp [Record.requested] at its
  subst its
  have requested := kept.requested
  rw [front] at requested
  have same := lookup_request kept.serves (Table.idOf n) call
  rw [step, front]
  by_cases taken : s.server.lookup (request (Table.idOf n) call) = .NO_ERROR
  · simp only [onRpcMessage_taken taken, Option.map_some]
    exact ⟨_, log.set n ⟨call, .running⟩, rfl, kept.serves, kept.calls.trans (map_call_set there _).symm,
      kept.shows.keep there _ rfl, kept.counted.keep there rfl, kept.inserted.keep there rfl,
      requested.leave there (.refl _) rfl rfl, kept.running.enter there rfl rfl,
      kept.replied.keep there rfl, kept.answered.keep there rfl, kept.finished.keep there rfl,
      kept.right_set (same.symm.trans taken)⟩
  · simp only [onRpcMessage_refused taken, Option.map_some]
    exact ⟨_, log.set n ⟨call, .refused (s.server.lookup (request (Table.idOf n) call))⟩, rfl,
      kept.serves, kept.calls.trans (map_call_set there _).symm, kept.shows.keep there _ rfl,
      kept.counted.keep there rfl, kept.inserted.keep there rfl, requested.leave there (.refl _) rfl rfl,
      kept.running.keep there rfl, kept.replied.enter there rfl rfl, kept.answered.keep there rfl,
      kept.finished.keep there rfl, kept.right_set ⟨same.symm, taken⟩⟩

theorem Kept.done (kept : Kept services s log) {k : Nat} {answer : B}
    (next : step s (.done k answer) = some t) : ∃ log', Kept services t log' := by
  obtain ⟨entry, found, rfl⟩ := Option.map_eq_some_iff.mp next
  obtain ⟨n, ⟨call, stage⟩, there, its⟩ := kept.running.mem (List.mem_of_getElem? found)
  cases stage <;> simp [Record.running] at its
  subst its
  have right := kept.right _ (List.mem_of_getElem? there)
  exact ⟨log.set n ⟨call, .answered answer⟩, kept.serves, kept.calls.trans (map_call_set there _).symm,
    kept.shows.keep there _ rfl, kept.counted.keep there rfl, kept.inserted.keep there rfl,
    kept.requested.keep there rfl, kept.running.leave there (perm_eraseIdx found) rfl rfl,
    kept.replied.enter there rfl rfl, kept.answered.enter there rfl rfl, kept.finished.keep there rfl,
    kept.right_set right⟩

theorem Kept.toClient (kept : Kept services s log) {message : RpcMessage N B}
    {sent : List (RpcMessage N B)} (front : s.server.sent = message :: sent) :
    ∃ t log', step s .toClient = some t ∧ Kept services t log' := by
  obtain ⟨n, ⟨call, stage⟩, there, its⟩ := kept.replied.mem (front ▸ List.mem_cons_self)
  have replied := kept.replied
  rw [front] at replied
  have waits := kept.shows.here n _ there
  have right := kept.right _ (List.mem_of_getElem? there)
  rw [step, front]
  cases stage <;> simp [Record.replied] at its
  · rename_i answer
    subst its
    simp only [onRpcMessage_response waits (some answer) none (.inl rfl), Option.map_some]
    exact ⟨_, log.set n ⟨call, .finished (some answer)⟩, rfl, kept.serves,
      kept.calls.trans (map_call_set there _).symm, kept.shows.erase there _ rfl,
      kept.counted.keep there rfl, kept.inserted.keep there rfl, kept.requested.keep there rfl,
      kept.running.keep there rfl, replied.leave there (.refl _) rfl rfl,
      kept.answered.keep there rfl, kept.finished.enter there rfl rfl, kept.right_set right⟩
  · rename_i error
    subst its
    simp only [onRpcMessage_response waits none (some error) (.inr rfl), Option.map_some]
    exact ⟨_, log.set n ⟨call, .finished none⟩, rfl, kept.serves,
      kept.calls.trans (map_call_set there _).symm, kept.shows.erase there _ rfl,
      kept.counted.keep there rfl, kept.inserted.keep there rfl, kept.requested.keep there rfl,
      kept.running.keep there rfl, replied.leave there (.refl _) rfl rfl,
      kept.answered.keep there rfl, kept.finished.enter there rfl rfl,
      kept.right_set fun clean => right.2 (right.1.symm.trans clean)⟩

theorem kept_of_reach (reach : Reach (machine services) Room s) : ∃ log, Kept services s log := by
  refine reach.invariant (P := fun s => ∃ log, Kept services s log) ?_ ?_
  · rintro s rfl
    exact ⟨[], .start⟩
  · rintro s a t ⟨log, kept⟩ room next
    change step s a = some t at next
    cases a with
    | call call => exact ⟨_, kept.call call room next⟩
    | insert k => exact kept.insert next
    | send k => exact kept.send next
    | done k answer => exact kept.done next
    | toServer =>
      cases front : s.client.sent with
      | nil => simp [step, front] at next
      | cons message sent =>
        obtain ⟨u, log', done, kept'⟩ := kept.toServer front
        exact ⟨log', Option.some.inj (done.symm.trans next) ▸ kept'⟩
    | toClient =>
      cases front : s.server.sent with
      | nil => simp [step, front] at next
      | cons message sent =>
        obtain ⟨u, log', done, kept'⟩ := kept.toClient front
        exact ⟨log', Option.some.inj (done.symm.trans next) ▸ kept'⟩

structure AtRest (s : Net N B κ) : Prop where
  counted : s.client.counted = []
  inserted : s.client.inserted = []
  requested : s.client.sent = []
  running : s.server.running = []
  replied : s.server.sent = []

theorem Kept.finished_of_rest (kept : Kept services s log) (rest : AtRest s) {n : Nat}
    {e : Record N B κ} (there : log[n]? = some e) : ∃ result, e.stage = .finished result := by
  have counted := Holds.empty (rest.counted ▸ kept.counted) there
  have inserted := Holds.empty (rest.inserted ▸ kept.inserted) there
  have requested := Holds.empty (rest.requested ▸ kept.requested) there
  have running := Holds.empty (rest.running ▸ kept.running) there
  have replied := Holds.empty (rest.replied ▸ kept.replied) there
  obtain ⟨call, stage⟩ := e
  cases stage with
  | counted => cases counted
  | inserted => cases inserted
  | requested => cases requested
  | running => cases running
  | answered answer => cases replied
  | refused error => cases replied
  | finished result => exact ⟨result, rfl⟩

/-- Whatever the threads, the services and the connection do in between: the closure of a call runs at
most once, with the answer that a service gave under its id, or with none if no service takes the
request. When nothing is on its way all of them have run, and nothing is outstanding. -/
theorem calls_answered (reach : Reach (machine services) Room s) :
    (∃ log : List (Record N B κ), s.calls = log.map Record.call ∧
      s.client.finished.Perm ((items log).filterMap Record.finished) ∧
      s.answers.Perm ((items log).filterMap Record.answered) ∧
      (∀ e ∈ log, e.Right services) ∧
      (AtRest s → (∀ e ∈ log, ∃ result, e.stage = .finished result) ∧
        ∀ id, s.client.outstandings_.entries id = none)) ∧
    (s.client.sent ≠ [] → (step s .toServer).isSome) ∧
    (s.server.sent ≠ [] → (step s .toClient).isSome) := by
  obtain ⟨log, kept⟩ := kept_of_reach reach
  refine ⟨⟨log, kept.calls, kept.finished, kept.answered, kept.right, fun rest => ⟨fun e member => ?_,
    fun id => ?_⟩⟩, fun some_ => ?_, fun some_ => ?_⟩
  · obtain ⟨n, there⟩ := List.getElem?_of_mem member
    exact kept.finished_of_rest rest there
  · cases found : s.client.outstandings_.entries id with
    | none => rfl
    | some done =>
      obtain ⟨n, e, there, -, view⟩ := kept.shows.find found
      obtain ⟨result, its⟩ := kept.finished_of_rest rest there
      simp [Record.outstanding, its] at view
  · obtain ⟨message, sent, front⟩ := List.exists_cons_of_ne_nil some_
    obtain ⟨t, log', done, -⟩ := kept.toServer front
    exact Option.isSome_of_eq_some done
  · obtain ⟨message, sent, front⟩ := List.exists_cons_of_ne_nil some_
    obtain ⟨t, log', done, -⟩ := kept.toClient front
    exact Option.isSome_of_eq_some done

instance (s : Net N B κ) (a : Step N B κ) : Decidable (Room s a) := by
  cases a with
  | call call => exact inferInstanceAs (Decidable (_ < _))
  | insert k => exact inferInstanceAs (Decidable True)
  | send k => exact inferInstanceAs (Decidable True)
  | toServer => exact inferInstanceAs (Decidable True)
  | done k answer => exact inferInstanceAs (Decidable True)
  | toClient => exact inferInstanceAs (Decidable True)

def one : Option (Nat → Option (Service Nat Nat)) :=
  some fun name => if name = 0 then some ⟨fun method => method = 1, fun _ _ => true⟩ else none

theorem calls_answered_three : ∃ s : Net Nat Nat Nat,
    s.client.finished = [(52, none), (53, some 9), (51, some 8)] ∧
      ∀ id, s.client.outstandings_.entries id = none := by
  have ran : ∃ s, execWhere (machine one) Room (⟨.new none, .new one, [], []⟩ : Net Nat Nat Nat)
      [.call ⟨0, 1, 7, 51⟩, .call ⟨0, 2, 7, 52⟩, .insert 1, .send 0, .insert 0, .call ⟨0, 1, 6, 53⟩, .send 0,
        .insert 0, .send 0, .toServer, .toServer, .toServer, .done 1 9, .done 0 8, .toClient, .toClient,
        .toClient] = some s ∧ AtRest s ∧ s.client.finished = [(52, none), (53, some 9), (51, some 8)] :=
    ⟨_, rfl, ⟨rfl, rfl, rfl, rfl, rfl⟩, rfl⟩
  obtain ⟨s, ran, rest, finished⟩ := ran
  have start : Reach (machine one) Room (⟨.new none, .new one, [], []⟩ : Net Nat Nat Nat) := .start rfl
  obtain ⟨log, -, -, -, -, at_rest⟩ := (calls_answered (start.execWhere ran)).1
  exact ⟨s, finished, (at_rest rest).2⟩

end ProjectsCpp.MuduoNet.RpcChannel
