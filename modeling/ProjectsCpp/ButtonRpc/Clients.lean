import ProjectsCpp.ButtonRpc.Rpc
import ProjectsCpp.Lib.Run

/-! Clients of one server (`net_call` and `run` of `buttonrpc.hpp`). A client has a ZMQ_REQ socket,
which takes one request and then gives its reply, and the server a ZMQ_REP socket, which answers the
clients one request at a time. A use of a socket that it refuses gives `none`. -/

namespace ProjectsCpp.ButtonRpc
open ProjectsCpp.Run

/-- `waiting` and `reply` are the state of the socket; `timed_out` says that `m_error_code` is that of
a timeout, `calling` is the call that is in `net_call`, and `results` are those that have returned. -/
structure Client where
  waiting : Bool
  reply : Option (List UInt8)
  timed_out : Bool
  calling : Option Call
  results : List (Call × value_t)

def Client.new : Client := ⟨false, none, false, none, []⟩

/-- The end of `net_call`; `recv` leaves an empty message where the time is over. -/
def Client.finish (client : Client) (reply : List UInt8) (val : Value) : Option Client :=
  client.calling.bind fun c =>
    if reply = [] then
      some { client with
        timed_out := true
        calling := none
        results := client.results ++ [(c, timeout_value val)] }
    else (reply_value reply val).map fun v => { client with
      timed_out := false
      calling := none
      results := client.results ++ [(c, v)] }

structure Net (ι σ : Type) where
  state : σ
  requests : List (ι × List UInt8)
  clients : ι → Client

inductive Action (ι : Type) where
  | call (i : ι) (c : Call)
  | run (k : Nat) (memory : List UInt8)
  | recv (i : ι)
  | timeout (i : ι)

variable {ι σ : Type} [DecidableEq ι]

namespace Net

def set (s : Net ι σ) (i : ι) (client : Client) : Net ι σ :=
  { s with clients := Function.update s.clients i client }

/-- The beginning of `net_call`: after a timeout the request is not sent. -/
def call (s : Net ι σ) (i : ι) (c : Call) : Option (Net ι σ) :=
  let client := s.clients i
  if client.calling.isSome then none
  else if client.timed_out then some (s.set i { client with calling := some c })
  else if client.waiting then none
  else some { s.set i { client with waiting := true, calling := some c } with
    requests := s.requests ++ [(i, c.request)] }

/-- `val i` is the variable for the results of client `i`. -/
def step (m_handlers : Handlers σ) (val : ι → Value) (s : Net ι σ) : Action ι → Option (Net ι σ)
  | .call i c => s.call i c
  | .run k memory => s.requests[k]?.bind fun request =>
    (ButtonRpc.run m_handlers s.state request.2 memory).map fun r =>
      { s.set request.1 { s.clients request.1 with reply := some r.2 } with
        state := r.1
        requests := s.requests.eraseIdx k }
  | .recv i => (s.clients i).reply.bind fun reply =>
    if (s.clients i).waiting then
      ({ s.clients i with waiting := false, reply := none }.finish reply (val i)).map (s.set i)
    else none
  | .timeout i => ((s.clients i).finish [] (val i)).map (s.set i)

def machine (m_handlers : Handlers σ) (val : ι → Value) (state : σ) :
    Machine (Net ι σ) (Action ι) where
  start s := s = ⟨state, [], fun _ => .new⟩
  step := step m_handlers val

def Allowed (m_handlers : Handlers σ) (val : ι → Value) (_ : Net ι σ) : Action ι → Prop
  | .call i c => Typed m_handlers (val i) c
  | _ => True

end Net

/-! ### What the clients see -/

def sends : Bool → List (Call × value_t) → List Call
  | _, [] => []
  | late, (c, v) :: results =>
    (if late then [] else [c]) ++ sends (v.code_ = RPC_ERR_RECV_TIMEOUT) results

def Client.sent (client : Client) : List Call :=
  sends false client.results ++
    if client.timed_out then [] else client.calling.toList

def Client.replies (client : Client) : List value_t :=
  (client.results.map Prod.snd).filter fun v => v.code_ ≠ RPC_ERR_RECV_TIMEOUT

def execute (m_handlers : Handlers σ) (val : ι → Value) (state : σ) :
    List (ι × Call) → σ × List (ι × value_t)
  | [] => (state, [])
  | (i, c) :: log =>
    let r := answer m_handlers (val i) state c
    let rest := execute m_handlers val r.1 log
    (rest.1, (i, r.2) :: rest.2)

/-- What belongs to client `i`. -/
def of {α : Type} (i : ι) (xs : List (ι × α)) : List α := (xs.filter fun x => x.1 = i).map Prod.snd

section
variable {α : Type} {i j : ι} {xs ys : List (ι × α)} {x : α}

@[simp] theorem of_nil : of i ([] : List (ι × α)) = [] := rfl

@[simp] theorem of_append : of i (xs ++ ys) = of i xs ++ of i ys := by simp [of]

@[simp] theorem of_cons : of i ((j, x) :: xs) = (if j = i then [x] else []) ++ of i xs := by
  by_cases same : j = i <;> simp [of, same]

end

variable {m_handlers : Handlers σ} {val : ι → Value} {state : σ} {s t : Net ι σ}

omit [DecidableEq ι] in
theorem execute_concat (log : List (ι × Call)) (i : ι) (c : Call) :
    execute m_handlers val state (log ++ [(i, c)]) =
      ((answer m_handlers (val i) (execute m_handlers val state log).1 c).1,
        (execute m_handlers val state log).2 ++
          [(i, (answer m_handlers (val i) (execute m_handlers val state log).1 c).2)]) := by
  induction log generalizing state with
  | nil => rfl
  | cons first log ih => simp [execute, ih]

theorem length_execute (log : List (ι × Call)) (i : ι) :
    (of i (execute m_handlers val state log).2).length = (of i log).length := by
  induction log generalizing state with
  | nil => rfl
  | cons first log ih =>
    obtain ⟨j, c⟩ := first
    by_cases same : j = i <;> simp [execute, same, ih]

theorem answer_code (m_handlers : Handlers σ) (val : Value) (state : σ) (c : Call) :
    (answer m_handlers val state c).2.code_ ≠ RPC_ERR_RECV_TIMEOUT := by
  rw [answer]
  split
  · exact show RPC_ERR_FUNCTIION_NOT_BIND ≠ RPC_ERR_RECV_TIMEOUT by decide
  · exact show RPC_ERR_SUCCESS ≠ RPC_ERR_RECV_TIMEOUT by decide

def late (before : Bool) (results : List (Call × value_t)) : Bool :=
  results.foldl (fun _ r => decide (r.2.code_ = RPC_ERR_RECV_TIMEOUT)) before

@[simp] theorem late_concat (before : Bool) (results : List (Call × value_t)) (r : Call × value_t) :
    late before (results ++ [r]) = decide (r.2.code_ = RPC_ERR_RECV_TIMEOUT) := by
  simp [late]

theorem sends_concat (before : Bool) (results : List (Call × value_t)) (r : Call × value_t) :
    sends before (results ++ [r]) =
      sends before results ++ if late before results then [] else [r.1] := by
  induction results generalizing before with
  | nil => cases before <;> rfl
  | cons first results ih =>
    have step : late before (first :: results) =
      late (first.2.code_ = RPC_ERR_RECV_TIMEOUT) results := rfl
    rw [List.cons_append, sends, ih, sends, step, List.append_assoc]

/-! ### One client -/

def Arrived (val : Value) (reply : Option (List UInt8)) (arrived : List value_t) : Prop :=
  match reply with
  | none => arrived = []
  | some reply => ∃ v, arrived = [v] ∧ reply ≠ [] ∧ reply_value reply val = some v ∧
      v.code_ ≠ RPC_ERR_RECV_TIMEOUT

/-- A client whose requests `log` are answered by `answers`, and `queued` are with the server. -/
structure Client.Fits (client : Client) (val : Value) (log queued : List Call)
    (answers arrived : List value_t) : Prop where
  sent : client.sent = log ++ queued
  timed_out : client.timed_out = late false client.results
  answers : answers = client.replies ++ arrived
  mail : Arrived val client.reply arrived
  waiting : queued.length + arrived.length = if client.waiting then 1 else 0
  busy : client.waiting = (client.calling.isSome || client.timed_out)

namespace Client.Fits

variable {client : Client} {v : Value} {log queued : List Call} {answers arrived : List value_t}

theorem new (v : Value) : Client.new.Fits v [] [] [] [] :=
  ⟨rfl, rfl, rfl, rfl, rfl, rfl⟩

theorem outstanding (fits : client.Fits v log queued answers arrived) :
    queued.length + arrived.length ≤ 1 := by
  rw [fits.waiting]
  split <;> decide

theorem idle (fits : client.Fits v log queued answers arrived) (quiet : client.waiting = false) :
    queued = [] ∧ arrived = [] := by
  have none := fits.waiting
  simpa [quiet] using none

theorem send (fits : client.Fits v log queued answers arrived) (free : client.calling = none)
    (timely : client.timed_out = false) (c : Call) :
    client.waiting = false ∧
      { client with waiting := true, calling := some c }.Fits v log [c] answers arrived := by
  have quiet : client.waiting = false := by rw [fits.busy, free, timely]; rfl
  obtain ⟨rfl, rfl⟩ := fits.idle quiet
  have sent := fits.sent
  refine ⟨quiet, ?_, fits.timed_out, fits.answers, fits.mail, rfl, rfl⟩
  simp only [Client.sent, timely, free] at sent ⊢
  simpa using sent

theorem stay (fits : client.Fits v log queued answers arrived) (tardy : client.timed_out = true)
    (c : Call) : { client with calling := some c }.Fits v log queued answers arrived := by
  have sent := fits.sent
  refine ⟨?_, fits.timed_out, fits.answers, fits.mail, fits.waiting, ?_⟩
  · simp only [Client.sent, tardy] at sent ⊢
    exact sent
  · rw [fits.busy, tardy]
    simp

theorem answered {c : Call} {reply : List UInt8} {r : value_t}
    (fits : client.Fits v log [c] answers arrived) (full : reply ≠ [])
    (read : reply_value reply v = some r) (timely : r.code_ ≠ RPC_ERR_RECV_TIMEOUT) :
    { client with reply := some reply }.Fits v (log ++ [c]) [] (answers ++ [r]) [r] := by
  have waiting := fits.waiting
  obtain ⟨busy, rfl⟩ : client.waiting = true ∧ arrived = [] := by
    cases busy : client.waiting <;> simp [busy] at waiting
    exact ⟨rfl, waiting⟩
  refine ⟨?_, fits.timed_out, ?_, ⟨r, rfl, full, read, timely⟩, ?_, fits.busy⟩
  · rw [List.append_nil]
    exact fits.sent
  · rw [fits.answers, List.append_nil]
    rfl
  · simp [busy]

theorem sent_noted (fits : client.Fits v log queued answers arrived) {c : Call}
    (calling : client.calling = some c) (r : value_t) {client' : Client}
    (results : client'.results = client.results ++ [(c, r)]) (free : client'.calling = none) :
    client'.sent = log ++ queued := by
  have sent := fits.sent
  rw [Client.sent, calling, fits.timed_out] at sent
  rw [Client.sent, results, sends_concat, free, ← sent]
  simp

theorem recv {reply : List UInt8} (fits : client.Fits v log queued answers arrived)
    (there : client.reply = some reply) (calling : client.calling.isSome) :
    client.waiting = true ∧ ∃ client', { client with waiting := false, reply := none }.finish reply v =
      some client' ∧ client'.Fits v log queued answers [] := by
  obtain ⟨c, called⟩ := Option.isSome_iff_exists.mp calling
  have busy : client.waiting = true := by rw [fits.busy, calling, Bool.true_or]
  have mail := fits.mail
  rw [there] at mail
  obtain ⟨r, rfl, full, read, timely⟩ := mail
  have waiting := fits.waiting
  rw [busy] at waiting
  have quiet : queued = [] := List.length_eq_zero_iff.mp (Nat.succ.inj waiting)
  refine ⟨busy, { client with
    waiting := false
    reply := none
    timed_out := false
    calling := none
    results := client.results ++ [(c, r)] }, ?_, fits.sent_noted called r rfl rfl, ?_, ?_, rfl, ?_, rfl⟩
  · simp [Client.finish, called, full, read]
  · simp [timely]
  · rw [fits.answers]
    simp [Client.replies, timely]
  · rw [quiet]
    rfl

theorem timeout (fits : client.Fits v log queued answers arrived) (calling : client.calling.isSome) :
    ∃ client', client.finish [] v = some client' ∧ client'.Fits v log queued answers arrived := by
  obtain ⟨c, called⟩ := Option.isSome_iff_exists.mp calling
  refine ⟨{ client with
    timed_out := true
    calling := none
    results := client.results ++ [(c, timeout_value v)] }, ?_, fits.sent_noted called _ rfl rfl, ?_, ?_,
    fits.mail, fits.waiting, ?_⟩
  · rw [Client.finish, called, Option.bind_some, if_pos rfl]
  · simp [timeout_value]
  · rw [fits.answers]
    simp [Client.replies, timeout_value]
  · rw [fits.busy, calling]
    rfl

end Client.Fits

/-! ### All the clients -/

/-- `log` are the requests that the server has executed, and `queued` those that it has not. -/
structure Net.Kept (m_handlers : Handlers σ) (val : ι → Value) (first : σ) (log queued : List (ι × Call))
    (s : Net ι σ) : Prop where
  state : s.state = (execute m_handlers val first log).1
  requests : s.requests = queued.map fun q => (q.1, q.2.request)
  typed : ∀ q ∈ queued, Typed m_handlers (val q.1) q.2
  fits : ∀ i, ∃ arrived, (s.clients i).Fits (val i) (of i log) (of i queued)
    (of i (execute m_handlers val first log).2) arrived

namespace Net

variable {log queued : List (ι × Call)} {i : ι} {c : Call}

theorem Kept.new (m_handlers : Handlers σ) (val : ι → Value) (state : σ) :
    (⟨state, [], fun _ => .new⟩ : Net ι σ).Kept m_handlers val state [] [] :=
  ⟨rfl, rfl, fun _ member => (List.not_mem_nil member).elim, fun i => ⟨[], .new (val i)⟩⟩

theorem Kept.set (kept : s.Kept m_handlers val state log queued) {client : Client}
    {arrived : List value_t} (fits : client.Fits (val i) (of i log) (of i queued)
      (of i (execute m_handlers val state log).2) arrived) :
    (s.set i client).Kept m_handlers val state log queued := by
  refine ⟨kept.state, kept.requests, kept.typed, fun j => ?_⟩
  by_cases same : j = i
  · subst same
    exact ⟨arrived, by simpa [Net.set] using fits⟩
  · obtain ⟨arrived, others⟩ := kept.fits j
    exact ⟨arrived, by simpa [Net.set, same] using others⟩

theorem Kept.call (kept : s.Kept m_handlers val state log queued)
    (free : (s.clients i).calling = none) (typed : Typed m_handlers (val i) c) :
    ∃ t queued', s.call i c = some t ∧ t.Kept m_handlers val state log queued' := by
  obtain ⟨arrived, fits⟩ := kept.fits i
  cases tardy : (s.clients i).timed_out with
  | true => exact ⟨_, queued, by simp [Net.call, free, tardy], kept.set (fits.stay tardy c)⟩
  | false =>
    obtain ⟨quiet, sent⟩ := fits.send free tardy c
    have none := (fits.idle quiet).1
    refine ⟨{ s.set i { s.clients i with waiting := true, calling := some c } with
      requests := s.requests ++ [(i, c.request)] }, queued ++ [(i, c)], ?_, kept.state, ?_, ?_, ?_⟩
    · simp [Net.call, free, tardy, quiet]
    · simp [kept.requests]
    · intro q member
      rcases List.mem_append.mp member with old | new
      · exact kept.typed q old
      · exact List.mem_singleton.mp new ▸ typed
    · intro j
      by_cases same : j = i
      · subst same
        exact ⟨arrived, by simpa [Net.set, none] using sent⟩
      · obtain ⟨arrived, others⟩ := kept.fits j
        exact ⟨arrived, by simpa [Net.set, same, Ne.symm same] using others⟩

theorem Kept.run (kept : s.Kept m_handlers val state log queued) {k : Nat}
    (inside : k < s.requests.length) : ∃ t log' queued',
      (∀ memory, step m_handlers val s (.run k memory) = some t) ∧
      t.Kept m_handlers val state log' queued' := by
  rw [kept.requests, List.length_map] at inside
  obtain ⟨before, i, c, behind, rfl, rfl⟩ : ∃ before i c behind,
      queued = before ++ (i, c) :: behind ∧ before.length = k := by
    refine ⟨queued.take k, queued[k].1, queued[k].2, queued.drop (k + 1), ?_, ?_⟩
    · rw [show (queued[k].1, queued[k].2) = queued[k] from rfl, List.getElem_cons_drop,
        List.take_append_drop]
    · exact List.length_take_of_le (Nat.le_of_lt inside)
  obtain ⟨reply, full, ran, read⟩ := exchange (kept.typed (i, c) (by simp)) s.state
  have timely := answer_code m_handlers (val i) s.state c
  refine ⟨{ s.set i { s.clients i with reply := some reply } with
      state := (answer m_handlers (val i) s.state c).1
      requests := s.requests.eraseIdx before.length }, log ++ [(i, c)], before ++ behind, fun memory => ?_, ?_, ?_, ?_, ?_⟩
  · simp [step, kept.requests, ran]
  · rw [execute_concat, ← kept.state]
  · show s.requests.eraseIdx before.length = _
    rw [kept.requests, List.map_append, List.map_cons, List.map_append,
      ← List.length_map fun q => (q.1, q.2.request), List.eraseIdx_append_of_length_le
        (Nat.le_refl _)]
    simp
  · intro q member
    refine kept.typed q ?_
    rcases List.mem_append.mp member with first | later
    · exact List.mem_append_left _ first
    · exact List.mem_append_right _ (.tail _ later)
  · intro j
    obtain ⟨arrived, fits⟩ := kept.fits j
    rw [execute_concat, ← kept.state]
    by_cases same : j = i
    · subst same
      obtain ⟨none, none'⟩ : of j before = [] ∧ of j behind = [] := by
        have few := fits.outstanding
        simp only [of_append, of_cons, if_true, List.length_append, List.length_singleton] at few
        exact ⟨List.length_eq_zero_iff.mp (by omega), List.length_eq_zero_iff.mp (by omega)⟩
      have alone : of j (before ++ (j, c) :: behind) = [c] := by simp [none, none']
      rw [alone] at fits
      refine ⟨[(answer m_handlers (val j) s.state c).2], ?_⟩
      simpa [Net.set, none, none'] using fits.answered full read timely
    · refine ⟨arrived, ?_⟩
      simpa [Net.set, same, Ne.symm same] using fits

theorem Kept.recv (kept : s.Kept m_handlers val state log queued) {reply : List UInt8}
    (there : (s.clients i).reply = some reply) (calling : (s.clients i).calling.isSome) :
    ∃ t, step m_handlers val s (.recv i) = some t ∧ t.Kept m_handlers val state log queued := by
  obtain ⟨arrived, fits⟩ := kept.fits i
  obtain ⟨busy, client, done, fits'⟩ := fits.recv there calling
  exact ⟨_, by simp [step, there, busy, done], kept.set fits'⟩

theorem Kept.timeout (kept : s.Kept m_handlers val state log queued)
    (calling : (s.clients i).calling.isSome) :
    ∃ t, step m_handlers val s (.timeout i) = some t ∧ t.Kept m_handlers val state log queued := by
  obtain ⟨arrived, fits⟩ := kept.fits i
  obtain ⟨client, done, fits'⟩ := fits.timeout calling
  exact ⟨_, by simp [step, done], kept.set fits'⟩

theorem kept_of_reach (reach : Reach (machine m_handlers val state) (Allowed m_handlers val) s) :
    ∃ log queued, s.Kept m_handlers val state log queued := by
  refine reach.invariant (P := fun s => ∃ log queued, Kept m_handlers val state log queued s) ?_ ?_
  · rintro s rfl
    exact ⟨[], [], .new m_handlers val state⟩
  · rintro s a t ⟨log, queued, kept⟩ allowed next
    change step m_handlers val s a = some t at next
    cases a with
    | call i c =>
      cases calling : (s.clients i).calling with
      | none =>
        obtain ⟨u, queued', done, kept'⟩ := kept.call calling allowed
        have same : t = u := Option.some.inj (next.symm.trans done)
        exact ⟨log, queued', same ▸ kept'⟩
      | some c' => simp [step, Net.call, calling] at next
    | run k memory =>
      cases there : s.requests[k]? with
      | none => simp [step, there] at next
      | some request =>
        obtain ⟨u, log', queued', done, kept'⟩ :=
          kept.run (List.getElem?_eq_some_iff.mp there).1
        have same : t = u := Option.some.inj (next.symm.trans (done memory))
        exact ⟨log', queued', same ▸ kept'⟩
    | recv i =>
      cases there : (s.clients i).reply with
      | none => simp [step, there] at next
      | some reply =>
        cases calling : (s.clients i).calling with
        | none => simp [step, there, Client.finish, calling] at next
        | some c =>
          obtain ⟨u, done, kept'⟩ := kept.recv there (calling ▸ rfl)
          have same : t = u := Option.some.inj (next.symm.trans done)
          exact ⟨log, queued, same ▸ kept'⟩
    | timeout i =>
      cases calling : (s.clients i).calling with
      | none => simp [step, Client.finish, calling] at next
      | some c =>
        obtain ⟨u, done, kept'⟩ := kept.timeout (i := i) (calling ▸ rfl)
        have same : t = u := Option.some.inj (next.symm.trans done)
        exact ⟨log, queued, same ▸ kept'⟩

def counter : Handlers Nat :=
  bind (fun _ => none) (text "count") ⟨[.plain [0]], fun n _ => (n + 1, .plain [UInt8.ofNat n])⟩

def count (n : UInt8) : Call := ⟨text "count", [.plain [n]], 0⟩

theorem typed_count (n : UInt8) : Typed counter (.plain [0]) (count n) := by
  intro handler bound
  have same : counter (cut (count n).name) =
      some ⟨[.plain [0]], fun n _ => (n + 1, .plain [UInt8.ofNat n])⟩ := by rfl
  obtain rfl := Option.some.inj (same.symm.trans bound)
  exact ⟨.cons rfl .nil, fun _ _ => rfl⟩

end Net

end ProjectsCpp.ButtonRpc
