import ProjectsCpp.Lib.Pending
import ProjectsCpp.Lib.Run
import Mathlib.Data.List.Forall2
import Mathlib.Data.List.Perm.Basic

/-! The balancer for RPC messages (`examples/protobuf/rpcbalancer/balancer_raw.cc`): what one of its
threads does with the messages of its clients and of its backends. A failing assertion gives `none`. -/

namespace ProjectsCpp.RpcBalancer
open ProjectsCpp.Pending ProjectsCpp.Run

structure Message (M : Type) where
  id : BitVec 64
  rest : M

/-- `Request`, with the client's connection. -/
structure Request (ι : Type) where
  origId : BitVec 64
  clientConn : ι

/-- `outstandings_` has `nextId_` as its counter; `sent` is what `conn_` has got. -/
structure BackendSession (ι M : Type) where
  conn_ : Bool
  outstandings_ : Table (Request ι)
  sent : List (Message M)

variable {ι M : Type}

namespace BackendSession

def new : BackendSession ι M := ⟨false, .new, []⟩

def send (s : BackendSession ι M) (msg : Message M) (clientConn : ι) :
    Option (Bool × BackendSession ι M) :=
  if s.conn_ then
    let table := s.outstandings_.count
    let id := table.last
    if (table.entries id).isSome then none
    else some (true, { s with
      outstandings_ := table.insert id ⟨msg.id, clientConn⟩
      sent := s.sent ++ [⟨id, msg.rest⟩] })
  else some (false, s)

/-- `onMessageT`: the request that the message answers, which is forgotten. -/
def onMessageT (s : BackendSession ι M) (msg : Message M) :
    Option (Request ι) × BackendSession ι M :=
  match s.outstandings_.entries msg.id with
  | some request => (some request, { s with outstandings_ := s.outstandings_.erase msg.id })
  | none => (none, s)

end BackendSession

structure PerThread (ι M : Type) where
  current : Nat
  backends : List (BackendSession ι M)

def PerThread.forward (t : PerThread ι M) (conn : ι) (msg : Message M) :
    Nat → Option (Bool × PerThread ι M)
  | 0 => some (false, t)
  | rounds + 1 => t.backends[t.current]?.bind fun backend => (backend.send msg conn).bind fun r =>
    let next : PerThread ι M :=
      ⟨(t.current + 1) % t.backends.length, t.backends.set t.current r.2⟩
    if r.1 then some (true, next) else next.forward conn msg rounds

/-- `initPerThread` for the thread that `threadCount_` has counted as `count`. -/
def PerThread.init (count backends : Nat) : PerThread ι M :=
  ⟨count % backends, List.replicate backends .new⟩

/-- A thread and what has passed through it: `received` came from clients, `rejected` of it found no
backend, `came` from the backends, and `sent` went to clients. `gone` are the connections that are no
more. -/
structure State (ι M : Type) where
  thread : PerThread ι M
  gone : ι → Bool
  received : List (ι × Message M)
  rejected : List (ι × Message M)
  came : List (Nat × Message M)
  sent : List (ι × Message M)

inductive Event (ι M : Type) where
  | request (conn : ι) (msg : Message M)
  | response (k : Nat) (msg : Message M)
  | up (k : Nat)
  | down (k : Nat)
  | leave (conn : ι)

variable [DecidableEq ι]

def connection (s : State ι M) (k : Nat) (conn_ : Bool) : Option (State ι M) :=
  s.thread.backends[k]?.map fun backend => { s with
    thread := { s.thread with backends := s.thread.backends.set k { backend with conn_ } } }

def step (s : State ι M) : Event ι M → Option (State ι M)
  | .request conn msg =>
    if s.gone conn then none
    else (s.thread.forward conn msg s.thread.backends.length).map fun r => { s with
      thread := r.2
      received := s.received ++ [(conn, msg)]
      rejected := if r.1 then s.rejected else s.rejected ++ [(conn, msg)] }
  | .response k msg => s.thread.backends[k]?.map fun backend =>
    let r := backend.onMessageT msg
    { s with
      thread := { s.thread with backends := s.thread.backends.set k r.2 }
      came := s.came ++ [(k, msg)]
      sent := match r.1 with
        | some request =>
          if s.gone request.clientConn then s.sent
          else s.sent ++ [(request.clientConn, ⟨request.origId, msg.rest⟩)]
        | none => s.sent }
  | .up k => connection s k true
  | .down k => connection s k false
  | .leave conn => some { s with gone := Function.update s.gone conn true }

def machine (count backends : Nat) : Machine (State ι M) (Event ι M) where
  start s := s = ⟨.init count backends, fun _ => false, [], [], [], []⟩
  step := step

def Room (s : State ι M) : Event ι M → Prop
  | .request _ _ => ∀ backend ∈ s.thread.backends, backend.outstandings_.last.toNat + 1 < 2 ^ 64
  | _ => True

instance (s : State ι M) (event : Event ι M) : Decidable (Room s event) := by
  cases event with
  | request conn msg => exact inferInstanceAs (Decidable (∀ backend ∈ _, _))
  | response k msg => exact inferInstanceAs (Decidable True)
  | up k => exact inferInstanceAs (Decidable True)
  | down k => exact inferInstanceAs (Decidable True)
  | leave conn => exact inferInstanceAs (Decidable True)

/-! ### Exchanges -/

inductive Fate (M : Type) where
  | waiting
  | answered (answer : M)
  | dropped

structure Exchange (ι M : Type) where
  conn : ι
  request : Message M
  fate : Fate M

namespace Exchange

def outstanding (e : Exchange ι M) : Option (Request ι) :=
  match e.fate with
  | .waiting => some ⟨e.request.id, e.conn⟩
  | _ => none

def delivered (e : Exchange ι M) : Option (ι × Message M) :=
  match e.fate with
  | .answered answer => some (e.conn, ⟨e.request.id, answer⟩)
  | _ => none

end Exchange

def forwarded (log : List (Exchange ι M)) : List (Message M) :=
  log.mapIdx fun n e => ⟨Table.idOf n, e.request.rest⟩

structure Session (b : BackendSession ι M) (log : List (Exchange ι M)) : Prop where
  shows : b.outstandings_.Shows Exchange.outstanding log
  sent : b.sent = forwarded log

variable {b : BackendSession ι M} {log : List (Exchange ι M)} {conn : ι} {msg : Message M}

omit [DecidableEq ι]

theorem Session.new : Session (.new : BackendSession ι M) [] := ⟨.new _, rfl⟩

theorem Session.send (session : Session b log) (conn : ι) (msg : Message M)
    (room : b.outstandings_.last.toNat + 1 < 2 ^ 64) :
    ∃ r, b.send msg conn = some r ∧ r.1 = b.conn_ ∧
      if r.1 then Session r.2 (log ++ [⟨conn, msg, .waiting⟩]) else r.2 = b := by
  rw [BackendSession.send]
  split
  · rename_i up
    have shows := session.shows
    have room : log.length + 1 < 2 ^ 64 := by
      rwa [shows.last, BitVec.toNat_ofNat, Nat.mod_eq_of_lt shows.few] at room
    obtain ⟨last, counted⟩ := shows.count (e := ⟨conn, msg, .dropped⟩) room rfl
    have there : (log ++ [⟨conn, msg, .dropped⟩])[log.length]? = some (⟨conn, msg, .dropped⟩ : Exchange ι M) := by
      simp
    have free : b.outstandings_.count.entries b.outstandings_.count.last = none := by
      rw [last]
      exact counted.here _ _ there
    have inserted := counted.insert there ⟨conn, msg, .waiting⟩ rfl
    rw [List.set_append_right _ _ (Nat.le_refl _), Nat.sub_self, ← last] at inserted
    refine ⟨_, if_neg (by simp [free]), up.symm, ?_⟩
    simp only [if_true]
    refine ⟨inserted, ?_⟩
    rw [session.sent, forwarded, forwarded, List.mapIdx_append, last]
    simp
  · rename_i down
    exact ⟨(false, b), rfl, by simp [down], rfl⟩

theorem forwarded_set {n : Nat} {e : Exchange ι M} (there : log[n]? = some e) (e' : Exchange ι M)
    (same : e'.request = e.request) : forwarded (log.set n e') = forwarded log := by
  obtain ⟨inside, rfl⟩ := List.getElem?_eq_some_iff.mp there
  refine List.ext_getElem? fun m => ?_
  simp only [forwarded, List.getElem?_mapIdx, List.getElem?_set]
  split
  · rename_i here
    subst here
    simp [inside, same]
  · rfl

theorem Session.onMessageT (session : Session b log) (msg : Message M) :
    (b.onMessageT msg = (none, b)) ∨ ∃ n e, log[n]? = some e ∧ e.fate = .waiting ∧ msg.id = Table.idOf n ∧
      ∃ b', b.onMessageT msg = (some ⟨e.request.id, e.conn⟩, b') ∧
        ∀ fate ≠ .waiting, Session b' (log.set n { e with fate }) := by
  rw [BackendSession.onMessageT]
  cases found : b.outstandings_.entries msg.id with
  | none => exact .inl rfl
  | some request =>
    obtain ⟨n, e, there, its, waits⟩ := session.shows.find found
    obtain ⟨waiting, rfl⟩ : e.fate = .waiting ∧ request = ⟨e.request.id, e.conn⟩ := by
      cases fate : e.fate <;> simp [Exchange.outstanding, fate] at waits
      exact ⟨rfl, waits.symm⟩
    refine .inr ⟨n, e, there, waiting, its, _, rfl, fun fate settled => ⟨?_, ?_⟩⟩
    · rw [its]
      refine session.shows.erase there _ ?_
      cases fate <;> simp_all [Exchange.outstanding]
    · exact session.sent.trans (forwarded_set there { e with fate } rfl).symm

variable {t : PerThread ι M} {logs : List (List (Exchange ι M))}

theorem forward_spec (conn : ι) (msg : Message M) (rounds : Nat) (sessions : List.Forall₂ Session t.backends logs)
    (inside : t.current < t.backends.length)
    (room : ∀ b ∈ t.backends, b.outstandings_.last.toNat + 1 < 2 ^ 64) :
    ∃ r, t.forward conn msg rounds = some r ∧ r.2.current < r.2.backends.length ∧
      if r.1 then ∃ k log, logs[k]? = some log ∧
        List.Forall₂ Session r.2.backends (logs.set k (log ++ [⟨conn, msg, .waiting⟩]))
      else r.2.backends = t.backends ∧ ∀ j < rounds, ∀ b,
        t.backends[(t.current + j) % t.backends.length]? = some b → b.conn_ = false := by
  induction rounds generalizing t with
  | zero => exact ⟨(false, t), rfl, inside, by simp⟩
  | succ rounds ih =>
    have there := List.getElem?_eq_getElem inside
    obtain ⟨log, its, session⟩ := forall₂_get sessions there
    obtain ⟨r, sent, up, after⟩ := session.send conn msg (room _ (List.getElem_mem _))
    rw [PerThread.forward, there, Option.bind_some, sent, Option.bind_some]
    have next : (t.current + 1) % t.backends.length < t.backends.length :=
      Nat.mod_lt _ (Nat.zero_lt_of_lt inside)
    cases ended : r.1 with
    | true =>
      rw [ended] at after
      refine ⟨_, rfl, by simpa using next, ?_⟩
      exact ⟨t.current, log, its, forall₂_set sessions t.current after⟩
    | false =>
      rw [ended] at after up
      have same : t.backends.set t.current r.2 = t.backends := by
        rw [show r.2 = t.backends[t.current] from after, List.set_getElem_self]
      simp only [same]
      obtain ⟨r', done, inside', rest⟩ :=
        ih (t := ⟨(t.current + 1) % t.backends.length, t.backends⟩) sessions next room
      refine ⟨r', done, inside', ?_⟩
      cases ended' : r'.1 with
      | true =>
        rw [ended'] at rest
        exact rest
      | false =>
        rw [ended'] at rest
        refine ⟨rest.1, fun j less b' found => ?_⟩
        cases j with
        | zero =>
          rw [Nat.add_zero, Nat.mod_eq_of_lt inside, there] at found
          exact Option.some.inj found ▸ up.symm
        | succ j =>
          refine rest.2 j (Nat.lt_of_succ_lt_succ less) b' ?_
          rw [← found, Nat.mod_add_mod, Nat.add_right_comm, Nat.add_assoc]

/-! ### Runs -/

/-- `logs` has for each backend what it was sent, and what became of it. -/
structure Kept (s : State ι M) (logs : List (List (Exchange ι M))) : Prop where
  current : s.thread.backends = [] ∨ s.thread.current < s.thread.backends.length
  sessions : List.Forall₂ Session s.thread.backends logs
  received : s.received.Perm (logs.flatten.map (fun e => (e.conn, e.request)) ++ s.rejected)
  sent : s.sent.Perm (logs.flatten.filterMap Exchange.delivered)
  came : ∀ k log, logs[k]? = some log → ∀ n e answer, log[n]? = some e → e.fate = .answered answer →
    (k, ⟨Table.idOf n, answer⟩) ∈ s.came
  dropped : ∀ e ∈ logs.flatten, e.fate = .dropped → s.gone e.conn = true

variable {s u : State ι M}

theorem Kept.init (count backends : Nat) :
    Kept (⟨.init count backends, fun _ => false, [], [], [], []⟩ : State ι M)
      (List.replicate backends []) := by
  have none : (List.replicate backends ([] : List (Exchange ι M))).flatten = [] := by simp
  refine ⟨?_, ?_, by rw [none]; rfl, by rw [none]; rfl, fun k log found n e answer there => ?_, ?_⟩
  · cases backends with
    | zero => exact .inl rfl
    | succ n => exact .inr (by simpa [PerThread.init] using Nat.mod_lt count n.succ_pos)
  · exact List.forall₂_iff_get.mpr ⟨by simp [PerThread.init], fun i _ _ => by simpa [PerThread.init] using .new⟩
  · obtain ⟨-, rfl⟩ : k < backends ∧ log = [] := by
      simpa [List.getElem?_replicate, eq_comm] using found
    simp at there
  · simp

theorem flatten_concat {k : Nat} (its : logs[k]? = some log) (e : Exchange ι M) :
    (logs.set k (log ++ [e])).flatten.Perm (e :: logs.flatten) := by
  obtain ⟨rest, whole, set⟩ := flatten_set its
  refine (set _).trans (.trans ?_ (whole.symm.cons e))
  rw [List.append_assoc]
  exact List.perm_middle

theorem flatten_fate {k n : Nat} {e : Exchange ι M} (its : logs[k]? = some log)
    (there : log[n]? = some e) : ∃ rest, logs.flatten.Perm (e :: rest) ∧
      ∀ e', (logs.set k (log.set n e')).flatten.Perm (e' :: rest) := by
  obtain ⟨rest, whole, set⟩ := flatten_set its
  obtain ⟨rest', perm, set'⟩ := perm_set there
  exact ⟨rest' ++ rest, whole.trans (perm.append_right rest),
    fun e' => (set _).trans ((set' e').append_right rest)⟩

theorem answers_set {P : Nat → Nat → M → Prop} {k : Nat} {log' : List (Exchange ι M)}
    (old : ∀ j log, logs[j]? = some log → ∀ n e answer, log[n]? = some e →
      e.fate = .answered answer → P j n answer)
    (new : ∀ n e answer, log'[n]? = some e → e.fate = .answered answer → P k n answer) :
    ∀ j log, (logs.set k log')[j]? = some log → ∀ n e answer, log[n]? = some e →
      e.fate = .answered answer → P j n answer := by
  intro j log its
  rw [List.getElem?_set] at its
  split at its
  · rename_i same
    subst same
    split at its
    · cases its
      exact new
    · cases its
  · exact old j log its

theorem Kept.request (kept : Kept s logs) (conn : ι) (msg : Message M)
    (room : ∀ b ∈ s.thread.backends, b.outstandings_.last.toNat + 1 < 2 ^ 64) :
    ∃ r, s.thread.forward conn msg s.thread.backends.length = some r ∧
      (r.1 = false → ∀ b ∈ s.thread.backends, b.conn_ = false) ∧ ∃ logs', Kept { s with
        thread := r.2
        received := s.received ++ [(conn, msg)]
        rejected := if r.1 then s.rejected else s.rejected ++ [(conn, msg)] } logs' := by
  rcases kept.current with empty | inside
  · refine ⟨(false, s.thread), by rw [empty]; rfl, by simp [empty], logs, kept.current, kept.sessions, ?_,
      kept.sent, kept.came, kept.dropped⟩
    simpa using kept.received.append_right [(conn, msg)]
  obtain ⟨r, done, inside', after⟩ :=
    forward_spec conn msg s.thread.backends.length kept.sessions inside room
  refine ⟨r, done, ?_⟩
  cases ended : r.1 with
  | false =>
    rw [ended] at after
    obtain ⟨same, passed⟩ := after
    refine ⟨fun _ b member => ?_, logs, .inr inside', by rw [same]; exact kept.sessions, ?_, kept.sent,
      kept.came, kept.dropped⟩
    · obtain ⟨k, less, rfl⟩ := List.getElem_of_mem member
      refine passed ((k + s.thread.backends.length - s.thread.current) % s.thread.backends.length)
        (Nat.mod_lt _ (Nat.zero_lt_of_lt less)) _ ?_
      rw [Nat.add_mod_mod, show s.thread.current + (k + s.thread.backends.length - s.thread.current) =
        k + s.thread.backends.length by omega, Nat.add_mod_right, Nat.mod_eq_of_lt less]
      exact List.getElem?_eq_getElem less
    · simpa using kept.received.append_right [(conn, msg)]
  | true =>
    rw [ended] at after
    obtain ⟨k, log, its, sessions⟩ := after
    have perm := flatten_concat its (⟨conn, msg, .waiting⟩ : Exchange ι M)
    refine ⟨by simp, _, .inr inside', sessions, ?_, ?_,
      answers_set kept.came fun n e answer there fate => ?_, fun e member fate => ?_⟩
    · refine (List.perm_append_comm.trans (kept.received.cons _)).trans ?_
      exact ((perm.map fun e => (e.conn, e.request)).append_right s.rejected).symm
    · exact kept.sent.trans (perm.filterMap Exchange.delivered).symm
    · rcases Nat.lt_or_ge n log.length with old | new
      · rw [List.getElem?_append_left old] at there
        exact kept.came k log its n e answer there fate
      · rw [List.getElem?_append_right new, List.getElem?_singleton] at there
        split at there
        · cases there
          cases fate
        · cases there
    · rcases List.mem_cons.mp (perm.subset member) with rfl | old
      · cases fate
      · exact kept.dropped e old fate

theorem Kept.response [DecidableEq ι] (kept : Kept s logs) {k : Nat} {b : BackendSession ι M}
    (there : s.thread.backends[k]? = some b) (msg : Message M) :
    ∃ logs' u, step s (.response k msg) = some u ∧ Kept u logs' := by
  obtain ⟨log, its, session⟩ := forall₂_get kept.sessions there
  have inside := (List.getElem?_eq_some_iff.mp there).1
  rw [step, there, Option.map_some]
  rcases session.onMessageT msg with none | ⟨n, e, found, waiting, id, b', answer, after⟩
  · refine ⟨logs, _, rfl, ?_⟩
    simp only [none]
    have same : s.thread.backends.set k b = s.thread.backends := by
      obtain ⟨_, rfl⟩ := List.getElem?_eq_some_iff.mp there
      exact List.set_getElem_self _
    rw [same]
    exact ⟨kept.current, kept.sessions, kept.received, kept.sent,
      fun k' log' its' n e answer found fate => List.mem_append_left _
        (kept.came k' log' its' n e answer found fate), kept.dropped⟩
  · obtain ⟨rest, whole, set⟩ := flatten_fate its found
    obtain ⟨fate, chosen⟩ : ∃ fate, (if s.gone e.conn then .dropped else .answered msg.rest : Fate M) = fate :=
      ⟨_, rfl⟩
    have settled : fate ≠ .waiting := by
      rw [← chosen]
      split <;> simp
    refine ⟨logs.set k (log.set n { e with fate }), _, rfl, ?_⟩
    simp only [answer]
    have waits : e.delivered = none := by rw [Exchange.delivered, waiting]
    have came : ∀ j log, logs[j]? = some log → ∀ m f reply, log[m]? = some f →
        f.fate = .answered reply → (j, ⟨Table.idOf m, reply⟩) ∈ s.came ++ [(k, msg)] :=
      fun j log its m f reply found ended =>
        List.mem_append_left _ (kept.came j log its m f reply found ended)
    refine ⟨kept.current.imp (fun empty => by simp [empty]) (by simpa using ·),
      forall₂_set kept.sessions k (after fate settled), ?_, ?_,
      answers_set came fun m f reply found' ended => ?_, fun f member ended => ?_⟩
    · refine kept.received.trans (.append_right _ ?_)
      exact (whole.map fun e => (e.conn, e.request)).trans
        ((set { e with fate }).map fun e => (e.conn, e.request)).symm
    · refine .trans ?_ ((set { e with fate }).filterMap _).symm
      have old := kept.sent.trans (whole.filterMap _)
      rw [List.filterMap_cons_none waits] at old
      rw [← chosen]
      split
      · rw [List.filterMap_cons_none rfl]
        exact old
      · exact List.perm_append_comm.trans (old.cons _)
    · rw [List.getElem?_set] at found'
      split at found'
      · rename_i here
        subst here
        obtain rfl : { e with fate } = f := by
          simpa [(List.getElem?_eq_some_iff.mp found).1] using found'
        have content : msg.rest = reply := by
          have ended : fate = .answered reply := ended
          rw [← chosen] at ended
          split at ended
          · cases ended
          · exact Fate.answered.inj ended
        refine List.mem_append_right _ (List.mem_singleton.mpr ?_)
        rw [← content, ← id]
      · exact came k log its m f reply found' ended
    · rcases List.mem_cons.mp ((set _).subset member) with rfl | old
      · have ended : fate = .dropped := ended
        rw [← chosen] at ended
        split at ended
        · assumption
        · cases ended
      · exact kept.dropped f (whole.symm.subset (.tail _ old)) ended

theorem Kept.connection (kept : Kept s logs) {k : Nat} {conn_ : Bool}
    (next : connection s k conn_ = some u) : Kept u logs := by
  obtain ⟨b, there, rfl⟩ := Option.map_eq_some_iff.mp next
  obtain ⟨log, its, session⟩ := forall₂_get kept.sessions there
  have sessions := forall₂_set kept.sessions k
    (show Session { b with conn_ } log from ⟨session.shows, session.sent⟩)
  obtain ⟨_, rfl⟩ := List.getElem?_eq_some_iff.mp its
  rw [List.set_getElem_self] at sessions
  exact ⟨kept.current.imp (fun empty => by simp [empty]) (by simpa using ·), sessions, kept.received,
    kept.sent, kept.came, kept.dropped⟩

theorem kept_of_reach [DecidableEq ι] {count backends : Nat}
    (reach : Reach (machine count backends) Room s) : ∃ logs, Kept s logs := by
  refine reach.invariant (P := fun s => ∃ logs, Kept s logs) ?_ ?_
  · rintro s rfl
    exact ⟨_, .init count backends⟩
  · rintro s event u ⟨logs, kept⟩ room next
    change step s event = some u at next
    cases event with
    | request conn msg =>
      obtain ⟨r, done, -, logs', kept'⟩ := kept.request conn msg room
      rw [step, done, Option.map_some] at next
      split at next
      · cases next
      · exact ⟨logs', Option.some.inj next ▸ kept'⟩
    | response k msg =>
      cases there : s.thread.backends[k]? with
      | none => simp [step, there] at next
      | some b =>
        obtain ⟨logs', v, done, kept'⟩ := kept.response there msg
        exact ⟨logs', Option.some.inj (done.symm.trans next) ▸ kept'⟩
    | up k => exact ⟨logs, kept.connection next⟩
    | down k => exact ⟨logs, kept.connection next⟩
    | leave conn =>
      cases next
      refine ⟨logs, kept.current, kept.sessions, kept.received, kept.sent, kept.came, fun e member fate => ?_⟩
      by_cases same : e.conn = conn
      · simp [same]
      · simpa [same] using kept.dropped e member fate

theorem forwarded_eq {backends : List (BackendSession ι M)}
    (sessions : List.Forall₂ Session backends logs) :
    backends.map BackendSession.sent = logs.map forwarded := by
  induction sessions with
  | nil => rfl
  | cons first _ ih => rw [List.map_cons, List.map_cons, first.sent, ih]

/-- Whatever the backends send: a client gets at most one answer for each of its requests, under the
id of that request, and it is what the backend sent under the id that the balancer had put there. An
answer to a waiting request is passed on, and a request is rejected only if no backend is connected. -/
theorem exchanges_of_run [DecidableEq ι] {count backends : Nat}
    (reach : Reach (machine count backends) Room s) :
    (∃ logs : List (List (Exchange ι M)),
      s.thread.backends.map BackendSession.sent = logs.map forwarded ∧
      s.received.Perm (logs.flatten.map (fun e => (e.conn, e.request)) ++ s.rejected) ∧
      s.sent.Perm (logs.flatten.filterMap Exchange.delivered) ∧
      (∀ e ∈ logs.flatten, e.fate = .dropped → s.gone e.conn = true) ∧
      ∀ k log, logs[k]? = some log → ∀ n e, log[n]? = some e →
        (∀ answer, e.fate = .answered answer → (k, ⟨Table.idOf n, answer⟩) ∈ s.came) ∧
        (e.fate = .waiting → ∀ answer, ∃ u, step s (.response k ⟨Table.idOf n, answer⟩) = some u ∧
          u.sent = if s.gone e.conn then s.sent else s.sent ++ [(e.conn, ⟨e.request.id, answer⟩)])) ∧
    ∀ conn msg, s.gone conn = false → Room s (.request conn msg) → ∃ u,
      step s (.request conn msg) = some u ∧
        ((∃ b ∈ s.thread.backends, b.conn_ = true) → u.rejected = s.rejected) := by
  obtain ⟨logs, kept⟩ := kept_of_reach reach
  refine ⟨⟨logs, forwarded_eq kept.sessions, kept.received, kept.sent, kept.dropped,
    fun k log its n e there => ⟨fun answer fate => kept.came k log its n e answer there fate,
      fun waiting answer => ?_⟩⟩, fun conn msg here room => ?_⟩
  · obtain ⟨-, sessions⟩ := List.forall₂_iff_get.mp kept.sessions
    obtain ⟨inside, rfl⟩ := List.getElem?_eq_some_iff.mp its
    have room : k < s.thread.backends.length := kept.sessions.length_eq ▸ inside
    have found := (sessions k room inside).shows.here n e there
    rw [Exchange.outstanding, waiting] at found
    refine ⟨_, by rw [step, List.getElem?_eq_getElem room, Option.map_some], ?_⟩
    simp only [List.get_eq_getElem] at found
    simp [BackendSession.onMessageT, found]
  · obtain ⟨r, done, none, -⟩ := kept.request conn msg room
    refine ⟨_, by rw [step, if_neg (by simp [here]), done, Option.map_some], ?_⟩
    rintro ⟨b, member, up⟩
    cases ended : r.1 with
    | true => rfl
    | false => simp [none ended b member] at up

theorem exchanges_of_run_two : ∃ s : State Nat Nat,
    s.sent = [(1, ⟨7, 30⟩), (0, ⟨7, 40⟩)] ∧ ∃ logs : List (List (Exchange Nat Nat)),
      s.thread.backends.map BackendSession.sent = logs.map forwarded ∧
      s.sent.Perm (logs.flatten.filterMap Exchange.delivered) := by
  have ran : ∃ s, execWhere (machine 0 2) Room
      (⟨.init 0 2, fun _ => false, [], [], [], []⟩ : State Nat Nat)
      [.up 1, .request 0 ⟨7, 10⟩, .request 1 ⟨7, 20⟩, .response 1 ⟨2, 30⟩, .response 1 ⟨1, 40⟩] = some s ∧
        s.sent = [(1, ⟨7, 30⟩), (0, ⟨7, 40⟩)] := ⟨_, rfl, rfl⟩
  obtain ⟨s, ran, sent⟩ := ran
  have start : Reach (machine 0 2) Room
      (⟨.init 0 2, fun _ => false, [], [], [], []⟩ : State Nat Nat) := .start rfl
  obtain ⟨logs, to_backends, -, to_clients, -⟩ := (exchanges_of_run (start.execWhere ran)).1
  exact ⟨s, sent, logs, to_backends, to_clients⟩

end ProjectsCpp.RpcBalancer
