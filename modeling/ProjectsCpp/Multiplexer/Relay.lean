import ProjectsCpp.Multiplexer.DemuxServer

/-! One backend session from end to end: the multiplexer with its clients, the byte stream, and the
server at the other end with its socks connections. A client's callbacks run in its thread, the
packets of different clients mix. -/

namespace ProjectsCpp.Multiplexer
open ProjectsCpp.Run ProjectsCpp.Frames

/-- `outgoing` has what a client's `onClientMessage` has not sent yet, `leaving` the clients that
have sent their DOWN and hold the id still. `ups` and `sent` are history: whose UP was sent under
which id, and what came from a client after it. -/
structure Relay where
  server : MultiplexServer
  outgoing : Conn → List UInt8
  leaving : Conn → Bool
  stream : List UInt8
  demux : DemuxServer
  ups : List (Conn × Int)
  sent : Conn → List UInt8

inductive RelayStep where
  | clientUp (conn : Conn)
  | announce (conn : Conn)
  | message (conn : Conn) (data : List UInt8)
  | packet (conn : Conn)
  | leave (conn : Conn)
  | clientDown (conn : Conn)
  | read (n : Nat)
  | socksUp (n : Nat)
  | socksDown (n : Nat)
  | socksMessage (n : Nat) (buf : List UInt8)
deriving DecidableEq

namespace Client

def isAllocated : Client → Bool
  | .allocated _ => true
  | _ => false

def isUp : Client → Bool
  | .up _ => true
  | _ => false

end Client

namespace Relay

def init (server : MultiplexServer) : Relay :=
  ⟨server, fun _ => [], fun _ => false, [], .new, [], fun _ => []⟩

def write (s : Relay) (bytes : Option (List UInt8)) : Option Relay :=
  bytes.map fun bytes => { s with stream := s.stream ++ bytes }

def announce (s : Relay) (peer : Peer) (conn : Conn) : Option Relay :=
  match s.server.client conn with
  | .allocated id =>
    let up := { s with server := s.server.setContext conn id }
    if id ≤ 0 then some up
    else write { up with ups := s.ups ++ [(conn, id)] }
      (sendBackendPacket 0 (toBytes (upCommand id peer)))
  | _ => none

/-- `onClientMessage`; without a context the data is dropped. -/
def message (s : Relay) (conn : Conn) (data : List UInt8) : Option Relay :=
  match s.server.client conn with
  | .up (some _) => some { s with
      outgoing := Function.update s.outgoing conn data
      sent := Function.update s.sent conn (s.sent conn ++ data) }
  | .up none => some s
  | _ => none

def packet (s : Relay) (conn : Conn) : Option Relay :=
  match s.server.client conn with
  | .up (some id) =>
    let buf := s.outgoing conn
    write { s with outgoing := Function.update s.outgoing conn (nextPacket buf).2 }
      (sendBackendPacket id (nextPacket buf).1)
  | _ => none

/-- The other half of `onClientConnection`, up to the section. -/
def leave (s : Relay) (peer : Peer) (conn : Conn) : Option Relay :=
  match s.server.client conn with
  | .up context =>
    let left := { s with leaving := Function.update s.leaving conn true }
    match context with
    | none => some left
    | some id => left.write (sendBackendPacket 0 (toBytes (downCommand id peer)))
  | _ => none

def read (s : Relay) (n : Nat) : Option Relay :=
  let buffer := s.demux.buffer ++ s.stream.take n
  (DemuxServer.onServerMessage (buffer.length + 1) { s.demux with buffer := buffer }).map fun demux =>
    { s with stream := s.stream.drop n, demux := demux }

def Enabled (s : Relay) : RelayStep → Prop
  | .clientUp conn => s.server.client conn = .unknown
  | .announce conn => (s.server.client conn).isAllocated
  | .message conn _ => (s.server.client conn).isUp ∧ s.leaving conn = false ∧ s.outgoing conn = []
  | .packet conn => s.outgoing conn ≠ []
  | .leave conn => (s.server.client conn).isUp ∧ s.leaving conn = false ∧ s.outgoing conn = []
  | .clientDown conn => (s.server.client conn).isUp ∧ s.leaving conn = true
  | .read n => 0 < n ∧ n ≤ s.stream.length
  | .socksUp n => (s.demux.client n).state = .connecting
  | .socksDown n | .socksMessage n _ =>
    (s.demux.client n).state = .connected ∨ (s.demux.client n).state = .disconnecting

instance (s : Relay) : (e : RelayStep) → Decidable (s.Enabled e)
  | .clientUp conn => inferInstanceAs (Decidable (s.server.client conn = .unknown))
  | .announce conn => inferInstanceAs (Decidable ((s.server.client conn).isAllocated = true))
  | .message conn _ => inferInstanceAs (Decidable ((s.server.client conn).isUp = true ∧
      s.leaving conn = false ∧ s.outgoing conn = []))
  | .packet conn => inferInstanceAs (Decidable (s.outgoing conn ≠ []))
  | .leave conn => inferInstanceAs (Decidable ((s.server.client conn).isUp = true ∧
      s.leaving conn = false ∧ s.outgoing conn = []))
  | .clientDown conn => inferInstanceAs
      (Decidable ((s.server.client conn).isUp = true ∧ s.leaving conn = true))
  | .read n => inferInstanceAs (Decidable (0 < n ∧ n ≤ s.stream.length))
  | .socksUp n => inferInstanceAs (Decidable ((s.demux.client n).state = .connecting))
  | .socksDown n => inferInstanceAs (Decidable
      ((s.demux.client n).state = .connected ∨ (s.demux.client n).state = .disconnecting))
  | .socksMessage n _ => inferInstanceAs (Decidable
      ((s.demux.client n).state = .connected ∨ (s.demux.client n).state = .disconnecting))

variable (peer : Conn → Peer)

def take (s : Relay) : RelayStep → Option Relay
  | .clientUp conn => (s.server.step (.clientUp conn)).map fun server => { s with server := server }
  | .announce conn => s.announce (peer conn) conn
  | .message conn data => s.message conn data
  | .packet conn => s.packet conn
  | .leave conn => s.leave (peer conn) conn
  | .clientDown conn => (s.server.step (.clientDown conn)).map fun server => { s with server := server }
  | .read n => s.read n
  | .socksUp n => (s.demux.socksUp n).map fun demux => { s with demux := demux }
  | .socksDown n => (s.demux.socksDown n).map fun demux => { s with demux := demux }
  | .socksMessage n buf => (s.demux.socksMessage n buf).map fun demux => { s with demux := demux }

def step (s : Relay) (e : RelayStep) : Option Relay := if s.Enabled e then s.take peer e else none

def machine : Machine Relay RelayStep where
  start s := ∃ server, MultiplexServer.new.backendUp = some server ∧ s = init server
  step := step peer

/-- An id whose socks connection has been up is not given again, and none comes up for an id
that has been given again. -/
def Careful (s : Relay) : RelayStep → Prop
  | .clientUp _ => ∀ id ∈ s.server.availIds.head?, ∀ entry ∈ s.demux.socksConns id,
      entry.connection = false
  | .socksUp n => ∀ u ∈ s.ups[n]?, s.server.given u.2 = some u.1
  | _ => True

instance (s : Relay) : (e : RelayStep) → Decidable (s.Careful e)
  | .clientUp _ => inferInstanceAs (Decidable (∀ id ∈ s.server.availIds.head?,
      ∀ entry ∈ s.demux.socksConns id, entry.connection = false))
  | .socksUp n => inferInstanceAs (Decidable (∀ u ∈ s.ups[n]?, s.server.given u.2 = some u.1))
  | .announce _ | .message _ _ | .packet _ | .leave _ | .clientDown _ | .read _ | .socksDown _
  | .socksMessage _ _ => inferInstanceAs (Decidable True)

/-- The `n`th UP and the client made for it: its connection has a beginning of what came after the
UP, and all of it when it is up and nothing is on the way. -/
structure Delivered (s : Relay) : Prop where
  made : s.stream = [] → s.demux.made = s.ups.length
  connId : ∀ n u, s.ups[n]? = some u → n < s.demux.made → (s.demux.client n).connId = u.2
  part : ∀ n u, s.ups[n]? = some u → n < s.demux.made →
    (s.demux.client n).received <+: s.sent u.1
  whole : ∀ n u, s.ups[n]? = some u →
    ((s.demux.client n).state = .connected ∨ (s.demux.client n).state = .disconnecting) →
    s.stream = [] → s.outgoing u.1 = [] → (s.demux.client n).received = s.sent u.1

end Relay

/-! ### The ids during a session -/

namespace MultiplexServer
variable {server : MultiplexServer} {conn : Conn} {id : Int}

structure Session (server : MultiplexServer) : Prop where
  kept : Kept server
  backendConn : server.backendConn = some 0
  sessions : server.sessions = 1

theorem Session.ofBackendUp (up : new.backendUp = some server) : Session server := by
  obtain ⟨s', done, kept⟩ := Kept.new.backendUp rfl
  cases done.symm.trans up
  cases up
  exact ⟨kept, rfl, rfl⟩

theorem Session.lookup (session : Session server) (has : (server.client conn).id? = some id) :
    server.clientConns.lookup id = some conn := by
  obtain ⟨-, -, since⟩ := session.kept.ids conn id has
  obtain ⟨n, from_⟩ := Option.ne_none_iff_exists'.mp since
  have first := session.kept.past conn n from_
  rw [session.sessions] at first
  have zero : n = 0 := by omega
  refine (session.kept.entries id conn).mpr ⟨has, ?_, by rw [session.backendConn]; exact nofun⟩
  rw [from_, session.backendConn, zero]

theorem Session.unique (session : Session server) {conn' : Conn}
    (has : (server.client conn).id? = some id) (has' : (server.client conn').id? = some id) :
    conn = conn' :=
  Option.some.inj ((session.lookup has).symm.trans (session.lookup has'))

theorem Session.clientUp (session : Session server) (fresh : server.client conn = .unknown) :
    Session (server.clientUp conn) ∧ ∃ id,
      (server.clientUp conn).client = Function.update server.client conn (.allocated id) ∧
      (id = -1 ∧ (server.clientUp conn).given = server.given ∨ server.availIds.head? = some id ∧
        (server.clientUp conn).given = Function.update server.given id (some conn)) := by
  have kept := session.kept.clientUp fresh
  rw [MultiplexServer.clientUp] at kept ⊢
  cases ids : server.availIds with
  | nil =>
    rw [ids] at kept
    exact ⟨⟨kept, session.backendConn, session.sessions⟩, -1, rfl, .inl ⟨rfl, rfl⟩⟩
  | cons id availIds =>
    rw [ids] at kept
    exact ⟨⟨kept, session.backendConn, session.sessions⟩, id, rfl, .inr ⟨rfl, rfl⟩⟩

theorem Session.setContext (session : Session server) (allocated : server.client conn = .allocated id) :
    Session (server.setContext conn id) :=
  ⟨session.kept.setContext allocated, session.backendConn, session.sessions⟩

theorem Session.clientDown (session : Session server) {context : Option Int}
    (up : server.client conn = .up context) : ∃ server', server.step (.clientDown conn) = some server' ∧
      Session server' ∧ server'.client = Function.update server.client conn .down ∧
      server'.given = server.given := by
  have timely : ∀ id, context = some id →
      server.backendConn = none ∨ server.session conn = server.backendConn := by
    rintro id rfl
    have has : (server.client conn).id? = some id := congrArg Client.id? up
    exact .inr ((session.kept.entries id conn).mp (session.lookup has)).2.1
  obtain ⟨server', done, kept⟩ := session.kept.clientDown up timely
  have step : server.step (.clientDown conn) = some server' := by
    rw [MultiplexServer.step, up, ← done]
  refine ⟨server', step, ?_⟩
  cases context with
  | none =>
    cases done
    exact ⟨⟨kept, session.backendConn, session.sessions⟩, rfl, rfl⟩
  | some id =>
    obtain ⟨low, high, -⟩ := session.kept.ids conn id (by rw [up]; rfl)
    rw [MultiplexServer.clientDown, if_pos ⟨low, high⟩, session.backendConn] at done
    cases done
    exact ⟨⟨kept, session.backendConn, session.sessions⟩, rfl, rfl⟩

end MultiplexServer

namespace Relay
open MultiplexServer

/-! ### What has been sent -/

/-- The packets so far make `u` out of the clients. -/
structure Said (s : Relay) (u : Track) : Prop where
  ids : u.ids = s.ups.map Prod.snd
  bytes : ∀ (n : Nat) (v : Conn × Int), s.ups[n]? = some v → u.bytes n ++ s.outgoing v.1 = s.sent v.1
  live : ∀ id n, u.live id = some n ↔ ∃ conn, s.ups[n]? = some (conn, id) ∧
    s.server.client conn = .up (some id) ∧ s.leaving conn = false
  once : ∀ (n m : Nat) (v w : Conn × Int), s.ups[n]? = some v → s.ups[m]? = some w →
    v.1 = w.1 → n = m
  known : ∀ v ∈ s.ups, s.server.client v.1 = .up (some v.2) ∨ s.server.client v.1 = .down
  up : ∀ conn id, s.server.client conn = .up (some id) → ∃ n : Nat, s.ups[n]? = some (conn, id)
  last : ∀ (n : Nat) (v : Conn × Int), s.ups[n]? = some v → s.server.given v.2 = some v.1 →
    (∀ (m : Nat) (w : Conn × Int), s.ups[m]? = some w → w.2 = v.2 → m ≤ n) ∧
      ∀ conn, s.server.client conn ≠ .allocated v.2
  range : ∀ v ∈ s.ups, 0 < v.2 ∧ v.2 ≤ kMaxConns
  outgoing : ∀ conn, s.outgoing conn ≠ [] →
    s.leaving conn = false ∧ ∃ id, s.server.client conn = .up (some id)
  leaving : ∀ conn, s.leaving conn = true →
    s.server.client conn = .down ∨ (s.server.client conn).isUp
  silent : ∀ conn, s.server.client conn = .unknown ∨ (s.server.client conn).isAllocated →
    s.sent conn = []

variable {s : Relay} {u u' : Track} {conn : Conn} {id : Int}

theorem Said.init (server : MultiplexServer) (session : ∀ conn id, server.client conn ≠ .up (some id)) :
    Said (init server) Track.new where
  ids := rfl
  bytes _ _ inside := nomatch inside
  live _ _ := iff_of_false nofun fun ⟨_, inside, _⟩ => nomatch inside
  once _ _ _ _ inside := nomatch inside
  known _ inside := nomatch inside
  up conn id up := absurd up (session conn id)
  last _ _ inside := nomatch inside
  range _ inside := nomatch inside
  outgoing _ more := absurd rfl more
  leaving _ left := nomatch left
  silent _ _ := rfl

theorem Said.early (said : Said s u)
    (early : s.server.client conn = .unknown ∨ (s.server.client conn).isAllocated) :
    (∀ v ∈ s.ups, v.1 ≠ conn) ∧ s.outgoing conn = [] ∧ s.leaving conn = false := by
  have other : ∀ client : Client, s.server.client conn = client → client = .down ∨ client.isUp → False := by
    rintro client rfl late
    rcases early with early | early <;> rcases late with late | late
    · exact nomatch early.symm.trans late
    · rw [early] at late
      cases late
    · rw [late] at early
      cases early
    · cases here : s.server.client conn with
      | allocated id => rw [here] at late; cases late
      | unknown | up context | down => rw [here] at early; cases early
  refine ⟨fun v member same => ?_, by_contra fun more => ?_, Bool.eq_false_iff.mpr fun left => ?_⟩
  · rcases said.known v member with up | down
    · exact other _ (same ▸ up) (.inr rfl)
    · exact other _ (same ▸ down) (.inl rfl)
  · obtain ⟨-, k, up⟩ := said.outgoing conn more
    exact other _ up (.inr rfl)
  · exact other _ rfl (said.leaving conn left)

theorem Said.moves (said : Said s u) {server : MultiplexServer} {client : Client}
    (clients : server.client = Function.update s.server.client conn client)
    (outside : ∀ v ∈ s.ups, v.1 = conn → client = .down ∧ s.leaving conn = true)
    (quiet : s.outgoing conn = []) (before : ∀ id, client ≠ .up (some id))
    (left : s.leaving conn = true → client = .down)
    (silent : client = .unknown ∨ client.isAllocated → s.sent conn = [])
    (last : ∀ (n : Nat) (v : Conn × Int), s.ups[n]? = some v → server.given v.2 = some v.1 →
      s.server.given v.2 = some v.1 ∧ client ≠ .allocated v.2) :
    Said { s with server := server } u := by
  have other : ∀ k, k ≠ conn → server.client k = s.server.client k := fun k other => by
    rw [clients, Function.update_of_ne other]
  have here : server.client conn = client := by rw [clients, Function.update_self]
  refine { said with live := fun id n => ?_, known := fun v member => ?_, up := fun k id up => ?_
                     last := fun n v inside given => ?_, outgoing := fun k more => ?_
                     leaving := fun k gone => ?_, silent := fun k early => ?_ }
  · rw [said.live id n]
    refine exists_congr fun k => and_congr_right fun inside => ?_
    by_cases same : k = conn
    · obtain ⟨rfl, gone⟩ := outside _ (List.mem_of_getElem? inside) same
      refine iff_of_false (fun held => ?_) fun held => ?_
      · exact nomatch (same ▸ held.2).symm.trans gone
      · exact nomatch (same ▸ held.2).symm.trans gone
    · show _ ↔ server.client k = _ ∧ _
      rw [other k same]
  · show server.client v.1 = _ ∨ server.client v.1 = _
    by_cases same : v.1 = conn
    · rw [same, here]
      exact .inr (outside v member same).1
    · rw [other _ same]
      exact said.known v member
  · have up : server.client k = .up (some id) := up
    by_cases same : k = conn
    · rw [same, here] at up
      exact absurd up (before id)
    · rw [other k same] at up
      exact said.up k id up
  · obtain ⟨given', different⟩ := last n v inside given
    obtain ⟨latest, free⟩ := said.last n v inside given'
    refine ⟨latest, fun k => ?_⟩
    show server.client k ≠ _
    by_cases same : k = conn
    · rw [same, here]
      exact different
    · rw [other k same]
      exact free k
  · have different : k ≠ conn := fun same => more (same ▸ quiet)
    show _ ∧ ∃ id, server.client k = _
    rw [other k different]
    exact said.outgoing k more
  · show server.client k = _ ∨ (server.client k).isUp
    by_cases same : k = conn
    · have gone : s.leaving conn = true := same ▸ gone
      rw [same, here]
      exact .inl (left gone)
    · rw [other k same]
      exact said.leaving k gone
  · have early : server.client k = .unknown ∨ (server.client k).isAllocated := early
    by_cases same : k = conn
    · rw [same, here] at early
      exact same ▸ silent early
    · rw [other k same] at early
      exact said.silent k early

theorem getElem?_concat_iff {α : Type} {l : List α} {a b : α} {n : Nat} :
    (l ++ [a])[n]? = some b ↔ l[n]? = some b ∨ n = l.length ∧ b = a := by
  by_cases less : n < l.length
  · rw [List.getElem?_append_left less]
    refine ⟨.inl, fun either => either.resolve_right fun here => ?_⟩
    omega
  · have none_ : l[n]? = none := List.getElem?_eq_none (Nat.le_of_not_lt less)
    rw [List.getElem?_append_right (Nat.le_of_not_lt less), none_]
    constructor
    · intro inside
      have bound := (List.getElem?_eq_some_iff.mp inside).1
      have here : n = l.length := by
        rw [List.length_singleton] at bound
        omega
      rw [here, Nat.sub_self] at inside
      exact .inr ⟨here, (Option.some.inj inside).symm⟩
    · rintro (absent | ⟨rfl, rfl⟩)
      · cases absent
      · rw [Nat.sub_self]
        rfl

theorem Said.announce (said : Said s u) (session : Session s.server)
    (allocated : s.server.client conn = .allocated id) (low : 0 < id) (peer : Peer) :
    ∃ u', u.follow (.up id peer) = some u' ∧
      Said { s with server := s.server.setContext conn id, ups := s.ups ++ [(conn, id)] } u' := by
  have has : (s.server.client conn).id? = some id := by
    rw [allocated]
    exact if_neg (Int.not_le.mpr low)
  have clients : (s.server.setContext conn id).client =
      Function.update s.server.client conn (.up (some id)) := by
    show Function.update _ _ _ = _
    rw [if_neg (Int.not_le.mpr low)]
  have here : (s.server.setContext conn id).client conn = .up (some id) := by
    rw [clients, Function.update_self]
  have other : ∀ k, k ≠ conn → (s.server.setContext conn id).client k = s.server.client k :=
    fun k other => by rw [clients, Function.update_of_ne other]
  have early : s.server.client conn = .unknown ∨ (s.server.client conn).isAllocated :=
    .inr (by rw [allocated]; rfl)
  obtain ⟨fresh, quiet, stays⟩ := said.early early
  have silent : s.sent conn = [] := said.silent conn early
  have alone : ∀ k, s.server.client k = .up (some id) ∨ s.server.client k = .allocated id → k = conn := by
    intro k up
    refine session.unique ?_ has
    rcases up with up | up <;> rw [up]
    · rfl
    · exact if_neg (Int.not_le.mpr low)
  have dead : u.live id = none := by
    refine Option.eq_none_iff_forall_ne_some.mpr fun n live => ?_
    obtain ⟨k, inside, up, -⟩ := (said.live id n).mp live
    exact fresh _ (List.mem_of_getElem? inside) (alone k (.inl up))
  have length : u.ids.length = s.ups.length := by rw [said.ids, List.length_map]
  have before : ∀ (n : Nat) (v : Conn × Int), s.ups[n]? = some v → n ≠ s.ups.length := fun n v inside =>
    Nat.ne_of_lt (List.getElem?_eq_some_iff.mp inside).1
  refine ⟨_, if_pos dead, ?_⟩
  refine ⟨?_, fun n v inside => ?_, fun k n => ?_, fun n m v w inside inside' same => ?_,
    fun v member => ?_, fun k i up => ?_, fun n v inside given => ?_, fun v member => ?_,
    fun k more => ?_, fun k left => ?_, fun k early => ?_⟩
  · rw [said.ids, List.map_append]
    rfl
  · rw [length]
    rcases getElem?_concat_iff.mp inside with inside | ⟨rfl, rfl⟩
    · simp only [Function.update_of_ne (before n v inside)]
      exact said.bytes n v inside
    · simp only [Function.update_self, List.nil_append, quiet, silent]
  · rw [length]
    show Function.update u.live id (some s.ups.length) k = some n ↔
      ∃ c, (s.ups ++ [(conn, id)])[n]? = some (c, k) ∧
        (s.server.setContext conn id).client c = .up (some k) ∧ s.leaving c = false
    by_cases same : k = id
    · rw [same, Function.update_self, Option.some_inj]
      constructor
      · rintro rfl
        exact ⟨conn, getElem?_concat_iff.mpr (.inr ⟨rfl, rfl⟩), here, stays⟩
      · rintro ⟨c, inside, up, -⟩
        rcases getElem?_concat_iff.mp inside with inside | ⟨rfl, -⟩
        · have different := fresh _ (List.mem_of_getElem? inside)
          have up : (s.server.setContext conn id).client c = _ := up
          rw [other c different] at up
          exact absurd (alone c (.inl up)) different
        · rfl
    · rw [Function.update_of_ne same, said.live k n]
      refine exists_congr fun c => ?_
      rw [getElem?_concat_iff]
      constructor
      · rintro ⟨inside, up, stays⟩
        refine ⟨.inl inside, ?_, stays⟩
        exact (other c (fresh _ (List.mem_of_getElem? inside))).trans up
      · rintro ⟨inside | ⟨-, last⟩, up, stays⟩
        · refine ⟨inside, ?_, stays⟩
          exact (other c (fresh _ (List.mem_of_getElem? inside))).symm.trans up
        · exact absurd (congrArg Prod.snd last) same
  · rcases getElem?_concat_iff.mp inside with inside | ⟨rfl, rfl⟩ <;>
      rcases getElem?_concat_iff.mp inside' with inside' | ⟨rfl, rfl⟩
    · exact said.once n m v w inside inside' same
    · exact absurd same (fresh _ (List.mem_of_getElem? inside))
    · exact absurd same.symm (fresh _ (List.mem_of_getElem? inside'))
    · rfl
  · rcases List.mem_append.mp member with member | member
    · show (s.server.setContext conn id).client v.1 = _ ∨ (s.server.setContext conn id).client v.1 = _
      rw [other _ (fresh v member)]
      exact said.known v member
    · rw [List.mem_singleton.mp member]
      exact .inl here
  · have up : (s.server.setContext conn id).client k = .up (some i) := up
    by_cases same : k = conn
    · rw [same, here] at up
      cases up
      exact ⟨s.ups.length, getElem?_concat_iff.mpr (.inr ⟨rfl, by rw [same]⟩)⟩
    · rw [other k same] at up
      obtain ⟨n, inside⟩ := said.up k i up
      exact ⟨n, getElem?_concat_iff.mpr (.inl inside)⟩
  · have given : s.server.given v.2 = some v.1 := given
    rcases getElem?_concat_iff.mp inside with inside | ⟨rfl, rfl⟩
    · obtain ⟨latest, free⟩ := said.last n v inside given
      refine ⟨fun m w inside' same => ?_, fun k => ?_⟩
      · rcases getElem?_concat_iff.mp inside' with inside' | ⟨-, rfl⟩
        · exact latest m w inside' same
        · exact absurd (same ▸ allocated) (free conn)
      · show (s.server.setContext conn id).client k ≠ _
        by_cases same : k = conn
        · rw [same, here]
          exact nofun
        · rw [other k same]
          exact free k
    · refine ⟨fun m w inside' _ => ?_, fun k => ?_⟩
      · rcases getElem?_concat_iff.mp inside' with inside' | ⟨rfl, -⟩
        · exact Nat.le_of_lt (List.getElem?_eq_some_iff.mp inside').1
        · exact le_rfl
      · show (s.server.setContext conn id).client k ≠ .allocated id
        by_cases same : k = conn
        · rw [same, here]
          exact nofun
        · rw [other k same]
          exact fun its => same (alone k (.inr its))
  · rcases List.mem_append.mp member with member | member
    · exact said.range v member
    · rw [List.mem_singleton.mp member]
      exact ⟨low, (session.kept.ids conn id has).2.1⟩
  · have different : k ≠ conn := fun same => more (same ▸ quiet)
    show _ ∧ ∃ id, (s.server.setContext conn _).client k = _
    rw [other k different]
    exact said.outgoing k more
  · show (s.server.setContext conn id).client k = _ ∨ ((s.server.setContext conn id).client k).isUp
    by_cases same : k = conn
    · rw [same, here]
      exact .inr rfl
    · rw [other k same]
      exact said.leaving k left
  · have early : (s.server.setContext conn id).client k = .unknown ∨
        ((s.server.setContext conn id).client k).isAllocated := early
    by_cases same : k = conn
    · rw [same]
      exact silent
    · rw [other k same] at early
      exact said.silent k early

theorem Said.message (said : Said s u) (up : s.server.client conn = .up (some id))
    (stays : s.leaving conn = false) (quiet : s.outgoing conn = []) (data : List UInt8) :
    Said { s with
      outgoing := Function.update s.outgoing conn data
      sent := Function.update s.sent conn (s.sent conn ++ data) } u := by
  refine { said with bytes := fun n v inside => ?_, outgoing := fun k more => ?_
                     silent := fun k early => ?_ }
  · have whole := said.bytes n v inside
    by_cases same : v.1 = conn
    · rw [same, quiet, List.append_nil] at whole
      simp only [same, Function.update_self, whole]
    · simp only [Function.update_of_ne same, whole]
  · by_cases same : k = conn
    · subst same
      exact ⟨stays, id, up⟩
    · have more : Function.update s.outgoing conn data k ≠ [] := more
      rw [Function.update_of_ne same] at more
      exact said.outgoing k more
  · have different : k ≠ conn := by
      rintro rfl
      have early : s.server.client k = .unknown ∨ (s.server.client k).isAllocated := early
      rw [up] at early
      rcases early with early | early <;> cases early
    show Function.update s.sent conn _ k = []
    rw [Function.update_of_ne different]
    exact said.silent k early

theorem Said.live_of_up (said : Said s u) (up : s.server.client conn = .up (some id))
    (stays : s.leaving conn = false) : ∃ n, u.live id = some n ∧ s.ups[n]? = some (conn, id) := by
  obtain ⟨n, inside⟩ := said.up conn id up
  exact ⟨n, (said.live id n).mpr ⟨conn, inside, up, stays⟩, inside⟩

theorem Said.packet (said : Said s u) (up : s.server.client conn = .up (some id))
    (stays : s.leaving conn = false) {first rest : List UInt8} (parts : first ++ rest = s.outgoing conn) :
    ∃ u', u.follow (.data id first) = some u' ∧
      Said { s with outgoing := Function.update s.outgoing conn rest } u' := by
  obtain ⟨n, live, inside⟩ := said.live_of_up up stays
  refine ⟨_, congrArg (Option.map _) live, ?_⟩
  refine { said with bytes := fun m v inside' => ?_, outgoing := fun k more => ?_ }
  · have whole := said.bytes m v inside'
    by_cases same : v.1 = conn
    · have here : m = n := said.once m n v (conn, id) inside' inside same
      rw [same, ← parts, here] at whole
      simp only [same, here, Function.update_self, List.append_assoc, whole]
    · have other : m ≠ n := fun here => by
        rw [here, inside] at inside'
        exact same (congrArg Prod.fst (Option.some.inj inside')).symm
      simp only [Function.update_of_ne same, Function.update_of_ne other, whole]
  · by_cases same : k = conn
    · subst same
      exact ⟨stays, id, up⟩
    · have more : Function.update s.outgoing conn rest k ≠ [] := more
      rw [Function.update_of_ne same] at more
      exact said.outgoing k more

theorem Said.leaves (said : Said s u) (session : Session s.server)
    (up : (s.server.client conn).isUp) (quiet : s.outgoing conn = []) (gone : ∀ id n, u'.live id = some n ↔ u.live id = some n ∧
      s.server.client conn ≠ .up (some id)) (ids : u'.ids = u.ids) (bytes : u'.bytes = u.bytes) :
    Said { s with leaving := Function.update s.leaving conn true } u' := by
  refine { said with ids := ids.trans said.ids, bytes := fun n v inside => ?_, live := fun id n => ?_
                     outgoing := fun k more => ?_, leaving := fun k left => ?_ }
  · rw [bytes]
    exact said.bytes n v inside
  · rw [gone, said.live]
    constructor
    · rintro ⟨⟨k, inside, up, stays⟩, other⟩
      have different : k ≠ conn := fun same => other (same ▸ up)
      exact ⟨k, inside, up, (Function.update_of_ne different ..).trans stays⟩
    · rintro ⟨k, inside, up', stays⟩
      have stays : Function.update s.leaving conn true k = false := stays
      have different : k ≠ conn := by
        rintro rfl
        rw [Function.update_self] at stays
        cases stays
      rw [Function.update_of_ne different] at stays
      refine ⟨⟨k, inside, up', stays⟩, fun its => different ?_⟩
      have held : s.server.client k = .up (some id) := up'
      exact session.unique (congrArg Client.id? held) (congrArg Client.id? its)
  · have different : k ≠ conn := fun same => more (same ▸ quiet)
    show Function.update s.leaving conn true k = false ∧ _
    rw [Function.update_of_ne different]
    exact said.outgoing k more
  · by_cases same : k = conn
    · subst same
      exact .inr up
    · have left : Function.update s.leaving conn true k = true := left
      rw [Function.update_of_ne same] at left
      exact said.leaving k left

theorem Said.wire (said : Said s u) (stream : List UInt8) (demux : DemuxServer) :
    Said { s with stream := stream, demux := demux } u :=
  ⟨said.ids, said.bytes, said.live, said.once, said.known, said.up, said.last, said.range,
    said.outgoing, said.leaving, said.silent⟩

/-! ### The stream -/

/-- The unread bytes are the packets from `t`, what the server knows, to `u`. -/
structure Wire (s : Relay) (packets : List Packet) (t u : Track) : Prop where
  stream : s.demux.buffer ++ s.stream = packets.flatMap Packet.frame
  part : Part Packet.frame s.demux.buffer packets
  sent : ∀ p ∈ packets, p.Sent
  follow : packets.foldlM Track.follow t = some u
  shown : s.demux.Shown t

variable {packets : List Packet} {t : Track}

theorem sent_command (peer : Peer) (event : String) (short : event.toList.length ≤ 10) (low : 0 < id)
    (high : id ≤ kMaxConns) : toBytes (command id peer event) ≠ [] ∧
      (toBytes (command id peer event)).length ≤ kMaxPacketLen := by
  have length : (command id peer event).length ≤ kMaxPacketLen := (command_whole low high short).2
  refine ⟨fun empty => ?_, by rwa [toBytes, List.length_map]⟩
  rw [toBytes, List.map_eq_nil_iff, (command_whole low high short).1] at empty
  simp at empty

theorem Wire.write (wire : Wire s packets t u) {p : Packet} (sent : p.Sent)
    (next : u.follow p = some u') :
    s.write (sendBackendPacket p.target p.payload) = some { s with stream := s.stream ++ p.frame } ∧
      Wire { s with stream := s.stream ++ p.frame } (packets ++ [p]) t u' := by
  have frame : sendBackendPacket p.target p.payload = some p.frame := if_pos sent.short
  refine ⟨congrArg s.write frame, ?_, ?_, ?_, ?_, wire.shown⟩
  · show s.demux.buffer ++ (s.stream ++ p.frame) = _
    rw [← List.append_assoc, wire.stream, List.flatMap_append, List.flatMap_singleton]
  · have part := wire.part
    cases packets with
    | nil =>
      have empty : s.demux.buffer = [] := part
      show s.demux.buffer <+: _ ∧ s.demux.buffer.length < _
      rw [empty]
      exact ⟨List.nil_prefix, Nat.zero_lt_succ _⟩
    | cons q packets => exact part
  · intro q member
    rcases List.mem_append.mp member with member | member
    · exact wire.sent q member
    · rw [List.mem_singleton.mp member]
      exact sent
  · rw [List.foldlM_append, wire.follow]
    show (List.foldlM Track.follow u [p]) = _
    rw [List.foldlM_cons, next]
    rfl

theorem length_le_flatMap (ps : List Packet) : ps.length ≤ (ps.flatMap Packet.frame).length := by
  induction ps with
  | nil => exact Nat.le_refl _
  | cons p ps ih =>
    rw [List.flatMap_cons, List.length_append, List.length_cons, Packet.frame, List.length_append]
    have three : (header p.payload.length p.target).length = 3 := rfl
    omega

theorem Wire.read (wire : Wire s packets t u) (n : Nat)
    (free : ∀ m, (s.demux.client m).state.opened → ∀ p ∈ packets, p.isUp →
      p.id ≠ (s.demux.client m).connId) :
    ∃ s' after t', s.read n = some s' ∧ s' = { s with stream := s'.stream, demux := s'.demux } ∧
      Wire s' after t' u ∧
      ∀ m, (s'.demux.client m).state.opened → (s.demux.client m).state.opened := by
  have stream : s.demux.buffer ++ s.stream.take n <+: packets.flatMap Packet.frame :=
    ⟨s.stream.drop n, by rw [List.append_assoc, List.take_append_drop, wire.stream]⟩
  obtain ⟨before, after, tail, rfl, buffer, part⟩ := prefix_frames stream
  have follow := wire.follow
  rw [List.foldlM_append] at follow
  obtain ⟨t', first, rest⟩ := Option.bind_eq_some_iff.mp follow
  have shown : DemuxServer.Shown { s.demux with buffer := s.demux.buffer ++ s.stream.take n } t :=
    ⟨wire.shown.made, wire.shown.connId, wire.shown.entry, wire.shown.client, wire.shown.live,
      wire.shown.waits, wire.shown.holds⟩
  have enough : before.length < (s.demux.buffer ++ s.stream.take n).length + 1 := by
    have bound := length_le_flatMap before
    rw [buffer, List.length_append]
    omega
  obtain ⟨d', done, shown', buffer', opened⟩ := shown.onServerMessage wire.sent part buffer first
    (fun m opened p member => free m opened p (List.mem_append_left _ member)) enough
  refine ⟨{ s with stream := s.stream.drop n, demux := d' }, after, t', ?_, rfl, ⟨?_, ?_, ?_, rest, shown'⟩,
    fun m its => (opened m its).1⟩
  · rw [Relay.read]
    exact congrArg (Option.map _) done
  · show d'.buffer ++ s.stream.drop n = _
    have whole := wire.stream
    rw [List.flatMap_append, ← List.take_append_drop n s.stream, ← List.append_assoc, buffer,
      List.append_assoc] at whole
    rw [buffer']
    exact List.append_cancel_left whole
  · exact buffer'.symm ▸ part
  · exact fun p member => wire.sent p (List.mem_append_right _ member)

theorem Wire.drained (wire : Wire s packets t u) (empty : s.stream = []) : t = u := by
  cases packets with
  | nil =>
    cases wire.follow
    rfl
  | cons p packets =>
    have stream := wire.stream
    rw [empty, List.append_nil, List.flatMap_cons] at stream
    have short := wire.part.2
    rw [stream, List.length_append] at short
    omega

/-! ### Runs -/

structure Linked (s : Relay) (packets : List Packet) (t u : Track) : Prop where
  session : Session s.server
  said : Said s u
  wire : Wire s packets t u
  last : ∀ (n : Nat) (v : Conn × Int), (s.demux.client n).state.opened → s.ups[n]? = some v →
    s.server.given v.2 = some v.1

theorem Linked.ids (linked : Linked s packets t u) :
    s.ups.map Prod.snd = t.ids ++ (packets.filter Packet.isUp).map Packet.id :=
  linked.said.ids.symm.trans (Track.foldlM_ids linked.wire.follow)

theorem Linked.made_le (linked : Linked s packets t u) : s.demux.made ≤ s.ups.length := by
  have length := congrArg List.length linked.ids
  rw [List.length_map, List.length_append, ← linked.wire.shown.made] at length
  omega

theorem Linked.connId (linked : Linked s packets t u) {n : Nat} {v : Conn × Int}
    (inside : s.ups[n]? = some v) (made : n < s.demux.made) : (s.demux.client n).connId = v.2 := by
  have its : (s.ups.map Prod.snd)[n]? = some v.2 := by rw [List.getElem?_map, inside]; rfl
  rw [linked.ids, List.getElem?_append_left (linked.wire.shown.made ▸ made)] at its
  exact linked.wire.shown.connId n v.2 its

theorem Linked.made_of_opened (linked : Linked s packets t u) {n : Nat}
    (opened : (s.demux.client n).state.opened) : n < s.demux.made := by
  refine (linked.wire.shown.client n fun stopped => ?_).1
  rw [stopped] at opened
  cases opened

theorem Linked.free (linked : Linked s packets t u) (m : Nat)
    (opened : (s.demux.client m).state.opened) (p : Packet) (member : p ∈ packets) (up : p.isUp) :
    p.id ≠ (s.demux.client m).connId := by
  intro same
  have made := linked.made_of_opened opened
  obtain ⟨v, inside⟩ : ∃ v, s.ups[m]? = some v :=
    ⟨_, List.getElem?_eq_getElem (Nat.lt_of_lt_of_le made linked.made_le)⟩
  have later : p.id ∈ (packets.filter Packet.isUp).map Packet.id :=
    List.mem_map_of_mem (List.mem_filter.mpr ⟨member, up⟩)
  obtain ⟨j, at_⟩ := List.mem_iff_getElem?.mp later
  have its : (s.ups.map Prod.snd)[t.ids.length + j]? = some p.id := by
    rw [linked.ids, List.getElem?_append_right (Nat.le_add_right ..), Nat.add_sub_cancel_left, at_]
  rw [List.getElem?_map] at its
  obtain ⟨w, inside', id'⟩ := Option.map_eq_some_iff.mp its
  have le := (linked.said.last m v inside (linked.last m v opened inside)).1 _ w inside'
    (id'.trans (same.trans (linked.connId inside made)))
  have bound := linked.wire.shown.made
  omega

theorem Linked.delivered (linked : Linked s packets t u) : Delivered s where
  made empty := by
    have drained := linked.wire.drained empty
    rw [linked.wire.shown.made, drained, linked.said.ids, List.length_map]
  connId _ _ inside made := linked.connId inside made
  part n v inside made := by
    have bytes := linked.said.bytes n v inside
    have grows := Track.foldlM_grows linked.wire.follow (linked.wire.shown.made ▸ made)
    exact (linked.wire.shown.holds n).part.trans (grows.trans ⟨_, bytes⟩)
  whole n v inside state empty quiet := by
    have bytes := linked.said.bytes n v inside
    have drained := linked.wire.drained empty
    have holds := linked.wire.shown.holds n
    rw [quiet, List.append_nil, ← drained] at bytes
    rw [← bytes]
    rcases state with state | state <;> rw [state] at holds <;> exact holds

def Links (s : Relay) : Prop := ∃ packets t u, Linked s packets t u

theorem Linked.write (linked : Linked s packets t u) {s' : Relay} {p : Packet} (sent : p.Sent)
    (next : u.follow p = some u') (said : Said s' u') (session : Session s'.server)
    (stream : s'.stream = s.stream) (demux : s'.demux = s.demux)
    (last : ∀ (n : Nat) (v : Conn × Int), (s'.demux.client n).state.opened → s'.ups[n]? = some v →
      s'.server.given v.2 = some v.1) :
    ∃ s'', s'.write (sendBackendPacket p.target p.payload) = some s'' ∧ Links s'' := by
  have wire : Wire s' packets t u := by
    refine ⟨?_, demux ▸ linked.wire.part, linked.wire.sent, linked.wire.follow, demux ▸ linked.wire.shown⟩
    rw [stream, demux, linked.wire.stream]
  obtain ⟨done, wire'⟩ := wire.write sent next
  exact ⟨_, done, packets ++ [p], t, u', session, said.wire _ _, wire', last⟩

theorem Linked.clientUp (linked : Linked s packets t u) {conn : Conn}
    (fresh : s.server.client conn = .unknown) (careful : s.Careful (.clientUp conn)) :
    Links { s with server := s.server.clientUp conn } := by
  obtain ⟨session, id, clients, given⟩ := linked.session.clientUp fresh
  obtain ⟨outside, quiet, stays⟩ := linked.said.early (.inl fresh)
  refine ⟨packets, t, u, session, ?_, ⟨linked.wire.stream, linked.wire.part, linked.wire.sent,
    linked.wire.follow, linked.wire.shown⟩, fun n v opened inside => ?_⟩
  · refine linked.said.moves clients (fun v member same => absurd same (outside v member)) quiet
      (fun _ same => by cases same) (fun left => by cases stays.symm.trans left)
      (fun _ => linked.said.silent conn (.inl fresh)) ?_
    intro n v inside its
    have member := List.mem_of_getElem? inside
    rcases given with ⟨rfl, given⟩ | ⟨-, given⟩
    · rw [given] at its
      refine ⟨its, fun same => ?_⟩
      have range := (linked.said.range v member).1
      rw [← Client.allocated.inj same] at range
      exact absurd range (by decide)
    · rw [given] at its
      by_cases same : v.2 = id
      · rw [same, Function.update_self, Option.some_inj] at its
        exact absurd its.symm (outside v member)
      · rw [Function.update_of_ne same] at its
        exact ⟨its, fun held => same (Client.allocated.inj held).symm⟩
  · have before := linked.last n v opened inside
    show (s.server.clientUp conn).given v.2 = some v.1
    rcases given with ⟨-, given⟩ | ⟨head, given⟩
    · rw [given]
      exact before
    · rw [given]
      by_cases same : v.2 = id
      · have opened : (s.demux.client n).state.opened = true := opened
        have made := linked.made_of_opened opened
        have alive : (s.demux.client n).state ≠ .stopped := fun stopped => by
          rw [stopped] at opened
          cases opened
        have entry := (linked.wire.shown.client n alive).2
        rw [linked.connId inside made, same, opened] at entry
        cases careful id head _ entry
      · rw [Function.update_of_ne same]
        exact before

theorem Linked.announce (linked : Linked s packets t u) (peer : Peer)
    (allocated : s.server.client conn = .allocated id) :
    ∃ s', s.announce peer conn = some s' ∧ Links s' := by
  have session := linked.session.setContext allocated
  have early : s.server.client conn = .unknown ∨ (s.server.client conn).isAllocated :=
    .inr (by rw [allocated]; rfl)
  obtain ⟨outside, quiet, stays⟩ := linked.said.early early
  rw [Relay.announce, allocated]
  dsimp only
  split
  · rename_i none_
    have clients : (s.server.setContext conn id).client =
        Function.update s.server.client conn (.up none) := by
      show Function.update _ _ _ = _
      rw [if_pos none_]
    have said := linked.said.moves clients (fun v member same => absurd same (outside v member)) quiet
      (fun _ same => by cases same) (fun left => by cases stays.symm.trans left)
      (fun _ => linked.said.silent conn early) (fun _ _ _ given => ⟨given, fun same => by cases same⟩)
    exact ⟨_, rfl, packets, t, u, session, said, ⟨linked.wire.stream, linked.wire.part,
      linked.wire.sent, linked.wire.follow, linked.wire.shown⟩, linked.last⟩
  · rename_i positive
    have low : 0 < id := Int.lt_of_not_ge positive
    have high : id ≤ kMaxConns := (linked.session.kept.ids conn id (by
      rw [allocated]
      exact if_neg positive)).2.1
    obtain ⟨u', next, said⟩ := linked.said.announce linked.session allocated low peer
    obtain ⟨some_, short⟩ := sent_command peer " IS UP\r\n" (by decide) low high
    refine linked.write (p := .up id peer) ⟨low, high, some_, short⟩ next said session rfl rfl ?_
    intro n v opened inside
    have bound := linked.made_of_opened opened
    rcases getElem?_concat_iff.mp inside with inside | ⟨here, -⟩
    · exact linked.last n v opened inside
    · have le := linked.made_le
      omega

theorem Linked.packet (linked : Linked s packets t u) (more : s.outgoing conn ≠ []) :
    ∃ s', s.packet conn = some s' ∧ Links s' := by
  obtain ⟨stays, id, up⟩ := linked.said.outgoing conn more
  obtain ⟨u', next, said⟩ := linked.said.packet up stays (nextPacket_append (s.outgoing conn))
  obtain ⟨low, high, -⟩ := linked.session.kept.ids conn id (congrArg Client.id? up)
  rw [Relay.packet, up]
  exact linked.write (p := .data id (nextPacket (s.outgoing conn)).1)
    ⟨low, high, nextPacket_ne_nil more, nextPacket_length _⟩ next said linked.session rfl rfl linked.last

theorem Linked.leave (linked : Linked s packets t u) (peer : Peer)
    (up : (s.server.client conn).isUp) (stays : s.leaving conn = false) (quiet : s.outgoing conn = []) :
    ∃ s', s.leave peer conn = some s' ∧ Links s' := by
  cases client : s.server.client conn with
  | unknown | allocated id | down =>
    rw [client] at up
    cases up
  | up context =>
    rw [Relay.leave, client]
    cases context with
    | none =>
      have said : Said { s with leaving := Function.update s.leaving conn true } u :=
        linked.said.leaves linked.session up quiet (fun id n =>
          (and_iff_left (by rw [client]; exact (fun same => by cases same))).symm) rfl rfl
      exact ⟨_, rfl, packets, t, u, linked.session, said, ⟨linked.wire.stream, linked.wire.part,
        linked.wire.sent, linked.wire.follow, linked.wire.shown⟩, linked.last⟩
    | some id =>
      obtain ⟨low, high, -⟩ := linked.session.kept.ids conn id (congrArg Client.id? client)
      obtain ⟨n, live, -⟩ := linked.said.live_of_up client stays
      obtain ⟨some_, short⟩ := sent_command peer " IS DOWN\r\n" (by decide) low high
      have next : u.follow (.down id peer) = some { u with live := Function.update u.live id none } :=
        congrArg (Option.map _) live
      have said : Said { s with leaving := Function.update s.leaving conn true }
          { u with live := Function.update u.live id none } := by
        refine linked.said.leaves linked.session up quiet (fun k m => ?_) rfl rfl
        rw [client]
        by_cases same : k = id
        · simp [same]
        · simp [Function.update_of_ne same, Ne.symm same]
      exact linked.write (p := .down id peer) ⟨low, high, some_, short⟩ next said linked.session rfl rfl
        linked.last

theorem Linked.clientDown (linked : Linked s packets t u) (up : (s.server.client conn).isUp)
    (left : s.leaving conn = true) : ∃ server, s.server.step (.clientDown conn) = some server ∧
      Links { s with server := server } := by
  cases client : s.server.client conn with
  | unknown | allocated id | down =>
    rw [client] at up
    cases up
  | up context =>
    obtain ⟨server, done, session, clients, given⟩ := linked.session.clientDown client
    have quiet : s.outgoing conn = [] := by
      by_contra more
      cases left.symm.trans (linked.said.outgoing conn more).1
    have said : Said { s with server := server } u := by
      refine linked.said.moves clients (fun _ _ _ => ⟨rfl, left⟩) quiet (fun _ same => by cases same) (fun _ => rfl)
        (fun early => ?_) fun _ _ _ its => ⟨given ▸ its, fun same => by cases same⟩
      rcases early with early | early <;> cases early
    refine ⟨server, done, packets, t, u, session, said, ⟨linked.wire.stream, linked.wire.part,
      linked.wire.sent, linked.wire.follow, linked.wire.shown⟩, fun n v opened inside => ?_⟩
    exact given.symm ▸ linked.last n v opened inside

theorem Linked.demux (linked : Linked s packets t u) {d : DemuxServer} (shown : d.Shown t)
    (buffer : d.buffer = s.demux.buffer)
    (last : ∀ (n : Nat) (v : Conn × Int), (d.client n).state.opened → s.ups[n]? = some v →
      s.server.given v.2 = some v.1) : Links { s with demux := d } := by
  refine ⟨packets, t, u, linked.session, linked.said.wire _ d, ⟨?_, buffer.symm ▸ linked.wire.part,
    linked.wire.sent, linked.wire.follow, shown⟩, last⟩
  show d.buffer ++ s.stream = _
  rw [buffer, linked.wire.stream]

theorem Linked.step (linked : Linked s packets t u) (peer : Conn → Peer) {e : RelayStep}
    (enabled : s.Enabled e) (careful : s.Careful e) : ∃ s', s.take peer e = some s' ∧ Links s' := by
  cases e with
  | clientUp conn =>
    exact ⟨_, congrArg (Option.map _) (if_pos enabled), linked.clientUp enabled careful⟩
  | announce conn =>
    cases client : s.server.client conn with
    | allocated id => exact linked.announce (peer conn) client
    | unknown | up context | down =>
      have allocated : (s.server.client conn).isAllocated = true := enabled
      rw [client] at allocated
      cases allocated
  | message conn data =>
    obtain ⟨up, stays, quiet⟩ := enabled
    rw [take, Relay.message]
    cases client : s.server.client conn with
    | unknown | allocated id | down =>
      rw [client] at up
      cases up
    | up context =>
      cases context with
      | none => exact ⟨s, rfl, packets, t, u, linked⟩
      | some id =>
        exact ⟨_, rfl, packets, t, u, linked.session, linked.said.message client stays quiet data,
          ⟨linked.wire.stream, linked.wire.part, linked.wire.sent, linked.wire.follow,
            linked.wire.shown⟩, linked.last⟩
  | packet conn => exact linked.packet enabled
  | leave conn => exact linked.leave (peer conn) enabled.1 enabled.2.1 enabled.2.2
  | clientDown conn =>
    obtain ⟨server, done, links⟩ := linked.clientDown enabled.1 enabled.2
    exact ⟨_, congrArg (Option.map _) done, links⟩
  | read n =>
    obtain ⟨s', after, t', done, same, wire, opened⟩ := linked.wire.read n linked.free
    refine ⟨s', done, after, t', u, ?_⟩
    rw [same] at wire ⊢
    exact ⟨linked.session, linked.said.wire _ _, wire,
      fun m v its inside => linked.last m v (opened m its) inside⟩
  | socksUp n =>
    obtain ⟨d, done, shown, buffer, opened⟩ := linked.wire.shown.socksUp enabled
    refine ⟨_, congrArg (Option.map _) done, linked.demux shown buffer fun m v its inside => ?_⟩
    rcases (opened m its).1 with rfl | before
    · exact careful v inside
    · exact linked.last m v before inside
  | socksDown n =>
    obtain ⟨d, done, shown, buffer, opened⟩ := linked.wire.shown.socksDown enabled
    exact ⟨_, congrArg (Option.map _) done, linked.demux shown buffer
      fun m v its inside => linked.last m v (opened m its).1 inside⟩
  | socksMessage n buf =>
    have alive : (s.demux.client n).state ≠ .stopped := by
      rcases enabled with state | state <;> rw [state] <;> decide
    obtain ⟨answers, done⟩ := linked.wire.shown.socksMessage alive buf
    exact ⟨_, congrArg (Option.map _) done, linked.demux (linked.wire.shown.answers answers) rfl
      linked.last⟩

theorem Linked.init {server : MultiplexServer} (up : MultiplexServer.new.backendUp = some server) :
    Links (init server) := by
  have session := Session.ofBackendUp up
  have fresh : ∀ conn id, server.client conn ≠ .up (some id) := by
    cases up
    exact fun _ _ => nofun
  exact ⟨[], .new, .new, session, .init server fresh,
    ⟨rfl, rfl, fun _ member => (nomatch member), rfl, .new⟩, fun _ _ opened => nomatch opened⟩

theorem links_of_reach {peer : Conn → Peer} (reach : Reach (machine peer) Careful s) : Links s := by
  refine reach.invariant ?_ fun s e s' ⟨packets, t, u, linked⟩ careful next => ?_
  · rintro _ ⟨server, up, rfl⟩
    exact Linked.init up
  · obtain ⟨enabled, takes⟩ := Option.ite_none_right_eq_some.mp next
    obtain ⟨s'', takes', links⟩ := linked.step peer enabled careful
    cases takes.symm.trans takes'
    exact links

/-- Over careful runs no assertion fails, and what the clients send comes to the socks connections
made for them. -/
theorem relays {peer : Conn → Peer} (reach : Reach (machine peer) Careful s) :
    Delivered s ∧ ∀ e, s.Enabled e → s.Careful e → (s.step peer e).isSome := by
  obtain ⟨packets, t, u, linked⟩ := links_of_reach reach
  refine ⟨linked.delivered, fun e enabled careful => ?_⟩
  obtain ⟨s', takes, -⟩ := linked.step peer enabled careful
  rw [Relay.step, if_pos enabled, takes]
  rfl

def localPeer (conn : Conn) : Peer where
  toIpPort := "127.0.0.1:".toList ++ (if conn % 2 = 0 then "4000" else "4001").toList
  chars c inside := by
    have all : (("127.0.0.1:".toList ++ "4000".toList ++ "4001".toList).all fun c =>
        decide (c ∈ ipPortChars)) = true := by decide
    refine of_decide_eq_true (List.all_eq_true.mp all c ?_)
    split at inside <;> simp only [List.mem_append] at inside ⊢ <;> tauto
  short := by
    split <;> decide

theorem relays_twoClients : ∃ s, Reach (machine localPeer) Careful s ∧
    (s.stream = [] ∧ s.sent 0 = List.replicate 20 7 ++ [8, 9] ∧ (s.demux.client 0).state = .connected) ∧
      Delivered s ∧ (s.step localPeer (.socksDown 0)).isSome := by
  have runs : ((MultiplexServer.new.backendUp.bind fun server =>
      execWhere (machine localPeer) Careful (init server) (
        [RelayStep.clientUp 0, .announce 0, .clientUp 1, .announce 1,
          .message 0 (List.replicate 20 7), .message 1 [1, 2, 3], .packet 0, .packet 1, .read 80, .socksUp 0, .message 0 [8, 9],
          .packet 0, .leave 1, .clientDown 1, .read 67] ++
        (List.range 8).map (fun i => RelayStep.clientUp (i + 2)) ++
        [RelayStep.clientUp 10, .announce 10])).bind fun s =>
      execWhere (machine localPeer) Careful s [.read s.stream.length]).any (fun s => decide
        (s.stream = [] ∧ s.sent 0 = List.replicate 20 7 ++ [8, 9] ∧ (s.demux.client 0).state = .connected ∧
          s.Enabled (.socksDown 0) ∧ s.Careful (.socksDown 0))) = true := by
    decide +kernel
  obtain ⟨s, run, reached⟩ := (Option.any_eq_true _ _).mp runs
  obtain ⟨stream, sent, state, enabled, careful⟩ := of_decide_eq_true reached
  obtain ⟨middle, run, last⟩ := Option.bind_eq_some_iff.mp run
  obtain ⟨server, up, run⟩ := Option.bind_eq_some_iff.mp run
  have begins : Reach (machine localPeer) Careful (init server) := .start ⟨server, up, rfl⟩
  have reach := (begins.execWhere run).execWhere last
  obtain ⟨delivered, steps⟩ := relays reach
  exact ⟨s, reach, ⟨stream, sent, state⟩, delivered, steps _ enabled careful⟩

theorem reused_id_fails : ¬ ∀ s, Reachable (machine localPeer) s →
    Delivered s ∧ ∀ e, s.Enabled e → (s.step localPeer e).isSome := by
  intro always
  have runs : ((MultiplexServer.new.backendUp.bind fun server =>
      exec (machine localPeer) (init server) (
        [RelayStep.clientUp 0, .announce 0, .read 37, .socksUp 0, .leave 0, .clientDown 0] ++
        (List.range 9).map (fun i => RelayStep.clientUp (i + 1)) ++
        [RelayStep.clientUp 10, .announce 10])).any fun s =>
      decide (s.Enabled (.read s.stream.length) ∧
        (s.step localPeer (.read s.stream.length)).isSome = false)) = true := by
    decide +kernel
  obtain ⟨s, run, reached⟩ := (Option.any_eq_true _ _).mp runs
  obtain ⟨enabled, fails⟩ := of_decide_eq_true reached
  obtain ⟨server, up, run⟩ := Option.bind_eq_some_iff.mp run
  have succeeds := (always s (Reach.exec (.start ⟨server, up, rfl⟩) run)).2 _ enabled
  rw [fails] at succeeds
  cases succeeds

end Relay

end ProjectsCpp.Multiplexer
