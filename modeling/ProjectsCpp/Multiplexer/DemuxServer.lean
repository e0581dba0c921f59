import ProjectsCpp.Multiplexer.Packets
import ProjectsCpp.Lib.Frames

/-! The other end (`demux.cc`), during one session with its backend connection: `serverConn_` is set.
A failing assertion gives `none`. -/

namespace ProjectsCpp.Multiplexer
open ProjectsCpp.Text ProjectsCpp.Substring ProjectsCpp.Frames

/-- The connection of a `TcpClient`; it is `stopped` where the client was destroyed before there was
one. -/
inductive SocksState where
  | connecting | connected | disconnecting | disconnected | stopped
deriving DecidableEq

/-- `connId` is bound to its callbacks, `received` has what was sent to its connection. -/
structure TcpClient where
  connId : Int
  state : SocksState
  received : List UInt8
deriving DecidableEq

/-- `connection` tells whether the pointer is set. -/
structure Entry where
  client : Nat
  connection : Bool
  pending : List UInt8
deriving DecidableEq

/-- The clients have the numbers up to `made`; `answers` has what went to `serverConn_`. -/
structure DemuxServer where
  buffer : List UInt8
  socksConns : Int → Option Entry
  client : Nat → TcpClient
  made : Nat
  answers : List UInt8

namespace DemuxServer

def new : DemuxServer := ⟨[], fun _ => none, fun _ => ⟨0, .stopped, []⟩, 0, []⟩

def setEntry (d : DemuxServer) (connId : Int) (entry : Option Entry) : DemuxServer :=
  { d with socksConns := Function.update d.socksConns connId entry }

def setClient (d : DemuxServer) (n : Nat) (client : TcpClient) : DemuxServer :=
  { d with client := Function.update d.client n client }

def setState (d : DemuxServer) (n : Nat) (state : SocksState) : DemuxServer :=
  d.setClient n { d.client n with state := state }

def send (d : DemuxServer) (n : Nat) (data : List UInt8) : DemuxServer :=
  if (d.client n).state = .connected then
    d.setClient n { d.client n with received := (d.client n).received ++ data }
  else d

def shutdown (d : DemuxServer) (n : Nat) : DemuxServer :=
  if (d.client n).state = .connected then d.setState n .disconnecting else d

def doCommand (d : DemuxServer) (cmd : Str) : Option DemuxServer :=
  let connId := atoi (cmd.drop 5)
  let isUp := (findSub " IS UP".toList cmd).isSome
  match d.socksConns connId with
  | none =>
    if isUp then
      let made := d.setClient d.made ⟨connId, .connecting, []⟩
      some { made.setEntry connId (some ⟨d.made, false, []⟩) with made := d.made + 1 }
    else none
  | some entry =>
    if isUp then none
    else if entry.connection then some (d.shutdown entry.client)
    else some ((d.setState entry.client .stopped).setEntry connId none)

/-- The body of the loop of `onServerMessage`. -/
def onPacket (d : DemuxServer) (connId : Int) (data : List UInt8) : Option DemuxServer :=
  if connId ≠ 0 then
    match d.socksConns connId with
    | none => none
    | some entry =>
      if entry.connection then
        if entry.pending = [] then some (d.send entry.client data) else none
      else some (d.setEntry connId (some { entry with pending := entry.pending ++ data }))
  else d.doCommand (toText data)

def connIdOf (low high : UInt8) : Int := ((low.toNat ||| high.toNat <<< 8 : Nat) : Int)

def onServerMessage : Nat → DemuxServer → Option DemuxServer
  | 0, _ => none
  | rounds + 1, d =>
    match d.buffer with
    | len :: low :: high :: byte :: bytes =>
      let data := byte :: bytes
      if data.length < len.toNat then some d
      else (d.onPacket (connIdOf low high) (data.take len.toNat)).bind fun d =>
        onServerMessage rounds { d with buffer := data.drop len.toNat }
    | _ => some d

/-- `onSocksConnection` of the client, when its connection comes up. -/
def socksUp (d : DemuxServer) (n : Nat) : Option DemuxServer :=
  let connId := (d.client n).connId
  (d.socksConns connId).map fun entry =>
    let up := (d.setState n .connected).setEntry connId (some { entry with connection := true })
    if entry.pending = [] then up
    else (up.setEntry connId (some ⟨entry.client, true, []⟩)).send n entry.pending

def sendServerPacket (d : DemuxServer) (connId : Int) (buf : List UInt8) : Option DemuxServer :=
  (sendBackendPacket connId buf).map fun bytes => { d with answers := d.answers ++ bytes }

def socksDown (d : DemuxServer) (n : Nat) : Option DemuxServer :=
  let connId := (d.client n).connId
  if d.socksConns connId ≠ none then
    (d.setState n .disconnected).sendServerPacket 0
      (toBytes (snprintf ("DISCONNECT ".toList ++ decimal connId ++ "\r\n".toList)))
  else none

def sendServerBuffer (connId : Int) : Nat → DemuxServer → List UInt8 → Option DemuxServer
  | 0, d, _ => some d
  | packets + 1, d, buf =>
    if buf = [] then some d
    else (d.sendServerPacket connId (nextPacket buf).1).bind fun d =>
      sendServerBuffer connId packets d (nextPacket buf).2

def socksMessage (d : DemuxServer) (n : Nat) (buf : List UInt8) : Option DemuxServer :=
  let connId := (d.client n).connId
  if d.socksConns connId ≠ none then sendServerBuffer connId buf.length d buf else none

end DemuxServer

/-! ### What the packets mean -/

inductive Packet where
  | up (id : Int) (peer : Peer)
  | data (id : Int) (bytes : List UInt8)
  | down (id : Int) (peer : Peer)

namespace Packet

def id : Packet → Int
  | .up id _ => id
  | .data id _ => id
  | .down id _ => id

def isUp : Packet → Bool
  | .up _ _ => true
  | _ => false

def target : Packet → Int
  | .data id _ => id
  | _ => 0

def payload : Packet → List UInt8
  | .up id peer => toBytes (upCommand id peer)
  | .data _ bytes => bytes
  | .down id peer => toBytes (downCommand id peer)

def frame (p : Packet) : List UInt8 := header p.payload.length p.target ++ p.payload

structure Sent (p : Packet) : Prop where
  low : 0 < p.id
  high : p.id ≤ kMaxConns
  some : p.payload ≠ []
  short : p.payload.length ≤ kMaxPacketLen

end Packet

/-- The life time of the ids in a sequence of packets: the client of an id that is not down, the
ids of the clients so far, and the bytes for each of them. -/
structure Track where
  live : Int → Option Nat
  ids : List Int
  bytes : Nat → List UInt8

namespace Track

def new : Track := ⟨fun _ => none, [], fun _ => []⟩

def follow (t : Track) : Packet → Option Track
  | .up id _ =>
    if t.live id = none then
      some ⟨Function.update t.live id (some t.ids.length), t.ids ++ [id],
        Function.update t.bytes t.ids.length []⟩
    else none
  | .data id bytes => (t.live id).map fun n =>
    { t with bytes := Function.update t.bytes n (t.bytes n ++ bytes) }
  | .down id _ => (t.live id).map fun _ => { t with live := Function.update t.live id none }

theorem follow_grows {t t' : Track} {p : Packet} (next : t.follow p = some t') {n : Nat}
    (made : n < t.ids.length) : n < t'.ids.length ∧ t.bytes n <+: t'.bytes n := by
  cases p with
  | up id peer =>
    obtain ⟨-, made'⟩ := Option.ite_none_right_eq_some.mp next
    cases made'
    refine ⟨by rw [List.length_append]; exact Nat.lt_add_right _ made, ?_⟩
    simp only [Function.update_of_ne (Nat.ne_of_lt made), List.prefix_rfl]
  | data id bytes =>
    obtain ⟨m, -, rfl⟩ := Option.map_eq_some_iff.mp next
    refine ⟨made, ?_⟩
    by_cases same : n = m
    · simp only [same, Function.update_self, List.prefix_append]
    · simp only [Function.update_of_ne same, List.prefix_rfl]
  | down id peer =>
    obtain ⟨m, -, rfl⟩ := Option.map_eq_some_iff.mp next
    exact ⟨made, List.prefix_rfl⟩

theorem foldlM_grows {ps : List Packet} {t t' : Track} (next : ps.foldlM follow t = some t')
    {n : Nat} (made : n < t.ids.length) : t.bytes n <+: t'.bytes n := by
  induction ps generalizing t with
  | nil =>
    cases next
    exact List.prefix_rfl
  | cons p ps ih =>
    rw [List.foldlM_cons] at next
    obtain ⟨u, first, rest⟩ := Option.bind_eq_some_iff.mp next
    obtain ⟨made', grows⟩ := follow_grows first made
    exact grows.trans (ih rest made')

theorem foldlM_ids {ps : List Packet} {t t' : Track} (next : ps.foldlM follow t = some t') :
    t'.ids = t.ids ++ (ps.filter Packet.isUp).map Packet.id := by
  induction ps generalizing t with
  | nil =>
    cases next
    exact (List.append_nil _).symm
  | cons p ps ih =>
    rw [List.foldlM_cons] at next
    obtain ⟨u, first, rest⟩ := Option.bind_eq_some_iff.mp next
    rw [ih rest]
    cases p with
    | up id peer =>
      obtain ⟨-, made⟩ := Option.ite_none_right_eq_some.mp first
      cases made
      exact List.append_assoc ..
    | data id bytes =>
      obtain ⟨n, -, rfl⟩ := Option.map_eq_some_iff.mp first
      rfl
    | down id peer =>
      obtain ⟨n, -, rfl⟩ := Option.map_eq_some_iff.mp first
      rfl

end Track

namespace SocksState

def opened (state : SocksState) : Bool := state ≠ .connecting ∧ state ≠ .stopped

def Holds (received bytes : List UInt8) : SocksState → Prop
  | .connecting => received = []
  | .connected | .disconnecting => received = bytes
  | .disconnected | .stopped => received <+: bytes

theorem Holds.part {received bytes : List UInt8} {state : SocksState}
    (holds : state.Holds received bytes) : received <+: bytes := by
  cases state with
  | connecting => exact holds ▸ List.nil_prefix
  | connected | disconnecting => exact holds ▸ List.prefix_rfl
  | disconnected | stopped => exact holds

end SocksState

namespace DemuxServer

/-- The server has followed the packets as far as `t`. -/
structure Shown (d : DemuxServer) (t : Track) : Prop where
  made : d.made = t.ids.length
  connId : ∀ n id, t.ids[n]? = some id → (d.client n).connId = id
  entry : ∀ id entry, d.socksConns id = some entry →
    (d.client entry.client).connId = id ∧ (d.client entry.client).state ≠ .stopped
  client : ∀ n, (d.client n).state ≠ .stopped → n < d.made ∧
    d.socksConns (d.client n).connId = some ⟨n, (d.client n).state.opened,
      if (d.client n).state.opened then [] else t.bytes n⟩
  live : ∀ id n, t.live id = some n → (d.client n).connId = id ∧
    (d.client n).state ≠ .stopped ∧ (d.client n).state ≠ .disconnecting
  waits : ∀ n, (d.client n).state = .connecting ∨ (d.client n).state = .connected →
    t.live (d.client n).connId = some n
  holds : ∀ n, (d.client n).state.Holds (d.client n).received (t.bytes n)

theorem Shown.new : Shown new Track.new where
  made := rfl
  connId _ _ inside := nomatch inside
  entry _ _ inside := nomatch inside
  client _ alive := absurd rfl alive
  live _ _ live := nomatch live
  waits _ state := by rcases state with state | state <;> cases state
  holds _ := List.prefix_rfl

variable {d : DemuxServer} {t t' : Track} {n : Nat}

@[simp] theorem setEntry_client (d : DemuxServer) (connId : Int) (entry : Option Entry) :
    (d.setEntry connId entry).client = d.client := rfl

@[simp] theorem setClient_socksConns (d : DemuxServer) (n : Nat) (client : TcpClient) :
    (d.setClient n client).socksConns = d.socksConns := rfl

theorem setClient_self (d : DemuxServer) (n : Nat) (client : TcpClient) :
    (d.setClient n client).client n = client := Function.update_self ..

theorem setClient_of_ne (d : DemuxServer) (client : TcpClient) {n k : Nat} (other : k ≠ n) :
    (d.setClient n client).client k = d.client k := Function.update_of_ne other ..

theorem Shown.of_live (shown : Shown d t) {id : Int} (live : t.live id = some n) :
    (d.client n).connId = id ∧ n < d.made ∧
      d.socksConns id = some ⟨n, (d.client n).state.opened,
        if (d.client n).state.opened then [] else t.bytes n⟩ := by
  obtain ⟨connId, alive, -⟩ := shown.live id n live
  obtain ⟨made, entry⟩ := shown.client n alive
  rw [connId] at entry
  exact ⟨connId, made, entry⟩

/-- The entry of client `n` with the bytes `bytes` for it. -/
def entryOf (n : Nat) (state : SocksState) (bytes : List UInt8) : Option Entry :=
  if state = .stopped then none
  else some ⟨n, state.opened, if state.opened then [] else bytes⟩

/-- A client changes, with the entry of its id and what is known of both. -/
structure Change (d : DemuxServer) (t : Track) (id : Int) (n : Nat) (client : TcpClient)
    (holder : Option Nat) (bytes : List UInt8) : Prop where
  before : (d.client n).connId = id ∨ (d.client n).state = .stopped ∧ n = d.made
  mine : ∀ entry, d.socksConns id = some entry → entry.client = n
  last : ∀ m, t.live id = some m → m = n
  connId : client.connId = id
  live : ∀ m, holder = some m → m = n ∧ client.state ≠ .stopped ∧ client.state ≠ .disconnecting
  waits : client.state = .connecting ∨ client.state = .connected → holder = some n
  holds : client.state.Holds client.received bytes

theorem Shown.change (shown : Shown d t) {id : Int} {client : TcpClient} {holder : Option Nat}
    {bytes : List UInt8} (change : Change d t id n client holder bytes) {d' : DemuxServer}
    (clients : d'.client = Function.update d.client n client)
    (entries : d'.socksConns = Function.update d.socksConns id (entryOf n client.state bytes))
    (ids : t'.ids = t.ids ∧ d'.made = d.made ∧ n < d.made ∨
      t'.ids = t.ids ++ [id] ∧ d'.made = d.made + 1 ∧ n = d.made)
    (lives : t'.live = Function.update t.live id holder)
    (bytes' : t'.bytes = Function.update t.bytes n bytes) : Shown d' t' := by
  have here : d'.client n = client := by rw [clients, Function.update_self]
  have other : ∀ m, m ≠ n → d'.client m = d.client m := fun m other => by
    rw [clients, Function.update_of_ne other]
  have made : d'.made = t'.ids.length ∧ d.made ≤ d'.made ∧ n < d'.made := by
    have before := shown.made
    rcases ids with ⟨ids, made, less⟩ | ⟨ids, made, here⟩
    · rw [ids]
      omega
    · rw [ids, List.length_append, List.length_singleton]
      omega
  refine ⟨made.1, fun m k known => ?_, fun k entry held => ?_, fun m alive => ?_, fun k m held => ?_,
    fun m state => ?_, fun m => ?_⟩
  · have old : t.ids[m]? = some k → m < d.made ∧ (d'.client m).connId = k := by
      intro old
      have less : m < d.made := shown.made ▸ (List.getElem?_eq_some_iff.mp old).1
      refine ⟨less, ?_⟩
      by_cases same : m = n
      · rw [same, here, change.connId]
        rcases change.before with before | ⟨-, fresh⟩
        · exact before.symm.trans (same ▸ shown.connId m k old)
        · omega
      · rw [other m same, shown.connId m k old]
    rcases ids with ⟨ids, -, -⟩ | ⟨ids, -, fresh⟩
    · rw [ids] at known
      exact (old known).2
    · rw [ids] at known
      by_cases less : m < t.ids.length
      · rw [List.getElem?_append_left less] at known
        exact (old known).2
      · obtain ⟨bound, -⟩ := List.getElem?_eq_some_iff.mp known
        rw [List.length_append, List.length_singleton] at bound
        have last : m = t.ids.length := by omega
        rw [last, List.getElem?_concat_length, Option.some_inj] at known
        rw [last, ← shown.made, ← fresh, here, change.connId, known]
  · by_cases same : k = id
    · rw [same, entries, Function.update_self, entryOf] at held
      obtain ⟨alive, held⟩ := Option.ite_none_left_eq_some.mp held
      cases held
      rw [here, same]
      exact ⟨change.connId, alive⟩
    · rw [entries, Function.update_of_ne same] at held
      obtain ⟨connId, alive⟩ := shown.entry k entry held
      have different : entry.client ≠ n := by
        rintro rfl
        rcases change.before with before | ⟨before, -⟩
        · exact same (connId.symm.trans before)
        · exact alive before
      rw [other _ different]
      exact ⟨connId, alive⟩
  · by_cases same : m = n
    · rw [same, here] at alive ⊢
      refine ⟨made.2.2, ?_⟩
      rw [change.connId, entries, Function.update_self, entryOf, if_neg alive, bytes',
        Function.update_self]
    · rw [other m same] at alive ⊢
      obtain ⟨less, entry⟩ := shown.client m alive
      have different : (d.client m).connId ≠ id := fun its => by
        rw [its] at entry
        exact same (change.mine _ entry)
      refine ⟨Nat.lt_of_lt_of_le less made.2.1, ?_⟩
      rw [entries, Function.update_of_ne different, entry, bytes', Function.update_of_ne same]
  · by_cases same : k = id
    · rw [same, lives, Function.update_self] at held
      obtain ⟨rfl, states⟩ := change.live m held
      rw [here, same]
      exact ⟨change.connId, states⟩
    · rw [lives, Function.update_of_ne same] at held
      obtain ⟨connId, states⟩ := shown.live k m held
      have different : m ≠ n := by
        rintro rfl
        rcases change.before with before | ⟨before, -⟩
        · exact same (connId.symm.trans before)
        · exact states.1 before
      rw [other m different]
      exact ⟨connId, states⟩
  · by_cases same : m = n
    · rw [same, here] at state ⊢
      rw [change.connId, lives, Function.update_self]
      exact change.waits state
    · rw [other m same] at state ⊢
      have held := shown.waits m state
      have different : (d.client m).connId ≠ id := fun its => by
        rw [its] at held
        exact same (change.last m held)
      rw [lives, Function.update_of_ne different, held]
  · by_cases same : m = n
    · rw [same, here, bytes', Function.update_self]
      exact change.holds
    · rw [other m same, bytes', Function.update_of_ne same]
      exact shown.holds m

/-! ### A packet -/

/-- After a packet: no connection has come up, and the rest of the buffer is as it was. -/
structure Handled (d d' : DemuxServer) (t' : Track) : Prop where
  shown : Shown d' t'
  buffer : d'.buffer = d.buffer
  opened : ∀ n, (d'.client n).state.opened →
    (d.client n).state.opened ∧ (d'.client n).connId = (d.client n).connId

theorem opened_setClient (d : DemuxServer) (n : Nat) (client : TcpClient)
    (its : client.state.opened → (d.client n).state.opened ∧ client.connId = (d.client n).connId)
    (m : Nat) (opened : ((d.setClient n client).client m).state.opened) :
    (d.client m).state.opened ∧ ((d.setClient n client).client m).connId = (d.client m).connId := by
  by_cases same : m = n
  · rw [same, setClient_self] at opened ⊢
    exact its opened
  · rw [setClient_of_ne d _ same] at opened ⊢
    exact ⟨opened, rfl⟩

theorem Shown.state_of_live (shown : Shown d t) {id : Int} (live : t.live id = some n) :
    (d.client n).state = .connecting ∨ (d.client n).state = .connected ∨
      (d.client n).state = .disconnected := by
  obtain ⟨-, stopped, disconnecting⟩ := shown.live id n live
  cases state : (d.client n).state with
  | connecting => exact .inl rfl
  | connected => exact .inr (.inl rfl)
  | disconnected => exact .inr (.inr rfl)
  | disconnecting => exact absurd state disconnecting
  | stopped => exact absurd state stopped

theorem Shown.changes (shown : Shown d t) {id : Int} (live : t.live id = some n)
    {client : TcpClient} {holder : Option Nat} {bytes : List UInt8} (connId : client.connId = id)
    (held : ∀ m, holder = some m → m = n ∧ client.state ≠ .stopped ∧ client.state ≠ .disconnecting)
    (waits : client.state = .connecting ∨ client.state = .connected → holder = some n)
    (holds : client.state.Holds client.received bytes) : Change d t id n client holder bytes where
  before := .inl (shown.of_live live).1
  mine entry inside := by
    obtain ⟨-, -, here⟩ := shown.of_live live
    cases here.symm.trans inside
    rfl
  last m its := Option.some.inj (its.symm.trans live)
  connId := connId
  live := held
  waits := waits
  holds := holds

theorem Shown.keeps (shown : Shown d t) {id : Int} (live : t.live id = some n)
    {received bytes : List UInt8} (holds : (d.client n).state.Holds received bytes) :
    Change d t id n { d.client n with received := received } (some n) bytes := by
  obtain ⟨connId, stopped, disconnecting⟩ := shown.live id n live
  refine shown.changes live connId (fun m its => ?_) (fun _ => rfl) holds
  cases its
  exact ⟨rfl, stopped, disconnecting⟩

theorem Shown.onData (shown : Shown d t) {id : Int} (some_id : id ≠ 0) (live : t.live id = some n)
    (bytes : List UInt8) : ∃ d', d.onPacket id bytes = some d' ∧
      Handled d d' { t with bytes := Function.update t.bytes n (t.bytes n ++ bytes) } := by
  obtain ⟨-, less, entry⟩ := shown.of_live live
  have holds := shown.holds n
  have same : t.live = Function.update t.live id (some n) := live ▸ (Function.update_eq_self id t.live).symm
  rw [onPacket, if_pos some_id, entry]
  rcases shown.state_of_live live with state | state | state
  · rw [state] at holds
    refine ⟨d.setEntry id (some ⟨n, false, t.bytes n ++ bytes⟩), by rw [state]; rfl, ?_, rfl,
      fun _ opened => ⟨opened, rfl⟩⟩
    have still : (d.client n).state.Holds (d.client n).received (t.bytes n ++ bytes) := by
      rw [state]
      exact holds
    refine shown.change (shown.keeps live still) (Function.update_eq_self n d.client).symm ?_
      (.inl ⟨rfl, rfl, less⟩) same rfl
    rw [state]
    rfl
  · rw [state] at holds entry
    have sent : d.send n bytes =
        d.setClient n { d.client n with received := (d.client n).received ++ bytes } := if_pos state
    refine ⟨d.send n bytes, by rw [state]; rfl, ?_, by rw [sent]; rfl, ?_⟩
    · have more : (d.client n).state.Holds ((d.client n).received ++ bytes) (t.bytes n ++ bytes) := by
        rw [state]
        exact congrArg (· ++ bytes) holds
      rw [sent]
      refine shown.change (shown.keeps live more) rfl ?_ (.inl ⟨rfl, rfl, less⟩) same rfl
      rw [state]
      exact (Function.update_eq_self_iff.mpr entry.symm).symm
    · rw [sent]
      exact opened_setClient d n _ fun opened => ⟨opened, rfl⟩
  · rw [state] at holds entry
    have sent : d.send n bytes = d := if_neg (by rw [state]; decide)
    refine ⟨d, by rw [state]; exact congrArg some sent, ?_, rfl, fun _ opened => ⟨opened, rfl⟩⟩
    have part : (d.client n).state.Holds (d.client n).received (t.bytes n ++ bytes) := by
      rw [state]
      exact holds.trans (List.prefix_append ..)
    refine shown.change (shown.keeps live part) (Function.update_eq_self n d.client).symm ?_
      (.inl ⟨rfl, rfl, less⟩) same rfl
    rw [state]
    exact (Function.update_eq_self_iff.mpr entry.symm).symm

variable {id : Int} {peer : Peer}

theorem doCommand_up (d : DemuxServer) (low : 0 < id) (high : id ≤ kMaxConns)
    (free : d.socksConns id = none) : d.doCommand (upCommand id peer) =
      some { (d.setClient d.made ⟨id, .connecting, []⟩).setEntry id (some ⟨d.made, false, []⟩) with
        made := d.made + 1 } := by
  have connId : atoi ((upCommand id peer).drop 5) = id := command_id low high (by decide)
  simp only [doCommand, connId, upCommand_isUp low high, free, if_true]

theorem doCommand_down (d : DemuxServer) (low : 0 < id) (high : id ≤ kMaxConns) {entry : Entry}
    (inside : d.socksConns id = some entry) : d.doCommand (downCommand id peer) =
      some (if entry.connection then d.shutdown entry.client
        else (d.setState entry.client .stopped).setEntry id none) := by
  have connId : atoi ((downCommand id peer).drop 5) = id := command_id low high (by decide)
  simp only [doCommand, connId, downCommand_isUp low high, inside, Bool.false_eq_true, if_false]
  split <;> rfl

theorem Shown.onUp (shown : Shown d t) (peer : Peer) (low : 0 < id) (high : id ≤ kMaxConns)
    (dead : t.live id = none) (free : ∀ entry, d.socksConns id = some entry → entry.connection = false) :
    ∃ d', d.doCommand (upCommand id peer) = some d' ∧
      Handled d d' ⟨Function.update t.live id (some t.ids.length), t.ids ++ [id],
        Function.update t.bytes t.ids.length []⟩ := by
  have none_ : d.socksConns id = none := by
    refine Option.eq_none_iff_forall_ne_some.mpr fun entry inside => ?_
    obtain ⟨connId, alive⟩ := shown.entry id entry inside
    have its := (shown.client entry.client alive).2
    rw [connId, inside, Option.some_inj] at its
    have closed := (congrArg Entry.connection its).symm.trans (free entry inside)
    have connecting : (d.client entry.client).state = .connecting := by
      cases state : (d.client entry.client).state with
      | connecting => rfl
      | stopped => exact absurd state alive
      | connected | disconnecting | disconnected => rw [state] at closed; cases closed
    have live := shown.waits entry.client (.inl connecting)
    rw [connId, dead] at live
    cases live
  refine ⟨_, doCommand_up d low high none_, ?_, rfl,
    opened_setClient d d.made ⟨id, .connecting, []⟩ nofun⟩
  have unused : (d.client d.made).state = .stopped := by
    by_contra alive
    exact Nat.lt_irrefl _ (shown.client d.made alive).1
  have change : Change d t id d.made ⟨id, .connecting, []⟩ (some d.made) [] :=
    ⟨.inr ⟨unused, rfl⟩, fun _ inside => (nomatch none_.symm.trans inside),
      fun _ its => (nomatch dead.symm.trans its), rfl,
      fun m its => ⟨(Option.some.inj its).symm, nofun, nofun⟩, fun _ => rfl, rfl⟩
  exact shown.change change rfl rfl (.inr ⟨rfl, rfl, rfl⟩) (by rw [shown.made]) (by rw [shown.made])

theorem Shown.onDown (shown : Shown d t) (peer : Peer) (low : 0 < id) (high : id ≤ kMaxConns)
    (live : t.live id = some n) : ∃ d', d.doCommand (downCommand id peer) = some d' ∧
      Handled d d' { t with live := Function.update t.live id none } := by
  obtain ⟨connId, less, entry⟩ := shown.of_live live
  have holds := shown.holds n
  have same : t.bytes = Function.update t.bytes n (t.bytes n) := (Function.update_eq_self n t.bytes).symm
  have changed : ∀ state, state = .stopped ∨ state = .disconnecting ∨ state = .disconnected →
      state.Holds (d.client n).received (t.bytes n) →
      Change d t id n { d.client n with state := state } none (t.bytes n) := by
    intro state states holds
    refine shown.changes live connId (fun m its => nomatch its) (fun waits => ?_) holds
    rcases states with rfl | rfl | rfl <;> rcases waits with waits | waits <;> cases waits
  rw [doCommand_down d low high entry]
  refine ⟨_, rfl, ?_⟩
  rcases shown.state_of_live live with state | state | state
  · rw [state] at holds entry ⊢
    have part : (d.client n).received <+: t.bytes n := holds ▸ List.nil_prefix
    exact {
      shown := shown.change (changed .stopped (.inl rfl) part) rfl rfl (.inl ⟨rfl, rfl, less⟩)
        rfl same
      buffer := rfl
      opened := opened_setClient d n _ nofun }
  · rw [state] at holds entry ⊢
    have shut : d.shutdown n = d.setState n .disconnecting := if_pos state
    have handled : Handled d (d.setState n .disconnecting)
        { t with live := Function.update t.live id none } := {
      shown := shown.change (changed .disconnecting (.inr (.inl rfl)) holds) rfl
        (Function.update_eq_self_iff.mpr entry.symm).symm (.inl ⟨rfl, rfl, less⟩) rfl same
      buffer := rfl
      opened := opened_setClient d n _ fun _ => ⟨by rw [state]; rfl, rfl⟩ }
    exact shut ▸ handled
  · have shut : d.shutdown n = d := if_neg (by rw [state]; decide)
    have kept : d.client = Function.update d.client n { d.client n with state := .disconnected } :=
      (Function.update_eq_self_iff.mpr (by rw [← state])).symm
    rw [state] at holds entry ⊢
    have handled : Handled d d { t with live := Function.update t.live id none } := {
      shown := shown.change (changed .disconnected (.inr (.inr rfl)) holds) kept
        (Function.update_eq_self_iff.mpr entry.symm).symm (.inl ⟨rfl, rfl, less⟩) rfl same
      buffer := rfl
      opened := fun _ opened => ⟨opened, rfl⟩ }
    show Handled d (d.shutdown n) _
    rw [shut]
    exact handled

theorem Shown.onPacket (shown : Shown d t) {p : Packet} (sent : p.Sent)
    (next : t.follow p = some t') (free : p.isUp → ∀ entry, d.socksConns p.id = some entry →
      entry.connection = false) :
    ∃ d', d.onPacket p.target p.payload = some d' ∧ Handled d d' t' := by
  have low := sent.low
  have high := sent.high
  cases p with
  | up id peer =>
    obtain ⟨dead, made⟩ := Option.ite_none_right_eq_some.mp next
    cases made
    obtain ⟨d', done, handled⟩ := shown.onUp peer low high dead (free rfl)
    have said : toText (toBytes (upCommand id peer)) = upCommand id peer :=
      toText_toBytes (command_ascii low high (by decide) (by decide))
    have command : d.onPacket 0 (toBytes (upCommand id peer)) = d.doCommand (upCommand id peer) :=
      (if_neg (not_not_intro rfl)).trans (congrArg d.doCommand said)
    exact ⟨d', command.trans done, handled⟩
  | data id bytes =>
    obtain ⟨n, live, rfl⟩ := Option.map_eq_some_iff.mp next
    exact shown.onData (Int.ne_of_gt low) live bytes
  | down id peer =>
    obtain ⟨n, live, rfl⟩ := Option.map_eq_some_iff.mp next
    obtain ⟨d', done, handled⟩ := shown.onDown peer low high live
    have said : toText (toBytes (downCommand id peer)) = downCommand id peer :=
      toText_toBytes (command_ascii low high (by decide) (by decide))
    have command : d.onPacket 0 (toBytes (downCommand id peer)) = d.doCommand (downCommand id peer) :=
      (if_neg (not_not_intro rfl)).trans (congrArg d.doCommand said)
    exact ⟨d', command.trans done, handled⟩

/-! ### The loop -/

theorem connIdOf_target {p : Packet} (sent : p.Sent) :
    connIdOf (UInt8.ofNat (p.target % 256).toNat) (UInt8.ofNat (p.target / 256 % 256).toNat) =
      p.target := by
  have bounds : 0 ≤ p.target ∧ p.target ≤ 10 := by
    have low := sent.low
    have high := sent.high
    rw [kMaxConns] at high
    cases p with
    | up id peer => exact ⟨le_rfl, (by decide : (0 : Int) ≤ 10)⟩
    | data id bytes => exact ⟨Int.le_of_lt low, high⟩
    | down id peer => exact ⟨le_rfl, (by decide : (0 : Int) ≤ 10)⟩
  obtain ⟨low, high⟩ := bounds
  generalize p.target = id at low high
  interval_cases id <;> rfl

theorem onServerMessage_frame {p : Packet} (sent : p.Sent) {rest : List UInt8} (rounds : Nat)
    (buffer : d.buffer = p.frame ++ rest) : d.onServerMessage (rounds + 1) =
      (d.onPacket p.target p.payload).bind fun d => onServerMessage rounds { d with buffer := rest } := by
  obtain ⟨byte, bytes, payload⟩ := List.exists_cons_of_ne_nil sent.some
  have len : (UInt8.ofNat p.payload.length).toNat = p.payload.length := by
    have short := sent.short
    rw [kMaxPacketLen] at short
    rw [UInt8.toNat_ofNat']
    omega
  have data : byte :: (bytes ++ rest) = p.payload ++ rest := by rw [payload, List.cons_append]
  have whole : ¬(p.payload ++ rest).length < p.payload.length := by
    rw [List.length_append]
    omega
  have parts : d.buffer = UInt8.ofNat p.payload.length :: UInt8.ofNat (p.target % 256).toNat ::
      UInt8.ofNat (p.target / 256 % 256).toNat :: byte :: (bytes ++ rest) := by
    rw [buffer, Packet.frame, List.append_assoc, ← data]
    rfl
  rw [onServerMessage, parts]
  simp only [data, len, if_neg whole, connIdOf_target sent, List.take_left', List.drop_left']

theorem onServerMessage_part {ps : List Packet} (sent : ∀ p ∈ ps, p.Sent)
    (part : Part Packet.frame d.buffer ps) (rounds : Nat) : d.onServerMessage (rounds + 1) = some d := by
  cases ps with
  | nil =>
    have empty : d.buffer = [] := part
    rw [onServerMessage, empty]
  | cons p ps =>
    obtain ⟨⟨after, frame⟩, short⟩ := part
    rw [onServerMessage]
    split
    · rename_i len low high byte bytes buffer
      have sizes := (sent p List.mem_cons_self).short
      rw [buffer, Packet.frame] at frame short
      obtain ⟨rfl, -⟩ := List.cons.inj frame
      simp only [header, List.length_append, List.length_cons, List.length_nil] at short
      rw [kMaxPacketLen] at sizes
      refine if_pos ?_
      rw [UInt8.toNat_ofNat', List.length_cons]
      omega
    · rfl

theorem Shown.onServerMessage (shown : Shown d t) {before after : List Packet} {tail : List UInt8}
    (sent : ∀ p ∈ before ++ after, p.Sent) (part : Part Packet.frame tail after)
    (buffer : d.buffer = before.flatMap Packet.frame ++ tail)
    (next : before.foldlM Track.follow t = some t')
    (free : ∀ n, (d.client n).state.opened → ∀ p ∈ before, p.isUp → p.id ≠ (d.client n).connId)
    {rounds : Nat} (enough : before.length < rounds) :
    ∃ d', d.onServerMessage rounds = some d' ∧ Shown d' t' ∧ d'.buffer = tail ∧
      ∀ n, (d'.client n).state.opened → (d.client n).state.opened ∧
        (d'.client n).connId = (d.client n).connId := by
  induction before generalizing d t rounds with
  | nil =>
    cases next
    obtain ⟨rounds, rfl⟩ := Nat.exists_eq_succ_of_ne_zero (Nat.ne_of_gt enough)
    have here : d.buffer = tail := buffer
    exact ⟨d, onServerMessage_part sent (here ▸ part) rounds, shown, here, fun _ opened => ⟨opened, rfl⟩⟩
  | cons p before ih =>
    obtain ⟨rounds, rfl⟩ := Nat.exists_eq_succ_of_ne_zero (Nat.ne_of_gt (Nat.zero_lt_of_lt enough))
    rw [List.foldlM_cons] at next
    obtain ⟨u, first, others⟩ := Option.bind_eq_some_iff.mp next
    have its : p.isUp → ∀ entry, d.socksConns p.id = some entry → entry.connection = false := by
      intro up entry inside
      obtain ⟨connId, alive⟩ := shown.entry p.id entry inside
      have shape := (shown.client entry.client alive).2
      rw [connId, inside, Option.some_inj] at shape
      refine Bool.eq_false_iff.mpr fun connection => ?_
      have opened := (congrArg Entry.connection shape).symm.trans connection
      exact free entry.client opened p List.mem_cons_self up connId.symm
    rw [List.flatMap_cons, List.append_assoc] at buffer
    obtain ⟨d₁, done, handled⟩ := shown.onPacket (sent p List.mem_cons_self) first its
    obtain ⟨d', rest, shown', buffer', opened'⟩ := ih (d := { d₁ with
        buffer := before.flatMap Packet.frame ++ tail })
      ⟨handled.shown.made, handled.shown.connId, handled.shown.entry, handled.shown.client, handled.shown.live,
        handled.shown.waits, handled.shown.holds⟩
      (fun q member => sent q (List.mem_cons_of_mem _ member)) rfl others
      (fun n opened q member up => by
        obtain ⟨before, connId⟩ := handled.opened n opened
        exact connId ▸ free n before q (List.mem_cons_of_mem _ member) up)
      (Nat.lt_of_succ_lt_succ enough)
    refine ⟨d', ?_, shown', buffer', fun n opened => ?_⟩
    · rw [onServerMessage_frame (sent p List.mem_cons_self) rounds buffer, done]
      exact rest
    · obtain ⟨middle, connId⟩ := opened' n opened
      obtain ⟨first, connId'⟩ := handled.opened n middle
      exact ⟨first, connId.trans connId'⟩

/-! ### The socks connections -/

theorem Shown.event (shown : Shown d t) (alive : (d.client n).state ≠ .stopped)
    (client : TcpClient) (connId : client.connId = (d.client n).connId)
    (state : client.state = .connected ∧ (d.client n).state = .connecting ∨
      client.state = .disconnected)
    (holds : client.state.Holds client.received (t.bytes n)) :
    Change d t (d.client n).connId n client (t.live (d.client n).connId) (t.bytes n) := by
  have entry := (shown.client n alive).2
  have last : ∀ m, t.live (d.client n).connId = some m → m = n := by
    intro m live
    have other := (shown.of_live live).2.2
    exact (congrArg Entry.client (Option.some.inj (entry.symm.trans other))).symm
  refine ⟨.inl rfl, fun e inside => ?_, last, connId, fun m live => ⟨last m live, ?_⟩, fun waits => ?_,
    holds⟩
  · cases entry.symm.trans inside
    rfl
  · rcases state with ⟨state, -⟩ | state <;> rw [state] <;> exact ⟨by decide, by decide⟩
  · rcases state with ⟨-, connecting⟩ | state
    · exact shown.waits n (.inl connecting)
    · rw [state] at waits
      rcases waits with waits | waits <;> cases waits

theorem Shown.socksUp (shown : Shown d t) (state : (d.client n).state = .connecting) :
    ∃ d', d.socksUp n = some d' ∧ Shown d' t ∧ d'.buffer = d.buffer ∧
      ∀ m, (d'.client m).state.opened →
        (m = n ∨ (d.client m).state.opened) ∧ (d'.client m).connId = (d.client m).connId := by
  have alive : (d.client n).state ≠ .stopped := by rw [state]; decide
  obtain ⟨less, entry⟩ := shown.client n alive
  have holds := shown.holds n
  rw [state] at entry holds
  have nothing : (d.client n).received = [] := holds
  let up := (d.setState n .connected).setEntry (d.client n).connId (some ⟨n, true, t.bytes n⟩)
  let d' := if t.bytes n = [] then up
    else (up.setEntry (d.client n).connId (some ⟨n, true, []⟩)).send n (t.bytes n)
  have done : d.socksUp n = some d' := by
    rw [DemuxServer.socksUp]
    simp only [entry]
    rfl
  have clients : d'.client = Function.update d.client n ⟨(d.client n).connId, .connected, t.bytes n⟩ := by
    by_cases empty : t.bytes n = []
    · have here : d' = up := if_pos empty
      rw [here, empty, ← nothing]
      rfl
    · have here : d' = (up.setEntry (d.client n).connId (some ⟨n, true, []⟩)).send n (t.bytes n) :=
        if_neg empty
      have connected : ((up.setEntry (d.client n).connId (some ⟨n, true, []⟩)).client n) =
          { d.client n with state := .connected } := setClient_self d n _
      rw [here, send, if_pos (by rw [connected])]
      show Function.update (Function.update d.client n _) n _ = _
      rw [Function.update_idem, connected, nothing]
      rfl
  have entries : d'.socksConns =
      Function.update d.socksConns (d.client n).connId (some ⟨n, true, []⟩) := by
    by_cases empty : t.bytes n = []
    · have here : d' = up := if_pos empty
      rw [here, ← empty]
      rfl
    · have here : d' = (up.setEntry (d.client n).connId (some ⟨n, true, []⟩)).send n (t.bytes n) :=
        if_neg empty
      have kept : ∀ e : DemuxServer, (e.send n (t.bytes n)).socksConns = e.socksConns := by
        intro e
        rw [send]
        split <;> rfl
      rw [here, kept]
      exact Function.update_idem ..
  have frame : d'.made = d.made ∧ d'.buffer = d.buffer := by
    show (ite _ _ _ : DemuxServer).made = _ ∧ (ite _ _ _ : DemuxServer).buffer = _
    rw [send]
    split
    · exact ⟨rfl, rfl⟩
    · split <;> exact ⟨rfl, rfl⟩
  have change := shown.event alive ⟨(d.client n).connId, .connected, t.bytes n⟩ rfl
    (.inl ⟨rfl, state⟩) rfl
  refine ⟨d', done, ?_, frame.2, fun m opened => ?_⟩
  · exact shown.change change clients entries (.inl ⟨rfl, frame.1, less⟩) (Function.update_eq_self _ _).symm (Function.update_eq_self _ _).symm
  · rw [clients] at opened ⊢
    by_cases same : m = n
    · rw [same, Function.update_self]
      exact ⟨.inl rfl, rfl⟩
    · rw [Function.update_of_ne same] at opened ⊢
      exact ⟨.inr opened, rfl⟩

theorem Shown.answers (shown : Shown d t) (answers : List UInt8) :
    Shown { d with answers := answers } t :=
  ⟨shown.made, shown.connId, shown.entry, shown.client, shown.live, shown.waits, shown.holds⟩

theorem Shown.socksDown (shown : Shown d t)
    (state : (d.client n).state = .connected ∨ (d.client n).state = .disconnecting) :
    ∃ d', d.socksDown n = some d' ∧ Shown d' t ∧ d'.buffer = d.buffer ∧
      ∀ m, (d'.client m).state.opened →
        (d.client m).state.opened ∧ (d'.client m).connId = (d.client m).connId := by
  have alive : (d.client n).state ≠ .stopped := by
    rcases state with state | state <;> rw [state] <;> decide
  obtain ⟨less, entry⟩ := shown.client n alive
  have opened : (d.client n).state.opened = true := by
    rcases state with state | state <;> rw [state] <;> rfl
  rw [opened] at entry
  have present : d.socksConns (d.client n).connId ≠ none := by rw [entry]; exact nofun
  have short : (toBytes (snprintf ("DISCONNECT ".toList ++ decimal (d.client n).connId ++
      "\r\n".toList))).length ≤ kMaxPacketLen := by
    rw [toBytes, List.length_map]
    exact List.length_take_le ..
  have change := shown.event alive { d.client n with state := .disconnected } rfl
    (.inr rfl) (shown.holds n).part
  have down : Shown (d.setState n .disconnected) t :=
    shown.change change rfl (Function.update_eq_self_iff.mpr entry.symm).symm (.inl ⟨rfl, rfl, less⟩)
      (Function.update_eq_self _ _).symm (Function.update_eq_self _ _).symm
  refine ⟨_, (if_pos present).trans (congrArg (Option.map _) (if_pos short)), down.answers _, rfl, ?_⟩
  exact opened_setClient d n _ fun _ => ⟨opened, rfl⟩

theorem sendServerBuffer_some (connId : Int) (packets : Nat) (d : DemuxServer) (buf : List UInt8) :
    ∃ answers, sendServerBuffer connId packets d buf = some { d with answers := answers } := by
  induction packets generalizing d buf with
  | zero => exact ⟨d.answers, rfl⟩
  | succ packets ih =>
    rw [sendServerBuffer]
    split
    · exact ⟨d.answers, rfl⟩
    · rw [sendServerPacket, sendBackendPacket, if_pos (nextPacket_length buf)]
      obtain ⟨answers, done⟩ := ih { d with answers := d.answers ++ (header (nextPacket buf).1.length
        connId ++ (nextPacket buf).1) } (nextPacket buf).2
      exact ⟨answers, done⟩

theorem Shown.socksMessage (shown : Shown d t) (alive : (d.client n).state ≠ .stopped)
    (buf : List UInt8) : ∃ answers, d.socksMessage n buf = some { d with answers := answers } := by
  obtain ⟨-, entry⟩ := shown.client n alive
  have present : d.socksConns (d.client n).connId ≠ none := by rw [entry]; exact nofun
  obtain ⟨answers, done⟩ := sendServerBuffer_some (d.client n).connId buf.length d buf
  exact ⟨answers, (if_pos present).trans done⟩

end DemuxServer

end ProjectsCpp.Multiplexer
