import ProjectsCpp.Lib.Run
import Mathlib.Data.List.AList
import Mathlib.Algebra.Order.Group.Int

/-! The connection ids of the multiplexer (`multiplexer.cc`). A step is a section under `mutex_`, or
what a client's callback does on its own. A failing assertion gives `none`. -/

namespace ProjectsCpp.Multiplexer
open ProjectsCpp.Run

def kMaxConns : Nat := 10

abbrev Conn := Nat

/-- How far the callbacks of a client have come; `up` has its context. -/
inductive Client where
  | unknown
  | allocated (id : Int)
  | up (context : Option Int)
  | down
deriving DecidableEq

/-- `given` has the client that an id was given to last, `session` the backend connection that was
there when a client got its id, `sessions` the number of backend connections so far. -/
structure MultiplexServer where
  backendConn : Option Nat
  clientConns : AList fun _ : Int => Conn
  availIds : List Int
  client : Conn → Client
  given : Int → Option Conn
  session : Conn → Option Nat
  sessions : Nat

inductive Step where
  | clientUp (conn : Conn)
  | setContext (conn : Conn)
  | clientDown (conn : Conn)
  | backendUp
  | backendDown
deriving DecidableEq

namespace MultiplexServer

def new : MultiplexServer :=
  ⟨none, ∅, [], fun _ => .unknown, fun _ => none, fun _ => none, 0⟩

def set (s : MultiplexServer) (conn : Conn) (client : Client) : MultiplexServer :=
  { s with client := Function.update s.client conn client }

/-- The section of `onClientConnection` for a new connection. -/
def clientUp (s : MultiplexServer) (conn : Conn) : MultiplexServer :=
  match s.availIds with
  | [] => s.set conn (.allocated (-1))
  | id :: availIds =>
    { s.set conn (.allocated id) with
      availIds := availIds
      clientConns := s.clientConns.insert id conn
      given := Function.update s.given id (some conn)
      session := Function.update s.session conn s.backendConn }

/-- The rest of it: `shutdown`, or `setContext`. -/
def setContext (s : MultiplexServer) (conn : Conn) (id : Int) : MultiplexServer :=
  s.set conn (.up (if id ≤ 0 then none else some id))

def clientDown (s : MultiplexServer) (conn : Conn) : Option Int → Option MultiplexServer
  | none => some (s.set conn .down)
  | some id =>
    if 0 < id ∧ id ≤ kMaxConns then
      if s.backendConn.isSome then
        some { s.set conn .down with
          availIds := s.availIds ++ [id], clientConns := s.clientConns.erase id }
      else if s.availIds = [] ∧ s.clientConns.keys = [] then some (s.set conn .down)
      else none
    else none

def backendUp (s : MultiplexServer) : Option MultiplexServer :=
  if s.availIds = [] then
    some { s with
      backendConn := some s.sessions
      availIds := (List.range kMaxConns).map fun i : Nat => (i : Int) + 1
      sessions := s.sessions + 1 }
  else none

def backendDown (s : MultiplexServer) : MultiplexServer :=
  { s with backendConn := none, clientConns := ∅, availIds := [] }

def Enabled (s : MultiplexServer) : Step → Prop
  | .clientUp conn => s.client conn = .unknown
  | .setContext conn => ∃ id, s.client conn = .allocated id
  | .clientDown conn => ∃ context, s.client conn = .up context
  | .backendUp => s.backendConn = none
  | .backendDown => s.backendConn ≠ none

def step (s : MultiplexServer) : Step → Option MultiplexServer
  | .clientUp conn => if s.client conn = .unknown then some (s.clientUp conn) else none
  | .setContext conn =>
    match s.client conn with
    | .allocated id => some (s.setContext conn id)
    | _ => none
  | .clientDown conn =>
    match s.client conn with
    | .up context => s.clientDown conn context
    | _ => none
  | .backendUp => if s.backendConn = none then s.backendUp else none
  | .backendDown => if s.backendConn = none then none else some s.backendDown

def machine : Machine MultiplexServer Step where
  start s := s = new
  step := step

def Timely (s : MultiplexServer) : Step → Prop
  | .clientDown conn => ∀ id, s.client conn = .up (some id) →
      s.backendConn = none ∨ s.session conn = s.backendConn
  | _ => True

def Holds (s : MultiplexServer) (id : Int) (conn : Conn) : Prop :=
  s.given id = some conn ∧ s.backendConn ≠ none ∧ s.session conn = s.backendConn ∧
    s.client conn ≠ .down

structure Unshared (s : MultiplexServer) : Prop where
  once : s.availIds.Nodup
  apart : ∀ id ∈ s.availIds, s.clientConns.lookup id = none
  holder : ∀ id conn, s.clientConns.lookup id = some conn ↔ s.Holds id conn

end MultiplexServer

def Client.id? : Client → Option Int
  | .allocated id => if id ≤ 0 then none else some id
  | .up context => context
  | _ => none

namespace MultiplexServer
variable {s s' : MultiplexServer} {conn : Conn} {id : Int}

/-- The books: between two backends there is nothing in them, and under a backend every id is
available or held by a client. -/
structure Kept (s : MultiplexServer) : Prop where
  once : s.availIds.Nodup
  apart : ∀ id ∈ s.availIds, s.clientConns.lookup id = none
  entries : ∀ id conn, s.clientConns.lookup id = some conn ↔
    (s.client conn).id? = some id ∧ s.session conn = s.backendConn ∧ s.backendConn ≠ none
  closed : s.backendConn = none → s.availIds = [] ∧ s.clientConns = ∅
  placed : s.backendConn ≠ none → ∀ id : Int, 0 < id → id ≤ kMaxConns →
    id ∈ s.availIds ∨ ∃ conn, s.clientConns.lookup id = some conn
  range : ∀ id ∈ s.availIds, 0 < id ∧ id ≤ kMaxConns
  ids : ∀ conn id, (s.client conn).id? = some id → 0 < id ∧ id ≤ kMaxConns ∧ s.session conn ≠ none
  given : ∀ id conn, s.given id = some conn → (s.client conn).id? = some id ∨ s.client conn = .down
  last : ∀ id conn, s.clientConns.lookup id = some conn → s.given id = some conn
  unknown : ∀ conn, s.client conn = .unknown → s.session conn = none
  past : ∀ conn n, s.session conn = some n → n < s.sessions
  present : ∀ n, s.backendConn = some n → n < s.sessions

theorem Kept.new : Kept new where
  once := List.nodup_nil
  apart _ inside := nomatch inside
  entries _ _ := Iff.intro (fun held => nomatch held) fun held => nomatch held.1
  closed _ := ⟨rfl, rfl⟩
  placed backend := absurd rfl backend
  range _ inside := nomatch inside
  ids _ _ held := nomatch held
  given _ _ held := nomatch held
  last _ _ held := nomatch held
  unknown _ _ := rfl
  past _ _ held := nomatch held
  present _ held := nomatch held

theorem Kept.apart_clients (kept : Kept s) : Unshared s where
  once := kept.once
  apart := kept.apart
  holder id conn := by
    constructor
    · intro held
      obtain ⟨has, session, backend⟩ := (kept.entries id conn).mp held
      refine ⟨kept.last id conn held, backend, session, fun gone => ?_⟩
      rw [gone] at has
      exact nomatch has
    · rintro ⟨given, backend, session, alive⟩
      have has := (kept.given id conn given).resolve_right alive
      exact (kept.entries id conn).mpr ⟨has, session, backend⟩

/-! ### The sections -/

theorem set_self (s : MultiplexServer) (conn : Conn) (client : Client) :
    (s.set conn client).client conn = client := Function.update_self ..

theorem set_of_ne (s : MultiplexServer) (client : Client) {conn k : Conn} (other : k ≠ conn) :
    (s.set conn client).client k = s.client k := Function.update_of_ne other ..

theorem Kept.set_same (kept : Kept s) {client : Client} (same : client.id? = (s.client conn).id?)
    (down : s.client conn = .down → client = .down) (known : client ≠ .unknown) :
    Kept (s.set conn client) := by
  have ids : ∀ k, ((s.set conn client).client k).id? = (s.client k).id? := by
    intro k
    by_cases here : k = conn
    · rw [here, set_self, same]
    · rw [set_of_ne s client here]
  refine { kept with entries := ?_, ids := ?_, given := ?_, unknown := ?_ }
  · intro id k
    rw [ids]
    exact kept.entries id k
  · intro k id has
    rw [ids] at has
    exact kept.ids k id has
  · intro id k given
    rw [ids]
    refine (kept.given id k given).imp_right fun gone => ?_
    by_cases here : k = conn
    · rw [here] at gone ⊢
      rw [set_self, down gone]
    · rw [set_of_ne s client here, gone]
  · intro k fresh
    by_cases here : k = conn
    · rw [here, set_self] at fresh
      exact absurd fresh known
    · rw [set_of_ne s client here] at fresh
      exact kept.unknown k fresh

theorem Kept.clientUp (kept : Kept s) (fresh : s.client conn = .unknown) :
    Kept (s.clientUp conn) := by
  rw [MultiplexServer.clientUp]
  cases ids : s.availIds with
  | nil => exact kept.set_same (by rw [fresh]; rfl) (fun gone => nomatch fresh.symm.trans gone) nofun
  | cons id availIds =>
    have backend : s.backendConn ≠ none := fun absent => nomatch ids.symm.trans (kept.closed absent).1
    have once := kept.once
    have front : id ∈ s.availIds := ids ▸ List.mem_cons_self
    rw [ids, List.nodup_cons] at once
    obtain ⟨positive, bound⟩ := kept.range id front
    have has : (Client.allocated id).id? = some id := if_neg (Int.not_le.mpr positive)
    have free := kept.apart id front
    refine ⟨once.2, fun k inside => ?_, fun k c => ?_, fun absent => absurd absent backend,
      fun _ k low high => ?_, fun k inside => kept.range k (ids ▸ List.mem_cons_of_mem _ inside),
      fun c k held => ?_, fun k c held => ?_, fun k c held => ?_, fun c never => ?_,
      fun c n since => ?_, kept.present⟩
    · have other : k ≠ id := fun same => once.1 (same ▸ inside)
      rw [AList.lookup_insert_ne other]
      exact kept.apart k (ids ▸ List.mem_cons_of_mem _ inside)
    · by_cases mine : c = conn
      · rw [mine]
        simp only [set_self, has, Function.update_self]
        by_cases same : k = id
        · rw [same, AList.lookup_insert]
          exact iff_of_true rfl ⟨rfl, rfl, backend⟩
        · rw [AList.lookup_insert_ne same]
          refine iff_of_false (fun held => ?_) fun held => same (Option.some.inj held.1).symm
          have before := ((kept.entries k conn).mp held).1
          rw [fresh] at before
          exact nomatch before
      · simp only [set_of_ne s _ mine, Function.update_of_ne mine]
        by_cases same : k = id
        · rw [same, AList.lookup_insert, Option.some_inj]
          refine iff_of_false (fun held => mine held.symm) fun held => ?_
          exact nomatch free.symm.trans ((kept.entries id c).mpr held)
        · rw [AList.lookup_insert_ne same]
          exact kept.entries k c
    · by_cases same : k = id
      · exact .inr ⟨conn, by rw [same, AList.lookup_insert]⟩
      · refine (kept.placed backend k low high).imp (fun inside => ?_) fun ⟨c, held⟩ => ⟨c, ?_⟩
        · rw [ids, List.mem_cons] at inside
          exact inside.resolve_left same
        · rw [AList.lookup_insert_ne same, held]
    · by_cases mine : c = conn
      · simp only [mine, set_self, has, Option.some_inj] at held
        rw [← held, mine]
        simp only [Function.update_self]
        exact ⟨positive, bound, backend⟩
      · simp only [set_of_ne s _ mine] at held
        simp only [Function.update_of_ne mine]
        exact kept.ids c k held
    · by_cases same : k = id
      · simp only [same, Function.update_self, Option.some_inj] at held
        rw [← held, same]
        exact .inl ((congrArg Client.id? (set_self s conn _)).trans has)
      · simp only [Function.update_of_ne same] at held
        have mine : c ≠ conn := by
          rintro rfl
          rcases kept.given k c held with before | before
          · exact nomatch (congrArg Client.id? fresh).symm.trans before
          · exact nomatch fresh.symm.trans before
        simp only [set_of_ne s _ mine]
        exact kept.given k c held
    · by_cases same : k = id
      · rw [same, AList.lookup_insert, Option.some_inj] at held
        simp only [same, Function.update_self, held]
      · rw [AList.lookup_insert_ne same] at held
        simp only [Function.update_of_ne same]
        exact kept.last k c held
    · have mine : c ≠ conn := by
        rintro rfl
        exact nomatch (set_self s c _).symm.trans never
      simp only [set_of_ne s _ mine] at never
      simp only [Function.update_of_ne mine]
      exact kept.unknown c never
    · by_cases mine : c = conn
      · simp only [mine, Function.update_self] at since
        exact kept.present n since
      · simp only [Function.update_of_ne mine] at since
        exact kept.past c n since

theorem Kept.setContext (kept : Kept s) (allocated : s.client conn = .allocated id) :
    Kept (s.setContext conn id) :=
  kept.set_same (by rw [allocated]; rfl) (fun gone => nomatch allocated.symm.trans gone) nofun

theorem Kept.clientDown (kept : Kept s) {context : Option Int} (up : s.client conn = .up context)
    (timely : ∀ id, context = some id → s.backendConn = none ∨ s.session conn = s.backendConn) :
    ∃ s', s.clientDown conn context = some s' ∧ Kept s' := by
  cases context with
  | none =>
    exact ⟨_, rfl, kept.set_same (by rw [up]; rfl) (fun _ => rfl) nofun⟩
  | some id =>
    have has : (s.client conn).id? = some id := by rw [up]; rfl
    obtain ⟨positive, bound, since⟩ := kept.ids conn id has
    have down_ids : ∀ c k, ((s.set conn .down).client c).id? = some k ↔
        (s.client c).id? = some k ∧ c ≠ conn := by
      intro c k
      by_cases mine : c = conn
      · rw [mine, set_self]
        exact iff_of_false nofun fun held => held.2 rfl
      · rw [set_of_ne s _ mine, and_iff_left mine]
    have given : ∀ k c, s.given k = some c →
        ((s.set conn .down).client c).id? = some k ∨ (s.set conn .down).client c = .down := by
      intro k c held
      by_cases mine : c = conn
      · rw [mine, set_self]
        exact .inr rfl
      · rw [set_of_ne s _ mine]
        exact kept.given k c held
    have unknown : ∀ c, (s.set conn .down).client c = .unknown → s.session c = none := by
      intro c never
      by_cases mine : c = conn
      · rw [mine, set_self] at never
        exact nomatch never
      · rw [set_of_ne s _ mine] at never
        exact kept.unknown c never
    rw [MultiplexServer.clientDown, if_pos ⟨positive, bound⟩]
    cases backend : s.backendConn with
    | none =>
      obtain ⟨noIds, noConns⟩ := kept.closed backend
      refine ⟨_, (if_neg Bool.false_ne_true).trans (if_pos ⟨noIds, by rw [noConns]; rfl⟩), ?_⟩
      refine { kept with entries := fun k c => ?_, ids := fun c k held => ?_, given := given
                         unknown := unknown }
      · have empty : (s.set conn .down).clientConns = ∅ := noConns
        have absent : (s.set conn .down).backendConn = none := backend
        rw [empty, absent]
        exact iff_of_false nofun fun held => held.2.2 rfl
      · exact kept.ids c k ((down_ids c k).mp held).1
    | some n =>
      have session : s.session conn = s.backendConn := by
        rcases timely id rfl with absent | session
        · exact nomatch backend.symm.trans absent
        · exact session
      have backend_ : s.backendConn ≠ none := fun absent => nomatch backend.symm.trans absent
      have mine := (kept.entries id conn).mpr ⟨has, session, backend_⟩
      have outside : id ∉ s.availIds := fun inside => nomatch (kept.apart id inside).symm.trans mine
      refine ⟨_, if_pos rfl, ⟨?_, fun k inside => ?_, fun k c => ?_, fun absent => absurd absent backend_,
        fun _ k low high => ?_, fun k inside => ?_, fun c k held => ?_, given, fun k c held => ?_,
        unknown, kept.past, kept.present⟩⟩
      · exact List.nodup_append_comm.mp (List.nodup_cons.mpr ⟨outside, kept.once⟩)
      · rw [List.mem_append, List.mem_singleton] at inside
        by_cases same : k = id
        · rw [same, AList.lookup_erase]
        · rw [AList.lookup_erase_ne same]
          exact kept.apart k (inside.resolve_right same)
      · rw [down_ids]
        by_cases same : k = id
        · rw [same, AList.lookup_erase]
          refine iff_of_false nofun fun held => held.1.2 ?_
          have theirs := (kept.entries id c).mpr ⟨held.1.1, held.2⟩
          exact Option.some.inj (theirs.symm.trans mine)
        · rw [AList.lookup_erase_ne same, kept.entries k c]
          refine and_congr_left fun _ => (and_iff_left_of_imp ?_).symm
          rintro theirs rfl
          exact same (Option.some.inj (theirs.symm.trans has))
      · by_cases same : k = id
        · exact .inl (List.mem_append_right _ (List.mem_singleton.mpr same))
        · refine (kept.placed backend_ k low high).imp (List.mem_append_left _) fun ⟨c, held⟩ => ⟨c, ?_⟩
          rw [AList.lookup_erase_ne same, held]
      · rcases List.mem_append.mp inside with before | now
        · exact kept.range k before
        · rw [List.mem_singleton.mp now]
          exact ⟨positive, bound⟩
      · exact kept.ids c k ((down_ids c k).mp held).1
      · by_cases same : k = id
        · rw [same, AList.lookup_erase] at held
          exact nomatch held
        · rw [AList.lookup_erase_ne same] at held
          exact kept.last k c held

theorem Kept.backendUp (kept : Kept s) (absent : s.backendConn = none) :
    ∃ s', s.backendUp = some s' ∧ Kept s' := by
  obtain ⟨noIds, noConns⟩ := kept.closed absent
  have range : ∀ id : Int, id ∈ (List.range kMaxConns).map (fun i : Nat => (i : Int) + 1) ↔
      0 < id ∧ id ≤ kMaxConns := by
    intro id
    simp only [List.mem_map, List.mem_range]
    constructor
    · rintro ⟨i, bound, rfl⟩
      omega
    · intro bounds
      exact ⟨(id - 1).toNat, by omega, by omega⟩
  refine ⟨_, if_pos noIds, ⟨?_, fun id _ => ?_, fun id c => ?_, nofun,
    fun _ id low high => .inl ((range id).mpr ⟨low, high⟩), fun id inside => (range id).mp inside,
    kept.ids, kept.given, fun id c held => ?_, kept.unknown, fun c n since => ?_, fun n now => ?_⟩⟩
  · refine List.nodup_range.map fun i j same => ?_
    have equal : (i : Int) + 1 = (j : Int) + 1 := same
    omega
  · rw [noConns]
    rfl
  · simp only [noConns]
    refine iff_of_false nofun fun held => ?_
    exact Nat.lt_irrefl _ (kept.past c s.sessions held.2.1)
  · simp only [noConns] at held
    exact nomatch held
  · exact Nat.lt_succ_of_lt (kept.past c n since)
  · cases now
    exact Nat.lt_succ_self _

theorem Kept.backendDown (kept : Kept s) : Kept s.backendDown where
  once := List.nodup_nil
  apart _ inside := nomatch inside
  entries _ _ := Iff.intro (fun held => nomatch held) fun held => absurd rfl held.2.2
  closed _ := ⟨rfl, rfl⟩
  placed backend := absurd rfl backend
  range _ inside := nomatch inside
  ids := kept.ids
  given := kept.given
  last _ _ held := nomatch held
  unknown := kept.unknown
  past := kept.past
  present _ held := nomatch held

/-! ### Runs -/

theorem enabled_of_step {e : Step} (taken : s.step e = some s') : s.Enabled e := by
  cases e with
  | clientUp conn =>
    by_contra disabled
    exact nomatch (if_neg disabled).symm.trans taken
  | setContext conn =>
    cases client : s.client conn with
    | allocated id => exact ⟨id, client⟩
    | _ =>
      rw [step, client] at taken
      exact nomatch taken
  | clientDown conn =>
    cases client : s.client conn with
    | up context => exact ⟨context, client⟩
    | _ =>
      rw [step, client] at taken
      exact nomatch taken
  | backendUp =>
    by_contra disabled
    exact nomatch (if_neg disabled).symm.trans taken
  | backendDown =>
    intro absent
    exact nomatch (if_pos absent).symm.trans taken

theorem Kept.step (kept : Kept s) {e : Step} (enabled : s.Enabled e) (timely : s.Timely e) :
    ∃ s', s.step e = some s' ∧ Kept s' := by
  cases e with
  | clientUp conn => exact ⟨_, if_pos enabled, kept.clientUp enabled⟩
  | setContext conn =>
    obtain ⟨id, allocated⟩ := enabled
    refine ⟨_, ?_, kept.setContext allocated⟩
    rw [MultiplexServer.step, allocated]
  | clientDown conn =>
    obtain ⟨context, up⟩ := enabled
    obtain ⟨s', done, kept'⟩ := kept.clientDown up fun id has => timely id (up.trans (congrArg _ has))
    refine ⟨s', ?_, kept'⟩
    rw [MultiplexServer.step, up, ← done]
  | backendUp =>
    obtain ⟨s', done, kept'⟩ := kept.backendUp enabled
    exact ⟨s', (if_pos enabled).trans done, kept'⟩
  | backendDown => exact ⟨_, if_neg enabled, kept.backendDown⟩

theorem kept_of_reach (reach : Reach machine Timely s) : Kept s := by
  refine reach.invariant ?_ ?_
  · rintro _ rfl
    exact .new
  · intro s e t kept timely taken
    obtain ⟨s', done, kept'⟩ := kept.step (enabled_of_step taken) timely
    cases done.symm.trans taken
    exact kept'

theorem Kept.not_unshared (kept : Kept s) {e : Step} (late : ¬ s.Timely e)
    (taken : s.step e = some s') : ¬ Unshared s' := by
  intro unshared
  cases e with
  | clientDown conn =>
    rw [Timely] at late
    push Not at late
    obtain ⟨id, up, backend, session⟩ := late
    obtain ⟨positive, bound, -⟩ := kept.ids conn id (by rw [up]; rfl)
    obtain ⟨n, present⟩ := Option.ne_none_iff_exists'.mp backend
    rw [MultiplexServer.step, up] at taken
    simp only [MultiplexServer.clientDown, if_pos (And.intro positive bound), present, Option.isSome_some, if_true,
      Option.some_inj] at taken
    subst taken
    rcases kept.placed backend id positive bound with inside | ⟨c, held⟩
    · have once := List.nodup_append_comm.mp unshared.once
      exact (List.nodup_cons.mp once).1 inside
    · obtain ⟨has, session', -⟩ := (kept.entries id c).mp held
      have other : c ≠ conn := fun same => session (same ▸ session')
      have alive : (s.set conn .down).client c ≠ .down := by
        rw [set_of_ne s _ other]
        intro gone
        rw [gone] at has
        exact nomatch has
      have missing := (unshared.holder id c).mpr ⟨kept.last id c held, backend, session', alive⟩
      rw [AList.lookup_erase] at missing
      exact nomatch missing
  | clientUp conn => exact late trivial
  | setContext conn => exact late trivial
  | backendUp => exact late trivial
  | backendDown => exact late trivial

/-- No id is shared and no assertion fails as long as every client goes down under the backend
that gave it its id, or under none; the first one that is later breaks it. -/
theorem unshared (reach : Reach machine Timely s) :
    Unshared s ∧ ∀ e, s.Enabled e → ((∃ s', s.step e = some s' ∧ Unshared s') ↔ s.Timely e) := by
  have kept := kept_of_reach reach
  refine ⟨kept.apart_clients, fun e enabled => ⟨fun ⟨s', taken, unshared⟩ => ?_, fun timely => ?_⟩⟩
  · by_contra late
    exact kept.not_unshared late taken unshared
  · obtain ⟨s', taken, kept'⟩ := kept.step enabled timely
    exact ⟨s', taken, kept'.apart_clients⟩

instance (s : MultiplexServer) (e : Step) : Decidable (s.Timely e) :=
  match e with
  | .clientDown conn =>
    match client : s.client conn with
    | .up (some id) =>
      decidable_of_iff (s.backendConn = none ∨ s.session conn = s.backendConn) <| by
        rw [Timely, client]
        exact ⟨fun timely _ _ => timely, fun timely => timely id rfl⟩
    | .up none => .isTrue fun id up => nomatch client.symm.trans up
    | .unknown => .isTrue fun id up => nomatch client.symm.trans up
    | .allocated _ => .isTrue fun id up => nomatch client.symm.trans up
    | .down => .isTrue fun id up => nomatch client.symm.trans up
  | .clientUp _ => .isTrue trivial
  | .setContext _ => .isTrue trivial
  | .backendUp => .isTrue trivial
  | .backendDown => .isTrue trivial

theorem unshared_threeClients : ∃ s, Unshared s ∧ s.clientConns.lookup 1 = some 2 ∧
    s.availIds = [2, 3, 4, 5, 6, 7, 8, 9, 10] := by
  have runs : ((execWhere machine Timely new [.backendUp, .clientUp 0, .setContext 0, .clientDown 0,
      .clientUp 1, .setContext 1, .backendDown, .clientDown 1, .backendUp, .clientUp 2]).any fun s =>
        decide (s.clientConns.lookup 1 = some 2 ∧
          s.availIds = [2, 3, 4, 5, 6, 7, 8, 9, 10])) = true := by decide +kernel
  obtain ⟨s, ran, holds⟩ := (Option.any_eq_true _ _).mp runs
  exact ⟨s, (unshared (Reach.execWhere (.start rfl) ran)).1, of_decide_eq_true holds⟩

theorem lateDown_shares : ∃ s, Reachable machine s ∧ s.availIds = [1, 2, 3, 4, 5, 6, 7, 8, 9, 10, 1] ∧
    ¬ Unshared s := by
  have runs : ((exec machine new [.backendUp, .clientUp 0, .setContext 0, .backendDown, .backendUp,
      .clientDown 0]).any fun s =>
        decide (s.availIds = [1, 2, 3, 4, 5, 6, 7, 8, 9, 10, 1])) = true := by decide +kernel
  obtain ⟨s, ran, holds⟩ := (Option.any_eq_true _ _).mp runs
  have ids := of_decide_eq_true holds
  refine ⟨s, Reach.exec (.start rfl) ran, ids, fun unshared => ?_⟩
  have once := unshared.once
  rw [ids] at once
  exact absurd once (by decide)

end MultiplexServer

end ProjectsCpp.Multiplexer
