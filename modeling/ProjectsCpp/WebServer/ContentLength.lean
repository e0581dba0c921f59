import ProjectsCpp.WebServer.HttpSafety
import ProjectsCpp.WebServer.HttpSession

/-! The `Content-Length` of a response and the bytes of its body, over connections that share the
cache while the files change. The length is what `stat` gave when the request line was parsed; the
body comes later, from the cache or from a mapping of the file. -/

namespace ProjectsCpp.WebServer
open ProjectsCpp.Text (Str)
open ProjectsCpp.Run

def pageBytes : Nat := 4096

/-- A response with status 200, before it is put together in `outBuffer_`. -/
structure Response where
  keepAlive : Bool
  fileType : Str
  contentLength : Int
  body : Str
deriving DecidableEq

def Response.text (r : Response) : Str :=
  HttpConnection.responseHead r.keepAlive r.fileType r.contentLength ++ r.body

namespace HttpConnection

/-- The `string` made of `fileSize_` bytes of a mapping. Its last page is filled with NULs; a read
behind that page or of a mapping that failed, and a negative size, end the program. -/
def mappedText (files : Str → Option Str) (c : HttpConnection) : Option Str :=
  if c.fileSize < 0 then none
  else if c.fileSize = 0 then some []
  else (files c.fileName).bind fun content =>
    if c.fileSize.toNat ≤ (content.length + pageBytes - 1) / pageBytes * pageBytes then
      some ((content ++ List.replicate pageBytes '\x00').take c.fileSize.toNat)
    else none

def handleSuccess (files : Str → Option Str) (c : HttpConnection) (cache : LFUCache) :
    Option (Option Response × LFUCache) :=
  match c.method with
  | .post => some (none, cache)
  | .get => (cache.get c.fileName).bind fun
    | (cache, some value) => some (some ⟨c.keepAlive, c.fileType, c.fileSize, value⟩, cache)
    | (cache, none) => (c.mappedText files).bind fun context =>
      (cache.set c.fileName context).map fun cache =>
        (some ⟨c.keepAlive, c.fileType, c.fileSize, context⟩, cache)

def answered (c : HttpConnection) (out : Str) : HttpConnection :=
  { c with outBuffer := out, writeHandler := none }.reset

end HttpConnection

/-- The connections with the files and the cache that they share, the size of each file when its text
was put into the cache, and the responses so far. -/
structure Server (Id : Type) where
  files : Str → Option Str
  cache : LFUCache
  conns : Id → HttpConnection.Parsing
  loaded : Str → Int
  sent : List Response

/-- Files change in any way, the parser of a connection makes a step, and a write handler runs where
the socket has room for so many bytes. -/
inductive ServerStep (Id : Type) where
  | change (files : Str → Option Str)
  | read (id : Id) (bytes : Str)
  | close (id : Id) (bytes : Str)
  | round (id : Id)
  | write (id : Id) (room : Nat)

namespace Server
open HttpConnection
variable {Id : Type} [DecidableEq Id]

def putConn (s : Server Id) (id : Id) (p : Parsing) : Server Id :=
  { s with conns := Function.update s.conns id p }

/-- `handleSuccess` of a connection; one that fails ends the server. -/
def respond (s : Server Id) (id : Id) (c : HttpConnection) (room : Nat) : Option (Server Id) :=
  (c.handleSuccess s.files s.cache).map fun (response, cache) =>
    { s.putConn id ⟨some (c.answered (((response.map Response.text).getD []).drop room)), false⟩ with
      cache := cache
      loaded := if c.method = .get ∧ s.cache.fmap.lookup c.fileName = none then
          Function.update s.loaded c.fileName c.fileSize
        else s.loaded
      sent := s.sent ++ response.toList }

def step (s : Option (Server Id)) (a : ServerStep Id) : Option (Option (Server Id)) :=
  s.bind fun s =>
    match a with
    | .change files => some (some { s with files := files })
    | .read id bytes =>
      if (s.conns id).conn.all fun c => c.writeHandler = none then
        ((s.conns id).step (.read bytes)).map fun p => some (s.putConn id p)
      else none
    | .close id bytes =>
      if (s.conns id).conn.all fun c => c.writeHandler = none then
        ((s.conns id).step (.close bytes)).map fun p => some (s.putConn id p)
      else none
    | .round id => ((s.conns id).step (.round s.files)).map fun p => some (s.putConn id p)
    | .write id room => (s.conns id).conn.bind fun c =>
      if (s.conns id).looping then none
      else c.writeHandler.map fun
        | .handleSuccess => s.respond id c room
        | .handleError _ =>
          some (s.putConn id ⟨some { c with outBuffer := [], writeHandler := none }, false⟩)

def begin (files : Str → Option Str) : Server Id :=
  ⟨files, .make lfuCapacity, fun _ => ⟨some new, false⟩, fun _ => 0, []⟩

def machine (Id : Type) [DecidableEq Id] : Machine (Option (Server Id)) (ServerStep Id) where
  start s := ∃ files, s = some (begin files)
  step := step

def SameSize (s : Server Id) (c : HttpConnection) : Prop :=
  s.cache.fmap.lookup c.fileName ≠ none → s.loaded c.fileName = c.fileSize

instance (s : Server Id) (c : HttpConnection) : Decidable (s.SameSize c) := by
  unfold SameSize
  infer_instance

def Unresized (s : Option (Server Id)) : ServerStep Id → Prop
  | .write id _ => ∀ server ∈ s, ∀ c ∈ (server.conns id).conn,
    c.writeHandler = some .handleSuccess → c.method = .get → server.SameSize c
  | _ => True

instance (s : Option (Server Id)) (a : ServerStep Id) : Decidable (Unresized s a) := by
  rcases a <;> (unfold Unresized; infer_instance)

def LengthsMatch (s : Server Id) : Prop := ∀ r ∈ s.sent, r.contentLength = r.body.length

end Server

/-! ### The cache -/

section
variable {cache cache' : LFUCache} {key : Str} {answer : Option Str}

theorem LFUCache.get_cases (found : cache.get key = some (cache', answer)) :
    (cache.capacity = 0 ∨ cache.fmap.lookup key = none) ∧ cache' = cache ∧ answer = none ∨
    ∃ f value, cache.fmap.lookup key = some f ∧ cache.getFreq f ≠ some intMax ∧ answer = some value := by
  rw [get] at found
  split at found
  · rename_i empty
    obtain ⟨rfl, rfl⟩ := Prod.mk.inj (Option.some.inj found)
    exact .inl ⟨.inl empty, rfl, rfl⟩
  · split at found
    · rename_i miss
      obtain ⟨rfl, rfl⟩ := Prod.mk.inj (Option.some.inj found)
      exact .inl ⟨.inr miss, rfl, rfl⟩
    · rename_i f hit
      obtain ⟨k, -, found⟩ := Option.bind_eq_some_iff.mp found
      obtain ⟨content, -, found⟩ := Option.bind_eq_some_iff.mp found
      obtain ⟨c, counted, same⟩ := Option.map_eq_some_iff.mp found
      refine .inr ⟨f, content.value, hit, fun last => ?_, (Prod.mk.inj same).2.symm⟩
      rw [addFreq, nextList, last, Option.bind_some] at counted
      cases next : LinkedList.nextOf cache.lists f with
      | none =>
        rw [next] at counted
        cases counted
      | some next' =>
        rw [next, Option.bind_some, if_pos rfl] at counted
        cases counted

def Holds (cache : LFUCache) (loaded : Str → Int) : Prop :=
  ∃ run : LFURun, run.cache = some cache ∧ run.Mirrored ∧
    ∀ e ∈ run.reference.entries, (e.value.length : Int) = loaded e.key

theorem holds_make : Holds (.make lfuCapacity) fun _ => 0 :=
  ⟨_, rfl, LFURun.mirrored_of_reach (by decide) (.start (M := LFURun.machine lfuCapacity) rfl), nofun⟩

variable {loaded : Str → Int}

theorem Holds.hit {value : Str} (holds : Holds cache loaded)
    (found : cache.get key = some (cache', some value)) :
    cache.fmap.lookup key ≠ none ∧ (value.length : Int) = loaded key ∧ Holds cache' loaded := by
  obtain ⟨run, cached, mirrored, sizes⟩ := holds
  obtain ⟨-, -, none⟩ | ⟨f, value', hit, counts, -⟩ := cache.get_cases found
  · cases none
  have counts : (cache.fmap.lookup key).all fun f => cache.getFreq f ≠ some LFUCache.intMax := by
    rw [hit, Option.all_some]
    exact decide_eq_true counts
  obtain ⟨cache₁, run₁, found₁, cached₁, reference₁, mirrored₁⟩ :=
    mirrored.get cached (mirrored.countsOn cached counts)
  obtain ⟨rfl, answer⟩ := Prod.mk.inj (Option.some.inj (found.symm.trans found₁))
  refine ⟨by rw [hit]; exact Option.some_ne_none f, ?_⟩
  cases known : run.reference.find key with
  | none =>
    rw [Reference.get, known] at answer
    cases answer
  | some e =>
    rw [Reference.get, known] at answer reference₁
    obtain rfl := Option.some.inj answer
    have inside : e ∈ run.reference.entries := List.mem_of_find?_eq_some known
    have same : e.key = key := by simpa using List.find?_some known
    refine ⟨same ▸ sizes e inside, run₁, cached₁, mirrored₁, ?_⟩
    rw [reference₁]
    intro e' member
    obtain ⟨old, inside', rfl⟩ := List.mem_map.mp member
    have held := sizes old inside'
    rw [Reference.touch]
    split <;> exact held

theorem Holds.miss {context : Str} {cache'' : LFUCache} (holds : Holds cache loaded)
    (found : cache.get key = some (cache', none)) (put : cache'.set key context = some cache'') :
    cache.fmap.lookup key = none ∧ Holds cache'' (Function.update loaded key context.length) := by
  obtain ⟨run, cached, mirrored, sizes⟩ := holds
  have miss : cache.fmap.lookup key = none := by
    rcases cache.get_cases found with ⟨empty | miss, -, -⟩ | ⟨f, value, -, -, some⟩
    · obtain ⟨-, c, -, -, -, there, positive, -⟩ := mirrored
      obtain rfl := Option.some.inj (there.symm.trans cached)
      omega
    · exact miss
    · cases some
  have counts : (cache.fmap.lookup key).all fun f => cache.getFreq f ≠ some LFUCache.intMax := by
    rw [miss]
    rfl
  obtain ⟨cache₁, run₁, found₁, cached₁, reference₁, mirrored₁⟩ :=
    mirrored.get cached (mirrored.countsOn cached counts)
  obtain ⟨rfl, answer⟩ := Prod.mk.inj (Option.some.inj (found.symm.trans found₁))
  have unknown : run.reference.find key = none := by
    cases known : run.reference.find key with
    | none => rfl
    | some e =>
      rw [Reference.get, known] at answer
      cases answer
  have unchanged : run.reference.get key = (run.reference, none) := by rw [Reference.get, unknown]
  replace reference₁ : run₁.reference = run.reference := reference₁.trans (congrArg Prod.fst unchanged)
  obtain ⟨cache₂, run₂, put₂, cached₂, reference₂, mirrored₂⟩ :=
    mirrored₁.set context cached₁ (by rw [reference₁]; exact unknown)
  obtain rfl := Option.some.inj (put.symm.trans put₂)
  refine ⟨miss, run₂, cached₂, mirrored₂, ?_⟩
  rw [reference₂, reference₁]
  intro e member
  rcases List.mem_cons.mp member with rfl | member
  · show (context.length : Int) = Function.update loaded key context.length key
    rw [Function.update_self]
  · have old := Reference.makeRoom_subset _ member
    have other : e.key ≠ key := Reference.find_eq_none.mp unknown e old
    rw [Function.update_of_ne other]
    exact sizes e old

end

/-! ### Responses -/

namespace HttpConnection
variable {files : Str → Option Str} {c : HttpConnection} {cache cache' : LFUCache} {loaded : Str → Int}
  {response : Option Response} {context : Str}

theorem length_mappedText (mapped : c.mappedText files = some context) :
    (context.length : Int) = c.fileSize := by
  rw [mappedText] at mapped
  split at mapped
  · cases mapped
  · split at mapped
    · rename_i zero
      obtain rfl := Option.some.inj mapped
      exact zero.symm
    · obtain ⟨content, -, mapped⟩ := Option.bind_eq_some_iff.mp mapped
      obtain ⟨inside, same⟩ := Option.ite_none_right_eq_some.mp mapped
      obtain rfl := Option.some.inj same
      rw [List.length_take, List.length_append, List.length_replicate]
      unfold pageBytes at *
      omega

theorem mappedText_eq {content : Str} (there : files c.fileName = some content)
    (whole : c.fileSize ≤ content.length) : c.mappedText files = c.mapFile files := by
  rw [mappedText, mapFile, there, Option.bind_some, Option.bind_some]
  split
  · rfl
  · split
    · rename_i zero
      rw [zero]
      rfl
    · have inside : c.fileSize.toNat ≤ content.length := by omega
      rw [if_pos (by unfold pageBytes; omega), List.take_append_of_le_length inside]

theorem handleSuccess_text {content : Str} (there : files c.fileName = some content)
    (whole : c.fileSize ≤ content.length) :
    (c.handleSuccess files cache).map (fun made => ((made.1.map Response.text).getD [], made.2)) =
      c.response files cache := by
  rw [handleSuccess, response, mappedText_eq there whole]
  cases c.method with
  | post => rfl
  | get =>
    simp only [responseBody]
    cases cache.get c.fileName with
    | none => rfl
    | some found =>
      obtain ⟨cache, _ | value⟩ := found
      · simp only [Option.bind_some]
        cases c.mapFile files with
        | none => rfl
        | some context =>
          simp only [Option.bind_some, Option.map_map]
          rfl
      · rfl

theorem handleSuccess_keeps (holds : Holds cache loaded)
    (done : c.handleSuccess files cache = some (response, cache')) :
    Holds cache' (if c.method = .get ∧ cache.fmap.lookup c.fileName = none then
      Function.update loaded c.fileName c.fileSize else loaded) ∧
    ∀ r ∈ response, c.method = .get ∧ (r.contentLength = r.body.length ↔
      (cache.fmap.lookup c.fileName ≠ none → loaded c.fileName = c.fileSize)) := by
  rw [handleSuccess] at done
  cases method : c.method with
  | post =>
    rw [method] at done
    obtain ⟨rfl, rfl⟩ := Prod.mk.inj (Option.some.inj done)
    rw [if_neg fun both => nomatch both.1]
    exact ⟨holds, nofun⟩
  | get =>
    rw [method] at done
    obtain ⟨⟨cache₁, answer⟩, found, done⟩ := Option.bind_eq_some_iff.mp done
    cases answer with
    | some value =>
      obtain ⟨rfl, rfl⟩ := Prod.mk.inj (Option.some.inj done)
      obtain ⟨hit, size, holds'⟩ := holds.hit found
      rw [if_neg fun both => hit both.2]
      refine ⟨holds', fun r same => ⟨rfl, ?_⟩⟩
      obtain rfl := Option.some.inj same
      show c.fileSize = value.length ↔ _
      rw [size, eq_comm]
      exact ⟨fun same _ => same, fun same => same hit⟩
    | none =>
      obtain ⟨context, mapped, done⟩ := Option.bind_eq_some_iff.mp done
      obtain ⟨cache₂, put, same⟩ := Option.map_eq_some_iff.mp done
      obtain ⟨rfl, rfl⟩ := Prod.mk.inj same
      obtain ⟨miss, holds'⟩ := holds.miss found put
      have length := length_mappedText mapped
      rw [if_pos ⟨rfl, miss⟩, ← length]
      refine ⟨holds', fun r same => ⟨rfl, ?_⟩⟩
      obtain rfl := Option.some.inj same
      exact iff_of_true rfl fun hit => absurd miss hit

end HttpConnection

/-! ### Runs -/

namespace Server
open HttpConnection
variable {Id : Type} [DecidableEq Id] {s : Option (Server Id)} {server : Server Id} {id : Id}
  {c : HttpConnection} {a : ServerStep Id}

def Kept (s : Option (Server Id)) : Prop := ∀ server ∈ s, Holds server.cache server.loaded

theorem respond_keeps {room : Nat} {t : Server Id} (holds : Holds server.cache server.loaded)
    (done : server.respond id c room = some t) :
    Holds t.cache t.loaded ∧ ∃ new : Option Response, t.sent = server.sent ++ new.toList ∧
      ∀ r ∈ new, c.method = .get ∧ (r.contentLength = r.body.length ↔ server.SameSize c) := by
  obtain ⟨⟨response, cache⟩, made, rfl⟩ := Option.map_eq_some_iff.mp done
  obtain ⟨holds', lengths⟩ := handleSuccess_keeps holds made
  exact ⟨holds', response, rfl, lengths⟩

theorem step_keeps {t : Option (Server Id)} (holds : Holds server.cache server.loaded)
    (next : step (some server) a = some t) : ∀ server' ∈ t, Holds server'.cache server'.loaded ∧
      ∃ new : Option Response, server'.sent = server.sent ++ new.toList ∧ ∀ r ∈ new,
        ∃ id room, a = .write id room ∧ ∃ c ∈ (server.conns id).conn,
          c.writeHandler = some .handleSuccess ∧ c.method = .get ∧
            (r.contentLength = r.body.length ↔ server.SameSize c) := by
  rw [step, Option.bind_some] at next
  have still : ∀ server' : Server Id, server'.cache = server.cache → server'.loaded = server.loaded →
      server'.sent = server.sent → Holds server'.cache server'.loaded ∧
      ∃ new : Option Response, server'.sent = server.sent ++ new.toList ∧ ∀ r ∈ new,
        ∃ id room, a = .write id room ∧ ∃ c ∈ (server.conns id).conn,
          c.writeHandler = some .handleSuccess ∧ c.method = .get ∧
            (r.contentLength = r.body.length ↔ server.SameSize c) := by
    intro server' cache loaded sent
    rw [cache, loaded]
    exact ⟨holds, none, by rw [sent]; exact (List.append_nil _).symm, nofun⟩
  cases a with
  | change files =>
    obtain rfl := Option.some.inj next
    rintro _ ⟨⟩
    exact still _ rfl rfl rfl
  | read id bytes =>
    obtain ⟨-, next⟩ := Option.ite_none_right_eq_some.mp next
    obtain ⟨p, -, rfl⟩ := Option.map_eq_some_iff.mp next
    rintro _ ⟨⟩
    exact still _ rfl rfl rfl
  | close id bytes =>
    obtain ⟨-, next⟩ := Option.ite_none_right_eq_some.mp next
    obtain ⟨p, -, rfl⟩ := Option.map_eq_some_iff.mp next
    rintro _ ⟨⟩
    exact still _ rfl rfl rfl
  | round id =>
    obtain ⟨p, -, rfl⟩ := Option.map_eq_some_iff.mp next
    rintro _ ⟨⟩
    exact still _ rfl rfl rfl
  | write id room =>
    obtain ⟨c, there, next⟩ := Option.bind_eq_some_iff.mp next
    obtain ⟨-, next⟩ := Option.ite_none_left_eq_some.mp next
    obtain ⟨handler, waits, rfl⟩ := Option.map_eq_some_iff.mp next
    cases handler with
    | handleSuccess =>
      intro server' done
      obtain ⟨holds', new, sent, lengths⟩ := respond_keeps holds done
      exact ⟨holds', new, sent, fun r fresh => ⟨id, room, rfl, c, there, waits, lengths r fresh⟩⟩
    | handleError state =>
      rintro _ ⟨⟩
      exact still _ rfl rfl rfl

/-- In every run in which no GET is answered out of the cache after its file has got another size,
each response is as long as its `Content-Length` says. -/
theorem lengths_match (reach : Reach (machine Id) Unresized s) :
    ∀ server ∈ s, server.LengthsMatch := by
  have kept : ∀ server ∈ s, Holds server.cache server.loaded ∧ server.LengthsMatch := by
    refine reach.invariant (P := fun s => ∀ server ∈ s,
      Holds server.cache server.loaded ∧ server.LengthsMatch) ?_ ?_
    · rintro s ⟨files, rfl⟩ _ ⟨⟩
      exact ⟨holds_make, nofun⟩
    · intro s a t kept clear next server' there
      obtain ⟨server, rfl, -⟩ := Option.bind_eq_some_iff.mp next
      obtain ⟨holds, lengths⟩ := kept server rfl
      obtain ⟨holds', new, sent, fresh⟩ := step_keeps holds next server' there
      refine ⟨holds', fun r inside => ?_⟩
      rw [sent] at inside
      rcases List.mem_append.mp inside with old | made
      · exact lengths r old
      · obtain ⟨id, room, rfl, c, conn, waits, get, iff⟩ := fresh r (Option.mem_toList.mp made)
        exact iff.mpr (clear server rfl c conn waits get)
  exact fun server there => (kept server there).2

def getIndex : Str := "GET / HTTP/1.1\r\n\r\n".toList

def visit (id : Nat) : List (ServerStep Nat) :=
  .read id getIndex :: (List.replicate 4 (ServerStep.round id) ++ [ServerStep.write id 1000])

theorem lengths_match_visits : ∃ server, execWhere (machine Nat) Unresized
      (some (begin fun _ => some "hello".toList))
      (visit 0 ++ .change (fun _ => some "world".toList) :: visit 1) = some (some server) ∧
    server.sent.map Response.body = ["hello".toList, "hello".toList] ∧ server.LengthsMatch := by
  have ran : (execWhere (machine Nat) Unresized (some (begin fun _ => some "hello".toList))
      (visit 0 ++ .change (fun _ => some "world".toList) :: visit 1)).any (fun s => s.any fun server =>
        server.sent.map Response.body = ["hello".toList, "hello".toList]) = true := by
    decide +kernel
  obtain ⟨s, done, facts⟩ := (Option.any_eq_true _ _).mp ran
  obtain ⟨server, rfl, facts⟩ := (Option.any_eq_true _ _).mp facts
  refine ⟨server, done, of_decide_eq_true facts, ?_⟩
  exact lengths_match (Reach.execWhere (Reach.start (M := machine Nat) ⟨_, rfl⟩) done) server rfl

theorem old_text_new_length : ∃ s, Reachable (machine Nat) s ∧ ∃ server ∈ s,
    ∃ r ∈ server.sent, r.contentLength = 12 ∧ r.body = "hello".toList ∧ ¬server.LengthsMatch := by
  have ran : (exec (machine Nat) (some (begin fun _ => some "hello".toList))
      (visit 0 ++ .change (fun _ => some "hello, world".toList) :: visit 1)).any (fun s =>
        s.any fun server => server.sent.any fun r => r.contentLength = 12 ∧ r.body = "hello".toList) =
      true := by
    decide +kernel
  obtain ⟨s, done, facts⟩ := (Option.any_eq_true _ _).mp ran
  obtain ⟨server, rfl, facts⟩ := (Option.any_eq_true _ _).mp facts
  obtain ⟨r, inside, facts⟩ := List.any_eq_true.mp facts
  obtain ⟨twelve, hello⟩ := of_decide_eq_true facts
  refine ⟨_, Reach.exec (Reach.start (M := machine Nat) ⟨_, rfl⟩) done, server, rfl, r, inside, twelve,
    hello, fun lengths => ?_⟩
  have same := lengths r inside
  rw [twelve, hello] at same
  exact absurd same (by decide)

end Server
end ProjectsCpp.WebServer
