import ProjectsCpp.Hub.Codec
import ProjectsCpp.Lib.Run

/-! The hub (`examples/hub/hub.cc`) with any number of connections. -/

namespace ProjectsCpp.Hub
open ProjectsCpp.Text ProjectsCpp.Substring ProjectsCpp.Run

/-- A topic that is not in the map is as `getTopic` makes it. -/
structure Topic (ι : Type) where
  content_ : Str
  published : Bool
  audiences_ : ι → Bool

/-- The state of a `TcpConnection`; `closing` is behind a `shutdown`. -/
inductive Phase where
  | connecting | connected | closing | disconnected
deriving DecidableEq

/-- `context` is the `ConnectionSubscription`; `received` and `sent` are all that came and went. -/
structure Connection where
  phase : Phase
  context : Str → Bool
  input : Str
  received : Str
  sent : List Str

inductive Event (ι : Type) where
  | up (c : ι)
  | down (c : ι)
  | command (c : ι) (m : Message)
  | broken (c : ι)
  | time (content : Str)

structure PubSubServer (ι : Type) where
  topics_ : Str → Topic ι
  connections : ι → Connection
  history : List (Event ι)

def utcTime : Str := ['u', 't', 'c', '_', 't', 'i', 'm', 'e']

/-- `send`, which a connection that is not connected ignores. -/
def Connection.send (c : Connection) (message : Str) : Connection :=
  if c.phase = .connected then { c with sent := c.sent ++ [message] } else c

def Connection.shutdown (c : Connection) : Connection :=
  if c.phase = .connected then { c with phase := .closing } else c

variable {ι : Type} [DecidableEq ι]

namespace PubSubServer

def new : PubSubServer ι :=
  ⟨fun _ => ⟨[], false, fun _ => false⟩, fun _ => ⟨.connecting, fun _ => false, [], [], []⟩, []⟩

def setTopic (s : PubSubServer ι) (topic : Str) (t : Topic ι) : PubSubServer ι :=
  { s with topics_ := Function.update s.topics_ topic t }

def setConnection (s : PubSubServer ι) (c : ι) (conn : Connection) : PubSubServer ι :=
  { s with connections := Function.update s.connections c conn }

/-- With `Topic::add`, which sends what was published last. -/
def doSubscribe (s : PubSubServer ι) (c : ι) (topic : Str) : PubSubServer ι :=
  let t := s.topics_ topic
  let conn := { s.connections c with context := Function.update (s.connections c).context topic true }
  (s.setTopic topic { t with audiences_ := Function.update t.audiences_ c true }).setConnection c
    (if t.published then conn.send (makeMessage topic t.content_) else conn)

def doUnsubscribe (s : PubSubServer ι) (c : ι) (topic : Str) : PubSubServer ι :=
  let t := s.topics_ topic
  let conn := s.connections c
  (s.setTopic topic { t with audiences_ := Function.update t.audiences_ c false }).setConnection c
    { conn with context := Function.update conn.context topic false }

def doPublish (s : PubSubServer ι) (topic content : Str) : PubSubServer ι :=
  let t := s.topics_ topic
  { s.setTopic topic { t with content_ := content, published := true } with
    connections := fun c =>
      if t.audiences_ c then (s.connections c).send (makeMessage topic content) else s.connections c }

/-- What `onMessage` does with a message; a command that is not known ends its loop. -/
def execute (s : PubSubServer ι) (c : ι) (m : Message) : PubSubServer ι × Bool :=
  if m.cmd = pub then (s.doPublish m.topic m.content, true)
  else if m.cmd = sub then (s.doSubscribe c m.topic, true)
  else if m.cmd = unsub then (s.doUnsubscribe c m.topic, true)
  else (s.setConnection c (s.connections c).shutdown, false)

def note (s : PubSubServer ι) (event : Event ι) : PubSubServer ι :=
  { s with history := s.history ++ [event] }

/-- The loop of `onMessage`, for so many rounds. -/
def drain (c : ι) : Nat → PubSubServer ι → Option (PubSubServer ι)
  | 0, _ => none
  | rounds + 1, s => match parseMessage (s.connections c).input with
    | .kSuccess m left =>
      let r := (s.setConnection c { s.connections c with input := left }).execute c m
      let s := r.1.note (.command c m)
      if r.2 then drain c rounds s else some s
    | .kError => some ((s.setConnection c (s.connections c).shutdown).note (.broken c))
    | .kContinue => some s

def disconnect (s : PubSubServer ι) (c : ι) : PubSubServer ι :=
  let conn := s.connections c
  { s.setConnection c { conn with phase := .disconnected, context := fun _ => false } with
    topics_ := fun topic =>
      let t := s.topics_ topic
      if conn.context topic then { t with audiences_ := Function.update t.audiences_ c false } else t }

end PubSubServer

inductive Action (ι : Type) where
  | connect (c : ι)
  | data (c : ι) (chunk : Str)
  | disconnect (c : ι)
  | timer (content : Str)

def step (s : PubSubServer ι) : Action ι → Option (PubSubServer ι)
  | .connect c =>
    if (s.connections c).phase = .connecting then
      some ((s.setConnection c { s.connections c with
        phase := .connected, context := fun _ => false }).note (.up c))
    else none
  | .data c chunk =>
    let conn := s.connections c
    if conn.phase = .connected ∨ conn.phase = .closing then
      (s.setConnection c { conn with
        input := conn.input ++ chunk
        received := conn.received ++ chunk }).drain c ((conn.input ++ chunk).length + 1)
    else none
  | .disconnect c =>
    let conn := s.connections c
    if conn.phase = .connected ∨ conn.phase = .closing then some ((s.disconnect c).note (.down c))
    else none
  | .timer content => some ((s.doPublish utcTime content).note (.time content))

def machine : Machine (PubSubServer ι) (Action ι) where
  start s := s = .new
  step := step

def Allowed (_ : PubSubServer ι) : Action ι → Prop
  | .timer content => ¬crlf <:+: content
  | _ => True

/-! ### What one connection should see -/

/-- `latest` is what was published last for each topic, and `got` what the connection is to be sent. -/
structure View where
  isOpen : Bool
  subscribed : Str → Bool
  latest : Str → Option Str
  got : List (Str × Str)

namespace View

def new : View := ⟨false, fun _ => false, fun _ => none, []⟩

def publish (v : View) (topic content : Str) : View := { v with
  latest := Function.update v.latest topic (some content)
  got := if v.isOpen && v.subscribed topic then v.got ++ [(topic, content)] else v.got }

def subscribe (v : View) (topic : Str) : View := { v with
  subscribed := Function.update v.subscribed topic true
  got := if v.isOpen then v.got ++ (v.latest topic).toList.map fun content => (topic, content)
    else v.got }

/-- What an event is for the connection `c`. -/
def step (c : ι) (v : View) : Event ι → View
  | .up d => if d = c then { v with isOpen := true, subscribed := fun _ => false } else v
  | .down d => if d = c then { v with isOpen := false, subscribed := fun _ => false } else v
  | .broken d => if d = c then { v with isOpen := false } else v
  | .time content => v.publish utcTime content
  | .command d m =>
    if m.cmd = pub then v.publish m.topic m.content
    else if d = c then
      if m.cmd = sub then v.subscribe m.topic
      else if m.cmd = unsub then { v with subscribed := Function.update v.subscribed m.topic false }
      else { v with isOpen := false }
    else v

def run (c : ι) (history : List (Event ι)) : View := history.foldl (step c) new

end View

def commands (c : ι) (history : List (Event ι)) : List Message :=
  history.filterMap fun event => match event with
    | .command d m => if d = c then some m else none
    | _ => none

theorem commands_append (c : ι) (history : List (Event ι)) (event : Event ι) :
    commands c (history ++ [event]) = commands c history ++ commands c [event] :=
  List.filterMap_append ..

theorem View.run_append (c : ι) (history : List (Event ι)) (event : Event ι) :
    View.run c (history ++ [event]) = View.step c (View.run c history) event := by
  simp [View.run]

/-- The hub does for the connection `c` what its view says. -/
structure Shows (c : ι) (v : View) (conn : Connection) (topics : Str → Topic ι) : Prop where
  isOpen : v.isOpen = decide (conn.phase = .connected)
  subscribed : v.subscribed = conn.context
  audiences : ∀ topic, (topics topic).audiences_ c = conn.context topic
  latest : ∀ topic, v.latest topic =
    if (topics topic).published then some (topics topic).content_ else none
  sent : conn.sent = v.got.map fun p => makeMessage p.1 p.2
  plain : ∀ topic content, v.latest topic = some content → (publication (topic, content)).Plain
  got : ∀ p ∈ v.got, (publication p).Plain

section
variable {conn : Connection} {message : Str}

@[simp] theorem send_phase : (conn.send message).phase = conn.phase := by
  rw [Connection.send]
  split <;> rfl

@[simp] theorem send_context : (conn.send message).context = conn.context := by
  rw [Connection.send]
  split <;> rfl

@[simp] theorem send_input : (conn.send message).input = conn.input := by
  rw [Connection.send]
  split <;> rfl

@[simp] theorem send_received : (conn.send message).received = conn.received := by
  rw [Connection.send]
  split <;> rfl

theorem shutdown_phase : conn.shutdown.phase ≠ .connected := by
  rw [Connection.shutdown]
  split
  · simp
  · assumption

end

section
variable {c d : ι} {topics : Str → Topic ι} {topic t : Str} {b : Bool}

theorem update_audiences :
    (Function.update topics topic { topics topic with
      audiences_ := Function.update (topics topic).audiences_ d b } t).audiences_ c =
      if t = topic ∧ c = d then b else (topics t).audiences_ c := by
  by_cases its : t = topic
  · subst its
    simp [Function.update_apply]
  · simp [its]

omit [DecidableEq ι] in
@[simp] theorem update_published {f : ι → Bool} :
    (Function.update topics topic { topics topic with audiences_ := f } t).published =
      (topics t).published := by
  by_cases its : t = topic
  · subst its
    simp
  · simp [its]

omit [DecidableEq ι] in
@[simp] theorem update_content {f : ι → Bool} :
    (Function.update topics topic { topics topic with audiences_ := f } t).content_ =
      (topics t).content_ := by
  by_cases its : t = topic
  · subst its
    simp
  · simp [its]

end

namespace Shows

variable {c d : ι} {v : View} {conn : Connection} {topics : Str → Topic ι} {topic content : Str}

omit [DecidableEq ι] in
theorem publish (shows_ : Shows c v conn topics) (plain : (publication (topic, content)).Plain) :
    Shows c (v.publish topic content)
      (if (topics topic).audiences_ c then conn.send (makeMessage topic content) else conn)
      (Function.update topics topic { topics topic with content_ := content, published := true }) := by
  have member : (topics topic).audiences_ c = v.subscribed topic := by
    rw [shows_.audiences, shows_.subscribed]
  constructor
  · rw [View.publish, shows_.isOpen]
    split <;> simp
  · rw [View.publish, shows_.subscribed]
    split <;> simp
  · intro t
    have same : (if (topics topic).audiences_ c then conn.send (makeMessage topic content)
        else conn).context = conn.context := by
      split <;> simp
    rw [same, ← shows_.audiences]
    by_cases its : t = topic
    · subst its
      simp
    · simp [its]
  · intro t
    by_cases its : t = topic
    · subst its
      simp [View.publish]
    · simpa [View.publish, its] using shows_.latest t
  · rw [View.publish, member, Connection.send, shows_.isOpen]
    by_cases connected : conn.phase = .connected <;> cases v.subscribed topic <;>
      simp [connected, shows_.sent]
  · intro t content' found
    by_cases its : t = topic
    · subst its
      obtain rfl : content = content' := by simpa [View.publish] using found
      exact plain
    · exact shows_.plain t content' (by simpa [View.publish, its] using found)
  · intro p there
    rw [View.publish] at there
    simp only at there
    split at there
    · rcases List.mem_append.mp there with before | new
      · exact shows_.got p before
      · rw [List.mem_singleton.mp new]
        exact plain
    · exact shows_.got p there

theorem subscribe (shows_ : Shows c v conn topics) : Shows c (v.subscribe topic)
    (if (topics topic).published then
        { conn with context := Function.update conn.context topic true }.send
          (makeMessage topic (topics topic).content_)
      else { conn with context := Function.update conn.context topic true })
    (Function.update topics topic
      { topics topic with audiences_ := Function.update (topics topic).audiences_ c true }) := by
  have context : (if (topics topic).published then
        { conn with context := Function.update conn.context topic true }.send
          (makeMessage topic (topics topic).content_)
      else { conn with context := Function.update conn.context topic true }).context =
      Function.update conn.context topic true := by
    split <;> simp
  constructor
  · rw [View.subscribe, shows_.isOpen]
    split <;> simp
  · rw [context, View.subscribe, shows_.subscribed]
  · intro t
    rw [context, update_audiences, shows_.audiences]
    simp [Function.update_apply]
  · simpa [View.subscribe] using shows_.latest
  · rw [View.subscribe, shows_.latest, Connection.send, shows_.isOpen]
    by_cases connected : conn.phase = .connected <;> cases (topics topic).published <;>
      simp [connected, shows_.sent]
  · exact shows_.plain
  · intro p there
    rw [View.subscribe] at there
    simp only at there
    split at there
    · rcases List.mem_append.mp there with before | new
      · exact shows_.got p before
      · obtain ⟨content, last, rfl⟩ := List.mem_map.mp new
        exact shows_.plain topic content (Option.mem_toList.mp last)
    · exact shows_.got p there

theorem unsubscribe (shows_ : Shows c v conn topics) :
    Shows c { v with subscribed := Function.update v.subscribed topic false }
      { conn with context := Function.update conn.context topic false }
      (Function.update topics topic
        { topics topic with audiences_ := Function.update (topics topic).audiences_ c false }) := by
  constructor
  · exact shows_.isOpen
  · rw [shows_.subscribed]
  · intro t
    rw [update_audiences, shows_.audiences]
    simp [Function.update_apply]
  · simpa using shows_.latest
  · exact shows_.sent
  · exact shows_.plain
  · exact shows_.got

theorem other (shows_ : Shows c v conn topics) (ne : d ≠ c) (b : Bool) : Shows c v conn
    (Function.update topics topic
      { topics topic with audiences_ := Function.update (topics topic).audiences_ d b }) := by
  refine { shows_ with audiences := fun t => ?_, latest := by simpa using shows_.latest }
  rw [update_audiences, if_neg fun its => ne its.2.symm, shows_.audiences]

omit [DecidableEq ι] in
theorem shutdown (shows_ : Shows c v conn topics) :
    Shows c { v with isOpen := false } conn.shutdown topics := by
  have rest : conn.shutdown.context = conn.context ∧ conn.shutdown.sent = conn.sent := by
    rw [Connection.shutdown]
    split <;> simp
  constructor
  · simp [shutdown_phase]
  · rw [rest.1, shows_.subscribed]
  · rw [rest.1]
    exact shows_.audiences
  · exact shows_.latest
  · rw [rest.2, shows_.sent]
  · exact shows_.plain
  · exact shows_.got

end Shows

/-- What a command does to a connection; the one that sent it may be shut down. -/
structure Same (own : Prop) (before after : Connection) : Prop where
  input : after.input = before.input
  received : after.received = before.received
  phase : after.phase = before.phase ∨ own ∧ after.phase = .closing
  context : ¬own → after.context = before.context

theorem Same.send {own : Prop} {before after : Connection} {message : Str}
    (same : Same own before after) : Same own before (after.send message) := by
  refine ⟨?_, ?_, ?_, ?_⟩
  · rw [send_input, same.input]
  · rw [send_received, same.received]
  · simpa using same.phase
  · simpa using same.context

theorem same_refl {own : Prop} (conn : Connection) : Same own conn conn :=
  ⟨rfl, rfl, .inl rfl, fun _ => rfl⟩

theorem same_context {own : Prop} (its : own) (conn : Connection) (context : Str → Bool) :
    Same own conn { conn with context } :=
  ⟨rfl, rfl, .inl rfl, fun other => absurd its other⟩

theorem same_shutdown {own : Prop} (its : own) (conn : Connection) : Same own conn conn.shutdown := by
  rw [Connection.shutdown]
  split
  · exact ⟨rfl, rfl, .inr ⟨its, rfl⟩, fun _ => rfl⟩
  · exact same_refl conn

namespace PubSubServer

variable {s : PubSubServer ι} {c d : ι} {m : Message}

omit [DecidableEq ι] in
theorem same_publish (own : Prop) (s : PubSubServer ι) (topic content : Str) (d : ι) :
    Same own (s.connections d) ((s.doPublish topic content).connections d) := by
  simp only [doPublish]
  split
  · exact (same_refl _).send
  · exact same_refl _

theorem same_set (s : PubSubServer ι) {conn : Connection} (same : Same True (s.connections c) conn)
    (d : ι) : Same (d = c) (s.connections d) ((s.setConnection c conn).connections d) := by
  rw [setConnection]
  by_cases its : d = c
  · subst its
    simp only [Function.update_self]
    exact same
  · simp only [Function.update_of_ne its]
    exact same_refl _

theorem same_execute (s : PubSubServer ι) (c : ι) (m : Message) (d : ι) :
    Same (d = c) (s.connections d) ((s.execute c m).1.connections d) := by
  rw [execute]
  split
  · exact same_publish _ s m.topic m.content d
  · split
    · refine same_set _ ?_ d
      split
      · exact (same_context trivial _ _).send
      · exact same_context trivial _ _
    · split
      · exact same_set _ (same_context trivial _ _) d
      · exact same_set _ (same_shutdown trivial _) d

theorem unknown_execute (ended : (s.execute c m).2 = false) :
    ((s.execute c m).1.connections c).phase ≠ .connected := by
  rw [execute] at ended ⊢
  split at ended
  · cases ended
  · rename_i other
    rw [if_neg other]
    split at ended
    · cases ended
    · rename_i other
      rw [if_neg other]
      split at ended
      · cases ended
      · rename_i other
        rw [if_neg other]
        simp [setConnection, shutdown_phase]

theorem shows_execute {v : View} (shows_ : Shows d v (s.connections d) s.topics_) (plain : m.Plain) :
    Shows d (v.step d (.command c m)) ((s.execute c m).1.connections d) (s.execute c m).1.topics_ := by
  rw [View.step, execute]
  split
  · rename_i its
    exact shows_.publish (by
      rw [publication, ← its]
      exact plain)
  · by_cases same : c = d
    · subst same
      rw [if_pos rfl]
      split
      · simpa [doSubscribe, setConnection, setTopic] using shows_.subscribe
      · split
        · simpa [doUnsubscribe, setConnection, setTopic] using shows_.unsubscribe
        · simpa [setConnection] using shows_.shutdown
    · rw [if_neg same]
      split
      · simpa [doSubscribe, setConnection, setTopic, Function.update_of_ne (Ne.symm same)] using
          shows_.other same true
      · split
        · simpa [doUnsubscribe, setConnection, setTopic, Function.update_of_ne (Ne.symm same)] using
            shows_.other same false
        · simpa [setConnection, Function.update_of_ne (Ne.symm same)] using shows_

end PubSubServer

structure Follows (c : ι) (s : PubSubServer ι) : Prop where
  shows_ : Shows c (View.run c s.history) (s.connections c) s.topics_
  received : (s.connections c).received =
    (commands c s.history).flatMap frame ++ (s.connections c).input
  fresh : (s.connections c).phase = .connecting →
    (s.connections c).input = [] ∧ (s.connections c).context = fun _ => false

def Settled (conn : Connection) : Prop := conn.phase = .connected → parseMessage conn.input = .kContinue

namespace PubSubServer

variable {s : PubSubServer ι} {c d : ι} {m : Message} {left : Str}

theorem connections_set (conn : Connection) :
    (s.setConnection c conn).connections d = if d = c then conn else s.connections d :=
  Function.update_apply ..

theorem follows_command (follows : ∀ d, Follows d s)
    (live : (s.connections c).phase ≠ .connecting)
    (parsed : parseMessage (s.connections c).input = .kSuccess m left) (d : ι) :
    Follows d (((s.setConnection c { s.connections c with input := left }).execute c m).1.note
      (.command c m)) := by
  obtain ⟨whole, plain⟩ := parse_success parsed
  have same := same_execute (s.setConnection c { s.connections c with input := left }) c m d
  have shows_ : Shows d (View.run d s.history)
      ((s.setConnection c { s.connections c with input := left }).connections d) s.topics_ := by
    rw [connections_set]
    split
    · rename_i its
      subst its
      exact { (follows d).shows_ with }
    · exact (follows d).shows_
  have history : ((s.setConnection c { s.connections c with input := left }).execute c m).1.history =
      s.history := by
    rw [execute]
    split
    · rfl
    · split
      · rfl
      · split <;> rfl
  refine ⟨?_, ?_, ?_⟩
  · simp only [note, history, View.run_append]
    exact shows_execute shows_ plain
  · simp only [note, history, commands_append, List.flatMap_append, same.received, same.input,
      connections_set]
    by_cases its : d = c
    · subst its
      simp [commands, (follows d).received, whole]
    · simp [commands, Ne.symm its, its, (follows d).received]
  · simp only [note]
    intro connecting
    rw [same.input]
    rcases same.phase with kept | ⟨-, closing⟩
    · by_cases its : d = c
      · subst its
        refine absurd ?_ live
        simpa [kept, connections_set] using connecting
      · rw [same.context its]
        rw [kept] at connecting
        simp only [connections_set, if_neg its] at connecting ⊢
        exact (follows d).fresh connecting
    · rw [closing] at connecting
      cases connecting

theorem follows_broken (follows : ∀ d, Follows d s) (d : ι) :
    Follows d ((s.setConnection c (s.connections c).shutdown).note (.broken c)) := by
  have same := same_set s (same_shutdown trivial (s.connections c)) d
  refine ⟨?_, ?_, ?_⟩
  · simp only [note, setConnection, View.run_append, View.step]
    by_cases its : c = d
    · subst its
      simpa using (follows c).shows_.shutdown
    · simpa [its, Function.update_of_ne (Ne.symm its)] using (follows d).shows_
  · simp only [note, commands_append, same.received, same.input, (follows d).received]
    simp [commands, setConnection]
  · simp only [note]
    intro connecting
    rcases same.phase with kept | ⟨-, closing⟩
    · rw [kept] at connecting
      rw [same.input]
      refine ⟨((follows d).fresh connecting).1, ?_⟩
      by_cases its : d = c
      · subst its
        simp [setConnection, Connection.shutdown, connecting, ((follows d).fresh connecting).2]
      · rw [same.context its, ((follows d).fresh connecting).2]
    · rw [closing] at connecting
      cases connecting

theorem frame_pos (m : Message) : 0 < (frame m).length := by
  rw [frame]
  split
  · exact Nat.zero_lt_succ _
  · simp only [makeCommand, List.length_append, List.length_cons]
    omega

theorem drain_spec {rounds : Nat} (follows : ∀ d, Follows d s)
    (live : (s.connections c).phase ≠ .connecting)
    (rest : ∀ d ≠ c, Settled (s.connections d)) (enough : (s.connections c).input.length < rounds) :
    ∃ t, s.drain c rounds = some t ∧ (∀ d, Follows d t) ∧ ∀ d, Settled (t.connections d) := by
  induction rounds generalizing s with
  | zero => cases enough
  | succ rounds ih =>
    rw [drain]
    cases parsed : parseMessage (s.connections c).input with
    | kContinue =>
      refine ⟨s, rfl, follows, fun d => ?_⟩
      by_cases its : d = c
      · rw [its]
        exact fun _ => parsed
      · exact rest d its
    | kError =>
      refine ⟨_, rfl, follows_broken follows, fun d => ?_⟩
      simp only [note, connections_set]
      split
      · exact fun connected => absurd connected shutdown_phase
      · rename_i other
        exact rest d other
    | kSuccess m left =>
      have after := follows_command follows live parsed
      have same := same_execute (s.setConnection c { s.connections c with input := left }) c m
      have settled : ∀ d ≠ c, Settled
          (((s.setConnection c { s.connections c with input := left }).execute c m).1.connections d) := by
        intro d other connected
        have kept := (same d).phase.resolve_right fun closed => other closed.1
        rw [kept, connections_set, if_neg other] at connected
        rw [(same d).input, connections_set, if_neg other]
        exact rest d other connected
      have phase : (s.setConnection c { s.connections c with input := left }).connections c =
          { s.connections c with input := left } := by
        rw [connections_set, if_pos rfl]
      simp only
      split
      · refine ih after ?_ settled ?_
        · simp only [note]
          rcases (same c).phase with kept | ⟨-, closing⟩
          · rw [kept, phase]
            exact live
          · simp [closing]
        · have whole := congrArg List.length (parse_success parsed).1
          have := frame_pos m
          simp only [note, (same c).input, phase]
          rw [List.length_append] at whole
          omega
      · rename_i unknown
        refine ⟨_, rfl, after, fun d => ?_⟩
        by_cases its : d = c
        · subst its
          exact fun connected => absurd connected (unknown_execute (by simpa using unknown))
        · exact settled d its

end PubSubServer

section
variable {s t : PubSubServer ι} {c d : ι}

theorem follows_note {event : Event ι} (quiet : commands d [event] = [])
    (shows_ : Shows d (View.step d (View.run d s.history) event) (s.connections d) s.topics_)
    (received : (s.connections d).received =
      (commands d s.history).flatMap frame ++ (s.connections d).input)
    (fresh : (s.connections d).phase = .connecting →
      (s.connections d).input = [] ∧ (s.connections d).context = fun _ => false) :
    Follows d (s.note event) := by
  refine ⟨?_, ?_, fresh⟩
  · simp only [PubSubServer.note, View.run_append]
    exact shows_
  · simp only [PubSubServer.note, commands_append, quiet, List.append_nil]
    exact received

theorem connect_kept (kept : ∀ d, Follows d s ∧ Settled (s.connections d))
    (next : step s (.connect c) = some t) : Follows d t ∧ Settled (t.connections d) := by
  rw [step] at next
  split at next
  · rename_i connecting
    cases next
    obtain ⟨⟨shows_, received, fresh⟩, settled⟩ := kept d
    by_cases its : d = c
    · subst its
      obtain ⟨empty, none_⟩ := fresh connecting
      refine ⟨follows_note rfl ?_ ?_ ?_, fun _ => ?_⟩ <;>
        simp only [PubSubServer.note, PubSubServer.connections_set, if_true]
      · rw [View.step, if_pos rfl]
        exact { shows_ with
          isOpen := rfl
          subscribed := rfl
          audiences := fun topic => (shows_.audiences topic).trans (by rw [none_]) }
      · exact received
      · intro up
        cases up
      · rw [empty]
        rfl
    · refine ⟨follows_note rfl ?_ ?_ ?_, ?_⟩ <;>
        simp only [PubSubServer.note, PubSubServer.connections_set, if_neg its]
      · rw [View.step, if_neg (Ne.symm its)]
        exact shows_
      · exact received
      · exact fresh
      · exact settled
  · cases next

theorem disconnect_kept (kept : ∀ d, Follows d s ∧ Settled (s.connections d))
    (next : step s (.disconnect c) = some t) : Follows d t ∧ Settled (t.connections d) := by
  rw [step] at next
  split at next
  · cases next
    obtain ⟨⟨shows_, received, fresh⟩, settled⟩ := kept d
    have latest (topic : Str) : ((s.disconnect c).topics_ topic).published =
        (s.topics_ topic).published ∧
        ((s.disconnect c).topics_ topic).content_ = (s.topics_ topic).content_ := by
      simp only [PubSubServer.disconnect]
      split <;> exact ⟨rfl, rfl⟩
    have audiences (topic : Str) : ((s.disconnect c).topics_ topic).audiences_ d =
        if d = c then false else (s.topics_ topic).audiences_ d := by
      by_cases its : d = c
      · subst its
        cases had : (s.connections d).context topic <;>
          simp [PubSubServer.disconnect, had, shows_.audiences]
      · simp only [PubSubServer.disconnect, if_neg its]
        split
        · exact Function.update_of_ne its ..
        · rfl
    have connections : (s.disconnect c).connections d = if d = c then
        { s.connections c with phase := .disconnected, context := fun _ => false }
        else s.connections d := PubSubServer.connections_set _
    by_cases its : d = c
    · subst its
      rw [if_pos rfl] at connections
      refine ⟨follows_note rfl ?_ ?_ ?_, ?_⟩ <;> simp only [PubSubServer.note, connections]
      · rw [View.step, if_pos rfl]
        exact { shows_ with
          isOpen := rfl
          subscribed := rfl
          audiences := fun topic => (audiences topic).trans (if_pos rfl)
          latest := fun topic => by
            rw [(latest topic).1, (latest topic).2]
            exact shows_.latest topic }
      · exact received
      · intro up
        cases up
      · intro up
        cases up
    · rw [if_neg its] at connections
      refine ⟨follows_note rfl ?_ ?_ ?_, ?_⟩ <;> simp only [PubSubServer.note, connections]
      · rw [View.step, if_neg (Ne.symm its)]
        exact { shows_ with
          audiences := fun topic => by rw [audiences, if_neg its, shows_.audiences]
          latest := fun topic => by
            rw [(latest topic).1, (latest topic).2]
            exact shows_.latest topic }
      · exact received
      · exact fresh
      · exact settled
  · cases next

theorem data_spec (kept : ∀ d, Follows d s ∧ Settled (s.connections d)) (chunk : Str)
    (live : (s.connections c).phase = .connected ∨ (s.connections c).phase = .closing) :
    ∃ t, step s (.data c chunk) = some t ∧ ∀ d, Follows d t ∧ Settled (t.connections d) := by
  obtain ⟨u, hu⟩ : ∃ u, s.setConnection c { s.connections c with
    input := (s.connections c).input ++ chunk
    received := (s.connections c).received ++ chunk } = u := ⟨_, rfl⟩
  have own : u.connections c = { s.connections c with
      input := (s.connections c).input ++ chunk
      received := (s.connections c).received ++ chunk } := by
    rw [← hu, PubSubServer.connections_set, if_pos rfl]
  have other (d : ι) (ne : d ≠ c) : u.connections d = s.connections d := by
    rw [← hu, PubSubServer.connections_set, if_neg ne]
  have started : (s.connections c).phase ≠ .connecting := by
    rcases live with up | closing
    · simp [up]
    · simp [closing]
  have rest : u.topics_ = s.topics_ ∧ u.history = s.history := by
    rw [← hu]
    exact ⟨rfl, rfl⟩
  have follows (d : ι) : Follows d u := by
    obtain ⟨⟨shows_, received, fresh⟩, settled⟩ := kept d
    by_cases its : d = c
    · subst its
      refine ⟨?_, ?_, ?_⟩ <;> rw [own]
      · rw [rest.1, rest.2]
        exact { shows_ with }
      · rw [rest.2, received, List.append_assoc]
      · exact fun connecting => absurd connecting started
    · refine ⟨?_, ?_, ?_⟩ <;> rw [other d its]
      · rw [rest.1, rest.2]
        exact shows_
      · rw [rest.2, received]
      · exact fresh
  obtain ⟨t, done, after, settled⟩ := PubSubServer.drain_spec follows (by rw [own]; exact started)
    (fun d ne => by rw [other d ne]; exact (kept d).2) (Nat.lt_succ_self _)
  refine ⟨t, ?_, fun d => ⟨after d, settled d⟩⟩
  rw [own] at done
  rw [step]
  simp only [hu, if_pos live]
  exact done

theorem timer_kept (kept : ∀ d, Follows d s ∧ Settled (s.connections d)) {content : Str}
    (plain : (publication (utcTime, content)).Plain)
    (next : step s (.timer content) = some t) : Follows d t ∧ Settled (t.connections d) := by
  cases next
  obtain ⟨⟨shows_, received, fresh⟩, settled⟩ := kept d
  have same := PubSubServer.same_publish False s utcTime content d
  have phase := same.phase.resolve_right fun its => its.1
  refine ⟨follows_note rfl (shows_.publish plain) ?_ fun connecting => ?_, fun connected => ?_⟩
  · rw [same.received, same.input]
    exact received
  · rw [same.input, same.context id]
    exact fresh (phase.symm.trans connecting)
  · simp only [PubSubServer.note] at connected ⊢
    rw [same.input]
    exact settled (phase.symm.trans connected)

theorem kept_of_reach (reach : Reach machine Allowed s) :
    ∀ d, Follows d s ∧ Settled (s.connections d) := by
  refine reach.invariant (P := fun s => ∀ d, Follows d s ∧ Settled (s.connections d))
    (fun s start d => ?_) fun s a t kept allowed next d => ?_
  · rw [show s = .new from start]
    refine ⟨⟨⟨rfl, rfl, fun _ => rfl, fun _ => rfl, rfl, fun _ _ found => ?_, fun _ member => ?_⟩, rfl,
      fun _ => ⟨rfl, rfl⟩⟩, fun connected => ?_⟩
    · cases found
    · cases member
    · cases connected
  · cases a with
    | connect c => exact connect_kept kept next
    | disconnect c => exact disconnect_kept kept next
    | timer content =>
      refine timer_kept kept ⟨?_, ?_, allowed, fun other => absurd rfl other⟩ next
      · show ' ' ∉ pub
        decide
      · show ¬crlf <:+: pub ++ ' ' :: utcTime
        decide
    | data c chunk =>
      have live : (s.connections c).phase = .connected ∨ (s.connections c).phase = .closing := by
        by_contra other
        have next : step s (.data c chunk) = some t := next
        rw [step, if_neg other] at next
        cases next
      obtain ⟨u, done, after⟩ := data_spec kept chunk live
      obtain rfl : u = t := Option.some.inj (done.symm.trans next)
      exact after d

/-- Whatever is published, subscribed to and cut into chunks by any number of connections: the hub has
carried out, while a connection is up, exactly the commands that are whole in what it has sent; it has sent each connection
what was published for a topic while it was subscribed, and the last content when it subscribed, in that
order, until it was shut down; and a client reads just these, however the stream is cut. -/
theorem hub_feeds (reach : Reach machine Allowed s) (c : ι) :
    (s.connections c).received =
      (commands c s.history).flatMap frame ++ (s.connections c).input ∧
    ((s.connections c).phase = .connected → parseMessage (s.connections c).input = .kContinue) ∧
    (s.connections c).sent =
      (View.run c s.history).got.map (fun p => makeMessage p.1 p.2) ∧
    ((View.run c s.history).isOpen ↔ (s.connections c).phase = .connected) ∧
    (∀ topic, (s.topics_ topic).audiences_ c = (View.run c s.history).subscribed topic ∧
      (s.connections c).context topic = (View.run c s.history).subscribed topic) ∧
    (∀ chunks : List Str, chunks.flatten = (s.connections c).sent.flatten →
      chunks.foldlM PubSubClient.onMessage .new = some ⟨[], (View.run c s.history).got, false⟩) ∧
    ((s.connections c).phase = .connected → ∀ chunk, (step s (.data c chunk)).isSome) := by
  have kept := kept_of_reach reach
  obtain ⟨⟨shows_, received, -⟩, settled⟩ := kept c
  refine ⟨received, settled, shows_.sent, ?_, fun topic => ⟨?_, ?_⟩, fun chunks stream => ?_,
    fun connected chunk => ?_⟩
  · simp [shows_.isOpen]
  · rw [shows_.subscribed]
    exact shows_.audiences topic
  · rw [shows_.subscribed]
  · refine client_reads shows_.got ?_
    rw [stream, shows_.sent, List.flatMap_def]
  · obtain ⟨t, done, -⟩ := data_spec kept chunk (.inl connected)
    exact Option.isSome_of_eq_some done

end

instance (s : PubSubServer ι) (a : Action ι) : Decidable (Allowed s a) := by
  cases a with
  | connect c => exact inferInstanceAs (Decidable True)
  | data c chunk => exact inferInstanceAs (Decidable True)
  | disconnect c => exact inferInstanceAs (Decidable True)
  | timer content => exact inferInstanceAs (Decidable ¬_)

theorem hub_feeds_two : ∃ s : PubSubServer Nat,
    s.history.length = 5 ∧ (s.connections 0).sent.flatten = (s.connections 1).sent.flatten ∧
    [['p', 'u', 'b', ' ', 'a', '\r', '\n', 'x'], ['\r', '\n']].foldlM PubSubClient.onMessage .new =
      some ⟨[], [(['a'], ['x'])], false⟩ := by
  have ran : ∃ s, execWhere machine Allowed (.new : PubSubServer Nat)
      [.connect 0, .data 0 ['s', 'u', 'b', ' ', 'a', '\r'], .connect 1,
        .data 0 ['\n', 'p', 'u', 'b', ' ', 'a', '\r', '\n', 'x', '\r', '\n'],
        .data 1 ['s', 'u', 'b', ' ', 'a', '\r', '\n']] = some s ∧ s.history.length = 5 ∧
      (s.connections 0).sent = [makeMessage ['a'] ['x']] ∧
      (s.connections 1).sent = [makeMessage ['a'] ['x']] ∧
      (View.run 1 s.history).got = [(['a'], ['x'])] :=
    ⟨_, rfl, rfl, rfl, rfl, rfl⟩
  obtain ⟨s, ran, length, first, second, got⟩ := ran
  have start : Reach machine Allowed (.new : PubSubServer Nat) := .start rfl
  obtain ⟨-, -, -, -, -, reads, -⟩ := hub_feeds (start.execWhere ran) 1
  refine ⟨s, length, by rw [first, second], ?_⟩
  rw [← got]
  refine reads _ ?_
  rw [second]
  rfl

end ProjectsCpp.Hub
