import ProjectsCpp.KvRaft.Life

/-! A kvRaft cluster without crashes: the processes and the requests and answers in flight.
Any of them may be delivered at any time, so messages are delayed and reordered
arbitrarily, and one that is never delivered is lost. The strings of a request pass the
serializer on their way. -/

namespace ProjectsCpp.KvRaft
open ProjectsCpp.Text ProjectsCpp.Run

variable {n : Nat}

/-- A request of `src` to `dst`, or the answer of `dst` to it. -/
inductive Packet (n : Nat) where
  | voteRequest (src dst : Fin n) (args : RequestVoteArgs)
  | voteAnswer (src dst : Fin n) (args : RequestVoteArgs) (reply : RequestVoteReply)
  | appendRequest (src dst : Fin n) (args : AppendEntriesArgs)
  | appendAnswer (src dst : Fin n) (args : AppendEntriesArgs) (reply : AppendEntriesReply)
  | installRequest (src dst : Fin n) (args : InstallSnapShotArgs)
  | installAnswer (src dst : Fin n) (args : InstallSnapShotArgs) (reply : InstallSnapSHotReply)

namespace Packet

def target : Packet n → Fin n
  | voteRequest _ dst _ | appendRequest _ dst _ | installRequest _ dst _ => dst
  | voteAnswer src _ _ _ | appendAnswer src _ _ _ | installAnswer src _ _ _ => src

def action : Packet n → Action n
  | voteRequest _ _ args => .requestVote args
  | voteAnswer _ dst args reply => .voteReply dst args reply
  | appendRequest _ _ args => .appendEntries { args with sendLogs := transmit args.sendLogs }
  | appendAnswer _ dst args reply => .appendReply dst args reply
  | installRequest _ _ args => .installSnapShot { args with snapShot := transmit args.snapShot }
  | installAnswer _ dst args reply => .installReply dst args reply

def answers : Packet n → Output n → List (Packet n)
  | voteRequest src dst args, .voteAnswer reply => [.voteAnswer src dst args reply]
  | appendRequest src dst args, .appendAnswer reply => [.appendAnswer src dst args reply]
  | installRequest src dst args, .installAnswer reply => [.installAnswer src dst args reply]
  | _, _ => []

end Packet

def requests (i : Fin n) : Output n → List (Packet n)
  | .voteRequest peer args => [.voteRequest i peer args]
  | .appendRequest peer args => [.appendRequest i peer args]
  | .installRequest peer args => [.installRequest i peer args]
  | _ => []

def Action.Internal : Action n → Prop
  | .requestVote _ | .voteReply _ _ _ | .appendEntries _ | .appendReply _ _ _
  | .installSnapShot _ | .installReply _ _ _ => False
  | _ => True

instance (a : Action n) : Decidable a.Internal := by
  rcases a <;> (unfold Action.Internal; infer_instance)

/-- `promoted` and `delivered` are history: the promotions to LEADER with their term, and
the messages each `applyLogLoop` has collected. -/
structure Cluster (n : Nat) where
  node : Fin n → Life n
  net : List (Packet n)
  promoted : List (Int × Fin n)
  delivered : List (Fin n × ApplyMsg)

inductive ClusterStep (n : Nat) where
  | act (i : Fin n) (a : Action n)
  | deliver (k : Nat)

namespace Cluster

def promotion (i : Fin n) (q : Process n) : Output n → List (Int × Fin n)
  | .promoted => [(q.raft.curTerm, i)]
  | _ => []

/-- The messages that `applyLogLoop` of node `i` delivers. -/
def deliveries (i : Fin n) (a : Action n) (o : Output n) : List (Fin n × ApplyMsg) :=
  match a, o with
  | .applyLog, .apply msgs => msgs.map fun m => (i, m)
  | _, _ => []

/-- Node `i` runs a section; `net` is what stays in flight, `sends` what is added. -/
def run (c : Cluster n) (i : Fin n) (a : Action n) (net : List (Packet n))
    (sends : Output n → List (Packet n)) : Option (Cluster n) :=
  ((c.node i).process.step a).map fun (q, o) =>
    { node := Function.update c.node i ⟨q, (supportOf a o q.raft).toList ++ (c.node i).supports⟩
      net := sends o ++ net
      promoted := promotion i q o ++ c.promoted
      delivered := deliveries i a o ++ c.delivered }

def step (c : Cluster n) : ClusterStep n → Option (Cluster n)
  | .act i a => if a.Internal then c.run i a c.net (requests i) else none
  | .deliver k => (c.net[k]?).bind fun p => c.run p.target p.action (c.net.eraseIdx k) p.answers

def boot (atomic : Bool) : Cluster n := ⟨fun i => ⟨Process.boot atomic i, []⟩, [], [], []⟩

def machine (n : Nat) (atomic : Bool) : Machine (Cluster n) (ClusterStep n) where
  start c := c = boot atomic
  step := step

variable {c d : Cluster n} {e : ClusterStep n}

structure Ran (c : Cluster n) (i : Fin n) (a : Action n) (q : Process n) (o : Output n)
    (d : Cluster n) : Prop where
  section_ : (c.node i).process.step a = some (q, o)
  node : d.node = Function.update c.node i ⟨q, (supportOf a o q.raft).toList ++ (c.node i).supports⟩
  promoted : d.promoted = promotion i q o ++ c.promoted
  delivered : d.delivered = deliveries i a o ++ c.delivered

theorem ran_of_run {i : Fin n} {a : Action n} {net : List (Packet n)}
    {sends : Output n → List (Packet n)} (next : c.run i a net sends = some d) :
    ∃ q o, c.Ran i a q o d ∧ d.net = sends o ++ net := by
  obtain ⟨⟨q, o⟩, ran, rfl⟩ := Option.map_eq_some_iff.mp next
  exact ⟨q, o, ⟨ran, rfl, rfl, rfl⟩, rfl⟩

theorem step_cases (next : c.step e = some d) :
    (∃ i a q o, e = .act i a ∧ a.Internal ∧ c.Ran i a q o d ∧ d.net = requests i o ++ c.net) ∨
    ∃ k p q o, e = .deliver k ∧ c.net[k]? = some p ∧ c.Ran p.target p.action q o d ∧
      d.net = p.answers o ++ c.net.eraseIdx k := by
  cases e with
  | act i a =>
    rw [step] at next
    split at next
    · rename_i internal
      obtain ⟨q, o, ran, net⟩ := ran_of_run next
      exact .inl ⟨i, a, q, o, rfl, internal, ran, net⟩
    · cases next
  | deliver k =>
    obtain ⟨p, inFlight, delivered⟩ := Option.bind_eq_some_iff.mp next
    obtain ⟨q, o, ran, net⟩ := ran_of_run delivered
    exact .inr ⟨k, p, q, o, rfl, inFlight, ran, net⟩

theorem Ran.self {i : Fin n} {a : Action n} {q : Process n} {o : Output n} (ran : c.Ran i a q o d) :
    d.node i = ⟨q, (supportOf a o q.raft).toList ++ (c.node i).supports⟩ := by
  rw [ran.node, Function.update_self]

theorem Ran.other {i j : Fin n} {a : Action n} {q : Process n} {o : Output n}
    (ran : c.Ran i a q o d) (apart : j ≠ i) : d.node j = c.node j := by
  rw [ran.node, Function.update_of_ne apart]

theorem Ran.supports {i : Fin n} {a : Action n} {q : Process n} {o : Output n}
    (ran : c.Ran i a q o d) (j : Fin n) : (c.node j).supports ⊆ (d.node j).supports := by
  intro support given
  by_cases same : j = i
  · rw [same] at given ⊢
    rw [ran.self]
    exact List.mem_append_right _ given
  · rw [ran.other same]
    exact given

end Cluster

end ProjectsCpp.KvRaft
