import ProjectsCpp.KvRaft.Canvass
import ProjectsCpp.KvRaft.Cluster
import ProjectsCpp.Lib.Quorum

/-! Election safety of a cluster. Every promotion rests on a majority that has supported the
new leader in its term; two majorities share a node, and a node supports one
candidate in each term. -/

namespace ProjectsCpp.KvRaft
open ProjectsCpp.Text ProjectsCpp.Run ProjectsCpp.Quorum

variable {n : Nat}

def ClusterStep.Counted (c : Cluster n) : ClusterStep n → Prop
  | .act i a => a.Counted (c.node i).process.raft
  | .deliver k => ∀ p ∈ c.net[k]?, p.action.Counted (c.node p.target).process.raft

instance (c : Cluster n) (e : ClusterStep n) : Decidable (e.Counted c) := by
  rcases e <;> (unfold ClusterStep.Counted; infer_instance)

namespace Cluster

def Supports (c : Cluster n) (T : Int) (i v : Fin n) : Prop :=
  (T, (i.val : Int)) ∈ (c.node v).supports

def Honest (c : Cluster n) : Packet n → Prop
  | .voteRequest src _ args => args.candidateId = src.val
  | .voteAnswer src dst args reply => reply.voteGranted → c.Supports args.term src dst
  | _ => True

structure Elected (c : Cluster n) : Prop where
  votes : ∀ i, VotesKept (c.node i).supports (c.node i).process.raft
  files : ∀ i, FileBehind (c.node i).process
  canvass : ∀ i, ∃ T, Canvass i (fun v => (c.node v).supports) (c.node i).process T
  honest : ∀ p ∈ c.net, c.Honest p
  won : ∀ T i, (T, i) ∈ c.promoted → ∃ voters, Majority voters ∧ ∀ v ∈ voters, c.Supports T i v

variable {c d : Cluster n} {e : ClusterStep n} {i : Fin n} {a : Action n} {q : Process n}
  {o : Output n}

theorem Honest.ran {p : Packet n} (honest : c.Honest p) (ran : c.Ran i a q o d) : d.Honest p := by
  cases p with
  | voteRequest src dst args => exact honest
  | voteAnswer src dst args reply => exact fun granted => ran.supports dst (honest granted)
  | _ => trivial

theorem majority_of_promotion {p : Process n} {supports : Fin n → List (Int × Int)} {T : Int}
    (canvass : Canvass i supports p T) (next : p.step .electionWake = some (q, .promoted)) :
    ∃ voters, Majority voters ∧ ∀ v ∈ voters, (q.raft.curTerm, (i.val : Int)) ∈ supports v := by
  generalize out : Output.promoted = o at next
  cases Process.ran_of_step next with
  | @electionWake r waits run =>
    rw [Raft.electionWake] at run
    split at run
    · cases run
    · split at run
      · rename_i candidate
        cases run
        rw [if_neg fun h => h.2 h.1] at out
        cases out
      · rename_i candidate
        split at run
        · rename_i enough
          cases run
          obtain ⟨term, own, voters, count, distinct, backed⟩ :=
            canvass.candidate (not_not.mp candidate)
          refine ⟨i :: voters, ⟨?_, ?_⟩, fun v member => ?_⟩
          · refine List.nodup_cons.mpr ⟨fun again => ?_, distinct.of_append_right⟩
            exact (backed i again).1 rfl
          · rw [Fintype.card_fin, List.length_cons, ← count]
            exact enough
          · have sameTerm : p.raft.curTerm = T := term
            rw [show Raft.curTerm _ = T from sameTerm]
            cases List.mem_cons.mp member with
            | inl self =>
              rw [self]
              exact own
            | inr voter => exact (backed v voter).2.2
        · cases run
          rw [if_neg fun h => h.2 h.1] at out
          cases out

theorem promoted_only {p : Process n} (next : p.step a = some (q, .promoted)) :
    a = .electionWake := by
  generalize out : Output.promoted = o at next
  cases Process.ran_of_step next with
  | electionWake => rfl
  | _ => cases out

theorem Elected.ran (elected : Elected c) (ran : c.Ran i a q o d) (peer : a.FromPeer)
    (counted : a.Counted (c.node i).process.raft)
    (granted : ∀ peer args reply, a = .voteReply peer args reply → reply.voteGranted →
      c.Supports args.term i peer) (net : ∀ p ∈ d.net, d.Honest p) : Elected d := by
  obtain ⟨T, canvass⟩ := elected.canvass i
  have durable : a.Reloads (c.node i).process.raft →
      (c.node i).process.raft.file.voteErased = false := by
    intro reloads
    cases a with
    | voteReply peer args reply =>
      rw [Action.Counted, if_pos (show _ > _ from reloads)] at counted
      exact counted
    | _ => exact reloads.elim
  have given : ∀ support, supportOf a o q.raft = some support → support ∈ (d.node i).supports := by
    intro support given
    rw [ran.self, given]
    exact List.mem_cons_self
  refine ⟨fun j => ?_, fun j => ?_, fun j => ?_, net, fun T' j leads => ?_⟩
  · by_cases same : j = i
    · rw [same, ran.self]
      exact (elected.votes i).act peer durable ran.section_
    · rw [ran.other same]
      exact elected.votes j
  · by_cases same : j = i
    · rw [same, ran.self]
      exact (elected.files i).act ran.section_
    · rw [ran.other same]
      exact elected.files j
  · by_cases same : j = i
    · rw [same, show (d.node i).process = q by rw [ran.self]]
      exact canvass.act (elected.files i) counted granted ran.supports given ran.section_
    · obtain ⟨T', other⟩ := elected.canvass j
      rw [show (d.node j).process = (c.node j).process by rw [ran.other same]]
      exact ⟨T', other.mono ran.supports⟩
  · have older : (T', j) ∈ c.promoted →
        ∃ voters, Majority voters ∧ ∀ v ∈ voters, d.Supports T' j v := by
      intro before
      obtain ⟨voters, majority, backed⟩ := elected.won T' j before
      exact ⟨voters, majority, fun v member => ran.supports v (backed v member)⟩
    rw [ran.promoted] at leads
    cases List.mem_append.mp leads with
    | inr before => exact older before
    | inl new =>
      cases o with
      | promoted =>
        cases List.mem_singleton.mp new
        have section_ := ran.section_
        cases promoted_only section_
        obtain ⟨voters, majority, backed⟩ := majority_of_promotion canvass section_
        exact ⟨voters, majority, fun v member => ran.supports v (backed v member)⟩
      | _ => cases new

theorem requests_honest (elected : Elected c) (ran : c.Ran i a q o d) :
    ∀ p ∈ requests i o, d.Honest p := by
  obtain ⟨T, canvass⟩ := elected.canvass i
  have named : ∀ peer args, o = .voteRequest peer args → args.candidateId = i.val := by
    rintro peer args rfl
    generalize out : Output.voteRequest peer args = o at ran
    cases Process.ran_of_step ran.section_ with
    | callRequestVote thread run =>
      cases out
      simp only [Raft.callRequestVote] at run
      split at run <;> cases run
      rw [Raft.id, canvass.peer]
    | electionWake =>
      split at out <;> cases out
    | _ => cases out
  intro p member
  cases o with
  | voteRequest peer args =>
    cases List.mem_singleton.mp member
    exact named peer args rfl
  | appendRequest peer args =>
    cases List.mem_singleton.mp member
    trivial
  | installRequest peer args =>
    cases List.mem_singleton.mp member
    trivial
  | _ => cases member

theorem answers_honest {p : Packet n} (honest : c.Honest p) (ran : c.Ran p.target p.action q o d) :
    ∀ p' ∈ p.answers o, d.Honest p' := by
  intro p' member
  cases p with
  | voteRequest src dst args =>
    cases o with
    | voteAnswer reply =>
      cases List.mem_singleton.mp member
      intro granted
      have support : supportOf (.requestVote args) (.voteAnswer reply) q.raft =
          some (args.term, args.candidateId) := if_pos granted
      have self := ran.self
      rw [Packet.action, support] at self
      have candidate : (src.val : Int) = args.candidateId := honest.symm
      rw [Supports, show d.node dst = _ from self, candidate]
      exact List.mem_cons_self
    | _ => cases member
  | appendRequest src dst args =>
    cases o with
    | appendAnswer reply =>
      cases List.mem_singleton.mp member
      trivial
    | _ => cases member
  | installRequest src dst args =>
    cases o with
    | installAnswer reply =>
      cases List.mem_singleton.mp member
      trivial
    | _ => cases member
  | _ => cases o <;> cases member

theorem Elected.boot (atomic : Bool) : Elected (boot atomic : Cluster n) where
  votes := VotesKept.boot atomic
  files := fun i => by
    refine ⟨noFile_sound atomic, nofun, fun waits => ?_⟩
    cases waits with
    | inl threads => exact absurd rfl threads
    | inr calls => exact absurd rfl calls
  canvass := fun i => ⟨0, Canvass.boot atomic i⟩
  honest _ sent := absurd sent List.not_mem_nil
  won := nofun

theorem Elected.step (elected : Elected c) (counted : e.Counted c) (next : c.step e = some d) :
    Elected d := by
  rcases step_cases next with ⟨i, a, q, o, rfl, internal, ran, net⟩ |
    ⟨k, p, q, o, rfl, inFlight, ran, net⟩
  · have peer : a.FromPeer := by
      cases a with
      | requestVote args => exact internal.elim
      | _ => trivial
    refine elected.ran ran peer counted ?_ ?_
    · rintro peer args reply rfl
      exact internal.elim
    · intro p member
      rw [net] at member
      cases List.mem_append.mp member with
      | inl sent => exact requests_honest elected ran p sent
      | inr before => exact (elected.honest p before).ran ran
  · have honest := elected.honest p (List.mem_of_getElem? inFlight)
    have peer : p.action.FromPeer := by
      cases p with
      | voteRequest src dst args => exact ⟨src, honest⟩
      | _ => trivial
    refine elected.ran ran peer (counted p inFlight) ?_ ?_
    · intro peer args reply same granted
      cases p with
      | voteAnswer src dst args' reply' =>
        cases same
        exact honest granted
      | _ => cases same
    · intro p' member
      rw [net] at member
      cases List.mem_append.mp member with
      | inl sent => exact answers_honest honest ran p' sent
      | inr before => exact (elected.honest p' (List.mem_of_mem_eraseIdx before)).ran ran

theorem elected {atomic : Bool} (reach : Reach (machine n atomic) ClusterStep.Counted c) :
    Elected c := by
  refine reach.invariant (P := Elected) ?_ fun _ _ _ elected counted next =>
    elected.step counted next
  rintro c rfl
  exact Elected.boot atomic

theorem Elected.unique (elected : Elected c) {T : Int} {j : Fin n} (first : (T, i) ∈ c.promoted)
    (second : (T, j) ∈ c.promoted) : i = j := by
  obtain ⟨voters, majority, backed⟩ := elected.won T i first
  obtain ⟨voters', majority', backed'⟩ := elected.won T j second
  obtain ⟨v, member, member'⟩ := majority.meet majority'
  have same := (elected.votes v).unique T i j (backed v member) (backed' v member')
  exact Fin.ext (by omega)

end Cluster

/-- While every section stays with its election, at most one node is promoted in each term. -/
theorem one_leader_per_term {atomic : Bool} {c : Cluster n}
    (reach : Reach (Cluster.machine n atomic) ClusterStep.Counted c) {T : Int} {i j : Fin n}
    (first : (T, i) ∈ c.promoted) (second : (T, j) ∈ c.promoted) : i = j :=
  (Cluster.elected reach).unique first second

def oneElection : List (ClusterStep 3) :=
  [.act 0 .electionStart, .act 0 (.callRequestVote 1), .deliver 0, .deliver 0, .act 0 .electionWake]

theorem one_leader_per_term_sample :
    ∃ c, execWhere (Cluster.machine 3 false) ClusterStep.Counted (Cluster.boot false) oneElection =
        some c ∧ c.promoted = [(1, 0)] ∧
      ∀ T i j, (T, i) ∈ c.promoted → (T, j) ∈ c.promoted → i = j := by
  have run : ∃ c, execWhere (Cluster.machine 3 false) ClusterStep.Counted (Cluster.boot false)
      oneElection = some c ∧ c.promoted = [(1, 0)] := ⟨_, rfl, by decide⟩
  obtain ⟨c, ran, leads⟩ := run
  exact ⟨c, ran, leads, fun T i j =>
    one_leader_per_term ((Reach.start (M := Cluster.machine 3 false) rfl).execWhere ran)⟩

/-- Node 0 leads term 1 while a grant of node 2 is still on its way; node 1 starts term 2 and
both others vote for it; node 0 starts term 3 and counts the old grant. Node 2 starts
term 3 as well and node 1 votes for it. -/
def staleGrantRun : List (ClusterStep 3) :=
  [.act 0 .electionStart, .act 0 (.callRequestVote 1), .act 0 (.callRequestVote 1),
    .deliver 0, .deliver 1, .deliver 0, .act 0 .electionWake,
    .act 1 .electionStart, .act 1 (.callRequestVote 2), .act 1 (.callRequestVote 2),
    .deliver 1, .deliver 1, .act 0 .electionStart, .deliver 2, .act 0 .electionWake,
    .act 2 .electionStart, .act 2 (.callRequestVote 3), .act 2 (.callRequestVote 3),
    .deliver 0, .deliver 0, .act 2 .electionWake]

theorem two_leaders_in_one_term :
    ¬ ∀ c, Reachable (Cluster.machine 3 false) c → ∀ T i j,
      (T, i) ∈ c.promoted → (T, j) ∈ c.promoted → i = j := by
  intro unique
  have run : ∃ c, exec (Cluster.machine 3 false) (Cluster.boot false) staleGrantRun = some c ∧
      c.promoted = [(3, 2), (3, 0), (1, 0)] := ⟨_, rfl, by decide⟩
  obtain ⟨c, ran, leads⟩ := run
  have reach : Reachable (Cluster.machine 3 false) c := Reach.exec (Reach.start rfl) ran
  have same := unique c reach 3 2 0 (by rw [leads]; decide) (by rw [leads]; decide)
  exact absurd same (by decide)

end ProjectsCpp.KvRaft
