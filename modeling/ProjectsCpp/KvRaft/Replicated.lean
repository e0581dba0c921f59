import ProjectsCpp.KvRaft.Replica
import ProjectsCpp.KvRaft.Election

/-! A cluster as a system of replicated logs. The log of the leader of a term outlasts the
leader, every acknowledgement counts a prefix of it, and a node is pledged to the last
term in which it voted or took a request; the term in memory may fall back to the saved
one, but never below the pledge. Every section that respects its election and its log is
a step of the replicated logs, or none. -/

namespace ProjectsCpp.KvRaft
open ProjectsCpp.Text ProjectsCpp.Run ProjectsCpp.Quorum ProjectsCpp.Replication

variable {n : Nat}

abbrev Logs (n : Nat) := Replicas (Fin n) LogEntry

/-! ### One node -/

def Process.Runs (p : Process n) (T : Int) : Prop :=
  p.raft.state = .CANDIDATE ∧ p.raft.curTerm = T

/-- Node `i` follows the replicated logs; `leads` are the terms it was promoted in. -/
structure Follows (leads : Int → Prop) (A : Logs n) (i : Fin n) (p : Process n) : Prop where
  log : A.log i = p.raft.logs
  whole : p.raft.Whole
  nonneg : 0 ≤ A.pledge i
  pledged : A.pledge i ≤ p.raft.curTerm
  saved : ∀ record, p.raft.file.saved = some record → A.pledge i ≤ record.curTerm
  threads : ∀ born ∈ p.voteThreads, born ≤ A.pledge i
  candidate : p.raft.state = .CANDIDATE →
    0 < p.raft.curTerm ∧ A.pledge i = p.raft.curTerm ∧ ¬ leads p.raft.curTerm
  leader : p.raft.state = .LEADER → leads p.raft.curTerm
  led : ∀ T, leads T → T ≤ A.pledge i
  counted : ∀ T, leads T → A.pledge i = T → A.log i = A.owned T ∧
    A.acked T i = (A.owned T).length ∧ ∀ v, p.raft.matchIndex v ≤ A.acked T v
  commit : A.CommittedAt i p.raft.commitIndex.toNat

section
variable {leads : Int → Prop} {A B : Logs n} {i j : Fin n} {p q : Process n} {T : Int}

theorem Follows.elsewhere (f : Follows leads A j p) (ext : Replicas.Extends A B)
    (only : Replicas.OnlyAt A B i) (apart : j ≠ i)
    (owned : ∀ T, leads T → B.owned T = A.owned T) : Follows leads B j p where
  log := (only.log j apart).trans f.log
  whole := f.whole
  nonneg := f.nonneg.trans (ext.pledge j)
  pledged := by
    rw [only.pledge j apart]
    exact f.pledged
  saved := by
    rw [only.pledge j apart]
    exact f.saved
  threads := by
    rw [only.pledge j apart]
    exact f.threads
  candidate := by
    rw [only.pledge j apart]
    exact f.candidate
  leader := f.leader
  led := by
    rw [only.pledge j apart]
    exact f.led
  counted := fun T leads current => by
    rw [only.pledge j apart] at current
    obtain ⟨log, all, matched⟩ := f.counted T leads current
    rw [only.log j apart, only.acked T j apart, owned T leads]
    exact ⟨log, all, fun v => (matched v).trans (Int.ofNat_le.mpr (ext.acked T v))⟩
  commit := ext.committedAt (only.log j apart) f.commit

theorem Follows.sameLog (f : Follows leads A i p) (log : p.raft.SameLog q.raft)
    (pledged : A.pledge i ≤ q.raft.curTerm)
    (saved : ∀ record, q.raft.file.saved = some record → A.pledge i ≤ record.curTerm)
    (threads : q.voteThreads ⊆ p.voteThreads)
    (state : q.raft.state = .FOLLOWER ∨
      (q.raft.state = p.raft.state ∧ q.raft.curTerm = p.raft.curTerm))
    (matched : ∀ T, leads T → A.pledge i = T → ∀ v, q.raft.matchIndex v ≤ A.acked T v)
    (commit : A.CommittedAt i q.raft.commitIndex.toNat) : Follows leads A i q where
  log := f.log.trans log.logs.symm
  whole := log.whole f.whole
  nonneg := f.nonneg
  pledged := pledged
  saved := saved
  threads := fun born member => f.threads born (threads member)
  candidate := fun running => by
    cases state with
    | inl stepped =>
      rw [stepped] at running
      cases running
    | inr kept =>
      rw [kept.1] at running
      rw [kept.2]
      exact f.candidate running
  leader := fun leading => by
    cases state with
    | inl stepped =>
      rw [stepped] at leading
      cases leading
    | inr kept =>
      rw [kept.1] at leading
      rw [kept.2]
      exact f.leader leading
  led := f.led
  counted := fun T leads current => by
    obtain ⟨log, all, -⟩ := f.counted T leads current
    exact ⟨log, all, matched T leads current⟩
  commit := commit

theorem Follows.still (f : Follows leads A i p) (still : p.raft.Still q.raft)
    (pledged : A.pledge i ≤ q.raft.curTerm)
    (saved : ∀ record, q.raft.file.saved = some record → A.pledge i ≤ record.curTerm)
    (threads : q.voteThreads ⊆ p.voteThreads)
    (state : q.raft.state = .FOLLOWER ∨
      (q.raft.state = p.raft.state ∧ q.raft.curTerm = p.raft.curTerm)) :
    Follows leads A i q := by
  refine f.sameLog still.log pledged saved threads state ?_ ?_
  · rw [still.matched]
    exact fun T leads current => (f.counted T leads current).2.2
  · rw [still.commit]
    exact f.commit

theorem Follows.vote (f : Follows leads A i p) (pledge : A.pledge i ≤ T)
    (current : p.raft.curTerm = T)
    (saved : ∀ record, p.raft.file.saved = some record → T ≤ record.curTerm) :
    Follows leads (A.vote i T) i p where
  log := f.log
  whole := f.whole
  nonneg := by
    rw [Replicas.vote_pledge]
    exact f.nonneg.trans pledge
  pledged := by
    rw [Replicas.vote_pledge, current]
  saved := by
    rw [Replicas.vote_pledge]
    exact saved
  threads := by
    rw [Replicas.vote_pledge]
    exact fun born member => (f.threads born member).trans pledge
  candidate := fun running => by
    rw [Replicas.vote_pledge]
    obtain ⟨positive, -, unled⟩ := f.candidate running
    exact ⟨positive, current.symm, unled⟩
  leader := f.leader
  led := by
    rw [Replicas.vote_pledge]
    exact fun T' leads => (f.led T' leads).trans pledge
  counted := fun T' leads same => by
    rw [Replicas.vote_pledge] at same
    have reached := f.led T' leads
    exact f.counted T' leads (by omega)
  commit := (Replicas.vote_extends pledge).committedAt rfl f.commit

end

/-! ### One section -/

def Action.Plain : Action n → Prop
  | .sendInstallSnapShot | .installSnapShot _ | .installReply _ _ _ | .installSnapShotTokvServer
  | .recvSnapShot _ _ => False
  | _ => True

instance (a : Action n) : Decidable a.Plain := by
  rcases a <;> (unfold Action.Plain; infer_instance)

section
variable {p q : Process n} {a : Action n} {o : Output n}

theorem Process.step_runs (plain : a.Plain) (next : p.step a = some (q, o))
    (apart : a ≠ .electionStart) {T : Int} (runs : q.Runs T) :
    p.Runs T ∧ q.raft.logs = p.raft.logs := by
  obtain ⟨running, term⟩ := runs
  by_cases electing : a.Electing
  · cases Process.ran_of_step next with
    | electionStart => exact absurd rfl apart
    | electionWake waits run =>
      cases Raft.electionWake_cases run with
      | inl same =>
        cases same
        exact ⟨⟨running, term⟩, rfl⟩
      | inr won => exact absurd (won.2.1.symm.trans running) (fun same => by cases same)
    | callRequestVote thread run =>
      obtain ⟨-, -, rfl⟩ := Raft.callRequestVote_takes run
      exact ⟨⟨running, term⟩, rfl⟩
    | @voteReply r peer args reply call run =>
      by_cases higher : reply.term > p.raft.curTerm
      · have follower := Raft.voteReply_steps higher run
        exact absurd (follower.symm.trans running) (fun same => by cases same)
      · have log := Raft.voteReply_log higher run
        simp only [Raft.voteReply, if_neg higher] at run
        split at run <;> cases run <;> exact ⟨⟨running, term⟩, rfl⟩
    | _ => exact electing.elim
  · cases (Process.step_aside electing next).1.state with
    | inl stepped => exact absurd (stepped.symm.trans running) (fun same => by cases same)
    | inr kept =>
      refine ⟨⟨kept.1.symm.trans running, kept.2.symm.trans term⟩, ?_⟩
      have keeps : ¬ a.Reloads p.raft := by
        cases a with
        | voteReply peer args reply => exact absurd trivial electing
        | _ => exact id
      have frame := Process.step_log keeps next
      cases a with
      | start command =>
        rw [frame.2.2, if_neg]
        rw [kept.1.symm.trans running]
        exact fun same => by cases same
      | appendEntries args =>
        cases Process.ran_of_step next with
        | appendEntries run =>
          cases Raft.appendEntries_cases run with
          | inl refused => exact refused.1.log.logs
          | inr taken =>
            obtain ⟨recvLog, takes, rfl⟩ := taken
            have state := (Raft.overwriteLog_fields (p.raft.enterTerm args.term) args recvLog).2.1
            have follower := state.trans (Raft.enterTerm_aside p.raft args.term).2.2.2
            exact absurd (follower.symm.trans running) (fun same => by cases same)
      | sendInstallSnapShot | installSnapShot | installReply | installSnapShotTokvServer
      | recvSnapShot => exact plain.elim
      | _ => exact frame.logs

end

end ProjectsCpp.KvRaft
