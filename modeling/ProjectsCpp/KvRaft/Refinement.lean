import ProjectsCpp.KvRaft.Replicated

/-! A cluster without snapshots refines replicated logs: an election is won by voters that
back the log of the winner, a request describes a part of the log of the leader of its
term, what a leader counts has been acknowledged, and what `applyLogLoop` delivers has
been chosen. One lemma for each section says what it makes of the replicated logs. -/

namespace ProjectsCpp.KvRaft
open ProjectsCpp.Text ProjectsCpp.Run ProjectsCpp.Quorum ProjectsCpp.Replication

variable {n : Nat}

/-! ### The steps in question -/

/-- The section stays with its election and with its log: a step-down that reads the file
finds no erased vote and no log entry there, only a leader sends entries, a request that is
taken gives up no entry of its own term, and a command has no separator of the wire. -/
def Action.Faithful (r : Raft n) : Action n → Prop
  | .callRequestVote born => born = r.curTerm
  | .voteReply _ args reply =>
    if reply.term > r.curTerm then r.file.voteErased = false ∧ r.NoSavedLog
    else r.state = .CANDIDATE → reply.voteGranted → args.term = r.curTerm
  | .sendAppendEntries => r.state = .LEADER
  | .appendEntries args =>
    ∀ recvLog ∈ getCmdAndTerm args.sendLogs, ¬ args.term < r.curTerm →
      (r.enterTerm args.term).checkPrevLog args r.curTerm = some none →
      r.lastTerm = args.term → r.lastIndex ≤ args.prevLogIndex + recvLog.length
  | .start command => r.state = .LEADER → ',' ∉ command ∧ ';' ∉ command
  | _ => True

instance (r : Raft n) (a : Action n) : Decidable (a.Faithful r) := by
  rcases a <;> (unfold Action.Faithful; infer_instance)

def Packet.Fits : Packet n → Prop
  | appendRequest _ _ args => args.sendLogs.length < 65536
  | _ => True

instance (p : Packet n) : Decidable p.Fits := by
  cases p <;> (unfold Packet.Fits; infer_instance)

namespace ClusterStep

def Plain : ClusterStep n → Prop
  | .act _ a => a.Plain
  | .deliver _ => True

instance (e : ClusterStep n) : Decidable e.Plain := by
  rcases e <;> (unfold Plain; infer_instance)

def Faithful (c : Cluster n) : ClusterStep n → Prop
  | .act i a => a.Faithful (c.node i).process.raft
  | .deliver k => ∀ p ∈ c.net[k]?, p.Fits ∧ p.action.Faithful (c.node p.target).process.raft

instance (c : Cluster n) (e : ClusterStep n) : Decidable (e.Faithful c) := by
  rcases e <;> (unfold Faithful; infer_instance)

end ClusterStep

theorem Action.Faithful.counted {r : Raft n} {a : Action n} (faithful : a.Faithful r) :
    a.Counted r := by
  cases a with
  | callRequestVote born => exact faithful
  | voteReply peer args reply =>
    rw [Action.Counted]
    rw [Action.Faithful] at faithful
    split
    · rename_i higher
      rw [if_pos higher] at faithful
      exact faithful.1
    · rename_i low
      rw [if_neg low] at faithful
      exact faithful
  | _ => trivial

theorem ClusterStep.Faithful.counted {c : Cluster n} {e : ClusterStep n}
    (faithful : e.Faithful c) : e.Counted c := by
  cases e with
  | act i a => exact Action.Faithful.counted faithful
  | deliver k => exact fun p inFlight => (faithful p inFlight).2.counted

namespace Cluster

/-! ### The invariant -/

/-- The request holds the places from `p` to `m` of the log of the leader of its term. -/
structure Sent (c : Cluster n) (A : Logs n) (src dst : Fin n) (args : AppendEntriesArgs)
    (p m : Nat) : Prop where
  promoted : (args.term, src) ∈ c.promoted
  apart : dst ≠ src
  prev : args.prevLogIndex = p
  le : p ≤ m
  long : A.base args.term ≤ m
  within : m ≤ (A.owned args.term).length
  prevTerm : args.prevLogTerm = lastTerm LogEntry.term ((A.owned args.term).take p)
  logs : args.sendLogs = sendLogsOf (((A.owned args.term).take m).drop p)
  commit : A.Committed args.term args.leaderCommit.toNat

def Sound (c : Cluster n) (A : Logs n) : Packet n → Prop
  | .voteRequest src _ args => args.term ≤ A.pledge src ∧
      ((c.node src).process.Runs args.term →
        args.lastLogTerm = lastTerm LogEntry.term (A.log src) ∧
          args.lastLogIndex = (A.log src).length)
  | .voteAnswer _ _ _ _ => True
  | .appendRequest src dst args => ∃ p m, c.Sent A src dst args p m
  | .appendAnswer src dst args reply => (args.term, src) ∈ c.promoted ∧
      (reply.success → ∀ sent, getCmdAndTerm args.sendLogs = some sent →
        args.prevLogIndex + sent.length ≤ A.acked args.term dst)
  | .installRequest _ _ _ => False
  | .installAnswer _ _ _ _ => False

/-- The cluster refines the replicated logs `A`. -/
structure Replicated (c : Cluster n) (A : Logs n) : Prop where
  consistent : A.Consistent LogEntry.term
  led : ∀ T, A.led T ↔ ∃ i, (T, i) ∈ c.promoted
  node : ∀ i, Follows (fun T => (T, i) ∈ c.promoted) A i (c.node i).process
  backed : ∀ T i v, c.Supports T i v → T ≤ A.pledge i ∧
    ((c.node i).process.Runs T → A.Backs T (A.log i) v)
  sound : ∀ p ∈ c.net, c.Sound A p
  decided : ∀ i m, (i, m) ∈ c.delivered →
    ∃ (k : Nat) (e : LogEntry), m = .command e.command (k + 1) e.term ∧ A.Decided k e
  clean : ∀ T, ∀ e ∈ A.owned T, ',' ∉ e.command ∧ ';' ∉ e.command

/-- What a section of node `i` makes of the replicated logs. -/
structure Moved (c d : Cluster n) (A B : Logs n) (i : Fin n) : Prop where
  ext : Replicas.Extends A B
  only : Replicas.OnlyAt A B i
  consistent : B.Consistent LogEntry.term
  led : ∀ T, B.led T ↔ ∃ j, (T, j) ∈ d.promoted
  node : Follows (fun T => (T, i) ∈ d.promoted) B i (d.node i).process
  owned : ∀ j T, j ≠ i → (T, j) ∈ c.promoted → B.owned T = A.owned T
  clean : ∀ T, ∀ e ∈ B.owned T, ',' ∉ e.command ∧ ';' ∉ e.command
  /-- A node that is a candidate of a term begun before was one before. -/
  runs : ∀ T, T ≤ A.pledge i → (d.node i).process.Runs T →
    (c.node i).process.Runs T ∧ B.log i = A.log i

variable {c d : Cluster n} {A B : Logs n} {i j : Fin n} {a : Action n} {q : Process n}
  {o : Output n} {T : Int}

theorem Ran.promoted_mono (ran : c.Ran i a q o d) (before : (T, j) ∈ c.promoted) :
    (T, j) ∈ d.promoted := by
  rw [ran.promoted]
  exact List.mem_append_right _ before

theorem Ran.promoted_other (ran : c.Ran i a q o d) (apart : j ≠ i) :
    (T, j) ∈ d.promoted ↔ (T, j) ∈ c.promoted := by
  refine ⟨fun after => ?_, ran.promoted_mono⟩
  rw [ran.promoted] at after
  cases List.mem_append.mp after with
  | inr before => exact before
  | inl new =>
    cases o with
    | promoted =>
      cases List.mem_singleton.mp new
      exact absurd rfl apart
    | _ => cases new

theorem mem_deliveries {m : ApplyMsg} (member : (j, m) ∈ deliveries i a o) :
    j = i ∧ a = .applyLog ∧ ∃ msgs, o = .apply msgs ∧ m ∈ msgs := by
  unfold deliveries at member
  split at member
  · obtain ⟨m', there, same⟩ := List.mem_map.mp member
    cases same
    exact ⟨rfl, rfl, _, rfl, there⟩
  · cases member

theorem Moved.runs_all (moved : Moved c d A B i) (ran : c.Ran i a q o d)
    (begun : T ≤ A.pledge j) (runs : (d.node j).process.Runs T) :
    (c.node j).process.Runs T ∧ B.log j = A.log j := by
  by_cases same : j = i
  · rw [same] at begun runs ⊢
    exact moved.runs T begun runs
  · rw [ran.other same] at runs
    exact ⟨runs, moved.only.log j same⟩

theorem Sound.moved {p : Packet n} (sound : c.Sound A p) (r : Replicated c A)
    (moved : Moved c d A B i) (ran : c.Ran i a q o d) : d.Sound B p := by
  cases p with
  | voteRequest src dst args =>
    obtain ⟨begun, asks⟩ := sound
    refine ⟨begun.trans (moved.ext.pledge src), fun runs => ?_⟩
    obtain ⟨before, log⟩ := moved.runs_all ran begun runs
    rw [log]
    exact asks before
  | voteAnswer src dst args reply => trivial
  | appendRequest src dst args =>
    obtain ⟨p, m, sent⟩ := sound
    have led := (r.led _).mpr ⟨src, sent.promoted⟩
    have within := sent.within
    have le := sent.le
    exact ⟨p, m, {
      promoted := ran.promoted_mono sent.promoted
      apart := sent.apart
      prev := sent.prev
      le := sent.le
      long := by
        rw [moved.ext.base _ led]
        exact sent.long
      within := within.trans (moved.ext.owned _ led).length_le
      prevTerm := by
        rw [moved.ext.take led (by omega)]
        exact sent.prevTerm
      logs := by
        rw [moved.ext.take led within]
        exact sent.logs
      commit := moved.ext.committed (le_refl _) sent.commit }⟩
  | appendAnswer src dst args reply =>
    obtain ⟨promoted, success⟩ := sound
    refine ⟨ran.promoted_mono promoted, fun accepted sent read => ?_⟩
    exact (success accepted sent read).trans (Int.ofNat_le.mpr (moved.ext.acked _ dst))
  | installRequest src dst args => exact sound
  | installAnswer src dst args reply => exact sound

theorem Replicated.ran (r : Replicated c A) (ran : c.Ran i a q o d) (moved : Moved c d A B i)
    (backs : ∀ T j, supportOf a o q.raft = some (T, (j.val : Int)) → T ≤ B.pledge j ∧
      ((d.node j).process.Runs T → B.Backs T (B.log j) i))
    (net : ∀ p ∈ d.net, p ∈ c.net ∨ d.Sound B p)
    (delivered : ∀ m, (i, m) ∈ deliveries i a o →
      ∃ (k : Nat) (e : LogEntry), m = .command e.command (k + 1) e.term ∧ B.Decided k e) :
    Replicated d B where
  consistent := moved.consistent
  led := moved.led
  node := fun j => by
    by_cases same : j = i
    · rw [same]
      exact moved.node
    · have leads : (fun T => (T, j) ∈ d.promoted) = fun T => (T, j) ∈ c.promoted :=
        funext fun T => propext (ran.promoted_other same)
      rw [leads, ran.other same]
      exact (r.node j).elsewhere moved.ext moved.only same fun T => moved.owned j T same
  backed := fun T j v support => by
    have old : c.Supports T j v → T ≤ B.pledge j ∧
        ((d.node j).process.Runs T → B.Backs T (B.log j) v) := by
      intro before
      obtain ⟨begun, backs⟩ := r.backed T j v before
      refine ⟨begun.trans (moved.ext.pledge j), fun runs => ?_⟩
      obtain ⟨ran', log⟩ := moved.runs_all ran begun runs
      rw [log]
      exact moved.ext.backs r.consistent (backs ran')
    by_cases same : v = i
    · rw [same] at support old ⊢
      rw [Supports, ran.self] at support
      cases List.mem_append.mp support with
      | inr before => exact old before
      | inl new => exact backs T j (Option.mem_toList.mp new)
    · rw [Supports, ran.other same] at support
      exact old support
  sound := fun p member => by
    cases net p member with
    | inl before => exact (r.sound p before).moved r moved ran
    | inr new => exact new
  decided := fun j m member => by
    rw [ran.delivered] at member
    cases List.mem_append.mp member with
    | inr before =>
      obtain ⟨k, e, same, decided⟩ := r.decided j m before
      exact ⟨k, e, same, moved.ext.decided decided⟩
    | inl new =>
      rw [(mem_deliveries new).1] at new
      exact delivered m new
  clean := moved.clean

/-! ### Sections that leave the replicated logs as they are -/

theorem Ran.process (ran : c.Ran i a q o d) : (d.node i).process = q := by rw [ran.self]

theorem Ran.runs (ran : c.Ran i a q o d) (plain : a.Plain) (apart : a ≠ .electionStart)
    {leads leads' : Int → Prop} (before : Follows leads A i (c.node i).process)
    (after : Follows leads' B i q) (runs : (d.node i).process.Runs T) :
    (c.node i).process.Runs T ∧ B.log i = A.log i := by
  rw [ran.process] at runs
  obtain ⟨ran', logs⟩ := Process.step_runs plain ran.section_ apart runs
  refine ⟨ran', ?_⟩
  rw [after.log, before.log, logs]

theorem Replicated.stay (r : Replicated c A) (ran : c.Ran i a q o d) (plain : a.Plain)
    (apart : a ≠ .electionStart) (unpromoted : promotion i q o = [])
    (node : Follows (fun T => (T, i) ∈ c.promoted) A i q) : Moved c d A A i := by
  have promoted : d.promoted = c.promoted := by rw [ran.promoted, unpromoted, List.nil_append]
  exact {
    ext := .refl A
    only := ⟨fun _ _ => rfl, fun _ _ => rfl, fun _ _ _ => rfl⟩
    consistent := r.consistent
    led := by
      rw [promoted]
      exact r.led
    node := by
      rw [promoted, ran.process]
      exact node
    owned := fun _ _ _ _ => rfl
    clean := r.clean
    runs := fun _ _ => ran.runs plain apart (r.node i) node }

theorem unpromoted (next : (c.node i).process.step a = some (q, o)) (apart : a ≠ .electionWake) :
    promotion i q o = [] := by
  cases o with
  | promoted => exact absurd (promoted_only next) apart
  | _ => rfl

theorem Replicated.aside (r : Replicated c A) (ran : c.Ran i a q o d) (plain : a.Plain)
    (apart : ¬ a.Electing) (still : (c.node i).process.raft.Still q.raft) :
    Moved c d A A i := by
  have keeps : ¬ a.Reloads (c.node i).process.raft := by
    cases a with
    | voteReply peer args reply => exact absurd trivial apart
    | _ => exact id
  have ballot := Process.step_ballot keeps ran.section_
  obtain ⟨aside, threads, -⟩ := Process.step_aside apart ran.section_
  have node := r.node i
  refine r.stay ran plain ?_ (unpromoted ran.section_ ?_) ?_
  · rintro rfl
    exact apart trivial
  · rintro rfl
    exact apart trivial
  · exact node.still still (node.pledged.trans ballot.term)
      (ballot.saved_from node.pledged node.saved) (by rw [threads]; exact List.Subset.refl _)
      aside.state

theorem Replicated.callRequestVote (r : Replicated c A) {born : Int}
    (current : born = (c.node i).process.raft.curTerm)
    (ran : c.Ran i (.callRequestVote born) q o d) :
    Moved c d A A i ∧ ∀ p ∈ requests i o, d.Sound A p := by
  have node := r.node i
  have section_ := ran.section_
  cases Process.ran_of_step section_ with
  | @callRequestVote _ s peer args thread run =>
    have still := Raft.callRequestVote_still run
    obtain ⟨-, term, same⟩ := Raft.callRequestVote_takes run
    have asks : args.lastLogTerm = (c.node i).process.raft.lastTerm ∧
        args.lastLogIndex = (c.node i).process.raft.lastIndex := by
      simp only [Raft.callRequestVote] at run
      split at run <;> cases run
      exact ⟨rfl, rfl⟩
    have after : Follows (fun T => (T, i) ∈ c.promoted) A i
        { (c.node i).process with
          raft := s
          voteThreads := (c.node i).process.voteThreads.erase born
          voteCalls := (peer, args) :: (c.node i).process.voteCalls } := by
      refine node.still still ?_ ?_ (List.erase_subset) ?_
      · rw [same]
        exact node.pledged
      · rw [same]
        exact node.saved
      · rw [same]
        exact .inr ⟨rfl, rfl⟩
    refine ⟨r.stay ran trivial (fun same => by cases same) rfl after, fun p member => ?_⟩
    cases List.mem_singleton.mp member
    refine ⟨?_, fun _ => ?_⟩
    · rw [term, ← current]
      exact node.threads born thread
    · rw [asks.1, asks.2, node.whole.lastTerm, node.whole.lastIndex, node.log]
      exact ⟨rfl, rfl⟩

theorem Replicated.voteReply (r : Replicated c A) (elected : Elected c) {peer : Fin n}
    {args : RequestVoteArgs} {reply : RequestVoteReply}
    (faithful : Action.Faithful (c.node i).process.raft (.voteReply peer args reply))
    (ran : c.Ran i (.voteReply peer args reply) q o d) : Moved c d A A i := by
  have node := r.node i
  have section_ := ran.section_
  cases Process.ran_of_step section_ with
  | @voteReply s _ _ _ call run =>
    refine r.stay ran trivial nofun rfl ?_
    by_cases higher : reply.term > (c.node i).process.raft.curTerm
    · -- the saved term is not below the pledge, and the file adds no entry
      rw [Action.Faithful, if_pos higher] at faithful
      have behind := elected.files i
      obtain ⟨file, restored⟩ := Raft.voteReply_reload behind.sound higher run
      have there := behind.present (.inr (List.ne_nil_of_mem call))
      obtain ⟨record, found, term, -⟩ := restored.resolve_left there
      refine node.still (Raft.voteReply_still (fun _ => faithful.2) run) ?_ ?_
        (List.Subset.refl _) (.inl (Raft.voteReply_steps higher run))
      · exact (node.saved record found).trans (le_of_eq term.symm)
      · intro record' found'
        exact node.saved record' (file ▸ found')
    · have still := Raft.voteReply_still (fun high => absurd high higher) run
      simp only [Raft.voteReply, if_neg higher] at run
      split at run <;> cases run <;>
        exact node.still still node.pledged node.saved (List.Subset.refl _) (.inr ⟨rfl, rfl⟩)

theorem Replicated.sendAppendEntries (r : Replicated c A) (elected : Elected c)
    (leading : (c.node i).process.raft.state = .LEADER)
    (ran : c.Ran i .sendAppendEntries q o d) :
    Moved c d A A i ∧ ∀ p ∈ requests i o, d.Sound A p := by
  have node := r.node i
  have section_ := ran.section_
  cases Process.ran_of_step section_ with
  | @sendAppendEntries s peer args thread run =>
    obtain ⟨still, p, asks⟩ := Raft.sendAppendEntries_asks node.whole run
    refine ⟨r.aside ran trivial id still, fun packet member => ?_⟩
    cases List.mem_singleton.mp member
    have promoted := node.leader leading
    have led := (r.led _).mpr ⟨i, promoted⟩
    have current := le_antisymm node.pledged (node.led _ promoted)
    obtain ⟨log, -, -⟩ := node.counted _ promoted current
    have peerId : (c.node i).process.raft.peerId = i := by
      obtain ⟨T, canvass⟩ := elected.canvass i
      exact canvass.peer
    rw [← asks.term] at promoted led current log
    have same : A.owned args.term = (c.node i).process.raft.logs := log.symm.trans node.log
    refine ⟨p, (A.owned args.term).length, {
      promoted := ran.promoted_mono promoted
      apart := peerId ▸ asks.apart
      prev := asks.prev
      le := by
        rw [same]
        exact asks.within
      long := r.consistent.based _ led
      within := le_refl _
      prevTerm := by
        rw [same]
        exact asks.prevTerm
      logs := by
        rw [List.take_length, same]
        exact asks.logs
      commit := by
        rw [asks.commit, ← current]
        exact node.commit.committed }⟩

theorem Replicated.applyLog (r : Replicated c A) (ran : c.Ran i .applyLog q o d) :
    Moved c d A A i ∧ ∀ m, (i, m) ∈ deliveries i .applyLog o →
      ∃ (k : Nat) (e : LogEntry), m = .command e.command (k + 1) e.term ∧ A.Decided k e := by
  have node := r.node i
  have section_ := ran.section_
  cases Process.ran_of_step section_ with
  | @applyLog s msgs run =>
    refine ⟨r.aside ran trivial id (Raft.applyLog_still run), fun m member => ?_⟩
    obtain ⟨-, -, msgs', same, there⟩ := mem_deliveries member
    cases same
    obtain ⟨index, e, message, found, le⟩ := Raft.applyLog_entries run m there
    obtain ⟨k, rfl, inLog⟩ := node.whole.entryAt_some found
    rw [← node.log] at inLog
    exact ⟨k, e, message, node.commit.decided (by omega) inLog⟩

/-! ### Elections -/

theorem Replicated.clean_log (r : Replicated c A) {e : LogEntry} (member : e ∈ A.log i) :
    ',' ∉ e.command ∧ ';' ∉ e.command := by
  obtain ⟨k, there⟩ := List.getElem?_of_mem member
  obtain ⟨-, start⟩ := r.consistent.formed i k e there
  have inside : ((A.log i).take (k + 1))[k]? = some e := by
    rwa [List.getElem?_take, if_pos (Nat.lt_succ_self k)]
  exact r.clean _ e (start.subset (List.mem_of_getElem? inside))

theorem vote_moved (r : Replicated c A) (ran : c.Ran i a q o d) (later : A.pledge i ≤ T)
    (unpromoted : promotion i q o = [])
    (node : Follows (fun T => (T, i) ∈ c.promoted) (A.vote i T) i q)
    (runs : ∀ t, t ≤ A.pledge i → (d.node i).process.Runs t →
      (c.node i).process.Runs t ∧ (A.vote i T).log i = A.log i) :
    Moved c d A (A.vote i T) i := by
  have promoted : d.promoted = c.promoted := by rw [ran.promoted, unpromoted, List.nil_append]
  exact {
    ext := Replicas.vote_extends later
    only := Replicas.vote_onlyAt
    consistent := r.consistent.vote later
    led := by
      rw [promoted]
      exact r.led
    node := by
      rw [promoted, ran.process]
      exact node
    owned := fun _ _ _ _ => rfl
    clean := r.clean
    runs := runs }

theorem Replicated.electionStart (r : Replicated c A) (elected : Elected c)
    (ran : c.Ran i .electionStart q o d) :
    Moved c d A (A.vote i q.raft.curTerm) i ∧
      ∀ T j, supportOf .electionStart o q.raft = some (T, ((j : Fin n).val : Int)) →
        T ≤ (A.vote i q.raft.curTerm).pledge j ∧
          (A.vote i q.raft.curTerm).Backs T ((A.vote i q.raft.curTerm).log j) i := by
  have node := r.node i
  have section_ := ran.section_
  cases Process.ran_of_step section_ with
  | @electionStart s idle run =>
    have still := Raft.electionStart_still run
    obtain ⟨term, candidate, peerId, saved⟩ : s.curTerm = (c.node i).process.raft.curTerm + 1 ∧
        s.state = .CANDIDATE ∧ s.peerId = (c.node i).process.raft.peerId ∧
        ∀ record, s.file.saved = some record → record.curTerm = s.curTerm := by
      rw [Raft.electionStart] at run
      split at run <;> cases run
      refine ⟨rfl, rfl, rfl, ?_⟩
      rintro record ⟨⟩
      rfl
    have pledged := node.pledged
    have later : A.pledge i < s.curTerm := by omega
    refine ⟨vote_moved r ran (le_of_lt later) rfl ?_ ?_, ?_⟩
    · exact {
        log := node.log.trans still.log.logs.symm
        whole := still.log.whole node.whole
        nonneg := by
          rw [Replicas.vote_pledge]
          exact node.nonneg.trans (le_of_lt later)
        pledged := by rw [Replicas.vote_pledge]
        saved := by
          rw [Replicas.vote_pledge]
          exact fun record found => le_of_eq (saved record found).symm
        threads := by
          rw [Replicas.vote_pledge]
          intro born member
          cases List.mem_append.mp member with
          | inl old => exact (node.threads born old).trans (le_of_lt later)
          | inr new => exact le_of_eq (List.eq_of_mem_replicate new)
        candidate := fun _ => by
          rw [Replicas.vote_pledge]
          refine ⟨lt_of_le_of_lt node.nonneg later, rfl, fun leads => ?_⟩
          have reached := node.led _ leads
          exact absurd later (not_lt_of_ge reached)
        leader := fun leading => absurd (candidate.symm.trans leading) (fun same => by cases same)
        led := by
          rw [Replicas.vote_pledge]
          exact fun T leads => (node.led T leads).trans (le_of_lt later)
        counted := fun T leads same => by
          rw [Replicas.vote_pledge] at same
          have reached := node.led T leads
          rw [← same] at reached
          exact absurd later (not_lt_of_ge reached)
        commit := by
          rw [show Raft.commitIndex _ = _ from still.commit]
          exact (Replicas.vote_extends (le_of_lt later)).committedAt rfl node.commit }
    · intro T begun runs
      rw [ran.process] at runs
      have same : s.curTerm = T := runs.2
      omega
    · intro T j given
      obtain ⟨T', canvass⟩ := elected.canvass i
      have names : (s.curTerm, s.id) = (T, (j.val : Int)) := Option.some.inj given
      obtain ⟨rfl, self⟩ := Prod.mk.inj names
      have same : j = i := by
        rw [Raft.id, peerId, canvass.peer] at self
        exact Fin.ext (by omega)
      rw [same]
      refine ⟨le_of_eq Replicas.vote_pledge.symm, ?_⟩
      exact r.consistent.vote_backs (le_of_lt later) (r.consistent.formed i) (.inr ⟨rfl, le_refl _⟩)

theorem Replicated.requestVote (r : Replicated c A) {src : Fin n} {args : RequestVoteArgs}
    (named : args.candidateId = src.val) (sound : c.Sound A (.voteRequest src i args))
    (ran : c.Ran i (.requestVote args) q o d) :
    ∃ B, Moved c d A B i ∧ ∀ T j, supportOf (.requestVote args) o q.raft =
      some (T, ((j : Fin n).val : Int)) → T ≤ B.pledge j ∧
        ((d.node j).process.Runs T → B.Backs T (B.log j) i) := by
  have node := r.node i
  have section_ := ran.section_
  cases Process.ran_of_step section_ with
  | requestVote =>
    have still := Raft.requestVote_still (c.node i).process.raft args
    by_cases granted : ((c.node i).process.raft.requestVote args).2.voteGranted
    · obtain ⟨old, term, upToDate⟩ := Raft.requestVote_grants granted
      have later : A.pledge i ≤ args.term := node.pledged.trans old
      have ballot := Raft.requestVote_ballot (c.node i).process.raft args
      have after := (node.still (q := { (c.node i).process with
          raft := ((c.node i).process.raft.requestVote args).1 }) still
        (later.trans (le_of_eq term.symm)) (ballot.saved_from node.pledged node.saved)
        (List.Subset.refl _) (Raft.requestVote_aside _ args).state)
      have saved : ∀ record, ((c.node i).process.raft.requestVote args).1.file.saved = some record →
          args.term ≤ record.curTerm := by
        rw [if_pos granted] at ballot
        generalize given : some (args.term, args.candidateId) = support at ballot
        cases ballot with
        | voted _ _ _ _ file =>
          obtain ⟨p, written, same, -⟩ := file
          intro record found
          rw [written] at found
          cases found
          exact le_of_eq (same.trans term).symm
        | _ => cases given
      have voted := after.vote later term saved
      have moved := vote_moved r ran later (unpromoted section_ nofun) voted
        fun t _ => ran.runs trivial nofun node voted
      refine ⟨A.vote i args.term, moved, fun T j given => ?_⟩
      have names : (args.term, args.candidateId) = (T, (j.val : Int)) := by
        rw [supportOf, if_pos granted] at given
        exact Option.some.inj given
      obtain ⟨rfl, self⟩ := Prod.mk.inj names
      have same : j = src := Fin.ext (by omega)
      rw [same]
      obtain ⟨begun, asks⟩ := sound
      refine ⟨begun.trans (moved.ext.pledge src), fun runs => ?_⟩
      obtain ⟨before, -⟩ := moved.runs_all ran begun runs
      obtain ⟨lastTerm, lastIndex⟩ := asks before
      rw [lastTerm, lastIndex, node.whole.lastTerm, node.whole.lastIndex, ← node.log] at upToDate
      refine r.consistent.vote_backs later (r.consistent.formed src) ?_
      exact upToDate.imp id fun same => ⟨same.1, Int.ofNat_le.mp same.2⟩
    · refine ⟨A, r.aside ran trivial id still, fun T j given => ?_⟩
      rw [supportOf, if_neg granted] at given
      cases given

theorem Replicated.electionWake (r : Replicated c A) (elected : Elected c) (elected' : Elected d)
    (ran : c.Ran i .electionWake q o d) : ∃ B, Moved c d A B i := by
  have node := r.node i
  have section_ := ran.section_
  obtain ⟨T, canvass⟩ := elected.canvass i
  cases Process.ran_of_step section_ with
  | @electionWake s waits run =>
    rcases Raft.electionWake_cases run with rfl | ⟨candidate, leader, log, term, file, commit, zero⟩
    · refine ⟨A, r.stay ran trivial nofun ?_ ?_⟩
      · rw [if_neg fun won => won.2 won.1]
        rfl
      · exact node.still (.refl _) node.pledged node.saved (List.Subset.refl _) (.inr ⟨rfl, rfl⟩)
    · have won : s.state = .LEADER ∧ (c.node i).process.raft.state ≠ .LEADER :=
        ⟨leader, by rw [candidate]; exact nofun⟩
      rw [if_pos won] at ran section_
      obtain ⟨positive, pledge, unled⟩ := node.candidate candidate
      obtain ⟨voters, majority, supports⟩ := majority_of_promotion canvass section_
      have promoted : d.promoted = (s.curTerm, i) :: c.promoted := ran.promoted
      have current : A.pledge i = s.curTerm := pledge.trans term.symm
      have wins : A.Wins i s.curTerm := {
        unled := fun led => by
          obtain ⟨j, before⟩ := (r.led _).mp led
          have mine : (s.curTerm, i) ∈ d.promoted := by
            rw [promoted]
            exact List.mem_cons_self
          have same := elected'.unique mine (ran.promoted_mono before)
          rw [← same, term] at before
          exact unled before
        positive := by
          rw [term]
          exact positive
        pledge := current
        voters := ⟨voters, majority, fun w member =>
          (r.backed _ i w (supports w member)).2 ⟨candidate, term.symm⟩⟩ }
      have ext := Replicas.lead_extends r.consistent wins
      have after : Follows (fun T => (T, i) ∈ d.promoted) (A.lead i s.curTerm) i
          { (c.node i).process with raft := s, electing := false } := {
        log := node.log.trans log.logs.symm
        whole := log.whole node.whole
        nonneg := node.nonneg
        pledged := le_of_eq current
        saved := by
          rw [show Raft.file _ = _ from file]
          exact node.saved
        threads := node.threads
        candidate := fun running => absurd (leader.symm.trans running) nofun
        leader := fun _ => by
          rw [promoted]
          exact List.mem_cons_self
        led := fun T leads => by
          rw [promoted] at leads
          cases List.mem_cons.mp leads with
          | inl new =>
            cases new
            exact le_of_eq current.symm
          | inr old => exact node.led T old
        counted := fun T leads same => by
          have same : A.pledge i = T := same
          rw [← same, current]
          refine ⟨(Replicas.lead_owned (A := A) (v := i) (T := s.curTerm)).symm, ?_, fun v => ?_⟩
          · rw [Replicas.lead_owned]
            exact Replicas.acknowledge_self
          · rw [show Raft.matchIndex _ v = _ from zero v]
            exact Int.natCast_nonneg _
        commit := by
          rw [show Raft.commitIndex _ = _ from commit]
          exact ext.committedAt rfl node.commit }
      refine ⟨A.lead i s.curTerm, {
        ext := ext
        only := Replicas.lead_onlyAt
        consistent := r.consistent.lead wins
        led := fun T => ?_
        node := by
          rw [ran.process]
          exact after
        owned := fun j T apart before => ?_
        clean := fun T e member => ?_
        runs := fun t _ => ran.runs trivial nofun node after }⟩
      · rw [promoted]
        constructor
        · intro led
          cases led with
          | inl new => exact ⟨i, by rw [new]; exact List.mem_cons_self⟩
          | inr old =>
            obtain ⟨j, before⟩ := (r.led T).mp old
            exact ⟨j, List.mem_cons_of_mem _ before⟩
        · rintro ⟨j, leads⟩
          cases List.mem_cons.mp leads with
          | inl new =>
            cases new
            exact .inl rfl
          | inr old => exact .inr ((r.led T).mpr ⟨j, old⟩)
      · exact Replicas.lead_owned_of_ne (wins.apart ((r.led T).mpr ⟨j, before⟩))
      · by_cases same : T = s.curTerm
        · rw [same, Replicas.lead_owned] at member
          exact r.clean_log member
        · rw [Replicas.lead_owned_of_ne same] at member
          exact r.clean T e member

/-! ### Log replication -/

theorem Replicated.start (r : Replicated c A) (elected : Elected c) {command : Str}
    (faithful : Action.Faithful (c.node i).process.raft (.start command))
    (ran : c.Ran i (.start command) q o d) : ∃ B, Moved c d A B i := by
  have node := r.node i
  have section_ := ran.section_
  cases Process.ran_of_step section_ with
  | start =>
    by_cases leader : (c.node i).process.raft.state = .LEADER
    · have promoted := node.leader leader
      generalize own : (c.node i).process.raft.curTerm = T at promoted
      have pledged := node.pledged
      have reached := node.led T promoted
      have current : A.pledge i = T := by omega
      have led := (r.led T).mpr ⟨i, promoted⟩
      obtain ⟨log, all, matched⟩ := node.counted T promoted current
      have leads : A.Leads i T := ⟨led, current, log⟩
      have same : ((c.node i).process.raft.start command).1 =
          (c.node i).process.raft.pushBackLog ⟨command, T⟩ := by
        rw [Raft.start, if_neg (not_not_intro leader), own]
      rw [same] at ran section_
      have unchanged : d.promoted = c.promoted := ran.promoted
      have ext := Replicas.append_extends (e := ⟨command, T⟩) r.consistent leads
      have c' := r.consistent.append (e := ⟨command, T⟩) leads rfl
      have after : Follows (fun T => (T, i) ∈ c.promoted) (A.append i T ⟨command, T⟩) i
          { (c.node i).process with raft := (c.node i).process.raft.pushBackLog ⟨command, T⟩ } := {
        log := by
          rw [Replicas.append_log, node.log]
          rfl
        whole := ⟨node.whole.index, node.whole.term⟩
        nonneg := node.nonneg
        pledged := node.pledged
        saved := node.saved
        threads := node.threads
        candidate := fun running => absurd (leader.symm.trans running) (fun same => by cases same)
        leader := node.leader
        led := node.led
        counted := fun T' leads' same => by
          have same : A.pledge i = T' := same
          rw [← same, current]
          refine ⟨?_, ?_, fun v => ?_⟩
          · rw [Replicas.append_log, Replicas.append_owned, log]
          · rw [Replicas.append_owned, List.length_append]
            exact Replicas.acknowledge_self
          · exact (matched v).trans (Int.ofNat_le.mpr (ext.acked T v))
        commit := by
          refine c'.committedAt led current ?_ (ext.committed (le_of_eq current) node.commit.committed)
          rw [Replicas.append_log, Replicas.append_owned, log] }
      refine ⟨A.append i T ⟨command, T⟩, {
        ext := ext
        only := Replicas.append_onlyAt
        consistent := c'
        led := by
          rw [unchanged]
          exact r.led
        node := by
          rw [unchanged, ran.process]
          exact after
        owned := fun j T' apart before => ?_
        clean := fun T' e member => ?_
        runs := fun t _ => ran.runs trivial (fun same => by cases same) node after }⟩
      · refine Replicas.append_owned_of_ne ?_
        rintro rfl
        exact apart (elected.unique before promoted)
      · by_cases mine : T' = T
        · rw [mine, Replicas.append_owned] at member
          cases List.mem_append.mp member with
          | inl old => exact r.clean T e old
          | inr new =>
            rw [List.mem_singleton.mp new]
            exact faithful leader
        · rw [Replicas.append_owned_of_ne mine] at member
          exact r.clean T' e member
    · have same : ((c.node i).process.raft.start command).1 = (c.node i).process.raft := by
        rw [Raft.start, if_pos leader]
      refine ⟨A, r.aside ran trivial id ?_⟩
      rw [same]
      exact .refl _

theorem Replicated.appendEntries (r : Replicated c A) (elected : Elected c) {src : Fin n}
    {args : AppendEntriesArgs} {p m : Nat} (sent : c.Sent A src i args p m)
    (faithful : Action.Faithful (c.node i).process.raft (.appendEntries args))
    (ran : c.Ran i (.appendEntries args) q o d) :
    ∃ B, Moved c d A B i ∧ ∀ reply, o = .appendAnswer reply → reply.success →
      ∀ entries, getCmdAndTerm args.sendLogs = some entries →
        args.prevLogIndex + entries.length ≤ B.acked args.term i := by
  have node := r.node i
  have section_ := ran.section_
  cases Process.ran_of_step section_ with
  | @appendEntries s _ reply run =>
    rcases Raft.appendEntries_cases run with ⟨still, refused⟩ | ⟨recvLog, takes, taken⟩
    · refine ⟨A, r.aside ran trivial id still, ?_⟩
      rintro reply' same success
      cases same
      rw [refused] at success
      cases success
    · obtain ⟨p', prev, inside, prevTerm, after⟩ := takes.overwritten node.whole
      have samePlace : p' = p := by
        have same := sent.prev
        omega
      rw [samePlace, ← node.log] at inside prevTerm
      rw [samePlace, ← taken] at after
      have le := sent.le
      have within := sent.within
      have led := (r.led _).mpr ⟨src, sent.promoted⟩
      have read : recvLog = ((A.owned args.term).take m).drop p := by
        have written := takes.read
        rw [sent.logs, getCmdAndTerm_sendLogsOf] at written
        · exact (Option.some.inj written).symm
        · exact fun e member => r.clean _ e (List.mem_of_mem_take (List.mem_of_mem_drop member))
      have length : recvLog.length = m - p := by
        rw [read, List.length_drop, List.length_take, min_eq_left within]
      have agree : (A.log i).take p = (A.owned args.term).take p := by
        refine ((r.consistent.formed i).take p).eq_of_last
          ((r.consistent.ownedFormed _ led).take p) ?_ (prevTerm.symm.trans sent.prevTerm)
        rw [List.length_take, List.length_take]
        omega
      have logs : s.logs = (A.owned args.term).take m := by
        rw [after.logs, ← node.log, agree, read]
        have front : (A.owned args.term).take p = ((A.owned args.term).take m).take p := by
          rw [List.take_take, min_eq_left le]
        rw [front, List.take_append_drop]
      have later : A.pledge i ≤ args.term := by
        have pledged := node.pledged
        have current := takes.current
        omega
      have accepts : A.Accepts LogEntry.term i args.term m := {
        led := led
        pledge := later
        long := sent.long
        within := within
        uncut := fun last => by
          rw [node.log, ← node.whole.lastTerm] at last
          have reaches := faithful recvLog takes.read takes.current takes.passes last
          rw [node.whole.lastIndex, ← node.log, sent.prev, length] at reaches
          omega }
      have ext := Replicas.accept_extends accepts
      have c' := r.consistent.accept accepts
      have unchanged : d.promoted = c.promoted := ran.promoted
      have follows : Follows (fun T => (T, i) ∈ c.promoted) (A.accept i args.term m) i
          { (c.node i).process with raft := s } := {
        log := Replicas.accept_log.trans logs.symm
        whole := after.whole
        nonneg := node.nonneg.trans (ext.pledge i)
        pledged := by
          rw [Replicas.accept_pledge]
          exact le_of_eq after.term.symm
        saved := by
          rw [Replicas.accept_pledge]
          exact fun record found => le_of_eq (after.saved record found).symm
        threads := fun born member => (node.threads born member).trans (ext.pledge i)
        candidate := fun running => absurd (after.state.symm.trans running) nofun
        leader := fun leading => absurd (after.state.symm.trans leading) nofun
        led := fun T leads => (node.led T leads).trans (ext.pledge i)
        counted := fun T leads same => by
          rw [Replicas.accept_pledge] at same
          rw [← same] at leads
          exact absurd (elected.unique leads sent.promoted) sent.apart
        commit := by
          refine c'.committedAt led Replicas.accept_pledge ?_ ?_
          · rw [Replicas.accept_log]
            exact List.take_prefix _ _
          · cases after.commit with
            | inl same =>
              rw [show Raft.commitIndex _ = _ from same]
              exact ext.committed later node.commit.committed
            | inr leader =>
              refine (ext.committed (le_refl _) sent.commit).fewer ?_
              exact Int.toNat_le_toNat leader }
      refine ⟨A.accept i args.term m, {
        ext := ext
        only := Replicas.accept_onlyAt
        consistent := c'
        led := by
          rw [unchanged]
          exact r.led
        node := by
          rw [unchanged, ran.process]
          exact follows
        owned := fun _ _ _ _ => rfl
        clean := r.clean
        runs := fun t _ => ran.runs trivial nofun node follows }, ?_⟩
      rintro reply' - - entries parsed
      rw [takes.read] at parsed
      cases parsed
      have acked : (A.accept i args.term m).acked args.term i = max (A.acked args.term i) m :=
        Replicas.acknowledge_self
      rw [acked, sent.prev, length]
      omega

theorem Replicated.appendReply (r : Replicated c A) (elected : Elected c) (odd : n % 2 = 1)
    {peer : Fin n} {args : AppendEntriesArgs} {reply : AppendEntriesReply}
    (sound : c.Sound A (.appendAnswer i peer args reply))
    (ran : c.Ran i (.appendReply peer args reply) q o d) : Moved c d A A i := by
  have node := r.node i
  have section_ := ran.section_
  cases Process.ran_of_step section_ with
  | @appendReply s _ _ _ call run =>
    rcases Raft.appendReply_cases node.whole run with still | ⟨success, sent, counts⟩
    · exact r.aside ran trivial id still
    · obtain ⟨promoted, accepted⟩ := sound
      have pledged := node.pledged
      have reached := node.led _ promoted
      have own := counts.current
      have current : A.pledge i = args.term := by omega
      have led := (r.led _).mpr ⟨i, promoted⟩
      obtain ⟨log, all, matched⟩ := node.counted _ promoted current
      have peerId : (c.node i).process.raft.peerId = i := by
        obtain ⟨T, canvass⟩ := elected.canvass i
        exact canvass.peer
      have matched' : ∀ v, s.matchIndex v ≤ A.acked args.term v := by
        intro v
        rw [counts.matched, peerId]
        by_cases self : v = i
        · rw [self, Function.update_self, node.whole.lastIndex, ← node.log, log, all]
        · rw [Function.update_of_ne self]
          by_cases asked : v = peer
          · rw [asked, Function.update_self]
            exact accepted success sent counts.read
          · rw [Function.update_of_ne asked]
            exact matched v
      have ballot := Raft.appendReply_ballot run
      refine r.stay ran trivial nofun rfl (node.sameLog counts.log
        (node.pledged.trans ballot.term) (ballot.saved_from node.pledged node.saved)
        (List.Subset.refl _) (Raft.appendReply_aside run).state ?_ ?_)
      · intro T _ same
        rw [← same, current]
        exact matched'
      · rcases counts.commit with same | none | ⟨k, e, index, median, inLog, termE⟩
        · rw [show Raft.commitIndex _ = _ from same]
          exact node.commit
        · exact .inl (Int.toNat_eq_zero.mpr none)
        · rw [← node.log, log] at inLog
          have filled : A.Own args.term k := by
            refine ⟨led, ?_, (List.getElem?_eq_some_iff.mp inLog).1⟩
            by_contra below
            have older := r.consistent.inherited _ k e led inLog (by omega)
            omega
          obtain ⟨voters, majority, enough⟩ := Majority.median odd s.matchIndex
          have chosen : A.Chosen args.term k := by
            refine ⟨filled, voters, majority, fun v member => ?_⟩
            have least : s.realMajorityMatchIndex ≤ s.matchIndex v := enough v member
            have most := matched' v
            omega
          rw [show Raft.commitIndex _ = _ from index]
          refine r.consistent.committedAt led current (by rw [log])
            (.inr ⟨args.term, k, chosen, le_refl _, ?_⟩)
          omega

end Cluster

end ProjectsCpp.KvRaft
