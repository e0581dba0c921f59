import ProjectsCpp.KvRaft.Compaction
import ProjectsCpp.KvRaft.Canvass
import ProjectsCpp.Lib.Handout

/-! The heartbeat rounds of a leader. Each round of `processEntriesLoop` marks the peers that
are behind its snapshot and starts one thread for every peer; the threads find their peers by
the shared flags and `isExistIndex`. A round that starts while threads of an earlier one still
wait may mark a peer that one of them was to send entries to, and leaves it without a peer. -/

namespace ProjectsCpp.KvRaft
open ProjectsCpp.Text ProjectsCpp.Run ProjectsCpp.Handout

variable {n : Nat}

namespace Raft
variable {r s : Raft n}

/-! ### What the sender threads share -/

/-- The other peers, in the order of `m_peers`. -/
def others (i : Fin n) : List (Fin n) := (List.finRange n).filter fun p => decide (p ≠ i)

/-- The test of `processEntriesLoop` for a snapshot. -/
def behind (r : Raft n) (p : Fin n) : Bool :=
  decide (p ≠ r.peerId ∧ r.nextIndex p ≤ r.lastIncludedIndex)

local instance peers_lawful : LawfulBEq (Fin n) := inferInstance

def waiting (r : Raft n) (install : Bool) : List (Fin n) :=
  (others r.peerId).filter fun p => decide (r.isInstallFlag p = install ∧ p ∉ r.isExistIndex)

theorem mem_others {i p : Fin n} : p ∈ others i ↔ p ≠ i := by
  rw [others, List.mem_filter, decide_eq_true_eq]
  exact ⟨fun both => both.2, fun apart => ⟨List.mem_finRange p, apart⟩⟩

theorem others_nodup (i : Fin n) : (others i).Nodup := (List.nodup_finRange n).filter _

theorem others_length (i : Fin n) : (others i).length = n - 1 := by
  have erased : others i = (List.finRange n).erase i := by
    rw [(List.nodup_finRange n).erase_eq_filter, others]
    refine List.filter_congr fun p _ => ?_
    by_cases same : p = i <;> simp [same]
  rw [erased, List.length_erase_of_mem (List.mem_finRange i), List.length_finRange]

theorem countP_others (r : Raft n) :
    (others r.peerId).countP r.behind = (List.finRange n).countP r.behind := by
  rw [others, List.countP_filter]
  refine List.countP_congr fun p _ => ?_
  simp only [behind, Bool.and_eq_true, decide_eq_true_eq]
  exact ⟨fun both => both.1, fun late => ⟨late, late.1⟩⟩

theorem takePeer_eq (r : Raft n) (install : Bool) :
    r.takePeer install = (r.waiting install).head?.map fun p =>
      (p, if (p :: r.isExistIndex).length = n - 1 then
        { r with isInstallFlag := fun _ => false, isExistIndex := [] }
      else { r with isExistIndex := p :: r.isExistIndex }) := by
  have found : (r.waiting install).head? = (List.finRange n).find? fun p =>
      decide (p ≠ r.peerId ∧ r.isInstallFlag p = install ∧ p ∉ r.isExistIndex) := by
    rw [waiting, others, List.filter_filter, List.head?_filter]
    congr 1
    funext p
    rw [← Bool.decide_and]
    exact decide_eq_decide.mpr and_comm
  rw [found]
  rfl

/-- The flags, the set and the own id stay as they are. -/
structure SameFlags (r s : Raft n) : Prop where
  marks : s.isInstallFlag = r.isInstallFlag
  taken : s.isExistIndex = r.isExistIndex
  peer : s.peerId = r.peerId

structure SameSends (r s : Raft n) : Prop where
  flags : SameFlags r s
  next : s.nextIndex = r.nextIndex

theorem SameFlags.refl (r : Raft n) : SameFlags r r := ⟨rfl, rfl, rfl⟩

theorem SameSends.refl (r : Raft n) : SameSends r r := ⟨.refl r, rfl⟩

theorem electionStart_sends (run : r.electionStart = some s) : SameSends r s := by
  rw [electionStart] at run
  split at run <;> cases run
  exact ⟨⟨rfl, rfl, rfl⟩, rfl⟩

theorem electionWake_flags (run : r.electionWake = some s) : SameFlags r s := by
  rw [electionWake] at run
  split at run
  · cases run
  · split at run
    · cases run
      exact .refl r
    · split at run <;> cases run <;> exact ⟨rfl, rfl, rfl⟩

theorem callRequestVote_sends {peer : Fin n} {args : RequestVoteArgs}
    (run : r.callRequestVote = some (s, peer, args)) : SameSends r s := by
  simp only [callRequestVote] at run
  split at run <;> cases run
  exact ⟨⟨rfl, rfl, rfl⟩, rfl⟩

theorem requestVote_sends (r : Raft n) (args : RequestVoteArgs) :
    SameSends r (r.requestVote args).1 := by
  rw [requestVote]
  split
  · exact .refl r
  · simp only [stepDown]
    split <;> split <;>
      first | exact ⟨⟨rfl, rfl, rfl⟩, rfl⟩ | (split <;> exact ⟨⟨rfl, rfl, rfl⟩, rfl⟩)

theorem voteReply_sends {reply : RequestVoteReply} (run : r.voteReply reply = some s) :
    SameSends r s := by
  simp only [voteReply] at run
  split at run
  · rw [readRaftState] at run
    split at run
    · cases run
      exact ⟨⟨rfl, rfl, rfl⟩, rfl⟩
    · obtain ⟨p, -, rfl⟩ := Option.map_eq_some_iff.mp run
      exact ⟨⟨rfl, rfl, rfl⟩, rfl⟩
  · split at run <;> cases run <;> exact ⟨⟨rfl, rfl, rfl⟩, rfl⟩

theorem enterTerm_sends (r : Raft n) (term : Int) : SameSends r (r.enterTerm term) := by
  simp only [enterTerm]
  split <;> exact ⟨⟨rfl, rfl, rfl⟩, rfl⟩

theorem overwriteLog_sends (r : Raft n) (args : AppendEntriesArgs) (recvLog : List LogEntry) :
    SameSends r (r.overwriteLog args recvLog) := by
  simp only [overwriteLog]
  split <;> exact ⟨⟨rfl, rfl, rfl⟩, rfl⟩

theorem SameSends.trans {t : Raft n} (first : SameSends r s) (second : SameSends s t) :
    SameSends r t :=
  ⟨⟨second.flags.marks.trans first.flags.marks, second.flags.taken.trans first.flags.taken,
    second.flags.peer.trans first.flags.peer⟩, second.next.trans first.next⟩

theorem appendEntries_sends {args : AppendEntriesArgs} {reply : AppendEntriesReply}
    (run : r.appendEntries args = some (s, reply)) : SameSends r s := by
  rw [appendEntries] at run
  split at run
  · cases run
  · rename_i recvLog _
    split at run
    · cases run
      exact .refl r
    · obtain ⟨answer, -, done⟩ := Option.map_eq_some_iff.mp run
      have entered := enterTerm_sends r args.term
      cases answer with
      | some refused =>
        cases done
        exact entered
      | none =>
        cases done
        exact entered.trans (overwriteLog_sends _ args recvLog)

theorem installSnapShot_sends {args : InstallSnapShotArgs} {reply : InstallSnapSHotReply}
    {push : Bool} (run : r.installSnapShot args = some (s, reply, push)) : SameSends r s := by
  simp only [installSnapShot] at run
  split at run
  · cases run
    exact .refl r
  · have entered := enterTerm_sends r args.term
    split at run
    · cases run
      exact entered
    · obtain ⟨logs, -, done⟩ := Option.map_eq_some_iff.mp run
      cases done
      exact entered.trans ⟨⟨rfl, rfl, rfl⟩, rfl⟩

theorem installSnapShotTokvServer_sends (r : Raft n) :
    SameSends r r.installSnapShotTokvServer.1 := by
  rw [installSnapShotTokvServer, readSnapShot]
  cases r.snapFile <;> exact ⟨⟨rfl, rfl, rfl⟩, rfl⟩

theorem start_sends (r : Raft n) (command : Str) : SameSends r (r.start command).1 := by
  rw [start]
  split <;> exact ⟨⟨rfl, rfl, rfl⟩, rfl⟩

theorem applyLog_sends {msgs : List ApplyMsg} (run : r.applyLog = some (s, msgs)) :
    SameSends r s := by
  rw [collectMsgs_applied run]
  exact ⟨⟨rfl, rfl, rfl⟩, rfl⟩

theorem recvSnapShot_sends {snapShot : Str} {index : Int}
    (run : r.recvSnapShot snapShot index = some s) : SameSends r s := by
  rw [recvSnapShot] at run
  split at run
  · cases run
    exact ⟨⟨rfl, rfl, rfl⟩, rfl⟩
  · obtain ⟨e, -, rfl⟩ := Option.map_eq_some_iff.mp run
    exact ⟨⟨rfl, rfl, rfl⟩, rfl⟩

theorem sendAppendEntries_taken {peer : Fin n} {args : AppendEntriesArgs}
    (run : r.sendAppendEntries = some (s, peer, args)) : r.takePeer false = some (peer, s) := by
  rw [sendAppendEntries] at run
  split at run
  · cases run
  · rename_i taken
    obtain ⟨term, -, done⟩ := Option.map_eq_some_iff.mp run
    cases done
    exact taken

theorem sendInstallSnapShot_taken {peer : Fin n} {args : InstallSnapShotArgs}
    (run : r.sendInstallSnapShot = some (s, peer, args)) :
    ∃ t, r.takePeer true = some (peer, t) ∧ SameSends t s := by
  obtain ⟨⟨found, t⟩, taken, done⟩ := Option.map_eq_some_iff.mp run
  cases done
  refine ⟨t, taken, ?_⟩
  rw [readSnapShot]
  cases t.snapFile <;> exact ⟨⟨rfl, rfl, rfl⟩, rfl⟩

theorem Answered.flags {term : Int} (answered : Answered r term s) : SameFlags r s := by
  cases answered <;> exact ⟨rfl, rfl, rfl⟩

end Raft

open Raft

namespace Process
variable {p q : Process n} {a : Action n} {o : Output n}

def ledger (p : Process n) (rounds : List (Fin n → Bool)) (contacts : List (Fin n × Bool)) :
    Ledger (Fin n) :=
  { marked := p.raft.isInstallFlag
    taken := p.raft.isExistIndex
    plain := p.appendThreads
    special := p.installThreads
    rounds := rounds
    handed := contacts }

def roundOf (p : Process n) : Action n → List (Fin n → Bool)
  | .processEntries => [p.raft.behind]
  | _ => []

def contacted : Output n → List (Fin n × Bool)
  | .appendRequest peer _ => [(peer, false)]
  | .installRequest peer _ => [(peer, true)]
  | _ => []

/-- A round starts when every thread of the rounds before has its peer, or when no peer gets a
snapshot, neither in this round nor from a thread that waits. -/
def RoundsApart (p : Process n) : Action n → Prop
  | .processEntries => (p.appendThreads = 0 ∧ p.installThreads = 0) ∨
      (p.installThreads = 0 ∧ ∀ peer, p.raft.behind peer = false)
  | _ => True

instance (p : Process n) (a : Action n) : Decidable (p.RoundsApart a) := by
  rcases a <;> (unfold RoundsApart; infer_instance)

variable {rounds : List (Fin n → Bool)} {contacts : List (Fin n × Bool)}

def RoundsKept (p : Process n) (rounds : List (Fin n → Bool)) (contacts : List (Fin n × Bool)) :
    Prop :=
  (p.ledger rounds contacts).Kept (others p.raft.peerId)

theorem RoundsKept.quiet (kept : p.RoundsKept rounds contacts) (same : SameFlags p.raft q.raft)
    (appends : q.appendThreads = p.appendThreads) (installs : q.installThreads = p.installThreads) :
    q.RoundsKept (rounds ++ []) (contacts ++ []) := by
  rw [RoundsKept, List.append_nil, List.append_nil, ledger, same.marks, same.taken, appends,
    installs, same.peer]
  exact kept

theorem ledger_of_round {r : Raft n} {appends installs : Nat}
    (run : p.raft.processEntries = some (r, appends, installs)) (rounds : List (Fin n → Bool))
    (contacts : List (Fin n × Bool)) :
    r.peerId = p.raft.peerId ∧
      ledger { p with
        raft := r
        appendThreads := p.appendThreads + appends
        installThreads := p.installThreads + installs } (rounds ++ [p.raft.behind]) contacts =
      (p.ledger rounds contacts).round (others p.raft.peerId) p.raft.behind := by
  rw [Raft.processEntries] at run
  split at run
  · cases run
  · cases run
    rw [Ledger.round, countP_others, others_length]
    exact ⟨rfl, rfl⟩

theorem RoundsKept.round {r : Raft n} {appends installs : Nat}
    (kept : p.RoundsKept rounds contacts) (apart : p.RoundsApart .processEntries)
    (run : p.raft.processEntries = some (r, appends, installs)) :
    RoundsKept { p with
      raft := r
      appendThreads := p.appendThreads + appends
      installThreads := p.installThreads + installs } (rounds ++ [p.raft.behind]) (contacts ++ []) := by
  obtain ⟨peer, started⟩ := ledger_of_round run rounds contacts
  rw [RoundsKept, List.append_nil, started, peer]
  exact Ledger.Kept.round (others_nodup _) kept
    (apart.imp_right fun quiet => ⟨quiet.1, fun peer _ => quiet.2 peer⟩)

theorem ledger_of_taken {s : Raft n} {peer : Fin n} {install : Bool}
    (taken : p.raft.takePeer install = some (peer, s)) (same : SameFlags s q.raft)
    (appends : q.appendThreads = if install then p.appendThreads else p.appendThreads - 1)
    (installs : q.installThreads = if install then p.installThreads - 1 else p.installThreads)
    (rounds : List (Fin n → Bool)) (contacts : List (Fin n × Bool)) :
    q.raft.peerId = p.raft.peerId ∧ (p.raft.waiting install).head? = some peer ∧
      q.ledger rounds (contacts ++ [(peer, install)]) =
        (p.ledger rounds contacts).hand (others p.raft.peerId) peer install := by
  rw [takePeer_eq] at taken
  obtain ⟨found, first, done⟩ := Option.map_eq_some_iff.mp taken
  obtain ⟨rfl, after⟩ := Prod.mk.inj done
  have length := others_length p.raft.peerId
  rw [ledger, same.marks, same.taken, same.peer, appends, installs]
  by_cases full : (found :: p.raft.isExistIndex).length = n - 1
  · rw [if_pos full] at after
    rw [Ledger.hand_of_last (full.trans length.symm), ← after]
    exact ⟨rfl, first, rfl⟩
  · rw [if_neg full] at after
    rw [Ledger.hand_of_more fun whole => full (whole.trans length), ← after]
    exact ⟨rfl, first, rfl⟩

theorem RoundsKept.hand {s : Raft n} {peer : Fin n} {install : Bool}
    (kept : p.RoundsKept rounds contacts) (thread : (p.ledger rounds contacts).threads install ≠ 0)
    (taken : p.raft.takePeer install = some (peer, s)) (same : SameFlags s q.raft)
    (appends : q.appendThreads = if install then p.appendThreads else p.appendThreads - 1)
    (installs : q.installThreads = if install then p.installThreads - 1 else p.installThreads) :
    q.RoundsKept (rounds ++ []) (contacts ++ [(peer, install)]) := by
  obtain ⟨own, first, handed⟩ := ledger_of_taken taken same appends installs rounds contacts
  rw [RoundsKept, List.append_nil, handed, own]
  exact Ledger.Kept.hand (others_nodup _) kept thread first

theorem RoundsKept.step (kept : p.RoundsKept rounds contacts) (apart : p.RoundsApart a)
    (next : p.step a = some (q, o)) :
    q.RoundsKept (rounds ++ p.roundOf a) (contacts ++ contacted o) := by
  cases ran_of_step next with
  | electionStart idle run => exact kept.quiet (electionStart_sends run).flags rfl rfl
  | electionWake waits run =>
    have same := electionWake_flags run
    split <;> exact kept.quiet same rfl rfl
  | callRequestVote thread run => exact kept.quiet (callRequestVote_sends run).flags rfl rfl
  | requestVote => exact kept.quiet (requestVote_sends _ _).flags rfl rfl
  | voteReply call run => exact kept.quiet (voteReply_sends run).flags rfl rfl
  | processEntries run => exact kept.round apart run
  | sendAppendEntries thread run =>
    exact kept.hand thread (sendAppendEntries_taken run) (.refl _) rfl rfl
  | appendEntries run => exact kept.quiet (appendEntries_sends run).flags rfl rfl
  | appendReply call run => exact kept.quiet (appendReply_answered run).flags rfl rfl
  | sendInstallSnapShot thread run =>
    obtain ⟨t, taken, same⟩ := sendInstallSnapShot_taken run
    exact kept.hand thread taken same.flags rfl rfl
  | installSnapShot run => exact kept.quiet (installSnapShot_sends run).flags rfl rfl
  | installReply call run => exact kept.quiet (installReply_answered run).flags rfl rfl
  | installSnapShotTokvServer waits =>
    exact kept.quiet (installSnapShotTokvServer_sends _).flags rfl rfl
  | start => exact kept.quiet (start_sends _ _).flags rfl rfl
  | applyLog run => exact kept.quiet (applyLog_sends run).flags rfl rfl
  | recvSnapShot run => exact kept.quiet (recvSnapShot_sends run).flags rfl rfl

theorem step_peer (next : p.step a = some (q, o)) : q.raft.peerId = p.raft.peerId := by
  by_cases electing : a.Electing
  · cases ran_of_step next with
    | electionStart idle run => exact (electionStart_sends run).flags.peer
    | electionWake waits run => exact (electionWake_flags run).peer
    | callRequestVote thread run => exact (callRequestVote_sends run).flags.peer
    | voteReply call run => exact (voteReply_sends run).flags.peer
    | _ => exact electing.elim
  · exact (step_aside electing next).1.peer

theorem RoundsKept.finds (kept : p.RoundsKept rounds contacts) (install : Bool)
    (thread : (p.ledger rounds contacts).threads install ≠ 0) :
    ∃ peer s, p.raft.takePeer install = some (peer, s) ∧ peer ≠ p.raft.peerId ∧
      p.raft.isInstallFlag peer = install := by
  obtain ⟨peer, first⟩ := Ledger.Kept.finds (others_nodup _) kept thread
  obtain ⟨other, mark, -⟩ := Ledger.mem_waiting.mp (List.mem_of_mem_head? first)
  rw [takePeer_eq, show (p.raft.waiting install).head? = some peer from first]
  exact ⟨peer, _, rfl, mem_others.mp other, mark⟩

end Process

/-! ### The rounds of one node in a cluster -/

/-- The section that node `i` runs in a step. -/
def ClusterStep.sectionOf (i : Fin n) (c : Cluster n) : ClusterStep n → Option (Action n)
  | .act j a => if j = i then some a else none
  | .deliver k => (c.net[k]?).bind fun p => if p.target = i then some p.action else none

theorem Cluster.step_section {i : Fin n} {c d : Cluster n} {e : ClusterStep n}
    (next : c.step e = some d) :
    (e.sectionOf i c = none ∧ d.node i = c.node i) ∨
      ∃ a q o, e.sectionOf i c = some a ∧ (c.node i).process.step a = some (q, o) ∧
        (d.node i).process = q := by
  rcases Cluster.step_cases next with ⟨j, a, q, o, rfl, -, ran, -⟩ | ⟨k, p, q, o, rfl, found, ran, -⟩
  · by_cases same : j = i
    · subst same
      exact .inr ⟨a, q, o, if_pos rfl, ran.section_, by rw [ran.self]⟩
    · exact .inl ⟨if_neg same, ran.other (Ne.symm same)⟩
  · by_cases same : p.target = i
    · subst same
      refine .inr ⟨p.action, q, o, ?_, ran.section_, by rw [ran.self]⟩
      rw [ClusterStep.sectionOf, found, Option.bind_some, if_pos rfl]
    · refine .inl ⟨?_, ran.other (Ne.symm same)⟩
      rw [ClusterStep.sectionOf, found, Option.bind_some, if_neg same]

def ClusterStep.RoundsApart (i : Fin n) (c : Cluster n) (e : ClusterStep n) : Prop :=
  ∀ a ∈ e.sectionOf i c, (c.node i).process.RoundsApart a

instance (i : Fin n) (c : Cluster n) (e : ClusterStep n) : Decidable (e.RoundsApart i c) := by
  unfold ClusterStep.RoundsApart
  infer_instance

/-- A cluster with the rounds of one node and the peers it has contacted, in order. -/
structure Watch (n : Nat) where
  cluster : Cluster n
  rounds : List (Fin n → Bool)
  contacts : List (Fin n × Bool)

namespace Watch
variable {i : Fin n} {w v : Watch n} {e : ClusterStep n} {atomic : Bool}

def node (w : Watch n) (i : Fin n) : Process n := (w.cluster.node i).process

def roundOf (w : Watch n) (i : Fin n) (e : ClusterStep n) : List (Fin n → Bool) :=
  (e.sectionOf i w.cluster).elim [] (w.node i).roundOf

def contactOf (w : Watch n) (i : Fin n) (e : ClusterStep n) : List (Fin n × Bool) :=
  ((e.sectionOf i w.cluster).bind (w.node i).step).elim [] fun s => Process.contacted s.2

def step (i : Fin n) (w : Watch n) (e : ClusterStep n) : Option (Watch n) :=
  (w.cluster.step e).map fun c =>
    { cluster := c
      rounds := w.rounds ++ w.roundOf i e
      contacts := w.contacts ++ w.contactOf i e }

def machine (atomic : Bool) (i : Fin n) : Machine (Watch n) (ClusterStep n) where
  start w := w = ⟨.boot atomic, [], []⟩
  step := step i

theorem reach_of_cluster {ok : Cluster n → ClusterStep n → Prop} {c : Cluster n}
    (reach : Reach (Cluster.machine n atomic) ok c) :
    ∃ w, Reach (machine atomic i) (fun w e => ok w.cluster e) w ∧ w.cluster = c := by
  induction reach with
  | start begin => exact ⟨⟨.boot atomic, [], []⟩, .start rfl, begin.symm⟩
  | @step c d e _ allowed next ih =>
    obtain ⟨w, before, rfl⟩ := ih
    have moved : w.step i e = some ⟨d, w.rounds ++ w.roundOf i e,
        w.contacts ++ w.contactOf i e⟩ := Option.map_eq_some_iff.mpr ⟨d, next, rfl⟩
    exact ⟨_, before.step allowed moved, rfl⟩

theorem step_node (next : w.step i e = some v) :
    (e.sectionOf i w.cluster = none ∧ v.node i = w.node i ∧ v.rounds = w.rounds ∧
        v.contacts = w.contacts) ∨
      ∃ a o, e.sectionOf i w.cluster = some a ∧ (w.node i).step a = some (v.node i, o) ∧
        v.rounds = w.rounds ++ (w.node i).roundOf a ∧
        v.contacts = w.contacts ++ Process.contacted o := by
  obtain ⟨d, moved, rfl⟩ := Option.map_eq_some_iff.mp next
  rcases Cluster.step_section (i := i) moved with ⟨idle, same⟩ | ⟨a, q, o, runs, ran, after⟩
  · refine .inl ⟨idle, congrArg Life.process same, ?_, ?_⟩
    · show w.rounds ++ w.roundOf i e = w.rounds
      rw [roundOf, idle]
      exact List.append_nil _
    · show w.contacts ++ w.contactOf i e = w.contacts
      rw [contactOf, idle]
      exact List.append_nil _
  · refine .inr ⟨a, o, runs, ?_, ?_, ?_⟩
    · show (w.node i).step a = some ((d.node i).process, o)
      rw [after]
      exact ran
    · show w.rounds ++ w.roundOf i e = _
      rw [roundOf, runs]
      rfl
    · show w.contacts ++ w.contactOf i e = _
      rw [contactOf, runs, Option.bind_some, show (w.node i).step a = some (q, o) from ran]
      rfl

theorem step_kept (kept : (w.node i).raft.peerId = i ∧ (w.node i).RoundsKept w.rounds w.contacts)
    (apart : e.RoundsApart i w.cluster) (next : w.step i e = some v) :
    (v.node i).raft.peerId = i ∧ (v.node i).RoundsKept v.rounds v.contacts := by
  rcases step_node next with ⟨-, node, rounds, contacts⟩ | ⟨a, o, runs, ran, rounds, contacts⟩
  · rw [node, rounds, contacts]
    exact kept
  · rw [rounds, contacts]
    exact ⟨(Process.step_peer ran).trans kept.1, kept.2.step (apart a runs) ran⟩

theorem kept_boot (i : Fin n) : (Process.boot atomic i).RoundsKept [] [] :=
  .inl ⟨0, rfl, by rw [Nat.zero_mul]; rfl, fun j before => absurd before (Nat.not_lt_zero j), rfl,
    fun _ _ => rfl, rfl, rfl⟩

theorem rounds_kept (reach : Reach (machine atomic i) (fun w e => e.RoundsApart i w.cluster) w) :
    (w.node i).raft.peerId = i ∧ (w.node i).RoundsKept w.rounds w.contacts := by
  refine reach.invariant (P := fun w => (w.node i).raft.peerId = i ∧
    (w.node i).RoundsKept w.rounds w.contacts) ?_ ?_
  · rintro w rfl
    exact ⟨rfl, kept_boot i⟩
  · intro w e v kept apart next
    exact step_kept kept apart next

/-- In a run whose rounds are apart every thread finds a peer, another one than the node and
marked for its kind, and each complete round has contacted every other peer exactly once, with
a snapshot just if the round found the peer behind. -/
theorem rounds_contact_all
    (reach : Reach (machine atomic i) (fun w e => e.RoundsApart i w.cluster) w) :
    ((w.node i).appendThreads ≠ 0 → ∃ peer s, (w.node i).raft.takePeer false = some (peer, s) ∧
      peer ≠ i ∧ (w.node i).raft.isInstallFlag peer = false) ∧
    ((w.node i).installThreads ≠ 0 → ∃ peer s, (w.node i).raft.takePeer true = some (peer, s) ∧
      peer ≠ i ∧ (w.node i).raft.isInstallFlag peer = true) ∧
    w.contacts.length + (w.node i).appendThreads + (w.node i).installThreads =
      w.rounds.length * (n - 1) ∧
    ∀ j behind, w.rounds[j]? = some behind → (j + 1) * (n - 1) ≤ w.contacts.length →
      ((w.contacts.drop (j * (n - 1))).take (n - 1)).Perm
        ((others i).map fun peer => (peer, behind peer)) := by
  obtain ⟨peer, kept⟩ := rounds_kept reach
  have length := others_length i
  have finds := kept.finds
  rw [peer] at finds
  refine ⟨finds false, finds true, ?_, ?_⟩
  · have total := Ledger.Kept.total (others_nodup _) kept
    rw [peer, length] at total
    exact total
  · intro j behind found whole
    have complete := Ledger.Kept.complete kept found
    rw [peer, Ledger.turn, length] at complete
    exact complete whole

def leadsOneEntry : List (ClusterStep 3) :=
  [.act 0 .electionStart, .act 0 (.callRequestVote 1), .deliver 0, .deliver 0,
    .act 0 .electionWake, .act 0 (.start ['a'])]

theorem rounds_contact_all_sample :
    ∃ w, execWhere (machine false (0 : Fin 3)) (fun w e => e.RoundsApart 0 w.cluster)
        ⟨.boot false, [], []⟩ (leadsOneEntry ++ [.act 0 .processEntries, .act 0 .sendAppendEntries,
          .act 0 .sendAppendEntries, .act 0 .processEntries, .act 0 .sendAppendEntries]) = some w ∧
      w.contacts = [(1, false), (2, false), (1, false)] ∧ (w.node 0).appendThreads = 1 ∧
      (∃ peer s, (w.node 0).raft.takePeer false = some (peer, s) ∧ peer ≠ 0) ∧
      ∃ behind, w.rounds[0]? = some behind ∧ ((w.contacts.drop 0).take 2).Perm
        ((others 0).map fun peer => (peer, behind peer)) := by
  have run : ∃ w, execWhere (machine false (0 : Fin 3)) (fun w e => e.RoundsApart 0 w.cluster)
      ⟨.boot false, [], []⟩ (leadsOneEntry ++ [ClusterStep.act 0 .processEntries,
        .act 0 .sendAppendEntries, .act 0 .sendAppendEntries, .act 0 .processEntries, .act 0 .sendAppendEntries]) = some w ∧
      w.contacts = [(1, false), (2, false), (1, false)] ∧ (w.node 0).appendThreads = 1 ∧
      w.rounds.length = 2 := ⟨_, rfl, by decide, by decide, by decide⟩
  obtain ⟨w, ran, contacts, waits, rounds⟩ := run
  have reach := Reach.execWhere (.start rfl) ran
  obtain ⟨finds, -, -, complete⟩ := rounds_contact_all reach
  obtain ⟨peer, s, taken, other, -⟩ := finds (by rw [waits]; decide)
  obtain ⟨behind, found⟩ : ∃ behind, w.rounds[0]? = some behind :=
    ⟨_, List.getElem?_eq_getElem (by omega)⟩
  exact ⟨w, ran, contacts, waits, ⟨peer, s, taken, other⟩, behind, found,
    complete 0 behind found (by rw [contacts]; decide)⟩

theorem overlapping_rounds_leave_no_peer :
    ¬∀ w, Reachable (machine false (0 : Fin 3)) w → (w.node 0).appendThreads ≠ 0 →
      ∃ peer s, (w.node 0).raft.takePeer false = some (peer, s) := by
  intro finds
  have run : ∃ w, exec (machine false (0 : Fin 3)) ⟨.boot false, [], []⟩
      (leadsOneEntry ++ [ClusterStep.act 0 .processEntries, .act 0 .sendAppendEntries,
        .deliver 0, .deliver 0, .act 0 .applyLog, .act 0 (.recvSnapShot ['s'] 1), .act 0 .processEntries]) = some w ∧
      (w.node 0).appendThreads = 2 ∧ ((w.node 0).raft.takePeer false).isSome = false :=
    ⟨_, rfl, by decide, by decide⟩
  obtain ⟨w, ran, waits, nobody⟩ := run
  obtain ⟨peer, s, taken⟩ := finds w (Reach.exec (.start rfl) ran) (by rw [waits]; decide)
  rw [taken] at nobody
  cases nobody

end Watch

end ProjectsCpp.KvRaft
