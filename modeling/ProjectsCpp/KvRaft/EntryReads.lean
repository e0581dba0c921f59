import ProjectsCpp.KvRaft.Rounds

/-! What the first section of `sendAppendEntries` reads. `processEntriesLoop` starts the thread
for a peer with `m_nextIndex > m_lastIncludedIndex`, and the thread counts on it later, when a
snapshot may have moved the base past the peer or a reply may have moved the peer. The reads
stay inside `m_logs` in the runs in which no section in between does either. -/

namespace ProjectsCpp.KvRaft
open ProjectsCpp.Text ProjectsCpp.Run ProjectsCpp.Handout

variable {n : Nat}

namespace Raft
variable {r s : Raft n}

theorem sendAppendEntries_isSome_iff {peer : Fin n} (taken : r.takePeer false = some (peer, s)) :
    r.sendAppendEntries.isSome ↔
      r.lastIncludedIndex < r.nextIndex peer ∧ r.nextIndex peer ≤ r.lastIndex + 1 := by
  obtain ⟨flags, exist, same⟩ := takePeer_flags taken
  have index : s.nextIndex = r.nextIndex := by rw [same]
  have base : s.lastIncludedIndex = r.lastIncludedIndex := by rw [same]
  have entry : s.entryAt (r.nextIndex peer - 1) = r.entryAt (r.nextIndex peer - 1) := by rw [same]; rfl
  have runs : r.sendAppendEntries.isSome = (s.prevTermOf (s.nextIndex peer - 1)).isSome := by
    rw [sendAppendEntries, taken]
    exact Option.isSome_map
  rw [runs, prevTermOf, index, base]
  by_cases atBase : r.nextIndex peer - 1 = r.lastIncludedIndex
  · rw [if_pos atBase]
    have len : r.lastIndex = r.lastIncludedIndex + r.logs.length := rfl
    exact ⟨fun _ => by omega, fun _ => rfl⟩
  · rw [if_neg atBase, Option.isSome_map, entry]
    constructor
    · intro reads
      obtain ⟨e, found⟩ := Option.isSome_iff_exists.mp reads
      have bounds := within_of_entryAt found
      omega
    · intro bounds
      exact entryAt_isSome (by omega) (by omega)

/-! ### What moves `m_nextIndex` -/

/-- The `m_nextIndex` that a reply of the current term sets, if it sets one. -/
def nextAfter (r : Raft n) (args : AppendEntriesArgs) (reply : AppendEntriesReply) : Option Int :=
  if reply.success then
    (getCmdAndTerm args.sendLogs).map fun sent => args.prevLogIndex + sent.length + 1
  else if reply.conflictTerm ≠ -1 ∧ reply.conflictTerm ≠ -100 then
    (r.lastIndexOfTerm reply.conflictTerm args.prevLogIndex
        (args.prevLogIndex - r.lastIncludedIndex).toNat).map fun leaderConflictIndex =>
      if leaderConflictIndex ≠ -1 then leaderConflictIndex + 1 else reply.conflictIndex
  else if reply.conflictTerm = -100 then none
  else some reply.conflictIndex

theorem backOff_nextAfter {peer : Fin n} {args : AppendEntriesArgs} {reply : AppendEntriesReply}
    (refused : reply.success = false) (run : r.backOff peer args reply = some s) :
    s.nextIndex = r.nextIndex ∨ ∃ next, r.nextAfter args reply = some next ∧
      s.nextIndex = Function.update r.nextIndex peer next := by
  rw [backOff] at run
  rw [nextAfter, if_neg (by rw [refused]; exact Bool.false_ne_true)]
  split at run
  · rename_i searched
    obtain ⟨index, found, rfl⟩ := Option.map_eq_some_iff.mp run
    rw [if_pos searched, found, Option.map_some]
    refine .inr ⟨_, rfl, ?_⟩
    split <;> rfl
  · rename_i unsearched
    rw [if_neg unsearched]
    split at run
    · cases run
      exact .inl rfl
    · rename_i unmarked
      cases run
      rw [if_neg unmarked]
      exact .inr ⟨_, rfl, rfl⟩

theorem appendReply_nextIndex {peer : Fin n} {args : AppendEntriesArgs}
    {reply : AppendEntriesReply} (run : r.appendReply peer args reply = some s) :
    s.nextIndex = r.nextIndex ∨ (r.curTerm = args.term ∧ reply.term ≤ r.curTerm ∧
      ∃ next, r.nextAfter args reply = some next ∧
        s.nextIndex = Function.update r.nextIndex peer next) := by
  rw [appendReply] at run
  split at run
  · cases run
    exact .inl rfl
  · rename_i current
    split at run
    · cases run
      exact .inl rfl
    · rename_i low
      split at run
      · rename_i success
        split at run
        · cases run
        · rename_i sent parsed
          obtain ⟨t, commit, rfl⟩ := Option.map_eq_some_iff.mp run
          obtain ⟨index, rfl⟩ := advanceCommit_commit commit
          refine .inr ⟨not_not.mp current, not_lt.mp low, _, ?_, rfl⟩
          rw [nextAfter, if_pos success, parsed, Option.map_some]
      · rename_i refused
        obtain ⟨t, back, rfl⟩ := Option.map_eq_some_iff.mp run
        rcases backOff_nextAfter (Bool.eq_false_iff.mpr refused) back with same | moved
        · exact .inl same
        · exact .inr ⟨not_not.mp current, not_lt.mp low, moved⟩

/-- The search of a conflict term finds an index of the log, or no entry of the log up to the
request has the term. -/
theorem lastIndexOfTerm_found {term index found : Int} {count : Nat}
    (nonneg : 0 ≤ r.lastIncludedIndex) (down : count = (index - r.lastIncludedIndex).toNat)
    (searched : r.lastIndexOfTerm term index count = some found) :
    (r.lastIncludedIndex < found ∧ found ≤ r.lastIndex ∧ found ≠ -1) ∨
      (found = -1 ∧ ∀ e ∈ r.logs.take count, e.term ≠ term) := by
  induction count generalizing index with
  | zero =>
    cases searched
    exact .inr ⟨rfl, by simp⟩
  | succ count ih =>
    rw [lastIndexOfTerm] at searched
    split at searched
    · cases searched
    · rename_i e entry
      have bounds := within_of_entryAt entry
      split at searched
      · cases searched
        exact .inl ⟨bounds.1, bounds.2, by omega⟩
      · rename_i other
        rcases ih (by omega) searched with inside | ⟨absent, others⟩
        · exact .inl inside
        · refine .inr ⟨absent, fun e' member => ?_⟩
          have place : (index - r.lastIncludedIndex - 1).toNat = count := by omega
          rw [entryAt_eq, if_neg (by omega), place] at entry
          rw [List.take_add_one, entry] at member
          rcases List.mem_append.mp member with before | last
          · exact others e' before
          · rw [List.mem_singleton.mp last]
            exact other

theorem installReply_nextIndex {peer : Fin n} {args : InstallSnapShotArgs}
    {reply : InstallSnapSHotReply} (run : r.installReply peer args reply = some s) :
    s.nextIndex = r.nextIndex ∨
      s.nextIndex = Function.update r.nextIndex peer (r.lastIndex + 1) := by
  rw [installReply] at run
  split at run
  · cases run
    exact .inl rfl
  · split at run
    · cases run
      exact .inl rfl
    · obtain ⟨index, rfl⟩ := advanceCommit_commit run
      exact .inr rfl

theorem electionWake_nextIndex (run : r.electionWake = some s) :
    s = r ∨ ∀ peer, s.nextIndex peer = s.lastIndex + 1 := by
  rw [electionWake] at run
  split at run
  · cases run
  · split at run
    · cases run
      exact .inl rfl
    · split at run <;> cases run
      · exact .inr fun peer => rfl
      · exact .inl rfl

/-! ### Sections that end a leadership -/

theorem appendEntries_state {args : AppendEntriesArgs} {reply : AppendEntriesReply}
    (run : r.appendEntries args = some (s, reply)) : s = r ∨ s.state = .FOLLOWER := by
  rw [appendEntries] at run
  split at run
  · cases run
  · rename_i recvLog _
    split at run
    · cases run
      exact .inl rfl
    · obtain ⟨answer, -, done⟩ := Option.map_eq_some_iff.mp run
      have entered := (enterTerm_aside r args.term).2.2.2
      cases answer with
      | some refused =>
        cases done
        exact .inr entered
      | none =>
        cases done
        refine .inr ?_
        simp only [overwriteLog]
        split <;> exact entered

theorem installSnapShot_state {args : InstallSnapShotArgs} {reply : InstallSnapSHotReply}
    {push : Bool} (run : r.installSnapShot args = some (s, reply, push)) :
    s = r ∨ s.state = .FOLLOWER := by
  simp only [installSnapShot] at run
  split at run
  · cases run
    exact .inl rfl
  · have entered := (enterTerm_aside r args.term).2.2.2
    split at run
    · cases run
      exact .inr entered
    · obtain ⟨logs, -, done⟩ := Option.map_eq_some_iff.mp run
      cases done
      exact .inr entered

theorem voteReply_grows {reply : RequestVoteReply} (run : r.voteReply reply = some s) :
    r.lastIndex ≤ s.lastIndex ∧ (s.state = .LEADER → r.state = .LEADER) := by
  simp only [voteReply] at run
  split at run
  · rw [readRaftState] at run
    split at run
    · cases run
      exact ⟨le_refl _, fun same => by cases same⟩
    · obtain ⟨p, -, rfl⟩ := Option.map_eq_some_iff.mp run
      refine ⟨?_, fun same => by cases same⟩
      simp only [lastIndex, List.length_append]
      omega
  · split at run <;> cases run <;> exact ⟨le_refl _, fun leads => leads⟩

end Raft

open Raft

namespace Process
variable {p q : Process n} {a : Action n} {o : Output n} {peer : Fin n}
variable {rounds : List (Fin n → Bool)} {contacts : List (Fin n × Bool)}

def Awaits (p : Process n) (peer : Fin n) : Prop :=
  (p.ledger [] []).Awaits (others p.raft.peerId) peer

instance (p : Process n) (peer : Fin n) : Decidable (p.Awaits peer) := by
  unfold Awaits
  infer_instance

/-- The index is one of the log, for a leader or a peer to be taken, and not below the base of
the log if the peer is to be taken. -/
def Reaches (p : Process n) (peer : Fin n) (index : Int) : Prop :=
  (p.raft.state = .LEADER ∨ p.Awaits peer → index ≤ p.raft.lastIndex) ∧
    (p.Awaits peer → p.raft.lastIncludedIndex ≤ index)

instance (p : Process n) (peer : Fin n) (index : Int) : Decidable (p.Reaches peer index) := by
  unfold Reaches
  infer_instance

/-- What a reply names is in the log: the last entry sent, if it is a success; otherwise a term
of the entries up to the request, or the index of the conflict. -/
def ReplyFits (p : Process n) (peer : Fin n) (args : AppendEntriesArgs)
    (reply : AppendEntriesReply) : Prop :=
  if reply.success then
    ∀ sent ∈ getCmdAndTerm args.sendLogs, p.Reaches peer (args.prevLogIndex + sent.length)
  else
    reply.conflictTerm = -100 ∨
      (reply.conflictTerm ≠ -1 ∧
        ∃ e ∈ p.raft.logs.take (args.prevLogIndex - p.raft.lastIncludedIndex).toNat,
          e.term = reply.conflictTerm) ∨
      p.Reaches peer (reply.conflictIndex - 1)

instance (p : Process n) (peer : Fin n) (args : AppendEntriesArgs) (reply : AppendEntriesReply) :
    Decidable (p.ReplyFits peer args reply) := by
  unfold ReplyFits
  infer_instance

theorem ReplyFits.next {args : AppendEntriesArgs} {reply : AppendEntriesReply} {next : Int}
    (fits : p.ReplyFits peer args reply) (nonneg : 0 ≤ p.raft.lastIncludedIndex)
    (sets : p.raft.nextAfter args reply = some next) : p.Reaches peer (next - 1) := by
  rw [ReplyFits] at fits
  rw [nextAfter] at sets
  split at sets
  · rename_i success
    rw [if_pos success] at fits
    obtain ⟨sent, parsed, rfl⟩ := Option.map_eq_some_iff.mp sets
    rw [add_sub_cancel_right]
    exact fits sent parsed
  · rename_i refused
    rw [if_neg refused] at fits
    split at sets
    · rename_i searched
      obtain ⟨found, finds, rfl⟩ := Option.map_eq_some_iff.mp sets
      rcases lastIndexOfTerm_found nonneg rfl finds with ⟨above, within, found⟩ | ⟨rfl, absent⟩
      · rw [if_pos found, add_sub_cancel_right]
        exact ⟨fun _ => within, fun _ => above.le⟩
      · rw [if_neg (not_not.mpr rfl)]
        rcases fits with marked | ⟨-, e, member, same⟩ | reaches
        · exact absurd marked searched.2
        · exact absurd same (absent e member)
        · exact reaches
    · rename_i unsearched
      split at sets
      · cases sets
      · rename_i unmarked
        cases sets
        rcases fits with marked | ⟨named, -⟩ | reaches
        · exact absurd marked unmarked
        · exact absurd ⟨named, unmarked⟩ unsearched
        · exact reaches

/-- The section leaves alone what the threads that wait count on: a round starts apart from
those before, a snapshot stays below the peers to be taken, what a reply of the current term
names is in the log, and a request of another leader leaves the peers to be taken inside the
log. -/
def KeepsGuard (p : Process n) : Action n → Prop
  | .processEntries => p.RoundsApart .processEntries
  | .recvSnapShot _ index => ∀ peer, p.Awaits peer → index < p.raft.nextIndex peer
  | .appendReply peer args reply =>
    p.raft.curTerm = args.term → reply.term ≤ p.raft.curTerm → p.ReplyFits peer args reply
  | .appendEntries args =>
    ∀ recvLog ∈ getCmdAndTerm args.sendLogs, ¬args.term < p.raft.curTerm →
      (p.raft.enterTerm args.term).checkPrevLog args p.raft.curTerm = some none →
      ∀ peer, p.Awaits peer → p.raft.nextIndex peer ≤ args.prevLogIndex + recvLog.length + 1
  | .installSnapShot args =>
    ¬args.term < p.raft.curTerm → p.raft.lastIncludedIndex < args.lastIncludedIndex →
      ∀ peer, p.Awaits peer → args.lastIncludedIndex < p.raft.nextIndex peer ∧
        (p.raft.nextIndex peer ≤ args.lastIncludedIndex + 1 ∨
          (args.lastIncludedIndex < p.raft.lastIndex ∧
            (p.raft.entryAt p.raft.lastIndex).map LogEntry.term = some args.lastIncludedTerm))
  | _ => True

instance (p : Process n) (a : Action n) : Decidable (p.KeepsGuard a) := by
  rcases a <;> (unfold KeepsGuard; infer_instance)

/-- The test of `processEntriesLoop` still holds for every peer to be taken, and a leader's
indices are in its log. -/
structure Guarded (p : Process n) : Prop where
  guard : ∀ peer, p.Awaits peer →
    p.raft.lastIncludedIndex < p.raft.nextIndex peer ∧ p.raft.nextIndex peer ≤ p.raft.lastIndex + 1
  bound : p.raft.state = .LEADER → ∀ peer, p.raft.nextIndex peer ≤ p.raft.lastIndex + 1

theorem awaits_of_same (same : SameFlags p.raft q.raft)
    (appends : q.appendThreads = p.appendThreads) (awaits : q.Awaits peer) : p.Awaits peer := by
  have marks : q.raft.isInstallFlag = p.raft.isInstallFlag := same.marks
  rw [Awaits, same.peer] at awaits
  obtain ⟨thread, member, place⟩ := awaits
  have waits : (q.ledger [] []).waiting (others p.raft.peerId) false =
      (p.ledger [] []).waiting (others p.raft.peerId) false :=
    Ledger.waiting_congr (fun x _ => congrFun marks x) same.taken
  have count : (q.ledger [] []).plain = (p.ledger [] []).plain := appends
  rw [waits, count] at place
  rw [count] at thread
  exact ⟨thread, member, place⟩

theorem awaits_of_taken {s : Raft n} {found : Fin n} {install : Bool}
    (kept : p.RoundsKept rounds contacts) (thread : (p.ledger rounds contacts).threads install ≠ 0)
    (taken : p.raft.takePeer install = some (found, s)) (same : SameFlags s q.raft)
    (appends : q.appendThreads = if install then p.appendThreads else p.appendThreads - 1)
    (installs : q.installThreads = if install then p.installThreads - 1 else p.installThreads)
    (awaits : q.Awaits peer) : p.Awaits peer := by
  obtain ⟨own, first, handed⟩ := ledger_of_taken taken same appends installs rounds contacts
  have awaits' : (q.ledger rounds (contacts ++ [(found, install)])).Awaits
      (others q.raft.peerId) peer := awaits
  rw [handed, own] at awaits'
  have before : (p.ledger rounds contacts).Awaits (others p.raft.peerId) peer :=
    Ledger.Kept.awaits_hand (others_nodup _) kept thread first awaits'
  exact before

theorem Guarded.still (guarded : p.Guarded) (fewer : ∀ peer, q.Awaits peer → p.Awaits peer)
    (leads : q.raft.state = .LEADER → p.raft.state = .LEADER)
    (next : q.raft.nextIndex = p.raft.nextIndex)
    (base : q.raft.lastIncludedIndex = p.raft.lastIncludedIndex)
    (grows : p.raft.lastIndex ≤ q.raft.lastIndex) : q.Guarded := by
  constructor
  · intro peer awaits
    obtain ⟨above, within⟩ := guarded.guard peer (fewer peer awaits)
    rw [next, base]
    exact ⟨above, by omega⟩
  · intro leader peer
    have within := guarded.bound (leads leader) peer
    rw [next]
    omega

theorem Guarded.alike (guarded : p.Guarded) (fewer : ∀ peer, q.Awaits peer → p.Awaits peer)
    (leads : q.raft.state = .LEADER → p.raft.state = .LEADER)
    (next : q.raft.nextIndex = p.raft.nextIndex) (log : SameLog p.raft q.raft) : q.Guarded :=
  guarded.still fewer leads next log.index log.lastIndex.ge

theorem Guarded.takes (guarded : p.Guarded) (role : q.raft = p.raft ∨ q.raft.state = .FOLLOWER)
    (next : q.raft.nextIndex = p.raft.nextIndex)
    (reaches : ∀ peer, q.Awaits peer → q.raft.lastIncludedIndex < p.raft.nextIndex peer ∧
      p.raft.nextIndex peer ≤ q.raft.lastIndex + 1) : q.Guarded := by
  constructor
  · intro peer awaits
    rw [next]
    exact reaches peer awaits
  · intro leader
    rcases role with same | follower
    · rw [same] at leader ⊢
      exact guarded.bound leader
    · rw [follower] at leader
      cases leader

theorem leads_of_role {r s : Raft n} (role : s = r ∨ s.state = .FOLLOWER)
    (leads : s.state = .LEADER) : r.state = .LEADER := by
  rcases role with rfl | follower
  · exact leads
  · rw [follower] at leads
    cases leads

theorem leads_of_aside {r s : Raft n} (aside : Aside r s) (leads : s.state = .LEADER) :
    r.state = .LEADER := by
  rcases aside.state with follower | same
  · rw [follower] at leads
    cases leads
  · exact same.1.symm.trans leads

theorem Guarded.moved {next : Int} (guarded : p.Guarded) (same : SameFlags p.raft q.raft)
    (appends : q.appendThreads = p.appendThreads)
    (leads : q.raft.state = .LEADER → p.raft.state = .LEADER) (log : SameLog p.raft q.raft)
    (moves : q.raft.nextIndex = Function.update p.raft.nextIndex peer next)
    (within : p.raft.state = .LEADER ∨ p.Awaits peer → next ≤ p.raft.lastIndex + 1)
    (above : p.Awaits peer → p.raft.lastIncludedIndex < next) : q.Guarded := by
  constructor
  · intro other awaits
    have awaits' := awaits_of_same same appends awaits
    rw [moves, log.index, log.lastIndex]
    by_cases own : other = peer
    · subst own
      rw [Function.update_self]
      exact ⟨above awaits', within (.inr awaits')⟩
    · rw [Function.update_of_ne own]
      exact guarded.guard other awaits'
  · intro leader other
    rw [moves, log.lastIndex]
    by_cases own : other = peer
    · subst own
      rw [Function.update_self]
      exact within (.inl (leads leader))
    · rw [Function.update_of_ne own]
      exact guarded.bound (leads leader) other

theorem Guarded.round {r : Raft n} {appends installs : Nat} (guarded : p.Guarded)
    (kept : p.RoundsKept rounds contacts) (apart : p.RoundsApart .processEntries)
    (run : p.raft.processEntries = some (r, appends, installs)) :
    Guarded { p with
      raft := r
      appendThreads := p.appendThreads + appends
      installThreads := p.installThreads + installs } := by
  obtain ⟨own, started⟩ := ledger_of_round run rounds contacts
  rw [Raft.processEntries] at run
  split at run
  · cases run
  · rename_i leads
    cases run
    have bound := guarded.bound (not_not.mp leads)
    refine ⟨fun peer awaits => ⟨?_, bound peer⟩, fun _ => bound⟩
    have awaits' : Ledger.Awaits (others p.raft.peerId)
        ((p.ledger rounds contacts).round (others p.raft.peerId) p.raft.behind) peer := by
      rw [← started]
      exact awaits
    have allowed : (p.ledger rounds contacts).Apart (others p.raft.peerId) p.raft.behind :=
      apart.imp_right fun quiet => ⟨quiet.1, fun peer _ => quiet.2 peer⟩
    have ahead : p.raft.behind peer = false :=
      Ledger.Kept.awaits_round (others_nodup _) kept allowed awaits'
    have other := mem_others.mp awaits'.2.1
    rw [behind, decide_eq_false_iff_not] at ahead
    exact not_le.mp fun late => ahead ⟨other, late⟩

theorem Guarded.appendEntries {r : Raft n} {args : AppendEntriesArgs} {reply : AppendEntriesReply}
    (guarded : p.Guarded) (keeps : p.KeepsGuard (.appendEntries args))
    (run : p.raft.appendEntries args = some (r, reply)) : Guarded { p with raft := r } := by
  have same := appendEntries_sends run
  have role := appendEntries_state run
  have fewer : ∀ peer, Awaits { p with raft := r } peer → p.Awaits peer := fun peer =>
    awaits_of_same same.flags rfl
  rcases appendEntries_indices run with idle | taken
  · exact guarded.alike fewer (leads_of_role role) same.next idle.log
  · obtain ⟨recvLog, parsed, current, checked, base, -, last, -⟩ := taken
    refine guarded.takes role same.next fun peer awaits => ?_
    have awaits' := fewer peer awaits
    show r.lastIncludedIndex < p.raft.nextIndex peer ∧ p.raft.nextIndex peer ≤ r.lastIndex + 1
    rw [base, last]
    exact ⟨(guarded.guard peer awaits').1, keeps recvLog parsed current checked peer awaits'⟩

theorem Guarded.installSnapShot {r : Raft n} {args : InstallSnapShotArgs}
    {reply : InstallSnapSHotReply} {push : Bool} (guarded : p.Guarded)
    (keeps : p.KeepsGuard (.installSnapShot args))
    (run : p.raft.installSnapShot args = some (r, reply, push)) :
    Guarded { p with raft := r, kvInstalls := p.kvInstalls + push.toNat } := by
  have same := installSnapShot_sends run
  have role := installSnapShot_state run
  have fewer : ∀ peer, Awaits { p with raft := r, kvInstalls := p.kvInstalls + push.toNat } peer →
      p.Awaits peer := fun peer => awaits_of_same same.flags rfl
  rcases installSnapShot_indices run with idle | taken
  · exact guarded.alike fewer (leads_of_role role) same.next idle.log
  · obtain ⟨current, ahead, base, -, -, reaches, whole⟩ := taken
    refine guarded.takes role same.next fun peer awaits => ?_
    obtain ⟨below, place⟩ := keeps current ahead peer (fewer peer awaits)
    have within := (guarded.guard peer (fewer peer awaits)).2
    show r.lastIncludedIndex < p.raft.nextIndex peer ∧ p.raft.nextIndex peer ≤ r.lastIndex + 1
    rw [base]
    refine ⟨below, ?_⟩
    rcases place with first | ⟨inside, agrees⟩
    · omega
    · have last := whole inside agrees
      omega

theorem Guarded.electionWake {r : Raft n} (guarded : p.Guarded)
    (run : p.raft.electionWake = some r) : Guarded { p with raft := r, electing := false } := by
  rcases electionWake_nextIndex run with rfl | ends
  · exact ⟨guarded.guard, guarded.bound⟩
  · have len : r.lastIndex = r.lastIncludedIndex + r.logs.length := rfl
    constructor
    · intro peer _
      show r.lastIncludedIndex < r.nextIndex peer ∧ r.nextIndex peer ≤ r.lastIndex + 1
      rw [ends peer]
      omega
    · intro _ peer
      exact (ends peer).le

theorem Guarded.recvSnapShot {r : Raft n} {snapShot : Str} {index : Int} (guarded : p.Guarded)
    (keeps : p.KeepsGuard (.recvSnapShot snapShot index))
    (run : p.raft.recvSnapShot snapShot index = some r) : Guarded { p with raft := r } := by
  have same := recvSnapShot_sends run
  obtain ⟨-, -, last, base⟩ := recvSnapShot_indices run
  constructor
  · intro peer awaits
    have awaits' : p.Awaits peer := awaits_of_same (q := { p with raft := r }) same.flags rfl awaits
    have below := keeps peer awaits'
    have bounds := guarded.guard peer awaits'
    show r.lastIncludedIndex < r.nextIndex peer ∧ r.nextIndex peer ≤ r.lastIndex + 1
    rw [same.next, last]
    rcases base with kept | moved
    · rw [kept]
      exact bounds
    · rw [moved]
      exact ⟨below, bounds.2⟩
  · intro leader peer
    have bound := guarded.bound (leads_of_aside (recvSnapShot_aside run) leader) peer
    show r.nextIndex peer ≤ r.lastIndex + 1
    rw [same.next, last]
    exact bound

theorem Guarded.step (guarded : p.Guarded) (kept : p.RoundsKept rounds contacts)
    (nonneg : 0 ≤ p.raft.lastIncludedIndex) (keeps : p.KeepsGuard a)
    (next : p.step a = some (q, o)) : q.Guarded := by
  have aside : ¬a.Electing → q.raft.state = .LEADER → p.raft.state = .LEADER := fun apart =>
    leads_of_aside (step_aside apart next).1
  cases ran_of_step next with
  | electionStart idle run =>
    have same := electionStart_sends run
    refine guarded.alike (fun peer => awaits_of_same same.flags rfl) ?_ same.next
      (electionStart_log run)
    intro leader
    rw [Raft.electionStart] at run
    split at run <;> cases run
    cases leader
  | electionWake waits run => exact guarded.electionWake run
  | callRequestVote thread run =>
    have same := callRequestVote_sends run
    refine guarded.alike (fun peer => awaits_of_same same.flags rfl) ?_ same.next
      (callRequestVote_log run)
    intro leader
    simp only [Raft.callRequestVote] at run
    split at run <;> cases run
    exact leader
  | @requestVote args =>
    have same := requestVote_sends p.raft args
    exact guarded.alike (fun peer => awaits_of_same same.flags rfl) (aside id) same.next
      (requestVote_log p.raft args)
  | voteReply call run =>
    have same := voteReply_sends run
    obtain ⟨grows, leads⟩ := voteReply_grows run
    exact guarded.still (fun peer => awaits_of_same same.flags rfl) leads same.next
      (voteReply_base run) grows
  | processEntries run => exact guarded.round kept keeps run
  | sendAppendEntries thread run =>
    have taken := sendAppendEntries_taken run
    obtain ⟨flags, exist, after⟩ := takePeer_flags taken
    have threads : (p.ledger rounds contacts).threads false ≠ 0 := thread
    exact guarded.alike (fun peer => awaits_of_taken kept threads taken (.refl _) rfl rfl)
      (aside id) (by rw [after]) (sendAppendEntries_log run)
  | appendEntries run => exact guarded.appendEntries keeps run
  | appendReply call run =>
    have flags := (appendReply_answered run).flags
    have log := appendReply_log run
    rcases appendReply_nextIndex run with same | ⟨current, low, next, sets, moves⟩
    · exact guarded.alike (fun peer => awaits_of_same flags rfl) (aside id) same log
    · obtain ⟨within, above⟩ := (keeps current low).next nonneg sets
      refine guarded.moved flags rfl (aside id) log moves (fun counts => ?_) fun awaits => ?_
      · have inside := within counts
        omega
      · have outside := above awaits
        omega
  | sendInstallSnapShot thread run =>
    obtain ⟨t, taken, same⟩ := sendInstallSnapShot_taken run
    obtain ⟨flags, exist, after⟩ := takePeer_flags taken
    have threads : (p.ledger rounds contacts).threads true ≠ 0 := thread
    exact guarded.alike (fun peer => awaits_of_taken kept threads taken same.flags rfl rfl)
      (aside id) (same.next.trans (by rw [after])) (sendInstallSnapShot_log run)
  | installSnapShot run => exact guarded.installSnapShot keeps run
  | installReply call run =>
    have flags := (installReply_answered run).flags
    have log := installReply_log run
    have len : p.raft.lastIndex = p.raft.lastIncludedIndex + p.raft.logs.length := rfl
    rcases installReply_nextIndex run with same | moves
    · exact guarded.alike (fun peer => awaits_of_same flags rfl) (aside id) same log
    · exact guarded.moved flags rfl (aside id) log moves (fun _ => le_refl _) fun _ => by omega
  | installSnapShotTokvServer waits =>
    have same := installSnapShotTokvServer_sends p.raft
    exact guarded.alike (fun peer => awaits_of_same same.flags rfl) (aside id) same.next
      (installSnapShotTokvServer_log p.raft)
  | @start command =>
    have same := start_sends p.raft command
    obtain ⟨base, -, -, grows⟩ := start_indices p.raft command
    exact guarded.still (fun peer => awaits_of_same same.flags rfl) (aside id) same.next base grows
  | applyLog run =>
    have same := applyLog_sends run
    exact guarded.alike (fun peer => awaits_of_same same.flags rfl) (aside id) same.next
      (applyLog_log run)
  | recvSnapShot run => exact guarded.recvSnapShot keeps run

end Process

theorem Process.KeepsGuard.apart {p : Process n} {a : Action n} (keeps : p.KeepsGuard a) :
    p.RoundsApart a := by
  cases a with
  | processEntries => exact keeps
  | _ => trivial

def ClusterStep.KeepsGuard (i : Fin n) (c : Cluster n) (e : ClusterStep n) : Prop :=
  ∀ a ∈ e.sectionOf i c, (c.node i).process.KeepsGuard a

instance (i : Fin n) (c : Cluster n) (e : ClusterStep n) : Decidable (e.KeepsGuard i c) := by
  unfold ClusterStep.KeepsGuard
  infer_instance

namespace Cluster
variable {i : Fin n} {c : Cluster n} {atomic : Bool}

theorem guarded {w : Watch n}
    (reach : Reach (Watch.machine atomic i) (fun w e => e.KeepsGuard i w.cluster) w) :
    ((w.node i).raft.peerId = i ∧ (w.node i).RoundsKept w.rounds w.contacts) ∧
      0 ≤ (w.node i).raft.lastIncludedIndex ∧ (w.node i).Guarded := by
  refine reach.invariant (P := fun w => ((w.node i).raft.peerId = i ∧
    (w.node i).RoundsKept w.rounds w.contacts) ∧
      0 ≤ (w.node i).raft.lastIncludedIndex ∧ (w.node i).Guarded) ?_ ?_
  · rintro w rfl
    refine ⟨⟨rfl, Watch.kept_boot i⟩, le_refl 0, ?_, nofun⟩
    rintro peer ⟨thread, -, -⟩
    exact absurd rfl thread
  · intro w e v before keeps next
    refine ⟨Watch.step_kept before.1 (fun a runs => (keeps a runs).apart) next, ?_⟩
    rcases Watch.step_node next with ⟨-, node, -, -⟩ | ⟨a, o, runs, ran, -, -⟩
    · rw [node]
      exact before.2
    · obtain ⟨⟨-, kept⟩, nonneg, guarded⟩ := before
      exact ⟨nonneg.trans (Process.base_le ran), guarded.step kept nonneg (keeps a runs) ran⟩

/-- In a run whose sections keep the guard, every `sendAppendEntries` thread that waits finds a
peer whose entries from `m_nextIndex` on are in the log, and reads inside `m_logs`. -/
theorem entries_in_range (reach : Reach (machine n atomic) (fun c e => e.KeepsGuard i c) c)
    (waits : (c.node i).process.appendThreads ≠ 0) :
    ∃ peer s, (c.node i).process.raft.takePeer false = some (peer, s) ∧
      (c.node i).process.raft.lastIncludedIndex < (c.node i).process.raft.nextIndex peer ∧
      (c.node i).process.raft.nextIndex peer ≤ (c.node i).process.raft.lastIndex + 1 ∧
      (c.node i).process.raft.sendAppendEntries.isSome := by
  obtain ⟨w, watched, rfl⟩ := Watch.reach_of_cluster (i := i) reach
  obtain ⟨⟨-, kept⟩, -, guarded⟩ := guarded watched
  have waits' : ((w.node i).ledger w.rounds w.contacts).threads false ≠ 0 := waits
  obtain ⟨peer, first⟩ := Ledger.Kept.finds (others_nodup _) kept waits'
  have awaits : (w.node i).Awaits peer := Ledger.awaits_of_first waits first
  obtain ⟨above, within⟩ := guarded.guard peer awaits
  have taken : ∃ s, (w.node i).raft.takePeer false = some (peer, s) := by
    rw [takePeer_eq, show ((w.node i).raft.waiting false).head? = some peer from first]
    exact ⟨_, rfl⟩
  obtain ⟨s, taken⟩ := taken
  exact ⟨peer, s, taken, above, within, (sendAppendEntries_isSome_iff taken).mpr ⟨above, within⟩⟩

def compactsInRound : List (ClusterStep 3) :=
  Watch.leadsOneEntry ++ [ClusterStep.act 0 .processEntries, .act 0 .sendAppendEntries,
    .act 0 .sendAppendEntries, .deliver 0, .deliver 0, .deliver 0, .deliver 0, .act 0 .applyLog,
    .act 0 .processEntries, .act 0 (.recvSnapShot ['s'] 1)]

theorem entries_in_range_sample :
    ∃ c, execWhere (machine 3 false) (fun c e => e.KeepsGuard 0 c) (boot false) compactsInRound =
        some c ∧ (c.node 0).process.appendThreads = 2 ∧
      (c.node 0).process.raft.lastIncludedIndex = 1 ∧
      (c.node 0).process.raft.sendAppendEntries.isSome := by
  have run : ∃ c, execWhere (machine 3 false) (fun c e => e.KeepsGuard 0 c) (boot false)
      compactsInRound = some c ∧ (c.node 0).process.appendThreads = 2 ∧
        (c.node 0).process.raft.lastIncludedIndex = 1 := ⟨_, rfl, by decide, by decide⟩
  obtain ⟨c, ran, waits, base⟩ := run
  obtain ⟨peer, s, -, -, -, reads⟩ := entries_in_range (Reach.execWhere (.start rfl) ran)
    (by rw [waits]; decide)
  exact ⟨c, ran, waits, base, reads⟩

theorem compaction_leaves_peer_behind :
    ¬∀ c, Reachable (machine 3 false) c → ∀ i, (c.node i).process.raft.state = .LEADER →
      (c.node i).process.appendThreads ≠ 0 →
      ∀ peer s, (c.node i).process.raft.takePeer false = some (peer, s) →
        (c.node i).process.raft.sendAppendEntries.isSome := by
  intro reads
  have run : ∃ c peer s, exec (machine 3 false) (boot false) (Watch.leadsOneEntry ++
      [ClusterStep.act 0 .processEntries, .act 0 .sendAppendEntries, .deliver 0, .deliver 0,
        .act 0 .applyLog, .act 0 (.recvSnapShot ['s'] 1)]) = some c ∧
      (c.node 0).process.raft.state = .LEADER ∧ (c.node 0).process.appendThreads = 1 ∧
      (c.node 0).process.raft.takePeer false = some (peer, s) ∧
      (c.node 0).process.raft.sendAppendEntries.isSome = false :=
    ⟨_, _, _, rfl, by decide, by decide, rfl, by decide⟩
  obtain ⟨c, peer, s, ran, leads, waits, taken, outside⟩ := run
  have inside := reads c (Reach.exec (.start rfl) ran) 0 leads (by rw [waits]; decide) peer s taken
  rw [outside] at inside
  cases inside

end Cluster

end ProjectsCpp.KvRaft
