import ProjectsCpp.KvRaft.Frame
import Mathlib.Tactic.SplitIfs

/-! What one node does for its own election. The threads of one election take the peers in
turn, so they ask each peer once; as long as they ask in the term of that election and a
candidate counts only grants of its term, `recvVotes` is one more than the number of
peers that have granted it. -/

namespace ProjectsCpp.KvRaft
open ProjectsCpp.Text ProjectsCpp.Run

variable {n : Nat}

/-! ### Sections aside from an election -/

namespace Raft
variable {r s : Raft n}

/-- The section takes no part in an election of its own node, but may end it. -/
structure Aside (r s : Raft n) : Prop where
  peer : s.peerId = r.peerId
  votes : s.recvVotes = r.recvVotes
  next : s.curPeerId = r.curPeerId
  state : s.state = .FOLLOWER ∨ (s.state = r.state ∧ s.curTerm = r.curTerm)

theorem Aside.refl (r : Raft n) : Aside r r := ⟨rfl, rfl, rfl, .inr ⟨rfl, rfl⟩⟩

theorem requestVote_aside (r : Raft n) (args : RequestVoteArgs) :
    Aside r (r.requestVote args).1 := by
  rw [requestVote]
  split
  · exact .refl r
  · by_cases higher : r.curTerm < args.term
    · simp only [stepDown, if_pos higher, true_or, if_true]
      split <;> exact ⟨rfl, rfl, rfl, .inl rfl⟩
    · simp only [stepDown, if_neg higher]
      split
      · split <;> exact ⟨rfl, rfl, rfl, .inr ⟨rfl, rfl⟩⟩
      · exact ⟨rfl, rfl, rfl, .inr ⟨rfl, rfl⟩⟩

theorem processEntries_aside {k l : Nat} (run : r.processEntries = some (s, k, l)) :
    Aside r s := by
  simp only [processEntries] at run
  split at run <;> cases run
  exact ⟨rfl, rfl, rfl, .inr ⟨rfl, rfl⟩⟩

theorem sendAppendEntries_aside {peer : Fin n} {args : AppendEntriesArgs}
    (run : r.sendAppendEntries = some (s, peer, args)) : Aside r s := by
  rw [sendAppendEntries] at run
  split at run
  · cases run
  · rename_i taken
    obtain ⟨flags, exist, rfl⟩ := takePeer_flags taken
    obtain ⟨t, -, ht⟩ := Option.map_eq_some_iff.mp run
    cases ht
    exact ⟨rfl, rfl, rfl, .inr ⟨rfl, rfl⟩⟩

theorem enterTerm_aside (r : Raft n) (term : Int) :
    (r.enterTerm term).peerId = r.peerId ∧ (r.enterTerm term).recvVotes = r.recvVotes ∧
      (r.enterTerm term).curPeerId = r.curPeerId ∧ (r.enterTerm term).state = .FOLLOWER := by
  rw [enterTerm]
  by_cases higher : term > r.curTerm
  · simp only [if_pos higher]
    exact ⟨rfl, rfl, rfl, trivial⟩
  · simp only [if_neg higher]
    exact ⟨trivial, trivial, trivial, trivial⟩

theorem overwriteLog_aside (r : Raft n) (args : AppendEntriesArgs) (recvLog : List LogEntry) :
    Aside r (r.overwriteLog args recvLog) := by
  simp only [overwriteLog]
  split <;> exact ⟨rfl, rfl, rfl, .inr ⟨rfl, rfl⟩⟩

theorem appendEntries_aside {args : AppendEntriesArgs} {reply : AppendEntriesReply}
    (run : r.appendEntries args = some (s, reply)) : Aside r s := by
  rw [appendEntries] at run
  split at run
  · cases run
  · rename_i recvLog _
    split at run
    · cases run
      exact .refl r
    · obtain ⟨answer, -, done⟩ := Option.map_eq_some_iff.mp run
      obtain ⟨peer, votes, turn, follower⟩ := enterTerm_aside r args.term
      cases answer with
      | some refused =>
        cases done
        exact ⟨peer, votes, turn, .inl follower⟩
      | none =>
        cases done
        have wrote := overwriteLog_aside (r.enterTerm args.term) args recvLog
        refine ⟨wrote.peer.trans peer, wrote.votes.trans votes, wrote.next.trans turn, .inl ?_⟩
        cases wrote.state with
        | inl stepped => exact stepped
        | inr kept => exact kept.1.trans follower

theorem Answered.aside {term : Int} (answered : Answered r term s) : Aside r s := by
  cases answered with
  | late => exact .refl r
  | higher newer => exact ⟨rfl, rfl, rfl, .inl rfl⟩
  | moved next found commit => exact ⟨rfl, rfl, rfl, .inr ⟨rfl, rfl⟩⟩
  | saved next found commit => exact ⟨rfl, rfl, rfl, .inr ⟨rfl, rfl⟩⟩

theorem appendReply_aside {peer : Fin n} {args : AppendEntriesArgs} {reply : AppendEntriesReply}
    (run : r.appendReply peer args reply = some s) : Aside r s :=
  (appendReply_answered run).aside

theorem start_aside (r : Raft n) (command : Str) : Aside r (r.start command).1 := by
  rw [start]
  split <;> exact ⟨rfl, rfl, rfl, .inr ⟨rfl, rfl⟩⟩

theorem sendInstallSnapShot_aside {peer : Fin n} {args : InstallSnapShotArgs}
    (run : r.sendInstallSnapShot = some (s, peer, args)) : Aside r s := by
  obtain ⟨⟨p, t⟩, taken, done⟩ := Option.map_eq_some_iff.mp run
  obtain ⟨flags, exist, rfl⟩ := takePeer_flags taken
  cases done
  rw [readSnapShot]
  cases r.snapFile <;> exact ⟨rfl, rfl, rfl, .inr ⟨rfl, rfl⟩⟩

theorem installReply_aside {peer : Fin n} {args : InstallSnapShotArgs}
    {reply : InstallSnapSHotReply} (run : r.installReply peer args reply = some s) :
    Aside r s :=
  (installReply_answered run).aside

theorem installSnapShot_aside {args : InstallSnapShotArgs} {reply : InstallSnapSHotReply}
    {push : Bool} (run : r.installSnapShot args = some (s, reply, push)) : Aside r s := by
  simp only [installSnapShot] at run
  split at run
  · cases run
    exact .refl r
  · obtain ⟨peer, votes, turn, follower⟩ := enterTerm_aside r args.term
    split at run
    · cases run
      exact ⟨peer, votes, turn, .inl follower⟩
    · obtain ⟨logs, -, done⟩ := Option.map_eq_some_iff.mp run
      cases done
      exact ⟨peer, votes, turn, .inl follower⟩

theorem installSnapShotTokvServer_aside (r : Raft n) :
    Aside r r.installSnapShotTokvServer.1 := by
  rw [installSnapShotTokvServer, readSnapShot]
  cases r.snapFile <;> exact ⟨rfl, rfl, rfl, .inr ⟨rfl, rfl⟩⟩

theorem recvSnapShot_aside {snapShot : Str} {index : Int}
    (run : r.recvSnapShot snapShot index = some s) : Aside r s := by
  rw [recvSnapShot] at run
  split at run
  · cases run
    exact ⟨rfl, rfl, rfl, .inr ⟨rfl, rfl⟩⟩
  · obtain ⟨e, -, rfl⟩ := Option.map_eq_some_iff.mp run
    exact ⟨rfl, rfl, rfl, .inr ⟨rfl, rfl⟩⟩

theorem applyLog_aside {msgs : List ApplyMsg} (run : r.applyLog = some (s, msgs)) :
    Aside r s := by
  rw [collectMsgs_applied run]
  exact ⟨rfl, rfl, rfl, .inr ⟨rfl, rfl⟩⟩

end Raft

def Action.Electing : Action n → Prop
  | .electionStart | .electionWake | .callRequestVote _ | .voteReply _ _ _ => True
  | _ => False

theorem Process.step_aside {p q : Process n} {a : Action n} {o : Output n}
    (apart : ¬ a.Electing) (next : p.step a = some (q, o)) :
    Raft.Aside p.raft q.raft ∧ q.voteThreads = p.voteThreads ∧ q.voteCalls = p.voteCalls := by
  cases Process.ran_of_step next with
  | electionStart => exact absurd trivial apart
  | electionWake => exact absurd trivial apart
  | callRequestVote => exact absurd trivial apart
  | voteReply => exact absurd trivial apart
  | requestVote => exact ⟨Raft.requestVote_aside _ _, rfl, rfl⟩
  | processEntries run => exact ⟨Raft.processEntries_aside run, rfl, rfl⟩
  | sendAppendEntries thread run => exact ⟨Raft.sendAppendEntries_aside run, rfl, rfl⟩
  | appendEntries run => exact ⟨Raft.appendEntries_aside run, rfl, rfl⟩
  | appendReply call run => exact ⟨Raft.appendReply_aside run, rfl, rfl⟩
  | sendInstallSnapShot thread run => exact ⟨Raft.sendInstallSnapShot_aside run, rfl, rfl⟩
  | installSnapShot run => exact ⟨Raft.installSnapShot_aside run, rfl, rfl⟩
  | installReply call run => exact ⟨Raft.installReply_aside run, rfl, rfl⟩
  | installSnapShotTokvServer waits => exact ⟨Raft.installSnapShotTokvServer_aside _, rfl, rfl⟩
  | start => exact ⟨Raft.start_aside _ _, rfl, rfl⟩
  | applyLog run => exact ⟨Raft.applyLog_aside run, rfl, rfl⟩
  | recvSnapShot run => exact ⟨Raft.recvSnapShot_aside run, rfl, rfl⟩

/-! ### Asking each peer once -/

def rank (self peer : Fin n) : Nat := if peer.val < self.val then peer.val else peer.val - 1

def turnOf (self : Fin n) (count : Nat) : Nat := if count ≤ self.val then count else count + 1

theorem nextPeer_turn (self : Fin n) (count : Nat) :
    (Raft.nextPeer n self (turnOf self count)).1 ≠ self.val ∧
      (∀ peer : Fin n, peer.val = (Raft.nextPeer n self (turnOf self count)).1 →
        rank self peer = count) ∧
      (count + 1 < n - 1 →
        (Raft.nextPeer n self (turnOf self count)).2 = turnOf self (count + 1)) := by
  have small := self.isLt
  have chosen : (Raft.nextPeer n self (turnOf self count)).1 =
      if count < self.val then count else count + 1 := by
    simp only [Raft.nextPeer, turnOf]
    split_ifs <;> omega
  have following : (Raft.nextPeer n self (turnOf self count)).2 =
      if (Raft.nextPeer n self (turnOf self count)).1 + 1 = n ∨
          ((Raft.nextPeer n self (turnOf self count)).1 + 1 = n - 1 ∧
            self.val = (Raft.nextPeer n self (turnOf self count)).1 + 1) then 0
      else (Raft.nextPeer n self (turnOf self count)).1 + 1 := rfl
  by_cases low : count < self.val
  · rw [if_pos low] at chosen
    rw [following, chosen]
    refine ⟨by omega, fun peer taken => ?_, fun later => ?_⟩
    · rw [rank, taken, if_pos low]
    · rw [if_neg (by omega), turnOf, if_pos (by omega)]
  · rw [if_neg low] at chosen
    rw [following, chosen]
    refine ⟨by omega, fun peer taken => ?_, fun later => ?_⟩
    · rw [rank, taken, if_neg (by omega)]
      omega
    · rw [if_neg (by omega), turnOf, if_neg (by omega)]

/-! ### The canvass of the last election -/

/-- The sections of an election stay with it: a thread asks in the term it was created in, a
candidate counts a grant of its own term, and the step-down reads no erased vote. -/
def Action.Counted (r : Raft n) : Action n → Prop
  | .callRequestVote born => born = r.curTerm
  | .voteReply _ args reply =>
    if reply.term > r.curTerm then r.file.voteErased = false
    else r.state = .CANDIDATE → reply.voteGranted → args.term = r.curTerm
  | _ => True

instance (r : Raft n) (a : Action n) : Decidable (a.Counted r) := by
  rcases a <;> (unfold Action.Counted; infer_instance)

def openPeers (T : Int) (p : Process n) : List (Fin n) :=
  (p.voteCalls.filter fun call => call.2.term = T).map Prod.fst

/-- How many threads of the election of term `T` have made their call. -/
def callsMade (T : Int) (p : Process n) : Nat := n - 1 - p.voteThreads.count T

/-- The last election of node `i` was in term `T`; `supports` are those of all nodes. -/
structure Canvass (i : Fin n) (supports : Fin n → List (Int × Int)) (p : Process n) (T : Int) :
    Prop where
  peer : p.raft.peerId = i
  reached : T ≤ p.raft.curTerm
  saved : ∀ record, p.raft.file.saved = some record → T ≤ record.curTerm
  threads : ∀ born ∈ p.voteThreads, born ≤ T
  calls : ∀ call ∈ p.voteCalls, call.2.term ≤ T
  fewer : p.voteThreads.count T ≤ n - 1
  turn : callsMade T p < n - 1 → p.raft.curPeerId = turnOf i (callsMade T p)
  asked : ∀ v ∈ openPeers T p, v ≠ i ∧ rank i v < callsMade T p
  distinct : (openPeers T p).Nodup
  candidate : p.raft.state = .CANDIDATE → p.raft.curTerm = T ∧ (T, (i.val : Int)) ∈ supports i ∧
    ∃ voters : List (Fin n), p.raft.recvVotes = voters.length + 1 ∧
      (openPeers T p ++ voters).Nodup ∧
      ∀ v ∈ voters, v ≠ i ∧ rank i v < callsMade T p ∧ (T, (i.val : Int)) ∈ supports v

variable {i : Fin n} {supports supports' : Fin n → List (Int × Int)} {p q : Process n} {T : Int}
  {a : Action n} {o : Output n}

theorem Canvass.boot (atomic : Bool) (i : Fin n) :
    Canvass i supports (Process.boot atomic i) 0 := by
  refine ⟨rfl, le_refl 0, nofun, nofun, nofun, Nat.zero_le _, ?_, nofun, List.nodup_nil, nofun⟩
  intro more
  exact absurd more (Nat.lt_irrefl _)

theorem Canvass.mono (canvass : Canvass i supports p T) (more : ∀ v, supports v ⊆ supports' v) :
    Canvass i supports' p T := by
  refine { canvass with candidate := fun running => ?_ }
  obtain ⟨term, own, voters, count, distinct, backed⟩ := canvass.candidate running
  refine ⟨term, more i own, voters, count, distinct, fun v member => ?_⟩
  obtain ⟨other, early, support⟩ := backed v member
  exact ⟨other, early, more v support⟩

theorem Canvass.aside (canvass : Canvass i supports p T) (apart : ¬ a.Electing)
    (keeps : ¬ a.Reloads p.raft) (next : p.step a = some (q, o)) : Canvass i supports q T := by
  have ballot := Process.step_ballot keeps next
  obtain ⟨aside, threads, calls⟩ := Process.step_aside apart next
  have made : callsMade T q = callsMade T p := by rw [callsMade, callsMade, threads]
  have opens : openPeers T q = openPeers T p := by rw [openPeers, openPeers, calls]
  refine ⟨aside.peer.trans canvass.peer, canvass.reached.trans ballot.term,
    ballot.saved_from canvass.reached canvass.saved, ?_, ?_, ?_, ?_, ?_, ?_, ?_⟩
  · rw [threads]
    exact canvass.threads
  · rw [calls]
    exact canvass.calls
  · rw [threads]
    exact canvass.fewer
  · rw [made, aside.next]
    exact canvass.turn
  · rw [made, opens]
    exact canvass.asked
  · rw [opens]
    exact canvass.distinct
  · intro running
    cases aside.state with
    | inl stepped =>
      rw [stepped] at running
      cases running
    | inr kept =>
      rw [kept.1] at running
      rw [kept.2, aside.votes, made, opens]
      exact canvass.candidate running

theorem Canvass.electionStart (canvass : Canvass i supports p T)
    (next : p.step .electionStart = some (q, o))
    (own : (q.raft.curTerm, (i.val : Int)) ∈ supports i) :
    Canvass i supports q q.raft.curTerm := by
  cases Process.ran_of_step next with
  | @electionStart r idle run =>
    have peer : r.peerId = p.raft.peerId := by
      rw [Raft.electionStart] at run
      split at run <;> cases run
      rfl
    have fresh : r.curTerm = p.raft.curTerm + 1 ∧ r.recvVotes = 1 ∧ r.curPeerId = 0 ∧
        ∀ record, r.file.saved = some record → record.curTerm = r.curTerm := by
      rw [Raft.electionStart] at run
      split at run <;> cases run
      refine ⟨rfl, rfl, rfl, ?_⟩
      rintro record ⟨⟩
      rfl
    obtain ⟨term, votes, turn, saved⟩ := fresh
    have reached := canvass.reached
    have noThread : p.voteThreads.count r.curTerm = 0 := by
      rw [List.count_eq_zero]
      intro born
      have le := canvass.threads _ born
      omega
    have allThreads :
        (p.voteThreads ++ List.replicate (n - 1) r.curTerm).count r.curTerm = n - 1 := by
      rw [List.count_append, noThread, List.count_replicate_self, Nat.zero_add]
    have made : callsMade r.curTerm
        { p with
          raft := r
          electing := true
          voteThreads := p.voteThreads ++ List.replicate (n - 1) r.curTerm } = 0 := by
      rw [callsMade, allThreads, Nat.sub_self]
    have opens : openPeers r.curTerm
        { p with
          raft := r
          electing := true
          voteThreads := p.voteThreads ++ List.replicate (n - 1) r.curTerm } = [] := by
      rw [openPeers, List.map_eq_nil_iff, List.filter_eq_nil_iff]
      intro call member same
      have le := canvass.calls call member
      have equal : call.2.term = r.curTerm := of_decide_eq_true same
      omega
    refine ⟨peer.trans canvass.peer, le_refl _, fun record found => le_of_eq (saved record found).symm,
      ?_, ?_, le_of_eq allThreads, ?_, ?_, ?_, ?_⟩
    · intro born member
      cases List.mem_append.mp member with
      | inl old =>
        have le := canvass.threads born old
        exact show born ≤ r.curTerm by omega
      | inr new => exact le_of_eq (List.eq_of_mem_replicate new)
    · intro call member
      have le := canvass.calls call member
      exact show call.2.term ≤ r.curTerm by omega
    · intro _
      rw [made]
      exact turn.trans (if_pos (Nat.zero_le _)).symm
    · rw [opens]
      exact fun _ member => by cases member
    · rw [opens]
      exact List.nodup_nil
    · intro _
      refine ⟨rfl, own, [], votes, ?_, fun _ member => by cases member⟩
      rw [opens]
      exact List.nodup_nil

theorem Canvass.electionWake (canvass : Canvass i supports p T)
    (next : p.step .electionWake = some (q, o)) : Canvass i supports q T := by
  cases Process.ran_of_step next with
  | @electionWake r waits run =>
    rw [Raft.electionWake] at run
    split at run
    · cases run
    · split at run
      · cases run
        exact { canvass with }
      · split at run
        · cases run
          exact { canvass with candidate := fun same => by cases same }
        · cases run
          exact { canvass with }

theorem Raft.callRequestVote_takes {r s : Raft n} {peer : Fin n} {args : RequestVoteArgs}
    (run : r.callRequestVote = some (s, peer, args)) :
    peer.val = (Raft.nextPeer n r.peerId r.curPeerId).1 ∧ args.term = r.curTerm ∧
      s = { r with curPeerId := (Raft.nextPeer n r.peerId r.curPeerId).2 } := by
  simp only [Raft.callRequestVote] at run
  split at run <;> cases run
  exact ⟨rfl, rfl, rfl⟩

theorem Canvass.callRequestVote (canvass : Canvass i supports p T) {born : Int}
    (current : born = p.raft.curTerm) (next : p.step (.callRequestVote born) = some (q, o)) :
    Canvass i supports q T := by
  cases Process.ran_of_step next with
  | @callRequestVote _ r peer args thread run =>
    obtain ⟨taken, asks, rfl⟩ := Raft.callRequestVote_takes run
    rw [canvass.peer] at taken
    have term : p.raft.curTerm = T :=
      le_antisymm (current ▸ canvass.threads born thread) canvass.reached
    have bornT : born = T := current.trans term
    have waiting : 0 < p.voteThreads.count T := by
      rw [← bornT]
      exact List.count_pos_iff.mpr thread
    have fewer := canvass.fewer
    have more : callsMade T p < n - 1 := by
      rw [callsMade]
      omega
    have turn := canvass.turn more
    obtain ⟨other, ranked, following⟩ := nextPeer_turn i (callsMade T p)
    rw [← turn] at other ranked following
    have fresh := ranked peer taken
    have erased : (p.voteThreads.erase born).count T = p.voteThreads.count T - 1 := by
      rw [bornT, List.count_erase_self]
    let q : Process n := { p with
      raft := { p.raft with curPeerId := (Raft.nextPeer n p.raft.peerId p.raft.curPeerId).2 }
      voteThreads := p.voteThreads.erase born
      voteCalls := (peer, args) :: p.voteCalls }
    have made : callsMade T q = callsMade T p + 1 := by
      rw [callsMade, callsMade, show q.voteThreads.count T = p.voteThreads.count T - 1 from erased]
      omega
    have opens : openPeers T q = peer :: openPeers T p := by
      have same : args.term = T := asks.trans term
      rw [openPeers, openPeers]
      simp [q, same]
    have apart : peer ≠ i := by
      rintro rfl
      exact other taken.symm
    have unasked : ∀ v, rank i v < callsMade T p → v ≠ peer := by
      rintro v early rfl
      omega
    refine ⟨canvass.peer, canvass.reached, canvass.saved, ?_, ?_, ?_, ?_, ?_, ?_, ?_⟩
    · exact fun b member => canvass.threads b (List.mem_of_mem_erase member)
    · intro call member
      cases List.mem_cons.mp member with
      | inl new =>
        rw [new]
        exact le_of_eq (asks.trans term)
      | inr old => exact canvass.calls call old
    · rw [erased]
      omega
    · rw [show callsMade T _ = _ from made]
      intro later
      have next := following later
      rw [← canvass.peer] at next
      rw [← canvass.peer]
      exact next
    · rw [show callsMade T _ = _ from made, show openPeers T _ = _ from opens]
      intro v member
      cases List.mem_cons.mp member with
      | inl new =>
        rw [new]
        exact ⟨apart, by omega⟩
      | inr old =>
        obtain ⟨away, early⟩ := canvass.asked v old
        exact ⟨away, by omega⟩
    · rw [show openPeers T _ = _ from opens]
      refine List.nodup_cons.mpr ⟨fun again => ?_, canvass.distinct⟩
      exact unasked peer (canvass.asked peer again).2 rfl
    · intro running
      obtain ⟨sameTerm, own, voters, count, distinct, backed⟩ := canvass.candidate running
      rw [show callsMade T _ = _ from made, show openPeers T _ = _ from opens]
      refine ⟨sameTerm, own, voters, count, ?_, fun v member => ?_⟩
      · refine List.nodup_cons.mpr ⟨fun again => ?_, distinct⟩
        cases List.mem_append.mp again with
        | inl open_ => exact unasked peer (canvass.asked peer open_).2 rfl
        | inr voter => exact unasked peer (backed peer voter).2.1 rfl
      · obtain ⟨away, early, support⟩ := backed v member
        exact ⟨away, by omega, support⟩

theorem Canvass.voteReply (canvass : Canvass i supports p T) (behind : FileBehind p)
    {peer : Fin n} {args : RequestVoteArgs} {reply : RequestVoteReply}
    (counted : Action.Counted p.raft (.voteReply peer args reply))
    (granted : reply.voteGranted → (args.term, (i.val : Int)) ∈ supports peer)
    (next : p.step (.voteReply peer args reply) = some (q, o)) : Canvass i supports q T := by
  cases Process.ran_of_step next with
  | @voteReply r _ _ _ call run =>
    have callsLeft : ∀ c ∈ p.voteCalls.erase (peer, args), c.2.term ≤ T :=
      fun c member => canvass.calls c (List.mem_of_mem_erase member)
    have opensLeft :
        (openPeers T { p with raft := r, voteCalls := p.voteCalls.erase (peer, args) }).Sublist
        (openPeers T p) :=
      (List.erase_sublist.filter _).map _
    by_cases higher : reply.term > p.raft.curTerm
    · obtain ⟨file, restored⟩ := Raft.voteReply_reload behind.sound higher run
      have there := behind.present (.inr (List.ne_nil_of_mem call))
      obtain ⟨record, found, term, -⟩ := restored.resolve_left there
      simp only [Raft.voteReply, if_pos higher] at run
      obtain ⟨peerId, turn, state⟩ : r.peerId = p.raft.peerId ∧ r.curPeerId = p.raft.curPeerId ∧
          r.state = .FOLLOWER := by
        rw [Raft.readRaftState] at run
        split at run
        · cases run
          exact ⟨rfl, rfl, rfl⟩
        · obtain ⟨record, -, rfl⟩ := Option.map_eq_some_iff.mp run
          exact ⟨rfl, rfl, rfl⟩
      refine ⟨peerId.trans canvass.peer, ?_, ?_, canvass.threads, callsLeft, canvass.fewer, ?_,
        ?_, ?_, ?_⟩
      · exact (canvass.saved record found).trans (le_of_eq term.symm)
      · rw [file]
        exact canvass.saved
      · rw [turn]
        exact canvass.turn
      · exact fun v member => canvass.asked v (opensLeft.subset member)
      · exact canvass.distinct.sublist opensLeft
      · rw [state]
        exact fun same => by cases same
    · simp only [Raft.voteReply, if_neg higher] at run
      split at run
      · rename_i grant
        cases run
        refine ⟨canvass.peer, canvass.reached, canvass.saved, canvass.threads, callsLeft, canvass.fewer,
          canvass.turn, fun v member => canvass.asked v (opensLeft.subset member),
          canvass.distinct.sublist opensLeft, fun running => ?_⟩
        obtain ⟨term, own, voters, count, distinct, backed⟩ := canvass.candidate running
        rw [Action.Counted, if_neg higher] at counted
        have sameTerm : args.term = T := (counted running grant).trans term
        -- the answered call leaves the open ones and its peer joins the voters
        have answered : (openPeers T p).Perm (peer ::
            openPeers T { p with voteCalls := p.voteCalls.erase (peer, args) }) := by
          have moved := ((List.perm_cons_erase call).filter fun c => c.2.term = T).map Prod.fst
          simp only [List.filter_cons, sameTerm, decide_true, if_true, List.map_cons] at moved
          exact moved
        have wasOpen : peer ∈ openPeers T p := answered.mem_iff.mpr List.mem_cons_self
        refine ⟨term, own, peer :: voters, congrArg (· + 1) count, ?_, fun v member => ?_⟩
        · have shifted := (answered.append_right voters).trans List.perm_middle.symm
          exact shifted.nodup distinct
        · cases List.mem_cons.mp member with
          | inl new =>
            rw [new]
            obtain ⟨away, early⟩ := canvass.asked peer wasOpen
            exact ⟨away, early, sameTerm ▸ granted grant⟩
          | inr old => exact backed v old
      · cases run
        refine ⟨canvass.peer, canvass.reached, canvass.saved, canvass.threads, callsLeft, canvass.fewer,
          canvass.turn, fun v member => canvass.asked v (opensLeft.subset member),
          canvass.distinct.sublist opensLeft, fun running => ?_⟩
        obtain ⟨term, own, voters, count, distinct, backed⟩ := canvass.candidate running
        exact ⟨term, own, voters, count,
          distinct.sublist (opensLeft.append (List.Sublist.refl voters)), backed⟩

theorem Canvass.act (canvass : Canvass i supports p T) (behind : FileBehind p)
    (counted : a.Counted p.raft)
    (granted : ∀ peer args reply, a = .voteReply peer args reply → reply.voteGranted →
      (args.term, (i.val : Int)) ∈ supports peer)
    (more : ∀ v, supports v ⊆ supports' v)
    (given : ∀ support, supportOf a o q.raft = some support → support ∈ supports' i)
    (next : p.step a = some (q, o)) : ∃ T', Canvass i supports' q T' := by
  by_cases electing : a.Electing
  · cases a with
    | electionStart =>
      have peer : q.raft.peerId = p.raft.peerId := by
        cases Process.ran_of_step next with
        | electionStart idle run =>
          rw [Raft.electionStart] at run
          split at run <;> cases run
          rfl
      have own := given _ rfl
      rw [Raft.id, peer, canvass.peer] at own
      exact ⟨_, (canvass.mono more).electionStart next own⟩
    | electionWake => exact ⟨T, (canvass.mono more).electionWake next⟩
    | callRequestVote born => exact ⟨T, (canvass.mono more).callRequestVote counted next⟩
    | voteReply peer args reply =>
      exact ⟨T, (canvass.voteReply behind counted (granted _ _ _ rfl) next).mono more⟩
    | _ => exact electing.elim
  · have keeps : ¬ a.Reloads p.raft := by
      cases a with
      | voteReply peer args reply => exact absurd trivial electing
      | _ => exact id
    exact ⟨T, (canvass.mono more).aside electing keeps next⟩

end ProjectsCpp.KvRaft
