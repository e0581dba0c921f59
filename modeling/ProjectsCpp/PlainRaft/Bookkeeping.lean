import ProjectsCpp.PlainRaft.Node
import ProjectsCpp.Lib.Run

/-! The indices that a leader keeps for its peers, over runs in which heartbeat rounds
overlap and answers arrive in any order, also after the node has lost and regained
leadership. Votes and vote requests come from anywhere. The indices stay in range as long as
every answer that is counted has not been counted before and still fits the leader's log. -/

namespace ProjectsCpp.PlainRaft
open ProjectsCpp.Text ProjectsCpp.KvRaft ProjectsCpp.Run

/-- One `sendAppendEntries` thread between its two locked parts. -/
structure Call (n : Nat) where
  leader : Fin n
  peer : Fin n
  args : AppendEntriesArgs
  reply : Option AppendEntriesReply

/-- `threads` counts the `sendAppendEntries` threads that have not read their node yet. -/
structure Cluster (n : Nat) where
  nodes : Fin n → Raft n
  threads : Fin n → Nat
  calls : List (Call n)

inductive Event (n : Nat) where
  | start (i : Fin n) (command : Str)
  | attemptElection (i : Fin n)
  | becomeLeader (i : Fin n)
  | voteReply (i : Fin n) (reply : RequestVoteReply) (saved : Option Saved)
  | requestVote (i : Fin n) (term : Int)
  | grantVote (i : Fin n) (candidateId : Int)
  | heartbeat (i : Fin n)
  | send (i : Fin n)
  | receive (k : Nat)
  | reply (k : Nat)

variable {n : Nat}

def Cluster.setNode (s : Cluster n) (i : Fin n) (r : Raft n) : Cluster n :=
  { s with nodes := Function.update s.nodes i r }

theorem Cluster.setNode_self (s : Cluster n) (i : Fin n) (r : Raft n) :
    (s.setNode i r).nodes i = r := Function.update_self ..

theorem Cluster.setNode_of_ne {i j : Fin n} (s : Cluster n) (r : Raft n) (apart : j ≠ i) :
    (s.setNode i r).nodes j = s.nodes j := Function.update_of_ne apart ..

def step (s : Cluster n) : Event n → Option (Cluster n)
  | .start i command => some (s.setNode i ((s.nodes i).start command))
  | .attemptElection i => (s.nodes i).attemptElection.map (s.setNode i)
  | .becomeLeader i => (s.nodes i).becomeLeader.map (s.setNode i)
  | .voteReply i reply saved => some (s.setNode i ((s.nodes i).voteReply reply saved))
  | .requestVote i term => some (s.setNode i ((s.nodes i).requestVote term))
  | .grantVote i candidateId => some (s.setNode i ((s.nodes i).grantVote candidateId))
  | .heartbeat i =>
    if (s.nodes i).state = .LEADER then
      some { s with threads := Function.update s.threads i (s.threads i + (n - 1)) }
    else none
  | .send i =>
    if s.threads i = 0 then none
    else (s.nodes i).sendAppendEntries.map fun (r, peer, args) =>
      { s.setNode i r with
        threads := Function.update s.threads i (s.threads i - 1)
        calls := s.calls ++ [⟨i, peer, args, none⟩] }
  | .receive k => s.calls[k]?.bind fun call =>
    if call.reply = none then
      ((s.nodes call.peer).appendEntries (received call.args)).map fun (r, reply) =>
        { s.setNode call.peer r with calls := s.calls.set k { call with reply := some reply } }
    else none
  | .reply k => s.calls[k]?.bind fun call => call.reply.bind fun reply =>
    ((s.nodes call.leader).appendReply call.peer call.args reply).map fun r =>
      { s.setNode call.leader r with calls := s.calls.eraseIdx k }

def machine (n : Nat) : Machine (Cluster n) (Event n) where
  start := (· = ⟨fun i => Raft.fresh i, fun _ => 0, []⟩)
  step := step

/-! ### The ranges -/

structure InRange (r : Raft n) : Prop where
  next : ∀ p, 1 ≤ r.nextIndex p ∧ r.nextIndex p ≤ r.logs.length + 1
  matched : ∀ p, 0 ≤ r.matchIndex p ∧ r.matchIndex p ≤ r.logs.length

/-- The leader can read the entry before every `m_nextIndex`, and the one of the majority. -/
structure CanRead (r : Raft n) : Prop where
  prev : ∀ p, r.nextIndex p - 1 ≠ 0 → r.entryAt (r.nextIndex p - 1) ≠ none
  majority : r.realMajorityMatchIndex > r.commitIndex → r.entryAt r.realMajorityMatchIndex ≠ none

/-- An answer fits the leader: it makes the leader step down; or it acknowledges entries that
`m_nextIndex` has not passed and that the log still has; or it refuses, and points into the
log. -/
def Fits (r : Raft n) (peer : Fin n) (args : AppendEntriesArgs) (reply : AppendEntriesReply) : Prop :=
  r.curTerm < reply.term ∨
  if reply.success then
    let sent := ((getCmdAndTerm args.sendLogs).getD []).length
    sent = 0 ∨ (r.nextIndex peer ≤ args.prevLogIndex + 1 ∧
      args.prevLogIndex + sent ≤ r.logs.length)
  else if reply.conflictTerm = -1 then
    reply.conflictIndex ≠ -1 ∧ reply.conflictIndex ≤ r.logs.length
  else args.prevLogIndex ≤ r.logs.length

instance (r : Raft n) (peer : Fin n) (args : AppendEntriesArgs) (reply : AppendEntriesReply) :
    Decidable (Fits r peer args reply) := by
  unfold Fits
  infer_instance

def Timely (s : Cluster n) : Event n → Prop
  | .reply k => ∀ call ∈ s.calls[k]?, ∀ reply ∈ call.reply,
    (s.nodes call.leader).state = .LEADER →
      Fits (s.nodes call.leader) call.peer call.args reply
  | _ => True

instance (s : Cluster n) (event : Event n) : Decidable (Timely s event) := by
  unfold Timely
  split <;> infer_instance

/-! ### One node -/

namespace Raft
variable {r s : Raft n} {peer : Fin n} {args : AppendEntriesArgs} {reply : AppendEntriesReply}

structure Good (r : Raft n) : Prop where
  commit : 0 ≤ r.commitIndex
  range : r.state = .LEADER → InRange r

private theorem update_bounds {f : Fin n → Int} {low high v : Int}
    (before : ∀ p, low ≤ f p ∧ f p ≤ high) (new : low ≤ v ∧ v ≤ high) (p : Fin n) :
    low ≤ Function.update f peer v p ∧ Function.update f peer v p ≤ high := by
  by_cases same : p = peer
  · rw [same, Function.update_self]
    exact new
  · rw [Function.update_of_ne same]
    exact before p

theorem entryAt_ne_none {index : Int} (low : 1 ≤ index) (high : index ≤ r.logs.length) :
    r.entryAt index ≠ none := by
  rw [entryAt, if_neg (by omega), List.getElem?_eq_getElem (by omega)]
  exact Option.some_ne_none _

theorem majority_le (range : InRange r) : r.realMajorityMatchIndex ≤ r.logs.length := by
  have positive : n / 2 < ((List.ofFn r.matchIndex).insertionSort (· ≤ ·)).length := by
    have some_ := r.peerId.pos
    rw [List.length_insertionSort, List.length_ofFn]
    omega
  have member : r.realMajorityMatchIndex ∈ (List.ofFn r.matchIndex).insertionSort (· ≤ ·) := by
    rw [realMajorityMatchIndex, List.getD_eq_getElem?_getD, List.getElem?_eq_getElem positive,
      Option.getD_some]
    exact List.getElem_mem positive
  obtain ⟨p, same⟩ := List.mem_ofFn.mp ((List.perm_insertionSort (· ≤ ·) _).subset member)
  rw [← same]
  exact (range.matched p).2

theorem canRead (good : Good r) (range : InRange r) : CanRead r where
  prev := by
    intro p ne
    have next := range.next p
    exact entryAt_ne_none (by omega) (by omega)
  majority := by
    intro above
    have commit := good.commit
    exact entryAt_ne_none (by omega) (majority_le range)

/-! ### What each part does -/

theorem start_good (good : Good r) (command : Str) : Good (r.start command) := by
  rw [start]
  split
  · exact good
  · rename_i leader
    refine ⟨good.commit, fun _ => ⟨fun p => ?_, fun p => ?_⟩⟩
    · have next := (good.range (not_not.mp leader)).next p
      rw [List.length_append, List.length_singleton]
      dsimp only
      omega
    · have matched := (good.range (not_not.mp leader)).matched p
      rw [List.length_append, List.length_singleton]
      dsimp only
      omega

theorem attemptElection_good (good : Good r) (done : r.attemptElection = some s) : Good s := by
  rw [attemptElection] at done
  split at done
  · cases done
  · cases done
    exact ⟨good.commit, fun leader => by cases leader⟩

theorem becomeLeader_good (good : Good r) (done : r.becomeLeader = some s) : Good s := by
  rw [becomeLeader] at done
  split at done
  · cases done
    refine ⟨good.commit, fun _ => ⟨fun _ => ?_, fun _ => ?_⟩⟩
    · dsimp only
      omega
    · dsimp only
      omega
  · cases done

theorem voteReply_good (good : Good r) (reply : RequestVoteReply) (saved : Option Saved) :
    Good (r.voteReply reply saved) := by
  rw [voteReply]
  split
  · cases saved <;> exact ⟨good.commit, fun leader => by cases leader⟩
  · split
    · exact ⟨good.commit, fun leader => ⟨(good.range leader).next, (good.range leader).matched⟩⟩
    · exact ⟨good.commit, fun leader => ⟨(good.range leader).next, (good.range leader).matched⟩⟩

theorem requestVote_good (good : Good r) (term : Int) : Good (r.requestVote term) := by
  rw [requestVote]
  split
  · exact ⟨good.commit, fun leader => by cases leader⟩
  · exact good

theorem grantVote_good (good : Good r) (candidateId : Int) : Good (r.grantVote candidateId) :=
  ⟨good.commit, fun leader => ⟨(good.range leader).next, (good.range leader).matched⟩⟩

theorem takePeer_eq {p : Fin n} (taken : r.takePeer = some (p, s)) :
    s = { r with curPeerId := s.curPeerId } := by
  simp only [takePeer] at taken
  generalize (if r.curPeerId = r.peerId.val then r.curPeerId + 1 else r.curPeerId) = cur at taken
  by_cases inside : cur < n
  · rw [dif_pos inside, Option.some.injEq, Prod.mk.injEq] at taken
    rw [← taken.2]
  · rw [dif_neg inside] at taken
    cases taken

theorem sendAppendEntries_good (good : Good r)
    (built : r.sendAppendEntries = some (s, peer, args)) : Good s := by
  obtain ⟨⟨p, t⟩, taken, built⟩ := Option.bind_eq_some_iff.mp built
  obtain ⟨prevLogTerm, -, same⟩ := Option.map_eq_some_iff.mp built
  have kept := takePeer_eq taken
  cases same
  rw [kept]
  exact ⟨good.commit, fun leader => ⟨(good.range leader).next, (good.range leader).matched⟩⟩

theorem commitUpTo_good (good : Good r) (leaderCommit : Int) : Good (r.commitUpTo leaderCommit) := by
  have commit := good.commit
  rw [commitUpTo]
  split
  · refine ⟨?_, fun leader => ⟨(good.range leader).next, (good.range leader).matched⟩⟩
    dsimp only
    omega
  · exact good

/-- An answer as `appendEntries` makes it. -/
def Answered (args : AppendEntriesArgs) (reply : AppendEntriesReply) : Prop :=
  reply.success = true ∨
  (reply.conflictTerm = -1 ∧ (reply.conflictIndex = -1 ∨ 0 ≤ reply.conflictIndex)) ∨
  (1 ≤ reply.conflictIndex ∧ reply.conflictIndex ≤ args.prevLogIndex)

theorem firstIndexOfTerm_bounds {logs : List LogEntry} {e : LogEntry} {index : Nat}
    (entry : logs[index]? = some e) :
    1 ≤ firstIndexOfTerm logs e.term (index + 1) ∧
      firstIndexOfTerm logs e.term (index + 1) ≤ index + 1 := by
  rw [firstIndexOfTerm]
  cases found : (logs.take (index + 1)).findIdx? fun x => decide (x.term = e.term) with
  | none =>
    have member : e ∈ logs.take (index + 1) := by
      apply List.mem_of_getElem?
      rw [List.getElem?_take_of_lt (Nat.lt_succ_self index)]
      exact entry
    have differ := List.findIdx?_eq_none_iff.mp found e member
    simp at differ
  | some i =>
    have bound := (List.findIdx?_eq_some_iff_findIdx_eq.mp found).1
    rw [List.length_take] at bound
    dsimp only
    omega

theorem appendEntries_good (good : Good r)
    (done : r.appendEntries args = some (s, reply)) : Good s ∧ Answered args reply := by
  obtain ⟨recvLog, -, done⟩ := Option.bind_eq_some_iff.mp done
  have follower : ∀ logs, Good { r.enterTerm args.term with logs := logs } := fun logs =>
    ⟨good.commit, fun leader => by cases leader⟩
  split at done
  · cases done
    exact ⟨good, .inr (.inl ⟨rfl, .inl rfl⟩)⟩
  · dsimp only at done
    split at done
    · cases done
      exact ⟨commitUpTo_good (follower _) _, .inl rfl⟩
    · obtain ⟨checked, check, done⟩ := Option.map_eq_some_iff.mp done
      cases checked with
      | none =>
        cases done
        exact ⟨commitUpTo_good (follower _) _, .inl rfl⟩
      | some refusal =>
        cases done
        refine ⟨follower r.logs, ?_⟩
        rw [checkPrevLog] at check
        split at check
        · cases check
          exact .inr (.inl ⟨rfl, .inr (Int.natCast_nonneg _)⟩)
        · split at check
          · rename_i positive
            obtain ⟨e, entry, check⟩ := Option.map_eq_some_iff.mp check
            split at check
            · cases check
              right
              right
              rw [entryAt, if_neg (by omega)] at entry
              have bounds := firstIndexOfTerm_bounds entry
              have index : (args.prevLogIndex - 1).toNat + 1 = args.prevLogIndex.toNat := by omega
              rw [index] at bounds
              dsimp only
              omega
            · cases check
          · cases check

theorem lastIndexOfTerm_bounds {term index : Int} {count : Nat}
    (found : r.lastIndexOfTerm term count = some index) :
    index = -1 ∨ (1 ≤ index ∧ index ≤ count) := by
  induction count with
  | zero =>
    cases found
    exact .inl rfl
  | succ count ih =>
    obtain ⟨e, -, found⟩ := Option.bind_eq_some_iff.mp found
    split at found
    · cases found
      right
      omega
    · rcases ih found with none | ⟨low, high⟩
      · exact .inl none
      · right
        omega

theorem exists_lastIndexOfTerm (term : Int) {count : Nat} (inside : count ≤ r.logs.length) :
    ∃ index, r.lastIndexOfTerm term count = some index := by
  induction count with
  | zero => exact ⟨-1, rfl⟩
  | succ count ih =>
    obtain ⟨e, entry⟩ := Option.ne_none_iff_exists'.mp
      (entryAt_ne_none (r := r) (show (1 : Int) ≤ count + 1 by omega) (by omega))
    rw [lastIndexOfTerm, entry, Option.bind_some]
    split
    · exact ⟨_, rfl⟩
    · exact ih (by omega)

theorem setNextIndex_inRange (range : InRange r) {index : Int} (low : 1 ≤ index)
    (high : index ≤ r.logs.length + 1) : InRange (r.setNextIndex peer index) :=
  ⟨update_bounds range.next ⟨low, high⟩, range.matched⟩

theorem setMatchIndex_inRange (range : InRange r) {index : Int} (low : 0 ≤ index)
    (high : index ≤ r.logs.length) : InRange (r.setMatchIndex peer index) :=
  ⟨range.next, update_bounds range.matched ⟨low, high⟩⟩

theorem advanceCommit_good (commit : 0 ≤ r.commitIndex) (range : InRange r) :
    ∃ s, r.advanceCommit = some s ∧ Good s := by
  have read := (canRead ⟨commit, fun _ => range⟩ range).majority
  rw [advanceCommit]
  by_cases above : r.realMajorityMatchIndex > r.commitIndex
  · obtain ⟨e, entry⟩ := Option.ne_none_iff_exists'.mp (read above)
    rw [if_pos above, entry, Option.map_some]
    refine ⟨_, rfl, ?_⟩
    split
    · exact ⟨by dsimp only; omega, fun _ => ⟨range.next, range.matched⟩⟩
    · exact ⟨commit, fun _ => range⟩
  · rw [if_neg above]
    exact ⟨r, rfl, commit, fun _ => range⟩

theorem appendReply_good (good : Good r) (range : InRange r) (answered : Answered args reply)
    (fits : Fits r peer args reply)
    (readable : reply.term ≤ r.curTerm → reply.success = true → getCmdAndTerm args.sendLogs ≠ none) :
    ∃ s, r.appendReply peer args reply = some s ∧ Good s := by
  rw [appendReply]
  by_cases higher : reply.term > r.curTerm
  · rw [if_pos higher]
    exact ⟨_, rfl, good.commit, fun leader => by cases leader⟩
  · rw [if_neg higher]
    have fits := fits.resolve_left higher
    by_cases success : reply.success = true
    · rw [if_pos success] at fits ⊢
      obtain ⟨sent, read⟩ := Option.ne_none_iff_exists'.mp (readable (not_lt.mp higher) success)
      rw [read, Option.getD_some] at fits
      have next := range.next peer
      have inside : r.nextIndex peer + sent.length ≤ r.logs.length + 1 := by
        rcases fits with none | ⟨fresh, room⟩
        · omega
        · omega
      rw [countReply, read, Option.map_some, Option.bind_some]
      have advanced : InRange (r.setNextIndex peer (r.nextIndex peer + sent.length)) :=
        setNextIndex_inRange range (by omega) inside
      have room : r.nextIndex peer + sent.length - 1 ≤ (r.logs.length : Int) := by omega
      exact advanceCommit_good good.commit (setMatchIndex_inRange advanced (by omega) room)
    · rw [if_neg success] at fits ⊢
      have answered := answered.resolve_left success
      rw [backOff]
      by_cases open_ : reply.conflictTerm = -1
      · rw [if_pos open_] at fits
        rw [if_neg (not_not.mpr open_)]
        have low : 0 ≤ reply.conflictIndex := by
          rcases answered with ⟨-, none | low⟩ | ⟨low, -⟩
          · exact absurd none fits.1
          · exact low
          · omega
        have room : reply.conflictIndex + 1 ≤ (r.logs.length : Int) + 1 := by omega
        exact ⟨_, rfl, good.commit, fun _ => setNextIndex_inRange range (by omega) room⟩
      · rw [if_neg open_] at fits
        rw [if_pos open_]
        have bounds := answered.resolve_left fun h => open_ h.1
        obtain ⟨index, found⟩ := exists_lastIndexOfTerm (r := r) reply.conflictTerm
          (show args.prevLogIndex.toNat ≤ r.logs.length by omega)
        rw [found, Option.map_some]
        by_cases none : index = -1
        · rw [if_neg (not_not.mpr none)]
          have room : reply.conflictIndex ≤ (r.logs.length : Int) + 1 := by omega
          exact ⟨_, rfl, good.commit, fun _ => setNextIndex_inRange range (by omega) room⟩
        · have inside := (lastIndexOfTerm_bounds found).resolve_left none
          rw [if_pos none]
          have room : index + 1 ≤ (r.logs.length : Int) + 1 := by omega
          exact ⟨_, rfl, good.commit, fun _ => setNextIndex_inRange range (by omega) room⟩

theorem appendReply_frame (done : r.appendReply peer args reply = some s) :
    (s.state = .LEADER → r.state = .LEADER) ∧ r.commitIndex ≤ s.commitIndex ∧
      (reply.term ≤ r.curTerm → reply.success = true → getCmdAndTerm args.sendLogs ≠ none) := by
  rw [appendReply] at done
  split at done
  · rename_i higher
    cases done
    exact ⟨fun leader => (by cases leader), le_refl _, fun low => absurd higher (not_lt.mpr low)⟩
  · split at done
    · obtain ⟨t, counted, done⟩ := Option.bind_eq_some_iff.mp done
      obtain ⟨sent, read, rfl⟩ := Option.map_eq_some_iff.mp counted
      have readable : getCmdAndTerm args.sendLogs ≠ none := by
        rw [read]
        exact Option.some_ne_none _
      rw [advanceCommit] at done
      split at done
      · rename_i above
        obtain ⟨e, -, rfl⟩ := Option.map_eq_some_iff.mp done
        split
        · exact ⟨id, le_of_lt above, fun _ _ => readable⟩
        · exact ⟨id, le_refl _, fun _ _ => readable⟩
      · cases done
        exact ⟨id, le_refl _, fun _ _ => readable⟩
    · rename_i refused
      have frame : (s.state = .LEADER → r.state = .LEADER) ∧ r.commitIndex ≤ s.commitIndex := by
        rw [backOff] at done
        split at done
        · obtain ⟨index, -, rfl⟩ := Option.map_eq_some_iff.mp done
          split
          · exact ⟨id, le_refl _⟩
          · exact ⟨id, le_refl _⟩
        · cases done
          exact ⟨id, le_refl _⟩
      exact ⟨frame.1, frame.2, fun _ success => absurd success refused⟩

end Raft

/-! ### Runs -/

structure Sound (s : Cluster n) : Prop where
  node : ∀ i, (s.nodes i).Good
  answered : ∀ call ∈ s.calls, ∀ reply ∈ call.reply, Raft.Answered call.args reply

theorem Sound.setNode {s : Cluster n} (sound : Sound s) {i : Fin n} {r : Raft n} (good : r.Good) :
    Sound (s.setNode i r) where
  node := by
    intro j
    by_cases same : j = i
    · rw [same, Cluster.setNode_self]
      exact good
    · rw [Cluster.setNode_of_ne _ _ same]
      exact sound.node j
  answered := sound.answered

theorem Sound.step {s t : Cluster n} {event : Event n} (sound : Sound s) (timely : Timely s event)
    (next : step s event = some t) : Sound t := by
  cases event with
  | start i command =>
    cases next
    exact sound.setNode (Raft.start_good (sound.node i) command)
  | attemptElection i =>
    obtain ⟨r, done, rfl⟩ := Option.map_eq_some_iff.mp next
    exact sound.setNode (Raft.attemptElection_good (sound.node i) done)
  | becomeLeader i =>
    obtain ⟨r, done, rfl⟩ := Option.map_eq_some_iff.mp next
    exact sound.setNode (Raft.becomeLeader_good (sound.node i) done)
  | voteReply i reply saved =>
    cases next
    exact sound.setNode (Raft.voteReply_good (sound.node i) reply saved)
  | requestVote i term =>
    cases next
    exact sound.setNode (Raft.requestVote_good (sound.node i) term)
  | grantVote i candidateId =>
    cases next
    exact sound.setNode (Raft.grantVote_good (sound.node i) candidateId)
  | heartbeat i =>
    rw [PlainRaft.step] at next
    split at next
    · cases next
      exact ⟨sound.node, sound.answered⟩
    · cases next
  | send i =>
    rw [PlainRaft.step] at next
    split at next
    · cases next
    · obtain ⟨⟨r, peer, args⟩, built, rfl⟩ := Option.map_eq_some_iff.mp next
      have sent : Sound (s.setNode i r) :=
        sound.setNode (Raft.sendAppendEntries_good (sound.node i) built)
      refine ⟨sent.node, fun call member => ?_⟩
      rcases List.mem_append.mp member with old | new
      · exact sound.answered call old
      · rw [List.mem_singleton.mp new]
        exact fun reply none => by cases none
  | receive k =>
    obtain ⟨call, found, next⟩ := Option.bind_eq_some_iff.mp next
    split at next
    · obtain ⟨⟨r, reply⟩, done, rfl⟩ := Option.map_eq_some_iff.mp next
      obtain ⟨good, answered⟩ := Raft.appendEntries_good (sound.node call.peer) done
      have received : Sound (s.setNode call.peer r) := sound.setNode good
      refine ⟨received.node, fun other member => ?_⟩
      rcases List.mem_or_eq_of_mem_set member with old | rfl
      · exact sound.answered other old
      · rintro _ ⟨rfl⟩
        exact answered
    · cases next
  | reply k =>
    obtain ⟨call, found, next⟩ := Option.bind_eq_some_iff.mp next
    obtain ⟨reply, replied, next⟩ := Option.bind_eq_some_iff.mp next
    obtain ⟨r, done, rfl⟩ := Option.map_eq_some_iff.mp next
    have member := List.mem_of_getElem? found
    have answered := sound.answered call member reply replied
    obtain ⟨state, commit, readable⟩ := Raft.appendReply_frame done
    have good : r.Good := by
      by_cases leader : (s.nodes call.leader).state = .LEADER
      · obtain ⟨r', done', good⟩ := Raft.appendReply_good (sound.node call.leader)
          ((sound.node call.leader).range leader) answered
          (timely call found reply replied leader) readable
        cases done.symm.trans done'
        exact good
      · exact ⟨(sound.node call.leader).commit.trans commit, fun now => absurd (state now) leader⟩
    have counted : Sound (s.setNode call.leader r) := sound.setNode good
    exact ⟨counted.node, fun other inside => sound.answered other (List.mem_of_mem_eraseIdx inside)⟩

theorem sound {s : Cluster n} (reach : Reach (machine n) Timely s) : Sound s := by
  refine reach.invariant (fun s init => ?_) fun s event t before timely next =>
    before.step timely next
  cases init
  refine ⟨fun i => ⟨le_refl _, fun leader => by cases leader⟩, fun call member => by cases member⟩

/-- In a run in which every answer that reaches a leader fits, the indices of every leader are in
range, and the entries that it is going to read are there: for the next request to each peer,
and for each answer that fits. -/
theorem leader_indices_in_range {s : Cluster n} (reach : Reach (machine n) Timely s) (i : Fin n)
    (leader : (s.nodes i).state = .LEADER) :
    InRange (s.nodes i) ∧ CanRead (s.nodes i) ∧
    ∀ call ∈ s.calls, call.leader = i → ∀ reply ∈ call.reply,
      Fits (s.nodes i) call.peer call.args reply →
      (reply.success = true → getCmdAndTerm call.args.sendLogs ≠ none) →
      (s.nodes i).appendReply call.peer call.args reply ≠ none := by
  have sound := sound reach
  have range := (sound.node i).range leader
  refine ⟨range, Raft.canRead (sound.node i) range, ?_⟩
  intro call member _ reply replied fits readable
  obtain ⟨r, done, -⟩ := Raft.appendReply_good (sound.node i) range
    (sound.answered call member reply replied) fits fun _ => readable
  rw [done]
  exact Option.some_ne_none _

private def firstLeader : List (Event 3) :=
  [.attemptElection 0, .voteReply 0 ⟨1, true⟩ none, .becomeLeader 0, .start 0 ['a']]

private def twoRounds : List (Event 3) :=
  firstLeader ++ [Event.heartbeat 0, .heartbeat 0, .send 0, .send 0, .send 0, .send 0,
    .receive 0, .receive 1, .receive 2, .receive 3]

theorem overlapping_rounds_leave_range :
    ∃ s : Cluster 3, exec (machine 3) ⟨fun i => Raft.fresh i, fun _ => 0, []⟩
        (twoRounds ++ [.reply 0, .reply 0, .reply 0]) = some s ∧
      (s.nodes 0).state = .LEADER ∧ (s.nodes 0).logs.length = 1 ∧
      (s.nodes 0).nextIndex 1 = 3 ∧ (s.nodes 0).matchIndex 1 = 2 ∧
      step s (.reply 0) = none := by
  have ran : (exec (machine 3) ⟨fun i => Raft.fresh i, fun _ => 0, []⟩
      (twoRounds ++ [Event.reply 0, .reply 0, .reply 0])).any (fun s =>
        (s.nodes 0).state = .LEADER ∧ (s.nodes 0).logs.length = 1 ∧ (s.nodes 0).nextIndex 1 = 3 ∧
          (s.nodes 0).matchIndex 1 = 2 ∧ (step s (.reply 0)).isNone = true) = true := by
    decide +kernel
  obtain ⟨s, done, facts⟩ := (Option.any_eq_true _ _).mp ran
  obtain ⟨leader, length, next, matched, stuck⟩ := of_decide_eq_true facts
  exact ⟨s, done, leader, length, next, matched, Option.isNone_iff_eq_none.mp stuck⟩

theorem leader_indices_in_range_one_round :
    ∃ s : Cluster 3, execWhere (machine 3) Timely ⟨fun i => Raft.fresh i, fun _ => 0, []⟩
        (firstLeader ++ [.heartbeat 0, .send 0, .send 0, .receive 0, .receive 1, .reply 0,
          .reply 0]) = some s ∧
      (s.nodes 0).nextIndex 1 = 2 ∧ InRange (s.nodes 0) ∧ CanRead (s.nodes 0) := by
  have ran : (execWhere (machine 3) Timely ⟨fun i => Raft.fresh i, fun _ => 0, []⟩
      (firstLeader ++ [Event.heartbeat 0, .send 0, .send 0, .receive 0, .receive 1, .reply 0,
        .reply 0])).any (fun s => (s.nodes 0).state = .LEADER ∧ (s.nodes 0).nextIndex 1 = 2) =
      true := by
    decide +kernel
  obtain ⟨s, done, facts⟩ := (Option.any_eq_true _ _).mp ran
  obtain ⟨leader, next⟩ := of_decide_eq_true facts
  have reach := (Reach.start (M := machine 3) rfl).execWhere done
  obtain ⟨range, read, -⟩ := leader_indices_in_range reach 0 leader
  exact ⟨s, done, next, range, read⟩

end ProjectsCpp.PlainRaft
