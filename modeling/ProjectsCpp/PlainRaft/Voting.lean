import ProjectsCpp.PlainRaft.Node
import ProjectsCpp.Lib.Run

/-! One vote per term. `requestVote` gives `m_lock` back to look at the log and records the
vote in a section of its own; `appendEntries` and the start of an election can come in
between. The RPC server handles one `requestVote` at a time. `supports`, `candidacies` and
`settings` are history: whom the node has supported in which term, who is known to have
stood in which term, and which candidate was put into `m_votedFor` under which `m_curTerm`. -/

namespace ProjectsCpp.PlainRaft
open ProjectsCpp.Text ProjectsCpp.KvRaft ProjectsCpp.Run

namespace Raft
variable {n : Nat}

/-- The test of `requestVote` on `m_votedFor`. -/
def mayVote (r : Raft n) (candidateId : Int) : Prop :=
  r.votedFor = -1 ∨ r.votedFor = candidateId

instance (r : Raft n) (candidateId : Int) : Decidable (r.mayVote candidateId) := by
  unfold mayVote
  infer_instance

def checkLogUptodate (r : Raft n) (term index : Int) : Bool :=
  match r.logs.getLast? with
  | none => true
  | some last => term > last.term || (term = last.term && (index < 0 || r.logs.length ≤ index))

end Raft

/-- Where a `requestVote` stands between its sections. -/
inductive Stage where
  | looking
  | granting
deriving DecidableEq

structure Voter (n : Nat) where
  node : Raft n
  call : Option (RequestVoteArgs × Stage)
  supports : List (Int × Int)
  candidacies : List (Int × Int)
  settings : List (Int × Int)

inductive VoterEvent where
  | requestVote (args : RequestVoteArgs)
  | checkLogUptodate
  | recordVote
  | appendEntries (args : AppendEntriesArgs)
  | attemptElection

namespace Voter
variable {n : Nat}

def fromPeer (s : Voter n) (args : RequestVoteArgs) : Prop :=
  0 ≤ args.candidateId ∧ args.candidateId < n ∧ args.candidateId ≠ s.node.peerId.val

instance (s : Voter n) (args : RequestVoteArgs) : Decidable (s.fromPeer args) := by
  unfold fromPeer
  infer_instance

/-- The first section of `requestVote`. -/
def requestVote (s : Voter n) (args : RequestVoteArgs) : Voter n :=
  let s := { s with candidacies := (args.term, args.candidateId) :: s.candidacies }
  if s.node.curTerm > args.term then s
  else
    let r := s.node.requestVote args.term
    { s with
      node := r
      call := if r.mayVote args.candidateId then some (args, .looking) else none }

def recordVote (s : Voter n) (args : RequestVoteArgs) : Voter n :=
  { s with
    node := s.node.grantVote args.candidateId
    call := none
    supports := (args.term, args.candidateId) :: s.supports
    settings := (s.node.curTerm, args.candidateId) :: s.settings }

def standIn (s : Voter n) (r : Raft n) : Voter n :=
  { s with
    node := r
    supports := (r.curTerm, r.votedFor) :: s.supports
    candidacies := (r.curTerm, r.votedFor) :: s.candidacies
    settings := (r.curTerm, r.votedFor) :: s.settings }

def step (s : Voter n) : VoterEvent → Option (Voter n)
  | .requestVote args =>
    if s.call = none ∧ s.fromPeer args then some (s.requestVote args) else none
  | .checkLogUptodate =>
    match s.call with
    | some (args, .looking) =>
      some { s with
        call := if s.node.checkLogUptodate args.lastLogTerm args.lastLogIndex then
          some (args, .granting) else none }
    | _ => none
  | .recordVote =>
    match s.call with
    | some (args, .granting) => some (s.recordVote args)
    | _ => none
  | .appendEntries args => (s.node.appendEntries args).map fun (r, _) => { s with node := r }
  | .attemptElection => s.node.attemptElection.map s.standIn

def machine (n : Nat) : Machine (Voter n) VoterEvent where
  start s := s.call = none ∧ s.candidacies = [] ∧ s.settings = [] ∧
    s.supports = if s.node.votedFor = -1 then [] else [(s.node.curTerm, s.node.votedFor)]
  step := step

/-- At most one candidate supported in a term, and `m_votedFor` only ever set to a candidate of
the term that `m_curTerm` had. -/
structure OneVote (s : Voter n) : Prop where
  once : ∀ term c d, (term, c) ∈ s.supports → (term, d) ∈ s.supports → c = d
  current : ∀ setting ∈ s.settings, setting ∈ s.candidacies

def Steady (s : Voter n) : VoterEvent → Prop
  | .recordVote => ∀ call ∈ s.call, call.1.term = s.node.curTerm
  | _ => True

instance (s : Voter n) (event : VoterEvent) : Decidable (s.Steady event) := by
  unfold Steady
  split <;> infer_instance

/-! ### The sections -/

def KeepsVote (r r' : Raft n) : Prop :=
  r'.peerId = r.peerId ∧
  ((r'.curTerm = r.curTerm ∧ r'.votedFor = r.votedFor) ∨
    (r.curTerm < r'.curTerm ∧ r'.votedFor = -1))

theorem requestVote_keepsVote (r : Raft n) (term : Int) : KeepsVote r (r.requestVote term) := by
  rw [Raft.requestVote]
  split
  · rename_i later
    exact ⟨rfl, .inr ⟨later, rfl⟩⟩
  · exact ⟨rfl, .inl ⟨rfl, rfl⟩⟩

theorem enterTerm_keepsVote {r : Raft n} {t : Int} (le : r.curTerm ≤ t) :
    KeepsVote r (r.enterTerm t) := by
  rcases le.lt_or_eq with later | same
  · exact ⟨rfl, .inr ⟨later, if_pos later⟩⟩
  · exact ⟨rfl, .inl ⟨same.symm, if_neg (by omega)⟩⟩

theorem commitUpTo_vote (r : Raft n) (leaderCommit : Int) :
    (r.commitUpTo leaderCommit).peerId = r.peerId ∧
      (r.commitUpTo leaderCommit).curTerm = r.curTerm ∧
      (r.commitUpTo leaderCommit).votedFor = r.votedFor := by
  rw [Raft.commitUpTo]
  split <;> exact ⟨rfl, rfl, rfl⟩

theorem appendEntries_keepsVote {r r' : Raft n} {args : AppendEntriesArgs}
    {reply : AppendEntriesReply} (done : r.appendEntries args = some (r', reply)) :
    KeepsVote r r' := by
  obtain ⟨recvLog, -, done⟩ := Option.bind_eq_some_iff.mp done
  split at done
  · cases done
    exact ⟨rfl, .inl ⟨rfl, rfl⟩⟩
  · rename_i notOld
    have entered := enterTerm_keepsVote (r := r) (t := args.term) (by omega)
    have taken : ∀ logs, KeepsVote r
        ({ r.enterTerm args.term with logs := logs }.commitUpTo args.leaderCommit) := by
      intro logs
      obtain ⟨peer, term, vote⟩ :=
        commitUpTo_vote { r.enterTerm args.term with logs := logs } args.leaderCommit
      rw [KeepsVote, peer, term, vote]
      exact entered
    dsimp only at done
    split at done
    · cases done
      exact taken recvLog
    · obtain ⟨checked, -, result⟩ := Option.map_eq_some_iff.mp done
      cases checked with
      | some reply =>
        cases result
        exact entered
      | none =>
        cases result
        exact taken _

/-- What the node knows of the support it has given. The last field of `Held.call` is about
the requests of other peers: none was for a later term than the one under way. -/
structure Held (s : Voter n) : Prop where
  bounded : ∀ vote ∈ s.supports, vote.1 ≤ s.node.curTerm
  recorded : ∀ c, (s.node.curTerm, c) ∈ s.supports → s.node.votedFor = c
  real : ∀ vote ∈ s.supports, vote.2 ≠ -1
  stood : ∀ stand ∈ s.candidacies, stand.1 ≤ s.node.curTerm
  one : s.OneVote
  call : ∀ call ∈ s.call, call.1.term ≤ s.node.curTerm ∧ s.fromPeer call.1 ∧
    (call.1.term = s.node.curTerm → s.node.mayVote call.1.candidateId) ∧
    (call.1.term, call.1.candidateId) ∈ s.candidacies ∧
    ∀ stand ∈ s.candidacies, stand.2 ≠ s.node.peerId.val → stand.1 ≤ call.1.term

variable {s t : Voter n}

theorem Held.start (begin : (machine n).start s) : s.Held := by
  obtain ⟨call, candidacies, settings, supports⟩ := begin
  have only : ∀ vote ∈ s.supports, vote = (s.node.curTerm, s.node.votedFor) ∧
      s.node.votedFor ≠ -1 := by
    intro vote member
    rw [supports] at member
    split at member
    · cases member
    · rename_i voted
      exact ⟨List.mem_singleton.mp member, voted⟩
  refine ⟨?_, ?_, ?_, ?_, ⟨?_, ?_⟩, ?_⟩
  · intro vote member
    rw [(only vote member).1]
  · intro c member
    exact (Prod.mk.inj (only _ member).1).2.symm
  · intro vote member
    rw [(only vote member).1]
    exact (only vote member).2
  · rw [candidacies]
    exact fun stand none => absurd none List.not_mem_nil
  · intro term c d first second
    rw [(Prod.mk.inj (only _ first).1).2, (Prod.mk.inj (only _ second).1).2]
  · rw [settings]
    exact fun setting none => absurd none List.not_mem_nil
  · rw [call]
    exact fun call none => by cases none

theorem Held.keepsVote (held : s.Held) {r : Raft n} (keeps : KeepsVote s.node r) :
    Held { s with node := r } := by
  obtain ⟨peer, ⟨term, vote⟩ | ⟨later, cleared⟩⟩ := keeps
  · refine ⟨?_, ?_, held.real, ?_, ⟨held.one.once, held.one.current⟩, ?_⟩
    · exact fun given member => term.symm ▸ held.bounded given member
    · intro c member
      exact vote.trans (held.recorded c (term ▸ member))
    · exact fun stand member => term.symm ▸ held.stood stand member
    · intro call member
      simp only [fromPeer, Raft.mayVote, term, vote, peer]
      exact held.call call member
  · refine ⟨?_, ?_, held.real, ?_, ⟨held.one.once, held.one.current⟩, ?_⟩
    · exact fun given member => (held.bounded given member).trans later.le
    · intro c member
      exact absurd (held.bounded _ member) (not_le.mpr later)
    · exact fun stand member => (held.stood stand member).trans later.le
    · intro call member
      obtain ⟨le, peers, -, stood, latest⟩ := held.call call member
      refine ⟨le.trans later.le, ?_, fun same => ?_, stood, ?_⟩
      · simpa only [fromPeer, peer] using peers
      · have same : call.1.term = r.curTerm := same
        omega
      · simpa only [peer] using latest

theorem Held.hear (held : s.Held) {c : Int × Int} (idle : s.call = none)
    (le : c.1 ≤ s.node.curTerm) :
    Held { s with candidacies := c :: s.candidacies } := by
  refine ⟨held.bounded, held.recorded, held.real, ?_,
    ⟨held.one.once, fun setting member => .tail _ (held.one.current setting member)⟩, ?_⟩
  · intro other member
    rcases List.mem_cons.mp member with rfl | old
    · exact le
    · exact held.stood other old
  · intro call member
    rw [show ({ s with candidacies := c :: s.candidacies } : Voter n).call = none from idle]
      at member
    cases member

theorem requestVote_curTerm {r : Raft n} {term : Int} (le : r.curTerm ≤ term) :
    (r.requestVote term).curTerm = term := by
  rw [Raft.requestVote]
  split
  · rfl
  · omega

theorem Held.requestVote (held : s.Held) {args : RequestVoteArgs} (idle : s.call = none)
    (peers : s.fromPeer args) : (s.requestVote args).Held := by
  rw [Voter.requestVote]
  dsimp only
  split
  · rename_i old
    exact held.hear idle (le_of_lt old)
  · rename_i notOld
    have entered := requestVote_curTerm (r := s.node) (not_lt.mp notOld)
    have moved := held.keepsVote (requestVote_keepsVote s.node args.term)
    have known := moved.hear (c := (args.term, args.candidateId)) idle entered.ge
    refine ⟨known.bounded, known.recorded, known.real, known.stood,
      ⟨known.one.once, known.one.current⟩, ?_⟩
    intro call member
    dsimp only at member
    split at member
    · rename_i may
      cases member
      refine ⟨entered.ge, ?_, fun _ => may, .head _, ?_⟩
      · simpa only [fromPeer, (requestVote_keepsVote s.node args.term).1] using peers
      · exact fun stand inside _ => (known.stood stand inside).trans entered.le
    · cases member

theorem Held.recordVote (held : s.Held) {args : RequestVoteArgs} {stage : Stage}
    (called : s.call = some (args, stage)) (steady : args.term = s.node.curTerm) :
    (s.recordVote args).Held := by
  obtain ⟨-, ⟨nonneg, -, -⟩, may, stood, -⟩ := held.call (args, stage) called
  have given : ∀ c, (args.term, c) ∈ s.supports → c = args.candidateId := by
    intro c member
    have vote := held.recorded c (steady ▸ member)
    rcases may steady with none | same
    · exact absurd (vote.symm.trans none) (held.real _ member)
    · exact vote.symm.trans same
  refine ⟨?_, ?_, ?_, held.stood, ⟨?_, ?_⟩, fun call none => by cases none⟩
  · intro vote member
    rcases List.mem_cons.mp member with rfl | old
    · exact steady.le
    · exact held.bounded vote old
  · intro c member
    rcases List.mem_cons.mp member with same | old
    · exact (Prod.mk.inj same).2.symm
    · exact (given c (steady ▸ old)).symm
  · intro vote member
    rcases List.mem_cons.mp member with rfl | old
    · intro minus
      have candidate : args.candidateId = -1 := minus
      exact absurd (candidate ▸ nonneg) (by decide)
    · exact held.real vote old
  · intro term c d first second
    rcases List.mem_cons.mp first with same | first
    · cases same
      rcases List.mem_cons.mp second with same | second
      · exact (Prod.mk.inj same).2.symm
      · exact (given d second).symm
    · rcases List.mem_cons.mp second with same | second
      · cases same
        exact given c first
      · exact held.one.once term c d first second
  · intro setting member
    rcases List.mem_cons.mp member with rfl | old
    · exact steady ▸ stood
    · exact held.one.current setting old

theorem Held.attemptElection (held : s.Held) {r : Raft n}
    (started : s.node.attemptElection = some r) : (s.standIn r).Held := by
  rw [Raft.attemptElection] at started
  split at started
  · cases started
  · cases started
    have later : s.node.curTerm < s.node.curTerm + 1 := Int.lt_succ _
    refine ⟨?_, ?_, ?_, ?_, ⟨?_, ?_⟩, ?_⟩
    · intro vote member
      rcases List.mem_cons.mp member with rfl | old
      · exact le_refl _
      · exact (held.bounded vote old).trans later.le
    · intro c member
      rcases List.mem_cons.mp member with same | old
      · exact (Prod.mk.inj same).2.symm
      · exact absurd (held.bounded _ old) (not_le.mpr later)
    · intro vote member
      rcases List.mem_cons.mp member with rfl | old
      · dsimp only
        omega
      · exact held.real vote old
    · intro stand member
      rcases List.mem_cons.mp member with rfl | old
      · exact le_refl _
      · exact (held.stood stand old).trans later.le
    · intro term c d first second
      rcases List.mem_cons.mp first with same | first
      · cases same
        rcases List.mem_cons.mp second with same | second
        · exact (Prod.mk.inj same).2.symm
        · exact absurd (held.bounded _ second) (not_le.mpr later)
      · rcases List.mem_cons.mp second with same | second
        · cases same
          exact absurd (held.bounded _ first) (not_le.mpr later)
        · exact held.one.once term c d first second
    · intro setting member
      rcases List.mem_cons.mp member with rfl | old
      · exact .head _
      · exact .tail _ (held.one.current setting old)
    · intro call member
      obtain ⟨le, peers, -, stood, latest⟩ := held.call call member
      refine ⟨le.trans later.le, peers, fun same => ?_, .tail _ stood, ?_⟩
      · have same : call.1.term = s.node.curTerm + 1 := same
        omega
      · intro stand inside other
        rcases List.mem_cons.mp inside with rfl | old
        · exact absurd rfl other
        · exact latest stand old other

theorem Held.step {event : VoterEvent} (held : s.Held) (steady : s.Steady event)
    (next : s.step event = some t) : t.Held := by
  cases event with
  | requestVote args =>
    rw [Voter.step] at next
    split at next
    · rename_i free
      cases next
      exact held.requestVote free.1 free.2
    · cases next
  | checkLogUptodate =>
    rw [Voter.step] at next
    split at next
    · rename_i args called
      cases next
      refine ⟨held.bounded, held.recorded, held.real, held.stood,
        ⟨held.one.once, held.one.current⟩, ?_⟩
      intro call member
      dsimp only at member
      split at member
      · cases member
        exact held.call (args, .looking) called
      · cases member
    · cases next
  | recordVote =>
    rw [Voter.step] at next
    split at next
    · rename_i args called
      cases next
      exact held.recordVote called (steady _ called)
    · cases next
  | appendEntries args =>
    obtain ⟨⟨r, reply⟩, done, rfl⟩ := Option.map_eq_some_iff.mp next
    exact held.keepsVote (appendEntries_keepsVote done)
  | attemptElection =>
    obtain ⟨r, started, rfl⟩ := Option.map_eq_some_iff.mp next
    exact held.attemptElection started

theorem held (reach : Reach (machine n) Steady s) : s.Held :=
  reach.invariant (fun _ begin => Held.start begin)
    fun _ _ _ before steady next => before.step steady next

theorem Held.overtaken (held : s.Held) {event : VoterEvent} (unsteady : ¬ s.Steady event)
    (next : s.step event = some t) : ¬ t.OneVote := by
  cases event with
  | recordVote =>
    rw [Voter.step] at next
    split at next
    · rename_i args called
      cases next
      obtain ⟨le, ⟨-, -, other⟩, -, -, latest⟩ := held.call (args, .granting) called
      have moved : args.term ≠ s.node.curTerm := by
        intro same
        refine unsteady fun call member => ?_
        cases called.symm.trans member
        exact same
      intro one
      have stands := one.current (s.node.curTerm, args.candidateId) (.head _)
      exact moved (le_antisymm le (latest _ stands other))
    · cases next
  | _ => exact absurd trivial unsteady

private def made : Voter 3 := ⟨Raft.fresh 0, none, [], [], []⟩

/-- Two candidates of one term, and later the second of them in the next. -/
def contested : List VoterEvent :=
  [.requestVote ⟨5, 1, 0, 0⟩, .checkLogUptodate, .recordVote, .requestVote ⟨5, 2, 0, 0⟩,
    .requestVote ⟨6, 2, 0, 0⟩, .checkLogUptodate, .recordVote]

end Voter

end ProjectsCpp.PlainRaft
