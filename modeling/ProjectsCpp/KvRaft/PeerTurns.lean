import ProjectsCpp.KvRaft.Canvass
import ProjectsCpp.Lib.RoundRobin

/-! The peers that `callRequestVote` threads take by `cur_peerId`, whatever sections come between
them. They go round the other peers of the node. -/

namespace ProjectsCpp.KvRaft
open ProjectsCpp.RoundRobin

variable {n : Nat}

/-! ### One choice -/

def turnOfPeer (self peer : Fin n) : Option Nat :=
  if peer = self then none else some (rank self peer)

theorem turnOfPeer_apart (self : Fin n) (k l : Fin n) (i : Nat) (first : turnOfPeer self k = some i)
    (second : turnOfPeer self l = some i) : k = l := by
  unfold turnOfPeer rank at *
  split_ifs at * <;> simp only [Option.some.injEq, Fin.ext_iff] at * <;> omega

theorem turnOfPeer_iff (self peer : Fin n) :
    (∃ i < n - 1, turnOfPeer self peer = some i) ↔ peer ≠ self := by
  have small := peer.isLt
  constructor
  · rintro ⟨i, -, ranked⟩ rfl
    rw [turnOfPeer, if_pos rfl] at ranked
    cases ranked
  · intro other
    have apart : peer.val ≠ self.val := fun same => other (Fin.ext same)
    have own := self.isLt
    refine ⟨rank self peer, ?_, if_neg other⟩
    unfold rank
    split_ifs <;> omega

theorem nextPeer_lt (self : Fin n) {count : Nat} (inside : count < n - 1) :
    (Raft.nextPeer n self (turnOf self count)).1 < n := by
  have small := self.isLt
  simp only [Raft.nextPeer, turnOf]
  split_ifs <;> omega

theorem nextPeer_wraps (self : Fin n) {count : Nat} (last : count + 1 = n - 1) :
    (Raft.nextPeer n self (turnOf self count)).2 = 0 := by
  have small := self.isLt
  simp only [Raft.nextPeer, turnOf]
  split_ifs <;> omega

/-- The number of peers taken since `cur_peerId` was 0. -/
def turnAt (self : Fin n) (cur : Nat) : Nat := if cur ≤ self.val then cur else cur - 1

def InTurn (self : Fin n) (cur : Nat) : Prop :=
  turnAt self cur < n - 1 ∧ cur = turnOf self (turnAt self cur)

theorem turnAt_turnOf (self : Fin n) (count : Nat) : turnAt self (turnOf self count) = count := by
  unfold turnAt turnOf
  split_ifs <;> omega

theorem inTurn_turnOf (self : Fin n) {count : Nat} (inside : count < n - 1) :
    InTurn self (turnOf self count) := by
  rw [InTurn, turnAt_turnOf]
  exact ⟨inside, rfl⟩

theorem inTurn_zero (self : Fin n) (two : 2 ≤ n) : InTurn self 0 :=
  inTurn_turnOf self (by omega : 0 < n - 1)

theorem InTurn.next {self : Fin n} {cur : Nat} (inTurn : InTurn self cur) :
    ∃ inside : (Raft.nextPeer n self cur).1 < n,
      turnOfPeer self ⟨(Raft.nextPeer n self cur).1, inside⟩ = some (turnAt self cur) ∧
      InTurn self (Raft.nextPeer n self cur).2 ∧
      turnAt self (Raft.nextPeer n self cur).2 = (turnAt self cur + 1) % (n - 1) := by
  obtain ⟨bound, position⟩ := inTurn
  generalize turnAt self cur = count at bound position
  subst position
  obtain ⟨other, ranked, following⟩ := nextPeer_turn self count
  have inside := nextPeer_lt self bound
  have apart : (⟨(Raft.nextPeer n self (turnOf self count)).1, inside⟩ : Fin n) ≠ self :=
    fun same => other (congrArg Fin.val same)
  refine ⟨inside, (if_neg apart).trans (congrArg some (ranked _ rfl)), ?_⟩
  rcases Nat.lt_or_ge (count + 1) (n - 1) with within | last
  · rw [following within, turnAt_turnOf, Nat.mod_eq_of_lt within]
    exact ⟨inTurn_turnOf self within, rfl⟩
  · have whole : count + 1 = n - 1 := by omega
    have zero : turnAt self 0 = 0 := rfl
    rw [nextPeer_wraps self whole, whole, Nat.mod_self, zero]
    exact ⟨inTurn_zero self (by omega), rfl⟩

/-- Any number of sections after the start, and any block of `n - 1` choices from a state with
`cur_peerId` 0 on. `take` is the peer that the next section would take. -/
def TakesTurns {σ α : Type} (step : σ → α → Option (σ × Option (Fin n))) (cur : σ → Nat)
    (take : σ → Option (Fin n)) (Resets : α → Prop) (self : Fin n) (start : σ) : Prop :=
  ∀ before s chosen, run step start before = some (s, chosen) →
    (∀ peer ∈ chosen, peer ≠ self) ∧ (∃ peer, take s = some peer ∧ peer ≠ self) ∧
    (cur s = 0 → ∀ sections t block, (∀ a ∈ sections, ¬ Resets a) →
      run step s sections = some (t, block) → block.length = n - 1 →
        (∀ peer, block.count peer = if peer = self then 0 else 1) ∧ cur t = 0)

theorem takesTurns {σ α : Type} {step : σ → α → Option (σ × Option (Fin n))} {cur : σ → Nat}
    {take : σ → Option (Fin n)} {Resets : α → Prop} {self : Fin n} {start : σ} {Good : σ → Prop}
    (rota : Rota step Good Resets (fun s => turnAt self (cur s)) (turnOfPeer self) (n - 1))
    (inTurn : ∀ s, Good s → InTurn self (cur s))
    (taken : ∀ s, Good s → ∃ peer, take s = some peer ∧
      turnOfPeer self peer = some (turnAt self (cur s))) (good : Good start) :
    TakesTurns step cur take Resets self start := by
  intro before s chosen first
  obtain ⟨reached, ranked⟩ := rota.run_good good first
  refine ⟨fun peer member => (turnOfPeer_iff self peer).mp (ranked peer member), ?_, ?_⟩
  · obtain ⟨peer, same, turn⟩ := taken s reached
    exact ⟨peer, same, (turnOfPeer_iff self peer).mp ⟨_, (inTurn s reached).1, turn⟩⟩
  · intro zero sections t block through ran whole
    have begins : turnAt self (cur s) = 0 := by rw [zero]; rfl
    obtain ⟨last, ranks⟩ := rota.run_round reached begins through ran whole
    refine ⟨fun peer => ?_, ?_⟩
    · rw [count_round ranks (turnOfPeer_apart self) peer]
      simp only [turnOfPeer_iff, ite_not]
    · have position := (inTurn t (rota.run_good reached ran).1).2
      rw [last] at position
      exact position

/-! ### The sections of a process -/

/-- The peer that a `callRequestVote` section has taken. -/
def Output.asked : Output n → Option (Fin n)
  | .voteRequest peer _ => some peer
  | _ => Option.none

def Process.ask (p : Process n) (a : Action n) : Option (Process n × Option (Fin n)) :=
  (p.step a).map fun (q, o) => (q, o.asked)

theorem Raft.electionWake_turn {r s : Raft n} (run : r.electionWake = some s) :
    s.peerId = r.peerId ∧ s.curPeerId = r.curPeerId := by
  rw [Raft.electionWake] at run
  split_ifs at run <;> cases run <;> exact ⟨rfl, rfl⟩

theorem Raft.voteReply_turn {r s : Raft n} {reply : RequestVoteReply}
    (run : r.voteReply reply = some s) : s.peerId = r.peerId ∧ s.curPeerId = r.curPeerId := by
  simp only [Raft.voteReply] at run
  split_ifs at run
  · rw [Raft.readRaftState] at run
    split at run
    · cases run
      exact ⟨rfl, rfl⟩
    · obtain ⟨record, -, rfl⟩ := Option.map_eq_some_iff.mp run
      exact ⟨rfl, rfl⟩
  · cases run
    exact ⟨rfl, rfl⟩
  · cases run
    exact ⟨rfl, rfl⟩

theorem Process.ask_turn {p q : Process n} {a : Action n} {choice : Option (Fin n)}
    (asked : p.ask a = some (q, choice)) :
    q.raft.peerId = p.raft.peerId ∧
      ((∃ peer, choice = some peer ∧
          peer.val = (Raft.nextPeer n p.raft.peerId p.raft.curPeerId).1 ∧
          q.raft.curPeerId = (Raft.nextPeer n p.raft.peerId p.raft.curPeerId).2) ∨
        choice = none ∧ (q.raft.curPeerId = p.raft.curPeerId ∨
          a = .electionStart ∧ q.raft.curPeerId = 0)) := by
  obtain ⟨⟨t, o⟩, next, same⟩ := Option.map_eq_some_iff.mp asked
  cases same
  by_cases electing : a.Electing
  · cases Process.ran_of_step next with
    | electionStart idle run =>
      rw [Raft.electionStart] at run
      split at run <;> cases run
      exact ⟨rfl, .inr ⟨rfl, .inr ⟨rfl, rfl⟩⟩⟩
    | electionWake waits run =>
      obtain ⟨peer, turn⟩ := Raft.electionWake_turn run
      refine ⟨peer, .inr ⟨?_, .inl turn⟩⟩
      split <;> rfl
    | callRequestVote thread run =>
      obtain ⟨taken, -, rfl⟩ := Raft.callRequestVote_takes run
      exact ⟨rfl, .inl ⟨_, rfl, taken, rfl⟩⟩
    | voteReply call run =>
      obtain ⟨peer, turn⟩ := Raft.voteReply_turn run
      exact ⟨peer, .inr ⟨rfl, .inl turn⟩⟩
    | _ => exact electing.elim
  · obtain ⟨aside, -, -⟩ := Process.step_aside electing next
    refine ⟨aside.peer, .inr ⟨?_, .inl aside.next⟩⟩
    cases Process.ran_of_step next <;> first | rfl | exact absurd trivial electing

structure Process.AtTurn (node : Fin n) (p : Process n) : Prop where
  peer : p.raft.peerId = node
  turn : InTurn node p.raft.curPeerId

theorem Process.rota (self : Fin n) (two : 2 ≤ n) :
    Rota Process.ask (Process.AtTurn self) (· = .electionStart)
      (fun p => turnAt self p.raft.curPeerId) (turnOfPeer self) (n - 1) where
  bound p good := good.turn.1
  good p a q choice good next := by
    obtain ⟨same, ⟨peer, -, -, after⟩ | ⟨-, kept | ⟨-, zero⟩⟩⟩ := Process.ask_turn next
    · obtain ⟨-, -, turn, -⟩ := good.turn.next
      exact ⟨same.trans good.peer, by rw [after, good.peer]; exact turn⟩
    · exact ⟨same.trans good.peer, kept ▸ good.turn⟩
    · exact ⟨same.trans good.peer, zero ▸ inTurn_zero self two⟩
  chooses p a q k good next := by
    obtain ⟨-, ⟨peer, same, chosen, after⟩ | ⟨none, -⟩⟩ := Process.ask_turn next
    · cases same
      obtain ⟨inside, ranked, -, following⟩ := good.turn.next
      rw [good.peer] at chosen after
      rw [after, show k = ⟨_, inside⟩ from Fin.ext chosen]
      exact ⟨ranked, following⟩
    · cases none
  passes p a q good next := by
    obtain ⟨-, ⟨peer, same, -, -⟩ | ⟨-, kept | ⟨reset, -⟩⟩⟩ := Process.ask_turn next
    · cases same
    · exact .inl (congrArg (turnAt self) kept)
    · exact .inr reset

def Raft.asks (r : Raft n) : Option (Fin n) := r.callRequestVote.map fun call => call.2.1

theorem Process.takesTurns (self : Fin n) (two : 2 ≤ n) {p : Process n}
    (peer : p.raft.peerId = self) (zero : p.raft.curPeerId = 0) :
    TakesTurns Process.ask (fun q => q.raft.curPeerId) (fun q => q.raft.asks) (· = .electionStart)
      self p := by
  refine KvRaft.takesTurns (Process.rota self two) (fun q good => good.turn) ?_
    ⟨peer, zero ▸ inTurn_zero self two⟩
  intro q good
  obtain ⟨inside, ranked, -, -⟩ := good.turn.next
  refine ⟨_, ?_, ranked⟩
  simp only [Raft.asks, Raft.callRequestVote, good.peer, dif_pos inside, Option.map_some]

end ProjectsCpp.KvRaft
