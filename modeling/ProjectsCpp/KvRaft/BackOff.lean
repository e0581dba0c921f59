import ProjectsCpp.KvRaft.Compaction
import ProjectsCpp.KvRaft.Replica
import Mathlib.Logic.Relation

/-! What the leader does with a refused `AppendEntries`. The follower names the index to go
on from; every index it names is below the request, but for a snapshot ahead of the request
it is 1, and with `m_nextIndex` 1 already the next request is the same one. A term of -100 in
the follower's log is taken for the mark of a dead one. -/

namespace ProjectsCpp.KvRaft
open ProjectsCpp.Text

namespace Raft
variable {n : Nat} {r s l f l' f' : Raft n}

/-! ### The request -/

def requestTo (r : Raft n) (peer : Fin n) : Option AppendEntriesArgs :=
  (r.prevTermOf (r.nextIndex peer - 1)).map fun prevLogTerm =>
    { term := r.curTerm
      leaderId := r.id
      prevLogIndex := r.nextIndex peer - 1
      prevLogTerm := prevLogTerm
      leaderCommit := r.commitIndex
      sendLogs := sendLogsOf (r.logsAfter (r.nextIndex peer - 1)) }

theorem sendAppendEntries_requestTo {peer : Fin n} {args : AppendEntriesArgs}
    (built : r.sendAppendEntries = some (s, peer, args)) : s.requestTo peer = some args := by
  rw [sendAppendEntries] at built
  split at built
  · cases built
  · obtain ⟨prevLogTerm, found, done⟩ := Option.map_eq_some_iff.mp built
    cases done
    rw [requestTo, found]
    rfl

theorem requestTo_within {peer : Fin n} {args : AppendEntriesArgs}
    (built : r.requestTo peer = some args) :
    args.term = r.curTerm ∧ args.prevLogIndex = r.nextIndex peer - 1 ∧
      (args.prevLogIndex = r.lastIncludedIndex ∨
        r.lastIncludedIndex < args.prevLogIndex ∧ args.prevLogIndex ≤ r.lastIndex ∧
          r.HoldsTerm args.prevLogIndex args.prevLogTerm) := by
  obtain ⟨prevLogTerm, found, rfl⟩ := Option.map_eq_some_iff.mp built
  refine ⟨rfl, rfl, ?_⟩
  rw [prevTermOf] at found
  split at found
  · exact .inl ‹_›
  · obtain ⟨e, entry, same⟩ := Option.map_eq_some_iff.mp found
    obtain ⟨above, within⟩ := within_of_entryAt entry
    exact .inr ⟨above, within, by rw [HoldsTerm, entry, ← same]; rfl⟩

/-! ### The refusal -/

theorem firstIndexOfTerm_bounds {term index prev : Int} {count : Nat} (holds : r.HoldsTerm prev term)
    (low : index ≤ prev) (high : prev < index + count) :
    index ≤ r.firstIndexOfTerm term index count ∧ r.firstIndexOfTerm term index count ≤ prev := by
  induction count generalizing index with
  | zero => omega
  | succ count ih =>
    rw [firstIndexOfTerm]
    split
    · exact ⟨le_refl _, low⟩
    · rename_i other
      have apart : index ≠ prev := by
        rintro rfl
        exact other holds
      have rest := ih (show index + 1 ≤ prev by omega) (by omega)
      omega

/-- Why a live follower refuses a request, and what it answers: its snapshot is ahead of the
request or does not agree with it, its log is too short, or the entries differ. -/
inductive Refusal (f : Raft n) (args : AppendEntriesArgs) (term : Int) : AppendEntriesReply → Prop
  | snapShot (behind : args.prevLogIndex ≤ f.lastIncludedIndex) :
      Refusal f args term ⟨term, false, -1, 1⟩
  | short (beyond : f.lastIndex < args.prevLogIndex) :
      Refusal f args term ⟨term, false, -1, f.lastIndex + 1⟩
  | conflict {conflictTerm index : Int} (holds : f.HoldsTerm args.prevLogIndex conflictTerm)
      (differs : conflictTerm ≠ args.prevLogTerm) (low : f.lastIncludedIndex < index)
      (high : index ≤ args.prevLogIndex) : Refusal f args term ⟨term, false, conflictTerm, index⟩

theorem refusal_of_checkPrevLog {args : AppendEntriesArgs} {term : Int} {reply : AppendEntriesReply}
    (live : f.dead = false) (refused : f.checkPrevLog args term = some (some reply)) :
    Refusal f args term reply := by
  rw [checkPrevLog, if_neg (by rw [live]; exact Bool.false_ne_true)] at refused
  split at refused
  · rename_i behind
    cases refused
    exact .snapShot behind.le
  · rename_i reached
    split at refused
    · rename_i base
      split at refused <;> cases refused
      exact .snapShot base.le
    · split at refused
      · rename_i beyond
        cases refused
        exact .short beyond
      · obtain ⟨e, entry, decided⟩ := Option.map_eq_some_iff.mp refused
        split at decided
        · rename_i differs
          cases decided
          have holds : f.HoldsTerm args.prevLogIndex e.term := by
            rw [HoldsTerm, entry]
            rfl
          have low : f.lastIncludedIndex + 1 ≤ args.prevLogIndex := by omega
          have high : args.prevLogIndex < f.lastIncludedIndex + 1 +
              (args.prevLogIndex - f.lastIncludedIndex).toNat := by omega
          have bounds := firstIndexOfTerm_bounds holds low high
          exact .conflict holds differs (by omega) bounds.2
        · cases decided

theorem firstIndexOfTerm_congr (same : SameLog r s) (term index : Int) (count : Nat) :
    s.firstIndexOfTerm term index count = r.firstIndexOfTerm term index count := by
  induction count generalizing index with
  | zero => rfl
  | succ count ih => rw [firstIndexOfTerm, firstIndexOfTerm, same.entryAt, ih]

theorem checkPrevLog_congr (same : SameLog r s) (dead : s.dead = r.dead) (args : AppendEntriesArgs)
    (term : Int) : s.checkPrevLog args term = r.checkPrevLog args term := by
  rw [checkPrevLog, checkPrevLog, dead, same.index, same.term, same.lastIndex, same.entryAt]
  simp only [firstIndexOfTerm_congr same]

theorem appendEntries_refused (args : AppendEntriesArgs) {reply : AppendEntriesReply}
    (same : args.term = f.curTerm) (answered : f.appendEntries args = some (f', reply))
    (refused : reply.success = false) :
    f' = { f with state := .FOLLOWER } ∧
      f.checkPrevLog args f.curTerm = some (some reply) ∧
      (getCmdAndTerm args.sendLogs).isSome := by
  have entered : f.enterTerm args.term = { f with state := .FOLLOWER } := by
    rw [enterTerm, same, if_neg (lt_irrefl _)]
  rw [appendEntries] at answered
  split at answered
  · cases answered
  · rename_i recvLog parsed
    rw [if_neg (by omega), entered] at answered
    obtain ⟨answer, checked, done⟩ := Option.map_eq_some_iff.mp answered
    cases answer with
    | none =>
      cases done
      cases refused
    | some refusal =>
      cases done
      have unchanged : checkPrevLog { f with state := .FOLLOWER } args f.curTerm =
          f.checkPrevLog args f.curTerm :=
        checkPrevLog_congr (⟨rfl, rfl, rfl⟩ : SameLog f { f with state := .FOLLOWER }) rfl _ _
      exact ⟨rfl, unchanged.symm.trans checked, by rw [parsed]; rfl⟩

theorem appendEntries_refuses (args : AppendEntriesArgs) {reply : AppendEntriesReply}
    (same : args.term = f.curTerm) (refused : f.checkPrevLog args f.curTerm = some (some reply))
    (parsed : (getCmdAndTerm args.sendLogs).isSome) :
    f.appendEntries args = some ({ f with state := .FOLLOWER }, reply) := by
  have entered : f.enterTerm args.term = { f with state := .FOLLOWER } := by
    rw [enterTerm, same, if_neg (lt_irrefl _)]
  have unchanged : checkPrevLog { f with state := .FOLLOWER } args f.curTerm =
      f.checkPrevLog args f.curTerm :=
    checkPrevLog_congr (⟨rfl, rfl, rfl⟩ : SameLog f { f with state := .FOLLOWER }) rfl _ _
  obtain ⟨recvLog, parsed⟩ := Option.isSome_iff_exists.mp parsed
  rw [appendEntries, parsed]
  simp only [same, lt_irrefl, if_false]
  rw [← same, entered, same, unchanged, refused]
  rfl

/-! ### The leader's move -/

theorem lastIndexOfTerm_spec (term : Int) {index : Int} {count : Nat}
    (low : r.lastIncludedIndex ≤ index - count) (high : index ≤ r.lastIndex) :
    ∃ found, r.lastIndexOfTerm term index count = some found ∧
      (found = -1 ∨ (index - count < found ∧ found ≤ index ∧ r.HoldsTerm found term)) := by
  induction count generalizing index with
  | zero => exact ⟨-1, rfl, .inl rfl⟩
  | succ count ih =>
    have above : r.lastIncludedIndex < index := by omega
    obtain ⟨e, entry⟩ := Option.isSome_iff_exists.mp (entryAt_isSome above high)
    rw [lastIndexOfTerm, entry]
    by_cases same : e.term = term
    · refine ⟨index, if_pos same, .inr ⟨by omega, le_refl _, ?_⟩⟩
      rw [HoldsTerm, entry, ← same]
      rfl
    · have lower : r.lastIncludedIndex ≤ index - 1 - count := by omega
      obtain ⟨found, rest, bounds⟩ := ih lower (by omega)
      refine ⟨found, (if_neg same).trans rest, ?_⟩
      rcases bounds with absent | ⟨below, above, holds⟩
      · exact .inl absent
      · exact .inr ⟨by omega, by omega, holds⟩

/-- A refusal that the leader gets on from: the request is not the very first one, and the
follower's entry there has no term that reads as the mark of a dead follower. -/
def BacksOff (l f : Raft n) (peer : Fin n) : Prop :=
  1 < l.nextIndex peer ∧ ¬f.HoldsTerm (l.nextIndex peer - 1) (-100)

theorem not_holdsTerm {index : Int} (term : Int)
    (outside : index ≤ r.lastIncludedIndex ∨ r.lastIndex < index) : ¬r.HoldsTerm index term := by
  intro holds
  obtain ⟨e, entry, -⟩ := Option.map_eq_some_iff.mp holds
  have bounds := within_of_entryAt entry
  omega

theorem setNextIndex_self (r : Raft n) (peer : Fin n) :
    r.setNextIndex peer (r.nextIndex peer) = r := by
  rw [setNextIndex, Function.update_eq_self]

theorem backOff_of_refusal {peer : Fin n} {args : AppendEntriesArgs} {reply : AppendEntriesReply}
    {term : Int} (baseL : 0 ≤ l.lastIncludedIndex) (baseF : 0 ≤ f.lastIncludedIndex)
    (built : l.requestTo peer = some args) (refusal : Refusal f args term reply) :
    ∃ next, l.backOff peer args reply = some (l.setNextIndex peer next) ∧
      (BacksOff l f peer → next < l.nextIndex peer ∧ 1 ≤ next) ∧
      (¬BacksOff l f peer → next = l.nextIndex peer) := by
  obtain ⟨-, prev, place⟩ := requestTo_within built
  have lenF : f.lastIndex = f.lastIncludedIndex + f.logs.length := rfl
  have above : l.lastIncludedIndex ≤ args.prevLogIndex := by omega
  have within : args.prevLogIndex ≤ l.lastIndex := by
    have lenL : l.lastIndex = l.lastIncludedIndex + l.logs.length := rfl
    omega
  cases refusal with
  | snapShot behind =>
    refine ⟨1, rfl, fun backs => ⟨backs.1, le_refl _⟩, fun stays => ?_⟩
    have unmarked : ¬f.HoldsTerm (l.nextIndex peer - 1) (-100) :=
      not_holdsTerm _ (.inl (by omega))
    have first : ¬1 < l.nextIndex peer := fun more => stays ⟨more, unmarked⟩
    omega
  | short beyond =>
    refine ⟨f.lastIndex + 1, rfl, fun _ => by omega, fun stays => ?_⟩
    exact absurd ⟨by omega, not_holdsTerm _ (.inr (by omega))⟩ stays
  | @conflict conflictTerm index holds differs low high =>
    have more : 1 < l.nextIndex peer := by omega
    rw [prev] at holds
    by_cases mark : conflictTerm = -100
    · refine ⟨l.nextIndex peer, ?_, fun backs => absurd (mark ▸ holds) backs.2, fun _ => rfl⟩
      rw [setNextIndex_self, backOff, if_neg (by simp [mark]), if_pos mark]
    · have unmarked : ¬f.HoldsTerm (l.nextIndex peer - 1) (-100) := by
        intro marked
        rw [HoldsTerm, marked, Option.some.injEq] at holds
        exact mark holds.symm
      have backs : BacksOff l f peer := ⟨more, unmarked⟩
      by_cases unset : conflictTerm = -1
      · refine ⟨index, ?_, fun _ => by omega, fun stays => absurd backs stays⟩
        rw [backOff, if_neg (by simp [unset]), if_neg mark]
      · have lower : l.lastIncludedIndex ≤ args.prevLogIndex -
            (args.prevLogIndex - l.lastIncludedIndex).toNat := by omega
        obtain ⟨found, searched, bounds⟩ := lastIndexOfTerm_spec conflictTerm lower within
        rw [backOff, if_pos ⟨unset, mark⟩, searched, Option.map_some]
        by_cases absent : found = -1
        · refine ⟨index, by rw [if_neg (not_not_intro absent)], fun _ => by omega,
            fun stays => absurd backs stays⟩
        · obtain ⟨after, upTo, holdsL⟩ := bounds.resolve_left absent
          have earlier : found ≠ args.prevLogIndex := by
            rintro rfl
            rcases place with base | ⟨-, -, own⟩
            · omega
            · rw [HoldsTerm, own, Option.some.injEq] at holdsL
              exact differs holdsL.symm
          refine ⟨found + 1, by rw [if_pos absent], fun _ => by omega,
            fun stays => absurd backs stays⟩

theorem refusal_term {args : AppendEntriesArgs} {reply : AppendEntriesReply} {term : Int}
    (refusal : Refusal f args term reply) : reply.term = term ∧ reply.success = false := by
  cases refusal <;> exact ⟨rfl, rfl⟩

theorem appendReply_of_refusal {peer : Fin n} {args : AppendEntriesArgs}
    {reply : AppendEntriesReply} (baseL : 0 ≤ l.lastIncludedIndex) (baseF : 0 ≤ f.lastIncludedIndex)
    (built : l.requestTo peer = some args) (refusal : Refusal f args l.curTerm reply) :
    ∃ next, l.appendReply peer args reply = some (l.setNextIndex peer next).saveRaftState ∧
      (BacksOff l f peer → next < l.nextIndex peer ∧ 1 ≤ next) ∧
      (¬BacksOff l f peer → next = l.nextIndex peer) := by
  obtain ⟨next, moved, bounds⟩ := backOff_of_refusal baseL baseF built refusal
  obtain ⟨term, failed⟩ := refusal_term refusal
  refine ⟨next, ?_, bounds⟩
  rw [appendReply, if_neg (not_not_intro (requestTo_within built).1.symm), if_neg (by omega),
    if_neg (by rw [failed]; exact Bool.false_ne_true), moved, Option.map_some]

/-! ### Rounds -/

structure Paired (l f : Raft n) : Prop where
  baseL : 0 ≤ l.lastIncludedIndex
  baseF : 0 ≤ f.lastIncludedIndex
  term : f.curTerm = l.curTerm
  live : f.dead = false

/-- The answer to a refusal is progress: `m_nextIndex` went down to an index of a log, or the
next round sends a snapshot. -/
def Progress (l l' : Raft n) (peer : Fin n) : Prop :=
  (l'.nextIndex peer < l.nextIndex peer ∧ 1 ≤ l'.nextIndex peer) ∨
    l'.nextIndex peer ≤ l'.lastIncludedIndex

def RefusedRound (peer : Fin n) (before after : Raft n × Raft n) : Prop :=
  ∃ args text reply, before.1.requestTo peer = some args ∧
    before.2.appendEntries { args with sendLogs := text } = some (after.2, reply) ∧
    reply.success = false ∧ before.1.appendReply peer args reply = some after.1

theorem refused_moves {peer : Fin n} {args : AppendEntriesArgs} {text : Str}
    {reply : AppendEntriesReply} (paired : Paired l f) (built : l.requestTo peer = some args)
    (answered : f.appendEntries { args with sendLogs := text } = some (f', reply))
    (refused : reply.success = false) :
    f' = { f with state := .FOLLOWER } ∧
      ∃ next, l.appendReply peer args reply = some (l.setNextIndex peer next).saveRaftState ∧
        (BacksOff l f peer → next < l.nextIndex peer ∧ 1 ≤ next) ∧
        (¬BacksOff l f peer → next = l.nextIndex peer) := by
  have sameTerm : args.term = f.curTerm := (requestTo_within built).1.trans paired.term.symm
  obtain ⟨follower, checked, -⟩ := appendEntries_refused { args with sendLogs := text } sameTerm
    answered refused
  have refusal : Refusal f args l.curTerm reply := by
    rw [← paired.term]
    exact refusal_of_checkPrevLog paired.live checked
  exact ⟨follower, appendReply_of_refusal paired.baseL paired.baseF built refusal⟩

theorem round_moves {peer : Fin n} {before after : Raft n × Raft n}
    (paired : Paired before.1 before.2) (round : RefusedRound peer before after) :
    after.2 = { before.2 with state := .FOLLOWER } ∧
      ∃ next, after.1 = (before.1.setNextIndex peer next).saveRaftState ∧
        (BacksOff before.1 before.2 peer → next < before.1.nextIndex peer ∧ 1 ≤ next) ∧
        (¬BacksOff before.1 before.2 peer → next = before.1.nextIndex peer) := by
  obtain ⟨args, text, reply, built, answered, refused, handled⟩ := round
  obtain ⟨follower, next, moved, bounds⟩ := refused_moves paired built answered refused
  rw [handled, Option.some.injEq] at moved
  exact ⟨follower, next, moved, bounds⟩

theorem Paired.round {peer : Fin n} {before after : Raft n × Raft n}
    (paired : Paired before.1 before.2) (round : RefusedRound peer before after) :
    Paired after.1 after.2 := by
  obtain ⟨follower, next, leader, -⟩ := round_moves paired round
  rw [follower, leader]
  exact ⟨paired.baseL, paired.baseF, paired.term, paired.live⟩

theorem round_again {peer : Fin n} {before after : Raft n × Raft n}
    (paired : Paired before.1 before.2) (round : RefusedRound peer before after)
    (stays : ¬BacksOff before.1 before.2 peer) :
    (∃ later, RefusedRound peer after later) ∧ ¬BacksOff after.1 after.2 peer := by
  obtain ⟨follower, next, leader, -, same⟩ := round_moves paired round
  rw [same stays, setNextIndex_self] at leader
  have paired' := paired.round round
  obtain ⟨args, text, reply, built, answered, refused, -⟩ := round
  have sameTerm : args.term = before.2.curTerm :=
    (requestTo_within built).1.trans paired.term.symm
  obtain ⟨-, checked, parsed⟩ := appendEntries_refused { args with sendLogs := text } sameTerm
    answered refused
  have built' : after.1.requestTo peer = some args := by
    rw [leader]
    exact built
  have checked' : after.2.checkPrevLog { args with sendLogs := text } after.2.curTerm =
      some (some reply) := by
    have unchanged := checkPrevLog_congr (r := before.2) (s := after.2)
      (by rw [follower]; exact ⟨rfl, rfl, rfl⟩) (by rw [follower])
      { args with sendLogs := text } after.2.curTerm
    rw [unchanged, follower]
    exact checked
  have answered' := appendEntries_refuses { args with sendLogs := text }
    ((requestTo_within built').1.trans paired'.term.symm) checked' parsed
  obtain ⟨-, next', moved, -⟩ := refused_moves paired' built' answered' refused
  refine ⟨⟨(_, _), args, text, reply, built', answered', refused, moved⟩, ?_⟩
  rw [leader, follower]
  exact stays

theorem acc_iff_backsOff {peer : Fin n} (start : Raft n × Raft n)
    (paired : Paired start.1 start.2) :
    Acc (fun after before => RefusedRound peer before after) start ↔
      ∀ before after, Relation.ReflTransGen (RefusedRound peer) start before →
        RefusedRound peer before after → BacksOff before.1 before.2 peer := by
  constructor
  · intro ends before after reached round
    have endsHere : Acc (fun after before => RefusedRound peer before after) before ∧
        Paired before.1 before.2 := by
      clear round
      induction reached with
      | refl => exact ⟨ends, paired⟩
      | tail _ last ih => exact ⟨ih.1.inv last, ih.2.round last⟩
    obtain ⟨ends, paired⟩ := endsHere
    clear reached
    induction ends generalizing after with
    | intro before _ ih =>
      by_contra stays
      obtain ⟨⟨later, again⟩, stays'⟩ := round_again paired round stays
      exact stays' (ih after round later again (paired.round round))
  · intro backs
    generalize size : (start.1.nextIndex peer).toNat = k
    induction k using Nat.strong_induction_on generalizing start with
    | _ k ih =>
      refine Acc.intro _ fun after round => ?_
      have down := backs start after .refl round
      obtain ⟨-, next, leader, less, -⟩ := round_moves paired round
      obtain ⟨lower, positive⟩ := less down
      have value : after.1.nextIndex peer = next := by
        rw [leader]
        exact Function.update_self ..
      exact ih _ (by omega) after (paired.round round)
        (fun before later reached => backs before later (.head round reached)) rfl

/-- For a leader and a live follower in one term: an answer `m_success = false` is progress
exactly if the request was not the very first one and met no mark, and the follower is refused
for ever exactly if some of the refusals is no progress. -/
theorem conflict_backOff {peer : Fin n} (paired : Paired l f) :
    (∀ (l₀ : Raft n) (args : AppendEntriesArgs) (text : Str) (f' : Raft n)
        (reply : AppendEntriesReply), l₀.sendAppendEntries = some (l, peer, args) →
      f.appendEntries { args with sendLogs := text } = some (f', reply) → reply.success = false →
        ((∃ l', l.appendReply peer args reply = some l' ∧ Progress l l' peer) ↔
          BacksOff l f peer)) ∧
    (Acc (fun after before => RefusedRound peer before after) (l, f) ↔
      ∀ before after, Relation.ReflTransGen (RefusedRound peer) (l, f) before →
        RefusedRound peer before after → BacksOff before.1 before.2 peer) := by
  refine ⟨fun l₀ args text f' reply sent answered refused => ?_, acc_iff_backsOff (l, f) paired⟩
  have built := sendAppendEntries_requestTo sent
  obtain ⟨-, next, moved, less, same⟩ := refused_moves paired built answered refused
  have value : (l.setNextIndex peer next).saveRaftState.nextIndex peer = next :=
    Function.update_self ..
  have base : (l.setNextIndex peer next).saveRaftState.lastIncludedIndex = l.lastIncludedIndex := rfl
  rw [moved]
  constructor
  · rintro ⟨l', done, progress⟩
    cases done
    by_contra stays
    obtain ⟨-, prev, place⟩ := requestTo_within built
    rw [Progress, value, base, same stays] at progress
    omega
  · intro backs
    exact ⟨_, rfl, .inl (by rw [value]; exact less backs)⟩

def firstIndex : Raft 3 :=
  { fresh 0 (noFile true) none with
    curTerm := 1
    state := .LEADER
    logs := [⟨['a'], 1⟩, ⟨['b'], 1⟩]
    nextIndex := fun _ => 1 }

def snapShotAhead : Raft 3 :=
  { fresh 1 (noFile true) none with curTerm := 1, lastIncludedIndex := 2, lastIncludedTerm := 1 }

theorem firstIndex_makes_no_progress :
    ∃ l args f' reply, firstIndex.sendAppendEntries = some (l, 1, args) ∧ Paired l snapShotAhead ∧
      snapShotAhead.appendEntries { args with sendLogs := [] } = some (f', reply) ∧
      reply.success = false ∧
      ¬∃ l', l.appendReply 1 args reply = some l' ∧ Progress l l' 1 := by
  refine ⟨_, _, _, _, rfl, ⟨by decide, by decide, rfl, rfl⟩, rfl, rfl, ?_⟩
  rintro ⟨l', done, progress⟩
  cases done
  unfold Progress at progress
  exact absurd progress (by decide)

def fromEnd : Raft 3 := { firstIndex with nextIndex := fun _ => 3, isExistIndex := [1] }

def noEntries : Raft 3 := { fresh 1 (noFile true) none with curTerm := 1 }

theorem fromEnd_progress :
    { fromEnd with isExistIndex := [] }.sendAppendEntries =
        some (fromEnd, 1, ⟨1, 0, 2, 1, 0, []⟩) ∧
      noEntries.appendEntries ⟨1, 0, 2, 1, 0, []⟩ =
        some ({ noEntries with state := .FOLLOWER }, ⟨1, false, -1, 1⟩) ∧
      ∃ l', fromEnd.appendReply 1 ⟨1, 0, 2, 1, 0, []⟩ ⟨1, false, -1, 1⟩ = some l' ∧
        Progress fromEnd l' 1 := by
  have sent : { fromEnd with isExistIndex := [] }.sendAppendEntries =
      some (fromEnd, 1, ⟨1, 0, 2, 1, 0, []⟩) := rfl
  have answered : noEntries.appendEntries ⟨1, 0, 2, 1, 0, []⟩ =
      some ({ noEntries with state := .FOLLOWER }, ⟨1, false, -1, 1⟩) := rfl
  have paired : Paired fromEnd noEntries := ⟨by decide, by decide, rfl, rfl⟩
  exact ⟨sent, answered, ((conflict_backOff paired).1 _ _ [] _ _ sent answered rfl).mpr
    ⟨by decide, by decide⟩⟩

end Raft

end ProjectsCpp.KvRaft
