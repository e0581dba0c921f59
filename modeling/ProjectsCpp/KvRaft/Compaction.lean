import ProjectsCpp.KvRaft.Cluster
import ProjectsCpp.KvRaft.Indices

/-! What a snapshot does to the log of one server. `installSnapShot` should keep what the
follower has after the snapshot if its log agrees with the leader's at the snapshot, but
looks at the last entry instead. `recvSnapShot` moves the base of the log up to what the kv
server has applied; it reads the entry there, which is only in the log above the base. -/

namespace ProjectsCpp.KvRaft
open ProjectsCpp.Text

namespace Raft
variable {n : Nat} {r s : Raft n}

/-! ### Reading a shortened log -/

theorem entryAt_of_drop {base : Int} (up : r.lastIncludedIndex ≤ base)
    (newBase : s.lastIncludedIndex = base)
    (logs : s.logs = r.logs.drop (base - r.lastIncludedIndex).toNat) {i : Int} (above : base < i) :
    s.entryAt i = r.entryAt i := by
  rw [entryAt_eq, entryAt_eq, newBase, logs, if_neg (by omega), if_neg (by omega),
    List.getElem?_drop]
  congr 1
  omega

theorem entryAt_nil (nil : s.logs = []) (i : Int) : s.entryAt i = none := by
  rw [entryAt_eq, nil]
  split <;> rfl

theorem within_of_entryAt {i : Int} {e : LogEntry} (found : r.entryAt i = some e) :
    r.lastIncludedIndex < i ∧ i ≤ r.lastIndex := by
  rw [entryAt_eq] at found
  split at found
  · cases found
  · have inside := (List.getElem?_eq_some_iff.mp found).1
    rw [lastIndex]
    omega

theorem entryAt_lastIndex (entries : r.logs ≠ []) : r.entryAt r.lastIndex = r.logs.getLast? := by
  have positive := List.length_pos_of_ne_nil entries
  rw [entryAt_eq, lastIndex, if_neg (by omega), List.getLast?_eq_getElem?]
  congr 1
  omega

/-! ### Snapshots from the leader -/

def HoldsTerm (r : Raft n) (index term : Int) : Prop :=
  (r.entryAt index).map LogEntry.term = some term

instance (r : Raft n) (index term : Int) : Decidable (r.HoldsTerm index term) := by
  unfold HoldsTerm
  infer_instance

structure Installed (r : Raft n) (args : InstallSnapShotArgs) (s : Raft n) : Prop where
  index : s.lastIncludedIndex = args.lastIncludedIndex
  term : s.lastIncludedTerm = args.lastIncludedTerm
  keeps : r.HoldsTerm args.lastIncludedIndex args.lastIncludedTerm →
    ∀ i, args.lastIncludedIndex < i → s.entryAt i = r.entryAt i
  drops : ¬r.HoldsTerm args.lastIncludedIndex args.lastIncludedTerm → s.logs = []

def LastTermTells (r : Raft n) (args : InstallSnapShotArgs) : Prop :=
  args.lastIncludedIndex < r.lastIndex →
    (r.HoldsTerm r.lastIndex args.lastIncludedTerm ↔
      r.HoldsTerm args.lastIncludedIndex args.lastIncludedTerm)

theorem installSnapShot_logs {args : InstallSnapShotArgs} (current : ¬args.term < r.curTerm)
    (ahead : r.lastIncludedIndex < args.lastIncludedIndex) :
    ∃ s reply push, r.installSnapShot args = some (s, reply, push) ∧
      s.lastIncludedIndex = args.lastIncludedIndex ∧ s.lastIncludedTerm = args.lastIncludedTerm ∧
      s.logs = if args.lastIncludedIndex < r.lastIndex ∧
          r.HoldsTerm r.lastIndex args.lastIncludedTerm then
        r.logs.drop (args.lastIncludedIndex - r.lastIncludedIndex).toNat else [] := by
  have entered := enterTerm_log r args.term
  have logs : (r.enterTerm args.term).logsAfterSnapShot args =
      some (if args.lastIncludedIndex < r.lastIndex ∧
          r.HoldsTerm r.lastIndex args.lastIncludedTerm then
        r.logs.drop (args.lastIncludedIndex - r.lastIncludedIndex).toNat else []) := by
    rw [logsAfterSnapShot, entered.lastIndex]
    by_cases inside : args.lastIncludedIndex < r.lastIndex
    · obtain ⟨e, found⟩ := Option.isSome_iff_exists.mp
        (entryAt_isSome (r := r) (ahead.trans inside) (le_refl _))
      have position : (r.enterTerm args.term).idxToCompressLogPos args.lastIncludedIndex + 1 =
          args.lastIncludedIndex - r.lastIncludedIndex := by
        rw [idxToCompressLogPos, entered.index]
        omega
      rw [if_pos inside, entered.entryAt, found, Option.map_some, entered.logs, position]
      by_cases same : e.term = args.lastIncludedTerm
      · rw [if_neg (not_not_intro same), if_pos ⟨inside, by rw [HoldsTerm, found, ← same]; rfl⟩]
      · rw [if_pos same, if_neg]
        rintro ⟨-, holds⟩
        rw [HoldsTerm, found, Option.map_some, Option.some.injEq] at holds
        exact same holds
    · rw [if_neg inside, if_neg fun both => inside both.1]
  simp only [installSnapShot, if_neg current, entered.index, if_neg (not_le.mpr ahead), logs,
    Option.map_some]
  exact ⟨_, _, _, rfl, rfl, rfl, rfl⟩

/-- `installSnapShot` never reads outside `m_logs`, and does what it has to exactly if the
last entry tells the term at the snapshot. -/
theorem installSnapShot_installs_iff {args : InstallSnapShotArgs} (current : r.curTerm ≤ args.term)
    (ahead : r.lastIncludedIndex < args.lastIncludedIndex) :
    (r.installSnapShot args).isSome ∧
      ((∃ s reply push, r.installSnapShot args = some (s, reply, push) ∧ Installed r args s) ↔
        r.LastTermTells args) := by
  obtain ⟨s, reply, push, run, index, term, logs⟩ :=
    installSnapShot_logs (not_lt.mpr current) ahead
  rw [run]
  refine ⟨rfl, ?_⟩
  constructor
  · rintro ⟨_, _, _, same, installed⟩ inside
    cases same
    obtain ⟨e, last⟩ := Option.isSome_iff_exists.mp
      (entryAt_isSome (r := r) (ahead.trans inside) (le_refl _))
    constructor
    · intro holds
      by_contra apart
      rw [if_pos ⟨inside, holds⟩, installed.drops apart, eq_comm, List.drop_eq_nil_iff] at logs
      have len : r.lastIndex = r.lastIncludedIndex + r.logs.length := rfl
      omega
    · intro holds
      by_contra apart
      rw [if_neg fun both => apart both.2] at logs
      have kept := installed.keeps holds r.lastIndex inside
      rw [entryAt_nil logs, last] at kept
      cases kept
  · intro tells
    refine ⟨s, reply, push, rfl, index, term, fun holds i above => ?_, fun apart => ?_⟩
    · by_cases inside : args.lastIncludedIndex < r.lastIndex
      · rw [if_pos ⟨inside, (tells inside).mpr holds⟩] at logs
        exact entryAt_of_drop ahead.le index logs above
      · rw [if_neg fun both => inside both.1] at logs
        rw [entryAt_nil logs]
        cases found : r.entryAt i with
        | none => rfl
        | some e => exact absurd (within_of_entryAt found).2 (by omega)
    · rw [logs, if_neg]
      rintro ⟨inside, holds⟩
      exact apart ((tells inside).mp holds)

def twoTerms : Raft 3 :=
  { fresh 1 (noFile true) none with curTerm := 2, logs := [⟨['a'], 1⟩, ⟨['b'], 2⟩] }

def firstEntry : InstallSnapShotArgs := ⟨2, 0, 1, 1, ['s']⟩

theorem installSnapShot_drops_entry :
    twoTerms.curTerm ≤ firstEntry.term ∧
      twoTerms.lastIncludedIndex < firstEntry.lastIncludedIndex ∧
      ¬∃ s reply push, twoTerms.installSnapShot firstEntry = some (s, reply, push) ∧
        Installed twoTerms firstEntry s := by
  refine ⟨by decide, by decide, ?_⟩
  rintro ⟨s, reply, push, run, installed⟩
  obtain ⟨s', _, _, run', -, -, logs⟩ :=
    installSnapShot_logs (show ¬firstEntry.term < twoTerms.curTerm by decide) (by decide)
  rw [run, Option.some.injEq, Prod.mk.injEq] at run'
  rw [← run'.1, if_neg (by decide)] at logs
  have kept := installed.keeps (by decide) 2 (by decide)
  rw [entryAt_nil logs] at kept
  exact absurd kept (by decide)

theorem installSnapShot_oneTerm :
    ∃ s reply push, { twoTerms with logs := [⟨['a'], 1⟩, ⟨['b'], 1⟩] }.installSnapShot firstEntry =
      some (s, reply, push) ∧
        Installed { twoTerms with logs := [⟨['a'], 1⟩, ⟨['b'], 1⟩] } firstEntry s :=
  (installSnapShot_installs_iff (by decide) (by decide)).2.mpr fun _ => by decide

/-! ### Snapshots of the kv server -/

/-- What a compaction has to leave behind: the lock is free, the base has not gone back, the
log ends where it ended and has the same entries above the base. -/
structure Compacts (r s : Raft n) : Prop where
  unlocked : s.lockKept = false
  base : r.lastIncludedIndex ≤ s.lastIncludedIndex
  lastIndex : s.lastIndex = r.lastIndex
  lastTerm : s.lastTerm = r.lastTerm
  kept : ∀ i, s.lastIncludedIndex < i → s.entryAt i = r.entryAt i

theorem recvSnapShot_run (snapShot : Str) {index : Int} (above : r.lastIncludedIndex < index)
    (within : index ≤ r.lastIndex) :
    ∃ s e, r.recvSnapShot snapShot index = some s ∧ r.entryAt index = some e ∧
      s.lastIncludedIndex = index ∧ s.lastIncludedTerm = e.term ∧
      s.logs = r.logs.drop (index - r.lastIncludedIndex).toNat ∧ s.lockKept = r.lockKept := by
  obtain ⟨e, found⟩ := Option.isSome_iff_exists.mp (entryAt_isSome above within)
  rw [recvSnapShot, if_neg (by omega), found]
  exact ⟨_, e, rfl, rfl, rfl, rfl, rfl, rfl⟩

theorem lastTerm_eq (r : Raft n) :
    r.lastTerm = ((r.entryAt r.lastIndex).map LogEntry.term).getD r.lastIncludedTerm := by
  by_cases nil : r.logs = []
  · rw [entryAt_nil nil, lastTerm, nil]
    rfl
  · rw [entryAt_lastIndex nil, lastTerm, List.getLast?_eq_some_getLast nil]
    rfl

/-- For a call with an index up to the end of the log, `recvSnapShot` reads inside `m_logs` and
compacts the log exactly if the index is above the base. -/
theorem recvSnapShot_compacts_iff {snapShot : Str} {index : Int} (free : r.lockKept = false)
    (within : index ≤ r.lastIndex) :
    (∃ s, r.recvSnapShot snapShot index = some s ∧ Compacts r s) ↔ r.lastIncludedIndex < index := by
  constructor
  · rintro ⟨s, run, compacts⟩
    rw [recvSnapShot] at run
    split at run
    · -- the early return keeps the lock
      cases run
      cases compacts.unlocked
    · obtain ⟨e, found, -⟩ := Option.map_eq_some_iff.mp run
      exact (within_of_entryAt found).1
  · intro above
    obtain ⟨s, e, run, found, base, term, logs, lock⟩ := recvSnapShot_run snapShot above within
    have last := (recvSnapShot_indices run).2.2.1
    have kept : ∀ i, s.lastIncludedIndex < i → s.entryAt i = r.entryAt i := fun i beyond =>
      entryAt_of_drop above.le base logs (base ▸ beyond)
    refine ⟨s, run, lock.trans free, base ▸ above.le, last, ?_, kept⟩
    rw [lastTerm_eq, lastTerm_eq, last]
    by_cases whole : index = r.lastIndex
    · -- the whole log goes, and the base has the term of its last entry
      have nothing : s.entryAt r.lastIndex = none := by
        rw [entryAt_eq, base, if_pos whole.ge]
      rw [nothing, ← whole, found, term]
      rfl
    · rw [kept r.lastIndex (by omega)]
      obtain ⟨e', lastEntry⟩ := Option.isSome_iff_exists.mp
        (entryAt_isSome (r := r) (above.trans_le within) (le_refl _))
      rw [lastEntry]
      rfl

def oneEntry : Raft 3 := { fresh 1 (noFile true) none with curTerm := 1, logs := [⟨['a'], 1⟩] }

theorem recvSnapShot_at_base_fails :
    oneEntry.lockKept = false ∧ 0 ≤ oneEntry.lastIndex ∧
      ¬∃ s, oneEntry.recvSnapShot ['.'] 0 = some s ∧ Compacts oneEntry s := by
  refine ⟨rfl, by decide, ?_⟩
  rintro ⟨s, run, -⟩
  exact nomatch run

def threeEntries : Raft 3 :=
  { fresh 1 (noFile true) none with curTerm := 2, logs := [⟨['a'], 1⟩, ⟨['b'], 1⟩, ⟨['c'], 2⟩] }

theorem recvSnapShot_middle :
    ∃ s, threeEntries.recvSnapShot ['.'] 2 = some s ∧ Compacts threeEntries s ∧
      s.lastIncludedTerm = 1 ∧ s.logs = [⟨['c'], 2⟩] := by
  have compacts : ∃ s, threeEntries.recvSnapShot ['.'] 2 = some s ∧ Compacts threeEntries s :=
    (recvSnapShot_compacts_iff rfl (by decide)).mpr (by decide)
  obtain ⟨s, run, kept⟩ := compacts
  obtain rfl := Option.some.inj run
  exact ⟨_, rfl, kept, rfl, rfl⟩

end Raft

open Raft

/-! ### The base of every server -/

theorem Raft.installSnapShot_base {n : Nat} {r s : Raft n} {args : InstallSnapShotArgs}
    {reply : InstallSnapSHotReply} {push : Bool}
    (run : r.installSnapShot args = some (s, reply, push)) :
    r.lastIncludedIndex ≤ s.lastIncludedIndex := by
  rcases installSnapShot_indices run with same | ⟨-, ahead, base, -⟩
  · exact same.log.index.ge
  · exact base ▸ ahead.le

theorem Raft.recvSnapShot_base {n : Nat} {r s : Raft n} {snapShot : Str} {index : Int}
    (run : r.recvSnapShot snapShot index = some s) :
    r.lastIncludedIndex ≤ s.lastIncludedIndex := by
  rw [recvSnapShot] at run
  split at run
  · cases run
    exact le_refl _
  · obtain ⟨e, found, rfl⟩ := Option.map_eq_some_iff.mp run
    exact (within_of_entryAt found).1.le

theorem Raft.voteReply_base {n : Nat} {r s : Raft n} {reply : RequestVoteReply}
    (run : r.voteReply reply = some s) : s.lastIncludedIndex = r.lastIncludedIndex := by
  simp only [voteReply] at run
  split at run
  · -- the file is read again, and leaves the base alone
    rw [readRaftState] at run
    split at run
    · cases run
      rfl
    · obtain ⟨p, -, rfl⟩ := Option.map_eq_some_iff.mp run
      rfl
  · split at run <;> cases run <;> rfl

theorem Process.base_le {n : Nat} {p q : Process n} {a : Action n} {o : Output n}
    (next : p.step a = some (q, o)) : p.raft.lastIncludedIndex ≤ q.raft.lastIncludedIndex := by
  cases Process.ran_of_step next with
  | electionStart idle run => exact (electionStart_log run).index.ge
  | electionWake waits run => exact (electionWake_log run).index.ge
  | callRequestVote thread run => exact (callRequestVote_log run).index.ge
  | requestVote => exact (requestVote_log _ _).index.ge
  | voteReply call run => exact (voteReply_base run).ge
  | processEntries run => exact (processEntries_log run).index.ge
  | sendAppendEntries thread run => exact (sendAppendEntries_log run).index.ge
  | appendEntries run => exact (appendEntries_base run).1.ge
  | appendReply call run => exact (appendReply_log run).index.ge
  | sendInstallSnapShot thread run => exact (sendInstallSnapShot_log run).index.ge
  | installSnapShot run => exact installSnapShot_base run
  | installReply call run => exact (installReply_log run).index.ge
  | installSnapShotTokvServer waits => exact (installSnapShotTokvServer_log _).index.ge
  | start => exact (start_log _ _).1.ge
  | applyLog run => exact (applyLog_log run).index.ge
  | recvSnapShot run => exact recvSnapShot_base run

theorem Cluster.base_nonneg {n : Nat} {atomic : Bool} {c : Cluster n}
    (reach : Run.Reachable (Cluster.machine n atomic) c) (i : Fin n) :
    0 ≤ (c.node i).process.raft.lastIncludedIndex := by
  refine reach.invariant (P := fun c => ∀ i, 0 ≤ (c.node i).process.raft.lastIncludedIndex)
    ?_ ?_ i
  · rintro c rfl i
    exact le_refl 0
  · intro c e d nonneg _ next i
    have ran : ∃ j a q o, c.Ran j a q o d := by
      rcases Cluster.step_cases next with ⟨j, a, q, o, -, -, ran, -⟩ | ⟨k, p, q, o, -, -, ran, -⟩
      · exact ⟨j, a, q, o, ran⟩
      · exact ⟨p.target, p.action, q, o, ran⟩
    obtain ⟨j, a, q, o, ran⟩ := ran
    by_cases same : i = j
    · rw [same, ran.self]
      exact (nonneg j).trans (Process.base_le ran.section_)
    · rw [ran.other same]
      exact nonneg i

end ProjectsCpp.KvRaft
