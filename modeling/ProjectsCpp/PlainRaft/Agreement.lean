import ProjectsCpp.PlainRaft.Node

/-! What a successful answer to AppendEntries says about the follower's log, and how much of
the two logs the index that the leader computes from it may cover. An empty follower log
takes every request, so the answer says nothing there unless the request starts at 0. -/

namespace ProjectsCpp.PlainRaft
open ProjectsCpp.Text ProjectsCpp.KvRaft

/-! ### Common prefixes -/

def commonLength : List LogEntry → List LogEntry → Nat
  | a :: as, b :: bs => if a = b then commonLength as bs + 1 else 0
  | _, _ => 0

theorem le_commonLength_iff {m : Nat} {as bs : List LogEntry} :
    m ≤ commonLength as bs ↔ m ≤ as.length ∧ m ≤ bs.length ∧ as.take m = bs.take m := by
  induction as generalizing bs m with
  | nil =>
    rw [commonLength, List.length_nil]
    constructor
    · intro le
      have zero : m = 0 := by omega
      rw [zero]
      exact ⟨le_refl _, Nat.zero_le _, rfl⟩
    · exact fun h => h.1
    · simp
  | cons a as ih =>
    cases bs with
    | nil =>
      rw [commonLength, List.length_nil]
      · constructor
        · intro le
          have zero : m = 0 := by omega
          rw [zero]
          exact ⟨Nat.zero_le _, le_refl _, rfl⟩
        · exact fun h => h.2.1
      · simp
    | cons b bs =>
      cases m with
      | zero => simp
      | succ m =>
        by_cases same : a = b
        · rw [commonLength, if_pos same, Nat.add_le_add_iff_right, ih, same]
          simp
        · rw [commonLength, if_neg same]
          simp [same]

theorem commonLength_append {as bs cs ds : List LogEntry} (same : as = bs) :
    commonLength (as ++ cs) (bs ++ ds) = as.length + commonLength cs ds := by
  subst same
  induction as with
  | nil => simp
  | cons a as ih =>
    rw [List.cons_append, List.cons_append, commonLength, if_pos rfl, ih, List.length_cons]
    omega

theorem commonLength_of_ne {as bs cs ds : List LogEntry} (length : as.length = bs.length)
    (differ : as ≠ bs) : commonLength (as ++ cs) (bs ++ ds) = commonLength as bs := by
  induction as generalizing bs with
  | nil =>
    have nil : bs = [] := List.eq_nil_of_length_eq_zero length.symm
    exact absurd nil.symm differ
  | cons a as ih =>
    cases bs with
    | nil => cases length
    | cons b bs =>
      rw [List.cons_append, List.cons_append, commonLength, commonLength]
      by_cases same : a = b
      · rw [if_pos same, if_pos same, ih (Nat.succ.inj length) fun h => differ (by rw [same, h])]
      · rw [if_neg same, if_neg same]

/-! ### Entries that survive the wire -/

theorem command_clean_of_read {text : Str} {logs : List LogEntry} {e : LogEntry}
    (read : getCmdAndTerm text = some logs) (member : e ∈ logs) :
    ',' ∉ e.command ∧ ';' ∉ e.command := by
  obtain ⟨piece, inside, cut⟩ := mem_of_mapM read member
  obtain ⟨⟨command, term⟩, split, rfl⟩ := Option.map_eq_some_iff.mp cut
  obtain ⟨rfl, clean⟩ := eq_of_cutAt split
  refine ⟨clean, fun semicolon => (mem_pieces inside).2 ?_⟩
  exact List.mem_append_left _ semicolon

theorem length_read_le {logs received : List LogEntry}
    (clean : ∀ e ∈ logs, ',' ∉ e.command ∧ ';' ∉ e.command)
    (read : getCmdAndTerm (transmit (sendLogsOf logs)) = some received) :
    received.length ≤ logs.length := by
  have words : ∀ w ∈ logs.map LogEntry.text, ';' ∉ w := by
    intro w member
    obtain ⟨e, inside, rfl⟩ := List.mem_map.mp member
    exact e.notMem_text (clean e inside).2 (by decide) (by decide) (by decide)
  have bound := (length_pieces_take_ended (logs.map LogEntry.text) words
    ((sendLogsOf logs).length % 65536)).1
  rw [List.length_map] at bound
  rw [length_of_mapM read]
  exact bound

theorem eq_of_prefix_read {logs received : List LogEntry}
    (read : getCmdAndTerm (transmit (sendLogsOf logs)) = some received)
    (first : logs <+: received) : received = logs := by
  have clean : ∀ e ∈ logs, ',' ∉ e.command ∧ ';' ∉ e.command := fun e member =>
    command_clean_of_read read (first.subset member)
  exact (first.eq_of_length_le (length_read_le clean read)).symm

theorem not_read_later {logs received : List LogEntry} {k : Nat} (later : 0 < k)
    (read : getCmdAndTerm (transmit (sendLogsOf logs)) = some received) (some_ : logs ≠ [])
    (placed : ∀ i < logs.length, received[k + i]? = logs[i]?) : False := by
  have clean : ∀ e ∈ logs, ',' ∉ e.command ∧ ';' ∉ e.command := by
    intro e member
    obtain ⟨i, bound, rfl⟩ := List.getElem_of_mem member
    have there := placed i bound
    rw [List.getElem?_eq_getElem bound] at there
    exact command_clean_of_read read (List.mem_of_getElem? there)
  have length := length_read_le clean read
  have positive := List.length_pos_of_ne_nil some_
  have last := placed (logs.length - 1) (by omega)
  rw [List.getElem?_eq_none (by omega), List.getElem?_eq_getElem (by omega)] at last
  cases last

namespace Raft
variable {n : Nat} {leader leader₁ leader₂ follower follower' : Raft n} {peer : Fin n}
  {args : AppendEntriesArgs} {reply : AppendEntriesReply}

/-! ### The request -/

theorem sendAppendEntries_spec (built : leader.sendAppendEntries = some (leader₁, peer, args)) :
    args.prevLogIndex = leader.nextIndex peer - 1 ∧ 0 ≤ args.prevLogIndex ∧
      args.prevLogIndex ≤ leader.logs.length ∧
      args.sendLogs = sendLogsOf (leader.logsAfter args.prevLogIndex) ∧
      leader.prevTermOf args.prevLogIndex = some args.prevLogTerm := by
  obtain ⟨⟨p, s⟩, taken, built⟩ := Option.bind_eq_some_iff.mp built
  obtain ⟨prevLogTerm, prev, same⟩ := Option.map_eq_some_iff.mp built
  cases same
  refine ⟨rfl, ?_, ?_, rfl, prev⟩
  all_goals
    rw [prevTermOf] at prev
    split at prev
    · rename_i zero
      simp only [zero]
      omega
    · obtain ⟨e, entry, -⟩ := Option.map_eq_some_iff.mp prev
      rw [entryAt] at entry
      split at entry
      · cases entry
      · have bound := (List.getElem?_eq_some_iff.mp entry).1
        dsimp only
        omega

def Refuses (r : Raft n) (args : AppendEntriesArgs) : Prop :=
  args.term < r.curTerm ∨ (r.logs ≠ [] ∧ ((r.logs.length : Int) < args.prevLogIndex ∨
    (0 < args.prevLogIndex ∧ (r.entryAt args.prevLogIndex).map LogEntry.term ≠
      some args.prevLogTerm)))

@[simp] theorem commitUpTo_logs (r : Raft n) (leaderCommit : Int) :
    (r.commitUpTo leaderCommit).logs = r.logs := by
  rw [commitUpTo]
  split <;> rfl

theorem appendEntries_success
    (done : follower.appendEntries args = some (follower', reply)) (success : reply.success = true) :
    ¬follower.Refuses args ∧ reply.term = follower.curTerm ∧
      ∃ recvLog, getCmdAndTerm args.sendLogs = some recvLog ∧
        follower'.logs = follower.logs.take args.prevLogIndex.toNat ++ recvLog := by
  obtain ⟨recvLog, read, done⟩ := Option.bind_eq_some_iff.mp done
  by_cases old : args.term < follower.curTerm
  · rw [if_pos old, Option.some.injEq, Prod.mk.injEq] at done
    rw [← done.2] at success
    cases success
  · rw [if_neg old] at done
    by_cases nil : follower.logs = []
    · rw [if_pos (show (follower.enterTerm args.term).logs = [] from nil), Option.some.injEq,
        Prod.mk.injEq] at done
      obtain ⟨rfl, rfl⟩ := done
      refine ⟨fun refuses => refuses.elim old fun h => h.1 nil, rfl, recvLog, read, ?_⟩
      rw [commitUpTo_logs, nil, List.take_nil, List.nil_append]
    · rw [if_neg (show ¬(follower.enterTerm args.term).logs = [] from nil)] at done
      obtain ⟨checked, check, done⟩ := Option.map_eq_some_iff.mp done
      cases checked with
      | some refusal =>
        cases done
        rw [checkPrevLog] at check
        split at check
        · cases check
          cases success
        · split at check
          · obtain ⟨e, -, check⟩ := Option.map_eq_some_iff.mp check
            split at check
            · cases check
              cases success
            · cases check
          · cases check
      | none =>
        cases done
        refine ⟨fun refuses => ?_, rfl, recvLog, read, by rw [commitUpTo_logs]; rfl⟩
        rw [checkPrevLog] at check
        split at check
        · cases check
        · rename_i inside
          rcases refuses with h | ⟨-, short | ⟨positive, term⟩⟩
          · exact old h
          · exact inside (.inr short)
          · rw [if_pos positive] at check
            obtain ⟨e, entry, check⟩ := Option.map_eq_some_iff.mp check
            split at check
            · cases check
            · rename_i same
              apply term
              have found : follower.entryAt args.prevLogIndex = some e := entry
              rw [found, Option.map_some, not_not.mp same]

theorem exists_success {recvLog : List LogEntry} (nonneg : 0 ≤ args.prevLogIndex)
    (takes : ¬follower.Refuses args) (read : getCmdAndTerm args.sendLogs = some recvLog) :
    ∃ follower' reply, follower.appendEntries args = some (follower', reply) ∧
      reply.success = true := by
  obtain ⟨current, fits⟩ := not_or.mp takes
  rw [appendEntries, read, Option.bind_some, if_neg current]
  by_cases nil : follower.logs = []
  · rw [if_pos (show (follower.enterTerm args.term).logs = [] from nil)]
    exact ⟨_, _, rfl, rfl⟩
  · have inside : ¬((follower.logs.length : Int) < args.prevLogIndex) := fun h => fits ⟨nil, .inl h⟩
    have outer : ¬(args.prevLogIndex < 0 ∨
        ((follower.enterTerm args.term).logs.length : Int) < args.prevLogIndex) :=
      fun h => h.elim (fun h => by omega) inside
    have check : (follower.enterTerm args.term).checkPrevLog args follower.curTerm = some none := by
      rw [checkPrevLog, if_neg outer]
      by_cases positive : args.prevLogIndex > 0
      · have term : (follower.entryAt args.prevLogIndex).map LogEntry.term =
            some args.prevLogTerm := by
          by_contra other
          exact fits ⟨nil, .inr ⟨positive, other⟩⟩
        obtain ⟨e, entry, same⟩ := Option.map_eq_some_iff.mp term
        have found : (follower.enterTerm args.term).entryAt args.prevLogIndex = some e := entry
        rw [if_pos positive, found, Option.map_some, if_neg (not_not.mpr same)]
      · rw [if_neg positive]
    rw [if_neg (show ¬(follower.enterTerm args.term).logs = [] from nil), check]
    exact ⟨_, _, rfl, rfl⟩

/-! ### Agreement -/

def Agrees (logs : List LogEntry) (args : AppendEntriesArgs) (entries : List LogEntry) : Prop :=
  (0 < args.prevLogIndex →
    logs[(args.prevLogIndex - 1).toNat]?.map LogEntry.term = some args.prevLogTerm) ∧
  ∀ i < entries.length, logs[args.prevLogIndex.toNat + i]? = entries[i]?

instance (logs : List LogEntry) (args : AppendEntriesArgs) (entries : List LogEntry) :
    Decidable (Agrees logs args entries) := by
  unfold Agrees
  infer_instance

theorem agrees_iff {entries recvLog : List LogEntry} (nonneg : 0 ≤ args.prevLogIndex)
    (text : args.sendLogs = transmit (sendLogsOf entries)) (takes : ¬follower.Refuses args)
    (read : getCmdAndTerm args.sendLogs = some recvLog) :
    Agrees (follower.logs.take args.prevLogIndex.toNat ++ recvLog) args entries ↔
      (args.prevLogIndex = 0 ∨ follower.logs ≠ []) ∧ recvLog = entries := by
  rw [text] at read
  obtain ⟨-, fits⟩ := not_or.mp takes
  by_cases start : args.prevLogIndex = 0 ∨ follower.logs ≠ []
  · have inside : args.prevLogIndex.toNat ≤ follower.logs.length := by
      rcases start with zero | some_
      · omega
      · by_contra short
        exact fits ⟨some_, .inl (by omega)⟩
    have length : (follower.logs.take args.prevLogIndex.toNat).length = args.prevLogIndex.toNat :=
      List.length_take_of_le inside
    have later : ∀ i, (follower.logs.take args.prevLogIndex.toNat ++
        recvLog)[args.prevLogIndex.toNat + i]? = recvLog[i]? := fun i => by
      rw [List.getElem?_append_right (by omega), length, Nat.add_sub_cancel_left]
    have at_ : 0 < args.prevLogIndex → (follower.logs.take args.prevLogIndex.toNat ++
        recvLog)[(args.prevLogIndex - 1).toNat]?.map LogEntry.term = some args.prevLogTerm := by
      intro positive
      have some_ : follower.logs ≠ [] := by
        intro nil
        rw [nil, List.length_nil] at inside
        omega
      have term : (follower.entryAt args.prevLogIndex).map LogEntry.term =
          some args.prevLogTerm := by
        by_contra other
        exact fits ⟨some_, .inr ⟨positive, other⟩⟩
      rw [entryAt, if_neg (by omega)] at term
      rw [List.getElem?_append_left (by omega), List.getElem?_take_of_lt (by omega)]
      exact term
    constructor
    · intro agrees
      refine ⟨start, eq_of_prefix_read read (List.prefix_iff_getElem?.mpr fun i bound => ?_)⟩
      rw [← later, agrees.2 i bound, List.getElem?_eq_getElem bound]
    · rintro ⟨-, rfl⟩
      exact ⟨at_, fun i _ => later i⟩
  · -- an empty log that starts behind its end
    refine ⟨fun agrees => ?_, fun h => absurd h.1 start⟩
    obtain ⟨ne, nil⟩ := not_or.mp start
    have empty : follower.logs = [] := not_not.mp nil
    rw [empty, List.take_nil, List.nil_append] at agrees
    have positive : 0 < args.prevLogIndex := by omega
    by_cases none : entries = []
    · rw [none] at read
      have nothing : recvLog = [] := (Option.some.inj read).symm
      have there := agrees.1 positive
      rw [nothing] at there
      cases there
    · exact (not_read_later (by omega) read none agrees.2).elim

/-! ### The index that the leader computes -/

/-- The index computed at `m_nextIndex` stays in the part that the logs share: they agree up to
`prevLogIndex` and `m_nextIndex` is not past it, or it ends before they differ. -/
def MatchLands (leader leader₂ follower : Raft n) (peer : Fin n) (args : AppendEntriesArgs) :
    Prop :=
  let k := args.prevLogIndex.toNat
  if leader.logs.take k = follower.logs.take k then leader₂.nextIndex peer ≤ args.prevLogIndex + 1
  else leader₂.nextIndex peer + (leader.logsAfter args.prevLogIndex).length - 1 ≤
    commonLength (leader.logs.take k) (follower.logs.take k)

instance (leader leader₂ follower : Raft n) (peer : Fin n) (args : AppendEntriesArgs) :
    Decidable (MatchLands leader leader₂ follower peer args) := by
  unfold MatchLands
  infer_instance

theorem countReply_spec {sent : List LogEntry} (read : getCmdAndTerm args.sendLogs = some sent)
    {leader₃ : Raft n} (counted : leader₂.countReply peer args = some leader₃) :
    leader₃.logs = leader₂.logs ∧
      leader₃.matchIndex peer = leader₂.nextIndex peer + sent.length - 1 := by
  rw [countReply, read, Option.map_some, Option.some.injEq] at counted
  rw [← counted]
  exact ⟨rfl, Function.update_self ..⟩

theorem matchLands_iff (peer : Fin n) (nonneg : 0 ≤ args.prevLogIndex)
    (fits : args.prevLogIndex ≤ leader.logs.length)
    (inside : args.prevLogIndex.toNat ≤ follower.logs.length)
    (grown : leader.logs <+: leader₂.logs) :
    leader₂.nextIndex peer + (leader.logsAfter args.prevLogIndex).length - 1 ≤
      (commonLength leader₂.logs (follower.logs.take args.prevLogIndex.toNat ++
        leader.logsAfter args.prevLogIndex) : Int) ↔
    MatchLands leader leader₂ follower peer args := by
  obtain ⟨more, rfl_⟩ := grown
  have split : leader.logs = leader.logs.take args.prevLogIndex.toNat ++
      leader.logsAfter args.prevLogIndex := by
    rw [logsAfter, if_neg (by omega), List.take_append_drop]
  have all : leader₂.logs = leader.logs.take args.prevLogIndex.toNat ++
      (leader.logsAfter args.prevLogIndex ++ more) := by
    rw [← List.append_assoc, ← split, rfl_]
  have lengths : (leader.logs.take args.prevLogIndex.toNat).length = args.prevLogIndex.toNat :=
    List.length_take_of_le (by omega)
  rw [all, MatchLands]
  by_cases same : leader.logs.take args.prevLogIndex.toNat =
      follower.logs.take args.prevLogIndex.toNat
  · have tail : commonLength (leader.logsAfter args.prevLogIndex ++ more)
        (leader.logsAfter args.prevLogIndex) = (leader.logsAfter args.prevLogIndex).length := by
      have whole : commonLength (leader.logsAfter args.prevLogIndex ++ more)
          (leader.logsAfter args.prevLogIndex ++ []) = _ := commonLength_append rfl
      rw [List.append_nil] at whole
      rw [whole]
      cases more <;> rfl
    rw [if_pos same, commonLength_append same, tail, lengths]
    omega
  · rw [if_neg same, commonLength_of_ne (by rw [lengths, List.length_take_of_le inside]) same]

theorem counted_lands_iff (peer : Fin n) (nonneg : 0 ≤ args.prevLogIndex)
    (fits : args.prevLogIndex ≤ leader.logs.length)
    (inside : args.prevLogIndex.toNat ≤ follower.logs.length)
    (grown : leader.logs <+: leader₂.logs)
    (text : args.sendLogs = sendLogsOf (leader.logsAfter args.prevLogIndex))
    (clean : ∀ e ∈ leader.logsAfter args.prevLogIndex, ',' ∉ e.command ∧ ';' ∉ e.command) :
    (follower.curTerm ≤ leader₂.curTerm → ∀ leader₃, leader₂.countReply peer args = some leader₃ →
      leader₃.matchIndex peer ≤ commonLength leader₃.logs
        (follower.logs.take args.prevLogIndex.toNat ++ leader.logsAfter args.prevLogIndex)) ↔
    leader₂.curTerm < follower.curTerm ∨ MatchLands leader leader₂ follower peer args := by
  have own : getCmdAndTerm args.sendLogs = some (leader.logsAfter args.prevLogIndex) := by
    rw [text]
    exact getCmdAndTerm_sendLogsOf _ clean
  rw [← not_le, ← imp_iff_not_or, ← matchLands_iff peer nonneg fits inside grown]
  refine imp_congr_right fun _ => ⟨fun index => ?_, fun bound leader₃ counted => ?_⟩
  · obtain ⟨leader₃, counted⟩ : ∃ leader₃, leader₂.countReply peer args = some leader₃ := by
      rw [countReply, own]
      exact ⟨_, rfl⟩
    obtain ⟨logs, matched⟩ := countReply_spec own counted
    have le := index leader₃ counted
    rw [logs, matched] at le
    exact le
  · obtain ⟨logs, matched⟩ := countReply_spec own counted
    rw [logs, matched]
    exact bound

/-- What the claim of a success comes to: the follower refuses, or cannot read the entries, or
reads them as they were sent, into a log that reaches `prevLogIndex`, and the leader's index
lands. `leader` has built the request, `leader₂` gets the answer. -/
theorem success_means_agreement_iff
    (built : leader.sendAppendEntries = some (leader₁, peer, args))
    (grown : leader.logs <+: leader₂.logs) :
    (∀ follower' reply, follower.appendEntries (received args) = some (follower', reply) →
      reply.success = true →
      Agrees follower'.logs args (leader.logsAfter args.prevLogIndex) ∧
      (reply.term ≤ leader₂.curTerm → ∀ leader₃, leader₂.countReply peer args = some leader₃ →
        leader₃.matchIndex peer ≤ commonLength leader₃.logs follower'.logs)) ↔
    follower.Refuses (received args) ∨ getCmdAndTerm (transmit args.sendLogs) = none ∨
      ((args.prevLogIndex = 0 ∨ follower.logs ≠ []) ∧
        getCmdAndTerm (transmit args.sendLogs) = some (leader.logsAfter args.prevLogIndex) ∧
        (leader₂.curTerm < follower.curTerm ∨ MatchLands leader leader₂ follower peer args)) := by
  obtain ⟨-, nonneg, fits, text, -⟩ := sendAppendEntries_spec built
  by_cases refuses : follower.Refuses (received args)
  · exact ⟨fun _ => .inl refuses, fun _ follower' reply done success =>
      absurd refuses (appendEntries_success done success).1⟩
  · cases read : getCmdAndTerm (transmit args.sendLogs) with
    | none =>
      refine ⟨fun _ => .inr (.inl rfl), fun _ follower' reply done success => ?_⟩
      obtain ⟨-, -, recvLog, some_, -⟩ := appendEntries_success done success
      cases read.symm.trans some_
    | some recvLog =>
      rw [or_iff_right refuses, or_iff_right (Option.some_ne_none _), Option.some.injEq]
      have nonneg' : 0 ≤ (received args).prevLogIndex := nonneg
      have read' : getCmdAndTerm (received args).sendLogs = some recvLog := read
      have text' : (received args).sendLogs =
          transmit (sendLogsOf (leader.logsAfter args.prevLogIndex)) := by
        rw [← text]
        rfl
      have agrees := agrees_iff nonneg' text' refuses read'
      obtain ⟨follower₀, reply₀, done₀, success₀⟩ := exists_success nonneg' refuses read'
      obtain ⟨-, term₀, recvLog₀, read₀, logs₀⟩ := appendEntries_success done₀ success₀
      cases read'.symm.trans read₀
      have lands : (args.prevLogIndex = 0 ∨ follower.logs ≠ []) →
          recvLog = leader.logsAfter args.prevLogIndex →
          ((reply₀.term ≤ leader₂.curTerm → ∀ leader₃, leader₂.countReply peer args = some leader₃ →
            leader₃.matchIndex peer ≤ commonLength leader₃.logs follower₀.logs) ↔
          (leader₂.curTerm < follower.curTerm ∨ MatchLands leader leader₂ follower peer args)) := by
        intro start same
        have inside : args.prevLogIndex.toNat ≤ follower.logs.length := by
          by_contra short
          rcases start with zero | some_
          · omega
          · exact refuses (.inr ⟨some_, .inl (show _ < args.prevLogIndex by omega)⟩)
        have clean : ∀ e ∈ leader.logsAfter args.prevLogIndex, ',' ∉ e.command ∧ ';' ∉ e.command :=
          fun e member => command_clean_of_read read (same ▸ member)
        rw [term₀, logs₀, same]
        exact counted_lands_iff peer nonneg fits inside grown text clean
      constructor
      · intro claim
        obtain ⟨agree, index⟩ := claim follower₀ reply₀ done₀ success₀
        rw [logs₀] at agree
        obtain ⟨start, same⟩ := agrees.mp agree
        exact ⟨start, same, (lands start same).mp index⟩
      · rintro ⟨start, same, index⟩ follower' reply done success
        cases done₀.symm.trans done
        refine ⟨?_, (lands start same).mpr index⟩
        rw [logs₀]
        exact agrees.mpr ⟨start, same⟩

private def twoEntries : List LogEntry := [⟨['a'], 1⟩, ⟨['b'], 1⟩]

/-- A leader of term 2 that has restarted with two entries; `next` is its index for the peer. -/
private def restarted (next : Int) : Raft 2 :=
  { fresh 0 with
    curTerm := 2, votedFor := 0, logs := twoEntries, nextIndex := fun _ => next, state := .LEADER }

theorem empty_log_takes_any_request :
    ∃ leader₁ args follower' reply leader₃,
      (restarted 3).sendAppendEntries = some (leader₁, (1 : Fin 2), args) ∧ args.prevLogIndex = 2 ∧
      (fresh (1 : Fin 2)).appendEntries (received args) = some (follower', reply) ∧
      reply.success = true ∧ reply.term ≤ leader₁.curTerm ∧
      ¬Agrees follower'.logs args ((restarted 3).logsAfter args.prevLogIndex) ∧
      leader₁.countReply 1 args = some leader₃ ∧ leader₃.matchIndex 1 = 2 ∧
      commonLength leader₃.logs follower'.logs = 0 :=
  ⟨_, _, _, _, _, rfl, rfl, rfl, rfl, by decide, by decide, rfl, rfl,
    rfl⟩

theorem success_means_agreement_iff_second_entry :
    ∃ leader₁ args, (restarted 2).sendAppendEntries = some (leader₁, (1 : Fin 2), args) ∧
      ∀ follower' reply,
        { fresh (1 : Fin 2) with logs := [⟨['a'], 1⟩] }.appendEntries (received args) =
          some (follower', reply) → reply.success = true →
        Agrees follower'.logs args ((restarted 2).logsAfter args.prevLogIndex) ∧
        (reply.term ≤ leader₁.curTerm → ∀ leader₃, leader₁.countReply 1 args = some leader₃ →
          leader₃.matchIndex 1 ≤ commonLength leader₃.logs follower'.logs) :=
  ⟨_, _, rfl, (success_means_agreement_iff rfl (List.prefix_refl _)).mpr
    (.inr (.inr ⟨.inr (by decide), rfl, .inr (by decide)⟩))⟩

end Raft
end ProjectsCpp.PlainRaft
