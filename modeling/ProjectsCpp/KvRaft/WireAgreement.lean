import ProjectsCpp.KvRaft.Wire

/-! The operation a replica applies, read from the leader's own log entry and read
from the entry after `m_sendLogs`. The two agree exactly on batches whose keys and
values hold no wire separator and whose text fits the serializer's 16-bit length. -/

namespace ProjectsCpp.KvRaft
open ProjectsCpp.Text

/-- What `Clerk` and `KVServer` accept: one of the three commands, and a key and a value
that are words. -/
structure Accepted (o : Operation) : Prop where
  op : o.op = ['p', 'u', 't'] ∨ o.op = ['a', 'p', 'p', 'e', 'n', 'd'] ∨ o.op = ['g', 'e', 't']
  key : o.key ≠ [] ∧ ' ' ∉ o.key
  value : o.value ≠ [] ∧ ' ' ∉ o.value

/-- The entry that `Raft::start` appends for the operation in term `o.term`. -/
def Operation.entry (o : Operation) : LogEntry := ⟨o.getCmd, o.term⟩

def LogEntry.operation (e : LogEntry) : Option Operation := getOperation e.command e.term

def leaderOperations (logs : List LogEntry) : Option (List Operation) :=
  logs.mapM LogEntry.operation

def followerOperations (logs : List LogEntry) : Option (List Operation) :=
  (getCmdAndTerm (transmit (sendLogsOf logs))).bind fun l => l.mapM LogEntry.operation

def Operation.Separable (o : Operation) : Prop :=
  (',' ∉ o.key ∧ ';' ∉ o.key) ∧ ',' ∉ o.value ∧ ';' ∉ o.value

variable {o : Operation} {ops : List Operation}

theorem Accepted.op_word (h : Accepted o) : o.op ≠ [] ∧ ' ' ∉ o.op := by
  rcases h.op with e | e | e <;> rw [e] <;> decide

theorem Accepted.op_separators (h : Accepted o) : ',' ∉ o.op ∧ ';' ∉ o.op := by
  rcases h.op with e | e | e <;> rw [e] <;> decide

theorem Accepted.operation_entry (h : Accepted o) : o.entry.operation = some o :=
  getOperation_getCmd o o.term h.op_word h.key h.value

theorem leaderOperations_entries (accepted : ∀ o ∈ ops, Accepted o) :
    leaderOperations (ops.map Operation.entry) = some ops := by
  induction ops with
  | nil => rfl
  | cons o ops ih =>
    have tail := ih fun p hp => accepted p (by simp [hp])
    rw [leaderOperations] at tail ⊢
    rw [List.map_cons, List.mapM_cons, (accepted o (by simp)).operation_entry, tail]
    rfl

theorem Operation.Separable.getCmd (clean : o.Separable) (h : Accepted o) :
    ',' ∉ o.getCmd ∧ ';' ∉ o.getCmd := by
  obtain ⟨⟨k1, k2⟩, v1, v2⟩ := clean
  obtain ⟨p1, p2⟩ := h.op_separators
  have number : ∀ z : Int, ',' ∉ decimal z ∧ ';' ∉ decimal z := fun z =>
    ⟨notMem_decimal z (by decide) (by decide), notMem_decimal z (by decide) (by decide)⟩
  simp [Operation.getCmd, k1, k2, v1, v2, p1, p2, number]

theorem entries_separable (accepted : ∀ o ∈ ops, Accepted o) (clean : ∀ o ∈ ops, o.Separable) :
    ∀ e ∈ ops.map Operation.entry, ',' ∉ e.command ∧ ';' ∉ e.command := by
  intro e he
  obtain ⟨o, ho, rfl⟩ := List.mem_map.mp he
  exact (clean o ho).getCmd (accepted o ho)

def Operation.head (o : Operation) : Str := o.op ++ ' ' :: (o.key ++ ' ' :: o.value)

theorem getCmd_eq_head (o : Operation) :
    o.getCmd = o.head ++ ' ' :: (decimal o.clientId ++ ' ' :: decimal o.requestId) := by
  simp [Operation.getCmd, Operation.head]

theorem Accepted.count_head (h : Accepted o) : o.head.count ' ' = 2 := by
  simp [Operation.head, List.count_append, List.count_eq_zero.mpr h.op_word.2,
    List.count_eq_zero.mpr h.key.2, List.count_eq_zero.mpr h.value.2]

theorem mem_head_of_not_separable (dirty : ¬ o.Separable) : ',' ∈ o.head ∨ ';' ∈ o.head := by
  by_contra none
  obtain ⟨comma, semicolon⟩ := not_or.mp none
  simp only [Operation.head, List.mem_append, List.mem_cons, not_or] at comma semicolon
  exact dirty ⟨⟨comma.2.2.1, semicolon.2.2.1⟩, comma.2.2.2.2, semicolon.2.2.2.2⟩

theorem operation_of_dirty (h : Accepted o) (dirty : ¬ o.Separable) {received tail : Str}
    (sent : received <+: o.getCmd ++ tail) {e : LogEntry} {l : List LogEntry}
    (read : getCmdAndTerm received = some (e :: l)) : e.operation = none := by
  obtain ⟨piece, more, hpieces, hentry, -⟩ := mapM_eq_cons read
  rcases split_first ';' received with clean | ⟨w, u, hw, clean⟩
  · rw [pieces_clean clean] at hpieces
    cases hpieces
  -- the first piece is what stands before the first `;`
  obtain ⟨c, op', hop⟩ := List.exists_cons_of_ne_nil h.op_word.1
  have ne : w ≠ [] := by
    rintro rfl
    rw [hw, getCmd_eq_head, Operation.head, hop] at sent
    obtain ⟨v, hv⟩ := sent
    have first := (List.cons.inj hv).1
    exact h.op_separators.2 (by rw [hop, ← first]; simp)
  rw [hw, pieces_sep ne clean] at hpieces
  obtain ⟨rfl, -⟩ := List.cons.inj hpieces
  obtain ⟨p, hcut, rfl⟩ := Option.map_eq_some_iff.mp hentry
  obtain ⟨hpq, comma⟩ := eq_of_cutAt hcut
  have semicolon : ';' ∉ p.1 := fun hm => clean (by rw [hpq]; simp [hm])
  -- so the parsed command is a prefix of the command that stops before its first separator
  have short : p.1 <+: o.head := by
    have whole : p.1 <+:
        o.head ++ (' ' :: (decimal o.clientId ++ ' ' :: decimal o.requestId) ++ tail) := by
      rw [← List.append_assoc, ← getCmd_eq_head]
      refine List.IsPrefix.trans ?_ sent
      rw [hw, hpq, List.append_assoc]
      exact List.prefix_append _ _
    rcases List.prefix_or_prefix_of_prefix whole (List.prefix_append o.head _) with hp | hp
    · exact hp
    · rcases mem_head_of_not_separable dirty with hm | hm
      · exact absurd (hp.subset hm) comma
      · exact absurd (hp.subset hm) semicolon
  refine getOperation_short ?_ _
  calc p.1.count ' ' ≤ o.head.count ' ' := short.sublist.count_le _
    _ = 2 := h.count_head
    _ < 4 := by decide

theorem sendLogsOf_append (a b : List LogEntry) :
    sendLogsOf (a ++ b) = sendLogsOf a ++ sendLogsOf b := by
  simp [sendLogsOf, ended]

theorem length_getCmdAndTerm {t : Str} {l : List LogEntry} (read : getCmdAndTerm t = some l) :
    l.length = (pieces ';' t).length := length_of_mapM read

theorem followerOperations_dirty (accepted : ∀ o ∈ ops, Accepted o) {d : Operation}
    (member : d ∈ ops) (dirty : ¬ d.Separable) :
    followerOperations (ops.map Operation.entry) ≠ some ops := by
  intro agree
  obtain ⟨l, hread, hops⟩ := Option.bind_eq_some_iff.mp agree
  -- split at the first operation that has a separator
  have first : ∃ pre bad post, ops = pre ++ bad :: post ∧ (∀ o ∈ pre, o.Separable) ∧
      ¬ bad.Separable := by
    clear agree hread hops
    induction ops with
    | nil => cases member
    | cons o ops ih =>
      by_cases clean : o.Separable
      · rcases List.mem_cons.mp member with rfl | hd
        · exact absurd clean dirty
        · obtain ⟨pre, bad, post, rfl, hpre, hbad⟩ := ih (fun p hp => accepted p (by simp [hp])) hd
          refine ⟨o :: pre, bad, post, rfl, ?_, hbad⟩
          intro p hp
          rcases List.mem_cons.mp hp with rfl | hp
          · exact clean
          · exact hpre p hp
      · exact ⟨[], o, ops, rfl, by simp, clean⟩
  obtain ⟨pre, bad, post, rfl, hpre, hbad⟩ := first
  have cleanPre := entries_separable (fun o ho => accepted o (by simp [ho])) hpre
  have wordsPre : ∀ w ∈ (pre.map Operation.entry).map LogEntry.text, ';' ∉ w := by
    intro w hw
    obtain ⟨e, he, rfl⟩ := List.mem_map.mp hw
    exact e.notMem_text (cleanPre e he).2 (by decide) (by decide) (by decide)
  have length_l := length_of_mapM hops
  rw [List.map_append, List.map_cons, sendLogsOf_append] at hread
  generalize htail : sendLogsOf (bad.entry :: post.map Operation.entry) = dirtyText at hread
  rcases Nat.lt_or_ge (sendLogsOf (pre.map Operation.entry)).length
      ((sendLogsOf (pre.map Operation.entry) ++ dirtyText).length % 65536) with far | near
  · -- the bad command is reached: its entry is wrong or missing
    rw [transmit, List.take_append, List.take_of_length_le (by omega),
      getCmdAndTerm_sendLogsOf_append _ _ cleanPre] at hread
    obtain ⟨l', hread', rfl⟩ := Option.map_eq_some_iff.mp hread
    rw [List.length_append, List.length_append, List.length_map, List.length_cons] at length_l
    obtain ⟨e, l'', rfl⟩ := List.exists_cons_of_length_pos (l := l') (by omega)
    have text : dirtyText <+: bad.getCmd ++
        (',' :: decimal bad.term ++ ';' :: sendLogsOf (post.map Operation.entry)) := by
      rw [← htail]
      simp [sendLogsOf, LogEntry.text, Operation.entry]
    have gone : e.operation = none :=
      operation_of_dirty (accepted bad (by simp)) hbad ((List.take_prefix _ _).trans text) hread'
    rw [List.mapM_append, List.mapM_cons, gone] at hops
    cases h : (pre.map Operation.entry).mapM LogEntry.operation <;> simp [h] at hops
  · -- the text ends before the bad command
    rw [transmit, List.take_append_of_le_length near] at hread
    have count := (length_pieces_take_ended _ wordsPre
      ((sendLogsOf (pre.map Operation.entry) ++ dirtyText).length % 65536)).1
    have pieces_l := length_getCmdAndTerm hread
    simp only [sendLogsOf, List.length_map, List.length_append, List.length_cons]
      at count pieces_l length_l
    omega

theorem followerOperations_long (accepted : ∀ o ∈ ops, Accepted o)
    (clean : ∀ o ∈ ops, o.Separable)
    (long : 65536 ≤ (sendLogsOf (ops.map Operation.entry)).length) :
    followerOperations (ops.map Operation.entry) ≠ some ops := by
  intro agree
  obtain ⟨l, hread, hops⟩ := Option.bind_eq_some_iff.mp agree
  have words : ∀ w ∈ (ops.map Operation.entry).map LogEntry.text, ';' ∉ w := by
    intro w hw
    obtain ⟨e, he, rfl⟩ := List.mem_map.mp hw
    exact e.notMem_text (entries_separable accepted clean e he).2 (by decide) (by decide) (by decide)
  have proper := Nat.mod_lt (sendLogsOf (ops.map Operation.entry)).length (show 65536 > 0 by decide)
  have fewer := (length_pieces_take_ended _ words
    ((sendLogsOf (ops.map Operation.entry)).length % 65536)).2
    (by simp only [sendLogsOf] at long proper ⊢; omega)
  have pieces_l := length_getCmdAndTerm hread
  have length_l := length_of_mapM hops
  simp only [transmit, sendLogsOf, List.length_map] at fewer pieces_l length_l
  omega

/-- Leader and followers apply the same operations exactly when no key or value holds a
comma or a semicolon and the message fits the serializer. -/
theorem replicas_apply_same_operations (ops : List Operation)
    (accepted : ∀ o ∈ ops, Accepted o) :
    followerOperations (ops.map Operation.entry) = leaderOperations (ops.map Operation.entry) ↔
      (∀ o ∈ ops, o.Separable) ∧ (sendLogsOf (ops.map Operation.entry)).length < 65536 := by
  rw [leaderOperations_entries accepted]
  constructor
  · intro agree
    have clean : ∀ o ∈ ops, o.Separable := by
      intro o ho
      by_contra dirty
      exact followerOperations_dirty accepted ho dirty agree
    refine ⟨clean, ?_⟩
    by_contra long
    exact followerOperations_long accepted clean (by omega) agree
  · rintro ⟨clean, short⟩
    rw [followerOperations, transmit_short short,
      getCmdAndTerm_sendLogsOf _ (entries_separable accepted clean), Option.bind_some]
    exact leaderOperations_entries accepted

theorem replicas_apply_same_operations_sample :
    followerOperations ([⟨['p', 'u', 't'], ['k'], ['v'], 7, 1, 3⟩,
        ⟨['a', 'p', 'p', 'e', 'n', 'd'], ['k'], ['w'], 8, 1, 3⟩].map Operation.entry) =
      leaderOperations ([⟨['p', 'u', 't'], ['k'], ['v'], 7, 1, 3⟩,
        ⟨['a', 'p', 'p', 'e', 'n', 'd'], ['k'], ['w'], 8, 1, 3⟩].map Operation.entry) := by
  refine (replicas_apply_same_operations _ ?_).mpr ⟨?_, by decide⟩
  · intro o ho
    simp only [List.mem_cons, List.not_mem_nil, or_false] at ho
    rcases ho with rfl | rfl <;> exact ⟨by decide, by decide, by decide⟩
  · intro o ho
    simp only [List.mem_cons, List.not_mem_nil, or_false] at ho
    rcases ho with rfl | rfl <;> exact ⟨by decide, by decide⟩

theorem comma_in_value_splits_replicas :
    ¬ ∀ o : Operation, Accepted o →
      followerOperations [o.entry] = leaderOperations [o.entry] := by
  intro same
  have agree := same ⟨['p', 'u', 't'], ['k'], ['a', ',', 'b'], 7, 1, 3⟩
    ⟨by decide, by decide, by decide⟩
  exact absurd agree (by decide)

end ProjectsCpp.KvRaft
