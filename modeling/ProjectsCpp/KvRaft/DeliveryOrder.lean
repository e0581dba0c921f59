import ProjectsCpp.KvRaft.Indices

/-! The order in which the kv server handles messages. The two semaphores hold one token, so
no pushed message is lost or handled twice in any run. The order of the indices is another
matter: the slot goes to whichever producer wakes first, and a batch collected before a
snapshot may still be waiting behind it. -/

namespace ProjectsCpp.KvRaft
open ProjectsCpp.Text ProjectsCpp.Run

variable {n : Nat}

def ApplyMsg.index : ApplyMsg → Int
  | .command _ commandIndex _ => commandIndex
  | .snapShot _ lastIncludedIndex _ => lastIncludedIndex

def ApplyMsg.Before (m k : ApplyMsg) : Prop := m.index < k.index

namespace Raft
variable {r s : Raft n}

theorem collectMsgs_index {count : Nat} {msgs : List ApplyMsg}
    (run : collectMsgs count r = some (s, msgs)) :
    msgs.Pairwise ApplyMsg.Before ∧
      ∀ m ∈ msgs, r.lastApplied < m.index ∧ m.index ≤ s.lastApplied := by
  induction count generalizing r msgs with
  | zero =>
    cases run
    exact ⟨List.Pairwise.nil, nofun⟩
  | succ count ih =>
    have applied : s.lastApplied = r.lastApplied + (count + 1) := by
      rw [collectMsgs_applied run]
      exact congrArg (r.lastApplied + ·) (Int.natCast_succ count)
    simp only [collectMsgs] at run
    split at run
    · cases run
    · rename_i e _
      obtain ⟨⟨t, more⟩, later, done⟩ := Option.map_eq_some_iff.mp run
      obtain ⟨rfl, rfl⟩ := Prod.mk.inj done
      obtain ⟨sorted, bounds⟩ := ih later
      have applied : t.lastApplied = r.lastApplied + (count + 1) := applied
      refine ⟨List.pairwise_cons.mpr ⟨fun m member => (bounds m member).1, sorted⟩, ?_⟩
      intro m member
      cases List.mem_cons.mp member with
      | inl first =>
        rw [first]
        exact ⟨Int.lt_succ r.lastApplied, show r.lastApplied + 1 ≤ t.lastApplied by omega⟩
      | inr rest =>
        have above : r.lastApplied + 1 < m.index := (bounds m rest).1
        exact ⟨by omega, (bounds m rest).2⟩

theorem installSnapShotTokvServer_message (r : Raft n) :
    (r.installSnapShotTokvServer.2 = none ∧
      r.installSnapShotTokvServer.1.lastApplied = r.lastApplied) ∨
    ∃ m, r.installSnapShotTokvServer.2 = some m ∧ m.index = r.lastIncludedIndex ∧
      r.installSnapShotTokvServer.1.lastApplied = r.lastIncludedIndex := by
  rw [installSnapShotTokvServer, readSnapShot]
  cases r.snapFile with
  | none => exact .inl ⟨rfl, rfl⟩
  | some bytes => exact .inr ⟨_, rfl, rfl, rfl⟩

end Raft

namespace Delivery
variable {s t : Delivery n} {a : Step}

/-! ### No message is lost -/

theorem slotStep_sound (sound : s.slot.Sound) (next : s.slotStep a = some t) : t.slot.Sound := by
  cases a with
  | snapShotLoop =>
    rw [slotStep] at next
    split at next <;> cases next
    exact sound
  | enterBatch =>
    rw [slotStep] at next
    split at next
    · cases next
    · split at next
      · cases next
      · obtain ⟨slot, entered, rfl⟩ := Option.map_eq_some_iff.mp next
        exact sound.enter entered
  | enterInstaller k =>
    obtain ⟨m, -, waits⟩ := Option.bind_eq_some_iff.mp next
    obtain ⟨slot, entered, rfl⟩ := Option.map_eq_some_iff.mp waits
    exact sound.enter entered
  | push =>
    obtain ⟨slot, pushed, rfl⟩ := Option.map_eq_some_iff.mp next
    exact sound.push pushed
  | post =>
    obtain ⟨⟨o, slot⟩, posted, rfl⟩ := Option.map_eq_some_iff.mp next
    exact sound.post posted
  | wake =>
    obtain ⟨slot, woken, rfl⟩ := Option.map_eq_some_iff.mp next
    exact sound.wake woken
  | take =>
    obtain ⟨slot, taken, rfl⟩ := Option.map_eq_some_iff.mp next
    exact sound.take taken
  | handle =>
    obtain ⟨⟨m, slot⟩, handled, applied⟩ := Option.bind_eq_some_iff.mp next
    obtain ⟨kv, -, rfl⟩ := Option.map_eq_some_iff.mp applied
    exact sound.handle handled
  | release =>
    obtain ⟨slot, released, rfl⟩ := Option.map_eq_some_iff.mp next
    exact sound.release released
  | _ => cases next

theorem nodeStep_slot (next : s.nodeStep a = some t) : t.slot = s.slot := by
  cases a with
  | appendEntries k =>
    obtain ⟨args, -, delivered⟩ := Option.bind_eq_some_iff.mp next
    obtain ⟨q, -, rfl⟩ := Option.map_eq_some_iff.mp delivered
    rfl
  | installSnapShot k =>
    obtain ⟨args, -, delivered⟩ := Option.bind_eq_some_iff.mp next
    obtain ⟨q, -, rfl⟩ := Option.map_eq_some_iff.mp delivered
    rfl
  | installSnapShotTokvServer =>
    rw [nodeStep] at next
    split at next <;> cases next
    rfl
  | start command =>
    obtain ⟨q, -, rfl⟩ := Option.map_eq_some_iff.mp next
    rfl
  | applyLog =>
    rw [nodeStep] at next
    split at next
    · cases next
    · split at next <;> cases next
      rfl
  | recvSnapShot snapShot =>
    obtain ⟨index, -, compacted⟩ := Option.bind_eq_some_iff.mp next
    obtain ⟨q, -, rfl⟩ := Option.map_eq_some_iff.mp compacted
    rfl
  | _ => cases next

theorem step_sound (sound : s.slot.Sound) (next : s.step a = some t) : t.slot.Sound := by
  rcases step_kind next with leads | sections | hands
  · rw [(leaderStep_rest leads).2.2.2]
    exact sound
  · rw [nodeStep_slot sections]
    exact sound
  · exact slotStep_sound sound hands

theorem slot_sound {atomic : Bool} {i : Fin n} (reach : Reachable (machine atomic i) s) :
    s.slot.Sound := by
  refine reach.invariant (P := fun s : Delivery n => s.slot.Sound) ?_ ?_
  · rintro s ⟨leader, -, -, rfl⟩
    exact Handoff.start_sound
  · intro s a t sound _ next
    exact step_sound sound next

/-! ### The order of the indices -/

/-- A snapshot is handed up only beyond what is applied, and the slot is taken by the
message with the smallest index of those that wait. -/
def InOrder (s : Delivery n) : Step → Prop
  | .installSnapShotTokvServer => s.node.raft.lastApplied < s.node.raft.lastIncludedIndex
  | .enterBatch => ∀ m ∈ s.batch.head?, ∀ k ∈ s.installers, m.Before k
  | .enterInstaller k =>
    ∀ m ∈ s.installers[k]?, ∀ j ∈ s.batch ++ s.installers.eraseIdx k, m.Before j
  | _ => True

instance (m k : ApplyMsg) : Decidable (m.Before k) := by
  unfold ApplyMsg.Before
  infer_instance

instance (s : Delivery n) (a : Step) : Decidable (InOrder s a) := by
  rcases a <;> (unfold InOrder; infer_instance)

/-- The messages that took the slot are in order, below those that wait, and none is above
`m_lastApplied`. -/
structure Lined (s : Delivery n) : Prop where
  sound : s.slot.Sound
  line : s.slot.line.Pairwise ApplyMsg.Before
  batch : s.batch.Pairwise ApplyMsg.Before
  waiting : ∀ m ∈ s.slot.line, ∀ k ∈ s.batch ++ s.installers, m.Before k
  applied : ∀ m ∈ s.slot.line ++ (s.batch ++ s.installers), m.index ≤ s.node.raft.lastApplied

theorem Lined.boot (atomic : Bool) (i : Fin n) (leader : Leader) : Lined (boot atomic i leader) :=
  ⟨Handoff.start_sound, List.Pairwise.nil, List.Pairwise.nil, nofun, nofun⟩

theorem Lined.same (lined : Lined s) (slot : t.slot = s.slot) (batch : t.batch = s.batch)
    (installers : t.installers = s.installers)
    (applied : t.node.raft.lastApplied = s.node.raft.lastApplied) : Lined t := by
  refine ⟨?_, ?_, ?_, ?_, ?_⟩
  · rw [slot]
    exact lined.sound
  · rw [slot]
    exact lined.line
  · rw [batch]
    exact lined.batch
  · rw [slot, batch, installers]
    exact lined.waiting
  · rw [slot, batch, installers, applied]
    exact lined.applied

theorem Lined.slot_step (lined : Lined s) (next : s.slotStep a = some t)
    (line : t.slot.line = s.slot.line) (batch : t.batch = s.batch)
    (installers : t.installers = s.installers) : Lined t := by
  refine ⟨slotStep_sound lined.sound next, ?_, ?_, ?_, ?_⟩
  · rw [line]
    exact lined.line
  · rw [batch]
    exact lined.batch
  · rw [line, batch, installers]
    exact lined.waiting
  · rw [line, batch, installers, slotStep_node next]
    exact lined.applied

theorem Lined.enter (lined : Lined s) {m : ApplyMsg} (waits : m ∈ s.batch ++ s.installers)
    (sound : t.slot.Sound) (line : t.slot.line = s.slot.line ++ [m])
    (batch : t.batch.Pairwise ApplyMsg.Before)
    (rest : ∀ k ∈ t.batch ++ t.installers, k ∈ s.batch ++ s.installers)
    (first : ∀ k ∈ t.batch ++ t.installers, m.Before k) (node : t.node = s.node) : Lined t := by
  refine ⟨sound, ?_, batch, ?_, ?_⟩
  · rw [line, List.pairwise_append]
    refine ⟨lined.line, List.pairwise_singleton _ _, fun j member k new => ?_⟩
    rw [List.mem_singleton.mp new]
    exact lined.waiting j member m waits
  · intro j member k later
    rw [line] at member
    cases List.mem_append.mp member with
    | inl old => exact lined.waiting j old k (rest k later)
    | inr new =>
      rw [List.mem_singleton.mp new]
      exact first k later
  · intro j member
    rw [line] at member
    rw [node]
    refine lined.applied j ?_
    rcases List.mem_append.mp member with taken | later
    · cases List.mem_append.mp taken with
      | inl old => exact List.mem_append_left _ old
      | inr new =>
        rw [List.mem_singleton.mp new]
        exact List.mem_append_right _ waits
    · exact List.mem_append_right _ (rest j later)

theorem slotStep_lined (lined : Lined s) (inOrder : InOrder s a) (next : s.slotStep a = some t) :
    Lined t := by
  cases a with
  | snapShotLoop =>
    rw [slotStep] at next
    split at next <;> cases next
    exact lined.same rfl rfl rfl rfl
  | enterBatch =>
    have sound := slotStep_sound lined.sound next
    rw [slotStep] at next
    split at next
    · cases next
    · rename_i m rest front
      split at next
      · cases next
      · obtain ⟨slot, entered, rfl⟩ := Option.map_eq_some_iff.mp next
        have sorted := lined.batch
        rw [front, List.pairwise_cons] at sorted
        have ahead : ∀ k ∈ s.installers, m.Before k := by
          intro k member
          refine inOrder m ?_ k member
          rw [front]
          rfl
        refine lined.enter (m := m) (by simp [front]) sound
          (Handoff.enter_line lined.sound entered) sorted.2 ?_ ?_ rfl
        · intro k member
          rw [front]
          exact List.mem_cons_of_mem m member
        · intro k member
          cases List.mem_append.mp member with
          | inl inBatch => exact sorted.1 k inBatch
          | inr waiting => exact ahead k waiting
  | enterInstaller k =>
    have sound := slotStep_sound lined.sound next
    obtain ⟨m, found, waits⟩ := Option.bind_eq_some_iff.mp next
    obtain ⟨slot, entered, rfl⟩ := Option.map_eq_some_iff.mp waits
    refine lined.enter (m := m) ?_ sound (Handoff.enter_line lined.sound entered) lined.batch ?_
      (inOrder m found) rfl
    · exact List.mem_append_right _ (List.mem_of_getElem? found)
    · intro j member
      cases List.mem_append.mp member with
      | inl inBatch => exact List.mem_append_left _ inBatch
      | inr waiting => exact List.mem_append_right _ (List.mem_of_mem_eraseIdx waiting)
  | push =>
    have kept := next
    obtain ⟨slot, pushed, rfl⟩ := Option.map_eq_some_iff.mp next
    exact lined.slot_step kept (Handoff.push_line pushed lined.sound) rfl rfl
  | post =>
    have kept := next
    obtain ⟨⟨o, slot⟩, posted, rfl⟩ := Option.map_eq_some_iff.mp next
    exact lined.slot_step kept (Handoff.post_line posted) rfl rfl
  | wake =>
    have kept := next
    obtain ⟨slot, woken, rfl⟩ := Option.map_eq_some_iff.mp next
    exact lined.slot_step kept (Handoff.wake_line woken) rfl rfl
  | take =>
    have kept := next
    obtain ⟨slot, taken, rfl⟩ := Option.map_eq_some_iff.mp next
    exact lined.slot_step kept (Handoff.take_line taken) rfl rfl
  | handle =>
    have kept := next
    obtain ⟨⟨m, slot⟩, handled, applied⟩ := Option.bind_eq_some_iff.mp next
    obtain ⟨kv, -, rfl⟩ := Option.map_eq_some_iff.mp applied
    exact lined.slot_step kept (Handoff.handle_line handled) rfl rfl
  | release =>
    have kept := next
    obtain ⟨slot, released, rfl⟩ := Option.map_eq_some_iff.mp next
    exact lined.slot_step kept (Handoff.release_line released) rfl rfl
  | _ => cases next

theorem nodeStep_lined (lined : Lined s) (inOrder : InOrder s a) (next : s.nodeStep a = some t) :
    Lined t := by
  cases a with
  | appendEntries k =>
    obtain ⟨args, -, delivered⟩ := Option.bind_eq_some_iff.mp next
    obtain ⟨⟨q, o⟩, ran, rfl⟩ := Option.map_eq_some_iff.mp delivered
    cases Process.ran_of_step ran with
    | appendEntries run =>
      refine lined.same rfl rfl rfl ?_
      cases Raft.appendEntries_indices run with
      | inl same => exact same.applied
      | inr taken =>
        obtain ⟨recvLog, -, -, -, -, applied, -⟩ := taken
        exact applied
  | installSnapShot k =>
    obtain ⟨args, -, delivered⟩ := Option.bind_eq_some_iff.mp next
    obtain ⟨⟨q, o⟩, ran, rfl⟩ := Option.map_eq_some_iff.mp delivered
    cases Process.ran_of_step ran with
    | installSnapShot run =>
      refine lined.same rfl rfl rfl ?_
      cases Raft.installSnapShot_indices run with
      | inl same => exact same.applied
      | inr taken => exact taken.2.2.2.1
  | installSnapShotTokvServer =>
    rw [nodeStep] at next
    split at next
    · rename_i q msgs ran
      cases next
      cases Process.ran_of_step ran with
      | installSnapShotTokvServer waits =>
        cases s.node.raft.installSnapShotTokvServer_message with
        | inl nothing => exact lined.same rfl rfl (by simp [nothing.1]) nothing.2
        | inr message =>
          obtain ⟨m, produced, index, applied⟩ := message
          have beyond : s.node.raft.lastApplied < m.index := by
            rw [index]
            exact inOrder
          have below : ∀ j ∈ s.slot.line ++ (s.batch ++ s.installers), j.Before m :=
            fun j member => lt_of_le_of_lt (lined.applied j member) beyond
          refine ⟨lined.sound, lined.line, lined.batch, ?_, ?_⟩
          · intro j member k later
            simp only [produced, Option.toList_some, ← List.append_assoc] at later
            cases List.mem_append.mp later with
            | inl old => exact lined.waiting j member k old
            | inr new =>
              rw [List.mem_singleton.mp new]
              exact below j (List.mem_append_left _ member)
          · intro j member
            simp only [produced, Option.toList_some, ← List.append_assoc] at member
            simp only [applied, ← index]
            cases List.mem_append.mp member with
            | inl old =>
              rw [List.append_assoc] at old
              exact le_of_lt (below j old)
            | inr new => rw [List.mem_singleton.mp new]
    · cases next
  | start command =>
    obtain ⟨⟨q, o⟩, ran, rfl⟩ := Option.map_eq_some_iff.mp next
    cases Process.ran_of_step ran with
    | start => exact lined.same rfl rfl rfl (Raft.start_indices _ command).2.1
  | applyLog =>
    rw [nodeStep] at next
    split at next
    · cases next
    · rename_i idle
      have empty : s.batch = [] := by
        by_contra some
        exact idle (.inl some)
      split at next
      · rename_i q msgs ran
        cases next
        cases Process.ran_of_step ran with
        | @applyLog r msgs run =>
          obtain ⟨sorted, bounds⟩ := Raft.collectMsgs_index run
          have low : ∀ j ∈ s.slot.line ++ s.installers, j.index ≤ s.node.raft.lastApplied := by
            intro j member
            refine lined.applied j ?_
            rw [empty]
            exact member
          have grows : s.node.raft.lastApplied ≤ r.lastApplied := by
            rw [Raft.collectMsgs_applied run]
            exact Int.le_add_of_nonneg_right (Int.natCast_nonneg _)
          refine ⟨lined.sound, lined.line, sorted, ?_, ?_⟩
          · intro j member k later
            cases List.mem_append.mp later with
            | inl new =>
              exact lt_of_le_of_lt (low j (List.mem_append_left _ member)) (bounds k new).1
            | inr old =>
              refine lined.waiting j member k ?_
              rw [empty]
              exact old
          · intro j member
            cases List.mem_append.mp member with
            | inl old => exact (low j (List.mem_append_left _ old)).trans grows
            | inr later =>
              cases List.mem_append.mp later with
              | inl new => exact (bounds j new).2
              | inr old => exact (low j (List.mem_append_right _ old)).trans grows
      · cases next
  | recvSnapShot snapShot =>
    obtain ⟨index, -, compacted⟩ := Option.bind_eq_some_iff.mp next
    obtain ⟨⟨q, o⟩, ran, rfl⟩ := Option.map_eq_some_iff.mp compacted
    cases Process.ran_of_step ran with
    | recvSnapShot run => exact lined.same rfl rfl rfl (Raft.recvSnapShot_indices run).1
  | _ => cases next

theorem step_lined (lined : Lined s) (inOrder : InOrder s a) (next : s.step a = some t) :
    Lined t := by
  rcases step_kind next with leads | sections | hands
  · obtain ⟨node, batch, installers, slot⟩ := leaderStep_rest leads
    exact lined.same slot batch installers (by rw [node])
  · exact nodeStep_lined lined inOrder sections
  · exact slotStep_lined lined inOrder hands

theorem lined {atomic : Bool} {i : Fin n} (reach : Reach (machine atomic i) InOrder s) : Lined s := by
  refine reach.invariant ?_ ?_
  · rintro s ⟨leader, -, -, rfl⟩
    exact Lined.boot atomic i leader
  · intro s a t lined inOrder next
    exact step_lined lined inOrder next

/-- In every run the handled messages are the pushed ones in order, but for the one under
way; in a run that takes the messages in order their indices strictly increase. -/
theorem messages_handled_in_order {atomic : Bool} {i : Fin n} {s : Delivery n} :
    (Reachable (machine atomic i) s →
      s.slot.handled <+: s.slot.pushed ∧ s.slot.pushed.length ≤ s.slot.handled.length + 1) ∧
    (Reach (machine atomic i) InOrder s →
      (s.slot.handled.map ApplyMsg.index).Pairwise (· < ·)) := by
  constructor
  · intro reach
    have sound := slot_sound reach
    exact ⟨sound.order, sound.length_le⟩
  · intro reach
    have ordered := lined reach
    rw [List.pairwise_map]
    have pushed : s.slot.pushed.Pairwise ApplyMsg.Before :=
      (List.pairwise_append.mp ordered.line).1
    exact pushed.sublist ordered.sound.order.sublist

def get (requestId : Char) : Step :=
  .leaderStart ['g', 'e', 't', ' ', 'k', ' ', 'v', ' ', '7', ' ', requestId]

def passSlot : List Step := [.push, .post, .wake, .take, .handle, .release]

def collectTwo : List Step :=
  [get '1', get '2', .leaderCommit 2, .sendAppendEntries 0, .appendEntries 0, .applyLog]

theorem messages_handled_in_order_sample :
    ∃ s, execWhere (machine false (1 : Fin 3)) InOrder (boot false 1 ⟨1, [], 0, 0⟩)
        (collectTwo ++ .enterBatch :: passSlot ++ .enterBatch :: passSlot) = some s ∧
      s.slot.handled.map ApplyMsg.index = [1, 2] ∧
      (s.slot.handled <+: s.slot.pushed ∧ s.slot.pushed.length ≤ s.slot.handled.length + 1) ∧
      (s.slot.handled.map ApplyMsg.index).Pairwise (· < ·) := by
  have run : ∃ s, execWhere (machine false (1 : Fin 3)) InOrder (boot false 1 ⟨1, [], 0, 0⟩)
      (collectTwo ++ .enterBatch :: passSlot ++ .enterBatch :: passSlot) = some s ∧
        s.slot.handled.map ApplyMsg.index = [1, 2] := ⟨_, rfl, by decide⟩
  obtain ⟨s, ran, handled⟩ := run
  have reach : Reach (machine false (1 : Fin 3)) InOrder s :=
    Reach.execWhere (.start ⟨⟨1, [], 0, 0⟩, by decide, by decide, rfl⟩) ran
  exact ⟨s, ran, handled, messages_handled_in_order.1 reach.reachable,
    messages_handled_in_order.2 reach⟩

theorem snapshot_overtakes_batch :
    ¬ ∀ s : Delivery 3, Reachable (machine false 1) s →
      (s.slot.handled.map ApplyMsg.index).Pairwise (· < ·) := by
  intro ordered
  have run : ∃ s, exec (machine false (1 : Fin 3)) (boot false 1 ⟨1, [], 0, 0⟩)
      (collectTwo ++ .enterBatch :: passSlot ++
        [get '3', .leaderCommit 3, .leaderCompact 3, .sendInstallSnapShot ['k', ' ', 'v', '.', ';', '7', ' ', '3', '.'],
          .installSnapShot 0, .installSnapShotTokvServer, .enterInstaller 0] ++ passSlot ++
        .enterBatch :: passSlot) = some s ∧
        s.slot.handled.map ApplyMsg.index = [1, 3, 2] := ⟨_, rfl, by decide⟩
  obtain ⟨s, ran, handled⟩ := run
  have increasing := ordered s (Reach.exec (.start ⟨⟨1, [], 0, 0⟩, by decide, by decide, rfl⟩) ran)
  rw [handled] at increasing
  exact absurd increasing (by decide)

end Delivery

end ProjectsCpp.KvRaft
