import ProjectsCpp.KvRaft.LogFrame

/-! One node over its whole life: critical sections in any order, crashes at any
point of a section, and restarts through `Make`. The environment is arbitrary, so a
request or a reply is whatever the action carries. -/

namespace ProjectsCpp.KvRaft
open ProjectsCpp.Text ProjectsCpp.Run

variable {n : Nat}

/-- The files on disk at the points where the node may die: between two sections, or inside
the section of an action, after one of its writes. -/
def Raft.disks (r : Raft n) : Option (Action n) → List (PersisterFile × Option Str)
  | none => [(r.file, r.snapFile)]
  | some a =>
    if r.lockKept then []
    else match a with
    | .appendEntries args =>
      if (getCmdAndTerm args.sendLogs).isSome ∧ args.term > r.curTerm then
        [(r.clearVote.file, r.snapFile)]
      else []
    | .installSnapShot args =>
      (if args.term > r.curTerm then [(r.clearVote.file, r.snapFile)] else []) ++
        (r.installSnapShot args).toList.map fun s => (s.1.file, r.snapFile)
    | .recvSnapShot snapShot index =>
      (r.recvSnapShot snapShot index).toList.map fun s => (s.file, r.snapFile)
    | _ => []

structure Life (n : Nat) where
  process : Process n
  supports : List (Int × Int)

inductive Event (n : Nat) where
  | act (a : Action n)
  | restart (during : Option (Action n)) (point : Nat)

namespace Life

def step (s : Life n) : Event n → Option (Life n)
  | .act a =>
    (s.process.step a).map fun (q, o) => ⟨q, (supportOf a o q.raft).toList ++ s.supports⟩
  | .restart during point =>
    ((s.process.raft.disks during)[point]?).bind fun disk =>
      (Raft.make s.process.raft.peerId disk.1 disk.2).map fun r =>
        ⟨Process.ofRaft r, s.supports⟩

def machine (atomic : Bool) (i : Fin n) : Machine (Life n) (Event n) where
  start s := s = ⟨Process.boot atomic i, []⟩
  step := step

variable {s t : Life n}

theorem step_cases {e : Event n} (next : s.step e = some t) :
    (∃ a q o, e = .act a ∧ s.process.step a = some (q, o) ∧
      t = ⟨q, (supportOf a o q.raft).toList ++ s.supports⟩) ∨
    ∃ during point disk r, e = .restart during point ∧
      (s.process.raft.disks during)[point]? = some disk ∧
      Raft.make s.process.raft.peerId disk.1 disk.2 = some r ∧
      t = ⟨Process.ofRaft r, s.supports⟩ := by
  cases e with
  | act a =>
    obtain ⟨⟨q, o⟩, run, done⟩ := Option.map_eq_some_iff.mp next
    exact .inl ⟨a, q, o, rfl, run, done.symm⟩
  | restart during point =>
    obtain ⟨disk, at_point, booted⟩ := Option.bind_eq_some_iff.mp next
    obtain ⟨r, made, done⟩ := Option.map_eq_some_iff.mp booted
    exact .inr ⟨during, point, disk, r, rfl, at_point, made, done.symm⟩

end Life

theorem Raft.mem_disks {r : Raft n} {during : Option (Action n)}
    {disk : PersisterFile × Option Str} (h : disk ∈ r.disks during) :
    disk.1 = r.file ∨ (∃ term, r.curTerm < term ∧ disk.1 = r.clearVote.file) ∨
      ∃ s : Raft n, r.BallotStep s none ∧ r.Compacted s ∧ disk.1 = s.file := by
  cases during with
  | none =>
    simp only [disks, List.mem_singleton] at h
    exact .inl (by rw [h])
  | some a =>
    simp only [disks] at h
    split at h
    · cases h
    cases a with
    | appendEntries args =>
      simp only at h
      split at h
      · rename_i higher
        rw [List.mem_singleton] at h
        exact .inr (.inl ⟨args.term, higher.2, by rw [h]⟩)
      · cases h
    | installSnapShot args =>
      simp only [List.mem_append, List.mem_map, Option.mem_toList] at h
      rcases h with h | ⟨s, run, rfl⟩
      · split at h
        · rename_i higher
          rw [List.mem_singleton] at h
          exact .inr (.inl ⟨args.term, higher, by rw [h]⟩)
        · cases h
      · exact .inr (.inr ⟨s.1, installSnapShot_ballot run, installSnapShot_log run, rfl⟩)
    | recvSnapShot snapShot index =>
      simp only [List.mem_map, Option.mem_toList] at h
      obtain ⟨s, run, rfl⟩ := h
      exact .inr (.inr ⟨s, recvSnapShot_ballot run, recvSnapShot_log run, rfl⟩)
    | _ => cases h

theorem Raft.make_read {i : Fin n} {file : PersisterFile} {snap : Option Str} {r : Raft n}
    (made : Raft.make i file snap = some r) :
    ∃ s, (Raft.fresh i file snap).readRaftState = some s ∧ r.curTerm = s.curTerm ∧
      r.votedFor = s.votedFor ∧ r.logs = s.logs ∧ r.lastIncludedIndex = s.lastIncludedIndex ∧
      r.lastIncludedTerm = s.lastIncludedTerm ∧ r.file = s.file := by
  obtain ⟨s, read, rfl⟩ := Option.map_eq_some_iff.mp made
  refine ⟨s, read, ?_⟩
  rw [installSnapShotTokvServer, readSnapShot]
  cases s.snapFile <;> simp

end ProjectsCpp.KvRaft
