import ProjectsCpp.KvRaft.Life

/-! Vote durability of one node. The vote in memory and the vote on disk both back
every support given so far, except for the file of an early save: `appendEntries` and
`installSnapShot` save the cleared vote while the file still holds the old term. As long
as no such file is read back, a node supports one candidate in each term. -/

namespace ProjectsCpp.KvRaft
open ProjectsCpp.Text ProjectsCpp.Run

variable {n : Nat}

def Backed (supports : List (Int × Int)) (term vote : Int) : Prop :=
  ∀ T c, (T, c) ∈ supports → c ≠ -1 ∧ T ≤ term ∧ (T = term → vote = c)

def PersisterFile.Backs (f : PersisterFile) (supports : List (Int × Int)) : Prop :=
  f.Sound ∧ (f.voteErased = false →
    ∀ T c, (T, c) ∈ supports → ∃ p, f.saved = some p ∧ T ≤ p.curTerm ∧ (T = p.curTerm → p.votedFor = c))

structure VotesKept (supports : List (Int × Int)) (r : Raft n) : Prop where
  memory : Backed supports r.curTerm r.votedFor
  disk : r.file.Backs supports
  unique : ∀ T c d, (T, c) ∈ supports → (T, d) ∈ supports → c = d

variable {supports : List (Int × Int)} {r s : Raft n}

theorem Backed.raise {term vote term' : Int} (backed : Backed supports term vote)
    (higher : term < term') (vote' : Int) : Backed supports term' vote' := by
  intro T c given
  have h := backed T c given
  exact ⟨h.1, by omega, by omega⟩

theorem Backed.write {p : Persister} (backed : Backed supports p.curTerm p.votedFor)
    (f : PersisterFile) : (f.write p).Backs supports := by
  refine ⟨f.write_sound p, fun _ T c given => ?_⟩
  exact ⟨p, rfl, (backed T c given).2⟩

theorem Backed.savedOver {f : PersisterFile} (backed : Backed supports s.curTerm s.votedFor)
    (saved : s.SavedOver f) : s.file.Backs supports := by
  obtain ⟨p, file, term, vote, -⟩ := saved
  rw [file]
  refine Backed.write ?_ f
  rwa [term, vote]

theorem Backed.clearVote (backed : Backed supports r.curTerm r.votedFor) :
    r.clearVote.file.Backs supports := by
  refine ⟨r.clearVote_sound, fun kept T c given => ?_⟩
  have free : r.votedFor = -1 := by simpa [Raft.clearVote] using kept
  have h := backed T c given
  refine ⟨_, rfl, h.2.1, fun same => ?_⟩
  have voted := h.2.2 same
  rw [free] at voted
  exact voted

theorem VotesKept.boot (atomic : Bool) (i : Fin n) :
    VotesKept [] (Process.boot atomic i).raft where
  memory := fun _ _ given => nomatch given
  disk := ⟨noFile_sound atomic, fun _ _ _ given => nomatch given⟩
  unique := fun _ _ _ given => nomatch given

theorem VotesKept.step {support : Option (Int × Int)} (kept : VotesKept supports r)
    (ballot : r.BallotStep s support) (candidate : ∀ T c, support = some (T, c) → c ≠ -1) :
    VotesKept (support.toList ++ supports) s := by
  cases ballot with
  | quiet term vote file =>
    have memory : Backed supports s.curTerm s.votedFor := by
      rw [term, vote]
      exact kept.memory
    refine ⟨memory, ?_, kept.unique⟩
    cases file with
    | inl same => exact same ▸ kept.disk
    | inr saved => exact memory.savedOver saved
  | raised term vote file =>
    have memory := kept.memory.raise term s.votedFor
    refine ⟨memory, ?_, kept.unique⟩
    cases file with
    | inl same => exact same ▸ kept.disk
    | inr saved => exact memory.savedOver saved
  | cleared term vote file =>
    have memory := kept.memory.raise term s.votedFor
    refine ⟨memory, ?_, kept.unique⟩
    cases file with
    | inl early => exact early ▸ kept.memory.clearVote
    | inr saved => exact memory.savedOver saved
  | voted c term free vote file =>
    have named : c ≠ -1 := candidate _ c rfl
    -- an earlier support of this term is the vote already held
    have agree : ∀ d, (s.curTerm, d) ∈ supports → d = c := by
      intro d given
      have h := kept.memory _ d given
      have same : r.curTerm = s.curTerm := by omega
      have held : r.votedFor = d := h.2.2 same.symm
      cases free same with
      | inl none => exact absurd (held.symm.trans none) h.1
      | inr voted => exact held.symm.trans voted
    have memory : Backed ((s.curTerm, c) :: supports) s.curTerm s.votedFor := by
      intro T d given
      cases List.mem_cons.mp given with
      | inl new =>
        cases new
        exact ⟨named, le_refl _, fun _ => vote⟩
      | inr old =>
        have h := kept.memory T d old
        refine ⟨h.1, by omega, ?_⟩
        rintro rfl
        rw [vote, agree d old]
    refine ⟨memory, memory.savedOver file, ?_⟩
    intro T d e first second
    simp only [Option.toList_some, List.singleton_append, List.mem_cons, Prod.mk.injEq] at first second
    rcases first with ⟨rfl, rfl⟩ | first
    · rcases second with ⟨-, rfl⟩ | second
      · rfl
      · exact (agree e second).symm
    · rcases second with ⟨rfl, rfl⟩ | second
      · exact agree d first
      · exact kept.unique T d e first second

theorem VotesKept.reload {base : Raft n} (read : base.readRaftState = some s)
    (disk : base.file.Backs supports) (kept : base.file.voteErased = false)
    (unique : ∀ T c d, (T, c) ∈ supports → (T, d) ∈ supports → c = d)
    (named : ∀ T c, (T, c) ∈ supports → c ≠ -1) : VotesKept supports s := by
  obtain ⟨file, restored⟩ := disk.1.readRaftState read
  refine ⟨?_, file ▸ disk, unique⟩
  intro T c given
  obtain ⟨p, saved, le, vote⟩ := disk.2 kept T c given
  refine ⟨named T c given, ?_⟩
  rcases restored with ⟨-, none, -⟩ | ⟨q, saved', term, votedFor⟩
  · rw [none] at saved
    cases saved
  · rw [saved'] at saved
    cases saved
    rw [term, votedFor]
    exact ⟨le, vote⟩

theorem VotesKept.disks (kept : VotesKept supports r) {during : Option (Action n)}
    {disk : PersisterFile × Option Str} (left : disk ∈ r.disks during) :
    disk.1.Backs supports := by
  rcases Raft.mem_disks left with same | ⟨term, -, early⟩ | ⟨s, ballot, -, file⟩
  · exact same ▸ kept.disk
  · exact early ▸ kept.memory.clearVote
  · have h := kept.step ballot fun _ _ none => nomatch none
    exact file ▸ h.disk

/-! ### The runs -/

/-- A `RequestVote` request names one of the peers, as `callRequestVote` fills it. -/
def Action.FromPeer : Action n → Prop
  | .requestVote args => ∃ i : Fin n, args.candidateId = i.val
  | _ => True

theorem supportOf_named {p q : Process n} {a : Action n} {o : Output n} (peer : a.FromPeer)
    (next : p.step a = some (q, o)) (T c : Int) (given : supportOf a o q.raft = some (T, c)) :
    c ≠ -1 := by
  cases Process.ran_of_step next with
  | electionStart idle run =>
    cases given
    rw [Raft.id]
    omega
  | requestVote =>
    simp only [supportOf] at given
    split at given <;> cases given
    obtain ⟨i, named⟩ := peer
    omega
  | _ => cases given

def Event.FromPeer (_ : Life n) : Event n → Prop
  | .act a => a.FromPeer
  | .restart _ _ => True

def Event.Durable (s : Life n) : Event n → Prop
  | .act a => a.FromPeer ∧ (a.Reloads s.process.raft → s.process.raft.file.voteErased = false)
  | .restart during point =>
    ∀ disk ∈ (s.process.raft.disks during)[point]?, disk.1.voteErased = false

theorem VotesKept.act {p q : Process n} {a : Action n} {o : Output n}
    (kept : VotesKept supports p.raft) (peer : a.FromPeer)
    (durable : a.Reloads p.raft → p.raft.file.voteErased = false)
    (next : p.step a = some (q, o)) :
    VotesKept ((supportOf a o q.raft).toList ++ supports) q.raft := by
  by_cases reloads : a.Reloads p.raft
  · cases Process.ran_of_step next with
    | voteReply call run =>
      simp only [Raft.voteReply] at run
      rw [if_pos (show _ > _ from reloads)] at run
      exact VotesKept.reload run kept.disk (durable reloads) kept.unique
        fun T c given => (kept.memory T c given).1
    | _ => exact reloads.elim
  · exact kept.step (Process.step_ballot reloads next) (supportOf_named peer next)

theorem Life.votesKept {i : Fin n} {s : Life n}
    (reach : Reach (Life.machine true i) Event.Durable s) :
    VotesKept s.supports s.process.raft := by
  refine reach.invariant (P := fun s : Life n => VotesKept s.supports s.process.raft) ?_ ?_
  · rintro s rfl
    exact VotesKept.boot true i
  · intro s e t kept durable next
    rcases Life.step_cases next with ⟨a, q, o, rfl, run, rfl⟩ |
      ⟨during, point, disk, r, rfl, left, made, rfl⟩
    · exact kept.act durable.1 durable.2 run
    · obtain ⟨base, read, term, vote, -, -, -, file⟩ := Raft.make_read made
      have fresh := VotesKept.reload read (kept.disks (List.mem_of_getElem? left))
        (durable disk left) kept.unique fun T c given => (kept.memory T c given).1
      refine ⟨?_, ?_, kept.unique⟩
      · have memory := fresh.memory
        rwa [← term, ← vote] at memory
      · have backs := fresh.disk
        rwa [← file] at backs

instance (r : Raft n) (a : Action n) : Decidable (a.Reloads r) := by
  rcases a <;> (unfold Action.Reloads; infer_instance)

instance (a : Action n) : Decidable a.FromPeer := by
  rcases a <;> (unfold Action.FromPeer; infer_instance)

instance (s : Life n) (e : Event n) : Decidable (Event.Durable s e) := by
  rcases e <;> (unfold Event.Durable; infer_instance)

instance (s : Life n) (e : Event n) : Decidable (Event.FromPeer s e) := by
  rcases e <;> (unfold Event.FromPeer; infer_instance)

def voteAgain : List (Event 3) :=
  [.act (.requestVote ⟨5, 1, 0, 0⟩), .restart none 0, .act (.requestVote ⟨5, 1, 0, 0⟩)]

/-- The vote of term 5 goes to candidate 1; an `AppendEntries` of term 7 that fails its log
check saves the cleared vote with term 5; the node dies there and votes for candidate 2. -/
def voteErasedRun : List (Event 3) :=
  [.act (.requestVote ⟨5, 1, 0, 0⟩), .restart (some (.appendEntries ⟨7, 2, 4, 6, 0, []⟩)) 0,
    .act (.requestVote ⟨5, 2, 0, 0⟩)]

end ProjectsCpp.KvRaft
