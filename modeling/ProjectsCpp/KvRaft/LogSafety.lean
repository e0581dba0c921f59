import ProjectsCpp.KvRaft.Refinement

/-! State machine safety of a cluster without snapshots. Every run of faithful steps refines
replicated logs; entries that `applyLogLoop` delivers are chosen there, and at most one
entry is chosen for each index. `appendEntries` removes everything after `prevLogIndex`, so
a delayed request of the same leader takes back what its sender has already counted. -/

namespace ProjectsCpp.KvRaft
open ProjectsCpp.Text ProjectsCpp.Run ProjectsCpp.Quorum ProjectsCpp.Replication

variable {n : Nat}

namespace Cluster
variable {c d : Cluster n} {A B : Logs n} {i j : Fin n} {a : Action n} {q : Process n}
  {o : Output n} {e : ClusterStep n}

theorem Replicated.boot (atomic : Bool) :
    Replicated (boot atomic : Cluster n) (Replicas.empty (Fin n) LogEntry) where
  consistent := Replicas.empty_consistent
  led := fun _ => ⟨nofun, fun ⟨_, promoted⟩ => nomatch promoted⟩
  node := fun _ => {
    log := rfl
    whole := ⟨rfl, rfl⟩
    nonneg := le_refl 0
    pledged := le_refl 0
    saved := nofun
    threads := nofun
    candidate := nofun
    leader := nofun
    led := nofun
    counted := nofun
    commit := .inl rfl }
  backed := nofun
  sound _ sent := absurd sent List.not_mem_nil
  decided := nofun
  clean := nofun

theorem Replicated.silent (r : Replicated c A) (ran : c.Ran i a q o d) (moved : Moved c d A B i)
    (unvoted : supportOf a o q.raft = none) (apart : a ≠ .applyLog)
    (net : ∀ p ∈ d.net, p ∈ c.net ∨ d.Sound B p) : Replicated d B := by
  refine r.ran ran moved (fun T j given => ?_) net fun m member => ?_
  · rw [unvoted] at given
    cases given
  · exact absurd (mem_deliveries member).2.1 apart

theorem sends_request {p : Process n} (next : p.step a = some (q, o)) {packet : Packet n}
    (member : packet ∈ requests i o) :
    (∃ born, a = .callRequestVote born) ∨ a = .sendAppendEntries ∨ a = .sendInstallSnapShot := by
  cases Process.ran_of_step next with
  | callRequestVote => exact .inl ⟨_, rfl⟩
  | sendAppendEntries => exact .inr (.inl rfl)
  | sendInstallSnapShot => exact .inr (.inr rfl)
  | electionWake =>
    split at member <;> cases member
  | _ => cases member

theorem Replicated.internal (r : Replicated c A) (elected : Elected c) (elected' : Elected d)
    (internal : a.Internal) (plain : a.Plain)
    (faithful : a.Faithful (c.node i).process.raft) (ran : c.Ran i a q o d)
    (net : d.net = requests i o ++ c.net) : ∃ B, Replicated d B := by
  have sends : ∀ B, (∀ p ∈ requests i o, d.Sound B p) → ∀ p ∈ d.net, p ∈ c.net ∨ d.Sound B p := by
    intro B sound p member
    rw [net] at member
    cases List.mem_append.mp member with
    | inl new => exact .inr (sound p new)
    | inr old => exact .inl old
  have quiet : ∀ B, (∀ born, a ≠ .callRequestVote born) → a ≠ .sendAppendEntries →
      ∀ p ∈ d.net, p ∈ c.net ∨ d.Sound B p := by
    intro B noVote noEntries
    refine sends B fun p member => ?_
    rcases sends_request ran.section_ member with ⟨born, same⟩ | same | same
    · exact absurd same (noVote born)
    · exact absurd same noEntries
    · rw [same] at plain
      exact plain.elim
  cases a with
  | electionStart =>
    obtain ⟨moved, backs⟩ := r.electionStart elected ran
    refine ⟨_, r.ran ran moved (fun T j given => ?_) (quiet _ nofun nofun) fun m member => ?_⟩
    · obtain ⟨pledge, backs⟩ := backs T j given
      exact ⟨pledge, fun _ => backs⟩
    · exact absurd (mem_deliveries member).2.1 nofun
  | electionWake =>
    obtain ⟨B, moved⟩ := r.electionWake elected elected' ran
    exact ⟨B, r.silent ran moved rfl nofun (quiet B nofun nofun)⟩
  | callRequestVote born =>
    obtain ⟨moved, sound⟩ := r.callRequestVote faithful ran
    exact ⟨A, r.silent ran moved rfl nofun (sends A sound)⟩
  | processEntries =>
    have still : (c.node i).process.raft.Still q.raft := by
      cases Process.ran_of_step ran.section_ with
      | processEntries run => exact Raft.processEntries_still run
    exact ⟨A, r.silent ran (r.aside ran plain id still) rfl nofun (quiet A nofun nofun)⟩
  | sendAppendEntries =>
    obtain ⟨moved, sound⟩ := r.sendAppendEntries elected faithful ran
    exact ⟨A, r.silent ran moved rfl nofun (sends A sound)⟩
  | start command =>
    obtain ⟨B, moved⟩ := r.start elected faithful ran
    exact ⟨B, r.silent ran moved rfl nofun (quiet B nofun nofun)⟩
  | applyLog =>
    obtain ⟨moved, delivered⟩ := r.applyLog ran
    exact ⟨A, r.ran ran moved nofun (quiet A nofun nofun) delivered⟩
  | requestVote | voteReply | appendEntries | appendReply => exact internal.elim
  | sendInstallSnapShot | installSnapShot | installReply | installSnapShotTokvServer
  | recvSnapShot => exact plain.elim

theorem Replicated.deliver (r : Replicated c A) (elected : Elected c) (odd : n % 2 = 1)
    {p : Packet n} (inFlight : p ∈ c.net) (fits : p.Fits)
    (faithful : p.action.Faithful (c.node p.target).process.raft)
    (ran : c.Ran p.target p.action q o d)
    (net : ∀ p' ∈ d.net, p' ∈ p.answers o ∨ p' ∈ c.net) : ∃ B, Replicated d B := by
  have sound := r.sound p inFlight
  cases p with
  | voteRequest src dst args =>
    obtain ⟨B, moved, backs⟩ := r.requestVote (elected.honest _ inFlight) sound ran
    refine ⟨B, r.ran ran moved backs (fun p member => ?_) fun m member => ?_⟩
    · cases net p member with
      | inl new =>
        cases o with
        | voteAnswer reply =>
          cases List.mem_singleton.mp new
          exact .inr trivial
        | _ => cases new
      | inr old => exact .inl old
    · exact absurd (mem_deliveries member).2.1 (fun same => by cases same)
  | voteAnswer src dst args reply =>
    refine ⟨A, r.silent ran (r.voteReply elected faithful ran) rfl (fun same => by cases same) fun p member => ?_⟩
    cases net p member with
    | inl new => cases o <;> cases new
    | inr old => exact .inl old
  | appendRequest src dst args =>
    obtain ⟨p, m, sent⟩ := sound
    have same : { args with sendLogs := transmit args.sendLogs } = args := by
      rw [transmit_short fits]
    rw [Packet.action, same] at faithful ran
    obtain ⟨B, moved, acked⟩ := r.appendEntries elected sent faithful ran
    refine ⟨B, r.silent ran moved rfl (fun same => by cases same) fun p' member => ?_⟩
    cases net p' member with
    | inl new =>
      cases o with
      | appendAnswer reply =>
        cases List.mem_singleton.mp new
        exact .inr ⟨ran.promoted_mono sent.promoted, acked reply rfl⟩
      | _ => cases new
    | inr old => exact .inl old
  | appendAnswer src dst args reply =>
    refine ⟨A, r.silent ran (r.appendReply elected odd sound ran) rfl (fun same => by cases same)
      fun p member => ?_⟩
    cases net p member with
    | inl new => cases o <;> cases new
    | inr old => exact .inl old
  | installRequest src dst args => exact sound.elim
  | installAnswer src dst args reply => exact sound.elim

theorem Replicated.step (r : Replicated c A) (elected : Elected c) (odd : n % 2 = 1)
    (plain : e.Plain) (faithful : e.Faithful c) (next : c.step e = some d) :
    ∃ B, Replicated d B := by
  have elected' := elected.step faithful.counted next
  rcases step_cases next with ⟨i, a, q, o, rfl, internal, ran, net⟩ |
    ⟨k, p, q, o, rfl, inFlight, ran, net⟩
  · exact r.internal elected elected' internal plain faithful ran net
  · obtain ⟨fits, faithful⟩ := faithful p inFlight
    refine r.deliver elected odd (List.mem_of_getElem? inFlight) fits faithful ran ?_
    intro p' member
    rw [net] at member
    exact (List.mem_append.mp member).imp id List.mem_of_mem_eraseIdx

theorem replicated {atomic : Bool} (odd : n % 2 = 1)
    (reach : Reach (machine n atomic) (fun c e => e.Plain ∧ e.Faithful c) c) :
    ∃ A, Replicated c A := by
  refine Reach.invariant_of (P := fun c => ∃ A, Replicated c A) (Q := Elected) ?_ ?_ ?_ reach
  · intro c reach
    exact elected (reach.mono fun _ _ allowed => allowed.2.counted)
  · rintro c rfl
    exact ⟨_, Replicated.boot atomic⟩
  · rintro c e d elected ⟨A, r⟩ ⟨plain, faithful⟩ next
    exact r.step elected odd plain faithful next

end Cluster

/-- While every step is faithful, no two nodes deliver different entries at one index. -/
theorem delivered_entries_agree {atomic : Bool} {c : Cluster n} (odd : n % 2 = 1)
    (reach : Reach (Cluster.machine n atomic) (fun c e => e.Plain ∧ e.Faithful c) c)
    {i j : Fin n} {index term term' : Int} {command command' : Str}
    (first : (i, .command command index term) ∈ c.delivered)
    (second : (j, .command command' index term') ∈ c.delivered) :
    command = command' ∧ term = term' := by
  obtain ⟨A, r⟩ := Cluster.replicated odd reach
  obtain ⟨k, e, same, decided⟩ := r.decided i _ first
  obtain ⟨k', e', same', decided'⟩ := r.decided j _ second
  cases same
  injection same' with command' place' term'
  have place : k = k' := by omega
  rw [← place] at decided'
  have agree := r.consistent.decided_unique decided decided'
  rw [command', term', agree]
  exact ⟨rfl, rfl⟩

def oneEntry : List (ClusterStep 3) :=
  [.act 0 .electionStart, .act 0 (.callRequestVote 1), .deliver 0, .deliver 0,
    .act 0 .electionWake, .act 0 (.start ['a']), .act 0 .processEntries,
    .act 0 .sendAppendEntries, .deliver 0, .deliver 0, .act 0 .applyLog,
    .act 0 .sendAppendEntries, .act 0 .processEntries, .act 0 .sendAppendEntries,
    .deliver 0, .act 1 .applyLog]

theorem delivered_entries_agree_sample :
    ∃ c, execWhere (Cluster.machine 3 false) (fun c e => e.Plain ∧ e.Faithful c)
        (Cluster.boot false) oneEntry = some c ∧
      c.delivered = [(1, .command ['a'] 1 1), (0, .command ['a'] 1 1)] ∧
      ∀ i j index term term' command command',
        (i, .command command index term) ∈ c.delivered →
        (j, .command command' index term') ∈ c.delivered → command = command' ∧ term = term' := by
  have run : ∃ c, execWhere (Cluster.machine 3 false) (fun c e => e.Plain ∧ e.Faithful c)
      (Cluster.boot false) oneEntry = some c ∧
      c.delivered = [(1, .command ['a'] 1 1), (0, .command ['a'] 1 1)] := ⟨_, rfl, by decide⟩
  obtain ⟨c, ran, delivered⟩ := run
  exact ⟨c, ran, delivered, fun i j index term term' command command' =>
    delivered_entries_agree (by decide)
      ((Reach.start (M := Cluster.machine 3 false) rfl).execWhere ran)⟩

def staleRequestRun : List (ClusterStep 3) :=
  [.act 0 .electionStart, .act 0 (.callRequestVote 1), .deliver 0, .deliver 0,
    .act 0 .electionWake, .act 0 (.start ['a']), .act 0 .processEntries,
    .act 0 .sendAppendEntries, .act 0 .sendAppendEntries, .deliver 0,
    .act 0 (.start ['b']), .act 0 .processEntries, .act 0 .sendAppendEntries,
    .deliver 0, .deliver 0, .act 0 .applyLog, .deliver 1,
    .act 1 .electionStart, .act 1 (.callRequestVote 2), .act 1 (.callRequestVote 2),
    .deliver 0, .deliver 0, .act 1 .electionWake, .act 1 (.start ['c']),
    .act 1 .processEntries, .act 1 .sendAppendEntries, .act 1 .sendAppendEntries,
    .deliver 0, .deliver 0, .act 1 .applyLog]

theorem stale_request_loses_delivered_entry :
    ¬ ∀ c, Reach (Cluster.machine 3 false) (fun _ e => e.Plain) c →
      ∀ i j index term term' command command',
        (i, .command command index term) ∈ c.delivered →
        (j, .command command' index term') ∈ c.delivered → command = command' ∧ term = term' := by
  intro agree
  have run : ∃ c, execWhere (Cluster.machine 3 false) (fun _ e => e.Plain) (Cluster.boot false)
      staleRequestRun = some c ∧
      c.delivered = [(1, .command ['a'] 1 1), (1, .command ['c'] 2 2), (0, .command ['a'] 1 1),
        (0, .command ['b'] 2 1)] := ⟨_, rfl, by decide⟩
  obtain ⟨c, ran, delivered⟩ := run
  have reach := (Reach.start (M := Cluster.machine 3 false) rfl).execWhere ran
  have same := agree c reach 0 1 2 1 2 ['b'] ['c'] (by rw [delivered]; decide)
    (by rw [delivered]; decide)
  exact absurd same.1 (by decide)

end ProjectsCpp.KvRaft
