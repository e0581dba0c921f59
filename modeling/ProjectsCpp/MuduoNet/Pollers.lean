import ProjectsCpp.MuduoNet.EPollPoller
import ProjectsCpp.MuduoNet.PollPoller
import Mathlib.Data.List.Induction

/-! Both pollers under the same operations of channels. -/

namespace ProjectsCpp.MuduoNet

def SameContract (fd : ChannelPtr → Nat) (ops : List Op) : Prop :=
  ∀ before, before <+: ops → ∃ r p e, Registry.run fd before = some r ∧
    PollPoller.run fd before = some p ∧ EPollPoller.run fd before = some e ∧
    p.waits = r.wanted fd ∧ e.waits = r.wanted fd

def AllAllowed (ops : List Op) : Prop :=
  ∀ before op after, ops = before ++ op :: after → Allowed before op

variable {fd : ChannelPtr → Nat} {ops before : List Op}

theorem allAllowed_nil : AllAllowed [] := fun b _ _ cut => by
  cases b <;> exact nomatch cut

theorem allAllowed_concat {op : Op} :
    AllAllowed (before ++ [op]) ↔ AllAllowed before ∧ Allowed before op := by
  constructor
  · intro all
    exact ⟨fun b o a cut => all b o (a ++ [op]) (by rw [cut, List.append_assoc]; rfl),
      all before op [] rfl⟩
  · rintro ⟨all, last⟩ b o a cut
    rcases List.eq_nil_or_concat a with rfl | ⟨a, e, rfl⟩
    · obtain ⟨rfl, same⟩ := List.append_inj' cut rfl
      cases same
      exact last
    · rw [List.concat_eq_append, ← List.cons_append, ← List.append_assoc] at cut
      exact all b o a (List.append_inj' cut rfl).1

theorem foldlM_concat {σ α : Type} {step : σ → α → Option σ} {s s' : σ} {before : List α} {a : α} :
    (before ++ [a]).foldlM step s = some s' ↔
      ∃ m, before.foldlM step s = some m ∧ step m a = some s' := by
  rw [List.foldlM_append, Option.bind_eq_bind, Option.bind_eq_some_iff]
  simp only [List.foldlM_cons, List.foldlM_nil, bind_pure]

theorem Registry.run_prefix {r : Registry} (asked : Registry.run fd ops = some r)
    (part : before <+: ops) : ∃ r, Registry.run fd before = some r := by
  obtain ⟨after, rfl⟩ := part
  rw [Registry.run, List.foldlM_append, Option.bind_eq_bind, Option.bind_eq_some_iff] at asked
  obtain ⟨m, first, -⟩ := asked
  exact ⟨m, first⟩

theorem EPollPoller.run_tracked {r : Registry} (asked : Registry.run fd ops = some r) :
    ∃ e, EPollPoller.run fd ops = some e ∧ EPollPoller.Tracked fd r e := by
  induction ops using List.reverseRecOn generalizing r with
  | nil =>
    cases asked
    exact ⟨.new, rfl, .new⟩
  | append_singleton before op ih =>
    obtain ⟨r₀, first, last⟩ := foldlM_concat.mp asked
    obtain ⟨e₀, ran, t⟩ := ih first
    obtain ⟨e, told, t'⟩ := t.step last
    exact ⟨e, foldlM_concat.mpr ⟨e₀, ran, told⟩, t'⟩

theorem PollPoller.run_tracked {r : Registry} (asked : Registry.run fd ops = some r)
    (allowed : AllAllowed ops) :
    ∃ p slots, PollPoller.run fd ops = some p ∧ PollPoller.Tracked fd ops r p slots := by
  induction ops using List.reverseRecOn generalizing r with
  | nil =>
    cases asked
    exact ⟨.new, [], rfl, .new⟩
  | append_singleton before op ih =>
    obtain ⟨all, last_⟩ := allAllowed_concat.mp allowed
    obtain ⟨r₀, first, last⟩ := foldlM_concat.mp asked
    obtain ⟨p₀, slots₀, ran, t⟩ := ih first all
    rcases t.step_iff last with ⟨-, p, slots, told, t'⟩ | ⟨bad, -⟩
    · exact ⟨p, slots, foldlM_concat.mpr ⟨p₀, ran, told⟩, t'⟩
    · exact absurd last_ bad

theorem PollPoller.allowed_of_run {r : Registry} {p : PollPoller}
    (asked : Registry.run fd ops = some r) (ran : PollPoller.run fd ops = some p) :
    AllAllowed ops := by
  induction ops using List.reverseRecOn generalizing r p with
  | nil => exact allAllowed_nil
  | append_singleton before op ih =>
    obtain ⟨r₀, first, last⟩ := foldlM_concat.mp asked
    obtain ⟨p₀, ran₀, told⟩ := foldlM_concat.mp ran
    have all := ih first ran₀
    obtain ⟨p₁, slots, ran₁, t⟩ := run_tracked first all
    cases ran₁.symm.trans ran₀
    rcases t.step_iff last with ⟨allowed, -⟩ | ⟨-, failed⟩
    · exact allAllowed_concat.mpr ⟨all, allowed⟩
    · exact nomatch failed.symm.trans told

/-- The pollers agree exactly on the sequences in which no channel is used after its remove and
each remove comes after a second update of its channel. -/
theorem sameContract_iff (fd : ChannelPtr → Nat) (ops : List Op)
    (asked : (Registry.run fd ops).isSome) : SameContract fd ops ↔ AllAllowed ops := by
  obtain ⟨r, asked⟩ := Option.isSome_iff_exists.mp asked
  constructor
  · intro same
    obtain ⟨r', p, e, asked', ran, -⟩ := same ops List.prefix_rfl
    exact PollPoller.allowed_of_run asked' ran
  · intro allowed before part
    obtain ⟨r₀, first⟩ := Registry.run_prefix asked part
    have part_ : AllAllowed before := by
      obtain ⟨after, rfl⟩ := part
      intro b o a cut
      exact allowed b o (a ++ after) (by rw [cut, List.append_assoc]; rfl)
    obtain ⟨p, slots, ranP, tp⟩ := PollPoller.run_tracked first part_
    obtain ⟨e, ranE, te⟩ := EPollPoller.run_tracked first
    exact ⟨r₀, p, e, first, ranP, ranE, tp.waits_eq, te.waits_eq⟩

theorem sameContract_fdUsedAgain : SameContract (fun _ => 5)
    [.update .enableReading 0, .update .disableAll 0, .remove 0, .update .enableWriting 1] := by
  refine (sameContract_iff _ _ (by decide)).mpr ?_
  have all : AllAllowed ([] ++ [Op.update .enableReading 0] ++ [Op.update .disableAll 0] ++
      [Op.remove 0] ++ [Op.update .enableWriting 1]) := by
    simp only [allAllowed_concat]
    exact ⟨⟨⟨⟨allAllowed_nil, by decide⟩, by decide⟩, by decide⟩, by decide⟩
  exact all

theorem not_sameContract_enabledAgain :
    (Registry.run (fun _ => 5) [.update .enableReading 0, .update .disableAll 0, .remove 0,
      .update .enableReading 0]).isSome ∧
    ¬ SameContract (fun _ => 5) [.update .enableReading 0, .update .disableAll 0, .remove 0,
      .update .enableReading 0] := by
  refine ⟨by decide, fun same => ?_⟩
  obtain ⟨r, p, e, -, ran, -⟩ := same _ List.prefix_rfl
  have failed : PollPoller.run (fun _ => 5) [.update .enableReading 0, .update .disableAll 0,
      .remove 0, .update .enableReading 0] = none := rfl
  exact nomatch failed.symm.trans ran

end ProjectsCpp.MuduoNet
