import ProjectsCpp.ShardMaster.Evenly

/-! Balancing moves as few shards as any even assignment can. -/

namespace ProjectsCpp.Mastering
open ProjectsCpp.Text ProjectsCpp.Sharding ProjectsCpp.Balance

/-- The shards that had a group before and have another one after. -/
def movedShards (before after : List Int) : Nat :=
  (before.zip after).countP fun owner => owner.1 ≠ 0 ∧ owner.1 ≠ owner.2

def lostShards (gid : Int) (before after : List Int) : Nat :=
  (before.zip after).countP fun owner => owner.1 ≠ 0 ∧ owner.1 = gid ∧ owner.2 ≠ gid

def groupIds (config : Config) : Finset Int := config.groups.keys.toFinset

theorem mem_groupIds {config : Config} {gid : Int} : gid ∈ groupIds config ↔ gid ∈ config.groups := by
  rw [groupIds, List.mem_toFinset, ← AList.mem_keys]

theorem movedShards_eq {groups : Finset Int} {before after : List Int}
    (assigned : ∀ owner ∈ before, owner = 0 ∨ owner ∈ groups) :
    movedShards before after = ∑ gid ∈ groups, lostShards gid before after := by
  induction before generalizing after with
  | nil => simp [movedShards, lostShards]
  | cons owner before ih =>
    cases after with
    | nil => simp [movedShards, lostShards]
    | cons owner' after =>
      have rest : movedShards before after = ∑ gid ∈ groups, lostShards gid before after :=
        ih fun other later => assigned other (List.mem_cons_of_mem _ later)
      simp only [movedShards, lostShards, List.zip_cons_cons, List.countP_cons,
        Finset.sum_add_distrib] at rest ⊢
      rw [rest, Nat.add_left_cancel_iff]
      by_cases lost : owner ≠ 0 ∧ owner ≠ owner'
      · have inside := (assigned owner List.mem_cons_self).resolve_left lost.1
        rw [Finset.sum_eq_single_of_mem owner inside fun gid _ other => by simp [Ne.symm other]]
        simp [lost.1, lost.2, Ne.symm lost.2]
      · rw [if_neg (by simpa using lost), eq_comm, Finset.sum_eq_zero]
        intro gid _
        rw [if_neg]
        intro one
        obtain ⟨some_, rfl, differ⟩ := of_decide_eq_true one
        exact lost ⟨some_, Ne.symm differ⟩

def keptShards (gid : Int) (before after : List Int) : Nat :=
  (before.zip after).countP fun owner => owner.1 = gid ∧ owner.2 = gid

section Balance

variable {gid : Int} {before after : List Int}

theorem count_eq_kept_add_lost (size : before.length = after.length) (ne : gid ≠ 0) :
    before.count gid = keptShards gid before after + lostShards gid before after := by
  have first : before.count gid = (before.zip after).countP fun owner => owner.1 = gid := by
    have firsts : (before.zip after).map Prod.fst = before := List.map_fst_zip (by omega)
    rw [← congrArg (List.count gid) firsts, List.count_eq_countP, List.countP_map]
    exact List.countP_congr fun owner _ => by simp
  rw [first, List.countP_eq_countP_filter_add _ _ fun owner => decide (owner.2 = gid),
    List.countP_filter, List.countP_filter, keptShards, lostShards]
  congr 1
  · exact List.countP_congr fun owner _ => by simp
  · refine List.countP_congr fun owner _ => ?_
    simp only [ne_eq, Bool.and_eq_true, decide_eq_true_eq, Bool.not_eq_true',
      decide_eq_false_iff_not]
    exact ⟨fun lost => ⟨lost.1 ▸ ne, lost⟩, And.right⟩

theorem kept_le_count (size : before.length = after.length) :
    keptShards gid before after ≤ after.count gid := by
  have seconds : (before.zip after).map Prod.snd = after := List.map_snd_zip (by omega)
  rw [← congrArg (List.count gid) seconds, List.count_eq_countP, List.countP_map]
  exact List.countP_mono_left fun owner _ kept => by
    have both := of_decide_eq_true kept
    simp [both.2]

theorem kept_eq_count (size : before.length = after.length)
    (own : ∀ i : Nat, after[i]? = some gid → before[i]? = some gid) :
    keptShards gid before after = after.count gid := by
  have seconds : (before.zip after).map Prod.snd = after := List.map_snd_zip (by omega)
  rw [← congrArg (List.count gid) seconds, List.count_eq_countP, List.countP_map]
  refine List.countP_congr fun owner member => ?_
  obtain ⟨i, found⟩ := List.mem_iff_getElem?.mp member
  obtain ⟨first, second⟩ := List.getElem?_zip_eq_some.mp found
  simp only [decide_eq_true_eq, Function.comp_apply, beq_iff_eq]
  refine ⟨And.right, fun has => ⟨?_, has⟩⟩
  have had := own i (by rw [second, has])
  rw [first] at had
  exact Option.some.inj had

theorem lost_eq_zero (all : ∀ i : Nat, before[i]? = some gid → after[i]? = some gid) :
    lostShards gid before after = 0 := by
  rw [lostShards, List.countP_eq_zero]
  intro owner member lost
  obtain ⟨-, had, hasNot⟩ := of_decide_eq_true lost
  obtain ⟨i, found⟩ := List.mem_iff_getElem?.mp member
  obtain ⟨first, second⟩ := List.getElem?_zip_eq_some.mp found
  have has := all i (by rw [first, had])
  rw [second] at has
  exact hasNot (Option.some.inj has)

end Balance

/-! ### The moves of an even assignment, and those of the loops -/

theorem sum_count_groups {config : Config} {shards : List Int}
    (spread : SpreadEvenly config shards) :
    ∑ gid ∈ groupIds config, shards.count gid = NShards := by
  have all := Multiset.sum_count_eq_card (s := groupIds config) (m := (shards : Multiset Int))
    fun owner member => mem_groupIds.mpr (spread.owners owner (Multiset.mem_coe.mp member))
  simp only [Multiset.coe_count, Multiset.coe_card, spread.size] at all
  exact all

theorem sub_le_lostShards {config : Config} {after : List Int} (gid : Int)
    (size : config.shards.length = after.length) :
    (heldBefore config gid).length - after.count gid ≤ lostShards gid config.shards after := by
  by_cases none_ : gid = 0
  · rw [heldBefore, if_pos none_]
    simp
  · have split := count_eq_kept_add_lost size none_
    have kept : keptShards gid config.shards after ≤ after.count gid := kept_le_count size
    rw [heldBefore, if_neg none_, length_positions]
    omega

theorem Leveled.lost_eq {config : Config} {workLoad : Bins Int Nat}
    (leveled : Leveled config workLoad) (sized : config.shards.length = NShards) {gid : Int}
    (inside : gid ∈ config.groups) :
    lostShards gid config.shards (storeLoad workLoad.entries config.shards) =
      (heldBefore config gid).length - (storeLoad workLoad.entries config.shards).count gid := by
  obtain ⟨items, member⟩ := leveled.loaded.exists_bin inside
  have size := (storeLoad_spec workLoad.entries config.shards).1.symm
  have owner := leveled.loaded.store sized member
  have count := leveled.loaded.count sized member
  by_cases none_ : gid = 0
  · rw [heldBefore, if_pos none_, List.length_nil, Nat.zero_sub, lostShards, List.countP_eq_zero]
    intro pair _ lost
    obtain ⟨some_, had, -⟩ := of_decide_eq_true lost
    exact some_ (had.trans none_)
  · have held := heldBefore_some config none_
    rcases leveled.sparing.comparable _ member with all | part
    · rw [lost_eq_zero fun i had => (owner i).mp (all.subset ((held i).mpr had)), count]
      exact (Nat.sub_eq_zero_of_le all.length_le).symm
    · have kept := kept_eq_count size fun i has => (held i).mp (part.subset ((owner i).mpr has))
      have split := count_eq_kept_add_lost size none_
      rw [heldBefore, if_neg none_, length_positions]
      omega

/-- Whatever the ties, balancing moves the least number of shards that leads to an even
assignment. -/
theorem balanceWorkLoad_moves_least {ties : Ties Int Nat} {fuel : Nat} {config config' : Config}
    (sized : config.shards.length = NShards) (some_ : config.groups.entries ≠ [])
    (assigned : Assigned config) (done : balanceWorkLoad ties fuel config = some config') :
    IsLeast {moves | ∃ shards, SpreadEvenly config shards ∧
      movedShards config.shards shards = moves} (movedShards config.shards config'.shards) := by
  obtain ⟨workLoad, level, rfl⟩ := leveled sized some_ assigned done
  have spread := level.spread sized
  refine ⟨⟨_, spread, rfl⟩, ?_⟩
  rintro _ ⟨shards, other, rfl⟩
  have owners : ∀ owner ∈ config.shards, owner = 0 ∨ owner ∈ groupIds config := fun owner member =>
    (assigned owner member).imp id mem_groupIds.mpr
  rw [movedShards_eq owners, movedShards_eq owners]
  calc ∑ gid ∈ groupIds config, lostShards gid config.shards (storeLoad workLoad.entries config.shards)
      = ∑ gid ∈ groupIds config, ((heldBefore config gid).length -
          (storeLoad workLoad.entries config.shards).count gid) :=
        Finset.sum_congr rfl fun gid inside => level.lost_eq sized (mem_groupIds.mp inside)
    _ ≤ ∑ gid ∈ groupIds config, ((heldBefore config gid).length - shards.count gid) := by
        refine sum_sub_le
          (fun gid inside gid' inside' =>
            spread.near gid (mem_groupIds.mp inside) gid' (mem_groupIds.mp inside'))
          (fun gid inside gid' inside' =>
            other.near gid (mem_groupIds.mp inside) gid' (mem_groupIds.mp inside'))
          (by rw [sum_count_groups spread, sum_count_groups other]) ?_
        intro gid inside less gid' inside' more
        obtain ⟨items, member⟩ := level.loaded.exists_bin (mem_groupIds.mp inside)
        obtain ⟨items', member'⟩ := level.loaded.exists_bin (mem_groupIds.mp inside')
        have count := level.loaded.count sized member
        have count' := level.loaded.count sized member'
        rw [count] at less ⊢
        rw [count'] at more ⊢
        exact level.sparing.crossed _ member less _ member' more
    _ ≤ ∑ gid ∈ groupIds config, lostShards gid config.shards shards :=
        Finset.sum_le_sum fun gid _ => sub_le_lostShards gid (sized.trans other.size.symm)

theorem threeGroups_moves : ∃ fuel config',
    balanceWorkLoad ⟨fun _ => 0, fun _ => 0⟩ fuel threeGroups = some config' ∧
      IsLeast {moves | ∃ shards, SpreadEvenly threeGroups shards ∧
        movedShards threeGroups.shards shards = moves} 6 := by
  have done : (balanceWorkLoad ⟨fun _ => 0, fun _ => 0⟩ 9 threeGroups).any (fun config' =>
      decide (movedShards threeGroups.shards config'.shards = 6)) = true := by decide +kernel
  obtain ⟨config', ran, six⟩ := (Option.any_eq_true _ _).mp done
  have least := balanceWorkLoad_moves_least rfl (by decide) assigned_threeGroups ran
  rw [of_decide_eq_true six] at least
  exact ⟨9, config', ran, least⟩

end ProjectsCpp.Mastering
