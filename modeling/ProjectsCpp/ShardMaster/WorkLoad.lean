import ProjectsCpp.ShardMaster.Master
import Mathlib.Data.List.Dedup

/-! What `balanceWorkLoad` does with a configuration: the loads it starts from, when its
loop ends, and the owners it writes. -/

namespace ProjectsCpp.Mastering
open ProjectsCpp.Text ProjectsCpp.Sharding ProjectsCpp.Balance

def Assigned (config : Config) : Prop :=
  ∀ owner ∈ config.shards, owner = 0 ∨ owner ∈ config.groups

/-- The gids that get a load: those of the groups and those found in `shards`. -/
def holders (config : Config) : List Int :=
  (config.groups.keys ++ config.shards.filter (· ≠ 0)).dedup

/-! ### The loads before balancing -/

private theorem keys_groupLoads (groups : List (Sigma fun _ : Int => List Str)) (load : Bins Int Nat)
    (k : Int) : k ∈ groups.foldl (fun load group => load.insert group.1 []) load ↔
      k ∈ groups.keys ∨ k ∈ load := by
  induction groups generalizing load with
  | nil => simp
  | cons group groups ih =>
    rw [List.foldl_cons, ih, AList.mem_insert, List.keys_cons, List.mem_cons]
    tauto

private theorem weigh_groupLoads (groups : List (Sigma fun _ : Int => List Str))
    (once : groups.NodupKeys) (load : Bins Int Nat) (fresh : ∀ k ∈ groups.keys, k ∉ load) :
    weigh List.length (groups.foldl (fun load group => load.insert group.1 []) load) =
      weigh List.length load := by
  induction groups generalizing load with
  | nil => rfl
  | cons group groups ih =>
    obtain ⟨first, once⟩ := List.nodupKeys_cons.mp once
    have new : load.lookup group.1 = none :=
      AList.lookup_eq_none.mpr (fresh _ List.mem_cons_self)
    have weight := weigh_insert_new (f := List.length) [] new
    have fresh' : ∀ k ∈ groups.keys, k ∉ load.insert group.1 [] := by
      intro k member
      rw [AList.mem_insert, not_or]
      refine ⟨?_, fresh k (List.mem_cons_of_mem _ member)⟩
      rintro rfl
      exact first member
    rw [List.foldl_cons, ih once _ fresh', weight]
    rfl

private theorem items_pushBack (bins : Bins Int Nat) (key : Int) (item : Nat) :
    weigh List.length (pushBack key item bins) = weigh List.length bins + 1 :=
  weigh_pushBack (fun _ _ => List.length_append) bins key item

private theorem shardLoads (shards : List (Int × Nat)) (load : Bins Int Nat) :
    let loads := shards.foldl (fun load shard => if shard.1 ≠ 0 then pushBack shard.1 shard.2 load
      else load) load
    (∀ k, k ∈ loads ↔ k ∈ load ∨ (k ≠ 0 ∧ k ∈ shards.map Prod.fst)) ∧
    weigh List.length loads =
      weigh List.length load + (shards.filter fun shard => shard.1 ≠ 0).length ∧
    (∀ i, (Holds load i ∨ ∃ owner, owner ≠ 0 ∧ (owner, i) ∈ shards) → Holds loads i) := by
  induction shards generalizing load with
  | nil => simp
  | cons shard shards ih =>
    obtain ⟨owner, i⟩ := shard
    simp only [List.foldl_cons]
    by_cases free : owner = 0
    · obtain ⟨keys, weight, held⟩ := ih load
      subst free
      simp only [ne_eq, not_true_eq_false, ↓reduceIte, List.map_cons, List.mem_cons,
        List.filter_cons, Bool.false_eq_true, decide_true, decide_not, Bool.not_true]
      refine ⟨fun k => ?_, ?_, fun j before => ?_⟩
      · rw [keys]
        constructor
        · rintro (inside | ⟨ne, member⟩)
          · exact .inl inside
          · exact .inr ⟨ne, .inr member⟩
        · rintro (inside | ⟨ne, rfl | member⟩)
          · exact .inl inside
          · exact absurd rfl ne
          · exact .inr ⟨ne, member⟩
      · simpa using weight
      · apply held
        rcases before with inside | ⟨o, ne, same | member⟩
        · exact .inl inside
        · cases same
          exact absurd rfl ne
        · exact .inr ⟨o, ne, member⟩
    · obtain ⟨keys, weight, held⟩ := ih (pushBack owner i load)
      rw [if_pos free]
      refine ⟨fun k => ?_, ?_, fun j before => ?_⟩
      · rw [keys, mem_pushBack, List.map_cons, List.mem_cons]
        constructor
        · rintro ((rfl | inside) | ⟨ne, member⟩)
          · exact .inr ⟨free, .inl rfl⟩
          · exact .inl inside
          · exact .inr ⟨ne, .inr member⟩
        · rintro (inside | ⟨ne, rfl | member⟩)
          · exact .inl (.inr inside)
          · exact .inl (.inl rfl)
          · exact .inr ⟨ne, member⟩
      · rw [weight, items_pushBack, List.filter_cons_of_pos (by simpa using free), List.length_cons]
        omega
      · apply held
        rcases before with inside | ⟨o, ne, member⟩
        · exact .inl inside.pushBack
        · cases List.mem_cons.mp member with
          | inl same =>
            cases same
            exact .inl (holds_pushBack _ _ _)
          | inr member => exact .inr ⟨o, ne, member⟩

theorem mem_workLoadOf (config : Config) (k : Int) :
    k ∈ workLoadOf config ↔ k ∈ config.groups ∨ (k ≠ 0 ∧ k ∈ config.shards) := by
  have keys := (shardLoads config.shards.zipIdx
    (config.groups.entries.foldl (fun load group => load.insert group.1 []) ∅)).1 k
  rw [keys_groupLoads] at keys
  rw [workLoadOf, keys]
  simp [AList.mem_keys, AList.keys]

theorem length_workLoadOf (config : Config) :
    (workLoadOf config).entries.length = (holders config).length := by
  have same : (workLoadOf config).keys.Perm (holders config) := by
    rw [holders, List.perm_ext_iff_of_nodup (AList.keys_nodup _) (List.nodup_dedup _)]
    intro k
    rw [← AList.mem_keys, mem_workLoadOf, List.mem_dedup, List.mem_append,
      AList.mem_keys, List.mem_filter]
    simp [and_comm]
  have length := same.length_eq
  rwa [AList.keys, List.keys, List.length_map] at length

theorem holds_workLoadOf {config : Config} {i : Nat} {owner : Int}
    (owned : config.shards[i]? = some owner) (ne : owner ≠ 0) : Holds (workLoadOf config) i := by
  have member : (owner, i) ∈ config.shards.zipIdx := by
    rw [List.mem_zipIdx_iff_getElem?]
    exact owned
  exact (shardLoads config.shards.zipIdx _).2.2 i (.inr ⟨owner, ne, member⟩)

theorem weigh_workLoadOf (config : Config) :
    weigh List.length (workLoadOf config) + (freeShards config).length = config.shards.length := by
  have weight := (shardLoads config.shards.zipIdx
    (config.groups.entries.foldl (fun load group => load.insert group.1 []) ∅)).2.1
  rw [weigh_groupLoads _ config.groups.nodupKeys ∅ fun k _ => AList.notMem_empty k] at weight
  have split := List.length_eq_countP_add_countP (fun shard : Int × Nat => decide (shard.1 = 0))
    (l := config.shards.zipIdx)
  rw [List.length_zipIdx] at split
  have start : weigh List.length (∅ : Bins Int Nat) = 0 := rfl
  rw [workLoadOf, weight, start, freeShards, List.length_map, split, List.countP_eq_length_filter,
    List.countP_eq_length_filter]
  simp only [ne_eq, decide_not, Bool.not_eq_true, decide_eq_false_iff_not]
  omega

/-! ### Shards without an owner -/

theorem inStep_push {workLoad : Bins Int Nat} {queue : List (Bin Int Nat)} {load : Bin Int Nat}
    {i : Nat} (inStep : queue.Perm workLoad.entries) (fromQueue : load ∈ queue) :
    (⟨load.1, load.2 ++ [i]⟩ :: queue.erase load : List (Bin Int Nat)).Perm
      (pushBack load.1 i workLoad).entries := by
  have member := inStep.subset fromQueue
  have others : (queue.erase load).Perm (workLoad.entries.kerase load.1) := by
    have all := ((List.perm_cons_erase fromQueue).symm.trans inStep).trans (perm_kerase member)
    exact all.cons_inv
  rw [pushBack, entry_iff.mp member, Option.getD_some, AList.entries_insert]
  exact others.cons _

theorem assignFree_rule {ties : Ties Int Nat} {P : List Nat → Bins Int Nat → Prop}
    (push : ∀ (free : List Nat) (i : Nat) (bins : Bins Int Nat) (low : Bin Int Nat),
      P (i :: free) bins → low ∈ bins.entries →
        (∀ bin ∈ bins.entries, low.2.length ≤ bin.2.length) → P free (pushBack low.1 i bins))
    {free : List Nat} {workLoad : Bins Int Nat} {queue : List (Bin Int Nat)}
    {r : Bins Int Nat × List (Bin Int Nat)} (inStep : queue.Perm workLoad.entries)
    (before : P free workLoad) (done : assignFree ties free workLoad queue = some r) :
    P [] r.1 := by
  induction free generalizing workLoad queue with
  | nil =>
    rw [assignFree, Option.some.injEq] at done
    rw [← done]
    exact before
  | cons i free ih =>
    rw [assignFree] at done
    obtain ⟨load, top, done⟩ := Option.bind_eq_some_iff.mp done
    obtain ⟨fromQueue, least⟩ := lowest_spec top
    exact ih (inStep_push inStep fromQueue) (push free i workLoad load before
      (inStep.subset fromQueue) fun bin member => least bin (inStep.symm.subset member)) done

theorem assignFree_spec (ties : Ties Int Nat) (free : List Nat) {workLoad : Bins Int Nat}
    {queue : List (Bin Int Nat)} (inStep : queue.Perm workLoad.entries)
    (some_ : workLoad.entries ≠ []) :
    ∃ r, assignFree ties free workLoad queue = some r ∧ r.2.Perm r.1.entries ∧
      (∀ k, k ∈ r.1 ↔ k ∈ workLoad) ∧ r.1.entries.length = workLoad.entries.length ∧
      weigh List.length r.1 = weigh List.length workLoad + free.length ∧
      ∀ i, Holds workLoad i ∨ i ∈ free → Holds r.1 i := by
  induction free generalizing workLoad queue with
  | nil => exact ⟨(workLoad, queue), rfl, inStep, fun _ => .rfl, rfl, rfl, by simp⟩
  | cons i free ih =>
    have nonempty : queue ≠ [] := by
      intro nil
      rw [nil] at inStep
      exact some_ inStep.symm.eq_nil
    obtain ⟨load, top⟩ := exists_lowest ties nonempty
    have fromQueue := (lowest_spec top).1
    have member := inStep.subset fromQueue
    have found := entry_iff.mp member
    have inStep' := inStep_push (i := i) inStep fromQueue
    have length : (pushBack load.1 i workLoad).entries.length = workLoad.entries.length := by
      rw [pushBack, found]
      exact length_insert _ found
    have some' : (pushBack load.1 i workLoad).entries ≠ [] := by
      apply List.ne_nil_of_length_pos
      rw [length]
      exact List.length_pos_of_ne_nil some_
    obtain ⟨r, ran, perm, keys, size, weight, held⟩ := ih inStep' some'
    refine ⟨r, by rw [assignFree, top, Option.bind_some]; exact ran, perm, fun k => ?_,
      size.trans length, ?_, fun j before => held j ?_⟩
    · rw [keys, mem_pushBack]
      refine ⟨fun inside => inside.elim (fun same => ?_) id, .inr⟩
      rw [same, ← AList.lookup_isSome, found]
      rfl
    · rw [weight, items_pushBack, List.length_cons]
      omega
    · rcases before with inside | inside
      · exact .inl inside.pushBack
      · cases List.mem_cons.mp inside with
        | inl same =>
          rw [same]
          exact .inl (holds_pushBack _ _ _)
        | inr later => exact .inr later

/-! ### The owners written at the end -/

theorem setAll (idxs : List Nat) (gid : Int) (shards : List Int) (i : Nat) :
    (idxs.foldl (fun shards idx => shards.set idx gid) shards).length = shards.length ∧
    (i ∈ idxs → i < shards.length →
      (idxs.foldl (fun shards idx => shards.set idx gid) shards)[i]? = some gid) ∧
    (i ∉ idxs → (idxs.foldl (fun shards idx => shards.set idx gid) shards)[i]? = shards[i]?) := by
  induction idxs generalizing shards with
  | nil => simp
  | cons idx idxs ih =>
    obtain ⟨length, written, kept⟩ := ih (shards.set idx gid)
    rw [List.foldl_cons]
    refine ⟨length.trans List.length_set, fun inside bound => ?_, fun outside => ?_⟩
    · by_cases later : i ∈ idxs
      · exact written later (by rwa [List.length_set])
      · rw [kept later, (List.mem_cons.mp inside).resolve_right later]
        rw [(List.mem_cons.mp inside).resolve_right later] at bound
        exact List.getElem?_set_self bound
    · obtain ⟨ne, later⟩ := not_or.mp (mt List.mem_cons.mpr outside)
      rw [kept later, List.getElem?_set_ne (Ne.symm ne)]

theorem storeLoad_spec (workLoad : List (Bin Int Nat)) (shards : List Int) :
    (storeLoad workLoad shards).length = shards.length ∧
    ∀ i owner, (storeLoad workLoad shards)[i]? = some owner →
      owner ∈ workLoad.keys ∨ (shards[i]? = some owner ∧ ∀ load ∈ workLoad, i ∉ load.2) := by
  induction workLoad generalizing shards with
  | nil => exact ⟨rfl, fun i owner found => .inr ⟨found, by simp⟩⟩
  | cons load workLoad ih =>
    obtain ⟨length, owners⟩ :=
      ih (load.2.foldl (fun shards idx => shards.set idx load.1) shards)
    rw [storeLoad, List.foldl_cons]
    refine ⟨length.trans (setAll load.2 load.1 shards 0).1, fun i owner found => ?_⟩
    obtain ⟨_, written, kept⟩ := setAll load.2 load.1 shards i
    rcases owners i owner found with key | ⟨old, outside⟩
    · exact .inl (List.mem_cons_of_mem _ key)
    · by_cases inside : i ∈ load.2
      · by_cases bound : i < shards.length
        · rw [written inside bound, Option.some.injEq] at old
          rw [← old]
          exact .inl List.mem_cons_self
        · have size := (setAll load.2 load.1 shards i).1
          rw [List.getElem?_eq_none (by omega)] at old
          cases old
      · rw [kept inside] at old
        refine .inr ⟨old, fun other member => ?_⟩
        cases List.mem_cons.mp member with
        | inl same => rwa [same]
        | inr later => exact outside other later

/-! ### The whole function -/

private theorem balanced_refl (config : Config) (m : Nat) : balanced config m m = true := by
  rw [balanced]
  split
  · exact decide_eq_true rfl
  · exact decide_eq_true (by omega)

theorem groups_le_workLoad {config : Config} (some_ : config.groups.entries ≠ []) :
    (workLoadOf config).entries ≠ [] := by
  obtain ⟨group, groups, entries⟩ := List.exists_cons_of_ne_nil some_
  have inGroups : group.1 ∈ config.groups := by
    rw [AList.mem_keys, AList.keys, entries, List.keys_cons]
    exact List.mem_cons_self
  have inside := (mem_workLoadOf config group.1).mpr (.inl inGroups)
  intro nil
  rw [AList.mem_keys, AList.keys, nil] at inside
  cases inside

/-- Balancing writes gids of the groups, or of shards that had an owner. -/
structure Rebalanced (config config' : Config) : Prop where
  configNum : config'.configNum = config.configNum
  groups : config'.groups = config.groups
  size : config'.shards.length = config.shards.length
  owners : ∀ owner ∈ config'.shards, owner ∈ config.groups ∨ (owner ≠ 0 ∧ owner ∈ config.shards)

theorem rebalanced {ties : Ties Int Nat} {fuel : Nat} {config config' : Config}
    (some_ : config.groups.entries ≠ []) (done : balanceWorkLoad ties fuel config = some config') :
    Rebalanced config config' := by
  obtain ⟨r, assigned, inStep, keys, -, -, held⟩ := assignFree_spec ties (freeShards config)
    (.refl _) (groups_le_workLoad some_)
  rw [balanceWorkLoad, assigned, Option.bind_some] at done
  obtain ⟨workLoad, leveled, rfl⟩ := Option.map_eq_some_iff.mp done
  -- every shard lies in a load, and no load gets a new gid
  have kept := level_keeps (P := fun bins => (∀ k, k ∈ bins → k ∈ workLoadOf config) ∧
      ∀ i < config.shards.length, Holds bins i) (balanced_refl config)
    (fun bins low high item before fromLow fromHigh apart last => by
      refine ⟨fun k inside => before.1 k ?_, fun i bound =>
        (before.2 i bound).move fromHigh apart last⟩
      rw [mem_popBack, mem_pushBack] at inside
      rcases inside with rfl | rfl | inside
      · exact AList.lookup_isSome.mp (by rw [entry_iff.mp fromHigh]; rfl)
      · exact AList.lookup_isSome.mp (by rw [entry_iff.mp fromLow]; rfl)
      · exact inside)
    inStep (.refl _) ⟨fun k => (keys k).mp, fun i bound => held i ?_⟩ leveled
  · obtain ⟨size, owners⟩ := storeLoad_spec workLoad.entries config.shards
    refine ⟨rfl, rfl, size, fun owner member => ?_⟩
    obtain ⟨i, found⟩ := List.mem_iff_getElem?.mp member
    rcases owners i owner found with key | ⟨old, outside⟩
    · exact (mem_workLoadOf config owner).mp (kept.1 owner (AList.mem_keys.mpr key))
    · have bound := (List.getElem?_eq_some_iff.mp old).1
      obtain ⟨k, items, load, inside⟩ := kept.2 i bound
      exact absurd inside (outside ⟨k, items⟩ (entry_iff.mpr load))
  · have found := List.getElem?_eq_getElem bound
    by_cases free : config.shards[i] = 0
    · right
      rw [freeShards, List.mem_map]
      refine ⟨(config.shards[i], i), List.mem_filter.mpr ⟨?_, by simpa using free⟩, rfl⟩
      rw [List.mem_zipIdx_iff_getElem?]
      exact found
    · exact .inl (holds_workLoadOf found free)

/-- When the balancing loop comes to its end: the number of groups does not divide the
number of shards, or the number of loads does. -/
def Balances (config : Config) : Prop :=
  NShards % config.groups.entries.length ≠ 0 ∨ NShards % (holders config).length = 0

instance (config : Config) : Decidable (Balances config) := by
  unfold Balances
  infer_instance

theorem balances_iff (ties : Ties Int Nat) {config : Config} (sized : config.shards.length = NShards)
    (some_ : config.groups.entries ≠ []) :
    (∃ fuel config', balanceWorkLoad ties fuel config = some config') ↔ Balances config := by
  obtain ⟨r, assigned, inStep, -, size, weight, -⟩ := assignFree_spec ties (freeShards config)
    (.refl _) (groups_le_workLoad some_)
  have total : weigh List.length r.1 = NShards := by
    rw [weight, weigh_workLoadOf, sized]
  have loads : r.1.entries.length = (holders config).length := by
    rw [size, length_workLoadOf]
  have positive : 0 < (holders config).length := by
    rw [← length_workLoadOf]
    exact List.length_pos_of_ne_nil (groups_le_workLoad some_)
  simp only [balanceWorkLoad, assigned, Option.bind_some]
  by_cases divides : NShards % config.groups.entries.length = 0
  · have stop : ∀ a b, balanced config a b = decide (a = b) := fun a b => by
      rw [balanced, if_pos divides]
    constructor
    · rintro ⟨fuel, config', done⟩
      by_contra uneven
      rw [Balances, not_or] at uneven
      have never : ∀ (bins : Bins Int Nat) (low high : Bin Int Nat),
          bins.entries.length = (holders config).length → weigh List.length bins = NShards →
            Extremes bins low high → ¬balanced config low.2.length high.2.length = true := by
        intro bins low high length items extremes same
        rw [stop, decide_eq_true_eq] at same
        have product := extremes.total_eq same
        rw [items, length] at product
        exact uneven.2 (by rw [product]; exact Nat.mul_mod_right _ _)
      have forever := level_runs_on ties (balanced_refl config) never loads total inStep (.refl _)
        fuel
      rw [forever] at done
      cases done
    · rintro (no | yes)
      · exact absurd divides no
      · obtain ⟨fuel, bins', done⟩ := level_ends ties (balanced_refl config)
          (fun bins low high length items extremes uneven => by
            rw [stop, decide_eq_true_eq] at uneven
            refine extremes.gap ?_ uneven
            rw [items, length]
            exact Nat.dvd_of_mod_eq_zero yes)
          loads positive total inStep (.refl _)
        exact ⟨fuel, _, by rw [done]; rfl⟩
  · have stop : ∀ a b, balanced config a b = decide ¬b - a > 1 := fun a b => by
      rw [balanced, if_neg divides]
    refine ⟨fun _ => .inl divides, fun _ => ?_⟩
    obtain ⟨fuel, bins', done⟩ := level_ends ties (balanced_refl config)
      (fun bins low high _ _ _ uneven => by
        rw [stop, decide_eq_true_eq, not_not] at uneven
        omega)
      loads positive total inStep (.refl _)
    exact ⟨fuel, _, by rw [done]; rfl⟩

theorem balanceWorkLoad_mono {ties : Ties Int Nat} {fuel : Nat} {config config' : Config}
    (more : Nat) (done : balanceWorkLoad ties fuel config = some config') :
    balanceWorkLoad ties (fuel + more) config = some config' := by
  obtain ⟨r, assigned, rest⟩ := Option.bind_eq_some_iff.mp done
  obtain ⟨workLoad, leveled, stored⟩ := Option.map_eq_some_iff.mp rest
  rw [balanceWorkLoad, assigned, Option.bind_some, level_mono more leveled, Option.map_some, stored]

theorem Assigned.balances {config : Config} (assigned : Assigned config) : Balances config := by
  have same : (holders config).length = config.groups.entries.length := by
    have perm : config.groups.keys.Perm (holders config) := by
      rw [holders, List.perm_ext_iff_of_nodup (AList.keys_nodup _) (List.nodup_dedup _)]
      intro k
      rw [List.mem_dedup, List.mem_append, List.mem_filter]
      refine ⟨.inl, fun inside => inside.elim id fun owner => ?_⟩
      have ne : k ≠ 0 := by simpa using owner.2
      exact AList.mem_keys.mp ((assigned k owner.1).resolve_left ne)
    rw [← perm.length_eq, AList.keys, List.keys, List.length_map]
  rw [Balances, same]
  tauto

end ProjectsCpp.Mastering
