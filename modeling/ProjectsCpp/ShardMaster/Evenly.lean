import ProjectsCpp.Lib.FewestMoves
import ProjectsCpp.ShardMaster.WorkLoad

/-! Where the shards are after balancing: the loads are a partition of the shards among the
groups, and when the loops end no group has two shards more than another. -/

namespace ProjectsCpp.Mastering
open ProjectsCpp.Text ProjectsCpp.Sharding ProjectsCpp.Balance

/-! ### The places of an owner -/

def positions (gid : Int) (shards : List Int) : List Nat :=
  (shards.zipIdx.filter fun shard => shard.1 = gid).map Prod.snd

theorem mem_positions {gid : Int} {shards : List Int} {i : Nat} :
    i ∈ positions gid shards ↔ shards[i]? = some gid := by
  simp [positions, List.mem_zipIdx_iff_getElem?]

theorem nodup_positions (gid : Int) (shards : List Int) : (positions gid shards).Nodup :=
  (List.nodup_zipIdx_map_snd shards).sublist (List.filter_sublist.map _)

theorem length_positions (gid : Int) (shards : List Int) :
    (positions gid shards).length = shards.count gid := by
  have first : shards.count gid = (shards.zipIdx.map Prod.fst).count gid := by
    rw [List.zipIdx_map_fst]
  rw [first, List.count_eq_countP, List.countP_map, positions, List.length_map,
    ← List.countP_eq_length_filter]
  exact List.countP_congr fun shard _ => by simp

theorem count_of_mem_iff {gid : Int} {shards : List Int} {items : List Nat} (once : items.Nodup)
    (same : ∀ i, i ∈ items ↔ shards[i]? = some gid) : shards.count gid = items.length := by
  rw [← length_positions]
  refine ((List.perm_ext_iff_of_nodup (nodup_positions gid shards) once).mpr fun i => ?_).length_eq
  rw [mem_positions, same]

/-! ### The loads before balancing -/

def heldBefore (config : Config) (gid : Int) : List Nat :=
  if gid = 0 then [] else positions gid config.shards

theorem heldBefore_some (config : Config) {gid : Int} (ne : gid ≠ 0) (i : Nat) :
    i ∈ heldBefore config gid ↔ config.shards[i]? = some gid := by
  rw [heldBefore, if_neg ne, mem_positions]

private theorem empty_groupLoads (groups : List (Sigma fun _ : Int => List Str))
    (load : Bins Int Nat) (nil : ∀ k, (load.lookup k).getD [] = []) (k : Int) :
    ((groups.foldl (fun load group => load.insert group.1 []) load).lookup k).getD [] = [] := by
  induction groups generalizing load with
  | nil => exact nil k
  | cons group groups ih =>
    rw [List.foldl_cons]
    refine ih _ fun k => ?_
    by_cases same : k = group.1
    · rw [same, AList.lookup_insert]
      rfl
    · rw [AList.lookup_insert_ne same]
      exact nil k

private theorem shardLoads_getD (shards : List (Int × Nat)) (load : Bins Int Nat) (gid : Int) :
    ((shards.foldl (fun load shard => if shard.1 ≠ 0 then pushBack shard.1 shard.2 load
      else load) load).lookup gid).getD [] = (load.lookup gid).getD [] ++
        if gid = 0 then [] else (shards.filter fun shard => shard.1 = gid).map Prod.snd := by
  induction shards generalizing load with
  | nil => simp
  | cons shard shards ih =>
    rw [List.foldl_cons, ih]
    by_cases free : shard.1 = 0
    · rw [if_neg (not_not.mpr free)]
      by_cases none_ : gid = 0
      · rw [if_pos none_, if_pos none_]
      · rw [if_neg none_, if_neg none_, List.filter_cons_of_neg]
        simpa [free] using Ne.symm none_
    · rw [if_pos free]
      by_cases same : shard.1 = gid
      · have owner : gid ≠ 0 := same ▸ free
        rw [if_neg owner, if_neg owner, pushBack, same, AList.lookup_insert,
          List.filter_cons_of_pos (by simpa using same), List.map_cons, Option.getD_some,
          List.append_assoc]
        rfl
      · rw [pushBack, AList.lookup_insert_ne (Ne.symm same),
          List.filter_cons_of_neg (by simpa using same)]

theorem workLoadOf_items {config : Config} {bin : Bin Int Nat}
    (member : bin ∈ (workLoadOf config).entries) : bin.2 = heldBefore config bin.1 := by
  have items := shardLoads_getD config.shards.zipIdx
    (config.groups.entries.foldl (fun load group => load.insert group.1 []) ∅) bin.1
  rw [empty_groupLoads _ ∅ (fun _ => rfl), List.nil_append] at items
  have found := entry_iff.mp member
  rw [workLoadOf] at found
  rw [found] at items
  exact items

/-! ### A partition of the shards -/

private theorem count_append_one (i : Nat) (items : List Nat) (item : Nat) :
    (items ++ [item]).count i = items.count i + [item].count i := List.count_append

private theorem weigh_groupLoads_count (i : Nat) (groups : List (Sigma fun _ : Int => List Str))
    (load : Bins Int Nat) (nil : weigh (List.count i) load = 0) :
    weigh (List.count i) (groups.foldl (fun load group => load.insert group.1 []) load) = 0 := by
  induction groups generalizing load with
  | nil => exact nil
  | cons group groups ih =>
    rw [List.foldl_cons]
    apply ih
    cases found : load.lookup group.1 with
    | none => rw [weigh_insert_new _ found, nil, List.count_nil]
    | some old =>
      have weight := weigh_insert (f := List.count i) [] found
      rw [List.count_nil] at weight
      omega

private theorem weigh_shardLoads_count (i : Nat) (shards : List (Int × Nat)) (load : Bins Int Nat) :
    weigh (List.count i) (shards.foldl (fun load shard => if shard.1 ≠ 0 then
      pushBack shard.1 shard.2 load else load) load) +
        ((shards.filter fun shard => shard.1 = 0).map Prod.snd).count i =
      weigh (List.count i) load + (shards.map Prod.snd).count i := by
  induction shards generalizing load with
  | nil => rfl
  | cons shard shards ih =>
    have rest := ih (if shard.1 ≠ 0 then pushBack shard.1 shard.2 load else load)
    rw [List.foldl_cons, List.map_cons, List.count_cons]
    by_cases free : shard.1 = 0
    · rw [if_neg (not_not.mpr free)] at rest ⊢
      rw [List.filter_cons_of_pos (by simpa using free), List.map_cons, List.count_cons]
      omega
    · rw [if_pos free, weigh_pushBack (count_append_one i), List.count_singleton] at rest
      rw [if_pos free, List.filter_cons_of_neg (by simpa using free)]
      omega

/-- The loads and the shards still without one are the shards, each of them once, and the
groups are those of the configuration. -/
structure Loaded (config : Config) (free : List Nat) (bins : Bins Int Nat) : Prop where
  keys : ∀ gid, gid ∈ bins ↔ gid ∈ config.groups
  once : ∀ i, weigh (List.count i) bins + free.count i = (List.range NShards).count i
  total : weigh List.length bins + free.length = NShards

theorem loaded_workLoadOf {config : Config} (sized : config.shards.length = NShards)
    (assigned : Assigned config) : Loaded config (freeShards config) (workLoadOf config) where
  keys gid := by
    rw [mem_workLoadOf]
    refine ⟨fun inside => inside.elim id fun owner => ?_, .inl⟩
    exact (assigned gid owner.2).resolve_left owner.1
  once i := by
    have all := weigh_shardLoads_count i config.shards.zipIdx
      (config.groups.entries.foldl (fun load group => load.insert group.1 []) ∅)
    rw [weigh_groupLoads_count i _ ∅ rfl, List.zipIdx_map_snd, sized, Nat.zero_add,
      ← List.range_eq_range'] at all
    exact all
  total := by
    rw [weigh_workLoadOf, sized]

theorem Loaded.push {config : Config} {free : List Nat} {i : Nat} {bins : Bins Int Nat}
    {low : Bin Int Nat} (loaded : Loaded config (i :: free) bins) (fromLow : low ∈ bins.entries) :
    Loaded config free (pushBack low.1 i bins) where
  keys gid := by
    rw [mem_pushBack, loaded.keys]
    refine ⟨fun inside => inside.elim (fun same => ?_) id, .inr⟩
    rw [same, ← loaded.keys]
    exact AList.mem_keys.mpr (List.mem_keys_of_mem fromLow)
  once j := by
    have before := loaded.once j
    rw [List.count_cons] at before
    rw [weigh_pushBack (count_append_one j), List.count_singleton]
    omega
  total := by
    have before := loaded.total
    rw [List.length_cons] at before
    rw [weigh_pushBack (fun _ _ => List.length_append), List.length_singleton]
    omega

theorem Loaded.move {config : Config} {free : List Nat} {bins : Bins Int Nat}
    {low high : Bin Int Nat} {item : Nat} (loaded : Loaded config free bins)
    (fromLow : low ∈ bins.entries) (fromHigh : high ∈ bins.entries) (apart : low.1 ≠ high.1)
    (last : high.2.getLast? = some item) :
    Loaded config free (popBack high.1 (pushBack low.1 item bins)) where
  keys gid := by
    rw [mem_popBack, mem_pushBack, loaded.keys]
    refine ⟨fun inside => ?_, fun inside => .inr (.inr inside)⟩
    rcases inside with same | same | inside
    · rw [same, ← loaded.keys]
      exact AList.mem_keys.mpr (List.mem_keys_of_mem fromHigh)
    · rw [same, ← loaded.keys]
      exact AList.mem_keys.mpr (List.mem_keys_of_mem fromLow)
    · exact inside
  once i := by
    have weight := weigh_move (List.count i) item fromLow fromHigh apart
    have split : high.2.count i = high.2.dropLast.count i + [item].count i := by
      rw [← count_append_one, List.dropLast_append_getLast? item last]
    rw [count_append_one] at weight
    have before := loaded.once i
    omega
  total := by
    have weight := weigh_move List.length item fromLow fromHigh apart
    have split : high.2.length = high.2.dropLast.length + 1 := by
      rw [← List.length_singleton (a := item), ← List.length_append,
        List.dropLast_append_getLast? item last]
    rw [List.length_append, List.length_singleton] at weight
    have before := loaded.total
    omega

theorem Loaded.size {config : Config} {free : List Nat} {bins : Bins Int Nat}
    (loaded : Loaded config free bins) : bins.entries.length = config.groups.entries.length := by
  have perm : bins.keys.Perm config.groups.keys := by
    rw [List.perm_ext_iff_of_nodup (AList.keys_nodup _) (AList.keys_nodup _)]
    intro gid
    rw [← AList.mem_keys, ← AList.mem_keys, loaded.keys]
  have length := perm.length_eq
  rwa [AList.keys, AList.keys, List.keys, List.keys, List.length_map, List.length_map] at length

theorem Loaded.only {config : Config} {free : List Nat} {bins : Bins Int Nat}
    {bin other : Bin Int Nat} {i : Nat} (loaded : Loaded config free bins)
    (member : bin ∈ bins.entries) (member' : other ∈ bins.entries) (inside : i ∈ bin.2)
    (inside' : i ∈ other.2) : other = bin := by
  refine eq_of_weigh_le_one (f := List.count i) ?_ member member'
    (List.count_pos_iff.mpr inside) (List.count_pos_iff.mpr inside')
  have all := loaded.once i
  have most := List.nodup_iff_count_le_one.mp (List.nodup_range (n := NShards)) i
  omega

theorem Loaded.nodup {config : Config} {free : List Nat} {bins : Bins Int Nat} {bin : Bin Int Nat}
    (loaded : Loaded config free bins) (member : bin ∈ bins.entries) : bin.2.Nodup := by
  rw [List.nodup_iff_count_le_one]
  intro i
  have all := loaded.once i
  have most := List.nodup_iff_count_le_one.mp (List.nodup_range (n := NShards)) i
  have part : bin.2.count i ≤ weigh (List.count i) bins :=
    List.le_sum_of_mem (List.mem_map_of_mem member)
  omega

/-! ### Where the loops end -/

/-- The loads that `balanceWorkLoad` stores. -/
structure Leveled (config : Config) (workLoad : Bins Int Nat) : Prop where
  loaded : Loaded config [] workLoad
  near : ∀ bin ∈ workLoad.entries, ∀ other ∈ workLoad.entries, bin.2.length ≤ other.2.length + 1
  same : config.groups.entries.length ∣ NShards → ∀ bin ∈ workLoad.entries,
    ∀ other ∈ workLoad.entries, bin.2.length = other.2.length
  sparing : Sparing (heldBefore config) workLoad

theorem filling_workLoadOf (config : Config) : Filling (heldBefore config) (workLoadOf config) where
  keeps bin member := by rw [workLoadOf_items member]
  gained bin member more := by
    rw [workLoadOf_items member] at more
    exact absurd more (lt_irrefl _)

theorem wide_of_unbalanced {config : Config} {bins : Bins Int Nat} {low high : Bin Int Nat}
    (loaded : Loaded config [] bins) (extremes : Extremes bins low high)
    (uneven : ¬balanced config low.2.length high.2.length = true) :
    low.2.length + 2 ≤ high.2.length := by
  rw [balanced] at uneven
  by_cases divides : NShards % config.groups.entries.length = 0
  · rw [if_pos divides, decide_eq_true_eq] at uneven
    refine extremes.gap ?_ uneven
    have total := loaded.total
    rw [List.length_nil, Nat.add_zero] at total
    rw [loaded.size, total]
    exact Nat.dvd_of_mod_eq_zero divides
  · rw [if_neg divides, decide_eq_true_eq] at uneven
    omega

theorem leveled_of_balanced {config : Config} {bins : Bins Int Nat} {low high : Bin Int Nat}
    (loaded : Loaded config [] bins) (sparing : Sparing (heldBefore config) bins)
    (extremes : Extremes bins low high)
    (stop : balanced config low.2.length high.2.length = true) : Leveled config bins := by
  refine ⟨loaded, fun bin member other member' => ?_, fun divides bin member other member' => ?_,
    sparing⟩
  · have most := extremes.most bin member
    have least := extremes.least other member'
    rw [balanced] at stop
    split at stop <;> rw [decide_eq_true_eq] at stop <;> omega
  · rw [balanced, if_pos (Nat.mod_eq_zero_of_dvd divides), decide_eq_true_eq] at stop
    have mostBin := extremes.most bin member
    have leastBin := extremes.least bin member
    have mostOther := extremes.most other member'
    have leastOther := extremes.least other member'
    omega

theorem leveled {ties : Ties Int Nat} {fuel : Nat} {config config' : Config}
    (sized : config.shards.length = NShards) (some_ : config.groups.entries ≠ [])
    (assigned : Assigned config) (done : balanceWorkLoad ties fuel config = some config') :
    ∃ workLoad, Leveled config workLoad ∧
      config' = { config with shards := storeLoad workLoad.entries config.shards } := by
  obtain ⟨r, filled, inStep, -⟩ := assignFree_spec ties (freeShards config)
    (.refl _) (groups_le_workLoad some_)
  have start := assignFree_rule
    (P := fun free bins => Loaded config free bins ∧ Filling (heldBefore config) bins)
    (fun free i bins low before fromLow least =>
      ⟨before.1.push fromLow, before.2.push i fromLow least⟩)
    (.refl _) ⟨loaded_workLoadOf sized assigned, filling_workLoadOf config⟩ filled
  rw [balanceWorkLoad, filled, Option.bind_some] at done
  obtain ⟨workLoad, ran, rfl⟩ := Option.map_eq_some_iff.mp done
  have apart : ∀ {bins : Bins Int Nat} {low high : Bin Int Nat}, Extremes bins low high →
      low.2.length + 2 ≤ high.2.length → low.1 ≠ high.1 := by
    intro bins low high extremes wide same
    have found := entry_iff.mp extremes.low_mem
    rw [same, entry_iff.mp extremes.high_mem, Option.some.injEq] at found
    rw [found] at wide
    omega
  obtain ⟨⟨loaded, sparing⟩, low, high, extremes, stop⟩ := level_rule
    (P := fun bins => Loaded config [] bins ∧ Sparing (heldBefore config) bins)
    (fun bins low high item before extremes uneven last => by
      have wide := wide_of_unbalanced before.1 extremes uneven
      exact ⟨before.1.move extremes.low_mem extremes.high_mem (apart extremes wide) last,
        before.2.move item extremes (apart extremes wide) wide⟩)
    inStep (.refl _) ⟨start.1, start.2.sparing⟩ ran
  exact ⟨workLoad, leveled_of_balanced loaded sparing extremes stop, rfl⟩

/-! ### The owners written at the end -/

theorem storeLoad_at (workLoad : List (Bin Int Nat)) {shards : List Int} {i : Nat} {gid : Int}
    (bound : i < shards.length) (only : ∀ load ∈ workLoad, i ∈ load.2 → load.1 = gid)
    (held : shards[i]? = some gid ∨ ∃ load ∈ workLoad, i ∈ load.2) :
    (storeLoad workLoad shards)[i]? = some gid := by
  induction workLoad generalizing shards with
  | nil => exact held.resolve_right (by simp)
  | cons load workLoad ih =>
    obtain ⟨size, written, kept⟩ := setAll load.2 load.1 shards i
    rw [storeLoad, List.foldl_cons]
    refine ih (by rwa [size]) (fun other later => only other (List.mem_cons_of_mem _ later)) ?_
    by_cases inside : i ∈ load.2
    · left
      rw [written inside bound, only load List.mem_cons_self inside]
    · rw [kept inside]
      refine held.imp id ?_
      rintro ⟨other, member, inside'⟩
      rcases List.mem_cons.mp member with rfl | later
      · exact absurd inside' inside
      · exact ⟨other, later, inside'⟩

theorem Loaded.store {config : Config} {workLoad : Bins Int Nat} {bin : Bin Int Nat}
    (loaded : Loaded config [] workLoad) (sized : config.shards.length = NShards)
    (member : bin ∈ workLoad.entries) (i : Nat) :
    i ∈ bin.2 ↔ (storeLoad workLoad.entries config.shards)[i]? = some bin.1 := by
  have all := loaded.once i
  rw [List.count_nil, Nat.add_zero] at all
  constructor
  · intro inside
    have part : bin.2.count i ≤ weigh (List.count i) workLoad :=
      List.le_sum_of_mem (List.mem_map_of_mem member)
    have positive := List.count_pos_iff.mpr inside
    have bound : i ∈ List.range NShards := List.count_pos_iff.mp (by omega)
    refine storeLoad_at _ (by rw [sized]; exact List.mem_range.mp bound)
      (fun load member' inside' => ?_) (.inr ⟨bin, member, inside⟩)
    rw [loaded.only member member' inside inside']
  · intro owner
    have bound : i < NShards := by
      rw [← sized, ← (storeLoad_spec workLoad.entries config.shards).1]
      exact (List.getElem?_eq_some_iff.mp owner).1
    have one : 0 < weigh (List.count i) workLoad := by
      rw [all, List.count_pos_iff, List.mem_range]
      exact bound
    obtain ⟨load, member', inside⟩ := exists_of_weigh_pos one
    have held := List.count_pos_iff.mp inside
    have only : ∀ other ∈ workLoad.entries, i ∈ other.2 → other.1 = load.1 :=
      fun other member'' inside' => by rw [loaded.only member' member'' held inside']
    have written := storeLoad_at workLoad.entries (by rwa [sized]) only (.inr ⟨load, member', held⟩)
    rw [owner, Option.some.injEq] at written
    have found := entry_iff.mp member
    rw [written, entry_iff.mp member', Option.some.injEq] at found
    rwa [← found]

theorem Loaded.count {config : Config} {workLoad : Bins Int Nat} {bin : Bin Int Nat}
    (loaded : Loaded config [] workLoad) (sized : config.shards.length = NShards)
    (member : bin ∈ workLoad.entries) :
    (storeLoad workLoad.entries config.shards).count bin.1 = bin.2.length :=
  count_of_mem_iff (loaded.nodup member) fun i => loaded.store sized member i

theorem Loaded.exists_bin {config : Config} {free : List Nat} {workLoad : Bins Int Nat} {gid : Int}
    (loaded : Loaded config free workLoad) (inside : gid ∈ config.groups) :
    ∃ items, (⟨gid, items⟩ : Bin Int Nat) ∈ workLoad.entries := by
  obtain ⟨items, found⟩ := Option.isSome_iff_exists.mp
    (AList.lookup_isSome.mpr ((loaded.keys gid).mpr inside))
  exact ⟨items, entry_iff.mpr found⟩

theorem Loaded.owner_mem {config : Config} {workLoad : Bins Int Nat}
    (loaded : Loaded config [] workLoad) (sized : config.shards.length = NShards) {owner : Int}
    (member : owner ∈ storeLoad workLoad.entries config.shards) : owner ∈ config.groups := by
  obtain ⟨size, owners⟩ := storeLoad_spec workLoad.entries config.shards
  obtain ⟨i, found⟩ := List.mem_iff_getElem?.mp member
  rcases owners i owner found with key | ⟨old, outside⟩
  · exact (loaded.keys owner).mp (AList.mem_keys.mpr key)
  · have all := loaded.once i
    have bound : i < NShards := sized ▸ (List.getElem?_eq_some_iff.mp old).1
    have one : 0 < weigh (List.count i) workLoad := by
      rw [List.count_nil, Nat.add_zero] at all
      rw [all, List.count_pos_iff, List.mem_range]
      exact bound
    obtain ⟨load, member', inside⟩ := exists_of_weigh_pos one
    exact absurd (List.count_pos_iff.mp inside) (outside load member')

/-- An assignment of all shards to groups where no group has two more than another. -/
structure SpreadEvenly (config : Config) (shards : List Int) : Prop where
  size : shards.length = NShards
  owners : ∀ owner ∈ shards, owner ∈ config.groups
  near : ∀ gid ∈ config.groups, ∀ other ∈ config.groups, shards.count gid ≤ shards.count other + 1

theorem Leveled.spread {config : Config} {workLoad : Bins Int Nat} (leveled : Leveled config workLoad)
    (sized : config.shards.length = NShards) :
    SpreadEvenly config (storeLoad workLoad.entries config.shards) where
  size := (storeLoad_spec workLoad.entries config.shards).1.trans sized
  owners owner member := leveled.loaded.owner_mem sized member
  near gid inside other inside' := by
    obtain ⟨items, member⟩ := leveled.loaded.exists_bin inside
    obtain ⟨items', member'⟩ := leveled.loaded.exists_bin inside'
    have count := leveled.loaded.count sized member
    have count' := leveled.loaded.count sized member'
    rw [count, count']
    exact leveled.near _ member _ member'

/-- From every configuration whose shards belong to its groups or to none, and in whatever
order equal loads leave the queues, balancing ends with all shards assigned to the groups, no
group two shards ahead of another, and none ahead at all when the groups divide the shards. -/
theorem balanceWorkLoad_evens (ties : Ties Int Nat) {config : Config}
    (sized : config.shards.length = NShards) (some_ : config.groups.entries ≠ [])
    (assigned : Assigned config) :
    (∃ fuel config', balanceWorkLoad ties fuel config = some config') ∧
    ∀ fuel config', balanceWorkLoad ties fuel config = some config' →
      config'.groups = config.groups ∧ SpreadEvenly config config'.shards ∧
      (config.groups.entries.length ∣ NShards → ∀ gid ∈ config.groups, ∀ other ∈ config.groups,
        config'.shards.count gid = config'.shards.count other) := by
  refine ⟨(balances_iff ties sized some_).mpr assigned.balances, fun fuel config' done => ?_⟩
  obtain ⟨workLoad, level, rfl⟩ := leveled sized some_ assigned done
  refine ⟨rfl, level.spread sized, fun divides gid inside other inside' => ?_⟩
  obtain ⟨items, member⟩ := level.loaded.exists_bin inside
  obtain ⟨items', member'⟩ := level.loaded.exists_bin inside'
  have count := level.loaded.count sized member
  have count' := level.loaded.count sized member'
  rw [count, count']
  exact level.same divides _ member _ member'

def threeGroups : Config :=
  ⟨3, List.replicate NShards 1, ⟨[⟨1, []⟩, ⟨2, []⟩, ⟨3, []⟩], by rw [List.NodupKeys]; decide⟩⟩

theorem assigned_threeGroups : Assigned threeGroups := by
  unfold Assigned
  decide

theorem threeGroups_spread : ∃ fuel config',
    balanceWorkLoad ⟨fun _ => 0, fun _ => 0⟩ fuel threeGroups = some config' ∧
      SpreadEvenly threeGroups config'.shards := by
  obtain ⟨⟨fuel, config', done⟩, spread⟩ := balanceWorkLoad_evens ⟨fun _ => 0, fun _ => 0⟩
    (show threeGroups.shards.length = NShards from rfl) (by decide) assigned_threeGroups
  exact ⟨fuel, config', done, (spread fuel config' done).2.1⟩

end ProjectsCpp.Mastering
