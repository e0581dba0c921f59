import Mathlib.Data.List.AList
import Mathlib.Data.List.MinMax
import Mathlib.Tactic.Ring
import Mathlib.Tactic.Linarith

/-! Levelling bins that hold items. As long as the emptiest and the fullest bin are not
even, the last item of the fullest bin goes to the emptiest one. A queue of bins says
nothing about the order of equally full ones; `Ties` picks one of them. -/

namespace ProjectsCpp.Balance

variable {κ ι : Type}

abbrev Bin (κ ι : Type) := Sigma fun _ : κ => List ι

abbrev Bins (κ ι : Type) := AList fun _ : κ => List ι

/-- Which of the equally full bins of a queue comes first, for the two kinds of queue. -/
structure Ties (κ ι : Type) where
  lower : List (Bin κ ι) → Nat
  upper : List (Bin κ ι) → Nat

def pick (choice : Nat) (candidates : List (Bin κ ι)) : Option (Bin κ ι) :=
  candidates[choice % candidates.length]?

/-- The top of the queue that puts small bins first. -/
def lowest (ties : Ties κ ι) (queue : List (Bin κ ι)) : Option (Bin κ ι) :=
  pick (ties.lower queue)
    (queue.filter fun bin => queue.all fun other => bin.2.length ≤ other.2.length)

def highest (ties : Ties κ ι) (queue : List (Bin κ ι)) : Option (Bin κ ι) :=
  pick (ties.upper queue)
    (queue.filter fun bin => queue.all fun other => other.2.length ≤ bin.2.length)

variable {ties : Ties κ ι} {queue : List (Bin κ ι)}

theorem pick_mem {choice : Nat} {candidates : List (Bin κ ι)} {bin : Bin κ ι}
    (picked : pick choice candidates = some bin) : bin ∈ candidates :=
  List.mem_of_getElem? picked

theorem exists_pick (choice : Nat) {candidates : List (Bin κ ι)} (some_ : candidates ≠ []) :
    ∃ bin, pick choice candidates = some bin := by
  have inside := Nat.mod_lt choice (List.length_pos_of_ne_nil some_)
  exact ⟨_, List.getElem?_eq_getElem inside⟩

theorem lowest_spec {low : Bin κ ι} (top : lowest ties queue = some low) :
    low ∈ queue ∧ ∀ bin ∈ queue, low.2.length ≤ bin.2.length := by
  have candidate := List.mem_filter.mp (pick_mem top)
  exact ⟨candidate.1, by simpa using candidate.2⟩

theorem highest_spec {high : Bin κ ι} (top : highest ties queue = some high) :
    high ∈ queue ∧ ∀ bin ∈ queue, bin.2.length ≤ high.2.length := by
  have candidate := List.mem_filter.mp (pick_mem top)
  exact ⟨candidate.1, by simpa using candidate.2⟩

theorem exists_lowest (ties : Ties κ ι) (some_ : queue ≠ []) :
    ∃ low, lowest ties queue = some low := by
  obtain ⟨least, isLeast⟩ := Option.ne_none_iff_exists'.mp
    (mt (List.argmin_eq_none (f := fun bin : Bin κ ι => bin.2.length)).mp some_)
  have le : ∀ bin ∈ queue, least.2.length ≤ bin.2.length := fun bin member =>
    List.le_of_mem_argmin (f := fun bin : Bin κ ι => bin.2.length) member isLeast
  apply exists_pick
  exact List.ne_nil_of_mem (List.mem_filter.mpr ⟨List.argmin_mem isLeast, by simpa using le⟩)

theorem exists_highest (ties : Ties κ ι) (some_ : queue ≠ []) :
    ∃ high, highest ties queue = some high := by
  obtain ⟨most, isMost⟩ := Option.ne_none_iff_exists'.mp
    (mt (List.argmax_eq_none (f := fun bin : Bin κ ι => bin.2.length)).mp some_)
  have le : ∀ bin ∈ queue, bin.2.length ≤ most.2.length := fun bin member =>
    List.le_of_mem_argmax (f := fun bin : Bin κ ι => bin.2.length) member isMost
  apply exists_pick
  exact List.ne_nil_of_mem (List.mem_filter.mpr ⟨List.argmax_mem isMost, by simpa using le⟩)

variable [DecidableEq κ]

/-- `bins[key].push_back(item)`; a missing bin is made. -/
def pushBack (key : κ) (item : ι) (bins : Bins κ ι) : Bins κ ι :=
  bins.insert key ((bins.lookup key).getD [] ++ [item])

/-- `bins[key].pop_back()`. -/
def popBack (key : κ) (bins : Bins κ ι) : Bins κ ι :=
  bins.insert key ((bins.lookup key).getD []).dropLast

/-- The loop, for as many rounds as there is fuel. Both queues hold the bins. -/
def level (ties : Ties κ ι) (even : Nat → Nat → Bool) :
    Nat → Bins κ ι → List (Bin κ ι) → List (Bin κ ι) → Option (Bins κ ι)
  | 0, _, _, _ => none
  | fuel + 1, bins, lower, upper =>
    (lowest ties lower).bind fun low => (highest ties upper).bind fun high =>
      if even low.2.length high.2.length then some bins
      else high.2.getLast?.bind fun item =>
        let moved := popBack high.1 (pushBack low.1 item bins)
        level ties even fuel moved moved.entries moved.entries

/-! ### Weights of all bins -/

def weigh (f : List ι → Nat) (bins : Bins κ ι) : Nat := (bins.entries.map fun bin => f bin.2).sum

theorem entry_iff {bins : Bins κ ι} {bin : Bin κ ι} :
    bin ∈ bins.entries ↔ bins.lookup bin.1 = some bin.2 :=
  (List.mem_dlookup_iff bins.nodupKeys).symm

theorem weigh_insert_new {f : List ι → Nat} {bins : Bins κ ι} {key : κ} (items : List ι)
    (fresh : bins.lookup key = none) : weigh f (bins.insert key items) = weigh f bins + f items := by
  rw [weigh, AList.entries_insert_of_notMem (AList.lookup_eq_none.mp fresh), List.map_cons,
    List.sum_cons, weigh, Nat.add_comm]

theorem perm_kerase {bins : Bins κ ι} {bin : Bin κ ι} (member : bin ∈ bins.entries) :
    bins.entries.Perm (bin :: bins.entries.kerase bin.1) := by
  obtain ⟨items, before, after, apart, entries, erased⟩ :=
    List.exists_of_kerase (List.mem_keys_of_mem member)
  have same : items = bin.2 := by
    have first : (⟨bin.1, items⟩ : Bin κ ι) ∈ bins.entries := by
      rw [entries]
      exact List.mem_append_right _ List.mem_cons_self
    have found := entry_iff.mp first
    rw [entry_iff.mp member] at found
    exact (Option.some.inj found).symm
  rw [erased, entries, same]
  exact List.perm_middle

theorem weigh_insert {f : List ι → Nat} {bins : Bins κ ι} {key : κ} {old : List ι} (items : List ι)
    (present : bins.lookup key = some old) :
    weigh f (bins.insert key items) + f old = weigh f bins + f items := by
  have member : (⟨key, old⟩ : Bin κ ι) ∈ bins.entries := entry_iff.mpr present
  have split := perm_kerase member
  have sum := (split.map fun bin => f bin.2).sum_nat
  simp only [List.map_cons, List.sum_cons] at sum
  simp only [weigh, AList.entries_insert, List.map_cons, List.sum_cons, sum]
  omega

theorem weigh_pushBack {f : List ι → Nat} (add : ∀ items item, f (items ++ [item]) = f items + f [item])
    (bins : Bins κ ι) (key : κ) (item : ι) :
    weigh f (pushBack key item bins) = weigh f bins + f [item] := by
  cases found : bins.lookup key with
  | none =>
    rw [pushBack, found, Option.getD_none, List.nil_append, weigh_insert_new _ found]
  | some old =>
    have weight := weigh_insert (f := f) (old ++ [item]) found
    rw [add] at weight
    rw [pushBack, found, Option.getD_some]
    omega

omit [DecidableEq κ] in
theorem eq_of_weigh_le_one {f : List ι → Nat} {bins : Bins κ ι} {bin other : Bin κ ι}
    (light : weigh f bins ≤ 1) (member : bin ∈ bins.entries) (member' : other ∈ bins.entries)
    (one : 0 < f bin.2) (one' : 0 < f other.2) : other = bin := by
  obtain ⟨before, after, entries⟩ := List.append_of_mem member
  simp only [weigh, entries, List.map_append, List.map_cons, List.sum_append, List.sum_cons] at light
  have rest : other ∈ before ∨ other = bin ∨ other ∈ after := by simpa [entries] using member'
  have heavy : ∀ l : List (Sigma fun _ : κ => List ι), other ∈ l →
      0 < (l.map fun bin => f bin.2).sum := fun l inside =>
    List.sum_pos_iff_exists_pos_nat.mpr ⟨_, List.mem_map.mpr ⟨other, inside, rfl⟩, one'⟩
  rcases rest with inside | same | inside
  · have more := heavy before inside
    omega
  · exact same
  · have more := heavy after inside
    omega

omit [DecidableEq κ] in
theorem exists_of_weigh_pos {f : List ι → Nat} {bins : Bins κ ι} (some_ : 0 < weigh f bins) :
    ∃ bin ∈ bins.entries, 0 < f bin.2 := by
  obtain ⟨weight, inside, positive⟩ := List.sum_pos_iff_exists_pos_nat.mp some_
  obtain ⟨bin, member, rfl⟩ := List.mem_map.mp inside
  exact ⟨bin, member, positive⟩

theorem length_insert {bins : Bins κ ι} {key : κ} {old : List ι} (items : List ι)
    (present : bins.lookup key = some old) :
    (bins.insert key items).entries.length = bins.entries.length := by
  have count : ∀ m : Bins κ ι, m.entries.length = weigh (fun _ => 1) m := fun m => by
    simp [weigh]
  have weight := weigh_insert (f := fun _ => 1) items present
  rw [count, count]
  omega

theorem weigh_move (f : List ι → Nat) (item : ι) {bins : Bins κ ι} {low high : Bin κ ι}
    (fromLow : low ∈ bins.entries) (fromHigh : high ∈ bins.entries) (apart : low.1 ≠ high.1) :
    weigh f (popBack high.1 (pushBack low.1 item bins)) + f low.2 + f high.2 =
      weigh f bins + f (low.2 ++ [item]) + f high.2.dropLast := by
  have lowItems := entry_iff.mp fromLow
  have highItems := entry_iff.mp fromHigh
  have pushed : pushBack low.1 item bins = bins.insert low.1 (low.2 ++ [item]) := by
    rw [pushBack, lowItems]
    rfl
  have present : (bins.insert low.1 (low.2 ++ [item])).lookup high.1 = some high.2 := by
    rw [AList.lookup_insert_ne apart.symm, highItems]
  have push := weigh_insert (f := f) (low.2 ++ [item]) lowItems
  have pop := weigh_insert (f := f) high.2.dropLast present
  rw [popBack, pushed, present, Option.getD_some]
  omega

theorem length_move {bins : Bins κ ι} {low high : Bin κ ι} {item : ι}
    (fromLow : low ∈ bins.entries) (fromHigh : high ∈ bins.entries) (apart : low.1 ≠ high.1) :
    (popBack high.1 (pushBack low.1 item bins)).entries.length = bins.entries.length := by
  have present : (pushBack low.1 item bins).lookup high.1 = some high.2 := by
    rw [pushBack, AList.lookup_insert_ne apart.symm, entry_iff.mp fromHigh]
  rw [popBack, length_insert _ present, pushBack, length_insert _ (entry_iff.mp fromLow)]

theorem mem_pushBack {bins : Bins κ ι} {key k : κ} {item : ι} :
    k ∈ pushBack key item bins ↔ k = key ∨ k ∈ bins := AList.mem_insert _

theorem mem_popBack {bins : Bins κ ι} {key k : κ} : k ∈ popBack key bins ↔ k = key ∨ k ∈ bins :=
  AList.mem_insert _

def Holds (bins : Bins κ ι) (item : ι) : Prop := ∃ key items, bins.lookup key = some items ∧
  item ∈ items

theorem Holds.pushBack {bins : Bins κ ι} {key : κ} {item x : ι} (holds : Holds bins x) :
    Holds (pushBack key item bins) x := by
  obtain ⟨k, items, found, inside⟩ := holds
  by_cases same : k = key
  · subst same
    exact ⟨k, items ++ [item], by rw [Balance.pushBack, AList.lookup_insert, found]; rfl,
      List.mem_append_left _ inside⟩
  · exact ⟨k, items, by rw [Balance.pushBack, AList.lookup_insert_ne same, found], inside⟩

theorem holds_pushBack (bins : Bins κ ι) (key : κ) (item : ι) :
    Holds (pushBack key item bins) item :=
  ⟨key, _, AList.lookup_insert _, List.mem_append_right _ (List.mem_singleton_self _)⟩

theorem Holds.popBack {bins : Bins κ ι} {high : Bin κ ι} {item x : ι} (holds : Holds bins x)
    (fromHigh : bins.lookup high.1 = some high.2) (last : high.2.getLast? = some item)
    (ne : x ≠ item) : Holds (popBack high.1 bins) x := by
  obtain ⟨k, items, found, inside⟩ := holds
  by_cases same : k = high.1
  · rw [same, fromHigh, Option.some.injEq] at found
    have split : high.2.dropLast ++ [item] = items := by
      rw [← found]
      exact List.dropLast_append_getLast? item last
    refine ⟨high.1, high.2.dropLast, by rw [Balance.popBack, AList.lookup_insert, fromHigh]; rfl, ?_⟩
    rw [← split, List.mem_append, List.mem_singleton] at inside
    exact inside.resolve_right ne
  · exact ⟨k, items, by rw [Balance.popBack, AList.lookup_insert_ne same, found], inside⟩

theorem Holds.move {bins : Bins κ ι} {low high : Bin κ ι} {item x : ι} (holds : Holds bins x)
    (fromHigh : high ∈ bins.entries) (apart : low.1 ≠ high.1)
    (last : high.2.getLast? = some item) :
    Holds (Balance.popBack high.1 (Balance.pushBack low.1 item bins)) x := by
  have present : (Balance.pushBack low.1 item bins).lookup high.1 = some high.2 := by
    rw [Balance.pushBack, AList.lookup_insert_ne apart.symm, entry_iff.mp fromHigh]
  by_cases same : x = item
  · have found : (Balance.popBack high.1 (Balance.pushBack low.1 item bins)).lookup low.1 =
        some ((bins.lookup low.1).getD [] ++ [item]) := by
      rw [Balance.popBack, AList.lookup_insert_ne apart, Balance.pushBack, AList.lookup_insert]
    exact ⟨low.1, _, found, by rw [same]; exact List.mem_append_right _ (List.mem_singleton_self _)⟩
  · exact holds.pushBack.popBack present last same

/-! ### What the loop keeps, and when it ends -/

variable {even : Nat → Nat → Bool} {bins bins' : Bins κ ι}
  {lower upper : List (Bin κ ι)} {low high : Bin κ ι}

theorem level_mono {fuel : Nat} (more : Nat)
    (done : level ties even fuel bins lower upper = some bins') :
    level ties even (fuel + more) bins lower upper = some bins' := by
  induction fuel generalizing bins lower upper with
  | zero => cases done
  | succ fuel ih =>
    rw [Nat.add_right_comm, level]
    rw [level] at done
    obtain ⟨low, isLow, done⟩ := Option.bind_eq_some_iff.mp done
    obtain ⟨high, isHigh, done⟩ := Option.bind_eq_some_iff.mp done
    rw [isLow, Option.bind_some, isHigh, Option.bind_some]
    by_cases stop : even low.2.length high.2.length
    · rw [if_pos stop] at done ⊢
      exact done
    · rw [if_neg stop] at done ⊢
      obtain ⟨item, last, done⟩ := Option.bind_eq_some_iff.mp done
      rw [last, Option.bind_some]
      exact ih done

theorem apart_of_uneven (refl : ∀ m, even m m = true) (fromLow : low ∈ bins.entries)
    (fromHigh : high ∈ bins.entries) (uneven : ¬even low.2.length high.2.length = true) :
    low.1 ≠ high.1 := by
  intro same
  have found := entry_iff.mp fromHigh
  rw [← same, entry_iff.mp fromLow, Option.some.injEq] at found
  rw [found] at uneven
  exact uneven (refl _)

/-- The emptiest and the fullest bin. -/
structure Extremes (bins : Bins κ ι) (low high : Bin κ ι) : Prop where
  low_mem : low ∈ bins.entries
  high_mem : high ∈ bins.entries
  least : ∀ bin ∈ bins.entries, low.2.length ≤ bin.2.length
  most : ∀ bin ∈ bins.entries, bin.2.length ≤ high.2.length

omit [DecidableEq κ] in
theorem extremes_of_tops (fromLower : lower.Perm bins.entries) (fromUpper : upper.Perm bins.entries)
    (isLow : lowest ties lower = some low) (isHigh : highest ties upper = some high) :
    Extremes bins low high where
  low_mem := fromLower.subset (lowest_spec isLow).1
  high_mem := fromUpper.subset (highest_spec isHigh).1
  least := fun bin member => (lowest_spec isLow).2 bin (fromLower.symm.subset member)
  most := fun bin member => (highest_spec isHigh).2 bin (fromUpper.symm.subset member)

theorem level_rule {P : Bins κ ι → Prop}
    (move : ∀ (bins : Bins κ ι) (low high : Bin κ ι) (item : ι), P bins →
      Extremes bins low high → ¬even low.2.length high.2.length = true →
        high.2.getLast? = some item → P (popBack high.1 (pushBack low.1 item bins)))
    {fuel : Nat} (fromLower : lower.Perm bins.entries) (fromUpper : upper.Perm bins.entries)
    (before : P bins) (done : level ties even fuel bins lower upper = some bins') :
    P bins' ∧ ∃ low high, Extremes bins' low high ∧ even low.2.length high.2.length = true := by
  induction fuel generalizing bins lower upper with
  | zero => cases done
  | succ fuel ih =>
    rw [level] at done
    obtain ⟨low, isLow, done⟩ := Option.bind_eq_some_iff.mp done
    obtain ⟨high, isHigh, done⟩ := Option.bind_eq_some_iff.mp done
    have extremes := extremes_of_tops fromLower fromUpper isLow isHigh
    by_cases stop : even low.2.length high.2.length
    · rw [if_pos stop, Option.some.injEq] at done
      rw [← done]
      exact ⟨before, low, high, extremes, stop⟩
    · rw [if_neg stop] at done
      obtain ⟨item, last, done⟩ := Option.bind_eq_some_iff.mp done
      exact ih (.refl _) (.refl _) (move bins low high item before extremes stop last) done

theorem level_keeps {P : Bins κ ι → Prop} (refl : ∀ m, even m m = true)
    (move : ∀ (bins : Bins κ ι) (low high : Bin κ ι) (item : ι), P bins → low ∈ bins.entries →
      high ∈ bins.entries → low.1 ≠ high.1 → high.2.getLast? = some item →
        P (popBack high.1 (pushBack low.1 item bins)))
    {fuel : Nat} (fromLower : lower.Perm bins.entries) (fromUpper : upper.Perm bins.entries)
    (before : P bins) (done : level ties even fuel bins lower upper = some bins') : P bins' :=
  (level_rule (fun bins low high item before extremes uneven last =>
    move bins low high item before extremes.low_mem extremes.high_mem
      (apart_of_uneven refl extremes.low_mem extremes.high_mem uneven) last)
    fromLower fromUpper before done).1

private theorem square_gap {a b : Nat} (gap : a + 2 ≤ b) :
    (a + 1) * (a + 1) + (b - 1) * (b - 1) < a * a + b * b := by
  obtain ⟨d, rfl⟩ := Nat.exists_eq_add_of_le gap
  have less : a + 2 + d - 1 = a + 1 + d := by omega
  rw [less]
  nlinarith

theorem level_ends (ties : Ties κ ι) {n total : Nat} (refl : ∀ m, even m m = true)
    (gap : ∀ (bins : Bins κ ι) (low high : Bin κ ι), bins.entries.length = n →
      weigh List.length bins = total → Extremes bins low high →
        ¬even low.2.length high.2.length = true → low.2.length + 2 ≤ high.2.length)
    (size : bins.entries.length = n) (some_ : 0 < n) (items : weigh List.length bins = total)
    (fromLower : lower.Perm bins.entries) (fromUpper : upper.Perm bins.entries) :
    ∃ fuel bins', level ties even fuel bins lower upper = some bins' := by
  generalize weight : weigh (fun items => items.length * items.length) bins = w
  induction w using Nat.strong_induction_on generalizing bins lower upper with
  | _ w ih =>
    have nonempty : bins.entries ≠ [] := List.ne_nil_of_length_pos (by omega)
    have lowerSome : lower ≠ [] := by
      intro nil
      rw [nil] at fromLower
      exact nonempty fromLower.symm.eq_nil
    have upperSome : upper ≠ [] := by
      intro nil
      rw [nil] at fromUpper
      exact nonempty fromUpper.symm.eq_nil
    obtain ⟨low, isLow⟩ := exists_lowest ties lowerSome
    obtain ⟨high, isHigh⟩ := exists_highest ties upperSome
    have extremes := extremes_of_tops fromLower fromUpper isLow isHigh
    by_cases stop : even low.2.length high.2.length
    · refine ⟨1, bins, ?_⟩
      rw [level, isLow, Option.bind_some, isHigh, Option.bind_some, if_pos stop]
    · have wide := gap bins low high size items extremes stop
      have apart := apart_of_uneven refl extremes.low_mem extremes.high_mem stop
      have some_ : high.2 ≠ [] := List.ne_nil_of_length_pos (by omega)
      have last : high.2.getLast? = some (high.2.getLast some_) :=
        List.getLast?_eq_some_getLast some_
      generalize high.2.getLast some_ = item at last
      have lighter := weigh_move (fun items => items.length * items.length) item extremes.low_mem
        extremes.high_mem apart
      have same := weigh_move List.length item extremes.low_mem extremes.high_mem apart
      have squares := square_gap wide
      simp only [List.length_append, List.length_singleton, List.length_dropLast] at lighter same
      have less : weigh (fun items : List ι => items.length * items.length)
          (popBack high.1 (pushBack low.1 item bins)) < w := by omega
      obtain ⟨fuel, bins', done⟩ := ih _ less
        ((length_move extremes.low_mem extremes.high_mem apart).trans size)
        (by omega) (.refl _) (.refl _) rfl
      refine ⟨fuel + 1, bins', ?_⟩
      rw [level, isLow, Option.bind_some, isHigh, Option.bind_some, if_neg stop, last,
        Option.bind_some]
      exact done

theorem level_runs_on (ties : Ties κ ι) {n total : Nat} (refl : ∀ m, even m m = true)
    (never : ∀ (bins : Bins κ ι) (low high : Bin κ ι), bins.entries.length = n →
      weigh List.length bins = total → Extremes bins low high →
        ¬even low.2.length high.2.length = true)
    (size : bins.entries.length = n) (items : weigh List.length bins = total)
    (fromLower : lower.Perm bins.entries) (fromUpper : upper.Perm bins.entries) (fuel : Nat) :
    level ties even fuel bins lower upper = none := by
  induction fuel generalizing bins lower upper with
  | zero => rfl
  | succ fuel ih =>
    rw [level]
    cases isLow : lowest ties lower with
    | none => rfl
    | some low =>
      rw [Option.bind_some]
      cases isHigh : highest ties upper with
      | none => rfl
      | some high =>
        have extremes := extremes_of_tops fromLower fromUpper isLow isHigh
        have uneven := never bins low high size items extremes
        have apart := apart_of_uneven refl extremes.low_mem extremes.high_mem uneven
        rw [Option.bind_some, if_neg uneven]
        cases last : high.2.getLast? with
        | none => rfl
        | some item =>
          have same := weigh_move List.length item extremes.low_mem extremes.high_mem apart
          have some_ : high.2 ≠ [] := by
            intro nil
            rw [nil] at last
            cases last
          have positive := List.length_pos_of_ne_nil some_
          simp only [List.length_append, List.length_singleton, List.length_dropLast] at same
          exact ih ((length_move extremes.low_mem extremes.high_mem apart).trans size) (by omega)
            (.refl _) (.refl _)

/-! ### Counting -/

omit [DecidableEq κ] in
private theorem sum_le_of_le {l : List (Bin κ ι)} {m : Nat} (le : ∀ bin ∈ l, bin.2.length ≤ m) :
    (l.map fun bin => bin.2.length).sum ≤ l.length * m := by
  induction l with
  | nil => simp
  | cons bin l ih =>
    have first := le bin List.mem_cons_self
    have others := ih fun other member => le other (List.mem_cons_of_mem _ member)
    rw [List.map_cons, List.sum_cons, List.length_cons, Nat.succ_mul]
    omega

omit [DecidableEq κ] in
private theorem le_sum_of_le {l : List (Bin κ ι)} {m : Nat} (le : ∀ bin ∈ l, m ≤ bin.2.length) :
    l.length * m ≤ (l.map fun bin => bin.2.length).sum := by
  induction l with
  | nil => simp
  | cons bin l ih =>
    have first := le bin List.mem_cons_self
    have others := ih fun other member => le other (List.mem_cons_of_mem _ member)
    rw [List.map_cons, List.sum_cons, List.length_cons, Nat.succ_mul]
    omega

omit [DecidableEq κ] in
theorem Extremes.total_eq (extremes : Extremes bins low high)
    (same : low.2.length = high.2.length) :
    weigh List.length bins = bins.entries.length * low.2.length := by
  have above : weigh List.length bins ≤ _ := sum_le_of_le extremes.most
  have below : _ ≤ weigh List.length bins := le_sum_of_le extremes.least
  rw [← same] at above
  exact le_antisymm above below

omit [DecidableEq κ] in
theorem Extremes.gap (extremes : Extremes bins low high)
    (divides : bins.entries.length ∣ weigh List.length bins)
    (differ : low.2.length ≠ high.2.length) : low.2.length + 2 ≤ high.2.length := by
  by_contra near
  have le := extremes.least high extremes.high_mem
  have next : high.2.length = low.2.length + 1 := by omega
  obtain ⟨q, total⟩ := divides
  have positive : 0 < bins.entries.length := List.length_pos_of_mem extremes.low_mem
  -- one bin above the least size, one bin below the greatest
  have fewer : weigh List.length bins + 1 ≤ bins.entries.length * (low.2.length + 1) := by
    obtain ⟨before, after, entries⟩ := List.append_of_mem extremes.low_mem
    have left := sum_le_of_le (l := before) (m := low.2.length + 1) fun bin member =>
      next ▸ extremes.most bin (by rw [entries]; simp [member])
    have right := sum_le_of_le (l := after) (m := low.2.length + 1) fun bin member =>
      next ▸ extremes.most bin (by rw [entries]; simp [member])
    simp only [weigh, entries, List.map_append, List.map_cons, List.sum_append, List.sum_cons,
      List.length_append, List.length_cons]
    nlinarith
  have more : bins.entries.length * low.2.length + 1 ≤ weigh List.length bins := by
    obtain ⟨before, after, entries⟩ := List.append_of_mem extremes.high_mem
    have left := le_sum_of_le (l := before) (m := low.2.length) fun bin member =>
      extremes.least bin (by rw [entries]; simp [member])
    have right := le_sum_of_le (l := after) (m := low.2.length) fun bin member =>
      extremes.least bin (by rw [entries]; simp [member])
    simp only [weigh, entries, List.map_append, List.map_cons, List.sum_append, List.sum_cons,
      List.length_append, List.length_cons]
    nlinarith
  rw [total] at fewer more
  have lt : low.2.length < q := Nat.lt_of_mul_lt_mul_left (Nat.lt_of_succ_le more)
  have gt : q < low.2.length + 1 := Nat.lt_of_mul_lt_mul_left (Nat.lt_of_succ_le fewer)
  omega

end ProjectsCpp.Balance
