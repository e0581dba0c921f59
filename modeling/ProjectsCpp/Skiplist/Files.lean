import ProjectsCpp.Skiplist.Calls
import ProjectsCpp.Lib.SortedEntries
import ProjectsCpp.Lib.Text
import Mathlib.Data.List.Lex
import Mathlib.Data.Char

/-! `dump_file` and `load_file` of a list of strings. What `load_file` reads goes in by
`insert_element`, so that a key that is there keeps its value. -/

namespace ProjectsCpp.Skiplist
open ProjectsCpp.Text ProjectsCpp.SortedEntries

def delimiter : Char := ':'

def line (entry : Str × Str) : Str := entry.1 ++ delimiter :: entry.2

/-- `getline` as long as it reads something; the last line may lack its end. -/
def getlines : Str → Str → List Str
  | [], line => if line = [] then [] else [line]
  | c :: text, line =>
    if c = '\n' then line :: getlines text [] else getlines text (line ++ [c])

def get_key_value_from_string (str : Str) (kv : Str × Str) : Str × Str :=
  (cutAt delimiter str).getD kv

namespace SkipList

def dump_file (s : SkipList Str Str) : Option Str :=
  (s.display 0).map fun entries => entries.flatMap fun entry => line entry ++ ['\n']

/-- The loop of `load_file`; `ones` are the random numbers for the nodes to come. -/
def load_lines (s : SkipList Str Str) (kv : Str × Str) (ones : Nat → Nat) :
    List Str → Option (SkipList Str Str)
  | [] => some s
  | line :: lines =>
    let kv := get_key_value_from_string line kv
    if kv.1 = [] ∨ kv.2 = [] then s.load_lines kv ones lines
    else (s.insert_element kv.1 kv.2 (ones 0)).bind fun r =>
      r.2.load_lines kv (fun n => ones (n + 1)) lines

def load_file (s : SkipList Str Str) (text : Str) (ones : Nat → Nat) : Option (SkipList Str Str) :=
  s.load_lines ([], []) ones (getlines text [])

def after {K V : Type} [LinearOrder K] (s : SkipList K V) : List (Call K V) → Option (SkipList K V)
  | [] => some s
  | c :: cs => (s.call c).bind fun r => r.2.after cs

end SkipList

/-! ### Lines -/

theorem getlines_append {line text before : Str} (clean : '\n' ∉ line) :
    getlines (line ++ '\n' :: text) before = (before ++ line) :: getlines text [] := by
  induction line generalizing before with
  | nil => simp [getlines]
  | cons c line ih =>
    have other : c ≠ '\n' := fun same => clean (same ▸ .head _)
    rw [List.cons_append, getlines, if_neg other, ih fun later => clean (.tail _ later),
      List.append_assoc, List.singleton_append]

theorem getlines_flatMap {lines : List Str} (clean : ∀ line ∈ lines, '\n' ∉ line) :
    getlines (lines.flatMap (· ++ ['\n'])) [] = lines := by
  induction lines with
  | nil => rfl
  | cons line lines ih =>
    rw [List.flatMap_cons, List.append_assoc, List.singleton_append,
      getlines_append (clean line (.head _)), ih fun l later => clean l (.tail _ later),
      List.nil_append]

theorem mem_getlines {text before line : Str} (clean : '\n' ∉ before)
    (member : line ∈ getlines text before) : '\n' ∉ line := by
  induction text generalizing before with
  | nil =>
    rw [getlines] at member
    split at member
    · cases member
    · rwa [List.mem_singleton.mp member]
  | cons c text ih =>
    rw [getlines] at member
    split at member
    · rcases List.mem_cons.mp member with rfl | later
      · exact clean
      · exact ih List.not_mem_nil later
    · rename_i other
      exact ih (by simpa using ⟨clean, Ne.symm other⟩) member

def readable (lines : List Str) : List (Str × Str) :=
  (lines.filterMap (cutAt delimiter)).filter fun e => e.1 ≠ [] ∧ e.2 ≠ []

structure Writable (e : Str × Str) : Prop where
  key : e.1 ≠ []
  value : e.2 ≠ []
  delimiter : delimiter ∉ e.1
  key_line : '\n' ∉ e.1
  value_line : '\n' ∉ e.2

theorem mem_readable {text : Str} {e : Str × Str} (member : e ∈ readable (getlines text [])) :
    Writable e := by
  obtain ⟨read, full⟩ := List.mem_filter.mp member
  obtain ⟨line, inside, cut⟩ := List.mem_filterMap.mp read
  have clean := mem_getlines List.not_mem_nil inside
  rcases split_first delimiter line with none | ⟨key, value, rfl, first⟩
  · rw [cutAt_clean none] at cut
    cases cut
  · rw [cutAt_sep first] at cut
    cases cut
    obtain ⟨key, value⟩ : key ≠ [] ∧ value ≠ [] := by simpa using full
    simp only [List.mem_append, List.mem_cons, not_or] at clean
    exact ⟨key, value, first, clean.1, clean.2.2⟩

theorem readable_lines {entries : List (Str × Str)} (all : ∀ e ∈ entries, Writable e) :
    readable (entries.map line) = entries := by
  have cut : (entries.map line).filterMap (cutAt delimiter) = entries := by
    rw [List.filterMap_map]
    induction entries with
    | nil => rfl
    | cons e entries ih =>
      rw [List.filterMap_cons, ih fun f later => all f (.tail _ later), Function.comp_apply, line,
        cutAt_sep (all e (.head _)).delimiter]
  rw [readable, cut, List.filter_eq_self]
  intro e member
  simpa using ⟨(all e member).key, (all e member).value⟩

/-! ### Insertions one after the other -/

namespace OrderedMap

variable {K V : Type} {m : OrderedMap K V}

theorem level_zero (m : OrderedMap K V) : m.level 0 = m.map fun e => (e.key, e.value) := by
  simp [level]

section
variable [BEq K] [LawfulBEq K]

theorem lookup_absent {key : K} (absent : key ∉ m.map Entry.key) : (m.level 0).lookup key = none := by
  rw [List.lookup_eq_none_iff, level_zero]
  intro e member
  obtain ⟨f, inside, rfl⟩ := List.mem_map.mp member
  refine bne_iff_ne.mpr fun same => absent ?_
  exact same ▸ List.mem_map_of_mem inside

theorem lookup_present {key : K} (there : key ∈ m.map Entry.key) :
    ((m.level 0).lookup key).isSome := by
  obtain ⟨e, inside, rfl⟩ := List.mem_map.mp there
  rw [List.lookup_isSome_iff, level_zero]
  exact ⟨_, List.mem_map_of_mem inside, beq_self_eq_true _⟩

end

variable [LinearOrder K]

theorem level_put (m : OrderedMap K V) (e : Entry K V) : (m.put e).level 0 =
    (m.level 0).filter (·.1 < e.key) ++ (e.key, e.value) :: (m.level 0).filter (e.key < ·.1) := by
  simp only [level_zero, put, List.map_append, List.map_cons, List.filter_map]
  rfl

theorem lookup_insert [BEq K] [LawfulBEq K] (m : OrderedMap K V) (max_level : Nat) (key : K)
    (value : V) (ones : Nat) (k : K) :
    ((m.call max_level (.insert_element key value ones)).2.level 0).lookup k =
      (m.level 0 ++ [(key, value)]).lookup k := by
  rw [call, List.lookup_append]
  split
  · rename_i there
    by_cases here : k = key
    · rw [here, Option.or_of_isSome (lookup_present there)]
    · have other : (k == key) = false := beq_false_of_ne here
      simp [List.lookup_cons, other]
  · rename_i absent
    have left := lookup_filter (fun k => decide (k < key)) (m.level 0) k
    have right := lookup_filter (fun k => decide (key < k)) (m.level 0) k
    simp only [level_put, List.lookup_append, List.lookup_cons, left, right]
    rcases lt_trichotomy k key with less | rfl | more
    · have other : (k == key) = false := beq_false_of_ne less.ne
      simp [less, less.not_gt, other]
    · simp [lookup_absent absent]
    · have other : (k == key) = false := beq_false_of_ne more.ne'
      simp [more, more.not_gt, other]

end OrderedMap

/-! ### The loop of `load_file` -/

def pairs {K V : Type} (rows : List (Row K V)) : List (K × V) := OrderedMap.level (rows.map Row.entry) 0

namespace SkipList

variable {s : SkipList Str Str} {rows : List (Row Str Str)} {kv : Str × Str} {ones : Nat → Nat}

def Stale (kv : Str × Str) (rows : List (Row Str Str)) : Prop :=
  kv.1 = [] ∨ kv.2 = [] ∨ ((pairs rows).lookup kv.1).isSome

theorem Rep.sorted_pairs {K V : Type} [LinearOrder K] {s : SkipList K V} {rows : List (Row K V)}
    (rep : s.Rep rows) : Sorted (pairs rows) := by
  rw [pairs, OrderedMap.level_zero, List.map_map]
  exact List.pairwise_map.mpr rep.sorted

theorem Rep.put (rep : s.Rep rows) (kv : Str × Str) (ones : Nat) :
    ∃ code t rows', s.insert_element kv.1 kv.2 ones = some (code, t) ∧ t.max_level = s.max_level ∧
      t.Rep rows' ∧ ∀ key, (pairs rows').lookup key = (pairs rows ++ [kv]).lookup key := by
  obtain ⟨t, rows', code, done, most, rep', its⟩ := rep.insert_element kv.1 kv.2 ones
  refine ⟨code, t, rows', done, most, rep', fun key => ?_⟩
  have lookup := OrderedMap.lookup_insert (rows.map Row.entry) s.max_level kv.1 kv.2 ones key
  rw [its] at lookup
  exact lookup

theorem readable_cons (line : Str) (lines : List Str) :
    readable (line :: lines) = readable [line] ++ readable lines := by
  rw [readable, readable, readable, ← List.filter_append, ← List.filterMap_append,
    List.singleton_append]

theorem Stale.line (stale : Stale kv rows) (line : Str) {kv' : Str × Str}
    (its : get_key_value_from_string line kv = kv') :
    (kv'.1 = [] ∨ kv'.2 = [] → readable [line] = [] ∧ Stale kv' rows) ∧
      (¬(kv'.1 = [] ∨ kv'.2 = []) → ∀ key,
        (pairs rows ++ [kv']).lookup key = (pairs rows ++ readable [line]).lookup key) := by
  cases cut : cutAt delimiter line with
  | none =>
    obtain rfl : kv = kv' := by simpa [get_key_value_from_string, cut] using its
    have none : readable [line] = [] := by simp [readable, cut]
    refine ⟨fun _ => ⟨none, stale⟩, fun full key => ?_⟩
    have there : ((pairs rows).lookup kv.1).isSome := by
      rcases stale with empty | empty | there
      · exact absurd (.inl empty) full
      · exact absurd (.inr empty) full
      · exact there
    by_cases here : key = kv.1
    · rw [none, List.append_nil, List.lookup_append, here, Option.or_of_isSome there]
    · have other : (key == kv.1) = false := beq_false_of_ne here
      obtain ⟨k, v⟩ := kv
      simp [none, List.lookup_append, List.lookup_cons, other]
  | some read =>
    obtain rfl : read = kv' := by simpa [get_key_value_from_string, cut] using its
    constructor
    · intro empty
      refine ⟨?_, empty.imp_right .inl⟩
      simp [readable, cut]
      tauto
    · intro full key
      have one : readable [line] = [read] := by
        simp [readable, cut]
        tauto
      rw [one]

theorem Rep.load_lines (rep : s.Rep rows) (ones : Nat → Nat) (lines : List Str) (stale : Stale kv rows) :
    ∃ t rows', s.load_lines kv ones lines = some t ∧ t.max_level = s.max_level ∧ t.Rep rows' ∧
      ∀ key, (pairs rows').lookup key = (pairs rows ++ readable lines).lookup key := by
  induction lines generalizing s rows kv ones with
  | nil => exact ⟨s, rows, rfl, rfl, rep, by simp [readable]⟩
  | cons line lines ih =>
    obtain ⟨kv', its⟩ : ∃ kv', get_key_value_from_string line kv = kv' := ⟨_, rfl⟩
    obtain ⟨skips, adds⟩ := stale.line line its
    rw [SkipList.load_lines, its, readable_cons]
    split
    · rename_i empty
      obtain ⟨none, stale⟩ := skips empty
      rw [none, List.nil_append]
      exact ih rep ones stale
    · rename_i full
      obtain ⟨code, t, rows', done, most, rep', lookup⟩ := rep.put kv' (ones 0)
      have stale' : Stale kv' rows' := by
        refine .inr (.inr ?_)
        rw [lookup, List.lookup_append]
        simp
      obtain ⟨u, rows'', loaded, most', rep'', lookup'⟩ :=
        ih rep' (fun n => ones (n + 1)) stale'
      refine ⟨u, rows'', by rw [done, Option.bind_some, loaded], most'.trans most, rep'', fun key => ?_⟩
      rw [lookup', List.lookup_append, lookup, adds full, ← List.append_assoc, ← List.lookup_append]

theorem stale_nil (rows : List (Row Str Str)) : Stale ([], []) rows := .inl rfl

theorem Rep.after {K V : Type} [LinearOrder K] {s : SkipList K V} {rows : List (Row K V)}
    (rep : s.Rep rows) (cs : List (Call K V)) :
    ∃ t rows', s.after cs = some t ∧ t.max_level = s.max_level ∧ t.Rep rows' := by
  induction cs generalizing s rows with
  | nil => exact ⟨s, rows, rfl, rfl, rep⟩
  | cons c cs ih =>
    obtain ⟨answer, t, rows', done, most, rep', -⟩ := rep.call c
    obtain ⟨u, rows'', ran, most', rep''⟩ := ih rep'
    exact ⟨u, rows'', by rw [SkipList.after, done, Option.bind_some, ran], most'.trans most, rep''⟩

theorem Rep.dump_file (rep : s.Rep rows) :
    s.dump_file = some (((pairs rows).map line).flatMap (· ++ ['\n'])) := by
  rw [SkipList.dump_file, rep.display (Nat.zero_le _), Option.map_some, List.flatMap_map]
  rfl

/-- Any text can be loaded into a list, whatever calls came before. The list then answers as the map
does that has the old entries and, of the entries of the file, the first for each new key. -/
theorem load_file_of_calls (max_level : Nat) (cs : List (Call Str Str)) (text : Str)
    (ones : Nat → Nat) : ∃ s t m m', (SkipList.new max_level).after cs = some s ∧
      s.load_file text ones = some t ∧
      (∀ more, s.calls more = some (OrderedMap.calls m max_level more)) ∧
      (∀ more, t.calls more = some (OrderedMap.calls m' max_level more)) ∧
      Sorted (m'.level 0) ∧ ∀ key,
        (m'.level 0).lookup key = (m.level 0 ++ readable (getlines text [])).lookup key := by
  obtain ⟨s, rows, ran, most, rep⟩ := (Rep.new max_level).after cs
  obtain ⟨t, rows', loaded, most', rep', lookup⟩ :=
    rep.load_lines ones (getlines text []) (stale_nil rows)
  refine ⟨s, t, rows.map Row.entry, rows'.map Row.entry, ran, loaded, fun more => ?_, fun more => ?_,
    rep'.sorted_pairs, lookup⟩
  · rw [rep.calls, most]
    rfl
  · rw [rep'.calls, most', most]
    rfl

/-- What was dumped comes back, in a new list of any size, exactly where each entry can be written
as a line. -/
theorem load_dump (max_level max_level' : Nat) (cs : List (Call Str Str)) (ones : Nat → Nat) :
    ∃ s t text entries, (SkipList.new max_level).after cs = some s ∧ s.display 0 = some entries ∧
      s.dump_file = some text ∧ (SkipList.new max_level').load_file text ones = some t ∧
      (t.display 0 = some entries ↔ ∀ e ∈ entries, Writable e) := by
  obtain ⟨s, rows, ran, -, rep⟩ := (Rep.new max_level).after cs
  obtain ⟨text, dumped⟩ : ∃ text, ((pairs rows).map line).flatMap (· ++ ['\n']) = text := ⟨_, rfl⟩
  obtain ⟨t, rows', loaded, -, rep', lookup⟩ :=
    (Rep.new max_level').load_lines ones (getlines text []) (stale_nil [])
  refine ⟨s, t, text, pairs rows, ran, rep.display (Nat.zero_le _), dumped ▸ rep.dump_file, loaded, ?_⟩
  have read (key : Str) : (pairs rows').lookup key = (readable (getlines text [])).lookup key := lookup key
  rw [rep'.display (Nat.zero_le _), Option.some_inj]
  constructor
  · intro same e member
    have same : pairs rows' = pairs rows := same
    have found : (pairs rows').lookup e.1 = some e.2 := by
      rw [same, lookup_of_mem rep.sorted_pairs member]
    rw [read, List.lookup_eq_some_iff] at found
    obtain ⟨before, behind, split, -⟩ := found
    have inside : (e.1, e.2) ∈ readable (getlines text []) := by simp [split]
    exact mem_readable inside
  · intro all
    show pairs rows' = pairs rows
    refine eq_of_lookup rep'.sorted_pairs rep.sorted_pairs fun key => ?_
    rw [read, ← dumped, getlines_flatMap, readable_lines all]
    intro l member
    obtain ⟨e, inside, rfl⟩ := List.mem_map.mp member
    have plain := all e inside
    simpa [line] using ⟨plain.key_line, by decide, plain.value_line⟩

end SkipList

end ProjectsCpp.Skiplist
