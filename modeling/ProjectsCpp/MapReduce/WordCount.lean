import ProjectsCpp.MapReduce.Worker

/-! The word count as one pipeline. The map tasks append their pieces in any order; a reduce
task then reads the pieces whose words have its hash, and what lies behind its buffers, and the
file that it writes is of no other task. -/

namespace ProjectsCpp.MapReduce
open ProjectsCpp.Text ProjectsCpp.Tally

/-! ### The pipeline -/

/-- The rounds of all loops in `writeInDisk`, each with its `mapTaskIdx`; `tasks` assigns every
text to a worker. -/
def mapRounds (tasks : List (Nat × KeyValue)) : Option (List (Nat × KeyValue)) :=
  (tasks.mapM fun task => (mapF task.2).map fun kvs => kvs.map fun kv => (task.1, kv)).map
    List.flatten

def written (reduceTaskNum : Nat) (dir : Directory) (rounds : List (Nat × KeyValue)) : Directory :=
  rounds.foldl (fun dir round => writeKV reduceTaskNum round.1 dir round.2) dir

/-- `behind r file` lies behind the buffer into which the reduce task `r` reads the file. -/
def reduceTasks (behind : Nat → Str → Str) (dir : Directory) : List Nat → List (List (Str × Str))
  | [] => []
  | r :: rs => outputPairs dir (behind r) r :: reduceTasks behind (reduceTask dir (behind r) r) rs

theorem written_map (reduceTaskNum mapTaskIdx : Nat) (dir : Directory) (kvs : List KeyValue) :
    written reduceTaskNum dir (kvs.map fun kv => (mapTaskIdx, kv)) =
      writeInDisk reduceTaskNum dir kvs mapTaskIdx := by
  rw [written, List.foldl_map, writeInDisk]

/-! ### The map tasks -/

def Word (w : Str) : Prop := w ≠ [] ∧ ∀ c, isLetter c = false → c ∉ w

theorem word_of_mem_splitWords {text w : Str} (member : w ∈ splitWords text) : Word w := by
  refine ⟨?_, fun c other => notMem_splitWords member other⟩
  rw [splitWords_eq, letterRuns, List.mem_filter] at member
  simpa using member.2

theorem mapRounds_eq {tasks : List (Nat × KeyValue)}
    (noNul : ∀ task ∈ tasks, '\x00' ∉ task.2.value) :
    mapRounds tasks = some (tasks.flatMap fun task =>
      (letterRuns task.2.value).map fun w => (task.1, ⟨w, ['1']⟩)) := by
  have each : tasks.mapM (fun task =>
      (mapF task.2).map fun kvs => kvs.map fun kv => (task.1, kv)) =
      some (tasks.map fun task =>
        (letterRuns task.2.value).map fun w => (task.1, (⟨w, ['1']⟩ : KeyValue))) := by
    have reads := mapM_map_some (g := id) (h := fun task : Nat × KeyValue =>
      (letterRuns task.2.value).map fun w => (task.1, (⟨w, ['1']⟩ : KeyValue)))
      (f := fun task => (mapF task.2).map fun kvs => kvs.map fun kv => (task.1, kv)) tasks
    rw [List.map_id] at reads
    refine reads fun task member => ?_
    rw [id, mapF_eq (noNul task member), Option.map_some, List.map_map]
    rfl
  rw [mapRounds, each, Option.map_some, List.flatMap]

def pieceOf (w : Str) : Str := w ++ [',', '1']

theorem splitComma_pieceOf {w : Str} (word : Word w) : splitComma (pieceOf w) = w := by
  have clean : ∀ c ∈ w, decide (c ≠ ',') = true := fun c inside => by
    simpa using fun same : c = ',' => word.2 ',' (by decide) (same ▸ inside)
  rw [splitComma, pieceOf, List.takeWhile_append_of_pos clean]
  simp

theorem splitComma_pieces {words : List Str} (clean : ∀ w ∈ words, Word w) :
    (words.map pieceOf).map splitComma = words := by
  rw [List.map_map]
  exact (List.map_congr_left fun w member => splitComma_pieceOf (clean w member)).trans
    (List.map_id _)

/-- The words so far: each lies, ended, in a file of the task that its hash names. -/
structure Holds (reduceTaskNum : Nat) (dir : Directory) (words : List Str) : Prop where
  whole : ∀ (r : Nat) file, isFileOf r file = true → Whole dir file
  gathered : ∀ r, (stored dir r).Perm
    ((words.filter fun w => (ihash reduceTaskNum w).natAbs = r).map pieceOf)

theorem whole_of_notMem {dir : Directory} {path : Str} (absent : path ∉ dir) : Whole dir path := by
  rw [Whole, bytesOf_of_notMem absent]
  exact ⟨List.not_mem_nil, rfl⟩

theorem Holds.start (reduceTaskNum : Nat) : Holds reduceTaskNum ∅ [] where
  whole _ file _ := whole_of_notMem (AList.notMem_empty file)
  gathered _ := .refl _

theorem writeKV_piece {reduceTaskNum idx r : Nat} {dir : Directory} {kv : KeyValue}
    (word : Word kv.key) (old : Whole dir (mapPath idx (ihash reduceTaskNum kv.key)))
    (file : isFileOf r (mapPath idx (ihash reduceTaskNum kv.key)) = true) :
    Whole (writeKV reduceTaskNum idx dir kv) (mapPath idx (ihash reduceTaskNum kv.key)) ∧
      (stored (writeKV reduceTaskNum idx dir kv) r).Perm (pieceOf kv.key :: stored dir r) := by
  have ne : pieceOf kv.key ≠ [] := List.append_ne_nil_of_right_ne_nil _ (List.cons_ne_nil _ _)
  have nul : '\x00' ∉ pieceOf kv.key := by simp [pieceOf, word.2 '\x00' (by decide)]
  have space : ' ' ∉ pieceOf kv.key := by simp [pieceOf, word.2 ' ' (by decide)]
  have bytes : kv.key ++ ",1 ".toList = pieceOf kv.key ++ [' '] := by
    rw [pieceOf, List.append_assoc]
    rfl
  rw [writeKV, bytes]
  exact stored_appendFile_piece old file ne nul space

theorem whole_writeKV {reduceTaskNum idx : Nat} {dir : Directory} {kv : KeyValue}
    (word : Word kv.key) (old : Whole dir (mapPath idx (ihash reduceTaskNum kv.key))) {path : Str}
    (whole : Whole dir path) : Whole (writeKV reduceTaskNum idx dir kv) path := by
  by_cases same : path = mapPath idx (ihash reduceTaskNum kv.key)
  · rw [same]
    exact (writeKV_piece word old ((isFileOf_mapPath _ _ _).mpr rfl)).1
  · rw [Whole, writeKV, bytesOf_appendFile_ne _ _ same]
    exact whole

theorem stored_writeKV {reduceTaskNum idx r : Nat} {dir : Directory} {words : List Str}
    {kv : KeyValue} (word : Word kv.key)
    (old : Whole dir (mapPath idx (ihash reduceTaskNum kv.key)))
    (gathered : (stored dir r).Perm
      ((words.filter fun w => (ihash reduceTaskNum w).natAbs = r).map pieceOf)) :
    (stored (writeKV reduceTaskNum idx dir kv) r).Perm
      (((kv.key :: words).filter fun w => (ihash reduceTaskNum w).natAbs = r).map pieceOf) := by
  rw [List.filter_cons]
  by_cases mine : (ihash reduceTaskNum kv.key).natAbs = r
  · rw [if_pos (decide_eq_true mine), List.map_cons]
    exact (writeKV_piece word old ((isFileOf_mapPath _ _ _).mpr mine.symm)).2.trans
      (gathered.cons _)
  · rw [if_neg (by simpa using mine), writeKV, stored_appendFile_other dir _ ?_]
    · exact gathered
    · rw [Bool.eq_false_iff]
      exact fun file => mine ((isFileOf_mapPath _ _ _).mp file).symm

theorem Holds.writeKV {reduceTaskNum : Nat} {dir : Directory} {words : List Str}
    (holds : Holds reduceTaskNum dir words) (idx : Nat) {kv : KeyValue} (word : Word kv.key) :
    Holds reduceTaskNum (writeKV reduceTaskNum idx dir kv) (kv.key :: words) := by
  have old := holds.whole _ _ ((isFileOf_mapPath _ idx (ihash reduceTaskNum kv.key)).mpr rfl)
  exact ⟨fun r file its => whole_writeKV word old (holds.whole r file its),
    fun r => stored_writeKV word old (holds.gathered r)⟩

theorem Holds.written {reduceTaskNum : Nat} {rounds : List (Nat × KeyValue)} {dir : Directory}
    {words : List Str} (holds : Holds reduceTaskNum dir words)
    (all : ∀ round ∈ rounds, Word round.2.key) :
    ∃ words', words'.Perm (words ++ rounds.map fun round => round.2.key) ∧
      Holds reduceTaskNum (written reduceTaskNum dir rounds) words' := by
  induction rounds generalizing dir words with
  | nil => exact ⟨words, by simp, holds⟩
  | cons round rounds ih =>
    obtain ⟨words', perm, next⟩ := ih (holds.writeKV round.1 (all round List.mem_cons_self))
      fun later member => all later (List.mem_cons_of_mem _ member)
    refine ⟨words', perm.trans ?_, next⟩
    rw [List.map_cons]
    exact List.perm_middle.symm

/-! ### The reduce tasks -/

theorem reduceTasks_eq (behind : Nat → Str → Str) {dir : Directory} {rs : List Nat}
    (once : rs.Nodup) :
    reduceTasks behind dir rs = rs.map fun r => outputPairs dir (behind r) r := by
  induction rs generalizing dir with
  | nil => rfl
  | cons r rs ih =>
    obtain ⟨fresh, once⟩ := List.nodup_cons.mp once
    rw [reduceTasks, ih once, List.map_cons]
    congr 1
    refine List.map_congr_left fun r' member => ?_
    have other : isFileOf r' (outPath r) = false := Bool.eq_false_iff.mpr fun file =>
      fresh ((isFileOf_outPath r' r).mp file ▸ member)
    exact congrArg pairsOf (gather_appendFile_other dir (behind r') _ other)

theorem outputs_perm {dir : Directory} {behind : Nat → Str → Str} {words : Nat → List Str}
    (clean : ∀ r, ∀ w ∈ words r, Word w) {rs : List Nat}
    (gathered : ∀ r ∈ rs, (gather dir (behind r) r).Perm ((words r).map pieceOf)) :
    (rs.map fun r => outputPairs dir (behind r) r).flatten.Perm
      ((rs.flatMap fun r => tally (words r)).map fun p => (p.1, decimal p.2)) := by
  rw [List.map_flatMap]
  refine .flatMap_left _ fun r member => ?_
  have first := pairsOf_perm (gathered r member)
  rwa [splitComma_pieces (clean r)] at first

/-- The number that the counts of the pairs come to. -/
def total (pairs : List (Str × Str)) : Nat := (pairs.map fun p => (atoi p.2).toNat).sum

theorem total_tally (l : List Str) : total ((tally l).map fun p => (p.1, decimal p.2)) = l.length := by
  have counts : ((tally l).map fun p => (p.1, decimal p.2)).map (fun p => (atoi p.2).toNat) =
      (tally l).map Prod.snd := by
    rw [List.map_map]
    refine List.map_congr_left fun p _ => ?_
    rw [Function.comp_apply, atoi_decimal, Int.toNat_natCast]
  rw [total, counts, sum_tally]

theorem total_perm {pairs pairs' : List (Str × Str)} (perm : pairs.Perm pairs') :
    total pairs = total pairs' := (perm.map _).sum_nat

theorem total_pairsOf (str : List Str) : total (pairsOf str) = str.length := by
  rw [total_perm (pairsOf_perm (.refl str)), total_tally, List.length_map]

theorem total_flatten (outputs : List (List (Str × Str))) :
    total outputs.flatten = (outputs.map total).sum := by
  rw [total, List.map_flatten, List.sum_flatten, List.map_map]
  rfl

theorem length_stray (behind : Str → Str) (files : List Str) :
    (stray behind files).length = 0 ↔ ∀ file ∈ files, pieces ' ' (cString (behind file)) = [] := by
  rw [List.length_eq_zero_iff, stray, List.flatMap_eq_nil_iff]

/-! ### The whole -/

/-- Whatever the assignment of the texts and the order of the writes and of the reduce tasks: the
outputs together are the tally of the words of all texts, each sorted by word, exactly if no reduce
task reads a piece behind the end of a file. -/
theorem wordCount_iff {reduceTaskNum : Nat} (positive : 0 < reduceTaskNum)
    {tasks : List (Nat × KeyValue)} (noNul : ∀ task ∈ tasks, '\x00' ∉ task.2.value) :
    ∃ rounds, mapRounds tasks = some rounds ∧
      ∀ order rs behind, order.Perm rounds → rs.Perm (List.range reduceTaskNum) →
        let dir := written reduceTaskNum ∅ order
        let outputs := reduceTasks behind dir rs
        (outputs.flatten.Perm ((tally (tasks.flatMap fun task => letterRuns task.2.value)).map
            fun p => (p.1, decimal p.2)) ∧
          ∀ pairs ∈ outputs, pairs.Pairwise fun a b => a.1 < b.1) ↔
        ∀ r < reduceTaskNum, ∀ file ∈ getAllfile dir r,
          pieces ' ' (cString (behind r file)) = [] := by
  refine ⟨_, mapRounds_eq noNul, fun order rs behind perm tasksPerm => ?_⟩
  have once := tasksPerm.nodup_iff.mpr List.nodup_range
  have keys : (order.map fun round => round.2.key).Perm
      (tasks.flatMap fun task => letterRuns task.2.value) := by
    refine (perm.map _).trans (.of_eq ?_)
    simp only [List.map_flatMap, List.map_map, Function.comp_def, List.map_id']
  have clean : ∀ w ∈ order.map fun round => round.2.key, Word w := by
    intro w member
    obtain ⟨task, -, run⟩ := List.mem_flatMap.mp (keys.mem_iff.mp member)
    exact word_of_mem_splitWords ((splitWords_eq task.2.value).symm ▸ run)
  obtain ⟨words, same, holds⟩ := (Holds.start reduceTaskNum).written
    fun round member => clean _ (List.mem_map_of_mem member)
  rw [List.nil_append] at same
  dsimp only
  generalize written reduceTaskNum ∅ order = dir at holds
  rw [reduceTasks_eq behind once]
  have gathered (r : Nat) : (gather dir (behind r) r).Perm
      ((words.filter fun w => (ihash reduceTaskNum w).natAbs = r).map pieceOf ++
        stray (behind r) (getAllfile dir r)) :=
    (gather_perm (behind r) (holds.whole r)).trans ((holds.gathered r).append_right _)
  have inClass : ∀ w ∈ words, (ihash reduceTaskNum w).natAbs ∈ rs := fun w _ =>
    tasksPerm.mem_iff.mpr (List.mem_range.mpr (natAbs_ihash_lt positive w))
  constructor
  · -- The counts of the words already come to the number of all words.
    rintro ⟨right, -⟩ r small
    have all := total_perm right
    rw [total_flatten, List.map_map, total_tally, ← (same.trans keys).length_eq] at all
    have lengths : rs.map (total ∘ fun r => outputPairs dir (behind r) r) = rs.map fun r =>
        (words.filter fun w => (ihash reduceTaskNum w).natAbs = r).length +
          (stray (behind r) (getAllfile dir r)).length := by
      refine List.map_congr_left fun r _ => (total_pairsOf _).trans ?_
      rw [(gathered r).length_eq, List.length_append, List.length_map]
    have each := sum_classes (fun w => (ihash reduceTaskNum w).natAbs) once (l := words) inClass
    rw [lengths, List.sum_map_add, each] at all
    have strays := List.sum_eq_zero_iff_forall_eq_nat.mp (Nat.add_eq_left.mp all)
    exact (length_stray _ _).mp (strays _ (List.mem_map_of_mem
      (tasksPerm.mem_iff.mpr (List.mem_range.mpr small))))
  · intro none
    refine ⟨?_, fun pairs member => ?_⟩
    · have words_clean (r : Nat) :
          ∀ w ∈ words.filter fun w => (ihash reduceTaskNum w).natAbs = r, Word w :=
        fun w member => clean w (same.mem_iff.mp (List.mem_of_mem_filter member))
      refine (outputs_perm words_clean fun r member => ?_).trans
        (((tally_classes (fun w => (ihash reduceTaskNum w).natAbs) once inClass).trans
          (tally_congr (same.trans keys))).map _)
      have small := List.mem_range.mp (tasksPerm.mem_iff.mp member)
      have nothing := List.length_eq_zero_iff.mp ((length_stray _ _).mpr (none r small))
      have exact_ := gathered r
      rwa [nothing, List.append_nil] at exact_
    · obtain ⟨r, -, rfl⟩ := List.mem_map.mp member
      exact outputPairs_sorted dir (behind r) r

def twoTexts : List (Nat × KeyValue) :=
  [(1, ⟨['f'], ['b', ',', ' ', 'a']⟩), (0, ⟨['g'], ['1', 'b', '\n']⟩)]

theorem twoTexts_counted :
    ∃ rounds, mapRounds twoTexts = some rounds ∧
      ∀ order rs, order.Perm rounds → rs.Perm (List.range 2) →
        (reduceTasks (fun _ _ => ['c', '\x00', 'd', ' ']) (written 2 ∅ order) rs).flatten.Perm
          [(['a'], ['1']), (['b'], ['2'])] := by
  obtain ⟨rounds, made, counted⟩ :=
    wordCount_iff Nat.two_pos (show ∀ task ∈ twoTexts, '\x00' ∉ task.2.value by decide)
  refine ⟨rounds, made, fun order rs perm tasks => ?_⟩
  exact ((counted order rs _ perm tasks).mpr fun r _ file _ => by decide).1

/-- The buffer of an earlier read can still stand behind that of a later one. -/
theorem strayPiece_counted :
    ∃ rounds, mapRounds [(0, ⟨['f'], ['a']⟩)] = some rounds ∧
      reduceTasks (fun _ _ => "a,1 ".toList) (written 1 ∅ rounds) [0] = [[(['a'], ['2'])]] ∧
      ¬ (reduceTasks (fun _ _ => "a,1 ".toList) (written 1 ∅ rounds) [0]).flatten.Perm
        ((tally (letterRuns ['a'])).map fun p => (p.1, decimal p.2)) := by
  have outputs : reduceTasks (fun _ _ => "a,1 ".toList) (written 1 ∅ [(0, ⟨['a'], ['1']⟩)]) [0] =
      [[(['a'], ['2'])]] := by
    decide +kernel
  have counted : (tally (letterRuns ['a'])).map (fun p => (p.1, decimal p.2)) = [(['a'], ['1'])] := by
    decide +kernel
  refine ⟨[(0, ⟨['a'], ['1']⟩)], by decide +kernel, outputs, ?_⟩
  rw [outputs, counted]
  decide

end ProjectsCpp.MapReduce
