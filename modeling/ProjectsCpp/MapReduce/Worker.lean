import ProjectsCpp.Lib.Tally
import ProjectsCpp.Lib.Text
import Mathlib.Data.List.AList
import Mathlib.Data.List.Sort
import Mathlib.Data.List.Lex
import Mathlib.Data.List.Dedup
import Mathlib.Data.Char
import Mathlib.Algebra.Group.Nat.Defs
import Mathlib.Algebra.Group.Int.Defs

/-! The worker of MapReduce (`MapReduce/worker.cpp`) and the functions that it loads
(`MapReduce/map_reduceFun.cpp`). The working directory maps the names of its files to their
bytes. Every file is opened with `O_APPEND`, so the round of a `writeInDisk` is one step,
whichever of its two branches it takes. -/

namespace ProjectsCpp.MapReduce
open ProjectsCpp.Text ProjectsCpp.Tally

structure KeyValue where
  key : Str
  value : Str
deriving DecidableEq

/-! ### The functions -/

def isLetter (c : Char) : Bool :=
  (65 ≤ c.toNat && c.toNat ≤ 90) || (97 ≤ c.toNat && c.toNat ≤ 122)

/-- The loop of `split` in `map_reduceFun.cpp`, with `tmp`. -/
def splitLoop : Str → Str → List Str
  | [], tmp => if tmp ≠ [] then [tmp] else []
  | c :: text, tmp =>
    if isLetter c then splitLoop text (tmp ++ [c])
    else if tmp ≠ [] then tmp :: splitLoop text []
    else splitLoop text []

def splitWords (text : Str) : List Str := splitLoop text []

/-- `strcpy` stops at a NUL byte, and what lies behind it in `content` was never written. -/
def mapF (kv : KeyValue) : Option (List KeyValue) :=
  if '\x00' ∈ kv.value then none else some ((splitWords kv.value).map fun s => ⟨s, ['1']⟩)

def reduceF (kvs : List KeyValue) : List Str := kvs.map fun kv => decimal kv.value.length

/-! ### The files of the worker -/

abbrev Directory := AList fun _ : Str => Str

def bytesOf (dir : Directory) (path : Str) : Str := (dir.lookup path).getD []

def appendFile (dir : Directory) (path bytes : Str) : Directory :=
  dir.insert path (bytesOf dir path ++ bytes)

/-- The C string that begins with these bytes. -/
def cString (bytes : Str) : Str := bytes.takeWhile (· ≠ '\x00')

/-- The file fills `buf` to its last byte, and `string(buf)` goes on with what lies `behind` it. -/
def getContent (dir : Directory) (behind file : Str) : KeyValue :=
  ⟨file, cString (bytesOf dir file ++ behind)⟩

/-- `sum += str[i] - '0'`: the sum is an `int` and wraps. -/
def addChar (sum : Int) (c : Char) : Int := Int.bmod (sum + (c.toNat - 48)) (2 ^ 32)

def ihash (reduceTaskNum : Nat) (str : Str) : Int := (str.foldl addChar 0).tmod reduceTaskNum

def mapPath (mapTaskIdx : Nat) (reduceIdx : Int) : Str :=
  "mr-".toList ++ decimal mapTaskIdx ++ '-' :: decimal reduceIdx

def outPath (reduceTaskIdx : Nat) : Str := "mr-out".toList ++ '-' :: decimal reduceTaskIdx

def writeKV (reduceTaskNum mapTaskIdx : Nat) (dir : Directory) (kv : KeyValue) : Directory :=
  appendFile dir (mapPath mapTaskIdx (ihash reduceTaskNum kv.key)) (kv.key ++ ",1 ".toList)

def writeInDisk (reduceTaskNum : Nat) (dir : Directory) (kvs : List KeyValue) (mapTaskIdx : Nat) :
    Directory := kvs.foldl (writeKV reduceTaskNum mapTaskIdx) dir

def isFileOf (op : Int) (filename : Str) : Bool :=
  let len : Int := filename.length
  let oplen : Int := (decimal op).length
  !(len - oplen < 5) && filename[0]? = some 'm' && filename[1]? = some 'r' &&
    filename[filename.length - (decimal op).length - 1]? = some '-' &&
    filename.drop (filename.length - (decimal op).length) = decimal op

def getAllfile (dir : Directory) (op : Int) : List Str := dir.keys.filter (isFileOf op)

def splitComma (text : Str) : Str := text.takeWhile (· ≠ ',')

/-- The first loop of `Myshuffle`: the pieces of all files, with what lies `behind` the buffer of
each. -/
def gather (dir : Directory) (behind : Str → Str) (reduceTaskNum : Nat) : List Str :=
  (getAllfile dir reduceTaskNum).flatMap fun file =>
    pieces ' ' (getContent dir (behind file) file).value

/-- The rest of `Myshuffle`: `hash` has a `1` for every piece, and its keys are sorted. -/
def shuffle (str : List Str) : List KeyValue :=
  let hash := tally (str.map splitComma)
  (hash.map fun a => ⟨a.1, List.replicate a.2 '1'⟩).mergeSort
    fun kv₁ kv₂ => decide (kv₁.key ≤ kv₂.key)

def myshuffle (dir : Directory) (behind : Str → Str) (reduceTaskNum : Nat) : List KeyValue :=
  shuffle (gather dir behind reduceTaskNum)

/-- The keys with the results of `reduceF`. -/
def pairsOf (str : List Str) : List (Str × Str) :=
  List.zip ((shuffle str).map KeyValue.key) (reduceF (shuffle str))

def outputPairs (dir : Directory) (behind : Str → Str) (reduceTaskIdx : Nat) : List (Str × Str) :=
  List.zip ((myshuffle dir behind reduceTaskIdx).map KeyValue.key)
    (reduceF (myshuffle dir behind reduceTaskIdx))

/-- The bytes that `myWrite` writes for the pairs. -/
def outputText (pairs : List (Str × Str)) : Str :=
  pairs.flatMap fun pair => pair.1 ++ ' ' :: pair.2 ++ ['\n']

def reduceTask (dir : Directory) (behind : Str → Str) (reduceTaskIdx : Nat) : Directory :=
  appendFile dir (outPath reduceTaskIdx) (outputText (outputPairs dir behind reduceTaskIdx))

/-! ### Words -/

def letterRuns (text : Str) : List Str :=
  (text.splitOnP fun c => !isLetter c).filter (· ≠ [])

theorem splitLoop_eq (text tmp : Str) : splitLoop text tmp =
    (text.splitOnPPrepend (fun c => !isLetter c) tmp.reverse).filter (· ≠ []) := by
  induction text generalizing tmp with
  | nil =>
    rw [splitLoop, List.splitOnPPrepend_nil, List.reverse_reverse]
    split
    · rename_i some
      simp [some]
    · rename_i none
      simp [not_not.mp none]
  | cons c text ih =>
    rw [splitLoop, List.splitOnPPrepend_cons_eq_if, List.reverse_reverse]
    cases letter : isLetter c with
    | true =>
      have next := ih (tmp ++ [c])
      rw [List.reverse_append, List.reverse_singleton, List.singleton_append] at next
      simpa using next
    | false =>
      have next := ih []
      rw [List.reverse_nil, List.splitOnPPrepend_nil_right] at next
      by_cases some : tmp = []
      · simp [some, next]
      · simp [some, next]

theorem splitWords_eq (text : Str) : splitWords text = letterRuns text := by
  rw [splitWords, splitLoop_eq, List.reverse_nil, List.splitOnPPrepend_nil_right, letterRuns]

theorem splitLoop_append {behind : Str} (other : ∀ c ∈ behind, isLetter c = false) (text tmp : Str) :
    splitLoop (text ++ behind) tmp = splitLoop text tmp := by
  induction text generalizing tmp with
  | nil =>
    rw [List.nil_append, splitLoop]
    induction behind generalizing tmp with
    | nil => rfl
    | cons c behind ih =>
      have later := fun tmp => ih (fun c member => other c (List.mem_cons_of_mem _ member)) tmp
      rw [splitLoop, other c List.mem_cons_self, if_neg Bool.false_ne_true, later]
      rfl
  | cons c text ih => rw [List.cons_append, splitLoop, splitLoop, ih, ih]

theorem letterRuns_append {behind : Str} (other : ∀ c ∈ behind, isLetter c = false) (text : Str) :
    letterRuns (text ++ behind) = letterRuns text := by
  rw [← splitWords_eq, ← splitWords_eq, splitWords, splitLoop_append other]
  rfl

theorem isLetter_of_splitLoop {text tmp w : Str} (before : ∀ c ∈ tmp, isLetter c = true)
    (member : w ∈ splitLoop text tmp) : ∀ c ∈ w, isLetter c = true := by
  induction text generalizing tmp with
  | nil =>
    rw [splitLoop] at member
    split at member
    · rwa [List.mem_singleton.mp member]
    · cases member
  | cons c text ih =>
    rw [splitLoop] at member
    split at member
    · rename_i letter
      refine ih (fun d inside => ?_) member
      cases List.mem_append.mp inside with
      | inl old => exact before d old
      | inr new => rwa [List.mem_singleton.mp new]
    · have rest : w ∈ splitLoop text [] → ∀ c ∈ w, isLetter c = true :=
        ih fun d inside => absurd inside List.not_mem_nil
      split at member
      · cases List.mem_cons.mp member with
        | inl same => rwa [same]
        | inr later => exact rest later
      · exact rest member

theorem notMem_splitWords {text w : Str} (member : w ∈ splitWords text) {c : Char}
    (other : isLetter c = false) : c ∉ w := by
  intro inside
  have before : ∀ d ∈ ([] : Str), isLetter d = true := fun d inside => absurd inside List.not_mem_nil
  have letter := isLetter_of_splitLoop before member c inside
  rw [other] at letter
  cases letter

theorem mapF_eq {kv : KeyValue} (noNul : '\x00' ∉ kv.value) :
    mapF kv = some ((letterRuns kv.value).map fun s => ⟨s, ['1']⟩) := by
  rw [mapF, if_neg noNul, splitWords_eq]

/-! ### Names -/

theorem decimal_injective : Function.Injective decimal := fun a b same => by
  rw [← atoi_decimal a, same, atoi_decimal]

theorem dash_notMem_decimal (n : Nat) : '-' ∉ decimal n := fun member =>
  absurd (isDigit_of_mem_toDigits (n := n) member) (by decide)

theorem eq_of_dash {a b x y : Str} (same : x ++ '-' :: a = y ++ '-' :: b) (left : '-' ∉ a)
    (right : '-' ∉ b) : a = b := by
  rcases List.append_eq_append_iff.mp same with ⟨u, rfl, rest⟩ | ⟨u, rfl, rest⟩
  · cases u with
    | nil => exact (List.cons.inj rest).2
    | cons c u =>
      obtain ⟨-, rfl⟩ := List.cons.inj rest
      exact absurd (List.mem_append_right u List.mem_cons_self) left
  · cases u with
    | nil => exact (List.cons.inj rest).2.symm
    | cons c u =>
      obtain ⟨-, rfl⟩ := List.cons.inj rest
      exact absurd (List.mem_append_right u List.mem_cons_self) right

theorem isFileOf_dash (r k : Nat) {x : Str} (long : 2 ≤ x.length) :
    isFileOf r ('m' :: 'r' :: (x ++ '-' :: decimal k)) = true ↔ r = k := by
  constructor
  · intro file
    simp only [isFileOf, Bool.and_eq_true, decide_eq_true_eq, Bool.not_eq_true',
      decide_eq_false_iff_not] at file
    obtain ⟨⟨⟨⟨five, -⟩, -⟩, dash⟩, ends⟩ := file
    generalize whole : 'm' :: 'r' :: (x ++ '-' :: decimal k) = name at five dash ends
    obtain ⟨inside, -⟩ := List.getElem?_eq_some_iff.mp dash
    have cut : name = name.take (name.length - (decimal r).length - 1) ++ '-' :: decimal r := by
      conv_lhs => rw [← List.take_append_drop (name.length - (decimal r).length - 1) name]
      rw [List.append_right_inj, List.drop_eq_getElem_cons inside]
      have next : name.length - (decimal r).length - 1 + 1 = name.length - (decimal r).length := by
        omega
      rw [(List.getElem?_eq_some_iff.mp dash).2, next, ends]
    rw [← whole] at cut
    have same : decimal k = decimal r :=
      eq_of_dash (x := 'm' :: 'r' :: x) cut (dash_notMem_decimal k) (dash_notMem_decimal r)
    exact (Int.ofNat.inj (decimal_injective same)).symm
  · rintro rfl
    have size : ('m' :: 'r' :: (x ++ '-' :: decimal r)).length =
        x.length + 3 + (decimal r).length := by
      simp only [List.length_cons, List.length_append]
      omega
    have dash : ('m' :: 'r' :: (x ++ '-' :: decimal r))[x.length + 2]? = some '-' := by
      simp
    have ends : ('m' :: 'r' :: (x ++ '-' :: decimal r)).drop (x.length + 3) = decimal r := by
      simp
    simp only [isFileOf, Bool.and_eq_true, decide_eq_true_eq, Bool.not_eq_true']
    rw [size]
    refine ⟨⟨⟨⟨?_, rfl⟩, rfl⟩, ?_⟩, ?_⟩
    · exact decide_eq_false (by push_cast; omega)
    · rw [show x.length + 3 + (decimal r).length - (decimal r).length - 1 = x.length + 2 by omega]
      exact dash
    · rw [Nat.add_sub_cancel]
      exact ends

theorem isFileOf_mapPath (r i : Nat) (k : Int) :
    isFileOf r (mapPath i k) = true ↔ r = k.natAbs := by
  have long : 2 ≤ ('-' :: decimal i).length :=
    Nat.succ_le_succ (List.length_pos_of_ne_nil (decimal_ne_nil i))
  cases k with
  | ofNat n =>
    have name : mapPath i n = 'm' :: 'r' :: (('-' :: decimal i) ++ '-' :: decimal n) := rfl
    exact name ▸ isFileOf_dash r n long
  | negSucc n =>
    have name : mapPath i (.negSucc n) =
        'm' :: 'r' :: ((('-' :: decimal i) ++ ['-']) ++ '-' :: decimal ((n + 1 : Nat) : Int)) := by
      rw [List.append_assoc]
      rfl
    rw [name]
    refine isFileOf_dash r (n + 1) ?_
    rw [List.length_append]
    omega

theorem isFileOf_outPath (r k : Nat) : isFileOf r (outPath k) = true ↔ r = k := by
  have name : outPath k = 'm' :: 'r' :: ("-out".toList ++ '-' :: decimal k) := rfl
  rw [name, isFileOf_dash r k (by decide)]

theorem natAbs_ihash_lt {reduceTaskNum : Nat} (positive : 0 < reduceTaskNum) (str : Str) :
    (ihash reduceTaskNum str).natAbs < reduceTaskNum := by
  rw [ihash, Int.natAbs_tmod, Int.natAbs_natCast]
  exact Nat.mod_lt _ positive

/-! ### Appending -/

theorem bytesOf_appendFile (dir : Directory) (path bytes : Str) :
    bytesOf (appendFile dir path bytes) path = bytesOf dir path ++ bytes := by
  rw [bytesOf, appendFile, AList.lookup_insert, Option.getD_some]

theorem bytesOf_appendFile_ne (dir : Directory) {path file : Str} (bytes : Str)
    (other : file ≠ path) : bytesOf (appendFile dir path bytes) file = bytesOf dir file := by
  rw [bytesOf, appendFile, AList.lookup_insert_ne other, bytesOf]

/-- The pieces that lie in the files of a reduce task. -/
def stored (dir : Directory) (r : Nat) : List Str :=
  (getAllfile dir r).flatMap fun file => pieces ' ' (bytesOf dir file)

/-- The pieces that are read behind the ends of files. -/
def stray (behind : Str → Str) (files : List Str) : List Str :=
  files.flatMap fun file => pieces ' ' (cString (behind file))

theorem getAllfile_appendFile_other (dir : Directory) {r : Nat} {path : Str} (bytes : Str)
    (other : isFileOf r path = false) :
    getAllfile (appendFile dir path bytes) r = getAllfile dir r := by
  have no : ¬ isFileOf r path = true := by
    rw [other]
    exact Bool.false_ne_true
  have kept : ∀ entries : List (Sigma fun _ : Str => Str),
      ((entries.kerase path).map Sigma.fst).filter (isFileOf r) =
        (entries.map Sigma.fst).filter (isFileOf r) := by
    intro entries
    induction entries with
    | nil => rfl
    | cons entry entries ih =>
      by_cases same : path = entry.1
      · rw [List.kerase_cons_eq same, List.map_cons, List.filter_cons_of_neg (same ▸ no)]
      · rw [List.kerase_cons_ne same, List.map_cons, List.map_cons, List.filter_cons,
          List.filter_cons, ih]
  show (path :: (dir.entries.kerase path).map Sigma.fst).filter (isFileOf r) = _
  rw [List.filter_cons_of_neg no, kept]
  rfl

theorem ne_of_isFileOf {r : Nat} {path file : Str} (other : isFileOf r path = false)
    (its : isFileOf r file = true) : file ≠ path := by
  rintro rfl
  rw [other] at its
  cases its

theorem gather_appendFile_other (dir : Directory) (behind : Str → Str) {r : Nat} {path : Str}
    (bytes : Str) (other : isFileOf r path = false) :
    gather (appendFile dir path bytes) behind r = gather dir behind r := by
  rw [gather, gather, getAllfile_appendFile_other dir bytes other]
  refine List.flatMap_congr fun file member => ?_
  rw [getContent, getContent, bytesOf_appendFile_ne dir bytes
    (ne_of_isFileOf other (List.mem_filter.mp member).2)]

theorem stored_appendFile_other (dir : Directory) {r : Nat} {path : Str} (bytes : Str)
    (other : isFileOf r path = false) :
    stored (appendFile dir path bytes) r = stored dir r := by
  rw [stored, stored, getAllfile_appendFile_other dir bytes other]
  refine List.flatMap_congr fun file member => ?_
  rw [bytesOf_appendFile_ne dir bytes (ne_of_isFileOf other (List.mem_filter.mp member).2)]

/-- A file that a C string holds whole and whose last piece is ended. -/
def Whole (dir : Directory) (path : Str) : Prop :=
  '\x00' ∉ bytesOf dir path ∧ rest ' ' (bytesOf dir path) = []

theorem cString_append {text : Str} (noNul : '\x00' ∉ text) (behind : Str) :
    cString (text ++ behind) = text ++ cString behind := by
  refine List.takeWhile_append_of_pos fun c inside => ?_
  simpa using fun same : c = '\x00' => noNul (same ▸ inside)

theorem pieces_getContent {dir : Directory} {path : Str} (whole : Whole dir path) (behind : Str) :
    pieces ' ' (getContent dir behind path).value =
      pieces ' ' (bytesOf dir path) ++ pieces ' ' (cString behind) := by
  rw [getContent, cString_append whole.1, pieces_append whole.2]

theorem gather_perm {dir : Directory} {r : Nat} (behind : Str → Str)
    (whole : ∀ file, isFileOf r file = true → Whole dir file) :
    (gather dir behind r).Perm (stored dir r ++ stray behind (getAllfile dir r)) := by
  have each : gather dir behind r = (getAllfile dir r).flatMap fun file =>
      pieces ' ' (bytesOf dir file) ++ pieces ' ' (cString (behind file)) :=
    List.flatMap_congr fun file member =>
      pieces_getContent (whole file (List.mem_filter.mp member).2) (behind file)
  rw [each]
  exact (List.flatMap_append_perm _ _ _).symm

theorem bytesOf_of_notMem {dir : Directory} {path : Str} (absent : path ∉ dir) :
    bytesOf dir path = [] := by
  rw [bytesOf, AList.lookup_eq_none.mpr absent, Option.getD_none]

/-- A file of a reduce task is as good as one more in an erased directory. -/
theorem stored_split (dir : Directory) {r : Nat} {path : Str} (file : isFileOf r path = true) :
    (stored dir r).Perm (pieces ' ' (bytesOf dir path) ++
      ((dir.erase path).keys.filter (isFileOf r)).flatMap fun file =>
        pieces ' ' (bytesOf dir file)) := by
  have once : (path :: (dir.erase path).keys).Nodup :=
    List.nodup_cons.mpr ⟨fun member => (AList.mem_erase.mp member).1 rfl, AList.keys_nodup _⟩
  by_cases present : path ∈ dir
  · have keys : dir.keys.Perm (path :: (dir.erase path).keys) := by
      rw [List.perm_ext_iff_of_nodup dir.keys_nodup once]
      intro file
      rw [List.mem_cons, ← AList.mem_keys, ← AList.mem_keys, AList.mem_erase]
      by_cases same : file = path
      · simp [same, present]
      · simp [same]
    have first := (keys.filter (isFileOf r)).flatMap_right fun file => pieces ' ' (bytesOf dir file)
    rwa [List.filter_cons_of_pos file, List.flatMap_cons] at first
  · have keys : dir.keys.Perm (dir.erase path).keys := by
      rw [List.perm_ext_iff_of_nodup dir.keys_nodup (AList.keys_nodup _)]
      intro file
      rw [← AList.mem_keys, ← AList.mem_keys, AList.mem_erase]
      exact ⟨fun member => ⟨fun same => present (same ▸ member), member⟩, And.right⟩
    rw [bytesOf_of_notMem present, pieces_nil, List.nil_append]
    exact (keys.filter (isFileOf r)).flatMap_right _

theorem stored_appendFile_piece {dir : Directory} {r : Nat} {path w : Str} (whole : Whole dir path)
    (file : isFileOf r path = true) (ne : w ≠ []) (noNul : '\x00' ∉ w) (clean : ' ' ∉ w) :
    Whole (appendFile dir path (w ++ [' '])) path ∧
      (stored (appendFile dir path (w ++ [' '])) r).Perm (w :: stored dir r) := by
  have bytes := bytesOf_appendFile dir path (w ++ [' '])
  refine ⟨⟨?_, ?_⟩, ?_⟩
  · rw [bytes]
    simp [whole.1, noNul]
  · rw [bytes, rest_append whole.2, rest_sep clean, rest_nil]
  · have now : pieces ' ' (bytesOf (appendFile dir path (w ++ [' '])) path) =
        pieces ' ' (bytesOf dir path) ++ [w] := by
      rw [bytes, pieces_append whole.2, pieces_sep ne clean, pieces_nil]
    have others : ((dir.erase path).keys.filter (isFileOf r)).flatMap (fun file =>
        pieces ' ' (bytesOf (appendFile dir path (w ++ [' '])) file)) =
        ((dir.erase path).keys.filter (isFileOf r)).flatMap fun file =>
          pieces ' ' (bytesOf dir file) := by
      refine List.flatMap_congr fun file member => ?_
      have other : file ≠ path :=
        (AList.mem_erase.mp (AList.mem_keys.mpr (List.mem_of_mem_filter member))).1
      rw [bytesOf_appendFile_ne dir _ other]
    have added : stored (appendFile dir path (w ++ [' '])) r =
        pieces ' ' (bytesOf dir path) ++ [w] ++
          ((dir.erase path).keys.filter (isFileOf r)).flatMap fun file =>
            pieces ' ' (bytesOf dir file) := by
      rw [stored, getAllfile, appendFile, AList.keys_insert, List.filter_cons_of_pos file,
        List.flatMap_cons, ← AList.keys_erase, ← appendFile, now, others]
    rw [added, List.append_assoc]
    exact List.perm_middle.trans ((stored_split dir file).symm.cons w)

/-! ### Shuffling -/

theorem shuffle_perm (str : List Str) : (shuffle str).Perm
    ((tally (str.map splitComma)).map fun a => ⟨a.1, List.replicate a.2 '1'⟩) :=
  List.mergeSort_perm _ _

theorem shuffle_sorted (str : List Str) :
    (shuffle str).Pairwise fun kv₁ kv₂ => kv₁.key < kv₂.key := by
  have trans_ (a b c : KeyValue) (left : decide (a.key ≤ b.key) = true)
      (right : decide (b.key ≤ c.key) = true) : decide (a.key ≤ c.key) = true :=
    decide_eq_true ((of_decide_eq_true left).trans (of_decide_eq_true right))
  have order := List.pairwise_mergeSort trans_ (fun a b => by simpa using le_total a.key b.key)
    ((tally (str.map splitComma)).map fun a => ⟨a.1, List.replicate a.2 '1'⟩)
  have once : ((shuffle str).map KeyValue.key).Nodup := by
    refine (((shuffle_perm str).map KeyValue.key).nodup_iff).mpr ?_
    rw [tally, List.map_map, List.map_map, Function.comp_def, Function.comp_def, List.map_id']
    exact List.nodup_dedup _
  refine (order.and (List.pairwise_map.mp once)).imp fun {kv₁ kv₂} both => ?_
  exact lt_of_le_of_ne (of_decide_eq_true both.1) both.2

theorem pairsOf_eq (str : List Str) :
    pairsOf str = (shuffle str).map fun kv => (kv.key, decimal kv.value.length) := by
  rw [pairsOf, reduceF, List.zip_map']

theorem outputPairs_sorted (dir : Directory) (behind : Str → Str) (r : Nat) :
    (outputPairs dir behind r).Pairwise fun a b => a.1 < b.1 := by
  have same : outputPairs dir behind r = pairsOf (gather dir behind r) := rfl
  rw [same, pairsOf_eq, List.pairwise_map]
  exact shuffle_sorted _

theorem pairsOf_perm {str str' : List Str} (perm : str.Perm str') :
    (pairsOf str).Perm ((tally (str'.map splitComma)).map fun p => (p.1, decimal p.2)) := by
  have pairs : (pairsOf str).Perm
      ((tally (str.map splitComma)).map fun p => (p.1, decimal p.2)) := by
    rw [pairsOf_eq]
    refine ((shuffle_perm _).map _).trans ?_
    rw [List.map_map]
    refine .of_eq (List.map_congr_left fun a _ => ?_)
    rw [Function.comp_apply, List.length_replicate]
  exact pairs.trans ((tally_congr (perm.map splitComma)).map _)

end ProjectsCpp.MapReduce
