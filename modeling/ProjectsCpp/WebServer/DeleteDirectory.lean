import ProjectsCpp.WebServer.FtpConfined

/-! `deleteDirectory` of the file operator (`manager/fileOperator.cc`) on a tree of files. The names
of the levels are put together with no slash between them. -/

namespace ProjectsCpp.WebServer
open ProjectsCpp.Paths
open ProjectsCpp.Text (Str fields)

structure FileNode where
  place : Place
  isDir : Bool
deriving DecidableEq

def PlainName (c : Str) : Prop :=
  c ≠ [] ∧ '/' ∉ c ∧ Char.ofNat 0 ∉ c ∧ c ≠ ".".toList ∧ c ≠ "..".toList

instance (c : Str) : Decidable (PlainName c) := inferInstanceAs (Decidable (_ ∧ _ ∧ _ ∧ _ ∧ _))

abbrev Disk := List FileNode

namespace Disk

def entryIn (p : Place) (n : FileNode) : Option DirEntry :=
  match n.place.names with
  | c :: cs => if ⟨n.place.absolute, n.place.ups, cs⟩ = p then some ⟨c, n.isDir⟩ else none
  | [] => none

def children (disk : Disk) (p : Place) : List DirEntry := disk.filterMap (entryIn p)

def canRemove (disk : Disk) (p : Place) (directoryOnly : Bool) : Bool :=
  disk.any fun n => n.place = p && if n.isDir then disk.children p = [] else !directoryOnly

def drop (disk : Disk) (p : Place) : Disk := disk.filter (·.place ≠ p)

structure IsTree (disk : Disk) : Prop where
  named : ∀ n ∈ disk, ∀ c ∈ n.place.names, PlainName c
  inside : ∀ n ∈ disk, ∀ c c' cs, n.place.names = c :: c' :: cs →
    ⟨⟨n.place.absolute, n.place.ups, c' :: cs⟩, true⟩ ∈ disk

end Disk

/-- `failed` says whether a call of the system has failed. -/
structure DiskState where
  fo : FileOperator
  disk : Disk
  failed : Bool

namespace DiskState

def start (root : Str) (dirs : List Str) (disk : Disk) : DiskState :=
  ⟨⟨root, root :: dirs, []⟩, disk, false⟩

def placeOf (s : DiskState) (part : Str) : Place :=
  resolve (cString (s.fo.getCurrentWorkingDir ++ part))

variable (denied : Nat → Bool) (order : List DirEntry → List DirEntry)

def listing (s : DiskState) (dir : Str) : Listing :=
  let p := s.placeOf (s.fo.browsed dir false)
  ⟨true, if ⟨p, true⟩ ∈ s.disk then
      some (order (⟨".".toList, true⟩ :: ⟨"..".toList, true⟩ :: s.disk.children p))
    else none⟩

def take (s : DiskState) (part : Str) (directoryOnly : Bool) (fo : FileOperator) :
    DiskState × Bool :=
  let p := s.placeOf part
  if !denied s.fo.calls.length && s.disk.canRemove p directoryOnly then
    (⟨fo, s.disk.drop p, s.failed⟩, true)
  else (⟨fo, s.disk, true⟩, false)

/-- `deleteFile` that is not strict, and what it returns: `true` is `EXIT_FAILURE`. -/
def deleteFile (s : DiskState) (fileName : Str) : DiskState × Bool :=
  let (s', removed) := s.take denied fileName false (s.fo.deleteFile fileName)
  (s', !removed)

def deleteFiles (pathToDir : Str) : List Str → DiskState × Bool → DiskState × Bool
  | [], now => now
  | file :: files, (s, cancel) =>
    let (s', failed) := s.deleteFile denied (pathToDir ++ file)
    deleteFiles pathToDir files (s', failed || cancel)

def rmdir (s : DiskState) (pathToDir : Str) : DiskState :=
  if pathToDir = ".".toList ∨ pathToDir = "..".toList then s
  else (s.take denied pathToDir true (s.fo.hand .rmdir pathToDir)).1

def enterAll (enter : DiskState → Str → Bool → Option (DiskState × Bool)) :
    List Str → DiskState × Bool → Option (DiskState × Bool)
  | [], now => some now
  | dir :: dirs, (s, cancel) =>
    if dir = ".".toList ∨ dir = "..".toList then enterAll enter dirs (s, cancel)
    else (enter s (dir ++ "/".toList) cancel).bind fun (s', result) =>
      enterAll enter dirs (s', result || cancel)

/-- At most `fuel` levels; `none` also where `readdir` is given a null pointer. -/
def deleteDirectory : Nat → DiskState → Str → Bool → Str → Option (DiskState × Bool)
  | 0, _, _, _, _ => none
  | fuel + 1, s, dirName, cancel, pathToDir =>
    if cancel then some (s, true)
    else
      let pathToDir := pathToDir ++ FileOperator.getValidFile dirName
      match s.fo.browse pathToDir false (s.listing order pathToDir) with
      | (_, none) => none
      | (fo, some (directories, files)) =>
        (enterAll (fun s dir cancel => deleteDirectory fuel s dir cancel pathToDir) directories
          (deleteFiles denied pathToDir files ({ s with fo := fo }, cancel))).map fun (s, cancel) =>
            (s.rmdir denied pathToDir, cancel)

/-- `deleteDirectory(d)` comes back, hands only `d` and what is below it to `remove` and `rmdir`,
and where no call fails, what is gone is the tree `d`. -/
def Contained (s : DiskState) (d : Str) : Prop :=
  ∃ fuel s' cancel, deleteDirectory denied order fuel s d false [] = some (s', cancel) ∧
    (∀ call ∈ s'.fo.calls, call.1 = .remove ∨ call.1 = .rmdir →
      (resolve call.2).Below (s.placeOf d)) ∧
    (s'.failed = false → s'.disk = s.disk.filter fun n => ¬ n.place.Below (s.placeOf d))

/-! ### Names without a slash -/

theorem cString_of_not_mem {t : Str} (clean : Char.ofNat 0 ∉ t) : cString t = t :=
  List.takeWhile_eq_self_iff.mpr fun _ inside => decide_eq_true fun zero => clean (zero ▸ inside)

theorem fields_glued (root : Str) : ∃ (cs : List Str) (w : Str),
    ∀ x : Str, x ≠ [] → '/' ∉ x → fields '/' (root ++ x) = cs ++ [w ++ x] := by
  induction root using Text.split_induction '/' with
  | last w clean =>
    refine ⟨[], w, fun x some_ slashless => ?_⟩
    refine Text.fields_clean (List.append_ne_nil_of_right_ne_nil w some_) fun inside => ?_
    exact (List.mem_append.mp inside).elim clean slashless
  | next w u _ ih =>
    obtain ⟨cs, v, glued⟩ := ih
    refine ⟨fields '/' w ++ cs, v, fun x some_ slashless => ?_⟩
    rw [List.append_assoc, List.cons_append, fields_glue, glued x some_ slashless,
      List.append_assoc]

theorem resolve_glued (root : Str) : ∃ (p : Place) (w : Str),
    ∀ x : Str, x ≠ [] → '/' ∉ x → resolve (root ++ x) = p.enter (w ++ x) := by
  obtain ⟨cs, w, glued⟩ := fields_glued root
  refine ⟨cs.foldl Place.enter ⟨root.head? = some '/', 0, []⟩, w, fun x some_ slashless => ?_⟩
  have head : ((root ++ x).head? = some '/') = (root.head? = some '/') := by
    cases root with
    | nil =>
      refine propext (iff_of_false (fun first => slashless ?_) nofun)
      exact List.mem_of_head? first
    | cons c root => rfl
  rw [resolve, glued x some_ slashless, List.foldl_append]
  simp only [head]
  rfl

theorem enter_of_ne {p : Place} {c : Str} (one : c ≠ ['.']) (two : c ≠ ['.', '.']) :
    p.enter c = { p with names := c :: p.names } := by
  rw [Place.enter, if_neg one, if_neg two]

theorem not_dots {d : Str} (w : Str) (some_ : d ≠ []) (one : d ≠ ['.']) (two : d ≠ ['.', '.']) :
    w ++ d ≠ ['.'] ∧ w ++ d ≠ ['.', '.'] := by
  have pos := List.length_pos_of_ne_nil some_
  match w with
  | [] => exact ⟨one, two⟩
  | [c] => exact ⟨fun same => some_ (List.cons.inj same).2, fun same => one (List.cons.inj same).2⟩
  | c :: c' :: w =>
    constructor
    · intro same
      have length := congrArg List.length same
      simp only [List.length_append, List.length_cons, List.length_nil] at length
      omega
    · intro same
      have length := congrArg List.length same
      simp only [List.length_append, List.length_cons, List.length_nil] at length
      omega

theorem not_below_longer {root d x : Str} (plain : PlainName d) (some_ : x ≠ [])
    (slashless : '/' ∉ x) :
    ¬ (resolve (root ++ (d ++ x))).Below (resolve (root ++ d)) := by
  obtain ⟨p, w, glued⟩ := resolve_glued root
  obtain ⟨notEmpty, clean, -, one, two⟩ := plain
  have whole : '/' ∉ d ++ x := fun inside => (List.mem_append.mp inside).elim clean slashless
  have longOne : d ++ x ≠ ['.'] := by
    intro same
    rcases List.append_eq_singleton_iff.mp same with ⟨empty, -⟩ | ⟨-, empty⟩
    · exact notEmpty empty
    · exact some_ empty
  have longTwo : d ++ x ≠ ['.', '.'] := by
    intro same
    obtain ⟨c, d, rfl⟩ := List.exists_cons_of_ne_nil notEmpty
    obtain ⟨rfl, rest⟩ := List.cons.inj same
    rcases List.append_eq_singleton_iff.mp rest with ⟨rfl, -⟩ | ⟨-, empty⟩
    · exact one rfl
    · exact some_ empty
  obtain ⟨shortDot, shortDots⟩ := not_dots w notEmpty one two
  have longer : d ++ x ≠ [] := List.append_ne_nil_of_left_ne_nil notEmpty x
  obtain ⟨longDot, longDots⟩ := not_dots w longer longOne longTwo
  rw [glued _ notEmpty clean, glued _ longer whole,
    enter_of_ne shortDot shortDots, enter_of_ne longDot longDots]
  rintro ⟨-, -, suffix⟩
  have same := suffix.eq_of_length rfl
  have names := List.append_cancel_left (List.cons.inj same).1
  exact some_ (List.append_right_eq_self.mp names.symm)

/-! ### The calls -/

structure Grows (s s' : DiskState) : Prop where
  calls : s.fo.calls <+: s'.fo.calls
  here : s'.fo.getCurrentWorkingDir = s.fo.getCurrentWorkingDir

variable {denied : Nat → Bool} {order : List DirEntry → List DirEntry} {s s' s'' : DiskState}
variable {cancel cancel' : Bool} {pathToDir dirName file : Str} {files dirs : List Str}

theorem Grows.refl (s : DiskState) : s.Grows s := ⟨List.prefix_refl _, rfl⟩

theorem Grows.trans (first : s.Grows s') (second : s'.Grows s'') : s.Grows s'' :=
  ⟨first.calls.trans second.calls, second.here.trans first.here⟩

theorem take_fo (denied : Nat → Bool) (s : DiskState) (part : Str) (directoryOnly : Bool)
    (fo : FileOperator) : (s.take denied part directoryOnly fo).1.fo = fo := by
  unfold take
  dsimp only
  split <;> rfl

theorem grows_hand {call : PathCall} {part : Str} (handed : s'.fo = s.fo.hand call part) :
    s.Grows s' ∧ (call, cString (s.fo.getCurrentWorkingDir ++ part)) ∈ s'.fo.calls := by
  rw [FileOperator.hand] at handed
  refine ⟨⟨?_, ?_⟩, ?_⟩
  · rw [handed]
    exact List.prefix_append _ _
  · rw [handed]
    rfl
  · rw [handed]
    exact List.mem_append_right _ (List.mem_singleton_self _)

theorem deleteFiles_grows (denied : Nat → Bool) (pathToDir : Str) (files : List Str)
    (now : DiskState × Bool) :
    now.1.Grows (deleteFiles denied pathToDir files now).1 ∧ ∀ file ∈ files,
      (.remove, cString (now.1.fo.getCurrentWorkingDir ++ (pathToDir ++ file))) ∈
        (deleteFiles denied pathToDir files now).1.fo.calls := by
  induction files generalizing now with
  | nil => exact ⟨.refl _, nofun⟩
  | cons f files ih =>
    obtain ⟨s, cancel⟩ := now
    have handed : (s.deleteFile denied (pathToDir ++ f)).1.fo =
        s.fo.hand .remove (pathToDir ++ f) := take_fo ..
    obtain ⟨grows, called⟩ := grows_hand handed
    obtain ⟨rest, others⟩ := ih ((s.deleteFile denied (pathToDir ++ f)).1,
      (s.deleteFile denied (pathToDir ++ f)).2 || cancel)
    refine ⟨grows.trans rest, fun file member => ?_⟩
    rcases List.mem_cons.mp member with rfl | later
    · exact rest.calls.subset called
    · have call := others file later
      rw [grows.here] at call
      exact call

theorem rmdir_grows (denied : Nat → Bool) (s : DiskState) (pathToDir : Str) :
    s.Grows (s.rmdir denied pathToDir) ∧
    (pathToDir ≠ ".".toList → pathToDir ≠ "..".toList →
      (.rmdir, cString (s.fo.getCurrentWorkingDir ++ pathToDir)) ∈
        (s.rmdir denied pathToDir).fo.calls) := by
  unfold rmdir
  split
  · rename_i dots
    exact ⟨.refl s, fun one two => (dots.elim one two).elim⟩
  · obtain ⟨grows, called⟩ := grows_hand (take_fo denied s pathToDir true
      (s.fo.hand .rmdir pathToDir))
    exact ⟨grows, fun _ _ => called⟩

theorem browse_grows (order : List DirEntry → List DirEntry) (s : DiskState) (dir : Str) :
    s.Grows { s with fo := (s.fo.browse dir false (s.listing order dir)).1 } := by
  refine ⟨?_, rfl⟩
  show s.fo.calls <+: s.fo.calls ++ _ ++ _
  rw [List.append_assoc]
  exact List.prefix_append _ _

theorem enterAll_grows {enter : DiskState → Str → Bool → Option (DiskState × Bool)}
    (each : ∀ s dir cancel now, enter s dir cancel = some now → s.Grows now.1)
    {now now' : DiskState × Bool} (done : enterAll enter dirs now = some now') :
    now.1.Grows now'.1 := by
  induction dirs generalizing now with
  | nil =>
    cases done
    exact .refl _
  | cons dir dirs ih =>
    obtain ⟨s, cancel⟩ := now
    rw [enterAll] at done
    split at done
    · exact ih done
    · obtain ⟨⟨s', result⟩, entered, rest⟩ := Option.bind_eq_some_iff.mp done
      have rest : enterAll enter dirs (s', result || cancel) = some now' := rest
      have later := ih rest
      exact (each _ _ _ _ entered).trans later

theorem deleteDirectory_cases {fuel : Nat} {now : DiskState × Bool}
    (done : deleteDirectory denied order (fuel + 1) s dirName false pathToDir = some now) :
    ∃ fo directories files after,
      s.fo.browse (pathToDir ++ FileOperator.getValidFile dirName) false
        (s.listing order (pathToDir ++ FileOperator.getValidFile dirName)) =
          (fo, some (directories, files)) ∧
      enterAll (fun s dir cancel => deleteDirectory denied order fuel s dir cancel
          (pathToDir ++ FileOperator.getValidFile dirName)) directories
        (deleteFiles denied (pathToDir ++ FileOperator.getValidFile dirName) files
          ({ s with fo := fo }, false)) = some after ∧
      now = (after.1.rmdir denied (pathToDir ++ FileOperator.getValidFile dirName), after.2) := by
  rw [deleteDirectory, if_neg Bool.false_ne_true] at done
  dsimp only at done
  split at done
  · cases done
  · rename_i fo directories files found
    obtain ⟨after, entered, rfl⟩ := Option.map_eq_some_iff.mp done
    exact ⟨fo, directories, files, after, found, entered, rfl⟩

theorem deleteDirectory_grows {fuel : Nat} {now : DiskState × Bool}
    (done : deleteDirectory denied order fuel s dirName cancel pathToDir = some now) :
    s.Grows now.1 := by
  induction fuel generalizing s dirName cancel pathToDir now with
  | zero => cases done
  | succ fuel ih =>
    cases cancel with
    | true =>
      cases done
      exact .refl s
    | false =>
      obtain ⟨fo, directories, files, after, found, entered, rfl⟩ := deleteDirectory_cases done
      have browsed := browse_grows order s (pathToDir ++ FileOperator.getValidFile dirName)
      rw [found] at browsed
      have removed := (deleteFiles_grows denied
        (pathToDir ++ FileOperator.getValidFile dirName) files ({ s with fo := fo }, false)).1
      have inner := enterAll_grows (fun _ _ _ _ entered => ih entered) entered
      exact ((browsed.trans removed).trans inner).trans (rmdir_grows denied _ _).1

theorem rmdir_called {fuel : Nat} {now : DiskState × Bool}
    (done : deleteDirectory denied order fuel s dirName false pathToDir = some now)
    (one : pathToDir ++ FileOperator.getValidFile dirName ≠ ".".toList)
    (two : pathToDir ++ FileOperator.getValidFile dirName ≠ "..".toList) :
    (.rmdir, cString (s.fo.getCurrentWorkingDir ++
      (pathToDir ++ FileOperator.getValidFile dirName))) ∈ now.1.fo.calls := by
  cases fuel with
  | zero => cases done
  | succ fuel =>
    obtain ⟨fo, directories, files, after, found, entered, rfl⟩ := deleteDirectory_cases done
    have browsed := browse_grows order s (pathToDir ++ FileOperator.getValidFile dirName)
    rw [found] at browsed
    have removed := (deleteFiles_grows denied
      (pathToDir ++ FileOperator.getValidFile dirName) files ({ s with fo := fo }, false)).1
    have inner := enterAll_grows (fun _ _ _ _ entered => deleteDirectory_grows entered) entered
    have called := (rmdir_grows denied after.1
      (pathToDir ++ FileOperator.getValidFile dirName)).2 one two
    rwa [((browsed.trans removed).trans inner).here] at called

theorem enterAll_first {enter : DiskState → Str → Bool → Option (DiskState × Bool)}
    (each : ∀ s dir cancel now, enter s dir cancel = some now → s.Grows now.1)
    {now' : DiskState × Bool} (done : enterAll enter dirs (s, cancel) = some now')
    (real : ∃ dir ∈ dirs, dir ≠ ".".toList ∧ dir ≠ "..".toList) :
    ∃ dir ∈ dirs, (dir ≠ ".".toList ∧ dir ≠ "..".toList) ∧
      ∃ now, enter s (dir ++ "/".toList) cancel = some now ∧ now.1.Grows now'.1 := by
  induction dirs with
  | nil => exact absurd real (by simp)
  | cons dir dirs ih =>
    rw [enterAll] at done
    split at done
    · rename_i dots
      obtain ⟨other, member, one, two⟩ := real
      have later : other ∈ dirs := by
        rcases List.mem_cons.mp member with rfl | later
        · exact (dots.elim one two).elim
        · exact later
      obtain ⟨dir', member', found⟩ := ih done ⟨other, later, one, two⟩
      exact ⟨dir', .tail _ member', found⟩
    · rename_i dots
      obtain ⟨⟨s', result⟩, entered, rest⟩ := Option.bind_eq_some_iff.mp done
      have rest : enterAll enter dirs (s', result || cancel) = some now' := rest
      have later := enterAll_grows each rest
      exact ⟨dir, .head _, not_or.mp dots, (s', result), entered, later⟩

theorem mem_children {disk : Disk} {p : Place} {e : DirEntry} :
    e ∈ disk.children p ↔ ⟨{ p with names := e.name :: p.names }, e.isDir⟩ ∈ disk := by
  unfold Disk.children
  rw [List.mem_filterMap]
  constructor
  · rintro ⟨⟨⟨absolute, ups, names⟩, isDir⟩, member, its⟩
    unfold Disk.entryIn at its
    split at its
    · rename_i c cs here
      obtain ⟨rfl, same⟩ := Option.ite_none_right_eq_some.mp its
      cases same
      rw [show names = c :: cs from here] at member
      exact member
    · cases its
  · intro member
    exact ⟨_, member, if_pos rfl⟩

theorem eq_of_below {disk : Disk} {p : Place} {n : FileNode} (tree : disk.IsTree)
    (empty : disk.children p = []) (member : n ∈ disk) (below : n.place.Below p) : n.place = p := by
  obtain ⟨absolute, ups, front, names⟩ := below
  induction front generalizing n with
  | nil =>
    obtain ⟨⟨a, u, ns⟩, isDir⟩ := n
    obtain rfl : a = p.absolute := absolute
    obtain rfl : u = p.ups := ups
    obtain rfl : p.names = ns := names
    rfl
  | cons c front ih =>
    obtain ⟨⟨a, u, ns⟩, isDir⟩ := n
    obtain rfl : a = p.absolute := absolute
    obtain rfl : u = p.ups := ups
    obtain rfl : c :: (front ++ p.names) = ns := names
    cases front with
    | nil =>
      -- A child of the place itself.
      have child : (⟨c, isDir⟩ : DirEntry) ∈ disk.children p := mem_children.mpr member
      exact absurd child (empty ▸ List.not_mem_nil)
    | cons c' front =>
      have parent := tree.inside _ member c c' _ rfl
      have same : (c' :: front) ++ p.names = p.names := congrArg Place.names (ih parent rfl rfl rfl)
      exact absurd (List.append_left_eq_self.mp same) (List.cons_ne_nil c' front)

variable {root : Str} {homes : List Str} {disk : Disk} {d : Str}

theorem browsed_of_plain (fo : FileOperator) (plain : PlainName d) : fo.browsed d false = d := by
  have other : d ≠ "./".toList := by
    rintro rfl
    exact plain.2.1 (by decide)
  simp only [FileOperator.browsed, other, Bool.false_eq_true, false_and, or_self, if_false]

theorem browse_found {fo : FileOperator} {directories files : List Str} (tree : s.disk.IsTree)
    (plain : PlainName d) (perm : ∀ l, (order l).Perm l)
    (found : s.fo.browse d false (s.listing order d) = (fo, some (directories, files))) :
    (∀ e ∈ s.disk.children (s.placeOf d), e.name ∈ if e.isDir then directories else files) ∧
      (∀ x ∈ files, ∃ e ∈ s.disk.children (s.placeOf d), e.name = x) ∧
      ∀ x ∈ directories, x = ".".toList ∨ x = "..".toList ∨
        ∃ e ∈ s.disk.children (s.placeOf d), e.name = x := by
  have whole := browsed_of_plain s.fo plain
  have named : ∀ e ∈ s.disk.children (s.placeOf d), PlainName e.name := fun e child =>
    tree.named _ (mem_children.mp child) _ (.head _)
  have its := congrArg Prod.snd found
  simp only [FileOperator.browse, listing, whole, if_true] at its
  split at its
  · simp only [Option.map_some, Option.some.injEq, Prod.mk.injEq] at its
    obtain ⟨rfl, rfl⟩ := its
    have inside : ∀ e : DirEntry, e ∈ order (⟨".".toList, true⟩ :: ⟨"..".toList, true⟩ ::
        s.disk.children (s.placeOf d)) ↔ e = ⟨".".toList, true⟩ ∨ e = ⟨"..".toList, true⟩ ∨
          e ∈ s.disk.children (s.placeOf d) := fun e => by
      rw [(perm _).mem_iff, List.mem_cons, List.mem_cons]
    refine ⟨fun e child => ?_, fun x member => ?_, fun x member => ?_⟩
    · have shown : e ∈ (order (⟨".".toList, true⟩ :: ⟨"..".toList, true⟩ ::
          s.disk.children (s.placeOf d))).filter
            fun e => ¬(e.name = "..".toList ∧ s.fo.completePath.length ≤ 1) := by
        refine List.mem_filter.mpr ⟨(inside e).mpr (.inr (.inr child)), decide_eq_true fun up => ?_⟩
        exact (named e child).2.2.2.2 up.1
      cases isDir : e.isDir with
      | true => exact List.mem_map.mpr ⟨e, List.mem_filter.mpr ⟨shown, isDir⟩, rfl⟩
      | false =>
        exact List.mem_map.mpr ⟨e, List.mem_filter.mpr ⟨shown, by rw [isDir]; rfl⟩, rfl⟩
    · obtain ⟨e, file, rfl⟩ := List.mem_map.mp member
      obtain ⟨shown, isFile⟩ := List.mem_filter.mp file
      rcases (inside e).mp (List.mem_filter.mp shown).1 with rfl | rfl | child
      · cases isFile
      · cases isFile
      · exact ⟨e, child, rfl⟩
    · obtain ⟨e, directory, rfl⟩ := List.mem_map.mp member
      rcases (inside e).mp (List.mem_filter.mp (List.mem_filter.mp directory).1).1 with
        rfl | rfl | child
      · exact .inl rfl
      · exact .inr (.inl rfl)
      · exact .inr (.inr ⟨e, child, rfl⟩)
  · cases its

theorem enterAll_dots {enter : DiskState → Str → Bool → Option (DiskState × Bool)}
    {now : DiskState × Bool} (dots : ∀ dir ∈ dirs, dir = ".".toList ∨ dir = "..".toList) :
    enterAll enter dirs now = some now := by
  induction dirs with
  | nil => rfl
  | cons dir dirs ih =>
    obtain ⟨s, cancel⟩ := now
    rw [enterAll, if_pos (dots dir (.head _))]
    exact ih fun other member => dots other (.tail _ member)

theorem empty_of_contained (tree : disk.IsTree) (clean : Char.ofNat 0 ∉ root ++ homes.flatten)
    (plain : PlainName d) (perm : ∀ l, (order l).Perm l)
    (contained : (start root homes disk).Contained denied order d) :
    disk.children ((start root homes disk).placeOf d) = [] := by
  obtain ⟨fuel, s', cancel, done, below, -⟩ := contained
  have slashless := FtpConnection.getValidFile_of_not_mem plain.2.1
  -- A call with a longer name ends the argument.
  have beside : ∀ call x, (call = PathCall.remove ∨ call = .rmdir) → PlainName x →
      (call, cString ((root ++ homes.flatten) ++ (d ++ x))) ∉ s'.fo.calls := by
    intro call x removes name called
    have inside := below _ called removes
    have clean' : Char.ofNat 0 ∉ (root ++ homes.flatten) ++ d := fun zero =>
      (List.mem_append.mp zero).elim clean plain.2.2.1
    have clean'' : Char.ofNat 0 ∉ (root ++ homes.flatten) ++ (d ++ x) := by
      rw [← List.append_assoc]
      exact fun zero => (List.mem_append.mp zero).elim clean' name.2.2.1
    rw [cString_of_not_mem clean''] at inside
    have at_ : (start root homes disk).placeOf d = resolve ((root ++ homes.flatten) ++ d) :=
      congrArg resolve (cString_of_not_mem clean')
    rw [at_] at inside
    exact not_below_longer plain name.1 name.2.1 inside
  by_contra some_
  obtain ⟨e, child⟩ := List.exists_mem_of_ne_nil _ some_
  cases fuel with
  | zero => cases done
  | succ fuel =>
    obtain ⟨fo, directories, files, after, found, entered, same⟩ := deleteDirectory_cases done
    simp only [List.nil_append, slashless] at found entered same
    obtain ⟨entries, fromFiles, fromDirs⟩ := browse_found tree plain perm found
    have named : ∀ e ∈ disk.children ((start root homes disk).placeOf d), PlainName e.name :=
      fun e child => tree.named _ (mem_children.mp child) _ (.head _)
    have browsed := browse_grows order (start root homes disk) d
    rw [found] at browsed
    have removed := deleteFiles_grows denied d files
      ({ start root homes disk with fo := fo }, false)
    have inner := enterAll_grows (fun _ _ _ _ entered => deleteDirectory_grows entered) entered
    have last := (rmdir_grows denied after.1 d).1
    cases same
    cases files with
    | cons file files =>
      have called := removed.2 file (.head _)
      rw [show fo.getCurrentWorkingDir = root ++ homes.flatten from browsed.here] at called
      obtain ⟨f, its, rfl⟩ := fromFiles file (.head _)
      exact beside .remove f.name (.inl rfl) (named f its) ((inner.trans last).calls.subset called)
    | nil =>
      have member := entries e child
      have name := named e child
      have isDir : e.name ∈ directories := by
        cases isDir : e.isDir with
        | true => rwa [isDir, if_pos rfl] at member
        | false =>
          rw [isDir, if_neg Bool.false_ne_true] at member
          exact absurd member List.not_mem_nil
      obtain ⟨dir, inside, dots, now, went, rest⟩ := enterAll_first
        (fun _ _ _ _ entered => deleteDirectory_grows entered) entered
        ⟨e.name, isDir, name.2.2.2.1, name.2.2.2.2⟩
      have plainDir : PlainName dir := by
        rcases fromDirs dir inside with one | two | ⟨f, its, rfl⟩
        · exact absurd one dots.1
        · exact absurd two dots.2
        · exact named f its
      have valid : FileOperator.getValidFile (dir ++ "/".toList) = dir := by
        rw [FtpConnection.getValidFile_slash, FtpConnection.getValidFile_of_not_mem plainDir.2.1]
      obtain ⟨one, two⟩ := not_dots d plainDir.1 dots.1 dots.2
      have called := rmdir_called went (by rw [valid]; exact one) (by rw [valid]; exact two)
      rw [valid, show fo.getCurrentWorkingDir = root ++ homes.flatten from browsed.here] at called
      exact beside .rmdir dir (.inr rfl) plainDir ((rest.trans last).calls.subset called)

theorem contained_of_empty (tree : disk.IsTree) (plain : PlainName d)
    (perm : ∀ l, (order l).Perm l) (there : ⟨(start root homes disk).placeOf d, true⟩ ∈ disk)
    (empty : disk.children ((start root homes disk).placeOf d) = []) :
    (start root homes disk).Contained denied order d := by
  have slashless := FtpConnection.getValidFile_of_not_mem plain.2.1
  have whole : (start root homes disk).fo.browsed d false = d := browsed_of_plain _ plain
  obtain ⟨directories, files, found⟩ : ∃ directories files,
      (start root homes disk).fo.browse d false ((start root homes disk).listing order d) =
        ((start root homes disk).fo.dirCanBeOpened.hand .opendir d, some (directories, files)) := by
    simp only [FileOperator.browse, listing, whole, if_true]
    rw [if_pos (show _ ∈ (start root homes disk).disk from there)]
    exact ⟨_, _, rfl⟩
  obtain ⟨-, fromFiles, fromDirs⟩ := browse_found tree plain perm found
  have noFiles : files = [] := by
    refine List.eq_nil_iff_forall_not_mem.mpr fun x member => ?_
    obtain ⟨e, child, -⟩ := fromFiles x member
    exact absurd child (empty ▸ List.not_mem_nil)
  have dots : ∀ dir ∈ directories, dir = ".".toList ∨ dir = "..".toList := by
    intro dir member
    rcases fromDirs dir member with one | two | ⟨e, child, -⟩
    · exact .inl one
    · exact .inr two
    · exact absurd child (empty ▸ List.not_mem_nil)
  subst noFiles
  refine ⟨1, DiskState.rmdir denied { start root homes disk with
    fo := (start root homes disk).fo.dirCanBeOpened.hand .opendir d } d, false, ?_, ?_, ?_⟩
  · rw [deleteDirectory, if_neg Bool.false_ne_true]
    simp only [List.nil_append, slashless, found, enterAll_dots dots, deleteFiles, Option.map_some]
  · intro call called removes
    rw [DiskState.rmdir, if_neg (not_or.mpr ⟨plain.2.2.2.1, plain.2.2.2.2⟩), take_fo] at called
    simp only [FileOperator.hand, FileOperator.dirCanBeOpened, start, List.nil_append,
      List.cons_append, List.mem_cons, List.not_mem_nil, or_false] at called
    rcases called with rfl | rfl | rfl
    · rcases removes with removes | removes <;> cases removes
    · rcases removes with removes | removes <;> cases removes
    · exact .refl _
  · intro succeeded
    rw [DiskState.rmdir, if_neg (not_or.mpr ⟨plain.2.2.2.1, plain.2.2.2.2⟩)] at succeeded ⊢
    unfold take at succeeded ⊢
    dsimp only at succeeded ⊢
    split at succeeded
    · rename_i taken
      rw [if_pos taken]
      refine List.filter_congr fun n member => decide_eq_decide.mpr (not_congr ?_)
      refine ⟨fun same => ?_, eq_of_below tree empty member⟩
      rw [same]
      exact .refl _
    · cases succeeded

/-- `deleteDirectory` keeps to a directory, and deletes the whole of it, exactly when the directory
is empty. -/
theorem contained_iff_empty (tree : disk.IsTree) (clean : Char.ofNat 0 ∉ root ++ homes.flatten)
    (plain : PlainName d) (perm : ∀ l, (order l).Perm l)
    (there : ⟨(start root homes disk).placeOf d, true⟩ ∈ disk) :
    (start root homes disk).Contained denied order d ↔
      disk.children ((start root homes disk).placeOf d) = [] :=
  ⟨empty_of_contained tree clean plain perm, contained_of_empty tree plain perm there⟩

private def twoFiles : Disk :=
  [⟨⟨false, 0, ["a".toList]⟩, true⟩, ⟨⟨false, 0, ["f".toList, "a".toList]⟩, false⟩,
    ⟨⟨false, 0, ["af".toList]⟩, false⟩]

private theorem twoFiles_isTree : Disk.IsTree twoFiles where
  named := by decide +kernel
  inside n member c c' cs here := by
    simp only [twoFiles, List.mem_cons, List.not_mem_nil, or_false] at member
    rcases member with rfl | rfl | rfl
    all_goals
      cases here
    exact .head _

theorem sibling_deleted :
    ((deleteDirectory (fun _ => false) id 2 (start "./".toList [] twoFiles) "a".toList false []).map
      fun now => (now.1.fo.calls.map Prod.snd, now.1.disk.map (·.place.names))) =
        some (["./page/".toList, "./a".toList, "./af".toList, "./a".toList],
          [["a".toList], ["f".toList, "a".toList]]) ∧
      ¬ (start "./".toList [] twoFiles).Contained (fun _ => false) id "a".toList := by
  refine ⟨by decide +kernel, fun contained => ?_⟩
  have empty := empty_of_contained twoFiles_isTree (by decide +kernel) (by decide +kernel)
    (fun _ => .refl _) contained
  revert empty
  decide +kernel

/-- A directory `a` with nothing in it, and a file `af` beside it. -/
private def oneFile : Disk :=
  [⟨⟨false, 0, ["a".toList]⟩, true⟩, ⟨⟨false, 0, ["af".toList]⟩, false⟩]

theorem contained_empty_directory :
    (start "./".toList [] oneFile).Contained (fun _ => false) id "a".toList := by
  have tree : Disk.IsTree oneFile := by
    refine ⟨by decide +kernel, fun n member c c' cs here => ?_⟩
    simp only [oneFile, List.mem_cons, List.not_mem_nil, or_false] at member
    rcases member with rfl | rfl <;> cases here
  exact (contained_iff_empty tree (by decide +kernel) (by decide +kernel) (fun _ => .refl _)
    (by decide +kernel)).mpr (by decide +kernel)

end DiskState

end ProjectsCpp.WebServer
