import ProjectsCpp.WebServer.FtpSession

/-! Which paths an FTP session hands to the system: what stands behind the root is put together from
the directories that `cd` took and the parameter, as they are. -/

namespace ProjectsCpp.WebServer
open ProjectsCpp.Run ProjectsCpp.Paths
open ProjectsCpp.Text (Str fields)

namespace FileOperator

/-- The working directory without the root. -/
def behindRoot (fo : FileOperator) : Str := fo.completePath.tail.flatten

def depth (fo : FileOperator) : Nat := depthFrom 0 (fields '/' fo.behindRoot)

/-- The parameter climbs at most as far as the working directory is deep; behind a NUL byte of the
working directory the system does not read it. -/
def Fits (fo : FileOperator) (part : Str) : Prop :=
  Char.ofNat 0 ∈ fo.behindRoot ∨ staysFrom fo.depth (fields '/' (cString part)) = true

instance (fo : FileOperator) (part : Str) : Decidable (fo.Fits part) :=
  inferInstanceAs (Decidable (_ ∨ _))

/-- The form that the comment of `getValidDir` gives, `subdir/`. -/
def Ended (dir : Str) : Prop := Char.ofNat 0 ∈ dir ∨ dir.getLast? = some '/'

instance (dir : Str) : Decidable (Ended dir) := inferInstanceAs (Decidable (_ ∨ _))

/-- A directory that `cd` may take: a spelling that `changeDir` compares with, or one that fits and
goes on behind a slash. -/
def Leads (fo : FileOperator) (newPath : Str) : Prop :=
  newPath ∈ ["..".toList, "../".toList, ".".toList, "./".toList] ∨
    fo.Fits newPath ∧ (Char.ofNat 0 ∈ fo.behindRoot ∨ newPath = [] ∨ Ended newPath)

instance (fo : FileOperator) (newPath : Str) : Decidable (fo.Leads newPath) :=
  inferInstanceAs (Decidable (_ ∨ _ ∧ (_ ∨ _ ∨ _)))

/-- `fo'` has the calls of `fo`, probes, and calls with one of the parts. -/
structure Hands (fo fo' : FileOperator) (parts : List Str) : Prop where
  root : fo'.root = fo.root
  calls : ∀ call ∈ fo'.calls, call ∈ fo.calls ∨ call.1 = .probe ∨
    ∃ part ∈ parts, call.2 = cString (fo.getCurrentWorkingDir ++ part)

variable {fo fo' : FileOperator} {parts : List Str} {part dir : Str} {call : PathCall}

theorem Hands.refl (fo : FileOperator) (parts : List Str) : fo.Hands fo parts :=
  ⟨rfl, fun _ its => .inl its⟩

theorem hands_hand (fo : FileOperator) (call : PathCall) (part : Str) :
    fo.Hands (fo.hand call part) [part] := by
  refine ⟨rfl, fun c its => ?_⟩
  rcases List.mem_append.mp its with before | last
  · exact .inl before
  · obtain rfl := List.mem_singleton.mp last
    exact .inr (.inr ⟨part, List.mem_singleton_self part, rfl⟩)

theorem hands_dirCanBeOpened (fo : FileOperator) (parts : List Str) :
    fo.Hands fo.dirCanBeOpened parts := by
  refine ⟨rfl, fun c its => ?_⟩
  rcases List.mem_append.mp its with before | last
  · exact .inl before
  · obtain rfl := List.mem_singleton.mp last
    exact .inr (.inl rfl)

theorem hands_changeDir (fo : FileOperator) (newPath : Str) (page : Bool) :
    fo.Hands (fo.changeDir newPath page) [] := by
  unfold changeDir
  split_ifs
  · exact .refl fo []
  · exact ⟨rfl, fun _ its => .inl its⟩
  · exact .refl fo []
  · exact ⟨rfl, (hands_dirCanBeOpened fo []).calls⟩
  · exact hands_dirCanBeOpened fo []

theorem hands_browse (fo : FileOperator) (dir : Str) (strict : Bool) (listing : Listing) :
    fo.Hands (fo.browse dir strict listing).1
      (if listing.page then [fo.browsed dir strict] else []) := by
  unfold browse
  split
  · refine ⟨rfl, fun c its => ?_⟩
    rcases (hands_hand fo.dirCanBeOpened .opendir (fo.browsed dir strict)).calls c its with
      before | probe | handed
    · exact (hands_dirCanBeOpened fo _).calls c before
    · exact .inr (.inl probe)
    · exact .inr (.inr handed)
  · exact hands_dirCanBeOpened fo []

end FileOperator

namespace FtpConnection

def commandParts (s : FtpConnection) (page : Bool) : FtpCommand → List Str
  | .ls dir => if page then [s.fo.browsed dir true] else []
  | .download file | .upload file => [file]
  | .mkdir dir => if dir = "../".toList ∧ s.fo.completePath.length ≤ 1 then [] else [dir]
  | .rmdir dir =>
    if page ∧ ¬s.fo.dirIsBelowServerRoot dir then
      [s.fo.browsed (FileOperator.getValidFile dir) false]
    else []
  | .touch file => [FileOperator.getValidFile file]
  | .cd _ | .quit | .other => []

def parts (s : FtpConnection) : FtpStep → List Str
  | .command text listing _ =>
    (commandOf (extractParameters s.commandOffset text)).elim [] (s.commandParts listing.page)
  | .removeFile _ =>
    match s.deletions with
    | ⟨pathToDir, file :: _, _, _⟩ :: _ => [pathToDir ++ file]
    | _ => []
  | .enter listing =>
    match s.deletions with
    | ⟨pathToDir, [], directory :: _, cancel⟩ :: _ =>
      if (directory = ".".toList ∨ directory = "..".toList ∨ cancel) ∨ ¬listing.page then []
      else [s.fo.browsed (pathToDir ++ FileOperator.getValidFile directory) false]
    | _ => []
  | .leave =>
    match s.deletions with
    | ⟨pathToDir, [], [], _⟩ :: _ =>
      if pathToDir = ".".toList ∨ pathToDir = "..".toList then [] else [pathToDir]
    | _ => []
  | .data _ | .hangUp => []

variable {s s' : FtpConnection} {a : FtpStep} {listing : Listing} {opened : Bool}

theorem getValidFile_slash (directory : Str) :
    FileOperator.getValidFile (directory ++ "/".toList) = FileOperator.getValidFile directory := by
  rw [FileOperator.getValidFile, List.filter_append]
  exact List.append_nil _

theorem hands_deleteDirectory (s : FtpConnection) (dirName pathToDir : Str) (listing : Listing) :
    s.fo.Hands (s.deleteDirectory dirName pathToDir listing).fo
      (if listing.page then [s.fo.browsed (pathToDir ++ FileOperator.getValidFile dirName) false]
      else []) := by
  have browse := FileOperator.hands_browse s.fo (pathToDir ++ FileOperator.getValidFile dirName) false
    listing
  rcases found : s.fo.browse (pathToDir ++ FileOperator.getValidFile dirName) false listing with
    ⟨fo, _ | these⟩ <;> simpa only [deleteDirectory, found] using browse

theorem hands_perform (s : FtpConnection) (listing : Listing) (opened : Bool) (command : FtpCommand) :
    s.fo.Hands (s.perform listing opened command).fo (s.commandParts listing.page command) := by
  cases command with
  | ls dir =>
    have browse := FileOperator.hands_browse s.fo dir true listing
    rcases found : s.fo.browse dir true listing with ⟨fo, _ | these⟩ <;>
      simpa only [perform, commandParts, found] using browse
  | download file => exact FileOperator.hands_hand s.fo .openFile file
  | upload file => exact FileOperator.hands_hand s.fo .openFile file
  | cd dir => exact FileOperator.hands_changeDir s.fo dir listing.page
  | mkdir dir =>
    unfold perform FileOperator.createDirectory commandParts
    dsimp only
    split
    · exact .refl s.fo []
    · exact FileOperator.hands_hand s.fo .mkdir dir
  | rmdir dir =>
    unfold perform commandParts
    dsimp only
    split
    · exact .refl s.fo _
    · rename_i inside
      have delete := hands_deleteDirectory s dir [] listing
      simpa only [inside, Bool.false_eq_true, not_false_eq_true, and_true, List.nil_append] using delete
  | touch file => exact FileOperator.hands_hand s.fo .openFile _
  | quit => exact .refl s.fo []
  | other => exact .refl s.fo []

theorem step_hands (next : step s a = some s') : s.fo.Hands s'.fo (s.parts a) := by
  cases a with
  | command text listing opened =>
    obtain ⟨-, ran⟩ := Option.ite_none_right_eq_some.mp next
    obtain ⟨command, its, rfl⟩ := Option.map_eq_some_iff.mp ran
    rw [parts, its]
    exact hands_perform s listing opened command
  | data text =>
    obtain ⟨-, ran⟩ := Option.ite_none_right_eq_some.mp next
    obtain rfl := Option.some.inj ran
    split_ifs <;> exact .refl s.fo []
  | hangUp =>
    obtain ⟨-, ran⟩ := Option.ite_none_right_eq_some.mp next
    exact Option.some.inj ran ▸ .refl s.fo []
  | removeFile deleted =>
    simp only [step] at next
    split at next
    · rename_i deletions
      rw [parts, deletions]
      exact Option.some.inj next ▸ FileOperator.hands_hand s.fo .remove _
    · cases next
  | enter listing =>
    simp only [step] at next
    split at next
    · rename_i pathToDir directory directories cancel rest deletions
      obtain rfl := Option.some.inj next
      simp only [parts, deletions]
      by_cases skip : directory = ".".toList ∨ directory = "..".toList ∨ cancel
      · rw [if_pos skip]
        exact .refl s.fo _
      · have delete := hands_deleteDirectory
          { s with deletions := ⟨pathToDir, [], directories, cancel⟩ :: rest }
          (directory ++ "/".toList) pathToDir listing
        rw [getValidFile_slash] at delete
        simpa only [skip, if_false, false_or, ite_not] using delete
    · cases next
  | leave =>
    simp only [step] at next
    split at next
    · rename_i deletions
      obtain rfl := Option.some.inj next
      simp only [parts, deletions]
      split
      · exact .refl s.fo []
      · exact FileOperator.hands_hand s.fo .rmdir _
    · cases next

/-! ### Where the working directory leads -/

end FtpConnection

theorem cString_of_mem {w : Str} (part : Str) (nul : Char.ofNat 0 ∈ w) :
    cString (w ++ part) = cString w := by
  rw [cString, cString, List.takeWhile_append, if_neg]
  intro whole
  have prefix_ : w.takeWhile (· ≠ Char.ofNat 0) = w :=
    (List.takeWhile_prefix _).eq_of_length whole
  have kept := List.takeWhile_eq_self_iff.mp prefix_ _ nul
  exact of_decide_eq_true kept rfl

theorem cString_of_not_mem {w : Str} (part : Str) (clean : Char.ofNat 0 ∉ w) :
    cString (w ++ part) = w ++ cString part :=
  List.takeWhile_append_of_pos fun _ member => decide_eq_true fun nul => clean (nul ▸ member)

theorem cString_eq_self {w : Str} (clean : Char.ofNat 0 ∉ w) : cString w = w :=
  List.takeWhile_eq_self_iff.mpr fun _ member => decide_eq_true fun nul => clean (nul ▸ member)

namespace FileOperator
variable {fo fo' : FileOperator} {w part newPath : Str}

/-- A working directory below the root: it does not climb above it, and the next component begins
behind a slash. -/
def Seated (w : Str) : Prop := Stays (cString w) ∧ (w = [] ∨ Ended w)

theorem seated_nil : Seated [] := ⟨rfl, .inl rfl⟩

theorem stays_append (seated : Seated w)
    (fits : Char.ofNat 0 ∈ w ∨
      staysFrom (depthFrom 0 (fields '/' w)) (fields '/' (cString part)) = true) :
    Stays (cString (w ++ part)) := by
  obtain ⟨stays, closed⟩ := seated
  by_cases nul : Char.ofNat 0 ∈ w
  · rw [cString_of_mem part nul]
    exact stays
  · rw [cString_eq_self nul] at stays
    have components : fields '/' (w ++ cString part) = fields '/' w ++ fields '/' (cString part) := by
      rcases closed with rfl | inside | last
      · rfl
      · exact absurd inside nul
      · exact fields_of_joins (.inr (.inl last))
    rw [cString_of_not_mem part nul, Stays, components, staysFrom_append, Bool.and_eq_true]
    exact ⟨stays, fits.resolve_left nul⟩

/-- The path begins with the root, and every directory on it is seated. -/
structure Kept (fo : FileOperator) : Prop where
  path : ∃ dirs, fo.completePath = fo.root :: dirs
  seated : ∀ dirs, fo.root :: dirs <+: fo.completePath → Seated dirs.flatten

theorem kept_new (dir : Str) : (new dir).Kept := by
  refine ⟨⟨[], rfl⟩, fun dirs front => ?_⟩
  have last := (List.cons_prefix_cons.mp front).2
  rw [List.prefix_nil.mp last]
  exact seated_nil

theorem Kept.congr (kept : fo.Kept) (root : fo'.root = fo.root)
    (path : fo'.completePath = fo.completePath) : fo'.Kept := by
  constructor
  · rw [path, root]
    exact kept.path
  · rw [path, root]
    exact kept.seated

theorem Kept.here (kept : fo.Kept) : Seated fo.behindRoot := by
  obtain ⟨dirs, path⟩ := kept.path
  have whole : fo.root :: dirs <+: fo.completePath := path ▸ List.prefix_refl _
  rw [behindRoot, path]
  exact kept.seated dirs whole

theorem Kept.changeDir (kept : fo.Kept) {page : Bool} (leads : page → fo.Leads newPath) :
    (fo.changeDir newPath page).Kept := by
  obtain ⟨dirs, path⟩ := kept.path
  rw [FileOperator.changeDir]
  split
  · split
    · exact kept
    · -- The root stays, and what is before the last directory was on the path already.
      rename_i deep
      cases dirs with
      | nil => exact absurd (path ▸ le_refl 1) deep
      | cons d ds =>
        refine ⟨⟨(d :: ds).dropLast, ?_⟩, fun front before => ?_⟩
        · show fo.completePath.dropLast = _
          rw [path]
          rfl
        · exact kept.seated front (before.trans (List.dropLast_prefix _))
  · split
    · exact kept
    · rename_i up same
      split
      · rename_i opened
        refine ⟨⟨dirs ++ [newPath], ?_⟩, fun front before => ?_⟩
        · show fo.completePath ++ [newPath] = _
          rw [path]
          rfl
        · have before : fo.root :: front <+: fo.completePath ++ [newPath] := before
          rcases List.prefix_concat_iff.mp before with whole | earlier
          · rw [path, List.cons_append, List.cons.injEq] at whole
            have behind : fo.behindRoot = dirs.flatten := by rw [behindRoot, path]; rfl
            have new : fo.Fits newPath ∧
                (Char.ofNat 0 ∈ fo.behindRoot ∨ newPath = [] ∨ Ended newPath) := by
              refine (leads opened).resolve_left fun caught => ?_
              simp only [List.mem_cons, List.not_mem_nil, or_false] at caught
              tauto
            have here := kept.here
            rw [whole.2, List.flatten_append, List.flatten_singleton, ← behind]
            refine ⟨stays_append here new.1, ?_⟩
            rcases new.2 with nul | rfl | nul | last
            · exact .inr (.inl (List.mem_append_left _ nul))
            · rw [List.append_nil]
              exact here.2
            · exact .inr (.inl (List.mem_append_right _ nul))
            · refine .inr (.inr ?_)
              rw [List.getLast?_append, last]
              rfl
          · exact kept.seated front earlier
      · exact kept.congr rfl rfl

theorem below_of_fits (ended : Ended fo.root) (kept : fo.Kept) (fits : fo.Fits part) :
    (resolve (cString (fo.getCurrentWorkingDir ++ part))).Below (resolve (cString fo.root)) := by
  obtain ⟨dirs, path⟩ := kept.path
  have behind : fo.behindRoot = dirs.flatten := by rw [behindRoot, path]; rfl
  have whole : fo.getCurrentWorkingDir ++ part = fo.root ++ (fo.behindRoot ++ part) := by
    rw [getCurrentWorkingDir, path, behind, List.flatten_cons, List.append_assoc]
  rw [whole]
  by_cases nul : Char.ofNat 0 ∈ fo.root
  · -- The system takes no more than the beginning of the root.
    rw [cString_of_mem _ nul]
    exact .refl _
  · rw [cString_of_not_mem _ nul, cString_eq_self nul]
    exact resolve_below (.inr (.inl (ended.resolve_left nul))) (stays_append kept.here fits)

/-- A name that `readdir` finds, put behind a part without a slash, climbs nowhere. -/
theorem Fits.glue {name : Str} (fits : fo.Fits part) (slashless : '/' ∉ part ++ name)
    (some : name ≠ []) (clean : Char.ofNat 0 ∉ name) (one : name ≠ ".".toList)
    (two : name ≠ "..".toList) : fo.Fits (part ++ name) := by
  refine fits.imp_right fun stays => ?_
  by_cases nul : Char.ofNat 0 ∈ part
  · rw [cString_of_mem name nul]
    exact stays
  · have some' : part ++ name ≠ [] := fun none => some (List.append_eq_nil_iff.mp none).2
    rw [cString_of_not_mem name nul, cString_eq_self clean, Text.fields_clean some' slashless]
    refine staysFrom_singleton fun up => ?_
    rcases List.append_eq_cons_iff.mp up with ⟨-, whole⟩ | ⟨rest, -, whole⟩
    · exact two whole
    · rcases List.append_eq_cons_iff.mp whole.symm with ⟨-, last⟩ | ⟨rest', -, last⟩
      · exact one last
      · exact some (List.append_eq_nil_iff.mp last.symm).2

end FileOperator

/-! ### What a session hands on -/

/-- A name of `readdir`: a component, and neither `.` nor `..` if it is not a directory. -/
def DirEntry.Regular (e : DirEntry) : Prop :=
  e.name ≠ [] ∧ '/' ∉ e.name ∧ Char.ofNat 0 ∉ e.name ∧
    (e.isDir ∨ e.name ≠ ".".toList ∧ e.name ≠ "..".toList)

instance (e : DirEntry) : Decidable e.Regular := inferInstanceAs (Decidable (_ ∧ _ ∧ _ ∧ (_ ∨ _ ∧ _)))

def Listing.Regular (listing : Listing) : Prop :=
  ∀ entries ∈ listing.entries, ∀ e ∈ entries, e.Regular

instance (listing : Listing) : Decidable listing.Regular :=
  inferInstanceAs (Decidable (∀ _ ∈ _, ∀ _ ∈ _, _))

/-- What a command may ask for. The spelling that the checks of the root compare with is free. -/
def FileOperator.Allows (fo : FileOperator) (listing : Listing) : FtpCommand → Prop
  | .cd dir => listing.page → fo.Leads dir
  | .ls dir => listing.page → fo.dirIsBelowServerRoot dir ∨ fo.Fits dir
  | .mkdir dir => fo.dirIsBelowServerRoot dir ∨ fo.Fits dir
  | .rmdir dir =>
    fo.dirIsBelowServerRoot dir ∨ fo.Fits (FileOperator.getValidFile dir) ∧ listing.Regular
  | .download file | .upload file => fo.Fits file
  | .touch file => fo.Fits (FileOperator.getValidFile file)
  | .quit | .other => True

instance (fo : FileOperator) (listing : Listing) (command : FtpCommand) :
    Decidable (fo.Allows listing command) := by
  cases command <;> (unfold FileOperator.Allows; infer_instance)

/-- The root ends with a slash, a command asks for what it may, and `readdir` finds names. -/
def FtpConnection.Careful (s : FtpConnection) : FtpStep → Prop
  | .command text listing _ =>
    FileOperator.Ended s.fo.root ∧
      ∀ command ∈ commandOf (extractParameters s.commandOffset text), s.fo.Allows listing command
  | .enter listing => FileOperator.Ended s.fo.root ∧ listing.Regular
  | .data _ | .hangUp | .removeFile _ | .leave => FileOperator.Ended s.fo.root

instance (s : FtpConnection) (a : FtpStep) : Decidable (s.Careful a) := by
  cases a <;> (unfold FtpConnection.Careful; infer_instance)

namespace FileOperator
variable {fo fo' : FileOperator} {dir : Str} {strict : Bool} {listing : Listing}
variable {directories files : List Str}

theorem Fits.congr {part : Str} (fits : fo.Fits part) (path : fo'.completePath = fo.completePath) :
    fo'.Fits part := by
  rw [Fits, depth, behindRoot, path]
  exact fits

theorem fits_browsed (fits : strict ∧ fo.dirIsBelowServerRoot dir ∨ fo.Fits dir) :
    fo.Fits (fo.browsed dir strict) := by
  rw [browsed]
  split
  · exact .inr rfl
  · rename_i free
    refine fits.resolve_left fun caught => free (.inr ⟨caught.1, ?_⟩)
    obtain ⟨same, top⟩ := of_decide_eq_true caught.2
    exact ⟨same, Nat.le_of_lt_succ top⟩

theorem browse_path (fo : FileOperator) (dir : Str) (strict : Bool) (listing : Listing) :
    (fo.browse dir strict listing).1.root = fo.root ∧
      (fo.browse dir strict listing).1.completePath = fo.completePath := by
  rw [browse]
  split <;> exact ⟨rfl, rfl⟩

theorem browse_regular (regular : listing.Regular)
    (found : (fo.browse dir strict listing).2 = some (directories, files)) :
    (∀ x ∈ directories, x ≠ [] ∧ '/' ∉ x ∧ Char.ofNat 0 ∉ x) ∧
      ∀ x ∈ files, (x ≠ [] ∧ '/' ∉ x ∧ Char.ofNat 0 ∉ x) ∧ x ≠ ".".toList ∧ x ≠ "..".toList := by
  rw [browse] at found
  split at found
  · obtain ⟨entries, listed, its⟩ := Option.map_eq_some_iff.mp found
    obtain ⟨rfl, rfl⟩ := Prod.mk.inj its
    have entry : ∀ e ∈ entries, e.Regular := regular entries listed
    constructor
    · intro x member
      obtain ⟨e, shown, rfl⟩ := List.mem_map.mp member
      obtain ⟨some, slashless, clean, -⟩ :=
        entry e (List.mem_filter.mp (List.mem_filter.mp shown).1).1
      exact ⟨some, slashless, clean⟩
    · intro x member
      obtain ⟨e, shown, rfl⟩ := List.mem_map.mp member
      obtain ⟨its, file⟩ := List.mem_filter.mp shown
      obtain ⟨some, slashless, clean, dots⟩ := entry e (List.mem_filter.mp its).1
      exact ⟨⟨some, slashless, clean⟩, dots.resolve_left (of_decide_eq_true file)⟩
  · cases found
    exact ⟨fun x none => absurd none (List.not_mem_nil), fun x none => absurd none (List.not_mem_nil)⟩

end FileOperator

/-- A deletion below the working directory: its path is one component, which a name can lengthen. -/
structure Deletion.Inside (fo : FileOperator) (d : Deletion) : Prop where
  slashless : '/' ∉ d.pathToDir
  fits : fo.Fits d.pathToDir
  directories : ∀ x ∈ d.directories, x ≠ [] ∧ '/' ∉ x ∧ Char.ofNat 0 ∉ x
  files : ∀ x ∈ d.files, (x ≠ [] ∧ '/' ∉ x ∧ Char.ofNat 0 ∉ x) ∧ x ≠ ".".toList ∧ x ≠ "..".toList

theorem Deletion.Inside.congr {fo fo' : FileOperator} {d : Deletion} (inside : d.Inside fo)
    (path : fo'.completePath = fo.completePath) : d.Inside fo' :=
  ⟨inside.slashless, inside.fits.congr path, inside.directories, inside.files⟩

namespace FtpConnection
variable {s s' : FtpConnection} {a : FtpStep} {listing : Listing} {opened : Bool}
variable {pathToDir dirName directory file : Str}

/-- The working directory and everything to be deleted in it are below the root. -/
structure Anchored (s : FtpConnection) : Prop where
  kept : s.fo.Kept
  deletions : ∀ d ∈ s.deletions, d.Inside s.fo

theorem anchored_start (dir : Str) (commandOffset : Nat) : (start dir commandOffset).Anchored :=
  ⟨FileOperator.kept_new dir, fun _ none => absurd none (List.not_mem_nil)⟩

theorem Anchored.congr (anchored : s.Anchored) (root : s'.fo.root = s.fo.root)
    (path : s'.fo.completePath = s.fo.completePath)
    (deletions : ∀ d ∈ s'.deletions, d.Inside s.fo) : s'.Anchored :=
  ⟨anchored.kept.congr root path, fun d member => (deletions d member).congr path⟩

theorem Anchored.innermost {d : Deletion} {rest : List Deletion} (anchored : s.Anchored)
    (deletions : s.deletions = d :: rest) : d.Inside s.fo ∧ ∀ d' ∈ rest, d'.Inside s.fo := by
  have all := anchored.deletions
  rw [deletions] at all
  exact ⟨all d (.head _), fun d' member => all d' (.tail _ member)⟩

theorem slash_not_mem_getValidFile (name : Str) : '/' ∉ FileOperator.getValidFile name := by
  intro member
  exact of_decide_eq_true (List.mem_filter.mp member).2 rfl

theorem getValidFile_of_not_mem (slashless : '/' ∉ file) : FileOperator.getValidFile file = file :=
  List.filter_eq_self.mpr fun _ member => decide_eq_true fun slash => slashless (slash ▸ member)

theorem Anchored.deleteDirectory (anchored : s.Anchored) (slashless : '/' ∉ pathToDir)
    (fits : s.fo.Fits (pathToDir ++ FileOperator.getValidFile dirName)) (regular : listing.Regular) :
    (s.deleteDirectory dirName pathToDir listing).Anchored := by
  obtain ⟨root, path⟩ := FileOperator.browse_path s.fo
    (pathToDir ++ FileOperator.getValidFile dirName) false listing
  rcases found : s.fo.browse (pathToDir ++ FileOperator.getValidFile dirName) false listing with
    ⟨fo, _ | ⟨directories, files⟩⟩
  · rw [found] at root path
    rw [FtpConnection.deleteDirectory, found]
    exact anchored.congr root path fun d none => absurd none (List.not_mem_nil)
  · have names := FileOperator.browse_regular regular (congrArg Prod.snd found)
    rw [found] at root path
    rw [FtpConnection.deleteDirectory, found]
    refine anchored.congr root path fun d member => ?_
    rcases List.mem_cons.mp member with rfl | before
    · refine ⟨fun slash => ?_, fits, names.1, names.2⟩
      exact (List.mem_append.mp slash).elim slashless (slash_not_mem_getValidFile dirName)
    · exact anchored.deletions d before

theorem Anchored.perform {command : FtpCommand} (anchored : s.Anchored) (idle : s.deletions = [])
    (allows : s.fo.Allows listing command) : (s.perform listing opened command).Anchored := by
  have nothing : ∀ d ∈ s.deletions, d.Inside s.fo := anchored.deletions
  cases command with
  | ls dir =>
    obtain ⟨root, path⟩ := FileOperator.browse_path s.fo dir true listing
    rcases found : s.fo.browse dir true listing with ⟨fo, _ | these⟩ <;>
      (rw [found] at root path; rw [FtpConnection.perform, found]
       exact anchored.congr root path nothing)
  | cd dir =>
    refine ⟨anchored.kept.changeDir allows, fun d member => ?_⟩
    have member' : d ∈ s.deletions := member
    rw [idle] at member'
    exact absurd member' (List.not_mem_nil)
  | mkdir dir =>
    refine anchored.congr ?_ ?_ nothing <;>
      (rw [FtpConnection.perform, FileOperator.createDirectory]; split <;> rfl)
  | rmdir dir =>
    rw [FtpConnection.perform]
    split
    · exact anchored
    · rename_i free
      obtain ⟨fits, regular⟩ := allows.resolve_left free
      exact anchored.deleteDirectory List.not_mem_nil fits regular
  | download file => exact anchored.congr rfl rfl nothing
  | upload file => exact anchored.congr rfl rfl nothing
  | touch file => exact anchored.congr rfl rfl nothing
  | quit => exact anchored.congr rfl rfl nothing
  | other => exact anchored

theorem fits_entered (anchored : s.Anchored) {directories : List Str} {cancel : Bool}
    {rest : List Deletion}
    (deletions : s.deletions = ⟨pathToDir, [], directory :: directories, cancel⟩ :: rest)
    (skip : ¬(directory = ".".toList ∨ directory = "..".toList ∨ cancel)) :
    '/' ∉ pathToDir ∧ s.fo.Fits (pathToDir ++ FileOperator.getValidFile directory) := by
  have inside := (anchored.innermost deletions).1
  obtain ⟨some, slashless, clean⟩ := inside.directories directory (.head _)
  have whole : '/' ∉ pathToDir ++ directory := fun slash =>
    (List.mem_append.mp slash).elim inside.slashless slashless
  rw [getValidFile_of_not_mem slashless]
  exact ⟨inside.slashless, inside.fits.glue whole some clean (fun one => skip (.inl one))
    fun two => skip (.inr (.inl two))⟩

theorem Anchored.step (anchored : s.Anchored) (careful : s.Careful a) (next : step s a = some s') :
    s'.Anchored := by
  cases a with
  | command text listing opened =>
    obtain ⟨free, ran⟩ := Option.ite_none_right_eq_some.mp next
    obtain ⟨command, its, rfl⟩ := Option.map_eq_some_iff.mp ran
    exact anchored.perform free.2 (careful.2 command its)
  | data text =>
    obtain ⟨-, ran⟩ := Option.ite_none_right_eq_some.mp next
    obtain rfl := Option.some.inj ran
    split_ifs <;> exact anchored.congr rfl rfl anchored.deletions
  | hangUp =>
    obtain ⟨-, ran⟩ := Option.ite_none_right_eq_some.mp next
    obtain rfl := Option.some.inj ran
    exact anchored.congr rfl rfl anchored.deletions
  | removeFile deleted =>
    simp only [FtpConnection.step] at next
    split at next
    · rename_i pathToDir file files directories cancel rest deletions
      obtain rfl := Option.some.inj next
      obtain ⟨inside, outer⟩ := anchored.innermost deletions
      refine anchored.congr rfl rfl fun d member => ?_
      rcases List.mem_cons.mp member with rfl | before
      · exact ⟨inside.slashless, inside.fits, inside.directories,
          fun x member => inside.files x (.tail _ member)⟩
      · exact outer d before
    · cases next
  | enter listing =>
    simp only [FtpConnection.step] at next
    split at next
    · rename_i pathToDir directory directories cancel rest deletions
      obtain rfl := Option.some.inj next
      obtain ⟨inside, outer⟩ := anchored.innermost deletions
      have left : Anchored { s with deletions := ⟨pathToDir, [], directories, cancel⟩ :: rest } := by
        refine anchored.congr rfl rfl fun d member => ?_
        rcases List.mem_cons.mp member with rfl | before
        · exact ⟨inside.slashless, inside.fits, fun x member => inside.directories x (.tail _ member),
            inside.files⟩
        · exact outer d before
      split
      · exact left
      · rename_i skip
        obtain ⟨slashless, fits⟩ := fits_entered anchored deletions skip
        rw [← getValidFile_slash] at fits
        exact left.deleteDirectory slashless fits careful.2
    · cases next
  | leave =>
    simp only [FtpConnection.step] at next
    split at next
    · rename_i pathToDir cancel rest deletions
      obtain rfl := Option.some.inj next
      refine anchored.congr ?_ ?_ fun d member => ?_
      · dsimp only
        split <;> rfl
      · dsimp only
        split <;> rfl
      · have before := (anchored.innermost deletions).2
        cases rest with
        | nil => exact absurd member (List.not_mem_nil)
        | cons d' rest =>
          rcases List.mem_cons.mp member with rfl | later
          · have inside := before d' (.head _)
            exact ⟨inside.slashless, inside.fits, inside.directories, inside.files⟩
          · exact before d (.tail _ later)
    · cases next

theorem parts_fit (anchored : s.Anchored) (careful : s.Careful a) : ∀ part ∈ s.parts a,
    s.fo.Fits part := by
  cases a with
  | command text listing opened =>
    intro part member
    rw [parts] at member
    rcases its : commandOf (extractParameters s.commandOffset text) with _ | command
    · rw [its] at member
      exact absurd member (List.not_mem_nil)
    · rw [its] at member
      have allows := careful.2 command its
      cases command with
      | ls dir =>
        simp only [commandParts, Option.elim] at member
        split at member
        · rename_i opened
          rw [List.mem_singleton.mp member]
          exact FileOperator.fits_browsed ((allows opened).imp_left fun caught => ⟨rfl, caught⟩)
        · exact absurd member (List.not_mem_nil)
      | mkdir dir =>
        simp only [commandParts, Option.elim] at member
        split at member
        · exact absurd member (List.not_mem_nil)
        · rename_i free
          rw [List.mem_singleton.mp member]
          refine allows.resolve_left fun caught => free ?_
          obtain ⟨same, top⟩ := of_decide_eq_true caught
          exact ⟨same, Nat.le_of_lt_succ top⟩
      | rmdir dir =>
        simp only [commandParts, Option.elim] at member
        split at member
        · rename_i free
          rw [List.mem_singleton.mp member]
          exact FileOperator.fits_browsed (.inr (allows.resolve_left free.2).1)
        · exact absurd member (List.not_mem_nil)
      | download file => exact List.mem_singleton.mp member ▸ allows
      | upload file => exact List.mem_singleton.mp member ▸ allows
      | touch file => exact List.mem_singleton.mp member ▸ allows
      | cd dir => exact absurd member (List.not_mem_nil)
      | quit => exact absurd member (List.not_mem_nil)
      | other => exact absurd member (List.not_mem_nil)
  | removeFile deleted =>
    intro part member
    simp only [parts] at member
    split at member
    · rename_i pathToDir file files directories cancel rest deletions
      have inside := (anchored.innermost deletions).1
      obtain ⟨⟨some, slashless, clean⟩, one, two⟩ := inside.files file (.head _)
      rw [List.mem_singleton.mp member]
      exact inside.fits.glue (fun slash => (List.mem_append.mp slash).elim inside.slashless slashless)
        some clean one two
    · exact absurd member (List.not_mem_nil)
  | enter listing =>
    intro part member
    simp only [parts] at member
    split at member
    · rename_i pathToDir directory directories cancel rest deletions
      split at member
      · exact absurd member (List.not_mem_nil)
      · rename_i taken
        rw [List.mem_singleton.mp member]
        exact FileOperator.fits_browsed
          (.inr (fits_entered anchored deletions fun skip => taken (.inl skip)).2)
    · exact absurd member (List.not_mem_nil)
  | leave =>
    intro part member
    simp only [parts] at member
    split at member
    · rename_i pathToDir cancel rest deletions
      split at member
      · exact absurd member (List.not_mem_nil)
      · rw [List.mem_singleton.mp member]
        exact (anchored.innermost deletions).1.fits
    · exact absurd member (List.not_mem_nil)
  | data text => exact fun _ none => absurd none (List.not_mem_nil)
  | hangUp => exact fun _ none => absurd none (List.not_mem_nil)

theorem Careful.ended (careful : s.Careful a) : FileOperator.Ended s.fo.root := by
  cases a with
  | command text listing opened => exact careful.1
  | enter listing => exact careful.1
  | _ => exact careful

/-- In a careful session every call stays at or below the root. -/
theorem session_confined (reach : Reach machine Careful s) : s.Confined := by
  refine (reach.invariant (P := fun s => s.Anchored ∧ s.Confined) ?_ ?_).2
  · rintro s ⟨dir, commandOffset, rfl⟩
    exact ⟨anchored_start dir commandOffset, fun call none => absurd none (List.not_mem_nil)⟩
  · intro s a s' before careful next
    obtain ⟨anchored, confined⟩ := before
    refine ⟨anchored.step careful next, fun call its real => ?_⟩
    have hands := step_hands next
    rw [hands.root]
    rcases hands.calls call its with earlier | probe | ⟨part, its, path⟩
    · exact confined call earlier real
    · exact absurd probe real
    · rw [path]
      exact FileOperator.below_of_fits careful.ended anchored.kept (parts_fit anchored careful part its)

theorem mkdir_leaves_root :
    ∃ s, Reachable machine s ∧ s.fo.root = "./".toList ∧
      s.fo.calls = [(.mkdir, "./../x".toList)] ∧ ¬s.Confined := by
  have ran : (exec machine (start "./".toList 1) [.command "mkdir ../x".toList ⟨true, none⟩ false]).any
      (fun s => s.fo.root = "./".toList ∧ s.fo.calls = [(.mkdir, "./../x".toList)]) = true := by
    decide +kernel
  obtain ⟨s, done, facts⟩ := (Option.any_eq_true _ _).mp ran
  obtain ⟨root, calls⟩ := of_decide_eq_true facts
  refine ⟨s, Reach.exec (.start ⟨"./".toList, 1, rfl⟩) done, root, calls, fun confined => ?_⟩
  have below := confined (.mkdir, "./../x".toList) (calls ▸ List.mem_singleton_self _) nofun
  rw [root] at below
  revert below
  decide +kernel

def visit : List FtpStep :=
  [.command "mkdir a".toList ⟨true, none⟩ false, .command "cd a/".toList ⟨true, none⟩ false,
    .command "touch f".toList ⟨true, none⟩ false, .command "cd ..".toList ⟨true, none⟩ false,
    .command "rmdir a".toList ⟨true, some [⟨".".toList, true⟩, ⟨"f".toList, false⟩]⟩ false,
    .removeFile true, .enter ⟨true, none⟩, .leave]

theorem session_confined_visit :
    ∃ s, execWhere machine Careful (start "./".toList 1) visit = some s ∧
      (.openFile, "./a/f".toList) ∈ s.fo.calls ∧ (.rmdir, "./a".toList) ∈ s.fo.calls ∧ s.Confined := by
  have ran : (execWhere machine Careful (start "./".toList 1) visit).any (fun s =>
      (.openFile, "./a/f".toList) ∈ s.fo.calls ∧ (.rmdir, "./a".toList) ∈ s.fo.calls) = true := by
    decide +kernel
  obtain ⟨s, done, facts⟩ := (Option.any_eq_true _ _).mp ran
  obtain ⟨file, directory⟩ := of_decide_eq_true facts
  exact ⟨s, done, file, directory,
    session_confined ((Reach.start (M := machine) ⟨"./".toList, 1, rfl⟩).execWhere done)⟩

end FtpConnection

end ProjectsCpp.WebServer
