import ProjectsCpp.Lib.Paths
import ProjectsCpp.Lib.Run
import Mathlib.Data.List.Infix

/-! An FTP session (`connection/ftpConnection.cc` over `manager/fileOperator.cc`), from its login on.
The calls of the system are kept with their paths; what they bring comes with the step, and what the
client is answered is left out. A character stands for a byte. -/

namespace ProjectsCpp.WebServer
open ProjectsCpp.Run ProjectsCpp.Paths
open ProjectsCpp.Text (Str cutAt)

/-- `probe` is the `opendir("./page/")` of `dirCanBeOpened`. -/
inductive PathCall where
  | probe
  | opendir
  | mkdir
  | openFile
  | remove
  | rmdir
deriving DecidableEq

def cString (s : Str) : Str := s.takeWhile (· ≠ Char.ofNat 0)

/-- A `readdir` entry, and whether its type is `DT_DIR`. -/
structure DirEntry where
  name : Str
  isDir : Bool
deriving DecidableEq

/-- What opening a directory brings: whether `dirCanBeOpened` says so, and what `opendir` finds. -/
structure Listing where
  page : Bool
  entries : Option (List DirEntry)
deriving DecidableEq

/-- `root` is the directory that the operator was created with. -/
structure FileOperator where
  root : Str
  completePath : List Str
  calls : List (PathCall × Str)
deriving DecidableEq

namespace FileOperator

def new (dir : Str) : FileOperator := ⟨dir, [dir], []⟩

def getCurrentWorkingDir (fo : FileOperator) : Str := fo.completePath.flatten

def hand (fo : FileOperator) (call : PathCall) (part : Str) : FileOperator :=
  { fo with calls := fo.calls ++ [(call, cString (fo.getCurrentWorkingDir ++ part))] }

def dirCanBeOpened (fo : FileOperator) : FileOperator :=
  { fo with calls := fo.calls ++ [(.probe, "./page/".toList)] }

def getValidFile (fileName : Str) : Str := fileName.filter (· ≠ '/')

def changeDir (fo : FileOperator) (newPath : Str) (page : Bool) : FileOperator :=
  if newPath = "..".toList ∨ newPath = "../".toList then
    if fo.completePath.length ≤ 1 then fo
    else { fo with completePath := fo.completePath.dropLast }
  else if newPath = ".".toList ∨ newPath = "./".toList then fo
  else if page then { fo.dirCanBeOpened with completePath := fo.completePath ++ [newPath] }
  else fo.dirCanBeOpened

def createDirectory (fo : FileOperator) (dirName : Str) : FileOperator :=
  if dirName = "../".toList ∧ fo.completePath.length ≤ 1 then fo else fo.hand .mkdir dirName

def createFile (fo : FileOperator) (fileName : Str) : FileOperator :=
  fo.hand .openFile (getValidFile fileName)

def deleteFile (fo : FileOperator) (fileName : Str) : FileOperator := fo.hand .remove fileName

def browsed (fo : FileOperator) (dir : Str) (strict : Bool) : Str :=
  if dir = "./".toList ∨ strict ∧ dir = "../".toList ∧ fo.completePath.length ≤ 1 then [] else dir

/-- The directories and files; there are none where `readdir` has a null pointer to read. -/
def browse (fo : FileOperator) (dir : Str) (strict : Bool) (listing : Listing) :
    FileOperator × Option (List Str × List Str) :=
  if listing.page then
    (fo.dirCanBeOpened.hand .opendir (fo.browsed dir strict), listing.entries.map fun entries =>
      let shown := entries.filter fun e => ¬(e.name = "..".toList ∧ fo.completePath.length ≤ 1)
      ((shown.filter (·.isDir)).map (·.name), (shown.filter (¬·.isDir)).map (·.name)))
  else (fo.dirCanBeOpened, some ([], []))

def dirIsBelowServerRoot (fo : FileOperator) (dirName : Str) : Bool :=
  dirName = "../".toList ∧ fo.completePath.length < 2

end FileOperator

inductive ProcessState where
  | quit
  | upload
  | parse
deriving DecidableEq

/-- A call of `deleteDirectory` with what it has still to delete. -/
structure Deletion where
  pathToDir : Str
  files : List Str
  directories : List Str
  cancel : Bool
deriving DecidableEq

/-- The calls of `deleteDirectory` stand with the innermost first. -/
structure FtpConnection where
  fo : FileOperator
  commandOffset : Nat
  processState : ProcessState
  currentOpenFile : Bool
  deletions : List Deletion
deriving DecidableEq

inductive FtpCommand where
  | ls (dir : Str)
  | download (file : Str)
  | upload (file : Str)
  | cd (dir : Str)
  | mkdir (dir : Str)
  | rmdir (dir : Str)
  | touch (file : Str)
  | quit
  | other
deriving DecidableEq

inductive FtpStep where
  | command (text : Str) (listing : Listing) (opened : Bool)
  | data (text : Str)
  | hangUp
  | removeFile (deleted : Bool)
  | enter (listing : Listing)
  | leave
deriving DecidableEq

def trimOffset (commandOffset : Nat) (s : Str) : Str :=
  if commandOffset ≤ s.length + 1 then s.take (s.length + 1 - commandOffset) else s

def extractParameters (commandOffset : Nat) (command : Str) : List Str :=
  match cutAt ' ' command with
  | some (cmd, text) => cmd :: if text = [] then [] else [trimOffset commandOffset text]
  | none => if command = [] then [] else [trimOffset commandOffset command]

def commandEquals (a b : Str) : Bool := b <:+: a.map Char.toLower

def commandOf : List Str → Option FtpCommand
  | [] => none
  | [cmd] =>
    some (if commandEquals cmd "list".toList || commandEquals cmd "ls".toList then .ls "./".toList
      else if commandEquals cmd "pwd".toList || commandEquals cmd "getparentdir".toList then .other
      else if commandEquals cmd "quit".toList then .quit
      else .other)
  | cmd :: parameter :: _ =>
    some (if commandEquals cmd "ls".toList then .ls parameter
      else if commandEquals cmd "download".toList then .download parameter
      else if commandEquals cmd "upload".toList then .upload parameter
      else if commandEquals cmd "cd".toList then .cd parameter
      else if commandEquals cmd "mkdir".toList then .mkdir parameter
      else if commandEquals cmd "rmdir".toList then .rmdir parameter
      else if commandEquals cmd "touch".toList then .touch parameter
      else .other)

namespace FtpConnection

def start (dir : Str) (commandOffset : Nat) : FtpConnection :=
  ⟨.new dir, commandOffset, .parse, false, []⟩

def deleteDirectory (s : FtpConnection) (dirName pathToDir : Str) (listing : Listing) :
    FtpConnection :=
  let pathToDir := pathToDir ++ FileOperator.getValidFile dirName
  match s.fo.browse pathToDir false listing with
  | (fo, some (directories, files)) =>
    { s with fo := fo, deletions := ⟨pathToDir, files, directories, false⟩ :: s.deletions }
  | (fo, none) => { s with fo := fo, processState := .quit, deletions := [] }

def perform (s : FtpConnection) (listing : Listing) (opened : Bool) : FtpCommand → FtpConnection
  | .ls dir =>
    match s.fo.browse dir true listing with
    | (fo, some _) => { s with fo := fo }
    | (fo, none) => { s with fo := fo, processState := .quit }
  | .download file => { s with fo := s.fo.hand .openFile file }
  | .upload file =>
    { s with fo := s.fo.hand .openFile file, processState := .upload, currentOpenFile := opened }
  | .cd dir => { s with fo := s.fo.changeDir dir listing.page }
  | .mkdir dir => { s with fo := s.fo.createDirectory dir }
  | .rmdir dir =>
    if s.fo.dirIsBelowServerRoot dir then s else s.deleteDirectory dir [] listing
  | .touch file => { s with fo := s.fo.createFile file }
  | .quit => { s with processState := .quit }
  | .other => s

def step (s : FtpConnection) : FtpStep → Option FtpConnection
  | .command text listing opened =>
    if s.processState = .parse ∧ s.deletions = [] then
      (commandOf (extractParameters s.commandOffset text)).map (s.perform listing opened)
    else none
  | .data text =>
    if s.processState = .upload then
      some (if text = "\r\n".toList then { s with processState := .parse, currentOpenFile := false }
        else if s.currentOpenFile then s else { s with processState := .quit })
    else none
  | .hangUp =>
    if s.processState ≠ .quit ∧ s.deletions = [] then
      some { s with processState := .quit, currentOpenFile := false }
    else none
  | .removeFile deleted =>
    match s.deletions with
    | ⟨pathToDir, file :: files, directories, cancel⟩ :: rest =>
      some { s with
        fo := s.fo.deleteFile (pathToDir ++ file)
        deletions := ⟨pathToDir, files, directories, !deleted || cancel⟩ :: rest }
    | _ => none
  | .enter listing =>
    match s.deletions with
    | ⟨pathToDir, [], directory :: directories, cancel⟩ :: rest =>
      let s := { s with deletions := ⟨pathToDir, [], directories, cancel⟩ :: rest }
      some (if directory = ".".toList ∨ directory = "..".toList ∨ cancel then s
        else s.deleteDirectory (directory ++ "/".toList) pathToDir listing)
    | _ => none
  | .leave =>
    match s.deletions with
    | ⟨pathToDir, [], [], cancel⟩ :: rest =>
      some { s with
        fo := if pathToDir = ".".toList ∨ pathToDir = "..".toList then s.fo
          else s.fo.hand .rmdir pathToDir
        deletions := rest.modifyHead fun d => { d with cancel := cancel || d.cancel } }
    | _ => none

def machine : Machine FtpConnection FtpStep where
  start := fun s => ∃ dir commandOffset, s = start dir commandOffset
  step := step

def Confined (s : FtpConnection) : Prop :=
  ∀ call ∈ s.fo.calls, call.1 ≠ .probe → (resolve call.2).Below (resolve (cString s.fo.root))

end FtpConnection

end ProjectsCpp.WebServer
