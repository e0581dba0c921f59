import ProjectsCpp.Lib.Rings
import Mathlib.Data.Int.Order.Basic
import Mathlib.Data.Nat.Notation

/-! The solver with dancing links (`sudoku/sudoku.cc`). A node is known by its index in `nodes_`; a
failed assertion gives `none`, and so does a loop that does not end. -/

namespace ProjectsCpp.Sudoku
open ProjectsCpp.Rings

def kCells : Nat := 81
def kMaxNodes : Nat := 1 + 81 * 4 + 9 * 9 * 9 * 4
def kRow : Nat := 100
def kCol : Nat := 200
def kBox : Nat := 300
def kNoSolution : List Char := "NoSolution".toList

@[ext]
structure Nodes where
  left : Nat → Nat
  right : Nat → Nat
  up : Nat → Nat
  down : Nat → Nat
  col : Nat → Nat
  name : Nat → Nat
  size : Nat → Int

/-- `root_`, the first node. -/
def root : Nat := 0

namespace Nodes
variable (s : Nodes)

def fresh (n name : Nat) : Nodes where
  left := Function.update s.left n n
  right := Function.update s.right n n
  up := Function.update s.up n n
  down := Function.update s.down n n
  col := Function.update s.col n n
  name := Function.update s.name n name
  size := Function.update s.size n 0

def putLeft (old nnew : Nat) : Nodes :=
  let s := { s with left := Function.update s.left nnew (s.left old) }
  let s := { s with right := Function.update s.right nnew old }
  let s := { s with right := Function.update s.right (s.left old) nnew }
  { s with left := Function.update s.left old nnew }

def putUp (old nnew : Nat) : Nodes :=
  let s := { s with up := Function.update s.up nnew (s.up old) }
  let s := { s with down := Function.update s.down nnew old }
  let s := { s with down := Function.update s.down (s.up old) nnew }
  let s := { s with up := Function.update s.up old nnew }
  let s := { s with size := Function.update s.size old (s.size old + 1) }
  { s with col := Function.update s.col nnew old }

/-- `cover` takes the column out of the list of columns, -/
def unlinkColumn (c : Nat) : Nodes :=
  let s := { s with left := Function.update s.left (s.right c) (s.left c) }
  { s with right := Function.update s.right (s.left c) (s.right c) }

def unlinkNode (j : Nat) : Nodes :=
  let s := { s with up := Function.update s.up (s.down j) (s.up j) }
  let s := { s with down := Function.update s.down (s.up j) (s.down j) }
  { s with size := Function.update s.size (s.col j) (s.size (s.col j) - 1) }

def relinkNode (j : Nat) : Nodes :=
  let s := { s with size := Function.update s.size (s.col j) (s.size (s.col j) + 1) }
  let s := { s with up := Function.update s.up (s.down j) j }
  { s with down := Function.update s.down (s.up j) j }

def relinkColumn (c : Nat) : Nodes :=
  let s := { s with left := Function.update s.left (s.right c) c }
  { s with right := Function.update s.right (s.left c) c }

def cover (c : Nat) : Option Nodes :=
  let s := s.unlinkColumn c
  loop Nodes.down (fun s row =>
    loop Nodes.right (fun s j => some (s.unlinkNode j)) row kMaxNodes s (s.right row))
    c kMaxNodes s (s.down c)

def uncover (c : Nat) : Option Nodes :=
  (loop Nodes.up (fun s row =>
    loop Nodes.left (fun s j => some (s.relinkNode j)) row kMaxNodes s (s.left row))
    c kMaxNodes s (s.up c)).map fun s => s.relinkColumn c

def coverRow (row : Nat) : Option Nodes :=
  loop Nodes.right (fun s j => s.cover (s.col j)) row kMaxNodes s (s.right row)

def uncoverRow (row : Nat) : Option Nodes :=
  loop Nodes.left (fun s j => s.uncover (s.col j)) row kMaxNodes s (s.left row)

/-- The loop of `get_min_column`. -/
def minColumnFrom : Nat → Nat → Int → Nat → Option Nat
  | 0, _, _, _ => none
  | fuel + 1, c, minSize, cc =>
    if cc = root then some c
    else if minSize > s.size cc then
      if s.size cc ≤ 1 then some cc else minColumnFrom fuel cc (s.size cc) (s.right cc)
    else minColumnFrom fuel c minSize (s.right cc)

def getMinColumn : Option Nat :=
  let c := s.right root
  let minSize := s.size c
  if minSize > 1 then s.minColumnFrom kMaxNodes c minSize (s.right c) else some c

/-- The cell and the digit of a row of nodes; `none` is -1. -/
def readRow : Nat → Option Nat → Option Nat → Nat → Option (Nat × Nat)
  | 0, _, _, _ => none
  | _ + 1, some cell, some val, _ => some (cell, val)
  | fuel + 1, cell, val, n =>
    if s.name n < 100 then readRow fuel (some (s.name n)) val (s.right n)
    else readRow fuel cell (some (s.name n % 10)) (s.right n)

end Nodes

structure SudokuSolver where
  inout : Nat → Nat
  columns : Nat → Option Nat
  stack : List Nat
  nodes : Nodes
  curNode : Nat

def getRowCol (row val : Nat) : Nat := kRow + row * 10 + val
def getColCol (col val : Nat) : Nat := kCol + col * 10 + val
def getBoxCol (box val : Nat) : Nat := kBox + box * 10 + val

def rowOf (i : Nat) : Nat := i / 9
def colOf (i : Nat) : Nat := i % 9
def boxOf (i : Nat) : Nat := rowOf i / 3 * 3 + colOf i / 3

/-- The array `rows`, `cols` or `boxes`. -/
def marks (place inout : Nat → Nat) : Nat → Nat → Bool :=
  (List.range kCells).foldl (fun marks i => Function.update marks (place i)
    (Function.update (marks (place i)) (inout i) true)) fun _ _ => false

namespace SudokuSolver
variable (s : SudokuSolver)

def newColumn (n : Nat) : Option (Nat × SudokuSolver) :=
  if s.curNode < kMaxNodes then
    some (s.curNode, { s with nodes := s.nodes.fresh s.curNode n, curNode := s.curNode + 1 })
  else none

def appendColumn (n : Nat) : Option SudokuSolver :=
  if s.columns n = none then
    (s.newColumn n).map fun (c, s) =>
      { s with nodes := s.nodes.putLeft root c, columns := Function.update s.columns n (some c) }
  else none

def newRow (col : Nat) : Option (Nat × SudokuSolver) :=
  (s.columns col).bind fun c =>
    if s.curNode < kMaxNodes then
      some (s.curNode, { s with
        nodes := (s.nodes.fresh s.curNode col).putUp c s.curNode
        curNode := s.curNode + 1 })
    else none

def newRows (i v : Nat) : Option SudokuSolver :=
  (s.newRow i).bind fun (n0, s) =>
    (s.newRow (getRowCol (rowOf i) v)).bind fun (nr, s) =>
      (s.newRow (getColCol (colOf i) v)).bind fun (nc, s) =>
        (s.newRow (getBoxCol (boxOf i) v)).map fun (nb, s) =>
          { s with nodes := ((s.nodes.putLeft n0 nr).putLeft n0 nc).putLeft n0 nb }

def new (inout : Nat → Nat) : Option SudokuSolver :=
  let rows := marks rowOf inout
  let cols := marks colOf inout
  let boxes := marks boxOf inout
  let nodes : Nodes :=
    ⟨fun _ => 0, fun _ => 0, fun _ => 0, fun _ => 0, fun _ => 0, fun _ => 0, fun _ => 0⟩
  (newColumn ⟨inout, fun _ => none, [], nodes, 0⟩ 0).bind fun (_, s) =>
    ((List.range kCells).foldlM (fun s i =>
      if inout i = 0 then s.appendColumn i else some s) s).bind fun s =>
    ((List.range 9).foldlM (fun s i => (List.range' 1 9).foldlM (fun s v =>
      (if rows i v then some s else s.appendColumn (getRowCol i v)).bind fun s =>
      (if cols i v then some s else s.appendColumn (getColCol i v)).bind fun s =>
      if boxes i v then some s else s.appendColumn (getBoxCol i v)) s) s).bind fun s =>
    (List.range kCells).foldlM (fun s i =>
      if inout i = 0 then
        (List.range' 1 9).foldlM (fun s v =>
          if rows (rowOf i) v || cols (colOf i) v || boxes (boxOf i) v then some s
          else s.newRows i v) s
      else some s) s

def fillBoard : Option SudokuSolver :=
  s.stack.foldlM (fun s n => (s.nodes.readRow kMaxNodes none none n).map fun (cell, val) =>
    { s with inout := Function.update s.inout cell val }) s

def push (row : Nat) : SudokuSolver := { s with stack := s.stack ++ [row] }

def pop : SudokuSolver := { s with stack := s.stack.dropLast }

def withNodes (nodes : Nodes) : SudokuSolver := { s with nodes := nodes }

/-- The loop of `solve` along the rows of the column. -/
def tryRows (solve : SudokuSolver → Option (Bool × SudokuSolver)) (col : Nat) :
    Nat → SudokuSolver → Nat → Option (Bool × SudokuSolver)
  | 0, _, _ => none
  | fuel + 1, s, row =>
    if row = col then (s.nodes.uncover col).map fun nodes => (false, s.withNodes nodes)
    else
      let s := s.push row
      (s.nodes.coverRow row).bind fun nodes => (solve (s.withNodes nodes)).bind fun (solved, s) =>
        if solved then some (true, s)
        else
          let s := s.pop
          (s.nodes.uncoverRow row).bind fun nodes =>
            tryRows solve col fuel (s.withNodes nodes) (nodes.down row)

/-- The first argument bounds the depth of the recursion. -/
def solve : Nat → SudokuSolver → Option (Bool × SudokuSolver)
  | 0, _ => none
  | depth + 1, s =>
    if s.nodes.left root = root then s.fillBoard.map fun s => (true, s)
    else s.nodes.getMinColumn.bind fun col => (s.nodes.cover col).bind fun nodes =>
      tryRows (solve depth) col kMaxNodes (s.withNodes nodes) (nodes.down col)

end SudokuSolver

def solveSudoku (puzzle : List Char) : Option (List Char) :=
  if puzzle.length = kCells then
    let board (i : Nat) : Int := (puzzle.getD i '0').toNat - '0'.toNat
    let valid := (List.range kCells).all fun i => 0 ≤ board i ∧ board i ≤ 9
    if valid then
      (SudokuSolver.new fun i => (board i).toNat).bind fun s =>
        (s.solve kMaxNodes).map fun (solved, s) =>
          if solved then (List.range kCells).map fun i => Char.ofNat (s.inout i + '0'.toNat)
          else kNoSolution
    else some kNoSolution
  else none

end ProjectsCpp.Sudoku
