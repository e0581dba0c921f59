import ProjectsCpp.Lib.Chains
import Mathlib.Order.Lattice

/-! The skip list (`Skiplist-CPP/skiplist.h`) on a heap of nodes, with the header at address 0. An
access through a null pointer or outside of an array gives `none`. A deleted node stays in the heap,
as the code does not free it. The calls run one after the other: the two that write take the mutex. -/

namespace ProjectsCpp.Skiplist

/-- `forward` has the places `0 … node_level`. -/
structure Node (K V : Type) where
  key : K
  value : V
  node_level : Nat
  forward : Nat → Option Nat

structure SkipList (K V : Type) where
  max_level : Nat
  skip_list_level : Nat
  element_count : Int
  nodes : Nat → Option (Node K V)
  fresh : Nat

variable {K V : Type}

namespace SkipList

def new [Inhabited K] [Inhabited V] (max_level : Nat) : SkipList K V where
  max_level
  skip_list_level := 0
  element_count := 0
  nodes := Function.update (fun _ => none) 0 (some ⟨default, default, max_level, fun _ => none⟩)
  fresh := 1

def get_random_level (s : SkipList K V) (ones : Nat) : Nat := min (1 + ones) s.max_level

def forwardOf (s : SkipList K V) (p i : Nat) : Option (Option Nat) :=
  (s.nodes p).bind fun node => if i ≤ node.node_level then some (node.forward i) else none

def setForward (s : SkipList K V) (p i : Nat) (next : Option Nat) : Option (SkipList K V) :=
  (s.nodes p).bind fun node =>
    if i ≤ node.node_level then
      some { s with
        nodes := Function.update s.nodes p
          (some { node with forward := Function.update node.forward i next }) }
    else none

def link (s : SkipList K V) (p : Nat) (update : Nat → Option Nat) : List Nat → Option (SkipList K V)
  | [] => some s
  | i :: levels => (update i).bind fun before => (s.forwardOf before i).bind fun next =>
    (s.setForward p i next).bind fun s => (s.setForward before i (some p)).bind fun s =>
      s.link p update levels

def unlink (s : SkipList K V) (p : Nat) (update : Nat → Option Nat) :
    List Nat → Option (SkipList K V)
  | [] => some s
  | i :: levels => (update i).bind fun before => (s.forwardOf before i).bind fun next =>
    if next = some p then
      (s.forwardOf p i).bind fun next => (s.setForward before i next).bind fun s =>
        s.unlink p update levels
    else some s

def shrink (s : SkipList K V) : Nat → Option (SkipList K V)
  | 0 => some { s with skip_list_level := 0 }
  | level + 1 => (s.forwardOf 0 (level + 1)).bind fun top =>
    if top = none then s.shrink level else some { s with skip_list_level := level + 1 }

/-- The node for a new key; `update` gets the header for the levels that are new. -/
def insert_node (s : SkipList K V) (key : K) (value : V) (ones : Nat) (update : Nat → Option Nat) :
    Option (SkipList K V) :=
  let random_level := s.get_random_level ones
  let update := fun i =>
    if s.skip_list_level < i ∧ i ≤ random_level then some 0 else update i
  let made : SkipList K V := { s with
    skip_list_level := max s.skip_list_level random_level
    nodes := Function.update s.nodes s.fresh (some ⟨key, value, random_level, fun _ => none⟩)
    fresh := s.fresh + 1 }
  (made.link s.fresh update (List.range (random_level + 1))).map fun t =>
    { t with element_count := t.element_count + 1 }

def size (s : SkipList K V) : Int := s.element_count

def entries (s : SkipList K V) (i : Nat) : Nat → Option Nat → Option (List (K × V))
  | _, none => some []
  | 0, some _ => none
  | rounds + 1, some p => (s.nodes p).bind fun node => (s.forwardOf p i).bind fun next =>
    (s.entries i rounds next).map fun rest => (node.key, node.value) :: rest

def display (s : SkipList K V) (i : Nat) : Option (List (K × V)) :=
  (s.forwardOf 0 i).bind (s.entries i s.fresh)

def display_list (s : SkipList K V) : Option (List (List (K × V))) :=
  (List.range (s.skip_list_level + 1)).mapM s.display

variable [LinearOrder K]

def walk (s : SkipList K V) (key : K) (i : Nat) : Nat → Nat → Option Nat
  | 0, _ => none
  | rounds + 1, current => (s.forwardOf current i).bind fun next =>
    match next with
    | none => some current
    | some p => (s.nodes p).bind fun node =>
      if node.key < key then s.walk key i rounds p else some current

/-- The outer loop of `search_element`, from level `i` down; no level has more nodes than the heap. -/
def seek (s : SkipList K V) (key : K) : Nat → Nat → Option Nat
  | 0, current => s.walk key 0 s.fresh current
  | i + 1, current => (s.walk key (i + 1) s.fresh current).bind (s.seek key i)

def descend (s : SkipList K V) (key : K) :
    Nat → Nat → (Nat → Option Nat) → Option (Nat × (Nat → Option Nat))
  | 0, current, update => (s.walk key 0 s.fresh current).map fun current =>
    (current, Function.update update 0 (some current))
  | i + 1, current, update => (s.walk key (i + 1) s.fresh current).bind fun current =>
    s.descend key i current (Function.update update (i + 1) (some current))

def insert_element (s : SkipList K V) (key : K) (value : V) (ones : Nat) :
    Option (Int × SkipList K V) :=
  (s.descend key s.skip_list_level 0 fun _ => none).bind fun (current, update) =>
    (s.forwardOf current 0).bind fun current =>
      match current with
      | none => (s.insert_node key value ones update).map fun t => (0, t)
      | some p => (s.nodes p).bind fun node =>
        if node.key = key then some (1, s)
        else (s.insert_node key value ones update).map fun t => (0, t)

def delete_element (s : SkipList K V) (key : K) : Option (SkipList K V) :=
  (s.descend key s.skip_list_level 0 fun _ => none).bind fun (current, update) =>
    (s.forwardOf current 0).bind fun current =>
      match current with
      | none => some s
      | some p => (s.nodes p).bind fun node =>
        if node.key = key then
          (s.unlink p update (List.range (s.skip_list_level + 1))).bind fun t =>
            (t.shrink t.skip_list_level).map fun t =>
              { t with element_count := t.element_count - 1 }
        else some s

def search_element (s : SkipList K V) (key : K) : Option Bool :=
  (s.seek key s.skip_list_level 0).bind fun current =>
    (s.forwardOf current 0).bind fun current =>
      match current with
      | none => some false
      | some p => (s.nodes p).map fun node => decide (node.key = key)

end SkipList

end ProjectsCpp.Skiplist
