import ProjectsCpp.Lib.LinkedList
import ProjectsCpp.Lib.Text
import Mathlib.Data.List.AList
import Mathlib.Algebra.Group.Nat.Defs
import Mathlib.Algebra.Group.Int.Defs

/-! The LFU cache of the web server (`LFUCache/LFUCache.cc`) at the level of its nodes and
pointers: one heap for the nodes of the inner lists, one for those of the frequency list.
`newElement` takes an address that no node has had, and a deleted node cannot be read. A null
or dangling pointer, a failed assertion and the overflow of an `int` give `none`. -/

namespace ProjectsCpp.WebServer
open ProjectsCpp.Text ProjectsCpp.LinkedList

structure Key where
  key : Str
  value : Str
deriving DecidableEq

structure KeyList where
  freq : Int
  dummyHead : Nat
  tail : Nat
deriving DecidableEq

structure LFUCache where
  keys : Heap Key
  lists : Heap KeyList
  fresh : Nat
  dummyHead : Nat
  capacity : Nat
  kmap : AList fun _ : Str => Nat
  fmap : AList fun _ : Str => Nat

namespace LFUCache

def intMax : Int := 2 ^ 31 - 1

def newKey (c : LFUCache) (content : Key) : LFUCache :=
  { c with
    keys := Function.update c.keys c.fresh (some ⟨content, none, none⟩)
    fresh := c.fresh + 1 }

/-- `newElement<Node<KeyList>>()` with `KeyList::init`: the list node at `fresh + 1`, its dummy
head at `fresh`. -/
def newList (c : LFUCache) (freq : Int) : LFUCache :=
  { c with
    keys := Function.update c.keys c.fresh (some ⟨⟨[], []⟩, none, none⟩)
    lists := Function.update c.lists (c.fresh + 1) (some ⟨⟨freq, c.fresh, c.fresh⟩, none, none⟩)
    fresh := c.fresh + 2 }

def make (capacity : Nat) : LFUCache :=
  let c : LFUCache := ⟨fun _ => none, fun _ => none, 0, 1, capacity, ∅, ∅⟩
  c.newList 0

/-! ### KeyList -/

def getFreq (c : LFUCache) (f : Nat) : Option Int := (valueOf c.lists f).map KeyList.freq

def isEmpty (c : LFUCache) (f : Nat) : Option Bool :=
  (valueOf c.lists f).map fun list => list.dummyHead = list.tail

def getLast (c : LFUCache) (f : Nat) : Option Nat := (valueOf c.lists f).map KeyList.tail

def setTail (c : LFUCache) (f tail : Nat) : Option LFUCache :=
  (valueOf c.lists f).bind fun list =>
    (setValue c.lists f { list with tail := tail }).map fun lists => { c with lists := lists }

def addKey (c : LFUCache) (f node : Nat) : Option LFUCache :=
  (valueOf c.lists f).bind fun list => (nextOf c.keys list.dummyHead).bind fun first =>
    (insertAfter c.keys list.dummyHead node).bind fun keys =>
      if first = none then { c with keys := keys }.setTail f node
      else some { c with keys := keys }

def delKey (c : LFUCache) (f node : Nat) : Option LFUCache :=
  (c.keys node).bind fun there => (unlink c.keys node).bind fun keys =>
    if there.next = none then there.pre.bind fun before => { c with keys := keys }.setTail f before
    else some { c with keys := keys }

/-- The loop of `KeyList::destory` from a node on; a round for each node there is. -/
def destory (keys : Heap Key) : Nat → Option Nat → Option (Heap Key)
  | _, none => some keys
  | 0, some _ => none
  | rounds + 1, some a => (nextOf keys a).bind fun next =>
    destory (Function.update keys a none) rounds next

/-! ### LFUCache -/

def delList (c : LFUCache) (f : Nat) : Option LFUCache :=
  (unlink c.lists f).bind fun lists => (valueOf lists f).bind fun list =>
    (destory c.keys c.fresh (some list.dummyHead)).map fun keys =>
      { c with keys := keys, lists := Function.update lists f none }

/-- The list of the next frequency behind `nowf`, made where it is missing. -/
def nextList (c : LFUCache) (nowf : Nat) : Option (LFUCache × Nat) :=
  (c.getFreq nowf).bind fun freq => (nextOf c.lists nowf).bind fun next =>
    if freq = intMax then none
    else
      let make := (insertAfter (c.newList (freq + 1)).lists nowf (c.fresh + 1)).map fun lists =>
        ({ c.newList (freq + 1) with lists := lists }, c.fresh + 1)
      match next with
      | none => make
      | some nxt => (c.getFreq nxt).bind fun nxtFreq =>
        if nxtFreq ≠ freq + 1 then make else some (c, nxt)

def leaveList (c : LFUCache) (nowf nowk : Nat) : Option LFUCache :=
  if nowf ≠ c.dummyHead then c.delKey nowf nowk else some c

def dropEmpty (c : LFUCache) (f : Nat) : Option LFUCache :=
  (c.isEmpty f).bind fun empty => if empty then c.delList f else some c

/-- Both assertions of `addFreq` and `KeyList::add`. -/
def assertFull (c : LFUCache) (f : Nat) : Option LFUCache :=
  (c.isEmpty f).bind fun empty => if empty then none else some c

def addFreq (c : LFUCache) (nowk nowf : Nat) : Option LFUCache :=
  (c.nextList nowf).bind fun (c, nxt) => (valueOf c.keys nowk).bind fun content =>
    let c := { c with fmap := c.fmap.insert content.key nxt }
    (c.leaveList nowf nowk).bind fun c => (c.addKey nxt nowk).bind fun c =>
      (c.assertFull nxt).bind fun c => if nowf ≠ c.dummyHead then c.dropEmpty nowf else some c

def get (c : LFUCache) (key : Str) : Option (LFUCache × Option Str) :=
  if c.capacity = 0 then some (c, none)
  else
    match c.fmap.lookup key with
    | none => some (c, none)
    | some nowf => (c.kmap.lookup key).bind fun nowk => (valueOf c.keys nowk).bind fun content =>
      (c.addFreq nowk nowf).map fun c => (c, some content.value)

def evict (c : LFUCache) : Option LFUCache :=
  (nextOf c.lists c.dummyHead).bind fun head => head.bind fun head =>
    (c.getLast head).bind fun last => (c.delKey head last).bind fun c =>
      (valueOf c.keys last).bind fun content =>
        { c with
          kmap := c.kmap.erase content.key
          fmap := c.fmap.erase content.key
          keys := Function.update c.keys last none }.dropEmpty head

def makeRoom (c : LFUCache) : Option LFUCache :=
  if c.kmap.entries.length = c.capacity then c.evict else some c

def put (c : LFUCache) (key val : Str) : Option LFUCache :=
  ((c.newKey ⟨key, val⟩).addFreq c.fresh c.dummyHead).bind fun d =>
    (nextOf d.lists d.dummyHead).bind fun first => first.map fun first =>
      { d with kmap := d.kmap.insert key c.fresh, fmap := d.fmap.insert key first }

def set (c : LFUCache) (key val : Str) : Option LFUCache :=
  if c.capacity = 0 then some c else c.makeRoom.bind fun c => c.put key val

end LFUCache

end ProjectsCpp.WebServer
