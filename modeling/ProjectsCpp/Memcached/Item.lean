import ProjectsCpp.Lib.TwosComplement
import Mathlib.Data.List.Infix
import Mathlib.Tactic.Common

/-! `Item` and `MemcacheServer`. A failed assertion gives `none`. The shards hold items of equal keys
together, so they are one map from keys. -/

namespace ProjectsCpp.Memcached
open ProjectsCpp.TwosComplement

abbrev Bytes := List UInt8

def bytes (s : String) : Bytes := s.toList.map fun c => c.toNat.toUInt8

def crlf : Bytes := [13, 10]

/-- `data` are the first `receivedBytes_` bytes of `data_`. -/
structure Item where
  keylen : Nat
  flags : UInt32
  relExptime : Int
  valuelen : Nat
  cas : UInt64
  data : Bytes
  valued : 2 ≤ valuelen
  total : keylen + valuelen < 2 ^ 31
  keyed : keylen ≤ data.length
  room : data.length ≤ keylen + valuelen

namespace Item

/-- `totalLen()` is an `int`: from `2 ^ 31` on it is negative, and `receivedBytes_ < totalLen()`
fails. -/
def makeItem (key : Bytes) (flags : UInt32) (exptime valuelen : Int) (cas : UInt64) : Option Item :=
  if sound : 2 ≤ valuelen ∧ key.length + valuelen < 2 ^ 31 then
    some
      { keylen := key.length
        flags := flags
        relExptime := exptime
        valuelen := valuelen.toNat
        cas := cas
        data := key
        valued := by omega
        total := by omega
        keyed := Nat.le_refl _
        room := Nat.le_add_right _ _ }
  else none

variable (item : Item)

def totalLen : Nat := item.keylen + item.valuelen

def neededBytes : Nat := item.totalLen - item.data.length

def key : Bytes := item.data.take item.keylen

def value : Bytes := item.data.drop item.keylen

def append (data : Bytes) : Option Item :=
  if fits : data.length ≤ item.neededBytes then
    some
      { item with
        data := item.data ++ data
        keyed := by
          have keyed := item.keyed
          rw [List.length_append]
          omega
        room := by
          have room := item.room
          rw [neededBytes, totalLen] at fits
          rw [List.length_append]
          omega }
  else none

def endsWithCRLF : Prop := item.data.length = item.totalLen ∧ crlf <:+ item.data

instance : Decidable item.endsWithCRLF := inferInstanceAs (Decidable (_ ∧ _))

def output (needCas : Bool) : Bytes :=
  bytes "VALUE " ++ item.key ++ bytes (" " ++ toString item.flags ++ " " ++
    toString (item.valuelen - 2) ++ (if needCas then " " ++ toString item.cas else "") ++ "\r\n") ++
    item.value

def setCas (cas : UInt64) : Item := { item with cas := cas }

end Item

inductive UpdatePolicy where
  | invalid
  | set
  | add
  | replace
  | append
  | prepend
  | cas
deriving DecidableEq

/-- An item whose value has been received and ends as it should, as those in the table do. -/
structure Stored extends Item where
  whole : toItem.endsWithCRLF

namespace Stored

def setCas (stored : Stored) (cas : UInt64) : Stored := ⟨stored.toItem.setCas cas, stored.whole⟩

end Stored

/-- `gCas` is the counter `g_cas`; `stopping` tells that `stop` has been called. -/
structure MemcacheServer where
  startTime : Int
  gCas : UInt64
  items : Bytes → Option Stored
  stopping : Bool

namespace MemcacheServer
variable (server : MemcacheServer)

def new (startTime : Int) : MemcacheServer := ⟨startTime, 0, fun _ => none, false⟩

def stop : MemcacheServer := { server with stopping := true }

def getItem (key : Bytes) : Option Stored := server.items key

def deleteItem (key : Bytes) : Bool × MemcacheServer :=
  ((server.items key).isSome, { server with items := Function.update server.items key none })

def incrementCas : MemcacheServer := { server with gCas := server.gCas + 1 }

def insert (item : Stored) : MemcacheServer :=
  { server with items := Function.update server.items item.key (some item) }

def insertNew (item : Stored) : MemcacheServer :=
  server.incrementCas.insert (item.setCas server.incrementCas.gCas)

/-- The new item of `kAppend` and `kPrepend`; its value is `first` and then `second`. -/
def join (item oldItem : Stored) (first second : Bytes) : Option (Bool × Bool × MemcacheServer) :=
  let newLen := int32 (item.valuelen + oldItem.valuelen - 2)
  (Item.makeItem item.key oldItem.flags oldItem.relExptime newLen server.incrementCas.gCas).bind
    fun newItem => ((newItem.append first).bind fun newItem => newItem.append second).bind
      fun newItem =>
        if whole : newItem.neededBytes = 0 ∧ newItem.endsWithCRLF then
          some (true, true, server.incrementCas.insert ⟨newItem, whole.2⟩)
        else none

/-- Whether the item is stored, and `*exists`. -/
def storeItem (item : Stored) (policy : UpdatePolicy) : Option (Bool × Bool × MemcacheServer) :=
  if item.neededBytes = 0 then
    match policy, server.items item.key with
    | .set, it => some (true, it.isSome, server.insertNew item)
    | .add, some _ => some (false, true, server)
    | .add, none => some (true, false, server.insertNew item)
    | .replace, some _ => some (true, true, server.insertNew item)
    | .replace, none => some (false, false, server)
    | .append, some oldItem =>
      server.join item oldItem (oldItem.value.take (oldItem.valuelen - 2)) item.value
    | .append, none => some (false, false, server)
    | .prepend, some oldItem =>
      server.join item oldItem (item.value.take (item.valuelen - 2)) oldItem.value
    | .prepend, none => some (false, false, server)
    | .cas, some oldItem =>
      if oldItem.cas = item.cas then some (true, true, server.insertNew item)
      else some (false, true, server)
    | .cas, none => some (false, false, server)
    | .invalid, _ => none
  else none

/-- An item that is joined to the one in the table does not become too long for an `int`. -/
def fits (item : Item) (policy : UpdatePolicy) : Bool :=
  match policy, server.items item.key with
  | .append, some oldItem => item.keylen + item.valuelen + oldItem.valuelen < 2 ^ 31 + 2
  | .prepend, some oldItem => item.keylen + item.valuelen + oldItem.valuelen < 2 ^ 31 + 2
  | _, _ => true

end MemcacheServer

/-! ### Items -/

namespace Item
variable {item : Item} {data more : Bytes}

theorem key_length (item : Item) : item.key.length = item.keylen :=
  List.length_take_of_le item.keyed

theorem append_none (long : item.neededBytes < data.length) : item.append data = none :=
  dif_neg (Nat.not_le.mpr long)

theorem append_some (fits : data.length ≤ item.neededBytes) :
    ∃ item' : Item, item.append data = some item' ∧ item'.data = item.data ++ data ∧
      item'.keylen = item.keylen ∧ item'.valuelen = item.valuelen ∧
      item'.neededBytes = item.neededBytes - data.length := by
  refine ⟨_, dif_pos fits, rfl, rfl, rfl, ?_⟩
  rw [neededBytes, neededBytes, List.length_append, Nat.sub_add_eq]
  rfl

theorem key_eq {item' : Item} (keylen : item'.keylen = item.keylen)
    (data' : item'.data = item.data ++ data) : item'.key = item.key := by
  rw [key, key, keylen, data', List.take_append_of_le_length item.keyed]

theorem append_append (item : Item) (data more : Bytes) :
    ((item.append data).bind fun item => item.append more) = item.append (data ++ more) := by
  by_cases fits : data.length ≤ item.neededBytes
  · obtain ⟨item', appended, data', -, -, needed⟩ := append_some fits
    rw [appended, Option.bind_some, append, append]
    have sum : more.length ≤ item'.neededBytes ↔ (data ++ more).length ≤ item.neededBytes := by
      rw [needed, List.length_append]
      omega
    rw [append, dif_pos fits] at appended
    cases appended
    by_cases both : (data ++ more).length ≤ item.neededBytes
    · rw [dif_pos (sum.mpr both), dif_pos both]
      simp only [List.append_assoc]
    · rw [dif_neg (mt sum.mp both), dif_neg both]
  · rw [append_none (Nat.not_le.mp fits), append_none, Option.bind_none]
    rw [List.length_append]
    omega

theorem makeItem_isSome {key : Bytes} {flags : UInt32} {exptime valuelen : Int} {cas : UInt64} :
    (makeItem key flags exptime valuelen cas).isSome ↔
      2 ≤ valuelen ∧ key.length + valuelen < 2 ^ 31 := by
  rw [makeItem]
  split
  · exact iff_of_true rfl ‹_›
  · exact iff_of_false Bool.false_ne_true ‹_›

theorem makeItem_some {key : Bytes} {flags : UInt32} {exptime valuelen : Int} {cas : UInt64}
    (made : makeItem key flags exptime valuelen cas = some item) :
    item.data = key ∧ item.neededBytes = valuelen.toNat := by
  rw [makeItem] at made
  split at made
  · cases made
    exact ⟨rfl, Nat.add_sub_cancel_left ..⟩
  · cases made

theorem neededBytes_eq_zero : item.neededBytes = 0 ↔ item.data.length = item.totalLen := by
  have room : item.data.length ≤ item.totalLen := item.room
  rw [neededBytes]
  omega

end Item

namespace Stored
variable (stored : Stored)

theorem value_length : stored.value.length = stored.valuelen := by
  rw [Item.value, List.length_drop, stored.whole.1, Item.totalLen, Nat.add_sub_cancel_left]

theorem value_crlf : crlf <:+ stored.value := by
  refine List.suffix_of_suffix_length_le stored.whole.2 (List.drop_suffix _ _) ?_
  exact Nat.le_trans stored.valued (Nat.le_of_eq stored.value_length.symm)

end Stored

namespace MemcacheServer
variable {server : MemcacheServer} {item : Stored} {policy : UpdatePolicy}

theorem newLen_sound {keylen m n : Nat} (small : m < 2 ^ 31) (small' : n < 2 ^ 31) (two : 2 ≤ m)
    (two' : 2 ≤ n) : (2 ≤ int32 (m + n - 2) ∧ keylen + int32 (m + n - 2) < 2 ^ 31) ↔
      keylen + m + n < 2 ^ 31 + 2 := by
  rw [int32, Int.bmod_def]
  split <;> omega

theorem join_isSome {oldItem : Stored} {first second : Bytes}
    (lengths : first.length + second.length + 2 = item.valuelen + oldItem.valuelen)
    (ends : crlf <:+ second) : (server.join item oldItem first second).isSome ↔
      item.keylen + item.valuelen + oldItem.valuelen < 2 ^ 31 + 2 := by
  have small := item.total
  have small' := oldItem.total
  have isSome : item.keylen + item.valuelen + oldItem.valuelen < 2 ^ 31 + 2 ↔
      (Item.makeItem item.key oldItem.flags oldItem.relExptime
        (int32 (item.valuelen + oldItem.valuelen - 2)) server.incrementCas.gCas).isSome := by
    rw [Item.makeItem_isSome, item.key_length]
    exact (newLen_sound (by omega) (by omega) item.valued oldItem.valued).symm
  rw [isSome, join]
  cases made : Item.makeItem item.key oldItem.flags oldItem.relExptime
      (int32 (item.valuelen + oldItem.valuelen - 2)) server.incrementCas.gCas with
  | none => exact Iff.rfl
  | some newItem =>
    have fits := isSome.mpr (made ▸ rfl)
    obtain ⟨data, needed⟩ := Item.makeItem_some made
    rw [int32_eq (by omega) (by omega)] at needed
    have whole : (first ++ second).length = newItem.neededBytes := by
      rw [needed, List.length_append]
      omega
    obtain ⟨newItem', appended, data', -, -, needed'⟩ := Item.append_some (Nat.le_of_eq whole)
    have complete : newItem'.neededBytes = 0 := by rw [needed', whole, Nat.sub_self]
    have ends' : newItem'.endsWithCRLF := by
      refine ⟨Item.neededBytes_eq_zero.mp complete, ?_⟩
      rw [data']
      exact ends.trans ((List.suffix_append first second).trans (List.suffix_append _ _))
    rw [Option.bind_some, Item.append_append, appended, Option.bind_some, dif_pos ⟨complete, ends'⟩]
    exact iff_of_true rfl rfl

theorem fits_congr {item item' : Item} (key : item'.key = item.key)
    (keylen : item'.keylen = item.keylen) (valuelen : item'.valuelen = item.valuelen) :
    server.fits item' policy = server.fits item policy := by
  rw [fits.eq_def, fits.eq_def, key, keylen, valuelen]

theorem storeItem_isSome (valid : policy ≠ .invalid) :
    (server.storeItem item policy).isSome ↔ server.fits item.toItem policy = true := by
  have lengths : ∀ oldItem : Stored,
      (oldItem.value.take (oldItem.valuelen - 2)).length + item.value.length + 2 =
        item.valuelen + oldItem.valuelen ∧
      (item.value.take (item.valuelen - 2)).length + oldItem.value.length + 2 =
        item.valuelen + oldItem.valuelen := by
    intro oldItem
    have two := item.valued
    have two' := oldItem.valued
    simp only [List.length_take, Stored.value_length]
    omega
  rw [storeItem.eq_def, if_pos (Item.neededBytes_eq_zero.mpr item.whole.1), fits.eq_def]
  cases policy with
  | invalid => exact absurd rfl valid
  | set => exact iff_of_true rfl rfl
  | add | replace => cases server.items item.key <;> exact iff_of_true rfl rfl
  | append =>
    cases server.items item.key with
    | none => exact iff_of_true rfl rfl
    | some oldItem =>
      exact (join_isSome (lengths oldItem).1 item.value_crlf).trans decide_eq_true_iff.symm
  | prepend =>
    cases server.items item.key with
    | none => exact iff_of_true rfl rfl
    | some oldItem =>
      exact (join_isSome (lengths oldItem).2 oldItem.value_crlf).trans decide_eq_true_iff.symm
  | cas =>
    cases server.items item.key with
    | none => exact iff_of_true rfl rfl
    | some oldItem =>
      dsimp only
      split <;> exact iff_of_true rfl rfl

end MemcacheServer

end ProjectsCpp.Memcached
