import Mathlib.Data.List.Nodup
import Mathlib.Logic.Function.Basic

/-! Doubly linked lists on a heap of nodes. A list hangs behind a node that is not one of its
elements (its dummy head) and ends with a null `next`. `insertAfter` and `unlink` are the two
edits, at the level of pointers; reading or writing through an address that holds no node gives
`none`. What an edit does is stated with the list that the heap represents. -/

namespace ProjectsCpp.LinkedList

structure Node (α : Type) where
  value : α
  pre : Option Nat
  next : Option Nat
deriving DecidableEq

abbrev Heap (α : Type) := Nat → Option (Node α)

variable {α : Type}

def nextOf (h : Heap α) (a : Nat) : Option (Option Nat) := (h a).map Node.next

def preOf (h : Heap α) (a : Nat) : Option (Option Nat) := (h a).map Node.pre

def valueOf (h : Heap α) (a : Nat) : Option α := (h a).map Node.value

def setNext (h : Heap α) (a : Nat) (p : Option Nat) : Option (Heap α) :=
  (h a).map fun node => Function.update h a (some { node with next := p })

def setPre (h : Heap α) (a : Nat) (p : Option Nat) : Option (Heap α) :=
  (h a).map fun node => Function.update h a (some { node with pre := p })

def setValue (h : Heap α) (a : Nat) (value : α) : Option (Heap α) :=
  (h a).map fun node => Function.update h a (some { node with value := value })

/-- `p->setPre(..)` for a pointer that may be null. -/
def setPreOf (h : Heap α) : Option Nat → Option Nat → Option (Heap α)
  | none, _ => some h
  | some a, p => setPre h a p

def insertAfter (h : Heap α) (a x : Nat) : Option (Heap α) :=
  (nextOf h a).bind fun after =>
    (setPreOf h after (some x)).bind fun h =>
      (setNext h x after).bind fun h =>
        (setPre h x (some a)).bind fun h => setNext h a (some x)

/-- The node `x` leaves its list; its own pointers stay as they are. -/
def unlink (h : Heap α) (x : Nat) : Option (Heap α) :=
  (h x).bind fun node => node.pre.bind fun before =>
    (setNext h before node.next).bind fun h => setPreOf h node.next (some before)

/-! ### Writes -/

variable {h h' : Heap α} {a b x y z : Nat} {p : Option Nat}

theorem setNext_spec (done : setNext h a p = some h') :
    nextOf h' a = some p ∧ (∀ z, z ≠ a → nextOf h' z = nextOf h z) ∧ preOf h' = preOf h ∧
      valueOf h' = valueOf h := by
  obtain ⟨node, found, rfl⟩ := Option.map_eq_some_iff.mp done
  refine ⟨by simp [nextOf], fun z apart => by simp [nextOf, apart], funext fun z => ?_,
    funext fun z => ?_⟩
  · by_cases same : z = a
    · simp [preOf, same, found]
    · simp [preOf, same]
  · by_cases same : z = a
    · simp [valueOf, same, found]
    · simp [valueOf, same]

theorem setPre_spec (done : setPre h a p = some h') :
    preOf h' a = some p ∧ (∀ z, z ≠ a → preOf h' z = preOf h z) ∧ nextOf h' = nextOf h ∧
      valueOf h' = valueOf h := by
  obtain ⟨node, found, rfl⟩ := Option.map_eq_some_iff.mp done
  refine ⟨by simp [preOf], fun z apart => by simp [preOf, apart], funext fun z => ?_,
    funext fun z => ?_⟩
  · by_cases same : z = a
    · simp [nextOf, same, found]
    · simp [nextOf, same]
  · by_cases same : z = a
    · simp [valueOf, same, found]
    · simp [valueOf, same]

structure Wrote (h h' : Heap α) (a : Nat) (value : α) : Prop where
  value : valueOf h' a = some value
  others : ∀ z, z ≠ a → valueOf h' z = valueOf h z
  next : nextOf h' = nextOf h
  pre : preOf h' = preOf h

theorem Wrote.refl {value : α} (found : valueOf h a = some value) : Wrote h h a value :=
  ⟨found, fun _ _ => rfl, rfl, rfl⟩

theorem setValue_spec {v : α} (alive : valueOf h a ≠ none) :
    ∃ h', setValue h a v = some h' ∧ Wrote h h' a v := by
  cases found : h a with
  | none => exact absurd (by rw [valueOf, found]; rfl) alive
  | some node =>
    refine ⟨_, by rw [setValue, found]; rfl, by simp [valueOf],
      fun z apart => by simp [valueOf, apart], funext fun z => ?_, funext fun z => ?_⟩
    · by_cases same : z = a
      · simp [nextOf, same, found]
      · simp [nextOf, same]
    · by_cases same : z = a
      · simp [preOf, same, found]
      · simp [preOf, same]

/-! ### Lists -/

def Points (h : Heap α) (a b : Nat) : Prop :=
  nextOf h a = some (some b) ∧ preOf h b = some (some a)

def Linked (h : Heap α) : Nat → List Nat → Prop
  | a, [] => nextOf h a = some none
  | a, x :: xs => Points h a x ∧ Linked h x xs

/-- The way from `a` through a list to `b`. -/
def Path (h : Heap α) : Nat → List Nat → Nat → Prop
  | a, [], b => Points h a b
  | a, x :: xs, b => Points h a x ∧ Path h x xs b

variable {l r xs ys : List Nat}

theorem linked_append : Linked h a (l ++ b :: r) ↔ Path h a l b ∧ Linked h b r := by
  induction l generalizing a with
  | nil => exact Iff.rfl
  | cons x l ih =>
    rw [List.cons_append, Linked, Path, ih]
    exact and_assoc.symm

theorem Linked.congr (linked : Linked h a xs) (next : ∀ z ∈ a :: xs, nextOf h' z = nextOf h z)
    (pre : ∀ z ∈ xs, preOf h' z = preOf h z) : Linked h' a xs := by
  induction xs generalizing a with
  | nil => exact (next a (.head _)).trans linked
  | cons x xs ih =>
    obtain ⟨⟨forth, back⟩, rest⟩ := linked
    exact ⟨⟨(next a (.head _)).trans forth, (pre x (.head _)).trans back⟩,
      ih rest (fun z inside => next z (.tail _ inside)) fun z inside => pre z (.tail _ inside)⟩

theorem Path.congr (path : Path h a l b) (next : ∀ z ∈ a :: l, nextOf h' z = nextOf h z)
    (pre : ∀ z ∈ l ++ [b], preOf h' z = preOf h z) : Path h' a l b := by
  induction l generalizing a with
  | nil => exact ⟨(next a (.head _)).trans path.1, (pre b (.head _)).trans path.2⟩
  | cons x l ih =>
    obtain ⟨⟨forth, back⟩, rest⟩ := path
    exact ⟨⟨(next a (.head _)).trans forth, (pre x (.head _)).trans back⟩,
      ih rest (fun z inside => next z (.tail _ inside)) fun z inside => pre z (.tail _ inside)⟩

theorem Linked.unique (left : Linked h a xs) (right : Linked h a ys) : xs = ys := by
  induction xs generalizing a ys with
  | nil =>
    cases ys with
    | nil => rfl
    | cons y ys => exact nomatch (left : nextOf h a = some none).symm.trans right.1.1
  | cons x xs ih =>
    cases ys with
    | nil => exact nomatch left.1.1.symm.trans (right : nextOf h a = some none)
    | cons y ys =>
      obtain rfl : x = y := Option.some.inj (Option.some.inj (left.1.1.symm.trans right.1.1))
      rw [ih left.2 right.2]

theorem Linked.next (linked : Linked h a xs) : nextOf h a = some xs.head? := by
  cases xs with
  | nil => exact linked
  | cons x xs => exact linked.1.1

theorem Path.pre (path : Path h a l b) : preOf h b = some (some (l.getLastD a)) := by
  induction l generalizing a with
  | nil => exact path.2
  | cons x l ih =>
    rw [List.getLastD_cons]
    exact ih path.2

theorem valueOf_eq_none : valueOf h a = none ↔ h a = none := Option.map_eq_none_iff

theorem Linked.alive (linked : Linked h a xs) (inside : z ∈ a :: xs) : valueOf h z ≠ none := by
  induction xs generalizing a with
  | nil =>
    rw [List.mem_singleton.mp inside]
    obtain ⟨node, found, -⟩ := Option.map_eq_some_iff.mp linked
    simp [valueOf, found]
  | cons x xs ih =>
    rcases List.mem_cons.mp inside with rfl | later
    · obtain ⟨node, found, -⟩ := Option.map_eq_some_iff.mp linked.1.1
      simp [valueOf, found]
    · exact ih linked.2 later

/-- The nodes behind `a` in the order of the pointers, as far as `rounds` goes. -/
def walk (h : Heap α) : Nat → Nat → Option (List Nat)
  | 0, _ => none
  | rounds + 1, a => (nextOf h a).bind fun next =>
    match next with
    | none => some []
    | some b => (walk h rounds b).map (b :: ·)

theorem Linked.walk {rounds : Nat} (linked : Linked h a xs) (enough : xs.length < rounds) :
    walk h rounds a = some xs := by
  induction xs generalizing a rounds with
  | nil =>
    obtain ⟨rounds, rfl⟩ := Nat.exists_eq_succ_of_ne_zero (Nat.pos_iff_ne_zero.mp enough)
    rw [LinkedList.walk, linked.next]
    rfl
  | cons x xs ih =>
    obtain ⟨rounds, rfl⟩ := Nat.exists_eq_succ_of_ne_zero (Nat.ne_of_gt (Nat.zero_lt_of_lt enough))
    rw [LinkedList.walk, linked.1.1, Option.bind_some]
    simp only [ih linked.2 (Nat.lt_of_succ_lt_succ enough), Option.map_some]

/-! ### The edits -/

theorem setNext_alive (p : Option Nat) (alive : valueOf h a ≠ none) :
    ∃ h', setNext h a p = some h' := by
  cases found : h a with
  | none => exact absurd (by rw [valueOf, found]; rfl) alive
  | some node => exact ⟨_, by rw [setNext, found]; rfl⟩

theorem setPre_alive (p : Option Nat) (alive : valueOf h a ≠ none) :
    ∃ h', setPre h a p = some h' := by
  cases found : h a with
  | none => exact absurd (by rw [valueOf, found]; rfl) alive
  | some node => exact ⟨_, by rw [setPre, found]; rfl⟩

theorem setPreOf_spec (p : Option Nat) (alive : ∀ y ∈ xs.head?, valueOf h y ≠ none) :
    ∃ h', setPreOf h xs.head? p = some h' ∧ nextOf h' = nextOf h ∧ valueOf h' = valueOf h ∧
      (∀ y ∈ xs.head?, preOf h' y = some p) ∧ ∀ z, z ∉ xs.head? → preOf h' z = preOf h z := by
  cases xs with
  | nil => exact ⟨h, rfl, rfl, rfl, nofun, fun _ _ => rfl⟩
  | cons y ys =>
    obtain ⟨h', done⟩ := setPre_alive p (alive y rfl)
    obtain ⟨pre, others, next, value⟩ := setPre_spec done
    refine ⟨h', done, next, value, ?_, fun z apart => others z fun same => apart (same ▸ rfl)⟩
    exact fun z first => Option.some.inj first ▸ pre

/-- What an edit does to a list, and what it leaves alone: the values, the `next` of all other
nodes than `cut`, and the `pre` of the nodes outside the list that follows. -/
structure Edited (h h' : Heap α) (a : Nat) (xs cut after : List Nat) : Prop where
  linked : Linked h' a xs
  value : valueOf h' = valueOf h
  next : ∀ z, z ∉ cut → nextOf h' z = nextOf h z
  pre : ∀ z, z ∉ after → preOf h' z = preOf h z

theorem insertAfter_spec (linked : Linked h a xs) (alive : valueOf h x ≠ none)
    (new : x ∉ a :: xs) (once : (a :: xs).Nodup) :
    ∃ h', insertAfter h a x = some h' ∧ Edited h h' a (x :: xs) [a, x] (x :: xs) := by
  obtain ⟨apart, outside⟩ : x ≠ a ∧ x ∉ xs := by simpa using new
  obtain ⟨alone, once⟩ := List.nodup_cons.mp once
  have heads : ∀ y ∈ xs.head?, y ∈ xs := fun y first => List.mem_of_mem_head? first
  obtain ⟨h₁, first, next₁, value₁, pre₁, others₁⟩ := setPreOf_spec (some x)
    fun y first => linked.alive (.tail _ (heads y first))
  obtain ⟨h₂, second⟩ := setNext_alive (h := h₁) xs.head? (value₁ ▸ alive)
  obtain ⟨to₂, next₂, pre₂, value₂⟩ := setNext_spec second
  obtain ⟨h₃, third⟩ := setPre_alive (h := h₂) (some a) (by rwa [value₂, value₁])
  obtain ⟨back₃, pre₃, next₃, value₃⟩ := setPre_spec third
  obtain ⟨h₄, fourth⟩ := setNext_alive (h := h₃) (a := a) (some x)
    (by rw [value₃, value₂, value₁]; exact linked.alive (.head _))
  obtain ⟨to₄, next₄, pre₄, value₄⟩ := setNext_spec fourth
  have next : ∀ z, z ≠ a → z ≠ x → nextOf h₄ z = nextOf h z := fun z ne other => by
    rw [next₄ z ne, next₃, next₂ z other, next₁]
  have pre : ∀ z, z ≠ x → z ∉ xs.head? → preOf h₄ z = preOf h z := fun z other no => by
    rw [pre₄, pre₃ z other, pre₂, others₁ z no]
  have behind : Linked h₄ x xs := by
    have out : nextOf h₄ x = some xs.head? := by rw [next₄ x apart, next₃, to₂]
    cases xs with
    | nil => exact out
    | cons y ys =>
      obtain ⟨unlike, once⟩ := List.nodup_cons.mp once
      refine ⟨⟨out, ?_⟩, linked.2.congr (fun z inside => ?_) fun z inside => ?_⟩
      · rw [pre₄, pre₃ y fun same => outside (same ▸ .head _), pre₂, pre₁ y rfl]
      · exact next z (fun same => alone (same ▸ inside)) fun same => outside (same ▸ inside)
      · exact pre z (fun same => outside (same ▸ .tail _ inside))
          fun same => unlike (Option.some.inj same ▸ inside)
  refine ⟨h₄, ?_, ⟨⟨to₄, ?_⟩, behind⟩, ?_, ?_, ?_⟩
  · rw [insertAfter, linked.next, Option.bind_some, first, Option.bind_some, second,
      Option.bind_some, third, Option.bind_some, fourth]
  · rw [pre₄, back₃]
  · rw [value₄, value₃, value₂, value₁]
  · intro z outside
    simp only [List.mem_cons, List.not_mem_nil, or_false, not_or] at outside
    exact next z outside.1 outside.2
  · intro z outside
    simp only [List.mem_cons, not_or] at outside
    exact pre z outside.1 fun first => outside.2 (heads z first)

theorem unlink_spec (linked : Linked h a (x :: xs)) (once : (a :: x :: xs).Nodup) :
    ∃ h', unlink h x = some h' ∧ Edited h h' a xs [a] xs := by
  obtain ⟨⟨forth, back⟩, behind⟩ := linked
  obtain ⟨alone, once⟩ := List.nodup_cons.mp once
  obtain ⟨outside, once⟩ := List.nodup_cons.mp once
  have heads : ∀ y ∈ xs.head?, y ∈ xs := fun y first => List.mem_of_mem_head? first
  obtain ⟨node, found, pre⟩ := Option.map_eq_some_iff.mp back
  obtain ⟨node', found', next⟩ := Option.map_eq_some_iff.mp behind.next
  cases found.symm.trans found'
  obtain ⟨nodeA, foundA, -⟩ := Option.map_eq_some_iff.mp forth
  obtain ⟨h₁, first⟩ := setNext_alive (h := h) (a := a) xs.head? (by simp [valueOf, foundA])
  obtain ⟨to₁, next₁, pre₁, value₁⟩ := setNext_spec first
  obtain ⟨h₂, second, next₂, value₂, pre₂, others₂⟩ := setPreOf_spec (h := h₁) (some a)
    fun y first => by rw [value₁]; exact behind.alive (.tail _ (heads y first))
  refine ⟨h₂, ?_, ?_, ?_, ?_, ?_⟩
  · rw [unlink, found, Option.bind_some, pre, Option.bind_some, next, first, Option.bind_some,
      second]
  · have out : nextOf h₂ a = some xs.head? := by rw [next₂, to₁]
    cases xs with
    | nil => exact out
    | cons y ys =>
      obtain ⟨unlike, once⟩ := List.nodup_cons.mp once
      refine ⟨⟨out, pre₂ y rfl⟩, behind.2.congr (fun z inside => ?_) fun z inside => ?_⟩
      · rw [next₂, next₁ z fun same => alone (same ▸ .tail _ inside)]
      · rw [others₂ z fun same => unlike (Option.some.inj same ▸ inside), pre₁]
  · rw [value₂, value₁]
  · intro z outside
    rw [next₂, next₁ z fun same => outside (same ▸ .head _)]
  · intro z outside
    rw [others₂ z fun first => outside (heads z first), pre₁]

theorem Edited.within {cut after new : List Nat} (edited : Edited h h' b new cut after)
    (linked : Linked h a (l ++ b :: r)) (next : ∀ z ∈ a :: l, z ∉ cut)
    (pre : ∀ z ∈ l ++ [b], z ∉ after) : Edited h h' a (l ++ b :: new) cut after where
  linked := linked_append.mpr ⟨(linked_append.mp linked).1.congr
    (fun z inside => edited.next z (next z inside)) fun z inside => edited.pre z (pre z inside),
    edited.linked⟩
  value := edited.value
  next := edited.next
  pre := edited.pre

theorem Linked.edited {c : Nat} {cut after new : List Nat} (linked : Linked h a xs)
    (edited : Edited h h' c new cut after) (next : ∀ z ∈ a :: xs, z ∉ cut)
    (pre : ∀ z ∈ xs, z ∉ after) : Linked h' a xs :=
  linked.congr (fun z inside => edited.next z (next z inside))
    fun z inside => edited.pre z (pre z inside)

theorem nodup_parts (once : (a :: (l ++ b :: r)).Nodup) :
    (b :: r).Nodup ∧ (∀ z ∈ a :: l, z ∉ b :: r) ∧ ∀ z ∈ l ++ [b], z ∉ r := by
  have split : (a :: l) ++ (b :: r) = a :: (l ++ b :: r) := rfl
  rw [← split] at once
  obtain ⟨-, last, apart⟩ := List.nodup_append'.mp once
  refine ⟨last, fun z left right => apart left right, fun z inside right => ?_⟩
  rcases List.mem_append.mp inside with left | same
  · exact apart (.tail _ left) (.tail _ right)
  · rw [List.mem_singleton.mp same] at right
    exact (List.nodup_cons.mp last).1 right

theorem insertAfter_within (linked : Linked h a (l ++ b :: r)) (alive : valueOf h x ≠ none)
    (new : x ∉ a :: (l ++ b :: r)) (once : (a :: (l ++ b :: r)).Nodup) :
    ∃ h', insertAfter h b x = some h' ∧ Edited h h' a (l ++ b :: x :: r) [b, x] (x :: r) := by
  obtain ⟨last, apart, before⟩ := nodup_parts once
  have noRight : x ∉ b :: r := fun inside => new (.tail _ (List.mem_append_right _ inside))
  obtain ⟨h', done, edited⟩ := insertAfter_spec (linked_append.mp linked).2 alive noRight last
  refine ⟨h', done, edited.within linked (fun z inside member => ?_) fun z inside member => ?_⟩
  · rcases List.mem_cons.mp member with rfl | same
    · exact apart z inside (.head _)
    · rw [List.mem_singleton.mp same] at inside
      exact new ((List.sublist_append_left (a :: l) (b :: r)).subset inside)
  · rcases List.mem_cons.mp member with rfl | right
    · refine new (.tail _ ?_)
      rcases List.mem_append.mp inside with left | same
      · exact List.mem_append_left _ left
      · exact List.mem_append_right _ (List.mem_singleton.mp same ▸ .head _)
    · exact before z inside right

theorem insertAfter_any (linked : Linked h a xs) (cut : a :: xs = l ++ b :: r)
    (alive : valueOf h x ≠ none) (new : x ∉ a :: xs) (once : (a :: xs).Nodup) :
    ∃ h' ys, a :: ys = l ++ b :: x :: r ∧ insertAfter h b x = some h' ∧
      Edited h h' a ys [b, x] (x :: r) := by
  cases l with
  | nil =>
    obtain ⟨rfl, rfl⟩ := List.cons.inj cut
    obtain ⟨h', done, edited⟩ := insertAfter_spec linked alive new once
    exact ⟨h', _, rfl, done, edited⟩
  | cons top l =>
    obtain ⟨rfl, rfl⟩ := List.cons.inj cut
    obtain ⟨h', done, edited⟩ := insertAfter_within linked alive new once
    exact ⟨h', _, rfl, done, edited⟩

theorem unlink_within (linked : Linked h a (l ++ x :: r)) (once : (a :: (l ++ x :: r)).Nodup) :
    ∃ h', unlink h x = some h' ∧ Edited h h' a (l ++ r) (a :: l) r := by
  rcases List.eq_nil_or_concat l with rfl | ⟨l, b, rfl⟩
  · exact unlink_spec linked once
  · rw [List.concat_eq_append, List.append_assoc] at linked once ⊢
    obtain ⟨last, apart, before⟩ := nodup_parts once
    obtain ⟨h', done, edited⟩ := unlink_spec (linked_append.mp linked).2 last
    refine ⟨h', done, ?_⟩
    have whole := edited.within linked
      (fun z inside member => apart z inside (List.mem_singleton.mp member ▸ .head _))
      fun z inside member => before z inside (.tail _ member)
    refine ⟨whole.linked, whole.value, fun z outside => whole.next z fun member => outside ?_,
      whole.pre⟩
    rw [List.mem_singleton.mp member]
    exact .tail _ (List.mem_append_right _ (List.mem_singleton_self _))

end ProjectsCpp.LinkedList
