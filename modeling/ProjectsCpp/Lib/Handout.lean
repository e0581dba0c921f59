import Mathlib.Data.List.Nodup
import Mathlib.Data.List.Perm.Subperm

/-! Threads that take the items of a list, round after round. A round marks some items and
starts one thread for every item, special ones for the marked items. A thread takes the first
item of its kind that nobody has taken, and the one that takes the last item wipes marks and
takings. Rounds may start while threads of earlier rounds still wait. -/

namespace ProjectsCpp.Handout

variable {α : Type} [DecidableEq α]

/-- What is marked and taken, how many threads wait, and the history: the items that each round
wanted marked, and the items handed out, with the kind of thread that took them. -/
structure Ledger (α : Type) where
  marked : α → Bool
  taken : List α
  plain : Nat
  special : Nat
  rounds : List (α → Bool)
  handed : List (α × Bool)

namespace Ledger

def threads (l : Ledger α) : Bool → Nat
  | false => l.plain
  | true => l.special

def waiting (items : List α) (l : Ledger α) (kind : Bool) : List α :=
  items.filter fun x => decide (l.marked x = kind ∧ x ∉ l.taken)

def round (items : List α) (l : Ledger α) (behind : α → Bool) : Ledger α :=
  { l with
    marked := fun x => behind x || l.marked x
    plain := l.plain + (items.length - items.countP behind)
    special := l.special + items.countP behind
    rounds := l.rounds ++ [behind] }

def hand (items : List α) (l : Ledger α) (x : α) (kind : Bool) : Ledger α :=
  let taken := x :: l.taken
  { marked := if taken.length = items.length then fun _ => false else l.marked
    taken := if taken.length = items.length then [] else taken
    plain := if kind then l.plain else l.plain - 1
    special := if kind then l.special - 1 else l.special
    rounds := l.rounds
    handed := l.handed ++ [(x, kind)] }

omit [DecidableEq α] in
theorem hand_of_last {items : List α} {l : Ledger α} {x : α} {kind : Bool}
    (last : (x :: l.taken).length = items.length) :
    l.hand items x kind =
      { marked := fun _ => false
        taken := []
        plain := if kind then l.plain else l.plain - 1
        special := if kind then l.special - 1 else l.special
        rounds := l.rounds
        handed := l.handed ++ [(x, kind)] } := by
  rw [hand, if_pos last, if_pos last]

omit [DecidableEq α] in
theorem hand_of_more {items : List α} {l : Ledger α} {x : α} {kind : Bool}
    (more : (x :: l.taken).length ≠ items.length) :
    l.hand items x kind =
      { marked := l.marked
        taken := x :: l.taken
        plain := if kind then l.plain else l.plain - 1
        special := if kind then l.special - 1 else l.special
        rounds := l.rounds
        handed := l.handed ++ [(x, kind)] } := by
  rw [hand, if_neg more, if_neg more]

/-- A round may start when no thread waits, or when it marks nothing and no special thread
waits. -/
def Apart (items : List α) (l : Ledger α) (behind : α → Bool) : Prop :=
  (l.plain = 0 ∧ l.special = 0) ∨ (l.special = 0 ∧ ∀ x ∈ items, behind x = false)

def turn (items : List α) (l : Ledger α) (j : Nat) : List (α × Bool) :=
  (l.handed.drop (j * items.length)).take items.length

/-- The first `k` rounds are complete: each of them handed out every item once, the marked ones
to special threads. -/
def Past (items : List α) (l : Ledger α) (k : Nat) : Prop :=
  ∀ j < k, ∀ behind, l.rounds[j]? = some behind →
    (l.turn items j).Perm (items.map fun x => (x, behind x))

structure Idle (items : List α) (l : Ledger α) (k : Nat) : Prop where
  rounds : l.rounds.length = k
  handed : l.handed.length = k * items.length
  past : l.Past items k
  taken : l.taken = []
  marked : ∀ x ∈ items, l.marked x = false
  plain : l.plain = 0
  special : l.special = 0

structure Busy (items : List α) (l : Ledger α) (k later : Nat) : Prop where
  rounds : l.rounds.length = k + 1 + later
  handed : l.handed.length = k * items.length + l.taken.length
  past : l.Past items k
  current : l.handed.drop (k * items.length) = l.taken.reverse.map fun x => (x, l.marked x)
  nodup : l.taken.Nodup
  within : ∀ x ∈ l.taken, x ∈ items
  room : l.taken.length < items.length ∨ items = []
  marked : ∀ behind, l.rounds[k]? = some behind → ∀ x ∈ items, l.marked x = behind x
  plain : l.plain = (l.waiting items false).length + later * items.length
  special : l.special = (l.waiting items true).length
  quiet : 0 < later → l.special = 0
  unmarked : ∀ j behind, k < j → l.rounds[j]? = some behind → ∀ x ∈ items, behind x = false

def Kept (items : List α) (l : Ledger α) : Prop :=
  (∃ k, l.Idle items k) ∨ ∃ k later, l.Busy items k later

variable {items : List α} {l : Ledger α} {behind : α → Bool} {kind : Bool} {x : α} {k later : Nat}

/-! ### The items that wait -/

theorem mem_waiting : x ∈ l.waiting items kind ↔ x ∈ items ∧ l.marked x = kind ∧ x ∉ l.taken := by
  rw [waiting, List.mem_filter, decide_eq_true_eq]

theorem waiting_lengths (distinct : items.Nodup) (nodup : l.taken.Nodup)
    (within : ∀ x ∈ l.taken, x ∈ items) :
    l.taken.length + (l.waiting items false).length + (l.waiting items true).length =
      items.length := by
  have same : (items.filter fun x => decide (x ∈ l.taken)).Perm l.taken := by
    refine (List.perm_ext_iff_of_nodup (distinct.filter _) nodup).mpr fun x => ?_
    rw [List.mem_filter, decide_eq_true_eq]
    exact ⟨fun both => both.2, fun member => ⟨within x member, member⟩⟩
  have split : ∀ xs : List α, (xs.filter fun x => decide (x ∈ l.taken)).length +
      (l.waiting xs false).length + (l.waiting xs true).length = xs.length := by
    intro xs
    induction xs with
    | nil => rfl
    | cons x xs ih =>
      simp only [waiting, List.filter_cons, List.length_cons] at ih ⊢
      by_cases member : x ∈ l.taken
      · simp only [member, not_true_eq_false, and_false, decide_true, decide_false, if_true,
          List.length_cons, Bool.false_eq_true, if_false]
        omega
      · cases l.marked x <;>
          · simp only [member, not_false_eq_true, and_true, decide_true, decide_false, if_true,
              List.length_cons, Bool.false_eq_true, reduceCtorEq, if_false]
            omega
  rw [← same.length_eq]
  exact split items

theorem waiting_congr {l' : Ledger α} (marks : ∀ x ∈ items, l'.marked x = l.marked x)
    (taken : l'.taken = l.taken) : l'.waiting items kind = l.waiting items kind :=
  List.filter_congr fun x member => by rw [marks x member, taken]

theorem waiting_cons {l' : Ledger α} (distinct : items.Nodup) (waits : x ∈ l.waiting items kind)
    (marks : l'.marked = l.marked) (taken : l'.taken = x :: l.taken) :
    (l'.waiting items kind).length + 1 = (l.waiting items kind).length ∧
      l'.waiting items (!kind) = l.waiting items (!kind) := by
  obtain ⟨-, mark, -⟩ := mem_waiting.mp waits
  constructor
  · have erased : l'.waiting items kind = (l.waiting items kind).erase x := by
      have nodup : (l.waiting items kind).Nodup := distinct.filter _
      rw [nodup.erase_eq_filter, waiting, waiting, List.filter_filter]
      refine List.filter_congr fun y _ => ?_
      rw [marks, taken]
      by_cases same : y = x <;> simp [same]
    rw [erased, List.length_erase_of_mem waits]
    have positive := List.length_pos_of_mem waits
    omega
  · refine List.filter_congr fun y _ => ?_
    rw [marks, taken]
    by_cases same : y = x
    · rw [same, mark]
      cases kind <;> simp
    · simp [same]

theorem Kept.finds (distinct : items.Nodup) (kept : l.Kept items) (thread : l.threads kind ≠ 0) :
    ∃ x, (l.waiting items kind).head? = some x := by
  have waits : l.waiting items kind ≠ [] := by
    rcases kept with ⟨k, idle⟩ | ⟨k, later, busy⟩
    · cases kind with
      | false => exact absurd idle.plain thread
      | true => exact absurd idle.special thread
    · intro none
      have lengths := waiting_lengths distinct busy.nodup busy.within
      cases kind with
      | true =>
        have special := busy.special
        rw [none] at special
        exact thread special
      | false =>
        have plain := busy.plain
        have special := busy.special
        rw [none, List.length_nil] at plain lengths
        rcases busy.room with room | nil
        · have more : 0 < later := by
            by_contra zero
            rw [Nat.eq_zero_of_not_pos zero] at plain
            exact thread (by rw [threads, plain, Nat.zero_mul])
          have calm := busy.quiet more
          omega
        · rw [nil, List.length_nil, Nat.mul_zero] at plain
          exact thread plain
  exact ⟨_, List.head?_eq_some_head waits⟩

/-! ### Rounds -/

omit [DecidableEq α] in
theorem turn_append {j : Nat} {more : List (α × Bool)} {l' : Ledger α}
    (handed : l'.handed = l.handed ++ more) (whole : (j + 1) * items.length ≤ l.handed.length) :
    l'.turn items j = l.turn items j := by
  rw [Nat.succ_mul] at whole
  rw [turn, turn, handed, List.drop_append_of_le_length (by omega), List.take_append_of_le_length]
  rw [List.length_drop]
  omega

omit [DecidableEq α] in
theorem Past.append {more : List (α × Bool)} {l' : Ledger α} {added : List (α → Bool)}
    (past : l.Past items k) (handed : l'.handed = l.handed ++ more)
    (rounds : l'.rounds = l.rounds ++ added) (known : k ≤ l.rounds.length)
    (whole : k * items.length ≤ l.handed.length) : l'.Past items k := by
  intro j before behind found
  have upTo := Nat.mul_le_mul_right items.length (Nat.succ_le_of_lt before)
  rw [rounds, List.getElem?_append_left (by omega)] at found
  rw [turn_append handed (Nat.le_trans upTo whole)]
  exact past j before behind found

theorem Idle.round (distinct : items.Nodup) (idle : l.Idle items k) (behind : α → Bool) :
    (l.round items behind).Busy items k 0 := by
  have taken : (l.round items behind).taken = [] := idle.taken
  have marks : ∀ x ∈ items, (l.round items behind).marked x = behind x := by
    intro x member
    show (behind x || l.marked x) = behind x
    rw [idle.marked x member, Bool.or_false]
  have last : (l.round items behind).rounds[k]? = some behind := by
    show (l.rounds ++ [behind])[k]? = some behind
    rw [← idle.rounds, List.getElem?_concat_length]
  have special : ((l.round items behind).waiting items true).length = items.countP behind := by
    rw [List.countP_eq_length_filter, waiting]
    congr 1
    refine List.filter_congr fun x member => ?_
    rw [marks x member, taken]
    simp
  have nodup : (l.round items behind).taken.Nodup := by
    rw [taken]
    exact List.nodup_nil
  have within : ∀ x ∈ (l.round items behind).taken, x ∈ items := by
    rw [taken]
    exact fun x member => absurd member List.not_mem_nil
  have lengths := waiting_lengths distinct nodup within
  rw [taken, special, List.length_nil] at lengths
  refine
    { rounds := ?_
      handed := ?_
      past := idle.past.append (List.append_nil _).symm rfl (Nat.le_of_eq idle.rounds.symm)
        (Nat.le_of_eq idle.handed.symm)
      current := ?_
      nodup := nodup
      within := within
      room := ?_
      marked := ?_
      plain := ?_
      special := ?_
      quiet := fun more => absurd more (Nat.lt_irrefl _)
      unmarked := ?_ }
  · show (l.rounds ++ [behind]).length = _
    rw [List.length_append, idle.rounds]
    rfl
  · rw [taken]
    exact idle.handed
  · rw [taken]
    show l.handed.drop _ = _
    rw [← idle.handed, List.drop_length]
    rfl
  · rw [taken]
    cases items with
    | nil => exact .inr rfl
    | cons x xs => exact .inl (Nat.succ_pos _)
  · intro wanted found
    rw [last] at found
    cases found
    exact marks
  · show l.plain + _ = _
    rw [idle.plain]
    omega
  · show l.special + _ = _
    rw [idle.special, special, Nat.zero_add]
  · intro j wanted after found
    have inside := (List.getElem?_eq_some_iff.mp found).1
    have count : (l.round items behind).rounds.length = k + 1 := by
      show (l.rounds ++ [behind]).length = k + 1
      rw [List.length_append, idle.rounds]
      rfl
    omega

theorem Busy.round (busy : l.Busy items k later) (none : l.special = 0)
    (calm : ∀ x ∈ items, behind x = false) : (l.round items behind).Busy items k (later + 1) := by
  have zero : items.countP behind = 0 :=
    List.countP_eq_zero.mpr fun x member => by rw [calm x member]; exact Bool.false_ne_true
  have marks : ∀ x ∈ items, (l.round items behind).marked x = l.marked x := by
    intro x member
    show (behind x || l.marked x) = l.marked x
    rw [calm x member, Bool.false_or]
  have waits : ∀ kind, (l.round items behind).waiting items kind = l.waiting items kind :=
    fun kind => waiting_congr marks rfl
  have rounds : (l.round items behind).rounds = l.rounds ++ [behind] := rfl
  have count : (l.round items behind).rounds.length = k + 1 + (later + 1) := by
    rw [rounds, List.length_append, busy.rounds]
    rfl
  have known := busy.rounds
  have special : (l.round items behind).special = 0 := by
    show l.special + items.countP behind = 0
    rw [none, zero]
  refine
    { rounds := count
      handed := busy.handed
      past := busy.past.append (List.append_nil _).symm rounds (by omega) (by rw [busy.handed]; omega)
      current := ?_
      nodup := busy.nodup
      within := busy.within
      room := busy.room
      marked := ?_
      plain := ?_
      special := ?_
      quiet := fun _ => special
      unmarked := ?_ }
  · refine busy.current.trans (List.map_congr_left fun x member => ?_)
    rw [marks x (busy.within x (List.mem_reverse.mp member))]
  · intro wanted found x member
    rw [rounds, List.getElem?_append_left (by omega)] at found
    rw [marks x member]
    exact busy.marked wanted found x member
  · show l.plain + (items.length - items.countP behind) = _
    rw [waits, zero, busy.plain, Nat.succ_mul]
    omega
  · rw [special, waits, ← busy.special, none]
  · intro j wanted after found
    by_cases before : j < l.rounds.length
    · rw [rounds, List.getElem?_append_left before] at found
      exact busy.unmarked j wanted after found
    · have inside := (List.getElem?_eq_some_iff.mp found).1
      have last : j = l.rounds.length := by omega
      rw [rounds, last, List.getElem?_concat_length] at found
      cases found
      exact calm

theorem Kept.round (distinct : items.Nodup) (kept : l.Kept items) (apart : l.Apart items behind) :
    (l.round items behind).Kept items := by
  rcases kept with ⟨k, idle⟩ | ⟨k, later, busy⟩
  · exact .inr ⟨k, 0, idle.round distinct behind⟩
  · rcases apart with ⟨plain, special⟩ | ⟨special, calm⟩
    · -- a round under way has threads that wait, unless there is nothing to take
      refine .inr ⟨k, later + 1, busy.round special ?_⟩
      have lengths := waiting_lengths distinct busy.nodup busy.within
      have plain' := busy.plain
      have special' := busy.special
      rcases busy.room with room | nil
      · omega
      · rw [nil]
        exact fun x member => absurd member List.not_mem_nil
    · exact .inr ⟨k, later + 1, busy.round special calm⟩

/-! ### Threads -/

theorem Busy.hand (distinct : items.Nodup) (busy : l.Busy items k later)
    (thread : l.threads kind ≠ 0) (waits : x ∈ l.waiting items kind)
    (more : (x :: l.taken).length ≠ items.length) : (l.hand items x kind).Busy items k later := by
  obtain ⟨member, mark, new⟩ := mem_waiting.mp waits
  have marks : (l.hand items x kind).marked = l.marked := if_neg more
  have taken : (l.hand items x kind).taken = x :: l.taken := if_neg more
  have handed : (l.hand items x kind).handed = l.handed ++ [(x, kind)] := rfl
  obtain ⟨shorter, other⟩ := waiting_cons distinct waits marks taken
  have lengths := waiting_lengths distinct busy.nodup busy.within
  have count := busy.handed
  have plain := busy.plain
  have special := busy.special
  have known := busy.rounds
  have place := List.length_pos_of_mem waits
  refine
    { rounds := busy.rounds
      handed := ?_
      past := busy.past.append handed (List.append_nil _).symm (by omega) (by omega)
      current := ?_
      nodup := ?_
      within := ?_
      room := ?_
      marked := ?_
      plain := ?_
      special := ?_
      quiet := ?_
      unmarked := busy.unmarked }
  · rw [handed, taken, List.length_append, count]
    rfl
  · rw [handed, List.drop_append_of_le_length (by omega), busy.current, marks, taken,
      List.reverse_cons, List.map_append, ← mark]
    rfl
  · rw [taken]
    exact List.nodup_cons.mpr ⟨new, busy.nodup⟩
  · rw [taken]
    intro y among
    rcases List.mem_cons.mp among with rfl | before
    · exact member
    · exact busy.within y before
  · rw [taken]
    rw [List.length_cons] at more ⊢
    cases kind <;> exact .inl (by omega)
  · rw [marks]
    exact busy.marked
  · cases kind with
    | false =>
      show l.plain - 1 = _
      omega
    | true =>
      show l.plain = _
      rw [show (l.hand items x true).waiting items false = l.waiting items false from other, plain]
  · cases kind with
    | false =>
      show l.special = _
      rw [show (l.hand items x false).waiting items true = l.waiting items true from other, special]
    | true =>
      show l.special - 1 = _
      omega
  · intro quiet
    have none := busy.quiet quiet
    show (if kind then l.special - 1 else l.special) = 0
    split <;> omega

theorem Busy.handLast (distinct : items.Nodup) (busy : l.Busy items k later)
    (thread : l.threads kind ≠ 0) (waits : x ∈ l.waiting items kind)
    (last : (x :: l.taken).length = items.length) : (l.hand items x kind).Kept items := by
  obtain ⟨member, mark, new⟩ := mem_waiting.mp waits
  have marks : ∀ y, (l.hand items x kind).marked y = false := by
    intro y
    show (if (x :: l.taken).length = items.length then fun _ => false else l.marked) y = false
    rw [if_pos last]
  have taken : (l.hand items x kind).taken = [] := if_pos last
  have handed : (l.hand items x kind).handed = l.handed ++ [(x, kind)] := rfl
  have rounds : (l.hand items x kind).rounds = l.rounds := rfl
  have lengths := waiting_lengths distinct busy.nodup busy.within
  have place := List.length_pos_of_mem waits
  have plain := busy.plain
  have special := busy.special
  have known := busy.rounds
  have size : (l.taken.length + 1 : Nat) = items.length := last
  have count : (l.hand items x kind).handed.length = (k + 1) * items.length := by
    rw [handed, List.length_append, busy.handed, List.length_singleton, Nat.succ_mul]
    omega
  have whole : (x :: l.taken).reverse.Perm items := by
    refine (List.reverse_perm _).trans ?_
    have distinct' : (x :: l.taken).Nodup := List.nodup_cons.mpr ⟨new, busy.nodup⟩
    refine (distinct'.subperm fun y among => ?_).perm_of_length_le (Nat.le_of_eq last.symm)
    rcases List.mem_cons.mp among with rfl | before
    · exact member
    · exact busy.within y before
  have turn : (l.hand items x kind).turn items k =
      (x :: l.taken).reverse.map fun y => (y, l.marked y) := by
    rw [Ledger.turn, handed, List.drop_append_of_le_length (by rw [busy.handed]; omega),
      busy.current, List.reverse_cons, List.map_append, ← mark]
    refine List.take_of_length_le (Nat.le_of_eq ?_)
    rw [List.length_append, List.length_map, List.length_reverse]
    exact last
  have past : (l.hand items x kind).Past items (k + 1) := by
    have before : (l.hand items x kind).Past items k :=
      busy.past.append handed (List.append_nil _).symm (by omega) (by rw [busy.handed]; omega)
    intro j upTo behind found
    rcases Nat.lt_succ_iff_lt_or_eq.mp upTo with earlier | rfl
    · exact before j earlier behind found
    · rw [turn]
      refine (whole.map _).trans (List.Perm.of_eq (List.map_congr_left fun y among => ?_))
      rw [busy.marked behind found y among]
  have nobody : (l.hand items x kind).waiting items true = [] := by
    refine List.filter_eq_nil_iff.mpr fun y _ => ?_
    rw [marks y]
    simp
  have everybody : (l.hand items x kind).waiting items false = items := by
    refine List.filter_eq_self.mpr fun y _ => ?_
    rw [marks y, taken]
    simp
  have special' : (l.hand items x kind).special = 0 := by
    show (if kind then l.special - 1 else l.special) = 0
    cases kind
    · show l.special = 0
      omega
    · show l.special - 1 = 0
      omega
  have plain' : (l.hand items x kind).plain = later * items.length := by
    show (if kind then l.plain else l.plain - 1) = _
    cases kind
    · show l.plain - 1 = _
      omega
    · show l.plain = _
      omega
  cases later with
  | zero =>
    exact .inl ⟨k + 1, known, count, past, taken, fun y _ => marks y, by omega, special'⟩
  | succ later =>
    have calm := busy.quiet (Nat.succ_pos _)
    refine .inr ⟨k + 1, later, ?_⟩
    refine
      { rounds := ?_
        handed := ?_
        past := past
        current := ?_
        nodup := ?_
        within := ?_
        room := ?_
        marked := ?_
        plain := ?_
        special := ?_
        quiet := fun _ => special'
        unmarked := fun j behind after => busy.unmarked j behind (by omega) }
    · rw [rounds]
      omega
    · rw [count, taken]
      rfl
    · rw [taken, ← count, List.drop_length]
      rfl
    · rw [taken]
      exact List.nodup_nil
    · rw [taken]
      exact fun y among => absurd among List.not_mem_nil
    · rw [taken, List.length_nil]
      omega
    · intro behind found y among
      rw [marks y, busy.unmarked (k + 1) behind (Nat.lt_succ_self k) found y among]
    · rw [plain', everybody, Nat.succ_mul]
      omega
    · rw [special', nobody]
      rfl

theorem Kept.hand (distinct : items.Nodup) (kept : l.Kept items) (thread : l.threads kind ≠ 0)
    (first : (l.waiting items kind).head? = some x) : (l.hand items x kind).Kept items := by
  have waits : x ∈ l.waiting items kind := List.mem_of_mem_head? first
  rcases kept with ⟨k, idle⟩ | ⟨k, later, busy⟩
  · cases kind with
    | false => exact absurd idle.plain thread
    | true => exact absurd idle.special thread
  · by_cases last : (x :: l.taken).length = items.length
    · exact busy.handLast distinct thread waits last
    · exact .inr ⟨k, later, busy.hand distinct thread waits last⟩

/-! ### What holds in every state -/

theorem Kept.total (distinct : items.Nodup) (kept : l.Kept items) :
    l.handed.length + l.plain + l.special = l.rounds.length * items.length := by
  rcases kept with ⟨k, idle⟩ | ⟨k, later, busy⟩
  · rw [idle.handed, idle.plain, idle.special, idle.rounds]
    rfl
  · have lengths := waiting_lengths distinct busy.nodup busy.within
    rw [busy.handed, busy.plain, busy.special, busy.rounds, Nat.add_mul, Nat.add_mul, Nat.one_mul]
    omega

theorem Kept.complete (kept : l.Kept items) {j : Nat} (found : l.rounds[j]? = some behind)
    (whole : (j + 1) * items.length ≤ l.handed.length) :
    (l.turn items j).Perm (items.map fun x => (x, behind x)) := by
  have inside := (List.getElem?_eq_some_iff.mp found).1
  rcases kept with ⟨k, idle⟩ | ⟨k, later, busy⟩
  · exact idle.past j (by rw [← idle.rounds]; exact inside) behind found
  · by_cases earlier : j < k
    · exact busy.past j earlier behind found
    · rcases busy.room with room | nil
      · have ahead : (k + 1) * items.length ≤ (j + 1) * items.length :=
          Nat.mul_le_mul_right _ (by omega)
        rw [Nat.succ_mul] at ahead
        rw [busy.handed] at whole
        omega
      · rw [turn, nil]
        exact .nil

/-! ### What is still to be taken -/

/-- A plain thread that waits is going to take the item: in this turn, or in a later one if more
threads wait than items. -/
def Awaits (items : List α) (l : Ledger α) (x : α) : Prop :=
  l.plain ≠ 0 ∧ x ∈ items ∧
    (x ∈ l.waiting items false ∨ (l.waiting items false).length < l.plain)

instance (items : List α) (l : Ledger α) (x : α) : Decidable (l.Awaits items x) := by
  unfold Awaits
  infer_instance

theorem awaits_of_first (thread : l.plain ≠ 0) (first : (l.waiting items false).head? = some x) :
    l.Awaits items x :=
  have member := List.mem_of_mem_head? first
  ⟨thread, (mem_waiting.mp member).1, .inl member⟩

theorem Kept.awaits_round (distinct : items.Nodup) (kept : l.Kept items)
    (apart : l.Apart items behind) (awaits : (l.round items behind).Awaits items x) :
    behind x = false := by
  obtain ⟨thread, member, place⟩ := awaits
  rcases apart with ⟨plain, special⟩ | ⟨-, calm⟩
  · rcases kept with ⟨k, idle⟩ | ⟨k, later, busy⟩
    · have started := (idle.round distinct behind).plain
      rw [Nat.zero_mul, Nat.add_zero] at started
      have waits := place.resolve_right (by omega)
      have mark : (behind x || l.marked x) = false := (mem_waiting.mp waits).2.1
      exact (Bool.or_eq_false_iff.mp mark).1
    · -- no thread waits in a round under way only if there is nothing to take
      have lengths := waiting_lengths distinct busy.nodup busy.within
      have plain' := busy.plain
      have special' := busy.special
      rcases busy.room with room | nil
      · omega
      · rw [nil] at member
        exact absurd member List.not_mem_nil
  · exact calm x member

theorem Kept.awaits_hand {y : α} (distinct : items.Nodup) (kept : l.Kept items)
    (thread : l.threads kind ≠ 0) (first : (l.waiting items kind).head? = some y)
    (awaits : (l.hand items y kind).Awaits items x) : l.Awaits items x := by
  have waits : y ∈ l.waiting items kind := List.mem_of_mem_head? first
  have positive := List.length_pos_of_mem waits
  have lengths : l.taken.length + (l.waiting items false).length +
      (l.waiting items true).length = items.length := by
    rcases kept with ⟨k, idle⟩ | ⟨k, later, busy⟩
    · refine waiting_lengths distinct ?_ ?_ <;> rw [idle.taken]
      · exact List.nodup_nil
      · exact fun z among => absurd among List.not_mem_nil
    · exact waiting_lengths distinct busy.nodup busy.within
  obtain ⟨thread', member, place⟩ := awaits
  have plain : (l.hand items y kind).plain = if kind then l.plain else l.plain - 1 := rfl
  have left : l.plain ≠ 0 := by
    rw [plain] at thread'
    cases kind
    · exact thread
    · exact thread'
  refine ⟨left, member, ?_⟩
  by_cases last : (y :: l.taken).length = items.length
  · -- the next turn starts with every item
    rw [List.length_cons] at last
    rw [plain] at thread'
    cases kind with
    | false =>
      simp only [Bool.false_eq_true, if_false] at thread'
      exact .inr (by omega)
    | true => exact .inr (by omega)
  · have marks : (l.hand items y kind).marked = l.marked := if_neg last
    have taken : (l.hand items y kind).taken = y :: l.taken := if_neg last
    obtain ⟨shorter, other⟩ := waiting_cons distinct waits marks taken
    cases kind with
    | false =>
      rcases place with among | fewer
      · obtain ⟨-, mark, new⟩ := mem_waiting.mp among
        rw [marks] at mark
        rw [taken] at new
        exact .inl (mem_waiting.mpr ⟨member, mark, fun before => new (List.mem_cons_of_mem _ before)⟩)
      · rw [plain] at fewer
        simp only [Bool.false_eq_true, if_false] at fewer
        exact .inr (by omega)
    | true =>
      rw [show (l.hand items y true).waiting items false = l.waiting items false from other] at place
      exact place

end Ledger

end ProjectsCpp.Handout
