import ProjectsCpp.WebServer.TimerNode
import ProjectsCpp.Lib.Run
import Mathlib.Data.List.Basic
import Mathlib.Data.List.Count
import Mathlib.Data.List.Nodup
import Mathlib.Data.Finset.Max
import Mathlib.Logic.Function.Basic

/-! The `TimerManager` of an event loop of the web server (`reactor/Timer.cpp`). Only the first node
of a channel is pushed; a later one takes its place when it is popped. `clock` has what
`gettimeofday` says, turn by turn, and `pick` which one of several earliest nodes is on top. -/

namespace ProjectsCpp.WebServer
open ProjectsCpp.Run

/-- A call of `handleClose`: whether the channel was marked, the time and the timeout of its most
recent `addTimer`, and what the clock showed. -/
structure Closing where
  channel : SpChannel
  deleted : Bool
  asked : Option (Timeval × Int)
  now : Timeval

/-- `first` and `deleted` are fields of the channels; `tick` numbers the nodes and the turns, and
`asked` has the most recent `addTimer` of each channel. -/
structure TimerManager where
  timerHeap : List TimerNode
  timerMap : Int → Option TimerNode
  first : SpChannel → Bool
  deleted : SpChannel → Bool
  tick : Nat
  asked : SpChannel → Option (Timeval × Int)
  closes : List Closing

/-- Where a turn of the loop of `handleExpiredEvent` ends. -/
inductive Turn where
  | stop (s : TimerManager)
  | again (s : TimerManager)
  | nullPushed

inductive TimerEvent where
  | addTimer (c : SpChannel) (timeout : Int)
  | setDeleted (c : SpChannel) (deleted : Bool)
  | handleExpiredEvent

namespace TimerManager

def start : TimerManager :=
  ⟨[], fun _ => none, fun _ => true, fun _ => false, 0, fun _ => none, []⟩

def top (heap : List TimerNode) (pick : Nat) : Option TimerNode :=
  let least := heap.filter fun a => heap.all fun b => !TimerCmp a b
  least[pick % least.length]?

variable (fd : SpChannel → Int) (clock : Nat → Timeval) (pick : Nat → Nat)

def addTimer (s : TimerManager) (c : SpChannel) (timeout : Int) : TimerManager :=
  let node := TimerNode.new s.tick c timeout (clock s.tick)
  { s with
    timerHeap := if s.first c then node :: s.timerHeap else s.timerHeap
    timerMap := Function.update s.timerMap (fd c) (some node)
    first := Function.update s.first c false
    tick := s.tick + 1
    asked := Function.update s.asked c (some (clock s.tick, timeout)) }

def close (s : TimerManager) (node : TimerNode) : TimerManager :=
  { s with
    timerHeap := s.timerHeap.erase node
    timerMap := Function.update s.timerMap (fd node.channel) none
    tick := s.tick + 1
    closes := s.closes ++
      [⟨node.channel, s.deleted node.channel, s.asked node.channel, clock s.tick⟩] }

def renew (s : TimerManager) (node timer : TimerNode) : TimerManager :=
  { s with timerHeap := timer :: s.timerHeap.erase node, tick := s.tick + 1 }

def turn (s : TimerManager) : Turn :=
  match top s.timerHeap (pick s.tick) with
  | none => .stop s
  | some node =>
    if s.deleted node.channel || !node.isValid (clock s.tick) then
      match s.timerMap (fd node.channel) with
      | some timer =>
        if node.serial = timer.serial then .again (s.close fd clock node)
        else .again (s.renew node timer)
      | none => .nullPushed
    else .stop { s with tick := s.tick + 1 }

def handleExpiredEvent : Nat → TimerManager → Option TimerManager
  | 0, _ => none
  | fuel + 1, s =>
    match turn fd clock pick s with
    | .stop s' => some s'
    | .again s' => handleExpiredEvent fuel s'
    | .nullPushed => none

def step (s : TimerManager) : TimerEvent → Option TimerManager
  | .addTimer c timeout => some (s.addTimer fd clock c timeout)
  | .setDeleted c deleted => some { s with deleted := Function.update s.deleted c deleted }
  | .handleExpiredEvent => handleExpiredEvent fd clock pick (2 * s.timerHeap.length + 1) s

def machine : Machine TimerManager TimerEvent where
  start := (· = .start)
  step := step fd clock pick

/-- The manager has not closed the channel, and no other channel that has a timer now has its
descriptor. -/
def Open (s : TimerManager) (c : SpChannel) : Prop :=
  (∀ k ∈ s.closes, k.channel ≠ c) ∧ ∀ node ∈ s.timerHeap, fd node.channel = fd c → node.channel = c

instance (s : TimerManager) (c : SpChannel) : Decidable (s.Open fd c) :=
  inferInstanceAs (Decidable (_ ∧ _))

/-- A timeout is an `int`, and timers are added to open channels. -/
def Called (s : TimerManager) : TimerEvent → Prop
  | .addTimer c timeout => s.Open fd c ∧ -2 ^ 31 ≤ timeout ∧ timeout < 2 ^ 31
  | _ => True

instance (s : TimerManager) (a : TimerEvent) : Decidable (s.Called fd a) := by
  unfold Called
  split <;> infer_instance

end TimerManager

def Closing.Due (k : Closing) : Prop :=
  k.deleted = true ∨ ∃ made timeout, k.asked = some (made, timeout) ∧
    deadline timeout made ≤ k.now.millis

namespace TimerManager
variable {fd : SpChannel → Int} {clock : Nat → Timeval} {pick : Nat → Nat}

theorem mem_of_top {heap : List TimerNode} {p : Nat} {node : TimerNode}
    (found : top heap p = some node) : node ∈ heap :=
  (List.mem_filter.mp (List.mem_of_getElem? found)).1

theorem top_eq_none {heap : List TimerNode} {p : Nat} : top heap p = none ↔ heap = [] := by
  refine ⟨fun missing => ?_, fun empty => by subst empty; rfl⟩
  by_contra some_
  obtain ⟨node, member, least⟩ := heap.toFinset.exists_min_image TimerNode.expiredTime
    ((List.toFinset_nonempty_iff heap).mpr some_)
  have inside : node ∈ heap.filter fun a => heap.all fun b => !TimerCmp a b := by
    refine List.mem_filter.mpr ⟨List.mem_toFinset.mp member, List.all_eq_true.mpr fun b other => ?_⟩
    have le := least b (List.mem_toFinset.mpr other)
    simpa [TimerCmp] using le
  have positive := List.length_pos_of_mem inside
  rw [top, List.getElem?_eq_none_iff] at missing
  exact absurd (Nat.mod_lt p positive) (Nat.not_lt.mpr missing)

/-- The heap has one node of each channel in the map, which is the one of the map or an older one.
What was closed has no node, and was due. -/
structure Kept (fd : SpChannel → Int) (clock : Nat → Timeval) (s : TimerManager) : Prop where
  mapped : ∀ f n, s.timerMap f = some n →
    fd n.channel = f ∧ ∃ m ∈ s.timerHeap, m.channel = n.channel
  heaped : ∀ m ∈ s.timerHeap, ∃ n, s.timerMap (fd m.channel) = some n ∧ n.channel = m.channel
  once : (s.timerHeap.map TimerNode.channel).Nodup
  serial : ∀ m ∈ s.timerHeap, ∀ n, s.timerMap (fd m.channel) = some n → m.serial = n.serial → m = n
  old : ∀ m ∈ s.timerHeap, m.serial < s.tick
  known : ∀ f n, s.timerMap f = some n → n.serial < s.tick
  first : ∀ c, s.first c = true → ∀ m ∈ s.timerHeap, m.channel ≠ c
  later : ∀ c, s.first c = false →
    (∃ m ∈ s.timerHeap, m.channel = c) ∨ ∃ k ∈ s.closes, k.channel = c
  latest : ∀ f n, s.timerMap f = some n → ∃ i timeout, s.asked n.channel = some (clock i, timeout) ∧
    timeout < 2 ^ 31 ∧ n.expiredTime = TimerNode.expiry timeout (clock i)
  closed : ∀ k ∈ s.closes, ∀ m ∈ s.timerHeap, m.channel ≠ k.channel
  closedOnce : (s.closes.map Closing.channel).Nodup
  due : ∀ k ∈ s.closes, k.Due

/-- The clock does not reach the end of a period of 10000 seconds. -/
structure Steady (clock : Nat → Timeval) : Prop where
  valid : ∀ i, (clock i).Valid
  period : ∀ i j, (clock i).period = (clock j).period

theorem Kept.start : Kept fd clock .start where
  mapped _ _ held := nomatch held
  heaped _ member := nomatch member
  once := .nil
  serial _ member := nomatch member
  old _ member := nomatch member
  known _ _ held := nomatch held
  first _ _ _ member := nomatch member
  later _ used := nomatch used
  latest _ _ held := nomatch held
  closed _ member := nomatch member
  closedOnce := .nil
  due _ member := nomatch member

variable {s s' : TimerManager} {node timer m n : TimerNode} {c : SpChannel} {timeout : Int}

theorem Kept.apart (kept : s.Kept fd clock) (left : m ∈ s.timerHeap) (right : n ∈ s.timerHeap)
    (same : fd m.channel = fd n.channel) : m.channel = n.channel := by
  obtain ⟨x, held, channel⟩ := kept.heaped m left
  obtain ⟨y, held', channel'⟩ := kept.heaped n right
  rw [same] at held
  cases held.symm.trans held'
  exact channel.symm.trans channel'

theorem Kept.rest (kept : s.Kept fd clock) (member : node ∈ s.timerHeap) :
    (∀ m ∈ s.timerHeap.erase node, m ∈ s.timerHeap ∧ m.channel ≠ node.channel) ∧
      ((s.timerHeap.erase node).map TimerNode.channel).Nodup := by
  have perm := (List.perm_cons_erase member).map TimerNode.channel
  have once := perm.nodup_iff.mp kept.once
  rw [List.map_cons, List.nodup_cons] at once
  refine ⟨fun m inside => ⟨List.mem_of_mem_erase inside, fun same => once.1 ?_⟩, once.2⟩
  exact List.mem_map.mpr ⟨m, inside, same⟩

theorem Kept.unique (kept : s.Kept fd clock) (left : m ∈ s.timerHeap) (right : n ∈ s.timerHeap)
    (same : m.channel = n.channel) : m = n := by
  by_contra other
  have inside : m ∈ s.timerHeap.erase n := (List.mem_erase_of_ne other).mpr left
  exact (kept.rest right).1 m inside |>.2 same

theorem addTimer_map {f : Int} (held : (s.addTimer fd clock c timeout).timerMap f = some n) :
    f = fd c ∧ n = .new s.tick c timeout (clock s.tick) ∨ f ≠ fd c ∧ s.timerMap f = some n := by
  rw [TimerManager.addTimer] at held
  dsimp only at held
  by_cases here : f = fd c
  · rw [here, Function.update_self, Option.some_inj] at held
    exact .inl ⟨here, held.symm⟩
  · exact .inr ⟨here, (Function.update_of_ne here ..).symm.trans held⟩

theorem mem_addTimer : m ∈ (s.addTimer fd clock c timeout).timerHeap ↔
    s.first c = true ∧ m = .new s.tick c timeout (clock s.tick) ∨ m ∈ s.timerHeap := by
  show m ∈ (if s.first c then _ :: s.timerHeap else s.timerHeap) ↔ _
  split
  · rename_i new
    rw [List.mem_cons, and_iff_right new]
  · rename_i used
    rw [or_iff_right fun both => used both.1]

theorem Kept.present (kept : s.Kept fd clock) (open_ : ∀ k ∈ s.closes, k.channel ≠ c) :
    ∃ m ∈ (s.addTimer fd clock c timeout).timerHeap, m.channel = c := by
  cases new : s.first c with
  | true => exact ⟨_, mem_addTimer.mpr (.inl ⟨new, rfl⟩), rfl⟩
  | false =>
    rcases kept.later c new with ⟨m, member, same⟩ | ⟨k, closed, same⟩
    · exact ⟨m, mem_addTimer.mpr (.inr member), same⟩
    · exact absurd same (open_ k closed)

theorem Kept.addTimer (kept : s.Kept fd clock) (called : s.Called fd (.addTimer c timeout)) :
    (s.addTimer fd clock c timeout).Kept fd clock := by
  obtain ⟨⟨open_, distinct⟩, -, int⟩ := called
  have present : ∃ m ∈ (s.addTimer fd clock c timeout).timerHeap, m.channel = c :=
    kept.present open_
  have atC : (s.addTimer fd clock c timeout).timerMap (fd c) =
      some (.new s.tick c timeout (clock s.tick)) := Function.update_self ..
  refine ⟨?_, ?_, ?_, ?_, ?_, ?_, ?_, ?_, ?_, ?_, kept.closedOnce, kept.due⟩
  · intro f n held
    rcases addTimer_map held with ⟨rfl, rfl⟩ | ⟨-, before⟩
    · exact ⟨rfl, present⟩
    · obtain ⟨same, m, member, channel⟩ := kept.mapped f n before
      exact ⟨same, m, mem_addTimer.mpr (.inr member), channel⟩
  · intro m member
    rcases mem_addTimer.mp member with ⟨-, rfl⟩ | old
    · exact ⟨_, atC, rfl⟩
    · by_cases here : fd m.channel = fd c
      · exact ⟨_, here ▸ atC, (distinct m old here).symm⟩
      · obtain ⟨n, held, channel⟩ := kept.heaped m old
        exact ⟨n, (Function.update_of_ne here ..).trans held, channel⟩
  · cases new : s.first c with
    | true =>
      simp only [TimerManager.addTimer, new, if_true, List.map_cons, List.nodup_cons]
      refine ⟨fun inside => ?_, kept.once⟩
      obtain ⟨m, member, same⟩ := List.mem_map.mp inside
      exact kept.first c new m member same
    | false => simpa only [TimerManager.addTimer, new, Bool.false_eq_true, if_false] using kept.once
  · intro m member n held serial
    rcases mem_addTimer.mp member with ⟨-, rfl⟩ | old
    · exact Option.some.inj (atC.symm.trans held)
    · rcases addTimer_map held with ⟨-, rfl⟩ | ⟨-, before⟩
      · exact absurd serial (Nat.ne_of_lt (kept.old m old))
      · exact kept.serial m old n before serial
  · intro m member
    rcases mem_addTimer.mp member with ⟨-, rfl⟩ | old
    · exact Nat.lt_succ_self _
    · exact Nat.lt_succ_of_lt (kept.old m old)
  · intro f n held
    rcases addTimer_map held with ⟨-, rfl⟩ | ⟨-, before⟩
    · exact Nat.lt_succ_self _
    · exact Nat.lt_succ_of_lt (kept.known f n before)
  · intro k new m member same
    by_cases here : k = c
    · rw [here] at new
      exact nomatch (show false = true from (Function.update_self ..).symm.trans new)
    · have before : s.first k = true := (Function.update_of_ne here ..).symm.trans new
      rcases mem_addTimer.mp member with ⟨-, rfl⟩ | old
      · exact here same.symm
      · exact kept.first k before m old same
  · intro k used
    by_cases here : k = c
    · exact .inl (here ▸ present)
    · have before : s.first k = false := (Function.update_of_ne here ..).symm.trans used
      exact (kept.later k before).imp_left fun ⟨m, member, same⟩ =>
        ⟨m, mem_addTimer.mpr (.inr member), same⟩
  · intro f n held
    rcases addTimer_map held with ⟨-, rfl⟩ | ⟨away, before⟩
    · exact ⟨s.tick, timeout, Function.update_self .., int, rfl⟩
    · have other : n.channel ≠ c := by
        rintro rfl
        exact away (kept.mapped f n before).1.symm
      obtain ⟨i, d, asked, small, expired⟩ := kept.latest f n before
      exact ⟨i, d, (Function.update_of_ne other ..).trans asked, small, expired⟩
  · intro k closed m member
    rcases mem_addTimer.mp member with ⟨-, rfl⟩ | old
    · exact (open_ k closed).symm
    · exact kept.closed k closed m old

theorem deadline_passed (steady : Steady clock) {i j : Nat} (int : timeout < 2 ^ 31)
    (lapsed : node.isValid (clock j) = false)
    (made : node.expiredTime = TimerNode.expiry timeout (clock i)) :
    deadline timeout (clock i) ≤ (clock j).millis := by
  have passed : node.expiredTime ≤ (clock j).clockMillis :=
    Nat.not_lt.mp (decide_eq_false_iff_not.mp lapsed)
  rw [made] at passed
  have atI := (clock i).millis_eq
  have atJ := (clock j).millis_eq
  have small := Timeval.clockMillis_lt (steady.valid i)
  have same := steady.period i j
  unfold deadline
  rcases Int.lt_or_le (((clock i).clockMillis : Int) + timeout) 0 with negative | positive
  · omega
  · have exact_ : (TimerNode.expiry timeout (clock i) : Int) = (clock i).clockMillis + timeout :=
      toSize_of_nonneg positive (by omega)
    omega

theorem close_map {f : Int} (held : (s.close fd clock node).timerMap f = some n) :
    f ≠ fd node.channel ∧ s.timerMap f = some n := by
  by_cases here : f = fd node.channel
  · subst here
    exact nomatch (Function.update_self ..).symm.trans held
  · exact ⟨here, (Function.update_of_ne here ..).symm.trans held⟩

theorem Kept.close (kept : s.Kept fd clock) (steady : Steady clock) (member : node ∈ s.timerHeap)
    (held : s.timerMap (fd node.channel) = some node)
    (due : s.deleted node.channel = true ∨ node.isValid (clock s.tick) = false) :
    (s.close fd clock node).Kept fd clock := by
  obtain ⟨rest, once⟩ := kept.rest member
  have other : ∀ m ∈ s.timerHeap.erase node, fd m.channel ≠ fd node.channel := fun m inside same =>
    (rest m inside).2 (kept.apart (rest m inside).1 member same)
  have stays : ∀ m ∈ s.timerHeap, m.channel ≠ node.channel → m ∈ s.timerHeap.erase node := by
    intro m inside apart
    refine (List.mem_erase_of_ne ?_).mpr inside
    rintro rfl
    exact apart rfl
  refine ⟨?_, ?_, once, ?_, ?_, ?_, ?_, ?_, ?_, ?_, ?_, ?_⟩
  · intro f n held'
    obtain ⟨here, before⟩ := close_map held'
    obtain ⟨same, m, inside, channel⟩ := kept.mapped f n before
    refine ⟨same, m, stays m inside fun equal => here ?_, channel⟩
    rw [← same, ← channel, equal]
  · intro m inside
    obtain ⟨n, before, channel⟩ := kept.heaped m (rest m inside).1
    exact ⟨n, (Function.update_of_ne (other m inside) ..).trans before, channel⟩
  · exact fun m inside n held' => kept.serial m (rest m inside).1 n (close_map held').2
  · exact fun m inside => Nat.lt_succ_of_lt (kept.old m (rest m inside).1)
  · exact fun f n held' => Nat.lt_succ_of_lt (kept.known f n (close_map held').2)
  · exact fun k new m inside => kept.first k new m (rest m inside).1
  · intro k used
    rcases kept.later k used with ⟨m, inside, same⟩ | ⟨k', closed, same⟩
    · by_cases here : k = node.channel
      · exact .inr ⟨_, List.mem_append_right _ (List.mem_singleton_self _), here.symm⟩
      · exact .inl ⟨m, stays m inside fun equal => here (same.symm.trans equal), same⟩
    · exact .inr ⟨k', List.mem_append_left _ closed, same⟩
  · exact fun f n held' => kept.latest f n (close_map held').2
  · intro k closed m inside
    rcases List.mem_append.mp closed with old | new
    · exact kept.closed k old m (rest m inside).1
    · rw [List.mem_singleton.mp new]
      exact (rest m inside).2
  · show ((s.closes ++ _).map Closing.channel).Nodup
    rw [List.map_append, List.nodup_append]
    refine ⟨kept.closedOnce, List.nodup_singleton _, fun a old b new => ?_⟩
    obtain ⟨k, closed, rfl⟩ := List.mem_map.mp old
    rw [List.mem_singleton.mp new]
    exact (kept.closed k closed node member).symm
  · intro k closed
    rcases List.mem_append.mp closed with old | new
    · exact kept.due k old
    · rw [List.mem_singleton.mp new]
      obtain ⟨i, timeout, asked, int, made⟩ := kept.latest _ _ held
      exact due.imp_right fun lapsed =>
        ⟨clock i, timeout, asked, deadline_passed steady int lapsed made⟩

theorem Kept.renew (kept : s.Kept fd clock) (member : node ∈ s.timerHeap)
    (held : s.timerMap (fd node.channel) = some timer) (channel : timer.channel = node.channel) :
    (s.renew node timer).Kept fd clock := by
  obtain ⟨rest, once⟩ := kept.rest member
  have heap : ∀ m ∈ (s.renew node timer).timerHeap, m = timer ∨ m ∈ s.timerHeap := fun m inside =>
    (List.mem_cons.mp inside).imp_right fun old => (rest m old).1
  have present : ∀ c, (∃ m ∈ s.timerHeap, m.channel = c) →
      ∃ m ∈ (s.renew node timer).timerHeap, m.channel = c := by
    rintro c ⟨m, inside, rfl⟩
    by_cases same : m = node
    · exact ⟨timer, .head _, same ▸ channel⟩
    · exact ⟨m, .tail _ ((List.mem_erase_of_ne same).mpr inside), rfl⟩
  refine ⟨?_, ?_, ?_, ?_, ?_, fun f n held' => Nat.lt_succ_of_lt (kept.known f n held'), ?_, ?_,
    kept.latest, ?_, kept.closedOnce, kept.due⟩
  · intro f n held'
    obtain ⟨same, there⟩ := kept.mapped f n held'
    exact ⟨same, present _ there⟩
  · intro m inside
    rcases heap m inside with rfl | old
    · exact ⟨m, channel ▸ held, rfl⟩
    · exact kept.heaped m old
  · refine List.nodup_cons.mpr ⟨fun inside => ?_, once⟩
    obtain ⟨m, old, same⟩ := List.mem_map.mp inside
    exact (rest m old).2 (same.trans channel)
  · intro m inside n held' serial
    rcases heap m inside with rfl | old
    · rw [channel] at held'
      exact Option.some.inj (held.symm.trans held')
    · exact kept.serial m old n held' serial
  · intro m inside
    rcases heap m inside with rfl | old
    · exact Nat.lt_succ_of_lt (kept.known _ _ held)
    · exact Nat.lt_succ_of_lt (kept.old m old)
  · intro k new m inside
    rcases heap m inside with rfl | old
    · rw [channel]
      exact kept.first k new node member
    · exact kept.first k new m old
  · exact fun k used => (kept.later k used).imp_left (present k)
  · intro k closed m inside
    rcases heap m inside with rfl | old
    · rw [channel]
      exact kept.closed k closed node member
    · exact kept.closed k closed m old

/-! ### The loop -/

def stale (fd : SpChannel → Int) (s : TimerManager) (node : TimerNode) : Bool :=
  s.timerMap (fd node.channel) ≠ some node

def work (fd : SpChannel → Int) (s : TimerManager) : Nat :=
  s.timerHeap.length + s.timerHeap.countP (s.stale fd)

theorem work_le (s : TimerManager) : s.work fd ≤ 2 * s.timerHeap.length := by
  have := List.countP_le_length (p := s.stale fd) (l := s.timerHeap)
  unfold work
  omega

theorem Kept.turn_cases (kept : s.Kept fd clock) (pick : Nat → Nat) :
    (s.turn fd clock pick = .stop s ∧ s.timerHeap = []) ∨
      s.turn fd clock pick = .stop { s with tick := s.tick + 1 } ∨
      ∃ node ∈ s.timerHeap,
        (s.deleted node.channel = true ∨ node.isValid (clock s.tick) = false) ∧
        ((s.timerMap (fd node.channel) = some node ∧
            s.turn fd clock pick = .again (s.close fd clock node)) ∨
          ∃ timer, s.timerMap (fd node.channel) = some timer ∧ timer.channel = node.channel ∧
            timer ≠ node ∧ s.turn fd clock pick = .again (s.renew node timer)) := by
  unfold turn
  cases found : top s.timerHeap (pick s.tick) with
  | none => exact .inl ⟨rfl, top_eq_none.mp found⟩
  | some node =>
    have member := mem_of_top found
    obtain ⟨timer, held, channel⟩ := kept.heaped node member
    refine .inr ?_
    by_cases lapsed : s.deleted node.channel = true ∨ node.isValid (clock s.tick) = false
    · have taken : (s.deleted node.channel || !node.isValid (clock s.tick)) = true := by
        rcases lapsed with marked | invalid
        · rw [marked, Bool.true_or]
        · rw [invalid, Bool.not_false, Bool.or_true]
      refine .inr ⟨node, member, lapsed, ?_⟩
      simp only [taken, if_true, held]
      by_cases same : node.serial = timer.serial
      · cases kept.serial node member timer held same
        exact .inl ⟨rfl, if_pos rfl⟩
      · refine .inr ⟨timer, rfl, channel, ?_, if_neg same⟩
        rintro rfl
        exact same rfl
    · have left : (s.deleted node.channel || !node.isValid (clock s.tick)) = false := by
        rw [not_or, Bool.not_eq_true, Bool.not_eq_false] at lapsed
        rw [lapsed.1, lapsed.2, Bool.not_true, Bool.or_false]
      simp only [left, Bool.false_eq_true, if_false, true_or]

theorem Kept.ticked (kept : s.Kept fd clock) : Kept fd clock { s with tick := s.tick + 1 } :=
  { kept with
    old := fun m member => Nat.lt_succ_of_lt (kept.old m member)
    known := fun f n held => Nat.lt_succ_of_lt (kept.known f n held) }

theorem Kept.close_work (kept : s.Kept fd clock) (member : node ∈ s.timerHeap) :
    (s.close fd clock node).work fd < s.work fd := by
  have perm := List.perm_cons_erase member
  have length := perm.length_eq
  have count := perm.countP_eq (s.stale fd)
  have rest : (s.timerHeap.erase node).countP ((s.close fd clock node).stale fd) =
      (s.timerHeap.erase node).countP (s.stale fd) := by
    refine List.countP_congr fun m inside => ?_
    obtain ⟨old, other⟩ := (kept.rest member).1 m inside
    have elsewhere : fd m.channel ≠ fd node.channel := fun same =>
      other (kept.apart old member same)
    have still : (s.close fd clock node).timerMap (fd m.channel) = s.timerMap (fd m.channel) :=
      Function.update_of_ne elsewhere ..
    unfold stale
    rw [still]
  rw [List.length_cons] at length
  rw [List.countP_cons] at count
  calc (s.close fd clock node).work fd
      = (s.timerHeap.erase node).length + (s.timerHeap.erase node).countP (s.stale fd) :=
        congrArg ((s.timerHeap.erase node).length + ·) rest
    _ < s.work fd := by
        unfold work
        omega

theorem renew_work (member : node ∈ s.timerHeap)
    (held : s.timerMap (fd node.channel) = some timer) (channel : timer.channel = node.channel)
    (other : timer ≠ node) : (s.renew node timer).work fd < s.work fd := by
  have perm := List.perm_cons_erase member
  have length := perm.length_eq
  have count := perm.countP_eq (s.stale fd)
  have fresh : s.stale fd timer = false := by simp only [stale, channel, held, ne_eq, decide_not,
    decide_true, Bool.not_true]
  have lazy : s.stale fd node = true := by
    simpa only [stale, held, ne_eq, decide_not, Bool.not_eq_true', decide_eq_false_iff_not,
      Option.some_inj] using other
  rw [List.length_cons] at length
  rw [List.countP_cons, lazy, if_pos rfl] at count
  show (timer :: s.timerHeap.erase node).length +
    (timer :: s.timerHeap.erase node).countP (s.stale fd) < s.timerHeap.length + _
  rw [List.length_cons, List.countP_cons, fresh]
  simp only [Bool.false_eq_true, if_false]
  omega

theorem Kept.handleExpiredEvent (kept : s.Kept fd clock) (steady : Steady clock)
    (pick : Nat → Nat) :
    ∃ s', s'.Kept fd clock ∧
      ∀ fuel, s.work fd < fuel → handleExpiredEvent fd clock pick fuel s = some s' := by
  induction more : s.work fd using Nat.strong_induction_on generalizing s with
  | _ size ih =>
    have next : ∀ {t}, s.turn fd clock pick = .again t → t.Kept fd clock → t.work fd < s.work fd →
        ∃ s', s'.Kept fd clock ∧
          ∀ fuel, size < fuel → TimerManager.handleExpiredEvent fd clock pick fuel s = some s' := by
      intro t turned kept' less
      obtain ⟨s', kept'', ended⟩ := ih (t.work fd) (more ▸ less) kept' rfl
      refine ⟨s', kept'', fun fuel enough => ?_⟩
      obtain ⟨fuel, rfl⟩ := Nat.exists_eq_add_one_of_ne_zero (Nat.ne_zero_of_lt enough)
      rw [TimerManager.handleExpiredEvent, turned]
      exact ended fuel (by omega)
    have stop : ∀ {t}, s.turn fd clock pick = .stop t → t.Kept fd clock →
        ∃ s', s'.Kept fd clock ∧
          ∀ fuel, size < fuel → TimerManager.handleExpiredEvent fd clock pick fuel s = some s' := by
      intro t turned kept'
      refine ⟨t, kept', fun fuel enough => ?_⟩
      obtain ⟨fuel, rfl⟩ := Nat.exists_eq_add_one_of_ne_zero (Nat.ne_zero_of_lt enough)
      rw [TimerManager.handleExpiredEvent, turned]
    rcases kept.turn_cases pick with ⟨turned, -⟩ | turned | ⟨node, member, lapsed, turned⟩
    · exact stop turned kept
    · exact stop turned kept.ticked
    · rcases turned with ⟨held, turned⟩ | ⟨timer, held, channel, other, turned⟩
      · exact next turned (kept.close steady member held lapsed) (kept.close_work member)
      · exact next turned (kept.renew member held channel) (renew_work member held channel other)

theorem Kept.step {a : TimerEvent} (steady : Steady clock) (kept : s.Kept fd clock)
    (called : s.Called fd a) (next : s.step fd clock pick a = some s') : s'.Kept fd clock := by
  cases a with
  | addTimer c timeout =>
    cases next
    exact kept.addTimer called
  | setDeleted c deleted =>
    cases next
    exact { kept with }
  | handleExpiredEvent =>
    obtain ⟨t, kept', ended⟩ := kept.handleExpiredEvent steady pick
    have enough := ended (2 * s.timerHeap.length + 1) (Nat.lt_succ_of_le s.work_le)
    cases enough.symm.trans next
    exact kept'

/-- Every channel in the map has exactly one node in the heap; `handleExpiredEvent` ends, without
a null node that is pushed; and every channel that the manager closes is closed once and is due. -/
theorem timers_kept (steady : Steady clock) (reach : Reach (machine fd clock pick) (Called fd) s) :
    (∀ f n, s.timerMap f = some n → fd n.channel = f ∧
        s.timerHeap.countP (fun m => m.channel = n.channel) = 1) ∧
      (∃ s', ∀ fuel, 2 * s.timerHeap.length < fuel →
        TimerManager.handleExpiredEvent fd clock pick fuel s = some s') ∧
      (s.closes.map Closing.channel).Nodup ∧ ∀ k ∈ s.closes, k.Due := by
  have kept : s.Kept fd clock := by
    refine reach.invariant (fun s start => ?_) fun _ _ _ before called next =>
      before.step steady called next
    cases start
    exact .start
  refine ⟨fun f n held => ?_, ?_, kept.closedOnce, kept.due⟩
  · obtain ⟨same, m, member, channel⟩ := kept.mapped f n held
    refine ⟨same, ?_⟩
    have one := List.count_eq_one_of_mem kept.once (List.mem_map.mpr ⟨m, member, channel⟩)
    rw [List.count, List.countP_map] at one
    rw [← one]
    exact List.countP_congr fun _ _ => by simp
  · obtain ⟨s', -, ended⟩ := kept.handleExpiredEvent steady pick
    exact ⟨s', fun fuel enough => ended fuel (Nat.lt_of_le_of_lt s.work_le enough)⟩

private def dayClock (i : Nat) : Timeval := ⟨min i 9999, 0⟩

theorem timers_kept_two_channels :
    ∃ s, execWhere (machine (fun c => (c : Int)) dayClock fun _ => 0) (Called fun c => (c : Int))
        .start [.addTimer 7 1500, .addTimer 7 90000, .addTimer 8 0, .handleExpiredEvent,
          .setDeleted 7 true, .handleExpiredEvent] = some s ∧
      s.closes.map Closing.channel = [8, 7] ∧
      (∀ f n, s.timerMap f = some n → (n.channel : Int) = f ∧
        s.timerHeap.countP (fun m => m.channel = n.channel) = 1) ∧
      (∃ s', ∀ fuel, 2 * s.timerHeap.length < fuel → TimerManager.handleExpiredEvent
        (fun c => (c : Int)) dayClock (fun _ => 0) fuel s = some s') ∧
      (s.closes.map Closing.channel).Nodup ∧ ∀ k ∈ s.closes, k.Due := by
  have ran : (execWhere (machine (fun c => (c : Int)) dayClock fun _ => 0)
      (Called fun c => (c : Int)) .start [TimerEvent.addTimer 7 1500, .addTimer 7 90000,
        .addTimer 8 0, .handleExpiredEvent, .setDeleted 7 true, .handleExpiredEvent]).any
        (fun s => s.closes.map Closing.channel = [8, 7]) = true := by
    decide +kernel
  obtain ⟨s, done, closed⟩ := (Option.any_eq_true _ _).mp ran
  have steady : Steady dayClock := by
    refine ⟨fun i => (by decide : 0 < 1000000), fun i j => ?_⟩
    simp only [Timeval.period, dayClock]
    omega
  exact ⟨s, done, of_decide_eq_true closed, timers_kept steady
    ((Reach.start (M := machine (fun c => (c : Int)) dayClock fun _ => 0) rfl).execWhere done)⟩

end TimerManager

end ProjectsCpp.WebServer
