import ProjectsCpp.MuduoNet.EPollPoller
import ProjectsCpp.Lib.Run

/-! The poller of muduo_cpp11 (`EPollPoller.cc`), which has no assertions. It adds a channel that is
new or deleted whatever its events are. The channels are those of muduo. -/

namespace ProjectsCpp.Muduo
open ProjectsCpp.Run
open ProjectsCpp.MuduoNet (Events ChannelPtr Update Op Operation kNoneEvent kNew kAdded kDeleted)

structure EpollEvent where
  events : Events
  ptr : ChannelPtr
deriving DecidableEq

/-- `failed` counts the calls of `epoll_ctl` that failed. -/
structure EPollPoller where
  channel : ChannelPtr → MuduoNet.Channel
  channels : Nat → Option ChannelPtr
  interest : Nat → Option EpollEvent
  failed : Nat

namespace EPollPoller

def new : EPollPoller := ⟨fun _ => .new, fun _ => none, fun _ => none, 0⟩

/-- `epoll_ctl(2)`: EEXIST for a descriptor that is there, ENOENT for one that is not. -/
def epoll_ctl (interest : Nat → Option EpollEvent) (op : Operation) (fd : Nat)
    (event : EpollEvent) : Option (Nat → Option EpollEvent) :=
  match op, interest fd with
  | .add, none => some (Function.update interest fd (some event))
  | .mod, some _ => some (Function.update interest fd (some event))
  | .del, some _ => some (Function.update interest fd none)
  | _, _ => none

def setIndex (s : EPollPoller) (c : ChannelPtr) (index : Int) : EPollPoller :=
  { s with channel := Function.update s.channel c ⟨(s.channel c).events, index⟩ }

variable (fd : ChannelPtr → Nat)

def update (s : EPollPoller) (op : Operation) (c : ChannelPtr) : Option EPollPoller :=
  match epoll_ctl s.interest op (fd c) ⟨(s.channel c).events, c⟩, op with
  | some interest, _ => some { s with interest := interest }
  | none, .del => some { s with failed := s.failed + 1 }
  | none, _ => none

def updateChannel (s : EPollPoller) (c : ChannelPtr) : Option EPollPoller :=
  let index := (s.channel c).index
  if index = kNew ∨ index = kDeleted then
    let s := if index = kNew then { s with channels := Function.update s.channels (fd c) (some c) }
      else s
    (s.setIndex c kAdded).update fd .add c
  else if (s.channel c).isNoneEvent then (s.update fd .del c).map (·.setIndex c kDeleted)
  else s.update fd .mod c

def removeChannel (s : EPollPoller) (c : ChannelPtr) : Option EPollPoller :=
  let s := { s with channels := Function.update s.channels (fd c) none }
  (if (s.channel c).index = kAdded then s.update fd .del c else some s).map (·.setIndex c kNew)

/-- The change of `events_`, before the poller is told. -/
def changed (s : EPollPoller) (u : Update) (c : ChannelPtr) : EPollPoller :=
  { s with
    channel := Function.update s.channel c ⟨u.apply (s.channel c).events, (s.channel c).index⟩ }

def step (s : EPollPoller) : Op → Option EPollPoller
  | .update u c => (s.changed u c).updateChannel fd c
  | .remove c => s.removeChannel fd c

def machine : Machine EPollPoller Op where
  start := (· = .new)
  step := step fd

/-- The books agree: no call failed, the kernel waits for the channels with the index `kAdded`, and
`channels_` has those with another index than `kNew`. -/
structure Tracks (s : EPollPoller) : Prop where
  failed : s.failed = 0
  interest : ∀ f e, s.interest f = some e ↔
    ∃ c, (s.channel c).index = kAdded ∧ fd c = f ∧ e = ⟨(s.channel c).events, c⟩
  channels : ∀ f c, s.channels f = some c ↔ (s.channel c).index ≠ kNew ∧ fd c = f
  known : ∀ c, (s.channel c).index = kNew ∨ (s.channel c).index = kAdded ∨
    (s.channel c).index = kDeleted

structure Mirrors (s : EPollPoller) : Prop extends s.Tracks fd where
  busy : ∀ f e, s.interest f = some e → e.events ≠ kNoneEvent

def target : Op → ChannelPtr
  | .update _ c => c
  | .remove c => c

def Distinct (s : EPollPoller) (op : Op) : Prop :=
  ∀ k, (s.channel k).index ≠ kNew → fd k = fd (target op) → k = target op

def Wanted (s : EPollPoller) : Op → Prop
  | .update u c => (s.channel c).index = kAdded ∨ u.apply (s.channel c).events ≠ kNoneEvent
  | .remove _ => True

instance (s : EPollPoller) (op : Op) : Decidable (s.Wanted op) := by
  unfold Wanted
  split <;> infer_instance

def Careful (s : EPollPoller) (op : Op) : Prop := s.Distinct fd op ∧ s.Wanted op

/-- What a step makes of the channel `c`, of `channels_` and of the kernel's set. -/
structure Moved (s s' : EPollPoller) (c : ChannelPtr) (events : Events) (index : Int) : Prop where
  channel : s'.channel = Function.update s.channel c ⟨events, index⟩
  channels : s'.channels =
    Function.update s.channels (fd c) (if index = kNew then none else some c)
  interest : s'.interest =
    Function.update s.interest (fd c) (if index = kAdded then some ⟨events, c⟩ else none)
  failed : s'.failed = s.failed

variable {fd : ChannelPtr → Nat} {s s' : EPollPoller} {c : ChannelPtr} {u : Update} {op : Op}
variable {events : Events} {index : Int}

theorem Tracks.new : Tracks fd .new where
  failed := rfl
  interest _ _ := ⟨nofun, fun ⟨_, added, _⟩ => nomatch added⟩
  channels _ _ := ⟨nofun, fun both => absurd rfl both.1⟩
  known _ := .inl rfl

theorem Tracks.moved (t : s.Tracks fd) (distinct : ∀ k, (s.channel k).index ≠ kNew → fd k = fd c →
    k = c) (m : Moved fd s s' c events index)
    (known : index = kNew ∨ index = kAdded ∨ index = kDeleted) : s'.Tracks fd := by
  obtain ⟨channel, channels, interest, failed⟩ := m
  have here : s'.channel c = ⟨events, index⟩ := by rw [channel, Function.update_self]
  have elsewhere : ∀ k, k ≠ c → s'.channel k = s.channel k := fun k other => by
    rw [channel, Function.update_of_ne other]
  have apart : ∀ k, k ≠ c → (s.channel k).index ≠ kNew → fd k ≠ fd c := fun k other booked same =>
    other (distinct k booked same)
  have booked : kAdded ≠ kNew := by decide
  refine ⟨failed.trans t.failed, fun f e => ?_, fun f k => ?_, fun k => ?_⟩
  · rw [interest]
    by_cases same : f = fd c
    · subst same
      rw [Function.update_self]
      constructor
      · intro held
        obtain ⟨added, equal⟩ := Option.ite_none_right_eq_some.mp held
        obtain rfl := Option.some.inj equal
        exact ⟨c, by rw [here]; exact added, rfl, by rw [here]⟩
      · rintro ⟨k, added, equal, rfl⟩
        have its : k = c := by
          by_contra other
          rw [elsewhere k other] at added
          exact apart k other (by rw [added]; exact booked) equal
        subst its
        rw [here] at added ⊢
        exact if_pos added
    · rw [Function.update_of_ne same, t.interest]
      refine exists_congr fun k => ?_
      by_cases its : k = c
      · subst its
        exact iff_of_false (fun all => same all.2.1.symm) fun all => same all.2.1.symm
      · rw [elsewhere k its]
  · rw [channels]
    by_cases same : f = fd c
    · subst same
      rw [Function.update_self]
      constructor
      · intro held
        obtain ⟨old, equal⟩ := Option.ite_none_left_eq_some.mp held
        obtain rfl := Option.some.inj equal
        exact ⟨by rw [here]; exact old, rfl⟩
      · rintro ⟨old, equal⟩
        have its : k = c := by
          by_contra other
          rw [elsewhere k other] at old
          exact apart k other old equal
        subst its
        rw [here] at old
        exact if_neg old
    · rw [Function.update_of_ne same, t.channels]
      by_cases its : k = c
      · subst its
        exact iff_of_false (fun both => same both.2.symm) fun both => same both.2.symm
      · rw [elsewhere k its]
  · by_cases its : k = c
    · rw [its, here]
      exact known
    · rw [elsewhere k its]
      exact t.known k

theorem Tracks.at (t : s.Tracks fd) (distinct : ∀ k, (s.channel k).index ≠ kNew → fd k = fd c →
    k = c) : s.interest (fd c) =
      if (s.channel c).index = kAdded then some ⟨(s.channel c).events, c⟩ else none := by
  split
  · rename_i added
    exact (t.interest _ _).mpr ⟨c, added, rfl, rfl⟩
  · rename_i other
    refine Option.eq_none_iff_forall_ne_some.mpr fun e held => ?_
    obtain ⟨k, added, same, -⟩ := (t.interest _ _).mp held
    obtain rfl := distinct k (by rw [added]; decide) same
    exact other added

theorem Tracks.mapped (t : s.Tracks fd) (distinct : ∀ k, (s.channel k).index ≠ kNew → fd k = fd c →
    k = c) : s.channels (fd c) = if (s.channel c).index = kNew then none else some c := by
  split
  · rename_i unbooked
    refine Option.eq_none_iff_forall_ne_some.mpr fun k held => ?_
    obtain ⟨booked, same⟩ := (t.channels _ _).mp held
    obtain rfl := distinct k booked same
    exact booked unbooked
  · rename_i booked
    exact (t.channels _ _).mpr ⟨booked, rfl⟩

theorem update_add (free : s.interest (fd c) = none) : s.update fd .add c =
    some { s with
      interest := Function.update s.interest (fd c) (some ⟨(s.channel c).events, c⟩) } := by
  unfold update epoll_ctl
  rw [free]

theorem update_mod {e : EpollEvent} (known : s.interest (fd c) = some e) : s.update fd .mod c =
    some { s with
      interest := Function.update s.interest (fd c) (some ⟨(s.channel c).events, c⟩) } := by
  unfold update epoll_ctl
  rw [known]

theorem update_del {e : EpollEvent} (known : s.interest (fd c) = some e) : s.update fd .del c =
    some { s with interest := Function.update s.interest (fd c) none } := by
  unfold update epoll_ctl
  rw [known]

theorem updateChannel_add (index : (s.channel c).index = kNew ∨ (s.channel c).index = kDeleted)
    (mapped : (s.channel c).index = kDeleted → s.channels (fd c) = some c)
    (free : s.interest (fd c) = none) :
    ∃ s', s.updateChannel fd c = some s' ∧ Moved fd s s' c (s.channel c).events kAdded := by
  have told : ∀ t : EPollPoller, t.channel = s.channel → t.interest = s.interest →
      t.failed = s.failed → t.channels = Function.update s.channels (fd c) (some c) →
      ∃ s', (t.setIndex c kAdded).update fd .add c = some s' ∧
        Moved fd s s' c (s.channel c).events kAdded := by
    intro t channel interest failed channels
    have here : (t.setIndex c kAdded).channel c = ⟨(s.channel c).events, kAdded⟩ := by
      rw [← channel]
      exact Function.update_self ..
    refine ⟨_, update_add (interest ▸ free), ?_, channels, ?_, failed⟩
    · show Function.update t.channel c _ = _
      rw [channel]
    · rw [here]
      show Function.update t.interest _ _ = _
      rw [interest]
      rfl
  unfold updateChannel
  dsimp only
  rw [if_pos index]
  split
  · exact told _ rfl rfl rfl rfl
  · rename_i old
    refine told s rfl rfl rfl ?_
    rw [← mapped (index.resolve_left old), Function.update_eq_self]

theorem updateChannel_change {e : EpollEvent} (index : (s.channel c).index = kAdded)
    (mapped : s.channels (fd c) = some c) (known : s.interest (fd c) = some e) :
    ∃ s', s.updateChannel fd c = some s' ∧ Moved fd s s' c (s.channel c).events
      (if (s.channel c).events = kNoneEvent then kDeleted else kAdded) := by
  have kept : s.channels = Function.update s.channels (fd c) (some c) := by
    rw [← mapped, Function.update_eq_self]
  unfold updateChannel
  rw [index, if_neg (by decide)]
  by_cases idle : (s.channel c).events = kNoneEvent
  · rw [if_pos (show (s.channel c).isNoneEvent = true from decide_eq_true idle), if_pos idle,
      update_del known]
    exact ⟨_, rfl, rfl, kept, rfl, rfl⟩
  · have wants : ¬(s.channel c).isNoneEvent = true := fun none => idle (of_decide_eq_true none)
    rw [if_neg wants, if_neg idle, update_mod known]
    refine ⟨_, rfl, ?_, kept, rfl, rfl⟩
    rw [← index, Function.update_eq_self]

def updatedIndex (index : Int) (events : Events) : Int :=
  if index = kAdded ∧ events = kNoneEvent then kDeleted else kAdded

theorem Tracks.step_update (t : s.Tracks fd) (distinct : s.Distinct fd (.update u c)) :
    ∃ s', s.step fd (.update u c) = some s' ∧ Moved fd s s' c (u.apply (s.channel c).events)
      (updatedIndex (s.channel c).index (u.apply (s.channel c).events)) := by
  have at_ : s.interest (fd c) = _ := t.at distinct
  have mapped : s.channels (fd c) = _ := t.mapped distinct
  have here : (s.changed u c).channel c = ⟨u.apply (s.channel c).events, (s.channel c).index⟩ :=
    Function.update_self ..
  have sameIndex : ((s.changed u c).channel c).index = (s.channel c).index := by rw [here]
  have sameEvents : ((s.changed u c).channel c).events = u.apply (s.channel c).events := by
    rw [here]
  have whole : ∀ {s' events index}, Moved fd (s.changed u c) s' c events index →
      Moved fd s s' c events index := fun m =>
    ⟨m.channel.trans (Function.update_idem ..), m.channels, m.interest, m.failed⟩
  by_cases added : (s.channel c).index = kAdded
  · rw [if_pos added] at at_
    rw [if_neg (by rw [added]; decide)] at mapped
    obtain ⟨s', done, m⟩ :=
      updateChannel_change (s := s.changed u c) (sameIndex.trans added) mapped at_
    refine ⟨s', done, whole ?_⟩
    rw [sameEvents] at m
    simpa only [updatedIndex, added, true_and] using m
  · have absent := (t.known c).imp_right fun either => either.resolve_left added
    rw [if_neg added] at at_
    have mapped' : ((s.changed u c).channel c).index = kDeleted →
        (s.changed u c).channels (fd c) = some c := fun deleted => by
      rw [sameIndex] at deleted
      exact mapped.trans (if_neg (by rw [deleted]; decide))
    obtain ⟨s', done, m⟩ := updateChannel_add (s := s.changed u c) (sameIndex ▸ absent) mapped' at_
    refine ⟨s', done, whole ?_⟩
    rw [sameEvents] at m
    simpa only [updatedIndex, added, false_and, if_false] using m

theorem Tracks.step_remove (t : s.Tracks fd) (distinct : s.Distinct fd (.remove c)) :
    ∃ s', s.step fd (.remove c) = some s' ∧ Moved fd s s' c (s.channel c).events kNew := by
  have at_ : s.interest (fd c) = _ := t.at distinct
  unfold step removeChannel
  dsimp only
  by_cases added : (s.channel c).index = kAdded
  · rw [if_pos added] at at_
    have told := update_del
      (s := ⟨s.channel, Function.update s.channels (fd c) none, s.interest, s.failed⟩) at_
    rw [if_pos added, told]
    exact ⟨_, rfl, rfl, rfl, rfl, rfl⟩
  · rw [if_neg added] at at_
    rw [if_neg added]
    refine ⟨_, rfl, rfl, rfl, ?_, rfl⟩
    show s.interest = Function.update s.interest (fd c) none
    rw [← at_, Function.update_eq_self]

theorem Tracks.step (t : s.Tracks fd) (distinct : s.Distinct fd op) :
    ∃ s' events index, s.step fd op = some s' ∧ s'.Tracks fd ∧
      Moved fd s s' (target op) events index ∧
        ((index = kAdded → events ≠ kNoneEvent) ↔ s.Wanted op) := by
  cases op with
  | update u c =>
    obtain ⟨s', done, m⟩ := t.step_update distinct
    refine ⟨s', _, _, done, t.moved distinct m ?_, m, ?_⟩
    · unfold updatedIndex
      split
      · exact .inr (.inr rfl)
      · exact .inr (.inl rfl)
    · unfold updatedIndex Wanted
      by_cases added : (s.channel c).index = kAdded
      · by_cases idle : u.apply (s.channel c).events = kNoneEvent
        · rw [if_pos ⟨added, idle⟩]
          exact iff_of_true (fun same => absurd same (by decide)) (.inl added)
        · exact iff_of_true (fun _ => idle) (.inl added)
      · rw [if_neg fun both => added both.1]
        exact ⟨fun busy => .inr (busy rfl), fun wanted _ => wanted.resolve_left added⟩
  | remove c =>
    obtain ⟨s', done, m⟩ := t.step_remove distinct
    exact ⟨s', _, _, done, t.moved distinct m (.inl rfl), m,
      iff_of_true (fun same => absurd same (by decide)) trivial⟩

theorem Mirrors.step_iff (mirrors : s.Mirrors fd) (distinct : s.Distinct fd op)
    (done : s.step fd op = some s') : s'.Mirrors fd ↔ s.Wanted op := by
  obtain ⟨t, events, index, done', tracks, m, wanted⟩ := mirrors.toTracks.step distinct
  cases done.symm.trans done'
  rw [← wanted]
  constructor
  · rintro ⟨-, busy⟩ added
    refine busy (fd (target op)) ⟨events, target op⟩ ?_
    rw [m.interest, Function.update_self, if_pos added]
  · refine fun busy => ⟨tracks, fun f e held => ?_⟩
    rw [m.interest] at held
    by_cases same : f = fd (target op)
    · rw [same, Function.update_self] at held
      obtain ⟨added, equal⟩ := Option.ite_none_right_eq_some.mp held
      obtain rfl := Option.some.inj equal
      exact busy added
    · rw [Function.update_of_ne same] at held
      exact mirrors.busy f e held

theorem mirrors_of_reach (reach : Reach (machine fd) (Careful fd) s) : s.Mirrors fd := by
  refine reach.invariant (P := Mirrors fd) (fun s start => ?_)
    fun _ _ _ mirrors careful next => (mirrors.step_iff careful.1 next).mpr careful.2
  cases start
  exact ⟨.new, nofun⟩

/-- In a run in which no channel that the kernel does not know is left without interest, the poller
mirrors the channels in every state, and every operation is carried out; the first other operation
breaks it. -/
theorem poller_mirrors (fd : ChannelPtr → Nat) :
    (∀ s, Reach (machine fd) (Careful fd) s → s.Mirrors fd ∧
      ∀ op, s.Distinct fd op → ∃ s', s.step fd op = some s') ∧
    ∀ s s' op, Reach (machine fd) (Careful fd) s → s.Distinct fd op → s.step fd op = some s' →
      (s'.Mirrors fd ↔ s.Wanted op) := by
  refine ⟨fun s reach => ⟨mirrors_of_reach reach, fun op distinct => ?_⟩,
    fun s s' op reach distinct next => (mirrors_of_reach reach).step_iff distinct next⟩
  obtain ⟨s', -, -, done, -⟩ := (mirrors_of_reach reach).toTracks.step distinct
  exact ⟨s', done⟩

theorem idle_channel_added :
    ∃ s, Reach (machine id) (Distinct id) s ∧ s.interest 7 = some ⟨kNoneEvent, 7⟩ ∧
      ¬ s.Mirrors id := by
  have ran : (exec (machine id) new [.update .disableAll 7]).any
      (fun s => s.interest 7 = some ⟨kNoneEvent, 7⟩) = true := by decide
  obtain ⟨s, done, held⟩ := (Option.any_eq_true _ _).mp ran
  have reach : Reachable (machine id) s := Reach.exec (.start rfl) done
  exact ⟨s, reach.mono fun _ _ _ _ _ same => same, of_decide_eq_true held,
    fun mirrors => mirrors.busy 7 _ (of_decide_eq_true held) rfl⟩

theorem poller_mirrors_two :
    ∃ s, execWhere (machine id) Wanted new [.update .enableReading 3, .update .enableWriting 4,
        .update .disableAll 3, .update .enableWriting 3, .update .disableReading 4, .remove 4] =
          some s ∧
      s.interest 3 = some ⟨MuduoNet.kWriteEvent, 3⟩ ∧ s.interest 4 = none ∧ s.Mirrors id := by
  have ran : (execWhere (machine id) Wanted new [Op.update .enableReading 3,
      .update .enableWriting 4, .update .disableAll 3, .update .enableWriting 3,
      .update .disableReading 4, .remove 4]).any (fun s =>
        s.interest 3 = some ⟨MuduoNet.kWriteEvent, 3⟩ ∧ s.interest 4 = none) = true := by
    decide +kernel
  obtain ⟨s, done, held⟩ := (Option.any_eq_true _ _).mp ran
  obtain ⟨third, fourth⟩ := of_decide_eq_true held
  have reach : Reach (machine id) (Careful id) s :=
    ((Reach.start (M := machine id) rfl).execWhere done).mono
      fun _ _ wanted => ⟨fun _ _ same => same, wanted⟩
  exact ⟨s, done, third, fourth, ((poller_mirrors id).1 s reach).1⟩

end EPollPoller

end ProjectsCpp.Muduo
