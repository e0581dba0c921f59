import ProjectsCpp.MuduoNet.Channel
import Mathlib.Algebra.Order.Group.Int

/-! The poller over `epoll(4)` (`poller/EPollPoller.cc`). A failing assertion and a failing
`epoll_ctl` give `none`. -/

namespace ProjectsCpp.MuduoNet

def kNew : Int := -1

def kAdded : Int := 1

def kDeleted : Int := 2

inductive Operation where
  | add | mod | del

abbrev Interest := Nat → Option Events

/-- `epoll_ctl(2)`: EEXIST for a descriptor that is there, ENOENT for one that is not. -/
def epoll_ctl (interest : Interest) (op : Operation) (fd : Nat) (events : Events) : Option Interest :=
  match op, interest fd with
  | .add, none => some (Function.update interest fd (some events))
  | .mod, some _ => some (Function.update interest fd (some events))
  | .del, some _ => some (Function.update interest fd none)
  | _, _ => none

structure EPollPoller where
  channel : ChannelPtr → Channel
  channels : Nat → Option ChannelPtr
  interest : Interest

namespace EPollPoller

def new : EPollPoller := ⟨fun _ => .new, fun _ => none, fun _ => none⟩

variable (fd : ChannelPtr → Nat)

/-- `update`, with the index the channel is left with. -/
def update (s : EPollPoller) (op : Operation) (c : ChannelPtr) (index : Int) : Option EPollPoller :=
  (epoll_ctl s.interest op (fd c) (s.channel c).events).map fun interest =>
    { s with
      channel := Function.update s.channel c ⟨(s.channel c).events, index⟩
      interest := interest }

def updateChannel (s : EPollPoller) (c : ChannelPtr) : Option EPollPoller :=
  let channel := s.channel c
  if channel.index = kNew then
    if s.channels (fd c) = none then
      update fd { s with channels := Function.update s.channels (fd c) (some c) } .add c kAdded
    else none
  else if s.channels (fd c) = some c then
    if channel.index = kDeleted then update fd s .add c kAdded
    else if channel.index = kAdded then
      if channel.isNoneEvent then update fd s .del c kDeleted else update fd s .mod c kAdded
    else none
  else none

def removeChannel (s : EPollPoller) (c : ChannelPtr) : Option EPollPoller :=
  let channel := s.channel c
  if s.channels (fd c) = some c ∧ channel.isNoneEvent then
    let s := { s with channels := Function.update s.channels (fd c) none }
    if channel.index = kAdded then update fd s .del c kNew
    else if channel.index = kDeleted then
      some { s with channel := Function.update s.channel c ⟨channel.events, kNew⟩ }
    else none
  else none

/-- The change of `events_`, before the poller is told. -/
def changed (s : EPollPoller) (u : Update) (c : ChannelPtr) : EPollPoller :=
  { s with
    channel := Function.update s.channel c ⟨u.apply (s.channel c).events, (s.channel c).index⟩ }

def step (s : EPollPoller) : Op → Option EPollPoller
  | .update u c => updateChannel fd (s.changed u c) c
  | .remove c => removeChannel fd s c

def run (ops : List Op) : Option EPollPoller := ops.foldlM (step fd) .new

def waits (s : EPollPoller) : Set (Nat × Events) :=
  { w | w.2 ≠ kNoneEvent ∧ s.interest w.1 = some w.2 }

variable {fd : ChannelPtr → Nat} {r r' : Registry} {s : EPollPoller} {c : ChannelPtr} {u : Update}

/-- The index says whether the kernel knows the descriptor of the channel. -/
structure Tracked (fd : ChannelPtr → Nat) (r : Registry) (s : EPollPoller) : Prop where
  events : ∀ c, (s.channel c).events = r.events c
  channels : ∀ f c, s.channels f = some c ↔ c ∈ r.registered ∧ fd c = f
  index : ∀ c, if c ∈ r.registered then
    (s.channel c).index = kAdded ∧ s.interest (fd c) = some (r.events c) ∨
      (s.channel c).index = kDeleted ∧ s.interest (fd c) = none ∧ r.events c = kNoneEvent
    else (s.channel c).index = kNew
  free : ∀ f, s.channels f = none → s.interest f = none

theorem Tracked.new : Tracked fd .new .new where
  events _ := rfl
  channels _ _ := Iff.intro (fun held => nomatch held) fun inside => nomatch inside.1
  index _ := if_neg List.not_mem_nil |>.mpr rfl
  free _ _ := rfl

theorem Tracked.waits_eq (t : Tracked fd r s) : s.waits = r.wanted fd := by
  ext ⟨f, events⟩
  refine and_congr_right fun some_ => ?_
  constructor
  · intro waiting
    cases held : s.channels f with
    | none => exact nomatch (t.free f held).symm.trans waiting
    | some c =>
      obtain ⟨inside, rfl⟩ := (t.channels _ _).mp held
      have index := t.index c
      rw [if_pos inside] at index
      rcases index with ⟨-, known⟩ | ⟨-, unknown, -⟩
      · exact ⟨c, inside, rfl, Option.some.inj (known.symm.trans waiting)⟩
      · exact nomatch unknown.symm.trans waiting
  · rintro ⟨c, inside, rfl, wants⟩
    have index := t.index c
    rw [if_pos inside] at index
    rcases index with ⟨-, known⟩ | ⟨-, -, idle⟩
    · exact known.trans (congrArg some wants)
    · exact absurd (wants.symm.trans idle) some_

theorem Tracked.updated (t : Tracked fd r s) (taken : r.step fd (.update u c) = some r')
    {s' : EPollPoller} {index : Int} {known : Option Events}
    (consistent : index = kAdded ∧ known = some (u.apply (r.events c)) ∨
      index = kDeleted ∧ known = none ∧ u.apply (r.events c) = kNoneEvent)
    (channel : s'.channel = Function.update s.channel c ⟨u.apply (r.events c), index⟩)
    (channels : s'.channels = Function.update s.channels (fd c) (some c))
    (interest : s'.interest = Function.update s.interest (fd c) known) : Tracked fd r' s' := by
  obtain ⟨apart, events, members⟩ := r.step_update taken
  refine ⟨fun k => ?_, fun f k => ?_, fun k => ?_, fun f unmapped => ?_⟩
  · rw [channel, events]
    by_cases same : k = c
    · rw [same, Function.update_self, Function.update_self]
    · rw [Function.update_of_ne same, Function.update_of_ne same, t.events]
  · rw [members, channels]
    by_cases here : f = fd c
    · rw [here, Function.update_self, Option.some_inj]
      constructor
      · rintro rfl
        exact ⟨.inr rfl, rfl⟩
      · rintro ⟨inside | rfl, same⟩
        · exact (apart k inside same).symm
        · rfl
    · rw [Function.update_of_ne here]
      refine (t.channels f k).trans (and_congr_left fun same => ?_)
      rw [or_iff_left]
      rintro rfl
      exact here same.symm
  · rw [channel, interest, events]
    by_cases same : k = c
    · rw [same, if_pos ((members c).mpr (.inr rfl)), Function.update_self, Function.update_self,
        Function.update_self]
      exact consistent
    · have before := t.index k
      have inside : k ∈ r'.registered ↔ k ∈ r.registered := (members k).trans (or_iff_left same)
      rw [Function.update_of_ne same, Function.update_of_ne same]
      by_cases registered : k ∈ r.registered
      · have other : fd k ≠ fd c := fun equal => same (apart k registered equal)
        rw [if_pos registered] at before
        rwa [if_pos (inside.mpr registered), Function.update_of_ne other]
      · rw [if_neg registered] at before
        rwa [if_neg fun now => registered (inside.mp now)]
  · rw [channels] at unmapped
    have here : f ≠ fd c := by
      rintro rfl
      rw [Function.update_self] at unmapped
      exact nomatch unmapped
    rw [Function.update_of_ne here] at unmapped
    rw [interest, Function.update_of_ne here]
    exact t.free f unmapped

theorem Tracked.step_update (t : Tracked fd r s) (taken : r.step fd (.update u c) = some r') :
    ∃ s', s.step fd (.update u c) = some s' ∧ Tracked fd r' s' := by
  obtain ⟨apart, events, members⟩ := r.step_update taken
  have here : (s.changed u c).channel c = ⟨u.apply (r.events c), (s.channel c).index⟩ := by
    rw [changed, ← t.events]
    exact Function.update_self ..
  have twice : ∀ index, Function.update (s.changed u c).channel c ⟨u.apply (r.events c), index⟩ =
      Function.update s.channel c ⟨u.apply (r.events c), index⟩ := fun _ => Function.update_idem ..
  have index := t.index c
  by_cases registered : c ∈ r.registered
  · have mapped : s.channels (fd c) = some c := (t.channels _ _).mpr ⟨registered, rfl⟩
    have kept : s.channels = Function.update s.channels (fd c) (some c) := by
      rw [← mapped, Function.update_eq_self]
    have mapped' : (s.changed u c).channels (fd c) = some c := mapped
    rw [if_pos registered] at index
    rcases index with ⟨added, known⟩ | ⟨deleted, unknown, -⟩
    · have known' : (s.changed u c).interest (fd c) = some (r.events c) := known
      by_cases idle : u.apply (r.events c) = kNoneEvent
      · refine ⟨{
            channel := Function.update (s.changed u c).channel c ⟨u.apply (r.events c), kDeleted⟩
            channels := s.channels
            interest := Function.update s.interest (fd c) none }, ?_,
          t.updated taken (.inr ⟨rfl, rfl, idle⟩) (twice _) kept rfl⟩
        rw [step, updateChannel, here, added]
        simp only [if_pos mapped', Channel.isNoneEvent, idle, update, epoll_ctl, known', here]
        rfl
      · refine ⟨{
            channel := Function.update (s.changed u c).channel c ⟨u.apply (r.events c), kAdded⟩
            channels := s.channels
            interest := Function.update s.interest (fd c) (some (u.apply (r.events c))) }, ?_,
          t.updated taken (.inl ⟨rfl, rfl⟩) (twice _) kept rfl⟩
        rw [step, updateChannel, here, added]
        simp only [if_pos mapped', Channel.isNoneEvent, idle, update, epoll_ctl, known', here]
        rfl
    · have unknown' : (s.changed u c).interest (fd c) = none := unknown
      refine ⟨{
          channel := Function.update (s.changed u c).channel c ⟨u.apply (r.events c), kAdded⟩
          channels := s.channels
          interest := Function.update s.interest (fd c) (some (u.apply (r.events c))) }, ?_,
        t.updated taken (.inl ⟨rfl, rfl⟩) (twice _) kept rfl⟩
      rw [step, updateChannel, here, deleted]
      simp only [if_pos mapped', update, epoll_ctl, unknown', here]
      rfl
  · have free : s.channels (fd c) = none := by
      cases held : s.channels (fd c) with
      | none => rfl
      | some k =>
        obtain ⟨inside, same⟩ := (t.channels _ _).mp held
        exact absurd (apart k inside same ▸ inside) registered
    have free' : (s.changed u c).channels (fd c) = none := free
    have unknown : (s.changed u c).interest (fd c) = none := t.free _ free
    rw [if_neg registered] at index
    refine ⟨{
        channel := Function.update (s.changed u c).channel c ⟨u.apply (r.events c), kAdded⟩
        channels := Function.update s.channels (fd c) (some c)
        interest := Function.update s.interest (fd c) (some (u.apply (r.events c))) }, ?_,
      t.updated taken (.inl ⟨rfl, rfl⟩) (twice _) rfl rfl⟩
    rw [step, updateChannel, here, index]
    simp only [if_pos free', update, epoll_ctl, unknown, here]
    rfl

theorem Tracked.step_remove (t : Tracked fd r s) (taken : r.step fd (.remove c) = some r') :
    ∃ s', s.step fd (.remove c) = some s' ∧ Tracked fd r' s' := by
  obtain ⟨inside, idle, events, members⟩ := r.step_remove taken
  have mapped : ∀ k ∈ r.registered, s.channels (fd k) = some k := fun k inside =>
    (t.channels _ _).mpr ⟨inside, rfl⟩
  have asserted : s.channels (fd c) = some c ∧ (s.channel c).isNoneEvent :=
    ⟨mapped c inside, decide_eq_true ((t.events c).trans idle)⟩
  have index := t.index c
  rw [if_pos inside] at index
  obtain ⟨s', told, channel', channels', interest'⟩ : ∃ s', s.step fd (.remove c) = some s' ∧
      s'.channel = Function.update s.channel c ⟨(s.channel c).events, kNew⟩ ∧
      s'.channels = Function.update s.channels (fd c) none ∧
      s'.interest = Function.update s.interest (fd c) none := by
    rcases index with ⟨added, known⟩ | ⟨deleted, unknown, -⟩
    · refine ⟨⟨Function.update s.channel c ⟨(s.channel c).events, kNew⟩,
        Function.update s.channels (fd c) none, Function.update s.interest (fd c) none⟩,
        ?_, rfl, rfl, rfl⟩
      simp only [step, removeChannel, if_pos asserted, added, if_true, update, epoll_ctl, known]
      rfl
    · refine ⟨⟨Function.update s.channel c ⟨(s.channel c).events, kNew⟩,
        Function.update s.channels (fd c) none, s.interest⟩, ?_, rfl, rfl,
        by rw [← unknown, Function.update_eq_self]⟩
      simp only [step, removeChannel, if_pos asserted, deleted]
      rfl
  refine ⟨s', told, fun k => ?_, fun f k => ?_, fun k => ?_, fun f unmapped => ?_⟩
  · rw [channel', events]
    by_cases same : k = c
    · rw [same, Function.update_self, t.events]
    · rw [Function.update_of_ne same, t.events]
  · rw [channels', members]
    by_cases here : f = fd c
    · rw [here, Function.update_self]
      refine iff_of_false (fun held => nomatch held) ?_
      rintro ⟨⟨inside', other⟩, same⟩
      have one := mapped k inside'
      rw [same, mapped c inside, Option.some_inj] at one
      exact other one.symm
    · rw [Function.update_of_ne here]
      refine (t.channels f k).trans (and_congr_left fun same => ?_)
      rw [iff_self_and]
      rintro - rfl
      exact here same.symm
  · rw [channel', interest', events]
    by_cases same : k = c
    · rw [same, if_neg fun now => ((members c).mp now).2 rfl, Function.update_self]
    · have before := t.index k
      have still : k ∈ r'.registered ↔ k ∈ r.registered := (members k).trans (and_iff_left same)
      rw [Function.update_of_ne same]
      by_cases registered : k ∈ r.registered
      · have other : fd k ≠ fd c := by
          intro equal
          have one := mapped k registered
          rw [equal, mapped c inside, Option.some_inj] at one
          exact same one.symm
        rw [if_pos registered] at before
        rwa [if_pos (still.mpr registered), Function.update_of_ne other]
      · rw [if_neg registered] at before
        rwa [if_neg fun now => registered (still.mp now)]
  · rw [channels'] at unmapped
    rw [interest']
    by_cases here : f = fd c
    · rw [here, Function.update_self]
    · rw [Function.update_of_ne here] at unmapped ⊢
      exact t.free f unmapped

theorem Tracked.step (t : Tracked fd r s) {op : Op} (taken : r.step fd op = some r') :
    ∃ s', s.step fd op = some s' ∧ Tracked fd r' s' := by
  cases op with
  | update u c => exact t.step_update taken
  | remove c => exact t.step_remove taken

end EPollPoller

end ProjectsCpp.MuduoNet
