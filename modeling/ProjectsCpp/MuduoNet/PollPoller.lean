import ProjectsCpp.Lib.Slots
import ProjectsCpp.MuduoNet.Channel
import Mathlib.Algebra.Order.Group.Int

/-! The poller over `poll(2)` (`poller/PollPoller.cc`). A failing assertion, an index outside
`pollfds_` and a null pointer give `none`. -/

namespace ProjectsCpp.MuduoNet
open ProjectsCpp.Slots

/-- `struct pollfd`; a negative descriptor is not waited for. -/
structure PollFd where
  fd : Int
  events : BitVec 16
deriving DecidableEq

structure PollPoller where
  channel : ChannelPtr → Channel
  channels : Nat → Option ChannelPtr
  pollfds : List PollFd

namespace PollPoller

def new : PollPoller := ⟨fun _ => .new, fun _ => none, []⟩

variable (fd : ChannelPtr → Nat)

def updateChannel (s : PollPoller) (c : ChannelPtr) : Option PollPoller :=
  let channel := s.channel c
  if channel.index < 0 then
    if s.channels (fd c) = none then
      some {
        channel := Function.update s.channel c { channel with index := s.pollfds.length }
        channels := Function.update s.channels (fd c) (some c)
        pollfds := s.pollfds ++ [⟨fd c, channel.events.setWidth 16⟩] }
    else none
  else if s.channels (fd c) = some c then
    s.pollfds[channel.index.toNat]?.bind fun pfd =>
      if pfd.fd = fd c ∨ pfd.fd = -fd c - 1 then
        some { s with
          pollfds := s.pollfds.set channel.index.toNat
            ⟨if channel.isNoneEvent then -fd c - 1 else fd c, channel.events.setWidth 16⟩ }
      else none
  else none

def removeChannel (s : PollPoller) (c : ChannelPtr) : Option PollPoller :=
  let channel := s.channel c
  if s.channels (fd c) = some c ∧ channel.isNoneEvent ∧ 0 ≤ channel.index then
    let idx := channel.index.toNat
    s.pollfds[idx]?.bind fun pfd =>
      if pfd.fd = -fd c - 1 ∧ pfd.events.signExtend 32 = channel.events then
        let channels := Function.update s.channels (fd c) none
        if idx = s.pollfds.length - 1 then
          some { s with channels := channels, pollfds := s.pollfds.dropLast }
        else s.pollfds.getLast?.bind fun back =>
          let channelAtEnd := if back.fd < 0 then -back.fd - 1 else back.fd
          (channels channelAtEnd.toNat).map fun k => {
            channel := Function.update s.channel k { s.channel k with index := idx }
            channels := channels
            pollfds := (s.pollfds.set idx back).dropLast }
      else none
  else none

/-- The change of `events_`, before the poller is told. -/
def changed (s : PollPoller) (u : Update) (c : ChannelPtr) : PollPoller :=
  { s with
    channel := Function.update s.channel c ⟨u.apply (s.channel c).events, (s.channel c).index⟩ }

def step (s : PollPoller) : Op → Option PollPoller
  | .update u c => updateChannel fd (s.changed u c) c
  | .remove c => removeChannel fd s c

def run (ops : List Op) : Option PollPoller := ops.foldlM (step fd) .new

/-- The descriptors and events that `poll(2)` is called with. -/
def waits (s : PollPoller) : Set (Nat × Events) :=
  { w | w.2 ≠ kNoneEvent ∧ ∃ pfd ∈ s.pollfds, pfd.fd = w.1 ∧ pfd.events.signExtend 32 = w.2 }

end PollPoller

def Op.updates (c : ChannelPtr) : Op → Bool
  | .update _ k => k = c
  | .remove _ => false

def Allowed (before : List Op) : Op → Prop
  | .update _ c => .remove c ∉ before
  | .remove c => 2 ≤ before.countP (Op.updates c)

instance {before : List Op} {op : Op} : Decidable (Allowed before op) :=
  match op with
  | .update _ c => inferInstanceAs (Decidable (.remove c ∉ before))
  | .remove c => inferInstanceAs (Decidable (2 ≤ before.countP (Op.updates c)))

namespace PollPoller
variable {fd : ChannelPtr → Nat} {before : List Op} {r r' : Registry} {s : PollPoller}
  {slots : List ChannelPtr} {c : ChannelPtr} {u : Update}

/-- The entry of a channel: not to be waited for, when an update after the first has left no
interest. -/
def entry (fd : ChannelPtr → Nat) (before : List Op) (events : ChannelPtr → Events)
    (c : ChannelPtr) : PollFd :=
  ⟨if events c = kNoneEvent ∧ 2 ≤ before.countP (Op.updates c) then -fd c - 1 else fd c,
    (events c).setWidth 16⟩

theorem entry_fd (fd : ChannelPtr → Nat) (before : List Op) (events : ChannelPtr → Events)
    (c : ChannelPtr) :
    (entry fd before events c).fd = fd c ∨ (entry fd before events c).fd = -fd c - 1 := by
  rw [entry]
  by_cases idle : events c = kNoneEvent ∧ 2 ≤ before.countP (Op.updates c)
  · exact .inr (if_pos idle)
  · exact .inl (if_neg idle)

structure Tracked (fd : ChannelPtr → Nat) (before : List Op) (r : Registry) (s : PollPoller)
    (slots : List ChannelPtr) : Prop where
  events : ∀ c, (s.channel c).events = r.events c
  known : ∀ c, r.events c ∈ masks
  members : ∀ c, c ∈ slots ↔ c ∈ r.registered
  placed : Placed (fun c => (s.channel c).index) slots
  pollfds : s.pollfds = slots.map (entry fd before r.events)
  channels : ∀ f c, s.channels f = some c ↔ c ∈ r.registered ∧ fd c = f
  fresh : ∀ c, c ∉ r.registered → .remove c ∉ before →
    (s.channel c).index < 0 ∧ before.countP (Op.updates c) = 0
  removed : ∀ c, .remove c ∈ before → 0 ≤ (s.channel c).index ∧ c ∉ r.registered
  counted : ∀ c ∈ r.registered, 1 ≤ before.countP (Op.updates c)

theorem Tracked.new : Tracked fd [] .new .new [] where
  events _ := rfl
  known _ := List.mem_cons_self
  members _ := Iff.rfl
  placed := .nil
  pollfds := rfl
  channels _ _ := Iff.intro (fun held => nomatch held) fun inside => nomatch inside.1
  fresh _ _ _ := ⟨Int.negSucc_lt_zero 0, rfl⟩
  removed _ inside := nomatch inside
  counted _ inside := nomatch inside

theorem Tracked.waits_eq (t : Tracked fd before r s slots) : s.waits = r.wanted fd := by
  ext ⟨f, events⟩
  refine and_congr_right fun some_ => ?_
  rw [t.pollfds]
  constructor
  · rintro ⟨pfd, inside, same, short⟩
    obtain ⟨c, member, rfl⟩ := List.mem_map.mp inside
    have wants : r.events c = events := (short_of_mem_masks (t.known c)).symm.trans short
    refine ⟨c, (t.members c).mp member, ?_, wants⟩
    rw [entry, if_neg fun idle => some_ (wants.symm.trans idle.1)] at same
    exact Int.ofNat.inj same
  · rintro ⟨c, member, rfl, wants⟩
    refine ⟨entry fd before r.events c, List.mem_map_of_mem ((t.members c).mpr member), ?_, ?_⟩
    · rw [entry, if_neg fun idle => some_ (wants.symm.trans idle.1)]
    · exact (short_of_mem_masks (t.known c)).trans wants

/-! ### One operation -/

theorem count_update_self (before : List Op) (u : Update) (c : ChannelPtr) :
    (before ++ [Op.update u c]).countP (Op.updates c) = before.countP (Op.updates c) + 1 := by
  rw [List.countP_append, List.countP_singleton, Op.updates, decide_eq_true rfl, if_pos rfl]

theorem count_update_of_ne (before : List Op) (u : Update) {c k : ChannelPtr} (other : k ≠ c) :
    (before ++ [Op.update u c]).countP (Op.updates k) = before.countP (Op.updates k) := by
  have apart : ¬ Op.updates k (.update u c) = true := fun same => other (of_decide_eq_true same).symm
  rw [List.countP_append, List.countP_singleton, if_neg apart, Nat.add_zero]

theorem count_remove (before : List Op) (c k : ChannelPtr) :
    (before ++ [Op.remove c]).countP (Op.updates k) = before.countP (Op.updates k) := by
  have other : ¬ Op.updates k (.remove c) = true := Bool.false_ne_true
  rw [List.countP_append, List.countP_singleton, if_neg other, Nat.add_zero]

theorem entry_update_of_ne (before : List Op) (u : Update) (events : ChannelPtr → Events)
    (e : Events) {c k : ChannelPtr} (other : k ≠ c) :
    entry fd (before ++ [.update u c]) (Function.update events c e) k = entry fd before events k := by
  rw [entry, entry, Function.update_of_ne other, count_update_of_ne before u other]

theorem entry_remove (before : List Op) (events : ChannelPtr → Events) (c : ChannelPtr) :
    entry fd (before ++ [.remove c]) events = entry fd before events := by
  funext k
  rw [entry, entry, count_remove]

theorem remove_mem_update {before : List Op} {u : Update} {c k : ChannelPtr} :
    Op.remove k ∈ before ++ [.update u c] ↔ .remove k ∈ before := by
  rw [List.mem_append, List.mem_singleton, or_iff_left Op.noConfusion]

theorem changed_channel (s : PollPoller) (u : Update) (c k : ChannelPtr) :
    (s.changed u c).channel k =
      ⟨Function.update (fun k => (s.channel k).events) c (u.apply (s.channel c).events) k,
        (s.channel k).index⟩ := by
  by_cases same : k = c
  · rw [same, changed, Function.update_self]
    simp only [Function.update_self]
  · rw [changed, Function.update_of_ne same]
    simp only [Function.update_of_ne same]

theorem step_new (index : (s.channel c).index < 0) (free : s.channels (fd c) = none) (u : Update) :
    ∃ s', s.step fd (.update u c) = some s' ∧
      (∀ k, (s'.channel k).events =
        Function.update (fun k => (s.channel k).events) c (u.apply (s.channel c).events) k) ∧
      (∀ k, (s'.channel k).index =
        Function.update (fun k => (s.channel k).index) c s.pollfds.length k) ∧
      s'.channels = Function.update s.channels (fd c) (some c) ∧
      s'.pollfds = s.pollfds ++ [⟨fd c, (u.apply (s.channel c).events).setWidth 16⟩] := by
  have same := changed_channel s u c
  refine ⟨{
    channel := Function.update (s.changed u c).channel c
      ⟨u.apply (s.channel c).events, s.pollfds.length⟩
    channels := Function.update s.channels (fd c) (some c)
    pollfds := s.pollfds ++ [⟨fd c, (u.apply (s.channel c).events).setWidth 16⟩] },
    ?_, fun k => ?_, fun k => ?_, rfl, rfl⟩
  · have here := same c
    rw [Function.update_self] at here
    rw [step, updateChannel, here]
    exact (if_pos index).trans (if_pos free)
  · by_cases here : k = c
    · simp only [here, Function.update_self]
    · simp only [Function.update_of_ne here, same]
  · by_cases here : k = c
    · simp only [here, Function.update_self]
    · simp only [Function.update_of_ne here, same]

theorem step_known {i : Nat} {pfd : PollFd} (index : (s.channel c).index = i)
    (here : s.channels (fd c) = some c) (found : s.pollfds[i]? = some pfd)
    (own : pfd.fd = fd c ∨ pfd.fd = -fd c - 1) (u : Update) :
    ∃ s', s.step fd (.update u c) = some s' ∧
      (∀ k, (s'.channel k).events =
        Function.update (fun k => (s.channel k).events) c (u.apply (s.channel c).events) k) ∧
      (∀ k, (s'.channel k).index = (s.channel k).index) ∧ s'.channels = s.channels ∧
      s'.pollfds = s.pollfds.set i
        ⟨if u.apply (s.channel c).events = kNoneEvent then -fd c - 1 else fd c,
          (u.apply (s.channel c).events).setWidth 16⟩ := by
  have same := changed_channel s u c
  have kept : ∀ k, ((s.changed u c).channel k).index = (s.channel k).index := fun k =>
    (congrArg Channel.index (same k)).trans rfl
  refine ⟨{ s.changed u c with
    pollfds := s.pollfds.set i
      ⟨if u.apply (s.channel c).events = kNoneEvent then -fd c - 1 else fd c,
        (u.apply (s.channel c).events).setWidth 16⟩ },
    ?_, fun k => congrArg Channel.events (same k), kept, rfl, rfl⟩
  have this_ := same c
  rw [Function.update_self, index] at this_
  have found : (s.changed u c).pollfds[i]? = some pfd := found
  have here : (s.changed u c).channels (fd c) = some c := here
  simp only [step, updateChannel, this_, if_neg (Int.not_lt.mpr (Int.natCast_nonneg i)), if_pos here,
    Int.toNat_natCast, found, Option.bind_some, if_pos own, Channel.isNoneEvent, decide_eq_true_iff]
  rfl

theorem channelAtEnd_eq {back : PollFd} (own : back.fd = fd c ∨ back.fd = -fd c - 1) :
    (if back.fd < 0 then -back.fd - 1 else back.fd).toNat = fd c := by
  rcases own with own | own
  · rw [own, if_neg (Int.not_lt.mpr (Int.natCast_nonneg _)), Int.toNat_natCast]
  · rw [own, if_pos (by omega)]
    omega

theorem step_removed {i : Nat} {pfd back : PollFd} {last : ChannelPtr}
    (index : (s.channel c).index = i) (here : s.channels (fd c) = some c)
    (idle : (s.channel c).events = kNoneEvent) (found : s.pollfds[i]? = some pfd)
    (ignored : pfd.fd = -fd c - 1) (short : pfd.events.signExtend 32 = (s.channel c).events)
    (atEnd : s.pollfds.getLast? = some back) (own : back.fd = fd last ∨ back.fd = -fd last - 1)
    (mapped : s.channels (fd last) = some last) (same : i = s.pollfds.length - 1 → last = c)
    (apart : i ≠ s.pollfds.length - 1 → fd last ≠ fd c) :
    ∃ s', s.step fd (.remove c) = some s' ∧ (∀ k, (s'.channel k).events = (s.channel k).events) ∧
      (∀ k, (s'.channel k).index = Function.update (fun k => (s.channel k).index) last i k) ∧
      s'.channels = Function.update s.channels (fd c) none ∧
      s'.pollfds = (s.pollfds.set i back).dropLast := by
  have asserted : s.channels (fd c) = some c ∧ (s.channel c).isNoneEvent ∧ (0 : Int) ≤ (i : Int) :=
    ⟨here, decide_eq_true idle, Int.natCast_nonneg i⟩
  have entry_ : pfd.fd = -fd c - 1 ∧ pfd.events.signExtend 32 = (s.channel c).events :=
    ⟨ignored, short⟩
  by_cases final : i = s.pollfds.length - 1
  · refine ⟨{ s with
      channels := Function.update s.channels (fd c) none, pollfds := s.pollfds.dropLast },
      ?_, fun k => rfl, fun k => ?_, rfl, ?_⟩
    · simp only [step, removeChannel, index, if_pos asserted, Int.toNat_natCast, found,
        Option.bind_some, if_pos entry_, if_pos final]
    · by_cases moved : k = last
      · rw [moved, Function.update_self, same final, index]
      · rw [Function.update_of_ne moved]
    · apply List.ext_getElem?
      intro j
      rw [List.getElem?_dropLast, List.getElem?_dropLast, List.length_set]
      by_cases before : j < s.pollfds.length - 1
      · rw [if_pos before, if_pos before, List.getElem?_set_ne (by omega)]
      · rw [if_neg before, if_neg before]
  · refine ⟨{
      channel := Function.update s.channel last ⟨(s.channel last).events, i⟩
      channels := Function.update s.channels (fd c) none
      pollfds := (s.pollfds.set i back).dropLast }, ?_, fun k => ?_, fun k => ?_, rfl, rfl⟩
    · have held : Function.update s.channels (fd c) none (fd last) = some last := by
        rw [Function.update_of_ne (apart final), mapped]
      simp only [step, removeChannel, index, if_pos asserted, Int.toNat_natCast, found,
        Option.bind_some, if_pos entry_, if_neg final, atEnd, channelAtEnd_eq own, held,
        Option.map_some]
    · by_cases moved : k = last
      · simp only [moved, Function.update_self]
      · simp only [Function.update_of_ne moved]
    · by_cases moved : k = last
      · simp only [moved, Function.update_self]
      · simp only [Function.update_of_ne moved]

theorem Tracked.known_update (t : Tracked fd before r s slots) (u : Update) (c k : ChannelPtr) :
    Function.update r.events c (u.apply (r.events c)) k ∈ masks := by
  by_cases same : k = c
  · rw [same, Function.update_self]
    exact apply_mem_masks u (t.known c)
  · rw [Function.update_of_ne same]
    exact t.known k

theorem Tracked.add (t : Tracked fd before r s slots) (taken : r.step fd (.update u c) = some r')
    (absent : c ∉ r.registered) (unused : .remove c ∉ before) :
    ∃ s', s.step fd (.update u c) = some s' ∧
      Tracked fd (before ++ [.update u c]) r' s' (slots ++ [c]) := by
  obtain ⟨apart, events, members⟩ := r.step_update taken
  obtain ⟨index, count⟩ := t.fresh c absent unused
  have outside : c ∉ slots := fun inside => absent ((t.members c).mp inside)
  have free : s.channels (fd c) = none := by
    cases held : s.channels (fd c) with
    | none => rfl
    | some k =>
      obtain ⟨inside, same⟩ := (t.channels _ _).mp held
      exact absurd (apart k inside same ▸ inside) absent
  obtain ⟨s', told, events', index', channels', pollfds'⟩ := step_new index free u
  rw [funext t.events, t.events, ← events] at events'
  rw [t.events] at pollfds'
  refine ⟨s', told, events', fun k => ?_, fun k => ?_, ?_, ?_, fun f k => ?_, fun k gone never => ?_,
    fun k gone => ?_, fun k inside => ?_⟩
  · rw [events]
    exact t.known_update u c k
  · rw [members, List.mem_append, List.mem_singleton, t.members]
  · have long : s.pollfds.length = slots.length := by rw [t.pollfds, List.length_map]
    exact (long ▸ t.placed.push outside).congr fun k _ => index' k
  · have others : slots.map (entry fd (before ++ [.update u c])
        (Function.update r.events c (u.apply (r.events c)))) = slots.map (entry fd before r.events) :=
      List.map_congr_left fun k inside =>
        entry_update_of_ne before u _ _ fun same => outside (same ▸ inside)
    have this_ : entry fd (before ++ [.update u c])
        (Function.update r.events c (u.apply (r.events c))) c =
        ⟨fd c, (u.apply (r.events c)).setWidth 16⟩ := by
      rw [entry, count_update_self, count, if_neg fun idle => absurd idle.2 (by decide),
        Function.update_self]
    rw [pollfds', events, List.map_append, List.map_singleton, others, this_, t.pollfds]
  · rw [members, channels']
    by_cases here : f = fd c
    · rw [here, Function.update_self, Option.some_inj]
      constructor
      · rintro rfl
        exact ⟨.inr rfl, rfl⟩
      · rintro ⟨inside | rfl, same⟩
        · exact (apart k inside same).symm
        · rfl
    · rw [Function.update_of_ne here]
      refine (t.channels f k).trans (and_congr_left fun same => ?_)
      rw [or_iff_left]
      rintro rfl
      exact here same.symm
  · rw [members, not_or] at gone
    rw [remove_mem_update] at never
    rw [index', Function.update_of_ne gone.2, count_update_of_ne before u gone.2]
    exact t.fresh k gone.1 never
  · rw [remove_mem_update] at gone
    have other : k ≠ c := fun same => unused (same ▸ gone)
    rw [index', Function.update_of_ne other, members, not_or]
    exact ⟨(t.removed k gone).1, (t.removed k gone).2, other⟩
  · by_cases same : k = c
    · rw [same, count_update_self]
      exact Nat.le_add_left 1 _
    · rw [count_update_of_ne before u same]
      exact t.counted k (((members k).mp inside).resolve_right same)

theorem Tracked.modify (t : Tracked fd before r s slots) (taken : r.step fd (.update u c) = some r')
    (inside : c ∈ r.registered) :
    ∃ s', s.step fd (.update u c) = some s' ∧ Tracked fd (before ++ [.update u c]) r' s' slots := by
  obtain ⟨apart, events, members⟩ := r.step_update taken
  have members : ∀ k, k ∈ r'.registered ↔ k ∈ r.registered := fun k =>
    (members k).trans (or_iff_left_of_imp fun same => same ▸ inside)
  obtain ⟨i, index, held⟩ := t.placed.at_eq ((t.members c).mpr inside)
  have found : s.pollfds[i]? = some (entry fd before r.events c) := by
    rw [t.pollfds, List.getElem?_map, held, Option.map_some]
  obtain ⟨s', told, events', index', channels', pollfds'⟩ := step_known index
    ((t.channels _ _).mpr ⟨inside, rfl⟩) found (entry_fd fd before r.events c) u
  rw [funext t.events, t.events, ← events] at events'
  rw [t.events] at pollfds'
  refine ⟨s', told, events', fun k => ?_, fun k => ?_, t.placed.congr fun k _ => index' k, ?_,
    fun f k => ?_, fun k gone never => ?_, fun k gone => ?_, fun k inside => ?_⟩
  · rw [events]
    exact t.known_update u c k
  · rw [members, t.members]
  · rw [pollfds', t.pollfds, t.placed.map_set held, events]
    refine List.map_congr_left fun k _ => ?_
    by_cases same : k = c
    · have twice : 2 ≤ before.countP (Op.updates c) + 1 := Nat.succ_le_succ (t.counted c inside)
      rw [same, Function.update_self, entry, count_update_self, Function.update_self]
      simp only [twice, and_true]
    · rw [Function.update_of_ne same, entry_update_of_ne before u _ _ same]
  · rw [members, channels']
    exact t.channels f k
  · rw [members] at gone
    rw [remove_mem_update] at never
    have other : k ≠ c := fun same => gone (same ▸ inside)
    rw [index', count_update_of_ne before u other]
    exact t.fresh k gone never
  · rw [remove_mem_update] at gone
    rw [index', members]
    exact t.removed k gone
  · refine Nat.le_trans (t.counted k ((members k).mp inside)) ?_
    rw [List.countP_append]
    exact Nat.le_add_right _ _

theorem Tracked.drop (t : Tracked fd before r s slots) (taken : r.step fd (.remove c) = some r')
    (twice : 2 ≤ before.countP (Op.updates c)) :
    ∃ s' slots', s.step fd (.remove c) = some s' ∧
      Tracked fd (before ++ [.remove c]) r' s' slots' := by
  obtain ⟨inside, idle, events, members⟩ := r.step_remove taken
  obtain ⟨i, index, held⟩ := t.placed.at_eq ((t.members c).mpr inside)
  have there := List.mem_of_getElem? held
  obtain ⟨last, atEnd⟩ : ∃ last, slots.getLast? = some last :=
    ⟨_, List.getLast?_eq_some_getLast (List.ne_nil_of_mem there)⟩
  have lastIn := (t.members last).mp (List.mem_of_getLast? atEnd)
  have long : s.pollfds.length = slots.length := by rw [t.pollfds, List.length_map]
  have lastAt : slots[slots.length - 1]? = some last := List.getLast?_eq_getElem?.symm.trans atEnd
  have mapped : ∀ k ∈ r.registered, s.channels (fd k) = some k := fun k inside =>
    (t.channels _ _).mpr ⟨inside, rfl⟩
  have ignored : entry fd before r.events c = ⟨-fd c - 1, (r.events c).setWidth 16⟩ := by
    rw [entry, if_pos ⟨idle, twice⟩]
  have found : s.pollfds[i]? = some (entry fd before r.events c) := by
    rw [t.pollfds, List.getElem?_map, held, Option.map_some]
  have back : s.pollfds.getLast? = some (entry fd before r.events last) := by
    rw [t.pollfds, List.getLast?_map, atEnd, Option.map_some]
  obtain ⟨s', told, events', index', channels', pollfds'⟩ := step_removed index (mapped c inside)
    ((t.events c).trans idle) found (congrArg PollFd.fd ignored)
    (by rw [ignored, t.events, short_of_mem_masks (t.known c)]) back
    (entry_fd fd before r.events last) (mapped last lastIn)
    (fun final => by
      rw [long] at final
      rw [final, lastAt] at held
      exact Option.some.inj held)
    (fun before_ same => by
      have one := mapped last lastIn
      rw [same, mapped c inside, Option.some_inj] at one
      have position : (s.channel last).index = _ := t.placed _ _ lastAt
      rw [← one, index] at position
      omega)
  refine ⟨s', (slots.set i last).dropLast, told, fun k => ?_, fun k => ?_, fun k => ?_, ?_, ?_,
    fun f k => ?_, fun k gone never => ?_, fun k gone => ?_, fun k inside => ?_⟩
  · rw [events', t.events, events]
  · rw [events]
    exact t.known k
  · rw [t.placed.mem_swapRemove held atEnd, members, t.members]
  · exact (t.placed.swapRemove atEnd).congr fun k _ => index' k
  · rw [pollfds', events, entry_remove, t.pollfds, List.map_dropLast, List.map_set]
  · rw [channels', members]
    by_cases here : f = fd c
    · rw [here, Function.update_self]
      refine iff_of_false (fun held => nomatch held) ?_
      rintro ⟨⟨inside', other⟩, same⟩
      have one := mapped k inside'
      rw [same, mapped c inside, Option.some_inj] at one
      exact other one.symm
    · rw [Function.update_of_ne here]
      refine (t.channels f k).trans (and_congr_left fun same => ?_)
      rw [iff_self_and]
      rintro - rfl
      exact here same.symm
  · rw [List.mem_append, List.mem_singleton, not_or] at never
    have other : k ≠ c := fun same => never.2 (congrArg Op.remove same)
    have absent : k ∉ r.registered := fun inside => gone ((members k).mpr ⟨inside, other⟩)
    have notLast : k ≠ last := fun same => absent (same ▸ lastIn)
    rw [index', Function.update_of_ne notLast, count_remove]
    exact t.fresh k absent never.1
  · rw [List.mem_append, List.mem_singleton] at gone
    rw [index', members]
    by_cases moved : k = last
    · rw [moved, Function.update_self]
      refine ⟨Int.natCast_nonneg i, fun inside => ?_⟩
      rcases gone with gone | gone
      · exact (t.removed k gone).2 (moved ▸ lastIn)
      · exact inside.2 (moved.symm.trans (Op.remove.inj gone))
    · rw [Function.update_of_ne moved]
      rcases gone with gone | gone
      · exact ⟨(t.removed k gone).1, fun inside => (t.removed k gone).2 inside.1⟩
      · cases gone
        exact ⟨index ▸ Int.natCast_nonneg i, fun inside => inside.2 rfl⟩
  · rw [count_remove]
    exact t.counted k ((members k).mp inside).1

theorem Tracked.refused (t : Tracked fd before r s slots) {op : Op} (taken : r.step fd op = some r')
    (bad : ¬ Allowed before op) : s.step fd op = none := by
  cases op with
  | update u c =>
    obtain ⟨index, gone⟩ := t.removed c (Classical.not_not.mp bad)
    have unmapped : s.channels (fd c) ≠ some c := fun held => gone ((t.channels _ _).mp held).1
    have kept : ((s.changed u c).channel c).index = (s.channel c).index := by
      rw [changed_channel]
    rw [step, updateChannel, if_neg (by rw [kept]; exact Int.not_lt.mpr index)]
    exact if_neg unmapped
  | remove c =>
    obtain ⟨inside, idle, events, members⟩ := r.step_remove taken
    obtain ⟨i, index, held⟩ := t.placed.at_eq ((t.members c).mpr inside)
    have waited : entry fd before r.events c = ⟨fd c, (r.events c).setWidth 16⟩ := by
      rw [entry, if_neg fun ignored => bad ignored.2]
    have found : s.pollfds[i]? = some ⟨fd c, (r.events c).setWidth 16⟩ := by
      rw [t.pollfds, List.getElem?_map, held, Option.map_some, waited]
    have positive : ¬ ((fd c : Int) = -fd c - 1 ∧
        ((r.events c).setWidth 16).signExtend 32 = (s.channel c).events) := by omega
    rw [step, removeChannel]
    by_cases asserted : s.channels (fd c) = some c ∧ (s.channel c).isNoneEvent ∧ 0 ≤ (s.channel c).index
    · rw [if_pos asserted]
      simp only [index, Int.toNat_natCast, found, Option.bind_some, if_neg positive]
    · exact if_neg asserted

theorem Tracked.step_iff (t : Tracked fd before r s slots) {op : Op} (taken : r.step fd op = some r') :
    (Allowed before op ∧ ∃ s' slots', s.step fd op = some s' ∧
      Tracked fd (before ++ [op]) r' s' slots') ∨ (¬ Allowed before op ∧ s.step fd op = none) := by
  by_cases allowed : Allowed before op
  · refine .inl ⟨allowed, ?_⟩
    cases op with
    | update u c =>
      by_cases inside : c ∈ r.registered
      · obtain ⟨s', told, t'⟩ := t.modify taken inside
        exact ⟨s', slots, told, t'⟩
      · obtain ⟨s', told, t'⟩ := t.add taken inside allowed
        exact ⟨s', slots ++ [c], told, t'⟩
    | remove c => exact t.drop taken allowed
  · exact .inr ⟨allowed, t.refused taken allowed⟩

end PollPoller

end ProjectsCpp.MuduoNet
