import ProjectsCpp.Muduo.LifeCycle

/-! What a connection does to its descriptor and its channel after it has become disconnected. -/

namespace ProjectsCpp.Muduo
open ProjectsCpp.Run

/-- Neither a `write`, nor an `append` to the output buffer, nor a registration of the channel. -/
def Call.isQuiet : Call → Bool
  | .write _ _ | .append _ | .epollCtl .add | .epollCtl .mod => false
  | _ => true

/-- The calls from the first time that the state became `kDisconnected`. -/
def sinceDisconnected (calls : List Call) : List Call :=
  calls.dropWhile fun a => a ≠ .setState .kDisconnected

theorem since_of_fresh {calls : List Call} (fresh : .setState .kDisconnected ∉ calls)
    (more : List Call) : sinceDisconnected (calls ++ more) = sinceDisconnected more := by
  have all : ∀ a ∈ calls, decide (a ≠ .setState .kDisconnected) = true := fun a its =>
    decide_eq_true fun same => fresh (same ▸ its)
  exact List.dropWhile_append_of_pos all

theorem since_append {calls : List Call} (told : .setState .kDisconnected ∈ calls)
    (more : List Call) : sinceDisconnected (calls ++ more) = sinceDisconnected calls ++ more := by
  induction calls with
  | nil => cases told
  | cons a as ih =>
    by_cases first : a = .setState .kDisconnected
    · subst first
      rfl
    · have told := (List.mem_cons.mp told).resolve_left fun same => first same.symm
      have drop : ∀ l, sinceDisconnected (a :: l) = sinceDisconnected l := fun l =>
        List.dropWhile_cons_of_pos (decide_eq_true first)
      rw [List.cons_append, drop, drop, ih told]

namespace TcpConnection
variable {D : Type} {c c' : TcpConnection D} {data rest : List UInt8} {w : WriteResult}

def Spares (c : TcpConnection D) (data : List UInt8) (w : WriteResult) : Prop :=
  c.channel.writing = true ∨ data = [] ∨ c.outputBuffer.readable = [] ∧
    (w = .accepted data.length ∨ w = .failed .EPIPE ∨ w = .failed .ECONNRESET)

theorem appendOutput_channel (spares : c.channel.writing = true ∨ rest = []) :
    (c.appendOutput rest).channel = c.channel := by
  rw [appendOutput]
  split
  · rename_i some
    have writing : c.channel.writing = true := spares.resolve_right (List.ne_nil_of_length_pos some)
    have marked : (c.checkMark rest.length).channel = c.channel := by
      rw [checkMark]
      split <;> rfl
    rw [watchOutput, if_neg]
    · exact marked
    · show ¬ ¬ (c.checkMark rest.length).channel.writing = true
      rw [marked]
      exact not_not.mpr writing
  · rfl

theorem queueWriteComplete_channel (c : TcpConnection D) :
    c.queueWriteComplete.channel = c.channel := by
  rw [queueWriteComplete]
  split <;> rfl

theorem sendInLoop_channel (spares : c.Spares data w) :
    (c.sendInLoop data w).channel = c.channel := by
  rw [sendInLoop]
  split
  · rename_i free
    have spares := spares.resolve_left free.1
    have none : ∀ n, w = .accepted n → data.drop n = [] := by
      rintro n rfl
      rcases spares with rfl | ⟨-, all | fatal⟩
      · exact List.drop_nil
      · exact List.drop_eq_nil_of_le (Nat.le_of_eq (WriteResult.accepted.inj all).symm)
      · exact fatal.elim (fun same => by cases same) (fun same => by cases same)
    cases w with
    | accepted n =>
      dsimp only
      rw [none n rfl, appendOutput_channel (.inr rfl)]
      split
      · exact queueWriteComplete_channel _
      · rfl
    | failed errno =>
      dsimp only
      split
      · rfl
      · rename_i gentle
        refine appendOutput_channel (c := c.call _) (.inr ?_)
        rcases spares with none | ⟨-, all | epipe | reset⟩
        · exact none
        · cases all
        · exact absurd (.inl (WriteResult.failed.inj epipe)) gentle
        · exact absurd (.inr (WriteResult.failed.inj reset)) gentle
  · rename_i busy
    refine appendOutput_channel ?_
    rcases spares with writing | none | ⟨empty, -⟩
    · exact .inl writing
    · exact .inr none
    · rw [not_and_or, not_not] at busy
      exact .inl (busy.resolve_right fun some => some (readableBytes_eq_zero.mpr empty))

structure Open (c : TcpConnection D) : Prop where
  state : c.state = .kConnected ∨ c.state = .kDisconnecting
  established : .connectEstablished ∉ c.functors
  added : c.channel.index = .kAdded
  reading : c.channel.reading = true
  fresh : .setState .kDisconnected ∉ c.calls

structure Ended (c : TcpConnection D) : Prop where
  state : c.state = .kDisconnected ∨ c.state = .kDisconnecting
  established : .connectEstablished ∉ c.functors
  index : c.channel.index ≠ .kAdded
  writing : c.channel.writing = false
  told : .setState .kDisconnected ∈ c.calls
  quiet : (sinceDisconnected c.calls).all Call.isQuiet = true

structure Removed (c : TcpConnection D) : Prop where
  state : c.state = .kDisconnecting
  established : .connectEstablished ∉ c.functors
  index : c.channel.index = .kNew
  fresh : .setState .kDisconnected ∉ c.calls

theorem Works.fresh (works : Works c c') (fresh : .setState .kDisconnected ∉ c.calls) :
    .setState .kDisconnected ∉ c'.calls := by
  obtain ⟨more, calls, output⟩ := works.calls
  rw [calls]
  intro its
  rcases List.mem_append.mp its with old | new
  · exact fresh old
  · exact nomatch List.all_eq_true.mp output _ new

theorem Open.works (its : c.Open) (works : Works c c') (added : c'.channel.index = .kAdded)
    (reading : c'.channel.reading = true) : c'.Open :=
  ⟨works.state ▸ its.state, established_of_callbacks works.functors its.established, added, reading,
    works.fresh its.fresh⟩

theorem Buffers.open' (buffers : Buffers c c' rest) (added : c.channel.index = .kAdded)
    (reading : c.channel.reading = true) :
    c'.channel.index = .kAdded ∧ c'.channel.reading = true := by
  rw [buffers.channel reading added]
  exact ⟨added, reading⟩

theorem Open.call (its : c.Open) {a : Call} (other : a ≠ .setState .kDisconnected) :
    (c.call a).Open :=
  ⟨its.state, its.established, its.added, its.reading, fun told => (List.mem_append.mp told).elim
    its.fresh fun new => other (List.mem_singleton.mp new).symm⟩

theorem Open.setDisconnecting (its : c.Open) : (c.setState .kDisconnecting).Open :=
  Open.call (c := { c with state := .kDisconnecting })
    ⟨.inr rfl, its.established, its.added, its.reading, its.fresh⟩ nofun

theorem Open.connectEstablished (calls : c.calls = []) (channel : c.channel = .new)
    (absent : .connectEstablished ∉ c.functors) : c.connectEstablished.Open := by
  have added : Channel.updateChannel { c.channel with reading := true } =
      (.add, ⟨true, false, .kAdded⟩) := by
    rw [channel]
    rfl
  have calls : c.connectEstablished.calls =
      [.setState .kConnected, .epollCtl .add, .connectionCallback true] := by
    show c.calls ++ [_] ++ [.epollCtl (Channel.updateChannel { c.channel with reading := true }).1] ++
      [_] = _
    rw [calls, added]
    rfl
  have channel : c.connectEstablished.channel = ⟨true, false, .kAdded⟩ := congrArg Prod.snd added
  refine ⟨.inl rfl, absent, by rw [channel], by rw [channel], ?_⟩
  rw [calls]
  decide

theorem Open.sendInLoop (its : c.Open) : (c.sendInLoop data w).Open := by
  have channel : (c.sendInLoop data w).channel.index = .kAdded ∧
      (c.sendInLoop data w).channel.reading = true := by
    obtain ⟨-, -, n, rfl, buffers⟩ | ⟨-, -, errno, rfl, refused⟩ | ⟨-, buffers⟩ :=
      sendInLoop_cases c data w
    · refine buffers.open' ?_ ?_
      · split
        · rw [queueWriteComplete_channel]
          exact its.added
        · exact its.added
      · split
        · rw [queueWriteComplete_channel]
          exact its.reading
        · exact its.reading
    · split at refused
      · rw [refused]
        exact ⟨its.added, its.reading⟩
      · exact refused.open' its.added its.reading
    · exact buffers.open' its.added its.reading
  exact its.works (c.sendInLoop_works data w) channel.1 channel.2

theorem shutdownInLoop_channel (c : TcpConnection D) : c.shutdownInLoop.channel = c.channel := by
  rw [shutdownInLoop]
  split <;> rfl

theorem Open.shutdownInLoop (its : c.Open) : c.shutdownInLoop.Open :=
  its.works c.shutdownInLoop_works (c.shutdownInLoop_channel ▸ its.added)
    (c.shutdownInLoop_channel ▸ its.reading)

theorem Open.shutdown (its : c.Open) : c.shutdown.Open := by
  rw [TcpConnection.shutdown]
  split
  · exact its.setDisconnecting.shutdownInLoop
  · exact its

theorem handleWrite_channel (c : TcpConnection D) (w : WriteResult) :
    (c.handleWrite w).channel = c.channel ∨ ∃ n, c.channel.writing = true ∧ w = .accepted n ∧
      c.outputBuffer.readable.length ≤ n ∧ (c.handleWrite w).channel =
        (Channel.updateChannel { c.channel with writing := false }).2 := by
  obtain ⟨-, same⟩ | ⟨-, -, same⟩ | ⟨writing, n, rfl, -, same⟩ := handleWrite_cases c w
  · exact .inl (by rw [same])
  · exact .inl (by rw [same]; rfl)
  · split at same
    · rename_i all
      refine .inr ⟨n, writing, rfl, List.drop_eq_nil_iff.mp all, ?_⟩
      rw [same, outputDone]
      split
      · rw [shutdownInLoop_channel]
        exact queueWriteComplete_channel _
      · exact queueWriteComplete_channel _
    · exact .inl (by rw [same]; rfl)

theorem Open.handleWrite (its : c.Open) : (c.handleWrite w).Open := by
  rcases c.handleWrite_channel w with same | ⟨n, -, -, -, done⟩
  · exact its.works (c.handleWrite_works w) (same ▸ its.added) (same ▸ its.reading)
  · have still : { c.channel with writing := false }.updateChannel =
        (.mod, { c.channel with writing := false }) :=
      Channel.updateChannel_reading its.added its.reading
    rw [still] at done
    exact its.works (c.handleWrite_works w) (done ▸ its.added) (done ▸ its.reading)

theorem Channel_disable {ch : Channel} (added : ch.index = .kAdded) :
    Channel.updateChannel { ch with reading := false, writing := false } =
      (.del, ⟨false, false, .kDeleted⟩) := by
  rw [Channel.updateChannel]
  dsimp only
  rw [added]
  rfl

theorem Open.disconnect (its : c.Open) :
    (c.setState .kDisconnected).disableAll.connectionCallback.Ended := by
  have off := Channel_disable its.added
  have channel : (c.setState .kDisconnected).disableAll.connectionCallback.channel =
      ⟨false, false, .kDeleted⟩ := congrArg Prod.snd off
  refine ⟨.inl rfl, its.established, ?_, ?_, ?_, ?_⟩
  · rw [channel]
    exact nofun
  · rw [channel]
  · rw [c.disconnect_calls, List.append_assoc]
    exact List.mem_append_right _ List.mem_cons_self
  · rw [c.disconnect_calls, List.append_assoc, since_of_fresh its.fresh, off]
    rfl

theorem Ended.extend (its : c.Ended) {more : List Call} (calls : c'.calls = c.calls ++ more)
    (quiet : more.all Call.isQuiet = true)
    (state : c'.state = .kDisconnected ∨ c'.state = .kDisconnecting)
    (established : .connectEstablished ∉ c'.functors) (index : c'.channel.index ≠ .kAdded)
    (writing : c'.channel.writing = false) : c'.Ended := by
  refine ⟨state, established, index, writing, ?_, ?_⟩
  · rw [calls]
    exact List.mem_append_left _ its.told
  · rw [calls, since_append its.told, List.all_append, its.quiet, quiet]
    rfl

theorem Ended.call (its : c.Ended) {a : Call} (quiet : a.isQuiet = true) : (c.call a).Ended :=
  its.extend rfl (List.all_eq_true.mpr fun _ new => List.mem_singleton.mp new ▸ quiet) its.state
    its.established its.index its.writing

theorem Open.handleClose (its : c.Open) : c.handleClose.Ended :=
  its.disconnect.call (a := .closeCallback) rfl

theorem Ended.remove (its : c.Ended) : c.remove.Ended ∧ c.remove.channel.index = .kNew := by
  have same : c.remove = { c with channel := { c.channel with index := .kNew } } := by
    rw [TcpConnection.remove]
    dsimp only
    rw [if_neg its.index]
  rw [same]
  exact ⟨⟨its.state, its.established, (fun same => by cases same), its.writing, its.told, its.quiet⟩, rfl⟩

theorem Ended.off (its : c.Ended) : c.state ≠ .kConnected := fun on => by
  rcases its.state with state | state
  · exact nomatch state.symm.trans on
  · exact nomatch state.symm.trans on

theorem Ended.connectDestroyed (its : c.Ended) :
    c.connectDestroyed.Ended ∧ c.connectDestroyed.channel.index = .kNew := by
  rw [TcpConnection.connectDestroyed, if_neg its.off]
  exact its.remove

theorem Open.connectDestroyed (its : c.Open) :
    c.connectDestroyed.Ended ∧ c.connectDestroyed.channel.index = .kNew ∨
      c.connectDestroyed.Removed := by
  rcases its.state with state | state
  · rw [TcpConnection.connectDestroyed, if_pos state]
    exact .inl its.disconnect.remove
  · have off : c.state ≠ .kConnected := fun on => by cases state.symm.trans on
    have works := remove_works c
    rw [TcpConnection.connectDestroyed, if_neg off]
    exact .inr ⟨works.state.trans state, established_of_callbacks works.functors its.established, rfl,
      works.fresh its.fresh⟩

theorem Ended.setDisconnecting (its : c.Ended) : (c.setState .kDisconnecting).Ended :=
  Ended.call (c := { c with state := .kDisconnecting })
    ⟨.inr rfl, its.established, its.index, its.writing, its.told, its.quiet⟩ rfl

theorem Ended.shutdownInLoop (its : c.Ended) : c.shutdownInLoop.Ended := by
  rw [TcpConnection.shutdownInLoop]
  split
  · exact its.call rfl
  · exact its

theorem Ended.functors (its : c.Ended) {functors : List (Functor D)}
    (absent : .connectEstablished ∉ functors) : (c.withFunctors functors).Ended :=
  ⟨its.state, absent, its.index, its.writing, its.told, its.quiet⟩

theorem sendInLoop_nothing (some : c.outputBuffer.readable ≠ []) : c.sendInLoop [] w = c :=
  if_neg fun free => some (readableBytes_eq_zero.mp free.2)

theorem Removed.off (its : c.Removed) : c.state ≠ .kConnected := fun on =>
  nomatch its.state.symm.trans on

theorem Removed.works (its : c.Removed) (works : Works c c') (same : c'.channel = c.channel) :
    c'.Removed :=
  ⟨works.state.trans its.state, established_of_callbacks works.functors its.established,
    same ▸ its.index, works.fresh its.fresh⟩

theorem Removed.connectDestroyed (its : c.Removed) : c.connectDestroyed.Removed := by
  have works := remove_works c
  rw [TcpConnection.connectDestroyed, if_neg its.off]
  exact ⟨works.state.trans its.state, established_of_callbacks works.functors its.established, rfl,
    works.fresh its.fresh⟩

end TcpConnection

namespace Life
variable {T : Type}

/-- After the state has become `kDisconnected` the calls are quiet, and a destroyed connection is
out of the poller. -/
structure Quiet (s : Life T) : Prop where
  calls : (sinceDisconnected s.conn.calls).all Call.isQuiet = true
  index : s.destroyed = true → s.conn.channel.index = .kNew

/-- A handler closes only a channel in the poller and empties its buffer only there, a queued send
does not run after the state has become `kDisconnected`, or for a channel that it would register, and a
destroyed server is not called. -/
def Careful (s : Life T) : LifeStep T → Prop
  | .handler r w => (s.closes r → s.conn.channel.index = .kAdded ∧ s.server = true) ∧
      (s.handlers.head? = some .write → s.conn.channel.writing = true →
        w = .accepted s.conn.outputBuffer.readable.length → s.conn.channel.index = .kAdded)
  | .call w => ∀ data ∈ s.conn.functors.head?.bind Functor.data?,
      (.setState .kDisconnected ∈ s.conn.calls → data = [] ∧ s.conn.outputBuffer.readable ≠ []) ∧
      (s.conn.channel.index ≠ .kAdded → s.conn.Spares data w)
  | .removeConnectionInLoop => s.server = true
  | _ => True

variable {s s' : Life T} {a : LifeStep T}

inductive Course (s : Life T) : Prop where
  | opening (its : s.Opening)
  | open' (its : s.conn.Open) (there : s.destroyed = false)
  | ended (its : s.conn.Ended) (index : s.destroyed = true → s.conn.channel.index = .kNew)
  | removed (its : s.conn.Removed)

theorem Course.quiet (course : s.Course) : s.Quiet := by
  have none : ∀ {calls : List Call}, .setState .kDisconnected ∉ calls →
      (sinceDisconnected calls).all Call.isQuiet = true := fun fresh => by
    have since := since_of_fresh fresh []
    rw [List.append_nil] at since
    rw [since]
    rfl
  cases course with
  | opening its =>
    refine ⟨?_, fun gone => nomatch its.destroyed.symm.trans gone⟩
    rw [its.calls]
    rfl
  | open' its there => exact ⟨none its.fresh, fun gone => nomatch there.symm.trans gone⟩
  | ended its index => exact ⟨its.quiet, index⟩
  | removed its => exact ⟨none its.fresh, fun _ => its.index⟩

theorem absent_queued {c : TcpConnection (List UInt8)} {f : Functor (List UInt8)}
    (other : f ≠ .connectEstablished) (absent : .connectEstablished ∉ c.functors) :
    .connectEstablished ∉ c.functors ++ [f] := fun its =>
  (List.mem_append.mp its).elim absent fun new => other (List.mem_singleton.mp new).symm

theorem course_of_open [DecidableEq T] (its : s.conn.Open) (there : s.destroyed = false)
    (next : step s a = some s') : s'.Course := by
  cases step_effect next with
  | keep conn destroyed => exact .open' (conn ▸ its) (destroyed.trans there)
  | queue f other conn destroyed =>
    refine .open' (conn ▸ ?_) (destroyed.trans there)
    exact ⟨its.state, absent_queued other its.established, its.added, its.reading, its.fresh⟩
  | take w f rest step idle first conn destroyed =>
    have absent := its.established
    rw [first] at absent
    have taken : (s.conn.withFunctors rest).Open := ⟨its.state,
      fun its => absent (List.mem_cons_of_mem f its), its.added, its.reading, its.fresh⟩
    match f with
    | .connectEstablished => exact absurd List.mem_cons_self absent
    | .connectDestroyed =>
      rcases taken.connectDestroyed with ⟨ended, index⟩ | removed
      · exact .ended (conn ▸ ended) fun _ => conn ▸ index
      · exact .removed (conn ▸ removed)
    | .sendInLoop data =>
      exact .open' (conn ▸ taken.sendInLoop) (destroyed.trans (by rw [there]; rfl))
    | .shutdownInLoop =>
      have works := (s.conn.withFunctors rest).shutdownInLoop_works
      have same := (s.conn.withFunctors rest).shutdownInLoop_channel
      exact .open' (conn ▸ taken.works works (same ▸ its.added) (same ▸ its.reading))
        (destroyed.trans (by rw [there]; rfl))
    | .writeCompleteCallback | .highWaterMarkCallback _ =>
      exact .open' (conn ▸ taken) (destroyed.trans (by rw [there]; rfl))
  | send data w conn destroyed =>
    refine .open' (conn ▸ ?_) (destroyed.trans there)
    rw [TcpConnection.send]
    split
    · exact its.sendInLoop
    · exact its
  | shutdown conn destroyed => exact .open' (conn ▸ its.shutdown) (destroyed.trans there)
  | set conn destroyed => exact .open' (conn ▸ its.setDisconnecting) (destroyed.trans there)
  | close r w step closes conn destroyed =>
    have gone : s'.destroyed = true → s'.conn.channel.index = .kNew := fun gone => by
      cases (destroyed.trans there).symm.trans gone
    have ended := its.handleClose
    rcases conn with conn | conn
    · exact .ended (conn ▸ ended) gone
    · exact .ended (conn ▸ ended.functors (absent_queued (fun same => by cases same) ended.established)) gone
  | read b data w step head conn destroyed =>
    have its : { s.conn with inputBuffer := s.conn.inputBuffer.readFd (b :: data) }.Open :=
      ⟨its.state, its.established, its.added, its.reading, its.fresh⟩
    exact .open' (conn ▸ its.call (a := .messageCallback) (fun same => by cases same)) (destroyed.trans there)
  | write r w step head fits conn destroyed =>
    exact .open' (conn ▸ its.handleWrite) (destroyed.trans there)
  | destroy step here idle conn destroyed =>
    rcases its.connectDestroyed with ⟨ended, index⟩ | removed
    · exact .ended (conn ▸ ended) fun _ => conn ▸ index
    · exact .removed (conn ▸ removed)

theorem course_of_ended [DecidableEq T] (its : s.conn.Ended)
    (index : s.destroyed = true → s.conn.channel.index = .kNew) (careful : s.Careful a)
    (next : step s a = some s') : s'.Course := by
  cases step_effect next with
  | keep conn destroyed => exact .ended (conn ▸ its) (destroyed ▸ conn ▸ index)
  | queue f other conn destroyed =>
    exact .ended (conn ▸ its.functors (absent_queued other its.established))
      (destroyed ▸ conn ▸ index)
  | take w f rest step idle first conn destroyed =>
    have absent := its.established
    rw [first] at absent
    have taken := its.functors fun its => absent (List.mem_cons_of_mem f its)
    match f with
    | .connectEstablished => exact absurd List.mem_cons_self absent
    | .connectDestroyed =>
      obtain ⟨ended, out⟩ := taken.connectDestroyed
      exact .ended (conn ▸ ended) fun _ => conn ▸ out
    | .sendInLoop data =>
      subst step
      have careful := (careful data (by rw [first]; rfl)).1 its.told
      obtain ⟨rfl, some⟩ := careful
      have same : (s.conn.withFunctors rest).sendInLoop [] w = s.conn.withFunctors rest :=
        TcpConnection.sendInLoop_nothing some
      have conn : s'.conn = s.conn.withFunctors rest := conn.trans same
      exact .ended (conn ▸ taken) fun gone => by
        rw [conn]
        exact index (by rw [destroyed] at gone; simpa using gone)
    | .shutdownInLoop =>
      have same := (s.conn.withFunctors rest).shutdownInLoop_channel
      exact .ended (conn ▸ taken.shutdownInLoop) fun gone => by
        rw [conn]
        exact (congrArg Channel.index same).trans (index (by rw [destroyed] at gone; simpa using gone))
    | .writeCompleteCallback | .highWaterMarkCallback _ =>
      exact .ended (conn ▸ taken) fun gone => by
        rw [conn]
        exact index (by rw [destroyed] at gone; simpa using gone)
  | send data w conn destroyed =>
    have conn : s'.conn = s.conn := conn.trans (if_neg its.off)
    exact .ended (conn ▸ its) (destroyed ▸ conn ▸ index)
  | shutdown conn destroyed =>
    have conn : s'.conn = s.conn := conn.trans (if_neg its.off)
    exact .ended (conn ▸ its) (destroyed ▸ conn ▸ index)
  | set conn destroyed => exact .ended (conn ▸ its.setDisconnecting) (destroyed ▸ conn ▸ index)
  | close r w step closes conn destroyed =>
    subst step
    exact absurd (careful.1 closes).1 its.index
  | read b data w step head conn destroyed =>
    have its : { s.conn with inputBuffer := s.conn.inputBuffer.readFd (b :: data) }.Ended :=
      ⟨its.state, its.established, its.index, its.writing, its.told, its.quiet⟩
    exact .ended (conn ▸ its.call (a := .messageCallback) rfl) (destroyed ▸ conn ▸ index)
  | write r w step head fits conn destroyed =>
    have conn : s'.conn = s.conn := conn.trans (if_neg (Bool.eq_false_iff.mp its.writing))
    exact .ended (conn ▸ its) (destroyed ▸ conn ▸ index)
  | destroy step here idle conn destroyed =>
    obtain ⟨ended, out⟩ := its.connectDestroyed
    exact .ended (conn ▸ ended) fun _ => conn ▸ out

theorem course_of_removed [DecidableEq T] (its : s.conn.Removed) (careful : s.Careful a)
    (next : step s a = some s') : s'.Course := by
  have out : s.conn.channel.index ≠ .kAdded := fun added => nomatch its.index.symm.trans added
  cases step_effect next with
  | keep conn destroyed => exact .removed (conn ▸ its)
  | queue f other conn destroyed =>
    refine .removed (conn ▸ ?_)
    exact ⟨its.state, absent_queued other its.established, its.index, its.fresh⟩
  | take w f rest step idle first conn destroyed =>
    have absent := its.established
    rw [first] at absent
    have taken : (s.conn.withFunctors rest).Removed := ⟨its.state,
      fun its => absent (List.mem_cons_of_mem f its), its.index, its.fresh⟩
    match f with
    | .connectEstablished => exact absurd List.mem_cons_self absent
    | .connectDestroyed => exact .removed (conn ▸ taken.connectDestroyed)
    | .sendInLoop data =>
      subst step
      have spares : (s.conn.withFunctors rest).Spares data w :=
        (careful data (by rw [first]; rfl)).2 out
      exact .removed (conn ▸ taken.works (TcpConnection.sendInLoop_works _ data w)
        (TcpConnection.sendInLoop_channel spares))
    | .shutdownInLoop =>
      exact .removed (conn ▸ taken.works (TcpConnection.shutdownInLoop_works _)
        (TcpConnection.shutdownInLoop_channel _))
    | .writeCompleteCallback | .highWaterMarkCallback _ => exact .removed (conn ▸ taken)
  | send data w conn destroyed =>
    have conn : s'.conn = s.conn := conn.trans (if_neg its.off)
    exact .removed (conn ▸ its)
  | shutdown conn destroyed =>
    have conn : s'.conn = s.conn := conn.trans (if_neg its.off)
    exact .removed (conn ▸ its)
  | set conn destroyed =>
    refine .removed (conn ▸ ⟨rfl, its.established, its.index, fun told => ?_⟩)
    exact (List.mem_append.mp told).elim its.fresh nofun
  | close r w step closes conn destroyed =>
    subst step
    exact absurd (careful.1 closes).1 out
  | read b data w step head conn destroyed =>
    refine .removed (conn ▸ ⟨its.state, its.established, its.index, fun told => ?_⟩)
    exact (List.mem_append.mp told).elim its.fresh nofun
  | write r w step head fits conn destroyed =>
    subst step
    rcases s.conn.handleWrite_channel w with same | ⟨n, writing, rfl, all, -⟩
    · exact .removed (conn ▸ its.works (s.conn.handleWrite_works w) same)
    · have whole : n = s.conn.outputBuffer.readable.length :=
        Nat.le_antisymm (of_decide_eq_true fits) all
      exact absurd (careful.2 head writing (whole ▸ rfl)) out
  | destroy step here idle conn destroyed => exact .removed (conn ▸ its.connectDestroyed)

/-- In a careful run a disconnected connection is quiet, and stays out of the poller when it is
destroyed. -/
theorem quiet_of_careful [DecidableEq T] (reach : Reach (machine T) Careful s) : s.Quiet := by
  refine (reach.invariant (P := Course) ?_ fun s a s' course careful next => ?_).quiet
  · rintro s ⟨writeComplete, highWater, mark, single, rfl⟩
    cases single with
    | true => exact .open' (.connectEstablished rfl rfl nofun) rfl
    | false => exact .opening ⟨rfl, rfl, rfl, rfl, rfl, rfl, rfl, rfl, rfl, [], rfl, nofun⟩
  · cases course with
    | opening its =>
      rcases its.step next with opening | ⟨there, rest, absent, conn⟩
      · exact .opening opening
      · exact .open' (conn ▸ .connectEstablished its.calls its.channel absent) there
    | open' its there => exact course_of_open its there next
    | ended its index => exact course_of_ended its index careful next
    | removed its => exact course_of_removed its careful next

instance (s : Life T) (a : LifeStep T) : Decidable (s.Careful a) :=
  match a with
  | .handler _ _ => inferInstanceAs (Decidable ((_ → _ ∧ _) ∧ (_ → _ → _ → _)))
  | .call w =>
    have (data : List UInt8) : Decidable (s.conn.Spares data w) :=
      inferInstanceAs (Decidable (_ ∨ _ ∨ _ ∧ (_ ∨ _ ∨ _)))
    inferInstanceAs (Decidable (∀ data ∈ s.conn.functors.head?.bind Functor.data?,
      (_ → _ ∧ _) ∧ (_ → s.conn.Spares data w)))
  | .removeConnectionInLoop => inferInstanceAs (Decidable (_ = _))
  | .poll _ | .handleEvent | .sendHere _ _ | .shutdownHere | .send _ _ | .queueSend _ _
  | .shutdown _ | .setDisconnecting _ | .queueShutdown _ | .destroyServer => isTrue trivial

/-- Another thread has passed the test of `send` when the peer closes; its functor runs behind
`connectDestroyed`. -/
def lateSend : List (LifeStep Unit) :=
  [.send () [1], .poll ⟨true, false, false, false, false⟩, .handleEvent,
    .handler (.received []) (.accepted 0), .queueSend () [1], .call (.accepted 0),
    .call (.accepted 0)]

theorem late_send_registers_again :
    ∃ s, Reachable (machine Unit) s ∧ s.destroyed = true ∧ s.conn.channel.index = .kAdded ∧
      s.conn.calls.drop 7 = [.write [1] (.accepted 0), .append [1], .epollCtl .add] ∧ ¬ s.Quiet := by
  have ran : (exec (machine Unit) (begin true false 64 true) lateSend).any (fun s =>
      s.destroyed ∧ s.conn.channel.index = .kAdded ∧
        s.conn.calls.drop 7 = [.write [1] (.accepted 0), .append [1], .epollCtl .add]) = true := by
    decide +kernel
  obtain ⟨s, done, facts⟩ := (Option.any_eq_true _ _).mp ran
  obtain ⟨destroyed, index, calls⟩ := of_decide_eq_true facts
  refine ⟨s, Reach.exec (.start ⟨true, false, 64, true, rfl⟩) done, destroyed, index, calls,
    fun quiet => ?_⟩
  exact nomatch (quiet.index destroyed).symm.trans index

def timelySend : List (LifeStep Unit) :=
  [.send () [1, 2], .queueSend () [1, 2], .call (.accepted 1), .poll ⟨true, false, true, false, false⟩,
    .handleEvent, .handler (.received []) (.accepted 0), .handler .failed (.accepted 1),
    .call (.accepted 0), .send () [3]]

theorem quiet_of_careful_timely :
    ∃ s, execWhere (machine Unit) Careful (begin true false 64 true) timelySend = some s ∧
      s.destroyed = true ∧ .setState .kDisconnected ∈ s.conn.calls ∧ s.Quiet := by
  have ran : (execWhere (machine Unit) Careful (begin true false 64 true) timelySend).any (fun s =>
      s.destroyed ∧ .setState .kDisconnected ∈ s.conn.calls) = true := by
    decide +kernel
  obtain ⟨s, done, facts⟩ := (Option.any_eq_true _ _).mp ran
  obtain ⟨destroyed, told⟩ := of_decide_eq_true facts
  exact ⟨s, done, destroyed, told, quiet_of_careful
    ((Reach.start (M := machine Unit) ⟨true, false, 64, true, rfl⟩).execWhere done)⟩

end Life

end ProjectsCpp.Muduo
