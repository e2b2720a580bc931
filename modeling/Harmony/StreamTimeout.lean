import Harmony.ReadTimer

/-!
# Why a stream is reset

When one of its two timers runs out a stream is reset. The read timer is there for a
client that does not go on with its request, and never runs behind the end of one.
The write timer is there for a client that does not take the response: a frame that
uses up a window starts it, and any frame behind that stops it, or starts it anew.

So a stream is only ever reset for what its client owes (`timeout_justified`), and a
client that takes nothing is always timed, unless a handler says otherwise
(`stalled_timed`).
-/

/-- What a frame says about the client, when it has been sent: whether it waits for
more room, if it says anything. A promise is to be kept at once. -/
def SentFrame.blocks : SentFrame → Option Bool
  | .dataOrHeaders endStream blocked => some (!endStream && blocked)
  | .pushPromise promised => if promised then some true else none
  | .other => none

namespace TimerEvent

/-- Whether the client is waited for, after an event. -/
def stalls (before : Bool) : TimerEvent → Bool
  | .sent f _ => f.blocks.getD before
  | .timeout _ => false
  | .close => false
  | _ => before

/-- What handlers do at an event. -/
def stops : TimerEvent → List Stop
  | .recv _ list => list
  | .sent _ list => list
  | .handler list => list
  | _ => []

end TimerEvent

/-- **The client is waited for** after some events: the last of the frames sent that
say anything about it has used up a window or is a promise to be kept, and the stream
was not ended since. -/
def stalled (events : List TimerEvent) : Bool :=
  events.foldl TimerEvent.stalls false

/-! ## What calls do to the write timer -/

namespace StreamTimers

theorem write_run (t : StreamTimers) (c : TimerCall) :
    (c = .resetWrite ∧ (t.run c).write = t.write.again)
      ∨ (c = .stopWrite ∧ (t.run c).write = .idle)
      ∨ c ≠ .resetWrite ∧ c ≠ .stopWrite ∧ (t.run c).write = t.write := by
  cases c with
  | resetWrite => exact .inl ⟨rfl, rfl⟩
  | stopWrite => exact .inr (.inl ⟨rfl, rfl⟩)
  | resetReadIfActive =>
    refine .inr (.inr ⟨nofun, nofun, ?_⟩)
    show t.resetReadTimeoutIfActive.write = t.write
    unfold resetReadTimeoutIfActive
    split_ifs <;> rfl
  | resetRead => exact .inr (.inr ⟨nofun, nofun, rfl⟩)
  | stopRead => exact .inr (.inr ⟨nofun, nofun, rfl⟩)

/-- Calls that do not start it leave it, or stop it. -/
theorem write_runAll {t : StreamTimers} {calls : List TimerCall}
    (h : TimerCall.resetWrite ∉ calls) :
    (t.runAll calls).write = t.write
      ∨ TimerCall.stopWrite ∈ calls ∧ (t.runAll calls).write = .idle := by
  induction calls generalizing t with
  | nil => exact .inl rfl
  | cons c calls ih =>
    rw [List.mem_cons, not_or] at h
    have hrest := ih (t := t.run c) h.2
    rcases t.write_run c with ⟨rfl, -⟩ | ⟨rfl, hstop⟩ | ⟨-, -, hsame⟩
    · exact absurd rfl h.1
    · refine .inr ⟨List.mem_cons_self, ?_⟩
      rcases hrest with hrest | ⟨-, hrest⟩
      · exact hrest.trans hstop
      · exact hrest
    · rcases hrest with hrest | ⟨hmem, hrest⟩
      · exact .inl (hrest.trans hsame)
      · exact .inr ⟨List.mem_cons_of_mem _ hmem, hrest⟩

end StreamTimers

/-- What is done for handlers does not start a timer. -/
theorem resetWrite_notMem_stops (stops : List Stop) :
    TimerCall.resetWrite ∉ stops.map Stop.call := by
  intro h
  obtain ⟨s, -, hs⟩ := List.mem_map.mp h
  cases s <;> cases hs

theorem stopWrite_mem_stops {stops : List Stop}
    (h : TimerCall.stopWrite ∈ stops.map Stop.call) : Stop.write ∈ stops := by
  obtain ⟨s, hmem, hs⟩ := List.mem_map.mp h
  cases s with
  | read => cases hs
  | write => exact hmem

/-- Nor do the receive callbacks. -/
theorem write_timerCalls (handler : List Stop) (c : StreamCall) :
    TimerCall.resetWrite ∉ c.timerCalls handler
      ∧ (TimerCall.stopWrite ∈ c.timerCalls handler → Stop.write ∈ handler) := by
  cases c with
  | prepareResponse => exact ⟨resetWrite_notMem_stops _, stopWrite_mem_stops⟩
  | handleData bs => exact ⟨resetWrite_notMem_stops _, stopWrite_mem_stops⟩
  | handleBody => exact ⟨resetWrite_notMem_stops _, stopWrite_mem_stops⟩
  | parsePath => exact ⟨List.not_mem_nil, fun h => absurd h List.not_mem_nil⟩
  | submitContinue => exact ⟨List.not_mem_nil, fun h => absurd h List.not_mem_nil⟩
  | stopReadTimeout =>
    exact ⟨fun h => absurd (List.mem_singleton.mp h) (by decide),
      fun h => absurd (List.mem_singleton.mp h) (by decide)⟩
  | resetReadTimeout =>
    exact ⟨fun h => absurd (List.mem_singleton.mp h) (by decide),
      fun h => absurd (List.mem_singleton.mp h) (by decide)⟩

theorem write_recvCalls (s : HttpStream) (e : SessionEvent) (handler : List Stop) :
    TimerCall.resetWrite ∉ TimedStream.recvCalls s e handler
      ∧ (TimerCall.stopWrite ∈ TimedStream.recvCalls s e handler →
        Stop.write ∈ handler) := by
  refine ⟨fun h => ?_, fun h => ?_⟩
  · obtain ⟨c, -, hc⟩ := List.mem_flatMap.mp h
    exact (write_timerCalls handler c).1 hc
  · obtain ⟨c, -, hc⟩ := List.mem_flatMap.mp h
    exact (write_timerCalls handler c).2 hc

namespace TimedStream

/-- Calls on the timers of a stream. -/
def calling (s : TimedStream) (calls : List TimerCall) : TimedStream :=
  { s with timers := s.timers.runAll calls }

/-! ## The invariant -/

/-- **The write timer** runs if and only if the client is waited for: it does not run
otherwise, and it does run if no handler has stopped it and the stream is open. -/
structure Timed (stalled stopped : Bool) (s : TimedStream) : Prop where
  owed : s.timers.write.active = true ∨ s.timers.write.pending = true →
    stalled = true ∧ s.closed = false
  timed : stalled = true → stopped = false → s.closed = false →
    s.timers.write.active = true

/-- Calls that do not start the timer. -/
theorem Timed.runAll {stalled stopped : Bool} {s s' : TimedStream}
    (h : s.Timed stalled stopped) {calls : List TimerCall}
    (hreset : TimerCall.resetWrite ∉ calls)
    (htimers : s'.timers = s.timers.runAll calls) (hclosed : s'.closed = s.closed)
    {stops : Bool} (hstop : TimerCall.stopWrite ∈ calls → stops = true) :
    s'.Timed stalled (stopped || stops) := by
  rcases StreamTimers.write_runAll (t := s.timers) hreset with hsame | ⟨hmem, hidle⟩
  · constructor
    · rw [htimers, hsame, hclosed]
      exact h.owed
    · rw [htimers, hsame, hclosed]
      intro hst hno
      rw [Bool.or_eq_false_iff] at hno
      exact h.timed hst hno.1
  · constructor
    · rw [htimers, hidle]
      rintro (hb | hb) <;> cases hb
    · intro _ hno
      rw [hstop hmem, Bool.or_true] at hno
      cases hno

/-- The timers are those of a stream that is not timed. -/
theorem timed_idle {s : TimedStream} (h : s.timers.write = .idle) (stopped : Bool) :
    s.Timed false stopped := by
  constructor
  · rw [h]
    rintro (hb | hb) <;> cases hb
  · exact fun hst => absurd hst Bool.false_ne_true

/-- A frame has been sent. -/
theorem Timed.sent {stalled stopped : Bool} {s : TimedStream}
    (h : s.Timed stalled stopped) (hopen : s.closed = false) (f : SentFrame)
    (handler : List Stop) :
    (s.calling (f.timerCalls handler)).Timed (f.blocks.getD stalled)
      (stopped || decide (Stop.write ∈ handler)) := by
  -- a frame that blocks starts the timer, and then a handler may stop it
  have hblocked : ∀ stops : List Stop,
      (s.calling ([.resetReadIfActive, .resetWrite] ++ stops.map Stop.call)).Timed
        true (stopped || decide (Stop.write ∈ stops)) := by
    intro stops
    have hagain : (s.calling [.resetReadIfActive, .resetWrite]).Timed true stopped :=
      ⟨fun _ => ⟨rfl, hopen⟩, fun _ _ _ => rfl⟩
    refine hagain.runAll (resetWrite_notMem_stops stops) ?_ ?_
      fun h => decide_eq_true (stopWrite_mem_stops h)
    · exact StreamTimers.runAll_append _ _ _
    · rfl
  have hweaken : ∀ {st : Bool} {s' : TimedStream}, s'.Timed st stopped →
      s'.Timed st (stopped || decide (Stop.write ∈ handler)) := by
    intro st s' h'
    refine ⟨h'.owed, fun hst hno => h'.timed hst ?_⟩
    rw [Bool.or_eq_false_iff] at hno
    exact hno.1
  cases f with
  | other => exact hweaken h
  | pushPromise promised =>
    cases promised with
    | false => exact hweaken h
    | true => exact hblocked handler
  | dataOrHeaders endStream blocked =>
    cases endStream with
    | true => exact timed_idle rfl _
    | false =>
      cases blocked with
      | true =>
        have hnone := hblocked []
        rw [decide_eq_false List.not_mem_nil, Bool.or_false] at hnone
        exact hweaken hnone
      | false => exact timed_idle rfl _

/-- **Every event keeps the invariant.** -/
theorem Timed.step {stalled stopped : Bool} {s s' : TimedStream} {e : TimerEvent}
    (h : s.Timed stalled stopped) (hstep : s.step e = .ok s') :
    s'.Timed (e.stalls stalled) (stopped || decide (Stop.write ∈ e.stops)) := by
  have hclosed : ∀ {st : Bool} (stops : Bool), s.closed = true →
      s.Timed st (stopped || stops) := by
    intro st stops hc
    refine ⟨fun hrun => ?_, fun _ _ hopen => ?_⟩
    · have hopen := (h.owed hrun).2
      rw [hc] at hopen
      cases hopen
    · rw [hc] at hopen
      cases hopen
  unfold TimedStream.step at hstep
  cases e with
  | recv e handler =>
    dsimp only at hstep
    split_ifs at hstep with hbehind hc
    · cases hstep
      exact hclosed _ hc
    · cases hstep
      obtain ⟨hreset, hstop⟩ := write_recvCalls s.stream e handler
      refine h.runAll hreset ?_ ?_ fun hmem => decide_eq_true (hstop hmem)
      · rfl
      · rfl
  | sent f handler =>
    dsimp only at hstep
    split_ifs at hstep with hc
    · cases hstep
      exact hclosed _ hc
    · cases hstep
      exact h.sent (Bool.eq_false_iff.mpr hc) f handler
  | handler stops =>
    dsimp only at hstep
    split_ifs at hstep with hc
    · cases hstep
      exact hclosed _ hc
    · cases hstep
      refine h.runAll (resetWrite_notMem_stops stops) ?_ ?_
        fun hmem => decide_eq_true (stopWrite_mem_stops hmem)
      · rfl
      · rfl
  | expire which =>
    dsimp only at hstep
    split_ifs at hstep with hactive
    have hno : (stopped || decide (Stop.write ∈ (TimerEvent.expire which).stops))
        = stopped := Bool.or_false stopped
    rw [hno]
    cases which with
    | read =>
      cases hstep
      exact ⟨h.owed, h.timed⟩
    | write =>
      cases hstep
      exact ⟨fun _ => h.owed (.inl hactive), h.timed⟩
  | timeout which =>
    dsimp only at hstep
    split_ifs at hstep
    cases hstep
    exact timed_idle rfl _
  | close =>
    cases hstep
    exact timed_idle rfl _

/-- Whether a handler has stopped the write timer. -/
def stoppedBy (events : List TimerEvent) : Bool :=
  events.any fun e => decide (Stop.write ∈ e.stops)

/-- **The invariant holds in every run.** -/
theorem timed_of_run {expectContinue : Bool} {events : List TimerEvent}
    {s : TimedStream} (hrun : Run.exec step (begin expectContinue) events = .ok s) :
    s.Timed (stalled events) (stoppedBy events) := by
  have hall : ∀ {st stopped : Bool} {s₀ : TimedStream}, s₀.Timed st stopped →
      Run.exec step s₀ events = .ok s →
      s.Timed (events.foldl TimerEvent.stalls st) (stopped || stoppedBy events) := by
    clear hrun
    induction events with
    | nil =>
      intro st stopped s₀ h hrun
      cases hrun
      rw [stoppedBy, List.any_nil, Bool.or_false]
      exact h
    | cons e events ih =>
      intro st stopped s₀ h hrun
      obtain ⟨s₁, hstep, hrest⟩ := Run.step_of_exec_cons hrun
      have hs := ih (h.step hstep) hrest
      rw [Bool.or_assoc] at hs
      exact hs
  have hbegin : (begin expectContinue).Timed false false := timed_idle rfl false
  have hs := hall hbegin hrun
  rwa [Bool.false_or] at hs

/-! ## Why a stream is reset -/

/-- **A stream is reset only for what its client owes.** Whatever happened before:
when the read timer has run out, the end of the request has not come; when the write
timer has run out, the client is waited for. The stream is open, and afterwards
neither timer runs. -/
theorem timeout_justified {expectContinue : Bool} {events : List TimerEvent}
    {s t : TimedStream} {which : Which}
    (hrun : Run.exec step (begin expectContinue) events = .ok s)
    (htimeout : s.step (.timeout which) = .ok t) :
    s.closed = false ∧ (which = .read → s.ended = false)
      ∧ (which = .write → stalled events = true)
      ∧ t.timers.read.Quiet ∧ t.timers.write.Quiet := by
  have hquiet := quiet_of_run (quiet_begin expectContinue) hrun
  have htimed := timed_of_run hrun
  unfold TimedStream.step at htimeout
  dsimp only at htimeout
  split_ifs at htimeout with hpending
  cases htimeout
  have hover : which = .read → s.ended = false ∧ s.closed = false := by
    rintro rfl
    have hnot : ¬(s.ended = true ∨ s.closed = true) := fun h => by
      have hp : s.timers.read.pending = true := hpending
      rw [(hquiet h).2] at hp
      cases hp
    rw [not_or, Bool.not_eq_true, Bool.not_eq_true] at hnot
    exact hnot
  have howed : which = .write → stalled events = true ∧ s.closed = false := by
    rintro rfl
    exact htimed.owed (.inr hpending)
  refine ⟨?_, fun h => (hover h).1, fun h => (howed h).1, ⟨rfl, rfl⟩, rfl, rfl⟩
  cases which with
  | read => exact (hover rfl).2
  | write => exact (howed rfl).2

/-- A response that is blocked, until the write timer runs out. -/
theorem timeout_slowReader :
    ∃ s t, Run.exec step (begin false)
        [.recv (.frame (.headers .request true)) [],
          .sent (.dataOrHeaders false false) [], .sent (.dataOrHeaders false true) [],
          .expire .write] = .ok s
      ∧ s.step (.timeout .write) = .ok t ∧ s.closed = false
      ∧ t.timers.write.Quiet := by
  refine ⟨_, _, rfl, rfl, ?_⟩
  obtain ⟨hopen, -, -, -, hquiet⟩ := timeout_justified
    (show Run.exec step (begin false)
      [.recv (.frame (.headers .request true)) [],
        .sent (.dataOrHeaders false false) [], .sent (.dataOrHeaders false true) [],
        .expire .write] = .ok _ from rfl)
    (show TimedStream.step _ (.timeout .write) = .ok _ from rfl)
  exact ⟨hopen, hquiet⟩

/-- **A client that takes nothing is timed**: the write timer of an open stream runs
if and only if the client is waited for, as long as nothing that is done for a
handler stops it. -/
theorem stalled_timed {expectContinue : Bool} {events : List TimerEvent}
    {s : TimedStream} (hrun : Run.exec step (begin expectContinue) events = .ok s)
    (hopen : s.closed = false) (hstops : stoppedBy events = false) :
    s.timers.write.active = true ↔ stalled events = true :=
  ⟨fun h => ((timed_of_run hrun).owed (.inl h)).1,
    fun h => (timed_of_run hrun).timed h hstops hopen⟩

/-- A response of two frames, of which the first one used up the window. -/
theorem stalled_twoFrames :
    ∃ s, Run.exec step (begin false)
        [.recv (.frame (.headers .request true)) [.read],
          .sent (.dataOrHeaders false true) [], .handler [.read],
          .sent (.dataOrHeaders false false) []] = .ok s
      ∧ s.timers.write.active = false := by
  refine ⟨_, rfl, Bool.eq_false_iff.mpr fun h => ?_⟩
  have hstalled := (stalled_timed
    (show Run.exec step (begin false)
      [.recv (.frame (.headers .request true)) [.read],
        .sent (.dataOrHeaders false true) [], .handler [.read],
        .sent (.dataOrHeaders false false) []] = .ok _ from rfl)
    rfl rfl).mp h
  cases hstalled

end TimedStream
