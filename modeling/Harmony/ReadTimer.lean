import Harmony.HttpSession
import Harmony.Run

/-!
# The read timer of a stream

A stream has two timers of thirty seconds, and its callbacks start them,
restart them, restart them if they are active and stop them: the read timer
is to run as long as the client still has something to send. When it runs out
the stream is reset.

The receive callbacks are those of `HttpStream`, whose calls say what they do
to the timer (`StreamCall.timerCalls`); the send callback, the handlers and
the functions that answer for them, and the loop that lets a timer run out
are added here (`TimedStream.step`). Of a frame that is sent the read timer is
restarted only if it is active, so that nothing starts it once the frame with
the end of the request has stopped it: that is the invariant
(`TimedStream.Quiet`), and it is kept in any order of events
(`read_timer_quiet`).
-/

/-! ## Timers -/

/-- **`ev_timer`** with a repeat time. -/
structure EvTimer where
  active : Bool
  /-- It has run out, and its callback is to be called. -/
  pending : Bool
  deriving DecidableEq, Repr

namespace EvTimer

/-- A timer that was never started. -/
def idle : EvTimer := ⟨false, false⟩

/-- `ev_timer_again`, of a timer that repeats: it is started if it has to be,
and is no longer pending. -/
def again (_ : EvTimer) : EvTimer := ⟨true, false⟩

/-- `ev_timer_stop`. -/
def stop (_ : EvTimer) : EvTimer := ⟨false, false⟩

/-- The loop finds that it has run out. It repeats, and so it stays active. -/
def expire (t : EvTimer) : EvTimer := { t with pending := true }

/-- Neither active nor pending. -/
def Quiet (t : EvTimer) : Prop := t.active = false ∧ t.pending = false

end EvTimer

/-- **The timers of a stream.** -/
structure StreamTimers where
  read : EvTimer
  write : EvTimer
  deriving DecidableEq, Repr

/-- A call that works on the timers. -/
inductive TimerCall where
  | resetRead
  | resetWrite
  | resetReadIfActive
  | stopRead
  | stopWrite
  deriving DecidableEq, Repr

namespace StreamTimers

/-- `reset_read_timeout_if_active`. -/
def resetReadTimeoutIfActive (t : StreamTimers) : StreamTimers :=
  if t.read.active then { t with read := t.read.again } else t

/-- One call. -/
def run (t : StreamTimers) : TimerCall → StreamTimers
  | .resetRead => { t with read := t.read.again }
  | .resetWrite => { t with write := t.write.again }
  | .resetReadIfActive => t.resetReadTimeoutIfActive
  | .stopRead => { t with read := t.read.stop }
  | .stopWrite => { t with write := t.write.stop }

/-- The calls in turn. -/
def runAll (t : StreamTimers) (calls : List TimerCall) : StreamTimers :=
  calls.foldl run t

end StreamTimers

/-! ## The callbacks -/

/-- **What is done for a handler**: an event source stops the read timer, and
both are stopped by a reset, by a failed read from a file, and at the end of a body
while the request still goes on. -/
inductive Stop where
  | read
  | write
  deriving DecidableEq, Repr

/-- Its call. -/
def Stop.call : Stop → TimerCall
  | .read => .stopRead
  | .write => .stopWrite

/-- What a call of the receive callbacks does to the timers. A dispatch, a
chunk and the end of the body run code of the handlers. -/
def StreamCall.timerCalls (handler : List Stop) : StreamCall → List TimerCall
  | .parsePath => []
  | .prepareResponse => handler.map Stop.call
  | .handleData _ => handler.map Stop.call
  | .handleBody => handler.map Stop.call
  | .submitContinue => []
  | .stopReadTimeout => [.stopRead]
  | .resetReadTimeout => [.resetRead]

/-- A frame that has been sent. -/
inductive SentFrame where
  /-- DATA or HEADERS; `blocked` is whether a window is used up. -/
  | dataOrHeaders (endStream blocked : Bool)
  /-- PUSH_PROMISE; `promised` is whether the promised stream is there. -/
  | pushPromise (promised : Bool)
  | other
  deriving DecidableEq, Repr

/-- **`HttpSession::on_frame_send_cb`** on a stream that is there. -/
def SentFrame.timerCalls (handler : List Stop) : SentFrame → List TimerCall
  | .dataOrHeaders endStream blocked =>
    if endStream then [.stopWrite]
    else if blocked then [.resetReadIfActive, .resetWrite]
    else [.resetReadIfActive, .stopWrite]
  | .pushPromise promised =>
    if promised then
      [.resetReadIfActive, .resetWrite] ++ handler.map Stop.call
    else []
  | .other => []

/-- **A stream with its timers.** -/
structure TimedStream where
  stream : HttpStream
  timers : StreamTimers
  /-- Whether the frame with the end of the request has been processed. -/
  ended : Bool
  /-- Whether the stream has been closed, so that no callback finds it. -/
  closed : Bool

/-- One of the two timers. -/
inductive Which where
  | read
  | write
  deriving DecidableEq, Repr

/-- **What happens to a stream.** -/
inductive TimerEvent where
  /-- A receive callback; the handlers it runs may stop timers. -/
  | recv (e : SessionEvent) (handler : List Stop)
  /-- The send callback. -/
  | sent (f : SentFrame) (handler : List Stop)
  /-- Between the callbacks: a handler goes on, a body is read or ends, a stream
  is reset. -/
  | handler (stops : List Stop)
  /-- A timer runs out. -/
  | expire (which : Which)
  /-- `timeout_cb`. -/
  | timeout (which : Which)
  /-- `on_stream_close_cb`, behind which the destructor stops the timers. -/
  | close
  deriving DecidableEq, Repr

/-- What cannot happen. -/
inductive Impossible where
  /-- A frame of the request behind its end. -/
  | behindEnd
  /-- A timer that is not active runs out, or is called without having run
  out. -/
  | notRunning
  deriving DecidableEq, Repr

/-- Whether a report is that of the end of the request. -/
def SessionEvent.endsStream : SessionEvent → Bool
  | .chunk _ => false
  | .frame (.data _ endStream) => endStream
  | .frame (.headers _ endStream) => endStream
  | .frame .other => false

/-- Whether a report is that of a frame of the request. -/
def SessionEvent.ofRequest : SessionEvent → Bool
  | .chunk _ => true
  | .frame (.data _ _) => true
  | .frame (.headers _ _) => true
  | .frame .other => false

namespace TimedStream

/-- `on_begin_headers_cb`: a new stream, whose read timer is started. -/
def begin (expectContinue : Bool) : TimedStream where
  stream := .new expectContinue
  timers := (StreamTimers.mk .idle .idle).run .resetRead
  ended := false
  closed := false

/-- What a receive callback does to the timers. -/
def recvCalls (s : HttpStream) (e : SessionEvent) (handler : List Stop) :
    List TimerCall :=
  ((s.recv e).calls.drop s.calls.length).flatMap
    (StreamCall.timerCalls handler)

/-- One of the timers. -/
def timer (s : TimedStream) : Which → EvTimer
  | .read => s.timers.read
  | .write => s.timers.write

/-- **One event**, if it can happen. -/
def step (s : TimedStream) : TimerEvent → Except Impossible TimedStream
  | .recv e handler =>
    if s.ended ∧ e.ofRequest then .error .behindEnd
    else if s.closed then .ok s
    else
      .ok { s with
        stream := s.stream.recv e
        timers := s.timers.runAll (recvCalls s.stream e handler)
        ended := s.ended || e.endsStream }
  | .sent f handler =>
    if s.closed then .ok s
    else .ok { s with timers := s.timers.runAll (f.timerCalls handler) }
  | .handler stops =>
    if s.closed then .ok s
    else .ok { s with timers := s.timers.runAll (stops.map Stop.call) }
  | .expire which =>
    if (s.timer which).active then
      match which with
      | .read =>
        .ok { s with timers := { s.timers with read := s.timers.read.expire } }
      | .write =>
        .ok { s with timers := { s.timers with write := s.timers.write.expire } }
    else .error .notRunning
  | .timeout which =>
    if (s.timer which).pending then
      -- both are stopped, and once more by the reset
      .ok { s with
        timers := s.timers.runAll [.stopRead, .stopWrite, .stopRead, .stopWrite] }
    else .error .notRunning
  | .close =>
    .ok { s with
      timers := s.timers.runAll [.stopRead, .stopWrite]
      closed := true }

/-- **The invariant**: behind the end of the request, and once the stream is
closed, the read timer is quiet. -/
def Quiet (s : TimedStream) : Prop :=
  s.ended = true ∨ s.closed = true → s.timers.read.Quiet

end TimedStream

/-! ## What the receive callbacks do -/

namespace HttpStream

theorem prefix_call {s t : HttpStream} (h : s.calls <+: t.calls)
    (c : StreamCall) : s.calls <+: (t.call c).calls :=
  h.trans (List.prefix_append _ _)

theorem prefix_prepare {s t : HttpStream} (h : s.calls <+: t.calls) :
    s.calls <+: t.prepare.calls := by
  unfold prepare
  split_ifs
  · exact h
  · exact prefix_call (prefix_call h .parsePath) .prepareResponse

/-- **A header frame that ends the stream** ends with stopping the read
timer. -/
theorem recvHeaders_end {s t : HttpStream} (h : s.calls <+: t.calls)
    (cat : HeadersCategory) :
    ∃ u : HttpStream, s.calls <+: u.calls
      ∧ (t.recvHeaders cat true).calls = u.calls ++ [.stopReadTimeout] := by
  refine ⟨(if cat = .request ∧ t.expectContinue then t.call .submitContinue
    else t).prepare, prefix_prepare ?_, rfl⟩
  split_ifs
  · exact prefix_call h .submitContinue
  · exact h

/-- **The callback of the frame with the end of the request** ends with
stopping the read timer: the case of a DATA frame stops it before the end of
the body is handled, and the one it falls into stops it again. -/
theorem recv_end (s : HttpStream) {e : SessionEvent}
    (h : e.endsStream = true) :
    ∃ u : HttpStream, s.calls <+: u.calls
      ∧ (s.recv e).calls = u.calls ++ [.stopReadTimeout] := by
  match e with
  | .chunk data => cases h
  | .frame .other => cases h
  | .frame (.headers cat endStream) =>
    obtain rfl : endStream = true := h
    exact recvHeaders_end List.prefix_rfl cat
  | .frame (.data cat endStream) =>
    obtain rfl : endStream = true := h
    exact recvHeaders_end (prefix_call (prefix_call
      (prefix_prepare List.prefix_rfl) .stopReadTimeout) .handleBody) cat

/-- A frame that is none of the request does nothing. -/
theorem recv_of_not_ofRequest (s : HttpStream) {e : SessionEvent}
    (h : e.ofRequest = false) : s.recv e = s := by
  match e with
  | .chunk data => cases h
  | .frame .other => rfl
  | .frame (.headers cat endStream) => cases h
  | .frame (.data cat endStream) => cases h

end HttpStream

/-! ## Calls that leave the read timer quiet -/

namespace StreamTimers

theorem runAll_append (t : StreamTimers) (calls calls' : List TimerCall) :
    t.runAll (calls ++ calls') = (t.runAll calls).runAll calls' :=
  List.foldl_append

/-- **Only an unconditional restart starts a quiet read timer.** -/
theorem quiet_run {t : StreamTimers} (h : t.read.Quiet) {c : TimerCall}
    (hc : c ≠ .resetRead) : (t.run c).read.Quiet := by
  cases c with
  | resetRead => exact absurd rfl hc
  | resetWrite => exact h
  | resetReadIfActive =>
    rw [run, resetReadTimeoutIfActive, h.1, if_neg Bool.false_ne_true]
    exact h
  | stopRead => exact ⟨rfl, rfl⟩
  | stopWrite => exact h

theorem quiet_runAll {t : StreamTimers} (h : t.read.Quiet)
    {calls : List TimerCall} (hcalls : .resetRead ∉ calls) :
    (t.runAll calls).read.Quiet := by
  induction calls generalizing t with
  | nil => exact h
  | cons c calls ih =>
    rw [List.mem_cons, not_or] at hcalls
    exact ih (quiet_run h fun heq => hcalls.1 heq.symm) hcalls.2

/-- Stopping it last makes it quiet, whatever was done before. -/
theorem quiet_runAll_stopRead (t : StreamTimers) (calls : List TimerCall) :
    (t.runAll (calls ++ [.stopRead])).read.Quiet := by
  rw [runAll_append]
  exact ⟨rfl, rfl⟩

end StreamTimers

/-- What is done for a handler never restarts the read timer. -/
theorem resetRead_notMem_stops (stops : List Stop) :
    TimerCall.resetRead ∉ stops.map Stop.call := by
  rw [List.mem_map]
  rintro ⟨stop, -, hstop⟩
  cases stop <;> cases hstop

/-- **The send callback never restarts the read timer** unless it is
active. -/
theorem resetRead_notMem_sent (f : SentFrame) (handler : List Stop) :
    TimerCall.resetRead ∉ f.timerCalls handler := by
  cases f with
  | dataOrHeaders endStream blocked =>
    rw [SentFrame.timerCalls]
    split_ifs <;> decide
  | pushPromise promised =>
    cases promised with
    | false => exact List.not_mem_nil
    | true =>
      rw [SentFrame.timerCalls, if_pos rfl, List.mem_append, not_or]
      exact ⟨by decide, resetRead_notMem_stops handler⟩
  | other => exact List.not_mem_nil

namespace TimedStream

/-- The read timer is quiet once the end of the request is processed. -/
theorem quiet_recvCalls (s : HttpStream) (t : StreamTimers) {e : SessionEvent}
    (h : e.endsStream = true) (handler : List Stop) :
    (t.runAll (recvCalls s e handler)).read.Quiet := by
  obtain ⟨u, hprefix, hcalls⟩ := s.recv_end h
  rw [recvCalls, hcalls, List.drop_append_of_le_length hprefix.length_le,
    List.flatMap_append]
  exact StreamTimers.quiet_runAll_stopRead t _

/-- A frame that is none of the request leaves the timers alone. -/
theorem recvCalls_of_not_ofRequest (s : HttpStream) {e : SessionEvent}
    (h : e.ofRequest = false) (handler : List Stop) :
    recvCalls s e handler = [] := by
  rw [recvCalls, s.recv_of_not_ofRequest h, List.drop_length, List.flatMap_nil]

/-- **Every event keeps the read timer quiet behind the end.** -/
theorem Quiet.step {s s' : TimedStream} {e : TimerEvent} (h : s.Quiet)
    (hstep : s.step e = .ok s') : s'.Quiet := by
  unfold TimedStream.step at hstep
  cases e with
  | recv e handler =>
    dsimp only at hstep
    split_ifs at hstep with hbehind hclosed
    · cases hstep
      exact h
    · cases hstep
      intro hover
      by_cases hends : e.endsStream = true
      · exact quiet_recvCalls s.stream s.timers hends handler
      · -- the end came before, so this is no frame of the request
        have hbefore : s.ended = true := by
          have hended := hover.resolve_right hclosed
          rw [Bool.or_eq_true] at hended
          exact hended.resolve_right hends
        have hother : e.ofRequest = false :=
          Bool.eq_false_iff.mpr fun hof => hbehind ⟨hbefore, hof⟩
        show (s.timers.runAll (recvCalls s.stream e handler)).read.Quiet
        rw [recvCalls_of_not_ofRequest s.stream hother]
        exact h (.inl hbefore)
  | sent f handler =>
    dsimp only at hstep
    split_ifs at hstep
    · cases hstep
      exact h
    · cases hstep
      exact fun hover => StreamTimers.quiet_runAll (h hover)
        (resetRead_notMem_sent f handler)
  | handler stops =>
    dsimp only at hstep
    split_ifs at hstep
    · cases hstep
      exact h
    · cases hstep
      exact fun hover => StreamTimers.quiet_runAll (h hover)
        (resetRead_notMem_stops stops)
  | expire which =>
    dsimp only at hstep
    split_ifs at hstep with hactive
    cases which with
    | read =>
      cases hstep
      intro hover
      have hidle : s.timers.read.active = false := (h hover).1
      have hrunning : s.timers.read.active = true := hactive
      rw [hidle] at hrunning
      cases hrunning
    | write =>
      cases hstep
      exact h
  | timeout which =>
    dsimp only at hstep
    split_ifs at hstep
    cases hstep
    exact fun _ => ⟨rfl, rfl⟩
  | close =>
    cases hstep
    exact fun _ => ⟨rfl, rfl⟩

/-- What is over stays so. -/
theorem over_of_step {s s' : TimedStream} {e : TimerEvent}
    (h : s.ended = true ∨ s.closed = true) (hstep : s.step e = .ok s') :
    s'.ended = true ∨ s'.closed = true := by
  unfold TimedStream.step at hstep
  cases e with
  | recv e handler =>
    dsimp only at hstep
    split_ifs at hstep
    · cases hstep
      exact h
    · cases hstep
      exact h.imp_left fun hended => Bool.or_eq_true_iff.mpr (.inl hended)
  | sent f handler =>
    dsimp only at hstep
    split_ifs at hstep <;> cases hstep <;> exact h
  | handler stops =>
    dsimp only at hstep
    split_ifs at hstep <;> cases hstep <;> exact h
  | expire which =>
    dsimp only at hstep
    split_ifs at hstep
    cases which <;> cases hstep <;> exact h
  | timeout which =>
    dsimp only at hstep
    split_ifs at hstep
    cases hstep
    exact h
  | close =>
    cases hstep
    exact .inr rfl

/-- The callback of the frame with the end finds the stream or does not: it
is over either way. -/
theorem over_of_recv {s s' : TimedStream} {e : SessionEvent}
    {handler : List Stop} (h : e.endsStream = true)
    (hstep : s.step (.recv e handler) = .ok s') :
    s'.ended = true ∨ s'.closed = true := by
  unfold TimedStream.step at hstep
  dsimp only at hstep
  split_ifs at hstep with _ hclosed
  · cases hstep
    exact .inr hclosed
  · cases hstep
    exact .inl (Bool.or_eq_true_iff.mpr (.inr h))

/-- A new stream meets the invariant. -/
theorem quiet_begin (expectContinue : Bool) : (begin expectContinue).Quiet := by
  rintro (h | h) <;> cases h

/-- **The invariant holds in every run.** -/
theorem quiet_of_run {s t : TimedStream} {events : List TimerEvent}
    (h : s.Quiet) (hrun : Run.exec step s events = .ok t) : t.Quiet :=
  Run.invariant_of_step (fun _ _ _ => Quiet.step) h hrun

theorem over_of_run {s t : TimedStream} {events : List TimerEvent}
    (h : s.ended = true ∨ s.closed = true)
    (hrun : Run.exec step s events = .ok t) :
    t.ended = true ∨ t.closed = true :=
  Run.invariant_of_step
    (I := fun s : TimedStream => s.ended = true ∨ s.closed = true)
    (fun _ _ _ => over_of_step) h hrun

/-- **Behind the end of the request the read timer never runs**: once the
frame with the end has been processed, it is neither active nor pending,
whatever came before and whatever is sent, stopped or closed afterwards, and
so it does not run out and `timeout_cb` is not called for it. -/
theorem read_timer_quiet {expectContinue : Bool} {before after : List TimerEvent}
    {s₀ s t : TimedStream} {e : SessionEvent} {handler : List Stop}
    (hbefore : Run.exec step (begin expectContinue) before = .ok s₀)
    (hends : e.endsStream = true)
    (hframe : s₀.step (.recv e handler) = .ok s)
    (hafter : Run.exec step s after = .ok t) :
    t.timers.read.active = false ∧ t.timers.read.pending = false
      ∧ t.step (.expire .read) = .error .notRunning
      ∧ t.step (.timeout .read) = .error .notRunning := by
  have hs : s.Quiet :=
    Quiet.step (quiet_of_run (quiet_begin expectContinue) hbefore) hframe
  have hover := over_of_run (over_of_recv hends hframe) hafter
  obtain ⟨hactive, hpending⟩ := quiet_of_run hs hafter hover
  refine ⟨hactive, hpending, ?_, ?_⟩
  · exact if_neg fun h => Bool.false_ne_true (hactive.symm.trans h)
  · exact if_neg fun h => Bool.false_ne_true (hpending.symm.trans h)

/-- A request with a body, ended by its last DATA frame, and an event stream
sent in answer, blocked once, of which the write timer runs out. -/
theorem read_timer_quiet_eventStream :
    ∃ t, Run.exec step (begin false)
        [.recv (.frame (.headers .request false)) [],
          .recv (.chunk [97]) [], .sent (.dataOrHeaders false false) [],
          .recv (.frame (.data .request true)) [.read],
          .sent (.dataOrHeaders false false) [],
          .sent (.dataOrHeaders false true) [], .recv (.frame .other) [],
          .expire .write, .timeout .write] = .ok t
      ∧ t.timers.read.active = false := by
  have hbefore : Run.exec step (begin false)
      [.recv (.frame (.headers .request false)) [], .recv (.chunk [97]) [],
        .sent (.dataOrHeaders false false) []]
      = .ok ⟨⟨false, false, [.resetReadTimeout, .handleData [97],
        .resetReadTimeout]⟩, ⟨⟨true, false⟩, ⟨false, false⟩⟩, false, false⟩ :=
    rfl
  refine ⟨_, rfl, ?_⟩
  exact (read_timer_quiet hbefore rfl
    (show step _ (.recv (.frame (.data .request true)) [.read]) = .ok _ from rfl)
    (show Run.exec step _ [.sent (.dataOrHeaders false false) [],
        .sent (.dataOrHeaders false true) [], .recv (.frame .other) [],
        .expire .write, .timeout .write] = .ok _ from rfl)).1

end TimedStream
