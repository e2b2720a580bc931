import Harmony.DataStream
import Harmony.Run

/-!
# An event stream and its deferral

A stream of events never ends, so nghttp2 has to be told when there is nothing
to send: `data_read_cb` answers `DEFERRED`, and nghttp2 leaves the source alone
until `submit` resumes it. The stream notes the deferral in a flag of its own,
as a side effect of `length`. If the flag said less than nghttp2 believes, an
event would wait for a resumption that never comes.

`Attached` is a stream together with what nghttp2 knows about it, and
`Attached.step` one submission, one `data_read_cb` or one `send`, in any order.
The flag and the deferral are the same at every point of a run, and while they
are up the queue is empty (`Attached.deferral_of_run`).
-/

namespace EventStream

/-- **`EventStream::submit`.** The second component is whether the source is
resumed. -/
def submit (s : EventStream) (ev : Event) : EventStream × Bool :=
  let s := { s with queue := s.queue ++ [ev] }
  if s.paused then
    -- reset offset
    ({ s with pos := 0, paused := false }, true)
  else (s, false)

/-- `ping`. -/
def ping (s : EventStream) : EventStream × Bool := s.submit EventStream.pingEvent

variable {N : ℕ}

/-! ## What a send does to the queue -/

/-- The loop over the head moves the offset by what it writes. -/
theorem writePieces_add {ev : Event} {wb wb' : Buffer N}
    {pos toWrite pos' toWrite' : ℕ}
    (h : writePieces ev wb pos toWrite = .ok (wb', pos', toWrite')) :
    pos' + toWrite' = pos + toWrite := by
  induction toWrite using Nat.strong_induction_on generalizing wb pos with
  | _ toWrite ih =>
    by_cases hgo : toWrite ≠ 0 ∧ pos < ev.extPre
    · obtain ⟨t, ht, hpos, hle, -, -⟩ :=
        piece_spec hgo.2 (Nat.pos_of_ne_zero hgo.1)
      cases hw : wb.writeFull t with
      | error f =>
        rw [writePieces, dif_pos hgo] at h
        split at h
        · cases h
        · rename_i t' ht'
          rw [ht] at ht'
          cases ht'
          rw [hw] at h
          cases h
      | ok wb₁ =>
        rw [writePieces_step hgo ht hw] at h
        have hrest := ih (toWrite - t.length) (by omega) h
        omega
    · rw [writePieces, dif_neg hgo] at h
      cases h
      rfl

/-- The part in front of the payload moves the offset by what it writes. -/
theorem writeHead_add {ev : Event} {wb wb' : Buffer N}
    {pos wlen pos' toWrite : ℕ}
    (h : writeHead ev wb pos wlen = .ok (wb', pos', toWrite)) :
    pos' + toWrite = pos + wlen := by
  unfold writeHead at h
  split_ifs at h with hfast
  · obtain ⟨wb₁, -, h⟩ := Except.exists_of_bind_eq_ok h
    obtain ⟨wb₂, -, h⟩ := Except.exists_of_bind_eq_ok h
    obtain ⟨wb₃, -, h⟩ := Except.exists_of_bind_eq_ok h
    obtain ⟨wb₄, -, h⟩ := Except.exists_of_bind_eq_ok h
    cases h
    omega
  · exact writePieces_add h

/-- The part from the payload on writes all that is left. -/
theorem writeTail_add {ev : Event} {wb wb' : Buffer N} {pos toWrite pos' : ℕ}
    (h : writeTail ev wb pos toWrite = .ok (wb', pos')) :
    pos' = pos + toWrite := by
  unfold writeTail at h
  obtain ⟨t, hcut, h⟩ := Except.exists_of_bind_eq_ok h
  have hle : t.length ≤ toWrite := by
    unfold StringView.substr at hcut
    split_ifs at hcut
    cases hcut
    exact List.length_take_le _ _
  obtain ⟨wb₁, -, h⟩ := Except.exists_of_bind_eq_ok h
  obtain ⟨wb₂, -, h⟩ := Except.exists_of_bind_eq_ok h
  cases h
  omega

/-- **A send that completes** moves on by the size asked for. -/
theorem send_eq_advance {s s' : EventStream} {wb wb' : Buffer N} {wlen : ℕ}
    (h : s.send wb wlen = .ok (s', wb')) : s' = s.advance wlen := by
  unfold send at h
  unfold advance
  cases hq : s.queue with
  | nil =>
    rw [hq] at h
    cases h
    rfl
  | cons ev rest =>
    rw [hq] at h
    dsimp only at h ⊢
    split_ifs at h with hlen
    obtain ⟨⟨wb₁, pos₁, toWrite₁⟩, hhead, h⟩ := Except.exists_of_bind_eq_ok h
    obtain ⟨⟨wb₂, pos₂⟩, htail, h⟩ := Except.exists_of_bind_eq_ok h
    have hpos : pos₂ = s.pos + wlen :=
      (writeTail_add htail).trans (writeHead_add hhead)
    dsimp only at h
    rw [hpos] at h
    split_ifs at h ⊢
    · cases h
      rfl
    · cases h
      rfl

end EventStream

/-! ## The stream and what nghttp2 knows -/

/-- **An event stream attached to nghttp2.** -/
structure Attached where
  stream : EventStream
  /-- Whether nghttp2 leaves the source alone. -/
  deferred : Bool
  /-- The frame that `data_read_cb` answered with and that is still to be
  sent. -/
  asked : Option ℕ
  /-- The events submitted so far. -/
  submitted : List Event
  /-- The events that have left the queue so far. -/
  left : List Event

/-- **What happens to an attached stream.** nghttp2 calls `data_read_cb` only
while the source is not deferred and no frame waits to be sent. -/
inductive Attached.Step (N : ℕ) where
  /-- An event, a ping among them, is submitted. -/
  | submit (ev : Event)
  /-- nghttp2 can send a frame of at most `limit` bytes. -/
  | read (limit : ℕ) (remoteClosed : Bool)
  /-- The frame is sent, the write buffer being what it is. -/
  | send (wb : Buffer N)

open Event

namespace Attached

variable {N : ℕ}

/-- A stream that has just been attached. -/
def start : Attached := ⟨⟨[], 0, false⟩, false, none, [], []⟩

/-- **One step.** -/
def step (k : Attached) : Step N → Except Fault Attached
  | .submit ev =>
    let (stream, resumed) := k.stream.submit ev
    .ok { k with
      stream := stream
      deferred := if resumed then false else k.deferred
      submitted := k.submitted ++ [ev] }
  | .read limit remoteClosed =>
    if k.deferred || k.asked.isSome then .ok k
    else
      match dataReadCb (.event k.stream) limit remoteClosed with
      | (.deferred, .event stream) =>
        .ok { k with stream := stream, deferred := true }
      | (.frame nread _ _, .event stream) =>
        .ok { k with stream := stream, asked := some nread }
      | (_, _) => .ok k
  | .send wb =>
    match k.asked with
    | none => .ok k
    | some wlen => do
      let (stream, _) ← k.stream.send wb wlen
      .ok { k with
        stream := stream
        asked := none
        left := k.left ++ k.stream.queue.take
          (k.stream.queue.length - stream.queue.length) }

/-! ## The invariant -/

/-- **The flag and the deferral are the same**, and while they are up the queue
is empty. -/
structure Inv (k : Attached) : Prop where
  inside : k.stream.Inside
  flag : k.deferred = k.stream.paused
  dry : k.stream.paused = true → k.stream.queue = []
  /-- The events leave in the order in which they were submitted. -/
  order : k.submitted = k.left ++ k.stream.queue

theorem inv_start : start.Inv := ⟨rfl, rfl, fun _ => rfl, rfl⟩

/-- **Submitting an event ends the deferral.** The offset is reset only where
it is zero already. -/
theorem Inv.submit {k : Attached} (h : k.Inv) (ev : Event) :
    ∃ k', k.step (.submit ev : Step N) = .ok k' ∧ k'.Inv := by
  have horder : k.submitted ++ [ev] = k.left ++ (k.stream.queue ++ [ev]) := by
    rw [h.order, List.append_assoc]
  have hinside := h.inside
  unfold EventStream.Inside at hinside
  cases hpaused : k.stream.paused with
  | true =>
    have hempty := h.dry hpaused
    have hsubmit : k.stream.submit ev
        = (⟨k.stream.queue ++ [ev], 0, false⟩, true) := by
      unfold EventStream.submit
      exact if_pos hpaused
    refine ⟨⟨⟨k.stream.queue ++ [ev], 0, false⟩, false, k.asked,
      k.submitted ++ [ev], k.left⟩, ?_, ?_, rfl,
      fun hp => Bool.noConfusion hp, horder⟩
    · rw [step, hsubmit]
      rfl
    show EventStream.Inside ⟨k.stream.queue ++ [ev], 0, false⟩
    unfold EventStream.Inside
    rw [hempty]
    exact Nat.succ_pos _
  | false =>
    have hsubmit : k.stream.submit ev
        = (⟨k.stream.queue ++ [ev], k.stream.pos, k.stream.paused⟩, false) := by
      unfold EventStream.submit
      exact if_neg (Bool.not_eq_true _ ▸ hpaused)
    refine ⟨⟨⟨k.stream.queue ++ [ev], k.stream.pos, k.stream.paused⟩,
      k.deferred, k.asked, k.submitted ++ [ev], k.left⟩, ?_, ?_, h.flag,
      fun hp => ?_, horder⟩
    · rw [step, hsubmit]
      rfl
    · show EventStream.Inside ⟨k.stream.queue ++ [ev], _, _⟩
      unfold EventStream.Inside
      cases hq : k.stream.queue with
      | nil =>
        rw [hq] at hinside
        rw [hinside]
        exact Nat.succ_pos _
      | cons ev' rest =>
        rw [hq] at hinside
        exact hinside
    · exact absurd (hpaused.symm.trans hp) Bool.false_ne_true

/-- **With an empty queue the source is deferred**: `length` marks the stream
paused. -/
theorem dataReadCb_nil {s : EventStream} (hq : s.queue = [])
    (hin : s.Inside) (limit : ℕ) (remoteClosed : Bool) :
    dataReadCb (.event s) limit remoteClosed
      = (.deferred, .event ⟨s.queue, s.pos, true⟩) := by
  obtain ⟨queue, pos, paused⟩ := s
  subst hq
  have hpos : pos = 0 := hin
  subst hpos
  have hremaining : (DataStream.event ⟨[], 0, paused⟩).remaining
      = ((subSizeT 0 0, false), .event ⟨[], 0, true⟩) := rfl
  unfold dataReadCb
  rw [hremaining, subSizeT_of_le le_rfl (by decide)]
  rfl

/-- **With an event in the queue there is a frame**, and nothing is noted. -/
theorem dataReadCb_cons {s : EventStream} {ev : Event} {rest : List Event}
    (hq : s.queue = ev :: rest) (hin : s.Inside) (limit : ℕ)
    (remoteClosed : Bool) :
    dataReadCb (.event s) limit remoteClosed
      = (.frame (min (ev.len - s.pos) limit) false false, .event s) := by
  have hleft := EventStream.remaining_of_cons hq hin
  obtain ⟨queue, pos, paused⟩ := s
  subst hq
  have hremaining : (DataStream.event ⟨ev :: rest, pos, paused⟩).remaining
      = ((ev.len - pos, false), .event ⟨ev :: rest, pos, paused⟩) := by
    rw [← hleft]
    rfl
  have hpos : ¬ ev.len - pos ≤ 0 := Nat.not_le.mpr (Nat.sub_pos_of_lt hin)
  unfold dataReadCb
  rw [hremaining]
  simp only [decide_eq_false hpos, Bool.false_and, Bool.false_eq_true,
    if_false]

/-- A read keeps what it must: the flag is set together with the deferral. -/
theorem Inv.read {k : Attached} (h : k.Inv) (limit : ℕ)
    (remoteClosed : Bool) :
    ∃ k', k.step (.read limit remoteClosed : Step N) = .ok k' ∧ k'.Inv := by
  cases hskip : k.deferred || k.asked.isSome with
  | true =>
    refine ⟨k, ?_, h⟩
    rw [step]
    exact if_pos hskip
  | false =>
    cases hq : k.stream.queue with
    | nil =>
      refine ⟨⟨⟨k.stream.queue, k.stream.pos, true⟩, true, k.asked,
        k.submitted, k.left⟩, ?_, h.inside, rfl, fun _ => hq, h.order⟩
      rw [step, if_neg (Bool.not_eq_true _ ▸ hskip),
        dataReadCb_nil hq h.inside]
    | cons ev rest =>
      refine ⟨⟨k.stream, k.deferred,
        some (min (ev.len - k.stream.pos) limit), k.submitted, k.left⟩, ?_,
        h.inside, h.flag, h.dry, h.order⟩
      rw [step, if_neg (Bool.not_eq_true _ ▸ hskip),
        dataReadCb_cons hq h.inside]

/-- **A send that completes takes at most the first event** off the queue. -/
theorem Inv.send {k k' : Attached} (h : k.Inv) {wb : Buffer N}
    (hstep : k.step (.send wb : Step N) = .ok k') : k'.Inv := by
  rw [step] at hstep
  cases hasked : k.asked with
  | none =>
    rw [hasked] at hstep
    exact Except.ok.inj hstep ▸ h
  | some wlen =>
    rw [hasked] at hstep
    obtain ⟨⟨s', wb'⟩, hsend, hrest⟩ := Except.exists_of_bind_eq_ok hstep
    have hadvance := EventStream.send_eq_advance hsend
    rw [hadvance] at hrest
    have hk' := (Except.ok.inj hrest).symm
    subst hk'
    have hinside := EventStream.inside_advance wlen h.inside
    unfold EventStream.advance at hinside ⊢
    cases hq : k.stream.queue with
    | nil =>
      rw [hq] at hinside
      refine ⟨hinside, h.flag, h.dry, ?_⟩
      show k.submitted = (k.left ++ [].take _) ++ k.stream.queue
      rw [List.take_nil, List.append_nil]
      exact h.order
    | cons ev rest =>
      rw [hq] at hinside
      have hbusy : k.stream.paused = false :=
        eq_false_of_ne_true fun hp => by
          rw [h.dry hp] at hq
          cases hq
      have horder := h.order
      dsimp only at hinside ⊢
      split_ifs at hinside ⊢ with hdone
      · refine ⟨hinside, h.flag, fun hp => ?_, ?_⟩
        · exact absurd (hbusy.symm.trans hp) Bool.false_ne_true
        · show k.submitted = (k.left ++ (ev :: rest).take
            ((ev :: rest).length - rest.length)) ++ rest
          rw [horder, hq, List.length_cons, Nat.add_sub_cancel_left,
            List.append_assoc]
          rfl
      · refine ⟨hinside, h.flag, fun hp => ?_, ?_⟩
        · exact absurd (hbusy.symm.trans hp) Bool.false_ne_true
        · show k.submitted = (k.left ++ (ev :: rest).take
            ((ev :: rest).length - (ev :: rest).length)) ++ ev :: rest
          rw [horder, hq, Nat.sub_self, List.take_zero, List.append_nil]

/-- **Every step keeps the invariant.** -/
theorem Inv.step {k k' : Attached} (h : k.Inv) {e : Step N}
    (hstep : k.step e = .ok k') : k'.Inv := by
  cases e with
  | submit ev =>
    obtain ⟨k₁, heq, hk₁⟩ := h.submit (N := N) ev
    rw [heq] at hstep
    exact Except.ok.inj hstep ▸ hk₁
  | read limit remoteClosed =>
    obtain ⟨k₁, heq, hk₁⟩ := h.read (N := N) limit remoteClosed
    rw [heq] at hstep
    exact Except.ok.inj hstep ▸ hk₁
  | send wb => exact h.send hstep

/-! ## Runs -/

/-- **The invariant holds after every run.** -/
theorem inv_of_run {steps : List (Step N)} {k : Attached}
    (h : Run.exec step start steps = .ok k) : k.Inv :=
  Run.invariant_of_step (fun _ _ _ hk hstep => Inv.step hk hstep) inv_start h

/-- **No event waits behind a deferred source.** After any run the source is
deferred only with an empty queue, at offset zero and paused; the offset never
exceeds the length of the first event, so that `remaining` does not wrap; and
the events that have left, followed by the queue, are the events submitted. -/
theorem deferral_of_run {steps : List (Step N)} {k : Attached}
    (h : Run.exec step start steps = .ok k) :
    (k.deferred = true →
        k.stream.queue = [] ∧ k.stream.pos = 0 ∧ k.stream.paused = true)
      ∧ k.stream.pos ≤ k.stream.length.1
      ∧ k.submitted = k.left ++ k.stream.queue := by
  have hinv := inv_of_run h
  have hinside := hinv.inside
  unfold EventStream.Inside at hinside
  refine ⟨fun hdeferred => ?_, ?_, hinv.order⟩
  · have hpaused := hinv.flag.symm.trans hdeferred
    have hempty := hinv.dry hpaused
    rw [hempty] at hinside
    exact ⟨hempty, hinside, hpaused⟩
  · unfold EventStream.length
    cases hq : k.stream.queue with
    | nil =>
      rw [hq] at hinside
      exact hinside.le
    | cons ev rest =>
      rw [hq] at hinside
      have hlen : ev.len = s1.length + ev.name.length + s2.length + 1
        + ev.length + 2 := rfl
      dsimp only at hinside ⊢
      omega

/-- A ping on a stream that has run dry. -/
def pingRun : List (Step 64) :=
  [.read 100 false, .submit EventStream.pingEvent, .read 100 false,
    .send (Buffer.empty _)]

/-- The ping leaves the queue, and the source is not deferred. -/
theorem pingRun_deferral :
    ∃ k, Run.exec step start pingRun = .ok k
      ∧ (k.deferred = true →
        k.stream.queue = [] ∧ k.stream.pos = 0 ∧ k.stream.paused = true)
      ∧ k.stream.pos ≤ k.stream.length.1
      ∧ k.submitted = k.left ++ k.stream.queue := by
  obtain ⟨k, hrun, -⟩ := Run.exists_of_map_exec
    (show (Run.exec step start pingRun).map (·.left) = .ok [EventStream.pingEvent]
      by
      decide +kernel)
  exact ⟨k, hrun, deferral_of_run hrun⟩

end Attached
