import Harmony.EventStream
import Harmony.ServerSentEvents

/-!
# What a client makes of an event stream

An event stream writes the name of an event and its payload as they are. The
names are chosen by the program, but a payload may be anything: the text of a
notification, or the result of a query. So it may hold a line break, and a line
break ends the field. `frame_eq_encode` makes the connection with the grammar of
server-sent events, and `received_iff` says what comes of it: the client
receives what was submitted exactly if no payload has a line break in it and no
event is without a name.
-/

open ServerSentEvents

/-- What the client should receive. -/
def Event.message (ev : Event) : Message := ⟨ev.name, ev.view⟩

/-- **The frame of an event is the text of its message.** -/
theorem Event.frame_eq_encode (ev : Event) : ev.frame = encode ev.message := by
  have hname : Event.s1 = eventName ++ [58, 32] := by decide
  have hdata : Event.s2 = dataName ++ [58, 32] := by decide
  unfold Event.frame Event.head encode
  rw [hname, hdata]
  simp only [Event.newline, Event.message, List.append_assoc, List.cons_append,
    List.nil_append]

namespace EventStream

variable {N : ℕ}

/-- **What calls that succeed have written** and what is still owed is what was
owed before. -/
theorem sendAll_owed {calls : List (Call N)} {s s' : EventStream}
    {wbs : List (Buffer N)} (hin : s.Inside) (hasked : s.Asked calls)
    (h : s.sendAll calls = .ok (s', wbs)) :
    (List.zipWith written calls wbs).flatten ++ s'.owed = s.owed := by
  induction calls generalizing s wbs with
  | nil =>
    cases h
    rfl
  | cons c cs ih =>
    obtain ⟨hpos, hrem, hroom, hnext⟩ := hasked
    cases hq : s.queue with
    | nil =>
      simp only [Inside, hq] at hin
      simp only [remaining, length, hq, hin] at hrem
      exact absurd (hpos.trans hrem) (by decide)
    | cons ev rest =>
      rw [remaining_of_cons hq hin] at hrem
      have hlen : s.pos + c.wlen ≤ ev.len := by omega
      have hclean : s.CleanPiece c.wlen := by
        by_contra hnot
        rw [sendAll, send_of_not_clean hq hpos hlen hroom hnot,
          Except.error_bind] at h
        cases h
      obtain ⟨wb', hsend, happ⟩ := send_of_clean hq hpos hlen hroom hclean
      rw [sendAll, hsend, Except.ok_bind] at h
      obtain ⟨⟨s₁, wbs₁⟩, hrest, h⟩ := Except.exists_of_bind_eq_ok h
      cases h
      rw [List.zipWith_cons_cons, List.flatten_cons, written_of_appends happ,
        List.append_assoc,
        ih (inside_advance _ hin) (hnext _ _ hsend) hrest]
      exact slice_append_owed_advance hq hlen

/-- **The client receives the events exactly if they fit the format.** Whatever
the sizes of the pieces, once all of the queue has been written, what was
written is read as the events of the queue if and only if no event is without a
name and no payload has a line break in it. -/
theorem received_iff {s s' : EventStream} {calls : List (Call N)}
    {wbs : List (Buffer N)} (hstart : s.pos = 0) (hasked : s.Asked calls)
    (h : s.sendAll calls = .ok (s', wbs)) (hdone : s'.queue = [])
    (hnames : ∀ ev ∈ s.queue, OneLine ev.name) :
    decode (List.zipWith written calls wbs).flatten
        = s.queue.map Event.message
      ↔ ∀ ev ∈ s.queue, ev.name ≠ [] ∧ OneLine ev.view := by
  have hin : s.Inside := by
    unfold Inside
    cases s.queue with
    | nil => exact hstart
    | cons ev rest =>
      rw [hstart]
      exact Nat.succ_pos _
  have hnone : s'.owed = [] := by
    unfold owed
    rw [hdone]
    exact List.drop_nil
  have hall : s.owed = (s.queue.map Event.message).flatMap encode := by
    unfold owed
    rw [hstart, List.drop_zero, List.flatMap_map, List.flatMap]
    exact congrArg List.flatten (List.map_congr_left fun ev _ =>
      ev.frame_eq_encode)
  have hwritten := sendAll_owed hin hasked h
  rw [hnone, List.append_nil, hall] at hwritten
  rw [hwritten, decode_encode_iff]
  · rw [List.forall_mem_map]
    rfl
  · rw [List.forall_mem_map]
    exact hnames

/-- Two events that were sent in four pieces are received. -/
theorem fourPieces_received :
    ∃ s' wbs, pingAndNews.sendAll fourPieces = .ok (s', wbs)
      ∧ decode (List.zipWith written fourPieces wbs).flatten
        = pingAndNews.queue.map Event.message := by
  obtain ⟨⟨s', wbs⟩, hall, hdone⟩ := Except.exists_of_map_eq_ok
    (show (pingAndNews.sendAll fourPieces).map (fun r => r.1.queue) = .ok [] by
      decide +kernel)
  exact ⟨s', wbs, hall,
    (received_iff rfl asked_fourPieces hall hdone (by decide)).mpr (by decide)⟩

/-! ## An event in one piece -/

/-- **An event alone** is sent in one piece, if there is room for it. -/
theorem sendAll_alone (ev : Event) {wb : Buffer N} (hroom : ev.len ≤ wb.wleft) :
    (EventStream.mk [ev] 0 false).Asked [Call.mk wb ev.len]
      ∧ ∃ wb', (EventStream.mk [ev] 0 false).sendAll [Call.mk wb ev.len]
        = .ok (⟨[], 0, false⟩, [wb']) := by
  have hend : ev.extPre + ev.length + 2 = ev.len := rfl
  have hpre : 1 ≤ ev.extPre := Nat.succ_pos _
  have hin : (EventStream.mk [ev] 0 false).Inside := Nat.succ_pos _
  have hlen : (EventStream.mk [ev] 0 false).pos + ev.len ≤ ev.len :=
    (Nat.zero_add _).le
  have hclean : (EventStream.mk [ev] 0 false).CleanPiece ev.len := by
    show ev.extPre ≤ 0 + ev.len ∧ 0 + 1 ≠ ev.len
    omega
  have hone : 1 ≤ ev.len := by omega
  obtain ⟨wb', hsend, -⟩ := send_of_clean rfl hone hlen hroom hclean
  have hadvance : (EventStream.mk [ev] 0 false).advance ev.len
      = ⟨[], 0, false⟩ := if_pos (Nat.le_add_left _ _)
  refine ⟨⟨hone, ?_, hroom, fun _ _ _ => trivial⟩, wb', ?_⟩
  · rw [remaining_of_cons rfl hin]
    exact le_rfl
  · rw [sendAll_cons hsend, hadvance]
    rfl

/-- A notification of two lines. -/
def twoLines : Event where
  name := bytes "note"
  content := .string [97, 10, 98]
  fits := by decide

/-- **Of two lines only the first is received.** -/
theorem twoLines_not_received :
    ¬ ∀ (s s' : EventStream) (calls : List (Call (64 * 1024)))
      (wbs : List (Buffer (64 * 1024))), s.pos = 0 → s.Asked calls →
      s.sendAll calls = .ok (s', wbs) → s'.queue = [] →
      (∀ ev ∈ s.queue, OneLine ev.name) →
      decode (List.zipWith written calls wbs).flatten
        = s.queue.map Event.message := by
  intro h
  have hroom : twoLines.len ≤ (Buffer.empty (64 * 1024)).wleft := by decide
  obtain ⟨hasked, wb', hall⟩ := sendAll_alone twoLines hroom
  have hreceived := h _ _ _ _ rfl hasked hall rfl (by decide)
  have hin : (EventStream.mk [twoLines] 0 false).Inside := Nat.succ_pos _
  have hwritten := sendAll_owed hin hasked hall
  have hframe : (EventStream.mk [twoLines] 0 false).owed = twoLines.frame :=
    List.append_nil _
  rw [hframe] at hwritten
  rw [← List.append_nil (List.flatten _),
    show ([] : Bytes) = owed ⟨[], 0, false⟩ from rfl, hwritten] at hreceived
  revert hreceived
  decide +kernel

end EventStream
