import Harmony.SessionWrite
import Harmony.ReadTimer

/-!
# The event loop of a session

A session lives off the callbacks of its event loop: the socket is readable or
writable, or a timer has run out. Until the TLS handshake is done both
directions are `tls_handshake`; after it, reading feeds nghttp2 and ends with
writing, and writing empties what nghttp2 has. A callback that returns -1
destroys the session, and its watchers with it.

The write watcher is on only while something waits to be written. That is
delicate: what nghttp2 is to send arises while frames are received, in the
callbacks of timers, and at any time from handlers that answer late, and
where it arises the watcher has to be started or a write to follow.
`HttpSession.Sound` says that it always is, over all runs and whatever OpenSSL
and nghttp2 answer, and besides that nothing is sent to a client with which
HTTP/2 has not been agreed upon. What waits is then sent as soon as the client
takes it (`HttpSession.flushes`). The timer of the settings runs from their
being sent until the client acknowledges them
(`HttpSession.settings_timer_of_run`).
-/

/-! ## What is asked of a connection -/

/-- The bits of banned ciphers, `0x0000` to `0x00FF`. -/
def bannedLow : List ℕ :=
  [0xFF, 0xFF, 0xFF, 0xCF, 0xFF, 0xFF, 0xFF, 0xFF, 0x7F, 0x00, 0x00, 0x00, 0x80,
    0x3F, 0x00, 0x00, 0xF0, 0xFF, 0xFF, 0x3F, 0xF3, 0xF3, 0xFF, 0xFF, 0x3F, 0x00,
    0x00, 0x00, 0x00, 0x00, 0x00, 0x80]

/-- The bits of banned ciphers, `0xC000` to `0xC0FF`. -/
def bannedHigh : List ℕ :=
  [0xFE, 0xFF, 0xFF, 0xFF, 0xFF, 0x67, 0xFE, 0xFF, 0xFF, 0xFF, 0x33, 0xCF, 0xFC,
    0xCF, 0xFF, 0xCF, 0x3C, 0xF3, 0xFC, 0x3F, 0x33, 0x03, 0x00, 0x00, 0x00, 0x00,
    0x00, 0x00, 0x00, 0x00, 0x00, 0x00]

/-- A bit of such a table. -/
def bannedBit (table : List ℕ) (id : ℕ) : Bool :=
  (table.getD (id % 256 / 8) 0).testBit (id % 8)

/-- **`check_http2_cipher_block_list`** on what `SSL_CIPHER_get_id` answers. The
mask of the macro is applied to the result, where it changes nothing, and not to
the identifier. -/
def checkHttp2CipherBlockList (id : ℕ) : Bool :=
  (id ≤ 0x00FF && bannedBit bannedLow id)
    || (0xC000 ≤ id && id ≤ 0xC0FF && bannedBit bannedHigh id)

/-- `TLS1_2_VERSION`. -/
def tls12Version : ℕ := 0x0303

/-- **`check_http2_requirements`.** -/
def checkHttp2Requirements (version id : ℕ) : Bool :=
  tls12Version ≤ version && !checkHttp2CipherBlockList id

/-- **`check_h2_is_selected`.** -/
def checkH2IsSelected (proto : Bytes) : Bool :=
  proto == bytes "h2" || proto == bytes "h2-14" || proto == bytes "h2-16"

/-- **`HttpSession::verify_npn`**: the protocol of NPN, or else that of ALPN. -/
def verifyNpn (npn alpn : Option Bytes) : Bool :=
  match npn.or alpn with
  | none => false
  | some proto => checkH2IsSelected proto

/-! ## What the libraries answer -/

/-- What a call of `write` is answered: by `ssl_write`, and at its end by
`nghttp2_session_want_read` and `nghttp2_session_want_write`. -/
structure WriteAnswers where
  ssl : List SslAnswer
  wantRead : Bool
  wantWrite : Bool
  deriving DecidableEq, Repr

/-- What a handshake has agreed upon. -/
structure Agreement where
  npn : Option Bytes
  alpn : Option Bytes
  version : ℕ
  cipherId : ℕ
  deriving DecidableEq, Repr

/-- HTTP/2, over TLS that does for it. -/
def Agreement.Approved (a : Agreement) : Prop :=
  verifyNpn a.npn a.alpn = true
    ∧ checkHttp2Requirements a.version a.cipherId = true

/-- **A handshake that is done.** -/
structure Handshaken (N : ℕ) extends Agreement where
  /-- Whether `nghttp2_session_server_new` succeeds. -/
  sessionNew : Bool
  /-- Whether `nghttp2_submit_settings` succeeds. -/
  submitted : Bool
  /-- The SETTINGS frame, as nghttp2 serialises it. -/
  settings : Bytes
  settings_ne_nil : settings ≠ []
  /-- What `nghttp2_session_terminate_session` gives to be sent. -/
  goaway : List (Item N)
  write : WriteAnswers

/-- What `SSL_do_handshake` answers. -/
inductive HandshakeAnswer (N : ℕ) where
  | wantRead
  | wantWrite
  | failed
  | done (d : Handshaken N)

/-- **What `nghttp2_session_mem_recv` does** with a chunk that was read, in its
callbacks and by itself. -/
structure MemRecv (N : ℕ) where
  /-- What is to be sent on account of it. -/
  items : List (Item N)
  /-- Whether a stream has started the write watcher. -/
  starts : Bool
  /-- Whether the acknowledgement of the settings was in it. -/
  acks : Bool
  /-- Whether it returns no error. -/
  ok : Bool

/-- How a series of reads ends. -/
inductive ReadEnd where
  /-- `SSL_ERROR_WANT_READ`, for which `ssl_read` writes. -/
  | wantRead (w : WriteAnswers)
  | failed
  deriving DecidableEq, Repr

/-- **What a readable or writable socket leads to**, in either phase of the
session. -/
inductive CallAnswers (N : ℕ) where
  | handshake (h : HandshakeAnswer N)
  | read (chunks : List (MemRecv N)) (last : ReadEnd)
  | write (w : WriteAnswers)

/-- `ev_timer_start`. -/
def EvTimer.start (t : EvTimer) : EvTimer := { t with active := true }

/-- The loop finds that a timer that does not repeat has run out. -/
def EvTimer.expireOnce (_ : EvTimer) : EvTimer := ⟨false, true⟩

/-- It is active, or has run out without having been called for. -/
def EvTimer.Running (t : EvTimer) : Prop :=
  t.active = true ∨ t.pending = true

/-- A callback of such a timer is about to be called. -/
def EvTimer.called (t : EvTimer) : EvTimer := { t with pending := false }

/-! ## The session -/

/-- **A session**, as far as its event loop goes. -/
structure HttpSession (N : ℕ) where
  /-- Whether `read_func_` and `write_func_` are `read` and `write`, and no
  longer `tls_handshake`. -/
  handshaken : Bool
  /-- What is to be sent. -/
  out : WriteSide N
  /-- Whether `rev_` is active. -/
  rev : Bool
  /-- Whether `wev_` is active. -/
  wev : Bool
  settingsTimer : EvTimer
  /-- Whether the session has been destroyed. -/
  removed : Bool
  /-- Everything nghttp2 was given to send so far. -/
  given : List (Item N)
  /-- What the handshake has agreed upon, once it is done. -/
  agreement : Option Agreement
  /-- Whether the client has acknowledged the settings. -/
  acked : Bool
  /-- Whether the timer of the settings has run out. -/
  expired : Bool

namespace HttpSession

variable {N : ℕ}

/-- A new session. -/
def new (N : ℕ) : HttpSession N where
  handshaken := false
  out := .start N
  rev := true
  wev := false
  settingsTimer := .idle
  removed := false
  given := []
  agreement := none
  acked := false
  expired := false

/-- nghttp2 is given something to send. -/
def give (s : HttpSession N) (items : List (Item N)) : HttpSession N :=
  { s with
    out := { s.out with items := s.out.items ++ items }
    given := s.given ++ items }

/-- `start_write`, as `submit_response`, `submit_rst` and the others call it. -/
def startWrite (s : HttpSession N) : HttpSession N := { s with wev := true }

/-- What `on_frame_send_cb` does to the timer of the settings. They are the
first that nghttp2 sends. -/
def settingsSent (s : HttpSession N) (out : WriteSide N) : EvTimer :=
  if s.out.emitted.isEmpty && !out.emitted.isEmpty then s.settingsTimer.start
  else s.settingsTimer

/-- **`HttpSession::write`**, with what it returns. -/
def write (s : HttpSession N) (w : WriteAnswers) : ℤ × HttpSession N :=
  let (how, out) := s.out.write w.ssl
  let s := { s with out := out, settingsTimer := s.settingsSent out }
  match how with
  | .stopped =>
    (if w.wantRead = false ∧ w.wantWrite = false then -1 else 0,
      { s with wev := false })
  | .blocked => (0, { s with wev := true })
  | .failed => (-1, s)

/-- **`HttpSession::connection_made`.** -/
def connectionMade (s : HttpSession N) (d : Handshaken N) : ℤ × HttpSession N :=
  if d.sessionNew = false then (-1, s)
  else if d.submitted = false then (-1, s)
  else
    let s := s.give [.control d.settings d.settings_ne_nil]
    if checkHttp2Requirements d.version d.cipherId = false then
      -- the session is terminated, and destroyed before it can say so
      (-1, s.give d.goaway)
    else s.write d.write

/-- **`HttpSession::tls_handshake`.** -/
def tlsHandshake (s : HttpSession N) (h : HandshakeAnswer N) :
    ℤ × HttpSession N :=
  let s := { s with wev := false }
  match h with
  | .wantRead => (0, s)
  | .wantWrite => (0, { s with wev := true })
  | .failed => (-1, s)
  | .done d =>
    let s := { s with agreement := some d.toAgreement }
    if verifyNpn d.npn d.alpn = false then (-1, s)
    else
      let (rv, s) := { s with handshaken := true }.connectionMade d
      (if rv ≠ 0 then -1 else 0, s)

/-- What `nghttp2_session_mem_recv` leaves. -/
def receive (s : HttpSession N) (r : MemRecv N) : HttpSession N :=
  let s := s.give r.items
  { s with
    wev := s.wev || r.starts
    settingsTimer := if r.acks then s.settingsTimer.stop else s.settingsTimer
    acked := s.acked || r.acks }

/-- **`HttpSession::read`.** -/
def read (s : HttpSession N) : List (MemRecv N) → ReadEnd → ℤ × HttpSession N
  | [], .wantRead w => s.write w
  | [], .failed => (-1, s)
  | r :: rs, last =>
    if r.ok then (s.receive r).read rs last else (-1, s.receive r)

/-- The destructor, behind `remove_self`. -/
def removeSelf (s : HttpSession N) : HttpSession N :=
  { s with
    settingsTimer := s.settingsTimer.stop
    rev := false
    wev := false
    removed := true }

/-- What a callback makes of the value that was returned. -/
def conclude : ℤ × HttpSession N → HttpSession N
  | (rv, s) => if rv = -1 then s.removeSelf else s

/-- **What happens to a session.** -/
inductive LoopEvent (N : ℕ) where
  /-- `read_cb`. -/
  | readable (a : CallAnswers N)
  /-- `write_cb`. -/
  | writable (a : CallAnswers N)
  /-- The timer of the settings runs out. -/
  | expire
  /-- `settings_timeout_cb`; the items are those of
  `nghttp2_session_terminate_session`. -/
  | settingsTimeout (goaway : List (Item N)) (w : WriteAnswers)
  /-- `Stream::timeout_cb`; the items are those of `submit_rst`. -/
  | streamTimeout (rst : List (Item N)) (w : WriteAnswers)
  /-- A handler goes on outside these callbacks, and a stream has something to
  send. -/
  | submit (items : List (Item N))

/-- **One event**, if its watcher is active. -/
def step (s : HttpSession N) : LoopEvent N → Except Unit (HttpSession N)
  | .readable a =>
    if s.rev = false then .error ()
    else
      match a, s.handshaken with
      | .handshake h, false => .ok (conclude (s.tlsHandshake h))
      | .read chunks last, true => .ok (conclude (s.read chunks last))
      | _, _ => .error ()
  | .writable a =>
    if s.wev = false then .error ()
    else
      match a, s.handshaken with
      | .handshake h, false => .ok (conclude (s.tlsHandshake h))
      | .write w, true => .ok (conclude (s.write w))
      | _, _ => .error ()
  | .expire =>
    if s.settingsTimer.active = false then .error ()
    else .ok { s with settingsTimer := s.settingsTimer.expireOnce }
  | .settingsTimeout goaway w =>
    if s.settingsTimer.pending = false then .error ()
    else
      let s := { s with settingsTimer := s.settingsTimer.called, expired := true }
      .ok (conclude ((s.give goaway).write w))
  | .streamTimeout rst w =>
    -- streams are there from the handshake on, and as long as the session is
    if s.removed ∨ s.handshaken = false then .error ()
    else .ok (conclude ((s.give rst).startWrite.write w))
  | .submit items =>
    if s.removed ∨ s.handshaken = false then .error ()
    else .ok (s.give items).startWrite

end HttpSession

/-! ## What a write leaves -/

namespace WriteSide

variable {N : ℕ} {all : List (Item N)} {k : WriteSide N}

/-- **Nothing waits to be written.** -/
def Idle (k : WriteSide N) : Prop :=
  k.wbuf.unread = [] ∧ k.pending = [] ∧ k.items = []

/-- A call of `write` ends with something in the buffer or with nothing
left. -/
theorem Keeps.write_unread (h : k.Keeps all) (hsize : 0 < N)
    (answers : List SslAnswer) :
    (k.write answers).2.wbuf.unread ≠ [] ∨ (k.write answers).2.Idle := by
  have hrefilled : ∀ {k₁ : WriteSide N}, (k₁.wbuf.rleft = 0 →
      k₁.pending = [] ∧ k₁.items = []) → k₁.wbuf.unread ≠ [] ∨ k₁.Idle := by
    intro k₁ hdone
    by_cases hzero : k₁.wbuf.rleft = 0
    · exact .inr ⟨k₁.wbuf.rleft_eq_zero_iff.mp hzero, hdone hzero⟩
    · exact .inl fun hnil => hzero (k₁.wbuf.rleft_eq_zero_iff.mpr hnil)
  induction answers generalizing k with
  | nil =>
    obtain ⟨k₁, hk₁, -, hdone⟩ := h.refill hsize
    rw [WriteSide.write, hk₁]
    dsimp only
    split_ifs
    · exact hrefilled hdone
    · exact hrefilled hdone
  | cons a answers ih =>
    obtain ⟨k₁, hk₁, hkeeps, hdone⟩ := h.refill hsize
    rw [WriteSide.write, hk₁]
    dsimp only
    split_ifs
    · exact hrefilled hdone
    · cases a with
      | wantWrite => exact hrefilled hdone
      | failed => exact hrefilled hdone
      | wrote n =>
        refine ih ⟨?_, hkeeps.items⟩
        show (k₁.sent ++ k₁.wbuf.unread.take n) ++ (k₁.wbuf.drain n).unread
          ++ k₁.pending = wire k₁.emitted
        rw [Buffer.unread_drain, List.append_assoc k₁.sent,
          List.take_append_drop, hkeeps.bytes]

/-- **A call of `write` takes something from nghttp2**, if there ever was
anything. -/
theorem Keeps.emitted_ne_nil (h : k.Keeps all) (hsize : 0 < N)
    (hall : all ≠ []) (answers : List SslAnswer) :
    (k.write answers).2.emitted ≠ [] := by
  have hkeeps := (h.write hsize answers).1
  intro hnone
  have hbytes := hkeeps.bytes
  have hitems := hkeeps.items
  rw [hnone, show wire ([] : List (Item N)) = [] from rfl,
    List.append_eq_nil_iff, List.append_eq_nil_iff] at hbytes
  rw [hnone, List.nil_append] at hitems
  rcases h.write_unread hsize answers with hunread | ⟨-, -, hidle⟩
  · exact hunread hbytes.1.2
  · exact hall (hitems.symm.trans hidle)

/-- Refilling sends nothing. -/
theorem sent_fillWb {k' : WriteSide N} (h : k.fillWb = some k') :
    k'.sent = k.sent := by
  have hcopy : ∀ k : WriteSide N, k.copyPending.1.sent = k.sent := fun k => by
    unfold copyPending
    dsimp only
    split_ifs <;> rfl
  induction hitems : k.items.length using Nat.strong_induction_on
    generalizing k with
  | _ n ih =>
  rw [fillWb] at h
  split_ifs at h
  · cases h
    exact hcopy k
  · split at h
    · cases h
    · rename_i r hr
      split_ifs at h with hdata
      · cases h
        exact hcopy k
      · obtain ⟨r', hr', hspec⟩ :=
          memSend_spec k.copyPending.1.wbuf k.copyPending.1.items
        rw [hr] at hr'
        cases hr'
        have hless : r.left.length < n := by
          rw [← hitems, ← items_copyPending k]
          exact hspec.progress hdata
        exact (ih _ hless h rfl).trans (hcopy k)

theorem sent_refill {k' : WriteSide N} (h : k.refill = some k') :
    k'.sent = k.sent := by
  unfold refill at h
  split_ifs at h
  · cases h
    rfl
  · exact sent_fillWb (k := { k with wbuf := k.wbuf.reset }) h

/-- What has been sent is the beginning of what was given. -/
theorem Keeps.length_sent_le (h : k.Keeps all) :
    k.sent.length + k.wbuf.unread.length ≤ (wire all).length := by
  rw [← h.items, wire_append, ← h.bytes, List.length_append, List.length_append,
    List.length_append]
  omega

/-- **If `ssl_write` takes all it is offered, `write` comes to its end.** -/
theorem Keeps.flush (h : k.Keeps all) (hsize : 0 < N) :
    ∃ m, (k.write (List.replicate m (.wrote N))).1 = .stopped := by
  induction hleft : (wire all).length - k.sent.length using
    Nat.strong_induction_on generalizing k with
  | _ left ih =>
  obtain ⟨k₁, hk₁, hkeeps, -⟩ := h.refill hsize
  by_cases hzero : k₁.wbuf.rleft = 0
  · refine ⟨0, ?_⟩
    rw [List.replicate_zero, WriteSide.write, hk₁]
    dsimp only
    rw [if_pos hzero]
  · -- the whole buffer goes
    have hunread : k₁.wbuf.unread.length ≤ N := by
      rw [k₁.wbuf.length_unread]
      exact (Nat.sub_le _ _).trans k₁.wbuf.last_le
    have hpos : 0 < k₁.wbuf.unread.length := by
      rw [k₁.wbuf.length_unread]
      exact Nat.pos_of_ne_zero hzero
    have hsent := sent_refill hk₁
    have hnext : Keeps all { k₁ with
        sent := k₁.sent ++ k₁.wbuf.unread.take N
        wbuf := k₁.wbuf.drain N } := by
      refine ⟨?_, hkeeps.items⟩
      show (k₁.sent ++ k₁.wbuf.unread.take N) ++ (k₁.wbuf.drain N).unread
        ++ k₁.pending = wire k₁.emitted
      rw [Buffer.unread_drain, List.append_assoc k₁.sent, List.take_append_drop,
        hkeeps.bytes]
    have hle := hkeeps.length_sent_le
    obtain ⟨m, hm⟩ := ih _ (by
      rw [← hleft]
      show (wire all).length - (k₁.sent ++ k₁.wbuf.unread.take N).length < _
      rw [List.take_of_length_le hunread, List.length_append, hsent]
      rw [hsent] at hle
      omega) hnext rfl
    refine ⟨m + 1, ?_⟩
    rw [List.replicate_succ, WriteSide.write, hk₁]
    dsimp only
    rw [if_neg hzero]
    exact hm

/-- More to send. -/
theorem Keeps.give (h : k.Keeps all) (items : List (Item N)) :
    Keeps (all ++ items) { k with items := k.items ++ items } := by
  refine ⟨h.bytes, ?_⟩
  show k.emitted ++ (k.items ++ items) = all ++ items
  rw [← List.append_assoc, h.items]

end WriteSide

namespace HttpSession

variable {N : ℕ} {s : HttpSession N}

/-- What a call of `write` changes. -/
theorem write_eq (s : HttpSession N) (w : WriteAnswers) :
    (s.write w).2 = { s with
      out := (s.out.write w.ssl).2
      wev := (s.write w).2.wev
      settingsTimer := s.settingsSent (s.out.write w.ssl).2 } := by
  unfold write
  cases hout : s.out.write w.ssl with
  | mk how out => cases how <;> rfl

/-- What it returns, and when it leaves the watcher on. -/
theorem write_returns (s : HttpSession N) (w : WriteAnswers) :
    ((s.out.write w.ssl).1 = .stopped
        ∧ ((s.write w).1 = -1 ∨ (s.write w).1 = 0))
      ∨ ((s.write w).1 = 0 ∧ (s.write w).2.wev = true)
      ∨ (s.write w).1 = -1 := by
  unfold write
  cases hout : s.out.write w.ssl with
  | mk how out =>
    cases how with
    | stopped =>
      refine .inl ⟨rfl, ?_⟩
      dsimp only
      split_ifs
      · exact .inl rfl
      · exact .inr rfl
    | blocked => exact .inr (.inl ⟨rfl, rfl⟩)
    | failed => exact .inr (.inr rfl)

/-- A write that empties everything. -/
theorem write_of_stopped {w : WriteAnswers}
    (h : (s.out.write w.ssl).1 = .stopped) :
    s.write w = (if w.wantRead = false ∧ w.wantWrite = false then -1 else 0,
      { s with
        out := (s.out.write w.ssl).2
        settingsTimer := s.settingsSent (s.out.write w.ssl).2
        wev := false }) := by
  unfold write
  cases hout : s.out.write w.ssl with
  | mk how out =>
    rw [hout] at h
    cases h
    rfl

/-- Destroying a session takes nothing back. -/
theorem out_conclude (r : ℤ × HttpSession N) : (conclude r).out = r.2.out := by
  rcases r with ⟨rv, s⟩
  rw [conclude]
  split_ifs
  · rfl
  · rfl

/-! ## The three phases -/

/-- **The timer of the settings** was not started as long as nghttp2 has sent
nothing, and from then on it runs until it is acknowledged or called. -/
def Timed (s : HttpSession N) : Prop :=
  (s.out.emitted = [] ∧ s.settingsTimer = .idle ∧ s.acked = false
      ∧ s.expired = false)
    ∨ (s.out.emitted ≠ []
      ∧ (s.settingsTimer.Running ↔ s.acked = false ∧ s.expired = false)
      ∧ (s.settingsTimer.active = true → s.settingsTimer.pending = false))

/-- **HTTP/2 was agreed upon**, over TLS that does for it. -/
def Approved (s : HttpSession N) : Prop :=
  ∃ a, s.agreement = some a ∧ a.Approved

/-- Before the handshake is done. -/
structure Handshaking (s : HttpSession N) : Prop where
  handshaken : s.handshaken = false
  removed : s.removed = false
  rev : s.rev = true
  out : s.out = .start N
  given : s.given = []
  timer : s.settingsTimer = .idle
  acked : s.acked = false
  expired : s.expired = false

/-- Within a callback behind the handshake. -/
structure Busy (s : HttpSession N) : Prop where
  handshaken : s.handshaken = true
  removed : s.removed = false
  rev : s.rev = true
  approved : s.Approved
  order : s.out.Keeps s.given
  given : s.given ≠ []
  timed : s.Timed

/-- Between the callbacks behind the handshake. -/
structure Running (s : HttpSession N) : Prop extends Busy s where
  awake : ¬ s.out.Idle → s.wev = true
  emitted : s.out.emitted ≠ []

/-- Destroyed. -/
structure Gone (s : HttpSession N) : Prop where
  removed : s.removed = true
  rev : s.rev = false
  wev : s.wev = false
  timer : s.settingsTimer = .idle
  order : s.out.Keeps s.given
  approved : s.out.sent ≠ [] → s.Approved

/-- **The invariant.** -/
def Inv (s : HttpSession N) : Prop := s.Handshaking ∨ s.Running ∨ s.Gone

theorem handshaking_new : (new N).Handshaking :=
  ⟨rfl, rfl, rfl, rfl, rfl, rfl, rfl, rfl⟩

/-- What a session that has sent nothing keeps. -/
theorem Handshaking.order (h : s.Handshaking) : s.out.Keeps s.given := by
  rw [h.out, h.given]
  exact ⟨rfl, rfl⟩

theorem Busy.gone (h : s.Busy) : s.removeSelf.Gone :=
  ⟨rfl, rfl, rfl, rfl, h.order, fun _ => h.approved⟩

/-- A session that is destroyed with nothing sent. -/
theorem gone_of_sent (horder : s.out.Keeps s.given) (hsent : s.out.sent = []) :
    s.removeSelf.Gone :=
  ⟨rfl, rfl, rfl, rfl, horder, fun h => absurd hsent h⟩

theorem Busy.give (h : s.Busy) (items : List (Item N)) :
    (s.give items).Busy where
  handshaken := h.handshaken
  removed := h.removed
  rev := h.rev
  approved := h.approved
  order := h.order.give items
  given := List.append_ne_nil_of_left_ne_nil h.given items
  timed := h.timed

theorem Busy.startWrite (h : s.Busy) : s.startWrite.Busy :=
  ⟨h.handshaken, h.removed, h.rev, h.approved, h.order, h.given, h.timed⟩

/-- The first time nghttp2 sends something, the timer is started. -/
theorem Timed.write (h : s.Timed) {out : WriteSide N} (hout : out.emitted ≠ []) :
    Timed { s with out := out, settingsTimer := s.settingsSent out } := by
  have hfilled : out.emitted.isEmpty = false := by
    rw [List.isEmpty_eq_false_iff]
    exact hout
  refine .inr ⟨hout, ?_⟩
  show ((s.settingsSent out).Running ↔ _) ∧ _
  unfold settingsSent
  rcases h with ⟨hnone, htimer, hacked, hexpired⟩ | ⟨hsome, hiff, hone⟩
  · rw [hnone, hfilled, htimer]
    exact ⟨iff_of_true (.inl rfl) ⟨hacked, hexpired⟩, fun _ => rfl⟩
  · have hsome' : s.out.emitted.isEmpty = false := by
      rw [List.isEmpty_eq_false_iff]
      exact hsome
    rw [hsome']
    exact ⟨hiff, hone⟩

/-- **A write ends with the watcher on wherever something waits**, or with the
session to be destroyed. -/
theorem Busy.write (h : s.Busy) (hsize : 0 < N) (w : WriteAnswers) :
    (s.write w).2.Busy ∧ (s.write w).2.out.emitted ≠ []
      ∧ ((s.write w).1 = -1
        ∨ (s.write w).1 = 0
          ∧ (¬ (s.write w).2.out.Idle → (s.write w).2.wev = true)) := by
  have hkeeps := h.order.write hsize w.ssl
  have hemitted := h.order.emitted_ne_nil hsize h.given w.ssl
  have hout : (s.write w).2.out = (s.out.write w.ssl).2 := by rw [write_eq]
  refine ⟨?_, hout ▸ hemitted, ?_⟩
  · rw [write_eq]
    exact ⟨h.handshaken, h.removed, h.rev, h.approved, hkeeps.1, h.given,
      h.timed.write hemitted⟩
  · rcases s.write_returns w with ⟨hstopped, hrv⟩ | ⟨hrv, hwev⟩ | hrv
    · refine hrv.imp_right fun hzero => ⟨hzero, fun hnot => ?_⟩
      rw [hout] at hnot
      exact absurd (hkeeps.2 hstopped) hnot
    · exact .inr ⟨hrv, fun _ => hwev⟩
    · exact .inl hrv

/-- A callback that ends with a write. -/
theorem Busy.conclude_write (h : s.Busy) (hsize : 0 < N) (w : WriteAnswers) :
    (conclude (s.write w)).Inv := by
  obtain ⟨hbusy, hemitted, hrv | ⟨hrv, hawake⟩⟩ := h.write hsize w
  · refine .inr (.inr ?_)
    rw [conclude, if_pos hrv]
    exact hbusy.gone
  · refine .inr (.inl ?_)
    rw [conclude, if_neg (by rw [hrv]; decide)]
    exact ⟨hbusy, hawake, hemitted⟩

/-- What is received leaves the session as it is, but for what it has to send
and the timer. -/
theorem Busy.receive (h : s.Busy) (hemitted : s.out.emitted ≠ [])
    (r : MemRecv N) : (s.receive r).Busy ∧ (s.receive r).out.emitted ≠ [] := by
  have hgive := h.give r.items
  refine ⟨⟨h.handshaken, h.removed, h.rev, h.approved, hgive.order, hgive.given,
    .inr ⟨hemitted, ?_⟩⟩, hemitted⟩
  obtain ⟨hiff, hone⟩ : (s.settingsTimer.Running
      ↔ s.acked = false ∧ s.expired = false)
      ∧ (s.settingsTimer.active = true → s.settingsTimer.pending = false) := by
    rcases h.timed with ⟨hnone, -⟩ | ⟨-, htimed⟩
    · exact absurd hnone hemitted
    · exact htimed
  show ((if r.acks then s.settingsTimer.stop else s.settingsTimer).Running
    ↔ (s.acked || r.acks) = false ∧ s.expired = false)
    ∧ ((if r.acks then s.settingsTimer.stop else s.settingsTimer).active = true →
      (if r.acks then s.settingsTimer.stop else s.settingsTimer).pending = false)
  cases r.acks with
  | false =>
    rw [Bool.or_false]
    exact ⟨hiff, hone⟩
  | true =>
    rw [Bool.or_true]
    refine ⟨iff_of_false ?_ (fun hacked => by cases hacked.1), fun _ => rfl⟩
    rintro (hactive | hpending)
    · cases hactive
    · cases hpending

/-- **Reads end with a write**, or with the session destroyed. -/
theorem Busy.conclude_read (h : s.Busy) (hemitted : s.out.emitted ≠ [])
    (hsize : 0 < N) (chunks : List (MemRecv N)) (last : ReadEnd) :
    (conclude (s.read chunks last)).Inv := by
  induction chunks generalizing s with
  | nil =>
    cases last with
    | wantRead w => exact h.conclude_write hsize w
    | failed => exact .inr (.inr h.gone)
  | cons r chunks ih =>
    obtain ⟨hbusy, hemitted'⟩ := h.receive hemitted r
    rw [HttpSession.read]
    split_ifs
    · exact ih hbusy hemitted'
    · exact .inr (.inr hbusy.gone)

/-- What `tls_handshake` does behind the check of the protocol. -/
def greeted (s : HttpSession N) (d : Handshaken N) : ℤ × HttpSession N :=
  HttpSession.connectionMade { s with
    wev := false
    agreement := some d.toAgreement
    handshaken := true } d

/-- **A connection that is made** ends with the session running or destroyed. -/
theorem Handshaking.connectionMade (h : s.Handshaking) (hsize : 0 < N)
    (d : Handshaken N) (hnpn : verifyNpn d.npn d.alpn = true) :
    (conclude (s.greeted d)).Inv
      ∧ ((s.greeted d).1 = -1 ∨ (s.greeted d).1 = 0) := by
  have hsent : s.out.sent = [] := by
    rw [h.out]
    rfl
  unfold greeted HttpSession.connectionMade
  dsimp only
  split_ifs with _ _ hrequired
  · exact ⟨.inr (.inr (gone_of_sent h.order hsent)), .inl rfl⟩
  · exact ⟨.inr (.inr (gone_of_sent h.order hsent)), .inl rfl⟩
  · exact ⟨.inr (.inr (gone_of_sent ((h.order.give _).give _) hsent)), .inl rfl⟩
  · have hbusy : Busy (HttpSession.give { s with
        wev := false
        agreement := some d.toAgreement
        handshaken := true } [.control d.settings d.settings_ne_nil]) := by
      refine ⟨rfl, h.removed, h.rev, ⟨d.toAgreement, rfl, hnpn,
        (Bool.not_eq_false _).mp hrequired⟩, h.order.give _, ?_, .inl ?_⟩
      · exact List.append_ne_nil_of_right_ne_nil _ (List.cons_ne_nil _ _)
      · refine ⟨?_, h.timer, h.acked, h.expired⟩
        show s.out.emitted = []
        rw [h.out]
        rfl
    exact ⟨hbusy.conclude_write hsize d.write,
      (hbusy.write hsize d.write).2.2.imp_right And.left⟩

/-- **A handshake** ends with the session running or destroyed, or goes on. -/
theorem Handshaking.conclude_tlsHandshake (h : s.Handshaking) (hsize : 0 < N)
    (a : HandshakeAnswer N) : (conclude (s.tlsHandshake a)).Inv := by
  have hsent : s.out.sent = [] := by
    rw [h.out]
    rfl
  have hwaits : ∀ wev, Handshaking { s with wev := wev } := fun _ =>
    ⟨h.handshaken, h.removed, h.rev, h.out, h.given, h.timer, h.acked, h.expired⟩
  cases a with
  | wantRead => exact .inl (hwaits false)
  | wantWrite => exact .inl (hwaits true)
  | failed => exact .inr (.inr (gone_of_sent h.order hsent))
  | done d =>
    rw [tlsHandshake]
    by_cases hnpn : verifyNpn d.npn d.alpn = false
    · rw [if_pos hnpn]
      exact .inr (.inr (gone_of_sent h.order hsent))
    · obtain ⟨hinv, hrv⟩ :=
        h.connectionMade hsize d ((Bool.not_eq_false _).mp hnpn)
      rw [if_neg hnpn]
      show (conclude (if (s.greeted d).1 ≠ 0 then -1 else 0,
        (s.greeted d).2)).Inv
      generalize s.greeted d = r at hinv hrv ⊢
      -- any other value than zero was -1
      rcases r with ⟨rv, t⟩
      rcases hrv with rfl | rfl
      · exact hinv
      · exact hinv

/-- The timer runs out. -/
theorem Running.expire (h : s.Running) (hactive : s.settingsTimer.active = true) :
    Running { s with settingsTimer := s.settingsTimer.expireOnce } := by
  refine ⟨⟨h.handshaken, h.removed, h.rev, h.approved, h.order, h.given,
    .inr ⟨h.emitted, ?_, fun hact => by cases hact⟩⟩, h.awake, h.emitted⟩
  rcases h.timed with ⟨hnone, -⟩ | ⟨-, hiff, -⟩
  · exact absurd hnone h.emitted
  · exact iff_of_true (.inr rfl) (hiff.mp (.inl hactive))

/-- Its callback is called. -/
theorem Running.settingsTimeout (h : s.Running)
    (hpending : s.settingsTimer.pending = true) :
    Busy { s with settingsTimer := s.settingsTimer.called, expired := true } := by
  refine ⟨h.handshaken, h.removed, h.rev, h.approved, h.order, h.given,
    .inr ⟨h.emitted, ?_, fun _ => rfl⟩⟩
  rcases h.timed with ⟨hnone, -⟩ | ⟨-, -, hone⟩
  · exact absurd hnone h.emitted
  · refine iff_of_false ?_ fun hexpired => by cases hexpired.2
    rintro (hactive | hcalled)
    · rw [hone hactive] at hpending
      cases hpending
    · cases hcalled

/-- **Every event keeps the invariant.** -/
theorem Inv.step {s' : HttpSession N} {e : LoopEvent N} (h : s.Inv)
    (hsize : 0 < N) (hstep : s.step e = .ok s') : s'.Inv := by
  unfold HttpSession.step at hstep
  cases e with
  | readable a =>
    dsimp only at hstep
    split_ifs at hstep with hrev
    rcases h with h | h | h
    · rw [h.handshaken] at hstep
      cases a with
      | handshake a =>
        cases hstep
        exact h.conclude_tlsHandshake hsize a
      | read chunks last => cases hstep
      | write w => cases hstep
    · rw [h.handshaken] at hstep
      cases a with
      | handshake a => cases hstep
      | read chunks last =>
        cases hstep
        exact h.toBusy.conclude_read h.emitted hsize chunks last
      | write w => cases hstep
    · exact absurd h.rev hrev
  | writable a =>
    dsimp only at hstep
    split_ifs at hstep with hwev
    rcases h with h | h | h
    · rw [h.handshaken] at hstep
      cases a with
      | handshake a =>
        cases hstep
        exact h.conclude_tlsHandshake hsize a
      | read chunks last => cases hstep
      | write w => cases hstep
    · rw [h.handshaken] at hstep
      cases a with
      | handshake a => cases hstep
      | read chunks last => cases hstep
      | write w =>
        cases hstep
        exact h.toBusy.conclude_write hsize w
    · exact absurd h.wev hwev
  | expire =>
    dsimp only at hstep
    split_ifs at hstep with hactive
    cases hstep
    rcases h with h | h | h
    · exact absurd (by rw [h.timer]; rfl) hactive
    · exact .inr (.inl (h.expire ((Bool.not_eq_false _).mp hactive)))
    · exact absurd (by rw [h.timer]; rfl) hactive
  | settingsTimeout goaway w =>
    dsimp only at hstep
    split_ifs at hstep with hpending
    cases hstep
    rcases h with h | h | h
    · exact absurd (by rw [h.timer]; rfl) hpending
    · exact ((h.settingsTimeout ((Bool.not_eq_false _).mp hpending)).give
        goaway).conclude_write hsize w
    · exact absurd (by rw [h.timer]; rfl) hpending
  | streamTimeout rst w =>
    dsimp only at hstep
    split_ifs at hstep with hthere
    cases hstep
    rcases h with h | h | h
    · exact absurd (.inr h.handshaken) hthere
    · exact ((h.toBusy.give rst).startWrite).conclude_write hsize w
    · exact absurd (.inl h.removed) hthere
  | submit items =>
    dsimp only at hstep
    split_ifs at hstep with hthere
    cases hstep
    rcases h with h | h | h
    · exact absurd (.inr h.handshaken) hthere
    · exact .inr (.inl ⟨(h.toBusy.give items).startWrite, fun _ => rfl,
        h.emitted⟩)
    · exact absurd (.inl h.removed) hthere

/-! ## Runs -/

/-- **What holds of a session** between any two events. -/
structure Sound (s : HttpSession N) : Prop where
  /-- Nothing is lost, repeated or overtaken on the way out. -/
  order : s.out.Keeps s.given
  /-- Where something waits to be written, the write watcher is on. -/
  awake : s.removed = false → ¬ s.out.Idle → s.wev = true
  /-- A session can be read from as long as it is there. -/
  watched : s.rev = !s.removed
  /-- No callback reaches a session that has been destroyed. -/
  gone : s.removed = true → s.wev = false ∧ ¬ s.settingsTimer.Running
  /-- Nothing is sent where HTTP/2 has not been agreed upon. -/
  approved : s.out.sent ≠ [] → s.Approved

theorem idle_not_running : ¬ EvTimer.idle.Running := by
  rintro (h | h)
  · cases h
  · cases h

theorem Inv.sound (h : s.Inv) : s.Sound := by
  rcases h with h | h | h
  · refine ⟨h.order, fun _ hnot => ?_, by rw [h.rev, h.removed]; rfl,
      fun hgone => ?_, fun hsent => ?_⟩
    · rw [h.out] at hnot
      exact absurd ⟨rfl, rfl, rfl⟩ hnot
    · rw [h.removed] at hgone
      cases hgone
    · rw [h.out] at hsent
      exact absurd rfl hsent
  · refine ⟨h.order, fun _ => h.awake, by rw [h.rev, h.removed]; rfl,
      fun hgone => ?_, fun _ => h.approved⟩
    rw [h.removed] at hgone
    cases hgone
  · refine ⟨h.order, fun hthere => ?_, by rw [h.rev, h.removed]; rfl,
      fun _ => ⟨h.wev, by rw [h.timer]; exact idle_not_running⟩, h.approved⟩
    rw [h.removed] at hthere
    cases hthere

theorem inv_of_run (hsize : 0 < N) {es : List (LoopEvent N)}
    (h : Run.exec step (new N) es = .ok s) : s.Inv :=
  Run.invariant_of_step (fun _ _ _ hs hstep => hs.step hsize hstep)
    (.inl handshaking_new) h

/-- **A session is sound in every run**: whatever OpenSSL, nghttp2, the timers
and the handlers do and in whatever order, what waits to be written has the
write watcher on, the bytes go out in order, and nothing goes out before HTTP/2
has been agreed upon. -/
theorem sound_of_run {s : HttpSession (64 * 1024)}
    {es : List (LoopEvent (64 * 1024))}
    (h : Run.exec step (new (64 * 1024)) es = .ok s) : s.Sound :=
  (inv_of_run (by decide) h).sound

/-- A client that agrees upon HTTP/2, takes half of the settings, and
acknowledges them with something that is to be answered. -/
def greeting : List (LoopEvent (64 * 1024)) :=
  [.readable (.handshake .wantRead),
    .readable (.handshake (.done {
      npn := none
      alpn := some (bytes "h2")
      version := 0x0304
      cipherId := 0x03001301
      sessionNew := true
      submitted := true
      settings := [0, 0, 6, 4]
      settings_ne_nil := List.cons_ne_nil _ _
      goaway := []
      write := ⟨[.wrote 2, .wantWrite], true, true⟩ })),
    .readable (.read
      [⟨[.control [7, 7] (List.cons_ne_nil _ _)], false, true, true⟩]
      (.wantRead ⟨[.wantWrite], true, true⟩))]

/-- What can be seen of the session behind it. -/
theorem exec_greeting : (Run.exec step (new (64 * 1024)) greeting).map
    (fun s => (s.removed, s.acked, s.out.wbuf.unread, s.out.sent))
      = .ok (false, true, [6, 4], [0, 0]) := by decide +kernel

theorem sound_of_greeting :
    ∃ s, Run.exec step (new (64 * 1024)) greeting = .ok s ∧ s.Sound := by
  obtain ⟨s, hs, -⟩ := Run.exists_of_map_exec exec_greeting
  exact ⟨s, hs, sound_of_run hs⟩

/-- **What waits is sent as soon as the client takes it.** From wherever a run
has come, if something waits, then `write_cb` can be called, and if `ssl_write`
takes all that it is offered, everything that nghttp2 was ever given has gone
out when it returns; the session is then destroyed exactly if nghttp2 wants
neither to read nor to write. -/
theorem flushes {s : HttpSession (64 * 1024)}
    {es : List (LoopEvent (64 * 1024))}
    (h : Run.exec step (new (64 * 1024)) es = .ok s) (hthere : s.removed = false)
    (hwaits : ¬ s.out.Idle) (wantRead wantWrite : Bool) :
    ∃ m s', s.step (.writable (.write
          ⟨List.replicate m (.wrote (64 * 1024)), wantRead, wantWrite⟩)) = .ok s'
      ∧ s'.out.sent = wire s.given
      ∧ s'.removed = (!wantRead && !wantWrite) := by
  rcases inv_of_run (by decide) h with hs | hs | hs
  · rw [hs.out] at hwaits
    exact absurd ⟨rfl, rfl, rfl⟩ hwaits
  · obtain ⟨m, hm⟩ := hs.order.flush (by decide)
    set w : WriteAnswers :=
      ⟨List.replicate m (.wrote (64 * 1024)), wantRead, wantWrite⟩
    obtain ⟨hkeeps, hdone⟩ := hs.order.write (by decide) w.ssl
    obtain ⟨hunread, hpending, hitems⟩ := hdone hm
    have hsent : (s.out.write w.ssl).2.sent = wire s.given := by
      have hbytes := hkeeps.bytes
      have hall := hkeeps.items
      rw [hunread, hpending, List.append_nil, List.append_nil] at hbytes
      rw [hitems, List.append_nil] at hall
      rw [hbytes, hall]
    have hwrite := write_of_stopped (w := w) hm
    refine ⟨m, conclude (s.write w), ?_, ?_, ?_⟩
    · have hwev : s.wev ≠ false := by rw [hs.awake hwaits]; decide
      unfold HttpSession.step
      dsimp only
      rw [if_neg hwev, hs.handshaken]
    · rw [out_conclude, hwrite]
      exact hsent
    · rw [hwrite]
      cases wantRead with
      | true => exact hs.removed
      | false =>
        cases wantWrite with
        | true => exact hs.removed
        | false => rfl
  · rw [hs.removed] at hthere
    cases hthere

theorem flushes_greeting :
    ∃ s m s', Run.exec step (new (64 * 1024)) greeting = .ok s
      ∧ s.step (.writable (.write
          ⟨List.replicate m (.wrote (64 * 1024)), true, true⟩)) = .ok s'
      ∧ s'.out.sent = wire s.given ∧ s'.removed = false := by
  obtain ⟨s, hs, hsees⟩ := Run.exists_of_map_exec exec_greeting
  simp only [Prod.mk.injEq] at hsees
  have hwaits : ¬ s.out.Idle := fun hidle => by
    rw [hidle.1] at hsees
    cases hsees.2.2.1
  obtain ⟨m, s', hs', hsent, hremoved⟩ := flushes hs hsees.1 hwaits true true
  exact ⟨s, m, s', hs, hs', hsent, hremoved⟩

/-- **The timer of the settings** runs in every run from the end of the
handshake until the client has acknowledged the settings or it has been called,
or the session has been destroyed. So it is never called behind the
acknowledgement, nor twice. -/
theorem settings_timer_of_run {s : HttpSession (64 * 1024)}
    {es : List (LoopEvent (64 * 1024))}
    (h : Run.exec step (new (64 * 1024)) es = .ok s) :
    (s.settingsTimer.Running ↔ s.handshaken = true ∧ s.removed = false
        ∧ s.acked = false ∧ s.expired = false)
      ∧ ∀ goaway w s', s.step (.settingsTimeout goaway w) = .ok s' →
        s.acked = false ∧ s.expired = false := by
  have hiff : s.settingsTimer.Running ↔ s.handshaken = true
      ∧ s.removed = false ∧ s.acked = false ∧ s.expired = false := by
    rcases inv_of_run (by decide) h with hs | hs | hs
    · rw [hs.timer, hs.handshaken]
      exact iff_of_false idle_not_running fun hall => by cases hall.1
    · rw [hs.handshaken, hs.removed]
      rcases hs.timed with ⟨hnone, -⟩ | ⟨-, htimer, -⟩
      · exact absurd hnone hs.emitted
      · rw [htimer]
        exact ⟨fun hall => ⟨rfl, rfl, hall⟩, fun hall => hall.2.2⟩
    · rw [hs.timer, hs.removed]
      exact iff_of_false idle_not_running fun hall => by cases hall.2.1
  refine ⟨hiff, fun goaway w s' hstep => ?_⟩
  rw [step] at hstep
  split_ifs at hstep with hpending
  exact (hiff.mp (.inr ((Bool.not_eq_false _).mp hpending))).2.2

theorem settings_timer_of_greeting :
    ∃ s, Run.exec step (new (64 * 1024)) greeting = .ok s
      ∧ ¬ s.settingsTimer.Running := by
  obtain ⟨s, hs, hsees⟩ := Run.exists_of_map_exec exec_greeting
  simp only [Prod.mk.injEq] at hsees
  refine ⟨s, hs, fun hruns => ?_⟩
  have hacked := ((settings_timer_of_run hs).1.mp hruns).2.2.1
  rw [hsees.2.1] at hacked
  cases hacked

end HttpSession
