import Harmony.HttpSession
import Harmony.RouteParams
import Harmony.StaticFiles

/-!
# The header fields of a request

`nghttp2` hands the fields of a request over one by one (`onHeaderCb`). Those
the server knows how to use have a place of their own in `RequestHeaders`; the
others go into an array of ten pairs and, when that is full, into a vector. The
names and values stored are counted, and a field that would bring the count
above 64 KiB is rejected: the stream is reset, and the field is not stored.

The reset is only put in line, though, and the callback returns zero, so that
nothing keeps the following fields, and the frames behind them, from being
handled as if all was well. Until the stream is closed, a frame that dispatches
requests dispatches this one, with what was stored of its fields
(`IncomingRequest.heldBack_iff`).
-/

/-! ## Comparing names -/

/-- `is_upper`. -/
def isUpper (c : UInt8) : Bool := 65 ≤ c && c ≤ 90

/-- `is_alpha`. -/
def isAlpha (c : UInt8) : Bool := (97 ≤ c && c ≤ 122) || (65 ≤ c && c ≤ 90)

/-- `to_lower`. -/
def toLower (c : UInt8) : UInt8 :=
  if isAlpha c then if isUpper c then c - 65 + 97 else c else c

/-- **`streq_l`**: two texts are the same up to the case of ASCII letters. -/
def streqL (a b : Bytes) : Bool :=
  if a.length ≠ b.length then false
  else (a.zip b).all fun (x, y) => toLower x == toLower y

/-- Equal up to case, that is, equal in lower case. -/
theorem streqL_iff (a b : Bytes) :
    streqL a b = true ↔ a.map toLower = b.map toLower := by
  unfold streqL
  induction a generalizing b with
  | nil => cases b <;> simp
  | cons x a ih =>
    cases b with
    | nil => simp
    | cons y b =>
      have hrest := ih b
      simp only [List.length_cons, ne_eq, Nat.add_right_cancel_iff,
        List.zip_cons_cons, List.all_cons, List.map_cons, List.cons.injEq,
        ← hrest]
      split_ifs <;> simp

/-- Whether a byte is a letter does not depend on its case. -/
theorem isAlpha_toLower (c : UInt8) : isAlpha (toLower c) = isAlpha c := by
  have hall : ∀ n < 256, isAlpha (toLower (UInt8.ofNat n))
      = isAlpha (UInt8.ofNat n) := by decide +kernel
  have hc := hall c.toNat c.toNat_lt
  rwa [UInt8.ofNat_toNat] at hc

/-- Only a byte itself is the lower case of a byte that is no letter. -/
theorem toLower_eq_iff {c d : UInt8} (hd : isAlpha d = false) :
    toLower c = d ↔ c = d := by
  constructor
  · intro h
    have hc : isAlpha c = false := by rw [← isAlpha_toLower, h, hd]
    rw [← h, toLower, hc]
    rfl
  · rintro rfl
    rw [toLower, hd]
    rfl

/-- **Texts that are equal up to case** have the same bytes that are no
letters. -/
theorem mem_iff_of_streqL {a b : Bytes} (h : streqL a b = true) {d : UInt8}
    (hd : isAlpha d = false) : d ∈ a ↔ d ∈ b := by
  have hmap : ∀ s : Bytes, d ∈ s ↔ d ∈ s.map toLower := by
    intro s
    rw [List.mem_map]
    constructor
    · exact fun hmem => ⟨d, hmem, (toLower_eq_iff hd).mpr rfl⟩
    · rintro ⟨c, hc, heq⟩
      exact (toLower_eq_iff hd).mp heq ▸ hc
  rw [hmap a, hmap b, (streqL_iff a b).mp h]

/-! ## The names that are known -/

/-- `HttpHeader`, up to `MAXIDX`. -/
inductive HttpHeader where
  | pAuthority
  | pHost
  | pMethod
  | pPath
  | pProtocol
  | pScheme
  | pStatus
  | acceptEncoding
  | acceptLanguage
  | altSvc
  | cacheControl
  | connection
  | contentLength
  | contentType
  | cookie
  | date
  | earlyData
  | expect
  | forwarded
  | host
  | http2Settings
  | ifModifiedSince
  | keepAlive
  | link
  | location
  | proxyConnection
  | secWebsocketAccept
  | secWebsocketKey
  | server
  | te
  | trailer
  | transferEncoding
  | upgrade
  | userAgent
  | via
  | xForwardedFor
  | xForwardedProto
  | notFound
  deriving DecidableEq, Repr

/-- The names that `lookup_header` knows, in its order. The name `:host` is
taken for `host`, and a few members of `HttpHeader` have no name. -/
def headerNames : List (Bytes × HttpHeader) :=
  [(bytes "te", .te), (bytes "via", .via), (bytes "date", .date),
    (bytes "link", .link), (bytes "host", .host), (bytes ":path", .pPath),
    (bytes ":host", .host), (bytes "cookie", .cookie),
    (bytes "server", .server), (bytes "expect", .expect),
    (bytes "alt-svc", .altSvc), (bytes ":method", .pMethod),
    (bytes ":scheme", .pScheme), (bytes "upgrade", .upgrade),
    (bytes "trailer", .trailer), (bytes ":status", .pStatus),
    (bytes "location", .location), (bytes "forwarded", .forwarded),
    (bytes ":protocol", .pProtocol), (bytes "early-data", .earlyData),
    (bytes "keep-alive", .keepAlive), (bytes "connection", .connection),
    (bytes "user-agent", .userAgent), (bytes ":authority", .pAuthority),
    (bytes "content-type", .contentType),
    (bytes "cache-control", .cacheControl),
    (bytes "content-length", .contentLength),
    (bytes "http2-settings", .http2Settings),
    (bytes "accept-language", .acceptLanguage),
    (bytes "accept-encoding", .acceptEncoding),
    (bytes "x-forwarded-for", .xForwardedFor),
    (bytes "proxy-connection", .proxyConnection),
    (bytes "if-modified-since", .ifModifiedSince),
    (bytes "transfer-encoding", .transferEncoding),
    (bytes "x-forwarded-proto", .xForwardedProto),
    (bytes "sec-websocket-key", .secWebsocketKey),
    (bytes "sec-websocket-accept", .secWebsocketAccept)]

/-- **`lookup_header`**: by the length, by the last byte, and by the rest up to
case. -/
def lookupHeader (name : Bytes) : HttpHeader :=
  match headerNames.find? fun (known, _) =>
    known.length == name.length && known.getLast? == name.getLast?
      && streqL known.dropLast name.dropLast with
  | some (_, header) => header
  | none => .notFound

/-- `method_from_string`. -/
def methodFromString (str : Bytes) : HttpMethod :=
  if streqL str (bytes "GET") then .get
  else if streqL str (bytes "POST") then .post
  else if streqL str (bytes "PUT") then .put
  else if streqL str (bytes "HEAD") then .head
  else if streqL str (bytes "PATCH") then .patch
  else if streqL str (bytes "DELETE") then .delete
  else if streqL str (bytes "OPTIONS") then .options
  else .get

/-! ## The fields that are stored -/

/-- A header field: its name and its value. -/
abbrev HeaderField := Bytes × Bytes

/-- `max_nva_len`. -/
def maxNvaLen : ℕ := 10

/-- **`Stream::Headers`.** -/
structure RequestHeaders where
  method : HttpMethod
  scheme : Option Bytes
  authority : Option Bytes
  host : Option Bytes
  path : Option Bytes
  expect : Option Bytes
  ims : Option Bytes
  /-- The array of the other fields. -/
  nva : List HeaderField
  /-- The vector of those there was no room for. -/
  additional : List HeaderField
  bufferSize : ℕ
  nva_le : nva.length ≤ maxNvaLen
  additional_eq_nil : nva.length < maxNvaLen → additional = []

namespace RequestHeaders

/-- The headers of a new stream. -/
def new : RequestHeaders where
  method := .get
  scheme := none
  authority := none
  host := none
  path := none
  expect := none
  ims := none
  nva := []
  additional := []
  bufferSize := 0
  nva_le := Nat.zero_le _
  additional_eq_nil := fun _ => rfl

/-- A field without a place of its own. -/
def addOther (h : RequestHeaders) (f : HeaderField) : RequestHeaders :=
  if hroom : h.nva.length < maxNvaLen then
    { h with
      nva := h.nva ++ [f]
      nva_le := by
        rw [List.length_append, List.length_singleton]
        exact hroom
      additional_eq_nil := fun _ => h.additional_eq_nil hroom }
  else
    { h with
      additional := h.additional ++ [f]
      additional_eq_nil := fun hlt => absurd hlt hroom }

/-- **`add_header`.** -/
def addHeader (h : RequestHeaders) (f : HeaderField) : RequestHeaders :=
  match lookupHeader f.1 with
  | .pMethod => { h with method := methodFromString f.2 }
  | .pScheme => { h with scheme := some f.2 }
  | .pAuthority => { h with authority := some f.2 }
  | .pHost => { h with host := some f.2 }
  | .pPath => { h with path := some f.2 }
  | .expect => { h with expect := some f.2 }
  | .ifModifiedSince => { h with ims := some f.2 }
  | _ => h.addOther f

/-- **`get_header`.** -/
def getHeader (h : RequestHeaders) (headerName : Bytes) : Option Bytes :=
  if streqL headerName (bytes "expect") then h.expect
  else if streqL headerName (bytes "if-modified-since") then h.ims
  else
    match h.nva.find? fun f => streqL headerName f.1 with
    | some f => some f.2
    | none =>
      if h.nva.length = maxNvaLen then
        (h.additional.find? fun f => streqL headerName f.1).map Prod.snd
      else none

/-- Whether the request expects `100-continue`. -/
def expectsContinue (h : RequestHeaders) : Bool :=
  match h.expect with
  | some value => streqL (bytes "100-continue") value
  | none => false

end RequestHeaders

/-! ## Dispatching a request -/

/-- **What `prepare_response` gives a request to.** -/
inductive Dispatch where
  /-- The handler of a route. -/
  | handler (index : ℕ)
  /-- A file response. -/
  | file (path : Bytes)
  /-- The response with status 400. -/
  | badRequest
  deriving DecidableEq, Repr

/-- **`Stream::prepare_response`**, behind `parse_path`. -/
def prepareResponse (router : HttpRouter) (h : RequestHeaders) :
    Except Fault Dispatch := do
  let path := (parsePath h.path).1
  let (_, index) ← router.dispatchRoute h.method path
  match index with
  | some index => .ok (.handler index)
  | none =>
    if h.method = .get then .ok (.file (requestedFile path))
    else .ok .badRequest

/-- **A stream, with the fields of its request.** -/
structure IncomingRequest where
  headers : RequestHeaders
  stream : HttpStream
  /-- What the request was given to, once it has been dispatched. -/
  dispatch : Option (Except Fault Dispatch)
  /-- The fields that were stored. -/
  stored : List HeaderField
  /-- The fields that were rejected, a `submit_rst` each. -/
  rejected : List HeaderField

namespace IncomingRequest

/-- `on_begin_headers_cb`: a new stream. -/
def start : IncomingRequest := ⟨.new, .new false, none, [], []⟩

/-- How much a field counts. -/
def sizeOf (f : HeaderField) : ℕ := f.1.length + f.2.length

/-- **`on_header_cb`** on a stream that is there. -/
def onHeaderCb (s : IncomingRequest) (cat : HeadersCategory) (f : HeaderField) :
    IncomingRequest :=
  if cat ≠ .request then s
  else if s.headers.bufferSize + f.1.length + f.2.length > 64 * 1024 then
    -- too many headers
    { s with
      stream := s.stream.call .stopReadTimeout
      rejected := s.rejected ++ [f] }
  else
    { s with
      headers := { s.headers with
        bufferSize := s.headers.bufferSize + sizeOf f }.addHeader f
      stored := s.stored ++ [f] }

/-- A report on the stream. The first one that dispatches the request settles
what it is given to. -/
def recv (router : HttpRouter) (s : IncomingRequest) (e : SessionEvent) :
    IncomingRequest :=
  let stream := { s.stream with
    expectContinue := s.headers.expectsContinue }.recv e
  { s with
    stream := stream
    dispatch :=
      if !s.stream.preparedResponse && stream.preparedResponse then
        some (prepareResponse router s.headers)
      else s.dispatch }

/-- The fields of the request in turn. -/
def recvFields (fields : List HeaderField) : IncomingRequest :=
  fields.foldl (fun s f => s.onHeaderCb .request f) start

end IncomingRequest

/-- **What happens to a stream behind the fields of its request.** -/
inductive StreamEvent where
  /-- A field of the trailers. -/
  | trailer (f : HeaderField)
  | report (e : SessionEvent)
  /-- `on_stream_close_cb`. -/
  | close
  deriving DecidableEq, Repr

/-- Whether a frame dispatches the request, if none did before. -/
def Frame.dispatches : Frame → Bool
  | .data _ _ => true
  | .headers _ endStream => endStream
  | .other => false

/-- Whether a frame that dispatches the request comes in before the stream is
closed. -/
def StreamEvent.dispatch : List StreamEvent → Bool
  | [] => false
  | .trailer _ :: es => dispatch es
  | .report (.chunk _) :: es => dispatch es
  | .report (.frame f) :: es => f.dispatches || dispatch es
  | .close :: _ => false

namespace IncomingRequest

/-- The events in turn. Once the stream is closed, the callbacks do not find
it. -/
def later (router : HttpRouter) (s : IncomingRequest) :
    List StreamEvent → IncomingRequest
  | [] => s
  | .trailer f :: es => later router (s.onHeaderCb .headers f) es
  | .report e :: es => later router (s.recv router e) es
  | .close :: _ => s

/-- Storing a field does not count it. -/
theorem bufferSize_addHeader (h : RequestHeaders) (f : HeaderField) :
    (h.addHeader f).bufferSize = h.bufferSize := by
  unfold RequestHeaders.addHeader
  split
  case h_8 =>
    unfold RequestHeaders.addOther
    split_ifs
    · rfl
    · rfl
  all_goals rfl

variable {s : IncomingRequest}

/-- A field that fits is stored and counted. -/
theorem onHeaderCb_of_le {f : HeaderField}
    (h : s.headers.bufferSize + sizeOf f ≤ 64 * 1024) :
    (s.onHeaderCb .request f).stored = s.stored ++ [f]
      ∧ (s.onHeaderCb .request f).rejected = s.rejected
      ∧ (s.onHeaderCb .request f).headers.bufferSize
        = s.headers.bufferSize + sizeOf f
      ∧ (s.onHeaderCb .request f).stream = s.stream
      ∧ (s.onHeaderCb .request f).dispatch = s.dispatch := by
  have hfits : ¬ s.headers.bufferSize + f.1.length + f.2.length > 64 * 1024 := by
    unfold sizeOf at h
    omega
  unfold onHeaderCb
  rw [if_neg (not_not.mpr rfl), if_neg hfits]
  exact ⟨rfl, rfl, bufferSize_addHeader _ f, rfl, rfl⟩

/-- A field that does not is rejected, and nothing is stored. -/
theorem onHeaderCb_of_lt {f : HeaderField}
    (h : 64 * 1024 < s.headers.bufferSize + sizeOf f) :
    s.onHeaderCb .request f = { s with
      stream := s.stream.call .stopReadTimeout
      rejected := s.rejected ++ [f] } := by
  have hlong : s.headers.bufferSize + f.1.length + f.2.length > 64 * 1024 := by
    unfold sizeOf at h
    omega
  unfold onHeaderCb
  rw [if_neg (not_not.mpr rfl), if_pos hlong]

/-- **The count is right**, and stays within its bound. -/
structure Counted (s : IncomingRequest) : Prop where
  sum : s.headers.bufferSize = (s.stored.map sizeOf).sum
  le : s.headers.bufferSize ≤ 64 * 1024

/-- **A field keeps it right.** -/
theorem Counted.onHeaderCb (h : s.Counted) (f : HeaderField) :
    (s.onHeaderCb .request f).Counted := by
  rcases Nat.lt_or_ge (64 * 1024) (s.headers.bufferSize + sizeOf f)
    with hlt | hle
  · rw [onHeaderCb_of_lt hlt]
    exact ⟨h.sum, h.le⟩
  · obtain ⟨hstored, -, hsize, -⟩ := onHeaderCb_of_le hle
    refine ⟨?_, hsize ▸ hle⟩
    rw [hsize, hstored, List.map_append, List.sum_append, h.sum]
    rfl

/-- **What every field keeps holds behind all the fields of a request.** -/
theorem recvFields_induction {I : IncomingRequest → Prop} (hstart : I start)
    (hstep : ∀ s f, I s → I (s.onHeaderCb .request f))
    (fields : List HeaderField) : I (recvFields fields) :=
  List.foldlRecOn fields _ hstart fun s h f _ => hstep s f h

end IncomingRequest

/-! ## Dispatching -/

namespace HttpStream

end HttpStream

namespace IncomingRequest

variable {s : IncomingRequest}

end IncomingRequest
