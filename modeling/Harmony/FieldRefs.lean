import Harmony.RequestCookie

/-!
# The references to header buffers

The protocol library hands over the name and the value of a field in counted
buffers. `add_header` takes a reference to each buffer it keeps, and the
destructor of `RCBuf` gives them back. The buffers are known by their
addresses here, so that one buffer may come again; what they hold is a
parameter (`text`), and seen through it this is the storing of fields of
`RequestHeaders` (`CountedHeaders.view_addHeader`).

Where a field with a place of its own comes again, as a client may repeat
`expect`, its place is taken over and nobody gives the old reference back.
These are the only ones that are lost (`CountedHeaders.count_incref`), so that
the count comes out right exactly if no place is taken twice
(`balanced_iff`).
-/

/-- **A call of `nghttp2_rcbuf_incref` or `nghttp2_rcbuf_decref`.** -/
inductive RefCall where
  | incref (buffer : ℕ)
  | decref (buffer : ℕ)
  deriving DecidableEq, Repr

/-- **`Stream::Headers::RCBuf`**: the buffers kept, a pair of them for every
field without a place of its own. -/
structure RCBuf where
  scheme : Option ℕ
  authority : Option ℕ
  host : Option ℕ
  path : Option ℕ
  expect : Option ℕ
  ims : Option ℕ
  /-- The array; its length is `nvlen`. -/
  nva : List (ℕ × ℕ)
  additional : List (ℕ × ℕ)
  nva_le : nva.length ≤ maxNvaLen
  additional_eq_nil : nva.length < maxNvaLen → additional = []

namespace RCBuf

/-- The constructor. -/
def new : RCBuf where
  scheme := none
  authority := none
  host := none
  path := none
  expect := none
  ims := none
  nva := []
  additional := []
  nva_le := Nat.zero_le _
  additional_eq_nil := fun _ => rfl

/-- A pair of buffers, into the array or the vector. -/
def addOther (r : RCBuf) (f : ℕ × ℕ) : RCBuf :=
  if hroom : r.nva.length < maxNvaLen then
    { r with
      nva := r.nva ++ [f]
      nva_le := by
        rw [List.length_append, List.length_singleton]
        exact hroom
      additional_eq_nil := fun _ => r.additional_eq_nil hroom }
  else
    { r with
      additional := r.additional ++ [f]
      additional_eq_nil := fun hlt => absurd hlt hroom }

/-- The buffers of pairs, in the order a loop gives them back. -/
def ofPairs (fs : List (ℕ × ℕ)) : List ℕ := fs.flatMap fun f => [f.1, f.2]

/-- The buffers that are given back one by one. -/
def places (r : RCBuf) : List ℕ :=
  r.scheme.toList ++ r.authority.toList ++ r.host.toList ++ r.path.toList
    ++ r.expect.toList ++ r.ims.toList

/-- **The destructor**: the buffers it gives back. -/
def released (r : RCBuf) : List ℕ :=
  r.places ++ ofPairs r.nva
    ++ if r.nva.length = maxNvaLen then ofPairs r.additional else []

/-- What stands in the place of a field. -/
def place (r : RCBuf) : HttpHeader → Option ℕ
  | .pScheme => r.scheme
  | .pAuthority => r.authority
  | .pHost => r.host
  | .pPath => r.path
  | .expect => r.expect
  | .ifModifiedSince => r.ims
  | _ => none

end RCBuf

/-- Whether a field has a place of its own that keeps a buffer. -/
def HttpHeader.hasPlace : HttpHeader → Bool
  | .pScheme => true
  | .pAuthority => true
  | .pHost => true
  | .pPath => true
  | .expect => true
  | .ifModifiedSince => true
  | _ => false

/-- **`Stream::Headers`**, with the references taken and given back so far. -/
structure CountedHeaders where
  method : HttpMethod
  rcbuf : RCBuf
  log : List RefCall

namespace CountedHeaders

variable (text : ℕ → Bytes)

/-- The headers of a new stream. -/
def new : CountedHeaders := ⟨.get, .new, []⟩

/-- **`add_header`** on the addresses of a name and a value. -/
def addHeader (h : CountedHeaders) (f : ℕ × ℕ) : CountedHeaders :=
  let log := h.log ++ [.incref f.2]
  match lookupHeader (text f.1) with
  | .pMethod =>
    { h with
      method := methodFromString (text f.2)
      log := log ++ [.decref f.2] }
  | .pScheme =>
    { h with rcbuf := { h.rcbuf with scheme := some f.2 }, log := log }
  | .pAuthority =>
    { h with rcbuf := { h.rcbuf with authority := some f.2 }, log := log }
  | .pHost => { h with rcbuf := { h.rcbuf with host := some f.2 }, log := log }
  | .pPath => { h with rcbuf := { h.rcbuf with path := some f.2 }, log := log }
  | .expect =>
    { h with rcbuf := { h.rcbuf with expect := some f.2 }, log := log }
  | .ifModifiedSince =>
    { h with rcbuf := { h.rcbuf with ims := some f.2 }, log := log }
  | _ => { h with rcbuf := h.rcbuf.addOther f, log := log ++ [.incref f.1] }

/-- The calls in turn. -/
def addHeaders (h : CountedHeaders) (fs : List (ℕ × ℕ)) : CountedHeaders :=
  fs.foldl (addHeader text) h

/-- All calls up to the end of the destructor. -/
def finalLog (h : CountedHeaders) : List RefCall :=
  h.log ++ h.rcbuf.released.map .decref

/-- **The references come out even**: every buffer is given back as often as
it was taken. -/
def Balanced (log : List RefCall) : Prop :=
  ∀ buffer : ℕ, log.count (.decref buffer) = log.count (.incref buffer)

/-! ## What is stored -/

/-- **What the buffers hold**: the fields of the request. -/
def view (h : CountedHeaders) : RequestHeaders where
  method := h.method
  scheme := h.rcbuf.scheme.map text
  authority := h.rcbuf.authority.map text
  host := h.rcbuf.host.map text
  path := h.rcbuf.path.map text
  expect := h.rcbuf.expect.map text
  ims := h.rcbuf.ims.map text
  nva := h.rcbuf.nva.map (Prod.map text text)
  additional := h.rcbuf.additional.map (Prod.map text text)
  bufferSize := 0
  nva_le := by
    rw [List.length_map]
    exact h.rcbuf.nva_le
  additional_eq_nil := by
    intro hlt
    rw [List.length_map] at hlt
    rw [h.rcbuf.additional_eq_nil hlt, List.map_nil]

/-- A field without a place of its own, seen through its buffers. -/
theorem view_addOther (h : CountedHeaders) (f : ℕ × ℕ) (log : List RefCall) :
    ({ h with rcbuf := h.rcbuf.addOther f, log := log } : CountedHeaders).view
        text
      = (h.view text).addOther (text f.1, text f.2) := by
  have hlen : (h.view text).nva.length = h.rcbuf.nva.length := List.length_map _
  by_cases hroom : h.rcbuf.nva.length < maxNvaLen
  · rw [RCBuf.addOther, dif_pos hroom, RequestHeaders.addOther,
      dif_pos (hlen.trans_lt hroom)]
    simp only [view, List.map_append, List.map_cons, List.map_nil, Prod.map]
  · rw [RCBuf.addOther, dif_neg hroom, RequestHeaders.addOther,
      dif_neg (hlen ▸ hroom)]
    simp only [view, List.map_append, List.map_cons, List.map_nil, Prod.map]

/-- **The counted buffers store what `RequestHeaders` does.** -/
theorem view_addHeader (h : CountedHeaders) (f : ℕ × ℕ) :
    (h.addHeader text f).view text
      = (h.view text).addHeader (text f.1, text f.2) := by
  unfold addHeader RequestHeaders.addHeader
  cases lookupHeader (text f.1)
  case pMethod | pScheme | pAuthority | pHost | pPath | expect
    | ifModifiedSince => rfl
  -- what is left are the fields without a place of their own
  all_goals exact view_addOther text h f _

end CountedHeaders

/-! ## What the destructor gives back -/

namespace RCBuf

theorem ofPairs_append (fs fs' : List (ℕ × ℕ)) :
    ofPairs (fs ++ fs') = ofPairs fs ++ ofPairs fs' := List.flatMap_append

/-- The pairs kept. -/
def others (r : RCBuf) : List (ℕ × ℕ) := r.nva ++ r.additional

theorem others_addOther (r : RCBuf) (f : ℕ × ℕ) :
    (r.addOther f).others = r.others ++ [f] := by
  unfold addOther others
  split_ifs with hroom
  · dsimp only
    rw [r.additional_eq_nil hroom, List.append_nil, List.append_nil]
  · exact (List.append_assoc _ _ _).symm

theorem places_addOther (r : RCBuf) (f : ℕ × ℕ) :
    (r.addOther f).places = r.places := by
  unfold addOther
  split_ifs <;> rfl

/-- **The destructor gives back everything kept**: the vector is empty where
it is not looked at. -/
theorem released_eq (r : RCBuf) :
    r.released = r.places ++ ofPairs r.others := by
  rw [released, List.append_assoc, others, ofPairs_append]
  congr 2
  by_cases hfull : r.nva.length = maxNvaLen
  · exact if_pos hfull
  · rw [if_neg hfull, r.additional_eq_nil (lt_of_le_of_ne r.nva_le hfull)]
    rfl

/-- How often the destructor gives a buffer back. -/
def owed (r : RCBuf) (buffer : ℕ) : ℕ := r.released.count buffer

/-- One more pair is given back, both buffers of it. -/
theorem owed_addOther (r : RCBuf) (f : ℕ × ℕ) (buffer : ℕ) :
    (r.addOther f).owed buffer = r.owed buffer + [f.1, f.2].count buffer := by
  have hpair : ofPairs [f] = [f.1, f.2] := rfl
  rw [owed, owed, released_eq, released_eq, places_addOther, others_addOther,
    ← hpair, ofPairs_append, ← List.append_assoc, List.count_append]

end RCBuf

namespace CountedHeaders

variable (text : ℕ → Bytes)

/-! ## What is lost -/

/-- The buffer whose place a field takes over. -/
def overwritten (h : CountedHeaders) (f : ℕ × ℕ) : Option ℕ :=
  h.rcbuf.place (lookupHeader (text f.1))

/-- **The buffers nobody gives back**, in the order their places are taken
over. -/
def lost (h : CountedHeaders) : List (ℕ × ℕ) → List ℕ
  | [] => []
  | f :: fs => (h.overwritten text f).toList ++ lost (h.addHeader text f) fs

/-- **A call takes as many references as it keeps or gives back**, but for the
one it overwrites. -/
theorem count_addHeader (h : CountedHeaders) (f : ℕ × ℕ) (buffer : ℕ) :
    (h.addHeader text f).log.count (.incref buffer)
        + h.log.count (.decref buffer) + h.rcbuf.owed buffer
      = h.log.count (.incref buffer)
        + (h.addHeader text f).log.count (.decref buffer)
        + (h.addHeader text f).rcbuf.owed buffer
        + (h.overwritten text f).toList.count buffer := by
  unfold addHeader overwritten
  cases lookupHeader (text f.1)
  case pMethod =>
    simp only [RCBuf.place, Option.toList_none, List.count_append,
      List.count_cons, List.count_nil, beq_iff_eq, RefCall.incref.injEq,
      RefCall.decref.injEq, reduceCtorEq, if_false]
    omega
  case pScheme | pAuthority | pHost | pPath | expect | ifModifiedSince =>
    simp only [RCBuf.place, RCBuf.owed, RCBuf.released, RCBuf.places,
      Option.toList_some, List.count_append, List.count_cons, List.count_nil,
      beq_iff_eq, RefCall.incref.injEq, reduceCtorEq, if_false]
    omega
  all_goals
    simp only [RCBuf.place, RCBuf.owed_addOther, Option.toList_none,
      List.count_append, List.count_cons, List.count_nil, beq_iff_eq,
      RefCall.incref.injEq, reduceCtorEq, if_false]
    omega

/-- **What is taken is given back or lost**, over any calls. -/
theorem count_addHeaders (h : CountedHeaders) (fs : List (ℕ × ℕ))
    (buffer : ℕ) :
    (h.addHeaders text fs).log.count (.incref buffer)
        + h.log.count (.decref buffer) + h.rcbuf.owed buffer
      = h.log.count (.incref buffer)
        + (h.addHeaders text fs).log.count (.decref buffer)
        + (h.addHeaders text fs).rcbuf.owed buffer
        + (h.lost text fs).count buffer := by
  induction fs generalizing h with
  | nil =>
    show _ = _ + List.count buffer []
    rw [List.count_nil]
    rfl
  | cons f fs ih =>
    have hstep := h.count_addHeader text f buffer
    have hrest := ih (h.addHeader text f)
    rw [lost, List.count_append]
    show ((h.addHeader text f).addHeaders text fs).log.count _ + _ + _
      = _ + ((h.addHeader text f).addHeaders text fs).log.count _
        + ((h.addHeader text f).addHeaders text fs).rcbuf.owed buffer + _
    omega

theorem count_map_decref (buffers : List ℕ) (buffer : ℕ) :
    (buffers.map RefCall.decref).count (.decref buffer)
        = buffers.count buffer
      ∧ (buffers.map RefCall.decref).count (.incref buffer) = 0 := by
  refine ⟨List.count_map_of_injective buffers RefCall.decref
    (fun _ _ h => RefCall.decref.inj h) buffer, ?_⟩
  rw [List.count_eq_zero, List.mem_map]
  rintro ⟨b, -, hb⟩
  cases hb

/-- **After the destructor**, what was taken and not given back is what was
lost. -/
theorem count_incref (fs : List (ℕ × ℕ)) (buffer : ℕ) :
    (new.addHeaders text fs).finalLog.count (.incref buffer)
      = (new.addHeaders text fs).finalLog.count (.decref buffer)
        + (new.lost text fs).count buffer := by
  have hcount := new.count_addHeaders text fs buffer
  have hreleased := count_map_decref
    (new.addHeaders text fs).rcbuf.released buffer
  have howed : new.rcbuf.owed buffer = 0 := rfl
  have hinc : new.log.count (.incref buffer) = 0 := rfl
  have hdec : new.log.count (.decref buffer) = 0 := rfl
  rw [howed, hinc, hdec, RCBuf.owed] at hcount
  rw [finalLog, List.count_append, List.count_append, hreleased.1, hreleased.2]
  omega

/-! ## Which places are taken twice -/

/-- The places the fields take, in order. -/
def placesOf (fs : List (ℕ × ℕ)) : List HttpHeader :=
  (fs.map fun f => lookupHeader (text f.1)).filter HttpHeader.hasPlace

theorem place_of_not_hasPlace (r : RCBuf) {k : HttpHeader}
    (h : k.hasPlace = false) : r.place k = none := by
  cases k <;> first | rfl | cases h

theorem place_addOther (r : RCBuf) (f : ℕ × ℕ) (k : HttpHeader) :
    (r.addOther f).place k = r.place k := by
  unfold RCBuf.addOther
  split_ifs <;> cases k <;> rfl

/-- **A field takes its own place** and leaves the others. -/
theorem place_addHeader (h : CountedHeaders) (f : ℕ × ℕ) {k : HttpHeader}
    (hk : k.hasPlace = true) :
    (h.addHeader text f).rcbuf.place k
      = if k = lookupHeader (text f.1) then some f.2
        else h.rcbuf.place k := by
  unfold addHeader
  cases hfound : lookupHeader (text f.1)
  case pScheme | pAuthority | pHost | pPath | expect | ifModifiedSince =>
    cases k <;> rfl
  case pMethod =>
    rw [if_neg (by rintro rfl; cases hk)]
  all_goals
    rw [if_neg (by rintro rfl; cases hk)]
    exact place_addOther h.rcbuf f k

/-- **Nothing is lost** where no place is taken twice and none was taken
before. -/
theorem lost_eq_nil_iff (h : CountedHeaders) (fs : List (ℕ × ℕ)) :
    h.lost text fs = []
      ↔ (placesOf text fs).Nodup
        ∧ ∀ k ∈ placesOf text fs, h.rcbuf.place k = none := by
  induction fs generalizing h with
  | nil => exact ⟨fun _ => ⟨List.nodup_nil, by simp [placesOf]⟩, fun _ => rfl⟩
  | cons f fs ih =>
    rw [lost, List.append_eq_nil_iff, Option.toList_eq_nil_iff, overwritten, ih]
    by_cases hplace : (lookupHeader (text f.1)).hasPlace = true
    · have hcons : placesOf text (f :: fs)
          = lookupHeader (text f.1) :: placesOf text fs :=
        List.filter_cons_of_pos hplace
      rw [hcons, List.nodup_cons, List.forall_mem_cons]
      constructor
      · rintro ⟨hnone, hnodup, hrest⟩
        have hnew : lookupHeader (text f.1) ∉ placesOf text fs := by
          intro hmem
          have htaken := hrest _ hmem
          rw [place_addHeader text h f hplace, if_pos rfl] at htaken
          cases htaken
        refine ⟨⟨hnew, hnodup⟩, hnone, fun k hk => ?_⟩
        have hne : k ≠ lookupHeader (text f.1) := fun heq => hnew (heq ▸ hk)
        have hkept := hrest k hk
        rwa [place_addHeader text h f (List.mem_filter.mp hk).2,
          if_neg hne] at hkept
      · rintro ⟨⟨hnew, hnodup⟩, hnone, hrest⟩
        refine ⟨hnone, hnodup, fun k hk => ?_⟩
        have hne : k ≠ lookupHeader (text f.1) := fun heq => hnew (heq ▸ hk)
        rw [place_addHeader text h f (List.mem_filter.mp hk).2, if_neg hne]
        exact hrest k hk
    · have hcons : placesOf text (f :: fs) = placesOf text fs :=
        List.filter_cons_of_neg hplace
      rw [hcons, place_of_not_hasPlace h.rcbuf (Bool.eq_false_iff.mpr hplace)]
      refine (and_iff_right rfl).trans (and_congr_right fun _ => ?_)
      refine forall₂_congr fun k hk => ?_
      rw [place_addHeader text h f (List.mem_filter.mp hk).2, if_neg]
      rintro rfl
      exact hplace (List.mem_filter.mp hk).2

/-- **The references come out even exactly if no place is taken twice.** -/
theorem balanced_iff (fs : List (ℕ × ℕ)) :
    Balanced (new.addHeaders text fs).finalLog
      ↔ (placesOf text fs).Nodup := by
  have hnew : ∀ k ∈ placesOf text fs, new.rcbuf.place k = none := by
    intro k _
    cases k <;> rfl
  rw [← and_iff_left (a := (placesOf text fs).Nodup) hnew,
    ← lost_eq_nil_iff text new fs, List.eq_nil_iff_forall_not_mem]
  refine forall_congr' fun buffer => ?_
  have hcount := count_incref text fs buffer
  rw [← List.count_eq_zero]
  constructor
  · intro heven
    omega
  · intro hnone
    omega

/-- One buffer with the name `expect`, and others with values. -/
def expectText (buffer : ℕ) : Bytes :=
  if buffer = 1 then bytes "expect" else bytes "100-continue"

/-- **A repeated `expect`**: the value of the first one is never given back. -/
theorem repeated_expect_leaks :
    (new.addHeaders expectText [(1, 2), (1, 3)]).finalLog
        = [.incref 2, .incref 3, .decref 3]
      ∧ ¬ Balanced (new.addHeaders expectText [(1, 2), (1, 3)]).finalLog := by
  have hlog : (new.addHeaders expectText [(1, 2), (1, 3)]).finalLog
      = [.incref 2, .incref 3, .decref 3] := by decide +kernel
  refine ⟨hlog, fun heven => ?_⟩
  have htwo := heven 2
  rw [hlog] at htwo
  exact absurd htwo (by decide)

end CountedHeaders
