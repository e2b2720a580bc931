import Harmony.RequestCookie

/-!
# Storing a field and finding it again

`add_header` classifies the name of a field by `lookup_header` to know where
to put it; `get_header` compares names, and looks where it thinks the field
is. The two have to agree on where every name lives.

On regular fields, those in lower case and without the colon of a
pseudo-header, they do: `expect` and `if-modified-since` have a place of their
own, which a later field of that name takes over, and all the others stand in
the array and the vector in the order they came (`Stores`). What is found is
therefore the last value of the two names, and the first one of any other,
whatever the case of the name asked for.
-/

/-- **A regular field name**, as the protocol library lets it through. -/
structure RegularName (name : Bytes) : Prop where
  /-- No capital letters. -/
  lower : ∀ c ∈ name, isUpper c = false
  /-- Not a pseudo-header. -/
  noColon : name.head? ≠ some 58

instance (name : Bytes) : Decidable (RegularName name) :=
  have hlower : (name.all fun c => !isUpper c) = true
      ↔ ∀ c ∈ name, isUpper c = false := by
    simp only [List.all_eq_true, Bool.not_eq_true']
  decidable_of_iff ((name.all fun c => !isUpper c) = true
      ∧ name.head? ≠ some 58)
    ⟨fun h => ⟨hlower.mp h.1, h.2⟩, fun h => ⟨hlower.mpr h.1, h.2⟩⟩

/-- A byte that is no capital is its own lower case. -/
theorem toLower_of_isUpper_false {c : UInt8} (h : isUpper c = false) :
    toLower c = c := by
  unfold toLower
  rw [h]
  split_ifs <;> first | rfl | contradiction

namespace RegularName

variable {name : Bytes}

theorem map_toLower (h : RegularName name) : name.map toLower = name := by
  refine (List.map_congr_left fun c hc => ?_).trans (List.map_id _)
  exact toLower_of_isUpper_false (h.lower c hc)

/-- Asking for a name in any case is asking for it in lower case. -/
theorem asked_iff (h : RegularName name) (asked : Bytes) :
    streqL asked name = true ↔ name = asked.map toLower := by
  rw [streqL_iff, h.map_toLower]
  exact eq_comm

end RegularName

/-! ## Where a regular field is stored -/

/-- A regular name that is known is a name of the table. -/
theorem RegularName.mem_headerNames {name : Bytes} (h : RegularName name)
    (hfound : lookupHeader name ≠ .notFound) :
    (name, lookupHeader name) ∈ headerNames := by
  obtain ⟨known, hknown, hsame⟩ := streqL_of_lookupHeader rfl hfound
  have hlower : known.map toLower = known := map_toLower_known _ hknown
  have hname : known = name := by
    rw [← hlower, (streqL_iff known name).mp hsame, h.map_toLower]
  exact hname ▸ hknown

/-- **The fields with a place of their own**: two that are regular, and those
of pseudo-headers. -/
theorem places_known : ∀ k ∈ headerNames,
    (k.2 = .expect → k.1 = bytes "expect")
      ∧ (k.2 = .ifModifiedSince → k.1 = bytes "if-modified-since")
      ∧ (k.2 ∈ [HttpHeader.pMethod, .pScheme, .pAuthority, .pHost, .pPath] →
        k.1.head? = some 58) := by
  decide +kernel

namespace RequestHeaders

/-- **Where `add_header` puts a regular field.** -/
theorem addHeader_regular (h : RequestHeaders) {f : HeaderField}
    (hf : RegularName f.1) :
    h.addHeader f
      = if f.1 = bytes "expect" then { h with expect := some f.2 }
        else if f.1 = bytes "if-modified-since" then
          { h with ims := some f.2 }
        else h.addOther f := by
  by_cases hexpect : f.1 = bytes "expect"
  · have hfound : lookupHeader f.1 = .expect := by
      rw [hexpect]
      decide +kernel
    rw [if_pos hexpect, addHeader, hfound]
  by_cases hims : f.1 = bytes "if-modified-since"
  · have hfound : lookupHeader f.1 = .ifModifiedSince := by
      rw [hims]
      decide +kernel
    rw [if_neg hexpect, if_pos hims, addHeader, hfound]
  rw [if_neg hexpect, if_neg hims]
  have hplace : lookupHeader f.1 ≠ .notFound →
      (lookupHeader f.1 = .expect → f.1 = bytes "expect")
        ∧ (lookupHeader f.1 = .ifModifiedSince →
          f.1 = bytes "if-modified-since")
        ∧ (lookupHeader f.1
            ∈ [HttpHeader.pMethod, .pScheme, .pAuthority, .pHost, .pPath] →
          f.1.head? = some 58) :=
    fun hne => places_known _ (hf.mem_headerNames hne)
  unfold addHeader
  cases hfound : lookupHeader f.1 <;> try rfl
  -- what is left are the fields with a place of their own
  all_goals
    rw [hfound] at hplace
    obtain ⟨h₁, h₂, h₃⟩ := hplace (by decide)
    first
    | exact absurd (h₁ rfl) hexpect
    | exact absurd (h₂ rfl) hims
    | exact absurd (h₃ (by decide)) hf.noColon

/-! ## What is stored -/

/-- The values of a name, in the order they came in. -/
def valuesOf (fields : List HeaderField) (name : Bytes) : List Bytes :=
  (fields.filter fun f => f.1 = name).map Prod.snd

theorem valuesOf_append (fields fields' : List HeaderField) (name : Bytes) :
    valuesOf (fields ++ fields') name
      = valuesOf fields name ++ valuesOf fields' name := by
  rw [valuesOf, List.filter_append, List.map_append, valuesOf, valuesOf]

theorem valuesOf_self (f : HeaderField) : valuesOf [f] f.1 = [f.2] := by
  rw [valuesOf, List.filter_cons_of_pos (by simp), List.filter_nil]
  rfl

theorem valuesOf_of_ne {f : HeaderField} {name : Bytes} (h : f.1 ≠ name) :
    valuesOf [f] name = [] := by
  rw [valuesOf, List.filter_cons_of_neg (by simpa using h), List.filter_nil]
  rfl

/-- Whether a field goes to the array or the vector. -/
def isOther (f : HeaderField) : Bool :=
  f.1 ≠ bytes "expect" ∧ f.1 ≠ bytes "if-modified-since"

/-- **What is stored of the fields**, and where. -/
structure Stores (h : RequestHeaders) (fields : List HeaderField) : Prop where
  expect_eq : h.expect = (valuesOf fields (bytes "expect")).getLast?
  ims_eq : h.ims = (valuesOf fields (bytes "if-modified-since")).getLast?
  others_eq : h.others = fields.filter isOther

theorem stores_new : Stores new [] := ⟨rfl, rfl, rfl⟩

theorem addOther_expect (h : RequestHeaders) (f : HeaderField) :
    (h.addOther f).expect = h.expect := by
  unfold addOther
  split_ifs <;> rfl

theorem addOther_ims (h : RequestHeaders) (f : HeaderField) :
    (h.addOther f).ims = h.ims := by
  unfold addOther
  split_ifs <;> rfl

/-- **One more field is stored** where its name belongs. -/
theorem Stores.addHeader {h : RequestHeaders} {fields : List HeaderField}
    (hs : Stores h fields) {f : HeaderField} (hf : RegularName f.1) :
    Stores (h.addHeader f) (fields ++ [f]) := by
  have hdiff : bytes "expect" ≠ bytes "if-modified-since" := by decide
  rw [addHeader_regular h hf]
  by_cases hexpect : f.1 = bytes "expect"
  · have hother : isOther f = false := by
      rw [isOther, decide_eq_false_iff_not]
      exact fun hne => hne.1 hexpect
    rw [if_pos hexpect]
    refine ⟨?_, ?_, ?_⟩
    · rw [valuesOf_append, ← hexpect, valuesOf_self, List.getLast?_concat]
    · rw [valuesOf_append, valuesOf_of_ne (hexpect ▸ hdiff), List.append_nil]
      exact hs.ims_eq
    · rw [List.filter_append, List.filter_cons_of_neg (by rw [hother]; decide),
        List.filter_nil, List.append_nil]
      exact hs.others_eq
  by_cases hims : f.1 = bytes "if-modified-since"
  · have hother : isOther f = false := by
      rw [isOther, decide_eq_false_iff_not]
      exact fun hne => hne.2 hims
    rw [if_neg hexpect, if_pos hims]
    refine ⟨?_, ?_, ?_⟩
    · rw [valuesOf_append, valuesOf_of_ne hexpect, List.append_nil]
      exact hs.expect_eq
    · rw [valuesOf_append, ← hims, valuesOf_self, List.getLast?_concat]
    · rw [List.filter_append, List.filter_cons_of_neg (by rw [hother]; decide),
        List.filter_nil, List.append_nil]
      exact hs.others_eq
  · have hother : isOther f = true := by
      rw [isOther, decide_eq_true_iff]
      exact ⟨hexpect, hims⟩
    rw [if_neg hexpect, if_neg hims]
    refine ⟨?_, ?_, ?_⟩
    · rw [addOther_expect, valuesOf_append, valuesOf_of_ne hexpect,
        List.append_nil, hs.expect_eq]
    · rw [addOther_ims, valuesOf_append, valuesOf_of_ne hims, List.append_nil,
        hs.ims_eq]
    · rw [others_addOther, List.filter_append, hs.others_eq,
        List.filter_cons_of_pos hother, List.filter_nil]

/-- **All fields are stored** where their names belong. -/
theorem stores_foldl {fields : List HeaderField}
    (hregular : ∀ f ∈ fields, RegularName f.1) :
    Stores (fields.foldl RequestHeaders.addHeader new) fields := by
  induction fields using List.reverseRecOn with
  | nil => exact stores_new
  | append_singleton fields f ih =>
    rw [List.foldl_append]
    exact (ih fun f' hf' => hregular f' (List.mem_append_left _ hf')).addHeader
      (hregular f (List.mem_append_right _ List.mem_cons_self))

/-! ## What is found -/

/-- **The first field of a name** among those without a place of their own. -/
theorem find?_others {fields : List HeaderField} {name : Bytes}
    (hregular : ∀ f ∈ fields, RegularName f.1)
    (hexpect : name.map toLower ≠ bytes "expect")
    (hims : name.map toLower ≠ bytes "if-modified-since") :
    ((fields.filter isOther).find? fun f => streqL name f.1).map Prod.snd
      = (valuesOf fields (name.map toLower)).head? := by
  have hfilter : (fields.filter isOther).filter (fun f => streqL name f.1)
      = fields.filter fun f => f.1 = name.map toLower := by
    rw [List.filter_filter]
    refine List.filter_congr fun f hf => ?_
    rw [Bool.eq_iff_iff, Bool.and_eq_true, (hregular f hf).asked_iff,
      decide_eq_true_iff]
    refine and_iff_left_of_imp fun hname => ?_
    rw [isOther, decide_eq_true_iff, hname]
    exact ⟨hexpect, hims⟩
  rw [← List.head?_filter, hfilter, valuesOf, List.head?_map]

/-- A name is asked for in lower case. -/
theorem streqL_bytes_iff (name : Bytes) {known : Bytes}
    (h : known.map toLower = known) :
    streqL name known = true ↔ name.map toLower = known := by
  rw [streqL_iff, h]

/-- **What `get_header` finds**: the last value of `expect` and of
`if-modified-since`, and the first one of any other name. -/
theorem getHeader_of_stores {h : RequestHeaders} {fields : List HeaderField}
    (hs : Stores h fields) (hregular : ∀ f ∈ fields, RegularName f.1)
    (name : Bytes) :
    h.getHeader name
      = if name.map toLower = bytes "expect"
            ∨ name.map toLower = bytes "if-modified-since" then
          (valuesOf fields (name.map toLower)).getLast?
        else (valuesOf fields (name.map toLower)).head? := by
  have hlower : (bytes "expect").map toLower = bytes "expect"
      ∧ (bytes "if-modified-since").map toLower = bytes "if-modified-since" := by
    decide
  have h₁ := streqL_bytes_iff name hlower.1
  have h₂ := streqL_bytes_iff name hlower.2
  by_cases hexpect : name.map toLower = bytes "expect"
  · rw [if_pos (.inl hexpect), getHeader, if_pos (h₁.mpr hexpect), hexpect,
      hs.expect_eq]
  by_cases hims : name.map toLower = bytes "if-modified-since"
  · rw [if_pos (.inr hims), getHeader, if_neg (mt h₁.mp hexpect),
      if_pos (h₂.mpr hims), hims, hs.ims_eq]
  · rw [if_neg (not_or.mpr ⟨hexpect, hims⟩),
      h.getHeader_others (Bool.eq_false_iff.mpr (mt h₁.mp hexpect))
        (Bool.eq_false_iff.mpr (mt h₂.mp hims)), hs.others_eq,
      find?_others hregular hexpect hims]

theorem valuesOf_eq_nil_iff (fields : List HeaderField) (name : Bytes) :
    valuesOf fields name = [] ↔ ∀ f ∈ fields, f.1 ≠ name := by
  rw [valuesOf, List.map_eq_nil_iff, List.filter_eq_nil_iff]
  exact forall₂_congr fun f _ => not_congr decide_eq_true_iff

/-- **Storing and looking up agree** on where every name lives: a regular
field that was added is found under its name in any case, and nothing else
is. -/
theorem getHeader_addHeaders {fields : List HeaderField}
    (hregular : ∀ f ∈ fields, RegularName f.1) (name : Bytes) :
    ((fields.foldl RequestHeaders.addHeader new).getHeader name = none
        ↔ ∀ f ∈ fields, f.1 ≠ name.map toLower)
      ∧ (fields.foldl RequestHeaders.addHeader new).getHeader name
        = if name.map toLower = bytes "expect"
              ∨ name.map toLower = bytes "if-modified-since" then
            (valuesOf fields (name.map toLower)).getLast?
          else (valuesOf fields (name.map toLower)).head? := by
  have hfound := getHeader_of_stores (stores_foldl hregular) hregular name
  refine ⟨?_, hfound⟩
  rw [hfound, ← valuesOf_eq_nil_iff]
  split_ifs
  · exact List.getLast?_eq_none_iff
  · exact List.head?_eq_none_iff

/-- Two values of `expect`, behind more fields than the array has room for. -/
def repeatedExpect : List HeaderField :=
  List.replicate 11 ([120], [49])
    ++ [(bytes "expect", [50]), ([120], [51]), (bytes "expect", [52])]

/-- Of these the last one is found, however the name is written, and the
first `x`. -/
theorem getHeader_repeatedExpect :
    (repeatedExpect.foldl RequestHeaders.addHeader new).getHeader
        (bytes "Expect") = some [52]
      ∧ (repeatedExpect.foldl RequestHeaders.addHeader new).getHeader [88]
        = some [49] := by
  have hregular : ∀ f ∈ repeatedExpect, RegularName f.1 := by decide +kernel
  refine ⟨?_, ?_⟩
  · rw [(getHeader_addHeaders hregular (bytes "Expect")).2]
    decide +kernel
  · rw [(getHeader_addHeaders hregular [88]).2]
    decide +kernel

end RequestHeaders
