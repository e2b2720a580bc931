import Harmony.RequestHeaders

/-!
# The names of header fields

`lookup_header` tells the name of a field by two nested switches, on its length
and on its last byte, and compares the bytes in front of that one up to case.
`lookupHeaderSwitch` has these branches one by one; that they are the table
`headerNames` is a theorem (`lookupHeaderSwitch_eq`).

The last byte is compared as it is, though, so that `HOST` and `hosT` are names
nobody knows, and `:host` is taken for `host` and not for the enumerator of its
own. These are the only slips: every other name is found, or not found, as it
should be (`looksUp_iff`).
-/

/-- The last byte of a name, as a switch reads it. -/
def lastChar (name : Bytes) : Char := Char.ofNat (name.getLastD 0).toNat

/-- **`lookup_header`**, branch by branch. -/
def lookupHeaderSwitch (name : Bytes) : HttpHeader :=
  match name.length with
  | 2 =>
    match lastChar name with
    | 'e' =>
      if streqL (bytes "t") (name.take 1) then .te
      else .notFound
    | _ => .notFound
  | 3 =>
    match lastChar name with
    | 'a' =>
      if streqL (bytes "vi") (name.take 2) then .via
      else .notFound
    | _ => .notFound
  | 4 =>
    match lastChar name with
    | 'e' =>
      if streqL (bytes "dat") (name.take 3) then .date
      else .notFound
    | 'k' =>
      if streqL (bytes "lin") (name.take 3) then .link
      else .notFound
    | 't' =>
      if streqL (bytes "hos") (name.take 3) then .host
      else .notFound
    | _ => .notFound
  | 5 =>
    match lastChar name with
    | 'h' =>
      if streqL (bytes ":pat") (name.take 4) then .pPath
      else .notFound
    | 't' =>
      if streqL (bytes ":hos") (name.take 4) then .host
      else .notFound
    | _ => .notFound
  | 6 =>
    match lastChar name with
    | 'e' =>
      if streqL (bytes "cooki") (name.take 5) then .cookie
      else .notFound
    | 'r' =>
      if streqL (bytes "serve") (name.take 5) then .server
      else .notFound
    | 't' =>
      if streqL (bytes "expec") (name.take 5) then .expect
      else .notFound
    | _ => .notFound
  | 7 =>
    match lastChar name with
    | 'c' =>
      if streqL (bytes "alt-sv") (name.take 6) then .altSvc
      else .notFound
    | 'd' =>
      if streqL (bytes ":metho") (name.take 6) then .pMethod
      else .notFound
    | 'e' =>
      if streqL (bytes ":schem") (name.take 6) then .pScheme
      else if streqL (bytes "upgrad") (name.take 6) then .upgrade
      else .notFound
    | 'r' =>
      if streqL (bytes "traile") (name.take 6) then .trailer
      else .notFound
    | 's' =>
      if streqL (bytes ":statu") (name.take 6) then .pStatus
      else .notFound
    | _ => .notFound
  | 8 =>
    match lastChar name with
    | 'n' =>
      if streqL (bytes "locatio") (name.take 7) then .location
      else .notFound
    | _ => .notFound
  | 9 =>
    match lastChar name with
    | 'd' =>
      if streqL (bytes "forwarde") (name.take 8) then .forwarded
      else .notFound
    | 'l' =>
      if streqL (bytes ":protoco") (name.take 8) then .pProtocol
      else .notFound
    | _ => .notFound
  | 10 =>
    match lastChar name with
    | 'a' =>
      if streqL (bytes "early-dat") (name.take 9) then .earlyData
      else .notFound
    | 'e' =>
      if streqL (bytes "keep-aliv") (name.take 9) then .keepAlive
      else .notFound
    | 'n' =>
      if streqL (bytes "connectio") (name.take 9) then .connection
      else .notFound
    | 't' =>
      if streqL (bytes "user-agen") (name.take 9) then .userAgent
      else .notFound
    | 'y' =>
      if streqL (bytes ":authorit") (name.take 9) then .pAuthority
      else .notFound
    | _ => .notFound
  | 12 =>
    match lastChar name with
    | 'e' =>
      if streqL (bytes "content-typ") (name.take 11) then .contentType
      else .notFound
    | _ => .notFound
  | 13 =>
    match lastChar name with
    | 'l' =>
      if streqL (bytes "cache-contro") (name.take 12) then .cacheControl
      else .notFound
    | _ => .notFound
  | 14 =>
    match lastChar name with
    | 'h' =>
      if streqL (bytes "content-lengt") (name.take 13) then .contentLength
      else .notFound
    | 's' =>
      if streqL (bytes "http2-setting") (name.take 13) then .http2Settings
      else .notFound
    | _ => .notFound
  | 15 =>
    match lastChar name with
    | 'e' =>
      if streqL (bytes "accept-languag") (name.take 14) then .acceptLanguage
      else .notFound
    | 'g' =>
      if streqL (bytes "accept-encodin") (name.take 14) then .acceptEncoding
      else .notFound
    | 'r' =>
      if streqL (bytes "x-forwarded-fo") (name.take 14) then .xForwardedFor
      else .notFound
    | _ => .notFound
  | 16 =>
    match lastChar name with
    | 'n' =>
      if streqL (bytes "proxy-connectio") (name.take 15) then .proxyConnection
      else .notFound
    | _ => .notFound
  | 17 =>
    match lastChar name with
    | 'e' =>
      if streqL (bytes "if-modified-sinc") (name.take 16) then .ifModifiedSince
      else .notFound
    | 'g' =>
      if streqL (bytes "transfer-encodin") (name.take 16) then .transferEncoding
      else .notFound
    | 'o' =>
      if streqL (bytes "x-forwarded-prot") (name.take 16) then .xForwardedProto
      else .notFound
    | 'y' =>
      if streqL (bytes "sec-websocket-ke") (name.take 16) then .secWebsocketKey
      else .notFound
    | _ => .notFound
  | 20 =>
    match lastChar name with
    | 't' =>
      if streqL (bytes "sec-websocket-accep") (name.take 19) then
        .secWebsocketAccept
      else .notFound
    | _ => .notFound
  | _ => .notFound

/-! ## The switch and the table -/

/-- **A name of the table, spelled** in any case but for the last byte. -/
structure Spells (known name : Bytes) : Prop where
  last : known.getLast? = name.getLast?
  same : streqL known name = true

/-- A switch reads nothing of a name but its length, its last byte, and the
others up to case. -/
theorem lookupHeaderSwitch_congr {known name : Bytes} (h : Spells known name) :
    lookupHeaderSwitch known = lookupHeaderSwitch name := by
  have hmap := (streqL_iff known name).mp h.same
  have hlen : known.length = name.length := by
    rw [← List.length_map toLower, hmap, List.length_map]
  have hlast : lastChar known = lastChar name := by
    rw [lastChar, lastChar, List.getLastD_eq_getLast?,
      List.getLastD_eq_getLast?, h.last]
  have htake : ∀ p n, streqL p (known.take n) = streqL p (name.take n) := by
    intro p n
    rw [Bool.eq_iff_iff, streqL_iff, streqL_iff, List.map_take, List.map_take,
      hmap]
  unfold lookupHeaderSwitch
  rw [hlen, hlast]
  simp only [htake]

theorem lookupHeaderSwitch_known :
    ∀ k ∈ headerNames, lookupHeaderSwitch k.1 = k.2 := by
  decide +kernel

/-- The character that a switch reads is the last byte. -/
theorem ofNat_lastChar (name : Bytes) :
    UInt8.ofNat (lastChar name).toNat = name.getLastD 0 := by
  have hall : ∀ n < 256, UInt8.ofNat (Char.ofNat n).toNat = UInt8.ofNat n := by
    decide +kernel
  rw [lastChar, hall _ (UInt8.toNat_lt _), UInt8.ofNat_toNat]

/-- What a branch has compared is all of a name. -/
theorem spells_of_branch {name p : Bytes} {n : ℕ} {c : Char}
    (hlen : name.length = n + 1) (hlast : lastChar name = c)
    (hp : streqL p (name.take n) = true) :
    Spells (p ++ [UInt8.ofNat c.toNat]) name := by
  have hsplit : name = name.take n ++ [UInt8.ofNat c.toNat] := by
    rw [← hlast, ofNat_lastChar]
    obtain ⟨front, b, rfl⟩ := List.eq_nil_or_concat name |>.resolve_left
      (List.ne_nil_of_length_eq_add_one hlen)
    rw [List.concat_eq_append, List.length_append, List.length_singleton,
      Nat.add_right_cancel_iff] at hlen
    rw [List.concat_eq_append, List.take_left' hlen, List.getLastD_concat]
  constructor
  · rw [hsplit, List.getLast?_concat, List.getLast?_concat]
  · rw [hsplit, streqL_iff, List.map_append, List.map_append,
      (streqL_iff _ _).mp hp]

/-- The names under which the table has an enumerator. -/
def HttpHeader.names (h : HttpHeader) : List Bytes :=
  (headerNames.filter fun k => k.2 = h).map Prod.fst

theorem mem_names {known : Bytes} {h : HttpHeader} :
    known ∈ h.names ↔ (known, h) ∈ headerNames := by
  simp only [HttpHeader.names, List.mem_map, List.mem_filter,
    decide_eq_true_eq]
  constructor
  · rintro ⟨k, ⟨hk, rfl⟩, rfl⟩
    exact hk
  · exact fun hk => ⟨_, ⟨hk, rfl⟩, rfl⟩

/-- **A result for a name**: not found, or found in the table. -/
def InTable (name : Bytes) (header : HttpHeader) : Prop :=
  header = .notFound ∨ ∃ known, (known, header) ∈ headerNames ∧ Spells known name

/-- **Whatever the switch finds** is in the table. -/
theorem inTable_lookupHeaderSwitch (name : Bytes) :
    InTable name (lookupHeaderSwitch name) := by
  unfold lookupHeaderSwitch
  split <;> rename_i hlen
  all_goals try exact Or.inl rfl
  all_goals
    split <;> rename_i hlast
    all_goals try exact Or.inl rfl
    all_goals repeat' split
    all_goals try exact Or.inl rfl
    -- the branches that find a name
    all_goals
      rename_i hp
      have hspells := spells_of_branch hlen hlast hp
      exact Or.inr ⟨_, mem_names.mp (by decide +kernel), hspells⟩

/-- The names of the table are in lower case. -/
theorem map_toLower_known :
    ∀ k ∈ headerNames, k.1.map toLower = k.1 := by
  decide +kernel

/-- A text is spelled by one name of the table at most. -/
theorem known_unique {known known' name : Bytes} {h h' : HttpHeader}
    (hk : (known, h) ∈ headerNames) (hk' : (known', h') ∈ headerNames)
    (hs : streqL known name = true) (hs' : streqL known' name = true) :
    known = known' := by
  have hlower : known.map toLower = known := map_toLower_known _ hk
  have hlower' : known'.map toLower = known' := map_toLower_known _ hk'
  rw [← hlower, ← hlower', (streqL_iff _ _).mp hs, (streqL_iff _ _).mp hs']

theorem lookupHeaderSwitch_of_spells {known name : Bytes} {h : HttpHeader}
    (hk : (known, h) ∈ headerNames) (hs : Spells known name) :
    lookupHeaderSwitch name = h := by
  rw [← lookupHeaderSwitch_congr hs]
  exact lookupHeaderSwitch_known _ hk

/-- What the table is searched for. -/
theorem spells_iff (known name : Bytes) :
    (known.length == name.length && known.getLast? == name.getLast?
        && streqL known.dropLast name.dropLast) = true ↔ Spells known name := by
  rw [Bool.and_eq_true, Bool.and_eq_true, beq_iff_eq, beq_iff_eq, streqL_iff,
    List.map_dropLast, List.map_dropLast]
  constructor
  · rintro ⟨⟨-, hlast⟩, hfront⟩
    refine ⟨hlast, ?_⟩
    rw [streqL_iff]
    cases hname : name.getLast? with
    | none =>
      rw [hname] at hlast
      rw [List.getLast?_eq_none_iff.mp hname,
        List.getLast?_eq_none_iff.mp hlast]
    | some c =>
      rw [hname] at hlast
      rw [← List.map_dropLast, ← List.map_dropLast] at hfront
      rw [← List.dropLast_append_getLast? c hname,
        ← List.dropLast_append_getLast? c hlast, List.map_append,
        List.map_append, hfront]
  · intro h
    have hmap := (streqL_iff known name).mp h.same
    refine ⟨⟨?_, h.last⟩, by rw [hmap]⟩
    rw [← List.length_map toLower, hmap, List.length_map]

theorem ne_notFound_of_mem : ∀ k ∈ headerNames, k.2 ≠ .notFound := by
  decide

theorem inTable_lookupHeader (name : Bytes) :
    InTable name (lookupHeader name) := by
  unfold lookupHeader
  split
  · rename_i known header hfind
    have hpred := List.find?_some hfind
    exact Or.inr ⟨known, List.mem_of_find?_eq_some hfind,
      (spells_iff known name).mp hpred⟩
  · exact Or.inl rfl

/-- A name that the table has is found. -/
theorem lookupHeader_ne_notFound {known name : Bytes} {h : HttpHeader}
    (hk : (known, h) ∈ headerNames) (hs : Spells known name) :
    lookupHeader name ≠ .notFound := by
  unfold lookupHeader
  split
  · rename_i hfind
    exact ne_notFound_of_mem _ (List.mem_of_find?_eq_some hfind)
  · rename_i hfind
    exact absurd ((spells_iff known name).mpr hs)
      (List.find?_eq_none.mp hfind _ hk)

/-- **The switch is the table.** -/
theorem lookupHeaderSwitch_eq (name : Bytes) :
    lookupHeaderSwitch name = lookupHeader name := by
  rcases inTable_lookupHeader name with hnone | ⟨known, hk, hs⟩
  · rcases inTable_lookupHeaderSwitch name with hnone' | ⟨known, hk, hs⟩
    · rw [hnone, hnone']
    · exact absurd hnone (lookupHeader_ne_notFound hk hs)
  · exact lookupHeaderSwitch_of_spells hk hs

/-! ## What an enumerator stands for -/

/-- The name of an enumerator in the source. -/
def HttpHeader.enumerator : HttpHeader → Bytes
  | .pAuthority => bytes "pAUTHORITY"
  | .pHost => bytes "pHOST"
  | .pMethod => bytes "pMETHOD"
  | .pPath => bytes "pPATH"
  | .pProtocol => bytes "pPROTOCOL"
  | .pScheme => bytes "pSCHEME"
  | .pStatus => bytes "pSTATUS"
  | .acceptEncoding => bytes "ACCEPT_ENCODING"
  | .acceptLanguage => bytes "ACCEPT_LANGUAGE"
  | .altSvc => bytes "ALT_SVC"
  | .cacheControl => bytes "CACHE_CONTROL"
  | .connection => bytes "CONNECTION"
  | .contentLength => bytes "CONTENT_LENGTH"
  | .contentType => bytes "CONTENT_TYPE"
  | .cookie => bytes "COOKIE"
  | .date => bytes "DATE"
  | .earlyData => bytes "EARLY_DATA"
  | .expect => bytes "EXPECT"
  | .forwarded => bytes "FORWARDED"
  | .host => bytes "HOST"
  | .http2Settings => bytes "HTTP2_SETTINGS"
  | .ifModifiedSince => bytes "IF_MODIFIED_SINCE"
  | .keepAlive => bytes "KEEP_ALIVE"
  | .link => bytes "LINK"
  | .location => bytes "LOCATION"
  | .proxyConnection => bytes "PROXY_CONNECTION"
  | .secWebsocketAccept => bytes "SEC_WEBSOCKET_ACCEPT"
  | .secWebsocketKey => bytes "SEC_WEBSOCKET_KEY"
  | .server => bytes "SERVER"
  | .te => bytes "TE"
  | .trailer => bytes "TRAILER"
  | .transferEncoding => bytes "TRANSFER_ENCODING"
  | .upgrade => bytes "UPGRADE"
  | .userAgent => bytes "USER_AGENT"
  | .via => bytes "VIA"
  | .xForwardedFor => bytes "X_FORWARDED_FOR"
  | .xForwardedProto => bytes "X_FORWARDED_PROTO"
  | .notFound => bytes "eNOTFOUND"

/-- **The header name an enumerator stands for**: its own in lower case, with
hyphens for underscores, and a colon for a `p` in front that is in lower
case. -/
def HttpHeader.text (h : HttpHeader) : Option Bytes :=
  let spelled (c : UInt8) : UInt8 := if c = 95 then 45 else toLower c
  match h, h.enumerator with
  | .notFound, _ => none
  | _, 112 :: rest => some (58 :: rest.map spelled)
  | _, name => some (name.map spelled)

/-- **A lookup that is right about a name.** -/
structure LooksUp (lookup : Bytes → HttpHeader) (name : Bytes) : Prop where
  /-- It finds what the name stands for, in any case of its letters. -/
  found : ∀ h t, HttpHeader.text h = some t → streqL t name = true →
    lookup name = h
  /-- It finds nothing else. -/
  notFound : (∀ h t, HttpHeader.text h = some t → streqL t name = false) →
    lookup name = .notFound

/-- Names that differ in the case of letters only are looked up alike. -/
theorem LooksUp.eq_of_streqL {lookup : Bytes → HttpHeader} {a b : Bytes}
    (ha : LooksUp lookup a) (hb : LooksUp lookup b)
    (hab : streqL a b = true) : lookup a = lookup b := by
  rw [streqL_iff] at hab
  by_cases h : ∃ h t, HttpHeader.text h = some t ∧ streqL t a = true
  · obtain ⟨h, t, ht, hsame⟩ := h
    rw [ha.found h t ht hsame]
    rw [streqL_iff, hab, ← streqL_iff] at hsame
    rw [hb.found h t ht hsame]
  · have hnone : ∀ h t, HttpHeader.text h = some t → streqL t a = false := by
      intro h' t ht
      exact Bool.eq_false_iff.mpr fun hsame => h ⟨h', t, ht, hsame⟩
    rw [ha.notFound hnone, hb.notFound fun h t ht => ?_]
    have hdiff := hnone h t ht
    rw [Bool.eq_false_iff, ne_eq, streqL_iff] at hdiff ⊢
    rwa [← hab]

/-- **Different names never share an enumerator.** -/
theorem LooksUp.streqL_of_eq {lookup : Bytes → HttpHeader} {a b : Bytes}
    (ha : LooksUp lookup a) (hb : LooksUp lookup b)
    (hab : lookup a = lookup b) (hfound : lookup a ≠ .notFound) :
    streqL a b = true := by
  have hname : ∀ {name : Bytes}, LooksUp lookup name →
      lookup name ≠ .notFound →
        ∃ t, HttpHeader.text (lookup name) = some t ∧ streqL t name = true := by
    intro name hright hne
    by_contra hnone
    push Not at hnone
    refine hne (hright.notFound fun h t ht => ?_)
    refine Bool.eq_false_iff.mpr fun hsame => ?_
    rw [← hright.found h t ht hsame] at ht
    exact hnone t ht hsame
  obtain ⟨t, ht, hsame⟩ := hname ha hfound
  obtain ⟨t', ht', hsame'⟩ := hname hb (hab ▸ hfound)
  rw [hab, ht', Option.some.injEq] at ht
  subst ht
  rw [streqL_iff] at hsame hsame' ⊢
  rw [← hsame, ← hsame']

/-! ## Where the switch is right -/

theorem text_known : ∀ k ∈ headerNames,
    k.2.text = some k.1 ∨ HttpHeader.text .pHost = some k.1 := by
  decide +kernel

/-- The table has all names but one. -/
theorem mem_headerNames_of_text {h : HttpHeader} {t : Bytes}
    (ht : h.text = some t) :
    (t, h) ∈ headerNames ∨ h = .pHost ∧ (t, HttpHeader.host) ∈ headerNames := by
  cases h
  case notFound => exact absurd ht.symm (Option.some_ne_none t)
  case pHost =>
    obtain rfl := Option.some.inj ht
    exact Or.inr ⟨rfl, mem_names.mp (by decide +kernel)⟩
  all_goals
    obtain rfl := Option.some.inj ht
    exact Or.inl (mem_names.mp (by decide +kernel))

theorem pHost_not_mem : ∀ k ∈ headerNames, k.2 ≠ .pHost := by
  decide

/-- **Which names are looked up right.** A name that stands for an enumerator is
found unless that is `pHOST` or the last letter is a capital; all the others are
not found. -/
theorem looksUp_iff (name : Bytes) :
    LooksUp lookupHeaderSwitch name
      ↔ ∀ h t, HttpHeader.text h = some t → streqL t name = true →
        h ≠ .pHost ∧ t.getLast? = name.getLast? := by
  constructor
  · intro hright h t ht hsame
    have hfound := hright.found h t ht hsame
    have hne : h ≠ .notFound := by
      rintro rfl
      exact absurd ht.symm (Option.some_ne_none t)
    rcases inTable_lookupHeaderSwitch name with hnone | ⟨known, hk, hs⟩
    · exact absurd (hfound.symm.trans hnone) hne
    · rw [hfound] at hk
      have hnotHost : h ≠ .pHost := pHost_not_mem _ hk
      refine ⟨hnotHost, ?_⟩
      have hmem := (mem_headerNames_of_text ht).resolve_right
        fun hhost => hnotHost hhost.1
      rw [known_unique hmem hk hsame hs.same, hs.last]
  · intro hcond
    constructor
    · intro h t ht hsame
      obtain ⟨hnotHost, hlast⟩ := hcond h t ht hsame
      have hmem := (mem_headerNames_of_text ht).resolve_right
        fun hhost => hnotHost hhost.1
      exact lookupHeaderSwitch_of_spells hmem ⟨hlast, hsame⟩
    · intro hnone
      refine (inTable_lookupHeaderSwitch name).resolve_right ?_
      rintro ⟨known, hk, hs⟩
      have hsame := hs.same
      rcases text_known _ hk with ht | ht
      · rw [hnone _ _ ht] at hsame
        exact Bool.false_ne_true hsame
      · rw [hnone _ _ ht] at hsame
        exact Bool.false_ne_true hsame

/-- `HOST` is a name nobody knows. -/
theorem capitals_not_looksUp : ¬ ∀ name, LooksUp lookupHeaderSwitch name := by
  intro hall
  have hfound := (hall (bytes "HOST")).found .host (bytes "host")
    (by decide) (by decide)
  exact absurd hfound (by decide)
