import Harmony.JsonSpelling
import Harmony.StringView

/-!
# Strings in quotes

`append_quoted_string` writes a string of JSON. It is there twice, as a member
of `json::Node` and as a function of `util`, and the two are the same. A string
that has nothing to escape is appended as it is; otherwise a quote, a backslash
and the control characters are escaped, byte for byte.

That is right for every string (`spells_quoted`). What the writer and `to_json`
do wrong, they do where they do not call it.
-/

/-- Whether a byte has to be escaped, as the fast path asks. -/
def needsEscape (c : UInt8) : Bool := c = 92 ∨ c = 34 ∨ c < 0x20

/-- `hexchars`, at the low four bits. -/
def hexchar (u : UInt8) : UInt8 :=
  (bytes "0123456789abcdef").getD (u &&& 0xF).toNat 0

/-- **What is appended for one byte**, by the cases of the `switch`. -/
def escapeByte (c : UInt8) : Bytes :=
  if c = 34 then [92, 34]
  else if c = 92 then [92, 92]
  else if c = 8 then bytes "\\b"
  else if c = 12 then bytes "\\f"
  else if c = 10 then bytes "\\n"
  else if c = 13 then bytes "\\r"
  else if c = 9 then bytes "\\t"
  else if c < 0x20 then bytes "\\u00" ++ [hexchar (c >>> 4), hexchar c]
  else [c]

/-- **`append_quoted_string`.** -/
def appendQuotedString (sv ret : Bytes) : Bytes :=
  if sv.any needsEscape = false then ret ++ [34] ++ sv ++ [34]
  else sv.foldl (fun ret c => ret ++ escapeByte c) (ret ++ [34]) ++ [34]

/-- A string with what has to be escaped escaped. -/
def escape (sv : Bytes) : Bytes := sv.flatMap escapeByte

/-- A byte that need not be escaped is appended as it is. -/
theorem escapeByte_of_not_needsEscape {c : UInt8} (hc : needsEscape c = false) :
    escapeByte c = [c] := by
  obtain ⟨h92, h34, h32⟩ : c ≠ 92 ∧ c ≠ 34 ∧ ¬ c < 32 := by
    simpa [needsEscape] using hc
  have hne : ∀ d : UInt8, d < 32 → c ≠ d := fun d hd h => h32 (h ▸ hd)
  simp [escapeByte, h92, h34, h32, hne 8 (by decide), hne 12 (by decide),
    hne 10 (by decide), hne 13 (by decide), hne 9 (by decide)]

/-- A string with nothing to escape is its own escaped text. -/
theorem escape_of_plain {sv : Bytes} (h : sv.any needsEscape = false) :
    escape sv = sv := by
  rw [List.any_eq_false] at h
  refine (List.flatMap_congr fun c hc => escapeByte_of_not_needsEscape
    (eq_false_of_ne_true (h c hc))).trans ?_
  exact List.flatMap_singleton' sv

/-- **Both paths append the same**: the string, escaped, in quotes. -/
theorem appendQuotedString_eq (sv ret : Bytes) :
    appendQuotedString sv ret = ret ++ 34 :: (escape sv ++ [34]) := by
  unfold appendQuotedString
  split_ifs with hplain
  · rw [escape_of_plain hplain]
    simp only [List.append_assoc, List.cons_append, List.nil_append]
  · rw [List.foldl_append_eq_append, List.append_assoc, List.append_assoc]
    rfl

/-- Both digits of an escaped control character. -/
theorem hexValue_hexchar {c : UInt8} (hc : c < 32) :
    Json.hexValue (hexchar (c >>> 4)) = some (c.toNat / 16)
      ∧ Json.hexValue (hexchar c) = some (c.toNat % 16) := by
  have hall : ∀ n : Fin 32,
      Json.hexValue (hexchar (n.val.toUInt8 >>> 4)) = some (n.val / 16)
        ∧ Json.hexValue (hexchar n.val.toUInt8) = some (n.val % 16) := by
    decide
  have h := hall ⟨c.toNat, UInt8.lt_iff_toNat_lt.mp hc⟩
  rwa [show c.toNat.toUInt8 = c from UInt8.ofNat_toNat] at h

/-- A hexadecimal digit is a byte of ASCII and no control character. -/
theorem hexchar_range (u : UInt8) : ¬ hexchar u < 0x20 ∧ hexchar u < 128 := by
  have hall : ∀ i : Fin 16, ¬ (bytes "0123456789abcdef").getD i.val 0 < 0x20
      ∧ (bytes "0123456789abcdef").getD i.val 0 < 128 := by
    decide
  have hlt : (u &&& 0xF).toNat < 16 := by
    rw [UInt8.toNat_and]
    exact Nat.lt_succ_of_le Nat.and_le_right
  exact hall ⟨_, hlt⟩

/-- **What is appended for a byte is read as it.** -/
theorem readChar_escapeByte (c : UInt8) (rest : Bytes) :
    Json.readChar (escapeByte c ++ rest) = some ([c], rest) := by
  unfold escapeByte
  split_ifs with h34 h92 h8 h12 h10 h13 h9 h32
  · rw [h34]
    rfl
  · rw [h92]
    rfl
  · rw [h8]
    rfl
  · rw [h12]
    rfl
  · rw [h10]
    rfl
  · rw [h13]
    rfl
  · rw [h9]
    rfl
  · obtain ⟨hhigh, hlow⟩ := hexValue_hexchar h32
    have hlt : c.toNat < 32 := UInt8.lt_iff_toNat_lt.mp h32
    have hunit : Json.readUnit
        (48 :: 48 :: hexchar (c >>> 4) :: hexchar c :: rest)
          = some (c.toNat, rest) := by
      have hzero : Json.hexValue 48 = some 0 := by decide
      simp only [Json.readUnit, hzero, hhigh, hlow, Option.bind_eq_bind,
        Option.bind_some]
      rw [Option.some.injEq, Prod.mk.injEq]
      exact ⟨by omega, rfl⟩
    have hchar : Json.readUnicode
        (48 :: 48 :: hexchar (c >>> 4) :: hexchar c :: rest)
          = some ([c], rest) := by
      unfold Json.readUnicode
      rw [hunit, Option.bind_eq_bind, Option.bind_some]
      dsimp only
      rw [if_neg (by omega), if_neg (by omega), Json.utf8_of_lt]
      exact UInt8.lt_trans h32 (by decide)
    exact hchar
  · show Json.readChar (c :: rest) = _
    rw [Json.readChar, if_neg (not_or.mpr ⟨h32, h34⟩), if_neg h92]

/-- **A string is read as it was.** -/
theorem readString_escape (sv rest : Bytes) :
    Json.readString (escape sv ++ 34 :: rest) = some (sv, rest) :=
  Json.readString_flatMap (fun c _ rest => readChar_escapeByte c rest)
    (fun c _ h => by
      have hread := readChar_escapeByte c []
      rw [h] at hread
      cases hread) rest

/-- What is appended for a byte of ASCII is ASCII. -/
theorem escapeByte_ascii {c : UInt8} (hc : c < 128) :
    escapeByte c ≠ [] ∧ Json.Ascii (escapeByte c) := by
  have hhex : Json.Ascii (bytes "\\u00" ++ [hexchar (c >>> 4), hexchar c]) := by
    refine List.forall_mem_append.mpr
      ⟨show Json.Ascii (bytes "\\u00") by decide, ?_⟩
    rw [List.forall_mem_cons, List.forall_mem_singleton]
    exact ⟨(hexchar_range _).2, (hexchar_range _).2⟩
  unfold escapeByte
  split_ifs
  all_goals first
    | decide
    | exact ⟨List.cons_ne_nil _ _, hhex⟩
    | exact ⟨List.cons_ne_nil _ _, List.forall_mem_singleton.mpr hc⟩

/-- Escaping keeps characters what they are. -/
theorem utf8_escape (sv : Bytes) : Json.Utf8 (escape sv) ↔ Json.Utf8 sv := by
  refine Json.utf8_flatMap (fun c hc => escapeByte_ascii hc) (fun c hc => ?_) sv
  have hne : ∀ d : UInt8, d < 128 → c ≠ d := fun d hd h => hc (h ▸ hd)
  refine escapeByte_of_not_needsEscape ?_
  have h32 : ¬ c < 32 := fun h => hc (UInt8.lt_trans h (by decide))
  simp [needsEscape, hne 92 (by decide), hne 34 (by decide), h32]

/-- **A string in quotes says that string.** -/
theorem spells_quoted (sv : Bytes) :
    Json.Spells (34 :: (escape sv ++ [34])) (.str sv) True (Json.Utf8 sv) :=
  (Json.spells_str (readString_escape sv)).congr (iff_true_intro rfl)
    (utf8_escape sv)

/-! ## The member of `json::Node`

It is written out a second time in the sources, on the text the node has so
far, and so it is here: the digits of a control character are put into an
array, and the loop goes from byte to byte. -/

/-- What the loop appends for one byte. -/
def nodeAppendByte (ret : Bytes) (c : UInt8) : Bytes :=
  if c = 34 then ret ++ bytes "\\\""
  else if c = 92 then ret ++ bytes "\\\\"
  else if c = 8 then ret ++ bytes "\\b"
  else if c = 12 then ret ++ bytes "\\f"
  else if c = 10 then ret ++ bytes "\\n"
  else if c = 13 then ret ++ bytes "\\r"
  else if c = 9 then ret ++ bytes "\\t"
  else if c < 0x20 then
    ret ++ ((bytes "\\u0000").set 5 (hexchar c)).set 4 (hexchar (c >>> 4))
  else ret ++ [c]

/-- The loop over the bytes. -/
def nodeAppendLoop (ret : Bytes) : Bytes → Bytes
  | [] => ret
  | c :: sv => nodeAppendLoop (nodeAppendByte ret c) sv

/-- **`Node::append_quoted_string`**, on the text of a node. -/
def nodeAppendQuotedString (ret sv : Bytes) : Bytes :=
  if !sv.any needsEscape then
    let ret := ret ++ [34]
    let ret := ret ++ sv
    ret ++ [34]
  else
    let ret := nodeAppendLoop (ret ++ [34]) sv
    ret ++ [34]

theorem nodeAppendByte_eq (ret : Bytes) (c : UInt8) :
    nodeAppendByte ret c = ret ++ escapeByte c := by
  unfold nodeAppendByte escapeByte
  split_ifs <;> rfl

theorem nodeAppendLoop_eq (ret sv : Bytes) :
    nodeAppendLoop ret sv = ret ++ escape sv := by
  induction sv generalizing ret with
  | nil => exact (List.append_nil ret).symm
  | cons c sv ih =>
    rw [nodeAppendLoop, ih, nodeAppendByte_eq, List.append_assoc]
    rfl

/-- **The member appends the same.** -/
theorem nodeAppendQuotedString_eq (ret sv : Bytes) :
    nodeAppendQuotedString ret sv = ret ++ 34 :: (escape sv ++ [34]) := by
  unfold nodeAppendQuotedString
  cases hany : sv.any needsEscape with
  | false =>
    rw [escape_of_plain hany]
    simp only [Bool.not_false, if_true, List.append_assoc, List.cons_append,
      List.nil_append]
  | true =>
    rw [nodeAppendLoop_eq]
    simp only [Bool.not_true, Bool.false_eq_true, if_false, List.append_assoc,
      List.cons_append, List.nil_append]

/-- **What has to be escaped is**: it is written as a backslash and more. -/
theorem escapeByte_of_needsEscape {c : UInt8} (hc : needsEscape c = true) :
    ∃ d rest, escapeByte c = 92 :: d :: rest := by
  have hcase : c = 92 ∨ c = 34 ∨ c < 32 := of_decide_eq_true hc
  unfold escapeByte
  split_ifs with h34 h92 h8 h12 h10 h13 h9 h32
  · exact ⟨34, [], rfl⟩
  · exact ⟨92, [], rfl⟩
  · exact ⟨98, [], rfl⟩
  · exact ⟨102, [], rfl⟩
  · exact ⟨110, [], rfl⟩
  · exact ⟨114, [], rfl⟩
  · exact ⟨116, [], rfl⟩
  · exact ⟨117, [48, 48, hexchar (c >>> 4), hexchar c], rfl⟩
  · rcases hcase with h | h | h
    · exact absurd h h92
    · exact absurd h h34
    · exact absurd h h32

/-- **Nothing below `0x20` is left** in what is written for a byte. -/
theorem escapeByte_no_control (c : UInt8) : ∀ d ∈ escapeByte c, ¬ d < 0x20 := by
  unfold escapeByte
  split_ifs with h34 h92 h8 h12 h10 h13 h9 h32
  · decide +kernel
  · decide +kernel
  · decide +kernel
  · decide +kernel
  · decide +kernel
  · decide +kernel
  · decide +kernel
  · refine List.forall_mem_append.mpr
      ⟨show ∀ d ∈ bytes "\\u00", ¬ d < 0x20 by
        decide +kernel, ?_⟩
    rw [List.forall_mem_cons, List.forall_mem_singleton]
    exact ⟨(hexchar_range _).1, (hexchar_range _).1⟩
  · exact List.forall_mem_singleton.mpr h32

/-- **Both copies append one literal that says the string**: what they append
is the same, a quote, the bytes escaped one by one, and a quote that closes
it; read by the grammar it is the string, byte for byte; and the fast path is
taken only where the loop would append the same. -/
theorem append_quoted_string_spec (sv ret : Bytes) :
    nodeAppendQuotedString ret sv = appendQuotedString sv ret
      ∧ appendQuotedString sv ret
        = ret ++ 34 :: (sv.flatMap escapeByte ++ [34])
      ∧ (∀ rest : Bytes,
        Json.readString (sv.flatMap escapeByte ++ 34 :: rest) = some (sv, rest))
      ∧ (∀ c ∈ sv, c = 34 ∨ c = 92 ∨ c < 0x20 →
        ∃ d rest, escapeByte c = 92 :: d :: rest)
      ∧ (∀ d ∈ sv.flatMap escapeByte, ¬ d < 0x20)
      ∧ (sv.any needsEscape = false →
        appendQuotedString sv ret
          = sv.foldl (fun ret c => ret ++ escapeByte c) (ret ++ [34]) ++ [34]
        ∧ nodeAppendQuotedString ret sv
          = nodeAppendLoop (ret ++ [34]) sv ++ [34]) := by
  refine ⟨?_, appendQuotedString_eq sv ret, readString_escape sv, ?_, ?_, ?_⟩
  · rw [nodeAppendQuotedString_eq, appendQuotedString_eq]
  · intro c _ hc
    refine escapeByte_of_needsEscape (decide_eq_true ?_)
    rcases hc with h | h | h
    · exact .inr (.inl h)
    · exact .inl h
    · exact .inr (.inr h)
  · intro d hd
    obtain ⟨c, -, hdc⟩ := List.mem_flatMap.mp hd
    exact escapeByte_no_control c d hdc
  · intro _
    refine ⟨?_, ?_⟩
    · rw [appendQuotedString_eq, List.foldl_append_eq_append,
        List.append_assoc, List.append_assoc]
      rfl
    · rw [nodeAppendQuotedString_eq, nodeAppendLoop_eq, List.append_assoc,
        List.append_assoc]
      rfl
