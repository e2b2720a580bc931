import Harmony.StringView

/-!
# Base64

`base64_encode` turns three octets into four characters and marks with `=` how
many octets the last group was short of. `base64_decode_to_file` goes back, and
writes what it gets to a file.

The decoder computes how many octets there are, but the position it compares
that with is never moved on: every group is written as three octets, the zeros
that the last one was filled up with included (`decode_encode`). So the two are
inverse to each other exactly on texts of whole groups (`roundTrip_iff`).

What the decoder accepts is decided by the length alone. Characters outside the
alphabet count as zeros, as does `=` wherever it stands. The last two
characters are looked at before anything else, also where there are none
(`acceptsRight_iff`).
-/

/-- `encoding_table`. -/
def encodingTable : Bytes :=
  bytes "ABCDEFGHIJKLMNOPQRSTUVWXYZabcdefghijklmnopqrstuvwxyz0123456789+/"

/-- `mod_table`. -/
def modTable : List ℕ := [0, 2, 1]

/-- `decoding_table`: zeros, and the loop that fills it. -/
def decodingTable : UInt8 → ℕ :=
  encodingTable.zipIdx.foldl (fun table (c, i) => Function.update table c i)
    (fun _ => 0)

/-- An `int` that is counted up `k` times. -/
def countUp (i k : ℕ) : Except Fault ℕ :=
  if i + k < 2 ^ 31 then .ok (i + k) else .error .intOverflow

/-- A byte of a text, by its index. -/
def byteAt (s : Bytes) (i : ℕ) : Except Fault UInt8 :=
  match s[i]? with
  | some c => .ok c
  | none => .error .indexOutOfRange

namespace Base64

/-! ## Encoding -/

/-- The characters of a group. -/
def quartet (a b c : UInt8) : Bytes :=
  let triple := (a.toNat <<< 0x10) + (b.toNat <<< 0x08) + c.toNat
  [encodingTable.getD ((triple >>> (3 * 6)) &&& 0x3F) 0,
    encodingTable.getD ((triple >>> (2 * 6)) &&& 0x3F) 0,
    encodingTable.getD ((triple >>> (1 * 6)) &&& 0x3F) 0,
    encodingTable.getD ((triple >>> (0 * 6)) &&& 0x3F) 0]

/-- The loop of `base64_encode`. Where there is no octet, a zero is taken. The
counter over the octets, an `int` as well, is never ahead of `j`. -/
def encodeLoop (j : ℕ) : Bytes → Except Fault Bytes
  | a :: b :: c :: rest => do
    let j ← countUp j 4
    let more ← encodeLoop j rest
    .ok (quartet a b c ++ more)
  | [a, b] => do
    let _ ← countUp j 4
    .ok (quartet a b 0)
  | [a] => do
    let _ ← countUp j 4
    .ok (quartet a 0 0)
  | [] => .ok []

/-- How many characters the octets take. -/
def encodedLength (inputLength : ℕ) : ℕ := 4 * ((inputLength + 2) / 3)

/-- How many octets the last group is short of. -/
def padding (inputLength : ℕ) : ℕ := modTable.getD (inputLength % 3) 0

/-- **`base64_encode`.** -/
def encode (data : Bytes) : Except Fault Bytes := do
  let encoded ← encodeLoop 0 data
  .ok (encoded.take (encodedLength data.length - padding data.length)
    ++ List.replicate (padding data.length) 61)

/-! ## Decoding -/

/-- The six bits of a character. -/
def sextet (c : UInt8) : ℕ := if c = 61 then 0 else decodingTable c

/-- The octets of a group, as far as there are any to be written. -/
def octets (j outputLength : ℕ) (a b c d : UInt8) : Bytes :=
  let triple := (sextet a <<< (3 * 6)) + (sextet b <<< (2 * 6))
    + (sextet c <<< (1 * 6)) + (sextet d <<< (0 * 6))
  (if j < outputLength then [((triple >>> (2 * 8)) &&& 0xFF).toUInt8] else [])
  ++ (if j < outputLength then [((triple >>> (1 * 8)) &&& 0xFF).toUInt8] else [])
  ++ (if j < outputLength then [((triple >>> (0 * 8)) &&& 0xFF).toUInt8] else [])

/-- The loop of `base64_decode_to_file`, with what it writes. A group that is
not whole is read past its end. Nothing moves `j` on. -/
def decodeLoop (j outputLength i : ℕ) : Bytes → Except Fault Bytes
  | [] => .ok []
  | a :: b :: c :: d :: rest => do
    let i ← countUp i 4
    let more ← decodeLoop j outputLength i rest
    .ok (octets j outputLength a b c d ++ more)
  | _ => .error .indexOutOfRange

/-- **`base64_decode_to_file`**: what it returns, and what the file then holds,
if it was opened. -/
def decodeToFile (data : Bytes) : Except Fault (Bool × Option Bytes) :=
  if data.length % 4 ≠ 0 then .ok (false, none)
  else do
    let outputLength := data.length / 4 * 3
    let last ← byteAt data (subSizeT data.length 1)
    let outputLength := if last = 61 then outputLength - 1 else outputLength
    let last ← byteAt data (subSizeT data.length 2)
    let outputLength := if last = 61 then outputLength - 1 else outputLength
    let written ← decodeLoop 0 outputLength 0 data
    .ok (true, some written)

/-! ## Groups -/

/-- Every character of the alphabet stands for its place in it. -/
theorem sextet_encodingTable :
    ∀ n < 64, sextet (encodingTable.getD n 0) = n := by
  decide +kernel

/-- The lowest six bits. -/
theorem and_sixBits (x : ℕ) : x &&& 0x3F = x % 64 :=
  Nat.and_two_pow_sub_one_eq_mod x 6

/-- The lowest eight bits. -/
theorem and_eightBits (x : ℕ) : x &&& 0xFF = x % 256 :=
  Nat.and_two_pow_sub_one_eq_mod x 8

/-- The number that three octets make. -/
def ofOctets (a b c : UInt8) : ℕ := a.toNat * 65536 + b.toNat * 256 + c.toNat

/-- The characters of a group are the digits of its number. -/
theorem quartet_eq (a b c : UInt8) :
    quartet a b c
      = [encodingTable.getD (ofOctets a b c / 262144 % 64) 0,
        encodingTable.getD (ofOctets a b c / 4096 % 64) 0,
        encodingTable.getD (ofOctets a b c / 64 % 64) 0,
        encodingTable.getD (ofOctets a b c % 64) 0] := by
  simp only [quartet, and_sixBits, Nat.shiftLeft_eq, Nat.shiftRight_eq_div_pow,
    ofOctets, Nat.reduceMul, Nat.reducePow, Nat.div_one]

/-- **The octets of a group are the digits of its number**, if any are
written. -/
theorem octets_eq {j outputLength : ℕ} (h : j < outputLength)
    (x y z w : UInt8) (n : ℕ)
    (hn : sextet x * 262144 + sextet y * 4096 + sextet z * 64 + sextet w = n) :
    octets j outputLength x y z w
      = [(n / 65536 % 256).toUInt8, (n / 256 % 256).toUInt8,
        (n % 256).toUInt8] := by
  simp only [octets, if_pos h, and_eightBits, Nat.shiftLeft_eq,
    Nat.shiftRight_eq_div_pow, ← hn, Nat.reduceMul, Nat.reducePow, Nat.div_one,
    Nat.mul_one, List.cons_append, List.nil_append]

/-- The digits of the number of three octets are the octets. -/
theorem digits_ofOctets (a b c : UInt8) :
    [(ofOctets a b c / 65536 % 256).toUInt8, (ofOctets a b c / 256 % 256).toUInt8,
      (ofOctets a b c % 256).toUInt8] = [a, b, c] := by
  have ha := a.toNat_lt
  have hb := b.toNat_lt
  have hc := c.toNat_lt
  have hfst : ofOctets a b c / 65536 % 256 = a.toNat := by
    unfold ofOctets
    omega
  have hsnd : ofOctets a b c / 256 % 256 = b.toNat := by
    unfold ofOctets
    omega
  have hthd : ofOctets a b c % 256 = c.toNat := by
    unfold ofOctets
    omega
  rw [hfst, hsnd, hthd]
  simp

/-! ## What is encoded -/

/-- The characters of the groups, before any are replaced by `=`. -/
def groups : Bytes → Bytes
  | a :: b :: c :: rest => quartet a b c ++ groups rest
  | [a, b] => quartet a b 0
  | [a] => quartet a 0 0
  | [] => []

/-- **The text of the octets.** -/
def encoded (data : Bytes) : Bytes :=
  (groups data).take (encodedLength data.length - padding data.length)
    ++ List.replicate (padding data.length) 61

@[simp] theorem length_quartet (a b c : UInt8) : (quartet a b c).length = 4 :=
  rfl

theorem encodedLength_add_three (n : ℕ) :
    encodedLength (n + 3) = 4 + encodedLength n := by
  unfold encodedLength
  omega

theorem encodedLength_two : encodedLength 2 = 4 := by decide

theorem encodedLength_one : encodedLength 1 = 4 := by decide

theorem padding_add_three (n : ℕ) : padding (n + 3) = padding n := by
  unfold padding
  rw [Nat.add_mod_right]

/-- The padding is what is missing to whole groups. -/
theorem padding_eq (n : ℕ) : padding n = (3 - n % 3) % 3 := by
  unfold padding modTable
  have hcases : n % 3 = 0 ∨ n % 3 = 1 ∨ n % 3 = 2 := by omega
  rcases hcases with h | h | h
  · rw [h]
    rfl
  · rw [h]
    rfl
  · rw [h]
    rfl

/-- There is room for the padding. -/
theorem padding_le (n : ℕ) : padding n ≤ encodedLength n := by
  rw [padding_eq, encodedLength]
  omega

theorem length_groups (data : Bytes) :
    (groups data).length = encodedLength data.length := by
  induction data using groups.induct with
  | case1 a b c rest ih =>
    rw [groups, List.length_append, ih, length_quartet]
    exact (encodedLength_add_three _).symm
  | case2 a b =>
    rw [groups, length_quartet]
    exact encodedLength_two.symm
  | case3 a =>
    rw [groups, length_quartet]
    exact encodedLength_one.symm
  | case4 => rfl

theorem length_encoded (data : Bytes) :
    (encoded data).length = encodedLength data.length := by
  have h := padding_le data.length
  rw [encoded, List.length_append, List.length_take, length_groups,
    List.length_replicate]
  omega

/-- The text begins with the first group. -/
theorem encoded_cons (a b c : UInt8) (rest : Bytes) :
    encoded (a :: b :: c :: rest) = quartet a b c ++ encoded rest := by
  have h := padding_le rest.length
  have hcut : encodedLength (a :: b :: c :: rest).length
      - padding (a :: b :: c :: rest).length
      = (quartet a b c).length
        + (encodedLength rest.length - padding rest.length) := by
    show encodedLength (rest.length + 3) - padding (rest.length + 3) = _
    rw [encodedLength_add_three, padding_add_three, length_quartet]
    omega
  rw [encoded, hcut, groups, List.take_length_add_append, List.append_assoc]
  show _ ++ (_ ++ List.replicate (padding (rest.length + 3)) 61) = _
  rw [padding_add_three, encoded]

/-- The loop of the encoder ends as long as its counter does not overflow. -/
theorem encodeLoop_eq (data : Bytes) {j : ℕ} (hj : j < 2 ^ 31) :
    encodeLoop j data
      = if j + encodedLength data.length < 2 ^ 31 then .ok (groups data)
        else .error .intOverflow := by
  induction data using groups.induct generalizing j with
  | case1 a b c rest ih =>
    have hlength : j + encodedLength (a :: b :: c :: rest).length
        = j + 4 + encodedLength rest.length := by
      show j + encodedLength (rest.length + 3) = _
      rw [encodedLength_add_three, Nat.add_assoc]
    rw [encodeLoop, hlength, countUp]
    split_ifs with hnext hall hall
    · rw [Except.ok_bind, ih hnext, if_pos hall]
      rfl
    · rw [Except.ok_bind, ih hnext, if_neg hall]
      rfl
    · omega
    · rfl
  | case2 a b =>
    rw [encodeLoop, groups,
      show encodedLength [a, b].length = 4 from encodedLength_two,
      countUp]
    split_ifs <;> rfl
  | case3 a =>
    rw [encodeLoop, groups,
      show encodedLength [a].length = 4 from encodedLength_one,
      countUp]
    split_ifs <;> rfl
  | case4 => exact (if_pos hj).symm

/-- **What `base64_encode` returns.** -/
theorem encode_eq (data : Bytes) :
    encode data = if encodedLength data.length < 2 ^ 31 then .ok (encoded data)
      else .error .intOverflow := by
  rw [encode, encodeLoop_eq data (by decide), Nat.zero_add]
  split_ifs <;> rfl

/-! ## What is decoded -/

/-- A byte inside a text. -/
theorem byteAt_of_lt {s : Bytes} {i : ℕ} (h : i < s.length) :
    byteAt s i = .ok (s[i]) := by
  rw [byteAt, List.getElem?_eq_getElem h]

/-- A position counted from the end lies inside the text. -/
theorem subSizeT_lt {n k : ℕ} (hk : 0 < k) (h : k ≤ n) : subSizeT n k < n := by
  unfold subSizeT
  rw [show n + 2 ^ 64 - k = (n - k) + 2 ^ 64 by omega, Nat.add_mod_right]
  exact (Nat.mod_le _ _).trans_lt (by omega)

/-- **A text of whole groups** gets to the loop, and something is to be
written. -/
theorem decodeToFile_of_mod {s : Bytes} (h : s.length % 4 = 0) (hne : s ≠ []) :
    ∃ outputLength, 0 < outputLength
      ∧ decodeToFile s = (do
        let written ← decodeLoop 0 outputLength 0 s
        .ok (true, some written)) := by
  have hpos := List.length_pos_of_ne_nil hne
  have hlast := byteAt_of_lt (subSizeT_lt Nat.one_pos (n := s.length) (by omega))
  have hlast' := byteAt_of_lt (subSizeT_lt Nat.two_pos (n := s.length) (by omega))
  unfold decodeToFile
  rw [if_neg (not_not.mpr h), hlast, Except.ok_bind, hlast', Except.ok_bind]
  refine ⟨_, ?_, rfl⟩
  split_ifs <;> omega

/-- The loop of the decoder ends as long as its counter does not overflow. -/
theorem decodeLoop_ends {s : Bytes} (h : s.length % 4 = 0)
    (j outputLength : ℕ) {i : ℕ} (hi : i + s.length < 2 ^ 31) :
    ∃ written, decodeLoop j outputLength i s = .ok written := by
  induction i, s using decodeLoop.induct with
  | case1 i => exact ⟨[], rfl⟩
  | case2 i a b c d rest ih =>
    have hlength : (a :: b :: c :: d :: rest).length = rest.length + 4 := rfl
    rw [hlength] at h hi
    obtain ⟨written, hrest⟩ := ih (i + 4) (by omega) (by omega)
    refine ⟨octets j outputLength a b c d ++ written, ?_⟩
    rw [decodeLoop, countUp, if_pos (by omega), Except.ok_bind, hrest,
      Except.ok_bind]
  | case3 s i hnil hgroup =>
    -- a text of less than a group
    exfalso
    rcases s with - | ⟨a, - | ⟨b, - | ⟨c, - | ⟨d, rest⟩⟩⟩⟩
    · exact hnil rfl
    · cases h
    · cases h
    · cases h
    · exact hgroup a b c d rest rfl

/-- Otherwise it does not. -/
theorem decodeLoop_overflows {s : Bytes} (h : s.length % 4 = 0)
    (j outputLength : ℕ) {i : ℕ} (hi : i < 2 ^ 31)
    (hall : 2 ^ 31 ≤ i + s.length) :
    decodeLoop j outputLength i s = .error .intOverflow := by
  induction i, s using decodeLoop.induct with
  | case1 i => exact absurd hall (Nat.not_le.mpr hi)
  | case2 i a b c d rest ih =>
    have hlength : (a :: b :: c :: d :: rest).length = rest.length + 4 := rfl
    rw [hlength] at h hall
    rw [decodeLoop, countUp]
    split_ifs with hnext
    · rw [Except.ok_bind, ih (i + 4) (by omega) hnext (by omega)]
      rfl
    · rfl
  | case3 s i hnil hgroup =>
    exfalso
    rcases s with - | ⟨a, - | ⟨b, - | ⟨c, - | ⟨d, rest⟩⟩⟩⟩
    · exact hnil rfl
    · cases h
    · cases h
    · cases h
    · exact hgroup a b c d rest rfl

/-- **A group in front is written as the octets of its number.** -/
theorem decodeLoop_group {j outputLength i : ℕ} (hj : j < outputLength)
    (hi : i + 4 < 2 ^ 31) {x y z w a b c : UInt8}
    (hn : sextet x * 262144 + sextet y * 4096 + sextet z * 64 + sextet w
      = ofOctets a b c) {rest written : Bytes}
    (hrest : decodeLoop j outputLength (i + 4) rest = .ok written) :
    decodeLoop j outputLength i (x :: y :: z :: w :: rest)
      = .ok (a :: b :: c :: written) := by
  rw [decodeLoop, countUp, if_pos hi, Except.ok_bind, hrest, Except.ok_bind,
    octets_eq hj x y z w _ hn, digits_ofOctets]
  rfl

/-- The digits of a number stand for themselves. -/
theorem sextet_digit (n : ℕ) : sextet (encodingTable.getD (n % 64) 0) = n % 64 :=
  sextet_encodingTable _ (Nat.mod_lt _ (by decide))

theorem ofOctets_lt (a b c : UInt8) : ofOctets a b c < 16777216 := by
  have ha := a.toNat_lt
  have hb := b.toNat_lt
  have hc := c.toNat_lt
  unfold ofOctets
  omega

/-- The text of two octets. -/
theorem encoded_two (a b : UInt8) :
    encoded [a, b] = (quartet a b 0).take 3 ++ [61] := by
  have hcut : encodedLength 2 - padding 2 = 3 := by decide
  have hpadding : padding 2 = 1 := by decide
  rw [encoded, groups]
  show (quartet a b 0).take (encodedLength 2 - padding 2)
    ++ List.replicate (padding 2) 61 = _
  rw [hcut, hpadding]
  rfl

/-- The text of one octet. -/
theorem encoded_one (a : UInt8) :
    encoded [a] = (quartet a 0 0).take 2 ++ [61, 61] := by
  have hcut : encodedLength 1 - padding 1 = 2 := by decide
  have hpadding : padding 1 = 2 := by decide
  rw [encoded, groups]
  show (quartet a 0 0).take (encodedLength 1 - padding 1)
    ++ List.replicate (padding 1) 61 = _
  rw [hcut, hpadding]
  rfl

/-- **The text of the octets is written as the octets**, the last group being
filled up with zeros. -/
theorem decodeLoop_encoded (data : Bytes) {j outputLength i : ℕ}
    (hj : j < outputLength) (hi : i + encodedLength data.length < 2 ^ 31) :
    decodeLoop j outputLength i (encoded data)
      = .ok (data ++ List.replicate (padding data.length) 0) := by
  induction data using groups.induct generalizing i with
  | case1 a b c rest ih =>
    have hlength : encodedLength (a :: b :: c :: rest).length
        = 4 + encodedLength rest.length := encodedLength_add_three _
    have hpadding : padding (a :: b :: c :: rest).length = padding rest.length :=
      padding_add_three _
    rw [hlength] at hi
    have hrest := ih (i := i + 4) (by omega)
    have hlt := ofOctets_lt a b c
    rw [encoded_cons, quartet_eq, hpadding]
    refine decodeLoop_group hj (by omega) ?_ hrest
    rw [sextet_digit, sextet_digit, sextet_digit, sextet_digit]
    omega
  | case2 a b =>
    have hlt := ofOctets_lt a b 0
    have hlength : encodedLength [a, b].length = 4 := encodedLength_two
    rw [encoded_two, quartet_eq]
    refine decodeLoop_group hj (by omega) ?_ rfl
    rw [sextet_digit, sextet_digit, sextet_digit, show sextet 61 = 0 from rfl]
    -- without a third octet the last digit is zero
    have hzero : ofOctets a b 0 % 64 = 0 := by
      unfold ofOctets
      rw [show (0 : UInt8).toNat = 0 from rfl]
      omega
    omega
  | case3 a =>
    have hlt := ofOctets_lt a 0 0
    have hlength : encodedLength [a].length = 4 := encodedLength_one
    rw [encoded_one, quartet_eq]
    refine decodeLoop_group hj (by omega) ?_ rfl
    rw [sextet_digit, sextet_digit, show sextet 61 = 0 from rfl]
    -- without a second octet the last two digits are zero
    have hzero : ofOctets a 0 0 % 4096 = 0 := by
      unfold ofOctets
      rw [show (0 : UInt8).toNat = 0 from rfl]
      omega
    omega
  | case4 => rfl

/-- **What comes back**: the octets, and the zeros of the last group. -/
theorem decode_encoded {data : Bytes} (hne : data ≠ [])
    (hfits : encodedLength data.length < 2 ^ 31) :
    decodeToFile (encoded data)
      = .ok (true, some (data ++ List.replicate (padding data.length) 0)) := by
  have hpos := List.length_pos_of_ne_nil hne
  have hmod : (encoded data).length % 4 = 0 := by
    rw [length_encoded, encodedLength]
    omega
  have hne' : encoded data ≠ [] := by
    refine List.ne_nil_of_length_pos ?_
    rw [length_encoded, encodedLength]
    omega
  obtain ⟨outputLength, hout, hdecode⟩ := decodeToFile_of_mod hmod hne'
  rw [hdecode, decodeLoop_encoded data hout (by omega), Except.ok_bind]

/-! ## There and back -/

/-- **The octets come back**: the text of them is decoded, and the file then
holds exactly the octets. -/
def RoundTrip (data : Bytes) : Prop :=
  ∃ text, encode data = .ok text ∧ decodeToFile text = .ok (true, some data)

/-- **Exactly the octets of whole groups come back**, as far as an `int` can
count their text. -/
theorem roundTrip_iff (data : Bytes) (hpos : 0 < data.length) :
    RoundTrip data
      ↔ data.length % 3 = 0 ∧ encodedLength data.length < 2 ^ 31 := by
  unfold RoundTrip
  rw [encode_eq]
  by_cases hfits : encodedLength data.length < 2 ^ 31
  · rw [if_pos hfits, and_iff_left hfits]
    have hdecode := decode_encoded (List.ne_nil_of_length_pos hpos) hfits
    constructor
    · rintro ⟨text, htext, hback⟩
      cases htext
      rw [hdecode] at hback
      have hsame : data ++ List.replicate (padding data.length) 0 = data :=
        Option.some.inj (Prod.mk.inj (Except.ok.inj hback)).2
      have hlength := congrArg List.length hsame
      rw [List.length_append, List.length_replicate, padding_eq] at hlength
      omega
    · intro hmod
      have hpadding : padding data.length = 0 := by
        rw [padding_eq, hmod]
      rw [hpadding, List.replicate_zero, List.append_nil] at hdecode
      exact ⟨_, rfl, hdecode⟩
  · rw [if_neg hfits]
    refine iff_of_false ?_ fun h => hfits h.2
    rintro ⟨text, htext, -⟩
    cases htext

/-- Three octets come back. -/
theorem man_roundTrip : 0 < (bytes "Man").length ∧ RoundTrip (bytes "Man") :=
  ⟨by decide, (roundTrip_iff (bytes "Man") (by decide)).mpr (by decide)⟩

/-- **One octet does not**: two zeros are written behind it. -/
theorem oneOctet_not_roundTrip :
    ¬ ∀ data : Bytes, 0 < data.length → RoundTrip data := by
  intro h
  obtain ⟨text, htext, hback⟩ := h (bytes "M") (by decide)
  have hencode : encode (bytes "M") = .ok (bytes "TQ==") := by decide
  rw [hencode] at htext
  cases htext
  exact absurd hback (by decide)

/-! ## What is accepted -/

/-- **Padded Base64**: whole groups of characters of the alphabet, of which the
last or the last two may be `=`. -/
def WellFormed (s : Bytes) : Prop :=
  s.length % 4 = 0 ∧ ∃ pad ≤ 2,
    s.take (s.length - pad) ⊆ encodingTable
      ∧ s.drop (s.length - pad) = List.replicate pad 61

instance (s : Bytes) : Decidable (WellFormed s) :=
  inferInstanceAs (Decidable (_ ∧ ∃ pad ≤ 2, _))

/-- **A text is judged by its form**: the call returns, it returns true only for
padded Base64, and for everything else it returns false and does not open the
file. -/
def AcceptsRight (s : Bytes) : Prop :=
  ∃ r, decodeToFile s = .ok r ∧ (r.1 = true → WellFormed s)
    ∧ (¬ WellFormed s → r = (false, none))

/-- **Exactly these texts are judged by their form**: those that are not made of
groups of four, and padded Base64 that is not empty, as far as an `int` can
count it. -/
theorem acceptsRight_iff (s : Bytes) :
    AcceptsRight s
      ↔ s.length % 4 ≠ 0 ∨ s ≠ [] ∧ WellFormed s ∧ s.length < 2 ^ 31 := by
  unfold AcceptsRight
  by_cases hmod : s.length % 4 = 0
  · rw [or_iff_right (not_not.mpr hmod)]
    by_cases hne : s = []
    · -- the byte in front of the text is read
      subst hne
      refine iff_of_false ?_ fun h => h.1 rfl
      rintro ⟨r, hr, -⟩
      have hfault : decodeToFile [] = .error .indexOutOfRange := by decide
      rw [hfault] at hr
      cases hr
    · rw [and_iff_right hne]
      obtain ⟨outputLength, -, hdecode⟩ := decodeToFile_of_mod hmod hne
      rw [hdecode]
      by_cases hfits : s.length < 2 ^ 31
      · obtain ⟨written, hloop⟩ :=
          decodeLoop_ends hmod 0 outputLength (i := 0) (by omega)
        rw [hloop, Except.ok_bind, and_iff_left hfits]
        constructor
        · rintro ⟨r, hr, htrue, -⟩
          cases hr
          exact htrue rfl
        · intro hwf
          exact ⟨_, rfl, fun _ => hwf, fun hnot => absurd hwf hnot⟩
      · rw [decodeLoop_overflows hmod 0 outputLength (by decide) (by omega)]
        refine iff_of_false ?_ fun h => hfits h.2
        rintro ⟨r, hr, -⟩
        cases hr
  · refine iff_of_true ?_ (Or.inl hmod)
    refine ⟨(false, none), if_pos hmod, ?_, fun _ => rfl⟩
    intro h
    cases h

/-- **A text that is no Base64 at all** is accepted. -/
theorem questionMarks_not_acceptsRight : ¬ ∀ s : Bytes, AcceptsRight s := by
  intro h
  obtain ⟨r, hr, -, hrejects⟩ := h (bytes "????")
  rw [hrejects (by decide)] at hr
  exact absurd hr (by decide)

end Base64
