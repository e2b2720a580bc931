import Harmony.Json

/-!
# Numbers and characters in a JSON text

Two parts of a text that are written without quotes around them, or byte by
byte within. A `Decimal` is a number in decimal notation: a sign, a whole
number, digits behind the point, and an exponent. `readNumber_append` says that
its text is read as its value, unless the text goes on with what a number may go
on with.

A text consists of characters, and the bytes of ASCII are those that are
characters of their own. So they divide it (`utf8_append_cons`), and replacing
them by others of them changes nothing (`utf8_flatMap`). That is all there is to
say about the encoding, for whatever a writer adds to a string is ASCII.
-/

namespace Json

variable {n : ℕ} {ds rest : List UInt8}

/-! ## The text of a number -/

/-- The byte of a digit. -/
def digit (d : Fin 10) : UInt8 := 48 + d.val.toUInt8

/-- The number some digits make. -/
def ofDigits (ds : List (Fin 10)) : ℕ :=
  ds.foldl (fun (n : ℕ) d => 10 * n + d.val) 0

/-- The digits of a natural number. -/
def decimal (n : ℕ) : List UInt8 :=
  (Nat.toDigits 10 n).map fun c => c.toNat.toUInt8

/-- **A decimal number.** -/
structure Decimal where
  negative : Bool
  whole : ℕ
  /-- The digits behind the point. -/
  fraction : List (Fin 10)
  /-- Whether the exponent is negative, and its digits. -/
  exponent : Option (Bool × Fin 10 × List (Fin 10))

namespace Decimal

/-- The point, and the digits behind it. -/
def fractionText (d : Decimal) : List UInt8 :=
  if d.fraction = [] then [] else 46 :: d.fraction.map digit

/-- The exponent, with its sign. -/
def exponentText (d : Decimal) : List UInt8 :=
  match d.exponent with
  | none => []
  | some (negative, first, more) =>
    101 :: (if negative then 45 else 43) :: (first :: more).map digit

/-- The number of the exponent. -/
def exponentValue (d : Decimal) : ℤ :=
  match d.exponent with
  | none => 0
  | some (negative, first, more) =>
    if negative then -(ofDigits (first :: more) : ℤ)
    else ofDigits (first :: more)

/-- **The text of a decimal number.** -/
def text (d : Decimal) : List UInt8 :=
  (if d.negative then [45] else []) ++ (decimal d.whole
    ++ (d.fractionText ++ d.exponentText))

/-- **The value of a decimal number.** -/
def value (d : Decimal) : ℚ :=
  let q : ℚ := d.whole + ofDigits d.fraction / 10 ^ d.fraction.length
  (if d.negative then -q else q) * 10 ^ d.exponentValue

/-- An integer. -/
def ofInt (k : ℤ) : Decimal := ⟨k < 0, k.natAbs, [], none⟩

/-- The value of an integer. -/
theorem value_ofInt (k : ℤ) : (ofInt k).value = k := by
  have habs : (k.natAbs : ℚ) = ((k.natAbs : ℤ) : ℚ) :=
    (Int.cast_natCast _).symm
  have hq : (k.natAbs : ℚ)
      + (ofDigits [] : ℕ) / 10 ^ ([] : List (Fin 10)).length = k.natAbs := by
    simp [ofDigits]
  unfold value ofInt exponentValue
  dsimp only
  rw [hq, zpow_zero, mul_one, habs]
  by_cases hk : k < 0
  · rw [decide_eq_true hk, if_pos rfl, Int.ofNat_natAbs_of_nonpos hk.le,
      Int.cast_neg, neg_neg]
  · rw [decide_eq_false hk, if_neg Bool.false_ne_true,
      Int.natAbs_of_nonneg (not_lt.mp hk)]

end Decimal

/-! ### Reading it -/

/-- The byte of a digit is one. -/
theorem isDigit_digit (d : Fin 10) : isDigit (digit d) := by
  revert d
  decide

/-- The byte of a digit has its value. -/
theorem toNat_digit (d : Fin 10) : (digit d).toNat - 48 = d := by
  revert d
  decide

/-- Digits are read as they are written. -/
theorem digitsValue_map (ds : List (Fin 10)) :
    digitsValue (ds.map digit) = ofDigits ds := by
  simp only [digitsValue, ofDigits, List.foldl_map, toNat_digit]

/-- The digits of a number of one digit. -/
theorem decimal_of_lt (hn : n < 10) : decimal n = [digit ⟨n, hn⟩] := by
  have hchar : ∀ d : Fin 10,
      (Nat.digitChar d).toNat.toUInt8 = digit d := by decide
  rw [decimal, Nat.toDigits_of_lt_base hn, List.map_singleton]
  exact congrArg (fun c => [c]) (hchar ⟨n, hn⟩)

/-- The digits of a number of several digits. -/
theorem decimal_of_le (hn : 10 ≤ n) :
    decimal n = decimal (n / 10)
      ++ [digit ⟨n % 10, Nat.mod_lt n (by decide)⟩] := by
  rw [← decimal_of_lt (Nat.mod_lt n (by decide)), decimal, decimal, decimal,
    ← List.map_append, Nat.toDigits_append_toDigits (by decide)
      (Nat.div_pos hn (by decide)) (Nat.mod_lt n (by decide)),
    Nat.div_add_mod]

/-- **What the digits of a number are.** They are digits, they make the number,
and the first of them is a zero only if it is the only one. -/
theorem decimal_spec (n : ℕ) :
    (∀ d ∈ decimal n, isDigit d) ∧ digitsValue (decimal n) = n
      ∧ ((decimal n).head? = some 48 → n = 0) ∧ decimal n ≠ [] := by
  have hzero : ∀ d : Fin 10, digit d = 48 → d = 0 := by decide
  induction n using Nat.strong_induction_on with
  | h n ih =>
    by_cases hn : n < 10
    · rw [decimal_of_lt hn]
      refine ⟨List.forall_mem_singleton.mpr (isDigit_digit _), ?_, fun h => ?_,
        List.cons_ne_nil _ _⟩
      · simp [digitsValue, toNat_digit]
      · exact congrArg Fin.val (hzero _ (Option.some.inj h))
    · have hn := Nat.le_of_not_lt hn
      obtain ⟨hdigits, hnumber, hhead, hne⟩ :=
        ih (n / 10) (Nat.div_lt_self (by omega) (by decide))
      rw [decimal_of_le hn]
      refine ⟨?_, ?_, fun h => ?_, List.append_ne_nil_of_left_ne_nil hne _⟩
      · rw [List.forall_mem_append]
        exact ⟨hdigits, List.forall_mem_singleton.mpr (isDigit_digit _)⟩
      · unfold digitsValue at hnumber ⊢
        rw [List.foldl_append, hnumber, List.foldl_cons, List.foldl_nil,
          toNat_digit]
        exact Nat.div_add_mod n 10
      · rw [List.head?_append, List.head?_eq_some_head hne] at h
        rw [List.head?_eq_some_head hne] at hhead
        have := hhead h
        omega

/-- A text does not go on with what a number may. -/
def EndsNumber (rest : List UInt8) : Prop :=
  ∀ c ∈ rest.head?, isDigit c = false ∧ c ≠ 46 ∧ c ≠ 101 ∧ c ≠ 69

/-- Digits end where there is none. -/
theorem digits_append (rest : List UInt8) (hds : ∀ d ∈ ds, isDigit d)
    (hrest : ∀ c ∈ rest.head?, isDigit c = false) :
    (ds ++ rest).takeWhile isDigit = ds
      ∧ (ds ++ rest).dropWhile isDigit = rest := by
  rw [List.takeWhile_append_of_pos hds, List.dropWhile_append_of_pos hds]
  cases rest with
  | nil => simp
  | cons c rest => simp [hrest c rfl]

/-- An exponent is read as it is written. -/
theorem readExponent_append (d : Decimal) (hrest : EndsNumber rest) :
    readExponent (d.exponentText ++ rest) = some (d.exponentValue, rest) := by
  unfold Decimal.exponentText Decimal.exponentValue
  cases d.exponent with
  | none =>
    unfold readExponent
    rw [List.nil_append, if_neg]
    exact fun h => h.elim (fun h => (hrest _ h).2.2.1 rfl)
      fun h => (hrest _ h).2.2.2 rfl
  | some e =>
    obtain ⟨negative, first, more⟩ := e
    obtain ⟨htake, hdrop⟩ := digits_append rest
      (List.forall_mem_map.mpr fun d (_ : d ∈ first :: more) => isDigit_digit d)
      fun c hc => (hrest c hc).1
    unfold readExponent
    cases negative <;>
      simp [htake, hdrop, digitsValue_map, -List.map_cons]

/-- The digits behind the point are read as they are written. -/
theorem readFraction_append (d : Decimal)
    (hrest : ∀ c ∈ rest.head?, isDigit c = false ∧ c ≠ 46) :
    readFraction (d.fractionText ++ rest)
      = some (d.fraction.map digit, rest) := by
  unfold Decimal.fractionText
  by_cases hnil : d.fraction = []
  · unfold readFraction
    rw [if_pos hnil, hnil, List.nil_append, if_neg]
    · rfl
    · exact fun h => (hrest _ h).2 rfl
  · obtain ⟨htake, hdrop⟩ := digits_append rest
      (List.forall_mem_map.mpr fun d' (_ : d' ∈ d.fraction) => isDigit_digit d')
      fun c hc => (hrest c hc).1
    unfold readFraction
    simp [hnil, htake, hdrop]

/-- Neither a digit nor a point is in front of an exponent. -/
theorem head_exponentText (d : Decimal) (hrest : EndsNumber rest) :
    ∀ c ∈ (d.exponentText ++ rest).head?, isDigit c = false ∧ c ≠ 46 := by
  unfold Decimal.exponentText
  cases d.exponent with
  | none => exact fun c hc => ⟨(hrest c hc).1, (hrest c hc).2.1⟩
  | some e =>
    rintro c ⟨⟩
    decide

/-- No digit is in front of a point. -/
theorem head_fractionText (d : Decimal)
    (hrest : ∀ c ∈ rest.head?, isDigit c = false) :
    ∀ c ∈ (d.fractionText ++ rest).head?, isDigit c = false := by
  unfold Decimal.fractionText
  split
  · exact hrest
  · rintro c ⟨⟩
    decide

/-- **A decimal number is read as it is written.** -/
theorem readNumber_append (d : Decimal) (hrest : EndsNumber rest) :
    readNumber (d.text ++ rest) = some (d.value, rest) := by
  obtain ⟨hdigits, hnumber, hhead, hne⟩ := decimal_spec d.whole
  have hexponent := head_exponentText d hrest
  obtain ⟨htake, hdrop⟩ := digits_append _ hdigits
    (head_fractionText d fun c hc => (hexponent c hc).1)
  have hsign : (decimal d.whole
      ++ (d.fractionText ++ (d.exponentText ++ rest))).head? ≠ some 45 := by
    rw [List.head?_append, List.head?_eq_some_head hne]
    intro h
    have := hdigits _ (List.head_mem hne)
    rw [Option.some.inj h] at this
    cases this
  have hzero : ¬ (decimal d.whole = []
      ∨ (decimal d.whole).head? = some 48 ∧ decimal d.whole ≠ [48]) := by
    rintro (h | ⟨h, h'⟩)
    · exact hne h
    · rw [hhead h] at h'
      exact h' (by decide)
  have htext : d.text ++ rest = (if d.negative then [45] else [])
      ++ (decimal d.whole ++ (d.fractionText ++ (d.exponentText ++ rest))) := by
    simp only [Decimal.text, List.append_assoc]
  have hvalue : numberValue d.negative (decimal d.whole) (d.fraction.map digit)
      d.exponentValue = d.value := by
    simp only [numberValue, Decimal.value, hnumber, digitsValue_map,
      List.length_map]
  rw [htext]
  unfold readNumber
  cases hneg : d.negative with
  | false =>
    simp only [Bool.false_eq_true, if_false, List.nil_append, hsign,
      decide_false, htake, hdrop, hzero, readFraction_append d hexponent,
      Option.bind_eq_bind, Option.bind_some, readExponent_append d hrest]
    rw [← hvalue, hneg]
  | true =>
    simp only [if_true, List.singleton_append, List.head?_cons, List.tail_cons,
      decide_true, htake, hdrop, hzero, if_false,
      readFraction_append d hexponent, Option.bind_eq_bind, Option.bind_some,
      readExponent_append d hrest]
    rw [← hvalue, hneg]

/-! ## Characters -/

variable {c : UInt8} {a b s text : List UInt8}

/-- The bytes of characters. -/
theorem utf8_iff : Utf8 text ↔ ∃ cs : List Char,
    text = cs.flatMap String.utf8EncodeChar := by
  constructor
  · rintro ⟨cs, hcs⟩
    have h := congrArg (fun b : ByteArray => b.data.toList) hcs
    simp only [List.utf8Encode, List.data_toByteArray] at h
    exact ⟨cs, h⟩
  · rintro ⟨cs, rfl⟩
    exact ⟨cs, rfl⟩

/-- Nothing is no characters. -/
theorem utf8_nil : Utf8 [] := utf8_iff.mpr ⟨[], rfl⟩

/-- Characters behind characters. -/
theorem Utf8.append (ha : Utf8 a) (hb : Utf8 b) : Utf8 (a ++ b) := by
  obtain ⟨ca, rfl⟩ := utf8_iff.mp ha
  obtain ⟨cb, rfl⟩ := utf8_iff.mp hb
  exact utf8_iff.mpr ⟨ca ++ cb, List.flatMap_append.symm⟩

/-- A character of ASCII is one byte. -/
theorem utf8_of_lt (hc : c < 128) : utf8 c.toNat = [c] := by
  have hall : ∀ n : Fin 128, utf8 n.val = [n.val.toUInt8] := by decide
  have hlt : c.toNat < 128 := UInt8.lt_iff_toNat_lt.mp hc
  rw [hall ⟨c.toNat, hlt⟩]
  exact congrArg (fun c => [c]) UInt8.ofNat_toNat

/-- A character. -/
theorem utf8_utf8 (n : ℕ) : Utf8 (utf8 n) :=
  utf8_iff.mpr ⟨[Char.ofNat n], by simp [utf8]⟩

/-- **A byte of ASCII is all of its character.** -/
theorem utf8EncodeChar_eq_of_mem {ch : Char} (hc : c < 128)
    (hmem : c ∈ String.utf8EncodeChar ch) : String.utf8EncodeChar ch = [c] := by
  have hor : ∀ x k : UInt8, 128 ≤ k → c ≠ x ||| k := by
    rintro x k hk rfl
    rw [UInt8.lt_iff_toNat_lt, UInt8.toNat_or] at hc
    exact absurd (Nat.lt_of_le_of_lt Nat.right_le_or hc)
      (Nat.not_lt.mpr (UInt8.le_iff_toNat_le.mp hk))
  rw [String.utf8EncodeChar_eq_utf8EncodeCharFast] at hmem ⊢
  unfold String.utf8EncodeCharFast at hmem ⊢
  dsimp only at hmem ⊢
  split at hmem
  · rw [if_pos ‹_›, List.mem_singleton.mp hmem]
  · exfalso
    split at hmem
    · simp [hor] at hmem
    · split at hmem
      · simp [hor] at hmem
      · simp [hor] at hmem

/-- **A byte of ASCII divides characters.** -/
theorem utf8_append_cons (hc : c < 128) :
    Utf8 (a ++ c :: b) ↔ Utf8 a ∧ Utf8 b := by
  constructor
  · intro h
    obtain ⟨cs, hcs⟩ := utf8_iff.mp h
    clear h
    induction cs generalizing a with
    | nil => simp at hcs
    | cons ch cs ih =>
      rw [List.flatMap_cons, List.append_eq_append_iff] at hcs
      obtain ⟨x, hch, hrest⟩ | ⟨a', rfl, hrest⟩ := hcs
      · cases x with
        | nil =>
          obtain ⟨-, hb⟩ := ih (a := []) hrest
          rw [List.append_nil] at hch
          exact ⟨utf8_iff.mpr ⟨[ch], by simp [hch]⟩, hb⟩
        | cons c' x =>
          obtain ⟨rfl, rfl⟩ := List.cons.inj hrest
          rw [utf8EncodeChar_eq_of_mem hc
            (hch ▸ List.mem_append_right _ List.mem_cons_self)] at hch
          have hlen := congrArg List.length hch
          simp only [List.length_append, List.length_cons,
            List.length_nil] at hlen
          obtain ⟨rfl, rfl⟩ : a = [] ∧ x = [] :=
            ⟨List.length_eq_zero_iff.mp (by omega),
              List.length_eq_zero_iff.mp (by omega)⟩
          exact ⟨utf8_nil, utf8_iff.mpr ⟨cs, rfl⟩⟩
      · obtain ⟨ha', hb⟩ := ih hrest.symm
        exact ⟨(utf8_iff.mpr ⟨[ch], by simp⟩).append ha', hb⟩
  · rintro ⟨ha, hb⟩
    rw [← List.singleton_append, ← utf8_of_lt hc]
    exact ha.append ((utf8_utf8 _).append hb)

/-- A byte of ASCII in front of characters. -/
theorem utf8_cons (hc : c < 128) : Utf8 (c :: b) ↔ Utf8 b :=
  (utf8_append_cons (a := []) hc).trans (and_iff_right utf8_nil)

/-- Bytes of ASCII. -/
def Ascii (a : List UInt8) : Prop := ∀ c ∈ a, c < 128

instance (a : List UInt8) : Decidable (Ascii a) :=
  List.decidableBAll (fun c => c < 128) a

/-- Bytes of ASCII in front of characters. -/
theorem utf8_append (ha : Ascii a) : Utf8 (a ++ b) ↔ Utf8 b := by
  induction a with
  | nil => exact Iff.rfl
  | cons c a ih =>
    rw [List.cons_append, utf8_cons (ha c List.mem_cons_self)]
    exact ih fun d hd => ha d (List.mem_cons_of_mem _ hd)

/-- Bytes of ASCII are characters. -/
theorem utf8_of_ascii (ha : Ascii a) : Utf8 a := by
  rw [← List.append_nil a, utf8_append ha]
  exact utf8_nil

/-- **Bytes of ASCII in place of bytes of ASCII** keep characters what they
are. -/
theorem utf8_flatMap {f : UInt8 → List UInt8}
    (hascii : ∀ c < 128, f c ≠ [] ∧ Ascii (f c))
    (hother : ∀ c, ¬ c < 128 → f c = [c]) (s : List UInt8) :
    Utf8 (s.flatMap f) ↔ Utf8 s := by
  have hbehind : ∀ a, Utf8 (a ++ s.flatMap f) ↔ Utf8 (a ++ s) := by
    induction s with
    | nil => exact fun a => Iff.rfl
    | cons c s ih =>
      intro a
      rw [List.flatMap_cons]
      by_cases hc : c < 128
      · obtain ⟨hne, hd⟩ := hascii c hc
        obtain ⟨d, ds, hf⟩ := List.exists_cons_of_ne_nil hne
        rw [hf] at hd ⊢
        rw [List.cons_append, utf8_append_cons (hd d List.mem_cons_self),
          utf8_append fun e he => hd e (List.mem_cons_of_mem _ he),
          utf8_append_cons hc]
        exact and_congr_right fun _ => ih []
      · rw [hother c hc, ← List.append_assoc, ih, List.append_assoc]
        rfl
  exact hbehind []

end Json
