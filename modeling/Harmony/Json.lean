import Mathlib.Data.Rat.Cast.CharZero

/-!
# JSON texts

What a reader of JSON makes of a text. A text is a run of bytes in UTF-8, and
its grammar is the usual one: white space between the tokens, strings with
escapes, numbers without leading zeros, and the members of an object in the
order they are written. A number stands for a rational, and a string for the
bytes its characters are encoded in. A member may have the name of another;
both are kept.

`decode` reads a text, and `readValue` the value a text begins with. It works
on fuel, and as many units as there are bytes are enough, for every value that
is opened has to be closed.

The strings take the most work. Between the quotes any byte may stand that is
no control character, quote or backslash (`Plain`), and `plain_of_readString`
says that nothing else stands for itself: whatever a text goes on with, if a
run of bytes with a quote behind it is read as that very run, it is plain.
-/

/-- **A value.** -/
inductive Json where
  | null
  | bool (b : Bool)
  | num (q : ℚ)
  | str (s : List UInt8)
  | arr (items : List Json)
  | obj (members : List (List UInt8 × Json))

namespace Json

/-! ## White space -/

/-- The bytes between tokens. -/
def isSpace (c : UInt8) : Bool := c == 32 || c == 9 || c == 10 || c == 13

/-- A text, less the white space it begins with. -/
def skip (text : List UInt8) : List UInt8 := text.dropWhile isSpace

/-- A token is not skipped. -/
theorem skip_cons {c : UInt8} (hc : isSpace c = false) (text : List UInt8) :
    skip (c :: text) = c :: text := by
  unfold skip
  rw [List.dropWhile_cons, hc]
  rfl

/-! ## Strings -/

/-- The value of a hexadecimal digit. -/
def hexValue (c : UInt8) : Option ℕ :=
  if 48 ≤ c ∧ c ≤ 57 then some (c.toNat - 48)
  else if 97 ≤ c ∧ c ≤ 102 then some (c.toNat - 87)
  else if 65 ≤ c ∧ c ≤ 70 then some (c.toNat - 55)
  else none

/-- Four hexadecimal digits. -/
def readUnit : List UInt8 → Option (ℕ × List UInt8)
  | a :: b :: c :: d :: rest => do
    let a ← hexValue a
    let b ← hexValue b
    let c ← hexValue c
    let d ← hexValue d
    some (((16 * a + b) * 16 + c) * 16 + d, rest)
  | _ => none

/-- The second half of a pair of surrogates, with `\u` in front of it. -/
def readLow (text : List UInt8) : Option (ℕ × List UInt8) :=
  if text.take 2 = [92, 117] then
    (readUnit (text.drop 2)).filter fun p => 0xDC00 ≤ p.1 ∧ p.1 ≤ 0xDFFF
  else none

/-- The bytes of a character. -/
def utf8 (n : ℕ) : List UInt8 := String.utf8EncodeChar (Char.ofNat n)

/-- The character of an escape `\u`. Half a pair of surrogates is replaced. -/
def readUnicode (text : List UInt8) : Option (List UInt8 × List UInt8) := do
  let (u, rest) ← readUnit text
  if 0xD800 ≤ u ∧ u ≤ 0xDBFF then
    match readLow rest with
    | some (l, rest) =>
      some (utf8 (0x10000 + (u - 0xD800) * 0x400 + (l - 0xDC00)), rest)
    | none => some (utf8 0xFFFD, rest)
  else if 0xDC00 ≤ u ∧ u ≤ 0xDFFF then some (utf8 0xFFFD, rest)
  else some (utf8 u, rest)

/-- What a letter behind a backslash stands for. -/
def simpleEscape (c : UInt8) : Option UInt8 :=
  if c = 34 ∨ c = 92 ∨ c = 47 then some c
  else if c = 98 then some 8
  else if c = 102 then some 12
  else if c = 110 then some 10
  else if c = 114 then some 13
  else if c = 116 then some 9
  else none

/-- An escape, behind its backslash. -/
def readEscape : List UInt8 → Option (List UInt8 × List UInt8)
  | [] => none
  | c :: rest =>
    if c = 117 then readUnicode rest
    else (simpleEscape c).map fun e => ([e], rest)

/-- **A byte of a string, or an escape.** -/
def readChar : List UInt8 → Option (List UInt8 × List UInt8)
  | [] => none
  | c :: rest =>
    if c < 32 ∨ c = 34 then none
    else if c = 92 then readEscape rest
    else some ([c], rest)

/-- What is in front of the closing quote. -/
def readChars : ℕ → List UInt8 → Option (List UInt8 × List UInt8)
  | 0, _ => none
  | n + 1, text =>
    if text.head? = some 34 then some ([], text.tail)
    else do
      let (s, rest) ← readChar text
      let (s', rest) ← readChars n rest
      some (s ++ s', rest)

/-- **A string**, behind its opening quote. -/
def readString (text : List UInt8) : Option (List UInt8 × List UInt8) :=
  readChars text.length text

/-! ### What stands for itself -/

/-- **A run of bytes that stands for itself** between quotes. -/
def Plain (s : List UInt8) : Prop := ∀ c ∈ s, ¬ c < 32 ∧ c ≠ 34 ∧ c ≠ 92

instance (s : List UInt8) : Decidable (Plain s) :=
  List.decidableBAll (fun c => ¬ c < 32 ∧ c ≠ 34 ∧ c ≠ 92) s

variable {n u : ℕ} {s text pre tail rest : List UInt8}

/-- A unit is made of four digits. A quote is none. -/
theorem exists_of_readUnit (h : readUnit text = some (u, rest)) :
    ∃ x : List UInt8, text = x ++ rest ∧ x.length = 4 ∧ 34 ∉ x := by
  have hquote : hexValue 34 = none := by decide
  match text with
  | [] | [_] | [_, _] | [_, _, _] => cases h
  | a :: b :: c :: d :: text =>
    simp only [readUnit, Option.bind_eq_bind, Option.bind_eq_some_iff,
      Option.some.injEq, Prod.mk.injEq] at h
    obtain ⟨_, ha, _, hb, _, hc, _, hd, -, rfl⟩ := h
    have hne : ∀ {d : UInt8} {v : ℕ}, hexValue d = some v → 34 ≠ d := by
      rintro d v hd rfl
      rw [hquote] at hd
      cases hd
    refine ⟨[a, b, c, d], rfl, rfl, ?_⟩
    simp [hne ha, hne hb, hne hc, hne hd]

/-- The second half of a pair takes six bytes. -/
theorem exists_of_readLow (h : readLow text = some (u, rest)) :
    ∃ x : List UInt8, text = x ++ rest ∧ x.length = 6 ∧ 34 ∉ x := by
  unfold readLow at h
  split at h
  · rename_i htake
    obtain ⟨x, hx, hlen, hquote⟩ :=
      exists_of_readUnit (Option.filter_eq_some_iff.mp h).1
    refine ⟨[92, 117] ++ x, ?_, by simp [hlen], by simp [hquote]⟩
    rw [List.append_assoc, ← hx, ← htake, List.take_append_drop]
  · cases h

/-- A character has at most four bytes. -/
theorem length_utf8_le (n : ℕ) : (utf8 n).length ≤ 4 := by
  rw [utf8, String.length_utf8EncodeChar]
  exact Char.utf8Size_le_four _

/-- An escape `\u` is longer than its character. -/
theorem exists_of_readUnicode (h : readUnicode text = some (s, rest)) :
    ∃ x : List UInt8, text = x ++ rest ∧ 34 ∉ x ∧ s.length ≤ x.length := by
  obtain ⟨⟨u, rest₁⟩, hu, hchar⟩ := Option.bind_eq_some_iff.mp h
  obtain ⟨x, rfl, hlen, hquote⟩ := exists_of_readUnit hu
  have hunit : ∀ k, some (utf8 k, rest₁) = some (s, rest) →
      ∃ y : List UInt8, x ++ rest₁ = y ++ rest ∧ 34 ∉ y
        ∧ s.length ≤ y.length := by
    intro k hk
    cases hk
    exact ⟨x, rfl, hquote, hlen ▸ length_utf8_le k⟩
  dsimp only at hchar
  split at hchar
  · split at hchar
    · rename_i l rest₂ hlow
      rw [Option.some.injEq, Prod.mk.injEq] at hchar
      obtain ⟨rfl, rfl⟩ := hchar
      obtain ⟨y, rfl, hlen', hquote'⟩ := exists_of_readLow hlow
      refine ⟨x ++ y, (List.append_assoc ..).symm,
        by simp [hquote, hquote'], ?_⟩
      rw [List.length_append, hlen]
      exact (length_utf8_le _).trans (Nat.le_add_right _ _)
    · exact hunit _ hchar
  · split at hchar
    · exact hunit _ hchar
    · exact hunit _ hchar

/-- **What is read from `x` is shorter**, or it is `x`, which is plain then. -/
def Shrinks (s x : List UInt8) : Prop :=
  s.length < x.length ∨ s = x ∧ Plain x

/-- It is not longer. -/
theorem Shrinks.length_le {x : List UInt8} (h : Shrinks s x) :
    s.length ≤ x.length :=
  h.elim Nat.le_of_lt fun h => h.1 ▸ Nat.le_refl _

/-- What is read from two parts. -/
theorem Shrinks.append {s' x x' : List UInt8} (h : Shrinks s x)
    (h' : Shrinks s' x') : Shrinks (s ++ s') (x ++ x') := by
  obtain hlt | ⟨rfl, hplain⟩ := h
  · left
    rw [List.length_append, List.length_append]
    exact Nat.add_lt_add_of_lt_of_le hlt h'.length_le
  · obtain hlt | ⟨rfl, hplain'⟩ := h'
    · left
      rw [List.length_append, List.length_append]
      exact Nat.add_lt_add_left hlt _
    · exact .inr ⟨rfl, List.forall_mem_append.mpr ⟨hplain, hplain'⟩⟩

/-- An escape is not shorter than what it stands for, less the backslash. -/
theorem exists_of_readEscape (h : readEscape text = some (s, rest)) :
    ∃ x : List UInt8, text = x ++ rest
      ∧ (34 ∉ x ∧ s.length ≤ x.length ∨ x = [34] ∧ s = [34]) := by
  match text with
  | [] => cases h
  | e :: text =>
    rw [readEscape] at h
    split at h
    · rename_i hu
      subst hu
      obtain ⟨x, rfl, hquote, hlen⟩ := exists_of_readUnicode h
      exact ⟨117 :: x, rfl, .inl ⟨by simp [hquote], Nat.le_succ_of_le hlen⟩⟩
    · obtain ⟨v, hv, h⟩ := Option.map_eq_some_iff.mp h
      cases h
      refine ⟨[e], rfl, ?_⟩
      by_cases he : e = 34
      · subst he
        exact .inr ⟨rfl, by rw [← Option.some.inj hv]⟩
      · exact .inl ⟨by simp [Ne.symm he], Nat.le_refl 1⟩

/-- **How a character is read.** Unless it is an escaped quote, it is read from
bytes that are no quotes, and from more of them than it has itself if it is not
plain. -/
theorem exists_of_readChar (h : readChar text = some (s, rest)) :
    ∃ x : List UInt8, text = x ++ rest
      ∧ (34 ∉ x ∧ Shrinks s x ∨ x = [92, 34] ∧ s = [34]) := by
  match text with
  | [] => cases h
  | c :: text =>
    rw [readChar] at h
    split at h
    · cases h
    · rename_i hplain
      rw [not_or] at hplain
      split at h
      · rename_i hslash
        subst hslash
        obtain ⟨x, rfl, ⟨hquote, hlen⟩ | ⟨rfl, rfl⟩⟩ := exists_of_readEscape h
        · exact ⟨92 :: x, rfl,
            .inl ⟨by simp [hquote], .inl (Nat.lt_succ_of_le hlen)⟩⟩
        · exact ⟨[92, 34], rfl, .inr ⟨rfl, rfl⟩⟩
      · rename_i hslash
        cases h
        refine ⟨[c], rfl, .inl ⟨by simp [Ne.symm hplain.2], .inr ⟨rfl, ?_⟩⟩⟩
        exact List.forall_mem_singleton.mpr ⟨hplain.1, hplain.2, hslash⟩

/-- What has no quote in it is read from in front of the first one. -/
theorem exists_of_append_eq {x : List UInt8} (hx : 34 ∉ x)
    (h : pre ++ 34 :: tail = x ++ rest) :
    ∃ pre', pre = x ++ pre' ∧ rest = pre' ++ 34 :: tail := by
  rw [List.append_eq_append_iff] at h
  obtain ⟨y, hxy, hrest⟩ | ⟨y, hpre, hrest⟩ := h
  · cases y with
    | nil =>
      rw [List.append_nil] at hxy
      exact ⟨[], by rw [hxy, List.append_nil], hrest.symm⟩
    | cons c y =>
      obtain ⟨rfl, -⟩ := List.cons.inj hrest
      exact absurd (hxy ▸ List.mem_append_right _ List.mem_cons_self) hx
  · exact ⟨y, hpre, hrest⟩

/-- **The first quote of a text** closes the string, or is escaped. If it closes
the string, the string is shorter than the text in front of it or is that text;
if it is escaped, the string has a quote in front of where the text has one. -/
theorem readChars_append (hpre : 34 ∉ pre)
    (h : readChars n (pre ++ 34 :: tail) = some (s, rest)) :
    rest = tail ∧ Shrinks s pre ∨ 34 ∈ s.take pre.length := by
  induction n generalizing pre s with
  | zero => cases h
  | succ n ih =>
    unfold readChars at h
    split at h
    · rename_i hhead
      cases pre with
      | nil =>
        cases h
        exact .inl ⟨rfl, .inr ⟨rfl, List.forall_mem_nil _⟩⟩
      | cons c pre =>
        exact absurd (Option.some.inj hhead ▸ List.mem_cons_self) hpre
    · obtain ⟨⟨s₁, rest₁⟩, hchar, h⟩ := Option.bind_eq_some_iff.mp h
      obtain ⟨⟨s₂, rest₂⟩, hchars, h⟩ := Option.bind_eq_some_iff.mp h
      cases h
      obtain ⟨x, htext, ⟨hx, hfirst⟩ | ⟨rfl, rfl⟩⟩ := exists_of_readChar hchar
      · obtain ⟨pre', rfl, rfl⟩ := exists_of_append_eq hx htext
        have hpre' : 34 ∉ pre' := fun hmem =>
          hpre (List.mem_append_right _ hmem)
        obtain ⟨rfl, hshort⟩ | hquote := ih hpre' hchars
        · exact .inl ⟨rfl, hfirst.append hshort⟩
        · right
          rw [List.length_append, List.take_append]
          have hle := hfirst.length_le
          exact List.mem_append_right _
            (List.take_subset_take_left _ (by omega) hquote)
      · -- the escape has taken the quote, so nothing was in front of it but
        -- the backslash
        right
        cases pre with
        | nil => cases htext
        | cons c pre => simp

/-- **Only what is plain stands for itself.** If some bytes with a quote behind
them are read as these bytes, whatever the text goes on with, they are plain and
it is that quote that ends the string. -/
theorem plain_of_readString
    (h : readString (s ++ 34 :: tail) = some (s, rest)) :
    Plain s ∧ rest = tail := by
  by_cases hs : 34 ∈ s
  · obtain ⟨pre, more, rfl, hpre⟩ := List.eq_append_cons_of_mem hs
    rw [List.append_assoc, List.cons_append] at h
    obtain ⟨-, hlt | ⟨heq, -⟩⟩ | hmem := readChars_append hpre h
    · rw [List.length_append] at hlt
      omega
    · simp at heq
    · rw [List.take_left] at hmem
      exact absurd hmem hpre
  · obtain ⟨hrest, hlt | ⟨-, hplain⟩⟩ | hmem := readChars_append hs h
    · exact absurd hlt (Nat.lt_irrefl _)
    · exact ⟨hplain, hrest⟩
    · exact absurd (List.mem_of_mem_take hmem) hs

/-- **Bytes in turn.** If each byte has a text that is read as it, so do they
all. -/
theorem readString_flatMap {f : UInt8 → List UInt8}
    (hf : ∀ c ∈ s, ∀ rest, readChar (f c ++ rest) = some ([c], rest))
    (hne : ∀ c ∈ s, f c ≠ []) (tail : List UInt8) :
    readString (s.flatMap f ++ 34 :: tail) = some (s, tail) := by
  have hfuel : ∀ n, (s.flatMap f).length < n →
      readChars n (s.flatMap f ++ 34 :: tail) = some (s, tail) := by
    intro n hn
    induction s generalizing n with
    | nil =>
      cases n with
      | zero => cases hn
      | succ n => rfl
    | cons c s ih =>
      cases n with
      | zero => cases hn
      | succ n =>
        have hchar := hf c List.mem_cons_self (s.flatMap f ++ 34 :: tail)
        have hpos := List.length_pos_iff.mpr (hne c List.mem_cons_self)
        rw [List.flatMap_cons, List.length_append] at hn
        rw [List.flatMap_cons, List.append_assoc, readChars, if_neg, hchar]
        · show (readChars n _).bind _ = _
          rw [ih (fun d hd => hf d (List.mem_cons_of_mem _ hd))
            (fun d hd => hne d (List.mem_cons_of_mem _ hd)) n (by omega)]
          rfl
        · intro hhead
          obtain ⟨t, ht⟩ := List.head?_eq_some_iff.mp hhead
          rw [ht] at hchar
          cases hchar
  refine hfuel _ ?_
  rw [List.length_append, List.length_cons]
  exact Nat.lt_add_of_pos_right (Nat.succ_pos _)

/-! ## Numbers -/

/-- The decimal digits. -/
def isDigit (c : UInt8) : Bool := 48 ≤ c && c ≤ 57

/-- The number some digits make. -/
def digitsValue (ds : List UInt8) : ℕ :=
  ds.foldl (fun n d => 10 * n + (d.toNat - 48)) 0

/-- The digits behind a point, if there is one. -/
def readFraction (text : List UInt8) : Option (List UInt8 × List UInt8) :=
  if text.head? = some 46 then
    let digits := text.tail.takeWhile isDigit
    if digits = [] then none else some (digits, text.tail.dropWhile isDigit)
  else some ([], text)

/-- An exponent, if there is one. -/
def readExponent (text : List UInt8) : Option (ℤ × List UInt8) :=
  if text.head? = some 101 ∨ text.head? = some 69 then
    let sign := text.tail.head?
    let text :=
      if sign = some 45 ∨ sign = some 43 then text.tail.tail else text.tail
    let digits := text.takeWhile isDigit
    if digits = [] then none
    else some (if sign = some 45 then -digitsValue digits
      else digitsValue digits, text.dropWhile isDigit)
  else some (0, text)

/-- The rational of a sign, the digits in front of the point and behind it, and
an exponent. -/
def numberValue (negative : Bool) (whole fraction : List UInt8)
    (exponent : ℤ) : ℚ :=
  let q : ℚ := digitsValue whole + digitsValue fraction / 10 ^ fraction.length
  (if negative then -q else q) * 10 ^ exponent

/-- **A number.** -/
def readNumber (text : List UInt8) : Option (ℚ × List UInt8) :=
  let negative : Bool := text.head? = some 45
  let text := if negative then text.tail else text
  let whole := text.takeWhile isDigit
  if whole = [] ∨ whole.head? = some 48 ∧ whole ≠ [48] then none
  else do
    let (fraction, text) ← readFraction (text.dropWhile isDigit)
    let (exponent, text) ← readExponent text
    some (numberValue negative whole fraction exponent, text)

/-! ## Values -/

/-- `null`. -/
def nullName : List UInt8 := [110, 117, 108, 108]

/-- `true`. -/
def trueName : List UInt8 := [116, 114, 117, 101]

/-- `false`. -/
def falseName : List UInt8 := [102, 97, 108, 115, 101]

/-- One of the three names. -/
def readName (text : List UInt8) : Option (Json × List UInt8) :=
  if nullName <+: text then some (null, text.drop 4)
  else if trueName <+: text then some (bool true, text.drop 4)
  else if falseName <+: text then some (bool false, text.drop 5)
  else none

mutual

/-- **The value a text begins with.** -/
def readValue : ℕ → List UInt8 → Option (Json × List UInt8)
  | 0, _ => none
  | n + 1, text =>
    match skip text with
    | [] => none
    | c :: rest =>
      if c = 34 then (readString rest).map fun p => (str p.1, p.2)
      else if c = 91 then
        if (skip rest).head? = some 93 then some (arr [], (skip rest).tail)
        else (readItems n rest).map fun p => (arr p.1, p.2)
      else if c = 123 then
        if (skip rest).head? = some 125 then some (obj [], (skip rest).tail)
        else (readMembers n rest).map fun p => (obj p.1, p.2)
      else if c = 45 ∨ isDigit c then
        (readNumber (c :: rest)).map fun p => (num p.1, p.2)
      else readName (c :: rest)

/-- The items of an array that has some, and the bracket behind them. -/
def readItems : ℕ → List UInt8 → Option (List Json × List UInt8)
  | 0, _ => none
  | n + 1, text => do
    let (v, rest) ← readValue n text
    if (skip rest).head? = some 44 then
      let (vs, rest) ← readItems n (skip rest).tail
      some (v :: vs, rest)
    else if (skip rest).head? = some 93 then some ([v], (skip rest).tail)
    else none

/-- The members of an object that has some, and the brace behind them. -/
def readMembers :
    ℕ → List UInt8 → Option (List (List UInt8 × Json) × List UInt8)
  | 0, _ => none
  | n + 1, text =>
    if (skip text).head? = some 34 then do
      let (k, rest) ← readString (skip text).tail
      if (skip rest).head? = some 58 then
        let (v, rest) ← readValue n (skip rest).tail
        if (skip rest).head? = some 44 then
          let (ms, rest) ← readMembers n (skip rest).tail
          some ((k, v) :: ms, rest)
        else if (skip rest).head? = some 125 then
          some ([(k, v)], (skip rest).tail)
        else none
      else none
    else none

end

/-- Bytes that encode characters. -/
def Utf8 (text : List UInt8) : Prop :=
  ByteArray.IsValidUTF8 text.toByteArray

instance (text : List UInt8) : Decidable (Utf8 text) :=
  inferInstanceAs (Decidable (ByteArray.IsValidUTF8 _))

/-- **The value of a text**, if it is a valid one. -/
def decode (text : List UInt8) : Option Json :=
  if Utf8 text then
    (readValue text.length text).bind fun p =>
      if skip p.2 = [] then some p.1 else none
  else none

end Json
