import Harmony.JsonText

/-!
# Texts that say what they should

How to write JSON, and when what is written is read back. The parts of a text
are put together the obvious way: a value is written behind its key, the items
of an array and the members of an object have commas between them, and brackets
go around them. What may go wrong is in the parts: a key that is not plain, or a
text that is no value at all.

`Spells text v P U` says what there is to say about a part. If `P` holds, the
text is read as `v`, whatever stands behind it; if the text is read as `v`, then
`P` holds; and it consists of characters exactly if `U` holds. The rules below
put parts together, and `Spells.decode_iff` reads the result off.
-/

namespace Json

/-! ## What a text says -/

/-- What may stand behind a value. -/
def Ends (rest : List UInt8) : Prop :=
  ∀ c ∈ rest.head?, c = 44 ∨ c = 93 ∨ c = 125

/-- A token may stand behind a value. -/
theorem ends_cons (rest : List UInt8) {c : UInt8}
    (hc : c = 44 ∨ c = 93 ∨ c = 125) : Ends (c :: rest) := by
  rintro _ ⟨⟩
  exact hc

/-- It does not go on with a number. -/
theorem Ends.number (hrest : Ends rest) : EndsNumber rest := by
  intro c hc
  obtain rfl | rfl | rfl := hrest c hc <;> decide

/-- **The text says `v` exactly if `P` holds**, and consists of characters
exactly if `U` does. -/
structure Spells (text : List UInt8) (v : Json) (P U : Prop) : Prop where
  reads : P → ∀ (rest : List UInt8) {n : ℕ}, Ends rest → text.length ≤ n →
    readValue n (text ++ rest) = some (v, rest)
  only : ∀ {n : ℕ} {rest rest' : List UInt8}, Ends rest →
    readValue n (text ++ rest) = some (v, rest') → P ∧ rest' = rest
  utf8 : Utf8 text ↔ U

/-- The same for the items of an array, if there are any. -/
structure SpellsItems (text : List UInt8) (vs : List Json) (P U : Prop) :
    Prop where
  ne_nil : vs ≠ []
  reads : P → ∀ (rest : List UInt8) {n : ℕ}, text.length < n →
    readItems n (text ++ 93 :: rest) = some (vs, rest)
  only : ∀ {n : ℕ} {rest rest' : List UInt8},
    readItems n (text ++ 93 :: rest) = some (vs, rest') → P ∧ rest' = rest
  utf8 : Utf8 text ↔ U

/-- The same for the members of an object, if there are any. -/
structure SpellsMembers (text : List UInt8) (ms : List (List UInt8 × Json))
    (P U : Prop) : Prop where
  head : text.head? = some 34
  reads : P → ∀ (rest : List UInt8) {n : ℕ}, text.length < n →
    readMembers n (text ++ 125 :: rest) = some (ms, rest)
  only : ∀ {n : ℕ} {rest rest' : List UInt8},
    readMembers n (text ++ 125 :: rest) = some (ms, rest') → P ∧ rest' = rest
  utf8 : Utf8 text ↔ U

variable {n : ℕ} {c : UInt8} {k s text texts rest rest' : List UInt8}
  {v w : Json} {vs : List Json} {ms : List (List UInt8 × Json)}
  {P P' Ps U U' Us : Prop}

/-- The conditions may be replaced by equivalent ones. -/
theorem Spells.congr (h : Spells text v P U) (hP : P ↔ P') (hU : U ↔ U') :
    Spells text v P' U' :=
  ⟨fun hP' => h.reads (hP.mpr hP'), fun hrest hread =>
    ⟨hP.mp (h.only hrest hread).1, (h.only hrest hread).2⟩, h.utf8.trans hU⟩

/-- **A text that is read as one value** says `v` if it is that value. -/
theorem spells_of_eq (hne : text ≠ []) (hutf8 : Utf8 text ↔ U)
    (h : ∀ {n : ℕ} {rest : List UInt8}, Ends rest →
      readValue (n + 1) (text ++ rest) = some (w, rest)) :
    Spells text v (w = v) U where
  reads := by
    rintro rfl rest n hrest hn
    obtain ⟨n, rfl⟩ := Nat.exists_eq_succ_of_ne_zero
      ((List.length_pos_iff.mpr hne).trans_le hn).ne'
    exact h hrest
  only := by
    intro n rest rest' hrest hread
    cases n with
    | zero =>
      rw [readValue] at hread
      cases hread
    | succ n =>
      rw [h hrest, Option.some.injEq, Prod.mk.injEq] at hread
      exact ⟨hread.1, hread.2.symm⟩
  utf8 := hutf8

/-- **A text that is not read** says nothing. -/
theorem spells_of_none (hutf8 : Utf8 text ↔ U)
    (h : ∀ {n : ℕ} {rest : List UInt8}, Ends rest →
      readValue n (text ++ rest) = none) :
    Spells text v False U where
  reads := False.elim
  only := by
    intro n rest rest' hrest hread
    rw [h hrest] at hread
    cases hread
  utf8 := hutf8

/-- **The value of the whole text.** -/
theorem Spells.decode_iff (h : Spells text v P U) :
    decode text = some v ↔ P ∧ U := by
  have hends : Ends [] := fun c hc => absurd hc (Option.not_mem_none _)
  rw [← h.utf8]
  unfold decode
  constructor
  · intro hdecode
    split at hdecode
    · rename_i hutf8
      refine ⟨?_, hutf8⟩
      obtain ⟨⟨w, rest⟩, hread, hw⟩ := Option.bind_eq_some_iff.mp hdecode
      split at hw
      · cases hw
        rw [← List.append_nil text] at hread
        exact (h.only hends hread).1
      · cases hw
    · cases hdecode
  · rintro ⟨hP, hutf8⟩
    have hread := h.reads hP [] hends le_rfl
    rw [List.append_nil] at hread
    rw [if_pos hutf8, hread]
    rfl

/-! ### Names, numbers and strings -/

/-- A value that begins with a letter is a name. -/
theorem readValue_name (hspace : isSpace c = false) (hdigit : isDigit c = false)
    (hc : c ≠ 34 ∧ c ≠ 91 ∧ c ≠ 123 ∧ c ≠ 45) (rest : List UInt8) :
    readValue (n + 1) (c :: rest) = readName (c :: rest) := by
  rw [readValue, skip_cons hspace]
  simp only [hc.1, hc.2.1, hc.2.2.1, hc.2.2.2, hdigit, if_false,
    Bool.false_eq_true, or_self]

/-- `null`. -/
theorem spells_null : Spells nullName v (null = v) True :=
  spells_of_eq (by decide) (iff_true_intro (utf8_of_ascii (by decide)))
    fun _ => readValue_name (by decide) (by decide) (by decide) _

/-- `true`. -/
theorem spells_true : Spells trueName v (bool true = v) True :=
  spells_of_eq (by decide) (iff_true_intro (utf8_of_ascii (by decide)))
    fun _ => readValue_name (by decide) (by decide) (by decide) _

/-- `false`. -/
theorem spells_false : Spells falseName v (bool false = v) True :=
  spells_of_eq (by decide) (iff_true_intro (utf8_of_ascii (by decide)))
    fun _ => readValue_name (by decide) (by decide) (by decide) _

/-- The first byte of a number. -/
theorem Decimal.exists_cons (d : Decimal) :
    ∃ c t, d.text = c :: t ∧ (c = 45 ∨ isDigit c) := by
  obtain ⟨hdigits, -, -, hne⟩ := decimal_spec d.whole
  unfold text
  cases d.negative with
  | true => exact ⟨45, _, rfl, .inl rfl⟩
  | false =>
    obtain ⟨c, t, hct⟩ := List.exists_cons_of_ne_nil hne
    rw [hct] at hdigits ⊢
    exact ⟨c, _, rfl, .inr (hdigits c List.mem_cons_self)⟩

/-- A digit is a byte of ASCII. -/
theorem lt_of_isDigit (hc : isDigit c) : c < 128 :=
  UInt8.lt_of_le_of_lt (Bool.and_eq_true_iff.mp hc |>.2 |> of_decide_eq_true)
    (by decide)

/-- A number is written in ASCII. -/
theorem Decimal.utf8_text (d : Decimal) : Utf8 d.text := by
  have hdigits : ∀ ds : List (Fin 10), ∀ c ∈ ds.map digit, c < 128 :=
    fun ds => List.forall_mem_map.mpr fun e _ => lt_of_isDigit (isDigit_digit e)
  unfold text
  rw [utf8_append (by cases d.negative <;> decide),
    utf8_append fun c hc => lt_of_isDigit ((decimal_spec _).1 c hc)]
  refine Utf8.append ?_ ?_
  · unfold fractionText
    split
    · exact utf8_nil
    · rw [utf8_cons (by decide)]
      exact utf8_of_ascii (hdigits _)
  · unfold exponentText
    split
    · exact utf8_nil
    · rw [utf8_cons (by decide), utf8_cons (by split <;> decide)]
      exact utf8_of_ascii (hdigits _)

/-- **A decimal number.** -/
theorem spells_num (d : Decimal) : Spells d.text v (num d.value = v) True := by
  obtain ⟨c, t, htext, hc⟩ := d.exists_cons
  refine spells_of_eq (htext ▸ List.cons_ne_nil _ _)
    (iff_true_intro d.utf8_text) fun {n rest} hrest => ?_
  have hread := readNumber_append d hrest.number
  have hne : ∀ e, e ≠ 45 → isDigit e = false → c ≠ e := by
    rintro e he he' rfl
    exact hc.elim he fun h => Bool.false_ne_true (he'.symm.trans h)
  have hspace : isSpace c = false := by
    simp [isSpace, hne 32 (by decide) (by decide),
      hne 9 (by decide) (by decide), hne 10 (by decide) (by decide),
      hne 13 (by decide) (by decide)]
  rw [htext, List.cons_append] at hread ⊢
  rw [readValue, skip_cons hspace]
  simp only [hne 34 (by decide) (by decide), hne 91 (by decide) (by decide),
    hne 123 (by decide) (by decide), hc, if_false, if_true, hread,
    Option.map_some]

/-- **A string.** -/
theorem spells_str (hread : ∀ rest, readString (text ++ 34 :: rest)
      = some (s, rest)) :
    Spells (34 :: (text ++ [34])) v (str s = v) (Utf8 text) := by
  refine spells_of_eq (List.cons_ne_nil _ _) ?_ fun {n rest} _ => ?_
  · rw [utf8_cons (by decide), utf8_append_cons (by decide)]
    exact and_iff_left utf8_nil
  · rw [List.cons_append, readValue, skip_cons (by decide), List.append_assoc,
      List.singleton_append]
    simp only [if_true, hread, Option.map_some]

/-! ### Arrays -/

/-- **How items are read**: the first of them, and what is behind it. -/
theorem exists_of_readItems (h : readItems n text = some (v :: vs, rest')) :
    ∃ m rest, n = m + 1 ∧ readValue m text = some (v, rest)
      ∧ ((skip rest).head? = some 44
          ∧ readItems m (skip rest).tail = some (vs, rest')
        ∨ (skip rest).head? = some 93 ∧ vs = []
          ∧ rest' = (skip rest).tail) := by
  cases n with
  | zero =>
    rw [readItems] at h
    cases h
  | succ n =>
    rw [readItems] at h
    obtain ⟨⟨w, rest⟩, hvalue, h⟩ := Option.bind_eq_some_iff.mp h
    dsimp only at h
    split at h
    · rename_i hcomma
      obtain ⟨⟨ws, rest₁⟩, hitems, h⟩ := Option.bind_eq_some_iff.mp h
      cases h
      exact ⟨n, rest, rfl, hvalue, .inl ⟨hcomma, hitems⟩⟩
    · split at h
      · rename_i hbracket
        cases h
        exact ⟨n, rest, rfl, hvalue, .inr ⟨hbracket, rfl, rfl⟩⟩
      · cases h

/-- **The last item.** -/
theorem Spells.last (h : Spells text v P U) : SpellsItems text [v] P U where
  ne_nil := List.cons_ne_nil _ _
  reads := by
    intro hP rest n hn
    obtain ⟨n, rfl⟩ := Nat.exists_eq_succ_of_ne_zero (Nat.ne_zero_of_lt hn)
    have hread := h.reads hP _ (ends_cons rest (.inr (.inl rfl)))
      (Nat.le_of_lt_succ hn)
    rw [readItems, hread]
    rfl
  only := by
    intro n rest rest' hread
    obtain ⟨m, rest₁, -, hvalue, hbehind⟩ := exists_of_readItems hread
    obtain ⟨hP, rfl⟩ := h.only (ends_cons _ (.inr (.inl rfl))) hvalue
    rw [skip_cons (by decide)] at hbehind
    obtain ⟨hcomma, -⟩ | ⟨-, -, rfl⟩ := hbehind
    · cases hcomma
    · exact ⟨hP, rfl⟩
  utf8 := h.utf8

/-- **An item in front of others.** -/
theorem Spells.cons (h : Spells text v P U) (hs : SpellsItems texts vs Ps Us) :
    SpellsItems (text ++ 44 :: texts) (v :: vs) (P ∧ Ps) (U ∧ Us) where
  ne_nil := List.cons_ne_nil _ _
  reads := by
    rintro ⟨hP, hPs⟩ rest n hn
    rw [List.length_append, List.length_cons] at hn
    obtain ⟨n, rfl⟩ := Nat.exists_eq_succ_of_ne_zero (Nat.ne_zero_of_lt hn)
    have hread := h.reads hP _
      (ends_cons (texts ++ 93 :: rest) (.inl rfl)) (n := n) (by omega)
    have hreads := hs.reads hPs rest (n := n) (by omega)
    rw [List.append_assoc, List.cons_append, readItems, hread]
    show (readItems n (texts ++ 93 :: rest)).bind _ = _
    rw [hreads]
    rfl
  only := by
    intro n rest rest' hread
    rw [List.append_assoc, List.cons_append] at hread
    obtain ⟨m, rest₁, -, hvalue, hbehind⟩ := exists_of_readItems hread
    obtain ⟨hP, rfl⟩ := h.only (ends_cons _ (.inl rfl)) hvalue
    rw [skip_cons (by decide)] at hbehind
    obtain ⟨-, hitems⟩ | ⟨hbracket, -⟩ := hbehind
    · obtain ⟨hPs, rfl⟩ := hs.only hitems
      exact ⟨⟨hP, hPs⟩, rfl⟩
    · cases hbracket
  utf8 := by
    rw [utf8_append_cons (by decide), h.utf8, hs.utf8]

/-- **No items.** -/
theorem spells_arr_nil : Spells [91, 93] v (arr [] = v) True :=
  spells_of_eq (List.cons_ne_nil _ _)
    (iff_true_intro (utf8_of_ascii (by decide))) fun {n rest} _ => by
    rw [List.cons_append, readValue, skip_cons (by decide)]
    rfl

/-- Items do not begin with a bracket. -/
theorem head?_skip_of_readItems (h : readItems n text = some (v :: vs, rest)) :
    (skip text).head? ≠ some 93 := by
  intro hhead
  obtain ⟨m, rest₁, -, hvalue, -⟩ := exists_of_readItems h
  obtain ⟨t, ht⟩ := List.head?_eq_some_iff.mp hhead
  cases m with
  | zero =>
    rw [readValue] at hvalue
    cases hvalue
  | succ m =>
    rw [readValue, ht] at hvalue
    cases hvalue

/-- **An array.** -/
theorem SpellsItems.arr (hs : SpellsItems text vs P U) :
    Spells (91 :: (text ++ [93])) (arr vs) P U where
  reads := by
    intro hP rest n _ hn
    rw [List.length_cons, List.length_append, List.length_singleton] at hn
    obtain ⟨n, rfl⟩ := Nat.exists_eq_succ_of_ne_zero (Nat.ne_zero_of_lt hn)
    have hreads := hs.reads hP rest (n := n) (by omega)
    obtain ⟨w, ws, rfl⟩ := List.exists_cons_of_ne_nil hs.ne_nil
    rw [List.cons_append, List.append_assoc, List.singleton_append, readValue,
      skip_cons (by decide)]
    simp [head?_skip_of_readItems hreads, hreads]
  only := by
    intro n rest rest' _ hread
    rw [List.cons_append, List.append_assoc, List.singleton_append] at hread
    cases n with
    | zero =>
      rw [readValue] at hread
      cases hread
    | succ n =>
      rw [readValue, skip_cons (by decide)] at hread
      dsimp only at hread
      rw [if_neg (by decide), if_pos rfl] at hread
      split at hread
      · cases hread
        exact absurd rfl hs.ne_nil
      · obtain ⟨⟨ws, rest₁⟩, hitems, hread⟩ := Option.map_eq_some_iff.mp hread
        cases hread
        exact hs.only hitems
  utf8 := by
    rw [utf8_cons (by decide), utf8_append_cons (by decide), hs.utf8]
    exact and_iff_left utf8_nil

/-! ### Objects -/

/-- **How members are read**: the first of them, and what is behind it. -/
theorem exists_of_readMembers
    (h : readMembers n (34 :: text) = some ((k, v) :: ms, rest')) :
    ∃ m rest₁ rest, n = m + 1 ∧ readString text = some (k, rest₁)
      ∧ (skip rest₁).head? = some 58
      ∧ readValue m (skip rest₁).tail = some (v, rest)
      ∧ ((skip rest).head? = some 44
          ∧ readMembers m (skip rest).tail = some (ms, rest')
        ∨ (skip rest).head? = some 125 ∧ ms = []
          ∧ rest' = (skip rest).tail) := by
  cases n with
  | zero =>
    rw [readMembers] at h
    cases h
  | succ n =>
    rw [readMembers, skip_cons (by decide), List.head?_cons, if_pos rfl,
      List.tail_cons] at h
    obtain ⟨⟨k, rest₁⟩, hkey, h⟩ := Option.bind_eq_some_iff.mp h
    dsimp only at h
    split at h
    · rename_i hcolon
      obtain ⟨⟨w, rest⟩, hvalue, h⟩ := Option.bind_eq_some_iff.mp h
      dsimp only at h
      split at h
      · rename_i hcomma
        obtain ⟨⟨ws, rest₂⟩, hmembers, h⟩ := Option.bind_eq_some_iff.mp h
        cases h
        exact ⟨n, rest₁, rest, rfl, hkey, hcolon, hvalue,
          .inl ⟨hcomma, hmembers⟩⟩
      · split at h
        · rename_i hbrace
          cases h
          exact ⟨n, rest₁, rest, rfl, hkey, hcolon, hvalue,
            .inr ⟨hbrace, rfl, rfl⟩⟩
        · cases h
    · cases h

/-- A plain key is read. -/
theorem readString_of_plain (hk : Plain k) (rest : List UInt8) :
    readString (k ++ 34 :: rest) = some (k, rest) := by
  have h := readString_flatMap (f := fun c => [c]) (s := k)
    (fun c hc rest => by
      obtain ⟨h32, h34, h92⟩ := hk c hc
      show readChar (c :: rest) = _
      rw [readChar, if_neg (not_or.mpr ⟨h32, h34⟩), if_neg h92])
    (fun _ _ => List.cons_ne_nil _ _) rest
  rwa [List.flatMap_singleton'] at h

/-- **A key, and the value behind it.** -/
def member (k text : List UInt8) : List UInt8 := 34 :: (k ++ 34 :: 58 :: text)

/-- What is behind a member. -/
theorem member_append (k text rest : List UInt8) :
    member k text ++ rest = member k (text ++ rest) := by
  simp only [member, List.cons_append, List.append_assoc]

/-- The length of a member. -/
theorem length_member (k text : List UInt8) :
    (member k text).length = k.length + text.length + 3 := by
  simp only [member, List.length_cons, List.length_append]
  omega

/-- The characters of a member. -/
theorem utf8_member : Utf8 (member k text) ↔ Utf8 k ∧ Utf8 text := by
  rw [member, utf8_cons (by decide), utf8_append_cons (by decide),
    utf8_cons (by decide)]

/-- **A member is read from its key and its value.** -/
theorem readMembers_member (hk : Plain k)
    (hread : readValue n text = some (v, rest)) :
    readMembers (n + 1) (member k text)
      = if (skip rest).head? = some 44 then
          (readMembers n (skip rest).tail).map fun p => ((k, v) :: p.1, p.2)
        else if (skip rest).head? = some 125 then
          some ([(k, v)], (skip rest).tail)
        else none := by
  have hcolon : skip (58 :: text) = 58 :: text := skip_cons (by decide) _
  unfold member
  rw [readMembers, skip_cons (by decide)]
  simp only [List.head?_cons, List.tail_cons, if_true, readString_of_plain hk,
    Option.bind_eq_bind, Option.bind_some, hcolon, hread, Option.map_eq_bind]
  rfl

/-- **If a member is read as it should be**, its key is plain. -/
theorem plain_of_readMembers
    (h : readMembers n (member k text) = some ((k, v) :: ms, rest')) :
    Plain k ∧ ∃ m rest, readValue m text = some (v, rest)
      ∧ ((skip rest).head? = some 44
          ∧ readMembers m (skip rest).tail = some (ms, rest')
        ∨ (skip rest).head? = some 125 ∧ ms = []
          ∧ rest' = (skip rest).tail) := by
  obtain ⟨m, rest₁, rest, -, hkey, -, hvalue, hbehind⟩ :=
    exists_of_readMembers h
  obtain ⟨hplain, rfl⟩ := plain_of_readString hkey
  rw [skip_cons (by decide)] at hvalue
  exact ⟨hplain, m, rest, hvalue, hbehind⟩

/-- **The last member.** -/
theorem Spells.lastMember (h : Spells text v P U) (k : List UInt8) :
    SpellsMembers (member k text) [(k, v)] (Plain k ∧ P) (Utf8 k ∧ U) where
  head := rfl
  reads := by
    rintro ⟨hk, hP⟩ rest n hn
    rw [length_member] at hn
    obtain ⟨n, rfl⟩ := Nat.exists_eq_succ_of_ne_zero (Nat.ne_zero_of_lt hn)
    have hread := h.reads hP _ (ends_cons rest (.inr (.inr rfl)))
      (n := n) (by omega)
    rw [member_append, readMembers_member hk hread, skip_cons (by decide)]
    rfl
  only := by
    intro n rest rest' hread
    rw [member_append] at hread
    obtain ⟨hk, m, rest₁, hvalue, hbehind⟩ := plain_of_readMembers hread
    obtain ⟨hP, rfl⟩ := h.only (ends_cons _ (.inr (.inr rfl))) hvalue
    rw [skip_cons (by decide)] at hbehind
    obtain ⟨hcomma, -⟩ | ⟨-, -, rfl⟩ := hbehind
    · cases hcomma
    · exact ⟨⟨hk, hP⟩, rfl⟩
  utf8 := by rw [utf8_member, h.utf8]

/-- **A member in front of others.** -/
theorem Spells.consMember (h : Spells text v P U) (k : List UInt8)
    (hs : SpellsMembers texts ms Ps Us) :
    SpellsMembers (member k text ++ 44 :: texts) ((k, v) :: ms)
      ((Plain k ∧ P) ∧ Ps) ((Utf8 k ∧ U) ∧ Us) where
  head := rfl
  reads := by
    rintro ⟨⟨hk, hP⟩, hPs⟩ rest n hn
    rw [List.length_append, length_member, List.length_cons] at hn
    obtain ⟨n, rfl⟩ := Nat.exists_eq_succ_of_ne_zero (Nat.ne_zero_of_lt hn)
    have hread := h.reads hP _
      (ends_cons (texts ++ 125 :: rest) (.inl rfl)) (n := n) (by omega)
    have hreads := hs.reads hPs rest (n := n) (by omega)
    rw [List.append_assoc, List.cons_append, member_append,
      readMembers_member hk hread, skip_cons (by decide), List.head?_cons,
      if_pos rfl, List.tail_cons, hreads]
    rfl
  only := by
    intro n rest rest' hread
    rw [List.append_assoc, List.cons_append, member_append] at hread
    obtain ⟨hk, m, rest₁, hvalue, hbehind⟩ := plain_of_readMembers hread
    obtain ⟨hP, rfl⟩ := h.only (ends_cons _ (.inl rfl)) hvalue
    rw [skip_cons (by decide)] at hbehind
    obtain ⟨-, hmembers⟩ | ⟨hbrace, -⟩ := hbehind
    · obtain ⟨hPs, rfl⟩ := hs.only hmembers
      exact ⟨⟨⟨hk, hP⟩, hPs⟩, rfl⟩
    · cases hbrace
  utf8 := by
    rw [utf8_append_cons (by decide), utf8_member, h.utf8, hs.utf8]

/-- **No members.** -/
theorem spells_obj_nil : Spells [123, 125] v (obj [] = v) True :=
  spells_of_eq (List.cons_ne_nil _ _)
    (iff_true_intro (utf8_of_ascii (by decide))) fun {n rest} _ => by
    rw [List.cons_append, readValue, skip_cons (by decide)]
    rfl

/-- Members begin with a quote. -/
theorem SpellsMembers.head?_skip (hs : SpellsMembers text ms P U)
    (rest : List UInt8) : (skip (text ++ rest)).head? = some 34 := by
  obtain ⟨t, rfl⟩ := List.head?_eq_some_iff.mp hs.head
  rw [List.cons_append, skip_cons (by decide)]
  rfl

/-- **An object.** -/
theorem SpellsMembers.obj (hs : SpellsMembers text ms P U) :
    Spells (123 :: (text ++ [125])) (obj ms) P U where
  reads := by
    intro hP rest n _ hn
    rw [List.length_cons, List.length_append, List.length_singleton] at hn
    obtain ⟨n, rfl⟩ := Nat.exists_eq_succ_of_ne_zero (Nat.ne_zero_of_lt hn)
    have hreads := hs.reads hP rest (n := n) (by omega)
    rw [List.cons_append, List.append_assoc, List.singleton_append, readValue,
      skip_cons (by decide)]
    simp [hs.head?_skip, hreads]
  only := by
    intro n rest rest' _ hread
    rw [List.cons_append, List.append_assoc, List.singleton_append] at hread
    cases n with
    | zero =>
      rw [readValue] at hread
      cases hread
    | succ n =>
      rw [readValue, skip_cons (by decide)] at hread
      dsimp only at hread
      rw [if_neg (by decide), if_neg (by decide), if_pos rfl,
        hs.head?_skip, if_neg (by decide)] at hread
      obtain ⟨⟨ws, rest₁⟩, hmembers, hread⟩ := Option.map_eq_some_iff.mp hread
      cases hread
      exact hs.only hmembers
  utf8 := by
    rw [utf8_cons (by decide), utf8_append_cons (by decide), hs.utf8]
    exact and_iff_left utf8_nil

/-! ### Texts with commas between them -/

/-- Texts with commas between them. -/
def separated : List (List UInt8) → List UInt8
  | [] => []
  | [t] => t
  | t :: t' :: ts => t ++ 44 :: separated (t' :: ts)

/-- A comma stands behind each text but the last. -/
theorem separated_concat (ts : List (List UInt8)) (t : List UInt8) :
    separated (ts ++ [t]) = ts.flatMap (· ++ [44]) ++ t := by
  induction ts with
  | nil => rfl
  | cons t' ts ih =>
    rw [List.flatMap_cons, List.append_assoc, ← ih, List.append_assoc]
    cases ts <;> rfl

variable {ι : Type} {key txt : ι → List UInt8} {value : ι → Json}
  {Fits Chars : ι → Prop}

/-- **An array whose items say what they should.** -/
theorem spells_arr (items : List ι)
    (h : ∀ i ∈ items, Spells (txt i) (value i) (Fits i) (Chars i)) :
    Spells (91 :: (separated (items.map txt) ++ [93])) (arr (items.map value))
      (∀ i ∈ items, Fits i) (∀ i ∈ items, Chars i) := by
  cases items with
  | nil => exact spells_arr_nil.congr (by simp) (by simp)
  | cons i items =>
    refine SpellsItems.arr ?_
    induction items generalizing i with
    | nil =>
      rw [List.forall_mem_singleton] at h
      simpa [separated] using h.last
    | cons j items ih =>
      rw [List.forall_mem_cons] at h
      have hcons := h.1.cons (ih j h.2)
      rw [List.forall_mem_cons, List.forall_mem_cons (a := i)]
      exact hcons

/-- **An object whose members say what they should.** -/
theorem spells_obj (members : List ι)
    (h : ∀ i ∈ members, Spells (txt i) (value i) (Fits i) (Chars i)) :
    Spells (123 :: (separated (members.map fun i => member (key i) (txt i))
        ++ [125])) (obj (members.map fun i => (key i, value i)))
      (∀ i ∈ members, Plain (key i) ∧ Fits i)
      (∀ i ∈ members, Utf8 (key i) ∧ Chars i) := by
  cases members with
  | nil => exact spells_obj_nil.congr (by simp) (by simp)
  | cons i members =>
    refine SpellsMembers.obj ?_
    induction members generalizing i with
    | nil =>
      rw [List.forall_mem_singleton] at h
      simpa [separated] using h.lastMember (key i)
    | cons j members ih =>
      rw [List.forall_mem_cons] at h
      have hcons := h.1.consMember (key i) (ih j h.2)
      rw [List.forall_mem_cons, List.forall_mem_cons (a := i)]
      exact hcons

end Json
