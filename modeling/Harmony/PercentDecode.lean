import Harmony.StaticFiles

/-!
# Percent decoding, twice

`percent_decode` exists in two copies. One appends to a `std::string`
(`percentDecode`), the other one writes through a pointer, with a zero at the
end, and returns a view of what it has written (`percentDecodeTo`). Nothing
checks the pointer. What is behind it when a path is decoded is a block of
`src.size() + 1` bytes, which is enough, since decoding never makes a text
longer.

Both undo every encoding of a text, whatever was escaped and however
(`percentDecode_overloads`).
-/

/-- A byte written through a pointer, into a block of memory. -/
def writeAt (out : Bytes) (p : ℕ) (b : UInt8) : Except Fault Bytes :=
  if p < out.length then .ok (out.set p b) else .error .overrun

/-- **`percent_decode` into a buffer**: the memory it leaves, and where it has
put the zero. -/
def percentDecodeTo (out : Bytes) (p : ℕ) : Bytes → Except Fault (Bytes × ℕ)
  | [] => do
    let out ← writeAt out p 0
    .ok (out, p)
  | c :: rest =>
    if c = 37 then
      match rest with
      | a :: b :: rest => do
        let out ← writeAt out p (fromHex a <<< 4 ||| fromHex b)
        percentDecodeTo out (p + 1) rest
      | rest => percentDecodeTo out p rest
    else if c = 43 then do
      let out ← writeAt out p 32
      percentDecodeTo out (p + 1) rest
    else do
      let out ← writeAt out p c
      percentDecodeTo out (p + 1) rest

/-- A block of memory, as `MemBlock::alloc` hands it out. -/
abbrev Block (n : ℕ) := { out : Bytes // out.length = n }

/-- **`percent_decode` into a `MemBlock`**, with the view that is returned. -/
def percentDecodeBlock (src : Bytes) (out : Block (src.length + 1)) :
    Except Fault Bytes := do
  let (out, n) ← percentDecodeTo out.val 0 src
  .ok (out.take n)

/-! ## One kind of character at a time -/

section Characters

variable (rest : Bytes)

@[simp] theorem percentDecode_escape (a b : UInt8) :
    percentDecode (37 :: a :: b :: rest)
      = (fromHex a <<< 4 ||| fromHex b) :: percentDecode rest := by
  rw [percentDecode, if_pos rfl]

/-- A percent sign with too little behind it is dropped. -/
theorem percentDecode_cut (h : rest.length < 2) :
    percentDecode (37 :: rest) = percentDecode rest := by
  match rest, h with
  | [], _ => rfl
  | [_], _ => rfl

@[simp] theorem percentDecode_plus :
    percentDecode (43 :: rest) = 32 :: percentDecode rest := by
  rw [percentDecode.eq_def]
  rfl

theorem percentDecode_plain {c : UInt8} (hpercent : c ≠ 37) (hplus : c ≠ 43) :
    percentDecode (c :: rest) = c :: percentDecode rest := by
  rw [percentDecode.eq_def]
  dsimp only
  rw [if_neg hpercent, if_neg hplus]

variable (out : Bytes) (p : ℕ)

theorem percentDecodeTo_escape (a b : UInt8) :
    percentDecodeTo out p (37 :: a :: b :: rest)
      = (do
        let out ← writeAt out p (fromHex a <<< 4 ||| fromHex b)
        percentDecodeTo out (p + 1) rest) := by
  rw [percentDecodeTo, if_pos rfl]

theorem percentDecodeTo_cut (h : rest.length < 2) :
    percentDecodeTo out p (37 :: rest) = percentDecodeTo out p rest := by
  match rest, h with
  | [], _ => rfl
  | [_], _ => rfl

theorem percentDecodeTo_plus :
    percentDecodeTo out p (43 :: rest)
      = (do
        let out ← writeAt out p 32
        percentDecodeTo out (p + 1) rest) := by
  rw [percentDecodeTo.eq_def]
  rfl

theorem percentDecodeTo_plain {c : UInt8} (hpercent : c ≠ 37) (hplus : c ≠ 43) :
    percentDecodeTo out p (c :: rest)
      = (do
        let out ← writeAt out p c
        percentDecodeTo out (p + 1) rest) := by
  rw [percentDecodeTo.eq_def]
  dsimp only
  rw [if_neg hpercent, if_neg hplus]

end Characters

/-- **Decoding goes character by character**: an escape, a percent sign that is
cut off, a plus, or any other byte. -/
theorem percentDecode_induction {P : Bytes → Prop} (nil : P [])
    (escape : ∀ a b rest, P rest → P (37 :: a :: b :: rest))
    (cut : ∀ rest : Bytes, rest.length < 2 → P rest → P (37 :: rest))
    (plus : ∀ rest, P rest → P (43 :: rest))
    (plain : ∀ c rest, c ≠ 37 → c ≠ 43 → P rest → P (c :: rest))
    (src : Bytes) : P src := by
  induction src using percentDecode.induct with
  | case1 => exact nil
  | case2 a b rest ih => exact escape a b rest ih
  | case3 rest hrest ih =>
    refine cut rest ?_ ih
    match rest, hrest with
    | [], _ => exact Nat.zero_lt_two
    | [_], _ => exact Nat.one_lt_two
    | a :: b :: rest, hrest => exact (hrest a b rest rfl).elim
  | case4 rest _ ih => exact plus rest ih
  | case5 c rest hpercent hplus ih => exact plain c rest hpercent hplus ih

/-! ## The two copies -/

/-- The next byte goes where the room begins. -/
theorem writeAt_append (done : Bytes) (x : UInt8) (room : Bytes) (b : UInt8) :
    writeAt (done ++ x :: room) done.length b = .ok ((done ++ [b]) ++ room) := by
  rw [writeAt, if_pos (by simp), List.set_append_right _ _ le_rfl, Nat.sub_self,
    List.set_cons_zero, List.append_assoc]
  rfl

/-- Decoding does not make a text longer. -/
theorem length_percentDecode_le (src : Bytes) :
    (percentDecode src).length ≤ src.length := by
  induction src using percentDecode_induction with
  | nil => exact le_rfl
  | escape a b rest ih =>
    rw [percentDecode_escape]
    exact Nat.succ_le_succ (ih.trans (Nat.le_add_right _ 2))
  | cut rest h ih =>
    rw [percentDecode_cut rest h]
    exact ih.trans (Nat.le_succ _)
  | plus rest ih =>
    rw [percentDecode_plus]
    exact Nat.succ_le_succ ih
  | plain c rest hpercent hplus ih =>
    rw [percentDecode_plain rest hpercent hplus]
    exact Nat.succ_le_succ ih

/-- **The pointer is right behind what was decoded**: the rest of the text goes
there, with a zero behind it, and the rest of the memory stays. -/
theorem percentDecodeTo_append (src done room : Bytes)
    (h : (percentDecode src).length < room.length) :
    percentDecodeTo (done ++ room) done.length src
      = .ok (done ++ percentDecode src
          ++ 0 :: room.drop ((percentDecode src).length + 1),
        done.length + (percentDecode src).length) := by
  -- a byte is written, and then the rest of the text
  have hnext : ∀ (b : UInt8) (rest : Bytes),
      (∀ done room : Bytes, (percentDecode rest).length < room.length →
        percentDecodeTo (done ++ room) done.length rest
          = .ok (done ++ percentDecode rest
              ++ 0 :: room.drop ((percentDecode rest).length + 1),
            done.length + (percentDecode rest).length)) →
      ∀ done room : Bytes, (percentDecode rest).length + 1 < room.length →
        (do
          let out ← writeAt (done ++ room) done.length b
          percentDecodeTo out (done.length + 1) rest)
          = .ok (done ++ (b :: percentDecode rest)
              ++ 0 :: room.drop ((percentDecode rest).length + 1 + 1),
            done.length + ((percentDecode rest).length + 1)) := by
    intro b rest ih done room hroom
    cases room with
    | nil => exact absurd hroom (Nat.not_lt_zero _)
    | cons x room =>
      have hih := ih (done ++ [b]) room (Nat.lt_of_succ_lt_succ hroom)
      rw [List.length_append, List.length_singleton] at hih
      rw [writeAt_append, Except.ok_bind, hih, List.append_assoc done,
        List.singleton_append, Nat.add_right_comm, Nat.add_assoc]
      rfl
  induction src using percentDecode_induction generalizing done room with
  | nil =>
    cases room with
    | nil => exact absurd h (Nat.not_lt_zero _)
    | cons x room =>
      rw [percentDecodeTo, writeAt_append, Except.ok_bind, List.append_assoc]
      simp [percentDecode]
  | escape a b rest ih =>
    rw [percentDecode_escape, List.length_cons] at h ⊢
    rw [percentDecodeTo_escape]
    exact hnext _ rest ih done room h
  | cut rest hrest ih =>
    rw [percentDecode_cut rest hrest] at h ⊢
    rw [percentDecodeTo_cut rest _ _ hrest]
    exact ih done room h
  | plus rest ih =>
    rw [percentDecode_plus, List.length_cons] at h ⊢
    rw [percentDecodeTo_plus]
    exact hnext _ rest ih done room h
  | plain c rest hpercent hplus ih =>
    rw [percentDecode_plain rest hpercent hplus, List.length_cons] at h ⊢
    rw [percentDecodeTo_plain rest _ _ hpercent hplus]
    exact hnext _ rest ih done room h

/-- What is written to a `MemBlock` is what the other copy decodes. -/
theorem percentDecodeBlock_eq (src : Bytes) (out : Block (src.length + 1)) :
    percentDecodeBlock src out = .ok (percentDecode src) := by
  have hroom : (percentDecode src).length < out.val.length := by
    rw [out.property]
    exact Nat.lt_succ_of_le (length_percentDecode_le src)
  have hwritten := percentDecodeTo_append src [] out.val hroom
  rw [List.nil_append, List.nil_append, List.length_nil, Nat.zero_add]
    at hwritten
  rw [percentDecodeBlock, hwritten, Except.ok_bind]
  dsimp only
  rw [List.take_left']
  rfl

/-! ## Encodings -/

/-- **A hex digit** of a value, in either case. -/
def HexDigit (value : ℕ) (c : UInt8) : Prop :=
  (bytes "0123456789abcdef")[value]? = some c
    ∨ (bytes "0123456789ABCDEF")[value]? = some c

/-- **A text may be percent-encoded** so: every byte is written as itself, if it
is neither a percent sign nor a plus, or as an escape, or, if it is a space, as
a plus. -/
inductive Encodes : Bytes → Bytes → Prop
  | nil : Encodes [] []
  | plain {c : UInt8} {s e : Bytes} (hpercent : c ≠ 37) (hplus : c ≠ 43)
      (h : Encodes s e) : Encodes (c :: s) (c :: e)
  | escape {c a b : UInt8} {s e : Bytes} (ha : HexDigit (c.toNat / 16) a)
      (hb : HexDigit (c.toNat % 16) b) (h : Encodes s e) :
      Encodes (c :: s) (37 :: a :: b :: e)
  | plus {s e : Bytes} (h : Encodes s e) : Encodes (32 :: s) (43 :: e)

/-- A hex digit is read as its value. -/
theorem fromHex_of_hexDigit {value : ℕ} {c : UInt8} (h : HexDigit value c) :
    fromHex c = UInt8.ofNat value := by
  have hlower : ∀ v < 16, ((bytes "0123456789abcdef")[v]?).map fromHex
      = some (UInt8.ofNat v) := by decide
  have hupper : ∀ v < 16, ((bytes "0123456789ABCDEF")[v]?).map fromHex
      = some (UInt8.ofNat v) := by decide
  rcases h with h | h
  · have hlt : value < 16 := (List.getElem?_eq_some_iff.mp h).1
    have hread := hlower value hlt
    rw [h] at hread
    exact Option.some.inj hread
  · have hlt : value < 16 := (List.getElem?_eq_some_iff.mp h).1
    have hread := hupper value hlt
    rw [h] at hread
    exact Option.some.inj hread

/-- The two digits of a byte make the byte. -/
theorem digits_eq (c : UInt8) :
    UInt8.ofNat (c.toNat / 16) <<< 4 ||| UInt8.ofNat (c.toNat % 16) = c := by
  have hall : ∀ n < 256, UInt8.ofNat (n / 16) <<< 4 ||| UInt8.ofNat (n % 16)
      = UInt8.ofNat n := by decide +kernel
  have hc := hall c.toNat c.toNat_lt
  rwa [UInt8.ofNat_toNat] at hc

/-- **Decoding undoes every encoding.** -/
theorem Encodes.percentDecode_eq {s e : Bytes} (h : Encodes s e) :
    percentDecode e = s := by
  induction h with
  | nil => rfl
  | plain hpercent hplus _ ih => rw [percentDecode_plain _ hpercent hplus, ih]
  | escape ha hb _ ih =>
    rw [percentDecode_escape, fromHex_of_hexDigit ha, fromHex_of_hexDigit hb,
      digits_eq, ih]
  | plus _ ih => rw [percentDecode_plus, ih]

/-- **The two copies of `percent_decode`**, on any text and any memory that has
room for its size and a zero: the memory is written up to the zero and no
further, which is within that room, and what stands there is what the other copy
decodes; if the text is an encoding, it is the text encoded. -/
theorem percentDecode_overloads (src out : Bytes)
    (h : src.length + 1 ≤ out.length) :
    percentDecodeTo out 0 src
        = .ok (percentDecode src ++ 0 :: out.drop ((percentDecode src).length + 1),
          (percentDecode src).length)
      ∧ (percentDecode src).length + 1 ≤ src.length + 1
      ∧ (∀ block : Block (src.length + 1),
        percentDecodeBlock src block = .ok (percentDecode src))
      ∧ ∀ s, Encodes s src → percentDecode src = s := by
  have hle := Nat.succ_le_succ (length_percentDecode_le src)
  have hwritten := percentDecodeTo_append src [] out (hle.trans h)
  rw [List.nil_append, List.nil_append, List.length_nil, Nat.zero_add]
    at hwritten
  exact ⟨hwritten, hle, percentDecodeBlock_eq src,
    fun s hs => hs.percentDecode_eq⟩

/-- Two spaces, each in its own way. -/
theorem encodes_spaces : Encodes (bytes "  ") (bytes "%20+") := by
  have hescape : Encodes (32 :: [32]) (37 :: 50 :: 48 :: [43]) :=
    .escape (Or.inl rfl) (Or.inl rfl) (.plus .nil)
  exact hescape

theorem spaces_overloads :
    percentDecodeTo (List.replicate 5 255) 0 (bytes "%20+")
      = .ok (bytes "  " ++ [0, 255, 255], 2) := by
  obtain ⟨hwritten, -, -, hdecoded⟩ := percentDecode_overloads (bytes "%20+")
    (List.replicate 5 255) (by decide)
  rw [hwritten, hdecoded _ encodes_spaces]
  rfl
