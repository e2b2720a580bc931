import Mathlib.Tactic.Common

/-!
# Server-sent events

What the reader of a stream of events makes of it. The stream is cut into lines,
which end with a carriage return, a line feed, or both. A line is a field: its
name is in front of the colon, its value behind it, less one space. The fields
`event` and `data` are collected, the values of `data` with a line feed behind
each, and a blank line dispatches what has been collected. Other fields are
ignored, and so is what comes behind the last blank line.

`encode` is the obvious text for a message. `decode_encode_iff` says when it is
the right one: if no payload has a line break in it and no type is empty. A
payload with a line break in it arrives cut short, for whatever it goes on with
is at best another field (`Parser.Within`). A type with a line break in it never
arrives at all, as a type is what a line ends with
(`decode_flatMap_encode_iff`).
-/

namespace ServerSentEvents

/-- **A message** as it is dispatched. -/
structure Message where
  type : List UInt8
  data : List UInt8
  deriving DecidableEq, Repr

/-- `event`. -/
def eventName : List UInt8 := [101, 118, 101, 110, 116]

/-- `data`. -/
def dataName : List UInt8 := [100, 97, 116, 97]

/-- `message`, the type of a message that has none. -/
def defaultType : List UInt8 := [109, 101, 115, 115, 97, 103, 101]

/-- **The state of the reader.** -/
structure Parser where
  /-- The line that is being read. -/
  line : List UInt8
  /-- Whether the last byte was a carriage return. -/
  afterCr : Bool
  /-- The values of `data` so far, with a line feed behind each. -/
  data : List UInt8
  /-- The value of `event`. -/
  type : List UInt8
  deriving DecidableEq, Repr

namespace Parser

/-- A reader that has read nothing. -/
def fresh : Parser := ⟨[], false, [], []⟩

/-- A value, less the space in front of it. -/
def withoutSpace (value : List UInt8) : List UInt8 :=
  if value.head? = some 32 then value.tail else value

/-- The name of the field on a line. -/
def fieldName (line : List UInt8) : List UInt8 := line.takeWhile (· ≠ 58)

/-- The value of the field on a line. -/
def fieldValue (line : List UInt8) : List UInt8 :=
  withoutSpace (line.dropWhile (· ≠ 58)).tail

/-- A field is collected. -/
def field (p : Parser) (name value : List UInt8) : Parser :=
  if name = eventName then { p with type := value }
  else if name = dataName then { p with data := p.data ++ value ++ [10] }
  else p

/-- What has been collected is dispatched. Without data nothing is. -/
def dispatch (p : Parser) : Parser × Option Message :=
  if p.data = [] then ({ p with type := [] }, none)
  else ({ p with data := [], type := [] },
    some ⟨if p.type = [] then defaultType else p.type, p.data.dropLast⟩)

/-- A line has ended. -/
def endLine (p : Parser) : Parser × Option Message :=
  if p.line = [] then p.dispatch
  else ({ p.field (fieldName p.line) (fieldValue p.line) with line := [] }, none)

/-- **One byte.** A line feed behind a carriage return belongs to it. -/
def feed (p : Parser) (c : UInt8) : Parser × Option Message :=
  if c = 10 then
    if p.afterCr then ({ p with afterCr := false }, none) else p.endLine
  else if c = 13 then
    ({ p.endLine.1 with afterCr := true }, p.endLine.2)
  else ({ p with line := p.line ++ [c], afterCr := false }, none)

/-- **What is dispatched** while some bytes are read. -/
def parse (p : Parser) : List UInt8 → List Message
  | [] => []
  | c :: cs => (p.feed c).2.toList ++ (p.feed c).1.parse cs

end Parser

/-- **The messages of a stream.** -/
def decode (stream : List UInt8) : List Message := Parser.fresh.parse stream

/-- The text of a message. -/
def encode (m : Message) : List UInt8 :=
  eventName ++ 58 :: 32 :: m.type ++ 10 :: dataName ++ 58 :: 32 :: m.data
    ++ [10, 10]

/-- Without a line break. -/
def OneLine (text : List UInt8) : Prop := 10 ∉ text ∧ 13 ∉ text

instance (text : List UInt8) : Decidable (OneLine text) :=
  inferInstanceAs (Decidable (_ ∧ _))

/-- **A message that is its text**: it has a type, and no line break in its
data. -/
def Message.Plain (m : Message) : Prop := m.type ≠ [] ∧ OneLine m.data

instance (m : Message) : Decidable m.Plain :=
  inferInstanceAs (Decidable (_ ∧ _))

/-! ## Reading lines -/

namespace Parser

variable {p : Parser} {text rest : List UInt8}

/-- What has no line break in it is added to the line. -/
theorem parse_append (hcr : p.afterCr = false) (htext : OneLine text) :
    p.parse (text ++ rest)
      = Parser.parse { p with line := p.line ++ text } rest := by
  induction text generalizing p with
  | nil => rw [List.append_nil, List.nil_append]
  | cons c text ih =>
    have hc : c ≠ 10 ∧ c ≠ 13 :=
      ⟨fun h => htext.1 (h ▸ List.mem_cons_self),
        fun h => htext.2 (h ▸ List.mem_cons_self)⟩
    have hfeed : p.feed c
        = ({ p with line := p.line ++ [c], afterCr := false }, none) := by
      unfold feed
      rw [if_neg hc.1, if_neg hc.2]
    rw [List.cons_append, parse, hfeed]
    refine (ih (p := ⟨p.line ++ [c], false, p.data, p.type⟩) rfl
      ⟨fun h => htext.1 (List.mem_cons_of_mem _ h),
        fun h => htext.2 (List.mem_cons_of_mem _ h)⟩).trans ?_
    rw [hcr, List.append_assoc]
    rfl

/-- **A field on a line of its own** is collected. -/
theorem parse_field (hline : p.line = []) (hcr : p.afterCr = false)
    (hne : text ≠ []) (htext : OneLine text) :
    p.parse (text ++ 10 :: rest)
      = (p.field (fieldName text) (fieldValue text)).parse rest := by
  rw [parse_append hcr htext]
  obtain ⟨line, afterCr, data, type⟩ := p
  dsimp only at hline hcr
  subst hline hcr
  have hfeed : feed ⟨text, false, data, type⟩ 10
      = (field ⟨[], false, data, type⟩ (fieldName text) (fieldValue text),
        none) := by
    unfold feed endLine field
    rw [if_pos rfl, if_neg Bool.false_ne_true, if_neg hne]
    split_ifs <;> rfl
  show Parser.parse ⟨text, false, data, type⟩ (10 :: rest) = _
  rw [parse, hfeed]
  rfl

/-- **A blank line** dispatches. -/
theorem parse_blank (hline : p.line = []) (hcr : p.afterCr = false) :
    p.parse (10 :: rest) = p.dispatch.2.toList ++ p.dispatch.1.parse rest := by
  have hfeed : p.feed 10 = p.dispatch := by
    unfold feed endLine
    rw [if_pos rfl, hcr, if_neg Bool.false_ne_true, if_pos hline]
  rw [parse, hfeed]

end Parser

/-- The field in front of a type. -/
theorem field_event (value : List UInt8) :
    Parser.fieldName (eventName ++ 58 :: 32 :: value) = eventName
      ∧ Parser.fieldValue (eventName ++ 58 :: 32 :: value) = value :=
  ⟨rfl, rfl⟩

/-- The field in front of a payload. -/
theorem field_data (value : List UInt8) :
    Parser.fieldName (dataName ++ 58 :: 32 :: value) = dataName
      ∧ Parser.fieldValue (dataName ++ 58 :: 32 :: value) = value :=
  ⟨rfl, rfl⟩

/-! ## A message that is its text -/

variable {m : Message} {rest : List UInt8}

/-- A text with a field name in front has no line break but its own. -/
theorem oneLine_field {name value : List UInt8} (hname : OneLine name)
    (hvalue : OneLine value) : OneLine (name ++ 58 :: 32 :: value) := by
  have hboth : ∀ c : UInt8, c ≠ 58 → c ≠ 32 → c ∉ name → c ∉ value →
      c ∉ name ++ 58 :: 32 :: value := by
    intro c h₁ h₂ hn hv hmem
    rcases List.mem_append.mp hmem with hmem | hmem
    · exact hn hmem
    · rcases List.mem_cons.mp hmem with h | hmem
      · exact h₁ h
      · rcases List.mem_cons.mp hmem with h | hmem
        · exact h₂ h
        · exact hv hmem
  exact ⟨hboth 10 (by decide) (by decide) hname.1 hvalue.1,
    hboth 13 (by decide) (by decide) hname.2 hvalue.2⟩

/-- A text is its two lines and the blank one. -/
theorem encode_append (m : Message) (rest : List UInt8) :
    encode m ++ rest = (eventName ++ 58 :: 32 :: m.type)
      ++ 10 :: ((dataName ++ 58 :: 32 :: m.data) ++ 10 :: 10 :: rest) := by
  unfold encode
  simp only [List.append_assoc, List.cons_append, List.nil_append]

/-- **After the first line** the type is known. -/
theorem parse_type (htype : OneLine m.type) :
    decode (encode m ++ rest) = Parser.parse ⟨[], false, [], m.type⟩
      ((dataName ++ 58 :: 32 :: m.data) ++ 10 :: 10 :: rest) := by
  rw [encode_append, decode,
    Parser.parse_field (p := Parser.fresh) rfl rfl
      (List.append_ne_nil_of_left_ne_nil (by decide) _)
      (oneLine_field (by decide) htype),
    (field_event m.type).1, (field_event m.type).2]
  rfl

/-- **A payload on one line** arrives. -/
theorem decode_encode_of_oneLine (htype : OneLine m.type)
    (hdata : OneLine m.data) :
    decode (encode m ++ rest)
      = ⟨if m.type = [] then defaultType else m.type, m.data⟩ :: decode rest := by
  have hfield : Parser.field ⟨[], false, [], m.type⟩ dataName m.data
      = ⟨[], false, m.data ++ [10], m.type⟩ := rfl
  rw [parse_type htype, Parser.parse_field rfl rfl
      (List.append_ne_nil_of_left_ne_nil (by decide) _)
      (oneLine_field (by decide) hdata),
    (field_data m.data).1, (field_data m.data).2, hfield,
    Parser.parse_blank rfl rfl]
  unfold Parser.dispatch
  rw [if_neg (List.append_ne_nil_of_right_ne_nil _ (List.cons_ne_nil _ _))]
  dsimp only
  rw [List.dropLast_concat]
  rfl

/-! ## A payload that is cut short -/

namespace Parser

variable {p : Parser} {n : ℕ}

/-- **The reader is within a payload** of which it has read `n` bytes, a line
break among them: it has collected no more than that. -/
structure Within (n : ℕ) (p : Parser) : Prop where
  started : p.data ≠ []
  size : p.data.length + p.line.length ≤ n
  afterCr : p.afterCr = true → p.line = []

/-- A field adds less than its line. -/
theorem length_field (p : Parser) :
    (p.field (fieldName p.line) (fieldValue p.line)).data.length
      ≤ p.data.length + p.line.length := by
  have hspace : ∀ value : List UInt8,
      (withoutSpace value).length ≤ value.length := by
    intro value
    unfold withoutSpace
    split_ifs
    · rw [List.length_tail]
      exact Nat.sub_le _ _
    · exact Nat.le_refl _
  have hsplit := congrArg List.length (List.takeWhile_append_dropWhile
    (p := fun c : UInt8 => decide (c ≠ 58)) (l := p.line))
  have hvalue := hspace (p.line.dropWhile (· ≠ 58)).tail
  rw [List.length_append] at hsplit
  rw [List.length_tail] at hvalue
  unfold field
  split_ifs with hevent hdata
  · exact Nat.le_add_right _ _
  · have hname := congrArg List.length hdata
    unfold fieldName at hname
    have hfour : dataName.length = 4 := rfl
    show (p.data ++ fieldValue p.line ++ [10]).length ≤ _
    rw [List.length_append, List.length_append, List.length_singleton]
    unfold fieldValue
    omega
  · exact Nat.le_add_right _ _

/-- A blank line dispatches something shorter. -/
theorem Within.blank (h : p.Within n) (hline : p.line = []) :
    ∃ m, p.dispatch.2 = some m ∧ m.data.length < n := by
  have hpos := List.length_pos_iff.mpr h.started
  have hsize := h.size
  rw [hline, List.length_nil, Nat.add_zero] at hsize
  unfold dispatch
  rw [if_neg h.started]
  refine ⟨_, rfl, ?_⟩
  show p.data.dropLast.length < n
  rw [List.length_dropLast]
  omega

/-- **At the end of a line** the reader is still within the payload, or has
dispatched something shorter. -/
theorem Within.endLine (h : p.Within n) :
    (p.endLine.2 = none ∧ p.endLine.1.Within n ∧ p.endLine.1.line = []
        ∧ p.endLine.1.afterCr = p.afterCr)
      ∨ ∃ m, p.endLine.2 = some m ∧ m.data.length < n := by
  unfold Parser.endLine
  split_ifs with hline
  · exact Or.inr (h.blank hline)
  · have hgrows : (p.field (fieldName p.line) (fieldValue p.line)).data ≠ []
        ∧ (p.field (fieldName p.line) (fieldValue p.line)).afterCr
          = p.afterCr := by
      unfold field
      split_ifs
      · exact ⟨h.started, rfl⟩
      · exact ⟨List.append_ne_nil_of_right_ne_nil _ (List.cons_ne_nil _ _), rfl⟩
      · exact ⟨h.started, rfl⟩
    exact Or.inl ⟨rfl, ⟨hgrows.1, Nat.le_trans p.length_field h.size,
      fun _ => rfl⟩, rfl, hgrows.2⟩

/-- **With one byte more** the reader is still within the payload, or has
dispatched something shorter. -/
theorem Within.feed (h : p.Within n) (c : UInt8) :
    ((p.feed c).2 = none ∧ (p.feed c).1.Within (n + 1))
      ∨ ∃ m, (p.feed c).2 = some m ∧ m.data.length < n := by
  have hsize := h.size
  unfold Parser.feed
  split_ifs with hlf hcr hcr'
  · exact Or.inl ⟨rfl, h.started, Nat.le_succ_of_le hsize,
      fun hf => Bool.noConfusion hf⟩
  · exact h.endLine.imp_left fun ⟨hnone, hwithin, _⟩ =>
      ⟨hnone, hwithin.started, Nat.le_succ_of_le hwithin.size,
        hwithin.afterCr⟩
  · exact h.endLine.imp_left fun ⟨hnone, hwithin, hline, _⟩ =>
      ⟨hnone, hwithin.started, Nat.le_succ_of_le hwithin.size, fun _ => hline⟩
  · refine Or.inl ⟨rfl, h.started, ?_, fun hf => Bool.noConfusion hf⟩
    show p.data.length + (p.line ++ [c]).length ≤ n + 1
    rw [List.length_append, List.length_singleton]
    omega

/-- **At the end of the payload** something shorter is dispatched. -/
theorem Within.finish (h : p.Within n) (rest : List UInt8) :
    ∃ m ms, p.parse (10 :: 10 :: rest) = m :: ms ∧ m.data.length < n := by
  -- a line that is blank, and the line feed behind it
  have hblank : ∀ p : Parser, p.Within n → p.line = [] → p.afterCr = false →
      ∃ m ms, p.parse (10 :: rest) = m :: ms ∧ m.data.length < n := by
    intro p h hline hcr
    obtain ⟨m, hm, hshort⟩ := h.blank hline
    refine ⟨m, p.dispatch.1.parse rest, ?_, hshort⟩
    rw [parse_blank hline hcr, hm]
    rfl
  rw [parse]
  cases hcr : p.afterCr with
  | true =>
    have hfeed : p.feed 10 = ({ p with afterCr := false }, none) := by
      unfold Parser.feed
      rw [if_pos rfl, hcr, if_pos rfl]
    rw [hfeed]
    exact hblank { p with afterCr := false }
      ⟨h.started, h.size, fun hf => Bool.noConfusion hf⟩ (h.afterCr hcr) rfl
  | false =>
    have hfeed : p.feed 10 = p.endLine := by
      unfold Parser.feed
      rw [if_pos rfl, hcr, if_neg Bool.false_ne_true]
    rw [hfeed]
    rcases h.endLine with ⟨hnone, hwithin, hline, hafter⟩ | ⟨m, hm, hshort⟩
    · rw [hnone]
      exact hblank p.endLine.1 hwithin hline (hafter.trans hcr)
    · refine ⟨m, p.endLine.1.parse (10 :: rest), ?_, hshort⟩
      rw [hm]
      rfl

/-- **Within a payload** the next message is shorter than the payload. -/
theorem Within.parse (h : p.Within n) (text rest : List UInt8) :
    ∃ m ms, p.parse (text ++ 10 :: 10 :: rest) = m :: ms
      ∧ m.data.length < n + text.length := by
  induction text generalizing p n with
  | nil => exact h.finish rest
  | cons c text ih =>
    rw [List.cons_append, Parser.parse, List.length_cons]
    rcases h.feed c with ⟨hnone, hwithin⟩ | ⟨m, hm, hshort⟩
    · obtain ⟨m, ms, hparse, hshort⟩ := ih hwithin
      refine ⟨m, ms, ?_, by omega⟩
      rw [hnone, hparse]
      rfl
    · refine ⟨m, (p.feed c).1.parse (text ++ 10 :: 10 :: rest), ?_, by omega⟩
      rw [hm]
      rfl

end Parser

/-- A text with a line break in it is a line, the break, and the rest. -/
theorem exists_of_not_oneLine {text : List UInt8} (h : ¬ OneLine text) :
    ∃ line c rest, text = line ++ c :: rest ∧ OneLine line
      ∧ (c = 10 ∨ c = 13) := by
  induction text with
  | nil => exact absurd ⟨List.not_mem_nil, List.not_mem_nil⟩ h
  | cons c text ih =>
    by_cases hc : c = 10 ∨ c = 13
    · exact ⟨[], c, text, rfl, ⟨List.not_mem_nil, List.not_mem_nil⟩, hc⟩
    · rw [not_or] at hc
      have htext : ¬ OneLine text := by
        refine fun htext => h ⟨fun hmem => ?_, fun hmem => ?_⟩
        · exact (List.mem_cons.mp hmem).elim (fun h => hc.1 h.symm) htext.1
        · exact (List.mem_cons.mp hmem).elim (fun h => hc.2 h.symm) htext.2
      obtain ⟨line, d, rest, rfl, hline, hd⟩ := ih htext
      refine ⟨c :: line, d, rest, rfl, ⟨fun hmem => ?_, fun hmem => ?_⟩, hd⟩
      · exact (List.mem_cons.mp hmem).elim (fun h => hc.1 h.symm) hline.1
      · exact (List.mem_cons.mp hmem).elim (fun h => hc.2 h.symm) hline.2

/-- **A payload with a line break arrives cut short.** -/
theorem decode_encode_of_not_oneLine (htype : OneLine m.type)
    (hdata : ¬ OneLine m.data) :
    ∃ m' ms, decode (encode m ++ rest) = m' :: ms
      ∧ m'.data.length < m.data.length := by
  obtain ⟨line, c, tail, hsplit, hline, hc⟩ := exists_of_not_oneLine hdata
  -- the reader behind the first line of the payload
  have hbehind : ∃ p : Parser, p.Within (line.length + 1)
      ∧ Parser.feed ⟨dataName ++ 58 :: 32 :: line, false, [], m.type⟩ c
        = (p, none) := by
    refine ⟨⟨[], c = 13, line ++ [10], m.type⟩, ⟨?_, ?_, fun _ => rfl⟩, ?_⟩
    · exact List.append_ne_nil_of_right_ne_nil _ (List.cons_ne_nil _ _)
    · show (line ++ [10]).length + 0 ≤ line.length + 1
      rw [List.length_append]
      exact Nat.le_refl _
    · rcases hc with rfl | rfl
      · rfl
      · rfl
  obtain ⟨p, hwithin, hfeed⟩ := hbehind
  obtain ⟨m', ms, hparse, hshort⟩ := hwithin.parse tail rest
  refine ⟨m', ms, ?_, ?_⟩
  · have htext : (dataName ++ 58 :: 32 :: m.data) ++ 10 :: 10 :: rest
        = (dataName ++ 58 :: 32 :: line)
          ++ (c :: (tail ++ 10 :: 10 :: rest)) := by
      rw [hsplit]
      simp only [List.append_assoc, List.cons_append]
    rw [parse_type htype, htext,
      Parser.parse_append rfl (oneLine_field (by decide) hline)]
    show Parser.parse ⟨dataName ++ 58 :: 32 :: line, false, [], m.type⟩
      (c :: (tail ++ 10 :: 10 :: rest)) = _
    rw [Parser.parse, hfeed]
    exact hparse
  · rw [hsplit, List.length_append, List.length_cons]
    omega

/-- **A sequence of texts is read as its messages exactly if every message is
its text**: a type that is not empty, and a payload on one line. -/
theorem decode_encode_iff {ms : List Message}
    (htypes : ∀ m ∈ ms, OneLine m.type) :
    decode (ms.flatMap encode) = ms ↔ ∀ m ∈ ms, m.Plain := by
  induction ms with
  | nil => exact iff_of_true rfl fun _ hm => absurd hm List.not_mem_nil
  | cons m ms ih =>
    obtain ⟨htype, htypes⟩ := List.forall_mem_cons.mp htypes
    rw [List.flatMap_cons, List.forall_mem_cons, ← ih htypes]
    by_cases hdata : OneLine m.data
    · rw [decode_encode_of_oneLine htype hdata]
      by_cases hempty : m.type = []
      · refine iff_of_false (fun h => ?_) fun h => h.1.1 hempty
        have htype' := congrArg Message.type (List.cons.inj h).1
        rw [if_pos hempty, hempty] at htype'
        exact List.cons_ne_nil _ _ htype'
      · rw [if_neg hempty]
        exact ⟨fun h => ⟨⟨hempty, hdata⟩, (List.cons.inj h).2⟩,
          fun h => congrArg (m :: ·) h.2⟩
    · obtain ⟨m', ms', hdecode, hshort⟩ :=
        decode_encode_of_not_oneLine htype hdata
      rw [hdecode]
      refine iff_of_false (fun h => ?_) fun h => hdata h.1.2
      rw [(List.cons.inj h).1] at hshort
      exact Nat.lt_irrefl _ hshort

/-! ## A type that is not on one line -/

theorem oneLine_nil : OneLine [] := by decide

theorem oneLine_defaultType : OneLine defaultType := by decide

/-- A part of a line is on one line. -/
theorem oneLine_of_subset {part text : List UInt8} (h : part ⊆ text)
    (htext : OneLine text) : OneLine part :=
  ⟨fun hmem => htext.1 (h hmem), fun hmem => htext.2 (h hmem)⟩

namespace Parser

variable {p : Parser}

/-- **What the reader holds is on one line**: the line, and the type. -/
structure Lined (p : Parser) : Prop where
  line : OneLine p.line
  type : OneLine p.type

/-- The value of a field is a part of its line. -/
theorem fieldValue_subset (line : List UInt8) : fieldValue line ⊆ line := by
  have hrest : (line.dropWhile (· ≠ 58)).tail ⊆ line :=
    ((List.tail_suffix _).trans (List.dropWhile_suffix _)).subset
  unfold fieldValue withoutSpace
  split_ifs
  · exact List.Subset.trans (List.tail_suffix _).subset hrest
  · exact hrest

/-- A reader that dispatches has no type any more; what it dispatches is of the
type it had. -/
theorem Lined.dispatch (h : p.Lined) :
    p.dispatch.1.Lined ∧ ∀ m ∈ p.dispatch.2, OneLine m.type := by
  unfold Parser.dispatch
  split_ifs with hdata htype
  · exact ⟨⟨h.line, oneLine_nil⟩, nofun⟩
  · refine ⟨⟨h.line, oneLine_nil⟩, fun m hm => ?_⟩
    cases hm
    exact oneLine_defaultType
  · refine ⟨⟨h.line, oneLine_nil⟩, fun m hm => ?_⟩
    cases hm
    exact h.type

theorem Lined.endLine (h : p.Lined) :
    p.endLine.1.Lined ∧ ∀ m ∈ p.endLine.2, OneLine m.type := by
  unfold Parser.endLine
  split_ifs with hline
  · exact h.dispatch
  · refine ⟨⟨oneLine_nil, ?_⟩, nofun⟩
    unfold field
    split_ifs
    · exact oneLine_of_subset (fieldValue_subset p.line) h.line
    · exact h.type
    · exact h.type

theorem Lined.feed (h : p.Lined) (c : UInt8) :
    (p.feed c).1.Lined ∧ ∀ m ∈ (p.feed c).2, OneLine m.type := by
  unfold Parser.feed
  split_ifs with hlf hcr hcr'
  · exact ⟨⟨h.line, h.type⟩, nofun⟩
  · exact h.endLine
  · exact ⟨⟨h.endLine.1.line, h.endLine.1.type⟩, h.endLine.2⟩
  · refine ⟨⟨⟨fun hmem => ?_, fun hmem => ?_⟩, h.type⟩, nofun⟩
    · rcases List.mem_append.mp hmem with hmem | hmem
      · exact h.line.1 hmem
      · exact hlf (List.mem_singleton.mp hmem).symm
    · rcases List.mem_append.mp hmem with hmem | hmem
      · exact h.line.2 hmem
      · exact hcr' (List.mem_singleton.mp hmem).symm

/-- **No message has a line break in its type.** -/
theorem Lined.parse (h : p.Lined) (stream : List UInt8) :
    ∀ m ∈ p.parse stream, OneLine m.type := by
  induction stream generalizing p with
  | nil => exact fun m hm => absurd hm List.not_mem_nil
  | cons c stream ih =>
    obtain ⟨hnext, hmessage⟩ := h.feed c
    intro m hm
    rcases List.mem_append.mp hm with hm | hm
    · exact hmessage m (Option.mem_toList.mp hm)
    · exact ih hnext m hm

end Parser

/-- **A sequence of texts is read as its messages exactly if every message is its
text and has its type on one line.** -/
theorem decode_flatMap_encode_iff (ms : List Message) :
    decode (ms.flatMap encode) = ms ↔ ∀ m ∈ ms, OneLine m.type ∧ m.Plain := by
  constructor
  · intro h
    have htypes : ∀ m ∈ ms, OneLine m.type := fun m hm =>
      Parser.Lined.parse (p := Parser.fresh) ⟨oneLine_nil, oneLine_nil⟩ _ m
        (show m ∈ decode (ms.flatMap encode) by rwa [h])
    exact fun m hm => ⟨htypes m hm, (decode_encode_iff htypes).mp h m hm⟩
  · exact fun h => (decode_encode_iff fun m hm => (h m hm).1).mpr
      fun m hm => (h m hm).2

end ServerSentEvents
