import Harmony.DbSession
import Harmony.QuotedString

/-!
# Query results as JSON

`to_json` writes the rows of a result as an array of objects. A cell comes from
PostgreSQL as text, and its type decides what becomes of the text: a `bool` is
written as a name, the text of a number is written as it is, and any other text
is quoted. A `Datum` is what a cell holds, and `Datum.out` its text.

`jsonify_row` trusts two things it should not. It writes the name of a column as
it is, and it takes the text of a number for a number of JSON, which `NaN` and
the infinities are not. `decode_toJson_iff` says that the rows are read back
exactly if neither comes up, the texts are UTF-8, and there are not so many
cells that the estimate of the size overflows.
-/

/-! ## Results -/

/-! ### Types

`PGTypeOid`, as far as `to_json` asks for it. -/

namespace PGTypeOid

/-- `BOOL`. -/
def bool : ℕ := 16

/-- `INT8`. -/
def int8 : ℕ := 20

/-- `INT2`. -/
def int2 : ℕ := 21

/-- `INT4`. -/
def int4 : ℕ := 23

/-- `FLOAT4`. -/
def float4 : ℕ := 700

/-- `FLOAT8`. -/
def float8 : ℕ := 701

/-- `NUMERIC`. -/
def numeric : ℕ := 1700

end PGTypeOid

/-- `is_pg_num_type`. -/
def isPgNumType (oid : ℕ) : Bool :=
  oid = PGTypeOid.int2 || oid = PGTypeOid.int4 || oid = PGTypeOid.int8
    || oid = PGTypeOid.float4 || oid = PGTypeOid.float8
    || oid = PGTypeOid.numeric

/-- What a number may be and JSON has no name for. -/
inductive NonFinite where
  | nan
  | infinity
  | minusInfinity
  deriving DecidableEq

/-! ### Cells and rows -/

/-- **What a cell holds.** -/
inductive Datum where
  | null
  | bool (b : Bool)
  | number (d : Json.Decimal)
  | nonFinite (x : NonFinite)
  | text (s : Bytes)

/-- A column: its name and the oid of its type. -/
structure Column where
  name : Bytes
  type : ℕ
  /-- The name is a C string. -/
  name_ne_zero : 0 ∉ name

namespace Datum

/-- **The text of a cell**, as PostgreSQL puts it out. -/
def out : Datum → Bytes
  | null => []
  | bool b => if b then bytes "t" else bytes "f"
  | number d => d.text
  | nonFinite .nan => bytes "NaN"
  | nonFinite .infinity => bytes "Infinity"
  | nonFinite .minusInfinity => bytes "-Infinity"
  | text s => s

/-- Whether a cell is null. -/
def isNull : Datum → Bool
  | null => true
  | _ => false

/-- What a cell of a type may hold. An integer is always finite. -/
def OfType (oid : ℕ) : Datum → Prop
  | null => True
  | bool _ => oid = PGTypeOid.bool
  | number _ => isPgNumType oid
  | nonFinite _ => oid = PGTypeOid.float4 ∨ oid = PGTypeOid.float8
      ∨ oid = PGTypeOid.numeric
  | text s => oid ≠ PGTypeOid.bool ∧ isPgNumType oid = false ∧ 0 ∉ s

instance (oid : ℕ) : (d : Datum) → Decidable (d.OfType oid)
  | null => inferInstanceAs (Decidable True)
  | bool _ => inferInstanceAs (Decidable (_ = _))
  | number _ => inferInstanceAs (Decidable (_ = true))
  | nonFinite _ => inferInstanceAs (Decidable (_ ∨ _ ∨ _))
  | text _ => inferInstanceAs (Decidable (_ ∧ _ ∧ _))

end Datum

/-- **A result**, with a datum of its type in each cell. -/
structure TupleResult where
  status : Db.ResultStatus
  columns : List Column
  rows : List (List Datum)
  typed : ∀ row ∈ rows,
    List.Forall₂ (fun c d => Datum.OfType c.type d) columns row

namespace TupleResult

/-- `PQntuples`. -/
def ntuples (res : TupleResult) : ℕ := res.rows.length

/-- `PQnfields`. -/
def nfields (res : TupleResult) : ℕ := res.columns.length

/-- `PQftype`. -/
def ftype (res : TupleResult) (j : ℕ) : ℕ :=
  (res.columns[j]?.map Column.type).getD 0

/-- `PQfname`, of a column there is. -/
def fname (res : TupleResult) (j : ℕ) : Bytes :=
  (res.columns[j]?.map Column.name).getD []

/-- The cell of a row and a column. -/
def cell (res : TupleResult) (i j : ℕ) : Option Datum :=
  res.rows[i]?.bind fun row => row[j]?

/-- `PQgetvalue`. -/
def getvalue (res : TupleResult) (i j : ℕ) : Option Bytes :=
  (res.cell i j).map Datum.out

/-- `PQgetisnull`. -/
def getisnull (res : TupleResult) (i j : ℕ) : Bool :=
  ((res.cell i j).map Datum.isNull).getD true

/-! ## The code -/

/-- **A loop of `n` turns** with a comma behind each but the last. -/
def commaLoop (n : ℕ) (body : ℕ → Bytes → Bytes) (ret : Bytes) : Bytes :=
  (List.range n).foldl
    (fun ret (i : ℕ) =>
      if (i : ℤ) < n - 1 then body i ret ++ [44] else body i ret) ret

/-- What `jsonify_row` writes for a value, by its type. -/
def appendValue (type : ℕ) (isnull : Bool) (val : Option Bytes) (ret : Bytes) :
    Bytes :=
  if isnull then ret ++ bytes "null"
  else match val with
    | none => ret ++ bytes "null"
    | some val =>
      if type = PGTypeOid.bool then
        ret ++ (if val.head? = some 116 then bytes "true" else bytes "false")
      else if isPgNumType type then ret ++ val
      else appendQuotedString val ret

/-- One turn of the loop in `jsonify_row`. -/
def jsonifyCell (res : TupleResult) (i j : ℕ) (ret : Bytes) : Bytes :=
  appendValue (res.ftype j) (res.getisnull i j) (res.getvalue i j)
    (ret ++ [34] ++ res.fname j ++ [34] ++ [58])

/-- **`jsonify_row`.** -/
def jsonifyRow (res : TupleResult) (row : ℕ) (out : Bytes) : Bytes :=
  commaLoop res.nfields (res.jsonifyCell row) (out ++ [123]) ++ [125]

/-- **`to_json`.** The estimate of the size is computed in `int`. -/
def toJson (res : TupleResult) : Except Fault Bytes :=
  match res.status with
  | .tuplesOk =>
    if res.ntuples * res.nfields * 8 < 2 ^ 31 then
      .ok (commaLoop res.ntuples res.jsonifyRow [91] ++ [93])
    else .error .intOverflow
  | .singleTuple =>
    if res.nfields * 8 < 2 ^ 31 then .ok (res.jsonifyRow 0 [])
    else .error .intOverflow
  | .commandOk => .ok (bytes "{}")
  | _ => .error .assertion

end TupleResult

/-! ## What the rows are -/

/-- **The value of a cell.** JSON has none for what is not finite, and
`asJson` may be any. -/
def Datum.value (asJson : NonFinite → Json) : Datum → Json
  | null => .null
  | bool b => .bool b
  | number d => .num d.value
  | nonFinite x => asJson x
  | text s => .str s

/-- **The array of the rows**, each an object with a member for each column. -/
def TupleResult.value (res : TupleResult) (asJson : NonFinite → Json) : Json :=
  .arr (res.rows.map fun row =>
    .obj ((res.columns.zip row).map fun p => (p.1.name, p.2.value asJson)))

/-- Whether a cell holds no infinity and no `NaN`. -/
def Datum.isFinite : Datum → Bool
  | nonFinite _ => false
  | _ => true

/-- Whether the text of a cell is UTF-8. -/
def Datum.isUtf8 : Datum → Bool
  | text s => Json.Utf8 s
  | _ => true

/-- **Whether all of a result can be read back.** In every cell there is, the
name of the column is plain, the value is finite, and both are UTF-8. -/
def TupleResult.Straight (res : TupleResult) : Prop :=
  res.rows.length * res.columns.length * 8 < 2 ^ 31
    ∧ ∀ row ∈ res.rows, ∀ p ∈ res.columns.zip row,
      (Json.Plain p.1.name ∧ p.2.isFinite = true)
        ∧ Json.Utf8 p.1.name ∧ p.2.isUtf8 = true

instance (res : TupleResult) : Decidable res.Straight :=
  inferInstanceAs (Decidable (_ ∧ ∀ _ ∈ _, ∀ _ ∈ _, _))

/-! ## What is written -/

open Json (separated member)

/-- **What the loop appends**, if its turns append a text for each element of a
list: these texts, with commas between them. -/
theorem TupleResult.commaLoop_eq {α : Type} {l : List α}
    {body : ℕ → Bytes → Bytes} (text : α → Bytes)
    (h : ∀ (i : ℕ) (hi : i < l.length) (ret : Bytes),
      body i ret = ret ++ text l[i]) (ret : Bytes) :
    commaLoop l.length body ret = ret ++ separated (l.map text) := by
  obtain rfl | ⟨l, a, rfl⟩ := List.eq_nil_or_concat' l
  · exact (List.append_nil ret).symm
  · have hcomma : ∀ k ≤ l.length, (List.range k).foldl (fun ret (i : ℕ) =>
        if (i : ℤ) < ((l.length + 1 : ℕ) : ℤ) - 1 then body i ret ++ [44]
        else body i ret) ret
          = ret ++ ((l.take k).map text).flatMap (· ++ [44]) := by
      intro k hk
      induction k with
      | zero => exact (List.append_nil ret).symm
      | succ k ih =>
        have hlt : k < (l ++ [a]).length := by
          rw [List.length_append]
          omega
        rw [List.range_succ, List.foldl_append, ih (Nat.le_of_succ_le hk),
          List.foldl_cons, List.foldl_nil, if_pos (by omega), h k hlt,
          List.getElem_append_left hk, ← List.take_append_getElem hk,
          List.map_append, List.map_singleton, List.flatMap_append,
          List.flatMap_singleton]
        simp only [List.append_assoc]
    have hlast := h l.length (by simp)
    rw [List.getElem_concat_length rfl] at hlast
    unfold commaLoop
    rw [List.length_append, List.length_singleton, List.range_succ,
      List.foldl_append, hcomma _ le_rfl, List.take_length, List.foldl_cons,
      List.foldl_nil, if_neg (by omega), hlast, List.map_append,
      List.map_singleton, Json.separated_concat, List.append_assoc]

namespace Datum

/-- **The text that is written for a cell.** -/
def json : Datum → Bytes
  | null => Json.nullName
  | bool b => if b then Json.trueName else Json.falseName
  | number d => d.text
  | nonFinite x => (nonFinite x).out
  | text s => 34 :: (escape s ++ [34])

/-- Of every type the text is written that is meant. -/
theorem appendValue_eq {oid : ℕ} {d : Datum} (hd : d.OfType oid) (ret : Bytes) :
    TupleResult.appendValue oid d.isNull (some d.out) ret = ret ++ d.json := by
  unfold TupleResult.appendValue
  have hbool : ∀ {oid : ℕ}, isPgNumType oid = true → oid ≠ PGTypeOid.bool := by
    rintro oid hnum rfl
    cases hnum
  have hraw : ∀ val : Bytes, isPgNumType oid = true →
      (if oid = PGTypeOid.bool then
          ret ++ (if val.head? = some 116 then bytes "true" else bytes "false")
        else if isPgNumType oid then ret ++ val
        else appendQuotedString val ret) = ret ++ val := by
    intro val hnum
    rw [if_neg (hbool hnum), if_pos hnum]
  cases d with
  | null => rfl
  | bool b =>
    have hoid : oid = PGTypeOid.bool := hd
    cases b <;> exact if_pos hoid
  | number d => exact hraw d.text hd
  | nonFinite x =>
    have hnum : isPgNumType oid = true := by
      obtain rfl | rfl | rfl := hd <;> decide
    exact hraw _ hnum
  | text t =>
    obtain ⟨hnotBool, hnum, -⟩ := hd
    show (if oid = PGTypeOid.bool then _
      else if isPgNumType oid then _ else _) = _
    rw [if_neg hnotBool, hnum, if_neg Bool.false_ne_true]
    exact appendQuotedString_eq t ret

/-- **What is not finite is not read.** -/
theorem readValue_nonFinite {n : ℕ} (x : NonFinite) (rest : Bytes) :
    Json.readValue n ((nonFinite x).out ++ rest) = none := by
  cases n with
  | zero => rw [Json.readValue]
  | succ n =>
    cases x with
    | nan => exact Json.readValue_name (by decide) (by decide) (by decide) _
    | infinity =>
      exact Json.readValue_name (by decide) (by decide) (by decide) _
    | minusInfinity =>
      show Json.readValue (n + 1) (45 :: (bytes "Infinity" ++ rest)) = none
      rw [Json.readValue, Json.skip_cons (by decide)]
      rfl

/-- **A cell says its value if it is finite.** -/
theorem spells (asJson : NonFinite → Json) (d : Datum) :
    Json.Spells d.json (d.value asJson) (d.isFinite = true)
      (d.isUtf8 = true) := by
  have hutf8 : True ↔ true = true := iff_of_true trivial rfl
  cases d with
  | null => exact Json.spells_null.congr (by simp [value, isFinite]) hutf8
  | bool b =>
    cases b
    · exact Json.spells_false.congr (by simp [value, isFinite]) hutf8
    · exact Json.spells_true.congr (by simp [value, isFinite]) hutf8
  | number d =>
    exact (Json.spells_num d).congr (by simp [value, isFinite]) hutf8
  | nonFinite x =>
    refine (Json.spells_of_none (U := True) ?_ fun _ =>
      readValue_nonFinite x _).congr (by simp [isFinite]) hutf8
    exact iff_true_intro (Json.utf8_of_ascii (by cases x <;> decide))
  | text t =>
    exact (spells_quoted t).congr (by simp [isFinite]) (by simp [isUtf8])

end Datum

namespace TupleResult

variable {res : TupleResult}

/-- The text of a row. -/
def rowText (res : TupleResult) (row : List Datum) : Bytes :=
  123 :: (separated ((res.columns.zip row).map fun p =>
    member p.1.name p.2.json) ++ [125])

/-- A turn of the loop writes the name of the column and its cell. -/
theorem jsonifyCell_eq {i j : ℕ} {c : Column} {d : Datum}
    (hc : res.columns[j]? = some c) (hd : res.cell i j = some d)
    (htype : d.OfType c.type) (ret : Bytes) :
    res.jsonifyCell i j ret = ret ++ member c.name d.json := by
  unfold jsonifyCell ftype fname getisnull getvalue
  rw [hc, hd]
  show appendValue c.type d.isNull (some d.out) _ = _
  rw [Datum.appendValue_eq htype]
  simp [member]

/-- **`jsonify_row` writes the row.** -/
theorem jsonifyRow_eq {i : ℕ} (hi : i < res.rows.length) (ret : Bytes) :
    res.jsonifyRow i ret = ret ++ res.rowText res.rows[i] := by
  have htyped := res.typed _ (List.getElem_mem hi)
  have hlen : (res.columns.zip res.rows[i]).length = res.nfields := by
    rw [List.length_zip, ← htyped.length_eq, Nat.min_self]
    rfl
  have hcells : ∀ (j : ℕ) (hj : j < (res.columns.zip res.rows[i]).length)
      (ret : Bytes), res.jsonifyCell i j ret
        = ret ++ member (res.columns.zip res.rows[i])[j].1.name
          (res.columns.zip res.rows[i])[j].2.json := by
    intro j hj ret
    rw [List.length_zip, Nat.lt_min] at hj
    rw [List.getElem_zip]
    refine jsonifyCell_eq (List.getElem?_eq_getElem hj.1) ?_
      (htyped.get hj.1 hj.2) ret
    unfold cell
    rw [List.getElem?_eq_getElem hi]
    exact List.getElem?_eq_getElem hj.2
  unfold jsonifyRow rowText
  rw [← hlen, commaLoop_eq (fun p => member p.1.name p.2.json) hcells]
  simp only [List.append_assoc, List.cons_append, List.nil_append]

/-- **`to_json` writes the rows**, unless there are too many cells. -/
theorem toJson_eq (hstatus : res.status = .tuplesOk) :
    res.toJson = if res.rows.length * res.columns.length * 8 < 2 ^ 31 then
        .ok (91 :: (separated (res.rows.map res.rowText) ++ [93]))
      else .error .intOverflow := by
  have hrows : commaLoop res.rows.length res.jsonifyRow [91] ++ [93]
      = 91 :: (separated (res.rows.map res.rowText) ++ [93]) := by
    rw [commaLoop_eq _ fun i hi ret => jsonifyRow_eq hi ret]
    rfl
  rw [← hrows]
  unfold toJson
  rw [hstatus]
  rfl

/-- **The rows say what they are** if they can be read back. -/
theorem spells_rows (asJson : NonFinite → Json) :
    Json.Spells (91 :: (separated (res.rows.map res.rowText) ++ [93]))
      (res.value asJson)
      (∀ row ∈ res.rows, ∀ p ∈ res.columns.zip row,
        Json.Plain p.1.name ∧ p.2.isFinite = true)
      (∀ row ∈ res.rows, ∀ p ∈ res.columns.zip row,
        Json.Utf8 p.1.name ∧ p.2.isUtf8 = true) :=
  Json.spells_arr res.rows fun row _ =>
    Json.spells_obj (res.columns.zip row) fun p _ => p.2.spells asJson

/-- **The rows are read back exactly if they are straight**, whatever one takes
the infinities and `NaN` to be. -/
theorem decode_toJson_iff (hstatus : res.status = .tuplesOk)
    (asJson : NonFinite → Json) :
    (∃ text, res.toJson = .ok text ∧ Json.decode text = some (res.value asJson))
      ↔ res.Straight := by
  unfold Straight
  rw [toJson_eq hstatus]
  by_cases hsize : res.rows.length * res.columns.length * 8 < 2 ^ 31
  · rw [and_iff_right hsize, if_pos hsize]
    constructor
    · rintro ⟨text, htext, hdecode⟩
      cases htext
      obtain ⟨hplain, hutf8⟩ := (spells_rows asJson).decode_iff.mp hdecode
      exact fun row hrow p hp => ⟨hplain row hrow p hp, hutf8 row hrow p hp⟩
    · intro hstraight
      exact ⟨_, rfl, (spells_rows asJson).decode_iff.mpr
        ⟨fun row hrow p hp => (hstraight row hrow p hp).1,
          fun row hrow p hp => (hstraight row hrow p hp).2⟩⟩
  · rw [if_neg hsize]
    constructor
    · rintro ⟨text, htext, -⟩
      cases htext
    · exact fun h => absurd h.1 hsize

/-- Two rows of an integer, a text and a `bool`. -/
def people : TupleResult where
  status := .tuplesOk
  columns := [⟨bytes "id", PGTypeOid.int4, by decide⟩,
    ⟨bytes "name", 25, by decide⟩, ⟨bytes "admin", PGTypeOid.bool, by decide⟩]
  rows := [[.number (.ofInt 7), .text (bytes "A\"B"), .bool true],
    [.number (.ofInt (-8)), .null, .bool false]]
  typed := by decide

/-- They are read back. -/
theorem people_read :
    ∃ text, people.toJson = .ok text
      ∧ Json.decode text = some (people.value fun _ => .null) :=
  (decode_toJson_iff rfl _).mpr (by decide +kernel)

/-- A result of one `NaN`. -/
def notANumber : TupleResult where
  status := .tuplesOk
  columns := [⟨bytes "x", PGTypeOid.float8, by decide⟩]
  rows := [[.nonFinite .nan]]
  typed := by decide

/-- **A `NaN` is not read back**, whatever one takes it to be. -/
theorem nan_not_read :
    ¬ ∀ res : TupleResult, res.status = .tuplesOk →
      ∃ asJson text, res.toJson = .ok text
        ∧ Json.decode text = some (res.value asJson) := by
  intro h
  obtain ⟨asJson, text, htext, hdecode⟩ := h notANumber rfl
  rw [toJson_eq rfl, if_pos (by decide)] at htext
  cases htext
  have hfinite := ((spells_rows asJson).decode_iff.mp hdecode).1 _
    List.mem_cons_self _ List.mem_cons_self
  exact Bool.false_ne_true hfinite.2

end TupleResult
