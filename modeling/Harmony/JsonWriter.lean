import Harmony.QuotedString

/-!
# The JSON writer

`json::Writer` writes into one string. `root` is a node, and a node is assigned
a scalar or turned into an array or an object. The constructor of an array
appends `[`, and its destructor the bracket behind it; inside it arrays and
objects may be opened, one after another. An object is the same with braces,
and `[]` makes a node of each key. Everything that is complete has a comma
behind it, which the next destructor replaces by its bracket, or
`Writer::string` takes away.

The commas come out right (`Node.write_eq`): what is written is what it should
be, with one comma behind it. Three other things do not. A `bool` is integral,
so the branch for integers takes it and the one for `bool` is never reached. An
unsigned integer is cast to `int64_t`, which changes it from `2⁶³` on. And a key
is appended as it is. `decode_string_iff` says that these are all.

Floating-point numbers are left out, and so is `Unquoted`, whose content is
appended as it is and may be anything.
-/

namespace JsonWriter

/-- **What a node is assigned.** -/
inductive Scalar where
  /-- `nullptr`. -/
  | null
  | bool (b : Bool)
  /-- A signed integer. -/
  | int (i : Int64)
  /-- An unsigned integer. -/
  | uint (u : UInt64)
  | string (sv : Bytes)
  deriving DecidableEq

/-! ## The calls -/

/-- What `snprintf` writes for `%lli` into 24 bytes. -/
def lli (i : Int64) : Bytes := (bytes (Int.repr i.toInt)).take 23

/-- `Node::operator=`. A `bool` is integral. -/
def assign (v : Scalar) (ret : Bytes) : Bytes :=
  (match v with
    | .null => ret ++ bytes "null"
    | .bool b => ret ++ lli (if b then 1 else 0)
    | .int i => ret ++ lli i
    | .uint u => ret ++ lli u.toInt64
    | .string sv => appendQuotedString sv ret) ++ [44]

/-- Both destructors, with their bracket. -/
def closeWith (bracket : UInt8) (ret : Bytes) : Bytes :=
  if ret.getLast? = some 44 then ret.dropLast ++ [bracket] ++ [44]
  else ret ++ [bracket, 44]

/-- `Array::Array`. -/
def openArray (ret : Bytes) : Bytes := ret ++ [91]

/-- `Array::~Array`. -/
def closeArray (ret : Bytes) : Bytes := closeWith 93 ret

/-- `Object::Object`. -/
def openObject (ret : Bytes) : Bytes := ret ++ [123]

/-- `Object::~Object`. -/
def closeObject (ret : Bytes) : Bytes := closeWith 125 ret

/-- `Object::operator[]`. The key is appended as it is. -/
def appendKey (key ret : Bytes) : Bytes := ret ++ [34] ++ key ++ [34, 58]

/-- **`Writer::string`.** -/
def string (ret : Bytes) : Bytes :=
  if ret.getLast? = some 44 then ret.dropLast else ret

/-! ## Scopes that are properly nested -/

mutual

/-- **What is made of a node.** -/
inductive Node where
  | scalar (v : Scalar)
  | array (items : Items)
  | object (members : Members)

/-- What is opened in an array, one after another. -/
inductive Items where
  | nil
  | nextArray (items : Items) (rest : Items)
  | nextObject (members : Members) (rest : Items)

/-- The keys of an object, and what is made of their nodes. -/
inductive Members where
  | nil
  | cons (key : Bytes) (value : Node) (rest : Members)

end

/-- The items, as the nodes they would be. -/
def Items.nodes : Items → List Node
  | .nil => []
  | .nextArray items rest => .array items :: rest.nodes
  | .nextObject members rest => .object members :: rest.nodes

/-- The members, as keys and nodes. -/
def Members.nodes : Members → List (Bytes × Node)
  | .nil => []
  | .cons key value rest => (key, value) :: rest.nodes

mutual

/-- **What a node leaves in the string.** -/
def Node.write : Node → Bytes → Bytes
  | .scalar v, ret => assign v ret
  | .array items, ret => closeArray (items.write (openArray ret))
  | .object members, ret => closeObject (members.write (openObject ret))

/-- What the scopes in an array leave. -/
def Items.write : Items → Bytes → Bytes
  | .nil, ret => ret
  | .nextArray items rest, ret =>
    rest.write (closeArray (items.write (openArray ret)))
  | .nextObject members rest, ret =>
    rest.write (closeObject (members.write (openObject ret)))

/-- What the members of an object leave. -/
def Members.write : Members → Bytes → Bytes
  | .nil, ret => ret
  | .cons key value rest, ret => rest.write (value.write (appendKey key ret))

end

/-! ## The value -/

/-- The value of a scalar. -/
def Scalar.value : Scalar → Json
  | .null => .null
  | .bool b => .bool b
  | .int i => .num i.toInt
  | .uint u => .num u.toNat
  | .string sv => .str sv

mutual

/-- **The value that is built.** -/
def Node.value : Node → Json
  | .scalar v => v.value
  | .array items => .arr items.values
  | .object members => .obj members.values

/-- The values of the items. -/
def Items.values : Items → List Json
  | .nil => []
  | .nextArray items rest => .arr items.values :: rest.values
  | .nextObject members rest => .obj members.values :: rest.values

/-- The keys and values of the members. -/
def Members.values : Members → List (Bytes × Json)
  | .nil => []
  | .cons key value rest => (key, value.value) :: rest.values

end

/-! ## When it is kept -/

/-- Whether a scalar is neither a `bool` nor too large. -/
def Scalar.kept : Scalar → Bool
  | .bool _ => false
  | .uint u => u.toNat < 2 ^ 63
  | _ => true

mutual

/-- **Whether every scalar is kept and every key is plain.** -/
def Node.kept : Node → Bool
  | .scalar v => v.kept
  | .array items => items.kept
  | .object members => members.kept

/-- The same of the items. -/
def Items.kept : Items → Bool
  | .nil => true
  | .nextArray items rest => items.kept && rest.kept
  | .nextObject members rest => members.kept && rest.kept

/-- The same of the members. -/
def Members.kept : Members → Bool
  | .nil => true
  | .cons key value rest => (Json.Plain key && value.kept) && rest.kept

end

/-- Whether a string consists of characters. -/
def Scalar.utf8 : Scalar → Bool
  | .string sv => Json.Utf8 sv
  | _ => true

mutual

/-- **Whether all strings and keys consist of characters.** -/
def Node.utf8 : Node → Bool
  | .scalar v => v.utf8
  | .array items => items.utf8
  | .object members => members.utf8

/-- The same of the items. -/
def Items.utf8 : Items → Bool
  | .nil => true
  | .nextArray items rest => items.utf8 && rest.utf8
  | .nextObject members rest => members.utf8 && rest.utf8

/-- The same of the members. -/
def Members.utf8 : Members → Bool
  | .nil => true
  | .cons key value rest => (Json.Utf8 key && value.utf8) && rest.utf8

end

/-! ## What is written -/

/-- The text of a scalar. -/
def Scalar.text : Scalar → Bytes
  | .null => Json.nullName
  | .bool b => lli (if b then 1 else 0)
  | .int i => lli i
  | .uint u => lli u.toInt64
  | .string sv => 34 :: (escape sv ++ [34])

open Json (separated member)

mutual

/-- **The text of a node.** -/
def Node.text : Node → Bytes
  | .scalar v => v.text
  | .array items => 91 :: (separated items.texts ++ [93])
  | .object members => 123 :: (separated members.texts ++ [125])

/-- The texts of the items. -/
def Items.texts : Items → List Bytes
  | .nil => []
  | .nextArray items rest =>
    (91 :: (separated items.texts ++ [93])) :: rest.texts
  | .nextObject members rest =>
    (123 :: (separated members.texts ++ [125])) :: rest.texts

/-- The texts of the members. -/
def Members.texts : Members → List Bytes
  | .nil => []
  | .cons key value rest => member key value.text :: rest.texts

end

/-- What is assigned. -/
theorem assign_eq (v : Scalar) (ret : Bytes) :
    assign v ret = ret ++ v.text ++ [44] := by
  cases v with
  | string sv => exact congrArg (· ++ [44]) (appendQuotedString_eq sv ret)
  | _ => rfl

/-- **The last comma gives way to the bracket.** -/
theorem closeWith_eq (bracket c : UInt8) (hc : c ≠ 44) (ret : Bytes)
    (ts : List Bytes) :
    closeWith bracket (ret ++ [c] ++ ts.flatMap (· ++ [44]))
      = ret ++ c :: (separated ts ++ [bracket]) ++ [44] := by
  unfold closeWith
  obtain rfl | ⟨ts, t, rfl⟩ := List.eq_nil_or_concat' ts
  · rw [List.flatMap_nil, List.append_nil, List.getLast?_concat, if_neg]
    · simp [separated]
    · exact fun h => hc (Option.some.inj h)
  · rw [List.flatMap_append, List.flatMap_singleton, ← List.append_assoc,
      ← List.append_assoc, List.getLast?_concat, if_pos rfl,
      List.dropLast_concat, Json.separated_concat]
    simp

mutual

/-- **What a node leaves** is its text, and a comma. -/
theorem Node.write_eq : ∀ (n : Node) (ret : Bytes),
    n.write ret = ret ++ n.text ++ [44]
  | .scalar v, ret => assign_eq v ret
  | .array items, ret => by
    rw [Node.write, closeArray, items.write_eq, openArray,
      closeWith_eq _ _ (by decide), Node.text]
  | .object members, ret => by
    rw [Node.write, closeObject, members.write_eq, openObject,
      closeWith_eq _ _ (by decide), Node.text]

/-- What the scopes in an array leave. -/
theorem Items.write_eq : ∀ (items : Items) (ret : Bytes),
    items.write ret = ret ++ items.texts.flatMap (· ++ [44])
  | .nil, ret => (List.append_nil ret).symm
  | .nextArray items rest, ret => by
    rw [Items.write, rest.write_eq, closeArray, items.write_eq, openArray,
      closeWith_eq _ _ (by decide), Items.texts, List.flatMap_cons,
      List.append_assoc, List.append_assoc, List.append_assoc]
  | .nextObject members rest, ret => by
    rw [Items.write, rest.write_eq, closeObject, members.write_eq, openObject,
      closeWith_eq _ _ (by decide), Items.texts, List.flatMap_cons,
      List.append_assoc, List.append_assoc, List.append_assoc]

/-- What the members of an object leave. -/
theorem Members.write_eq : ∀ (members : Members) (ret : Bytes),
    members.write ret = ret ++ members.texts.flatMap (· ++ [44])
  | .nil, ret => (List.append_nil ret).symm
  | .cons key value rest, ret => by
    rw [Members.write, rest.write_eq, value.write_eq, Members.texts,
      List.flatMap_cons]
    simp [appendKey, member]

end

/-- **The string of a node is its text.** -/
theorem string_write (n : Node) : string (n.write []) = n.text := by
  rw [n.write_eq, List.nil_append, string, List.getLast?_concat, if_pos rfl,
    List.dropLast_concat]

/-! ## What it says -/

/-- What `snprintf` writes for an integer. -/
theorem bytes_repr (k : ℤ) :
    bytes (Int.repr k) = (Json.Decimal.ofInt k).text := by
  have hnat : ∀ n : ℕ, bytes (Nat.repr n) = Json.decimal n := fun n => by
    unfold bytes Json.decimal
    rw [Nat.toList_repr]
  cases k with
  | ofNat n =>
    show bytes (Nat.repr n) = [] ++ (Json.decimal n ++ ([] ++ []))
    rw [hnat, List.append_nil, List.nil_append, List.append_nil]
  | negSucc n =>
    have hneg : Int.negSucc n < 0 := Int.negSucc_lt_zero n
    have hsign : bytes ("-" ++ Nat.repr (n + 1))
        = 45 :: bytes (Nat.repr (n + 1)) := by
      unfold bytes
      rw [String.toList_append, List.map_append]
      rfl
    show bytes ("-" ++ Nat.repr (n + 1)) = _
    rw [hsign, hnat]
    simp [Json.Decimal.ofInt, Json.Decimal.text, Json.Decimal.fractionText,
      Json.Decimal.exponentText, hneg]

/-- **Twenty-four bytes are enough** for a `long long`. -/
theorem lli_eq (i : Int64) : lli i = (Json.Decimal.ofInt i.toInt).text := by
  rw [lli, bytes_repr]
  refine List.take_of_length_le ?_
  have hdigits : (Json.decimal i.toInt.natAbs).length ≤ 20 := by
    rw [Json.decimal, List.length_map,
      Nat.length_toDigits_le_iff (by decide) (by decide)]
    have := i.toInt_lt
    have := i.le_toInt
    omega
  have htext : (Json.Decimal.ofInt i.toInt).text
      = (if (Json.Decimal.ofInt i.toInt).negative then [45] else [])
        ++ (Json.decimal i.toInt.natAbs ++ []) := rfl
  rw [htext, List.append_nil, List.length_append]
  cases (Json.Decimal.ofInt i.toInt).negative
  · show 0 + _ ≤ 23
    omega
  · show 1 + _ ≤ 23
    omega

/-- **The cast to `int64_t`** keeps an unsigned integer below `2⁶³`. -/
theorem toInt_toInt64_iff (u : UInt64) :
    u.toInt64.toInt = (u.toNat : ℤ) ↔ u.toNat < 2 ^ 63 := by
  have hcast : u.toInt64.toInt
      = if 2 * u.toNat < 2 ^ 64 then (u.toNat : ℤ) else u.toNat - 2 ^ 64 := by
    show u.toBitVec.toInt = _
    rw [BitVec.toInt]
    rfl
  rw [hcast]
  split <;> omega

/-- **A scalar says its value if it is kept.** -/
theorem Scalar.spells (v : Scalar) :
    Json.Spells v.text v.value (v.kept = true) (v.utf8 = true) := by
  have hint : ∀ (i : Int64) (w : Json), Json.Spells (lli i) w
      (Json.num (i.toInt : ℤ) = w) True := by
    intro i w
    rw [lli_eq, ← Json.Decimal.value_ofInt i.toInt]
    exact Json.spells_num _
  cases v with
  | null =>
    exact Json.spells_null.congr (by simp [value, kept]) (by simp [utf8])
  | bool b => exact (hint _ _).congr (by simp [value, kept]) (by simp [utf8])
  | int i => exact (hint _ _).congr (by simp [value, kept]) (by simp [utf8])
  | uint u =>
    refine (hint _ _).congr ?_ (by simp [utf8])
    rw [value, Json.num.injEq, kept, decide_eq_true_iff, ← toInt_toInt64_iff]
    exact Int.cast_inj
  | string sv =>
    exact (spells_quoted sv).congr (by simp [kept]) (by simp [utf8])

/-- What there is to know of the items, node by node. -/
theorem Items.spec : ∀ items : Items,
    items.texts = items.nodes.map Node.text
      ∧ items.values = items.nodes.map Node.value
      ∧ (items.kept = true ↔ ∀ n ∈ items.nodes, n.kept = true)
      ∧ (items.utf8 = true ↔ ∀ n ∈ items.nodes, n.utf8 = true)
  | .nil => by simp [texts, values, kept, utf8, nodes]
  | .nextArray items rest => by
    obtain ⟨htexts, hvalues, hkept, hutf8⟩ := rest.spec
    simp [texts, values, kept, utf8, nodes, htexts, hvalues, hkept, hutf8,
      Node.text, Node.value, Node.kept, Node.utf8]
  | .nextObject members rest => by
    obtain ⟨htexts, hvalues, hkept, hutf8⟩ := rest.spec
    simp [texts, values, kept, utf8, nodes, htexts, hvalues, hkept, hutf8,
      Node.text, Node.value, Node.kept, Node.utf8]

/-- What there is to know of the members, key by key. -/
theorem Members.spec : ∀ members : Members,
    members.texts = members.nodes.map (fun m => member m.1 m.2.text)
      ∧ members.values = members.nodes.map (fun m => (m.1, m.2.value))
      ∧ (members.kept = true
        ↔ ∀ m ∈ members.nodes, Json.Plain m.1 ∧ m.2.kept = true)
      ∧ (members.utf8 = true
        ↔ ∀ m ∈ members.nodes, Json.Utf8 m.1 ∧ m.2.utf8 = true)
  | .nil => by simp [texts, values, kept, utf8, nodes]
  | .cons key value rest => by
    obtain ⟨htexts, hvalues, hkept, hutf8⟩ := rest.spec
    simp [texts, values, kept, utf8, nodes, htexts, hvalues, hkept, hutf8]

/-- **A node says its value exactly if it is kept.** -/
def Node.Spelled (n : Node) : Prop :=
  Json.Spells n.text n.value (n.kept = true) (n.utf8 = true)

/-- An array says its value if its items do. -/
theorem spelled_array (items : Items) (h : ∀ n ∈ items.nodes, n.Spelled) :
    (Node.array items).Spelled := by
  obtain ⟨htexts, hvalues, hkept, hutf8⟩ := items.spec
  unfold Node.Spelled Node.text Node.value Node.kept Node.utf8
  rw [htexts, hvalues]
  exact (Json.spells_arr items.nodes h).congr hkept.symm hutf8.symm

/-- An object says its value if its members do. -/
theorem spelled_object (members : Members)
    (h : ∀ m ∈ members.nodes, m.2.Spelled) : (Node.object members).Spelled := by
  obtain ⟨htexts, hvalues, hkept, hutf8⟩ := members.spec
  unfold Node.Spelled Node.text Node.value Node.kept Node.utf8
  rw [htexts, hvalues]
  exact (Json.spells_obj members.nodes h).congr hkept.symm hutf8.symm

mutual

/-- **Every node says its value exactly if it is kept.** -/
theorem Node.spelled : ∀ n : Node, n.Spelled
  | .scalar v => v.spells
  | .array items => spelled_array items items.spelled
  | .object members => spelled_object members members.spelled

/-- So do the items of an array. -/
theorem Items.spelled : ∀ items : Items, ∀ n ∈ items.nodes, n.Spelled
  | .nil => List.forall_mem_nil _
  | .nextArray items rest =>
    List.forall_mem_cons.mpr ⟨spelled_array items items.spelled, rest.spelled⟩
  | .nextObject members rest =>
    List.forall_mem_cons.mpr
      ⟨spelled_object members members.spelled, rest.spelled⟩

/-- So do the members of an object. -/
theorem Members.spelled : ∀ members : Members, ∀ m ∈ members.nodes, m.2.Spelled
  | .nil => List.forall_mem_nil _
  | .cons _ value rest => List.forall_mem_cons.mpr ⟨value.spelled, rest.spelled⟩

end

/-- **What `Writer::string` returns is the value exactly if it is kept.** -/
theorem decode_string_iff (n : Node) :
    Json.decode (string (n.write [])) = some n.value
      ↔ n.kept = true ∧ n.utf8 = true := by
  rw [string_write]
  exact n.spelled.decode_iff

/-- **A `bool` is read as a number**, and not as a `bool`. -/
theorem true_not_read :
    ¬ ∀ n : Node, n.utf8 = true →
      Json.decode (string (n.write [])) = some n.value := by
  intro h
  have hread := h (.scalar (.bool true)) rfl
  rw [string_write] at hread
  have hkept := ((Node.scalar (.bool true)).spelled.decode_iff.mp hread).1
  exact absurd hkept Bool.false_ne_true

end JsonWriter
