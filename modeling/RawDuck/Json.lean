import Mathlib.Algebra.Group.Nat.Defs
import RawDuck.LogicalType

/-!
# RawDuck.Json

JSON values as yyjson holds them, the values of table cells, and what the code
calls that is not in the repository.

* `Json` — a parsed value; object members keep document order and repeats;
* `Json.reached` / `Json.valueAt` — the values a key path leads to, and the
  last of them in document order;
* `Cell` — what a column of a table holds in one row;
* `Duck` — the DuckDB and yyjson functions the code relies on, as parameters.
-/

namespace RawDuck

/-- An IEEE-754 double, by its bits. -/
structure Double where
  bits : UInt64
  deriving DecidableEq, Repr

/-- Neither NaN nor infinite: the exponent bits are not all ones. -/
def Double.isFinite (d : Double) : Bool := (d.bits >>> 52) &&& 0x7ff != 0x7ff

/-- A `yyjson_val`: integers are unsigned when not negative, signed otherwise. -/
inductive Json where
  | null
  | bool (b : Bool)
  | uint (n : UInt64)
  | sint (n : Int64)
  | real (d : Double)
  | str (s : Bytes)
  | arr (elements : List Json)
  | obj (members : List (Bytes × Json))

namespace Json

/-- Induction with the hypotheses of nested values stated by membership. -/
@[elab_as_elim] theorem induct {motive : Json → Prop}
    (null : motive .null) (bool : ∀ b, motive (.bool b)) (uint : ∀ n, motive (.uint n))
    (sint : ∀ n, motive (.sint n)) (real : ∀ d, motive (.real d)) (str : ∀ s, motive (.str s))
    (arr : ∀ es, (∀ e ∈ es, motive e) → motive (.arr es))
    (obj : ∀ ms, (∀ m ∈ ms, motive m.2) → motive (.obj ms)) (v : Json) : motive v :=
  @Json.rec motive (fun es => ∀ e ∈ es, motive e) (fun ms => ∀ m ∈ ms, motive m.2)
    (fun m => motive m.2) null bool uint sint real str arr obj
    (fun _ h => nomatch h) (fun _ _ he hes _ h => by
      rcases List.mem_cons.mp h with h | h
      · exact h ▸ he
      · exact hes _ h)
    (fun _ h => nomatch h) (fun _ _ hm hms _ h => by
      rcases List.mem_cons.mp h with h | h
      · exact h ▸ hm
      · exact hms _ h)
    (fun _ _ h => h) v

/-- `yyjson_is_null`. -/
def isNull : Json → Bool
  | .null => true
  | _ => false

/-- `yyjson_is_obj`. -/
def isObj : Json → Bool
  | .obj _ => true
  | _ => false

/-- Neither null nor a container. -/
def isScalar : Json → Bool
  | .null | .arr _ | .obj _ => false
  | _ => true

mutual
/-- No number in the value is NaN or infinite. -/
def isFinite : Json → Bool
  | .real d => d.isFinite
  | .arr es => elementsFinite es
  | .obj ms => membersFinite ms
  | _ => true

def elementsFinite : List Json → Bool
  | [] => true
  | e :: es => e.isFinite && elementsFinite es

def membersFinite : List (Bytes × Json) → Bool
  | [] => true
  | (_, v) :: ms => v.isFinite && membersFinite ms
end

theorem elementsFinite_iff {es : List Json} :
    elementsFinite es = true ↔ ∀ e ∈ es, e.isFinite = true := by
  induction es with
  | nil => simp [elementsFinite]
  | cons e es ih => simp [elementsFinite, ih]

theorem membersFinite_iff {ms : List (Bytes × Json)} :
    membersFinite ms = true ↔ ∀ m ∈ ms, m.2.isFinite = true := by
  induction ms with
  | nil => simp [membersFinite]
  | cons m ms ih => obtain ⟨k, v⟩ := m; simp [membersFinite, ih]

/-! ## paths -/

/-- Every value a key path leads to, through every occurrence of each key, in
document order. -/
def reached : List Bytes → Json → List Json
  | [], v => [v]
  | k :: ks, .obj ms => ms.flatMap fun m => if m.1 = k then reached ks m.2 else []
  | _ :: _, _ => []

/-- The value at a path: the last one in document order. -/
def valueAt (path : List Bytes) (v : Json) : Option Json := (reached path v).getLast?

@[simp] theorem reached_nil (v : Json) : reached [] v = [v] := by
  cases v <;> rfl

@[simp] theorem valueAt_nil (v : Json) : valueAt [] v = some v := by simp [valueAt]

theorem reached_cons_obj (k : Bytes) (ks : List Bytes) (ms : List (Bytes × Json)) :
    reached (k :: ks) (.obj ms) =
      ms.flatMap fun m => if m.1 = k then reached ks m.2 else [] := by
  rw [reached]

theorem reached_cons_of_not_obj {v : Json} (h : v.isObj = false) (k : Bytes) (ks : List Bytes) :
    reached (k :: ks) v = [] := by
  cases v <;> simp_all [reached, isObj]

end Json

/-! ## cells -/

/-- What a column holds in one row.  `varchar` is the string of a `VARCHAR` or
`JSON` column; `other` a value of a type RawDuck never creates. -/
inductive Cell where
  | null
  | bool (b : Bool)
  | bigint (n : Int64)
  | double (d : Double)
  | date (days : Int)
  | timestamp (micros : Int)
  | varchar (s : Bytes)
  | list (elements : List Cell)
  | other (value : Bytes)

/-! ## errors -/

/-- The exception classes the code tells apart. -/
inductive ErrorKind where
  | invalidInput | internal | notImplemented | transaction | other
  deriving DecidableEq, Repr

/-- A thrown exception. -/
structure RawError where
  kind : ErrorKind
  message : Bytes
  deriving DecidableEq, Repr

/-! ## what the code calls outside the repository -/

/-- DuckDB and yyjson, as far as the code calls them. -/
structure Duck where
  /-- `static_cast<uint64_t>(LogicalTypeId)` of a type without children. -/
  idValue : LogicalTypeId → UInt64
  /-- The same of `LogicalTypeId::LIST`. -/
  listIdValue : UInt64
  /-- `Date::TryConvertDate(str, len, pos, date, special, strict = true)` when it
  answers `SUCCESS`: the date, `pos` and `special`. -/
  tryConvertDate : Bytes → Option (Int × Nat × Bool)
  /-- `Timestamp::TryConvertTimestamp(str, len, ts, true)` on `SUCCESS`. -/
  tryConvertTimestamp : Bytes → Option Int
  /-- C++ conversion of an unsigned integer to `double`. -/
  uintToDouble : UInt64 → Double
  /-- C++ conversion of a signed integer to `double`. -/
  sintToDouble : Int64 → Double
  /-- `yyjson_read` with `RAW_READ_FLAGS`; `none` when the text is not one JSON
  document. -/
  yyjsonRead : Bytes → Option Json
  /-- `TryCast::Operation<string_t, int64_t>`. -/
  tryCastInt64 : Bytes → Option Int64
  /-- What a KeyValue array holds once the keys and values of its elements have
  been added to another object: `yyjson_mut_obj_add` relinks the nodes, and the
  elements share them. -/
  keyValueLeft : List Json → Json
  /-- `yyjson_val_write(val, 0, &len)`; `none` is its null result. -/
  valWrite : Json → Option Bytes
  /-- A DuckDB cast of one value from one type to another. -/
  cast : LogicalType → LogicalType → Cell → Except RawError Cell
  /-- The SQL function `to_json` on one value of a type. -/
  toJson : LogicalType → Cell → Except RawError Cell

/-- `static_cast<uint64_t>(type.id())`. -/
def Duck.typeIdValue (duck : Duck) : LogicalType → UInt64
  | .plain id _ => duck.idValue id
  | .list _ => duck.listIdValue

/-! ## a small DuckDB -/

/-- The values of `LogicalTypeId`. -/
def smallTypeId : LogicalTypeId → UInt64
  | .boolean => 10
  | .tinyint => 11
  | .smallint => 12
  | .integer => 13
  | .bigint => 14
  | .date => 15
  | .timestamp => 19
  | .float => 22
  | .double => 23
  | .varchar => 25
  | .utinyint => 28
  | .usmallint => 29
  | .uinteger => 30
  | .hugeint => 50
  | .other code => code.toUInt64

/-- The double nearest to a number, for the numbers below 2^53 that one is
exactly. -/
def smallDouble (n : Nat) : Double :=
  if n = 0 then ⟨0⟩
  else
    let exponent := Nat.log2 n
    ⟨((1023 + exponent) * 2 ^ 52 + (n - 2 ^ exponent) * 2 ^ (52 - exponent)).toUInt64⟩

/-- The decimal text of a number. -/
def smallDecimal (n : Nat) : Bytes := bytes (toString n)

/-- A string literal, for strings without control characters. -/
def smallLiteral (s : Bytes) : Bytes :=
  34 :: (s.flatMap fun c => if c = 34 ∨ c = 92 then [92, c] else [c]) ++ [34]

mutual
/-- The JSON text of a value; a floating-point number stands as its bits. -/
def smallWrite : Json → Option Bytes
  | .null => some (bytes "null")
  | .bool true => some (bytes "true")
  | .bool false => some (bytes "false")
  | .uint n => some (smallDecimal n.toNat)
  | .sint n =>
      some (if n < 0 then 45 :: smallDecimal n.toInt.natAbs else smallDecimal n.toInt.natAbs)
  | .real d => if d.isFinite then some (smallDecimal d.bits.toNat) else none
  | .str s => some (smallLiteral s)
  | .arr elements => (smallElements elements).map fun texts =>
      91 :: List.intercalate [44] texts ++ [93]
  | .obj members => (smallMembers members).map fun texts =>
      123 :: List.intercalate [44] texts ++ [125]

def smallElements : List Json → Option (List Bytes)
  | [] => some []
  | e :: es => (smallWrite e).bind fun text => (smallElements es).map (text :: ·)

def smallMembers : List (Bytes × Json) → Option (List Bytes)
  | [] => some []
  | (key, v) :: ms =>
      (smallWrite v).bind fun text => (smallMembers ms).map ((smallLiteral key ++ 58 :: text) :: ·)
end

/-- A number of at most 18 decimal digits. -/
def smallInt64 (s : Bytes) : Option Int64 :=
  if s ≠ [] ∧ s.length ≤ 18 ∧ s.all (fun c => 48 ≤ c && c ≤ 57) then
    some (Int64.ofNat (s.foldl (fun n c => 10 * n + (c.toNat - 48)) 0))
  else none

/-- The cell as the text of a cast to `VARCHAR`. -/
def smallText : Cell → Cell
  | .bigint n => .varchar (smallDecimal n.toNatClampNeg)
  | cell => cell

/-- DuckDB on integers and plain strings: enough to evaluate the model on fixed
payloads of those, with nothing that reads as a date. -/
def smallDuck : Duck where
  idValue := smallTypeId
  listIdValue := 101
  tryConvertDate _ := none
  tryConvertTimestamp _ := none
  uintToDouble n := smallDouble n.toNat
  sintToDouble n := smallDouble n.toNatClampNeg
  yyjsonRead _ := none
  tryCastInt64 := smallInt64
  keyValueLeft := .arr
  valWrite := smallWrite
  cast _ target cell := .ok (if target = .VARCHAR then smallText cell else cell)
  toJson _ cell := .ok (smallText cell)

end RawDuck
