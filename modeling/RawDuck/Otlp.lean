import RawDuck.RawNode

/-!
# RawDuck.Otlp

OTLP semantic normalization of an exploded row: KeyValue lists under an
`attributes` member spread into their parent, AnyValue wrappers unwrap,
`*UnixNano` strings become integers, and base64 ids become lower-case hex.

The code rewrites the values of a mutable document in place.  Here a value is
replaced by the one that takes its place; only `otlpNormalizeRow` is about what
is left in the place itself, since for a row the result is dropped.
-/

namespace RawDuck

/-- `yyjson_obj_getn`: the first member of that key. -/
def objGet (key : Bytes) (members : List (Bytes × Json)) : Option Json :=
  (members.find? fun m => m.1 = key).map Prod.snd

/-- `yyjson_mut_obj_add` of a member whose key the object does not have yet. -/
def addMember (members : List (Bytes × Json)) (key : Bytes) (value : Json) : List (Bytes × Json) :=
  if (objGet key members).isSome then members else members ++ [(key, value)]

/-! ## strings -/

/-- `OtlpIsHex`. -/
def otlpIsHex (str : Bytes) : Bool :=
  str.all fun c => (48 ≤ c && c ≤ 57) || (97 ≤ c && c ≤ 102) || (65 ≤ c && c ≤ 70)

/-- The value of a base64 character. -/
def base64Value (c : UInt8) : Option UInt8 :=
  if 65 ≤ c ∧ c ≤ 90 then some (c - 65)
  else if 97 ≤ c ∧ c ≤ 122 then some (c - 97 + 26)
  else if 48 ≤ c ∧ c ≤ 57 then some (c - 48 + 52)
  else if c = 43 then some 62
  else if c = 47 then some 63
  else none

/-- The value of the character at place `j` of a group: padding stands for 0, in
the last places of the last group. -/
def base64Place (last : Bool) (padding j : Nat) (c : UInt8) : Option UInt8 :=
  if c = 61 then if last && 4 - padding ≤ j then some 0 else none
  else base64Value c

/-- The groups of four characters. -/
def base64Groups (padding : Nat) : Bytes → Option Bytes
  | c0 :: c1 :: c2 :: c3 :: rest => do
      let last := rest.isEmpty
      let v0 ← base64Place last padding 0 c0
      let v1 ← base64Place last padding 1 c1
      let v2 ← base64Place last padding 2 c2
      let v3 ← base64Place last padding 3 c3
      let second := if !last || padding < 2 then [v1 <<< 4 ||| v2 >>> 2] else []
      let third := if !last || padding < 1 then [v2 <<< 6 ||| v3] else []
      let out ← base64Groups padding rest
      return (v0 <<< 2 ||| v1 >>> 4) :: (second ++ third ++ out)
  | _ => some []

/-- The number of `=` at the end of a text of at least two characters, two at
most. -/
def base64Padding (str : Bytes) : Nat :=
  match str.reverse with
  | c :: c' :: _ => if c = 61 then if c' = 61 then 2 else 1 else 0
  | _ => 0

/-- `OtlpBase64Decode`. -/
def otlpBase64Decode (str : Bytes) : Option Bytes :=
  if str.length = 0 ∨ str.length % 4 ≠ 0 then none
  else base64Groups (base64Padding str) str

/-- `OtlpIdWidth`: the bytes of an id field, 0 for any other key. -/
def otlpIdWidth (key : Bytes) : Nat :=
  if key = bytes "traceId" then 16
  else if key = bytes "spanId" ∨ key = bytes "parentSpanId" then 8
  else 0

/-- A lower-case hexadecimal digit. -/
def hexDigit (n : UInt8) : UInt8 := if n < 10 then 48 + n else 87 + n

/-- The lower-case hexadecimal text of some bytes. -/
def hexText (decoded : Bytes) : Bytes :=
  decoded.flatMap fun (byte : UInt8) => [hexDigit (byte >>> 4), hexDigit (byte &&& 15)]

variable (duck : Duck)

/-- A string under a key: the last part of `OtlpNormalizeValue`. -/
def otlpNormalizeString (key str : Bytes) : Json :=
  let width := otlpIdWidth key
  if width ≠ 0 then
    -- hex ids pass through untouched, and so does what is not base64 of an id
    if str.length = width * 2 && otlpIsHex str then .str str
    else match otlpBase64Decode str with
      | some decoded => if decoded.length = width then .str (hexText decoded) else .str str
      | none => .str str
  else if (bytes "UnixNano").isSuffixOf key then
    match duck.tryCastInt64 str with
    | some n => .sint n
    | none => .str str
  else .str str

/-! ## values -/

/-- `OtlpIsKeyValueArray`. -/
def otlpIsKeyValueArray : Json → Bool
  | .arr elements => !elements.isEmpty && elements.all fun element =>
      match element with
      | .obj members => (objGet (bytes "key") members).isSome
      | _ => false
  | _ => false

/-- The name of an element of a KeyValue array, when it is a string. -/
def keyValueName : Json → Option Bytes
  | .obj members =>
      match objGet (bytes "key") members with
      | some (.str name) => some name
      | _ => none
  | _ => none

/-- The member of an AnyValue wrapper that holds its value as it is. -/
def isPlainWrapper (name : Bytes) : Bool :=
  name = bytes "stringValue" || name = bytes "boolValue" || name = bytes "doubleValue" ||
    name = bytes "bytesValue"

/-- The member of an AnyValue wrapper that holds an object with the member
`values`. -/
def isListWrapper (name : Bytes) : Bool :=
  name = bytes "arrayValue" || name = bytes "kvlistValue"

/-- The number of an `intValue`. -/
def otlpIntValue (inner : Json) : Json :=
  match inner with
  | .str str =>
      match duck.tryCastInt64 str with
      | some n => .sint n
      | none => inner
  | _ => inner

mutual
/-- `OtlpNormalizeValue`: the value that is returned. -/
def otlpNormalizeValue (value : Json) (key : Bytes) (depth : Nat) : Json :=
  match value with
  | .obj members =>
      -- too deep to normalize safely: the value stays as it is
      if depth > rawMaxNesting then .obj members
      else match otlpUnwrapAnyValue members with
        | some unwrapped => unwrapped
        | none => .obj (otlpNormalizeObject members [] (depth + 1))
  | .arr elements =>
      if depth > rawMaxNesting then .arr elements
      else if otlpIsKeyValueArray (.arr elements) then .obj (otlpKeyValues elements depth)
      else .arr (otlpElements elements depth)
  | .str str => if depth > rawMaxNesting then .str str else otlpNormalizeString duck key str
  | value => value

/-- `OtlpUnwrapAnyValue`, of an object with these members. -/
def otlpUnwrapAnyValue : List (Bytes × Json) → Option Json
  | [(name, inner)] =>
      if isPlainWrapper name then some inner
      else if name = bytes "intValue" then some (otlpIntValue duck inner)
      -- the values start again at depth 0
      else if isListWrapper name then otlpNormalizeMember (bytes "values") inner 0
      else none
  | _ => none

/-- The normalized value of the first member of that key, if the value is an
object that has one. -/
def otlpNormalizeMember (key : Bytes) (value : Json) (depth : Nat) : Option Json :=
  match value with
  | .obj members => otlpNormalizeFirst key members depth
  | _ => none

def otlpNormalizeFirst (key : Bytes) (members : List (Bytes × Json)) (depth : Nat) : Option Json :=
  match members with
  | [] => none
  | (k, v) :: rest =>
      if k = key then some (otlpNormalizeValue v [] depth) else otlpNormalizeFirst key rest depth

/-- `OtlpNormalizeObject`: the members still to be added to those of `object`,
in order; a key that is there already is not added again. -/
def otlpNormalizeObject (members object : List (Bytes × Json)) (depth : Nat) :
    List (Bytes × Json) :=
  match members with
  | [] => object
  | (k, v) :: rest =>
      if k = bytes "attributes" && otlpIsKeyValueArray v then
        otlpNormalizeObject rest (otlpSpread v object (depth + 1)) depth
      else
        otlpNormalizeObject rest (addMember object k (otlpNormalizeValue v k (depth + 1))) depth

/-- The elements of a KeyValue array as members of `object`. -/
def otlpSpread (attributes : Json) (object : List (Bytes × Json)) (depth : Nat) :
    List (Bytes × Json) :=
  match attributes with
  | .arr elements => otlpSpreadElements elements object depth
  | _ => object

def otlpSpreadElements (elements : List Json) (object : List (Bytes × Json)) (depth : Nat) :
    List (Bytes × Json) :=
  match elements with
  | [] => object
  | element :: rest =>
      match keyValueName element, otlpNormalizeMember (bytes "value") element depth with
      | some name, some normalized =>
          otlpSpreadElements rest (addMember object name normalized) depth
      | _, _ => otlpSpreadElements rest object depth

/-- A bare KeyValue array as an object; repeated names stay. -/
def otlpKeyValues (elements : List Json) (depth : Nat) : List (Bytes × Json) :=
  match elements with
  | [] => []
  | element :: rest =>
      match keyValueName element, otlpNormalizeMember (bytes "value") element (depth + 1) with
      | some name, some normalized => (name, normalized) :: otlpKeyValues rest depth
      | _, _ => otlpKeyValues rest depth

/-- The elements of any other array. -/
def otlpElements (elements : List Json) (depth : Nat) : List Json :=
  match elements with
  | [] => []
  | element :: rest => otlpNormalizeValue element [] (depth + 1) :: otlpElements rest depth
end

/-! ## rows -/

mutual
/-- What `OtlpNormalizeValue`, called on a row, leaves in the row. -/
def otlpNormalizeRow : Json → Json
  | .obj members =>
      match otlpUnwrapAnyValue duck members with
      -- the wrapper stays, but the values inside were normalized in place
      | some _ => .obj (otlpUnwrappedLeft members)
      | none => .obj (otlpNormalizeObject duck members [] 1)
  | .arr elements =>
      if otlpIsKeyValueArray (.arr elements) then duck.keyValueLeft elements
      else .arr (otlpElements duck elements 0)
  | value => value

/-- What unwrapping leaves in an AnyValue wrapper. -/
def otlpUnwrappedLeft : List (Bytes × Json) → List (Bytes × Json)
  | [(name, inner)] =>
      if isListWrapper name then [(name, otlpListLeft inner)] else [(name, inner)]
  | members => members

/-- What is left in the object of an `arrayValue` or a `kvlistValue`. -/
def otlpListLeft : Json → Json
  | .obj members => .obj (otlpFirstLeft members)
  | inner => inner

def otlpFirstLeft : List (Bytes × Json) → List (Bytes × Json)
  | [] => []
  | (k, v) :: rest =>
      if k = bytes "values" then (k, otlpNormalizeRow v) :: rest else (k, v) :: otlpFirstLeft rest
end

end RawDuck
