import Mathlib
import RawDuck.Attributes

/-!
# RawDuck.AnyValue

What normalizing is for on the values of OTLP: an AnyValue arrives wrapped in
objects that say its kind, and should leave as plain JSON.

* `AnyValue` — the values of OTLP, as a sender spells them;
* `AnyValue.encode` — the wrapped form, `AnyValue.plain` — the plain one;
* `AnyValue.Lost` — the nodes without elements whose wrapper the code does not
  take apart, or takes for another kind;
* `otlpNormalizeValue_decodes_iff` — normalizing gives the plain value exactly
  of the trees without such a node.
-/

namespace RawDuck

/-- An AnyValue.  A list node says besides its elements whether its repeated
field is written where it is empty; a sender may leave it out.  The text of some
bytes is their base64 text. -/
inductive AnyValue where
  | string (text : Bytes)
  | bool (b : Bool)
  | int (n : Int64)
  | double (d : Double)
  | bytes (text : Bytes)
  | array (written : Bool) (values : List AnyValue)
  | kvlist (written : Bool) (values : List (Bytes × AnyValue))

namespace AnyValue

/-- Induction with the hypotheses of nested values stated by membership. -/
@[elab_as_elim] theorem induct {motive : AnyValue → Prop}
    (string : ∀ text, motive (.string text)) (bool : ∀ b, motive (.bool b))
    (int : ∀ n, motive (.int n)) (double : ∀ d, motive (.double d))
    (bytes : ∀ text, motive (.bytes text))
    (array : ∀ written values, (∀ v ∈ values, motive v) → motive (.array written values))
    (kvlist : ∀ written values, (∀ m ∈ values, motive m.2) → motive (.kvlist written values))
    (tree : AnyValue) : motive tree :=
  @AnyValue.rec motive (fun values => ∀ v ∈ values, motive v)
    (fun values => ∀ m ∈ values, motive m.2) (fun m => motive m.2)
    string bool int double bytes array kvlist
    (fun _ h => nomatch h) (fun _ _ hv hvs _ h => by
      cases List.mem_cons.mp h with
      | inl h => exact h ▸ hv
      | inr h => exact hvs _ h)
    (fun _ h => nomatch h) (fun _ _ hm hms _ h => by
      cases List.mem_cons.mp h with
      | inl h => exact h ▸ hm
      | inr h => exact hms _ h)
    (fun _ _ h => h) tree

/-- The digit string of a 64-bit integer. -/
def digitString (n : Int64) : Bytes := RawDuck.bytes n.toInt.repr

/-- The JSON form of a double; the ones that are no numbers have names. -/
def doubleLiteral (d : Double) : Json :=
  if d.isFinite then .real d
  else if d.bits <<< 12 ≠ 0 then .str (RawDuck.bytes "NaN")
  else if d.bits >>> 63 = 0 then .str (RawDuck.bytes "Infinity")
  else .str (RawDuck.bytes "-Infinity")

/-- An object of one member. -/
def wrapper (name : String) (inner : Json) : Json := .obj [(RawDuck.bytes name, inner)]

/-- The message around a repeated field. -/
def repeatedField (written : Bool) (elements : List Json) : Json :=
  if elements.isEmpty && !written then .obj [] else wrapper "values" (.arr elements)

/-- A KeyValue. -/
def keyValue (key : Bytes) (value : Json) : Json :=
  .obj [(RawDuck.bytes "key", .str key), (RawDuck.bytes "value", value)]

mutual
/-- The OTLP/JSON encoding. -/
def encode : AnyValue → Json
  | .string text => wrapper "stringValue" (.str text)
  | .bool b => wrapper "boolValue" (.bool b)
  | .int n => wrapper "intValue" (.str (digitString n))
  | .double d => wrapper "doubleValue" (doubleLiteral d)
  | .bytes text => wrapper "bytesValue" (.str text)
  | .array written values => wrapper "arrayValue" (repeatedField written (encodeElements values))
  | .kvlist written values => wrapper "kvlistValue" (repeatedField written (encodeMembers values))

def encodeElements : List AnyValue → List Json
  | [] => []
  | v :: values => v.encode :: encodeElements values

def encodeMembers : List (Bytes × AnyValue) → List Json
  | [] => []
  | (key, v) :: values => keyValue key v.encode :: encodeMembers values
end

mutual
/-- The plain JSON value. -/
def plain : AnyValue → Json
  | .string text => .str text
  | .bool b => .bool b
  | .int n => .sint n
  | .double d => doubleLiteral d
  | .bytes text => .str text
  | .array _ values => .arr (plainElements values)
  | .kvlist _ values => .obj (plainMembers values)

def plainElements : List AnyValue → List Json
  | [] => []
  | v :: values => v.plain :: plainElements values

def plainMembers : List (Bytes × AnyValue) → List (Bytes × Json)
  | [] => []
  | (key, v) :: values => (key, v.plain) :: plainMembers values
end

mutual
/-- The tree and all trees in it. -/
def nodes : AnyValue → List AnyValue
  | .array written values => .array written values :: nodesOfElements values
  | .kvlist written values => .kvlist written values :: nodesOfMembers values
  | leaf => [leaf]

def nodesOfElements : List AnyValue → List AnyValue
  | [] => []
  | v :: values => v.nodes ++ nodesOfElements values

def nodesOfMembers : List (Bytes × AnyValue) → List AnyValue
  | [] => []
  | (_, v) :: values => v.nodes ++ nodesOfMembers values
end

/-- An empty kvlist, and an empty array whose field is left out. -/
def Lost : AnyValue → Prop
  | .array written values => values = [] ∧ written = false
  | .kvlist _ values => values = []
  | _ => False

@[simp] theorem encodeElements_eq (values : List AnyValue) :
    encodeElements values = values.map encode := by
  induction values with
  | nil => rfl
  | cons v values ih => simp [encodeElements, ih]

@[simp] theorem encodeMembers_eq (values : List (Bytes × AnyValue)) :
    encodeMembers values = values.map fun m => keyValue m.1 m.2.encode := by
  induction values with
  | nil => rfl
  | cons m values ih => simp [encodeMembers, ih]

@[simp] theorem plainElements_eq (values : List AnyValue) :
    plainElements values = values.map plain := by
  induction values with
  | nil => rfl
  | cons v values ih => simp [plainElements, ih]

@[simp] theorem plainMembers_eq (values : List (Bytes × AnyValue)) :
    plainMembers values = values.map fun m => (m.1, m.2.plain) := by
  induction values with
  | nil => rfl
  | cons m values ih => simp [plainMembers, ih]

theorem mem_nodesOfElements {values : List AnyValue} {node : AnyValue} :
    node ∈ nodesOfElements values ↔ ∃ v ∈ values, node ∈ v.nodes := by
  induction values with
  | nil => simp [nodesOfElements]
  | cons v values ih => simp [nodesOfElements, ih]

theorem mem_nodesOfMembers {values : List (Bytes × AnyValue)} {node : AnyValue} :
    node ∈ nodesOfMembers values ↔ ∃ m ∈ values, node ∈ m.2.nodes := by
  induction values with
  | nil => simp [nodesOfMembers]
  | cons m values ih => simp [nodesOfMembers, ih]

/-- No node of the tree is lost. -/
def Kept (tree : AnyValue) : Prop := ∀ node ∈ tree.nodes, ¬node.Lost

@[simp] theorem kept_array_iff {written : Bool} {values : List AnyValue} :
    (AnyValue.array written values).Kept ↔
      ¬(values = [] ∧ written = false) ∧ ∀ v ∈ values, v.Kept := by
  unfold Kept
  rw [nodes, List.forall_mem_cons]
  apply and_congr Iff.rfl
  constructor
  · intro h v hv node hnode
    exact h node (mem_nodesOfElements.mpr ⟨v, hv, hnode⟩)
  · intro h node hnode
    obtain ⟨v, hv, hmem⟩ := mem_nodesOfElements.mp hnode
    exact h v hv node hmem

@[simp] theorem kept_kvlist_iff {written : Bool} {values : List (Bytes × AnyValue)} :
    (AnyValue.kvlist written values).Kept ↔ values ≠ [] ∧ ∀ m ∈ values, m.2.Kept := by
  unfold Kept
  rw [nodes, List.forall_mem_cons]
  apply and_congr Iff.rfl
  constructor
  · intro h m hm node hnode
    exact h node (mem_nodesOfMembers.mpr ⟨m, hm, hnode⟩)
  · intro h node hnode
    obtain ⟨m, hm, hmem⟩ := mem_nodesOfMembers.mp hnode
    exact h m hm node hmem

end AnyValue

open AnyValue

/-! ## what the code takes a wrapper for -/

/-- `TryCast::Operation<string_t, int64_t>` reads the digits of every 64-bit
integer. -/
def CastsDigits (duck : Duck) : Prop := ∀ n, duck.tryCastInt64 (digitString n) = some n

variable {duck : Duck}

/-- No wrapper has a member `key`: an array of them is no KeyValue array. -/
theorem objGet_key_encode (tree : AnyValue) :
    ∃ name inner, tree.encode = wrapper name inner ∧
      objGet (bytes "key") [(bytes name, inner)] = none := by
  cases tree with
  | string text => exact ⟨"stringValue", _, rfl, rfl⟩
  | bool b => exact ⟨"boolValue", _, rfl, rfl⟩
  | int n => exact ⟨"intValue", _, rfl, rfl⟩
  | double d => exact ⟨"doubleValue", _, rfl, rfl⟩
  | bytes text => exact ⟨"bytesValue", _, rfl, rfl⟩
  | array written values => exact ⟨"arrayValue", _, by rw [encode], rfl⟩
  | kvlist written values => exact ⟨"kvlistValue", _, by rw [encode], rfl⟩

theorem otlpIsKeyValueArray_encode (values : List AnyValue) :
    otlpIsKeyValueArray (.arr (values.map encode)) = false := by
  cases values with
  | nil => rfl
  | cons v values =>
      obtain ⟨name, inner, hv, hkey⟩ := objGet_key_encode v
      simp [otlpIsKeyValueArray, hv, wrapper, hkey]

theorem otlpIsKeyValueArray_keyValues {values : List (Bytes × AnyValue)} (h : values ≠ []) :
    otlpIsKeyValueArray (.arr (values.map fun m => keyValue m.1 m.2.encode)) = true := by
  have hkey : ∀ m : Bytes × AnyValue,
      (objGet (bytes "key") [(bytes "key", .str m.1), (bytes "value", m.2.encode)]).isSome = true :=
    fun _ => rfl
  simp [otlpIsKeyValueArray, keyValue, h, hkey]

theorem otlpKeyValues_keyValues (values : List (Bytes × AnyValue)) (depth : Nat) :
    otlpKeyValues duck (values.map fun m => keyValue m.1 m.2.encode) depth =
      values.map fun m => (m.1, otlpNormalizeValue duck m.2.encode [] (depth + 1)) := by
  induction values with
  | nil => simp [otlpKeyValues]
  | cons m values ih =>
      have hname : keyValueName (keyValue m.1 m.2.encode) = some m.1 := rfl
      have hvalue : otlpNormalizeMember duck (bytes "value") (keyValue m.1 m.2.encode) (depth + 1) =
          some (otlpNormalizeValue duck m.2.encode [] (depth + 1)) := by
        have hne : bytes "key" ≠ bytes "value" := by decide
        simp [keyValue, otlpNormalizeMember, otlpNormalizeFirst, hne]
      simp [otlpKeyValues, hname, hvalue, ih]

/-! ## unwrapping -/

/-- The two list wrappers. -/
def ListWrapper (name : String) : Prop := name = "arrayValue" ∨ name = "kvlistValue"

theorem otlpUnwrapAnyValue_list {name : String} (h : ListWrapper name) (inner : Json) :
    otlpUnwrapAnyValue duck [(bytes name, inner)] =
      otlpNormalizeMember duck (bytes "values") inner 0 := by
  cases h with
  | inl h => subst h; rfl
  | inr h => subst h; rfl

/-- A field that is there is normalized, from depth 0 on. -/
theorem otlpUnwrapAnyValue_written {name : String} (h : ListWrapper name) {written : Bool}
    {elements : List Json} (hwritten : ¬(elements = [] ∧ written = false)) :
    otlpUnwrapAnyValue duck [(bytes name, repeatedField written elements)] =
      some (otlpNormalizeValue duck (.arr elements) [] 0) := by
  have hfield : repeatedField written elements = wrapper "values" (.arr elements) := by
    rw [repeatedField, if_neg]
    simpa using hwritten
  rw [otlpUnwrapAnyValue_list h, hfield]
  simp [wrapper, otlpNormalizeMember, otlpNormalizeFirst]

/-- A field that is left out leaves nothing to unwrap. -/
theorem otlpUnwrapAnyValue_omitted {name : String} (h : ListWrapper name) :
    otlpUnwrapAnyValue duck [(bytes name, repeatedField false [])] = none := by
  rw [otlpUnwrapAnyValue_list h]
  rfl

variable {key : Bytes} {depth : Nat}

theorem otlpNormalizeValue_of_unwraps (hdepth : depth ≤ rawMaxNesting) {name : String}
    {inner unwrapped : Json}
    (h : otlpUnwrapAnyValue duck [(bytes name, inner)] = some unwrapped) :
    otlpNormalizeValue duck (wrapper name inner) key depth = unwrapped := by
  rw [wrapper, otlpNormalizeValue, if_neg (by omega), h]

/-- The wrapper of a field that is left out stays an object with one member. -/
theorem otlpNormalizeValue_omitted (hdepth : depth ≤ rawMaxNesting) {name : String}
    (h : ListWrapper name) :
    ∃ member, otlpNormalizeValue duck (wrapper name (repeatedField false [])) key depth =
      .obj [member] := by
  have hname : bytes name ≠ bytes "attributes" := by
    cases h with
    | inl h => subst h; decide
    | inr h => subst h; decide
  rw [wrapper, otlpNormalizeValue, if_neg (by omega), otlpUnwrapAnyValue_omitted h]
  simp only [otlpNormalizeObject, hname, decide_false, Bool.false_and, Bool.false_eq_true,
    if_false]
  exact ⟨_, rfl⟩

/-! ## what normalizing gives -/

/-- The value of an array of encodings, at the depth the elements start at. -/
theorem otlpNormalizeValue_elements (values : List AnyValue) :
    otlpNormalizeValue duck (.arr (values.map encode)) [] 0 =
      .arr (values.map fun v => otlpNormalizeValue duck v.encode [] 1) := by
  rw [otlpNormalizeValue, if_neg (by decide), otlpIsKeyValueArray_encode, otlpElements_eq,
    List.map_map]
  rfl

/-- The value of an array of KeyValues; without one it is taken for an array. -/
theorem otlpNormalizeValue_members {values : List (Bytes × AnyValue)} (h : values ≠ []) :
    otlpNormalizeValue duck (.arr (values.map fun m => keyValue m.1 m.2.encode)) [] 0 =
      .obj (values.map fun m => (m.1, otlpNormalizeValue duck m.2.encode [] 1)) := by
  rw [otlpNormalizeValue, if_neg (by decide), otlpIsKeyValueArray_keyValues h, if_pos rfl,
    otlpKeyValues_keyValues]

theorem otlpNormalizeValue_noMembers : otlpNormalizeValue duck (.arr []) [] 0 = .arr [] := rfl

/-- **Normalizing decodes** the encoding of an AnyValue exactly when every kvlist
of it has an element and every array without elements has its field written.
The keys of a kvlist may repeat: its elements become members in their order. -/
theorem otlpNormalizeValue_decodes_iff (hduck : CastsDigits duck) (tree : AnyValue)
    (key : Bytes) (hdepth : depth ≤ rawMaxNesting) :
    otlpNormalizeValue duck tree.encode key depth = tree.plain ↔
      ∀ node ∈ tree.nodes, ¬node.Lost := by
  show _ ↔ tree.Kept
  have hstart : 1 ≤ rawMaxNesting := by decide
  induction tree using AnyValue.induct generalizing key depth with
  | array written values ih =>
      rw [kept_array_iff, encode, plain, encodeElements_eq, plainElements_eq]
      by_cases hlost : values = [] ∧ written = false
      · obtain ⟨rfl, rfl⟩ := hlost
        obtain ⟨member, hleft⟩ :=
          @otlpNormalizeValue_omitted duck key depth hdepth "arrayValue" (.inl rfl)
        rw [List.map_nil, hleft]
        simp
      · have hwritten : ¬(values.map encode = [] ∧ written = false) := by simpa using hlost
        rw [otlpNormalizeValue_of_unwraps hdepth (otlpUnwrapAnyValue_written (.inl rfl) hwritten),
          otlpNormalizeValue_elements, Json.arr.injEq, List.map_inj_left, and_iff_right hlost]
        exact forall₂_congr fun v hv => ih v hv [] hstart
  | kvlist written values ih =>
      rw [kept_kvlist_iff, encode, plain, encodeMembers_eq, plainMembers_eq]
      by_cases hempty : values = []
      · subst hempty
        rw [List.map_nil, List.map_nil, and_iff_left_of_imp (by simp)]
        cases written with
        | false =>
            obtain ⟨member, hleft⟩ :=
              @otlpNormalizeValue_omitted duck key depth hdepth "kvlistValue" (.inr rfl)
            rw [hleft]
            simp
        | true =>
            rw [otlpNormalizeValue_of_unwraps hdepth
              (otlpUnwrapAnyValue_written (.inr rfl) (by simp)), otlpNormalizeValue_noMembers]
            simp
      · have hwritten : ¬(values.map (fun m => keyValue m.1 m.2.encode) = [] ∧
            written = false) := by simp [hempty]
        rw [otlpNormalizeValue_of_unwraps hdepth (otlpUnwrapAnyValue_written (.inr rfl) hwritten),
          otlpNormalizeValue_members hempty, Json.obj.injEq, List.map_inj_left,
          and_iff_right hempty]
        apply forall₂_congr
        intro m hm
        rw [Prod.mk.injEq, and_iff_right rfl]
        exact ih m hm [] hstart
  | int n =>
      have hunwrap : otlpUnwrapAnyValue duck [(bytes "intValue", .str (digitString n))] =
          some (.sint n) := by
        show some (otlpIntValue duck (.str (digitString n))) = _
        rw [otlpIntValue, hduck n]
      rw [encode, plain, otlpNormalizeValue_of_unwraps hdepth hunwrap]
      simp [Kept, nodes, Lost]
  | string text =>
      rw [encode, plain, otlpNormalizeValue_of_unwraps hdepth rfl]
      simp [Kept, nodes, Lost]
  | bool b =>
      rw [encode, plain, otlpNormalizeValue_of_unwraps hdepth rfl]
      simp [Kept, nodes, Lost]
  | double d =>
      rw [encode, plain, otlpNormalizeValue_of_unwraps hdepth rfl]
      simp [Kept, nodes, Lost]
  | bytes text =>
      rw [encode, plain, otlpNormalizeValue_of_unwraps hdepth rfl]
      simp [Kept, nodes, Lost]

/-! ## a tree that decodes, and one that does not -/

/-- A DuckDB whose cast reads every decimal integer in range. -/
def decimalDuck : Duck :=
  { smallDuck with
    tryCastInt64 := fun text =>
      match (String.fromUTF8? text.toByteArray).bind String.toInt? with
      | some n => if (Int64.ofInt n).toInt = n then some (Int64.ofInt n) else none
      | none => none }

theorem castsDigits_decimalDuck : CastsDigits decimalDuck := by
  intro n
  have htext : (digitString n).toByteArray = n.toInt.repr.toUTF8 := by
    apply ByteArray.ext
    rw [List.data_toByteArray, digitString, bytes, Array.toArray_toList]
  have hread : String.fromUTF8? (digitString n).toByteArray = some n.toInt.repr := by
    rw [htext, String.fromUTF8?, String.toUTF8_eq_toByteArray, dif_pos n.toInt.repr.isValidUTF8]
    rfl
  show (match (String.fromUTF8? (digitString n).toByteArray).bind String.toInt? with
    | some n => if (Int64.ofInt n).toInt = n then some (Int64.ofInt n) else none
    | none => none) = some n
  rw [hread, Option.bind_some, Int.toInt?_repr]
  simp

/-- `[-5, {"a": true}, []]`, the last with its field written. -/
def mixedTree : AnyValue :=
  .array false [.int (-5), .kvlist false [(bytes "a", .bool true)], .array true []]

theorem otlpNormalizeValue_decodes_mixed :
    otlpNormalizeValue decimalDuck mixedTree.encode [] 0 = mixedTree.plain := by
  apply (otlpNormalizeValue_decodes_iff castsDigits_decimalDuck mixedTree [] (by decide)).mpr
  simp [mixedTree, nodes, nodesOfElements, nodesOfMembers, Lost]

/-- The kvlist without elements becomes the empty array. -/
theorem otlpNormalizeValue_misses :
    otlpNormalizeValue decimalDuck (AnyValue.kvlist true []).encode [] 0 ≠
      (AnyValue.kvlist true []).plain := by
  have hleft : otlpNormalizeValue decimalDuck (AnyValue.kvlist true []).encode [] 0 = .arr [] := rfl
  have hplain : (AnyValue.kvlist true []).plain = .obj [] := rfl
  rw [hleft, hplain]
  simp

end RawDuck
