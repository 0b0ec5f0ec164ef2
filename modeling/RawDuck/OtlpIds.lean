import RawDuck.Base64
import RawDuck.Nesting

/-!
# RawDuck.OtlpIds

What becomes of trace and span ids.  Senders write the bytes of an id as hex or
as base64, and the code tells the two apart by the length of the text and by its
characters.

* `otlpNormalizeString_id` — both texts of an id become its hex text;
* `Arrives` — the calls of `OtlpNormalizeValue` whose result stands in the row;
* `otlpNormalizeRow_ids` — the id members of every object that normalizing
  reaches;
* `otlpNormalizeRow_ids_deep_or_again` — the nesting guard lies between an object and its
  members, and a second normalization is one of another row.
-/

namespace RawDuck

/-! ## hex -/

theorem length_hexText (bs : Bytes) : (hexText bs).length = 2 * bs.length := by
  induction bs with
  | nil => rfl
  | cons b bs ih =>
      rw [hexText, List.flatMap_cons, List.length_append, ← hexText, ih, List.length_cons]
      simp only [List.length_cons, List.length_nil]
      omega

theorem otlpIsHex_hexText (bs : Bytes) : otlpIsHex (hexText bs) = true := by
  have hdigit : ∀ {v : UInt8}, v < 16 → ((48 ≤ hexDigit v && hexDigit v ≤ 57) ||
      (97 ≤ hexDigit v && hexDigit v ≤ 102) || (65 ≤ hexDigit v && hexDigit v ≤ 70)) = true := by
    intro v hv
    refine forall_lt_of_fin (n := 16) (p := fun v => ((48 ≤ hexDigit v && hexDigit v ≤ 57) ||
      (97 ≤ hexDigit v && hexDigit v ≤ 102) ||
      (65 ≤ hexDigit v && hexDigit v ≤ 70)) = true) ?_ hv
    decide
  rw [otlpIsHex, List.all_eq_true]
  intro c hc
  obtain ⟨b, -, hc⟩ := List.mem_flatMap.mp hc
  obtain ⟨-, ⟨hhigh, hlow, -⟩, -⟩ := byte_parts b
  obtain rfl | hc := List.mem_cons.mp hc
  · exact hdigit hhigh
  · rw [List.mem_singleton.mp hc]
    exact hdigit hlow

/-! ## the text of an id -/

/-- A key of ids, for the bytes of an id. -/
def IdOf (key b : Bytes) : Prop := otlpIdWidth key ≠ 0 ∧ b.length = otlpIdWidth key

/-- The texts that senders write for the bytes of an id. -/
def IdText (b text : Bytes) : Prop := text = base64Encode b ∨ text = hexText b

theorem width_of_idOf {key b : Bytes} (h : IdOf key b) : b.length = 16 ∨ b.length = 8 := by
  obtain ⟨hne, hlength⟩ := h
  unfold otlpIdWidth at hne hlength
  split at hlength
  · exact .inl hlength
  · split at hlength
    · exact .inr hlength
    · next hkey hkey' =>
      rw [if_neg hkey, if_neg hkey'] at hne
      exact absurd rfl hne

/-- **Both texts** of an id become its hex text: the base64 text has another length
than the hex text. -/
theorem otlpNormalizeString_id (duck : Duck) {key b text : Bytes} (hid : IdOf key b)
    (htext : IdText b text) : otlpNormalizeString duck key text = .str (hexText b) := by
  have hwidth := width_of_idOf hid
  obtain ⟨hne, hlength⟩ := hid
  show (if otlpIdWidth key ≠ 0 then _ else _) = _
  rw [if_pos hne, ← hlength]
  obtain rfl | rfl := htext
  · have hne : (decide ((base64Encode b).length = b.length * 2) &&
        otlpIsHex (base64Encode b)) = false := by
      have htext := length_base64Encode b
      rw [Bool.and_eq_false_iff, decide_eq_false_iff_not]
      exact .inl (by omega)
    have hnil : b ≠ [] := by
      intro hb
      rw [hb] at hwidth
      simp at hwidth
    rw [hne, otlpBase64Decode_encode hnil]
    exact if_pos rfl
  · have hpass : (decide ((hexText b).length = b.length * 2) && otlpIsHex (hexText b)) = true := by
      have htext := length_hexText b
      rw [otlpIsHex_hexText, Bool.and_true, decide_eq_true_eq]
      omega
    rw [hpass]
    rfl

/-! ## the member of an object -/

/-- The object has no KeyValue attribute of that name. -/
def NoAttribute (key : Bytes) (members : List (Bytes × Json)) : Prop :=
  ∀ m ∈ members, isSpread m = true → ∀ element ∈ arrayElements m.2, keyValueName element ≠ some key

section

variable (duck : Duck) {key : Bytes} {members : List (Bytes × Json)}

theorem attributesBefore_of_noAttribute (h : NoAttribute key members) (depth : Nat) :
    attributesBefore duck depth key members = [] := by
  induction members with
  | nil => rfl
  | cons m rest ih =>
      have hrest := ih fun m' hm' => h m' (List.mem_cons_of_mem _ hm')
      rw [attributesBefore, hrest, ite_self, List.append_nil]
      split
      · next hspread =>
        rw [List.map_eq_nil_iff, List.filter_eq_nil_iff]
        intro a ha hkey
        obtain ⟨k, v⟩ := m
        cases v with
        | arr elements =>
            obtain ⟨element, helement, ha⟩ := List.mem_filterMap.mp ha
            refine h _ List.mem_cons_self hspread element helement ?_
            rw [attributeMember] at ha
            split at ha
            · next hname _ =>
              obtain rfl := Option.some.inj ha
              exact hname.trans (congrArg some (of_decide_eq_true hkey))
            · contradiction
        | _ => contradiction
      · rfl

/-- A field whose name no attribute has is there with its own value. -/
theorem objGet_otlpNormalizeObject_own (hkey : key ≠ bytes "attributes")
    (h : NoAttribute key members) {v : Json} (hv : objGet key members = some v) (depth : Nat) :
    objGet key (otlpNormalizeObject duck members [] depth) =
      some (otlpNormalizeValue duck v key (depth + 1)) := by
  rw [objGet_otlpNormalizeObject, attributesBefore_of_noAttribute duck h, List.head?_nil,
    Option.none_or, ownFields, List.find?_filter]
  have hsame : (fun m : Bytes × Json => decide ((!isSpread m) = true ∧
      decide (m.1 = key) = true)) = fun m => decide (m.1 = key) := by
    funext m
    by_cases hm : m.1 = key
    · simp [isSpread, hm, hkey]
    · simp [hm]
  obtain ⟨m, hm, rfl⟩ := Option.map_eq_some_iff.mp hv
  have hname : m.1 = key := by simpa using List.find?_some hm
  rw [hsame, hm, Option.map_some, ownValue, hname]

variable {duck} {b text : Bytes}

theorem ne_attributes_of_idOf (hid : IdOf key b) : key ≠ bytes "attributes" := by
  rintro rfl
  exact hid.1 rfl

/-- An object with an id is no AnyValue. -/
theorem otlpUnwrapAnyValue_of_id (hid : IdOf key b) {v : Json}
    (hv : objGet key members = some v) : otlpUnwrapAnyValue duck members = none := by
  obtain _ | ⟨⟨name, inner⟩, _ | ⟨m, rest⟩⟩ := members
  · rfl
  · have hname : name = key := by
      rw [objGet_cons, objGet_nil] at hv
      split at hv
      · assumption
      · exact nomatch hv
    have hne := hid.1
    rw [← hname] at hne
    rw [otlpUnwrapAnyValue]
    by_cases hplain : isPlainWrapper name = true
    · simp only [isPlainWrapper, Bool.or_eq_true, decide_eq_true_eq] at hplain
      obtain ((rfl | rfl) | rfl) | rfl := hplain <;> exact absurd rfl hne
    · by_cases hint : name = bytes "intValue"
      · rw [hint] at hne
        exact absurd rfl hne
      · by_cases hlist : isListWrapper name = true
        · simp only [isListWrapper, Bool.or_eq_true, decide_eq_true_eq] at hlist
          obtain rfl | rfl := hlist <;> exact absurd rfl hne
        · rw [if_neg hplain, if_neg hint, if_neg hlist]
  · rfl

/-- The text of an id under its key, within the guard; hex anywhere. -/
theorem otlpNormalizeValue_id (hid : IdOf key b) (htext : IdText b text) {depth : Nat}
    (hdepth : depth ≤ rawMaxNesting ∨ text = hexText b) :
    otlpNormalizeValue duck (.str text) key depth = .str (hexText b) := by
  rw [otlpNormalizeValue]
  split
  · next hdeep => rw [hdepth.resolve_left (by omega)]
  · exact otlpNormalizeString_id duck hid htext

/-- The id of an object. -/
theorem objGet_otlpNormalizeObject_id (hid : IdOf key b)
    (hmember : objGet key members = some (.str text)) (htext : IdText b text)
    (hattribute : NoAttribute key members) {depth : Nat}
    (hdepth : depth + 1 ≤ rawMaxNesting ∨ text = hexText b) :
    objGet key (otlpNormalizeObject duck members [] depth) = some (.str (hexText b)) := by
  rw [objGet_otlpNormalizeObject_own duck (ne_attributes_of_idOf hid) hattribute hmember,
    otlpNormalizeValue_id hid htext hdepth]

end

/-! ## what normalizing reaches -/

/-- A value that stands somewhere in another one. -/
inductive Inside : Json → Json → Prop where
  | refl (v : Json) : Inside v v
  | member {members : List (Bytes × Json)} {m : Bytes × Json} {v : Json} :
      m ∈ members → Inside v m.2 → Inside v (.obj members)
  | element {elements : List Json} {e v : Json} :
      e ∈ elements → Inside v e → Inside v (.arr elements)

theorem Inside.trans {u v w : Json} (h : Inside u v) (h' : Inside v w) : Inside u w := by
  induction h' with
  | refl v => exact h
  | member hm _ ih => exact .member hm (ih h)
  | element he _ ih => exact .element he (ih h)

/-- A nested call whose result has a place in the result of the call: all of them,
but of the members of an object only the first one of a name. -/
inductive Placed (duck : Duck) : OtlpCall → OtlpCall → Prop where
  | values {members : List (Bytes × Json)} {values : Json} {key : Bytes} {depth : Nat} :
      depth ≤ rawMaxNesting → wrappedValues (.obj members) = some values →
      Placed duck ⟨.obj members, key, depth⟩ ⟨values, [], 0⟩
  | member {members : List (Bytes × Json)} {key name : Bytes} {depth : Nat} {call : OtlpCall} :
      depth ≤ rawMaxNesting → otlpUnwrapAnyValue duck members = none →
      (members.flatMap (memberCalls (depth + 1))).find? (fun c => c.1 = name) =
        some (name, call) →
      Placed duck ⟨.obj members, key, depth⟩ call
  | keyValue {elements : List Json} {key : Bytes} {depth : Nat} {c : Bytes × OtlpCall} :
      depth ≤ rawMaxNesting → otlpIsKeyValueArray (.arr elements) = true →
      c ∈ elements.flatMap (keyValueCalls depth) → Placed duck ⟨.arr elements, key, depth⟩ c.2
  | element {elements : List Json} {key : Bytes} {depth : Nat} {element : Json} :
      depth ≤ rawMaxNesting → otlpIsKeyValueArray (.arr elements) = false → element ∈ elements →
      Placed duck ⟨.arr elements, key, depth⟩ ⟨element, [], depth + 1⟩

/-- The calls whose results stand in the row: that of the row itself, or of the
values in it where the row is an AnyValue list, and those placed in them. -/
inductive Arrives (duck : Duck) : Json → OtlpCall → Prop where
  | object {members : List (Bytes × Json)} : otlpUnwrapAnyValue duck members = none →
      Arrives duck (.obj members) ⟨.obj members, [], 0⟩
  | array {elements : List Json} : otlpIsKeyValueArray (.arr elements) = false →
      Arrives duck (.arr elements) ⟨.arr elements, [], 0⟩
  | values {members : List (Bytes × Json)} {values : Json} {call : OtlpCall} :
      wrappedValues (.obj members) = some values → Arrives duck values call →
      Arrives duck (.obj members) call
  | nested {row : Json} {call call' : OtlpCall} :
      Arrives duck row call → Placed duck call call' → Arrives duck row call'

section

variable {duck : Duck} {row : Json} {call call' : OtlpCall}

/-- What is placed stands there. -/
theorem Placed.inside (h : Placed duck call call') :
    Inside (call'.result duck) (call.result duck) := by
  cases h with
  | @values members values key depth hdepth hwrapped =>
      have hresult : otlpNormalizeValue duck (.obj members) key depth =
          otlpNormalizeValue duck values [] 0 := by
        rw [otlpNormalizeValue, if_neg (by omega), otlpUnwrapAnyValue_of_wrapped hwrapped]
      show Inside _ (otlpNormalizeValue duck (.obj members) key depth)
      rw [hresult]
      exact .refl _
  | @member members key name depth call hdepth hobject hfirst =>
      have hget : objGet name (otlpNormalizeObject duck members [] (depth + 1)) =
          some (call'.result duck) := by
        have hcontributed : members.flatMap (contributed duck (depth + 1)) =
            (members.flatMap (memberCalls (depth + 1))).map fun c => (c.1, c.2.result duck) := by
          rw [List.map_flatMap]
          exact congrArg members.flatMap (funext (contributed_eq (depth + 1)))
        rw [otlpNormalizeObject_eq, objGet_addMembers, List.nil_append, hcontributed, objGet,
          List.find?_map, Option.map_map]
        exact Option.map_eq_some_iff.mpr ⟨_, hfirst, rfl⟩
      show Inside _ (otlpNormalizeValue duck (.obj members) key depth)
      rw [otlpNormalizeValue, if_neg (by omega), hobject]
      exact .member (mem_of_objGet hget) (.refl _)
  | @keyValue elements key depth c hdepth hlist hmem =>
      show Inside _ (otlpNormalizeValue duck (.arr elements) key depth)
      rw [otlpNormalizeValue, if_neg (by omega), if_pos hlist, otlpKeyValues_eq]
      exact .member (List.mem_map_of_mem hmem) (.refl _)
  | @element elements key depth element hdepth harray hmem =>
      have hresult : otlpNormalizeValue duck (.arr elements) key depth =
          .arr (elements.map fun e => otlpNormalizeValue duck e [] (depth + 1)) := by
        rw [otlpNormalizeValue, if_neg (by omega), harray, otlpElements_eq]
        rfl
      show Inside _ (otlpNormalizeValue duck (.arr elements) key depth)
      rw [hresult]
      exact .element (List.mem_map_of_mem hmem) (.refl _)

/-- What is left of the values of a row that is an AnyValue list. -/
theorem inside_values {members : List (Bytes × Json)} {values : Json}
    (h : wrappedValues (.obj members) = some values) :
    Inside (otlpNormalizeRow duck values) (otlpNormalizeRow duck (.obj members)) := by
  rw [otlpNormalizeRow, otlpUnwrapAnyValue_of_wrapped h]
  obtain _ | ⟨⟨name, inner⟩, _ | ⟨m, rest⟩⟩ := members
  · contradiction
  · rw [wrappedValues] at h
    split at h
    · next hlist =>
      cases inner with
      | obj fields =>
          have hfields : ∀ fields : List (Bytes × Json),
              objGet (bytes "values") fields = some values →
              (bytes "values", otlpNormalizeRow duck values) ∈ otlpFirstLeft duck fields := by
            intro fields
            induction fields with
            | nil => rintro ⟨⟩
            | cons field rest ih =>
                obtain ⟨k, v⟩ := field
                rw [objGet_cons, otlpFirstLeft]
                intro hget
                split at hget
                · next hk =>
                  obtain rfl := Option.some.inj hget
                  rw [if_pos hk, ← hk]
                  exact List.mem_cons_self
                · next hk =>
                  rw [if_neg hk]
                  exact List.mem_cons_of_mem _ (ih hget)
          show Inside _ (.obj (otlpUnwrappedLeft duck [(name, .obj fields)]))
          rw [otlpUnwrappedLeft, if_pos hlist, otlpListLeft]
          exact .member List.mem_cons_self (.member (hfields fields h) (.refl _))
      | _ => contradiction
    · contradiction
  · contradiction

/-- **What arrives stands in the row** once it is normalized. -/
theorem Arrives.inside (h : Arrives duck row call) :
    Inside (call.result duck) (otlpNormalizeRow duck row) := by
  induction h with
  | object hobject =>
      rw [OtlpCall.result, otlpNormalizeValue, if_neg (Nat.not_lt_zero _), otlpNormalizeRow,
        hobject]
      exact .refl _
  | array harray =>
      rw [OtlpCall.result, otlpNormalizeValue, if_neg (Nat.not_lt_zero _), otlpNormalizeRow,
        harray]
      exact .refl _
  | values hwrapped _ ih => exact ih.trans (inside_values hwrapped)
  | nested _ hplaced ih => exact hplaced.inside.trans ih

end

/-- The text of an id under its key: hex, but beyond the guard as it came. -/
theorem otlpNormalizeValue_id_guarded (duck : Duck) {key b text : Bytes} (hid : IdOf key b)
    (htext : IdText b text) (depth : Nat) : otlpNormalizeValue duck (.str text) key depth =
      .str (if depth ≤ rawMaxNesting then hexText b else text) := by
  split
  · next hdepth => exact otlpNormalizeValue_id hid htext (.inl hdepth)
  · next hdeep => rw [otlpNormalizeValue, if_pos (by omega)]

/-- **Ids come out as hex**: where normalizing reaches the members of an object, an
id that came as hex stands in the row as hex, and so does one that came as base64 if the
guard lets the text itself be normalized; beyond the guard it stays as it came.  The hex text
is left so when it is normalized again, alone or with the object around it. -/
theorem otlpNormalizeRow_ids (duck : Duck) {row : Json} {members : List (Bytes × Json)}
    {place : Bytes} {depth : Nat} (harrives : Arrives duck row ⟨.obj members, place, depth⟩)
    (hreached : depth ≤ rawMaxNesting) {key b text : Bytes} (hid : IdOf key b)
    (hmember : objGet key members = some (.str text)) (htext : IdText b text)
    (hattribute : NoAttribute key members) :
    ∃ object, otlpNormalizeValue duck (.obj members) place depth = .obj object ∧
      Inside (.obj object) (otlpNormalizeRow duck row) ∧
      objGet key object =
        some (.str (if depth + 2 ≤ rawMaxNesting then hexText b else text)) ∧
      (∀ depth', otlpNormalizeValue duck (.str (hexText b)) key depth' = .str (hexText b)) ∧
      (depth + 2 ≤ rawMaxNesting ∨ text = hexText b → ∀ place' depth', NoAttribute key object →
        ∃ again, otlpNormalizeValue duck (.obj object) place' depth' = .obj again ∧
          objGet key again = some (.str (hexText b))) := by
  have hresult : otlpNormalizeValue duck (.obj members) place depth =
      .obj (otlpNormalizeObject duck members [] (depth + 1)) := by
    rw [otlpNormalizeValue, if_neg (by omega), otlpUnwrapAnyValue_of_id hid hmember]
  have hobject := (objGet_otlpNormalizeObject_own duck (ne_attributes_of_idOf hid) hattribute
    hmember (depth + 1)).trans (congrArg some (otlpNormalizeValue_id_guarded duck hid htext _))
  refine ⟨_, hresult, hresult ▸ harrives.inside, hobject, fun depth' => ?_,
    fun hwithin place' depth' hattribute' => ?_⟩
  · exact otlpNormalizeValue_id hid (.inr rfl) (.inr rfl)
  · have hhex := @objGet_otlpNormalizeObject_id duck _ _ _ _ hid hmember htext hattribute
      (depth + 1) hwithin
    rw [otlpNormalizeValue, otlpUnwrapAnyValue_of_id hid hhex]
    split
    · exact ⟨_, rfl, hhex⟩
    · exact ⟨_, rfl, objGet_otlpNormalizeObject_id hid hhex (.inr rfl) hattribute' (.inr rfl)⟩

/-- The bytes 1 to 16. -/
def sampleId : Bytes := [1, 2, 3, 4, 5, 6, 7, 8, 9, 10, 11, 12, 13, 14, 15, 16]

/-- `{"links":[{"traceId":"AQIDBAUGBwgJCgsMDQ4PEA=="}]}`. -/
def linkedRow : Json :=
  .obj [(bytes "links", .arr [.obj [(bytes "traceId", .str (bytes "AQIDBAUGBwgJCgsMDQ4PEA=="))]])]

/-- The id in the link comes out as hex. -/
theorem otlpNormalizeRow_ids_link :
    ∃ object, Inside (.obj object) (otlpNormalizeRow smallDuck linkedRow) ∧
      objGet (bytes "traceId") object = some (.str (bytes "0102030405060708090a0b0c0d0e0f10")) := by
  have hlinks : Arrives smallDuck linkedRow
      ⟨.arr [.obj [(bytes "traceId", .str (bytes "AQIDBAUGBwgJCgsMDQ4PEA=="))]],
        bytes "links", 2⟩ :=
    .nested (.object rfl) (@Placed.member _ _ _ (bytes "links") _ _ (Nat.zero_le _) rfl rfl)
  have hlink : Arrives smallDuck linkedRow
      ⟨.obj [(bytes "traceId", .str (bytes "AQIDBAUGBwgJCgsMDQ4PEA=="))], [], 3⟩ :=
    .nested hlinks (.element (by decide) rfl List.mem_cons_self)
  have hplain : NoAttribute (bytes "traceId")
      [(bytes "traceId", .str (bytes "AQIDBAUGBwgJCgsMDQ4PEA=="))] := by
    intro m hm hspread
    obtain rfl := List.mem_singleton.mp hm
    exact nomatch hspread
  obtain ⟨object, -, hinside, hid, -⟩ := @otlpNormalizeRow_ids smallDuck _ _ _ _ hlink
    (by decide) (bytes "traceId") sampleId _ ⟨by decide, rfl⟩ rfl (.inl rfl) hplain
  exact ⟨object, hinside, hid⟩

/-! ## ids that do not come out so -/

/-- A value in so many arrays. -/
def nestedIn : Nat → Json → Json
  | 0, v => v
  | n + 1, v => .arr [nestedIn n v]

theorem arrives_nestedIn {duck : Duck} {row : Json} {members : List (Bytes × Json)}
    (hmember : objGet (bytes "key") members = none) {n depth : Nat} {place : Bytes}
    (h : Arrives duck row ⟨nestedIn (n + 1) (.obj members), place, depth⟩)
    (hdepth : depth + n ≤ rawMaxNesting) :
    Arrives duck row ⟨.obj members, [], depth + (n + 1)⟩ := by
  induction n generalizing depth place with
  | zero =>
      refine .nested h (.element (by omega) ?_ List.mem_cons_self)
      simp [nestedIn, otlpIsKeyValueArray, hmember]
  | succ n ih =>
      have hinner := ih (.nested h (.element (by omega) rfl List.mem_cons_self))
        (by omega)
      rwa [show depth + (n + 1 + 1) = depth + 1 + (n + 1) by omega]

/-- An object with an id. -/
def idMembers : List (Bytes × Json) :=
  [(bytes "traceId", .str (bytes "AQIDBAUGBwgJCgsMDQ4PEA=="))]

/-- An object with an id as deep as objects are normalized. -/
def deepRow : Json := .obj [(bytes "links", nestedIn 126 (.obj idMembers))]

/-- An object whose attributes leave, once normalized, an attribute of the name of its id:
`{"attributes":[{"key":"attributes","value":{"arrayValue":{"values":[{"stringValue":
{"key":"traceId","value":"x"}}]}}}],"traceId":"AQIDBAUGBwgJCgsMDQ4PEA=="}`. -/
def shadowedRow : Json :=
  .obj ((bytes "attributes", .arr [.obj [(bytes "key", .str (bytes "attributes")),
    (bytes "value", .obj [(bytes "arrayValue", .obj [(bytes "values", .arr [.obj [
      (bytes "stringValue", .obj [(bytes "key", .str (bytes "traceId")),
        (bytes "value", .str (bytes "x"))])]])])])]]) :: idMembers)

/-- **An id that stays base64**, in an object that is normalized; and an id that is hex after
one normalization and not after two. -/
theorem otlpNormalizeRow_ids_deep_or_again :
    (∃ depth object, Arrives smallDuck deepRow ⟨.obj idMembers, [], depth⟩ ∧
      depth ≤ rawMaxNesting ∧ NoAttribute (bytes "traceId") idMembers ∧
      otlpNormalizeValue smallDuck (.obj idMembers) [] depth = .obj object ∧
      objGet (bytes "traceId") object = some (.str (bytes "AQIDBAUGBwgJCgsMDQ4PEA=="))) ∧
    ∃ object, otlpNormalizeRow smallDuck shadowedRow = .obj object ∧
      objGet (bytes "traceId") object = some (.str (hexText sampleId)) ∧
      ∃ again, otlpNormalizeRow smallDuck (.obj object) = .obj again ∧
        objGet (bytes "traceId") again = some (.str (bytes "x")) := by
  have hplain : NoAttribute (bytes "traceId") idMembers := by
    intro m hm hspread
    obtain rfl := List.mem_singleton.mp hm
    exact absurd hspread (by decide)
  constructor
  · have hlinks : Arrives smallDuck deepRow ⟨nestedIn (125 + 1) (.obj idMembers),
        bytes "links", 2⟩ :=
      .nested (.object rfl) (@Placed.member _ _ _ (bytes "links") _ _ (Nat.zero_le _) rfl rfl)
    have hobject : otlpNormalizeValue smallDuck (.obj idMembers) [] 128 =
        .obj (otlpNormalizeObject smallDuck idMembers [] 129) := by
      rw [otlpNormalizeValue, if_neg (by decide)]
      rfl
    refine ⟨128, _, arrives_nestedIn rfl hlinks (by decide), by decide, hplain, hobject, ?_⟩
    rw [objGet_otlpNormalizeObject_own smallDuck (by decide) hplain (v := .str _) rfl,
      otlpNormalizeValue, if_pos (by decide)]
  · refine ⟨_, rfl, rfl, _, rfl, rfl⟩

end RawDuck
