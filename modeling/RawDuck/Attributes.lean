import RawDuck.Otlp

/-!
# RawDuck.Attributes

Which value a key of an object ends up with once its attribute lists are spread
into it.  The members are added again in document order and the first one of a
key stays, so an attribute that stands before the field of its name takes the
field's place.

* `otlpNormalizeObject_eq` — the members of the result, as one list of
  contributions;
* `objGet_otlpNormalizeObject` — the value under a key;
* `otlpNormalizeObject_ownFieldsWin_iff` — when an object's own fields win.
-/

namespace RawDuck

/-! ## adding members in order -/

/-- The members added one after the other. -/
def addMembers (object members : List (Bytes × Json)) : List (Bytes × Json) :=
  members.foldl (fun object m => addMember object m.1 m.2) object

@[simp] theorem addMembers_nil (object : List (Bytes × Json)) : addMembers object [] = object := rfl

theorem addMembers_cons (object : List (Bytes × Json)) (m : Bytes × Json)
    (members : List (Bytes × Json)) :
    addMembers object (m :: members) = addMembers (addMember object m.1 m.2) members := rfl

theorem addMembers_append (object ms ns : List (Bytes × Json)) :
    addMembers object (ms ++ ns) = addMembers (addMembers object ms) ns := by
  simp [addMembers]

theorem objGet_append (key : Bytes) (ms ns : List (Bytes × Json)) :
    objGet key (ms ++ ns) = (objGet key ms).or (objGet key ns) := by
  simp [objGet, List.find?_append, Option.map_or]

theorem objGet_cons (key : Bytes) (m : Bytes × Json) (ms : List (Bytes × Json)) :
    objGet key (m :: ms) = if m.1 = key then some m.2 else objGet key ms := by
  by_cases h : m.1 = key <;> simp [objGet, h]

@[simp] theorem objGet_nil (key : Bytes) : objGet key [] = none := rfl

theorem objGet_eq_none_iff {key : Bytes} {ms : List (Bytes × Json)} :
    objGet key ms = none ↔ key ∉ ms.map Prod.fst := by
  induction ms with
  | nil => simp
  | cons m ms ih =>
      rw [objGet_cons, List.map_cons, List.mem_cons, not_or]
      by_cases h : m.1 = key
      · simp [h]
      · rw [if_neg h, ih]
        exact ⟨fun hn => ⟨fun he => h he.symm, hn⟩, fun hn => hn.2⟩

theorem mem_of_objGet {key : Bytes} {ms : List (Bytes × Json)} {v : Json}
    (h : objGet key ms = some v) : (key, v) ∈ ms := by
  induction ms with
  | nil => rw [objGet_nil] at h; contradiction
  | cons m ms ih =>
      rw [objGet_cons] at h
      split at h
      · next hk =>
        obtain ⟨k, w⟩ := m
        simp only [Option.some.injEq] at h
        subst h
        rw [← hk]
        exact List.mem_cons_self
      · exact List.mem_cons_of_mem m (ih h)

/-- Where no key is repeated, every member is the one its key finds. -/
theorem objGet_eq_some_iff {ms : List (Bytes × Json)} (hnd : (ms.map Prod.fst).Nodup)
    {key : Bytes} {v : Json} : objGet key ms = some v ↔ (key, v) ∈ ms := by
  constructor
  · exact mem_of_objGet
  · intro hm
    induction ms with
    | nil => simp at hm
    | cons m ms ih =>
        obtain ⟨hnot, hnd⟩ := List.nodup_cons.mp hnd
        rw [objGet_cons]
        cases List.mem_cons.mp hm with
        | inl he => rw [← he, if_pos rfl]
        | inr hin =>
            have hne : m.1 ≠ key := by
              intro he
              apply hnot
              rw [he]
              exact List.mem_map_of_mem (f := Prod.fst) hin
            rw [if_neg hne]
            exact ih hnd hin

theorem objGet_addMember (key : Bytes) (object : List (Bytes × Json)) (m : Bytes × Json) :
    objGet key (addMember object m.1 m.2) = objGet key (object ++ [m]) := by
  rw [addMember]
  split
  · next h =>
    rw [objGet_append, objGet_cons, objGet_nil]
    by_cases hk : m.1 = key
    · rw [hk] at h
      obtain ⟨v, hv⟩ := Option.isSome_iff_exists.mp h
      simp [hv]
    · simp [hk]
  · rfl

/-- The first member of a key is the one that stays. -/
theorem objGet_addMembers (key : Bytes) (object members : List (Bytes × Json)) :
    objGet key (addMembers object members) = objGet key (object ++ members) := by
  induction members generalizing object with
  | nil => simp
  | cons m members ih =>
      rw [addMembers_cons, ih, objGet_append, objGet_addMember, ← objGet_append,
        List.append_assoc, List.singleton_append]

theorem nodup_addMember {object : List (Bytes × Json)} (h : (object.map Prod.fst).Nodup)
    (m : Bytes × Json) : ((addMember object m.1 m.2).map Prod.fst).Nodup := by
  rw [addMember]
  split
  · exact h
  · next hn =>
    have hnot : m.1 ∉ object.map Prod.fst := by
      apply objGet_eq_none_iff.mp
      simpa using hn
    rw [List.map_append, List.map_singleton, List.nodup_append]
    refine ⟨h, List.nodup_singleton _, ?_⟩
    intro k hk k' hk' he
    rw [List.mem_singleton.mp hk'] at he
    exact hnot (he ▸ hk)

theorem nodup_addMembers {object : List (Bytes × Json)} (h : (object.map Prod.fst).Nodup)
    (members : List (Bytes × Json)) : ((addMembers object members).map Prod.fst).Nodup := by
  induction members generalizing object with
  | nil => exact h
  | cons m members ih => exact ih (nodup_addMember h m)

/-! ## what each member contributes -/

variable (duck : Duck)

/-- A member that is spread: an `attributes` list. -/
def isSpread (m : Bytes × Json) : Bool := m.1 = bytes "attributes" && otlpIsKeyValueArray m.2

/-- The object's own fields: every member that is not spread. -/
def ownFields (members : List (Bytes × Json)) : List (Bytes × Json) :=
  members.filter fun m => !isSpread m

theorem ownFields_cons (m : Bytes × Json) (members : List (Bytes × Json)) :
    ownFields (m :: members) =
      if isSpread m then ownFields members else m :: ownFields members := by
  by_cases h : isSpread m <;> simp [ownFields, h]

/-- The value of an own field of an object at this depth. -/
def ownValue (depth : Nat) (m : Bytes × Json) : Json := otlpNormalizeValue duck m.2 m.1 (depth + 1)

/-- An element of an attribute list of an object at this depth as a member: its
name must be a string, and it must have a value. -/
def attributeMember (depth : Nat) (element : Json) : Option (Bytes × Json) :=
  match keyValueName element, otlpNormalizeMember duck (bytes "value") element (depth + 1) with
  | some name, some normalized => some (name, normalized)
  | _, _ => none

/-- The attributes of a list. -/
def attributeMembers (depth : Nat) : Json → List (Bytes × Json)
  | .arr elements => elements.filterMap (attributeMember duck depth)
  | _ => []

/-- What a member adds to the rebuilt object. -/
def contributed (depth : Nat) (m : Bytes × Json) : List (Bytes × Json) :=
  if isSpread m then attributeMembers duck depth m.2 else [(m.1, ownValue duck depth m)]

theorem otlpSpreadElements_eq (depth : Nat) (elements : List Json) (object : List (Bytes × Json)) :
    otlpSpreadElements duck elements object (depth + 1) =
      addMembers object (elements.filterMap (attributeMember duck depth)) := by
  induction elements generalizing object with
  | nil => simp [otlpSpreadElements]
  | cons element rest ih =>
      rw [otlpSpreadElements, List.filterMap_cons, attributeMember]
      cases hname : keyValueName element with
      | none => exact ih object
      | some name =>
          cases hvalue : otlpNormalizeMember duck (bytes "value") element (depth + 1) with
          | none => exact ih object
          | some normalized => exact ih _

theorem otlpSpread_eq (depth : Nat) (attributes : Json) (object : List (Bytes × Json)) :
    otlpSpread duck attributes object (depth + 1) =
      addMembers object (attributeMembers duck depth attributes) := by
  cases attributes with
  | arr elements =>
      rw [otlpSpread]
      exact otlpSpreadElements_eq duck depth elements object
  | _ => simp [otlpSpread, attributeMembers]

theorem otlpElements_eq (elements : List Json) (depth : Nat) :
    otlpElements duck elements depth =
      elements.map fun e => otlpNormalizeValue duck e [] (depth + 1) := by
  induction elements with
  | nil => simp [otlpElements]
  | cons e elements ih => simp [otlpElements, ih]

/-- The rebuilt object: what the members contribute, in document order, the
first of each key. -/
theorem otlpNormalizeObject_eq (depth : Nat) (members object : List (Bytes × Json)) :
    otlpNormalizeObject duck members object depth =
      addMembers object (members.flatMap (contributed duck depth)) := by
  induction members generalizing object with
  | nil => simp [otlpNormalizeObject]
  | cons m rest ih =>
      obtain ⟨k, v⟩ := m
      rw [otlpNormalizeObject, List.flatMap_cons, addMembers_append, contributed]
      by_cases h : isSpread (k, v)
      · rw [if_pos h, if_pos (show (k = bytes "attributes" && otlpIsKeyValueArray v) = true from h),
          otlpSpread_eq, ih]
      · rw [if_neg h,
          if_neg (show ¬(k = bytes "attributes" && otlpIsKeyValueArray v) = true from h), ih]
        rfl

/-- No key of the rebuilt object is repeated. -/
theorem nodup_otlpNormalizeObject (depth : Nat) (members : List (Bytes × Json)) :
    ((otlpNormalizeObject duck members [] depth).map Prod.fst).Nodup := by
  rw [otlpNormalizeObject_eq]
  exact nodup_addMembers (by simp) _

/-! ## the value under a key -/

/-- The attributes of a name that stand before the first own field of it, in
document order; all of them where the object has no such field. -/
def attributesBefore (depth : Nat) (key : Bytes) : List (Bytes × Json) → List Json
  | [] => []
  | m :: rest =>
      if isSpread m then
        (((attributeMembers duck depth m.2).filter fun a => a.1 = key).map Prod.snd) ++
          attributesBefore depth key rest
      else if m.1 = key then []
      else attributesBefore depth key rest

theorem head?_filter_key (key : Bytes) (ms : List (Bytes × Json)) :
    ((ms.filter fun a => a.1 = key).map Prod.snd).head? = objGet key ms := by
  rw [objGet, List.head?_map, List.head?_filter]

/-- The first attribute of the name before every own field of it, else the first
own field. -/
theorem objGet_contributed (depth : Nat) (key : Bytes) (members : List (Bytes × Json)) :
    objGet key (members.flatMap (contributed duck depth)) =
      (attributesBefore duck depth key members).head?.or
        (((ownFields members).find? fun m => m.1 = key).map (ownValue duck depth)) := by
  induction members with
  | nil => simp [attributesBefore, ownFields]
  | cons m rest ih =>
      rw [List.flatMap_cons, objGet_append, ih, contributed, attributesBefore, ownFields_cons]
      by_cases hs : isSpread m
      · rw [if_pos hs, if_pos hs, if_pos hs, List.head?_append, head?_filter_key,
          Option.or_assoc]
      · rw [if_neg hs, if_neg hs, if_neg hs, List.find?_cons, objGet_cons, objGet_nil]
        by_cases hk : m.1 = key
        · simp [hk]
        · simp [hk]

/-- The value under a key of the rebuilt object. -/
theorem objGet_otlpNormalizeObject (depth : Nat) (key : Bytes) (members : List (Bytes × Json)) :
    objGet key (otlpNormalizeObject duck members [] depth) =
      (attributesBefore duck depth key members).head?.or
        (((ownFields members).find? fun m => m.1 = key).map (ownValue duck depth)) := by
  rw [otlpNormalizeObject_eq, objGet_addMembers, List.nil_append, objGet_contributed]

/-! ## the object's own fields win -/

/-- The own fields win: every member other than `attributes` is there under its
key with its own value, and what is there besides has a key that no member has. -/
def OwnFieldsWin (members : List (Bytes × Json)) (depth : Nat) : Prop :=
  (∀ m ∈ members, m.1 ≠ bytes "attributes" →
    objGet m.1 (otlpNormalizeObject duck members [] depth) = some (ownValue duck depth m)) ∧
  ∀ r ∈ otlpNormalizeObject duck members [] depth,
    (∃ m ∈ ownFields members, m.1 = r.1 ∧ ownValue duck depth m = r.2) ∨
      r.1 ∉ members.map Prod.fst

/-- No attribute of a member's name stands before the own fields of that name,
unless its value is the same, and own fields of one key have one value. -/
structure AttributesLast (members : List (Bytes × Json)) (depth : Nat) : Prop where
  repeats : ∀ m ∈ ownFields members, ∀ n ∈ ownFields members,
    m.1 = n.1 → m.1 ≠ bytes "attributes" → ownValue duck depth m = ownValue duck depth n
  attributes : ∀ key ∈ members.map Prod.fst, ∀ v,
    (attributesBefore duck depth key members).head? = some v →
      ∃ m ∈ ownFields members, m.1 = key ∧ ownValue duck depth m = v

theorem mem_ownFields_of_ne {members : List (Bytes × Json)} {m : Bytes × Json} (hm : m ∈ members)
    (hne : m.1 ≠ bytes "attributes") : m ∈ ownFields members := by
  rw [ownFields, List.mem_filter]
  exact ⟨hm, by simp [isSpread, hne]⟩

variable {duck}

/-- A value that an own field of the key has, wherever the rebuilt object has the
key. -/
theorem AttributesLast.own_of_objGet {members : List (Bytes × Json)} {depth : Nat}
    (h : AttributesLast duck members depth) {key : Bytes} (hkey : key ∈ members.map Prod.fst)
    {v : Json} (hv : objGet key (otlpNormalizeObject duck members [] depth) = some v) :
    ∃ m ∈ ownFields members, m.1 = key ∧ ownValue duck depth m = v := by
  rw [objGet_otlpNormalizeObject] at hv
  cases hb : (attributesBefore duck depth key members).head? with
  | some u =>
      rw [hb, Option.some_or, Option.some.injEq] at hv
      subst hv
      exact h.attributes key hkey u hb
  | none =>
      rw [hb, Option.none_or, Option.map_eq_some_iff] at hv
      obtain ⟨m, hm, rfl⟩ := hv
      have hk := List.find?_some hm
      exact ⟨m, List.mem_of_find?_eq_some hm, by simpa using hk, rfl⟩

/-- The key of an own field is there in the rebuilt object. -/
theorem objGet_isSome_of_own {members : List (Bytes × Json)} {m : Bytes × Json}
    (hm : m ∈ ownFields members) (depth : Nat) :
    ∃ v, objGet m.1 (otlpNormalizeObject duck members [] depth) = some v := by
  rw [objGet_otlpNormalizeObject]
  cases (attributesBefore duck depth m.1 members).head? with
  | some u => exact ⟨u, by rw [Option.some_or]⟩
  | none =>
      rw [Option.none_or]
      cases hf : (ownFields members).find? fun n => n.1 = m.1 with
      | some n => exact ⟨ownValue duck depth n, by rw [Option.map_some]⟩
      | none =>
          have hno := List.find?_eq_none.mp hf m hm
          simp at hno

/-- Own fields win exactly when no attribute that collides with one comes first. -/
theorem otlpNormalizeObject_ownFieldsWin_iff (members : List (Bytes × Json)) (depth : Nat) :
    OwnFieldsWin duck members depth ↔ AttributesLast duck members depth := by
  constructor
  · intro ⟨hpresent, honly⟩
    constructor
    · intro m hm n hn hk hne
      have hvm := hpresent m (List.mem_of_mem_filter hm) hne
      have hvn := hpresent n (List.mem_of_mem_filter hn) (hk ▸ hne)
      rw [← hk, hvm, Option.some.injEq] at hvn
      exact hvn
    · intro key hkey v hv
      have hget : objGet key (otlpNormalizeObject duck members [] depth) = some v := by
        rw [objGet_otlpNormalizeObject, hv, Option.some_or]
      cases honly (key, v) (mem_of_objGet hget) with
      | inl hown => exact hown
      | inr hnot => exact absurd hkey hnot
  · intro h
    constructor
    · intro m hm hne
      have hown := mem_ownFields_of_ne hm hne
      obtain ⟨v, hv⟩ := @objGet_isSome_of_own duck members m hown depth
      obtain ⟨n, hn, hk, hvn⟩ := h.own_of_objGet (List.mem_map_of_mem hm) hv
      rw [hv, ← hvn, h.repeats m hown n hn hk.symm hne]
    · intro r hr
      have hget := (objGet_eq_some_iff (nodup_otlpNormalizeObject duck depth members)).mpr hr
      by_cases hkey : r.1 ∈ members.map Prod.fst
      · exact Or.inl (h.own_of_objGet hkey hget)
      · exact Or.inr hkey

/-- `{"attributes":[{"key":"a","value":{"stringValue":"x"}}],"a":"y"}`. -/
def attributeFirst : List (Bytes × Json) :=
  [(bytes "attributes", .arr [.obj [(bytes "key", .str (bytes "a")),
      (bytes "value", .obj [(bytes "stringValue", .str (bytes "x"))])]]),
    (bytes "a", .str (bytes "y"))]

/-- The attribute stands first, and the field's value is lost. -/
theorem otlpNormalizeObject_losesField : ¬OwnFieldsWin smallDuck attributeFirst 1 := by
  intro ⟨hpresent, _⟩
  have hwon : objGet (bytes "a") (otlpNormalizeObject smallDuck attributeFirst [] 1) =
      some (ownValue smallDuck 1 (bytes "a", .str (bytes "y"))) :=
    hpresent (bytes "a", .str (bytes "y")) (by simp [attributeFirst]) (by decide)
  have hx : objGet (bytes "a") (otlpNormalizeObject smallDuck attributeFirst [] 1) =
      some (.str (bytes "x")) := by rfl
  have hy : ownValue smallDuck 1 (bytes "a", .str (bytes "y")) = .str (bytes "y") := by rfl
  rw [hx, hy, Option.some.injEq, Json.str.injEq] at hwon
  exact absurd hwon (by decide)

end RawDuck
