import RawDuck.Descent
import RawDuck.Documents
import RawDuck.Gather
import RawDuck.Nesting

/-!
# RawDuck.LeftAlone

The rows that a transform leaves as they are.  Exploding along a path makes lighter rows
of an object that has the first key of the path, and OTLP normalization makes no value
heavier, so that the rows of a payload are what was read only where each of them is
left alone.

* `weight_explodeInto_lt` — the rows below an object are lighter than it;
* `weight_otlpNormalizeRow_le` — what normalization leaves of a row;
* `explodedRows_eq_self_iff` — the rows stay exactly where each is `LeftAlone`.
-/

namespace RawDuck

/-! ## weights -/

mutual
/-- How many values and keys a value has; texts and numbers count alike. -/
def Json.weight : Json → Nat
  | .arr elements => 1 + elementsWeight elements
  | .obj members => 1 + membersWeight members
  | _ => 1

def elementsWeight : List Json → Nat
  | [] => 0
  | element :: elements => element.weight + elementsWeight elements

def membersWeight : List (Bytes × Json) → Nat
  | [] => 0
  | (_, value) :: members => 1 + value.weight + membersWeight members
end

theorem membersWeight_append (members members' : List (Bytes × Json)) :
    membersWeight (members ++ members') = membersWeight members + membersWeight members' := by
  induction members with
  | nil => simp [membersWeight]
  | cons m members ih =>
      simp only [List.cons_append, membersWeight, ih]
      omega

theorem weight_le_of_mem {elements : List Json} {element : Json} (h : element ∈ elements) :
    element.weight ≤ elementsWeight elements := by
  induction elements with
  | nil => exact nomatch h
  | cons e elements ih =>
      rw [elementsWeight]
      rcases List.mem_cons.mp h with rfl | h
      · omega
      · have hrest := ih h
        omega

theorem membersWeight_filter_le (p : Bytes × Json → Bool) (members : List (Bytes × Json)) :
    membersWeight (members.filter p) ≤ membersWeight members := by
  induction members with
  | nil => exact Nat.le_refl _
  | cons m members ih =>
      rw [List.filter_cons, membersWeight]
      split
      · rw [membersWeight]
        omega
      · omega

theorem membersWeight_addMember_le (object : List (Bytes × Json)) (key : Bytes) (value : Json) :
    membersWeight (addMember object key value) ≤ membersWeight object + (1 + value.weight) := by
  rw [addMember]
  split
  · omega
  · rw [membersWeight_append, membersWeight, membersWeight]
    omega

theorem membersWeight_addMembers_le (object members : List (Bytes × Json)) :
    membersWeight (addMembers object members) ≤ membersWeight object + membersWeight members := by
  induction members generalizing object with
  | nil => exact Nat.le_add_right _ _
  | cons m members ih =>
      obtain ⟨key, value⟩ := m
      have hone := membersWeight_addMember_le object key value
      have hrest := ih (addMember object key value)
      rw [addMembers_cons, membersWeight]
      exact hrest.trans (by omega)

theorem weight_lt_of_objGet {key : Bytes} {members : List (Bytes × Json)} {value : Json}
    (h : objGet key members = some value) : value.weight < membersWeight members := by
  induction members with
  | nil => exact nomatch h
  | cons m members ih =>
      obtain ⟨k, v⟩ := m
      rw [objGet_cons] at h
      rw [membersWeight]
      split at h
      · obtain rfl := Option.some.inj h
        dsimp only
        omega
      · have hrest := ih h
        omega

/-- A member without its key is lighter than the object it is in. -/
theorem weight_lt_of_memberOf {key : Bytes} {object value : Json}
    (h : memberOf key object = some value) : 1 + value.weight < object.weight := by
  cases object with
  | obj members =>
      have hlt := weight_lt_of_objGet (show objGet key members = some value from h)
      rw [Json.weight]
      omega
  | _ => exact nomatch h

/-! ## normalizing -/

section

variable {duck : Duck}

/-- Normalizing does not make the value heavier, wherever it stands. -/
def NoHeavier (duck : Duck) (value : Json) : Prop :=
  ∀ key depth, (otlpNormalizeValue duck value key depth).weight ≤ value.weight

theorem membersWeight_filterMap_le {f : Json → Option (Bytes × Json)} {elements : List Json}
    (h : ∀ element ∈ elements, ∀ m, f element = some m → 1 + m.2.weight ≤ element.weight) :
    membersWeight (elements.filterMap f) ≤ elementsWeight elements := by
  induction elements with
  | nil => exact Nat.le_refl _
  | cons element elements ih =>
      have hrest := ih fun e he => h e (List.mem_cons_of_mem _ he)
      rw [elementsWeight]
      cases hone : f element with
      | none =>
          rw [List.filterMap_cons_none hone]
          omega
      | some m =>
          have hle := h element List.mem_cons_self m hone
          rw [List.filterMap_cons_some hone, membersWeight]
          omega

/-- An attribute is lighter than its element. -/
theorem weight_attributeMember_lt {depth : Nat} {element : Json} {m : Bytes × Json}
    (hlighter : ∀ v : Json, v.weight < element.weight → NoHeavier duck v)
    (h : attributeMember duck depth element = some m) : 1 + m.2.weight < element.weight := by
  rw [attributeMember, otlpNormalizeMember_eq] at h
  cases hname : keyValueName element with
  | none => simp [hname] at h
  | some name =>
      cases hvalue : memberOf (bytes "value") element with
      | none => simp [hname, hvalue] at h
      | some value =>
          simp only [hname, hvalue, Option.map_some, Option.some.injEq] at h
          subst h
          have hlt := weight_lt_of_memberOf hvalue
          have hle := hlighter value (by omega) [] (depth + 1)
          dsimp only
          omega

theorem membersWeight_attributes_le {depth : Nat} {elements : List Json}
    (hlighter : ∀ v : Json, v.weight < 1 + elementsWeight elements → NoHeavier duck v) :
    membersWeight (elements.filterMap (attributeMember duck depth)) ≤
      elementsWeight elements := by
  refine membersWeight_filterMap_le fun element helement m hm => ?_
  have hle := weight_le_of_mem helement
  exact (weight_attributeMember_lt (fun v hv => hlighter v (by omega)) hm).le

/-- What the members of an object contribute is no heavier than they are. -/
theorem membersWeight_contributed_le {depth : Nat} {members : List (Bytes × Json)}
    (hlighter : ∀ v : Json, v.weight < 1 + membersWeight members → NoHeavier duck v) :
    membersWeight (members.flatMap (contributed duck depth)) ≤ membersWeight members := by
  induction members with
  | nil => exact Nat.le_refl _
  | cons m members ih =>
      obtain ⟨key, value⟩ := m
      rw [membersWeight] at hlighter ⊢
      have hrest := ih fun v hv => hlighter v (by omega)
      have hone : membersWeight (contributed duck depth (key, value)) ≤ 1 + value.weight := by
        rw [contributed]
        split
        · cases value with
          | arr elements =>
              rw [Json.weight] at hlighter ⊢
              have hle := @membersWeight_attributes_le duck depth elements
                fun v hv => hlighter v (by omega)
              rw [attributeMembers]
              omega
          | _ => exact Nat.zero_le _
        · have hle := hlighter value (by omega) key (depth + 1)
          rw [membersWeight, membersWeight, ownValue]
          dsimp only
          omega
      rw [List.flatMap_cons, membersWeight_append]
      omega

theorem membersWeight_otlpNormalizeObject_le {depth : Nat} {members : List (Bytes × Json)}
    (hlighter : ∀ v : Json, v.weight < 1 + membersWeight members → NoHeavier duck v) :
    membersWeight (otlpNormalizeObject duck members [] depth) ≤ membersWeight members := by
  rw [otlpNormalizeObject_eq]
  refine (membersWeight_addMembers_le _ _).trans ?_
  rw [membersWeight, Nat.zero_add]
  exact membersWeight_contributed_le hlighter

theorem otlpKeyValues_eq_filterMap (elements : List Json) (depth : Nat) :
    otlpKeyValues duck elements depth = elements.filterMap (attributeMember duck depth) := by
  rw [otlpKeyValues_eq, List.map_flatMap, List.filterMap_eq_flatMap_toList]
  simp only [attributeMember_eq]

theorem elementsWeight_map_le {f : Json → Json} {elements : List Json}
    (h : ∀ element ∈ elements, (f element).weight ≤ element.weight) :
    elementsWeight (elements.map f) ≤ elementsWeight elements := by
  induction elements with
  | nil => exact Nat.le_refl _
  | cons element elements ih =>
      have hone := h element List.mem_cons_self
      have hrest := ih fun e he => h e (List.mem_cons_of_mem _ he)
      rw [List.map_cons, elementsWeight, elementsWeight]
      omega

theorem elementsWeight_otlpElements_le {depth : Nat} {elements : List Json}
    (hlighter : ∀ v : Json, v.weight < 1 + elementsWeight elements → NoHeavier duck v) :
    elementsWeight (otlpElements duck elements depth) ≤ elementsWeight elements := by
  rw [otlpElements_eq]
  refine elementsWeight_map_le fun element helement => ?_
  have hle := weight_le_of_mem helement
  exact hlighter element (by omega) [] (depth + 1)

theorem weight_otlpIntValue_le (duck : Duck) (inner : Json) :
    (otlpIntValue duck inner).weight ≤ inner.weight := by
  cases inner with
  | str str =>
      unfold otlpIntValue
      dsimp only
      split
      · exact Nat.le_refl _
      · exact Nat.le_refl _
  | _ => exact Nat.le_refl _

/-- An unwrapped value is lighter than its wrapper. -/
theorem weight_otlpUnwrapAnyValue_le {members : List (Bytes × Json)} {unwrapped : Json}
    (hlighter : ∀ v : Json, v.weight < 1 + membersWeight members → NoHeavier duck v)
    (h : otlpUnwrapAnyValue duck members = some unwrapped) :
    unwrapped.weight ≤ membersWeight members := by
  rcases members with _ | ⟨⟨name, inner⟩, _ | ⟨m, members⟩⟩
  · cases h
  · rw [membersWeight, membersWeight] at hlighter ⊢
    rw [otlpUnwrapAnyValue] at h
    split at h
    · obtain rfl := Option.some.inj h
      omega
    · split at h
      · obtain rfl := Option.some.inj h
        have hle := weight_otlpIntValue_le duck inner
        omega
      · split at h
        · rw [otlpNormalizeMember_eq, Option.map_eq_some_iff] at h
          obtain ⟨value, hvalue, rfl⟩ := h
          have hlt := weight_lt_of_memberOf hvalue
          have hle := hlighter value (by omega) [] 0
          omega
        · cases h
  · cases h

theorem weight_otlpNormalizeString (key str : Bytes) :
    (otlpNormalizeString duck key str).weight = 1 := by
  unfold otlpNormalizeString
  dsimp only
  split
  · split
    · rfl
    · split
      · split
        · rfl
        · rfl
      · rfl
  · split
    · split
      · rfl
      · rfl
    · rfl

/-- **Normalizing** makes no value heavier. -/
theorem noHeavier (duck : Duck) (value : Json) : NoHeavier duck value := by
  induction hn : value.weight using Nat.strong_induction_on generalizing value with
  | _ n ih =>
    subst hn
    have hlighter : ∀ v : Json, v.weight < value.weight → NoHeavier duck v :=
      fun v hv => ih v.weight hv v rfl
    intro key depth
    cases value with
    | obj members =>
        rw [Json.weight] at hlighter
        rw [otlpNormalizeValue]
        split
        · exact Nat.le_refl _
        · split
          · next hunwrap =>
            have hle := weight_otlpUnwrapAnyValue_le hlighter hunwrap
            rw [Json.weight]
            omega
          · have hle := @membersWeight_otlpNormalizeObject_le duck (depth + 1) members hlighter
            rw [Json.weight, Json.weight]
            omega
    | arr elements =>
        rw [Json.weight] at hlighter
        rw [otlpNormalizeValue]
        split
        · exact Nat.le_refl _
        · split
          · have hle := @membersWeight_attributes_le duck depth elements hlighter
            rw [otlpKeyValues_eq_filterMap, Json.weight, Json.weight]
            omega
          · have hle := @elementsWeight_otlpElements_le duck depth elements hlighter
            rw [Json.weight, Json.weight]
            omega
    | str str =>
        rw [otlpNormalizeValue]
        split
        · exact Nat.le_refl _
        · exact (weight_otlpNormalizeString key str).le
    | _ => exact Nat.le_refl _

/-- Normalizing meets a row, or the values of a wrapper that is one, that is a KeyValue
array: what is left of it is up to yyjson. -/
inductive MeetsKeyValues : Json → Prop where
  | row {elements : List Json} : otlpIsKeyValueArray (.arr elements) = true →
      MeetsKeyValues (.arr elements)
  | wrapped {row values : Json} : wrappedValues row = some values → MeetsKeyValues values →
      MeetsKeyValues row

/-- What is left of the first member of a key when its value becomes no heavier. -/
theorem membersWeight_otlpFirstLeft_le {members : List (Bytes × Json)}
    (h : ∀ values, objGet (bytes "values") members = some values →
      (otlpNormalizeRow duck values).weight ≤ values.weight) :
    membersWeight (otlpFirstLeft duck members) ≤ membersWeight members := by
  induction members with
  | nil => exact Nat.le_refl _
  | cons m members ih =>
      obtain ⟨key, value⟩ := m
      rw [otlpFirstLeft]
      split
      · next hkey =>
        have hle := h value (by rw [objGet_cons, if_pos hkey])
        rw [membersWeight, membersWeight]
        omega
      · next hkey =>
        have hrest := ih fun values hvalues => h values (by rwa [objGet_cons, if_neg hkey])
        rw [membersWeight, membersWeight]
        omega

/-- What is left in a wrapper when its values become no heavier. -/
theorem membersWeight_otlpUnwrappedLeft_le {members : List (Bytes × Json)}
    (h : ∀ values, wrappedValues (.obj members) = some values →
      (otlpNormalizeRow duck values).weight ≤ values.weight) :
    membersWeight (otlpUnwrappedLeft duck members) ≤ membersWeight members := by
  match members with
  | [] => exact Nat.le_refl _
  | _ :: _ :: _ => exact Nat.le_refl _
  | [(name, inner)] =>
      rw [otlpUnwrappedLeft]
      split
      · next hlist =>
        cases inner with
        | obj members =>
            have hle := @membersWeight_otlpFirstLeft_le duck members fun values hvalues =>
              h values (by rw [wrappedValues, if_pos hlist]; exact hvalues)
            simp only [otlpListLeft, membersWeight, Json.weight]
            omega
        | _ => exact Nat.le_refl _
      · exact Nat.le_refl _

theorem weight_lt_of_wrappedValues {row values : Json} (h : wrappedValues row = some values) :
    values.weight < row.weight := by
  unfold wrappedValues at h
  split at h
  · next name inner =>
    split at h
    · have hlt := weight_lt_of_memberOf h
      rw [Json.weight, membersWeight]
      omega
    · exact nomatch h
  · exact nomatch h

/-- **Normalizing a row** leaves no more than was there, unless it meets a KeyValue array in
the place of a row. -/
theorem weight_otlpNormalizeRow_le {row : Json} (h : ¬ MeetsKeyValues row) :
    (otlpNormalizeRow duck row).weight ≤ row.weight := by
  induction hn : row.weight using Nat.strong_induction_on generalizing row with
  | _ n ih =>
    subst hn
    cases row with
    | obj members =>
        rw [otlpNormalizeRow]
        split
        · have hle := @membersWeight_otlpUnwrappedLeft_le duck members fun values hvalues =>
            ih values.weight (weight_lt_of_wrappedValues hvalues)
              (fun hmeets => h (.wrapped hvalues hmeets)) rfl
          rw [Json.weight, Json.weight]
          omega
        · have hle := @membersWeight_otlpNormalizeObject_le duck 1 members
            fun v _ => noHeavier duck v
          rw [Json.weight, Json.weight]
          omega
    | arr elements =>
        have hne : ¬ otlpIsKeyValueArray (.arr elements) = true := fun hkv => h (.row hkv)
        have hle := @elementsWeight_otlpElements_le duck 0 elements fun v _ => noHeavier duck v
        rw [otlpNormalizeRow, if_neg hne, Json.weight, Json.weight]
        omega
    | _ => exact Nat.le_refl _

end

/-! ## exploding -/

/-- What a row can get from its envelopes. -/
def envelopesWeight (envelopes : List RawExplodeEnvelope) : Nat :=
  (envelopes.map fun envelope => membersWeight
    (envelope.object.filter fun m => some envelope.descendedKey ≠ some m.1)).sum

theorem envelopesWeight_cons (envelope : RawExplodeEnvelope)
    (envelopes : List RawExplodeEnvelope) :
    envelopesWeight (envelope :: envelopes) = membersWeight
      (envelope.object.filter fun m => some envelope.descendedKey ≠ some m.1) +
        envelopesWeight envelopes := by
  rw [envelopesWeight, List.map_cons, List.sum_cons, ← envelopesWeight]

theorem weight_emitMergedRow_le (leaf : Json) (envelopes : List RawExplodeEnvelope) :
    (emitMergedRow leaf envelopes).weight ≤ leaf.weight + envelopesWeight envelopes := by
  cases leaf with
  | obj fields =>
      have hfold : ∀ merged : List (Bytes × Json),
          membersWeight (envelopes.foldl (fun merged envelope =>
            addObjectFields merged envelope.object (some envelope.descendedKey)) merged) ≤
            membersWeight merged + envelopesWeight envelopes := by
        induction envelopes with
        | nil =>
            intro merged
            exact Nat.le_add_right _ _
        | cons envelope envelopes ih =>
            intro merged
            have hone := membersWeight_addMembers_le merged
              (envelope.object.filter fun m => some envelope.descendedKey ≠ some m.1)
            rw [List.foldl_cons, addObjectFields_eq, envelopesWeight_cons]
            exact (ih _).trans (by omega)
      have hown : membersWeight (addObjectFields [] fields none) ≤ membersWeight fields := by
        rw [addObjectFields_eq]
        refine (membersWeight_addMembers_le _ _).trans ?_
        rw [membersWeight, Nat.zero_add]
        exact membersWeight_filter_le _ _
      have hall := hfold (addObjectFields [] fields none)
      rw [emitMergedRow, Json.weight, Json.weight]
      omega
  | _ => exact Nat.le_add_right _ _

/-- Descending drops the member that is descended into. -/
theorem membersWeight_left_lt {segment : Bytes} {members : List (Bytes × Json)} {child : Json}
    (h : objGet segment members = some child) :
    membersWeight (members.filter fun m => some segment ≠ some m.1) + child.weight <
      membersWeight members := by
  induction members with
  | nil => exact nomatch h
  | cons m members ih =>
      obtain ⟨key, value⟩ := m
      rw [objGet_cons] at h
      by_cases hkey : key = segment
      · rw [if_pos hkey] at h
        obtain rfl := Option.some.inj h
        have hrest := membersWeight_filter_le (fun m => some segment ≠ some m.1) members
        rw [List.filter_cons_of_neg (by simp [hkey]), membersWeight]
        dsimp only
        omega
      · rw [if_neg hkey] at h
        have hrest := ih h
        rw [List.filter_cons_of_pos (by simp [Ne.symm hkey]), membersWeight, membersWeight]
        omega

/-- Rows from below an object are lighter than it and what they can get, when those of
its child are no heavier than that. -/
theorem weight_below_lt {segment : Bytes} {path : List Bytes} {members : List (Bytes × Json)}
    {child : Json} (hget : objGet segment members = some child)
    (hchild : ∀ {envelopes node row}, row ∈ explodeInto path envelopes node →
      row.weight ≤ node.weight + envelopesWeight envelopes)
    {envelopes : List RawExplodeEnvelope} {row : Json}
    (h : row ∈ explodeInto (segment :: path) envelopes (.obj members)) :
    row.weight < (Json.obj members).weight + envelopesWeight envelopes := by
  have hdropped := membersWeight_left_lt hget
  have hdeeper : envelopesWeight (⟨members, segment⟩ :: envelopes) =
      membersWeight (members.filter fun m => some segment ≠ some m.1) +
        envelopesWeight envelopes := envelopesWeight_cons ..
  rw [explodeInto, hget] at h
  rw [Json.weight]
  cases child with
  | arr elements =>
      obtain ⟨element, helement, hrow⟩ := List.mem_flatMap.mp h
      have hle := weight_le_of_mem helement
      have hrow := hchild hrow
      rw [Json.weight] at hdropped
      omega
  | _ =>
      have hrow := hchild h
      omega

/-- A row is no heavier than its node and what it can get. -/
theorem weight_explodeInto_le {path : List Bytes} {envelopes : List RawExplodeEnvelope}
    {node row : Json} (h : row ∈ explodeInto path envelopes node) :
    row.weight ≤ node.weight + envelopesWeight envelopes := by
  induction path generalizing envelopes node row with
  | nil =>
      rw [List.mem_singleton.mp h]
      exact weight_emitMergedRow_le node envelopes
  | cons segment path ih =>
      cases node with
      | obj members =>
          cases hget : objGet segment members with
          | none =>
              rw [explodeInto, hget] at h
              rw [List.mem_singleton.mp h]
              exact weight_emitMergedRow_le _ envelopes
          | some child => exact (weight_below_lt hget ih h).le
      | _ =>
          rw [List.mem_singleton.mp h]
          exact weight_emitMergedRow_le _ envelopes

/-- **Exploding** an object that has the first key of the path gives lighter rows. -/
theorem weight_explodeInto_lt {segment : Bytes} {path : List Bytes}
    {members : List (Bytes × Json)} {child row : Json} (hget : objGet segment members = some child)
    (h : row ∈ explodeInto (segment :: path) [] (.obj members)) :
    row.weight < (Json.obj members).weight :=
  weight_below_lt hget weight_explodeInto_le h

/-! ## rows that stay -/

section

variable (duck : Duck) (options : RawParseOptions)

/-- The transform leaves a row as it is: without a path every row; along a path an object
that does not have the first key of it and no key twice, and any other value.  OTLP
semantics must have nothing to rewrite in it either. -/
def LeftAlone (row : Json) : Prop :=
  ∀ segment rest, options.explodePath = segment :: rest →
    (∀ members, row = .obj members →
      objGet segment members = none ∧ (members.map Prod.fst).Nodup) ∧
    (options.otlp = true → otlpNormalizeRow duck row = row)

/-- Under OTLP semantics, none of the rows of a value is or wraps a KeyValue array, which
yyjson would leave in a state of its own. -/
def RowsKnown (row : Json) : Prop :=
  options.otlp = true → ∀ r ∈ explodeInto options.explodePath [] row, ¬ MeetsKeyValues r

variable {duck} {options} {row : Json}

theorem addMembers_of_nodup {members : List (Bytes × Json)}
    (h : (members.map Prod.fst).Nodup) : addMembers [] members = members := by
  suffices hsuffix : ∀ object, ((object ++ members).map Prod.fst).Nodup →
      addMembers object members = object ++ members from hsuffix [] h
  clear h
  induction members with
  | nil => simp
  | cons m members ih =>
      intro object hnodup
      have hnew : objGet m.1 object = none := by
        refine objGet_eq_none_iff.mpr fun hmem => ?_
        rw [List.map_append, List.nodup_append] at hnodup
        exact hnodup.2.2 _ hmem _ (List.mem_map_of_mem List.mem_cons_self) rfl
      have hadd : addMember object m.1 m.2 = object ++ [m] := by
        rw [addMember, hnew]
        rfl
      rw [addMembers_cons, hadd, ih, List.append_assoc, List.singleton_append]
      rwa [List.append_assoc, List.singleton_append]

/-- The row of an object that is not descended into: the first member of each key. -/
theorem emitMergedRow_obj_nil (members : List (Bytes × Json)) :
    emitMergedRow (.obj members) [] = .obj (addMembers [] members) := by
  have hall : (members.filter fun m => none ≠ some m.1) = members := by simp
  rw [emitMergedRow, List.foldl_nil, addObjectFields_eq, hall]

/-- The members of a normalized object have different keys, and so have those of a wrapper
that was one. -/
theorem nodup_otlpNormalizeRow {members members' : List (Bytes × Json)}
    (h : otlpNormalizeRow duck (.obj members) = .obj members') :
    (members'.map Prod.fst).Nodup := by
  rw [otlpNormalizeRow] at h
  split at h
  · next hunwrap =>
    obtain rfl := Json.obj.inj h
    rcases members with _ | ⟨⟨name, inner⟩, _ | ⟨m, members⟩⟩
    · cases hunwrap
    · rw [otlpUnwrappedLeft]
      split
      · exact List.nodup_singleton name
      · exact List.nodup_singleton name
    · cases hunwrap
  · obtain rfl := Json.obj.inj h
    exact nodup_otlpNormalizeObject duck 1 members

/-- What the options make of one row. -/
theorem explodedRows_singleton (hpath : options.explodePath ≠ []) (row : Json) :
    explodedRows duck options [row] = if options.otlp then
      (explodeInto options.explodePath [] row).map (otlpNormalizeRow duck)
    else explodeInto options.explodePath [] row := by
  have hne : options.explodePath.isEmpty = false := by simpa using hpath
  rw [explodedRows, hne, explode, List.flatMap_singleton]
  rfl

/-- A value without the first key of the path is one row. -/
theorem explodeInto_of_absent {segment : Bytes} {path : List Bytes}
    (h : ∀ members, row = .obj members → objGet segment members = none) :
    explodeInto (segment :: path) [] row = [emitMergedRow row []] := by
  cases row with
  | obj members => rw [explodeInto, h members rfl]
  | _ => rfl

/-- A row that comes out is no heavier than one that was exploded. -/
theorem exists_heavier (hpath : options.explodePath ≠ []) (hknown : RowsKnown options row)
    {r : Json} (h : r ∈ explodedRows duck options [row]) :
    ∃ exploded ∈ explodeInto options.explodePath [] row, r.weight ≤ exploded.weight := by
  rw [explodedRows_singleton hpath] at h
  split at h
  · next hotlp =>
    obtain ⟨exploded, hmem, rfl⟩ := List.mem_map.mp h
    exact ⟨exploded, hmem, weight_otlpNormalizeRow_le (hknown hotlp exploded hmem)⟩
  · exact ⟨r, h, Nat.le_refl _⟩

/-- **A row** becomes one row that is no heavier, or, below the first key of the path, rows
that are lighter. -/
theorem explodedRows_lighter (hknown : RowsKnown options row) :
    (∃ r, explodedRows duck options [row] = [r] ∧ r.weight ≤ row.weight) ∨
      ∀ r ∈ explodedRows duck options [row], r.weight < row.weight := by
  cases hpath : options.explodePath with
  | nil => exact .inl ⟨row, by simp [explodedRows, hpath], Nat.le_refl _⟩
  | cons segment path =>
      have hne : options.explodePath ≠ [] := by
        rw [hpath]
        exact List.cons_ne_nil _ _
      by_cases habsent : ∀ members, row = .obj members → objGet segment members = none
      · have hone := @explodeInto_of_absent _ _ path habsent
        have hle := weight_emitMergedRow_le row []
        rw [← hpath] at hone
        obtain ⟨r, hr⟩ : ∃ r, explodedRows duck options [row] = [r] := by
          rw [explodedRows_singleton hne, hone]
          split
          · exact ⟨_, rfl⟩
          · exact ⟨_, rfl⟩
        obtain ⟨exploded, hmem, hheavier⟩ := @exists_heavier duck _ _ hne hknown r
          (by rw [hr]; exact List.mem_singleton_self r)
        rw [hone, List.mem_singleton] at hmem
        subst hmem
        exact .inl ⟨r, hr, hheavier.trans hle⟩
      · push Not at habsent
        obtain ⟨members, rfl, hchild⟩ := habsent
        obtain ⟨child, hget⟩ := Option.ne_none_iff_exists'.mp hchild
        refine .inr fun r hr => ?_
        obtain ⟨exploded, hmem, hheavier⟩ := exists_heavier hne hknown hr
        rw [hpath] at hmem
        exact hheavier.trans_lt (weight_explodeInto_lt hget hmem)

/-- What is left alone stays. -/
theorem LeftAlone.explodedRows_eq (h : LeftAlone duck options row) :
    explodedRows duck options [row] = [row] := by
  cases hpath : options.explodePath with
  | nil => simp [explodedRows, hpath]
  | cons segment path =>
      obtain ⟨habsent, hnormal⟩ := h segment path hpath
      have hsame : emitMergedRow row [] = row := by
        cases row with
        | obj members => rw [emitMergedRow_obj_nil, addMembers_of_nodup (habsent members rfl).2]
        | _ => rfl
      have hone : explodeInto options.explodePath [] row = [row] := by
        rw [hpath, explodeInto_of_absent fun members hrow => (habsent members hrow).1, hsame]
      rw [explodedRows_singleton (by rw [hpath]; exact List.cons_ne_nil _ _), hone]
      split
      · next hotlp => rw [List.map_singleton, hnormal hotlp]
      · rfl

/-- **One row** stays exactly when it is left alone. -/
theorem explodedRows_singleton_iff (hknown : RowsKnown options row) :
    explodedRows duck options [row] = [row] ↔ LeftAlone duck options row := by
  refine ⟨fun hsame segment path hpath => ?_, LeftAlone.explodedRows_eq⟩
  have hne : options.explodePath ≠ [] := by
    rw [hpath]
    exact List.cons_ne_nil _ _
  -- below the first key of the path there are lighter rows only
  have habsent : ∀ members, row = .obj members → objGet segment members = none := by
    rintro members rfl
    by_contra hchild
    obtain ⟨child, hget⟩ := Option.ne_none_iff_exists'.mp hchild
    obtain ⟨exploded, hmem, hheavier⟩ := @exists_heavier duck _ _ hne hknown
      (.obj members) (by rw [hsame]; exact List.mem_singleton_self _)
    rw [hpath] at hmem
    exact Nat.lt_irrefl _ (hheavier.trans_lt (weight_explodeInto_lt hget hmem))
  rw [explodedRows_singleton hne, hpath, explodeInto_of_absent habsent] at hsame
  cases hotlp : options.otlp with
  | false =>
      simp only [hotlp, Bool.false_eq_true, if_false, List.cons.injEq, and_true] at hsame
      refine ⟨fun members hrow => ⟨habsent members hrow, ?_⟩, fun h => absurd h (by decide)⟩
      subst hrow
      rw [emitMergedRow_obj_nil] at hsame
      rw [← Json.obj.inj hsame]
      exact nodup_addMembers (by simp) _
  | true =>
      simp only [hotlp, if_true, List.map_singleton, List.cons.injEq, and_true] at hsame
      have hnodup : ∀ members, row = .obj members → (members.map Prod.fst).Nodup := by
        rintro members rfl
        rw [emitMergedRow_obj_nil] at hsame
        exact nodup_otlpNormalizeRow hsame
      refine ⟨fun members hrow => ⟨habsent members hrow, hnodup members hrow⟩, fun _ => ?_⟩
      cases row with
      | obj members =>
          rwa [emitMergedRow_obj_nil, addMembers_of_nodup (hnodup members rfl)] at hsame
      | _ => exact hsame

/-- The rows of rows are those of each. -/
theorem explodedRows_eq_flatMap (duck : Duck) (options : RawParseOptions) (rows : List Json) :
    explodedRows duck options rows = rows.flatMap fun row => explodedRows duck options [row] := by
  induction rows with
  | nil => simp [explodedRows, explode]
  | cons row rows ih =>
      rw [List.flatMap_cons, ← ih, ← explodedRows_append, List.singleton_append]

/-- **The rows** stay exactly where each is left alone. -/
theorem explodedRows_eq_self_iff {rows : List Json}
    (hknown : ∀ row ∈ rows, RowsKnown options row) :
    explodedRows duck options rows = rows ↔ ∀ row ∈ rows, LeftAlone duck options row := by
  rw [explodedRows_eq_flatMap,
    Gather.flatMap_eq_self_iff fun row hrow => explodedRows_lighter (hknown row hrow)]
  exact forall₂_congr fun row hrow => explodedRows_singleton_iff (hknown row hrow)

end

end RawDuck
