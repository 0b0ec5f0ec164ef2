import RawDuck.Ingestor

/-!
# RawDuck.Fit

What a column type holds, from the inferred tree down to the cell.

* `holds` — the values `FillVector` has a branch for, type by type;
* `Covers.holds_nodeToType` — the type of a node holds what the node covers;
* `Joined.holds` — a widened type holds what the incoming type held;
* `fillCell_of_holds` — a value the type holds becomes NULL exactly when it is
  absent, at every level of a list (`NullsMatch`).

Together (`rawIngestParsedPayload_nulls`): a payload that went through its
schema step loses no value to the "does not fit" branches of `FillVector`.
-/

namespace RawDuck

open Fallible LogicalType

/-! ## what a type holds -/

/-- Every date text is a timestamp text. -/
def DatesAreTimestamps (duck : Duck) : Prop :=
  ∀ s, acceptsDate duck s = true → (duck.tryConvertTimestamp s).isSome = true

/-- yyjson writes every value without NaN and infinity. -/
def WritesFinite (duck : Duck) : Prop :=
  ∀ v : Json, v.isFinite = true → (duck.valWrite v).isSome = true

/-- What a column of a type without children holds. -/
def holdsScalar (duck : Duck) (type : LogicalType) (val : Json) : Bool :=
  isRawJSONType type || match type, val with
    | _, .null => true
    | .plain .boolean _, .bool _ => true
    | .plain .bigint _, .sint _ => true
    | .plain .bigint _, .uint n => n ≤ 9223372036854775807
    | .plain .double _, .sint _ | .plain .double _, .uint _ | .plain .double _, .real _ => true
    | .plain .date _, .str s => acceptsDate duck s
    | .plain .timestamp _, .str s => (duck.tryConvertTimestamp s).isSome
    | .plain .varchar _, _ => true
    | _, _ => false

/-- What a column of a type holds: a list column holds arrays of what its child
type holds. -/
def holds (duck : Duck) : LogicalType → Json → Bool
  | .plain id a, val => holdsScalar duck (.plain id a) val
  | .list c, .arr elements => elements.all fun e => holds duck c e
  | .list _, val => val.isNull

variable {duck : Duck}

@[simp] theorem holds_null (type : LogicalType) : holds duck type .null = true := by
  cases type with
  | plain id a => cases id <;> simp [holds, holdsScalar]
  | list c => rfl

@[simp] theorem holds_json (val : Json) : holds duck JSON val = true := by
  simp [holds, holdsScalar]

theorem holds_varchar (val : Json) : holds duck VARCHAR val = true := by
  cases val <;> simp [holds, holdsScalar]

theorem holds_list {c : LogicalType} {elements : List Json} :
    holds duck (.list c) (.arr elements) = true ↔ ∀ e ∈ elements, holds duck c e = true := by
  simp [holds]

/-- A list column holds nulls and arrays only. -/
theorem holds_list_cases {c : LogicalType} {val : Json} (h : holds duck (.list c) val = true) :
    val = .null ∨ ∃ elements, val = .arr elements ∧ ∀ e ∈ elements, holds duck c e = true := by
  cases val with
  | arr elements => exact .inr ⟨elements, rfl, holds_list.mp h⟩
  | null => exact .inl rfl
  | _ => simp [holds, Json.isNull] at h

/-! ## the type of a node -/

theorem sniffString_cases (duck : Duck) (s : Bytes) :
    (sniffString duck s = .date ∧ acceptsDate duck s = true) ∨
      (sniffString duck s = .timestamp ∧ (duck.tryConvertTimestamp s).isSome = true) ∨
      sniffString duck s = .varchar := by
  unfold sniffString
  split
  · exact .inr (.inr rfl)
  · split
    · next hdate => exact .inl ⟨rfl, hdate⟩
    · split
      · next hts => exact .inr (.inl ⟨rfl, hts⟩)
      · exact .inr (.inr rfl)

/-- A kind that has absorbed another is that kind, the top of its family, or
`varchar`. -/
theorem joinScalarKinds_eq_left {kind k : RawScalarKind} (h : joinScalarKinds kind k = kind)
    (hk : k ≠ .unset) :
    kind = k ∨ (kind = .double ∧ k.isNumeric = true) ∨ (kind = .timestamp ∧ k.isTemporal = true) ∨
      kind = .varchar := by
  cases kind <;> cases k <;> simp_all [joinScalarKinds, RawScalarKind.isNumeric,
    RawScalarKind.isTemporal]

theorem holds_double {val : Json} (h : (sniffScalarKind duck val).isNumeric = true) :
    holds duck DOUBLE val = true := by
  cases val with
  | bool b => contradiction
  | str s =>
      rw [sniffScalarKind] at h
      rcases sniffString_cases duck s with ⟨hk, -⟩ | ⟨hk, -⟩ | hk <;> rw [hk] at h <;>
        contradiction
  | uint n => rfl
  | sint n => rfl
  | real d => rfl
  | _ => contradiction

theorem holds_timestamp (hdates : DatesAreTimestamps duck) {val : Json}
    (h : (sniffScalarKind duck val).isTemporal = true) : holds duck TIMESTAMP val = true := by
  cases val with
  | str s =>
      rw [sniffScalarKind] at h
      have hts : (duck.tryConvertTimestamp s).isSome = true := by
        rcases sniffString_cases duck s with ⟨-, hd⟩ | ⟨-, hts⟩ | hk
        · exact hdates s hd
        · exact hts
        · rw [hk] at h
          contradiction
      simpa [holds, holdsScalar, isRawJSONType] using hts
  | uint n =>
      rw [sniffScalarKind] at h
      split at h <;> contradiction
  | _ => contradiction

/-- The type of a value's own kind holds it. -/
theorem holds_sniffScalarKind {val : Json} (hs : val.isScalar = true) :
    holds duck (scalarKindToType (sniffScalarKind duck val)) val = true := by
  cases val with
  | bool b => rfl
  | real d => rfl
  | sint n => rfl
  | uint n =>
      rw [sniffScalarKind]
      split
      · rfl
      · next hle => simpa [scalarKindToType, holds, holdsScalar, isRawJSONType] using hle
  | str s =>
      rw [sniffScalarKind]
      rcases sniffString_cases duck s with ⟨hk, hd⟩ | ⟨hk, hts⟩ | hk
      · rw [hk]
        simpa [scalarKindToType, holds, holdsScalar, isRawJSONType] using hd
      · rw [hk]
        simpa [scalarKindToType, holds, holdsScalar, isRawJSONType] using hts
      · rw [hk]
        exact holds_varchar _
  | _ => contradiction

/-- The type of a scalar kind holds the values whose kind it has absorbed. -/
theorem holds_scalarKindToType (hdates : DatesAreTimestamps duck) {kind : RawScalarKind}
    {val : Json} (hs : val.isScalar = true)
    (h : joinScalarKinds kind (sniffScalarKind duck val) = kind) :
    holds duck (scalarKindToType kind) val = true := by
  rcases joinScalarKinds_eq_left h (sniffScalarKind_ne_unset val) with hk | ⟨rfl, hn⟩ | ⟨rfl, ht⟩ |
    rfl
  · rw [hk]
    exact holds_sniffScalarKind hs
  · exact holds_double hn
  · exact holds_timestamp hdates ht
  · exact holds_varchar _

/-- **The type of a node holds what the node covers.** -/
theorem Covers.holds_nodeToType (hdates : DatesAreTimestamps duck) {node : RawNode} {val : Json}
    (h : Covers duck node val) : holds duck (nodeToType node) val = true := by
  induction node using RawNode.induct generalizing val with
  | unset => rw [h.eq_null]; exact holds_null _
  | scalar kind =>
      cases h with
      | null => exact holds_null _
      | scalar hs hk => exact holds_scalarKindToType hdates hs hk
  | object children childLookup _ => exact holds_json _
  | json => exact holds_json _
  | array element ih =>
      cases h with
      | null => exact holds_null _
      | array hall =>
          -- an array of objects is kept whole, any other is a list
          cases element with
          | object => exact holds_json _
          | json => exact holds_json _
          | unset => exact holds_list.mpr fun e he => ih (hall e he)
          | scalar kind => exact holds_list.mpr fun e he => ih (hall e he)
          | array element => exact holds_list.mpr fun e he => ih (hall e he)

/-- What a node covers, its descendants cover along the keys. -/
theorem Covers.reached {node child : RawNode} {val : Json} {rel : NodeRef} {keys : List Bytes}
    (h : Covers duck node val) (hchild : nodeAt node rel = some child)
    (hkeys : keysAt node rel = some keys) : ∀ v ∈ Json.reached keys val, Covers duck child v := by
  induction rel generalizing node val keys with
  | nil =>
      simp only [nodeAt_nil, keysAt_nil, Option.some.injEq] at hchild hkeys
      subst hchild hkeys
      intro v hv
      rw [Json.reached_nil, List.mem_singleton] at hv
      exact hv ▸ h
  | cons i rel ih =>
      cases node with
      | object children childLookup =>
          rw [keysAt_object_cons] at hkeys
          obtain ⟨⟨key, next⟩, hi, hkeys⟩ := Option.bind_eq_some_iff.mp hkeys
          obtain ⟨rest, hrest, rfl⟩ := Option.map_eq_some_iff.mp hkeys
          rw [nodeAt_object_cons, hi] at hchild
          intro v hv
          cases val with
          | obj members =>
              rw [Json.reached_cons_obj, List.mem_flatMap] at hv
              obtain ⟨m, hm, hv⟩ := hv
              split at hv
              · next hkey =>
                cases h with
                | object _ hall =>
                    exact ih (hall m hm _ (List.mem_of_getElem? hi) hkey.symm) hchild hrest v hv
              · exact nomatch hv
          | _ =>
              rw [Json.reached_cons_of_not_obj rfl] at hv
              exact nomatch hv
      | _ => simp [keysAt] at hkeys

/-- The column of a payload holds what the payload's rows have at its path. -/
theorem ProcessedPayload.holds_valueAt (p : ProcessedPayload duck)
    (hdates : DatesAreTimestamps duck) {c : RawColumn} (hc : c ∈ p.columns) {row val : Json}
    (hrow : row ∈ p.payload.rows) (hval : row.valueAt c.path = some val) :
    holds duck c.type val = true := by
  obtain ⟨keys, hat⟩ := columnAt_flattenSchema p.columns_eq hc
  obtain ⟨node, hnode, htype⟩ := Option.map_eq_some_iff.mp hat.type_eq
  have hcovers : Covers duck p.root row := p.root_eq ▸ covers_inferSchema p.payload.rows hrow
  have hpath : c.path = keys := by simpa using hat.path_eq
  rw [hpath] at hval
  rw [← htype]
  exact (hcovers.reached hnode hat.keys_eq val (List.mem_of_getLast? hval)).holds_nodeToType hdates

/-! ## widening -/

/-- The types a column can have after it is joined with an inferable type: the
incoming type, the top of its family, a text type, or a list of such. -/
inductive Joined : LogicalType → LogicalType → Prop where
  | incoming (i : LogicalType) : Joined i i
  | double {i : LogicalType} : isNumericType i = true → Joined i DOUBLE
  | timestamp {i : LogicalType} : isTemporalType i = true → Joined i TIMESTAMP
  | varchar (i : LogicalType) : Joined i VARCHAR
  | json (i : LogicalType) : Joined i JSON
  | list {i r : LogicalType} : Joined i r → Joined (.list i) (.list r)

theorem joined_joinColumnTypes {e i : LogicalType} (he : Inferable e) (hi : Inferable i) :
    Joined i (joinColumnTypes e i) := by
  induction he generalizing i with
  | list _ ih =>
      rcases hi.shape with ⟨t, rfl, ht⟩ | rfl | ⟨hs, -, j, rfl⟩
      · rw [joinColumnTypes_list]
        exact .list (ih ht)
      · rw [joinColumnTypes_json_right]
        exact .json _
      · rw [joinColumnTypes_list_plain _ (.inl hs)]
        exact .json _
  | _ =>
      cases hi with
      | list hi =>
          rw [joinColumnTypes_plain_list]
          exact .json _
      | _ =>
          first
          | exact .varchar _
          | exact .incoming _
          | exact .json _
          | exact .double rfl
          | exact .timestamp rfl

theorem Joined.inferable {i r : LogicalType} (h : Joined i r) (hi : Inferable i) :
    Inferable r := by
  induction h with
  | incoming i => exact hi
  | double _ => exact .double
  | timestamp _ => exact .timestamp
  | varchar i => exact .varchar
  | json i => exact .json
  | list _ ih =>
      cases hi with
      | list hi => exact (ih hi).list

theorem holds_double_of_isNumericType {i : LogicalType} (hi : Inferable i)
    (hn : isNumericType i = true) {val : Json} (h : holds duck i val = true) :
    holds duck DOUBLE val = true := by
  cases hi with
  | bigint =>
      cases val <;> first | rfl | exact absurd h (by simp [holds, holdsScalar, isRawJSONType])
  | double => exact h
  | _ => contradiction

theorem holds_timestamp_of_isTemporalType (hdates : DatesAreTimestamps duck) {i : LogicalType}
    (hi : Inferable i) (ht : isTemporalType i = true) {val : Json} (h : holds duck i val = true) :
    holds duck TIMESTAMP val = true := by
  cases hi with
  | date =>
      cases val with
      | null => rfl
      | str s =>
          simp only [holds, holdsScalar, isRawJSONType, Bool.false_or] at h ⊢
          exact hdates s h
      | _ => simp [holds, holdsScalar, isRawJSONType] at h
  | timestamp => exact h
  | _ => contradiction

/-- **A widened type holds what the incoming type held.** -/
theorem Joined.holds (hdates : DatesAreTimestamps duck) {i r : LogicalType} (hjoin : Joined i r)
    (hi : Inferable i) {val : Json} (h : holds duck i val = true) : holds duck r val = true := by
  induction hjoin generalizing val with
  | incoming i => exact h
  | double hn => exact holds_double_of_isNumericType hi hn h
  | timestamp ht => exact holds_timestamp_of_isTemporalType hdates hi ht h
  | varchar i => exact holds_varchar val
  | json i => exact holds_json val
  | list _ ih =>
      cases hi with
      | list hi =>
          rcases holds_list_cases h with rfl | ⟨elements, rfl, hall⟩
          · exact holds_null _
          · exact holds_list.mpr fun e he => ih hi (hall e he)

/-! ## cells -/

/-- There is no value, or a JSON null. -/
def isAbsent : Option Json → Bool
  | none | some .null => true
  | some _ => false

/-- The cell is NULL exactly when the value is absent, and in a list column so
is every element, at every level. -/
def NullsMatch : LogicalType → Option Json → Cell → Prop
  | .plain _ _, val, cell => cell = .null ↔ isAbsent val = true
  | .list c, val, cell => (cell = .null ↔ isAbsent val = true) ∧
      (isAbsent val = false → ∃ elements cells, val = some (.arr elements) ∧ cell = .list cells ∧
        List.Forall₂ (fun e x => NullsMatch c (some e) x) elements cells)

theorem nullsMatch_absent (type : LogicalType) {val : Option Json} (h : isAbsent val = true) :
    NullsMatch type val .null := by
  cases type with
  | plain id a => simp [NullsMatch, h]
  | list c => simp [NullsMatch, h]

theorem nullsMatch_present {id : LogicalTypeId} {a : Bytes} {val : Option Json} {cell : Cell}
    (h : isAbsent val = false) (hcell : cell ≠ .null) : NullsMatch (.plain id a) val cell := by
  simp [NullsMatch, h, hcell]

theorem fillCell_absent (type : LogicalType) {val : Option Json} (h : isAbsent val = true) :
    fillCell duck type val = .ok .null := by
  have hval : val = none ∨ val = some .null := by
    cases val with
    | none => exact .inl rfl
    | some v =>
        cases v with
        | null => exact .inr rfl
        | _ => exact nomatch h
  cases type with
  | plain id a =>
      rw [fillCell]
      rcases hval with rfl | rfl
      · cases hj : isRawJSONType (.plain id a) <;> cases id <;> simp [fillScalar, hj]
      · cases hj : isRawJSONType (.plain id a) <;> cases id <;> simp [fillScalar, hj]
  | list c =>
      rcases hval with rfl | rfl
      · rfl
      · rfl

theorem writeJSONString_of_finite (hwrite : WritesFinite duck) {val : Json}
    (hfinite : val.isFinite = true) : ∃ text, writeJSONString duck val = .ok text := by
  obtain ⟨text, htext⟩ := Option.isSome_iff_exists.mp (hwrite val hfinite)
  exact ⟨text, by rw [writeJSONString, htext]⟩

/-- A value that a column without children holds is written, and not as NULL. -/
theorem fillScalar_of_holds (hwrite : WritesFinite duck) {id : LogicalTypeId} {a : Bytes}
    {val : Json} (hfinite : val.isFinite = true) (h : holdsScalar duck (.plain id a) val = true)
    (hnull : isAbsent (some val) = false) :
    ∃ cell, fillScalar duck (.plain id a) (some val) = .ok cell ∧ cell ≠ .null := by
  obtain ⟨text, htext⟩ := writeJSONString_of_finite hwrite hfinite
  cases hj : isRawJSONType (.plain id a) with
  | true =>
      refine ⟨.varchar text, ?_, by simp⟩
      cases val with
      | null => exact nomatch hnull
      | _ => simp only [fillScalar, hj, if_true, htext]; rfl
  | false =>
      simp only [holdsScalar, hj, Bool.false_or] at h
      cases id with
      | boolean =>
          cases val with
          | bool b => exact ⟨.bool b, by simp [fillScalar, hj], by simp⟩
          | null => exact nomatch hnull
          | _ => exact nomatch h
      | bigint =>
          cases val with
          | uint n => exact ⟨.bigint n.toInt64, by simp [fillScalar, hj], by simp⟩
          | sint n => exact ⟨.bigint n, by simp [fillScalar, hj], by simp⟩
          | null => exact nomatch hnull
          | _ => exact nomatch h
      | double =>
          cases val with
          | uint n => exact ⟨.double (duck.uintToDouble n), by simp [fillScalar, hj], by simp⟩
          | sint n => exact ⟨.double (duck.sintToDouble n), by simp [fillScalar, hj], by simp⟩
          | real d => exact ⟨.double d, by simp [fillScalar, hj], by simp⟩
          | null => exact nomatch hnull
          | _ => exact nomatch h
      | date =>
          cases val with
          | str s =>
              cases hd : duck.tryConvertDate s with
              | none => simp [acceptsDate, hd] at h
              | some result =>
                  obtain ⟨date, pos, special⟩ := result
                  exact ⟨.date date, by simp [fillScalar, hj, hd], by simp⟩
          | null => exact nomatch hnull
          | _ => exact nomatch h
      | timestamp =>
          cases val with
          | str s =>
              obtain ⟨ts, hts⟩ := Option.isSome_iff_exists.mp h
              exact ⟨.timestamp ts, by simp [fillScalar, hj, hts], by simp⟩
          | null => exact nomatch hnull
          | _ => exact nomatch h
      | varchar =>
          cases val with
          | str s => exact ⟨.varchar s, by simp [fillScalar, hj], by simp⟩
          | null => exact nomatch hnull
          | _ => exact ⟨.varchar text, by simp only [fillScalar, hj, htext]; rfl, by simp⟩
      | _ =>
          cases val with
          | null => exact nomatch hnull
          | _ => exact nomatch h

/-- **A value the type holds is written**, as NULL exactly when it is absent, at
every level. -/
theorem fillCell_of_holds (hwrite : WritesFinite duck) (type : LogicalType) {val : Json}
    (hfinite : val.isFinite = true) (h : holds duck type val = true) :
    ∃ cell, fillCell duck type (some val) = .ok cell ∧ NullsMatch type (some val) cell := by
  induction type generalizing val with
  | plain id a =>
      cases hnull : isAbsent (some val) with
      | true => exact ⟨.null, fillCell_absent _ hnull, nullsMatch_absent _ hnull⟩
      | false =>
          obtain ⟨cell, hcell, hne⟩ := fillScalar_of_holds hwrite hfinite h hnull
          exact ⟨cell, hcell, nullsMatch_present hnull hne⟩
  | list c ih =>
      rcases holds_list_cases h with rfl | ⟨elements, rfl, hall⟩
      · exact ⟨.null, fillCell_absent _ rfl, nullsMatch_absent _ rfl⟩
      · rw [Json.isFinite, Json.elementsFinite_iff] at hfinite
        obtain ⟨cells, hcells⟩ := exists_mapM_eq_ok (fun e => fillCell duck c (some e)) elements
          fun e he => by
            obtain ⟨cell, hcell, -⟩ := ih (hfinite e he) (hall e he)
            exact ⟨cell, hcell⟩
        have hmatch : List.Forall₂ (fun e x => NullsMatch c (some e) x) elements cells := by
          have hpair := mapM_eq_ok.mp hcells
          refine List.forall₂_iff_get.mpr ⟨hpair.length_eq, fun i hi hi' => ?_⟩
          have hmem := List.get_mem elements ⟨i, hi⟩
          obtain ⟨cell, hcell, hnulls⟩ := ih (hfinite _ hmem) (hall _ hmem)
          have hget := (List.forall₂_iff_get.mp hpair).2 i hi hi'
          rw [hcell] at hget
          exact Except.ok.inj hget ▸ hnulls
        refine ⟨.list cells, bind_eq_ok.mpr ⟨cells, hcells, rfl⟩, ?_⟩
        simp only [NullsMatch, isAbsent]
        exact ⟨by simp, fun _ => ⟨elements, cells, rfl, rfl, hmatch⟩⟩

/-- The same for a value that may be missing, as the append writes it. -/
theorem writeCell_of_holds (hwrite : WritesFinite duck) {type : LogicalType}
    (htype : Inferable type) (column : RawColumn) {val : Option Json}
    (h : ∀ v, val = some v → v.isFinite = true ∧ holds duck type v = true) :
    ∃ cell, writeCell duck type column val = .ok cell ∧ NullsMatch type val cell := by
  rw [writeCell, if_pos htype.rawFillSupported]
  cases val with
  | none => exact ⟨.null, fillCell_absent _ rfl, nullsMatch_absent _ rfl⟩
  | some v => exact fillCell_of_holds hwrite type (h v rfl).1 (h v rfl).2

/-! ## the whole path -/

theorem reached_isFinite {path : List Bytes} {row v : Json} (hrow : row.isFinite = true)
    (hv : v ∈ Json.reached path row) : v.isFinite = true := by
  induction path generalizing row with
  | nil =>
      rw [Json.reached_nil, List.mem_singleton] at hv
      exact hv ▸ hrow
  | cons key path ih =>
      cases row with
      | obj members =>
          rw [Json.reached_cons_obj, List.mem_flatMap] at hv
          obtain ⟨m, hm, hv⟩ := hv
          rw [Json.isFinite, Json.membersFinite_iff] at hrow
          split at hv
          · exact ih (hrow m hm) hv
          · exact nomatch hv
      | _ =>
          rw [Json.reached_cons_of_not_obj rfl] at hv
          exact nomatch hv

/-- The columns after the schema step hold what the payload has for them. -/
theorem ProcessedPayload.holds_evolved (p : ProcessedPayload duck)
    (hdates : DatesAreTimestamps duck) {existing : List Column}
    (htypes : ∀ e ∈ existing, Inferable e.type) {c : RawColumn} (hc : c ∈ p.columns) :
    ∃ e, findColumn (evolvedColumns existing p.columns) c.name = some e ∧ Inferable e.type ∧
      ∀ v, holds duck c.type v = true → holds duck e.type v = true := by
  have hi := p.inferable hc
  rw [findColumn_evolvedColumns]
  cases he : findColumn existing c.name with
  | none => exact ⟨_, findColumn_addedColumns p.ciDistinct hc he rfl, hi, fun _ h => h⟩
  | some e =>
      obtain ⟨hmem, hname⟩ := findColumn_some he
      refine ⟨_, rfl, ?_⟩
      rw [evolvedColumn_of_mem p.ciDistinct hc hname]
      have hjoin := joined_joinColumnTypes (htypes e hmem) hi
      exact ⟨hjoin.inferable hi, fun v hv => hjoin.holds hdates hi hv⟩

/-- What a row becomes in a column of its payload, once the table's column
holds what the payload has for it. -/
theorem ProcessedPayload.cellVia_nulls (p : ProcessedPayload duck)
    (hdates : DatesAreTimestamps duck) (hwrite : WritesFinite duck) {c : RawColumn}
    (hc : c ∈ p.columns) {row : Json} (hrow : row ∈ p.payload.rows) (hfinite : row.isFinite = true)
    {type : LogicalType} (htype : Inferable type)
    (hholds : ∀ v, holds duck c.type v = true → holds duck type v = true) :
    ∃ cell, cellVia duck p.toRawParsedPayload c.name type row = .ok cell ∧
      NullsMatch type (row.valueAt c.path) cell := by
  obtain ⟨j, hj⟩ := List.getElem?_of_mem hc
  rw [cellVia_of_mem rfl p.ciDistinct hj rfl, p.extractRow_eq row hj]
  refine writeCell_of_holds hwrite htype c fun v hv => ⟨?_, ?_⟩
  · exact reached_isFinite hfinite (List.mem_of_getLast? hv)
  · exact hholds v (p.holds_valueAt hdates hc hrow hv)

/-- **No value is lost on the schema-delta path**: a payload that is ingested
through its schema step leaves NULL exactly where its rows have no value or a
JSON null, in every covered column and at every level of a list. -/
theorem rawIngestParsedPayload_nulls (env : NativeEnv) (p : ProcessedPayload env.duck)
    (hdates : DatesAreTimestamps env.duck) (hwrite : WritesFinite env.duck)
    (hfinite : ∀ row ∈ p.payload.rows, row.isFinite = true) (db db' : Db)
    (stats : RawIngestStats) {token : Nat} {t : Table} (htable : db.table = some (token, t))
    (hwf : t.WF)
    (htypes : ∀ e ∈ t.columns, Inferable e.type)
    (hmiss : ∀ shape, hashPayloadShape env.duck p.columns = .ok shape →
      isAbsorbed db.cache token shape = false)
    (h : rawIngestParsedPayload env p.toRawParsedPayload db = .ok stats db') :
    ∃ token' t', db'.table = some (token', t') ∧
      ∀ k row, p.payload.rows[k]? = some row → ∀ c ∈ p.columns, ∃ e cell,
        findColumn t'.columns c.name = some e ∧
        t'.cellAt (t.rows.length + k) c.name = some cell ∧
        NullsMatch e.type (row.valueAt c.path) cell := by
  have hdbwf : db.WF := by
    intro token' t' ht'
    cases htable.symm.trans ht'
    exact hwf
  cases rawIngestParsedPayload_ok hdbwf p.ciDistinct p.rows_ne_nil h with
  | skipped hcols _ =>
      refine ⟨token, t, htable, fun k row _ c hc => ?_⟩
      rw [hcols] at hc
      exact nomatch hc
  | @appended ready created added widened token' table layout new hcols houtcome hready htwf _
      hlayout hnew =>
      refine ⟨token', _, rfl, fun k row hk c hc => ?_⟩
      cases houtcome with
      | created hnone _ =>
          rw [htable] at hnone
          exact nomatch hnone
      | absorbed htable' hshape hhit =>
          cases htable.symm.trans htable'
          rw [hmiss _ hshape] at hhit
          exact nomatch hhit
      | evolved htable' _ _ hevolve htoken =>
          cases htable.symm.trans htable'
          cases hready
          have hspec := evolveNative_spec hwf.names p.ciDistinct hevolve
          obtain ⟨e, he, hinferable, hholds⟩ := p.holds_evolved hdates htypes hc
          rw [← hspec.columns_eq] at he
          obtain ⟨cell, hvia, hcell⟩ := cellAt_append htwf p.ciDistinct hlayout hnew he hk
          have hrow := List.mem_of_getElem? hk
          obtain ⟨cell', hvia', hnulls⟩ := p.cellVia_nulls hdates hwrite hc hrow
            (hfinite row hrow) hinferable hholds
          rw [hvia] at hvia'
          obtain rfl := Except.ok.inj hvia'
          rw [hspec.length_eq] at hcell
          exact ⟨e, cell, he, hcell, hnulls⟩

theorem datesAreTimestamps_smallDuck : DatesAreTimestamps smallDuck :=
  fun _ h => nomatch h

theorem isSome_smallElements (es : List Json) :
    (smallElements es).isSome = es.all fun e => (smallWrite e).isSome := by
  induction es with
  | nil => rfl
  | cons e es ih => cases he : smallWrite e <;> simp [smallElements, he, ih]

theorem isSome_smallMembers (ms : List (Bytes × Json)) :
    (smallMembers ms).isSome = ms.all fun m => (smallWrite m.2).isSome := by
  induction ms with
  | nil => rfl
  | cons m ms ih => cases hm : smallWrite m.2 <;> simp [smallMembers, hm, ih]

/-- A text is written exactly of the values without NaN and infinity. -/
theorem isSome_smallWrite (v : Json) : (smallWrite v).isSome = v.isFinite := by
  induction v using Json.induct with
  | bool b => cases b <;> simp [smallWrite, Json.isFinite]
  | real d => cases hd : d.isFinite <;> simp [smallWrite, Json.isFinite, hd]
  | arr es ih =>
      rw [smallWrite, Option.isSome_map, isSome_smallElements, Json.isFinite, Bool.eq_iff_iff,
        Json.elementsFinite_iff, List.all_eq_true]
      exact forall₂_congr fun e he => by rw [ih e he]
  | obj ms ih =>
      rw [smallWrite, Option.isSome_map, isSome_smallMembers, Json.isFinite, Bool.eq_iff_iff,
        Json.membersFinite_iff, List.all_eq_true]
      exact forall₂_congr fun m hm => by rw [ih m hm]
  | _ => simp [smallWrite, Json.isFinite]

theorem writesFinite_smallDuck : WritesFinite smallDuck :=
  fun v h => (isSome_smallWrite v).trans h

/-- `{"a": "x", "b": [1, null]}` and `{"a": null}`. -/
def nullsPayload : ProcessedPayload smallDuck :=
  .ofRows smallDuck
    [.obj [(bytes "a", .str (bytes "x")), (bytes "b", .arr [.uint 1, .null])],
     .obj [(bytes "a", .null)]]
    [{ name := bytes "a", path := [bytes "a"], type := VARCHAR, node := [0] },
     { name := bytes "b", path := [bytes "b"], type := .list BIGINT, node := [1] }] rfl rfl

/-- A table with a row, whose column `a` is a number. -/
def numbersTable : Table where
  columns := [{ name := bytes "a", type := BIGINT, generated := false }]
  rows := [[.bigint 7]]
  hasIndexes := false
  constraints := []

theorem wf_numbersTable : numbersTable.WF := ⟨by decide, by simp [numbersTable]⟩

/-- The database that holds it. -/
def numbersDb : Db := { table := some (0, numbersTable), nextToken := 1, cache := none }

/-- The column is widened and another one added; the nulls are those of the
payload. -/
theorem rawIngestParsedPayload_nulls_small :
    ∃ stats db', rawIngestParsedPayload smallEnv nullsPayload.toRawParsedPayload numbersDb =
        .ok stats db' ∧
      ∃ token' t', db'.table = some (token', t') ∧
        ∀ k row, nullsPayload.payload.rows[k]? = some row → ∀ c ∈ nullsPayload.columns, ∃ e cell,
          findColumn t'.columns c.name = some e ∧
          t'.cellAt (numbersTable.rows.length + k) c.name = some cell ∧
          NullsMatch e.type (row.valueAt c.path) cell := by
  have htypes : ∀ e ∈ numbersTable.columns, Inferable e.type := by
    intro e he
    obtain rfl := List.mem_singleton.mp he
    exact .bigint
  have hnulls := fun db' stats => rawIngestParsedPayload_nulls smallEnv nullsPayload
    datesAreTimestamps_smallDuck writesFinite_smallDuck (by decide) numbersDb db' stats
    (t := numbersTable) rfl wf_numbersTable htypes fun _ _ => rfl
  exact ⟨_, _, rfl, hnulls _ _ rfl⟩

end RawDuck
