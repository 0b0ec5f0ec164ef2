import RawDuck.TypeLattice

/-!
# RawDuck.ColumnRewrite

Whether `EvolveNative` can rewrite what a table holds.  A widened column is rewritten
by `to_json` where its new type is `JSON`, and by a cast otherwise, which converts the
elements of a list one by one and never comes to `to_json` there.

* `CellOf` — the values a column of a type can hold;
* `CastRules` — what the code relies on of DuckDB's conversions;
* `rewriteMayFail` — the pairs of types with a value that is not converted;
* `evolveNative_rewrites_iff` — exactly these pairs fail, and a table without one of
  them evolves, whatever it holds.
-/

namespace RawDuck

open Fallible LogicalType

/-! ## values of a type -/

/-- A day count of a `DATE`; the two outermost are its infinities. -/
def isDate (days : Int) : Prop := -2147483647 ≤ days ∧ days ≤ 2147483647

/-- The value of a column of this type, for the types RawDuck infers. -/
inductive CellOf : LogicalType → Cell → Prop
  | null {t : LogicalType} : CellOf t .null
  | bool {b : Bool} : CellOf BOOLEAN (.bool b)
  | bigint {n : Int64} : CellOf BIGINT (.bigint n)
  | double {d : Double} : CellOf DOUBLE (.double d)
  | date {days : Int} : isDate days → CellOf DATE (.date days)
  | timestamp {micros : Int} : CellOf TIMESTAMP (.timestamp micros)
  | varchar {s : Bytes} : CellOf VARCHAR (.varchar s)
  | json {s : Bytes} : CellOf JSON (.varchar s)
  | list {t : LogicalType} {cells : List Cell} : (∀ c ∈ cells, CellOf t c) →
      CellOf (.list t) (.list cells)

/-- The dates a `TIMESTAMP` holds the midnight of; a timestamp counts microseconds in
64 bits. -/
def inTimestampRange (days : Int) : Prop :=
  -106751991 ≤ days ∧ days ≤ 106751991 ∨ days = -2147483647 ∨ days = 2147483647

/-! ## conversions -/

/-- The conversion has a result. -/
def Converts (f : Cell → Except RawError Cell) (v : Cell) : Prop := ∃ w, f v = .ok w

/-- What the code relies on of `to_json` and of casts between the types RawDuck
infers; `validJson` says which texts are JSON for DuckDB. -/
structure CastRules (duck : Duck) (validJson : Bytes → Bool) : Prop where
  toJson : ∀ t v, CellOf t v → Converts (duck.toJson t) v
  null : ∀ s t, Converts (duck.cast s t) .null
  list : ∀ s t cells, Converts (duck.cast (.list s) (.list t)) (.list cells) ↔
    ∀ c ∈ cells, Converts (duck.cast s t) c
  varcharJson : ∀ s, Converts (duck.cast VARCHAR JSON) (.varchar s) ↔ validJson s = true
  /-- A bare word is not JSON. -/
  bareWord : validJson (bytes "x") = false
  json : ∀ t v, t ≠ VARCHAR → CellOf t v → Converts (duck.cast t JSON) v
  varchar : ∀ t v, t ∈ scalarTypes → CellOf t v → Converts (duck.cast t VARCHAR) v
  double : ∀ v, CellOf BIGINT v → Converts (duck.cast BIGINT DOUBLE) v
  timestamp : ∀ days, Converts (duck.cast DATE TIMESTAMP) (.date days) ↔ inTimestampRange days

/-- An incoming type that takes a scalar column to `JSON`. -/
def leadsToJson : LogicalType → Bool
  | .list _ => true
  | t => isRawJSONType t

/-- The cast of an element of type `e`, which meets an element of type `i`, may fail:
strings are read as JSON, or dates become timestamps. -/
def elementMayFail : LogicalType → LogicalType → Bool
  | .list e, .list i => elementMayFail e i
  | e, i => decide (e = VARCHAR) && leadsToJson i || decide (e = DATE) && decide (i = TIMESTAMP)

/-- The rewrite of a column of type `e`, which meets a payload's column of type `i`, may
fail. -/
def rewriteMayFail : LogicalType → LogicalType → Bool
  | .list e, .list i => elementMayFail e i
  | e, i => decide (e = DATE) && decide (i = TIMESTAMP)

/-- Every value of the type is converted. -/
def ConvertsAll (f : Cell → Except RawError Cell) (t : LogicalType) : Prop :=
  ∀ v, CellOf t v → Converts f v

section Rules

variable {duck : Duck} {validJson : Bytes → Bool} {e i : LogicalType}

/-- Elements are converted one by one. -/
theorem CastRules.convertsAll_list (rules : CastRules duck validJson) (s t : LogicalType) :
    ConvertsAll (duck.cast (.list s) (.list t)) (.list s) ↔ ConvertsAll (duck.cast s t) s := by
  constructor
  · intro h v hv
    have hsingle : CellOf (.list s) (.list [v]) := .list (by simpa using hv)
    exact (rules.list s t [v]).mp (h _ hsingle) v (List.mem_singleton.mpr rfl)
  · intro h v hv
    cases hv with
    | null => exact rules.null _ _
    | list hcells => exact (rules.list s t _).mpr fun c hc => h c (hcells c hc)

/-- Casts to `JSON` read strings as JSON text. -/
theorem CastRules.convertsAll_json (rules : CastRules duck validJson) (t : LogicalType) :
    ConvertsAll (duck.cast t JSON) t ↔ t ≠ VARCHAR := by
  constructor
  · rintro h rfl
    have hword := (rules.varcharJson _).mp (h (.varchar (bytes "x")) .varchar)
    rw [rules.bareWord] at hword
    exact nomatch hword
  · intro h v hv
    exact rules.json t v h hv

theorem CastRules.convertsAll_timestamp (rules : CastRules duck validJson) :
    ¬ ConvertsAll (duck.cast DATE TIMESTAMP) DATE := by
  intro h
  have hdate : isDate 200000000 := by
    unfold isDate
    omega
  have hrange := (rules.timestamp _).mp (h (.date 200000000) (.date hdate))
  unfold inTimestampRange at hrange
  omega

/-- What becomes of a scalar type that is widened by another one. -/
theorem join_scalar_cases : ∀ e ∈ scalarTypes, ∀ i ∈ scalarTypes,
    joinColumnTypes e i = e ∨ joinColumnTypes e i = VARCHAR ∧ ¬ (e = DATE ∧ i = TIMESTAMP) ∨
      e = BIGINT ∧ joinColumnTypes e i = DOUBLE ∨
      e = DATE ∧ i = TIMESTAMP ∧ joinColumnTypes e i = TIMESTAMP := by decide

theorem leadsToJson_of_scalar : ∀ i ∈ scalarTypes, leadsToJson i = false := by decide

/-- The cast of a widened scalar type. -/
theorem CastRules.convertsAll_scalar (rules : CastRules duck validJson) (he : e ∈ scalarTypes)
    (hi : i ∈ scalarTypes) (hne : joinColumnTypes e i ≠ e) :
    ConvertsAll (duck.cast e (joinColumnTypes e i)) e ↔ ¬ (e = DATE ∧ i = TIMESTAMP) := by
  obtain heq | ⟨heq, hdate⟩ | ⟨rfl, heq⟩ | ⟨rfl, rfl, heq⟩ := join_scalar_cases e he i hi
  · exact absurd heq hne
  · rw [heq]
    exact iff_of_true (fun v hv => rules.varchar e v he hv) hdate
  · rw [heq]
    exact iff_of_true rules.double nofun
  · rw [heq]
    exact iff_of_false rules.convertsAll_timestamp fun h => h ⟨rfl, rfl⟩

theorem elementMayFail_scalar (he : e ∈ scalarTypes) :
    elementMayFail e i = true ↔
      e = VARCHAR ∧ leadsToJson i = true ∨ e = DATE ∧ i = TIMESTAMP := by
  unfold elementMayFail
  split
  · exact absurd he (by simp [scalarTypes])
  · simp

theorem rewriteMayFail_scalar (he : e ∈ scalarTypes) :
    rewriteMayFail e i = true ↔ e = DATE ∧ i = TIMESTAMP := by
  unfold rewriteMayFail
  split
  · exact absurd he (by simp [scalarTypes])
  · simp

theorem elementMayFail_list (c : LogicalType) (hi : ∀ d, i ≠ .list d) :
    elementMayFail (.list c) i = false := by
  unfold elementMayFail
  split
  · rename_i d heq _
    exact absurd rfl (hi _)
  · simp

theorem rewriteMayFail_list (c : LogicalType) (hi : ∀ d, i ≠ .list d) :
    rewriteMayFail (.list c) i = false := by
  unfold rewriteMayFail
  split
  · exact absurd rfl (hi _)
  · simp

theorem json_ne_list (d : LogicalType) : JSON ≠ .list d := by simp

theorem scalar_ne_list (hi : i ∈ scalarTypes) (d : LogicalType) : i ≠ .list d := by
  rintro rfl
  simp [scalarTypes] at hi

/-- The cast of an element of a scalar type. -/
theorem CastRules.convertsAll_scalarElement (rules : CastRules duck validJson)
    (he : e ∈ scalarTypes) (hi : Inferable i) (hne : joinColumnTypes e i ≠ e) :
    ConvertsAll (duck.cast e (joinColumnTypes e i)) e ↔ ¬ elementMayFail e i = true := by
  rw [elementMayFail_scalar he]
  obtain hi | rfl | ⟨d, rfl, -⟩ := hi.cases_scalar
  · rw [rules.convertsAll_scalar he hi hne, leadsToJson_of_scalar i hi]
    simp
  · rw [joinColumnTypes_json_right, rules.convertsAll_json]
    simp [leadsToJson]
  · rw [join_scalar_list he, rules.convertsAll_json]
    simp [leadsToJson]

/-- The elements of a widened list. -/
theorem CastRules.convertsAll_element (rules : CastRules duck validJson) (he : Inferable e)
    (hi : Inferable i) (hne : joinColumnTypes e i ≠ e) :
    ConvertsAll (duck.cast e (joinColumnTypes e i)) e ↔ ¬ elementMayFail e i = true := by
  induction he generalizing i with
  | json => exact absurd (joinColumnTypes_json_left i) hne
  | @list c hc ih =>
      obtain hi | rfl | ⟨d, rfl, hd⟩ := hi.cases_scalar
      · rw [join_list_scalar hi, rules.convertsAll_json,
          elementMayFail_list c (scalar_ne_list hi)]
        simp
      · rw [joinColumnTypes_json_right, rules.convertsAll_json, elementMayFail_list c json_ne_list]
        simp
      · rw [joinColumnTypes_list] at hne ⊢
        rw [rules.convertsAll_list]
        exact ih hd fun heq => hne (congrArg LogicalType.list heq)
  | _ => exact rules.convertsAll_scalarElement (by decide) hi hne

/-- `to_json` takes what a cast to `JSON` would not. -/
theorem CastRules.convertsAll_toJson (rules : CastRules duck validJson) {t : LogicalType}
    (ht : t ≠ JSON) : ConvertsAll (wideningConversion duck t JSON) t := by
  intro v hv
  have hnot : isRawJSONType t = false := Bool.eq_false_iff.mpr fun h => ht (isRawJSONType_iff.mp h)
  rw [wideningConversion, hnot]
  exact rules.toJson t v hv

theorem wideningConversion_cast {t : LogicalType} (ht : t ≠ JSON) :
    wideningConversion duck e t = duck.cast e t := by
  have hnot : isRawJSONType t = false := Bool.eq_false_iff.mpr fun h => ht (isRawJSONType_iff.mp h)
  rw [wideningConversion, hnot]
  rfl

theorem scalar_ne_json : ∀ t ∈ scalarTypes, t ≠ JSON := by decide

/-- The rewrite of a widened column. -/
theorem CastRules.convertsAll_rewrite (rules : CastRules duck validJson) (he : Inferable e)
    (hi : Inferable i) (hne : joinColumnTypes e i ≠ e) :
    ConvertsAll (wideningConversion duck e (joinColumnTypes e i)) e ↔
      ¬ rewriteMayFail e i = true := by
  have hjson : e ≠ JSON := by
    rintro rfl
    exact hne (joinColumnTypes_json_left i)
  obtain he | rfl | ⟨c, rfl, hc⟩ := he.cases_scalar
  · rw [rewriteMayFail_scalar he]
    obtain hi | rfl | ⟨d, rfl, -⟩ := hi.cases_scalar
    · rw [wideningConversion_cast (scalar_ne_json _ (join_mem_scalarTypes e he i hi))]
      exact rules.convertsAll_scalar he hi hne
    · rw [joinColumnTypes_json_right]
      exact iff_of_true (rules.convertsAll_toJson hjson) fun h => by simp at h
    · rw [join_scalar_list he]
      exact iff_of_true (rules.convertsAll_toJson hjson) nofun
  · exact absurd rfl hjson
  · obtain hi | rfl | ⟨d, rfl, hd⟩ := hi.cases_scalar
    · rw [join_list_scalar hi, rewriteMayFail_list c (scalar_ne_list hi)]
      exact iff_of_true (rules.convertsAll_toJson hjson) nofun
    · rw [joinColumnTypes_json_right, rewriteMayFail_list c json_ne_list]
      exact iff_of_true (rules.convertsAll_toJson hjson) nofun
    · rw [joinColumnTypes_list] at hne ⊢
      rw [wideningConversion_cast (json_ne_list _).symm, rules.convertsAll_list]
      exact rules.convertsAll_element hc hd fun heq => hne (congrArg LogicalType.list heq)

/-! ## tables -/

/-- Every cell is a value of its column's type. -/
def Table.Typed (t : Table) : Prop :=
  ∀ cells ∈ t.rows, List.Forall₂ (fun (column : Column) v => CellOf column.type v) t.columns cells

/-- The cell of a column, in a table of which rows and columns are in order. -/
theorem Table.Typed.cellAt {t : Table} (h : t.Typed) (hwf : t.WF) {name : Bytes} {e : Column}
    (he : findColumn t.columns name = some e) {row : Nat} {v : Cell}
    (hv : t.cellAt row name = some v) : CellOf e.type v := by
  obtain ⟨j, hj, hv⟩ := Option.bind_eq_some_iff.mp hv
  obtain ⟨cells, hcells, hv⟩ := Option.bind_eq_some_iff.mp hv
  obtain ⟨e', he', hname⟩ := (columnIndex_eq_some hwf.names).mp hj
  have hsame : findColumn t.columns name = some e' :=
    (findColumn_eq_some hwf.names).mpr ⟨List.mem_of_getElem? he', hname⟩
  obtain rfl := Option.some.inj (he.symm.trans hsame)
  have htyped := h cells (List.mem_of_getElem? hcells)
  obtain ⟨hlt, hget⟩ := List.getElem?_eq_some_iff.mp he'
  obtain ⟨hlt', hget'⟩ := List.getElem?_eq_some_iff.mp hv
  have hcell := (List.forall₂_iff_get.mp htyped).2 j hlt hlt'
  simpa [hget, hget'] using hcell

/-- A column is rewritten when each of its cells is converted. -/
theorem exists_changeType {t : Table} {name : Bytes} (type : LogicalType)
    {f : Cell → Except RawError Cell} (h : ∀ row v, t.cellAt row name = some v → Converts f v) :
    ∃ t', t.changeType name type f = .ok t' := by
  unfold Table.changeType
  cases hj : columnIndex t.columns name with
  | none => exact ⟨t, rfl⟩
  | some j =>
      have hrows : ∀ cells ∈ t.rows, ∃ cells', Table.convertAt f j cells = .ok cells' := by
        intro cells hmem
        unfold Table.convertAt
        cases hv : cells[j]? with
        | none => exact ⟨cells, rfl⟩
        | some v =>
            obtain ⟨row, hrow⟩ := List.mem_iff_getElem?.mp hmem
            have hcell : t.cellAt row name = some v := by
              simp [Table.cellAt, hj, hrow, hv]
            obtain ⟨w, hw⟩ := h row v hcell
            exact ⟨cells.set j w, bind_eq_ok.mpr ⟨w, hw, rfl⟩⟩
      obtain ⟨rows, hrows⟩ := exists_mapM_eq_ok _ _ hrows
      exact ⟨_, bind_eq_ok.mpr ⟨rows, hrows, rfl⟩⟩

/-- The columns that are not done hold what they held. -/
structure RewriteInv (t : Table) (done : List RawColumn) (s : Evolved) : Prop where
  evolve : EvolveInv t done s
  cells : ∀ name e, findColumn t.columns name = some e → lower name ∉ rawNames done →
    ∀ row, s.table.cellAt row name = t.cellAt row name

/-- One turn of the loop. -/
theorem RewriteInv.step (rules : CastRules duck validJson) {catalog : Catalog}
    (hcatalog : ∀ t info, catalog.alterCheck t info = .ok ⟨⟩) {t : Table} (hwf : t.WF)
    (htyped : t.Typed) {done : List RawColumn} {s : Evolved} (h : RewriteInv t done s)
    {c : RawColumn} (hnew : lower c.name ∉ rawNames done) (hc : Inferable c.type)
    (hsafe : ∀ e, findColumn t.columns c.name = some e →
      Inferable e.type ∧ rewriteMayFail e.type c.type = false) :
    ∃ s', evolveColumn duck catalog t.columns s c = .ok s' ∧ RewriteInv t (done ++ [c]) s' := by
  have hok : ∃ s', evolveColumn duck catalog t.columns s c = .ok s' := by
    unfold evolveColumn
    cases he : findColumn t.columns c.name with
    | none => exact ⟨_, bind_eq_ok.mpr ⟨⟨⟩, hcatalog _ _, rfl⟩⟩
    | some e =>
        dsimp only
        split
        · exact ⟨s, rfl⟩
        · rename_i hne
          obtain ⟨hinferable, hmay⟩ := hsafe e he
          have hall := (rules.convertsAll_rewrite hinferable hc hne).mpr (by simp [hmay])
          have hcells : ∀ row v, s.table.cellAt row c.name = some v →
              Converts (wideningConversion duck e.type (joinColumnTypes e.type c.type)) v :=
            fun row v hv => hall v (htyped.cellAt hwf he (h.cells c.name e he hnew row ▸ hv))
          obtain ⟨table, htable⟩ := exists_changeType (joinColumnTypes e.type c.type) hcells
          exact ⟨_, bind_eq_ok.mpr ⟨⟨⟩, hcatalog _ _, bind_eq_ok.mpr ⟨table, htable, rfl⟩⟩⟩
  obtain ⟨s', hs'⟩ := hok
  refine ⟨s', hs', h.evolve.step hwf.names hnew hs', fun name e he hname row => ?_⟩
  rw [rawNames, List.map_append, List.mem_append, not_or] at hname
  have hne : lower c.name ≠ lower name := fun heq => hname.2 (by simp [heq])
  exact (cellAt_evolveColumn hwf h.evolve hs' he hne row).trans (h.cells name e he hname.1 row)

/-- **Rewriting stored data**: the conversion of a widened column is defined on every
value the column can hold, but for the pairs of types `rewriteMayFail` lists; and a
table without such a pair evolves, whatever it holds, unless the catalog refuses. -/
theorem evolveNative_rewrites_iff (rules : CastRules duck validJson) :
    (∀ e i, Inferable e → Inferable i → joinColumnTypes e i ≠ e →
      (ConvertsAll (wideningConversion duck e (joinColumnTypes e i)) e ↔
        rewriteMayFail e i = false)) ∧
    ∀ (catalog : Catalog) (t : Table) (p : ProcessedPayload duck),
      (∀ t info, catalog.alterCheck t info = .ok ⟨⟩) → t.WF → t.Typed →
      (∀ e ∈ t.columns, Inferable e.type) →
      (∀ e ∈ t.columns, ∀ c ∈ p.columns, lower e.name = lower c.name →
        rewriteMayFail e.type c.type = false) →
      ∃ s, evolveNative duck catalog t p.columns = .ok s := by
  constructor
  · intro e i he hi hne
    rw [rules.convertsAll_rewrite he hi hne, Bool.not_eq_true]
  · intro catalog t p hcatalog hwf htyped hinferable hsafe
    refine exists_foldlM_eq_ok (RewriteInv t) ?_ ⟨.init t, fun _ _ _ _ _ => rfl⟩
    intro done c rest s hsplit hinv
    have hc : c ∈ p.columns := hsplit ▸ List.mem_append_right _ List.mem_cons_self
    refine hinv.step rules hcatalog hwf htyped (not_mem_rawNames (hsplit ▸ p.ciDistinct))
      (p.inferable hc) fun e he => ?_
    obtain ⟨hmem, hname⟩ := findColumn_some he
    exact ⟨hinferable e hmem, hsafe e hmem c hc hname⟩

end Rules

/-- The error of a value that has no counterpart in the type it is cast to. -/
def conversionError : RawError := { kind := .other, message := bytes "Conversion Error" }

/-- Integers and literals. -/
def isJsonLiteral (s : Bytes) : Bool :=
  (smallInt64 s).isSome || s == bytes "true" || s == bytes "false" || s == bytes "null"

instance (days : Int) : Decidable (inTimestampRange days) :=
  inferInstanceAs (Decidable (_ ∧ _ ∨ _ ∨ _))

/-- The cast of one value that is no list. -/
def strictScalarCast (s t : LogicalType) : Cell → Except RawError Cell
  | .varchar text =>
      if s = VARCHAR ∧ t = JSON ∧ isJsonLiteral text = false then .error conversionError
      else .ok (.varchar text)
  | .date days =>
      if s = DATE ∧ t = TIMESTAMP then
        if inTimestampRange days then .ok (.timestamp (days * 86400000000))
        else .error conversionError
      else .ok (.date days)
  | v => .ok (if t = VARCHAR then smallText v else v)

/-- Casts that fail where DuckDB's do. -/
def strictCast : LogicalType → LogicalType → Cell → Except RawError Cell
  | .list s, .list t, .list cells => do return .list (← cells.mapM (strictCast s t))
  | s, t, v => strictScalarCast s t v

/-- The small DuckDB with such casts. -/
def strictDuck : Duck := { smallDuck with cast := strictCast }

theorem castRules_strictDuck : CastRules strictDuck isJsonLiteral where
  toJson t v _ := ⟨_, rfl⟩
  null s t := by cases s <;> cases t <;> exact ⟨_, rfl⟩
  list s t cells := by
    constructor
    · rintro ⟨w, hw⟩ c hc
      obtain ⟨ws, hws, -⟩ := bind_eq_ok.mp hw
      obtain ⟨w, -, hw⟩ := forall₂_mem_left (mapM_eq_ok.mp hws) hc
      exact ⟨w, hw⟩
    · intro h
      obtain ⟨ws, hws⟩ := exists_mapM_eq_ok _ _ h
      exact ⟨.list ws, bind_eq_ok.mpr ⟨ws, hws, rfl⟩⟩
  varcharJson s := by
    show (∃ w, strictScalarCast VARCHAR JSON (.varchar s) = .ok w) ↔ _
    cases h : isJsonLiteral s <;> simp [strictScalarCast, h]
  bareWord := by decide
  json t v ht hv := by
    cases hv with
    | varchar => exact absurd rfl ht
    | date hdays => exact ⟨_, rfl⟩
    | null => cases t <;> exact ⟨_, rfl⟩
    | _ => exact ⟨_, rfl⟩
  varchar t v ht hv := by
    cases hv with
    | null => cases t <;> exact ⟨_, rfl⟩
    | _ => exact ⟨_, rfl⟩
  double v hv := by cases hv <;> exact ⟨_, rfl⟩
  timestamp days := by
    show (∃ w, strictScalarCast DATE TIMESTAMP (.date days) = .ok w) ↔ _
    by_cases h : inTimestampRange days <;> simp [strictScalarCast, h]

/-- `a` holds the list `["x"]`. -/
def stringListTable : Table where
  columns := [{ name := bytes "a", type := .list VARCHAR, generated := false }]
  rows := [[.list [.varchar (bytes "x")]]]
  hasIndexes := false
  constraints := []

/-- `{"a": true}`, which takes the column to `JSON`. -/
def flagPayload : ProcessedPayload strictDuck :=
  .ofRows strictDuck [.obj [(bytes "a", .bool true)]]
    [{ name := bytes "a", path := [bytes "a"], type := BOOLEAN, node := [0] }] rfl rfl

/-- `{"a": [[1]]}`, which takes its elements to `JSON`. -/
def nestedListPayload : ProcessedPayload strictDuck :=
  .ofRows strictDuck [.obj [(bytes "a", .arr [.arr [.uint 1]])]]
    [{ name := bytes "a", path := [bytes "a"], type := .list (.list BIGINT), node := [0] }] rfl rfl

theorem typed_stringListTable : stringListTable.Typed := by
  intro cells hcells
  obtain rfl := List.mem_singleton.mp hcells
  exact .cons (.list (by simpa using .varchar)) .nil

theorem evolveNative_rewrites_flag :
    ConvertsAll (wideningConversion strictDuck (.list VARCHAR) JSON) (.list VARCHAR) ∧
    ∃ s, evolveNative strictDuck allowingCatalog stringListTable flagPayload.columns = .ok s := by
  obtain ⟨hpair, htable⟩ := evolveNative_rewrites_iff castRules_strictDuck
  constructor
  · exact (hpair (.list VARCHAR) BOOLEAN (.list .varchar) .boolean (by decide)).mpr (by decide)
  · have hwf : stringListTable.WF := ⟨by decide, by decide⟩
    have hinferable : ∀ e ∈ stringListTable.columns, Inferable e.type := by
      simpa [stringListTable] using Inferable.list .varchar
    exact htable allowingCatalog stringListTable flagPayload (fun _ _ => rfl) hwf
      typed_stringListTable hinferable (by decide)

/-- Lists of strings that meet lists of lists, and dates that meet timestamps: a stored
value is not converted, and the payload is refused. -/
theorem evolveNative_rewrites_fails :
    (∃ e, evolveNative strictDuck allowingCatalog stringListTable nestedListPayload.columns =
      .error e) ∧
    ¬ Converts (wideningConversion strictDuck DATE (joinColumnTypes DATE TIMESTAMP))
      (.date 200000000) ∧
    ¬ ∀ e i, Inferable e → Inferable i → joinColumnTypes e i ≠ e →
      ConvertsAll (wideningConversion strictDuck e (joinColumnTypes e i)) e := by
  refine ⟨⟨conversionError, rfl⟩, (fun ⟨_, hw⟩ => nomatch hw), fun hall => ?_⟩
  obtain ⟨w, hw⟩ := hall (.list VARCHAR) (.list (.list BIGINT)) (.list .varchar)
    (.list (.list .bigint)) (by decide) (.list [.varchar (bytes "x")])
    (.list (by simpa using .varchar))
  exact nomatch hw

end RawDuck
