import Mathlib.Data.List.Perm.Basic
import Mathlib.Order.WithBot
import RawDuck.Table

/-!
# RawDuck.TypeLattice

`JoinColumnTypes` on the types RawDuck infers: a semilattice with `JSON` on top
(`InferableType`).  And what schema steps make of a table, one or many.

* `joinColumnTypes_comm`, `joinColumnTypes_assoc` — the laws, by depth of lists;
* `evolveNative_converges` — the columns after a schema step, and that the next one
  of the same payload has nothing to do;
* `SchemaSteps.joined` — a column that every batch has ends up with the join of its
  types;
* `joinColumnTypes_orderFree` — so the order of the batches does not show.
-/

namespace RawDuck

open Fallible LogicalType

/-! ## the join of two types -/

/-- The types of scalar values. -/
def scalarTypes : List LogicalType := [BOOLEAN, BIGINT, DOUBLE, DATE, TIMESTAMP, VARCHAR]

/-- What an inferred type may be. -/
theorem Inferable.cases_scalar {t : LogicalType} (h : Inferable t) :
    t ∈ scalarTypes ∨ t = JSON ∨ ∃ c, t = .list c ∧ Inferable c := by
  cases h with
  | list h => exact .inr (.inr ⟨_, rfl, h⟩)
  | json => exact .inr (.inl rfl)
  | _ => exact .inl (by decide)

theorem inferable_of_mem_scalarTypes {t : LogicalType} (h : t ∈ scalarTypes) : Inferable t := by
  simp only [scalarTypes, List.mem_cons, List.not_mem_nil, or_false] at h
  obtain rfl | rfl | rfl | rfl | rfl | rfl := h <;> constructor

theorem join_mem_scalarTypes :
    ∀ s ∈ scalarTypes, ∀ t ∈ scalarTypes, joinColumnTypes s t ∈ scalarTypes := by decide

theorem join_comm_scalarTypes : ∀ s ∈ scalarTypes, ∀ t ∈ scalarTypes,
    joinColumnTypes s t = joinColumnTypes t s := by decide

theorem join_assoc_scalarTypes : ∀ s ∈ scalarTypes, ∀ t ∈ scalarTypes, ∀ u ∈ scalarTypes,
    joinColumnTypes (joinColumnTypes s t) u = joinColumnTypes s (joinColumnTypes t u) := by decide

theorem join_list_scalar {c s : LogicalType} (hs : s ∈ scalarTypes) :
    joinColumnTypes (.list c) s = JSON := by
  simp only [scalarTypes, List.mem_cons, List.not_mem_nil, or_false] at hs
  obtain rfl | rfl | rfl | rfl | rfl | rfl := hs <;> exact joinColumnTypes_list_plain c (by decide)

theorem join_scalar_list {c s : LogicalType} (hs : s ∈ scalarTypes) :
    joinColumnTypes s (.list c) = JSON := by
  simp only [scalarTypes, List.mem_cons, List.not_mem_nil, or_false] at hs
  obtain rfl | rfl | rfl | rfl | rfl | rfl := hs <;> exact joinColumnTypes_plain_list _ _ c

/-- Inferred types are closed under the join. -/
theorem Inferable.join {s t : LogicalType} (hs : Inferable s) (ht : Inferable t) :
    Inferable (joinColumnTypes s t) := by
  induction hs generalizing t with
  | @list c hc ih =>
      obtain ht | rfl | ⟨d, rfl, hd⟩ := ht.cases_scalar
      · rw [join_list_scalar ht]
        exact .json
      · rw [joinColumnTypes_json_right]
        exact .json
      · rw [joinColumnTypes_list]
        exact .list (ih hd)
  | json =>
      rw [joinColumnTypes_json_left]
      exact .json
  | _ =>
      obtain ht | rfl | ⟨d, rfl, hd⟩ := ht.cases_scalar
      · exact inferable_of_mem_scalarTypes (join_mem_scalarTypes _ (by decide) _ ht)
      · rw [joinColumnTypes_json_right]
        exact .json
      · rw [join_scalar_list (by decide)]
        exact .json

theorem joinColumnTypes_comm {s t : LogicalType} (hs : Inferable s) (ht : Inferable t) :
    joinColumnTypes s t = joinColumnTypes t s := by
  induction hs generalizing t with
  | @list c hc ih =>
      obtain ht | rfl | ⟨d, rfl, hd⟩ := ht.cases_scalar
      · rw [join_list_scalar ht, join_scalar_list ht]
      · simp
      · rw [joinColumnTypes_list, joinColumnTypes_list, ih hd]
  | json => simp
  | _ =>
      obtain ht | rfl | ⟨d, rfl, hd⟩ := ht.cases_scalar
      · exact join_comm_scalarTypes _ (by decide) _ ht
      · simp
      · rw [join_scalar_list (by decide), join_list_scalar (by decide)]

/-- The join is associative where one of the types is a scalar type. -/
theorem join_assoc_of_scalar {s t u : LogicalType} (hs : s ∈ scalarTypes) (ht : Inferable t)
    (hu : Inferable u) :
    joinColumnTypes (joinColumnTypes s t) u = joinColumnTypes s (joinColumnTypes t u) := by
  obtain ht' | rfl | ⟨d, rfl, hd⟩ := ht.cases_scalar
  · obtain hu' | rfl | ⟨e, rfl, he⟩ := hu.cases_scalar
    · exact join_assoc_scalarTypes s hs t ht' u hu'
    · simp
    · rw [join_scalar_list (join_mem_scalarTypes s hs t ht'), join_scalar_list ht',
        joinColumnTypes_json_right]
  · simp
  · rw [join_scalar_list hs, joinColumnTypes_json_left]
    obtain hu' | rfl | ⟨e, rfl, he⟩ := hu.cases_scalar
    · rw [join_list_scalar hu', joinColumnTypes_json_right]
    · simp
    · rw [joinColumnTypes_list, join_scalar_list hs]

theorem joinColumnTypes_assoc {s t u : LogicalType} (hs : Inferable s) (ht : Inferable t)
    (hu : Inferable u) :
    joinColumnTypes (joinColumnTypes s t) u = joinColumnTypes s (joinColumnTypes t u) := by
  induction hs generalizing t u with
  | @list c hc ih =>
      obtain ht' | rfl | ⟨d, rfl, hd⟩ := ht.cases_scalar
      · rw [join_list_scalar ht', joinColumnTypes_json_left]
        obtain hu' | rfl | ⟨e, rfl, he⟩ := hu.cases_scalar
        · rw [join_list_scalar (join_mem_scalarTypes t ht' u hu')]
        · simp
        · rw [join_scalar_list ht', joinColumnTypes_json_right]
      · simp
      · obtain hu' | rfl | ⟨e, rfl, he⟩ := hu.cases_scalar
        · rw [joinColumnTypes_list, join_list_scalar hu', join_list_scalar hu',
            joinColumnTypes_json_right]
        · simp
        · simp only [joinColumnTypes_list, ih hd he]
  | json => simp
  | _ => exact join_assoc_of_scalar (by decide) ht hu

/-- A type RawDuck infers. -/
def InferableType := {t : LogicalType // Inferable t}

namespace InferableType

instance : Max InferableType := ⟨fun s t => ⟨joinColumnTypes s.1 t.1, s.2.join t.2⟩⟩

instance : SemilatticeSup InferableType := SemilatticeSup.mk'
  (fun s t => Subtype.ext (joinColumnTypes_comm s.2 t.2))
  (fun s t u => Subtype.ext (joinColumnTypes_assoc s.2 t.2 u.2))
  (fun s => Subtype.ext (joinColumnTypes_self s.1))

instance : OrderTop InferableType where
  top := ⟨JSON, .json⟩
  le_top s := Subtype.ext (joinColumnTypes_json_right s.1)

end InferableType

/-! ## one schema step -/

section Steps

variable {duck : Duck} {catalog : Catalog}

/-- **A schema step** leaves the old columns in their order, each widened by the
payload's column of its name, and behind them the columns the table did not have, in
the order of the payload; and then the payload needs no further step, since joining a
type twice is joining it once, whatever type the table has. -/
theorem evolveNative_converges (catalog : Catalog) (t : Table)
    (hnames : (ciNames t.columns).Nodup) (p : ProcessedPayload duck) :
    (∀ s, evolveNative duck catalog t p.columns = .ok s →
      s.table.columns =
        t.columns.map (evolvedColumn p.columns) ++ addedColumns t.columns p.columns ∧
      computeDelta s.table.columns p.columns = ([], false)) ∧
    ∀ e i, Inferable i →
      joinColumnTypes (joinColumnTypes e i) i = joinColumnTypes e i := by
  constructor
  · intro s hs
    have hcolumns := (evolveNative_spec hnames p.ciDistinct hs).columns_eq
    refine ⟨hcolumns, computeDelta_eq_nil.mpr ?_⟩
    rw [hcolumns]
    exact absorbed_evolvedColumns p.ciDistinct fun _ hc => p.inferable hc
  · intro e i hi
    exact joinColumnTypes_join_right e hi

/-- A catalog that refuses nothing. -/
def allowingCatalog : Catalog where
  createCheck _ := .ok ⟨⟩
  alterCheck _ _ := .ok ⟨⟩
  verify _ _ := .ok ⟨⟩

/-- A table with a `BIGINT` and with a type RawDuck never infers. -/
def decimalTable : Table where
  columns := [{ name := bytes "a", type := BIGINT, generated := false },
    { name := bytes "b", type := .plain (.other 21) [], generated := false }]
  rows := [[.null, .null]]
  hasIndexes := false
  constraints := []

/-- `{"c": true, "A": "x", "B": [1]}`. -/
def wideningPayload : ProcessedPayload smallDuck :=
  .ofRows smallDuck
    [.obj [(bytes "c", .bool true), (bytes "A", .str (bytes "x")), (bytes "B", .arr [.uint 1])]]
    [{ name := bytes "c", path := [bytes "c"], type := BOOLEAN, node := [0] },
     { name := bytes "A", path := [bytes "A"], type := VARCHAR, node := [1] },
     { name := bytes "B", path := [bytes "B"], type := .list BIGINT, node := [2] }] rfl rfl

theorem evolveNative_converges_widening :
    (∃ s, evolveNative smallDuck allowingCatalog decimalTable wideningPayload.columns = .ok s ∧
      s.table.columns = evolvedColumns decimalTable.columns wideningPayload.columns ∧
      computeDelta s.table.columns wideningPayload.columns = ([], false)) ∧
    joinColumnTypes (joinColumnTypes (.plain (.other 21) []) BIGINT) BIGINT =
      joinColumnTypes (.plain (.other 21) []) BIGINT := by
  obtain ⟨hstep, hjoin⟩ := evolveNative_converges allowingCatalog decimalTable
    (by decide) wideningPayload
  obtain ⟨hcolumns, hdelta⟩ := hstep _ rfl
  exact ⟨⟨_, rfl, hcolumns, hdelta⟩, hjoin _ _ .bigint⟩

/-- The type a payload has under a name. -/
def ProcessedPayload.typeUnder (p : ProcessedPayload duck) (name : Bytes) : InferableType :=
  match h : p.columns.find? fun c => ciEq c.name name with
  | some c => ⟨c.type, p.inferable (List.mem_of_find?_eq_some h)⟩
  | none => ⊤

theorem ProcessedPayload.exists_typeUnder (p : ProcessedPayload duck) {name : Bytes}
    (hname : lower name ∈ rawNames p.columns) :
    ∃ c ∈ p.columns, lower c.name = lower name ∧ (p.typeUnder name).1 = c.type := by
  unfold typeUnder
  split
  · rename_i c hc
    have hlower := List.find?_some hc
    exact ⟨c, List.mem_of_find?_eq_some hc, ciEq_iff.mp hlower, rfl⟩
  · rename_i hnone
    obtain ⟨c, hc, hlower⟩ := List.mem_map.mp hname
    exact absurd (ciEq_iff.mpr hlower) (List.find?_eq_none.mp hnone c hc)

/-- A type that may be missing. -/
def typeValue (type : WithBot InferableType) : Option LogicalType :=
  Option.map Subtype.val type

/-- A schema step joins the type of each column the payload has. -/
theorem typeOf_evolvedColumns {t t' : Table} (p : ProcessedPayload duck) {name : Bytes}
    (hname : lower name ∈ rawNames p.columns) {type : WithBot InferableType}
    (htype : t.typeOf name = typeValue type)
    (hcolumns : t'.columns = evolvedColumns t.columns p.columns) :
    t'.typeOf name = typeValue (type ⊔ (p.typeUnder name : WithBot InferableType)) := by
  obtain ⟨c, hc, hlower, hunder⟩ := p.exists_typeUnder hname
  rw [Table.typeOf, hcolumns, findColumn_evolvedColumns]
  rw [Table.typeOf] at htype
  cases he : findColumn t.columns name with
  | none =>
      rw [he] at htype
      cases type with
      | bot =>
          rw [← findColumn_congr hlower] at he
          rw [findColumn_addedColumns p.ciDistinct hc he hlower, bot_sup_eq]
          exact congrArg some hunder.symm
      | coe e => exact nomatch htype
  | some e =>
      rw [he] at htype
      cases type with
      | bot => exact nomatch htype
      | coe existing =>
          have hexisting : e.type = existing.1 := Option.some.inj htype
          have heq := (findColumn_some he).2.trans hlower.symm
          simp only [Option.map_some, Option.some_or, evolvedColumn_of_mem p.ciDistinct hc heq]
          rw [← WithBot.coe_sup, hexisting, ← hunder]
          rfl

/-! ## any number of them -/

/-- The table after the schema steps of batches that arrive one by one; what is done
to its rows in between does not matter. -/
inductive SchemaSteps (duck : Duck) (catalog : Catalog) (start : Option Table) :
    List (ProcessedPayload duck) → Option Table → Prop
  | start : SchemaSteps duck catalog start [] start
  | created {ps : List (ProcessedPayload duck)} {p : ProcessedPayload duck} {t t' : Table} :
      SchemaSteps duck catalog start ps none → createNative catalog p.columns = .ok t →
      t'.columns = t.columns → SchemaSteps duck catalog start (ps ++ [p]) (some t')
  | evolved {ps : List (ProcessedPayload duck)} {p : ProcessedPayload duck} {t t' : Table}
      {s : Evolved} : SchemaSteps duck catalog start ps (some t) →
      evolveNative duck catalog t p.columns = .ok s → t'.columns = s.table.columns →
      SchemaSteps duck catalog start (ps ++ [p]) (some t')

variable {start after : Option Table} {ps : List (ProcessedPayload duck)}

/-- Names stay distinct. -/
theorem SchemaSteps.names (h : SchemaSteps duck catalog start ps after)
    (hstart : ∀ t, start = some t → (ciNames t.columns).Nodup) :
    ∀ t, after = some t → (ciNames t.columns).Nodup := by
  induction h with
  | start => exact hstart
  | @created ps p t t' _ hcreate hcolumns _ =>
      intro u hu
      obtain rfl := Option.some.inj hu
      obtain ⟨-, -, hcreate⟩ := bind_eq_ok.mp hcreate
      obtain rfl := pure_eq_ok.mp hcreate
      rw [hcolumns, ciNames_tableColumns]
      exact p.ciDistinct
  | @evolved ps p t t' s _ hevolve hcolumns ih =>
      intro u hu
      obtain rfl := Option.some.inj hu
      have hnames := ih t rfl
      rw [hcolumns, (evolveNative_spec hnames p.ciDistinct hevolve).columns_eq]
      exact nodup_evolvedColumns hnames p.ciDistinct

/-- The type under a name, if there is a table that has it. -/
def typeOfTable (table : Option Table) (name : Bytes) : Option LogicalType :=
  table.bind fun t => t.typeOf name

/-- **A column that every batch has** ends up with the join of its types. -/
theorem SchemaSteps.joined (h : SchemaSteps duck catalog start ps after)
    (hstart : ∀ t, start = some t → (ciNames t.columns).Nodup) {name : Bytes}
    {type : WithBot InferableType} (htype : typeOfTable start name = typeValue type)
    (hname : ∀ p ∈ ps, lower name ∈ rawNames p.columns) :
    typeOfTable after name = typeValue
      (ps.foldl (fun type p => type ⊔ (p.typeUnder name : WithBot InferableType)) type) := by
  induction h with
  | start => exact htype
  | @created ps p t t' hsteps hcreate hcolumns ih =>
      have hbefore := ih fun q hq => hname q (List.mem_append_left _ hq)
      have hp := hname p (List.mem_append_right _ List.mem_cons_self)
      obtain ⟨-, -, hcreate⟩ := bind_eq_ok.mp hcreate
      obtain rfl := pure_eq_ok.mp hcreate
      rw [List.foldl_append, List.foldl_cons, List.foldl_nil]
      refine typeOf_evolvedColumns (t := ⟨[], [], false, []⟩) p hp hbefore ?_
      rw [hcolumns, evolvedColumns, addedColumns, computeAdds]
      simp [findColumn]
  | @evolved ps p t t' s hsteps hevolve hcolumns ih =>
      have hbefore := ih fun q hq => hname q (List.mem_append_left _ hq)
      have hp := hname p (List.mem_append_right _ List.mem_cons_self)
      rw [List.foldl_append, List.foldl_cons, List.foldl_nil]
      have hspec := evolveNative_spec (hsteps.names hstart t rfl) p.ciDistinct hevolve
      exact typeOf_evolvedColumns p hp hbefore (hcolumns.trans hspec.columns_eq)

/-- **The join of inferred types** is commutative, associative and idempotent, with
`JSON` on top; so two orders of the same batches leave a column that every batch has
with the same type. -/
theorem joinColumnTypes_orderFree (duck : Duck) (catalog : Catalog) :
    (∀ s t : InferableType, joinColumnTypes s.1 t.1 = joinColumnTypes t.1 s.1) ∧
    (∀ s t u : InferableType, joinColumnTypes (joinColumnTypes s.1 t.1) u.1 =
      joinColumnTypes s.1 (joinColumnTypes t.1 u.1)) ∧
    (∀ s : InferableType, joinColumnTypes s.1 s.1 = s.1) ∧
    (∀ s : InferableType, joinColumnTypes s.1 JSON = JSON ∧ joinColumnTypes JSON s.1 = JSON) ∧
    ∀ (start : Option Table) (ps qs : List (ProcessedPayload duck)) (t t' : Option Table)
      (name : Bytes), (∀ t, start = some t → (ciNames t.columns).Nodup) →
      (∀ type, typeOfTable start name = some type → Inferable type) →
      ps.Perm qs → (∀ p ∈ ps, lower name ∈ rawNames p.columns) →
      SchemaSteps duck catalog start ps t → SchemaSteps duck catalog start qs t' →
      typeOfTable t name = typeOfTable t' name := by
  refine ⟨fun s t => joinColumnTypes_comm s.2 t.2,
    fun s t u => joinColumnTypes_assoc s.2 t.2 u.2, fun s => joinColumnTypes_self s.1,
    fun s => ⟨joinColumnTypes_json_right s.1, joinColumnTypes_json_left s.1⟩, ?_⟩
  intro start ps qs t t' name hstart hinferable hperm hname hps hqs
  have hbase : ∃ type, typeOfTable start name = typeValue type := by
    cases htype : typeOfTable start name with
    | none => exact ⟨⊥, rfl⟩
    | some type =>
        exact ⟨some ⟨type, hinferable type htype⟩, rfl⟩
  obtain ⟨type, htype⟩ := hbase
  rw [hps.joined hstart htype hname,
    hqs.joined hstart htype fun q hq => hname q (hperm.mem_iff.mpr hq)]
  refine congrArg typeValue (hperm.foldl_eq' (fun p _ q _ type => ?_) type)
  exact sup_right_comm type (p.typeUnder name : WithBot InferableType) (q.typeUnder name)

theorem flattenSchema_integerRow :
    flattenSchema (inferSchema smallDuck [.obj [(bytes "a", .uint 1)]]) false =
      .ok [{ name := bytes "a", path := [bytes "a"], type := BIGINT, node := [0] }] := rfl

/-- `{"a": 1}`. -/
def integerPayload : ProcessedPayload smallDuck :=
  .ofRows smallDuck [.obj [(bytes "a", .uint 1)]]
    [{ name := bytes "a", path := [bytes "a"], type := BIGINT, node := [0] }]
    ProcessedPayload.uniform_integerRow flattenSchema_integerRow

/-- `{"A": true}`. -/
def booleanPayload : ProcessedPayload smallDuck :=
  .ofRows smallDuck [.obj [(bytes "A", .bool true)]]
    [{ name := bytes "A", path := [bytes "A"], type := BOOLEAN, node := [0] }] rfl rfl

theorem schemaSteps_two {p q : ProcessedPayload duck} {t : Table} {s : Evolved}
    (hcreate : createNative catalog p.columns = .ok t)
    (hevolve : evolveNative duck catalog t q.columns = .ok s) :
    SchemaSteps duck catalog none [p, q] (some s.table) := by
  have hfirst : SchemaSteps duck catalog none ([] ++ [p]) (some t) :=
    .created .start hcreate rfl
  exact hfirst.evolved hevolve rfl

theorem joinColumnTypes_orderFree_two :
    ∃ t t', SchemaSteps smallDuck allowingCatalog none [integerPayload, booleanPayload] t ∧
      SchemaSteps smallDuck allowingCatalog none [booleanPayload, integerPayload] t' ∧
      typeOfTable t (bytes "a") = typeOfTable t' (bytes "a") := by
  have hfirst : SchemaSteps smallDuck allowingCatalog none [integerPayload, booleanPayload] _ :=
    schemaSteps_two rfl rfl
  have hsecond : SchemaSteps smallDuck allowingCatalog none [booleanPayload, integerPayload] _ :=
    schemaSteps_two rfl rfl
  obtain ⟨-, -, -, -, horder⟩ := joinColumnTypes_orderFree smallDuck allowingCatalog
  exact ⟨_, _, hfirst, hsecond, horder none _ _ _ _ _ nofun nofun (.swap _ _ _)
    (by decide) hfirst hsecond⟩

end Steps

end RawDuck
