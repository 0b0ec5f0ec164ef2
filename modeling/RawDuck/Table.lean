import RawDuck.Payload

/-!
# RawDuck.Table

Native tables and the DDL the ingestor runs on them.

A table holds one cell per column and row; column names are looked up without
regard to case.  `Catalog` collects the reasons DuckDB has of its own to
refuse a statement.

* `evolveNative` — adds the columns a payload needs and widens the ones it
  outgrows, each judged against the columns the table had before;
* `computeDelta` — the same decision without the change;
* `evolveNative_spec` — the columns after a schema step, as a function of the
  columns before and the payload's (`evolvedColumns`);
* `evolveNative_cellAt` — columns whose type a schema step keeps hold what they
  held.
-/

namespace RawDuck

open Fallible

/-- A column of a table. -/
structure Column where
  name : Bytes
  type : LogicalType
  generated : Bool
  deriving DecidableEq, Repr

/-- A native table: its columns, one cell per column in every row, and what
decides how it may be appended to. -/
structure Table where
  columns : List Column
  rows : List (List Cell)
  hasIndexes : Bool
  /-- `Binder::BindConstraints`, by their definitions. -/
  constraints : List Bytes

/-- `AddColumnInfo` and `ChangeColumnTypeInfo`. -/
inductive AlterInfo where
  | addColumn (name : Bytes) (type : LogicalType)
  | changeType (name : Bytes) (type : LogicalType)
  deriving DecidableEq, Repr

/-- DuckDB's own reasons to refuse a statement on a native table. -/
structure Catalog where
  /-- `BindCreateTableInfo` and `CreateTable`. -/
  createCheck : List Column → Except RawError Unit
  /-- `Catalog::Alter`, apart from the conversion of the cells. -/
  alterCheck : Table → AlterInfo → Except RawError Unit
  /-- `DataTable::LocalAppend`: the constraints on a chunk of rows. -/
  verify : Table → List (List Cell) → Except RawError Unit

/-- Names equal as the catalog compares them. -/
def ciEq (a b : Bytes) : Bool := lower a == lower b

/-- `ColumnList::GetColumn` by name, when `ColumnExists`. -/
def findColumn (columns : List Column) (name : Bytes) : Option Column :=
  columns.find? fun c => ciEq c.name name

/-- The position of a column by name. -/
def columnIndex (columns : List Column) (name : Bytes) : Option Nat :=
  columns.findIdx? fun c => ciEq c.name name

namespace Table

/-- The type of a column. -/
def typeOf (t : Table) (name : Bytes) : Option LogicalType :=
  (findColumn t.columns name).map Column.type

/-- The cell of a column in a row. -/
def cellAt (t : Table) (row : Nat) (name : Bytes) : Option Cell :=
  (columnIndex t.columns name).bind fun i => t.rows[row]?.bind fun cells => cells[i]?

/-- `PhysicalColumnCount() != LogicalColumnCount()`. -/
def hasGenerated (t : Table) : Bool := t.columns.any Column.generated

/-- Column names differ ignoring case, and rows have a cell for each column. -/
structure WF (t : Table) : Prop where
  names : (t.columns.map fun c => lower c.name).Nodup
  width : ∀ cells ∈ t.rows, cells.length = t.columns.length

/-- `ALTER TABLE … ADD COLUMN`: the new column is NULL in every row. -/
def addColumn (t : Table) (name : Bytes) (type : LogicalType) : Table :=
  { t with
    columns := t.columns ++ [{ name, type, generated := false }]
    rows := t.rows.map fun cells => cells ++ [.null] }

/-- Converts the cell at a position of a row. -/
def convertAt (f : Cell → Except RawError Cell) (i : Nat) (cells : List Cell) :
    Except RawError (List Cell) :=
  match cells[i]? with
  | some cell => do return cells.set i (← f cell)
  | none => .ok cells

/-- `ALTER TABLE … ALTER COLUMN … SET DATA TYPE … USING …` with a conversion of
the cells. -/
def changeType (t : Table) (name : Bytes) (type : LogicalType)
    (using_ : Cell → Except RawError Cell) : Except RawError Table :=
  match columnIndex t.columns name with
  | none => .ok t
  | some i => do
      let rows ← t.rows.mapM (convertAt using_ i)
      return { t with
        columns := t.columns.map fun c => if ciEq c.name name then { c with type } else c
        rows }

end Table

variable (duck : Duck) (catalog : Catalog)

/-- The conversion `EvolveNative` asks for: `to_json` where a plain cast would
reject bare strings, a cast otherwise. -/
def wideningConversion (existing target : LogicalType) : Cell → Except RawError Cell :=
  if isRawJSONType target && !isRawJSONType existing then duck.toJson existing
  else duck.cast existing target

/-- A table in the middle of `EvolveNative`, with the counters. -/
structure Evolved where
  table : Table
  added : Nat
  widened : Nat

/-- One turn of the loop of `EvolveNative`. -/
def evolveColumn (existing : List Column) (s : Evolved) (column : RawColumn) :
    Except RawError Evolved :=
  match findColumn existing column.name with
  | none => do
      catalog.alterCheck s.table (.addColumn column.name column.type)
      return { s with table := s.table.addColumn column.name column.type, added := s.added + 1 }
  | some e =>
      let target := joinColumnTypes e.type column.type
      if target = e.type then .ok s
      else do
        catalog.alterCheck s.table (.changeType column.name target)
        let table ← s.table.changeType column.name target (wideningConversion duck e.type target)
        return { s with table, widened := s.widened + 1 }

/-- `EvolveNative`. -/
def evolveNative (table : Table) (columns : List RawColumn) : Except RawError Evolved :=
  columns.foldlM (evolveColumn duck catalog table.columns) { table, added := 0, widened := 0 }

/-- A payload's columns as the columns of a table. -/
def tableColumns (columns : List RawColumn) : List Column :=
  columns.map fun c => { name := c.name, type := c.type, generated := false }

/-- `CreateNative`. -/
def createNative (columns : List RawColumn) : Except RawError Table := do
  catalog.createCheck (tableColumns columns)
  return { columns := tableColumns columns, rows := [], hasIndexes := false, constraints := [] }

/-- The columns a payload adds (`adds` of `ComputeDelta`). -/
def computeAdds (existing : List Column) (columns : List RawColumn) : List RawColumn :=
  columns.filter fun c => (findColumn existing c.name).isNone

/-- Some column of the payload widens one of the table (`widens` of
`ComputeDelta`). -/
def computeWidens (existing : List Column) (columns : List RawColumn) : Bool :=
  columns.any fun c => match findColumn existing c.name with
    | none => false
    | some e => joinColumnTypes e.type c.type ≠ e.type

/-- `ComputeDelta`: the columns to add and whether some column widens. -/
def computeDelta (existing : List Column) (columns : List RawColumn) : List RawColumn × Bool :=
  (computeAdds existing columns, computeWidens existing columns)

/-- The payload needs no schema step: every column is there and wide enough. -/
def Absorbed (existing : List Column) (columns : List RawColumn) : Prop :=
  ∀ c ∈ columns, ∃ e, findColumn existing c.name = some e ∧ joinColumnTypes e.type c.type = e.type

theorem computeDelta_eq_nil {existing : List Column} {columns : List RawColumn} :
    computeDelta existing columns = ([], false) ↔ Absorbed existing columns := by
  simp only [computeDelta, Prod.mk.injEq, computeAdds, computeWidens, List.filter_eq_nil_iff,
    List.any_eq_false, Absorbed]
  constructor
  · rintro ⟨hadds, hwidens⟩ c hc
    cases h : findColumn existing c.name with
    | none => exact absurd (by simp [h]) (hadds c hc)
    | some e =>
        have hw := hwidens c hc
        simp only [h, decide_eq_true_eq, ne_eq, not_not] at hw
        exact ⟨e, rfl, hw⟩
  · intro h
    refine ⟨fun c hc => ?_, fun c hc => ?_⟩
    · obtain ⟨e, he, -⟩ := h c hc
      simp [he]
    · obtain ⟨e, he, hw⟩ := h c hc
      simp [he, hw]

/-- The type a schema step leaves an existing column with. -/
def evolvedColumn (columns : List RawColumn) (e : Column) : Column :=
  match columns.find? fun c => ciEq e.name c.name with
  | some c => { e with type := joinColumnTypes e.type c.type }
  | none => e

/-- The columns a payload adds, as table columns. -/
def addedColumns (existing : List Column) (columns : List RawColumn) : List Column :=
  tableColumns (computeAdds existing columns)

/-- The columns a schema step leaves. -/
def evolvedColumns (existing : List Column) (columns : List RawColumn) : List Column :=
  existing.map (evolvedColumn columns) ++ addedColumns existing columns

/-! ## lookups -/

theorem ciEq_iff {a b : Bytes} : ciEq a b = true ↔ lower a = lower b := by simp [ciEq]

/-- Names of a column list, as the catalog compares them. -/
abbrev ciNames (columns : List Column) : List Bytes := columns.map fun c => lower c.name

theorem findColumn_eq_none {columns : List Column} {name : Bytes} :
    findColumn columns name = none ↔ lower name ∉ ciNames columns := by
  simp only [findColumn, List.find?_eq_none, List.mem_map, ciEq_iff, not_exists, not_and]

theorem findColumn_some {columns : List Column} {name : Bytes} {c : Column}
    (h : findColumn columns name = some c) : c ∈ columns ∧ lower c.name = lower name := by
  rw [findColumn] at h
  exact ⟨List.mem_of_find?_eq_some h, by simpa [ciEq] using List.find?_some h⟩

theorem findColumn_eq_some {columns : List Column} (hnd : (ciNames columns).Nodup) {name : Bytes}
    {c : Column} : findColumn columns name = some c ↔ c ∈ columns ∧ lower c.name = lower name := by
  refine ⟨findColumn_some, fun ⟨hc, hname⟩ => ?_⟩
  cases h : findColumn columns name with
  | none =>
      rw [findColumn_eq_none] at h
      exact absurd (List.mem_map.mpr ⟨c, hc, hname⟩) h
  | some c' =>
      obtain ⟨hc', hname'⟩ := findColumn_some h
      rw [List.inj_on_of_nodup_map hnd hc' hc (hname'.trans hname.symm)]

theorem findColumn_congr {columns : List Column} {a b : Bytes} (h : lower a = lower b) :
    findColumn columns a = findColumn columns b := by simp only [findColumn, ciEq, h]

theorem columnIndex_congr {columns : List Column} {a b : Bytes} (h : lower a = lower b) :
    columnIndex columns a = columnIndex columns b := by simp only [columnIndex, ciEq, h]

theorem columnIndex_eq_names (columns : List Column) (name : Bytes) :
    columnIndex columns name = (ciNames columns).findIdx? (· == lower name) := by
  rw [columnIndex, List.findIdx?_map]; rfl

theorem columnIndex_eq_none {columns : List Column} {name : Bytes} :
    columnIndex columns name = none ↔ lower name ∉ ciNames columns := by
  rw [columnIndex_eq_names, List.findIdx?_eq_none_iff]
  simp only [beq_eq_false_iff_ne]
  exact ⟨fun h hm => h _ hm rfl, fun h x hx heq => h (heq ▸ hx)⟩

/-- Among distinct names, the position of a name is where its column stands. -/
theorem columnIndex_eq_some {columns : List Column} (hnd : (ciNames columns).Nodup) {name : Bytes}
    {i : Nat} : columnIndex columns name = some i ↔
      ∃ c, columns[i]? = some c ∧ lower c.name = lower name := by
  constructor
  · intro h
    rw [columnIndex, List.findIdx?_eq_some_iff_getElem] at h
    obtain ⟨hi, hname, -⟩ := h
    exact ⟨columns[i], List.getElem?_eq_getElem hi, ciEq_iff.mp hname⟩
  · rintro ⟨c, hi, hname⟩
    cases h : columnIndex columns name with
    | none =>
        rw [columnIndex_eq_none] at h
        exact absurd (List.mem_map.mpr ⟨c, List.mem_of_getElem? hi, hname⟩) h
    | some j =>
        rw [columnIndex, List.findIdx?_eq_some_iff_getElem] at h
        obtain ⟨hj, hname', -⟩ := h
        have hj' : (ciNames columns)[j]? = some (lower name) := by
          simp only [List.getElem?_map, List.getElem?_eq_getElem hj, Option.map_some]
          rw [ciEq_iff.mp hname']
        have hi' : (ciNames columns)[i]? = some (lower name) := by simp [hi, hname]
        obtain ⟨hlt, -⟩ := List.getElem?_eq_some_iff.mp hj'
        rw [(List.getElem?_inj hlt hnd).mp (hj'.trans hi'.symm)]

theorem columnIndex_isSome_iff {columns : List Column} {name : Bytes} :
    (columnIndex columns name).isSome = (findColumn columns name).isSome := by
  rw [Bool.eq_iff_iff, Option.isSome_iff_ne_none, Option.isSome_iff_ne_none, ne_eq, ne_eq,
    columnIndex_eq_none, findColumn_eq_none]

/-! ## one statement -/

namespace Table

variable {t t' : Table} {name other : Bytes} {type : LogicalType}
  {f : Cell → Except RawError Cell}

theorem length_convertAt {i : Nat} {cells cells' : List Cell}
    (h : convertAt f i cells = .ok cells') : cells'.length = cells.length := by
  rw [convertAt] at h
  split at h
  · obtain ⟨cell, -, h⟩ := bind_eq_ok.mp h
    rw [← pure_eq_ok.mp h, List.length_set]
  · rw [Except.ok.inj h]

theorem getElem?_convertAt {i j : Nat} (hij : i ≠ j) {cells cells' : List Cell}
    (h : convertAt f i cells = .ok cells') : cells'[j]? = cells[j]? := by
  rw [convertAt] at h
  split at h
  · obtain ⟨cell, -, h⟩ := bind_eq_ok.mp h
    rw [← pure_eq_ok.mp h, List.getElem?_set_ne hij]
  · rw [Except.ok.inj h]

theorem WF.addColumn (h : t.WF) (hfresh : findColumn t.columns name = none) :
    (t.addColumn name type).WF where
  names := by
    simp only [Table.addColumn, List.map_append, List.map_cons, List.map_nil]
    rw [findColumn_eq_none] at hfresh
    exact List.nodup_append.mpr ⟨h.names, by simp, fun a ha b hb => by
      rw [List.mem_singleton] at hb
      rintro rfl
      exact hfresh (hb ▸ ha)⟩
  width := by
    intro cells hcells
    obtain ⟨cells, hc, rfl⟩ := List.mem_map.mp hcells
    simp [h.width cells hc, Table.addColumn]

/-- A new column leaves the other columns alone. -/
theorem cellAt_addColumn (h : t.WF) (hname : (findColumn t.columns other).isSome) (row : Nat) :
    (t.addColumn name type).cellAt row other = t.cellAt row other := by
  rw [← columnIndex_isSome_iff] at hname
  obtain ⟨i, hi⟩ := Option.isSome_iff_exists.mp hname
  have hi' : columnIndex (t.columns ++ [{ name, type, generated := false }]) other = some i := by
    rw [columnIndex, List.findIdx?_append, ← columnIndex, hi]; rfl
  simp only [cellAt, Table.addColumn, hi, hi', Option.bind_some, List.getElem?_map]
  cases hr : t.rows[row]? with
  | none => rfl
  | some cells =>
      have hlt : i < cells.length := by
        obtain ⟨c, hc, -⟩ := (columnIndex_eq_some h.names).mp hi
        rw [h.width cells (List.mem_of_getElem? hr)]
        exact (List.getElem?_eq_some_iff.mp hc).1
      simp [List.getElem?_append_left hlt]

theorem ciNames_changeType (columns : List Column) :
    ciNames (columns.map fun c => if ciEq c.name name then { c with type := type } else c) =
      ciNames columns := by
  rw [ciNames, List.map_map]
  refine List.map_congr_left fun c _ => ?_
  simp only [Function.comp_apply]
  split <;> rfl

/-- What `changeType` does: it keeps the names and converts the column's cell
in every row. -/
theorem changeType_eq_ok (h : t.changeType name type f = .ok t')
    (hname : (findColumn t.columns name).isSome) :
    ∃ i, columnIndex t.columns name = some i ∧
      t'.columns = (t.columns.map fun c => if ciEq c.name name then { c with type } else c) ∧
      List.Forall₂ (fun cells cells' => convertAt f i cells = .ok cells') t.rows t'.rows := by
  rw [← columnIndex_isSome_iff] at hname
  obtain ⟨i, hi⟩ := Option.isSome_iff_exists.mp hname
  simp only [changeType, hi] at h
  obtain ⟨rows, hrows, h⟩ := bind_eq_ok.mp h
  obtain rfl := pure_eq_ok.mp h
  exact ⟨i, hi, rfl, mapM_eq_ok.mp hrows⟩

theorem WF.changeType (h : t.WF) (hname : (findColumn t.columns name).isSome)
    (ht : t.changeType name type f = .ok t') : t'.WF := by
  obtain ⟨i, -, hcols, hrows⟩ := changeType_eq_ok ht hname
  constructor
  · rw [hcols]
    change (ciNames _).Nodup
    rw [ciNames_changeType]
    exact h.names
  · intro cells hcells
    obtain ⟨cells₀, h₀, hconv⟩ := forall₂_mem_right hrows hcells
    rw [length_convertAt hconv, h.width cells₀ h₀, hcols, List.length_map]

/-- A change of one column's type leaves the cells of the others alone. -/
theorem cellAt_changeType (h : t.WF) (hname : (findColumn t.columns name).isSome)
    (ht : t.changeType name type f = .ok t') (hne : lower name ≠ lower other) (row : Nat) :
    t'.cellAt row other = t.cellAt row other := by
  obtain ⟨i, hi, hcols, hrows⟩ := changeType_eq_ok ht hname
  have hidx : columnIndex t'.columns other = columnIndex t.columns other := by
    rw [columnIndex_eq_names, columnIndex_eq_names, hcols, ciNames_changeType]
  rw [cellAt, cellAt, hidx]
  cases hj : columnIndex t.columns other with
  | none => rfl
  | some j =>
      have hij : i ≠ j := by
        rintro rfl
        obtain ⟨c, hc, hcn⟩ := (columnIndex_eq_some h.names).mp hi
        obtain ⟨c', hc', hcn'⟩ := (columnIndex_eq_some h.names).mp hj
        rw [hc, Option.some.injEq] at hc'
        exact hne (hcn.symm.trans (hc' ▸ hcn'))
      simp only [Option.bind_some]
      have hget := List.forall₂_iff_get.mp hrows
      by_cases hlt : row < t.rows.length
      · have hlt' : row < t'.rows.length := hget.1 ▸ hlt
        rw [List.getElem?_eq_getElem hlt, List.getElem?_eq_getElem hlt']
        exact getElem?_convertAt hij (hget.2 row hlt hlt')
      · have hle := Nat.le_of_not_lt hlt
        rw [List.getElem?_eq_none hle, List.getElem?_eq_none (hget.1 ▸ hle)]

end Table

/-! ## the schema step -/

section Evolve

variable {duck : Duck} {catalog : Catalog} {columns : List RawColumn}

/-- Names of a payload's columns, as the catalog compares them. -/
abbrev rawNames (columns : List RawColumn) : List Bytes := columns.map fun c => lower c.name

theorem ciNames_tableColumns (columns : List RawColumn) :
    ciNames (tableColumns columns) = rawNames columns := by
  rw [tableColumns, ciNames, List.map_map]
  rfl

theorem not_mem_rawNames {done rest : List RawColumn} {c : RawColumn}
    (h : CiDistinct (done ++ c :: rest)) : lower c.name ∉ rawNames done := by
  rw [CiDistinct, List.map_append, List.nodup_append] at h
  exact fun hmem => h.2.2 _ hmem _ (List.mem_map.mpr ⟨c, List.mem_cons_self, rfl⟩) rfl

theorem evolvedColumn_name (columns : List RawColumn) (e : Column) :
    (evolvedColumn columns e).name = e.name := by
  rw [evolvedColumn]; split <;> rfl

theorem evolvedColumn_snoc_of_ne {columns : List RawColumn} {c : RawColumn} {e : Column}
    (h : lower e.name ≠ lower c.name) :
    evolvedColumn (columns ++ [c]) e = evolvedColumn columns e := by
  have hc : ciEq e.name c.name = false := by
    rw [Bool.eq_false_iff, ne_eq, ciEq_iff]; exact h
  simp [evolvedColumn, List.find?_append, hc]

theorem evolvedColumn_snoc {columns : List RawColumn} {c : RawColumn} {e : Column}
    (hnew : lower c.name ∉ rawNames columns) (h : lower e.name = lower c.name) :
    evolvedColumn columns e = e ∧
      evolvedColumn (columns ++ [c]) e = { e with type := joinColumnTypes e.type c.type } := by
  have hnone : columns.find? (fun c => ciEq e.name c.name) = none := by
    rw [List.find?_eq_none]
    intro c' hc' heq
    rw [ciEq_iff, h] at heq
    exact hnew (List.mem_map.mpr ⟨c', hc', heq.symm⟩)
  have hc : ciEq e.name c.name = true := ciEq_iff.mpr h
  exact ⟨by simp [evolvedColumn, hnone],
    by simp [evolvedColumn, List.find?_append, hnone, hc]⟩

theorem addedColumns_snoc (existing : List Column) (columns : List RawColumn) (c : RawColumn) :
    addedColumns existing (columns ++ [c]) = addedColumns existing columns ++
      if (findColumn existing c.name).isNone then
        [{ name := c.name, type := c.type, generated := false }] else [] := by
  rw [addedColumns, computeAdds, List.filter_append, tableColumns, List.map_append,
    ← tableColumns, ← computeAdds, ← addedColumns]
  congr 1
  by_cases h : (findColumn existing c.name).isNone = true <;> simp [h]

theorem name_mem_addedColumns {existing : List Column} {columns : List RawColumn} {e : Column}
    (h : e ∈ addedColumns existing columns) :
    lower e.name ∈ rawNames columns ∧ lower e.name ∉ ciNames existing := by
  obtain ⟨c, hc, rfl⟩ := List.mem_map.mp h
  rw [computeAdds, List.mem_filter, Option.isNone_iff_eq_none, findColumn_eq_none] at hc
  exact ⟨List.mem_map.mpr ⟨c, hc.1, rfl⟩, hc.2⟩

theorem ciNames_evolvedColumn (existing : List Column) (columns : List RawColumn) :
    ciNames (existing.map (evolvedColumn columns)) = ciNames existing := by
  rw [ciNames, List.map_map]
  refine List.map_congr_left fun e _ => ?_
  simp only [Function.comp_apply, evolvedColumn_name]

theorem ciNames_evolvedColumns (existing : List Column) (columns : List RawColumn) :
    ciNames (evolvedColumns existing columns) =
      ciNames existing ++ ciNames (addedColumns existing columns) := by
  rw [evolvedColumns, ciNames, List.map_append, ← ciNames, ciNames_evolvedColumn]

theorem nodup_evolvedColumns {existing : List Column} (hnd : (ciNames existing).Nodup)
    {columns : List RawColumn} (hnames : CiDistinct columns) :
    (ciNames (evolvedColumns existing columns)).Nodup := by
  rw [ciNames_evolvedColumns, List.nodup_append]
  refine ⟨hnd, ?_, fun a ha b hb => ?_⟩
  · rw [addedColumns, ciNames_tableColumns, computeAdds]
    exact hnames.sublist (List.filter_sublist.map _)
  · obtain ⟨e, he, rfl⟩ := List.mem_map.mp hb
    rintro rfl
    exact (name_mem_addedColumns he).2 ha

/-- What one turn of the loop does: it adds the column, leaves the table alone
or rewrites one column. -/
theorem evolveColumn_cases {existing : List Column} {s s' : Evolved} {c : RawColumn}
    (h : evolveColumn duck catalog existing s c = .ok s') :
    (findColumn existing c.name = none ∧
      s' = { table := s.table.addColumn c.name c.type, added := s.added + 1,
             widened := s.widened }) ∨
    (∃ e, findColumn existing c.name = some e ∧ joinColumnTypes e.type c.type = e.type ∧ s' = s) ∨
    (∃ e table, findColumn existing c.name = some e ∧ joinColumnTypes e.type c.type ≠ e.type ∧
      s.table.changeType c.name (joinColumnTypes e.type c.type)
        (wideningConversion duck e.type (joinColumnTypes e.type c.type)) = .ok table ∧
      s' = { table, added := s.added, widened := s.widened + 1 }) := by
  rw [evolveColumn] at h
  cases he : findColumn existing c.name with
  | none =>
      simp only [he] at h
      obtain ⟨-, -, h⟩ := bind_eq_ok.mp h
      exact .inl ⟨rfl, (pure_eq_ok.mp h).symm⟩
  | some e =>
      simp only [he] at h
      split at h
      · next htarget => exact .inr (.inl ⟨e, rfl, htarget, (Except.ok.inj h).symm⟩)
      · next htarget =>
        obtain ⟨-, -, h⟩ := bind_eq_ok.mp h
        obtain ⟨table, htable, h⟩ := bind_eq_ok.mp h
        exact .inr (.inr ⟨e, table, rfl, htarget, htable, (pure_eq_ok.mp h).symm⟩)

/-- The schema step of `t` has done the columns `done`. -/
structure EvolveInv (t : Table) (done : List RawColumn) (s : Evolved) : Prop where
  wf : t.WF → s.table.WF
  columns_eq : s.table.columns = evolvedColumns t.columns done
  length_eq : s.table.rows.length = t.rows.length
  unchanged : s.added + s.widened = 0 → s.table = t

theorem EvolveInv.init (t : Table) :
    EvolveInv t [] { table := t, added := 0, widened := 0 } where
  wf := id
  columns_eq := by
    have hid : evolvedColumn [] = id := by funext e; rfl
    rw [evolvedColumns, hid, List.map_id]
    exact (List.append_nil _).symm
  length_eq := rfl
  unchanged := fun _ => rfl

theorem EvolveInv.isSome_findColumn {t : Table} {done : List RawColumn} {s : Evolved}
    (h : EvolveInv t done s) {name : Bytes} {e : Column}
    (he : findColumn t.columns name = some e) : (findColumn s.table.columns name).isSome := by
  rw [Option.isSome_iff_ne_none, ne_eq, findColumn_eq_none, not_not, h.columns_eq,
    ciNames_evolvedColumns]
  obtain ⟨hmem, hname⟩ := findColumn_some he
  exact List.mem_append_left _ (List.mem_map.mpr ⟨e, hmem, hname⟩)

theorem EvolveInv.addColumn {t : Table} {done : List RawColumn} {s : Evolved}
    (h : EvolveInv t done s) {c : RawColumn} (hnew : lower c.name ∉ rawNames done)
    (he : findColumn t.columns c.name = none) {added widened : Nat} :
    EvolveInv t (done ++ [c])
      { table := s.table.addColumn c.name c.type, added := added + 1, widened } where
  wf := by
    intro hwf
    refine (h.wf hwf).addColumn ?_
    rw [findColumn_eq_none, h.columns_eq, ciNames_evolvedColumns, List.mem_append, not_or]
    refine ⟨findColumn_eq_none.mp he, fun hmem => ?_⟩
    obtain ⟨e, hmem, heq⟩ := List.mem_map.mp hmem
    exact hnew (heq ▸ (name_mem_addedColumns hmem).1)
  columns_eq := by
    simp only [Table.addColumn, h.columns_eq, evolvedColumns, addedColumns_snoc, he,
      Option.isNone_none, if_true, List.append_assoc]
    congr 1
    refine List.map_congr_left fun e hmem => (evolvedColumn_snoc_of_ne fun heq => ?_).symm
    exact findColumn_eq_none.mp he (List.mem_map.mpr ⟨e, hmem, heq⟩)
  length_eq := by simpa [Table.addColumn] using h.length_eq
  unchanged := by
    intro h
    simp only at h
    omega

/-- The columns of the table once the column `e`, found under the name of `c`,
is done. -/
theorem evolvedColumns_snoc_of_found {t : Table} (hnd : (ciNames t.columns).Nodup)
    {done : List RawColumn}
    {c : RawColumn} (hnew : lower c.name ∉ rawNames done) {e : Column}
    (he : findColumn t.columns c.name = some e) :
    evolvedColumns t.columns (done ++ [c]) =
      (evolvedColumns t.columns done).map fun x =>
        if ciEq x.name c.name then { x with type := joinColumnTypes e.type c.type } else x := by
  obtain ⟨hmem, hname⟩ := findColumn_some he
  obtain ⟨hbefore, hafter⟩ := evolvedColumn_snoc hnew hname
  have hadded : addedColumns t.columns (done ++ [c]) = addedColumns t.columns done := by
    rw [addedColumns_snoc, he]; simp
  rw [evolvedColumns, evolvedColumns, hadded, List.map_append, List.map_map]
  congr 1
  · refine List.map_congr_left fun x hx => ?_
    simp only [Function.comp_apply, evolvedColumn_name]
    by_cases hxc : lower x.name = lower c.name
    · obtain rfl := List.inj_on_of_nodup_map hnd hx hmem (hxc.trans hname.symm)
      rw [if_pos (ciEq_iff.mpr hxc), hbefore, hafter]
    · rw [if_neg (ciEq_iff.not.mpr hxc), evolvedColumn_snoc_of_ne hxc]
  · conv_lhs => rw [← List.map_id (addedColumns t.columns done)]
    refine List.map_congr_left fun x hx => (if_neg (ciEq_iff.not.mpr fun heq => ?_)).symm
    exact hnew (heq ▸ (name_mem_addedColumns hx).1)

theorem EvolveInv.step {t : Table} (hnd : (ciNames t.columns).Nodup) {done : List RawColumn}
    {s s' : Evolved}
    (h : EvolveInv t done s) {c : RawColumn} (hnew : lower c.name ∉ rawNames done)
    (hs : evolveColumn duck catalog t.columns s c = .ok s') : EvolveInv t (done ++ [c]) s' := by
  rcases evolveColumn_cases hs with ⟨he, rfl⟩ | ⟨e, he, htarget, rfl⟩ | ⟨e, table, he, -, ht, rfl⟩
  · exact h.addColumn hnew he
  · refine ⟨h.wf, ?_, h.length_eq, h.unchanged⟩
    rw [evolvedColumns_snoc_of_found hnd hnew he, h.columns_eq]
    conv_lhs => rw [← List.map_id (evolvedColumns t.columns done)]
    refine List.map_congr_left fun x hx => ?_
    -- the column keeps the type it has
    split
    · next hxc =>
      obtain ⟨hmem, hname⟩ := findColumn_some he
      rw [evolvedColumns, List.mem_append] at hx
      rcases hx with hx | hx
      · obtain ⟨y, hy, rfl⟩ := List.mem_map.mp hx
        rw [evolvedColumn_name, ciEq_iff] at hxc
        obtain rfl := List.inj_on_of_nodup_map hnd hy hmem (hxc.trans hname.symm)
        rw [(evolvedColumn_snoc hnew hname).1, htarget]; rfl
      · exact absurd ((ciEq_iff.mp hxc) ▸ (name_mem_addedColumns hx).1) hnew
    · rfl
  · have hfound := h.isSome_findColumn he
    obtain ⟨i, -, hcols, hrows⟩ := Table.changeType_eq_ok ht hfound
    refine ⟨fun hwf => (h.wf hwf).changeType hfound ht, ?_, hrows.length_eq ▸ h.length_eq,
      fun hzero => absurd hzero (by simp)⟩
    rw [hcols, h.columns_eq, evolvedColumns_snoc_of_found hnd hnew he]

/-- **A schema step that succeeds** leaves the columns `evolvedColumns` says and
as many rows, in a table as well formed as before. -/
theorem evolveNative_spec {t : Table} (hnd : (ciNames t.columns).Nodup)
    (hnames : CiDistinct columns) {s : Evolved}
    (h : evolveNative duck catalog t columns = .ok s) : EvolveInv t columns s :=
  foldlM_rule (EvolveInv t)
    (fun _ _ _ _ _ hsplit hinv hs => hinv.step hnd (not_mem_rawNames (hsplit ▸ hnames)) hs)
    (.init t) h

theorem evolvedColumn_of_mem (hnames : CiDistinct columns) {c : RawColumn} (hc : c ∈ columns)
    {e : Column} (hname : lower e.name = lower c.name) :
    evolvedColumn columns e = { e with type := joinColumnTypes e.type c.type } := by
  cases hf : columns.find? fun c => ciEq e.name c.name with
  | none =>
      rw [List.find?_eq_none] at hf
      exact absurd (ciEq_iff.mpr hname) (hf c hc)
  | some c' =>
      have hname' : lower e.name = lower c'.name := by simpa [ciEq] using List.find?_some hf
      have hcc : c' = c := List.inj_on_of_nodup_map hnames (List.mem_of_find?_eq_some hf) hc
        (hname'.symm.trans hname)
      simp only [evolvedColumn, hf, hcc]

theorem evolvedColumn_of_not_mem {e : Column} (h : lower e.name ∉ rawNames columns) :
    evolvedColumn columns e = e := by
  have hnone : columns.find? (fun c => ciEq e.name c.name) = none := by
    rw [List.find?_eq_none]
    intro c hc heq
    exact h (List.mem_map.mpr ⟨c, hc, (ciEq_iff.mp heq).symm⟩)
  simp [evolvedColumn, hnone]

/-- Looking a column up after a schema step. -/
theorem findColumn_evolvedColumns (existing : List Column) (columns : List RawColumn)
    (name : Bytes) :
    findColumn (evolvedColumns existing columns) name =
      ((findColumn existing name).map (evolvedColumn columns)).or
        (findColumn (addedColumns existing columns) name) := by
  rw [evolvedColumns, findColumn, List.find?_append, List.find?_map]
  have hp : (fun c => ciEq c.name name) ∘ evolvedColumn columns = fun c => ciEq c.name name := by
    funext c
    simp only [Function.comp_apply, evolvedColumn_name]
  rw [hp]
  rfl

theorem findColumn_addedColumns {existing : List Column} (hnames : CiDistinct columns)
    {c : RawColumn} (hc : c ∈ columns) (hnew : findColumn existing c.name = none) {name : Bytes}
    (hname : lower c.name = lower name) :
    findColumn (addedColumns existing columns) name =
      some { name := c.name, type := c.type, generated := false } := by
  have hnd : (ciNames (addedColumns existing columns)).Nodup := by
    rw [addedColumns, computeAdds, tableColumns, ciNames, List.map_map]
    exact hnames.sublist (List.filter_sublist.map _)
  rw [findColumn_eq_some hnd]
  exact ⟨List.mem_map.mpr ⟨c, List.mem_filter.mpr ⟨hc, by simp [hnew]⟩, rfl⟩, hname⟩

/-- After its own schema step a payload needs no further one. -/
theorem absorbed_evolvedColumns {existing : List Column} (hnames : CiDistinct columns)
    (hinferable : ∀ c ∈ columns, Inferable c.type) :
    Absorbed (evolvedColumns existing columns) columns := by
  intro c hc
  rw [findColumn_evolvedColumns]
  cases he : findColumn existing c.name with
  | none =>
      rw [findColumn_addedColumns hnames hc he rfl]
      exact ⟨_, rfl, joinColumnTypes_self _⟩
  | some e =>
      refine ⟨_, rfl, ?_⟩
      rw [evolvedColumn_of_mem hnames hc (findColumn_some he).2]
      exact joinColumnTypes_join_right _ (hinferable c hc)

theorem findColumn_tableColumns (hnames : CiDistinct columns) {c : RawColumn} (hc : c ∈ columns)
    {name : Bytes} (hname : lower c.name = lower name) :
    findColumn (tableColumns columns) name =
      some { name := c.name, type := c.type, generated := false } := by
  have hnd : (ciNames (tableColumns columns)).Nodup := by
    rw [ciNames_tableColumns]
    exact hnames
  rw [findColumn_eq_some hnd]
  exact ⟨List.mem_map.mpr ⟨c, hc, rfl⟩, hname⟩

/-- A table with the columns of a payload needs no schema step for it. -/
theorem absorbed_tableColumns (hnames : CiDistinct columns) :
    Absorbed (tableColumns columns) columns :=
  fun _ hc => ⟨_, findColumn_tableColumns hnames hc rfl, joinColumnTypes_self _⟩

/-- What needs no schema step on the columns of a payload needs none where the
payload needs none. -/
theorem Absorbed.trans {existing : List Column} {other : List RawColumn}
    (h : Absorbed existing columns) (h' : Absorbed (tableColumns columns) other)
    (hinferable : ∀ c ∈ columns, Inferable c.type) (hinferable' : ∀ c ∈ other, Inferable c.type) :
    Absorbed existing other := by
  intro c hc
  obtain ⟨e', he', hjoin'⟩ := h' c hc
  obtain ⟨hmem, hname⟩ := findColumn_some he'
  obtain ⟨c', hc', rfl⟩ := List.mem_map.mp hmem
  obtain ⟨e, he, hjoin⟩ := h c' hc'
  rw [findColumn_congr hname] at he
  exact ⟨e, he, joinColumnTypes_trans (hinferable c' hc') (hinferable' c hc) hjoin hjoin'⟩

/-- A payload that needs no schema step gets none. -/
theorem evolveNative_of_absorbed {t : Table} (h : Absorbed t.columns columns) :
    evolveNative duck catalog t columns = .ok { table := t, added := 0, widened := 0 } := by
  have hloop : ∀ cols : List RawColumn, (∀ c ∈ cols, c ∈ columns) → ∀ s : Evolved,
      cols.foldlM (evolveColumn duck catalog t.columns) s = .ok s := by
    intro cols
    induction cols with
    | nil => exact fun _ _ => rfl
    | cons c rest ih =>
        intro hsub s
        obtain ⟨e, he, hjoin⟩ := h _ (hsub _ List.mem_cons_self)
        have hstep : evolveColumn duck catalog t.columns s c = .ok s := by
          simp only [evolveColumn, he, hjoin, if_true]
        rw [List.foldlM_cons, hstep]
        exact ih (fun c hc => hsub c (List.mem_cons_of_mem _ hc)) s
  exact hloop columns (fun _ hc => hc) _

/-- One turn of the loop leaves the cells of columns of other names alone. -/
theorem cellAt_evolveColumn {t : Table} (hwf : t.WF) {done : List RawColumn} {s s' : Evolved}
    (h : EvolveInv t done s) {c : RawColumn}
    (hs : evolveColumn duck catalog t.columns s c = .ok s') {name : Bytes} {e : Column}
    (he : findColumn t.columns name = some e) (hne : lower c.name ≠ lower name) (row : Nat) :
    s'.table.cellAt row name = s.table.cellAt row name := by
  have hfound := h.isSome_findColumn he
  rcases evolveColumn_cases hs with ⟨-, rfl⟩ | ⟨-, -, -, rfl⟩ | ⟨e', table, he', -, ht, rfl⟩
  · exact Table.cellAt_addColumn (h.wf hwf) hfound row
  · rfl
  · exact Table.cellAt_changeType (h.wf hwf) (h.isSome_findColumn he') ht hne row

/-- A column whose type the payload's column of that name (if any) does not
widen holds after the schema step what it held before. -/
theorem evolveNative_cellAt {t : Table} (hwf : t.WF) (hnames : CiDistinct columns) {s : Evolved}
    (h : evolveNative duck catalog t columns = .ok s) {name : Bytes} {e : Column}
    (he : findColumn t.columns name = some e)
    (hkeep : ∀ c ∈ columns, lower c.name = lower name → joinColumnTypes e.type c.type = e.type)
    (row : Nat) : s.table.cellAt row name = t.cellAt row name := by
  refine (foldlM_rule (fun done (s : Evolved) => EvolveInv t done s ∧
    s.table.cellAt row name = t.cellAt row name) ?_ ⟨.init t, rfl⟩ h).2
  rintro done c rest s s' hsplit ⟨hinv, hcell⟩ hs
  refine ⟨hinv.step hwf.names (not_mem_rawNames (hsplit ▸ hnames)) hs, ?_⟩
  by_cases heq : lower c.name = lower name
  · have hjoin := hkeep c (hsplit ▸ List.mem_append_right _ List.mem_cons_self) heq
    have hfound : findColumn t.columns c.name = some e := (findColumn_congr heq).trans he
    simp only [evolveColumn, hfound, hjoin, if_true] at hs
    exact Except.ok.inj hs ▸ hcell
  · exact (cellAt_evolveColumn hwf hinv hs he heq row).trans hcell

end Evolve

end RawDuck
