import RawDuck.Grouping
import RawDuck.Naming
import Mathlib.Data.List.MinMax

/-!
# RawDuck.Projection

Rewriting count aggregations onto materialized projections.

`raw_project` stores the row counts of a group set in a table next to the base
table; the optimizer replaces `count(*)` over a scan of the base table by
`sum(count)` over a scan of that table.  Plans are DuckDB's bound plans, as far
as the rewrite looks at them; `eval` says what rows a plan of the rewritten
shape returns.

* `tryRewriteToProjection` — the rewrite, guard by guard;
* `projectionNames` / `projectionRows` — the table `raw_project` creates;
* `Matched` — what the guards have established when they all pass
  (`tryRewriteToProjection_eq_some`);
* `Matched.Transparent` — the names found in the projection table stand for
  what the plan means by them, and no row is filtered away from the count;
  `eval_rewritten_iff` says that this is what the equality of the two plans
  takes.
-/

namespace RawDuck

open Fallible Grouping

/-! ## values and tables -/

/-- A value: NULL, a `BIGINT` (or the `HUGEINT` a sum of them is), or one of
another type, by its content. -/
inductive Value where
  | null
  | bigint (n : Int)
  | other (data : Bytes)
  deriving DecidableEq, Repr

abbrev Row := List Value

/-- A column of the type can hold the value. -/
def Value.HasType : Value → LogicalType → Prop
  | .null, _ => True
  | .bigint _, type => type = .BIGINT
  | .other _, type => type ≠ .BIGINT

/-- What names a table: its catalog, schema and name. -/
structure TableName where
  catalog : Bytes
  schema : Bytes
  name : Bytes
  deriving DecidableEq, Repr

/-- `TableCatalogEntry`: what a table is called and its physical columns. -/
structure TableEntry extends TableName where
  columns : List Column
  distinct : (ciNames columns).Nodup

/-- `TableKey`. -/
def tableKey (table : TableName) : Bytes :=
  lower table.catalog ++ bytes "." ++ lower table.schema ++ bytes "." ++ lower table.name

/-- The rows of every table. -/
abbrev Contents := TableName → List Row

/-- A row has a value of the right type for each column. -/
def RowOf (columns : List Column) (row : Row) : Prop :=
  List.Forall₂ (fun value (column : Column) => value.HasType column.type) row columns

/-! ## bound plans -/

/-- `ColumnBinding`. -/
structure ColumnBinding where
  tableIndex : Nat
  columnIndex : Nat
  deriving DecidableEq, Repr

/-- A bound expression: `BoundColumnRefExpression`, `BoundCastExpression` or one
the rewrite does not look into. -/
inductive Expression where
  | columnRef (binding : ColumnBinding) (returnType : LogicalType)
  | cast (child : Expression) (type : LogicalType)
  | other
  deriving DecidableEq, Repr

/-- `BoundAggregateExpression`.  The filter is the `FILTER` clause, as a
condition on the row that is scanned. -/
structure BoundAggregateExpression where
  functionName : Bytes
  children : List Expression
  isDistinct : Bool
  filter : Option (Row → Option Bool)

/-- An expression among the aggregates of an aggregation, by whether its class
is `BOUND_AGGREGATE`. -/
inductive AggregateExpression where
  | boundAggregate (aggregate : BoundAggregateExpression)
  | other

/-- `LogicalGet`: a scan, of a base table when `table` says so.  The names of a
base table scan are the table's. -/
structure LogicalGet where
  tableIndex : Nat
  table : Option TableEntry
  names : List Bytes
  columnIds : List Nat
  tableFilters : List (Row → Bool)
  names_eq : ∀ entry, table = some entry → names = entry.columns.map Column.name

/-- `LogicalAggregate`.  Of the grouping sets only the number matters: with at
most one, every group is in it.  Groups and aggregates have table indexes of
their own. -/
structure LogicalAggregate where
  groupIndex : Nat
  aggregateIndex : Nat
  groups : List Expression
  groupingSets : Nat
  groupingFunctions : Nat
  expressions : List AggregateExpression
  index_ne : groupIndex ≠ aggregateIndex

/-- `LogicalOperator`. -/
inductive LogicalOperator where
  | get (get : LogicalGet)
  | aggregate (aggregate : LogicalAggregate) (children : List LogicalOperator)
  | projection (expressions : List Expression) (children : List LogicalOperator)
  | other (children : List LogicalOperator)

/-! ## evaluation -/

section

variable (reinterpret : Bytes → Int)

/-- A value read from a vector taken to be of type `BIGINT`; memory of another
type is reinterpreted. -/
def Value.asBigint : Value → Option Int
  | .null => none
  | .bigint n => some n
  | .other data => some (reinterpret data)

/-- An expression over a scanned row. -/
def scanValue (tableIndex : Nat) (row : Row) : Expression → Option Value
  | .columnRef binding _ =>
      if binding.tableIndex = tableIndex then row[binding.columnIndex]? else none
  | .cast child _ => scanValue tableIndex row child
  | .other => none

/-- The rows of a scan: the chosen columns of the rows that pass the filters. -/
def scan (contents : Contents) (get : LogicalGet) : List Row :=
  match get.table with
  | none => []
  | some table =>
      ((contents table.toTableName).filter fun row => get.tableFilters.all fun f => f row).map
        fun row => get.columnIds.map fun i => row.getD i .null

/-- The rows an aggregate takes in. -/
def passing (filter : Option (Row → Option Bool)) (rows : List Row) : List Row :=
  match filter with
  | none => rows
  | some condition => rows.filter fun row => condition row == some true

/-- `sum` over `BIGINT`: NULL without a value. -/
def sumValue (values : List (Option Int)) : Value :=
  if values.all Option.isNone then .null else .bigint (values.filterMap id).sum

/-- An aggregate over the scanned rows of one group. -/
def aggregateValue (tableIndex : Nat) (rows : List Row) : AggregateExpression → Option Value
  | .other => none
  | .boundAggregate aggregate =>
      if aggregate.functionName = bytes "count_star" then
        some (.bigint (passing aggregate.filter rows).length)
      else if aggregate.functionName = bytes "sum" then
        match aggregate.children with
        | [child] =>
            some (sumValue ((passing aggregate.filter rows).map fun row =>
              (scanValue tableIndex row child).bind (Value.asBigint reinterpret)))
        | _ => none
      else none

/-- A group of an aggregation: the values of its groups and of its aggregates. -/
abbrev GroupRow := List (Option Value) × List (Option Value)

/-- An aggregation with groups, over a scan. -/
def aggregateRows (contents : Contents) (aggregate : LogicalAggregate) (get : LogicalGet) :
    List GroupRow :=
  groupBy (fun row => aggregate.groups.map (scanValue get.tableIndex row))
    (fun rows => aggregate.expressions.map (aggregateValue reinterpret get.tableIndex rows))
    (scan contents get)

/-- An expression over an aggregation.  Casts between `HUGEINT` and `BIGINT`
keep a count. -/
def outputValue (aggregate : LogicalAggregate) (row : GroupRow) : Expression → Option Value
  | .columnRef binding _ =>
      if binding.tableIndex = aggregate.groupIndex then (row.1[binding.columnIndex]?).join
      else if binding.tableIndex = aggregate.aggregateIndex then
        (row.2[binding.columnIndex]?).join
      else none
  | .cast child _ => outputValue aggregate row child
  | .other => none

/-- The rows of a projection over an aggregation over a scan. -/
def eval (contents : Contents) : LogicalOperator → List (List (Option Value))
  | .projection expressions [.aggregate aggregate [.get get]] =>
      (aggregateRows reinterpret contents aggregate get).map fun row =>
        expressions.map (outputValue aggregate row)
  | _ => []

end

/-! ## projections -/

/-- `QueryResult::DeduplicateColumns`: a repeated name gets the first suffix
that is free. -/
def deduplicateColumns (seen : List Bytes) : List Bytes → List Bytes
  | [] => []
  | name :: rest =>
      let name := renameColumn seen name name 1 (seen.length + 1)
      name :: deduplicateColumns (name :: seen) rest

/-- `StringUtil::Join`. -/
def StringUtil.join (names : List Bytes) (separator : Bytes) : Bytes :=
  List.intercalate separator names

/-- The splitting loop of `StringUtil::Split`; `piece` is the text since the
last separator. -/
def splitFrom (separator : Bytes) (piece : Bytes) : (text : Bytes) → (fuel : Nat) → List Bytes
  | [], _ | _ :: _, 0 => [piece]
  | c :: text, fuel + 1 =>
      if separator.isPrefixOf (c :: text) then
        piece :: splitFrom separator [] ((c :: text).drop separator.length) fuel
      else splitFrom separator (piece ++ [c]) text fuel

/-- `StringUtil::Split`: empty pieces are left out, unless nothing is left. -/
def StringUtil.split (text separator : Bytes) : List Bytes :=
  let pieces := (splitFrom separator [] text text.length).filter fun piece => !piece.isEmpty
  if pieces.isEmpty then [text] else pieces

/-- `std::sort` over strings. -/
def sortNames (names : List Bytes) : List Bytes := names.mergeSort fun a b => decide (a ≤ b)

/-- The separator of group sets. -/
def groupSeparator : Bytes := bytes ", "

/-- The columns a group set stands for. -/
def groupColumns (groupSet : Bytes) : List Bytes := StringUtil.split groupSet groupSeparator

/-- The name of the count column. -/
def countName : Bytes := bytes "count"

/-- `RawStatsCache::Projection`. -/
structure Projection extends TableName where
  groupSet : Bytes
  baseRows : Nat

/-- The names of the columns of the table `raw_project` creates. -/
def projectionNames (groupSet : Bytes) : List Bytes :=
  deduplicateColumns [] (groupColumns groupSet ++ [countName])

/-- The base table columns a group set names, by position. -/
def projectionSources (base : TableEntry) (groupSet : Bytes) : Option (List Nat) :=
  (groupColumns groupSet).mapM (columnIndex base.columns)

/-- The rows `raw_project` stores: `SELECT ..., count(*) ... GROUP BY ALL`. -/
def projectionRows (sources : List Nat) (rows : List Row) : List Row :=
  (groupBy (fun row : Row => sources.map fun i => row.getD i .null) List.length rows).map
    fun group => group.1 ++ [.bigint group.2]

/-! ## the rewrite -/

/-- What the rewrite looks up: the registered projections by table key, the
catalog, and `GetTotalRows` of every table's storage. -/
structure Context where
  projections : Bytes → Option Projection
  getEntry : TableName → Option TableEntry
  totalRows : TableName → Nat

/-- `ResolveGetColumn`. -/
def resolveGetColumn (get : LogicalGet) (columnIndex : Nat) : Option Bytes :=
  get.columnIds[columnIndex]?.bind fun tableColumn => get.names[tableColumn]?

/-- The scanned column a group is. -/
def groupName (get : LogicalGet) : Expression → Option Bytes
  | .columnRef binding _ =>
      if binding.tableIndex ≠ get.tableIndex then none
      else resolveGetColumn get binding.columnIndex
  | .cast _ _ | .other => none

/-- `GetExpressionType() == ExpressionType::BOUND_COLUMN_REF`. -/
def Expression.isColumnRef : Expression → Bool
  | .columnRef _ _ => true
  | .cast _ _ | .other => false

/-- Exactly one `count(*)`, over one grouping set. -/
def acceptsAggregate (aggregate : LogicalAggregate) : Bool :=
  aggregate.groupingFunctions == 0 && aggregate.groupingSets ≤ 1 && !aggregate.groups.isEmpty &&
    match aggregate.expressions with
    | [.boundAggregate count] =>
        count.functionName == bytes "count_star" && count.children.isEmpty && !count.isDistinct
    | _ => false

/-- The registered projection of the table for exactly these groups, when it
is not older than the table. -/
def freshProjection (context : Context) (table : TableEntry) (names : List Bytes) :
    Option Projection :=
  match context.projections (tableKey table.toTableName) with
  | none => none
  | some projection =>
      if projection.groupSet ≠ StringUtil.join (sortNames names) groupSeparator then none
      else if context.totalRows table.toTableName ≠ projection.baseRows then none
      else some projection

/-- The scan of the projection table. -/
def projectionGet (tableIndex : Nat) (entry : TableEntry) (columnIds : List Nat) : LogicalGet where
  tableIndex := tableIndex
  table := some entry
  names := entry.columns.map Column.name
  columnIds := columnIds
  tableFilters := []
  names_eq _ h := by rw [Option.some.inj h]

/-- `LogicalType::HUGEINT`, the type of a sum of `BIGINT`s. -/
def hugeint : LogicalType := .plain .hugeint []

/-- The groups on the new scan, and the sum in place of the count. -/
def retarget (tableIndex : Nat) (aggregate : LogicalAggregate) : LogicalAggregate :=
  { aggregate with
    groups := aggregate.groups.mapIdx fun i group => match group with
      | .columnRef _ returnType => .columnRef ⟨tableIndex, i⟩ returnType
      | group => group
    expressions := [.boundAggregate
      { functionName := bytes "sum"
        children := [.columnRef ⟨tableIndex, aggregate.groups.length⟩ .BIGINT]
        isDistinct := false
        filter := none }] }

/-- A reference to the count, cast back to the type it had. -/
def retargetOutput (aggregate : LogicalAggregate) : Expression → Expression
  | .columnRef binding returnType =>
      if binding = ⟨aggregate.aggregateIndex, 0⟩ then
        .cast (.columnRef binding hugeint) returnType
      else .columnRef binding returnType
  | expression => expression

/-- `TryRewriteToProjection`: the rewritten plan, when it returns true. -/
def tryRewriteToProjection (context : Context) (parent : LogicalOperator) :
    Option LogicalOperator :=
  match parent with
  | .projection expressions [.aggregate aggregate [.get get]] =>
      match get.table with
      | none => none
      | some table =>
          if !get.tableFilters.isEmpty || !acceptsAggregate aggregate then none
          else do
            -- all groups are plain scanned columns
            let names ← aggregate.groups.mapM (groupName get)
            let projection ← freshProjection context table names
            let entry ← context.getEntry projection.toTableName
            -- the parent projection must reference aggregate outputs as plain columns
            if !expressions.all Expression.isColumnRef then none
            else do
              let groupIds ← names.mapM (columnIndex entry.columns)
              let countId ← columnIndex entry.columns countName
              return .projection (expressions.map (retargetOutput aggregate))
                [.aggregate (retarget get.tableIndex aggregate)
                  [.get (projectionGet get.tableIndex entry (groupIds ++ [countId]))]]
  | _ => none

/-! ## what the guards establish -/

/-- A plan the rewrite accepts, with what it found on the way. -/
structure Matched (context : Context) where
  expressions : List Expression
  aggregate : LogicalAggregate
  get : LogicalGet
  base : TableEntry
  count : BoundAggregateExpression
  names : List Bytes
  projection : Projection
  entry : TableEntry
  groupIds : List Nat
  countId : Nat
  table_eq : get.table = some base
  filters_eq : get.tableFilters = []
  groups_ne : aggregate.groups ≠ []
  expressions_eq : aggregate.expressions = [.boundAggregate count]
  function_eq : count.functionName = bytes "count_star"
  names_eq : aggregate.groups.mapM (groupName get) = some names
  projection_eq : freshProjection context base names = some projection
  entry_eq : context.getEntry projection.toTableName = some entry
  references : expressions.all Expression.isColumnRef = true
  groupIds_eq : names.mapM (columnIndex entry.columns) = some groupIds
  countId_eq : columnIndex entry.columns countName = some countId

namespace Matched

variable {context : Context} (m : Matched context)

/-- The accepted plan. -/
def plan : LogicalOperator := .projection m.expressions [.aggregate m.aggregate [.get m.get]]

/-- What it is rewritten to. -/
def rewritten : LogicalOperator :=
  .projection (m.expressions.map (retargetOutput m.aggregate))
    [.aggregate (retarget m.get.tableIndex m.aggregate)
      [.get (projectionGet m.get.tableIndex m.entry (m.groupIds ++ [m.countId]))]]

/-- The plan determines what the rewrite finds. -/
theorem plan_injective {m m' : Matched context} (h : m.plan = m'.plan) : m = m' := by
  obtain ⟨hexpressions, hchildren⟩ := LogicalOperator.projection.inj h
  obtain ⟨haggregate, hscan⟩ := LogicalOperator.aggregate.inj (List.singleton_inj.mp hchildren)
  have hget := LogicalOperator.get.inj (List.singleton_inj.mp hscan)
  clear hchildren hscan h
  cases m with
  | mk _ _ _ _ _ _ _ _ _ _ htable _ _ hcount _ hnames hprojection hentry _ hgroups hcountId =>
    cases m' with
    | mk _ _ _ _ _ _ _ _ _ _ htable' _ _ hcount' _ hnames' hprojection' hentry' _ hgroups'
        hcountId' =>
      dsimp only at hexpressions haggregate hget
      subst hexpressions haggregate hget
      obtain rfl := Option.some.inj (htable.symm.trans htable')
      obtain rfl := AggregateExpression.boundAggregate.inj
        (List.singleton_inj.mp (hcount.symm.trans hcount'))
      obtain rfl := Option.some.inj (hnames.symm.trans hnames')
      obtain rfl := Option.some.inj (hprojection.symm.trans hprojection')
      obtain rfl := Option.some.inj (hentry.symm.trans hentry')
      obtain rfl := Option.some.inj (hgroups.symm.trans hgroups')
      obtain rfl := Option.some.inj (hcountId.symm.trans hcountId')
      rfl

end Matched

theorem acceptsAggregate_spec {aggregate : LogicalAggregate}
    (h : acceptsAggregate aggregate = true) : aggregate.groups ≠ [] ∧
      ∃ count, aggregate.expressions = [.boundAggregate count] ∧
        count.functionName = bytes "count_star" := by
  simp only [acceptsAggregate, Bool.and_eq_true] at h
  obtain ⟨⟨⟨-, -⟩, hgroups⟩, hcount⟩ := h
  refine ⟨by simpa using hgroups, ?_⟩
  split at hcount
  · next count heq =>
    simp only [Bool.and_eq_true, beq_iff_eq] at hcount
    exact ⟨count, heq, hcount.1.1⟩
  · contradiction

/-- What is found is registered under the key of the table, with its row count. -/
theorem freshProjection_eq_some {context : Context} {table : TableEntry} {names : List Bytes}
    {projection : Projection} (h : freshProjection context table names = some projection) :
    context.projections (tableKey table.toTableName) = some projection ∧
      context.totalRows table.toTableName = projection.baseRows := by
  rw [freshProjection] at h
  split at h
  · contradiction
  · next found hfound =>
    split at h
    · contradiction
    · split at h
      · contradiction
      · next htotal =>
        obtain rfl := Option.some.inj h
        exact ⟨hfound, not_not.mp htotal⟩

/-- An accepted plan is a matched one. -/
theorem tryRewriteToProjection_eq_some {context : Context} {parent plan' : LogicalOperator}
    (h : tryRewriteToProjection context parent = some plan') :
    ∃ m : Matched context, parent = m.plan ∧ plan' = m.rewritten := by
  unfold tryRewriteToProjection at h
  split at h
  · next expressions aggregate get =>
    split at h
    · contradiction
    · next base hbase =>
      split at h
      · contradiction
      · next hguards =>
        simp only [Bool.or_eq_true, Bool.not_eq_true', not_or, Bool.not_eq_false] at hguards
        obtain ⟨hfilters, haccepts⟩ := hguards
        obtain ⟨hgroups, count, hcount, hfunction⟩ := acceptsAggregate_spec haccepts
        simp only [Option.bind_eq_bind, Option.bind_eq_some_iff] at h
        obtain ⟨names, hnames, projection, hprojection, entry, hentry, h⟩ := h
        split at h
        · contradiction
        · next hrefs =>
          obtain ⟨groupIds, hgroupIds, h⟩ := Option.bind_eq_some_iff.mp h
          obtain ⟨countId, hcountId, h⟩ := Option.bind_eq_some_iff.mp h
          exact ⟨{
            expressions := expressions, aggregate := aggregate, get := get, base := base
            count := count, names := names, projection := projection, entry := entry
            groupIds := groupIds, countId := countId, table_eq := hbase
            filters_eq := List.isEmpty_iff.mp hfilters, groups_ne := hgroups
            expressions_eq := hcount, function_eq := hfunction, names_eq := hnames
            projection_eq := hprojection, entry_eq := hentry
            references := by simpa using hrefs, groupIds_eq := hgroupIds
            countId_eq := hcountId }, rfl, (Option.some.inj h).symm⟩
  · contradiction

namespace Matched

variable {context : Context} (m : Matched context)

/-- The scanned row of a base table row. -/
def scanned (row : Row) : Row := m.get.columnIds.map fun i => row.getD i .null

/-- A group column reads its base table column. -/
theorem groupName_spec {group : Expression} {name : Bytes}
    (h : groupName m.get group = some name) :
    ∃ slot, columnIndex m.base.columns name = some slot ∧
      ∀ row, scanValue m.get.tableIndex (m.scanned row) group = some (row.getD slot .null) := by
  cases group with
  | columnRef binding returnType =>
      rw [groupName] at h
      split at h
      · contradiction
      · next htable =>
        obtain ⟨slot, hslot, hname⟩ := Option.bind_eq_some_iff.mp h
        rw [m.get.names_eq _ m.table_eq, List.getElem?_map] at hname
        obtain ⟨c, hc, rfl⟩ := Option.map_eq_some_iff.mp hname
        refine ⟨slot, (columnIndex_eq_some m.base.distinct).mpr ⟨c, hc, rfl⟩, fun row => ?_⟩
        rw [scanValue, if_pos (not_not.mp htable), scanned, List.getElem?_map, hslot]
        rfl
  | cast child type => contradiction
  | other => contradiction

/-- The base table columns of the groups. -/
theorem exists_slots : ∃ slots, m.names.mapM (columnIndex m.base.columns) = some slots ∧
    ∀ row, m.aggregate.groups.map (scanValue m.get.tableIndex (m.scanned row)) =
      slots.map fun i => some (row.getD i .null) := by
  have hnames := mapM_eq_some.mp m.names_eq
  generalize m.aggregate.groups = groups at hnames ⊢
  generalize m.names = names at hnames ⊢
  induction hnames with
  | nil => exact ⟨[], rfl, fun _ => rfl⟩
  | @cons group name groups names hname _ ih =>
      obtain ⟨slots, hslots, hrow⟩ := ih
      obtain ⟨slot, hslot, hvalue⟩ := m.groupName_spec hname
      refine ⟨slot :: slots, mapM_eq_some.mpr (.cons hslot (mapM_eq_some.mp hslots)), fun row => ?_⟩
      rw [List.map_cons, List.map_cons, hvalue, hrow]

/-- The aggregation of the accepted plan. -/
theorem aggregateRows_plan (reinterpret : Bytes → Int) (contents : Contents) {slots : List Nat}
    (hslots : ∀ row, m.aggregate.groups.map (scanValue m.get.tableIndex (m.scanned row)) =
      slots.map fun i => some (row.getD i .null)) :
    aggregateRows reinterpret contents m.aggregate m.get =
      groupBy (fun row : Row => slots.map fun i => some (row.getD i .null))
        (fun rows => [some (.bigint (passing m.count.filter (rows.map m.scanned)).length)])
        (contents m.base.toTableName) := by
  have hscan : scan contents m.get = (contents m.base.toTableName).map m.scanned := by
    rw [scan, m.table_eq, m.filters_eq]
    simp only [List.all_nil, List.filter_true]
    rfl
  have hcount : ∀ rows, m.aggregate.expressions.map
      (aggregateValue reinterpret m.get.tableIndex rows) =
      [some (.bigint (passing m.count.filter rows).length)] := by
    intro rows
    rw [m.expressions_eq, List.map_singleton, aggregateValue, if_pos m.function_eq]
  rw [aggregateRows, hscan, groupBy_map]
  simp only [hslots, hcount]

/-- The groups of the rewritten aggregation, over a scanned row. -/
theorem map_retargeted_groups (row : Row) :
    (retarget m.get.tableIndex m.aggregate).groups.map
        (scanValue m.get.tableIndex ((m.groupIds ++ [m.countId]).map fun j => row.getD j .null)) =
      m.groupIds.map fun j => some (row.getD j .null) := by
  have hnames := mapM_eq_some.mp m.names_eq
  have hids := mapM_eq_some.mp m.groupIds_eq
  have hlen : m.aggregate.groups.length = m.groupIds.length :=
    hnames.length_eq.trans hids.length_eq
  apply List.ext_getElem
  · simp [retarget, hlen]
  · intro i hi hi'
    have hig : i < m.aggregate.groups.length := by simpa [retarget] using hi
    have hii : i < m.groupIds.length := hlen ▸ hig
    have hin : i < m.names.length := hnames.length_eq ▸ hig
    have hname : groupName m.get m.aggregate.groups[i] = some m.names[i] := hnames.get hig hin
    simp only [retarget, List.getElem_map, List.getElem_mapIdx]
    cases hgroup : m.aggregate.groups[i] with
    | columnRef binding returnType =>
        simp only [scanValue, if_true]
        rw [List.getElem?_map, List.getElem?_append_left hii, List.getElem?_eq_getElem hii]
        rfl
    | cast child type =>
        rw [hgroup] at hname
        contradiction
    | other =>
        rw [hgroup] at hname
        contradiction

/-- The aggregation of the rewritten plan. -/
theorem aggregateRows_rewritten (reinterpret : Bytes → Int) (contents : Contents) :
    aggregateRows reinterpret contents (retarget m.get.tableIndex m.aggregate)
        (projectionGet m.get.tableIndex m.entry (m.groupIds ++ [m.countId])) =
      groupBy (fun row : Row => m.groupIds.map fun j => some (row.getD j .null))
        (fun rows => [some (sumValue (rows.map fun row =>
          (row.getD m.countId .null).asBigint reinterpret))])
        (contents m.entry.toTableName) := by
  have hlen : m.aggregate.groups.length = m.groupIds.length :=
    (mapM_eq_some.mp m.names_eq).length_eq.trans (mapM_eq_some.mp m.groupIds_eq).length_eq
  have hscan : scan contents (projectionGet m.get.tableIndex m.entry (m.groupIds ++ [m.countId])) =
      (contents m.entry.toTableName).map
        fun row => (m.groupIds ++ [m.countId]).map fun j => row.getD j .null := by
    simp only [scan, projectionGet, List.all_nil, List.filter_true]
  have hsum : ∀ rows : List Row, (retarget m.get.tableIndex m.aggregate).expressions.map
      (aggregateValue reinterpret m.get.tableIndex
        (rows.map fun row => (m.groupIds ++ [m.countId]).map fun j => row.getD j .null)) =
      [some (sumValue (rows.map fun row =>
        (row.getD m.countId .null).asBigint reinterpret))] := by
    intro rows
    have hname : bytes "sum" ≠ bytes "count_star" := by decide
    simp only [retarget, List.map_singleton, aggregateValue, if_neg hname, if_true, passing,
      List.map_map, Function.comp_def, scanValue, hlen]
    simp
  have hindex : (projectionGet m.get.tableIndex m.entry (m.groupIds ++ [m.countId])).tableIndex =
      m.get.tableIndex := rfl
  rw [aggregateRows, hscan, groupBy_map, hindex]
  simp only [m.map_retargeted_groups, hsum]

end Matched

/-- The outputs of the rewritten plan are those of the plan, over its rows. -/
theorem outputValue_retarget (tableIndex : Nat) (aggregate : LogicalAggregate) (row : GroupRow)
    (e : Expression) :
    outputValue (retarget tableIndex aggregate) row (retargetOutput aggregate e) =
      outputValue aggregate row e := by
  have hsame : ∀ e, outputValue (retarget tableIndex aggregate) row e =
      outputValue aggregate row e := by
    intro e
    induction e with
    | columnRef binding returnType => rfl
    | cast child type ih => rw [outputValue, outputValue, ih]
    | other => rfl
  cases e with
  | columnRef binding returnType =>
      rw [retargetOutput]
      split
      · rw [hsame, outputValue, outputValue, outputValue]
      · exact hsame _
  | cast child type => exact hsame _
  | other => rfl

/-! ## the two plans over one projection table -/

namespace Matched

variable {context : Context} (m : Matched context)

/-- The name `raw_project` gives the projection table. -/
def projectionName : TableName :=
  { m.base.toTableName with name := m.base.name ++ bytes "__proj" }

/-- The projection is one `raw_project` registered: the table next to the base
table, created from the columns the group set names. -/
structure Registered (sources : List Nat) : Prop where
  name_eq : m.entry.toTableName = m.projectionName
  columns_eq : m.entry.columns.map Column.name = projectionNames m.projection.groupSet
  sources_eq : projectionSources m.base m.projection.groupSet = some sources

/-- The projection table holds what `raw_project` stores for the rows of the
base table. -/
structure Fresh (sources : List Nat) (contents : Contents) : Prop where
  typed : ∀ row ∈ contents m.base.toTableName, RowOf m.base.columns row
  rows : (contents m.entry.toTableName).Perm
    (projectionRows sources (contents m.base.toTableName))

/-- Some output of the plan is the count. -/
def ReadsCount : Prop :=
  ∃ returnType, Expression.columnRef ⟨m.aggregate.aggregateIndex, 0⟩ returnType ∈ m.expressions

/-- The aggregate counts the row: its `FILTER` clause, if any, is true of it. -/
def Counts (row : Row) : Prop :=
  ∀ condition, m.count.filter = some condition → condition (m.scanned row) = some true

/-- The names found in the projection table stand for what the plan means: a
group's name for a column made from that group, and, when the count is read,
`count` for the counts, which no `FILTER` clause lessens. -/
structure Transparent : Prop where
  groups : List.Forall₂ (fun name j =>
    (groupColumns m.projection.groupSet)[j]?.map lower = some (lower name)) m.names m.groupIds
  count : m.ReadsCount → m.countId = (groupColumns m.projection.groupSet).length ∧
    ∀ row, RowOf m.base.columns row → m.Counts row

/-- The outputs of the plan for a group. -/
def output (row : GroupRow) : List (Option Value) :=
  m.expressions.map (outputValue m.aggregate row)

theorem eval_plan (reinterpret : Bytes → Int) (contents : Contents) :
    eval reinterpret contents m.plan =
      (aggregateRows reinterpret contents m.aggregate m.get).map m.output := rfl

theorem eval_rewritten (reinterpret : Bytes → Int) (contents : Contents) :
    eval reinterpret contents m.rewritten =
      (aggregateRows reinterpret contents (retarget m.get.tableIndex m.aggregate)
        (projectionGet m.get.tableIndex m.entry (m.groupIds ++ [m.countId]))).map m.output := by
  have houtput : ∀ row : GroupRow, (m.expressions.map (retargetOutput m.aggregate)).map
      (outputValue (retarget m.get.tableIndex m.aggregate) row) = m.output row := by
    intro row
    rw [List.map_map]
    exact List.map_congr_left fun e _ => outputValue_retarget _ _ _ e
  rw [rewritten, eval]
  exact List.map_congr_left fun row _ => houtput row

/-- Outputs that do not read the count only depend on the groups. -/
theorem output_congr (h : ¬ m.ReadsCount) (key : List (Option Value)) (v w : Option Value) :
    m.output (key, [v]) = m.output (key, [w]) := by
  apply List.map_congr_left
  intro e he
  have href := List.all_eq_true.mp m.references e he
  cases e with
  | columnRef binding returnType =>
      rw [outputValue, outputValue]
      split
      · rfl
      · split
        · next hindex =>
          cases hk : binding.columnIndex with
          | zero =>
              refine absurd ⟨returnType, ?_⟩ h
              rw [← hindex, ← hk]
              exact he
          | succ k => rfl
        · rfl
  | cast child type => contradiction
  | other => contradiction

/-- An output that reads the count tells counts apart. -/
theorem output_count (h : m.ReadsCount) {key key' : List (Option Value)} {v w : Value}
    (heq : m.output (key, [some v]) = m.output (key', [some w])) : v = w := by
  obtain ⟨returnType, he⟩ := h
  have hvalue := List.map_inj_left.mp heq _ he
  simp only [outputValue, if_neg m.aggregate.index_ne.symm, if_true] at hvalue
  exact Option.some.inj hvalue

end Matched

/-! ## rows of the projection table -/

theorem mem_projectionRows {sources : List Nat} {rows : List Row} {row : Row} :
    row ∈ projectionRows sources rows ↔ ∃ r ∈ rows,
      row = (sources.map fun i => r.getD i .null) ++
        [.bigint (group (fun r : Row => sources.map fun i => r.getD i .null) rows
          (sources.map fun i => r.getD i .null)).length] := by
  simp only [projectionRows, groupBy, List.mem_map, mem_keys]
  constructor
  · rintro ⟨_, ⟨_, ⟨r, hr, rfl⟩, rfl⟩, rfl⟩
    exact ⟨r, hr, rfl⟩
  · rintro ⟨r, hr, rfl⟩
    exact ⟨_, ⟨_, ⟨r, hr, rfl⟩, rfl⟩, rfl⟩

/-- A source column of a stored row. -/
theorem getD_source {sources : List Nat} (row : Row) (last : Value) {j source : Nat}
    (h : sources[j]? = some source) :
    ((sources.map fun i => row.getD i .null) ++ [last]).getD j .null = row.getD source .null := by
  have hj := (List.getElem?_eq_some_iff.mp h).1
  rw [List.getD_eq_getElem?_getD, List.getElem?_append_left (by simpa using hj), List.getElem?_map,
    h]
  rfl

/-- The count of a stored row. -/
theorem getD_count (sources : List Nat) (row : Row) (last : Value) :
    ((sources.map fun i => row.getD i .null) ++ [last]).getD sources.length .null = last := by
  rw [List.getD_eq_getElem?_getD, List.getElem?_append_right (by simp)]
  simp

/-- The sum of counts. -/
theorem sumValue_counts {counts : List Nat} (h : counts ≠ []) :
    sumValue (counts.map fun n : Nat => some (n : Int)) = .bigint (counts.sum : Nat) := by
  have hsome : (counts.map fun n : Nat => some (n : Int)).all Option.isNone = false := by
    cases counts with
    | nil => contradiction
    | cons n counts => rfl
  have hvalues : (counts.map fun n : Nat => some (n : Int)).filterMap id =
      counts.map fun n : Nat => (n : Int) := by
    rw [List.filterMap_map, ← List.filterMap_eq_map]
    rfl
  have hsum : ∀ counts : List Nat,
      (counts.map fun n : Nat => (n : Int)).sum = (counts.sum : Nat) := by
    intro counts
    induction counts with
    | nil => rfl
    | cons n counts ih => rw [List.map_cons, List.sum_cons, List.sum_cons, ih, Int.natCast_add]
  rw [sumValue, hsome, hvalues, hsum]
  rfl

theorem sumValue_perm {values values' : List (Option Int)} (h : values.Perm values') :
    sumValue values = sumValue values' := by
  have hall : values.all Option.isNone = values'.all Option.isNone := by
    rw [Bool.eq_iff_iff, List.all_eq_true, List.all_eq_true]
    simp only [h.mem_iff]
  rw [sumValue, sumValue, hall, (h.filterMap id).sum_eq]

/-! ## when the rewrite keeps the rows -/

namespace Matched

variable {context : Context} (m : Matched context)

/-- The source of the projection column a name finds is the base table column
of that name. -/
theorem Registered.source {m : Matched context} {sources : List Nat} (h : m.Registered sources)
    {j : Nat} {piece : Bytes} (hpiece : (groupColumns m.projection.groupSet)[j]? = some piece) :
    ∃ source, sources[j]? = some source ∧ columnIndex m.base.columns piece = some source := by
  have hall := mapM_eq_some.mp h.sources_eq
  obtain ⟨hj, rfl⟩ := List.getElem?_eq_some_iff.mp hpiece
  have hj' : j < sources.length := hall.length_eq ▸ hj
  exact ⟨_, List.getElem?_eq_getElem hj', hall.get hj hj'⟩

/-- When the names stand for their columns, the groups of a stored row are
those of the row it was made from. -/
theorem Transparent.groups_eq {m : Matched context} (h : m.Transparent) {sources slots : List Nat}
    (hreg : m.Registered sources)
    (hslots : m.names.mapM (columnIndex m.base.columns) = some slots) (row : Row) (last : Value) :
    (m.groupIds.map fun j =>
        some (((sources.map fun i => row.getD i .null) ++ [last]).getD j .null)) =
      slots.map fun i => some (row.getD i .null) := by
  have hnames := mapM_eq_some.mp hslots
  have hgroups := h.groups
  clear hslots
  generalize m.names = names at hnames hgroups
  generalize m.groupIds = groupIds at hgroups ⊢
  induction hgroups generalizing slots with
  | nil =>
      cases hnames
      rfl
  | @cons name j names groupIds hname _ ih =>
      cases hnames with
      | @cons _ slot _ slots hslot hnames =>
          obtain ⟨piece, hpiece, hlower⟩ := Option.map_eq_some_iff.mp hname
          obtain ⟨source, hsource, hidx⟩ := hreg.source hpiece
          rw [columnIndex_congr hlower, hslot] at hidx
          obtain rfl := Option.some.inj hidx
          rw [List.map_cons, List.map_cons, getD_source row last hsource,
            ih hnames]

/-- Over a stored table, the sum for a key is the number of base rows of it. -/
theorem Transparent.sum_eq {m : Matched context} (h : m.Transparent) {sources slots : List Nat}
    (hreg : m.Registered sources) (hcount : m.countId = sources.length)
    (hslots : m.names.mapM (columnIndex m.base.columns) = some slots) (reinterpret : Bytes → Int)
    (rows : List Row) {k : List (Option Value)}
    (hk : k ∈ keys (fun row : Row => slots.map fun i => some (row.getD i .null)) rows) :
    sumValue ((group (fun row : Row => m.groupIds.map fun j => some (row.getD j .null))
        (projectionRows sources rows) k).map fun row =>
          (row.getD m.countId .null).asBigint reinterpret) =
      .bigint
        (group (fun row : Row => slots.map fun i => some (row.getD i .null)) rows k).length := by
  have hkey := h.groups_eq hreg hslots
  let fine : Row → Row := fun row => sources.map fun i => row.getD i .null
  let coarse : Row → List (Option Value) := fun key =>
    m.groupIds.map fun j => some ((key ++ [Value.null]).getD j .null)
  have hfine : ∀ g ∈ groupBy fine List.length rows, ∃ row, g.1 = fine row := by
    intro g hg
    obtain ⟨key, hkeys, rfl⟩ := List.mem_map.mp hg
    obtain ⟨row, -, rfl⟩ := mem_keys.mp hkeys
    exact ⟨row, rfl⟩
  have hgroup : group (fun row : Row => m.groupIds.map fun j => some (row.getD j .null))
      (projectionRows sources rows) k =
      (group (fun g => coarse g.1) (groupBy fine List.length rows) k).map
        fun g => g.1 ++ [.bigint g.2] := by
    rw [projectionRows, group_map]
    refine congrArg (List.map _) (group_congr (fun g hg => ?_) k)
    obtain ⟨row, hrow⟩ := hfine g hg
    have hsame := (hkey row (.bigint g.2)).trans (hkey row .null).symm
    dsimp only [coarse]
    rw [hrow]
    exact hsame
  have hvalues : ((group (fun g => coarse g.1) (groupBy fine List.length rows) k).map
      fun g => g.1 ++ [.bigint g.2]).map
        (fun row => (row.getD m.countId .null).asBigint reinterpret) =
      (((group (fun g => coarse g.1) (groupBy fine List.length rows) k).map Prod.snd).map
        fun n : Nat => some (n : Int)) := by
    rw [List.map_map, List.map_map]
    refine List.map_congr_left fun g hg => ?_
    obtain ⟨row, hrow⟩ := hfine g (List.mem_filter.mp hg).1
    simp only [Function.comp_apply]
    rw [hrow, hcount, getD_count]
    rfl
  have hne : (group (fun g => coarse g.1) (groupBy fine List.length rows) k).map Prod.snd ≠ [] := by
    obtain ⟨row, hrow, rfl⟩ := mem_keys.mp hk
    have hmem : (fine row, (group fine rows (fine row)).length) ∈
        group (fun g => coarse g.1) (groupBy fine List.length rows)
          (slots.map fun i => some (row.getD i .null)) := by
      rw [group, List.mem_filter]
      refine ⟨List.mem_map.mpr ⟨fine row, mem_keys.mpr ⟨row, hrow, rfl⟩, rfl⟩, ?_⟩
      exact decide_eq_true (hkey row .null)
    exact List.ne_nil_of_mem (List.mem_map_of_mem hmem)
  have hroll := sum_roll_up fine coarse rows k
  have hcoarse : (fun row => coarse (fine row)) =
      fun row : Row => slots.map fun i => some (row.getD i .null) :=
    funext fun row => hkey row .null
  rw [hcoarse] at hroll
  rw [hgroup, hvalues, sumValue_counts hne, hroll]

/-- Rows that are all counted are all passed on to the aggregate. -/
theorem passing_of_counts {rows : List Row} (h : ∀ row ∈ rows, m.Counts row) :
    passing m.count.filter (rows.map m.scanned) = rows.map m.scanned := by
  cases hfilter : m.count.filter with
  | none => rfl
  | some condition =>
      rw [passing, List.filter_eq_self]
      intro scanned hscanned
      obtain ⟨row, hrow, rfl⟩ := List.mem_map.mp hscanned
      rw [h row hrow condition hfilter]
      rfl

/-- The rewritten plan returns the rows of the plan when the names found are
what they stand for. -/
theorem Transparent.eval_perm {m : Matched context} (h : m.Transparent) {sources : List Nat}
    (hreg : m.Registered sources) (reinterpret : Bytes → Int) {contents : Contents}
    (hfresh : m.Fresh sources contents) :
    (eval reinterpret contents m.rewritten).Perm (eval reinterpret contents m.plan) := by
  obtain ⟨slots, hslots, hscanned⟩ := m.exists_slots
  rw [eval_plan, eval_rewritten, m.aggregateRows_plan reinterpret contents hscanned,
    m.aggregateRows_rewritten]
  set rows := contents m.base.toTableName with hrows
  have hkey := h.groups_eq hreg hslots
  have hkeys : ∀ k, k ∈ keys (fun row : Row => m.groupIds.map fun j => some (row.getD j .null))
      (contents m.entry.toTableName) ↔
      k ∈ keys (fun row : Row => slots.map fun i => some (row.getD i .null)) rows := by
    intro k
    rw [mem_keys_of_perm hfresh.rows, mem_keys, mem_keys]
    constructor
    · rintro ⟨_, hrow, rfl⟩
      obtain ⟨r, hr, rfl⟩ := mem_projectionRows.mp hrow
      exact ⟨r, hr, (hkey r _).symm⟩
    · rintro ⟨r, hr, rfl⟩
      exact ⟨_, mem_projectionRows.mpr ⟨r, hr, rfl⟩, hkey r _⟩
  refine groupBy_perm hkeys fun k hk => ?_
  by_cases hreads : m.ReadsCount
  · obtain ⟨hcount, hcounts⟩ := h.count hreads
    have hlength : (groupColumns m.projection.groupSet).length = sources.length :=
      (mapM_eq_some.mp hreg.sources_eq).length_eq
    have hcounted : ∀ row ∈ group (fun row : Row => slots.map fun i => some (row.getD i .null))
        rows k, m.Counts row :=
      fun row hrow => hcounts row (hfresh.typed row (List.mem_filter.mp hrow).1)
    rw [m.passing_of_counts hcounted, List.length_map,
      sumValue_perm ((group_perm hfresh.rows k).map _),
      h.sum_eq hreg (hcount.trans hlength) hslots reinterpret rows ((hkeys k).mp hk)]
  · exact m.output_congr hreads k _ _

/-- Contents in which the base table has these rows and the projection is
fresh. -/
def stored (sources : List Nat) (rows : List Row) : Contents := fun table =>
  if table = m.base.toTableName then rows else projectionRows sources rows

theorem Registered.entry_ne {m : Matched context} {sources : List Nat}
    (h : m.Registered sources) : m.entry.toTableName ≠ m.base.toTableName := by
  intro heq
  have hlen := congrArg (fun table => table.name.length) (h.name_eq.symm.trans heq)
  have hsuffix : (bytes "__proj").length = 6 := rfl
  simp only [projectionName, List.length_append, hsuffix] at hlen
  omega

theorem fresh_stored {m : Matched context} {sources : List Nat} (hreg : m.Registered sources)
    {rows : List Row} (htyped : ∀ row ∈ rows, RowOf m.base.columns row) :
    m.Fresh sources (m.stored sources rows) := by
  constructor
  · intro row hrow
    rw [stored, if_pos rfl] at hrow
    exact htyped row hrow
  · rw [stored, stored, if_pos rfl, if_neg hreg.entry_ne]

/-- What the equality of the plans says about these rows. -/
theorem kept {m : Matched context} {sources slots : List Nat} (hreg : m.Registered sources)
    {reinterpret : Bytes → Int}
    (hkeep : ∀ contents, m.Fresh sources contents →
      (eval reinterpret contents m.rewritten).Perm (eval reinterpret contents m.plan))
    (hscanned : ∀ row, m.aggregate.groups.map (scanValue m.get.tableIndex (m.scanned row)) =
      slots.map fun i => some (row.getD i .null))
    {rows : List Row} (htyped : ∀ row ∈ rows, RowOf m.base.columns row) :
    ((groupBy (fun row : Row => m.groupIds.map fun j => some (row.getD j .null))
        (fun rows => [some (sumValue (rows.map fun row =>
          (row.getD m.countId .null).asBigint reinterpret))])
        (projectionRows sources rows)).map m.output).Perm
      ((groupBy (fun row : Row => slots.map fun i => some (row.getD i .null))
        (fun rows => [some (.bigint (passing m.count.filter (rows.map m.scanned)).length)])
        rows).map m.output) := by
  have hfresh := fresh_stored hreg htyped
  have hrows := hkeep _ hfresh
  have hprojection : m.stored sources rows m.entry.toTableName = projectionRows sources rows := by
    rw [stored, if_neg hreg.entry_ne]
  rw [eval_plan, eval_rewritten, m.aggregateRows_plan reinterpret _ hscanned,
    m.aggregateRows_rewritten, hprojection, stored, if_pos rfl] at hrows
  exact hrows

end Matched

/-! ## rows that tell the plans apart -/

/-- The row of NULLs. -/
def nullRow (columns : List Column) : Row := columns.map fun _ => .null

/-- A value of the type that is not NULL. -/
def someValue (type : LogicalType) : Value := if type = .BIGINT then .bigint 0 else .other []

theorem hasType_someValue (type : LogicalType) : (someValue type).HasType type := by
  rw [someValue]
  split
  · next h => exact h
  · next h => exact h

theorem someValue_ne_null (type : LogicalType) : someValue type ≠ .null := by
  rw [someValue]
  split <;> simp

/-- The row with one value, in the column at a position. -/
def oneValueRow (columns : List Column) (slot : Nat) : Row :=
  columns.mapIdx fun i c => if i = slot then someValue c.type else .null

theorem rowOf_nullRow (columns : List Column) : RowOf columns (nullRow columns) := by
  rw [RowOf, nullRow, List.forall₂_map_left_iff, List.forall₂_same]
  exact fun _ _ => trivial

theorem rowOf_oneValueRow (columns : List Column) (slot : Nat) :
    RowOf columns (oneValueRow columns slot) := by
  rw [RowOf, List.forall₂_iff_get]
  refine ⟨List.length_mapIdx, fun i hi hi' => ?_⟩
  simp only [oneValueRow, List.get_eq_getElem, List.getElem_mapIdx]
  split
  · exact hasType_someValue _
  · trivial

theorem getD_nullRow (columns : List Column) (i : Nat) :
    (nullRow columns).getD i .null = .null := by
  rw [nullRow, List.getD_eq_getElem?_getD, List.getElem?_map]
  cases columns[i]? <;> rfl

theorem getD_oneValueRow_of_ne (columns : List Column) {slot i : Nat} (h : i ≠ slot) :
    (oneValueRow columns slot).getD i .null = .null := by
  rw [oneValueRow, List.getD_eq_getElem?_getD, List.getElem?_mapIdx]
  cases columns[i]? with
  | none => rfl
  | some c => simp [h]

theorem getD_oneValueRow {columns : List Column} {slot : Nat} (h : slot < columns.length) :
    (oneValueRow columns slot).getD slot .null ≠ .null := by
  rw [oneValueRow, List.getD_eq_getElem?_getD, List.getElem?_mapIdx, List.getElem?_eq_getElem h]
  simpa using someValue_ne_null _

/-! ## names of the projection table -/

/-- A column of the created table keeps its name or gets a longer one. -/
theorem getElem?_deduplicateColumns {seen names : List Bytes} {j : Nat} {out : Bytes}
    (h : (deduplicateColumns seen names)[j]? = some out) :
    ∃ name, names[j]? = some name ∧ (out = name ∨ name.length < out.length) := by
  induction names generalizing seen j with
  | nil => simp [deduplicateColumns] at h
  | cons name rest ih =>
      rw [deduplicateColumns] at h
      cases j with
      | zero =>
          obtain ⟨k, hk, -⟩ := renameColumn_first seen name
          refine ⟨name, rfl, ?_⟩
          rw [List.getElem?_cons_zero, Option.some.injEq] at h
          rw [← h, hk]
          cases k with
          | zero => exact .inl rfl
          | succ k =>
              right
              have hunderscore : (bytes "_").length = 1 := rfl
              simp only [candidate, List.length_append, hunderscore]
              omega
      | succ j => exact ih h

theorem length_deduplicateColumns (seen names : List Bytes) :
    (deduplicateColumns seen names).length = names.length := by
  induction names generalizing seen with
  | nil => rfl
  | cons name rest ih => simp [deduplicateColumns, ih]

namespace Matched

variable {context : Context} {m : Matched context} {sources slots : List Nat}

/-- What a name finds in the projection table. -/
theorem Registered.found (hreg : m.Registered sources) {name : Bytes} {j : Nat}
    (h : columnIndex m.entry.columns name = some j) :
    ∃ out, (projectionNames m.projection.groupSet)[j]? = some out ∧ lower out = lower name := by
  obtain ⟨c, hc, hname⟩ := (columnIndex_eq_some m.entry.distinct).mp h
  refine ⟨c.name, ?_, hname⟩
  rw [← hreg.columns_eq, List.getElem?_map, hc]
  rfl

/-- It is one of the group columns or the counts. -/
theorem Registered.found_le (hreg : m.Registered sources) {name : Bytes} {j : Nat}
    (h : columnIndex m.entry.columns name = some j) : j ≤ sources.length := by
  obtain ⟨out, hout, -⟩ := hreg.found h
  have hlt := (List.getElem?_eq_some_iff.mp hout).1
  have hlen : (groupColumns m.projection.groupSet).length = sources.length :=
    (mapM_eq_some.mp hreg.sources_eq).length_eq
  rw [projectionNames, length_deduplicateColumns, List.length_append, hlen] at hlt
  simpa using Nat.lt_succ_iff.mp hlt

/-- A name finds the column made from `x` only if it is `x` or longer. -/
theorem Registered.name_or_longer (hreg : m.Registered sources) {name piece : Bytes} {j : Nat}
    (h : columnIndex m.entry.columns name = some j)
    (hpiece : (groupColumns m.projection.groupSet)[j]? = some piece) :
    lower piece = lower name ∨ piece.length < name.length := by
  obtain ⟨out, hout, hlower⟩ := hreg.found h
  obtain ⟨name', hname', hor⟩ := getElem?_deduplicateColumns hout
  rw [List.getElem?_append_left (List.getElem?_eq_some_iff.mp hpiece).1, hpiece] at hname'
  obtain rfl := Option.some.inj hname'
  rcases hor with rfl | hlonger
  · exact .inl hlower
  · rw [← length_lower name, ← hlower, length_lower]
    exact .inr hlonger

/-- Two base rows that differ in one group column, the longest name that finds
another column, are one group of the rewritten plan. -/
theorem Registered.merged (hreg : m.Registered sources) {x : Bytes} {jx s : Nat}
    (hx : columnIndex m.entry.columns x = some jx) (hs : columnIndex m.base.columns x = some s)
    (hfails : (groupColumns m.projection.groupSet)[jx]?.map lower ≠ some (lower x))
    (hmax : ∀ z j, (z, j) ∈ m.names.zip m.groupIds →
      (groupColumns m.projection.groupSet)[j]?.map lower ≠ some (lower z) → z.length ≤ x.length) :
    (keys (fun row : Row => m.groupIds.map fun j => some (row.getD j .null))
      (projectionRows sources
        [nullRow m.base.columns, oneValueRow m.base.columns s])).length ≤ 1 := by
  have hids := mapM_eq_some.mp m.groupIds_eq
  have hlen : (groupColumns m.projection.groupSet).length = sources.length :=
    (mapM_eq_some.mp hreg.sources_eq).length_eq
  -- no name finds a column made from the column that differs
  have hother : ∀ j ∈ m.groupIds, ∀ source, sources[j]? = some source → source ≠ s := by
    rintro j hj source hsource rfl
    obtain ⟨i, hi, rfl⟩ := List.getElem_of_mem hj
    have hi' : i < m.names.length := hids.length_eq ▸ hi
    have hz : columnIndex m.entry.columns m.names[i] = some m.groupIds[i] := hids.get hi' hi
    have hzip : (m.names[i], m.groupIds[i]) ∈ m.names.zip m.groupIds :=
      List.mem_iff_getElem.mpr ⟨i, by simp [hi, hi'], by simp⟩
    have hjlt : m.groupIds[i] < (groupColumns m.projection.groupSet).length :=
      hlen ▸ (List.getElem?_eq_some_iff.mp hsource).1
    have hpiece := List.getElem?_eq_getElem hjlt
    obtain ⟨source', hsource', hidx⟩ := hreg.source hpiece
    obtain rfl := Option.some.inj (hsource.symm.trans hsource')
    obtain ⟨c, hc, hcx⟩ := (columnIndex_eq_some m.base.distinct).mp hs
    obtain ⟨c', hc', hcp⟩ := (columnIndex_eq_some m.base.distinct).mp hidx
    obtain rfl := Option.some.inj (hc.symm.trans hc')
    have hpx : lower (groupColumns m.projection.groupSet)[m.groupIds[i]] = lower x :=
      hcp.symm.trans hcx
    by_cases hzp : lower (groupColumns m.projection.groupSet)[m.groupIds[i]] = lower m.names[i]
    · rw [← columnIndex_congr (hzp.symm.trans hpx), hz] at hx
      obtain rfl := Option.some.inj hx
      exact hfails (by rw [hpiece, Option.map_some, hpx])
    · have hle := hmax _ _ hzip (by rw [hpiece, Option.map_some]; simpa using hzp)
      rcases hreg.name_or_longer hz hpiece with heq | hlonger
      · exact hzp heq
      · have hlength := congrArg List.length hpx
        rw [length_lower, length_lower] at hlength
        omega
  have hfine : ∀ r ∈ [nullRow m.base.columns, oneValueRow m.base.columns s],
      ∀ j ∈ m.groupIds, ∀ source, sources[j]? = some source → r.getD source .null = .null := by
    intro r hr j hj source hsource
    simp only [List.mem_cons, List.not_mem_nil, or_false] at hr
    rcases hr with rfl | rfl
    · exact getD_nullRow _ _
    · exact getD_oneValueRow_of_ne _ (hother j hj source hsource)
  apply length_keys_le_one
  intro a ha b hb
  obtain ⟨ra, hra, rfl⟩ := mem_projectionRows.mp ha
  obtain ⟨rb, hrb, rfl⟩ := mem_projectionRows.mp hb
  refine List.map_congr_left fun j hj => ?_
  rcases Nat.lt_or_ge j sources.length with hlt | hge
  · have hsource := List.getElem?_eq_getElem hlt
    rw [getD_source ra _ hsource, getD_source rb _ hsource, hfine ra hra j hj _ hsource,
      hfine rb hrb j hj _ hsource]
  · obtain ⟨i, hi, rfl⟩ := List.getElem_of_mem hj
    have hi' : i < m.names.length := hids.length_eq ▸ hi
    have hle := hreg.found_le (hids.get hi' hi)
    have hj : m.groupIds[i] = sources.length := Nat.le_antisymm hle hge
    rw [hj, getD_count, getD_count]
    simp only [List.mem_cons, List.not_mem_nil, or_false] at hra hrb
    rcases hra with rfl | rfl <;> rcases hrb with rfl | rfl
    · rfl
    · rw [length_group_pair (fun r : Row => sources.map fun i => r.getD i .null)]
    · rw [length_group_pair (fun r : Row => sources.map fun i => r.getD i .null)]
    · rfl

/-- When the rewrite keeps the rows, every group's name finds its column. -/
theorem groups_of_kept (hreg : m.Registered sources) {reinterpret : Bytes → Int}
    (hkeep : ∀ contents, m.Fresh sources contents →
      (eval reinterpret contents m.rewritten).Perm (eval reinterpret contents m.plan)) :
    List.Forall₂ (fun name j =>
      (groupColumns m.projection.groupSet)[j]?.map lower = some (lower name))
      m.names m.groupIds := by
  obtain ⟨slots, hslots, hscanned⟩ := m.exists_slots
  have hids := mapM_eq_some.mp m.groupIds_eq
  rw [List.forall₂_iff_zip]
  refine ⟨hids.length_eq, ?_⟩
  by_contra hall
  push Not at hall
  -- of the names that find another column, a longest one
  let failing := (m.names.zip m.groupIds).filter fun pair =>
    (groupColumns m.projection.groupSet)[pair.2]?.map lower ≠ some (lower pair.1)
  have hne : failing ≠ [] := by
    obtain ⟨name, j, hmem, hfails⟩ := hall
    exact List.ne_nil_of_mem (List.mem_filter.mpr ⟨hmem, by simpa using hfails⟩)
  obtain ⟨⟨x, jx⟩, hx⟩ := Option.ne_none_iff_exists'.mp
    (mt (List.argmax_eq_none (f := fun pair : Bytes × Nat => pair.1.length)).mp hne)
  obtain ⟨hzip, hfails⟩ := List.mem_filter.mp (List.argmax_mem hx)
  have hmax : ∀ z j, (z, j) ∈ m.names.zip m.groupIds →
      (groupColumns m.projection.groupSet)[j]?.map lower ≠ some (lower z) →
      z.length ≤ x.length := by
    intro z j hz hfz
    have hmem : (z, j) ∈ failing := List.mem_filter.mpr ⟨hz, by simpa using hfz⟩
    exact List.le_of_mem_argmax (f := fun pair : Bytes × Nat => pair.1.length) hmem hx
  have hentry := (List.forall₂_iff_zip.mp hids).2 hzip
  obtain ⟨s, hmem, hs⟩ := forall₂_mem_left (mapM_eq_some.mp hslots) (List.of_mem_zip hzip).1
  have hslt : s < m.base.columns.length := by
    obtain ⟨c, hc, -⟩ := (columnIndex_eq_some m.base.distinct).mp hs
    exact (List.getElem?_eq_some_iff.mp hc).1
  have htyped : ∀ row ∈ [nullRow m.base.columns, oneValueRow m.base.columns s],
      RowOf m.base.columns row := by
    intro row hrow
    simp only [List.mem_cons, List.not_mem_nil, or_false] at hrow
    rcases hrow with rfl | rfl
    · exact rowOf_nullRow _
    · exact rowOf_oneValueRow _ _
  have hlength := (kept hreg hkeep hscanned htyped).length_eq
  have hkeys : (fun row : Row => slots.map fun i => some (row.getD i .null))
        (nullRow m.base.columns) ≠
      (fun row : Row => slots.map fun i => some (row.getD i .null))
        (oneValueRow m.base.columns s) := by
    intro heq
    have hvalue := Option.some.inj (List.map_inj_left.mp heq s hmem)
    rw [getD_nullRow] at hvalue
    exact getD_oneValueRow hslt hvalue.symm
  have hmerged := hreg.merged hentry hs (by simpa using hfails) hmax
  rw [List.length_map, List.length_map, length_groupBy, length_groupBy,
    length_keys_pair hkeys] at hlength
  omega

/-- When the rewrite keeps the rows, the sum read is the count of a single row. -/
theorem sum_of_kept (hreg : m.Registered sources) {reinterpret : Bytes → Int}
    (hkeep : ∀ contents, m.Fresh sources contents →
      (eval reinterpret contents m.rewritten).Perm (eval reinterpret contents m.plan))
    (hreads : m.ReadsCount) {row : Row} (hrow : RowOf m.base.columns row) :
    sumValue [(((sources.map fun i => row.getD i .null) ++ [Value.bigint 1]).getD m.countId
      .null).asBigint reinterpret] =
      .bigint (passing m.count.filter [m.scanned row]).length := by
  obtain ⟨slots, hslots, hscanned⟩ := m.exists_slots
  have htyped : ∀ r ∈ [row], RowOf m.base.columns r := by simpa using hrow
  have hkept := kept hreg hkeep hscanned htyped
  rw [projectionRows, groupBy_singleton, List.map_singleton, groupBy_singleton,
    groupBy_singleton] at hkept
  simp only [List.map_singleton, List.singleton_perm_singleton] at hkept
  exact m.output_count hreads hkept

/-- When the rewrite keeps the rows, the names are what they stand for and no
row is filtered away. -/
theorem transparent_of_kept (hreg : m.Registered sources) {reinterpret : Bytes → Int}
    (hkeep : ∀ contents, m.Fresh sources contents →
      (eval reinterpret contents m.rewritten).Perm (eval reinterpret contents m.plan)) :
    m.Transparent := by
  refine ⟨groups_of_kept hreg hkeep, fun hreads => ?_⟩
  have hlength : (groupColumns m.projection.groupSet).length = sources.length :=
    (mapM_eq_some.mp hreg.sources_eq).length_eq
  have hcount : m.countId = sources.length := by
    rcases Nat.lt_or_ge m.countId sources.length with hlt | hge
    · -- `count` finds a group column: on a row of NULLs the sum is NULL
      have hsum := sum_of_kept hreg hkeep hreads (rowOf_nullRow m.base.columns)
      rw [getD_source _ _ (List.getElem?_eq_getElem hlt), getD_nullRow] at hsum
      contradiction
    · exact Nat.le_antisymm (hreg.found_le m.countId_eq) hge
  refine ⟨hcount.trans hlength.symm, fun row hrow condition hfilter => ?_⟩
  have hsum := sum_of_kept hreg hkeep hreads hrow
  rw [hcount, getD_count, hfilter] at hsum
  by_contra hfalse
  rw [passing, List.filter_cons_of_neg (by simpa using hfalse)] at hsum
  exact absurd hsum (by simp [Value.asBigint, sumValue])

/-- The plans are equal over every fresh projection exactly when the names are
what they stand for. -/
theorem eval_rewritten_iff (hreg : m.Registered sources) (reinterpret : Bytes → Int) :
    (∀ contents, m.Fresh sources contents →
      (eval reinterpret contents m.rewritten).Perm (eval reinterpret contents m.plan)) ↔
      m.Transparent :=
  ⟨transparent_of_kept hreg, fun h _ => h.eval_perm hreg reinterpret⟩

end Matched

/-- **When the rewrite keeps the rows**: a plan that is accepted returns the same
rows after it, over every base table whose projection is fresh, exactly when
the names found in the projection table stand for what the plan means and, if
it reads the count, the aggregate counts every row. -/
theorem tryRewriteToProjection_preserves_iff {context : Context}
    {parent plan' : LogicalOperator} (h : tryRewriteToProjection context parent = some plan') :
    ∃ m : Matched context, m.plan = parent ∧ m.rewritten = plan' ∧
      ∀ sources, m.Registered sources → ∀ reinterpret,
        (∀ contents, m.Fresh sources contents →
          (eval reinterpret contents plan').Perm (eval reinterpret contents parent)) ↔
          m.Transparent := by
  obtain ⟨m, rfl, rfl⟩ := tryRewriteToProjection_eq_some h
  exact ⟨m, rfl, rfl, fun sources hreg reinterpret => m.eval_rewritten_iff hreg reinterpret⟩

/-! ## a table with a projection -/

/-- A table of two numbers. -/
def eventsTable : TableEntry where
  catalog := bytes "memory"
  schema := bytes "main"
  name := bytes "t"
  columns := [{ name := bytes "k", type := .BIGINT, generated := false },
    { name := bytes "g", type := .BIGINT, generated := false }]
  distinct := by decide

/-- Its projection on `k`. -/
def eventsProjection : TableEntry where
  catalog := bytes "memory"
  schema := bytes "main"
  name := bytes "t__proj"
  columns := [{ name := bytes "k", type := .BIGINT, generated := false },
    { name := bytes "count", type := .BIGINT, generated := false }]
  distinct := by decide

/-- The projection is registered and as old as the table. -/
def eventsContext : Context where
  projections _ := some
    { catalog := bytes "memory", schema := bytes "main", name := bytes "t__proj"
      groupSet := bytes "k", baseRows := 1 }
  getEntry _ := some eventsProjection
  totalRows _ := 1

/-- A scan of the table. -/
def eventsGet : LogicalGet where
  tableIndex := 0
  table := some eventsTable
  names := eventsTable.columns.map Column.name
  columnIds := [0, 1]
  tableFilters := []
  names_eq _ h := by rw [Option.some.inj h]

/-- `count(*)` of it, grouped by `k`. -/
def eventsAggregate (filter : Option (Row → Option Bool)) : LogicalAggregate where
  groupIndex := 1
  aggregateIndex := 2
  groups := [.columnRef ⟨0, 0⟩ .BIGINT]
  groupingSets := 1
  groupingFunctions := 0
  expressions := [.boundAggregate
    { functionName := bytes "count_star", children := [], isDistinct := false, filter := filter }]
  index_ne := by decide

/-- `SELECT k, count(*) FILTER (...) FROM t GROUP BY k`. -/
def countPlan (filter : Option (Row → Option Bool)) : LogicalOperator :=
  .projection [.columnRef ⟨1, 0⟩ .BIGINT, .columnRef ⟨2, 0⟩ .BIGINT]
    [.aggregate (eventsAggregate filter) [.get eventsGet]]

/-- The same from the projection, with or without the filter. -/
def rewrittenCountPlan (filter : Option (Row → Option Bool)) : LogicalOperator :=
  .projection [.columnRef ⟨1, 0⟩ .BIGINT, .cast (.columnRef ⟨2, 0⟩ hugeint) .BIGINT]
    [.aggregate (retarget 0 (eventsAggregate filter))
      [.get (projectionGet 0 eventsProjection [0, 1])]]

theorem freshProjection_events : freshProjection eventsContext eventsTable [bytes "k"] = some
    { catalog := bytes "memory", schema := bytes "main", name := bytes "t__proj"
      groupSet := bytes "k", baseRows := 1 } := by
  simp [freshProjection, eventsContext, sortNames, StringUtil.join]

theorem tryRewriteToProjection_countPlan (filter : Option (Row → Option Bool)) :
    tryRewriteToProjection eventsContext (countPlan filter) = some (rewrittenCountPlan filter) := by
  have hnames : (eventsAggregate filter).groups.mapM (groupName eventsGet) = some [bytes "k"] := rfl
  have haccepts : acceptsAggregate (eventsAggregate filter) = true := rfl
  have hfilters : eventsGet.tableFilters.isEmpty = true := rfl
  have htable : eventsGet.table = some eventsTable := rfl
  simp only [tryRewriteToProjection, countPlan, htable, haccepts, hfilters, hnames,
    freshProjection_events, Option.bind_eq_bind, Option.bind_some]
  rfl

/-- What the rewrite finds. -/
def countMatched (filter : Option (Row → Option Bool)) : Matched eventsContext where
  expressions := [.columnRef ⟨1, 0⟩ .BIGINT, .columnRef ⟨2, 0⟩ .BIGINT]
  aggregate := eventsAggregate filter
  get := eventsGet
  base := eventsTable
  count :=
    { functionName := bytes "count_star", children := [], isDistinct := false, filter := filter }
  names := [bytes "k"]
  projection :=
    { catalog := bytes "memory", schema := bytes "main", name := bytes "t__proj"
      groupSet := bytes "k", baseRows := 1 }
  entry := eventsProjection
  groupIds := [0]
  countId := 1
  table_eq := rfl
  filters_eq := rfl
  groups_ne := by simp [eventsAggregate]
  expressions_eq := rfl
  function_eq := rfl
  names_eq := rfl
  projection_eq := freshProjection_events
  entry_eq := rfl
  references := rfl
  groupIds_eq := rfl
  countId_eq := rfl

theorem registered_countMatched (filter : Option (Row → Option Bool)) :
    (countMatched filter).Registered [0] := ⟨rfl, rfl, rfl⟩

/-- A count that filters the one row away: the plan returns 0, the rewritten
plan 1. -/
theorem tryRewriteToProjection_filtered :
    ∃ (context : Context) (parent plan' : LogicalOperator) (m : Matched context)
      (sources : List Nat) (contents : Contents),
      tryRewriteToProjection context parent = some plan' ∧ m.plan = parent ∧
        m.Registered sources ∧ m.Fresh sources contents ∧
        ¬ (eval (fun _ => 0) contents plan').Perm (eval (fun _ => 0) contents parent) := by
  have hreg := registered_countMatched (some fun _ => some false)
  have htyped : ∀ row ∈ [[Value.bigint 1, Value.bigint 0]], RowOf eventsTable.columns row := by
    intro row hrow
    obtain rfl := List.mem_singleton.mp hrow
    exact .cons rfl (.cons rfl .nil)
  exact ⟨_, _, _, _, _, _, tryRewriteToProjection_countPlan _, rfl, hreg,
    Matched.fresh_stored hreg htyped, by decide⟩

/-- The one group is looked up as its own column, and every row is counted. -/
theorem transparent_countMatched : (countMatched none).Transparent where
  groups := .cons (by decide) .nil
  count _ := ⟨by decide, fun _ _ _ h => nomatch h⟩

/-- Three rows, of two groups. -/
def eventRows : List Row :=
  [[.bigint 1, .bigint 5], [.null, .bigint 5], [.bigint 1, .null]]

/-- Without a filter the counts come from the projection: two rows of one group and one
of the other. -/
theorem tryRewriteToProjection_preserves_small :
    (eval (fun _ => 0) ((countMatched none).stored [0] eventRows) (rewrittenCountPlan none)).Perm
        (eval (fun _ => 0) ((countMatched none).stored [0] eventRows) (countPlan none)) ∧
      eval (fun _ => 0) ((countMatched none).stored [0] eventRows) (countPlan none) =
        [[some .null, some (.bigint 1)], [some (.bigint 1), some (.bigint 2)]] := by
  obtain ⟨m, hplan, -, hkeep⟩ :=
    tryRewriteToProjection_preserves_iff (tryRewriteToProjection_countPlan none)
  obtain rfl : m = countMatched none := Matched.plan_injective hplan
  have htyped : ∀ row ∈ eventRows, RowOf eventsTable.columns row := by
    simp only [eventRows, List.forall_mem_cons]
    exact ⟨.cons rfl (.cons rfl .nil), .cons trivial (.cons rfl .nil),
      .cons rfl (.cons trivial .nil), fun _ h => nomatch h⟩
  have hreg := registered_countMatched none
  exact ⟨(hkeep [0] hreg (fun _ => 0)).mpr transparent_countMatched _
    (Matched.fresh_stored hreg htyped), by decide⟩

end RawDuck
