import RawDuck.OrderedMap
import RawDuck.GroupSets
import RawDuck.Optimize

/-!
# RawDuck.Statistics

What every optimized plan leaves in the statistics: how often queries filter on a
column, how often they group by it, and which columns they group by together.

A grouping column may pass through projections on its way up from a scan, some of
them put in by the optimizer to store a column in fewer bytes; `traceBinding`
follows it down.

* `collectStats` — the traversal of `CollectStats`, `observations` what it counts;
* `counts_of_queries` — queries that count at the same time: in whatever order their
  updates come, the statistics are the counts;
* `traceBinding_eq_some_iff` — which columns are followed to a scan;
* `tracedColumn_partition` — and those group rows as the scanned column does.
-/

namespace RawDuck

namespace Statistics

/-! ## optimized plans -/

/-- A bound expression. -/
inductive Expression where
  | columnRef (binding : ColumnBinding)
  | function (name : Bytes) (children : List Expression)
  | constant (value : Value)
  | other (expression : Nat)

/-- `LogicalGet`.  The keys of the table filters are columns of the table. -/
structure LogicalGet where
  tableIndex : Nat
  table : Option TableName
  names : List Bytes
  columnIds : List Nat
  tableFilters : List Nat

/-- `LogicalOperator`, after optimization. -/
inductive LogicalOperator where
  | get (get : LogicalGet) (children : List LogicalOperator)
  | projection (tableIndex : Nat) (expressions : List Expression)
      (children : List LogicalOperator)
  | aggregate (groups : List Expression) (children : List LogicalOperator)
  | other (children : List LogicalOperator)

mutual
/-- The operators of a plan, each before its children. -/
def LogicalOperator.visited : LogicalOperator → List LogicalOperator
  | .get get children => .get get children :: visitedAll children
  | .projection tableIndex expressions children =>
      .projection tableIndex expressions children :: visitedAll children
  | .aggregate groups children => .aggregate groups children :: visitedAll children
  | .other children => .other children :: visitedAll children

/-- The operators of plans. -/
def visitedAll : List LogicalOperator → List LogicalOperator
  | [] => []
  | op :: ops => op.visited ++ visitedAll ops
end

/-- `ResolveGetColumn`. -/
def resolveGetColumn (get : LogicalGet) (columnIndex : Nat) : Option Bytes :=
  get.columnIds[columnIndex]?.bind fun tableColumn => get.names[tableColumn]?

/-- The scans and projections by their table index. -/
abbrev Operators := Nat → Option LogicalOperator

mutual
/-- `CollectGets`. -/
def collectGets : LogicalOperator → Operators → Operators
  | .get get children, operators =>
      collectGetsOf children
        (Function.update operators get.tableIndex (some (.get get children)))
  | .projection tableIndex expressions children, operators =>
      collectGetsOf children
        (Function.update operators tableIndex (some (.projection tableIndex expressions children)))
  | .aggregate _ children, operators => collectGetsOf children operators
  | .other children, operators => collectGetsOf children operators

/-- `CollectGets`, of each child. -/
def collectGetsOf : List LogicalOperator → Operators → Operators
  | [], operators => operators
  | op :: ops, operators => collectGetsOf ops (collectGets op operators)
end

/-- `StringUtil::StartsWith(function.function.name, "__internal_")`. -/
def isInternal (name : Bytes) : Bool := (bytes "__internal_").isPrefixOf name

/-- The expression inside a wrapper of compressed materialization. -/
def unwrap : Expression → Expression
  | .function name (child :: children) =>
      if isInternal name then child else .function name (child :: children)
  | expression => expression

/-- The loop of `TraceBinding`, with the hops that are left. -/
def traceBinding (operators : Operators) :
    (hops : Nat) → ColumnBinding → Option (LogicalGet × ColumnBinding)
  | 0, _ => none
  | hops + 1, binding =>
      match operators binding.tableIndex with
      | some (.get get _) => some (get, binding)
      | some (.projection _ expressions _) =>
          match expressions[binding.columnIndex]?.map unwrap with
          | some (.columnRef below) => traceBinding operators hops below
          | _ => none
      | _ => none

/-- The hops `TraceBinding` takes at most. -/
def maxHops : Nat := 16

/-- The base table column a grouping expression references. -/
def tracedColumn (operators : Operators) : Expression → Option (TableName × Bytes)
  | .columnRef binding =>
      match traceBinding operators maxHops binding with
      | none => none
      | some (get, binding) =>
          match get.table, resolveGetColumn get binding.columnIndex with
          | some table, some column => some (table, column)
          | _, _ => none
  | _ => none

/-! ## the statistics -/

/-- `RawStatsCache`: the usage of each column and the group sets, by table key.  The counts
are those of `idx_t` as long as they stay below `2 ^ 64`. -/
structure RawStatsCache where
  usage : OrderedMap Bytes (OrderedMap Bytes RawColumnUsage)
  groupSets : OrderedMap Bytes (OrderedMap Bytes Nat)

/-- Nothing observed. -/
def RawStatsCache.empty : RawStatsCache where
  usage := .empty
  groupSets := .empty

/-- `RawColumnUsage()`. -/
def noUsage : RawColumnUsage := { filters := 0, groups := 0 }

/-- `usage[table][column].filters += filters; usage[table][column].groups += groups`. -/
def RawStatsCache.addUsage (stats : RawStatsCache) (table column : Bytes)
    (filters groups : Nat) : RawStatsCache :=
  { stats with
    usage := stats.usage.alter table fun columns =>
      (columns.getD .empty).alter column fun usage =>
        { filters := (usage.getD noUsage).filters + filters
          groups := (usage.getD noUsage).groups + groups } }

/-- `group_sets[table][group_set] += times`. -/
def RawStatsCache.addGroupSet (stats : RawStatsCache) (table groupSet : Bytes) (times : Nat) :
    RawStatsCache :=
  { stats with
    groupSets := stats.groupSets.alter table fun groupSets =>
      (groupSets.getD .empty).alter groupSet fun observed => observed.getD 0 + times }

/-- `CollectStats` of a scan. -/
def collectGet (get : LogicalGet) (stats : RawStatsCache) : RawStatsCache :=
  match get.table with
  | none => stats
  | some table =>
      get.tableFilters.foldl (fun stats filter =>
        match get.names[filter]? with
        | none => stats
        | some column => stats.addUsage (tableKey table) column 1 0) stats

/-- The loop of `CollectStats` over the groups of an aggregation, and `table_group_sets`. -/
def collectGroup (operators : Operators) (state : RawStatsCache × OrderedMap Bytes (List Bytes))
    (group : Expression) : RawStatsCache × OrderedMap Bytes (List Bytes) :=
  match tracedColumn operators group with
  | none => state
  | some (table, column) =>
      (state.1.addUsage (tableKey table) column 0 1,
        state.2.alter (tableKey table) fun columns => columns.getD [] ++ [column])

/-- `CollectStats` of an aggregation: the usage of each grouping column, then the columns
of each table as a set. -/
def collectAggregate (operators : Operators) (groups : List Expression) (stats : RawStatsCache) :
    RawStatsCache :=
  let state := groups.foldl (collectGroup operators) (stats, .empty)
  state.2.entries.foldl (fun stats entry => stats.addGroupSet entry.1 (groupSetKey entry.2) 1)
    state.1

mutual
/-- `CollectStats`. -/
def collectStats (operators : Operators) : LogicalOperator → RawStatsCache → RawStatsCache
  | .get get children, stats => collectStatsOf operators children (collectGet get stats)
  | .projection _ _ children, stats => collectStatsOf operators children stats
  | .aggregate groups children, stats =>
      collectStatsOf operators children (collectAggregate operators groups stats)
  | .other children, stats => collectStatsOf operators children stats

/-- `CollectStats`, of each child. -/
def collectStatsOf (operators : Operators) : List LogicalOperator → RawStatsCache → RawStatsCache
  | [], stats => stats
  | op :: ops, stats => collectStatsOf operators ops (collectStats operators op stats)
end

/-- `RawDuckOptimizeHook`. -/
def rawDuckOptimizeHook (plan : LogicalOperator) (stats : RawStatsCache) : RawStatsCache :=
  collectStats (collectGets plan fun _ => none) plan stats

/-! ## what is counted -/

/-- One count in the statistics. -/
inductive Observation where
  | filter (table column : Bytes)
  | group (table column : Bytes)
  | groupSet (table groupSet : Bytes)
  deriving DecidableEq

/-- The count is made. -/
def observe (stats : RawStatsCache) : Observation → RawStatsCache
  | .filter table column => stats.addUsage table column 1 0
  | .group table column => stats.addUsage table column 0 1
  | .groupSet table groupSet => stats.addGroupSet table groupSet 1

/-- The columns of each table, in the order of the tables. -/
def tableSets (columns : List (TableName × Bytes)) : OrderedMap Bytes (List Bytes) :=
  columns.foldl (fun sets column =>
    sets.alter (tableKey column.1) fun names => names.getD [] ++ [column.2]) .empty

/-- What is counted at an operator. -/
def observationsAt (operators : Operators) : LogicalOperator → List Observation
  | .get get _ =>
      match get.table with
      | none => []
      | some table =>
          get.tableFilters.filterMap fun filter =>
            get.names[filter]?.map fun column => .filter (tableKey table) column
  | .aggregate groups _ =>
      let columns := groups.filterMap (tracedColumn operators)
      (columns.map fun column => .group (tableKey column.1) column.2) ++
        (tableSets columns).entries.map fun entry => .groupSet entry.1 (groupSetKey entry.2)
  | .projection _ _ _ | .other _ => []

/-- What is counted for a plan. -/
def observations (plan : LogicalOperator) : List Observation :=
  plan.visited.flatMap (observationsAt (collectGets plan fun _ => none))

theorem collectGet_eq (operators : Operators) (get : LogicalGet) (children : List LogicalOperator)
    (stats : RawStatsCache) : collectGet get stats =
      (observationsAt operators (.get get children)).foldl observe stats := by
  rw [collectGet, observationsAt]
  cases get.table with
  | none => rfl
  | some table =>
      dsimp only
      generalize get.tableFilters = filters
      induction filters generalizing stats with
      | nil => rfl
      | cons filter filters ih =>
          rw [List.foldl_cons, ih, List.filterMap_cons]
          cases get.names[filter]? <;> rfl

theorem foldl_collectGroup (operators : Operators) (groups : List Expression)
    (stats : RawStatsCache) (sets : OrderedMap Bytes (List Bytes)) :
    groups.foldl (collectGroup operators) (stats, sets) =
      (((groups.filterMap (tracedColumn operators)).map fun column =>
          Observation.group (tableKey column.1) column.2).foldl observe stats,
        (groups.filterMap (tracedColumn operators)).foldl (fun sets column =>
          sets.alter (tableKey column.1) fun names => names.getD [] ++ [column.2]) sets) := by
  induction groups generalizing stats sets with
  | nil => rfl
  | cons group groups ih =>
      rw [List.foldl_cons, List.filterMap_cons, collectGroup]
      cases tracedColumn operators group with
      | none => exact ih stats sets
      | some column => exact ih _ _

theorem collectAggregate_eq (operators : Operators) (groups : List Expression)
    (children : List LogicalOperator) (stats : RawStatsCache) :
    collectAggregate operators groups stats =
      (observationsAt operators (.aggregate groups children)).foldl observe stats := by
  rw [collectAggregate, foldl_collectGroup, observationsAt, List.foldl_append]
  exact (List.foldl_map (f := fun entry : Bytes × List Bytes =>
    Observation.groupSet entry.1 (groupSetKey entry.2)) (g := observe)).symm

mutual
/-- The traversal counts what is observed at the operators of the plan. -/
theorem collectStats_eq (operators : Operators) : ∀ (plan : LogicalOperator)
    (stats : RawStatsCache), collectStats operators plan stats =
      (plan.visited.flatMap (observationsAt operators)).foldl observe stats
  | .get get children, stats => by
      rw [collectStats, LogicalOperator.visited, List.flatMap_cons, List.foldl_append,
        collectStatsOf_eq, collectGet_eq operators get children]
  | .projection tableIndex expressions children, stats => by
      rw [collectStats, LogicalOperator.visited, List.flatMap_cons, List.foldl_append,
        collectStatsOf_eq]
      rfl
  | .aggregate groups children, stats => by
      rw [collectStats, LogicalOperator.visited, List.flatMap_cons, List.foldl_append,
        collectStatsOf_eq, collectAggregate_eq operators groups children]
  | .other children, stats => by
      rw [collectStats, LogicalOperator.visited, List.flatMap_cons, List.foldl_append,
        collectStatsOf_eq]
      rfl

theorem collectStatsOf_eq (operators : Operators) : ∀ (plans : List LogicalOperator)
    (stats : RawStatsCache), collectStatsOf operators plans stats =
      ((visitedAll plans).flatMap (observationsAt operators)).foldl observe stats
  | [], stats => by rw [collectStatsOf, visitedAll]; rfl
  | plan :: plans, stats => by
      rw [collectStatsOf, visitedAll, List.flatMap_append, List.foldl_append, collectStats_eq,
        collectStatsOf_eq]
end

theorem rawDuckOptimizeHook_eq (plan : LogicalOperator) (stats : RawStatsCache) :
    rawDuckOptimizeHook plan stats = (observations plan).foldl observe stats :=
  collectStats_eq _ plan stats

/-! ## the order of the counts -/

theorem addUsage_comm (stats : RawStatsCache) (table column table' column' : Bytes)
    (filters groups filters' groups' : Nat) :
    (stats.addUsage table column filters groups).addUsage table' column' filters' groups' =
      (stats.addUsage table' column' filters' groups').addUsage table column filters groups := by
  rw [RawStatsCache.addUsage, RawStatsCache.addUsage, RawStatsCache.addUsage,
    RawStatsCache.addUsage]
  congr 1
  refine OrderedMap.alter_comm _ fun _ columns => ?_
  rw [Option.getD_some, Option.getD_some]
  refine OrderedMap.alter_comm _ fun _ usage => ?_
  rw [Option.getD_some, Option.getD_some, Nat.add_right_comm, Nat.add_right_comm _ groups]

theorem addGroupSet_comm (stats : RawStatsCache) (table groupSet table' groupSet' : Bytes)
    (times times' : Nat) :
    (stats.addGroupSet table groupSet times).addGroupSet table' groupSet' times' =
      (stats.addGroupSet table' groupSet' times').addGroupSet table groupSet times := by
  rw [RawStatsCache.addGroupSet, RawStatsCache.addGroupSet, RawStatsCache.addGroupSet,
    RawStatsCache.addGroupSet]
  congr 1
  refine OrderedMap.alter_comm _ fun _ groupSets => ?_
  rw [Option.getD_some, Option.getD_some]
  refine OrderedMap.alter_comm _ fun _ observed => ?_
  rw [Option.getD_some, Option.getD_some, Nat.add_right_comm]

/-- Two counts may be made in either order. -/
theorem observe_comm (stats : RawStatsCache) (a b : Observation) :
    observe (observe stats a) b = observe (observe stats b) a := by
  cases a with
  | filter table column => cases b with
    | filter => exact addUsage_comm ..
    | group => exact addUsage_comm ..
    | groupSet => rfl
  | group table column => cases b with
    | filter => exact addUsage_comm ..
    | group => exact addUsage_comm ..
    | groupSet => rfl
  | groupSet table groupSet => cases b with
    | filter => rfl
    | group => rfl
    | groupSet => exact addGroupSet_comm ..

theorem foldl_observe_perm {events events' : List Observation} (h : events.Perm events')
    (stats : RawStatsCache) : events.foldl observe stats = events'.foldl observe stats :=
  h.foldl_eq' (fun a _ b _ stats => observe_comm stats a b) stats

/-! ## the counts -/

/-- The usage of a column. -/
def RawStatsCache.usageOf (stats : RawStatsCache) (table column : Bytes) : RawColumnUsage :=
  (((stats.usage.find? table).getD .empty).find? column).getD noUsage

/-- How often a group set of a table has been observed. -/
def RawStatsCache.timesObserved (stats : RawStatsCache) (table groupSet : Bytes) : Nat :=
  (((stats.groupSets.find? table).getD .empty).find? groupSet).getD 0

theorem usageOf_addUsage (stats : RawStatsCache) (table column : Bytes) (filters groups : Nat)
    (table' column' : Bytes) :
    (stats.addUsage table column filters groups).usageOf table' column' =
      { filters := (stats.usageOf table' column').filters +
          if table' = table ∧ column' = column then filters else 0
        groups := (stats.usageOf table' column').groups +
          if table' = table ∧ column' = column then groups else 0 } := by
  simp only [RawStatsCache.usageOf, RawStatsCache.addUsage, OrderedMap.find?_alter]
  by_cases ht : table' = table
  · subst ht
    rw [if_pos rfl, Option.getD_some, OrderedMap.find?_alter]
    by_cases hc : column' = column
    · rw [if_pos hc, if_pos ⟨rfl, hc⟩, if_pos ⟨rfl, hc⟩, Option.getD_some, hc]
    · rw [if_neg hc, if_neg fun h => hc h.2, if_neg fun h => hc h.2]
      rfl
  · rw [if_neg ht, if_neg fun h => ht h.1, if_neg fun h => ht h.1]
    rfl

theorem timesObserved_addGroupSet (stats : RawStatsCache) (table groupSet : Bytes) (times : Nat)
    (table' groupSet' : Bytes) :
    (stats.addGroupSet table groupSet times).timesObserved table' groupSet' =
      stats.timesObserved table' groupSet' +
        if table' = table ∧ groupSet' = groupSet then times else 0 := by
  simp only [RawStatsCache.timesObserved, RawStatsCache.addGroupSet, OrderedMap.find?_alter]
  by_cases ht : table' = table
  · subst ht
    rw [if_pos rfl, Option.getD_some, OrderedMap.find?_alter]
    by_cases hg : groupSet' = groupSet
    · rw [if_pos hg, if_pos ⟨rfl, hg⟩, Option.getD_some, hg]
    · rw [if_neg hg, if_neg fun h => hg h.2, Nat.add_zero]
  · rw [if_neg ht, if_neg fun h => ht h.1, Nat.add_zero]

theorem usageOf_observe (stats : RawStatsCache) (event : Observation) (table column : Bytes) :
    (observe stats event).usageOf table column =
      { filters := (stats.usageOf table column).filters +
          if event = .filter table column then 1 else 0
        groups := (stats.usageOf table column).groups +
          if event = .group table column then 1 else 0 } := by
  cases event with
  | filter table' column' =>
      simp only [observe, usageOf_addUsage, ite_self, Observation.filter.injEq, reduceCtorEq,
        if_false, @eq_comm _ table table', @eq_comm _ column column']
  | group table' column' =>
      simp only [observe, usageOf_addUsage, ite_self, Observation.group.injEq, reduceCtorEq,
        if_false, @eq_comm _ table table', @eq_comm _ column column']
  | groupSet table' groupSet => rfl

theorem timesObserved_observe (stats : RawStatsCache) (event : Observation)
    (table groupSet : Bytes) : (observe stats event).timesObserved table groupSet =
      stats.timesObserved table groupSet + if event = .groupSet table groupSet then 1 else 0 := by
  cases event with
  | filter table' column' => rfl
  | group table' column' => rfl
  | groupSet table' groupSet' =>
      rw [observe, timesObserved_addGroupSet]
      congr 1
      refine if_congr ?_ rfl rfl
      rw [Observation.groupSet.injEq, eq_comm, @eq_comm _ groupSet]

/-- The statistics are the counts. -/
theorem counts_foldl (events : List Observation) (stats : RawStatsCache)
    (table column groupSet : Bytes) :
    ((events.foldl observe stats).usageOf table column).filters =
        (stats.usageOf table column).filters + events.count (.filter table column) ∧
      ((events.foldl observe stats).usageOf table column).groups =
        (stats.usageOf table column).groups + events.count (.group table column) ∧
      (events.foldl observe stats).timesObserved table groupSet =
        stats.timesObserved table groupSet + events.count (.groupSet table groupSet) := by
  induction events generalizing stats with
  | nil => exact ⟨rfl, rfl, rfl⟩
  | cons event events ih =>
      obtain ⟨hfilters, hgroups, hsets⟩ := ih (observe stats event)
      rw [List.foldl_cons, hfilters, hgroups, hsets, usageOf_observe, timesObserved_observe]
      simp only [List.count_cons, beq_iff_eq]
      refine ⟨?_, ?_, ?_⟩ <;> rw [Nat.add_right_comm, Nat.add_assoc]

/-! ## the references of plans -/

/-- How often a scan filters on a column. -/
def filtersOn (table column : Bytes) : LogicalOperator → Nat
  | .get get _ =>
      if get.table.map tableKey = some table then
        get.tableFilters.countP fun filter => get.names[filter]? = some column
      else 0
  | .projection _ _ _ | .aggregate _ _ | .other _ => 0

/-- How often an aggregation groups by a column. -/
def groupsOn (operators : Operators) (table column : Bytes) : LogicalOperator → Nat
  | .aggregate groups _ =>
      (groups.filterMap (tracedColumn operators)).countP fun traced =>
        tableKey traced.1 = table ∧ traced.2 = column
  | .get _ _ | .projection _ _ _ | .other _ => 0

/-- The columns of a table an aggregation groups by. -/
def columnsOf (table : Bytes) (columns : List (TableName × Bytes)) : List Bytes :=
  (columns.filter fun column => tableKey column.1 = table).map Prod.snd

/-- Whether an aggregation groups by the columns of the group set, of those of a table. -/
def setsOn (operators : Operators) (table groupSet : Bytes) : LogicalOperator → Nat
  | .aggregate groups _ =>
      let columns := columnsOf table (groups.filterMap (tracedColumn operators))
      if columns ≠ [] ∧ groupSetKey columns = groupSet then 1 else 0
  | .get _ _ | .projection _ _ _ | .other _ => 0

/-- The sets are the columns of each table. -/
theorem find?_tableSets (columns : List (TableName × Bytes)) (table : Bytes) :
    (tableSets columns).find? table =
      if columnsOf table columns = [] then none else some (columnsOf table columns) := by
  induction columns using List.reverseRecOn with
  | nil => rfl
  | append_singleton columns column ih =>
      rw [tableSets, List.foldl_append, List.foldl_cons, List.foldl_nil]
      change ((tableSets columns).alter _ _).find? table = _
      rw [OrderedMap.find?_alter]
      by_cases hkey : table = tableKey column.1
      · have hcolumns : columnsOf table (columns ++ [column]) =
            columnsOf table columns ++ [column.2] := by
          rw [columnsOf, List.filter_append, List.filter_singleton, decide_eq_true hkey.symm]
          simp [columnsOf]
        rw [if_pos hkey, hcolumns, if_neg (by simp), ← hkey, ih]
        by_cases hnone : columnsOf table columns = []
        · rw [if_pos hnone, hnone]
          rfl
        · rw [if_neg hnone, Option.getD_some]
      · have hcolumns : columnsOf table (columns ++ [column]) = columnsOf table columns := by
          rw [columnsOf, List.filter_append, List.filter_singleton,
            decide_eq_false (Ne.symm hkey)]
          simp [columnsOf]
        rw [if_neg hkey, hcolumns, ih]

theorem count_observationsAt (operators : Operators) (op : LogicalOperator)
    (table column groupSet : Bytes) :
    (observationsAt operators op).count (.filter table column) = filtersOn table column op ∧
      (observationsAt operators op).count (.group table column) =
        groupsOn operators table column op ∧
      (observationsAt operators op).count (.groupSet table groupSet) =
        setsOn operators table groupSet op := by
  cases op with
  | get get children =>
      rw [observationsAt, filtersOn, groupsOn, setsOn]
      cases get.table with
      | none => exact ⟨rfl, rfl, rfl⟩
      | some key =>
          dsimp only
          rw [Option.map_some]
          simp only [Option.some.injEq, List.count_filterMap]
          refine ⟨?_, ?_, ?_⟩
          · split
            · next htable =>
              refine List.countP_congr fun filter _ => ?_
              cases get.names[filter]? with
              | none => simp
              | some name => simp [htable]
            · next htable =>
              rw [List.countP_eq_zero]
              intro filter _
              cases get.names[filter]? with
              | none => simp
              | some name => simp [htable]
          · rw [List.countP_eq_zero]
            intro filter _
            cases get.names[filter]? <;> simp
          · rw [List.countP_eq_zero]
            intro filter _
            cases get.names[filter]? <;> simp
  | projection tableIndex expressions children => exact ⟨rfl, rfl, rfl⟩
  | aggregate groups children =>
      rw [observationsAt, filtersOn, groupsOn, setsOn]
      generalize groups.filterMap (tracedColumn operators) = columns
      have hcount : ∀ event : Observation,
          ((columns.map fun column => Observation.group (tableKey column.1) column.2) ++
            (tableSets columns).entries.map fun entry =>
              Observation.groupSet entry.1 (groupSetKey entry.2)).count event =
          columns.countP (fun column => .group (tableKey column.1) column.2 == event) +
            (tableSets columns).entries.countP fun entry =>
              .groupSet entry.1 (groupSetKey entry.2) == event := by
        intro event
        rw [List.count_append, List.count_eq_countP, List.count_eq_countP, List.countP_map,
          List.countP_map]
        rfl
      refine ⟨(hcount _).trans ?_, (hcount _).trans ?_, (hcount _).trans ?_⟩
      · simp
      · have hsets : (tableSets columns).entries.countP (fun entry =>
            Observation.groupSet entry.1 (groupSetKey entry.2) ==
              Observation.group table column) = 0 := by simp
        rw [hsets, Nat.add_zero]
        exact List.countP_congr fun traced _ => by simp
      · have hsets := (tableSets columns).countP_entries table fun names =>
          decide (groupSetKey names = groupSet)
        rw [find?_tableSets] at hsets
        have hgroups : columns.countP (fun column =>
            Observation.group (tableKey column.1) column.2 == Observation.groupSet table groupSet) =
            0 := by simp
        rw [hgroups, Nat.zero_add]
        refine Eq.trans ?_ (hsets.trans ?_)
        · exact List.countP_congr fun entry _ => by simp
        · by_cases hnone : columnsOf table columns = []
          · simp [hnone]
          · simp [hnone]
  | other children => exact ⟨rfl, rfl, rfl⟩

/-- How often operators of the plan do so. -/
def LogicalOperator.total (count : LogicalOperator → Nat) (plan : LogicalOperator) : Nat :=
  (plan.visited.map count).sum

theorem count_observations (plan : LogicalOperator) (table column groupSet : Bytes) :
    (observations plan).count (.filter table column) = plan.total (filtersOn table column) ∧
      (observations plan).count (.group table column) =
        plan.total (groupsOn (collectGets plan fun _ => none) table column) ∧
      (observations plan).count (.groupSet table groupSet) =
        plan.total (setsOn (collectGets plan fun _ => none) table groupSet) := by
  rw [observations, List.count_flatMap, List.count_flatMap, List.count_flatMap]
  refine ⟨?_, ?_, ?_⟩
  · exact congrArg List.sum (List.map_congr_left fun op _ =>
      (count_observationsAt _ op table column groupSet).1)
  · exact congrArg List.sum (List.map_congr_left fun op _ =>
      (count_observationsAt _ op table column groupSet).2.1)
  · exact congrArg List.sum (List.map_congr_left fun op _ =>
      (count_observationsAt _ op table column groupSet).2.2)

/-- **The statistics of queries**: however the updates of any queries interleave, the
statistics are those of running the queries one after the other, and each count has grown
by the references in the plans. -/
theorem counts_of_queries {plans : List LogicalOperator} {events : List Observation}
    (hevents : events.Perm (plans.flatMap observations)) (stats : RawStatsCache) :
    events.foldl observe stats =
        plans.foldl (fun stats plan => rawDuckOptimizeHook plan stats) stats ∧
      ∀ table column groupSet,
        ((events.foldl observe stats).usageOf table column).filters =
            (stats.usageOf table column).filters +
              (plans.map fun plan => plan.total (filtersOn table column)).sum ∧
          ((events.foldl observe stats).usageOf table column).groups =
            (stats.usageOf table column).groups + (plans.map fun plan =>
              plan.total (groupsOn (collectGets plan fun _ => none) table column)).sum ∧
          (events.foldl observe stats).timesObserved table groupSet =
            stats.timesObserved table groupSet + (plans.map fun plan =>
              plan.total (setsOn (collectGets plan fun _ => none) table groupSet)).sum := by
  refine ⟨?_, fun table column groupSet => ?_⟩
  · rw [foldl_observe_perm hevents, List.foldl_flatMap]
    exact congrArg (fun f => plans.foldl f stats)
      (funext fun stats => funext fun plan => (rawDuckOptimizeHook_eq plan stats).symm)
  · obtain ⟨hfilters, hgroups, hsets⟩ := counts_foldl events stats table column groupSet
    rw [hfilters, hgroups, hsets, hevents.count_eq, hevents.count_eq, hevents.count_eq,
      List.count_flatMap, List.count_flatMap, List.count_flatMap]
    refine ⟨?_, ?_, ?_⟩
    · exact congrArg (_ + List.sum ·) (List.map_congr_left fun plan _ =>
        (count_observations plan table column groupSet).1)
    · exact congrArg (_ + List.sum ·) (List.map_congr_left fun plan _ =>
        (count_observations plan table column groupSet).2.1)
    · exact congrArg (_ + List.sum ·) (List.map_congr_left fun plan _ =>
        (count_observations plan table column groupSet).2.2)

/-! ## two queries at once -/

/-- The name of a table. -/
def eventsName : TableName := eventsTable.toTableName

/-- `SELECT ... FROM t WHERE k = ...`. -/
def filteredPlan : LogicalOperator :=
  .get { tableIndex := 0, table := some eventsName, names := [bytes "k", bytes "g"]
         columnIds := [0, 1], tableFilters := [0] } []

/-- `SELECT ... FROM t GROUP BY k, g`. -/
def groupedPlan : LogicalOperator :=
  .aggregate [.columnRef ⟨0, 0⟩, .columnRef ⟨0, 1⟩]
    [.get { tableIndex := 0, table := some eventsName, names := [bytes "k", bytes "g"]
            columnIds := [0, 1], tableFilters := [] } []]

/-- The filter is counted between the two columns of the other query. -/
def interleaved : List Observation :=
  (observations groupedPlan).take 1 ++ observations filteredPlan ++
    (observations groupedPlan).drop 1

theorem counts_of_interleaved :
    interleaved.foldl observe .empty =
        rawDuckOptimizeHook groupedPlan (rawDuckOptimizeHook filteredPlan .empty) ∧
      ((interleaved.foldl observe .empty).usageOf (tableKey eventsName) (bytes "k")).filters = 1 ∧
      ((interleaved.foldl observe .empty).usageOf (tableKey eventsName) (bytes "k")).groups =
        1 := by
  have hperm : interleaved.Perm ([filteredPlan, groupedPlan].flatMap observations) := by
    have hsplit := List.take_append_drop 1 (observations groupedPlan)
    rw [interleaved, List.flatMap_cons, List.flatMap_singleton]
    conv_rhs => rw [← hsplit]
    rw [← List.append_assoc]
    exact List.perm_append_comm.append_right _
  obtain ⟨hsame, hcounts⟩ := counts_of_queries hperm .empty
  obtain ⟨hfilters, hgroups, -⟩ := hcounts (tableKey eventsName) (bytes "k") []
  refine ⟨hsame, hfilters.trans ?_, hgroups.trans ?_⟩
  · rfl
  · rfl

end Statistics

end RawDuck
