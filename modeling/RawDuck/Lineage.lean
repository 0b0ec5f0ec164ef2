import RawDuck.Statistics

/-!
# RawDuck.Lineage

Where the column of a binding comes from.

`TraceBinding` follows a grouping column through projections to a scan, and looks
inside the wrappers that compressed materialization puts around a column.  Two rows
of a plan then agree in the grouping column exactly when they agree in the column of
the base table the statistics name.

* `Chain` — the projections between a binding and a scan;
* `traceBinding_eq_some_iff` — the loop finds the chains that are short enough;
* `Consistent` — the values of a row at every binding of a plan;
* `tracedColumn_partition` — grouping by what is traced is grouping by the column.
-/

namespace RawDuck

namespace Statistics

/-! ## chains -/

variable {operators : Operators} {binding bottom : ColumnBinding} {get : LogicalGet}

/-- From a binding through so many projections to a column of a scan. -/
inductive Chain (operators : Operators) :
    Nat → ColumnBinding → LogicalGet → ColumnBinding → Prop where
  | scan {binding : ColumnBinding} {get : LogicalGet} {children : List LogicalOperator}
      (hop : operators binding.tableIndex = some (.get get children)) :
      Chain operators 0 binding get binding
  | projection {n tableIndex : Nat} {binding below bottom : ColumnBinding} {get : LogicalGet}
      {expressions : List Expression} {children : List LogicalOperator} {expression : Expression}
      (hop : operators binding.tableIndex =
        some (.projection tableIndex expressions children))
      (hexpression : expressions[binding.columnIndex]? = some expression)
      (hbelow : unwrap expression = .columnRef below)
      (hrest : Chain operators n below get bottom) : Chain operators (n + 1) binding get bottom

/-- **What the loop finds**: the scan at the end of a chain of fewer projections than it
may take hops. -/
theorem traceBinding_eq_some_iff (hops : Nat) :
    traceBinding operators hops binding = some (get, bottom) ↔
      ∃ n < hops, Chain operators n binding get bottom := by
  induction hops generalizing binding with
  | zero =>
      constructor
      · intro h
        contradiction
      · rintro ⟨n, hn, -⟩
        exact absurd hn (Nat.not_lt_zero n)
  | succ hops ih =>
      constructor
      · intro h
        rw [traceBinding] at h
        split at h
        · next scanned children hop =>
          obtain ⟨rfl, rfl⟩ := Prod.mk.inj (Option.some.inj h)
          exact ⟨0, Nat.succ_pos hops, .scan hop⟩
        · next tableIndex expressions children hop =>
          split at h
          · next below hbelow =>
            obtain ⟨expression, hexpression, hbelow⟩ := Option.map_eq_some_iff.mp hbelow
            obtain ⟨n, hn, hrest⟩ := ih.mp h
            exact ⟨n + 1, Nat.succ_lt_succ hn, .projection hop hexpression hbelow hrest⟩
          · contradiction
        · contradiction
      · rintro ⟨n, hn, hchain⟩
        cases hchain with
        | scan hop => rw [traceBinding, hop]
        | projection hop hexpression hbelow hrest =>
            rw [traceBinding, hop]
            dsimp only
            rw [hexpression, Option.map_some, hbelow]
            exact ih.mpr ⟨_, Nat.lt_of_succ_lt_succ hn, hrest⟩

/-! ## the operators of a plan -/

/-- The operator is in the plan and has the table index. -/
def Indexed (plan : List LogicalOperator) (tableIndex : Nat) (op : LogicalOperator) : Prop :=
  op ∈ plan ∧ ((∃ get children, op = .get get children ∧ get.tableIndex = tableIndex) ∨
    ∃ expressions children, op = .projection tableIndex expressions children)

theorem Indexed.mono {plan plan' : List LogicalOperator} {tableIndex : Nat} {op : LogicalOperator}
    (h : Indexed plan tableIndex op) (hsub : plan ⊆ plan') : Indexed plan' tableIndex op :=
  ⟨hsub h.1, h.2⟩

mutual
/-- What is found under a table index was there before, or is an operator of the plan. -/
theorem collectGets_spec : ∀ (plan : LogicalOperator) (operators : Operators)
    {tableIndex : Nat} {op : LogicalOperator}, collectGets plan operators tableIndex = some op →
      operators tableIndex = some op ∨ Indexed plan.visited tableIndex op
  | .get get children, operators, tableIndex, op, h => by
      rw [collectGets] at h
      rcases collectGetsOf_spec children _ h with h | h
      · by_cases hindex : tableIndex = get.tableIndex
        · rw [hindex, Function.update_self] at h
          obtain rfl := Option.some.inj h
          exact .inr ⟨List.mem_cons_self, .inl ⟨get, children, rfl, hindex.symm⟩⟩
        · rw [Function.update_of_ne hindex] at h
          exact .inl h
      · exact .inr (h.mono (List.subset_cons_self _ _))
  | .projection index expressions children, operators, tableIndex, op, h => by
      rw [collectGets] at h
      rcases collectGetsOf_spec children _ h with h | h
      · by_cases hindex : tableIndex = index
        · rw [hindex, Function.update_self] at h
          obtain rfl := Option.some.inj h
          subst hindex
          exact .inr ⟨List.mem_cons_self, .inr ⟨expressions, children, rfl⟩⟩
        · rw [Function.update_of_ne hindex] at h
          exact .inl h
      · exact .inr (h.mono (List.subset_cons_self _ _))
  | .aggregate groups children, operators, tableIndex, op, h => by
      rw [collectGets] at h
      exact (collectGetsOf_spec children _ h).imp_right
        fun h => h.mono (List.subset_cons_self _ _)
  | .other children, operators, tableIndex, op, h => by
      rw [collectGets] at h
      exact (collectGetsOf_spec children _ h).imp_right
        fun h => h.mono (List.subset_cons_self _ _)

theorem collectGetsOf_spec : ∀ (plans : List LogicalOperator) (operators : Operators)
    {tableIndex : Nat} {op : LogicalOperator}, collectGetsOf plans operators tableIndex = some op →
      operators tableIndex = some op ∨ Indexed (visitedAll plans) tableIndex op
  | [], operators, tableIndex, op, h => by
      rw [collectGetsOf] at h
      exact .inl h
  | plan :: plans, operators, tableIndex, op, h => by
      rw [collectGetsOf] at h
      rw [visitedAll]
      rcases collectGetsOf_spec plans _ h with h | h
      · exact (collectGets_spec plan _ h).imp_right fun h => h.mono (List.subset_append_left _ _)
      · exact .inr (h.mono (List.subset_append_right _ _))
end

/-! ## the values of a row -/

/-- A row on its way through a plan: the value of each binding, of each expression that is
not looked into, and the rows of the scans it is made of, by table index. -/
structure Lineage where
  values : ColumnBinding → Value
  others : Nat → Value
  scanned : Nat → Row

variable (apply : Bytes → List Value → Value)

mutual
/-- The value of an expression for a row, where functions do what `apply` says. -/
def Expression.eval (row : Lineage) : Expression → Value
  | .columnRef binding => row.values binding
  | .function name children => apply name (evalAll row children)
  | .constant value => value
  | .other expression => row.others expression

/-- The values of expressions. -/
def evalAll (row : Lineage) : List Expression → List Value
  | [] => []
  | expression :: expressions => expression.eval row :: evalAll row expressions
end

variable (contents : Contents)

/-- The values are those the plan computes: a scan hands on the columns of its row, one of
the rows its table holds, and a projection the values of its expressions. -/
structure Consistent (plan : LogicalOperator) (row : Lineage) : Prop where
  stored : ∀ get children table, .get get children ∈ plan.visited → get.table = some table →
    row.scanned get.tableIndex ∈ contents table
  scans : ∀ get children, .get get children ∈ plan.visited → ∀ i slot,
    get.columnIds[i]? = some slot →
      row.values ⟨get.tableIndex, i⟩ = (row.scanned get.tableIndex).getD slot .null
  projections : ∀ tableIndex expressions children,
    .projection tableIndex expressions children ∈ plan.visited → ∀ (i : Nat) expression,
      expressions[i]? = some expression →
        row.values ⟨tableIndex, i⟩ = expression.eval apply row

/-- The plan wraps an expression: some projection puts a function of compressed
materialization around it. -/
def Wraps (plan : LogicalOperator) (name : Bytes) (child : Expression)
    (others : List Expression) : Prop :=
  isInternal name = true ∧ ∃ tableIndex expressions children,
    .projection tableIndex expressions children ∈ plan.visited ∧
      .function name (child :: others) ∈ expressions

/-- Compressed materialization loses nothing: besides the column, its functions have
constant arguments, and of the values the column has in rows of the plan no two have one
compressed form. -/
structure Reversible (plan : LogicalOperator) : Prop where
  constants : ∀ name child others, Wraps plan name child others →
    ∃ values : List Value, others = values.map .constant
  injective : ∀ name child (values : List Value),
    Wraps plan name child (values.map .constant) →
      Set.InjOn (fun value => apply name (value :: values))
        {value | ∃ row, Consistent apply contents plan row ∧ child.eval apply row = value}

variable {apply contents} {plan : LogicalOperator} {row row' : Lineage}

theorem evalAll_constants (values : List Value) :
    evalAll apply row (values.map .constant) = values := by
  induction values with
  | nil => rfl
  | cons value values ih =>
      rw [List.map_cons, evalAll, ih]
      rfl

/-- Rows agree in an expression exactly when they agree in what is inside its wrapper. -/
theorem eval_unwrap_iff (hreversible : Reversible apply contents plan)
    (hrow : Consistent apply contents plan row) (hrow' : Consistent apply contents plan row')
    {tableIndex : Nat} {expressions : List Expression} {children : List LogicalOperator}
    {expression : Expression}
    (hplan : .projection tableIndex expressions children ∈ plan.visited)
    (hexpression : expression ∈ expressions) :
    expression.eval apply row = expression.eval apply row' ↔
      (unwrap expression).eval apply row = (unwrap expression).eval apply row' := by
  cases expression with
  | columnRef binding => rfl
  | constant value => rfl
  | other expression => rfl
  | function name arguments =>
      cases arguments with
      | nil => rfl
      | cons child others =>
          rw [unwrap]
          split
          · next hinternal =>
            have hwraps : Wraps plan name child others :=
              ⟨hinternal, tableIndex, expressions, children, hplan, hexpression⟩
            obtain ⟨values, rfl⟩ := hreversible.constants name child others hwraps
            rw [Expression.eval, Expression.eval, evalAll, evalAll, evalAll_constants,
              evalAll_constants]
            exact ⟨hreversible.injective name child values hwraps ⟨row, hrow, rfl⟩
              ⟨row', hrow', rfl⟩, fun h => by rw [h]⟩
          · rfl

/-- An operator found under a table index. -/
theorem mem_visited_of_collectGets {tableIndex : Nat} {op : LogicalOperator}
    (h : collectGets plan (fun _ => none) tableIndex = some op) :
    Indexed plan.visited tableIndex op := by
  rcases collectGets_spec plan _ h with h | h
  · contradiction
  · exact h

/-- A chain ends in a scan of the plan. -/
theorem Chain.ends {n : Nat}
    (hchain : Chain (collectGets plan fun _ => none) n binding get bottom) :
    bottom.tableIndex = get.tableIndex ∧ ∃ children, .get get children ∈ plan.visited := by
  induction hchain with
  | scan hop =>
      obtain ⟨hmem, ⟨get', children', hget, hindex⟩ | ⟨_, _, hget⟩⟩ :=
        mem_visited_of_collectGets hop
      · obtain ⟨rfl, rfl⟩ := LogicalOperator.get.inj hget
        exact ⟨hindex.symm, _, hmem⟩
      · contradiction
  | projection hop hexpression hbelow hrest ih => exact ih

/-- Rows agree in a binding exactly when they agree in the scanned column its chain ends
in. -/
theorem Chain.values_iff {n : Nat}
    (hchain : Chain (collectGets plan fun _ => none) n binding get bottom)
    (hreversible : Reversible apply contents plan) (hrow : Consistent apply contents plan row)
    (hrow' : Consistent apply contents plan row') :
    row.values binding = row'.values binding ↔ row.values bottom = row'.values bottom := by
  induction hchain with
  | scan hop => rfl
  | projection hop hexpression hbelow hrest ih =>
      obtain ⟨hmem, ⟨_, _, hprojection, -⟩ | ⟨expressions', children', hprojection⟩⟩ :=
        mem_visited_of_collectGets hop
      · contradiction
      · obtain ⟨rfl, rfl, rfl⟩ := LogicalOperator.projection.inj hprojection
        have hvalue : ∀ {row : Lineage}, Consistent apply contents plan row → row.values _ = _ :=
          fun h => h.projections _ _ _ hmem _ _ hexpression
        rw [hvalue hrow, hvalue hrow',
          eval_unwrap_iff hreversible hrow hrow' hmem (List.mem_of_getElem? hexpression), hbelow]
        exact ih

/-- **Grouping by what is traced is grouping by the column**: a grouping expression that
the statistics count for a column of a table comes from a scan that reads the column, and
any two rows of the plan agree in the expression exactly when the scanned rows agree in
the column. -/
theorem tracedColumn_partition (apply : Bytes → List Value → Value) (contents : Contents)
    (plan : LogicalOperator) (hreversible : Reversible apply contents plan) {group : Expression}
    {table : TableName} {column : Bytes}
    (htraced : tracedColumn (collectGets plan fun _ => none) group = some (table, column)) :
    ∃ get children slot, .get get children ∈ plan.visited ∧ get.table = some table ∧
      slot ∈ get.columnIds ∧ get.names[slot]? = some column ∧
      ∀ row row', Consistent apply contents plan row → Consistent apply contents plan row' →
        (group.eval apply row = group.eval apply row' ↔
          (row.scanned get.tableIndex).getD slot .null =
            (row'.scanned get.tableIndex).getD slot .null) := by
  cases group with
  | columnRef binding =>
      rw [tracedColumn] at htraced
      split at htraced
      · contradiction
      · next get bottom htrace =>
        split at htraced
        · next table' column' htable hcolumn =>
          obtain ⟨rfl, rfl⟩ := Prod.mk.inj (Option.some.inj htraced)
          obtain ⟨slot, hslot, hname⟩ := Option.bind_eq_some_iff.mp hcolumn
          obtain ⟨n, -, hchain⟩ := (traceBinding_eq_some_iff maxHops).mp htrace
          obtain ⟨hindex, children, hmem⟩ := hchain.ends
          refine ⟨get, children, slot, hmem, htable, List.mem_of_getElem? hslot, hname,
            fun row row' hrow hrow' => ?_⟩
          have hbottom : ∀ {row : Lineage}, Consistent apply contents plan row →
              row.values bottom = (row.scanned get.tableIndex).getD slot .null := by
            intro row h
            rw [← h.scans get children hmem _ _ hslot, ← hindex]
          rw [Expression.eval, Expression.eval, hchain.values_iff hreversible hrow hrow',
            hbottom hrow, hbottom hrow']
        · contradiction
  | function name children => contradiction
  | constant value => contradiction
  | other expression => contradiction

/-! ## a compressed column -/

/-- `__internal_compress_integral_utinyint`: the distance from the minimum, in a byte. -/
def compress (_ : Bytes) : List Value → Value
  | [.bigint n, .bigint least] => .bigint ((n - least) % 256)
  | _ => .null

/-- `GROUP BY k`, compressed by the optimizer below the aggregation. -/
def compressedPlan : LogicalOperator :=
  .aggregate [.columnRef ⟨1, 0⟩]
    [.projection 1
      [.function (bytes "__internal_compress_integral_utinyint")
        [.columnRef ⟨0, 0⟩, .constant (.bigint 5)]]
      [.get { tableIndex := 0, table := some eventsName, names := [bytes "k", bytes "g"]
              columnIds := [0, 1], tableFilters := [] } []]]

/-- Three rows, whose `k` is at least 5 and less than 261. -/
def compressedRows : Contents := fun _ =>
  [[.bigint 5, .bigint 1], [.bigint 260, .bigint 1], [.null, .bigint 2]]

theorem mem_visited_compressedPlan {tableIndex : Nat} {expressions : List Expression}
    {children : List LogicalOperator}
    (h : .projection tableIndex expressions children ∈ compressedPlan.visited) :
    expressions = [.function (bytes "__internal_compress_integral_utinyint")
      [.columnRef ⟨0, 0⟩, .constant (.bigint 5)]] := by
  simp only [compressedPlan, LogicalOperator.visited, visitedAll, List.append_nil,
    List.mem_cons, List.not_mem_nil, or_false] at h
  obtain h | h | h := h
  · contradiction
  · exact (LogicalOperator.projection.inj h).2.1
  · contradiction

theorem wraps_compressedPlan {name : Bytes} {child : Expression} {others : List Expression}
    (h : Wraps compressedPlan name child others) :
    child = .columnRef ⟨0, 0⟩ ∧ others = [.constant (.bigint 5)] := by
  obtain ⟨-, tableIndex, expressions, children, hplan, hmem⟩ := h
  obtain rfl := mem_visited_compressedPlan hplan
  obtain ⟨-, harguments⟩ := Expression.function.inj (List.mem_singleton.mp hmem)
  exact List.cons.inj harguments

/-- The compressed column has one of the three values. -/
theorem values_compressedPlan {row : Lineage}
    (h : Consistent compress compressedRows compressedPlan row) :
    row.values ⟨0, 0⟩ ∈ [.bigint 5, .bigint 260, .null] := by
  have hvisited : LogicalOperator.get _ [] ∈ compressedPlan.visited :=
    List.mem_cons_of_mem _ (List.mem_cons_of_mem _ List.mem_cons_self)
  have hstored := h.stored _ _ _ hvisited rfl
  rw [h.scans _ _ hvisited 0 0 rfl]
  have hvalue : (row.scanned 0).getD 0 .null ∈
      (compressedRows eventsName).map fun scanned => scanned.getD 0 .null :=
    List.mem_map.mpr ⟨_, hstored, rfl⟩
  exact hvalue

theorem compress_injOn : ∀ value ∈ [Value.bigint 5, .bigint 260, .null],
    ∀ value' ∈ [Value.bigint 5, .bigint 260, .null],
      compress [] [value, .bigint 5] = compress [] [value', .bigint 5] → value = value' := by
  decide

theorem reversible_compressedPlan : Reversible compress compressedRows compressedPlan where
  constants := by
    intro name child others hwraps
    exact ⟨[.bigint 5], (wraps_compressedPlan hwraps).2⟩
  injective := by
    rintro name child values hwraps value ⟨row, hrow, rfl⟩ value' ⟨row', hrow', rfl⟩ hsame
    obtain ⟨rfl, hvalues⟩ := wraps_compressedPlan hwraps
    obtain ⟨value, rfl, hvalue⟩ := List.map_eq_singleton_iff.mp hvalues
    obtain rfl := Expression.constant.inj hvalue
    exact compress_injOn _ (values_compressedPlan hrow) _ (values_compressedPlan hrow') hsame

/-- The group is traced through the compression to `k`, and groups rows by `k`. -/
theorem tracedColumn_compressedPlan :
    tracedColumn (collectGets compressedPlan fun _ => none) (.columnRef ⟨1, 0⟩) =
        some (eventsName, bytes "k") ∧
      ∃ get children slot, .get get children ∈ compressedPlan.visited ∧
        get.table = some eventsName ∧ slot ∈ get.columnIds ∧
        get.names[slot]? = some (bytes "k") ∧
        ∀ row row', Consistent compress compressedRows compressedPlan row →
          Consistent compress compressedRows compressedPlan row' →
            ((Expression.columnRef ⟨1, 0⟩).eval compress row =
                (Expression.columnRef ⟨1, 0⟩).eval compress row' ↔
              (row.scanned get.tableIndex).getD slot .null =
                (row'.scanned get.tableIndex).getD slot .null) :=
  ⟨rfl, tracedColumn_partition compress compressedRows compressedPlan
    reversible_compressedPlan rfl⟩

end Statistics

end RawDuck
