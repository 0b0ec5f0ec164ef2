import RawDuck.Projection

/-!
# RawDuck.PlanRewrite

The rewrite onto materialized projections over whole plans.

The hook that runs before optimization visits every operator of a bound plan and
replaces the count aggregations it accepts.  Operators the rewrite does not look
into are identified by their place in the plan, and mean anything there: a
relation between the rows of their inputs and the rows they may return.

* `rewriteAggregates` — the traversal; `rawDuckPreOptimizeHook` — what guards it;
* `results` — the rows a plan may return;
* `results_hook_iff` — the hook keeps them exactly when every aggregation it
  replaces has the rows of what replaces it.
-/

namespace RawDuck

open Fallible

/-! ## plans as trees -/

/-- `LogicalOperator::children`. -/
def LogicalOperator.children : LogicalOperator → List LogicalOperator
  | .get _ => []
  | .aggregate _ children => children
  | .projection _ children => children
  | .other children => children

/-- The operator over other children. -/
def LogicalOperator.withChildren (children : List LogicalOperator) :
    LogicalOperator → LogicalOperator
  | .get scanned => .get scanned
  | .aggregate grouped _ => .aggregate grouped children
  | .projection expressions _ => .projection expressions children
  | .other _ => .other children

/-- The operator at a place of the plan, by the positions of the children to go to. -/
def LogicalOperator.subplan : LogicalOperator → List Nat → Option LogicalOperator
  | op, [] => some op
  | op, i :: path => op.children[i]?.bind fun child => child.subplan path

mutual
/-- The number of operators of a plan. -/
def operators : LogicalOperator → Nat
  | .get _ => 1
  | .aggregate _ children => operatorsOf children + 1
  | .projection _ children => operatorsOf children + 1
  | .other children => operatorsOf children + 1

/-- The number of operators of plans. -/
def operatorsOf : List LogicalOperator → Nat
  | [] => 0
  | op :: ops => operators op + operatorsOf ops
end

theorem operators_le_of_mem {op : LogicalOperator} {ops : List LogicalOperator} (h : op ∈ ops) :
    operators op ≤ operatorsOf ops := by
  induction ops with
  | nil => contradiction
  | cons first rest ih =>
      rw [operatorsOf]
      rcases List.mem_cons.mp h with rfl | h
      · exact Nat.le_add_right _ _
      · exact (ih h).trans (Nat.le_add_left _ _)

theorem operators_lt_of_mem_children {op child : LogicalOperator} (h : child ∈ op.children) :
    operators child < operators op := by
  cases op with
  | get get => contradiction
  | aggregate aggregate children => exact Nat.lt_succ_of_le (operators_le_of_mem h)
  | projection expressions children => exact Nat.lt_succ_of_le (operators_le_of_mem h)
  | other children => exact Nat.lt_succ_of_le (operators_le_of_mem h)

/-! ## the traversal -/

/-- A replaced aggregation has as many operators as before. -/
theorem operators_tryRewrite (context : Context) (op : LogicalOperator) :
    operators ((tryRewriteToProjection context op).getD op) = operators op := by
  cases h : tryRewriteToProjection context op with
  | none => rfl
  | some op' =>
      obtain ⟨m, rfl, rfl⟩ := tryRewriteToProjection_eq_some h
      rfl

/-- `RewriteAggregates`: the operator, then its children. -/
def rewriteAggregates (context : Context) (op : LogicalOperator) : LogicalOperator :=
  let op' := (tryRewriteToProjection context op).getD op
  op'.withChildren (op'.children.attach.map fun child => rewriteAggregates context child.1)
termination_by operators op
decreasing_by
  rw [← operators_tryRewrite context op]
  exact operators_lt_of_mem_children child.2

/-- What the hook looks up. -/
def hookContext (projections : List (Bytes × Projection)) (getEntry : TableName → Option TableEntry)
    (totalRows : TableName → Nat) : Context :=
  { projections := fun key => projections.lookup key, getEntry, totalRows }

/-- `RawDuckPreOptimizeHook`, with the value of the setting `rawduck_use_projections`
and the registered projections. -/
def rawDuckPreOptimizeHook (enabled : Option Bool) (projections : List (Bytes × Projection))
    (getEntry : TableName → Option TableEntry) (totalRows : TableName → Nat)
    (plan : LogicalOperator) : LogicalOperator :=
  if enabled ≠ some true then plan
  else if projections.isEmpty then plan
  else rewriteAggregates (hookContext projections getEntry totalRows) plan

/-! ## what a plan returns -/

/-- A row of an operator: a value for each of its columns. -/
abbrev OutputRow := List (Option Value)

/-- `count(*)`, or a sum over a scanned `BIGINT` column. -/
def AggregateExpression.isCount : AggregateExpression → Bool
  | .boundAggregate aggregate =>
      !aggregate.isDistinct &&
        (aggregate.functionName == bytes "count_star" && aggregate.children.isEmpty ||
          aggregate.functionName == bytes "sum" && match aggregate.children with
            | [.columnRef _ returnType] => returnType == .BIGINT
            | _ => false)
  | .other => false

/-- A reference, or a sum of counts cast to the type of a count. -/
def Expression.isOutput : Expression → Bool
  | .columnRef _ _ => true
  | .cast (.columnRef _ returnType) _ => returnType == hugeint
  | _ => false

/-- The plans whose rows `eval` describes: references to the groups and counts of
one set of groups over a base table scan. -/
def LogicalOperator.isCounts : LogicalOperator → Bool
  | .projection expressions [.aggregate grouped [.get scanned]] =>
      scanned.table.isSome && grouped.groupingFunctions == 0 && grouped.groupingSets ≤ 1 &&
        !grouped.groups.isEmpty && grouped.groups.all Expression.isColumnRef &&
        grouped.expressions.all AggregateExpression.isCount && expressions.all Expression.isOutput
  | _ => false

section

variable (reinterpret : Bytes → Int) (contents : Contents)

/-- The rows a plan may return, in some order.  What an operator makes of the rows of
its inputs depends on the operator and on its place in the plan. -/
def results (meaning : List Nat → LogicalOperator → List (List OutputRow) → List OutputRow → Prop)
    (path : List Nat) (op : LogicalOperator) (rows : List OutputRow) : Prop :=
  if op.isCounts then rows.Perm (eval reinterpret contents op)
  else ∃ inputs : List (List OutputRow), inputs.length = op.children.length ∧
    (∀ i, (h : i < op.children.length) →
      results meaning (path ++ [i]) op.children[i] (inputs.getD i [])) ∧
    meaning path (op.withChildren []) inputs rows
termination_by operators op
decreasing_by exact operators_lt_of_mem_children (List.getElem_mem h)

end

/-! ## what the traversal does -/

variable {context : Context} {op op' plan : LogicalOperator}

theorem children_withChildren (op : LogicalOperator) (f : LogicalOperator → LogicalOperator) :
    (op.withChildren (op.children.map f)).children = op.children.map f := by
  cases op <;> rfl

theorem withChildren_withChildren (op : LogicalOperator) (children children' :
    List LogicalOperator) :
    (op.withChildren children).withChildren children' = op.withChildren children' := by
  cases op <;> rfl

theorem rewriteAggregates_eq (context : Context) (op : LogicalOperator) :
    rewriteAggregates context op =
      ((tryRewriteToProjection context op).getD op).withChildren
        (((tryRewriteToProjection context op).getD op).children.map
          (rewriteAggregates context)) := by
  rw [rewriteAggregates, List.attach_map_val]

/-- An operator that is not replaced: its children are visited. -/
theorem rewriteAggregates_of_none (h : tryRewriteToProjection context op = none) :
    rewriteAggregates context op =
      op.withChildren (op.children.map (rewriteAggregates context)) := by
  rw [rewriteAggregates_eq, h, Option.getD_none]

theorem rewriteAggregates_get (get : LogicalGet) :
    rewriteAggregates context (.get get) = .get get := by
  rw [rewriteAggregates_of_none rfl]
  rfl

theorem rewriteAggregates_aggregate (aggregate : LogicalAggregate)
    (children : List LogicalOperator) : rewriteAggregates context (.aggregate aggregate children) =
      .aggregate aggregate (children.map (rewriteAggregates context)) := by
  rw [rewriteAggregates_of_none rfl]
  rfl

/-- Below an aggregation over a scan nothing is replaced. -/
theorem map_rewriteAggregates_scan (aggregate : LogicalAggregate) (get : LogicalGet) :
    [LogicalOperator.aggregate aggregate [.get get]].map (rewriteAggregates context) =
      [.aggregate aggregate [.get get]] := by
  rw [List.map_singleton, rewriteAggregates_aggregate, List.map_singleton, rewriteAggregates_get]

/-- A replaced operator: nothing below it is. -/
theorem rewriteAggregates_of_some (h : tryRewriteToProjection context op = some op') :
    rewriteAggregates context op = op' := by
  obtain ⟨m, rfl, rfl⟩ := tryRewriteToProjection_eq_some h
  rw [rewriteAggregates_eq, h, Option.getD_some]
  exact congrArg (LogicalOperator.projection _) (map_rewriteAggregates_scan _ _)

/-- The aggregation of a replaced operator counts rows. -/
theorem acceptsAggregate_of_some {expressions : List Expression} {aggregate : LogicalAggregate}
    {get : LogicalGet}
    (h : tryRewriteToProjection context
      (.projection expressions [.aggregate aggregate [.get get]]) = some op') :
    acceptsAggregate aggregate = true := by
  rw [tryRewriteToProjection] at h
  split at h
  · contradiction
  · split at h
    · contradiction
    · next hguards =>
      simp only [Bool.or_eq_true, Bool.not_eq_true', not_or, Bool.not_eq_false] at hguards
      exact hguards.2

/-- The groups of a replaced operator are scanned columns. -/
theorem Matched.groups_references (m : Matched context) :
    m.aggregate.groups.all Expression.isColumnRef = true := by
  refine List.all_eq_true.mpr fun group hgroup => ?_
  obtain ⟨name, -, hname⟩ := forall₂_mem_left (mapM_eq_some.mp m.names_eq) hgroup
  cases group with
  | columnRef binding returnType => rfl
  | cast child type => contradiction
  | other => contradiction

/-- What is replaced counts rows, and so does what replaces it. -/
theorem tryRewrite_isCounts (h : tryRewriteToProjection context op = some op') :
    op.isCounts = true ∧ op'.isCounts = true := by
  obtain ⟨m, rfl, rfl⟩ := tryRewriteToProjection_eq_some h
  have haccepts := acceptsAggregate_of_some h
  simp only [acceptsAggregate, m.expressions_eq, Bool.and_eq_true, beq_iff_eq,
    decide_eq_true_eq] at haccepts
  obtain ⟨⟨⟨hfunctions, hsets⟩, hgroups⟩, ⟨hname, hchildren⟩, hdistinct⟩ := haccepts
  have houtputs : ∀ e ∈ m.expressions, e.isColumnRef = true := List.all_eq_true.mp m.references
  constructor
  · have hcount : m.aggregate.expressions.all AggregateExpression.isCount = true := by
      rw [m.expressions_eq]
      simp [AggregateExpression.isCount, hname, hchildren, hdistinct]
    have hout : m.expressions.all Expression.isOutput = true := by
      refine List.all_eq_true.mpr fun e he => ?_
      cases e with
      | columnRef binding returnType => rfl
      | cast child type => exact absurd (houtputs _ he) Bool.false_ne_true
      | other => exact absurd (houtputs _ he) Bool.false_ne_true
    simp [Matched.plan, LogicalOperator.isCounts, m.table_eq, hfunctions, hsets, hgroups,
      m.groups_references, hcount, hout]
  · have hgroups' : (retarget m.get.tableIndex m.aggregate).groups.all
        Expression.isColumnRef = true := by
      refine List.all_eq_true.mpr fun group hgroup => ?_
      obtain ⟨i, hi, rfl⟩ := List.mem_mapIdx.mp hgroup
      have href := List.all_eq_true.mp m.groups_references _ (List.getElem_mem hi)
      cases hg : m.aggregate.groups[i] with
      | columnRef binding returnType => rfl
      | cast child type => rw [hg] at href; contradiction
      | other => rw [hg] at href; contradiction
    have hne : (retarget m.get.tableIndex m.aggregate).groups.isEmpty = false := by
      rw [List.isEmpty_eq_false_iff]
      exact mt List.mapIdx_eq_nil_iff.mp m.groups_ne
    have hsum : (retarget m.get.tableIndex m.aggregate).expressions.all
        AggregateExpression.isCount = true := rfl
    have hout : (m.expressions.map (retargetOutput m.aggregate)).all
        Expression.isOutput = true := by
      rw [List.all_map]
      refine List.all_eq_true.mpr fun e he => ?_
      cases e with
      | columnRef binding returnType =>
          show (retargetOutput m.aggregate (.columnRef binding returnType)).isOutput = true
          rw [retargetOutput]
          split <;> rfl
      | cast child type => exact absurd (houtputs _ he) Bool.false_ne_true
      | other => exact absurd (houtputs _ he) Bool.false_ne_true
    have hfunctions' : (retarget m.get.tableIndex m.aggregate).groupingFunctions = 0 := hfunctions
    have hsets' : (retarget m.get.tableIndex m.aggregate).groupingSets ≤ 1 := hsets
    simp [Matched.rewritten, LogicalOperator.isCounts, projectionGet, hfunctions', hsets', hne,
      hgroups', hsum, hout]

/-- A count aggregation that is not replaced stays as it is. -/
theorem rewriteAggregates_of_isCounts (hcounts : op.isCounts = true)
    (h : tryRewriteToProjection context op = none) : rewriteAggregates context op = op := by
  unfold LogicalOperator.isCounts at hcounts
  split at hcounts
  · rw [rewriteAggregates_of_none h]
    exact congrArg (LogicalOperator.projection _) (map_rewriteAggregates_scan _ _)
  · contradiction

theorem isCounts_of_not_scan {expressions : List Expression} {children : List LogicalOperator}
    (h : ¬ ∃ grouped get, children = [LogicalOperator.aggregate grouped [.get get]]) :
    (LogicalOperator.projection expressions children).isCounts = false := by
  unfold LogicalOperator.isCounts
  split
  · next heq =>
    obtain ⟨-, rfl⟩ := LogicalOperator.projection.inj heq
    exact absurd ⟨_, _, rfl⟩ h
  · rfl

/-- An operator keeps its kind: it is replaced, or only what is below it. -/
theorem rewriteAggregates_or (context : Context) (op : LogicalOperator) :
    rewriteAggregates context op = op.withChildren (op.children.map (rewriteAggregates context)) ∨
      ∃ m : Matched context, op = m.plan ∧ rewriteAggregates context op = m.rewritten := by
  cases h : tryRewriteToProjection context op with
  | none => exact .inl (rewriteAggregates_of_none h)
  | some op' =>
      obtain ⟨m, rfl, rfl⟩ := tryRewriteToProjection_eq_some h
      exact .inr ⟨m, rfl, rewriteAggregates_of_some h⟩

theorem eq_aggregate_of_rewriteAggregates {grouped : LogicalAggregate}
    {children : List LogicalOperator}
    (h : rewriteAggregates context op = .aggregate grouped children) :
    ∃ below, op = .aggregate grouped below ∧
      below.map (rewriteAggregates context) = children := by
  rcases rewriteAggregates_or context op with heq | ⟨m, -, heq⟩
  · rw [heq] at h
    cases op with
    | aggregate aggregate below =>
        obtain ⟨rfl, rfl⟩ := LogicalOperator.aggregate.inj h
        exact ⟨below, rfl, rfl⟩
    | get get => contradiction
    | projection expressions below => contradiction
    | other below => contradiction
  · rw [heq] at h
    contradiction

theorem eq_get_of_rewriteAggregates {get : LogicalGet}
    (h : rewriteAggregates context op = .get get) : op = .get get := by
  rcases rewriteAggregates_or context op with heq | ⟨m, -, heq⟩
  · rw [heq] at h
    cases op with
    | get scanned => exact h
    | aggregate aggregate below => contradiction
    | projection expressions below => contradiction
    | other below => contradiction
  · rw [heq] at h
    contradiction

/-- An aggregation over a scan, below a visited operator, has been one before. -/
theorem children_of_rewritten_scan {children : List LogicalOperator} {grouped : LogicalAggregate}
    {get : LogicalGet}
    (h : children.map (rewriteAggregates context) = [.aggregate grouped [.get get]]) :
    children = [.aggregate grouped [.get get]] := by
  obtain ⟨child, rfl, hchild⟩ := List.map_eq_singleton_iff.mp h
  obtain ⟨below, rfl, hbelow⟩ := eq_aggregate_of_rewriteAggregates hchild
  obtain ⟨scanned, rfl, hscanned⟩ := List.map_eq_singleton_iff.mp hbelow
  rw [eq_get_of_rewriteAggregates hscanned]

/-- The traversal makes no count aggregation of another operator. -/
theorem isCounts_rewriteAggregates (op : LogicalOperator) :
    (rewriteAggregates context op).isCounts = op.isCounts := by
  cases h : tryRewriteToProjection context op with
  | some op' =>
      obtain ⟨hop, hop'⟩ := tryRewrite_isCounts h
      rw [rewriteAggregates_of_some h, hop, hop']
  | none =>
      rw [rewriteAggregates_of_none h]
      cases op with
      | projection expressions children =>
          show (LogicalOperator.projection expressions
            (children.map (rewriteAggregates context))).isCounts = _
          by_cases hscan : ∃ grouped get, children = [.aggregate grouped [.get get]]
          · obtain ⟨grouped, get, rfl⟩ := hscan
            rw [map_rewriteAggregates_scan]
          · have hscan' : ¬ ∃ grouped get, children.map (rewriteAggregates context) =
                [.aggregate grouped [.get get]] := by
              rintro ⟨grouped, get, heq⟩
              exact hscan ⟨grouped, get, children_of_rewritten_scan heq⟩
            rw [isCounts_of_not_scan hscan, isCounts_of_not_scan hscan']
      | get get => rfl
      | aggregate aggregate children => rfl
      | other children => rfl

/-! ## places of the plan -/

/-- A projection is not below a count aggregation. -/
theorem isCounts_of_subplan {i : Nat} {path : List Nat}
    {expressions : List Expression} {children : List LogicalOperator}
    (h : plan.subplan (i :: path) = some (.projection expressions children)) :
    plan.isCounts = false := by
  cases hcounts : plan.isCounts with
  | false => rfl
  | true =>
      exfalso
      unfold LogicalOperator.isCounts at hcounts
      split at hcounts
      · next grouped scanned =>
        -- below are the aggregation, the scan, and nothing
        have hscan : ∀ {path : List Nat},
            (LogicalOperator.get scanned).subplan path = some (.projection expressions children) →
              False := by
          intro path hpath
          cases path with
          | nil => exact LogicalOperator.noConfusion (Option.some.inj hpath)
          | cons j path => contradiction
        obtain ⟨child, hchild, hpath⟩ := Option.bind_eq_some_iff.mp h
        obtain rfl := List.mem_singleton.mp (List.mem_of_getElem? hchild)
        cases path with
        | nil => exact LogicalOperator.noConfusion (Option.some.inj hpath)
        | cons j path =>
            obtain ⟨child, hchild, hpath⟩ := Option.bind_eq_some_iff.mp hpath
            obtain rfl := List.mem_singleton.mp (List.mem_of_getElem? hchild)
            exact hscan hpath
      · contradiction

/-- Where an operator is replaced, the traversal has what replaces it. -/
theorem subplan_rewriteAggregates {path : List Nat} (hat : plan.subplan path = some op)
    (h : tryRewriteToProjection context op = some op') :
    (rewriteAggregates context plan).subplan path = some op' := by
  induction path generalizing plan with
  | nil =>
      obtain rfl := Option.some.inj hat
      exact congrArg some (rewriteAggregates_of_some h)
  | cons i path ih =>
      have hnone : tryRewriteToProjection context plan = none := by
        by_contra hsome
        obtain ⟨plan', hplan⟩ := Option.ne_none_iff_exists'.mp hsome
        obtain ⟨m, rfl, rfl⟩ := tryRewriteToProjection_eq_some h
        have hfalse := @isCounts_of_subplan plan i path _ _ hat
        rw [(tryRewrite_isCounts hplan).1] at hfalse
        contradiction
      obtain ⟨child, hchild, hat⟩ := Option.bind_eq_some_iff.mp hat
      rw [rewriteAggregates_of_none hnone]
      refine Option.bind_eq_some_iff.mpr ⟨rewriteAggregates context child, ?_, ih hat⟩
      rw [children_withChildren, List.getElem?_map, hchild]
      rfl

/-! ## the rows of places -/

section

variable {reinterpret : Bytes → Int} {contents : Contents}
  {meaning : List Nat → LogicalOperator → List (List OutputRow) → List OutputRow → Prop}
  {path : List Nat} {rows : List OutputRow}

theorem results_of_isCounts (h : op.isCounts = true) :
    results reinterpret contents meaning path op rows ↔
      rows.Perm (eval reinterpret contents op) := by
  rw [results, if_pos h]

theorem results_of_not_isCounts (h : op.isCounts = false) :
    results reinterpret contents meaning path op rows ↔
      ∃ inputs : List (List OutputRow), inputs.length = op.children.length ∧
        (∀ i, (h : i < op.children.length) → results reinterpret contents meaning (path ++ [i])
          op.children[i] (inputs.getD i [])) ∧
        meaning path (op.withChildren []) inputs rows := by
  rw [results, if_neg (by rw [h]; exact Bool.false_ne_true)]

/-- Where each replaced operator has the rows it had, every plan has. -/
theorem results_rewriteAggregates
    (hsame : ∀ place op op', plan.subplan place = some op →
      tryRewriteToProjection context op = some op' →
        (eval reinterpret contents op').Perm (eval reinterpret contents op)) :
    results reinterpret contents meaning path (rewriteAggregates context plan) rows ↔
      results reinterpret contents meaning path plan rows := by
  induction hn : operators plan using Nat.strong_induction_on generalizing plan path rows with
  | _ n ih =>
  subst hn
  cases h : tryRewriteToProjection context plan with
  | some plan' =>
      obtain ⟨hplan, hplan'⟩ := tryRewrite_isCounts h
      have hperm := hsame [] plan plan' rfl h
      rw [rewriteAggregates_of_some h, results_of_isCounts hplan, results_of_isCounts hplan']
      exact ⟨fun hrows => hrows.trans hperm, fun hrows => hrows.trans hperm.symm⟩
  | none =>
      cases hcounts : plan.isCounts with
      | true => rw [rewriteAggregates_of_isCounts hcounts h]
      | false =>
          have hcounts' := (@isCounts_rewriteAggregates context plan).trans hcounts
          rw [results_of_not_isCounts hcounts, results_of_not_isCounts hcounts',
            rewriteAggregates_of_none h, withChildren_withChildren, children_withChildren]
          refine exists_congr fun inputs => and_congr (by rw [List.length_map])
            (and_congr_left fun _ => ?_)
          simp only [List.length_map, List.getElem_map]
          refine forall_congr' fun i => forall_congr' fun hi => ?_
          have hlt := operators_lt_of_mem_children (List.getElem_mem hi)
          refine ih _ hlt (fun place op op' hat => ?_) rfl
          refine hsame (i :: place) op op' ?_
          rw [LogicalOperator.subplan, List.getElem?_eq_getElem hi]
          exact hat

/-- Every operator hands on the rows of its input on the way to a place; away from that
way it returns any rows. -/
def handOn (place path : List Nat) (_ : LogicalOperator) (inputs : List (List OutputRow))
    (rows : List OutputRow) : Prop :=
  ∀ i, path ++ [i] <+: place → rows = inputs.getD i []

theorem exists_inputs {n : Nat} {holds : Nat → List OutputRow → Prop}
    (h : ∀ i < n, ∃ rows, holds i rows) :
    ∃ inputs : List (List OutputRow), inputs.length = n ∧ ∀ i < n, holds i (inputs.getD i []) := by
  have hall : ∀ i, ∃ rows, i < n → holds i rows := by
    intro i
    by_cases hi : i < n
    · exact (h i hi).imp fun rows hrows _ => hrows
    · exact ⟨[], fun hlt => absurd hlt hi⟩
  choose f hf using hall
  refine ⟨(List.range n).map f, by rw [List.length_map, List.length_range], fun i hi => ?_⟩
  rw [List.getD_eq_getElem?_getD, List.getElem?_map, List.getElem?_range hi]
  exact hf i hi

/-- The way to a place goes through one child. -/
theorem handOn_iff {place : List Nat} {op : LogicalOperator} {inputs : List (List OutputRow)}
    {i : Nat} (hi : path ++ [i] <+: place) :
    handOn place path op inputs rows ↔ rows = inputs.getD i [] := by
  constructor
  · exact fun h => h i hi
  · intro hrows j hj
    obtain ⟨rest, hrest⟩ := hi
    obtain ⟨rest', hrest'⟩ := hj
    have heq := hrest.trans hrest'.symm
    rw [List.append_assoc, List.append_assoc] at heq
    obtain ⟨rfl, -⟩ := List.cons.inj (List.append_cancel_left heq)
    exact hrows

theorem exists_handOn (place path : List Nat) (op : LogicalOperator)
    (inputs : List (List OutputRow)) : ∃ rows, handOn place path op inputs rows := by
  by_cases hway : ∃ i, path ++ [i] <+: place
  · obtain ⟨i, hi⟩ := hway
    exact ⟨_, (handOn_iff hi).mpr rfl⟩
  · exact ⟨[], fun i hi => absurd ⟨i, hi⟩ hway⟩

/-- A plan whose operators hand rows on returns some. -/
theorem exists_results_handOn (place path : List Nat) (plan : LogicalOperator) :
    ∃ rows, results reinterpret contents (handOn place) path plan rows := by
  induction hn : operators plan using Nat.strong_induction_on generalizing plan path with
  | _ n ih =>
  subst hn
  cases hcounts : plan.isCounts with
  | true => exact ⟨_, (results_of_isCounts hcounts).mpr (.refl _)⟩
  | false =>
      obtain ⟨inputs, hlength, hinputs⟩ := @exists_inputs plan.children.length
        (fun i rows => ∀ h : i < plan.children.length, results reinterpret contents
          (handOn place) (path ++ [i]) plan.children[i] rows) fun i hi => by
            have hlt := operators_lt_of_mem_children (List.getElem_mem hi)
            obtain ⟨rows, hrows⟩ := ih _ hlt _ _ rfl
            exact ⟨rows, fun _ => hrows⟩
      obtain ⟨rows, hrows⟩ := exists_handOn place path (plan.withChildren []) inputs
      exact ⟨rows, (results_of_not_isCounts hcounts).mpr
        ⟨inputs, hlength, fun i hi => hinputs i hi hi, hrows⟩⟩

/-- What a plan whose operators hand rows on returns is what the operator at the place
returns. -/
theorem results_handOn {below : List Nat} {expressions : List Expression}
    {children : List LogicalOperator}
    (hat : plan.subplan below = some (.projection expressions children)) :
    results reinterpret contents (handOn (path ++ below)) path plan rows ↔
      results reinterpret contents (handOn (path ++ below)) (path ++ below)
        (.projection expressions children) rows := by
  induction below generalizing plan path with
  | nil =>
      obtain rfl := Option.some.inj hat
      rw [List.append_nil]
  | cons i below ih =>
      have hcounts := isCounts_of_subplan hat
      obtain ⟨child, hchild, hat⟩ := Option.bind_eq_some_iff.mp hat
      obtain ⟨hi, rfl⟩ := List.getElem?_eq_some_iff.mp hchild
      have hway : path ++ [i] <+: path ++ i :: below := ⟨below, by simp⟩
      have hchild := @ih _ (path ++ [i]) hat
      rw [List.append_assoc, List.singleton_append] at hchild
      rw [← hchild, results_of_not_isCounts hcounts]
      constructor
      · rintro ⟨inputs, -, hinputs, hrows⟩
        rw [(handOn_iff hway).mp hrows]
        exact hinputs i hi
      · intro hrows
        obtain ⟨inputs, hlength, hinputs⟩ := @exists_inputs plan.children.length
          (fun j rows' => (j = i → rows' = rows) ∧ ∀ h : j < plan.children.length,
            results reinterpret contents (handOn (path ++ i :: below)) (path ++ [j])
              plan.children[j] rows') fun j hj => by
            by_cases hji : j = i
            · subst hji
              exact ⟨rows, fun _ => rfl, fun _ => hrows⟩
            · obtain ⟨rows', hrows'⟩ := exists_results_handOn (path ++ i :: below) (path ++ [j])
                plan.children[j]
              exact ⟨rows', fun h => absurd h hji, fun _ => hrows'⟩
        exact ⟨inputs, hlength, fun j hj => (hinputs j hj).2 hj,
          (handOn_iff hway).mpr ((hinputs i hi).1 rfl).symm⟩

end

/-! ## the hook -/

/-- The traversal keeps what a plan returns, whatever its other operators make of their
inputs, exactly when each operator it replaces has the rows it had. -/
theorem results_rewriteAggregates_iff (context : Context) (plan : LogicalOperator)
    (reinterpret : Bytes → Int) (contents : Contents) :
    (∀ meaning rows, results reinterpret contents meaning [] (rewriteAggregates context plan) rows ↔
        results reinterpret contents meaning [] plan rows) ↔
      ∀ place op op', plan.subplan place = some op →
        tryRewriteToProjection context op = some op' →
          (eval reinterpret contents op').Perm (eval reinterpret contents op) := by
  constructor
  · intro hsame place op op' hat h
    obtain ⟨hop, hop'⟩ := tryRewrite_isCounts h
    have hat' := subplan_rewriteAggregates hat h
    obtain ⟨m, rfl, rfl⟩ := tryRewriteToProjection_eq_some h
    have hrows := hsame (handOn ([] ++ place)) (eval reinterpret contents m.rewritten)
    have hrewritten : results reinterpret contents (handOn ([] ++ place)) []
        (rewriteAggregates context plan) (eval reinterpret contents m.rewritten) :=
      (results_handOn hat').mpr ((results_of_isCounts hop').mpr (.refl _))
    exact (results_of_isCounts hop).mp ((results_handOn hat).mp (hrows.mp hrewritten))
  · exact fun hsame meaning rows => results_rewriteAggregates hsame

theorem tryRewrite_nil (getEntry : TableName → Option TableEntry) (totalRows : TableName → Nat)
    (op : LogicalOperator) :
    tryRewriteToProjection (hookContext [] getEntry totalRows) op = none := by
  by_contra h
  obtain ⟨op', hop⟩ := Option.ne_none_iff_exists'.mp h
  obtain ⟨m, -, -⟩ := tryRewriteToProjection_eq_some hop
  have hnone := m.projection_eq
  rw [freshProjection] at hnone
  contradiction

theorem rewriteAggregates_of_forall_none
    (h : ∀ place op, plan.subplan place = some op → tryRewriteToProjection context op = none) :
    rewriteAggregates context plan = plan := by
  induction hn : operators plan using Nat.strong_induction_on generalizing plan with
  | _ n ih =>
  subst hn
  have hchildren : plan.children.map (rewriteAggregates context) = plan.children := by
    refine List.map_congr_left (g := id) (fun child hchild => ?_) |>.trans (List.map_id _)
    refine ih _ (operators_lt_of_mem_children hchild) (fun place op hat => ?_) rfl
    obtain ⟨i, hi, rfl⟩ := List.getElem_of_mem hchild
    refine h (i :: place) op ?_
    rw [LogicalOperator.subplan, List.getElem?_eq_getElem hi]
    exact hat
  rw [rewriteAggregates_of_none (h [] plan rfl), hchildren]
  cases plan <;> rfl

/-- The hook visits the plan when it is switched on; that it returns early without a
projection makes no difference. -/
theorem rawDuckPreOptimizeHook_eq (enabled : Option Bool) (projections : List (Bytes × Projection))
    (getEntry : TableName → Option TableEntry) (totalRows : TableName → Nat)
    (plan : LogicalOperator) :
    rawDuckPreOptimizeHook enabled projections getEntry totalRows plan =
      if enabled = some true then
        rewriteAggregates (hookContext projections getEntry totalRows) plan
      else plan := by
  rw [rawDuckPreOptimizeHook, ite_not]
  congr 1
  split
  · next hempty =>
    obtain rfl := List.isEmpty_iff.mp hempty
    exact (rewriteAggregates_of_forall_none fun _ op _ => tryRewrite_nil _ _ op).symm
  · rfl

/-- **What the hook keeps**: the rows a plan may return, whatever its other operators
make of their inputs — exactly when it is switched off or each aggregation it replaces
has the rows it had. -/
theorem results_hook_iff (enabled : Option Bool) (projections : List (Bytes × Projection))
    (getEntry : TableName → Option TableEntry) (totalRows : TableName → Nat)
    (plan : LogicalOperator) (reinterpret : Bytes → Int) (contents : Contents) :
    (∀ meaning rows, results reinterpret contents meaning []
          (rawDuckPreOptimizeHook enabled projections getEntry totalRows plan) rows ↔
        results reinterpret contents meaning [] plan rows) ↔
      (enabled = some true → ∀ place op op', plan.subplan place = some op →
        tryRewriteToProjection (hookContext projections getEntry totalRows) op = some op' →
          (eval reinterpret contents op').Perm (eval reinterpret contents op)) := by
  rw [rawDuckPreOptimizeHook_eq]
  split
  · next henabled =>
    rw [results_rewriteAggregates_iff]
    exact ⟨fun h _ => h, fun h => h henabled⟩
  · next hdisabled => exact iff_of_true (fun _ _ => Iff.rfl) fun h => absurd h hdisabled

end RawDuck
