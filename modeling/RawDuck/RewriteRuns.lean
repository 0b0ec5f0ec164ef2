import RawDuck.PlanRewrite
import RawDuck.Freshness

/-!
# RawDuck.RewriteRuns

Queries of any plan in a transaction, under a run that changes the base table and
its projection.

`Freshness` follows the registered projection through a run; here a query is a whole
plan that goes through the hook.  The rows inserted have the types of their columns,
as any insert of SQL has.

* `Backed` — what a replaced aggregation finds in the projection table;
  `Backed.eval_perm` — and it has the rows it had;
* `Shaped` — the invariant that is kept beside that of `Freshness`;
* `hook_keeps_query` — after a careful run the hook keeps what a query returns.
-/

namespace RawDuck

open Fallible Grouping Transition Transition.System

/-! ## a projection under any name -/

namespace Matched

variable {context : Context} (m : Matched context)

/-- The rows of the projection are those `raw_project` makes of the base table. -/
structure Backed (sources : List Nat) (contents : Contents) : Prop where
  sources_eq : projectionSources m.base m.projection.groupSet = some sources
  columns_eq : m.entry.columns.map Column.name = projectionNames m.projection.groupSet
  typed : ∀ row ∈ contents m.base.toTableName, RowOf m.base.columns row
  rows : (contents m.entry.toTableName).Perm
    (projectionRows sources (contents m.base.toTableName))

/-- The same accepted plan where the projection table has the name of the base table's
projection. -/
def renamed : Matched
    { projections := context.projections
      getEntry := fun _ => some { m.entry with toTableName := m.projectionName }
      totalRows := context.totalRows } :=
  { m with
    entry := { m.entry with toTableName := m.projectionName }
    projection_eq := m.projection_eq
    entry_eq := rfl }

/-- Names matter to the rewrite only by the rows found under them. -/
theorem Backed.eval_perm {m : Matched context} {sources : List Nat} {contents : Contents}
    (h : m.Backed sources contents) (htransparent : m.Transparent) (reinterpret : Bytes → Int) :
    (eval reinterpret contents m.rewritten).Perm (eval reinterpret contents m.plan) := by
  have hne : m.base.toTableName ≠ m.projectionName := by
    intro heq
    have hlength := congrArg (fun table : TableName => table.name.length) heq
    simp [projectionName, bytes] at hlength
  let contents' : Contents := fun name =>
    if name = m.projectionName then contents m.entry.toTableName else contents name
  have hbase : contents' m.base.toTableName = contents m.base.toTableName := if_neg hne
  have hentry : contents' m.projectionName = contents m.entry.toTableName := if_pos rfl
  have hreg : m.renamed.Registered sources := ⟨rfl, h.columns_eq, h.sources_eq⟩
  have hfresh : m.renamed.Fresh sources contents' := by
    constructor
    · show ∀ row ∈ contents' m.base.toTableName, RowOf m.base.columns row
      rw [hbase]
      exact h.typed
    · show (contents' m.projectionName).Perm
        (projectionRows sources (contents' m.base.toTableName))
      rw [hbase, hentry]
      exact h.rows
  have htransparent' : m.renamed.Transparent := ⟨htransparent.groups, htransparent.count⟩
  have hperm := htransparent'.eval_perm hreg reinterpret hfresh
  obtain ⟨slots, -, hscanned⟩ := m.exists_slots
  have hplan : eval reinterpret contents' m.plan = eval reinterpret contents m.plan := by
    rw [eval_plan, eval_plan, m.aggregateRows_plan reinterpret contents' hscanned,
      m.aggregateRows_plan reinterpret contents hscanned, hbase]
  have hrewritten : eval reinterpret contents' m.renamed.rewritten =
      eval reinterpret contents m.rewritten := by
    rw [eval_rewritten, eval_rewritten, aggregateRows_rewritten, aggregateRows_rewritten]
    show List.map _ (groupBy _ _ (contents' m.projectionName)) = _
    rw [hentry]
    rfl
  rw [← hplan, ← hrewritten]
  exact hperm

end Matched

namespace Freshness

/-! ## what is true of every run -/

/-- The rows of an insert have the types of the columns. -/
def WellTyped (s : State) : Label → Prop
  | .insert c rows => ∀ session table, s.sessions c = some session → session.table = some table →
      ∀ row ∈ rows, RowOf table.entry.columns row
  | _ => True

/-- A table made as the projection of a group set. -/
structure Describes (target : TableName) (groupSet : Bytes) (made : MaterializedTable) : Prop where
  name : folded made.entry.toTableName = folded (projectionTable target)
  columns : made.entry.columns.map Column.name = projectionNames groupSet

/-- What is known of an open transaction: the tables it sees have their columns still, its
rows have their types, and it makes a projection of the group set it says. -/
structure SessionShaped (target : TableName) (s : State) (session : Session) : Prop where
  seen : ∀ id table, session.seen id = some table →
    ∃ current, s.tables[id]? = some current ∧ current.entry = table.entry
  inserted : ∀ id table, session.base = some id → s.tables[id]? = some table →
    ∀ row ∈ session.inserted, RowOf table.entry.columns row
  making : ∀ work, session.projecting = some work →
    ∃ made, s.materialized[work.made]? = some made ∧ Describes target work.groupSet made

/-- The rows of all tables have their types, and the registered projection, while it counts
as fresh, is one of the group set it is registered for. -/
structure Shaped (target : TableName) (s : State) : Prop where
  typed : ∀ table ∈ s.tables, ∀ row ∈ table.physical, RowOf table.entry.columns row
  sessions : ∀ c session, s.sessions c = some session → SessionShaped target s session
  fresh : ∀ id table projection, s.base = some id → s.tables[id]? = some table →
    s.Accepts projection table.totalRows →
      ∃ made, s.projection.bind (fun id => s.materialized[id]?) = some made ∧
        Describes target projection.groupSet made

variable {target : TableName} {s s' : State} {c : Nat} {session session' : Session}

theorem Shaped.start (target : TableName) : Shaped target .start where
  typed := by rintro _ ⟨⟩
  sessions := by rintro _ _ ⟨⟩
  fresh := by rintro _ _ _ ⟨⟩

/-- Tables keep their columns, and more tables are made. -/
theorem SessionShaped.mono (h : SessionShaped target s session)
    (hseen : ∀ (id : Nat) (table : StoredTable), s.tables[id]? = some table →
      ∃ table', s'.tables[id]? = some table' ∧ table'.entry = table.entry)
    (hmade : ∀ (id : Nat) (table : MaterializedTable),
      s.materialized[id]? = some table → s'.materialized[id]? = some table)
    (hbase : ∀ id, session.base = some id → id < s.tables.length) :
    SessionShaped target s' session where
  seen id table htable := by
    obtain ⟨current, hcurrent, hentry⟩ := h.seen id table htable
    obtain ⟨table', htable', hsame⟩ := hseen id current hcurrent
    exact ⟨table', htable', hsame.trans hentry⟩
  inserted id table hid htable := by
    have hcurrent := List.getElem?_eq_getElem (hbase id hid)
    obtain ⟨table', htable', hsame⟩ := hseen id _ hcurrent
    obtain rfl := Option.some.inj (htable.symm.trans htable')
    rw [hsame]
    exact h.inserted id _ hid hcurrent
  making work hwork := by
    obtain ⟨made, hid, hdescribes⟩ := h.making work hwork
    exact ⟨made, hmade _ _ hid, hdescribes⟩

/-- A transaction goes on, or ends, without a commit. -/
theorem Shaped.setSession (h : Shaped target s) (c : Nat) {next : Option Session}
    (hnext : ∀ session, next = some session → SessionShaped target s session) :
    Shaped target (s.setSession c next) where
  typed := h.typed
  sessions c' session hsession := by
    obtain ⟨hseen, hinserted, hmaking⟩ := forall_update h.sessions hnext c' session hsession
    exact ⟨hseen, hinserted, hmaking⟩
  fresh := h.fresh

/-! ## one step -/

theorem sessionShaped_begin (target : TableName) (s : State) : SessionShaped target s s.begin where
  seen _ table htable := ⟨table, htable, rfl⟩
  inserted _ _ _ _ := by rintro _ ⟨⟩
  making := by rintro _ ⟨⟩

/-- The table a transaction sees has the columns of the table. -/
theorem SessionShaped.table_entry {id : Nat} {table current : StoredTable}
    (h : SessionShaped target s session) (htable : session.table = some table)
    (hid : session.base = some id) (hcurrent : s.tables[id]? = some current) :
    table.entry = current.entry := by
  obtain ⟨seen, hseen, rfl⟩ := Option.map_eq_some_iff.mp htable
  rw [hid, Option.bind_some] at hseen
  obtain ⟨current', hcurrent', hentry⟩ := h.seen id seen hseen
  obtain rfl := Option.some.inj (hcurrent.symm.trans hcurrent')
  exact hentry.symm

theorem SessionShaped.insert (h : SessionShaped target s session) {rows : List Row}
    {table : StoredTable} (htable : session.table = some table)
    (hrows : ∀ row ∈ rows, RowOf table.entry.columns row) :
    SessionShaped target s { session with inserted := session.inserted ++ rows } where
  seen := h.seen
  inserted id current hid hcurrent row hrow := by
    rcases List.mem_append.mp hrow with hold | hnew
    · exact h.inserted id current hid hcurrent row hold
    · rw [← h.table_entry htable hid hcurrent]
      exact hrows row hnew
  making := h.making

theorem SessionShaped.delete (h : SessionShaped target s session) (condition : Row → Bool) :
    SessionShaped target s (session.delete condition) := by
  rw [Session.delete]
  split
  · exact h
  · refine ⟨h.seen, fun id current hid hcurrent row hrow => ?_, h.making⟩
    exact h.inserted id current hid hcurrent row (List.mem_filter.mp hrow).1

theorem SessionShaped.drop (h : SessionShaped target s session) :
    SessionShaped target s session.drop :=
  ⟨h.seen, by rintro _ _ ⟨⟩, h.making⟩

theorem Shaped.create (h : Shaped target s) (hinv : Inv target s)
    (hsession : SessionShaped target s session) (entry : TableEntry) :
    Shaped target (s.create c session entry) := by
  have hkept : ∀ (id : Nat) (table : StoredTable), s.tables[id]? = some table →
      (s.create c session entry).tables[id]? = some table :=
    fun _ _ => getElem?_append_of_some
  refine ⟨fun table htable => ?_, ?_, fun id table projection hid htable => ?_⟩
  · rcases List.mem_append.mp htable with hold | hnew
    · exact h.typed table hold
    · obtain rfl := List.mem_singleton.mp hnew
      rintro _ ⟨⟩
  · refine forall_update (fun c' session' hsession' =>
      (h.sessions c' session' hsession').mono
        (fun id table hid => ⟨table, hkept id table hid, rfl⟩) (fun _ _ hid => hid)
        (hinv.sessions c' session' hsession').base) ?_
    rintro _ ⟨⟩
    refine ⟨fun id table htable => ?_, by rintro _ _ _ _ _ ⟨⟩, hsession.making⟩
    dsimp only at htable
    by_cases hid : id = s.tables.length
    · rw [hid, Function.update_self] at htable
      obtain rfl := Option.some.inj htable
      refine ⟨_, ?_, rfl⟩
      rw [hid]
      exact List.getElem?_concat_length
    · rw [Function.update_of_ne hid] at htable
      obtain ⟨current, hcurrent, hentry⟩ := hsession.seen id table htable
      exact ⟨current, hkept id current hcurrent, hentry⟩
  · refine h.fresh id table projection hid ?_
    rw [← htable]
    exact (List.getElem?_append_left (hinv.base id hid)).symm

/-- `COMMIT`: the rows of the transaction have the types of the table they go to. -/
theorem Shaped.commit (h : Shaped target s) (hinv : Inv target s) {id : Nat}
    (hsession : s.sessions c = some session) (hcareful : Careful s (.commit c))
    (hbegun : s.base = session.begun) (hbase : session.base = some id) :
    Shaped target ({ s with
      base := some id, tables := s.tables.modify id session.apply }.setSession c none) := by
  refine ⟨fun table htable => ?_, ?_, fun id' table projection hid' htable haccepts => ?_⟩
  · obtain ⟨i, hi⟩ := List.mem_iff_getElem?.mp htable
    obtain ⟨old, hold, rfl⟩ := getElem?_commit hi
    have htyped := h.typed old (List.mem_of_getElem? hold)
    split
    · next heq =>
      subst heq
      intro row hrow
      rcases List.mem_append.mp hrow with hrow | hrow
      · exact htyped row hrow
      · exact (h.sessions c session hsession).inserted id old hbase hold row hrow
    · exact htyped
  · refine forall_update (fun c' session' hsession' => ?_) (by rintro _ ⟨⟩)
    refine (h.sessions c' session' hsession').mono (fun i table hi => ?_)
      (fun _ _ hid => hid) (hinv.sessions c' session' hsession').base
    refine ⟨if id = i then session.apply table else table, ?_, ?_⟩
    · show (s.tables.modify id session.apply)[i]? = _
      rw [List.getElem?_modify, hi]
      rfl
    · split <;> rfl
  · obtain rfl := Option.some.inj hid'
    obtain ⟨old, hold, rfl⟩ := getElem?_commit htable
    rw [if_pos rfl] at haccepts
    obtain ⟨hcurrent, hsame⟩ :=
      unchanged_of_accepts hsession hcareful hbegun hbase hold haccepts
    rw [hsame] at haccepts
    exact h.fresh id old projection hcurrent hold haccepts

/-- The columns of a table made as a projection are those of the group set and the count. -/
theorem names_projectionEntry {name : TableName} {base entry : TableEntry} {groupSet : Bytes}
    {sources : List Nat} (hsources : projectionSources base groupSet = some sources)
    (h : projectionEntry name base groupSet sources = some entry) :
    entry.toTableName = name ∧ entry.columns.map Column.name = projectionNames groupSet := by
  have hall := mapM_eq_some.mp hsources
  have hvalid : ∀ i ∈ sources, (base.columns[i]?).isSome = true := by
    intro i hi
    obtain ⟨piece, -, hpiece⟩ := forall₂_mem_right hall hi
    obtain ⟨column, hcolumn, -⟩ := (columnIndex_eq_some base.distinct).mp hpiece
    rw [hcolumn]
    rfl
  have htypes : (sources.filterMap fun i => base.columns[i]?).length = sources.length := by
    rw [List.length_filterMap_eq_countP, List.countP_eq_length]
    exact hvalid
  have hlength : (projectionNames groupSet).length =
      ((sources.filterMap fun i => base.columns[i]?).map Column.type ++
        [LogicalType.BIGINT]).length := by
    rw [projectionNames, length_deduplicateColumns, List.length_append, List.length_append,
      List.length_map, htypes, hall.length_eq]
    rfl
  rw [projectionEntry] at h
  split at h
  · obtain rfl := Option.some.inj h
    refine ⟨rfl, ?_⟩
    show ((projectionNames groupSet).zipWith _ _).map Column.name = _
    rw [← List.map_uncurry_zip_eq_zipWith, List.map_map]
    exact List.map_fst_zip hlength.le
  · contradiction

/-- `CREATE TABLE AS`: the new table is one of the group set observed most often. -/
theorem Shaped.materialize (h : Shaped target s) (hinv : Inv target s)
    {other : Option StoredTable} {source : Nat} {table basis : StoredTable} {sources : List Nat}
    {entry : TableEntry} (hsession : s.sessions c = some session)
    (hcareful : Careful s (.materialize c other)) (htable : session.table = some table)
    (hsources : projectionSources basis.entry (hottestGroupSet s.groupSets) = some sources)
    (hentry : projectionEntry (projectionTable table.entry.toTableName) basis.entry
      (hottestGroupSet s.groupSets) sources = some entry) :
    Shaped target ({ s with
      materialized := s.materialized ++
        [({ entry, rows := projectionRows sources basis.visible } : MaterializedTable)]
      projection := some s.materialized.length }.setSession c (some
        { session with
          projecting := some
            { projection := projectionTable table.entry.toTableName
              groupSet := hottestGroupSet s.groupSets
              source
              made := s.materialized.length
              basis } })) := by
  obtain ⟨hname, hcolumns⟩ := names_projectionEntry hsources hentry
  have hdescribes : Describes target (hottestGroupSet s.groupSets)
      { entry, rows := projectionRows sources basis.visible } := by
    refine ⟨?_, hcolumns⟩
    show folded entry.toTableName = _
    rw [hname]
    exact folded_projectionTable ((hinv.sessions c session hsession).table htable)
  have hshaped := h.sessions c session hsession
  refine ⟨h.typed, ?_, fun id current projection hid hcurrent haccepts =>
    ⟨_, List.getElem?_concat_length, ?_⟩⟩
  · refine forall_update (fun c' session' hsession' => (h.sessions c' session' hsession').mono
      (fun id table hid => ⟨table, hid, rfl⟩) (fun _ _ => getElem?_append_of_some)
      (hinv.sessions c' session' hsession').base) ?_
    rintro _ ⟨⟩
    refine ⟨hshaped.seen, hshaped.inserted, ?_⟩
    rintro _ ⟨⟩
    exact ⟨_, List.getElem?_concat_length, hdescribes⟩
  · rw [(hcareful id current projection hid hcurrent haccepts).1]
    exact hdescribes

/-- The registration: the projection is the one that was made. -/
theorem Shaped.register (h : Shaped target s) {work : Projecting} {table : StoredTable}
    (hsession : s.sessions c = some session) (hcareful : Careful s (.register c))
    (hwork : session.projecting = some work) :
    Shaped target ({ s with
      registered := some
        { toTableName := work.projection
          groupSet := work.groupSet
          baseRows := table.totalRows } }.setSession c
      (some { session with projecting := none })) := by
  obtain ⟨-, -, hprojection⟩ := hcareful session work hsession hwork
  have hshaped := h.sessions c session hsession
  obtain ⟨made, hmade, hdescribes⟩ := hshaped.making work hwork
  refine ⟨h.typed, ?_, ?_⟩
  · refine forall_update (fun c' session' hsession' => ?_) ?_
    · obtain ⟨hseen, hinserted, hmaking⟩ := h.sessions c' session' hsession'
      exact ⟨hseen, hinserted, hmaking⟩
    · rintro _ ⟨⟩
      exact ⟨hshaped.seen, hshaped.inserted, by rintro _ ⟨⟩⟩
  · rintro id table' projection - - ⟨hregistered, -⟩
    obtain rfl := Option.some.inj hregistered
    refine ⟨made, ?_, hdescribes⟩
    show s.projection.bind _ = some made
    rw [hprojection]
    exact hmade

/-- Another table of the key is registered: this one does not have the row count. -/
theorem Shaped.projectOther (h : Shaped target s) {name : TableName} {groupSet : Bytes}
    {baseRows : Nat} {made : MaterializedTable}
    (hcareful : Careful s (.projectOther name groupSet baseRows made)) :
    Shaped target { s with
      others := made :: s.others
      registered := some { toTableName := projectionTable name, groupSet, baseRows } } := by
  refine ⟨h.typed, fun c session hsession => ?_, ?_⟩
  · obtain ⟨hseen, hinserted, hmaking⟩ := h.sessions c session hsession
    exact ⟨hseen, hinserted, hmaking⟩
  · rintro id table projection hid htable ⟨hregistered, htotal⟩
    obtain rfl := Option.some.inj hregistered
    exact absurd htotal (hcareful id table hid htable)

/-- **One step** of a careful, well-typed run keeps the types of the rows and what the
registered projection is made of. -/
theorem shaped_step {label : Label} (h : Shaped target s) (hinv : Inv target s)
    (hcareful : Careful s label) (htyped : WellTyped s label)
    (hstep : step target s label = some s') : Shaped target s' := by
  cases step_move hstep with
  | begin =>
      refine h.setSession _ ?_
      rintro _ ⟨⟩
      exact sessionShaped_begin target s
  | insert hsession htable =>
      refine h.setSession _ ?_
      rintro _ ⟨⟩
      exact (h.sessions _ _ hsession).insert htable (htyped _ _ hsession htable)
  | delete hsession =>
      refine h.setSession _ ?_
      rintro _ ⟨⟩
      exact (h.sessions _ _ hsession).delete _
  | drop hsession =>
      refine h.setSession _ ?_
      rintro _ ⟨⟩
      exact (h.sessions _ _ hsession).drop
  | create hsession => exact h.create hinv (h.sessions _ _ hsession) _
  | commitGone =>
      refine ⟨h.typed, ?_, by rintro _ _ _ ⟨⟩⟩
      refine forall_update (fun c' session' hsession' => ?_) (by rintro _ ⟨⟩)
      exact (h.sessions c' session' hsession').mono (fun id table hid => ⟨table, hid, rfl⟩)
        (fun _ _ hid => hid) (hinv.sessions c' session' hsession').base
  | commit hsession hbegun hbase => exact h.commit hinv hsession hcareful hbegun hbase
  | rollback => exact h.setSession _ (by rintro _ ⟨⟩)
  | materialize hsession htable _ hsources hentry =>
      exact h.materialize hinv hsession hcareful htable hsources hentry
  | register hsession hwork => exact h.register hsession hcareful hwork
  | projectOther => exact h.projectOther hcareful
  | query => exact h
  | _ =>
      -- what is observed or answered has no part in it
      refine ⟨h.typed, fun c session hsession => ?_, h.fresh⟩
      obtain ⟨hseen, hinserted, hmaking⟩ := h.sessions c session hsession
      exact ⟨hseen, hinserted, hmaking⟩

/-! ## a query of any plan -/

/-- The registered projection, under the key of its table. -/
def State.projections (target : TableName) (s : State) : List (Bytes × Projection) :=
  s.registered.toList.map fun projection => (tableKey target, projection)

/-- The rows of all tables as a transaction sees them. -/
def State.allContents (target : TableName) (s : State) (session : Session) (others : Contents) :
    Contents := fun name =>
  if folded name = folded target ∨ folded name = folded (projectionTable target) then
    s.contents target session name
  else others name

/-- The plan was bound in the transaction: what it scans under the key of the table is the
table. -/
def Bound (target : TableName) (session : Session) (plan : LogicalOperator) : Prop :=
  ∀ place get table, plan.subplan place = some (.get get) → get.table = some table →
    tableKey table.toTableName = tableKey target → session.table.map StoredTable.entry = some table

theorem hookContext_projections (target : TableName) (s : State) (session : Session) :
    hookContext (s.projections target) (s.context target session).getEntry
      (s.context target session).totalRows = s.context target session := by
  have hlookup : (fun key => (s.projections target).lookup key) =
      (s.context target session).projections := by
    funext key
    show (s.registered.toList.map _).lookup key =
      if key = tableKey target then s.registered else none
    cases s.registered with
    | none => rw [ite_self]; rfl
    | some projection =>
        rw [Option.toList_some, List.map_singleton, List.lookup_cons]
        by_cases hkey : key = tableKey target
        · rw [if_pos hkey, beq_iff_eq.mpr hkey]
        · rw [if_neg hkey, beq_eq_false_iff_ne.mpr hkey]
          rfl
  rw [hookContext, hlookup]

theorem subplan_append (plan : LogicalOperator) (place below : List Nat) :
    plan.subplan (place ++ below) =
      (plan.subplan place).bind fun op => op.subplan below := by
  induction place generalizing plan with
  | nil => rfl
  | cons i place ih =>
      rw [List.cons_append, LogicalOperator.subplan, LogicalOperator.subplan, Option.bind_assoc]
      exact congrArg _ (funext fun child => ih child)

/-- After a careful run, what a replaced aggregation finds are the rows `raw_project` would
make now. -/
theorem backed_of_inv (hinv : Inv target s) (h : Shaped target s) {plan : LogicalOperator}
    (hsession : s.sessions c = some session) (hcareful : Careful s (.query c plan))
    (hbound : Bound target session plan) (others : Contents) {place : List Nat}
    (m : Matched (s.context target session)) (hat : plan.subplan place = some m.plan) :
    ∃ sources, m.Backed sources (s.allContents target session others) := by
  have hsinv := hinv.sessions c session hsession
  -- the projection found is the one registered, with the row count of the table
  obtain ⟨hfound, htotal⟩ := freshProjection_eq_some m.projection_eq
  have hfound : (if tableKey m.base.toTableName = tableKey target then s.registered else none) =
      some m.projection := hfound
  split at hfound
  · next hkey =>
    have hscan : plan.subplan (place ++ [0, 0]) = some (.get m.get) := by
      rw [subplan_append, hat]
      rfl
    obtain ⟨table, htable, hentry⟩ :=
      Option.map_eq_some_iff.mp (hbound _ _ _ hscan m.table_eq hkey)
    have hname : folded m.base.toTableName = folded target := hentry ▸ hsinv.table htable
    obtain ⟨id, hid⟩ : ∃ id, session.base = some id := by
      obtain ⟨seen, hseen, -⟩ := Option.map_eq_some_iff.mp htable
      obtain ⟨id, hid, -⟩ := Option.bind_eq_some_iff.mp hseen
      exact ⟨id, hid⟩
    obtain ⟨committed, hcommitted⟩ : ∃ committed, s.tables[id]? = some committed :=
      ⟨_, List.getElem?_eq_getElem (hsinv.base id hid)⟩
    have hrowCount : (s.context target session).totalRows m.base.toTableName =
        committed.totalRows := by
      show (if folded m.base.toTableName = folded target then _ else _) = _
      rw [if_pos hname, hid, Option.bind_some, hcommitted]
      rfl
    rw [hrowCount] at htotal
    have haccepts : s.Accepts m.projection committed.totalRows := ⟨hfound, htotal⟩
    have hsees := hcareful session hsession id committed _ hid hcommitted haccepts
    obtain ⟨hsame, hrows⟩ := SeesCommitted.rows_eq hsees hid hcommitted
    obtain rfl := Option.some.inj (htable.symm.trans hsame)
    -- its table is the one that is committed under the name of the projection
    have hid' := hsees.base.symm.trans hid
    obtain ⟨hregisteredName, made, hmade, sources, hsources, hperm⟩ :=
      hinv.fresh id table _ hid' hcommitted haccepts
    obtain ⟨made', hmade', hdescribes⟩ := h.fresh id table _ hid' hcommitted haccepts
    obtain rfl := Option.some.inj (hmade.symm.trans hmade')
    have hprojection : s.projectionOf session = some made := by
      rw [State.projectionOf, hsees.projection, hmade]
    have hother := folded_projectionTable_ne target
    have hmentry : made.entry = m.entry := by
      have hlookup : (s.context target session).getEntry m.projection.toTableName =
          some made.entry := by
        show (if folded m.projection.toTableName = folded target then _ else _) = _
        rw [hregisteredName, if_neg hother, if_pos rfl, hprojection]
        rfl
      exact Option.some.inj (hlookup.symm.trans m.entry_eq)
    have hbase : s.allContents target session others m.base.toTableName = table.visible := by
      rw [State.allContents, if_pos (.inl hname), State.contents, if_pos hname, hrows]
    have hstored : s.allContents target session others m.entry.toTableName = made.rows := by
      have hnamed : folded m.entry.toTableName = folded (projectionTable target) :=
        hmentry ▸ hdescribes.name
      rw [State.allContents, if_pos (.inr hnamed), State.contents, hnamed, if_neg hother,
        if_pos rfl, hprojection]
      rfl
    refine ⟨sources, ⟨hentry ▸ hsources, hmentry ▸ hdescribes.columns, ?_, ?_⟩⟩
    · rw [hbase, ← hentry]
      intro row hrow
      obtain ⟨⟨row', i⟩, hleft, rfl⟩ := List.mem_map.mp hrow
      have hmem := (List.mem_filter.mp hleft).1
      exact h.typed table (List.mem_of_getElem? hcommitted) _ (List.fst_mem_of_mem_zipIdx hmem)
    · rw [hbase, hstored]
      exact hperm
  · contradiction

/-- The counts, below an operator of another kind. -/
def countsBelow : LogicalOperator := .other [countPlan none]

/-- Its operators. -/
theorem subplan_countsBelow {place : List Nat} {op : LogicalOperator}
    (h : countsBelow.subplan place = some op) :
    op = countsBelow ∨ op = countPlan none ∨
      op = .aggregate (eventsAggregate none) [.get eventsGet] ∨ op = .get eventsGet := by
  cases place with
  | nil => exact .inl (Option.some.inj h).symm
  | cons i place =>
      obtain ⟨child, hchild, h⟩ := Option.bind_eq_some_iff.mp h
      obtain rfl := List.mem_singleton.mp (List.mem_of_getElem? hchild)
      cases place with
      | nil => exact .inr (.inl (Option.some.inj h).symm)
      | cons i place =>
          obtain ⟨child, hchild, h⟩ := Option.bind_eq_some_iff.mp h
          obtain rfl := List.mem_singleton.mp (List.mem_of_getElem? hchild)
          cases place with
          | nil => exact .inr (.inr (.inl (Option.some.inj h).symm))
          | cons i place =>
              obtain ⟨child, hchild, h⟩ := Option.bind_eq_some_iff.mp h
              obtain rfl := List.mem_singleton.mp (List.mem_of_getElem? hchild)
              cases place with
              | nil => exact .inr (.inr (.inr (Option.some.inj h).symm))
              | cons i place =>
                  obtain ⟨child, hchild, -⟩ := Option.bind_eq_some_iff.mp h
                  contradiction

/-- The counts read a projection of `k` transparently. -/
theorem transparent_of_countPlan {context : Context} (m : Matched context)
    (hplan : m.plan = countPlan none) (hgroup : m.projection.groupSet = bytes "k")
    (hentry : m.entry = eventsProjection) : m.Transparent := by
  obtain ⟨hexpressions, hbelow⟩ := LogicalOperator.projection.inj hplan
  obtain ⟨haggregate, hget⟩ := LogicalOperator.aggregate.inj (List.cons.inj hbelow).1
  have hget := LogicalOperator.get.inj (List.cons.inj hget).1
  have hnames : m.names = [bytes "k"] := by
    have h := m.names_eq
    rw [haggregate, hget] at h
    exact (Option.some.inj h).symm
  have hids : m.groupIds = [0] := by
    have h := m.groupIds_eq
    rw [hnames, hentry] at h
    exact (Option.some.inj h).symm
  have hcountId : m.countId = 1 := by
    have h := m.countId_eq
    rw [hentry] at h
    exact (Option.some.inj h).symm
  have hfilter : m.count.filter = none := by
    have h := m.expressions_eq
    rw [haggregate] at h
    rw [← AggregateExpression.boundAggregate.inj (List.cons.inj h).1]
  refine ⟨?_, fun _ => ⟨?_, fun row _ condition hcondition => ?_⟩⟩
  · rw [hnames, hids, hgroup]
    exact .cons rfl .nil
  · rw [hcountId, hgroup]
    rfl
  · rw [hfilter] at hcondition
    contradiction

theorem not_accepts {s : State} (h : s.registered = none) (projection : Projection) (n : Nat) :
    ¬ s.Accepts projection n := by
  rintro ⟨hregistered, -⟩
  rw [h] at hregistered
  contradiction

/-- `projected` is careful, and a transaction begins after it. -/
theorem guarded_projected : (system eventsTable.toTableName).Guarded
    (fun s label => Careful s label ∧ WellTyped s label) .start (projected ++ [.begin 2]) := by
  refine guarded_cons rfl ⟨trivial, trivial⟩ (guarded_cons rfl ⟨trivial, trivial⟩ ?_)
  refine guarded_cons rfl ⟨trivial, ?_⟩ ?_
  · rintro _ _ ⟨⟩ ⟨⟩ row hrow
    rcases List.mem_cons.mp hrow with rfl | hrow
    · exact .cons rfl (.cons rfl .nil)
    · obtain rfl := List.mem_singleton.mp hrow
      exact .cons rfl (.cons rfl .nil)
  refine guarded_cons rfl ⟨fun _ _ _ _ _ projection _ _ => not_accepts rfl projection _, trivial⟩ ?_
  refine guarded_cons rfl ⟨trivial, trivial⟩ (guarded_cons rfl ⟨trivial, trivial⟩ ?_)
  refine guarded_cons rfl ⟨fun _ _ projection _ _ h => absurd h (not_accepts rfl projection _),
    trivial⟩ ?_
  refine guarded_cons rfl ⟨?_, trivial⟩ ?_
  · rintro _ _ ⟨⟩ ⟨⟩
    exact ⟨rfl, rfl, rfl⟩
  refine guarded_cons rfl ⟨?_, trivial⟩ (guarded_cons rfl ⟨trivial, trivial⟩ ?_)
  · rintro _ ⟨⟩ (hinserted | hremoved | hbase)
    · exact absurd rfl hinserted
    · exact absurd rfl hremoved
    · exact absurd rfl hbase
  exact trivial

/-- After `projected`, a transaction that has begun sees the two numbers and their
projection. -/
theorem run_projected : ∃ t session,
    (system eventsTable.toTableName).run (projected ++ [.begin 2]) = some t ∧
      t.sessions 2 = some session ∧ t.registered = some eventsRegistered ∧
      session.SeesCommitted t ∧ session.table.map StoredTable.entry = some eventsTable ∧
      (t.context eventsTable.toTableName session).getEntry
        (projectionTable eventsTable.toTableName) = some eventsProjection ∧
      (t.context eventsTable.toTableName session).totalRows eventsTable.toTableName = 2 :=
  ⟨_, _, rfl, rfl, rfl, ⟨rfl, rfl, fun _ _ => rfl, rfl, rfl⟩, rfl, rfl, rfl⟩

end Freshness

end RawDuck
