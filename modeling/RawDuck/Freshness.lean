import RawDuck.Projection
import RawDuck.Transition

/-!
# RawDuck.Freshness

A base table, the projection `raw_project` made of it, and the transactions that
change the one and read the other.

A projection is registered with the number of physical rows of the base table, read
after the projection was made; a query takes the projection when the number is still
the same.  Rows of an open transaction are not in that number, and rows that have been
deleted still are.  The registration is found by a key that tables can share, and the
projection is made on a connection of its own, where the text of the call may name
another table.

The base table is any table: what the queries of another one find is its own system.

* `step` — transactions over one table, `raw_project` in two steps, and queries;
* `Careful` — what keeps the number true to the table;
* `projections_current` — the answers of a careful run are current.
-/

namespace RawDuck

open Fallible Transition Transition.System

namespace Freshness

/-! ## tables -/

/-- A native table: the rows committed to it, and which of them have been deleted. -/
structure StoredTable where
  entry : TableEntry
  physical : List Row
  deleted : List Nat

/-- `DataTable::GetTotalRows`. -/
def StoredTable.totalRows (table : StoredTable) : Nat := table.physical.length

/-- The rows that are left, with their row ids. -/
def StoredTable.remaining (table : StoredTable) : List (Row × Nat) :=
  table.physical.zipIdx.filter fun row => !table.deleted.contains row.2

/-- The rows that are left. -/
def StoredTable.visible (table : StoredTable) : List Row := table.remaining.map Prod.fst

/-- A table made by `CREATE TABLE AS`, which nobody changes. -/
structure MaterializedTable where
  entry : TableEntry
  rows : List Row

/-- The name as lookups compare it. -/
def folded (name : TableName) : TableName where
  catalog := lower name.catalog
  schema := lower name.schema
  name := lower name.name

/-- The name `raw_project` gives the projection. -/
def projectionTable (name : TableName) : TableName :=
  { name with name := name.name ++ bytes "__proj" }

theorem folded_projectionTable {name name' : TableName} (h : folded name = folded name') :
    folded (projectionTable name) = folded (projectionTable name') := by
  simp only [folded, projectionTable, TableName.mk.injEq, lower, List.map_append] at h ⊢
  exact ⟨h.1, h.2.1, congrArg (· ++ _) h.2.2⟩

theorem folded_projectionTable_ne (name : TableName) :
    folded (projectionTable name) ≠ folded name := by
  intro h
  have hlength := congrArg (fun folded : TableName => folded.name.length) h
  simp [folded, projectionTable, lower, bytes] at hlength

theorem tableKey_congr {name name' : TableName} (h : folded name = folded name') :
    tableKey name = tableKey name' := by
  simp only [folded, TableName.mk.injEq] at h
  rw [tableKey, tableKey, h.1, h.2.1, h.2.2]

/-! ## the state -/

/-- A `raw_project` between its `CREATE TABLE AS` and its registration: what it will
register, the table whose rows it will count, the table it has made, and the base table
as that was made of it. -/
structure Projecting where
  projection : TableName
  groupSet : Bytes
  source : Nat
  made : Nat
  basis : StoredTable

/-- An open transaction: the table under the name when it began, the tables under the
two names as it sees them, its own rows and deletions in the base table, and the
projections of other tables. -/
structure Session where
  begun : Option Nat
  base : Option Nat
  projection : Option Nat
  seen : Nat → Option StoredTable
  inserted : List Row
  removed : List Nat
  projecting : Option Projecting
  others : List MaterializedTable

/-- What a rewritten query found: the rows of the projection, and those of the
aggregation it stands for. -/
structure Answer where
  stored : List Row
  current : Option (List Row)

/-- The projection holds what the aggregation would return. -/
def Answer.IsCurrent (answer : Answer) : Prop :=
  ∃ rows, answer.current = some rows ∧ answer.stored.Perm rows

/-- All tables that ever had one of the two names, which of them have it, the group sets
observed and how often, the projection registered under the key, the projections made of
other tables of that key, the open transactions, and the answers of the rewritten
queries. -/
structure State where
  tables : List StoredTable
  base : Option Nat
  materialized : List MaterializedTable
  projection : Option Nat
  groupSets : List (Bytes × Nat)
  registered : Option Projection
  others : List MaterializedTable
  sessions : Nat → Option Session
  answers : List Answer

/-- No table, no transaction. -/
def State.start : State where
  tables := []
  base := none
  materialized := []
  projection := none
  groupSets := []
  registered := none
  others := []
  sessions _ := none
  answers := []

/-- The base table as a transaction sees it. -/
def Session.table (session : Session) : Option StoredTable :=
  (session.base.bind session.seen).map fun table =>
    { table with deleted := table.deleted ++ session.removed }

/-- The rows of the base table as a transaction sees them. -/
def Session.rows (session : Session) : List Row :=
  match session.table with
  | none => []
  | some table => table.visible ++ session.inserted

/-! ## steps -/

/-- A transaction goes on, or ends. -/
def State.setSession (s : State) (c : Nat) (session : Option Session) : State :=
  { s with sessions := Function.update s.sessions c session }

/-- A transaction begins: it will see what is committed now. -/
def State.begin (s : State) : Session where
  begun := s.base
  base := s.base
  projection := s.projection
  seen id := s.tables[id]?
  inserted := []
  removed := []
  projecting := none
  others := s.others

/-- `DELETE FROM ... WHERE`. -/
def Session.delete (condition : Row → Bool) (session : Session) : Session :=
  match session.table with
  | none => session
  | some table =>
      { session with
        inserted := session.inserted.filter fun row => !condition row
        removed := session.removed ++
          (table.remaining.filter fun row => condition row.1).map Prod.snd }

/-- `DROP TABLE`. -/
def Session.drop (session : Session) : Session :=
  { session with base := none, inserted := [], removed := [] }

/-- `CREATE TABLE`, as the table with the next number. -/
def State.create (s : State) (c : Nat) (session : Session) (entry : TableEntry) : State :=
  let table : StoredTable := { entry, physical := [], deleted := [] }
  { s with tables := s.tables ++ [table] }.setSession c (some
    { session with
      base := some s.tables.length
      seen := Function.update session.seen s.tables.length (some table)
      inserted := []
      removed := [] })

/-- What a transaction has done to the base table. -/
def Session.apply (session : Session) (table : StoredTable) : StoredTable :=
  { table with
    physical := table.physical ++ session.inserted
    deleted := table.deleted ++ session.removed }

/-- `COMMIT`: refused when the table has been replaced in the meantime. -/
def State.commit (s : State) (c : Nat) (session : Session) : Option State :=
  if s.base = session.begun then
    match session.base with
    | none =>
        let s := { s with base := none }
        some (s.setSession c none)
    | some id =>
        let s := { s with base := some id, tables := s.tables.modify id session.apply }
        some (s.setSession c none)
  else none

/-- An aggregation over the group set is seen once more. -/
def observeGroupSet (groupSet : Bytes) : List (Bytes × Nat) → List (Bytes × Nat)
  | [] => [(groupSet, 1)]
  | entry :: rest =>
      if groupSet = entry.1 then (groupSet, entry.2 + 1) :: rest
      else if groupSet < entry.1 then (groupSet, 1) :: entry :: rest
      else entry :: observeGroupSet groupSet rest

/-- The hottest observed group set wins; empty without any. -/
def hottestGroupSet (groupSets : List (Bytes × Nat)) : Bytes :=
  (groupSets.foldl (fun best candidate => if candidate.2 > best.2 then candidate else best)
    ([], 0)).1

/-- The table `CREATE TABLE AS` makes, unless two of its columns have one name. -/
def projectionEntry (name : TableName) (base : TableEntry) (groupSet : Bytes)
    (sources : List Nat) : Option TableEntry :=
  let types := (sources.filterMap fun i => base.columns[i]?).map Column.type ++ [.BIGINT]
  let columns := (projectionNames groupSet).zipWith
    (fun name type => ({ name, type, generated := false } : Column)) types
  if h : (ciNames columns).Nodup then some { toTableName := name, columns, distinct := h } else none

/-- `RawProjectFunction` up to its `CREATE OR REPLACE TABLE ... AS`, which runs on a
connection of its own; `none` also where it does nothing or raises.  The text of the call
is looked up again there: it names the table that was found first, or another one. -/
def State.materialize (s : State) (c : Nat) (other : Option StoredTable) (session : Session) :
    Option State := do
  let source ← session.base
  let table ← session.table
  let groupSet := hottestGroupSet s.groupSets
  if groupSet.isEmpty then none
  else do
    let basis ← other.or (s.base.bind fun id => s.tables[id]?)
    let sources ← projectionSources basis.entry groupSet
    let projection := projectionTable table.entry.toTableName
    let entry ← projectionEntry projection basis.entry groupSet sources
    let made := s.materialized.length
    let t : State :=
      { s with
        materialized := s.materialized ++ [{ entry, rows := projectionRows sources basis.visible }]
        projection := some made }
    return t.setSession c (some
      { session with projecting := some { projection, groupSet, source, made, basis } })

/-- The rest of `RawProjectFunction`: the projection is registered with the row count of
the table it looked up. -/
def State.register (s : State) (c : Nat) (session : Session) : Option State := do
  let work ← session.projecting
  let table ← s.tables[work.source]?
  let registered : Projection :=
    { toTableName := work.projection, groupSet := work.groupSet, baseRows := table.totalRows }
  let t : State := { s with registered := some registered }
  return t.setSession c (some { session with projecting := none })

variable (target : TableName)

/-- `raw_project` of another table that has the key of the target: its projection is made
and registered under that key. -/
def State.projectOther (s : State) (name : TableName) (groupSet : Bytes) (baseRows : Nat)
    (made : MaterializedTable) : Option State :=
  if tableKey name = tableKey target ∧ folded name ≠ folded target ∧
      folded made.entry.toTableName = folded (projectionTable name) then
    some { s with
      others := made :: s.others
      registered := some { toTableName := projectionTable name, groupSet, baseRows } }
  else none

/-- The projection table as a transaction sees it. -/
def State.projectionOf (s : State) (session : Session) : Option MaterializedTable :=
  session.projection.bind fun id => s.materialized[id]?

/-- The projection of another table as a transaction sees it. -/
def Session.otherOf (session : Session) (name : TableName) : Option MaterializedTable :=
  session.others.find? fun made => folded made.entry.toTableName = folded name

/-- What `TryRewriteToProjection` looks up for a query of a transaction. -/
def State.context (s : State) (session : Session) : Context where
  projections key := if key = tableKey target then s.registered else none
  getEntry name :=
    if folded name = folded target then session.table.map StoredTable.entry
    else if folded name = folded (projectionTable target) then
      (s.projectionOf session).map MaterializedTable.entry
    else (session.otherOf name).map MaterializedTable.entry
  totalRows name :=
    if folded name = folded target then
      ((session.base.bind fun id => s.tables[id]?).map StoredTable.totalRows).getD 0
    else if folded name = folded (projectionTable target) then
      ((s.projectionOf session).map fun table => table.rows.length).getD 0
    else ((session.otherOf name).map fun table => table.rows.length).getD 0

/-- The rows of the tables as a transaction sees them. -/
def State.contents (s : State) (session : Session) : Contents := fun name =>
  if folded name = folded target then session.rows
  else if folded name = folded (projectionTable target) then
    ((s.projectionOf session).map MaterializedTable.rows).getD []
  else ((session.otherOf name).map MaterializedTable.rows).getD []

/-- The table an aggregation scans. -/
def scannedTable : LogicalOperator → Option TableEntry
  | .projection _ [.aggregate _ [.get get]] => get.table
  | _ => none

/-- A query of the base table; what it finds is noted when it is rewritten. -/
def State.query (s : State) (session : Session) (plan : LogicalOperator) : Option State := do
  let table ← session.table
  let scanned ← scannedTable plan
  if folded scanned.toTableName = folded target then
    match tryRewriteToProjection (s.context target session) plan, s.registered with
    | some _, some projection =>
        let contents := s.contents target session
        some { s with answers := s.answers ++ [
          { stored := contents projection.toTableName
            current := (projectionSources table.entry projection.groupSet).map fun sources =>
              projectionRows sources (contents target) }] }
    | _, _ => some s
  else none

/-- What happens next, and in which transaction. -/
inductive Label where
  | begin (c : Nat)
  | insert (c : Nat) (rows : List Row)
  | delete (c : Nat) (condition : Row → Bool)
  | drop (c : Nat)
  | create (c : Nat) (entry : TableEntry)
  | commit (c : Nat)
  | rollback (c : Nat)
  | observe (groupSet : Bytes)
  | materialize (c : Nat) (other : Option StoredTable)
  | register (c : Nat)
  | projectOther (name : TableName) (groupSet : Bytes) (baseRows : Nat) (made : MaterializedTable)
  | query (c : Nat) (plan : LogicalOperator)

/-- One step. -/
def step (s : State) : Label → Option State
  | .begin c => if (s.sessions c).isSome then none else some (s.setSession c (some s.begin))
  | .insert c rows => do
      let session ← s.sessions c
      let _ ← session.table
      return s.setSession c (some { session with inserted := session.inserted ++ rows })
  | .delete c condition => do
      let session ← s.sessions c
      return s.setSession c (some (session.delete condition))
  | .drop c => do
      let session ← s.sessions c
      let _ ← session.table
      return s.setSession c (some session.drop)
  | .create c entry => do
      let session ← s.sessions c
      if session.base.isNone && decide (folded entry.toTableName = folded target) then
        return s.create c session entry
      else none
  | .commit c => do s.commit c (← s.sessions c)
  | .rollback c => do
      let _ ← s.sessions c
      return s.setSession c none
  | .observe groupSet => some { s with groupSets := observeGroupSet groupSet s.groupSets }
  | .materialize c other => do s.materialize c other (← s.sessions c)
  | .register c => do s.register c (← s.sessions c)
  | .projectOther name groupSet baseRows made =>
      s.projectOther target name groupSet baseRows made
  | .query c plan => do s.query target (← s.sessions c) plan

/-- A database with one base table, under any number of transactions. -/
def system : System State Label where
  init := .start
  step := step target

/-! ## what a step does -/

/-- The steps by what they find and leave; a query notes an answer when it is rewritten. -/
inductive Move (target : TableName) (s : State) : Label → State → Prop
  | begin {c} : Move target s (.begin c) (s.setSession c (some s.begin))
  | insert {c rows session table} (hsession : s.sessions c = some session)
      (htable : session.table = some table) :
      Move target s (.insert c rows)
        (s.setSession c (some { session with inserted := session.inserted ++ rows }))
  | delete {c condition session} (hsession : s.sessions c = some session) :
      Move target s (.delete c condition) (s.setSession c (some (session.delete condition)))
  | drop {c session} (hsession : s.sessions c = some session) :
      Move target s (.drop c) (s.setSession c (some session.drop))
  | create {c entry session} (hsession : s.sessions c = some session)
      (hname : folded entry.toTableName = folded target) :
      Move target s (.create c entry) (s.create c session entry)
  | commitGone {c session} (hsession : s.sessions c = some session) :
      Move target s (.commit c) ({ s with base := none }.setSession c none)
  | commit {c session id} (hsession : s.sessions c = some session)
      (hbegun : s.base = session.begun) (hbase : session.base = some id) :
      Move target s (.commit c)
        ({ s with base := some id, tables := s.tables.modify id session.apply }.setSession c none)
  | rollback {c} : Move target s (.rollback c) (s.setSession c none)
  | observe {groupSet} : Move target s (.observe groupSet)
      { s with groupSets := observeGroupSet groupSet s.groupSets }
  | materialize {c other session source table basis sources entry}
      (hsession : s.sessions c = some session) (htable : session.table = some table)
      (hbasis : other.or (s.base.bind fun id => s.tables[id]?) = some basis)
      (hsources : projectionSources basis.entry (hottestGroupSet s.groupSets) = some sources)
      (hentry : projectionEntry (projectionTable table.entry.toTableName) basis.entry
        (hottestGroupSet s.groupSets) sources = some entry) :
      Move target s (.materialize c other)
        ({ s with
            materialized := s.materialized ++
              [({ entry, rows := projectionRows sources basis.visible } : MaterializedTable)]
            projection := some s.materialized.length }.setSession c (some
          { session with
            projecting := some
              { projection := projectionTable table.entry.toTableName
                groupSet := hottestGroupSet s.groupSets
                source
                made := s.materialized.length
                basis } }))
  | register {c session work} {table : StoredTable} (hsession : s.sessions c = some session)
      (hwork : session.projecting = some work) (htable : s.tables[work.source]? = some table) :
      Move target s (.register c)
        ({ s with
            registered := some
              { toTableName := work.projection
                groupSet := work.groupSet
                baseRows := table.totalRows } }.setSession c
          (some { session with projecting := none }))
  | projectOther {name groupSet baseRows made} :
      Move target s (.projectOther name groupSet baseRows made)
        { s with
          others := made :: s.others
          registered := some { toTableName := projectionTable name, groupSet, baseRows } }
  | query {c plan} : Move target s (.query c plan) s
  | answer {c plan plan' session table scanned projection} (hsession : s.sessions c = some session)
      (htable : session.table = some table) (hscanned : scannedTable plan = some scanned)
      (hname : folded scanned.toTableName = folded target)
      (hrewrite : tryRewriteToProjection (s.context target session) plan = some plan')
      (hregistered : s.registered = some projection) :
      Move target s (.query c plan)
        { s with
          answers := s.answers ++
            [{ stored := s.contents target session projection.toTableName
               current := (projectionSources table.entry projection.groupSet).map fun sources =>
                projectionRows sources (s.contents target session target) }] }

variable {target} {s s' : State} {c : Nat} {session session' : Session}

theorem step_move {label : Label} (h : step target s label = some s') : Move target s label s' := by
  cases label with
  | begin c =>
      rw [step] at h
      split at h
      · exact nomatch h
      · obtain rfl := Option.some.inj h
        exact .begin
  | insert c rows =>
      obtain ⟨session, hsession, h⟩ := Option.bind_eq_some_iff.mp h
      obtain ⟨table, htable, h⟩ := Option.bind_eq_some_iff.mp h
      obtain rfl := Option.some.inj h
      exact .insert hsession htable
  | delete c condition =>
      obtain ⟨session, hsession, h⟩ := Option.bind_eq_some_iff.mp h
      obtain rfl := Option.some.inj h
      exact .delete hsession
  | drop c =>
      obtain ⟨session, hsession, h⟩ := Option.bind_eq_some_iff.mp h
      obtain ⟨table, -, h⟩ := Option.bind_eq_some_iff.mp h
      obtain rfl := Option.some.inj h
      exact .drop hsession
  | create c entry =>
      obtain ⟨session, hsession, h⟩ := Option.bind_eq_some_iff.mp h
      split at h
      · next hentry =>
        obtain rfl := Option.some.inj h
        rw [Bool.and_eq_true, decide_eq_true_eq] at hentry
        exact .create hsession hentry.2
      · exact nomatch h
  | commit c =>
      obtain ⟨session, hsession, h⟩ := Option.bind_eq_some_iff.mp h
      rw [State.commit] at h
      split at h
      · next hbegun =>
        split at h
        · obtain rfl := Option.some.inj h
          exact .commitGone hsession
        · next hbase =>
          obtain rfl := Option.some.inj h
          exact .commit hsession hbegun hbase
      · exact nomatch h
  | rollback c =>
      obtain ⟨session, -, h⟩ := Option.bind_eq_some_iff.mp h
      obtain rfl := Option.some.inj h
      exact .rollback
  | observe groupSet =>
      obtain rfl := Option.some.inj h
      exact .observe
  | materialize c other =>
      obtain ⟨session, hsession, h⟩ := Option.bind_eq_some_iff.mp h
      simp only [State.materialize, Option.bind_eq_bind, Option.bind_eq_some_iff] at h
      obtain ⟨source, -, table, htable, h⟩ := h
      split at h
      · exact nomatch h
      · obtain ⟨basis, hbasis, h⟩ := Option.bind_eq_some_iff.mp h
        obtain ⟨sources, hsources, h⟩ := Option.bind_eq_some_iff.mp h
        obtain ⟨entry, hentry, h⟩ := Option.bind_eq_some_iff.mp h
        obtain rfl := Option.some.inj h
        exact .materialize hsession htable hbasis hsources hentry
  | register c =>
      obtain ⟨session, hsession, h⟩ := Option.bind_eq_some_iff.mp h
      simp only [State.register, Option.bind_eq_bind, Option.bind_eq_some_iff] at h
      obtain ⟨work, hwork, table, htable, h⟩ := h
      obtain rfl := Option.some.inj h
      exact .register hsession hwork htable
  | projectOther name groupSet baseRows made =>
      rw [step, State.projectOther] at h
      split at h
      · obtain rfl := Option.some.inj h
        exact .projectOther
      · exact nomatch h
  | query c plan =>
      obtain ⟨session, hsession, h⟩ := Option.bind_eq_some_iff.mp h
      simp only [State.query, Option.bind_eq_bind, Option.bind_eq_some_iff] at h
      obtain ⟨table, htable, scanned, hscanned, h⟩ := h
      split at h
      · next hname =>
        split at h
        · next hrewrite hregistered =>
          obtain rfl := Option.some.inj h
          exact .answer hsession htable hscanned hname hrewrite hregistered
        · obtain rfl := Option.some.inj h
          exact .query
      · exact nomatch h

/-! ## what a careful step is -/

/-- A transaction that changes the base table. -/
def Session.Changes (session : Session) : Prop :=
  session.inserted ≠ [] ∨ session.removed ≠ [] ∨ session.base ≠ session.begun

/-- A transaction that sees the two tables as they are committed. -/
structure Session.SeesCommitted (s : State) (session : Session) : Prop where
  base : session.base = s.base
  projection : session.projection = s.projection
  seen : ∀ id, s.base = some id → session.seen id = s.tables[id]?
  inserted : session.inserted = []
  removed : session.removed = []

/-- The registered projection counts as fresh for a table with so many rows. -/
def State.Accepts (s : State) (projection : Projection) (totalRows : Nat) : Prop :=
  s.registered = some projection ∧ totalRows = projection.baseRows

/-- The step is careful.  A commit that changes the table does not leave it with the
physical row count the projection is registered with; no projection that counts as fresh
is replaced by one of another group set, or of another table that the text of the call
names; a projection is registered while it and the table are as they were when it was
made; another table of the key is not registered with the row count of this one; and a
query that finds the registered row count sees what is committed, and nothing else. -/
def Careful (s : State) : Label → Prop
  | .commit c => ∀ session, s.sessions c = some session → session.Changes →
      ∀ id table projection, session.base = some id → s.tables[id]? = some table →
        ¬ s.Accepts projection (session.apply table).totalRows
  | .materialize _ other => ∀ id table projection, s.base = some id → s.tables[id]? = some table →
      s.Accepts projection table.totalRows →
        projection.groupSet = hottestGroupSet s.groupSets ∧ ∀ found ∈ other, found = table
  | .register c => ∀ session work, s.sessions c = some session → session.projecting = some work →
      s.base = some work.source ∧ s.tables[work.source]? = some work.basis ∧
        s.projection = some work.made
  | .projectOther _ _ baseRows _ => ∀ id table, s.base = some id → s.tables[id]? = some table →
      table.totalRows ≠ baseRows
  | .query c _ => ∀ session, s.sessions c = some session →
      ∀ id table projection, session.base = some id → s.tables[id]? = some table →
        s.Accepts projection table.totalRows → session.SeesCommitted s
  | _ => True

/-! ## the invariant -/

/-- The rows are those of the projection of a table. -/
def Holds (groupSet : Bytes) (table : StoredTable) (rows : List Row) : Prop :=
  ∃ sources, projectionSources table.entry groupSet = some sources ∧
    rows.Perm (projectionRows sources table.visible)

/-- What is known of an open transaction: the tables it sees have the name, its own is
one of all tables, and what it has made is the projection of its basis. -/
structure SessionInv (target : TableName) (s : State) (session : Session) : Prop where
  seen : ∀ id table, session.seen id = some table →
    folded table.entry.toTableName = folded target
  base : ∀ id, session.base = some id → id < s.tables.length
  making : ∀ work, session.projecting = some work →
    folded work.projection = folded (projectionTable target) ∧
      ∃ made, s.materialized[work.made]? = some made ∧ Holds work.groupSet work.basis made.rows

/-- A registered projection that counts as fresh is that of the table, and current. -/
structure Inv (target : TableName) (s : State) : Prop where
  tables : ∀ table ∈ s.tables, folded table.entry.toTableName = folded target
  base : ∀ id, s.base = some id → id < s.tables.length
  sessions : ∀ c session, s.sessions c = some session → SessionInv target s session
  fresh : ∀ id table projection, s.base = some id → s.tables[id]? = some table →
    s.Accepts projection table.totalRows →
      folded projection.toTableName = folded (projectionTable target) ∧
      ∃ made, s.projection.bind (fun id => s.materialized[id]?) = some made ∧
        Holds projection.groupSet table made.rows
  answers : ∀ answer ∈ s.answers, answer.IsCurrent

theorem Inv.start (target : TableName) : Inv target .start where
  tables := nofun
  base := nofun
  sessions := nofun
  fresh := nofun
  answers := nofun

/-- More tables have been made. -/
theorem SessionInv.mono (h : SessionInv target s session)
    (htables : s.tables.length ≤ s'.tables.length)
    (hmade : ∀ (id : Nat) (table : MaterializedTable),
      s.materialized[id]? = some table → s'.materialized[id]? = some table) :
    SessionInv target s' session where
  seen := h.seen
  base id hid := (h.base id hid).trans_le htables
  making work hwork := by
    obtain ⟨hname, made, hid, hholds⟩ := h.making work hwork
    exact ⟨hname, made, hmade _ _ hid, hholds⟩

/-- What is known of all transactions stays so when one of them goes on or ends. -/
theorem forall_update {P : Session → Prop} {sessions : Nat → Option Session} {next : Option Session}
    (h : ∀ c session, sessions c = some session → P session)
    (hnext : ∀ session, next = some session → P session) :
    ∀ c' session, Function.update sessions c next c' = some session → P session := by
  intro c' session hsession
  by_cases hc : c' = c
  · subst hc
    rw [Function.update_self] at hsession
    exact hnext session hsession
  · rw [Function.update_of_ne hc] at hsession
    exact h c' session hsession

/-- The table a transaction sees has the name. -/
theorem SessionInv.table {table : StoredTable} (h : SessionInv target s session)
    (htable : session.table = some table) : folded table.entry.toTableName = folded target := by
  obtain ⟨seen, hseen, rfl⟩ := Option.map_eq_some_iff.mp htable
  obtain ⟨id, -, hid⟩ := Option.bind_eq_some_iff.mp hseen
  exact h.seen id seen hid

/-! ## one step -/

/-- A transaction that goes on, or ends, without a commit. -/
theorem Inv.setSession (h : Inv target s) (c : Nat) {next : Option Session}
    (hnext : ∀ session, next = some session → SessionInv target s session) :
    Inv target (s.setSession c next) where
  tables := h.tables
  base := h.base
  sessions c' session hsession := by
    have hsession := forall_update h.sessions hnext c' session hsession
    exact hsession.mono (Nat.le_refl _) fun _ _ hid => hid
  fresh := h.fresh
  answers := h.answers

theorem sessionInv_begin (h : Inv target s) : SessionInv target s s.begin where
  seen _ _ htable := h.tables _ (List.mem_of_getElem? htable)
  base := h.base
  making := nofun

theorem SessionInv.delete (h : SessionInv target s session) (condition : Row → Bool) :
    SessionInv target s (session.delete condition) := by
  rw [Session.delete]
  split
  · exact h
  · exact ⟨h.seen, h.base, h.making⟩

theorem SessionInv.drop (h : SessionInv target s session) : SessionInv target s session.drop :=
  ⟨h.seen, nofun, h.making⟩

/-- `CREATE TABLE`: the table is nobody's but the transaction's. -/
theorem Inv.create (h : Inv target s) (hsession : SessionInv target s session) {entry : TableEntry}
    (hentry : folded entry.toTableName = folded target) :
    Inv target (s.create c session entry) where
  tables table htable := by
    rcases List.mem_append.mp htable with hold | hnew
    · exact h.tables table hold
    · obtain rfl := List.mem_singleton.mp hnew
      exact hentry
  base id hid := (h.base id hid).trans_le (by simp [State.create, State.setSession])
  sessions := by
    have hlength : s.tables.length < (s.create c session entry).tables.length := by
      simp [State.create, State.setSession]
    refine forall_update (fun c' session' hsession' =>
      (h.sessions c' session' hsession').mono hlength.le fun _ _ hid => hid) ?_
    rintro _ ⟨⟩
    refine ⟨fun id table htable => ?_, fun id hid => ?_, hsession.making⟩
    · dsimp only at htable
      by_cases hid : id = s.tables.length
      · rw [hid, Function.update_self] at htable
        obtain rfl := Option.some.inj htable
        exact hentry
      · rw [Function.update_of_ne hid] at htable
        exact hsession.seen id table htable
    · obtain rfl := Option.some.inj hid
      exact hlength
  fresh id table projection hid htable := by
    have hlt := h.base id hid
    refine h.fresh id table projection hid ?_
    rw [← htable]
    exact (List.getElem?_append_left hlt).symm
  answers := h.answers

theorem apply_of_not_changes (h : ¬ session.Changes) (table : StoredTable) :
    session.apply table = table := by
  rw [Session.Changes, not_or, not_or, not_not, not_not] at h
  rw [Session.apply, h.1, h.2.1, List.append_nil, List.append_nil]

/-- A table after a commit is one from before it, or what the transaction made of it. -/
theorem getElem?_commit {id i : Nat} {table : StoredTable}
    (h : (s.tables.modify id session.apply)[i]? = some table) :
    ∃ old, s.tables[i]? = some old ∧ table = if id = i then session.apply old else old := by
  rw [List.getElem?_modify] at h
  obtain ⟨old, hold, rfl⟩ := Option.map_eq_some_iff.mp h
  exact ⟨old, hold, rfl⟩

/-- After a careful commit a projection counts as fresh for the table only if the transaction
has left it alone. -/
theorem unchanged_of_accepts {id : Nat} {old : StoredTable} {projection : Projection}
    (hsession : s.sessions c = some session) (hcareful : Careful s (.commit c))
    (hbegun : s.base = session.begun) (hbase : session.base = some id)
    (hold : s.tables[id]? = some old)
    (haccepts : s.Accepts projection (session.apply old).totalRows) :
    s.base = some id ∧ session.apply old = old := by
  have hunchanged : ¬ session.Changes := fun hchanges =>
    hcareful session hsession hchanges id old projection hbase hold haccepts
  have hbegan : session.base = session.begun := by
    by_contra hne
    exact hunchanged (.inr (.inr hne))
  exact ⟨hbegun.trans (hbegan.symm.trans hbase), apply_of_not_changes hunchanged old⟩

/-- `COMMIT`: a table that was changed no longer counts as old as the projection. -/
theorem Inv.commit (h : Inv target s) {id : Nat} (hsession : s.sessions c = some session)
    (hcareful : Careful s (.commit c)) (hbegun : s.base = session.begun)
    (hbase : session.base = some id) :
    Inv target ({ s with
      base := some id, tables := s.tables.modify id session.apply }.setSession c none) := by
  have hlength : (s.tables.modify id session.apply).length = s.tables.length :=
    List.length_modify ..
  refine ⟨fun table htable => ?_, fun id' hid' => ?_, ?_, ?_, h.answers⟩
  · obtain ⟨i, hi⟩ := List.mem_iff_getElem?.mp htable
    obtain ⟨old, hold, rfl⟩ := getElem?_commit hi
    have hname := h.tables old (List.mem_of_getElem? hold)
    split
    · exact hname
    · exact hname
  · obtain rfl := Option.some.inj hid'
    exact ((h.sessions c session hsession).base id hbase).trans_eq hlength.symm
  · exact forall_update (fun c' session' hsession' =>
      (h.sessions c' session' hsession').mono hlength.ge fun _ _ hid => hid) nofun
  · intro id' table projection hid' htable haccepts
    obtain rfl := Option.some.inj hid'
    obtain ⟨old, hold, rfl⟩ := getElem?_commit htable
    rw [if_pos rfl] at haccepts ⊢
    obtain ⟨hcurrent, hsame⟩ :=
      unchanged_of_accepts hsession hcareful hbegun hbase hold haccepts
    rw [hsame] at haccepts ⊢
    exact h.fresh id old projection hcurrent hold haccepts

theorem getElem?_append_of_some {α : Type} {xs ys : List α} {i : Nat} {x : α}
    (h : xs[i]? = some x) : (xs ++ ys)[i]? = some x :=
  (List.getElem?_append_left (List.getElem?_eq_some_iff.mp h).1).trans h

/-- What `CREATE TABLE AS` read on the other connection is the table, when a projection counts
as fresh for it. -/
theorem basis_eq_of_accepts {other : Option StoredTable} {id : Nat} {basis table : StoredTable}
    {projection : Projection} (hcareful : Careful s (.materialize c other))
    (hbasis : other.or (s.base.bind fun id => s.tables[id]?) = some basis)
    (hid : s.base = some id) (htable : s.tables[id]? = some table)
    (haccepts : s.Accepts projection table.totalRows) : basis = table := by
  obtain ⟨-, hfound⟩ := hcareful id table projection hid htable haccepts
  cases other with
  | none =>
      rw [Option.none_or, hid, Option.bind_some, htable] at hbasis
      exact (Option.some.inj hbasis).symm
  | some found =>
      rw [Option.some_or] at hbasis
      exact (Option.some.inj hbasis).symm.trans (hfound found rfl)

/-- `CREATE TABLE AS`: the new rows are those of the table as it is now. -/
theorem Inv.materialize (h : Inv target s) {other : Option StoredTable} {source : Nat}
    {table basis : StoredTable} {sources : List Nat} (entry : TableEntry)
    (hsession : s.sessions c = some session) (hcareful : Careful s (.materialize c other))
    (htable : session.table = some table)
    (hbasis : other.or (s.base.bind fun id => s.tables[id]?) = some basis)
    (hsources : projectionSources basis.entry (hottestGroupSet s.groupSets) = some sources) :
    Inv target ({ s with
      materialized := s.materialized ++
        [({ entry, rows := projectionRows sources basis.visible } : MaterializedTable)]
      projection := some s.materialized.length }.setSession c (some
        { session with
          projecting := some
            { projection := projectionTable table.entry.toTableName
              groupSet := hottestGroupSet s.groupSets
              source
              made := s.materialized.length
              basis } })) := by
  have hholds : Holds (hottestGroupSet s.groupSets) basis (projectionRows sources basis.visible) :=
    ⟨sources, hsources, .refl _⟩
  have hinv := h.sessions c session hsession
  refine ⟨h.tables, h.base, ?_, ?_, h.answers⟩
  · refine forall_update (fun c' session' hsession' => (h.sessions c' session' hsession').mono
      (Nat.le_refl _) fun _ _ => getElem?_append_of_some) ?_
    rintro _ ⟨⟩
    refine ⟨hinv.seen, hinv.base, ?_⟩
    rintro _ ⟨⟩
    exact ⟨folded_projectionTable (hinv.table htable), _, List.getElem?_concat_length, hholds⟩
  · intro id current projection hid hcurrent haccepts
    obtain rfl := basis_eq_of_accepts hcareful hbasis hid hcurrent haccepts
    obtain ⟨hgroupSet, -⟩ := hcareful id basis projection hid hcurrent haccepts
    refine ⟨(h.fresh id basis projection hid hcurrent haccepts).1, _,
      List.getElem?_concat_length, ?_⟩
    rw [hgroupSet]
    exact hholds

/-- The registration: the projection and the table are still those it was made for. -/
theorem Inv.register (h : Inv target s) {work : Projecting} {table : StoredTable}
    (hsession : s.sessions c = some session) (hcareful : Careful s (.register c))
    (hwork : session.projecting = some work) :
    Inv target ({ s with
      registered := some
        { toTableName := work.projection
          groupSet := work.groupSet
          baseRows := table.totalRows } }.setSession c
      (some { session with projecting := none })) := by
  obtain ⟨hbase, hbasis, hprojection⟩ := hcareful session work hsession hwork
  have hinv := h.sessions c session hsession
  obtain ⟨hname, made, hmade, hholds⟩ := hinv.making work hwork
  refine ⟨h.tables, h.base, ?_, ?_, h.answers⟩
  · refine forall_update (fun c' session' hsession' =>
      (h.sessions c' session' hsession').mono (Nat.le_refl _) fun _ _ hid => hid) ?_
    rintro _ ⟨⟩
    exact ⟨hinv.seen, hinv.base, nofun⟩
  · rintro id table' projection hid htable' ⟨hregistered, -⟩
    obtain rfl := Option.some.inj hregistered
    obtain rfl := Option.some.inj (hbase.symm.trans hid)
    obtain rfl := Option.some.inj (hbasis.symm.trans htable')
    refine ⟨hname, made, ?_, hholds⟩
    show s.projection.bind _ = some made
    rw [hprojection]
    exact hmade

/-- Another table of the key is registered: this one does not have the row count. -/
theorem Inv.projectOther (h : Inv target s) {name : TableName} {groupSet : Bytes} {baseRows : Nat}
    {made : MaterializedTable} (hcareful : Careful s (.projectOther name groupSet baseRows made)) :
    Inv target { s with
      others := made :: s.others
      registered := some { toTableName := projectionTable name, groupSet, baseRows } } := by
  refine ⟨h.tables, h.base, fun c' session' hsession' => ?_, ?_, h.answers⟩
  · exact (h.sessions c' session' hsession').mono (Nat.le_refl _) fun _ _ hid => hid
  · rintro id table projection hid htable ⟨hregistered, htotal⟩
    obtain rfl := Option.some.inj hregistered
    exact absurd htotal (hcareful id table hid htable)

/-- A rewritten query has found the registered projection, with the row count it is
registered with. -/
theorem accepts_of_rewrite {plan plan' : LogicalOperator} {scanned : TableEntry}
    (hscanned : scannedTable plan = some scanned)
    (hname : folded scanned.toTableName = folded target)
    (hrewrite : tryRewriteToProjection (s.context target session) plan = some plan') :
    ∃ projection, s.Accepts projection
      (((session.base.bind fun id => s.tables[id]?).map StoredTable.totalRows).getD 0) := by
  obtain ⟨m, rfl, -⟩ := tryRewriteToProjection_eq_some hrewrite
  have hbase : m.base = scanned := by
    have hget : m.get.table = some scanned := hscanned
    exact Option.some.inj (m.table_eq.symm.trans hget)
  obtain ⟨hfound, htotal⟩ := freshProjection_eq_some m.projection_eq
  rw [hbase] at hfound htotal
  simp only [State.context, tableKey_congr hname, if_true, hname] at hfound htotal
  exact ⟨m.projection, hfound, htotal⟩

/-- A transaction that sees what is committed sees the rows of the table. -/
theorem SeesCommitted.rows_eq {id : Nat} {table : StoredTable} (h : session.SeesCommitted s)
    (hid : session.base = some id) (htable : s.tables[id]? = some table) :
    session.table = some table ∧ session.rows = table.visible := by
  have hseen : session.seen id = some table := (h.seen id (h.base.symm.trans hid)).trans htable
  have hsees : session.table = some table := by
    rw [Session.table, hid, Option.bind_some, hseen, h.removed, Option.map_some, List.append_nil]
  refine ⟨hsees, ?_⟩
  rw [Session.rows, hsees, h.inserted]
  exact List.append_nil _

/-- A query: what it has found is current. -/
theorem Inv.answer (h : Inv target s) {plan plan' : LogicalOperator} {table : StoredTable}
    {scanned : TableEntry} {projection : Projection} (hsession : s.sessions c = some session)
    (hcareful : Careful s (.query c plan)) (htable : session.table = some table)
    (hscanned : scannedTable plan = some scanned)
    (hname : folded scanned.toTableName = folded target)
    (hrewrite : tryRewriteToProjection (s.context target session) plan = some plan')
    (hregistered : s.registered = some projection) :
    Answer.IsCurrent
      { stored := s.contents target session projection.toTableName
        current := (projectionSources table.entry projection.groupSet).map fun sources =>
          projectionRows sources (s.contents target session target) } := by
  obtain ⟨projection', haccepts⟩ := accepts_of_rewrite hscanned hname hrewrite
  obtain rfl := Option.some.inj (hregistered.symm.trans haccepts.1)
  obtain ⟨id, hid⟩ : ∃ id, session.base = some id := by
    obtain ⟨seen, hseen, -⟩ := Option.map_eq_some_iff.mp htable
    obtain ⟨id, hid, -⟩ := Option.bind_eq_some_iff.mp hseen
    exact ⟨id, hid⟩
  have hlt := (h.sessions c session hsession).base id hid
  obtain ⟨committed, hcommitted⟩ : ∃ committed, s.tables[id]? = some committed :=
    ⟨_, List.getElem?_eq_getElem hlt⟩
  rw [hid, Option.bind_some, hcommitted, Option.map_some, Option.getD_some] at haccepts
  have hsees := hcareful session hsession id committed projection hid hcommitted haccepts
  obtain ⟨hsame, hrows⟩ := SeesCommitted.rows_eq hsees hid hcommitted
  obtain rfl := Option.some.inj (htable.symm.trans hsame)
  obtain ⟨hregisteredName, made, hmade, sources, hsources, hperm⟩ :=
    h.fresh id table projection (hsees.base.symm.trans hid) hcommitted haccepts
  have hstored : s.contents target session projection.toTableName = made.rows := by
    rw [State.contents, hregisteredName, if_neg (folded_projectionTable_ne target), if_pos rfl,
      State.projectionOf, hsees.projection, hmade]
    rfl
  refine ⟨projectionRows sources table.visible, ?_, ?_⟩
  · show (projectionSources table.entry projection.groupSet).map _ = _
    rw [hsources, Option.map_some, State.contents, if_pos rfl, hrows]
  · show (s.contents target session projection.toTableName).Perm _
    rw [hstored]
    exact hperm

/-- **One careful step** keeps what is registered current. -/
theorem inv_step {label : Label} (h : Inv target s) (hcareful : Careful s label)
    (hstep : step target s label = some s') : Inv target s' := by
  cases step_move hstep with
  | begin =>
      refine h.setSession _ ?_
      rintro _ ⟨⟩
      exact sessionInv_begin h
  | insert hsession =>
      have hinv := h.sessions _ _ hsession
      refine h.setSession _ ?_
      rintro _ ⟨⟩
      exact ⟨hinv.seen, hinv.base, hinv.making⟩
  | delete hsession =>
      refine h.setSession _ ?_
      rintro _ ⟨⟩
      exact (h.sessions _ _ hsession).delete _
  | drop hsession =>
      refine h.setSession _ ?_
      rintro _ ⟨⟩
      exact (h.sessions _ _ hsession).drop
  | create hsession hname => exact h.create (h.sessions _ _ hsession) hname
  | commitGone =>
      refine ⟨h.tables, nofun, ?_, nofun, h.answers⟩
      exact forall_update (fun c' session' hsession' =>
        (h.sessions c' session' hsession').mono (Nat.le_refl _) fun _ _ hid => hid) nofun
  | commit hsession hbegun hbase => exact h.commit hsession hcareful hbegun hbase
  | rollback => exact h.setSession _ nofun
  | observe =>
      refine ⟨h.tables, h.base, fun c session hsession => ?_, h.fresh, h.answers⟩
      exact (h.sessions c session hsession).mono (Nat.le_refl _) fun _ _ hid => hid
  | materialize hsession htable hbasis hsources =>
      exact h.materialize _ hsession hcareful htable hbasis hsources
  | register hsession hwork => exact h.register hsession hcareful hwork
  | projectOther => exact h.projectOther hcareful
  | query => exact h
  | answer hsession htable hscanned hname hrewrite hregistered =>
      refine ⟨h.tables, h.base, fun c' session' hsession' => ?_, h.fresh, fun answer hanswer => ?_⟩
      · exact (h.sessions c' session' hsession').mono (Nat.le_refl _) fun _ _ hid => hid
      rcases List.mem_append.mp hanswer with hold | hnew
      · exact h.answers answer hold
      · obtain rfl := List.mem_singleton.mp hnew
        exact h.answer hsession hcareful htable hscanned hname hrewrite hregistered

/-! ## whole runs -/

/-- The projection of the two numbers. -/
def eventsRegistered : Projection :=
  { toTableName := projectionTable eventsTable.toTableName, groupSet := bytes "k", baseRows := 2 }

/-- A query finds it. -/
theorem freshProjection_registered {context : Context}
    (hregistered : context.projections (tableKey eventsTable.toTableName) = some eventsRegistered)
    (htotal : context.totalRows eventsTable.toTableName = 2) :
    freshProjection context eventsTable [bytes "k"] = some eventsRegistered := by
  have hname : sortNames [bytes "k"] = [bytes "k"] := by
    simp [sortNames]
  rw [freshProjection, hregistered]
  dsimp only
  rw [hname, htotal]
  rfl

theorem tryRewriteToProjection_registered {context : Context}
    (hregistered : context.projections (tableKey eventsTable.toTableName) = some eventsRegistered)
    (htotal : context.totalRows eventsTable.toTableName = 2)
    (hentry : context.getEntry (projectionTable eventsTable.toTableName) = some eventsProjection) :
    tryRewriteToProjection context (countPlan none) = some (rewrittenCountPlan none) := by
  have hnames : (eventsAggregate none).groups.mapM (groupName eventsGet) = some [bytes "k"] := rfl
  have haccepts : acceptsAggregate (eventsAggregate none) = true := rfl
  have hfilters : eventsGet.tableFilters.isEmpty = true := rfl
  have htable : eventsGet.table = some eventsTable := rfl
  simp only [tryRewriteToProjection, countPlan, htable, haccepts, hfilters, hnames,
    freshProjection_registered hregistered htotal, Option.bind_eq_bind, Option.bind_some]
  have hname : eventsRegistered.toTableName = projectionTable eventsTable.toTableName := rfl
  rw [hname, hentry]
  rfl

/-- Two numbers, projected; then one of them is deleted. -/
def projected : List Label :=
  [.begin 0, .create 0 eventsTable, .insert 0 [[.bigint 1, .bigint 0], [.bigint 2, .bigint 0]],
    .commit 0, .observe (bytes "k"), .begin 1, .materialize 1 none, .register 1, .commit 1]

/-- A query of the two columns, where the projection is registered. -/
theorem query_countPlan {s : State} {session : Session} {table : StoredTable}
    (hregistered : s.registered = some eventsRegistered) (htable : session.table = some table)
    (hentry : table.entry = eventsTable)
    (htotal : ((session.base.bind fun id => s.tables[id]?).map StoredTable.totalRows).getD 0 = 2)
    (hprojection : (s.projectionOf session).map MaterializedTable.entry = some eventsProjection) :
    s.query eventsTable.toTableName session (countPlan none) = some { s with
      answers := s.answers ++ [
        { stored := ((s.projectionOf session).map MaterializedTable.rows).getD []
          current := some (projectionRows [0] session.rows) }] } := by
  have hfound : (s.context eventsTable.toTableName session).projections
      (tableKey eventsTable.toTableName) = some eventsRegistered := by
    simp only [State.context, if_true, hregistered]
  have hrewrite := tryRewriteToProjection_registered hfound htotal hprojection
  have hsources : projectionSources table.entry eventsRegistered.groupSet = some [0] := by
    rw [hentry]
    rfl
  have hscanned : scannedTable (countPlan none) = some eventsTable := rfl
  simp only [State.query, htable, hscanned, hrewrite, hregistered, hsources, Option.bind_eq_bind,
    Option.bind_some, if_true, Option.map_some]
  rfl

/-- A run that goes on with the query. -/
theorem run_countPlan {before : List Label} {c : Nat} {s : State} {session : Session}
    {table : StoredTable} (hrun : (system eventsTable.toTableName).run before = some s)
    (hsession : s.sessions c = some session) (hregistered : s.registered = some eventsRegistered)
    (htable : session.table = some table) (hentry : table.entry = eventsTable)
    (htotal : ((session.base.bind fun id => s.tables[id]?).map StoredTable.totalRows).getD 0 = 2)
    (hprojection : (s.projectionOf session).map MaterializedTable.entry = some eventsProjection) :
    (system eventsTable.toTableName).run (before ++ [.query c (countPlan none)]) = some { s with
      answers := s.answers ++ [
        { stored := ((s.projectionOf session).map MaterializedTable.rows).getD []
          current := some (projectionRows [0] session.rows) }] } := by
  refine runFrom_trans hrun ?_
  have hstep : step eventsTable.toTableName s (.query c (countPlan none)) =
      s.query eventsTable.toTableName session (countPlan none) := by
    rw [step, hsession]
    rfl
  show (step eventsTable.toTableName s (.query c (countPlan none))).bind some = _
  rw [hstep, query_countPlan hregistered htable hentry htotal hprojection]
  rfl

end Freshness

end RawDuck
