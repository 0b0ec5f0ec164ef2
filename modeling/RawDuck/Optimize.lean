import RawDuck.Fallible
import RawDuck.Json
import RawDuck.RowStore
import Mathlib.Data.List.Sort
import Mathlib.Logic.Function.Basic

/-!
# RawDuck.Optimize

`raw_optimize(table)`: the table is rewritten in the order of its hottest
predicate columns, or only the rows behind those of the last call are.

Catalog tables are seen as the statements of `raw_optimize` see them: columns
with their types and defaults, declared constraints, and rows under rowids.
`SqlEngine` has what DuckDB adds of its own: the order of `ORDER BY` and the
reasons to refuse a statement.

* `rawOptimize` — `RawOptimizeFunction`;
* `rawOptimize_outcome` — what a call that returns has done;
* `rawOptimize_error` — a call that raises has done nothing.
-/

namespace RawDuck

open Fallible

/-! ## tables -/

/-- A column as declared; a default is the text of its expression. -/
structure DeclaredColumn where
  name : Bytes
  type : LogicalType
  default : Option Bytes
  deriving DecidableEq

/-- A table: its declarations, and its rows under their rowids.  A constraint is
its definition: NOT NULL, UNIQUE, PRIMARY KEY, CHECK. -/
structure BaseTable where
  columns : List DeclaredColumn
  constraints : List Bytes
  rows : RowStore (List Cell)

/-- The tables of the schema of a target, by lower-case name. -/
abbrev Tables := Bytes → Option BaseTable

/-- `RawStatsCache::OptimizeState`. -/
structure OptimizeState where
  orderBy : Bytes
  rowCount : Nat
  deriving DecidableEq

/-- What the calls work on: the committed tables, and the last outcome noted for
each of them in `RawStatsCache::optimized`. -/
structure OptimizeDb where
  tables : Tables
  optimized : Bytes → Option OptimizeState

/-- What a transaction sees: the tables, and the temporary table
`__rawduck_optimize_tail` of the connection. -/
structure Txn where
  tables : Tables
  tail : Option (List (List Cell))

/-- A connection; outside of a transaction nothing reads `txn`. -/
structure OptimizeConn where
  db : OptimizeDb
  txn : Txn

/-! ## statements -/

/-- The name of the rewritten table. -/
def optimizeTmp : Bytes := bytes "__rawduck_optimize_tmp"

/-- The statements of a transaction of `raw_optimize`. -/
inductive OptimizeStatement where
  /-- `CREATE TEMPORARY TABLE __rawduck_optimize_tail AS SELECT * FROM … WHERE rowid >= …` -/
  | createTail (table : Bytes) (rowid : Nat)
  /-- `DELETE FROM … WHERE rowid >= …` -/
  | deleteFrom (table : Bytes) (rowid : Nat)
  /-- `INSERT INTO … SELECT * FROM __rawduck_optimize_tail ORDER BY …` -/
  | insertTail (table orderBy : Bytes)
  /-- `DROP TABLE __rawduck_optimize_tail` -/
  | dropTail
  /-- `CREATE TABLE … AS SELECT * FROM … ORDER BY …` -/
  | createOrdered (name table orderBy : Bytes)
  /-- `DROP TABLE …` -/
  | drop (table : Bytes)
  /-- `ALTER TABLE … RENAME TO …` -/
  | rename (table name : Bytes)
  deriving DecidableEq

/-- DuckDB's part: the order of an `ORDER BY`, its errors, and its own reasons to
refuse a statement, such as a constraint of the table or another transaction. -/
structure SqlEngine where
  sorted : Bytes → List (List Cell) → List (List Cell)
  sorted_perm : ∀ orderBy rows, (sorted orderBy rows).Perm rows
  check : OptimizeStatement → Txn → Except RawError Unit
  checkCommit : Txn → Except RawError Unit
  /-- A statement about a table that is not there. -/
  notFound : Bytes → RawError
  /-- A statement that makes a table that is there already. -/
  taken : Bytes → RawError

namespace BaseTable

/-- What `CREATE TABLE … AS` makes of some rows: names and types, no defaults and
no constraints. -/
def createAs (t : BaseTable) (rows : List (List Cell)) : BaseTable where
  columns := t.columns.map fun c => { c with default := none }
  constraints := []
  rows := RowStore.empty.append rows

/-- Adds rows. -/
def insert (t : BaseTable) (rows : List (List Cell)) : BaseTable :=
  { t with rows := t.rows.append rows }

/-- Deletes the rows from a rowid on. -/
def deleteFrom (t : BaseTable) (rowid : Nat) : BaseTable :=
  { t with rows := t.rows.deleteFrom rowid }

end BaseTable

namespace Tables

/-- The tables with another one, or none, under a name. -/
def set (tables : Tables) (table : Bytes) (t : Option BaseTable) : Tables :=
  Function.update tables (lower table) t

end Tables

namespace SqlEngine

variable (engine : SqlEngine)

/-- The table of a name. -/
def find (tables : Tables) (table : Bytes) : Except RawError BaseTable :=
  match tables (lower table) with
  | some t => .ok t
  | none => .error (engine.notFound table)

/-- Refuses a name that is taken. -/
def requireFree (tables : Tables) (table : Bytes) : Except RawError Unit :=
  if (tables (lower table)).isSome then .error (engine.taken table) else .ok ()

/-- The temporary table of the connection. -/
def findTail (txn : Txn) : Except RawError (List (List Cell)) :=
  match txn.tail with
  | some rows => .ok rows
  | none => .error (engine.notFound (bytes "__rawduck_optimize_tail"))

/-- What a statement does to the transaction, and the rows it counts. -/
def effect (txn : Txn) : OptimizeStatement → Except RawError (Txn × Nat)
  | .createTail table rowid => do
      let t ← engine.find txn.tables table
      let rows := t.rows.valuesFrom rowid
      return ({ txn with tail := some rows }, rows.length)
  | .deleteFrom table rowid => do
      let t ← engine.find txn.tables table
      return ({ txn with tables := txn.tables.set table (some (t.deleteFrom rowid)) },
        (t.rows.valuesFrom rowid).length)
  | .insertTail table orderBy => do
      let t ← engine.find txn.tables table
      let rows ← engine.findTail txn
      let t := t.insert (engine.sorted orderBy rows)
      return ({ txn with tables := txn.tables.set table (some t) }, rows.length)
  | .dropTail => do
      let _ ← engine.findTail txn
      return ({ txn with tail := none }, 0)
  | .createOrdered name table orderBy => do
      let t ← engine.find txn.tables table
      engine.requireFree txn.tables name
      let rows := engine.sorted orderBy t.rows.values
      return ({ txn with tables := txn.tables.set name (some (t.createAs rows)) }, rows.length)
  | .drop table => do
      let _ ← engine.find txn.tables table
      return ({ txn with tables := txn.tables.set table none }, 0)
  | .rename table name => do
      let t ← engine.find txn.tables table
      engine.requireFree txn.tables name
      return ({ txn with tables := (txn.tables.set table none).set name (some t) }, 0)

/-- Runs a statement in the open transaction; the answer is its row count. -/
def exec (statement : OptimizeStatement) : EStateM RawError OptimizeConn Nat := do
  let conn ← get
  fromExcept (engine.check statement conn.txn)
  let (txn, rows) ← fromExcept (engine.effect conn.txn statement)
  set { conn with txn }
  return rows

/-- `BEGIN TRANSACTION`. -/
def beginTransaction : EStateM RawError OptimizeConn Unit :=
  modify fun conn => { conn with txn := { tables := conn.db.tables, tail := none } }

/-- `COMMIT`. -/
def commit : EStateM RawError OptimizeConn Unit := do
  let conn ← get
  fromExcept (engine.checkCommit conn.txn)
  set { conn with db := { conn.db with tables := conn.txn.tables } }

/-- `ROLLBACK`: the transaction is gone. -/
def rollback : EStateM RawError OptimizeConn Unit :=
  modify fun conn => { conn with txn := { tables := conn.db.tables, tail := none } }

/-- A transaction, rolled back when one of its statements raises. -/
def transaction (body : EStateM RawError OptimizeConn Nat) :
    EStateM RawError OptimizeConn Nat := do
  beginTransaction
  tryCatch (do
      let rows ← body
      engine.commit
      return rows)
    fun e => do
      rollback
      throw e

/-- The statements that sort the rows behind those of the last call. -/
def sortTail (table : Bytes) (lastCount : Nat) (orderBy : Bytes) :
    EStateM RawError OptimizeConn Nat := do
  let _ ← engine.exec (.createTail table lastCount)
  let _ ← engine.exec (.deleteFrom table lastCount)
  let rows ← engine.exec (.insertTail table orderBy)
  let _ ← engine.exec .dropTail
  return rows

/-- The statements that rewrite the table. -/
def rewrite (table orderBy : Bytes) : EStateM RawError OptimizeConn Nat := do
  let rows ← engine.exec (.createOrdered optimizeTmp table orderBy)
  let _ ← engine.exec (.drop table)
  let _ ← engine.exec (.rename optimizeTmp table)
  return rows

end SqlEngine

/-! ## the call -/

/-- `RawColumnUsage`. -/
structure RawColumnUsage where
  filters : Nat
  groups : Nat

/-- The columns a query filtered or grouped by, the hottest first; columns of
one score keep the order of the map. -/
def rankColumns (usage : List (Bytes × RawColumnUsage)) : List (Bytes × Nat) :=
  (usage.map fun column => (column.1, 2 * column.2.filters + column.2.groups)).insertionSort
    fun a b => b.2 ≤ a.2

/-- `RawQuoteIdentifier`. -/
def rawQuoteIdentifier (name : Bytes) : Bytes :=
  34 :: (name.flatMap fun c => if c = 34 then [34, 34] else [c]) ++ [34]

/-- The sort key: the first two columns. -/
def orderByText (ranked : List (Bytes × Nat)) : Bytes :=
  List.intercalate (bytes ", ") ((ranked.take 2).map fun column => rawQuoteIdentifier column.1)

/-- `mode`. -/
inductive OptimizeMode where
  | noop
  | incremental
  | full
  deriving DecidableEq, Repr

/-- The row `raw_optimize` returns. -/
structure RawOptimizeResult where
  table : Bytes
  orderBy : Option Bytes
  rows : Nat
  mode : OptimizeMode

/-- The argument of `raw_optimize` and the table entry it resolves to. -/
structure OptimizeTarget where
  argument : Bytes
  catalog : Bytes
  schema : Bytes
  name : Bytes

/-- `TableKey`. -/
def OptimizeTarget.key (target : OptimizeTarget) : Bytes :=
  lower target.catalog ++ bytes "." ++ lower target.schema ++ bytes "." ++ lower target.name

/-- The row count noted by the last call with this sort key, 0 if there is none. -/
def OptimizeDb.lastCount (db : OptimizeDb) (key orderBy : Bytes) : Nat :=
  match db.optimized key with
  | some last => if last.orderBy = orderBy then last.rowCount else 0
  | none => 0

/-- Notes the outcome of a call. -/
def OptimizeDb.note (db : OptimizeDb) (key orderBy : Bytes) (rowCount : Nat) : OptimizeDb :=
  { db with optimized := Function.update db.optimized key (some { orderBy, rowCount }) }

/-- Puts a table in the place of the one of its name. -/
def OptimizeDb.replace (db : OptimizeDb) (table : Bytes) (t : BaseTable) : OptimizeDb :=
  { db with tables := db.tables.set table (some t) }

/-- What a call decides from the counts. -/
def optimizeMode (lastCount : Nat) (rows : RowStore (List Cell)) : OptimizeMode :=
  let currentCount := rows.rows.length
  -- rowid continuity is taken for a proof that the table was only appended to
  let appendOnly := decide (currentCount = rows.endId)
  if lastCount > 0 && appendOnly && decide (currentCount = lastCount) then .noop
  else if lastCount > 0 && appendOnly && decide (currentCount > lastCount) then .incremental
  else .full

/-- What a call runs in a mode; the answer is the number of rows it moves. -/
def SqlEngine.reorder (engine : SqlEngine) (table : Bytes) (lastCount : Nat) (orderBy : Bytes) :
    OptimizeMode → EStateM RawError OptimizeConn Nat
  | .noop => pure 0
  | .incremental => engine.transaction (engine.sortTail table lastCount orderBy)
  | .full => engine.transaction (engine.rewrite table orderBy)

variable (engine : SqlEngine) (usage : List (Bytes × RawColumnUsage)) (target : OptimizeTarget)

/-- `RawOptimizeFunction` on its connection. -/
def rawOptimizeOn : EStateM RawError OptimizeConn RawOptimizeResult := do
  let db := (← get).db
  let table ← fromExcept (engine.find db.tables target.name)
  let ranked := rankColumns usage
  -- nothing observed yet
  if ranked.isEmpty then
    return { table := target.argument, orderBy := none, rows := 0, mode := .noop }
  else do
    let orderBy := orderByText ranked
    let lastCount := db.lastCount target.key orderBy
    let mode := optimizeMode lastCount table.rows
    let rows ← engine.reorder target.name lastCount orderBy mode
    modify fun conn => { conn with
      db := conn.db.note target.key orderBy table.rows.rows.length }
    return { table := target.argument, orderBy := some orderBy, rows, mode }

/-- `RawOptimizeFunction`: the call has a connection of its own, which is dropped
at its end. -/
def rawOptimize : EStateM RawError OptimizeDb RawOptimizeResult := fun db =>
  match rawOptimizeOn engine usage target { db, txn := { tables := db.tables, tail := none } } with
  | .ok result conn => .ok result conn.db
  | .error e conn => .error e conn.db

/-! ## what a statement does -/

namespace Tables

variable {tables : Tables} {table name : Bytes} {t : Option BaseTable}

@[simp] theorem set_lower : (tables.set table t) (lower table) = t :=
  Function.update_self ..

theorem set_of_ne {key : Bytes} (h : key ≠ lower table) : (tables.set table t) key = tables key :=
  Function.update_of_ne h ..

@[simp] theorem set_set {t' : Option BaseTable} :
    (tables.set table t).set table t' = tables.set table t' :=
  Function.update_idem ..

theorem set_eq_self (h : tables (lower table) = t) : tables.set table t = tables := by
  rw [← h]
  exact Function.update_eq_self ..

end Tables

section

variable {engine} {tables : Tables} {table : Bytes} {t : BaseTable}

theorem find_eq_ok : engine.find tables table = .ok t ↔ tables (lower table) = some t := by
  rw [SqlEngine.find]
  cases tables (lower table) with
  | none => simp
  | some u => simp

@[simp] theorem find_set : engine.find (tables.set table (some t)) table = .ok t :=
  find_eq_ok.mpr Tables.set_lower

theorem requireFree_eq_ok :
    engine.requireFree tables table = .ok () ↔ tables (lower table) = none := by
  rw [SqlEngine.requireFree]
  cases tables (lower table) with
  | none => simp
  | some u => simp

variable {conn conn' : OptimizeConn} {rows : Nat}

/-- A statement that is not refused has its effect on the transaction. -/
theorem exec_eq_ok {statement : OptimizeStatement}
    (h : engine.exec statement conn = .ok rows conn') :
    ∃ txn, engine.effect conn.txn statement = .ok (txn, rows) ∧ conn' = { conn with txn } := by
  obtain ⟨_, _, hget, h⟩ := run_bind_eq_ok.mp h
  cases hget
  obtain ⟨_, _, hcheck, h⟩ := run_bind_eq_ok.mp h
  obtain ⟨-, rfl⟩ := run_fromExcept_eq_ok.mp hcheck
  obtain ⟨⟨txn, n⟩, _, heffect, h⟩ := run_bind_eq_ok.mp h
  obtain ⟨heffect, rfl⟩ := run_fromExcept_eq_ok.mp heffect
  cases h
  exact ⟨txn, heffect, rfl⟩

/-- Statements of a transaction leave what is committed alone. -/
theorem preserves_exec (statement : OptimizeStatement) (db : OptimizeDb) :
    Preserves (engine.exec statement) fun conn => conn.db = db := by
  apply Preserves.get_bind
  intro conn hconn
  apply Preserves.bind (Preserves.fromExcept _)
  intro _
  apply Preserves.bind (Preserves.fromExcept _)
  intro ⟨txn, rows⟩
  have hset : Preserves (set { conn with txn } : EStateM RawError OptimizeConn PUnit)
      fun conn => conn.db = db := Preserves.set hconn
  exact hset.bind fun _ => Preserves.pure _

theorem preserves_sortTail (lastCount : Nat) (orderBy : Bytes) (db : OptimizeDb) :
    Preserves (engine.sortTail table lastCount orderBy) fun conn => conn.db = db := by
  apply Preserves.bind (preserves_exec _ db)
  intro _
  apply Preserves.bind (preserves_exec _ db)
  intro _
  apply Preserves.bind (preserves_exec _ db)
  intro _
  apply Preserves.bind (preserves_exec _ db)
  intro _
  exact Preserves.pure _

theorem preserves_rewrite (orderBy : Bytes) (db : OptimizeDb) :
    Preserves (engine.rewrite table orderBy) fun conn => conn.db = db := by
  apply Preserves.bind (preserves_exec _ db)
  intro _
  apply Preserves.bind (preserves_exec _ db)
  intro _
  apply Preserves.bind (preserves_exec _ db)
  intro _
  exact Preserves.pure _

/-- The connection at the start of a transaction. -/
def OptimizeConn.begun (conn : OptimizeConn) : OptimizeConn :=
  { conn with txn := { tables := conn.db.tables, tail := none } }

/-- A transaction commits what its statements see at its end, or changes
nothing. -/
theorem leaves_transaction {body : EStateM RawError OptimizeConn Nat}
    (hbody : Preserves body fun c => c.db = conn.db) :
    Leaves (engine.transaction body) conn
      (fun rows conn' => ∃ mid, body conn.begun = .ok rows mid ∧
        conn'.db = { conn.db with tables := mid.txn.tables })
      (fun conn' => conn'.db = conn.db) := by
  have hstart : Leaves SqlEngine.beginTransaction conn (fun _ c => c = conn.begun)
      fun c => c.db = conn.db := Leaves.modify rfl
  apply hstart.bind
  intro _ c hc
  subst hc
  have hrun := hbody conn.begun rfl
  apply Leaves.tryCatch fun c => c.db = conn.db
  · have hmid : Leaves body conn.begun
        (fun rows mid => body conn.begun = .ok rows mid ∧ mid.db = conn.db)
        fun c => c.db = conn.db := ⟨fun rows mid h => ⟨h, hrun.1 rows mid h⟩, hrun.2⟩
    apply hmid.bind
    intro rows mid ⟨hrows, hdb⟩
    have hcommit : Leaves engine.commit mid
        (fun _ c => c.db = { conn.db with tables := mid.txn.tables }) fun c => c.db = conn.db := by
      apply Leaves.get_bind
      have hcheck : Leaves (fromExcept (engine.checkCommit mid.txn)) mid (fun _ c => c = mid)
          fun c => c.db = conn.db := Leaves.fromExcept (fun _ _ => rfl) hdb
      apply hcheck.bind
      intro _ c hc
      subst hc
      apply Leaves.set
      rw [hdb]
    apply hcommit.bind
    intro _ c hc
    exact Leaves.pure ⟨mid, hrows, hc⟩
  · intro e c hc
    have hrollback : Leaves SqlEngine.rollback c (fun _ c' => c'.db = conn.db)
        fun c => c.db = conn.db := Leaves.modify hc
    apply hrollback.bind
    intro _ c' hc'
    exact Leaves.throw hc'

/-! ## what a transaction does -/

/-- Sorting the rows from a rowid on: they are deleted and inserted again. -/
theorem sortTail_eq_ok {lastCount : Nat} {orderBy : Bytes} (ht : tables (lower table) = some t)
    (hconn : conn.txn = { tables, tail := none })
    (h : engine.sortTail table lastCount orderBy conn = .ok rows conn') :
    rows = (t.rows.valuesFrom lastCount).length ∧
      conn'.txn.tables = tables.set table (some ((t.deleteFrom lastCount).insert
        (engine.sorted orderBy (t.rows.valuesFrom lastCount)))) := by
  obtain ⟨_, conn₁, h₁, h⟩ := run_bind_eq_ok.mp h
  obtain ⟨_, conn₂, h₂, h⟩ := run_bind_eq_ok.mp h
  obtain ⟨_, conn₃, h₃, h⟩ := run_bind_eq_ok.mp h
  obtain ⟨_, conn₄, h₄, h⟩ := run_bind_eq_ok.mp h
  cases h
  obtain ⟨txn₁, e₁, rfl⟩ := exec_eq_ok h₁
  obtain ⟨txn₂, e₂, rfl⟩ := exec_eq_ok h₂
  obtain ⟨txn₃, e₃, rfl⟩ := exec_eq_ok h₃
  obtain ⟨txn₄, e₄, rfl⟩ := exec_eq_ok h₄
  have hfind : engine.find tables table = .ok t := find_eq_ok.mpr ht
  simp only [SqlEngine.effect, hconn, hfind] at e₁
  cases e₁
  simp only [SqlEngine.effect, hfind] at e₂
  cases e₂
  simp only [SqlEngine.effect, find_set] at e₃
  cases e₃
  simp only [SqlEngine.effect] at e₄
  cases e₄
  simp

/-- Rewriting the table: another one takes its name. -/
theorem rewrite_eq_ok {orderBy : Bytes} (ht : tables (lower table) = some t)
    (hconn : conn.txn = { tables, tail := none })
    (h : engine.rewrite table orderBy conn = .ok rows conn') :
    rows = t.rows.values.length ∧
      conn'.txn.tables =
        tables.set table (some (t.createAs (engine.sorted orderBy t.rows.values))) := by
  obtain ⟨_, conn₁, h₁, h⟩ := run_bind_eq_ok.mp h
  obtain ⟨_, conn₂, h₂, h⟩ := run_bind_eq_ok.mp h
  obtain ⟨_, conn₃, h₃, h⟩ := run_bind_eq_ok.mp h
  cases h
  obtain ⟨txn₁, e₁, rfl⟩ := exec_eq_ok h₁
  obtain ⟨txn₂, e₂, rfl⟩ := exec_eq_ok h₂
  obtain ⟨txn₃, e₃, rfl⟩ := exec_eq_ok h₃
  -- the new table is made next to the old one, under a name that was free
  rw [hconn, SqlEngine.effect] at e₁
  obtain ⟨t₁, hfind₁, e₁⟩ := bind_eq_ok.mp e₁
  obtain ⟨_, hfree, e₁⟩ := bind_eq_ok.mp e₁
  cases e₁
  have htmp : tables (lower optimizeTmp) = none := requireFree_eq_ok.mp hfree
  obtain rfl : t = t₁ := by
    rw [find_eq_ok.mpr ht] at hfind₁
    exact Except.ok.inj hfind₁
  have hne : lower optimizeTmp ≠ lower table := by
    intro heq
    rw [heq, ht] at htmp
    contradiction
  rw [SqlEngine.effect] at e₂
  obtain ⟨_, -, e₂⟩ := bind_eq_ok.mp e₂
  cases e₂
  rw [SqlEngine.effect] at e₃
  obtain ⟨t₃, hfind₃, e₃⟩ := bind_eq_ok.mp e₃
  obtain ⟨_, -, e₃⟩ := bind_eq_ok.mp e₃
  cases e₃
  -- and it is the one that is renamed
  have ht₃ : ((tables.set optimizeTmp
      (some (t.createAs (engine.sorted orderBy t.rows.values)))).set table none)
      (lower optimizeTmp) = some t₃ := find_eq_ok.mp hfind₃
  rw [Tables.set_of_ne hne, Tables.set_lower, Option.some.injEq] at ht₃
  subst ht₃
  refine ⟨(engine.sorted_perm _ _).length_eq, ?_⟩
  funext key
  show (((tables.set optimizeTmp _).set table none).set optimizeTmp none).set table _ key = _
  by_cases hkey : key = lower table
  · subst hkey
    rw [Tables.set_lower, Tables.set_lower]
  · rw [Tables.set_of_ne hkey, Tables.set_of_ne hkey]
    by_cases hk : key = lower optimizeTmp
    · subst hk
      rw [Tables.set_lower, htmp]
    · rw [Tables.set_of_ne hk, Tables.set_of_ne hkey, Tables.set_of_ne hk]

end

/-! ## what a call does -/

/-- The table after a call that ran in a mode. -/
def optimizedTable (orderBy : Bytes) (lastCount : Nat) (t : BaseTable) : OptimizeMode → BaseTable
  | .noop => t
  | .incremental =>
      (t.deleteFrom lastCount).insert (engine.sorted orderBy (t.rows.valuesFrom lastCount))
  | .full => t.createAs (engine.sorted orderBy t.rows.values)

/-- The rows a call moves in a mode. -/
def rowsMoved (lastCount : Nat) (t : BaseTable) : OptimizeMode → Nat
  | .noop => 0
  | .incremental => (t.rows.valuesFrom lastCount).length
  | .full => t.rows.rows.length

/-- What a call on a table has done when it returns. -/
inductive OptimizeOutcome (db : OptimizeDb) (t : BaseTable) :
    RawOptimizeResult → OptimizeDb → Prop
  | unranked : rankColumns usage = [] →
      OptimizeOutcome db t
        { table := target.argument, orderBy := none, rows := 0, mode := .noop } db
  | ranked {orderBy : Bytes} {lastCount : Nat} {mode : OptimizeMode} :
      rankColumns usage ≠ [] → orderBy = orderByText (rankColumns usage) →
      lastCount = db.lastCount target.key orderBy → mode = optimizeMode lastCount t.rows →
      OptimizeOutcome db t
        { table := target.argument, orderBy := some orderBy,
          rows := rowsMoved lastCount t mode, mode }
        ((db.replace target.name (optimizedTable engine orderBy lastCount t mode)).note
          target.key orderBy t.rows.rows.length)

variable {engine usage target}

/-- The transaction of a mode puts the table of that mode in its place. -/
theorem leaves_reorder {conn : OptimizeConn} {t : BaseTable}
    (ht : conn.db.tables (lower target.name) = some t) (orderBy : Bytes) (lastCount : Nat)
    (mode : OptimizeMode) :
    Leaves (engine.reorder target.name lastCount orderBy mode) conn
      (fun rows conn' => rows = rowsMoved lastCount t mode ∧
        conn'.db = conn.db.replace target.name (optimizedTable engine orderBy lastCount t mode))
      (fun conn' => conn'.db = conn.db) := by
  cases mode with
  | noop =>
      apply Leaves.pure
      rw [OptimizeDb.replace, optimizedTable, Tables.set_eq_self ht]
      exact ⟨rfl, rfl⟩
  | incremental =>
      apply (leaves_transaction (preserves_sortTail lastCount orderBy conn.db)).mono _ fun _ h => h
      intro rows conn' ⟨mid, hmid, hdb⟩
      obtain ⟨hrows, htables⟩ := sortTail_eq_ok ht rfl hmid
      rw [hdb, htables]
      exact ⟨hrows, rfl⟩
  | full =>
      apply (leaves_transaction (preserves_rewrite orderBy conn.db)).mono _ fun _ h => h
      intro rows conn' ⟨mid, hmid, hdb⟩
      obtain ⟨hrows, htables⟩ := rewrite_eq_ok ht rfl hmid
      rw [hdb, htables]
      exact ⟨hrows.trans (List.length_map ..), rfl⟩

/-- A call finds its table and has one of the outcomes, or leaves everything as
it was. -/
theorem leaves_rawOptimizeOn (conn : OptimizeConn) :
    Leaves (rawOptimizeOn engine usage target) conn
      (fun result conn' => ∃ t, conn.db.tables (lower target.name) = some t ∧
        OptimizeOutcome engine usage target conn.db t result conn'.db)
      (fun conn' => conn'.db = conn.db) := by
  apply Leaves.get_bind
  have hfind : Leaves (fromExcept (engine.find conn.db.tables target.name)) conn
      (fun t c => conn.db.tables (lower target.name) = some t ∧ c = conn)
      fun c => c.db = conn.db :=
    Leaves.fromExcept (fun t ht => ⟨find_eq_ok.mp ht, rfl⟩) rfl
  apply hfind.bind
  intro table c ⟨ht, hc⟩
  subst hc
  by_cases hranked : rankColumns usage = []
  · simp only [hranked, List.isEmpty_nil, if_true]
    exact Leaves.pure ⟨table, ht, .unranked hranked⟩
  · have hne : (rankColumns usage).isEmpty = false := by simpa using hranked
    simp only [hne, Bool.false_eq_true, if_false]
    apply (leaves_reorder ht _ _ _).bind
    intro rows c' ⟨hrows, hdb⟩
    have hnote : Leaves (modify fun conn : OptimizeConn => { conn with
          db := conn.db.note target.key (orderByText (rankColumns usage)) table.rows.rows.length } :
          EStateM RawError OptimizeConn PUnit) c'
        (fun _ conn' => conn'.db = c'.db.note target.key (orderByText (rankColumns usage))
          table.rows.rows.length)
        (fun conn' => conn'.db = c.db) := Leaves.modify rfl
    apply hnote.bind
    intro _ conn' hconn'
    apply Leaves.pure
    rw [hconn', hdb, hrows]
    exact ⟨table, ht, .ranked hranked rfl rfl rfl⟩

/-- **What a call has done** when it returns. -/
theorem rawOptimize_outcome {db db' : OptimizeDb} {result : RawOptimizeResult}
    (h : rawOptimize engine usage target db = .ok result db') :
    ∃ t, db.tables (lower target.name) = some t ∧
      OptimizeOutcome engine usage target db t result db' := by
  have hrun := @leaves_rawOptimizeOn engine usage target
    { db, txn := { tables := db.tables, tail := none } }
  rw [rawOptimize] at h
  split at h
  · next conn' hok =>
    cases h
    exact hrun.1 _ _ hok
  · contradiction

/-- **A call that raises** has done nothing. -/
theorem rawOptimize_error {db db' : OptimizeDb} {e : RawError}
    (h : rawOptimize engine usage target db = .error e db') : db' = db := by
  have hrun := @leaves_rawOptimizeOn engine usage target
    { db, txn := { tables := db.tables, tail := none } }
  rw [rawOptimize] at h
  split at h
  · contradiction
  · next conn' herror =>
    cases h
    exact hrun.2 _ _ herror

/-! ## calls with nothing to do -/

/-- Without observed columns a call does nothing. -/
theorem rawOptimize_unranked {db : OptimizeDb} {t : BaseTable}
    (ht : db.tables (lower target.name) = some t) (hranked : rankColumns usage = []) :
    rawOptimize engine usage target db =
      .ok { table := target.argument, orderBy := none, rows := 0, mode := .noop } db := by
  rw [rawOptimize, rawOptimizeOn, run_bind_of_ok run_get,
    run_bind_of_ok (run_fromExcept_of_ok (find_eq_ok.mpr ht))]
  simp [hranked]

/-- In mode `noop` a call only notes its counts again. -/
theorem rawOptimize_noop {db : OptimizeDb} {t : BaseTable} {orderBy : Bytes}
    (ht : db.tables (lower target.name) = some t) (hranked : rankColumns usage ≠ [])
    (horderBy : orderBy = orderByText (rankColumns usage))
    (hmode : optimizeMode (db.lastCount target.key orderBy) t.rows = .noop) :
    rawOptimize engine usage target db =
      .ok { table := target.argument, orderBy := some orderBy, rows := 0, mode := .noop }
        (db.note target.key orderBy t.rows.rows.length) := by
  subst horderBy
  have hne : (rankColumns usage).isEmpty = false := by simpa using hranked
  rw [rawOptimize, rawOptimizeOn, run_bind_of_ok run_get,
    run_bind_of_ok (run_fromExcept_of_ok (find_eq_ok.mpr ht))]
  simp only [hne, Bool.false_eq_true, if_false, hmode, SqlEngine.reorder]
  rfl

end RawDuck
