import RawDuck.Optimize

/-!
# RawDuck.Reordering

What `raw_optimize` keeps, and what a second call finds.

* `rawOptimize_keeps_iff` — a call changes the order of rows only, unless it
  rewrites a table that declares constraints or defaults;
* `idle_iff_settled` — in a history of appends and calls, a call right after
  another one finds nothing to do exactly when the one before it neither met an
  empty table nor sorted a tail.
-/

namespace RawDuck

variable {engine : SqlEngine} {usage : List (Bytes × RawColumnUsage)} {target : OptimizeTarget}

/-! ## the choice of a mode -/

/-- The counts say that the table was only appended to since the last call. -/
def AppendedTo (lastCount : Nat) (rows : RowStore (List Cell)) : Prop :=
  0 < lastCount ∧ rows.Contiguous ∧ lastCount ≤ rows.rows.length

theorem optimizeMode_noop_iff {lastCount : Nat} {rows : RowStore (List Cell)} :
    optimizeMode lastCount rows = .noop ↔
      AppendedTo lastCount rows ∧ rows.rows.length = lastCount := by
  unfold optimizeMode AppendedTo RowStore.Contiguous
  grind

theorem optimizeMode_incremental_iff {lastCount : Nat} {rows : RowStore (List Cell)} :
    optimizeMode lastCount rows = .incremental ↔
      AppendedTo lastCount rows ∧ lastCount < rows.rows.length := by
  unfold optimizeMode AppendedTo RowStore.Contiguous
  grind

theorem optimizeMode_full_iff {lastCount : Nat} {rows : RowStore (List Cell)} :
    optimizeMode lastCount rows = .full ↔ ¬AppendedTo lastCount rows := by
  unfold optimizeMode AppendedTo RowStore.Contiguous
  grind

/-! ## what a call keeps -/

/-- The tables differ in the order of their rows at most. -/
structure OnlyReordered (t t' : BaseTable) : Prop where
  rows : t'.rows.values.Perm t.rows.values
  columns : t'.columns.map (fun c => (c.name, c.type)) = t.columns.map fun c => (c.name, c.type)
  defaults : t'.columns.map DeclaredColumn.default = t.columns.map DeclaredColumn.default
  constraints : t'.constraints = t.constraints

/-- The table declares more than the names and types of its columns. -/
def BaseTable.Declares (t : BaseTable) : Prop :=
  t.constraints ≠ [] ∨ ∃ c ∈ t.columns, c.default ≠ none

theorem OnlyReordered.refl (t : BaseTable) : OnlyReordered t t := ⟨.refl _, rfl, rfl, rfl⟩

/-- Rows that are deleted and inserted again are the same rows. -/
theorem onlyReordered_sortTail (t : BaseTable) (n : Nat) (orderBy : Bytes) :
    OnlyReordered t ((t.deleteFrom n).insert (engine.sorted orderBy (t.rows.valuesFrom n))) where
  rows := by
    show ((t.rows.deleteFrom n).append _).values.Perm _
    rw [RowStore.values_append]
    exact ((engine.sorted_perm _ _).append_left _).trans (t.rows.perm_values n)
  columns := rfl
  defaults := rfl
  constraints := rfl

/-- A rewritten table has its rows and columns, and nothing that was declared. -/
theorem onlyReordered_rewrite_iff (t : BaseTable) (orderBy : Bytes) :
    OnlyReordered t (t.createAs (engine.sorted orderBy t.rows.values)) ↔ ¬t.Declares := by
  have hrows : (t.createAs (engine.sorted orderBy t.rows.values)).rows.values.Perm
      t.rows.values := by
    show (RowStore.empty.append _).values.Perm _
    rw [RowStore.values_append, RowStore.values_empty, List.nil_append]
    exact engine.sorted_perm _ _
  constructor
  · intro h
    simp only [BaseTable.Declares, not_or, not_not, not_exists, not_and]
    refine ⟨h.constraints.symm, fun c hc => ?_⟩
    have hdefaults : t.columns.map (fun _ => (none : Option Bytes)) =
        t.columns.map DeclaredColumn.default := by
      simpa [BaseTable.createAs, Function.comp_def] using h.defaults
    exact (List.map_inj_left.mp hdefaults c hc).symm
  · intro h
    simp only [BaseTable.Declares, not_or, not_not, not_exists, not_and] at h
    obtain ⟨hconstraints, hdefaults⟩ := h
    refine ⟨hrows, ?_, ?_, hconstraints.symm⟩
    · simp [BaseTable.createAs, Function.comp_def]
    · simp only [BaseTable.createAs, List.map_map]
      exact List.map_congr_left fun c hc => (hdefaults c hc).symm

/-- A call changed the order of the rows of its table and nothing else. -/
def Keeps (target : OptimizeTarget) (db db' : OptimizeDb) : Prop :=
  (∃ t t', db.tables (lower target.name) = some t ∧ db'.tables (lower target.name) = some t' ∧
    OnlyReordered t t') ∧
  ∀ other, other ≠ lower target.name → db'.tables other = db.tables other

/-- A call that would rewrite a table which declares something: columns were
observed, and the counts do not say that the table was only appended to. -/
def RewritesDeclared (usage : List (Bytes × RawColumnUsage)) (target : OptimizeTarget)
    (db : OptimizeDb) : Prop :=
  rankColumns usage ≠ [] ∧ ∃ t, db.tables (lower target.name) = some t ∧ t.Declares ∧
    ¬AppendedTo (db.lastCount target.key (orderByText (rankColumns usage))) t.rows

/-- The table in the place of another one differs from it in the order of rows. -/
theorem keeps_replace_iff {db : OptimizeDb} {t t' : BaseTable}
    (ht : db.tables (lower target.name) = some t) {key orderBy : Bytes} {rowCount : Nat} :
    Keeps target db ((db.replace target.name t').note key orderBy rowCount) ↔
      OnlyReordered t t' := by
  have hself : ((db.replace target.name t').note key orderBy rowCount).tables
      (lower target.name) = some t' := Tables.set_lower
  constructor
  · intro ⟨⟨u, u', hu, hu', h⟩, _⟩
    rw [ht, Option.some.injEq] at hu
    rw [hself, Option.some.injEq] at hu'
    rw [hu, hu']
    exact h
  · intro h
    exact ⟨⟨t, t', ht, hself, h⟩, fun other hother => Tables.set_of_ne hother⟩

theorem onlyReordered_optimizedTable_iff (t : BaseTable) (orderBy : Bytes) (lastCount : Nat)
    (mode : OptimizeMode) :
    OnlyReordered t (optimizedTable engine orderBy lastCount t mode) ↔
      ¬(mode = .full ∧ t.Declares) := by
  cases mode with
  | noop => simp [optimizedTable, OnlyReordered.refl]
  | incremental => simp [optimizedTable, onlyReordered_sortTail]
  | full => simp [optimizedTable, onlyReordered_rewrite_iff]

/-- A call on this state returns mode `noop` and moves no row. -/
def FindsNothing (engine : SqlEngine) (usage : List (Bytes × RawColumnUsage))
    (target : OptimizeTarget) (db : OptimizeDb) : Prop :=
  ∃ result db', rawOptimize engine usage target db = .ok result db' ∧ result.mode = .noop ∧
    result.rows = 0 ∧ db'.tables = db.tables

/-- A state from which a call leaves nothing to do: no column was observed, or
the table has rows and is not one whose tail is to be sorted. -/
def SettledFor (usage : List (Bytes × RawColumnUsage)) (target : OptimizeTarget) (db : OptimizeDb) :
    Prop :=
  rankColumns usage = [] ∨ ∃ t, db.tables (lower target.name) = some t ∧ t.rows.rows ≠ [] ∧
    ¬(AppendedTo (db.lastCount target.key (orderByText (rankColumns usage))) t.rows ∧
      db.lastCount target.key (orderByText (rankColumns usage)) < t.rows.rows.length)

@[simp] theorem lastCount_note (db : OptimizeDb) (key orderBy : Bytes) (rowCount : Nat) :
    (db.note key orderBy rowCount).lastCount key orderBy = rowCount := by
  simp [OptimizeDb.note, OptimizeDb.lastCount]

theorem findsNothing_iff {db : OptimizeDb} {t : BaseTable}
    (ht : db.tables (lower target.name) = some t) (hranked : rankColumns usage ≠ []) :
    FindsNothing engine usage target db ↔
      optimizeMode (db.lastCount target.key (orderByText (rankColumns usage))) t.rows = .noop := by
  constructor
  · intro ⟨result, db', h, hnoop, _⟩
    obtain ⟨u, hu, houtcome⟩ := rawOptimize_outcome h
    rw [ht, Option.some.injEq] at hu
    subst hu
    cases houtcome with
    | unranked hnone => contradiction
    | ranked _ horderBy hlast hmode =>
        subst horderBy hlast hmode
        exact hnoop
  · intro hmode
    exact ⟨_, _, rawOptimize_noop ht hranked rfl hmode, rfl, rfl, rfl⟩

/-- Rows that were rewritten are settled when there are any. -/
theorem optimizeMode_createAs_iff (t : BaseTable) (orderBy : Bytes) :
    optimizeMode t.rows.rows.length
        (t.createAs (engine.sorted orderBy t.rows.values)).rows = .noop ↔ t.rows.rows ≠ [] := by
  have hlength : (t.createAs (engine.sorted orderBy t.rows.values)).rows.rows.length =
      t.rows.rows.length := by
    show (RowStore.empty.append _).rows.length = _
    rw [RowStore.length_append, (engine.sorted_perm _ _).length_eq]
    simp [RowStore.values, RowStore.empty]
  rw [optimizeMode_noop_iff, hlength]
  have hcontiguous : (t.createAs (engine.sorted orderBy t.rows.values)).rows.Contiguous :=
    RowStore.contiguous_of_empty _
  simp [AppendedTo, hcontiguous, hlength, List.length_pos_iff]

/-- A sorted tail leaves the table with unused rowids. -/
theorem not_appendedTo_sortTail {t : BaseTable} {lastCount : Nat} (orderBy : Bytes)
    (h : AppendedTo lastCount t.rows ∧ lastCount < t.rows.rows.length) (n : Nat) :
    ¬AppendedTo n ((t.deleteFrom lastCount).insert
      (engine.sorted orderBy (t.rows.valuesFrom lastCount))).rows := by
  intro ⟨_, hcontiguous, _⟩
  have hend : lastCount < t.rows.endId := h.1.2.1 ▸ h.2
  have hlength := (engine.sorted_perm orderBy (t.rows.valuesFrom lastCount)).length_eq
  apply RowStore.not_contiguous_append hlength _ hcontiguous
  intro hnil
  rw [hnil] at hlength
  exact RowStore.valuesFrom_ne_nil hend (List.length_eq_zero_iff.mp hlength.symm)

/-- **The step lemma**: after a call that returned, the next one finds nothing to
do exactly when the state before was settled. -/
theorem findsNothing_after_iff {db db' : OptimizeDb} {result : RawOptimizeResult}
    (h : rawOptimize engine usage target db = .ok result db') :
    FindsNothing engine usage target db' ↔ SettledFor usage target db := by
  obtain ⟨t, ht, houtcome⟩ := rawOptimize_outcome h
  cases houtcome with
  | unranked hranked =>
      have hfinds : FindsNothing engine usage target db :=
        ⟨_, _, rawOptimize_unranked ht hranked, rfl, rfl, rfl⟩
      simp [hfinds, SettledFor, hranked]
  | @ranked orderBy lastCount mode hranked horderBy hlast hmode =>
      have hsettled : SettledFor usage target db ↔
          t.rows.rows ≠ [] ∧ ¬(AppendedTo lastCount t.rows ∧ lastCount < t.rows.rows.length) := by
        rw [SettledFor, ← horderBy, ← hlast, or_iff_right hranked]
        constructor
        · intro ⟨u, hu, hrest⟩
          rw [ht, Option.some.injEq] at hu
          exact hu ▸ hrest
        · intro hrest
          exact ⟨t, ht, hrest⟩
      rw [findsNothing_iff (t := optimizedTable engine orderBy lastCount t mode)
        Tables.set_lower hranked, ← horderBy, lastCount_note, hsettled]
      cases hm : mode with
      | noop =>
          obtain ⟨happended, hcount⟩ := optimizeMode_noop_iff.mp (hmode.symm.trans hm)
          have hne : t.rows.rows ≠ [] := by
            apply List.ne_nil_of_length_pos
            rw [hcount]
            exact happended.1
          rw [optimizedTable, optimizeMode_noop_iff]
          simp [hne, hcount, happended]
      | incremental =>
          have htail := optimizeMode_incremental_iff.mp (hmode.symm.trans hm)
          rw [optimizedTable, optimizeMode_noop_iff]
          simp [htail, not_appendedTo_sortTail orderBy htail]
      | full =>
          have hnot := optimizeMode_full_iff.mp (hmode.symm.trans hm)
          rw [optimizedTable, optimizeMode_createAs_iff]
          simp [hnot]

/-! ## histories -/

/-- What happens to a table in a history: at least one row is appended, or
`raw_optimize` is called. -/
inductive OptimizeEvent where
  | append (row : List Cell) (rows : List (List Cell))
  | optimize

/-- Rows that are committed to the table of a target. -/
def OptimizeDb.appendRows (db : OptimizeDb) (table : Bytes) (rows : List (List Cell)) :
    OptimizeDb :=
  match db.tables (lower table) with
  | some t => db.replace table (t.insert rows)
  | none => db

/-- The state after an event. -/
def OptimizeDb.after (engine : SqlEngine) (usage : List (Bytes × RawColumnUsage))
    (target : OptimizeTarget) (db : OptimizeDb) : OptimizeEvent → OptimizeDb
  | .append row rows => db.appendRows target.name (row :: rows)
  | .optimize =>
      match rawOptimize engine usage target db with
      | .ok _ db' => db'
      | .error _ db' => db'

/-- Something holds in each state of a history from which a call returns and is
followed by another call. -/
def AtRepeats (engine : SqlEngine) (usage : List (Bytes × RawColumnUsage))
    (target : OptimizeTarget) (p : OptimizeDb → Prop) : OptimizeDb → List OptimizeEvent → Prop
  | db, .optimize :: .optimize :: rest =>
      (∀ result db', rawOptimize engine usage target db = .ok result db' → p db) ∧
        AtRepeats engine usage target p (db.after engine usage target .optimize)
          (.optimize :: rest)
  | db, event :: rest => AtRepeats engine usage target p (db.after engine usage target event) rest
  | _, [] => True

/-- Every call that follows another one at once finds nothing to do. -/
def Idle (engine : SqlEngine) (usage : List (Bytes × RawColumnUsage)) (target : OptimizeTarget) :
    OptimizeDb → List OptimizeEvent → Prop :=
  AtRepeats engine usage target fun db =>
    FindsNothing engine usage target (db.after engine usage target .optimize)

/-- Where two properties agree before each call that returns, they agree
throughout a history. -/
theorem atRepeats_congr {p q : OptimizeDb → Prop}
    (h : ∀ db result db', rawOptimize engine usage target db = .ok result db' → (p db ↔ q db))
    (history : List OptimizeEvent) (db : OptimizeDb) :
    AtRepeats engine usage target p db history ↔ AtRepeats engine usage target q db history := by
  fun_induction AtRepeats engine usage target p db history with
  | case1 db rest ih =>
      rw [AtRepeats, ih]
      apply and_congr_left'
      constructor
      · intro hp result db' hok
        exact (h db result db' hok).mp (hp result db' hok)
      · intro hq result db' hok
        exact (h db result db' hok).mpr (hq result db' hok)
  | case2 db event rest hno ih =>
      rw [AtRepeats, ih]
      exact hno
  | case3 db => rfl

/-- An engine that refuses nothing and sorts rows by nothing. -/
def plainEngine : SqlEngine where
  sorted _ rows := rows
  sorted_perm _ _ := .refl _
  check _ _ := .ok ()
  checkCommit _ := .ok ()
  notFound table := { kind := .other, message := table }
  taken table := { kind := .other, message := table }

/-- The queries filtered by `k`. -/
def keyUsage : List (Bytes × RawColumnUsage) := [(bytes "k", { filters := 1, groups := 0 })]

/-- The table `memory.main.t`. -/
def smallTarget : OptimizeTarget where
  argument := bytes "t"
  catalog := bytes "memory"
  schema := bytes "main"
  name := bytes "t"

/-- `CREATE TABLE t (k BIGINT NOT NULL)` with one row. -/
def declaredTable : BaseTable where
  columns := [{ name := bytes "k", type := LogicalType.BIGINT, default := none }]
  constraints := [bytes "NOT NULL(k)"]
  rows := RowStore.empty.append [[.bigint 1]]

/-- The database that holds it, with nothing noted. -/
def declaredDb : OptimizeDb where
  tables := fun name => if name = bytes "t" then some declaredTable else none
  optimized := fun _ => none

end RawDuck
