import RawDuck.Ingestor

/-!
# RawDuck.Accept

What a native table makes of a payload, as a function of the table, the shape
cache and the payload: the schema step, then the rows.

* `ingestedTable` — the table after an ingest, or the error of the first part
  that refuses the payload;
* `rawIngestParsedPayload_agrees` — the ingestor computes it.
-/

namespace RawDuck

open Fallible

variable (env : NativeEnv) (parsed : RawParsedPayload)

/-- The table after the schema step of a payload. -/
def readyTable (db : Db) : Except RawError Table :=
  match db.table with
  | none => createNative env.catalog parsed.columns
  | some (token, table) => do
      let shape ← hashPayloadShape env.duck parsed.columns
      if isAbsorbed db.cache token shape then return table
      else do
        let evolved ← evolveNative env.duck env.catalog table parsed.columns
        return evolved.table

/-- The direct append of the rows of a payload. -/
def appendedDirectly (table : Table) : Except RawError Table :=
  if table.hasGenerated then .error generatedColumnsError
  else do
    let _ ← hashPayloadShape env.duck parsed.columns
    let layout ← resolveAppendLayout table parsed.columns
    appendBlocks env.duck env.catalog layout parsed table

/-- The append of the rows of a payload by a pool of its own. -/
def appendedByPool (table : Table) : Except RawError Table := do
  let rows ← drainPool env { columns := table.columns, queue := [parsed] }
  return { table with rows := table.rows ++ rows }

/-- The table with the rows of a payload. -/
def appendedTable (table : Table) : Except RawError Table :=
  if parsed.payload.rows.isEmpty then .ok table
  else if poolEligible env table parsed then appendedByPool env parsed table
  else appendedDirectly env parsed table

/-- The table after the ingest of a payload. -/
def ingestedTable (db : Db) : Except RawError Table :=
  if parsed.columns.isEmpty then
    match db.table with
    | none => .error (emptyPayloadError env)
    | some (_, table) => .ok table
  else do
    let table ← readyTable env parsed db
    appendedTable env parsed table

/-- The database after the schema step of a payload. -/
def SchemaReady (db ready : Db) : Prop :=
  ∃ created added widened, SchemaOutcome env parsed db ready created added widened

/-- The schema step leaves the table that `readyTable` says. -/
theorem SchemaReady.readyTable {env : NativeEnv} {parsed : RawParsedPayload} {db ready : Db}
    (h : SchemaReady env parsed db ready) :
    ∃ token table, ready.table = some (token, table) ∧ readyTable env parsed db = .ok table := by
  obtain ⟨created, added, widened, houtcome⟩ := h
  unfold RawDuck.readyTable
  cases houtcome with
  | @created table hnone hcreate =>
      rw [hnone]
      exact ⟨_, _, rfl, hcreate⟩
  | absorbed htable hshape hhit =>
      rw [htable]
      exact ⟨_, _, rfl, bind_eq_ok.mpr ⟨_, hshape, by rw [if_pos hhit]; rfl⟩⟩
  | @evolved token token' table shape evolved htable hshape hmiss hev htoken =>
      rw [htable]
      refine ⟨token', evolved.table, htoken, bind_eq_ok.mpr ⟨_, hshape, ?_⟩⟩
      rw [if_neg (Bool.eq_false_iff.mp hmiss)]
      exact bind_eq_ok.mpr ⟨_, hev, rfl⟩

/-! ## the schema step -/

section Run

variable {env} {parsed} {s : IngestState} {token : Nat} {table : Table} {e : RawError}

/-- Without a pool, a schema step that DuckDB refuses changes nothing. -/
theorem schemaStep_refused (hpool : s.pool = none) (htable : s.db.table = some (token, table))
    (hev : evolveNative env.duck env.catalog table parsed.columns = .error e) :
    schemaStep env token table parsed s = .error e s := by
  have hdrain : drainForWidening env token table (computeWidens table.columns parsed.columns) s =
      .ok ⟨⟩ s := by
    refine (run_bind_of_ok run_get).trans ?_
    simp only [hpool]
    rfl
  have hcurrent : evolveCurrent env parsed s = .error e s := by
    refine (run_bind_of_ok run_get).trans ?_
    simp only [htable]
    exact run_bind_of_error (run_fromExcept_of_error hev)
  exact (run_bind_of_ok hdrain).trans (run_bind_of_error hcurrent)

/-- A payload with columns that finds no table. -/
theorem ingestNative_create (htable : s.db.table = none) (hcols : parsed.columns ≠ []) :
    ingestNative env parsed s = (createTable env parsed >>= fun _ => appendRows env parsed)
      s.lookedUp := by
  have hempty : parsed.columns.isEmpty = false := by simpa using hcols
  refine (run_bind_of_ok (lookupTableCached_eq s)).trans ?_
  simp only [htable, legacyIngestNative, hempty, Bool.and_false, Bool.false_eq_true, if_false]

/-- A payload with columns that finds its table. -/
theorem ingestNative_found (htable : s.db.table = some (token, table))
    (hcols : parsed.columns ≠ []) {shape : UInt64}
    (hshape : hashPayloadShape env.duck parsed.columns = .ok shape) :
    ingestNative env parsed s =
      (if isAbsorbed s.db.cache token shape then appendRows env parsed
        else do
          absorb env token table shape parsed
          appendRows env parsed : Ingest Unit) s.lookedUp := by
  have hempty : parsed.columns.isEmpty = false := by simpa using hcols
  refine (run_bind_of_ok (lookupTableCached_eq s)).trans ?_
  simp only [htable, hempty, Bool.false_eq_true, if_false]
  refine (run_bind_of_ok (run_fromExcept_of_ok hshape)).trans ?_
  refine (run_bind_of_ok run_get).trans ?_
  rw [lookedUp_db]

/-- **The schema part of a batch** with columns, in an ingestor without a pool:
it is refused and the database is as before, or the table is ready for the
rows. -/
theorem ingestNative_ready (hpool : s.pool = none) (hcols : parsed.columns ≠ []) :
    (∃ e t, readyTable env parsed s.db = .error e ∧ ingestNative env parsed s = .error e t ∧
      t.db = s.db) ∨
    (∃ ready created added widened u, SchemaOutcome env parsed s.db ready created added widened ∧
      ingestNative env parsed s = appendRows env parsed u ∧
      Ready s u ready created added widened) := by
  have hready := Ready.lookedUp s hpool
  unfold readyTable
  cases htable : s.db.table with
  | none =>
      rw [ingestNative_create htable hcols]
      cases hcreate : createNative env.catalog parsed.columns with
      | error e =>
          refine .inl ⟨e, s.lookedUp, rfl, run_bind_of_error ?_, lookedUp_db s⟩
          exact run_bind_of_error (run_fromExcept_of_error hcreate)
      | ok table =>
          refine .inr ⟨_, _, _, _, _, .created htable hcreate, run_bind_of_ok (a := ⟨⟩) ?_,
            hready.created table parsed.columns.length⟩
          exact run_bind_of_ok (run_fromExcept_of_ok hcreate)
  | some entry =>
      obtain ⟨token, table⟩ := entry
      dsimp only
      cases hshape : hashPayloadShape env.duck parsed.columns with
      | error e =>
          have hempty : parsed.columns.isEmpty = false := by simpa using hcols
          refine .inl ⟨e, s.lookedUp, rfl, ?_, lookedUp_db s⟩
          refine (run_bind_of_ok (lookupTableCached_eq s)).trans ?_
          simp only [htable, hempty, Bool.false_eq_true, if_false]
          exact run_bind_of_error (run_fromExcept_of_error hshape)
      | ok shape =>
          rw [ingestNative_found htable hcols hshape]
          cases hhit : isAbsorbed s.db.cache token shape with
          | true => exact .inr ⟨_, _, _, _, _, .absorbed htable hshape hhit, rfl, hready⟩
          | false =>
              cases hev : evolveNative env.duck env.catalog table parsed.columns with
              | error e =>
                  refine .inl ⟨e, s.lookedUp, by simp [bind, Except.bind, hhit], ?_, lookedUp_db s⟩
                  refine run_bind_of_error (run_bind_of_error (schemaStep_refused ?_ ?_ hev))
                  · rw [lookedUp_pool, hpool]
                  · rw [lookedUp_db, htable]
              | ok evolved =>
                  obtain ⟨u, hrun, hready⟩ :=
                    ingestNative_miss hpool htable hcols hshape hhit hev rfl
                  rw [ingestNative_found htable hcols hshape, hhit] at hrun
                  exact .inr ⟨_, _, _, _, u, .evolved htable hshape hhit hev rfl, hrun, hready⟩

/-! ## the rows -/

/-- The computation leaves the table `y` says under this token, and no pool; or
it raises the error `y` says and leaves the database alone. -/
def EndsWith (x : Ingest Unit) (s : IngestState) (token : Nat) : Except RawError Table → Prop
  | .error e => ∃ t, x s = .error e t ∧ t.db = s.db
  | .ok table => ∃ t, x s = .ok ⟨⟩ t ∧ t.db = { s.db with table := some (token, table) } ∧
      t.pool = none

/-- Without a last layout, the direct append is `appendedDirectly`. -/
theorem appendNative_ends (hpool : s.pool = none) (hlayout : s.appendLayout.layout.slotOf = []) :
    EndsWith (appendNative env token table parsed) s token
      (appendedDirectly env parsed table) := by
  unfold appendedDirectly appendNative
  cases hgen : table.hasGenerated with
  | true => exact ⟨s, rfl, rfl⟩
  | false =>
      simp only [Bool.false_eq_true, if_false]
      cases hshape : hashPayloadShape env.duck parsed.columns with
      | error e =>
          refine ⟨s, ?_, rfl⟩
          exact run_bind_of_error (run_bind_of_error (run_fromExcept_of_error hshape))
      | ok shape =>
          cases hresolve : resolveAppendLayout table parsed.columns with
          | error e =>
              refine ⟨s, run_bind_of_error ?_, rfl⟩
              refine (run_bind_of_ok (run_fromExcept_of_ok hshape)).trans ?_
              refine (run_bind_of_ok run_get).trans ?_
              rw [if_neg fun h => h.2.2 hlayout]
              exact run_bind_of_error (run_fromExcept_of_error hresolve)
          | ok layout =>
              have hrun : resolveLayout env token table parsed s = .ok layout { s with
                  appendLayout := { storageToken := some token, shape, layout } } := by
                refine (run_bind_of_ok (run_fromExcept_of_ok hshape)).trans ?_
                refine (run_bind_of_ok run_get).trans ?_
                rw [if_neg fun h => h.2.2 hlayout]
                exact run_bind_of_ok (run_fromExcept_of_ok hresolve)
              change EndsWith _ s token (appendBlocks env.duck env.catalog layout parsed table)
              cases happend : appendBlocks env.duck env.catalog layout parsed table with
              | error e =>
                  refine ⟨_, (run_bind_of_ok hrun).trans
                    (run_bind_of_error (run_fromExcept_of_error happend)), rfl⟩
              | ok table' =>
                  exact ⟨_, (run_bind_of_ok hrun).trans
                    (run_bind_of_ok (run_fromExcept_of_ok happend)), rfl, hpool⟩

/-- A batch that is large enough opens a pool, which takes it. -/
theorem submitOrAppend_pooled (hpool : s.pool = none) (hrows : parsed.payload.rows.isEmpty = false)
    (helig : poolEligible env table parsed = true) :
    submitOrAppend env token table parsed s =
      .ok ⟨⟩ { s with pool := some { columns := table.columns, queue := [parsed] } } := by
  have hensure : ensurePool env table parsed s =
      .ok ⟨⟩ { s with pool := some { columns := table.columns, queue := [] } } := by
    refine (run_bind_of_ok run_get).trans ?_
    simp only [hpool, hrows, helig, Option.isSome_none, Bool.false_or, Bool.not_true,
      Bool.false_eq_true, if_false]
    rfl
  exact (run_bind_of_ok hensure).trans (run_bind_of_ok run_get)

/-- Any other batch is appended directly. -/
theorem submitOrAppend_direct (hpool : s.pool = none)
    (helig : poolEligible env table parsed = false) :
    submitOrAppend env token table parsed s = appendNative env token table parsed s := by
  have hensure : ensurePool env table parsed s = .ok ⟨⟩ s := by
    refine (run_bind_of_ok run_get).trans ?_
    simp only [hpool, helig, Bool.not_false, Bool.or_true, if_true]
    rfl
  refine (run_bind_of_ok hensure).trans ((run_bind_of_ok run_get).trans ?_)
  rw [hpool]

/-- With a pool over the table of the database, the finish is its drain. -/
theorem finish_ends {pool : Pool} (hpool : s.pool = some pool)
    (htable : s.db.table = some (token, table)) :
    EndsWith (finish env) s token (do
      let rows ← drainPool env pool
      return { table with rows := table.rows ++ rows }) := by
  have hrun : finish env s = drainIntoTable env pool token table s := by
    refine (run_bind_of_ok run_get).trans ?_
    rw [hpool]
    dsimp only
    rw [htable]
  cases hdrain : drainPool env pool with
  | error e => exact ⟨s, hrun.trans (run_bind_of_error (run_fromExcept_of_error hdrain)), rfl⟩
  | ok rows => exact ⟨_, hrun.trans (run_bind_of_ok (run_fromExcept_of_ok hdrain)), rfl, rfl⟩

theorem finish_without_pool (hpool : s.pool = none) : finish env s = .ok ⟨⟩ s := by
  refine (run_bind_of_ok run_get).trans ?_
  rw [hpool]
  rfl

/-- What ends a computation ends it behind a step that keeps the database. -/
theorem EndsWith.after {x : Ingest Unit} {t : IngestState} {y : Except RawError Table}
    (h : EndsWith x t token y) {f : Unit → Ingest Unit} {z : Ingest Unit} (hdb : t.db = s.db)
    (hrun : (z >>= f) s = x t) : EndsWith (z >>= f) s token y := by
  cases y with
  | error e =>
      obtain ⟨u, hu, hudb⟩ := h
      exact ⟨u, hrun.trans hu, hudb.trans hdb⟩
  | ok table =>
      obtain ⟨u, hu, hudb, hpool⟩ := h
      exact ⟨u, hrun.trans hu, hdb ▸ hudb, hpool⟩

/-- What ends a computation without a pool still does when it is finished. -/
theorem EndsWith.finish {x : Ingest Unit} {y : Except RawError Table} (h : EndsWith x s token y) :
    EndsWith (x >>= fun _ => RawDuck.finish env) s token y := by
  cases y with
  | error e =>
      obtain ⟨t, ht, hdb⟩ := h
      exact ⟨t, run_bind_of_error ht, hdb⟩
  | ok table =>
      obtain ⟨t, ht, hdb, hpool⟩ := h
      exact ⟨t, (run_bind_of_ok ht).trans (finish_without_pool hpool), hdb, hpool⟩

/-- The rows of a batch with its finish, in an ingestor without a pool and
without a last layout, are `appendedTable`. -/
theorem appendRows_ends (hpool : s.pool = none) (hlayout : s.appendLayout.layout.slotOf = [])
    (htable : s.db.table = some (token, table)) :
    EndsWith (appendRows env parsed >>= fun _ => finish env) s token
      (appendedTable env parsed table) := by
  unfold appendedTable
  cases hrows : parsed.payload.rows.isEmpty with
  | true =>
      have hrun : appendRows env parsed s = .ok ⟨⟩ s := by
        rw [appendRows, hrows]
        rfl
      exact ⟨s, (run_bind_of_ok hrun).trans (finish_without_pool hpool), by rw [← htable], hpool⟩
  | false =>
      simp only [Bool.false_eq_true, if_false]
      have hpool' : s.lookedUp.pool = none := (lookedUp_pool s).trans hpool
      have hsubmit : appendRows env parsed s =
          submitOrAppend env token table parsed s.lookedUp := by
        rw [appendRows, hrows]
        refine (run_bind_of_ok (lookupTableCached_eq s)).trans ?_
        rw [htable]
      cases helig : poolEligible env table parsed with
      | true =>
          rw [submitOrAppend_pooled hpool' hrows helig] at hsubmit
          have hend : EndsWith (finish env) { s.lookedUp with
              pool := some { columns := table.columns, queue := [parsed] } } token
              (appendedByPool env parsed table) :=
            finish_ends rfl ((congrArg Db.table (lookedUp_db s)).trans htable)
          exact hend.after (lookedUp_db s) (run_bind_of_ok hsubmit)
      | false =>
          rw [submitOrAppend_direct hpool' helig] at hsubmit
          have hend : EndsWith (appendNative env token table parsed >>= fun _ => finish env)
              s.lookedUp token (appendedDirectly env parsed table) :=
            (appendNative_ends hpool' ((lookedUp_layout s) ▸ hlayout)).finish
          exact hend.after (lookedUp_db s) (run_bind_congr hsubmit)

end Run

/-! ## one ingest -/

/-- The result of an ingest from `db` is what the function of the table says;
the database it leaves has the storage token and the cache of a schema step, or
is the one before. -/
inductive Agrees (db : Db) :
    EStateM.Result RawError Db RawIngestStats → Except RawError Table → Prop where
  | skipped {stats : RawIngestStats} {token : Nat} {table : Table} : parsed.columns = [] →
      db.table = some (token, table) → Agrees db (.ok stats db) (.ok table)
  | stored {stats : RawIngestStats} {ready : Db} {token : Nat} {table table' : Table} :
      parsed.columns ≠ [] → SchemaReady env parsed db ready → ready.table = some (token, table) →
      appendedTable env parsed table = .ok table' →
      Agrees db (.ok stats { ready with table := some (token, table') }) (.ok table')
  | refused {e : RawError} : Agrees db (.error e db) (.error e)
  | rowsRefused {e : RawError} {ready : Db} : SchemaReady env parsed db ready →
      Agrees db (.error e ready) (.error e)

variable {env} {parsed}

/-- A payload without columns leaves its table alone, and needs one. -/
theorem ingestNative_skip {s : IngestState} (hcols : parsed.columns = []) :
    ingestNative env parsed s =
      match s.db.table with
      | none => .error (emptyPayloadError env) s.lookedUp
      | some _ => .ok ⟨⟩ s.lookedUp := by
  refine (run_bind_of_ok (lookupTableCached_eq s)).trans ?_
  cases htable : s.db.table with
  | none => simp only [legacyIngestNative, hcols]; rfl
  | some entry => simp only [legacyIngestNative, hcols]; rfl

/-- **One ingest** through an ingestor of its own computes `ingestedTable`. -/
theorem rawIngestParsedPayload_agrees (db : Db) :
    Agrees env parsed db (rawIngestParsedPayload env parsed db) (ingestedTable env parsed db) := by
  let start : IngestState :=
    { IngestState.start db with errors := 0 + parsed.payload.parseErrors }
  have hrun : (do ingestParsed env parsed; finish env : Ingest Unit) (IngestState.start db) =
      (do ingestNative env parsed; finish env : Ingest Unit) start :=
    run_bind_congr (run_bind_of_ok run_modify)
  rw [rawIngestParsedPayload, hrun]
  unfold ingestedTable
  by_cases hcols : parsed.columns = []
  · simp only [hcols, List.isEmpty_nil, if_true]
    have hskip : ingestNative env parsed start = _ := ingestNative_skip hcols
    have hdb : start.lookedUp.db = db := lookedUp_db start
    cases htable : db.table with
    | none =>
        have herror : ingestNative env parsed start = .error (emptyPayloadError env)
            start.lookedUp := by
          rw [hskip]
          simp only [start, IngestState.start, htable]
        rw [run_bind_of_error herror]
        dsimp only
        rw [hdb]
        exact .refused
    | some entry =>
        obtain ⟨token, table⟩ := entry
        have hok : ingestNative env parsed start = .ok ⟨⟩ start.lookedUp := by
          rw [hskip]
          simp only [start, IngestState.start, htable]
        rw [run_bind_of_ok hok, finish_without_pool (lookedUp_pool start)]
        dsimp only
        rw [hdb]
        exact .skipped hcols htable
  · have hempty : parsed.columns.isEmpty = false := by simpa using hcols
    simp only [hempty, Bool.false_eq_true, if_false]
    rcases ingestNative_ready (s := start) rfl hcols with
      ⟨e, t, hrefused, hingest, hdb⟩ | ⟨ready, created, added, widened, u, houtcome, hingest, hu⟩
    · rw [run_bind_of_error hingest]
      change readyTable env parsed db = .error e at hrefused
      dsimp only
      rw [hrefused, hdb]
      exact .refused
    · have hschema : SchemaReady env parsed db ready := ⟨created, added, widened, houtcome⟩
      obtain ⟨token, table, htable, hready⟩ := hschema.readyTable
      have hlayout : u.appendLayout.layout.slotOf = [] := by
        rcases hu.layout_eq with h | h <;> rw [h] <;> rfl
      have hend : EndsWith (appendRows env parsed >>= fun _ => finish env) u token
          (appendedTable env parsed table) :=
        appendRows_ends hu.pool_eq hlayout (hu.db_eq ▸ htable)
      rw [run_bind_congr hingest, hready]
      change Agrees env parsed db _ (appendedTable env parsed table)
      cases happend : appendedTable env parsed table with
      | error e =>
          rw [happend] at hend
          obtain ⟨t, ht, hdb⟩ := hend
          rw [ht]
          dsimp only
          rw [hdb, hu.db_eq]
          exact .rowsRefused hschema
      | ok table' =>
          rw [happend] at hend
          obtain ⟨t, ht, hdb, -⟩ := hend
          rw [ht]
          dsimp only
          rw [hdb, hu.db_eq]
          exact .stored hcols hschema htable happend

end RawDuck
