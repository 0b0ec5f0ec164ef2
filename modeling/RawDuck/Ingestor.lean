import RawDuck.Append

/-!
# RawDuck.Ingestor

The native path of `RawIngestor`: the shape cache, the schema step, the append
pool and the append, for the batches of one ingestor.

A raised computation keeps its state: the shape cache and the storage tokens
handed out outlive the transaction that is rolled back (`Db.rollback`).

* `ingestNative` — one batch, with its three routes: an absorbed shape, a
  schema step, and `legacyIngestNative` for new tables and column-less
  payloads;
* `rawIngestParsedPayload` — one batch through an ingestor of its own.
-/

namespace RawDuck

open Fallible

/-! ## the database as one target sees it -/

/-- `RawSchemaCache::Entry`. -/
structure CacheEntry where
  storageToken : Nat
  absorbedShapes : List UInt64
  deriving DecidableEq, Repr

/-- What the ingests into one target share: the table under its storage token
(the address of its `DataTable`), the tokens handed out, and the shape cache. -/
structure Db where
  table : Option (Nat × Table)
  nextToken : Nat
  cache : Option CacheEntry

/-- A rollback restores the table and nothing else. -/
def Db.rollback (before now : Db) : Db := { now with table := before.table }

/-- The shape is known to be absorbed by the table under this token. -/
def isAbsorbed (cache : Option CacheEntry) (token : Nat) (shape : UInt64) : Bool :=
  match cache with
  | some entry => entry.storageToken == token && entry.absorbedShapes.contains shape
  | none => false

/-- Records an absorbed shape; a new token starts the set over. -/
def absorbShape (cache : Option CacheEntry) (token : Nat) (shape : UInt64) : CacheEntry :=
  match cache with
  | some entry =>
      if entry.storageToken == token then
        { entry with absorbedShapes := shape :: entry.absorbedShapes }
      else { storageToken := token, absorbedShapes := [shape] }
  | none => { storageToken := token, absorbedShapes := [shape] }

/-! ## the ingestor -/

/-- `AppendLayoutCache`. -/
structure AppendLayoutCache where
  storageToken : Option Nat
  shape : UInt64
  layout : AppendLayout
  deriving DecidableEq, Repr

/-- `RawAppendPool`: the published columns and the batches submitted. -/
structure Pool where
  columns : List Column
  queue : List RawParsedPayload

/-- `RawIngestor`, over the database. -/
structure IngestState where
  db : Db
  cachedStorage : Option Nat
  appendLayout : AppendLayoutCache
  pool : Option Pool
  created : Bool
  columnsAdded : Nat
  columnsWidened : Nat
  rows : Nat
  errors : Nat

/-- A new `RawIngestor`. -/
def IngestState.start (db : Db) : IngestState where
  db := db
  cachedStorage := none
  appendLayout := { storageToken := none, shape := 0,
                    layout := { types := [], slotOf := [], covered := [] } }
  pool := none
  created := false
  columnsAdded := 0
  columnsWidened := 0
  rows := 0
  errors := 0

/-- A step of the ingestor; what it did to the state stays when it raises. -/
abbrev Ingest := EStateM RawError IngestState

/-- What an ingest runs under: DuckDB, the target's name, the settings of the
append pool and which worker takes which batch. -/
structure NativeEnv where
  duck : Duck
  catalog : Catalog
  target : Bytes
  poolMinRows : Nat
  workers : Nat
  workerOf : Nat → Nat
  workerOf_lt : ∀ batch, workerOf batch < workers

/-- A DuckDB that refuses nothing, and an append pool that no small batch
reaches. -/
def smallEnv : NativeEnv where
  duck := smallDuck
  catalog := { createCheck := fun _ => .ok ⟨⟩, alterCheck := fun _ _ => .ok ⟨⟩,
               verify := fun _ _ => .ok ⟨⟩ }
  target := bytes "events"
  poolMinRows := 4096
  workers := 1
  workerOf _ := 0
  workerOf_lt _ := Nat.zero_lt_one

variable (env : NativeEnv)

/-- The error of a table that is gone. -/
def disappearedError : RawError :=
  { kind := .internal
    message := bytes "RawDuck: table " ++ env.target ++ bytes " disappeared during ingestion" }

/-- The error of a first payload without columns. -/
def emptyPayloadError : RawError :=
  { kind := .invalidInput
    message := bytes "RawDuck: cannot create table " ++ env.target ++
      bytes " from an empty payload" }

/-- `InvalidateTableCache`. -/
def invalidateTableCache : Ingest Unit :=
  modify fun s => { s with
    cachedStorage := none
    appendLayout := { s.appendLayout with shape := 0 } }

/-- `LookupTableCached`. -/
def lookupTableCached : Ingest (Option (Nat × Table)) := do
  let s ← get
  match s.db.table with
  | none => do
      invalidateTableCache
      return none
  | some (token, table) => do
      if s.cachedStorage ≠ some token then
        modify fun s => { s with
          cachedStorage := some token
          appendLayout := { s.appendLayout with shape := 0 } }
      return some (token, table)

/-- The database after a schema step: every ALTER made a new storage object. -/
def Db.evolved (db : Db) (token : Nat) (evolved : Evolved) : Db :=
  let alters := evolved.added + evolved.widened
  { db with
    table := some (if alters = 0 then token else db.nextToken + alters - 1, evolved.table)
    nextToken := db.nextToken + alters }

/-- `EvolveNative` on the table of the database. -/
def evolveTable (token : Nat) (table : Table) (parsed : RawParsedPayload) : Ingest Unit := do
  let evolved ← fromExcept (evolveNative env.duck env.catalog table parsed.columns)
  modify fun s => { s with
    db := s.db.evolved token evolved
    columnsAdded := s.columnsAdded + evolved.added
    columnsWidened := s.columnsWidened + evolved.widened }

/-! ## the append pool -/

/-- `BatchLayout` and the rows of one worker's collection. -/
structure Worker where
  shape : UInt64
  slotOf : List Nat
  covered : List Bool
  rows : List (List Cell)

/-- The error of a batch whose column the pool has not heard of. -/
def missingFromPool (name : Bytes) : RawError :=
  { kind := .internal
    message := bytes "RawDuck: column " ++ name ++ bytes " missing from append pool schema" }

/-- The layout of a batch in the pool: the worker's last one when the shape
repeats, else resolved by name. -/
def poolLayout (pool : Pool) (worker : Worker) (shape : UInt64) (columns : List RawColumn) :
    Except RawError AppendLayout := do
  let types := pool.columns.map Column.type
  if worker.shape = shape ∧ worker.slotOf.length = columns.length then
    return { types, slotOf := worker.slotOf, covered := worker.covered }
  let slotOf ← columns.mapM fun c => match columnIndex pool.columns c.name with
    | some slot => .ok slot
    | none => .error (missingFromPool c.name)
  return { types, slotOf, covered := coveredSlots types.length slotOf }

/-- `AppendBatch`, under the published columns; a worker that took the batch
earlier pads its rows with NULL to the same width. -/
def appendBatch (pool : Pool) (worker : Worker) (parsed : RawParsedPayload) :
    Except RawError Worker := do
  let shape ← hashPayloadShape env.duck parsed.columns
  let layout ← poolLayout pool worker shape parsed.columns
  let new ← (blocks parsed.payload.rows parsed.payload.rows.length).mapM
    (fillChunk env.duck layout parsed)
  return { shape, slotOf := layout.slotOf, covered := layout.covered,
           rows := worker.rows ++ new.flatten }

/-- `WorkerLoop` over the batches one worker takes. -/
def workerRows (pool : Pool) (worker : Nat) : Except RawError (List (List Cell)) := do
  let batches := (pool.queue.zipIdx.filter fun batch => env.workerOf batch.2 == worker).map Prod.fst
  let done ← batches.foldlM (appendBatch env pool) { shape := 0, slotOf := [], covered := [],
                                                     rows := [] }
  return done.rows

/-- `Drain`: the workers' collections, merged in worker order. -/
def drainPool (pool : Pool) : Except RawError (List (List Cell)) := do
  let collections ← (List.range env.workers).mapM (workerRows env pool)
  return collections.flatten

/-- Drains the pool into the table and drops it. -/
def drainIntoTable (pool : Pool) (token : Nat) (table : Table) : Ingest Unit := do
  let rows ← fromExcept (drainPool env pool)
  modify fun s => { s with
    db := { s.db with table := some (token, { table with rows := table.rows ++ rows }) }
    rows := s.rows + rows.length
    pool := none }

/-- `PoolEligible`. -/
def poolEligible (table : Table) (parsed : RawParsedPayload) : Bool :=
  decide (env.poolMinRows ≤ parsed.payload.rows.length) && !table.hasGenerated &&
    !table.hasIndexes && table.constraints.isEmpty

/-- `EnsurePool`. -/
def ensurePool (table : Table) (parsed : RawParsedPayload) : Ingest Unit := do
  let s ← get
  if s.pool.isSome || parsed.payload.rows.isEmpty || !poolEligible env table parsed then return
  set { s with pool := some { columns := table.columns, queue := [] } }

/-- `PublishColumns`. -/
def publishColumns (adds : List RawColumn) : Ingest Unit :=
  modify fun s => { s with
    pool := s.pool.map fun pool =>
      { pool with columns := pool.columns ++
          adds.map fun c => { name := c.name, type := c.type, generated := false } } }

/-! ## the append -/

/-- `ResolveAppendLayout`: the last layout while the storage and the shape
stay. -/
def resolveLayout (token : Nat) (table : Table) (parsed : RawParsedPayload) :
    Ingest AppendLayout := do
  let shape ← fromExcept (hashPayloadShape env.duck parsed.columns)
  let s ← get
  if s.appendLayout.storageToken = some token ∧ s.appendLayout.shape = shape ∧
      s.appendLayout.layout.slotOf ≠ [] then
    return s.appendLayout.layout
  let layout ← fromExcept (resolveAppendLayout table parsed.columns)
  set { s with appendLayout := { storageToken := some token, shape, layout } }
  return layout

/-- `AppendNative`. -/
def appendNative (token : Nat) (table : Table) (parsed : RawParsedPayload) : Ingest Unit := do
  if table.hasGenerated then throw generatedColumnsError
  let layout ← resolveLayout env token table parsed
  let table ← fromExcept (appendBlocks env.duck env.catalog layout parsed table)
  modify fun s => { s with
    db := { s.db with table := some (token, table) }
    rows := s.rows + parsed.payload.rows.length }

/-- The end of a batch: into the pool when there is one, appended otherwise. -/
def submitOrAppend (token : Nat) (table : Table) (parsed : RawParsedPayload) : Ingest Unit := do
  ensurePool env table parsed
  let s ← get
  match s.pool with
  | some pool => set { s with pool := some { pool with queue := pool.queue ++ [parsed] } }
  | none => appendNative env token table parsed

/-! ## one batch -/

/-- Type rewrites cannot be applied to outstanding collections: a pool is
drained before some column is widened. -/
def drainForWidening (token : Nat) (table : Table) (widens : Bool) : Ingest Unit := do
  let s ← get
  match s.pool with
  | some pool => if widens then drainIntoTable env pool token table else pure ⟨⟩
  | none => pure ⟨⟩

/-- `EvolveNative` on the table as it is now. -/
def evolveCurrent (parsed : RawParsedPayload) : Ingest Unit := do
  let s ← get
  match s.db.table with
  | none => throw (disappearedError env)
  | some (token, table) => evolveTable env token table parsed

/-- The schema step both routes share: drain for a widening, evolve, publish. -/
def schemaStep (token : Nat) (table : Table) (parsed : RawParsedPayload) : Ingest Unit := do
  let (adds, widens) := computeDelta table.columns parsed.columns
  drainForWidening env token table widens
  evolveCurrent env parsed
  invalidateTableCache
  if adds.isEmpty then pure ⟨⟩ else publishColumns adds

/-- The creation branch of `LegacyIngestNative`. -/
def createTable (parsed : RawParsedPayload) : Ingest Unit := do
  let created ← fromExcept (createNative env.catalog parsed.columns)
  modify fun s => { s with
    db := { s.db with table := some (s.db.nextToken, created), nextToken := s.db.nextToken + 1 }
    created := true
    columnsAdded := s.columnsAdded + parsed.columns.length }
  invalidateTableCache

/-- The end of every route: nothing for a payload without rows, otherwise the
table as it is now takes them. -/
def appendRows (parsed : RawParsedPayload) : Ingest Unit := do
  if parsed.payload.rows.isEmpty then return
  else match ← lookupTableCached with
    | none => throw (disappearedError env)
    | some (token, table) => submitOrAppend env token table parsed

/-- `LegacyIngestNative`: new tables, and payloads without columns. -/
def legacyIngestNative (table : Option (Nat × Table)) (parsed : RawParsedPayload) :
    Ingest Unit :=
  if table.isNone && parsed.columns.isEmpty then throw (emptyPayloadError env)
  else if parsed.columns.isEmpty then return
  else do
    match table with
    | none => createTable env parsed
    | some (token, table) => schemaStep env token table parsed
    appendRows env parsed

/-- The schema step of a shape the cache does not know, and the note that it
is absorbed now. -/
def absorb (token : Nat) (table : Table) (shape : UInt64) (parsed : RawParsedPayload) :
    Ingest Unit := do
  schemaStep env token table parsed
  match ← lookupTableCached with
  | none => throw (disappearedError env)
  | some (token, _) =>
      modify fun s =>
        { s with db := { s.db with cache := some (absorbShape s.db.cache token shape) } }

/-- `IngestNative`. -/
def ingestNative (parsed : RawParsedPayload) : Ingest Unit := do
  match ← lookupTableCached with
  | none => legacyIngestNative env none parsed
  | some (token, table) =>
      if parsed.columns.isEmpty then legacyIngestNative env (some (token, table)) parsed
      else do
        let shape ← fromExcept (hashPayloadShape env.duck parsed.columns)
        let s ← get
        if isAbsorbed s.db.cache token shape then appendRows env parsed
        else do
          absorb env token table shape parsed
          appendRows env parsed

/-- The end of `PrepareForAppend`: whether a pool will take the batch. -/
def prepareRows (parsed : RawParsedPayload) : Ingest Bool := do
  if parsed.payload.rows.isEmpty then return false
  else match ← lookupTableCached with
    | none => throw (disappearedError env)
    | some (_, table) => do
        ensurePool env table parsed
        let s ← get
        return s.pool.isSome

/-- `PrepareForAppend`: the schema part of `IngestNative`, without the append. -/
def prepareForAppend (parsed : RawParsedPayload) : Ingest Bool := do
  match ← lookupTableCached with
  | none => return false
  | some (token, table) =>
      if parsed.columns.isEmpty then return false
      else do
        let shape ← fromExcept (hashPayloadShape env.duck parsed.columns)
        let s ← get
        if isAbsorbed s.db.cache token shape then prepareRows env parsed
        else do
          absorb env token table shape parsed
          prepareRows env parsed

/-- `SubmitPreparedBatch`. -/
def submitPreparedBatch (parsed : RawParsedPayload) (usePool : Bool) : Ingest Unit := do
  if parsed.payload.rows.isEmpty then return
  else do
    let s ← get
    match usePool, s.pool with
    | true, some pool => set { s with pool := some { pool with queue := pool.queue ++ [parsed] } }
    | _, _ =>
        match ← lookupTableCached with
        | none => throw (disappearedError env)
        | some (token, table) => appendNative env token table parsed

/-- `IngestParsed` of a native ingestor. -/
def ingestParsed (parsed : RawParsedPayload) : Ingest Unit := do
  modify fun s => { s with errors := s.errors + parsed.payload.parseErrors }
  ingestNative env parsed

/-- `Finish`. -/
def finish : Ingest Unit := do
  let s ← get
  match s.pool with
  | none => pure ⟨⟩
  | some pool =>
      match s.db.table with
      | none => throw (disappearedError env)
      | some (token, table) => drainIntoTable env pool token table

/-- `RawIngestStats`. -/
structure RawIngestStats where
  created : Bool
  columnsAdded : Nat
  columnsWidened : Nat
  rows : Nat
  errors : Nat
  deriving DecidableEq, Repr

/-- The counters of an ingestor. -/
def IngestState.stats (s : IngestState) : RawIngestStats where
  created := s.created
  columnsAdded := s.columnsAdded
  columnsWidened := s.columnsWidened
  rows := s.rows
  errors := s.errors

/-- `RawIngestParsedPayload` into a native catalog. -/
def rawIngestParsedPayload (parsed : RawParsedPayload) : EStateM RawError Db RawIngestStats :=
  fun db =>
    match (do ingestParsed env parsed; finish env : Ingest Unit) (IngestState.start db) with
    | .ok _ s => .ok s.stats s.db
    | .error e s => .error e s.db

/-! ## what the steps do -/

variable {env} {s s' : IngestState} {parsed : RawParsedPayload} {token : Nat} {table : Table}

/-- The ingestor after `LookupTableCached`. -/
def IngestState.lookedUp (s : IngestState) : IngestState :=
  match s.db.table with
  | none => { s with cachedStorage := none, appendLayout := { s.appendLayout with shape := 0 } }
  | some (token, _) =>
      if s.cachedStorage ≠ some token then
        { s with cachedStorage := some token, appendLayout := { s.appendLayout with shape := 0 } }
      else s

theorem lookupTableCached_eq (s : IngestState) :
    lookupTableCached s = .ok s.db.table s.lookedUp := by
  rw [lookupTableCached, run_bind_eq_ok]
  refine ⟨s, s, rfl, ?_⟩
  rw [IngestState.lookedUp]
  cases s.db.table with
  | none => rfl
  | some entry =>
      obtain ⟨token, table⟩ := entry
      by_cases h : s.cachedStorage = some token
      · simp only [h, ne_eq, not_true, if_false]; rfl
      · simp only [h, ne_eq, not_false_iff, if_true]; rfl

@[simp] theorem lookedUp_db (s : IngestState) : s.lookedUp.db = s.db := by
  rw [IngestState.lookedUp]; split <;> [rfl; (split <;> rfl)]

@[simp] theorem lookedUp_pool (s : IngestState) : s.lookedUp.pool = s.pool := by
  rw [IngestState.lookedUp]; split <;> [rfl; (split <;> rfl)]

@[simp] theorem lookedUp_stats (s : IngestState) : s.lookedUp.stats = s.stats := by
  rw [IngestState.lookedUp]; split <;> [rfl; (split <;> rfl)]

@[simp] theorem lookedUp_layout (s : IngestState) :
    s.lookedUp.appendLayout.layout = s.appendLayout.layout := by
  rw [IngestState.lookedUp]; split <;> [rfl; (split <;> rfl)]

/-- The rows a layout makes of a batch, in one list. -/
def newRows (duck : Duck) (layout : AppendLayout) (parsed : RawParsedPayload) :
    Except RawError (List (List Cell)) :=
  parsed.payload.rows.mapM (newRow duck layout parsed)

/-- A new worker takes one batch: the rows its layout makes. -/
theorem appendBatch_new {pool : Pool} {w : Worker}
    (h : appendBatch env pool { shape := 0, slotOf := [], covered := [], rows := [] } parsed =
      .ok w) (hcols : parsed.columns ≠ []) {t : Table} (hwf : t.WF)
    (hpool : pool.columns = t.columns)
    (hnames : CiDistinct parsed.columns) :
    ∃ layout, resolveAppendLayout t parsed.columns = .ok layout ∧
      newRows env.duck layout parsed = .ok w.rows := by
  rw [appendBatch] at h
  obtain ⟨shape, hshape, h⟩ := bind_eq_ok.mp h
  obtain ⟨layout, hlayout, h⟩ := bind_eq_ok.mp h
  obtain ⟨new, hnew, h⟩ := bind_eq_ok.mp h
  obtain rfl := pure_eq_ok.mp h
  have hresolve : resolveAppendLayout t parsed.columns = .ok layout := by
    rw [poolLayout, if_neg (by
      rintro ⟨-, hlen⟩
      exact hcols (List.length_eq_zero_iff.mp hlen.symm))] at hlayout
    obtain ⟨slotOf, hslots, hlayout⟩ := bind_eq_ok.mp hlayout
    obtain rfl := pure_eq_ok.mp hlayout
    refine bind_eq_ok.mpr ⟨slotOf, ?_, by rw [hpool]; rfl⟩
    rw [mapM_eq_ok] at hslots ⊢
    refine hslots.imp fun c slot hc => ?_
    rw [hpool] at hc
    cases hi : columnIndex t.columns c.name with
    | some i => simpa only [hi] using hc
    | none =>
        simp only [hi] at hc
        exact nomatch hc
  have hfits := (resolveAppendLayout_spec hwf hnames hresolve).1
  refine ⟨layout, hresolve, ?_⟩
  have hall := mapM_fillChunk_spec hfits hnew
  rw [flatten_blocks _ (Nat.le_refl _)] at hall
  exact hall

/-- A list that is empty everywhere but at one position flattens to what is
there. -/
theorem flatten_single {α : Type} {xss : List (List α)} {i : Nat} {xs : List α}
    (hi : xss[i]? = some xs) (h : ∀ j, j ≠ i → ∀ ys, xss[j]? = some ys → ys = []) :
    xss.flatten = xs := by
  induction xss generalizing i with
  | nil => simp at hi
  | cons ys rest ih =>
      cases i with
      | zero =>
          obtain rfl : ys = xs := by simpa using hi
          have hrest : rest.flatten = [] := by
            rw [List.flatten_eq_nil_iff]
            intro zs hzs
            obtain ⟨j, hj⟩ := List.getElem?_of_mem hzs
            exact h (j + 1) (by omega) zs (by simpa using hj)
          rw [List.flatten_cons, hrest, List.append_nil]
      | succ i =>
          have hnil : ys = [] := h 0 (by omega) ys rfl
          rw [List.flatten_cons, hnil, List.nil_append]
          exact ih (by simpa using hi) fun j hj zs hzs =>
            h (j + 1) (by omega) zs (by simpa using hzs)

/-- A pool with one batch drains to the rows of the batch, whichever worker
took it. -/
theorem drainPool_single {t : Table} (hwf : t.WF) (hnames : CiDistinct parsed.columns)
    (hcols : parsed.columns ≠ []) {rows : List (List Cell)}
    (h : drainPool env { columns := t.columns, queue := [parsed] } = .ok rows) :
    ∃ layout, resolveAppendLayout t parsed.columns = .ok layout ∧
      newRows env.duck layout parsed = .ok rows := by
  obtain ⟨collections, hcollections, h⟩ := bind_eq_ok.mp h
  obtain rfl := pure_eq_ok.mp h
  obtain ⟨hlen, hget⟩ := mapM_eq_ok_iff_getElem.mp hcollections
  rw [List.length_range] at hlen
  have hw := env.workerOf_lt 0
  have hworker : ∀ w (hlt : w < collections.length),
      workerRows env { columns := t.columns, queue := [parsed] } w = .ok collections[w] := by
    intro w hlt
    have := hget w (by rw [List.length_range, hlen]; exact hlt) hlt
    rwa [List.getElem_range] at this
  have htaken := hworker (env.workerOf 0) (hlen ▸ hw)
  simp only [workerRows, List.zipIdx_singleton, List.filter_cons, beq_self_eq_true, if_true,
    List.filter_nil, List.map_cons, List.map_nil, List.foldlM_cons, List.foldlM_nil] at htaken
  obtain ⟨w, hw', htaken⟩ := bind_eq_ok.mp htaken
  obtain ⟨w', hww, hw'⟩ := bind_eq_ok.mp hw'
  obtain rfl := pure_eq_ok.mp hw'
  have hrows := pure_eq_ok.mp htaken
  obtain ⟨layout, hlayout, hnew⟩ := appendBatch_new hww hcols hwf rfl hnames
  refine ⟨layout, hlayout, ?_⟩
  rw [flatten_single (List.getElem?_eq_getElem (hlen ▸ hw)) fun j hj ys hys => ?_, ← hrows]
  · exact hnew
  · obtain ⟨hlt, rfl⟩ := List.getElem?_eq_some_iff.mp hys
    have hidle := hworker j hlt
    have hne : (env.workerOf 0 == j) = false := beq_eq_false_iff_ne.mpr (Ne.symm hj)
    simp only [workerRows, List.zipIdx_singleton, List.filter_cons, hne, Bool.false_eq_true,
      if_false, List.filter_nil, List.map_nil, List.foldlM_nil] at hidle
    obtain ⟨w, hw, hidle⟩ := bind_eq_ok.mp hidle
    obtain rfl := pure_eq_ok.mp hw
    exact (pure_eq_ok.mp hidle).symm

/-- The database after rows are appended to the table under a token. -/
def Db.appended (db : Db) (token : Nat) (table : Table) (rows : List (List Cell)) : Db :=
  { db with table := some (token, { table with rows := table.rows ++ rows }) }

/-- What `ResolveAppendLayout` answers: a layout resolved now, or the last one
of this storage and shape. -/
theorem resolveLayout_ok {layout : AppendLayout}
    (h : resolveLayout env token table parsed s = .ok layout s') :
    ∃ shape, hashPayloadShape env.duck parsed.columns = .ok shape ∧
      s' = { s with appendLayout := { storageToken := some token, shape, layout } } ∧
      (resolveAppendLayout table parsed.columns = .ok layout ∨
        s.appendLayout = { storageToken := some token, shape, layout } ∧ layout.slotOf ≠ []) := by
  obtain ⟨shape, t, hshape, hrest⟩ := run_bind_eq_ok.mp h
  obtain ⟨hshape, ht⟩ := run_fromExcept_eq_ok.mp hshape
  rw [ht] at hrest
  obtain ⟨u, v, hget, hrest⟩ := run_bind_eq_ok.mp hrest
  cases hget
  refine ⟨shape, hshape, ?_⟩
  split at hrest
  · next hcached =>
    obtain ⟨htoken, hs, hne⟩ := hcached
    cases hrest
    have hcache : s.appendLayout =
        { storageToken := some token, shape, layout := s.appendLayout.layout } := by
      rw [← htoken, ← hs]
    exact ⟨by rw [← hcache], .inr ⟨hcache, hne⟩⟩
  · obtain ⟨l, w, hl, hset⟩ := run_bind_eq_ok.mp hrest
    obtain ⟨hl, hw⟩ := run_fromExcept_eq_ok.mp hl
    rw [hw] at hset
    cases hset
    exact ⟨rfl, .inl hl⟩

/-- What `AppendNative` does under a layout that fits. -/
theorem appendNative_ok (h : appendNative env token table parsed s = .ok ⟨⟩ s') :
    table.hasGenerated = false ∧ ∃ layout t, resolveLayout env token table parsed s =
        .ok layout t ∧ (layout.Fits parsed.columns → ∃ new,
        newRows env.duck layout parsed = .ok new ∧
        s' = { t with db := t.db.appended token table new
                      rows := t.rows + parsed.payload.rows.length }) := by
  rw [appendNative] at h
  split at h
  · obtain ⟨_, _, hthrow, -⟩ := run_bind_eq_ok.mp h
    exact nomatch hthrow
  · next hgen =>
    obtain ⟨layout, t, hlayout, hrest⟩ := run_bind_eq_ok.mp h
    obtain ⟨table', u, htable, hmodify⟩ := run_bind_eq_ok.mp hrest
    obtain ⟨htable, hu⟩ := run_fromExcept_eq_ok.mp htable
    rw [hu] at hmodify
    refine ⟨by simpa using hgen, layout, t, hlayout, fun hfits => ?_⟩
    obtain ⟨new, hnew, rfl⟩ := appendBlocks_spec hfits htable
    cases hmodify
    exact ⟨new, hnew, rfl⟩

theorem poolEligible_hasGenerated (h : poolEligible env table parsed = true) :
    table.hasGenerated = false := by
  simp only [poolEligible, Bool.and_eq_true, Bool.not_eq_true'] at h
  exact h.1.1.2

/-- Without a pool, the end of a batch opens one and submits the batch, or
appends it. -/
theorem submitOrAppend_ok (hpool : s.pool = none)
    (h : submitOrAppend env token table parsed s = .ok ⟨⟩ s') :
    (parsed.payload.rows ≠ [] ∧ poolEligible env table parsed = true ∧
      s' = { s with pool := some { columns := table.columns, queue := [parsed] } }) ∨
    ((parsed.payload.rows = [] ∨ poolEligible env table parsed = false) ∧
      appendNative env token table parsed s = .ok ⟨⟩ s') := by
  obtain ⟨_, t, hensure, h⟩ := run_bind_eq_ok.mp h
  obtain ⟨_, _, hget, hensure⟩ := run_bind_eq_ok.mp hensure
  cases hget
  obtain ⟨_, _, hget, h⟩ := run_bind_eq_ok.mp h
  cases hget
  split at hensure
  · next hskip =>
    cases hensure
    rw [hpool] at h hskip
    refine .inr ⟨?_, h⟩
    simp only [Option.isSome_none, Bool.false_or, Bool.or_eq_true, List.isEmpty_iff,
      Bool.not_eq_true'] at hskip
    exact hskip
  · next hopen =>
    cases hensure
    cases h
    simp only [hpool, Option.isSome_none, Bool.false_or, Bool.or_eq_true, List.isEmpty_iff,
      Bool.not_eq_true', not_or] at hopen
    exact .inl ⟨hopen.1, by simpa using hopen.2, rfl⟩

/-- The ingestor after a schema step without a pool. -/
def IngestState.schemaStepped (s : IngestState) (token : Nat) (evolved : Evolved) : IngestState :=
  { s with
    db := s.db.evolved token evolved
    cachedStorage := none
    appendLayout := { s.appendLayout with shape := 0 }
    columnsAdded := s.columnsAdded + evolved.added
    columnsWidened := s.columnsWidened + evolved.widened }

theorem schemaStep_ok (hpool : s.pool = none) (htable : s.db.table = some (token, table))
    (h : schemaStep env token table parsed s = .ok ⟨⟩ s') :
    ∃ evolved, evolveNative env.duck env.catalog table parsed.columns = .ok evolved ∧
      s' = s.schemaStepped token evolved := by
  obtain ⟨_, t, hdrain, h⟩ := run_bind_eq_ok.mp h
  obtain ⟨_, _, hget, hdrain⟩ := run_bind_eq_ok.mp hdrain
  cases hget
  simp only [hpool] at hdrain
  cases hdrain
  obtain ⟨_, t, hcurrent, h⟩ := run_bind_eq_ok.mp h
  obtain ⟨_, _, hget, hevolve⟩ := run_bind_eq_ok.mp hcurrent
  cases hget
  simp only [htable] at hevolve
  obtain ⟨evolved, u, hev, hmodify⟩ := run_bind_eq_ok.mp hevolve
  obtain ⟨hev, hu⟩ := run_fromExcept_eq_ok.mp hev
  rw [hu] at hmodify
  cases hmodify
  obtain ⟨_, _, hinv, h⟩ := run_bind_eq_ok.mp h
  cases hinv
  refine ⟨evolved, hev, ?_⟩
  split at h
  · cases h
    rfl
  · cases h
    simp only [hpool, Option.map_none, IngestState.schemaStepped]

/-- Without a pool, a schema step that DuckDB takes raises nothing. -/
theorem schemaStep_run (hpool : s.pool = none) (htable : s.db.table = some (token, table))
    {evolved : Evolved}
    (hev : evolveNative env.duck env.catalog table parsed.columns = .ok evolved) :
    schemaStep env token table parsed s = .ok ⟨⟩ (s.schemaStepped token evolved) := by
  have hdrain : drainForWidening env token table (computeWidens table.columns parsed.columns) s =
      .ok ⟨⟩ s := by
    refine run_bind_eq_ok.mpr ⟨s, s, rfl, ?_⟩
    simp only [hpool]
    rfl
  have hcurrent : evolveCurrent env parsed s = .ok ⟨⟩ { s with
      db := s.db.evolved token evolved
      columnsAdded := s.columnsAdded + evolved.added
      columnsWidened := s.columnsWidened + evolved.widened } := by
    refine run_bind_eq_ok.mpr ⟨s, s, rfl, ?_⟩
    simp only [htable]
    exact run_bind_eq_ok.mpr ⟨evolved, s, run_fromExcept_eq_ok.mpr ⟨hev, rfl⟩, rfl⟩
  refine run_bind_eq_ok.mpr ⟨⟨⟩, s, hdrain, run_bind_eq_ok.mpr ⟨⟨⟩, _, hcurrent, ?_⟩⟩
  refine run_bind_eq_ok.mpr ⟨⟨⟩, _, rfl, ?_⟩
  split
  · rfl
  · simp only [publishColumns, run_modify, hpool, Option.map_none, IngestState.schemaStepped]
theorem absorb_run (shape : UInt64) (hpool : s.pool = none)
    (htable : s.db.table = some (token, table)) {evolved : Evolved}
    (hev : evolveNative env.duck env.catalog table parsed.columns = .ok evolved) {token' : Nat}
    (htoken : (s.db.evolved token evolved).table = some (token', evolved.table)) :
    absorb env token table shape parsed s = .ok ⟨⟩
      { (s.schemaStepped token evolved).lookedUp with
        db := { s.db.evolved token evolved with
          cache := some (absorbShape s.db.cache token' shape) } } := by
  have hdb : (s.schemaStepped token evolved).db = s.db.evolved token evolved := rfl
  refine (run_bind_of_ok (schemaStep_run hpool htable hev)).trans ?_
  refine (run_bind_of_ok (lookupTableCached_eq _)).trans ?_
  rw [hdb, htoken]
  simp only [run_modify, lookedUp_db, hdb]
  rfl

theorem absorb_ok {shape : UInt64} (hpool : s.pool = none)
    (htable : s.db.table = some (token, table))
    (h : absorb env token table shape parsed s = .ok ⟨⟩ s') :
    ∃ evolved token', evolveNative env.duck env.catalog table parsed.columns = .ok evolved ∧
      (s.db.evolved token evolved).table = some (token', evolved.table) ∧
      s' = { (s.schemaStepped token evolved).lookedUp with
        db := { s.db.evolved token evolved with
          cache := some (absorbShape s.db.cache token' shape) } } := by
  obtain ⟨_, t, hstep, h⟩ := run_bind_eq_ok.mp h
  obtain ⟨evolved, hevolved, ht⟩ := schemaStep_ok hpool htable hstep
  rw [ht] at h
  obtain ⟨_, _, hlookup, h⟩ := run_bind_eq_ok.mp h
  rw [lookupTableCached_eq] at hlookup
  cases hlookup
  refine ⟨evolved, _, hevolved, rfl, ?_⟩
  simp only [IngestState.schemaStepped, Db.evolved] at h
  cases h
  simp only [lookedUp_db, IngestState.schemaStepped, Db.evolved]

variable (env) (parsed)

/-- How the schema of the database becomes ready for a payload: a new table, a
known shape, or a schema step.  The last arguments are the counters. -/
inductive SchemaOutcome (db : Db) : Db → Bool → Nat → Nat → Prop where
  | created {table : Table} : db.table = none →
      createNative env.catalog parsed.columns = .ok table →
      SchemaOutcome db { db with table := some (db.nextToken, table),
                                 nextToken := db.nextToken + 1 } true parsed.columns.length 0
  | absorbed {token : Nat} {table : Table} {shape : UInt64} : db.table = some (token, table) →
      hashPayloadShape env.duck parsed.columns = .ok shape →
      isAbsorbed db.cache token shape = true → SchemaOutcome db db false 0 0
  | evolved {token token' : Nat} {table : Table} {shape : UInt64} {evolved : Evolved} :
      db.table = some (token, table) → hashPayloadShape env.duck parsed.columns = .ok shape →
      isAbsorbed db.cache token shape = false →
      evolveNative env.duck env.catalog table parsed.columns = .ok evolved →
      (db.evolved token evolved).table = some (token', evolved.table) →
      SchemaOutcome db { db.evolved token evolved with
        cache := some (absorbShape db.cache token' shape) } false evolved.added evolved.widened

/-- The ingestor is ready to append: it has the database and the counters of
the schema outcome, and its last layout is the one before or marked stale. -/
structure Ready (s u : IngestState) (db : Db) (created : Bool) (added widened : Nat) : Prop where
  db_eq : u.db = db
  pool_eq : u.pool = none
  stats_eq : u.stats = { s.stats with
    created := s.created || created, columnsAdded := s.columnsAdded + added,
    columnsWidened := s.columnsWidened + widened }
  layout_eq : u.appendLayout = s.appendLayout ∨
    u.appendLayout = { s.appendLayout with shape := 0 }

variable {env} {parsed}

theorem lookedUp_appendLayout (s : IngestState) :
    s.lookedUp.appendLayout = s.appendLayout ∨
      s.lookedUp.appendLayout = { s.appendLayout with shape := 0 } := by
  rw [IngestState.lookedUp]
  split
  · exact .inr rfl
  · split
    · exact .inr rfl
    · exact .inl rfl

theorem appendRows_ok {token : Nat} {table : Table} (htable : s.db.table = some (token, table))
    (h : appendRows env parsed s = .ok ⟨⟩ s') :
    parsed.payload.rows = [] ∧ s' = s ∨
      parsed.payload.rows ≠ [] ∧ submitOrAppend env token table parsed s.lookedUp = .ok ⟨⟩ s' := by
  unfold appendRows at h
  split at h
  · next hrows =>
    cases h
    exact .inl ⟨List.isEmpty_iff.mp hrows, rfl⟩
  · next hrows =>
    obtain ⟨_, _, hlookup, h⟩ := run_bind_eq_ok.mp h
    rw [lookupTableCached_eq] at hlookup
    cases hlookup
    simp only [htable] at h
    exact .inr ⟨fun hnil => hrows (List.isEmpty_iff.mpr hnil), h⟩

/-- Once the schema is ready, the rest of a batch is its end. -/
theorem Ready.appendRows {s u : IngestState} {db : Db} {created : Bool} {added widened : Nat}
    (hready : Ready s u db created added widened) {token : Nat} {table : Table}
    (htable : db.table = some (token, table)) (h : appendRows env parsed u = .ok ⟨⟩ s') :
    ∃ u', Ready s u' db created added widened ∧
      (parsed.payload.rows = [] ∧ s' = u' ∨
        parsed.payload.rows ≠ [] ∧ submitOrAppend env token table parsed u' = .ok ⟨⟩ s') := by
  rcases appendRows_ok (hready.db_eq ▸ htable) h with ⟨hrows, rfl⟩ | ⟨hrows, hsubmit⟩
  · exact ⟨s', hready, .inl ⟨hrows, rfl⟩⟩
  · refine ⟨u.lookedUp, ⟨?_, ?_, ?_, ?_⟩, .inr ⟨hrows, hsubmit⟩⟩
    · rw [lookedUp_db, hready.db_eq]
    · rw [lookedUp_pool, hready.pool_eq]
    · rw [lookedUp_stats, hready.stats_eq]
    · rcases lookedUp_appendLayout u with h | h <;> rcases hready.layout_eq with h' | h' <;>
        rw [h, h'] <;> simp

theorem Ready.lookedUp (s : IngestState) (hpool : s.pool = none) :
    Ready s s.lookedUp s.db false 0 0 where
  db_eq := lookedUp_db s
  pool_eq := by rw [lookedUp_pool, hpool]
  stats_eq := by
    rw [lookedUp_stats]
    simp [IngestState.stats]
  layout_eq := lookedUp_appendLayout s

/-- The ingestor after its table is created. -/
def IngestState.tableCreated (s : IngestState) (table : Table) (columns : Nat) : IngestState :=
  { s with
    db := { s.db with table := some (s.db.nextToken, table), nextToken := s.db.nextToken + 1 }
    cachedStorage := none
    appendLayout := { s.appendLayout with shape := 0 }
    created := true
    columnsAdded := s.columnsAdded + columns }

theorem createTable_ok (h : createTable env parsed s = .ok ⟨⟩ s') :
    ∃ table, createNative env.catalog parsed.columns = .ok table ∧
      s' = s.tableCreated table parsed.columns.length := by
  obtain ⟨table, v, hcreated, hmodify⟩ := run_bind_eq_ok.mp h
  obtain ⟨hcreated, hv⟩ := run_fromExcept_eq_ok.mp hcreated
  rw [hv] at hmodify
  cases hmodify
  exact ⟨table, hcreated, rfl⟩

theorem Ready.created {u : IngestState} {db : Db} (h : Ready s u db false 0 0) (table : Table)
    (columns : Nat) :
    Ready s (u.tableCreated table columns)
      { db with table := some (db.nextToken, table), nextToken := db.nextToken + 1 }
      true columns 0 where
  db_eq := by rw [← h.db_eq]; rfl
  pool_eq := h.pool_eq
  stats_eq := by
    have hs := h.stats_eq
    simp only [IngestState.stats, RawIngestStats.mk.injEq] at hs
    simp only [IngestState.stats, IngestState.tableCreated, RawIngestStats.mk.injEq]
    obtain ⟨-, ha, hw, hr, he⟩ := hs
    exact ⟨by simp, by omega, by omega, hr, he⟩
  layout_eq := by
    rcases h.layout_eq with h | h <;> simp [IngestState.tableCreated, h]

theorem Ready.evolved {u : IngestState} {db : Db} (h : Ready s u db false 0 0) (token : Nat)
    (evolved : Evolved) :
    Ready s (u.schemaStepped token evolved) (db.evolved token evolved) false evolved.added
      evolved.widened where
  db_eq := by rw [← h.db_eq]; rfl
  pool_eq := h.pool_eq
  stats_eq := by
    have hs := h.stats_eq
    simp only [IngestState.stats, RawIngestStats.mk.injEq] at hs
    simp only [IngestState.stats, IngestState.schemaStepped, RawIngestStats.mk.injEq]
    obtain ⟨hc, ha, hw, hr, he⟩ := hs
    exact ⟨hc, by omega, by omega, hr, he⟩
  layout_eq := by
    rcases h.layout_eq with h | h <;> simp [IngestState.schemaStepped, h]

/-- Looking the table up, and noting something in the database, keeps an
ingestor ready. -/
theorem Ready.noted {u : IngestState} {db db' : Db} {created : Bool} {added widened : Nat}
    (h : Ready s u db created added widened) :
    Ready s { u.lookedUp with db := db' } db' created added widened where
  db_eq := rfl
  pool_eq := (lookedUp_pool u).trans h.pool_eq
  stats_eq := (lookedUp_stats u).trans h.stats_eq
  layout_eq := by
    rcases lookedUp_appendLayout u with h₁ | h₁ <;> rcases h.layout_eq with h₂ | h₂ <;>
      simp [h₁, h₂]

/-- A shape the cache does not know, in an ingestor without a pool: the schema
step, the note, and the rows. -/
theorem ingestNative_miss {shape : UInt64} (hpool : s.pool = none)
    (htable : s.db.table = some (token, table)) (hcols : parsed.columns ≠ [])
    (hshape : hashPayloadShape env.duck parsed.columns = .ok shape)
    (hmiss : isAbsorbed s.db.cache token shape = false) {evolved : Evolved}
    (hev : evolveNative env.duck env.catalog table parsed.columns = .ok evolved) {token' : Nat}
    (htoken : (s.db.evolved token evolved).table = some (token', evolved.table)) :
    ∃ u, ingestNative env parsed s = appendRows env parsed u ∧
      Ready s u { s.db.evolved token evolved with
        cache := some (absorbShape s.db.cache token' shape) } false evolved.added
        evolved.widened := by
  have hempty : parsed.columns.isEmpty = false := by simpa using hcols
  have hpool' : s.lookedUp.pool = none := (lookedUp_pool s).trans hpool
  have htable' : s.lookedUp.db.table = some (token, table) := by rw [lookedUp_db, htable]
  have htoken' : (s.lookedUp.db.evolved token evolved).table = some (token', evolved.table) := by
    rw [lookedUp_db, htoken]
  have habsorb := absorb_run shape hpool' htable' hev htoken'
  refine ⟨_, ?_, ((Ready.lookedUp s hpool).evolved token evolved).noted⟩
  refine (run_bind_of_ok (lookupTableCached_eq s)).trans ?_
  simp only [htable, hempty, Bool.false_eq_true, if_false]
  refine (run_bind_of_ok (run_fromExcept_of_ok hshape)).trans ?_
  refine (run_bind_of_ok run_get).trans ?_
  simp only [lookedUp_db, hmiss, Bool.false_eq_true, if_false]
  rw [lookedUp_db] at habsorb
  exact run_bind_of_ok habsorb

/-- **One batch** that succeeds, in an ingestor without a pool: a payload
without columns changes nothing, any other makes the schema ready and ends
with its rows. -/
theorem ingestNative_ok (hpool : s.pool = none) (h : ingestNative env parsed s = .ok ⟨⟩ s') :
    (parsed.columns = [] ∧ s.db.table.isSome ∧ s'.db = s.db ∧ s'.pool = none ∧
      s'.stats = s.stats) ∨
    (parsed.columns ≠ [] ∧ ∃ db created added widened token table u,
      SchemaOutcome env parsed s.db db created added widened ∧ db.table = some (token, table) ∧
      Ready s u db created added widened ∧
      (parsed.payload.rows = [] ∧ s' = u ∨
        parsed.payload.rows ≠ [] ∧ submitOrAppend env token table parsed u = .ok ⟨⟩ s')) := by
  obtain ⟨_, _, hlookup, h⟩ := run_bind_eq_ok.mp h
  rw [lookupTableCached_eq] at hlookup
  cases hlookup
  have hready := Ready.lookedUp s hpool
  cases htable : s.db.table with
  | none =>
      simp only [htable, legacyIngestNative, Option.isNone_none, Bool.true_and] at h
      by_cases hcols : parsed.columns = []
      · rw [if_pos (List.isEmpty_iff.mpr hcols)] at h
        exact nomatch h
      · have hne : ¬ parsed.columns.isEmpty = true := fun he => hcols (List.isEmpty_iff.mp he)
        rw [if_neg hne, if_neg hne] at h
        obtain ⟨_, u, hcreate, happend⟩ := run_bind_eq_ok.mp h
        obtain ⟨created, hcreated, rfl⟩ := createTable_ok hcreate
        obtain ⟨u', hu', hend⟩ := (hready.created created parsed.columns.length).appendRows rfl
          happend
        exact .inr ⟨hcols, _, _, _, _, _, created, u', .created htable hcreated, rfl, hu', hend⟩
  | some entry =>
      obtain ⟨token, table⟩ := entry
      have htable' : s.lookedUp.db.table = some (token, table) := by rw [lookedUp_db, htable]
      simp only [htable] at h
      split at h
      · next hempty =>
        simp only [legacyIngestNative, Option.isNone_some, Bool.false_and, Bool.false_eq_true,
          if_false, if_pos hempty] at h
        cases h
        exact .inl ⟨List.isEmpty_iff.mp hempty, rfl, hready.db_eq, hready.pool_eq,
          lookedUp_stats s⟩
      · next hempty =>
        refine .inr ⟨fun hcols => hempty (List.isEmpty_iff.mpr hcols), ?_⟩
        obtain ⟨shape, t, hshape, hrest⟩ := run_bind_eq_ok.mp h
        obtain ⟨hshape, ht⟩ := run_fromExcept_eq_ok.mp hshape
        rw [ht] at hrest
        obtain ⟨_, _, hget, hrest⟩ := run_bind_eq_ok.mp hrest
        cases hget
        rw [lookedUp_db] at hrest
        split at hrest
        · next hhit =>
          obtain ⟨u', hu', hend⟩ := hready.appendRows htable hrest
          exact ⟨_, _, _, _, token, table, u', .absorbed htable hshape hhit, htable, hu', hend⟩
        · next hmiss =>
          obtain ⟨_, u, habsorb, happend⟩ := run_bind_eq_ok.mp hrest
          obtain ⟨evolved, token', hevolved, htoken, rfl⟩ :=
            absorb_ok hready.pool_eq htable' habsorb
          rw [lookedUp_db] at htoken
          have hnoted : Ready s _ { s.db.evolved token evolved with
              cache := some (absorbShape s.db.cache token' shape) } false evolved.added
              evolved.widened := (hready.evolved token evolved).noted
          rw [lookedUp_db] at happend
          obtain ⟨u', hu', hend⟩ := hnoted.appendRows htoken happend
          exact ⟨_, _, _, _, token', evolved.table, u',
            .evolved htable hshape (Bool.eq_false_iff.mpr hmiss) hevolved htoken, htoken, hu', hend⟩

/-! ## one batch through an ingestor of its own -/

/-- Every table the database holds is well formed. -/
def Db.WF (db : Db) : Prop := ∀ token table, db.table = some (token, table) → table.WF

theorem wf_createNative (hnames : CiDistinct parsed.columns)
    (h : createNative env.catalog parsed.columns = .ok table) : table.WF := by
  obtain ⟨-, -, h⟩ := bind_eq_ok.mp h
  obtain rfl := pure_eq_ok.mp h
  refine ⟨?_, fun _ h => nomatch h⟩
  change (ciNames _).Nodup
  rw [ciNames_tableColumns]
  exact hnames

theorem SchemaOutcome.wf {db db' : Db} {created : Bool} {added widened : Nat}
    (h : SchemaOutcome env parsed db db' created added widened) (hwf : db.WF)
    (hnames : CiDistinct parsed.columns) : db'.WF := by
  cases h with
  | created hnone hcreate =>
      rintro token table htable
      cases htable
      exact wf_createNative hnames hcreate
  | absorbed => exact hwf
  | evolved htable _ _ hevolve _ =>
      rintro token table htable'
      cases htable'
      have hwf' := hwf _ _ htable
      exact (evolveNative_spec hwf'.names hnames hevolve).wf hwf'

/-- A new ingestor has no last layout to fall back on. -/
theorem Ready.resolveLayout {db₀ db : Db} {u : IngestState} {created : Bool}
    {added widened errors : Nat} {layout : AppendLayout} {t : IngestState}
    (h : Ready { IngestState.start db₀ with errors := errors } u db created added widened)
    (hlayout : resolveLayout env token table parsed u = .ok layout t) :
    resolveAppendLayout table parsed.columns = .ok layout ∧
      t.db = u.db ∧ t.pool = u.pool ∧ t.stats = u.stats := by
  obtain ⟨shape, -, rfl, hresolve | ⟨hcache, hne⟩⟩ := resolveLayout_ok hlayout
  · exact ⟨hresolve, rfl, rfl, rfl⟩
  · have hnil : u.appendLayout.layout.slotOf = [] := by
      rcases h.layout_eq with h | h <;> rw [h] <;> rfl
    rw [hcache] at hnil
    exact absurd hnil hne

/-- What a payload's ingest leaves: nothing changed for a payload without
columns, otherwise the rows of the payload behind those of a ready table. -/
inductive Ingested (env : NativeEnv) (parsed : RawParsedPayload) (db : Db) :
    Db → RawIngestStats → Prop where
  | skipped : parsed.columns = [] → db.table.isSome →
      Ingested env parsed db db { created := false, columnsAdded := 0, columnsWidened := 0,
                                  rows := 0, errors := parsed.payload.parseErrors }
  | appended {ready : Db} {created : Bool} {added widened token : Nat} {table : Table}
      {layout : AppendLayout} {new : List (List Cell)} : parsed.columns ≠ [] →
      SchemaOutcome env parsed db ready created added widened →
      ready.table = some (token, table) → table.WF → table.hasGenerated = false →
      resolveAppendLayout table parsed.columns = .ok layout →
      newRows env.duck layout parsed = .ok new →
      Ingested env parsed db (ready.appended token table new)
        { created, columnsAdded := added, columnsWidened := widened,
          rows := parsed.payload.rows.length, errors := parsed.payload.parseErrors }

/-- **One batch through an ingestor of its own**, when it succeeds: the pool
and the direct append come to the same rows. -/
theorem rawIngestParsedPayload_ok {db db' : Db} {stats : RawIngestStats} (hwf : db.WF)
    (hnames : CiDistinct parsed.columns)
    (hrows : parsed.columns ≠ [] → parsed.payload.rows ≠ [])
    (h : rawIngestParsedPayload env parsed db = .ok stats db') :
    Ingested env parsed db db' stats := by
  rw [rawIngestParsedPayload] at h
  split at h
  · next s hrun =>
    cases h
    obtain ⟨_, t, hingest, hfinish⟩ := run_bind_eq_ok.mp hrun
    obtain ⟨_, _, hu, hingest⟩ := run_bind_eq_ok.mp hingest
    cases hu
    obtain ⟨_, _, hget, hfinish⟩ := run_bind_eq_ok.mp hfinish
    cases hget
    rcases ingestNative_ok rfl hingest with ⟨hcols, hsome, hdb, hpool, hstats⟩ | ⟨hcols, ready,
      created, added, widened, token, table, u, houtcome, htable, hready, hend⟩
    · -- no columns: nothing happened
      simp only [hpool] at hfinish
      cases hfinish
      rw [hdb, hstats]
      have hskip : Ingested env parsed db db _ := .skipped hcols hsome
      simpa [IngestState.stats, IngestState.start] using hskip
    · obtain rfl : u.db = ready := hready.db_eq
      have hwf' := houtcome.wf hwf hnames token table htable
      have hstats := hready.stats_eq
      simp only [IngestState.stats, IngestState.start, RawIngestStats.mk.injEq, Bool.false_or,
        Nat.zero_add] at hstats
      obtain ⟨hcreated, hadded, hwidened, hcount, herrors⟩ := hstats
      rcases hend with ⟨hnil, -⟩ | ⟨-, hend⟩
      · exact absurd hnil (hrows hcols)
      · rcases submitOrAppend_ok hready.pool_eq hend with ⟨-, helig, rfl⟩ | ⟨-, happend⟩
        · -- the pool has the batch: `Finish` merges it
          simp only [htable] at hfinish
          obtain ⟨new, v, hdrain, hmodify⟩ := run_bind_eq_ok.mp hfinish
          obtain ⟨hdrain, hv⟩ := run_fromExcept_eq_ok.mp hdrain
          rw [hv] at hmodify
          cases hmodify
          obtain ⟨layout, hlayout, hnew⟩ := drainPool_single hwf' hnames hcols hdrain
          have hlen : new.length = parsed.payload.rows.length :=
            (mapM_eq_ok.mp hnew).length_eq.symm
          simp only [IngestState.stats, hcreated, hadded, hwidened, hcount, herrors, hlen,
            Nat.zero_add]
          exact .appended hcols houtcome htable hwf' (poolEligible_hasGenerated helig) hlayout hnew
        · obtain ⟨hgen, layout, v, hlayout, hrun⟩ := appendNative_ok happend
          obtain ⟨hresolve, hdb, hpool, hvstats⟩ := hready.resolveLayout hlayout
          obtain ⟨new, hnew, rfl⟩ := hrun (resolveAppendLayout_spec hwf' hnames hresolve).1
          simp only [hpool, hready.pool_eq] at hfinish
          cases hfinish
          simp only [IngestState.stats, RawIngestStats.mk.injEq] at hvstats
          obtain ⟨hvc, hva, hvw, hvr, hve⟩ := hvstats
          simp only [IngestState.stats, hvc, hva, hvw, hvr, hve, hcreated, hadded, hwidened,
            hcount, herrors, hdb, Nat.zero_add]
          exact .appended hcols houtcome htable hwf' hgen hresolve hnew
  · exact nomatch h

end RawDuck
