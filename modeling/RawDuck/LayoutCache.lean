import RawDuck.AppendPool
import RawDuck.SchemaCache

/-!
# RawDuck.LayoutCache

The two layout caches: that of the ingestor, under the storage token and the
signature of a batch, and that of every pool worker, under the signature and the
number of columns.  A signature of 0 marks a layout as not to be used.

* `Told` — what the signatures have to tell of the batches of a run;
* `resolveAfresh` — `ResolveAppendLayout` without its cache, and `cacheStepWith`
  the events of `cacheSystem` under any way to resolve a layout;
* `LayoutInv` — the ingestor's last layout, unless it is marked, is that of a
  batch of its signature;
* `layoutCaches_faithful` — the ingestor does what it would do without the cache,
  and what a worker takes from its cache is the layout of the batch;
* `layoutCache_misleads` — two batches of one signature for different columns.
-/

namespace RawDuck

open Fallible Transition Transition.System

/-! ## what signatures tell -/

/-- The FNV fold tells the sequences of these columns apart. -/
def FoldTells (duck : Duck) (batches : Set (List RawColumn)) : Prop :=
  Set.InjOn (fnvFold 0xcbf29ce484222325) (Set.image (shapeSequence duck) batches)

/-- Two batches that are `compared` have the same names when their characters and
type ids make one sequence, and no batch has the signature that is the mark. -/
structure Told (duck : Duck) (compared : List RawColumn → List RawColumn → Prop)
    (batches : Set (List RawColumn)) : Prop where
  names : ∀ p ∈ batches, ∀ q ∈ batches, (∀ c ∈ p ++ q, isHashable c.name = true) →
    compared p q → shapeSequence duck p = shapeSequence duck q → rawNames p = rawNames q
  mark : ∀ p ∈ batches, hashPayloadShape duck p ≠ .ok 0

section

variable {duck : Duck} {compared : List RawColumn → List RawColumn → Prop}
  {batches : Set (List RawColumn)} {p q : List RawColumn} {shape : UInt64}

theorem Told.names_of_shape (htold : Told duck compared batches) (hfold : FoldTells duck batches)
    (hp : p ∈ batches) (hq : q ∈ batches) (hcompared : compared p q)
    (hps : hashPayloadShape duck p = .ok shape) (hqs : hashPayloadShape duck q = .ok shape) :
    rawNames p = rawNames q := by
  obtain ⟨hpn, hpf⟩ := hashPayloadShape_eq_ok.mp hps
  obtain ⟨hqn, hqf⟩ := hashPayloadShape_eq_ok.mp hqs
  have hsequence := hfold ⟨p, hp, rfl⟩ ⟨q, hq, rfl⟩ (hpf.trans hqf.symm)
  refine htold.names p hp q hq (fun c hc => ?_) hcompared hsequence
  cases List.mem_append.mp hc with
  | inl hc => exact hpn c hc
  | inr hc => exact hqn c hc

end

/-! ## the ingestor without its cache -/

/-- `ResolveAppendLayout`, always by name; what it notes is what it notes on a miss. -/
def resolveAfresh (env : NativeEnv) (token : Nat) (table : Table) (parsed : RawParsedPayload) :
    Ingest AppendLayout := do
  let shape ← fromExcept (hashPayloadShape env.duck parsed.columns)
  let s ← get
  let layout ← fromExcept (resolveAppendLayout table parsed.columns)
  set { s with appendLayout := { storageToken := some token, shape, layout } }
  return layout

section

variable (resolve : Nat → Table → RawParsedPayload → Ingest AppendLayout) (env : NativeEnv)

/-- `AppendNative`. -/
def appendNativeWith (token : Nat) (table : Table) (parsed : RawParsedPayload) : Ingest Unit := do
  if table.hasGenerated then throw generatedColumnsError
  let layout ← resolve token table parsed
  let table ← fromExcept (appendBlocks env.duck env.catalog layout parsed table)
  modify fun s => { s with
    db := { s.db with table := some (token, table) }
    rows := s.rows + parsed.payload.rows.length }

/-- The end of a batch. -/
def submitOrAppendWith (token : Nat) (table : Table) (parsed : RawParsedPayload) :
    Ingest Unit := do
  ensurePool env table parsed
  let s ← get
  match s.pool with
  | some pool => set { s with pool := some { pool with queue := pool.queue ++ [parsed] } }
  | none => appendNativeWith resolve env token table parsed

/-- The end of every route. -/
def appendRowsWith (parsed : RawParsedPayload) : Ingest Unit := do
  if parsed.payload.rows.isEmpty then return
  else match ← lookupTableCached with
    | none => throw (disappearedError env)
    | some (token, table) => submitOrAppendWith resolve env token table parsed

/-- `LegacyIngestNative`. -/
def legacyIngestNativeWith (table : Option (Nat × Table)) (parsed : RawParsedPayload) :
    Ingest Unit :=
  if table.isNone && parsed.columns.isEmpty then throw (emptyPayloadError env)
  else if parsed.columns.isEmpty then return
  else do
    match table with
    | none => createTable env parsed
    | some (token, table) => schemaStep env token table parsed
    appendRowsWith resolve env parsed

/-- `IngestNative`. -/
def ingestNativeWith (parsed : RawParsedPayload) : Ingest Unit := do
  match ← lookupTableCached with
  | none => legacyIngestNativeWith resolve env none parsed
  | some (token, table) =>
      if parsed.columns.isEmpty then legacyIngestNativeWith resolve env (some (token, table)) parsed
      else do
        let shape ← fromExcept (hashPayloadShape env.duck parsed.columns)
        let s ← get
        if isAbsorbed s.db.cache token shape then appendRowsWith resolve env parsed
        else do
          absorb env token table shape parsed
          appendRowsWith resolve env parsed

/-- `IngestParsed` of a native ingestor. -/
def ingestParsedWith (parsed : RawParsedPayload) : Ingest Unit := do
  modify fun s => { s with errors := s.errors + parsed.payload.parseErrors }
  ingestNativeWith resolve env parsed

/-- `SubmitPreparedBatch`. -/
def submitPreparedBatchWith (parsed : RawParsedPayload) (usePool : Bool) : Ingest Unit := do
  if parsed.payload.rows.isEmpty then return
  else do
    let s ← get
    match usePool, s.pool with
    | true, some pool => set { s with pool := some { pool with queue := pool.queue ++ [parsed] } }
    | _, _ =>
        match ← lookupTableCached with
        | none => throw (disappearedError env)
        | some (token, table) => appendNativeWith resolve env token table parsed

/-- The events of the cache system; only these two resolve a layout. -/
def cacheStepWith (s : CacheState) : CacheEvent env.duck → Option CacheState
  | .ingest p => some (s.attempt (ingestParsedWith resolve env p.toRawParsedPayload))
  | .submit p usePool =>
      some (s.attempt (submitPreparedBatchWith resolve env p.toRawParsedPayload usePool))
  | event => cacheStep env s event

end

/-- With `ResolveAppendLayout` these are the events of the cache system. -/
theorem cacheStepWith_resolveLayout (env : NativeEnv) (s : CacheState)
    (event : CacheEvent env.duck) :
    cacheStepWith (resolveLayout env) env s event = cacheStep env s event := by
  cases event with
  | ingest p => rfl
  | submit p usePool => rfl
  | _ => rfl

/-! ## the last layout of the ingestor -/

/-- The last layout, unless it is marked, is what resolving some batch of its
signature gives on the table of its storage. -/
def LayoutInv (duck : Duck) (batches : Set (List RawColumn)) (s : IngestState) : Prop :=
  s.appendLayout.shape ≠ 0 → ∃ columns ∈ batches,
    hashPayloadShape duck columns = .ok s.appendLayout.shape ∧
    ∀ token table, s.appendLayout.storageToken = some token →
      s.db.table = some (token, table) →
      resolveAppendLayout table columns = .ok s.appendLayout.layout

/-- The last layout is taken for a batch on the table under this token. -/
def LayoutHit (s : IngestState) (token : Nat) (shape : UInt64) : Prop :=
  s.appendLayout.storageToken = some token ∧ s.appendLayout.shape = shape ∧
    s.appendLayout.layout.slotOf ≠ []

section

variable {env : NativeEnv} {batches : Set (List RawColumn)} {s u : IngestState} {token : Nat}
  {table : Table} {parsed : RawParsedPayload}

theorem LayoutInv.of_marked {duck : Duck} (h : s.appendLayout.shape = 0) :
    LayoutInv duck batches s := fun hne => absurd h hne

/-- Layouts depend on the columns of the table only. -/
theorem resolveAppendLayout_congr {t t' : Table} (h : t.columns = t'.columns)
    (columns : List RawColumn) :
    resolveAppendLayout t columns = resolveAppendLayout t' columns := by
  rw [resolveAppendLayout, resolveAppendLayout, h]

/-- The same last layout beside a table of which at most the rows changed. -/
theorem LayoutInv.rowsOnly {duck : Duck} (h : LayoutInv duck batches s)
    (hlayout : u.appendLayout = s.appendLayout) (hrows : RowsOnly s.db u.db) :
    LayoutInv duck batches u := by
  intro hne
  rw [hlayout] at hne ⊢
  obtain ⟨columns, hcolumns, hshape, hresolve⟩ := h hne
  refine ⟨columns, hcolumns, hshape, fun token table htoken htable => ?_⟩
  obtain ⟨before, hbefore, hcols⟩ := hrows.symm.exists_table htable
  rw [← hresolve token before htoken hbefore]
  exact resolveAppendLayout_congr hcols.symm columns

/-- A last layout that is taken is what resolving the batch afresh gives. -/
theorem LayoutInv.hit {duck : Duck} (h : LayoutInv duck batches s)
    (hfold : FoldTells duck batches) (htold : Told duck (fun _ _ => True) batches)
    {columns : List RawColumn} (hcolumns : columns ∈ batches) {shape : UInt64}
    (hshape : hashPayloadShape duck columns = .ok shape) (hhit : LayoutHit s token shape)
    (htable : s.db.table = some (token, table)) :
    resolveAppendLayout table columns = .ok s.appendLayout.layout := by
  obtain ⟨htoken, hcached, -⟩ := hhit
  have hne : s.appendLayout.shape ≠ 0 := by
    rintro hzero
    rw [hcached] at hzero
    exact htold.mark columns hcolumns (hzero ▸ hshape)
  obtain ⟨last, hlast, hlastShape, hresolve⟩ := h hne
  have hnames := htold.names_of_shape hfold hcolumns hlast trivial hshape (hcached ▸ hlastShape)
  have hlayout := AppendPool.resolveAppendLayout_iff.mp (hresolve token table htoken htable)
  rw [← AppendPool.layoutOf_congr hnames] at hlayout
  exact AppendPool.resolveAppendLayout_iff.mpr hlayout

/-! ## what the steps of an ingest keep -/

/-- Looking the table up keeps the last layout, or marks it. -/
theorem lookupTableCached_layout {duck : Duck} (h : LayoutInv duck batches s) :
    Leaves lookupTableCached s (fun t u => t = s.db.table ∧ u.db = s.db ∧ LayoutInv duck batches u)
      fun _ => True := by
  constructor
  · intro t u hrun
    rw [lookupTableCached_eq] at hrun
    obtain ⟨rfl, rfl⟩ := EStateM.Result.ok.inj hrun
    refine ⟨rfl, lookedUp_db s, ?_⟩
    rw [IngestState.lookedUp]
    split
    · exact .of_marked rfl
    · split
      · exact .of_marked rfl
      · exact h
  · exact fun _ _ _ => trivial

theorem ensurePool_layout (parsed : RawParsedPayload) {duck : Duck} (h : LayoutInv duck batches s) :
    Leaves (ensurePool env table parsed) s (fun _ u => u.db = s.db ∧ LayoutInv duck batches u)
      fun _ => True := by
  refine .get_bind ?_
  split
  · exact .pure ⟨rfl, h⟩
  · exact .set ⟨rfl, h⟩

/-- The schema step marks the last layout. -/
theorem schemaStep_layout {duck : Duck} :
    Leaves (schemaStep env token table parsed) s (fun _ u => LayoutInv duck batches u)
      fun _ => True := by
  refine .bind (fun _ _ => True) ⟨fun _ _ _ => trivial, fun _ _ _ => trivial⟩ fun _ t _ => ?_
  refine .bind (fun _ _ => True) ⟨fun _ _ _ => trivial, fun _ _ _ => trivial⟩ fun _ u _ => ?_
  refine .bind (fun _ v => v.appendLayout.shape = 0) (.modify rfl) fun _ v hmarked => ?_
  split
  · exact .pure (.of_marked hmarked)
  · exact .modify (.of_marked hmarked)

/-- So does creating the table. -/
theorem createTable_layout {duck : Duck} :
    Leaves (createTable env parsed) s (fun _ u => LayoutInv duck batches u) fun _ => True := by
  refine .bind (fun _ _ => True) ⟨fun _ _ _ => trivial, fun _ _ _ => trivial⟩ fun _ t _ => ?_
  refine .bind (fun _ _ => True) (.modify trivial) fun _ u _ => ?_
  exact .modify (.of_marked rfl)

theorem absorb_layout {duck : Duck} {shape : UInt64} :
    Leaves (absorb env token table shape parsed) s (fun _ u => LayoutInv duck batches u)
      fun _ => True := by
  refine .bind (fun _ t => LayoutInv duck batches t) schemaStep_layout fun _ t ht => ?_
  refine .bind _ (lookupTableCached_layout ht) fun found u hu => ?_
  split
  · exact .throw trivial
  · exact .modify hu.2.2

/-- With the last layout right, taking it and resolving afresh are the same. -/
theorem resolveLayout_agrees (h : LayoutInv env.duck batches s) (hfold : FoldTells env.duck batches)
    (htold : Told env.duck (fun _ _ => True) batches) (hparsed : parsed.columns ∈ batches)
    (htable : s.db.table = some (token, table)) :
    Agree (resolveAfresh env token table parsed) (resolveLayout env token table parsed) s
      fun _ u => u.db = s.db ∧ LayoutInv env.duck batches u := by
  refine .bind (fun shape u => u = s ∧ hashPayloadShape env.duck parsed.columns = .ok shape)
    (.of_leaves (.fromExcept (fun shape hshape => ⟨rfl, hshape⟩) trivial)) ?_
  rintro shape u ⟨rfl, hshape⟩
  refine .get_bind ?_
  split
  · next hhit =>
    have hresolve := h.hit hfold htold hparsed hshape hhit htable
    obtain ⟨htoken, hcached, -⟩ := hhit
    have hsame : ({ u with
        appendLayout := ⟨some token, shape, u.appendLayout.layout⟩ } : IngestState) = u := by
      rw [← htoken, ← hcached]
    constructor
    · rw [hresolve]
      show EStateM.Result.ok _ _ = EStateM.Result.ok _ _
      rw [hsame]
    · intro layout v hrun
      rw [hresolve] at hrun
      obtain ⟨-, rfl⟩ := EStateM.Result.ok.inj hrun
      rw [hsame]
      exact ⟨rfl, h⟩
  · refine .bind (fun layout v => v = u ∧ resolveAppendLayout table parsed.columns = .ok layout)
      (.of_leaves (.fromExcept (fun layout hl => ⟨rfl, hl⟩) trivial)) ?_
    rintro layout v ⟨rfl, hlayout⟩
    refine .of_leaves (.bind (fun _ w => w = { v with
      appendLayout := ⟨some token, shape, layout⟩ }) (.set rfl) ?_)
    rintro _ w rfl
    refine .pure ⟨rfl, fun _ => ⟨parsed.columns, hparsed, hshape, ?_⟩⟩
    rintro token' table' htoken' htable'
    obtain rfl := Option.some.inj htoken'
    obtain ⟨-, rfl⟩ := Prod.mk.inj (Option.some.inj (htable.symm.trans htable'))
    exact hlayout

/-- What a batch needs of a run in which the two ways to resolve are compared. -/
structure Resolves (env : NativeEnv) (batches : Set (List RawColumn)) (parsed : RawParsedPayload) :
    Prop where
  fold : FoldTells env.duck batches
  told : Told env.duck (fun _ _ => True) batches
  mem : parsed.columns ∈ batches

theorem appendNative_agrees (hparsed : Resolves env batches parsed)
    (h : LayoutInv env.duck batches s) (htable : s.db.table = some (token, table)) :
    Agree (appendNativeWith (resolveAfresh env) env token table parsed)
      (appendNative env token table parsed) s fun _ u => LayoutInv env.duck batches u := by
  unfold appendNativeWith appendNative
  split
  · exact .bind (fun _ _ => False) (.of_leaves (.throw trivial)) fun _ _ h => h.elim
  · refine .bind _ (resolveLayout_agrees h hparsed.fold hparsed.told hparsed.mem htable) ?_
    rintro layout u ⟨hdb, hu⟩
    refine .bind (fun t v => v = u ∧ t.columns = table.columns)
      (.of_leaves (.fromExcept (fun t ht => ⟨rfl, appendBlocks_columns ht⟩) trivial)) ?_
    rintro t _ ⟨rfl, hcols⟩
    exact .of_leaves (.modify (hu.rowsOnly rfl (.rows (hdb.symm ▸ htable) hcols)))

theorem submitOrAppend_agrees (hparsed : Resolves env batches parsed)
    (h : LayoutInv env.duck batches s) (htable : s.db.table = some (token, table)) :
    Agree (submitOrAppendWith (resolveAfresh env) env token table parsed)
      (submitOrAppend env token table parsed) s fun _ u => LayoutInv env.duck batches u := by
  refine .bind _ (.of_leaves (ensurePool_layout parsed h)) ?_
  rintro _ u ⟨hdb, hu⟩
  refine .get_bind ?_
  cases u.pool with
  | none => exact appendNative_agrees hparsed hu (hdb.symm ▸ htable)
  | some pool => exact .of_leaves (.set hu)

theorem appendRows_agrees (hparsed : Resolves env batches parsed)
    (h : LayoutInv env.duck batches s) :
    Agree (appendRowsWith (resolveAfresh env) env parsed) (appendRows env parsed) s
      fun _ u => LayoutInv env.duck batches u := by
  unfold appendRowsWith appendRows
  split
  · exact .of_leaves (.pure h)
  · refine .bind _ (.of_leaves (lookupTableCached_layout h)) ?_
    rintro found u ⟨rfl, hdb, hu⟩
    cases htable : s.db.table with
    | none => exact .of_leaves (.throw trivial)
    | some version => exact submitOrAppend_agrees hparsed hu (hdb.symm ▸ htable)

theorem legacyIngestNative_agrees (hparsed : Resolves env batches parsed)
    (h : LayoutInv env.duck batches s) (found : Option (Nat × Table)) :
    Agree (legacyIngestNativeWith (resolveAfresh env) env found parsed)
      (legacyIngestNative env found parsed) s fun _ u => LayoutInv env.duck batches u := by
  unfold legacyIngestNativeWith legacyIngestNative
  split
  · exact .of_leaves (.throw trivial)
  · split
    · exact .of_leaves (.pure h)
    · cases found with
      | none =>
          exact .bind _ (.of_leaves createTable_layout) fun _ u hu => appendRows_agrees hparsed hu
      | some version =>
          exact .bind _ (.of_leaves schemaStep_layout) fun _ u hu => appendRows_agrees hparsed hu

theorem ingestNative_agrees (hparsed : Resolves env batches parsed)
    (h : LayoutInv env.duck batches s) :
    Agree (ingestNativeWith (resolveAfresh env) env parsed) (ingestNative env parsed) s
      fun _ u => LayoutInv env.duck batches u := by
  refine .bind _ (.of_leaves (lookupTableCached_layout h)) ?_
  rintro found u ⟨rfl, hdb, hu⟩
  cases htable : s.db.table with
  | none => exact legacyIngestNative_agrees hparsed hu none
  | some version =>
      obtain ⟨token, table⟩ := version
      dsimp only
      split
      · exact legacyIngestNative_agrees hparsed hu _
      · refine .bind (fun _ v => v = u) (.of_leaves (.fromExcept (fun _ _ => rfl) trivial)) ?_
        rintro shape v rfl
        refine .get_bind ?_
        split
        · exact appendRows_agrees hparsed hu
        · exact .bind _ (.of_leaves absorb_layout) fun _ w hw => appendRows_agrees hparsed hw

theorem ingestParsed_agrees (hparsed : Resolves env batches parsed)
    (h : LayoutInv env.duck batches s) :
    Agree (ingestParsedWith (resolveAfresh env) env parsed) (ingestParsed env parsed) s
      fun _ u => LayoutInv env.duck batches u :=
  .bind (fun _ u => LayoutInv env.duck batches u) (.of_leaves (.modify h)) fun _ _ hu =>
    ingestNative_agrees hparsed hu

/-- Without a pool, a prepared batch is appended to the table that is looked up. -/
theorem lookupThenAppend_agrees (hparsed : Resolves env batches parsed)
    (h : LayoutInv env.duck batches s) :
    Agree
      (do
        match ← lookupTableCached with
        | none => throw (disappearedError env)
        | some (token, table) => appendNativeWith (resolveAfresh env) env token table parsed)
      (do
        match ← lookupTableCached with
        | none => throw (disappearedError env)
        | some (token, table) => appendNative env token table parsed)
      s fun _ u => LayoutInv env.duck batches u := by
  refine .bind _ (.of_leaves (lookupTableCached_layout h)) ?_
  rintro found u ⟨rfl, hdb, hu⟩
  cases htable : s.db.table with
  | none => exact .of_leaves (.throw trivial)
  | some version => exact appendNative_agrees hparsed hu (hdb.symm ▸ htable)

theorem submitPreparedBatch_agrees (hparsed : Resolves env batches parsed)
    (h : LayoutInv env.duck batches s) (usePool : Bool) :
    Agree (submitPreparedBatchWith (resolveAfresh env) env parsed usePool)
      (submitPreparedBatch env parsed usePool) s fun _ u => LayoutInv env.duck batches u := by
  unfold submitPreparedBatchWith submitPreparedBatch
  split
  · exact .of_leaves (.pure h)
  · refine .get_bind ?_
    cases usePool with
    | false => exact lookupThenAppend_agrees hparsed h
    | true =>
        cases s.pool with
        | none => exact lookupThenAppend_agrees hparsed h
        | some pool => exact .of_leaves (.set h)

/-- The steps that resolve no layout. -/
theorem prepareForAppend_layout (h : LayoutInv env.duck batches s) :
    Leaves (prepareForAppend env parsed) s (fun _ u => LayoutInv env.duck batches u)
      fun _ => True := by
  have hrows : ∀ {s : IngestState}, LayoutInv env.duck batches s →
      Leaves (prepareRows env parsed) s (fun _ u => LayoutInv env.duck batches u)
        fun _ => True := by
    intro s h
    unfold prepareRows
    split
    · exact .pure h
    · refine .bind _ (lookupTableCached_layout h) ?_
      rintro found u ⟨rfl, -, hu⟩
      cases s.db.table with
      | none => exact .throw trivial
      | some version =>
          exact .bind _ (ensurePool_layout parsed hu) fun _ v hv => .get_bind (.pure hv.2)
  refine .bind _ (lookupTableCached_layout h) ?_
  rintro found u ⟨rfl, -, hu⟩
  cases s.db.table with
  | none => exact .pure hu
  | some version =>
      dsimp only
      split
      · exact .pure hu
      · refine .bind (fun _ v => v = u) (.fromExcept (fun _ _ => rfl) trivial) ?_
        rintro shape v rfl
        refine .get_bind ?_
        split
        · exact hrows hu
        · exact .bind _ absorb_layout fun _ w hw => hrows hw

theorem finish_layout (h : LayoutInv env.duck batches s) :
    Leaves (finish env) s (fun _ u => LayoutInv env.duck batches u) fun _ => True := by
  refine .get_bind ?_
  split
  · exact .pure h
  · cases htable : s.db.table with
    | none => exact .throw trivial
    | some version =>
        refine .bind (fun _ u => u = s) (.fromExcept (fun _ _ => rfl) trivial) ?_
        rintro rows u rfl
        exact .modify (h.rowsOnly rfl (.rows htable rfl))

end

/-! ## runs of the ingestor -/

section

variable {env : NativeEnv} {payloads : Set (ProcessedPayload env.duck)}

/-- The columns of some payloads. -/
def columnsOf {duck : Duck} (payloads : Set (ProcessedPayload duck)) : Set (List RawColumn) :=
  Set.image (fun p => p.columns) payloads

theorem attempt_layout {batches : Set (List RawColumn)} {s : CacheState} {α : Type} {x : Ingest α}
    (h : ∀ a u, x s.ingestor = .ok a u → LayoutInv env.duck batches u) :
    LayoutInv env.duck batches (s.attempt x).ingestor := by
  rw [CacheState.attempt]
  split
  · next a u hrun => exact h a u hrun
  · exact .of_marked rfl

theorem resolves_of_mem (hfold : FoldTells env.duck (columnsOf payloads))
    (htold : Told env.duck (fun _ _ => True) (columnsOf payloads)) {p : ProcessedPayload env.duck}
    (hp : p ∈ payloads) : Resolves env (columnsOf payloads) p.toRawParsedPayload :=
  ⟨hfold, htold, p, hp, rfl⟩

/-- Every event keeps the last layout right. -/
theorem LayoutInv.step (hfold : FoldTells env.duck (columnsOf payloads))
    (htold : Told env.duck (fun _ _ => True) (columnsOf payloads)) {s s' : CacheState}
    {event : CacheEvent env.duck} (hevent : payloadsIn payloads s event)
    (h : LayoutInv env.duck (columnsOf payloads) s.ingestor)
    (hstep : cacheStep env s event = some s') :
    LayoutInv env.duck (columnsOf payloads) s'.ingestor := by
  cases event with
  | «open» =>
      obtain rfl := Option.some.inj hstep
      exact .of_marked rfl
  | ingest p =>
      obtain rfl := Option.some.inj hstep
      have hagree := ingestParsed_agrees (resolves_of_mem hfold htold hevent) h
      exact attempt_layout fun a u hrun => hagree.2 a u (hagree.1.trans hrun)
  | prepare p =>
      obtain rfl := Option.some.inj hstep
      exact attempt_layout (prepareForAppend_layout h).1
  | submit p usePool =>
      obtain rfl := Option.some.inj hstep
      have hagree := submitPreparedBatch_agrees (resolves_of_mem hfold htold hevent) h usePool
      exact attempt_layout fun a u hrun => hagree.2 a u (hagree.1.trans hrun)
  | finish =>
      obtain rfl := Option.some.inj hstep
      exact attempt_layout (finish_layout h).1
  | commit =>
      obtain rfl := Option.some.inj hstep
      exact h
  | rollback =>
      obtain rfl := Option.some.inj hstep
      exact .of_marked rfl
  | statement table =>
      rw [cacheStep] at hstep
      split at hstep
      · obtain rfl := Option.some.inj hstep
        exact .of_marked rfl
      · contradiction

theorem LayoutInv.reachable (hfold : FoldTells env.duck (columnsOf payloads))
    (htold : Told env.duck (fun _ _ => True) (columnsOf payloads)) {s : CacheState}
    (h : Reachable (cacheSystem env) (payloadsIn payloads) s) :
    LayoutInv env.duck (columnsOf payloads) s.ingestor :=
  h.invariant (fun s => LayoutInv env.duck (columnsOf payloads) s.ingestor) (.of_marked rfl)
    fun _ _ _ hs hevent hstep => hs.step hfold htold hevent hstep

/-- The ingestor of a run does what it would do without its cache. -/
theorem cacheStepWith_resolveAfresh (hfold : FoldTells env.duck (columnsOf payloads))
    (htold : Told env.duck (fun _ _ => True) (columnsOf payloads)) {s : CacheState}
    (h : Reachable (cacheSystem env) (payloadsIn payloads) s) {event : CacheEvent env.duck}
    (hevent : payloadsIn payloads s event) :
    cacheStepWith (resolveAfresh env) env s event = cacheStep env s event := by
  have hinv := LayoutInv.reachable hfold htold h
  cases event with
  | ingest p =>
      have hagree := ingestParsed_agrees (resolves_of_mem hfold htold hevent) hinv
      simp only [cacheStepWith, cacheStep, CacheState.attempt, hagree.1]
  | submit p usePool =>
      have hagree := submitPreparedBatch_agrees (resolves_of_mem hfold htold hevent) hinv usePool
      simp only [cacheStepWith, cacheStep, CacheState.attempt, hagree.1]
  | _ => rfl

end

/-! ## runs of the pool -/

namespace AppendPool

section

variable {n : Nat} {duck : Duck} {batches : Set Batch} {s : State n} {done : Fin n → List Batch}

/-- The columns of some batches. -/
def columnsOf (batches : Set Batch) : Set (List RawColumn) :=
  Set.image (fun batch => batch.columns) batches

/-- Two batches as far as the number of columns tells. -/
def SameWidth (p q : List RawColumn) : Prop := p.length = q.length

theorem widthsTell_of_told (hfold : FoldTells duck (columnsOf batches))
    (htold : Told duck SameWidth (columnsOf batches)) : WidthsTell duck batches :=
  fun p hp q hq _ hps hqs hwidth =>
    htold.names_of_shape hfold ⟨p, hp, rfl⟩ ⟨q, hq, rfl⟩ hwidth hps hqs

/-- Without a batch of signature 0, no worker is misled. -/
theorem PoolInv.not_misled (h : PoolInv duck batches s done)
    (htold : Told duck SameWidth (columnsOf batches)) {w : Fin n} {batch : Batch}
    (hphase : (s.workers w).phase = .ready batch) : ¬ Misled duck (s.workers w) batch := by
  intro hmisled
  have hbatch : batch ∈ batches := (h.workers w).hand batch (by
    rw [hphase]
    exact List.mem_cons_self)
  exact htold.mark batch.columns ⟨batch, hbatch, rfl⟩ hmisled.1

theorem exists_poolInv_of_told {depth : Nat} {columns : List Column}
    (hfold : FoldTells duck (columnsOf batches))
    (htold : Told duck SameWidth (columnsOf batches)) (hnames : (ciNames columns).Nodup)
    (h : Reachable (system duck n depth columns) (SubmitsFrom batches) s) :
    ∃ done, PoolInv duck batches s done := by
  refine h.invariant (fun s => ∃ done, PoolInv duck batches s done) ⟨_, .start hnames⟩ ?_
  rintro s a s' ⟨done, hs⟩ hfrom hstep
  have hguard : Guard duck batches s a := by
    cases a with
    | submit batch => exact hfrom
    | layOut w => exact fun batch hphase => hs.not_misled htold hphase
    | _ => trivial
  exact hs.step (widthsTell_of_told hfold htold) hguard hstep

/-- What a worker of a run takes from its cache is the layout of its batch. -/
theorem layoutOf_of_hits {depth : Nat} {columns : List Column}
    (hfold : FoldTells duck (columnsOf batches))
    (htold : Told duck SameWidth (columnsOf batches)) (hnames : (ciNames columns).Nodup)
    (h : Reachable (system duck n depth columns) (SubmitsFrom batches) s) {w : Fin n}
    {batch : Batch} {shape : UInt64} (hphase : (s.workers w).phase = .ready batch)
    (hshape : hashPayloadShape duck batch.columns = .ok shape)
    (hhit : (s.workers w).hits shape batch.columns = true) :
    layoutOf (s.workers w).columns batch.columns = some (s.workers w).cachedLayout := by
  obtain ⟨done, hinv⟩ := exists_poolInv_of_told hfold htold hnames h
  exact (hinv.workers w).hit (widthsTell_of_told hfold htold) hphase hshape hhit
    (hinv.not_misled htold hphase)

end

end AppendPool

/-! ## both caches -/

/-- **The layout caches**: in a run whose signatures tell names apart, a layout the
ingestor takes from its cache is that of the batch, so every event does what it
would do without the cache; and a layout a pool worker takes from its own is that
of the batch under the worker's columns. -/
theorem layoutCaches_faithful (env : NativeEnv) (payloads : Set (ProcessedPayload env.duck))
    (hfold : FoldTells env.duck (columnsOf payloads))
    (htold : Told env.duck (fun _ _ => True) (columnsOf payloads))
    (batches : Set AppendPool.Batch)
    (hfolds : FoldTells env.duck (AppendPool.columnsOf batches))
    (htolds : Told env.duck AppendPool.SameWidth (AppendPool.columnsOf batches)) :
    (∀ s, Reachable (cacheSystem env) (payloadsIn payloads) s →
      (∀ p ∈ payloads, ∀ token table shape, s.ingestor.db.table = some (token, table) →
        hashPayloadShape env.duck p.columns = .ok shape → LayoutHit s.ingestor token shape →
        resolveAppendLayout table p.columns = .ok s.ingestor.appendLayout.layout) ∧
      ∀ event, payloadsIn payloads s event →
        cacheStepWith (resolveAfresh env) env s event = cacheStep env s event) ∧
    ∀ (n depth : Nat) (columns : List Column), (ciNames columns).Nodup →
      ∀ s, Reachable (AppendPool.system env.duck n depth columns)
        (AppendPool.SubmitsFrom batches) s →
      ∀ w batch shape, (s.workers w).phase = .ready batch →
        hashPayloadShape env.duck batch.columns = .ok shape →
        (s.workers w).hits shape batch.columns = true →
        AppendPool.layoutOf (s.workers w).columns batch.columns =
          some (s.workers w).cachedLayout := by
  constructor
  · intro s hreach
    have hinv := LayoutInv.reachable hfold htold hreach
    constructor
    · intro p hp token table shape htable hshape hhit
      exact hinv.hit hfold htold ⟨p, hp, rfl⟩ hshape hhit htable
    · intro event hevent
      exact cacheStepWith_resolveAfresh hfold htold hreach hevent
  · intro n depth columns hnames s hreach w batch shape hphase hshape hhit
    exact AppendPool.layoutOf_of_hits hfolds htolds hnames hreach hphase hshape hhit

theorem foldTells_singleton (duck : Duck) (columns : List RawColumn) :
    FoldTells duck {columns} := by
  refine injOn_fnvFold_of_eq (shapeSequence duck columns) ?_
  rintro p rfl
  rfl

theorem told_singleton {duck : Duck} {compared : List RawColumn → List RawColumn → Prop}
    {columns : List RawColumn} (hmark : hashPayloadShape duck columns ≠ .ok 0) :
    Told duck compared {columns} where
  names := by
    rintro p rfl q rfl - - -
    rfl
  mark := by
    rintro p rfl
    exact hmark

open AppendPool (soleWorker) in
/-- The worker appends a batch and takes it again. -/
def sameBatchTwice : List (AppendPool.Label 1) :=
  [.submit AppendPool.plainBatch, .take soleWorker, .extend soleWorker, .layOut soleWorker,
    .remember soleWorker, .append soleWorker, .submit AppendPool.plainBatch, .take soleWorker,
    .extend soleWorker]

/-- `{"a": [1]}` ingested twice, and a worker's second `{"x": false}`. -/
theorem layoutCaches_faithful_repeated :
    (∃ s token table shape, Reachable (cacheSystem smallEnv) (payloadsIn {numbersPayload}) s ∧
      s.ingestor.db.table = some (token, table) ∧ LayoutHit s.ingestor token shape ∧
      resolveAppendLayout table numbersPayload.columns = .ok s.ingestor.appendLayout.layout ∧
      cacheStepWith (resolveAfresh smallEnv) smallEnv s (.ingest numbersPayload) =
        cacheStep smallEnv s (.ingest numbersPayload)) ∧
    ∃ s shape, (AppendPool.system smallDuck 1 4 [AppendPool.booleanColumn "x"]).run
        sameBatchTwice = some s ∧
      hashPayloadShape smallDuck AppendPool.plainBatch.columns = .ok shape ∧
      (s.workers 0).hits shape AppendPool.plainBatch.columns = true ∧
      AppendPool.layoutOf (s.workers 0).columns AppendPool.plainBatch.columns =
        some (s.workers 0).cachedLayout := by
  have hpayloads : columnsOf {numbersPayload} = {numbersPayload.columns} := Set.image_singleton
  have hbatches : AppendPool.columnsOf {AppendPool.plainBatch} =
      {AppendPool.plainBatch.columns} := Set.image_singleton
  have hmark : hashPayloadShape smallDuck numbersPayload.columns ≠ .ok 0 := by decide
  have hmarks : hashPayloadShape smallDuck AppendPool.plainBatch.columns ≠ .ok 0 := by decide
  obtain ⟨hingestor, hpool⟩ := layoutCaches_faithful smallEnv {numbersPayload}
    (hpayloads ▸ foldTells_singleton _ _) (hpayloads ▸ told_singleton hmark)
    {AppendPool.plainBatch} (hbatches ▸ foldTells_singleton _ _) (hbatches ▸ told_singleton hmarks)
  constructor
  · have hreach : Reachable (cacheSystem smallEnv) (payloadsIn {numbersPayload}) _ :=
      .step (.step .init (a := .ingest numbersPayload) rfl rfl)
        (a := .ingest numbersPayload) rfl rfl
    obtain ⟨hlayout, hevent⟩ := hingestor _ hreach
    have hslots : ([0] : List Nat) ≠ [] := List.cons_ne_nil 0 []
    exact ⟨_, 0, _, _, hreach, rfl, ⟨rfl, rfl, hslots⟩,
      hlayout numbersPayload rfl 0 _ _ rfl rfl ⟨rfl, rfl, hslots⟩,
      hevent (.ingest numbersPayload) rfl⟩
  · have hguarded : ∀ a ∈ sameBatchTwice, ∀ s,
        AppendPool.SubmitsFrom {AppendPool.plainBatch} s a := by
      simp [sameBatchTwice, AppendPool.SubmitsFrom]
    have hlayout := hpool 1 4 [AppendPool.booleanColumn "x"] (by decide) _
      (Reachable.init.of_guarded (guarded_of_forall hguarded _) rfl)
    exact ⟨_, _, rfl, rfl, rfl, hlayout 0 AppendPool.plainBatch _ rfl rfl rfl⟩

namespace AppendPool

/-! ### one worker, two batches of one signature -/

/-- A batch of one row of two numbers. -/
def numbersRow (a b : Bytes) (x y : UInt64) : List Json := [.obj [(a, .uint x), (b, .uint y)]]

/-- Two columns of numbers. -/
def numberColumns (a b : Bytes) : List RawColumn :=
  [{ name := a, path := [a], type := .BIGINT, node := [0] },
    { name := b, path := [b], type := .BIGINT, node := [1] }]

/-- `{"x": 1, "y\u000ez": 2}`; 14 is the type id of `BIGINT`. -/
def leftBatch : Batch where
  toRawParsedPayload := (ProcessedPayload.ofRows smallDuck
    (numbersRow [120] [121, 14, 122] 1 2) (numberColumns [120] [121, 14, 122])
    rfl rfl).toRawParsedPayload
  distinct := ProcessedPayload.ciDistinct _

/-- `{"x\u000ey": 1, "z": 2}`. -/
def rightBatch : Batch where
  toRawParsedPayload := (ProcessedPayload.ofRows smallDuck
    (numbersRow [120, 14, 121] [122] 1 2) (numberColumns [120, 14, 121] [122])
    rfl rfl).toRawParsedPayload
  distinct := ProcessedPayload.ciDistinct _

/-- A column of numbers. -/
def numberColumn (name : Bytes) : Column where
  name := name
  type := .BIGINT
  generated := false

/-- The columns of both batches. -/
def fourColumns : List Column :=
  [[120], [121, 14, 122], [120, 14, 121], [122]].map numberColumn

/-- The worker appends the first batch and takes the second. -/
def leftThenRight : List (Label 1) :=
  [.submit leftBatch, .take soleWorker, .extend soleWorker, .layOut soleWorker,
    .remember soleWorker, .append soleWorker, .submit rightBatch, .take soleWorker,
    .extend soleWorker]

/-- The characters and type ids of both batches are `x`, 14, `y`, 14, `z`, 14, and
the worker takes the columns of the first for those of the second. -/
theorem layoutCache_misleads :
    FoldTells smallDuck (columnsOf {leftBatch, rightBatch}) ∧
    ¬ ∀ s, Reachable (system smallDuck 1 4 fourColumns) (SubmitsFrom {leftBatch, rightBatch}) s →
      ∀ w batch shape, (s.workers w).phase = .ready batch →
        hashPayloadShape smallDuck batch.columns = .ok shape →
        (s.workers w).hits shape batch.columns = true →
        layoutOf (s.workers w).columns batch.columns = some (s.workers w).cachedLayout := by
  constructor
  · refine injOn_fnvFold_of_eq [120, 14, 121, 14, 122, 14] ?_
    rintro _ ⟨p, rfl | rfl, rfl⟩
    · rfl
    · rfl
  · intro h
    have hguarded : ∀ a ∈ leftThenRight, ∀ s, SubmitsFrom {leftBatch, rightBatch} s a := by
      simp [leftThenRight, SubmitsFrom]
    have hreach := Reachable.init.of_guarded (guarded_of_forall hguarded _)
      (S := system smallDuck 1 4 fourColumns) rfl
    have hlayout := h _ hreach 0 rightBatch _ rfl rfl rfl
    have hslots := congrArg (Option.map AppendLayout.slotOf) hlayout
    exact absurd (show some [2, 3] = some [0, 1] from hslots) (by decide)

end AppendPool

end RawDuck
