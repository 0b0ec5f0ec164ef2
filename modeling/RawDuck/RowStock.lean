import RawDuck.RowCount
import RawDuck.SchemaCache
import Mathlib.Algebra.BigOperators.Group.List.Basic

/-!
# RawDuck.RowStock

What an ingestor has taken in: the rows of its table and the batches in its pool.

* `IngestState.stock` — the rows of both together;
* `length_drainPool` — the workers merge as many rows as the queued batches have;
* `KeepsStock` — what a step does with the stock and the pool;
* `prepareForAppend_keeps` — `PrepareForAppend` keeps the stock, and keeps the
  pool unless `drainsPool` says that it merges it.
-/

namespace RawDuck

open Fallible

/-! ## rows appended -/

variable {duck : Duck} {layout : AppendLayout} {parsed : RawParsedPayload}

/-- A chunk has a row for each row of its block. -/
theorem length_fillChunk {block : List Json} {rows : List (List Cell)}
    (h : fillChunk duck layout parsed block = .ok rows) : rows.length = block.length := by
  obtain ⟨chunk, -, h⟩ := bind_eq_ok.mp h
  obtain rfl := pure_eq_ok.mp h
  rw [List.length_map, List.length_range]

/-- The row loop of `AppendNative` appends a row for each row of the payload. -/
theorem length_appendBlocks {catalog : Catalog} {t t' : Table}
    (h : appendBlocks duck catalog layout parsed t = .ok t') :
    t'.rows.length = t.rows.length + parsed.payload.rows.length := by
  have hrun := foldlM_rule (fun (done : List (List Json)) (t' : Table) =>
    t'.rows.length = t.rows.length + done.flatten.length) ?_ rfl h
  · rwa [flatten_blocks _ (Nat.le_refl _)] at hrun
  · intro done block rest s s' _ hs hstep
    obtain ⟨new, hnew, hstep⟩ := bind_eq_ok.mp hstep
    obtain ⟨-, -, hstep⟩ := bind_eq_ok.mp hstep
    obtain rfl := pure_eq_ok.mp hstep
    rw [List.flatten_append, List.flatten_singleton, List.length_append, List.length_append, hs,
      length_fillChunk hnew, Nat.add_assoc]

/-- The rows of batches. -/
def batchRowCount (batches : List RawParsedPayload) : Nat :=
  (batches.map fun batch => batch.payload.rows.length).sum

@[simp] theorem batchRowCount_nil : batchRowCount [] = 0 := rfl

@[simp] theorem batchRowCount_cons (batch : RawParsedPayload) (batches : List RawParsedPayload) :
    batchRowCount (batch :: batches) = batch.payload.rows.length + batchRowCount batches := by
  simp [batchRowCount]

@[simp] theorem batchRowCount_append (batches batches' : List RawParsedPayload) :
    batchRowCount (batches ++ batches') = batchRowCount batches + batchRowCount batches' := by
  simp [batchRowCount]

variable {env : NativeEnv}

/-- A worker appends a row for each row of a batch. -/
theorem length_appendBatch {pool : Pool} {worker worker' : Worker}
    (h : appendBatch env pool worker parsed = .ok worker') :
    worker'.rows.length = worker.rows.length + parsed.payload.rows.length := by
  obtain ⟨shape, -, h⟩ := bind_eq_ok.mp h
  obtain ⟨layout, -, h⟩ := bind_eq_ok.mp h
  obtain ⟨new, hnew, h⟩ := bind_eq_ok.mp h
  obtain rfl := pure_eq_ok.mp h
  have hblocks : ∀ {bs : List (List Json)} {new : List (List (List Cell))},
      List.Forall₂ (fun b rows => fillChunk env.duck layout parsed b = .ok rows) bs new →
        new.flatten.length = bs.flatten.length := by
    intro bs new hall
    induction hall with
    | nil => rfl
    | cons hrows _ ih =>
        rw [List.flatten_cons, List.flatten_cons, List.length_append, List.length_append, ih,
          length_fillChunk hrows]
  have hlength := hblocks (mapM_eq_ok.mp hnew)
  rw [flatten_blocks _ (Nat.le_refl _)] at hlength
  rw [List.length_append, hlength]

/-- What one worker merges. -/
theorem length_workerRows {pool : Pool} {worker : Nat} {rows : List (List Cell)}
    (h : workerRows env pool worker = .ok rows) :
    rows.length = batchRowCount
      ((pool.queue.zipIdx.filter fun batch => env.workerOf batch.2 == worker).map Prod.fst) := by
  obtain ⟨done, hdone, h⟩ := bind_eq_ok.mp h
  obtain rfl := pure_eq_ok.mp h
  have hrun := foldlM_rule (fun (taken : List RawParsedPayload) (w : Worker) =>
    w.rows.length = batchRowCount taken) ?_ rfl hdone
  · exact hrun
  · intro taken batch rest w w' _ hw hstep
    rw [length_appendBatch hstep, hw, batchRowCount_append, batchRowCount_cons, batchRowCount_nil,
      Nat.add_zero]

theorem sum_range_single (n i k : Nat) :
    ((List.range n).map fun j => if i = j then k else 0).sum = if i < n then k else 0 := by
  induction n with
  | zero => rfl
  | succ n ih =>
      rw [List.range_succ, List.map_append, List.sum_append, ih, List.map_singleton,
        List.sum_singleton]
      by_cases hi : i = n
      · simp [hi]
      · by_cases hlt : i < n
        · simp [hi, hlt, Nat.lt_succ_of_lt hlt]
        · simp [hi, hlt, show ¬ i < n + 1 by omega]

/-- Each batch is taken by one worker. -/
theorem sum_workers (batches : List (RawParsedPayload × Nat)) :
    ((List.range env.workers).map fun worker => batchRowCount
      ((batches.filter fun batch => env.workerOf batch.2 == worker).map Prod.fst)).sum =
      batchRowCount (batches.map Prod.fst) := by
  induction batches with
  | nil => simp
  | cons batch batches ih =>
      have hone : ((List.range env.workers).map fun worker =>
          if env.workerOf batch.2 = worker then batch.1.payload.rows.length else 0).sum =
          batch.1.payload.rows.length := by
        rw [sum_range_single, if_pos (env.workerOf_lt batch.2)]
      have hsplit : ∀ worker, batchRowCount
          (((batch :: batches).filter fun batch => env.workerOf batch.2 == worker).map Prod.fst) =
          (if env.workerOf batch.2 = worker then batch.1.payload.rows.length else 0) +
            batchRowCount
              ((batches.filter fun batch => env.workerOf batch.2 == worker).map Prod.fst) := by
        intro worker
        by_cases hw : env.workerOf batch.2 = worker
        · simp [hw]
        · simp [hw]
      simp only [hsplit]
      rw [List.sum_map_add, hone, ih, List.map_cons, batchRowCount_cons]

/-- **Drain** merges as many rows as the queued batches have. -/
theorem length_drainPool {pool : Pool} {rows : List (List Cell)}
    (h : drainPool env pool = .ok rows) : rows.length = batchRowCount pool.queue := by
  obtain ⟨collections, hcollections, h⟩ := bind_eq_ok.mp h
  obtain rfl := pure_eq_ok.mp h
  have hall : ∀ {workers : List Nat} {collections : List (List (List Cell))},
      List.Forall₂ (fun worker rows => workerRows env pool worker = .ok rows) workers collections →
        collections.flatten.length = (workers.map fun worker => batchRowCount
          ((pool.queue.zipIdx.filter fun batch => env.workerOf batch.2 == worker).map
            Prod.fst)).sum := by
    intro workers collections hall
    induction hall with
    | nil => rfl
    | cons hrows _ ih =>
        rw [List.flatten_cons, List.length_append, List.map_cons, List.sum_cons, ih,
          length_workerRows hrows]
  rw [hall (mapM_eq_ok.mp hcollections), sum_workers, List.zipIdx_map_fst]

/-- The schema step keeps the number of rows. -/
theorem length_evolveNative {catalog : Catalog} {t : Table} {columns : List RawColumn}
    {evolved : Evolved} (h : evolveNative duck catalog t columns = .ok evolved) :
    evolved.table.rows.length = t.rows.length := by
  refine foldlM_rule (fun _ (s : Evolved) => s.table.rows.length = t.rows.length) ?_ rfl h
  intro done column rest s s' _ hs hstep
  rcases evolveColumn_cases hstep with ⟨-, rfl⟩ | ⟨_, -, -, rfl⟩ | ⟨e, table, -, -, htable, rfl⟩
  · rw [← hs]
    exact List.length_map _
  · exact hs
  · rw [Table.changeType] at htable
    rw [← hs]
    split at htable
    · rw [← Except.ok.inj htable]
    · obtain ⟨rows, hrows, htable⟩ := bind_eq_ok.mp htable
      obtain rfl := pure_eq_ok.mp htable
      exact (mapM_eq_ok.mp hrows).length_eq.symm

/-! ## what steps keep -/

/-- The batches in the pool. -/
def IngestState.queue (s : IngestState) : List RawParsedPayload :=
  match s.pool with
  | none => []
  | some pool => pool.queue

/-- The rows of the table and of the batches in the pool. -/
def IngestState.stock (s : IngestState) : Nat := s.db.rowCount + batchRowCount s.queue

/-- A step keeps the stock, and the pool with its batches, unless it may merge them:
then no batch is left in the pool. -/
structure KeepsStock (merges : Prop) (s u : IngestState) : Prop where
  stock : u.stock = s.stock
  pool : merges ∧ u.queue = [] ∨ u.queue = s.queue ∧ (s.pool.isSome = true → u.pool.isSome = true)

theorem KeepsStock.refl (merges : Prop) (s : IngestState) : KeepsStock merges s s :=
  ⟨rfl, .inr ⟨rfl, id⟩⟩

theorem KeepsStock.trans {merges : Prop} {s t u : IngestState} (h : KeepsStock merges s t)
    (h' : KeepsStock merges t u) : KeepsStock merges s u where
  stock := h'.stock.trans h.stock
  pool := by
    obtain ⟨hmerges, hempty⟩ | ⟨hqueue, hpool⟩ := h'.pool
    · exact .inl ⟨hmerges, hempty⟩
    · obtain ⟨hmerges, hempty⟩ | ⟨hqueue', hpool'⟩ := h.pool
      · exact .inl ⟨hmerges, hqueue.trans hempty⟩
      · exact .inr ⟨hqueue.trans hqueue', fun hs => hpool (hpool' hs)⟩

theorem KeepsStock.mono {merges merges' : Prop} {s u : IngestState} (h : KeepsStock merges s u)
    (himp : merges → merges') : KeepsStock merges' s u :=
  ⟨h.stock, h.pool.imp_left fun ⟨hmerges, hempty⟩ => ⟨himp hmerges, hempty⟩⟩

/-- A step that changes neither the rows of the table nor the pool. -/
theorem KeepsStock.of_eq {merges : Prop} {s u : IngestState} (hrows : u.db.rowCount = s.db.rowCount)
    (hpool : u.pool = s.pool) : KeepsStock merges s u where
  stock := by rw [IngestState.stock, IngestState.stock, IngestState.queue, hpool, hrows]; rfl
  pool := .inr ⟨by rw [IngestState.queue, hpool]; rfl, fun hs => hpool ▸ hs⟩

section Steps

variable {s : IngestState} {token : Nat} {table : Table} {merges : Prop}

theorem lookupTableCached_keeps (inv : IngestState → Prop) :
    Leaves lookupTableCached s
      (fun found u => found = s.db.table ∧ u.db = s.db ∧ u.pool = s.pool) inv := by
  constructor
  · intro found u h
    rw [lookupTableCached_eq] at h
    cases h
    exact ⟨rfl, lookedUp_db s, lookedUp_pool s⟩
  · intro e u h
    rw [lookupTableCached_eq] at h
    exact nomatch h

theorem drainIntoTable_keeps {pool : Pool} (hpool : s.pool = some pool)
    (ht : s.db.table = some (token, table)) :
    Leaves (drainIntoTable env pool token table) s (fun _ u => KeepsStock True s u ∧ u.queue = [])
      (fun u => u = s) := by
  refine Leaves.bind (fun rows u => u = s ∧ drainPool env pool = .ok rows)
    (.fromExcept (fun rows h => ⟨rfl, h⟩) rfl) ?_
  rintro rows t ⟨rfl, hrows⟩
  refine .modify ⟨⟨?_, .inl ⟨trivial, rfl⟩⟩, rfl⟩
  have hqueue : t.queue = pool.queue := by
    rw [IngestState.queue, hpool]
  rw [IngestState.stock, IngestState.stock, rowCount_of_table ht, hqueue, ← length_drainPool hrows]
  show (table.rows ++ rows).length + 0 = _
  rw [List.length_append, Nat.add_zero]

theorem evolveCurrent_keeps :
    Leaves (evolveCurrent env parsed) s (fun _ u => KeepsStock merges s u)
      (KeepsStock merges s) := by
  refine .get_bind ?_
  cases ht : s.db.table with
  | none => exact .throw (.refl _ _)
  | some version =>
      obtain ⟨token, table⟩ := version
      refine .bind (fun evolved u => u = s ∧
        evolveNative env.duck env.catalog table parsed.columns = .ok evolved)
        (.fromExcept (fun evolved h => ⟨rfl, h⟩) (.refl _ _)) ?_
      rintro evolved _ ⟨rfl, hevolved⟩
      refine .modify (.of_eq ?_ rfl)
      rw [rowCount_of_table ht, ← length_evolveNative hevolved]
      rfl

/-- The schema step merges the pool only for a widening. -/
theorem schemaStep_keeps (ht : s.db.table = some (token, table)) :
    Leaves (schemaStep env token table parsed) s
      (fun _ u => KeepsStock (s.pool.isSome = true ∧
        computeWidens table.columns parsed.columns = true) s u)
      (KeepsStock
        (s.pool.isSome = true ∧ computeWidens table.columns parsed.columns = true) s) := by
  have hdrain : Leaves (drainForWidening env token table
      (computeWidens table.columns parsed.columns)) s
      (fun _ u => KeepsStock (s.pool.isSome = true ∧
        computeWidens table.columns parsed.columns = true) s u)
      (KeepsStock
        (s.pool.isSome = true ∧ computeWidens table.columns parsed.columns = true) s) := by
    refine .get_bind ?_
    cases hpool : s.pool with
    | none => exact .pure (.refl _ _)
    | some pool =>
        dsimp only
        split
        · next hwidens =>
          refine (drainIntoTable_keeps hpool ht).mono ?_ fun u hu => hu ▸ .refl _ _
          exact fun _ u hu => hu.1.mono fun _ => ⟨rfl, hwidens⟩
        · exact .pure (.refl _ _)
  refine .bind _ hdrain fun _ t ht => ?_
  refine .bind _ (evolveCurrent_keeps.mono (fun _ _ hu => ht.trans hu) fun _ hu => ht.trans hu)
    fun _ u hu => ?_
  refine .bind (fun _ v => KeepsStock (s.pool.isSome = true ∧
    computeWidens table.columns parsed.columns = true) u v) (.modify (.of_eq rfl rfl))
    fun _ v hv => ?_
  split
  · exact .pure (hu.trans hv)
  · -- publishing adds columns to the pool, not batches
    have hqueue : ∀ columns : Pool → List Column,
        IngestState.queue { v with pool := v.pool.map fun pool =>
          { pool with columns := columns pool } } = v.queue := by
      intro columns
      rw [IngestState.queue, IngestState.queue]
      cases v.pool with
      | none => rfl
      | some pool => rfl
    refine .modify ((hu.trans hv).trans ⟨?_, .inr ⟨hqueue _, ?_⟩⟩)
    · rw [IngestState.stock, hqueue, IngestState.stock]
    · exact fun hpool => by rw [Option.isSome_map, hpool]

theorem absorb_keeps {shape : UInt64} (ht : s.db.table = some (token, table)) :
    Leaves (absorb env token table shape parsed) s
      (fun _ u => KeepsStock (s.pool.isSome = true ∧
        computeWidens table.columns parsed.columns = true) s u)
      (KeepsStock
        (s.pool.isSome = true ∧ computeWidens table.columns parsed.columns = true) s) := by
  refine .bind _ (schemaStep_keeps ht) fun _ t hstep => ?_
  refine .bind _ (lookupTableCached_keeps _) ?_
  rintro found u ⟨rfl, hdb, hpool⟩
  have hu := hstep.trans (.of_eq (congrArg Db.rowCount hdb) hpool)
  cases t.db.table with
  | none => exact .throw hu
  | some version => exact .modify (hu.trans (.of_eq rfl rfl))

/-- Whether `PrepareForAppend` merges the pool: a payload with a shape the cache does not
know widens a column. -/
def drainsPool (env : NativeEnv) (s : IngestState) (parsed : RawParsedPayload) : Bool :=
  match s.db.table with
  | none => false
  | some (token, table) =>
      match hashPayloadShape env.duck parsed.columns with
      | .error _ => false
      | .ok shape => !isAbsorbed s.db.cache token shape && s.pool.isSome &&
          computeWidens table.columns parsed.columns

theorem ensurePool_keeps :
    Leaves (ensurePool env table parsed) s (fun _ u => KeepsStock merges s u ∧ u.db = s.db)
      (KeepsStock merges s) := by
  refine .get_bind ?_
  split
  · exact .pure ⟨.refl _ _, rfl⟩
  · next hnone =>
    have hpool : s.pool = none := by
      cases hpool : s.pool with
      | none => rfl
      | some pool => simp [hpool] at hnone
    have hqueue : s.queue = [] := by
      rw [IngestState.queue, hpool]
    refine .set ⟨⟨?_, .inr ⟨?_, fun _ => rfl⟩⟩, rfl⟩
    · rw [IngestState.stock, IngestState.stock, hqueue]
      rfl
    · rw [hqueue]
      rfl

theorem prepareRows_keeps :
    Leaves (prepareRows env parsed) s (fun _ u => KeepsStock merges s u) (KeepsStock merges s) := by
  unfold prepareRows
  split
  · exact .pure (.refl _ _)
  · refine .bind _ (lookupTableCached_keeps _) ?_
    rintro found t ⟨rfl, hdb, hpool⟩
    have ht : KeepsStock merges s t := .of_eq (congrArg Db.rowCount hdb) hpool
    cases s.db.table with
    | none => exact .throw ht
    | some version =>
        refine .bind _ (ensurePool_keeps.mono (fun _ _ hu => ht.trans hu.1) fun _ hu => ht.trans hu)
          fun _ u hu => .get_bind (.pure hu)

/-- **`PrepareForAppend`** keeps the stock, and the pool unless it merges it. -/
theorem prepareForAppend_keeps (env : NativeEnv) (parsed : RawParsedPayload) (s : IngestState) :
    Leaves (prepareForAppend env parsed) s
      (fun _ u => KeepsStock (drainsPool env s parsed = true) s u)
      (KeepsStock (drainsPool env s parsed = true) s) := by
  refine .bind _ (lookupTableCached_keeps _) ?_
  rintro found t ⟨rfl, hdb, hpool⟩
  have ht : KeepsStock (drainsPool env s parsed = true) s t :=
    .of_eq (congrArg Db.rowCount hdb) hpool
  cases htable : s.db.table with
  | none => exact .pure ht
  | some version =>
      obtain ⟨token, table⟩ := version
      dsimp only
      split
      · exact .pure ht
      · refine .bind (fun shape u => u = t ∧ hashPayloadShape env.duck parsed.columns = .ok shape)
          (.fromExcept (fun shape h => ⟨rfl, h⟩) ht) ?_
        rintro shape u ⟨rfl, hshape⟩
        refine .get_bind ?_
        split
        · exact prepareRows_keeps.mono (fun _ _ hv => ht.trans hv) fun _ hv => ht.trans hv
        · next habsorbed =>
          have hdrains : u.pool.isSome = true ∧
              computeWidens table.columns parsed.columns = true →
                drainsPool env s parsed = true := by
            rintro ⟨hsome, hwidens⟩
            rw [hdb] at habsorbed
            rw [hpool] at hsome
            simp [drainsPool, htable, hshape, habsorbed, hsome, hwidens]
          have htable' : u.db.table = some (token, table) := by
            rw [hdb, htable]
          refine .bind _ ((absorb_keeps htable').mono (fun _ _ hv => ht.trans (hv.mono hdrains))
            fun _ hv => ht.trans (hv.mono hdrains)) fun _ v hv => ?_
          exact prepareRows_keeps.mono (fun _ _ hw => hv.trans hw) fun _ hw => hv.trans hw

/-- What a step takes in: the rows of a batch, appended or left in the pool. -/
structure TakesIn (parsed : RawParsedPayload) (s u : IngestState) : Prop where
  stock : u.stock = s.stock + parsed.payload.rows.length
  queue : u.queue = s.queue ∨ parsed.payload.rows ≠ [] ∧ u.queue = s.queue ++ [parsed]
  pool : s.pool.isSome = true → u.pool.isSome = true

theorem TakesIn.after {s t u : IngestState} (h : TakesIn parsed t u)
    (hkeeps : KeepsStock False s t) :
    TakesIn parsed s u := by
  obtain ⟨hfalse, -⟩ | ⟨hqueue, hpool⟩ := hkeeps.pool
  · exact hfalse.elim
  · exact ⟨hkeeps.stock ▸ h.stock, hqueue ▸ h.queue, fun hs => h.pool (hpool hs)⟩

theorem KeepsStock.pool_isSome {s u : IngestState} (h : KeepsStock False s u)
    (hs : s.pool.isSome = true) :
    u.pool.isSome = true := by
  obtain ⟨hfalse, -⟩ | ⟨-, hpool⟩ := h.pool
  · exact hfalse.elim
  · exact hpool hs

theorem resolveLayout_keeps :
    Leaves (resolveLayout env token table parsed) s (fun _ u => u.db = s.db ∧ u.pool = s.pool)
      fun u => u.db = s.db ∧ u.pool = s.pool := by
  unfold resolveLayout
  refine .bind (fun _ u => u = s) (.fromExcept (fun _ _ => rfl) ⟨rfl, rfl⟩) ?_
  rintro shape u rfl
  refine .get_bind ?_
  split
  · exact .pure ⟨rfl, rfl⟩
  · refine .bind (fun _ v => v = u) (.fromExcept (fun _ _ => rfl) ⟨rfl, rfl⟩) ?_
    rintro layout v rfl
    exact .bind (fun _ w => w.db = v.db ∧ w.pool = v.pool) (.set ⟨rfl, rfl⟩) fun _ _ hw => .pure hw

/-- `AppendNative` appends the rows of the payload, past the pool. -/
theorem appendNative_takesIn (ht : s.db.table = some (token, table)) :
    Leaves (appendNative env token table parsed) s
      (fun _ u => TakesIn parsed s u ∧ u.pool = s.pool) fun u => u.db = s.db ∧ u.pool = s.pool := by
  unfold appendNative
  split
  · exact .bind (fun _ _ => False) (.throw ⟨rfl, rfl⟩) fun _ _ h => h.elim
  · refine .bind _ resolveLayout_keeps ?_
    rintro layout t ⟨hdb, hpool⟩
    refine .bind (fun table' u => u = t ∧
      appendBlocks env.duck env.catalog layout parsed table = .ok table')
      (.fromExcept (fun table' h => ⟨rfl, h⟩) ⟨hdb, hpool⟩) ?_
    rintro table' u ⟨rfl, happend⟩
    have hqueue : u.queue = s.queue := by
      rw [IngestState.queue, hpool]
      rfl
    refine .modify ⟨⟨?_, .inl hqueue, fun h => hpool ▸ h⟩, hpool⟩
    rw [IngestState.stock, IngestState.stock, rowCount_of_table ht]
    show table'.rows.length + batchRowCount u.queue = _
    rw [length_appendBlocks happend, hqueue]
    omega

/-- The end of a batch takes it in. -/
theorem appendRows_takesIn :
    Leaves (appendRows env parsed) s (fun _ u => TakesIn parsed s u)
      fun u => s.pool.isSome = true → u.pool.isSome = true := by
  unfold appendRows
  split
  · next hempty =>
    have hrows : parsed.payload.rows = [] := List.isEmpty_iff.mp hempty
    exact .pure ⟨by rw [hrows]; rfl, .inl rfl, id⟩
  · next hsome =>
    have hrows : parsed.payload.rows ≠ [] := by
      simpa using hsome
    refine .bind _ (lookupTableCached_keeps _) ?_
    rintro found t ⟨rfl, hdb, hpool⟩
    have ht : KeepsStock False s t := .of_eq (congrArg Db.rowCount hdb) hpool
    cases htable : s.db.table with
    | none => exact .throw fun h => hpool ▸ h
    | some version =>
        obtain ⟨token, table⟩ := version
        refine .bind (fun _ u => KeepsStock False s u ∧ u.db = t.db)
          (ensurePool_keeps.mono (fun _ _ hu => ⟨ht.trans hu.1, hu.2⟩)
            fun _ hu hs => (ht.trans hu).pool_isSome hs) ?_
        rintro _ u ⟨hu, hudb⟩
        refine .get_bind ?_
        cases hupool : u.pool with
        | none =>
            have hutable : u.db.table = some (token, table) := by
              rw [hudb, hdb, htable]
            refine (appendNative_takesIn hutable).mono (fun _ v hv => hv.1.after hu) ?_
            rintro v ⟨-, hvpool⟩ hs
            have hsome := hu.pool_isSome hs
            rwa [← hvpool] at hsome
        | some pool =>
            have hqueue : u.queue = pool.queue := by
              rw [IngestState.queue, hupool]
            refine .set (TakesIn.after ⟨?_, .inr ⟨hrows, ?_⟩, fun _ => rfl⟩ hu)
            · rw [IngestState.stock, IngestState.stock, hqueue]
              show u.db.rowCount + batchRowCount (pool.queue ++ [parsed]) = _
              rw [batchRowCount_append, batchRowCount_cons, batchRowCount_nil]
              omega
            · rw [hqueue]
              rfl

theorem createTable_keeps (hnone : s.db.table = none) :
    Leaves (createTable env parsed) s (fun _ u => KeepsStock merges s u) (KeepsStock merges s) := by
  refine .bind (fun created u => u = s ∧ createNative env.catalog parsed.columns = .ok created)
    (.fromExcept (fun created h => ⟨rfl, h⟩) (.refl _ _)) ?_
  rintro created u ⟨rfl, hcreated⟩
  obtain ⟨-, -, hcreated⟩ := bind_eq_ok.mp hcreated
  obtain rfl := pure_eq_ok.mp hcreated
  refine .bind (fun _ v => KeepsStock merges u v) (.modify (.of_eq ?_ rfl)) fun _ v hv => ?_
  · rw [Db.rowCount, Db.rowCount, hnone]
    rfl
  · exact .modify (hv.trans (.of_eq rfl rfl))

/-- Without a table, or without columns, `IngestParsed` takes the batch in, leaves out one
without columns, or raises. -/
theorem ingestParsed_takesIn (h : s.db.table = none ∨ parsed.columns = []) :
    Leaves (ingestParsed env parsed) s
      (fun _ u => if parsed.columns = [] then s.db.table.isSome = true ∧ u.stock = s.stock ∧
        u.queue = s.queue ∧ u.pool = s.pool else TakesIn parsed s u)
      fun u => s.pool.isSome = true → u.pool.isSome = true := by
  refine .bind (fun _ t => t.db = s.db ∧ t.pool = s.pool) (.modify ⟨rfl, rfl⟩) ?_
  rintro _ t ⟨htdb, htpool⟩
  refine .bind _ (lookupTableCached_keeps _) ?_
  rintro found u ⟨rfl, hudb, hupool⟩
  have hdb : u.db = s.db := hudb.trans htdb
  have hpool : u.pool = s.pool := hupool.trans htpool
  have hu : KeepsStock False s u := .of_eq (congrArg Db.rowCount hdb) hpool
  rw [htdb]
  cases htable : s.db.table with
  | none =>
      dsimp only
      rw [legacyIngestNative]
      split
      · exact .throw fun hs => hpool ▸ hs
      · next hcolumns =>
        have hne : parsed.columns ≠ [] := by
          simpa using hcolumns
        have hempty : parsed.columns.isEmpty = false := by
          simpa using hne
        simp only [hempty, Bool.false_eq_true, if_false, if_neg hne]
        refine .bind (fun _ v => KeepsStock False s v) ?_ fun _ v hv => ?_
        · exact (createTable_keeps (by rw [hdb, htable])).mono (fun _ _ hv => hu.trans hv)
            fun _ hv hs => (hu.trans hv).pool_isSome hs
        · exact appendRows_takesIn.mono (fun _ _ hw => hw.after hv)
            fun _ hw hs => hw (hv.pool_isSome hs)
  | some version =>
      have hnil : parsed.columns = [] := by
        rcases h with hnone | hnil
        · rw [htable] at hnone
          contradiction
        · exact hnil
      obtain ⟨token, table⟩ := version
      have hempty : parsed.columns.isEmpty = true := by
        rw [hnil]
        rfl
      have hqueue : u.queue = s.queue := by
        rw [IngestState.queue, hpool]
        rfl
      simp only [hempty, legacyIngestNative, Option.isNone_some, Bool.false_and, if_true,
        Bool.false_eq_true, if_false, if_pos hnil]
      exact .pure ⟨rfl, hu.stock, hqueue, hpool⟩

/-- `SubmitPreparedBatch` past the pool. -/
theorem submitPreparedBatch_takesIn (env : NativeEnv) (parsed : RawParsedPayload)
    (s : IngestState) :
    Leaves (submitPreparedBatch env parsed false) s
      (fun _ u => TakesIn parsed s u ∧ u.pool = s.pool) fun u => u.pool = s.pool := by
  unfold submitPreparedBatch
  split
  · next hempty =>
    have hrows : parsed.payload.rows = [] := List.isEmpty_iff.mp hempty
    exact .pure ⟨⟨by rw [hrows]; rfl, .inl rfl, id⟩, rfl⟩
  · refine .get_bind ?_
    dsimp only
    refine .bind _ (lookupTableCached_keeps _) ?_
    rintro found t ⟨rfl, hdb, hpool⟩
    have ht : KeepsStock False s t := .of_eq (congrArg Db.rowCount hdb) hpool
    cases htable : s.db.table with
    | none => exact .throw hpool
    | some version =>
        obtain ⟨token, table⟩ := version
        have htable' : t.db.table = some (token, table) := by
          rw [hdb, htable]
        exact (appendNative_takesIn htable').mono
          (fun _ u hu => ⟨hu.1.after ht, hu.2.trans hpool⟩) fun u hu => hu.2.trans hpool

/-- **`Finish`** merges what is in the pool. -/
theorem finish_keeps (env : NativeEnv) (s : IngestState) :
    Leaves (finish env) s (fun _ u => KeepsStock True s u ∧ u.queue = []) (fun u => u = s) := by
  refine .get_bind ?_
  cases hpool : s.pool with
  | none =>
      have hqueue : s.queue = [] := by
        rw [IngestState.queue, hpool]
      exact .pure ⟨.refl _ _, hqueue⟩
  | some pool =>
      cases htable : s.db.table with
      | none => exact .throw rfl
      | some version => exact drainIntoTable_keeps hpool htable

end Steps

end RawDuck
