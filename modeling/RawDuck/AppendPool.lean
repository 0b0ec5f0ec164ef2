import RawDuck.Append
import RawDuck.Transition

/-!
# RawDuck.AppendPool

The append pool under every interleaving of its workers.

One producer submits batches and publishes columns; each worker takes batches
off the queue, pads its own collection to the columns published when it took
one, resolves the batch's columns (or reuses its last layout, when the
signature repeats) and appends.  `Drain` stops the pool, waits for the workers
and merges their collections.

* `step` — the steps of the producer and of the workers; a step that would
  raise is not there;
* `RowsUnder` — the rows of a batch under a list of columns, which padding
  carries over to any longer list (`RowsUnder.extend`);
* `WorkerInv` / `PoolInv` — what is queued, in hand and appended are the
  batches submitted, and every collection holds the rows of its batches;
* `drain_merges_serially` — the rows merged are those of a serial append,
  while no worker is misled by a signature of zero.
-/

namespace RawDuck

namespace AppendPool

open Fallible Transition Transition.System

/-! ## the pool -/

/-- A batch: a payload whose columns have different names. -/
structure Batch extends RawParsedPayload where
  distinct : CiDistinct columns

/-- `BatchLayout`: the layout a worker used last.  A signature of 0 marks it as
not to be used. -/
structure BatchLayout where
  shape : UInt64
  slotOf : List Nat
  covered : List Bool
  deriving DecidableEq, Repr

/-- Where a worker stands in `WorkerLoop`. -/
inductive Phase where
  /-- at `worker_cv.wait` -/
  | waiting
  /-- a batch and the columns published but not yet added, read under the lock -/
  | taken (batch : Batch) (pending : List Column)
  /-- in `AppendBatch` -/
  | ready (batch : Batch)
  /-- a layout was resolved by name and not yet noted as the last one -/
  | resolved (batch : Batch) (shape : UInt64) (layout : AppendLayout)
  | laidOut (batch : Batch) (layout : AppendLayout)
  | left

/-- `Worker`: its columns (`local_types`, by name `local_slots`), its last
layout, its collection and where it stands. -/
structure Worker where
  columns : List Column
  cache : BatchLayout
  collection : List (List Cell)
  phase : Phase

/-- `RawAppendPool` with `n` workers: the published columns, the queue,
`stopped`, the workers and what `Drain` has merged.  `submitted` records the
batches in order. -/
structure State (n : Nat) where
  columns : List Column
  queue : List Batch
  stopped : Bool
  workers : Fin n → Worker
  merged : Option (List (List Cell))
  submitted : List Batch

/-- A worker of a new pool. -/
def Worker.start (columns : List Column) : Worker where
  columns := columns
  cache := { shape := 0, slotOf := [], covered := [] }
  collection := []
  phase := .waiting

/-- A new pool over a table of these columns. -/
def State.start (n : Nat) (columns : List Column) : State n where
  columns := columns
  queue := []
  stopped := false
  workers _ := .start columns
  merged := none
  submitted := []

/-- The layout of a batch, resolved by name. -/
def layoutOf (columns : List Column) (batch : List RawColumn) : Option AppendLayout := do
  let slotOf ← batch.mapM fun c => columnIndex columns c.name
  let types := columns.map Column.type
  return { types, slotOf, covered := coveredSlots types.length slotOf }

/-- Rows with NULL in `k` more columns. -/
def pad (k : Nat) (rows : List (List Cell)) : List (List Cell) :=
  rows.map fun row => row ++ List.replicate k .null

/-- The row loop of `AppendBatch`.  The flags of a layout narrower than the
worker's columns are read past their end. -/
def appendedRows (duck : Duck) (layout : AppendLayout) (batch : Batch) :
    Except RawError (List (List Cell)) := do
  if batch.payload.rows ≠ [] ∧ layout.covered.length < layout.types.length then
    .error (indexError layout.covered.length layout.covered.length)
  let new ← (blocks batch.payload.rows batch.payload.rows.length).mapM
    (fillChunk duck layout batch.toRawParsedPayload)
  return new.flatten

/-! ## steps -/

/-- What happens next, by whom. -/
inductive Label (n : Nat) where
  | submit (batch : Batch)
  | publish (adds : List Column)
  | drain
  | take (w : Fin n)
  | extend (w : Fin n)
  | layOut (w : Fin n)
  | remember (w : Fin n)
  | append (w : Fin n)
  | leave (w : Fin n)
  | merge

section

variable {n : Nat}

/-- A worker replaced. -/
def State.setWorker (s : State n) (w : Fin n) (worker : Worker) : State n :=
  { s with workers := Function.update s.workers w worker }

/-- `PublishColumns` marks every worker's last layout as not to be used. -/
def Worker.invalidate (worker : Worker) : Worker :=
  { worker with cache := { worker.cache with shape := 0 } }

/-- `ExtendWorker`, when there are columns to add. -/
def Worker.extend (worker : Worker) (pending : List Column) : Worker :=
  if pending.isEmpty then worker
  else { worker.invalidate with
    columns := worker.columns ++ pending
    collection := pad pending.length worker.collection }

/-- The last layout serves a batch of this signature and width. -/
def Worker.hits (worker : Worker) (shape : UInt64) (columns : List RawColumn) : Bool :=
  worker.cache.shape == shape && worker.cache.slotOf.length == columns.length

/-- The last layout, for the worker's columns. -/
def Worker.cachedLayout (worker : Worker) : AppendLayout where
  types := worker.columns.map Column.type
  slotOf := worker.cache.slotOf
  covered := worker.cache.covered

/-- A worker's collection, padded to the published columns. -/
def State.padded (s : State n) (w : Fin n) : List (List Cell) :=
  pad (s.columns.length - (s.workers w).columns.length) (s.workers w).collection

/-- The worker is past its loop. -/
def Worker.hasLeft (worker : Worker) : Bool :=
  match worker.phase with
  | .left => true
  | _ => false

/-- The steps of the pool.  `depth` bounds the queue.  Columns are published
after an `ALTER` has added them to the table, so their names are new. -/
def step (duck : Duck) (depth : Nat) (s : State n) : Label n → Option (State n)
  | .submit batch =>
      if s.stopped = false ∧ s.queue.length < depth then
        some { s with queue := s.queue ++ [batch], submitted := s.submitted ++ [batch] }
      else none
  | .publish adds =>
      if s.stopped = false ∧ adds ≠ [] ∧ (ciNames (s.columns ++ adds)).Nodup then
        some { s with
          columns := s.columns ++ adds
          workers := fun w => (s.workers w).invalidate }
      else none
  | .drain => if s.stopped = false then some { s with stopped := true } else none
  | .take w =>
      match (s.workers w).phase, s.queue with
      | .waiting, batch :: rest =>
          some ({ s with queue := rest }.setWorker w { s.workers w with
            phase := .taken batch (s.columns.drop (s.workers w).columns.length) })
      | _, _ => none
  | .extend w =>
      match (s.workers w).phase with
      | .taken batch pending =>
          some (s.setWorker w { (s.workers w).extend pending with phase := .ready batch })
      | _ => none
  | .layOut w =>
      match (s.workers w).phase with
      | .ready batch =>
          match hashPayloadShape duck batch.columns with
          | .error _ => none
          | .ok shape =>
              if (s.workers w).hits shape batch.columns then
                some (s.setWorker w { s.workers w with
                  phase := .laidOut batch (s.workers w).cachedLayout })
              else match layoutOf (s.workers w).columns batch.columns with
                | none => none
                | some layout => some (s.setWorker w { s.workers w with
                    phase := .resolved batch shape layout })
      | _ => none
  | .remember w =>
      match (s.workers w).phase with
      | .resolved batch shape layout => some (s.setWorker w { s.workers w with
          cache := { shape, slotOf := layout.slotOf, covered := layout.covered }
          phase := .laidOut batch layout })
      | _ => none
  | .append w =>
      match (s.workers w).phase with
      | .laidOut batch layout =>
          match appendedRows duck layout batch with
          | .error _ => none
          | .ok rows => some (s.setWorker w { s.workers w with
              collection := (s.workers w).collection ++ rows
              phase := .waiting })
      | _ => none
  | .leave w =>
      match (s.workers w).phase with
      | .waiting =>
          if s.queue.isEmpty && s.stopped then
            some (s.setWorker w { s.workers w with phase := .left })
          else none
      | _ => none
  | .merge =>
      if s.stopped && s.merged.isNone && (List.finRange n).all fun w => (s.workers w).hasLeft then
        some { s with merged := some ((List.finRange n).flatMap s.padded) }
      else none

/-- The pool as a system. -/
def system (duck : Duck) (n depth : Nat) (columns : List Column) : System (State n) (Label n) where
  init := .start n columns
  step := step duck depth

end

/-! ## the serial append -/

/-- A table of columns without rows. -/
def emptyTable (columns : List Column) : Table where
  columns := columns
  rows := []
  hasIndexes := false
  constraints := []

/-- A catalog that has nothing to check, as `PoolEligible` asks for. -/
def unconstrained : Catalog where
  createCheck _ := .ok ⟨⟩
  alterCheck _ _ := .ok ⟨⟩
  verify _ _ := .ok ⟨⟩

/-- The batches appended to a table one after the other. -/
def appendSerially (duck : Duck) (table : Table) (batches : List Batch) : Except RawError Table :=
  batches.foldlM (fun table batch => do
    let layout ← resolveAppendLayout table batch.columns
    appendBlocks duck unconstrained layout batch.toRawParsedPayload table) table

/-! ## rows of a batch under columns -/

section

variable {duck : Duck} {columns extra : List Column} {batch : Batch}

/-- Resolving in the pool is resolving against a table of its columns. -/
theorem resolveAppendLayout_iff {t : Table} {batch : List RawColumn} {layout : AppendLayout} :
    resolveAppendLayout t batch = .ok layout ↔ layoutOf t.columns batch = some layout := by
  constructor
  · intro h
    obtain ⟨slotOf, hs, h⟩ := bind_eq_ok.mp h
    have hslots : (batch.mapM fun c => columnIndex t.columns c.name) = some slotOf := by
      refine mapM_eq_some.mpr ((mapM_eq_ok.mp hs).imp fun c slot hc => ?_)
      cases hindex : columnIndex t.columns c.name with
      | none =>
          rw [hindex] at hc
          contradiction
      | some i =>
          rw [hindex] at hc
          exact congrArg some (Except.ok.inj hc)
    exact Option.bind_eq_some_iff.mpr ⟨slotOf, hslots, congrArg some (pure_eq_ok.mp h)⟩
  · intro h
    obtain ⟨slotOf, hs, h⟩ := Option.bind_eq_some_iff.mp h
    refine bind_eq_ok.mpr ⟨slotOf, mapM_eq_ok.mpr ?_, pure_eq_ok.mpr (Option.some.inj h)⟩
    refine (mapM_eq_some.mp hs).imp fun c slot hc => ?_
    rw [hc]

/-- A resolved layout fits. -/
theorem fits_layoutOf (hnames : (ciNames columns).Nodup) {layout : AppendLayout}
    (h : layoutOf columns batch.columns = some layout) : layout.Fits batch.columns :=
  (resolveAppendLayout_spec (t := emptyTable columns) ⟨hnames, fun _ h => nomatch h⟩
    batch.distinct (resolveAppendLayout_iff.mpr h)).1

/-- The rows a batch has under a list of columns. -/
def RowsUnder (duck : Duck) (columns : List Column) (batch : Batch) (rows : List (List Cell)) :
    Prop :=
  ∃ layout, layoutOf columns batch.columns = some layout ∧
    batch.payload.rows.mapM (newRow duck layout batch.toRawParsedPayload) = .ok rows

/-- A name keeps its slot when columns are added. -/
theorem columnIndex_append {name : Bytes} {i : Nat} (h : columnIndex columns name = some i) :
    columnIndex (columns ++ extra) name = some i := by
  rw [columnIndex] at h ⊢
  rw [List.findIdx?_append, h]
  rfl

/-- A layout under more columns has the same slots. -/
theorem layoutOf_append (extra : List Column) {cs : List RawColumn} {layout : AppendLayout}
    (h : layoutOf columns cs = some layout) : ∃ layout',
      layoutOf (columns ++ extra) cs = some layout' ∧ layout'.slotOf = layout.slotOf ∧
        layout.types = columns.map Column.type ∧
        layout'.types = (columns ++ extra).map Column.type := by
  obtain ⟨slotOf, hs, h⟩ := Option.bind_eq_some_iff.mp h
  obtain rfl := Option.some.inj h
  have hs' : cs.mapM (fun c => columnIndex (columns ++ extra) c.name) = some slotOf :=
    mapM_eq_some.mpr ((mapM_eq_some.mp hs).imp fun _ _ => columnIndex_append)
  exact ⟨_, Option.bind_eq_some_iff.mpr ⟨slotOf, hs', rfl⟩, rfl, rfl, rfl⟩

theorem newCell_congr {layout layout' : AppendLayout} (h : layout'.slotOf = layout.slotOf)
    (parsed : RawParsedPayload) (row : Json) (slot : LogicalType × Nat) :
    newCell duck layout' parsed row slot = newCell duck layout parsed row slot := by
  rw [newCell, newCell, h]

/-- Columns added later are NULL in the rows of a batch that does not have
them. -/
theorem RowsUnder.extend {rows : List (List Cell)} (hnames : (ciNames columns).Nodup)
    (h : RowsUnder duck columns batch rows) :
    RowsUnder duck (columns ++ extra) batch (pad extra.length rows) := by
  obtain ⟨layout, hlayout, hrows⟩ := h
  obtain ⟨layout', hlayout', hslots, htypes, htypes'⟩ := layoutOf_append extra hlayout
  have hfits := fits_layoutOf hnames hlayout
  refine ⟨layout', hlayout', mapM_eq_ok.mpr ?_⟩
  rw [pad, List.forall₂_map_right_iff]
  refine (mapM_eq_ok.mp hrows).imp fun row cells hcells => ?_
  rw [newRow, htypes', List.map_append, ← htypes, List.zipIdx_append]
  refine mapM_append_eq_ok.mpr ⟨cells, List.replicate extra.length .null, ?_, ?_, rfl⟩
  · rw [← hcells, newRow]
    exact congrArg (List.mapM · _) (funext fun slot => newCell_congr hslots _ _ slot)
  · -- a slot past the old columns is no column of the batch
    rw [mapM_eq_ok, List.forall₂_iff_get]
    refine ⟨by simp, fun i hi hi' => ?_⟩
    simp only [List.get_eq_getElem, List.getElem_zipIdx, List.getElem_map, List.getElem_replicate]
    apply newCell_of_uncovered
    rw [hslots]
    intro hmem
    have hlt := hfits.bound _ hmem
    omega

end

/-! ## what every step keeps -/

/-- The batch a worker has in hand. -/
def Phase.hand : Phase → List Batch
  | .taken batch _ | .ready batch | .resolved batch _ _ | .laidOut batch _ => [batch]
  | .waiting | .left => []

/-- The columns a worker is about to add. -/
def Phase.pending : Phase → List Column
  | .taken _ pending => pending
  | .waiting | .ready _ | .resolved _ _ _ | .laidOut _ _ | .left => []

/-- The layout a worker has decided on. -/
def Phase.layout : Phase → Option (Batch × AppendLayout)
  | .resolved batch _ layout | .laidOut batch layout => some (batch, layout)
  | .waiting | .taken _ _ | .ready _ | .left => none

/-- A worker that has appended the batches `done`, of a pool with these columns
published. -/
structure WorkerInv (duck : Duck) (batches : Set Batch) (published : List Column)
    (worker : Worker) (done : List Batch) : Prop where
  layout : worker.columns ++ worker.phase.pending <+: published
  hand : ∀ batch ∈ worker.phase.hand, batch ∈ batches
  decided : ∀ batch layout, worker.phase.layout = some (batch, layout) →
    layoutOf worker.columns batch.columns = some layout
  signature : ∀ batch shape layout, worker.phase = .resolved batch shape layout →
    hashPayloadShape duck batch.columns = .ok shape
  cache : worker.cache.shape ≠ 0 → ∃ batch ∈ batches,
    hashPayloadShape duck batch.columns = .ok worker.cache.shape ∧
      layoutOf worker.columns batch.columns = some worker.cachedLayout
  rows : ∃ rss, List.Forall₂ (RowsUnder duck worker.columns) done rss ∧
    worker.collection = rss.flatten

/-- A pool whose workers have appended the batches `done`. -/
structure PoolInv {n : Nat} (duck : Duck) (batches : Set Batch) (s : State n)
    (done : Fin n → List Batch) : Prop where
  names : (ciNames s.columns).Nodup
  workers : ∀ w, WorkerInv duck batches s.columns (s.workers w) (done w)
  queued : ∀ batch ∈ s.queue, batch ∈ batches
  accounted : s.submitted.Perm
    (s.queue ++ (List.finRange n).flatMap fun w => (s.workers w).phase.hand ++ done w)
  left : ∀ w, (s.workers w).phase = .left → s.stopped = true ∧ s.queue = []
  merged : ∀ rows, s.merged = some rows → s.stopped = true ∧
    (∀ w, (s.workers w).phase = .left) ∧ rows = (List.finRange n).flatMap s.padded

/-- The batches that may be submitted: equal signatures mean equal names. -/
def ShapesTell (duck : Duck) (batches : Set Batch) : Prop :=
  ∀ p ∈ batches, ∀ q ∈ batches, ∀ shape, hashPayloadShape duck p.columns = .ok shape →
    hashPayloadShape duck q.columns = .ok shape →
    p.columns.map (fun c => lower c.name) = q.columns.map fun c => lower c.name

/-- The same of batches with one number of columns. -/
def WidthsTell (duck : Duck) (batches : Set Batch) : Prop :=
  ∀ p ∈ batches, ∀ q ∈ batches, ∀ shape, hashPayloadShape duck p.columns = .ok shape →
    hashPayloadShape duck q.columns = .ok shape → p.columns.length = q.columns.length →
    p.columns.map (fun c => lower c.name) = q.columns.map fun c => lower c.name

theorem ShapesTell.widths {duck : Duck} {batches : Set Batch} (h : ShapesTell duck batches) :
    WidthsTell duck batches :=
  fun p hp q hq shape hps hqs _ => h p hp q hq shape hps hqs

/-- A worker takes a last layout that was marked as not to be used, because the
batch's signature is the mark, and it is not the layout of the batch. -/
def Misled (duck : Duck) (worker : Worker) (batch : Batch) : Prop :=
  hashPayloadShape duck batch.columns = .ok 0 ∧ worker.hits 0 batch.columns = true ∧
    layoutOf worker.columns batch.columns ≠ some worker.cachedLayout

/-- Batches are from the set, and no worker is misled. -/
def Guard {n : Nat} (duck : Duck) (batches : Set Batch) (s : State n) : Label n → Prop
  | .submit batch => batch ∈ batches
  | .layOut w => ∀ batch, (s.workers w).phase = .ready batch → ¬ Misled duck (s.workers w) batch
  | _ => True

/-- Batches are from the set. -/
def SubmitsFrom {n : Nat} (batches : Set Batch) (_ : State n) : Label n → Prop
  | .submit batch => batch ∈ batches
  | _ => True

section

variable {n : Nat} {duck : Duck} {batches : Set Batch} {s s' : State n} {done : Fin n → List Batch}

/-- Layouts of batches with the same names are the same. -/
theorem layoutOf_congr {columns : List Column} {cs cs' : List RawColumn}
    (h : cs.map (fun c => lower c.name) = cs'.map fun c => lower c.name) :
    layoutOf columns cs = layoutOf columns cs' := by
  have hslots : (cs.mapM fun c => columnIndex columns c.name) =
      cs'.mapM fun c => columnIndex columns c.name := by
    induction cs generalizing cs' with
    | nil => rw [List.map_eq_nil_iff.mp h.symm]
    | cons c cs ih =>
        cases cs' with
        | nil => simp at h
        | cons c' cs' =>
            obtain ⟨hc, hcs⟩ := List.cons.inj h
            rw [List.mapM_cons, List.mapM_cons, columnIndex_congr hc, ih hcs]
  rw [layoutOf, layoutOf, hslots]

/-- A layout has a slot for each column of its batch. -/
theorem length_slotOf_layoutOf {columns : List Column} {cs : List RawColumn}
    {layout : AppendLayout} (h : layoutOf columns cs = some layout) :
    layout.slotOf.length = cs.length := by
  obtain ⟨slotOf, hslots, hlayout⟩ := Option.bind_eq_some_iff.mp h
  obtain rfl := Option.some.inj hlayout
  exact (mapM_eq_some.mp hslots).length_eq.symm

/-- Replacing what one index contributes, in a list of all contributions. -/
theorem flatMap_update_perm {ι α : Type} [DecidableEq ι] {l : List ι} (hnd : l.Nodup) {w : ι}
    (hw : w ∈ l) (f : ι → List α) (v : List α) :
    (l.flatMap (Function.update f w v) ++ f w).Perm (v ++ l.flatMap f) := by
  induction l with
  | nil => exact nomatch hw
  | cons x l ih =>
      obtain ⟨hx, hnd⟩ := List.nodup_cons.mp hnd
      rw [List.flatMap_cons, List.flatMap_cons]
      rcases List.mem_cons.mp hw with rfl | hw
      · have hrest : l.flatMap (Function.update f w v) = l.flatMap f := by
          refine List.flatMap_congr fun y hy => ?_
          rw [Function.update_of_ne]
          rintro rfl
          exact hx hy
        rw [hrest, Function.update_self, List.append_assoc]
        exact (List.perm_append_comm).append_left v
      · have hne : x ≠ w := by
          rintro rfl
          exact hx hw
        rw [Function.update_of_ne hne, List.append_assoc]
        refine ((ih hnd hw).append_left (f x)).trans ?_
        rw [← List.append_assoc, ← List.append_assoc]
        exact (List.perm_append_comm).append_right _

/-- When one worker's hand and work grow by `extra`, so do all of them. -/
theorem accounted_update {workers : Fin n → Worker} {w : Fin n} {worker : Worker}
    {extra d : List Batch}
    (h : (worker.phase.hand ++ d).Perm (extra ++ ((workers w).phase.hand ++ done w))) :
    ((List.finRange n).flatMap fun x => (Function.update workers w worker x).phase.hand ++
        Function.update done w d x).Perm
      (extra ++ (List.finRange n).flatMap fun x => (workers x).phase.hand ++ done x) := by
  have hfun : (fun x => (Function.update workers w worker x).phase.hand ++
      Function.update done w d x) =
      Function.update (fun x => (workers x).phase.hand ++ done x) w (worker.phase.hand ++ d) := by
    funext x
    by_cases hx : x = w
    · subst hx
      simp
    · simp [Function.update_of_ne hx]
  have hperm := flatMap_update_perm (List.nodup_finRange n) (List.mem_finRange w)
    (fun x => (workers x).phase.hand ++ done x) (worker.phase.hand ++ d)
  rw [hfun]
  rw [← List.perm_append_right_iff ((workers w).phase.hand ++ done w)]
  refine hperm.trans ((h.append_right _).trans ?_)
  rw [List.append_assoc extra, List.append_assoc extra]
  exact (List.perm_append_comm).append_left extra

/-- A step of one worker that has not left keeps the invariant of the pool. -/
theorem PoolInv.setWorker (h : PoolInv duck batches s done) {w : Fin n} {worker : Worker}
    {d : List Batch} (queue extra : List Batch) (hqueue : s.queue = extra ++ queue)
    (hphase : (s.workers w).phase ≠ .left)
    (hleft : worker.phase = .left → s.stopped = true ∧ queue = [])
    (hworker : WorkerInv duck batches s.columns worker d)
    (hhand : (worker.phase.hand ++ d).Perm (extra ++ ((s.workers w).phase.hand ++ done w))) :
    PoolInv duck batches ({ s with queue := queue }.setWorker w worker)
      (Function.update done w d) where
  names := h.names
  workers x := by
    by_cases hx : x = w
    · subst hx
      simpa [State.setWorker] using hworker
    · simpa [State.setWorker, Function.update_of_ne hx] using h.workers x
  queued batch hb := h.queued batch (hqueue ▸ List.mem_append_right _ hb)
  accounted := by
    refine h.accounted.trans ?_
    rw [hqueue, List.append_assoc]
    refine (List.perm_append_comm_assoc _ _ _).trans ?_
    exact (accounted_update hhand).symm.append_left queue
  left x hx := by
    by_cases hxw : x = w
    · subst hxw
      exact hleft (by simpa [State.setWorker] using hx)
    · have hx : (s.workers x).phase = .left := by
        simpa [State.setWorker, Function.update_of_ne hxw] using hx
      obtain ⟨hstopped, hempty⟩ := h.left x hx
      exact ⟨hstopped, (List.append_eq_nil_iff.mp (hqueue ▸ hempty)).2⟩
  merged rows hrows := absurd ((h.merged rows hrows).2.1 w) hphase

/-- The columns of a worker are published, in that order. -/
theorem WorkerInv.columns_le {published : List Column} {worker : Worker} {d : List Batch}
    (h : WorkerInv duck batches published worker d) : worker.columns <+: published :=
  (List.prefix_append _ _).trans h.layout

theorem nodup_names_of_le {columns published : List Column} (h : columns <+: published)
    (hnames : (ciNames published).Nodup) : (ciNames columns).Nodup :=
  hnames.sublist (h.sublist.map _)

/-- A worker that takes a batch is to add the columns it lacks. -/
theorem WorkerInv.take {published : List Column} {worker : Worker} {d : List Batch}
    (h : WorkerInv duck batches published worker d) {batch : Batch} (hb : batch ∈ batches) :
    WorkerInv duck batches published
      { worker with phase := .taken batch (published.drop worker.columns.length) } d where
  layout := by
    obtain ⟨rest, hrest⟩ := h.columns_le
    have hdrop : published.drop worker.columns.length = rest := by
      rw [← hrest, List.drop_left]
    rw [Phase.pending, hdrop]
    exact ⟨[], by rw [List.append_nil, hrest]⟩
  hand b hb' := by rwa [List.mem_singleton.mp hb']
  decided _ _ hlayout := nomatch hlayout
  signature _ _ _ hphase := nomatch hphase
  cache := h.cache
  rows := h.rows

/-- Adding the columns keeps the rows of the batches. -/
theorem WorkerInv.extend {published : List Column} {worker : Worker} {d : List Batch}
    (h : WorkerInv duck batches published worker d) (hnames : (ciNames published).Nodup)
    {batch : Batch} {pending : List Column} (hphase : worker.phase = .taken batch pending) :
    WorkerInv duck batches published { worker.extend pending with phase := .ready batch } d := by
  have hlayout := h.layout
  have hhand := h.hand
  rw [hphase] at hlayout hhand
  rw [Worker.extend]
  split
  · exact {
      layout := by simpa [Phase.pending] using h.columns_le
      hand := hhand
      decided := fun _ _ hlayout => nomatch hlayout
      signature := fun _ _ _ hphase => nomatch hphase
      cache := h.cache
      rows := h.rows }
  · obtain ⟨rss, hrss, hcollection⟩ := h.rows
    exact {
      layout := by simpa [Phase.pending] using hlayout
      hand := hhand
      decided := fun _ _ hlayout => nomatch hlayout
      signature := fun _ _ _ hphase => nomatch hphase
      cache := fun hshape => absurd rfl hshape
      rows := by
        refine ⟨rss.map (pad pending.length), ?_, ?_⟩
        · rw [List.forall₂_map_right_iff]
          exact hrss.imp fun b rows hrows =>
            hrows.extend (nodup_names_of_le h.columns_le hnames)
        · rw [pad, hcollection, List.map_flatten]
          rfl }

/-- A last layout that is taken is the layout of the batch. -/
theorem WorkerInv.hit {published : List Column} {worker : Worker} {d : List Batch}
    (h : WorkerInv duck batches published worker d) (htell : WidthsTell duck batches)
    {batch : Batch} (hphase : worker.phase = .ready batch) {shape : UInt64}
    (hshape : hashPayloadShape duck batch.columns = .ok shape)
    (hhit : worker.hits shape batch.columns = true) (hguard : ¬ Misled duck worker batch) :
    layoutOf worker.columns batch.columns = some worker.cachedLayout := by
  by_cases hzero : shape = 0
  · subst hzero
    by_contra hne
    exact hguard ⟨hshape, hhit, hne⟩
  · rw [Worker.hits, Bool.and_eq_true, beq_iff_eq, beq_iff_eq] at hhit
    obtain ⟨b, hb, hbshape, hblayout⟩ := h.cache (hhit.1 ▸ hzero)
    have hbatch : batch ∈ batches := h.hand batch (by rw [hphase]; exact List.mem_cons_self)
    have hwidth : batch.columns.length = b.columns.length :=
      hhit.2.symm.trans (length_slotOf_layoutOf hblayout)
    rw [hhit.1] at hbshape
    rw [← hblayout]
    exact layoutOf_congr (htell batch hbatch b hb shape hshape hbshape hwidth)

/-- A worker that decides on the layout of its batch. -/
theorem WorkerInv.decide {published : List Column} {worker : Worker} {d : List Batch}
    (h : WorkerInv duck batches published worker d) {batch : Batch}
    (hphase : worker.phase = .ready batch) {phase : Phase} (hhand : phase.hand = [batch])
    (hpending : phase.pending = []) {layout : AppendLayout}
    (hlayout : phase.layout = some (batch, layout))
    (hdecided : layoutOf worker.columns batch.columns = some layout)
    (hsignature : ∀ b shape layout, phase = .resolved b shape layout →
      hashPayloadShape duck b.columns = .ok shape) :
    WorkerInv duck batches published { worker with phase := phase } d where
  layout := by simpa [hpending] using h.columns_le
  hand b hb := by
    rw [hhand] at hb
    exact h.hand b (by rw [hphase]; exact hb)
  decided b layout' hb := by
    obtain ⟨rfl, rfl⟩ := Prod.mk.inj (Option.some.inj (hlayout.symm.trans hb))
    exact hdecided
  signature := hsignature
  cache := h.cache
  rows := h.rows

/-- Noting the layout as the last one. -/
theorem WorkerInv.remember {published : List Column} {worker : Worker} {d : List Batch}
    (h : WorkerInv duck batches published worker d) {batch : Batch} {shape : UInt64}
    {layout : AppendLayout} (hphase : worker.phase = .resolved batch shape layout) :
    WorkerInv duck batches published { worker with
      cache := { shape, slotOf := layout.slotOf, covered := layout.covered }
      phase := .laidOut batch layout } d := by
  have hlayout := h.layout
  have hhand := h.hand
  have hdecided := h.decided batch layout (by rw [hphase]; rfl)
  rw [hphase] at hlayout hhand
  exact {
    layout := hlayout
    hand := hhand
    decided := fun b layout' hb => by
      obtain ⟨rfl, rfl⟩ := Prod.mk.inj (Option.some.inj hb)
      exact hdecided
    signature := fun _ _ _ hphase => nomatch hphase
    cache := fun _ => by
      refine ⟨batch, hhand batch List.mem_cons_self, h.signature _ _ _ hphase, ?_⟩
      obtain ⟨-, -, -, htypes, -⟩ := layoutOf_append [] hdecided
      rw [hdecided, Worker.cachedLayout, ← htypes]
    rows := h.rows }

/-- The row loop makes the rows of the batch under the worker's columns. -/
theorem rowsUnder_appendedRows {columns : List Column} (hnames : (ciNames columns).Nodup)
    {batch : Batch} {layout : AppendLayout} (hlayout : layoutOf columns batch.columns = some layout)
    {rows : List (List Cell)} (h : appendedRows duck layout batch = .ok rows) :
    RowsUnder duck columns batch rows := by
  rw [appendedRows] at h
  split at h
  · exact nomatch h
  · obtain ⟨new, hnew, h⟩ := bind_eq_ok.mp h
    obtain rfl := pure_eq_ok.mp h
    have hall := mapM_fillChunk_spec (fits_layoutOf hnames hlayout) hnew
    rw [flatten_blocks _ (Nat.le_refl _)] at hall
    exact ⟨layout, hlayout, hall⟩

/-- Appending adds the batch to those that are done. -/
theorem WorkerInv.append {published : List Column} {worker : Worker} {d : List Batch}
    (h : WorkerInv duck batches published worker d) (hnames : (ciNames published).Nodup)
    {batch : Batch} {layout : AppendLayout} (hphase : worker.phase = .laidOut batch layout)
    {rows : List (List Cell)} (hrows : appendedRows duck layout batch = .ok rows) :
    WorkerInv duck batches published { worker with
      collection := worker.collection ++ rows
      phase := .waiting } (d ++ [batch]) := by
  have hdecided := h.decided batch layout (by rw [hphase]; rfl)
  have hunder := rowsUnder_appendedRows (nodup_names_of_le h.columns_le hnames) hdecided hrows
  obtain ⟨rss, hrss, hcollection⟩ := h.rows
  exact {
    layout := by simpa [Phase.pending] using h.columns_le
    hand := fun _ hb => nomatch hb
    decided := fun _ _ hlayout => nomatch hlayout
    signature := fun _ _ _ hphase => nomatch hphase
    cache := h.cache
    rows := by
      refine ⟨rss ++ [rows], List.rel_append hrss (.cons hunder .nil), ?_⟩
      rw [hcollection, List.flatten_append, List.flatten_singleton] }

/-- Publishing columns marks the last layout and changes no row. -/
theorem WorkerInv.publish {published adds : List Column} {worker : Worker} {d : List Batch}
    (h : WorkerInv duck batches published worker d) :
    WorkerInv duck batches (published ++ adds) worker.invalidate d where
  layout := h.layout.trans (List.prefix_append _ _)
  hand := h.hand
  decided := h.decided
  signature := h.signature
  cache hshape := absurd rfl hshape
  rows := h.rows

/-- A waiting worker that leaves. -/
theorem WorkerInv.leave {published : List Column} {worker : Worker} {d : List Batch}
    (h : WorkerInv duck batches published worker d) :
    WorkerInv duck batches published { worker with phase := .left } d where
  layout := by simpa [Phase.pending] using h.columns_le
  hand _ hb := nomatch hb
  decided _ _ hlayout := nomatch hlayout
  signature _ _ _ hphase := nomatch hphase
  cache := h.cache
  rows := h.rows

/-- A step of a worker that keeps the queue and its batches keeps the
invariant of the pool. -/
theorem PoolInv.setWorker_same (h : PoolInv duck batches s done) {w : Fin n} {worker : Worker}
    (hphase : (s.workers w).phase ≠ .left)
    (hleft : worker.phase = .left → s.stopped = true ∧ s.queue = [])
    (hworker : WorkerInv duck batches s.columns worker (done w))
    (hhand : worker.phase.hand = (s.workers w).phase.hand) :
    ∃ done', PoolInv duck batches (s.setWorker w worker) done' :=
  ⟨_, h.setWorker s.queue [] (List.nil_append _).symm hphase hleft hworker
    (by rw [hhand]; exact List.Perm.refl _)⟩

/-- What a new pool starts from. -/
theorem PoolInv.start {columns : List Column} (hnames : (ciNames columns).Nodup) :
    PoolInv duck batches (State.start n columns) fun _ => [] where
  names := hnames
  workers _ := {
    layout := by simp [State.start, Worker.start, Phase.pending]
    hand := fun _ hb => nomatch hb
    decided := fun _ _ hlayout => nomatch hlayout
    signature := fun _ _ _ hphase => nomatch hphase
    cache := fun hshape => absurd rfl hshape
    rows := ⟨[], .nil, rfl⟩ }
  queued _ hb := nomatch hb
  accounted := by simp [State.start, Worker.start, Phase.hand]
  left _ hphase := nomatch hphase
  merged _ hrows := nomatch hrows

/-- What is queued grows by a batch that is submitted. -/
theorem PoolInv.submit (h : PoolInv duck batches s done) {batch : Batch} (hb : batch ∈ batches)
    (hstopped : s.stopped = false) :
    PoolInv duck batches
      { s with queue := s.queue ++ [batch], submitted := s.submitted ++ [batch] } done where
  names := h.names
  workers := h.workers
  queued b hb' := by
    rcases List.mem_append.mp hb' with hb' | hb'
    · exact h.queued b hb'
    · rwa [List.mem_singleton.mp hb']
  accounted := by
    refine (h.accounted.append_right [batch]).trans ?_
    rw [List.append_assoc, List.append_assoc]
    exact (List.perm_append_comm).append_left s.queue
  left w hw := absurd (h.left w hw).1 (by simp [hstopped])
  merged rows hrows := absurd (h.merged rows hrows).1 (by simp [hstopped])

/-- The columns published are a longer list of different names. -/
theorem PoolInv.publish (h : PoolInv duck batches s done) {adds : List Column}
    (hnames : (ciNames (s.columns ++ adds)).Nodup) (hstopped : s.stopped = false) :
    PoolInv duck batches { s with
      columns := s.columns ++ adds
      workers := fun w => (s.workers w).invalidate } done where
  names := hnames
  workers w := (h.workers w).publish
  queued := h.queued
  accounted := h.accounted
  left w hw := absurd (h.left w hw).1 (by simp [hstopped])
  merged rows hrows := absurd (h.merged rows hrows).1 (by simp [hstopped])

/-- One step of the pool keeps its invariant. -/
theorem PoolInv.step (h : PoolInv duck batches s done) (htell : WidthsTell duck batches)
    {depth : Nat} {a : Label n} (hguard : Guard duck batches s a)
    (hstep : step duck depth s a = some s') : ∃ done', PoolInv duck batches s' done' := by
  cases a with
  | submit batch =>
      simp only [AppendPool.step, Option.ite_none_right_eq_some, Option.some.injEq] at hstep
      obtain ⟨⟨hstopped, -⟩, rfl⟩ := hstep
      exact ⟨_, h.submit hguard hstopped⟩
  | publish adds =>
      simp only [AppendPool.step, Option.ite_none_right_eq_some, Option.some.injEq] at hstep
      obtain ⟨⟨hstopped, -, hnames⟩, rfl⟩ := hstep
      exact ⟨_, h.publish hnames hstopped⟩
  | drain =>
      simp only [AppendPool.step, Option.ite_none_right_eq_some, Option.some.injEq] at hstep
      obtain ⟨hstopped, rfl⟩ := hstep
      exact ⟨done, {
        names := h.names
        workers := h.workers
        queued := h.queued
        accounted := h.accounted
        left := fun w hw => ⟨rfl, (h.left w hw).2⟩
        merged := fun rows hrows => absurd (h.merged rows hrows).1 (by simp [hstopped]) }⟩
  | take w =>
      simp only [AppendPool.step] at hstep
      split at hstep
      · rename_i batch rest hphase hqueue
        obtain rfl := Option.some.inj hstep
        have hb : batch ∈ batches := h.queued batch (by rw [hqueue]; exact List.mem_cons_self)
        refine ⟨_, h.setWorker rest [batch] hqueue (by rw [hphase]; simp) (by simp)
          ((h.workers w).take hb) ?_⟩
        rw [hphase]
        exact List.Perm.refl _
      · exact nomatch hstep
  | extend w =>
      simp only [AppendPool.step] at hstep
      split at hstep
      · rename_i batch pending hphase
        obtain rfl := Option.some.inj hstep
        exact h.setWorker_same (by rw [hphase]; simp) (by simp)
          ((h.workers w).extend h.names hphase) (by rw [hphase]; rfl)
      · exact nomatch hstep
  | layOut w =>
      simp only [AppendPool.step] at hstep
      split at hstep
      · rename_i batch hphase
        have hleft : (s.workers w).phase ≠ .left := by rw [hphase]; simp
        cases hshape : hashPayloadShape duck batch.columns with
        | error e => simp [hshape] at hstep
        | ok shape =>
            simp only [hshape] at hstep
            split at hstep
            · rename_i hhit
              obtain rfl := Option.some.inj hstep
              have hdecided := (h.workers w).hit htell hphase hshape hhit (hguard batch hphase)
              exact h.setWorker_same hleft (by simp)
                ((h.workers w).decide hphase rfl rfl rfl hdecided fun _ _ _ hp => nomatch hp)
                (by rw [hphase]; rfl)
            · split at hstep
              · exact nomatch hstep
              · rename_i layout hlayout
                obtain rfl := Option.some.inj hstep
                refine h.setWorker_same hleft (by simp)
                  ((h.workers w).decide hphase rfl rfl rfl hlayout ?_) (by rw [hphase]; rfl)
                intro b shape' layout' hp
                cases hp
                exact hshape
      · exact nomatch hstep
  | remember w =>
      simp only [AppendPool.step] at hstep
      split at hstep
      · rename_i batch shape layout hphase
        obtain rfl := Option.some.inj hstep
        exact h.setWorker_same (by rw [hphase]; simp) (by simp)
          ((h.workers w).remember hphase) (by rw [hphase]; rfl)
      · exact nomatch hstep
  | append w =>
      simp only [AppendPool.step] at hstep
      split at hstep
      · rename_i batch layout hphase
        split at hstep
        · exact nomatch hstep
        · rename_i rows hrows
          obtain rfl := Option.some.inj hstep
          refine ⟨_, h.setWorker s.queue [] (List.nil_append _).symm
            (by rw [hphase]; simp) (by simp) ((h.workers w).append h.names hphase hrows) ?_⟩
          rw [hphase]
          show (done w ++ [batch]).Perm ([batch] ++ done w)
          exact List.perm_append_comm
      · exact nomatch hstep
  | leave w =>
      simp only [AppendPool.step] at hstep
      split at hstep
      · rename_i hphase
        split at hstep
        · rename_i hend
          obtain rfl := Option.some.inj hstep
          rw [Bool.and_eq_true, List.isEmpty_iff] at hend
          exact h.setWorker_same (by rw [hphase]; simp) (fun _ => ⟨hend.2, hend.1⟩)
            (h.workers w).leave (by rw [hphase]; rfl)
        · exact nomatch hstep
      · exact nomatch hstep
  | merge =>
      simp only [AppendPool.step, Option.ite_none_right_eq_some, Option.some.injEq] at hstep
      obtain ⟨hend, rfl⟩ := hstep
      simp only [Bool.and_eq_true, List.all_eq_true, List.mem_finRange, true_imp_iff] at hend
      obtain ⟨⟨hstopped, -⟩, hall⟩ := hend
      exact ⟨done, {
        names := h.names
        workers := h.workers
        queued := h.queued
        accounted := h.accounted
        left := h.left
        merged := fun rows hrows => by
          refine ⟨hstopped, fun w => ?_, (Option.some.inj hrows).symm⟩
          have hleft := hall w
          rw [Worker.hasLeft] at hleft
          split at hleft
          · assumption
          · exact nomatch hleft }⟩

/-- Every state of a run whose steps meet the guard has the invariant. -/
theorem exists_poolInv {depth : Nat} {columns : List Column} (htell : WidthsTell duck batches)
    (hnames : (ciNames columns).Nodup)
    (h : Reachable (system duck n depth columns) (Guard duck batches) s) :
    ∃ done, PoolInv duck batches s done := by
  refine h.invariant (fun s => ∃ done, PoolInv duck batches s done) ⟨_, .start hnames⟩ ?_
  rintro s a s' ⟨done, hs⟩ hguard hstep
  exact hs.step htell hguard hstep

/-! ## the rows merged -/

/-- Appending batches that have rows under the table's columns appends those
rows. -/
theorem appendSerially_of_rows {columns : List Column} (hnames : (ciNames columns).Nodup)
    {submitted : List Batch} {rss : List (List (List Cell))}
    (h : List.Forall₂ (RowsUnder duck columns) submitted rss) (t : Table)
    (ht : t.columns = columns) :
    appendSerially duck t submitted = .ok { t with rows := t.rows ++ rss.flatten } := by
  induction h generalizing t with
  | nil => rw [List.flatten_nil, List.append_nil]; rfl
  | @cons batch rows submitted rss hrows _ ih =>
      obtain ⟨layout, hlayout, hrows⟩ := hrows
      have hresolve : resolveAppendLayout t batch.columns = .ok layout :=
        resolveAppendLayout_iff.mpr (ht ▸ hlayout)
      have happend : appendBlocks duck unconstrained layout batch.toRawParsedPayload t =
          .ok { t with rows := t.rows ++ rows } :=
        appendBlocks_of_rows (fun _ _ => rfl) (fits_layoutOf hnames hlayout) hrows t
      rw [appendSerially, List.foldlM_cons, hresolve]
      refine bind_eq_ok.mpr ⟨{ t with rows := t.rows ++ rows }, happend, ?_⟩
      have hrest := ih { t with rows := t.rows ++ rows } ht
      rw [appendSerially] at hrest
      rw [hrest, List.flatten_cons, List.append_assoc]

/-- A worker's collection, padded, is the rows of its batches under the
published columns. -/
theorem WorkerInv.padded {published : List Column} {worker : Worker} {d : List Batch}
    (h : WorkerInv duck batches published worker d) (hnames : (ciNames published).Nodup) :
    ∃ rss, List.Forall₂ (RowsUnder duck published) d rss ∧
      pad (published.length - worker.columns.length) worker.collection = rss.flatten := by
  obtain ⟨rss, hrss, hcollection⟩ := h.rows
  obtain ⟨extra, rfl⟩ := h.columns_le
  have hlength : (worker.columns ++ extra).length - worker.columns.length = extra.length := by
    simp
  refine ⟨rss.map (pad extra.length), ?_, ?_⟩
  · rw [List.forall₂_map_right_iff]
    exact hrss.imp fun b rows hrows =>
      hrows.extend (nodup_names_of_le (List.prefix_append _ _) hnames)
  · rw [hlength, pad, hcollection, List.map_flatten]
    rfl

/-- What all workers hold, padded, is the rows of all their batches. -/
theorem PoolInv.padded (h : PoolInv duck batches s done) (ws : List (Fin n)) :
    ∃ rss, List.Forall₂ (RowsUnder duck s.columns) (ws.flatMap done) rss ∧
      ws.flatMap s.padded = rss.flatten := by
  induction ws with
  | nil => exact ⟨[], .nil, rfl⟩
  | cons w ws ih =>
      obtain ⟨rss, hrss, hrows⟩ := ih
      obtain ⟨rss', hrss', hrows'⟩ := (h.workers w).padded h.names
      refine ⟨rss' ++ rss, ?_, ?_⟩
      · rw [List.flatMap_cons]
        exact List.rel_append hrss' hrss
      · rw [List.flatMap_cons, hrows, State.padded, hrows', List.flatten_append]

/-- Once all workers have left, every batch submitted was appended by one of
them. -/
theorem PoolInv.all_done (h : PoolInv duck batches s done) (hn : 0 < n)
    (hleft : ∀ w, (s.workers w).phase = .left) :
    s.submitted.Perm ((List.finRange n).flatMap done) := by
  have hqueue := (h.left ⟨0, hn⟩ (hleft _)).2
  have hacc := h.accounted
  simp only [hqueue, hleft, Phase.hand, List.nil_append] at hacc
  exact hacc

/-- **Drain**: whatever the number of workers and the order of steps, every
worker's columns begin the published ones, and the rows merged are those of
appending the batches one after the other to a table of the final columns, as
long as no worker takes a last layout marked as not to be used. -/
theorem drain_merges_serially {depth : Nat} {columns : List Column}
    (htell : ShapesTell duck batches) (hn : 0 < n) (hnames : (ciNames columns).Nodup)
    (h : Reachable (system duck n depth columns) (Guard duck batches) s) :
    (∀ w, (s.workers w).columns <+: s.columns) ∧
      ∀ rows, s.merged = some rows → ∃ table,
        appendSerially duck (emptyTable s.columns) s.submitted = .ok table ∧
          rows.Perm table.rows := by
  obtain ⟨done, hinv⟩ := exists_poolInv htell.widths hnames h
  refine ⟨fun w => (hinv.workers w).columns_le, fun rows hrows => ?_⟩
  obtain ⟨-, hleft, rfl⟩ := hinv.merged rows hrows
  obtain ⟨rss, hrss, hpadded⟩ := hinv.padded (List.finRange n)
  -- the batches as submitted, with the rows the workers made of them
  obtain ⟨rss', hrss', hperm⟩ := List.perm_comp_forall₂ (hinv.all_done hn hleft) hrss
  refine ⟨_, appendSerially_of_rows hinv.names hrss' (emptyTable s.columns) rfl, ?_⟩
  rw [hpadded]
  exact hperm.symm.flatten

end

/-! ## one worker, two batches -/

/-- `{"x": false}`. -/
def plainBatch : Batch where
  toRawParsedPayload := (ProcessedPayload.ofRows smallDuck [.obj [(bytes "x", .bool false)]]
    [{ name := bytes "x", path := [bytes "x"], type := .BOOLEAN, node := [0] }]
    rfl rfl).toRawParsedPayload
  distinct := ProcessedPayload.ciDistinct _

/-- `{"zy8cbcx0_ltwf": true}`, whose signature is 0. -/
def zeroBatch : Batch where
  toRawParsedPayload := (ProcessedPayload.ofRows smallDuck
    [.obj [(bytes "zy8cbcx0_ltwf", .bool true)]]
    [{ name := bytes "zy8cbcx0_ltwf", path := [bytes "zy8cbcx0_ltwf"], type := .BOOLEAN,
       node := [0] }] rfl rfl).toRawParsedPayload
  distinct := ProcessedPayload.ciDistinct _

theorem hashPayloadShape_zeroBatch : hashPayloadShape smallDuck zeroBatch.columns = .ok 0 := rfl

/-- A column of truth values. -/
def booleanColumn (name : String) : Column where
  name := bytes name
  type := .BOOLEAN
  generated := false

/-- The signatures of the two batches differ. -/
theorem shapesTell_pair : ShapesTell smallDuck {plainBatch, zeroBatch} := by
  have hplain : hashPayloadShape smallDuck plainBatch.columns ≠ .ok 0 := by decide
  intro p hp q hq shape hps hqs
  rcases hp with rfl | rfl <;> rcases hq with rfl | rfl
  · rfl
  · exact absurd (hps.trans (hqs.symm.trans hashPayloadShape_zeroBatch)) hplain
  · exact absurd (hqs.trans (hps.symm.trans hashPayloadShape_zeroBatch)) hplain
  · rfl

/-- A worker is not misled by a batch whose signature is not 0. -/
theorem guard_layOut {n : Nat} {duck : Duck} {batches : Set Batch} {s : State n} {w : Fin n}
    {batch : Batch} (hphase : (s.workers w).phase = .ready batch)
    (hshape : hashPayloadShape duck batch.columns ≠ .ok 0) : Guard duck batches s (.layOut w) := by
  intro b hb hmisled
  obtain rfl := Phase.ready.inj (hphase.symm.trans hb)
  exact hshape hmisled.1

/-- The worker of a pool of one. -/
def soleWorker : Fin 1 := .last 0

/-- A column is published while a batch is queued. -/
def publishedWhileQueued : List (Label 1) :=
  [.submit plainBatch, .publish [booleanColumn "z"], .take soleWorker, .extend soleWorker,
    .layOut soleWorker, .remember soleWorker, .append soleWorker, .drain, .leave soleWorker, .merge]

theorem guarded_publishedWhileQueued :
    (system smallDuck 1 4 [booleanColumn "x"]).Guarded (Guard smallDuck {plainBatch, zeroBatch})
      (.start 1 [booleanColumn "x"]) publishedWhileQueued := by
  have hshape : hashPayloadShape smallDuck plainBatch.columns ≠ .ok 0 := by decide
  refine guarded_cons rfl (.inl rfl) (guarded_cons rfl trivial ?_)
  refine guarded_cons rfl trivial (guarded_cons rfl trivial ?_)
  refine guarded_cons rfl (guard_layOut rfl hshape) (guarded_cons rfl trivial ?_)
  refine guarded_cons rfl trivial (guarded_cons rfl trivial ?_)
  exact guarded_cons rfl trivial (guarded_cons rfl trivial trivial)

/-- A column published while a batch is queued is NULL in the rows of the batch. -/
theorem drain_merges_serially_published : ∃ s rows,
    (system smallDuck 1 4 [booleanColumn "x"]).run publishedWhileQueued = some s ∧
      s.merged = some rows ∧ rows = [[.bool false, .null]] ∧
      ∃ table, appendSerially smallDuck (emptyTable s.columns) s.submitted = .ok table ∧
        rows.Perm table.rows :=
  ⟨_, _, rfl, rfl, rfl, (drain_merges_serially shapesTell_pair (by decide) (by decide)
    (Reachable.init.of_guarded guarded_publishedWhileQueued rfl)).2 _ rfl⟩

/-- A column is published while the worker is about to lay out the second
batch. -/
def misleading : List (Label 1) :=
  [.submit plainBatch, .take soleWorker, .extend soleWorker, .layOut soleWorker,
    .remember soleWorker, .append soleWorker, .submit zeroBatch, .take soleWorker,
    .extend soleWorker, .publish [booleanColumn "z"], .layOut soleWorker, .append soleWorker,
    .drain, .leave soleWorker, .merge]

/-- A value in the column of another batch: the signature of the second batch,
0, meets the mark on the layout of the first. -/
theorem drain_stores_in_another_column : ShapesTell smallDuck {plainBatch, zeroBatch} ∧
    ¬ ∀ s, Reachable (system smallDuck 1 4 [booleanColumn "x", booleanColumn "zy8cbcx0_ltwf"])
        (SubmitsFrom {plainBatch, zeroBatch}) s →
      ∀ rows, s.merged = some rows → ∃ table,
        appendSerially smallDuck (emptyTable s.columns) s.submitted = .ok table ∧
          rows.Perm table.rows := by
  refine ⟨shapesTell_pair, fun h => ?_⟩
  have hguarded : ∀ a ∈ misleading, ∀ s, SubmitsFrom {plainBatch, zeroBatch} s a := by
    simp [misleading, SubmitsFrom]
  obtain ⟨table, htable, hperm⟩ :=
    h _ (Reachable.init.of_guarded (guarded_of_forall hguarded _) rfl)
      [[.bool false, .null, .null], [.bool true, .null, .null]] rfl
  have hrows : table.rows = [[.bool false, .null, .null], [.null, .bool true, .null]] :=
    congrArg Table.rows (Except.ok.inj htable.symm)
  -- only a serial append puts the value of the second batch in the second column
  have hmem : [.null, .bool true, .null] ∈ table.rows := by simp [hrows]
  have hmerged := hperm.mem_iff.mpr hmem
  simp at hmerged

end AppendPool

end RawDuck
