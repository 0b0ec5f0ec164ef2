import RawDuck.IngestFile

/-!
# RawDuck.CountedRun

`raw_ingest_file` with the counter of skipped lines written as the code writes it.

`errors` is a plain number that several consumers add to: each reads it and writes the
sum back in two steps, the first time outside of `schema_lock`.  So a call of the
ingestor is no longer one step of the run but several, and those of other consumers
come in between.

* `StagedTarget` — a target whose ingest is taken apart, with the proof that its parts
  make up the whole;
* `nativeStaged`, `fallbackStaged` — the two kinds of catalogs;
* `CountedRun.step` — the steps of all threads;
* `CountedRun.step_flow` — what a step does.
-/

namespace RawDuck

open Fallible Transition Transition.System

/-! ## the counter is left alone -/

section Native

variable {env : NativeEnv} {parsed : RawParsedPayload} {count : Nat}

/-- The counter of a native ingestor stands at a number. -/
def IngestState.Counted (count : Nat) (s : IngestState) : Prop := s.errors = count

theorem counted_invalidateTableCache :
    Preserves invalidateTableCache (IngestState.Counted count) :=
  .modify fun _ hs => hs

theorem counted_lookupTableCached :
    Preserves lookupTableCached (IngestState.Counted count) := by
  apply Preserves.get_bind
  intro s _
  split
  · exact .bind counted_invalidateTableCache fun _ => .pure _
  · split
    · exact .bind (.modify fun _ hs => hs) fun _ => .pure _
    · exact .pure _

theorem counted_drainIntoTable (pool : Pool) (token : Nat) (table : Table) :
    Preserves (drainIntoTable env pool token table) (IngestState.Counted count) :=
  .bind (.fromExcept _) fun _ => .modify fun _ hs => hs

theorem counted_ensurePool (table : Table) :
    Preserves (ensurePool env table parsed) (IngestState.Counted count) := by
  apply Preserves.get_bind
  intro s hs
  split
  · exact .pure _
  · exact .set hs

theorem counted_appendNative (token : Nat) (table : Table) :
    Preserves (appendNative env token table parsed) (IngestState.Counted count) := by
  have hlayout : Preserves (resolveLayout env token table parsed) (IngestState.Counted count) := by
    refine .bind (.fromExcept _) fun shape => .get_bind fun s hs => ?_
    split
    · exact .pure _
    · exact .bind (.fromExcept _) fun _ => .bind (.set hs) fun _ => .pure _
  have happend : Preserves (do
      let layout ← resolveLayout env token table parsed
      let table ← fromExcept (appendBlocks env.duck env.catalog layout parsed table)
      modify fun s => { s with
        db := { s.db with table := some (token, table) }
        rows := s.rows + parsed.payload.rows.length } : Ingest Unit)
      (IngestState.Counted count) :=
    .bind hlayout fun _ => .bind (.fromExcept _) fun _ => .modify fun _ hs => hs
  unfold appendNative
  split
  · exact .bind (.throw _) fun _ => happend
  · exact happend

theorem counted_submitOrAppend (token : Nat) (table : Table) :
    Preserves (submitOrAppend env token table parsed) (IngestState.Counted count) := by
  refine .bind (counted_ensurePool table) fun _ => .get_bind fun s hs => ?_
  split
  · exact .set hs
  · exact counted_appendNative token table

theorem counted_appendRows :
    Preserves (appendRows env parsed) (IngestState.Counted count) := by
  unfold appendRows
  split
  · exact .pure _
  · refine .bind counted_lookupTableCached fun found => ?_
    split
    · exact .throw _
    · exact counted_submitOrAppend _ _

theorem counted_schemaStep (token : Nat) (table : Table) :
    Preserves (schemaStep env token table parsed) (IngestState.Counted count) := by
  have hdrain : ∀ widens, Preserves (drainForWidening env token table widens)
      (IngestState.Counted count) := by
    intro widens
    refine .get_bind fun s hs => ?_
    split
    · split
      · exact counted_drainIntoTable _ _ _
      · exact .pure _
    · exact .pure _
  have hevolve : Preserves (evolveCurrent env parsed) (IngestState.Counted count) := by
    refine .get_bind fun s hs => ?_
    split
    · exact .throw _
    · exact .bind (.fromExcept _) fun _ => .modify fun _ hs => hs
  refine .bind (hdrain _) fun _ => .bind hevolve fun _ => .bind counted_invalidateTableCache
    fun _ => ?_
  split
  · exact .pure _
  · exact .modify fun _ hs => hs

theorem counted_absorb (token : Nat) (table : Table) (shape : UInt64) :
    Preserves (absorb env token table shape parsed) (IngestState.Counted count) := by
  refine .bind (counted_schemaStep token table) fun _ => .bind counted_lookupTableCached
    fun found => ?_
  split
  · exact .throw _
  · exact .modify fun _ hs => hs

theorem counted_legacyIngestNative (table : Option (Nat × Table)) :
    Preserves (legacyIngestNative env table parsed) (IngestState.Counted count) := by
  have hcreate : Preserves (createTable env parsed) (IngestState.Counted count) :=
    .bind (.fromExcept _) fun _ => .bind (.modify fun _ hs => hs)
      fun _ => counted_invalidateTableCache
  unfold legacyIngestNative
  split
  · exact .throw _
  · split
    · exact .pure _
    · cases table with
      | none => exact .bind hcreate fun _ => counted_appendRows
      | some entry => exact .bind (counted_schemaStep _ _) fun _ => counted_appendRows

/-- `IngestNative` leaves the counter alone. -/
theorem counted_ingestNative :
    Preserves (ingestNative env parsed) (IngestState.Counted count) := by
  refine .bind counted_lookupTableCached fun found => ?_
  split
  · exact counted_legacyIngestNative _
  · split
    · exact counted_legacyIngestNative _
    · refine .bind (.fromExcept _) fun shape => .get_bind fun s _ => ?_
      split
      · exact counted_appendRows
      · exact .bind (counted_absorb _ _ _) fun _ => counted_appendRows

theorem counted_prepareForAppend :
    Preserves (prepareForAppend env parsed) (IngestState.Counted count) := by
  have hrows : Preserves (prepareRows env parsed) (IngestState.Counted count) := by
    unfold prepareRows
    split
    · exact .pure _
    · refine .bind counted_lookupTableCached fun found => ?_
      split
      · exact .throw _
      · exact .bind (counted_ensurePool _) fun _ => .get_bind fun s _ => .pure _
  refine .bind counted_lookupTableCached fun found => ?_
  split
  · exact .pure _
  · split
    · exact .pure _
    · refine .bind (.fromExcept _) fun shape => .get_bind fun s _ => ?_
      split
      · exact hrows
      · exact .bind (counted_absorb _ _ _) fun _ => hrows

theorem counted_submitPreparedBatch (usePool : Bool) :
    Preserves (submitPreparedBatch env parsed usePool) (IngestState.Counted count) := by
  unfold submitPreparedBatch
  split
  · exact .pure _
  · refine .get_bind fun s hs => ?_
    split
    · exact .set hs
    · refine .bind counted_lookupTableCached fun found => ?_
      split
      · exact .throw _
      · exact counted_appendNative _ _

/-- `Finish` leaves the counter alone. -/
theorem counted_finish : Preserves (finish env) (IngestState.Counted count) := by
  refine .get_bind fun s _ => ?_
  split
  · exact .pure _
  · split
    · exact .throw _
    · exact counted_drainIntoTable _ _ _

/-- The plain entry point counts the lines of its batch once. -/
theorem ingestParsed_errors {s t : IngestState} (h : ingestParsed env parsed s = .ok ⟨⟩ t) :
    t.errors = s.errors + parsed.payload.parseErrors := by
  obtain ⟨_, u, hu, hingest⟩ := run_bind_eq_ok.mp h
  cases hu
  exact (counted_ingestNative _ rfl).1 _ _ hingest

end Native

section Fallback

variable {ω : Type} {cat : FallbackCatalog ω} {parsed : RawParsedPayload} {text : Bytes}
variable {count : Nat}

/-- The counter of an ingestor over another catalog stands at a number. -/
def FallbackRun.Counted (count : Nat) (s : FallbackRun ω) : Prop := s.errors = count

/-- `IngestFallback` leaves the counter alone. -/
theorem counted_ingestFallback :
    Preserves (ingestFallback cat parsed text) (FallbackRun.Counted count) := by
  have hconnect : Preserves (ensureFallbackConnection cat) (FallbackRun.Counted count) := by
    refine .get_bind fun u hu => ?_
    split
    · exact .pure _
    · split
      · refine .bind (.set hu) fun _ => ?_
        split
        · exact .pure _
        · exact .throw _
      · exact .set hu
  have hbatch : ∀ widening, Preserves (fallbackBatch cat parsed text widening)
      (FallbackRun.Counted count) :=
    fun widening => .get_bind fun u hu => .bind (.fromExcept _) fun _ => .set hu
  refine .bind hconnect fun _ => .get_bind fun u hu => ?_
  split
  · exact .throw _
  · split
    · exact .pure _
    · refine .tryCatch (hbatch true) fun e => ?_
      split
      · exact hbatch false
      · exact .throw _

end Fallback

/-! ## targets taken apart -/

/-- A target whose ingest is taken apart: the counter, the entry point of consumers,
and what the ingestor does besides counting. -/
structure StagedTarget (σ : Type) extends FileTarget σ where
  errors : σ → Nat
  setErrors : Nat → σ → σ
  /-- Consumers call `IngestParsedConcurrent`. -/
  concurrent : Bool
  /-- It hands the batch on to `IngestParsed`. -/
  handsOn : (seesTable : Bool) → PipelineItem → σ → Bool
  /-- `IngestParsed` behind its count. -/
  plain : PipelineItem → EStateM RawError σ Unit
  /-- `PrepareForAppend`. -/
  prepare : PipelineItem → EStateM RawError σ Bool
  /-- `SubmitPreparedBatch`. -/
  submit : (usePool : Bool) → PipelineItem → EStateM RawError σ Unit
  ingest_eq : ∀ seesTable item s, ingest seesTable item s = (do
    modify fun s => setErrors (errors s + item.parsed.payload.parseErrors) s
    let s ← get
    if !concurrent then plain item
    else if handsOn seesTable item s then do
      modify fun s => setErrors (errors s + item.parsed.payload.parseErrors) s
      plain item
    else do
      let usePool ← prepare item
      submit usePool item : EStateM RawError σ Unit) s
  errors_setErrors : ∀ count s, errors (setErrors count s) = count
  errors_plain : ∀ item count, Preserves (plain item) fun s => errors s = count
  errors_prepare : ∀ item count, Preserves (prepare item) fun s => errors s = count
  errors_submit : ∀ usePool item count, Preserves (submit usePool item) fun s => errors s = count
  errors_finish : ∀ count, Preserves finish fun s => errors s = count

/-- A native catalog. -/
def nativeStaged (env : NativeEnv) (before : Db) (concurrent : Bool) :
    StagedTarget IngestState where
  toFileTarget := nativeTarget env before concurrent
  errors := IngestState.errors
  setErrors count s := { s with errors := count }
  concurrent := concurrent
  handsOn _ item s := s.db.table.isNone || item.parsed.columns.isEmpty
  plain item := ingestNative env item.parsed
  prepare item := prepareForAppend env item.parsed
  submit usePool item := submitPreparedBatch env item.parsed usePool
  ingest_eq seesTable item s := by cases concurrent <;> rfl
  errors_setErrors _ _ := rfl
  errors_plain _ _ := counted_ingestNative
  errors_prepare _ _ := counted_prepareForAppend
  errors_submit usePool _ _ := counted_submitPreparedBatch usePool
  errors_finish _ := counted_finish

/-- Another catalog. -/
def fallbackStaged {ω : Type} (cat : FallbackCatalog ω) (concurrent : Bool) :
    StagedTarget (FallbackRun ω) where
  toFileTarget := fallbackTarget cat concurrent
  errors := FallbackRun.errors
  setErrors count s := { s with errors := count }
  concurrent := concurrent
  handsOn seesTable item _ := !seesTable || item.parsed.columns.isEmpty
  plain item := ingestFallback cat item.parsed (if concurrent then [] else item.payload)
  prepare _ := throw cat.storageError
  submit _ _ := pure ⟨⟩
  ingest_eq seesTable item s := by
    cases concurrent with
    | false => rfl
    | true =>
        rw [fallbackTarget_concurrent]
        cases hplain : !seesTable || item.parsed.columns.isEmpty <;> rfl
  errors_setErrors _ _ := rfl
  errors_plain _ _ := counted_ingestFallback
  errors_prepare _ _ := .throw _
  errors_submit _ _ _ := .pure _
  errors_finish _ := .pure _

/-! ## the run -/

/-- Where a call of the ingestor stands. -/
inductive CallStage where
  /-- At the `errors +=` of `IngestParsedConcurrent`, with the value that was read. -/
  | count (loaded : Option Nat)
  /-- Before `schema_lock`. -/
  | lock
  /-- At the `errors +=` of `IngestParsed`, with the value that was read. -/
  | recount (loaded : Option Nat)
  /-- Behind it. -/
  | plain
  /-- Before `SubmitPreparedBatch`. -/
  | submit (usePool : Bool)

namespace CallStage

/-- `errors` is read. -/
def load (errors : Nat) : CallStage → Option CallStage
  | .count none => some (.count (some errors))
  | .recount none => some (.recount (some errors))
  | _ => none

/-- The value that was read, and the stage behind the `errors +=`. -/
def store : CallStage → Option (Nat × CallStage)
  | .count (some loaded) => some (loaded, .lock)
  | .recount (some loaded) => some (loaded, .plain)
  | _ => none

/-- `IngestParsed` is called with `schema_lock` held. -/
def locked : CallStage → Bool
  | .recount _ | .plain => true
  | .count _ | .lock | .submit _ => false

/-- The lines of the batch have been added. -/
def counted : CallStage → Bool
  | .count _ | .recount _ => false
  | .lock | .plain | .submit _ => true

theorem counted_load {stage stage' : CallStage} {errors : Nat}
    (h : stage.load errors = some stage') :
    stage.counted = false ∧ stage'.counted = false := by
  unfold load at h
  split at h
  · obtain rfl := Option.some.inj h
    exact ⟨rfl, rfl⟩
  · obtain rfl := Option.some.inj h
    exact ⟨rfl, rfl⟩
  · exact nomatch h

theorem counted_store {stage stage' : CallStage} {loaded : Nat}
    (h : stage.store = some (loaded, stage')) : stage.counted = false ∧ stage'.counted = true := by
  unfold store at h
  split at h
  · obtain ⟨-, rfl⟩ := Prod.mk.inj (Option.some.inj h)
    exact ⟨rfl, rfl⟩
  · obtain ⟨-, rfl⟩ := Prod.mk.inj (Option.some.inj h)
    exact ⟨rfl, rfl⟩
  · exact nomatch h

end CallStage

/-- A call of the ingestor by a consumer: the item it ingests, and the one that is
pending behind it, or none if the consumer leaves its loop. -/
structure IngestCall where
  item : PipelineItem
  next : Option PipelineItem
  stage : CallStage

/-- A call that begins. -/
def StagedTarget.call {σ : Type} (target : StagedTarget σ) (item : PipelineItem)
    (next : Option PipelineItem) : IngestCall :=
  { item, next, stage := if target.concurrent then .count none else .recount none }

theorem StagedTarget.counted_call {σ : Type} (target : StagedTarget σ) (item : PipelineItem)
    (next : Option PipelineItem) : (target.call item next).stage.counted = false := by
  rw [StagedTarget.call]
  split <;> rfl

/-- `raw_ingest_file` with the calls of the ingestor that have begun. -/
structure CountedRun (σ : Type) (n : Nat) where
  file : FileRun σ n
  calls : Fin n → Option IngestCall

/-- What happens next. -/
inductive CountedEvent (n : Nat) where
  /-- A step that does not call the ingestor. -/
  | file (event : FileEvent n)
  /-- `Pop` of an item that the pending one is not coalesced with. -/
  | pop (c : Fin n)
  /-- The end of the loop of a consumer with a pending item. -/
  | leave (c : Fin n)
  /-- `errors` is read. -/
  | load (c : Fin n)
  /-- The sum is written. -/
  | store (c : Fin n)
  /-- `schema_lock` is taken. -/
  | lock (c : Fin n) (seesTable : Bool)
  /-- The rest of the call. -/
  | run (c : Fin n)

/-- `coalesce_and_ingest` merges the item into the pending one. -/
def coalesces (cfg : FileConfig) (first item : PipelineItem) : Bool :=
  match hashPayloadShape cfg.duck first.parsed.columns,
      hashPayloadShape cfg.duck item.parsed.columns with
  | .ok pendingShape, .ok itemShape =>
      pendingShape = itemShape &&
        first.parsed.payload.rows.length + item.parsed.payload.rows.length < cfg.poolMinRows
  | _, _ => false

theorem coalesces_of_eq_true {cfg : FileConfig} {first item : PipelineItem}
    (h : coalesces cfg first item = true) : Coalesces cfg first item := by
  rw [coalesces] at h
  split at h
  · next pendingShape itemShape hfirst hitem =>
    simp only [Bool.and_eq_true, decide_eq_true_eq] at h
    rw [Coalesces, hfirst, hitem, h.1]
    exact ⟨rfl, h.2⟩
  · cases h

namespace CountedRun

variable {σ : Type} {n : Nat}

/-- The event would call the ingestor, or is one of a consumer that has called it. -/
def calling (cfg : FileConfig) (s : CountedRun σ n) : FileEvent n → Bool
  | .pop c _ => (s.calls c).isSome ||
      match s.file.pending c, s.file.queue with
      | some first, item :: _ => !coalesces cfg first item
      | _, _ => false
  | .leave c _ => (s.calls c).isSome || (s.file.pending c).isSome
  | _ => false

/-- Nobody holds `schema_lock`. -/
def unlocked (s : CountedRun σ n) : Bool :=
  (List.finRange n).all fun c => (s.calls c).all fun call => !call.stage.locked

/-- A call moves on. -/
def setCall (s : CountedRun σ n) (c : Fin n) (call : Option IngestCall) : CountedRun σ n :=
  { s with calls := Function.update s.calls c call }

/-- The ingestor changes. -/
def setTarget (s : CountedRun σ n) (t : σ) : CountedRun σ n :=
  { s with file := { s.file with target := t } }

/-- A call ends. -/
def ends (s : CountedRun σ n) (c : Fin n) (next : Option PipelineItem) (t : σ) :
    CountedRun σ n :=
  { file := match next with
      | some item => s.file.keepPending c (some item) t
      | none => s.file.consumerLeaves c t
    calls := Function.update s.calls c none }

/-- A call raises. -/
def raises (s : CountedRun σ n) (c : Fin n) (e : RawError) (t : σ) : CountedRun σ n :=
  { file := s.file.consumerFails c e t, calls := Function.update s.calls c none }

/-- A call runs to its end. -/
def finishes (s : CountedRun σ n) (c : Fin n) (next : Option PipelineItem)
    (body : EStateM RawError σ Unit) : CountedRun σ n :=
  match body s.file.target with
  | .ok _ t => s.ends c next t
  | .error e t => s.raises c e t

/-- One event of a call that has not ended. -/
def step (cfg : FileConfig) (target : StagedTarget σ) (s : CountedRun σ n)
    (event : CountedEvent n) : Option (CountedRun σ n) :=
  if s.file.outcome.isSome then none
  else match event with
  | .file event =>
      if s.calling cfg event then none
      else (s.file.step cfg target.toFileTarget event).map fun file => { s with file }
  | .pop c =>
      match s.file.queue, s.file.pending c with
      | item :: rest, some first =>
          if s.file.consuming c && !s.file.aborted && (s.calls c).isNone then
            let s := { s with file := { s.file with queue := rest } }
            match hashPayloadShape cfg.duck first.parsed.columns,
                hashPayloadShape cfg.duck item.parsed.columns with
            | .error e, _ => some (s.raises c e s.file.target)
            | .ok _, .error e => some (s.raises c e s.file.target)
            | .ok _, .ok _ =>
                if coalesces cfg first item then none
                else some (s.setCall c (some (target.call first (some item))))
          else none
      | _, _ => none
  | .leave c =>
      match s.file.pending c with
      | none => none
      | some item =>
          if s.file.consuming c && (s.calls c).isNone &&
              (s.file.aborted || s.file.drained || s.file.deserted) then
            some (s.setCall c (some (target.call item none)))
          else none
  | .load c => do
      let call ← s.calls c
      let stage ← call.stage.load (target.errors s.file.target)
      return s.setCall c (some { call with stage })
  | .store c => do
      let call ← s.calls c
      let (loaded, stage) ← call.stage.store
      let count := loaded + call.item.parsed.payload.parseErrors
      return (s.setTarget (target.setErrors count s.file.target)).setCall c
        (some { call with stage })
  | .lock c seesTable => do
      let call ← s.calls c
      match call.stage with
      | .lock =>
          if !s.unlocked then none
          else if target.handsOn seesTable call.item s.file.target then
            some (s.setCall c (some { call with stage := .recount none }))
          else match target.prepare call.item s.file.target with
            | .ok usePool t =>
                some ((s.setTarget t).setCall c (some { call with stage := .submit usePool }))
            | .error e t => some (s.raises c e t)
      | _ => none
  | .run c => do
      let call ← s.calls c
      match call.stage with
      | .plain => some (s.finishes c call.next (target.plain call.item))
      | .submit usePool =>
          if usePool || s.unlocked then
            some (s.finishes c call.next (target.submit usePool call.item))
          else none
      | _ => none

end CountedRun

/-- `raw_ingest_file` over the batches of a file. -/
def countedFile {σ : Type} (cfg : FileConfig) (target : StagedTarget σ) (n : Nat)
    (batches : List Bytes) (start : σ) : System (CountedRun σ n) (CountedEvent n) where
  init :=
    { file := (ingestFile cfg target.toFileTarget n batches start).init, calls := fun _ => none }
  step := CountedRun.step cfg target

/-! ## one step -/

/-- What one step does: one of the file, or a part of a call of the ingestor, or it
raises. -/
inductive CountedFlow {σ : Type} {n : Nat} (cfg : FileConfig) (target : StagedTarget σ)
    (s : CountedRun σ n) : CountedEvent n → CountedRun σ n → Prop where
  | file {event : FileEvent n} {file : FileRun σ n} (idle : s.calling cfg event = false)
      (step : s.file.step cfg target.toFileTarget event = some file) :
      CountedFlow cfg target s (.file event) { s with file }
  | pop (c : Fin n) {first item : PipelineItem} {rest : List PipelineItem}
      (queue : s.file.queue = item :: rest) (consuming : s.file.consuming c = true)
      (pending : s.file.pending c = some first) (idle : s.calls c = none) :
      CountedFlow cfg target s (.pop c)
        (({ s with file := { s.file with queue := rest } } : CountedRun σ n).setCall c
          (some (target.call first (some item))))
  | leave (c : Fin n) {item : PipelineItem} (consuming : s.file.consuming c = true)
      (pending : s.file.pending c = some item) (idle : s.calls c = none)
      (ended : (s.file.aborted || s.file.drained || s.file.deserted) = true) :
      CountedFlow cfg target s (.leave c) (s.setCall c (some (target.call item none)))
  | load (c : Fin n) {call : IngestCall} {stage : CallStage} (calls : s.calls c = some call)
      (load : call.stage.load (target.errors s.file.target) = some stage) :
      CountedFlow cfg target s (.load c) (s.setCall c (some { call with stage }))
  | store (c : Fin n) {call : IngestCall} {loaded : Nat} {stage : CallStage}
      (calls : s.calls c = some call) (store : call.stage.store = some (loaded, stage)) :
      CountedFlow cfg target s (.store c)
        ((s.setTarget (target.setErrors (loaded + call.item.parsed.payload.parseErrors)
          s.file.target)).setCall c (some { call with stage }))
  | handOn (c : Fin n) {call : IngestCall} {seesTable : Bool} (calls : s.calls c = some call)
      (stage : call.stage = .lock)
      (handsOn : target.handsOn seesTable call.item s.file.target = true) :
      CountedFlow cfg target s (.lock c seesTable)
        (s.setCall c (some { call with stage := .recount none }))
  | prepare (c : Fin n) {call : IngestCall} {seesTable usePool : Bool} {t : σ}
      (calls : s.calls c = some call) (stage : call.stage = .lock)
      (prepared : target.prepare call.item s.file.target = .ok usePool t) :
      CountedFlow cfg target s (.lock c seesTable)
        ((s.setTarget t).setCall c (some { call with stage := .submit usePool }))
  | run (c : Fin n) {call : IngestCall} {t : σ} (calls : s.calls c = some call)
      (counted : call.stage.counted = true)
      (errors_eq : target.errors t = target.errors s.file.target) :
      CountedFlow cfg target s (.run c) (s.ends c call.next t)
  | raises {event : CountedEvent n} {s' : CountedRun σ n} (failed : s'.file.failed = true)
      (outcome : s'.file.outcome = s.file.outcome) : CountedFlow cfg target s event s'

namespace CountedRun

variable {σ : Type} {n : Nat} {cfg : FileConfig} {target : StagedTarget σ}
variable {s s' : CountedRun σ n} {a : CountedEvent n}

/-- A call that has raised has failed. -/
theorem failed_raises (c : Fin n) (e : RawError) (t : σ) : (s.raises c e t).file.failed = true := by
  simp [raises, FileRun.failed, FileRun.consumerFails]

theorem failed_ends (c : Fin n) (next : Option PipelineItem) (t : σ) :
    (s.ends c next t).file.failed = s.file.failed := by
  cases next <;> rfl

/-- A call that runs to its end, with the counter where it was, or raises. -/
theorem finishes_flow {c : Fin n} {call : IngestCall} (hcall : s.calls c = some call)
    (hcounted : call.stage.counted = true) {body : EStateM RawError σ Unit}
    (hkeeps : ∀ count, Preserves body fun t => target.errors t = count) :
    CountedFlow cfg target s (.run c) (s.finishes c call.next body) := by
  rw [finishes]
  split
  · next t hrun => exact .run c hcall hcounted ((hkeeps _ _ rfl).1 _ _ hrun)
  · exact .raises (failed_raises ..) rfl

/-- **What a step does.** -/
theorem step_flow (h : s.step cfg target a = some s') :
    s.file.outcome = none ∧ CountedFlow cfg target s a s' := by
  unfold step at h
  split at h
  · exact nomatch h
  · next hopen =>
    refine ⟨by simpa using hopen, ?_⟩
    cases a with
    | file event =>
        dsimp only at h
        split at h
        · exact nomatch h
        · next hidle =>
          obtain ⟨file, hstep, rfl⟩ := Option.map_eq_some_iff.mp h
          exact .file (by simpa using hidle) hstep
    | pop c =>
        dsimp only at h
        split at h
        · next item rest first hqueue hpending =>
          split at h
          · next hready =>
            simp only [Bool.and_eq_true, Option.isNone_iff_eq_none] at hready
            split at h
            · obtain rfl := Option.some.inj h
              exact .raises (failed_raises ..) rfl
            · obtain rfl := Option.some.inj h
              exact .raises (failed_raises ..) rfl
            · split at h
              · exact nomatch h
              · obtain rfl := Option.some.inj h
                exact .pop c hqueue hready.1.1 hpending hready.2
          · exact nomatch h
        · exact nomatch h
    | leave c =>
        dsimp only at h
        split at h
        · exact nomatch h
        · next item hpending =>
          split at h
          · next hready =>
            simp only [Bool.and_eq_true, Option.isNone_iff_eq_none] at hready
            obtain rfl := Option.some.inj h
            exact .leave c hready.1.1 hpending hready.1.2 hready.2
          · exact nomatch h
    | load c =>
        obtain ⟨call, hcall, h⟩ := Option.bind_eq_some_iff.mp h
        obtain ⟨stage, hstage, h⟩ := Option.bind_eq_some_iff.mp h
        obtain rfl := Option.some.inj h
        exact .load c hcall hstage
    | store c =>
        obtain ⟨call, hcall, h⟩ := Option.bind_eq_some_iff.mp h
        obtain ⟨⟨loaded, stage⟩, hstage, h⟩ := Option.bind_eq_some_iff.mp h
        obtain rfl := Option.some.inj h
        exact .store c hcall hstage
    | lock c seesTable =>
        obtain ⟨call, hcall, h⟩ := Option.bind_eq_some_iff.mp h
        split at h
        · next hstage =>
          split at h
          · exact nomatch h
          · split at h
            · next hhandsOn =>
              obtain rfl := Option.some.inj h
              exact .handOn c hcall hstage hhandsOn
            · split at h
              · next usePool t hprepare =>
                obtain rfl := Option.some.inj h
                exact .prepare c hcall hstage hprepare
              · obtain rfl := Option.some.inj h
                exact .raises (failed_raises ..) rfl
        · exact nomatch h
    | run c =>
        obtain ⟨call, hcall, h⟩ := Option.bind_eq_some_iff.mp h
        split at h
        · next hstage =>
          obtain rfl := Option.some.inj h
          exact finishes_flow hcall (by rw [hstage]; rfl) (target.errors_plain call.item)
        · next usePool hstage =>
          split at h
          · obtain rfl := Option.some.inj h
            exact finishes_flow hcall (by rw [hstage]; rfl) (target.errors_submit usePool call.item)
          · exact nomatch h
        · exact nomatch h

/-- A call that has failed stays so. -/
theorem step_failed (h : s.step cfg target a = some s') (hgood : s'.file.failed = false) :
    s.file.failed = false := by
  cases (step_flow h).2 with
  | file _ hstep => exact FileRun.step_failed hstep hgood
  | pop c | leave c | load c | store c | handOn c | prepare c => exact hgood
  | run c =>
      rw [failed_ends] at hgood
      exact hgood
  | raises hfailed => exact absurd (hfailed.symm.trans hgood) (by simp)

/-- A call that returns has not failed. -/
theorem step_returned (h : s.step cfg target a = some s')
    (hreturned : s'.file.outcome = some (.ok ⟨⟩)) : s'.file.failed = false := by
  obtain ⟨hopen, hflow⟩ := step_flow h
  have hsame : s'.file.outcome ≠ s.file.outcome := by
    rw [hreturned, hopen]
    exact Option.some_ne_none _
  cases hflow with
  | file _ hstep => exact FileRun.step_returned hstep hreturned
  | pop c | leave c | load c | store c | handOn c | prepare c => exact absurd rfl hsame
  | @run c call t =>
      refine absurd ?_ hsame
      cases call.next <;> rfl
  | raises _ houtcome => exact absurd houtcome hsame

end CountedRun

end RawDuck
