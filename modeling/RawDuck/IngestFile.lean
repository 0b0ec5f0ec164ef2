import RawDuck.Fallback
import RawDuck.Transition

/-!
# RawDuck.IngestFile

`raw_ingest_file` from the batches of the file to the committed table: a reader
hands batches over, parsers parse them in any order, consumers coalesce and
ingest them, and what any of them raises is raised in the end.

* `FileTarget` — the ingestor of the consumers and what becomes of its work when
  the statement raises: a native catalog loses it with the transaction, another
  catalog keeps what was committed;
* `FileRun.step` — the steps of all threads;
* `FileRun.step_fileStep` — what a step finds and leaves, `FileRun.step_cases` — what it does
  to the target;
* `FileRun.step_flow` — the steps of a call that does not fail;
* `rawIngestFile_atomic` — a call that raises leaves the target as it was, on
  other catalogs while nothing fails after a commit.
-/

namespace RawDuck

open Fallible Transition Transition.System

/-- `RawIngestPipeline::Item`. -/
structure PipelineItem where
  parsed : RawParsedPayload
  payload : Bytes

/-! ## targets -/

/-- What consumers call, on an ingestor of type `σ`: `ingest` with whether the
calling transaction sees the target table, and `finish`. -/
structure FileTarget (σ : Type) where
  ingest : (seesTable : Bool) → PipelineItem → EStateM RawError σ Unit
  finish : EStateM RawError σ Unit
  /-- What is left when the statement raises. -/
  raised : σ → σ

/-- `IngestParsedConcurrent` on a native catalog, for the table one step; the counter
of errors is written in steps of their own in `CountedRun`. -/
def ingestParsedConcurrent (env : NativeEnv) (parsed : RawParsedPayload) : Ingest Unit := do
  modify fun s => { s with errors := s.errors + parsed.payload.parseErrors }
  let s ← get
  if s.db.table.isNone || parsed.columns.isEmpty then ingestParsed env parsed
  else do
    let usePool ← prepareForAppend env parsed
    submitPreparedBatch env parsed usePool

/-- A native catalog: everything runs in the calling transaction, which DuckDB
rolls back when the statement raises. -/
def nativeTarget (env : NativeEnv) (before : Db) (concurrent : Bool) : FileTarget IngestState where
  ingest _ item :=
    if concurrent then ingestParsedConcurrent env item.parsed else ingestParsed env item.parsed
  finish := finish env
  raised s := { s with db := before.rollback s.db }

/-- Another catalog: the batches are transactions of their own.  Concurrent
consumers pass no text, and look the table up as a native one. -/
def fallbackTarget {ω : Type} (cat : FallbackCatalog ω) (concurrent : Bool) :
    FileTarget (FallbackRun ω) where
  ingest seesTable item :=
    if concurrent then do
      modify fun s => { s with errors := s.errors + item.parsed.payload.parseErrors }
      if !seesTable || item.parsed.columns.isEmpty then ingestFallbackParsed cat item.parsed []
      else throw cat.storageError
    else ingestFallbackParsed cat item.parsed item.payload
  finish := pure ⟨⟩
  raised s := s

/-! ## the run -/

/-- What a call of `raw_ingest_file` runs under. -/
structure FileConfig where
  duck : Duck
  options : RawParseOptions
  poolMinRows : Nat

/-- `raw_ingest_file` with `n` consumers: the reader's batches still to come, the
queues, what parsers and consumers have in hand, `pipeline.error`,
`consumer_error` and the ingestor. -/
structure FileRun (σ : Type) (n : Nat) where
  reading : Bool
  unread : List Bytes
  rawQueue : List Bytes
  parsing : List Bytes
  queue : List PipelineItem
  pending : Fin n → Option PipelineItem
  consuming : Fin n → Bool
  error : Option RawError
  consumerError : Option RawError
  aborted : Bool
  finished : Bool
  target : σ
  outcome : Option (Except RawError Unit)

/-- What happens next. -/
inductive FileEvent (n : Nat) where
  /-- `PushRaw` of the next batch. -/
  | emit
  | readerDone
  /-- Reading the file raises. -/
  | readerFails (error : RawError)
  /-- `PopRaw`. -/
  | popRaw
  /-- `Process` and `Push`, or `ParserDone` with an error, of a parser's batch. -/
  | parse (i : Nat)
  /-- `Pop` of an item, and `coalesce_and_ingest`. -/
  | pop (c : Fin n) (seesTable : Bool)
  /-- The end of the loop of a consumer, with its pending item. -/
  | leave (c : Fin n) (seesTable : Bool)
  | finish
  /-- `join_all`, and the return or the error of the call. -/
  | join

variable {σ : Type} {n : Nat} (cfg : FileConfig) (target : FileTarget σ)

/-- `coalesce_and_ingest`: the item that is pending afterwards. -/
def coalesceAndIngest (seesTable : Bool) (pending : Option PipelineItem) (item : PipelineItem) :
    EStateM RawError σ (Option PipelineItem) :=
  match pending with
  | none => return some item
  | some first => do
      let pendingShape ← fromExcept (hashPayloadShape cfg.duck first.parsed.columns)
      let itemShape ← fromExcept (hashPayloadShape cfg.duck item.parsed.columns)
      if pendingShape = itemShape ∧
          first.parsed.payload.rows.length + item.parsed.payload.rows.length < cfg.poolMinRows then
        return some { first with parsed := mergeParsedPayloads first.parsed item.parsed }
      else do
        target.ingest seesTable first
        return some item

namespace FileRun

/-- Something was raised that the call will raise. -/
def failed (s : FileRun σ n) : Bool := s.error.isSome || s.consumerError.isSome

/-- No batch is on its way to the consumers. -/
def drained (s : FileRun σ n) : Bool :=
  !s.reading && s.rawQueue.isEmpty && s.parsing.isEmpty && s.queue.isEmpty

/-- The reader failed, and then the parsers one after the other: what is left in the
raw queue stays there. -/
def deserted (s : FileRun σ n) : Bool :=
  !s.reading && s.parsing.isEmpty && s.queue.isEmpty && s.error.isSome

/-- Every consumer has left its loop. -/
def consumersLeft (s : FileRun σ n) : Bool := (List.finRange n).all fun c => !s.consuming c

/-- A consumer that raises: `consumer_error` and `Abort`. -/
def consumerFails (s : FileRun σ n) (c : Fin n) (e : RawError) (t : σ) : FileRun σ n :=
  { s with
    consuming := Function.update s.consuming c false
    consumerError := s.consumerError.or (some e)
    aborted := true
    target := t }

/-- A consumer with a pending item. -/
def keepPending (s : FileRun σ n) (c : Fin n) (pending : Option PipelineItem) (t : σ) :
    FileRun σ n :=
  { s with pending := Function.update s.pending c pending, target := t }

/-- A consumer that leaves its loop. -/
def consumerLeaves (s : FileRun σ n) (c : Fin n) (t : σ) : FileRun σ n :=
  { s with consuming := Function.update s.consuming c false, target := t }

/-- The end of the call, with all threads joined. -/
def joined (s : FileRun σ n) : Option (FileRun σ n) :=
  match s.consumerError, s.error with
  | some e, _ =>
      if s.consumersLeft then
        some { s with target := target.raised s.target, outcome := some (.error e) }
      else none
  | none, some e =>
      if s.finished then
        some { s with target := target.raised s.target, outcome := some (.error e) }
      else none
  | none, none => if s.finished then some { s with outcome := some (.ok ⟨⟩) } else none

/-- One event of a call that has not ended. -/
def step (s : FileRun σ n) (event : FileEvent n) : Option (FileRun σ n) :=
  if s.outcome.isSome then none
  else match event with
  | .emit =>
      match s.unread with
      | [] => none
      | batch :: rest =>
          some { s with unread := rest
                        rawQueue := if s.aborted then s.rawQueue else s.rawQueue ++ [batch] }
  | .readerDone => if s.reading && s.unread.isEmpty then some { s with reading := false } else none
  | .readerFails e =>
      if s.reading then
        some { s with reading := false, unread := [], error := s.error.or (some e) }
      else none
  | .popRaw =>
      match s.rawQueue with
      | [] => none
      | batch :: rest =>
          if s.aborted then none
          else some { s with rawQueue := rest, parsing := s.parsing ++ [batch] }
  | .parse i =>
      match s.parsing[i]? with
      | none => none
      | some batch =>
          match process cfg.duck cfg.options batch with
          | .ok parsed =>
              some { s with
                parsing := s.parsing.eraseIdx i
                queue := if s.aborted then s.queue else s.queue ++ [⟨parsed, batch⟩] }
          | .error e =>
              some { s with
                parsing := s.parsing.eraseIdx i
                error := s.error.or (some e)
                -- `ParserDone` aborts with the first error only
                aborted := s.aborted || s.error.isNone }
  | .pop c seesTable =>
      match s.queue with
      | [] => none
      | item :: rest =>
          if s.consuming c && !s.aborted then
            match coalesceAndIngest cfg target seesTable (s.pending c) item s.target with
            | .ok pending t => some ({ s with queue := rest }.keepPending c pending t)
            | .error e t => some ({ s with queue := rest }.consumerFails c e t)
          else none
  | .leave c seesTable =>
      if s.consuming c && (s.aborted || s.drained || s.deserted) then
        match s.pending c with
        | none => some (s.consumerLeaves c s.target)
        | some item =>
            match target.ingest seesTable item s.target with
            | .ok _ t => some (s.consumerLeaves c t)
            | .error e t => some (s.consumerFails c e t)
      else none
  | .finish =>
      if s.consumersLeft && s.consumerError.isNone && !s.finished then
        match target.finish s.target with
        | .ok _ t => some { s with finished := true, target := t }
        | .error e t => some { s with consumerError := some e, aborted := true, target := t }
      else none
  | .join => if !s.reading && s.parsing.isEmpty then s.joined target else none

/-- The call raised. -/
def Raised (s : FileRun σ n) : Prop := ∃ e, s.outcome = some (.error e)

end FileRun

/-- `raw_ingest_file` over the batches of a file. -/
def ingestFile (n : Nat) (batches : List Bytes) (start : σ) :
    System (FileRun σ n) (FileEvent n) where
  init :=
    { reading := true, unread := batches, rawQueue := [], parsing := [], queue := []
      pending := fun _ => none, consuming := fun _ => true, error := none, consumerError := none
      aborted := false, finished := false, target := start, outcome := none }
  step := FileRun.step cfg target

/-! ## what a step does to the target -/

/-- What consumers run on the target. -/
def FileTarget.Calls (target : FileTarget σ) (x : EStateM RawError σ Unit) : Prop :=
  x = target.finish ∨ ∃ seesTable item, x = target.ingest seesTable item

/-- What one step does to the target. -/
inductive TargetEffect (target : FileTarget σ) (s s' : FileRun σ n) : Prop where
  | kept (target_eq : s'.target = s.target) (failed : s.failed = true → s'.failed = true)
      (outcome : ¬ s'.Raised)
  | ran {x : EStateM RawError σ Unit} (calls : target.Calls x)
      (run : x s.target = .ok ⟨⟩ s'.target) (failed : s'.failed = s.failed) (outcome : ¬ s'.Raised)
  | refused {x : EStateM RawError σ Unit} {e : RawError} (calls : target.Calls x)
      (run : x s.target = .error e s'.target) (failed : s'.failed = true) (outcome : ¬ s'.Raised)
  | raised (target_eq : s'.target = target.raised s.target) (failed : s.failed = true)
      (failed' : s'.failed = true)

variable {cfg} {target} {s s' : FileRun σ n}

/-- `coalesce_and_ingest` merges the item into the pending one. -/
def Coalesces (cfg : FileConfig) (first item : PipelineItem) : Prop :=
  hashPayloadShape cfg.duck first.parsed.columns = hashPayloadShape cfg.duck item.parsed.columns ∧
    first.parsed.payload.rows.length + item.parsed.payload.rows.length < cfg.poolMinRows

/-- Both items have a signature. -/
def Signed (cfg : FileConfig) (first item : PipelineItem) : Prop :=
  (∃ shape, hashPayloadShape cfg.duck first.parsed.columns = .ok shape) ∧
    ∃ shape, hashPayloadShape cfg.duck item.parsed.columns = .ok shape

/-- **Coalescing** with a pending item raises without signatures, merges the two, or
ingests the pending one. -/
theorem coalesceAndIngest_some (seesTable : Bool) (first item : PipelineItem) (u : σ) :
    (¬ Signed cfg first item ∧
      ∃ e, coalesceAndIngest cfg target seesTable (some first) item u = .error e u) ∨
    (Signed cfg first item ∧ Coalesces cfg first item ∧
      coalesceAndIngest cfg target seesTable (some first) item u =
        .ok (some { first with parsed := mergeParsedPayloads first.parsed item.parsed }) u) ∨
    (Signed cfg first item ∧ ¬ Coalesces cfg first item ∧
      coalesceAndIngest cfg target seesTable (some first) item u =
        (target.ingest seesTable first >>= fun _ => pure (some item)) u) := by
  rw [coalesceAndIngest, Signed, Coalesces]
  cases hfirst : hashPayloadShape cfg.duck first.parsed.columns with
  | error e =>
      refine .inl ⟨?_, e, run_bind_of_error (run_fromExcept_of_error rfl)⟩
      rintro ⟨⟨shape, hshape⟩, -⟩
      exact nomatch hshape
  | ok pendingShape =>
      rw [run_bind_of_ok (run_fromExcept_of_ok rfl)]
      cases hitem : hashPayloadShape cfg.duck item.parsed.columns with
      | error e =>
          refine .inl ⟨?_, e, run_bind_of_error (run_fromExcept_of_error rfl)⟩
          rintro ⟨-, shape, hshape⟩
          exact nomatch hshape
      | ok itemShape =>
          rw [run_bind_of_ok (run_fromExcept_of_ok rfl), Except.ok.injEq]
          split
          · next hcoalesces => exact .inr (.inl ⟨⟨⟨_, rfl⟩, _, rfl⟩, hcoalesces, rfl⟩)
          · next hcoalesces => exact .inr (.inr ⟨⟨⟨_, rfl⟩, _, rfl⟩, hcoalesces, rfl⟩)

/-- The steps by what they find and leave. -/
inductive FileStep (cfg : FileConfig) (target : FileTarget σ) (s : FileRun σ n) :
    FileEvent n → FileRun σ n → Prop where
  | emit {batch : Bytes} {rest : List Bytes} (unread : s.unread = batch :: rest) :
      FileStep cfg target s .emit
        { s with unread := rest
                 rawQueue := if s.aborted then s.rawQueue else s.rawQueue ++ [batch] }
  | readerDone (unread : s.unread = []) :
      FileStep cfg target s .readerDone { s with reading := false }
  | readerFails {e : RawError} :
      FileStep cfg target s (.readerFails e)
        { s with reading := false, unread := [], error := s.error.or (some e) }
  | popRaw {batch : Bytes} {rest : List Bytes} (rawQueue : s.rawQueue = batch :: rest) :
      FileStep cfg target s .popRaw { s with rawQueue := rest, parsing := s.parsing ++ [batch] }
  | parse {i : Nat} {batch : Bytes} {parsed : RawParsedPayload}
      (parsing : s.parsing[i]? = some batch)
      (process_eq : process cfg.duck cfg.options batch = .ok parsed) :
      FileStep cfg target s (.parse i)
        { s with
          parsing := s.parsing.eraseIdx i
          queue := if s.aborted then s.queue else s.queue ++ [⟨parsed, batch⟩] }
  | parseFails {i : Nat} {batch : Bytes} {e : RawError} (parsing : s.parsing[i]? = some batch)
      (process_eq : process cfg.duck cfg.options batch = .error e) :
      FileStep cfg target s (.parse i)
        { s with
          parsing := s.parsing.eraseIdx i
          error := s.error.or (some e)
          aborted := s.aborted || s.error.isNone }
  | hold (c : Fin n) {seesTable : Bool} {item : PipelineItem} {rest : List PipelineItem}
      (queue : s.queue = item :: rest) (consuming : s.consuming c = true)
      (pending : s.pending c = none) :
      FileStep cfg target s (.pop c seesTable)
        (({ s with queue := rest } : FileRun σ n).keepPending c (some item) s.target)
  | unsigned (c : Fin n) {seesTable : Bool} {first item : PipelineItem}
      {rest : List PipelineItem} {e : RawError} (queue : s.queue = item :: rest)
      (pending : s.pending c = some first) (unsigned : ¬ Signed cfg first item) :
      FileStep cfg target s (.pop c seesTable)
        (({ s with queue := rest } : FileRun σ n).consumerFails c e s.target)
  | coalesce (c : Fin n) {seesTable : Bool} {first item : PipelineItem} {rest : List PipelineItem}
      (queue : s.queue = item :: rest) (consuming : s.consuming c = true)
      (pending : s.pending c = some first) (coalesces : Coalesces cfg first item) :
      FileStep cfg target s (.pop c seesTable)
        (({ s with queue := rest } : FileRun σ n).keepPending c
          (some { first with parsed := mergeParsedPayloads first.parsed item.parsed }) s.target)
  | ingest (c : Fin n) {seesTable : Bool} {first item : PipelineItem} {rest : List PipelineItem}
      {t : σ} (queue : s.queue = item :: rest) (consuming : s.consuming c = true)
      (pending : s.pending c = some first) (signed : Signed cfg first item)
      (coalesces : ¬ Coalesces cfg first item)
      (ingested : target.ingest seesTable first s.target = .ok ⟨⟩ t) :
      FileStep cfg target s (.pop c seesTable)
        (({ s with queue := rest } : FileRun σ n).keepPending c (some item) t)
  | ingestFails (c : Fin n) {seesTable : Bool} {first item : PipelineItem}
      {rest : List PipelineItem} {e : RawError} {t : σ} (queue : s.queue = item :: rest)
      (pending : s.pending c = some first) (signed : Signed cfg first item)
      (coalesces : ¬ Coalesces cfg first item)
      (ingested : target.ingest seesTable first s.target = .error e t) :
      FileStep cfg target s (.pop c seesTable)
        (({ s with queue := rest } : FileRun σ n).consumerFails c e t)
  | leave (c : Fin n) {seesTable : Bool} (consuming : s.consuming c = true)
      (gone : (s.aborted || s.drained || s.deserted) = true) (pending : s.pending c = none) :
      FileStep cfg target s (.leave c seesTable) (s.consumerLeaves c s.target)
  | ingestLast (c : Fin n) {seesTable : Bool} {item : PipelineItem} {t : σ}
      (consuming : s.consuming c = true) (gone : (s.aborted || s.drained || s.deserted) = true)
      (pending : s.pending c = some item)
      (ingested : target.ingest seesTable item s.target = .ok ⟨⟩ t) :
      FileStep cfg target s (.leave c seesTable) (s.consumerLeaves c t)
  | ingestLastFails (c : Fin n) {seesTable : Bool} {item : PipelineItem} {e : RawError} {t : σ}
      (pending : s.pending c = some item)
      (ingested : target.ingest seesTable item s.target = .error e t) :
      FileStep cfg target s (.leave c seesTable) (s.consumerFails c e t)
  | finish {t : σ} (left : s.consumersLeft = true)
      (finished : target.finish s.target = .ok ⟨⟩ t) :
      FileStep cfg target s .finish { s with finished := true, target := t }
  | finishFails {e : RawError} {t : σ} (finished : target.finish s.target = .error e t) :
      FileStep cfg target s .finish
        { s with consumerError := some e, aborted := true, target := t }
  | raises {e : RawError} (failed : s.failed = true) :
      FileStep cfg target s .join
        { s with target := target.raised s.target, outcome := some (.error e) }
  | join (finished : s.finished = true) (failed : s.failed = false) :
      FileStep cfg target s .join { s with outcome := some (.ok ⟨⟩) }

/-- A consumer that pops an item. -/
theorem FileStep.pop {c : Fin n} {seesTable : Bool} {item : PipelineItem}
    {rest : List PipelineItem} (hqueue : s.queue = item :: rest) (hconsuming : s.consuming c = true)
    (h : (match coalesceAndIngest cfg target seesTable (s.pending c) item s.target with
      | .ok pending t => some (({ s with queue := rest } : FileRun σ n).keepPending c pending t)
      | .error e t => some (({ s with queue := rest } : FileRun σ n).consumerFails c e t)) =
        some s') : FileStep cfg target s (.pop c seesTable) s' := by
  cases hpending : s.pending c with
  | none =>
      rw [hpending, coalesceAndIngest] at h
      obtain rfl := Option.some.inj h
      exact .hold c hqueue hconsuming hpending
  | some first =>
      rw [hpending] at h
      rcases @coalesceAndIngest_some _ cfg target seesTable first item s.target with
        ⟨hunsigned, e, hrun⟩ | ⟨-, hcoalesces, hrun⟩ | ⟨hsigned, hapart, hrun⟩
      · rw [hrun] at h
        obtain rfl := Option.some.inj h
        exact .unsigned c hqueue hpending hunsigned
      · rw [hrun] at h
        obtain rfl := Option.some.inj h
        exact .coalesce c hqueue hconsuming hpending hcoalesces
      · cases hingest : target.ingest seesTable first s.target with
        | ok u t =>
            rw [hrun, run_bind_of_ok hingest] at h
            obtain rfl := Option.some.inj h
            exact .ingest c hqueue hconsuming hpending hsigned hapart hingest
        | error e t =>
            rw [hrun, run_bind_of_error hingest] at h
            obtain rfl := Option.some.inj h
            exact .ingestFails c hqueue hpending hsigned hapart hingest

/-- **What a step does.** -/
theorem FileRun.step_fileStep {a : FileEvent n} (h : s.step cfg target a = some s') :
    s.outcome = none ∧ FileStep cfg target s a s' := by
  unfold FileRun.step at h
  split at h
  · exact nomatch h
  · next hopen =>
    refine ⟨by simpa using hopen, ?_⟩
    cases a with
    | emit =>
        dsimp only at h
        split at h
        · exact nomatch h
        · next batch rest hunread =>
          obtain rfl := Option.some.inj h
          exact .emit hunread
    | readerDone =>
        dsimp only at h
        split at h
        · next hready =>
          obtain rfl := Option.some.inj h
          rw [Bool.and_eq_true, List.isEmpty_iff] at hready
          exact .readerDone hready.2
        · exact nomatch h
    | readerFails e =>
        dsimp only at h
        split at h
        · obtain rfl := Option.some.inj h
          exact .readerFails
        · exact nomatch h
    | popRaw =>
        dsimp only at h
        split at h
        · exact nomatch h
        · next batch rest hrawQueue =>
          split at h
          · exact nomatch h
          · obtain rfl := Option.some.inj h
            exact .popRaw hrawQueue
    | parse i =>
        dsimp only at h
        split at h
        · exact nomatch h
        · next batch hparsing =>
          split at h
          · next parsed hprocess =>
            obtain rfl := Option.some.inj h
            exact .parse hparsing hprocess
          · next e hprocess =>
            obtain rfl := Option.some.inj h
            exact .parseFails hparsing hprocess
    | pop c seesTable =>
        dsimp only at h
        split at h
        · exact nomatch h
        · next item rest hqueue =>
          split at h
          · next hready =>
            rw [Bool.and_eq_true] at hready
            exact .pop hqueue hready.1 h
          · exact nomatch h
    | leave c seesTable =>
        dsimp only at h
        split at h
        · next hready =>
          rw [Bool.and_eq_true] at hready
          split at h
          · next hpending =>
            obtain rfl := Option.some.inj h
            exact .leave c hready.1 hready.2 hpending
          · next item hpending =>
            split at h
            · next u t hrun =>
              obtain rfl := Option.some.inj h
              exact .ingestLast c hready.1 hready.2 hpending hrun
            · next e t hrun =>
              obtain rfl := Option.some.inj h
              exact .ingestLastFails c hpending hrun
        · exact nomatch h
    | finish =>
        dsimp only at h
        split at h
        · next hready =>
          rw [Bool.and_eq_true, Bool.and_eq_true] at hready
          split at h
          · next u t hrun =>
            obtain rfl := Option.some.inj h
            exact .finish hready.1.1 hrun
          · next e t hrun =>
            obtain rfl := Option.some.inj h
            exact .finishFails hrun
        · exact nomatch h
    | join =>
        dsimp only at h
        split at h
        · unfold FileRun.joined at h
          split at h
          · next e herror =>
            split at h
            · obtain rfl := Option.some.inj h
              exact .raises (by simp [FileRun.failed, herror])
            · exact nomatch h
          · next e hconsumer herror =>
            split at h
            · obtain rfl := Option.some.inj h
              exact .raises (by simp [FileRun.failed, herror])
            · exact nomatch h
          · next hconsumer herror =>
            split at h
            · next hfinished =>
              obtain rfl := Option.some.inj h
              exact .join hfinished (by simp [FileRun.failed, hconsumer, herror])
            · exact nomatch h
        · exact nomatch h

theorem FileRun.failed_consumerFails (c : Fin n) (e : RawError) (t : σ) :
    (s.consumerFails c e t).failed = true := by
  simp [FileRun.failed, FileRun.consumerFails]

/-- **What a step does to the target**: it keeps the target, runs one ingest or `Finish` on it
to its end, or until that raises, or ends the call with an error. -/
theorem FileRun.step_cases {a : FileEvent n} (h : s.step cfg target a = some s') :
    ¬ s.Raised ∧ TargetEffect target s s' := by
  obtain ⟨hopen, hstep⟩ := FileRun.step_fileStep h
  have hraised : ∀ t : FileRun σ n, t.outcome = s.outcome → ¬ t.Raised := by
    rintro t ht ⟨e, he⟩
    simp [← ht, he] at hopen
  refine ⟨hraised s rfl, ?_⟩
  cases hstep with
  | readerFails => exact .kept rfl (fun _ => by simp [FileRun.failed]) (hraised _ rfl)
  | parseFails => exact .kept rfl (fun _ => by simp [FileRun.failed]) (hraised _ rfl)
  | unsigned c => exact .kept rfl (fun _ => FileRun.failed_consumerFails ..) (hraised _ rfl)
  | ingest c _ _ _ _ _ hingest => exact .ran (.inr ⟨_, _, rfl⟩) hingest rfl (hraised _ rfl)
  | ingestFails c _ _ _ _ hingest =>
      exact .refused (.inr ⟨_, _, rfl⟩) hingest (FileRun.failed_consumerFails ..) (hraised _ rfl)
  | ingestLast c _ _ _ hingest => exact .ran (.inr ⟨_, _, rfl⟩) hingest rfl (hraised _ rfl)
  | ingestLastFails c _ hingest =>
      exact .refused (.inr ⟨_, _, rfl⟩) hingest (FileRun.failed_consumerFails ..) (hraised _ rfl)
  | finish _ hfinish => exact .ran (.inl rfl) hfinish rfl (hraised _ rfl)
  | finishFails hfinish =>
      exact .refused (.inl rfl) hfinish (by simp [FileRun.failed]) (hraised _ rfl)
  | raises hfailed => exact .raised rfl hfailed hfailed
  | join =>
      refine .kept rfl id ?_
      rintro ⟨e, he⟩
      simp at he
  | _ => exact .kept rfl id (hraised _ rfl)

/-! ## calls that do not fail -/

/-- What one step of a call that does not fail does. -/
inductive FileFlow (cfg : FileConfig) (target : FileTarget σ) (s : FileRun σ n) :
    FileEvent n → FileRun σ n → Prop where
  | emit {batch : Bytes} {rest : List Bytes} (unread : s.unread = batch :: rest) :
      FileFlow cfg target s .emit { s with unread := rest, rawQueue := s.rawQueue ++ [batch] }
  | readerDone (unread : s.unread = []) :
      FileFlow cfg target s .readerDone { s with reading := false }
  | popRaw {batch : Bytes} {rest : List Bytes} (rawQueue : s.rawQueue = batch :: rest) :
      FileFlow cfg target s .popRaw { s with rawQueue := rest, parsing := s.parsing ++ [batch] }
  | parse {i : Nat} {batch : Bytes} {parsed : RawParsedPayload}
      (parsing : s.parsing[i]? = some batch)
      (process_eq : process cfg.duck cfg.options batch = .ok parsed) :
      FileFlow cfg target s (.parse i)
        { s with parsing := s.parsing.eraseIdx i, queue := s.queue ++ [⟨parsed, batch⟩] }
  | hold (c : Fin n) {seesTable : Bool} {item : PipelineItem} {rest : List PipelineItem}
      (queue : s.queue = item :: rest) (consuming : s.consuming c = true)
      (pending : s.pending c = none) :
      FileFlow cfg target s (.pop c seesTable)
        (({ s with queue := rest } : FileRun σ n).keepPending c (some item) s.target)
  | coalesce (c : Fin n) {seesTable : Bool} {first item : PipelineItem} {rest : List PipelineItem}
      (queue : s.queue = item :: rest) (consuming : s.consuming c = true)
      (pending : s.pending c = some first) (coalesces : Coalesces cfg first item) :
      FileFlow cfg target s (.pop c seesTable)
        (({ s with queue := rest } : FileRun σ n).keepPending c
          (some { first with parsed := mergeParsedPayloads first.parsed item.parsed }) s.target)
  | ingest (c : Fin n) {seesTable : Bool} {first item : PipelineItem} {rest : List PipelineItem}
      {t : σ} (queue : s.queue = item :: rest) (consuming : s.consuming c = true)
      (pending : s.pending c = some first) (coalesces : ¬ Coalesces cfg first item)
      (ingested : target.ingest seesTable first s.target = .ok ⟨⟩ t) :
      FileFlow cfg target s (.pop c seesTable)
        (({ s with queue := rest } : FileRun σ n).keepPending c (some item) t)
  | leave (c : Fin n) {seesTable : Bool} (consuming : s.consuming c = true)
      (drained : s.drained = true) (pending : s.pending c = none) :
      FileFlow cfg target s (.leave c seesTable) (s.consumerLeaves c s.target)
  | ingestLast (c : Fin n) {seesTable : Bool} {item : PipelineItem} {t : σ}
      (consuming : s.consuming c = true) (drained : s.drained = true)
      (pending : s.pending c = some item)
      (ingested : target.ingest seesTable item s.target = .ok ⟨⟩ t) :
      FileFlow cfg target s (.leave c seesTable) (s.consumerLeaves c t)
  | finish {t : σ} (left : ∀ c, s.consuming c = false)
      (finished : target.finish s.target = .ok ⟨⟩ t) :
      FileFlow cfg target s .finish { s with finished := true, target := t }
  | join (finished : s.finished = true) :
      FileFlow cfg target s .join { s with outcome := some (.ok ⟨⟩) }

/-- A step after which the call has not failed is one of these. -/
theorem FileRun.step_flow {s s' : FileRun σ n} {a : FileEvent n} (hflowing : s.aborted = false)
    (h : s.step cfg target a = some s') (hgood : s'.failed = false) :
    FileFlow cfg target s a s' := by
  have hqueued : ∀ {β : Type} (queue queue' : List β),
      (if s.aborted then queue else queue') = queue' :=
    fun _ _ => if_neg (by simp [hflowing])
  have hdrained : s.failed = false → (s.aborted || s.drained || s.deserted) = true →
      s.drained = true := by
    intro hs hgone
    rw [hflowing, Bool.false_or, Bool.or_eq_true] at hgone
    refine hgone.resolve_right fun hdeserted => ?_
    simp only [FileRun.deserted, Bool.and_eq_true] at hdeserted
    simp [FileRun.failed, hdeserted.2] at hs
  cases (FileRun.step_fileStep h).2 with
  | emit hunread =>
      rw [hqueued]
      exact .emit hunread
  | readerDone hunread => exact .readerDone hunread
  | readerFails => simp [FileRun.failed] at hgood
  | popRaw hrawQueue => exact .popRaw hrawQueue
  | parse hparsing hprocess =>
      rw [hqueued]
      exact .parse hparsing hprocess
  | parseFails => simp [FileRun.failed] at hgood
  | hold c hqueue hconsuming hpending => exact .hold c hqueue hconsuming hpending
  | unsigned c => simp [FileRun.failed_consumerFails] at hgood
  | coalesce c hqueue hconsuming hpending hcoalesces =>
      exact .coalesce c hqueue hconsuming hpending hcoalesces
  | ingest c hqueue hconsuming hpending _ hcoalesces hingest =>
      exact .ingest c hqueue hconsuming hpending hcoalesces hingest
  | ingestFails c => simp [FileRun.failed_consumerFails] at hgood
  | leave c hconsuming hgone hpending => exact .leave c hconsuming (hdrained hgood hgone) hpending
  | ingestLast c hconsuming hgone hpending hingest =>
      exact .ingestLast c hconsuming (hdrained hgood hgone) hpending hingest
  | ingestLastFails c => simp [FileRun.failed_consumerFails] at hgood
  | finish hleft hfinish =>
      refine .finish (fun c => ?_) hfinish
      simpa using List.all_eq_true.mp hleft c (List.mem_finRange c)
  | finishFails => simp [FileRun.failed] at hgood
  | raises hfailed => exact absurd (hfailed.symm.trans hgood) (by simp)
  | join hfinished => exact .join hfinished

/-- A call that has failed stays so. -/
theorem FileRun.step_failed {s s' : FileRun σ n} {a : FileEvent n}
    (h : s.step cfg target a = some s') (hgood : s'.failed = false) : s.failed = false := by
  have hback : s.failed = true → s'.failed = true := by
    cases (FileRun.step_cases h).2 with
    | kept _ hfailed _ => exact hfailed
    | ran _ _ hfailed _ => exact fun hs => hfailed.trans hs
    | refused _ _ hfailed _ => exact fun _ => hfailed
    | raised _ _ hfailed => exact fun _ => hfailed
  cases hs : s.failed with
  | false => rfl
  | true => exact absurd (hgood.symm.trans (hback hs)) (by simp)

/-- A call that returns has not failed. -/
theorem FileRun.step_returned {s s' : FileRun σ n} {a : FileEvent n}
    (h : s.step cfg target a = some s') (hreturned : s'.outcome = some (.ok ⟨⟩)) :
    s'.failed = false := by
  obtain ⟨hopen, hstep⟩ := FileRun.step_fileStep h
  cases hstep with
  | join _ hfailed => exact hfailed
  | raises => cases hreturned
  | _ => exact absurd (hopen.symm.trans hreturned) (by simp)

/-! ## native catalogs -/

/-- A native call that raised has rolled the table back. -/
theorem raised_native {env : NativeEnv} {before : Db} {concurrent : Bool} {batches : List Bytes}
    {s : FileRun IngestState n}
    (h : Reachable (ingestFile cfg (nativeTarget env before concurrent) n batches (.start before))
      anyStep s) (hraised : s.Raised) : s.target.db.table = before.table := by
  refine h.invariant (fun s => s.Raised → s.target.db.table = before.table) ?_ ?_ hraised
  · rintro ⟨e, he⟩
    exact nomatch he
  · intro s a s' _ _ hstep hraised
    cases (FileRun.step_cases hstep).2 with
    | kept _ _ houtcome => exact absurd hraised houtcome
    | ran _ _ _ houtcome => exact absurd hraised houtcome
    | refused _ _ _ houtcome => exact absurd hraised houtcome
    | raised htarget _ _ => rw [htarget]; rfl

/-! ## other catalogs -/

section

variable {ω : Type} {cat : FallbackCatalog ω} {concurrent : Bool} {world : ω}

/-- What consumers run on another catalog commits at most one transaction, and
none when it raises. -/
theorem fallbackTarget_leaves {x : EStateM RawError (FallbackRun ω) Unit}
    (hx : (fallbackTarget cat concurrent).Calls x) (u : FallbackRun ω) :
    Leaves x u (fun _ t => u.Moved t) u.Same := by
  obtain rfl | ⟨seesTable, item, rfl⟩ := hx
  · exact .pure (.inl (.refl u))
  · rw [fallbackTarget]
    split
    · refine .bind (fun _ t => u.Same t) (.modify ⟨rfl, rfl⟩) fun _ t hsame => ?_
      split
      · exact (ingestFallbackParsed_leaves t).mono (fun _ _ => hsame.moved) fun _ => hsame.trans
      · exact .throw hsame
    · exact ingestFallbackParsed_leaves u

variable (cat concurrent) in
/-- The catalog refuses an item of a consumer. -/
def RefusesItem (seesTable : Bool) (item : PipelineItem) (u : FallbackRun ω) : Prop :=
  if concurrent then (seesTable = true ∧ item.parsed.columns ≠ []) ∨
    RefusesBatch cat u item.parsed []
  else RefusesBatch cat u item.parsed item.payload

variable (cat concurrent) in
/-- A consumer turns to an item: the catalog refuses it only while nothing has been
committed; and once something failed, the item has no columns, or is refused. -/
def IngestsUncommitted (s : FileRun (FallbackRun ω) n) (seesTable : Bool) (item : PipelineItem) :
    Prop :=
  (RefusesItem cat concurrent seesTable item s.target → s.target.commits = 0) ∧
    (s.failed = true →
      item.parsed.columns = [] ∨ RefusesItem cat concurrent seesTable item s.target)

/-- No failure behind a commit and no commit behind a failure: the reader fails, a
batch does not parse, an item has no signature or is refused only while nothing has
been committed, and once something failed no consumer turns to an item that the
catalog would commit. -/
def FailsUncommitted (cfg : FileConfig) (cat : FallbackCatalog ω) (concurrent : Bool)
    (s : FileRun (FallbackRun ω) n) : FileEvent n → Prop
  | .readerFails _ => s.target.commits = 0
  | .parse i => ∀ batch e, s.parsing[i]? = some batch →
      process cfg.duck cfg.options batch = .error e → s.target.commits = 0
  | .pop c seesTable => ∀ first item, s.pending c = some first → s.queue.head? = some item →
      (¬ Signed cfg first item → s.target.commits = 0) ∧
      (Signed cfg first item → ¬ Coalesces cfg first item →
        IngestsUncommitted cat concurrent s seesTable first)
  | .leave c seesTable => ∀ item, s.pending c = some item →
      IngestsUncommitted cat concurrent s seesTable item
  | _ => True

/-- A concurrent ingest counts the skipped lines first. -/
theorem fallbackTarget_concurrent (seesTable : Bool) (item : PipelineItem) (u : FallbackRun ω) :
    (fallbackTarget cat true).ingest seesTable item u =
      (if !seesTable || item.parsed.columns.isEmpty then ingestFallbackParsed cat item.parsed []
        else throw cat.storageError : FallbackIngest ω Unit)
        { u with errors := u.errors + item.parsed.payload.parseErrors } :=
  run_bind_of_ok rfl

/-- The items the ingest of consumers raises on are those the catalog refuses. -/
theorem ingest_raises_iff {seesTable : Bool} {item : PipelineItem} {u : FallbackRun ω} :
    (∃ e t, (fallbackTarget cat concurrent).ingest seesTable item u = .error e t) ↔
      RefusesItem cat concurrent seesTable item u := by
  rw [RefusesItem]
  cases concurrent with
  | false => exact ingestFallbackParsed_raises_iff u
  | true =>
      rw [fallbackTarget_concurrent, if_pos rfl]
      split
      · next hplain =>
        rw [ingestFallbackParsed_raises_iff]
        have hno : ¬ (seesTable = true ∧ item.parsed.columns ≠ []) := by
          simpa [imp_iff_not_or] using hplain
        exact (or_iff_right hno).symm
      · next hplain =>
        refine iff_of_true ⟨_, _, rfl⟩ (.inl ?_)
        simpa using hplain

/-- An item without columns commits nothing. -/
theorem ingest_of_no_columns {seesTable : Bool} {item : PipelineItem} {u t : FallbackRun ω}
    (hcolumns : item.parsed.columns = [])
    (h : (fallbackTarget cat concurrent).ingest seesTable item u = .ok ⟨⟩ t) :
    t.commits = u.commits := by
  cases concurrent with
  | false => exact ((ingestFallbackParsed_of_no_columns hcolumns u).1 _ _ h).1
  | true =>
      rw [fallbackTarget_concurrent, if_pos (by simp [hcolumns])] at h
      exact ((ingestFallbackParsed_of_no_columns hcolumns _).1 _ _ h).1

/-- A consumer's ingest under the guard fails only while nothing has been committed,
and commits nothing where it fails or the call has failed before. -/
theorem IngestsUncommitted.commits {s : FileRun (FallbackRun ω) n} {seesTable : Bool}
    {item : PipelineItem} (h : IngestsUncommitted cat concurrent s seesTable item) :
    (∀ e t, (fallbackTarget cat concurrent).ingest seesTable item s.target = .error e t →
        s.target.commits = 0 ∧ t.commits = s.target.commits) ∧
      ∀ t, s.failed = true →
        (fallbackTarget cat concurrent).ingest seesTable item s.target = .ok ⟨⟩ t →
          t.commits = s.target.commits := by
  constructor
  · intro e t hrun
    exact ⟨h.1 (ingest_raises_iff.mp ⟨e, t, hrun⟩),
      ((fallbackTarget_leaves (.inr ⟨seesTable, item, rfl⟩) s.target).2 e t hrun).1⟩
  · intro t hfailed hrun
    cases h.2 hfailed with
    | inl hcolumns => exact ingest_of_no_columns hcolumns hrun
    | inr hrefused =>
        obtain ⟨e, u, herror⟩ := ingest_raises_iff.mpr hrefused
        exact nomatch herror.symm.trans hrun

/-- A step under the guard fails only while nothing has been committed, and commits
nothing once the call has failed. -/
theorem FailsUncommitted.commits {s s' : FileRun (FallbackRun ω) n} {a : FileEvent n}
    (h : FailsUncommitted cfg cat concurrent s a)
    (hstep : s.step cfg (fallbackTarget cat concurrent) a = some s') :
    (s.failed = false → s'.failed = true → s.target.commits = 0) ∧
      (s.failed = true → s'.target.commits = s.target.commits) := by
  have hsound : s.failed = false → s.failed = true → s.target.commits = 0 :=
    fun hs hs' => absurd (hs.symm.trans hs') (by simp)
  cases (FileRun.step_fileStep hstep).2 with
  | readerFails => exact ⟨fun _ _ => h, fun _ => rfl⟩
  | parseFails hparsing hprocess => exact ⟨fun _ _ => h _ _ hparsing hprocess, fun _ => rfl⟩
  | unsigned c hqueue hpending hunsigned =>
      obtain ⟨hzero, -⟩ := h _ _ hpending (by rw [hqueue]; rfl)
      exact ⟨fun _ _ => hzero hunsigned, fun _ => rfl⟩
  | ingest c hqueue _ hpending hsigned hapart hingest =>
      obtain ⟨-, hingests⟩ := h _ _ hpending (by rw [hqueue]; rfl)
      exact ⟨hsound, fun hfailed => (hingests hsigned hapart).commits.2 _ hfailed hingest⟩
  | ingestFails c hqueue hpending hsigned hapart hingest =>
      obtain ⟨-, hingests⟩ := h _ _ hpending (by rw [hqueue]; rfl)
      have hraises := (hingests hsigned hapart).commits.1 _ _ hingest
      exact ⟨fun _ _ => hraises.1, fun _ => hraises.2⟩
  | ingestLast c _ _ hpending hingest =>
      exact ⟨hsound, fun hfailed => (h _ hpending).commits.2 _ hfailed hingest⟩
  | ingestLastFails c hpending hingest =>
      have hraises := (h _ hpending).commits.1 _ _ hingest
      exact ⟨fun _ _ => hraises.1, fun _ => hraises.2⟩
  | finish _ hfinish =>
      cases hfinish
      exact ⟨hsound, fun _ => rfl⟩
  | finishFails hfinish => cases hfinish
  | _ => exact ⟨hsound, fun _ => rfl⟩

/-- A call that fails has committed nothing. -/
structure UncommittedInv (world : ω) (s : FileRun (FallbackRun ω) n) : Prop where
  failed : s.failed = true → s.target.commits = 0
  world_eq : s.target.commits = 0 → s.target.world = world
  raised : s.Raised → s.failed = true

/-- One step of a call keeps that. -/
theorem UncommittedInv.step {s s' : FileRun (FallbackRun ω) n} (h : UncommittedInv world s)
    {a : FileEvent n} (hguard : FailsUncommitted cfg cat concurrent s a)
    (hstep : s.step cfg (fallbackTarget cat concurrent) a = some s') : UncommittedInv world s' := by
  obtain ⟨hfails, hcommits⟩ := hguard.commits hstep
  obtain ⟨hopen, heffect⟩ := FileRun.step_cases hstep
  -- nothing is committed by a step after which the call fails
  have hsame : ∀ (_ : s.target.Moved s'.target) (_ : s'.failed = true)
      (_ : s.failed = false → s.target.Same s'.target), s'.target.commits = 0 := by
    intro hmoved hfailed' hnew
    cases hfailed : s.failed with
    | true => rw [hcommits hfailed, h.failed hfailed]
    | false => rw [(hnew hfailed).1, hfails hfailed hfailed']
  have hworld : s.target.Moved s'.target → s'.target.commits = 0 → s'.target.world = world := by
    intro hmoved hzero
    cases hmoved with
    | inl hsame => rw [hsame.2, h.world_eq (hsame.1 ▸ hzero)]
    | inr hmore => omega
  cases heffect with
  | kept htarget hfailed houtcome =>
      have hkept : s.target.Same s'.target := by rw [htarget]; exact .refl _
      exact ⟨fun hf => hsame (.inl hkept) hf fun _ => hkept, hworld (.inl hkept),
        fun hr => absurd hr houtcome⟩
  | ran hcalls hrun hfailed houtcome =>
      have hmoved := (fallbackTarget_leaves hcalls s.target).1 _ _ hrun
      exact ⟨fun hf => hsame hmoved hf fun hnew => absurd (hfailed ▸ hf) (by simp [hnew]),
        hworld hmoved, fun hr => absurd hr houtcome⟩
  | refused hcalls hrun hfailed houtcome =>
      have hkept := (fallbackTarget_leaves hcalls s.target).2 _ _ hrun
      exact ⟨fun hf => hsame (.inl hkept) hf fun _ => hkept, hworld (.inl hkept),
        fun hr => absurd hr houtcome⟩
  | raised htarget hfailed hfailed' =>
      have hkept : s.target.Same s'.target := by rw [htarget]; exact .refl _
      exact ⟨fun hf => hsame (.inl hkept) hf fun _ => hkept, hworld (.inl hkept), fun _ => hfailed'⟩

/-- On another catalog a call that raised has changed nothing, if it never
failed after a commit or committed after a failure. -/
theorem raised_fallback {batches : List Bytes} {s : FileRun (FallbackRun ω) n}
    (h : Reachable (ingestFile cfg (fallbackTarget cat concurrent) n batches (.start world))
      (FailsUncommitted cfg cat concurrent) s) (hraised : s.Raised) : s.target.world = world := by
  have hinv : UncommittedInv world s := by
    refine h.invariant (UncommittedInv world) ⟨?_, fun _ => rfl, ?_⟩ fun s a s' hs hguard hstep =>
      hs.step hguard hstep
    · exact fun hf => nomatch hf
    · rintro ⟨e, he⟩
      exact nomatch he
  exact hinv.world_eq (hinv.failed (hinv.raised hraised))

end

/-- **One atomic operation**: a call that raises leaves a native table as it was,
and another catalog too as long as nothing fails after a batch was committed and
no batch is committed after something failed. -/
theorem rawIngestFile_atomic (cfg : FileConfig) (n : Nat) (batches : List Bytes) :
    (∀ (env : NativeEnv) (before : Db) (s : FileRun IngestState n),
      Reachable (ingestFile cfg (nativeTarget env before (1 < n)) n batches (.start before))
        anyStep s → s.Raised → s.target.db.table = before.table) ∧
    (∀ (ω : Type) (cat : FallbackCatalog ω) (world : ω) (s : FileRun (FallbackRun ω) n),
      Reachable (ingestFile cfg (fallbackTarget cat (1 < n)) n batches (.start world))
        (FailsUncommitted cfg cat (1 < n)) s → s.Raised → s.target.world = world) :=
  ⟨fun _ _ _ h hraised => raised_native h hraised,
    fun _ _ _ _ h hraised => raised_fallback h hraised⟩

/-! ## a file with a bad line -/

/-- A table of another catalog: its columns and the texts inserted. -/
structure LakeTable where
  columns : List (Bytes × LogicalType)
  inserted : List Bytes

/-- A catalog of one table, which may not exist yet. -/
def smallLake : FallbackCatalog (Option LakeTable) where
  target := bytes "lake.events"
  probe
    | none => .error (bytes "Table with name events does not exist!")
    | some table => .ok table.columns
  run
    | none, .createTable columns => .ok (some { columns, inserted := [] }, 0)
    | some table, .addColumn name type =>
        .ok (some { table with columns := table.columns ++ [(name, type)] }, 0)
    | some table, .alterType name type _ =>
        .ok (some { table with columns := assignType table.columns (name, type) }, 0)
    | some table, .insertSelect _ text =>
        .ok (some { table with inserted := table.inserted ++ [text] }, 1)
    | _, _ => .error { kind := .invalidInput, message := bytes "Catalog Error" }
  commit world := .ok world
  storageError :=
    { kind := .internal, message := bytes "Calling GetStorage on a TableCatalogEntry" }

/-- `{"a":1}` on a line. -/
def goodBatch : Bytes := bytes "\x7b\"a\":1\x7d\n"

/-- A line that is no JSON. -/
def badBatch : Bytes := bytes "oops\n"

/-- The small DuckDB, which reads the good line. -/
def fileConfig : FileConfig where
  duck := { smallDuck with
    yyjsonRead := fun text =>
      if text = goodBatch then some (.obj [(bytes "a", .uint 1)]) else none }
  options := {}
  poolMinRows := 4096

/-- A native database without the table. -/
def emptyDb : Db where
  table := none
  nextToken := 0
  cache := none

/-- The consumer of a call that has one. -/
def soleConsumer : Fin 1 := .last 0

/-- The second batch of a file does not parse; the first one is ingested when the
consumer leaves its loop. -/
def badSecondBatch : List (FileEvent 1) :=
  [.emit, .emit, .readerDone, .popRaw, .popRaw, .parse 0, .pop soleConsumer true, .parse 0,
    .leave soleConsumer true, .finish, .join]

/-- A catalog that refuses to insert. -/
def tightLake : FallbackCatalog (Option LakeTable) :=
  { smallLake with
    run := fun world statement => match statement with
      | .insertSelect _ _ =>
          .error { kind := .invalidInput, message := bytes "no space left on device" }
      | _ => smallLake.run world statement }

/-- A table that has a text and not yet the column of the good line. -/
def oldLake : Option LakeTable := some { columns := [], inserted := [bytes "\x7b\x7d"] }

/-- The second batch does not parse, and then the first one is refused. -/
def refusedBatch : List (FileEvent 1) :=
  [.emit, .emit, .readerDone, .popRaw, .popRaw, .parse 0, .pop soleConsumer true, .parse 0,
    .leave soleConsumer true, .join]

theorem guarded_refusedBatch :
    (ingestFile fileConfig (fallbackTarget tightLake (1 < 1)) 1 [goodBatch, badBatch]
      (.start oldLake)).Guarded (FailsUncommitted fileConfig tightLake (1 < 1))
      (ingestFile fileConfig (fallbackTarget tightLake (1 < 1)) 1 [goodBatch, badBatch]
        (.start oldLake)).init refusedBatch := by
  refine guarded_cons rfl trivial (guarded_cons rfl trivial (guarded_cons rfl trivial ?_))
  refine guarded_cons rfl trivial (guarded_cons rfl trivial ?_)
  refine guarded_cons rfl (fun _ _ _ _ => rfl) ?_
  refine guarded_cons rfl (by rintro first item ⟨⟩) ?_
  refine guarded_cons rfl (fun _ _ _ _ => rfl) ?_
  refine guarded_cons rfl ?_ (guarded_cons rfl trivial trivial)
  rintro item ⟨⟩
  exact ⟨fun _ => rfl, fun _ => .inr (ingest_raises_iff.mp ⟨_, _, rfl⟩)⟩

/-- The call over the file with the bad line: a native catalog loses the table that
the first batch made; another one, which has added a column and refuses to insert,
keeps the table it had. -/
theorem rawIngestFile_atomic_bad :
    (∃ s s', (ingestFile fileConfig (nativeTarget smallEnv emptyDb (1 < 1)) 1
        [goodBatch, badBatch] (.start emptyDb)).run badSecondBatch.dropLast = some s ∧
      s.target.db.table.isSome = true ∧ s.target.rows = 1 ∧
      s.step fileConfig (nativeTarget smallEnv emptyDb (1 < 1)) .join = some s' ∧ s'.Raised ∧
      s'.target.db.table = none) ∧
    (∃ s, (ingestFile fileConfig (fallbackTarget tightLake (1 < 1)) 1 [goodBatch, badBatch]
        (.start oldLake)).run refusedBatch = some s ∧ s.Raised ∧ s.target.world = oldLake) :=
  ⟨⟨_, _, rfl, rfl, rfl, rfl, ⟨_, rfl⟩,
      (rawIngestFile_atomic fileConfig 1 [goodBatch, badBatch]).1 smallEnv emptyDb _
        (reachable_iff_run.mpr ⟨badSecondBatch, rfl⟩) ⟨_, rfl⟩⟩,
    ⟨_, rfl, ⟨_, rfl⟩,
      (rawIngestFile_atomic fileConfig 1 [goodBatch, badBatch]).2 _ tightLake oldLake _
        (Reachable.init.of_guarded guarded_refusedBatch rfl) ⟨_, rfl⟩⟩⟩

/-- The call raises over the second batch, and the table with the first batch is
there. -/
theorem rawIngestFile_keepsFirstBatch :
    ¬ ∀ s, Reachable (ingestFile fileConfig (fallbackTarget smallLake (1 < 1)) 1
        [goodBatch, badBatch] (.start none)) anyStep s →
      s.Raised → s.target.world = none := by
  intro h
  have hworld := h _ (reachable_iff_run.mpr ⟨badSecondBatch, rfl⟩) ⟨_, rfl⟩
  contradiction

end RawDuck
