import RawDuck.ApiServer
import RawDuck.GroupOutcome
import RawDuck.OtlpStatus
import RawDuck.RemoteLane
import RawDuck.SkippedLines

/-!
# RawDuck.Collector

The three ways an OTLP export reaches a table: gRPC, HTTP with a protobuf body and HTTP
with a JSON body.  A gRPC export has a transaction of its own; an HTTP request joins the
group commit of its table, here alone.

* `exportSignal`, `handleOtlpProtobuf`, `handleIngest` — the handlers;
* `exportTable_eq_iff` — when the headers name the same table to both protocols;
* `rawIngestGroupCommit_of_ingested` — what a group commit of one comes to;
* `otlpTransports_agree_iff` — when the three leave the same and answer alike.
-/

namespace RawDuck

open Fallible

/-! ## requests -/

/-- The signals of OTLP. -/
inductive Signal where
  | traces
  | logs
  | metrics
  deriving DecidableEq, Repr

/-- The name of a signal in paths and headers. -/
def Signal.name : Signal → Bytes
  | .traces => bytes "traces"
  | .logs => bytes "logs"
  | .metrics => bytes "metrics"

/-- `OtlpRejectedField`. -/
def Signal.rejectedField : Signal → Bytes
  | .traces => bytes "rejectedSpans"
  | .logs => bytes "rejectedLogRecords"
  | .metrics => bytes "rejectedDataPoints"

/-- A header or a metadata entry; the names are in lower case. -/
def findHeader (headers : List (Bytes × Bytes)) (name : Bytes) : Option Bytes :=
  (headers.find? fun header => header.1 = name).map Prod.snd

/-- `MetadataValue`, and `get_header_value`. -/
def metadataValue (headers : List (Bytes × Bytes)) (key : Bytes) : Bytes :=
  (findHeader headers key).getD []

/-- `RequestHeader`: the first of the names that is there. -/
def requestHeader (headers : List (Bytes × Bytes)) (names : List Bytes) : Bytes :=
  (names.findSome? (findHeader headers)).getD []

/-- `x-rawduck-<signal>-table`. -/
def duckSignalHeader (signal : Signal) : Bytes :=
  bytes "x-rawduck-" ++ signal.name ++ bytes "-table"

/-- `x-rawtree-<signal>-table`. -/
def treeSignalHeader (signal : Signal) : Bytes :=
  bytes "x-rawtree-" ++ signal.name ++ bytes "-table"

/-- The table of a signal whose request names none. -/
def defaultTable (signal : Signal) : Bytes := bytes "otel_" ++ signal.name

/-- A table, unless its name is empty. -/
def orDefault (signal : Signal) (table : Bytes) : Bytes :=
  if table.isEmpty then defaultTable signal else table

/-- The table of `ExportSignal`: the first name that is not empty. -/
def exportTable (signal : Signal) (metadata : List (Bytes × Bytes)) : Bytes :=
  let table := metadataValue metadata (duckSignalHeader signal)
  let table := if table.isEmpty then metadataValue metadata (bytes "x-rawduck-table") else table
  orDefault signal table

/-- The table of the OTLP route: the first header that is there. -/
def otlpTable (signal : Signal) (headers : List (Bytes × Bytes)) : Bytes :=
  orDefault signal (requestHeader headers [duckSignalHeader signal, treeSignalHeader signal,
    bytes "x-rawduck-table", bytes "x-rawtree-table"])

/-- An export as its transport delivers it: `payload` is what the protobuf message is
converted to, or the text of the error. -/
structure OtlpRequest where
  signal : Signal
  headers : List (Bytes × Bytes)
  payload : Except Bytes Bytes

/-! ## replies -/

/-- The status codes of `ExportSignal`. -/
inductive GrpcCode where
  | ok
  | unauthenticated
  | unavailable
  | internal
  | invalidArgument
  deriving DecidableEq, Repr

/-- `partialSuccess`: how many records were rejected, and a message. -/
structure PartialSuccess where
  rejected : Nat
  errorMessage : Bytes
  deriving DecidableEq, Repr

/-- What an `Export` method returns. -/
structure ExportResponse where
  code : GrpcCode
  message : Bytes
  partialSuccess : Option PartialSuccess
  deriving DecidableEq, Repr

/-- The body of an HTTP response. -/
inductive HttpBody where
  /-- `RespondError`. -/
  | error (message : Bytes) (hint : Bytes)
  /-- `RespondOtlpStatus`. -/
  | otlpStatus (status : Bytes)
  /-- `RawOtlpProtobufResponse`. -/
  | exportResponse (signal : Signal) (partialSuccess : Option PartialSuccess)
  /-- `{"partialSuccess": {…}}`, with the field for the rejected records. -/
  | partialSuccess (partialSuccess : Option (Bytes × PartialSuccess))
  /-- `{"inserted": …}`. -/
  | inserted (rows : Nat)
  /-- `{"table": …, "queued": true}`. -/
  | queued (table : Bytes)
  deriving DecidableEq, Repr

/-- An HTTP response. -/
structure HttpResponse where
  status : Nat
  body : HttpBody
  deriving DecidableEq, Repr

/-- The message of a partial success. -/
def someRejected : Bytes := bytes "some records could not be parsed"

/-- The `partial_success` of a response, which is only set if something was rejected. -/
def partialSuccess (rejected : Nat) : Option PartialSuccess :=
  if 0 < rejected then some { rejected, errorMessage := someRejected } else none

/-- `RespondError`. -/
def respondError (status : Nat) (message : Bytes) : HttpResponse :=
  { status, body := .error message [] }

/-- `RespondOtlpStatus`. -/
def respondOtlpStatus (status : Nat) (message : Bytes) : HttpResponse :=
  { status, body := .otlpStatus (rawOtlpStatusBytes message) }

/-! ## the collector -/

variable {ω : Type}

/-- What the handlers find: the database, its transforms, the setting
`rawduck_async_insert` of a new connection, the transactions on each table, and whether
the build has protobuf. -/
structure CollectorEnv (ω : Type) where
  duck : Duck
  registry : List (Bytes × Bytes)
  alive : Bool
  asyncInsert : Bool
  protobuf : Bool
  backend : Bytes → Backend ω

/-- The asynchronous buffers, what was put in them last at the end, and the world of the
transactions. -/
structure Collector (ω : Type) where
  queue : List (Bytes × Bytes × RawParseOptions)
  world : ω

/-- A handler of requests; what it raises reaches the server library. -/
abbrev Handler (ω : Type) := EStateM RawError (Collector ω)

/-- The end of a `Connection`: an open transaction is rolled back. -/
def closeConnection (b : Backend ω) (conn : Connection ω) : ω :=
  if conn.autoCommit then conn.world else b.rollback conn.world

/-- A computation on a new connection. -/
def onNewConnection {α : Type} (b : Backend ω) (x : OnConnection ω α) : Handler ω α := fun s =>
  match x (.idle s.world) with
  | .ok a conn => .ok a { s with world := closeConnection b conn }
  | .error e conn => .error e { s with world := closeConnection b conn }

/-- `RawAsyncEnqueue`. -/
def rawAsyncEnqueue (table payload : Bytes) (options : RawParseOptions) : Handler ω PUnit :=
  modify fun s => { s with queue := s.queue ++ [(table, payload, options)] }

/-- The transform of a signal. -/
def otlpTransform (signal : Signal) : Bytes := bytes "otlp-" ++ signal.name

/-- `RawIngestGroupCommit` of a request that is alone with its table: it leads a batch of
its own. -/
def rawIngestGroupCommit (b : Backend ω) (parsed : RawParsedPayload) (payload : Bytes) :
    Handler ω RawIngestStats := fun s =>
  let item : PendingItem := .create parsed payload
  match leadCommits b [] (.create s.world [item]) with
  | .error e t => .error e { s with world := closeConnection b t.conn }
  | .ok _ t =>
      match (t.resolved.headD item).answer with
      | .ok stats => .ok stats { s with world := closeConnection b t.conn }
      | .error e => .error e { s with world := closeConnection b t.conn }

section

variable (env : CollectorEnv ω) (server : RawServeBindData)

/-! ## gRPC -/

/-- A status that is not `OK`. -/
def failedExport (code : GrpcCode) (message : Bytes) : ExportResponse :=
  { code, message, partialSuccess := none }

/-- The guarded part of `ExportSignal`. -/
def exportAndCommit (b : Backend ω) (signal : Signal) (payload : Bytes) :
    OnConnection ω ExportResponse := do
  let options ← fromExcept (resolveTransform env.registry (otlpTransform signal) [])
  let stats ← rawIngestPayload b env.duck (payload, options)
  rawCommitTransaction b
  return { code := .ok, message := [], partialSuccess := partialSuccess stats.errors }

/-- The synchronous part of `ExportSignal`. -/
def exportOn (b : Backend ω) (signal : Signal) (payload : Bytes) :
    OnConnection ω ExportResponse := do
  rawBeginTransaction b
  try exportAndCommit env b signal payload
  catch e =>
    rawRollbackTransaction b
    pure (failedExport .invalidArgument e.message)

/-- `ExportSignal`, with the `Export` method around it. -/
def exportSignal (request : OtlpRequest) : Handler ω ExportResponse :=
  if !server.token.isEmpty && !rawTokenEquals
      (metadataValue request.headers (bytes "authorization")) (bytes "Bearer " ++ server.token) then
    return failedExport .unauthenticated (bytes "missing or invalid bearer token")
  else if !env.alive then
    return failedExport .unavailable (bytes "database is no longer available")
  else
    let table := exportTable request.signal request.headers
    match request.payload with
    | .error _ => return failedExport .internal (bytes "failed to convert OTLP request to JSON")
    | .ok payload =>
        if server.async || env.asyncInsert then do
          let options ← fromExcept (resolveTransform env.registry (otlpTransform request.signal) [])
          rawAsyncEnqueue table payload options
          pure { code := .ok, message := [], partialSuccess := none }
        else
          let b := env.backend table
          onNewConnection b (exportOn env b request.signal payload)

/-! ## HTTP -/

/-- The guarded part of `HandleOtlpProtobuf`. -/
def ingestOtlpProtobuf (signal : Signal) (table payload : Bytes) (options : RawParseOptions) :
    Handler ω HttpResponse := do
  let parsed ← fromExcept (process env.duck options payload)
  let stats ← rawIngestGroupCommit (env.backend table) parsed payload
  return { status := 200, body := .exportResponse signal (partialSuccess stats.errors) }

/-- `HandleOtlpProtobuf`. -/
def handleOtlpProtobuf (signal : Signal) (table : Bytes) (decoded : Except Bytes Bytes) :
    Handler ω HttpResponse :=
  if !env.protobuf then
    return respondError 415 (bytes "this build does not include OTLP/protobuf support; " ++
      bytes "configure the SDK with OTEL_EXPORTER_OTLP_PROTOCOL=http/json or use a build " ++
      bytes "with the protobuf feature")
  else if !env.alive then
    return respondError 503 (bytes "database is no longer available")
  else
    match decoded with
    | .error error => return respondOtlpStatus 400 error
    | .ok payload => do
        let options ← fromExcept (resolveTransform env.registry (otlpTransform signal) [])
        if server.async || env.asyncInsert then
          rawAsyncEnqueue table payload options
          pure { status := 200, body := .exportResponse signal none }
        else
          try ingestOtlpProtobuf env signal table payload options
          catch e => pure (respondOtlpStatus 400 e.message)

/-- `InferOtlpTransform`. -/
def inferOtlpTransform (body : Bytes) : Bytes :=
  if bytes "\"resourceSpans\"" <:+: body then bytes "otlp-traces"
  else if bytes "\"resourceLogs\"" <:+: body then bytes "otlp-logs"
  else if bytes "\"resourceMetrics\"" <:+: body then bytes "otlp-metrics"
  else []

/-- `RequestParseOptions`; the parameters are those of the query string. -/
def requestParseOptions (params : List (Bytes × Bytes)) (body : Bytes) :
    Except RawError RawParseOptions := do
  let transform := metadataValue params (bytes "transform")
  let transform := if transform.isEmpty && !body.isEmpty then inferOtlpTransform body else transform
  let options ← resolveTransform env.registry transform (metadataValue params (bytes "explode"))
  return { options with
    ignoreErrors := metadataValue params (bytes "ignore_errors") = bytes "true" }

/-- The options of a request: of its signal, or of its parameters. -/
def ingestOptions (signal : Option Signal) (params : List (Bytes × Bytes)) (body : Bytes) :
    Except RawError RawParseOptions :=
  match signal with
  | none => requestParseOptions env params body
  | some signal => resolveTransform env.registry (otlpTransform signal) []

/-- The response of `HandleIngest` to a request that was queued. -/
def queuedResponse (signal : Option Signal) (table : Bytes) : HttpResponse :=
  match signal with
  | none => { status := 202, body := .queued table }
  | some _ => { status := 200, body := .partialSuccess none }

/-- The response of `HandleIngest` to a request that was ingested. -/
def ingestedResponse (signal : Option Signal) (stats : RawIngestStats) : HttpResponse :=
  match signal with
  | none => { status := 200, body := .inserted stats.rows }
  | some signal =>
      { status := 200
        body := .partialSuccess ((partialSuccess stats.errors).map (signal.rejectedField, ·)) }

/-- The guarded part of `HandleIngest`, which resolves the options a second time. -/
def ingestBody (signal : Option Signal) (table : Bytes) (params : List (Bytes × Bytes))
    (body : Bytes) : Handler ω HttpResponse := do
  let options ← fromExcept (ingestOptions env signal params body)
  let parsed ← fromExcept (process env.duck options body)
  let stats ← rawIngestGroupCommit (env.backend table) parsed body
  return ingestedResponse signal stats

/-- `HandleIngest`; options that cannot be resolved are found outside the handler of its
errors. -/
def handleIngest (signal : Option Signal) (table : Bytes) (params : List (Bytes × Bytes))
    (body : Bytes) : Handler ω HttpResponse :=
  if !env.alive then return respondError 503 (bytes "database is no longer available")
  else do
    let options ← fromExcept (ingestOptions env signal params body)
    if server.async || env.asyncInsert then
      rawAsyncEnqueue table body options
      pure (queuedResponse signal table)
    else
      try ingestBody env signal table params body
      catch e => pure (respondError 400 e.message)

/-- The OTLP route, for a protobuf body. -/
def postOtlpProtobuf (request : OtlpRequest) : Handler ω HttpResponse :=
  if authorized server.token (metadataValue request.headers (bytes "authorization")) then
    handleOtlpProtobuf env server request.signal (otlpTable request.signal request.headers)
      request.payload
  else return respondError 401 (bytes "missing or invalid bearer token")

/-- The OTLP route, for a JSON body. -/
def postOtlpJson (signal : Signal) (headers params : List (Bytes × Bytes)) (body : Bytes) :
    Handler ω HttpResponse :=
  if authorized server.token (metadataValue headers (bytes "authorization")) then
    handleIngest env server (some signal) (otlpTable signal headers) params body
  else return respondError 401 (bytes "missing or invalid bearer token")

end

/-! ## tables -/

theorem orDefault_nil (signal : Signal) : orDefault signal [] = defaultTable signal := rfl

theorem orDefault_of_ne {table : Bytes} (h : table ≠ []) (signal : Signal) :
    orDefault signal table = table := if_neg (mt List.isEmpty_iff.mp h)

theorem exportTable_eq (signal : Signal) (metadata : List (Bytes × Bytes)) :
    exportTable signal metadata =
      if metadataValue metadata (duckSignalHeader signal) = [] then
        orDefault signal (metadataValue metadata (bytes "x-rawduck-table"))
      else metadataValue metadata (duckSignalHeader signal) := by
  simp only [exportTable, List.isEmpty_iff]
  split
  · rfl
  · next hne => exact orDefault_of_ne hne signal

/-- The headers name the same table to both protocols: the protocols differ in an empty
`x-rawduck-<signal>-table`, and in the headers only HTTP knows. -/
def SameTable (signal : Signal) (headers : List (Bytes × Bytes)) : Prop :=
  match findHeader headers (duckSignalHeader signal) with
  | some table => table = [] →
      orDefault signal (metadataValue headers (bytes "x-rawduck-table")) = defaultTable signal
  | none =>
      match findHeader headers (treeSignalHeader signal) with
      | some table =>
          orDefault signal (metadataValue headers (bytes "x-rawduck-table")) =
            orDefault signal table
      | none => findHeader headers (bytes "x-rawduck-table") = none →
          orDefault signal (metadataValue headers (bytes "x-rawtree-table")) = defaultTable signal

/-- **The table of an export** does not depend on the protocol exactly under this condition
on its headers. -/
theorem exportTable_eq_iff (signal : Signal) (headers : List (Bytes × Bytes)) :
    exportTable signal headers = otlpTable signal headers ↔ SameTable signal headers := by
  rw [exportTable_eq, otlpTable, SameTable, requestHeader, List.findSome?_cons, metadataValue]
  cases hduck : findHeader headers (duckSignalHeader signal) with
  | some table =>
      simp only [Option.getD_some]
      split
      · next hempty => rw [hempty, orDefault_nil, imp_iff_right rfl]
      · next hne => simp [hne, orDefault_of_ne hne]
  | none =>
      simp only [Option.getD_none, if_true, List.findSome?_cons]
      cases htree : findHeader headers (treeSignalHeader signal) with
      | some table => simp only [Option.getD_some]
      | none =>
          simp only [metadataValue]
          cases hplain : findHeader headers (bytes "x-rawduck-table") with
          | some table => simp
          | none =>
              simp only [Option.getD_none, orDefault_nil, List.findSome?_nil]
              cases findHeader headers (bytes "x-rawtree-table") with
              | some table => simp [eq_comm]
              | none => simp [orDefault_nil]

/-! ## the transactions of an export -/

variable {b : Backend ω} {env : CollectorEnv ω} {signal : Signal} {payload : Bytes}
  {options : RawParseOptions} {parsed : RawParsedPayload} {stats : RawIngestStats} {e : RawError}
  {s : Collector ω} {w w₁ : ω}

/-- The transform of a signal is built in. -/
theorem resolveTransform_otlp (registry : List (Bytes × Bytes)) (signal : Signal) :
    ∃ options, resolveTransform registry (otlpTransform signal) [] = .ok options := by
  have hbuiltin : ∃ path, resolveBuiltinTransform (otlpTransform signal) = some path := by
    cases signal with
    | traces => exact ⟨_, rfl⟩
    | logs => exact ⟨_, rfl⟩
    | metrics => exact ⟨_, rfl⟩
  have hname : (otlpTransform signal).isEmpty = false := by
    cases signal with
    | traces | logs | metrics => rfl
  obtain ⟨path, hpath⟩ := hbuiltin
  refine ⟨{ rawExplodeOptions path with
    otlp := !(otlpTransform signal).isEmpty && rawTransformIsOtlp (otlpTransform signal) }, ?_⟩
  simp only [resolveTransform, hname, hpath, List.isEmpty_nil, Bool.not_true, Bool.and_false,
    Bool.false_eq_true, if_false]
  rfl

/-- A payload that is read is ingested. -/
theorem rawIngestPayload_of_ok {duck : Duck} (h : process duck options payload = .ok parsed)
    (c : Connection ω) : rawIngestPayload b duck (payload, options) c =
      ingestOn b parsed payload c :=
  run_bind_of_ok (run_fromExcept_eq_ok.mpr ⟨h, rfl⟩)

theorem rawIngestPayload_of_error {duck : Duck} (h : process duck options payload = .error e)
    (c : Connection ω) : rawIngestPayload b duck (payload, options) c = .error e c :=
  run_bind_of_error (run_fromExcept_eq_error.mpr ⟨h, rfl⟩)

/-- An attempt whose payload is not ingested is rolled back. -/
theorem exportOn_of_failed
    (hoptions : resolveTransform env.registry (otlpTransform signal) [] = .ok options)
    (h : rawIngestPayload b env.duck (payload, options)
      { autoCommit := false, world := b.start w } = .error e { autoCommit := false, world := w₁ }) :
    exportOn env b signal payload (.idle w) =
      .ok (failedExport .invalidArgument e.message) (.idle (b.rollback w₁)) := by
  have hattempt : exportAndCommit env b signal payload
      { autoCommit := false, world := b.start w } = .error e
        { autoCommit := false, world := w₁ } := by
    rw [exportAndCommit, run_bind_of_ok (run_fromExcept_of_ok hoptions)]
    exact run_bind_of_error h
  rw [exportOn, run_bind_of_ok rawBeginTransaction_idle, run_tryCatch_of_error hattempt,
    run_bind_of_ok rawRollbackTransaction_open]
  rfl

/-- An attempt whose payload is ingested comes to its commit: when that raises, so does the
handler, which finds no transaction. -/
theorem exportOn_of_ingested
    (hoptions : resolveTransform env.registry (otlpTransform signal) [] = .ok options)
    (hprocess : process env.duck options payload = .ok parsed)
    (hingest : b.ingest parsed payload (b.start w) = .ok stats w₁) :
    (exportOn env b signal payload (.idle w) = .ok
        { code := .ok, message := [], partialSuccess := partialSuccess stats.errors }
        (.idle (commitWorld b w₁)) ∧ ¬ CommitRaises b (commitPoint b w₁)) ∨
    (∃ e, exportOn env b signal payload (.idle w) = .error e (.idle (commitWorld b w₁)) ∧
      CommitRaises b (commitPoint b w₁)) := by
  have hon : rawIngestPayload b env.duck (payload, options)
      { autoCommit := false, world := b.start w } =
        .ok stats { autoCommit := false, world := w₁ } := by
    rw [rawIngestPayload_of_ok hprocess]
    simp only [ingestOn, hingest]
  have hattempt : exportAndCommit env b signal payload
      { autoCommit := false, world := b.start w } = (rawCommitTransaction b >>= fun _ => pure
        { code := .ok, message := [], partialSuccess := partialSuccess stats.errors })
          { autoCommit := false, world := w₁ } := by
    rw [exportAndCommit, run_bind_of_ok (run_fromExcept_of_ok hoptions), run_bind_of_ok hon]
  rw [exportOn, run_bind_of_ok rawBeginTransaction_idle]
  rcases rawCommitTransaction_open b w₁ with ⟨hc, hn⟩ | ⟨e, hc, hr⟩
  · refine .inl ⟨run_tryCatch_of_ok ?_, hn⟩
    rw [hattempt, run_bind_of_ok hc]
    rfl
  · refine .inr ⟨transactionError "cannot rollback - no transaction is active", ?_, hr⟩
    rw [run_tryCatch_of_error (hattempt.trans (run_bind_of_error hc))]
    exact run_bind_of_error rawRollbackTransaction_idle

/-! ## a group commit of one -/

/-- The statistics an item of a committed batch reports. -/
def RawIngestStats.reported (stats : RawIngestStats) (parsed : RawParsedPayload) :
    RawIngestStats :=
  { stats with rows := parsed.payload.rows.length, errors := parsed.payload.parseErrors }

/-- What a group commit of one comes to when its ingest meets no conflict. -/
theorem rawIngestGroupCommit_of_commitBatch {mark : PendingItem → PendingItem} {w' : ω}
    (h : commitBatch b (.create parsed payload) [] (.create s.world [.create parsed payload]) =
      .ok ⟨⟩ { (Leading.create s.world [.create parsed payload] : Leading ω) with
        conn := .idle w', pending := [], batch := []
        resolved := [mark (.create parsed payload)] }) :
    rawIngestGroupCommit b parsed payload s =
      fromExcept (mark (.create parsed payload)).answer { s with world := w' } := by
  have hlead : leadCommits b [] (.create s.world [.create parsed payload]) = .ok ⟨⟩
      { (Leading.create s.world [.create parsed payload] : Leading ω) with
        conn := .idle w', pending := [], batch := [], committing := false
        resolved := [mark (.create parsed payload)] } := by
    rw [leadCommits_last rfl, run_bind_of_ok h]
    rfl
  simp only [rawIngestGroupCommit, hlead, List.headD_cons, closeConnection, if_true]
  cases (mark (.create parsed payload)).answer with
  | ok stats => rfl
  | error e => rfl

/-- Without a conflict, the first attempt decides a batch of one. -/
theorem batchWorld_alone (h : retries b parsed payload w = false) :
    batchWorld b (.create parsed payload) [] w = b.start w := by
  have hsame : batchWorld b (.create parsed payload) [] w = attemptWorld b parsed payload w := rfl
  rw [hsame, attemptWorld, h]
  rfl

/-- A group commit of one that meets no conflict is its first attempt: its item is marked, or the
commit raises. -/
theorem rawIngestGroupCommit_alone (h : retries b parsed payload s.world = false) :
    (∃ mark, BatchEnd b (.create parsed payload) [] s.world mark ∧
      ¬ CommitRaises b (ingestCommit b parsed payload (b.start s.world)) ∧
      rawIngestGroupCommit b parsed payload s =
        fromExcept (mark (.create parsed payload)).answer
          { s with world := ingestWorld b parsed payload (b.start s.world) }) ∨
    (∃ e, CommitRaises b (ingestCommit b parsed payload (b.start s.world)) ∧
      rawIngestGroupCommit b parsed payload s =
        .error e { s with world := ingestWorld b parsed payload (b.start s.world) }) := by
  have hround := @commitBatch_idle _ b (.create parsed payload) []
    (.create s.world [.create parsed payload]) s.world rfl
  rw [batchCommit, worldAfter, batchWorld_alone h] at hround
  rcases hround with ⟨mark, hend, hreturn, hrun⟩ | ⟨e, hraise, hrun⟩
  · exact .inl ⟨mark, hend, hreturn, rawIngestGroupCommit_of_commitBatch hrun⟩
  · refine .inr ⟨e, hraise, ?_⟩
    have hlead : leadCommits b [] (.create s.world [.create parsed payload]) = _ :=
      (leadCommits_last rfl).trans (run_bind_of_error hrun)
    simp only [rawIngestGroupCommit, hlead, closeConnection, if_true]
    rfl

/-- A group commit of one whose payload is ingested comes to its commit. -/
theorem rawIngestGroupCommit_of_ingested
    (hingest : b.ingest parsed payload (b.start s.world) = .ok stats w₁) :
    (rawIngestGroupCommit b parsed payload s =
        .ok (stats.reported parsed) { s with world := commitWorld b w₁ } ∧
      ¬ CommitRaises b (commitPoint b w₁)) ∨
    (∃ e, rawIngestGroupCommit b parsed payload s =
        .error e { s with world := commitWorld b w₁ } ∧ CommitRaises b (commitPoint b w₁)) := by
  have hretry : retries b parsed payload s.world = false := by simp only [retries, hingest]
  have halone := rawIngestGroupCommit_alone hretry
  simp only [ingestCommit, ingestWorld, hingest] at halone
  rcases halone with ⟨mark, hend, hreturn, hrun⟩ | ⟨e, hraise, hrun⟩
  · refine .inl ⟨?_, hreturn⟩
    rw [hrun]
    cases hend with
    | committed h =>
        rw [batchWorld_alone hretry] at h
        obtain ⟨rfl, -⟩ := EStateM.Result.ok.inj (h.symm.trans hingest)
        rfl
    | rejected h =>
        rw [batchWorld_alone hretry] at h
        have hboth := h.symm.trans hingest
        contradiction
  · exact .inr ⟨e, hrun, hraise⟩

/-- One whose payload is not is rejected, unless it has its retry. -/
theorem rawIngestGroupCommit_of_failed
    (hingest : b.ingest parsed payload (b.start s.world) = .error e w₁)
    (hkind : e.kind ≠ .transaction) :
    rawIngestGroupCommit b parsed payload s =
      .error { kind := .invalidInput, message := e.message }
        { s with world := b.rollback w₁ } := by
  have hretry : retries b parsed payload s.world = false := by
    simp only [retries, hingest]
    exact decide_eq_false hkind
  have halone := rawIngestGroupCommit_alone hretry
  simp only [ingestCommit, ingestWorld, hingest] at halone
  rcases halone with ⟨mark, hend, -, hrun⟩ | ⟨-, hraise, -⟩
  · rw [hrun]
    cases hend with
    | committed h =>
        rw [batchWorld_alone hretry] at h
        have hboth := h.symm.trans hingest
        contradiction
    | rejected h =>
        rw [batchWorld_alone hretry] at h
        obtain ⟨rfl, -⟩ := EStateM.Result.error.inj (h.symm.trans hingest)
        rfl
  · exact absurd hraise not_commitRaises_none

/-! ## one export, three transports -/

/-- The responses say the same. -/
inductive SameReply (signal : Signal) : ExportResponse → HttpResponse → HttpResponse → Prop
  | accepted (partialSuccess : Option PartialSuccess) :
      SameReply signal { code := .ok, message := [], partialSuccess }
        { status := 200, body := .exportResponse signal partialSuccess }
        { status := 200, body := .partialSuccess (partialSuccess.map (signal.rejectedField, ·)) }
  | unauthenticated (message : Bytes) :
      SameReply signal (failedExport .unauthenticated message) (respondError 401 message)
        (respondError 401 message)
  | unavailable (message : Bytes) :
      SameReply signal (failedExport .unavailable message) (respondError 503 message)
        (respondError 503 message)
  | refused (message : Bytes) :
      SameReply signal (failedExport .invalidArgument message) (respondOtlpStatus 400 message)
        (respondError 400 message)

section

variable (env : CollectorEnv ω) (server : RawServeBindData) (signal : Signal)
  (headers params : List (Bytes × Bytes)) (payload : Bytes)

/-- The transports leave the same collector, and say the same. -/
def TransportsAgree (s : Collector ω) : Prop :=
  ∃ exported protobuf json t,
    exportSignal env server ⟨signal, headers, .ok payload⟩ s = .ok exported t ∧
    postOtlpProtobuf env server ⟨signal, headers, .ok payload⟩ s = .ok protobuf t ∧
    postOtlpJson env server signal headers params payload s = .ok json t ∧
    SameReply signal exported protobuf json

/-- The transactions on the table of an export. -/
def exportBackend : Backend ω := env.backend (otlpTable signal headers)

/-- An export is ingested at once: it passes the checks, and no buffer takes it. -/
def IsSynchronous : Prop :=
  authorized server.token (metadataValue headers (bytes "authorization")) = true ∧
    env.alive = true ∧ (server.async || env.asyncInsert) = false

/-- The payload of an export, parsed. -/
def exportPayload : Except RawError RawParsedPayload := do
  let options ← resolveTransform env.registry (otlpTransform signal) []
  process env.duck options payload

/-- The commit an export comes to. -/
def exportCommit (w : ω) : Option ω :=
  match exportPayload env signal payload with
  | .ok parsed =>
      ingestCommit (exportBackend env signal headers) parsed payload
        ((exportBackend env signal headers).start w)
  | .error _ => none

/-- The first ingest of an export raises no `TransactionException`. -/
def NoConflict (w : ω) : Prop :=
  ∀ parsed, exportPayload env signal payload = .ok parsed →
    retries (exportBackend env signal headers) parsed payload w = false

/-- What the transports rely on: a transaction that did nothing is rolled back to where it
began, and the statistics of an ingest count the errors of its payload. -/
structure Backend.Lawful (b : Backend ω) (w : ω) : Prop where
  rollback_start : b.rollback (b.start w) = w
  errors : ∀ parsed text w stats w', b.ingest parsed text w = .ok stats w' →
    stats.errors = parsed.payload.parseErrors

end

/-! ## native tables -/

/-- The statistics of an ingest count the errors of its payload. -/
theorem rawIngestParsedPayload_errors {env : NativeEnv} {db db' : Db}
    (h : rawIngestParsedPayload env parsed db = .ok stats db') :
    stats.errors = parsed.payload.parseErrors := by
  rw [rawIngestParsedPayload] at h
  split at h
  · next s hrun =>
    obtain ⟨rfl, -⟩ := EStateM.Result.ok.inj h
    obtain ⟨_, t, hingest, hfinish⟩ := run_bind_eq_ok.mp hrun
    have hcounted := (counted_finish t (ingestParsed_errors hingest)).1 _ _ hfinish
    exact hcounted.trans (Nat.zero_add _)
  · contradiction

/-- Native tables are lawful where a rollback undoes the start of its transaction. -/
theorem nativeBackend_lawful (env : NativeEnv) {tx : NativeTransactions} {db : Db}
    (h : tx.rollback (tx.start db) = db) : (nativeBackend env tx).Lawful db where
  rollback_start := h
  errors _ _ _ _ _ hingest := rawIngestParsedPayload_errors hingest

/-! ## agreement -/

variable {server : RawServeBindData} {headers params : List (Bytes × Bytes)}

theorem not_authorized_eq (token authorization : Bytes) :
    (!token.isEmpty && !rawTokenEquals authorization (bytes "Bearer " ++ token)) =
      !authorized token authorization := by
  rw [authorized, Bool.not_or]

/-- What no transaction is needed for is answered alike. -/
theorem transportsAgree_of_not_synchronous (hprotobuf : env.protobuf = true)
    (htable : SameTable signal headers) (h : ¬ IsSynchronous env server headers)
    (s : Collector ω) : TransportsAgree env server signal headers params payload s := by
  have hsame := (exportTable_eq_iff signal headers).mpr htable
  obtain ⟨options, hoptions⟩ := resolveTransform_otlp env.registry signal
  cases hauth : authorized server.token (metadataValue headers (bytes "authorization")) with
  | false =>
      refine ⟨_, _, _, s, ?_, ?_, ?_, .unauthenticated (bytes "missing or invalid bearer token")⟩
      · simp only [exportSignal, not_authorized_eq, hauth, Bool.not_false, if_true, run_pure]
      · simp only [postOtlpProtobuf, hauth, Bool.false_eq_true, if_false, run_pure]
      · simp only [postOtlpJson, hauth, Bool.false_eq_true, if_false, run_pure]
  | true =>
      cases halive : env.alive with
      | false =>
          refine ⟨_, _, _, s, ?_, ?_, ?_, .unavailable (bytes "database is no longer available")⟩
          · simp only [exportSignal, not_authorized_eq, hauth, halive, Bool.not_true,
              Bool.not_false, Bool.false_eq_true, if_false, if_true, run_pure]
          · simp only [postOtlpProtobuf, hauth, handleOtlpProtobuf, hprotobuf, halive,
              Bool.not_true, Bool.not_false, Bool.false_eq_true, if_false, if_true, run_pure]
          · simp only [postOtlpJson, hauth, handleIngest, halive, Bool.not_false, if_true, run_pure]
      | true =>
          have hqueued : (server.async || env.asyncInsert) = true := by
            by_contra hnot
            exact h ⟨hauth, halive, Bool.eq_false_iff.mpr hnot⟩
          refine ⟨_, _, _, { s with
            queue := s.queue ++ [(otlpTable signal headers, payload, options)] }, ?_, ?_, ?_,
            .accepted none⟩
          · simp only [exportSignal, not_authorized_eq, hauth, halive, hqueued, Bool.not_true,
              Bool.false_eq_true, if_false, if_true, hsame,
              run_bind_of_ok (run_fromExcept_of_ok hoptions), rawAsyncEnqueue,
              run_bind_of_ok run_modify, run_pure]
          · simp only [postOtlpProtobuf, hauth, handleOtlpProtobuf, hprotobuf, halive, hqueued,
              Bool.not_true, Bool.false_eq_true, if_false, if_true,
              run_bind_of_ok (run_fromExcept_of_ok hoptions), rawAsyncEnqueue,
              run_bind_of_ok run_modify, run_pure]
          · simp only [postOtlpJson, hauth, handleIngest, ingestOptions, halive, hqueued,
              Bool.not_true, Bool.false_eq_true, if_false, if_true,
              run_bind_of_ok (run_fromExcept_of_ok hoptions), rawAsyncEnqueue,
              run_bind_of_ok run_modify, queuedResponse, run_pure, Option.map_none]

/-- A synchronous export is what its transaction comes to, or its group commit. -/
theorem IsSynchronous.run (h : IsSynchronous env server headers) (hprotobuf : env.protobuf = true)
    (htable : SameTable signal headers)
    (hoptions : resolveTransform env.registry (otlpTransform signal) [] = .ok options)
    (params : List (Bytes × Bytes)) (payload : Bytes) (s : Collector ω) :
    exportSignal env server ⟨signal, headers, .ok payload⟩ s =
      onNewConnection (exportBackend env signal headers)
        (exportOn env (exportBackend env signal headers) signal payload) s ∧
    postOtlpProtobuf env server ⟨signal, headers, .ok payload⟩ s =
      tryCatch (ingestOtlpProtobuf env signal (otlpTable signal headers) payload options)
        (fun e => pure (respondOtlpStatus 400 e.message)) s ∧
    postOtlpJson env server signal headers params payload s =
      tryCatch (ingestBody env (some signal) (otlpTable signal headers) params payload)
        (fun e => pure (respondError 400 e.message)) s := by
  obtain ⟨hauth, halive, hsync⟩ := h
  have hsame := (exportTable_eq_iff signal headers).mpr htable
  refine ⟨?_, ?_, ?_⟩
  · simp only [exportSignal, not_authorized_eq, hauth, halive, hsync, Bool.not_true,
      Bool.false_eq_true, if_false, hsame, exportBackend]
  · simp only [postOtlpProtobuf, hauth, handleOtlpProtobuf, hprotobuf, halive, hsync,
      Bool.not_true, Bool.false_eq_true, if_false, if_true,
      run_bind_of_ok (run_fromExcept_of_ok hoptions)]
  · simp only [postOtlpJson, hauth, handleIngest, ingestOptions, halive, hsync, Bool.not_true,
      Bool.false_eq_true, if_false, if_true, run_bind_of_ok (run_fromExcept_of_ok hoptions)]

/-- Both HTTP handlers come to the group commit of the payload. -/
theorem http_of_processed (headers params : List (Bytes × Bytes))
    (hoptions : resolveTransform env.registry (otlpTransform signal) [] = .ok options)
    (hprocess : process env.duck options payload = .ok parsed) (s : Collector ω) :
    ingestOtlpProtobuf env signal (otlpTable signal headers) payload options s =
      (rawIngestGroupCommit (exportBackend env signal headers) parsed payload >>= fun stats =>
        pure { status := 200
               body := .exportResponse signal (partialSuccess stats.errors) }) s ∧
    ingestBody env (some signal) (otlpTable signal headers) params payload s =
      (rawIngestGroupCommit (exportBackend env signal headers) parsed payload >>= fun stats =>
        pure (ingestedResponse (some signal) stats)) s := by
  constructor
  · rw [ingestOtlpProtobuf, run_bind_of_ok (run_fromExcept_of_ok hprocess)]
    rfl
  · rw [ingestBody, ingestOptions, run_bind_of_ok (run_fromExcept_of_ok hoptions),
      run_bind_of_ok (run_fromExcept_of_ok hprocess)]
    rfl

theorem onNewConnection_of_ok {α : Type} {x : OnConnection ω α} {a : α}
    (h : x (.idle s.world) = .ok a (.idle w)) :
    onNewConnection b x s = .ok a { s with world := w } := by
  simp only [onNewConnection, h, closeConnection, if_true]

theorem onNewConnection_of_error {α : Type} {x : OnConnection ω α}
    (h : x (.idle s.world) = .error e (.idle w)) :
    onNewConnection b x s = .error e { s with world := w } := by
  simp only [onNewConnection, h, closeConnection, if_true]

/-- A group commit that is rejected is answered alike over HTTP. -/
theorem http_of_rejected (h : IsSynchronous env server headers) (hprotobuf : env.protobuf = true)
    (htable : SameTable signal headers)
    (hoptions : resolveTransform env.registry (otlpTransform signal) [] = .ok options)
    (hprocess : process env.duck options payload = .ok parsed)
    (params : List (Bytes × Bytes)) {s t : Collector ω}
    (hcommit : rawIngestGroupCommit (exportBackend env signal headers) parsed payload s =
      .error e t) :
    postOtlpProtobuf env server ⟨signal, headers, .ok payload⟩ s =
      .ok (respondOtlpStatus 400 e.message) t ∧
    postOtlpJson env server signal headers params payload s =
      .ok (respondError 400 e.message) t := by
  obtain ⟨-, hhttp, hjson⟩ := h.run hprotobuf htable hoptions params payload s
  obtain ⟨hingest, hbody⟩ := http_of_processed headers params hoptions hprocess s
  rw [hhttp, hjson, run_tryCatch_of_error (hingest.trans (run_bind_of_error hcommit)),
    run_tryCatch_of_error (hbody.trans (run_bind_of_error hcommit))]
  exact ⟨rfl, rfl⟩

/-- A payload that cannot be read is refused alike. -/
theorem transportsAgree_of_unread (h : IsSynchronous env server headers)
    (hprotobuf : env.protobuf = true) (htable : SameTable signal headers)
    (hlawful : (exportBackend env signal headers).Lawful s.world)
    (hoptions : resolveTransform env.registry (otlpTransform signal) [] = .ok options)
    (hprocess : process env.duck options payload = .error e) (params : List (Bytes × Bytes)) :
    TransportsAgree env server signal headers params payload s := by
  obtain ⟨hgrpc, hhttp, hjson⟩ := h.run hprotobuf htable hoptions params payload s
  have hexport : exportOn env (exportBackend env signal headers) signal payload
      (.idle s.world) = .ok (failedExport .invalidArgument e.message) (.idle s.world) := by
    rw [exportOn_of_failed hoptions (rawIngestPayload_of_error hprocess _),
      hlawful.rollback_start]
  have hingest : ingestOtlpProtobuf env signal (otlpTable signal headers) payload options s =
      .error e s := run_bind_of_error (run_fromExcept_of_error hprocess)
  have hbody : ingestBody env (some signal) (otlpTable signal headers) params payload s =
      .error e s := by
    rw [ingestBody, ingestOptions, run_bind_of_ok (run_fromExcept_of_ok hoptions)]
    exact run_bind_of_error (run_fromExcept_of_error hprocess)
  refine ⟨_, _, _, s, hgrpc.trans (onNewConnection_of_ok hexport), ?_, ?_, .refused e.message⟩
  · rw [hhttp, run_tryCatch_of_error hingest]
    rfl
  · rw [hjson, run_tryCatch_of_error hbody]
    rfl

/-- A payload whose ingest raises is refused alike, unless it has its retry. -/
theorem transportsAgree_of_failed (h : IsSynchronous env server headers)
    (hprotobuf : env.protobuf = true) (htable : SameTable signal headers)
    (hoptions : resolveTransform env.registry (otlpTransform signal) [] = .ok options)
    (hprocess : process env.duck options payload = .ok parsed)
    (hingest : (exportBackend env signal headers).ingest parsed payload
      ((exportBackend env signal headers).start s.world) = .error e w₁)
    (hkind : e.kind ≠ .transaction) (params : List (Bytes × Bytes)) :
    TransportsAgree env server signal headers params payload s := by
  have hfailed : rawIngestPayload (exportBackend env signal headers) env.duck (payload, options)
      { autoCommit := false, world := (exportBackend env signal headers).start s.world } =
        .error e { autoCommit := false, world := w₁ } := by
    rw [rawIngestPayload_of_ok hprocess]
    simp only [ingestOn, hingest]
  obtain ⟨hgrpc, -, -⟩ := h.run hprotobuf htable hoptions params payload s
  obtain ⟨hhttp, hjson⟩ := http_of_rejected h hprotobuf htable hoptions hprocess params
    (rawIngestGroupCommit_of_failed hingest hkind)
  exact ⟨_, _, _, _, hgrpc.trans (onNewConnection_of_ok (exportOn_of_failed hoptions hfailed)),
    hhttp, hjson, .refused e.message⟩

/-- A payload that is ingested is accepted alike, exactly when its commit returns. -/
theorem transportsAgree_of_ingested (h : IsSynchronous env server headers)
    (hprotobuf : env.protobuf = true) (htable : SameTable signal headers)
    (hlawful : (exportBackend env signal headers).Lawful s.world)
    (hoptions : resolveTransform env.registry (otlpTransform signal) [] = .ok options)
    (hprocess : process env.duck options payload = .ok parsed)
    (hingest : (exportBackend env signal headers).ingest parsed payload
      ((exportBackend env signal headers).start s.world) = .ok stats w₁)
    (params : List (Bytes × Bytes)) :
    TransportsAgree env server signal headers params payload s ↔
      ¬ CommitRaises (exportBackend env signal headers)
        (commitPoint (exportBackend env signal headers) w₁) := by
  have herrors : stats.errors = parsed.payload.parseErrors := hlawful.errors _ _ _ _ _ hingest
  obtain ⟨hgrpc, hhttp, hjson⟩ := h.run hprotobuf htable hoptions params payload s
  rcases exportOn_of_ingested hoptions hprocess hingest with ⟨hexport, hn⟩ | ⟨e, hexport, hr⟩
  · refine iff_of_true ?_ hn
    rcases rawIngestGroupCommit_of_ingested hingest with ⟨hgroup, -⟩ | ⟨e, -, hr⟩
    · obtain ⟨hingested, hbody⟩ := http_of_processed headers params hoptions hprocess s
      refine ⟨_, _, _, _, hgrpc.trans (onNewConnection_of_ok hexport), ?_, ?_,
        .accepted (partialSuccess stats.errors)⟩
      · rw [hhttp, run_tryCatch_of_ok (hingested.trans (run_bind_of_ok hgroup)), herrors]
        rfl
      · rw [hjson, run_tryCatch_of_ok (hbody.trans (run_bind_of_ok hgroup)), herrors]
        rfl
    · exact absurd hr hn
  · -- the handler of `ExportSignal` raises, and nothing is answered
    refine iff_of_false ?_ (not_not_intro hr)
    rintro ⟨exported, -, -, t, hok, -⟩
    rw [hgrpc, onNewConnection_of_error hexport] at hok
    contradiction

/-- **One export over three transports**: where the headers name the same table to both
protocols and no transaction conflicts, gRPC, HTTP with protobuf and HTTP with JSON leave the
same and answer alike, exactly when the commit they come to returns. -/
theorem otlpTransports_agree_iff (env : CollectorEnv ω) (server : RawServeBindData)
    (signal : Signal) (headers params : List (Bytes × Bytes)) (payload : Bytes)
    (s : Collector ω) (hprotobuf : env.protobuf = true) (htable : SameTable signal headers)
    (hlawful : (exportBackend env signal headers).Lawful s.world)
    (hquiet : NoConflict env signal headers payload s.world) :
    TransportsAgree env server signal headers params payload s ↔
      ¬ (IsSynchronous env server headers ∧ CommitRaises (exportBackend env signal headers)
        (exportCommit env signal headers payload s.world)) := by
  by_cases hsync : IsSynchronous env server headers
  · obtain ⟨options, hoptions⟩ := resolveTransform_otlp env.registry signal
    have hpayload : exportPayload env signal payload = process env.duck options payload := by
      rw [exportPayload, hoptions]
      rfl
    rw [and_iff_right hsync, exportCommit, hpayload]
    cases hprocess : process env.duck options payload with
    | error e =>
        exact iff_of_true
          (transportsAgree_of_unread hsync hprotobuf htable hlawful hoptions hprocess params)
          not_commitRaises_none
    | ok parsed =>
        dsimp only [ingestCommit]
        cases hingest : (exportBackend env signal headers).ingest parsed payload
            ((exportBackend env signal headers).start s.world) with
        | error e w₁ =>
            have hkind : e.kind ≠ .transaction := by
              have hretry := hquiet parsed (hpayload.trans hprocess)
              simp only [retries, hingest] at hretry
              exact of_decide_eq_false hretry
            exact iff_of_true
              (transportsAgree_of_failed hsync hprotobuf htable hoptions hprocess hingest hkind
                params) not_commitRaises_none
        | ok stats w₁ =>
            exact transportsAgree_of_ingested hsync hprotobuf htable hlawful hoptions hprocess
              hingest params
  · exact iff_of_true (transportsAgree_of_not_synchronous hprotobuf htable hsync s)
      fun h => hsync h.1

/-! ## one span -/

/-- An export of one span, as JSON. -/
def spanText : Bytes :=
  bytes "\x7b\"resourceSpans\":[\x7b\"scopeSpans\":[\x7b\"spans\":[" ++
    bytes "\x7b\"name\":\"a\"\x7d]\x7d]\x7d]\x7d"

/-- The export as a value. -/
def spanExport : Json :=
  .obj [(bytes "resourceSpans", .arr [.obj [(bytes "scopeSpans",
    .arr [.obj [(bytes "spans", .arr [.obj [(bytes "name", .str (bytes "a"))]])]])]])]

/-- The small DuckDB, which reads it. -/
def spanDuck : Duck := tableDuck [(spanText, spanExport)]

/-- A collector over native tables, with no table yet. -/
def spanEnv : CollectorEnv Db where
  duck := spanDuck
  registry := []
  alive := true
  asyncInsert := false
  protobuf := true
  backend := fun target =>
    nativeBackend { smallEnv with duck := spanDuck, target } (quietTransactions emptyDb)

/-- A token, and a table for the traces. -/
def spanHeaders : List (Bytes × Bytes) :=
  [(bytes "authorization", bytes "Bearer a"), (bytes "x-rawduck-traces-table", bytes "t")]

/-- A span that is sent to a server with a token makes a table of one row. -/
theorem otlpTransports_agree_span :
    TransportsAgree spanEnv { token := bytes "a" } .traces spanHeaders [] spanText
        ⟨[], emptyDb⟩ ∧
      ∃ t, exportSignal spanEnv { token := bytes "a" } ⟨.traces, spanHeaders, .ok spanText⟩
          ⟨[], emptyDb⟩ = .ok { code := .ok, message := [], partialSuccess := none } t ∧
        t.world.table.map (fun table => (table.2.columns.map Column.name, table.2.rows)) =
          some ([bytes "name"], [[.varchar (bytes "a")]]) := by
  have htable : SameTable .traces spanHeaders := by
    intro h
    contradiction
  refine ⟨(otlpTransports_agree_iff spanEnv { token := bytes "a" } .traces spanHeaders []
    spanText ⟨[], emptyDb⟩ rfl htable (nativeBackend_lawful _ rfl) ?_).mpr ?_, _, rfl, rfl⟩
  · intro parsed hparsed
    obtain rfl := Except.ok.inj (hparsed.symm.trans (show _ = Except.ok _ from rfl))
    rfl
  · rintro ⟨-, hraises⟩
    exact not_commitRaises_quiet emptyDb _ hraises

end RawDuck
