import RawDuck.Fit
import RawDuck.GroupCommit
import RawDuck.MergedIngest
import RawDuck.Signature

/-!
# RawDuck.GroupOutcome

What the requests of a group commit on a native table get.  The batch is one
payload in one transaction, so its requests fail together; when they do not, each
reports the rows it came with.

* `nativeBackend` — the transactions of a native database around an ingest;
* `combined_rows` — the merged payload reads as the rows of the requests, one
  request after the other;
* `groupCommit_outcomes` — a request fails only with the batch, and otherwise the
  rows it reports are in the table, unless the batch has no column;
* `groupCommit_storesSerially_iff` — exactly when the values of all requests are
  stored as if the requests were ingested one after another.
-/

namespace RawDuck

open Fallible

/-! ## native transactions -/

/-- DuckDB's side of the transactions of a native database: what a transaction
finds when it starts, whether it is invalidated, the conflict its commit may meet,
and what is left when it is rolled back. -/
structure NativeTransactions where
  start : Db → Db
  invalidated : Db → Bool
  conflict : Db → Option RawError
  rollback : Db → Db

/-- A native target. -/
def nativeBackend (env : NativeEnv) (tx : NativeTransactions) : Backend Db where
  start := tx.start
  ingest parsed _ := rawIngestParsedPayload env parsed
  invalidated := tx.invalidated
  commit db :=
    match tx.conflict db with
    | some e => .error e (tx.rollback db)
    | none => .ok ⟨⟩ db
  rollback := tx.rollback

/-- A request: its payload, parsed, and its text. -/
structure GroupRequest (duck : Duck) where
  payload : ProcessedPayload duck
  text : Bytes

/-- The item a request is queued as. -/
def GroupRequest.item {duck : Duck} (r : GroupRequest duck) : PendingItem :=
  .create r.payload.toRawParsedPayload r.text

/-- The payloads of requests. -/
abbrev payloadsOf {duck : Duck} (requests : List (GroupRequest duck)) :
    List (ProcessedPayload duck) :=
  requests.map GroupRequest.payload

section

variable (env : NativeEnv) (tx : NativeTransactions) (first : GroupRequest env.duck)
  (rest : List (GroupRequest env.duck)) (w : Db)

/-- The payload of a batch of requests. -/
def combinedRequests : RawParsedPayload :=
  combinedPayload first.item (rest.map GroupRequest.item)

/-- The database that the deciding attempt of a batch finds. -/
def batchStart : Db := batchWorld (nativeBackend env tx) first.item (rest.map GroupRequest.item) w

/-- The database that a batch commits, if it comes to a commit. -/
def batchCommitted : Option Db :=
  batchCommit (nativeBackend env tx) first.item (rest.map GroupRequest.item) w

end

section

variable {env : NativeEnv} {tx : NativeTransactions} {first : GroupRequest env.duck}
  {rest : List (GroupRequest env.duck)} {w : Db}

theorem combinedRequests_eq (first : GroupRequest env.duck) (rest : List (GroupRequest env.duck)) :
    combinedRequests env first rest = mergedPayload first.payload (payloadsOf rest) := by
  rw [combinedRequests, combinedPayload, mergedPayload, List.map_map, List.map_map]
  rfl

/-- What a batch commits is what the ingest of its payload left. -/
theorem ingest_of_batchCommitted {after : Db}
    (h : batchCommitted env tx first rest w = some after) :
    ∃ stats, rawIngestParsedPayload env (combinedRequests env first rest)
      (batchStart env tx first rest w) = .ok stats after := by
  rw [batchCommitted, batchCommit, ingestCommit] at h
  cases hingest : (nativeBackend env tx).ingest
      (combinedPayload first.item (rest.map GroupRequest.item))
      (combinedText first.item (rest.map GroupRequest.item))
      (batchWorld (nativeBackend env tx) first.item (rest.map GroupRequest.item) w) with
  | error e db =>
      rw [hingest] at h
      contradiction
  | ok stats db =>
      rw [hingest] at h
      dsimp only [commitPoint] at h
      split at h
      · contradiction
      · obtain rfl := Option.some.inj h
        exact ⟨stats, hingest⟩

/-! ## the rows of each request -/

/-- The rows that joined the table are those of the requests, one request after
the other, each row read with the layout of the batch. -/
def AddsOwnRows (env : NativeEnv) (combined : RawParsedPayload)
    (requests : List (GroupRequest env.duck)) (before after : Db) : Prop :=
  ∃ ready token table layout blocks, SchemaReady env combined before ready ∧
    ready.table = some (token, table) ∧ table.rows.length = before.rowCount ∧
    resolveAppendLayout table combined.columns = .ok layout ∧
    after.table = some (token, { table with rows := table.rows ++ blocks.flatten }) ∧
    List.Forall₂ (fun r block =>
      r.payload.payload.rows.mapM (newRow env.duck layout combined) = .ok block) requests blocks

/-- What is read from the rows of all requests is read from those of each. -/
theorem combined_rows {layout : AppendLayout} {combined : RawParsedPayload}
    (requests : List (GroupRequest env.duck)) {new : List (List Cell)}
    (h : (rowsOf (payloadsOf requests)).mapM (newRow env.duck layout combined) = .ok new) :
    ∃ blocks, new = blocks.flatten ∧ List.Forall₂ (fun r block =>
      r.payload.payload.rows.mapM (newRow env.duck layout combined) = .ok block)
        requests blocks := by
  induction requests generalizing new with
  | nil =>
      obtain rfl := pure_eq_ok.mp h
      exact ⟨[], rfl, .nil⟩
  | cons r requests ih =>
      rw [rowsOf, payloadsOf, List.map_cons, List.flatMap_cons] at h
      obtain ⟨block, others, hblock, hothers, rfl⟩ := mapM_append_eq_ok.mp h
      obtain ⟨blocks, rfl, hblocks⟩ := ih hothers
      exact ⟨block :: blocks, rfl, .cons hblock hblocks⟩

/-- A merged payload with columns adds the rows of every request. -/
theorem addsOwnRows_of_ok {before after : Db} {stats : RawIngestStats} (hwf : before.WF)
    (hcols : (combinedRequests env first rest).columns ≠ [])
    (h : rawIngestParsedPayload env (combinedRequests env first rest) before = .ok stats after) :
    AddsOwnRows env (combinedRequests env first rest) (first :: rest) before after := by
  rw [combinedRequests_eq] at hcols h ⊢
  cases mergedPayload_ingested hwf h with
  | skipped hnone => exact absurd hnone hcols
  | @appended ready created added widened token table layout new _ houtcome htable _ _ hlayout
      hnew =>
      have hnames : CiDistinct (mergedPayload first.payload (payloadsOf rest)).columns := by
        rw [columns_mergedPayload]
        exact first.payload.ciDistinct
      have hcount := houtcome.rowCount hwf hnames
      rw [rowCount_of_table htable] at hcount
      rw [newRows, rows_mergedPayload] at hnew
      obtain ⟨blocks, rfl, hblocks⟩ := combined_rows (first :: rest) hnew
      exact ⟨ready, token, table, layout, blocks, ⟨created, added, widened, houtcome⟩, htable,
        hcount, hlayout, rfl, hblocks⟩

/-! ## the outcome of a batch -/

/-- What a request of a batch gets: an error is that of the merged ingest; otherwise
it reports its own rows, and if the transaction is committed and the batch has a
column, they are in the table. -/
structure Outcome (env : NativeEnv) (tx : NativeTransactions) (first : GroupRequest env.duck)
    (rest : List (GroupRequest env.duck)) (w : Db) (r : GroupRequest env.duck)
    (item : PendingItem) : Prop where
  failed : ∀ e, item.answer = .error e → ∃ e' db',
    rawIngestParsedPayload env (combinedRequests env first rest) (batchStart env tx first rest w) =
      .error e' db' ∧ e.message = e'.message
  served : ∀ stats, item.answer = .ok stats → stats.rows = r.payload.payload.rows.length ∧
    ∀ after, batchCommitted env tx first rest w = some after →
      (combinedRequests env first rest).columns ≠ [] →
      AddsOwnRows env (combinedRequests env first rest) (first :: rest)
        (batchStart env tx first rest w) after

theorem Outcome.of_batchEnd {mark : PendingItem → PendingItem}
    (hwf : (batchStart env tx first rest w).WF)
    (hend : BatchEnd (nativeBackend env tx) first.item (rest.map GroupRequest.item) w mark)
    (r : GroupRequest env.duck) : Outcome env tx first rest w r (mark r.item) := by
  cases hend with
  | @committed stats db' hingest =>
      constructor
      · exact fun e he => nomatch he
      · intro answer hanswer
        obtain rfl := Except.ok.inj hanswer
        refine ⟨rfl, fun after hcommit hcols => ?_⟩
        obtain ⟨stats', hafter⟩ := ingest_of_batchCommitted hcommit
        exact addsOwnRows_of_ok hwf hcols hafter
  | @rejected e db' hingest =>
      constructor
      · intro e' he'
        obtain rfl := Except.error.inj he'
        exact ⟨e, db', hingest, rfl⟩
      · exact fun stats hstats => nomatch hstats

/-- The leader at work on these requests, with what arrives in each round. -/
def leadRequests (env : NativeEnv) (tx : NativeTransactions)
    (arrivals : List (List (GroupRequest env.duck))) (pending : List (GroupRequest env.duck))
    (w : Db) : EStateM.Result RawError (Leading Db) PUnit :=
  leadCommits (nativeBackend env tx) (arrivals.map (List.map GroupRequest.item))
    (.create w (pending.map GroupRequest.item))

/-- The batches a leader takes: a later one is taken when the commits before it returned. -/
inductive TakesBatch (env : NativeEnv) (tx : NativeTransactions) :
    List (List (GroupRequest env.duck)) → List (GroupRequest env.duck) → Db →
      GroupRequest env.duck → List (GroupRequest env.duck) → Db → Prop where
  | here {arrivals : List (List (GroupRequest env.duck))} {first : GroupRequest env.duck}
      {rest : List (GroupRequest env.duck)} {w : Db} :
      TakesBatch env tx arrivals (first :: rest) w first rest w
  | later {arrived : List (GroupRequest env.duck)}
      {arrivals : List (List (GroupRequest env.duck))} {first : GroupRequest env.duck}
      {rest : List (GroupRequest env.duck)} {w : Db} {first' : GroupRequest env.duck}
      {rest' : List (GroupRequest env.duck)} {w' : Db} :
      ¬ CommitRaises (nativeBackend env tx) (batchCommitted env tx first rest w) →
      TakesBatch env tx arrivals arrived
        (worldAfter (nativeBackend env tx) first.item (rest.map GroupRequest.item) w)
        first' rest' w' →
      TakesBatch env tx (arrived :: arrivals) (first :: rest) w first' rest' w'

section

variable {arrivals : List (List (GroupRequest env.duck))} {pending : List (GroupRequest env.duck)}
  {s : Leading Db}

/-- What is resolved stays so. -/
theorem resolved_leadCommits {b : Backend Db} (arrivals : List (List PendingItem))
    (h : BetweenRounds s w) :
    ∃ after, (finalState (leadCommits b arrivals s)).resolved = s.resolved ++ after := by
  have hturn : LeadTurn b s w arrivals := leadTurn h arrivals
  induction arrivals generalizing s w with
  | nil =>
      cases hturn with
      | releases _ hrun => exact ⟨[], by rw [hrun, List.append_nil]; rfl⟩
      | raises _ _ hrun => exact ⟨[], by rw [hrun, List.append_nil]; rfl⟩
      | last _ _ _ hrun => exact ⟨_, by rw [hrun]; rfl⟩
  | cons arrived arrivals ih =>
      cases hturn with
      | releases _ hrun => exact ⟨[], by rw [hrun, List.append_nil]; rfl⟩
      | raises _ _ hrun => exact ⟨[], by rw [hrun, List.append_nil]; rfl⟩
      | goesOn _ hend _ hrun =>
          have hnext := h.next hend arrived
          obtain ⟨after, hafter⟩ := ih hnext (leadTurn hnext arrivals)
          rw [hrun, hafter, List.append_assoc]
          exact ⟨_, rfl⟩

/-- How a batch ends: its commit returns and its requests are resolved, or it raises, which
ends the leader with the batch unresolved. -/
theorem batchEnd_of_takesBatch {first : GroupRequest env.duck}
    {rest : List (GroupRequest env.duck)} {w' : Db}
    (h : TakesBatch env tx arrivals pending w first rest w')
    (hs : BetweenRounds s w) (hpending : s.pending = pending.map GroupRequest.item) :
    (¬ CommitRaises (nativeBackend env tx) (batchCommitted env tx first rest w') ∧
      ∃ before mark after,
        BatchEnd (nativeBackend env tx) first.item (rest.map GroupRequest.item) w' mark ∧
        (finalState (leadCommits (nativeBackend env tx)
          (arrivals.map (List.map GroupRequest.item)) s)).resolved =
            before ++ (first :: rest).map (fun r => mark r.item) ++ after) ∨
    (CommitRaises (nativeBackend env tx) (batchCommitted env tx first rest w') ∧
      ∃ e t, leadCommits (nativeBackend env tx) (arrivals.map (List.map GroupRequest.item)) s =
        .error e t ∧ t.batch = (first :: rest).map GroupRequest.item) := by
  induction h generalizing s with
  | @here arrivals first rest w =>
      have hmarks : ∀ mark : PendingItem → PendingItem,
          (first.item :: rest.map GroupRequest.item).map mark =
            (first :: rest).map fun r => mark r.item := by
        intro mark
        rw [List.map_cons, List.map_cons, List.map_map]
        rfl
      rw [List.map_cons] at hpending
      have hturn := leadTurn (b := nativeBackend env tx) hs (arrivals.map (List.map GroupRequest.item))
      generalize arrivals.map (List.map GroupRequest.item) = arrived at hturn ⊢
      cases hturn with
      | releases hnil => exact absurd (hpending.symm.trans hnil) (List.cons_ne_nil _ _)
      | raises hpending' hraise hrun =>
          obtain ⟨rfl, rfl⟩ := List.cons.inj (hpending.symm.trans hpending')
          exact .inr ⟨hraise, _, _, hrun, rfl⟩
      | @last first' rest' mark hpending' hend hreturn hrun =>
          obtain ⟨rfl, rfl⟩ := List.cons.inj (hpending.symm.trans hpending')
          refine .inl ⟨hreturn, s.resolved, mark, [], hend, ?_⟩
          rw [hrun, List.append_nil, ← hmarks mark]
          rfl
      | @goesOn arrived arrivals first' rest' mark hpending' hend hreturn hrun =>
          obtain ⟨rfl, rfl⟩ := List.cons.inj (hpending.symm.trans hpending')
          obtain ⟨after, hafter⟩ := @resolved_leadCommits _ _ (nativeBackend env tx) arrivals
            (hs.next hend arrived)
          refine .inl ⟨hreturn, s.resolved, mark, after, hend, ?_⟩
          rw [hrun, hafter, ← hmarks mark]
  | @later arrived arrivals first rest w first' rest' w' hreturned _ ih =>
      rw [List.map_cons] at hpending
      rw [List.map_cons]
      cases leadTurn (b := nativeBackend env tx) hs (arrived.map GroupRequest.item ::
        arrivals.map (List.map GroupRequest.item)) with
      | releases hnil => exact absurd (hpending.symm.trans hnil) (List.cons_ne_nil _ _)
      | raises hpending' hraise =>
          obtain ⟨rfl, rfl⟩ := List.cons.inj (hpending.symm.trans hpending')
          exact absurd hraise hreturned
      | goesOn hpending' hend _ hrun =>
          obtain ⟨rfl, rfl⟩ := List.cons.inj (hpending.symm.trans hpending')
          rw [hrun]
          exact ih (hs.next hend (arrived.map GroupRequest.item)) rfl

/-- A leader raises only where the commit of a batch it took does. -/
theorem commitRaises_of_leadCommits {e : RawError} {t : Leading Db} (hs : BetweenRounds s w)
    (hpending : s.pending = pending.map GroupRequest.item)
    (h : leadCommits (nativeBackend env tx) (arrivals.map (List.map GroupRequest.item)) s =
      .error e t) :
    ∃ first rest w', TakesBatch env tx arrivals pending w first rest w' ∧
      CommitRaises (nativeBackend env tx) (batchCommitted env tx first rest w') := by
  induction arrivals generalizing pending s w with
  | nil =>
      cases leadTurn (b := nativeBackend env tx) hs [] with
      | releases _ hrun => exact absurd (h.symm.trans hrun) (by rintro ⟨⟩)
      | last _ _ _ hrun => exact absurd (h.symm.trans hrun) (by rintro ⟨⟩)
      | raises hpending' hraise =>
          obtain ⟨first, rest, rfl, rfl, rfl⟩ :=
            List.map_eq_cons_iff.mp (hpending.symm.trans hpending')
          exact ⟨first, rest, w, .here, hraise⟩
  | cons arrived arrivals ih =>
      rw [List.map_cons] at h
      cases leadTurn (b := nativeBackend env tx) hs (arrived.map GroupRequest.item ::
        arrivals.map (List.map GroupRequest.item)) with
      | releases _ hrun => exact absurd (h.symm.trans hrun) (by rintro ⟨⟩)
      | raises hpending' hraise =>
          obtain ⟨first, rest, rfl, rfl, rfl⟩ :=
            List.map_eq_cons_iff.mp (hpending.symm.trans hpending')
          exact ⟨first, rest, w, .here, hraise⟩
      | goesOn hpending' hend hreturned hrun =>
          obtain ⟨first, rest, rfl, rfl, rfl⟩ :=
            List.map_eq_cons_iff.mp (hpending.symm.trans hpending')
          obtain ⟨first', rest', w', htakes, hraise⟩ :=
            ih (hs.next hend (arrived.map GroupRequest.item)) rfl (hrun.symm.trans h)
          exact ⟨first', rest', w', .later hreturned htakes, hraise⟩

end

/-- **The values of a batch**: a group commit that comes to its commit stores every
value of every request as the requests one after another would, exactly when, for each
value that is not null, the first request has settled the type of its column and its own
path in that column leads to a value that is written alike. -/
theorem groupCommit_storesSerially_iff (env : NativeEnv) (tx : NativeTransactions)
    (first : GroupRequest env.duck) (rest : List (GroupRequest env.duck)) {w after serial : Db}
    {answers : List RawIngestStats} (hwf : (batchStart env tx first rest w).WF)
    (hcommit : batchCommitted env tx first rest w = some after)
    (hserial : ingestPayloads env
      ((payloadsOf (first :: rest)).map (·.toRawParsedPayload)) (batchStart env tx first rest w) =
        .ok answers serial) :
    (∀ done r tail, first :: rest = done ++ r :: tail →
      ∀ k row, r.payload.payload.rows[k]? = some row →
      ∀ c ∈ r.payload.columns, isAbsent (row.valueAt c.path) = false →
        StoredAlike after serial c.name
          ((batchStart env tx first rest w).rowCount + (rowsOf (payloadsOf done)).length + k)
          ((batchStart env tx first rest w).rowCount + storedOf (payloadsOf done) + k)) ↔
    ∀ r ∈ first :: rest, ∀ row ∈ r.payload.payload.rows,
      ∀ c ∈ r.payload.columns, isAbsent (row.valueAt c.path) = false →
        ReadAlike env.duck (batchStart env tx first rest w).schema first.payload.columns
          ((payloadsOf rest).map (·.columns)) r.payload.columns c.name row := by
  obtain ⟨stats, hmerged⟩ := ingest_of_batchCommitted hcommit
  rw [combinedRequests_eq] at hmerged
  have hvalue : ∀ done r tail, first :: rest = done ++ r :: tail →
      ∀ k row, r.payload.payload.rows[k]? = some row → ∀ c ∈ r.payload.columns,
        (StoredAlike after serial c.name
            ((batchStart env tx first rest w).rowCount + (rowsOf (payloadsOf done)).length + k)
            ((batchStart env tx first rest w).rowCount + storedOf (payloadsOf done) + k) ↔
          ReadAlike env.duck (batchStart env tx first rest w).schema first.payload.columns
            ((payloadsOf rest).map (·.columns)) r.payload.columns c.name row) := by
    intro done r tail hsplit k row hrow c hc
    have hpayloads : first.payload :: payloadsOf rest =
        payloadsOf done ++ r.payload :: payloadsOf tail := by
      have h := congrArg payloadsOf hsplit
      rwa [payloadsOf, payloadsOf, List.map_append] at h
    have hmem : r.payload ∈ first.payload :: payloadsOf rest := by
      rw [hpayloads]
      exact List.mem_append_right _ List.mem_cons_self
    exact storedAlike_iff hwf hmerged hserial _ _ hpayloads (List.ne_nil_of_mem hc)
      (ingestPayloads_typeOf _ hwf hserial hmem hc) hrow
  constructor
  · intro h r hr row hrow c hc hpresent
    obtain ⟨done, tail, hsplit⟩ := List.append_of_mem hr
    obtain ⟨k, hk⟩ := List.getElem?_of_mem hrow
    exact (hvalue done r tail hsplit k row hk c hc).mp (h done r tail hsplit k row hk c hc hpresent)
  · intro h done r tail hsplit k row hrow c hc hpresent
    have hr : r ∈ first :: rest := by
      rw [hsplit]
      exact List.mem_append_right _ List.mem_cons_self
    exact (hvalue done r tail hsplit k row hrow c hc).mpr
      (h r hr row (List.mem_of_getElem? hrow) c hc hpresent)

end

/-! ## batches of two -/

/-- Transactions without conflicts over this database. -/
def quietTransactions (db : Db) : NativeTransactions where
  start := id
  invalidated _ := false
  conflict _ := none
  rollback _ := db

theorem not_commitRaises_quiet {env : NativeEnv} (db : Db) (reached : Option Db) :
    ¬ CommitRaises (nativeBackend env (quietTransactions db)) reached := by
  rintro ⟨w, e, w', -, h⟩
  contradiction

/-- `{"a":1}`, `{}` and `{"b":2}`. -/
def oneRequest : GroupRequest smallDuck := { payload := oneRow, text := [] }

def emptyRequest : GroupRequest smallDuck := { payload := emptyRow, text := [] }

def otherRequest : GroupRequest smallDuck := { payload := numberPayload "b" 2 rfl, text := [] }

/-- `{"é":1}` and `{"a":1}`. -/
def accentRequest : GroupRequest accentEnv.duck where
  payload := .ofRows accentEnv.duck [.obj [([195, 169], .uint 1)]] accentParsed.columns rfl rfl
  text := accentText

def asciiRequest : GroupRequest accentEnv.duck where
  payload := .ofRows accentEnv.duck [.obj [(bytes "a", .uint 1)]]
    [{ name := bytes "a", path := [bytes "a"], type := .BIGINT, node := [0] }]
    ProcessedPayload.uniform_integerRow rfl
  text := asciiText

/-- `{"a":1}` twice: both values are stored. -/
theorem groupCommit_storesSerially_two :
    ∃ after serial answers,
      batchCommitted smallEnv (quietTransactions columnDb) oneRequest [oneRequest] columnDb =
        some after ∧
      ingestPayloads smallEnv [oneRow.toRawParsedPayload, oneRow.toRawParsedPayload] columnDb =
        .ok answers serial ∧
      StoredAlike after serial (bytes "a") 1 1 := by
  have hiff := fun after serial answers => @groupCommit_storesSerially_iff smallEnv
    (quietTransactions columnDb) oneRequest [oneRequest] columnDb after serial answers wf_columnDb
  refine ⟨_, _, _, rfl, rfl, ?_⟩
  refine (hiff _ _ _ rfl rfl).mpr ?_ [oneRequest] oneRequest [] rfl 0 _ rfl _
    List.mem_cons_self rfl
  intro r hr row hrow c hc _
  obtain rfl : r = oneRequest := by
    rcases List.mem_cons.mp hr with rfl | hr
    · rfl
    · exact List.mem_singleton.mp hr
  obtain rfl := List.mem_singleton.mp hrow
  obtain rfl := List.mem_singleton.mp hc
  exact ⟨List.cons_ne_nil _ _, .BIGINT, ⟨rfl, rfl⟩, rfl⟩

/-- `{"a":1}` and `{"b":2}`: one after another they leave the 2 in a column `b`, merged
they leave no such column. -/
theorem groupCommit_losesColumn :
    ∃ after serial answers,
      batchCommitted smallEnv (quietTransactions columnDb) oneRequest [otherRequest] columnDb =
        some after ∧
      ingestPayloads smallEnv
        [oneRow.toRawParsedPayload, otherRequest.payload.toRawParsedPayload] columnDb =
          .ok answers serial ∧
      serial.cellAt 1 (bytes "b") = some (.bigint 2) ∧ after.typeOf (bytes "b") = none :=
  ⟨_, _, _, rfl, rfl, rfl, rfl⟩

end RawDuck
