import RawDuck.Coordinator

/-!
# RawDuck.CommitOnce

`RawIngestGroupCommit` for one spelling of a target, down to the single writes with
which a leader resolves an item: they are made without the lock, `done` first, and
a waiting call may look at its item between them.

A leader drains the queue into a batch, ingests it in a transaction, once more after
a `TransactionException`, commits or rolls back, and resolves the items.

* `PendingItem.writes_eq_resolve` — the writes together are the resolution of the
  item;
* `Accounted` — which request is where, and what its item says;
* `targetCommits_exactlyOnce_iff` — each request is in one batch and in one committed
  transaction at most, and is answered with success exactly when that transaction
  committed: throughout a run exactly when nobody reads an item of a failed batch
  between the writes of `done` and `failed`.
-/

namespace RawDuck

open Transition Transition.System

/-! ## the system -/

/-- How an attempt to ingest a batch ends; a commit that is reached succeeds. -/
inductive AttemptOutcome where
  | succeeds (stats : RawIngestStats)
  /-- A `TransactionException`. -/
  | conflicts (message : Bytes)
  | fails (message : Bytes)

/-- Where a transaction of a leader stands. -/
inductive TransactionStatus where
  | running
  | committed
  | rolledBack
  deriving DecidableEq, Repr

/-- An item in the queue: the number of its request, and its payload. -/
structure QueuedItem where
  request : Nat
  parsed : RawParsedPayload

/-- A batch a leader took, its merged payload and the transactions that ingested
it. -/
structure DrainedBatch where
  items : List QueuedItem
  payload : RawParsedPayload
  transactions : List TransactionStatus

/-- The next write to an item. -/
inductive MarkWrite where
  | done
  | failed
  | message
  | stats
  deriving DecidableEq, Repr

/-- Where a call stands. -/
inductive RequestPhase where
  /-- In `cv.wait` until its item is done. -/
  | waiting
  /-- The leader, before it looks at the queue. -/
  | lingering
  /-- The leader, ingesting the batch of this number, for the second time or not. -/
  | ingesting (batch : Nat) (retried : Bool)
  /-- The leader, the items it has not resolved, and the next write to the first. -/
  | marking (batch : Nat) (outcome : BatchOutcome) (todo : List Nat) (write : MarkWrite)
  /-- Past `guard.unlock()`. -/
  | leaving
  /-- Its result is settled; still counted in `active`. -/
  | answered (result : Except RawError RawIngestStats)
  | returned (result : Except RawError RawIngestStats)

/-- A call with its item. -/
structure Request where
  item : PendingItem
  phase : RequestPhase

/-- `RawCommitCoordinator` for one target, with the calls and the batches so far. -/
structure TargetCoordinator where
  requests : List Request
  pending : List QueuedItem
  committing : Bool
  active : Nat
  batches : List DrainedBatch

/-- A critical section, or a step of a call without the lock. -/
inductive TargetEvent where
  | enter (parsed : RawParsedPayload) (payload : Bytes)
  /-- A lingering leader takes the lock again. -/
  | wake (request : Nat)
  /-- An attempt of a leader ends. -/
  | attempt (request : Nat) (outcome : AttemptOutcome)
  /-- The next write of a leader to an item. -/
  | mark (request : Nat)
  /-- A leader that has resolved its batch takes the lock again. -/
  | relock (request : Nat)
  /-- A waiting call finds its item done. -/
  | resume (request : Nat)
  /-- A call reads its item. -/
  | answer (request : Nat)
  /-- `~ActiveGuard`. -/
  | exit (request : Nat)

/-- What a batch makes of `failed`. -/
def BatchOutcome.isFailure : BatchOutcome → Bool
  | .ok _ => false
  | .error _ => true

/-- One write to an item. -/
def PendingItem.write (outcome : BatchOutcome) (write : MarkWrite) (item : PendingItem) :
    PendingItem :=
  match write with
  | .done => { item with done := true }
  | .failed => { item with failed := BatchOutcome.isFailure outcome }
  | .message =>
      match outcome with
      | .ok _ => { item with errorMessage := [] }
      | .error message => { item with errorMessage := message }
  | .stats =>
      match outcome with
      | .ok stats =>
          { item with stats := { stats with rows := item.rows, errors := item.parseErrors } }
      | .error _ => item

/-- The write behind one, if there is another to the same item. -/
def MarkWrite.next : MarkWrite → Option MarkWrite
  | .done => some .failed
  | .failed => some .message
  | .message => some .stats
  | .stats => none

/-- The writes together resolve the item. -/
theorem PendingItem.writes_eq_resolve (outcome : BatchOutcome) (item : PendingItem) :
    (((item.write outcome .done).write outcome .failed).write outcome .message).write
        outcome .stats =
      item.resolve outcome := by
  cases outcome <;> rfl

namespace DrainedBatch

/-- The requests of the batch. -/
def requests (b : DrainedBatch) : List Nat := b.items.map QueuedItem.request

/-- The open transaction ends. -/
def endTransaction (b : DrainedBatch) (status : TransactionStatus) : DrainedBatch :=
  { b with transactions := b.transactions.dropLast ++ [status] }

/-- `RawBeginTransaction` for the batch. -/
def beginTransaction (b : DrainedBatch) : DrainedBatch :=
  { b with transactions := b.transactions ++ [.running] }

/-- The batch has a committed transaction. -/
def IsCommitted (b : DrainedBatch) : Prop := TransactionStatus.committed ∈ b.transactions

/-- The requests of each committed transaction of the batch. -/
def committedTransactions (b : DrainedBatch) : List (List Nat) :=
  (b.transactions.filter (· = .committed)).map fun _ => b.requests

end DrainedBatch

namespace TargetCoordinator

/-- A call moves on. -/
def setPhase (s : TargetCoordinator) (i : Nat) (phase : RequestPhase) : TargetCoordinator :=
  { s with requests := s.requests.modify i fun r => { r with phase } }

/-- A write to the item of a call. -/
def writeItem (s : TargetCoordinator) (i : Nat) (outcome : BatchOutcome) (write : MarkWrite) :
    TargetCoordinator :=
  { s with requests := s.requests.modify i fun r => { r with item := r.item.write outcome write } }

/-- A batch changes. -/
def modifyBatch (s : TargetCoordinator) (k : Nat) (f : DrainedBatch → DrainedBatch) :
    TargetCoordinator :=
  { s with batches := s.batches.modify k f }

/-- The requests of a batch. -/
def batchRequests (s : TargetCoordinator) (k : Nat) : List Nat :=
  (s.batches[k]?.map DrainedBatch.requests).getD []

/-- `coord.committing.erase(target)`: the leader is done. -/
def releaseLead (s : TargetCoordinator) (i : Nat) : TargetCoordinator :=
  { s with committing := false }.setPhase i .leaving

/-- The leader moves the queue out, merges it and begins a transaction. -/
def takeBatch (s : TargetCoordinator) (i : Nat) (first : QueuedItem) (rest : List QueuedItem) :
    TargetCoordinator :=
  let batch : DrainedBatch :=
    { items := first :: rest
      payload := mergeAll first.parsed (rest.map QueuedItem.parsed)
      transactions := [.running] }
  { s with pending := [], batches := s.batches ++ [batch] }.setPhase i
    (.ingesting s.batches.length false)

/-- The head of the leader's loop, under the lock. -/
def drainPending (s : TargetCoordinator) (i : Nat) : TargetCoordinator :=
  match s.pending with
  | [] => s.releaseLead i
  | first :: rest => s.takeBatch i first rest

/-- The item of a new call is queued and the call counted. -/
def enqueue (s : TargetCoordinator) (parsed : RawParsedPayload) (payload : Bytes) :
    TargetCoordinator :=
  { s with
    active := s.active + 1
    pending := s.pending ++ [{ request := s.requests.length, parsed }]
    requests := s.requests ++ [{ item := .create parsed payload, phase := .waiting }] }

/-- `committing.insert(target)`. -/
def takeLead (s : TargetCoordinator) (i : Nat) : TargetCoordinator :=
  { s with committing := true }.setPhase i .lingering

/-- `RawIngestGroupCommit` up to its first wait or its first batch. -/
def enter (s : TargetCoordinator) (parsed : RawParsedPayload) (payload : Bytes) :
    TargetCoordinator :=
  let queued := s.enqueue parsed payload
  if s.committing then queued
  else
    let leading := queued.takeLead s.requests.length
    if 1 < leading.active ∧ leading.pending.length < CommitCoordinator.lingerTargetBatch then
      leading
    else leading.drainPending s.requests.length

/-- `RawIngestSerialized` gives up: the handler rolls back. -/
def giveUp (s : TargetCoordinator) (i k : Nat) (message : Bytes) : TargetCoordinator :=
  (s.modifyBatch k fun b => b.endTransaction .rolledBack).setPhase i
    (.marking k (.error message) (s.batchRequests k) .done)

/-- One event; `none` where the call does not stand there. -/
def step (s : TargetCoordinator) : TargetEvent → Option TargetCoordinator
  | .enter parsed payload => some (s.enter parsed payload)
  | .wake i =>
      match s.requests[i]? with
      | some { phase := .lingering, .. } => some (s.drainPending i)
      | _ => none
  | .attempt i outcome =>
      match s.requests[i]? with
      | some { phase := .ingesting k retried, .. } =>
          match outcome with
          | .succeeds stats =>
              some ((s.modifyBatch k fun b => b.endTransaction .committed).setPhase i
                (.marking k (.ok stats) (s.batchRequests k) .done))
          | .conflicts message =>
              if retried then some (s.giveUp i k message)
              else
                some ((s.modifyBatch k fun b =>
                    (b.endTransaction .rolledBack).beginTransaction).setPhase
                  i (.ingesting k true))
          | .fails message => some (s.giveUp i k message)
      | _ => none
  | .mark i =>
      match s.requests[i]? with
      | some { phase := .marking k outcome (j :: todo) write, .. } =>
          match write.next with
          | some next =>
              some ((s.writeItem j outcome write).setPhase i (.marking k outcome (j :: todo) next))
          | none => some ((s.writeItem j outcome write).setPhase i (.marking k outcome todo .done))
      | _ => none
  | .relock i =>
      match s.requests[i]? with
      | some { phase := .marking _ _ [] _, .. } => some (s.drainPending i)
      | _ => none
  | .resume i =>
      match s.requests[i]? with
      | some { item, phase := .waiting } =>
          if item.done then some (s.setPhase i .leaving) else none
      | _ => none
  | .answer i =>
      match s.requests[i]? with
      | some { item, phase := .leaving } => some (s.setPhase i (.answered item.answer))
      | _ => none
  | .exit i =>
      match s.requests[i]? with
      | some { phase := .answered result, .. } =>
          some ({ s with active := s.active - 1 }.setPhase i (.returned result))
      | _ => none

/-- The requests of each committed transaction. -/
def committedTransactions (s : TargetCoordinator) : List (List Nat) :=
  s.batches.flatMap DrainedBatch.committedTransactions

/-- The request is part of a committed transaction. -/
def Committed (s : TargetCoordinator) (i : Nat) : Prop := ∃ t ∈ s.committedTransactions, i ∈ t

/-- What a call was answered. -/
def result? (r : Request) : Option (Except RawError RawIngestStats) :=
  match r.phase with
  | .answered result | .returned result => some result
  | _ => none

end TargetCoordinator

/-- A coordinator starts with no call. -/
def targetCommits : System TargetCoordinator TargetEvent where
  init := { requests := [], pending := [], committing := false, active := 0, batches := [] }
  step := TargetCoordinator.step

/-! ## what is claimed -/

/-- The result is no error. -/
def isSuccess (result : Except RawError RawIngestStats) : Prop := ∃ stats, result = .ok stats

theorem isSuccess_answer (item : PendingItem) : isSuccess item.answer ↔ item.failed = false := by
  rw [isSuccess, PendingItem.answer]
  cases item.failed <;> simp

namespace TargetCoordinator

/-- The item of request `j` is so. -/
def ItemIs (s : TargetCoordinator) (j : Nat) (P : PendingItem → Prop) : Prop :=
  ∃ r, s.requests[j]? = some r ∧ P r.item

/-- Each request is queued or in exactly one batch, and once it is answered in a
batch; a batch has the rows of its requests; no request is in two committed
transactions; and a request is answered with success exactly when a transaction
with it is committed. -/
structure ExactlyOnce (s : TargetCoordinator) : Prop where
  located : (s.pending.map QueuedItem.request ++ s.batches.flatMap DrainedBatch.requests).Perm
    (List.range s.requests.length)
  taken : ∀ (i : Nat) (r : Request) result, s.requests[i]? = some r → result? r = some result →
    i ∈ s.batches.flatMap DrainedBatch.requests
  rows : ∀ b ∈ s.batches,
    (b.payload.payload.rows = b.items.flatMap fun q => q.parsed.payload.rows) ∧
    ∀ q ∈ b.items, s.ItemIs q.request fun item => item.parsed = q.parsed
  once : s.committedTransactions.flatten.Nodup
  answered : ∀ (i : Nat) (r : Request) result, s.requests[i]? = some r → result? r = some result →
    (isSuccess result ↔ s.Committed i)

/-- The leader has written `done` to the item of the request, in a batch that
failed, and not `failed` yet. -/
def HalfFailed (s : TargetCoordinator) (i : Nat) : Prop :=
  ∃ (j : Nat) (r : Request) (k : Nat) (message : Bytes) (todo : List Nat),
    s.requests[j]? = some r ∧ r.phase = .marking k (.error message) (i :: todo) .failed

/-- A call reads its item when it is written. -/
def ReadsWritten (s : TargetCoordinator) : TargetEvent → Prop
  | .answer i => ¬ s.HalfFailed i
  | _ => True

/-! ## what holds between the steps -/

/-- Nothing is written to the item yet. -/
def Fresh (s : TargetCoordinator) (j : Nat) : Prop :=
  s.ItemIs j fun item => item.done = false ∧ item.failed = false

/-- `done` is written, and `failed` holds this. -/
def Written (s : TargetCoordinator) (j : Nat) (failed : Bool) : Prop :=
  s.ItemIs j fun item => item.done = true ∧ item.failed = failed

/-- What is written to the items before a leader, up to this write to the first. -/
def TodoWritten (s : TargetCoordinator) (failed : Bool) (write : MarkWrite) : List Nat → Prop
  | [] => True
  | j :: rest =>
      (match write with
        | .done => s.Fresh j
        | .failed => s.Written j false
        | .message | .stats => s.Written j failed) ∧
      ∀ i ∈ rest, s.Fresh i

/-- The leader ingests batch `k`: its transaction is open, and nothing is written to
its items. -/
def Ingesting (s : TargetCoordinator) (k : Nat) (retried : Bool) (b : DrainedBatch) : Prop :=
  s.batches[k]? = some b ∧
    b.transactions = (if retried then [.rolledBack, .running] else [.running]) ∧
    ∀ j ∈ b.requests, s.Fresh j

/-- The leader resolves batch `k`: its transactions are over, and its items are
written up to those to do. -/
def Marking (s : TargetCoordinator) (k : Nat) (failed : Bool) (todo : List Nat) (write : MarkWrite)
    (b : DrainedBatch) : Prop :=
  s.batches[k]? = some b ∧ (b.IsCommitted ↔ failed = false) ∧
    s.TodoWritten failed write todo ∧
    ∃ written, b.requests = written ++ todo ∧ ∀ j ∈ written, s.Written j failed

/-- What a call has done and seen so far. -/
def CallGood (s : TargetCoordinator) (i : Nat) (r : Request) : Prop :=
  match r.phase with
  | .waiting => True
  | .lingering => i ∈ s.pending.map QueuedItem.request
  | .ingesting k retried => ∃ b, s.Ingesting k retried b ∧ (i ∈ b.requests ∨ r.item.done = true)
  | .marking k outcome todo write =>
      (∃ b, s.Marking k outcome.isFailure todo write b) ∧ (i ∈ todo ∨ r.item.done = true)
  | .leaving => r.item.done = true
  | .answered result | .returned result => r.item.done = true ∧ (isSuccess result ↔ s.Committed i)

/-- The call is in the leader section. -/
def leads (r : Request) : Bool :=
  match r.phase with
  | .lingering | .ingesting _ _ | .marking _ _ _ _ => true
  | _ => false

/-- The batch the call is at work on. -/
def batch? (r : Request) : Option Nat :=
  match r.phase with
  | .ingesting k _ | .marking k _ _ _ => some k
  | _ => none

/-- The items of the batch are resolved. -/
def Settled (s : TargetCoordinator) (b : DrainedBatch) : Prop :=
  ∃ failed, (b.IsCommitted ↔ failed = false) ∧ ∀ j ∈ b.requests, s.Written j failed

/-- What holds between the steps. -/
structure Accounted (s : TargetCoordinator) : Prop where
  /-- A request is queued or in one batch. -/
  located : (s.pending.map QueuedItem.request ++ s.batches.flatMap DrainedBatch.requests).Perm
    (List.range s.requests.length)
  queued : ∀ q ∈ s.pending, s.Fresh q.request
  parsed : ∀ q, q ∈ s.pending ∨ (∃ b ∈ s.batches, q ∈ b.items) →
    s.ItemIs q.request fun item => item.parsed = q.parsed
  batch : ∀ b ∈ s.batches, b.transactions.count .committed ≤ 1 ∧
    b.payload.payload.rows = b.items.flatMap fun q => q.parsed.payload.rows
  /-- A batch is resolved, or in the hands of a leader. -/
  settled : ∀ (k : Nat) (b : DrainedBatch), s.batches[k]? = some b →
    (∃ (i : Nat) (r : Request), s.requests[i]? = some r ∧ batch? r = some k) ∨ s.Settled b
  calls : ∀ (i : Nat) (r : Request), s.requests[i]? = some r → s.CallGood i r
  committing : ∀ (i : Nat) (r : Request), s.requests[i]? = some r → leads r = true →
    s.committing = true
  unique : ∀ (i j : Nat) (r q : Request), s.requests[i]? = some r → s.requests[j]? = some q →
    leads r = true → leads q = true → i = j

/-! ## requests and items -/

variable {s s' : TargetCoordinator} {i j k : Nat} {r : Request}

theorem leads_of_batch (h : batch? r = some k) : leads r = true := by
  obtain ⟨item, phase⟩ := r
  cases phase <;> first | rfl | contradiction

theorem ItemIs.mono {P Q : PendingItem → Prop} (h : s.ItemIs j P) (hPQ : ∀ item, P item → Q item) :
    s.ItemIs j Q := by
  obtain ⟨r, hr, hP⟩ := h
  exact ⟨r, hr, hPQ _ hP⟩

theorem ItemIs.of_call {P : PendingItem → Prop} (h : s.ItemIs j P) (hr : s.requests[j]? = some r) :
    P r.item := by
  obtain ⟨r', hr', hP⟩ := h
  rw [hr, Option.some.injEq] at hr'
  exact hr' ▸ hP

theorem Fresh.not_done (h : s.Fresh j) (hr : s.requests[j]? = some r) : r.item.done = false :=
  (ItemIs.of_call h hr).1

/-- A call behind a change of one call's phase. -/
theorem getElem?_setPhase {phase : RequestPhase} {r' : Request}
    (h : (s.setPhase i phase).requests[j]? = some r') :
    ∃ r, s.requests[j]? = some r ∧ r'.item = r.item ∧
      (j = i ∧ r' = { r with phase } ∨ j ≠ i ∧ r' = r) := by
  simp only [setPhase, List.getElem?_modify, Option.map_eq_map, Option.map_eq_some_iff] at h
  obtain ⟨r, hr, rfl⟩ := h
  by_cases hij : i = j
  · exact ⟨r, hr, by simp [hij], .inl ⟨hij.symm, by simp [hij]⟩⟩
  · exact ⟨r, hr, by simp [hij], .inr ⟨fun he => hij he.symm, by simp [hij]⟩⟩

/-- What the others see of a change of phase. -/
theorem setPhase_seen {phase : RequestPhase} {r' : Request}
    (h : (s.setPhase i phase).requests[j]? = some r') :
    ∃ r, s.requests[j]? = some r ∧ (r.item.done = true → r'.item.done = true) ∧
      (j = i ∨ r'.phase = r.phase) := by
  obtain ⟨r, hr, hitem, ⟨hji, -⟩ | ⟨-, rfl⟩⟩ := getElem?_setPhase h
  · exact ⟨r, hr, fun hdone => hitem ▸ hdone, .inl hji⟩
  · exact ⟨r', hr, id, .inr rfl⟩

theorem getElem?_setPhase_self {phase : RequestPhase} (h : s.requests[i]? = some r) :
    (s.setPhase i phase).requests[i]? = some { r with phase } := by
  simp [setPhase, h]

theorem getElem?_setPhase_other {phase : RequestPhase} (hij : j ≠ i) :
    (s.setPhase i phase).requests[j]? = s.requests[j]? := by
  have hji : i ≠ j := fun he => hij he.symm
  simp [setPhase, hji]

/-- The items stay in a change of phase. -/
theorem ItemIs.setPhase {P : PendingItem → Prop} (h : s.ItemIs j P) (i : Nat)
    (phase : RequestPhase) :
    (s.setPhase i phase).ItemIs j P := by
  obtain ⟨r, hr, hP⟩ := h
  by_cases hij : j = i
  · subst hij
    exact ⟨_, getElem?_setPhase_self hr, hP⟩
  · exact ⟨r, (getElem?_setPhase_other hij).trans hr, hP⟩

/-- A committed transaction with a request is one of a batch with it. -/
theorem committed_iff : s.Committed i ↔ ∃ b ∈ s.batches, b.IsCommitted ∧ i ∈ b.requests := by
  simp only [Committed, committedTransactions, DrainedBatch.committedTransactions,
    DrainedBatch.IsCommitted, List.mem_flatMap, List.mem_map, List.mem_filter, decide_eq_true_eq]
  constructor
  · rintro ⟨t, ⟨b, hb, status, ⟨hstatus, rfl⟩, rfl⟩, hi⟩
    exact ⟨b, hb, hstatus, hi⟩
  · rintro ⟨b, hb, hstatus, hi⟩
    exact ⟨b.requests, ⟨b, hb, _, ⟨hstatus, rfl⟩, rfl⟩, hi⟩

/-! ## calls that are not affected -/

theorem TodoWritten.frame {failed : Bool} {write : MarkWrite} {todo : List Nat}
    (h : s.TodoWritten failed write todo) (hitems : ∀ j P, s.ItemIs j P → s'.ItemIs j P) :
    s'.TodoWritten failed write todo := by
  cases todo with
  | nil => trivial
  | cons j rest =>
      refine ⟨?_, fun i hi => hitems _ _ (h.2 i hi)⟩
      cases write <;> exact hitems _ _ h.1

theorem TodoWritten.of_fresh {todo : List Nat} (h : ∀ j ∈ todo, s.Fresh j) (failed : Bool) :
    s.TodoWritten failed .done todo := by
  cases todo with
  | nil => trivial
  | cons j rest => exact ⟨h j List.mem_cons_self, fun i hi => h i (List.mem_cons_of_mem _ hi)⟩

/-- A call stays good where items, queue and batches stay. -/
theorem CallGood.frame (h : s.CallGood j r) (hitems : ∀ j P, s.ItemIs j P → s'.ItemIs j P)
    (hpending : ∀ q ∈ s.pending, q ∈ s'.pending) (hbatches : s'.batches = s.batches) :
    s'.CallGood j r := by
  have hcommitted : ∀ j, s'.Committed j ↔ s.Committed j := by
    intro j
    rw [committed_iff, committed_iff, hbatches]
  obtain ⟨item, phase⟩ := r
  cases phase with
  | waiting => trivial
  | lingering =>
      obtain ⟨q, hq, hqj⟩ := List.mem_map.mp h
      exact List.mem_map.mpr ⟨q, hpending q hq, hqj⟩
  | ingesting k retried =>
      obtain ⟨b, ⟨hb, htransactions, hfresh⟩, hown⟩ := h
      exact ⟨b, ⟨hbatches ▸ hb, htransactions, fun j hj => hitems _ _ (hfresh j hj)⟩, hown⟩
  | marking k outcome todo write =>
      obtain ⟨⟨b, hb, houtcome, hwritten, before, hsplit, hbefore⟩, hown⟩ := h
      exact ⟨⟨b, hbatches ▸ hb, houtcome, hwritten.frame hitems, before, hsplit,
        fun j hj => hitems _ _ (hbefore j hj)⟩, hown⟩
  | leaving => exact h
  | answered result => exact ⟨h.1, h.2.trans (hcommitted j).symm⟩
  | returned result => exact ⟨h.1, h.2.trans (hcommitted j).symm⟩

/-- A call outside the leader section stays good while its item stays done and its
rows are committed or not as before. -/
theorem CallGood.follower (h : s.CallGood j r) (hleads : leads r = false) {r' : Request}
    (hphase : r'.phase = r.phase) (hdone : r.item.done = true → r'.item.done = true)
    (hcommitted : r.item.done = true → (s'.Committed j ↔ s.Committed j)) : s'.CallGood j r' := by
  obtain ⟨item, phase⟩ := r
  obtain ⟨item', phase'⟩ := r'
  obtain rfl : phase' = phase := hphase
  cases phase' with
  | waiting => trivial
  | leaving => exact hdone h
  | answered result => exact ⟨hdone h.1, h.2.trans (hcommitted h.1).symm⟩
  | returned result => exact ⟨hdone h.1, h.2.trans (hcommitted h.1).symm⟩
  | lingering => contradiction
  | ingesting k retried => contradiction
  | marking k outcome todo write => contradiction

/-- A batch stays settled while its items stay written. -/
theorem Settled.frame {b : DrainedBatch} (h : s.Settled b)
    (hitems : ∀ j P, s.ItemIs j P → s'.ItemIs j P) : s'.Settled b := by
  obtain ⟨failed, houtcome, hwritten⟩ := h
  exact ⟨failed, houtcome, fun j hj => hitems _ _ (hwritten j hj)⟩

/-! ## arrivals and returns -/

/-- A call behind an arrival: an old one, or the new one. -/
theorem getElem?_enqueue {parsed : RawParsedPayload} {payload : Bytes}
    (h : (s.enqueue parsed payload).requests[j]? = some r) :
    s.requests[j]? = some r ∨
      j = s.requests.length ∧ r = { item := .create parsed payload, phase := .waiting } := by
  simp only [enqueue] at h
  by_cases hj : j < s.requests.length
  · rw [List.getElem?_append_left hj] at h
    exact .inl h
  · have hlt := (List.getElem?_eq_some_iff.mp h).1
    rw [List.length_append, List.length_singleton] at hlt
    obtain rfl : j = s.requests.length := by omega
    rw [List.getElem?_concat_length, Option.some.injEq] at h
    exact .inr ⟨rfl, h.symm⟩

theorem ItemIs.enqueue {P : PendingItem → Prop} (h : s.ItemIs j P) (parsed : RawParsedPayload)
    (payload : Bytes) : (s.enqueue parsed payload).ItemIs j P := by
  obtain ⟨r, hr, hP⟩ := h
  obtain ⟨hlt, -⟩ := List.getElem?_eq_some_iff.mp hr
  exact ⟨r, (List.getElem?_append_left hlt).trans hr, hP⟩

theorem getElem?_enqueue_old {parsed : RawParsedPayload} {payload : Bytes}
    (h : s.requests[j]? = some r) : (s.enqueue parsed payload).requests[j]? = some r := by
  obtain ⟨hlt, -⟩ := List.getElem?_eq_some_iff.mp h
  exact (List.getElem?_append_left hlt).trans h

/-- A new request is queued. -/
theorem Accounted.enqueue (h : s.Accounted) (parsed : RawParsedPayload) (payload : Bytes) :
    (s.enqueue parsed payload).Accounted := by
  have hitems : ∀ j P, s.ItemIs j P → (s.enqueue parsed payload).ItemIs j P :=
    fun j P hP => hP.enqueue parsed payload
  have hnew : (s.enqueue parsed payload).requests[s.requests.length]? =
      some { item := .create parsed payload, phase := .waiting } := List.getElem?_concat_length
  constructor
  case located =>
    simp only [TargetCoordinator.enqueue, List.map_append, List.map_cons, List.map_nil,
      List.length_append, List.length_singleton, List.range_succ]
    rw [List.append_assoc]
    refine (List.perm_append_comm.append_left _).trans ?_
    rw [← List.append_assoc]
    exact h.located.append_right _
  case queued =>
    intro q hq
    cases List.mem_append.mp hq with
    | inl hq => exact hitems _ _ (h.queued q hq)
    | inr hq =>
        obtain rfl := List.mem_singleton.mp hq
        exact ⟨_, hnew, rfl, rfl⟩
  case parsed =>
    intro q hq
    cases hq with
    | inl hq =>
        cases List.mem_append.mp hq with
        | inl hq => exact hitems _ _ (h.parsed q (.inl hq))
        | inr hq =>
            obtain rfl := List.mem_singleton.mp hq
            exact ⟨_, hnew, rfl⟩
    | inr hq => exact hitems _ _ (h.parsed q (.inr hq))
  case batch => exact h.batch
  case settled =>
    intro k b hb
    cases h.settled k b hb with
    | inl hleader =>
        obtain ⟨i, r, hr, hk⟩ := hleader
        exact .inl ⟨i, r, getElem?_enqueue_old hr, hk⟩
    | inr hsettled => exact .inr (hsettled.frame hitems)
  case calls =>
    intro j r hr
    cases getElem?_enqueue hr with
    | inl hr => exact (h.calls j r hr).frame hitems (fun q hq => List.mem_append_left _ hq) rfl
    | inr hr =>
        obtain ⟨-, rfl⟩ := hr
        trivial
  case committing =>
    intro j r hr hleads
    cases getElem?_enqueue hr with
    | inl hr => exact h.committing j r hr hleads
    | inr hr =>
        obtain ⟨-, rfl⟩ := hr
        contradiction
  case unique =>
    intro i j r q hr hq hleads hleads'
    cases getElem?_enqueue hr with
    | inl hr =>
        cases getElem?_enqueue hq with
        | inl hq => exact h.unique i j r q hr hq hleads hleads'
        | inr hq =>
            obtain ⟨-, rfl⟩ := hq
            contradiction
    | inr hr =>
        obtain ⟨-, rfl⟩ := hr
        contradiction

/-- A call outside the leader section moves on, or becomes the only leader, before
it has a batch. -/
theorem Accounted.moves (h : s.Accounted) (hr : s.requests[i]? = some r) {phase : RequestPhase}
    (hbatch : batch? r = none) (hgood : s.CallGood i { r with phase })
    (hleads : leads { r with phase } = true → s.committing = true ∧
      ∀ (j : Nat) (q : Request), s.requests[j]? = some q → leads q = true → j = i) :
    (s.setPhase i phase).Accounted := by
  have hitems : ∀ j P, s.ItemIs j P → (s.setPhase i phase).ItemIs j P :=
    fun j P hP => hP.setPhase i phase
  constructor
  case located =>
    have hlength : (s.setPhase i phase).requests.length = s.requests.length := List.length_modify ..
    rw [hlength]
    exact h.located
  case queued => exact fun q hq => hitems _ _ (h.queued q hq)
  case parsed => exact fun q hq => hitems _ _ (h.parsed q hq)
  case batch => exact h.batch
  case settled =>
    intro k b hb
    cases h.settled k b hb with
    | inl hleader =>
        obtain ⟨j, q, hq, hk⟩ := hleader
        have hji : j ≠ i := by
          intro he
          rw [he, hr, Option.some.injEq] at hq
          rw [← hq, hbatch] at hk
          contradiction
        exact .inl ⟨j, q, (getElem?_setPhase_other hji).trans hq, hk⟩
    | inr hsettled => exact .inr (hsettled.frame hitems)
  case calls =>
    intro j r' hr'
    obtain ⟨q, hq, -, ⟨rfl, rfl⟩ | ⟨-, rfl⟩⟩ := getElem?_setPhase hr'
    · rw [hr, Option.some.injEq] at hq
      subst hq
      exact hgood.frame hitems (fun q hq => hq) rfl
    · exact (h.calls j _ hq).frame hitems (fun q hq => hq) rfl
  case committing =>
    intro j r' hr' hlead
    obtain ⟨q, hq, -, ⟨rfl, rfl⟩ | ⟨-, rfl⟩⟩ := getElem?_setPhase hr'
    · rw [hr, Option.some.injEq] at hq
      subst hq
      exact (hleads hlead).1
    · exact h.committing j _ hq hlead
  case unique =>
    intro j l r' q' hr' hq' hlead hlead'
    obtain ⟨r₀, hr₀, -, ⟨rfl, rfl⟩ | ⟨hji, rfl⟩⟩ := getElem?_setPhase hr'
    · rw [hr, Option.some.injEq] at hr₀
      subst hr₀
      obtain ⟨q₀, hq₀, -, ⟨rfl, rfl⟩ | ⟨hli, rfl⟩⟩ := getElem?_setPhase hq'
      · rfl
      · exact ((hleads hlead).2 l _ hq₀ hlead').symm
    · obtain ⟨q₀, hq₀, -, ⟨rfl, rfl⟩ | ⟨hli, rfl⟩⟩ := getElem?_setPhase hq'
      · rw [hr, Option.some.injEq] at hq₀
        subst hq₀
        exact (hleads hlead').2 j _ hr₀ hlead
      · exact h.unique j l _ _ hr₀ hq₀ hlead hlead'

/-- A call becomes the leader. -/
theorem Accounted.takeLead (h : s.Accounted) (hr : s.requests[i]? = some r)
    (hphase : r.phase = .waiting) (hfree : s.committing = false)
    (hqueued : i ∈ s.pending.map QueuedItem.request) : (s.takeLead i).Accounted := by
  have hnobody : ∀ (j : Nat) (q : Request), s.requests[j]? = some q → leads q = true → j = i := by
    intro j q hq hleads
    have hheld := h.committing j q hq hleads
    rw [hfree] at hheld
    contradiction
  have hset : Accounted { s with committing := true } :=
    ⟨h.located, h.queued, h.parsed, h.batch, h.settled, h.calls, fun _ _ _ _ => rfl, h.unique⟩
  exact hset.moves hr (by simp [batch?, hphase]) hqueued fun _ => ⟨rfl, hnobody⟩

/-! ## steps of the leader -/

/-- The leader makes a step: the calls outside the leader section see that items
stay done and that what is committed of theirs stays. -/
theorem Accounted.leaderSteps (h : s.Accounted) (hr : s.requests[i]? = some r)
    (hleads : leads r = true)
    (hcalls : ∀ (j : Nat) (q' : Request), s'.requests[j]? = some q' →
      ∃ q, s.requests[j]? = some q ∧ (q.item.done = true → q'.item.done = true) ∧
        (j = i ∨ q'.phase = q.phase))
    (hcommitted : ∀ (j : Nat) (q : Request), s.requests[j]? = some q → q.item.done = true →
      (s'.Committed j ↔ s.Committed j))
    (hgood : ∀ r', s'.requests[i]? = some r' → s'.CallGood i r' ∧
      (leads r' = true → s'.committing = true))
    (hlocated : (s'.pending.map QueuedItem.request ++
      s'.batches.flatMap DrainedBatch.requests).Perm (List.range s'.requests.length))
    (hqueued : ∀ q ∈ s'.pending, s'.Fresh q.request)
    (hparsed : ∀ q, q ∈ s'.pending ∨ (∃ b ∈ s'.batches, q ∈ b.items) →
      s'.ItemIs q.request fun item => item.parsed = q.parsed)
    (hbatch : ∀ b ∈ s'.batches, b.transactions.count .committed ≤ 1 ∧
      b.payload.payload.rows = b.items.flatMap fun q => q.parsed.payload.rows)
    (hsettled : ∀ (k : Nat) (b : DrainedBatch), s'.batches[k]? = some b →
      (∃ (i : Nat) (r : Request), s'.requests[i]? = some r ∧ batch? r = some k) ∨ s'.Settled b) :
    s'.Accounted := by
  have hothers : ∀ (j : Nat) (q : Request), s.requests[j]? = some q → j ≠ i → leads q = false := by
    intro j q hq hji
    cases hlead : leads q with
    | false => rfl
    | true => exact absurd (h.unique j i q r hq hr hlead hleads) hji
  have honly : ∀ (j : Nat) (q' : Request), s'.requests[j]? = some q' → leads q' = true → j = i := by
    intro j q' hq' hlead
    obtain ⟨q, hq, -, hji | hphase⟩ := hcalls j q' hq'
    · exact hji
    · by_contra hji
      have hnot := hothers j q hq hji
      rw [leads, ← hphase] at hnot
      rw [leads, hnot] at hlead
      contradiction
  constructor
  case located => exact hlocated
  case queued => exact hqueued
  case parsed => exact hparsed
  case batch => exact hbatch
  case settled => exact hsettled
  case calls =>
    intro j q' hq'
    by_cases hji : j = i
    · subst hji
      exact (hgood q' hq').1
    · obtain ⟨q, hq, hdone, hphase⟩ := hcalls j q' hq'
      have hphase : q'.phase = q.phase := hphase.resolve_left hji
      exact (h.calls j q hq).follower (hothers j q hq hji) hphase hdone (hcommitted j q hq)
  case committing =>
    intro j q' hq' hlead
    obtain rfl := honly j q' hq' hlead
    exact (hgood q' hq').2 hlead
  case unique =>
    intro j l q q' hq hq' hlead hlead'
    rw [honly j q hq hlead, honly l q' hq' hlead']

/-- The leader has resolved what it took. -/
def BetweenBatches (r : Request) : Prop :=
  r.phase = .lingering ∨ ∃ k outcome write, r.phase = .marking k outcome [] write

theorem BetweenBatches.leads (h : BetweenBatches r) : leads r = true := by
  obtain h | ⟨k, outcome, write, h⟩ := h
  · rw [TargetCoordinator.leads, h]
  · rw [TargetCoordinator.leads, h]

/-- Between two batches all batches are settled. -/
theorem Accounted.settled_between (h : s.Accounted) (hr : s.requests[i]? = some r)
    (hbetween : BetweenBatches r) {b : DrainedBatch} (hb : s.batches[k]? = some b) :
    s.Settled b := by
  cases h.settled k b hb with
  | inr hsettled => exact hsettled
  | inl hleader =>
      obtain ⟨j, q, hq, hk⟩ := hleader
      obtain rfl := h.unique j i q r hq hr (leads_of_batch hk) hbetween.leads
      rw [hr, Option.some.injEq] at hq
      subst hq
      have hgood := h.calls j r hr
      obtain hphase | ⟨m, outcome, write, hphase⟩ := hbetween
      · rw [batch?, hphase] at hk
        contradiction
      · rw [batch?, hphase, Option.some.injEq] at hk
        subst hk
        rw [CallGood, hphase] at hgood
        obtain ⟨⟨b', hb', houtcome, -, written, hsplit, hwritten⟩, -⟩ := hgood
        rw [hb, Option.some.injEq] at hb'
        subst hb'
        rw [List.append_nil] at hsplit
        exact ⟨outcome.isFailure, houtcome, hsplit ▸ hwritten⟩

/-- Between two batches the leader is in the queue, or its item is done. -/
theorem Accounted.own_between (h : s.Accounted) (hr : s.requests[i]? = some r)
    (hbetween : BetweenBatches r) :
    i ∈ s.pending.map QueuedItem.request ∨ r.item.done = true := by
  have hgood := h.calls i r hr
  obtain hphase | ⟨m, outcome, write, hphase⟩ := hbetween
  · rw [CallGood, hphase] at hgood
    exact .inl hgood
  · rw [CallGood, hphase] at hgood
    exact .inr (hgood.2.resolve_left List.not_mem_nil)

/-- The leader leaves when the queue is empty. -/
theorem Accounted.releaseLead (h : s.Accounted) (hr : s.requests[i]? = some r)
    (hbetween : BetweenBatches r) (hempty : s.pending = []) : (s.releaseLead i).Accounted := by
  have hitems : ∀ j P, s.ItemIs j P → (s.releaseLead i).ItemIs j P :=
    fun j P hP => ItemIs.setPhase (s := { s with committing := false }) hP i .leaving
  have hself : (s.releaseLead i).requests[i]? = some { r with phase := .leaving } :=
    getElem?_setPhase_self (s := { s with committing := false }) hr
  refine h.leaderSteps hr hbetween.leads
    (fun j q' hq' => setPhase_seen (s := { s with committing := false }) hq')
    (fun _ _ _ _ => Iff.rfl) ?_ ?_
    (fun q hq => hitems _ _ (h.queued q hq)) (fun q hq => hitems _ _ (h.parsed q hq)) h.batch
    fun k b hb => .inr ((h.settled_between hr hbetween hb).frame hitems)
  · intro r' hr'
    obtain rfl := Option.some.inj (hself.symm.trans hr')
    have hown := h.own_between hr hbetween
    rw [hempty] at hown
    exact ⟨hown.resolve_left List.not_mem_nil, fun hlead => (nomatch hlead)⟩
  · have hlength : (s.releaseLead i).requests.length = s.requests.length := List.length_modify ..
    rw [hlength]
    exact h.located

/-- The leader takes the queue as its next batch. -/
theorem Accounted.takeBatch (h : s.Accounted) (hr : s.requests[i]? = some r)
    (hbetween : BetweenBatches r) {first : QueuedItem} {rest : List QueuedItem}
    (hpending : s.pending = first :: rest) : (s.takeBatch i first rest).Accounted := by
  have hitems : ∀ j P, s.ItemIs j P → (s.takeBatch i first rest).ItemIs j P := by
    intro j P hP
    unfold TargetCoordinator.takeBatch
    exact ItemIs.setPhase (s := { s with pending := [], batches := _ }) hP i _
  have hcommitting : s.committing = true := h.committing i r hr hbetween.leads
  obtain ⟨new, hnew⟩ : ∃ new : DrainedBatch, new =
      { items := first :: rest
        payload := mergeAll first.parsed (rest.map QueuedItem.parsed)
        transactions := [.running] } := ⟨_, rfl⟩
  have hbatches : (s.takeBatch i first rest).batches = s.batches ++ [new] := by rw [hnew]; rfl
  have hself : (s.takeBatch i first rest).requests[i]? =
      some { r with phase := .ingesting s.batches.length false } :=
    getElem?_setPhase_self (s := { s with pending := [], batches := _ }) hr
  have hnewest : (s.batches ++ [new])[s.batches.length]? = some new := List.getElem?_concat_length
  have hrequests : new.requests = s.pending.map QueuedItem.request := by rw [hnew, hpending]; rfl
  have hnone : ¬ new.IsCommitted := by
    rw [hnew]
    simp [DrainedBatch.IsCommitted]
  refine h.leaderSteps hr hbetween.leads
    (fun j q' hq' => setPhase_seen (s := { s with pending := [], batches := _ }) hq') ?_ ?_ ?_
    (fun q hq => (nomatch hq)) ?_ ?_ ?_
  · intro j q hq hdone
    rw [committed_iff, committed_iff, hbatches]
    simp [hnone]
  · intro r' hr'
    obtain rfl := Option.some.inj (hself.symm.trans hr')
    refine ⟨⟨new, ⟨hbatches ▸ hnewest, by rw [hnew]; rfl, fun j hj => ?_⟩, ?_⟩,
      fun _ => hcommitting⟩
    · rw [hrequests] at hj
      obtain ⟨q, hq, rfl⟩ := List.mem_map.mp hj
      exact hitems _ _ (h.queued q hq)
    · have hown := h.own_between hr hbetween
      rw [← hrequests] at hown
      exact hown
  · have hlength : (s.takeBatch i first rest).requests.length = s.requests.length :=
      List.length_modify ..
    have hempty : (s.takeBatch i first rest).pending = [] := rfl
    rw [hlength, hbatches, hempty, List.flatMap_append, List.flatMap_singleton, hrequests,
      List.map_nil, List.nil_append]
    exact List.perm_append_comm.trans h.located
  · intro q hq
    apply hitems
    apply h.parsed
    cases hq with
    | inl hq => exact nomatch hq
    | inr hq =>
        obtain ⟨b, hb, hqb⟩ := hq
        rw [hbatches] at hb
        cases List.mem_append.mp hb with
        | inl hb => exact .inr ⟨b, hb, hqb⟩
        | inr hb =>
            obtain rfl := List.mem_singleton.mp hb
            rw [hnew] at hqb
            exact .inl (hpending ▸ hqb)
  · intro b hb
    rw [hbatches] at hb
    cases List.mem_append.mp hb with
    | inl hb => exact h.batch b hb
    | inr hb =>
        obtain rfl := List.mem_singleton.mp hb
        rw [hnew]
        refine ⟨Nat.zero_le 1, ?_⟩
        show (mergeAll first.parsed (rest.map QueuedItem.parsed)).payload.rows = _
        rw [mergeAll_eq, List.flatMap_cons, List.flatMap_map]
  · intro k b hb
    rw [hbatches] at hb
    by_cases hk : k < s.batches.length
    · rw [List.getElem?_append_left hk] at hb
      exact .inr ((h.settled_between hr hbetween hb).frame hitems)
    · have hlt := (List.getElem?_eq_some_iff.mp hb).1
      rw [List.length_append, List.length_singleton] at hlt
      obtain rfl : k = s.batches.length := by omega
      exact .inl ⟨i, _, hself, rfl⟩

/-- **The head of the leader's loop.** -/
theorem Accounted.drainPending (h : s.Accounted) (hr : s.requests[i]? = some r)
    (hbetween : BetweenBatches r) : (s.drainPending i).Accounted := by
  unfold TargetCoordinator.drainPending
  split
  · next hempty => exact h.releaseLead hr hbetween hempty
  · next first rest hpending => exact h.takeBatch hr hbetween hpending

/-! ## attempts -/

theorem flatMap_modify {α β : Type} (l : List α) (k : Nat) {f : α → α} {g : α → List β}
    (h : ∀ a, g (f a) = g a) : (l.modify k f).flatMap g = l.flatMap g := by
  induction l generalizing k with
  | nil => cases k <;> rfl
  | cons a l ih =>
      cases k with
      | zero => rw [List.modify_zero_cons, List.flatMap_cons, List.flatMap_cons, h]
      | succ k => rw [List.modify_succ_cons, List.flatMap_cons, List.flatMap_cons, ih]

/-- A batch behind a change of one batch. -/
theorem mem_modify {α : Type} {l : List α} {k : Nat} {f : α → α} {a b : α} (hk : l[k]? = some b)
    (h : a ∈ l.modify k f) : a ∈ l ∨ a = f b := by
  obtain ⟨m, hm⟩ := List.getElem?_of_mem h
  rw [List.getElem?_modify, Option.map_eq_map, Option.map_eq_some_iff] at hm
  obtain ⟨c, hc, rfl⟩ := hm
  by_cases hkm : k = m
  · subst hkm
    rw [hk, Option.some.injEq] at hc
    exact .inr (by rw [if_pos rfl, hc])
  · exact .inl (by rw [if_neg hkm]; exact List.mem_of_getElem? hc)

/-- The committed requests behind a step of a batch whose transactions were open:
those of the batch may have joined. -/
theorem committed_modifyBatch {b : DrainedBatch} {f : DrainedBatch → DrainedBatch}
    (hb : s.batches[k]? = some b) (hitems : ∀ b, (f b).items = b.items)
    (hnot : ¬ b.IsCommitted) (hj : j ∉ b.requests) (phase : RequestPhase) :
    ((s.modifyBatch k f).setPhase i phase).Committed j ↔ s.Committed j := by
  have hrequests : ∀ b, (f b).requests = b.requests := fun b => by
    rw [DrainedBatch.requests, DrainedBatch.requests, hitems]
  rw [committed_iff, committed_iff]
  constructor
  · intro h
    obtain ⟨c, hc, hcommitted, hin⟩ := h
    cases mem_modify hb hc with
    | inl hc => exact ⟨c, hc, hcommitted, hin⟩
    | inr hc =>
        rw [hc, hrequests] at hin
        exact absurd hin hj
  · intro h
    obtain ⟨c, hc, hcommitted, hin⟩ := h
    obtain ⟨m, hm⟩ := List.getElem?_of_mem hc
    have hkm : k ≠ m := by
      intro he
      rw [← he, hb, Option.some.injEq] at hm
      exact hnot (hm ▸ hcommitted)
    refine ⟨c, List.mem_of_getElem? (i := m) ?_, hcommitted, hin⟩
    show (s.batches.modify k f)[m]? = some c
    rw [List.getElem?_modify, hm]
    simp [hkm]

/-- An attempt ends: the transactions of the leader's batch go on, and nothing is
written yet. -/
theorem Accounted.attempts (h : s.Accounted) (hr : s.requests[i]? = some r) {retried : Bool}
    {b : DrainedBatch} (hleads : leads r = true) (hwork : batch? r = some k)
    (hing : s.Ingesting k retried b) {f : DrainedBatch → DrainedBatch}
    (hitems : ∀ b, (f b).items = b.items ∧ (f b).payload = b.payload)
    (hcount : (f b).transactions.count .committed ≤ 1) {phase : RequestPhase}
    (hwork' : batch? { r with phase } = some k)
    (hgood : ((s.modifyBatch k f).setPhase i phase).CallGood i { r with phase }) :
    ((s.modifyBatch k f).setPhase i phase).Accounted := by
  obtain ⟨hb, htransactions, hfresh⟩ := hing
  have hitemsKept : ∀ j P, s.ItemIs j P → ((s.modifyBatch k f).setPhase i phase).ItemIs j P :=
    fun j P hP => ItemIs.setPhase (s := s.modifyBatch k f) hP i phase
  have hself : ((s.modifyBatch k f).setPhase i phase).requests[i]? = some { r with phase } :=
    getElem?_setPhase_self (s := s.modifyBatch k f) hr
  have hnot : ¬ b.IsCommitted := by
    rw [DrainedBatch.IsCommitted, htransactions]
    cases retried <;> simp
  refine h.leaderSteps hr hleads
    (fun j q' hq' => setPhase_seen (s := s.modifyBatch k f) hq') ?_ ?_ ?_
    (fun q hq => hitemsKept _ _ (h.queued q hq)) ?_ ?_ ?_
  · intro j q hq hdone
    refine committed_modifyBatch hb (fun b => (hitems b).1) hnot (fun hj => ?_) phase
    have hundone := (hfresh j hj).not_done hq
    rw [hdone] at hundone
    contradiction
  · intro r' hr'
    obtain rfl := Option.some.inj (hself.symm.trans hr')
    exact ⟨hgood, fun _ => h.committing i r hr hleads⟩
  · have hlength : ((s.modifyBatch k f).setPhase i phase).requests.length = s.requests.length :=
      List.length_modify ..
    have hflat : (s.batches.modify k f).flatMap DrainedBatch.requests =
        s.batches.flatMap DrainedBatch.requests :=
      flatMap_modify _ _ fun b => by rw [DrainedBatch.requests, DrainedBatch.requests, (hitems b).1]
    rw [hlength]
    show (s.pending.map _ ++ (s.batches.modify k f).flatMap _).Perm _
    rw [hflat]
    exact h.located
  · intro q hq
    apply hitemsKept
    apply h.parsed
    cases hq with
    | inl hq => exact .inl hq
    | inr hq =>
        obtain ⟨c, hc, hqc⟩ := hq
        cases mem_modify hb hc with
        | inl hc => exact .inr ⟨c, hc, hqc⟩
        | inr hc =>
            rw [hc, (hitems b).1] at hqc
            exact .inr ⟨b, List.mem_of_getElem? hb, hqc⟩
  · intro c hc
    cases mem_modify hb hc with
    | inl hc => exact h.batch c hc
    | inr hc =>
        rw [hc, (hitems b).1, (hitems b).2]
        exact ⟨hcount, (h.batch b (List.mem_of_getElem? hb)).2⟩
  · intro m c hc
    by_cases hkm : k = m
    · exact .inl ⟨i, _, hself, hkm ▸ hwork'⟩
    · have hold : s.batches[m]? = some c := by
        have hmod : (s.batches.modify k f)[m]? = some c := hc
        rw [List.getElem?_modify] at hmod
        simpa [hkm] using hmod
      cases h.settled m c hold with
      | inl hleader =>
          obtain ⟨j, q, hq, hm⟩ := hleader
          obtain rfl := h.unique j i q r hq hr (leads_of_batch hm) hleads
          rw [hr, Option.some.injEq] at hq
          rw [← hq, hwork, Option.some.injEq] at hm
          exact absurd hm hkm
      | inr hsettled => exact .inr (hsettled.frame hitemsKept)

theorem batchRequests_eq {b : DrainedBatch} (hb : s.batches[k]? = some b) :
    s.batchRequests k = b.requests := by
  rw [batchRequests, hb]
  rfl

/-- The batch behind a step of its transactions. -/
theorem getElem?_modifyBatch {b : DrainedBatch} (hb : s.batches[k]? = some b)
    (f : DrainedBatch → DrainedBatch) (phase : RequestPhase) :
    ((s.modifyBatch k f).setPhase i phase).batches[k]? = some (f b) := by
  show (s.batches.modify k f)[k]? = _
  simp [hb]

/-- An attempt writes to no item. -/
theorem Fresh.attempted (h : s.Fresh j) (k : Nat) (f : DrainedBatch → DrainedBatch) (i : Nat)
    (phase : RequestPhase) : ((s.modifyBatch k f).setPhase i phase).Fresh j := by
  have hfresh : (s.modifyBatch k f).Fresh j := by
    obtain ⟨r, hr, hitem⟩ := h
    exact ⟨r, hr, hitem⟩
  exact ItemIs.setPhase hfresh i phase

/-- The leader begins to resolve its batch. -/
theorem Accounted.startsMarking (h : s.Accounted) {item : PendingItem} {retried : Bool}
    (hr : s.requests[i]? = some { item, phase := .ingesting k retried })
    {status : TransactionStatus} {outcome : BatchOutcome}
    (hstatus : status = .committed ↔ outcome.isFailure = false) :
    ((s.modifyBatch k fun b => b.endTransaction status).setPhase i
      (.marking k outcome (s.batchRequests k) .done)).Accounted := by
  obtain ⟨b, hing, hown⟩ := h.calls i _ hr
  obtain ⟨hb, htransactions, hfresh⟩ := hing
  rw [batchRequests_eq hb]
  have hends : (b.endTransaction status).transactions =
      if retried then [.rolledBack, status] else [status] := by
    rw [DrainedBatch.endTransaction, htransactions]
    cases retried <;> rfl
  have hcommitted : (b.endTransaction status).IsCommitted ↔ outcome.isFailure = false := by
    rw [DrainedBatch.IsCommitted, hends, ← hstatus]
    cases retried <;> simp [eq_comm]
  refine h.attempts (f := fun b => b.endTransaction status) hr rfl rfl
    ⟨hb, htransactions, hfresh⟩ (fun b => ⟨rfl, rfl⟩) ?_ ?_ ?_
  · rw [hends]
    cases retried <;> cases status <;> decide
  · rfl
  · refine ⟨⟨b.endTransaction status, getElem?_modifyBatch hb _ _, hcommitted, ?_, [], rfl, ?_⟩,
      hown⟩
    · exact .of_fresh (fun j hj => (hfresh j hj).attempted _ _ i _) _
    · exact fun j hj => nomatch hj

/-- The leader tries again after a `TransactionException`. -/
theorem Accounted.retries (h : s.Accounted) {item : PendingItem}
    (hr : s.requests[i]? = some { item, phase := .ingesting k false }) :
    ((s.modifyBatch k fun b => (b.endTransaction .rolledBack).beginTransaction).setPhase i
      (.ingesting k true)).Accounted := by
  obtain ⟨b, hing, hown⟩ := h.calls i _ hr
  obtain ⟨hb, htransactions, hfresh⟩ := hing
  have hagain : ((b.endTransaction .rolledBack).beginTransaction).transactions =
      [.rolledBack, .running] := by
    rw [DrainedBatch.beginTransaction, DrainedBatch.endTransaction, htransactions]
    rfl
  refine h.attempts (f := fun b => (b.endTransaction .rolledBack).beginTransaction) hr rfl rfl
    ⟨hb, htransactions, hfresh⟩ (fun b => ⟨rfl, rfl⟩) ?_ ?_ ?_
  · rw [hagain]
    decide
  · rfl
  · exact ⟨_, ⟨getElem?_modifyBatch hb _ _, hagain, fun j hj => (hfresh j hj).attempted _ _ i _⟩,
      hown⟩

/-- **An attempt of the leader ends.** -/
theorem Accounted.attempt (h : s.Accounted) {outcome : AttemptOutcome}
    (hstep : s.step (.attempt i outcome) = some s') : s'.Accounted := by
  have hgives : ∀ {k : Nat} {retried : Bool} {item : PendingItem} (message : Bytes),
      s.requests[i]? = some { item, phase := .ingesting k retried } →
      (s.giveUp i k message).Accounted := by
    intro k retried item message hr
    exact h.startsMarking hr (by simp [BatchOutcome.isFailure])
  simp only [TargetCoordinator.step] at hstep
  split at hstep
  · next item k retried hr =>
    cases outcome with
    | succeeds stats =>
        cases hstep
        exact h.startsMarking hr (by simp [BatchOutcome.isFailure])
    | conflicts message =>
        cases retried with
        | true =>
            cases hstep
            exact hgives message hr
        | false =>
            cases hstep
            exact h.retries hr
    | fails message =>
        cases hstep
        exact hgives message hr
  · contradiction

/-! ## marks -/

/-- No request is in two places. -/
theorem Accounted.nodup (h : s.Accounted) :
    (s.pending.map QueuedItem.request ++ s.batches.flatMap DrainedBatch.requests).Nodup :=
  h.located.nodup_iff.mpr List.nodup_range

/-- A request is in one batch. -/
theorem Accounted.batch_unique (h : s.Accounted) {m : Nat} {b c : DrainedBatch}
    (hb : s.batches[k]? = some b) (hc : s.batches[m]? = some c) (hjb : j ∈ b.requests)
    (hjc : j ∈ c.requests) : k = m := by
  obtain ⟨-, hpairwise⟩ := List.nodup_flatMap.mp (List.nodup_append.mp h.nodup).2.1
  obtain ⟨hk, rfl⟩ := List.getElem?_eq_some_iff.mp hb
  obtain ⟨hm, rfl⟩ := List.getElem?_eq_some_iff.mp hc
  rw [List.pairwise_iff_getElem] at hpairwise
  obtain hlt | heq | hgt := Nat.lt_trichotomy k m
  · exact absurd hjc (hpairwise k m hk hm hlt hjb)
  · exact heq
  · exact absurd hjb (hpairwise m k hm hk hgt hjc)

/-- A queued request is in no batch. -/
theorem Accounted.not_queued (h : s.Accounted) {b : DrainedBatch} (hb : b ∈ s.batches)
    (hj : j ∈ b.requests) : j ∉ s.pending.map QueuedItem.request := by
  intro hqueued
  exact (List.nodup_append.mp h.nodup).2.2 j hqueued j (List.mem_flatMap.mpr ⟨b, hb, hj⟩) rfl

theorem Accounted.nodup_batch (h : s.Accounted) {b : DrainedBatch} (hb : b ∈ s.batches) :
    b.requests.Nodup :=
  (List.nodup_flatMap.mp (List.nodup_append.mp h.nodup).2.1).1 b hb

/-- A call behind a write to an item. -/
theorem getElem?_writeItem {outcome : BatchOutcome} {write : MarkWrite} {l : Nat} {r' : Request}
    (h : (s.writeItem j outcome write).requests[l]? = some r') :
    ∃ r, s.requests[l]? = some r ∧ r'.phase = r.phase ∧
      (l = j ∧ r'.item = r.item.write outcome write ∨ l ≠ j ∧ r' = r) := by
  simp only [writeItem, List.getElem?_modify, Option.map_eq_map, Option.map_eq_some_iff] at h
  obtain ⟨r, hr, rfl⟩ := h
  by_cases hjl : j = l
  · exact ⟨r, hr, by simp [hjl], .inl ⟨hjl.symm, by simp [hjl]⟩⟩
  · exact ⟨r, hr, by simp [hjl], .inr ⟨fun he => hjl he.symm, by simp [hjl]⟩⟩

theorem exists_writeItem {l : Nat} (h : s.requests[l]? = some r) (j : Nat) (outcome : BatchOutcome)
    (write : MarkWrite) : ∃ r', (s.writeItem j outcome write).requests[l]? = some r' := by
  obtain ⟨hlt, -⟩ := List.getElem?_eq_some_iff.mp h
  have hlt' : l < (s.writeItem j outcome write).requests.length := by
    rw [writeItem, List.length_modify]
    exact hlt
  exact ⟨_, List.getElem?_eq_getElem hlt'⟩

/-- The other items stay. -/
theorem ItemIs.writeItem_other {P : PendingItem → Prop} {l : Nat} (h : s.ItemIs l P) (hlj : l ≠ j)
    (outcome : BatchOutcome) (write : MarkWrite) : (s.writeItem j outcome write).ItemIs l P := by
  obtain ⟨r, hr, hP⟩ := h
  have hjl : j ≠ l := fun he => hlj he.symm
  exact ⟨r, by simp [writeItem, hr, hjl], hP⟩

/-- The item written to. -/
theorem ItemIs.writeItem_self {P : PendingItem → Prop} {outcome : BatchOutcome} {write : MarkWrite}
    (h : s.ItemIs j fun item => P (item.write outcome write)) :
    (s.writeItem j outcome write).ItemIs j P := by
  obtain ⟨r, hr, hP⟩ := h
  exact ⟨{ r with item := r.item.write outcome write }, by simp [writeItem, hr], hP⟩

/-- What is before the leader after a write: the rest of the item's writes, or the
rest of the items. -/
theorem TodoWritten.writes {outcome : BatchOutcome} {write : MarkWrite} {todo : List Nat}
    (h : s.TodoWritten outcome.isFailure write (j :: todo)) (hnodup : (j :: todo).Nodup) :
    match write.next with
    | some next => (s.writeItem j outcome write).TodoWritten outcome.isFailure next (j :: todo)
    | none => (s.writeItem j outcome write).Written j outcome.isFailure ∧
        (s.writeItem j outcome write).TodoWritten outcome.isFailure .done todo := by
  obtain ⟨hhead, hrest⟩ := h
  have hne : ∀ i ∈ todo, i ≠ j := by
    intro i hi he
    exact (List.nodup_cons.mp hnodup).1 (he ▸ hi)
  have hrest' : ∀ i ∈ todo, (s.writeItem j outcome write).Fresh i :=
    fun i hi => (hrest i hi).writeItem_other (hne i hi) outcome write
  cases write with
  | done =>
      refine ⟨ItemIs.writeItem_self (hhead.mono fun item hitem => ?_), hrest'⟩
      exact ⟨rfl, hitem.2⟩
  | failed =>
      refine ⟨ItemIs.writeItem_self (hhead.mono fun item hitem => ?_), hrest'⟩
      exact ⟨hitem.1, rfl⟩
  | message =>
      refine ⟨ItemIs.writeItem_self (hhead.mono fun item hitem => ?_), hrest'⟩
      cases outcome <;> exact hitem
  | stats =>
      refine ⟨ItemIs.writeItem_self (hhead.mono fun item hitem => ?_), ?_⟩
      · cases outcome <;> exact hitem
      · exact .of_fresh hrest' _

/-- A write keeps `done`. -/
theorem PendingItem.done_write {item : PendingItem} (h : item.done = true) (outcome : BatchOutcome)
    (write : MarkWrite) : (item.write outcome write).done = true := by
  cases write <;> cases outcome <;> first | exact h | rfl

/-- The leader writes to the first of its items. -/
theorem Accounted.writes (h : s.Accounted) {item : PendingItem} {outcome : BatchOutcome}
    {todo : List Nat} {write : MarkWrite}
    (hr : s.requests[i]? = some { item, phase := .marking k outcome (j :: todo) write })
    {todo' : List Nat} {write' : MarkWrite}
    (hnext : match write.next with
      | some next => todo' = j :: todo ∧ write' = next
      | none => todo' = todo ∧ write' = .done) :
    ((s.writeItem j outcome write).setPhase i (.marking k outcome todo' write')).Accounted := by
  obtain ⟨⟨b, hb, houtcome, htodo, written, hsplit, hwritten⟩, hown⟩ := h.calls i _ hr
  have hin : j ∈ b.requests := by
    rw [hsplit]
    exact List.mem_append_right _ List.mem_cons_self
  have hmem := List.mem_of_getElem? hb
  have hnodup := h.nodup_batch hmem
  rw [hsplit] at hnodup
  obtain ⟨-, hnodupTodo, hdisjoint⟩ := List.nodup_append.mp hnodup
  have hrest := htodo.writes hnodupTodo
  -- a request elsewhere is another one
  have hother : ∀ l P, s.ItemIs l P → l ≠ j →
      ((s.writeItem j outcome write).setPhase i (.marking k outcome todo' write')).ItemIs l P :=
    fun l P hP hlj => (hP.writeItem_other hlj outcome write).setPhase i _
  have hcalls : ∀ (l : Nat) (q' : Request),
      ((s.writeItem j outcome write).setPhase i (.marking k outcome todo' write')).requests[l]? =
        some q' → ∃ q, s.requests[l]? = some q ∧ (q.item.done = true → q'.item.done = true) ∧
          (l = i ∨ q'.phase = q.phase) := by
    intro l q' hq'
    obtain ⟨q₁, hq₁, hdone, hphase⟩ := setPhase_seen hq'
    obtain ⟨q, hq, hphase₁, ⟨-, hitem⟩ | ⟨-, rfl⟩⟩ := getElem?_writeItem hq₁
    · refine ⟨q, hq, fun hd => hdone ?_, hphase.imp_right fun he => he.trans hphase₁⟩
      rw [hitem]
      exact PendingItem.done_write hd outcome write
    · exact ⟨q₁, hq, hdone, hphase⟩
  have hmove : ∀ l P, (s.writeItem j outcome write).ItemIs l P →
      ((s.writeItem j outcome write).setPhase i (.marking k outcome todo' write')).ItemIs l P :=
    fun l P hP => hP.setPhase i _
  have hbefore : ∀ l ∈ written, (s.writeItem j outcome write).Written l outcome.isFailure := by
    intro l hl
    refine (hwritten l hl).writeItem_other (fun he => ?_) outcome write
    exact hdisjoint l hl j List.mem_cons_self he
  refine h.leaderSteps hr rfl hcalls (fun _ _ _ _ => Iff.rfl) ?_ ?_ ?_ ?_ h.batch ?_
  · intro r' hr'
    have hphase : r'.phase = .marking k outcome todo' write' := by
      obtain ⟨q, -, -, ⟨-, rfl⟩ | ⟨hne, -⟩⟩ := getElem?_setPhase hr'
      · rfl
      · exact absurd rfl hne
    have hstays : item.done = true → r'.item.done = true := by
      obtain ⟨q, hq, hdone, -⟩ := hcalls i r' hr'
      rw [hr, Option.some.injEq] at hq
      subst hq
      exact hdone
    refine ⟨?_, fun _ => h.committing i _ hr rfl⟩
    rw [CallGood, hphase]
    cases hn : write.next with
    | some next =>
        rw [hn] at hnext hrest
        obtain ⟨rfl, rfl⟩ := hnext
        exact ⟨⟨b, hb, houtcome, hrest.frame hmove, written, hsplit,
          fun l hl => hmove _ _ (hbefore l hl)⟩, hown.imp_right hstays⟩
    | none =>
        rw [hn] at hnext hrest
        obtain ⟨rfl, rfl⟩ := hnext
        refine ⟨⟨b, hb, houtcome, hrest.2.frame hmove, written ++ [j], ?_, fun l hl => ?_⟩, ?_⟩
        · rw [hsplit, List.append_assoc]
          rfl
        · cases List.mem_append.mp hl with
          | inl hl => exact hmove _ _ (hbefore l hl)
          | inr hl =>
              obtain rfl := List.mem_singleton.mp hl
              exact hmove _ _ hrest.1
        · cases hown with
          | inr hdone => exact .inr (hstays hdone)
          | inl hi =>
              cases List.mem_cons.mp hi with
              | inr hi => exact .inl hi
              | inl hi =>
                  -- the leader's own item is the one resolved now
                  subst hi
                  exact .inr (ItemIs.of_call (hmove _ _ hrest.1) hr').1
  · have hlength : ((s.writeItem j outcome write).setPhase i
        (.marking k outcome todo' write')).requests.length = s.requests.length := by
      simp [setPhase, writeItem]
    rw [hlength]
    exact h.located
  · intro q hq
    refine hother _ _ (h.queued q hq) fun he => h.not_queued hmem hin ?_
    exact he ▸ List.mem_map_of_mem hq
  · intro q hq
    have hparsed := h.parsed q hq
    apply hmove
    by_cases hqj : q.request = j
    · rw [hqj] at hparsed ⊢
      refine ItemIs.writeItem_self (hparsed.mono fun item hitem => ?_)
      cases write <;> cases outcome <;> exact hitem
    · exact hparsed.writeItem_other hqj outcome write
  · intro m c hc
    by_cases hkm : k = m
    · obtain ⟨r₁, hr₁⟩ := exists_writeItem hr j outcome write
      refine .inl ⟨i, _, getElem?_setPhase_self hr₁, ?_⟩
      rw [← hkm]
      rfl
    · cases h.settled m c hc with
      | inl hleader =>
          obtain ⟨l, q, hq, hm⟩ := hleader
          obtain rfl := h.unique l i q _ hq hr (leads_of_batch hm) rfl
          rw [hr, Option.some.injEq] at hq
          rw [← hq] at hm
          exact absurd (Option.some.inj hm) hkm
      | inr hsettled =>
          obtain ⟨failed, hfailed, hall⟩ := hsettled
          refine .inr ⟨failed, hfailed, fun l hl => hother _ _ (hall l hl) fun he => ?_⟩
          exact hkm (h.batch_unique hb hc hin (he ▸ hl))

/-! ## every event -/

/-- What the item of a waiting or leaving call says, if it is done and nobody is
between the writes of `done` and `failed` of a failed batch. -/
theorem Accounted.answer_iff (h : s.Accounted) (hr : s.requests[i]? = some r)
    (hdone : r.item.done = true) (hwritten : ¬ s.HalfFailed i) :
    r.item.failed = false ↔ s.Committed i := by
  -- a request whose item is done is in a batch
  have hplace :
      i ∈ s.pending.map QueuedItem.request ++ s.batches.flatMap DrainedBatch.requests := by
    rw [h.located.mem_iff, List.mem_range]
    exact (List.getElem?_eq_some_iff.mp hr).1
  have hnotFresh : ¬ s.Fresh i := by
    intro hfresh
    rw [hfresh.not_done hr] at hdone
    contradiction
  obtain ⟨b, hb, hin⟩ : ∃ b ∈ s.batches, i ∈ b.requests := by
    cases List.mem_append.mp hplace with
    | inl hqueued =>
        obtain ⟨q, hq, hqi⟩ := List.mem_map.mp hqueued
        exact absurd (hqi ▸ h.queued q hq) hnotFresh
    | inr htaken => exact List.mem_flatMap.mp htaken
  obtain ⟨k, hk⟩ := List.getElem?_of_mem hb
  have hcommitted : s.Committed i ↔ b.IsCommitted := by
    rw [committed_iff]
    constructor
    · intro hc
      obtain ⟨c, hc, hcommitted, hin'⟩ := hc
      obtain ⟨m, hm⟩ := List.getElem?_of_mem hc
      obtain rfl := h.batch_unique hk hm hin hin'
      rw [hk, Option.some.injEq] at hm
      exact hm ▸ hcommitted
    · exact fun hc => ⟨b, hb, hc, hin⟩
  have hsays : ∀ {failed : Bool}, (b.IsCommitted ↔ failed = false) → s.Written i failed →
      (r.item.failed = false ↔ s.Committed i) := by
    intro failed houtcome hsaid
    rw [(ItemIs.of_call hsaid hr).2, hcommitted, houtcome]
  cases h.settled k b hk with
  | inr hsettled =>
      obtain ⟨failed, houtcome, hall⟩ := hsettled
      exact hsays houtcome (hall i hin)
  | inl hleader =>
      obtain ⟨j, q, hq, hwork⟩ := hleader
      have hgood := h.calls j q hq
      obtain ⟨item, phase⟩ := q
      cases phase with
      | ingesting m retried =>
          obtain rfl := Option.some.inj hwork
          obtain ⟨b', ⟨hb', -, hfresh⟩, -⟩ := hgood
          rw [hk, Option.some.injEq] at hb'
          exact absurd (hfresh i (hb' ▸ hin)) hnotFresh
      | marking m outcome todo write =>
          obtain rfl := Option.some.inj hwork
          obtain ⟨⟨b', hb', houtcome, htodo, written, hsplit, hall⟩, -⟩ := hgood
          rw [hk, Option.some.injEq] at hb'
          subst hb'
          rw [hsplit] at hin
          cases List.mem_append.mp hin with
          | inl hin => exact hsays houtcome (hall i hin)
          | inr hin =>
              cases todo with
              | nil => exact absurd hin List.not_mem_nil
              | cons l rest =>
                  cases List.mem_cons.mp hin with
                  | inr hin => exact absurd (htodo.2 i hin) hnotFresh
                  | inl hin =>
                      subst hin
                      cases write with
                      | done => exact absurd htodo.1 hnotFresh
                      | failed =>
                          cases outcome with
                          | ok stats => exact hsays houtcome htodo.1
                          | error message =>
                              exact absurd ⟨j, _, m, message, rest, hq, rfl⟩ hwritten
                      | message => exact hsays houtcome htodo.1
                      | stats => exact hsays houtcome htodo.1
      | _ => contradiction

/-- **One event** keeps the account, if the call that reads its item finds it
written. -/
theorem Accounted.step {event : TargetEvent} (h : s.Accounted) (hguard : s.ReadsWritten event)
    (hstep : s.step event = some s') : s'.Accounted := by
  cases event with
  | enter parsed payload =>
      cases hstep
      have hqueued := h.enqueue parsed payload
      have hnew : (s.enqueue parsed payload).requests[s.requests.length]? =
          some { item := .create parsed payload, phase := .waiting } := List.getElem?_concat_length
      have hin : s.requests.length ∈ (s.enqueue parsed payload).pending.map QueuedItem.request := by
        simp [TargetCoordinator.enqueue]
      unfold enter
      dsimp only
      split
      · exact hqueued
      · next hfree =>
        have hfree : s.committing = false := by simpa using hfree
        have hleading := hqueued.takeLead hnew rfl hfree hin
        have hself :
            ((s.enqueue parsed payload).takeLead s.requests.length).requests[s.requests.length]? =
            some { item := .create parsed payload, phase := .lingering } :=
          getElem?_setPhase_self (s := { s.enqueue parsed payload with committing := true }) hnew
        split
        · exact hleading
        · exact hleading.drainPending hself (.inl rfl)
  | wake i =>
      simp only [TargetCoordinator.step] at hstep
      split at hstep
      · next item hr =>
        cases hstep
        exact h.drainPending hr (.inl rfl)
      · contradiction
  | attempt i outcome => exact h.attempt hstep
  | mark i =>
      simp only [TargetCoordinator.step] at hstep
      split at hstep
      · next item k outcome j todo write hr =>
        split at hstep
        · next next hnext =>
          cases hstep
          exact h.writes hr (by rw [hnext]; exact ⟨rfl, rfl⟩)
        · next hnext =>
          cases hstep
          exact h.writes hr (by rw [hnext]; exact ⟨rfl, rfl⟩)
      · contradiction
  | relock i =>
      simp only [TargetCoordinator.step] at hstep
      split at hstep
      · next item k outcome write hr =>
        cases hstep
        exact h.drainPending hr (.inr ⟨k, outcome, write, rfl⟩)
      · contradiction
  | resume i =>
      simp only [TargetCoordinator.step] at hstep
      split at hstep
      · next item hr =>
        split at hstep
        · next hdone =>
          cases hstep
          exact h.moves hr rfl hdone fun hlead => (nomatch hlead)
        · contradiction
      · contradiction
  | answer i =>
      simp only [TargetCoordinator.step] at hstep
      split at hstep
      · next item hr =>
        cases hstep
        have hdone : item.done = true := h.calls i _ hr
        refine h.moves hr rfl ⟨hdone, ?_⟩ fun hlead => (nomatch hlead)
        rw [← h.answer_iff hr hdone hguard]
        exact isSuccess_answer item
      · contradiction
  | exit i =>
      simp only [TargetCoordinator.step] at hstep
      split at hstep
      · next item result hr =>
        cases hstep
        have hactive : Accounted { s with active := s.active - 1 } :=
          ⟨h.located, h.queued, h.parsed, h.batch, h.settled, h.calls, h.committing, h.unique⟩
        exact hactive.moves hr rfl (h.calls i _ hr) fun hlead => (nomatch hlead)
      · contradiction

/-! ## once -/

/-- What a batch committed, it committed once. -/
theorem committed_sublist {b : DrainedBatch} (h : b.transactions.count .committed ≤ 1) :
    b.committedTransactions.flatten.Sublist b.requests := by
  have hlength : (b.transactions.filter (· = .committed)).length ≤ 1 := by
    rw [← List.countP_eq_length_filter]
    exact h
  rw [DrainedBatch.committedTransactions]
  generalize b.transactions.filter (· = .committed) = committed at hlength ⊢
  cases committed with
  | nil => exact List.nil_sublist _
  | cons status rest =>
      rw [List.length_cons] at hlength
      obtain rfl : rest = [] := List.eq_nil_of_length_eq_zero (by omega)
      rw [List.map_singleton, List.flatten_singleton]

theorem Accounted.once (h : s.Accounted) : s.committedTransactions.flatten.Nodup := by
  have hall : ∀ batches : List DrainedBatch,
      (∀ b ∈ batches, b.transactions.count .committed ≤ 1) →
      (batches.flatMap DrainedBatch.committedTransactions).flatten.Sublist
        (batches.flatMap DrainedBatch.requests) := by
    intro batches
    induction batches with
    | nil => exact fun _ => List.Sublist.refl _
    | cons b rest ih =>
        intro hcount
        obtain ⟨hb, hrest⟩ := List.forall_mem_cons.mp hcount
        rw [List.flatMap_cons, List.flatMap_cons, List.flatten_append]
        exact (committed_sublist hb).append (ih hrest)
  exact (List.nodup_append.mp h.nodup).2.1.sublist (hall s.batches fun b hb => (h.batch b hb).1)

/-- A call with a result is done, and its result says what was committed. -/
theorem Accounted.result (h : s.Accounted) (hr : s.requests[i]? = some r)
    {result : Except RawError RawIngestStats} (hresult : result? r = some result) :
    r.item.done = true ∧ (isSuccess result ↔ s.Committed i) := by
  have hgood := h.calls i r hr
  obtain ⟨item, phase⟩ := r
  cases phase with
  | answered res =>
      obtain rfl := Option.some.inj hresult
      exact hgood
  | returned res =>
      obtain rfl := Option.some.inj hresult
      exact hgood
  | _ => contradiction

theorem Accounted.exactlyOnce (h : s.Accounted) : s.ExactlyOnce where
  located := h.located
  taken i r result hr hresult := by
    have hplace :
        i ∈ s.pending.map QueuedItem.request ++ s.batches.flatMap DrainedBatch.requests := by
      rw [h.located.mem_iff, List.mem_range]
      exact (List.getElem?_eq_some_iff.mp hr).1
    refine (List.mem_append.mp hplace).resolve_left fun hqueued => ?_
    obtain ⟨q, hq, hqi⟩ := List.mem_map.mp hqueued
    have hundone := (hqi ▸ h.queued q hq : s.Fresh i).not_done hr
    rw [(h.result hr hresult).1] at hundone
    contradiction
  rows b hb := ⟨(h.batch b hb).2, fun q hq => h.parsed q (.inr ⟨b, hb, hq⟩)⟩
  once := h.once
  answered i r result hr hresult := (h.result hr hresult).2

/-- A call that reads a half-written item of a failed batch is answered with
success, and nothing of it was committed. -/
theorem Accounted.not_exactlyOnce {event : TargetEvent} (h : s.Accounted)
    (hguard : ¬ s.ReadsWritten event) (hstep : s.step event = some s') : ¬ s'.ExactlyOnce := by
  cases event with
  | answer i =>
      simp only [TargetCoordinator.step] at hstep
      split at hstep
      · next item hr =>
        cases hstep
        intro honce
        obtain ⟨j, q, k, message, todo, hq, hphase⟩ := not_not.mp hguard
        have hgood := h.calls j q hq
        rw [CallGood, hphase] at hgood
        obtain ⟨⟨b, hb, houtcome, htodo, written, hsplit, -⟩, -⟩ := hgood
        have hsaid := ItemIs.of_call htodo.1 hr
        have hsuccess := (isSuccess_answer item).mpr hsaid.2
        have hcommitted := (honce.answered i _ _ (getElem?_setPhase_self hr) rfl).mp hsuccess
        obtain ⟨c, hc, hc', hin⟩ := committed_iff.mp hcommitted
        obtain ⟨m, hm⟩ := List.getElem?_of_mem hc
        have hin' : i ∈ b.requests := by
          rw [hsplit]
          exact List.mem_append_right _ List.mem_cons_self
        obtain rfl := h.batch_unique hb hm hin' hin
        rw [show s.batches[k]? = some c from hm, Option.some.injEq] at hb
        rw [← hb] at houtcome
        exact nomatch houtcome.mp hc'
      · contradiction
  | _ => exact absurd trivial hguard

end TargetCoordinator

theorem targetCommits_init : targetCommits.init.Accounted where
  located := .refl _
  queued _ hq := nomatch hq
  parsed q hq := by
    cases hq with
    | inl hq => exact nomatch hq
    | inr hq =>
        obtain ⟨b, hb, -⟩ := hq
        exact nomatch hb
  batch _ hb := nomatch hb
  settled k b hb := by simp [targetCommits] at hb
  calls i r hr := by simp [targetCommits] at hr
  committing i r hr := by simp [targetCommits] at hr
  unique i j r q hr := by simp [targetCommits] at hr

/-- **Exactly once**: in every state of a run each request is in one place, and in
one committed transaction at most, and what a call returns says whether its
transaction committed, exactly when no call of the run reads its item between the
writes of `done` and `failed` by the leader of a failed batch. -/
theorem targetCommits_exactlyOnce_iff (schedule : List TargetEvent) :
    targetCommits.Throughout TargetCoordinator.ExactlyOnce targetCommits.init schedule ↔
      targetCommits.Guarded TargetCoordinator.ReadsWritten targetCommits.init schedule :=
  throughout_iff_guarded TargetCoordinator.Accounted (fun _ h => h.exactlyOnce)
    (fun _ _ _ h hguard hstep => h.step hguard hstep)
    (fun _ _ _ h hguard hstep => h.not_exactlyOnce hguard hstep) schedule targetCommits_init

/-- A leader takes a second request for its next batch, which fails; the second
call wakes up and reads its item when `done` is written to it. -/
def earlyReader : List TargetEvent :=
  let parsed : RawParsedPayload :=
    { payload := { rows := [], scalarRows := false, parseErrors := 0 }
      root := .unset
      columns := [] }
  let stats : RawIngestStats :=
    { created := false, columnsAdded := 0, columnsWidened := 0, rows := 0, errors := 0 }
  [.enter parsed [], .enter parsed [], .attempt 0 (.succeeds stats), .mark 0, .mark 0, .mark 0,
    .mark 0, .relock 0, .attempt 0 (.fails (bytes "full")), .mark 0, .resume 1, .answer 1]

/-- The second call returns success, and its rows were rolled back. -/
theorem targetCommits_earlyReader : ∃ s, targetCommits.run earlyReader = some s ∧
    s.batches.map DrainedBatch.transactions = [[.committed], [.rolledBack]] ∧ ¬ s.ExactlyOnce := by
  refine ⟨_, rfl, rfl, fun honce => ?_⟩
  have hcommitted := (honce.answered 1 _ _ rfl rfl).mp ⟨_, rfl⟩
  obtain ⟨t, ht, hin⟩ := hcommitted
  revert hin
  revert t
  decide

end RawDuck
