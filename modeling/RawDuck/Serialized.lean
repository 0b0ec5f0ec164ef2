import RawDuck.Ingestor

/-!
# RawDuck.Serialized

The transactions of a request connection: begin, commit and rollback without
SQL, the ingest with its one retry, and the flush of an asynchronous buffer.

A connection is its auto-commit flag over a world that the backend changes; no
transaction is open exactly when the flag is set.  DuckDB sets it before a
commit can raise, so the two ways to fail differ in what they leave:

* `rawIngestSerialized_end` — an ingest that raises leaves the transaction
  open, a commit that raises leaves none;
* `flushClean_iff` — and the handler that rolls back raises in the second case.
-/

namespace RawDuck

open Fallible

/-- What a connection's transactions work on, and how each of their steps ends:
DuckDB's side of `TransactionContext`. -/
structure Backend (ω : Type) where
  /-- A transaction starts. -/
  start : ω → ω
  /-- `RawIngestParsedPayload` within the open transaction. -/
  ingest : RawParsedPayload → Bytes → EStateM RawError ω RawIngestStats
  /-- `ValidChecker::IsInvalidated` of the open transaction. -/
  invalidated : ω → Bool
  /-- The commit of the transaction itself. -/
  commit : EStateM RawError ω PUnit
  /-- The rollback of the transaction itself. -/
  rollback : ω → ω

/-- A `Connection`: its auto-commit flag and the world behind it. -/
structure Connection (ω : Type) where
  autoCommit : Bool
  world : ω

/-- No transaction is open. -/
abbrev Connection.idle {ω : Type} (w : ω) : Connection ω := { autoCommit := true, world := w }

variable {ω : Type}

/-- A computation on a connection. -/
abbrev OnConnection (ω : Type) := EStateM RawError (Connection ω)

variable (b : Backend ω)

/-! ## transaction control -/

/-- The errors of transaction control. -/
def transactionError (message : String) : RawError :=
  { kind := .transaction, message := bytes message }

/-- `RawBeginTransaction`. -/
def rawBeginTransaction : OnConnection ω PUnit := do
  let s ← get
  if !s.autoCommit then throw (transactionError "cannot start a transaction within a transaction")
  else set ({ autoCommit := false, world := b.start s.world } : Connection ω)

/-- `RawRollbackTransaction`; an invalidated transaction is rolled back with its
message, and otherwise like any other. -/
def rawRollbackTransaction : OnConnection ω PUnit := do
  let s ← get
  if s.autoCommit then throw (transactionError "cannot rollback - no transaction is active")
  else set (Connection.idle (b.rollback s.world))

/-- `TransactionContext::Commit`: auto-commit is restored before anything is
raised. -/
def transactionCommit : OnConnection ω PUnit := fun s =>
  match b.commit s.world with
  | .ok _ w => .ok ⟨⟩ (.idle w)
  | .error e w => .error e (.idle w)

/-- `RawCommitTransaction`. -/
def rawCommitTransaction : OnConnection ω PUnit := do
  let s ← get
  if s.autoCommit then throw (transactionError "cannot commit - no transaction is active")
  else if b.invalidated s.world then rawRollbackTransaction b
  else transactionCommit b

/-- The ingest of a payload in the open transaction. -/
def ingestOn (parsed : RawParsedPayload) (text : Bytes) : OnConnection ω RawIngestStats := fun s =>
  match b.ingest parsed text s.world with
  | .ok stats w => .ok stats { s with world := w }
  | .error e w => .error e { s with world := w }

/-! ## one request -/

/-- An ingest and its commit. -/
def ingestAndCommit (parsed : RawParsedPayload) (text : Bytes) :
    OnConnection ω RawIngestStats := do
  let stats ← ingestOn b parsed text
  rawCommitTransaction b
  return stats

/-- `RawIngestSerialized`: one retry after a `TransactionException`, and no
handler around it. -/
def rawIngestSerialized (parsed : RawParsedPayload) (text : Bytes) :
    OnConnection ω RawIngestStats := do
  rawBeginTransaction b
  try ingestAndCommit b parsed text
  catch e =>
    if e.kind = .transaction then
      rawRollbackTransaction b
      rawBeginTransaction b
      ingestAndCommit b parsed text
    else throw e

/-! ## an asynchronous buffer -/

/-- `RawIngestPayload` within the open transaction. -/
def rawIngestPayload (duck : Duck) (payload : Bytes × RawParseOptions) :
    OnConnection ω RawIngestStats := do
  let parsed ← fromExcept (process duck payload.2 payload.1)
  ingestOn b parsed payload.1

/-- The payload loop of `FlushBuffer`: the rows of all of them. -/
def flushPayloads (duck : Duck) : List (Bytes × RawParseOptions) → OnConnection ω Nat
  | [] => pure 0
  | payload :: rest => do
      let stats ← rawIngestPayload b duck payload
      let rows ← flushPayloads duck rest
      return stats.rows + rows

/-- The guarded part of `FlushBuffer`. -/
def flushAndCommit (duck : Duck) (payloads : List (Bytes × RawParseOptions)) :
    OnConnection ω Nat := do
  let flushed ← flushPayloads b duck payloads
  rawCommitTransaction b
  return flushed

/-- `RawAsyncBuffers::FlushBuffer` while the database is alive. -/
def flushBuffer (duck : Duck) (payloads : List (Bytes × RawParseOptions)) :
    OnConnection ω Nat := do
  rawBeginTransaction b
  try flushAndCommit b duck payloads
  catch _ =>
    rawRollbackTransaction b
    pure 0

/-! ## how the steps end -/

variable {b} {parsed : RawParsedPayload} {text : Bytes} {w : ω}

/-- The commit raises in this world, if the run comes to it. -/
def CommitRaises (b : Backend ω) (reached : Option ω) : Prop :=
  ∃ w e w', reached = some w ∧ b.commit w = .error e w'

theorem rawBeginTransaction_idle :
    rawBeginTransaction b (.idle w) = .ok ⟨⟩ { autoCommit := false, world := b.start w } := rfl

theorem rawRollbackTransaction_open :
    rawRollbackTransaction b { autoCommit := false, world := w } =
      .ok ⟨⟩ (.idle (b.rollback w)) := rfl

theorem rawRollbackTransaction_idle :
    rawRollbackTransaction b (.idle w) =
      .error (transactionError "cannot rollback - no transaction is active") (.idle w) := rfl

/-- The world in which a commit after this one happens, unless the transaction
is invalidated. -/
def commitPoint (b : Backend ω) (w : ω) : Option ω := if b.invalidated w then none else some w

/-- The world after that commit. -/
def commitWorld (b : Backend ω) (w : ω) : ω :=
  if b.invalidated w then b.rollback w
  else match b.commit w with
    | .ok _ w' => w'
    | .error _ w' => w'

/-- How the commit of an open transaction ends: with none open, either way. -/
theorem rawCommitTransaction_open (b : Backend ω) (w : ω) :
    (rawCommitTransaction b { autoCommit := false, world := w } =
      .ok ⟨⟩ (.idle (commitWorld b w)) ∧ ¬ CommitRaises b (commitPoint b w)) ∨
    (∃ e, rawCommitTransaction b { autoCommit := false, world := w } =
      .error e (.idle (commitWorld b w)) ∧ CommitRaises b (commitPoint b w)) := by
  have hrun : rawCommitTransaction b { autoCommit := false, world := w } =
      if b.invalidated w then .ok ⟨⟩ (.idle (b.rollback w))
      else transactionCommit b { autoCommit := false, world := w } := by
    rw [rawCommitTransaction, run_bind_of_ok run_get]
    simp only [Bool.false_eq_true, if_false]
    split
    · exact rawRollbackTransaction_open
    · rfl
  rw [hrun, commitPoint, commitWorld]
  cases hinv : b.invalidated w with
  | true => exact .inl ⟨rfl, by simp [CommitRaises]⟩
  | false =>
      simp only [Bool.false_eq_true, if_false, transactionCommit]
      cases hcommit : b.commit w with
      | ok _ w' => exact .inl ⟨rfl, by simp [CommitRaises, hcommit]⟩
      | error e w' => exact .inr ⟨e, rfl, w, e, w', rfl, hcommit⟩

/-- The commit that an ingest of the open transaction comes to. -/
def ingestCommit (b : Backend ω) (parsed : RawParsedPayload) (text : Bytes) (w : ω) : Option ω :=
  match b.ingest parsed text w with
  | .ok _ w' => commitPoint b w'
  | .error _ _ => none

/-- The world after an ingest of the open transaction and its commit, or its
rollback when the ingest raises. -/
def ingestWorld (b : Backend ω) (parsed : RawParsedPayload) (text : Bytes) (w : ω) : ω :=
  match b.ingest parsed text w with
  | .ok _ w' => commitWorld b w'
  | .error _ w' => b.rollback w'

/-- A serialized ingest of the payload has its retry. -/
def retries (b : Backend ω) (parsed : RawParsedPayload) (text : Bytes) (w : ω) : Bool :=
  match b.ingest parsed text (b.start w) with
  | .ok _ _ => false
  | .error e _ => e.kind = .transaction

/-- The world in which the deciding attempt of a serialized ingest runs. -/
def attemptWorld (b : Backend ω) (parsed : RawParsedPayload) (text : Bytes) (w : ω) : ω :=
  if retries b parsed text w then b.start (ingestWorld b parsed text (b.start w)) else b.start w

theorem not_commitRaises_none : ¬ CommitRaises b none := by
  rintro ⟨w, e, w', h, -⟩
  exact nomatch h

/-- An attempt whose ingest succeeds ends with its commit, and no transaction
open. -/
theorem ingestAndCommit_of_ok {stats : RawIngestStats} {w₁ : ω}
    (h : b.ingest parsed text w = .ok stats w₁) :
    (ingestAndCommit b parsed text { autoCommit := false, world := w } =
        .ok stats (.idle (ingestWorld b parsed text w)) ∧
      ¬ CommitRaises b (ingestCommit b parsed text w)) ∨
    (∃ e, ingestAndCommit b parsed text { autoCommit := false, world := w } =
        .error e (.idle (ingestWorld b parsed text w)) ∧
      CommitRaises b (ingestCommit b parsed text w)) := by
  have hon : ingestOn b parsed text { autoCommit := false, world := w } =
      .ok stats { autoCommit := false, world := w₁ } := by
    simp only [ingestOn, h]
  rw [ingestAndCommit, run_bind_of_ok hon]
  simp only [ingestWorld, ingestCommit, h]
  rcases rawCommitTransaction_open b w₁ with ⟨hc, hn⟩ | ⟨e, hc, hr⟩
  · exact .inl ⟨by rw [run_bind_of_ok hc]; rfl, hn⟩
  · exact .inr ⟨e, run_bind_eq_error.mpr (.inl hc), hr⟩

/-- An attempt whose ingest raises leaves its transaction open. -/
theorem ingestAndCommit_of_error {e : RawError} {w₁ : ω}
    (h : b.ingest parsed text w = .error e w₁) :
    ingestAndCommit b parsed text { autoCommit := false, world := w } =
      .error e { autoCommit := false, world := w₁ } := by
  have hon : ingestOn b parsed text { autoCommit := false, world := w } =
      .error e { autoCommit := false, world := w₁ } := by
    simp only [ingestOn, h]
  exact run_bind_eq_error.mpr (.inl hon)

/-- The retry of a serialized ingest, from the world of the failed attempt. -/
theorem retry_open (b : Backend ω) (parsed : RawParsedPayload) (text : Bytes) (w : ω) :
    (do rawRollbackTransaction b
        rawBeginTransaction b
        ingestAndCommit b parsed text : OnConnection ω RawIngestStats)
        { autoCommit := false, world := w } =
      ingestAndCommit b parsed text
        { autoCommit := false, world := b.start (b.rollback w) } := by
  have hrollback : rawRollbackTransaction b { autoCommit := false, world := w } =
      .ok ⟨⟩ (.idle (b.rollback w)) := rawRollbackTransaction_open
  have hbegin : rawBeginTransaction b (.idle (b.rollback w)) =
      .ok ⟨⟩ { autoCommit := false, world := b.start (b.rollback w) } := rawBeginTransaction_idle
  rw [run_bind_of_ok hrollback, run_bind_of_ok hbegin]

/-- How a serialized ingest ends when `w` is the world of its deciding attempt:
it succeeds with no transaction open; or its commit raises, with none open
either; or its ingest raises, and the transaction is left to the caller. -/
inductive SerializedEnd (b : Backend ω) (parsed : RawParsedPayload) (text : Bytes) (w : ω) :
    EStateM.Result RawError (Connection ω) RawIngestStats → Prop where
  | committed {stats : RawIngestStats} {w₁ : ω} : b.ingest parsed text w = .ok stats w₁ →
      ¬ CommitRaises b (ingestCommit b parsed text w) →
      SerializedEnd b parsed text w (.ok stats (.idle (ingestWorld b parsed text w)))
  | commitRaised (e : RawError) : CommitRaises b (ingestCommit b parsed text w) →
      SerializedEnd b parsed text w (.error e (.idle (ingestWorld b parsed text w)))
  | ingestRaised {e : RawError} {w₁ : ω} : b.ingest parsed text w = .error e w₁ →
      SerializedEnd b parsed text w (.error e { autoCommit := false, world := w₁ })

/-- **How a serialized ingest ends** is decided by one attempt: the first, or
the retry after a `TransactionException` of the first ingest. -/
theorem rawIngestSerialized_end (b : Backend ω) (parsed : RawParsedPayload) (text : Bytes)
    (w : ω) :
    SerializedEnd b parsed text (attemptWorld b parsed text w)
      (rawIngestSerialized b parsed text (.idle w)) := by
  have hbegin : rawBeginTransaction b (.idle w) =
      .ok ⟨⟩ { autoCommit := false, world := b.start w } := rawBeginTransaction_idle
  rw [rawIngestSerialized, run_bind_of_ok hbegin, attemptWorld]
  cases hingest : b.ingest parsed text (b.start w) with
  | ok stats w₁ =>
      have hretry : retries b parsed text w = false := by simp only [retries, hingest]
      simp only [hretry, Bool.false_eq_true, if_false]
      rcases ingestAndCommit_of_ok hingest with ⟨hrun, hn⟩ | ⟨e, hrun, hr⟩
      · rw [run_tryCatch_of_ok hrun]
        exact .committed hingest hn
      · -- the commit raised: a handler that rolls back finds no transaction
        rw [run_tryCatch_of_error hrun]
        split
        · rw [run_bind_eq_error.mpr (.inl rawRollbackTransaction_idle)]
          exact .commitRaised _ hr
        · exact .commitRaised e hr
  | error e w₁ =>
      rw [run_tryCatch_of_error (ingestAndCommit_of_error hingest)]
      have hworld : ingestWorld b parsed text (b.start w) = b.rollback w₁ := by
        simp only [ingestWorld, hingest]
      by_cases hkind : e.kind = .transaction
      · have hretry : retries b parsed text w = true := by simp only [retries, hingest, hkind]; rfl
        rw [if_pos hkind, if_pos hretry, retry_open, hworld]
        cases hingest' : b.ingest parsed text (b.start (b.rollback w₁)) with
        | ok stats w₂ =>
            rcases ingestAndCommit_of_ok hingest' with ⟨hrun, hn⟩ | ⟨e, hrun, hr⟩
            · rw [hrun]
              exact .committed hingest' hn
            · rw [hrun]
              exact .commitRaised e hr
        | error e w₂ =>
            rw [ingestAndCommit_of_error hingest']
            exact .ingestRaised hingest'
      · have hretry : ¬ retries b parsed text w = true := by
          simp only [retries, hingest, hkind]; simp
        rw [if_neg hkind, if_neg hretry]
        exact .ingestRaised hingest

/-! ## how a flush ends -/

variable {duck : Duck} {payloads : List (Bytes × RawParseOptions)}

/-- The commit that the flush of these payloads comes to. -/
def flushCommit (b : Backend ω) (duck : Duck) : List (Bytes × RawParseOptions) → ω → Option ω
  | [], w => commitPoint b w
  | payload :: rest, w =>
      match process duck payload.2 payload.1 with
      | .ok parsed =>
          match b.ingest parsed payload.1 w with
          | .ok _ w' => flushCommit b duck rest w'
          | .error _ _ => none
      | .error _ => none

/-- The payload loop reaches the commit, or raises with the transaction open. -/
theorem flushPayloads_open (b : Backend ω) (duck : Duck) (payloads : List (Bytes × RawParseOptions))
    (w : ω) :
    (∃ rows w', flushPayloads b duck payloads { autoCommit := false, world := w } =
        .ok rows { autoCommit := false, world := w' } ∧
      flushCommit b duck payloads w = commitPoint b w') ∨
    (∃ e w', flushPayloads b duck payloads { autoCommit := false, world := w } =
        .error e { autoCommit := false, world := w' } ∧ flushCommit b duck payloads w = none) := by
  induction payloads generalizing w with
  | nil => exact .inl ⟨0, w, rfl, rfl⟩
  | cons payload rest ih =>
      rw [flushPayloads, flushCommit]
      cases hprocess : process duck payload.2 payload.1 with
      | error e =>
          refine .inr ⟨e, w, run_bind_eq_error.mpr (.inl ?_), rfl⟩
          exact run_bind_eq_error.mpr (.inl (run_fromExcept_eq_error.mpr ⟨hprocess, rfl⟩))
      | ok parsed =>
          have hrun : rawIngestPayload b duck payload { autoCommit := false, world := w } =
              ingestOn b parsed payload.1 { autoCommit := false, world := w } :=
            run_bind_of_ok (run_fromExcept_eq_ok.mpr ⟨hprocess, rfl⟩)
          dsimp only
          cases hingest : b.ingest parsed payload.1 w with
          | error e w₁ =>
              simp only [ingestOn, hingest] at hrun
              exact .inr ⟨e, w₁, run_bind_eq_error.mpr (.inl hrun), rfl⟩
          | ok stats w₁ =>
              simp only [ingestOn, hingest] at hrun
              rw [run_bind_of_ok hrun]
              rcases ih w₁ with ⟨rows, w', hrest, hreach⟩ | ⟨e, w', hrest, hreach⟩
              · exact .inl ⟨_, w', run_bind_of_ok hrest, hreach⟩
              · exact .inr ⟨e, w', run_bind_eq_error.mpr (.inl hrest), hreach⟩

/-- `FlushBuffer` does what it promises its thread: it returns, with no
transaction open, and with 0 when something failed. -/
def FlushClean (b : Backend ω) (duck : Duck) (payloads : List (Bytes × RawParseOptions))
    (w : ω) : Prop :=
  ∃ rows w', flushBuffer b duck payloads (.idle w) = .ok rows (.idle w') ∧
    ∀ e t, flushAndCommit b duck payloads { autoCommit := false, world := b.start w } =
      .error e t → rows = 0

/-- A flush is clean exactly when the commit it comes to returns. -/
theorem flushClean_iff (b : Backend ω) (duck : Duck) (payloads : List (Bytes × RawParseOptions))
    (w : ω) :
    FlushClean b duck payloads w ↔ ¬ CommitRaises b (flushCommit b duck payloads (b.start w)) := by
  have hbegin : rawBeginTransaction b (.idle w) =
      .ok ⟨⟩ { autoCommit := false, world := b.start w } := rawBeginTransaction_idle
  have hflush : flushBuffer b duck payloads (.idle w) = tryCatch (flushAndCommit b duck payloads)
      (fun _ => do rawRollbackTransaction b; pure 0)
      { autoCommit := false, world := b.start w } := by
    rw [flushBuffer, run_bind_of_ok hbegin]
  rw [FlushClean, hflush]
  rcases flushPayloads_open b duck payloads (b.start w) with
    ⟨rows, w₁, hpayloads, hreach⟩ | ⟨e, w₁, hpayloads, hreach⟩
  · rw [hreach]
    rcases rawCommitTransaction_open b w₁ with ⟨hc, hn⟩ | ⟨e, hc, hr⟩
    · have hrun : flushAndCommit b duck payloads { autoCommit := false, world := b.start w } =
          .ok rows (.idle (commitWorld b w₁)) := by
        rw [flushAndCommit, run_bind_of_ok hpayloads, run_bind_of_ok hc]
        rfl
      refine ⟨fun _ => hn, fun _ => ⟨rows, _, run_tryCatch_of_ok hrun, fun e t he => ?_⟩⟩
      rw [hrun] at he
      exact nomatch he
    · -- the commit raised, so the rollback of the handler raises too
      have hrun : flushAndCommit b duck payloads { autoCommit := false, world := b.start w } =
          .error e (.idle (commitWorld b w₁)) := by
        rw [flushAndCommit, run_bind_of_ok hpayloads]
        exact run_bind_eq_error.mpr (.inl hc)
      have hraise : tryCatch (flushAndCommit b duck payloads)
          (fun _ => do rawRollbackTransaction b; pure 0)
          { autoCommit := false, world := b.start w } = .error _ (.idle (commitWorld b w₁)) :=
        (run_tryCatch_of_error hrun).trans
          (run_bind_eq_error.mpr (.inl rawRollbackTransaction_idle))
      constructor
      · rintro ⟨rows, w', hok, -⟩
        rw [hraise] at hok
        exact nomatch hok
      · exact fun hn => absurd hr hn
  · have hrun : flushAndCommit b duck payloads { autoCommit := false, world := b.start w } =
        .error e { autoCommit := false, world := w₁ } :=
      run_bind_eq_error.mpr (.inl hpayloads)
    rw [hreach]
    refine ⟨fun _ => not_commitRaises_none, fun _ => ⟨0, b.rollback w₁, ?_, fun _ _ _ => rfl⟩⟩
    rw [run_tryCatch_of_error hrun]
    exact run_bind_of_ok rawRollbackTransaction_open

end RawDuck
