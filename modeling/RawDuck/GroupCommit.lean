import RawDuck.Serialized

/-!
# RawDuck.GroupCommit

The leader section of `RawIngestGroupCommit`: the requests queued for a target
are taken as one batch, merged, ingested and committed, and marked, until none
is left.

What arrives while the leader is busy is a parameter, one list of requests a
round, so a run of the leader is a function of it.

* `commitBatch_idle` — one round: the batch is resolved and the connection
  idle, or a commit raised and the round is abandoned;
* `leadCommits_cleanedUp_iff` — the leader cleans up exactly when every commit
  it comes to returns (`CommitsReturn`).
-/

namespace RawDuck

open Fallible

/-- `RawCommitCoordinator::PendingItem`. -/
structure PendingItem where
  parsed : RawParsedPayload
  payloadText : Bytes
  rows : Nat
  parseErrors : Nat
  done : Bool
  failed : Bool
  errorMessage : Bytes
  stats : RawIngestStats

/-- The item of a request. -/
def PendingItem.create (parsed : RawParsedPayload) (payload : Bytes) : PendingItem where
  parsed := parsed
  payloadText := payload
  rows := parsed.payload.rows.length
  parseErrors := parsed.payload.parseErrors
  done := false
  failed := false
  errorMessage := []
  stats := { created := false, columnsAdded := 0, columnsWidened := 0, rows := 0, errors := 0 }

/-- The item after its batch is committed: rows and errors are reported against
the request's own input. -/
def PendingItem.committed (stats : RawIngestStats) (item : PendingItem) : PendingItem :=
  { item with
    done := true
    failed := false
    errorMessage := []
    stats := { stats with rows := item.rows, errors := item.parseErrors } }

/-- The item after its batch failed. -/
def PendingItem.rejected (message : Bytes) (item : PendingItem) : PendingItem :=
  { item with done := true, failed := true, errorMessage := message }

/-- What the request of a resolved item gets. -/
def PendingItem.answer (item : PendingItem) : Except RawError RawIngestStats :=
  if item.failed then .error { kind := .invalidInput, message := item.errorMessage }
  else .ok item.stats

/-- The payload of a batch. -/
def combinedPayload (first : PendingItem) (rest : List PendingItem) : RawParsedPayload :=
  mergeAll first.parsed (rest.map PendingItem.parsed)

/-- The text of a batch, one request's text after the other. -/
def combinedText (first : PendingItem) (rest : List PendingItem) : Bytes :=
  rest.foldl (fun text item => text ++ bytes "\n" ++ item.payloadText) first.payloadText

/-- A leader at work on a target: its connection, whether the target is in
`committing`, the queue, the batch taken and not marked yet, and the items
marked so far. -/
structure Leading (ω : Type) where
  conn : Connection ω
  committing : Bool
  pending : List PendingItem
  batch : List PendingItem
  resolved : List PendingItem

variable {ω : Type}

/-- A computation of the leader. -/
abbrev Leader (ω : Type) := EStateM RawError (Leading ω)

/-- A computation on the leader's connection. -/
def onConnection {α : Type} (x : OnConnection ω α) : Leader ω α := fun s =>
  match x s.conn with
  | .ok a conn => .ok a { s with conn }
  | .error e conn => .error e { s with conn }

variable (b : Backend ω)

/-- The ingest of a batch: what it makes of the items.  The handler rolls back
on the leader's connection. -/
def ingestBatch (first : PendingItem) (rest : List PendingItem) :
    Leader ω (PendingItem → PendingItem) := do
  try
    let stats ← onConnection
      (rawIngestSerialized b (combinedPayload first rest) (combinedText first rest))
    pure (PendingItem.committed stats)
  catch e =>
    onConnection (rawRollbackTransaction b)
    pure (PendingItem.rejected e.message)

/-- One round of the leader. -/
def commitBatch (first : PendingItem) (rest : List PendingItem) : Leader ω PUnit := do
  modify fun s => { s with pending := [], batch := first :: rest }
  let mark ← ingestBatch b first rest
  modify fun s => { s with batch := [], resolved := s.resolved ++ s.batch.map mark }

/-- `coord.committing.erase(target)`. -/
def releaseTarget : Leader ω PUnit := modify fun s => { s with committing := false }

/-- The drain loop of the leader; the argument is what arrives during each
round. -/
def leadCommits : List (List PendingItem) → Leader ω PUnit
  | [] => do
      let s ← get
      match s.pending with
      | [] => releaseTarget
      | first :: rest => do
          commitBatch b first rest
          releaseTarget
  | arrived :: arrivals => do
      let s ← get
      match s.pending with
      | [] => releaseTarget
      | first :: rest => do
          commitBatch b first rest
          modify fun s => { s with pending := s.pending ++ arrived }
          leadCommits arrivals

/-- The state a computation ends in, raised or not. -/
def finalState {α : Type} : EStateM.Result RawError (Leading ω) α → Leading ω
  | .ok _ s => s
  | .error _ s => s

/-- The leader section has cleaned up: every item taken is done, nobody waits,
the target is free, and the connection has no open transaction. -/
structure CleanedUp (s : Leading ω) : Prop where
  batch : s.batch = []
  pending : s.pending = []
  done : ∀ item ∈ s.resolved, item.done = true
  committing : s.committing = false
  idle : s.conn.autoCommit = true

/-! ## one round -/

/-- The world of the attempt that decides a batch. -/
def batchWorld (b : Backend ω) (first : PendingItem) (rest : List PendingItem) (w : ω) : ω :=
  attemptWorld b (combinedPayload first rest) (combinedText first rest) w

/-- The commit a batch comes to. -/
def batchCommit (b : Backend ω) (first : PendingItem) (rest : List PendingItem) (w : ω) :
    Option ω :=
  ingestCommit b (combinedPayload first rest) (combinedText first rest) (batchWorld b first rest w)

/-- The world after a batch. -/
def worldAfter (b : Backend ω) (first : PendingItem) (rest : List PendingItem) (w : ω) : ω :=
  ingestWorld b (combinedPayload first rest) (combinedText first rest) (batchWorld b first rest w)

/-- The commits of all rounds return. -/
def CommitsReturn (b : Backend ω) : List (List PendingItem) → List PendingItem → ω → Prop
  | _, [], _ => True
  | [], first :: rest, w => ¬ CommitRaises b (batchCommit b first rest w)
  | arrived :: arrivals, first :: rest, w =>
      ¬ CommitRaises b (batchCommit b first rest w) ∧
        CommitsReturn b arrivals arrived (worldAfter b first rest w)

variable {b} {first : PendingItem} {rest : List PendingItem} {s : Leading ω} {w : ω}

theorem onConnection_of_ok {α : Type} {x : OnConnection ω α} {a : α} {c : Connection ω}
    (h : x s.conn = .ok a c) : onConnection x s = .ok a { s with conn := c } := by
  simp only [onConnection, h]

theorem onConnection_of_error {α : Type} {x : OnConnection ω α} {e : RawError} {c : Connection ω}
    (h : x s.conn = .error e c) : onConnection x s = .error e { s with conn := c } := by
  simp only [onConnection, h]

/-- How the ingest of a batch ends. -/
inductive BatchEnd (b : Backend ω) (first : PendingItem) (rest : List PendingItem) (w : ω) :
    (PendingItem → PendingItem) → Prop where
  | committed {stats : RawIngestStats} {w₁ : ω} :
      b.ingest (combinedPayload first rest) (combinedText first rest) (batchWorld b first rest w) =
        .ok stats w₁ →
      BatchEnd b first rest w (PendingItem.committed stats)
  | rejected {e : RawError} {w₁ : ω} :
      b.ingest (combinedPayload first rest) (combinedText first rest) (batchWorld b first rest w) =
        .error e w₁ →
      BatchEnd b first rest w (PendingItem.rejected e.message)

/-- A commit that returns leaves the leader with an idle connection and a mark
for its items; one that raises makes the handler raise. -/
theorem ingestBatch_idle (hconn : s.conn = .idle w) :
    (∃ mark, BatchEnd b first rest w mark ∧ ¬ CommitRaises b (batchCommit b first rest w) ∧
      ingestBatch b first rest s = .ok mark { s with conn := .idle (worldAfter b first rest w) }) ∨
    (∃ e, CommitRaises b (batchCommit b first rest w) ∧ ingestBatch b first rest s =
      .error e { s with conn := .idle (worldAfter b first rest w) }) := by
  have hend := rawIngestSerialized_end b (combinedPayload first rest) (combinedText first rest) w
  rw [← hconn] at hend
  generalize hresult : rawIngestSerialized b (combinedPayload first rest) (combinedText first rest)
    s.conn = result at hend
  cases hend with
  | committed hingest hreturn =>
      refine .inl ⟨_, .committed hingest, hreturn, run_tryCatch_of_ok ?_⟩
      rw [run_bind_of_ok (onConnection_of_ok hresult)]
      rfl
  | commitRaised e hraise =>
      refine .inr ⟨transactionError "cannot rollback - no transaction is active", hraise, ?_⟩
      rw [ingestBatch, run_tryCatch_of_error
        (run_bind_eq_error.mpr (.inl (onConnection_of_error hresult)))]
      exact run_bind_eq_error.mpr (.inl (onConnection_of_error rawRollbackTransaction_idle))
  | @ingestRaised e w₁ hingest =>
      have hworld : worldAfter b first rest w = b.rollback w₁ := by
        simp only [worldAfter, batchWorld, ingestWorld, hingest]
      have hcommit : batchCommit b first rest w = none := by
        simp only [batchCommit, batchWorld, ingestCommit, hingest]
      refine .inl ⟨_, .rejected hingest, hcommit ▸ not_commitRaises_none, ?_⟩
      rw [ingestBatch, run_tryCatch_of_error
        (run_bind_eq_error.mpr (.inl (onConnection_of_error hresult))), hworld]
      exact run_bind_of_ok (onConnection_of_ok rawRollbackTransaction_open)

theorem BatchEnd.done {mark : PendingItem → PendingItem} (h : BatchEnd b first rest w mark)
    (item : PendingItem) : (mark item).done = true := by
  cases h <;> rfl

/-- **One round**: the batch is marked and the connection idle, or a commit
raised and the batch is left as it was. -/
theorem commitBatch_idle (hconn : s.conn = .idle w) :
    (∃ mark, BatchEnd b first rest w mark ∧ ¬ CommitRaises b (batchCommit b first rest w) ∧
      commitBatch b first rest s = .ok ⟨⟩ { s with
        conn := .idle (worldAfter b first rest w), pending := [], batch := []
        resolved := s.resolved ++ (first :: rest).map mark }) ∨
    (∃ e, CommitRaises b (batchCommit b first rest w) ∧ commitBatch b first rest s =
      .error e { s with
        conn := .idle (worldAfter b first rest w), pending := [], batch := first :: rest }) := by
  have hconn' : ({ s with pending := [], batch := first :: rest } : Leading ω).conn = .idle w :=
    hconn
  rw [commitBatch, run_bind_of_ok run_modify]
  rcases ingestBatch_idle (b := b) (s := { s with pending := [], batch := first :: rest }) hconn'
    with ⟨mark, hend, hreturn, hrun⟩ | ⟨e, hraise, hrun⟩
  · exact .inl ⟨mark, hend, hreturn, by rw [run_bind_of_ok hrun]; rfl⟩
  · exact .inr ⟨e, hraise, run_bind_eq_error.mpr (.inl hrun)⟩

/-! ## the drain loop -/

/-- The leader between two rounds: nothing is taken and not marked, and no
transaction is open. -/
structure BetweenRounds (s : Leading ω) (w : ω) : Prop where
  conn : s.conn = .idle w
  batch : s.batch = []
  done : ∀ item ∈ s.resolved, item.done = true

theorem BetweenRounds.cleanedUp (h : BetweenRounds s w) (hpending : s.pending = []) :
    CleanedUp { s with committing := false } where
  batch := h.batch
  pending := hpending
  done := h.done
  committing := rfl
  idle := by rw [h.conn]

/-- A round that returns leads to the next one. -/
theorem BetweenRounds.next (h : BetweenRounds s w) {mark : PendingItem → PendingItem}
    (hend : BatchEnd b first rest w mark) (arrived : List PendingItem) :
    BetweenRounds { s with
      conn := .idle (worldAfter b first rest w), pending := arrived, batch := []
      resolved := s.resolved ++ (first :: rest).map mark } (worldAfter b first rest w) where
  conn := rfl
  batch := rfl
  done := by
    intro item hitem
    rcases List.mem_append.mp hitem with hitem | hitem
    · exact h.done item hitem
    · obtain ⟨item', -, rfl⟩ := List.mem_map.mp hitem
      exact hend.done item'

theorem leadCommits_of_empty (arrivals : List (List PendingItem)) (h : s.pending = []) :
    leadCommits b arrivals s = .ok ⟨⟩ { s with committing := false } := by
  have hrelease : leadCommits b arrivals s = releaseTarget s := by
    cases arrivals with
    | nil => rw [leadCommits, run_bind_of_ok run_get, h]
    | cons arrived arrivals => rw [leadCommits, run_bind_of_ok run_get, h]
  rw [hrelease]
  rfl

theorem leadCommits_last (h : s.pending = first :: rest) :
    leadCommits b [] s = (commitBatch b first rest >>= fun _ => releaseTarget) s := by
  rw [leadCommits, run_bind_of_ok run_get, h]

theorem leadCommits_round (arrived : List PendingItem) (arrivals : List (List PendingItem))
    (h : s.pending = first :: rest) :
    leadCommits b (arrived :: arrivals) s = (commitBatch b first rest >>= fun _ => do
      modify fun s => { s with pending := s.pending ++ arrived }
      leadCommits b arrivals) s := by
  rw [leadCommits, run_bind_of_ok run_get, h]

/-- One turn of the leader: nothing is queued and it releases the target, or it takes what is
queued as a batch, whose commit raises, or which is its last one, or which another turn follows. -/
inductive LeadTurn (b : Backend ω) (s : Leading ω) (w : ω) : List (List PendingItem) → Prop where
  | releases {arrivals : List (List PendingItem)} (pending : s.pending = [])
      (run : leadCommits b arrivals s = .ok ⟨⟩ { s with committing := false }) :
      LeadTurn b s w arrivals
  | raises {arrivals : List (List PendingItem)} {first : PendingItem} {rest : List PendingItem}
      {e : RawError} (pending : s.pending = first :: rest)
      (raise : CommitRaises b (batchCommit b first rest w))
      (run : leadCommits b arrivals s = .error e { s with
        conn := .idle (worldAfter b first rest w), pending := [], batch := first :: rest }) :
      LeadTurn b s w arrivals
  | last {first : PendingItem} {rest : List PendingItem} {mark : PendingItem → PendingItem}
      (pending : s.pending = first :: rest) (ends : BatchEnd b first rest w mark)
      (returns : ¬ CommitRaises b (batchCommit b first rest w))
      (run : leadCommits b [] s = .ok ⟨⟩ { s with
        conn := .idle (worldAfter b first rest w), pending := [], batch := [], committing := false
        resolved := s.resolved ++ (first :: rest).map mark }) : LeadTurn b s w []
  | goesOn {arrived : List PendingItem} {arrivals : List (List PendingItem)} {first : PendingItem}
      {rest : List PendingItem} {mark : PendingItem → PendingItem}
      (pending : s.pending = first :: rest) (ends : BatchEnd b first rest w mark)
      (returns : ¬ CommitRaises b (batchCommit b first rest w))
      (run : leadCommits b (arrived :: arrivals) s = leadCommits b arrivals { s with
        conn := .idle (worldAfter b first rest w), pending := arrived, batch := []
        resolved := s.resolved ++ (first :: rest).map mark }) :
      LeadTurn b s w (arrived :: arrivals)

theorem leadTurn (h : BetweenRounds s w) (arrivals : List (List PendingItem)) :
    LeadTurn b s w arrivals := by
  cases hpending : s.pending with
  | nil => exact .releases hpending (leadCommits_of_empty arrivals hpending)
  | cons first rest =>
      rcases @commitBatch_idle _ b first rest s w h.conn with
        ⟨mark, hend, hreturn, hrun⟩ | ⟨e, hraise, hrun⟩
      · cases arrivals with
        | nil =>
            refine .last hpending hend hreturn ?_
            rw [leadCommits_last hpending, run_bind_of_ok hrun]
            rfl
        | cons arrived arrivals =>
            refine .goesOn hpending hend hreturn ?_
            rw [leadCommits_round arrived arrivals hpending, run_bind_of_ok hrun,
              run_bind_of_ok run_modify]
            rfl
      · cases arrivals with
        | nil =>
            refine .raises (e := e) hpending hraise ?_
            rw [leadCommits_last hpending, run_bind_of_error hrun]
        | cons arrived arrivals =>
            refine .raises (e := e) hpending hraise ?_
            rw [leadCommits_round arrived arrivals hpending, run_bind_of_error hrun]

/-- **The leader cleans up exactly when every commit it comes to returns.** -/
theorem leadCommits_cleanedUp_iff (arrivals : List (List PendingItem)) (h : BetweenRounds s w) :
    CleanedUp (finalState (leadCommits b arrivals s)) ↔
      CommitsReturn b arrivals s.pending w := by
  have hturn : LeadTurn b s w arrivals := leadTurn h arrivals
  induction arrivals generalizing s w with
  | nil =>
      cases hturn with
      | releases hpending hrun =>
          rw [hpending, CommitsReturn, hrun]
          exact iff_of_true (h.cleanedUp hpending) trivial
      | raises hpending hraise hrun =>
          rw [hpending, CommitsReturn, hrun]
          exact iff_of_false (fun hclean => nomatch hclean.batch) (not_not_intro hraise)
      | last hpending hend hreturn hrun =>
          rw [hpending, CommitsReturn, hrun]
          exact iff_of_true ((h.next hend []).cleanedUp rfl) hreturn
  | cons arrived arrivals ih =>
      cases hturn with
      | releases hpending hrun =>
          rw [hpending, CommitsReturn, hrun]
          exact iff_of_true (h.cleanedUp hpending) trivial
      | raises hpending hraise hrun =>
          rw [hpending, CommitsReturn, hrun]
          exact iff_of_false (fun hclean => nomatch hclean.batch) fun hall => hall.1 hraise
      | goesOn hpending hend hreturn hrun =>
          have hnext := h.next hend arrived
          have hclean := ih hnext (leadTurn hnext arrivals)
          rw [hpending, CommitsReturn, hrun]
          exact hclean.trans ⟨fun hall => ⟨hreturn, hall⟩, And.right⟩

/-! ## error paths -/

/-- A request takes the lead: the target is its own, with these requests
queued. -/
def Leading.create (w : ω) (pending : List PendingItem) : Leading ω where
  conn := .idle w
  committing := true
  pending := pending
  batch := []
  resolved := []

/-- **The error paths clean up exactly when no commit raises**, in the leader
section over all its rounds and in the flush of an asynchronous buffer. -/
theorem errorPaths_cleanUp_iff (b : Backend ω) (duck : Duck) :
    (∀ arrivals w pending,
      CleanedUp (finalState (leadCommits b arrivals (.create w pending))) ↔
        CommitsReturn b arrivals pending w) ∧
    ∀ payloads w, FlushClean b duck payloads w ↔
      ¬ CommitRaises b (flushCommit b duck payloads (b.start w)) := by
  refine ⟨fun arrivals w pending => ?_, fun payloads w => flushClean_iff b duck payloads w⟩
  have hstart : BetweenRounds (.create w pending) w := ⟨rfl, rfl, fun _ h => nomatch h⟩
  exact leadCommits_cleanedUp_iff arrivals hstart

/-- A backend whose ingests succeed and whose commits meet a conflict. -/
def conflictBackend : Backend PUnit where
  start := id
  ingest _ _ := pure { created := false, columnsAdded := 0, columnsWidened := 0, rows := 0,
                       errors := 0 }
  invalidated _ := false
  commit := throw (transactionError "Failed to commit: Conflict on update!")
  rollback := id

/-- After a conflict the target stays in `committing` with its item not done,
and a flush raises. -/
theorem errorPaths_conflict :
    ¬ CleanedUp (finalState (leadCommits conflictBackend []
      (.create ⟨⟩ [.create { payload := { rows := [], scalarRows := false, parseErrors := 0 }
                             root := .unset, columns := [] } []]))) ∧
    ¬ FlushClean conflictBackend smallDuck [] ⟨⟩ := by
  constructor
  · exact fun hclean => nomatch hclean.committing
  · rintro ⟨rows, w, hrun, -⟩
    exact nomatch hrun

end RawDuck
