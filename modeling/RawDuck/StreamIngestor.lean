import RawDuck.RowStock
import RawDuck.Transition

/-!
# RawDuck.StreamIngestor

One stream ingestor under any number of threads, each of which hands a batch to
`IngestParsedConcurrent`.

A call prepares its batch under `schema_lock` and submits it, or appends it, in a
later step.  A batch that widens a column stops the pool before it merges it, and
`Submit` to a stopped pool returns without a word.

* `step` — the steps of the calls and `Finish`, over the native ingestor itself;
* `left_step` — what one step does to the batches held;
* `streamIngestor_once_iff` — when every batch is appended exactly once.
-/

namespace RawDuck

open Fallible Transition Transition.System

namespace StreamIngestor

/-! ## the state -/

/-- Where a call of `IngestParsedConcurrent` stands. -/
inductive CallPhase where
  /-- before `schema_lock` -/
  | entering
  /-- in `PrepareForAppend`, with the lock: the pool is stopped, and not merged yet -/
  | draining
  /-- `PrepareForAppend` has answered -/
  | prepared (usePool : Bool)
  /-- in `Submit` of the pool it read -/
  | submitting (pool : Nat)
  /-- it read no pool, and appends without the lock -/
  | appending
  | returned
  | raised (error : RawError)

/-- A call: its batch and where it stands. -/
structure Call where
  batch : Nat
  parsed : RawParsedPayload
  phase : CallPhase

/-- `RawStreamIngestorImpl`.  Pools are counted: `pool` is the number of the current
one, or of the next, and `stopped` is its flag.  The log says which batches are in the
pool and which have been appended or merged. -/
structure State where
  ingestor : IngestState
  pool : Nat
  stopped : Bool
  schemaLock : Option Nat
  calls : List Call
  queued : List Nat
  appended : List Nat
  finished : Option (Except RawError Unit)

/-- The threads before their calls. -/
def State.start (db : Db) (batches : List RawParsedPayload) : State where
  ingestor := .start db
  pool := 0
  stopped := false
  schemaLock := none
  calls := batches.zipIdx.map fun batch =>
    { batch := batch.2, parsed := batch.1, phase := .entering }
  queued := []
  appended := []
  finished := none

/-! ## steps -/

/-- A call moves on. -/
def State.setPhase (s : State) (i : Nat) (call : Call) (phase : CallPhase) : State :=
  { s with calls := s.calls.set i { call with phase } }

/-- What is not in the pool any more has been merged. -/
def State.settle (s : State) (ingestor : IngestState) : State :=
  if ingestor.queue.isEmpty then
    { s with ingestor, queued := [], appended := s.appended ++ s.queued }
  else { s with ingestor }

/-- A batch taken in: it is in the pool, or appended. -/
def State.place (s : State) (batch : Nat) (parsed : RawParsedPayload) (ingestor : IngestState) :
    State :=
  if parsed.payload.rows.isEmpty || parsed.columns.isEmpty then { s with ingestor }
  else if ingestor.queue.length = s.ingestor.queue.length then
    { s with ingestor, appended := s.appended ++ [batch] }
  else { s with ingestor, queued := s.queued ++ [batch] }

variable (env : NativeEnv)

/-- The rest of `PrepareForAppend`, and the end of the first critical section. -/
def State.prepare (s : State) (i : Nat) (call : Call) : State :=
  match prepareForAppend env call.parsed s.ingestor with
  | .ok usePool ingestor => (s.settle ingestor).setPhase i call (.prepared usePool)
  | .error e ingestor => (s.settle ingestor).setPhase i call (.raised e)

/-- The first critical section of `IngestParsedConcurrent`, up to the point where
`Drain` has stopped the pool. -/
def State.enter (s : State) (i : Nat) (call : Call) : State :=
  let s := { s with ingestor :=
    { s.ingestor with errors := s.ingestor.errors + call.parsed.payload.parseErrors } }
  if s.ingestor.db.table.isNone || call.parsed.columns.isEmpty then
    match ingestParsed env call.parsed s.ingestor with
    | .ok _ ingestor => (s.place call.batch call.parsed ingestor).setPhase i call .returned
    | .error e ingestor => { s with ingestor }.setPhase i call (.raised e)
  else if drainsPool env s.ingestor call.parsed then
    { s with schemaLock := some i, stopped := true }.setPhase i call .draining
  else s.prepare env i call

/-- The critical section of a call that stopped the pool: the pool is merged and reset,
unless a worker raised. -/
def State.drained (s : State) (i : Nat) (call : Call) : State :=
  let t := { s.prepare env i call with schemaLock := none }
  match prepareForAppend env call.parsed s.ingestor with
  | .ok _ _ => { t with pool := s.pool + 1, stopped := false }
  | .error _ ingestor =>
      if ingestor.pool.isNone then { t with pool := s.pool + 1, stopped := false } else t

/-- `if (use_pool && pool)` in `SubmitPreparedBatch`, without the lock. -/
def State.route (s : State) (i : Nat) (call : Call) : State :=
  if call.parsed.payload.rows.isEmpty then s.setPhase i call .returned
  else if s.ingestor.pool.isSome then s.setPhase i call (.submitting s.pool)
  else s.setPhase i call .appending

/-- The batch at the end of the queue. -/
def enqueue (parsed : RawParsedPayload) (pool : Pool) : Pool :=
  { pool with queue := pool.queue ++ [parsed] }

/-- `RawAppendPool::Submit`. -/
def State.submit (s : State) (i : Nat) (call : Call) (pool : Nat) : State :=
  if pool = s.pool ∧ s.stopped = false then
    { s with
      ingestor := { s.ingestor with pool := s.ingestor.pool.map (enqueue call.parsed) }
      queued := s.queued ++ [call.batch] }.setPhase i call .returned
  else s.setPhase i call .returned

/-- `SubmitPreparedBatch` past the pool. -/
def State.append (s : State) (i : Nat) (call : Call) : State :=
  match submitPreparedBatch env call.parsed false s.ingestor with
  | .ok _ ingestor =>
      if call.parsed.payload.rows.isEmpty then { s with ingestor }.setPhase i call .returned
      else { s with ingestor, appended := s.appended ++ [call.batch] }.setPhase i call .returned
  | .error e ingestor => { s with ingestor }.setPhase i call (.raised e)

/-- The next step of a call; a step that takes `schema_lock` waits for it. -/
def State.advance (s : State) (i : Nat) (call : Call) : Option State :=
  match call.phase with
  | .entering => if s.schemaLock.isSome then none else some (s.enter env i call)
  | .draining => some (s.drained env i call)
  | .prepared true => some (s.route i call)
  | .prepared false => if s.schemaLock.isSome then none else some (s.append env i call)
  | .submitting pool => some (s.submit i call pool)
  | .appending => some (s.append env i call)
  | .returned | .raised _ => none

/-- The call has returned. -/
def Call.isReturned (call : Call) : Bool :=
  match call.phase with
  | .returned => true
  | _ => false

/-- `Finish`, once every call has returned. -/
def State.finish (s : State) : State :=
  match RawDuck.finish env s.ingestor with
  | .ok _ ingestor => { s.settle ingestor with finished := some (.ok ⟨⟩) }
  | .error e ingestor => { s.settle ingestor with finished := some (.error e) }

/-- What happens next: a call goes on, or `Finish` is called. -/
inductive Label where
  | advance (i : Nat)
  | finish

/-- One step; nothing follows `Finish`. -/
def step (s : State) (label : Label) : Option State :=
  if s.finished.isSome then none
  else match label with
    | .advance i =>
        match s.calls[i]? with
        | some call => s.advance env i call
        | none => none
    | .finish =>
        if s.schemaLock.isNone && s.calls.all Call.isReturned then some (s.finish env) else none

/-- A stream ingestor and its threads. -/
def system (db : Db) (batches : List RawParsedPayload) : System State Label where
  init := .start db batches
  step := step env

/-! ## what is held -/

variable {env} {db : Db} {batches : List RawParsedPayload} {s s' : State}

/-- The batches of these numbers. -/
def batchesOf (batches : List RawParsedPayload) (log : List Nat) : List RawParsedPayload :=
  log.filterMap fun batch => batches[batch]?

theorem batchesOf_append (log log' : List Nat) :
    batchesOf batches (log ++ log') = batchesOf batches log ++ batchesOf batches log' :=
  List.filterMap_append

theorem batchesOf_singleton {batch : Nat} {parsed : RawParsedPayload}
    (h : batches[batch]? = some parsed) : batchesOf batches [batch] = [parsed] := by
  rw [batchesOf, List.filterMap_cons_some h, List.filterMap_nil]

/-- The batch a call still holds; one without rows has nothing to append. -/
def Call.held (call : Call) : List Nat :=
  if call.isReturned || call.parsed.payload.rows.isEmpty then [] else [call.batch]

/-- The batches with the calls, in the pool and appended. -/
def State.content (s : State) : List Nat :=
  s.calls.flatMap Call.held ++ (s.queued ++ s.appended)

theorem perm_held_set {calls : List Call} {i : Nat} {call call' : Call}
    (h : calls[i]? = some call) :
    ((calls.set i call').flatMap Call.held ++ call.held).Perm
      (calls.flatMap Call.held ++ call'.held) := by
  induction calls generalizing i with
  | nil => exact nomatch h
  | cons first rest ih =>
      cases i with
      | zero =>
          obtain rfl := Option.some.inj h
          rw [List.set_cons_zero, List.flatMap_cons, List.flatMap_cons]
          refine (List.perm_append_comm.append_right _).trans ?_
          rw [List.append_assoc]
          refine (List.perm_append_comm.append_left _).trans ?_
          rw [← List.append_assoc]
          exact (List.perm_append_comm.append_right _)
      | succ i =>
          rw [List.set_cons_succ, List.flatMap_cons, List.flatMap_cons, List.append_assoc,
            List.append_assoc]
          exact (ih h).append_left _

@[simp] theorem settle_calls (s : State) (ingestor : IngestState) :
    (s.settle ingestor).calls = s.calls := by
  rw [State.settle]
  split
  · rfl
  · rfl

@[simp] theorem settle_pool (s : State) (ingestor : IngestState) :
    (s.settle ingestor).pool = s.pool := by
  rw [State.settle]
  split
  · rfl
  · rfl

@[simp] theorem settle_stopped (s : State) (ingestor : IngestState) :
    (s.settle ingestor).stopped = s.stopped := by
  rw [State.settle]
  split
  · rfl
  · rfl

@[simp] theorem settle_finished (s : State) (ingestor : IngestState) :
    (s.settle ingestor).finished = s.finished := by
  rw [State.settle]
  split
  · rfl
  · rfl

@[simp] theorem settle_ingestor (s : State) (ingestor : IngestState) :
    (s.settle ingestor).ingestor = ingestor := by
  rw [State.settle]
  split
  · rfl
  · rfl

/-- Settling moves entries of the log. -/
theorem perm_settle (s : State) (ingestor : IngestState) :
    ((s.settle ingestor).queued ++ (s.settle ingestor).appended).Perm (s.queued ++ s.appended) := by
  rw [State.settle]
  split
  · show ([] ++ (s.appended ++ s.queued)).Perm _
    rw [List.nil_append]
    exact List.perm_append_comm
  · exact .refl _

/-- After a step that keeps the ingestor's batches, the log is true of them again. -/
theorem queue_settle {merges : Prop} {ingestor : IngestState}
    (h : KeepsStock merges s.ingestor ingestor)
    (hqueue : s.ingestor.queue = batchesOf batches s.queued) :
    ingestor.queue = batchesOf batches (s.settle ingestor).queued := by
  rw [State.settle]
  split
  · next hempty => exact List.isEmpty_iff.mp hempty
  · next hsome =>
    obtain ⟨-, hempty⟩ | ⟨hsame, -⟩ := h.pool
    · exact absurd (List.isEmpty_iff.mpr hempty) hsome
    · exact hsame.trans hqueue

theorem batchRowCount_perm {log log' : List Nat} (h : log.Perm log') :
    batchRowCount (batchesOf batches log) = batchRowCount (batchesOf batches log') :=
  ((h.filterMap _).map _).sum_eq

/-- A call that moves on keeps the content when the log gets what it held. -/
theorem perm_content {i : Nat} {call call' : Call} (hcall : s.calls[i]? = some call)
    (hcalls : s'.calls = s.calls.set i call')
    (hlog : (s'.queued ++ s'.appended ++ call'.held).Perm (s.queued ++ s.appended ++ call.held)) :
    s'.content.Perm s.content := by
  have hset := @perm_held_set s.calls i call call' hcall
  rw [List.perm_iff_count] at hset hlog ⊢
  intro batch
  have hset := hset batch
  have hlog := hlog batch
  rw [State.content, State.content, hcalls]
  simp only [List.count_append] at hset hlog ⊢
  omega

/-- A call that returns with the batch it held loses it, when the log stays the same. -/
theorem content_lost {i : Nat} {call : Call} (hcall : s.calls[i]? = some call)
    (hcalls : s'.calls = s.calls.set i { call with phase := .returned })
    (hheld : call.held ≠ []) (hqueued : s'.queued = s.queued)
    (happended : s'.appended = s.appended) :
    s'.content.length < s.content.length := by
  have hset := (@perm_held_set s.calls i call { call with phase := .returned } hcall).length_eq
  have hpos := List.length_pos_iff.mpr hheld
  rw [State.content, State.content, hcalls, hqueued, happended]
  simp only [List.length_append, Call.held, Call.isReturned, Bool.true_or, if_true,
    List.length_nil] at hset hpos ⊢
  omega

/-! ## the invariant -/

/-- Nothing has raised. -/
def State.Good (s : State) : Prop :=
  (∀ call ∈ s.calls, ∀ e, call.phase ≠ .raised e) ∧ ∀ e, s.finished ≠ some (.error e)

/-- The log is true of the ingestor, and a pool that somebody submits to is there
unless it is stopped. -/
structure Inv (db : Db) (batches : List RawParsedPayload) (s : State) : Prop where
  batch : ∀ call ∈ s.calls, batches[call.batch]? = some call.parsed
  rows : ∀ call ∈ s.calls, ∀ pool, call.phase = .submitting pool → call.parsed.payload.rows ≠ []
  known : ∀ call ∈ s.calls, ∀ pool, call.phase = .submitting pool → pool ≤ s.pool
  present : s.stopped = false → ∀ call ∈ s.calls, call.phase = .submitting s.pool →
    s.ingestor.pool.isSome = true
  queue : s.ingestor.queue = batchesOf batches s.queued
  stock : s.ingestor.stock =
    db.rowCount + batchRowCount (batchesOf batches (s.queued ++ s.appended))
  ended : s.finished = some (.ok ⟨⟩) → s.queued = [] ∧ ∀ call ∈ s.calls, call.isReturned = true

theorem Inv.start (db : Db) (batches : List RawParsedPayload) :
    Inv db batches (.start db batches) where
  batch call hcall := by
    obtain ⟨⟨parsed, batch⟩, hmem, rfl⟩ := List.mem_map.mp hcall
    exact List.mem_zipIdx_iff_getElem?.mp hmem
  rows call hcall pool hphase := by
    obtain ⟨batch, -, rfl⟩ := List.mem_map.mp hcall
    exact nomatch hphase
  known call hcall pool hphase := by
    obtain ⟨batch, -, rfl⟩ := List.mem_map.mp hcall
    exact nomatch hphase
  present _ call hcall hphase := by
    obtain ⟨batch, -, rfl⟩ := List.mem_map.mp hcall
    exact nomatch hphase
  queue := rfl
  stock := rfl
  ended h := nomatch h

/-- A call that moves on, with what its step did to the pool and the log. -/
theorem Inv.moved (h : Inv db batches s) {i : Nat} {call : Call} {phase : CallPhase}
    (hcall : s.calls[i]? = some call) (hcalls : s'.calls = s.calls.set i { call with phase })
    (hfinished : s'.finished = none) (hpool : s.pool ≤ s'.pool)
    (hpresent : s'.stopped = false → ∀ c ∈ s.calls, c.phase = .submitting s'.pool →
      s'.ingestor.pool.isSome = true)
    (hphase : ∀ pool, phase = .submitting pool → call.parsed.payload.rows ≠ [] ∧ pool ≤ s'.pool ∧
      s'.ingestor.pool.isSome = true)
    (hqueue : s'.ingestor.queue = batchesOf batches s'.queued)
    (hstock : s'.ingestor.stock =
      db.rowCount + batchRowCount (batchesOf batches (s'.queued ++ s'.appended))) :
    Inv db batches s' := by
  have hmem : call ∈ s.calls := List.mem_of_getElem? hcall
  have hold : ∀ c ∈ s'.calls, c ∈ s.calls ∨ c = { call with phase } := fun c hc =>
    List.mem_or_eq_of_mem_set (hcalls ▸ hc)
  constructor
  · intro c hc
    rcases hold c hc with hc | rfl
    · exact h.batch c hc
    · exact h.batch call hmem
  · intro c hc pool hsubmit
    rcases hold c hc with hc | rfl
    · exact h.rows c hc pool hsubmit
    · exact (hphase pool hsubmit).1
  · intro c hc pool hsubmit
    rcases hold c hc with hc | rfl
    · exact (h.known c hc pool hsubmit).trans hpool
    · exact (hphase pool hsubmit).2.1
  · intro hstopped c hc hsubmit
    rcases hold c hc with hc | rfl
    · exact hpresent hstopped c hc hsubmit
    · exact (hphase _ hsubmit).2.2
  · exact hqueue
  · exact hstock
  · intro hended
    rw [hfinished] at hended
    exact nomatch hended

/-! ## one step -/

/-- The step is in time: no batch with rows but without columns meets a table, and no
call submits to a pool that has been stopped. -/
def InTime (s : State) (label : Label) : Prop :=
  match label with
  | .finish => True
  | .advance i => ∀ call, s.calls[i]? = some call →
      match call.phase with
      | .entering => s.ingestor.db.table.isSome = true → call.parsed.columns = [] →
          call.parsed.payload.rows = []
      | .submitting pool => pool = s.pool ∧ s.stopped = false
      | _ => True

/-- What a step leaves: the invariant, and all that was held exactly if it is in time. -/
structure Left (db : Db) (batches : List RawParsedPayload) (s : State) (label : Label)
    (s' : State) : Prop where
  inv : Inv db batches s'
  keeps : InTime s label → s'.content.Perm s.content
  loses : ¬ InTime s label → s'.content.length < s.content.length

variable {i : Nat} {call : Call}

theorem inTime_of_phase (hcall : s.calls[i]? = some call)
    (hphase : ∀ pool, call.phase ≠ .entering ∧ call.phase ≠ .submitting pool) :
    InTime s (.advance i) := by
  intro c hc
  obtain rfl := Option.some.inj (hcall.symm.trans hc)
  cases hp : call.phase with
  | entering => exact absurd hp (hphase 0).1
  | submitting pool => exact absurd hp (hphase pool).2
  | _ => trivial

theorem held_of_phase {phase : CallPhase} (hcall : call.isReturned = false)
    (hphase : Call.isReturned { call with phase } = false) :
    Call.held { call with phase } = call.held := by
  rw [Call.held, Call.held, hcall, hphase]

theorem not_good_raised {t : State} {e : RawError} (hcall : s.calls[i]? = some call)
    (hcalls : t.calls = s.calls) : ¬ (t.setPhase i call (.raised e)).Good := by
  intro hgood
  have hlt : i < s.calls.length := (List.getElem?_eq_some_iff.mp hcall).1
  exact hgood.1 { call with phase := .raised e }
    (List.mem_set (hcalls ▸ hlt) _) e rfl

/-- A call that moves on under the same pool, and the batches its step takes in. -/
theorem Inv.took (h : Inv db batches s) {phase : CallPhase} (took : List Nat)
    (hcall : s.calls[i]? = some call) (hcalls : s'.calls = s.calls.set i { call with phase })
    (hfinished : s'.finished = none) (hpool : s'.pool = s.pool)
    (hstopped : s'.stopped = false → s.stopped = false)
    (hsome : s.ingestor.pool.isSome = true → s'.ingestor.pool.isSome = true)
    (hphase : ∀ pool, phase = .submitting pool → call.parsed.payload.rows ≠ [] ∧ pool = s.pool ∧
      s.ingestor.pool.isSome = true)
    (hqueue : s'.ingestor.queue = batchesOf batches s'.queued)
    (hlog : (s'.queued ++ s'.appended).Perm (s.queued ++ s.appended ++ took))
    (hstock : s'.ingestor.stock = s.ingestor.stock + batchRowCount (batchesOf batches took)) :
    Inv db batches s' := by
  refine h.moved hcall hcalls hfinished (Nat.le_of_eq hpool.symm) ?_ ?_ hqueue ?_
  · intro hs c hc hsubmit
    exact hsome (h.present (hstopped hs) c hc (hpool ▸ hsubmit))
  · intro pool hp
    obtain ⟨hrows, rfl, hs⟩ := hphase pool hp
    exact ⟨hrows, Nat.le_of_eq hpool.symm, hsome hs⟩
  · rw [hstock, h.stock, batchRowCount_perm hlog, batchesOf_append (s.queued ++ s.appended) took,
      batchRowCount_append, Nat.add_assoc]

theorem queue_congr {s u : IngestState} (h : u.pool = s.pool) : u.queue = s.queue := by
  rw [IngestState.queue, h]
  rfl

/-! ## a batch taken in -/

section

variable {ingestor : IngestState}

/-- A batch without rows. -/
theorem left_taken_empty (h : Inv db batches s) (hnone : s.finished = none)
    (hcall : s.calls[i]? = some call) (hintime : InTime s (.advance i))
    (hempty : call.parsed.payload.rows.isEmpty = true)
    (htakes : TakesIn call.parsed s.ingestor ingestor)
    (hqueue : ingestor.queue = s.ingestor.queue) :
    Left db batches s (.advance i) ({ s with ingestor }.setPhase i call .returned) := by
  have hrows := List.isEmpty_iff.mp hempty
  refine ⟨h.took [] hcall rfl hnone rfl id htakes.pool nofun (hqueue.trans h.queue) ?_ ?_,
    fun _ => perm_content hcall rfl ?_, fun hlate => absurd hintime hlate⟩
  · rw [List.append_nil]
    exact .refl _
  · show ingestor.stock = _
    rw [htakes.stock, hrows]
    rfl
  · rw [Call.held, Call.held, hempty, Bool.or_true, Bool.or_true]
    exact .refl _

variable (h : Inv db batches s) (hnone : s.finished = none) (hcall : s.calls[i]? = some call)
  (hintime : InTime s (.advance i)) (hheld : call.held = [call.batch])
  (htakes : TakesIn call.parsed s.ingestor ingestor)

include h hcall htakes in
theorem stock_taken :
    ingestor.stock = s.ingestor.stock + batchRowCount (batchesOf batches [call.batch]) := by
  rw [batchesOf_singleton (h.batch call (List.mem_of_getElem? hcall))]
  exact htakes.stock

include h hnone hcall hintime hheld htakes

/-- A batch that is appended. -/
theorem left_taken_appended (hqueue : ingestor.queue = s.ingestor.queue) :
    Left db batches s (.advance i)
      ({ s with ingestor, appended := s.appended ++ [call.batch] }.setPhase i call .returned) := by
  have hlog : (s.queued ++ (s.appended ++ [call.batch])).Perm
      (s.queued ++ s.appended ++ [call.batch]) := by
    rw [List.append_assoc]
  refine ⟨h.took [call.batch] hcall rfl hnone rfl id htakes.pool nofun (hqueue.trans h.queue) hlog
    (stock_taken h hcall htakes), fun _ => perm_content hcall rfl ?_,
    fun hlate => absurd hintime hlate⟩
  rw [hheld, Call.held, Call.isReturned, Bool.true_or, if_pos rfl, List.append_nil]
  exact hlog

/-- A batch that is queued. -/
theorem left_taken_queued (hqueue : ingestor.queue = s.ingestor.queue ++ [call.parsed]) :
    Left db batches s (.advance i)
      ({ s with ingestor, queued := s.queued ++ [call.batch] }.setPhase i call .returned) := by
  have hlog : (s.queued ++ [call.batch] ++ s.appended).Perm
      (s.queued ++ s.appended ++ [call.batch]) := by
    rw [List.append_assoc, List.append_assoc]
    exact List.perm_append_comm.append_left _
  refine ⟨h.took [call.batch] hcall rfl hnone rfl id htakes.pool nofun ?_ hlog
    (stock_taken h hcall htakes), fun _ => perm_content hcall rfl ?_,
    fun hlate => absurd hintime hlate⟩
  · refine hqueue.trans ?_
    show _ = batchesOf batches (s.queued ++ [call.batch])
    rw [batchesOf_append, batchesOf_singleton (h.batch call (List.mem_of_getElem? hcall)), h.queue]
  · rw [hheld, Call.held, Call.isReturned, Bool.true_or, if_pos rfl, List.append_nil]
    exact hlog

end

/-- The direct append. -/
theorem left_append (h : Inv db batches s) (hnone : s.finished = none)
    (hcall : s.calls[i]? = some call) (hreturned : call.isReturned = false)
    (hphase : ∀ pool, call.phase ≠ .entering ∧ call.phase ≠ .submitting pool)
    (hgood : (s.append env i call).Good) :
    Left db batches s (.advance i) (s.append env i call) := by
  have htakes := submitPreparedBatch_takesIn env call.parsed s.ingestor
  have hintime := inTime_of_phase hcall hphase
  rw [State.append] at hgood ⊢
  cases hrun : submitPreparedBatch env call.parsed false s.ingestor with
  | error e ingestor =>
      rw [hrun] at hgood
      exact absurd hgood (not_good_raised hcall rfl)
  | ok _ ingestor =>
      obtain ⟨htakes, hpool⟩ := htakes.1 _ _ hrun
      have hqueue : ingestor.queue = s.ingestor.queue := queue_congr hpool
      dsimp only
      split
      · next hempty => exact left_taken_empty h hnone hcall hintime hempty htakes hqueue
      · next hsome =>
        have hheld : call.held = [call.batch] := by
          rw [Call.held, hreturned, Bool.false_or, if_neg hsome]
        exact left_taken_appended h hnone hcall hintime hheld htakes hqueue

/-- `PrepareForAppend`, with or without a merge of the pool. -/
theorem left_prepared (usePool : Bool) {ingestor : IngestState} {merges : Prop}
    (h : Inv db batches s) (hnone : s.finished = none) (hcall : s.calls[i]? = some call)
    (hreturned : call.isReturned = false) (hintime : InTime s (.advance i))
    (hkeeps : KeepsStock merges s.ingestor ingestor)
    (hcalls : s'.calls = s.calls.set i { call with phase := .prepared usePool })
    (hingestor : s'.ingestor = ingestor) (hfinished : s'.finished = s.finished)
    (hqueued : s'.queued = (s.settle ingestor).queued)
    (happended : s'.appended = (s.settle ingestor).appended)
    (hpool : s.pool < s'.pool ∨ s'.pool = s.pool ∧ s'.stopped = s.stopped ∧ ¬ merges) :
    Left db batches s (.advance i) s' := by
  have hlog := perm_settle s ingestor
  rw [← hqueued, ← happended] at hlog
  refine ⟨h.moved hcall hcalls (hfinished.trans hnone) ?_ ?_ nofun ?_ ?_,
    fun _ => perm_content hcall hcalls ?_, fun hlate => absurd hintime hlate⟩
  · rcases hpool with hnew | ⟨hsame, -⟩
    · exact hnew.le
    · exact hsame.ge
  · intro hstopped c hc hsubmit
    rcases hpool with hnew | ⟨hsame, hstop, hkept⟩
    · exact absurd (h.known c hc _ hsubmit) (Nat.not_le_of_lt hnew)
    · obtain ⟨hmerges, -⟩ | ⟨-, hsome⟩ := hkeeps.pool
      · exact absurd hmerges hkept
      · rw [hsame] at hsubmit
        rw [hingestor]
        exact hsome (h.present (hstop ▸ hstopped) c hc hsubmit)
  · rw [hingestor, hqueued]
    exact queue_settle hkeeps h.queue
  · rw [hingestor, hkeeps.stock, h.stock, batchRowCount_perm hlog]
  · rw [held_of_phase hreturned rfl]
    exact hlog.append_right _

theorem left_prepare (h : Inv db batches s) (hnone : s.finished = none)
    (hcall : s.calls[i]? = some call) (hreturned : call.isReturned = false)
    (hintime : InTime s (.advance i)) (hdrains : drainsPool env s.ingestor call.parsed = false)
    (hgood : (s.prepare env i call).Good) :
    Left db batches s (.advance i) (s.prepare env i call) := by
  have hkeeps := prepareForAppend_keeps env call.parsed s.ingestor
  rw [State.prepare] at hgood ⊢
  cases hrun : prepareForAppend env call.parsed s.ingestor with
  | error e ingestor =>
      rw [hrun] at hgood
      exact absurd hgood (not_good_raised hcall (settle_calls s ingestor))
  | ok usePool ingestor =>
      have hkeeps := hkeeps.1 _ _ hrun
      refine left_prepared usePool h hnone hcall hreturned hintime hkeeps ?_
        (settle_ingestor s ingestor)
        (settle_finished s ingestor) rfl rfl (.inr ⟨settle_pool s ingestor,
          settle_stopped s ingestor, by simp [hdrains]⟩)
      show (s.settle ingestor).calls.set _ _ = _
      rw [settle_calls]

/-- The critical section of a call that stopped the pool. -/
theorem left_drained (h : Inv db batches s) (hnone : s.finished = none)
    (hcall : s.calls[i]? = some call) (hphase : call.phase = .draining)
    (hgood : (s.drained env i call).Good) :
    Left db batches s (.advance i) (s.drained env i call) := by
  have hkeeps := prepareForAppend_keeps env call.parsed s.ingestor
  have hreturned : call.isReturned = false := by
    rw [Call.isReturned, hphase]
  have hintime := inTime_of_phase hcall fun pool => by
    rw [hphase]
    exact ⟨nofun, nofun⟩
  rw [State.drained, State.prepare] at hgood ⊢
  cases hrun : prepareForAppend env call.parsed s.ingestor with
  | error e ingestor =>
      rw [hrun] at hgood
      refine absurd ?_ (not_good_raised (e := e) hcall (settle_calls s ingestor))
      dsimp only at hgood
      split at hgood
      · exact hgood
      · exact hgood
  | ok usePool ingestor =>
      refine left_prepared usePool h hnone hcall hreturned hintime (hkeeps.1 _ _ hrun) ?_
        (settle_ingestor s ingestor) (settle_finished s ingestor) rfl rfl
        (.inl (Nat.lt_succ_self _))
      show (s.settle ingestor).calls.set _ _ = _
      rw [settle_calls]

/-- `if (use_pool && pool)`. -/
theorem left_route (h : Inv db batches s) (hnone : s.finished = none)
    (hcall : s.calls[i]? = some call) (hphase : call.phase = .prepared true) :
    Left db batches s (.advance i) (s.route i call) := by
  have hreturned : call.isReturned = false := by
    rw [Call.isReturned, hphase]
  have hintime := inTime_of_phase hcall fun pool => by
    rw [hphase]
    exact ⟨nofun, nofun⟩
  have hlog : (s.queued ++ s.appended).Perm (s.queued ++ s.appended ++ []) := by
    rw [List.append_nil]
  rw [State.route]
  split
  · next hempty =>
    refine ⟨h.took [] hcall rfl hnone rfl id id nofun h.queue hlog rfl, fun _ =>
      perm_content hcall rfl ?_, fun hlate => absurd hintime hlate⟩
    rw [Call.held, Call.held, hempty, Bool.or_true, Bool.or_true]
    exact .refl _
  · next hrows =>
    have hne : call.parsed.payload.rows ≠ [] := by
      simpa using hrows
    split
    · next hpool =>
      refine ⟨h.took [] hcall rfl hnone rfl id id ?_ h.queue hlog rfl, fun _ =>
        perm_content hcall rfl ?_, fun hlate => absurd hintime hlate⟩
      · rintro pool hsubmit
        exact ⟨hne, (CallPhase.submitting.inj hsubmit).symm, hpool⟩
      · rw [held_of_phase hreturned rfl]
        exact .refl _
    · refine ⟨h.took [] hcall rfl hnone rfl id id nofun h.queue hlog rfl, fun _ =>
        perm_content hcall rfl ?_, fun hlate => absurd hintime hlate⟩
      rw [held_of_phase hreturned rfl]
      exact .refl _

/-- `Submit`. -/
theorem left_submit (h : Inv db batches s) (hnone : s.finished = none)
    (hcall : s.calls[i]? = some call) {pool : Nat} (hphase : call.phase = .submitting pool) :
    Left db batches s (.advance i) (s.submit i call pool) := by
  have hmem := List.mem_of_getElem? hcall
  have hne := h.rows call hmem pool hphase
  have hheld : call.held = [call.batch] := by
    rw [Call.held, Call.isReturned, hphase]
    simp [hne]
  have hiff : InTime s (.advance i) ↔ pool = s.pool ∧ s.stopped = false := by
    constructor
    · intro hintime
      have hc := hintime call hcall
      rwa [hphase] at hc
    · intro htime c hc
      obtain rfl := Option.some.inj (hcall.symm.trans hc)
      rw [hphase]
      exact htime
  rw [State.submit]
  split
  · next htime =>
    obtain ⟨rfl, hstopped⟩ := htime
    obtain ⟨current, hcurrent⟩ := Option.isSome_iff_exists.mp (h.present hstopped call hmem hphase)
    have hqueue : s.ingestor.queue = current.queue := by
      rw [IngestState.queue, hcurrent]
    have hsubmitted : IngestState.queue
        { s.ingestor with pool := s.ingestor.pool.map (enqueue call.parsed) } =
          s.ingestor.queue ++ [call.parsed] := by
      rw [hqueue, IngestState.queue, hcurrent]
      rfl
    have htakes : TakesIn call.parsed s.ingestor
        { s.ingestor with pool := s.ingestor.pool.map (enqueue call.parsed) } := {
      pool := fun hs => by rw [Option.isSome_map, hs]
      stock := by
        rw [IngestState.stock, IngestState.stock]
        show s.ingestor.db.rowCount + batchRowCount (IngestState.queue
          { s.ingestor with pool := s.ingestor.pool.map (enqueue call.parsed) }) = _
        rw [hsubmitted, batchRowCount_append, batchRowCount_cons, batchRowCount_nil,
          Nat.add_zero, Nat.add_assoc]
      queue := .inr ⟨hne, hsubmitted⟩ }
    exact left_taken_queued h hnone hcall (hiff.mpr ⟨rfl, hstopped⟩) hheld htakes hsubmitted
  · next hlate =>
    refine ⟨h.took [] hcall rfl hnone rfl id id (by rintro pool ⟨⟩) h.queue ?_ rfl, fun hintime =>
      absurd (hiff.mp hintime) hlate, fun _ => content_lost hcall rfl ?_ rfl rfl⟩
    · rw [List.append_nil]
      exact .refl _
    · rw [hheld]
      exact List.cons_ne_nil _ _

/-- A batch taken in, in the first critical section, by `IngestParsed`. -/
theorem left_place {ingestor : IngestState} (h : Inv db batches s) (hnone : s.finished = none)
    (hcall : s.calls[i]? = some call) (hphase : call.phase = .entering)
    (htable : s.ingestor.db.table = none) (hcolumns : call.parsed.columns ≠ [])
    (htakes : TakesIn call.parsed s.ingestor ingestor) :
    Left db batches s (.advance i)
      ((s.place call.batch call.parsed ingestor).setPhase i call .returned) := by
  have hintime : InTime s (.advance i) := by
    intro c hc
    obtain rfl := Option.some.inj (hcall.symm.trans hc)
    rw [hphase, htable]
    exact nofun
  have hcols : call.parsed.columns.isEmpty = false := by
    simpa using hcolumns
  rw [State.place, hcols, Bool.or_false]
  split
  · next hempty =>
    have hqueue : ingestor.queue = s.ingestor.queue :=
      htakes.queue.resolve_right fun hadded => hadded.1 (List.isEmpty_iff.mp hempty)
    exact left_taken_empty h hnone hcall hintime hempty htakes hqueue
  · next hsome =>
    have hheld : call.held = [call.batch] := by
      rw [Call.held, Call.isReturned, hphase, Bool.false_or, if_neg hsome]
    split
    · next hlength =>
      have hqueue : ingestor.queue = s.ingestor.queue := by
        refine htakes.queue.resolve_right fun hadded => ?_
        rw [hadded.2, List.length_append] at hlength
        exact absurd hlength (by simp)
      exact left_taken_appended h hnone hcall hintime hheld htakes hqueue
    · next hlength =>
      have hqueue : ingestor.queue = s.ingestor.queue ++ [call.parsed] := by
        rcases htakes.queue with hsame | hadded
        · exact absurd (congrArg List.length hsame) hlength
        · exact hadded.2
      exact left_taken_queued h hnone hcall hintime hheld htakes hqueue

/-- A batch without columns meets a table: nothing is taken in. -/
theorem left_skip {ingestor : IngestState} (h : Inv db batches s) (hnone : s.finished = none)
    (hcall : s.calls[i]? = some call) (hphase : call.phase = .entering)
    (htable : s.ingestor.db.table.isSome = true) (hcolumns : call.parsed.columns = [])
    (hstock : ingestor.stock = s.ingestor.stock) (hqueue : ingestor.queue = s.ingestor.queue)
    (hpool : ingestor.pool = s.ingestor.pool) :
    Left db batches s (.advance i)
      ((s.place call.batch call.parsed ingestor).setPhase i call .returned) := by
  have hiff : InTime s (.advance i) ↔ call.parsed.payload.rows = [] := by
    constructor
    · intro hintime
      have hc := hintime call hcall
      rw [hphase] at hc
      exact hc htable hcolumns
    · intro hrows c hc
      obtain rfl := Option.some.inj (hcall.symm.trans hc)
      rw [hphase]
      exact fun _ _ => hrows
  have hplace : s.place call.batch call.parsed ingestor = { s with ingestor } := by
    rw [State.place, hcolumns, if_pos (by simp)]
  rw [hplace]
  refine ⟨h.took [] hcall rfl hnone rfl id (fun hs => hpool ▸ hs) nofun (hqueue.trans h.queue) ?_
    hstock, fun hintime => perm_content hcall rfl ?_,
    fun hlate => content_lost hcall rfl ?_ rfl rfl⟩
  · rw [List.append_nil]
    exact .refl _
  · rw [Call.held, Call.held, hiff.mp hintime, List.isEmpty_nil, Bool.or_true, Bool.or_true]
    exact .refl _
  · rw [Call.held, Call.isReturned, hphase]
    have hrows : call.parsed.payload.rows ≠ [] := fun hrows => hlate (hiff.mpr hrows)
    simp [hrows]

/-- The first critical section. -/
theorem left_enter (h : Inv db batches s) (hnone : s.finished = none)
    (hcall : s.calls[i]? = some call) (hphase : call.phase = .entering)
    (hgood : (s.enter env i call).Good) : Left db batches s (.advance i) (s.enter env i call) := by
  have hreturned : call.isReturned = false := by
    rw [Call.isReturned, hphase]
  -- the counter of lines aside, the ingestor is the same
  generalize hs : ({ s with ingestor :=
    { s.ingestor with errors := s.ingestor.errors + call.parsed.payload.parseErrors } } : State) = t
  have henter : s.enter env i call =
      if t.ingestor.db.table.isNone || call.parsed.columns.isEmpty then
        match ingestParsed env call.parsed t.ingestor with
        | .ok _ ingestor => (t.place call.batch call.parsed ingestor).setPhase i call .returned
        | .error e ingestor => { t with ingestor }.setPhase i call (.raised e)
      else if drainsPool env t.ingestor call.parsed then
        { t with schemaLock := some i, stopped := true }.setPhase i call .draining
      else t.prepare env i call := by
    rw [← hs]
    rfl
  have ht : Inv db batches t := by
    rw [← hs]
    exact ⟨h.batch, h.rows, h.known, h.present, h.queue, h.stock, h.ended⟩
  have htcall : t.calls[i]? = some call := by
    rw [← hs]
    exact hcall
  have htnone : t.finished = none := by
    rw [← hs]
    exact hnone
  suffices hleft : Left db batches t (.advance i) (s.enter env i call) by
    rw [← hs] at hleft
    exact ⟨hleft.inv, hleft.keeps, hleft.loses⟩
  rw [henter] at hgood ⊢
  split
  · next halone =>
    rw [if_pos halone] at hgood
    have hor : t.ingestor.db.table = none ∨ call.parsed.columns = [] := by
      simpa using halone
    have htakes := @ingestParsed_takesIn call.parsed env t.ingestor hor
    cases hrun : ingestParsed env call.parsed t.ingestor with
    | error e ingestor =>
        rw [hrun] at hgood
        exact absurd hgood (not_good_raised htcall rfl)
    | ok _ ingestor =>
        have htook := htakes.1 _ _ hrun
        beta_reduce at htook
        by_cases hcolumns : call.parsed.columns = []
        · rw [if_pos hcolumns] at htook
          obtain ⟨htable, hstock, hqueue, hpool⟩ := htook
          exact left_skip ht htnone htcall hphase htable hcolumns hstock hqueue hpool
        · rw [if_neg hcolumns] at htook
          exact left_place ht htnone htcall hphase (hor.resolve_right hcolumns) hcolumns htook
  · next halone =>
    rw [if_neg halone] at hgood
    have hcolumns : call.parsed.columns ≠ [] := by
      intro hnil
      simp [hnil] at halone
    have hintime : InTime t (.advance i) := by
      intro c hc
      obtain rfl := Option.some.inj (htcall.symm.trans hc)
      rw [hphase]
      exact fun _ hnil => absurd hnil hcolumns
    split
    · refine ⟨ht.took [] htcall rfl htnone rfl nofun id nofun ht.queue ?_ rfl, fun _ =>
        perm_content htcall rfl ?_, fun hlate => absurd hintime hlate⟩
      · rw [List.append_nil]
        exact .refl _
      · rw [held_of_phase hreturned rfl]
        exact .refl _
    · next hdrains =>
      rw [if_neg hdrains] at hgood
      exact left_prepare ht htnone htcall hreturned hintime (by simpa using hdrains) hgood

/-- `Finish`. -/
theorem left_finish (h : Inv db batches s) (hcalls : ∀ call ∈ s.calls, call.isReturned = true)
    (hgood : (s.finish env).Good) : Left db batches s .finish (s.finish env) := by
  have hfinish := finish_keeps env s.ingestor
  rw [State.finish] at hgood ⊢
  cases hrun : RawDuck.finish env s.ingestor with
  | error e ingestor =>
      rw [hrun] at hgood
      exact absurd rfl (hgood.2 e)
  | ok _ ingestor =>
      obtain ⟨hkeeps, hempty⟩ := hfinish.1 _ _ hrun
      have hsubmits : ∀ call ∈ (s.settle ingestor).calls, ∀ pool,
          call.phase ≠ .submitting pool := by
        intro call hcall pool hphase
        rw [settle_calls] at hcall
        have hreturned := hcalls call hcall
        rw [Call.isReturned, hphase] at hreturned
        exact nomatch hreturned
      have hqueued : (s.settle ingestor).queued = [] := by
        rw [State.settle, hempty]
        rfl
      refine ⟨⟨?_, fun call hcall pool hphase => absurd hphase (hsubmits call hcall pool),
        fun call hcall pool hphase => absurd hphase (hsubmits call hcall pool),
        fun _ call hcall hphase => absurd hphase (hsubmits call hcall _), ?_, ?_,
        fun _ => ⟨hqueued, ?_⟩⟩, fun _ => ?_, fun hlate => absurd trivial hlate⟩
      · show ∀ call ∈ (s.settle ingestor).calls, _
        rw [settle_calls]
        exact h.batch
      · show (s.settle ingestor).ingestor.queue = _
        rw [settle_ingestor]
        exact queue_settle hkeeps h.queue
      · show (s.settle ingestor).ingestor.stock = _
        rw [settle_ingestor, hkeeps.stock, h.stock]
        show _ = _ + batchRowCount (batchesOf batches
          ((s.settle ingestor).queued ++ (s.settle ingestor).appended))
        rw [batchRowCount_perm (perm_settle s ingestor)]
      · show ∀ call ∈ (s.settle ingestor).calls, _
        rw [settle_calls]
        exact hcalls
      · show ((s.settle ingestor).calls.flatMap Call.held ++
          ((s.settle ingestor).queued ++ (s.settle ingestor).appended)).Perm s.content
        rw [settle_calls]
        exact (perm_settle s ingestor).append_left _

/-- A step is one of a call, or `Finish` after all of them. -/
theorem step_cases {label : Label} (hstep : step env s label = some s') :
    s.finished = none ∧ ((∃ i call, label = .advance i ∧ s.calls[i]? = some call ∧
        s.advance env i call = some s') ∨
      label = .finish ∧ (∀ call ∈ s.calls, call.isReturned = true) ∧ s' = s.finish env) := by
  unfold step at hstep
  cases hnone : s.finished with
  | some outcome =>
      rw [hnone] at hstep
      exact nomatch hstep
  | none =>
      rw [hnone, Option.isSome_none, if_neg (by simp)] at hstep
      refine ⟨rfl, ?_⟩
      cases label with
      | advance i =>
          dsimp only at hstep
          split at hstep
          · next call hcall => exact .inl ⟨i, call, rfl, hcall, hstep⟩
          · exact nomatch hstep
      | finish =>
          dsimp only at hstep
          split at hstep
          · next hready =>
            rw [Bool.and_eq_true, List.all_eq_true] at hready
            exact .inr ⟨rfl, hready.2, (Option.some.inj hstep).symm⟩
          · exact nomatch hstep

/-- **One step** without a raise keeps the invariant, and what is held if it is in
time. -/
theorem left_step {label : Label} (h : Inv db batches s) (hstep : step env s label = some s')
    (hgood : s'.Good) : Left db batches s label s' := by
  obtain ⟨hnone, ⟨i, call, rfl, hcall, hadvance⟩ | ⟨rfl, hcalls, rfl⟩⟩ := step_cases hstep
  · cases hphase : call.phase with
    | entering =>
        rw [State.advance, hphase] at hadvance
        dsimp only at hadvance
        split at hadvance
        · exact nomatch hadvance
        · obtain rfl := Option.some.inj hadvance
          exact left_enter h hnone hcall hphase hgood
    | draining =>
        rw [State.advance, hphase] at hadvance
        obtain rfl := Option.some.inj hadvance
        exact left_drained h hnone hcall hphase hgood
    | prepared usePool =>
        rw [State.advance, hphase] at hadvance
        cases usePool with
        | true =>
            obtain rfl := Option.some.inj hadvance
            exact left_route h hnone hcall hphase
        | false =>
            dsimp only at hadvance
            split at hadvance
            · exact nomatch hadvance
            · obtain rfl := Option.some.inj hadvance
              refine left_append h hnone hcall ?_ (fun pool => ?_) hgood
              · rw [Call.isReturned, hphase]
              · rw [hphase]
                exact ⟨nofun, nofun⟩
    | submitting pool =>
        rw [State.advance, hphase] at hadvance
        obtain rfl := Option.some.inj hadvance
        exact left_submit h hnone hcall hphase
    | appending =>
        rw [State.advance, hphase] at hadvance
        obtain rfl := Option.some.inj hadvance
        refine left_append h hnone hcall ?_ (fun pool => ?_) hgood
        · rw [Call.isReturned, hphase]
        · rw [hphase]
          exact ⟨nofun, nofun⟩
    | returned =>
        rw [State.advance, hphase] at hadvance
        exact nomatch hadvance
    | raised e =>
        rw [State.advance, hphase] at hadvance
        exact nomatch hadvance
  · exact left_finish h hcalls hgood

/-! ## whole runs -/

/-- A call's step changes the phase of that call, and does not end the run. -/
def Moved (s : State) (i : Nat) (call : Call) (s' : State) : Prop :=
  (∃ phase, s'.calls = s.calls.set i { call with phase }) ∧ s'.finished = s.finished

theorem moved_setPhase {t : State} {phase : CallPhase} (hcalls : t.calls = s.calls)
    (hfinished : t.finished = s.finished) : Moved s i call (t.setPhase i call phase) :=
  ⟨⟨phase, by rw [State.setPhase, hcalls]⟩, hfinished⟩

theorem moved_prepare (env : NativeEnv) (s : State) (i : Nat) (call : Call) :
    Moved s i call (s.prepare env i call) := by
  rw [State.prepare]
  split
  · exact moved_setPhase (settle_calls ..) (settle_finished ..)
  · exact moved_setPhase (settle_calls ..) (settle_finished ..)

theorem moved_append (env : NativeEnv) (s : State) (i : Nat) (call : Call) :
    Moved s i call (s.append env i call) := by
  rw [State.append]
  split
  · split
    · exact moved_setPhase rfl rfl
    · exact moved_setPhase rfl rfl
  · exact moved_setPhase rfl rfl

theorem moved_enter (env : NativeEnv) (s : State) (i : Nat) (call : Call) :
    Moved s i call (s.enter env i call) := by
  have hplace : ∀ (t : State) ingestor, (t.place call.batch call.parsed ingestor).calls = t.calls ∧
      (t.place call.batch call.parsed ingestor).finished = t.finished := by
    intro t ingestor
    rw [State.place]
    split
    · exact ⟨rfl, rfl⟩
    · split
      · exact ⟨rfl, rfl⟩
      · exact ⟨rfl, rfl⟩
  rw [State.enter]
  dsimp only
  split
  · split
    · exact moved_setPhase (hplace _ _).1 (hplace _ _).2
    · exact moved_setPhase rfl rfl
  · split
    · exact moved_setPhase rfl rfl
    · exact moved_prepare ..

theorem moved_advance (h : s.advance env i call = some s') : Moved s i call s' := by
  rw [State.advance] at h
  split at h
  · split at h
    · exact nomatch h
    · obtain rfl := Option.some.inj h
      exact moved_enter ..
  · obtain rfl := Option.some.inj h
    have hmoved := moved_prepare env s i call
    rw [State.drained]
    dsimp only
    split
    · exact hmoved
    · split
      · exact hmoved
      · exact hmoved
  · obtain rfl := Option.some.inj h
    rw [State.route]
    split
    · exact moved_setPhase rfl rfl
    · split
      · exact moved_setPhase rfl rfl
      · exact moved_setPhase rfl rfl
  · split at h
    · exact nomatch h
    · obtain rfl := Option.some.inj h
      exact moved_append ..
  · obtain rfl := Option.some.inj h
    rw [State.submit]
    split
    · exact moved_setPhase rfl rfl
    · exact moved_setPhase rfl rfl
  · obtain rfl := Option.some.inj h
    exact moved_append ..
  · exact nomatch h
  · exact nomatch h

/-- What has raised stays so. -/
theorem good_of_step {label : Label} (hstep : step env s label = some s') (hgood : s'.Good) :
    s.Good := by
  obtain ⟨hnone, ⟨i, call, rfl, hcall, hadvance⟩ | ⟨rfl, hcalls, -⟩⟩ := step_cases hstep
  · obtain ⟨⟨phase, hset⟩, -⟩ := moved_advance hadvance
    refine ⟨fun c hc e hraised => ?_, fun e he => ?_⟩
    · obtain ⟨j, hj⟩ := List.mem_iff_getElem?.mp hc
      by_cases hij : i = j
      · subst hij
        obtain rfl := Option.some.inj (hcall.symm.trans hj)
        rw [State.advance, hraised] at hadvance
        exact nomatch hadvance
      · have hkept : s'.calls[j]? = some c := by
          rw [hset, List.getElem?_set_ne hij, hj]
        exact hgood.1 c (List.mem_of_getElem? hkept) e hraised
    · rw [hnone] at he
      exact nomatch he
  · refine ⟨fun c hc e hraised => ?_, fun e he => ?_⟩
    · have hreturned := hcalls c hc
      rw [Call.isReturned, hraised] at hreturned
      exact nomatch hreturned
    · rw [hnone] at he
      exact nomatch he

/-- A run has ended only where every call has returned. -/
theorem returned_of_finished {schedule : List Label} {t : State}
    (hrun : (system env db batches).run schedule = some t) (hended : t.finished.isSome = true) :
    ∀ call ∈ t.calls, call.isReturned = true := by
  have hreach := reachable_iff_run.mpr ⟨schedule, hrun⟩
  refine hreach.invariant
    (fun s => s.finished.isSome = true → ∀ call ∈ s.calls, call.isReturned = true) nofun
    (fun s label s' _ _ hstep hs' => ?_) hended
  obtain ⟨hnone, ⟨i, call, rfl, hcall, hadvance⟩ | ⟨rfl, hcalls, rfl⟩⟩ := step_cases hstep
  · rw [(moved_advance hadvance).2, hnone] at hs'
    exact nomatch hs'
  · rw [State.finish]
    split
    · show ∀ call ∈ (s.settle _).calls, _
      rwa [settle_calls]
    · show ∀ call ∈ (s.settle _).calls, _
      rwa [settle_calls]

/-- The batches with rows. -/
def batchNumbers (batches : List RawParsedPayload) : List Nat :=
  (batches.zipIdx.filter fun batch => !batch.1.payload.rows.isEmpty).map Prod.snd

theorem content_start (db : Db) (batches : List RawParsedPayload) :
    (State.start db batches).content = batchNumbers batches := by
  rw [State.content, State.start, batchNumbers]
  show List.flatMap _ _ ++ [] = _
  rw [List.append_nil]
  generalize batches.zipIdx = numbered
  induction numbered with
  | nil => rfl
  | cons batch numbered ih =>
      rw [List.map_cons, List.flatMap_cons, ih, List.filter_cons]
      cases hrows : batch.1.payload.rows.isEmpty with
      | true => simp [Call.held, hrows]
      | false => simp [Call.held, Call.isReturned, hrows]

/-- `{"a":"x"}`, as a payload. -/
def textRow : ProcessedPayload smallDuck :=
  .ofRows smallDuck [.obj [(bytes "a", .str (bytes "x"))]]
    [{ name := bytes "a", path := [bytes "a"], type := .VARCHAR, node := [0] }] rfl rfl

/-- An append pool for any batch. -/
def poolEnv : NativeEnv := { smallEnv with poolMinRows := 1 }

/-- `{"a":1}` and `{"a":"x"}`. -/
def twoBatches : List RawParsedPayload := [oneRow.toRawParsedPayload, textRow.toRawParsedPayload]

/-- Two calls in step with each other. -/
def inStep : List Label :=
  [.advance 0, .advance 1, .advance 0, .advance 1, .advance 1, .advance 0, .finish]

/-- The number is prepared, the text stops the pool to widen the column, and then the
number is submitted. -/
def overtaken : List Label :=
  [.advance 0, .advance 0, .advance 1, .advance 0, .advance 1, .advance 1, .advance 1, .finish]

/-- How a run of small batches has ended, and what it has appended. -/
def outcome (batches : List RawParsedPayload) (schedule : List Label) :
    Option (Option (Except RawError Unit) × List Nat) :=
  ((system poolEnv columnDb batches).run schedule).map fun t => (t.finished, t.appended)

theorem exists_of_outcome {schedule : List Label} {appended : List Nat}
    (h : outcome batches schedule = some (some (.ok ⟨⟩), appended)) :
    ∃ t, (system poolEnv columnDb batches).run schedule = some t ∧
      t.finished = some (.ok ⟨⟩) ∧ t.appended = appended := by
  obtain ⟨t, hrun, ht⟩ := Option.map_eq_some_iff.mp h
  obtain ⟨hfinished, happended⟩ := Prod.mk.inj ht
  exact ⟨t, hrun, hfinished, happended⟩

theorem outcome_inStep :
    outcome [oneRow.toRawParsedPayload, oneRow.toRawParsedPayload] inStep =
      some (some (.ok ⟨⟩), [1, 0]) := rfl

theorem outcome_overtaken : outcome twoBatches overtaken = some (some (.ok ⟨⟩), [1]) := by
  decide +kernel

end StreamIngestor

end RawDuck
