import RawDuck.Bytes
import RawDuck.Transition

/-!
# RawDuck.AsyncBuffers

`RawAsyncBuffers` under concurrent enqueues, rounds of the background flusher
and calls of `raw_flush`, over every interleaving of their critical sections and
of the flush transactions of their workers.

Whoever drains moves buffers out of the shared map before it flushes them, so a
payload is in the map or in a batch that some drain has taken; it goes by its
number.

* `rawFlush_barrier` — `raw_flush` is a barrier as long as no other drain holds
  an unfinished batch when it takes the buffers;
* `asyncFlush_single` — flushes of one table exclude each other as long as no
  drain takes a table that is still in the hands of one.
-/

namespace RawDuck

open Transition Transition.System

/-! ## the system -/

/-- `RawAsyncBuffers::Buffer` under its key in the map. -/
structure AsyncBuffer where
  target : Bytes
  payloads : List Nat

/-- Where the flush of a taken buffer stands. -/
inductive BatchPhase where
  /-- No worker has picked it. -/
  | due
  /-- In `FlushBuffer`. -/
  | flushing
  | committed
  | dropped
  deriving DecidableEq, Repr

/-- A buffer that a drain has moved out of the map. -/
structure TakenBatch where
  call : Nat
  target : Bytes
  payloads : List Nat
  phase : BatchPhase

/-- Who drains: a round of `FlushLoop`, its last one, or a call of `raw_flush`
that started behind so many enqueues. -/
inductive FlushCaller where
  | flushLoop
  | shutdown
  | rawFlush (since : Nat)
  deriving DecidableEq, Repr

/-- Where a drain stands: before it takes the buffers, with them, or returned. -/
inductive CallPhase where
  | started
  | taken
  | returned
  deriving DecidableEq, Repr

/-- A drain. -/
structure FlushCall where
  caller : FlushCaller
  phase : CallPhase

/-- `RawAsyncBuffers`, with the drains so far, the batches they took and the
number of payloads enqueued. -/
structure AsyncBuffers where
  buffers : List AsyncBuffer
  calls : List FlushCall
  batches : List TakenBatch
  enqueued : Nat

/-- A critical section, or the begin or end of a flush transaction. -/
inductive AsyncEvent where
  | enqueue (target : Bytes)
  /-- `raw_flush` is called. -/
  | flushStarts
  /-- `FlushAll` takes the map. -/
  | takeAll (call : Nat)
  /-- `FlushLoop` takes the buffers that are due by now. -/
  | round (isDue : AsyncBuffer → Bool)
  /-- `FlushLoop` has left its loop and takes what remains. -/
  | lastRound
  /-- A worker picks a batch: `FlushBuffer` begins. -/
  | flushBegins (batch : Nat)
  /-- `FlushBuffer` ends, committed or dropped. -/
  | flushEnds (batch : Nat) (committed : Bool)
  /-- `FlushDueParallel` returns. -/
  | returns (call : Nat)

/-- The flush of the batch is over. -/
def BatchPhase.finished : BatchPhase → Bool
  | .committed | .dropped => true
  | .due | .flushing => false

namespace AsyncBuffers

/-- `Enqueue`, for the payload of this number. -/
def enqueueInto (payload : Nat) (target : Bytes) : List AsyncBuffer → List AsyncBuffer
  | [] => [{ target, payloads := [payload] }]
  | buffer :: rest =>
      if buffer.target = target then
        { buffer with payloads := buffer.payloads ++ [payload] } :: rest
      else buffer :: enqueueInto payload target rest

/-- The batches of a drain. -/
def takenBy (call : Nat) (buffers : List AsyncBuffer) : List TakenBatch :=
  buffers.map fun b => { call, target := b.target, payloads := b.payloads, phase := .due }

/-- A drain moves buffers out of the map. -/
def take (s : AsyncBuffers) (call : Nat) (isTaken : AsyncBuffer → Bool) : AsyncBuffers :=
  { s with
    buffers := s.buffers.filter fun b => !isTaken b
    batches := s.batches ++ takenBy call (s.buffers.filter isTaken) }

/-- A new drain, with or without its buffers. -/
def addCall (s : AsyncBuffers) (caller : FlushCaller) (phase : CallPhase) : AsyncBuffers :=
  { s with calls := s.calls ++ [{ caller, phase }] }

/-- A batch moves on. -/
def setBatch (s : AsyncBuffers) (k : Nat) (phase : BatchPhase) : AsyncBuffers :=
  { s with batches := s.batches.modify k fun b => { b with phase } }

/-- A drain moves on. -/
def setCall (s : AsyncBuffers) (i : Nat) (phase : CallPhase) : AsyncBuffers :=
  { s with calls := s.calls.modify i fun c => { c with phase } }

/-- `FlushLoop` is between two rounds. -/
def loopIsFree (s : AsyncBuffers) : Bool :=
  s.calls.all fun c => match c.caller with
    | .flushLoop => c.phase == .returned
    | .shutdown => false
    | .rawFlush _ => true

/-- `MAX_ASYNC_FLUSH_THREADS`. -/
def maxAsyncFlushThreads : Nat := 16

/-- The workers of a drain that are busy. -/
def busyWorkers (s : AsyncBuffers) (call : Nat) : Nat :=
  s.batches.countP fun b => b.call == call && b.phase == .flushing

/-- `worker_count`, from the configured number of threads. -/
def workerCount (s : AsyncBuffers) (configured call : Nat) : Nat :=
  min (s.batches.countP fun b => b.call == call) (min configured maxAsyncFlushThreads)

/-- The batch is the next of its drain: none before it is waiting. -/
def isNext (s : AsyncBuffers) (k call : Nat) : Bool :=
  (s.batches.take k).all fun b => b.call != call || b.phase != .due

/-- One event; `none` where it is not enabled. -/
def step (configured : Nat) (s : AsyncBuffers) : AsyncEvent → Option AsyncBuffers
  | .enqueue target =>
      some { s with buffers := enqueueInto s.enqueued target s.buffers, enqueued := s.enqueued + 1 }
  | .flushStarts => some (s.addCall (.rawFlush s.enqueued) .started)
  | .takeAll i =>
      match s.calls[i]? with
      | some { phase := .started, .. } => some ((s.take i fun _ => true).setCall i .taken)
      | _ => none
  | .round isDue =>
      if s.loopIsFree then
        if s.buffers.any isDue then
          some ((s.take s.calls.length isDue).addCall .flushLoop .taken)
        else some s
      else none
  | .lastRound =>
      if s.loopIsFree then some ((s.take s.calls.length fun _ => true).addCall .shutdown .taken)
      else none
  | .flushBegins k =>
      match s.batches[k]? with
      | some { call, phase := .due, .. } =>
          if s.busyWorkers call < s.workerCount configured call ∧ s.isNext k call then
            some (s.setBatch k .flushing)
          else none
      | _ => none
  | .flushEnds k committed =>
      match s.batches[k]? with
      | some { phase := .flushing, .. } =>
          some (s.setBatch k (if committed then .committed else .dropped))
      | _ => none
  | .returns i =>
      match s.calls[i]? with
      | some { phase := .taken, .. } =>
          if s.batches.all fun b => b.call != i || b.phase.finished then
            some (s.setCall i .returned)
          else none
      | _ => none

/-- The payload is in the map. -/
def Buffered (s : AsyncBuffers) (payload : Nat) : Prop :=
  ∃ b ∈ s.buffers, payload ∈ b.payloads

/-- Behind each `raw_flush` that has returned, no payload enqueued before it
started is buffered or in a batch that is not finished; it is in a finished
one. -/
def Barrier (s : AsyncBuffers) : Prop :=
  ∀ (i since : Nat), s.calls[i]? = some { caller := .rawFlush since, phase := .returned } →
    ∀ p < since, ¬ s.Buffered p ∧
      (∀ b ∈ s.batches, p ∈ b.payloads → b.phase.finished = true) ∧
      ∃ b ∈ s.batches, p ∈ b.payloads ∧ b.phase.finished = true

/-- Each table has at most one flush transaction in progress. -/
def SingleFlush {τ : Type} (tableOf : Bytes → τ) (s : AsyncBuffers) : Prop :=
  ∀ (j k : Nat) (b c : TakenBatch), s.batches[j]? = some b → s.batches[k]? = some c →
    b.phase = .flushing →
    c.phase = .flushing → tableOf b.target = tableOf c.target → j = k

/-- No batch is unfinished when `raw_flush` takes the buffers. -/
def QuietFlush (s : AsyncBuffers) : AsyncEvent → Prop
  | .takeAll _ => ∀ b ∈ s.batches, b.phase.finished = true
  | _ => True

/-- The buffers are of different tables, and none of them is in an unfinished
batch. -/
def FreeTables {τ : Type} (tableOf : Bytes → τ) (s : AsyncBuffers) (isTaken : AsyncBuffer → Bool) :
    Prop :=
  (s.buffers.filter isTaken).Pairwise (fun b c => tableOf b.target ≠ tableOf c.target) ∧
    ∀ b ∈ s.buffers.filter isTaken, ∀ c ∈ s.batches, c.phase.finished = false →
      tableOf b.target ≠ tableOf c.target

/-- A drain takes buffers of free tables only. -/
def TablesFree {τ : Type} (tableOf : Bytes → τ) (s : AsyncBuffers) : AsyncEvent → Prop
  | .takeAll _ | .lastRound => s.FreeTables tableOf fun _ => true
  | .round isDue => s.FreeTables tableOf isDue
  | _ => True

instance QuietFlush.decidable (s : AsyncBuffers) : ∀ a, Decidable (s.QuietFlush a)
  | .takeAll _ => inferInstanceAs (Decidable (∀ b ∈ s.batches, b.phase.finished = true))
  | .enqueue _ | .flushStarts | .round _ | .lastRound | .flushBegins _ | .flushEnds _ _
  | .returns _ => .isTrue trivial

instance TablesFree.decidable {τ : Type} [DecidableEq τ] (tableOf : Bytes → τ)
    (s : AsyncBuffers) : ∀ a, Decidable (s.TablesFree tableOf a)
  | .takeAll _ | .lastRound => inferInstanceAs (Decidable (_ ∧ _))
  | .round _ => inferInstanceAs (Decidable (_ ∧ _))
  | .enqueue _ | .flushStarts | .flushBegins _ | .flushEnds _ _ | .returns _ => .isTrue trivial

end AsyncBuffers

/-- Nothing is enqueued and nobody drains. -/
def asyncBuffers (configured : Nat) : System AsyncBuffers AsyncEvent where
  init := { buffers := [], calls := [], batches := [], enqueued := 0 }
  step := AsyncBuffers.step configured

namespace AsyncBuffers

variable {configured : Nat} {s s' : AsyncBuffers}

/-! ## one event -/

/-- What an event does: it enqueues, starts a call, lets a drain take buffers,
moves a batch towards its end, or lets a drain return. -/
inductive Effect (s : AsyncBuffers) : AsyncEvent → AsyncBuffers → Prop where
  | enqueue (target : Bytes) : Effect s (.enqueue target)
      { s with buffers := enqueueInto s.enqueued target s.buffers, enqueued := s.enqueued + 1 }
  | starts : Effect s .flushStarts (s.addCall (.rawFlush s.enqueued) .started)
  | takeAll {i : Nat} {caller : FlushCaller} :
      s.calls[i]? = some { caller, phase := .started } →
      Effect s (.takeAll i) ((s.take i fun _ => true).setCall i .taken)
  | idle (isDue : AsyncBuffer → Bool) : Effect s (.round isDue) s
  | round (isDue : AsyncBuffer → Bool) :
      Effect s (.round isDue) ((s.take s.calls.length isDue).addCall .flushLoop .taken)
  | lastRound :
      Effect s .lastRound ((s.take s.calls.length fun _ => true).addCall .shutdown .taken)
  | begins {k : Nat} {b : TakenBatch} : s.batches[k]? = some b → b.phase = .due →
      Effect s (.flushBegins k) (s.setBatch k .flushing)
  | ends {k : Nat} {b : TakenBatch} (committed : Bool) : s.batches[k]? = some b →
      b.phase = .flushing →
      Effect s (.flushEnds k committed) (s.setBatch k (if committed then .committed else .dropped))
  | returns {i : Nat} {caller : FlushCaller} : s.calls[i]? = some { caller, phase := .taken } →
      (∀ b ∈ s.batches, b.call = i → b.phase.finished = true) →
      Effect s (.returns i) (s.setCall i .returned)

theorem step_effect {a : AsyncEvent} (h : s.step configured a = some s') : Effect s a s' := by
  cases a with
  | enqueue target =>
      cases h
      exact .enqueue target
  | flushStarts =>
      cases h
      exact .starts
  | takeAll i =>
      simp only [step] at h
      split at h
      · next caller hc =>
        cases h
        exact .takeAll hc
      · exact nomatch h
  | round isDue =>
      simp only [step] at h
      split at h
      · split at h
        · cases h
          exact .round isDue
        · cases h
          exact .idle isDue
      · exact nomatch h
  | lastRound =>
      simp only [step] at h
      split at h
      · cases h
        exact .lastRound
      · exact nomatch h
  | flushBegins k =>
      simp only [step] at h
      split at h
      · next call target payloads hb =>
        split at h
        · cases h
          exact .begins hb rfl
        · exact nomatch h
      · exact nomatch h
  | flushEnds k committed =>
      simp only [step] at h
      split at h
      · next call target payloads hb =>
        cases h
        exact .ends committed hb rfl
      · exact nomatch h
  | returns i =>
      simp only [step] at h
      split at h
      · next caller hc =>
        split at h
        · next hall =>
          cases h
          refine .returns hc fun b hb hcall => ?_
          have hfinished := List.all_eq_true.mp hall b hb
          simpa [hcall] using hfinished
        · exact nomatch h
      · exact nomatch h

/-- A payload in the map after an enqueue was there, or is the new one. -/
theorem mem_enqueueInto {payload p : Nat} {target : Bytes} {buffers : List AsyncBuffer} :
    (∃ b ∈ enqueueInto payload target buffers, p ∈ b.payloads) ↔
      (∃ b ∈ buffers, p ∈ b.payloads) ∨ p = payload := by
  induction buffers with
  | nil => simp [enqueueInto]
  | cons buffer rest ih =>
      rw [enqueueInto]
      split
      · simp only [List.mem_cons, exists_eq_or_imp, List.mem_append, List.not_mem_nil, or_false]
        exact or_right_comm
      · simp only [List.mem_cons, exists_eq_or_imp, ih]
        exact or_assoc.symm

theorem mem_take {call : Nat} {isTaken : AsyncBuffer → Bool} {b : TakenBatch}
    (h : b ∈ (s.take call isTaken).batches) :
    b ∈ s.batches ∨ ∃ buffer ∈ s.buffers, isTaken buffer = true ∧
      b = { call, target := buffer.target, payloads := buffer.payloads, phase := .due } := by
  rcases List.mem_append.mp h with h | h
  · exact .inl h
  · obtain ⟨buffer, hmem, rfl⟩ := List.mem_map.mp h
    obtain ⟨hmem, htaken⟩ := List.mem_filter.mp hmem
    exact .inr ⟨buffer, hmem, htaken, rfl⟩

/-- A drain only moves payloads: whatever was in the map is in the map or in a
batch of the drain. -/
theorem located_take {p : Nat} (call : Nat) (isTaken : AsyncBuffer → Bool)
    (h : s.Buffered p ∨ ∃ b ∈ s.batches, p ∈ b.payloads) :
    (s.take call isTaken).Buffered p ∨ ∃ b ∈ (s.take call isTaken).batches, p ∈ b.payloads := by
  rcases h with ⟨b, hb, hp⟩ | ⟨b, hb, hp⟩
  · cases htaken : isTaken b with
    | true =>
        refine .inr ⟨_, List.mem_append_right _ (List.mem_map.mpr ⟨b, ?_, rfl⟩), hp⟩
        exact List.mem_filter.mpr ⟨hb, htaken⟩
    | false => exact .inl ⟨b, List.mem_filter.mpr ⟨hb, by simp [htaken]⟩, hp⟩
  · exact .inr ⟨b, List.mem_append_left _ hb, hp⟩

theorem Buffered.of_take {p : Nat} (call : Nat) {isTaken : AsyncBuffer → Bool}
    (h : (s.take call isTaken).Buffered p) : s.Buffered p := by
  obtain ⟨b, hb, hp⟩ := h
  exact ⟨b, (List.mem_filter.mp hb).1, hp⟩

/-- A batch that moved on is the batch it was, in its new phase. -/
theorem mem_setBatch {k : Nat} {phase : BatchPhase} {b' : TakenBatch}
    (h : b' ∈ (s.setBatch k phase).batches) :
    b' ∈ s.batches ∨ ∃ b, s.batches[k]? = some b ∧ b' = { b with phase } := by
  obtain ⟨j, hj⟩ := List.getElem?_of_mem h
  simp only [setBatch, List.getElem?_modify, Option.map_eq_map, Option.map_eq_some_iff] at hj
  obtain ⟨b, hb, rfl⟩ := hj
  by_cases hjk : k = j
  · subst hjk
    exact .inr ⟨b, hb, by simp⟩
  · exact .inl (by simpa [hjk] using List.mem_of_getElem? hb)

theorem exists_mem_setBatch {b : TakenBatch} (h : b ∈ s.batches) (k : Nat) (phase : BatchPhase) :
    ∃ b' ∈ (s.setBatch k phase).batches, b'.payloads = b.payloads := by
  obtain ⟨j, hj⟩ := List.getElem?_of_mem h
  have hj' : (s.setBatch k phase).batches[j]? =
      some (if k = j then { b with phase } else b) := by
    simp only [setBatch, List.getElem?_modify, hj, Option.map_eq_map, Option.map_some]
  refine ⟨_, List.mem_of_getElem? hj', ?_⟩
  split <;> rfl

theorem getElem?_setCall {i j : Nat} {phase : CallPhase} {c : FlushCall}
    (h : (s.setCall i phase).calls[j]? = some c) :
    ∃ c₀, s.calls[j]? = some c₀ ∧ c.caller = c₀.caller ∧
      (i ≠ j ∧ c = c₀ ∨ i = j ∧ c.phase = phase) := by
  simp only [setCall, List.getElem?_modify, Option.map_eq_map, Option.map_eq_some_iff] at h
  obtain ⟨c₀, hc₀, rfl⟩ := h
  refine ⟨c₀, hc₀, ?_⟩
  by_cases hij : i = j
  · simp [hij]
  · simp [hij]

theorem getElem?_addCall {j : Nat} {caller : FlushCaller} {phase : CallPhase} {c : FlushCall}
    (h : (s.addCall caller phase).calls[j]? = some c) :
    s.calls[j]? = some c ∨ j = s.calls.length ∧ c = { caller, phase } := by
  simp only [addCall] at h
  by_cases hj : j < s.calls.length
  · exact .inl (by rwa [List.getElem?_append_left hj] at h)
  · rw [List.getElem?_append_right (Nat.le_of_not_lt hj)] at h
    cases hk : j - s.calls.length with
    | zero =>
        rw [hk] at h
        simp only [List.getElem?_cons_zero, Option.some.injEq] at h
        exact .inr ⟨by omega, h.symm⟩
    | succ k => simp [hk] at h

/-! ## raw_flush as a barrier -/

/-- Where the payloads are, and what `raw_flush` has seen of them. -/
structure BarrierInv (s : AsyncBuffers) : Prop where
  located : ∀ p < s.enqueued, s.Buffered p ∨ ∃ b ∈ s.batches, p ∈ b.payloads
  since_le : ∀ {i : Nat} {c : FlushCall} {since : Nat}, s.calls[i]? = some c →
      c.caller = .rawFlush since →
    since ≤ s.enqueued
  call_lt : ∀ b ∈ s.batches, b.call < s.calls.length
  /-- A drain returns behind the last of its batches. -/
  returned : ∀ {i : Nat} {c : FlushCall}, s.calls[i]? = some c → c.phase = .returned →
      ∀ b ∈ s.batches, b.call = i →
    b.phase.finished = true
  /-- Behind the moment `raw_flush` takes the buffers, what was enqueued before
  it is finished or in its own hands. -/
  taken : ∀ {i : Nat} {c : FlushCall} {since : Nat}, s.calls[i]? = some c →
      c.caller = .rawFlush since → c.phase ≠ .started →
    ∀ p < since, ¬ s.Buffered p ∧
      ∀ b ∈ s.batches, p ∈ b.payloads → b.phase.finished = true ∨ b.call = i

theorem BarrierInv.barrier (h : s.BarrierInv) : s.Barrier := by
  intro i since hc p hp
  obtain ⟨hbuffered, hbatches⟩ := h.taken hc rfl (by simp) p hp
  have hfinished : ∀ b ∈ s.batches, p ∈ b.payloads → b.phase.finished = true := by
    intro b hb hmem
    rcases hbatches b hb hmem with hfinished | hcall
    · exact hfinished
    · exact h.returned hc rfl b hb hcall
  refine ⟨hbuffered, hfinished, ?_⟩
  rcases h.located p (Nat.lt_of_lt_of_le hp (h.since_le hc rfl)) with hmem | ⟨b, hb, hmem⟩
  · exact absurd hmem hbuffered
  · exact ⟨b, hb, hmem, hfinished b hb hmem⟩

theorem BarrierInv.enqueue (h : s.BarrierInv) (target : Bytes) :
    BarrierInv { s with buffers := enqueueInto s.enqueued target s.buffers
                        enqueued := s.enqueued + 1 } where
  located := by
    intro p hp
    by_cases heq : p = s.enqueued
    · exact .inl (mem_enqueueInto.mpr (.inr heq))
    · have hlt : p < s.enqueued := by
        simp only at hp
        omega
      rcases h.located p hlt with hmem | hmem
      · exact .inl (mem_enqueueInto.mpr (.inl hmem))
      · exact .inr hmem
  since_le := fun hc hcaller => Nat.le_succ_of_le (h.since_le hc hcaller)
  call_lt := h.call_lt
  returned := h.returned
  taken := by
    intro i c since hc hcaller hphase p hp
    obtain ⟨hbuffered, hbatches⟩ := h.taken hc hcaller hphase p hp
    refine ⟨fun hmem => ?_, hbatches⟩
    rcases mem_enqueueInto.mp hmem with hmem | rfl
    · exact hbuffered hmem
    · have hle := h.since_le hc hcaller
      omega

/-- A call of `raw_flush` has seen nothing yet. -/
theorem BarrierInv.starts (h : s.BarrierInv) :
    (s.addCall (.rawFlush s.enqueued) .started).BarrierInv where
  located := h.located
  since_le := by
    intro i c since hc hcaller
    rcases getElem?_addCall hc with hc | ⟨-, rfl⟩
    · exact h.since_le hc hcaller
    · cases hcaller
      exact Nat.le_refl _
  call_lt := by
    intro b hb
    have hlt := h.call_lt b hb
    simp only [addCall, List.length_append, List.length_singleton]
    omega
  returned := by
    intro i c hc hphase
    rcases getElem?_addCall hc with hc | ⟨-, rfl⟩
    · exact h.returned hc hphase
    · exact nomatch hphase
  taken := by
    intro i c since hc hcaller hphase
    rcases getElem?_addCall hc with hc | ⟨-, rfl⟩
    · exact h.taken hc hcaller hphase
    · exact absurd rfl hphase

/-- `raw_flush` takes the buffers while every batch is finished. -/
theorem BarrierInv.takeAll (h : s.BarrierInv) {i : Nat} {caller : FlushCaller}
    (hcall : s.calls[i]? = some { caller, phase := .started })
    (hquiet : ∀ b ∈ s.batches, b.phase.finished = true) :
    ((s.take i fun _ => true).setCall i .taken).BarrierInv := by
  have hempty : ∀ p, ¬ (s.take i fun _ => true).Buffered p := by
    rintro p ⟨b, hb, -⟩
    simp [take] at hb
  have hlen : ((s.take i fun _ => true).setCall i .taken).calls.length = s.calls.length := by
    simp [setCall, take]
  refine ⟨fun p hp => located_take i _ (h.located p hp), ?_, ?_, ?_, ?_⟩
  · intro j c since hc hcaller
    obtain ⟨c₀, hc₀, hsame, -⟩ := getElem?_setCall hc
    exact h.since_le hc₀ (hsame ▸ hcaller)
  · intro b hb
    rw [hlen]
    rcases mem_take hb with hb | ⟨buffer, -, -, rfl⟩
    · exact h.call_lt b hb
    · exact (List.getElem?_eq_some_iff.mp hcall).1
  · intro j c hc hphase b hb hj
    obtain ⟨c₀, hc₀, -, ⟨hne, rfl⟩ | ⟨rfl, htaken⟩⟩ := getElem?_setCall hc
    · rcases mem_take hb with hb | ⟨buffer, -, -, rfl⟩
      · exact h.returned hc₀ hphase b hb hj
      · exact absurd hj hne
    · rw [htaken] at hphase
      exact nomatch hphase
  · intro j c since hc hcaller hphase p hp
    refine ⟨hempty p, fun b hb hmem => ?_⟩
    obtain ⟨c₀, hc₀, hsame, hcase⟩ := getElem?_setCall hc
    rcases mem_take hb with hb | ⟨buffer, hbuffer, -, rfl⟩
    · exact .inl (hquiet b hb)
    · rcases hcase with ⟨hne, rfl⟩ | ⟨rfl, -⟩
      · -- what an earlier call has seen is not in the map any more
        exact absurd ⟨buffer, hbuffer, hmem⟩ (h.taken hc₀ hcaller hphase p hp).1
      · exact .inr rfl

/-- The flusher takes buffers: they are behind every `raw_flush` that has taken
its own. -/
theorem BarrierInv.loopTakes (h : s.BarrierInv) (isTaken : AsyncBuffer → Bool)
    {caller : FlushCaller}
    (hcaller : ∀ since, caller ≠ .rawFlush since) :
    ((s.take s.calls.length isTaken).addCall caller .taken).BarrierInv := by
  refine ⟨fun p hp => located_take _ _ (h.located p hp), ?_, ?_, ?_, ?_⟩
  · intro i c since hc hraw
    rcases getElem?_addCall hc with hc | ⟨-, rfl⟩
    · exact h.since_le hc hraw
    · exact absurd hraw (hcaller since)
  · intro b hb
    simp only [addCall, take, List.length_append, List.length_singleton]
    rcases mem_take hb with hb | ⟨buffer, -, -, rfl⟩
    · have hlt := h.call_lt b hb
      omega
    · exact Nat.lt_succ_self _
  · intro i c hc hphase b hb hi
    rcases getElem?_addCall hc with hc | ⟨-, rfl⟩
    · rcases mem_take hb with hb | ⟨buffer, -, -, rfl⟩
      · exact h.returned hc hphase b hb hi
      · have hlt := (List.getElem?_eq_some_iff.mp hc).1
        simp only [take] at hlt hi
        omega
    · exact nomatch hphase
  · intro i c since hc hraw hphase p hp
    rcases getElem?_addCall hc with hc | ⟨-, rfl⟩
    · obtain ⟨hbuffered, hbatches⟩ := h.taken hc hraw hphase p hp
      refine ⟨fun hmem => hbuffered (.of_take s.calls.length hmem), fun b hb hmem => ?_⟩
      rcases mem_take hb with hb | ⟨buffer, hbuffer, -, rfl⟩
      · exact hbatches b hb hmem
      · exact absurd ⟨buffer, hbuffer, hmem⟩ hbuffered
    · exact absurd hraw (hcaller since)

/-- A flush that is not finished moves on. -/
theorem BarrierInv.setBatch (h : s.BarrierInv) {k : Nat} {b : TakenBatch} {phase : BatchPhase}
    (hb : s.batches[k]? = some b) (hphase : b.phase.finished = false) :
    (s.setBatch k phase).BarrierInv := by
  refine ⟨fun p hp => ?_, h.since_le, fun b' hb' => ?_, ?_, ?_⟩
  · rcases h.located p hp with hmem | ⟨b₀, hb₀, hmem⟩
    · exact .inl hmem
    · obtain ⟨b', hb', hsame⟩ := exists_mem_setBatch hb₀ k phase
      exact .inr ⟨b', hb', hsame ▸ hmem⟩
  · rcases mem_setBatch hb' with hb' | ⟨b₀, hb₀, rfl⟩
    · exact h.call_lt b' hb'
    · exact h.call_lt b₀ (List.mem_of_getElem? hb₀)
  · intro i c hc hreturned b' hb' hi
    rcases mem_setBatch hb' with hb' | ⟨b₀, hb₀, rfl⟩
    · exact h.returned hc hreturned b' hb' hi
    · obtain rfl := Option.some.inj (hb₀.symm.trans hb)
      have hfinished := h.returned hc hreturned b₀ (List.mem_of_getElem? hb) hi
      rw [hphase] at hfinished
      exact nomatch hfinished
  · intro i c since hc hcaller htaken p hp
    obtain ⟨hbuffered, hbatches⟩ := h.taken hc hcaller htaken p hp
    refine ⟨hbuffered, fun b' hb' hmem => ?_⟩
    rcases mem_setBatch hb' with hb' | ⟨b₀, hb₀, rfl⟩
    · exact hbatches b' hb' hmem
    · obtain rfl := Option.some.inj (hb₀.symm.trans hb)
      rcases hbatches b₀ (List.mem_of_getElem? hb) hmem with hfinished | hcall
      · rw [hphase] at hfinished
        exact nomatch hfinished
      · exact .inr hcall

theorem BarrierInv.returns (h : s.BarrierInv) {i : Nat} {caller : FlushCaller}
    (hcall : s.calls[i]? = some { caller, phase := .taken })
    (hall : ∀ b ∈ s.batches, b.call = i → b.phase.finished = true) :
    (s.setCall i .returned).BarrierInv := by
  refine ⟨h.located, fun hc hcaller => ?_, fun b hb => ?_, fun {j c} hc hphase b hb hj => ?_,
    fun {j c since} hc hcaller hphase => ?_⟩
  · obtain ⟨c₀, hc₀, hsame, -⟩ := getElem?_setCall hc
    exact h.since_le hc₀ (hsame ▸ hcaller)
  · simpa [setCall] using h.call_lt b hb
  · obtain ⟨c₀, hc₀, -, ⟨-, rfl⟩ | ⟨rfl, -⟩⟩ := getElem?_setCall hc
    · exact h.returned hc₀ hphase b hb hj
    · exact hall b hb hj
  · obtain ⟨c₀, hc₀, hsame, ⟨-, rfl⟩ | ⟨rfl, -⟩⟩ := getElem?_setCall hc
    · exact h.taken hc₀ hcaller hphase
    · obtain rfl := Option.some.inj (hc₀.symm.trans hcall)
      exact h.taken hc₀ (hsame ▸ hcaller) (by simp)

/-- **One event** keeps the barrier, if `raw_flush` takes the buffers while no
batch is unfinished. -/
theorem BarrierInv.step {a : AsyncEvent} (h : s.BarrierInv) (hquiet : s.QuietFlush a)
    (hstep : s.step configured a = some s') : s'.BarrierInv := by
  cases step_effect hstep with
  | enqueue target => exact h.enqueue target
  | starts => exact h.starts
  | takeAll hcall => exact h.takeAll hcall hquiet
  | idle => exact h
  | round isDue => exact h.loopTakes isDue (by simp)
  | lastRound => exact h.loopTakes _ (by simp)
  | begins hb hphase => exact h.setBatch hb (by rw [hphase]; rfl)
  | ends committed hb hphase => exact h.setBatch hb (by rw [hphase]; rfl)
  | returns hcall hall => exact h.returns hcall hall

end AsyncBuffers

/-- Before the first enqueue nothing is owed to anybody. -/
theorem AsyncBuffers.BarrierInv.init (configured : Nat) :
    AsyncBuffers.BarrierInv (asyncBuffers configured).init := by
  refine ⟨fun p hp => ?_, fun hc => ?_, fun b hb => ?_, fun hc => ?_, fun hc => ?_⟩
  · exact absurd hp (Nat.not_lt_zero p)
  · simp [asyncBuffers] at hc
  · exact nomatch hb
  · simp [asyncBuffers] at hc
  · simp [asyncBuffers] at hc

/-- **`raw_flush` is a barrier** in every run in which it takes the buffers only
while no drain holds an unfinished batch. -/
theorem rawFlush_barrier (configured : Nat) {s : AsyncBuffers}
    (h : Reachable (asyncBuffers configured) AsyncBuffers.QuietFlush s) : s.Barrier :=
  AsyncBuffers.BarrierInv.barrier (h.invariant AsyncBuffers.BarrierInv (.init configured)
    fun _ _ _ hinv hquiet hstep => hinv.step hquiet hstep)

/-- A round has flushed one payload when `raw_flush` takes the next one. -/
def afterRound : List AsyncEvent :=
  [.enqueue (bytes "t"), .round fun _ => true, .flushBegins 0, .flushEnds 0 true, .returns 0,
    .enqueue (bytes "t"), .flushStarts, .takeAll 1, .flushBegins 1, .flushEnds 1 true, .returns 1]

/-- Two payloads, the second flushed by `raw_flush` behind the round that flushed the first. -/
theorem rawFlush_barrier_afterRound :
    ∃ s, (asyncBuffers 1).run afterRound = some s ∧ s.Barrier := by
  refine ⟨_, rfl, rawFlush_barrier 1 ?_⟩
  exact @Reachable.of_guarded _ _ _ _ _ _ afterRound .init (by decide) rfl

/-- A round takes a payload and flushes it; `raw_flush` finds an empty map and
returns at once. -/
def overtaken : List AsyncEvent :=
  [.enqueue (bytes "t"), .round fun _ => true, .flushBegins 0, .flushStarts, .takeAll 1, .returns 1]

/-- `raw_flush` has returned and the payload enqueued before it is still being
flushed. -/
theorem rawFlush_overtaken :
    ∃ s, (asyncBuffers 1).run overtaken = some s ∧ ¬ s.Barrier := by
  refine ⟨_, rfl, fun hbarrier => ?_⟩
  obtain ⟨-, hfinished, -⟩ := hbarrier 1 1 rfl 0 Nat.zero_lt_one
  exact nomatch hfinished _ List.mem_cons_self (by decide)

/-! ## one flush a table -/

namespace AsyncBuffers

variable {τ : Type} {tableOf : Bytes → τ} {configured : Nat} {s s' : AsyncBuffers}

/-- Each table is in at most one unfinished batch. -/
def OneBatch (tableOf : Bytes → τ) (s : AsyncBuffers) : Prop :=
  ∀ (j k : Nat) (b c : TakenBatch), s.batches[j]? = some b → s.batches[k]? = some c →
    b.phase.finished = false → c.phase.finished = false → tableOf b.target = tableOf c.target →
      j = k

theorem OneBatch.single (h : s.OneBatch tableOf) : s.SingleFlush tableOf := by
  intro j k b c hb hc hbphase hcphase hsame
  exact h j k b c hb hc (by rw [hbphase]; rfl) (by rw [hcphase]; rfl) hsame

/-- A batch of the list behind a drain: an old one, or one of the buffers it
took. -/
theorem getElem?_take {call : Nat} {isTaken : AsyncBuffer → Bool} {j : Nat} {b : TakenBatch}
    (h : (s.take call isTaken).batches[j]? = some b) :
    s.batches[j]? = some b ∨ s.batches.length ≤ j ∧ ∃ buffer,
      (s.buffers.filter isTaken)[j - s.batches.length]? = some buffer ∧
        b.target = buffer.target := by
  simp only [take] at h
  by_cases hj : j < s.batches.length
  · exact .inl (by rwa [List.getElem?_append_left hj] at h)
  · rw [List.getElem?_append_right (Nat.le_of_not_lt hj)] at h
    simp only [takenBy, List.getElem?_map, Option.map_eq_some_iff] at h
    obtain ⟨buffer, hbuffer, rfl⟩ := h
    exact .inr ⟨Nat.le_of_not_lt hj, buffer, hbuffer, rfl⟩

theorem OneBatch.take (h : s.OneBatch tableOf) (call : Nat) {isTaken : AsyncBuffer → Bool}
    (hfree : s.FreeTables tableOf isTaken) : (s.take call isTaken).OneBatch tableOf := by
  obtain ⟨hdistinct, hold⟩ := hfree
  intro j k b c hb hc hbphase hcphase hsame
  rcases getElem?_take hb with hb | ⟨hj, x, hx, hbx⟩ <;>
    rcases getElem?_take hc with hc | ⟨hk, y, hy, hcy⟩
  · exact h j k b c hb hc hbphase hcphase hsame
  · rw [hcy] at hsame
    exact absurd hsame.symm
      (hold y (List.mem_of_getElem? hy) b (List.mem_of_getElem? hb) hbphase)
  · rw [hbx] at hsame
    exact absurd hsame (hold x (List.mem_of_getElem? hx) c (List.mem_of_getElem? hc) hcphase)
  · -- two buffers of the map are of different tables
    rw [hbx, hcy] at hsame
    have hne : ∀ (m n : Nat) (x y : AsyncBuffer), m < n →
        (s.buffers.filter isTaken)[m]? = some x → (s.buffers.filter isTaken)[n]? = some y →
        tableOf x.target ≠ tableOf y.target := by
      intro m n x y hmn hm hn
      obtain ⟨hmlt, rfl⟩ := List.getElem?_eq_some_iff.mp hm
      obtain ⟨hnlt, rfl⟩ := List.getElem?_eq_some_iff.mp hn
      exact List.pairwise_iff_getElem.mp hdistinct m n hmlt hnlt hmn
    rcases Nat.lt_trichotomy (j - s.batches.length) (k - s.batches.length) with hlt | heq | hgt
    · exact absurd hsame (hne _ _ _ _ hlt hx hy)
    · omega
    · exact absurd hsame.symm (hne _ _ _ _ hgt hy hx)

/-- A batch that moves on was unfinished before. -/
theorem OneBatch.setBatch (h : s.OneBatch tableOf) {k : Nat} {b : TakenBatch} {phase : BatchPhase}
    (hb : s.batches[k]? = some b) (hphase : b.phase.finished = false) :
    (s.setBatch k phase).OneBatch tableOf := by
  have hback : ∀ (j : Nat) (c : TakenBatch), (s.setBatch k phase).batches[j]? = some c →
      c.phase.finished = false →
      ∃ c₀, s.batches[j]? = some c₀ ∧ c₀.target = c.target ∧ c₀.phase.finished = false := by
    intro j c hc hcphase
    simp only [AsyncBuffers.setBatch, List.getElem?_modify, Option.map_eq_map,
      Option.map_eq_some_iff] at hc
    obtain ⟨c₀, hc₀, rfl⟩ := hc
    by_cases hkj : k = j
    · subst hkj
      obtain rfl := Option.some.inj (hc₀.symm.trans hb)
      exact ⟨c₀, hc₀, by simp, hphase⟩
    · simp only [hkj, if_false] at hcphase
      exact ⟨c₀, hc₀, by simp [hkj], hcphase⟩
  intro i j c d hc hd hcphase hdphase hsame
  obtain ⟨c₀, hc₀, hct, hcu⟩ := hback i c hc hcphase
  obtain ⟨d₀, hd₀, hdt, hdu⟩ := hback j d hd hdphase
  exact h i j c₀ d₀ hc₀ hd₀ hcu hdu (by rw [hct, hdt, hsame])

/-- **One event** keeps every table in one unfinished batch, if the drains take
free tables. -/
theorem OneBatch.step {a : AsyncEvent} (h : s.OneBatch tableOf) (hfree : s.TablesFree tableOf a)
    (hstep : s.step configured a = some s') : s'.OneBatch tableOf := by
  cases step_effect hstep with
  | enqueue target => exact h
  | starts => exact h
  | takeAll hcall => exact h.take _ hfree
  | idle => exact h
  | round isDue => exact h.take _ hfree
  | lastRound => exact h.take _ hfree
  | begins hb hphase => exact h.setBatch hb (by rw [hphase]; rfl)
  | ends committed hb hphase => exact h.setBatch hb (by rw [hphase]; rfl)
  | returns hcall hall => exact h

end AsyncBuffers

/-- **Flushes of one table exclude each other** in every run in which a drain
takes a buffer only while no other unfinished batch is of its table. -/
theorem asyncFlush_single {τ : Type} (tableOf : Bytes → τ) (configured : Nat) {s : AsyncBuffers}
    (h : Reachable (asyncBuffers configured) (AsyncBuffers.TablesFree tableOf) s) :
    s.SingleFlush tableOf := by
  refine AsyncBuffers.OneBatch.single (h.invariant (AsyncBuffers.OneBatch tableOf) ?_ ?_)
  · intro j k b c hb
    simp [asyncBuffers] at hb
  · intro s a s' hinv hfree hstep
    exact hinv.step hfree hstep

/-- `raw_flush` takes `u` while a round is flushing `t`; the next round takes the refilled buffer
of `t` when its predecessor is finished and `u` is still being flushed. -/
def apart : List AsyncEvent :=
  [.enqueue (bytes "t"), .round fun _ => true, .flushBegins 0, .enqueue (bytes "u"), .flushStarts,
    .takeAll 1, .flushBegins 1, .flushEnds 0 true, .returns 0, .enqueue (bytes "t"),
    .round fun _ => true, .flushBegins 2]

/-- Two drains flush at once, each a table of its own. -/
theorem asyncFlush_single_apart : ∃ s, (asyncBuffers 2).run apart = some s ∧
    s.batches.countP (fun b => b.phase == .flushing) = 2 ∧ s.SingleFlush id := by
  refine ⟨_, rfl, by decide, asyncFlush_single id 2 ?_⟩
  exact @Reachable.of_guarded _ _ _ _ _ _ apart .init (by decide) rfl

/-- The buffer of a target is refilled while its predecessor is flushed, and
`raw_flush` takes it. -/
def refilled : List AsyncEvent :=
  [.enqueue (bytes "t"), .round fun _ => true, .flushBegins 0, .enqueue (bytes "t"), .flushStarts,
    .takeAll 1, .flushBegins 1]

/-- Two flush transactions of one target are in progress. -/
theorem asyncFlush_refilled :
    ∃ s, (asyncBuffers 1).run refilled = some s ∧ ¬ s.SingleFlush id := by
  refine ⟨_, rfl, fun hsingle => ?_⟩
  exact nomatch hsingle 0 1 _ _ rfl rfl rfl rfl rfl

end RawDuck
