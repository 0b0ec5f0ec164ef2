import Mathlib.Data.UInt
import RawDuck.AsyncBuffers
import RawDuck.TaskCounter

/-!
# RawDuck.AsyncPlaces

Where an enqueued payload is, over every interleaving of enqueues, rounds of the
background flusher, calls of `raw_flush`, and stops and restarts of the flusher.

A drain moves buffers out of the map and hands each to `FlushBuffer`: alone on its
own thread, several through workers that share a counter (`FlushDue`).  A payload
goes by its number, in order of the enqueues.

* `FlushDue.step_entries` — a drain keeps its buffers, handed over or waiting;
* `asyncService_places` — each payload is in exactly one place, with its own
  target and in enqueue order, and a drain returns the rows of all its flushes.
-/

namespace RawDuck

open Transition Transition.System AsyncBuffers

/-! ## one drain -/

/-- A single buffer, before `FlushBuffer`, in it, and after it. -/
inductive InlineCall where
  | waiting
  | flushing
  | returned (rows : UInt64)
  | raised
  deriving DecidableEq, Repr

/-- `FlushDueParallel`: of no buffer, of one, or of several. -/
inductive FlushDue where
  | nothing
  | inline (entry : AsyncBuffer) (call : InlineCall)
  | parallel (run : TaskCounter.Run AsyncBuffer UInt64)

/-- What happens in `FlushDueParallel`. -/
inductive FlushDueEvent where
  /-- `FlushBuffer` of the single buffer. -/
  | begins
  | ends (rows : UInt64)
  | worker (event : TaskCounter.Event UInt64)

/-- `configured`, from the setting and the number of hardware threads. -/
def configuredThreads (hardwareConcurrency flushThreads : Nat) : Nat :=
  if flushThreads > 0 then flushThreads else max 1 (hardwareConcurrency / 2)

/-- The start of `FlushDueParallel`. -/
def flushDueParallel (configured : Nat) (due : List AsyncBuffer) : FlushDue :=
  match due with
  | [] => .nothing
  | [entry] => .inline entry .waiting
  | due => .parallel (.start due (min due.length (min configured maxAsyncFlushThreads)))

namespace FlushDue

/-- One step of `FlushDueParallel`. -/
def step : FlushDue → FlushDueEvent → Option FlushDue
  | .inline entry .waiting, .begins => some (.inline entry .flushing)
  | .inline entry .flushing, .ends rows => some (.inline entry (.returned rows))
  | .parallel run, .worker event => (run.step event).map .parallel
  | _, _ => none

/-- The buffers moved out of the map. -/
def entries : FlushDue → List AsyncBuffer
  | .nothing => []
  | .inline entry _ => [entry]
  | .parallel run => run.tasks

/-- Those of them that no call of `FlushBuffer` has got. -/
def waiting : FlushDue → List AsyncBuffer
  | .nothing => []
  | .inline entry .waiting => [entry]
  | .inline _ _ => []
  | .parallel run => run.waiting

/-- The calls of `FlushBuffer`, each with its buffer and its result. -/
def handed : FlushDue → List (AsyncBuffer × Option UInt64)
  | .nothing => []
  | .inline _ .waiting => []
  | .inline entry (.returned rows) => [(entry, some rows)]
  | .inline entry _ => [(entry, none)]
  | .parallel run => run.calls

/-- What `FlushDueParallel` returns, when it can. -/
def result? : FlushDue → Option UInt64
  | .nothing => some 0
  | .inline _ (.returned rows) => some rows
  | .inline _ _ => none
  | .parallel run => if run.finished then some run.total else none

/-- `FlushBuffer` raises on the thread of the drain. -/
def raise : FlushDue → FlushDue
  | .inline entry .flushing => .inline entry .raised
  | due => due

/-- The call of `FlushBuffer` is on the thread of the drain. -/
def inlineFlushing : FlushDue → Bool
  | .inline _ .flushing => true
  | _ => false

/-- Some call of `FlushBuffer` is on a thread of its own. -/
def workerFlushing : FlushDue → Bool
  | .parallel run => run.workers.any fun worker => match worker with
      | .running _ => true
      | _ => false
  | _ => false

end FlushDue

/-! ## the service -/

/-- The thread of `FlushLoop`: there is none to join, between two rounds, in a
round, in the last drain, or at its end. -/
inductive Flusher where
  | absent
  | waiting
  | draining (drain : Nat)
  | lastDrain (drain : Nat)
  | finished
  deriving DecidableEq, Repr

/-- A call of `FlushDueParallel`, with what it has returned. -/
structure AsyncDrain where
  run : FlushDue
  returned : Option UInt64

/-- `RawAsyncBuffers` with its flusher, the drains so far and the targets of the
payloads enqueued so far; `aborted` when the process was terminated. -/
structure AsyncService where
  buffers : List AsyncBuffer
  running : Bool
  flusher : Flusher
  drains : List AsyncDrain
  enqueued : List Bytes
  aborted : Bool

/-- A critical section, a step of a drain, or its return. -/
inductive AsyncServiceEvent where
  | start
  /-- `Shutdown`, up to the join. -/
  | shutdown
  /-- The join of `Shutdown`. -/
  | join
  | enqueue (target : Bytes)
  | flushAll (flushThreads : Nat)
  /-- `FlushLoop` wakes up. -/
  | loopWakes (isDue : AsyncBuffer → Bool) (flushThreads : Nat)
  | drainSteps (drain : Nat) (event : FlushDueEvent)
  /-- A `FlushBuffer` of the drain raises. -/
  | drainRaises (drain : Nat)
  | drainReturns (drain : Nat)

namespace AsyncService

/-- The drain belongs to the flusher. -/
def isFlushers (s : AsyncService) (drain : Nat) : Bool :=
  s.flusher == .draining drain || s.flusher == .lastDrain drain

/-- The flusher behind the return of a drain. -/
def flusherAfter (s : AsyncService) (drain : Nat) : Flusher :=
  if s.flusher = .draining drain then .waiting
  else if s.flusher = .lastDrain drain then .finished
  else s.flusher

/-- Buffers are moved out of the map into a new drain. -/
def drain (s : AsyncService) (configured : Nat) (isTaken : AsyncBuffer → Bool) : AsyncService :=
  { s with
    buffers := s.buffers.filter fun b => !isTaken b
    drains := s.drains ++
      [{ run := flushDueParallel configured (s.buffers.filter isTaken), returned := none }] }

/-- A drain moves on. -/
def setDrain (s : AsyncService) (i : Nat) (d : AsyncDrain) : AsyncService :=
  { s with drains := s.drains.set i d }

/-- One event; `none` where it is not enabled. -/
def step (hardwareConcurrency : Nat) (s : AsyncService) (event : AsyncServiceEvent) :
    Option AsyncService :=
  if s.aborted then none
  else match event with
  | .start =>
      if s.running then some s
      else match s.flusher with
      | .absent => some { s with running := true, flusher := .waiting }
      -- a thread is assigned to one that was not joined
      | _ => some { s with aborted := true }
  | .shutdown => some { s with running := false }
  | .join =>
      if !s.running && s.flusher == .finished then some { s with flusher := .absent } else none
  | .enqueue target =>
      some { s with
        buffers := enqueueInto s.enqueued.length target s.buffers
        enqueued := s.enqueued ++ [target] }
  | .flushAll flushThreads =>
      some (s.drain (configuredThreads hardwareConcurrency flushThreads) fun _ => true)
  | .loopWakes isDue flushThreads =>
      match s.flusher with
      | .waiting =>
          if s.running then
            if s.buffers.any isDue then
              some { s.drain (configuredThreads hardwareConcurrency flushThreads) isDue with
                flusher := .draining s.drains.length }
            else some s
          else
            some { s.drain (configuredThreads hardwareConcurrency flushThreads) fun _ => true with
              flusher := .lastDrain s.drains.length }
      | _ => none
  | .drainSteps i event =>
      match s.drains[i]? with
      | none => none
      | some d => (d.run.step event).map fun run => s.setDrain i { d with run }
  | .drainRaises i =>
      match s.drains[i]? with
      | none => none
      | some d =>
          -- on a worker and on the flusher nobody catches it
          if d.run.workerFlushing || d.run.inlineFlushing && s.isFlushers i then
            some { s with aborted := true }
          else if d.run.inlineFlushing then some (s.setDrain i { d with run := d.run.raise })
          else none
  | .drainReturns i =>
      match s.drains[i]? with
      | some { run, returned := none } =>
          match run.result? with
          | none => none
          | some rows =>
              some { s.setDrain i { run, returned := some rows } with flusher := s.flusherAfter i }
      | _ => none

/-- The buffers that drains hold back. -/
def waiting (s : AsyncService) : List AsyncBuffer := s.drains.flatMap fun d => d.run.waiting

/-- The calls of `FlushBuffer` so far. -/
def handed (s : AsyncService) : List (AsyncBuffer × Option UInt64) :=
  s.drains.flatMap fun d => d.run.handed

end AsyncService

/-- Nothing is enqueued and there is no flusher. -/
def asyncService (hardwareConcurrency : Nat) : System AsyncService AsyncServiceEvent where
  init :=
    { buffers := [], running := false, flusher := .absent, drains := [], enqueued := []
      aborted := false }
  step := AsyncService.step hardwareConcurrency

namespace FlushDue

/-! ## what a drain keeps -/

/-- The workers of the drain are in order, and there is one at least. -/
def Good : FlushDue → Prop
  | .parallel run => run.Inv ∧ run.workers ≠ []
  | _ => True

theorem good_flushDueParallel {configured : Nat} (hconf : 0 < configured) (due : List AsyncBuffer) :
    (flushDueParallel configured due).Good := by
  match due with
  | [] => trivial
  | [entry] => trivial
  | first :: second :: rest =>
      refine ⟨TaskCounter.Run.inv_start _ _, ?_⟩
      show List.replicate _ _ ≠ []
      rw [ne_eq, List.replicate_eq_nil_iff]
      simp only [List.length_cons, maxAsyncFlushThreads]
      omega

theorem entries_flushDueParallel (configured : Nat) (due : List AsyncBuffer) :
    (flushDueParallel configured due).entries = due := by
  match due with
  | [] => rfl
  | [entry] => rfl
  | first :: second :: rest => rfl

/-- What a step does: it moves a single call on, or a worker. -/
theorem step_cases {d d' : FlushDue} {event : FlushDueEvent} (h : d.step event = some d') :
    (∃ entry call call', d = .inline entry call ∧ d' = .inline entry call') ∨
      ∃ run run' event, d = .parallel run ∧ d' = .parallel run' ∧ run.step event = some run' := by
  cases d with
  | nothing => cases event <;> exact nomatch h
  | inline entry call =>
      cases call with
      | waiting =>
          cases event with
          | begins => exact .inl ⟨entry, _, _, rfl, (Option.some.inj h).symm⟩
          | _ => exact nomatch h
      | flushing =>
          cases event with
          | ends rows => exact .inl ⟨entry, _, _, rfl, (Option.some.inj h).symm⟩
          | _ => exact nomatch h
      | _ => cases event <;> exact nomatch h
  | parallel run =>
      cases event with
      | worker event =>
          obtain ⟨run', hrun, rfl⟩ := Option.map_eq_some_iff.mp h
          exact .inr ⟨run, run', event, rfl, rfl, hrun⟩
      | _ => exact nomatch h

/-- **A drain keeps its buffers** in every step. -/
theorem step_entries {d d' : FlushDue} {event : FlushDueEvent} (h : d.step event = some d') :
    d'.entries = d.entries := by
  obtain ⟨entry, call, call', rfl, rfl⟩ | ⟨run, run', event, rfl, rfl, hrun⟩ := step_cases h
  · rfl
  · exact (TaskCounter.Run.tasks_step hrun).1

theorem raise_entries (d : FlushDue) : d.raise.entries = d.entries := by
  cases d with
  | inline entry call => cases call <;> rfl
  | _ => rfl

/-- A step of a drain keeps its workers in order. -/
theorem Good.step {d d' : FlushDue} {event : FlushDueEvent} (h : d.Good)
    (hstep : d.step event = some d') : d'.Good := by
  obtain ⟨entry, call, call', rfl, rfl⟩ | ⟨run, run', event, rfl, rfl, hrun⟩ := step_cases hstep
  · trivial
  · have hlength := (TaskCounter.Run.tasks_step hrun).2
    refine ⟨h.1.step hrun, fun hnil => ?_⟩
    rw [hnil] at hlength
    exact h.2 (List.eq_nil_of_length_eq_zero hlength.symm)

theorem Good.raise {d : FlushDue} (h : d.Good) : d.raise.Good := by
  cases d with
  | inline entry call => cases call <;> trivial
  | _ => exact h

/-- What a drain has handed over comes before what it holds back. -/
theorem Good.handed_waiting {d : FlushDue} (h : d.Good) :
    d.handed.map Prod.fst ++ d.waiting = d.entries := by
  cases d with
  | nothing => rfl
  | inline entry call => cases call <;> rfl
  | parallel run =>
      show run.calls.map Prod.fst ++ run.tasks.drop run.next = run.tasks
      rw [h.1.calls_eq, List.take_append_drop]

/-- What `FlushDueParallel` returns: the rows of all its calls, one for each buffer. -/
theorem Good.result {d : FlushDue} (h : d.Good) {rows : UInt64} (hrows : d.result? = some rows) :
    d.handed.map Prod.fst = d.entries ∧
      ∃ results : List UInt64, d.handed.map Prod.snd = results.map some ∧ rows = results.sum := by
  cases d with
  | nothing =>
      cases hrows
      exact ⟨rfl, [], rfl, rfl⟩
  | inline entry call =>
      cases call with
      | returned r =>
          cases hrows
          exact ⟨rfl, [rows], rfl, (UInt64.add_zero rows).symm⟩
      | _ => exact nomatch hrows
  | parallel run =>
      simp only [result?] at hrows
      split at hrows
      · next hall =>
        obtain ⟨htasks, results, hresults, htotal⟩ := h.1.finished h.2 hall
        exact ⟨htasks, results, hresults, (Option.some.inj hrows).symm.trans htotal⟩
      · contradiction

/-- A drain that can return makes no more steps. -/
theorem step_of_result {d : FlushDue} {rows : UInt64} (h : d.result? = some rows)
    (event : FlushDueEvent) : d.step event = none := by
  cases d with
  | nothing => cases event <;> rfl
  | inline entry call =>
      cases call with
      | returned r => cases event <;> rfl
      | _ => exact nomatch h
  | parallel run =>
      cases event with
      | worker event =>
          simp only [result?] at h
          split at h
          · next hall =>
            show (run.step event).map _ = none
            rw [TaskCounter.Run.step_of_finished hall]
            rfl
          · contradiction
      | _ => rfl

/-- A single call that has not returned has no result. -/
theorem result_of_inlineFlushing {d : FlushDue} (h : d.inlineFlushing = true) :
    d.result? = none := by
  cases d with
  | inline entry call => cases call <;> first | rfl | contradiction
  | _ => contradiction

end FlushDue

/-- The drain is in order, and what it has returned it could return. -/
structure AsyncDrain.Good (d : AsyncDrain) : Prop where
  run : d.run.Good
  returned : ∀ rows, d.returned = some rows → d.run.result? = some rows

namespace AsyncService

variable {hardwareConcurrency : Nat} {s s' : AsyncService}

/-! ## one event -/

/-- What an event does to the payloads: it enqueues one, drains buffers, changes a
drain without its buffers, or leaves buffers and drains alone. -/
inductive Effect (s s' : AsyncService) : Prop where
  | kept (buffers : s'.buffers = s.buffers) (drains : s'.drains = s.drains)
      (enqueued : s'.enqueued = s.enqueued)
  | enqueue (target : Bytes)
      (buffers : s'.buffers = enqueueInto s.enqueued.length target s.buffers)
      (drains : s'.drains = s.drains) (enqueued : s'.enqueued = s.enqueued ++ [target])
  | drains {configured : Nat} (isTaken : AsyncBuffer → Bool) (configured_pos : 0 < configured)
      (buffers : s'.buffers = (s.drain configured isTaken).buffers)
      (drains : s'.drains = (s.drain configured isTaken).drains)
      (enqueued : s'.enqueued = s.enqueued)
  | moves {i : Nat} {d d' : AsyncDrain} (found : s.drains[i]? = some d)
      (good : d.Good → d'.Good) (entries : d'.run.entries = d.run.entries)
      (buffers : s'.buffers = s.buffers) (drains : s'.drains = s.drains.set i d')
      (enqueued : s'.enqueued = s.enqueued)

theorem configuredThreads_pos (hardwareConcurrency flushThreads : Nat) :
    0 < configuredThreads hardwareConcurrency flushThreads := by
  unfold configuredThreads
  split <;> omega

theorem step_effect {event : AsyncServiceEvent} (h : s.step hardwareConcurrency event = some s') :
    s.Effect s' := by
  unfold AsyncService.step at h
  split at h
  · contradiction
  cases event with
  | start =>
      dsimp only at h
      split at h
      · cases h
        exact .kept rfl rfl rfl
      · split at h <;>
        · cases h
          exact .kept rfl rfl rfl
  | shutdown =>
      cases h
      exact .kept rfl rfl rfl
  | join =>
      dsimp only at h
      split at h
      · cases h
        exact .kept rfl rfl rfl
      · contradiction
  | enqueue target =>
      cases h
      exact .enqueue target rfl rfl rfl
  | flushAll flushThreads =>
      cases h
      exact .drains _ (configuredThreads_pos _ _) rfl rfl rfl
  | loopWakes isDue flushThreads =>
      dsimp only at h
      split at h
      · split at h
        · split at h
          · cases h
            exact .drains isDue (configuredThreads_pos _ _) rfl rfl rfl
          · cases h
            exact .kept rfl rfl rfl
        · cases h
          exact .drains _ (configuredThreads_pos _ _) rfl rfl rfl
      · contradiction
  | drainSteps i event =>
      dsimp only at h
      split at h
      · contradiction
      · next d hd =>
        obtain ⟨run, hrun, rfl⟩ := Option.map_eq_some_iff.mp h
        refine @Effect.moves s _ i d { d with run } hd (fun hgood => ⟨hgood.run.step hrun, ?_⟩)
          (FlushDue.step_entries hrun) rfl rfl rfl
        intro rows hrows
        rw [FlushDue.step_of_result (hgood.returned rows hrows)] at hrun
        contradiction
  | drainRaises i =>
      dsimp only at h
      split at h
      · contradiction
      · next d hd =>
        split at h
        · cases h
          exact .kept rfl rfl rfl
        · split at h
          · next hinline =>
            cases h
            refine @Effect.moves s _ i d { d with run := d.run.raise } hd
              (fun hgood => ⟨hgood.run.raise, ?_⟩) d.run.raise_entries rfl rfl rfl
            intro rows hrows
            have hnone := hgood.returned rows hrows
            rw [FlushDue.result_of_inlineFlushing hinline] at hnone
            contradiction
          · contradiction
  | drainReturns i =>
      dsimp only at h
      split at h
      · next run hd =>
        split at h
        · contradiction
        · next rows hrows =>
          cases h
          refine @Effect.moves s _ i _ { run, returned := some rows } hd
            (fun hgood => ⟨hgood.run, ?_⟩) rfl rfl rfl rfl
          intro rows' hrows'
          obtain rfl := Option.some.inj hrows'
          exact hrows
      · contradiction

/-! ## places -/

/-- A buffer has payloads of its own target, in the order of their enqueues. -/
def Owned (enqueued : List Bytes) (b : AsyncBuffer) : Prop :=
  b.payloads.Pairwise (· < ·) ∧ ∀ p ∈ b.payloads, enqueued[p]? = some b.target

/-- The buffers in the map and those that drains have moved out of it. -/
def allBuffers (s : AsyncService) : List AsyncBuffer :=
  s.buffers ++ s.drains.flatMap fun d => d.run.entries

/-- Each payload is in one buffer. -/
structure Placed (s : AsyncService) : Prop where
  once : (s.allBuffers.flatMap AsyncBuffer.payloads).Perm (List.range s.enqueued.length)
  owned : ∀ b ∈ s.allBuffers, Owned s.enqueued b
  drains : ∀ d ∈ s.drains, d.Good

theorem Owned.snoc {enqueued : List Bytes} {b : AsyncBuffer} (h : Owned enqueued b)
    (target : Bytes) :
    Owned (enqueued ++ [target]) b := by
  refine ⟨h.1, fun p hp => ?_⟩
  have htarget := h.2 p hp
  obtain ⟨hlt, -⟩ := List.getElem?_eq_some_iff.mp htarget
  exact (List.getElem?_append_left hlt).trans htarget

theorem perm_enqueueInto (payload : Nat) (target : Bytes) (buffers : List AsyncBuffer) :
    ((enqueueInto payload target buffers).flatMap AsyncBuffer.payloads).Perm
      (payload :: buffers.flatMap AsyncBuffer.payloads) := by
  induction buffers with
  | nil => exact .refl _
  | cons buffer rest ih =>
      rw [enqueueInto]
      split
      · rw [List.flatMap_cons, List.flatMap_cons, List.append_assoc]
        exact List.perm_middle
      · rw [List.flatMap_cons, List.flatMap_cons]
        exact (ih.append_left _).trans List.perm_middle

/-- A new payload goes behind those of its target. -/
theorem owned_enqueueInto {enqueued : List Bytes} {target : Bytes} {buffers : List AsyncBuffer}
    (h : ∀ b ∈ buffers, Owned enqueued b) :
    ∀ b ∈ enqueueInto enqueued.length target buffers, Owned (enqueued ++ [target]) b := by
  have hnew : (enqueued ++ [target])[enqueued.length]? = some target := List.getElem?_concat_length
  induction buffers with
  | nil =>
      intro b hb
      obtain rfl := List.mem_singleton.mp hb
      refine ⟨List.pairwise_singleton _ _, fun p hp => ?_⟩
      obtain rfl := List.mem_singleton.mp hp
      exact hnew
  | cons buffer rest ih =>
      obtain ⟨hbuffer, hrest⟩ := List.forall_mem_cons.mp h
      rw [enqueueInto]
      split
      · next htarget =>
        rw [List.forall_mem_cons]
        refine ⟨⟨?_, fun p hp => ?_⟩, fun b hb => (hrest b hb).snoc target⟩
        · show (buffer.payloads ++ [enqueued.length]).Pairwise (· < ·)
          rw [List.pairwise_append]
          refine ⟨hbuffer.1, List.pairwise_singleton _ _, fun p hp q hq => ?_⟩
          obtain rfl := List.mem_singleton.mp hq
          exact (List.getElem?_eq_some_iff.mp (hbuffer.2 p hp)).1
        · cases List.mem_append.mp hp with
          | inl hp => exact (hbuffer.snoc target).2 p hp
          | inr hp =>
              obtain rfl := List.mem_singleton.mp hp
              rw [hnew, htarget]
      · rw [List.forall_mem_cons]
        exact ⟨hbuffer.snoc target, ih hrest⟩

/-- A drain only moves buffers. -/
theorem perm_drain (configured : Nat) (isTaken : AsyncBuffer → Bool) :
    ((s.drain configured isTaken).allBuffers).Perm s.allBuffers := by
  have hnew : (s.drain configured isTaken).allBuffers =
      (s.buffers.filter fun b => !isTaken b) ++
        ((s.drains.flatMap fun d => d.run.entries) ++ s.buffers.filter isTaken) := by
    simp only [allBuffers, drain, List.flatMap_append, List.flatMap_singleton,
      FlushDue.entries_flushDueParallel]
  have hsplit : (s.buffers.filter isTaken ++ s.buffers.filter fun b => !isTaken b).Perm s.buffers :=
    List.filter_append_perm isTaken s.buffers
  rw [hnew, ← List.append_assoc]
  refine List.perm_append_comm.trans ?_
  rw [← List.append_assoc]
  exact hsplit.append_right _

theorem entries_set {drains : List AsyncDrain} {i : Nat} {d d' : AsyncDrain}
    (hd : drains[i]? = some d) (h : d'.run.entries = d.run.entries) :
    (drains.set i d').flatMap (fun d => d.run.entries) = drains.flatMap fun d => d.run.entries := by
  induction drains generalizing i with
  | nil => rfl
  | cons first rest ih =>
      cases i with
      | zero =>
          obtain rfl := Option.some.inj hd
          rw [List.set_cons_zero, List.flatMap_cons, List.flatMap_cons, h]
      | succ i => rw [List.set_cons_succ, List.flatMap_cons, List.flatMap_cons, ih hd]

/-- Buffers moved about are placed as before. -/
theorem Placed.of_perm (h : s.Placed) (hperm : s'.allBuffers.Perm s.allBuffers)
    (henqueued : s'.enqueued = s.enqueued) (hdrains : ∀ d ∈ s'.drains, d.Good) : s'.Placed where
  once := by
    rw [henqueued]
    exact (hperm.flatMap_right _).trans h.once
  owned b hb := by
    rw [henqueued]
    exact h.owned b (hperm.subset hb)
  drains := hdrains

/-- **One event** keeps every payload in one buffer. -/
theorem Placed.step {event : AsyncServiceEvent} (h : s.Placed)
    (hstep : s.step hardwareConcurrency event = some s') : s'.Placed := by
  cases step_effect hstep with
  | kept hbuffers hdrains henqueued =>
      refine h.of_perm ?_ henqueued (hdrains ▸ h.drains)
      rw [allBuffers, hbuffers, hdrains]
      exact .refl _
  | enqueue target hbuffers hdrains henqueued =>
      have howned := List.forall_mem_append.mp h.owned
      constructor
      case once =>
        rw [allBuffers, hbuffers, hdrains, henqueued, List.flatMap_append, List.length_append,
          List.length_singleton, List.range_succ]
        have hold := h.once
        rw [allBuffers, List.flatMap_append] at hold
        refine ((perm_enqueueInto _ target s.buffers).append_right _).trans ?_
        rw [List.cons_append]
        exact (hold.cons _).trans (List.perm_append_singleton _ _).symm
      case owned =>
        rw [allBuffers, hbuffers, hdrains, henqueued]
        intro b hb
        cases List.mem_append.mp hb with
        | inl hb => exact owned_enqueueInto howned.1 b hb
        | inr hb => exact (howned.2 b hb).snoc target
      case drains => exact hdrains ▸ h.drains
  | @drains configured isTaken hconfigured hbuffers hdrains henqueued =>
      refine h.of_perm ?_ henqueued fun d hd => ?_
      · rw [allBuffers, hbuffers, hdrains]
        exact perm_drain configured isTaken
      · rw [hdrains] at hd
        cases List.mem_append.mp hd with
        | inl hd => exact h.drains d hd
        | inr hd =>
            obtain rfl := List.mem_singleton.mp hd
            exact ⟨FlushDue.good_flushDueParallel hconfigured _, nofun⟩
  | @moves i d d' hd hgood hentries hbuffers hdrains henqueued =>
      refine h.of_perm ?_ henqueued fun c hc => ?_
      · rw [allBuffers, hbuffers, hdrains, entries_set hd hentries]
        exact .refl _
      · rw [hdrains] at hc
        cases List.mem_or_eq_of_mem_set hc with
        | inl hc => exact h.drains c hc
        | inr hc => exact hc ▸ hgood (h.drains d (List.mem_of_getElem? hd))

/-- What a drain has moved out of the map is with it or handed over. -/
theorem Placed.perm_places (h : s.Placed) :
    (s.buffers ++ s.waiting ++ s.handed.map Prod.fst).Perm s.allBuffers := by
  have hdrains : ∀ drains : List AsyncDrain, (∀ d ∈ drains, d.Good) →
      ((drains.flatMap fun d => d.run.waiting) ++
        (drains.flatMap fun d => d.run.handed).map Prod.fst).Perm
        (drains.flatMap fun d => d.run.entries) := by
    intro drains
    induction drains with
    | nil => exact fun _ => .refl _
    | cons d rest ih =>
        intro hgood
        obtain ⟨hd, hrest⟩ := List.forall_mem_cons.mp hgood
        rw [List.flatMap_cons, List.flatMap_cons, List.flatMap_cons, List.map_append,
          ← hd.run.handed_waiting]
        refine .trans ?_ ((ih hrest).append_left _)
        rw [List.append_assoc, List.append_assoc]
        refine .trans ((List.perm_append_comm_assoc _ _ _).append_left _) ?_
        exact List.perm_append_comm_assoc _ _ _
  rw [List.append_assoc]
  exact (hdrains s.drains h.drains).append_left _

end AsyncService

/-- Each enqueued payload is in exactly one place: in the map, in a buffer that a
drain holds back, or in one call of `FlushBuffer`.  Wherever it is, it is with
payloads of its target only, in the order of their enqueues.  A drain that returns
has made one call for each of its buffers, and returns the rows of all of them. -/
structure AsyncService.Conserves (s : AsyncService) : Prop where
  once : ((s.buffers ++ s.waiting ++ s.handed.map Prod.fst).flatMap AsyncBuffer.payloads).Perm
    (List.range s.enqueued.length)
  owned : ∀ b ∈ s.buffers ++ s.waiting ++ s.handed.map Prod.fst,
    b.payloads.Pairwise (· < ·) ∧ ∀ p ∈ b.payloads, s.enqueued[p]? = some b.target
  returned : ∀ d ∈ s.drains, ∀ rows, d.returned = some rows →
    d.run.handed.map Prod.fst = d.run.entries ∧
      ∃ results : List UInt64, d.run.handed.map Prod.snd = results.map some ∧ rows = results.sum

/-- **Every payload is in exactly one place**, in any run, with any number of
threads. -/
theorem asyncService_places (hardwareConcurrency : Nat) {s : AsyncService}
    (h : Reachable (asyncService hardwareConcurrency) anyStep s) : s.Conserves := by
  have hplaced : s.Placed := by
    refine h.invariant AsyncService.Placed ?_ fun s event s' hinv _ hstep => hinv.step hstep
    exact ⟨.refl _, fun b hb => (nomatch hb), fun d hd => (nomatch hd)⟩
  have hperm := hplaced.perm_places
  constructor
  case once => exact (hperm.flatMap_right _).trans hplaced.once
  case owned => exact fun b hb => hplaced.owned b (hperm.subset hb)
  case returned =>
    intro d hd rows hrows
    have hgood := hplaced.drains d hd
    exact hgood.run.result (hgood.returned rows hrows)

/-- Two buffers in a round, flushed by two workers, while one of them is refilled. -/
def twoTargets : List AsyncServiceEvent :=
  [.start, .enqueue (bytes "a"), .enqueue (bytes "b"), .enqueue (bytes "a"),
    .loopWakes (fun _ => true) 2, .drainSteps 0 (.worker (.fetch 1)), .enqueue (bytes "a"),
    .drainSteps 0 (.worker (.fetch 0)), .drainSteps 0 (.worker (.ends 0 1)), .shutdown,
    .drainSteps 0 (.worker (.ends 1 2)), .drainSteps 0 (.worker (.adds 0)),
    .drainSteps 0 (.worker (.adds 1)), .drainSteps 0 (.worker (.fetch 0)),
    .drainSteps 0 (.worker (.fetch 1)), .drainReturns 0]

theorem asyncService_places_twoTargets :
    ∃ s, (asyncService 8).run twoTargets = some s ∧ s.Conserves :=
  ⟨_, rfl, asyncService_places 8 (reachable_iff_run.mpr ⟨twoTargets, rfl⟩)⟩

end RawDuck
