import RawDuck.GroupCommit
import RawDuck.Transition

/-!
# RawDuck.Coordinator

`RawCommitCoordinator` under concurrent calls of `RawIngestGroupCommit`: who
queues, who leads, who waits, over every interleaving of the critical sections
on its lock.

`committing` compares targets without case, `pending` and `active` compare them
exactly, so a call finds "its" leader by one equality and queues by another.

* `Coordination` — what holds between the critical sections as long as no call
  arrives under another spelling of a target that is being committed;
* `groupCommit_served_iff` — that condition is exactly what keeps every queued
  item in the hands of a leader.
-/

namespace RawDuck

open Transition Transition.System

/-! ## the system -/

/-- How the ingest of a batch ends for the leader. -/
abbrev BatchOutcome := Except Bytes RawIngestStats

/-- What a leader writes to an item of its batch. -/
def PendingItem.resolve (outcome : BatchOutcome) (item : PendingItem) : PendingItem :=
  match outcome with
  | .ok stats => item.committed stats
  | .error message => item.rejected message

/-- Where a call of `RawIngestGroupCommit` stands. -/
inductive Phase where
  /-- In `cv.wait` until its item is done. -/
  | waiting
  /-- The leader, before it looks at the queue: lingering. -/
  | lingering
  /-- The leader, without the lock: merging and ingesting its batch. -/
  | ingesting (batch : List Nat)
  /-- The leader, without the lock: the items of the batch it has not marked. -/
  | marking (outcome : BatchOutcome) (todo : List Nat)
  /-- Past `guard.unlock()`; still counted in `active`. -/
  | leaving
  | returned

/-- A call, its request's item and where it stands. -/
structure Call where
  target : Bytes
  item : PendingItem
  phase : Phase

/-- `RawCommitCoordinator`, with the calls so far; an item goes by the number
of its call. -/
structure CommitCoordinator where
  calls : List Call
  pending : Bytes → List Nat
  committing : List Bytes
  active : Bytes → Nat

/-- A critical section, or a step of a leader without the lock. -/
inductive CoordinatorEvent where
  /-- A request enters and takes the lock. -/
  | enter (target : Bytes) (parsed : RawParsedPayload) (payload : Bytes)
  /-- A lingering leader takes the lock again. -/
  | wake (call : Nat)
  /-- The ingest of a leader's batch ends. -/
  | ingested (call : Nat) (outcome : BatchOutcome)
  /-- A leader marks the next item of its batch. -/
  | mark (call : Nat)
  /-- A leader that has marked its batch takes the lock again. -/
  | relock (call : Nat)
  /-- A waiting call finds its item done. -/
  | resume (call : Nat)
  /-- `~ActiveGuard`. -/
  | exit (call : Nat)

namespace CommitCoordinator

/-- `LINGER_TARGET_BATCH`. -/
def lingerTargetBatch : Nat := 3

/-- A call moves on. -/
def setPhase (s : CommitCoordinator) (i : Nat) (phase : Phase) : CommitCoordinator :=
  { s with calls := s.calls.modify i fun c => { c with phase } }

/-- `coord.committing.erase(target)`: the leader is done. -/
def releaseLead (s : CommitCoordinator) (i : Nat) (target : Bytes) : CommitCoordinator :=
  { s with committing := s.committing.filter fun t => lower t != lower target }.setPhase i .leaving

/-- The leader moves the queue out and unlocks. -/
def takeBatch (s : CommitCoordinator) (i : Nat) (target : Bytes) (batch : List Nat) :
    CommitCoordinator :=
  { s with pending := Function.update s.pending target [] }.setPhase i (.ingesting batch)

/-- The head of the leader's loop, under the lock. -/
def drainPending (s : CommitCoordinator) (i : Nat) (target : Bytes) : CommitCoordinator :=
  match s.pending target with
  | [] => s.releaseLead i target
  | first :: rest => s.takeBatch i target (first :: rest)

/-- The item of a new call is queued and the call counted. -/
def enqueue (s : CommitCoordinator) (target : Bytes) (parsed : RawParsedPayload) (payload : Bytes) :
    CommitCoordinator :=
  { s with
    active := Function.update s.active target (s.active target + 1)
    pending := Function.update s.pending target (s.pending target ++ [s.calls.length])
    calls := s.calls ++ [{ target, item := .create parsed payload, phase := .waiting }] }

/-- `committing.insert(target)` by the newest call. -/
def takeLead (s : CommitCoordinator) (i : Nat) (target : Bytes) : CommitCoordinator :=
  { s with committing := s.committing ++ [target] }.setPhase i .lingering

/-- `RawIngestGroupCommit` up to its first wait or its first batch.  It lingers
only if a sibling is under way and the batch is small. -/
def enter (s : CommitCoordinator) (target : Bytes) (parsed : RawParsedPayload) (payload : Bytes) :
    CommitCoordinator :=
  let i := s.calls.length
  let queued := s.enqueue target parsed payload
  if ciContains s.committing target then queued
  else
    let leading := queued.takeLead i target
    if 1 < leading.active target ∧ (leading.pending target).length < lingerTargetBatch then leading
    else leading.drainPending i target

/-- The item of call `k` is resolved. -/
def resolveItem (s : CommitCoordinator) (k : Nat) (outcome : BatchOutcome) : CommitCoordinator :=
  { s with calls := s.calls.modify k fun c => { c with item := c.item.resolve outcome } }

/-- One event; `none` where the call does not stand there. -/
def step (s : CommitCoordinator) : CoordinatorEvent → Option CommitCoordinator
  | .enter target parsed payload => some (s.enter target parsed payload)
  | .wake i =>
      match s.calls[i]? with
      | some { target, phase := .lingering, .. } => some (s.drainPending i target)
      | _ => none
  | .ingested i outcome =>
      match s.calls[i]? with
      | some { phase := .ingesting batch, .. } => some (s.setPhase i (.marking outcome batch))
      | _ => none
  | .mark i =>
      match s.calls[i]? with
      | some { phase := .marking outcome (k :: todo), .. } =>
          some ((s.resolveItem k outcome).setPhase i (.marking outcome todo))
      | _ => none
  | .relock i =>
      match s.calls[i]? with
      | some { target, phase := .marking _ [], .. } => some (s.drainPending i target)
      | _ => none
  | .resume i =>
      match s.calls[i]? with
      | some { item, phase := .waiting, .. } =>
          if item.done then some (s.setPhase i .leaving) else none
      | _ => none
  | .exit i =>
      match s.calls[i]? with
      | some { target, phase := .leaving, .. } =>
          some ({ s with active := Function.update s.active target (s.active target - 1) }.setPhase
            i .returned)
      | _ => none

end CommitCoordinator

/-- A coordinator starts with no call. -/
def groupCommit : System CommitCoordinator CoordinatorEvent where
  init := { calls := [], pending := fun _ => [], committing := [], active := fun _ => 0 }
  step := CommitCoordinator.step

/-! ## leaders -/

/-- The items of a leader's batch that it has not marked; `none` for a call
outside the leader section. -/
def Phase.batch : Phase → Option (List Nat)
  | .lingering => some []
  | .ingesting batch => some batch
  | .marking _ todo => some todo
  | .waiting | .leaving | .returned => none

namespace CommitCoordinator

/-- Call `i` is in the leader section of `target`, with this part of its batch
to mark. -/
def Leads (s : CommitCoordinator) (i : Nat) (target : Bytes) (todo : List Nat) : Prop :=
  ∃ c, s.calls[i]? = some c ∧ c.target = target ∧ c.phase.batch = some todo

/-- The item of call `i` is there and not done. -/
def Undone (s : CommitCoordinator) (i : Nat) : Prop :=
  ∃ c, s.calls[i]? = some c ∧ c.item.done = false

/-- Call `i` is in `cv.wait` and its item is not done. -/
def Stuck (s : CommitCoordinator) (i : Nat) (target : Bytes) : Prop :=
  ∃ c, s.calls[i]? = some c ∧ c.target = target ∧ c.phase = .waiting ∧ c.item.done = false

/-- A queued item that is not done has a leader that drains its queue, so
without a leader nobody waits. -/
structure Served (s : CommitCoordinator) : Prop where
  drained : ∀ target i, i ∈ s.pending target → s.Undone i → ∃ j todo, s.Leads j target todo
  nobody : (∀ j target todo, ¬ s.Leads j target todo) → ∀ i target, ¬ s.Stuck i target

/-- No call arrives under another spelling of a target being committed. -/
def SpelledAlike (s : CommitCoordinator) : CoordinatorEvent → Prop
  | .enter target _ _ => ∀ t ∈ s.committing, lower t = lower target → t = target
  | _ => True

/-- What holds between the critical sections. -/
structure Coordination (s : CommitCoordinator) : Prop where
  /-- A leader's target is in `committing`. -/
  committing : ∀ {i target todo}, s.Leads i target todo → target ∈ s.committing
  /-- A target in `committing` has a leader. -/
  leader : ∀ {target}, target ∈ s.committing → ∃ i todo, s.Leads i target todo
  /-- Spellings of one target have one leader. -/
  unique : ∀ {i j t u todo todo'}, s.Leads i t todo → s.Leads j u todo' → lower t = lower u → i = j
  /-- A queue that is not empty is being drained. -/
  queued : ∀ {target i}, i ∈ s.pending target → target ∈ s.committing
  /-- Who waits is queued, or in the batch of a leader. -/
  waiting : ∀ {i target}, s.Stuck i target →
    i ∈ s.pending target ∨ ∃ j t todo, s.Leads j t todo ∧ i ∈ todo

theorem Coordination.served {s : CommitCoordinator} (h : s.Coordination) : s.Served where
  drained _ _ hmem _ := h.leader (h.queued hmem)
  nobody hnone i target hstuck := by
    rcases h.waiting hstuck with hmem | ⟨j, t, todo, hleads, -⟩
    · obtain ⟨j, todo, hleads⟩ := h.leader (h.queued hmem)
      exact hnone j target todo hleads
    · exact hnone j t todo hleads

/-! ## one event -/

variable {s s' : CommitCoordinator} {i j : Nat} {c : Call} {target t : Bytes} {todo : List Nat}

/-- A call that moves on changes only its own place in the leader section. -/
theorem leads_moved {phase : Phase} (hc : s.calls[i]? = some c)
    (hcalls : s'.calls = s.calls.modify i fun c => { c with phase }) :
    s'.Leads j t todo ↔
      (j = i ∧ c.target = t ∧ phase.batch = some todo) ∨ (j ≠ i ∧ s.Leads j t todo) := by
  unfold Leads
  simp only [hcalls, List.getElem?_modify]
  by_cases hji : j = i
  · subst hji
    simp [hc]
  · simp [hji, Ne.symm hji]

/-- A call that moves on to anything but `cv.wait` is not stuck. -/
theorem stuck_moved {phase : Phase} (hphase : phase ≠ .waiting)
    (hcalls : s'.calls = s.calls.modify i fun c => { c with phase }) :
    s'.Stuck j t ↔ j ≠ i ∧ s.Stuck j t := by
  unfold Stuck
  simp only [hcalls, List.getElem?_modify]
  by_cases hji : j = i
  · subst hji
    simp [hphase]
  · simp [hji, Ne.symm hji]

theorem Leads.of_call (hc : s.calls[i]? = some c) (hbatch : c.phase.batch = some todo) :
    s.Leads i c.target todo := ⟨c, hc, rfl, hbatch⟩

theorem Leads.eq_todo {todo' : List Nat} {u : Bytes} (h : s.Leads i t todo)
    (h' : s.Leads i u todo') : t = u ∧ todo = todo' := by
  obtain ⟨c, hc, rfl, hbatch⟩ := h
  obtain ⟨c', hc', rfl, hbatch'⟩ := h'
  rw [hc, Option.some.injEq] at hc'
  subst hc'
  rw [hbatch, Option.some.injEq] at hbatch'
  exact ⟨rfl, hbatch'⟩

/-- A phase change that keeps the batch keeps the coordination. -/
theorem Coordination.setPhase (h : s.Coordination) (hc : s.calls[i]? = some c) {phase : Phase}
    (hbatch : phase.batch = c.phase.batch) (hphase : phase ≠ .waiting) :
    (s.setPhase i phase).Coordination := by
  have hleads : ∀ {j t todo}, (s.setPhase i phase).Leads j t todo ↔ s.Leads j t todo := by
    intro j t todo
    rw [leads_moved hc rfl]
    by_cases hji : j = i
    · subst hji
      simp only [true_and, ne_eq, not_true_eq_false, false_and, or_false, hbatch]
      simp [Leads, hc]
    · simp [hji]
  refine ⟨fun hl => h.committing (hleads.mp hl), fun hmem => ?_, fun hl hl' heq => ?_,
    fun hmem => h.queued hmem, fun hstuck => ?_⟩
  · obtain ⟨i, todo, hl⟩ := h.leader hmem
    exact ⟨i, todo, hleads.mpr hl⟩
  · exact h.unique (hleads.mp hl) (hleads.mp hl') heq
  · rcases h.waiting ((stuck_moved hphase rfl).mp hstuck).2 with hmem | ⟨j, t, todo, hl, hmem⟩
    · exact .inl hmem
    · exact .inr ⟨j, t, todo, hleads.mpr hl, hmem⟩

theorem leads_releaseLead (hc : s.calls[i]? = some c) :
    (s.releaseLead i c.target).Leads j t todo ↔ j ≠ i ∧ s.Leads j t todo := by
  rw [leads_moved hc rfl]
  simp [Phase.batch]

theorem leads_takeBatch {batch : List Nat} (hc : s.calls[i]? = some c) :
    (s.takeBatch i c.target batch).Leads j t todo ↔
      (j = i ∧ c.target = t ∧ batch = todo) ∨ (j ≠ i ∧ s.Leads j t todo) := by
  rw [leads_moved hc rfl]
  simp [Phase.batch]

/-- A leader with nothing queued and nothing to mark leaves nobody behind. -/
theorem Coordination.releaseLead (h : s.Coordination) (hc : s.calls[i]? = some c)
    (hbatch : c.phase.batch = some []) (hpending : s.pending c.target = []) :
    (s.releaseLead i c.target).Coordination := by
  have hlead : s.Leads i c.target [] := .of_call hc hbatch
  refine ⟨fun hl => ?_, fun hmem => ?_, fun hl hl' heq => ?_, ?_, ?_⟩
  · obtain ⟨hne, hl⟩ := (leads_releaseLead hc).mp hl
    refine List.mem_filter.mpr ⟨h.committing hl, ?_⟩
    simpa using fun heq => hne (h.unique hl hlead heq)
  · obtain ⟨hmem, hne⟩ := List.mem_filter.mp hmem
    obtain ⟨j, todo, hl⟩ := h.leader hmem
    refine ⟨j, todo, (leads_releaseLead hc).mpr ⟨?_, hl⟩⟩
    rintro rfl
    simp [(hl.eq_todo hlead).1] at hne
  · exact h.unique ((leads_releaseLead hc).mp hl).2 ((leads_releaseLead hc).mp hl').2 heq
  · -- the target of a queue that is not empty is led by another call
    intro t k (hk : k ∈ s.pending t)
    refine List.mem_filter.mpr ⟨h.queued hk, ?_⟩
    obtain ⟨j, todo, hl⟩ := h.leader (h.queued hk)
    simp only [bne_iff_ne, ne_eq]
    intro heq
    obtain rfl := h.unique hl hlead heq
    rw [(hl.eq_todo hlead).1, hpending] at hk
    exact nomatch hk
  · intro k t hstuck
    have hold : s.Stuck k t := ((stuck_moved (by simp) rfl).mp hstuck).2
    rcases h.waiting hold with hmem | ⟨j, u, todo, hl, hmem⟩
    · exact .inl hmem
    · refine .inr ⟨j, u, todo, (leads_releaseLead hc).mpr ⟨?_, hl⟩, hmem⟩
      rintro rfl
      rw [(hl.eq_todo hlead).2] at hmem
      exact nomatch hmem

/-- A leader with nothing to mark takes the queue over. -/
theorem Coordination.takeBatch (h : s.Coordination) (hc : s.calls[i]? = some c)
    (hbatch : c.phase.batch = some []) :
    (s.takeBatch i c.target (s.pending c.target)).Coordination := by
  have hlead : s.Leads i c.target [] := .of_call hc hbatch
  have hback : ∀ {j t todo}, (s.takeBatch i c.target (s.pending c.target)).Leads j t todo →
      ∃ todo', s.Leads j t todo' := by
    intro j t todo hl
    rcases (leads_takeBatch hc).mp hl with ⟨rfl, rfl, -⟩ | ⟨-, hl⟩
    · exact ⟨[], hlead⟩
    · exact ⟨todo, hl⟩
  refine ⟨fun hl => ?_, fun hmem => ?_, fun hl hl' heq => ?_, ?_, ?_⟩
  · obtain ⟨_, hl⟩ := hback hl
    exact h.committing hl
  · obtain ⟨j, todo, hl⟩ := h.leader hmem
    by_cases hji : j = i
    · subst hji
      exact ⟨j, _, (leads_takeBatch hc).mpr (.inl ⟨rfl, (hl.eq_todo hlead).1.symm, rfl⟩)⟩
    · exact ⟨j, todo, (leads_takeBatch hc).mpr (.inr ⟨hji, hl⟩)⟩
  · obtain ⟨_, hl⟩ := hback hl
    obtain ⟨_, hl'⟩ := hback hl'
    exact h.unique hl hl' heq
  · intro t k (hk : k ∈ Function.update s.pending c.target [] t)
    by_cases heq : t = c.target
    · simp [heq] at hk
    · rw [Function.update_of_ne heq] at hk
      exact h.queued hk
  · intro k t hstuck
    have hold : s.Stuck k t := ((stuck_moved (by simp) rfl).mp hstuck).2
    rcases h.waiting hold with hmem | ⟨j, u, todo, hl, hmem⟩
    · by_cases heq : t = c.target
      · subst heq
        exact .inr ⟨i, c.target, _, (leads_takeBatch hc).mpr (.inl ⟨rfl, rfl, rfl⟩), hmem⟩
      · refine .inl ?_
        change k ∈ Function.update s.pending c.target [] t
        rwa [Function.update_of_ne heq]
    · refine .inr ⟨j, u, todo, (leads_takeBatch hc).mpr (.inr ⟨?_, hl⟩), hmem⟩
      rintro rfl
      rw [(hl.eq_todo hlead).2] at hmem
      exact nomatch hmem

theorem Coordination.drainPending (h : s.Coordination) (hc : s.calls[i]? = some c)
    (hbatch : c.phase.batch = some []) : (s.drainPending i c.target).Coordination := by
  unfold CommitCoordinator.drainPending
  split
  · next hpending => exact h.releaseLead hc hbatch hpending
  · next first rest hpending => exact hpending ▸ h.takeBatch hc hbatch

/-! ### a call enters -/

variable {parsed : RawParsedPayload} {payload : Bytes}

/-- A call that waits leads nothing. -/
theorem leads_enqueue : (s.enqueue target parsed payload).Leads j t todo ↔ s.Leads j t todo := by
  unfold Leads
  simp only [enqueue]
  by_cases hj : j < s.calls.length
  · rw [List.getElem?_append_left hj]
  · rw [List.getElem?_append_right (Nat.le_of_not_lt hj),
      List.getElem?_eq_none (Nat.le_of_not_lt hj)]
    cases hk : j - s.calls.length <;> simp [Phase.batch]

theorem stuck_enqueue (h : (s.enqueue target parsed payload).Stuck j t) :
    s.Stuck j t ∨ (j = s.calls.length ∧ t = target) := by
  obtain ⟨c, hc, rfl, hphase, hdone⟩ := h
  simp only [enqueue] at hc
  by_cases hj : j < s.calls.length
  · rw [List.getElem?_append_left hj] at hc
    exact .inl ⟨c, hc, rfl, hphase, hdone⟩
  · rw [List.getElem?_append_right (Nat.le_of_not_lt hj)] at hc
    cases hk : j - s.calls.length with
    | zero =>
        rw [hk] at hc
        simp only [List.getElem?_cons_zero, Option.some.injEq] at hc
        exact .inr ⟨by omega, by rw [← hc]⟩
    | succ k => simp [hk] at hc

/-- Every queue but the target's is as it was. -/
theorem mem_pending_enqueue :
    i ∈ (s.enqueue target parsed payload).pending t ↔
      i ∈ s.pending t ∨ (t = target ∧ i = s.calls.length) := by
  simp only [enqueue]
  by_cases heq : t = target
  · subst heq
    simp
  · simp [heq]

/-- Whoever waits after a call entered is accounted for. -/
theorem Coordination.waiting_enqueue (h : s.Coordination)
    (hstuck : (s.enqueue target parsed payload).Stuck i t) :
    i ∈ (s.enqueue target parsed payload).pending t ∨
      ∃ j u todo, s.Leads j u todo ∧ i ∈ todo := by
  rcases stuck_enqueue hstuck with hold | ⟨rfl, rfl⟩
  · rcases h.waiting hold with hmem | hbatch
    · exact .inl (mem_pending_enqueue.mpr (.inl hmem))
    · exact .inr hbatch
  · exact .inl (mem_pending_enqueue.mpr (.inr ⟨rfl, rfl⟩))

/-- A call queues behind the leader of its own spelling. -/
theorem Coordination.enqueue (h : s.Coordination) (htarget : target ∈ s.committing) :
    (s.enqueue target parsed payload).Coordination := by
  refine ⟨fun hl => h.committing (leads_enqueue.mp hl), fun hmem => ?_, fun hl hl' heq => ?_,
    fun hmem => ?_, fun hstuck => ?_⟩
  · obtain ⟨j, todo, hl⟩ := h.leader hmem
    exact ⟨j, todo, leads_enqueue.mpr hl⟩
  · exact h.unique (leads_enqueue.mp hl) (leads_enqueue.mp hl') heq
  · rcases mem_pending_enqueue.mp hmem with hmem | ⟨rfl, -⟩
    · exact h.queued hmem
    · exact htarget
  · rcases h.waiting_enqueue hstuck with hmem | ⟨j, u, todo, hl, hmem⟩
    · exact .inl hmem
    · exact .inr ⟨j, u, todo, leads_enqueue.mpr hl, hmem⟩

/-- The item of a call in its place after it entered. -/
theorem calls_enqueue : (s.enqueue target parsed payload).calls[s.calls.length]? =
    some { target, item := .create parsed payload, phase := .waiting } := by
  simp [CommitCoordinator.enqueue]

theorem leads_takeLead : ((s.enqueue target parsed payload).takeLead s.calls.length target).Leads
    j t todo ↔ (j = s.calls.length ∧ target = t ∧ [] = todo) ∨ s.Leads j t todo := by
  rw [leads_moved (s := s.enqueue target parsed payload) calls_enqueue rfl, leads_enqueue]
  simp only [Phase.batch, Option.some.injEq]
  refine or_congr_right (and_iff_right_of_imp ?_)
  rintro ⟨c, hc, -⟩ rfl
  simp at hc

/-- A call becomes the leader of a target nobody leads. -/
theorem Coordination.takeLead (h : s.Coordination)
    (hfree : ciContains s.committing target = false) :
    ((s.enqueue target parsed payload).takeLead s.calls.length target).Coordination := by
  have hnot : ∀ {j t todo}, s.Leads j t todo → lower t ≠ lower target := by
    intro j t todo hl heq
    rw [ciContains_iff.mpr ⟨t, h.committing hl, heq⟩] at hfree
    exact nomatch hfree
  have hcommitting : ((s.enqueue target parsed payload).takeLead s.calls.length target).committing =
      s.committing ++ [target] := rfl
  refine ⟨fun hl => ?_, fun hmem => ?_, fun hl hl' heq => ?_, fun {t i} hmem => ?_,
    fun hstuck => ?_⟩
  · rw [hcommitting]
    rcases leads_takeLead.mp hl with ⟨-, rfl, -⟩ | hl
    · simp
    · exact List.mem_append_left _ (h.committing hl)
  · rw [hcommitting] at hmem
    rcases List.mem_append.mp hmem with hmem | hmem
    · obtain ⟨j, todo, hl⟩ := h.leader hmem
      exact ⟨j, todo, leads_takeLead.mpr (.inr hl)⟩
    · obtain rfl := List.mem_singleton.mp hmem
      exact ⟨_, [], leads_takeLead.mpr (.inl ⟨rfl, rfl, rfl⟩)⟩
  · rcases leads_takeLead.mp hl with ⟨rfl, rfl, -⟩ | hl <;>
      rcases leads_takeLead.mp hl' with ⟨rfl, rfl, -⟩ | hl'
    · rfl
    · exact absurd heq.symm (hnot hl')
    · exact absurd heq (hnot hl)
    · exact h.unique hl hl' heq
  · rw [hcommitting]
    change i ∈ (s.enqueue target parsed payload).pending t at hmem
    rcases mem_pending_enqueue.mp hmem with hmem | ⟨rfl, -⟩
    · exact List.mem_append_left _ (h.queued hmem)
    · simp
  · have hold := ((stuck_moved (by simp) rfl).mp hstuck).2
    rcases h.waiting_enqueue hold with hmem | ⟨j, u, todo, hl, hmem⟩
    · exact .inl hmem
    · exact .inr ⟨j, u, todo, leads_takeLead.mpr (.inr hl), hmem⟩

theorem Coordination.enter (h : s.Coordination)
    (hspelled : ∀ t ∈ s.committing, lower t = lower target → t = target) :
    (s.enter target parsed payload).Coordination := by
  unfold CommitCoordinator.enter
  cases hci : ciContains s.committing target with
  | true =>
      obtain ⟨t, hmem, heq⟩ := ciContains_iff.mp hci
      exact h.enqueue (hspelled t hmem heq ▸ hmem)
  | false =>
      have hlead : ((s.enqueue target parsed payload).takeLead s.calls.length
          target).Coordination := h.takeLead hci
      simp only [Bool.false_eq_true, if_false]
      split
      · exact hlead
      · have hc : ((s.enqueue target parsed payload).takeLead s.calls.length target).calls[
            s.calls.length]? =
            some { target, item := .create parsed payload, phase := .lingering } := by
          simp only [CommitCoordinator.takeLead, CommitCoordinator.setPhase, List.getElem?_modify]
          rw [show (CommitCoordinator.enqueue s target parsed payload).calls[s.calls.length]? = _
            from calls_enqueue]
          simp
        exact hlead.drainPending hc rfl

/-! ### a leader marks an item -/

theorem resolve_done (outcome : BatchOutcome) (item : PendingItem) :
    (item.resolve outcome).done = true := by
  cases outcome <;> rfl

variable {k : Nat} {outcome : BatchOutcome}

theorem calls_resolveItem (hc : s.calls[i]? = some c) :
    ∃ item, (s.resolveItem k outcome).calls[i]? = some { c with item } := by
  simp only [resolveItem, List.getElem?_modify, hc, Option.map_eq_map, Option.map_some]
  split
  · exact ⟨_, rfl⟩
  · exact ⟨c.item, rfl⟩

theorem leads_resolveItem : (s.resolveItem k outcome).Leads j t todo ↔ s.Leads j t todo := by
  unfold Leads
  simp only [resolveItem, List.getElem?_modify]
  by_cases hk : k = j
  · subst hk
    cases s.calls[k]? <;> simp
  · simp [hk]

/-- A resolved item keeps nobody waiting. -/
theorem stuck_resolveItem (h : (s.resolveItem k outcome).Stuck j t) : j ≠ k ∧ s.Stuck j t := by
  obtain ⟨c, hc, htarget, hphase, hdone⟩ := h
  simp only [resolveItem, List.getElem?_modify, Option.map_eq_map, Option.map_eq_some_iff] at hc
  obtain ⟨c₀, hc₀, rfl⟩ := hc
  by_cases hk : k = j
  · simp [hk, resolve_done] at hdone
  · simp only [hk, if_false] at htarget hphase hdone
    exact ⟨Ne.symm hk, c₀, hc₀, htarget, hphase, hdone⟩

/-- The leader marks the next item of its batch. -/
theorem Coordination.mark (h : s.Coordination) (hc : s.calls[i]? = some c)
    (hphase : c.phase = .marking outcome (k :: todo)) :
    ((s.resolveItem k outcome).setPhase i (.marking outcome todo)).Coordination := by
  have hlead : s.Leads i c.target (k :: todo) := .of_call hc (by rw [hphase]; rfl)
  obtain ⟨item, hc'⟩ : ∃ item, (s.resolveItem k outcome).calls[i]? = some { c with item } :=
    calls_resolveItem hc
  have hleads : ∀ {j t todo'},
      ((s.resolveItem k outcome).setPhase i (.marking outcome todo)).Leads j t todo' ↔
        (j = i ∧ c.target = t ∧ todo = todo') ∨ (j ≠ i ∧ s.Leads j t todo') := by
    intro j t todo'
    rw [leads_moved hc' rfl, leads_resolveItem]
    simp [Phase.batch]
  have hback : ∀ {j t todo'},
      ((s.resolveItem k outcome).setPhase i (.marking outcome todo)).Leads j t todo' →
        ∃ todo₀, s.Leads j t todo₀ := by
    intro j t todo' hl
    rcases hleads.mp hl with ⟨rfl, rfl, -⟩ | ⟨-, hl⟩
    · exact ⟨_, hlead⟩
    · exact ⟨_, hl⟩
  refine ⟨fun hl => ?_, fun hmem => ?_, fun hl hl' heq => ?_, fun hmem => h.queued hmem,
    fun hstuck => ?_⟩
  · obtain ⟨_, hl⟩ := hback hl
    exact h.committing hl
  · obtain ⟨j, todo', hl⟩ := h.leader hmem
    by_cases hji : j = i
    · subst hji
      exact ⟨j, _, hleads.mpr (.inl ⟨rfl, (hl.eq_todo hlead).1.symm, rfl⟩)⟩
    · exact ⟨j, todo', hleads.mpr (.inr ⟨hji, hl⟩)⟩
  · obtain ⟨_, hl⟩ := hback hl
    obtain ⟨_, hl'⟩ := hback hl'
    exact h.unique hl hl' heq
  · obtain ⟨hne, hold⟩ := stuck_resolveItem ((stuck_moved (by simp) rfl).mp hstuck).2
    rcases h.waiting hold with hmem | ⟨j, u, todo', hl, hmem⟩
    · exact .inl hmem
    · -- whoever was in this leader's batch still is, the marked item apart
      by_cases hji : j = i
      · subst hji
        rw [(hl.eq_todo hlead).2] at hmem
        exact .inr ⟨j, c.target, todo, hleads.mpr (.inl ⟨rfl, rfl, rfl⟩),
          (List.mem_cons.mp hmem).resolve_left hne⟩
      · exact .inr ⟨j, u, todo', hleads.mpr (.inr ⟨hji, hl⟩), hmem⟩

/-! ## every run -/

/-- What an event does, by the place its call stands in. -/
theorem step_cases {a : CoordinatorEvent} (h : s.step a = some s') :
    (∃ target parsed payload, a = .enter target parsed payload ∧
      s' = s.enter target parsed payload) ∨
    (∃ i c, s.calls[i]? = some c ∧ c.phase.batch = some [] ∧ s' = s.drainPending i c.target) ∨
    (∃ i c outcome k todo, s.calls[i]? = some c ∧ c.phase = .marking outcome (k :: todo) ∧
      s' = (s.resolveItem k outcome).setPhase i (.marking outcome todo)) ∨
    (∃ i c active phase, s.calls[i]? = some c ∧ phase.batch = c.phase.batch ∧ phase ≠ .waiting ∧
      s' = { s with active }.setPhase i phase) := by
  cases a with
  | enter target parsed payload =>
      exact .inl ⟨target, parsed, payload, rfl, (Option.some.inj h).symm⟩
  | wake i =>
      simp only [step] at h
      split at h
      · next target item hc =>
        exact .inr (.inl ⟨i, _, hc, rfl, (Option.some.inj h).symm⟩)
      · exact nomatch h
  | ingested i outcome =>
      simp only [step] at h
      split at h
      · next target item batch hc =>
        exact .inr (.inr (.inr ⟨i, _, s.active, .marking outcome batch, hc, rfl, by simp,
          (Option.some.inj h).symm⟩))
      · exact nomatch h
  | mark i =>
      simp only [step] at h
      split at h
      · next target item outcome k todo hc =>
        exact .inr (.inr (.inl ⟨i, _, outcome, k, todo, hc, rfl, (Option.some.inj h).symm⟩))
      · exact nomatch h
  | relock i =>
      simp only [step] at h
      split at h
      · next target item outcome hc =>
        exact .inr (.inl ⟨i, _, hc, rfl, (Option.some.inj h).symm⟩)
      · exact nomatch h
  | resume i =>
      simp only [step] at h
      split at h
      · next target item hc =>
        split at h
        · exact .inr (.inr (.inr ⟨i, _, s.active, .leaving, hc, rfl, by simp,
            (Option.some.inj h).symm⟩))
        · exact nomatch h
      · exact nomatch h
  | exit i =>
      simp only [step] at h
      split at h
      · next target item hc =>
        exact .inr (.inr (.inr ⟨i, _, _, .returned, hc, rfl, by simp, (Option.some.inj h).symm⟩))
      · exact nomatch h

/-- `active` decides only who lingers. -/
theorem Coordination.active (h : s.Coordination) (active : Bytes → Nat) :
    ({ s with active } : CommitCoordinator).Coordination :=
  ⟨h.committing, h.leader, h.unique, h.queued, h.waiting⟩

/-- **One event** keeps the coordination. -/
theorem Coordination.step (h : s.Coordination) {a : CoordinatorEvent} (hguard : s.SpelledAlike a)
    (hstep : s.step a = some s') : s'.Coordination := by
  rcases step_cases hstep with ⟨target, parsed, payload, rfl, rfl⟩ | ⟨i, c, hc, hbatch, rfl⟩ |
    ⟨i, c, outcome, k, todo, hc, hphase, rfl⟩ | ⟨i, c, active, phase, hc, hbatch, hphase, rfl⟩
  · exact h.enter hguard
  · exact h.drainPending hc hbatch
  · exact h.mark hc hphase
  · exact (h.active active).setPhase hc hbatch hphase

/-- A call that finds another spelling of its target in `committing` waits in a
queue that nobody drains. -/
theorem Coordination.not_served (h : s.Coordination) {a : CoordinatorEvent}
    (hguard : ¬ s.SpelledAlike a) (hstep : s.step a = some s') : ¬ s'.Served := by
  cases a with
  | enter target parsed payload =>
      simp only [SpelledAlike, not_forall] at hguard
      obtain ⟨t, hmem, heq, hne⟩ := hguard
      have hci : ciContains s.committing target = true := ciContains_iff.mpr ⟨t, hmem, heq⟩
      have hs' : s' = s.enqueue target parsed payload := by
        have := Option.some.inj hstep
        simpa only [CommitCoordinator.enter, hci, if_true] using this.symm
      subst hs'
      intro hserved
      obtain ⟨j, todo, hl⟩ := hserved.drained target s.calls.length
        (mem_pending_enqueue.mpr (.inr ⟨rfl, rfl⟩)) ⟨_, calls_enqueue, rfl⟩
      have hl := leads_enqueue.mp hl
      -- the leader of the other spelling is the only one
      obtain ⟨i, todo', hl'⟩ := h.leader hmem
      obtain rfl := h.unique hl' hl heq
      exact hne (hl'.eq_todo hl).1
  | wake | ingested | mark | relock | resume | exit => exact absurd trivial hguard

end CommitCoordinator

/-- Before the first call nobody waits. -/
theorem groupCommit_init : groupCommit.init.Coordination := by
  have hnone : ∀ {j t todo}, ¬ groupCommit.init.Leads j t todo := by
    rintro j t todo ⟨c, hc, -⟩
    simp [groupCommit] at hc
  refine ⟨fun h => absurd h hnone, fun h => (nomatch h), fun h => absurd h hnone,
    fun h => (nomatch h),
    ?_⟩
  rintro i t ⟨c, hc, -⟩
  simp [groupCommit] at hc

/-- **Every queued item is served, in every state of a run, exactly when no call
of the run arrives under another spelling of a target being committed.** -/
theorem groupCommit_served_iff (schedule : List CoordinatorEvent) :
    groupCommit.Throughout CommitCoordinator.Served groupCommit.init schedule ↔
      groupCommit.Guarded CommitCoordinator.SpelledAlike groupCommit.init schedule :=
  throughout_iff_guarded CommitCoordinator.Coordination (fun _ h => h.served)
    (fun _ _ _ h hguard hstep => h.step hguard hstep)
    (fun _ _ _ h hguard hstep => h.not_served hguard hstep) schedule groupCommit_init

/-- One request for `T`, then, while it is committed, one for `t`; the leader of
`T` finishes. -/
def twoSpellings : List CoordinatorEvent :=
  let parsed : RawParsedPayload :=
    { payload := { rows := [], scalarRows := false, parseErrors := 0 }
      root := .unset
      columns := [] }
  [.enter (bytes "T") parsed [], .enter (bytes "t") parsed [], .ingested 0 (.error []), .mark 0,
    .relock 0, .exit 0]

/-- The request for `t` is left waiting with no leader. -/
theorem groupCommit_twoSpellings : ∃ s, groupCommit.run twoSpellings = some s ∧ ¬ s.Served := by
  refine ⟨_, rfl, fun hserved => ?_⟩
  refine hserved.nobody ?_ 1 (bytes "t") ⟨_, rfl, rfl, rfl, rfl⟩
  rintro j t todo ⟨c, hc, -, hbatch⟩
  match j with
  | 0 =>
      cases hc
      exact nomatch hbatch
  | 1 =>
      cases hc
      exact nomatch hbatch
  | j + 2 => exact nomatch hc

end RawDuck
