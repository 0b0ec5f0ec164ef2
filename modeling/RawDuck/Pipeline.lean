import RawDuck.Transition

/-!
# RawDuck.Pipeline

`RawIngestPipeline`: a reader, parsers and consumers that hand batches over
through two bounded queues, one mutex and three condition variables.

Threads of one kind are interchangeable, so a state counts how many of them
stand where; a step is one critical section.  A waiter is enabled only after a
notification chose it, and the label of a step says whom `notify_one` chooses
on `producer_cv`, where the reader waits for raw space and parsers wait for
parsed space.

* `Flow` — what holds as long as each notification on `producer_cv` reaches a
  waiter for the space that was freed;
* `pipeline_not_stuck` — and then the pipeline never deadlocks.
-/

namespace RawDuck

open Transition Transition.System

/-! ## the system -/

/-- The shape of a pipeline: its capacity, its threads and the batches the
reader will emit. -/
structure PipelineConfig where
  capacity : Nat
  parsers : Nat
  consumers : Nat
  batches : Nat
  capacity_pos : 0 < capacity
  parsers_pos : 0 < parsers
  consumers_pos : 0 < consumers

/-- Where the reader stands. -/
inductive ReaderPhase where
  | running
  /-- In `producer_cv.wait`. -/
  | waiting
  /-- Chosen by a notification; it checks its predicate again. -/
  | notified
  | done
  deriving DecidableEq, Repr

/-- `RawIngestPipeline` and where its threads stand. -/
structure Pipeline where
  reader : ReaderPhase
  /-- Batches the reader has not handed over, the one in its hands included. -/
  unread : Nat
  rawQueue : Nat
  queue : Nat
  activeParsers : Nat
  readerDone : Bool
  aborted : Bool
  /-- `error` is set. -/
  failed : Bool
  /-- Parsers about to call `PopRaw`, in its wait, and chosen there. -/
  popping : Nat
  popWaiting : Nat
  popNotified : Nat
  /-- Parsers with a batch: about to call `Push`, in its wait, and chosen there. -/
  pushing : Nat
  pushWaiting : Nat
  pushNotified : Nat
  /-- Parsers that got no batch and have not called `ParserDone` yet. -/
  leaving : Nat
  /-- Consumers about to call `Pop`, in its wait, chosen there, and gone. -/
  consuming : Nat
  consumerWaiting : Nat
  consumerNotified : Nat
  consumersDone : Nat
  deriving DecidableEq, Repr

/-- Whom `notify_one` chooses on `producer_cv`. -/
inductive ProducerWaiter where
  | reader
  | parser
  | nobody
  deriving DecidableEq, Repr

/-- A critical section; `first` is a thread's first check of its predicate, as
opposed to the check after a notification. -/
inductive PipelineEvent where
  | pushRaw
  /-- `ReaderDone`, after the last batch. -/
  | readerDone
  /-- `ReaderDone` with an error: the rest of the file is not read. -/
  | readerFails
  | popRaw (first : Bool) (chosen : ProducerWaiter)
  | push (first : Bool)
  /-- `ParserDone` without an error. -/
  | parserDone
  /-- `ParserDone` with an error. -/
  | parserFails
  | pop (first : Bool) (chosen : ProducerWaiter)
  /-- `Abort`, by a consumer whose ingest raised. -/
  | consumerFails
  deriving DecidableEq, Repr

namespace Pipeline

/-- `producer_cv.notify_one()`: a waiter is chosen if there is one. -/
def notifyProducer (s : Pipeline) : ProducerWaiter → Option Pipeline
  | .reader => if s.reader = .waiting then some { s with reader := .notified } else none
  | .parser =>
      if 0 < s.pushWaiting then
        some { s with pushWaiting := s.pushWaiting - 1, pushNotified := s.pushNotified + 1 }
      else none
  | .nobody => if s.reader ≠ .waiting ∧ s.pushWaiting = 0 then some s else none

/-- `producer_cv.notify_all()`. -/
def notifyProducers (s : Pipeline) : Pipeline :=
  { s with
    reader := if s.reader = .waiting then .notified else s.reader
    pushWaiting := 0
    pushNotified := s.pushNotified + s.pushWaiting }

/-- `parser_cv.notify_one()`. -/
def notifyParser (s : Pipeline) : Pipeline :=
  if 0 < s.popWaiting then
    { s with popWaiting := s.popWaiting - 1, popNotified := s.popNotified + 1 }
  else s

/-- `parser_cv.notify_all()`. -/
def notifyParsers (s : Pipeline) : Pipeline :=
  { s with popWaiting := 0, popNotified := s.popNotified + s.popWaiting }

/-- `consumer_cv.notify_one()`. -/
def notifyConsumer (s : Pipeline) : Pipeline :=
  if 0 < s.consumerWaiting then
    { s with
      consumerWaiting := s.consumerWaiting - 1, consumerNotified := s.consumerNotified + 1 }
  else s

/-- `consumer_cv.notify_all()`. -/
def notifyConsumers (s : Pipeline) : Pipeline :=
  { s with consumerWaiting := 0, consumerNotified := s.consumerNotified + s.consumerWaiting }

/-- `PushRaw`. -/
def pushRaw (cfg : PipelineConfig) (s : Pipeline) : Pipeline :=
  if s.aborted then { s with reader := .running, unread := s.unread - 1 }
  else if s.rawQueue < cfg.capacity then
    { s with reader := .running, unread := s.unread - 1, rawQueue := s.rawQueue + 1 }.notifyParser
  else { s with reader := .waiting }

/-- `ReaderDone`. -/
def endReader (s : Pipeline) : Pipeline :=
  { s with reader := .done, unread := 0, readerDone := true }.notifyParsers.notifyConsumers

/-- `PopRaw` of a parser that has the lock. -/
def popRaw (s : Pipeline) (chosen : ProducerWaiter) : Option Pipeline :=
  if s.rawQueue = 0 ∧ !s.readerDone ∧ !s.aborted then
    some { s with popWaiting := s.popWaiting + 1 }
  else if s.rawQueue = 0 ∨ s.aborted then some { s with leaving := s.leaving + 1 }
  else { s with rawQueue := s.rawQueue - 1, pushing := s.pushing + 1 }.notifyProducer chosen

/-- `Push` of a parser that has the lock. -/
def push (cfg : PipelineConfig) (s : Pipeline) : Pipeline :=
  if s.aborted then { s with popping := s.popping + 1 }
  else if s.queue < cfg.capacity then
    { s with queue := s.queue + 1, popping := s.popping + 1 }.notifyConsumer
  else { s with pushWaiting := s.pushWaiting + 1 }

/-- `Pop` of a consumer that has the lock. -/
def pop (s : Pipeline) (chosen : ProducerWaiter) : Option Pipeline :=
  if s.queue = 0 ∧ !s.aborted ∧ ¬ (s.readerDone ∧ s.activeParsers = 0) then
    some { s with consumerWaiting := s.consumerWaiting + 1 }
  else if s.aborted ∨ s.queue = 0 then some { s with consumersDone := s.consumersDone + 1 }
  else { s with queue := s.queue - 1, consuming := s.consuming + 1 }.notifyProducer chosen

/-- One event. -/
def step (cfg : PipelineConfig) (s : Pipeline) : PipelineEvent → Option Pipeline
  | .pushRaw =>
      if (s.reader = .running ∨ s.reader = .notified) ∧ 0 < s.unread then some (s.pushRaw cfg)
      else none
  | .readerDone => if s.reader = .running ∧ s.unread = 0 then some s.endReader else none
  | .readerFails =>
      if s.reader = .running then some { s with failed := true }.endReader else none
  | .popRaw true chosen =>
      if 0 < s.popping then { s with popping := s.popping - 1 }.popRaw chosen else none
  | .popRaw false chosen =>
      if 0 < s.popNotified then { s with popNotified := s.popNotified - 1 }.popRaw chosen else none
  | .push true =>
      if 0 < s.pushing then some ({ s with pushing := s.pushing - 1 }.push cfg) else none
  | .push false =>
      if 0 < s.pushNotified then some ({ s with pushNotified := s.pushNotified - 1 }.push cfg)
      else none
  | .parserDone =>
      if 0 < s.leaving then
        some { s with leaving := s.leaving - 1
                      activeParsers := s.activeParsers - 1 }.notifyConsumers
      else none
  | .parserFails =>
      if 0 < s.pushing then
        -- only the first error is recorded, and only that one aborts
        if s.failed then
          some { s with pushing := s.pushing - 1
                        activeParsers := s.activeParsers - 1 }.notifyConsumers
        else
          some { s with pushing := s.pushing - 1, failed := true, aborted := true
                        activeParsers := s.activeParsers - 1
                          }.notifyParsers.notifyProducers.notifyConsumers
      else none
  | .pop true chosen =>
      if 0 < s.consuming then { s with consuming := s.consuming - 1 }.pop chosen else none
  | .pop false chosen =>
      if 0 < s.consumerNotified then
        { s with consumerNotified := s.consumerNotified - 1 }.pop chosen
      else none
  | .consumerFails =>
      if 0 < s.consuming then
        some { s with consuming := s.consuming - 1, consumersDone := s.consumersDone + 1
                      aborted := true, readerDone := true }.notifyParsers.notifyProducers
      else none

/-- Batches on their way. -/
def remaining (s : Pipeline) : Nat :=
  s.unread + s.rawQueue + s.pushing + s.pushWaiting + s.pushNotified + s.queue

/-- Some batch has not been consumed, nothing was aborted, and no thread has an
enabled step. -/
def Stuck (cfg : PipelineConfig) (s : Pipeline) : Prop :=
  0 < s.remaining ∧ s.aborted = false ∧ ∀ a, s.step cfg a = none

/-- A parser fails only while no error is recorded, so that it aborts. -/
def FailsFirst (s : Pipeline) : PipelineEvent → Prop
  | .parserFails => s.failed = false
  | _ => True

/-- A notification on `producer_cv` chooses a waiter for the space that was
freed, if there is one; and a parser that fails aborts. -/
def Meant (s : Pipeline) : PipelineEvent → Prop
  | .popRaw _ chosen => 0 < s.rawQueue → s.reader = .waiting → chosen ≠ .parser
  | .pop _ chosen => 0 < s.queue → 0 < s.pushWaiting → chosen ≠ .reader
  | a => s.FailsFirst a

instance FailsFirst.decidable (s : Pipeline) : ∀ a, Decidable (s.FailsFirst a)
  | .parserFails => inferInstanceAs (Decidable (s.failed = false))
  | .pushRaw | .readerDone | .readerFails | .popRaw _ _ | .push _ | .parserDone | .pop _ _
  | .consumerFails => .isTrue trivial

instance Meant.decidable (s : Pipeline) : ∀ a, Decidable (s.Meant a)
  | .popRaw _ chosen =>
      inferInstanceAs (Decidable (0 < s.rawQueue → s.reader = .waiting → chosen ≠ .parser))
  | .pop _ chosen =>
      inferInstanceAs (Decidable (0 < s.queue → 0 < s.pushWaiting → chosen ≠ .reader))
  | .pushRaw | .readerDone | .readerFails | .push _ | .parserDone | .consumerFails =>
      .isTrue trivial
  | .parserFails => FailsFirst.decidable s .parserFails

end Pipeline

/-- A pipeline starts with all its threads running. -/
def pipeline (cfg : PipelineConfig) : System Pipeline PipelineEvent where
  init := { reader := .running, unread := cfg.batches, rawQueue := 0, queue := 0
            activeParsers := cfg.parsers, readerDone := false, aborted := false, failed := false
            popping := cfg.parsers, popWaiting := 0, popNotified := 0
            pushing := 0, pushWaiting := 0, pushNotified := 0, leaving := 0
            consuming := cfg.consumers, consumerWaiting := 0, consumerNotified := 0
            consumersDone := 0 }
  step := Pipeline.step cfg

/-! ## the flow of notifications -/

namespace Pipeline

/-- Whoever waits has been promised a notification, or waits rightly. -/
structure Flow (cfg : PipelineConfig) (s : Pipeline) : Prop where
  /-- The reader waits only while the raw queue is full. -/
  readerWaits : s.reader = .waiting → cfg.capacity ≤ s.rawQueue
  readerUnread : s.reader = .waiting ∨ s.reader = .notified → 0 < s.unread
  readerDone : s.readerDone = true ↔ s.reader = .done
  doneUnread : s.reader = .done → s.unread = 0
  /-- Each raw batch has a parser coming for it, while some parser waits. -/
  popWaits : 0 < s.popWaiting → s.rawQueue ≤ s.popNotified ∧ s.readerDone = false
  /-- Free parsed space has a parser coming for it, while some parser waits. -/
  pushWaits : 0 < s.pushWaiting → cfg.capacity ≤ s.queue + s.pushNotified
  /-- Each parsed batch has a consumer coming for it, while some consumer waits. -/
  consumerWaits : 0 < s.consumerWaiting → s.queue ≤ s.consumerNotified ∧
    (s.readerDone = true → 0 < s.activeParsers)
  /-- A parser leaves only behind the last raw batch. -/
  parserLeaves : s.leaving ≠ 0 ∨ s.activeParsers < cfg.parsers →
    s.rawQueue = 0 ∧ s.readerDone = true
  consumerLeaves : 0 < s.consumersDone →
    s.queue = 0 ∧ s.readerDone = true ∧ s.activeParsers = 0
  parserCount : s.popping + s.popWaiting + s.popNotified + s.pushing + s.pushWaiting +
    s.pushNotified + s.leaving = s.activeParsers
  active_le : s.activeParsers ≤ cfg.parsers
  consumerCount : s.consuming + s.consumerWaiting + s.consumerNotified + s.consumersDone =
    cfg.consumers
  remaining_le : s.unread + s.rawQueue + s.pushing + s.pushWaiting + s.pushNotified + s.queue ≤
    cfg.batches

variable {cfg : PipelineConfig} {s s' t : Pipeline} {chosen : ProducerWaiter}

/-- Before the first step every thread runs. -/
theorem Flow.init (cfg : PipelineConfig) : Flow cfg (pipeline cfg).init := by
  constructor <;> simp [pipeline]

/-- While the reader is at work, `readerDone` says of another phase at work that
it is not the end. -/
theorem Flow.readerDone_iff (h : Flow cfg s) (hreader : s.reader ≠ .done) {reader : ReaderPhase}
    (hreader' : reader ≠ .done) : s.readerDone = true ↔ reader = .done := by
  constructor
  · intro hdone
    exact absurd (h.readerDone.mp hdone) hreader
  · intro hdone
    exact absurd hdone hreader'

/-- No parser leaves while the reader is at work. -/
theorem Flow.not_leaving (h : Flow cfg s) (hreader : s.reader ≠ .done) :
    ¬ (s.leaving ≠ 0 ∨ s.activeParsers < cfg.parsers) := by
  intro hleft
  exact hreader (h.readerDone.mp (h.parserLeaves hleft).2)

theorem Flow.pushRaw (h : Flow cfg s) (hrun : s.aborted = false)
    (hreader : s.reader = .running ∨ s.reader = .notified) (hunread : 0 < s.unread) :
    Flow cfg (s.pushRaw cfg) := by
  have hparsers := h.parserCount
  have hremaining := h.remaining_le
  have hatWork : s.reader ≠ .done := by
    obtain hreader | hreader := hreader <;> simp [hreader]
  unfold Pipeline.pushRaw notifyParser
  rw [if_neg (by simp [hrun])]
  by_cases hroom : s.rawQueue < cfg.capacity
  · rw [if_pos hroom]
    by_cases hwait : 0 < s.popWaiting
    · obtain ⟨hle, hdone⟩ := h.popWaits hwait
      rw [if_pos hwait]
      exact { h with
        readerWaits := fun hwait => (nomatch hwait)
        readerUnread := fun hwait => hwait.elim (fun h' => (nomatch h')) fun h' => (nomatch h')
        readerDone := h.readerDone_iff hatWork nofun
        doneUnread := fun hdone => (nomatch hdone)
        popWaits := fun _ => ⟨by simp only; omega, hdone⟩
        parserLeaves := fun hleft => absurd hleft (h.not_leaving hatWork)
        parserCount := by simp only; omega
        remaining_le := by simp only; omega }
    · rw [if_neg hwait]
      exact { h with
        readerWaits := fun hwait => (nomatch hwait)
        readerUnread := fun hwait => hwait.elim (fun h' => (nomatch h')) fun h' => (nomatch h')
        readerDone := h.readerDone_iff hatWork nofun
        doneUnread := fun hdone => (nomatch hdone)
        popWaits := fun hwait' => absurd hwait' hwait
        parserLeaves := fun hleft => absurd hleft (h.not_leaving hatWork)
        remaining_le := by simp only; omega }
  · rw [if_neg hroom]
    exact { h with
      readerWaits := fun _ => Nat.le_of_not_lt hroom
      readerUnread := fun _ => hunread
      readerDone := h.readerDone_iff hatWork nofun
      doneUnread := fun hdone => (nomatch hdone) }

/-- The end of the reader wakes every waiting parser and consumer. -/
theorem Flow.endReader (h : Flow cfg s) (hreader : s.reader = .running) :
    Flow cfg s.endReader := by
  have hparsers := h.parserCount
  have hremaining := h.remaining_le
  have hconsumers := h.consumerCount
  have hatWork : s.reader ≠ .done := by simp [hreader]
  exact { h with
    readerWaits := fun hwait => (nomatch hwait)
    readerUnread := fun hwait => hwait.elim (fun h' => (nomatch h')) fun h' => (nomatch h')
    readerDone := ⟨fun _ => rfl, fun _ => rfl⟩
    doneUnread := fun _ => rfl
    popWaits := fun hwait => (nomatch hwait)
    consumerWaits := fun hwait => (nomatch hwait)
    parserLeaves := fun hleft => absurd hleft (h.not_leaving hatWork)
    consumerLeaves := fun hgone => absurd (h.readerDone.mp (h.consumerLeaves hgone).2.1) hatWork
    parserCount := by simp only [Pipeline.endReader, notifyParsers, notifyConsumers]; omega
    consumerCount := by simp only [Pipeline.endReader, notifyParsers, notifyConsumers]; omega
    remaining_le := by simp only [Pipeline.endReader, notifyParsers, notifyConsumers]; omega }

/-- Whom a notification on `producer_cv` wakes. -/
theorem notifyProducer_cases (h : s.notifyProducer chosen = some s') :
    (chosen = .reader ∧ s.reader = .waiting ∧ s' = { s with reader := .notified }) ∨
    (chosen = .parser ∧ 0 < s.pushWaiting ∧
      s' = { s with pushWaiting := s.pushWaiting - 1, pushNotified := s.pushNotified + 1 }) ∨
    (chosen = .nobody ∧ s.reader ≠ .waiting ∧ s.pushWaiting = 0 ∧ s' = s) := by
  cases chosen with
  | reader =>
      simp only [notifyProducer, Option.ite_none_right_eq_some, Option.some.injEq] at h
      exact .inl ⟨rfl, h.1, h.2.symm⟩
  | parser =>
      simp only [notifyProducer, Option.ite_none_right_eq_some, Option.some.injEq] at h
      exact .inr (.inl ⟨rfl, h.1, h.2.symm⟩)
  | nobody =>
      simp only [notifyProducer, Option.ite_none_right_eq_some, Option.some.injEq] at h
      exact .inr (.inr ⟨rfl, h.1.1, h.1.2, h.2.symm⟩)

/-- How `PopRaw` ends: the parser waits, it is told to leave, or it has a batch
and one waiter is chosen. -/
theorem popRaw_cases (hrun : s.aborted = false) (h : s.popRaw chosen = some s') :
    (s.rawQueue = 0 ∧ s.readerDone = false ∧ s' = { s with popWaiting := s.popWaiting + 1 }) ∨
    (s.rawQueue = 0 ∧ s.readerDone = true ∧ s' = { s with leaving := s.leaving + 1 }) ∨
    (0 < s.rawQueue ∧ { s with rawQueue := s.rawQueue - 1
                               pushing := s.pushing + 1 }.notifyProducer chosen = some s') := by
  unfold popRaw at h
  split at h
  · next hwait =>
    exact .inl ⟨hwait.1, by simpa using hwait.2.1, (Option.some.inj h).symm⟩
  · next hgo =>
    split at h
    · next hempty =>
      have hraw : s.rawQueue = 0 := by simpa [hrun] using hempty
      exact .inr (.inl ⟨hraw, by simpa [hraw, hrun] using hgo, (Option.some.inj h).symm⟩)
    · next hraw =>
      exact .inr (.inr ⟨by simp [hrun] at hraw; omega, h⟩)

theorem Flow.popRaw {popping popNotified : Nat} (h : Flow cfg s) (hrun : s.aborted = false)
    (hcount : popping + popNotified + 1 = s.popping + s.popNotified)
    (hnotified : s.popNotified ≤ popNotified + 1)
    (hmeant : 0 < s.rawQueue → s.reader = .waiting → chosen ≠ .parser)
    (hstep : { s with popping, popNotified }.popRaw chosen = some s') : Flow cfg s' := by
  have hparsers := h.parserCount
  have hremaining := h.remaining_le
  rcases popRaw_cases (s := { s with popping, popNotified }) hrun hstep with
    ⟨hraw, hdone, rfl⟩ | ⟨hraw, hdone, rfl⟩ | ⟨hraw, hnotify⟩
  · exact { h with
      popWaits := fun _ => ⟨by simp only at hraw ⊢; omega, hdone⟩
      parserCount := by simp only; omega }
  · exact { h with
      popWaits := fun hwait => absurd (h.popWaits hwait).2
        (by simp [show s.readerDone = true from hdone])
      parserLeaves := fun _ => ⟨hraw, hdone⟩
      parserCount := by simp only; omega }
  · have hraw : 0 < s.rawQueue := hraw
    have hpop : 0 < s.popWaiting → s.rawQueue - 1 ≤ popNotified ∧ s.readerDone = false := by
      intro hwait
      obtain ⟨hle, hdone⟩ := h.popWaits hwait
      exact ⟨by omega, hdone⟩
    have hleaves : s.leaving ≠ 0 ∨ s.activeParsers < cfg.parsers →
        s.rawQueue - 1 = 0 ∧ s.readerDone = true := by
      intro hleft
      obtain ⟨hempty, -⟩ := h.parserLeaves hleft
      omega
    rcases notifyProducer_cases hnotify with ⟨-, hw, rfl⟩ | ⟨rfl, hw, rfl⟩ | ⟨-, hw, hp, rfl⟩
    · have hw : s.reader = .waiting := hw
      have hatWork : s.reader ≠ .done := by simp [hw]
      exact { h with
        readerWaits := fun hwait => (nomatch hwait)
        readerUnread := fun _ => h.readerUnread (.inl hw)
        readerDone := h.readerDone_iff hatWork nofun
        doneUnread := fun hdone => (nomatch hdone)
        popWaits := hpop
        parserLeaves := hleaves
        parserCount := by simp only; omega
        remaining_le := by simp only; omega }
    · have hw : 0 < s.pushWaiting := hw
      have hpush := h.pushWaits hw
      exact { h with
        readerWaits := fun hwait => absurd rfl (hmeant hraw hwait)
        popWaits := hpop
        parserLeaves := hleaves
        pushWaits := fun _ => by simp only; omega
        parserCount := by simp only; omega
        remaining_le := by simp only; omega }
    · exact { h with
        readerWaits := fun hwait => absurd hwait hw
        popWaits := hpop
        parserLeaves := hleaves
        parserCount := by simp only; omega
        remaining_le := by simp only; omega }

theorem Flow.push {pushing pushNotified : Nat} (h : Flow cfg s) (hrun : s.aborted = false)
    (hcount : pushing + pushNotified + 1 = s.pushing + s.pushNotified)
    (hnotified : s.pushNotified ≤ pushNotified + 1) :
    Flow cfg ({ s with pushing, pushNotified }.push cfg) := by
  have hparsers := h.parserCount
  have hremaining := h.remaining_le
  have hconsumers := h.consumerCount
  -- a parser that pushes is active, so no consumer is gone
  have hstay : s.consumersDone = 0 := by
    by_contra hgone
    have hleft := h.consumerLeaves (by omega)
    omega
  unfold Pipeline.push notifyConsumer
  rw [if_neg (by simp [hrun])]
  by_cases hroom : s.queue < cfg.capacity
  · have hpush : 0 < s.pushWaiting → cfg.capacity ≤ s.queue + 1 + pushNotified := by
      intro hwait
      have hfull := h.pushWaits hwait
      omega
    rw [if_pos hroom]
    by_cases hwait : 0 < s.consumerWaiting
    · obtain ⟨hle, hactive⟩ := h.consumerWaits hwait
      rw [if_pos hwait]
      exact { h with
        pushWaits := hpush
        consumerWaits := fun _ => ⟨by simp only; omega, hactive⟩
        consumerLeaves := fun hgone => absurd hstay (Nat.ne_of_gt hgone)
        parserCount := by simp only; omega
        consumerCount := by simp only; omega
        remaining_le := by simp only; omega }
    · rw [if_neg hwait]
      exact { h with
        pushWaits := hpush
        consumerWaits := fun hwait' => absurd hwait' hwait
        consumerLeaves := fun hgone => absurd hstay (Nat.ne_of_gt hgone)
        parserCount := by simp only; omega
        remaining_le := by simp only; omega }
  · rw [if_neg hroom]
    exact { h with
      pushWaits := fun _ => by simp only; omega
      parserCount := by simp only; omega
      remaining_le := by simp only; omega }

/-- How `Pop` ends: the consumer waits, it is told to leave, or it has a batch
and one waiter is chosen. -/
theorem pop_cases (hrun : s.aborted = false) (h : s.pop chosen = some s') :
    (s.queue = 0 ∧ (s.readerDone = true → s.activeParsers ≠ 0) ∧
      s' = { s with consumerWaiting := s.consumerWaiting + 1 }) ∨
    (s.queue = 0 ∧ s.readerDone = true ∧ s.activeParsers = 0 ∧
      s' = { s with consumersDone := s.consumersDone + 1 }) ∨
    (0 < s.queue ∧ { s with queue := s.queue - 1
                            consuming := s.consuming + 1 }.notifyProducer chosen = some s') := by
  unfold pop at h
  split at h
  · next hwait =>
    exact .inl ⟨hwait.1, by simpa using hwait.2.2, (Option.some.inj h).symm⟩
  · next hgo =>
    split at h
    · next hempty =>
      have hqueue : s.queue = 0 := by simpa [hrun] using hempty
      have hdone : s.readerDone = true ∧ s.activeParsers = 0 := by simpa [hqueue, hrun] using hgo
      exact .inr (.inl ⟨hqueue, hdone.1, hdone.2, (Option.some.inj h).symm⟩)
    · next hqueue =>
      exact .inr (.inr ⟨by simp [hrun] at hqueue; omega, h⟩)

theorem Flow.pop {consuming consumerNotified : Nat} (h : Flow cfg s) (hrun : s.aborted = false)
    (hcount : consuming + consumerNotified + 1 = s.consuming + s.consumerNotified)
    (hnotified : s.consumerNotified ≤ consumerNotified + 1)
    (hmeant : 0 < s.queue → 0 < s.pushWaiting → chosen ≠ .reader)
    (hstep : { s with consuming, consumerNotified }.pop chosen = some s') : Flow cfg s' := by
  have hparsers := h.parserCount
  have hremaining := h.remaining_le
  have hconsumers := h.consumerCount
  rcases pop_cases (s := { s with consuming, consumerNotified }) hrun hstep with
    ⟨hqueue, hnone, rfl⟩ | ⟨hqueue, hdone, hnone, rfl⟩ | ⟨hqueue, hnotify⟩
  · have hqueue : s.queue = 0 := hqueue
    exact { h with
      consumerWaits := fun _ => ⟨by simp only; omega, fun hdone => Nat.pos_of_ne_zero (hnone hdone)⟩
      consumerCount := by simp only; omega }
  · have hqueue : s.queue = 0 := hqueue
    have hnone : s.activeParsers = 0 := hnone
    exact { h with
      consumerWaits := fun hwait =>
        absurd ((h.consumerWaits hwait).2 hdone)
          (by simp only [hnone, Nat.lt_irrefl, not_false_eq_true])
      consumerLeaves := fun _ => ⟨hqueue, hdone, hnone⟩
      consumerCount := by simp only; omega }
  · have hqueue : 0 < s.queue := hqueue
    have hwaits : 0 < s.consumerWaiting → s.queue - 1 ≤ consumerNotified ∧
        (s.readerDone = true → 0 < s.activeParsers) := by
      intro hwait
      obtain ⟨hle, hactive⟩ := h.consumerWaits hwait
      exact ⟨by omega, hactive⟩
    have hstay : s.consumersDone = 0 := by
      by_contra hgone
      have hleft := h.consumerLeaves (by omega)
      omega
    rcases notifyProducer_cases hnotify with ⟨rfl, hw, rfl⟩ | ⟨-, hw, rfl⟩ | ⟨-, hw, hp, rfl⟩
    · have hw : s.reader = .waiting := hw
      have hatWork : s.reader ≠ .done := by simp [hw]
      exact { h with
        readerWaits := fun hwait => (nomatch hwait)
        readerUnread := fun _ => h.readerUnread (.inl hw)
        readerDone := h.readerDone_iff hatWork nofun
        doneUnread := fun hdone => (nomatch hdone)
        pushWaits := fun hwait => absurd rfl (hmeant hqueue hwait)
        consumerWaits := hwaits
        consumerLeaves := fun hgone => absurd hstay (Nat.ne_of_gt hgone)
        consumerCount := by simp only; omega
        remaining_le := by simp only; omega }
    · have hw : 0 < s.pushWaiting := hw
      have hpush := h.pushWaits hw
      exact { h with
        pushWaits := fun _ => by simp only; omega
        consumerWaits := hwaits
        consumerLeaves := fun hgone => absurd hstay (Nat.ne_of_gt hgone)
        parserCount := by simp only; omega
        consumerCount := by simp only; omega
        remaining_le := by simp only; omega }
    · have hp : s.pushWaiting = 0 := hp
      exact { h with
        pushWaits := fun hwait => absurd hp (Nat.ne_of_gt hwait)
        consumerWaits := hwaits
        consumerLeaves := fun hgone => absurd hstay (Nat.ne_of_gt hgone)
        consumerCount := by simp only; omega
        remaining_le := by simp only; omega }

/-- The end of a parser wakes every waiting consumer. -/
theorem Flow.parserDone (h : Flow cfg s) (hleaving : 0 < s.leaving) :
    Flow cfg { s with leaving := s.leaving - 1
                      activeParsers := s.activeParsers - 1 }.notifyConsumers := by
  have hparsers := h.parserCount
  have hactive := h.active_le
  have hconsumers := h.consumerCount
  have hleaves := h.parserLeaves (.inl (by omega))
  exact { h with
    consumerWaits := fun hwait => (nomatch hwait)
    parserLeaves := fun _ => hleaves
    consumerLeaves := fun hgone => by
      obtain ⟨hqueue, hdone, hnone⟩ := h.consumerLeaves hgone
      exact ⟨hqueue, hdone, by simp only [notifyConsumers]; omega⟩
    parserCount := by simp only [notifyConsumers]; omega
    active_le := by simp only [notifyConsumers]; omega
    consumerCount := by simp only [notifyConsumers]; omega }

/-- **One event** whose notification is meant for its waiter keeps the flow,
unless it aborts. -/
theorem Flow.step {a : PipelineEvent} (h : Flow cfg s) (hrun : s.aborted = false)
    (hmeant : s.Meant a) (hstep : s.step cfg a = some s') : s'.aborted = true ∨ Flow cfg s' := by
  cases a with
  | pushRaw =>
      simp only [Pipeline.step, Option.ite_none_right_eq_some, Option.some.injEq] at hstep
      obtain ⟨⟨hreader, hunread⟩, rfl⟩ := hstep
      exact .inr (h.pushRaw hrun hreader hunread)
  | readerDone =>
      simp only [Pipeline.step, Option.ite_none_right_eq_some, Option.some.injEq] at hstep
      obtain ⟨⟨hreader, -⟩, rfl⟩ := hstep
      exact .inr (h.endReader hreader)
  | readerFails =>
      simp only [Pipeline.step, Option.ite_none_right_eq_some, Option.some.injEq] at hstep
      obtain ⟨hreader, rfl⟩ := hstep
      have hfailed : Flow cfg { s with failed := true } := { h with }
      exact .inr (hfailed.endReader hreader)
  | popRaw first chosen =>
      cases first with
      | true =>
          simp only [Pipeline.step, Option.ite_none_right_eq_some] at hstep
          exact .inr (h.popRaw hrun (by omega) (by omega) hmeant hstep.2)
      | false =>
          simp only [Pipeline.step, Option.ite_none_right_eq_some] at hstep
          exact .inr (h.popRaw hrun (by omega) (by omega) hmeant hstep.2)
  | push first =>
      cases first with
      | true =>
          simp only [Pipeline.step, Option.ite_none_right_eq_some, Option.some.injEq] at hstep
          exact .inr (hstep.2 ▸ h.push hrun (by omega) (by omega))
      | false =>
          simp only [Pipeline.step, Option.ite_none_right_eq_some, Option.some.injEq] at hstep
          exact .inr (hstep.2 ▸ h.push hrun (by omega) (by omega))
  | parserDone =>
      simp only [Pipeline.step, Option.ite_none_right_eq_some, Option.some.injEq] at hstep
      obtain ⟨hleaving, rfl⟩ := hstep
      exact .inr (h.parserDone hleaving)
  | parserFails =>
      have hfirst : s.failed = false := hmeant
      simp only [Pipeline.step, hfirst, Bool.false_eq_true, if_false,
        Option.ite_none_right_eq_some, Option.some.injEq] at hstep
      exact .inl (hstep.2 ▸ rfl)
  | pop first chosen =>
      cases first with
      | true =>
          simp only [Pipeline.step, Option.ite_none_right_eq_some] at hstep
          exact .inr (h.pop hrun (by omega) (by omega) hmeant hstep.2)
      | false =>
          simp only [Pipeline.step, Option.ite_none_right_eq_some] at hstep
          exact .inr (h.pop hrun (by omega) (by omega) hmeant hstep.2)
  | consumerFails =>
      simp only [Pipeline.step, Option.ite_none_right_eq_some, Option.some.injEq] at hstep
      exact .inl (hstep.2 ▸ rfl)

/-- Nothing takes an abort back. -/
theorem popRaw_aborted (h : s.popRaw chosen = some s') (hrun : s.aborted = true) :
    s'.aborted = true := by
  unfold popRaw at h
  simp only [hrun, Bool.not_true, Bool.false_eq_true, and_false, if_false, or_true, if_true,
    Option.some.injEq] at h
  rw [← h]

theorem pop_aborted (h : s.pop chosen = some s') (hrun : s.aborted = true) :
    s'.aborted = true := by
  unfold pop at h
  simp only [hrun, Bool.not_true, Bool.false_eq_true, false_and, and_false, if_false, true_or,
    if_true, Option.some.injEq] at h
  rw [← h]

theorem step_aborted {a : PipelineEvent} (h : s.step cfg a = some s') (hrun : s.aborted = true) :
    s'.aborted = true := by
  cases a with
  | pushRaw =>
      simp only [Pipeline.step, Option.ite_none_right_eq_some, Option.some.injEq] at h
      rw [← h.2, Pipeline.pushRaw, if_pos hrun]
      exact hrun
  | readerDone =>
      simp only [Pipeline.step, Option.ite_none_right_eq_some, Option.some.injEq] at h
      exact h.2 ▸ hrun
  | readerFails =>
      simp only [Pipeline.step, Option.ite_none_right_eq_some, Option.some.injEq] at h
      exact h.2 ▸ hrun
  | popRaw first chosen =>
      cases first with
      | true =>
          simp only [Pipeline.step, Option.ite_none_right_eq_some] at h
          exact popRaw_aborted h.2 hrun
      | false =>
          simp only [Pipeline.step, Option.ite_none_right_eq_some] at h
          exact popRaw_aborted h.2 hrun
  | push first =>
      cases first with
      | true =>
          simp only [Pipeline.step, Option.ite_none_right_eq_some, Option.some.injEq] at h
          rw [← h.2, Pipeline.push, if_pos hrun]
          exact hrun
      | false =>
          simp only [Pipeline.step, Option.ite_none_right_eq_some, Option.some.injEq] at h
          rw [← h.2, Pipeline.push, if_pos hrun]
          exact hrun
  | parserDone =>
      simp only [Pipeline.step, Option.ite_none_right_eq_some, Option.some.injEq] at h
      exact h.2 ▸ hrun
  | parserFails =>
      simp only [Pipeline.step, Option.ite_none_right_eq_some] at h
      obtain ⟨-, h⟩ := h
      split at h
      · obtain rfl := Option.some.inj h
        exact hrun
      · obtain rfl := Option.some.inj h
        rfl
  | pop first chosen =>
      cases first with
      | true =>
          simp only [Pipeline.step, Option.ite_none_right_eq_some] at h
          exact pop_aborted h.2 hrun
      | false =>
          simp only [Pipeline.step, Option.ite_none_right_eq_some] at h
          exact pop_aborted h.2 hrun
  | consumerFails =>
      simp only [Pipeline.step, Option.ite_none_right_eq_some, Option.some.injEq] at h
      exact h.2 ▸ rfl

/-! ## no deadlock -/

/-- Some waiter is there to be chosen, or nobody is. -/
theorem exists_notifyProducer (s : Pipeline) : ∃ chosen s', s.notifyProducer chosen = some s' := by
  by_cases hreader : s.reader = .waiting
  · exact ⟨.reader, _, if_pos hreader⟩
  · by_cases hpush : 0 < s.pushWaiting
    · exact ⟨.parser, _, if_pos hpush⟩
    · exact ⟨.nobody, _, if_pos ⟨hreader, by omega⟩⟩

theorem exists_popRaw (s : Pipeline) : ∃ chosen s', s.popRaw chosen = some s' := by
  unfold popRaw
  split
  · exact ⟨.nobody, _, rfl⟩
  · split
    · exact ⟨.nobody, _, rfl⟩
    · exact exists_notifyProducer _

theorem exists_pop (s : Pipeline) : ∃ chosen s', s.pop chosen = some s' := by
  unfold pop
  split
  · exact ⟨.nobody, _, rfl⟩
  · split
    · exact ⟨.nobody, _, rfl⟩
    · exact exists_notifyProducer _

/-- Where no event is enabled, every thread waits or is gone. -/
theorem blocked (h : ∀ a, s.step cfg a = none) :
    s.popping = 0 ∧ s.popNotified = 0 ∧ s.pushing = 0 ∧ s.pushNotified = 0 ∧ s.leaving = 0 ∧
      s.consuming = 0 ∧ s.consumerNotified = 0 ∧ s.reader ≠ .running ∧
      (s.reader = .notified → s.unread = 0) := by
  have hpopRaw : ∀ t : Pipeline, ¬ ∀ chosen, t.popRaw chosen = none := by
    intro t hnone
    obtain ⟨chosen, s', hsome⟩ := exists_popRaw t
    simp [hnone chosen] at hsome
  have hpop : ∀ t : Pipeline, ¬ ∀ chosen, t.pop chosen = none := by
    intro t hnone
    obtain ⟨chosen, s', hsome⟩ := exists_pop t
    simp [hnone chosen] at hsome
  refine ⟨?_, ?_, ?_, ?_, ?_, ?_, ?_, ?_, ?_⟩
  · by_contra hpos
    refine hpopRaw { s with popping := s.popping - 1 } fun chosen => ?_
    have hstep := h (.popRaw true chosen)
    rwa [Pipeline.step, if_pos (by omega)] at hstep
  · by_contra hpos
    refine hpopRaw { s with popNotified := s.popNotified - 1 } fun chosen => ?_
    have hstep := h (.popRaw false chosen)
    rwa [Pipeline.step, if_pos (by omega)] at hstep
  · have hstep := h (.push true)
    simp only [Pipeline.step, ite_eq_right_iff, reduceCtorEq, imp_false] at hstep
    omega
  · have hstep := h (.push false)
    simp only [Pipeline.step, ite_eq_right_iff, reduceCtorEq, imp_false] at hstep
    omega
  · have hstep := h .parserDone
    simp only [Pipeline.step, ite_eq_right_iff, reduceCtorEq, imp_false] at hstep
    omega
  · by_contra hpos
    refine hpop { s with consuming := s.consuming - 1 } fun chosen => ?_
    have hstep := h (.pop true chosen)
    rwa [Pipeline.step, if_pos (by omega)] at hstep
  · by_contra hpos
    refine hpop { s with consumerNotified := s.consumerNotified - 1 } fun chosen => ?_
    have hstep := h (.pop false chosen)
    rwa [Pipeline.step, if_pos (by omega)] at hstep
  · have hstep := h .readerFails
    simpa only [Pipeline.step, ite_eq_right_iff, reduceCtorEq, imp_false] using hstep
  · intro hreader
    have hstep := h .pushRaw
    simp only [Pipeline.step, ite_eq_right_iff, reduceCtorEq, imp_false, hreader] at hstep
    simpa using hstep

/-- A state with the flow is not stuck: whoever waits rightly has somebody else
to wait for, and that one is enabled. -/
theorem Flow.not_stuck (h : Flow cfg s) : ¬ s.Stuck cfg := by
  rintro ⟨hremaining, -, hnone⟩
  obtain ⟨hpop, hpopN, hpush, hpushN, hleave, hcons, hconsN, hrun, hnot⟩ := blocked hnone
  have hcap := cfg.capacity_pos
  have hparsers := cfg.parsers_pos
  have hconsumers := cfg.consumers_pos
  have hnotified : s.reader ≠ .notified := by
    intro heq
    have hunread := h.readerUnread (.inr heq)
    have hzero := hnot heq
    omega
  -- no consumer is left if a parser waits in `Push`: the parsed queue is full
  have hpushW : s.pushWaiting = 0 := by
    by_contra hpos
    have hfull := h.pushWaits (by omega)
    have hgone := h.consumerLeaves
    have hwait := h.consumerWaits
    have hcount := h.consumerCount
    have hactive := h.parserCount
    omega
  -- no parser is left if the reader waits: the raw queue is full
  have hreader : s.reader = .done := by
    cases hphase : s.reader with
    | running => exact absurd hphase hrun
    | notified => exact absurd hphase hnotified
    | done => rfl
    | waiting =>
        have hfull := h.readerWaits hphase
        have hwait := h.popWaits
        have hleaves := h.parserLeaves
        have hcount := h.parserCount
        omega
  have hdone : s.readerDone = true := h.readerDone.mpr hreader
  have hpopW : s.popWaiting = 0 := by
    by_contra hpos
    have hwait := (h.popWaits (by omega)).2
    rw [hdone] at hwait
    exact nomatch hwait
  have hactive : s.activeParsers = 0 := by
    have hcount := h.parserCount
    omega
  have hconsW : s.consumerWaiting = 0 := by
    by_contra hpos
    have hwait := (h.consumerWaits (by omega)).2 hdone
    omega
  have hqueue : s.queue = 0 := by
    have hcount := h.consumerCount
    exact (h.consumerLeaves (by omega)).1
  have hraw : s.rawQueue = 0 := (h.parserLeaves (.inr (by omega))).1
  have hunread : s.unread = 0 := h.doneUnread hreader
  simp only [remaining] at hremaining
  omega

end Pipeline

/-- A notification of `PopRaw` goes to the parser only if one waits. -/
theorem Pipeline.popRaw_wakes_pusher {s s' : Pipeline} (hrun : s.aborted = false)
    (hraw : 0 < s.rawQueue)
    (h : s.popRaw .parser = some s') : 0 < s.pushWaiting := by
  rcases popRaw_cases hrun h with ⟨hzero, -⟩ | ⟨hzero, -⟩ | ⟨-, hnotify⟩
  · omega
  · omega
  · rcases notifyProducer_cases hnotify with ⟨hne, -⟩ | ⟨-, hpush, -⟩ | ⟨hne, -⟩
    · exact nomatch hne
    · exact hpush
    · exact nomatch hne

/-- A notification of `Pop` goes to the reader only if it waits. -/
theorem Pipeline.pop_reader {s s' : Pipeline} (hrun : s.aborted = false) (hqueue : 0 < s.queue)
    (h : s.pop .reader = some s') : s.reader = .waiting := by
  rcases pop_cases hrun h with ⟨hzero, -⟩ | ⟨hzero, -⟩ | ⟨-, hnotify⟩
  · omega
  · omega
  · rcases notifyProducer_cases hnotify with ⟨-, hreader, -⟩ | ⟨hne, -⟩ | ⟨hne, -⟩
    · exact hreader
    · exact nomatch hne
    · exact nomatch hne

/-- Without enough batches to fill both queues, the reader and a parser never
wait at once, so every notification reaches the right waiter. -/
theorem Pipeline.Flow.meant {cfg : PipelineConfig} {s s' : Pipeline} {a : PipelineEvent}
    (h : Flow cfg s) (hrun : s.aborted = false) (hfew : cfg.batches ≤ 2 * cfg.capacity + 1)
    (hfirst : s.FailsFirst a) (hstep : s.step cfg a = some s') : s.Meant a := by
  have hnot : s.reader = .waiting → s.pushWaiting = 0 := by
    intro hreader
    have hraw := h.readerWaits hreader
    have hunread := h.readerUnread (.inl hreader)
    have hpush := h.pushWaits
    have htotal := h.remaining_le
    omega
  cases a with
  | popRaw first chosen =>
      rintro hraw hreader rfl
      have hpush : 0 < s.pushWaiting := by
        cases first with
        | true =>
            simp only [Pipeline.step, Option.ite_none_right_eq_some] at hstep
            exact popRaw_wakes_pusher (s := { s with popping := s.popping - 1 }) hrun hraw hstep.2
        | false =>
            simp only [Pipeline.step, Option.ite_none_right_eq_some] at hstep
            exact popRaw_wakes_pusher (s := { s with popNotified := s.popNotified - 1 })
              hrun hraw hstep.2
      have hzero := hnot hreader
      omega
  | pop first chosen =>
      rintro hqueue hpush rfl
      have hreader : s.reader = .waiting := by
        cases first with
        | true =>
            simp only [Pipeline.step, Option.ite_none_right_eq_some] at hstep
            exact pop_reader (s := { s with consuming := s.consuming - 1 }) hrun hqueue hstep.2
        | false =>
            simp only [Pipeline.step, Option.ite_none_right_eq_some] at hstep
            exact pop_reader (s := { s with consumerNotified := s.consumerNotified - 1 })
              hrun hqueue
              hstep.2
      have hzero := hnot hreader
      omega
  | pushRaw | readerDone | readerFails | push | parserDone | parserFails | consumerFails =>
      exact hfirst

/-- Every run keeps the flow in which each notification that is issued is meant
for its waiter, or there are too few batches to fill both queues. -/
theorem pipeline_flow (cfg : PipelineConfig) {guard : Pipeline → PipelineEvent → Prop}
    (hguard : ∀ s a s', s.aborted = false → Pipeline.Flow cfg s → guard s a →
      s.step cfg a = some s' → s.Meant a) {s : Pipeline} (h : Reachable (pipeline cfg) guard s) :
    s.aborted = true ∨ Pipeline.Flow cfg s := by
  refine h.invariant (fun s => s.aborted = true ∨ Pipeline.Flow cfg s) (.inr (.init cfg)) ?_
  intro s a s' hinv hg hstep
  cases hrun : s.aborted with
  | false =>
      have hflow := hinv.resolve_left (by simp [hrun])
      exact hflow.step hrun (hguard s a s' hrun hflow hg hstep) hstep
  | true => exact .inl (Pipeline.step_aborted hstep hrun)

theorem Pipeline.not_stuck {cfg : PipelineConfig} {s : Pipeline}
    (h : s.aborted = true ∨ Pipeline.Flow cfg s) : ¬ s.Stuck cfg := by
  rcases h with haborted | hflow
  · rintro ⟨-, hrun, -⟩
    rw [haborted] at hrun
    exact nomatch hrun
  · exact hflow.not_stuck

/-- **No deadlock**: in every run in which each notification on `producer_cv`
chooses a waiter for the space that was freed, and a parser that fails is the
first to fail, no state is stuck; and on a file of too few batches to fill both
queues the notifications do not matter. -/
theorem pipeline_not_stuck (cfg : PipelineConfig) (s : Pipeline) :
    (Reachable (pipeline cfg) Pipeline.Meant s → ¬ s.Stuck cfg) ∧
    (cfg.batches ≤ 2 * cfg.capacity + 1 → Reachable (pipeline cfg) Pipeline.FailsFirst s →
      ¬ s.Stuck cfg) :=
  ⟨fun h => Pipeline.not_stuck (pipeline_flow cfg (fun _ _ _ _ _ hmeant _ => hmeant) h),
    fun hfew h => Pipeline.not_stuck
      (pipeline_flow cfg
        (fun _ _ _ hrun hflow hfirst hstep => hflow.meant hrun hfew hfirst hstep) h)⟩

/-- A pipeline with one place in each queue and one thread of each kind. -/
def narrow (batches : Nat) : PipelineConfig where
  capacity := 1
  parsers := 1
  consumers := 1
  batches := batches
  capacity_pos := Nat.zero_lt_one
  parsers_pos := Nat.zero_lt_one
  consumers_pos := Nat.zero_lt_one

/-- Four batches; the parser waits for parsed space and the reader for raw space. -/
def bothWait : List PipelineEvent :=
  [.pushRaw, .popRaw true .nobody, .push true, .pushRaw, .popRaw true .nobody, .push true, .pushRaw,
    .pushRaw]

/-- While the reader and the parser wait, the consumer takes a batch and its notification goes to
the parser; with batches left and the reader still waiting, the pipeline is not stuck. -/
theorem pipeline_not_stuck_narrow : ∃ s s' : Pipeline,
    (pipeline (narrow 4)).run bothWait = some s ∧ s.reader = .waiting ∧ s.pushWaiting = 1 ∧
      s.step (narrow 4) (.pop true .parser) = some s' ∧ s'.reader = .waiting ∧
      s'.remaining = 3 ∧ s'.aborted = false ∧ ¬ s'.Stuck (narrow 4) := by
  refine ⟨_, _, rfl, rfl, rfl, rfl, rfl, rfl, rfl, (pipeline_not_stuck (narrow 4) _).1 ?_⟩
  exact @Reachable.of_guarded _ _ _ _ _ _ (bothWait ++ [.pop true .parser]) .init (by decide) rfl

/-- Four batches: when the parser waits for parsed space and the reader for raw
space, the consumer's notification goes to the reader. -/
def wrongWaiter : List PipelineEvent :=
  [.pushRaw, .popRaw true .nobody, .push true, .pushRaw, .popRaw true .nobody, .push true, .pushRaw,
    .pushRaw, .pop true .reader, .pushRaw, .pop true .nobody]

/-- The parser has been forgotten, and nothing moves any more. -/
theorem pipeline_stuck : ∃ s, (pipeline (narrow 4)).run wrongWaiter = some s ∧
    s.Stuck (narrow 4) := by
  refine ⟨_, rfl, by decide, rfl, fun a => ?_⟩
  cases a with
  | pushRaw => rfl
  | readerDone => rfl
  | readerFails => rfl
  | popRaw first chosen => cases first <;> rfl
  | push first => cases first <;> rfl
  | parserDone => rfl
  | parserFails => rfl
  | pop first chosen => cases first <;> rfl
  | consumerFails => rfl

end RawDuck
