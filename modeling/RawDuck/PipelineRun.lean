import RawDuck.ConditionVariable
import RawDuck.IngestFile
import RawDuck.Pipeline
import RawDuck.TaskCounter
import Mathlib.Data.Multiset.MapFold

/-!
# RawDuck.PipelineRun

`raw_ingest_file` thread by thread: the reader, each parser, each consumer and
the thread of the statement, with the batches they hold, their waits on the three
condition variables of `RawIngestPipeline`, and what they raise.

A step is one critical section, or what a thread does between two of them.  The
label of a step says whom `notify_one` chooses, and whether a call that leaves
this file raised.

* `PipelineSetup` — the sizes the settings allow: none of them is 0;
* `PipelineRun.step` — the steps of all threads;
* `Move`, `step_move` — what a step does, stated once for all that follows.
-/

namespace RawDuck

open Transition Transition.System ConditionVariable TaskCounter

/-! ## the threads -/

/-- What the threads of one call run under. -/
structure PipelineSetup where
  duck : Duck
  options : RawParseOptions
  capacity : Nat
  parsers : Nat
  consumers : Nat
  capacity_pos : 0 < capacity
  parsers_pos : 0 < parsers
  consumers_pos : 0 < consumers

/-- A setting of `RawWriteSettings::Get`: what is not positive leaves the default. -/
def positiveSetting (value : Option Int) (default : Nat) : Nat :=
  match value with
  | some n => if 0 < n then n.toNat else default
  | none => default

/-- `MAX_PIPELINE_THREADS` -/
def maxPipelineThreads : Nat := 16

/-- `PipelineThreadCount` -/
def pipelineThreadCount (hardwareConcurrency pipelineThreads : Nat) : Nat :=
  if pipelineThreads > 0 then min pipelineThreads maxPipelineThreads
  else max 1 (min (hardwareConcurrency * 2 / 3) maxPipelineThreads)

/-- `PipelineConsumerCount` -/
def pipelineConsumerCount (pipelineConsumers : Nat) : Nat :=
  if pipelineConsumers > 0 then min pipelineConsumers maxPipelineThreads else 1

theorem positiveSetting_pos (value : Option Int) {default : Nat} (h : 0 < default) :
    0 < positiveSetting value default := by
  unfold positiveSetting
  split
  · split <;> omega
  · exact h

theorem pipelineThreadCount_pos (hardwareConcurrency pipelineThreads : Nat) :
    0 < pipelineThreadCount hardwareConcurrency pipelineThreads := by
  unfold pipelineThreadCount maxPipelineThreads
  split <;> omega

theorem pipelineConsumerCount_pos (pipelineConsumers : Nat) :
    0 < pipelineConsumerCount pipelineConsumers := by
  unfold pipelineConsumerCount maxPipelineThreads
  split <;> omega

/-- The setup under `rawduck_pipeline_threads`, `rawduck_pipeline_consumers` and
`rawduck_pipeline_depth`. -/
def PipelineSetup.ofSettings (duck : Duck) (options : RawParseOptions) (hardwareConcurrency : Nat)
    (threads consumers depth : Option Int) : PipelineSetup where
  duck
  options
  capacity := positiveSetting depth 4
  parsers := pipelineThreadCount hardwareConcurrency (positiveSetting threads 0)
  consumers := pipelineConsumerCount (positiveSetting consumers 0)
  capacity_pos := positiveSetting_pos depth (by decide)
  parsers_pos := pipelineThreadCount_pos ..
  consumers_pos := pipelineConsumerCount_pos _

/-- Where a parser stands. -/
inductive ParserPhase where
  /-- About to call `PopRaw`, in its wait, and notified there. -/
  | popping
  | popWaiting
  | popNotified
  /-- In `Process`. -/
  | parsing (batch : Bytes)
  /-- About to call `Push`, in its wait, and notified there. -/
  | pushing (item : PipelineItem)
  | pushWaiting (item : PipelineItem)
  | pushNotified (item : PipelineItem)
  /-- About to call `ParserDone`. -/
  | leaving (error : Option RawError)
  | gone

/-- Where a consumer stands; `hasPending` is its `has_pending`. -/
inductive ConsumerPhase where
  /-- About to call `Pop`, in its wait, and notified there. -/
  | popping (hasPending : Bool)
  | waiting (hasPending : Bool)
  | notified (hasPending : Bool)
  /-- In `coalesce_and_ingest`. -/
  | ingesting (hasPending : Bool)
  /-- Behind the loop. -/
  | flushing (hasPending : Bool)
  /-- The loop raised. -/
  | failing (error : RawError)
  | gone
  deriving DecidableEq

/-- Where the thread of the statement stands.  A single consumer runs on it. -/
inductive MainPhase where
  /-- About to create the ingestor. -/
  | creating
  | consuming
  /-- About to call `Finish`. -/
  | finishing
  /-- In the `catch` block, before `Abort`. -/
  | catching (error : RawError)
  /-- In `join_all`, with what is thrown behind it. -/
  | joining (error : Option RawError)
  | ended (outcome : Except RawError Unit)

namespace ParserPhase

/-- Waiting on `parser_cv`. -/
def wokenRaw : ParserPhase → Option ParserPhase
  | .popWaiting => some .popNotified
  | _ => none

/-- Waiting on `producer_cv`. -/
def wokenPush : ParserPhase → Option ParserPhase
  | .pushWaiting item => some (.pushNotified item)
  | _ => none

end ParserPhase

/-- Waiting on `consumer_cv`. -/
def ConsumerPhase.woken : ConsumerPhase → Option ConsumerPhase
  | .waiting hasPending => some (.notified hasPending)
  | _ => none

/-- `RawIngestPipeline`, its threads, and a log of what happened: the batches the
reader pushed, the items consumers received, and the errors raised. -/
structure PipelineRun where
  reader : ReaderPhase
  /-- The batches the reader has not pushed. -/
  unread : List Bytes
  rawQueue : List Bytes
  queue : List PipelineItem
  activeParsers : Nat
  readerDone : Bool
  aborted : Bool
  error : Option RawError
  parsers : List ParserPhase
  consumers : List ConsumerPhase
  consumerError : Option RawError
  main : MainPhase
  pushed : List Bytes
  received : List PipelineItem
  raised : List RawError

/-- Whom `notify_one` chooses on `producer_cv`. -/
inductive ProducerChoice where
  | reader
  | parser (i : Nat)
  | nobody
  deriving DecidableEq

/-- A waiting thread that wakes without a notification. -/
inductive SpuriousWake where
  | reader
  | parser (i : Nat)
  | consumer (j : Nat)

/-- What happens next. -/
inductive RunEvent where
  | pushRaw (chosen : Option Nat)
  /-- `ReaderDone`; `error` is what reading raised. -/
  | readerDone (error : Option RawError)
  | popRaw (i : Nat) (chosen : ProducerChoice)
  /-- `RawParsedPayload::Process`. -/
  | parse (i : Nat)
  | push (i : Nat) (chosen : Option Nat)
  | parserDone (i : Nat)
  /-- The ingestor is created, or that raises. -/
  | create (error : Option RawError)
  | pop (j : Nat) (chosen : ProducerChoice)
  /-- `coalesce_and_ingest`. -/
  | ingest (j : Nat) (error : Option RawError)
  /-- The last ingest of a consumer. -/
  | flush (j : Nat) (error : Option RawError)
  /-- The `catch` block around the loop of a consumer. -/
  | fail (j : Nat)
  | joinConsumers
  | finish (error : Option RawError)
  /-- The `catch` block of the statement. -/
  | rescue
  | joinAll
  | spurious (wake : SpuriousWake)

namespace PipelineRun

/-! ## notifications -/

def setParser (s : PipelineRun) (i : Nat) (phase : ParserPhase) : PipelineRun :=
  { s with parsers := s.parsers.set i phase }

def setConsumer (s : PipelineRun) (j : Nat) (phase : ConsumerPhase) : PipelineRun :=
  { s with consumers := s.consumers.set j phase }

/-- `producer_cv.notify_one()`: the reader waits on it for raw space, parsers wait
for parsed space. -/
def notifyProducer (s : PipelineRun) : ProducerChoice → Option PipelineRun
  | .reader => if s.reader = .waiting then some { s with reader := .notified } else none
  | .parser i =>
      (notifyOne ParserPhase.wokenPush s.parsers (some i)).map fun parsers => { s with parsers }
  | .nobody =>
      if s.reader = .waiting then none
      else (notifyOne ParserPhase.wokenPush s.parsers none).map fun parsers => { s with parsers }

/-- `producer_cv.notify_all()`. -/
def notifyProducers (s : PipelineRun) : PipelineRun :=
  { s with
    reader := if s.reader = .waiting then .notified else s.reader
    parsers := notifyAll ParserPhase.wokenPush s.parsers }

/-- `parser_cv.notify_all()`. -/
def notifyParsers (s : PipelineRun) : PipelineRun :=
  { s with parsers := notifyAll ParserPhase.wokenRaw s.parsers }

/-- `consumer_cv.notify_all()`. -/
def notifyConsumers (s : PipelineRun) : PipelineRun :=
  { s with consumers := notifyAll ConsumerPhase.woken s.consumers }

/-- `Abort`. -/
def abort (s : PipelineRun) : PipelineRun :=
  { s with aborted := true, readerDone := true }.notifyParsers.notifyProducers

/-! ## the steps -/

variable (cfg : PipelineSetup) (s : PipelineRun)

/-- `PushRaw`. -/
def pushRaw (chosen : Option Nat) : Option PipelineRun :=
  match s.unread with
  | [] => none
  | batch :: rest =>
      if s.reader = .running ∨ s.reader = .notified then
        if s.aborted then some { s with reader := .running, unread := rest }
        else if s.rawQueue.length < cfg.capacity then
          (notifyOne ParserPhase.wokenRaw s.parsers chosen).map fun parsers =>
            { s with
              reader := .running
              unread := rest
              rawQueue := s.rawQueue ++ [batch]
              pushed := s.pushed ++ [batch]
              parsers }
        else some { s with reader := .waiting }
      else none

/-- `ReaderDone`. -/
def readerEnds (error : Option RawError) : Option PipelineRun :=
  if s.reader = .running ∧ (error.isSome ∨ s.unread = []) then
    some { s with
      reader := .done
      unread := []
      readerDone := true
      error := s.error.or error
      raised := s.raised ++ error.toList }.notifyParsers.notifyConsumers
  else none

/-- `PopRaw`. -/
def popRaw (i : Nat) (chosen : ProducerChoice) : Option PipelineRun :=
  match s.parsers[i]? with
  | some .popping | some .popNotified =>
      match s.rawQueue with
      | [] =>
          if s.readerDone || s.aborted then some (s.setParser i (.leaving none))
          else some (s.setParser i .popWaiting)
      | batch :: rest =>
          if s.aborted then some (s.setParser i (.leaving none))
          else ({ s with rawQueue := rest }.setParser i (.parsing batch)).notifyProducer chosen
  | _ => none

/-- `Process` of the batch of a parser. -/
def parse (i : Nat) : Option PipelineRun :=
  match s.parsers[i]? with
  | some (.parsing batch) =>
      match process cfg.duck cfg.options batch with
      | .ok parsed => some (s.setParser i (.pushing ⟨parsed, batch⟩))
      | .error e => some ({ s with raised := s.raised ++ [e] }.setParser i (.leaving (some e)))
  | _ => none

/-- `Push`. -/
def push (i : Nat) (chosen : Option Nat) : Option PipelineRun :=
  match s.parsers[i]? with
  | some (.pushing item) | some (.pushNotified item) =>
      if s.aborted then some (s.setParser i .popping)
      else if s.queue.length < cfg.capacity then
        (notifyOne ConsumerPhase.woken s.consumers chosen).map fun consumers =>
          { s with queue := s.queue ++ [item], consumers }.setParser i .popping
      else some (s.setParser i (.pushWaiting item))
  | _ => none

/-- `ParserDone`. -/
def parserDone (i : Nat) : Option PipelineRun :=
  match s.parsers[i]? with
  | some (.leaving error) =>
      let left := { s with activeParsers := s.activeParsers - 1 }.setParser i .gone
      -- an error behind the first one neither is recorded nor aborts
      if error.isSome ∧ s.error.isNone then
        some { left with error, aborted := true }.notifyParsers.notifyProducers.notifyConsumers
      else some left.notifyConsumers
  | _ => none

/-- The ingestor is created, and the consumers start. -/
def create (error : Option RawError) : Option PipelineRun :=
  match s.main, error with
  | .creating, none =>
      some { s with
        main := .consuming
        consumers := List.replicate cfg.consumers (.popping false) }
  | .creating, some e => some { s with main := .catching e, raised := s.raised ++ [e] }
  | _, _ => none

/-- `Pop`. -/
def pop (j : Nat) (chosen : ProducerChoice) : Option PipelineRun :=
  match s.consumers[j]? with
  | some (.popping hasPending) | some (.notified hasPending) =>
      match s.queue with
      | [] =>
          if s.aborted || (s.readerDone && s.activeParsers = 0) then
            some (s.setConsumer j (.flushing hasPending))
          else some (s.setConsumer j (.waiting hasPending))
      | item :: rest =>
          if s.aborted then some (s.setConsumer j (.flushing hasPending))
          else ({ s with queue := rest, received := s.received ++ [item] }.setConsumer j
            (.ingesting hasPending)).notifyProducer chosen
  | _ => none

/-- A consumer raises. -/
def raises (j : Nat) (e : RawError) : PipelineRun :=
  { s with raised := s.raised ++ [e] }.setConsumer j (.failing e)

/-- `coalesce_and_ingest`: the first item is only kept. -/
def ingest (j : Nat) (error : Option RawError) : Option PipelineRun :=
  match s.consumers[j]?, error with
  | some (.ingesting _), none => some (s.setConsumer j (.popping true))
  | some (.ingesting true), some e => some (s.raises j e)
  | _, _ => none

/-- The ingest of the item that is pending when `Pop` has returned false. -/
def flush (j : Nat) (error : Option RawError) : Option PipelineRun :=
  match s.consumers[j]?, error with
  | some (.flushing _), none => some (s.setConsumer j .gone)
  | some (.flushing true), some e => some (s.raises j e)
  | _, _ => none

/-- A consumer thread records its error and aborts.  A single consumer has no
`catch` block of its own: the one of the statement aborts and joins. -/
def fail (j : Nat) : Option PipelineRun :=
  match s.consumers[j]? with
  | some (.failing e) =>
      if 1 < cfg.consumers then
        some ({ s with consumerError := s.consumerError.or (some e) }.setConsumer j .gone).abort
      else some ({ s with main := .joining (some e) }.setConsumer j .gone).abort
  | _ => none

/-- The consumers are joined, and `consumer_error` is rethrown. -/
def joinConsumers : Option PipelineRun :=
  match s.main with
  | .consuming =>
      if s.consumers.all (· = .gone) then
        match s.consumerError with
        | some e => some { s with main := .catching e }
        | none => some { s with main := .finishing }
      else none
  | _ => none

/-- `Finish`. -/
def finish (error : Option RawError) : Option PipelineRun :=
  match s.main, error with
  | .finishing, none => some { s with main := .joining none }
  | .finishing, some e => some { s with main := .catching e, raised := s.raised ++ [e] }
  | _, _ => none

/-- The `catch` block of the statement. -/
def rescue : Option PipelineRun :=
  match s.main with
  | .catching e => some { s with main := .joining (some e) }.abort
  | _ => none

/-- Every parser has ended. -/
def parsersGone : Bool := s.parsers.all fun p => p matches .gone

/-- `join_all`, and what the statement throws. -/
def joinAll : Option PipelineRun :=
  match s.main with
  | .joining error =>
      if s.reader = .done ∧ s.parsersGone then
        match error.or s.error with
        | some e => some { s with main := .ended (.error e) }
        | none => some { s with main := .ended (.ok ⟨⟩) }
      else none
  | _ => none

/-- A wait that ends by itself. -/
def wakes : SpuriousWake → Option PipelineRun
  | .reader => if s.reader = .waiting then some { s with reader := .notified } else none
  | .parser i =>
      match s.parsers[i]? with
      | some .popWaiting => some (s.setParser i .popNotified)
      | some (.pushWaiting item) => some (s.setParser i (.pushNotified item))
      | _ => none
  | .consumer j =>
      match s.consumers[j]? with
      | some (.waiting hasPending) => some (s.setConsumer j (.notified hasPending))
      | _ => none

/-- One event. -/
def step : RunEvent → Option PipelineRun
  | .pushRaw chosen => s.pushRaw cfg chosen
  | .readerDone error => s.readerEnds error
  | .popRaw i chosen => s.popRaw i chosen
  | .parse i => s.parse cfg i
  | .push i chosen => s.push cfg i chosen
  | .parserDone i => s.parserDone i
  | .create error => s.create cfg error
  | .pop j chosen => s.pop j chosen
  | .ingest j error => s.ingest j error
  | .flush j error => s.flush j error
  | .fail j => s.fail cfg j
  | .joinConsumers => s.joinConsumers
  | .finish error => s.finish error
  | .rescue => s.rescue
  | .joinAll => s.joinAll
  | .spurious wake => s.wakes wake

end PipelineRun

/-- `raw_ingest_file` over the batches of a file. -/
def pipelineRun (cfg : PipelineSetup) (batches : List Bytes) : System PipelineRun RunEvent where
  init :=
    { reader := .running, unread := batches, rawQueue := [], queue := []
      activeParsers := cfg.parsers, readerDone := false, aborted := false, error := none
      parsers := List.replicate cfg.parsers .popping, consumers := [], consumerError := none
      main := .creating, pushed := [], received := [], raised := [] }
  step := PipelineRun.step cfg

/-! ## what a step does -/

namespace PipelineRun

/-- A notification on `producer_cv`: the reader, a parser in `Push`, or nobody
because nobody waits. -/
inductive ProducerNotified (reader : ReaderPhase) (parsers : List ParserPhase) :
    ProducerChoice → ReaderPhase → List ParserPhase → Prop where
  | reader (waits : reader = .waiting) : ProducerNotified reader parsers .reader .notified parsers
  | parser {i : Nat} {item : PipelineItem} (waits : parsers[i]? = some (.pushWaiting item)) :
      ProducerNotified reader parsers (.parser i) reader (parsers.set i (.pushNotified item))
  | nobody (reader_ne : reader ≠ .waiting) (quiet : Quiet ParserPhase.wokenPush parsers) :
      ProducerNotified reader parsers .nobody reader parsers

/-- What one step does. -/
inductive Move (cfg : PipelineSetup) (s : PipelineRun) : RunEvent → PipelineRun → Prop where
  | dropRaw {chosen : Option Nat} {batch : Bytes} {rest : List Bytes}
      (unread : s.unread = batch :: rest) (aborted : s.aborted = true)
      (reader : s.reader = .running ∨ s.reader = .notified) :
      Move cfg s (.pushRaw chosen) { s with reader := .running, unread := rest }
  | pushRaw {chosen : Option Nat} {batch : Bytes} {rest : List Bytes} {parsers : List ParserPhase}
      (unread : s.unread = batch :: rest) (flowing : s.aborted = false)
      (reader : s.reader = .running ∨ s.reader = .notified)
      (notified : notifyOne ParserPhase.wokenRaw s.parsers chosen = some parsers) :
      Move cfg s (.pushRaw chosen)
        { s with
          reader := .running, unread := rest, rawQueue := s.rawQueue ++ [batch]
          pushed := s.pushed ++ [batch], parsers }
  | waitRaw {chosen : Option Nat} {batch : Bytes} {rest : List Bytes}
      (unread : s.unread = batch :: rest) (flowing : s.aborted = false)
      (reader : s.reader = .running ∨ s.reader = .notified) :
      Move cfg s (.pushRaw chosen) { s with reader := .waiting }
  | readerDone {error : Option RawError} (reader : s.reader = .running) :
      Move cfg s (.readerDone error)
        { s with
          reader := .done, unread := [], readerDone := true, error := s.error.or error
          raised := s.raised ++ error.toList
          parsers := notifyAll ParserPhase.wokenRaw s.parsers
          consumers := notifyAll ConsumerPhase.woken s.consumers }
  | popWait {i : Nat} {chosen : ProducerChoice} {p : ParserPhase} (parser : s.parsers[i]? = some p)
      (popping : p = .popping ∨ p = .popNotified) (rawQueue : s.rawQueue = [])
      (readerDone : s.readerDone = false) (flowing : s.aborted = false) :
      Move cfg s (.popRaw i chosen) { s with parsers := s.parsers.set i .popWaiting }
  | popLeave {i : Nat} {chosen : ProducerChoice} {p : ParserPhase} (parser : s.parsers[i]? = some p)
      (popping : p = .popping ∨ p = .popNotified)
      (ends : s.aborted = true ∨ (s.readerDone = true ∧ s.rawQueue = [])) :
      Move cfg s (.popRaw i chosen) { s with parsers := s.parsers.set i (.leaving none) }
  | popTake {i : Nat} {chosen : ProducerChoice} {p : ParserPhase} {batch : Bytes}
      {rest : List Bytes}
      {reader : ReaderPhase} {parsers : List ParserPhase} (parser : s.parsers[i]? = some p)
      (popping : p = .popping ∨ p = .popNotified) (rawQueue : s.rawQueue = batch :: rest)
      (flowing : s.aborted = false)
      (notified :
        ProducerNotified s.reader (s.parsers.set i (.parsing batch)) chosen reader parsers) :
      Move cfg s (.popRaw i chosen) { s with rawQueue := rest, reader, parsers }
  | parse {i : Nat} {batch : Bytes} {parsed : RawParsedPayload}
      (parser : s.parsers[i]? = some (.parsing batch))
      (process_eq : process cfg.duck cfg.options batch = .ok parsed) :
      Move cfg s (.parse i) { s with parsers := s.parsers.set i (.pushing ⟨parsed, batch⟩) }
  | parseFails {i : Nat} {batch : Bytes} {e : RawError}
      (parser : s.parsers[i]? = some (.parsing batch))
      (process_eq : process cfg.duck cfg.options batch = .error e) :
      Move cfg s (.parse i)
        { s with raised := s.raised ++ [e], parsers := s.parsers.set i (.leaving (some e)) }
  | drop {i : Nat} {chosen : Option Nat} {p : ParserPhase} {item : PipelineItem}
      (parser : s.parsers[i]? = some p) (pushing : p = .pushing item ∨ p = .pushNotified item)
      (aborted : s.aborted = true) :
      Move cfg s (.push i chosen) { s with parsers := s.parsers.set i .popping }
  | push {i : Nat} {chosen : Option Nat} {p : ParserPhase} {item : PipelineItem}
      {consumers : List ConsumerPhase} (parser : s.parsers[i]? = some p)
      (pushing : p = .pushing item ∨ p = .pushNotified item) (flowing : s.aborted = false)
      (notified : notifyOne ConsumerPhase.woken s.consumers chosen = some consumers) :
      Move cfg s (.push i chosen)
        { s with queue := s.queue ++ [item], consumers, parsers := s.parsers.set i .popping }
  | pushWait {i : Nat} {chosen : Option Nat} {p : ParserPhase} {item : PipelineItem}
      (parser : s.parsers[i]? = some p) (pushing : p = .pushing item ∨ p = .pushNotified item)
      (flowing : s.aborted = false) (full : cfg.capacity ≤ s.queue.length) :
      Move cfg s (.push i chosen) { s with parsers := s.parsers.set i (.pushWaiting item) }
  | parserFails {i : Nat} {e : RawError} (parser : s.parsers[i]? = some (.leaving (some e)))
      (first : s.error = none) :
      Move cfg s (.parserDone i)
        { s with activeParsers := s.activeParsers - 1, error := some e, aborted := true
                 parsers := s.parsers.set i .gone }.notifyParsers.notifyProducers.notifyConsumers
  | parserDone {i : Nat} {error : Option RawError} (parser : s.parsers[i]? = some (.leaving error))
      (recorded : error.isSome = true → s.error.isSome = true) :
      Move cfg s (.parserDone i)
        { s with activeParsers := s.activeParsers - 1, parsers := s.parsers.set i .gone
                 consumers := notifyAll ConsumerPhase.woken s.consumers }
  | create (main : s.main = .creating) :
      Move cfg s (.create none)
        { s with main := .consuming, consumers := List.replicate cfg.consumers (.popping false) }
  | createFails {e : RawError} (main : s.main = .creating) :
      Move cfg s (.create (some e)) { s with main := .catching e, raised := s.raised ++ [e] }
  | wait {j : Nat} {chosen : ProducerChoice} {c : ConsumerPhase} {hasPending : Bool}
      (consumer : s.consumers[j]? = some c)
      (popping : c = .popping hasPending ∨ c = .notified hasPending) (queue : s.queue = [])
      (flowing : s.aborted = false) (active : s.readerDone = true → s.activeParsers ≠ 0) :
      Move cfg s (.pop j chosen) { s with consumers := s.consumers.set j (.waiting hasPending) }
  | leave {j : Nat} {chosen : ProducerChoice} {c : ConsumerPhase} {hasPending : Bool}
      (consumer : s.consumers[j]? = some c)
      (popping : c = .popping hasPending ∨ c = .notified hasPending)
      (ends : s.aborted = true ∨ (s.activeParsers = 0 ∧ s.queue = [])) :
      Move cfg s (.pop j chosen) { s with consumers := s.consumers.set j (.flushing hasPending) }
  | receive {j : Nat} {chosen : ProducerChoice} {c : ConsumerPhase} {hasPending : Bool}
      {item : PipelineItem} {rest : List PipelineItem} {reader : ReaderPhase}
      {parsers : List ParserPhase} (consumer : s.consumers[j]? = some c)
      (popping : c = .popping hasPending ∨ c = .notified hasPending)
      (queue : s.queue = item :: rest)
      (flowing : s.aborted = false)
      (notified : ProducerNotified s.reader s.parsers chosen reader parsers) :
      Move cfg s (.pop j chosen)
        { s with queue := rest, received := s.received ++ [item], reader, parsers
                 consumers := s.consumers.set j (.ingesting hasPending) }
  | ingest {j : Nat} {hasPending : Bool}
      (consumer : s.consumers[j]? = some (.ingesting hasPending)) :
      Move cfg s (.ingest j none) { s with consumers := s.consumers.set j (.popping true) }
  | ingestFails {j : Nat} {e : RawError} (consumer : s.consumers[j]? = some (.ingesting true)) :
      Move cfg s (.ingest j (some e))
        { s with raised := s.raised ++ [e], consumers := s.consumers.set j (.failing e) }
  | flush {j : Nat} {hasPending : Bool} (consumer : s.consumers[j]? = some (.flushing hasPending)) :
      Move cfg s (.flush j none) { s with consumers := s.consumers.set j .gone }
  | flushFails {j : Nat} {e : RawError} (consumer : s.consumers[j]? = some (.flushing true)) :
      Move cfg s (.flush j (some e))
        { s with raised := s.raised ++ [e], consumers := s.consumers.set j (.failing e) }
  | fail {j : Nat} {e : RawError} (consumer : s.consumers[j]? = some (.failing e)) :
      Move cfg s (.fail j)
        { s with consumerError := s.consumerError.or (some e)
                 consumers := s.consumers.set j .gone }.abort
  | failAlone {j : Nat} {e : RawError} (consumer : s.consumers[j]? = some (.failing e)) :
      Move cfg s (.fail j)
        { s with main := .joining (some e), consumers := s.consumers.set j .gone }.abort
  | rethrow {e : RawError} (main : s.main = .consuming) (consumerError : s.consumerError = some e) :
      Move cfg s .joinConsumers { s with main := .catching e }
  | joinConsumers (main : s.main = .consuming) (gone : ∀ c ∈ s.consumers, c = .gone)
      (consumerError : s.consumerError = none) :
      Move cfg s .joinConsumers { s with main := .finishing }
  | finish (main : s.main = .finishing) : Move cfg s (.finish none) { s with main := .joining none }
  | finishFails {e : RawError} (main : s.main = .finishing) :
      Move cfg s (.finish (some e)) { s with main := .catching e, raised := s.raised ++ [e] }
  | rescue {e : RawError} (main : s.main = .catching e) :
      Move cfg s .rescue { s with main := .joining (some e) }.abort
  | raise {error : Option RawError} {e : RawError} (main : s.main = .joining error)
      (error_eq : error.or s.error = some e) :
      Move cfg s .joinAll { s with main := .ended (.error e) }
  | return (main : s.main = .joining none) (error : s.error = none) (reader : s.reader = .done)
      (gone : ∀ p ∈ s.parsers, p = .gone) : Move cfg s .joinAll { s with main := .ended (.ok ⟨⟩) }
  | wakeReader (reader : s.reader = .waiting) :
      Move cfg s (.spurious .reader) { s with reader := .notified }
  | wakePop {i : Nat} (parser : s.parsers[i]? = some .popWaiting) :
      Move cfg s (.spurious (.parser i)) { s with parsers := s.parsers.set i .popNotified }
  | wakePush {i : Nat} {item : PipelineItem} (parser : s.parsers[i]? = some (.pushWaiting item)) :
      Move cfg s (.spurious (.parser i)) { s with parsers := s.parsers.set i (.pushNotified item) }
  | wakeConsumer {j : Nat} {hasPending : Bool}
      (consumer : s.consumers[j]? = some (.waiting hasPending)) :
      Move cfg s (.spurious (.consumer j))
        { s with consumers := s.consumers.set j (.notified hasPending) }

variable {cfg : PipelineSetup} {s s' t : PipelineRun}

theorem wokenPush_eq_some {p p' : ParserPhase} :
    p.wokenPush = some p' ↔ ∃ item, p = .pushWaiting item ∧ p' = .pushNotified item := by
  cases p <;> simp [ParserPhase.wokenPush, eq_comm]

/-- Whom `notify_one` wakes on `producer_cv`. -/
theorem notifyProducer_cases {chosen : ProducerChoice} (h : s.notifyProducer chosen = some s') :
    ∃ reader parsers, ProducerNotified s.reader s.parsers chosen reader parsers ∧
      s' = { s with reader, parsers } := by
  cases chosen with
  | reader =>
      simp only [notifyProducer, Option.ite_none_right_eq_some, Option.some.injEq] at h
      exact ⟨.notified, s.parsers, .reader h.1, h.2.symm⟩
  | parser i =>
      simp only [notifyProducer, Option.map_eq_some_iff] at h
      obtain ⟨parsers, hnotify, rfl⟩ := h
      obtain ⟨hnone, -⟩ | ⟨k, p, p', hk, hp, hwoken, rfl⟩ := notifyOne_cases hnotify
      · exact nomatch hnone
      · obtain rfl := Option.some.inj hk
        obtain ⟨item, rfl, rfl⟩ := wokenPush_eq_some.mp hwoken
        exact ⟨s.reader, _, .parser hp, rfl⟩
  | nobody =>
      simp only [notifyProducer, Option.ite_none_left_eq_some, Option.map_eq_some_iff] at h
      obtain ⟨hreader, parsers, hnotify, rfl⟩ := h
      obtain ⟨-, hquiet, rfl⟩ | ⟨k, p, p', hk, -⟩ := notifyOne_cases hnotify
      · exact ⟨s.reader, s.parsers, .nobody hreader hquiet, rfl⟩
      · exact nomatch hk

/-- **What a step does**: every step is one of the moves. -/
theorem step_move {a : RunEvent} (h : s.step cfg a = some s') : Move cfg s a s' := by
  cases a with
  | pushRaw chosen =>
      simp only [step, PipelineRun.pushRaw] at h
      split at h
      · exact nomatch h
      · next batch rest hunread =>
        split at h
        · next hreader =>
          split at h
          · next haborted =>
            obtain rfl := Option.some.inj h
            exact .dropRaw hunread haborted hreader
          · next hflowing =>
            rw [Bool.not_eq_true] at hflowing
            split at h
            · obtain ⟨parsers, hnotify, rfl⟩ := Option.map_eq_some_iff.mp h
              exact .pushRaw hunread hflowing hreader hnotify
            · obtain rfl := Option.some.inj h
              exact .waitRaw hunread hflowing hreader
        · exact nomatch h
  | readerDone error =>
      simp only [step, readerEnds, Option.ite_none_right_eq_some, Option.some.injEq] at h
      obtain ⟨⟨hreader, -⟩, rfl⟩ := h
      exact .readerDone hreader
  | popRaw i chosen =>
      have hpop : ∀ p, s.parsers[i]? = some p → p = .popping ∨ p = .popNotified →
          (match s.rawQueue with
            | [] =>
                if s.readerDone || s.aborted then some (s.setParser i (.leaving none))
                else some (s.setParser i .popWaiting)
            | batch :: rest =>
                if s.aborted then some (s.setParser i (.leaving none))
                else ({ s with rawQueue := rest }.setParser i
                    (.parsing batch)).notifyProducer chosen) =
            some s' → Move cfg s (.popRaw i chosen) s' := by
        intro p hp hpopping h
        split at h
        · next hraw =>
          split at h
          · next hends =>
            obtain rfl := Option.some.inj h
            rw [Bool.or_eq_true] at hends
            exact .popLeave hp hpopping (hends.symm.imp id fun hdone => ⟨hdone, hraw⟩)
          · next hgo =>
            obtain rfl := Option.some.inj h
            simp only [Bool.or_eq_true, not_or, Bool.not_eq_true] at hgo
            exact .popWait hp hpopping hraw hgo.1 hgo.2
        · next batch rest hraw =>
          split at h
          · next haborted =>
            obtain rfl := Option.some.inj h
            exact .popLeave hp hpopping (.inl haborted)
          · next hflowing =>
            rw [Bool.not_eq_true] at hflowing
            obtain ⟨reader, parsers, hnotified, rfl⟩ := notifyProducer_cases h
            exact .popTake hp hpopping hraw hflowing hnotified
      simp only [step, PipelineRun.popRaw] at h
      split at h
      · next hp => exact hpop _ hp (.inl rfl) h
      · next hp => exact hpop _ hp (.inr rfl) h
      · exact nomatch h
  | parse i =>
      simp only [step, PipelineRun.parse] at h
      split at h
      · next batch hp =>
        split at h
        · next parsed hprocess =>
          obtain rfl := Option.some.inj h
          exact .parse hp hprocess
        · next e hprocess =>
          obtain rfl := Option.some.inj h
          exact .parseFails hp hprocess
      · exact nomatch h
  | push i chosen =>
      have hpush : ∀ p item, s.parsers[i]? = some p → p = .pushing item ∨ p = .pushNotified item →
          (if s.aborted then some (s.setParser i .popping)
            else if s.queue.length < cfg.capacity then
              (notifyOne ConsumerPhase.woken s.consumers chosen).map fun consumers =>
                { s with queue := s.queue ++ [item], consumers }.setParser i .popping
            else some (s.setParser i (.pushWaiting item))) = some s' →
          Move cfg s (.push i chosen) s' := by
        intro p item hp hpushing h
        split at h
        · next haborted =>
          obtain rfl := Option.some.inj h
          exact .drop hp hpushing haborted
        · next hflowing =>
          rw [Bool.not_eq_true] at hflowing
          split at h
          · obtain ⟨consumers, hnotify, rfl⟩ := Option.map_eq_some_iff.mp h
            exact .push hp hpushing hflowing hnotify
          · next hfull =>
            obtain rfl := Option.some.inj h
            exact .pushWait hp hpushing hflowing (Nat.le_of_not_lt hfull)
      simp only [step, PipelineRun.push] at h
      split at h
      · next item hp => exact hpush _ item hp (.inl rfl) h
      · next item hp => exact hpush _ item hp (.inr rfl) h
      · exact nomatch h
  | parserDone i =>
      simp only [step, PipelineRun.parserDone] at h
      split at h
      · next error hp =>
        split at h
        · next hfirst =>
          obtain rfl := Option.some.inj h
          obtain ⟨e, rfl⟩ := Option.isSome_iff_exists.mp hfirst.1
          exact .parserFails hp (Option.isNone_iff_eq_none.mp hfirst.2)
        · next hrecorded =>
          obtain rfl := Option.some.inj h
          refine .parserDone hp fun hsome => ?_
          cases herror : s.error with
          | none => exact absurd ⟨hsome, by rw [herror]; rfl⟩ hrecorded
          | some e => rfl
      · exact nomatch h
  | create error =>
      simp only [step, PipelineRun.create] at h
      split at h
      · next hmain =>
        obtain rfl := Option.some.inj h
        exact .create hmain
      · next e hmain =>
        obtain rfl := Option.some.inj h
        exact .createFails hmain
      · exact nomatch h
  | pop j chosen =>
      have hpop : ∀ c hasPending, s.consumers[j]? = some c →
          c = .popping hasPending ∨ c = .notified hasPending →
          (match s.queue with
            | [] =>
                if s.aborted || (s.readerDone && s.activeParsers = 0) then
                  some (s.setConsumer j (.flushing hasPending))
                else some (s.setConsumer j (.waiting hasPending))
            | item :: rest =>
                if s.aborted then some (s.setConsumer j (.flushing hasPending))
                else ({ s with queue := rest, received := s.received ++ [item] }.setConsumer j
                  (.ingesting hasPending)).notifyProducer chosen) = some s' →
          Move cfg s (.pop j chosen) s' := by
        intro c hasPending hc hpopping h
        split at h
        · next hqueue =>
          split at h
          · next hends =>
            obtain rfl := Option.some.inj h
            simp only [Bool.or_eq_true, Bool.and_eq_true, decide_eq_true_eq] at hends
            exact .leave hc hpopping (hends.imp id fun hends => ⟨hends.2, hqueue⟩)
          · next hgo =>
            obtain rfl := Option.some.inj h
            simp only [Bool.or_eq_true, Bool.and_eq_true, decide_eq_true_eq, not_or, not_and,
              Bool.not_eq_true] at hgo
            exact .wait hc hpopping hqueue hgo.1 hgo.2
        · next item rest hqueue =>
          split at h
          · next haborted =>
            obtain rfl := Option.some.inj h
            exact .leave hc hpopping (.inl haborted)
          · next hflowing =>
            rw [Bool.not_eq_true] at hflowing
            obtain ⟨reader, parsers, hnotified, rfl⟩ := notifyProducer_cases h
            exact .receive hc hpopping hqueue hflowing hnotified
      simp only [step, PipelineRun.pop] at h
      split at h
      · next hasPending hc => exact hpop _ hasPending hc (.inl rfl) h
      · next hasPending hc => exact hpop _ hasPending hc (.inr rfl) h
      · exact nomatch h
  | ingest j error =>
      simp only [step, PipelineRun.ingest] at h
      split at h
      · next hc =>
        obtain rfl := Option.some.inj h
        exact .ingest hc
      · next hc =>
        obtain rfl := Option.some.inj h
        exact .ingestFails hc
      · exact nomatch h
  | flush j error =>
      simp only [step, PipelineRun.flush] at h
      split at h
      · next hc =>
        obtain rfl := Option.some.inj h
        exact .flush hc
      · next hc =>
        obtain rfl := Option.some.inj h
        exact .flushFails hc
      · exact nomatch h
  | fail j =>
      simp only [step, PipelineRun.fail] at h
      split at h
      · next e hc =>
        split at h
        · obtain rfl := Option.some.inj h
          exact .fail hc
        · obtain rfl := Option.some.inj h
          exact .failAlone hc
      · exact nomatch h
  | joinConsumers =>
      simp only [step, PipelineRun.joinConsumers] at h
      split at h
      · next hmain =>
        split at h
        · next hgone =>
          simp only [List.all_eq_true, decide_eq_true_eq] at hgone
          split at h
          · next e hconsumer =>
            obtain rfl := Option.some.inj h
            exact .rethrow hmain hconsumer
          · next hconsumer =>
            obtain rfl := Option.some.inj h
            exact .joinConsumers hmain hgone hconsumer
        · exact nomatch h
      · exact nomatch h
  | finish error =>
      simp only [step, PipelineRun.finish] at h
      split at h
      · next hmain =>
        obtain rfl := Option.some.inj h
        exact .finish hmain
      · next e hmain =>
        obtain rfl := Option.some.inj h
        exact .finishFails hmain
      · exact nomatch h
  | rescue =>
      simp only [step, PipelineRun.rescue] at h
      split at h
      · next e hmain =>
        obtain rfl := Option.some.inj h
        exact .rescue hmain
      · exact nomatch h
  | joinAll =>
      simp only [step, PipelineRun.joinAll] at h
      split at h
      · next error hmain =>
        split at h
        · next hready =>
          split at h
          · next e herror =>
            obtain rfl := Option.some.inj h
            exact .raise hmain herror
          · next hnone =>
            obtain rfl := Option.some.inj h
            obtain ⟨rfl, herror⟩ := Option.or_eq_none_iff.mp hnone
            refine .return hmain herror hready.1 fun p hp => ?_
            have hgone := List.all_eq_true.mp hready.2 p hp
            cases p <;> simp_all
        · exact nomatch h
      · exact nomatch h
  | spurious wake =>
      cases wake with
      | reader =>
          simp only [step, wakes, Option.ite_none_right_eq_some, Option.some.injEq] at h
          obtain ⟨hreader, rfl⟩ := h
          exact .wakeReader hreader
      | parser i =>
          simp only [step, wakes] at h
          split at h
          · next hp =>
            obtain rfl := Option.some.inj h
            exact .wakePop hp
          · next item hp =>
            obtain rfl := Option.some.inj h
            exact .wakePush hp
          · exact nomatch h
      | consumer j =>
          simp only [step, wakes] at h
          split at h
          · next hasPending hc =>
            obtain rfl := Option.some.inj h
            exact .wakeConsumer hc
          · exact nomatch h

end PipelineRun

end RawDuck
