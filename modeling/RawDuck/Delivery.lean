import RawDuck.PipelineWaits
import Mathlib.Algebra.Order.Group.Multiset

/-!
# RawDuck.Delivery

What `raw_ingest_file` delivers, and what becomes of errors, in every run of its
threads.

* `Errors` — whatever was raised is recorded, or about to be, until it is thrown;
* `Books` — no batch is lost or doubled before an error;
* `Stuck.raised` — behind an error, a run that cannot go on has raised, while no
  parser in `Push` loses its notification;
* `potential_step` — runs are finite;
* `rawIngestFile_delivers` — the four of them, of every run.
-/

namespace RawDuck

open Transition Transition.System ConditionVariable TaskCounter

namespace PipelineRun

variable {cfg : PipelineSetup} {s s' t : PipelineRun} {a : RunEvent}

/-! ## raised errors -/

/-- An error is recorded, or about to be. -/
def Traced (s : PipelineRun) : Prop :=
  s.error.isSome = true ∨ 0 < total ParserPhase.errs s.parsers ∨
    0 < total ConsumerPhase.errs s.consumers ∨ s.consumerError.isSome = true ∨ s.main.failed = true

/-- What holds of the raised errors in every run. -/
structure Errors (s : PipelineRun) : Prop where
  traced : s.raised ≠ [] ↔ s.Traced
  aborted : s.aborted = true →
    s.error.isSome = true ∨ s.consumerError.isSome = true ∨ s.main.failed = true
  creating : s.main = .creating → s.consumers = []
  settled : s.main.settled = true →
    total ConsumerPhase.alive s.consumers = 0 ∧ s.consumerError = none
  returned : s.main = .ended (.ok ⟨⟩) →
    s.error = none ∧ s.reader = .done ∧ total ParserPhase.alive s.parsers = 0

/-- An abort follows an error. -/
theorem Errors.raised_of_aborted (h : Errors s) (haborted : s.aborted = true) : s.raised ≠ [] := by
  rw [h.traced]
  obtain herror | hconsumer | hmain := h.aborted haborted
  · exact .inl herror
  · exact .inr (.inr (.inr (.inl hconsumer)))
  · exact .inr (.inr (.inr (.inr hmain)))

/-- A parser that leaves with an error has raised it. -/
theorem Errors.raised_of_parser {i : Nat} {p : ParserPhase} (h : Errors s)
    (hp : s.parsers[i]? = some p) (herrs : p.errs = 1) : s.raised ≠ [] := by
  have hle := le_total hp (f := ParserPhase.errs)
  exact h.traced.mpr (.inr (.inl (by omega)))

/-- A consumer that is about to report an error has raised it. -/
theorem Errors.raised_of_consumer {j : Nat} {c : ConsumerPhase} (h : Errors s)
    (hc : s.consumers[j]? = some c) (herrs : c.errs = 1) : s.raised ≠ [] := by
  have hle := le_total hc (f := ConsumerPhase.errs)
  exact h.traced.mpr (.inr (.inr (.inl (by omega))))

/-- What the statement throws was raised. -/
theorem Errors.raised_of_main (h : Errors s) (hfailed : s.main.failed = true) : s.raised ≠ [] :=
  h.traced.mpr (.inr (.inr (.inr (.inr hfailed))))

theorem reader_atWork {reader : ReaderPhase} (h : reader = .running ∨ reader = .notified) :
    reader ≠ .done := by
  obtain rfl | rfl := h
  · exact nofun
  · exact nofun

/-- The statement has not returned while the reader is at work. -/
theorem Errors.unreturned_of_reader (h : Errors s) (hreader : s.reader ≠ .done) :
    s.main ≠ .ended (.ok ⟨⟩) := by
  intro hmain
  exact hreader (h.returned hmain).2.1

/-- The statement has not returned while a parser is at work. -/
theorem Errors.unreturned_of_parser {i : Nat} {p : ParserPhase} (h : Errors s)
    (hp : s.parsers[i]? = some p) (halive : p.alive = 1) : s.main ≠ .ended (.ok ⟨⟩) := by
  intro hmain
  have hgone := (h.returned hmain).2.2
  have hle := le_total hp (f := ParserPhase.alive)
  omega

/-- The consumers are created, and not all joined, while one is at work. -/
theorem Errors.unsettled_of_consumer {j : Nat} {c : ConsumerPhase} (h : Errors s)
    (hc : s.consumers[j]? = some c) (halive : c.alive = 1) :
    s.main ≠ .creating ∧ s.main.settled ≠ true := by
  constructor
  · intro hmain
    rw [h.creating hmain] at hc
    exact nomatch hc
  · intro hmain
    have hgone := (h.settled hmain).1
    have hle := le_total hc (f := ConsumerPhase.alive)
    omega

/-- A parser goes on without an error. -/
theorem Errors.parser {i : Nat} {p : ParserPhase} (h : Errors s) (hp : s.parsers[i]? = some p)
    (p' : ParserPhase) (halive : p.alive = 1) (herrs : p'.errs = p.errs) :
    Errors { s with parsers := s.parsers.set i p' } where
  traced := by
    rw [Traced, total_set_same hp herrs]
    exact h.traced
  aborted := h.aborted
  creating := h.creating
  settled := h.settled
  returned := fun hmain => absurd hmain (h.unreturned_of_parser hp halive)

/-- A notification on `producer_cv` changes no error. -/
theorem Errors.notifyProducer {reader : ReaderPhase} {parsers : List ParserPhase}
    {chosen : ProducerChoice} (h : Errors s)
    (hnotified : ProducerNotified s.reader s.parsers chosen reader parsers) :
    Errors { s with reader, parsers } where
  traced := by
    rw [Traced, hnotified.total_eq fun _ => rfl]
    exact h.traced
  aborted := h.aborted
  creating := h.creating
  settled := h.settled
  returned := by
    intro hmain
    obtain ⟨herror, hreader, hgone⟩ := h.returned hmain
    refine ⟨herror, ?_, (hnotified.total_eq fun _ => rfl).trans hgone⟩
    cases hnotified.reader_cases with
    | inl hsame => exact hsame.trans hreader
    | inr hwoken => simp [hreader] at hwoken

/-- A consumer goes on without an error. -/
theorem Errors.consumer {j : Nat} {c : ConsumerPhase} (h : Errors s) (hc : s.consumers[j]? = some c)
    (c' : ConsumerPhase) (halive : c.alive = 1) (herrs : c'.errs = c.errs) :
    Errors { s with consumers := s.consumers.set j c' } where
  traced := by
    rw [Traced, total_set_same hc herrs]
    exact h.traced
  aborted := h.aborted
  creating := fun hmain => absurd hmain (h.unsettled_of_consumer hc halive).1
  settled := fun hmain => absurd hmain (h.unsettled_of_consumer hc halive).2
  returned := h.returned

/-- Waking consumers changes no error. -/
theorem Errors.wakeConsumers {consumers : List ConsumerPhase} (h : Errors s)
    (hwakes : Wakes ConsumerPhase.woken s.consumers consumers) :
    Errors { s with consumers } where
  traced := by
    rw [Traced, wakes_woken (fun _ => rfl) hwakes]
    exact h.traced
  aborted := h.aborted
  creating := by
    intro hmain
    have hlength := hwakes.length_eq
    rw [h.creating hmain] at hlength
    exact List.eq_nil_of_length_eq_zero hlength
  settled := by
    intro hmain
    obtain ⟨hgone, hnone⟩ := h.settled hmain
    exact ⟨(wakes_woken (fun _ => rfl) hwakes).trans hgone, hnone⟩
  returned := h.returned

/-- A consumer raises. -/
theorem Errors.consumerFails {j : Nat} {c : ConsumerPhase} {e : RawError} (h : Errors s)
    (hc : s.consumers[j]? = some c) (halive : c.alive = 1) :
    Errors { s with raised := s.raised ++ [e], consumers := s.consumers.set j (.failing e) } where
  traced := by
    have hle := le_total (show (s.consumers.set j (.failing e))[j]? = some (.failing e) by
      rw [List.getElem?_set_self (List.getElem?_eq_some_iff.mp hc).1]) (f := ConsumerPhase.errs)
    exact iff_of_true (by simp) (.inr (.inr (.inl hle)))
  aborted := h.aborted
  creating := fun hmain => absurd hmain (h.unsettled_of_consumer hc halive).1
  settled := fun hmain => absurd hmain (h.unsettled_of_consumer hc halive).2
  returned := h.returned

/-- The statement goes on without an error. -/
theorem Errors.main {main : MainPhase} (h : Errors s) (hfailed : main.failed = s.main.failed)
    (hcreating : main ≠ .creating)
    (hsettled : main.settled = true →
      total ConsumerPhase.alive s.consumers = 0 ∧ s.consumerError = none)
    (hreturned : main = .ended (.ok ⟨⟩) →
      s.error = none ∧ s.reader = .done ∧ total ParserPhase.alive s.parsers = 0) :
    Errors { s with main } where
  traced := by
    rw [Traced, hfailed]
    exact h.traced
  aborted := by
    intro haborted
    rw [hfailed]
    exact h.aborted haborted
  creating := fun hmain => absurd hmain hcreating
  settled := hsettled
  returned := hreturned

/-- The statement has an error to throw. -/
theorem Errors.of_main {main : MainPhase} {raised : List RawError}
    (hfailed : main.failed = true) (hraised : raised ≠ []) : Errors { s with main, raised } where
  traced := iff_of_true hraised (.inr (.inr (.inr (.inr hfailed))))
  aborted := fun _ => .inr (.inr hfailed)
  creating := fun hmain => by
    rw [show main = .creating from hmain] at hfailed
    exact nomatch hfailed
  settled := by
    intro hsettled
    cases main with
    | joining error => cases error with
      | none => exact nomatch hfailed
      | some e => exact nomatch hsettled
    | ended outcome => cases outcome with
      | ok _ => exact nomatch hfailed
      | error e => exact nomatch hsettled
    | catching e => exact nomatch hsettled
    | _ => exact nomatch hfailed
  returned := fun hmain => by
    rw [show main = .ended (.ok ⟨⟩) from hmain] at hfailed
    exact nomatch hfailed

/-- `Abort` behind a recorded error. -/
theorem Errors.aborts (h : Errors s) (hraised : s.raised ≠ [])
    (herror : s.error.isSome = true ∨ s.consumerError.isSome = true ∨ s.main.failed = true) :
    Errors s.abort where
  traced := by
    refine iff_of_true hraised ?_
    obtain herror | hconsumer | hmain := herror
    · exact .inl herror
    · exact .inr (.inr (.inr (.inl hconsumer)))
    · exact .inr (.inr (.inr (.inr hmain)))
  aborted := fun _ => herror
  creating := h.creating
  settled := h.settled
  returned := by
    intro hmain
    obtain ⟨hnone, hreader, hgone⟩ := h.returned hmain
    refine ⟨hnone, ?_, (total_notifySpace rfl (fun _ => rfl) _).trans hgone⟩
    show (if s.reader = .waiting then .notified else s.reader) = ReaderPhase.done
    rw [hreader]
    rfl

/-- Before the first step nothing was raised. -/
theorem Errors.init (cfg : PipelineSetup) (batches : List Bytes) :
    Errors (pipelineRun cfg batches).init where
  traced := by simp [pipelineRun, Traced, total, ParserPhase.errs, MainPhase.failed]
  aborted := fun h => nomatch h
  creating := fun _ => rfl
  settled := fun h => nomatch h
  returned := fun h => nomatch h

/-- **One step** records what it raises, and loses nothing that was raised. -/
theorem Errors.step (h : Errors s) (hmove : Move cfg s a s') : Errors s' := by
  cases hmove with
  | dropRaw hunread haborted hreader =>
      have hunreturned := h.unreturned_of_reader (reader_atWork hreader)
      exact { h with returned := fun hmain => absurd hmain hunreturned }
  | pushRaw hunread hflowing hreader hnotify =>
      have hwakes := Wakes.notifyOne hnotify
      have hunreturned := h.unreturned_of_reader (reader_atWork hreader)
      exact { h with
        traced := by
          rw [Traced, wakes_wokenRaw rfl hwakes]
          exact h.traced
        returned := fun hmain => absurd hmain hunreturned }
  | waitRaw hunread hflowing hreader =>
      have hunreturned := h.unreturned_of_reader (reader_atWork hreader)
      exact { h with returned := fun hmain => absurd hmain hunreturned }
  | @readerDone error hreader =>
      have htraced : s.raised ++ error.toList ≠ [] ↔
          (s.error.or error).isSome = true ∨
            0 < total ParserPhase.errs (notifyAll ParserPhase.wokenRaw s.parsers) ∨
            0 < total ConsumerPhase.errs (notifyAll ConsumerPhase.woken s.consumers) ∨
            s.consumerError.isSome = true ∨ s.main.failed = true := by
        rw [total_notifyRaw rfl, wakes_woken (fun _ => rfl) (Wakes.notifyAll _)]
        cases error with
        | none =>
            rw [Option.toList_none, List.append_nil, Option.or_none]
            exact h.traced
        | some e => exact iff_of_true (by simp) (.inl (by simp))
      have hwoken := h.wakeConsumers (Wakes.notifyAll s.consumers)
      have hunreturned := h.unreturned_of_reader (by rw [hreader]; rintro ⟨⟩)
      exact { hwoken with
        traced := htraced
        aborted := fun haborted =>
          (h.aborted haborted).imp (fun hsome => by simp [hsome]) id
        returned := fun hmain => absurd hmain hunreturned }
  | popWait hp hpopping _ _ _ =>
      exact h.parser hp _ (by obtain rfl | rfl := hpopping <;> rfl)
        (by obtain rfl | rfl := hpopping <;> rfl)
  | popLeave hp hpopping _ =>
      exact h.parser hp _ (by obtain rfl | rfl := hpopping <;> rfl)
        (by obtain rfl | rfl := hpopping <;> rfl)
  | @popTake i chosen p batch rest reader parsers hp hpopping hraw hflowing hnotified =>
      have hparser := h.parser hp (.parsing batch) (by obtain rfl | rfl := hpopping <;> rfl)
        (by obtain rfl | rfl := hpopping <;> rfl)
      exact { hparser.notifyProducer hnotified with }
  | parse hp _ => exact h.parser hp _ rfl rfl
  | @parseFails i batch e hp _ =>
      have hle := le_total
        (show (s.parsers.set i (.leaving (some e)))[i]? = some (.leaving (some e)) by
        rw [List.getElem?_set_self (List.getElem?_eq_some_iff.mp hp).1]) (f := ParserPhase.errs)
      exact { h with
        traced := iff_of_true (by simp) (.inr (.inl hle))
        returned := fun hmain => absurd hmain (h.unreturned_of_parser hp rfl) }
  | drop hp hpushing _ =>
      exact h.parser hp _ (by obtain rfl | rfl := hpushing <;> rfl)
        (by obtain rfl | rfl := hpushing <;> rfl)
  | @push i chosen p item consumers hp hpushing hflowing hnotify =>
      have hparser := h.parser hp .popping (by obtain rfl | rfl := hpushing <;> rfl)
        (by obtain rfl | rfl := hpushing <;> rfl)
      exact { hparser.wakeConsumers (Wakes.notifyOne hnotify) with }
  | pushWait hp hpushing _ _ =>
      exact h.parser hp _ (by obtain rfl | rfl := hpushing <;> rfl)
        (by obtain rfl | rfl := hpushing <;> rfl)
  | @parserFails i e hp hfirst =>
      have hraised := h.raised_of_parser hp rfl
      exact { h.wakeConsumers (Wakes.notifyAll s.consumers) with
        traced := iff_of_true hraised (.inl rfl)
        aborted := fun _ => .inl rfl
        returned := fun hmain => absurd hmain (h.unreturned_of_parser hp rfl) }
  | @parserDone i error hp hrecorded =>
      have htraced : s.raised ≠ [] ↔ s.error.isSome = true ∨
          0 < total ParserPhase.errs (s.parsers.set i .gone) ∨
          0 < total ConsumerPhase.errs (notifyAll ConsumerPhase.woken s.consumers) ∨
          s.consumerError.isSome = true ∨ s.main.failed = true := by
        rw [wakes_woken (fun _ => rfl) (Wakes.notifyAll _)]
        cases error with
        | none =>
            rw [total_set_same hp (show ParserPhase.errs .gone = ParserPhase.errs _ from rfl)]
            exact h.traced
        | some e => exact iff_of_true (h.traced.mpr (.inl (hrecorded rfl))) (.inl (hrecorded rfl))
      exact { h.wakeConsumers (Wakes.notifyAll s.consumers) with
        traced := htraced
        returned := fun hmain => absurd hmain (h.unreturned_of_parser hp rfl) }
  | create hmain =>
      have htraced : s.raised ≠ [] ↔ s.error.isSome = true ∨ 0 < total ParserPhase.errs s.parsers ∨
          0 < total ConsumerPhase.errs (List.replicate cfg.consumers (.popping false)) ∨
          s.consumerError.isSome = true ∨ MainPhase.consuming.failed = true := by
        have hold := h.traced
        rw [Traced, h.creating hmain, hmain] at hold
        rw [show total ConsumerPhase.errs (List.replicate cfg.consumers (.popping false)) =
          total ConsumerPhase.errs [] by simp [total, ConsumerPhase.errs]]
        exact hold
      exact {
        traced := htraced
        aborted := fun haborted => by
          have hold := h.aborted haborted
          rwa [hmain] at hold
        creating := by rintro ⟨⟩
        settled := by rintro ⟨⟩
        returned := by rintro ⟨⟩ }
  | createFails hmain => exact Errors.of_main rfl (by simp)
  | wait hc hpopping _ _ _ =>
      obtain ⟨-, -, halive, herrs⟩ := popping_counts hpopping
      exact h.consumer hc _ halive herrs.symm
  | leave hc hpopping _ =>
      obtain ⟨-, -, halive, herrs⟩ := popping_counts hpopping
      exact h.consumer hc _ halive herrs.symm
  | @receive j chosen c hasPending item rest reader parsers hc hpopping hqueue hflowing hnotified =>
      obtain ⟨-, -, halive, herrs⟩ := popping_counts hpopping
      have hconsumer := h.consumer hc (.ingesting hasPending) halive herrs.symm
      exact { hconsumer.notifyProducer hnotified with }
  | ingest hc => exact h.consumer hc _ rfl rfl
  | ingestFails hc => exact h.consumerFails hc rfl
  | flush hc => exact h.consumer hc _ rfl rfl
  | flushFails hc => exact h.consumerFails hc rfl
  | @fail j e hc =>
      have hraised := h.raised_of_consumer hc rfl
      have hunsettled := h.unsettled_of_consumer hc rfl
      have hsome : (s.consumerError.or (some e)).isSome = true := by simp
      have hrecorded : Errors { s with
          consumerError := s.consumerError.or (some e), consumers := s.consumers.set j .gone } := {
        traced := iff_of_true hraised (.inr (.inr (.inr (.inl hsome))))
        aborted := fun _ => .inr (.inl hsome)
        creating := fun hmain => absurd hmain hunsettled.1
        settled := fun hmain => absurd hmain hunsettled.2
        returned := h.returned }
      exact hrecorded.aborts hraised (.inr (.inl hsome))
  | @failAlone j e hc =>
      have hraised := h.raised_of_consumer hc rfl
      have hrecorded : Errors { s with
          main := .joining (some e), consumers := s.consumers.set j .gone } := {
        traced := iff_of_true hraised (.inr (.inr (.inr (.inr rfl))))
        aborted := fun _ => .inr (.inr rfl)
        creating := by rintro ⟨⟩
        settled := by rintro ⟨⟩
        returned := by rintro ⟨⟩ }
      exact hrecorded.aborts hraised (.inr (.inr rfl))
  | rethrow hmain hconsumer =>
      have hraised : s.raised ≠ [] :=
        h.traced.mpr (.inr (.inr (.inr (.inl (by rw [hconsumer]; rfl)))))
      exact Errors.of_main rfl hraised
  | joinConsumers hmain hgone hconsumer =>
      have hjoined : total ConsumerPhase.alive s.consumers = 0 :=
        total_eq_zero_iff.mpr fun c hc => by rw [hgone c hc]; rfl
      exact h.main (by rw [hmain]; rfl) (by rintro ⟨⟩) (fun _ => ⟨hjoined, hconsumer⟩)
        (by rintro ⟨⟩)
  | finish hmain =>
      exact h.main (by rw [hmain]; rfl) (by rintro ⟨⟩) (fun _ => h.settled (by rw [hmain]; rfl))
        (by rintro ⟨⟩)
  | finishFails hmain => exact Errors.of_main rfl (by simp)
  | @rescue e hmain =>
      have hraised := h.raised_of_main (by rw [hmain]; rfl)
      have herrors : Errors { s with main := .joining (some e) } := Errors.of_main rfl hraised
      exact herrors.aborts hraised (.inr (.inr rfl))
  | @raise error e hmain herror =>
      have hraised : s.raised ≠ [] := by
        cases error with
        | none => exact h.traced.mpr (.inl (by rw [show s.error = some e from herror]; rfl))
        | some e' => exact h.raised_of_main (by rw [hmain]; rfl)
      exact Errors.of_main rfl hraised
  | «return» hmain herror hreader hgone =>
      have hparsers : total ParserPhase.alive s.parsers = 0 :=
        total_eq_zero_iff.mpr fun p hp => by rw [hgone p hp]; rfl
      exact h.main (by rw [hmain]; rfl) (by rintro ⟨⟩) (fun _ => h.settled (by rw [hmain]; rfl))
        fun _ => ⟨herror, hreader, hparsers⟩
  | wakeReader hreader =>
      have hunreturned := h.unreturned_of_reader (by rw [hreader]; rintro ⟨⟩)
      exact { h with returned := fun hmain => absurd hmain hunreturned }
  | wakePop hp => exact h.parser hp _ rfl rfl
  | wakePush hp => exact h.parser hp _ rfl rfl
  | wakeConsumer hc => exact h.consumer hc _ rfl rfl

/-- A call that returned raised nothing. -/
theorem Errors.returned_ok (h : Errors s) (hmain : s.main = .ended (.ok ⟨⟩)) : s.raised = [] := by
  by_contra hraised
  obtain ⟨herror, -, hparsers⟩ := h.returned hmain
  obtain ⟨hconsumers, hconsumer⟩ := h.settled (by rw [hmain]; rfl)
  obtain hcase | hcase | hcase | hcase | hcase := h.traced.mp hraised
  · simp [herror] at hcase
  · have hall := total_eq_zero_iff.mp hparsers
    have hnone : total ParserPhase.errs s.parsers = 0 := by
      refine total_eq_zero_iff.mpr fun p hp => ?_
      have hgone := hall p hp
      cases p <;> simp_all [ParserPhase.alive, ParserPhase.errs]
    omega
  · have hall := total_eq_zero_iff.mp hconsumers
    have hnone : total ConsumerPhase.errs s.consumers = 0 := by
      refine total_eq_zero_iff.mpr fun c hc => ?_
      have hgone := hall c hc
      cases c <;> simp_all [ConsumerPhase.alive, ConsumerPhase.errs]
    omega
  · simp [hconsumer] at hcase
  · simp [hmain, MainPhase.failed] at hcase

end PipelineRun

/-! ## batches -/

/-- The batch a parser holds. -/
def ParserPhase.held : ParserPhase → Multiset Bytes
  | .parsing batch => {batch}
  | .pushing item => {item.payload}
  | .pushWaiting item => {item.payload}
  | .pushNotified item => {item.payload}
  | _ => 0

/-- The item a parser brings. -/
def ParserPhase.item? : ParserPhase → Option PipelineItem
  | .pushing item => some item
  | .pushWaiting item => some item
  | .pushNotified item => some item
  | _ => none

/-- The item is what `Process` makes of its text. -/
def PipelineSetup.Processed (cfg : PipelineSetup) (item : PipelineItem) : Prop :=
  process cfg.duck cfg.options item.payload = .ok item.parsed

namespace PipelineRun

variable {cfg : PipelineSetup} {s s' : PipelineRun} {a : RunEvent}

/-- What the reader pushed and has not been dropped. -/
def content (s : PipelineRun) : Multiset Bytes :=
  ↑s.rawQueue + (s.parsers.map ParserPhase.held).sum +
    ↑((s.queue ++ s.received).map PipelineItem.payload)

/-- What holds of the batches in every run. -/
structure Books (cfg : PipelineSetup) (s : PipelineRun) : Prop where
  content : s.raised = [] → (↑s.pushed : Multiset Bytes) = s.content
  brought : ∀ p ∈ s.parsers, ∀ item, p.item? = some item → cfg.Processed item
  processed : ∀ item ∈ s.queue ++ s.received, cfg.Processed item
  /-- Parsers leave behind the last batch. -/
  drained : s.raised = [] → s.activeParsers < cfg.parsers ∨ 0 < total ParserPhase.spent s.parsers →
    s.rawQueue = []

theorem held_notifyRaw {parsers parsers' : List ParserPhase}
    (h : Wakes ParserPhase.wokenRaw parsers parsers') :
    (parsers'.map ParserPhase.held).sum = (parsers.map ParserPhase.held).sum := by
  refine h.sum_eq fun p p' hp => ?_
  cases p with
  | popWaiting =>
      obtain rfl : ParserPhase.popNotified = p' := Option.some.inj hp
      rfl
  | _ => exact nomatch hp

theorem brought_notifyRaw {parsers parsers' : List ParserPhase}
    (h : Wakes ParserPhase.wokenRaw parsers parsers')
    (hall : ∀ p ∈ parsers, ∀ item, p.item? = some item → cfg.Processed item) :
    ∀ p ∈ parsers', ∀ item, p.item? = some item → cfg.Processed item := by
  refine h.forall (fun p p' hp _ item hitem => ?_) hall
  cases p with
  | popWaiting =>
      obtain rfl : ParserPhase.popNotified = p' := Option.some.inj hp
      exact nomatch hitem
  | _ => exact nomatch hp

theorem wokenPush_held {p p' : ParserPhase} (hp : p.wokenPush = some p') : p'.held = p.held := by
  obtain ⟨item, rfl, rfl⟩ := wokenPush_eq_some.mp hp
  rfl

theorem wokenPush_item {p p' : ParserPhase} (hp : p.wokenPush = some p') : p'.item? = p.item? := by
  obtain ⟨item, rfl, rfl⟩ := wokenPush_eq_some.mp hp
  rfl

theorem brought_notifyPush {parsers parsers' : List ParserPhase}
    (h : Wakes ParserPhase.wokenPush parsers parsers')
    (hall : ∀ p ∈ parsers, ∀ item, p.item? = some item → cfg.Processed item) :
    ∀ p ∈ parsers', ∀ item, p.item? = some item → cfg.Processed item :=
  h.forall (fun _ _ hp hold item hitem => hold item (wokenPush_item hp ▸ hitem)) hall

theorem ProducerNotified.wakes {reader reader' : ReaderPhase} {parsers parsers' : List ParserPhase}
    {chosen : ProducerChoice} (h : ProducerNotified reader parsers chosen reader' parsers') :
    Wakes ParserPhase.wokenPush parsers parsers' := by
  cases h with
  | reader _ => exact .refl _ _
  | parser hp => exact .set hp rfl
  | nobody _ _ => exact .refl _ _

/-- A parser whose batch is the same changes nothing of what is on its way. -/
theorem content_setParser {i : Nat} {p p' : ParserPhase} (hp : s.parsers[i]? = some p)
    (hheld : p'.held = p.held) :
    PipelineRun.content { s with parsers := s.parsers.set i p' } = s.content := by
  have hset := sum_map_set ParserPhase.held hp p'
  rw [hheld] at hset
  simp only [PipelineRun.content]
  rw [add_right_cancel hset]

theorem brought_setParser {parsers : List ParserPhase} {i : Nat} {p' : ParserPhase}
    (hitem : ∀ item, p'.item? = some item → cfg.Processed item)
    (hall : ∀ p ∈ parsers, ∀ item, p.item? = some item → cfg.Processed item) :
    ∀ p ∈ parsers.set i p', ∀ item, p.item? = some item → cfg.Processed item := by
  intro q hq
  obtain hold | rfl := List.mem_or_eq_of_mem_set hq
  · exact hall q hold
  · exact hitem

theorem brought_set {parsers : List ParserPhase} {i : Nat} {p : ParserPhase} (hp : p.item? = none)
    (hall : ∀ p ∈ parsers, ∀ item, p.item? = some item → cfg.Processed item) :
    ∀ q ∈ parsers.set i p, ∀ item, q.item? = some item → cfg.Processed item := by
  refine brought_setParser (fun item hsome => ?_) hall
  rw [hp] at hsome
  contradiction

/-- A parser goes on with the batch it has. -/
theorem Books.parser {i : Nat} {p : ParserPhase} (h : Books cfg s) (hp : s.parsers[i]? = some p)
    (p' : ParserPhase) (hheld : p'.held = p.held)
    (hitem : ∀ item, p'.item? = some item → cfg.Processed item) (hspent : p'.spent = 0) :
    Books cfg { s with parsers := s.parsers.set i p' } where
  content := fun hraised => (h.content hraised).trans (content_setParser hp hheld).symm
  brought := brought_setParser hitem h.brought
  processed := h.processed
  drained := by
    intro hraised hleft
    have hset := total_set hp p' (f := ParserPhase.spent)
    exact h.drained hraised (hleft.imp id fun hpos => by simp only at hpos; omega)

/-- A parser leaves, or drops its batch, behind an error or behind the last batch. -/
theorem Books.parserLeaves {i : Nat} {p : ParserPhase} (h : Books cfg s)
    (hp : s.parsers[i]? = some p) (p' : ParserPhase) (hitem : p'.item? = none)
    (hends : s.raised = [] → s.rawQueue = [] ∧ p'.held = p.held) :
    Books cfg { s with parsers := s.parsers.set i p' } where
  content := fun hraised =>
    (h.content hraised).trans (content_setParser hp (hends hraised).2).symm
  brought := brought_set hitem h.brought
  processed := h.processed
  drained := fun hraised _ => (hends hraised).1

/-- Notifications keep the batches where they are. -/
theorem Books.wakes {reader : ReaderPhase} {parsers : List ParserPhase} (h : Books cfg s)
    (hwakes : Wakes ParserPhase.wokenPush s.parsers parsers) :
    Books cfg { s with reader, parsers } where
  content := by
    intro hraised
    simp only [PipelineRun.content]
    rw [hwakes.sum_eq fun _ _ => wokenPush_held]
    exact h.content hraised
  brought := brought_notifyPush hwakes h.brought
  processed := h.processed
  drained := by
    intro hraised hleft
    rw [hwakes.total_eq fun p p' hp => by
      obtain ⟨item, rfl, rfl⟩ := wokenPush_eq_some.mp hp
      rfl] at hleft
    exact h.drained hraised hleft

/-- Behind an error the books need not balance. -/
theorem Books.of_raised (h : Books cfg s) {main : MainPhase} {raised : List RawError}
    {consumers : List ConsumerPhase} {consumerError error : Option RawError} {activeParsers : Nat}
    {aborted readerDone : Bool} {reader : ReaderPhase} {unread : List Bytes}
    {parsers : List ParserPhase}
    (hbrought : ∀ p ∈ parsers, ∀ item, p.item? = some item → cfg.Processed item)
    (hraised : raised ≠ []) :
    Books cfg { s with
      main, raised, consumers, consumerError, error, activeParsers, aborted, readerDone, reader
      unread, parsers } where
  content := fun hnone => absurd hnone hraised
  brought := hbrought
  processed := h.processed
  drained := fun hnone => absurd hnone hraised

theorem brought_notifySpace {parsers : List ParserPhase}
    (hall : ∀ p ∈ parsers, ∀ item, p.item? = some item → cfg.Processed item) :
    ∀ p ∈ notifyAll ParserPhase.wokenPush (notifyAll ParserPhase.wokenRaw parsers),
      ∀ item, p.item? = some item → cfg.Processed item :=
  brought_notifyPush (.notifyAll _) (brought_notifyRaw (.notifyAll _) hall)

/-- Before the first step there are no batches. -/
theorem Books.init (cfg : PipelineSetup) (batches : List Bytes) :
    Books cfg (pipelineRun cfg batches).init where
  content := by simp [pipelineRun, PipelineRun.content, ParserPhase.held]
  brought := by simp [pipelineRun, ParserPhase.item?]
  processed := by simp [pipelineRun]
  drained := fun _ _ => rfl

/-- **One step** loses no batch and delivers none twice, unless something was raised. -/
theorem Books.step (h : Books cfg s) (hwaits : Waits cfg s) (herrors : Errors s)
    (hmove : Move cfg s a s') : Books cfg s' := by
  have hflows : s.raised = [] → s.aborted = false := fun hraised => by
    by_contra haborted
    exact herrors.raised_of_aborted (by simpa using haborted) hraised
  cases hmove with
  | @pushRaw chosen batch rest parsers hunread hflowing hreader hnotify =>
      have hwakes := Wakes.notifyOne hnotify
      exact { h with
        content := fun hraised => by
          have hcontent := h.content hraised
          simp only [PipelineRun.content, held_notifyRaw hwakes, ← Multiset.coe_add] at hcontent ⊢
          rw [hcontent]
          ac_rfl
        brought := brought_notifyRaw hwakes h.brought
        drained := fun _ hleft => by
          rw [wakes_wokenRaw rfl hwakes] at hleft
          have hends := (hwaits.parserLeaves hleft).resolve_right (by simp [hflowing])
          have hdone := (hwaits.reader hends).resolve_right (by simp [hflowing])
          simp [hdone] at hreader }
  | @readerDone error hreader =>
      have hwakes : Wakes ParserPhase.wokenRaw s.parsers _ := Wakes.notifyAll s.parsers
      exact { h with
        content := fun hraised => by
          simp only [PipelineRun.content]
          rw [held_notifyRaw hwakes]
          exact h.content (List.append_eq_nil_iff.mp hraised).1
        brought := brought_notifyRaw hwakes h.brought
        drained := fun hraised hleft => by
          rw [total_notifyRaw rfl] at hleft
          exact h.drained (List.append_eq_nil_iff.mp hraised).1 hleft }
  | popWait hp hpopping _ _ _ =>
      exact h.parser hp _ (by obtain rfl | rfl := hpopping <;> rfl)
        (fun _ hitem => nomatch hitem) rfl
  | popLeave hp hpopping hends =>
      refine h.parserLeaves hp _ rfl fun hraised => ⟨?_, by obtain rfl | rfl := hpopping <;> rfl⟩
      exact (hends.resolve_left (by simp [hflows hraised])).2
  | @popTake i chosen p batch rest reader parsers hp hpopping hraw hflowing hnotified =>
      have htaken : Books cfg
          { s with rawQueue := rest, parsers := s.parsers.set i (.parsing batch) } := {
        content := fun hraised => by
          have hcontent := h.content hraised
          have hset := sum_map_set ParserPhase.held hp (.parsing batch)
          have hnone : p.held = 0 := by obtain rfl | rfl := hpopping <;> rfl
          rw [hnone, add_zero, show (ParserPhase.parsing batch).held = {batch} from rfl] at hset
          simp only [PipelineRun.content, hraw, hset] at hcontent ⊢
          rw [hcontent, ← Multiset.cons_coe, ← Multiset.singleton_add]
          ac_rfl
        brought := brought_set rfl h.brought
        processed := h.processed
        drained := fun hraised hleft => by
          have hset : total ParserPhase.spent (s.parsers.set i (.parsing batch)) + p.spent =
            total ParserPhase.spent s.parsers + 0 := total_set hp _
          have hempty := h.drained hraised (hleft.imp id fun hpos => by simp only at hpos; omega)
          rw [hraw] at hempty
          exact nomatch hempty }
      exact htaken.wakes hnotified.wakes
  | parse hp hprocess =>
      refine h.parser hp _ rfl (fun item hitem => ?_) rfl
      obtain rfl := Option.some.inj hitem
      exact hprocess
  | parseFails hp _ => exact h.of_raised (brought_set rfl h.brought) (by simp)
  | drop hp hpushing haborted =>
      exact h.parserLeaves hp _ rfl fun hraised => absurd haborted (by simp [hflows hraised])
  | @push i chosen p item consumers hp hpushing hflowing hnotify =>
      have hset := sum_map_set ParserPhase.held hp .popping
      have hheld : p.held = {item.payload} := by obtain rfl | rfl := hpushing <;> rfl
      rw [hheld, show ParserPhase.popping.held = 0 from rfl, add_zero] at hset
      have hitem : p.item? = some item := by obtain rfl | rfl := hpushing <;> rfl
      have hspent : total ParserPhase.spent (s.parsers.set i .popping) =
          total ParserPhase.spent s.parsers :=
        total_set_same hp (by obtain rfl | rfl := hpushing <;> rfl)
      exact {
        content := fun hraised => by
          have hcontent := h.content hraised
          simp only [PipelineRun.content, ← hset, List.append_assoc, List.map_append,
            List.map_cons, List.map_nil, ← Multiset.coe_add, Multiset.coe_singleton] at hcontent ⊢
          rw [hcontent]
          ac_rfl
        brought := brought_set rfl h.brought
        processed := by
          intro q hq
          simp only [List.append_assoc, List.mem_append, List.mem_singleton] at hq
          obtain hq | rfl | hq := hq
          · exact h.processed q (List.mem_append_left _ hq)
          · exact h.brought p (List.mem_of_getElem? hp) q hitem
          · exact h.processed q (List.mem_append_right _ hq)
        drained := fun hraised hleft => h.drained hraised (hspent ▸ hleft) }
  | pushWait hp hpushing _ _ =>
      refine h.parser hp _ (by obtain rfl | rfl := hpushing <;> rfl) (fun item hitem => ?_) rfl
      obtain rfl := Option.some.inj hitem
      exact h.brought _ (List.mem_of_getElem? hp) _ (by obtain rfl | rfl := hpushing <;> rfl)
  | parserFails hp _ =>
      have hraised := herrors.raised_of_parser hp rfl
      exact h.of_raised (brought_notifySpace (brought_set rfl h.brought)) hraised
  | @parserDone i error hp hrecorded =>
      have hends : s.raised = [] → s.rawQueue = [] := fun hraised => by
        cases error with
        | none => exact h.drained hraised (.inr (le_total hp (f := ParserPhase.spent)))
        | some e => exact absurd hraised (herrors.traced.mpr (.inl (hrecorded rfl)))
      exact { h with
        content := fun hraised => (h.content hraised).trans
          (content_setParser hp (show ParserPhase.held .gone = _ from rfl)).symm
        brought := brought_set rfl h.brought
        drained := fun hraised _ => hends hraised }
  | createFails _ => exact h.of_raised h.brought (by simp)
  | @receive j chosen c hasPending item rest reader parsers hc hpopping hqueue hflowing hnotified =>
      have hperm : (rest ++ (s.received ++ [item])).Perm (s.queue ++ s.received) := by
        rw [hqueue, ← List.append_assoc]
        exact List.perm_append_singleton item (rest ++ s.received)
      have hreceived : Books cfg
          { s with queue := rest, received := s.received ++ [item] } := { h with
        content := fun hraised => by
          rw [h.content hraised, PipelineRun.content, PipelineRun.content]
          simp only
          rw [Multiset.coe_eq_coe.mpr (hperm.map PipelineItem.payload)]
        processed := fun q hq => h.processed q (hperm.mem_iff.mp hq) }
      have hnotified' : Books cfg { s with
          queue := rest, received := s.received ++ [item], reader, parsers } :=
        hreceived.wakes hnotified.wakes
      exact { hnotified' with }
  | ingestFails _ => exact h.of_raised h.brought (by simp)
  | flushFails _ => exact h.of_raised h.brought (by simp)
  | fail hc =>
      have hraised := herrors.raised_of_consumer hc rfl
      exact h.of_raised (brought_notifySpace h.brought) hraised
  | failAlone hc =>
      have hraised := herrors.raised_of_consumer hc rfl
      exact h.of_raised (brought_notifySpace h.brought) hraised
  | finishFails _ => exact h.of_raised h.brought (by simp)
  | rescue hmain =>
      have hraised := herrors.raised_of_main (by rw [hmain]; rfl)
      exact h.of_raised (brought_notifySpace h.brought) hraised
  | wakePop hp => exact h.parser hp _ rfl (fun _ hitem => nomatch hitem) rfl
  | wakePush hp =>
      exact h.parser hp _ rfl
        (fun item hitem => h.brought _ (List.mem_of_getElem? hp) item hitem) rfl
  | dropRaw | waitRaw | create | wait | leave | ingest | flush | rethrow | joinConsumers | finish |
      raise | «return» | wakeReader | wakeConsumer => exact { h with }

/-- Every consumer has seen `Pop` return false. -/
def PopsOver (s : PipelineRun) : Prop :=
  s.main ≠ .creating ∧ ∀ c ∈ s.consumers, (∃ hasPending, c = .flushing hasPending) ∨ c = .gone

/-- **Delivery**: without an error, consumers that have seen the end have received
what the reader pushed. -/
theorem Books.delivered (h : Books cfg s) (hwaits : Waits cfg s) (herrors : Errors s)
    (hraised : s.raised = []) (hover : s.PopsOver) :
    (s.received.map PipelineItem.payload).Perm s.pushed := by
  have hmain : s.main.failed = false := by
    by_contra hfailed
    exact herrors.traced.mpr (.inr (.inr (.inr (.inr (by simpa using hfailed))))) hraised
  have hlength := hwaits.consumerCount hmain hover.1
  have hconsumers := cfg.consumers_pos
  obtain ⟨c, hc⟩ := List.exists_mem_of_length_pos (hlength ▸ hconsumers)
  have hended : 0 < total ConsumerPhase.ended s.consumers := by
    rw [Nat.pos_iff_ne_zero, Ne, total_eq_zero_iff]
    intro hnone
    have hzero := hnone c hc
    obtain ⟨hasPending, rfl⟩ | rfl := hover.2 c hc
    · exact nomatch hzero
    · exact nomatch hzero
  have hflowing : s.aborted = false := by
    by_contra haborted
    exact herrors.raised_of_aborted (by simpa using haborted) hraised
  obtain ⟨hactive, hqueue⟩ := (hwaits.consumerLeaves hended).resolve_left (by simp [hflowing])
  have hparsers := cfg.parsers_pos
  have hraw := h.drained hraised (.inl (by omega))
  have hgone := total_eq_zero_iff.mp (hwaits.active.trans hactive)
  have hheld : (s.parsers.map ParserPhase.held).sum = 0 := by
    refine List.sum_eq_zero fun b hb => ?_
    obtain ⟨p, hp, rfl⟩ := List.mem_map.mp hb
    have hzero := hgone p hp
    cases p <;> simp_all [ParserPhase.alive, ParserPhase.held]
  have hcontent := h.content hraised
  simp only [PipelineRun.content, hraw, hqueue, hheld, List.nil_append, Multiset.coe_nil,
    zero_add] at hcontent
  exact (Multiset.coe_eq_coe.mp hcontent).symm

end PipelineRun

/-! ## progress -/

/-- A wake without a notification. -/
def RunEvent.isSpurious : RunEvent → Bool
  | .spurious _ => true
  | _ => false

namespace PipelineRun

variable {cfg : PipelineSetup} {s s' : PipelineRun} {a : RunEvent}

/-- No thread can go on, unless one wakes by itself. -/
def Stuck (cfg : PipelineSetup) (s : PipelineRun) : Prop :=
  ∀ a : RunEvent, a.isSpurious = false → s.step cfg a = none

theorem exists_notifyProducer (s : PipelineRun) :
    ∃ chosen s', s.notifyProducer chosen = some s' := by
  by_cases hreader : s.reader = .waiting
  · exact ⟨.reader, _, if_pos hreader⟩
  · obtain ⟨chosen, parsers, hnotify⟩ := exists_notifyOne ParserPhase.wokenPush s.parsers
    cases chosen with
    | none =>
        refine ⟨.nobody, { s with parsers }, ?_⟩
        rw [notifyProducer, if_neg hreader, hnotify]
        rfl
    | some i =>
        refine ⟨.parser i, { s with parsers }, ?_⟩
        rw [notifyProducer, hnotify]
        rfl

/-- Where a parser stands when nothing goes on. -/
theorem Stuck.parser (h : s.Stuck cfg) {p : ParserPhase} (hp : p ∈ s.parsers) :
    p = .popWaiting ∨ (∃ item, p = .pushWaiting item) ∨ p = .gone := by
  obtain ⟨i, hi, hget⟩ := List.getElem_of_mem hp
  have hget : s.parsers[i]? = some p := by rw [List.getElem?_eq_getElem hi, hget]
  have hpop : ¬ (p = .popping ∨ p = .popNotified) := by
    intro hpopping
    cases hraw : s.rawQueue with
    | nil =>
        have hstep : s.popRaw i .nobody = none := h (.popRaw i .nobody) rfl
        obtain rfl | rfl := hpopping <;> simp only [PipelineRun.popRaw, hget, hraw] at hstep
        · split at hstep <;> contradiction
        · split at hstep <;> contradiction
    | cons batch rest =>
        obtain ⟨chosen, s', hnotify⟩ :=
          exists_notifyProducer ({ s with rawQueue := rest }.setParser i (.parsing batch))
        have hstep : s.popRaw i chosen = none := h (.popRaw i chosen) rfl
        obtain rfl | rfl := hpopping <;>
          simp only [PipelineRun.popRaw, hget, hraw, hnotify] at hstep
        · split at hstep <;> contradiction
        · split at hstep <;> contradiction
  have hpush : ∀ item, ¬ (p = .pushing item ∨ p = .pushNotified item) := by
    intro item hpushing
    obtain ⟨chosen, consumers, hnotify⟩ := exists_notifyOne ConsumerPhase.woken s.consumers
    have hstep : s.push cfg i chosen = none := h (.push i chosen) rfl
    rw [PipelineRun.push, hget] at hstep
    obtain rfl | rfl := hpushing
    · simp only [hnotify, Option.map_some] at hstep
      split_ifs at hstep
    · simp only [hnotify, Option.map_some] at hstep
      split_ifs at hstep
  cases p with
  | popping => exact absurd (.inl rfl) hpop
  | popWaiting => exact .inl rfl
  | popNotified => exact absurd (.inr rfl) hpop
  | parsing batch =>
      have hstep : s.parse cfg i = none := h (.parse i) rfl
      rw [PipelineRun.parse, hget] at hstep
      simp only at hstep
      split at hstep <;> contradiction
  | pushing item => exact absurd (.inl rfl) (hpush item)
  | pushWaiting item => exact .inr (.inl ⟨item, rfl⟩)
  | pushNotified item => exact absurd (.inr rfl) (hpush item)
  | leaving error =>
      have hstep : s.parserDone i = none := h (.parserDone i) rfl
      rw [PipelineRun.parserDone, hget] at hstep
      simp only at hstep
      split at hstep <;> contradiction
  | gone => exact .inr (.inr rfl)

/-- Where a consumer stands when nothing goes on. -/
theorem Stuck.consumer (h : s.Stuck cfg) {c : ConsumerPhase} (hc : c ∈ s.consumers) :
    (∃ hasPending, c = .waiting hasPending) ∨ c = .gone := by
  obtain ⟨j, hj, hget⟩ := List.getElem_of_mem hc
  have hget : s.consumers[j]? = some c := by rw [List.getElem?_eq_getElem hj, hget]
  have hpop : ∀ hasPending, ¬ (c = .popping hasPending ∨ c = .notified hasPending) := by
    intro hasPending hpopping
    cases hqueue : s.queue with
    | nil =>
        have hstep : s.pop j .nobody = none := h (.pop j .nobody) rfl
        obtain rfl | rfl := hpopping <;> simp only [PipelineRun.pop, hget, hqueue] at hstep
        · split at hstep <;> contradiction
        · split at hstep <;> contradiction
    | cons item rest =>
        obtain ⟨chosen, s', hnotify⟩ := exists_notifyProducer
          ({ s with queue := rest, received := s.received ++ [item] }.setConsumer j
            (.ingesting hasPending))
        have hstep : s.pop j chosen = none := h (.pop j chosen) rfl
        obtain rfl | rfl := hpopping <;> simp only [PipelineRun.pop, hget, hqueue, hnotify] at hstep
        · split at hstep <;> contradiction
        · split at hstep <;> contradiction
  cases c with
  | popping hasPending => exact absurd (.inl rfl) (hpop hasPending)
  | waiting hasPending => exact .inl ⟨hasPending, rfl⟩
  | notified hasPending => exact absurd (.inr rfl) (hpop hasPending)
  | ingesting hasPending =>
      have hstep : s.ingest j none = none := h (.ingest j none) rfl
      simp [PipelineRun.ingest, hget] at hstep
  | flushing hasPending =>
      have hstep : s.flush j none = none := h (.flush j none) rfl
      simp [PipelineRun.flush, hget] at hstep
  | failing e =>
      have hstep : s.fail cfg j = none := h (.fail j) rfl
      rw [PipelineRun.fail, hget] at hstep
      simp only at hstep
      split at hstep <;> contradiction
  | gone => exact .inr rfl

/-- Where the reader stands when nothing goes on. -/
theorem Stuck.reader (h : s.Stuck cfg) (hwaits : Waits cfg s) :
    s.reader = .waiting ∨ s.reader = .done := by
  obtain ⟨chosen, parsers, hnotify⟩ := exists_notifyOne ParserPhase.wokenRaw s.parsers
  have hpush : s.pushRaw cfg chosen = none := h (.pushRaw chosen) rfl
  have hgo : s.reader = .running ∨ s.reader = .notified → s.unread = [] := by
    intro hreader
    by_contra hunread
    obtain ⟨batch, rest, hunread⟩ := List.exists_cons_of_ne_nil hunread
    simp only [PipelineRun.pushRaw, hunread, hreader, if_true, hnotify, Option.map_some] at hpush
    split_ifs at hpush
  cases hreader : s.reader with
  | waiting => exact .inl rfl
  | done => exact .inr rfl
  | running =>
      have hstep : s.readerEnds none = none := h (.readerDone none) rfl
      simp [readerEnds, hreader, hgo (.inl hreader)] at hstep
  | notified => exact absurd (hgo (.inr hreader)) (hwaits.readerUnread (.inr hreader))

/-- Behind an error, whoever is left waits for a place in the queue. -/
theorem Stuck.active (h : s.Stuck cfg) (hwaits : Waits cfg s) (hpush : PushWaits cfg s)
    (hends : s.readerDone = true ∨ s.aborted = true) :
    s.activeParsers = 0 ∨ (s.aborted = false ∧ s.queue ≠ []) := by
  have hcomes : total ParserPhase.comesPush s.parsers = 0 := by
    refine total_eq_zero_iff.mpr fun p hp => ?_
    obtain rfl | ⟨item, rfl⟩ | rfl := h.parser hp <;> rfl
  by_cases hnone : total ParserPhase.waitsPush s.parsers = 0
  · have hraw := total_eq_zero_iff.mp (hwaits.popWaits hends)
    refine .inl (hwaits.active.symm.trans (total_eq_zero_iff.mpr fun p hp => ?_))
    obtain rfl | ⟨item, rfl⟩ | rfl := h.parser hp
    · exact nomatch hraw _ hp
    · exact nomatch total_eq_zero_iff.mp hnone _ hp
    · rfl
  · have hfull := hpush (by omega)
    have hcapacity := cfg.capacity_pos
    refine .inr ⟨?_, fun hempty => ?_⟩
    · by_contra haborted
      exact hnone (hwaits.abortWakes (by simpa using haborted)).2
    · rw [hempty, List.length_nil] at hfull
      omega

/-- **Progress**: where something was raised and nothing goes on, the statement has
raised. -/
theorem Stuck.raised (h : s.Stuck cfg) (hwaits : Waits cfg s) (hpush : PushWaits cfg s)
    (herrors : Errors s) (hraised : s.raised ≠ []) : ∃ e, s.main = .ended (.error e) := by
  have hparserErrs : total ParserPhase.errs s.parsers = 0 := by
    refine total_eq_zero_iff.mpr fun p hp => ?_
    obtain rfl | ⟨item, rfl⟩ | rfl := h.parser hp <;> rfl
  have hconsumerErrs : total ConsumerPhase.errs s.consumers = 0 := by
    refine total_eq_zero_iff.mpr fun c hc => ?_
    obtain ⟨hasPending, rfl⟩ | rfl := h.consumer hc <;> rfl
  have hcomes : total ConsumerPhase.comes s.consumers = 0 := by
    refine total_eq_zero_iff.mpr fun c hc => ?_
    obtain ⟨hasPending, rfl⟩ | rfl := h.consumer hc <;> rfl
  have hends :
      s.main.failed = false ∨ s.aborted = true → s.readerDone = true ∨ s.aborted = true := by
    intro hmain
    obtain hcase | hcase | hcase | hcase | hcase := herrors.traced.mp hraised
    · exact hwaits.errorEnds hcase
    · omega
    · omega
    · exact .inr (hwaits.consumerAborts hcase)
    · exact .inr (hmain.resolve_left (by simp [hcase]))
  cases hmain : s.main with
  | creating =>
      have hstep : s.create cfg none = none := h (.create none) rfl
      simp [PipelineRun.create, hmain] at hstep
  | consuming =>
      -- some consumer waits, so some parser is active, and it waits for a place
      have hstep : s.joinConsumers = none := h .joinConsumers rfl
      have hwaiting : 0 < total ConsumerPhase.waits s.consumers := by
        rw [Nat.pos_iff_ne_zero]
        intro hnone
        have hgone : (s.consumers.all (· = .gone)) = true := by
          rw [List.all_eq_true]
          intro c hc
          obtain ⟨hasPending, rfl⟩ | rfl := h.consumer hc
          · have hwaits := total_eq_zero_iff.mp hnone _ hc
            contradiction
          · rfl
        simp only [PipelineRun.joinConsumers, hmain, hgone, if_true] at hstep
        split at hstep <;> contradiction
      have hactive := hwaits.waitsActive hwaiting
      obtain hzero | ⟨hflowing, hqueue⟩ :=
        h.active hwaits hpush (hends (.inl (by rw [hmain]; rfl)))
      · omega
      · have hlength := hwaits.waitsQueue hflowing hwaiting
        have hpos := List.length_pos_iff.mpr hqueue
        omega
  | finishing =>
      have hstep : s.finish none = none := h (.finish none) rfl
      simp [PipelineRun.finish, hmain] at hstep
  | catching e =>
      have hstep : s.rescue = none := h .rescue rfl
      simp [PipelineRun.rescue, hmain] at hstep
  | joining error =>
      have hstep : s.joinAll = none := h .joinAll rfl
      have hends' := hends (by
        cases error with
        | none => exact .inl (by rw [hmain]; rfl)
        | some e => exact .inr (hwaits.rescuedAborts (by rw [hmain]; rfl)))
      have hreader : s.reader = .done := by
        obtain hwaiting | hdone := h.reader hwaits
        · cases haborted : s.aborted with
          | true => exact absurd hwaiting (hwaits.abortWakes haborted).1
          | false =>
              have hdone := hends'.resolve_right (by simp [haborted])
              exact (hwaits.reader hdone).resolve_right (by simp [haborted])
        · exact hdone
      have hactive : s.activeParsers ≠ 0 := by
        intro hzero
        have hall := total_eq_zero_iff.mp (hwaits.active.trans hzero)
        have hgone : s.parsersGone = true := by
          rw [parsersGone, List.all_eq_true]
          intro p hp
          have halive := hall p hp
          cases p <;> first | rfl | contradiction
        simp only [PipelineRun.joinAll, hmain, hreader, hgone, and_self, if_true] at hstep
        split at hstep <;> contradiction
      obtain hzero | ⟨hflowing, hqueue⟩ := h.active hwaits hpush hends'
      · exact absurd hzero hactive
      · -- the consumers are gone, so the last parser was
        cases error with
        | some e =>
            have haborted := hwaits.rescuedAborts (by rw [hmain]; rfl)
            simp [hflowing] at haborted
        | none =>
            have hgone := total_eq_zero_iff.mp (herrors.settled (by rw [hmain]; rfl)).1
            have hlength := hwaits.consumerCount (by rw [hmain]; rfl) (by rw [hmain]; rintro ⟨⟩)
            have hconsumers := cfg.consumers_pos
            obtain ⟨c, hc⟩ := List.exists_mem_of_length_pos (hlength ▸ hconsumers)
            obtain ⟨j, hj, hget⟩ := List.getElem_of_mem hc
            have hended : 0 < total ConsumerPhase.ended s.consumers := by
              have hle := le_total (show s.consumers[j]? = some c by
                rw [List.getElem?_eq_getElem hj, hget]) (f := ConsumerPhase.ended)
              have halive := hgone c hc
              cases c <;> first | exact hle | contradiction
            have hleft := (hwaits.consumerLeaves hended).resolve_left (by simp [hflowing])
            exact absurd hleft.1 hactive
  | ended outcome =>
      cases outcome with
      | ok _ => exact absurd (herrors.returned_ok hmain) hraised
      | error e => exact ⟨e, rfl⟩

end PipelineRun

/-! ## the length of runs -/

/-- The end of the reader. -/
def ReaderPhase.work : ReaderPhase → Nat
  | .done => 0
  | _ => 1

def ReaderPhase.awake : ReaderPhase → Nat
  | .running => 1
  | .notified => 1
  | _ => 0

/-- The steps a parser has left, with its batch. -/
def ParserPhase.work : ParserPhase → Nat
  | .popping => 2
  | .popWaiting => 2
  | .popNotified => 2
  | .parsing _ => 7
  | .pushing _ => 6
  | .pushWaiting _ => 6
  | .pushNotified _ => 6
  | .leaving _ => 1
  | .gone => 0

/-- Not waiting, and not gone. -/
def ParserPhase.awake : ParserPhase → Nat
  | .popWaiting => 0
  | .pushWaiting _ => 0
  | .gone => 0
  | _ => 1

/-- The steps a consumer has left, with its item. -/
def ConsumerPhase.work : ConsumerPhase → Nat
  | .popping _ => 7
  | .waiting _ => 7
  | .notified _ => 7
  | .ingesting _ => 8
  | .flushing _ => 6
  | .failing _ => 5
  | .gone => 0

/-- Not waiting, and not gone. -/
def ConsumerPhase.awake : ConsumerPhase → Nat
  | .waiting _ => 0
  | .gone => 0
  | _ => 1

/-- The steps the statement has left, with the consumers it will start. -/
def MainPhase.work (consumers : Nat) : MainPhase → Nat
  | .creating => 7 * consumers + 12
  | .consuming => 7
  | .finishing => 6
  | .catching _ => 5
  | .joining _ => 4
  | .ended _ => 0

namespace PipelineRun

variable {cfg : PipelineSetup} {s s' : PipelineRun} {a : RunEvent}

/-- The steps that are left, but for those that only wait. -/
def work (cfg : PipelineSetup) (s : PipelineRun) : Nat :=
  7 * s.unread.length + s.reader.work + 6 * s.rawQueue.length + total ParserPhase.work s.parsers +
    3 * s.queue.length + total ConsumerPhase.work s.consumers + s.main.work cfg.consumers

/-- The threads that may check what they wait for. -/
def awake (s : PipelineRun) : Nat :=
  s.reader.awake + total ParserPhase.awake s.parsers + total ConsumerPhase.awake s.consumers

/-- The threads of a run are those it started with. -/
def Sized (cfg : PipelineSetup) (s : PipelineRun) : Prop :=
  s.parsers.length ≤ cfg.parsers ∧ s.consumers.length ≤ cfg.consumers

/-- How many steps a run from here can have. -/
def potential (cfg : PipelineSetup) (s : PipelineRun) : Nat :=
  (cfg.parsers + cfg.consumers + 2) * s.work cfg + s.awake

theorem Sized.step (h : Sized cfg s) (hmove : Move cfg s a s') : Sized cfg s' := by
  obtain ⟨hparsers, hconsumers⟩ := h
  cases hmove with
  | pushRaw _ _ _ hnotify =>
      exact ⟨(Wakes.notifyOne hnotify).length_eq.le.trans hparsers, hconsumers⟩
  | popTake _ _ _ _ hnotified =>
      exact ⟨(hnotified.wakes.length_eq.trans (List.length_set ..)).le.trans hparsers, hconsumers⟩
  | receive _ _ _ _ hnotified =>
      exact ⟨hnotified.wakes.length_eq.le.trans hparsers, (List.length_set ..).le.trans hconsumers⟩
  | push _ _ _ hnotify =>
      exact ⟨(List.length_set ..).le.trans hparsers,
        (Wakes.notifyOne hnotify).length_eq.le.trans hconsumers⟩
  | create _ => exact ⟨hparsers, (List.length_replicate ..).le⟩
  | _ =>
      simp [Sized, PipelineRun.abort, notifyParsers, notifyProducers, notifyConsumers, notifyAll,
        hparsers, hconsumers]

theorem awake_le (h : Sized cfg s) : s.awake ≤ cfg.parsers + cfg.consumers + 1 := by
  have hparsers : total ParserPhase.awake s.parsers ≤ s.parsers.length :=
    total_le_length fun p => by cases p <;> simp [ParserPhase.awake]
  have hconsumers : total ConsumerPhase.awake s.consumers ≤ s.consumers.length :=
    total_le_length fun c => by cases c <;> simp [ConsumerPhase.awake]
  have hreader : s.reader.awake ≤ 1 := by cases s.reader <;> simp [ReaderPhase.awake]
  obtain ⟨hp, hc⟩ := h
  unfold awake
  omega

/-- A notification on `producer_cv` does no work. -/
theorem ProducerNotified.work_eq {reader reader' : ReaderPhase}
    {parsers parsers' : List ParserPhase}
    {chosen : ProducerChoice} (h : ProducerNotified reader parsers chosen reader' parsers') :
    reader'.work = reader.work ∧ total ParserPhase.work parsers' =
      total ParserPhase.work parsers := by
  refine ⟨?_, h.total_eq fun _ => rfl⟩
  obtain rfl | ⟨rfl, rfl⟩ := h.reader_cases <;> rfl

/-- Nor does `Abort`. -/
theorem work_notifySpace (s : PipelineRun) :
    s.notifyParsers.notifyProducers.work cfg = s.work cfg := by
  have hreader : s.notifyParsers.notifyProducers.reader.work = s.reader.work := by
    show (if s.reader = .waiting then .notified else s.reader : ReaderPhase).work = s.reader.work
    split
    · next hwaiting => rw [hwaiting]; rfl
    · rfl
  have hparsers : total ParserPhase.work s.notifyParsers.notifyProducers.parsers =
      total ParserPhase.work s.parsers := total_notifySpace rfl (fun _ => rfl) _
  simp only [work, hreader, hparsers]
  rfl

theorem work_notifyConsumers (s : PipelineRun) : s.notifyConsumers.work cfg = s.work cfg := by
  have hconsumers : total ConsumerPhase.work s.notifyConsumers.consumers =
      total ConsumerPhase.work s.consumers :=
    wakes_woken (fun _ => rfl) (Wakes.notifyAll s.consumers)
  simp only [work, hconsumers]
  rfl

theorem work_abort (s : PipelineRun) : s.abort.work cfg = s.work cfg :=
  work_notifySpace { s with aborted := true, readerDone := true }

/-- A consumer goes on. -/
theorem work_consumer {j : Nat} {c c' : ConsumerPhase} (hc : s.consumers[j]? = some c)
    (hwork : c'.work < c.work) :
    ({ s with consumers := s.consumers.set j c' } : PipelineRun).work cfg + 1 ≤ s.work cfg := by
  have hset := total_set hc c' (f := ConsumerPhase.work)
  simp only [work]
  omega

/-- A parser goes on. -/
theorem work_parsers {i : Nat} {p p' : ParserPhase} (hp : s.parsers[i]? = some p)
    (hwork : p'.work < p.work) :
    ({ s with parsers := s.parsers.set i p' } : PipelineRun).work cfg + 1 ≤ s.work cfg := by
  have hset := total_set hp p' (f := ParserPhase.work)
  simp only [work]
  omega

/-- A parser that waits does no work, and is not awake any more; one that wakes is. -/
theorem work_parsers_same {i k : Nat} {p p' : ParserPhase} (hp : s.parsers[i]? = some p)
    (hwork : p'.work = p.work) (hawake : p'.awake + 1 ≤ p.awake + k) :
    ({ s with parsers := s.parsers.set i p' } : PipelineRun).work cfg = s.work cfg ∧
      ({ s with parsers := s.parsers.set i p' } : PipelineRun).awake + 1 ≤ s.awake + k := by
  have hset := total_set hp p' (f := ParserPhase.work)
  have hset' := total_set hp p' (f := ParserPhase.awake)
  simp only [work, awake]
  omega

theorem work_consumer_same {j k : Nat} {c c' : ConsumerPhase} (hc : s.consumers[j]? = some c)
    (hwork : c'.work = c.work) (hawake : c'.awake + 1 ≤ c.awake + k) :
    ({ s with consumers := s.consumers.set j c' } : PipelineRun).work cfg = s.work cfg ∧
      ({ s with consumers := s.consumers.set j c' } : PipelineRun).awake + 1 ≤ s.awake + k := by
  have hset := total_set hc c' (f := ConsumerPhase.work)
  have hset' := total_set hc c' (f := ConsumerPhase.awake)
  simp only [work, awake]
  omega

/-- The statement goes on. -/
theorem work_main {main : MainPhase} {raised : List RawError}
    (hwork : main.work cfg.consumers < s.main.work cfg.consumers) :
    ({ s with main, raised } : PipelineRun).work cfg + 1 ≤ s.work cfg := by
  simp only [work]
  omega

/-- **One step** either does some of the work, or is a check that ends waiting, or a
wake without a notification. -/
theorem work_step (hmove : Move cfg s a s') :
    s'.work cfg + 1 ≤ s.work cfg ∨
      (s'.work cfg = s.work cfg ∧ s'.awake + 1 ≤ s.awake + if a.isSpurious then 2 else 0) := by
  cases hmove with
  | dropRaw hunread _ hreader =>
      left
      have hwork : s.reader.work = 1 := by obtain h | h := hreader <;> rw [h] <;> rfl
      have hrunning : ReaderPhase.running.work = 1 := rfl
      simp only [work, hunread, hwork, hrunning, List.length_cons]
      omega
  | pushRaw hunread _ hreader hnotify =>
      left
      have hwork : s.reader.work = 1 := by obtain h | h := hreader <;> rw [h] <;> rfl
      have hrunning : ReaderPhase.running.work = 1 := rfl
      simp only [work, hunread, hwork, hrunning, List.length_cons, List.length_append,
        List.length_nil, wakes_wokenRaw (f := ParserPhase.work) rfl (Wakes.notifyOne hnotify)]
      omega
  | waitRaw _ _ hreader =>
      right
      have hwork : s.reader.work = 1 := by obtain h | h := hreader <;> rw [h] <;> rfl
      have hawake : s.reader.awake = 1 := by obtain h | h := hreader <;> rw [h] <;> rfl
      have hwaiting : ReaderPhase.waiting.work = 1 := rfl
      have hasleep : ReaderPhase.waiting.awake = 0 := rfl
      constructor
      · simp only [work, hwork, hwaiting]
      · show ReaderPhase.waiting.awake + _ + _ + 1 ≤ s.awake + 0
        simp only [awake, hawake, hasleep]
        omega
  | readerDone hreader =>
      left
      simp only [work, hreader, ReaderPhase.work, List.length_nil,
        total_notifyRaw (f := ParserPhase.work) rfl,
        wakes_woken (f := ConsumerPhase.work) (fun _ => rfl) (Wakes.notifyAll s.consumers)]
      omega
  | popWait hp hpopping _ _ _ =>
      right
      exact work_parsers_same hp (by obtain rfl | rfl := hpopping <;> rfl)
        (by obtain rfl | rfl := hpopping <;> exact Nat.le_refl _)
  | popLeave hp hpopping _ =>
      exact .inl (work_parsers hp (by obtain rfl | rfl := hpopping <;> decide))
  | @popTake i chosen p batch rest reader parsers hp hpopping hraw _ hnotified =>
      left
      obtain ⟨hreader, hparsers⟩ := hnotified.work_eq
      have hset : total ParserPhase.work (s.parsers.set i (.parsing batch)) + p.work =
        total ParserPhase.work s.parsers + 7 := total_set hp _
      have hwork : p.work = 2 := by obtain rfl | rfl := hpopping <;> rfl
      simp only [work, hreader, hparsers, hraw, List.length_cons]
      omega
  | parse hp _ => exact .inl (work_parsers hp (by simp only [ParserPhase.work]; omega))
  | @parseFails i batch e hp _ =>
      left
      have hset : total ParserPhase.work (s.parsers.set i (.leaving (some e))) + 7 =
        total ParserPhase.work s.parsers + 1 := total_set hp _
      simp only [work]
      omega
  | drop hp hpushing _ =>
      exact .inl (work_parsers hp (by obtain rfl | rfl := hpushing <;> simp [ParserPhase.work]))
  | @push i chosen p item consumers hp hpushing _ hnotify =>
      left
      have hset : total ParserPhase.work (s.parsers.set i .popping) + p.work =
        total ParserPhase.work s.parsers + 2 := total_set hp _
      have hwork : p.work = 6 := by obtain rfl | rfl := hpushing <;> rfl
      simp only [work, List.length_append, List.length_cons, List.length_nil,
        wakes_woken (f := ConsumerPhase.work) (fun _ => rfl) (Wakes.notifyOne hnotify)]
      omega
  | pushWait hp hpushing _ _ =>
      right
      exact work_parsers_same hp (by obtain rfl | rfl := hpushing <;> rfl)
        (by obtain rfl | rfl := hpushing <;> exact Nat.le_refl _)
  | @parserFails i e hp _ =>
      left
      have hset : total ParserPhase.work (s.parsers.set i .gone) + 1 =
        total ParserPhase.work s.parsers + 0 := total_set hp _
      rw [work_notifyConsumers, work_notifySpace]
      simp only [work]
      omega
  | @parserDone i error hp _ =>
      left
      have hset : total ParserPhase.work (s.parsers.set i .gone) + 1 =
        total ParserPhase.work s.parsers + 0 := total_set hp _
      simp only [work,
        wakes_woken (f := ConsumerPhase.work) (fun _ => rfl) (Wakes.notifyAll s.consumers)]
      omega
  | create hmain =>
      left
      have hstarted : total ConsumerPhase.work (List.replicate cfg.consumers (.popping false)) =
          7 * cfg.consumers := by
        simp [total, ConsumerPhase.work, Nat.mul_comm]
      simp only [work, hmain, hstarted, MainPhase.work]
      omega
  | createFails hmain => exact .inl (work_main (by rw [hmain]; simp only [MainPhase.work]; omega))
  | wait hc hpopping _ _ _ =>
      right
      exact work_consumer_same hc (by obtain rfl | rfl := hpopping <;> rfl)
        (by obtain rfl | rfl := hpopping <;> exact Nat.le_refl _)
  | leave hc hpopping _ =>
      exact .inl (work_consumer hc (by obtain rfl | rfl := hpopping <;> simp [ConsumerPhase.work]))
  | @receive j chosen c hasPending item rest reader parsers hc hpopping hqueue _ hnotified =>
      left
      obtain ⟨hreader, hparsers⟩ := hnotified.work_eq
      have hset : total ConsumerPhase.work (s.consumers.set j (.ingesting hasPending)) + c.work =
        total ConsumerPhase.work s.consumers + 8 := total_set hc _
      have hwork : c.work = 7 := by obtain rfl | rfl := hpopping <;> rfl
      simp only [work, hreader, hparsers, hqueue, List.length_cons]
      omega
  | ingest hc => exact .inl (work_consumer hc (by simp only [ConsumerPhase.work]; omega))
  | @ingestFails j e hc =>
      have hwork : (ConsumerPhase.failing e).work < (ConsumerPhase.ingesting true).work := by
        simp only [ConsumerPhase.work]
        omega
      exact .inl (work_consumer hc hwork)
  | flush hc => exact .inl (work_consumer hc (by simp only [ConsumerPhase.work]; omega))
  | @flushFails j e hc =>
      have hwork : (ConsumerPhase.failing e).work < (ConsumerPhase.flushing true).work := by
        simp only [ConsumerPhase.work]
        omega
      exact .inl (work_consumer hc hwork)
  | @fail j e hc =>
      left
      have hwork : ConsumerPhase.gone.work < (ConsumerPhase.failing e).work := by
        simp only [ConsumerPhase.work]
        omega
      rw [work_abort]
      exact work_consumer hc hwork
  | @failAlone j e hc =>
      left
      have hset : total ConsumerPhase.work (s.consumers.set j .gone) + 5 =
        total ConsumerPhase.work s.consumers + 0 := total_set hc _
      rw [work_abort]
      simp only [work, MainPhase.work]
      omega
  | rethrow hmain _ => exact .inl (work_main (by rw [hmain]; simp only [MainPhase.work]; omega))
  | joinConsumers hmain _ _ =>
      exact .inl (work_main (by rw [hmain]; simp only [MainPhase.work]; omega))
  | finish hmain => exact .inl (work_main (by rw [hmain]; simp only [MainPhase.work]; omega))
  | finishFails hmain => exact .inl (work_main (by rw [hmain]; simp only [MainPhase.work]; omega))
  | @rescue e hmain =>
      left
      rw [work_abort]
      simp only [work, hmain, MainPhase.work]
      omega
  | raise hmain _ => exact .inl (work_main (by rw [hmain]; simp only [MainPhase.work]; omega))
  | «return» hmain _ _ _ =>
      exact .inl (work_main (by rw [hmain]; simp only [MainPhase.work]; omega))
  | wakeReader hreader =>
      right
      have hnotified : ReaderPhase.notified.work = 1 ∧ ReaderPhase.notified.awake = 1 := ⟨rfl, rfl⟩
      constructor
      · simp only [work, hreader, hnotified, show ReaderPhase.waiting.work = 1 from rfl]
      · show ReaderPhase.notified.awake + _ + _ + 1 ≤ s.awake + 2
        simp only [awake, hreader, hnotified, show ReaderPhase.waiting.awake = 0 from rfl]
        omega
  | wakePop hp => exact .inr (work_parsers_same hp rfl (Nat.le_refl _))
  | wakePush hp => exact .inr (work_parsers_same hp rfl (Nat.le_refl _))
  | wakeConsumer hc => exact .inr (work_consumer_same hc rfl (Nat.le_refl _))

/-- A step takes one from the potential, a wake without a notification adds one. -/
theorem potential_step (hsized : Sized cfg s) (hmove : Move cfg s a s') :
    s'.potential cfg + 1 ≤ s.potential cfg + if a.isSpurious then 2 else 0 := by
  have hawake := awake_le (hsized.step hmove)
  unfold potential
  obtain hwork | ⟨hwork, hwaits⟩ := work_step hmove
  · have hmul := Nat.mul_le_mul_left (cfg.parsers + cfg.consumers + 2) hwork
    rw [Nat.mul_add] at hmul
    omega
  · rw [hwork]
    omega

end PipelineRun

/-! ## whole runs -/

section

variable {cfg : PipelineSetup} {batches : List Bytes} {guard : PipelineRun → RunEvent → Prop}
variable {s : PipelineRun}

theorem pipelineRun_waits (h : Reachable (pipelineRun cfg batches) guard s) : s.Waits cfg :=
  h.invariant (PipelineRun.Waits cfg) (.init cfg batches) fun _ _ _ hinv _ hstep =>
    hinv.step (PipelineRun.step_move hstep)

theorem pipelineRun_errors (h : Reachable (pipelineRun cfg batches) guard s) : s.Errors :=
  h.invariant PipelineRun.Errors (.init cfg batches) fun _ _ _ hinv _ hstep =>
    hinv.step (PipelineRun.step_move hstep)

theorem pipelineRun_books (h : Reachable (pipelineRun cfg batches) guard s) : s.Books cfg := by
  refine (h.invariant (fun s => s.Waits cfg ∧ s.Errors ∧ s.Books cfg)
    ⟨.init cfg batches, .init cfg batches, .init cfg batches⟩ ?_).2.2
  intro s a s' hinv _ hstep
  obtain ⟨hwaits, herrors, hbooks⟩ := hinv
  have hmove := PipelineRun.step_move hstep
  exact ⟨hwaits.step hmove, herrors.step hmove, hbooks.step hwaits herrors hmove⟩

theorem pipelineRun_pushWaits
    (h : Reachable (pipelineRun cfg batches) PipelineRun.ReachesParser s) : s.PushWaits cfg := by
  have hinit : PipelineRun.PushWaits cfg (pipelineRun cfg batches).init :=
    .of_quiet (by simp [pipelineRun, total, ParserPhase.waitsPush])
  refine (h.invariant (fun s => s.Waits cfg ∧ s.PushWaits cfg) ⟨.init cfg batches, hinit⟩ ?_).2
  intro s a s' hinv hmeant hstep
  have hmove := PipelineRun.step_move hstep
  exact ⟨hinv.1.step hmove, hinv.2.step hinv.1 hmeant hmove⟩

/-- The most steps of a run that wakes no thread without a notification. -/
def runBound (cfg : PipelineSetup) (batches : List Bytes) : Nat :=
  (pipelineRun cfg batches).init.potential cfg

theorem length_le_runBound {events : List RunEvent}
    (h : (pipelineRun cfg batches).run events = some s) :
    events.length ≤ runBound cfg batches + 2 * events.countP RunEvent.isSpurious := by
  have hsized : PipelineRun.Sized cfg (pipelineRun cfg batches).init :=
    ⟨(List.length_replicate ..).le, Nat.zero_le _⟩
  have hlength := length_add_le (PipelineRun.potential cfg) RunEvent.isSpurious
    (PipelineRun.Sized cfg) (fun _ _ _ hs hstep => hs.step (PipelineRun.step_move hstep))
    (fun _ _ _ hs hstep => PipelineRun.potential_step hs (PipelineRun.step_move hstep)) hsized h
  unfold runBound
  omega

end

/-- **Delivery and errors** of `raw_ingest_file`, for every capacity, number of
parsers and consumers, file, and order of steps.  In a run in which nothing was
raised, consumers that have all seen the end have received what the reader pushed,
parsed; where anything was raised the statement does not return; no run is longer
than its file, its threads and its spurious wakes allow; and where each notification
of `Pop` reaches a waiting parser, a run that cannot go on behind an error has
raised. -/
theorem rawIngestFile_delivers (cfg : PipelineSetup) (batches : List Bytes) :
    (∀ s, Reachable (pipelineRun cfg batches) anyStep s → s.raised = [] → s.PopsOver →
      (s.received.map PipelineItem.payload).Perm s.pushed ∧
        ∀ item ∈ s.received, process cfg.duck cfg.options item.payload = .ok item.parsed) ∧
    (∀ s, Reachable (pipelineRun cfg batches) anyStep s → s.raised ≠ [] →
      s.main ≠ .ended (.ok ⟨⟩)) ∧
    (∀ events s, (pipelineRun cfg batches).run events = some s →
      events.length ≤ runBound cfg batches + 2 * events.countP RunEvent.isSpurious) ∧
    (∀ s, Reachable (pipelineRun cfg batches) PipelineRun.ReachesParser s → s.raised ≠ [] →
      s.Stuck cfg → ∃ e, s.main = .ended (.error e)) := by
  refine ⟨fun s h hraised hover => ⟨?_, ?_⟩, fun s h hraised hmain => ?_, ?_, ?_⟩
  · exact (pipelineRun_books h).delivered (pipelineRun_waits h) (pipelineRun_errors h) hraised hover
  · exact fun item hitem => (pipelineRun_books h).processed item (List.mem_append_right _ hitem)
  · exact hraised ((pipelineRun_errors h).returned_ok hmain)
  · exact fun _ _ h => length_le_runBound h
  · exact fun s h hraised hstuck => hstuck.raised (pipelineRun_waits h) (pipelineRun_pushWaits h)
      (pipelineRun_errors h) hraised

/-- One place in each queue, two parsers, one consumer. -/
def narrowSetup : PipelineSetup :=
  .ofSettings fileConfig.duck {} 8 (some 2) none (some 1)

/-- What a file system raises. -/
def readError : RawError := ⟨.other, bytes "Could not read from file"⟩

/-- A state in which no thread is awake goes on only at the hands of the statement. -/
theorem PipelineRun.stuck_of {cfg : PipelineSetup} {s : PipelineRun}
    (hreader : s.reader = .waiting ∨ s.reader = .done)
    (hparsers : total ParserPhase.awake s.parsers = 0)
    (hconsumers : total ConsumerPhase.awake s.consumers = 0)
    (hcreate : ∀ error, s.create cfg error = none) (hjoinConsumers : s.joinConsumers = none)
    (hfinish : ∀ error, s.finish error = none)
    (hrescue : s.rescue = none) (hjoinAll : s.joinAll = none) : s.Stuck cfg := by
  have hparser : ∀ {i : Nat} {p : ParserPhase}, s.parsers[i]? = some p → p.awake = 0 := fun hp =>
    total_eq_zero_iff.mp hparsers _ (List.mem_of_getElem? hp)
  have hconsumer : ∀ {j : Nat} {c : ConsumerPhase}, s.consumers[j]? = some c → c.awake = 0 :=
    fun hc => total_eq_zero_iff.mp hconsumers _ (List.mem_of_getElem? hc)
  intro a ha
  by_contra hsome
  obtain ⟨s', hstep⟩ := Option.ne_none_iff_exists'.mp hsome
  cases a with
  | create error => exact hsome (hcreate error)
  | joinConsumers => exact hsome hjoinConsumers
  | finish error => exact hsome (hfinish error)
  | rescue => exact hsome hrescue
  | joinAll => exact hsome hjoinAll
  | spurious wake => exact nomatch ha
  | pushRaw chosen =>
      cases PipelineRun.step_move hstep with
      | dropRaw _ _ h | pushRaw _ _ h _ | waitRaw _ _ h => obtain h | h := h <;> simp [h] at hreader
  | readerDone error =>
      cases PipelineRun.step_move hstep with
      | readerDone h => simp [h] at hreader
  | popRaw i chosen =>
      cases PipelineRun.step_move hstep with
      | popWait hp h _ _ _ | popLeave hp h _ | popTake hp h _ _ _ =>
          obtain rfl | rfl := h <;> exact nomatch hparser hp
  | parse i =>
      cases PipelineRun.step_move hstep with
      | parse hp _ | parseFails hp _ => exact nomatch hparser hp
  | push i chosen =>
      cases PipelineRun.step_move hstep with
      | drop hp h _ | push hp h _ _ | pushWait hp h _ _ =>
          obtain rfl | rfl := h <;> exact nomatch hparser hp
  | parserDone i =>
      cases PipelineRun.step_move hstep with
      | parserFails hp _ | parserDone hp _ => exact nomatch hparser hp
  | pop j chosen =>
      cases PipelineRun.step_move hstep with
      | wait hc h _ _ _ | leave hc h _ | receive hc h _ _ _ =>
          obtain rfl | rfl := h <;> exact nomatch hconsumer hc
  | ingest j error =>
      cases PipelineRun.step_move hstep with
      | ingest hc | ingestFails hc => exact nomatch hconsumer hc
  | flush j error =>
      cases PipelineRun.step_move hstep with
      | flush hc | flushFails hc => exact nomatch hconsumer hc
  | fail j =>
      cases PipelineRun.step_move hstep with
      | fail hc | failAlone hc => exact nomatch hconsumer hc

/-- One batch, up to the end of the loop of the consumer. -/
def deliveredRun : List RunEvent :=
  [.create none, .pushRaw none, .popRaw 0 .nobody, .parse 0, .push 0 none, .pop 0 .nobody,
    .ingest 0 none, .readerDone none, .popRaw 0 .nobody, .popRaw 1 .nobody, .parserDone 0,
    .parserDone 1, .pop 0 .nobody]

/-- Reading raises before the first batch. -/
def unreadableRun : List RunEvent :=
  [.create none, .readerDone (some readError), .popRaw 0 .nobody, .popRaw 1 .nobody, .parserDone 0,
    .parserDone 1, .pop 0 .nobody, .flush 0 none, .joinConsumers, .finish none, .joinAll]

/-- Its one `Pop` meets no thread that waits in `Push`. -/
theorem unreadableRun_guarded :
    (pipelineRun narrowSetup [goodBatch]).Guarded PipelineRun.ReachesParser
      (pipelineRun narrowSetup [goodBatch]).init unreadableRun := by
  refine guarded_cons rfl trivial (guarded_cons rfl trivial (guarded_cons rfl trivial ?_))
  refine guarded_cons rfl trivial (guarded_cons rfl trivial (guarded_cons rfl trivial ?_))
  refine guarded_cons rfl (fun _ _ _ => rfl) (guarded_cons rfl trivial ?_)
  exact guarded_cons rfl trivial (guarded_cons rfl trivial (guarded_cons rfl trivial trivial))

/-- The runs over one good batch and over a file that cannot be read. -/
theorem rawIngestFile_delivers_one :
    (∃ s, (pipelineRun narrowSetup [goodBatch]).run deliveredRun = some s ∧
      (s.received.map PipelineItem.payload).Perm [goodBatch]) ∧
    (∃ s, (pipelineRun narrowSetup [goodBatch]).run unreadableRun = some s ∧
      s.main ≠ .ended (.ok ⟨⟩) ∧ (∃ e, s.main = .ended (.error e)) ∧
      unreadableRun.length ≤ runBound narrowSetup [goodBatch] + 0) := by
  obtain ⟨hdelivers, hreturns, hbound, hraises⟩ := rawIngestFile_delivers narrowSetup [goodBatch]
  constructor
  · refine ⟨_, rfl, (hdelivers _ (reachable_iff_run.mpr ⟨deliveredRun, rfl⟩) rfl ?_).1⟩
    exact ⟨nofun, List.forall_mem_singleton.mpr (.inl ⟨true, rfl⟩)⟩
  · refine ⟨_, rfl, hreturns _ (reachable_iff_run.mpr ⟨unreadableRun, rfl⟩) (List.cons_ne_nil _ _),
      hraises _ (Reachable.of_guarded .init unreadableRun_guarded rfl) (List.cons_ne_nil _ _) ?_,
      hbound unreadableRun _ rfl⟩
    exact PipelineRun.stuck_of (.inr rfl) rfl rfl (fun error => by cases error <;> rfl) rfl
      (fun error => by cases error <;> rfl) rfl rfl

/-- Four batches.  `PopRaw` of the second parser notifies the first one, which waits
in `Push`, instead of the reader; so `Pop` finds the reader waiting and notifies it
instead of a parser; and then reading raises. -/
def forgottenParsers : List RunEvent :=
  [.create none, .pushRaw none, .popRaw 0 .nobody, .pushRaw none, .parse 0, .push 0 none,
    .popRaw 0 .nobody, .pushRaw none, .parse 0, .push 0 none, .pushRaw none, .popRaw 1 (.parser 0),
    .push 0 none, .parse 1, .push 1 none, .pop 0 .reader, .ingest 0 none, .pushRaw none,
    .readerDone (some readError), .pop 0 .nobody]

/-- The reader raised, nothing goes on, and the statement has not raised: both
parsers wait for a place in a queue that is empty. -/
theorem rawIngestFile_hangs :
    ¬ ∀ s, Reachable (pipelineRun narrowSetup (List.replicate 4 goodBatch)) anyStep s →
      s.raised ≠ [] → s.Stuck narrowSetup → ∃ e, s.main = .ended (.error e) := by
  intro hraises
  obtain ⟨e, he⟩ := hraises _ (reachable_iff_run.mpr ⟨forgottenParsers, rfl⟩) (List.cons_ne_nil _ _)
    (PipelineRun.stuck_of (.inr rfl) rfl rfl (fun error => by cases error <;> rfl) rfl
      (fun error => by cases error <;> rfl) rfl rfl)
  exact nomatch he

end RawDuck
