import RawDuck.PipelineRun

/-!
# RawDuck.PipelineWaits

Who waits for whom in a run of `raw_ingest_file`, and who will wake them.

* `Waits` — what holds of the waits in every run, whoever is notified;
* `Waits.step` — every step keeps it;
* `PushWaits` — what holds besides while no parser in `Push` loses its
  notification to the reader.
-/

namespace RawDuck

open Transition Transition.System ConditionVariable TaskCounter

/-! ## counting threads -/

namespace ParserPhase

/-- Not gone. -/
def alive : ParserPhase → Nat
  | .gone => 0
  | _ => 1

/-- With an error that is not recorded yet. -/
def errs : ParserPhase → Nat
  | .leaving (some _) => 1
  | _ => 0

/-- `PopRaw` returned false. -/
def spent : ParserPhase → Nat
  | .leaving none => 1
  | _ => 0

def waitsRaw : ParserPhase → Nat
  | .popWaiting => 1
  | _ => 0

def waitsPush : ParserPhase → Nat
  | .pushWaiting _ => 1
  | _ => 0

def comesPush : ParserPhase → Nat
  | .pushNotified _ => 1
  | _ => 0

end ParserPhase

namespace ConsumerPhase

/-- Not gone. -/
def alive : ConsumerPhase → Nat
  | .gone => 0
  | _ => 1

/-- With an error that is not recorded yet. -/
def errs : ConsumerPhase → Nat
  | .failing _ => 1
  | _ => 0

/-- `Pop` returned false, or the consumer raised and is gone. -/
def ended : ConsumerPhase → Nat
  | .flushing _ => 1
  | .gone => 1
  | _ => 0

def waits : ConsumerPhase → Nat
  | .waiting _ => 1
  | _ => 0

def comes : ConsumerPhase → Nat
  | .notified _ => 1
  | _ => 0

end ConsumerPhase

/-- The error that ends the statement is on its way, or thrown. -/
def MainPhase.failed : MainPhase → Bool
  | .catching _ => true
  | .joining (some _) => true
  | .ended (.error _) => true
  | _ => false

/-- All consumers returned. -/
def MainPhase.settled : MainPhase → Bool
  | .finishing => true
  | .joining none => true
  | .ended (.ok _) => true
  | _ => false

/-- In `join_all`, behind `Abort`. -/
def MainPhase.rescued : MainPhase → Bool
  | .joining (some _) => true
  | _ => false

namespace PipelineRun

variable {cfg : PipelineSetup} {s s' t : PipelineRun} {a : RunEvent}

/-- Notified parsers count as waiting ones, but for the waits themselves. -/
theorem total_notifyRaw {f : ParserPhase → Nat} (hf : f .popNotified = f .popWaiting)
    (parsers : List ParserPhase) :
    total f (notifyAll ParserPhase.wokenRaw parsers) = total f parsers := by
  refine (Wakes.notifyAll parsers).total_eq fun p p' hp => ?_
  cases p <;> simp_all [ParserPhase.wokenRaw, eq_comm]

theorem wakes_wokenRaw {f : ParserPhase → Nat} (hf : f .popNotified = f .popWaiting)
    {parsers parsers' : List ParserPhase} (h : Wakes ParserPhase.wokenRaw parsers parsers') :
    total f parsers' = total f parsers := by
  refine h.total_eq fun p p' hp => ?_
  cases p <;> simp_all [ParserPhase.wokenRaw, eq_comm]

theorem total_notifyPush {f : ParserPhase → Nat}
    (hf : ∀ item, f (.pushNotified item) = f (.pushWaiting item)) (parsers : List ParserPhase) :
    total f (notifyAll ParserPhase.wokenPush parsers) = total f parsers := by
  refine (Wakes.notifyAll parsers).total_eq fun p p' hp => ?_
  obtain ⟨item, rfl, rfl⟩ := wokenPush_eq_some.mp hp
  exact hf item

theorem waitsRaw_notifyAll (parsers : List ParserPhase) :
    total ParserPhase.waitsRaw (notifyAll ParserPhase.wokenRaw parsers) = 0 :=
  total_notifyAll (fun p => by cases p <;> rfl) parsers

theorem waitsPush_notifyAll (parsers : List ParserPhase) :
    total ParserPhase.waitsPush (notifyAll ParserPhase.wokenPush parsers) = 0 :=
  total_notifyAll (fun p => by cases p <;> rfl) parsers

theorem waits_notifyAll (consumers : List ConsumerPhase) :
    total ConsumerPhase.waits (notifyAll ConsumerPhase.woken consumers) = 0 :=
  total_notifyAll (fun c => by cases c <;> rfl) consumers

theorem wakes_woken {f : ConsumerPhase → Nat} (hf : ∀ b, f (.notified b) = f (.waiting b))
    {consumers consumers' : List ConsumerPhase}
    (h : Wakes ConsumerPhase.woken consumers consumers') :
    total f consumers' = total f consumers := by
  refine h.total_eq fun c c' hc => ?_
  cases c with
  | waiting b =>
      obtain rfl : ConsumerPhase.notified b = c' := Option.some.inj hc
      exact hf b
  | _ => exact nomatch hc

/-- The counts of parsers behind the notifications of an abort. -/
theorem total_notifySpace {f : ParserPhase → Nat} (hraw : f .popNotified = f .popWaiting)
    (hpush : ∀ item, f (.pushNotified item) = f (.pushWaiting item)) (parsers : List ParserPhase) :
    total f (notifyAll ParserPhase.wokenPush (notifyAll ParserPhase.wokenRaw parsers)) =
      total f parsers :=
  (total_notifyPush hpush _).trans (total_notifyRaw hraw _)

theorem reader_notifyProducers (s : PipelineRun) : s.notifyProducers.reader ≠ .waiting := by
  show (if s.reader = .waiting then .notified else s.reader) ≠ ReaderPhase.waiting
  split
  · exact nofun
  · assumption

/-- One waiting consumer is notified, if there is one. -/
theorem notifyOne_consumers {chosen : Option Nat} {consumers : List ConsumerPhase}
    (h : notifyOne ConsumerPhase.woken s.consumers chosen = some consumers) :
    (total ConsumerPhase.waits s.consumers = 0 ∧ consumers = s.consumers) ∨
    (total ConsumerPhase.waits consumers + 1 = total ConsumerPhase.waits s.consumers ∧
      total ConsumerPhase.comes consumers = total ConsumerPhase.comes s.consumers + 1) := by
  obtain ⟨-, hquiet, rfl⟩ | ⟨j, c, c', -, hc, hwoken, rfl⟩ := notifyOne_cases h
  · refine .inl ⟨total_eq_zero_iff.mpr fun c hc => ?_, rfl⟩
    have hnone := hquiet c hc
    cases c <;> simp_all [ConsumerPhase.woken, ConsumerPhase.waits]
  · cases c with
    | waiting b =>
        obtain rfl : ConsumerPhase.notified b = c' := Option.some.inj hwoken
        have hwaits := total_set hc (.notified b) (f := ConsumerPhase.waits)
        have hcomes := total_set hc (.notified b) (f := ConsumerPhase.comes)
        exact .inr ⟨hwaits, by simpa [ConsumerPhase.comes] using hcomes⟩
    | _ => contradiction

/-- The counts of parsers behind a notification on `producer_cv`. -/
theorem ProducerNotified.total_eq {f : ParserPhase → Nat}
    (hpush : ∀ item, f (.pushNotified item) = f (.pushWaiting item)) {reader reader' : ReaderPhase}
    {parsers parsers' : List ParserPhase} {chosen : ProducerChoice}
    (h : ProducerNotified reader parsers chosen reader' parsers') :
    total f parsers' = total f parsers := by
  cases h with
  | reader _ => rfl
  | parser hp => exact total_set_same hp (hpush _)
  | nobody _ _ => rfl

/-- The reader behind a notification on `producer_cv`. -/
theorem ProducerNotified.reader_cases {reader reader' : ReaderPhase}
    {parsers parsers' : List ParserPhase} {chosen : ProducerChoice}
    (h : ProducerNotified reader parsers chosen reader' parsers') :
    reader' = reader ∨ (reader = .waiting ∧ reader' = .notified) := by
  cases h with
  | reader hwaits => exact .inr ⟨hwaits, rfl⟩
  | parser _ => exact .inl rfl
  | nobody _ _ => exact .inl rfl

/-! ## waiting threads -/

/-- What holds of the waits in every run. -/
structure Waits (cfg : PipelineSetup) (s : PipelineRun) : Prop where
  active : total ParserPhase.alive s.parsers = s.activeParsers
  active_le : s.activeParsers ≤ cfg.parsers
  reader : s.readerDone = true → s.reader = .done ∨ s.aborted = true
  readerUnread : s.reader = .waiting ∨ s.reader = .notified → s.unread ≠ []
  /-- `Abort` wakes whoever waits for space. -/
  abortWakes : s.aborted = true → s.reader ≠ .waiting ∧ total ParserPhase.waitsPush s.parsers = 0
  popWaits : s.readerDone = true ∨ s.aborted = true → total ParserPhase.waitsRaw s.parsers = 0
  errorEnds : s.error.isSome = true → s.readerDone = true ∨ s.aborted = true
  parserLeaves : s.activeParsers < cfg.parsers ∨ 0 < total ParserPhase.spent s.parsers →
    s.readerDone = true ∨ s.aborted = true
  /-- A consumer waits for a parser, and for no item that is there. -/
  waitsActive : 0 < total ConsumerPhase.waits s.consumers → 0 < s.activeParsers
  waitsQueue : s.aborted = false → 0 < total ConsumerPhase.waits s.consumers →
    s.queue.length ≤ total ConsumerPhase.comes s.consumers
  consumerLeaves : 0 < total ConsumerPhase.ended s.consumers →
    s.aborted = true ∨ (s.activeParsers = 0 ∧ s.queue = [])
  consumerAborts : s.consumerError.isSome = true → s.aborted = true
  rescuedAborts : s.main.rescued = true → s.aborted = true
  consumerCount : s.main.failed = false → s.main ≠ .creating → s.consumers.length = cfg.consumers

/-- An aborted pipeline has nothing to promise but that nobody waits for space. -/
theorem Waits.aborts (h : Waits cfg s) (haborted : t.aborted = true)
    (hactive : total ParserPhase.alive t.parsers = t.activeParsers)
    (hparsers : t.activeParsers ≤ s.activeParsers) (hreader : t.reader = s.reader)
    (hunread : t.unread = s.unread)
    (hwaits : 0 < total ConsumerPhase.waits t.consumers → 0 < t.activeParsers)
    (hcount : t.main.failed = false → t.main ≠ .creating → t.consumers.length = cfg.consumers) :
    Waits cfg t.notifyParsers.notifyProducers where
  active := (total_notifySpace rfl (fun _ => rfl) _).trans hactive
  active_le := hparsers.trans h.active_le
  reader := fun _ => .inr haborted
  readerUnread := by
    intro hwait
    have hreader' : t.notifyParsers.notifyProducers.reader =
        if s.reader = .waiting then .notified else s.reader := by
      rw [← hreader]
      rfl
    rw [hreader'] at hwait
    show t.unread ≠ []
    rw [hunread]
    apply h.readerUnread
    split at hwait
    · next hwaiting => exact .inl hwaiting
    · exact hwait
  abortWakes := fun _ => ⟨reader_notifyProducers _, waitsPush_notifyAll _⟩
  popWaits := fun _ => (total_notifyPush (fun _ => rfl) _).trans (waitsRaw_notifyAll _)
  errorEnds := fun _ => .inr haborted
  parserLeaves := fun _ => .inr haborted
  waitsActive := hwaits
  waitsQueue := fun hflowing => by
    rw [show t.notifyParsers.notifyProducers.aborted = t.aborted from rfl, haborted] at hflowing
    exact nomatch hflowing
  consumerLeaves := fun _ => .inl haborted
  consumerAborts := fun _ => haborted
  rescuedAborts := fun _ => haborted
  consumerCount := hcount

/-- Before the first step nobody waits. -/
theorem Waits.init (cfg : PipelineSetup) (batches : List Bytes) :
    Waits cfg (pipelineRun cfg batches).init where
  active := by simp [pipelineRun, total, ParserPhase.alive]
  active_le := Nat.le_refl _
  reader := fun h => nomatch h
  readerUnread := fun h => h.elim (fun h => nomatch h) fun h => nomatch h
  abortWakes := fun h => nomatch h
  popWaits := fun h => h.elim (fun h => nomatch h) fun h => nomatch h
  errorEnds := fun h => nomatch h
  parserLeaves := by simp [pipelineRun, total, ParserPhase.spent]
  waitsActive := by simp [pipelineRun, total]
  waitsQueue := by simp [pipelineRun, total]
  consumerLeaves := by simp [pipelineRun, total]
  consumerAborts := fun h => nomatch h
  rescuedAborts := fun h => nomatch h
  consumerCount := fun _ h => absurd rfl h

/-- A parser goes on: it leaves only if it may, and waits only if it must. -/
theorem Waits.parser {i : Nat} {p : ParserPhase} (h : Waits cfg s) (hp : s.parsers[i]? = some p)
    (p' : ParserPhase) (halive : p'.alive = p.alive)
    (hspent : p'.spent ≤ p.spent ∨ s.readerDone = true ∨ s.aborted = true)
    (hpush : p'.waitsPush ≤ p.waitsPush ∨ s.aborted = false)
    (hraw : p'.waitsRaw ≤ p.waitsRaw ∨ (s.readerDone = false ∧ s.aborted = false)) :
    Waits cfg { s with parsers := s.parsers.set i p' } where
  active := (total_set_same hp halive).trans h.active
  active_le := h.active_le
  reader := h.reader
  readerUnread := h.readerUnread
  abortWakes := by
    intro (haborted : s.aborted = true)
    obtain ⟨hreader, hwaits⟩ := h.abortWakes haborted
    have hset := total_set hp p' (f := ParserPhase.waitsPush)
    have hle := hpush.resolve_right (by simp [haborted])
    exact ⟨hreader, by simp only; omega⟩
  popWaits := by
    intro hends
    have hwaits := h.popWaits hends
    have hset := total_set hp p' (f := ParserPhase.waitsRaw)
    have hle := hraw.resolve_right fun hgo => by simp [hgo] at hends
    simp only
    omega
  errorEnds := h.errorEnds
  parserLeaves := by
    intro hleft
    cases hspent with
    | inl hle =>
        have hset := total_set hp p' (f := ParserPhase.spent)
        exact h.parserLeaves (hleft.imp id fun hpos => by simp only at hpos; omega)
    | inr hends => exact hends
  waitsActive := h.waitsActive
  waitsQueue := h.waitsQueue
  consumerLeaves := h.consumerLeaves
  consumerAborts := h.consumerAborts
  rescuedAborts := h.rescuedAborts
  consumerCount := h.consumerCount

/-- A notification on `producer_cv` breaks nothing. -/
theorem Waits.notifyProducer {reader : ReaderPhase} {parsers : List ParserPhase}
    {chosen : ProducerChoice} (h : Waits cfg s)
    (hnotified : ProducerNotified s.reader s.parsers chosen reader parsers) :
    Waits cfg { s with reader, parsers } where
  active := (hnotified.total_eq fun _ => rfl).trans h.active
  active_le := h.active_le
  reader := by
    intro hdone
    have hends := h.reader hdone
    cases hnotified.reader_cases with
    | inl hsame => exact hsame ▸ hends
    | inr hwoken => exact .inr (hends.resolve_left (by simp [hwoken.1]))
  readerUnread := by
    intro hwait
    cases hnotified.reader_cases with
    | inl hsame => exact h.readerUnread (hsame ▸ hwait)
    | inr hwoken => exact h.readerUnread (.inl hwoken.1)
  abortWakes := by
    intro (haborted : s.aborted = true)
    obtain ⟨hreader, hwaits⟩ := h.abortWakes haborted
    cases hnotified with
    | reader hwaiting => exact absurd hwaiting hreader
    | @parser i item hp =>
        have hset := total_set hp (.pushNotified item) (f := ParserPhase.waitsPush)
        exact ⟨hreader, by simp only [ParserPhase.waitsPush] at hset ⊢; omega⟩
    | nobody _ _ => exact ⟨hreader, hwaits⟩
  popWaits := fun hends => (hnotified.total_eq fun _ => rfl).trans (h.popWaits hends)
  errorEnds := h.errorEnds
  parserLeaves := fun hleft => h.parserLeaves (by
    rwa [show total ParserPhase.spent parsers = total ParserPhase.spent s.parsers from
      hnotified.total_eq fun _ => rfl] at hleft)
  waitsActive := h.waitsActive
  waitsQueue := h.waitsQueue
  consumerLeaves := h.consumerLeaves
  consumerAborts := h.consumerAborts
  rescuedAborts := h.rescuedAborts
  consumerCount := h.consumerCount

/-- A consumer goes on: it waits only for a parser, and leaves only if it may. -/
theorem Waits.consumer {j : Nat} {c : ConsumerPhase} (h : Waits cfg s)
    (hc : s.consumers[j]? = some c) (c' : ConsumerPhase)
    (hwaits : c'.waits ≤ c.waits ∨ (0 < s.activeParsers ∧ s.queue = []))
    (hcomes : c.comes ≤ c'.comes ∨ s.aborted = true ∨ s.queue = [])
    (hended : c'.ended ≤ c.ended ∨ s.aborted = true ∨ (s.activeParsers = 0 ∧ s.queue = [])) :
    Waits cfg { s with consumers := s.consumers.set j c' } where
  active := h.active
  active_le := h.active_le
  reader := h.reader
  readerUnread := h.readerUnread
  abortWakes := h.abortWakes
  popWaits := h.popWaits
  errorEnds := h.errorEnds
  parserLeaves := h.parserLeaves
  waitsActive := by
    intro hpos
    have hset := total_set hc c' (f := ConsumerPhase.waits)
    cases hwaits with
    | inl hle => exact h.waitsActive (by simp only at hpos; omega)
    | inr hgo => exact hgo.1
  waitsQueue := by
    intro (hflowing : s.aborted = false) hpos
    have hset := total_set hc c' (f := ConsumerPhase.waits)
    have hset' := total_set hc c' (f := ConsumerPhase.comes)
    simp only at hpos ⊢
    by_cases hqueue : s.queue = []
    · simp [hqueue]
    · have hle := hwaits.resolve_right fun hgo => hqueue hgo.2
      have hle' := hcomes.resolve_right fun hgo => by simp [hflowing, hqueue] at hgo
      have hlength := h.waitsQueue hflowing (by omega)
      omega
  consumerLeaves := by
    intro hpos
    have hset := total_set hc c' (f := ConsumerPhase.ended)
    cases hended with
    | inl hle => exact h.consumerLeaves (by simp only at hpos; omega)
    | inr hends => exact hends
  consumerAborts := h.consumerAborts
  rescuedAborts := h.rescuedAborts
  consumerCount := fun hfailed hmain => (List.length_set ..).trans (h.consumerCount hfailed hmain)

/-- All consumers are woken. -/
theorem Waits.wakeConsumers (h : Waits cfg s) :
    Waits cfg { s with consumers := notifyAll ConsumerPhase.woken s.consumers } := { h with
  waitsActive := fun hwaits => absurd hwaits (by rw [waits_notifyAll]; omega)
  waitsQueue := fun _ hwaits => absurd hwaits (by rw [waits_notifyAll]; omega)
  consumerLeaves := fun hended => h.consumerLeaves (by
    rwa [wakes_woken (fun _ => rfl) (Wakes.notifyAll _)] at hended)
  consumerCount := fun hfailed hmain =>
    (Wakes.notifyAll s.consumers).length_eq.trans (h.consumerCount hfailed hmain) }

/-- The statement goes on, or fails. -/
theorem Waits.main {main : MainPhase} (h : Waits cfg s) (hrescued : main.rescued = false)
    (hfailed : main.failed = true ∨ s.main.failed = false ∧ s.main ≠ .creating) :
    Waits cfg { s with main } := { h with
  rescuedAborts := fun hrescued' => absurd hrescued' (by simp [hrescued])
  consumerCount := by
    intro hgood hmain
    obtain ⟨hfine, hcreated⟩ := hfailed.resolve_left (by simp [show main.failed = false from hgood])
    exact h.consumerCount hfine hcreated }

/-- A consumer that did not get an item yet is not gone. -/
theorem popping_counts {c : ConsumerPhase} {hasPending : Bool}
    (hc : c = .popping hasPending ∨ c = .notified hasPending) :
    c.waits = 0 ∧ c.ended = 0 ∧ c.alive = 1 ∧ c.errs = 0 := by
  obtain rfl | rfl := hc <;> exact ⟨rfl, rfl, rfl, rfl⟩

/-- **One step** keeps what holds of the waits. -/
theorem Waits.step (h : Waits cfg s) (hmove : Move cfg s a s') : Waits cfg s' := by
  cases hmove with
  | dropRaw hunread haborted hreader =>
      exact { h with
        reader := fun hdone => .inr haborted
        readerUnread := fun hwait => hwait.elim (by rintro ⟨⟩) (by rintro ⟨⟩)
        abortWakes := fun _ => ⟨by rintro ⟨⟩, (h.abortWakes haborted).2⟩ }
  | @pushRaw chosen batch rest parsers hunread hflowing hreader hnotify =>
      have hrunning : s.readerDone = false := by
        cases hdone : s.readerDone with
        | false => rfl
        | true =>
            have hends := h.reader hdone
            simp [hflowing] at hends
            simp [hends] at hreader
      have hwakes := Wakes.notifyOne hnotify
      exact { h with
        active := (wakes_wokenRaw rfl hwakes).trans h.active
        reader := fun hdone => absurd hdone (by simp [hrunning])
        readerUnread := fun hwait => hwait.elim (by rintro ⟨⟩) (by rintro ⟨⟩)
        abortWakes := fun haborted => absurd haborted (by simp [hflowing])
        popWaits := fun hends => absurd hends (by simp [hrunning, hflowing])
        parserLeaves := fun hleft => h.parserLeaves (by
          rwa [show total ParserPhase.spent parsers = total ParserPhase.spent s.parsers from
            wakes_wokenRaw rfl hwakes] at hleft) }
  | waitRaw hunread hflowing hreader =>
      exact { h with
        reader := fun hdone => by
          have hends := h.reader hdone
          simp [hflowing] at hends
          simp [hends] at hreader
        readerUnread := fun _ => by simp [hunread]
        abortWakes := fun haborted => absurd haborted (by simp [hflowing]) }
  | readerDone hreader =>
      exact { h.wakeConsumers with
        active := (total_notifyRaw rfl _).trans h.active
        reader := fun _ => .inl rfl
        readerUnread := fun hwait => hwait.elim (by rintro ⟨⟩) (by rintro ⟨⟩)
        abortWakes := fun haborted =>
          ⟨by rintro ⟨⟩, (total_notifyRaw rfl _).trans (h.abortWakes haborted).2⟩
        popWaits := fun _ => waitsRaw_notifyAll _
        errorEnds := fun _ => .inl rfl
        parserLeaves := fun _ => .inl rfl }
  | popWait hp hpopping hraw hdone hflowing =>
      exact h.parser hp _ (by obtain rfl | rfl := hpopping <;> rfl) (.inl (Nat.zero_le _))
        (.inr hflowing) (.inr ⟨hdone, hflowing⟩)
  | popLeave hp hpopping hends =>
      exact h.parser hp _ (by obtain rfl | rfl := hpopping <;> rfl)
        (.inr (hends.symm.imp And.left id)) (.inl (Nat.zero_le _)) (.inl (Nat.zero_le _))
  | @popTake i chosen p batch rest reader parsers hp hpopping hraw hflowing hnotified =>
      have hparser := h.parser hp (.parsing batch) (by obtain rfl | rfl := hpopping <;> rfl)
        (.inl (Nat.zero_le _)) (.inl (Nat.zero_le _)) (.inl (Nat.zero_le _))
      exact { hparser.notifyProducer hnotified with }
  | parse hp _ =>
      exact h.parser hp _ rfl (.inl (Nat.zero_le _)) (.inl (Nat.zero_le _)) (.inl (Nat.zero_le _))
  | parseFails hp _ =>
      exact { h.parser hp (.leaving (some _)) rfl (.inl (Nat.zero_le _)) (.inl (Nat.zero_le _))
        (.inl (Nat.zero_le _)) with }
  | drop hp hpushing haborted =>
      exact h.parser hp _ (by obtain rfl | rfl := hpushing <;> rfl) (.inl (Nat.zero_le _))
        (.inl (Nat.zero_le _)) (.inl (Nat.zero_le _))
  | @push i chosen p item consumers hp hpushing hflowing hnotify =>
      have hparser := h.parser hp .popping (by obtain rfl | rfl := hpushing <;> rfl)
        (.inl (Nat.zero_le _)) (.inl (Nat.zero_le _)) (.inl (Nat.zero_le _))
      have halive : p.alive = 1 := by obtain rfl | rfl := hpushing <;> rfl
      have hactive : 0 < s.activeParsers := by
        have hle := le_total hp (f := ParserPhase.alive)
        have heq := h.active
        omega
      have hwakes := Wakes.notifyOne hnotify
      have hended := wakes_woken (f := ConsumerPhase.ended) (fun _ => rfl) hwakes
      exact { hparser with
        waitsActive := fun _ => hactive
        waitsQueue := by
          intro hflowing hpos
          simp only [List.length_append, List.length_singleton]
          obtain ⟨hnone, rfl⟩ | ⟨hwaits, hcomes⟩ := notifyOne_consumers hnotify
          · exact absurd hpos (by simp only; omega)
          · have hlength := h.waitsQueue hflowing (by omega)
            omega
        consumerLeaves := by
          intro hpos
          rw [show total ConsumerPhase.ended consumers = _ from hended] at hpos
          obtain haborted | hgone := h.consumerLeaves hpos
          · exact .inl haborted
          · omega
        consumerCount := fun hfailed hmain =>
          hwakes.length_eq.trans (h.consumerCount hfailed hmain) }
  | pushWait hp hpushing hflowing _ =>
      exact h.parser hp _ (by obtain rfl | rfl := hpushing <;> rfl) (.inl (Nat.zero_le _))
        (.inr hflowing) (.inl (Nat.zero_le _))
  | @parserFails i e hp hfirst =>
      have hactive := h.active
      have hset := total_set hp .gone (f := ParserPhase.alive)
      simp only [ParserPhase.alive] at hset
      refine h.aborts (t := { s with
        activeParsers := s.activeParsers - 1, error := some e, aborted := true
        parsers := s.parsers.set i .gone
        consumers := notifyAll ConsumerPhase.woken s.consumers })
        rfl ?_ (Nat.sub_le _ _) rfl rfl ?_ ?_
      · simp only
        omega
      · exact fun hwaits => absurd hwaits (by rw [waits_notifyAll]; omega)
      · exact h.wakeConsumers.consumerCount
  | @parserDone i error hp hrecorded =>
      have hactive := h.active
      have hset := total_set hp .gone (f := ParserPhase.alive)
      have hpush := total_set_same hp
        (show ParserPhase.waitsPush .gone = ParserPhase.waitsPush _ from rfl)
      have hraw := total_set_same hp
        (show ParserPhase.waitsRaw .gone = ParserPhase.waitsRaw _ from rfl)
      have hends : s.readerDone = true ∨ s.aborted = true := by
        cases error with
        | none =>
            have hle := le_total hp (f := ParserPhase.spent)
            exact h.parserLeaves (.inr hle)
        | some e => exact h.errorEnds (hrecorded rfl)
      simp only [ParserPhase.alive] at hset
      exact { h.wakeConsumers with
        active := by simp only; omega
        active_le := (Nat.sub_le _ _).trans h.active_le
        abortWakes := fun haborted =>
          ⟨(h.abortWakes haborted).1, hpush.trans (h.abortWakes haborted).2⟩
        popWaits := fun hends => hraw.trans (h.popWaits hends)
        parserLeaves := fun _ => hends
        waitsActive := fun hwaits => absurd hwaits (by rw [waits_notifyAll]; omega)
        consumerLeaves := by
          intro hpos
          rw [wakes_woken (fun _ => rfl) (Wakes.notifyAll _)] at hpos
          exact (h.consumerLeaves hpos).imp id fun hgone => ⟨by simp only; omega, hgone.2⟩ }
  | create hmain =>
      exact { h with
        waitsActive := by simp [total, ConsumerPhase.waits]
        waitsQueue := by simp [total, ConsumerPhase.waits]
        consumerLeaves := by simp [total, ConsumerPhase.ended]
        rescuedAborts := by rintro ⟨⟩
        consumerCount := fun _ _ => List.length_replicate .. }
  | createFails hmain => exact { h.main rfl (.inl rfl) with }
  | wait hc hpopping hqueue hflowing hactive =>
      have hgo : 0 < s.activeParsers := by
        by_contra hzero
        have hends := h.parserLeaves (.inl (by have := cfg.parsers_pos; omega))
        rw [hflowing] at hends
        exact hactive (hends.resolve_right (by rintro ⟨⟩)) (by omega)
      obtain ⟨-, hended, -⟩ := popping_counts hpopping
      exact h.consumer hc _ (.inr ⟨hgo, hqueue⟩) (.inr (.inr hqueue)) (.inl (Nat.zero_le _))
  | leave hc hpopping hends =>
      exact h.consumer hc _ (.inl (Nat.zero_le _)) (.inr (hends.imp id And.right)) (.inr hends)
  | @receive j chosen c hasPending item rest reader parsers hc hpopping hqueue hflowing hnotified =>
      have hset : total ConsumerPhase.waits (s.consumers.set j (.ingesting hasPending)) + c.waits =
        total ConsumerPhase.waits s.consumers + 0 := total_set hc _
      have hset' : total ConsumerPhase.comes (s.consumers.set j (.ingesting hasPending)) + c.comes =
        total ConsumerPhase.comes s.consumers + 0 := total_set hc _
      have hset'' :
          total ConsumerPhase.ended (s.consumers.set j (.ingesting hasPending)) + c.ended =
        total ConsumerPhase.ended s.consumers + 0 := total_set hc _
      obtain ⟨hwaits, hended, -⟩ := popping_counts hpopping
      have hcomes : c.comes ≤ 1 := by obtain rfl | rfl := hpopping <;> simp [ConsumerPhase.comes]
      exact { h.notifyProducer hnotified with
        waitsActive := fun hpos => h.waitsActive (by simp only at hpos; omega)
        waitsQueue := by
          intro hflowing hpos
          have hlength := h.waitsQueue hflowing (by simp only at hpos; omega)
          rw [hqueue, List.length_cons] at hlength
          simp only
          omega
        consumerLeaves := by
          intro hpos
          have hends := h.consumerLeaves (by simp only at hpos; omega)
          rw [hqueue, hflowing] at hends
          simp at hends
        consumerCount := fun hfailed hmain =>
          (List.length_set ..).trans (h.consumerCount hfailed hmain) }
  | ingest hc =>
      exact h.consumer hc _ (.inl (Nat.zero_le _)) (.inl (Nat.zero_le _)) (.inl (Nat.zero_le _))
  | ingestFails hc =>
      exact { h.consumer hc (.failing _) (.inl (Nat.zero_le _)) (.inl (Nat.zero_le _))
        (.inl (Nat.zero_le _)) with }
  | flush hc =>
      exact h.consumer hc _ (.inl (Nat.zero_le _)) (.inl (Nat.zero_le _)) (.inl (Nat.le_refl _))
  | flushFails hc =>
      exact { h.consumer hc (.failing _) (.inl (Nat.zero_le _)) (.inl (Nat.zero_le _))
        (.inl (Nat.zero_le _)) with }
  | @fail j e hc =>
      have hset := total_set hc .gone (f := ConsumerPhase.waits)
      simp only [ConsumerPhase.waits] at hset
      exact h.aborts (t := { s with
        consumerError := s.consumerError.or (some e), consumers := s.consumers.set j .gone
        aborted := true, readerDone := true }) rfl h.active (Nat.le_refl _) rfl rfl
        (fun hpos => h.waitsActive (by simp only at hpos; omega))
        (fun hfailed hmain => (List.length_set ..).trans (h.consumerCount hfailed hmain))
  | @failAlone j e hc =>
      have hset := total_set hc .gone (f := ConsumerPhase.waits)
      simp only [ConsumerPhase.waits] at hset
      exact h.aborts (t := { s with
        main := .joining (some e), consumers := s.consumers.set j .gone
        aborted := true, readerDone := true }) rfl h.active (Nat.le_refl _) rfl rfl
        (fun hpos => h.waitsActive (by simp only at hpos; omega)) (by rintro ⟨⟩)
  | rethrow hmain hconsumer => exact { h.main rfl (.inl rfl) with }
  | joinConsumers hmain _ _ => exact h.main rfl (.inr (by rw [hmain]; exact ⟨rfl, by rintro ⟨⟩⟩))
  | finish hmain => exact h.main rfl (.inr (by rw [hmain]; exact ⟨rfl, by rintro ⟨⟩⟩))
  | finishFails hmain => exact { h.main rfl (.inl rfl) with }
  | @rescue e hmain =>
      exact h.aborts
        (t := { s with main := .joining (some e), aborted := true, readerDone := true })
        rfl h.active (Nat.le_refl _) rfl rfl h.waitsActive (by rintro ⟨⟩)
  | raise hmain _ => exact { h.main rfl (.inl rfl) with }
  | «return» hmain _ _ _ => exact h.main rfl (.inr (by rw [hmain]; exact ⟨rfl, by rintro ⟨⟩⟩))
  | wakeReader hreader =>
      exact { h with
        reader := fun hdone => .inr ((h.reader hdone).resolve_left (by simp [hreader]))
        readerUnread := fun _ => h.readerUnread (.inl hreader)
        abortWakes := fun haborted => absurd hreader (h.abortWakes haborted).1 }
  | wakePop hp =>
      exact h.parser hp _ rfl (.inl (Nat.zero_le _)) (.inl (Nat.zero_le _)) (.inl (Nat.zero_le _))
  | wakePush hp =>
      exact h.parser hp _ rfl (.inl (Nat.zero_le _)) (.inl (Nat.zero_le _)) (.inl (Nat.zero_le _))
  | wakeConsumer hc =>
      exact h.consumer hc _ (.inl (Nat.zero_le _)) (.inl (Nat.zero_le _)) (.inl (Nat.zero_le _))

/-! ## parsers that wait in `Push` -/

/-- `Pop` notifies the reader only while no parser waits for the place it freed. -/
def ReachesParser (s : PipelineRun) : RunEvent → Prop
  | .pop _ chosen => s.queue ≠ [] → s.aborted = false → chosen = .reader →
      total ParserPhase.waitsPush s.parsers = 0
  | _ => True

/-- Free places in the queue have a parser coming, while some parser waits. -/
def PushWaits (cfg : PipelineSetup) (s : PipelineRun) : Prop :=
  0 < total ParserPhase.waitsPush s.parsers →
    cfg.capacity ≤ s.queue.length + total ParserPhase.comesPush s.parsers

/-- A parser goes on that does not come for a place. -/
theorem PushWaits.parser {i : Nat} {p : ParserPhase} (h : PushWaits cfg s)
    (hp : s.parsers[i]? = some p) (p' : ParserPhase) (hwaits : p'.waitsPush = p.waitsPush)
    (hcomes : p'.comesPush = p.comesPush) :
    PushWaits cfg { s with parsers := s.parsers.set i p' } := by
  unfold PushWaits
  rw [total_set_same hp hwaits, total_set_same hp hcomes]
  exact h

/-- A notification on `producer_cv` brings a parser, if it changes anything. -/
theorem PushWaits.notifyProducer {reader : ReaderPhase} {parsers : List ParserPhase}
    {chosen : ProducerChoice} (h : PushWaits cfg s)
    (hnotified : ProducerNotified s.reader s.parsers chosen reader parsers) :
    PushWaits cfg { s with reader, parsers } := by
  cases hnotified with
  | reader _ => exact h
  | @parser i item hp =>
      intro hpos
      have hwaits : total ParserPhase.waitsPush (s.parsers.set i (.pushNotified item)) + 1 =
        total ParserPhase.waitsPush s.parsers + 0 := total_set hp _
      have hcomes : total ParserPhase.comesPush (s.parsers.set i (.pushNotified item)) + 0 =
        total ParserPhase.comesPush s.parsers + 1 := total_set hp _
      have hfull := h (by omega)
      simp only at hpos ⊢
      omega
  | nobody _ _ => exact h

/-- Where no parser waits for a place, nothing is promised. -/
theorem PushWaits.of_quiet (h : total ParserPhase.waitsPush s.parsers = 0) : PushWaits cfg s :=
  fun hpos => absurd hpos (by omega)

/-- **One step** whose notification reaches a waiting parser keeps the promise. -/
theorem PushWaits.step (h : PushWaits cfg s) (hwaits : Waits cfg s) (hmeant : s.ReachesParser a)
    (hmove : Move cfg s a s') : PushWaits cfg s' := by
  cases hmove with
  | pushRaw _ _ _ hnotify =>
      have hwakes := Wakes.notifyOne hnotify
      unfold PushWaits
      rw [wakes_wokenRaw rfl hwakes, wakes_wokenRaw rfl hwakes]
      exact h
  | readerDone _ =>
      unfold PushWaits
      rw [total_notifyRaw rfl, total_notifyRaw rfl]
      exact h
  | popWait hp hpopping _ _ _ =>
      exact h.parser hp _ (by obtain rfl | rfl := hpopping <;> rfl)
        (by obtain rfl | rfl := hpopping <;> rfl)
  | popLeave hp hpopping _ =>
      exact h.parser hp _ (by obtain rfl | rfl := hpopping <;> rfl)
        (by obtain rfl | rfl := hpopping <;> rfl)
  | @popTake i chosen p batch rest reader parsers hp hpopping hraw hflowing hnotified =>
      have hparser := h.parser hp (.parsing batch) (by obtain rfl | rfl := hpopping <;> rfl)
        (by obtain rfl | rfl := hpopping <;> rfl)
      exact hparser.notifyProducer hnotified
  | parse hp _ => exact h.parser hp _ rfl rfl
  | parseFails hp _ => exact h.parser hp _ rfl rfl
  | drop hp hpushing haborted =>
      refine .of_quiet ?_
      have hnone := (hwaits.abortWakes haborted).2
      rw [total_set_same hp (by obtain rfl | rfl := hpushing <;> rfl)]
      exact hnone
  | @push i chosen p item consumers hp hpushing hflowing hnotify =>
      intro hpos
      have hsame : total ParserPhase.waitsPush (s.parsers.set i .popping) =
          total ParserPhase.waitsPush s.parsers :=
        total_set_same hp (by obtain rfl | rfl := hpushing <;> rfl)
      have hcomes : total ParserPhase.comesPush (s.parsers.set i .popping) + p.comesPush =
          total ParserPhase.comesPush s.parsers + 0 := total_set hp _
      have hle : p.comesPush ≤ 1 := by
        obtain rfl | rfl := hpushing <;> simp [ParserPhase.comesPush]
      have hfull := h (hsame ▸ hpos)
      simp only [List.length_append, List.length_singleton]
      omega
  | pushWait hp hpushing _ hfull =>
      intro _
      simp only
      omega
  | parserFails _ _ => exact .of_quiet (waitsPush_notifyAll _)
  | parserDone hp _ => exact h.parser hp _ rfl rfl
  | receive hc hpopping hqueue hflowing hnotified =>
      have hne : s.queue ≠ [] := by simp [hqueue]
      cases hnotified with
      | reader _ => exact .of_quiet (hmeant hne hflowing rfl)
      | @parser i item hp =>
          intro hpos
          have hsame : total ParserPhase.waitsPush (s.parsers.set i (.pushNotified item)) + 1 =
            total ParserPhase.waitsPush s.parsers + 0 := total_set hp _
          have hcomes : total ParserPhase.comesPush (s.parsers.set i (.pushNotified item)) + 0 =
            total ParserPhase.comesPush s.parsers + 1 := total_set hp _
          have hfull := h (by omega)
          rw [hqueue, List.length_cons] at hfull
          simp only
          omega
      | nobody _ hquiet =>
          refine .of_quiet (total_eq_zero_iff.mpr fun p hp => ?_)
          have hnone := hquiet p hp
          cases p <;> simp_all [ParserPhase.wokenPush, ParserPhase.waitsPush]
  | fail _ => exact .of_quiet (waitsPush_notifyAll _)
  | failAlone _ => exact .of_quiet (waitsPush_notifyAll _)
  | rescue _ => exact .of_quiet (waitsPush_notifyAll _)
  | wakePop hp => exact h.parser hp _ rfl rfl
  | @wakePush i item hp =>
      intro hpos
      have hsame : total ParserPhase.waitsPush (s.parsers.set i (.pushNotified item)) + 1 =
        total ParserPhase.waitsPush s.parsers + 0 := total_set hp _
      have hcomes : total ParserPhase.comesPush (s.parsers.set i (.pushNotified item)) + 0 =
        total ParserPhase.comesPush s.parsers + 1 := total_set hp _
      have hfull := h (by omega)
      simp only
      omega
  | dropRaw | waitRaw | create | createFails | wait | leave | ingest | ingestFails | flush |
      flushFails | rethrow | joinConsumers | finish | finishFails | raise | «return» | wakeReader |
      wakeConsumer => exact h

end PipelineRun

end RawDuck
