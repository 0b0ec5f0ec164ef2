import RawDuck.CountedRun
import RawDuck.FallbackFile
import RawDuck.RowCount
import Mathlib.Algebra.BigOperators.Group.Finset.Basic
import Mathlib.Algebra.Order.BigOperators.Group.Finset

/-!
# RawDuck.SkippedLines

The `errors` column of `raw_ingest_file` under `ignore_errors`: how many lines
were skipped.  A batch carries the count of its own lines, the merge of two
batches drops that of the second, the concurrent entry point counts twice when it
hands a batch on to the plain one, and of two consumers that add to the counter at
once one is lost.

* `parseErrors_process` — the count a parsed batch carries;
* `CountsLines` — a step loses and doubles no count;
* `CountInv` — the lines counted and those on their way are those of the file;
* `rawIngestFile_errors` — the column of a call whose steps all meet
  `CountsLines`.
-/

namespace RawDuck

open Fallible Transition Transition.System

/-! ## the lines a batch skips -/

/-- The lines of a text that are neither blank nor JSON. -/
def badLines (duck : Duck) (text : Bytes) : Nat :=
  (lines text).countP fun line => !isBlank line && (duck.yyjsonRead line).isNone

/-- With `ignore_errors`, the line loop counts the lines it skips. -/
theorem parseLines_errors {duck : Duck} {options : RawParseOptions} (hignore : options.ignoreErrors)
    {ls : List Bytes} {lineNumber : Nat} {rows : List Json} {errors : Nat}
    (h : parseLines duck options ls lineNumber = .ok (rows, errors)) :
    errors = ls.countP fun line => !isBlank line && (duck.yyjsonRead line).isNone := by
  induction ls generalizing lineNumber rows errors with
  | nil =>
      obtain ⟨-, rfl⟩ := Prod.mk.inj (Except.ok.inj h)
      rfl
  | cons line rest ih =>
      rw [parseLines] at h
      cases hblank : isBlank line with
      | true =>
          rw [hblank, if_pos rfl] at h
          rw [ih h, List.countP_cons_of_neg (by simp [hblank])]
      | false =>
          rw [hblank, if_neg (by simp)] at h
          cases hread : duck.yyjsonRead line with
          | some row =>
              simp only [hread] at h
              obtain ⟨⟨others, skipped⟩, hrest, h⟩ := bind_eq_ok.mp h
              obtain ⟨-, rfl⟩ := Prod.mk.inj (pure_eq_ok.mp h)
              rw [ih hrest, List.countP_cons_of_neg (by simp [hread])]
          | none =>
              simp only [hread, hignore, if_true] at h
              obtain ⟨⟨others, skipped⟩, hrest, h⟩ := bind_eq_ok.mp h
              obtain ⟨-, rfl⟩ := Prod.mk.inj (pure_eq_ok.mp h)
              rw [ih hrest, List.countP_cons_of_pos (by simp [hblank, hread])]

/-- **What a parsed batch carries**: the lines skipped, or 0 when the whole text
is one document. -/
theorem parseErrors_process {duck : Duck} {options : RawParseOptions}
    (hignore : options.ignoreErrors)
    {text : Bytes} {parsed : RawParsedPayload} (h : process duck options text = .ok parsed) :
    parsed.payload.parseErrors =
      if (duck.yyjsonRead text).isSome then 0 else badLines duck text := by
  obtain ⟨payload, hparse, h⟩ := bind_eq_ok.mp h
  obtain ⟨columns, -, h⟩ := bind_eq_ok.mp h
  obtain rfl := pure_eq_ok.mp h
  obtain ⟨⟨read, parseErrors⟩, hread, hparse⟩ := bind_eq_ok.mp hparse
  obtain ⟨⟨rows, scalarRows⟩, -, hparse⟩ := bind_eq_ok.mp hparse
  obtain rfl := pure_eq_ok.mp hparse
  rw [readRows] at hread
  cases hroot : duck.yyjsonRead text with
  | some root =>
      simp only [hroot] at hread
      obtain ⟨-, rfl⟩ := Prod.mk.inj (Except.ok.inj hread)
      rfl
  | none =>
      simp only [hroot] at hread
      exact parseLines_errors hignore hread

/-- The lines skipped in a split of a text are those of the text. -/
theorem badLines_isSplit (duck : Duck) {text : Bytes} {batches : List Bytes}
    (h : IsSplit text batches) : (batches.map (badLines duck)).sum = badLines duck text := by
  induction h with
  | last batch => simp
  | cut batch hrest ih =>
      have hnewline : badLines duck (batch ++ [10]) = badLines duck batch := by
        rw [badLines, badLines, lines_append_newline, List.countP_append]
        have hempty : lines [] = [[]] := rfl
        simp [hempty, isBlank]
      rw [List.map_cons, List.sum_cons, ih, hnewline, badLines, badLines, badLines,
        lines_append_newline, List.countP_append]

/-- A batch of whitespace has no line to skip. -/
theorem badLines_of_white (duck : Duck) {text : Bytes} (h : isWhite text = true) :
    badLines duck text = 0 := by
  rw [badLines, List.countP_eq_zero]
  intro line hline
  have hwhite : isWhite line = true := by
    rw [← joinLines_lines text, isWhite_joinLines, List.all_eq_true] at h
    exact h line hline
  have hblank : isBlank line = true := by
    rw [isWhite, List.all_eq_true] at hwhite
    rw [isBlank, List.all_eq_true]
    intro c hc
    have hspace := hwhite c hc
    simp only [isJsonSpace, Bool.or_eq_true] at hspace
    simp only [characterIsSpace, Bool.or_eq_true]
    tauto
  simp [hblank]

/-- The batches of whitespace that the reader drops skip no line. -/
theorem badLines_emit (duck : Duck) (batches : List Bytes) :
    ((emit batches).map (badLines duck)).sum = (batches.map (badLines duck)).sum := by
  induction batches with
  | nil => rfl
  | cons batch batches ih =>
      rw [List.map_cons, List.sum_cons, ← ih, emit, List.filter_cons]
      cases hwhite : isWhite batch with
      | true => simp [badLines_of_white duck hwhite, emit]
      | false => simp [emit]

/-- The batches of a file skip the lines of the file, whatever the batch size
and the reads. -/
theorem badLines_readerBatches (duck : Duck) (settings : ReaderSettings) {reads : List Bytes}
    (hreads : ∀ buffer ∈ reads, buffer ≠ []) :
    ((readerBatches settings reads).map (badLines duck)).sum = badLines duck reads.flatten := by
  rw [readerBatches, badLines_emit]
  exact badLines_isSplit duck (@isSplit_readFile settings reads [] 0 hreads rfl)

/-! ## the run -/

section Run

variable {σ : Type} {n : Nat} {cfg : FileConfig}

/-- The lines a consumer has in hand. -/
def FileRun.held (s : FileRun σ n) (c : Fin n) : Nat :=
  if s.consuming c then ((s.pending c).map fun item => item.parsed.payload.parseErrors).getD 0
  else 0

/-- The lines to skip that are on their way: in hand, in the queues and not read
yet. -/
def FileRun.skipping (duck : Duck) (s : FileRun σ n) : Nat :=
  ∑ c, s.held c + (s.queue.map fun item => item.parsed.payload.parseErrors).sum +
    ((s.parsing ++ (s.rawQueue ++ s.unread)).map (badLines duck)).sum

/-- What holds throughout a call without failures: what is behind a thread that ended
is empty. -/
structure FlowInv (s : FileRun σ n) : Prop where
  flowing : s.aborted = false
  read : s.reading = false → s.unread = []
  left : ∀ c, s.consuming c = false → s.drained = true
  finished : s.finished = true → ∀ c, s.consuming c = false
  returned : s.outcome = some (.ok ⟨⟩) → s.finished = true

theorem drained_iff {s : FileRun σ n} :
    s.drained = true ↔ s.reading = false ∧ s.rawQueue = [] ∧ s.parsing = [] ∧ s.queue = [] := by
  simp only [FileRun.drained, Bool.and_eq_true, List.isEmpty_iff, Bool.not_eq_true']
  tauto

/-- A sum over the consumers where only one of them changes. -/
theorem sum_of_one {f g : Fin n → Nat} (c : Fin n) (h : ∀ d, d ≠ c → g d = f d) :
    ∑ d, g d + f c = ∑ d, f d + g c := by
  have herase : ∑ d ∈ Finset.univ.erase c, g d = ∑ d ∈ Finset.univ.erase c, f d :=
    Finset.sum_congr rfl fun d hd => h d (Finset.ne_of_mem_erase hd)
  rw [← Finset.add_sum_erase _ g (Finset.mem_univ c),
    ← Finset.add_sum_erase _ f (Finset.mem_univ c),
    herase]
  omega

theorem held_of_pending {s : FileRun σ n} {c : Fin n} {item : PipelineItem}
    (hconsuming : s.consuming c = true) (hpending : s.pending c = some item) :
    s.held c = item.parsed.payload.parseErrors := by
  rw [FileRun.held, if_pos hconsuming, hpending]
  rfl

theorem held_of_none {s : FileRun σ n} {c : Fin n} (hpending : s.pending c = none) :
    s.held c = 0 := by
  rw [FileRun.held, hpending]
  split <;> rfl

/-- The lines in hand with another item pending. -/
theorem sum_held_keepPending {s : FileRun σ n} {c : Fin n} (hconsuming : s.consuming c = true)
    (rest : List PipelineItem) (item : PipelineItem) (t : σ) :
    ∑ d, (({ s with queue := rest } : FileRun σ n).keepPending c (some item) t).held d + s.held c =
      ∑ d, s.held d + item.parsed.payload.parseErrors := by
  have hc : (({ s with queue := rest } : FileRun σ n).keepPending c (some item) t).held c =
      item.parsed.payload.parseErrors := by
    apply held_of_pending
    · exact hconsuming
    · exact Function.update_self ..
  rw [← hc]
  apply sum_of_one c
  intro d hd
  simp [FileRun.held, FileRun.keepPending, Function.update_of_ne hd]

/-- The lines in hand without those of a consumer that leaves. -/
theorem sum_held_consumerLeaves (s : FileRun σ n) (c : Fin n) (t : σ) :
    ∑ d, (s.consumerLeaves c t).held d + s.held c = ∑ d, s.held d := by
  have hc : (s.consumerLeaves c t).held c = 0 := by
    simp [FileRun.held, FileRun.consumerLeaves]
  have hsum := @sum_of_one n s.held (s.consumerLeaves c t).held c fun d hd => by
    simp [FileRun.held, FileRun.consumerLeaves, Function.update_of_ne hd]
  omega

/-- The lines of the batches when one of them has been parsed. -/
theorem sum_badLines_eraseIdx (duck : Duck) {batches : List Bytes} {i : Nat} {batch : Bytes}
    (h : batches[i]? = some batch) :
    badLines duck batch + ((batches.eraseIdx i).map (badLines duck)).sum =
      (batches.map (badLines duck)).sum := by
  obtain ⟨hi, hget⟩ := List.getElem?_eq_some_iff.mp h
  have hperm := (List.getElem_cons_eraseIdx_perm hi).map (badLines duck)
  rw [hget] at hperm
  rw [← hperm.sum_eq, List.map_cons, List.sum_cons]

/-- Behind the last batch no batch comes. -/
theorem FlowInv.drained {target : FileTarget σ} {s s' : FileRun σ n} {a : FileEvent n}
    (h : FlowInv s) (hdrained : s.drained = true) (hflow : FileFlow cfg target s a s') :
    s'.drained = true := by
  obtain ⟨hreading, hrawQueue, hparsing, hqueue⟩ := drained_iff.mp hdrained
  cases hflow with
  | emit hunread =>
      rw [h.read hreading] at hunread
      exact nomatch hunread
  | readerDone => exact drained_iff.mpr ⟨rfl, hrawQueue, hparsing, hqueue⟩
  | popRaw hnext =>
      rw [hrawQueue] at hnext
      exact nomatch hnext
  | parse hbatch =>
      rw [hparsing] at hbatch
      exact nomatch hbatch
  | hold c hnext | coalesce c hnext | ingest c hnext =>
      rw [hqueue] at hnext
      exact nomatch hnext
  | leave c | ingestLast c | finish | join => exact hdrained

/-- One step keeps that. -/
theorem FlowInv.step {target : FileTarget σ} {s s' : FileRun σ n} {a : FileEvent n}
    (h : FlowInv s) (hflow : FileFlow cfg target s a s') : FlowInv s' := by
  have hdrained : ∀ c, s.consuming c = false → s'.drained = true :=
    fun c hc => h.drained (h.left c hc) hflow
  cases hflow with
  | emit hunread =>
      refine { h with read := fun hr => ?_, left := hdrained }
      exact absurd (hunread.symm.trans (h.read hr)) (by simp)
  | readerDone hunread => exact { h with read := fun _ => hunread, left := hdrained }
  | popRaw | parse | hold c | coalesce c | ingest c => exact { h with left := hdrained }
  | leave c hconsuming hover | ingestLast c hconsuming hover =>
      refine { h with left := fun _ _ => hover, finished := fun hf => ?_ }
      exact absurd (hconsuming.symm.trans (h.finished hf c)) (by simp)
  | finish hleft =>
      exact { h with finished := fun _ => hleft, returned := fun _ => rfl }
  | join hfinished => exact { h with returned := fun _ => hfinished }

/-! ## the counter -/

/-- The lines of the item that is pending behind a call. -/
def nextLines (call : Option IngestCall) : Nat :=
  (call.bind IngestCall.next).elim 0 fun item => item.parsed.payload.parseErrors

/-- The lines a call has added while its item is still pending. -/
def addedLines (call : Option IngestCall) : Nat :=
  call.elim 0 fun call => if call.stage.counted then call.item.parsed.payload.parseErrors else 0

theorem nextLines_none : nextLines none = 0 := rfl

theorem addedLines_none : addedLines none = 0 := rfl

theorem nextLines_some (call : IngestCall) : nextLines (some call) =
    call.next.elim 0 fun item => item.parsed.payload.parseErrors := rfl

theorem addedLines_some (call : IngestCall) : addedLines (some call) =
    if call.stage.counted then call.item.parsed.payload.parseErrors else 0 := rfl

theorem nextLines_call {σ : Type} (target : StagedTarget σ) (item : PipelineItem)
    (next : Option PipelineItem) : nextLines (some (target.call item next)) =
      next.elim 0 fun item => item.parsed.payload.parseErrors := rfl

theorem addedLines_call {σ : Type} (target : StagedTarget σ) (item : PipelineItem)
    (next : Option PipelineItem) : addedLines (some (target.call item next)) = 0 := by
  show (if (target.call item next).stage.counted then _ else 0) = 0
  rw [target.counted_call, if_neg Bool.false_ne_true]

/-- The lines on their way without an item of the queue. -/
theorem skipping_cons (duck : Duck) {s : FileRun σ n} {item : PipelineItem}
    {rest : List PipelineItem} (hqueue : s.queue = item :: rest) :
    ({ s with queue := rest } : FileRun σ n).skipping duck + item.parsed.payload.parseErrors =
      s.skipping duck := by
  have hrest : ({ s with queue := rest } : FileRun σ n).skipping duck =
      ∑ c, s.held c + (rest.map fun item => item.parsed.payload.parseErrors).sum +
        ((s.parsing ++ (s.rawQueue ++ s.unread)).map (badLines duck)).sum := rfl
  rw [hrest, FileRun.skipping, hqueue, List.map_cons, List.sum_cons]
  omega

/-- No step loses or doubles a count: a batch that is one document has no line
that is not, a batch that is coalesced into another one skipped no line, the counter
has not changed since it was read when the sum is written, and a batch that is
handed on skipped no line. -/
def CountsLines (cfg : FileConfig) (target : StagedTarget σ) (s : CountedRun σ n) :
    CountedEvent n → Prop
  | .file (.parse i) => ∀ batch ∈ s.file.parsing[i]?, (cfg.duck.yyjsonRead batch).isSome →
      badLines cfg.duck batch = 0
  | .file (.pop c _) => ∀ _first ∈ s.file.pending c, ∀ item ∈ s.file.queue.head?,
      item.parsed.payload.parseErrors = 0
  | .store c => ∀ call ∈ s.calls c, ∀ stored ∈ call.stage.store,
      stored.1 = target.errors s.file.target
  | .lock c seesTable => ∀ call ∈ s.calls c,
      target.handsOn seesTable call.item s.file.target = true →
        call.item.parsed.payload.parseErrors = 0
  | _ => True

instance CountsLines.decidable (cfg : FileConfig) (target : StagedTarget σ)
    (s : CountedRun σ n) : ∀ a, Decidable (CountsLines cfg target s a)
  | .file (.parse i) => inferInstanceAs (Decidable (∀ batch ∈ s.file.parsing[i]?,
      (cfg.duck.yyjsonRead batch).isSome → badLines cfg.duck batch = 0))
  | .file (.pop c _) => inferInstanceAs (Decidable (∀ _first ∈ s.file.pending c,
      ∀ item ∈ s.file.queue.head?, item.parsed.payload.parseErrors = 0))
  | .store c => inferInstanceAs (Decidable (∀ call ∈ s.calls c, ∀ stored ∈ call.stage.store,
      stored.1 = target.errors s.file.target))
  | .lock c seesTable => inferInstanceAs (Decidable (∀ call ∈ s.calls c,
      target.handsOn seesTable call.item s.file.target = true →
        call.item.parsed.payload.parseErrors = 0))
  | .file .emit | .file .readerDone | .file (.readerFails _) | .file .popRaw
  | .file (.leave _ _) | .file .finish | .file .join | .pop _ | .leave _ | .load _
  | .run _ => .isTrue trivial

/-- The lines counted and those on their way are those of the file; a call is one of
a consumer that still has the item in hand. -/
structure CountInv (cfg : FileConfig) (target : StagedTarget σ) (total : Nat)
    (s : CountedRun σ n) : Prop where
  flow : FlowInv s.file
  counted : target.errors s.file.target + s.file.skipping cfg.duck +
    ∑ c, nextLines (s.calls c) = total + ∑ c, addedLines (s.calls c)
  busy : ∀ c call, s.calls c = some call → s.file.consuming c = true ∧
    s.file.pending c = some call.item ∧ (call.next = none → s.file.drained = true)

variable {target : StagedTarget σ} {s s' : CountedRun σ n}

/-- A sum over the calls where only one of them changes. -/
theorem sum_update (f : Option IngestCall → Nat) (calls : Fin n → Option IngestCall) (c : Fin n)
    (call : Option IngestCall) :
    ∑ d, f (Function.update calls c call d) + f (calls c) = ∑ d, f (calls d) + f call := by
  have hsum := @sum_of_one n (fun d => f (calls d)) (fun d => f (Function.update calls c call d)) c
    fun d hd => by rw [Function.update_of_ne hd]
  rwa [Function.update_self] at hsum

/-- A step of the file keeps what is counted and on its way. -/
theorem counted_file (hignore : cfg.options.ignoreErrors = true) {event : FileEvent n}
    {file : FileRun σ n} (hguard : CountsLines cfg target s (.file event))
    (hidle : s.calling cfg event = false)
    (hflow : FileFlow cfg target.toFileTarget s.file event file) :
    target.errors file.target + file.skipping cfg.duck =
      target.errors s.file.target + s.file.skipping cfg.duck := by
  cases hflow with
  | emit hunread =>
      simp only [FileRun.skipping, FileRun.held, hunread, List.map_append, List.sum_append,
        List.map_cons, List.sum_cons, List.map_nil, List.sum_nil]
      omega
  | readerDone => rfl
  | popRaw hrawQueue =>
      simp only [FileRun.skipping, FileRun.held, hrawQueue, List.map_append, List.sum_append,
        List.map_cons, List.sum_cons, List.map_nil, List.sum_nil]
      omega
  | @parse i batch parsed hparsing hprocess =>
      have hcarried : parsed.payload.parseErrors = badLines cfg.duck batch := by
        rw [parseErrors_process hignore hprocess]
        split
        · next hwhole => exact (hguard batch hparsing hwhole).symm
        · rfl
      have hsum := sum_badLines_eraseIdx cfg.duck hparsing
      simp only [FileRun.skipping, FileRun.held, List.map_append, List.sum_append, List.map_cons,
        List.sum_cons, List.map_nil, List.sum_nil, hcarried]
      omega
  | @hold c seesTable item rest hqueue hconsuming hpending =>
      have hsum := sum_held_keepPending hconsuming rest item s.file.target
      have hzero := held_of_none hpending
      simp only [FileRun.skipping, hqueue, List.map_cons, List.sum_cons]
      simp only [FileRun.keepPending] at hsum ⊢
      omega
  | @coalesce c seesTable first item rest hqueue hconsuming hpending hcoalesces =>
      have hdropped := hguard first hpending item (by rw [hqueue]; rfl)
      have hsum := sum_held_keepPending hconsuming rest
        { first with parsed := mergeParsedPayloads first.parsed item.parsed } s.file.target
      have hheld := held_of_pending hconsuming hpending
      have hmerged : (mergeParsedPayloads first.parsed item.parsed).payload.parseErrors =
          first.parsed.payload.parseErrors := rfl
      simp only [FileRun.skipping, hqueue, List.map_cons, List.sum_cons]
      simp only [FileRun.keepPending, hmerged] at hsum ⊢
      omega
  | @ingest c seesTable first item rest t hqueue hconsuming hpending hapart =>
      simp only [CountedRun.calling, hqueue, hpending, Bool.or_eq_false_iff,
        Bool.not_eq_false'] at hidle
      exact absurd (coalesces_of_eq_true hidle.2) hapart
  | @leave c seesTable hconsuming hdrained hpending =>
      have hsum := sum_held_consumerLeaves s.file c s.file.target
      have hzero := held_of_none hpending
      simp only [FileRun.skipping]
      simp only [FileRun.consumerLeaves] at hsum ⊢
      omega
  | ingestLast c hconsuming hdrained hpending =>
      simp [CountedRun.calling, hpending] at hidle
  | @finish t hleft hfinished =>
      have hkept := (target.errors_finish _ _ rfl).1 _ _ hfinished
      simp only [FileRun.skipping, FileRun.held]
      omega
  | join => rfl

/-- A step of the file leaves the calls' consumers alone. -/
theorem busy_file {event : FileEvent n} {file : FileRun σ n} (hinv : FlowInv s.file)
    (hidle : s.calling cfg event = false)
    (hflow : FileFlow cfg target.toFileTarget s.file event file) {c : Fin n} {call : IngestCall}
    (hcall : s.calls c = some call) (hconsuming : s.file.consuming c = true)
    (hpending : s.file.pending c = some call.item)
    (hover : call.next = none → s.file.drained = true) :
    file.consuming c = true ∧ file.pending c = some call.item ∧
      (call.next = none → file.drained = true) := by
  have hdrained := fun hnext => hinv.drained (hover hnext) hflow
  have hother : ∀ d, s.calls d = none → c ≠ d := by
    rintro d hd rfl
    exact nomatch hd.symm.trans hcall
  cases hflow with
  | emit | readerDone | popRaw | parse | finish | join => exact ⟨hconsuming, hpending, hdrained⟩
  | hold d | coalesce d | ingest d =>
      have hd : s.calls d = none := by simp_all [CountedRun.calling]
      exact ⟨hconsuming, (Function.update_of_ne (hother d hd) _ _).trans hpending, hdrained⟩
  | leave d | ingestLast d =>
      have hd : s.calls d = none := by simp_all [CountedRun.calling]
      exact ⟨(Function.update_of_ne (hother d hd) _ _).trans hconsuming, hpending, hdrained⟩

/-- The other calls, when one of them changes. -/
theorem busy_update {c : Fin n} {call : Option IngestCall} {P : Fin n → IngestCall → Prop}
    (h : ∀ d call, s.calls d = some call → P d call) (hc : ∀ new, call = some new → P c new) :
    ∀ d old, Function.update s.calls c call d = some old → P d old := by
  intro d old hd
  by_cases heq : d = c
  · subst heq
    rw [Function.update_self] at hd
    exact hc old hd
  · rw [Function.update_of_ne heq] at hd
    exact h d old hd

/-- A call that moves on, when the counter moves with it. -/
theorem CountInv.moved {total : Nat} (h : CountInv cfg target total s) {c : Fin n}
    {call : IngestCall} (hcall : s.calls c = some call) (stage : CallStage) (t : σ)
    (herrors : target.errors t +
        (if call.stage.counted then call.item.parsed.payload.parseErrors else 0) =
      target.errors s.file.target +
        if stage.counted then call.item.parsed.payload.parseErrors else 0) :
    CountInv cfg target total ((s.setTarget t).setCall c (some { call with stage })) := by
  refine ⟨⟨h.flow.flowing, h.flow.read, h.flow.left, h.flow.finished, h.flow.returned⟩, ?_, ?_⟩
  · have hcounted := h.counted
    have hnext := sum_update nextLines s.calls c (some { call with stage })
    have hadded := sum_update addedLines s.calls c (some { call with stage })
    rw [hcall, nextLines_some, nextLines_some] at hnext
    rw [hcall, addedLines_some, addedLines_some] at hadded
    dsimp only at hnext hadded
    show target.errors t + s.file.skipping cfg.duck +
      ∑ d, nextLines (Function.update s.calls c (some { call with stage }) d) =
        total + ∑ d, addedLines (Function.update s.calls c (some { call with stage }) d)
    omega
  · refine busy_update h.busy fun new hnew => ?_
    obtain rfl := Option.some.inj hnew
    exact h.busy c call hcall

/-- A call that ends: its lines are counted, and the item behind it is pending. -/
theorem CountInv.ended {total : Nat} (h : CountInv cfg target total s) {c : Fin n}
    {call : IngestCall} (hcall : s.calls c = some call) (hstage : call.stage.counted = true) {t : σ}
    (herrors : target.errors t = target.errors s.file.target) :
    CountInv cfg target total (s.ends c call.next t) := by
  obtain ⟨hconsuming, hpending, hover⟩ := h.busy c call hcall
  have hcounted := h.counted
  have hheld := held_of_pending hconsuming hpending
  have hnext := sum_update nextLines s.calls c none
  have hadded := sum_update addedLines s.calls c none
  rw [hcall, nextLines_some, nextLines_none] at hnext
  rw [hcall, addedLines_some, hstage, if_pos rfl, addedLines_none] at hadded
  have hothers : ∀ d old, Function.update s.calls c none d = some old →
      d ≠ c ∧ s.calls d = some old := by
    intro d old hd
    have hne : d ≠ c := by
      rintro rfl
      rw [Function.update_self] at hd
      exact nomatch hd
    rw [Function.update_of_ne hne] at hd
    exact ⟨hne, hd⟩
  cases hlast : call.next with
  | some item =>
      have hsum := sum_held_keepPending hconsuming s.file.queue item t
      rw [hlast, Option.elim_some] at hnext
      refine ⟨⟨h.flow.flowing, h.flow.read, h.flow.left, h.flow.finished, h.flow.returned⟩, ?_, ?_⟩
      · simp only [CountedRun.ends, FileRun.skipping] at hcounted ⊢
        simp only [FileRun.keepPending] at hsum ⊢
        omega
      · intro d old hd
        obtain ⟨hne, hold⟩ := hothers d old hd
        obtain ⟨hwork, hhand, hdrained⟩ := h.busy d old hold
        exact ⟨hwork, (Function.update_of_ne hne _ _).trans hhand, hdrained⟩
  | none =>
      have hsum := sum_held_consumerLeaves s.file c t
      rw [hlast, Option.elim_none] at hnext
      refine ⟨⟨h.flow.flowing, h.flow.read, fun _ _ => hover hlast, fun hf => ?_,
        h.flow.returned⟩, ?_, ?_⟩
      · exact absurd (hconsuming.symm.trans (h.flow.finished hf c)) (by simp)
      · simp only [CountedRun.ends, FileRun.skipping] at hcounted ⊢
        simp only [FileRun.consumerLeaves] at hsum ⊢
        omega
      · intro d old hd
        obtain ⟨hne, hold⟩ := hothers d old hd
        obtain ⟨hwork, hhand, hdrained⟩ := h.busy d old hold
        exact ⟨(Function.update_of_ne hne _ _).trans hwork, hhand, hdrained⟩

/-- **One step** that does not fail keeps the lines counted and on their way. -/
theorem CountInv.step {total : Nat} (hignore : cfg.options.ignoreErrors = true)
    {a : CountedEvent n} (h : CountInv cfg target total s) (hguard : CountsLines cfg target s a)
    (hflow : CountedFlow cfg target s a s') (hgood : s'.file.failed = false) :
    CountInv cfg target total s' := by
  have hcounted := h.counted
  cases hflow with
  | file hidle hstep =>
      have hfile := FileRun.step_flow h.flow.flowing hstep hgood
      refine ⟨h.flow.step hfile, ?_, fun c call hcall => ?_⟩
      · rw [counted_file hignore hguard hidle hfile]
        exact hcounted
      · obtain ⟨hconsuming, hpending, hover⟩ := h.busy c call hcall
        exact busy_file h.flow hidle hfile hcall hconsuming hpending hover
  | @pop c first item rest hqueue hconsuming hpending hidle =>
      -- a batch is left in the queue, so nobody is behind the last one
      have hmore : s.file.drained ≠ true := by
        intro hdrained
        rw [(drained_iff.mp hdrained).2.2.2] at hqueue
        exact nomatch hqueue
      refine ⟨{ h.flow with left := fun d hd => absurd (h.flow.left d hd) hmore }, ?_, ?_⟩
      · have hnext := sum_update nextLines s.calls c (some (target.call first (some item)))
        have hadded := sum_update addedLines s.calls c (some (target.call first (some item)))
        rw [hidle] at hnext hadded
        simp only [addedLines_call, nextLines_call, nextLines_none, addedLines_none,
          Option.elim_some] at hnext hadded
        have hskipping := skipping_cons cfg.duck hqueue
        simp only [CountedRun.setCall]
        omega
      · refine busy_update (fun d call hcall => ?_) fun new hnew => ?_
        · obtain ⟨hwork, hhand, hover⟩ := h.busy d call hcall
          exact ⟨hwork, hhand, fun hlast => absurd (hover hlast) hmore⟩
        · obtain rfl := Option.some.inj hnew
          exact ⟨hconsuming, hpending, fun hlast => nomatch hlast⟩
  | @leave c item hconsuming hpending hidle hover =>
      have hdrained : s.file.drained = true := by
        rw [h.flow.flowing, Bool.false_or, Bool.or_eq_true] at hover
        refine hover.resolve_right fun hdeserted => ?_
        simp only [FileRun.deserted, Bool.and_eq_true] at hdeserted
        have hgood : s.file.failed = false := hgood
        simp [FileRun.failed, hdeserted.2] at hgood
      refine ⟨h.flow, ?_, ?_⟩
      · have hnext := sum_update nextLines s.calls c (some (target.call item none))
        have hadded := sum_update addedLines s.calls c (some (target.call item none))
        rw [hidle] at hnext hadded
        simp only [addedLines_call, nextLines_call, nextLines_none, addedLines_none,
          Option.elim_none] at hnext hadded
        simp only [CountedRun.setCall]
        omega
      · refine busy_update h.busy fun new hnew => ?_
        obtain rfl := Option.some.inj hnew
        exact ⟨hconsuming, hpending, fun _ => hdrained⟩
  | @load c call stage hcall hload =>
      obtain ⟨hbefore, hbehind⟩ := CallStage.counted_load hload
      exact h.moved hcall stage s.file.target (by rw [hbefore, hbehind])
  | @store c call loaded stage hcall hstore =>
      obtain ⟨hbefore, hbehind⟩ := CallStage.counted_store hstore
      obtain rfl := hguard call hcall _ hstore
      refine h.moved hcall stage _ ?_
      rw [target.errors_setErrors, hbefore, hbehind]
      rfl
  | @handOn c call seesTable hcall hstage hhandsOn =>
      have hzero := hguard call hcall hhandsOn
      exact h.moved hcall _ s.file.target (by rw [hzero, ite_self, ite_self])
  | @prepare c call seesTable usePool t hcall hstage hprepared =>
      have hkept := (target.errors_prepare call.item _ _ rfl).1 _ _ hprepared
      exact h.moved hcall _ t (by rw [hkept, hstage]; rfl)
  | @run c call t hcall hstage herrors => exact h.ended hcall hstage herrors
  | raises hfailed => exact absurd (hfailed.symm.trans hgood) (by simp)

/-- A call that returns has counted the lines that were to be skipped in the
batches it started with. -/
theorem returned_errors (target : StagedTarget σ) (hignore : cfg.options.ignoreErrors = true)
    (hn : 0 < n) {batches : List Bytes} {start : σ} (hstart : target.errors start = 0)
    {s : CountedRun σ n}
    (h : Reachable (countedFile cfg target n batches start) (CountsLines cfg target) s)
    (hreturned : s.file.outcome = some (.ok ⟨⟩)) :
    target.errors s.file.target = (batches.map (badLines cfg.duck)).sum := by
  have hinv : s.file.failed = false →
      CountInv cfg target (batches.map (badLines cfg.duck)).sum s := by
    refine h.invariant (fun s => s.file.failed = false →
      CountInv cfg target (batches.map (badLines cfg.duck)).sum s) ?_ ?_
    · intro _
      refine ⟨⟨rfl, ?_, ?_, ?_, ?_⟩, ?_, ?_⟩
      · exact fun hr => (nomatch hr)
      · exact fun c hc => (nomatch hc)
      · exact fun hf => (nomatch hf)
      · exact fun hr => (nomatch hr)
      · simp [countedFile, ingestFile, FileRun.skipping, FileRun.held, hstart, nextLines_none,
          addedLines_none]
      · exact fun c call hcall => (nomatch hcall)
    · intro s a s' hs hguard hstep hgood'
      have hgood := CountedRun.step_failed hstep hgood'
      exact (hs hgood).step hignore hguard (CountedRun.step_flow hstep).2 hgood'
  have hgood : s.file.failed = false := by
    refine h.invariant (fun s => s.file.outcome = some (.ok ⟨⟩) → s.file.failed = false) ?_ ?_
      hreturned
    · exact fun hdone => (nomatch hdone)
    · exact fun s a s' _ _ hstep => CountedRun.step_returned hstep
  obtain ⟨hflow, hcounted, hbusy⟩ := hinv hgood
  have hleft := hflow.finished (hflow.returned hreturned)
  obtain ⟨hreading, hrawQueue, hparsing, hqueue⟩ := drained_iff.mp (hflow.left ⟨0, hn⟩ (hleft _))
  have hnothing : s.file.skipping cfg.duck = 0 := by
    simp [FileRun.skipping, FileRun.held, hleft, hrawQueue, hparsing, hqueue, hflow.read hreading]
  have hidle : ∀ c, s.calls c = none := by
    intro c
    cases hcall : s.calls c with
    | none => rfl
    | some call => exact absurd ((hbusy c call hcall).1.symm.trans (hleft c)) (by simp)
  simpa [hnothing, hidle, nextLines_none, addedLines_none] using hcounted

end Run

/-- **The `errors` column** of a call that returns is the number of lines of the
file that are neither blank nor JSON, for every batch size, number of consumers
and interleaving, into either kind of catalog, as long as no step loses or doubles
a count. -/
theorem rawIngestFile_errors (cfg : FileConfig) (hignore : cfg.options.ignoreErrors = true)
    (n : Nat) (hn : 0 < n) (settings : ReaderSettings) (reads : List Bytes)
    (hreads : ∀ buffer ∈ reads, buffer ≠ []) :
    (∀ (env : NativeEnv) (before : Db) (s : CountedRun IngestState n),
      Reachable (countedFile cfg (nativeStaged env before (1 < n)) n
          (readerBatches settings reads) (.start before))
        (CountsLines cfg (nativeStaged env before (1 < n))) s →
      s.file.outcome = some (.ok ⟨⟩) → s.file.target.errors = badLines cfg.duck reads.flatten) ∧
    (∀ (ω : Type) (cat : FallbackCatalog ω) (world : ω) (s : CountedRun (FallbackRun ω) n),
      Reachable (countedFile cfg (fallbackStaged cat (1 < n)) n
          (readerBatches settings reads) (.start world))
        (CountsLines cfg (fallbackStaged cat (1 < n))) s →
      s.file.outcome = some (.ok ⟨⟩) → s.file.target.errors = badLines cfg.duck reads.flatten) := by
  rw [← badLines_readerBatches cfg.duck settings hreads]
  constructor
  · intro env before s h hreturned
    exact returned_errors (nativeStaged env before _) hignore hn rfl h hreturned
  · intro ω cat world s h hreturned
    exact returned_errors (fallbackStaged cat _) hignore hn rfl h hreturned

/-! ## files with a bad line -/

/-- The small DuckDB, which reads the line, told to skip others. -/
def skipConfig : FileConfig := { lineConfig with options := { ignoreErrors := true } }

/-- A line and a bad one. -/
def skipBatch : Bytes := fileLine ++ [10, 111, 10]

/-- Batches of two lines. -/
def lineTwos : ReaderSettings :=
  { defaultSettings with batchSize := 2, batchSize_pos := by decide }

theorem readerBatches_skipBatch : readerBatches lineTwos [skipBatch] = [skipBatch] := by
  have hend : closeBatches lineTwos [] 0 = ([], [], 0) := closeBatches_of_not_full (by decide)
  have hclosed : closeBatches lineTwos skipBatch 2 = ([skipBatch], [], 0) :=
    closeBatches_of_full (by decide) rfl rfl hend
  rw [readerBatches_singleton rfl hclosed]
  rfl

theorem readerBatches_twoSkips :
    readerBatches lineTwos [skipBatch ++ skipBatch] = [skipBatch, skipBatch] := by
  have hend : closeBatches lineTwos [] 0 = ([], [], 0) := closeBatches_of_not_full (by decide)
  have hsecond : closeBatches lineTwos skipBatch 2 = ([skipBatch], [], 0) :=
    closeBatches_of_full (by decide) rfl rfl hend
  have hfirst : closeBatches lineTwos (skipBatch ++ skipBatch) 4 =
      ([skipBatch, skipBatch], [], 0) := closeBatches_of_full (by decide) rfl rfl hsecond
  rw [readerBatches_singleton rfl hfirst]
  rfl

/-- Two batches of a file are parsed before two consumers take one each. -/
def twoParsed : List (CountedEvent 2) :=
  [.file .emit, .file .emit, .file .readerDone, .file .popRaw, .file .popRaw, .file (.parse 0),
    .file (.parse 0), .file (.pop 0 true), .file (.pop 1 true), .leave 0, .leave 1]

/-- Each consumer writes the sum before the other one reads. -/
def inTurn : List (CountedEvent 2) :=
  twoParsed ++ [.load 0, .store 0, .load 1, .store 1, .lock 1 true, .run 1, .lock 0 true, .run 0,
    .file .finish, .file .join]

/-- Both consumers read before they write. -/
def atOnce : List (CountedEvent 2) :=
  twoParsed ++ [.load 0, .load 1, .store 0, .store 1, .lock 1 true, .run 1, .lock 0 true, .run 0,
    .file .finish, .file .join]

/-- A batch for the first of two consumers, which creates the table. -/
def firstOfTwo : List (CountedEvent 2) :=
  [.file .emit, .file .readerDone, .file .popRaw, .file (.parse 0), .file (.pop 0 true), .leave 0,
    .load 0, .store 0, .lock 0 true, .load 0, .store 0, .run 0, .file (.leave 1 true),
    .file .finish, .file .join]

/-- Two batches, both parsed before the only consumer takes the first. -/
def twoCoalesced : List (CountedEvent 1) :=
  [.file .emit, .file .emit, .file .readerDone, .file .popRaw, .file .popRaw, .file (.parse 0),
    .file (.parse 0), .file (.pop soleConsumer true), .file (.pop soleConsumer true),
    .leave soleConsumer, .load soleConsumer, .store soleConsumer, .run soleConsumer,
    .file .finish, .file .join]

/-- Two consumers that add to the counter in turn count the bad lines of both batches. -/
theorem rawIngestFile_errors_inTurn : ∃ s,
    (countedFile skipConfig (nativeStaged smallEnv columnDb (1 < 2)) 2
      (readerBatches lineTwos [skipBatch ++ skipBatch]) (.start columnDb)).run inTurn = some s ∧
    s.file.outcome = some (.ok ⟨⟩) ∧ s.file.target.errors = 2 ∧
    s.file.target.errors = badLines skipConfig.duck [skipBatch ++ skipBatch].flatten := by
  have hreads : ∀ buffer ∈ [skipBatch ++ skipBatch], buffer ≠ [] := by
    intro buffer hbuffer
    rw [List.mem_singleton.mp hbuffer]
    exact List.cons_ne_nil _ _
  have hcounts := (rawIngestFile_errors skipConfig rfl 2 Nat.two_pos lineTwos
    [skipBatch ++ skipBatch] hreads).1 smallEnv columnDb
  rw [readerBatches_twoSkips] at hcounts ⊢
  have hguarded : (countedFile skipConfig (nativeStaged smallEnv columnDb (1 < 2)) 2
      [skipBatch, skipBatch] (.start columnDb)).Guarded
      (CountsLines skipConfig (nativeStaged smallEnv columnDb (1 < 2)))
      (countedFile skipConfig (nativeStaged smallEnv columnDb (1 < 2)) 2
        [skipBatch, skipBatch] (.start columnDb)).init inTurn := by decide +kernel
  have hends : ∃ s ∈ (countedFile skipConfig (nativeStaged smallEnv columnDb (1 < 2)) 2
      [skipBatch, skipBatch] (.start columnDb)).run inTurn,
        s.file.outcome = some (.ok ⟨⟩) ∧ s.file.target.errors = 2 := by decide +kernel
  obtain ⟨s, hrun, hreturned, herrors⟩ := hends
  exact ⟨s, hrun, hreturned, herrors,
    hcounts s (Reachable.init.of_guarded hguarded hrun) hreturned⟩

/-- Of two bad lines in batches that are coalesced one is counted, and one where two
consumers read the counter before either writes it; the bad line of a batch with which
one of two consumers creates the table is counted twice. -/
theorem rawIngestFile_miscounts :
    (∃ s ∈ (countedFile skipConfig (nativeStaged smallEnv emptyDb (1 < 1)) 1
        (readerBatches lineTwos [skipBatch ++ skipBatch]) (.start emptyDb)).run twoCoalesced,
      s.file.outcome = some (.ok ⟨⟩) ∧ s.file.target.errors = 1 ∧
      badLines skipConfig.duck (skipBatch ++ skipBatch) = 2) ∧
    (∃ s ∈ (countedFile skipConfig (nativeStaged smallEnv emptyDb (1 < 2)) 2
        (readerBatches lineTwos [skipBatch]) (.start emptyDb)).run firstOfTwo,
      s.file.outcome = some (.ok ⟨⟩) ∧ s.file.target.errors = 2 ∧
      badLines skipConfig.duck skipBatch = 1) ∧
    (∃ s ∈ (countedFile skipConfig (nativeStaged smallEnv columnDb (1 < 2)) 2
        (readerBatches lineTwos [skipBatch ++ skipBatch]) (.start columnDb)).run atOnce,
      s.file.outcome = some (.ok ⟨⟩) ∧ s.file.target.errors = 1 ∧
      badLines skipConfig.duck (skipBatch ++ skipBatch) = 2) := by
  rw [readerBatches_twoSkips, readerBatches_skipBatch]
  refine ⟨?_, ?_, ?_⟩
  · decide +kernel
  · decide +kernel
  · decide +kernel

end RawDuck
