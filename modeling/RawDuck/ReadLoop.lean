import RawDuck.Split
import RawDuck.Transition

/-!
# RawDuck.ReadLoop

The read loop of `raw_ingest_file`, turn by turn.

`readFile` says which batches come out; here the reader stands at the guards
of its two loops, so that what holds of `pending` and `pending_lines` can be
said wherever it stands.

* `readerStep` — one turn of the outer loop or of the inner one;
* `ReaderInv` — what every turn keeps (`readerInv_step`);
* `exists_end` — the turns come to an end, and `readFile` is what they form;
* `readFile_batches` — the batches are the input, cut behind newlines.
-/

namespace RawDuck

open Transition System

/-- The reader at a guard: the reads to come, whether the guard is that of the
inner loop, the batches formed so far, `pending` and `pending_lines`. -/
structure Reader where
  reads : List Bytes
  closing : Bool
  formed : List Bytes
  pending : Bytes
  pendingLines : Nat

/-- The guard of the inner loop. -/
def batchFull (settings : ReaderSettings) (pending : Bytes) (pendingLines : Nat) : Bool :=
  pendingLines ≥ settings.batchSize ∨ pending.length ≥ settings.byteTarget ∧ pendingLines > 0

/-- One turn: a batch is closed, the inner loop is left, or the next read is
taken in.  At the end of the file there is none. -/
def readerStep (settings : ReaderSettings) (r : Reader) (_ : Unit) : Option Reader :=
  if r.closing then
    if batchFull settings r.pending r.pendingLines then
      let take := min r.pendingLines settings.batchSize
      let split := afterNewlines r.pending take 0
      some { r with
        formed := r.formed ++ [r.pending.take split]
        pending := r.pending.drop split
        pendingLines := r.pendingLines - take }
    else some { r with closing := false }
  else
    match r.reads with
    | [] => none
    | buffer :: reads =>
        -- a read of nothing is the end of the file
        if buffer.isEmpty then none
        else some { r with
          reads := reads
          closing := true
          pending := r.pending ++ buffer
          pendingLines := r.pendingLines + buffer.count 10 }

/-- The reader of a file that is read in this way. -/
def readLoop (settings : ReaderSettings) (reads : List Bytes) : System Reader Unit where
  init := { reads := reads, closing := false, formed := [], pending := [], pendingLines := 0 }
  step := readerStep settings

/-- The bytes of the reads up to the end of the file. -/
def inputOf (reads : List Bytes) : Bytes := (reads.takeWhile fun buffer => !buffer.isEmpty).flatten

/-! ## one turn -/

variable {settings : ReaderSettings}

/-- A batch ends with a newline and has no more lines than a batch may. -/
def Closed (settings : ReaderSettings) (batch : Bytes) : Prop :=
  (∃ text, batch = text ++ [10]) ∧ batch.count 10 ≤ settings.batchSize

/-- The turn that closes a batch takes at least one line, behind a newline. -/
theorem take_afterNewlines {pending : Bytes} {pendingLines : Nat}
    (hlines : pendingLines = pending.count 10)
    (hfull : batchFull settings pending pendingLines = true) :
    0 < min pendingLines settings.batchSize ∧
      Closed settings
        (pending.take (afterNewlines pending (min pendingLines settings.batchSize) 0)) ∧
      pendingLines - min pendingLines settings.batchSize =
        (pending.drop
          (afterNewlines pending (min pendingLines settings.batchSize) 0)).count 10 := by
  have hpos := settings.batchSize_pos
  have hfull := of_decide_eq_true hfull
  obtain ⟨take, htake⟩ : ∃ take, min pendingLines settings.batchSize = take + 1 :=
    ⟨min pendingLines settings.batchSize - 1, by omega⟩
  obtain ⟨batch, rest, rfl, hcount, hsplit⟩ := afterNewlines_spec take [] pending (by omega)
  simp only [List.nil_append, List.length_nil] at hsplit
  have hbatch : batch ++ 10 :: rest = (batch ++ [10]) ++ rest := by simp
  rw [htake, hsplit, hbatch, List.take_left, List.drop_left]
  refine ⟨Nat.succ_pos take, ⟨⟨batch, rfl⟩, ?_⟩, ?_⟩
  · rw [List.count_append, hcount]
    simp only [List.count_singleton_self]
    omega
  · rw [hlines, List.count_append, List.count_cons_self, hcount]
    omega

/-- What the turns keep: the count of lines is right, nothing of the input is
lost or moved, the batches formed are closed, and between two reads there is
less than a batch of lines. -/
structure ReaderInv (settings : ReaderSettings) (input : Bytes) (r : Reader) : Prop where
  lines_eq : r.pendingLines = r.pending.count 10
  input_eq : r.formed.flatten ++ r.pending ++ inputOf r.reads = input
  closed : ∀ batch ∈ r.formed, Closed settings batch
  few : r.closing = false → r.pendingLines < settings.batchSize

theorem readerInv_init (reads : List Bytes) :
    ReaderInv settings (inputOf reads) (readLoop settings reads).init where
  lines_eq := rfl
  input_eq := List.nil_append _
  closed := fun _ h => nomatch h
  few _ := settings.batchSize_pos

/-- The three turns. -/
theorem readerStep_cases {r r' : Reader} (h : readerStep settings r () = some r') :
    (r.closing = true ∧ batchFull settings r.pending r.pendingLines = true ∧
      r' = { r with
        formed := r.formed ++
          [r.pending.take (afterNewlines r.pending (min r.pendingLines settings.batchSize) 0)]
        pending :=
          r.pending.drop (afterNewlines r.pending (min r.pendingLines settings.batchSize) 0)
        pendingLines := r.pendingLines - min r.pendingLines settings.batchSize }) ∨
    (r.closing = true ∧ batchFull settings r.pending r.pendingLines = false ∧
      r' = { r with closing := false }) ∨
    ∃ buffer reads, r.closing = false ∧ r.reads = buffer :: reads ∧ buffer.isEmpty = false ∧
      r' = { r with
        reads := reads
        closing := true
        pending := r.pending ++ buffer
        pendingLines := r.pendingLines + buffer.count 10 } := by
  unfold readerStep at h
  split at h
  · next hclosing =>
    split at h
    · next hfull => exact .inl ⟨hclosing, hfull, (Option.some.inj h).symm⟩
    · next hfull =>
      exact .inr (.inl ⟨hclosing, Bool.eq_false_iff.mpr hfull, (Option.some.inj h).symm⟩)
  · next hclosing =>
    split at h
    · exact nomatch h
    · next buffer reads hreads =>
      split at h
      · exact nomatch h
      · next hbuffer =>
        exact .inr (.inr ⟨buffer, reads, Bool.eq_false_iff.mpr hclosing, hreads,
          Bool.eq_false_iff.mpr hbuffer, (Option.some.inj h).symm⟩)

/-- Every turn keeps the invariant. -/
theorem readerInv_step {input : Bytes} {r r' : Reader} (hinv : ReaderInv settings input r)
    (h : readerStep settings r () = some r') : ReaderInv settings input r' := by
  obtain ⟨hlines, hinput, hclosed, hfew⟩ := hinv
  rcases readerStep_cases h with ⟨hclosing, hfull, rfl⟩ | ⟨-, hfull, rfl⟩ |
    ⟨buffer, reads, -, hreads, hbuffer, rfl⟩
  · obtain ⟨-, hbatch, hrest⟩ := take_afterNewlines hlines hfull
    constructor
    · exact hrest
    · simp only [List.flatten_append, List.flatten_singleton, List.append_assoc]
      rw [← hinput, ← List.append_assoc (List.take _ _), List.take_append_drop,
        List.append_assoc]
    · intro batch hmem
      rcases List.mem_append.mp hmem with hmem | hmem
      · exact hclosed batch hmem
      · exact List.mem_singleton.mp hmem ▸ hbatch
    · exact fun hc => absurd (hc.symm.trans hclosing) (by decide)
  · refine ⟨hlines, hinput, hclosed, fun _ => ?_⟩
    have hfull := of_decide_eq_false hfull
    show r.pendingLines < settings.batchSize
    omega
  · constructor
    · simp only [List.count_append, hlines]
    · rw [← hinput, hreads, inputOf, inputOf, List.takeWhile_cons, hbuffer]
      simp
    · exact hclosed
    · exact fun hc => nomatch hc

/-- A turn of the inner loop that stays in it takes lines away. -/
theorem pendingLines_lt_of_step {input : Bytes} {r r' : Reader}
    (hinv : ReaderInv settings input r) (h : readerStep settings r () = some r')
    (hclosing : r.closing = true) (hclosing' : r'.closing = true) :
    r'.pendingLines < r.pendingLines := by
  rcases readerStep_cases h with ⟨-, hfull, rfl⟩ | ⟨-, -, rfl⟩ | ⟨_, _, hclosing'', -⟩
  · obtain ⟨htake, -, -⟩ := take_afterNewlines hinv.lines_eq hfull
    show r.pendingLines - min r.pendingLines settings.batchSize < r.pendingLines
    omega
  · exact nomatch hclosing'
  · exact absurd (hclosing.symm.trans hclosing'') (by decide)

/-! ## the whole loop -/

variable {reads : List Bytes}

/-- Wherever the reader stands, the invariant holds. -/
theorem readerInv_of_reachable {r : Reader} (h : (readLoop settings reads).Reachable anyStep r) :
    ReaderInv settings (inputOf reads) r :=
  h.invariant _ (readerInv_init reads) fun _ _ _ hinv _ hstep => readerInv_step hinv hstep

/-- The inner loop ends, with the batches of `closeBatches`. -/
theorem reachable_closeBatches {r : Reader} {batches : List Bytes} {rest : Bytes} {restLines : Nat}
    (h : (readLoop settings reads).Reachable anyStep r) (hclosing : r.closing = true)
    (hclose : closeBatches settings r.pending r.pendingLines = (batches, rest, restLines)) :
    (readLoop settings reads).Reachable anyStep
      { reads := r.reads, closing := false, formed := r.formed ++ batches, pending := rest,
        pendingLines := restLines } := by
  obtain ⟨n, hn⟩ : ∃ n, r.pendingLines = n := ⟨_, rfl⟩
  induction n using Nat.strongRecOn generalizing r batches rest restLines with
  | ind n ih =>
      cases hfull : batchFull settings r.pending r.pendingLines with
      | false =>
          have hstep : readerStep settings r () = some { r with closing := false } := by
            rw [readerStep, if_pos hclosing, hfull]
            rfl
          rw [closeBatches_of_not_full (of_decide_eq_false hfull)] at hclose
          obtain ⟨rfl, hrest⟩ := Prod.mk.inj hclose
          obtain ⟨rfl, rfl⟩ := Prod.mk.inj hrest
          have hnext := h.step (a := ()) trivial hstep
          rw [List.append_nil]
          exact hnext
      | true =>
          obtain ⟨r', hstep⟩ : ∃ r', readerStep settings r () = some r' := by
            rw [readerStep, if_pos hclosing, if_pos hfull]
            exact ⟨_, rfl⟩
          have hnext := h.step (a := ()) trivial hstep
          have hr' := hstep
          rw [readerStep, if_pos hclosing, if_pos hfull, Option.some.injEq] at hr'
          have hclosing' : r'.closing = true := by rw [← hr']; exact hclosing
          have hlt := pendingLines_lt_of_step (readerInv_of_reachable h) hstep hclosing hclosing'
          rw [closeBatches, if_pos (of_decide_eq_true hfull)] at hclose
          obtain ⟨⟨batches', rest', restLines'⟩, hclose'⟩ :
              ∃ x, closeBatches settings r'.pending r'.pendingLines = x := ⟨_, rfl⟩
          have hends := ih _ (hn ▸ hlt) hnext hclosing' hclose' rfl
          rw [← hr'] at hclose' hends
          simp only [hclose'] at hclose
          obtain ⟨rfl, hrest⟩ := Prod.mk.inj hclose
          obtain ⟨rfl, rfl⟩ := Prod.mk.inj hrest
          simpa only [List.append_assoc, List.singleton_append] using hends

/-- The outer loop ends, with the batches of `readFile`. -/
theorem exists_end {r : Reader} (h : (readLoop settings reads).Reachable anyStep r)
    (hclosing : r.closing = false) :
    ∃ last, (readLoop settings reads).Reachable anyStep last ∧ last.closing = false ∧
      readerStep settings last () = none ∧
      r.formed ++ readFile settings r.reads r.pending r.pendingLines =
        last.formed ++ [last.pending] := by
  obtain ⟨n, hn⟩ : ∃ n, r.reads.length = n := ⟨_, rfl⟩
  induction n generalizing r with
  | zero =>
      have hreads : r.reads = [] := List.length_eq_zero_iff.mp hn
      refine ⟨r, h, hclosing, ?_, ?_⟩
      · rw [readerStep, hclosing, hreads]
        rfl
      · rw [hreads, readFile]
  | succ n ih =>
      obtain ⟨buffer, rest, hreads⟩ := List.exists_cons_of_length_eq_add_one hn
      cases hbuffer : buffer.isEmpty with
      | true =>
          refine ⟨r, h, hclosing, ?_, ?_⟩
          · rw [readerStep, hclosing, hreads]
            simp [hbuffer]
          · rw [hreads, readFile, if_pos hbuffer]
      | false =>
          have hstep : readerStep settings r () = some { r with
              reads := rest
              closing := true
              pending := r.pending ++ buffer
              pendingLines := r.pendingLines + buffer.count 10 } := by
            rw [readerStep, hclosing, hreads]
            simp [hbuffer]
          obtain ⟨⟨batches, pending, pendingLines⟩, hclose⟩ : ∃ x, closeBatches settings
              (r.pending ++ buffer) (r.pendingLines + buffer.count 10) = x := ⟨_, rfl⟩
          have hread := reachable_closeBatches (h.step (a := ()) trivial hstep) rfl hclose
          have hlength : rest.length = n := by
            rw [hreads, List.length_cons] at hn
            omega
          obtain ⟨last, hlast, hlastClosing, hnone, hformed⟩ := ih hread rfl hlength
          refine ⟨last, hlast, hlastClosing, hnone, ?_⟩
          rw [← hformed, hreads, readFile, if_neg (by simp [hbuffer]), hclose, List.append_assoc]

/-- **The batches of a file**: however the input is read and whatever the batch
size and the byte target, the loops come to an end; wherever the reader stands
`pending_lines` is the number of newlines in `pending` and nothing of the
input is lost or moved, and every turn of the inner loop takes lines away; and
the batches formed, those of whitespace among them, are the input in order, cut
behind newlines into batches of at most `batch_size` newlines. -/
theorem readFile_batches (settings : ReaderSettings) (reads : List Bytes) :
    (∀ r, (readLoop settings reads).Reachable anyStep r →
      r.pendingLines = r.pending.count 10 ∧
        r.formed.flatten ++ r.pending ++ inputOf r.reads = inputOf reads ∧
        ∀ r', readerStep settings r () = some r' → r.closing = true → r'.closing = true →
          r'.pendingLines < r.pendingLines) ∧
      (∃ last, (readLoop settings reads).Reachable anyStep last ∧
        readerStep settings last () = none ∧
        readFile settings reads [] 0 = last.formed ++ [last.pending]) ∧
      (readFile settings reads [] 0).flatten = inputOf reads ∧
      (∀ batch ∈ (readFile settings reads [] 0).dropLast, ∃ text, batch = text ++ [10]) ∧
      ∀ batch ∈ readFile settings reads [] 0, batch.count 10 ≤ settings.batchSize := by
  obtain ⟨last, hlast, hclosing, hnone, hformed⟩ := exists_end
    (show (readLoop settings reads).Reachable anyStep (readLoop settings reads).init from .init) rfl
  have hfile : readFile settings reads [] 0 = last.formed ++ [last.pending] := hformed
  have hinv := readerInv_of_reachable hlast
  refine ⟨fun r hr => ?_, ⟨last, hlast, hnone, hfile⟩, ?_, ?_, ?_⟩
  · have hrinv := readerInv_of_reachable hr
    exact ⟨hrinv.lines_eq, hrinv.input_eq, fun r' => pendingLines_lt_of_step hrinv⟩
  · -- the reads left at the end hold nothing
    have hend : inputOf last.reads = [] := by
      rw [readerStep, hclosing] at hnone
      cases hreads : last.reads with
      | nil => rfl
      | cons buffer rest =>
          cases hbuffer : buffer.isEmpty with
          | true => rw [inputOf, List.takeWhile_cons, hbuffer]; rfl
          | false => simp [hreads, hbuffer] at hnone
    rw [hfile, List.flatten_append, List.flatten_singleton, ← hinv.input_eq, hend,
      List.append_nil]
  · rw [hfile, List.dropLast_concat]
    exact fun batch hbatch => (hinv.closed batch hbatch).1
  · intro batch hbatch
    rw [hfile] at hbatch
    rcases List.mem_append.mp hbatch with hbatch | hbatch
    · exact (hinv.closed batch hbatch).2
    · rw [List.mem_singleton.mp hbatch, ← hinv.lines_eq]
      exact (hinv.few hclosing).le

end RawDuck
