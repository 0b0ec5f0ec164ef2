import RawDuck.Documents

/-!
# RawDuck.Split

`raw_ingest_file` reads a file in batches of lines, and every batch is parsed by
itself.

* `readerBatches` — what the reader emits, for any batch size, byte target and
  reads: a split of the file (`isSplit_readFile`), so that its rows are those of
  any other where splits agree (`SplitsAgree.readerBatches`);
* `splits_agree_iff` — when the rows do not depend on the split.
-/

namespace RawDuck

open Cuts Fallible

/-! ## the reader -/

/-- What the reader is told: `batch_size`, which the bind function has checked,
and the byte target. -/
structure ReaderSettings where
  batchSize : Nat
  byteTarget : Nat
  batchSize_pos : 0 < batchSize

/-- The batch size and the byte target unless the caller says otherwise. -/
def defaultSettings : ReaderSettings where
  batchSize := 30000
  byteTarget := 8 * 1024 * 1024
  batchSize_pos := by decide

/-- The loop over `pending.find('\n', split) + 1`. -/
def afterNewlines (pending : Bytes) : (take split : Nat) → Nat
  | 0, split => split
  | take + 1, split =>
      afterNewlines pending take
        (match (pending.drop split).idxOf? 10 with
        | some i => split + i + 1
        -- `npos + 1`
        | none => 0)

/-- The loop that closes batches: the batches, and the text and the count of
lines still pending. -/
def closeBatches (settings : ReaderSettings) (pending : Bytes) (pendingLines : Nat) :
    List Bytes × Bytes × Nat :=
  if pendingLines ≥ settings.batchSize ∨
      pending.length ≥ settings.byteTarget ∧ pendingLines > 0 then
    let take := min pendingLines settings.batchSize
    let split := afterNewlines pending take 0
    let (batches, rest) := closeBatches settings (pending.drop split) (pendingLines - take)
    (pending.take split :: batches, rest)
  else ([], pending, pendingLines)
termination_by pendingLines
decreasing_by
  have := settings.batchSize_pos
  omega

theorem closeBatches_of_not_full {settings : ReaderSettings} {pending : Bytes} {pendingLines : Nat}
    (h : ¬ (pendingLines ≥ settings.batchSize ∨
      pending.length ≥ settings.byteTarget ∧ pendingLines > 0)) :
    closeBatches settings pending pendingLines = ([], pending, pendingLines) := by
  rw [closeBatches, if_neg h]

theorem closeBatches_of_full {settings : ReaderSettings} {pending : Bytes}
    {pendingLines take split : Nat} {batches : List Bytes} {rest : Bytes × Nat}
    (h : pendingLines ≥ settings.batchSize) (htake : min pendingLines settings.batchSize = take)
    (hsplit : afterNewlines pending take 0 = split)
    (hrest : closeBatches settings (pending.drop split) (pendingLines - take) = (batches, rest)) :
    closeBatches settings pending pendingLines = (pending.take split :: batches, rest) := by
  subst htake hsplit
  rw [closeBatches, if_pos (.inl h)]
  simp only [hrest]

/-- The read loop: the batches of the reads still to come. -/
def readFile (settings : ReaderSettings) : List Bytes → (pending : Bytes) →
    (pendingLines : Nat) → List Bytes
  | [], pending, _ => [pending]
  | buffer :: reads, pending, pendingLines =>
      -- a read of nothing is the end of the file
      if buffer.isEmpty then [pending]
      else
        let (batches, pending, pendingLines) :=
          closeBatches settings (pending ++ buffer) (pendingLines + buffer.count 10)
        batches ++ readFile settings reads pending pendingLines

/-- The reads of a file: together they are its text, and none before the end of the
file is empty. -/
structure IsReadOf (text : Bytes) (reads : List Bytes) : Prop where
  flatten : reads.flatten = text
  nonempty : ∀ buffer ∈ reads, buffer ≠ []

/-- `emit`: batches of whitespace are dropped. -/
def emit (batches : List Bytes) : List Bytes := batches.filter fun batch => !isWhite batch

/-- The batches the reader hands on. -/
def readerBatches (settings : ReaderSettings) (reads : List Bytes) : List Bytes :=
  emit (readFile settings reads [] 0)

/-- A file that is read at once. -/
theorem readerBatches_singleton {settings : ReaderSettings} {text : Bytes} {batches : List Bytes}
    {rest : Bytes} {restLines : Nat} (htext : text.isEmpty = false)
    (h : closeBatches settings text (text.count 10) = (batches, rest, restLines)) :
    readerBatches settings [text] = emit (batches ++ [rest]) := by
  rw [readerBatches, readFile, if_neg (by simp [htext]), List.nil_append, Nat.zero_add]
  simp only [h, readFile]

/-- The parsers: the rows of all batches, unless one is rejected. -/
def parseBatches (duck : Duck) (options : RawParseOptions) : List Bytes → Option (List Json)
  | [] => some []
  | batch :: batches => do
      return (← textRows duck options batch) ++ (← parseBatches duck options batches)

/-! ## splits -/

/-- A text is cut into batches behind newline characters. -/
inductive IsSplit : Bytes → List Bytes → Prop where
  | last (batch : Bytes) : IsSplit batch [batch]
  | cut {rest : Bytes} {batches : List Bytes} (batch : Bytes) (h : IsSplit rest batches) :
      IsSplit (batch ++ 10 :: rest) ((batch ++ [10]) :: batches)

/-- The rows of a split. -/
def splitRows (duck : Duck) (options : RawParseOptions) (batches : List Bytes) :
    Option (List Json) :=
  parseBatches duck options (emit batches)

/-- Whatever the split, the text is rejected or the rows are the same. -/
def SplitsAgree (duck : Duck) (options : RawParseOptions) (text : Bytes) : Prop :=
  ∀ batches batches', IsSplit text batches → IsSplit text batches' →
    splitRows duck options batches = splitRows duck options batches'

theorem idxOf?_newline {line : Bytes} (rest : Bytes) (h : (10 : UInt8) ∉ line) :
    (line ++ 10 :: rest).idxOf? 10 = some line.length := by
  induction line with
  | nil => rfl
  | cons c line ih =>
      obtain ⟨hc, hline⟩ := not_or.mp (List.mem_cons.not.mp h)
      rw [List.cons_append, List.idxOf?_cons, if_neg (by simpa using Ne.symm hc), ih hline]
      rfl

/-- One turn of the loop goes behind the next newline. -/
theorem afterNewlines_succ (take : Nat) (start : Bytes) {line : Bytes} (rest : Bytes)
    (h : (10 : UInt8) ∉ line) :
    afterNewlines (start ++ (line ++ 10 :: rest)) (take + 1) start.length =
      afterNewlines ((start ++ line ++ [10]) ++ rest) take (start ++ line ++ [10]).length := by
  have hlength : (start ++ line ++ [10]).length = start.length + line.length + 1 := by
    simp only [List.length_append, List.length_singleton]
  have htext : start ++ (line ++ 10 :: rest) = start ++ line ++ [10] ++ rest := by simp
  rw [afterNewlines, List.drop_left, idxOf?_newline _ h, htext, hlength]

/-- The position found is behind the last of so many newlines. -/
theorem afterNewlines_spec (take : Nat) (start rest : Bytes) (h : take < rest.count 10) :
    ∃ batch rest', rest = batch ++ 10 :: rest' ∧ batch.count 10 = take ∧
      afterNewlines (start ++ rest) (take + 1) start.length = (start ++ batch ++ [10]).length := by
  have hmem : (10 : UInt8) ∈ rest := List.count_pos_iff.mp (by omega)
  obtain ⟨line, rest₁, rfl, hline⟩ := List.eq_append_cons_of_mem hmem
  have hzero : line.count 10 = 0 := List.count_eq_zero.mpr hline
  rw [afterNewlines_succ take start rest₁ hline]
  induction take generalizing start line rest₁ with
  | zero => exact ⟨line, rest₁, rfl, hzero, rfl⟩
  | succ take ih =>
      rw [List.count_append, List.count_cons_self, hzero] at h
      have hmem₁ : (10 : UInt8) ∈ rest₁ := List.count_pos_iff.mp (by omega)
      obtain ⟨line₁, rest₂, rfl, hline₁⟩ := List.eq_append_cons_of_mem hmem₁
      have hzero₁ : line₁.count 10 = 0 := List.count_eq_zero.mpr hline₁
      rw [afterNewlines_succ take _ rest₂ hline₁]
      obtain ⟨batch, rest', hrest, hcount, hpos⟩ :=
        ih (start ++ line ++ [10]) line₁ rest₂ hline₁ (by omega) hmem₁ hzero₁
      refine ⟨line ++ 10 :: batch, rest', by simp [hrest], ?_, ?_⟩
      · rw [List.count_append, List.count_cons_self, hzero, hcount]
        omega
      · rw [hpos]
        simp

/-- The loop closes batches behind newlines, and the count of the lines still
pending stays right. -/
theorem closeBatches_spec (settings : ReaderSettings) {pending rest : Bytes}
    {pendingLines restLines : Nat} {batches : List Bytes}
    (hlines : pendingLines = pending.count 10)
    (h : closeBatches settings pending pendingLines = (batches, rest, restLines)) :
    restLines = rest.count 10 ∧ ∀ more batches', IsSplit (rest ++ more) batches' →
      IsSplit (pending ++ more) (batches ++ batches') := by
  induction pendingLines using Nat.strongRecOn generalizing pending batches with
  | ind pendingLines ih =>
      rw [closeBatches] at h
      split at h
      · next hfull =>
        have hpos := settings.batchSize_pos
        obtain ⟨take, htake⟩ : ∃ take, min pendingLines settings.batchSize = take + 1 :=
          ⟨min pendingLines settings.batchSize - 1, by omega⟩
        obtain ⟨batch, pending', rfl, hcount, hsplit⟩ :=
          afterNewlines_spec take [] pending (by omega)
        simp only [List.nil_append, List.length_nil] at hsplit
        have hbatch : batch ++ 10 :: pending' = (batch ++ [10]) ++ pending' := by simp
        simp only [htake, hsplit] at h
        rw [hbatch, List.drop_left, List.take_left] at h
        have hlines' : pendingLines - (take + 1) = pending'.count 10 := by
          rw [hlines, List.count_append, List.count_cons_self, hcount]
          omega
        obtain ⟨hclosed, hrest⟩ := Prod.mk.inj h
        obtain ⟨hrestLines, hsplits⟩ :=
          ih _ (by omega) hlines' (Prod.ext rfl hrest)
        refine ⟨hrestLines, fun more batches' hmore => ?_⟩
        rw [← hclosed, List.cons_append, List.append_assoc, List.cons_append]
        exact .cut batch (hsplits more batches' hmore)
      · obtain ⟨rfl, hrest⟩ := Prod.mk.inj h
        obtain ⟨rfl, rfl⟩ := Prod.mk.inj hrest
        exact ⟨hlines, fun more batches' hmore => hmore⟩

/-- What the reader makes of a file is a split of it. -/
theorem isSplit_readFile (settings : ReaderSettings) {reads : List Bytes} {pending : Bytes}
    {pendingLines : Nat} (hreads : ∀ buffer ∈ reads, buffer ≠ [])
    (hlines : pendingLines = pending.count 10) :
    IsSplit (pending ++ reads.flatten) (readFile settings reads pending pendingLines) := by
  induction reads generalizing pending pendingLines with
  | nil =>
      rw [List.flatten_nil, List.append_nil]
      exact .last pending
  | cons buffer reads ih =>
      have hbuffer : buffer.isEmpty = false := by
        simpa using hreads buffer List.mem_cons_self
      rw [readFile, if_neg (by simp [hbuffer])]
      obtain ⟨hrestLines, hsplits⟩ := closeBatches_spec settings
        (show pendingLines + buffer.count 10 = (pending ++ buffer).count 10 by
          rw [List.count_append, hlines]) rfl
      have hreads' := ih (fun b hb => hreads b (List.mem_cons_of_mem _ hb)) hrestLines
      rw [List.flatten_cons, ← List.append_assoc]
      exact hsplits _ _ hreads'

/-! ## splits are cuts -/

section

variable {duck : Duck} {options : RawParseOptions}

/-- Where splits agree, the batch size, the byte target and the reads are all
the same to the rows. -/
theorem SplitsAgree.readerBatches {text : Bytes} (h : SplitsAgree duck options text)
    {settings settings' : ReaderSettings} {reads reads' : List Bytes}
    (hreads : IsReadOf text reads) (hreads' : IsReadOf text reads') :
    parseBatches duck options (RawDuck.readerBatches settings reads) =
      parseBatches duck options (RawDuck.readerBatches settings' reads') := by
  have hsplit := @isSplit_readFile settings reads [] 0 hreads.nonempty rfl
  have hsplit' := @isSplit_readFile settings' reads' [] 0 hreads'.nonempty rfl
  rw [List.nil_append, hreads.flatten] at hsplit
  rw [List.nil_append, hreads'.flatten] at hsplit'
  exact h _ _ hsplit hsplit'

/-- A blank line at the end of a group changes nothing. -/
theorem readGroup_append_blank (g : List (Piece Json)) :
    readGroup (passAlone duck options) (passRows duck options) (g ++ [.blank]) =
      readGroup (passAlone duck options) (passRows duck options) g := by
  simp only [readGroup, items_append, barred_append, items_cons_blank, items_nil,
    barred_cons_blank, barred_nil, List.append_nil, Bool.or_false]

/-- The rows of lines as a batch: none of an empty batch, which is not emitted. -/
theorem splitRows_cons (hduck : YyjsonReads duck) {ls : List Bytes} (h : IsNdjson duck ls)
    (hlines : ∀ line ∈ ls, (10 : UInt8) ∉ line) (batches : List Bytes) :
    splitRows duck options (joinLines ls :: batches) = (do
      return (← readGroup (passAlone duck options) (passRows duck options) (linePieces duck ls)) ++
        (← splitRows duck options batches)) := by
  rw [splitRows, emit, List.filter_cons, isWhite_joinLines]
  cases hwhite : ls.all isWhite with
  | true =>
      have hitems := ((isWhite_iff_pieces h).mp hwhite).1
      rw [readGroup_empty hereditary_passRows hitems]
      cases hrest : splitRows duck options batches with
      | none => exact hrest
      | some rows => exact hrest
  | false =>
      simp only [Bool.not_false, if_true]
      rw [parseBatches, textRows_joinLines hduck options h hlines hwhite]
      rfl

/-- The same for lines with a newline behind the last. -/
theorem splitRows_cons_newline (hduck : YyjsonReads duck) {ls : List Bytes} (hne : ls ≠ [])
    (h : IsNdjson duck ls) (hlines : ∀ line ∈ ls, (10 : UInt8) ∉ line) (batches : List Bytes) :
    splitRows duck options ((joinLines ls ++ [10]) :: batches) = (do
      return (← readGroup (passAlone duck options) (passRows duck options) (linePieces duck ls)) ++
        (← splitRows duck options batches)) := by
  have htext : joinLines ls ++ [10] = joinLines (ls ++ [[]]) := by
    rw [joinLines_append hne (List.cons_ne_nil _ _), joinLines_singleton]
  have hpieces : linePieces duck (ls ++ [[]]) = linePieces duck ls ++ [.blank] :=
    linePieces_append ls [[]]
  have h' : IsNdjson duck (ls ++ [[]]) := isNdjson_append.mpr ⟨h, isNdjson_of_white rfl⟩
  have hlines' : ∀ line ∈ ls ++ [[]], (10 : UInt8) ∉ line := by
    intro line hline
    rcases List.mem_append.mp hline with hline | hline
    · exact hlines line hline
    · rw [List.mem_singleton.mp hline]
      exact List.not_mem_nil
  rw [htext, splitRows_cons hduck h' hlines', hpieces, readGroup_append_blank]

/-- A split is read as a cut of the lines. -/
theorem exists_cut_of_isSplit (hduck : YyjsonReads duck) {text : Bytes} {batches : List Bytes}
    (h : IsSplit text batches) (hdocuments : IsNdjson duck (lines text)) :
    ∃ gs, gs.flatten = linePieces duck (lines text) ∧ splitRows duck options batches =
      readCut (passAlone duck options) (passRows duck options) gs := by
  induction h with
  | last batch =>
      refine ⟨[linePieces duck (lines batch)], List.flatten_singleton, ?_⟩
      have hrows := @splitRows_cons duck options hduck _ hdocuments
        (fun line => not_mem_of_mem_lines) []
      rw [joinLines_lines] at hrows
      exact hrows
  | cut batch hrest ih =>
      rw [lines_append_newline] at hdocuments ⊢
      obtain ⟨gs, hgs, hrows⟩ := ih (isNdjson_append.mp hdocuments).2
      refine ⟨linePieces duck (lines batch) :: gs, ?_, ?_⟩
      · rw [List.flatten_cons, hgs, linePieces_append]
      · rw [readCut, ← hrows]
        have hbatch := @splitRows_cons_newline duck options hduck _ (lines_ne_nil batch)
          (isNdjson_append.mp hdocuments).1 (fun line => not_mem_of_mem_lines)
        rw [joinLines_lines] at hbatch
        exact hbatch _

/-- A cut of lines is that of a split. -/
theorem exists_isSplit_of_cut (hduck : YyjsonReads duck) {ls : List Bytes} (hne : ls ≠ [])
    (h : IsNdjson duck ls) (hlines : ∀ line ∈ ls, (10 : UInt8) ∉ line)
    {gs : List (List (Piece Json))} (hgs : gs.flatten = linePieces duck ls) :
    ∃ batches, IsSplit (joinLines ls) batches ∧ splitRows duck options batches =
      readCut (passAlone duck options) (passRows duck options) gs := by
  induction gs generalizing ls with
  | nil =>
      have hnil : ls = [] := List.map_eq_nil_iff.mp hgs.symm
      exact absurd hnil hne
  | cons g gs ih =>
      rw [List.flatten_cons, eq_comm, linePieces, List.map_eq_append_iff] at hgs
      obtain ⟨ls₁, ls₂, rfl, rfl, hgs⟩ := hgs
      obtain ⟨h₁, h₂⟩ := isNdjson_append.mp h
      have hlines₁ : ∀ line ∈ ls₁, (10 : UInt8) ∉ line := fun line hline =>
        hlines line (List.mem_append_left _ hline)
      have hlines₂ : ∀ line ∈ ls₂, (10 : UInt8) ∉ line := fun line hline =>
        hlines line (List.mem_append_right _ hline)
      by_cases hempty₂ : ls₂ = []
      · subst hempty₂
        have hrest : readCut (passAlone duck options) (passRows duck options) gs = some [] :=
          readCut_empty hereditary_passRows (by rw [← hgs]; rfl)
        refine ⟨[joinLines ls₁], by simpa using IsSplit.last (joinLines ls₁), ?_⟩
        rw [splitRows_cons hduck h₁ hlines₁, readCut, hrest]
        rfl
      · obtain ⟨batches, hsplit, hrows⟩ := ih hempty₂ h₂ hlines₂ hgs.symm
        by_cases hempty₁ : ls₁ = []
        · subst hempty₁
          refine ⟨batches, hsplit, ?_⟩
          rw [hrows, readCut_cons_of_some (readGroup_empty hereditary_passRows rfl)]
          cases readCut (passAlone duck options) (passRows duck options) gs with
          | none => rfl
          | some rows => rfl
        · refine ⟨(joinLines ls₁ ++ [10]) :: batches, ?_, ?_⟩
          · rw [joinLines_append hempty₁ hempty₂]
            exact .cut _ hsplit
          · rw [splitRows_cons_newline hduck hempty₁ h₁ hlines₁, hrows]
            rfl

/-- Splits agree exactly when cuts do. -/
theorem splitsAgree_iff_cutsAgree (hduck : YyjsonReads duck) {text : Bytes}
    (h : IsNdjson duck (lines text)) : SplitsAgree duck options text ↔
      CutsAgree (passAlone duck options) (passRows duck options)
        (linePieces duck (lines text)) := by
  constructor
  · intro hagree gs gs' hgs hgs'
    obtain ⟨batches, hsplit, hrows⟩ := @exists_isSplit_of_cut _ options hduck _
      (lines_ne_nil text) h (fun line => not_mem_of_mem_lines) _ hgs
    obtain ⟨batches', hsplit', hrows'⟩ := @exists_isSplit_of_cut _ options hduck _
      (lines_ne_nil text) h (fun line => not_mem_of_mem_lines) _ hgs'
    rw [joinLines_lines] at hsplit hsplit'
    rw [← hrows, ← hrows', hagree batches batches' hsplit hsplit']
  · intro hagree batches batches' hsplit hsplit'
    obtain ⟨gs, hgs, hrows⟩ := @exists_cut_of_isSplit _ options hduck _ _ hsplit h
    obtain ⟨gs', hgs', hrows'⟩ := @exists_cut_of_isSplit _ options hduck _ _ hsplit' h
    rw [hrows, hrows', hagree gs gs' hgs hgs']

/-! ## arrays weigh more than their elements -/

/-- The weight of a row: an object weighs nothing. -/
noncomputable def rowWeight (row : Json) : Nat := if row.isObj then 0 else sizeOf row

/-- The weight of rows. -/
noncomputable def rowsWeight (rows : List Json) : Nat := (rows.map rowWeight).sum

@[simp] theorem rowsWeight_append (rows rows' : List Json) :
    rowsWeight (rows ++ rows') = rowsWeight rows + rowsWeight rows' := by
  simp [rowsWeight]

theorem rowWeight_le (row : Json) : rowWeight row ≤ sizeOf row := by
  rw [rowWeight]
  split
  · exact Nat.zero_le _
  · exact Nat.le_refl _

/-- Rows that weigh no more than the values they come from. -/
theorem rowsWeight_flatMap_lt (f : Json → List Json) (values : List Json)
    (h : ∀ value ∈ values, rowsWeight (f value) ≤ sizeOf value) :
    rowsWeight (values.flatMap f) < sizeOf values := by
  induction values with
  | nil => simp [rowsWeight]
  | cons value values ih =>
      rw [List.flatMap_cons, rowsWeight_append, List.cons.sizeOf_spec]
      have hvalue := h value List.mem_cons_self
      have hrest := ih fun value' hvalue' => h value' (List.mem_cons_of_mem _ hvalue')
      omega

theorem sizeOf_objGet {segment : Bytes} {members : List (Bytes × Json)} {child : Json}
    (h : objGet segment members = some child) : sizeOf child < sizeOf (Json.obj members) := by
  rw [objGet, Option.map_eq_some_iff] at h
  obtain ⟨⟨key, value⟩, hfind, rfl⟩ := h
  have hmem := List.sizeOf_lt_of_mem (List.mem_of_find?_eq_some hfind)
  rw [Prod.mk.sizeOf_spec] at hmem
  rw [Json.obj.sizeOf_spec]
  simp only
  omega

/-- The row of a leaf weighs no more than the leaf. -/
theorem rowsWeight_emitMergedRow (leaf : Json) (envelopes : List RawExplodeEnvelope) :
    rowsWeight [emitMergedRow leaf envelopes] ≤ sizeOf leaf := by
  rw [rowsWeight, List.map_singleton, List.sum_singleton]
  cases leaf with
  | obj members => exact Nat.zero_le _
  | _ => exact rowWeight_le _

/-- A row explodes into rows that weigh no more. -/
theorem rowsWeight_explodeInto (path : List Bytes) (envelopes : List RawExplodeEnvelope)
    (node : Json) : rowsWeight (explodeInto path envelopes node) ≤ sizeOf node := by
  induction path generalizing envelopes node with
  | nil => exact rowsWeight_emitMergedRow node envelopes
  | cons segment path ih =>
      cases node with
      | obj members =>
          rw [explodeInto]
          cases hget : objGet segment members with
          | none => exact rowsWeight_emitMergedRow _ envelopes
          | some child =>
              have hsize := sizeOf_objGet hget
              cases child with
              | arr elements =>
                  have hflat := rowsWeight_flatMap_lt _ elements
                    fun value _ => ih (⟨members, segment⟩ :: envelopes) value
                  rw [Json.arr.sizeOf_spec] at hsize
                  simp only
                  omega
              | _ => exact (ih (⟨members, segment⟩ :: envelopes) _).trans hsize.le
      | _ => exact rowsWeight_emitMergedRow _ envelopes

/-- An array that is read alone gives less than among other documents. -/
theorem rowsWeight_alone_lt (hotlp : options.otlp = false) {elements rows rows' : List Json}
    (halone : passAlone duck options (.arr elements) = some rows)
    (htogether : passRows duck options [.arr elements] = some rows') :
    rowsWeight rows < rowsWeight rows' := by
  obtain ⟨-, rfl, -⟩ := passRows_eq_some.mp halone
  obtain ⟨-, rfl, -⟩ := passRows_eq_some.mp htogether
  have hwhole : explodedRows duck options [.arr elements] = [.arr elements] := by
    rw [explodedRows, explode, hotlp, List.flatMap_singleton, explodeInto_of_not_obj _ rfl]
    simp only [Bool.false_eq_true, if_false, ite_self]
  have hweight : rowsWeight [Json.arr elements] = 1 + sizeOf elements := by
    rw [rowsWeight, List.map_singleton, List.sum_singleton, rowWeight, Json.arr.sizeOf_spec]
    rfl
  rw [hwhole, hweight, collectRows, explodedRows, explode, hotlp]
  split
  · have hflat := rowsWeight_flatMap_lt (fun value => [value]) elements fun value _ => by
      simpa [rowsWeight] using rowWeight_le value
    rw [List.flatMap_singleton'] at hflat
    omega
  · have hflat := rowsWeight_flatMap_lt (explodeInto options.explodePath []) elements
      fun value _ => rowsWeight_explodeInto _ _ value
    simp only [Bool.false_eq_true, if_false]
    omega

/-- A document that is no array is the same alone as among others. -/
theorem passAlone_of_not_array {document : Json} (h : ∀ elements, document ≠ .arr elements) :
    passAlone duck options document = passRows duck options [document] := by
  cases document with
  | arr elements => exact absurd rfl (h elements)
  | _ => rfl

theorem rowsWeight_alone_le (hotlp : options.otlp = false) {document : Json}
    {rows rows' : List Json} (halone : passAlone duck options document = some rows)
    (htogether : passRows duck options [document] = some rows') :
    rowsWeight rows ≤ rowsWeight rows' := by
  by_cases harray : ∃ elements, document = .arr elements
  · obtain ⟨elements, rfl⟩ := harray
    exact (rowsWeight_alone_lt hotlp halone htogether).le
  · rw [passAlone_of_not_array fun elements h => harray ⟨elements, h⟩, htogether] at halone
    rw [Option.some.inj halone]

/-! ## when splits agree -/

/-- The document alone gives the row it gives among others. -/
def ReadsApart (duck : Duck) (options : RawParseOptions) (document : Json) : Prop :=
  passAlone duck options document = passRows duck options [document]

/-- Two documents give in sequence the rows they give together. -/
def ReadInSequence (duck : Duck) (options : RawParseOptions) (first second : Json) : Prop :=
  ∃ rows rows', passAlone duck options first = some rows ∧
    passAlone duck options second = some rows' ∧
    passRows duck options [first, second] = some (rows ++ rows')

/-- The lines hold one document at most, and no blank line that yyjson stops at;
or one that every split refuses: an object whose rows do not pass, or the only
document between two objects or an end, no such blank line by it, an array whose
elements do not pass; or all documents pass together, and none is an array.

OTLP normalization rewrites arrays too: there each document must give alone the
row it gives among others, or two must do so in sequence. -/
def SplitsFreely (duck : Duck) (options : RawParseOptions) (ps : List (Piece Json)) : Prop :=
  ((items ps).length ≤ 1 ∧ barred ps = false) ∨
  Refusing (passAlone duck options) Json.isObj ps ∨
  (∃ rows, passRows duck options (items ps) = some rows) ∧
    ((∀ document ∈ items ps, ∀ elements, document ≠ .arr elements) ∨
      options.otlp = true ∧ ((∀ document ∈ items ps, ReadsApart duck options document) ∨
        barred ps = false ∧ ∃ first second, items ps = [first, second] ∧
          ReadInSequence duck options first second))

theorem readInSequence_iff {first second : Json} {rows : List Json}
    (h : passRows duck options [first, second] = some rows) :
    ReadInSequence duck options first second ↔
      readCut (passAlone duck options) (passRows duck options)
        [[.item first], [.item second]] = some rows := by
  rw [readCut_cons_eq_some, readGroup_single (a := first) rfl rfl,
    readCut_one (a := second) hereditary_passRows rfl rfl]
  constructor
  · rintro ⟨rows₁, rows₂, hfirst, hsecond, htogether⟩
    rw [h] at htogether
    exact ⟨rows₁, rows₂, hfirst, hsecond, Option.some.inj htogether⟩
  · rintro ⟨rows₁, rows₂, hfirst, hsecond, rfl⟩
    exact ⟨rows₁, rows₂, hfirst, hsecond, h⟩

/-- Without OTLP normalization no array reads apart. -/
theorem not_array_of_readsApart (hotlp : options.otlp = false) {document : Json} {rows : List Json}
    (htogether : passRows duck options [document] = some rows)
    (h : ReadsApart duck options document) : ∀ elements, document ≠ .arr elements := by
  rintro elements rfl
  have hlt := rowsWeight_alone_lt hotlp (h.trans htogether) htogether
  exact Nat.lt_irrefl _ hlt

/-- Without OTLP normalization two documents in sequence hold no array. -/
theorem not_array_of_readInSequence (hotlp : options.otlp = false) {first second : Json}
    (h : ReadInSequence duck options first second) :
    (∀ elements, first ≠ .arr elements) ∧ ∀ elements, second ≠ .arr elements := by
  obtain ⟨rows₁, rows₂, hfirst, hsecond, htogether⟩ := h
  obtain ⟨rows₁', rows₂', hfirst', hsecond', hrows⟩ :=
    hereditary_passRows.append [first] [second] _ htogether
  have hweight := congrArg rowsWeight hrows
  rw [rowsWeight_append, rowsWeight_append] at hweight
  have hle₁ := rowsWeight_alone_le hotlp hfirst hfirst'
  have hle₂ := rowsWeight_alone_le hotlp hsecond hsecond'
  constructor
  · rintro elements rfl
    have hlt := rowsWeight_alone_lt hotlp hfirst hfirst'
    omega
  · rintro elements rfl
    have hlt := rowsWeight_alone_lt hotlp hsecond hsecond'
    omega

/-- The documents read the same in every cut of a settled sequence. -/
theorem settled_iff_splitsFreely (hduck : YyjsonReads duck) (ps : List (Piece Json)) :
    Settled (passAlone duck options) (passRows duck options) ps ↔
      SplitsFreely duck options ps := by
  have hrefused := refused_iff hereditary_passRows (@parted_passRows duck options hduck) ps
  rw [Settled, SplitsFreely, hrefused]
  refine or_congr Iff.rfl (or_congr Iff.rfl ?_)
  constructor
  · rintro ⟨rows, hrows, hread⟩
    refine ⟨⟨rows, hrows⟩, ?_⟩
    cases hotlp : options.otlp with
    | true =>
        refine .inr ⟨rfl, hread.imp id ?_⟩
        rintro ⟨hbar, first, second, hitems, hcut⟩
        rw [hitems] at hrows
        exact ⟨hbar, first, second, hitems, (readInSequence_iff hrows).mpr hcut⟩
    | false =>
        left
        obtain hapart | ⟨-, first, second, hitems, hcut⟩ := hread
        · intro document hdocument
          obtain ⟨rows', hrows'⟩ := hereditary_passRows.single hrows hdocument
          exact not_array_of_readsApart hotlp hrows' (hapart document hdocument)
        · rw [hitems] at hrows ⊢
          obtain ⟨hfirst, hsecond⟩ :=
            not_array_of_readInSequence hotlp ((readInSequence_iff hrows).mpr hcut)
          intro document hdocument
          rcases List.mem_cons.mp hdocument with rfl | hdocument
          · exact hfirst
          · rw [List.mem_singleton.mp hdocument]
            exact hsecond
  · rintro ⟨⟨rows, hrows⟩, harrays | ⟨-, hapart | ⟨hbar, first, second, hitems, hsequence⟩⟩⟩
    · exact ⟨rows, hrows, .inl fun document hdocument =>
        passAlone_of_not_array (harrays document hdocument)⟩
    · exact ⟨rows, hrows, .inl hapart⟩
    · rw [hitems] at hrows
      refine ⟨rows, by rw [hitems, hrows], .inr ⟨hbar, first, second, hitems, ?_⟩⟩
      exact (readInSequence_iff hrows).mp hsequence

/-- **Splits of an NDJSON file**: the rows do not depend on the split exactly
when the lines can be split freely; and then the batch size, the byte target and
the reads are all the same to them. -/
theorem splits_agree_iff (hduck : YyjsonReads duck) {text : Bytes}
    (h : IsNdjson duck (lines text)) :
    (SplitsAgree duck options text ↔
        SplitsFreely duck options (linePieces duck (lines text))) ∧
      (SplitsFreely duck options (linePieces duck (lines text)) →
        ∀ settings settings' reads reads', IsReadOf text reads → IsReadOf text reads' →
          parseBatches duck options (readerBatches settings reads) =
            parseBatches duck options (readerBatches settings' reads')) := by
  have hiff : SplitsAgree duck options text ↔
      SplitsFreely duck options (linePieces duck (lines text)) := by
    rw [splitsAgree_iff_cutsAgree hduck h, cutsAgree_iff hereditary_passRows,
      settled_iff_splitsFreely hduck]
  exact ⟨hiff, fun hfree settings settings' reads reads' => (hiff.mpr hfree).readerBatches⟩

end

/-! ## two files -/

/-- The documents of the two files. -/
def listTable : List (Bytes × Json) :=
  [(bytes "\x7b\"a\":1\x7d", .obj [(bytes "a", .uint 1)]),
   (bytes "\x7b\"b\":[2]\x7d", .obj [(bytes "b", .arr [.uint 2])]),
   (bytes "4", .uint 4), (bytes "null", .null),
   (bytes "[1,2]", .arr [.uint 1, .uint 2]), (bytes "[3]", .arr [.uint 3])]

/-- The small DuckDB, which reads these documents. -/
def listDuck : Duck := tableDuck listTable

theorem yyjsonReads_listDuck : YyjsonReads listDuck :=
  yyjsonReads_tableDuck (by decide) (by decide) (by decide +kernel)

/-- Batches of one line. -/
def singleLines : ReaderSettings :=
  { defaultSettings with batchSize := 1, batchSize_pos := by decide }

/-- Two objects, and a blank line between them. -/
def objectText : Bytes := bytes "\x7b\"a\":1\x7d\n \n\x7b\"b\":[2]\x7d\n"

/-- `4` and `null`, one a line, and an end without a newline. -/
def scalarText : Bytes := bytes "4\nnull"

/-- `[1,2]` and `[3]`, one a line. -/
def listText : Bytes := bytes "[1,2]\n[3]\n"

theorem splitsFreely_objectText :
    SplitsFreely listDuck {} (linePieces listDuck (lines objectText)) := by
  have hitems : items (linePieces listDuck (lines objectText)) =
      [.obj [(bytes "a", .uint 1)], .obj [(bytes "b", .arr [.uint 2])]] := rfl
  refine .inr (.inr ⟨⟨items (linePieces listDuck (lines objectText)), rfl⟩, .inl ?_⟩)
  rw [hitems]
  simp

theorem splitsFreely_scalarText :
    SplitsFreely listDuck {} (linePieces listDuck (lines scalarText)) := by
  have hitems : items (linePieces listDuck (lines scalarText)) = [.uint 4, .null] := rfl
  refine .inr (.inr ⟨⟨items (linePieces listDuck (lines scalarText)), rfl⟩, .inl ?_⟩)
  rw [hitems]
  simp

/-- Objects can be split in any way, and so can scalars; batches of one line from two
reads that part a line give the rows that one batch gives. -/
theorem splits_agree_objects :
    SplitsAgree listDuck {} objectText ∧ SplitsAgree listDuck {} scalarText ∧
      parseBatches listDuck {}
          (readerBatches singleLines [objectText.take 3, objectText.drop 3]) =
        parseBatches listDuck {} (readerBatches defaultSettings [objectText]) := by
  have hobjects := @splits_agree_iff listDuck {} yyjsonReads_listDuck objectText
    (isNdjson_of_all (by decide +kernel))
  have hscalars := @splits_agree_iff listDuck {} yyjsonReads_listDuck scalarText
    (isNdjson_of_all (by decide +kernel))
  refine ⟨hobjects.1.mpr splitsFreely_objectText, hscalars.1.mpr splitsFreely_scalarText,
    hobjects.2 splitsFreely_objectText _ _ _ _ ⟨by decide +kernel, by decide +kernel⟩
      ⟨List.flatten_singleton, by decide +kernel⟩⟩

/-- Of two arrays, one a line, batches of one line give the elements and a batch
of two lines the arrays. -/
theorem splits_disagree_arrays : IsNdjson listDuck (lines listText) ∧
    parseBatches listDuck {} (readerBatches singleLines [listText]) =
      some [.uint 1, .uint 2, .uint 3] ∧
    parseBatches listDuck {} (readerBatches defaultSettings [listText]) =
      some [.arr [.uint 1, .uint 2], .arr [.uint 3]] ∧
    some [.uint 1, .uint 2, .uint 3] ≠ some [Json.arr [.uint 1, .uint 2], .arr [.uint 3]] := by
  refine ⟨isNdjson_of_all rfl, ?_, ?_, ?_⟩
  · have hend : closeBatches singleLines [] 0 = ([], [], 0) :=
      closeBatches_of_not_full (by decide)
    have hsecond : closeBatches singleLines [91, 51, 93, 10] 1 = ([[91, 51, 93, 10]], [], 0) :=
      closeBatches_of_full (by decide) rfl rfl hend
    have hfirst : closeBatches singleLines listText 2 =
        ([[91, 49, 44, 50, 93, 10], [91, 51, 93, 10]], [], 0) :=
      closeBatches_of_full (by decide) rfl rfl hsecond
    rw [readerBatches_singleton rfl hfirst]
    rfl
  · have hclosed : closeBatches defaultSettings listText 2 = ([], listText, 2) :=
      closeBatches_of_not_full (by decide)
    rw [readerBatches_singleton rfl hclosed]
    rfl
  · intro h
    exact absurd (congrArg (Option.map List.length) h) (by decide)

end RawDuck
