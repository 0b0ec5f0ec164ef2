import RawDuck.IngestFile
import RawDuck.Split

/-!
# RawDuck.FallbackFile

`raw_ingest_file` into a catalog that is not native, with one consumer: what is
inserted are the rows of the texts that accompany the payloads.

* `ReadsRecords` — what the `INSERT` of the catalog does with a text;
* `FileMove` — the steps of a call without failures;
* `content_move` — the rows inserted and those of the texts on their way, and
  what a step loses of them;
* `rawIngestFile_inserts_iff` — a call that returns has inserted the rows of the
  file exactly when no step loses the text of rows.
-/

namespace RawDuck

open Cuts Fallible Transition Transition.System

/-! ## what a batch inserts -/

/-- The rows of a text, none when it is not accepted. -/
def readBack (duck : Duck) (text : Bytes) : List Json := (textRows duck {} text).getD []

/-- A catalog whose `raw_records(text)` gives the rows of the text: `inserted`
are the rows inserted into the table so far. -/
structure ReadsRecords {ω : Type} (duck : Duck) (cat : FallbackCatalog ω)
    (inserted : ω → List Json) : Prop where
  insert : ∀ world columns text world' count,
    cat.run world (.insertSelect columns text) = .ok (world', count) →
    inserted world' = inserted world ++ readBack duck text
  keep : ∀ world statement world' count,
    (∀ columns text, statement ≠ .insertSelect columns text) →
    cat.run world statement = .ok (world', count) → inserted world' = inserted world
  commit : ∀ world world', cat.commit world = .ok world' → inserted world' = inserted world

section

variable {ω : Type} {duck : Duck} {cat : FallbackCatalog ω} {inserted : ω → List Json}
variable {parsed : RawParsedPayload} {text : Bytes}

/-- The statements of a plan change the schema only. -/
def FallbackPlan.SchemaOnly (plan : FallbackPlan) : Prop :=
  ∀ statement ∈ plan.statements, ∀ columns text, statement ≠ .insertSelect columns text

theorem schemaOnly_fallbackColumn (types : List (Bytes × LogicalType)) (allowJsonWidening : Bool)
    {plan : FallbackPlan} (column : RawColumn) (h : plan.SchemaOnly) :
    (fallbackColumn types allowJsonWidening plan column).SchemaOnly := by
  have hsnoc : ∀ last : FallbackStatement, (∀ columns text, last ≠ .insertSelect columns text) →
      ∀ statement ∈ plan.statements ++ [last], ∀ columns text,
        statement ≠ .insertSelect columns text := by
    intro last hlast statement hstatement
    rcases List.mem_append.mp hstatement with hstatement | hstatement
    · exact h statement hstatement
    · rw [List.mem_singleton.mp hstatement]
      exact hlast
  unfold fallbackColumn
  split
  · exact hsnoc _ fun _ _ hadd => (nomatch hadd)
  · simp only
    split
    · exact h
    · split
      · exact h
      · exact hsnoc _ fun _ _ halter => (nomatch halter)

theorem schemaOnly_fallbackPlan (tableExists : Bool) (types : List (Bytes × LogicalType))
    (allowJsonWidening : Bool) (columns : List RawColumn) :
    (fallbackPlan tableExists types allowJsonWidening columns).SchemaOnly := by
  have hfold : ∀ (columns : List RawColumn) (plan : FallbackPlan), plan.SchemaOnly →
      (columns.foldl (fallbackColumn types allowJsonWidening) plan).SchemaOnly := by
    intro columns
    induction columns with
    | nil => exact fun _ hplan => hplan
    | cons column columns ih =>
        intro plan hplan
        exact ih _ (schemaOnly_fallbackColumn types allowJsonWidening column hplan)
  unfold fallbackPlan
  split
  · intro statement hstatement columns text hinsert
    rw [List.mem_singleton.mp hstatement] at hinsert
    exact nomatch hinsert
  · exact hfold columns _ fun _ hstatement => (nomatch hstatement)

/-- A committed transaction has inserted the rows of the text of its `INSERT`. -/
theorem fallbackTransaction_inserts (hcat : ReadsRecords duck cat inserted) {world world' : ω}
    {plan : FallbackPlan} {columns : List (Bytes × SelectExpr)} {rows : Nat}
    (hplan : plan.SchemaOnly)
    (h : fallbackTransaction cat world plan (some (.insertSelect columns text)) =
      .ok (world', rows)) :
    inserted world' = inserted world ++ readBack duck text := by
  obtain ⟨evolved, hevolved, h⟩ := bind_eq_ok.mp h
  obtain ⟨⟨filled, count⟩, hinsert, h⟩ := bind_eq_ok.mp h
  obtain ⟨committed, hcommit, h⟩ := bind_eq_ok.mp h
  obtain ⟨rfl, -⟩ := Prod.mk.inj (pure_eq_ok.mp h)
  have hkept : inserted evolved = inserted world := by
    refine foldlM_rule (fun _ w => inserted w = inserted world) ?_ rfl hevolved
    intro done statement rest w w' hstatements hw hturn
    obtain ⟨⟨w'', _⟩, hrun, hw''⟩ := bind_eq_ok.mp hturn
    obtain rfl := pure_eq_ok.mp hw''
    have hmem : statement ∈ plan.statements := by
      rw [hstatements]
      exact List.mem_append_right _ List.mem_cons_self
    rw [hcat.keep _ _ _ _ (hplan statement hmem) hrun, hw]
  rw [hcat.commit _ _ hcommit, hcat.insert _ _ _ _ _ hinsert, hkept]

/-- A batch with rows inserts the rows of its text. -/
theorem fallbackBatch_inserts (hcat : ReadsRecords duck cat inserted)
    (hrows : parsed.payload.rows ≠ []) (s : FallbackRun ω) (allowJsonWidening : Bool) :
    Leaves (fallbackBatch cat parsed text allowJsonWidening) s
      (fun _ t => inserted t.world = inserted s.world ++ readBack duck text) s.Same := by
  have hne : parsed.payload.rows.isEmpty = false := by simpa using hrows
  apply Leaves.get_bind
  simp only [hne, Bool.false_eq_true, if_false]
  refine .bind (fun out t => t = s ∧
    inserted out.1 = inserted s.world ++ readBack duck text) ?_ ?_
  · refine .fromExcept (fun out hout => ⟨rfl, ?_⟩) (.refl s)
    exact fallbackTransaction_inserts hcat (schemaOnly_fallbackPlan _ _ _ _) hout
  · rintro ⟨world, rows⟩ t ⟨rfl, hworld⟩
    exact .set hworld

/-- **What a batch inserts**: the rows of its text, and none when it has no
columns. -/
theorem ingestFallbackParsed_inserts (hcat : ReadsRecords duck cat inserted)
    (hrows : parsed.columns ≠ [] → parsed.payload.rows ≠ []) {s t : FallbackRun ω}
    (h : ingestFallbackParsed cat parsed text s = .ok ⟨⟩ t) :
    inserted t.world = inserted s.world ++
      if parsed.columns = [] then [] else readBack duck text := by
  refine (?_ : Leaves (ingestFallbackParsed cat parsed text) s (fun _ t => inserted t.world =
    inserted s.world ++ if parsed.columns = [] then [] else readBack duck text) s.Same).1 _ _ h
  refine .bind (fun _ u => s.Same u) (.modify ⟨rfl, rfl⟩) fun _ u hcounted => ?_
  refine .bind (fun _ v => s.Same v) ?_ fun _ v hconnected => ?_
  · exact (ensureFallbackConnection_leaves u).mono (fun _ _ => hcounted.trans)
      fun _ => hcounted.trans
  · apply Leaves.get_bind
    split
    · exact .throw hconnected
    · split
      · next hempty =>
        rw [List.isEmpty_iff] at hempty
        refine .pure ?_
        rw [hconnected.2, if_pos hempty, List.append_nil]
      · next hcolumns =>
        rw [List.isEmpty_iff] at hcolumns
        rw [if_neg hcolumns, ← hconnected.2]
        have hbatch := @fallbackBatch_inserts _ _ _ _ _ text hcat (hrows hcolumns)
        refine Leaves.tryCatch v.Same (hbatch v true) fun error w hw => ?_
        split
        · refine (hbatch w false).mono (fun _ _ hinserted => ?_) fun _ hw' => ?_
          · rw [hinserted, hw.2]
          · exact hconnected.trans (hw.trans hw')
        · exact .throw (hconnected.trans hw)

end

/-! ## what a step moves -/

variable {σ : Type} {cfg : FileConfig} {target : FileTarget σ}

/-- What one step of a call without failures does, with one consumer. -/
inductive FileMove (cfg : FileConfig) (target : FileTarget σ) (s : FileRun σ 1) :
    FileEvent 1 → FileRun σ 1 → Prop where
  | emit {batch : Bytes} {rest : List Bytes} (unread : s.unread = batch :: rest) :
      FileMove cfg target s .emit { s with unread := rest, rawQueue := s.rawQueue ++ [batch] }
  | readerDone (unread : s.unread = []) :
      FileMove cfg target s .readerDone { s with reading := false }
  | popRaw {batch : Bytes} {rest : List Bytes} (rawQueue : s.rawQueue = batch :: rest) :
      FileMove cfg target s .popRaw { s with rawQueue := rest, parsing := s.parsing ++ [batch] }
  | parse {i : Nat} {batch : Bytes} {parsed : RawParsedPayload}
      (parsing : s.parsing[i]? = some batch)
      (process_eq : process cfg.duck cfg.options batch = .ok parsed) :
      FileMove cfg target s (.parse i)
        { s with parsing := s.parsing.eraseIdx i, queue := s.queue ++ [⟨parsed, batch⟩] }
  | hold {seesTable : Bool} {item : PipelineItem} {rest : List PipelineItem}
      (queue : s.queue = item :: rest) (consuming : s.consuming 0 = true)
      (pending : s.pending 0 = none) :
      FileMove cfg target s (.pop 0 seesTable)
        (({ s with queue := rest } : FileRun σ 1).keepPending 0 (some item) s.target)
  | coalesce {seesTable : Bool} {first item : PipelineItem} {rest : List PipelineItem}
      (queue : s.queue = item :: rest) (consuming : s.consuming 0 = true)
      (pending : s.pending 0 = some first) (coalesces : Coalesces cfg first item) :
      FileMove cfg target s (.pop 0 seesTable)
        (({ s with queue := rest } : FileRun σ 1).keepPending 0
          (some { first with parsed := mergeParsedPayloads first.parsed item.parsed }) s.target)
  | ingest {seesTable : Bool} {first item : PipelineItem} {rest : List PipelineItem} {t : σ}
      (queue : s.queue = item :: rest) (consuming : s.consuming 0 = true)
      (pending : s.pending 0 = some first) (coalesces : ¬ Coalesces cfg first item)
      (ingested : target.ingest seesTable first s.target = .ok ⟨⟩ t) :
      FileMove cfg target s (.pop 0 seesTable)
        (({ s with queue := rest } : FileRun σ 1).keepPending 0 (some item) t)
  | leave {seesTable : Bool} (consuming : s.consuming 0 = true) (drained : s.drained = true)
      (pending : s.pending 0 = none) :
      FileMove cfg target s (.leave 0 seesTable) (s.consumerLeaves 0 s.target)
  | ingestLast {seesTable : Bool} {item : PipelineItem} {t : σ} (consuming : s.consuming 0 = true)
      (drained : s.drained = true) (pending : s.pending 0 = some item)
      (ingested : target.ingest seesTable item s.target = .ok ⟨⟩ t) :
      FileMove cfg target s (.leave 0 seesTable) (s.consumerLeaves 0 t)
  | finish {t : σ} (consuming : s.consuming 0 = false)
      (finished : target.finish s.target = .ok ⟨⟩ t) :
      FileMove cfg target s .finish { s with finished := true, target := t }
  | join (finished : s.finished = true) :
      FileMove cfg target s .join { s with outcome := some (.ok ⟨⟩) }

/-- A step after which the call has not failed is one of these moves. -/
theorem FileRun.step_move {s s' : FileRun σ 1} {a : FileEvent 1} (hflowing : s.aborted = false)
    (h : s.step cfg target a = some s') (hgood : s'.failed = false) :
    FileMove cfg target s a s' := by
  have honly : ∀ c : Fin 1, c = 0 := fun c => Subsingleton.elim c 0
  cases FileRun.step_flow hflowing h hgood with
  | emit hunread => exact .emit hunread
  | readerDone hunread => exact .readerDone hunread
  | popRaw hrawQueue => exact .popRaw hrawQueue
  | parse hparsing hprocess => exact .parse hparsing hprocess
  | hold c hqueue hconsuming hpending =>
      obtain rfl := honly c
      exact .hold hqueue hconsuming hpending
  | coalesce c hqueue hconsuming hpending hcoalesces =>
      obtain rfl := honly c
      exact .coalesce hqueue hconsuming hpending hcoalesces
  | ingest c hqueue hconsuming hpending hcoalesces hingested =>
      obtain rfl := honly c
      exact .ingest hqueue hconsuming hpending hcoalesces hingested
  | leave c hconsuming hdrained hpending =>
      obtain rfl := honly c
      exact .leave hconsuming hdrained hpending
  | ingestLast c hconsuming hdrained hpending hingested =>
      obtain rfl := honly c
      exact .ingestLast hconsuming hdrained hpending hingested
  | finish hleft hfinished => exact .finish (hleft 0) hfinished
  | join hfinished => exact .join hfinished

/-! ## rows on their way -/

/-- The texts on their way: of the pending item, of the queues, and not read yet. -/
def FileRun.texts (s : FileRun σ 1) : List Bytes :=
  (if s.consuming 0 then (s.pending 0).toList.map PipelineItem.payload else []) ++
    (s.queue.map PipelineItem.payload ++ (s.parsing ++ (s.rawQueue ++ s.unread)))

/-- A batch as a parser hands it on. -/
structure PipelineItem.Fresh (duck : Duck) (item : PipelineItem) : Prop where
  rows : textRows duck {} item.payload = some item.parsed.payload.rows
  columns : item.parsed.columns ≠ [] → item.parsed.payload.rows ≠ []

/-- What holds throughout a call without failures: the texts to parse have the
rows `raw_records` finds in them, and what is behind a thread that ended is
empty. -/
structure FileInv (cfg : FileConfig) (s : FileRun σ 1) : Prop where
  alike : ∀ text ∈ s.parsing ++ (s.rawQueue ++ s.unread),
    textRows cfg.duck cfg.options text = textRows cfg.duck {} text
  queued : ∀ item ∈ s.queue, item.Fresh cfg.duck
  pending : ∀ item, s.pending 0 = some item → item.parsed.columns ≠ [] →
    item.parsed.payload.rows ≠ []
  flowing : s.aborted = false
  read : s.reading = false → s.unread = []
  left : s.consuming 0 = false → s.texts = []
  finished : s.finished = true → s.consuming 0 = false
  returned : s.outcome = some (.ok ⟨⟩) → s.finished = true

/-- No step loses the text of rows: a batch that is coalesced into another one
has no rows, and a batch that is ingested has a column, or its text no rows. -/
def KeepsRows (cfg : FileConfig) (s : FileRun σ 1) : FileEvent 1 → Prop
  | .pop c _ => ∀ first item, s.pending c = some first → s.queue.head? = some item →
      (Coalesces cfg first item → item.parsed.payload.rows = []) ∧
      (¬ Coalesces cfg first item →
        first.parsed.columns ≠ [] ∨ readBack cfg.duck first.payload = [])
  | .leave c _ => ∀ item, s.pending c = some item →
      item.parsed.columns ≠ [] ∨ readBack cfg.duck item.payload = []
  | _ => True

/-- A parsed batch is fresh. -/
theorem fresh_of_process {batch : Bytes} {parsed : RawParsedPayload}
    (halike : textRows cfg.duck cfg.options batch = textRows cfg.duck {} batch)
    (h : process cfg.duck cfg.options batch = .ok parsed) :
    PipelineItem.Fresh cfg.duck ⟨parsed, batch⟩ := by
  obtain ⟨p, rfl⟩ := process_spec h
  obtain ⟨payload, hparse, h⟩ := bind_eq_ok.mp h
  obtain ⟨columns, -, h⟩ := bind_eq_ok.mp h
  have hpayload : payload = p.payload := congrArg RawParsedPayload.payload (pure_eq_ok.mp h)
  refine ⟨?_, p.rows_ne_nil⟩
  rw [← halike, textRows, hparse, hpayload]
  rfl

/-- The texts of a call of which the consumer is at work. -/
theorem texts_of_consuming {s : FileRun σ 1} (h : s.consuming 0 = true) :
    s.texts = (s.pending 0).toList.map PipelineItem.payload ++
      (s.queue.map PipelineItem.payload ++ (s.parsing ++ (s.rawQueue ++ s.unread))) := by
  rw [FileRun.texts, if_pos h]

@[simp] theorem FileRun.keepPending_pending (s : FileRun σ 1) (c : Fin 1)
    (pending : Option PipelineItem) (t : σ) : (s.keepPending c pending t).pending c = pending :=
  Function.update_self ..

/-- The texts with another item pending. -/
theorem texts_keepPending {s : FileRun σ 1} (h : s.consuming 0 = true) (rest : List PipelineItem)
    (item : PipelineItem) (t : σ) :
    (({ s with queue := rest } : FileRun σ 1).keepPending 0 (some item) t).texts =
      item.payload :: (rest.map PipelineItem.payload ++
        (s.parsing ++ (s.rawQueue ++ s.unread))) := by
  have hconsuming :
      (({ s with queue := rest } : FileRun σ 1).keepPending 0 (some item) t).consuming 0 =
      true := h
  rw [texts_of_consuming hconsuming, FileRun.keepPending_pending]
  rfl

@[simp] theorem FileRun.consumerLeaves_consuming (s : FileRun σ 1) (c : Fin 1) (t : σ) :
    (s.consumerLeaves c t).consuming c = false := Function.update_self ..

/-- Nothing is on its way any more when the consumer leaves. -/
theorem FileInv.drained {s : FileRun σ 1} (h : FileInv cfg s) (hdrained : s.drained = true) :
    s.queue = [] ∧ s.parsing = [] ∧ s.rawQueue = [] ∧ s.unread = [] := by
  simp only [FileRun.drained, Bool.and_eq_true, List.isEmpty_iff, Bool.not_eq_true'] at hdrained
  obtain ⟨⟨⟨hreading, hrawQueue⟩, hparsing⟩, hqueue⟩ := hdrained
  exact ⟨hqueue, hparsing, hrawQueue, h.read hreading⟩

/-- One step keeps the invariant. -/
theorem FileInv.step {s s' : FileRun σ 1} {a : FileEvent 1} (h : FileInv cfg s)
    (hmove : FileMove cfg target s a s') : FileInv cfg s' := by
  cases hmove with
  | @emit batch rest hunread =>
      have htexts : ∀ texts : List Bytes, texts ++ (s.rawQueue ++ s.unread) =
          texts ++ (s.rawQueue ++ [batch] ++ rest) := by
        intro texts
        rw [hunread, List.append_assoc]
        rfl
      refine { h with alike := ?_, read := ?_, left := ?_ }
      · exact htexts s.parsing ▸ h.alike
      · intro hreading
        have hnil := h.read hreading
        rw [hunread] at hnil
        exact nomatch hnil
      · intro hleft
        have hnil := h.left hleft
        simp only [FileRun.texts, hunread, List.append_eq_nil_iff] at hnil
        exact nomatch hnil.2.2.2.2
  | readerDone hunread => exact { h with read := fun _ => hunread }
  | @popRaw batch rest hrawQueue =>
      refine { h with alike := ?_, left := ?_ }
      · have hsame : s.parsing ++ [batch] ++ (rest ++ s.unread) =
            s.parsing ++ (s.rawQueue ++ s.unread) := by
          rw [hrawQueue, List.append_assoc]
          rfl
        exact hsame ▸ h.alike
      · intro hleft
        have hnil := h.left hleft
        simp only [FileRun.texts, hrawQueue, List.append_eq_nil_iff] at hnil
        exact nomatch hnil.2.2.2.1
  | @parse i batch parsed hparsing hprocess =>
      have hmem : batch ∈ s.parsing := List.mem_of_getElem? hparsing
      refine { h with alike := ?_, queued := ?_, left := ?_ }
      · intro text htext
        refine h.alike text ?_
        rcases List.mem_append.mp htext with htext | htext
        · exact List.mem_append_left _ (List.mem_of_mem_eraseIdx htext)
        · exact List.mem_append_right _ htext
      · intro item hitem
        rcases List.mem_append.mp hitem with hitem | hitem
        · exact h.queued item hitem
        · rw [List.mem_singleton.mp hitem]
          exact fresh_of_process (h.alike batch (List.mem_append_left _ hmem)) hprocess
      · intro hleft
        have hnil := h.left hleft
        simp only [FileRun.texts, List.append_eq_nil_iff] at hnil
        rw [hnil.2.2.1] at hmem
        exact nomatch hmem
  | @hold seesTable item rest hqueue hconsuming hpending =>
      have hitem := h.queued item (hqueue ▸ List.mem_cons_self)
      refine { h with queued := ?_, pending := ?_, left := ?_ }
      · exact fun item' hitem' => h.queued item' (hqueue ▸ List.mem_cons_of_mem _ hitem')
      · intro item' hitem'
        rw [FileRun.keepPending_pending] at hitem'
        exact Option.some.inj hitem' ▸ hitem.columns
      · exact fun hleft => absurd (hconsuming.symm.trans hleft) (by simp)
  | @coalesce seesTable first item rest hqueue hconsuming hpending hcoalesces =>
      refine { h with queued := ?_, pending := ?_, left := ?_ }
      · exact fun item' hitem' => h.queued item' (hqueue ▸ List.mem_cons_of_mem _ hitem')
      · intro item' hitem' hcolumns
        rw [FileRun.keepPending_pending] at hitem'
        obtain rfl := Option.some.inj hitem'
        exact List.append_ne_nil_of_left_ne_nil (h.pending first hpending hcolumns) _
      · exact fun hleft => absurd (hconsuming.symm.trans hleft) (by simp)
  | @ingest seesTable first item rest t hqueue hconsuming hpending hcoalesces hingested =>
      have hitem := h.queued item (hqueue ▸ List.mem_cons_self)
      refine { h with queued := ?_, pending := ?_, left := ?_ }
      · exact fun item' hitem' => h.queued item' (hqueue ▸ List.mem_cons_of_mem _ hitem')
      · intro item' hitem'
        rw [FileRun.keepPending_pending] at hitem'
        exact Option.some.inj hitem' ▸ hitem.columns
      · exact fun hleft => absurd (hconsuming.symm.trans hleft) (by simp)
  | leave hconsuming hdrained hpending =>
      obtain ⟨hqueue, hparsing, hrawQueue, hunread⟩ := h.drained hdrained
      refine { h with left := ?_, finished := ?_ }
      · simp [FileRun.texts, FileRun.consumerLeaves, hqueue, hparsing, hrawQueue, hunread]
      · simp [FileRun.consumerLeaves]
  | ingestLast hconsuming hdrained hpending hingested =>
      obtain ⟨hqueue, hparsing, hrawQueue, hunread⟩ := h.drained hdrained
      refine { h with left := ?_, finished := ?_ }
      · simp [FileRun.texts, FileRun.consumerLeaves, hqueue, hparsing, hrawQueue, hunread]
      · simp [FileRun.consumerLeaves]
  | finish hconsuming hfinished =>
      exact { h with finished := fun _ => hconsuming, returned := fun _ => rfl }
  | join hfinished => exact { h with returned := fun _ => hfinished }

/-! ## what a call inserts -/

section

variable {ω : Type} {cat : FallbackCatalog ω} {inserted : ω → List Json}
variable {s s' : FileRun (FallbackRun ω) 1} {a : FileEvent 1}

/-- The rows inserted and those of the texts on their way. -/
def FileRun.content (duck : Duck) (inserted : ω → List Json) (s : FileRun (FallbackRun ω) 1) :
    List Json :=
  inserted s.target.world ++ s.texts.flatMap (readBack duck)

theorem content_of_texts (duck : Duck) (htarget : s'.target = s.target)
    (htexts : s'.texts.Perm s.texts) :
    (s'.content duck inserted).Perm (s.content duck inserted) := by
  rw [FileRun.content, FileRun.content, htarget]
  exact (htexts.flatMap_right _).append_left _

/-- A batch that is ingested is inserted, or its rows are lost. -/
theorem ingested_or_lost (hcat : ReadsRecords cfg.duck cat inserted) {item : PipelineItem}
    {seesTable : Bool} {u t : FallbackRun ω}
    (hrows : item.parsed.columns ≠ [] → item.parsed.payload.rows ≠ [])
    (h : (fallbackTarget cat (1 < 1)).ingest seesTable item u = .ok ⟨⟩ t) :
    ∃ lost, (inserted t.world ++ lost).Perm
        (inserted u.world ++ readBack cfg.duck item.payload) ∧
      ((item.parsed.columns ≠ [] ∨ readBack cfg.duck item.payload = []) ↔ lost = []) := by
  have hinserted := ingestFallbackParsed_inserts hcat hrows h
  by_cases hcolumns : item.parsed.columns = []
  · rw [if_pos hcolumns, List.append_nil] at hinserted
    refine ⟨readBack cfg.duck item.payload, ?_, ?_⟩
    · rw [hinserted]
    · simp [hcolumns]
  · rw [if_neg hcolumns] at hinserted
    refine ⟨[], ?_, ?_⟩
    · rw [hinserted, List.append_nil]
    · simp [hcolumns]

/-- **One step**: the rows are inserted or on their way still, but for those of
the texts it loses. -/
theorem content_move (hcat : ReadsRecords cfg.duck cat inserted) (h : FileInv cfg s)
    (hmove : FileMove cfg (fallbackTarget cat (1 < 1)) s a s') :
    ∃ lost, (s'.content cfg.duck inserted ++ lost).Perm (s.content cfg.duck inserted) ∧
      (KeepsRows cfg s a ↔ lost = []) := by
  have hnothing : s'.target = s.target → s'.texts.Perm s.texts → KeepsRows cfg s a →
      ∃ lost, (s'.content cfg.duck inserted ++ lost).Perm (s.content cfg.duck inserted) ∧
        (KeepsRows cfg s a ↔ lost = []) := by
    intro htarget htexts hkeeps
    refine ⟨[], ?_, iff_of_true hkeeps rfl⟩
    rw [List.append_nil]
    exact content_of_texts cfg.duck htarget htexts
  cases hmove with
  | @emit batch rest hunread =>
      refine hnothing rfl ?_ trivial
      simp only [FileRun.texts, hunread, List.append_assoc, List.singleton_append]
      exact .refl _
  | readerDone hunread => exact hnothing rfl (.refl _) trivial
  | @popRaw batch rest hrawQueue =>
      refine hnothing rfl ?_ trivial
      simp only [FileRun.texts, hrawQueue, List.append_assoc, List.cons_append, List.nil_append]
      exact .refl _
  | @parse i batch parsed hparsing hprocess =>
      refine hnothing rfl ?_ trivial
      have hperm : (batch :: s.parsing.eraseIdx i).Perm s.parsing := by
        obtain ⟨hi, hget⟩ := List.getElem?_eq_some_iff.mp hparsing
        rw [← hget]
        exact List.getElem_cons_eraseIdx_perm hi
      simp only [FileRun.texts, List.map_append, List.map_cons, List.map_nil, List.append_assoc,
        List.singleton_append]
      exact ((hperm.append_right _).append_left _).append_left _
  | @hold seesTable item rest hqueue hconsuming hpending =>
      refine hnothing rfl ?_ ?_
      · rw [texts_keepPending hconsuming, texts_of_consuming hconsuming, hqueue, hpending]
        exact .refl _
      · intro first item' hfirst
        rw [hpending] at hfirst
        exact nomatch hfirst
  | @coalesce seesTable first item rest hqueue hconsuming hpending hcoalesces =>
      have hread : readBack cfg.duck item.payload = item.parsed.payload.rows := by
        rw [readBack, (h.queued item (hqueue ▸ List.mem_cons_self)).rows, Option.getD_some]
      refine ⟨readBack cfg.duck item.payload, ?_, ?_⟩
      · rw [FileRun.content, FileRun.content, texts_keepPending hconsuming,
          texts_of_consuming hconsuming, hqueue, hpending]
        simp only [Option.toList_some, List.map_cons, List.map_nil, List.flatMap_cons,
          List.cons_append, List.append_assoc]
        exact (List.Perm.append_left _ List.perm_append_comm).append_left _
      · rw [hread]
        constructor
        · exact fun hkeeps => (hkeeps first item hpending (by rw [hqueue]; rfl)).1 hcoalesces
        · intro hnil first' item' hfirst hitem
          rw [hpending] at hfirst
          rw [hqueue] at hitem
          obtain rfl := Option.some.inj hfirst
          obtain rfl := Option.some.inj hitem
          exact ⟨fun _ => hnil, fun hnot => absurd hcoalesces hnot⟩
  | @ingest seesTable first item rest t hqueue hconsuming hpending hcoalesces hingested =>
      obtain ⟨lost, hperm, hlost⟩ := ingested_or_lost hcat (h.pending first hpending) hingested
      refine ⟨lost, ?_, ?_⟩
      · rw [FileRun.content, FileRun.content, texts_keepPending hconsuming,
          texts_of_consuming hconsuming, hqueue, hpending]
        simp only [Option.toList_some, List.map_cons, List.map_nil, List.flatMap_cons,
          List.cons_append]
        have hrest : ∀ rows, (inserted t.world ++ rows ++ lost).Perm
            (inserted s.target.world ++ (readBack cfg.duck first.payload ++ rows)) := by
          intro rows
          have hlast :
              (inserted t.world ++ rows ++ lost).Perm (inserted t.world ++ lost ++ rows) := by
            rw [List.append_assoc, List.append_assoc]
            exact List.perm_append_comm.append_left _
          rw [← List.append_assoc]
          exact hlast.trans (hperm.append_right rows)
        exact hrest _
      · rw [← hlost]
        constructor
        · exact fun hkeeps => (hkeeps first item hpending (by rw [hqueue]; rfl)).2 hcoalesces
        · intro hkept first' item' hfirst hitem
          rw [hpending] at hfirst
          rw [hqueue] at hitem
          obtain rfl := Option.some.inj hfirst
          obtain rfl := Option.some.inj hitem
          exact ⟨fun hcoalesced => absurd hcoalesced hcoalesces, fun _ => hkept⟩
  | leave hconsuming hdrained hpending =>
      refine hnothing rfl ?_ ?_
      · obtain ⟨hqueue, hparsing, hrawQueue, hunread⟩ := h.drained hdrained
        simp [FileRun.texts, FileRun.consumerLeaves, hpending, hqueue, hparsing, hrawQueue, hunread]
      · intro item hitem
        rw [hpending] at hitem
        exact nomatch hitem
  | @ingestLast seesTable item t hconsuming hdrained hpending hingested =>
      obtain ⟨hqueue, hparsing, hrawQueue, hunread⟩ := h.drained hdrained
      obtain ⟨lost, hperm, hlost⟩ := ingested_or_lost hcat (h.pending item hpending) hingested
      refine ⟨lost, ?_, ?_⟩
      · have hlast : s.texts = [item.payload] := by
          simp [FileRun.texts, hconsuming, hpending, hqueue, hparsing, hrawQueue, hunread]
        have hempty : (s.consumerLeaves 0 t).texts = [] := by
          simp [FileRun.texts, FileRun.consumerLeaves, hqueue, hparsing, hrawQueue, hunread]
        rw [FileRun.content, FileRun.content, hlast, hempty, List.flatMap_nil, List.append_nil,
          List.flatMap_singleton]
        exact hperm
      · rw [← hlost]
        constructor
        · exact fun hkeeps => hkeeps item hpending
        · intro hkept item' hitem
          rw [hpending] at hitem
          obtain rfl := Option.some.inj hitem
          exact hkept
  | finish hconsuming hfinished =>
      have htarget : _ = s.target := (EStateM.Result.ok.inj hfinished).2.symm
      exact hnothing htarget (.refl _) trivial
  | join hfinished => exact hnothing rfl (.refl _) trivial

end

/-! ## the batches of a file of objects -/

section

variable {duck : Duck} {options : RawParseOptions} {text : Bytes} {batches : List Bytes}

/-- Without a path to explode the rows that pass are those of `raw_records`. -/
theorem passRows_of_noPath (hpath : options.explodePath = []) :
    passRows duck options = passRows duck {} := by
  funext read
  rw [passRows, passRows, checkedRows, checkedRows, hpath]
  rfl

/-- The lines of a batch are lines of the file. -/
theorem isNdjson_of_isSplit (h : IsSplit text batches) (hdocuments : IsNdjson duck (lines text)) :
    ∀ batch ∈ batches, IsNdjson duck (lines batch) := by
  induction h with
  | last batch =>
      intro batch' hbatch'
      rw [List.mem_singleton.mp hbatch']
      exact hdocuments
  | cut batch hrest ih =>
      rw [lines_append_newline] at hdocuments
      obtain ⟨hfirst, hlast⟩ := isNdjson_append.mp hdocuments
      intro batch' hbatch'
      rcases List.mem_cons.mp hbatch' with rfl | hbatch'
      · rw [lines_append_newline]
        exact isNdjson_append.mpr ⟨hfirst, isNdjson_of_white rfl⟩
      · exact ih hlast batch' hbatch'

/-- A batch the reader hands on has the rows `raw_records` finds in it. -/
theorem textRows_of_noPath (hduck : YyjsonReads duck) (hpath : options.explodePath = [])
    {batch : Bytes} (h : IsNdjson duck (lines batch)) (hwhite : isWhite batch = false) :
    textRows duck options batch = textRows duck {} batch := by
  have hlines : (lines batch).all isWhite = false := by
    rw [← isWhite_joinLines, joinLines_lines, hwhite]
  have halone : passAlone duck options = passAlone duck {} := by
    funext document
    rw [passAlone, passAlone, passRows_of_noPath hpath]
  have hread : ∀ options : RawParseOptions, textRows duck options batch =
      readGroup (passAlone duck options) (passRows duck options)
        (linePieces duck (lines batch)) := by
    intro options
    have hbatch := textRows_joinLines hduck options h (fun line => not_mem_of_mem_lines) hlines
    rwa [joinLines_lines] at hbatch
  rw [hread, hread, halone, passRows_of_noPath hpath]

/-- The rows of accepted batches are those of their texts. -/
theorem parseBatches_eq_flatMap {rows : List Json} (h : parseBatches duck {} batches = some rows) :
    rows = batches.flatMap (readBack duck) := by
  induction batches generalizing rows with
  | nil => exact (Option.some.inj h).symm
  | cons batch batches ih =>
      simp only [parseBatches, Option.bind_eq_bind, Option.bind_eq_some_iff, Option.pure_def,
        Option.some.injEq] at h
      obtain ⟨first, hfirst, rest, hrest, rfl⟩ := h
      rw [List.flatMap_cons, ← ih hrest, readBack, hfirst, Option.getD_some]

/-- The batches of a file of objects have the objects as their rows. -/
theorem readBack_batches (hduck : YyjsonReads duck) (hdocuments : IsNdjson duck (lines text))
    (hobjects : ∀ document ∈ items (linePieces duck (lines text)), document.isObj = true)
    (hsplit : IsSplit text batches) :
    (emit batches).flatMap (readBack duck) = items (linePieces duck (lines text)) := by
  obtain ⟨gs, hgs, hrows⟩ := @exists_cut_of_isSplit duck {} hduck _ _ hsplit hdocuments
  have hpass : passRows duck {} (items gs.flatten) = some (items gs.flatten) := by
    rw [hgs]
    exact passRows_eq_some.mpr ⟨.inl hobjects, rfl, .inl hobjects⟩
  have hapart : ∀ document ∈ items gs.flatten,
      passAlone duck {} document = passRows duck {} [document] := by
    intro document hdocument
    rw [hgs] at hdocument
    refine passAlone_of_not_array fun elements harray => ?_
    have hobject := hobjects document hdocument
    rw [harray] at hobject
    exact nomatch hobject
  rw [readCut_of_good hereditary_passRows hpass hapart, hgs] at hrows
  exact (parseBatches_eq_flatMap hrows).symm

end

/-! ## the call -/

/-- **`raw_ingest_file` into another catalog**, with one consumer: a call that
returns has inserted each row of the file once exactly when none of its steps
loses the text of rows. -/
theorem rawIngestFile_inserts_iff {ω : Type} {cat : FallbackCatalog ω} {inserted : ω → List Json}
    {text : Bytes} {batches : List Bytes} {world : ω} {events : List (FileEvent 1)}
    {s : FileRun (FallbackRun ω) 1} (hduck : YyjsonReads cfg.duck)
    (hpath : cfg.options.explodePath = []) (hdocuments : IsNdjson cfg.duck (lines text))
    (hobjects : ∀ document ∈ items (linePieces cfg.duck (lines text)), document.isObj = true)
    (hsplit : IsSplit text batches) (hcat : ReadsRecords cfg.duck cat inserted)
    (hrun : (ingestFile cfg (fallbackTarget cat (1 < 1)) 1 (emit batches) (.start world)).run
      events = some s)
    (hreturned : s.outcome = some (.ok ⟨⟩)) :
    (inserted s.target.world).Perm
        (inserted world ++ items (linePieces cfg.duck (lines text))) ↔
      (ingestFile cfg (fallbackTarget cat (1 < 1)) 1 (emit batches) (.start world)).Guarded
        (KeepsRows cfg)
        (ingestFile cfg (fallbackTarget cat (1 < 1)) 1 (emit batches) (.start world)).init
        events := by
  have hinit : FileInv cfg
      (ingestFile cfg (fallbackTarget cat (1 < 1)) 1 (emit batches) (.start world)).init := by
    refine ⟨?_, ?_, ?_, rfl, ?_, ?_, ?_, ?_⟩
    · intro batch hbatch
      obtain ⟨hmem, hwhite⟩ := List.mem_filter.mp hbatch
      exact textRows_of_noPath hduck hpath (isNdjson_of_isSplit hsplit hdocuments batch hmem)
        (by simpa using hwhite)
    · exact fun item hitem => (nomatch hitem)
    · exact fun item hitem => (nomatch hitem)
    · exact fun hreading => (nomatch hreading)
    · exact fun hleft => (nomatch hleft)
    · exact fun hfinished => (nomatch hfinished)
    · exact fun hdone => (nomatch hdone)
  have hgood : s.failed = false := by
    have hreached : s.outcome = some (.ok ⟨⟩) → s.failed = false := by
      refine (reachable_iff_run.mpr ⟨events, hrun⟩).invariant
        (fun s => s.outcome = some (.ok ⟨⟩) → s.failed = false) ?_ ?_
      · exact fun hdone => (nomatch hdone)
      · exact fun s a s' _ _ hstep => FileRun.step_returned hstep
    exact hreached hreturned
  have hmove : ∀ s a s', FileInv cfg s →
      FileRun.step cfg (fallbackTarget cat (1 < 1)) s a = some s' → s'.failed = false →
      FileMove cfg (fallbackTarget cat (1 < 1)) s a s' :=
    fun s a s' hs hstep hs' => FileRun.step_move hs.flowing hstep hs'
  obtain ⟨hdone, -, hiff⟩ := perm_iff_guarded (FileRun.content cfg.duck inserted)
    (fun s => s.failed = false) (FileInv cfg) (fun _ _ _ => FileRun.step_failed)
    (fun s a s' hs hstep hs' => hs.step (hmove s a s' hs hstep hs'))
    (fun s a s' hs hstep hs' hkeeps => by
      obtain ⟨lost, hperm, hlost⟩ := content_move hcat hs (hmove s a s' hs hstep hs')
      rwa [hlost.mp hkeeps, List.append_nil] at hperm)
    (fun s a s' hs hstep hs' hloses => by
      obtain ⟨lost, hperm, hlost⟩ := content_move hcat hs (hmove s a s' hs hstep hs')
      have hlength := hperm.length_eq
      have hpos := List.length_pos_of_ne_nil (hlost.not.mp hloses)
      rw [List.length_append] at hlength
      omega)
    hinit hrun hgood
  rw [← hiff, FileRun.content, FileRun.content,
    hdone.left (hdone.finished (hdone.returned hreturned)),
    List.flatMap_nil, List.append_nil, ← readBack_batches hduck hdocuments hobjects hsplit]
  rfl

/-! ## a file of two lines -/

/-- `{"a":1}` -/
def fileLine : Bytes := [123, 34, 97, 34, 58, 49, 125]

/-- The object of the line. -/
def fileRow : Json := .obj [([97], .uint 1)]

/-- The small DuckDB, which reads the line. -/
def lineConfig : FileConfig where
  duck := tableDuck [(fileLine, fileRow)]
  options := {}
  poolMinRows := 4096

theorem yyjsonReads_lineConfig : YyjsonReads lineConfig.duck := by
  refine yyjsonReads_tableDuck ?_ ?_ ?_
  · simp [fileLine]
  · simp
  · simp [fileLine, characterIsSpace]

/-- The rows of the texts inserted into the small catalog. -/
def lakeRows (duck : Duck) (world : Option LakeTable) : List Json :=
  world.elim [] fun table => table.inserted.flatMap (readBack duck)

theorem readsRecords_smallLake (duck : Duck) : ReadsRecords duck smallLake (lakeRows duck) where
  insert world columns text world' count h := by
    cases world with
    | none => exact nomatch h
    | some table =>
        obtain ⟨rfl, -⟩ := Prod.mk.inj (Except.ok.inj h)
        simp [lakeRows]
  keep world statement world' count hschema h := by
    cases world with
    | none =>
        cases statement with
        | createTable columns =>
            obtain ⟨rfl, -⟩ := Prod.mk.inj (Except.ok.inj h)
            rfl
        | _ => exact nomatch h
    | some table =>
        cases statement with
        | createTable columns => exact nomatch h
        | insertSelect columns text => exact absurd rfl (hschema columns text)
        | _ =>
            obtain ⟨rfl, -⟩ := Prod.mk.inj (Except.ok.inj h)
            rfl
  commit world world' h := by
    obtain rfl := Except.ok.inj h
    rfl

/-- Two batches, both parsed before the consumer takes the first. -/
def twoBatches : List (FileEvent 1) :=
  [.emit, .emit, .readerDone, .popRaw, .popRaw, .parse 0, .parse 0, .pop soleConsumer true,
    .pop soleConsumer true, .leave soleConsumer true, .finish, .join]

/-- A call for which two rows are enough for a batch. -/
def apartConfig : FileConfig := { lineConfig with poolMinRows := 2 }

theorem guarded_twoBatches :
    (ingestFile apartConfig (fallbackTarget smallLake (1 < 1)) 1
      (emit [fileLine ++ [10], fileLine]) (.start none)).Guarded (KeepsRows apartConfig)
      (ingestFile apartConfig (fallbackTarget smallLake (1 < 1)) 1
        (emit [fileLine ++ [10], fileLine]) (.start none)).init twoBatches := by
  refine guarded_cons rfl trivial (guarded_cons rfl trivial (guarded_cons rfl trivial ?_))
  refine guarded_cons rfl trivial (guarded_cons rfl trivial ?_)
  refine guarded_cons rfl trivial (guarded_cons rfl trivial ?_)
  refine guarded_cons rfl (by rintro first item ⟨⟩) ?_
  refine guarded_cons rfl ?_ (guarded_cons rfl ?_ ?_)
  · rintro first item ⟨⟩ ⟨⟩
    exact ⟨fun hcoalesces => absurd hcoalesces.2 (Nat.lt_irrefl 2),
      fun _ => .inl (List.cons_ne_nil _ _)⟩
  · rintro item ⟨⟩
    exact .inl (List.cons_ne_nil _ _)
  · exact guarded_cons rfl trivial (guarded_cons rfl trivial trivial)

/-- The rows of two lines in two batches that are not coalesced are inserted. -/
theorem rawIngestFile_inserts_apart : ∃ s,
    (ingestFile apartConfig (fallbackTarget smallLake (1 < 1)) 1
      (emit [fileLine ++ [10], fileLine]) (.start none)).run twoBatches = some s ∧
    s.target.commits = 2 ∧
    (lakeRows apartConfig.duck s.target.world).Perm (lakeRows apartConfig.duck none ++
      items (linePieces apartConfig.duck (lines (fileLine ++ 10 :: fileLine)))) := by
  obtain ⟨s, hrun, hreturned, hcommits⟩ : ∃ s, (ingestFile apartConfig
      (fallbackTarget smallLake (1 < 1)) 1 (emit [fileLine ++ [10], fileLine])
      (.start none)).run twoBatches = some s ∧ s.outcome = some (.ok ⟨⟩) ∧
      s.target.commits = 2 := ⟨_, rfl, rfl, rfl⟩
  have hobjects : ∀ document ∈ items (linePieces apartConfig.duck
      (lines (fileLine ++ 10 :: fileLine))), document.isObj = true := by
    have hitems : items (linePieces apartConfig.duck (lines (fileLine ++ 10 :: fileLine))) =
        [fileRow, fileRow] := rfl
    rw [hitems]
    simp [fileRow, Json.isObj]
  have hduck : YyjsonReads apartConfig.duck := yyjsonReads_lineConfig
  exact ⟨s, hrun, hcommits, (rawIngestFile_inserts_iff hduck rfl (isNdjson_of_all rfl) hobjects
    (.cut fileLine (.last fileLine)) (readsRecords_smallLake _) hrun hreturned).mpr
    guarded_twoBatches⟩

/-- Of two lines in two batches the second one is not inserted. -/
theorem rawIngestFile_losesLine : ∃ s,
    YyjsonReads lineConfig.duck ∧ IsNdjson lineConfig.duck (lines (fileLine ++ 10 :: fileLine)) ∧
    IsSplit (fileLine ++ 10 :: fileLine) [fileLine ++ [10], fileLine] ∧
    ReadsRecords lineConfig.duck smallLake (lakeRows lineConfig.duck) ∧
    (ingestFile lineConfig (fallbackTarget smallLake (1 < 1)) 1
      (emit [fileLine ++ [10], fileLine]) (.start none)).run twoBatches = some s ∧
    s.outcome = some (.ok ⟨⟩) ∧
    ¬ (lakeRows lineConfig.duck s.target.world).Perm (lakeRows lineConfig.duck none ++
      items (linePieces lineConfig.duck (lines (fileLine ++ 10 :: fileLine)))) := by
  obtain ⟨s, hrun, hreturned, hinserted⟩ : ∃ s, (ingestFile lineConfig
      (fallbackTarget smallLake (1 < 1)) 1 (emit [fileLine ++ [10], fileLine])
      (.start none)).run twoBatches = some s ∧ s.outcome = some (.ok ⟨⟩) ∧
      lakeRows lineConfig.duck s.target.world = [fileRow] := ⟨_, rfl, rfl, rfl⟩
  have hrows : lakeRows lineConfig.duck none ++
      items (linePieces lineConfig.duck (lines (fileLine ++ 10 :: fileLine))) =
      [fileRow, fileRow] := rfl
  refine ⟨s, yyjsonReads_lineConfig, isNdjson_of_all rfl, .cut fileLine (.last fileLine),
    readsRecords_smallLake _, hrun, hreturned, fun h => ?_⟩
  rw [hinserted, hrows] at h
  exact nomatch h.length_eq

end RawDuck
