import RawDuck.Gather
import RawDuck.Split

/-!
# RawDuck.InsertLane

The rows of an `INSERT` of documents, and those of `raw_ingest` of the same documents,
one a line.  The `INSERT` adds the documents one by one and expands each array; a text
of several lines is read line by line, and then an array is a row.

* `rawPayloadAddDocument`, `rawPayloadFinalize` — the lane of the `INSERT`;
* `flatMap_collectRows_iff` — expanding arrays changes a list that has one;
* `insertLane_agrees_iff` — when the lanes collect the same rows.
-/

namespace RawDuck

open Cuts Fallible

/-! ## the lane of the INSERT -/

variable (duck : Duck)

/-- The error of a document that is no JSON. -/
def notJsonError : RawError :=
  { kind := .invalidInput, message := bytes "RawDuck: payload is not valid JSON" }

/-- `RawPayloadAddDocument`. -/
def rawPayloadAddDocument (ignoreErrors : Bool) (payload : RawPayload) (document : Bytes) :
    Except RawError RawPayload :=
  match duck.yyjsonRead document with
  | some root => .ok { payload with rows := payload.rows ++ collectRows root }
  | none =>
      if ignoreErrors then .ok { payload with parseErrors := payload.parseErrors + 1 }
      else .error notJsonError

/-- `RawPayloadFinalize`. -/
def rawPayloadFinalize (options : RawParseOptions) (payload : RawPayload) :
    Except RawError RawParsedPayload := do
  let (rows, scalarRows) ← checkedRows duck options payload.rows
  let root := inferSchema duck rows
  let columns ← flattenSchema root scalarRows
  return { payload := { payload with rows, scalarRows }, root, columns }

/-- A payload before its first document. -/
def emptyPayload : RawPayload where
  rows := []
  scalarRows := false
  parseErrors := 0

/-- The documents of an `INSERT`, added in turn. -/
def addDocuments (ignoreErrors : Bool) (documents : List Bytes) : Except RawError RawPayload :=
  documents.foldlM (rawPayloadAddDocument duck ignoreErrors) emptyPayload

/-! ## expanding arrays -/

/-- Rows that are expanded stay the same when none of them is an array. -/
theorem flatMap_collectRows_iff {roots : List Json} :
    roots.flatMap collectRows = roots ↔ ∀ elements, .arr elements ∉ roots := by
  have hput : ∀ root : Json, (∃ row, collectRows root = [row] ∧ sizeOf row ≤ sizeOf root) ∨
      ∀ row ∈ collectRows root, sizeOf row < sizeOf root := by
    intro root
    cases root with
    | arr elements =>
        refine .inr fun row hrow => ?_
        have hlt := List.sizeOf_lt_of_mem (show row ∈ elements from hrow)
        rw [Json.arr.sizeOf_spec]
        omega
    | _ => exact .inl ⟨_, rfl, Nat.le_refl _⟩
  rw [Gather.flatMap_eq_self_iff fun root _ => hput root]
  constructor
  · intro hone elements hmem
    have hself : elements = [.arr elements] := hone _ hmem
    have hinside := List.mem_singleton_self (Json.arr elements)
    rw [← hself] at hinside
    have hlt := List.sizeOf_lt_of_mem hinside
    rw [Json.arr.sizeOf_spec] at hlt
    omega
  · intro hnone root hmem
    cases root with
    | arr elements => exact absurd hmem (hnone elements)
    | _ => rfl

/-! ## the two lanes -/

variable {duck}

/-- The rows of documents are added to those of the payload. -/
theorem foldlM_rawPayloadAddDocument (ignoreErrors : Bool) {documents : List Bytes}
    {roots : List Json}
    (h : List.Forall₂ (fun document root => duck.yyjsonRead document = some root) documents
      roots) (payload : RawPayload) :
    documents.foldlM (rawPayloadAddDocument duck ignoreErrors) payload =
      .ok { payload with rows := payload.rows ++ roots.flatMap collectRows } := by
  induction h generalizing payload with
  | nil => simp [pure, Except.pure]
  | @cons document root documents roots hread _ ih =>
      have hadd : rawPayloadAddDocument duck ignoreErrors payload document =
          .ok { payload with rows := payload.rows ++ collectRows root } := by
        simp only [rawPayloadAddDocument, hread]
      rw [List.foldlM_cons, hadd, List.flatMap_cons, ← List.append_assoc]
      exact ih _

/-- The `INSERT` collects the rows of each document. -/
theorem addDocuments_eq (ignoreErrors : Bool) {documents : List Bytes} {roots : List Json}
    (h : List.Forall₂ (fun document root => duck.yyjsonRead document = some root) documents
      roots) :
    addDocuments duck ignoreErrors documents =
      .ok { emptyPayload with rows := roots.flatMap collectRows } :=
  foldlM_rawPayloadAddDocument ignoreErrors h emptyPayload

/-- A document is no blank line. -/
theorem isBlank_of_read (hduck : YyjsonReads duck) {document : Bytes} {root : Json}
    (h : duck.yyjsonRead document = some root) : isBlank document = false := by
  refine Bool.eq_false_iff.mpr fun hblank => ?_
  cases hwhite : isWhite document with
  | true =>
      have hnone := @yyjsonRead_white duck hduck document [] hwhite
      rw [List.append_nil, h, hduck.empty] at hnone
      exact nomatch hnone
  | false =>
      have hnone := @yyjsonRead_bar duck hduck document [] hblank hwhite
      rw [List.append_nil, h] at hnone
      exact nomatch hnone

/-- The pieces of documents are their values. -/
theorem linePieces_of_read (hduck : YyjsonReads duck) {documents : List Bytes} {roots : List Json}
    (h : List.Forall₂ (fun document root => duck.yyjsonRead document = some root) documents
      roots) : linePieces duck documents = roots.map .item := by
  induction h with
  | nil => rfl
  | cons hread _ ih =>
      rw [linePieces, List.map_cons, ← linePieces, ih,
        linePiece_of_document (isBlank_of_read hduck hread) hread]
      rfl

theorem items_map_item (roots : List Json) : items (roots.map .item) = roots := by
  induction roots with
  | nil => rfl
  | cons root roots ih => rw [List.map_cons, items_cons_item, ih]

theorem barred_map_item (roots : List Json) : barred (roots.map .item) = false := by
  induction roots with
  | nil => rfl
  | cons root roots ih => rw [List.map_cons, barred_cons_item, ih]

/-- The rows of the text are those of its one document, or its documents. -/
theorem readRows_joinLines (hduck : YyjsonReads duck) (options : RawParseOptions)
    {documents : List Bytes} {roots : List Json}
    (h : List.Forall₂ (fun document root => duck.yyjsonRead document = some root) documents roots)
    (hlines : ∀ document ∈ documents, (10 : UInt8) ∉ document) (hne : documents ≠ []) :
    readRows duck options (joinLines documents) =
      .ok (if documents.length = 1 then roots.flatMap collectRows else roots, 0) := by
  have hndjson : IsNdjson duck documents := fun document hdocument _ =>
    have ⟨root, _, hread⟩ := forall₂_mem_left h hdocument
    ⟨root, hread⟩
  have hpieces := linePieces_of_read hduck h
  have hroots : roots ≠ [] := by
    rintro rfl
    exact hne (List.forall₂_nil_right_iff.mp h)
  have hwhite : documents.all isWhite = false := by
    refine Bool.eq_false_iff.mpr fun hwhite => hroots ?_
    have hitems := ((isWhite_iff_pieces hndjson).mp hwhite).1
    rwa [hpieces, items_map_item] at hitems
  have hread := yyjsonRead_joinLines hduck hndjson hwhite
  rw [hpieces, onlyDocument, items_map_item, barred_map_item] at hread
  rw [readRows, h.length_eq]
  cases roots with
  | nil => exact absurd rfl hroots
  | cons root roots =>
      cases roots with
      | nil =>
          simp only [Bool.false_eq_true, if_false] at hread
          simp only [hread]
          simp
      | cons second rest =>
          simp only at hread
          simp only [hread, lines_joinLines hlines hne]
          rw [parseLines_ndjson options hndjson 1, hpieces, items_map_item]
          simp

/-- The values of documents. -/
theorem exists_roots {documents : List Bytes}
    (hjson : ∀ document ∈ documents, (duck.yyjsonRead document).isSome = true) :
    ∃ roots, List.Forall₂ (fun document root => duck.yyjsonRead document = some root) documents
      roots := by
  induction documents with
  | nil => exact ⟨[], .nil⟩
  | cons document documents ih =>
      obtain ⟨root, hroot⟩ := Option.isSome_iff_exists.mp (hjson document List.mem_cons_self)
      obtain ⟨roots, hroots⟩ := ih fun d hd => hjson d (List.mem_cons_of_mem _ hd)
      exact ⟨root :: roots, .cons hroot hroots⟩

/-- No document is an array. -/
def NoArrays (duck : Duck) (documents : List Bytes) : Prop :=
  ∀ document ∈ documents, ∀ elements, duck.yyjsonRead document ≠ some (.arr elements)

theorem noArrays_iff {documents : List Bytes} {roots : List Json}
    (h : List.Forall₂ (fun document root => duck.yyjsonRead document = some root) documents
      roots) : NoArrays duck documents ↔ ∀ elements, .arr elements ∉ roots := by
  constructor
  · intro hnone elements hmem
    obtain ⟨document, hdocument, hread⟩ := forall₂_mem_right h hmem
    exact hnone document hdocument elements hread
  · intro hnone document hdocument elements hread
    obtain ⟨root, hroot, hread'⟩ := forall₂_mem_left h hdocument
    rw [hread, Option.some.injEq] at hread'
    exact hnone elements (hread' ▸ hroot)

/-- **The lanes** collect the same rows of documents, one a line, exactly when there is
one document or none is an array; and then they make the same payload of them, or refuse
them alike. -/
theorem insertLane_agrees_iff (hduck : YyjsonReads duck) (ignoreErrors : Bool)
    (options : RawParseOptions) {documents : List Bytes} (hne : documents ≠ [])
    (hlines : ∀ document ∈ documents, (10 : UInt8) ∉ document)
    (hjson : ∀ document ∈ documents, (duck.yyjsonRead document).isSome = true) :
    ((∃ added read errors, addDocuments duck ignoreErrors documents = .ok added ∧
        readRows duck options (joinLines documents) = .ok (read, errors) ∧ added.rows = read ∧
        (checkRowUniformity added.rows).isOk = (checkRowUniformity read).isOk) ↔
      documents.length = 1 ∨ NoArrays duck documents) ∧
    (documents.length = 1 ∨ NoArrays duck documents →
      (addDocuments duck ignoreErrors documents >>= rawPayloadFinalize duck options) =
        process duck options (joinLines documents)) := by
  obtain ⟨roots, hroots⟩ := exists_roots hjson
  have hadded := addDocuments_eq ignoreErrors hroots
  have hread := readRows_joinLines hduck options hroots hlines hne
  have hsame : roots.flatMap collectRows =
      (if documents.length = 1 then roots.flatMap collectRows else roots) ↔
      documents.length = 1 ∨ NoArrays duck documents := by
    rw [noArrays_iff hroots, ← flatMap_collectRows_iff]
    by_cases hone : documents.length = 1
    · simp [hone]
    · simp [hone]
  rw [← hsame]
  constructor
  · constructor
    · rintro ⟨added, read, errors, hadd, hrows, heq, -⟩
      obtain rfl := Except.ok.inj (hadded.symm.trans hadd)
      obtain ⟨rfl, -⟩ := Prod.mk.inj (Except.ok.inj (hread.symm.trans hrows))
      exact heq
    · intro heq
      exact ⟨_, _, _, hadded, hread, heq, congrArg (fun rows => (checkRowUniformity rows).isOk) heq⟩
  · intro heq
    rw [← heq] at hread
    rw [hadded, process, parse, hread]
    simp only [bind, Except.bind, rawPayloadFinalize]
    cases checkedRows duck options (roots.flatMap collectRows) with
    | error e => rfl
    | ok checked => rfl

/-- `{"a":1}` and `{"b":[2]}`. -/
def objectDocuments : List Bytes := [bytes "\x7b\"a\":1\x7d", bytes "\x7b\"b\":[2]\x7d"]

/-- `{"a":1}` and `4`. -/
def mixedDocuments : List Bytes := [bytes "\x7b\"a\":1\x7d", bytes "4"]

/-- `[1,2]` and `[3]`. -/
def arrayDocuments : List Bytes := [bytes "[1,2]", bytes "[3]"]

/-- The lanes make the same payload of two objects and of one array, and refuse an
object and a number alike. -/
theorem insertLane_agrees_objects :
    (addDocuments listDuck false objectDocuments >>= rawPayloadFinalize listDuck {}) =
        process listDuck {} (joinLines objectDocuments) ∧
      (addDocuments listDuck false mixedDocuments >>= rawPayloadFinalize listDuck {}) =
        process listDuck {} (joinLines mixedDocuments) ∧
      (addDocuments listDuck false [bytes "[1,2]"] >>= rawPayloadFinalize listDuck {}) =
        process listDuck {} (joinLines [bytes "[1,2]"]) := by
  have hobjects : NoArrays listDuck objectDocuments := by
    intro document hdocument elements h
    rw [objectDocuments, List.mem_cons, List.mem_singleton] at hdocument
    obtain rfl | rfl := hdocument
    · exact nomatch Option.some.inj h
    · exact nomatch Option.some.inj h
  have hmixed : NoArrays listDuck mixedDocuments := by
    intro document hdocument elements h
    rw [mixedDocuments, List.mem_cons, List.mem_singleton] at hdocument
    obtain rfl | rfl := hdocument
    · exact nomatch Option.some.inj h
    · exact nomatch Option.some.inj h
  exact ⟨(insertLane_agrees_iff yyjsonReads_listDuck false {} (by decide) (by decide)
      (by decide)).2 (.inr hobjects),
    (insertLane_agrees_iff yyjsonReads_listDuck false {} (by decide) (by decide)
      (by decide)).2 (.inr hmixed),
    (insertLane_agrees_iff yyjsonReads_listDuck false {} (by decide) (by decide)
      (by decide)).2 (.inl rfl)⟩

/-- The `INSERT` of the arrays has the rows `1`, `2` and `3`, and the ingest of their
text the rows `[1,2]` and `[3]`. -/
theorem insertLane_expands :
    ¬ ∃ added read errors, addDocuments listDuck false arrayDocuments = .ok added ∧
      readRows listDuck {} (joinLines arrayDocuments) = .ok (read, errors) ∧
      added.rows = read ∧
        (checkRowUniformity added.rows).isOk = (checkRowUniformity read).isOk := by
  rintro ⟨added, read, errors, hadded, hread, hsame, -⟩
  obtain rfl := Except.ok.inj (show Except.ok _ = Except.ok added from hadded)
  obtain ⟨rfl, -⟩ := Prod.mk.inj (Except.ok.inj
    (show Except.ok _ = Except.ok (read, errors) from hread))
  exact nomatch (List.cons.inj hsame).1

end RawDuck
