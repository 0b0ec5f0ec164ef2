import RawDuck.Append
import RawDuck.LeftAlone

/-!
# RawDuck.Records

The table function `raw_records(payload)`, which the SQL fallback selects the
rows of a payload from.

* `relationOf` — the columns and rows of a parsed payload;
* `rawRecords` — the relation of the function, a chunk at a time;
* `rawRecords_agrees_iff` — when the fallback, which calls the function without
  parse options, has the columns and rows of the payload it was given.
-/

namespace RawDuck

open Fallible

/-- What a table function returns: named and typed columns, and rows. -/
structure Relation where
  columns : List (Bytes × LogicalType)
  rows : List (List Cell)

variable (duck : Duck)

/-! ## extraction -/

/-- The cells of a row, each column written as a column of some type. -/
def extractCells (parsed : RawParsedPayload) (type : RawColumn × Nat → LogicalType) (row : Json) :
    Except RawError (List Cell) :=
  parsed.columns.zipIdx.mapM fun col =>
    fillCell duck (type col) (extractRow parsed.root parsed.columns row col.2)

/-- A block of rows through the extractor: one `FillVector` for every column. -/
def extractChunk (parsed : RawParsedPayload) (type : RawColumn × Nat → LogicalType)
    (block : List Json) : Except RawError (List (List Cell)) := do
  let values := block.map (extractRow parsed.root parsed.columns)
  let chunk ← parsed.columns.zipIdx.mapM fun col => do
    return ChunkColumn.filled
      (← fillVector duck (values.map fun slots => slots col.2) (Vec.empty (type col)) 0)
  return (List.range block.length).map fun i => chunk.map fun column => column.get i

/-- All the rows of a payload, block by block. -/
def extractRows (parsed : RawParsedPayload) (type : RawColumn × Nat → LogicalType) :
    Except RawError (List (List Cell)) := do
  let chunks ← (blocks parsed.payload.rows parsed.payload.rows.length).mapM
    (extractChunk duck parsed type)
  return chunks.flatten

/-! ## the relation of a payload -/

/-- The cells of a row: each column's value, in the type of the column. -/
def recordRow (parsed : RawParsedPayload) (row : Json) : Except RawError (List Cell) :=
  parsed.columns.zipIdx.mapM fun col =>
    fillCell duck col.1.type (extractRow parsed.root parsed.columns row col.2)

/-- The columns and rows of a parsed payload. -/
def relationOf (parsed : RawParsedPayload) : Except RawError Relation := do
  let rows ← parsed.payload.rows.mapM (recordRow duck parsed)
  return { columns := parsed.columns.map fun c => (c.name, c.type), rows }

/-! ## the function -/

/-- `RawRecordsFunction`: the next chunk. -/
def recordsChunk (parsed : RawParsedPayload) (block : List Json) :
    Except RawError (List (List Cell)) := do
  let values := block.map (extractRow parsed.root parsed.columns)
  let chunk ← parsed.columns.zipIdx.mapM fun col => do
    return ChunkColumn.filled
      (← fillVector duck (values.map fun slots => slots col.2) (Vec.empty col.1.type) 0)
  return (List.range block.length).map fun i => chunk.map fun column => column.get i

/-- The result of an empty payload: a column and no rows. -/
def emptyRelation : Relation where
  columns := [(bytes "value", .JSON)]
  rows := []

/-- All the chunks of a payload. -/
def recordsOf (parsed : RawParsedPayload) : Except RawError Relation :=
  if parsed.columns.isEmpty then .ok emptyRelation
  else do
    let chunks ← (blocks parsed.payload.rows parsed.payload.rows.length).mapM
      (recordsChunk duck parsed)
    return { columns := parsed.columns.map fun c => (c.name, c.type), rows := chunks.flatten }

/-- `raw_records(payload)` with the parse options of its named parameters. -/
def rawRecords (options : RawParseOptions) (text : Bytes) : Except RawError Relation := do
  let parsed ← process duck options text
  recordsOf duck parsed

/-! ## chunks are rows -/

section

variable {duck} {parsed : RawParsedPayload}

/-- Filling a vector from rows is filling a cell per row. -/
theorem fillVector_rows {type : LogicalType} {block : List Json} {value : Json → Option Json} :
    (∀ v, fillVector duck (block.map value) (Vec.empty type) 0 = .ok v →
      ∀ i (h : i < block.length), fillCell duck type (value block[i]) = .ok (v.get i)) ∧
    ((∀ row ∈ block, ∃ cell, fillCell duck type (value row) = .ok cell) →
      ∃ v, fillVector duck (block.map value) (Vec.empty type) 0 = .ok v) := by
  obtain ⟨hcells, hvector⟩ := @fillVector_cells duck type (block.map value)
  constructor
  · intro v hv i hi
    have hcell := hcells v hv i (by simpa using hi)
    rwa [List.getElem_map] at hcell
  · intro h
    refine hvector fun i hi => ?_
    rw [List.getElem_map]
    exact h _ (List.getElem_mem _)

/-- A chunk holds its rows, and there is one when each row has its cells. -/
theorem extractChunk_spec {type : RawColumn × Nat → LogicalType} {block : List Json} :
    (∀ new, extractChunk duck parsed type block = .ok new →
      block.mapM (extractCells duck parsed type) = .ok new) ∧
    (∀ rows, block.mapM (extractCells duck parsed type) = .ok rows →
      ∃ new, extractChunk duck parsed type block = .ok new) := by
  unfold extractChunk
  simp only [List.map_map]
  constructor
  · intro new h
    obtain ⟨chunk, hchunk, h⟩ := bind_eq_ok.mp h
    obtain rfl := pure_eq_ok.mp h
    refine mapM_eq_ok_iff_getElem.mpr ⟨by simp, fun i hi _ => ?_⟩
    rw [List.getElem_map, List.getElem_range, extractCells, mapM_eq_ok,
      List.forall₂_map_right_iff]
    refine (mapM_eq_ok.mp hchunk).imp fun col column hcolumn => ?_
    obtain ⟨v, hv, hcolumn⟩ := bind_eq_ok.mp hcolumn
    obtain rfl := pure_eq_ok.mp hcolumn
    exact fillVector_rows.1 v hv i hi
  · intro rows h
    have hcolumns := exists_mapM_eq_ok (fun col : RawColumn × Nat => do
        return ChunkColumn.filled (← fillVector duck
          (block.map ((fun slots => slots col.2) ∘ extractRow parsed.root parsed.columns))
          (Vec.empty (type col)) 0)) parsed.columns.zipIdx fun col hcol => by
      have hcell : ∀ row ∈ block, ∃ cell,
          fillCell duck (type col) (extractRow parsed.root parsed.columns row col.2) =
            .ok cell := by
        intro row hrow
        obtain ⟨cells, -, hcells⟩ := forall₂_mem_left (mapM_eq_ok.mp h) hrow
        obtain ⟨cell, -, hcell⟩ := forall₂_mem_left (mapM_eq_ok.mp hcells) hcol
        exact ⟨cell, hcell⟩
      obtain ⟨v, hv⟩ := fillVector_rows.2 hcell
      exact ⟨.filled v, bind_eq_ok.mpr ⟨v, hv, rfl⟩⟩
    obtain ⟨chunk, hchunk⟩ := hcolumns
    exact ⟨_, bind_eq_ok.mpr ⟨chunk, hchunk, rfl⟩⟩

/-- The blocks of a payload are its rows. -/
theorem extractRows_iff {type : RawColumn × Nat → LogicalType} {rows : List (List Cell)} :
    extractRows duck parsed type = .ok rows ↔
      parsed.payload.rows.mapM (extractCells duck parsed type) = .ok rows := by
  have hflatten := flatten_blocks parsed.payload.rows (Nat.le_refl _)
  rw [extractRows]
  constructor
  · intro h
    obtain ⟨chunks, hchunks, h⟩ := bind_eq_ok.mp h
    obtain rfl := pure_eq_ok.mp h
    have hrows := mapM_flatten_of_chunks (fun _ => extractChunk_spec.1) hchunks
    rwa [hflatten] at hrows
  · intro hrows
    rw [← hflatten] at hrows
    obtain ⟨chunks, hchunks⟩ := exists_chunks_of_flatten (fun _ => extractChunk_spec.2) hrows
    have hrows' := mapM_flatten_of_chunks (fun _ => extractChunk_spec.1) hchunks
    obtain rfl := Except.ok.inj (hrows.symm.trans hrows')
    exact bind_eq_ok.mpr ⟨chunks, hchunks, rfl⟩

/-- The chunks of a payload with columns are its rows, in the columns' types. -/
theorem recordsOf_iff (hcolumns : parsed.columns ≠ []) {relation : Relation} :
    recordsOf duck parsed = .ok relation ↔ relationOf duck parsed = .ok relation := by
  have hne : parsed.columns.isEmpty = false := by simpa using hcolumns
  have hrows : ∀ {rows}, extractRows duck parsed (fun col => col.1.type) = .ok rows ↔
      parsed.payload.rows.mapM (recordRow duck parsed) = .ok rows := extractRows_iff
  rw [recordsOf, hne, relationOf]
  simp only [Bool.false_eq_true, if_false]
  constructor
  · intro h
    obtain ⟨chunks, hchunks, h⟩ := bind_eq_ok.mp h
    exact bind_eq_ok.mpr ⟨_, hrows.mp (bind_eq_ok.mpr ⟨chunks, hchunks, rfl⟩), h⟩
  · intro h
    obtain ⟨rows, hcells, h⟩ := bind_eq_ok.mp h
    obtain ⟨chunks, hchunks, hflat⟩ := bind_eq_ok.mp (hrows.mpr hcells)
    obtain rfl := pure_eq_ok.mp hflat
    exact bind_eq_ok.mpr ⟨chunks, hchunks, h⟩

end

/-! ## the text read a second time -/

/-- The text reads alike with and without the parse options: no line was skipped, and the
transform leaves each row alone. -/
def ReadsAlike (options : RawParseOptions) (text : Bytes) : Prop :=
  ∃ rows, readRows duck options text = .ok (rows, 0) ∧ ∀ row ∈ rows, LeftAlone duck options row

section

variable {duck} {options : RawParseOptions} {text : Bytes}

/-- Lines that are read without skipping one are read the same by default. -/
theorem parseLines_default {ls : List Bytes} {n k : Nat} {rows : List Json}
    (h : parseLines duck options ls n = .ok (rows, k)) {read : List Json × Nat} :
    parseLines duck {} ls n = .ok read ↔ k = 0 ∧ read = (rows, 0) := by
  induction ls generalizing n k rows read with
  | nil =>
      obtain ⟨rfl, rfl⟩ := Prod.mk.inj (Except.ok.inj h)
      simp [parseLines, eq_comm]
  | cons line ls ih =>
      rw [parseLines] at h ⊢
      cases hblank : isBlank line with
      | true =>
          simp only [hblank, if_true] at h ⊢
          exact ih h
      | false =>
          simp only [hblank, Bool.false_eq_true, if_false] at h ⊢
          cases hread : duck.yyjsonRead line with
          | some row =>
              simp only [hread] at h ⊢
              obtain ⟨⟨rest, k'⟩, hrest, h⟩ := bind_eq_ok.mp h
              obtain ⟨rfl, rfl⟩ := Prod.mk.inj (pure_eq_ok.mp h)
              rw [bind_eq_ok]
              constructor
              · rintro ⟨⟨rest', k''⟩, hrest', h'⟩
                obtain ⟨hk, heq⟩ := (ih hrest).mp hrest'
                obtain ⟨rfl, rfl⟩ := Prod.mk.inj heq
                exact ⟨hk, (pure_eq_ok.mp h').symm⟩
              · rintro ⟨hk, rfl⟩
                exact ⟨(rest, 0), (ih hrest).mpr ⟨hk, rfl⟩, rfl⟩
          | none =>
              simp only [hread] at h ⊢
              split at h
              · obtain ⟨⟨rest, k'⟩, -, h⟩ := bind_eq_ok.mp h
                obtain ⟨-, rfl⟩ := Prod.mk.inj (pure_eq_ok.mp h)
                simp
              · cases h

/-- A text that is read without skipping a line is read the same by default. -/
theorem readRows_default {k : Nat} {rows : List Json}
    (h : readRows duck options text = .ok (rows, k)) {read : List Json × Nat} :
    readRows duck {} text = .ok read ↔ k = 0 ∧ read = (rows, 0) := by
  rw [readRows] at h ⊢
  cases hread : duck.yyjsonRead text with
  | some root =>
      simp only [hread] at h ⊢
      obtain ⟨rfl, rfl⟩ := Prod.mk.inj (Except.ok.inj h)
      simp [eq_comm]
  | none =>
      simp only [hread] at h ⊢
      exact parseLines_default h

/-- What is processed are the rows that were read, exploded. -/
theorem rows_process {parsed : RawParsedPayload} (h : process duck options text = .ok parsed) :
    ∃ read k, readRows duck options text = .ok (read, k) ∧
      (∃ scalarRows, checkRowUniformity read = .ok scalarRows) ∧
      parsed.payload.rows = explodedRows duck options read := by
  obtain ⟨payload, hpayload, h⟩ := bind_eq_ok.mp h
  obtain ⟨columns, -, h⟩ := bind_eq_ok.mp h
  obtain rfl := pure_eq_ok.mp h
  obtain ⟨⟨read, k⟩, hread, hpayload⟩ := bind_eq_ok.mp hpayload
  obtain ⟨⟨rows, scalarRows⟩, hchecked, hpayload⟩ := bind_eq_ok.mp hpayload
  obtain rfl := pure_eq_ok.mp hpayload
  obtain ⟨uniform, huniform, hchecked⟩ := bind_eq_ok.mp hchecked
  refine ⟨read, k, hread, ⟨uniform, huniform⟩, ?_⟩
  rw [explodedRows]
  split at hchecked
  · next hpath =>
    rw [if_pos hpath]
    exact (Prod.mk.inj (pure_eq_ok.mp hchecked)).1.symm
  · next hpath =>
    obtain ⟨_, -, hchecked⟩ := bind_eq_ok.mp hchecked
    rw [if_neg hpath]
    exact (Prod.mk.inj (pure_eq_ok.mp hchecked)).1.symm

/-- Rows that are read without skipping a line are processed by default as a payload of
them is. -/
theorem process_default {p : ProcessedPayload duck}
    (hread : readRows duck options text = .ok (p.payload.rows, 0)) :
    process duck {} text = .ok { p.toRawParsedPayload with
      payload := { p.payload with parseErrors := 0 } } := by
  have hchecked : checkedRows duck {} p.payload.rows = .ok (p.payload.rows, p.payload.scalarRows) :=
    bind_eq_ok.mpr ⟨_, p.uniform, rfl⟩
  have hparse : parse duck {} text = .ok { p.payload with parseErrors := 0 } :=
    bind_eq_ok.mpr ⟨_, (readRows_default hread).mpr ⟨rfl, rfl⟩, bind_eq_ok.mpr ⟨_, hchecked, rfl⟩⟩
  have hcolumns := p.columns_eq
  rw [p.root_eq] at hcolumns
  refine bind_eq_ok.mpr ⟨_, hparse, bind_eq_ok.mpr ⟨_, hcolumns, ?_⟩⟩
  exact congrArg (fun root => Except.ok ({
    payload := { p.payload with parseErrors := 0 }
    root, columns := p.columns } : RawParsedPayload)) p.root_eq.symm

/-- A relation with rows is that of a payload of as many rows, and of columns of these
names and types. -/
theorem relationOf_of_recordsOf {parsed : RawParsedPayload} {relation : Relation}
    (h : recordsOf duck parsed = .ok relation) (hrows : relation.rows ≠ []) :
    parsed.payload.rows.length = relation.rows.length ∧
      parsed.columns.map (fun c => (c.name, c.type)) = relation.columns := by
  by_cases hcolumns : parsed.columns = []
  · rw [recordsOf, if_pos (by simpa using hcolumns)] at h
    obtain rfl := Except.ok.inj h
    exact absurd rfl hrows
  · obtain ⟨rows, hcells, h⟩ := bind_eq_ok.mp ((recordsOf_iff hcolumns).mp h)
    obtain rfl := pure_eq_ok.mp h
    exact ⟨(mapM_eq_ok.mp hcells).length_eq, rfl⟩

/-- **Fallback and payload**: `raw_records`, called with the text alone, parses a payload
of the columns and rows it was given exactly when the text reads alike with and without
the parse options, unless OTLP semantics meet a row that is a KeyValue array.  It then
returns the relation of the payload, and it returns that only where no line was skipped
and what it parses has as many rows and columns of the same names and types. -/
theorem rawRecords_agrees_iff {parsed : RawParsedPayload} {relation : Relation}
    (h : process duck options text = .ok parsed) (hcolumns : parsed.columns ≠ [])
    (hrelation : relationOf duck parsed = .ok relation) :
    ((∀ read k, readRows duck options text = .ok (read, k) → ∀ row ∈ read, RowsKnown options row) →
      ((∃ given, process duck {} text = .ok given ∧ given.columns = parsed.columns ∧
        given.payload.rows = parsed.payload.rows) ↔ ReadsAlike duck options text)) ∧
    (ReadsAlike duck options text → rawRecords duck {} text = .ok relation) ∧
    (rawRecords duck {} text = .ok relation →
      ∃ given read, process duck {} text = .ok given ∧
        readRows duck options text = .ok (read, 0) ∧
        given.payload.rows.length = parsed.payload.rows.length ∧
        given.columns.map (fun c => (c.name, c.type)) =
          parsed.columns.map fun c => (c.name, c.type)) := by
  obtain ⟨read, k, hread, -, hrows⟩ := rows_process h
  obtain ⟨p, rfl⟩ := process_spec h
  have hgiven : ∀ given, process duck {} text = .ok given →
      k = 0 ∧ given.payload.rows = read := by
    intro given hgiven
    obtain ⟨read', k', hread', -, hrows'⟩ := rows_process hgiven
    obtain ⟨hk, heq⟩ := (readRows_default hread).mp hread'
    exact ⟨hk, hrows'.trans (Prod.mk.inj heq).1⟩
  have halike : ReadsAlike duck options text →
      process duck {} text = .ok { p.toRawParsedPayload with
        payload := { p.payload with parseErrors := 0 } } := by
    rintro ⟨read', hread', halone⟩
    obtain ⟨rfl, rfl⟩ := Prod.mk.inj (Except.ok.inj (hread.symm.trans hread'))
    refine @process_default _ options _ _ (hread.trans ?_)
    rw [hrows, explodedRows_eq_flatMap,
      Gather.flatMap_eq_self fun row hrow => (halone row hrow).explodedRows_eq]
  refine ⟨fun hknown => ⟨?_, fun hreads => ⟨_, halike hreads, rfl, rfl⟩⟩, fun hreads => ?_,
    fun hrecords => ?_⟩
  · rintro ⟨given, hprocess, -, hsame⟩
    obtain ⟨rfl, hgivenRows⟩ := hgiven given hprocess
    refine ⟨read, hread, (explodedRows_eq_self_iff (hknown read 0 hread)).mp ?_⟩
    rw [← hrows, ← hsame, hgivenRows]
  · exact bind_eq_ok.mpr ⟨_, halike hreads, (recordsOf_iff hcolumns).mpr hrelation⟩
  · obtain ⟨given, hprocess, hrecords⟩ := bind_eq_ok.mp hrecords
    obtain ⟨rfl, -⟩ := hgiven given hprocess
    obtain ⟨rows, hcells, hrelation⟩ := bind_eq_ok.mp hrelation
    obtain rfl := pure_eq_ok.mp hrelation
    have hlength := (mapM_eq_ok.mp hcells).length_eq
    have hne : rows ≠ [] := by
      rintro rfl
      exact p.rows_ne_nil hcolumns (List.length_eq_zero_iff.mp hlength)
    obtain ⟨hcount, hnames⟩ := relationOf_of_recordsOf hrecords hne
    exact ⟨given, read, hprocess, hread, hcount.trans hlength.symm, hnames⟩

end

/-! ## a payload to explode -/

/-- `{"r":[{"a":1},{"a":2}]}`. -/
def listedText : Bytes :=
  bytes "\x7b\"r\":[\x7b\"a\":1\x7d,\x7b\"a\":2\x7d]\x7d"

/-- The lines `{"a":1}` and `{"b":2}`. -/
def linesText : Bytes := bytes "\x7b\"a\":1\x7d" ++ 10 :: bytes "\x7b\"b\":2\x7d"

/-- The lines `{"a":1}` and `oops`. -/
def skippedText : Bytes := bytes "\x7b\"a\":1\x7d" ++ 10 :: bytes "oops"

/-- The small DuckDB, which reads these documents. -/
def listedDuck : Duck :=
  tableDuck [(listedText, .obj [(bytes "r",
      .arr [.obj [(bytes "a", .uint 1)], .obj [(bytes "a", .uint 2)]])]),
    (bytes "\x7b\"a\":1\x7d", .obj [(bytes "a", .uint 1)]),
    (bytes "\x7b\"b\":2\x7d", .obj [(bytes "b", .uint 2)])]

/-- Explode along `r`, and skip what does not parse. -/
def listedOptions : RawParseOptions := { explodePath := [bytes "r"], ignoreErrors := true }

/-- Neither line has the key `r`: the relation is that of the payload.  Where a line is
skipped, the payload is not what the text alone has. -/
theorem rawRecords_agrees_lines :
    (∃ relation, rawRecords listedDuck {} linesText = .ok relation ∧
      relation.columns = [(bytes "a", .BIGINT), (bytes "b", .BIGINT)] ∧
      relation.rows.length = 2) ∧
    ∃ parsed, process listedDuck listedOptions skippedText = .ok parsed ∧
      ¬ ∃ given, process listedDuck {} skippedText = .ok given ∧ given.columns = parsed.columns ∧
        given.payload.rows = parsed.payload.rows := by
  constructor
  · have hprocess : process listedDuck listedOptions linesText = .ok _ := rfl
    have hagrees := (rawRecords_agrees_iff hprocess (List.cons_ne_nil _ _) rfl).2.1
    refine ⟨_, hagrees ⟨_, rfl, fun row hrow => ?_⟩, rfl, rfl⟩
    obtain ⟨members, rfl, habsent, hnodup⟩ : ∃ members, row = .obj members ∧
        objGet (bytes "r") members = none ∧ (members.map Prod.fst).Nodup := by
      rcases List.mem_cons.mp hrow with rfl | hrow
      · exact ⟨_, rfl, rfl, List.nodup_singleton _⟩
      · obtain rfl := List.mem_singleton.mp hrow
        exact ⟨_, rfl, rfl, List.nodup_singleton _⟩
    intro segment path hpath
    obtain ⟨rfl, -⟩ := List.cons.inj hpath
    refine ⟨fun members' h => ?_, fun h => by contradiction⟩
    obtain rfl := Json.obj.inj h
    exact ⟨habsent, hnodup⟩
  · have hprocess : process listedDuck listedOptions skippedText = .ok _ := rfl
    have hagrees := (rawRecords_agrees_iff hprocess (List.cons_ne_nil _ _) rfl).1
      fun _ _ _ _ _ h => by contradiction
    refine ⟨_, rfl, fun hsame => ?_⟩
    obtain ⟨rows, hread, -⟩ := hagrees.mp hsame
    have hskipped : readRows listedDuck listedOptions skippedText =
      .ok ([.obj [(bytes "a", .uint 1)]], 1) := rfl
    rw [hskipped] at hread
    exact absurd (Prod.mk.inj (Except.ok.inj hread)).2 (by decide)

/-- Exploded along `r` the payload has the column `a` and two rows, but the
relation selected from has the column `r` and one row. -/
theorem rawRecords_exploded : ∃ parsed relation,
    process listedDuck { explodePath := [bytes "r"] } listedText = .ok parsed ∧
      parsed.columns ≠ [] ∧ relationOf listedDuck parsed = .ok relation ∧
      rawRecords listedDuck {} listedText ≠ .ok relation := by
  refine ⟨_, _, rfl, List.cons_ne_nil _ _, rfl, fun h => ?_⟩
  have hcolumns : [(bytes "r", LogicalType.JSON)] = [(bytes "a", .BIGINT)] :=
    congrArg Relation.columns (Except.ok.inj h)
  exact absurd hcolumns (by decide)

end RawDuck
