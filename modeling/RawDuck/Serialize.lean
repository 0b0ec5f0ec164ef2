import RawDuck.Fit
import RawDuck.Records

/-!
# RawDuck.Serialize

Values that are written back as JSON text.  The reader admits NaN and Infinity
and the writer does not, so an extraction raises where such a number is to be
written.

* `serialized` — the values a column hands to `WriteJSONString`;
* `fillCell_isOk_iff` — a cell is there when all of them can be written;
* `ReadsBack` — the cells of JSON columns, at any depth of a list, read back as
  their values;
* `extractRows_readsBack_iff` — an extraction succeeds, with JSON cells that
  read back, exactly when no such number is to be written.
-/

namespace RawDuck

open Fallible LogicalType

/-! ## what is written -/

/-- Whether a column of a type without children writes a value as JSON text: a
JSON column writes every value but null, a text column every other value that is
no string. -/
def isWritten : LogicalType → Json → Bool
  | _, .null => false
  | type, .str _ => isRawJSONType type
  | .plain .varchar _, _ => true
  | _, _ => false

/-- What a column hands to `WriteJSONString`; a list column hands over what its
child does for each element. -/
def serialized : LogicalType → Option Json → List Json
  | .plain id typeAlias, val => val.toList.filter (isWritten (.plain id typeAlias))
  | .list c, val => (elementsOf val).flatMap fun e => serialized c (some e)

variable {duck : Duck}

theorem isRawJSONType_of_not_varchar {id : LogicalTypeId} {typeAlias : Bytes}
    (h : id ≠ .varchar) : isRawJSONType (.plain id typeAlias) = false := by
  cases id <;> simp_all [isRawJSONType]

theorem isWritten_of_not_varchar {id : LogicalTypeId} {typeAlias : Bytes} (h : id ≠ .varchar)
    (val : Json) : isWritten (.plain id typeAlias) val = false := by
  cases val with
  | str s => exact isRawJSONType_of_not_varchar h
  | _ => cases id <;> simp_all [isWritten]

theorem fillScalar_absent {id : LogicalTypeId} {typeAlias : Bytes} {val : Option Json}
    (h : isAbsent val = true) : fillScalar duck (.plain id typeAlias) val = .ok .null := by
  rw [← fillCell]
  exact fillCell_absent _ h

/-- Every other value has a cell, if only NULL. -/
theorem fillScalar_of_not_written {type : LogicalType} {val : Json}
    (h : isWritten type val = false) : ∃ cell, fillScalar duck type (some val) = .ok cell := by
  cases type with
  | list c => exact ⟨.null, by simp [fillScalar, isRawJSONType]⟩
  | plain id a =>
      by_cases hid : id = .varchar
      · subst hid
        cases val with
        | null => exact ⟨.null, fillScalar_absent rfl⟩
        | str s =>
            rw [isWritten] at h
            exact ⟨.varchar s, by simp [fillScalar, h]⟩
        | _ => simp [isWritten] at h
      · have hj : isRawJSONType (.plain id a) = false := isRawJSONType_of_not_varchar hid
        cases id with
        | varchar => contradiction
        | date =>
            cases val with
            | str s =>
                cases hd : duck.tryConvertDate s with
                | none => exact ⟨.null, by simp [fillScalar, hj, hd]⟩
                | some result => exact ⟨.date result.1, by simp [fillScalar, hj, hd]⟩
            | _ => exact ⟨.null, by simp [fillScalar, hj]⟩
        | timestamp =>
            cases val with
            | str s =>
                cases hts : duck.tryConvertTimestamp s with
                | none => exact ⟨.null, by simp [fillScalar, hj, hts]⟩
                | some ts => exact ⟨.timestamp ts, by simp [fillScalar, hj, hts]⟩
            | _ => exact ⟨.null, by simp [fillScalar, hj]⟩
        | _ => cases val <;> simp [fillScalar, hj]

/-- A value that is written has a cell when there is a text for it. -/
theorem fillScalar_of_written {type : LogicalType} {val : Json} (h : isWritten type val = true) :
    fillScalar duck type (some val) = do return .varchar (← writeJSONString duck val) := by
  cases type with
  | list c => cases val <;> simp [isWritten, isRawJSONType] at h
  | plain id a =>
      have hid : id = .varchar := by
        by_contra hne
        rw [isWritten_of_not_varchar hne] at h
        contradiction
      subst hid
      cases hj : isRawJSONType (.plain .varchar a) with
      | true =>
          cases val with
          | null => simp [isWritten] at h
          | _ => simp only [fillScalar, hj, if_true]
      | false =>
          cases val with
          | null => simp [isWritten] at h
          | str s => simp [isWritten, hj] at h
          | _ => simp only [fillScalar, hj, Bool.false_eq_true, if_false]

theorem writeJSONString_isOk_iff {val : Json} :
    (∃ text, writeJSONString duck val = .ok text) ↔ (duck.valWrite val).isSome = true := by
  rw [writeJSONString]
  cases duck.valWrite val with
  | none => simp
  | some text => simp

/-- A cell is there when everything that is to be written can be written. -/
theorem fillCell_isOk_iff (type : LogicalType) (val : Option Json) :
    (∃ cell, fillCell duck type val = .ok cell) ↔
      ∀ w ∈ serialized type val, (duck.valWrite w).isSome = true := by
  induction type generalizing val with
  | plain id a =>
      rw [fillCell]
      cases val with
      | none =>
          rw [fillScalar_absent rfl]
          simp [serialized]
      | some v =>
          rw [serialized, Option.toList_some]
          cases hw : isWritten (.plain id a) v with
          | false => simp [hw, fillScalar_of_not_written hw]
          | true =>
              rw [List.filter_cons_of_pos hw, List.filter_nil, List.forall_mem_singleton,
                fillScalar_of_written hw, ← writeJSONString_isOk_iff]
              constructor
              · rintro ⟨cell, hcell⟩
                obtain ⟨text, htext, -⟩ := bind_eq_ok.mp hcell
                exact ⟨text, htext⟩
              · rintro ⟨text, htext⟩
                exact ⟨.varchar text, bind_eq_ok.mpr ⟨text, htext, rfl⟩⟩
  | list c ih =>
      have helements : (∃ cell, fillCell duck (.list c) val = .ok cell) ↔
          ∀ e ∈ elementsOf val, ∃ cell, fillCell duck c (some e) = .ok cell := by
        rw [fillCell]
        by_cases harr : isArray val = true
        · rw [if_pos harr]
          constructor
          · rintro ⟨cell, hcell⟩ e he
            obtain ⟨cells, hcells, -⟩ := bind_eq_ok.mp hcell
            obtain ⟨cell, -, hcell⟩ := forall₂_mem_left (mapM_eq_ok.mp hcells) he
            exact ⟨cell, hcell⟩
          · intro h
            obtain ⟨cells, hcells⟩ := exists_mapM_eq_ok _ _ h
            exact ⟨.list cells, bind_eq_ok.mpr ⟨cells, hcells, rfl⟩⟩
        · rw [if_neg harr]
          have hnil : elementsOf val = [] := elementsOf_of_not_array (by simpa using harr)
          simp [hnil]
      rw [helements, serialized]
      simp only [ih, List.mem_flatMap]
      constructor
      · rintro h w ⟨e, he, hw⟩
        exact h e he w hw
      · intro h e he w hw
        exact h w ⟨e, he, hw⟩

/-! ## reading back -/

namespace Json

mutual
/-- The value as yyjson reads it from its text: an integer that is not negative
is unsigned, whatever it was. -/
def reread : Json → Json
  | .sint n => if 0 ≤ n then .uint n.toUInt64 else .sint n
  | .arr elements => .arr (rereadElements elements)
  | .obj members => .obj (rereadMembers members)
  | v => v

def rereadElements : List Json → List Json
  | [] => []
  | e :: es => e.reread :: rereadElements es

def rereadMembers : List (Bytes × Json) → List (Bytes × Json)
  | [] => []
  | (key, v) :: ms => (key, v.reread) :: rereadMembers ms
end

end Json

/-- yyjson reads the text it wrote for a value as that value. -/
def ReadsWritten (duck : Duck) (v : Json) : Prop :=
  ∀ text, duck.valWrite v = some text → duck.yyjsonRead text = some v.reread

/-- The cell of a value reads back as the value, if the column is a JSON column;
for a list column, the cells of the elements do. -/
def ReadsBack (duck : Duck) : LogicalType → Json → Cell → Prop
  | .plain id typeAlias, v, cell => isRawJSONType (.plain id typeAlias) = true →
      v.isNull = false → ∃ text, cell = .varchar text ∧ duck.yyjsonRead text = some v.reread
  | .list c, v, cell => ∀ elements, v = .arr elements →
      ∃ cells, cell = .list cells ∧ List.Forall₂ (ReadsBack duck c) elements cells

/-- A JSON column writes every value but null. -/
theorem isWritten_of_json {type : LogicalType} (h : isRawJSONType type = true) {v : Json}
    (hv : v.isNull = false) : isWritten type v = true := by
  cases type with
  | list c => simp [isRawJSONType] at h
  | plain id a =>
      have hid : id = .varchar := by
        by_contra hne
        rw [isRawJSONType_of_not_varchar hne] at h
        contradiction
      subst hid
      cases v with
      | null => simp [Json.isNull] at hv
      | str s => exact h
      | _ => rfl

/-- The cell of a value reads back when yyjson reads back what was written. -/
theorem readsBack_fillCell {type : LogicalType} {v : Json} {cell : Cell}
    (h : fillCell duck type (some v) = .ok cell)
    (hread : ∀ w ∈ serialized type (some v), ReadsWritten duck w) :
    ReadsBack duck type v cell := by
  induction type generalizing v cell with
  | plain id a =>
      intro hjson hnull
      have hw := isWritten_of_json hjson hnull
      rw [fillCell, fillScalar_of_written hw] at h
      obtain ⟨text, htext, h⟩ := bind_eq_ok.mp h
      obtain rfl := pure_eq_ok.mp h
      have hwritten : duck.valWrite v = some text := by
        rw [writeJSONString] at htext
        split at htext
        · next heq => rw [heq, Except.ok.inj htext]
        · contradiction
      exact ⟨text, rfl, hread v (by simp [serialized, hw]) text hwritten⟩
  | list c ih =>
      intro elements hv
      subst hv
      rw [fillCell, isArray, if_pos rfl] at h
      obtain ⟨cells, hcells, h⟩ := bind_eq_ok.mp h
      obtain rfl := pure_eq_ok.mp h
      refine ⟨cells, rfl, ?_⟩
      have hpair := mapM_eq_ok.mp hcells
      refine List.forall₂_iff_get.mpr ⟨hpair.length_eq, fun i hi hi' => ?_⟩
      apply ih ((List.forall₂_iff_get.mp hpair).2 i hi hi')
      intro w hw
      exact hread w (List.mem_flatMap.mpr ⟨_, List.get_mem elements ⟨i, hi⟩, hw⟩)

/-! ## a whole payload -/

/-- What the extraction of a payload hands to `WriteJSONString`. -/
def writtenValues (parsed : RawParsedPayload) (type : RawColumn × Nat → LogicalType) : List Json :=
  parsed.payload.rows.flatMap fun row =>
    parsed.columns.zipIdx.flatMap fun col => serialized (type col) (row.valueAt col.1.path)

/-- In every row the JSON cells read back as what the row has at their path. -/
def RowsReadBack (duck : Duck) (parsed : RawParsedPayload)
    (type : RawColumn × Nat → LogicalType) (rows : List (List Cell)) : Prop :=
  List.Forall₂ (fun row cells => List.Forall₂ (fun col cell =>
    ∀ v, row.valueAt col.1.path = some v → ReadsBack duck (type col) v cell)
    parsed.columns.zipIdx cells) parsed.payload.rows rows

theorem mem_writtenValues {parsed : RawParsedPayload} {type : RawColumn × Nat → LogicalType}
    {w : Json} : w ∈ writtenValues parsed type ↔
      ∃ row ∈ parsed.payload.rows, ∃ col ∈ parsed.columns.zipIdx,
        w ∈ serialized (type col) (row.valueAt col.1.path) := by
  simp [writtenValues]

/-- The extractor gives each column what the row has at its path. -/
theorem ProcessedPayload.extractCells_eq (p : ProcessedPayload duck)
    (type : RawColumn × Nat → LogicalType) :
    extractCells duck p.toRawParsedPayload type = fun row =>
      p.columns.zipIdx.mapM fun col => fillCell duck (type col) (row.valueAt col.1.path) := by
  funext row
  rw [extractCells]
  apply mapM_congr
  intro col hcol
  rw [p.extractRow_eq row (List.mem_zipIdx_iff_getElem?.mp hcol)]

/-! ## the append -/

/-- The type `AppendNative` calls `FillVector` with for a column: that of its
slot, where `FillVector` has a branch for it, and the inferred one otherwise. -/
def AppendLayout.fillType (layout : AppendLayout) (col : RawColumn × Nat) : LogicalType :=
  match layout.slotOf[col.2]?.bind (layout.types[·]?) with
  | some type => if rawFillSupported type then type else col.1.type
  | none => col.1.type

/-- A chunk that is filled was extracted. -/
theorem extractChunk_of_fillChunk {layout : AppendLayout} {parsed : RawParsedPayload}
    {block : List Json} {new : List (List Cell)}
    (h : fillChunk duck layout parsed block = .ok new) :
    ∃ rows, extractChunk duck parsed layout.fillType block = .ok rows := by
  obtain ⟨chunk, hchunk, -⟩ := bind_eq_ok.mp h
  have hfilled : ∀ col ∈ parsed.columns.zipIdx, ∃ v,
      fillVector duck ((block.map (extractRow parsed.root parsed.columns)).map
        fun slots => slots col.2) (Vec.empty (layout.fillType col)) 0 = .ok v := by
    apply foldlM_rule (fun done _ => ∀ col ∈ done, ∃ v,
      fillVector duck ((block.map (extractRow parsed.root parsed.columns)).map
        fun slots => slots col.2) (Vec.empty (layout.fillType col)) 0 = .ok v) _ (by simp) hchunk
    intro done col rest chunk chunk' _ hdone hcol c hc
    cases List.mem_append.mp hc with
    | inl hc => exact hdone c hc
    | inr hc =>
        obtain rfl := List.mem_singleton.mp hc
        rw [fillColumn] at hcol
        cases hslot : layout.slotOf[c.2]? with
        | none => simp [hslot] at hcol
        | some slot =>
            cases htype : layout.types[slot]? with
            | none => simp [hslot, htype] at hcol
            | some type =>
                have hfill : layout.fillType c =
                    if rawFillSupported type then type else c.1.type := by
                  simp [AppendLayout.fillType, hslot, htype]
                rw [hfill]
                simp only [hslot, htype] at hcol
                obtain ⟨column, hcolumn, -⟩ := bind_eq_ok.mp hcol
                rw [writeColumn] at hcolumn
                split at hcolumn
                · next hs =>
                  obtain ⟨v, hv, -⟩ := bind_eq_ok.mp hcolumn
                  rw [if_pos hs]
                  exact ⟨v, hv⟩
                · next hs =>
                  obtain ⟨v, hv, -⟩ := bind_eq_ok.mp hcolumn
                  rw [if_neg hs]
                  exact ⟨v, hv⟩
  obtain ⟨chunk, hchunk⟩ := exists_mapM_eq_ok _ parsed.columns.zipIdx fun col hcol => by
    obtain ⟨v, hv⟩ := hfilled col hcol
    exact ⟨ChunkColumn.filled v, bind_eq_ok.mpr ⟨v, hv, rfl⟩⟩
  exact ⟨_, bind_eq_ok.mpr ⟨chunk, hchunk, rfl⟩⟩

/-- A payload whose blocks are filled was extracted. -/
theorem extractRows_of_fillChunks {layout : AppendLayout} {parsed : RawParsedPayload}
    {new : List (List (List Cell))}
    (h : (blocks parsed.payload.rows parsed.payload.rows.length).mapM
      (fillChunk duck layout parsed) = .ok new) :
    ∃ rows, extractRows duck parsed layout.fillType = .ok rows := by
  obtain ⟨chunks, hchunks⟩ := exists_mapM_eq_ok (extractChunk duck parsed layout.fillType)
    (blocks parsed.payload.rows parsed.payload.rows.length) fun block hblock =>
      have ⟨_, _, hfill⟩ := forall₂_mem_left (mapM_eq_ok.mp h) hblock
      extractChunk_of_fillChunk hfill
  exact ⟨_, bind_eq_ok.mpr ⟨chunks, hchunks, rfl⟩⟩

/-! ## when the extraction succeeds -/


/-- What was extracted could be written. -/
theorem finite_of_extractRows (hwrite : ∀ v, (duck.valWrite v).isSome = v.isFinite)
    {p : ProcessedPayload duck} {type : RawColumn × Nat → LogicalType} {rows : List (List Cell)}
    (h : extractRows duck p.toRawParsedPayload type = .ok rows) :
    ∀ v ∈ writtenValues p.toRawParsedPayload type, v.isFinite = true := by
  rw [extractRows_iff, p.extractCells_eq] at h
  intro w hw
  obtain ⟨row, hrow, col, hcol, hw⟩ := mem_writtenValues.mp hw
  obtain ⟨cells, -, hcells⟩ := forall₂_mem_left (mapM_eq_ok.mp h) hrow
  obtain ⟨cell, -, hcell⟩ := forall₂_mem_left (mapM_eq_ok.mp hcells) hcol
  rw [← hwrite]
  exact (fillCell_isOk_iff _ _).mp ⟨cell, hcell⟩ w hw

/-- **Extraction does not raise**, and its JSON cells read back, exactly when no
value that is to be written as text has a NaN or an infinite number in it; and an
append gets through only then, with the types it fills its columns in. -/
theorem extractRows_readsBack_iff (hwrite : ∀ v, (duck.valWrite v).isSome = v.isFinite)
    {options : RawParseOptions} {text : Bytes} {parsed : RawParsedPayload}
    (h : process duck options text = .ok parsed) (type : RawColumn × Nat → LogicalType)
    (hread : ∀ v ∈ writtenValues parsed type, ReadsWritten duck v) :
    ((∃ rows, extractRows duck parsed type = .ok rows ∧ RowsReadBack duck parsed type rows) ↔
        ∀ v ∈ writtenValues parsed type, v.isFinite = true) ∧
      ∀ (layout : AppendLayout) (new : List (List (List Cell))),
        (blocks parsed.payload.rows parsed.payload.rows.length).mapM
            (fillChunk duck layout parsed) = .ok new →
          ∀ v ∈ writtenValues parsed layout.fillType, v.isFinite = true := by
  obtain ⟨p, rfl⟩ := process_spec h
  refine ⟨⟨?_, ?_⟩, ?_⟩
  · rintro ⟨rows, hrows, -⟩
    exact finite_of_extractRows hwrite hrows
  · intro hfinite
    have hcell : ∀ row ∈ p.payload.rows, ∀ col ∈ p.columns.zipIdx,
        ∃ cell, fillCell duck (type col) (row.valueAt col.1.path) = .ok cell := by
      intro row hrow col hcol
      apply (fillCell_isOk_iff _ _).mpr
      intro w hw
      rw [hwrite]
      exact hfinite w (mem_writtenValues.mpr ⟨row, hrow, col, hcol, hw⟩)
    obtain ⟨rows, hrows⟩ := exists_mapM_eq_ok _ p.payload.rows fun row hrow =>
      exists_mapM_eq_ok _ p.columns.zipIdx (hcell row hrow)
    refine ⟨rows, extractRows_iff.mpr (p.extractCells_eq type ▸ hrows), ?_⟩
    have hpairs := mapM_eq_ok.mp hrows
    refine List.forall₂_iff_get.mpr ⟨hpairs.length_eq, fun i hi hi' => ?_⟩
    have hcells := mapM_eq_ok.mp ((List.forall₂_iff_get.mp hpairs).2 i hi hi')
    refine List.forall₂_iff_get.mpr ⟨hcells.length_eq, fun j hj hj' v hv => ?_⟩
    have hfill := (List.forall₂_iff_get.mp hcells).2 j hj hj'
    rw [hv] at hfill
    apply readsBack_fillCell hfill
    intro w hw
    apply hread
    refine mem_writtenValues.mpr ⟨_, List.get_mem p.payload.rows ⟨i, hi⟩, _,
      List.get_mem p.columns.zipIdx ⟨j, hj⟩, ?_⟩
    rw [hv]
    exact hw
  · intro layout new hnew
    obtain ⟨rows, hrows⟩ := extractRows_of_fillChunks hnew
    exact finite_of_extractRows hwrite hrows

/-! ## a payload that is extracted, and one that is not -/

/-- `[{"a":[1]},{"a":2}]`. -/
def mixedText : Bytes := bytes "[\x7b\"a\":[1]\x7d,\x7b\"a\":2\x7d]"

/-- `[{"a":NaN},{"a":"x"}]`. -/
def nanText : Bytes := bytes "[\x7b\"a\":NaN\x7d,\x7b\"a\":\"x\"\x7d]"

/-- A quiet NaN. -/
def nan : Double := ⟨0x7ff8000000000000⟩

/-- A DuckDB that reads these two texts, and the texts of two numbers. -/
def readingDuck : Duck :=
  { smallDuck with
    yyjsonRead := fun text =>
      if text = mixedText then
        some (.arr [.obj [(bytes "a", .arr [.uint 1])], .obj [(bytes "a", .uint 2)]])
      else if text = nanText then
        some (.arr [.obj [(bytes "a", .real nan)], .obj [(bytes "a", .str (bytes "x"))]])
      else if text = bytes "[1]" then some (.arr [.uint 1])
      else if text = bytes "2" then some (.uint 2)
      else none }

/-- What the first text parses to: `a` is a list in one row and a number in the
other, so its column is a JSON column. -/
def mixedParsed : RawParsedPayload :=
  let rows := [.obj [(bytes "a", .arr [.uint 1])], .obj [(bytes "a", .uint 2)]]
  { payload := { rows, scalarRows := false, parseErrors := 0 }
    root := inferSchema readingDuck rows
    columns := [{ name := bytes "a", path := [bytes "a"], type := JSON, node := [0] }] }

theorem process_mixedText : process readingDuck {} mixedText = .ok mixedParsed := by rfl

theorem extractRows_readsBack_mixed :
    ∃ rows, extractRows readingDuck mixedParsed (fun col => col.1.type) = .ok rows ∧
      RowsReadBack readingDuck mixedParsed (fun col => col.1.type) rows := by
  have hwritten : writtenValues mixedParsed (fun col => col.1.type) =
      [.arr [.uint 1], .uint 2] := by rfl
  apply (extractRows_readsBack_iff isSome_smallWrite process_mixedText _ _).1.mpr
  · rw [hwritten]
    simp [Json.isFinite, Json.elementsFinite]
  · rw [hwritten]
    simp only [List.forall_mem_cons, ReadsWritten]
    refine ⟨fun text htext => ?_, fun text htext => ?_, by simp⟩
    · obtain rfl := Option.some.inj (htext.symm.trans (show _ = some (bytes "[1]") from rfl))
      rfl
    · obtain rfl := Option.some.inj (htext.symm.trans (show _ = some (bytes "2") from rfl))
      rfl

/-- The NaN of a text column cannot be written. -/
theorem extractRows_raises : ∃ parsed, process readingDuck {} nanText = .ok parsed ∧
    extractRows readingDuck parsed (fun col => col.1.type) = .error serializeError :=
  ⟨_, rfl, rfl⟩

end RawDuck
