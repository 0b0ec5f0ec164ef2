import RawDuck.Table

/-!
# RawDuck.Append

The append path: rows are taken in blocks of a vector's size, extracted,
written column by column into a chunk, and appended.

* `resolveAppendLayout` — which slot of the table each payload column fills;
* `appendBlocks` — the block loop;
* `newRow` — what one JSON row becomes under a layout;
* `appendBlocks_spec` — the block loop appends the rows `newRow` gives, in
  order, and touches nothing else; it succeeds only when each row has one.
-/

namespace RawDuck

open Fallible

/-- `STANDARD_VECTOR_SIZE`. -/
def standardVectorSize : Nat := 2048

/-- The layout part of `AppendLayoutCache`. -/
structure AppendLayout where
  types : List LogicalType
  slotOf : List Nat
  covered : List Bool
  deriving DecidableEq, Repr

/-- The error of `ResolveAppendLayout`. -/
def missingAfterEvolution (name : Bytes) : RawError :=
  { kind := .internal
    message := bytes "RawDuck: column " ++ name ++ bytes " missing after evolution" }

/-- The error of an access past the end of a `vector`. -/
def indexError (index size : Nat) : RawError :=
  { kind := .internal
    message := bytes s!"Attempted to access index {index} within vector of size {size}" }

/-- The `covered` flags of a list of slots. -/
def coveredSlots (n : Nat) (slotOf : List Nat) : List Bool :=
  slotOf.foldl (fun covered slot => covered.set slot true) (List.replicate n false)

/-- The resolution part of `ResolveAppendLayout`. -/
def resolveAppendLayout (table : Table) (columns : List RawColumn) :
    Except RawError AppendLayout := do
  let slotOf ← columns.mapM fun c => match columnIndex table.columns c.name with
    | some slot => .ok slot
    | none => .error (missingAfterEvolution c.name)
  let types := table.columns.map Column.type
  return { types, slotOf, covered := coveredSlots types.length slotOf }

/-- A column of a `DataChunk`. -/
inductive ChunkColumn where
  | filled {type : LogicalType} (v : Vec type)
  | converted (cells : List Cell)
  | constantNull

/-- The cell of a chunk column at a position. -/
def ChunkColumn.get : ChunkColumn → Nat → Cell
  | .filled v, i => v.get i
  | .converted cells, i => cells.getD i .null
  | .constantNull, _ => .null

variable (duck : Duck)

/-- Writes the values of a payload column as a table column of a type: directly
where `FillVector` can, through the inferred type and a cast otherwise. -/
def writeColumn (type : LogicalType) (column : RawColumn) (vals : List (Option Json)) :
    Except RawError ChunkColumn :=
  if rawFillSupported type then do
    return .filled (← fillVector duck vals (Vec.empty type) 0)
  else do
    let source ← fillVector duck vals (Vec.empty column.type) 0
    let cells ← (List.range vals.length).mapM fun i =>
      duck.cast column.type type (source.get i)
    return .converted cells

/-- One turn of the column loop of `AppendNative`.  Every slot is written once,
so each starts from the reset vector. -/
def fillColumn (layout : AppendLayout) (values : List Slots) (chunk : List ChunkColumn)
    (col : RawColumn × Nat) : Except RawError (List ChunkColumn) :=
  match layout.slotOf[col.2]? with
  | none => .error (indexError col.2 layout.slotOf.length)
  | some slot =>
      match layout.types[slot]? with
      | none => .error (indexError slot layout.types.length)
      | some type => do
          let column ← writeColumn duck type col.1 (values.map fun slots => slots col.2)
          return chunk.set slot column

/-- The chunk of a block of rows, read row by row. -/
def fillChunk (layout : AppendLayout) (parsed : RawParsedPayload) (block : List Json) :
    Except RawError (List (List Cell)) := do
  let values := block.map (extractRow parsed.root parsed.columns)
  let chunk ← parsed.columns.zipIdx.foldlM (fillColumn duck layout values)
    (layout.types.map fun t => .filled (Vec.empty t))
  let chunk := chunk.zipWith (fun column covered => if covered then column else .constantNull)
    layout.covered
  return (List.range block.length).map fun i => chunk.map fun column => column.get i

/-- The blocks of the row loop. -/
def blocks (rows : List Json) : (fuel : Nat) → List (List Json)
  | 0 => []
  | fuel + 1 =>
      if rows.isEmpty then []
      else rows.take standardVectorSize :: blocks (rows.drop standardVectorSize) fuel

/-- `AppendNative`'s refusal of tables with generated columns. -/
def generatedColumnsError : RawError :=
  { kind := .notImplemented
    message := bytes "RawDuck: cannot ingest into tables with generated columns" }

/-- The row loop of `AppendNative`: every block is checked against the table's
constraints as it is appended. -/
def appendBlocks (catalog : Catalog) (layout : AppendLayout) (parsed : RawParsedPayload)
    (table : Table) : Except RawError Table :=
  (blocks parsed.payload.rows parsed.payload.rows.length).foldlM
    (fun table block => do
      let rows ← fillChunk duck layout parsed block
      catalog.verify table rows
      return { table with rows := table.rows ++ rows })
    table

/-! ## rows -/

/-- What one value becomes in a table column of a type. -/
def writeCell (type : LogicalType) (column : RawColumn) (val : Option Json) :
    Except RawError Cell :=
  if rawFillSupported type then fillCell duck type val
  else do duck.cast column.type type (← fillCell duck column.type val)

/-- What one JSON row becomes at a slot of the table. -/
def newCell (layout : AppendLayout) (parsed : RawParsedPayload) (row : Json)
    (slot : LogicalType × Nat) : Except RawError Cell :=
  match layout.slotOf.idxOf? slot.2 with
  | none => .ok .null
  | some j =>
      match parsed.columns[j]? with
      | none => .ok .null
      | some column => writeCell duck slot.1 column (extractRow parsed.root parsed.columns row j)

/-- What one JSON row becomes under a layout. -/
def newRow (layout : AppendLayout) (parsed : RawParsedPayload) (row : Json) :
    Except RawError (List Cell) :=
  layout.types.zipIdx.mapM (newCell duck layout parsed row)

/-- The layout gives each payload column a slot of its own. -/
structure AppendLayout.Fits (layout : AppendLayout) (columns : List RawColumn) : Prop where
  length_eq : layout.slotOf.length = columns.length
  nodup : layout.slotOf.Nodup
  bound : ∀ slot ∈ layout.slotOf, slot < layout.types.length
  covered_eq : layout.covered = coveredSlots layout.types.length layout.slotOf

theorem length_coveredSlots (n : Nat) (slotOf : List Nat) :
    (coveredSlots n slotOf).length = n := by
  have h : ∀ (slotOf : List Nat) (covered : List Bool),
      (slotOf.foldl (fun covered slot => covered.set slot true) covered).length =
        covered.length := by
    intro slotOf
    induction slotOf with
    | nil => exact fun _ => rfl
    | cons s rest ih => intro covered; rw [List.foldl_cons, ih, List.length_set]
  rw [coveredSlots, h, List.length_replicate]

theorem getElem?_coveredSlots {n : Nat} (slotOf : List Nat) {slot : Nat} (hslot : slot < n) :
    (coveredSlots n slotOf)[slot]? = some (decide (slot ∈ slotOf)) := by
  have h : ∀ (slotOf : List Nat) (covered : List Bool), slot < covered.length →
      (slotOf.foldl (fun covered slot => covered.set slot true) covered)[slot]? =
        some (covered.getD slot false || decide (slot ∈ slotOf)) := by
    intro slotOf
    induction slotOf with
    | nil =>
        intro covered hlt
        simp [hlt]
    | cons s rest ih =>
        intro covered hlt
        rw [List.foldl_cons, ih _ (by rwa [List.length_set])]
        by_cases hs : s = slot
        · subst hs; simp [hlt]
        · simp [List.getElem?_set_ne hs, Ne.symm hs]
  rw [coveredSlots, h _ _ (by rwa [List.length_replicate])]
  simp [hslot]

variable {duck}

/-- Filling an empty vector is filling cells, position by position. -/
theorem fillVector_cells {type : LogicalType} {vals : List (Option Json)} :
    (∀ v, fillVector duck vals (Vec.empty type) 0 = .ok v →
      ∀ i (h : i < vals.length), fillCell duck type vals[i] = .ok (v.get i)) ∧
    ((∀ i (h : i < vals.length), ∃ cell, fillCell duck type vals[i] = .ok cell) →
      ∃ v, fillVector duck vals (Vec.empty type) 0 = .ok v) := by
  obtain ⟨hok, hcells⟩ := fillVector_empty duck (t := type) vals
  constructor
  · intro v hv i hi
    obtain ⟨cells, hm, hget⟩ := hok v hv
    obtain ⟨hlen, hcell⟩ := mapM_eq_ok_iff_getElem.mp hm
    rw [hcell i hi (hlen ▸ hi), hget i (hlen ▸ hi)]
  · intro h
    obtain ⟨cells, hm⟩ := exists_mapM_eq_ok (fillCell duck type) vals fun val hval => by
      obtain ⟨i, hi, rfl⟩ := List.getElem_of_mem hval
      exact h i hi
    exact hcells cells hm

/-- Writing a column is writing its cells. -/
theorem writeColumn_cells (type : LogicalType) (column : RawColumn) (vals : List (Option Json)) :
    (∀ col, writeColumn duck type column vals = .ok col →
      ∀ i (h : i < vals.length), writeCell duck type column vals[i] = .ok (col.get i)) ∧
    ((∀ i (h : i < vals.length), ∃ cell, writeCell duck type column vals[i] = .ok cell) →
      ∃ col, writeColumn duck type column vals = .ok col) := by
  unfold writeColumn writeCell
  cases rawFillSupported type with
  | true =>
      simp only [if_true]
      constructor
      · intro col h
        obtain ⟨v, hv, h⟩ := bind_eq_ok.mp h
        obtain rfl := pure_eq_ok.mp h
        exact fillVector_cells.1 v hv
      · intro h
        obtain ⟨v, hv⟩ := fillVector_cells.2 h
        exact ⟨_, bind_eq_ok.mpr ⟨v, hv, rfl⟩⟩
  | false =>
      simp only [Bool.false_eq_true, if_false]
      constructor
      · intro col h i hi
        obtain ⟨source, hsource, h⟩ := bind_eq_ok.mp h
        obtain ⟨cells, hcells, h⟩ := bind_eq_ok.mp h
        obtain rfl := pure_eq_ok.mp h
        obtain ⟨hlen, hcell⟩ := mapM_eq_ok_iff_getElem.mp hcells
        rw [List.length_range] at hlen
        refine bind_eq_ok.mpr ⟨_, fillVector_cells.1 source hsource i hi, ?_⟩
        have := hcell i (by rwa [List.length_range]) (hlen ▸ hi)
        rw [List.getElem_range] at this
        rw [this, ChunkColumn.get, List.getD_eq_getElem?_getD, List.getElem?_eq_getElem (hlen ▸ hi)]
        rfl
      · intro h
        obtain ⟨source, hsource⟩ := fillVector_cells.2 fun i hi => by
          obtain ⟨cell, hcell⟩ := h i hi
          obtain ⟨c, hc, -⟩ := bind_eq_ok.mp hcell
          exact ⟨c, hc⟩
        obtain ⟨cells, hcells⟩ := exists_mapM_eq_ok
          (fun i => duck.cast column.type type (source.get i)) (List.range vals.length)
          fun i hi => by
            rw [List.mem_range] at hi
            obtain ⟨cell, hcell⟩ := h i hi
            obtain ⟨c, hc, hcast⟩ := bind_eq_ok.mp hcell
            rw [fillVector_cells.1 source hsource i hi] at hc
            exact ⟨cell, Except.ok.inj hc ▸ hcast⟩
        exact ⟨_, bind_eq_ok.mpr ⟨source, hsource, bind_eq_ok.mpr ⟨cells, hcells, rfl⟩⟩⟩

/-! ## chunks and rows -/

variable {layout : AppendLayout} {parsed : RawParsedPayload}

/-- The chunk after the columns `done`: the slot of each of them holds the
cells of its values. -/
structure FillInv (duck : Duck) (layout : AppendLayout) (values : List Slots)
    (done : List (RawColumn × Nat)) (chunk : List ChunkColumn) : Prop where
  length_eq : chunk.length = layout.types.length
  cells : ∀ col ∈ done, ∀ slot type, layout.slotOf[col.2]? = some slot →
    layout.types[slot]? = some type → ∃ column, chunk[slot]? = some column ∧
      ∀ i (h : i < values.length), writeCell duck type col.1 (values[i] col.2) = .ok (column.get i)

/-- Different columns have different slots. -/
theorem AppendLayout.Fits.slot_inj {columns : List RawColumn} (h : layout.Fits columns)
    {j k slot : Nat} (hj : layout.slotOf[j]? = some slot) (hk : layout.slotOf[k]? = some slot) :
    j = k := by
  obtain ⟨hlt, -⟩ := List.getElem?_eq_some_iff.mp hj
  exact (List.getElem?_inj hlt h.nodup).mp (hj.trans hk.symm)

theorem FillInv.step (hfits : layout.Fits parsed.columns) {values : List Slots}
    {done : List (RawColumn × Nat)} {col : RawColumn × Nat} (hnew : ∀ c ∈ done, c.2 ≠ col.2)
    {chunk chunk' : List ChunkColumn} (hinv : FillInv duck layout values done chunk)
    (h : fillColumn duck layout values chunk col = .ok chunk') :
    FillInv duck layout values (done ++ [col]) chunk' := by
  rw [fillColumn] at h
  split at h
  · exact nomatch h
  · next slot hslot =>
    split at h
    · exact nomatch h
    · next type htype =>
      obtain ⟨column, hcolumn, h⟩ := bind_eq_ok.mp h
      obtain rfl := pure_eq_ok.mp h
      have hlt : slot < chunk.length := by
        rw [hinv.length_eq]
        exact (List.getElem?_eq_some_iff.mp htype).1
      refine ⟨by rw [List.length_set, hinv.length_eq], fun c hc slot' type' hslot' htype' => ?_⟩
      rcases List.mem_append.mp hc with hc | hc
      · have hne : slot ≠ slot' := by
          rintro rfl
          exact hnew c hc (hfits.slot_inj hslot' hslot)
        rw [List.getElem?_set_ne hne]
        exact hinv.cells c hc slot' type' hslot' htype'
      · obtain rfl := List.mem_singleton.mp hc
        obtain rfl : slot = slot' := Option.some.inj (hslot.symm.trans hslot')
        obtain rfl : type = type' := Option.some.inj (htype.symm.trans htype')
        refine ⟨column, by rw [List.getElem?_set_self hlt], fun i hi => ?_⟩
        have := (writeColumn_cells _ _ _).1 column hcolumn i (by rwa [List.length_map])
        rwa [List.getElem_map] at this

theorem zipIdx_snd_ne {α : Type} {xs : List α} {done rest : List (α × Nat)} {col : α × Nat}
    (h : xs.zipIdx = done ++ col :: rest) : ∀ c ∈ done, c.2 ≠ col.2 := by
  have hnd : ((done ++ col :: rest).map Prod.snd).Nodup := by
    rw [← h, List.zipIdx_map_snd]
    exact List.nodup_range'
  rw [List.map_append, List.nodup_append] at hnd
  exact fun c hc heq => hnd.2.2 _ (List.mem_map.mpr ⟨c, hc, rfl⟩) _
    (List.mem_map.mpr ⟨col, List.mem_cons_self, rfl⟩) heq

/-- The column loop, when it succeeds, has filled every column. -/
theorem fillColumns_spec (hfits : layout.Fits parsed.columns) {values : List Slots}
    {chunk chunk' : List ChunkColumn} (hlen : chunk.length = layout.types.length)
    (h : parsed.columns.zipIdx.foldlM (fillColumn duck layout values) chunk = .ok chunk') :
    FillInv duck layout values parsed.columns.zipIdx chunk' :=
  foldlM_rule (FillInv duck layout values)
    (fun _ _ _ _ _ hsplit hinv hs => hinv.step hfits (zipIdx_snd_ne hsplit) hs)
    ⟨hlen, fun _ h => nomatch h⟩ h

/-- The column loop succeeds when every value has a cell. -/
theorem fillColumns_isOk (hfits : layout.Fits parsed.columns) (values : List Slots)
    (hcells : ∀ col ∈ parsed.columns.zipIdx, ∀ slot type, layout.slotOf[col.2]? = some slot →
      layout.types[slot]? = some type → ∀ i (h : i < values.length),
      ∃ cell, writeCell duck type col.1 (values[i] col.2) = .ok cell)
    (chunk : List ChunkColumn) :
    ∃ chunk', parsed.columns.zipIdx.foldlM (fillColumn duck layout values) chunk = .ok chunk' := by
  have hlt : ∀ col ∈ parsed.columns.zipIdx, col.2 < layout.slotOf.length := by
    intro col hcol
    rw [List.mem_zipIdx_iff_getElem?] at hcol
    rw [hfits.length_eq]
    exact (List.getElem?_eq_some_iff.mp hcol).1
  generalize parsed.columns.zipIdx = cols at hcells hlt
  induction cols generalizing chunk with
  | nil => exact ⟨chunk, rfl⟩
  | cons col rest ih =>
      obtain ⟨slot, hslot⟩ : ∃ slot, layout.slotOf[col.2]? = some slot :=
        ⟨_, List.getElem?_eq_getElem (hlt col List.mem_cons_self)⟩
      obtain ⟨type, htype⟩ : ∃ type, layout.types[slot]? = some type :=
        ⟨_, List.getElem?_eq_getElem (hfits.bound slot (List.mem_of_getElem? hslot))⟩
      obtain ⟨column, hcolumn⟩ := (writeColumn_cells type col.1
        (values.map fun slots => slots col.2)).2 fun i hi => by
          rw [List.length_map] at hi
          rw [List.getElem_map]
          exact hcells col List.mem_cons_self slot type hslot htype i hi
      obtain ⟨chunk', hchunk'⟩ := ih (chunk.set slot column)
        (fun c hc => hcells c (List.mem_cons_of_mem _ hc))
        (fun c hc => hlt c (List.mem_cons_of_mem _ hc))
      refine ⟨chunk', ?_⟩
      rw [List.foldlM_cons, fillColumn, hslot]
      simp only [htype, hcolumn]
      exact hchunk'

theorem newCell_of_slot (hfits : layout.Fits parsed.columns) {j slot : Nat} {column : RawColumn}
    (hslot : layout.slotOf[j]? = some slot) (hcolumn : parsed.columns[j]? = some column)
    (type : LogicalType) (row : Json) :
    newCell duck layout parsed row (type, slot) =
      writeCell duck type column (extractRow parsed.root parsed.columns row j) := by
  have hidx : layout.slotOf.idxOf? slot = some j := by
    cases h : layout.slotOf.idxOf? slot with
    | none =>
        rw [List.idxOf?_eq_none_iff] at h
        exact absurd (List.mem_of_getElem? hslot) h
    | some k =>
        obtain ⟨hk, heq, -⟩ := List.findIdx?_eq_some_iff_getElem.mp h
        rw [hfits.slot_inj hslot (by rw [List.getElem?_eq_getElem hk, beq_iff_eq.mp heq])]
  rw [newCell, hidx]
  simp only [hcolumn]

theorem newCell_of_uncovered {slot : Nat} (h : slot ∉ layout.slotOf) (type : LogicalType)
    (row : Json) : newCell duck layout parsed row (type, slot) = .ok .null := by
  rw [newCell, List.idxOf?_eq_none_iff.mpr h]

/-- The rows of a chunk: `fillChunk` succeeds exactly when every row of the
block has a new row, and then gives those. -/
theorem fillChunk_spec (hfits : layout.Fits parsed.columns) {block : List Json} :
    (∀ rows, fillChunk duck layout parsed block = .ok rows →
      block.mapM (newRow duck layout parsed) = .ok rows) ∧
    (∀ rows, block.mapM (newRow duck layout parsed) = .ok rows →
      ∃ rows', fillChunk duck layout parsed block = .ok rows') := by
  constructor
  · intro rows h
    obtain ⟨chunk, hchunk, h⟩ := bind_eq_ok.mp h
    obtain rfl := pure_eq_ok.mp h
    have hinv := fillColumns_spec hfits (by simp) hchunk
    have hlen : layout.types.length = layout.covered.length := by
      rw [hfits.covered_eq, length_coveredSlots]
    refine mapM_eq_ok_iff_getElem.mpr ⟨by simp, fun i hi _ => ?_⟩
    refine mapM_eq_ok_iff_getElem.mpr ⟨by simp [hinv.length_eq, hlen], fun s hs _ => ?_⟩
    rw [List.length_zipIdx] at hs
    simp only [List.getElem_zipIdx, Nat.zero_add, List.getElem_map, List.getElem_range,
      List.getElem_zipWith]
    have hcov : ∀ h : s < layout.covered.length,
        layout.covered[s] = decide (s ∈ layout.slotOf) := by
      intro h
      have hget := getElem?_coveredSlots layout.slotOf hs
      rw [← hfits.covered_eq, List.getElem?_eq_getElem h] at hget
      exact Option.some.inj hget
    rw [hcov]
    by_cases hmem : s ∈ layout.slotOf
    · obtain ⟨j, hj⟩ := List.getElem?_of_mem hmem
      have hjlt : j < parsed.columns.length :=
        hfits.length_eq ▸ (List.getElem?_eq_some_iff.mp hj).1
      have hcolumn := List.getElem?_eq_getElem hjlt
      obtain ⟨column, hget, hcell⟩ := hinv.cells (parsed.columns[j], j)
        (List.mem_zipIdx_iff_getElem?.mpr hcolumn) s _ hj (List.getElem?_eq_getElem hs)
      have hc := hcell i (by rwa [List.length_map])
      rw [List.getElem_map] at hc
      rw [newCell_of_slot hfits hj hcolumn, hc]
      obtain ⟨hlt, heq⟩ := List.getElem?_eq_some_iff.mp hget
      simp [hmem, heq]
    · rw [newCell_of_uncovered hmem]
      simp [hmem, ChunkColumn.get]
  · intro rows h
    obtain ⟨hlen, hrows⟩ := mapM_eq_ok_iff_getElem.mp h
    obtain ⟨chunk, hchunk⟩ := fillColumns_isOk hfits
      (block.map (extractRow parsed.root parsed.columns))
      (fun col hcol slot type hslot htype i hi => by
        rw [List.length_map] at hi
        obtain ⟨hslt, hteq⟩ := List.getElem?_eq_some_iff.mp htype
        obtain ⟨hlen', hcells⟩ := mapM_eq_ok_iff_getElem.mp (hrows i hi (hlen ▸ hi))
        have hc := hcells slot (by rwa [List.length_zipIdx])
          (hlen' ▸ (by rwa [List.length_zipIdx]))
        simp only [List.getElem_zipIdx, Nat.zero_add] at hc
        rw [newCell_of_slot hfits hslot (List.mem_zipIdx_iff_getElem?.mp hcol), hteq] at hc
        rw [List.getElem_map]
        exact ⟨_, hc⟩)
      (layout.types.map fun t => .filled (Vec.empty t))
    exact ⟨_, bind_eq_ok.mpr ⟨chunk, hchunk, rfl⟩⟩

theorem flatten_blocks (rows : List Json) {fuel : Nat} (h : rows.length ≤ fuel) :
    (blocks rows fuel).flatten = rows := by
  induction fuel generalizing rows with
  | zero => rw [List.length_eq_zero_iff.mp (Nat.le_zero.mp h)]; rfl
  | succ fuel ih =>
      rw [blocks]
      cases rows with
      | nil => rfl
      | cons row rest =>
          rw [if_neg (by simp), List.flatten_cons, ih, List.take_append_drop]
          rw [List.length_drop, standardVectorSize]
          rw [List.length_cons] at h ⊢
          omega

/-- **What an append does**: the rows of the payload, each as `newRow` makes
it, come behind the rows of the table. -/
theorem appendBlocks_spec {catalog : Catalog} (hfits : layout.Fits parsed.columns)
    {t t' : Table} (h : appendBlocks duck catalog layout parsed t = .ok t') :
    ∃ rows, parsed.payload.rows.mapM (newRow duck layout parsed) = .ok rows ∧
      t' = { t with rows := t.rows ++ rows } := by
  have hrun := foldlM_rule (fun (done : List (List Json)) (t' : Table) =>
    ∃ rows, done.flatten.mapM (newRow duck layout parsed) = .ok rows ∧
      t' = { t with rows := t.rows ++ rows }) ?_ ⟨[], rfl, by rw [List.append_nil]⟩ h
  · rwa [flatten_blocks _ (Nat.le_refl _)] at hrun
  · rintro done block rest s s' - ⟨rows, hrows, rfl⟩ hs
    obtain ⟨new, hnew, hs⟩ := bind_eq_ok.mp hs
    obtain ⟨-, -, hs⟩ := bind_eq_ok.mp hs
    obtain rfl := pure_eq_ok.mp hs
    refine ⟨rows ++ new, ?_, by rw [List.append_assoc]⟩
    rw [List.flatten_append, List.flatten_singleton]
    exact mapM_append_eq_ok.mpr ⟨rows, new, hrows, (fillChunk_spec hfits).1 _ hnew, rfl⟩

/-- The chunks of blocks are the new rows of the blocks. -/
theorem mapM_fillChunk_spec (hfits : layout.Fits parsed.columns) {bs : List (List Json)}
    {new : List (List (List Cell))} (h : bs.mapM (fillChunk duck layout parsed) = .ok new) :
    bs.flatten.mapM (newRow duck layout parsed) = .ok new.flatten :=
  mapM_flatten_of_chunks (fun _ => (fillChunk_spec hfits).1) h

/-- Where no constraint is checked, an append succeeds when every row has a new
row. -/
theorem appendBlocks_of_rows {catalog : Catalog}
    (hverify : ∀ t rows, catalog.verify t rows = .ok ⟨⟩) (hfits : layout.Fits parsed.columns)
    {rows : List (List Cell)} (h : parsed.payload.rows.mapM (newRow duck layout parsed) = .ok rows)
    (t : Table) :
    appendBlocks duck catalog layout parsed t = .ok { t with rows := t.rows ++ rows } := by
  rw [← flatten_blocks parsed.payload.rows (Nat.le_refl _)] at h
  rw [appendBlocks]
  generalize blocks parsed.payload.rows parsed.payload.rows.length = bs at h ⊢
  induction bs generalizing t rows with
  | nil =>
      rw [List.flatten_nil, List.mapM_nil, pure_eq_ok] at h
      rw [← h, List.append_nil]
      rfl
  | cons b bs ih =>
      rw [List.flatten_cons] at h
      obtain ⟨new, rest, hnew, hrest, rfl⟩ := mapM_append_eq_ok.mp h
      obtain ⟨new', hfill⟩ := (fillChunk_spec hfits).2 _ hnew
      obtain rfl := Except.ok.inj (hnew.symm.trans ((fillChunk_spec hfits).1 _ hfill))
      rw [List.foldlM_cons, hfill]
      refine bind_eq_ok.mpr ⟨{ t with rows := t.rows ++ new }, ?_, ?_⟩
      · exact bind_eq_ok.mpr ⟨new, rfl, bind_eq_ok.mpr ⟨⟨⟩, hverify _ _, rfl⟩⟩
      · rw [ih _ hrest, List.append_assoc]

/-- An append never touches the columns. -/
theorem appendBlocks_columns {catalog : Catalog} {t t' : Table}
    (h : appendBlocks duck catalog layout parsed t = .ok t') : t'.columns = t.columns := by
  refine foldlM_rule (fun _ (t' : Table) => t'.columns = t.columns) ?_ rfl h
  rintro - block - s s' - hs hstep
  obtain ⟨new, -, hstep⟩ := bind_eq_ok.mp hstep
  obtain ⟨-, -, hstep⟩ := bind_eq_ok.mp hstep
  obtain rfl := pure_eq_ok.mp hstep
  exact hs

/-! ## reading appended rows back -/

/-- Columns of different names have different slots. -/
theorem nodup_slots {t : Table} (hwf : t.WF) {columns : List RawColumn} {slotOf : List Nat}
    (h : List.Forall₂ (fun (c : RawColumn) slot => columnIndex t.columns c.name = some slot)
      columns slotOf)
    (hpair : columns.Pairwise fun a b => lower a.name ≠ lower b.name) : slotOf.Nodup := by
  induction h with
  | nil => exact List.nodup_nil
  | @cons c slot columns slotOf hc hrest ih =>
      obtain ⟨hne, hpair⟩ := List.pairwise_cons.mp hpair
      refine List.nodup_cons.mpr ⟨fun hmem => ?_, ih hpair⟩
      obtain ⟨c', hc', hidx'⟩ := forall₂_mem_right hrest hmem
      obtain ⟨e, he, hn⟩ := (columnIndex_eq_some hwf.names).mp hc
      obtain ⟨e', he', hn'⟩ := (columnIndex_eq_some hwf.names).mp hidx'
      obtain rfl := Option.some.inj (he.symm.trans he')
      exact hne c' hc' (hn.symm.trans hn')

/-- A resolved layout fits, and gives each column the slot of its name. -/
theorem resolveAppendLayout_spec {t : Table} (hwf : t.WF) {columns : List RawColumn}
    (hnames : CiDistinct columns) (h : resolveAppendLayout t columns = .ok layout) :
    layout.Fits columns ∧ layout.types = t.columns.map Column.type ∧
      List.Forall₂ (fun c slot => columnIndex t.columns c.name = some slot) columns
        layout.slotOf := by
  obtain ⟨slotOf, hslots, h⟩ := bind_eq_ok.mp h
  obtain rfl := pure_eq_ok.mp h
  have hall : List.Forall₂ (fun (c : RawColumn) slot => columnIndex t.columns c.name = some slot)
      columns slotOf := by
    refine (mapM_eq_ok.mp hslots).imp fun c slot hc => ?_
    split at hc
    · next s hs => rw [hs, Except.ok.inj hc]
    · exact nomatch hc
  have hat : ∀ {slot}, slot ∈ slotOf →
      ∃ c ∈ columns, ∃ e, t.columns[slot]? = some e ∧ lower e.name = lower c.name := by
    intro slot hslot
    obtain ⟨c, hc, hidx⟩ := forall₂_mem_right hall hslot
    exact ⟨c, hc, (columnIndex_eq_some hwf.names).mp hidx⟩
  refine ⟨⟨hall.length_eq.symm, ?_, fun slot hslot => ?_, rfl⟩, rfl, hall⟩
  · exact nodup_slots hwf hall (List.pairwise_map.mp hnames)
  · obtain ⟨c, -, e, he, -⟩ := hat hslot
    rw [List.length_map]
    exact (List.getElem?_eq_some_iff.mp he).1

/-- What the columns of a payload make of a JSON row in the table column of a
name and type: the payload column of that name decides, and without one the
cell is NULL. -/
def cellVia (duck : Duck) (parsed : RawParsedPayload) (name : Bytes) (type : LogicalType)
    (row : Json) : Except RawError Cell :=
  match parsed.columns.zipIdx.find? fun c => ciEq c.1.name name with
  | some (column, j) =>
      writeCell duck type column (extractRow parsed.root parsed.columns row j)
  | none => .ok .null

theorem find?_zipIdx_of_mem {columns : List RawColumn} (hnames : CiDistinct columns) {j : Nat}
    {c : RawColumn} (hc : columns[j]? = some c) {name : Bytes} (hname : lower c.name = lower name) :
    columns.zipIdx.find? (fun c => ciEq c.1.name name) = some (c, j) := by
  cases hf : columns.zipIdx.find? fun c => ciEq c.1.name name with
  | none =>
      rw [List.find?_eq_none] at hf
      exact absurd (ciEq_iff.mpr hname) (hf (c, j) (List.mem_zipIdx_iff_getElem?.mpr hc))
  | some p =>
      obtain ⟨c', k⟩ := p
      have hk : columns[k]? = some c' :=
        List.mem_zipIdx_iff_getElem?.mp (List.mem_of_find?_eq_some hf)
      have hname' : lower c'.name = lower name := by simpa [ciEq] using List.find?_some hf
      obtain ⟨hjlt, rfl⟩ := List.getElem?_eq_some_iff.mp hc
      obtain ⟨hklt, rfl⟩ := List.getElem?_eq_some_iff.mp hk
      have hjk : k = j := by
        have hn : (columns.map fun c => lower c.name)[k]? =
            (columns.map fun c => lower c.name)[j]? := by
          simp [hjlt, hklt, hname, hname']
        exact (List.getElem?_inj (by simpa using hklt) hnames).mp hn
      subst hjk
      rfl

theorem cellVia_of_mem {columns : List RawColumn} (hcolumns : parsed.columns = columns)
    (hnames : CiDistinct columns) {j : Nat} {c : RawColumn} (hc : columns[j]? = some c)
    {name : Bytes} (hname : lower c.name = lower name) (type : LogicalType) (row : Json) :
    cellVia duck parsed name type row =
      writeCell duck type c (extractRow parsed.root parsed.columns row j) := by
  subst hcolumns
  rw [cellVia, find?_zipIdx_of_mem hnames hc hname]

theorem cellVia_of_not_mem {name : Bytes} (h : lower name ∉ rawNames parsed.columns)
    (type : LogicalType) (row : Json) : cellVia duck parsed name type row = .ok .null := by
  have hnone : parsed.columns.zipIdx.find? (fun c => ciEq c.1.name name) = none := by
    rw [List.find?_eq_none]
    intro c hc heq
    have hmem := List.mem_of_getElem? (List.mem_zipIdx_iff_getElem?.mp hc)
    exact h (List.mem_map.mpr ⟨_, hmem, ciEq_iff.mp heq⟩)
  rw [cellVia, hnone]

/-- A cell of a new row: what the payload makes of the row in that column. -/
theorem newRow_getElem {t : Table} (hwf : t.WF) (hnames : CiDistinct parsed.columns)
    (hlayout : resolveAppendLayout t parsed.columns = .ok layout) {row : Json} {cells : List Cell}
    (h : newRow duck layout parsed row = .ok cells) {name : Bytes} {i : Nat} {e : Column}
    (hi : columnIndex t.columns name = some i) (he : t.columns[i]? = some e) :
    ∃ cell, cells[i]? = some cell ∧ cellVia duck parsed name e.type row = .ok cell := by
  obtain ⟨hfits, htypes, hslots⟩ := resolveAppendLayout_spec hwf hnames hlayout
  obtain ⟨hlt, rfl⟩ := List.getElem?_eq_some_iff.mp he
  have hlt' : i < layout.types.zipIdx.length := by simpa [htypes] using hlt
  obtain ⟨hlen, hcells⟩ := mapM_eq_ok_iff_getElem.mp h
  have hcell := hcells i hlt' (hlen ▸ hlt')
  simp only [List.getElem_zipIdx, Nat.zero_add, htypes, List.getElem_map] at hcell
  refine ⟨_, List.getElem?_eq_getElem (hlen ▸ hlt'), ?_⟩
  rw [← hcell]
  obtain ⟨e', he', hname⟩ := (columnIndex_eq_some hwf.names).mp hi
  obtain rfl := Option.some.inj (he.symm.trans he')
  by_cases hmem : i ∈ layout.slotOf
  · obtain ⟨j, hj⟩ := List.getElem?_of_mem hmem
    obtain ⟨hjlt, hjeq⟩ := List.getElem?_eq_some_iff.mp hj
    have hjlt' : j < parsed.columns.length := hslots.length_eq ▸ hjlt
    have hidx := (List.forall₂_iff_get.mp hslots).2 j hjlt' hjlt
    simp only [List.get_eq_getElem, hjeq] at hidx
    obtain ⟨e', he', hname'⟩ := (columnIndex_eq_some hwf.names).mp hidx
    obtain rfl := Option.some.inj (he.symm.trans he')
    rw [newCell_of_slot hfits hj (List.getElem?_eq_getElem hjlt'),
      cellVia_of_mem rfl hnames (List.getElem?_eq_getElem hjlt') (hname'.symm.trans hname)]
  · rw [newCell_of_uncovered hmem, cellVia_of_not_mem]
    intro hc
    obtain ⟨c, hc, hcn⟩ := List.mem_map.mp hc
    obtain ⟨slot, hslot, hidx⟩ := forall₂_mem_left hslots hc
    rw [columnIndex_congr hcn, hi, Option.some.injEq] at hidx
    exact hmem (hidx ▸ hslot)

/-- The old rows read as before, the new ones as the payload makes them. -/
theorem cellAt_append {t : Table} (hwf : t.WF) (hnames : CiDistinct parsed.columns)
    (hlayout : resolveAppendLayout t parsed.columns = .ok layout) {new : List (List Cell)}
    (hnew : parsed.payload.rows.mapM (newRow duck layout parsed) = .ok new) {name : Bytes}
    {e : Column} (he : findColumn t.columns name = some e) {k : Nat} {row : Json}
    (hrow : parsed.payload.rows[k]? = some row) :
    ∃ cell, cellVia duck parsed name e.type row = .ok cell ∧
      ({ t with rows := t.rows ++ new } : Table).cellAt (t.rows.length + k) name = some cell := by
  obtain ⟨i, hi⟩ := Option.isSome_iff_exists.mp
    (columnIndex_isSome_iff.trans (Option.isSome_iff_exists.mpr ⟨e, he⟩))
  obtain ⟨e', he', hname⟩ := (columnIndex_eq_some hwf.names).mp hi
  have hee : e' = e := by
    have := (findColumn_eq_some hwf.names).mpr ⟨List.mem_of_getElem? he', hname⟩
    exact Option.some.inj (this.symm.trans he)
  subst hee
  obtain ⟨hklt, rfl⟩ := List.getElem?_eq_some_iff.mp hrow
  obtain ⟨hlen, hrows⟩ := mapM_eq_ok_iff_getElem.mp hnew
  obtain ⟨cell, hcell, hvia⟩ := newRow_getElem hwf hnames hlayout (hrows k hklt (hlen ▸ hklt))
    hi he'
  refine ⟨cell, hvia, ?_⟩
  simp only [Table.cellAt, hi, Option.bind_some]
  rw [List.getElem?_append_right (Nat.le_add_right _ _), Nat.add_sub_cancel_left,
    List.getElem?_eq_getElem (hlen ▸ hklt), Option.bind_some, hcell]

theorem cellAt_append_old {t : Table} (new : List (List Cell)) {row : Nat}
    (h : row < t.rows.length) (name : Bytes) :
    ({ t with rows := t.rows ++ new } : Table).cellAt row name = t.cellAt row name := by
  simp only [Table.cellAt, List.getElem?_append_left h]

end RawDuck
