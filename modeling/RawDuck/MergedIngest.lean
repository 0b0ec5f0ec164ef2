import RawDuck.Accept
import RawDuck.IngestFile
import RawDuck.LayoutCache
import RawDuck.SchemaSteps

/-!
# RawDuck.MergedIngest

Merged payloads against the same payloads one after another.  `MergeParsedPayloads`
keeps the tree and the columns of the first payload, so the rows of the others are
read as if they were rows of the first one, and its schema step is the only one.

* `Ingested.keeps`, `Ingested.reads` — what one ingest does to a column and to its
  own rows, and `ingestPayloads_keeps` for a run of them;
* `ReadAlike` — a column is settled by the first payload and the row holds alike at the
  paths of both, said of the columns, the row and the table before;
* `storedAlike_iff` — that is exactly when a merged ingest stores a value of some row as
  the run does;
* `coalesced_storesSerially_iff` — every value of two payloads that
  `coalesce_and_ingest` merges.
-/

namespace RawDuck

open Fallible

/-! ## the columns of a database -/

/-- The type of a column. -/
def Db.typeOf (db : Db) (name : Bytes) : Option LogicalType :=
  db.table.bind fun version => version.2.typeOf name

/-- The cell of a column in a row. -/
def Db.cellAt (db : Db) (row : Nat) (name : Bytes) : Option Cell :=
  db.table.bind fun version => version.2.cellAt row name

section

variable {env : NativeEnv} {parsed : RawParsedPayload} {db db' ready : Db} {token : Nat}
  {table : Table} {name : Bytes} {type : LogicalType}

theorem Db.typeOf_schema (db : Db) (name : Bytes) : db.schema.typeOf name = db.typeOf name := by
  cases h : db.table with
  | none => simp [TableSchema.typeOf, Db.schema, Db.typeOf, h]
  | some version => simp [TableSchema.typeOf, Db.schema, Db.typeOf, Table.typeOf, h]

theorem Db.typeOf_of_table (h : db.table = some (token, table)) :
    db.typeOf name = table.typeOf name := by
  rw [Db.typeOf, h]
  rfl

theorem Db.cellAt_of_table (h : db.table = some (token, table)) (row : Nat) :
    db.cellAt row name = table.cellAt row name := by
  rw [Db.cellAt, h]
  rfl

/-- There is no cell below the last row. -/
theorem Db.cellAt_of_le {row : Nat} (h : db.rowCount ≤ row) : db.cellAt row name = none := by
  cases htable : db.table with
  | none => rw [Db.cellAt, htable]; rfl
  | some version =>
      obtain ⟨token, table⟩ := version
      rw [rowCount_of_table htable] at h
      rw [Db.cellAt_of_table htable, Table.cellAt, List.getElem?_eq_none h]
      cases columnIndex table.columns name with
      | none => rfl
      | some i => rfl

/-! ## one ingest -/

/-- The column has a type at least as wide afterwards, and if the type is the same
the rows there were hold what they held. -/
def KeepsColumn (db db' : Db) (name : Bytes) (type : LogicalType) : Prop :=
  ∃ type', db'.typeOf name = some type' ∧ type.Le type' ∧
    (type' = type → ∀ row < db.rowCount, db'.cellAt row name = db.cellAt row name)

theorem KeepsColumn.refl (h : db.typeOf name = some type) : KeepsColumn db db name type :=
  ⟨type, h, .refl type, fun _ _ _ => rfl⟩

theorem SchemaOutcome.keeps {created : Bool} {added widened : Nat}
    (h : SchemaOutcome env parsed db ready created added widened) (hwf : db.WF)
    (hnames : CiDistinct parsed.columns) (hinferable : ∀ c ∈ parsed.columns, Inferable c.type)
    (htype : db.typeOf name = some type) : KeepsColumn db ready name type := by
  cases h with
  | created hnone hcreate =>
      rw [Db.typeOf, hnone] at htype
      exact nomatch htype
  | absorbed => exact .refl htype
  | @evolved token token' table shape evolved htable hshape hmiss hevolve htoken =>
      have hwf := hwf _ _ htable
      have hspec := evolveNative_spec hwf.names hnames hevolve
      rw [Db.typeOf_of_table htable, Table.typeOf, Option.map_eq_some_iff] at htype
      obtain ⟨e, he, rfl⟩ := htype
      have hafter : evolved.table.typeOf name =
          some (evolvedColumn parsed.columns e).type := by
        rw [Table.typeOf, hspec.columns_eq, findColumn_evolvedColumns, he]
        rfl
      have hjoin : ∀ c ∈ parsed.columns, lower c.name = lower name →
          evolvedColumn parsed.columns e = { e with type := joinColumnTypes e.type c.type } :=
        fun c hc hname => evolvedColumn_of_mem hnames hc ((findColumn_some he).2.trans hname.symm)
      refine ⟨_, (Db.typeOf_of_table htoken).trans hafter, ?_, fun hsame row _ => ?_⟩
      · by_cases hmem : lower e.name ∈ rawNames parsed.columns
        · obtain ⟨c, hc, hname⟩ := List.mem_map.mp hmem
          rw [hjoin c hc (hname.trans (findColumn_some he).2)]
          exact le_joinColumnTypes e.type (hinferable c hc)
        · rw [evolvedColumn_of_not_mem hmem]
          exact .refl _
      · have hcell := evolveNative_cellAt hwf hnames hevolve he
          (fun c hc hname => by
            rw [hjoin c hc hname] at hsame
            exact hsame) row
        exact (Db.cellAt_of_table htoken row).trans
          (hcell.trans (Db.cellAt_of_table htable row).symm)

/-- **One ingest** leaves a column as wide or wider, and the rows before it alone
unless the column is wider. -/
theorem Ingested.keeps {stats : RawIngestStats} (h : Ingested env parsed db db' stats)
    (hwf : db.WF) (hnames : CiDistinct parsed.columns)
    (hinferable : ∀ c ∈ parsed.columns, Inferable c.type) (htype : db.typeOf name = some type) :
    KeepsColumn db db' name type := by
  cases h with
  | skipped => exact .refl htype
  | @appended ready created added widened token table layout new hcols houtcome htable _ _ _ _ =>
      obtain ⟨type', htype', hle, hsame⟩ := houtcome.keeps hwf hnames hinferable htype
      have hcount := houtcome.rowCount hwf hnames
      rw [rowCount_of_table htable] at hcount
      rw [Db.typeOf_of_table htable] at htype'
      refine ⟨type', htype', hle, fun heq row hrow => ?_⟩
      rw [← hsame heq row hrow, Db.cellAt_of_table htable]
      exact cellAt_append_old new (hcount ▸ hrow) name

/-- Its own rows are read through its columns. -/
theorem Ingested.reads {stats : RawIngestStats} (h : Ingested env parsed db db' stats)
    (hwf : db.WF) (hnames : CiDistinct parsed.columns) (hcols : parsed.columns ≠ [])
    (htype : db'.typeOf name = some type) {k : Nat} {row : Json}
    (hrow : parsed.payload.rows[k]? = some row) :
    ∃ cell, cellVia env.duck parsed name type row = .ok cell ∧
      db'.cellAt (db.rowCount + k) name = some cell := by
  cases h with
  | skipped hnil => exact absurd hnil hcols
  | @appended ready created added widened token table layout new _ houtcome htable htwf _ hlayout
      hnew =>
      have hcount := houtcome.rowCount hwf hnames
      rw [rowCount_of_table htable] at hcount
      change table.typeOf name = some type at htype
      rw [Table.typeOf, Option.map_eq_some_iff] at htype
      obtain ⟨e, he, rfl⟩ := htype
      rw [← hcount]
      exact cellAt_append htwf hnames hlayout hnew he hrow

/-- Its columns are columns of the table. -/
theorem Ingested.exists_typeOf {stats : RawIngestStats} (h : Ingested env parsed db db' stats)
    (hnames : CiDistinct parsed.columns) {c : RawColumn} (hc : c ∈ parsed.columns) :
    ∃ type, db'.typeOf c.name = some type := by
  cases h with
  | skipped hnil =>
      rw [hnil] at hc
      exact nomatch hc
  | @appended ready created added widened token table layout new _ _ _ htwf _ hlayout _ =>
      obtain ⟨-, -, hslots⟩ := resolveAppendLayout_spec htwf hnames hlayout
      obtain ⟨slot, -, hslot⟩ := forall₂_mem_left hslots hc
      have hfound : (findColumn table.columns c.name).isSome := by
        rw [← columnIndex_isSome_iff, hslot]
        rfl
      obtain ⟨e, he⟩ := Option.isSome_iff_exists.mp hfound
      refine ⟨e.type, ?_⟩
      show table.typeOf c.name = some e.type
      rw [Table.typeOf, he]
      rfl

end

/-! ## values at paths -/

/-- What a row has for a table column under the payload column of that name: the value at
its path, as the type of the table column. -/
def cellAtPath (duck : Duck) (columns : List RawColumn) (name : Bytes) (type : LogicalType)
    (row : Json) : Except RawError Cell :=
  match columns.find? fun c => ciEq c.name name with
  | some c => writeCell duck type c (row.valueAt c.path)
  | none => .ok .null

/-- The tree of a payload takes its columns to their paths. -/
theorem ProcessedPayload.cellVia_eq {duck : Duck} (p : ProcessedPayload duck) (name : Bytes)
    (type : LogicalType) (row : Json) :
    cellVia duck p.toRawParsedPayload name type row =
      cellAtPath duck p.columns name type row := by
  cases hfind : p.columns.find? fun c => ciEq c.name name with
  | none =>
      rw [List.find?_eq_none] at hfind
      rw [cellAtPath, List.find?_eq_none.mpr hfind, cellVia_of_not_mem]
      intro hmem
      obtain ⟨c, hc, hname⟩ := List.mem_map.mp hmem
      exact hfind c hc (ciEq_iff.mpr hname)
  | some c =>
      obtain ⟨j, hj⟩ := List.getElem?_of_mem (List.mem_of_find?_eq_some hfind)
      have hname : lower c.name = lower name := by simpa [ciEq] using List.find?_some hfind
      rw [cellAtPath, hfind, cellVia_of_mem rfl p.ciDistinct hj hname, p.extractRow_eq row hj]

/-! ## one ingest after another -/

section

variable {env : NativeEnv} {db db' : Db} {name : Bytes} {type : LogicalType}
  {answers : List RawIngestStats}

theorem ProcessedPayload.ingested (p : ProcessedPayload env.duck) {stats : RawIngestStats}
    (hwf : db.WF) (h : rawIngestParsedPayload env p.toRawParsedPayload db = .ok stats db') :
    Ingested env p.toRawParsedPayload db db' stats :=
  rawIngestParsedPayload_ok hwf p.ciDistinct p.rows_ne_nil h

/-- A run up to a payload, the payload, and the rest of the run. -/
theorem ingestPayloads_split {done tail : List (ProcessedPayload env.duck)}
    {p : ProcessedPayload env.duck} (hwf : db.WF)
    (h : ingestPayloads env ((done ++ p :: tail).map (·.toRawParsedPayload)) db =
      .ok answers db') :
    ∃ before after stats answers₁ answers₂,
      ingestPayloads env (done.map (·.toRawParsedPayload)) db = .ok answers₁ before ∧
      before.WF ∧ rawIngestParsedPayload env p.toRawParsedPayload before = .ok stats after ∧
      after.WF ∧ ingestPayloads env (tail.map (·.toRawParsedPayload)) after =
        .ok answers₂ db' := by
  induction done generalizing db answers with
  | nil =>
      obtain ⟨stats, after, others, hone, hrest, rfl⟩ := ingestPayloads_cons_ok h
      exact ⟨db, after, stats, [], others, rfl, hwf, hone,
        (rawIngestParsedPayload_rowCount p hwf hone).1, hrest⟩
  | cons q done ih =>
      obtain ⟨stats, middle, others, hone, hrest, rfl⟩ := ingestPayloads_cons_ok h
      obtain ⟨before, after, stats', answers₁, answers₂, hdone, hbefore, hp, hafter, htail⟩ :=
        ih (rawIngestParsedPayload_rowCount q hwf hone).1 hrest
      refine ⟨before, after, stats', stats :: answers₁, answers₂, ?_, hbefore, hp, hafter, htail⟩
      rw [ingestPayloads] at hdone
      rw [ingestPayloads, List.map_cons, List.mapM_cons, run_bind_of_ok hone,
        run_bind_of_ok hdone]
      rfl

/-- **A run of ingests** leaves a column as wide or wider, and the rows before it
alone unless the column is wider. -/
theorem ingestPayloads_keeps (ps : List (ProcessedPayload env.duck)) (hwf : db.WF)
    (h : ingestPayloads env (ps.map (·.toRawParsedPayload)) db = .ok answers db')
    (htype : db.typeOf name = some type) : KeepsColumn db db' name type := by
  induction ps generalizing db answers type with
  | nil =>
      cases h
      exact .refl htype
  | cons p ps ih =>
      obtain ⟨stats, middle, others, hone, hrest, rfl⟩ := ingestPayloads_cons_ok h
      obtain ⟨hwf', hcount, -⟩ := rawIngestParsedPayload_rowCount p hwf hone
      obtain ⟨type₁, htype₁, hle₁, hsame₁⟩ :=
        (p.ingested hwf hone).keeps hwf p.ciDistinct (fun _ hc => p.inferable hc) htype
      obtain ⟨type₂, htype₂, hle₂, hsame₂⟩ := ih hwf' hrest htype₁
      refine ⟨type₂, htype₂, hle₁.trans hle₂, fun heq row hrow => ?_⟩
      -- a column that ends as wide as it was has not been wider in between
      obtain rfl : type = type₁ := hle₁.antisymm (heq ▸ hle₂)
      rw [hsame₂ heq row (by omega), hsame₁ rfl row hrow]

/-- After a run the columns of its payloads are columns of the table. -/
theorem ingestPayloads_typeOf (ps : List (ProcessedPayload env.duck)) (hwf : db.WF)
    (h : ingestPayloads env (ps.map (·.toRawParsedPayload)) db = .ok answers db')
    {p : ProcessedPayload env.duck} (hp : p ∈ ps) {c : RawColumn} (hc : c ∈ p.columns) :
    (db'.typeOf c.name).isSome := by
  obtain ⟨done, tail, rfl⟩ := List.append_of_mem hp
  obtain ⟨before, after, _, _, _, -, hbefore, hone, hafter, htail⟩ := ingestPayloads_split hwf h
  obtain ⟨type, htype⟩ := (p.ingested hbefore hone).exists_typeOf p.ciDistinct hc
  obtain ⟨type', htype', -⟩ := ingestPayloads_keeps tail hafter htail htype
  rw [htype']
  rfl

/-- The rows that the payloads before one have, and those that an ingest of each
stores. -/
def rowsOf (ps : List (ProcessedPayload env.duck)) : List Json := ps.flatMap fun p => p.payload.rows

def storedOf (ps : List (ProcessedPayload env.duck)) : Nat :=
  (ps.map fun p => storedRows p.toRawParsedPayload).sum

/-- A row of a payload, in a column that has its final type by then, ends as the
payload's columns read it. -/
theorem ingestPayloads_reads {done tail : List (ProcessedPayload env.duck)}
    {p : ProcessedPayload env.duck} {before after : Db} {stats : RawIngestStats}
    {answers₁ answers₂ : List RawIngestStats} (hwf : db.WF) (hcols : p.columns ≠ [])
    (hdone : ingestPayloads env (done.map (·.toRawParsedPayload)) db = .ok answers₁ before)
    (hbefore : before.WF)
    (hp : rawIngestParsedPayload env p.toRawParsedPayload before = .ok stats after)
    (hafter : after.WF)
    (htail : ingestPayloads env (tail.map (·.toRawParsedPayload)) after = .ok answers₂ db')
    (htype : after.typeOf name = some type) (hfinal : db'.typeOf name = some type) {k : Nat}
    {row : Json} (hrow : p.payload.rows[k]? = some row) :
    ∃ cell, cellVia env.duck p.toRawParsedPayload name type row = .ok cell ∧
      db'.cellAt (db.rowCount + storedOf done + k) name = some cell := by
  obtain ⟨cell, hvia, hcell⟩ :=
    (p.ingested hbefore hp).reads hbefore p.ciDistinct hcols htype hrow
  have hcount := (ingestPayloads_rowCount done hwf hdone).2
  obtain ⟨type', htype', -, hsame⟩ := ingestPayloads_keeps tail hafter htail htype
  obtain rfl : type' = type := Option.some.inj (htype'.symm.trans hfinal)
  have hrows := (rawIngestParsedPayload_rowCount p hbefore hp).2.1
  have hlt : k < p.payload.rows.length := (List.getElem?_eq_some_iff.mp hrow).1
  have hstored : storedRows p.toRawParsedPayload = p.payload.rows.length := by
    rw [storedRows, if_neg (by simpa using hcols)]
  refine ⟨cell, hvia, ?_⟩
  rw [storedOf, ← hcount, hsame rfl _ (by omega)]
  exact hcell

end

/-! ## the merged ingest -/

section

variable {env : NativeEnv} {first : ProcessedPayload env.duck}
  {rest : List (ProcessedPayload env.duck)} {db merged serial : Db} {name : Bytes}

/-- The first payload with the rows of all. -/
def mergedPayload (first : ProcessedPayload env.duck) (rest : List (ProcessedPayload env.duck)) :
    RawParsedPayload :=
  mergeAll first.toRawParsedPayload (rest.map (·.toRawParsedPayload))

theorem mergedPayload_eq (first : ProcessedPayload env.duck)
    (rest : List (ProcessedPayload env.duck)) :
    mergedPayload first rest = { first.toRawParsedPayload with
      payload := { first.payload with rows := rowsOf (first :: rest) } } := by
  rw [mergedPayload, mergeAll_eq, List.flatMap_map]
  rfl

/-- What stands in this column of this row of the one database stands in this row of
the other one, under the same type. -/
def StoredAlike (merged serial : Db) (name : Bytes) (row row' : Nat) : Prop :=
  merged.typeOf name = serial.typeOf name ∧ merged.cellAt row name = serial.cellAt row' name

/-- The schema step of the first payload gives the column this type, and those of the
rest leave it so. -/
def SettledBy (duck : Duck) (before : TableSchema) (first : List RawColumn)
    (rest : List (List RawColumn)) (name : Bytes) (type : LogicalType) : Prop :=
  (before.step duck first).typeOf name = some type ∧
    ((before.step duck first).steps duck rest).typeOf name = some type

/-- A payload of columns `first`, followed by payloads of columns `rest`, reads a row of a
payload of columns `own` alike: it has a column at all, it settles the type of this
column, and the values that the row has at the paths of both are written alike. -/
def ReadAlike (duck : Duck) (before : TableSchema) (first : List RawColumn)
    (rest : List (List RawColumn)) (own : List RawColumn) (name : Bytes) (row : Json) : Prop :=
  first ≠ [] ∧ ∃ type, SettledBy duck before first rest name type ∧
    cellAtPath duck first name type row = cellAtPath duck own name type row

theorem cellVia_mergedPayload (type : LogicalType) (row : Json) :
    cellVia env.duck (mergedPayload first rest) name type row =
      cellVia env.duck first.toRawParsedPayload name type row := by
  rw [mergedPayload_eq]
  rfl

theorem columns_mergedPayload : (mergedPayload first rest).columns = first.columns := by
  rw [mergedPayload_eq]

theorem rows_mergedPayload :
    (mergedPayload first rest).payload.rows = rowsOf (first :: rest) := by
  rw [mergedPayload_eq]

theorem mergedPayload_ingested {stats : RawIngestStats} (hwf : db.WF)
    (h : rawIngestParsedPayload env (mergedPayload first rest) db = .ok stats merged) :
    Ingested env (mergedPayload first rest) db merged stats := by
  refine rawIngestParsedPayload_ok hwf ?_ ?_ h
  · rw [columns_mergedPayload]
    exact first.ciDistinct
  · rw [columns_mergedPayload, rows_mergedPayload, rowsOf, List.flatMap_cons]
    intro hcols hnil
    exact first.rows_ne_nil hcols (List.append_eq_nil_iff.mp hnil).1

/-- A merged ingest takes the schema step of the first payload. -/
theorem schema_merged {stats : RawIngestStats} (hwf : db.WF)
    (h : rawIngestParsedPayload env (mergedPayload first rest) db = .ok stats merged) :
    merged.schema = db.schema.step env.duck first.columns := by
  have hnames : CiDistinct (mergedPayload first rest).columns := by
    rw [columns_mergedPayload]
    exact first.ciDistinct
  rw [(mergedPayload_ingested hwf h).schema_eq hwf hnames, columns_mergedPayload]

/-- A column that has its final type after the first payload has it after each of
them. -/
theorem typeOf_steady {done tail : List (ProcessedPayload env.duck)}
    {p : ProcessedPayload env.duck} {before after db₁ : Db} {stats stats₁ : RawIngestStats}
    {answers₁ answers₂ : List RawIngestStats} {type : LogicalType} (hwf : db.WF)
    (hsplit : first :: rest = done ++ p :: tail)
    (hfirst : rawIngestParsedPayload env first.toRawParsedPayload db = .ok stats₁ db₁)
    (hdone : ingestPayloads env (done.map (·.toRawParsedPayload)) db = .ok answers₁ before)
    (hbefore : before.WF)
    (hp : rawIngestParsedPayload env p.toRawParsedPayload before = .ok stats after)
    (hafter : after.WF)
    (htail : ingestPayloads env (tail.map (·.toRawParsedPayload)) after = .ok answers₂ serial)
    (hsteady : db₁.typeOf name = some type) (hfinal : serial.typeOf name = some type) :
    after.typeOf name = some type := by
  cases done with
  | nil =>
      obtain ⟨rfl, rfl⟩ := List.cons.inj hsplit
      cases hdone
      rw [hfirst] at hp
      obtain ⟨-, rfl⟩ := EStateM.Result.ok.inj hp
      exact hsteady
  | cons q done =>
      obtain ⟨rfl, -⟩ := List.cons.inj hsplit
      obtain ⟨_, middle, _, hone, hdone, -⟩ := ingestPayloads_cons_ok hdone
      rw [hfirst] at hone
      obtain ⟨-, rfl⟩ := EStateM.Result.ok.inj hone
      have hwf₁ := (rawIngestParsedPayload_rowCount first hwf hfirst).1
      obtain ⟨type₁, htype₁, hle₁, -⟩ := ingestPayloads_keeps done hwf₁ hdone hsteady
      obtain ⟨type₂, htype₂, hle₂, -⟩ :=
        (p.ingested hbefore hp).keeps hbefore p.ciDistinct (fun _ hc => p.inferable hc) htype₁
      obtain ⟨type₃, htype₃, hle₃, -⟩ := ingestPayloads_keeps tail hafter htail htype₂
      obtain rfl : type₃ = type := Option.some.inj (htype₃.symm.trans hfinal)
      rw [htype₂, hle₃.antisymm (hle₁.trans hle₂)]

/-- A row of a payload behind the rows of the payloads before it. -/
theorem getElem?_rows_mergedPayload {done tail : List (ProcessedPayload env.duck)}
    {p : ProcessedPayload env.duck} (hsplit : first :: rest = done ++ p :: tail) {k : Nat}
    {row : Json} (hrow : p.payload.rows[k]? = some row) :
    (mergedPayload first rest).payload.rows[(rowsOf done).length + k]? = some row := by
  rw [rows_mergedPayload, hsplit, rowsOf, List.flatMap_append, List.flatMap_cons, ← rowsOf,
    List.getElem?_append_right (Nat.le_add_right _ _), Nat.add_sub_cancel_left,
    List.getElem?_append_left (List.getElem?_eq_some_iff.mp hrow).1]
  exact hrow

/-- **One value**: a merged ingest stores what a run of ingests stores exactly when
the first payload reads it alike. -/
theorem storedAlike_iff {stats : RawIngestStats} {answers : List RawIngestStats} (hwf : db.WF)
    (hmerged : rawIngestParsedPayload env (mergedPayload first rest) db = .ok stats merged)
    (hserial : ingestPayloads env ((first :: rest).map (·.toRawParsedPayload)) db =
      .ok answers serial)
    (done tail : List (ProcessedPayload env.duck)) {p : ProcessedPayload env.duck}
    (hsplit : first :: rest = done ++ p :: tail) (hcols : p.columns ≠ [])
    (hname : (serial.typeOf name).isSome) {k : Nat} {row : Json}
    (hrow : p.payload.rows[k]? = some row) :
    StoredAlike merged serial name (db.rowCount + (rowsOf done).length + k)
        (db.rowCount + storedOf done + k) ↔
      ReadAlike env.duck db.schema first.columns (rest.map (·.columns)) p.columns name row := by
  obtain ⟨type, hfinal⟩ := Option.isSome_iff_exists.mp hname
  obtain ⟨_, db₁, _, hfirst, -, -⟩ := ingestPayloads_cons_ok hserial
  -- the types after the first payload and after all are those of the schema steps
  have hstep : db₁.schema = db.schema.step env.duck first.columns :=
    (first.ingested hwf hfirst).schema_eq hwf first.ciDistinct
  have hsteps : serial.schema =
      (db.schema.step env.duck first.columns).steps env.duck (rest.map (·.columns)) :=
    ingestPayloads_schema (first :: rest) hwf hserial
  have hmergedType : merged.typeOf name = db₁.typeOf name := by
    rw [← Db.typeOf_schema, ← Db.typeOf_schema, schema_merged hwf hmerged, hstep]
  have hsettled : ∀ type', SettledBy env.duck db.schema first.columns (rest.map (·.columns)) name
      type' ↔ db₁.typeOf name = some type' ∧ serial.typeOf name = some type' := by
    intro type'
    rw [SettledBy, ← hstep, Db.typeOf_schema, hstep, ← hsteps, Db.typeOf_schema]
  by_cases hsteady : db₁.typeOf name = some type
  · rw [hsplit] at hserial
    obtain ⟨before, after, _, _, _, hdone, hbefore, hp, hafter, htail⟩ :=
      ingestPayloads_split hwf hserial
    have hafterType := typeOf_steady hwf hsplit hfirst hdone hbefore hp hafter htail hsteady hfinal
    obtain ⟨cell, hvia, hcell⟩ := ingestPayloads_reads hwf hcols hdone hbefore hp hafter htail
      hafterType hfinal hrow
    have hm := mergedPayload_ingested hwf hmerged
    by_cases hnone : first.columns = []
    · -- nothing was appended, so there is no such row
      refine iff_of_false (fun halike => ?_) fun hread => hread.1 hnone
      have hmissing : merged.cellAt (db.rowCount + (rowsOf done).length + k) name = none := by
        cases hm with
        | skipped => exact Db.cellAt_of_le (by omega)
        | appended hne => exact absurd (columns_mergedPayload.trans hnone) hne
      have hcells := halike.2
      rw [hmissing, hcell] at hcells
      exact nomatch hcells
    · have hmergedRow := getElem?_rows_mergedPayload hsplit hrow
      have hmergedNames : CiDistinct (mergedPayload first rest).columns := by
        rw [columns_mergedPayload]
        exact first.ciDistinct
      obtain ⟨cell', hvia', hcell'⟩ := hm.reads hwf hmergedNames
        (columns_mergedPayload.symm ▸ hnone) (hmergedType.trans hsteady) hmergedRow
      rw [cellVia_mergedPayload, first.cellVia_eq] at hvia'
      rw [p.cellVia_eq] at hvia
      rw [StoredAlike, hmergedType, hsteady, hfinal, Nat.add_assoc, hcell', hcell]
      constructor
      · rintro ⟨-, hcells⟩
        refine ⟨hnone, type, (hsettled type).mpr ⟨hsteady, hfinal⟩, ?_⟩
        rw [hvia, hvia', Option.some.inj hcells]
      · rintro ⟨-, type', htype', hreads⟩
        obtain rfl : type = type' :=
          Option.some.inj (hfinal.symm.trans ((hsettled type').mp htype').2)
        rw [hvia, hvia'] at hreads
        exact ⟨rfl, congrArg some (Except.ok.inj hreads)⟩
  · refine iff_of_false (fun halike => hsteady ?_) fun hread => hsteady ?_
    · rw [← hmergedType, halike.1, hfinal]
    · obtain ⟨-, type', htype', -⟩ := hread
      obtain ⟨hfirst', hfinal'⟩ := (hsettled type').mp htype'
      rw [hfirst', ← hfinal', hfinal]

end

/-! ## payloads of one signature -/

section

variable {env : NativeEnv} {cfg : FileConfig} {p q : ProcessedPayload env.duck}
  {text text' : Bytes}

/-- Of two payloads of one signature neither or both have columns. -/
theorem columns_eq_nil_iff_of_coalesces (hduck : cfg.duck = env.duck)
    (hfold : FoldTells env.duck {p.columns, q.columns})
    (h : Coalesces cfg ⟨p.toRawParsedPayload, text⟩ ⟨q.toRawParsedPayload, text'⟩) :
    p.columns = [] ↔ q.columns = [] := by
  have hshape := h.1
  rw [hduck] at hshape
  have hnil : ∀ {a b : List RawColumn}, FoldTells env.duck {a, b} →
      hashPayloadShape env.duck a = hashPayloadShape env.duck b → a = [] → b = [] := by
    rintro a b hfold hshape rfl
    obtain ⟨-, hb⟩ := hashPayloadShape_eq_ok.mp hshape.symm
    have hsequence := hfold ⟨b, .inr rfl, rfl⟩ ⟨[], .inl rfl, rfl⟩ hb
    cases b with
    | nil => rfl
    | cons c b =>
        rw [shapeSequence_cons, columnSequence] at hsequence
        simp [shapeSequence] at hsequence
  exact ⟨hnil hfold hshape, hnil (Set.pair_comm p.columns q.columns ▸ hfold) hshape.symm⟩

/-- **Two payloads that are coalesced**: the merged payload stores each value of both,
in each column of either, as the two do one after the other exactly when the first one
settles the type of each column and the rows of the second one hold alike values at the
paths of both.  A table that was there settles the types. -/
theorem coalesced_storesSerially_iff (hduck : cfg.duck = env.duck)
    (hfold : FoldTells env.duck {p.columns, q.columns})
    (hcoalesces : Coalesces cfg ⟨p.toRawParsedPayload, text⟩ ⟨q.toRawParsedPayload, text'⟩)
    {db merged serial : Db} {stats : RawIngestStats} {answers : List RawIngestStats}
    (hwf : db.WF)
    (hmerged : rawIngestParsedPayload env
      (mergeParsedPayloads p.toRawParsedPayload q.toRawParsedPayload) db = .ok stats merged)
    (hserial : ingestPayloads env [p.toRawParsedPayload, q.toRawParsedPayload] db =
      .ok answers serial) :
    ((∀ c ∈ p.columns ++ q.columns, ∀ k < (p.payload.rows ++ q.payload.rows).length,
        StoredAlike merged serial c.name (db.rowCount + k) (db.rowCount + k)) ↔
      ∀ c ∈ p.columns ++ q.columns, ∃ type,
        SettledBy env.duck db.schema p.columns [q.columns] c.name type ∧
        ∀ row ∈ q.payload.rows, cellAtPath env.duck p.columns c.name type row =
          cellAtPath env.duck q.columns c.name type row) ∧
    (db.table.isSome → ∀ c ∈ p.columns ++ q.columns, ∃ type,
      SettledBy env.duck db.schema p.columns [q.columns] c.name type) := by
  have hempty := columns_eq_nil_iff_of_coalesces hduck hfold hcoalesces
  have hname : ∀ c ∈ p.columns ++ q.columns, (serial.typeOf c.name).isSome := by
    intro c hc
    cases List.mem_append.mp hc with
    | inl hc => exact ingestPayloads_typeOf [p, q] hwf hserial List.mem_cons_self hc
    | inr hc =>
        exact ingestPayloads_typeOf [p, q] hwf hserial
          (List.mem_cons_of_mem p List.mem_cons_self) hc
  constructor
  · refine forall₂_congr fun c hc => ?_
    have hp : p.columns ≠ [] := by
      intro hnil
      rw [hnil, hempty.mp hnil] at hc
      exact nomatch hc
    have hq : q.columns ≠ [] := fun hnil => hp (hempty.mpr hnil)
    have hmergedAll : rawIngestParsedPayload env (mergedPayload p [q]) db = .ok stats merged :=
      hmerged
    have hfirst : ∀ k row, p.payload.rows[k]? = some row → (StoredAlike merged serial c.name
        (db.rowCount + k) (db.rowCount + k) ↔
          ReadAlike env.duck db.schema p.columns [q.columns] p.columns c.name row) :=
      fun k row hrow => storedAlike_iff hwf hmergedAll hserial [] [q] rfl hp (hname c hc) hrow
    have hsecond : ∀ k row, q.payload.rows[k]? = some row → (StoredAlike merged serial c.name
        (db.rowCount + (p.payload.rows.length + k)) (db.rowCount + (p.payload.rows.length + k)) ↔
          ReadAlike env.duck db.schema p.columns [q.columns] q.columns c.name row) := by
      intro k row hrow
      have h := storedAlike_iff hwf hmergedAll hserial [p] [] rfl hq (hname c hc) hrow
      rw [rowsOf, List.flatMap_singleton, storedOf, List.map_singleton, List.sum_singleton,
        storedRows, if_neg (by simpa using hp), Nat.add_assoc] at h
      exact h
    constructor
    · intro h
      -- the first row of the first payload settles the type
      obtain ⟨row₀, hrow₀⟩ := List.exists_mem_of_ne_nil _ (p.rows_ne_nil hp)
      obtain ⟨k₀, hk₀⟩ := List.getElem?_of_mem hrow₀
      have hlt₀ := (List.getElem?_eq_some_iff.mp hk₀).1
      obtain ⟨-, type, htype, -⟩ :=
        (hfirst k₀ row₀ hk₀).mp (h k₀ (by rw [List.length_append]; omega))
      refine ⟨type, htype, fun row hrow => ?_⟩
      obtain ⟨k, hk⟩ := List.getElem?_of_mem hrow
      have hlt := (List.getElem?_eq_some_iff.mp hk).1
      obtain ⟨-, type', htype', hreads⟩ :=
        (hsecond k row hk).mp (h _ (by rw [List.length_append]; omega))
      obtain rfl : type = type' := Option.some.inj (htype.1.symm.trans htype'.1)
      exact hreads
    · rintro ⟨type, htype, hreads⟩ k hk
      rw [List.length_append] at hk
      by_cases hlt : k < p.payload.rows.length
      · exact (hfirst k _ (List.getElem?_eq_getElem hlt)).mpr ⟨hp, type, htype, rfl⟩
      · obtain ⟨j, rfl⟩ := Nat.exists_eq_add_of_le (Nat.not_lt.mp hlt)
        have hrow := List.getElem?_eq_getElem (show j < q.payload.rows.length by omega)
        exact (hsecond j _ hrow).mpr ⟨hp, type, htype, hreads _ (List.mem_of_getElem? hrow)⟩
  · intro htable c hc
    obtain ⟨type, htype⟩ := Option.isSome_iff_exists.mp (hname c hc)
    have hshape : hashPayloadShape env.duck p.columns = hashPayloadShape env.duck q.columns := by
      have h := hcoalesces.1
      rwa [hduck] at h
    have hversion : db.schema.version.isSome := by simpa [Db.schema] using htable
    have hsteps := ingestPayloads_schema [p, q] hwf hserial
    rw [← Db.typeOf_schema, hsteps] at htype
    change ((db.schema.step env.duck p.columns).step env.duck q.columns).typeOf c.name =
      some type at htype
    refine ⟨type, ?_, htype⟩
    rwa [TableSchema.step_of_sameShape hversion hshape hempty] at htype

end

/-! ### two spellings of one key -/

/-- A payload of one row of one number. -/
def numberPayload (key : String) (n : UInt64)
    (h : flattenSchema (inferSchema smallDuck [.obj [(bytes key, .uint n)]]) false =
      .ok [{ name := bytes key, path := [bytes key], type := .BIGINT, node := [0] }]) :
    ProcessedPayload smallDuck :=
  .ofRows smallDuck [.obj [(bytes key, .uint n)]] _ rfl h

/-- `{"A":1}` and `{"a":2}`. -/
def upperPayload : ProcessedPayload smallDuck := numberPayload "A" 1 rfl

def lowerPayload : ProcessedPayload smallDuck := numberPayload "a" 2 rfl

/-- The file configuration over the small DuckDB. -/
def smallConfig : FileConfig := { fileConfig with duck := smallDuck }

/-- The names have one signature and the tree of the first has no key `a`: the number
of the second is lost. -/
theorem coalesced_losesValue :
    FoldTells smallDuck {upperPayload.columns, lowerPayload.columns} ∧
    Coalesces smallConfig ⟨upperPayload.toRawParsedPayload, []⟩
      ⟨lowerPayload.toRawParsedPayload, []⟩ ∧
    ∃ merged serial stats answers,
      rawIngestParsedPayload smallEnv (mergeParsedPayloads upperPayload.toRawParsedPayload
        lowerPayload.toRawParsedPayload) columnDb = .ok stats merged ∧
      ingestPayloads smallEnv
        [upperPayload.toRawParsedPayload, lowerPayload.toRawParsedPayload] columnDb =
          .ok answers serial ∧
      serial.cellAt 1 (bytes "a") = some (.bigint 2) ∧
      merged.cellAt 1 (bytes "a") = some .null := by
  refine ⟨?_, ⟨rfl, by decide⟩, _, _, _, _, rfl, rfl, rfl, rfl⟩
  refine injOn_fnvFold_of_eq [97, 14] ?_
  rintro p (rfl | rfl)
  · rfl
  · rfl

/-- `{"a":1}` and `{"a":2}`: both numbers are stored. -/
theorem coalesced_storesSerially_numbers :
    ∃ merged serial stats answers,
      rawIngestParsedPayload smallEnv (mergeParsedPayloads oneRow.toRawParsedPayload
        lowerPayload.toRawParsedPayload) columnDb = .ok stats merged ∧
      ingestPayloads smallEnv
        [oneRow.toRawParsedPayload, lowerPayload.toRawParsedPayload] columnDb =
          .ok answers serial ∧
      StoredAlike merged serial (bytes "a") 0 0 ∧ StoredAlike merged serial (bytes "a") 1 1 := by
  have hfold : FoldTells smallDuck {oneRow.columns, lowerPayload.columns} := by
    refine injOn_fnvFold_of_eq [97, 14] ?_
    rintro p (rfl | rfl)
    · rfl
    · rfl
  have hcoalesces : Coalesces smallConfig ⟨oneRow.toRawParsedPayload, []⟩
      ⟨lowerPayload.toRawParsedPayload, []⟩ := ⟨rfl, by decide⟩
  have hiff := (@coalesced_storesSerially_iff smallEnv smallConfig oneRow lowerPayload [] [] rfl
    hfold hcoalesces columnDb _ _ _ _ wf_columnDb rfl rfl).1
  have hstored := hiff.mpr ?_
  · have hmem : _ ∈ oneRow.columns ++ lowerPayload.columns := List.mem_cons_self
    exact ⟨_, _, _, _, rfl, rfl, hstored _ hmem 0 (by decide), hstored _ hmem 1 (by decide)⟩
  · intro c hc
    have hname : c.name = bytes "a" := by
      rcases List.mem_append.mp hc with hc | hc
      · exact congrArg RawColumn.name (List.mem_singleton.mp hc)
      · exact congrArg RawColumn.name (List.mem_singleton.mp hc)
    rw [hname]
    refine ⟨.BIGINT, ⟨rfl, rfl⟩, fun row hrow => ?_⟩
    obtain rfl := List.mem_singleton.mp hrow
    rfl

end RawDuck
