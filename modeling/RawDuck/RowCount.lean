import RawDuck.Ingestor

/-!
# RawDuck.RowCount

How many rows an ingest stores and reports.  A payload without columns is left
out as a whole, and a payload is without columns exactly when all its rows are
null or empty objects; every other payload stores each of its rows.

* `ProcessedPayload.columns_eq_nil_iff` — which payloads have no column;
* `rawIngestParsedPayload_rowCount` — what one ingest adds and reports;
* `ingestPayloads_conserves_iff` — when payloads ingested one after another
  store as many rows as they have.
-/

namespace RawDuck

open Fallible LogicalType

/-! ## payloads without columns -/

/-- A row that no column comes from. -/
def isEmptyRow : Json → Bool
  | .null => true
  | .obj [] => true
  | _ => false

/-- An object with a child flattens to a column. -/
theorem flattenInto_ne_nil {node : RawNode} {children : List (Bytes × RawNode)}
    {childLookup : List (Bytes × Nat)} (hnode : node = .object children childLookup)
    (hne : children ≠ []) (dotted : Bytes) (path : List Bytes) (ref : NodeRef) (depth : Nat) :
    flattenInto node dotted path ref depth ≠ [] := by
  induction node using RawNode.induct generalizing children childLookup dotted path ref depth with
  | object cs lk ih =>
      cases hnode
      cases cs with
      | nil => exact absurd rfl hne
      | cons entry rest =>
          obtain ⟨name, child⟩ := entry
          rw [flattenInto, flattenChildren_cons]
          intro hnil
          have hhead := (List.append_eq_nil_iff.mp hnil).1
          split at hhead
          · next hflat =>
            -- only an object with children is flattened further
            cases child with
            | object grandchildren lookup =>
                cases grandchildren with
                | nil => simp [isFlattened] at hflat
                | cons g gs =>
                    exact ih (name, .object (g :: gs) lookup) List.mem_cons_self rfl (by simp)
                      _ _ _ _ hhead
            | _ => simp [isFlattened] at hflat
          · contradiction
  | _ => contradiction

theorem length_disambiguate (seen : List Bytes) (columns : List RawColumn) :
    (disambiguate seen columns).length = columns.length := by
  have h := congrArg List.length (disambiguate_forget seen columns)
  simpa using h

/-- A schema without columns: nothing was merged, or empty objects only. -/
theorem flattenSchema_eq_nil {root : RawNode} {scalarRows : Bool}
    (h : flattenSchema root scalarRows = .ok []) :
    root = .unset ∨ ∃ childLookup, root = .object [] childLookup := by
  rcases flattenSchema_cases h with ⟨hroot, -⟩ | hvalue | ⟨children, childLookup, -, hroot, hnil⟩
  · exact Or.inl hroot
  · contradiction
  · refine Or.inr ⟨childLookup, ?_⟩
    cases children with
    | nil => exact hroot
    | cons entry rest =>
        have hlen := length_disambiguate [] (flattenInto root [] [] [] 0)
        rw [← hnil] at hlen
        have hempty := List.eq_nil_of_length_eq_zero hlen.symm
        exact absurd hempty (flattenInto_ne_nil hroot (by simp) _ _ _ _)

/-- A tree without children covers empty rows only. -/
theorem Covers.isEmptyRow {duck : Duck} {root : RawNode} {row : Json} (h : Covers duck root row)
    (hroot : root = .unset ∨ ∃ childLookup, root = .object [] childLookup) :
    isEmptyRow row = true := by
  cases hroot with
  | inl hunset =>
      rw [hunset] at h
      rw [h.eq_null]
      rfl
  | inr hobject =>
      obtain ⟨childLookup, hobject⟩ := hobject
      rw [hobject] at h
      cases h with
      | null => rfl
      | @object _ _ members hnames _ =>
          cases members with
          | nil => rfl
          | cons m rest =>
              have hin := hnames m List.mem_cons_self
              simp at hin

variable {duck : Duck}

/-- Rows of null and of empty objects build no child. -/
theorem inferSchema_of_empty {rows : List Json} (h : ∀ row ∈ rows, isEmptyRow row = true) :
    ((∀ row ∈ rows, row.isObj = false) ∧ inferSchema duck rows = .unset) ∨
      ((∃ row ∈ rows, row.isObj = true) ∧ inferSchema duck rows = .object [] []) := by
  have hkeep : ∀ (rows : List Json), (∀ row ∈ rows, isEmptyRow row = true) →
      rows.foldl (mergeValue duck) (.object [] []) = .object [] [] := by
    intro rows hrows
    induction rows with
    | nil => rfl
    | cons row rest ih =>
        have hrest := ih fun r hr => hrows r (List.mem_cons_of_mem row hr)
        have hrow := hrows row List.mem_cons_self
        unfold isEmptyRow at hrow
        split at hrow
        · exact hrest
        · exact hrest
        · contradiction
  unfold inferSchema
  induction rows with
  | nil => exact Or.inl ⟨fun row hr => (nomatch hr), rfl⟩
  | cons row rest ih =>
      have hrest : ∀ r ∈ rest, isEmptyRow r = true := fun r hr => h r (List.mem_cons_of_mem row hr)
      have hrow := h row List.mem_cons_self
      unfold isEmptyRow at hrow
      split at hrow
      · -- null: the tree stays as it is
        cases ih hrest with
        | inl hnone =>
            refine Or.inl ⟨?_, hnone.2⟩
            intro r hr
            cases List.mem_cons.mp hr with
            | inl he => rw [he]; rfl
            | inr hr => exact hnone.1 r hr
        | inr hsome =>
            obtain ⟨⟨r, hr, hobj⟩, htree⟩ := hsome
            exact Or.inr ⟨⟨r, List.mem_cons_of_mem _ hr, hobj⟩, htree⟩
      · exact Or.inr ⟨⟨.obj [], List.mem_cons_self, rfl⟩, hkeep rest hrest⟩
      · contradiction

theorem checkRowUniformity_of_obj {rows : List Json} {scalarRows : Bool}
    (h : checkRowUniformity rows = .ok scalarRows) (hobj : ∃ row ∈ rows, row.isObj = true) :
    scalarRows = false := by
  unfold checkRowUniformity at h
  dsimp only at h
  split at h
  · contradiction
  · obtain ⟨row, hrow, hobj⟩ := hobj
    have hpos : 0 < rows.countP Json.isObj := List.countP_pos_iff.mpr ⟨row, hrow, hobj⟩
    rw [← Except.ok.inj h, Bool.and_eq_false_iff, beq_eq_false_iff_ne]
    right
    omega

/-- **A payload has no column** exactly when every row is null or an empty
object. -/
theorem ProcessedPayload.columns_eq_nil_iff (p : ProcessedPayload duck) :
    p.columns = [] ↔ ∀ row ∈ p.payload.rows, isEmptyRow row = true := by
  constructor
  · intro hcols row hrow
    have hcovers := @covers_inferSchema duck p.payload.rows row hrow
    rw [← p.root_eq] at hcovers
    have hflat := p.columns_eq
    rw [hcols] at hflat
    exact hcovers.isEmptyRow (flattenSchema_eq_nil hflat)
  · intro hempty
    have hflat := p.columns_eq
    rw [p.root_eq] at hflat
    cases @inferSchema_of_empty duck p.payload.rows hempty with
    | inl hnone =>
        rw [hnone.2] at hflat
        cases hs : p.payload.scalarRows <;> rw [hs] at hflat <;> exact (Except.ok.inj hflat).symm
    | inr hsome =>
        rw [hsome.2, checkRowUniformity_of_obj p.uniform hsome.1] at hflat
        exact (Except.ok.inj hflat).symm

/-! ## one ingest -/

/-- The rows of the table of a database. -/
def Db.rowCount (db : Db) : Nat := (db.table.map fun entry => entry.2.rows.length).getD 0

theorem rowCount_of_table {db : Db} {token : Nat} {table : Table}
    (ht : db.table = some (token, table)) : db.rowCount = table.rows.length := by
  rw [Db.rowCount, ht]
  rfl

/-- The rows of a payload that an ingest stores. -/
def storedRows (parsed : RawParsedPayload) : Nat :=
  if parsed.columns.isEmpty then 0 else parsed.payload.rows.length

/-- New rows have a cell for each column. -/
theorem wf_appended {t : Table} (hwf : t.WF) {parsed : RawParsedPayload}
    (hnames : CiDistinct parsed.columns) {layout : AppendLayout}
    (hlayout : resolveAppendLayout t parsed.columns = .ok layout) {new : List (List Cell)}
    (hnew : newRows duck layout parsed = .ok new) :
    ({ t with rows := t.rows ++ new } : Table).WF where
  names := hwf.names
  width := by
    intro cells hcells
    cases List.mem_append.mp hcells with
    | inl hold => exact hwf.width cells hold
    | inr hin =>
        obtain ⟨row, -, hrow⟩ := forall₂_mem_right (mapM_eq_ok.mp hnew) hin
        have hlen := (mapM_eq_ok.mp hrow).length_eq
        rw [List.length_zipIdx, (resolveAppendLayout_spec hwf hnames hlayout).2.1,
          List.length_map] at hlen
        exact hlen.symm

/-- The schema step keeps the rows of an existing table. -/
theorem SchemaOutcome.rowCount {env : NativeEnv} {parsed : RawParsedPayload} {db ready : Db}
    {created : Bool} {added widened : Nat}
    (h : SchemaOutcome env parsed db ready created added widened) (hwf : db.WF)
    (hnames : CiDistinct parsed.columns) : ready.rowCount = db.rowCount := by
  cases h with
  | created hnone hcreate =>
      obtain ⟨-, -, htable⟩ := bind_eq_ok.mp hcreate
      obtain rfl := pure_eq_ok.mp htable
      rw [Db.rowCount, Db.rowCount, hnone]
      rfl
  | absorbed => rfl
  | evolved htable _ _ hevolve htoken =>
      have hlen := (evolveNative_spec (hwf _ _ htable).names hnames hevolve).length_eq
      rw [Db.rowCount, Db.rowCount, htable]
      show ((Db.evolved _ _ _).table.map fun entry => entry.2.rows.length).getD 0 = _
      rw [htoken]
      exact hlen

/-- **One ingest** that succeeds: the table is well formed, and the rows added
are those reported, all rows of the payload or none. -/
theorem rawIngestParsedPayload_rowCount {env : NativeEnv} (p : ProcessedPayload env.duck)
    {db db' : Db} {stats : RawIngestStats} (hwf : db.WF)
    (h : rawIngestParsedPayload env p.toRawParsedPayload db = .ok stats db') :
    db'.WF ∧ db'.rowCount = db.rowCount + storedRows p.toRawParsedPayload ∧
      stats.rows = storedRows p.toRawParsedPayload := by
  cases rawIngestParsedPayload_ok hwf p.ciDistinct p.rows_ne_nil h with
  | skipped hcols _ =>
      have hnone : storedRows p.toRawParsedPayload = 0 := by
        rw [storedRows, hcols]
        rfl
      rw [hnone]
      exact ⟨hwf, rfl, rfl⟩
  | @appended ready created added widened token table layout new hcols houtcome htable htwf _
      hlayout hnew =>
      have hall : storedRows p.toRawParsedPayload = p.payload.rows.length := by
        rw [storedRows, if_neg]
        simpa using hcols
      have hlen : new.length = p.payload.rows.length := (mapM_eq_ok.mp hnew).length_eq.symm
      have hready := houtcome.rowCount hwf p.ciDistinct
      rw [Db.rowCount, htable] at hready
      refine ⟨?_, ?_, hall.symm⟩
      · intro token' table' htable'
        cases htable'
        exact wf_appended htwf p.ciDistinct hlayout hnew
      · rw [hall, ← hlen, ← hready]
        show (table.rows ++ new).length = _
        rw [List.length_append]
        rfl

/-! ## payloads one after another -/

/-- `raw_ingest` of one payload after another. -/
def ingestPayloads (env : NativeEnv) (payloads : List RawParsedPayload) :
    EStateM RawError Db (List RawIngestStats) :=
  payloads.mapM (rawIngestParsedPayload env)

theorem ingestPayloads_cons_ok {env : NativeEnv} {p : RawParsedPayload}
    {rest : List RawParsedPayload} {db db' : Db} {answers : List RawIngestStats}
    (h : ingestPayloads env (p :: rest) db = .ok answers db') :
    ∃ stats middle others, rawIngestParsedPayload env p db = .ok stats middle ∧
      ingestPayloads env rest middle = .ok others db' ∧ answers = stats :: others := by
  rw [ingestPayloads, List.mapM_cons] at h
  obtain ⟨stats, middle, hone, h⟩ := run_bind_eq_ok.mp h
  obtain ⟨others, last, hrest, h⟩ := run_bind_eq_ok.mp h
  cases h
  exact ⟨stats, middle, others, hone, hrest, rfl⟩

/-- Payloads ingested one after another: what each stores is reported, and the
table grows by the sum. -/
theorem ingestPayloads_rowCount {env : NativeEnv} (payloads : List (ProcessedPayload env.duck))
    {db db' : Db} {answers : List RawIngestStats} (hwf : db.WF)
    (h : ingestPayloads env (payloads.map (·.toRawParsedPayload)) db = .ok answers db') :
    answers.map (·.rows) = payloads.map (fun p => storedRows p.toRawParsedPayload) ∧
      db'.rowCount = db.rowCount +
        (payloads.map fun p => storedRows p.toRawParsedPayload).sum := by
  induction payloads generalizing db answers with
  | nil =>
      cases h
      exact ⟨rfl, rfl⟩
  | cons p rest ih =>
      obtain ⟨stats, middle, others, hone, hrest, rfl⟩ := ingestPayloads_cons_ok h
      obtain ⟨hwf', hcount, hrows⟩ := rawIngestParsedPayload_rowCount p hwf hone
      obtain ⟨hanswers, hsum⟩ := ih hwf' hrest
      constructor
      · rw [List.map_cons, List.map_cons, hrows, hanswers]
      · rw [hsum, hcount, List.map_cons, List.sum_cons, Nat.add_assoc]

/-- A payload is stored with all its rows unless it has rows and all of them are
null or empty objects. -/
theorem storedRows_eq_iff (p : ProcessedPayload duck) :
    storedRows p.toRawParsedPayload = p.payload.rows.length ↔
      (p.payload.rows = [] ∨ ∃ row ∈ p.payload.rows, isEmptyRow row = false) := by
  by_cases hcols : p.columns = []
  · have hempty := p.columns_eq_nil_iff.mp hcols
    rw [storedRows, if_pos (by simp [hcols])]
    constructor
    · intro h
      exact Or.inl (List.eq_nil_of_length_eq_zero h.symm)
    · intro h
      cases h with
      | inl hnil => rw [hnil]; rfl
      | inr hsome =>
          obtain ⟨row, hrow, hnot⟩ := hsome
          rw [hempty row hrow] at hnot
          contradiction
  · rw [storedRows, if_neg (by simpa using hcols)]
    have hsome : ∃ row ∈ p.payload.rows, isEmptyRow row = false := by
      by_contra hnone
      apply hcols
      rw [p.columns_eq_nil_iff]
      intro row hrow
      cases hb : isEmptyRow row with
      | true => rfl
      | false => exact absurd ⟨row, hrow, hb⟩ hnone
    exact ⟨fun _ => Or.inr hsome, fun _ => rfl⟩

/-- **Rows are conserved** over payloads ingested one after another exactly when
no payload has only null and empty rows: the table grows by the rows of all
payloads, and each ingest reports its own. -/
theorem ingestPayloads_conserves_iff (env : NativeEnv) (payloads : List (ProcessedPayload env.duck))
    {db db' : Db} {answers : List RawIngestStats} (hwf : db.WF)
    (h : ingestPayloads env (payloads.map (·.toRawParsedPayload)) db = .ok answers db') :
    (answers.map (·.rows) = payloads.map (fun p => p.payload.rows.length) ∧
      db'.rowCount = db.rowCount + (payloads.map fun p => p.payload.rows.length).sum) ↔
    ∀ p ∈ payloads, p.payload.rows = [] ∨ ∃ row ∈ p.payload.rows, isEmptyRow row = false := by
  obtain ⟨hanswers, hsum⟩ := ingestPayloads_rowCount payloads hwf h
  constructor
  · intro ⟨hreported, _⟩ p hp
    rw [hanswers, List.map_inj_left] at hreported
    exact (storedRows_eq_iff p).mp (hreported p hp)
  · intro hall
    have hmap : payloads.map (fun p => storedRows p.toRawParsedPayload) =
        payloads.map (fun p => p.payload.rows.length) := by
      rw [List.map_inj_left]
      intro p hp
      exact (storedRows_eq_iff p).mpr (hall p hp)
    rw [hmap] at hanswers hsum
    exact ⟨hanswers, hsum⟩

/-! ## a row and an empty row -/

/-- `{"a":1}`, as a payload. -/
def oneRow : ProcessedPayload smallDuck :=
  .ofRows smallDuck [.obj [(bytes "a", .uint 1)]]
    [{ name := bytes "a", path := [bytes "a"], type := BIGINT, node := [0] }] rfl rfl

/-- `{}`, as a payload. -/
def emptyRow : ProcessedPayload smallDuck := .ofRows smallDuck [.obj []] [] rfl rfl

/-- The two rows in one payload. -/
def bothRows : ProcessedPayload smallDuck :=
  .ofRows smallDuck [.obj [(bytes "a", .uint 1)], .obj []]
    [{ name := bytes "a", path := [bytes "a"], type := BIGINT, node := [0] }] rfl rfl

/-- A table of the column `a`, without rows. -/
def columnDb : Db where
  table := some (0, { columns := [{ name := bytes "a", type := BIGINT, generated := false }]
                      rows := [], hasIndexes := false, constraints := [] })
  nextToken := 1
  cache := none

theorem wf_columnDb : columnDb.WF := by
  intro token table htable
  cases htable
  exact ⟨by simp, by simp⟩

/-- Both rows in one payload are stored. -/
theorem ingestPayloads_conserves_bothRows :
    ∃ db' answers, ingestPayloads smallEnv [bothRows.toRawParsedPayload] columnDb =
        .ok answers db' ∧
      answers.map (·.rows) = [2] ∧ db'.rowCount = columnDb.rowCount + 2 := by
  have hconserves := fun db' answers =>
    @ingestPayloads_conserves_iff smallEnv [bothRows] columnDb db' answers wf_columnDb
  have hrows : ∀ p ∈ [bothRows], p.payload.rows = [] ∨
      ∃ row ∈ p.payload.rows, isEmptyRow row = false := by
    intro p hp
    obtain rfl := List.mem_singleton.mp hp
    exact Or.inr ⟨.obj [(bytes "a", .uint 1)], List.mem_cons_self, rfl⟩
  obtain ⟨answers, db', hrun⟩ : ∃ answers db',
      ingestPayloads smallEnv [bothRows.toRawParsedPayload] columnDb = .ok answers db' :=
    ⟨_, _, rfl⟩
  exact ⟨db', answers, hrun, (hconserves db' answers hrun).mpr hrows⟩

/-- In a payload of its own the empty row is dropped, and 0 rows reported. -/
theorem ingestPayloads_dropsEmptyRow :
    ∃ db' answers, ingestPayloads smallEnv
        [oneRow.toRawParsedPayload, emptyRow.toRawParsedPayload] columnDb = .ok answers db' ∧
      emptyRow.payload.rows.length = 1 ∧
      answers.map (·.rows) = [1, 0] ∧ db'.rowCount = columnDb.rowCount + 1 :=
  ⟨_, _, rfl, rfl, rfl, rfl⟩

end RawDuck
