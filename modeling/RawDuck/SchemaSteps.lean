import RawDuck.RowCount

/-!
# RawDuck.SchemaSteps

The schema steps of payloads without their rows.  What an ingest does to the columns of
a table, to its storage token and to the shape cache depends on these and on the columns
of the payload; no row has a part in it.

* `TableSchema.step` — the schema step of a payload, from its columns;
* `Ingested.schema_eq`, `ingestPayloads_schema` — the ingests take these steps.
-/

namespace RawDuck

open Fallible

/-- A database without the rows. -/
structure TableSchema where
  version : Option (Nat × List Column)
  nextToken : Nat
  cache : Option CacheEntry

/-- What a database has besides the rows. -/
def Db.schema (db : Db) : TableSchema where
  version := db.table.map fun version => (version.1, version.2.columns)
  nextToken := db.nextToken
  cache := db.cache

/-- The type of a column. -/
def TableSchema.typeOf (s : TableSchema) (name : Bytes) : Option LogicalType :=
  s.version.bind fun version => (findColumn version.2 name).map Column.type

/-- A column of a payload that the table does not have, or not as wide. -/
def needsAlter (existing : List Column) (c : RawColumn) : Bool :=
  match findColumn existing c.name with
  | none => true
  | some e => joinColumnTypes e.type c.type ≠ e.type

/-- How many columns of a payload are added or widened, each by an ALTER. -/
def alterations (existing : List Column) (columns : List RawColumn) : Nat :=
  columns.countP (needsAlter existing)

/-- The schema step of a payload of these columns. -/
def TableSchema.step (duck : Duck) (s : TableSchema) (columns : List RawColumn) : TableSchema :=
  if columns.isEmpty then s
  else match s.version, hashPayloadShape duck columns with
    | none, _ =>
        { s with version := some (s.nextToken, tableColumns columns)
                 nextToken := s.nextToken + 1 }
    | some _, .error _ => s
    | some (token, existing), .ok shape =>
        if isAbsorbed s.cache token shape then s
        else
          let alters := alterations existing columns
          let token' := if alters = 0 then token else s.nextToken + alters - 1
          { version := some (token', evolvedColumns existing columns)
            nextToken := s.nextToken + alters
            cache := some (absorbShape s.cache token' shape) }

/-- The schema steps of payloads, one after another. -/
def TableSchema.steps (duck : Duck) (s : TableSchema) (payloads : List (List RawColumn)) :
    TableSchema :=
  payloads.foldl (TableSchema.step duck) s

@[simp] theorem TableSchema.steps_nil (duck : Duck) (s : TableSchema) : s.steps duck [] = s := rfl

@[simp] theorem TableSchema.steps_cons (duck : Duck) (s : TableSchema) (columns : List RawColumn)
    (payloads : List (List RawColumn)) :
    s.steps duck (columns :: payloads) = (s.step duck columns).steps duck payloads := rfl

theorem isAbsorbed_absorbShape (cache : Option CacheEntry) (token : Nat) (shape : UInt64) :
    isAbsorbed (some (absorbShape cache token shape)) token shape = true := by
  cases cache with
  | none => simp [absorbShape, isAbsorbed]
  | some entry =>
      by_cases htoken : entry.storageToken = token
      · simp [absorbShape, isAbsorbed, htoken]
      · simp [absorbShape, isAbsorbed, htoken]

/-- On a table that was there, a payload of the same signature has no schema step of its
own. -/
theorem TableSchema.step_of_sameShape {duck : Duck} {s : TableSchema} {a b : List RawColumn}
    (htable : s.version.isSome) (hshape : hashPayloadShape duck a = hashPayloadShape duck b)
    (hempty : a = [] ↔ b = []) : (s.step duck a).step duck b = s.step duck a := by
  by_cases ha : a = []
  · simp [TableSchema.step, ha, hempty.mp ha]
  · have hb : b ≠ [] := fun hb => ha (hempty.mpr hb)
    obtain ⟨⟨token, existing⟩, hversion⟩ := Option.isSome_iff_exists.mp htable
    cases hok : hashPayloadShape duck a with
    | error e => simp [TableSchema.step, ha, hb, hversion, hok, ← hshape]
    | ok shape =>
        by_cases hhit : isAbsorbed s.cache token shape = true
        · simp [TableSchema.step, ha, hb, hversion, hok, ← hshape, hhit]
        · simp [TableSchema.step, ha, hb, hversion, hok, ← hshape, hhit, isAbsorbed_absorbShape]

section

variable {env : NativeEnv} {parsed : RawParsedPayload} {db db' ready : Db}

/-- A schema step alters what `alterations` counts. -/
theorem evolveNative_alters {duck : Duck} {catalog : Catalog} {table : Table}
    {columns : List RawColumn} {evolved : Evolved}
    (h : evolveNative duck catalog table columns = .ok evolved) :
    evolved.added + evolved.widened = alterations table.columns columns := by
  refine foldlM_rule
    (fun done (s : Evolved) => s.added + s.widened = alterations table.columns done) ?_ rfl h
  intro done c _ s s' _ hs hstep
  simp only [alterations, List.countP_append, List.countP_singleton] at hs ⊢
  rcases evolveColumn_cases hstep with ⟨he, rfl⟩ | ⟨e, he, hsame, rfl⟩ | ⟨e, t, he, hne, -, rfl⟩
  · have halter : needsAlter table.columns c = true := by simp [needsAlter, he]
    rw [if_pos halter]
    dsimp only
    omega
  · have halter : ¬ needsAlter table.columns c = true := by simp [needsAlter, he, hsame]
    rw [if_neg halter]
    omega
  · have halter : needsAlter table.columns c = true := by simp [needsAlter, he, hne]
    rw [if_pos halter]
    dsimp only
    omega

/-- The schema part of an ingest is the schema step. -/
theorem SchemaOutcome.schema_eq {created : Bool} {added widened : Nat} (hwf : db.WF)
    (hnames : CiDistinct parsed.columns) (hcols : parsed.columns ≠ [])
    (h : SchemaOutcome env parsed db ready created added widened) :
    ready.schema = db.schema.step env.duck parsed.columns := by
  rw [TableSchema.step, if_neg (by simpa using hcols)]
  cases h with
  | created hnone hcreate =>
      obtain ⟨-, -, hcreate⟩ := bind_eq_ok.mp hcreate
      obtain rfl := pure_eq_ok.mp hcreate
      simp only [Db.schema, hnone, Option.map_none, Option.map_some]
  | absorbed htable hshape hhit =>
      simp only [Db.schema, htable, Option.map_some, hshape, hhit, if_true]
  | @evolved token token' table shape evolved htable hshape hmiss hevolve htoken =>
      have hcolumns := (evolveNative_spec (hwf _ _ htable).names hnames hevolve).columns_eq
      obtain ⟨htoken, -⟩ := Prod.mk.inj (Option.some.inj htoken)
      rw [evolveNative_alters hevolve] at htoken
      simp only [Db.schema, Db.evolved, htable, Option.map_some, hshape, hmiss, hcolumns,
        evolveNative_alters hevolve, Bool.false_eq_true, if_false, htoken]

/-- **One ingest** takes the schema step of its columns. -/
theorem Ingested.schema_eq {stats : RawIngestStats} (h : Ingested env parsed db db' stats)
    (hwf : db.WF) (hnames : CiDistinct parsed.columns) :
    db'.schema = db.schema.step env.duck parsed.columns := by
  cases h with
  | skipped hnil => rw [TableSchema.step, if_pos (List.isEmpty_iff.mpr hnil)]
  | @appended ready created added widened token table layout new hcols houtcome htable _ _ _ _ =>
      rw [← houtcome.schema_eq hwf hnames hcols]
      simp only [Db.schema, Db.appended, htable, Option.map_some]

/-- **A run of ingests** takes the schema steps of its payloads. -/
theorem ingestPayloads_schema (ps : List (ProcessedPayload env.duck)) (hwf : db.WF)
    {answers : List RawIngestStats}
    (h : ingestPayloads env (ps.map (·.toRawParsedPayload)) db = .ok answers db') :
    db'.schema = db.schema.steps env.duck (ps.map (·.columns)) := by
  induction ps generalizing db answers with
  | nil =>
      cases h
      rfl
  | cons p ps ih =>
      obtain ⟨stats, middle, others, hone, hrest, rfl⟩ := ingestPayloads_cons_ok h
      have hingested := rawIngestParsedPayload_ok hwf p.ciDistinct p.rows_ne_nil hone
      rw [ih (rawIngestParsedPayload_rowCount p hwf hone).1 hrest,
        hingested.schema_eq hwf p.ciDistinct]
      rfl

end

end RawDuck
