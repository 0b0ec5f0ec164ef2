import RawDuck.Ingestor
import RawDuck.Records

/-!
# RawDuck.Fallback

The SQL fallback of the ingestor, for catalogs that are not native: a batch is
one transaction of schema statements and an `INSERT` that selects from
`raw_records`, on a connection of its own.

* `fallbackPlan` — the statements that make a table ready for a batch;
* `fallbackBatch` — the transaction, committed or rolled back as a whole;
* `ingestFallback` — with the second attempt for catalogs that cannot rewrite a
  column;
* `ingestFallbackParsed_leaves` — a batch that raises leaves the catalog as it
  was;
* `ingestFallbackParsed_raises_iff` — and the batches that raise are those the
  catalog refuses.
-/

namespace RawDuck

open Fallible

/-! ## statements -/

/-- How `FallbackBatch` selects a column. -/
inductive SelectExpr where
  | column
  /-- `to_json(column)` -/
  | toJson
  /-- `to_json(column)::type` -/
  | toJsonCast (type : LogicalType)
  deriving DecidableEq

/-- The statements of `FallbackBatch`, on the target table. -/
inductive FallbackStatement where
  | createTable (columns : List (Bytes × LogicalType))
  | addColumn (name : Bytes) (type : LogicalType)
  /-- `SET DATA TYPE`, with `USING to_json(name)` when the column is rewritten. -/
  | alterType (name : Bytes) (type : LogicalType) (usingToJson : Bool)
  /-- `INSERT INTO … SELECT … FROM raw_records(text)`, by column. -/
  | insertSelect (columns : List (Bytes × SelectExpr)) (text : Bytes)
  deriving DecidableEq

/-- A catalog the fallback writes to: `ω` is its committed state or the state of
an open transaction. -/
structure FallbackCatalog (ω : Type) where
  target : Bytes
  /-- `SELECT * FROM target LIMIT 0`: the columns, or the text of the error. -/
  probe : ω → Except Bytes (List (Bytes × LogicalType))
  /-- `RunQuery` of a statement in a transaction, with the number of rows. -/
  run : ω → FallbackStatement → Except RawError (ω × Nat)
  /-- `COMMIT`. -/
  commit : ω → Except RawError ω
  /-- `GetStorage` of a table that is not a native one. -/
  storageError : RawError

/-! ## the plan of a batch -/

/-- The type of a name in a `case_insensitive_map_t`. -/
def typeIn (types : List (Bytes × LogicalType)) (name : Bytes) : Option LogicalType :=
  (types.find? fun entry => ciEq entry.1 name).map Prod.snd

/-- Assigning to a `case_insensitive_map_t`. -/
def assignType (types : List (Bytes × LogicalType)) (column : Bytes × LogicalType) :
    List (Bytes × LogicalType) :=
  if types.any fun entry => ciEq entry.1 column.1 then
    types.map fun entry => if ciEq entry.1 column.1 then (entry.1, column.2) else entry
  else types ++ [column]

/-- What a batch does to the schema: `statements`, `final_types` and the
counters of the batch. -/
structure FallbackPlan where
  statements : List FallbackStatement
  finalTypes : List LogicalType
  creates : Bool
  added : Nat
  widened : Nat

/-- One turn of the column loop of `FallbackBatch`, for a table that exists. -/
def fallbackColumn (types : List (Bytes × LogicalType)) (allowJsonWidening : Bool)
    (plan : FallbackPlan) (column : RawColumn) : FallbackPlan :=
  match typeIn types column.name with
  | none =>
      { plan with
        statements := plan.statements ++ [.addColumn column.name column.type]
        finalTypes := plan.finalTypes ++ [column.type]
        added := plan.added + 1 }
  | some existing =>
      let targetType := joinColumnTypes existing column.type
      let needsRewrite := isRawJSONType targetType && !isRawJSONType existing
      if targetType = existing then { plan with finalTypes := plan.finalTypes ++ [targetType] }
      else if needsRewrite && !allowJsonWidening then
        { plan with finalTypes := plan.finalTypes ++ [existing] }
      else
        { plan with
          statements := plan.statements ++ [.alterType column.name targetType needsRewrite]
          finalTypes := plan.finalTypes ++ [targetType]
          widened := plan.widened + 1 }

/-- The first part of `FallbackBatch`. -/
def fallbackPlan (tableExists : Bool) (types : List (Bytes × LogicalType))
    (allowJsonWidening : Bool) (columns : List RawColumn) : FallbackPlan :=
  if !tableExists then
    { statements := [.createTable (columns.map fun c => (c.name, c.type))]
      finalTypes := columns.map RawColumn.type
      creates := true
      added := columns.length
      widened := 0 }
  else
    columns.foldl (fallbackColumn types allowJsonWidening)
      { statements := [], finalTypes := [], creates := false, added := 0, widened := 0 }

/-- A list type. -/
def isList : LogicalType → Bool
  | .list _ => true
  | .plain _ _ => false

/-- How a column of a batch is selected into a column of the table. -/
def selectExpr (finalType incoming : LogicalType) : SelectExpr :=
  if isRawJSONType finalType && !isRawJSONType incoming then .toJson
  -- degraded widening: structural values as JSON text, cast to the existing type
  else if !isRawJSONType finalType && (isRawJSONType incoming || isList incoming) &&
      finalType ≠ incoming then .toJsonCast finalType
  else .column

/-- The `INSERT` of a batch. -/
def fallbackInsert (columns : List RawColumn) (finalTypes : List LogicalType) (text : Bytes) :
    FallbackStatement :=
  .insertSelect
    (columns.zipWith (fun c finalType => (c.name, selectExpr finalType c.type)) finalTypes) text

/-! ## the ingestor -/

/-- `RawIngestor` over another catalog.  `commits` counts the transactions that
were committed. -/
structure FallbackRun (ω : Type) where
  world : ω
  connected : Bool
  tableExists : Bool
  types : List (Bytes × LogicalType)
  created : Bool
  columnsAdded : Nat
  columnsWidened : Nat
  rows : Nat
  errors : Nat
  commits : Nat

/-- A new ingestor. -/
def FallbackRun.start {ω : Type} (world : ω) : FallbackRun ω where
  world := world
  connected := false
  tableExists := false
  types := []
  created := false
  columnsAdded := 0
  columnsWidened := 0
  rows := 0
  errors := 0
  commits := 0

/-- A step of the ingestor. -/
abbrev FallbackIngest (ω : Type) := EStateM RawError (FallbackRun ω)

variable {ω : Type} (cat : FallbackCatalog ω)

/-- The error of a target that cannot be described. -/
def describeError (error : Bytes) : RawError :=
  { kind := .invalidInput
    message := bytes "RawDuck: cannot describe " ++ cat.target ++ bytes ": " ++ error }

/-- The error of a first payload without columns. -/
def emptyFallbackError : RawError :=
  { kind := .invalidInput
    message := bytes "RawDuck: cannot create table " ++ cat.target ++
      bytes " from an empty payload" }

/-- `StringUtil::Contains`. -/
def contains (text part : Bytes) : Bool := text.tails.any fun rest => part.isPrefixOf rest

/-- `EnsureFallbackConnection`. -/
def ensureFallbackConnection : FallbackIngest ω Unit := do
  let s ← get
  if s.connected then return
  else match cat.probe s.world with
    | .error error => do
        set { s with connected := true, tableExists := false }
        if contains error (bytes "does not exist") || contains error (bytes "not found") then return
        else throw (describeError cat error)
    | .ok columns =>
        set { s with
          connected := true
          tableExists := true
          types := columns.foldl assignType s.types }

/-- The transaction of a batch, from `BEGIN TRANSACTION` on: the committed state
and the rows inserted.  What raises is rolled back. -/
def fallbackTransaction (world : ω) (plan : FallbackPlan) (insert : Option FallbackStatement) :
    Except RawError (ω × Nat) := do
  let evolved ← plan.statements.foldlM (fun world statement => do
    let (world, _) ← cat.run world statement
    return world) world
  let (inserted, rows) ← match insert with
    | none => .ok (evolved, 0)
    | some statement => cat.run evolved statement
  let committed ← cat.commit inserted
  return (committed, rows)

/-- `FallbackBatch`. -/
def fallbackBatch (parsed : RawParsedPayload) (text : Bytes) (allowJsonWidening : Bool) :
    FallbackIngest ω Unit := do
  let s ← get
  let plan := fallbackPlan s.tableExists s.types allowJsonWidening parsed.columns
  let insert := if parsed.payload.rows.isEmpty then none
    else some (fallbackInsert parsed.columns plan.finalTypes text)
  let (world, rows) ← fromExcept (fallbackTransaction cat s.world plan insert)
  set { s with
    world := world
    tableExists := true
    types := (parsed.columns.zipWith (fun (c : RawColumn) type => (c.name, type))
        plan.finalTypes).foldl
      assignType s.types
    created := s.created || plan.creates
    columnsAdded := s.columnsAdded + plan.added
    columnsWidened := s.columnsWidened + plan.widened
    rows := s.rows + rows
    commits := s.commits + 1 }

/-- `IngestFallback`. -/
def ingestFallback (parsed : RawParsedPayload) (text : Bytes) : FallbackIngest ω Unit := do
  ensureFallbackConnection cat
  let s ← get
  if !s.tableExists && parsed.columns.isEmpty then throw (emptyFallbackError cat)
  else if parsed.columns.isEmpty then return
  else
    tryCatch (fallbackBatch cat parsed text true) fun error =>
      if contains error.message (bytes "cannot be modified using an expression") then
        fallbackBatch cat parsed text false
      else throw error

/-- `IngestParsed` of an ingestor over another catalog. -/
def ingestFallbackParsed (parsed : RawParsedPayload) (text : Bytes) : FallbackIngest ω Unit := do
  modify fun s => { s with errors := s.errors + parsed.payload.parseErrors }
  ingestFallback cat parsed text

/-! ## what a batch leaves -/

/-- Nothing was committed in between. -/
def FallbackRun.Same (s t : FallbackRun ω) : Prop := t.commits = s.commits ∧ t.world = s.world

/-- At most one transaction was committed in between; the catalog changed only
if one was. -/
def FallbackRun.Moved (s t : FallbackRun ω) : Prop := s.Same t ∨ t.commits = s.commits + 1

variable {cat} {s : FallbackRun ω} {parsed : RawParsedPayload} {text : Bytes}

theorem FallbackRun.Same.refl (s : FallbackRun ω) : s.Same s := ⟨rfl, rfl⟩

theorem FallbackRun.Same.trans {s t u : FallbackRun ω} (h : s.Same t) (h' : t.Same u) :
    s.Same u := ⟨h'.1.trans h.1, h'.2.trans h.2⟩

theorem FallbackRun.Same.moved {s t u : FallbackRun ω} (h : s.Same t) (h' : t.Moved u) :
    s.Moved u := by
  cases h' with
  | inl h' => exact .inl (h.trans h')
  | inr h' => exact .inr (h'.trans (congrArg (· + 1) h.1))

/-- Connecting commits nothing. -/
theorem ensureFallbackConnection_leaves (s : FallbackRun ω) :
    Leaves (ensureFallbackConnection cat) s (fun _ t => s.Same t) s.Same := by
  apply Leaves.get_bind
  split
  · exact .pure (.refl s)
  · split
    · refine .bind (fun _ t => s.Same t) (.set ⟨rfl, rfl⟩) fun _ t hsame => ?_
      split
      · exact .pure hsame
      · exact .throw hsame
    · exact .set ⟨rfl, rfl⟩

/-- A batch is committed, or it raises and nothing is. -/
theorem fallbackBatch_leaves (s : FallbackRun ω) (allowJsonWidening : Bool) :
    Leaves (fallbackBatch cat parsed text allowJsonWidening) s
      (fun _ t => t.commits = s.commits + 1) s.Same := by
  apply Leaves.get_bind
  refine .bind (fun _ t => t = s) (.fromExcept (fun _ _ => rfl) (.refl s)) ?_
  rintro ⟨world, rows⟩ t rfl
  exact .set rfl

/-- The two attempts of `IngestFallback` are one batch. -/
theorem fallbackAttempts_leaves (s : FallbackRun ω) :
    Leaves (MonadExcept.tryCatch (fallbackBatch cat parsed text true) fun error =>
        if contains error.message (bytes "cannot be modified using an expression") then
          fallbackBatch cat parsed text false
        else throw error) s
      (fun _ t => t.commits = s.commits + 1) s.Same := by
  refine .tryCatch s.Same (fallbackBatch_leaves s true) fun error t hsame => ?_
  split
  · refine (fallbackBatch_leaves t false).mono (fun _ u hu => ?_) fun u hu => hsame.trans hu
    rw [hu, hsame.1]
  · exact .throw hsame

/-- **A batch that raises** leaves the catalog as it was, and one that does not
raise commits at most one transaction. -/
theorem ingestFallbackParsed_leaves (s : FallbackRun ω) :
    Leaves (ingestFallbackParsed cat parsed text) s (fun _ t => s.Moved t) s.Same := by
  refine .bind (fun _ t => s.Same t) (.modify ⟨rfl, rfl⟩) fun _ t hcounted => ?_
  refine .bind (fun _ u => s.Same u) ?_ fun _ u hconnected => ?_
  · exact (ensureFallbackConnection_leaves t).mono (fun _ _ => hcounted.trans)
      fun _ => hcounted.trans
  · apply Leaves.get_bind
    split
    · exact .throw hconnected
    · split
      · exact .pure (.inl hconnected)
      · exact (fallbackAttempts_leaves u).mono (fun _ v hv => hconnected.moved (.inr hv))
          fun v hv => hconnected.trans hv

/-! ## the batches a catalog refuses -/

variable (cat) in
/-- What the ingestor knows of the target when it turns to a batch: whether the
table exists, and the types of its columns. -/
def knownTarget (s : FallbackRun ω) : Except RawError (Bool × List (Bytes × LogicalType)) :=
  if s.connected then .ok (s.tableExists, s.types)
  else match cat.probe s.world with
    | .error error =>
        if contains error (bytes "does not exist") || contains error (bytes "not found") then
          .ok (false, s.types)
        else .error (describeError cat error)
    | .ok columns => .ok (true, columns.foldl assignType s.types)

variable (cat) in
/-- The statements of a batch, from the `BEGIN` to the `COMMIT`. -/
def batchTransaction (world : ω) (known : Bool × List (Bytes × LogicalType))
    (parsed : RawParsedPayload) (text : Bytes) (allowJsonWidening : Bool) :
    Except RawError (ω × Nat) :=
  let plan := fallbackPlan known.1 known.2 allowJsonWidening parsed.columns
  fallbackTransaction cat world plan <|
    if parsed.payload.rows.isEmpty then none
    else some (fallbackInsert parsed.columns plan.finalTypes text)

variable (cat) in
/-- The catalog refuses a batch: the target cannot be described, or there is no
table and the batch has no columns to create it with, or a statement of the
batch fails and, if the error asks for a second attempt, one of that too. -/
def RefusesBatch (s : FallbackRun ω) (parsed : RawParsedPayload) (text : Bytes) : Prop :=
  (∃ e, knownTarget cat s = .error e) ∨
  ∃ known, knownTarget cat s = .ok known ∧
    if parsed.columns.isEmpty then known.1 = false
    else ∃ e, batchTransaction cat s.world known parsed text true = .error e ∧
      (contains e.message (bytes "cannot be modified using an expression") = true →
        ∃ e', batchTransaction cat s.world known parsed text false = .error e')

/-- An ingestor that knows the target. -/
def FallbackRun.knowing (s : FallbackRun ω) (known : Bool × List (Bytes × LogicalType)) :
    FallbackRun ω :=
  { s with connected := true, tableExists := known.1, types := known.2 }

/-- Connecting finds out what there is to know, or raises. -/
theorem ensureFallbackConnection_run (s : FallbackRun ω) :
    (∀ e, knownTarget cat s = .error e → ∃ t, ensureFallbackConnection cat s = .error e t) ∧
    (∀ known, knownTarget cat s = .ok known →
      ensureFallbackConnection cat s = .ok ⟨⟩ (s.knowing known)) := by
  rw [knownTarget, ensureFallbackConnection, run_get_bind]
  cases hconnected : s.connected with
  | true =>
      refine ⟨fun e he => (nomatch he), fun known hknown => ?_⟩
      obtain rfl := Except.ok.inj hknown
      obtain ⟨⟩ := s
      cases hconnected
      rfl
  | false =>
      cases cat.probe s.world with
      | ok columns =>
          refine ⟨fun e he => (nomatch he), fun known hknown => ?_⟩
          obtain rfl := Except.ok.inj hknown
          rfl
      | error error =>
          simp only [Bool.false_eq_true, if_false]
          by_cases habsent : (contains error (bytes "does not exist") ||
              contains error (bytes "not found")) = true
          · rw [if_pos habsent]
            refine ⟨fun e he => (nomatch he), fun known hknown => ?_⟩
            obtain rfl := Except.ok.inj hknown
            refine (run_bind_of_ok rfl).trans ?_
            rw [if_pos habsent]
            rfl
          · rw [if_neg habsent]
            refine ⟨fun e he => ?_, fun known hknown => (nomatch hknown)⟩
            obtain rfl := Except.error.inj he
            refine ⟨s.knowing (false, s.types), (run_bind_of_ok rfl).trans ?_⟩
            rw [if_neg habsent]
            rfl

/-- The first or second attempt of a batch goes the way of its transaction. -/
theorem fallbackBatch_run (s : FallbackRun ω) (allowJsonWidening : Bool) :
    (∀ e, batchTransaction cat s.world (s.tableExists, s.types) parsed text allowJsonWidening =
        .error e → fallbackBatch cat parsed text allowJsonWidening s = .error e s) ∧
    (∀ r, batchTransaction cat s.world (s.tableExists, s.types) parsed text allowJsonWidening =
        .ok r → ∃ t, fallbackBatch cat parsed text allowJsonWidening s = .ok ⟨⟩ t) := by
  rw [fallbackBatch, run_get_bind]
  constructor
  · intro e he
    exact run_bind_of_error (run_fromExcept_of_error he)
  · intro r hr
    exact ⟨_, run_bind_of_ok (run_fromExcept_of_ok hr)⟩

theorem ingestFallback_raises_iff (s : FallbackRun ω) :
    (∃ e t, ingestFallback cat parsed text s = .error e t) ↔ RefusesBatch cat s parsed text := by
  obtain ⟨herror, hok⟩ := @ensureFallbackConnection_run _ cat s
  rw [iff_comm, RefusesBatch, ingestFallback]
  cases hknown : knownTarget cat s with
  | error e =>
      obtain ⟨t, hrun⟩ := herror e hknown
      rw [run_bind_of_error hrun]
      exact ⟨fun _ => ⟨e, t, rfl⟩, fun _ => .inl ⟨e, rfl⟩⟩
  | ok known =>
      rw [run_bind_of_ok (hok known hknown), run_get_bind]
      have hexists : (s.knowing known).tableExists = known.1 := rfl
      simp only [reduceCtorEq, exists_false, Except.ok.injEq, exists_eq_left', false_or, hexists]
      cases hcolumns : parsed.columns.isEmpty with
      | true =>
          cases hknown1 : known.1 with
          | false => exact ⟨fun _ => ⟨_, _, rfl⟩, fun _ => rfl⟩
          | true =>
              refine ⟨fun h => (nomatch h), ?_⟩
              rintro ⟨e, t, ⟨⟩⟩
      | false =>
          have hfirst := @fallbackBatch_run _ cat parsed text (s.knowing known) true
          have hsecond := @fallbackBatch_run _ cat parsed text (s.knowing known) false
          simp only [Bool.and_false, Bool.false_eq_true, if_false]
          cases hrun : batchTransaction cat s.world known parsed text true with
          | ok r =>
              obtain ⟨t, ht⟩ := hfirst.2 r hrun
              rw [run_tryCatch_of_ok ht]
              simp
          | error e =>
              rw [run_tryCatch_of_error (hfirst.1 e hrun)]
              simp only [Except.error.injEq, exists_eq_left']
              split
              · next hretry =>
                cases hrun' : batchTransaction cat s.world known parsed text false with
                | ok r =>
                    obtain ⟨t, ht⟩ := hsecond.2 r hrun'
                    simp [hretry, ht]
                | error e' => simp [hretry, hsecond.1 e' hrun']
              · next hretry => exact ⟨fun _ => ⟨_, _, rfl⟩, fun _ h => absurd h hretry⟩

/-- **Refused batches**: an ingest raises exactly where the catalog refuses the
batch. -/
theorem ingestFallbackParsed_raises_iff (s : FallbackRun ω) :
    (∃ e t, ingestFallbackParsed cat parsed text s = .error e t) ↔
      RefusesBatch cat s parsed text := by
  have hcounted : ingestFallbackParsed cat parsed text s = ingestFallback cat parsed text
      { s with errors := s.errors + parsed.payload.parseErrors } := run_bind_of_ok rfl
  rw [hcounted]
  exact ingestFallback_raises_iff _

/-- Without columns there is nothing to commit. -/
theorem ingestFallbackParsed_of_no_columns (hcolumns : parsed.columns = []) (s : FallbackRun ω) :
    Leaves (ingestFallbackParsed cat parsed text) s (fun _ t => s.Same t) s.Same := by
  refine .bind (fun _ t => s.Same t) (.modify ⟨rfl, rfl⟩) fun _ t hcounted => ?_
  refine .bind (fun _ u => s.Same u) ?_ fun _ u hconnected => ?_
  · exact (ensureFallbackConnection_leaves t).mono (fun _ _ => hcounted.trans)
      fun _ => hcounted.trans
  · apply Leaves.get_bind
    split
    · exact .throw hconnected
    · rw [if_pos (List.isEmpty_iff.mpr hcolumns)]
      exact .pure hconnected

end RawDuck
