import RawDuck.Explode
import RawDuck.Extract
import RawDuck.Vector
import Mathlib.Data.List.Basic

/-!
# RawDuck.Payload

Parsed payloads: reading the text, the uniformity check, the inferred schema,
the shape signature the caches are keyed by, and the merge of two payloads.

* `process` — `RawParsedPayload::Process`;
* `ProcessedPayload` — a payload whose tree and columns are those of its own
  rows, as `process` makes it (`process_spec`) and as `mergeParsedPayloads`
  does not keep it;
* `hashPayloadShape` — the signature, a fold over `shapeSequence`
  (`hashPayloadShape_eq_ok`).
-/

namespace RawDuck

open Fallible

/-- `RawPayload`: the row values and what parsing noted. -/
structure RawPayload where
  rows : List Json
  scalarRows : Bool
  parseErrors : Nat

/-- `RawParsedPayload`. -/
structure RawParsedPayload where
  payload : RawPayload
  root : RawNode
  columns : List RawColumn

/-- `RawParseOptions`. -/
structure RawParseOptions where
  ignoreErrors : Bool := false
  explodePath : List Bytes := []
  otlp : Bool := false
  deriving DecidableEq, Repr

/-! ## parsing -/

/-- `CollectRows`. -/
def collectRows : Json → List Json
  | .arr elements => elements
  | root => [root]

/-- The error of `CheckRowUniformity`. -/
def mixedRowsError : RawError :=
  { kind := .invalidInput
    message := bytes "RawDuck: payload mixes JSON objects with non-object values" }

/-- `CheckRowUniformity`: the answer is `scalar_rows`. -/
def checkRowUniformity (rows : List Json) : Except RawError Bool :=
  let objectRows := rows.countP Json.isObj
  if objectRows > 0 ∧ objectRows ≠ rows.length then .error mixedRowsError
  else .ok (!rows.isEmpty && objectRows == 0)

/-- `StringUtil::CharacterIsSpace`. -/
def characterIsSpace (c : UInt8) : Bool :=
  c == 32 || c == 9 || c == 10 || c == 11 || c == 12 || c == 13

/-- A line with nothing but space characters. -/
def isBlank (line : Bytes) : Bool := line.all characterIsSpace

/-- The error of an unparseable NDJSON line. -/
def lineError (lineNumber : Nat) : RawError :=
  { kind := .invalidInput
    message := bytes s!"RawDuck: payload is not valid JSON or NDJSON (parse error on line {lineNumber})" }

/-- The line loop of `RawPayload::Parse`: the rows and the lines skipped. -/
def parseLines (duck : Duck) (options : RawParseOptions) :
    List Bytes → (lineNumber : Nat) → Except RawError (List Json × Nat)
  | [], _ => .ok ([], 0)
  | line :: rest, lineNumber =>
      if isBlank line then parseLines duck options rest (lineNumber + 1)
      else match duck.yyjsonRead line with
        | some row => do
            let (rows, parseErrors) ← parseLines duck options rest (lineNumber + 1)
            return (row :: rows, parseErrors)
        | none =>
            if options.ignoreErrors then do
              let (rows, parseErrors) ← parseLines duck options rest (lineNumber + 1)
              return (rows, parseErrors + 1)
            else .error (lineError lineNumber)

/-- The lines of a text: what lies between its newline characters. -/
def lines (text : Bytes) : List Bytes := text.splitOn 10

/-- The reading part of `RawPayload::Parse`: one JSON document, or one document
a line. -/
def readRows (duck : Duck) (options : RawParseOptions) (text : Bytes) :
    Except RawError (List Json × Nat) :=
  match duck.yyjsonRead text with
  | some root => .ok (collectRows root, 0)
  | none => parseLines duck options (lines text) 1

/-- The rest of `RawPayload::Parse`: the rows are checked, and exploded and
checked again when there is a path. -/
def checkedRows (duck : Duck) (options : RawParseOptions) (rows : List Json) :
    Except RawError (List Json × Bool) := do
  let scalarRows ← checkRowUniformity rows
  if options.explodePath.isEmpty then return (rows, scalarRows)
  else do
    let exploded := explode duck options.explodePath options.otlp rows
    let scalarRows ← checkRowUniformity exploded
    return (exploded, scalarRows)

/-- `RawPayload::Parse`. -/
def parse (duck : Duck) (options : RawParseOptions) (text : Bytes) :
    Except RawError RawPayload := do
  let (read, parseErrors) ← readRows duck options text
  let (rows, scalarRows) ← checkedRows duck options read
  return { rows, scalarRows, parseErrors }

/-- `RawParsedPayload::Process`. -/
def process (duck : Duck) (options : RawParseOptions) (text : Bytes) :
    Except RawError RawParsedPayload := do
  let payload ← parse duck options text
  let root := inferSchema duck payload.rows
  let columns ← flattenSchema root payload.scalarRows
  return { payload, root, columns }

/-! ## processed payloads -/

/-- A payload with the schema of its own rows. -/
structure ProcessedPayload (duck : Duck) extends RawParsedPayload where
  uniform : checkRowUniformity payload.rows = .ok payload.scalarRows
  root_eq : root = inferSchema duck payload.rows
  columns_eq : flattenSchema root payload.scalarRows = .ok columns

/-- The rows that pass are uniform. -/
theorem uniform_checkedRows {duck : Duck} {options : RawParseOptions} {read rows : List Json}
    {scalarRows : Bool} (h : checkedRows duck options read = .ok (rows, scalarRows)) :
    checkRowUniformity rows = .ok scalarRows := by
  obtain ⟨scalarRead, hread, h⟩ := bind_eq_ok.mp h
  split at h
  · obtain ⟨rfl, rfl⟩ := Prod.mk.inj (pure_eq_ok.mp h)
    exact hread
  · obtain ⟨scalarExploded, hexploded, h⟩ := bind_eq_ok.mp h
    obtain ⟨rfl, rfl⟩ := Prod.mk.inj (pure_eq_ok.mp h)
    exact hexploded

/-- What `Process` returns is a processed payload. -/
theorem process_spec {duck : Duck} {options : RawParseOptions} {text : Bytes}
    {parsed : RawParsedPayload} (h : process duck options text = .ok parsed) :
    ∃ p : ProcessedPayload duck, p.toRawParsedPayload = parsed := by
  obtain ⟨payload, hparse, h⟩ := bind_eq_ok.mp h
  obtain ⟨columns, hcolumns, h⟩ := bind_eq_ok.mp h
  obtain rfl := pure_eq_ok.mp h
  rw [parse] at hparse
  obtain ⟨⟨read, parseErrors⟩, -, hparse⟩ := bind_eq_ok.mp hparse
  obtain ⟨⟨rows, scalarRows⟩, hchecked, hparse⟩ := bind_eq_ok.mp hparse
  obtain rfl := pure_eq_ok.mp hparse
  exact ⟨⟨_, uniform_checkedRows hchecked, rfl, hcolumns⟩, rfl⟩

namespace ProcessedPayload

/-- The payload of these object rows. -/
def ofRows (duck : Duck) (rows : List Json) (columns : List RawColumn)
    (uniform : checkRowUniformity rows = .ok false)
    (columns_eq : flattenSchema (inferSchema duck rows) false = .ok columns) :
    ProcessedPayload duck where
  payload := { rows, scalarRows := false, parseErrors := 0 }
  root := inferSchema duck rows
  columns := columns
  uniform := uniform
  root_eq := rfl
  columns_eq := columns_eq

/-- The row `{"a": 1}` is an object, so rows like it are uniform. -/
theorem uniform_integerRow : checkRowUniformity [.obj [(bytes "a", .uint 1)]] = .ok false := rfl

variable {duck : Duck} (p : ProcessedPayload duck)

theorem wf_root : p.root.WF := p.root_eq ▸ wf_inferSchema duck p.payload.rows

theorem ciDistinct : CiDistinct p.columns := flattenSchema_names p.columns_eq

theorem inferable {c : RawColumn} (hc : c ∈ p.columns) : Inferable c.type :=
  flattenSchema_inferable p.columns_eq hc

/-- A column comes from some row. -/
theorem rows_ne_nil (h : p.columns ≠ []) : p.payload.rows ≠ [] := by
  intro hrows
  have hroot : p.root = .unset := by rw [p.root_eq, hrows]; rfl
  rcases flattenSchema_cases p.columns_eq with ⟨-, hc⟩ | hc | ⟨cs, lk, -, hroot', -⟩
  · exact h hc
  · have hok := p.columns_eq
    rw [hroot] at hok
    cases hs : p.payload.scalarRows <;> rw [hs] at hok <;> exact h (Except.ok.inj hok).symm
  · rw [hroot] at hroot'
    contradiction

/-- The slot of a column is the value at its path. -/
theorem extractRow_eq (row : Json) {j : Nat} {c : RawColumn} (hc : p.columns[j]? = some c) :
    extractRow p.root p.columns row j = row.valueAt c.path :=
  RawDuck.extractRow_eq p.wf_root p.columns_eq row hc

end ProcessedPayload

/-! ## the shape signature -/

/-- The error of a numeric cast out of range. -/
def numericCastError : RawError :=
  { kind := .internal
    message := bytes "Information loss on integer cast: value outside of target range" }

/-- `NumericCast<uint64_t>` of a `char`. -/
def numericCast (c : UInt8) : Except RawError UInt64 :=
  if isNegativeChar c then .error numericCastError else .ok c.toUInt64

/-- One step of the FNV fold. -/
def fnvStep (shape x : UInt64) : UInt64 := (shape ^^^ x) * 0x100000001b3

/-- The character loop of `HashPayloadShape`. -/
def hashName (shape : UInt64) (name : Bytes) : Except RawError UInt64 :=
  name.foldlM (fun shape c => do return fnvStep shape (← numericCast (characterToLower c))) shape

/-- `HashPayloadShape`. -/
def hashPayloadShape (duck : Duck) (columns : List RawColumn) : Except RawError UInt64 :=
  columns.foldlM
    (fun shape column => do
      return fnvStep (← hashName shape column.name) (duck.typeIdValue column.type))
    0xcbf29ce484222325

/-- The FNV fold of a sequence. -/
def fnvFold (shape : UInt64) (xs : List UInt64) : UInt64 := xs.foldl fnvStep shape

/-- What a column adds to the sequence the signature absorbs: the lower-case
characters of the name and the type id. -/
def columnSequence (duck : Duck) (column : RawColumn) : List UInt64 :=
  (lower column.name).map UInt8.toUInt64 ++ [duck.typeIdValue column.type]

/-- The sequence of characters and type ids the signature absorbs. -/
def shapeSequence (duck : Duck) (columns : List RawColumn) : List UInt64 :=
  columns.flatMap (columnSequence duck)

/-- No byte of the name is a negative `char`. -/
def isHashable (name : Bytes) : Bool := name.all fun c => !isNegativeChar c

theorem fnvFold_append (shape : UInt64) (xs ys : List UInt64) :
    fnvFold shape (xs ++ ys) = fnvFold (fnvFold shape xs) ys := List.foldl_append

theorem shapeSequence_cons (duck : Duck) (column : RawColumn) (columns : List RawColumn) :
    shapeSequence duck (column :: columns) =
      columnSequence duck column ++ shapeSequence duck columns := List.flatMap_cons

theorem hashName_eq (shape : UInt64) (name : Bytes) :
    hashName shape name =
      if isHashable name then .ok (fnvFold shape ((lower name).map UInt8.toUInt64))
      else .error numericCastError := by
  induction name generalizing shape with
  | nil => rfl
  | cons c rest ih =>
      rw [hashName, List.foldlM_cons, numericCast, isNegativeChar_characterToLower]
      cases hc : isNegativeChar c with
      | true => simp [isHashable, hc]; rfl
      | false =>
          rw [isHashable, List.all_cons, hc]
          exact ih _

/-- The signature is the fold over the sequence; it is raised only for a name
with a negative `char`. -/
theorem hashPayloadShape_eq (duck : Duck) (columns : List RawColumn) :
    hashPayloadShape duck columns =
      if columns.all (fun c => isHashable c.name) then
        .ok (fnvFold 0xcbf29ce484222325 (shapeSequence duck columns))
      else .error numericCastError := by
  have hfold : ∀ (columns : List RawColumn) (shape : UInt64),
      columns.foldlM (fun shape column => do
        return fnvStep (← hashName shape column.name) (duck.typeIdValue column.type)) shape =
      if columns.all (fun c => isHashable c.name) then
        .ok (fnvFold shape (shapeSequence duck columns))
      else .error numericCastError := by
    intro columns
    induction columns with
    | nil => exact fun _ => rfl
    | cons c rest ih =>
        intro shape
        rw [List.foldlM_cons, hashName_eq, List.all_cons]
        cases hc : isHashable c.name with
        | false => rfl
        | true =>
            refine (ih _).trans ?_
            rw [Bool.true_and, shapeSequence_cons, fnvFold_append, columnSequence, fnvFold_append]
            rfl
  exact hfold columns _

theorem hashPayloadShape_eq_ok {duck : Duck} {columns : List RawColumn} {shape : UInt64} :
    hashPayloadShape duck columns = .ok shape ↔
      (∀ c ∈ columns, isHashable c.name = true) ∧
      fnvFold 0xcbf29ce484222325 (shapeSequence duck columns) = shape := by
  rw [hashPayloadShape_eq]
  by_cases h : columns.all (fun c => isHashable c.name) = true
  · rw [if_pos h, Except.ok.injEq]
    rw [List.all_eq_true] at h
    exact ⟨fun hs => ⟨h, hs⟩, fun hs => hs.2⟩
  · rw [if_neg h]
    rw [List.all_eq_true] at h
    constructor
    · exact fun hs => nomatch hs
    · exact fun hs => absurd hs.1 h

/-! ## merging -/

/-- `MergeParsedPayloads`: the rows of `from` join those of `into`, which keeps
its own tree and columns. -/
def mergeParsedPayloads (into source : RawParsedPayload) : RawParsedPayload :=
  { into with payload := { into.payload with rows := into.payload.rows ++ source.payload.rows } }

/-- The merges of a leader: every later payload into the first. -/
def mergeAll (first : RawParsedPayload) (rest : List RawParsedPayload) : RawParsedPayload :=
  rest.foldl mergeParsedPayloads first

theorem mergeAll_eq (first : RawParsedPayload) (rest : List RawParsedPayload) :
    mergeAll first rest =
      { first with payload := { first.payload with
          rows := first.payload.rows ++ rest.flatMap fun p => p.payload.rows } } := by
  induction rest generalizing first with
  | nil => simp [mergeAll]
  | cons p rest ih =>
      rw [mergeAll, List.foldl_cons, ← mergeAll, ih]
      simp [mergeParsedPayloads]

end RawDuck
