import RawDuck.Naming
import RawDuck.Accept

/-!
# RawDuck.Signature

When the shape signature of a payload can be computed.  `HashPayloadShape` converts
every `char` of every column name to an unsigned number, which raises for a negative
one; a column name is made of the keys on its path, of dots, underscores and digits.

* `isHashable_dottedName`, `isHashable_candidate` — the characters of a name are those
  of its keys, and ASCII;
* `hashPayloadShape_process_iff` — the signature is there exactly when the keys are
  ASCII, and otherwise the payload cannot be ingested into its table.
-/

namespace RawDuck

open Fallible

/-! ## the characters of a name -/

@[simp] theorem isHashable_append (a b : Bytes) :
    isHashable (a ++ b) = (isHashable a && isHashable b) := by
  simp [isHashable]

theorem isHashable_columnName (dotted name : Bytes) :
    isHashable (columnName dotted name) = (isHashable dotted && isHashable name) := by
  unfold columnName
  cases dotted with
  | nil => rfl
  | cons c rest =>
      have hdot : isHashable (bytes ".") = true := by decide
      rw [List.isEmpty_cons, if_neg Bool.false_ne_true]
      rw [isHashable_append, isHashable_append, hdot, Bool.and_true]

/-- The characters of a dotted name are those of the keys. -/
theorem isHashable_dottedName (path : List Bytes) :
    isHashable (dottedName path) = path.all isHashable := by
  have hfold : ∀ dotted, isHashable (path.foldl columnName dotted) =
      (isHashable dotted && path.all isHashable) := by
    induction path with
    | nil => simp
    | cons name path ih =>
        intro dotted
        rw [List.foldl_cons, ih, isHashable_columnName, List.all_cons, Bool.and_assoc]
  exact hfold []

theorem isHashable_decimal (n : Nat) : isHashable (decimal n) = true := by
  unfold decimal
  split
  · rfl
  · have hdigit : ∀ d < 10, isNegativeChar (48 + Nat.toUInt8 d) = false := by decide
    rw [isHashable, List.all_eq_true]
    intro c hc
    obtain ⟨d, hd, rfl⟩ := List.mem_map.mp hc
    have hlt : d < 10 := Nat.digits_lt_base (by omega) (List.mem_reverse.mp hd)
    rw [hdigit d hlt]
    rfl

/-- A suffix is ASCII. -/
theorem isHashable_candidate (base : Bytes) (k : Nat) :
    isHashable (candidate base k) = isHashable base := by
  cases k with
  | zero => rfl
  | succ k =>
      have hunderscore : isHashable (bytes "_") = true := by decide
      simp [candidate, hunderscore, isHashable_decimal]

/-- The characters of a column name are those of the keys on its path. -/
theorem isHashable_flattenSchema {root : RawNode} {scalarRows : Bool} {columns : List RawColumn}
    (h : flattenSchema root scalarRows = .ok columns) {c : RawColumn} (hc : c ∈ columns) :
    isHashable c.name = c.path.all isHashable := by
  rcases flattenSchema_cases h with ⟨-, rfl⟩ | rfl | ⟨cs, lk, -, -, rfl⟩
  · exact nomatch hc
  · obtain rfl := List.mem_singleton.mp hc
    have hvalue : isHashable (bytes "value") = true := by decide
    exact hvalue
  · obtain ⟨before, after, hsplit⟩ := List.append_of_mem hc
    obtain ⟨base, k, hbase, hpath, hname, -⟩ := disambiguate_names hsplit
    have hdotted : base.name = dottedName base.path := @flattenInto_name _ [] _ _ _ hbase
    rw [hname, isHashable_candidate, hdotted, isHashable_dottedName, hpath]

/-! ## the signature -/

/-- Every key that takes part in a column name is ASCII. -/
def AsciiKeys (columns : List RawColumn) : Prop :=
  ∀ c ∈ columns, ∀ key ∈ c.path, isHashable key = true

theorem ProcessedPayload.hashPayloadShape_iff {duck : Duck} (p : ProcessedPayload duck) :
    (∃ shape, hashPayloadShape duck p.columns = .ok shape) ↔ AsciiKeys p.columns := by
  have hkeys : AsciiKeys p.columns ↔ ∀ c ∈ p.columns, isHashable c.name = true := by
    refine forall₂_congr fun c hc => ?_
    rw [isHashable_flattenSchema p.columns_eq hc, List.all_eq_true]
  rw [hkeys]
  constructor
  · rintro ⟨shape, hshape⟩
    exact (hashPayloadShape_eq_ok.mp hshape).1
  · intro h
    exact ⟨_, hashPayloadShape_eq_ok.mpr ⟨h, rfl⟩⟩

/-- Without a signature the table of the payload takes no ingest of it. -/
theorem ingestedTable_of_not_hashable {env : NativeEnv} {parsed : RawParsedPayload} {db : Db}
    {token : Nat} {table : Table} (htable : db.table = some (token, table))
    (hcols : parsed.columns ≠ [])
    (h : hashPayloadShape env.duck parsed.columns = .error numericCastError) :
    ingestedTable env parsed db = .error numericCastError := by
  have hempty : parsed.columns.isEmpty = false := by simpa using hcols
  rw [ingestedTable, hempty, readyTable, htable]
  simp only [h]
  rfl

/-- **The shape signature of a payload** that `Process` accepts is computed exactly when
the keys its column names are made of are ASCII; otherwise each ingest of it into its
table raises. -/
theorem hashPayloadShape_process_iff (env : NativeEnv) {options : RawParseOptions} {text : Bytes}
    {parsed : RawParsedPayload} (h : process env.duck options text = .ok parsed) :
    ((∃ shape, hashPayloadShape env.duck parsed.columns = .ok shape) ↔
      AsciiKeys parsed.columns) ∧
    (¬ AsciiKeys parsed.columns → ∀ db, db.table.isSome = true →
      ∃ db', rawIngestParsedPayload env parsed db = .error numericCastError db') := by
  obtain ⟨p, rfl⟩ := process_spec h
  refine ⟨p.hashPayloadShape_iff, fun hkeys db htable => ?_⟩
  obtain ⟨⟨token, table⟩, htable⟩ := Option.isSome_iff_exists.mp htable
  have hcols : p.columns ≠ [] := by
    intro hnil
    rw [hnil] at hkeys
    exact hkeys fun _ hc => nomatch hc
  have hraises : hashPayloadShape env.duck p.columns = .error numericCastError := by
    rw [hashPayloadShape_eq]
    refine if_neg fun hall => hkeys (p.hashPayloadShape_iff.mp ?_)
    exact ⟨_, (hashPayloadShape_eq env.duck p.columns).trans (if_pos hall)⟩
  have hagrees : Agrees env p.toRawParsedPayload db
      (rawIngestParsedPayload env p.toRawParsedPayload db)
      (ingestedTable env p.toRawParsedPayload db) := rawIngestParsedPayload_agrees db
  rw [ingestedTable_of_not_hashable htable hcols hraises] at hagrees
  generalize rawIngestParsedPayload env p.toRawParsedPayload db = result at hagrees
  cases hagrees with
  | refused => exact ⟨_, rfl⟩
  | rowsRefused => exact ⟨_, rfl⟩

/-- `{"a":1}`. -/
def asciiText : Bytes := bytes "\x7b\"a\":1\x7d"

/-- `{"é":1}`, in UTF-8. -/
def accentText : Bytes := bytes "\x7b\"" ++ [195, 169] ++ bytes "\":1\x7d"

/-- A DuckDB that reads these two texts. -/
def accentEnv : NativeEnv :=
  { smallEnv with
    duck := { smallDuck with
      yyjsonRead := fun text =>
        if text = asciiText then some (.obj [(bytes "a", .uint 1)])
        else if text = accentText then some (.obj [([195, 169], .uint 1)])
        else none } }

/-- What is made of the second one. -/
def accentParsed : RawParsedPayload where
  payload := { rows := [.obj [([195, 169], .uint 1)]], scalarRows := false, parseErrors := 0 }
  root := inferSchema accentEnv.duck [.obj [([195, 169], .uint 1)]]
  columns := [{ name := [195, 169], path := [[195, 169]], type := .BIGINT, node := [0] }]

/-- A table without rows that has its column. -/
def accentDb : Db where
  table := some (0, {
    columns := [{ name := [195, 169], type := .BIGINT, generated := false }]
    rows := []
    hasIndexes := false
    constraints := [] })
  nextToken := 1
  cache := none

theorem not_asciiKeys_accent : ¬ AsciiKeys accentParsed.columns := by
  intro h
  have hkey := h _ List.mem_cons_self [195, 169] List.mem_cons_self
  exact absurd hkey (by decide)

/-- The two texts: the first has a signature, the second is not ingested. -/
theorem hashPayloadShape_process_two :
    (∃ parsed, process accentEnv.duck {} asciiText = .ok parsed ∧
      ∃ shape, hashPayloadShape accentEnv.duck parsed.columns = .ok shape) ∧
    process accentEnv.duck {} accentText = .ok accentParsed ∧
    ∃ db', rawIngestParsedPayload accentEnv accentParsed accentDb =
      .error numericCastError db' := by
  constructor
  · have hprocess : process accentEnv.duck {} asciiText = .ok _ := rfl
    refine ⟨_, hprocess, (hashPayloadShape_process_iff accentEnv hprocess).1.mpr fun c hc => ?_⟩
    obtain rfl := List.mem_singleton.mp hc
    decide
  · have hprocess : process accentEnv.duck {} accentText = .ok accentParsed := rfl
    have hraises := (hashPayloadShape_process_iff accentEnv hprocess).2 not_asciiKeys_accent
    exact ⟨hprocess, hraises accentDb rfl⟩

/-- The payload `{"é":1}` is accepted, and its signature raises. -/
theorem hashPayloadShape_raises :
    ¬ ∀ options text parsed, process accentEnv.duck options text = .ok parsed →
      ∃ shape, hashPayloadShape accentEnv.duck parsed.columns = .ok shape := by
  intro h
  obtain ⟨shape, hshape⟩ := h {} accentText accentParsed rfl
  exact nomatch hshape

end RawDuck
