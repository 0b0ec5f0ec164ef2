import RawDuck.OrderedMap
import RawDuck.RemoteLane

/-!
# RawDuck.Transforms

The transforms users define: `raw_transform_define` puts them in a registry, a name in
the arguments of an ingestion is looked up there behind the built-in ones, and
`raw_transforms` lists both.

* `rawTransformDefine` — the function, row by row of a query;
* `definitions` — what the queries of a process have defined;
* `find?_defineAll` — a name finds its last definition;
* `transforms_of_history` — and the list shows exactly what names are resolved to.
-/

namespace RawDuck

open Fallible

/-! ## definitions -/

/-- `RawTransformRegistry::transforms`. -/
abbrev TransformRegistry := OrderedMap Bytes Bytes

/-- The error of an empty argument. -/
def emptyTransform : RawError where
  kind := .invalidInput
  message := bytes "RawDuck: transform name and explode path may not be empty"

/-- The error of a name that is taken. -/
def builtinTransform (name : Bytes) : RawError where
  kind := .invalidInput
  message := bytes "RawDuck: '" ++ name ++
    bytes "' is a built-in transform and cannot be redefined"

/-- `raw_transform_define` of one row; a NULL argument makes it NULL. -/
def rawTransformDefineRow (row : Option Bytes × Option Bytes) :
    EStateM RawError TransformRegistry (Option Bytes) :=
  match row with
  | (some name, some path) =>
      if name.isEmpty || path.isEmpty then throw emptyTransform
      else if (resolveBuiltinTransform name).isSome then throw (builtinTransform name)
      else do
        modify fun registry => registry.alter (lower name) fun _ => path
        return some name
  | _ => return none

/-- `RawTransformDefineFunction`: the rows of a query in turn, until one raises. -/
def rawTransformDefine (rows : List (Option Bytes × Option Bytes)) :
    EStateM RawError TransformRegistry (List (Option Bytes)) :=
  rows.mapM rawTransformDefineRow

/-- The registry a query leaves, whether it raises or not. -/
def TransformRegistry.define (registry : TransformRegistry)
    (rows : List (Option Bytes × Option Bytes)) : TransformRegistry :=
  match rawTransformDefine rows registry with
  | .ok _ registry => registry
  | .error _ registry => registry

/-- The registry of a process after its queries. -/
def defineAll (queries : List (List (Option Bytes × Option Bytes))) : TransformRegistry :=
  queries.foldl TransformRegistry.define .empty

/-! ## what is defined -/

/-- A definition is accepted. -/
def isDefinable (definition : Bytes × Bytes) : Bool :=
  !definition.1.isEmpty && !definition.2.isEmpty &&
    (resolveBuiltinTransform definition.1).isNone

/-- The rows of a query that have both arguments, up to the first that raises. -/
def definitionsOf (rows : List (Option Bytes × Option Bytes)) : List (Bytes × Bytes) :=
  (rows.filterMap fun row => row.1.bind fun name => row.2.map fun path => (name, path)).takeWhile
    isDefinable

/-- What queries define, in turn. -/
def definitions (queries : List (List (Option Bytes × Option Bytes))) : List (Bytes × Bytes) :=
  queries.flatMap definitionsOf

/-- The last definition of a name, in any spelling. -/
def lastDefinition (defined : List (Bytes × Bytes)) (name : Bytes) : Option Bytes :=
  (defined.reverse.find? fun definition => lower definition.1 = lower name).map Prod.snd

/-! ## the registry holds the last definitions -/

/-- A definition is put in. -/
def TransformRegistry.put (registry : TransformRegistry) (definition : Bytes × Bytes) :
    TransformRegistry :=
  registry.alter (lower definition.1) fun _ => definition.2

theorem rawTransformDefineRow_of_definable {name path : Bytes}
    (h : isDefinable (name, path) = true) (registry : TransformRegistry) :
    rawTransformDefineRow (some name, some path) registry =
      .ok (some name) (registry.put (name, path)) := by
  rw [isDefinable, Bool.and_eq_true, Bool.and_eq_true, Bool.not_eq_true', Bool.not_eq_true',
    Option.isNone_iff_eq_none] at h
  obtain ⟨⟨hname, hpath⟩, hbuiltin⟩ := h
  rw [rawTransformDefineRow, hname, hpath, hbuiltin]
  rfl

theorem rawTransformDefineRow_of_not {name path : Bytes}
    (h : isDefinable (name, path) = false) (registry : TransformRegistry) :
    ∃ e, rawTransformDefineRow (some name, some path) registry = .error e registry := by
  rw [rawTransformDefineRow]
  by_cases hempty : (name.isEmpty || path.isEmpty) = true
  · rw [if_pos hempty]
    exact ⟨_, rfl⟩
  · rw [if_neg hempty]
    have hbuiltin : (resolveBuiltinTransform name).isSome = true := by
      rw [Bool.not_eq_true, Bool.or_eq_false_iff] at hempty
      rw [isDefinable, hempty.1, hempty.2] at h
      simpa using h
    rw [if_pos hbuiltin]
    exact ⟨_, rfl⟩

theorem definitionsOf_cons (name path : Bytes) (rows : List (Option Bytes × Option Bytes)) :
    definitionsOf ((some name, some path) :: rows) =
      if isDefinable (name, path) then (name, path) :: definitionsOf rows else [] :=
  List.takeWhile_cons ..

/-- A query puts in what it defines. -/
theorem define_eq (rows : List (Option Bytes × Option Bytes)) (registry : TransformRegistry) :
    registry.define rows = (definitionsOf rows).foldl TransformRegistry.put registry := by
  -- the rest of a query, behind a row that does not raise
  have hrest : ∀ {row value rows} {registry next : TransformRegistry},
      rawTransformDefineRow row registry = .ok value next →
        registry.define (row :: rows) = next.define rows := by
    intro row value rows registry next hrow
    rw [TransformRegistry.define, rawTransformDefine, List.mapM_cons, run_bind_of_ok hrow,
      TransformRegistry.define, rawTransformDefine]
    cases hrows : rows.mapM rawTransformDefineRow next with
    | ok values last => rw [run_bind_of_ok hrows]; rfl
    | error e last => rw [run_bind_of_error hrows]
  induction rows generalizing registry with
  | nil => rfl
  | cons row rows ih =>
      obtain ⟨name, path⟩ := row
      cases name with
      | none => exact (hrest rfl).trans (ih registry)
      | some name =>
          cases path with
          | none => exact (hrest rfl).trans (ih registry)
          | some path =>
              rw [definitionsOf_cons]
              cases hdefinable : isDefinable (name, path) with
              | true =>
                  rw [hrest (rawTransformDefineRow_of_definable hdefinable registry), ih]
                  rfl
              | false =>
                  obtain ⟨e, herror⟩ := rawTransformDefineRow_of_not hdefinable registry
                  rw [TransformRegistry.define, rawTransformDefine, List.mapM_cons,
                    run_bind_of_error herror]
                  rfl

/-- What a registry finds after definitions. -/
theorem find?_put (defined : List (Bytes × Bytes)) (key : Bytes) :
    (defined.foldl TransformRegistry.put .empty).find? key =
      (defined.reverse.find? fun definition => lower definition.1 = key).map Prod.snd := by
  induction defined using List.reverseRecOn with
  | nil => rfl
  | append_singleton defined definition ih =>
      rw [List.foldl_append, List.foldl_cons, List.foldl_nil, TransformRegistry.put,
        OrderedMap.find?_alter, ih, List.reverse_append, List.reverse_singleton,
        List.singleton_append, List.find?_cons]
      by_cases hkey : key = lower definition.1
      · rw [if_pos hkey, decide_eq_true hkey.symm]
        rfl
      · rw [if_neg hkey, decide_eq_false (Ne.symm hkey)]

theorem defineAll_eq (queries : List (List (Option Bytes × Option Bytes))) :
    defineAll queries = (definitions queries).foldl TransformRegistry.put .empty := by
  rw [defineAll, definitions, List.foldl_flatMap]
  exact congrArg (fun f => queries.foldl f .empty)
    (funext fun registry => funext fun rows => define_eq rows registry)

/-- A name finds its last definition. -/
theorem find?_defineAll (queries : List (List (Option Bytes × Option Bytes))) (name : Bytes) :
    (defineAll queries).find? (lower name) = lastDefinition (definitions queries) name := by
  rw [defineAll_eq, find?_put]
  rfl

/-! ## the list -/

/-- A row of `raw_transforms`. -/
structure TransformRow where
  name : Bytes
  explode : Bytes
  builtin : Bool
  deriving DecidableEq

/-- `RawTransformsInit`. -/
def rawTransforms (registry : TransformRegistry) : List TransformRow :=
  (rawBuiltinTransforms.map fun builtin =>
      { name := builtin.1, explode := builtin.2, builtin := true }) ++
    registry.entries.map fun transform =>
      { name := transform.1, explode := transform.2, builtin := false }

/-- What is defined can be. -/
theorem isDefinable_of_mem {queries : List (List (Option Bytes × Option Bytes))}
    {definition : Bytes × Bytes} (h : definition ∈ definitions queries) :
    isDefinable definition = true := by
  obtain ⟨rows, -, hmem⟩ := List.mem_flatMap.mp h
  exact List.all_eq_true.mp List.all_takeWhile definition hmem

/-- A name that is defined is not built in. -/
theorem resolveBuiltin_of_lastDefinition {queries : List (List (Option Bytes × Option Bytes))}
    {name path : Bytes} (h : lastDefinition (definitions queries) name = some path) :
    resolveBuiltinTransform name = none := by
  obtain ⟨definition, hfound, -⟩ := Option.map_eq_some_iff.mp h
  have hsame : lower definition.1 = lower name := by
    simpa using List.find?_some hfound
  have hdefinable := isDefinable_of_mem (List.mem_reverse.mp (List.mem_of_find?_eq_some hfound))
  rw [isDefinable, Bool.and_eq_true, Option.isNone_iff_eq_none, resolveBuiltinTransform,
    hsame] at hdefinable
  exact hdefinable.2

theorem lower_builtin {builtin : Bytes × Bytes} (h : builtin ∈ rawBuiltinTransforms) :
    lower builtin.1 = builtin.1 ∧ resolveBuiltinTransform builtin.1 = some builtin.2 := by
  have hall : ∀ builtin ∈ rawBuiltinTransforms,
      lower builtin.1 = builtin.1 ∧ resolveBuiltinTransform builtin.1 = some builtin.2 := by
    decide +kernel
  exact hall builtin h

theorem mem_rawTransforms (queries : List (List (Option Bytes × Option Bytes)))
    (row : TransformRow) : row ∈ rawTransforms (defineAll queries) ↔
      lower row.name = row.name ∧
        (resolveBuiltinTransform row.name).or (lastDefinition (definitions queries) row.name) =
          some row.explode ∧
        row.builtin = (resolveBuiltinTransform row.name).isSome := by
  obtain ⟨name, explode, builtin⟩ := row
  rw [rawTransforms, List.mem_append]
  constructor
  · rintro (hmem | hmem)
    · obtain ⟨entry, hentry, heq⟩ := List.mem_map.mp hmem
      cases heq
      obtain ⟨hlower, hresolve⟩ := lower_builtin hentry
      show _ ∧ (resolveBuiltinTransform entry.1).or _ = _ ∧
        true = (resolveBuiltinTransform entry.1).isSome
      rw [hresolve]
      exact ⟨hlower, rfl, rfl⟩
    · obtain ⟨entry, hentry, heq⟩ := List.mem_map.mp hmem
      cases heq
      have hfind := (OrderedMap.mem_entries_iff _).mp hentry
      rw [defineAll_eq, find?_put] at hfind
      obtain ⟨definition, hfound, hpath⟩ := Option.map_eq_some_iff.mp hfind
      have hkey : lower definition.1 = entry.1 := by simpa using List.find?_some hfound
      have hlower : lower entry.1 = entry.1 := by rw [← hkey, lower_lower]
      have hlast : lastDefinition (definitions queries) entry.1 = some entry.2 := by
        rw [lastDefinition, hlower, hfound]
        exact congrArg some hpath
      have hnone := resolveBuiltin_of_lastDefinition hlast
      show _ ∧ (resolveBuiltinTransform entry.1).or _ = _ ∧
        false = (resolveBuiltinTransform entry.1).isSome
      rw [hnone, hlast]
      exact ⟨hlower, rfl, rfl⟩
  · rintro ⟨hlower, hresolve, hbuiltin⟩
    dsimp only at hlower hresolve hbuiltin
    cases hfixed : resolveBuiltinTransform name with
    | some path =>
        rw [hfixed] at hresolve hbuiltin
        obtain rfl : path = explode := Option.some.inj hresolve
        obtain ⟨entry, hfound, rfl⟩ := Option.map_eq_some_iff.mp hfixed
        have hkey : entry.1 = lower name := by simpa using List.find?_some hfound
        refine .inl (List.mem_map.mpr ⟨entry, List.mem_of_find?_eq_some hfound, ?_⟩)
        rw [hkey, hlower, hbuiltin]
        rfl
    | none =>
        rw [hfixed, Option.none_or] at hresolve
        rw [hfixed] at hbuiltin
        refine .inr (List.mem_map.mpr ⟨(name, explode), ?_, by rw [hbuiltin]; rfl⟩)
        rw [OrderedMap.mem_entries_iff, ← hlower, find?_defineAll]
        exact hresolve

theorem nodup_rawTransforms (queries : List (List (Option Bytes × Option Bytes))) :
    ((rawTransforms (defineAll queries)).map TransformRow.name).Nodup := by
  rw [rawTransforms, List.map_append, List.map_map, List.map_map]
  refine List.nodup_append.mpr ⟨by decide +kernel, ?_, ?_⟩
  · refine List.pairwise_map.mpr ((defineAll queries).ordered.imp fun {a b} hlt heq => ?_)
    have hsame : a.1 = b.1 := heq
    rw [hsame] at hlt
    exact Std.Irrefl.irrefl _ hlt
  · intro name hbuiltin name' hdefined heq
    obtain ⟨builtin, hmem, rfl⟩ := List.mem_map.mp hbuiltin
    obtain ⟨entry, hentry, rfl⟩ := List.mem_map.mp hdefined
    have hrow := (mem_rawTransforms queries
      { name := entry.1, explode := entry.2, builtin := false }).mp
        (List.mem_append_right _ (List.mem_map.mpr ⟨entry, hentry, rfl⟩))
    have hname : builtin.1 = entry.1 := heq
    rw [← hname, (lower_builtin hmem).2] at hrow
    exact absurd hrow.2.2 Bool.false_ne_true

/-- **Transforms of a history**: after any queries, a name in any spelling is resolved to
its built-in path, or else to its last definition; and `raw_transforms` shows each of
these names once, with the path it is resolved to. -/
theorem transforms_of_history (queries : List (List (Option Bytes × Option Bytes))) :
    (∀ name, resolveTransform (defineAll queries).entries name [] =
        if name.isEmpty then .ok {}
        else ((resolveBuiltinTransform name).or
          (lastDefinition (definitions queries) name)).elim (.error (unknownTransform name))
            fun path => .ok { rawExplodeOptions path with otlp := rawTransformIsOtlp name }) ∧
      ((rawTransforms (defineAll queries)).map TransformRow.name).Nodup ∧
      ∀ row, row ∈ rawTransforms (defineAll queries) ↔
        lower row.name = row.name ∧
          (resolveBuiltinTransform row.name).or (lastDefinition (definitions queries) row.name) =
            some row.explode ∧
          row.builtin = (resolveBuiltinTransform row.name).isSome := by
  refine ⟨fun name => ?_, nodup_rawTransforms queries, mem_rawTransforms queries⟩
  cases name with
  | nil => rfl
  | cons c name =>
      have hfind := OrderedMap.find?_entries (defineAll queries) (lower (c :: name))
      rw [find?_defineAll] at hfind
      rw [← hfind, resolveTransform]
      simp only [List.isEmpty_cons, Bool.not_false, List.isEmpty_nil, Bool.not_true,
        Bool.and_false, Bool.false_eq_true, if_false, Bool.true_and]
      cases resolveBuiltinTransform (c :: name) with
      | some path => rfl
      | none =>
          cases (defineAll queries).entries.find? fun entry => entry.1 = lower (c :: name) with
          | none => rfl
          | some entry => rfl

end RawDuck
