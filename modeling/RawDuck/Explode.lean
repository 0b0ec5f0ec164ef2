import RawDuck.Otlp

/-!
# RawDuck.Explode

`RawPayload::Explode`: each row is descended along the path, arrays on the way
fan out into one row per element, and each row that comes out gets the fields of
the objects it was found in.
-/

namespace RawDuck

/-- `RawExplodeEnvelope`: an object and the key that was descended into. -/
structure RawExplodeEnvelope where
  object : List (Bytes × Json)
  descendedKey : Bytes

/-- `AddObjectFields`: the fields of an object that `merged` does not have yet,
except the one to skip. -/
def addObjectFields (merged object : List (Bytes × Json)) (skipKey : Option Bytes) :
    List (Bytes × Json) :=
  object.foldl
    (fun merged field =>
      if skipKey = some field.1 then merged else addMember merged field.1 field.2)
    merged

/-- `EmitMergedRow`; the deepest envelope comes first. -/
def emitMergedRow (leaf : Json) (envelopes : List RawExplodeEnvelope) : Json :=
  match leaf with
  | .obj fields =>
      .obj (envelopes.foldl
        (fun merged envelope => addObjectFields merged envelope.object (some envelope.descendedKey))
        (addObjectFields [] fields none))
  -- a leaf that is no object cannot be merged
  | leaf => leaf

/-- `ExplodeInto`: the rows of a node, with the part of the path still to go and
the envelopes so far, the deepest first. -/
def explodeInto (path : List Bytes) (envelopes : List RawExplodeEnvelope) (node : Json) :
    List Json :=
  match path, node with
  | segment :: path, .obj members =>
      match objGet segment members with
      | none => [emitMergedRow node envelopes]
      | some (.arr elements) =>
          elements.flatMap (explodeInto path (⟨members, segment⟩ :: envelopes))
      | some child => explodeInto path (⟨members, segment⟩ :: envelopes) child
  | _, _ => [emitMergedRow node envelopes]

/-- The rows of `RawPayload::Explode`, before they are checked again. -/
def explode (duck : Duck) (path : List Bytes) (otlpSemantics : Bool) (rows : List Json) :
    List Json :=
  let exploded := rows.flatMap (explodeInto path [])
  if otlpSemantics then exploded.map (otlpNormalizeRow duck) else exploded

/-- Rows explode one by one. -/
theorem explode_append (duck : Duck) (path : List Bytes) (otlp : Bool) (rows rows' : List Json) :
    explode duck path otlp (rows ++ rows') =
      explode duck path otlp rows ++ explode duck path otlp rows' := by
  unfold explode
  cases otlp with
  | true => simp only [if_true, List.flatMap_append, List.map_append]
  | false => simp only [Bool.false_eq_true, if_false, List.flatMap_append]

end RawDuck
