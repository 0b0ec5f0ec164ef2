import RawDuck.Attributes
import RawDuck.Explode
import Mathlib.Data.List.Basic

/-!
# RawDuck.Descent

What exploding is for, said without the recursion that does it: a path leads
from a row to places further down, and every place becomes one row.

* `Reaches` — the places a path leads to: a hop looks a key up in an object and
  fans out over an array, and the descent stops early at what is no object and
  where the hop is absent;
* `inherited` — what the objects on the way hold under a key, the deepest first;
* `Place.Emits` — the row of a place;
* `explode_emits` — exploding gives the rows of exactly the places reached, in
  document order.
-/

namespace RawDuck

/-! ## places -/

/-- A node below a row, and the objects that were left on the way to it, the
deepest first.  Its position holds the number of the row and, for each hop, the
index of the element gone to; a hop that meets no array counts as index 0. -/
structure Place where
  position : List Nat
  envelopes : List RawExplodeEnvelope
  node : Json

namespace Place

/-- The place, seen from one hop further up. -/
def under (i : Nat) (place : Place) : Place := { place with position := i :: place.position }

@[simp] theorem position_under (i : Nat) (place : Place) :
    (place.under i).position = i :: place.position := rfl

@[simp] theorem envelopes_under (i : Nat) (place : Place) :
    (place.under i).envelopes = place.envelopes := rfl

@[simp] theorem node_under (i : Nat) (place : Place) : (place.under i).node = place.node := rfl

/-- Document order: the positions compare lexicographically. -/
def Before (place place' : Place) : Prop := place.position < place'.position

theorem before_under_iff {i j : Nat} {place place' : Place} :
    (place.under i).Before (place'.under j) ↔ i < j ∨ i = j ∧ place.Before place' := by
  show i :: place.position < j :: place'.position ↔ _
  rw [List.cons_lt_cons_iff]
  rfl

end Place

/-- Where the descent from a node ends at the node itself. -/
inductive Stops : List Bytes → Json → Prop
  | arrived (node : Json) : Stops [] node
  | notObject (path : List Bytes) {node : Json} : node.isObj = false → Stops path node
  | absent {segment : Bytes} (path : List Bytes) {members : List (Bytes × Json)} :
      objGet segment members = none → Stops (segment :: path) (.obj members)

/-- The places a path leads to from a node that lies within `envelopes`. -/
inductive Reaches : List Bytes → List RawExplodeEnvelope → Json → Place → Prop
  | stop {path : List Bytes} {envelopes : List RawExplodeEnvelope} {node : Json} :
      Stops path node → Reaches path envelopes node ⟨[], envelopes, node⟩
  | element {segment : Bytes} {path : List Bytes} {envelopes : List RawExplodeEnvelope}
      {members : List (Bytes × Json)} {elements : List Json} {i : Nat} {element : Json}
      {place : Place} :
      objGet segment members = some (.arr elements) → elements[i]? = some element →
      Reaches path (⟨members, segment⟩ :: envelopes) element place →
      Reaches (segment :: path) envelopes (.obj members) (place.under i)
  | child {segment : Bytes} {path : List Bytes} {envelopes : List RawExplodeEnvelope}
      {members : List (Bytes × Json)} {child : Json} {place : Place} :
      objGet segment members = some child → (∀ elements, child ≠ .arr elements) →
      Reaches path (⟨members, segment⟩ :: envelopes) child place →
      Reaches (segment :: path) envelopes (.obj members) (place.under 0)

/-- The places a path leads to from the rows of a payload. -/
def ReachedFrom (path : List Bytes) (rows : List Json) (place : Place) : Prop :=
  ∃ i row below, rows[i]? = some row ∧ Reaches path [] row below ∧ place = below.under i

/-! ## the row of a place -/

/-- What the envelopes hold under a key: the deepest one that has it counts, and
none of them counts for the key that was descended into. -/
def inherited (key : Bytes) (envelopes : List RawExplodeEnvelope) : Option Json :=
  envelopes.findSome? fun envelope =>
    if envelope.descendedKey = key then none else objGet key envelope.object

/-- The row a place becomes: an object is merged with its envelopes, and has
every key once; anything else stays what it is. -/
inductive Place.Emits : Place → Json → Prop
  | merged {position : List Nat} {envelopes : List RawExplodeEnvelope}
      {members fields : List (Bytes × Json)} :
      (fields.map Prod.fst).Nodup →
      (∀ key, objGet key fields = (objGet key members).or (inherited key envelopes)) →
      Emits ⟨position, envelopes, .obj members⟩ (.obj fields)
  | unchanged {position : List Nat} {envelopes : List RawExplodeEnvelope} {node : Json} :
      node.isObj = false → Emits ⟨position, envelopes, node⟩ node

/-- `AddObjectFields` adds the members other than the one to skip. -/
theorem addObjectFields_eq (merged object : List (Bytes × Json)) (skipKey : Option Bytes) :
    addObjectFields merged object skipKey =
      addMembers merged (object.filter fun m => skipKey ≠ some m.1) := by
  induction object generalizing merged with
  | nil => rfl
  | cons m object ih =>
      show addObjectFields (if skipKey = some m.1 then merged else addMember merged m.1 m.2)
        object skipKey = _
      rw [ih]
      by_cases h : skipKey = some m.1
      · simp [h]
      · rw [if_neg h, List.filter_cons_of_pos (by simpa using h), addMembers_cons]

theorem objGet_filter_ne (key skipKey : Bytes) (object : List (Bytes × Json)) :
    objGet key (object.filter fun m => some skipKey ≠ some m.1) =
      if skipKey = key then none else objGet key object := by
  induction object with
  | nil => simp
  | cons m object ih =>
      by_cases h : skipKey = m.1
      · rw [List.filter_cons_of_neg (by simp [h]), ih, objGet_cons]
        by_cases hk : skipKey = key
        · rw [if_pos hk, if_pos hk]
        · rw [if_neg hk, if_neg hk, if_neg (h ▸ hk)]
      · rw [List.filter_cons_of_pos (by simpa using h), objGet_cons, ih, objGet_cons]
        by_cases hm : m.1 = key
        · rw [if_pos hm, if_pos hm, if_neg (hm ▸ h)]
        · rw [if_neg hm, if_neg hm]

/-- One envelope after the other: the first that has the key decides. -/
theorem objGet_foldl_addObjectFields (key : Bytes) (merged : List (Bytes × Json))
    (envelopes : List RawExplodeEnvelope) :
    objGet key (envelopes.foldl (fun merged envelope =>
        addObjectFields merged envelope.object (some envelope.descendedKey)) merged) =
      (objGet key merged).or (inherited key envelopes) := by
  induction envelopes generalizing merged with
  | nil => simp [inherited]
  | cons envelope envelopes ih =>
      have hstep : objGet key
          (addObjectFields merged envelope.object (some envelope.descendedKey)) =
          (objGet key merged).or
            (if envelope.descendedKey = key then none else objGet key envelope.object) := by
        rw [addObjectFields_eq, objGet_addMembers, objGet_append, objGet_filter_ne]
      rw [List.foldl_cons, ih, hstep, Option.or_assoc]
      congr 1
      rw [inherited, inherited, List.findSome?_cons]
      cases (if envelope.descendedKey = key then none else objGet key envelope.object) with
      | none => simp
      | some v => simp

theorem nodup_addObjectFields {merged : List (Bytes × Json)} (h : (merged.map Prod.fst).Nodup)
    (object : List (Bytes × Json)) (skipKey : Option Bytes) :
    ((addObjectFields merged object skipKey).map Prod.fst).Nodup := by
  rw [addObjectFields_eq]
  exact nodup_addMembers h _

theorem nodup_foldl_addObjectFields {merged : List (Bytes × Json)}
    (h : (merged.map Prod.fst).Nodup) (envelopes : List RawExplodeEnvelope) :
    ((envelopes.foldl (fun merged envelope =>
        addObjectFields merged envelope.object (some envelope.descendedKey)) merged).map
      Prod.fst).Nodup := by
  induction envelopes generalizing merged with
  | nil => exact h
  | cons envelope envelopes ih => exact ih (nodup_addObjectFields h ..)

/-- `EmitMergedRow` gives the row of the place. -/
theorem emits_emitMergedRow (place : Place) :
    place.Emits (emitMergedRow place.node place.envelopes) := by
  obtain ⟨position, envelopes, node⟩ := place
  cases node with
  | obj members =>
      apply Place.Emits.merged
      · apply nodup_foldl_addObjectFields
        exact nodup_addObjectFields (by simp) ..
      · intro key
        rw [objGet_foldl_addObjectFields, addObjectFields_eq, objGet_addMembers]
        simp
  | _ => exact Place.Emits.unchanged rfl

/-! ## the places in document order -/

/-- The places below a node, listed in document order. -/
def placesBelow (path : List Bytes) (envelopes : List RawExplodeEnvelope) (node : Json) :
    List Place :=
  match path, node with
  | segment :: path, .obj members =>
      match objGet segment members with
      | none => [⟨[], envelopes, node⟩]
      | some (.arr elements) => elements.zipIdx.flatMap fun element =>
          (placesBelow path (⟨members, segment⟩ :: envelopes) element.1).map
            (Place.under element.2)
      | some child => (placesBelow path (⟨members, segment⟩ :: envelopes) child).map
          (Place.under 0)
  | _, _ => [⟨[], envelopes, node⟩]

/-- The places below the rows. -/
def placesFrom (path : List Bytes) (rows : List Json) : List Place :=
  rows.zipIdx.flatMap fun row => (placesBelow path [] row.1).map (Place.under row.2)

variable {path : List Bytes} {envelopes : List RawExplodeEnvelope}
  {members : List (Bytes × Json)} {segment : Bytes} {node : Json}

theorem placesBelow_of_stops (h : Stops path node) :
    placesBelow path envelopes node = [⟨[], envelopes, node⟩] := by
  cases h with
  | arrived => simp [placesBelow]
  | notObject _ hnode =>
      unfold placesBelow
      split
      · simp [Json.isObj] at hnode
      · rfl
  | absent _ habsent => simp only [placesBelow, habsent]

theorem placesBelow_array {elements : List Json}
    (h : objGet segment members = some (.arr elements)) :
    placesBelow (segment :: path) envelopes (.obj members) =
      elements.zipIdx.flatMap fun element =>
        (placesBelow path (⟨members, segment⟩ :: envelopes) element.1).map
          (Place.under element.2) := by
  simp only [placesBelow, h]

theorem placesBelow_child {child : Json} (h : objGet segment members = some child)
    (hchild : ∀ elements, child ≠ .arr elements) :
    placesBelow (segment :: path) envelopes (.obj members) =
      (placesBelow path (⟨members, segment⟩ :: envelopes) child).map (Place.under 0) := by
  rw [placesBelow, h]
  split
  · contradiction
  · next heq =>
    rw [Option.some.injEq] at heq
    exact absurd heq (hchild _)
  · next heq =>
    rw [Option.some.injEq] at heq
    rw [heq]

/-- From every node the descent either stops there or makes one hop. -/
theorem stops_or_hops (path : List Bytes) (node : Json) :
    Stops path node ∨
      ∃ segment rest members child, path = segment :: rest ∧ node = .obj members ∧
        objGet segment members = some child := by
  cases path with
  | nil => exact .inl (.arrived node)
  | cons segment rest =>
      cases node with
      | obj members =>
          cases hget : objGet segment members with
          | none => exact .inl (.absent rest hget)
          | some child => exact .inr ⟨segment, rest, members, child, rfl, rfl, hget⟩
      | _ => exact .inl (.notObject _ rfl)

theorem Stops.no_hop {child : Json} (h : Stops (segment :: path) (.obj members)) :
    objGet segment members ≠ some child := by
  cases h with
  | notObject _ hnode => simp [Json.isObj] at hnode
  | absent _ habsent => simp [habsent]

/-- The list holds exactly the places reached. -/
theorem mem_placesBelow {place : Place} :
    place ∈ placesBelow path envelopes node ↔ Reaches path envelopes node place := by
  induction path generalizing envelopes node place with
  | nil =>
      rw [placesBelow_of_stops (.arrived node), List.mem_singleton]
      constructor
      · rintro rfl
        exact .stop (.arrived node)
      · intro h
        cases h with
        | stop _ => rfl
  | cons segment path ih =>
      obtain hstops | ⟨_, _, members, child, hpath, rfl, hget⟩ :=
        stops_or_hops (segment :: path) node
      · rw [placesBelow_of_stops hstops, List.mem_singleton]
        constructor
        · rintro rfl
          exact .stop hstops
        · intro h
          cases h with
          | stop _ => rfl
          | element hget _ _ => exact absurd hget hstops.no_hop
          | child hget _ _ => exact absurd hget hstops.no_hop
      · obtain ⟨rfl, rfl⟩ := List.cons.inj hpath
        by_cases harr : ∃ elements, child = .arr elements
        · obtain ⟨elements, rfl⟩ := harr
          rw [placesBelow_array hget, List.mem_flatMap]
          constructor
          · rintro ⟨⟨element, i⟩, helement, hplace⟩
            obtain ⟨below, hbelow, rfl⟩ := List.mem_map.mp hplace
            exact .element hget (List.mem_zipIdx_iff_getElem?.mp helement) (ih.mp hbelow)
          · intro h
            cases h with
            | stop hstops => exact absurd hget hstops.no_hop
            | @element _ _ _ _ elements' i element below hget' helement hbelow =>
                rw [hget, Option.some.injEq, Json.arr.injEq] at hget'
                subst hget'
                exact ⟨(element, i), List.mem_zipIdx_iff_getElem?.mpr helement,
                  List.mem_map_of_mem (ih.mpr hbelow)⟩
            | child hget' hchild _ =>
                rw [hget, Option.some.injEq] at hget'
                exact absurd hget'.symm (hchild elements)
        · have hchild : ∀ elements, child ≠ .arr elements := fun elements he =>
            harr ⟨elements, he⟩
          rw [placesBelow_child hget hchild, List.mem_map]
          constructor
          · rintro ⟨below, hbelow, rfl⟩
            exact .child hget hchild (ih.mp hbelow)
          · intro h
            cases h with
            | stop hstops => exact absurd hget hstops.no_hop
            | element hget' _ _ =>
                rw [hget, Option.some.injEq] at hget'
                exact absurd hget' (hchild _)
            | @child _ _ _ _ child' below hget' _ hbelow =>
                rw [hget, Option.some.injEq] at hget'
                subst hget'
                exact ⟨below, ih.mpr hbelow, rfl⟩

theorem mem_placesFrom {rows : List Json} {place : Place} :
    place ∈ placesFrom path rows ↔ ReachedFrom path rows place := by
  rw [placesFrom, List.mem_flatMap]
  constructor
  · rintro ⟨⟨row, i⟩, hrow, hplace⟩
    obtain ⟨below, hbelow, rfl⟩ := List.mem_map.mp hplace
    exact ⟨i, row, below, List.mem_zipIdx_iff_getElem?.mp hrow, mem_placesBelow.mp hbelow, rfl⟩
  · rintro ⟨i, row, below, hrow, hbelow, rfl⟩
    exact ⟨(row, i), List.mem_zipIdx_iff_getElem?.mpr hrow,
      List.mem_map_of_mem (mem_placesBelow.mpr hbelow)⟩

/-- Elements one after the other, each with its places in order. -/
theorem pairwise_before_flatMap {elements : List Json} {below : Json → List Place}
    (h : ∀ element, (below element).Pairwise Place.Before) :
    (elements.zipIdx.flatMap fun element =>
      (below element.1).map (Place.under element.2)).Pairwise Place.Before := by
  rw [List.pairwise_flatMap]
  constructor
  · intro element _
    rw [List.pairwise_map]
    apply (h element.1).imp
    intro place place' hbefore
    exact Place.before_under_iff.mpr (.inr ⟨rfl, hbefore⟩)
  · have hindex : (elements.zipIdx.map Prod.snd).Pairwise (· < ·) := by
      rw [List.zipIdx_map_snd]
      exact List.pairwise_lt_range'
    apply (List.pairwise_map.mp hindex).imp
    intro element element' hlt place hplace place' hplace'
    obtain ⟨_, -, rfl⟩ := List.mem_map.mp hplace
    obtain ⟨_, -, rfl⟩ := List.mem_map.mp hplace'
    exact Place.before_under_iff.mpr (.inl hlt)

theorem pairwise_before_placesBelow (path : List Bytes) (envelopes : List RawExplodeEnvelope)
    (node : Json) : (placesBelow path envelopes node).Pairwise Place.Before := by
  induction path generalizing envelopes node with
  | nil =>
      rw [placesBelow_of_stops (.arrived node)]
      exact List.pairwise_singleton ..
  | cons segment path ih =>
      obtain hstops | ⟨_, _, members, child, hpath, rfl, hget⟩ :=
        stops_or_hops (segment :: path) node
      · rw [placesBelow_of_stops hstops]
        exact List.pairwise_singleton ..
      · obtain ⟨rfl, rfl⟩ := List.cons.inj hpath
        by_cases harr : ∃ elements, child = .arr elements
        · obtain ⟨elements, rfl⟩ := harr
          rw [placesBelow_array hget]
          exact pairwise_before_flatMap fun element => ih _ element
        · rw [placesBelow_child hget fun elements he => harr ⟨elements, he⟩, List.pairwise_map]
          apply (ih _ child).imp
          intro place place' hbefore
          exact Place.before_under_iff.mpr (.inr ⟨rfl, hbefore⟩)

/-! ## exploding -/

/-- The row `EmitMergedRow` writes for a place. -/
def Place.row (place : Place) : Json := emitMergedRow place.node place.envelopes

theorem map_row_under (i : Nat) (places : List Place) :
    (places.map (Place.under i)).map Place.row = places.map Place.row := by
  rw [List.map_map]
  rfl

/-- Elements one after the other, each with the rows of its places. -/
theorem map_row_flatMap (elements : List Json) (below : Json → List Place) :
    (elements.zipIdx.flatMap fun element =>
      (below element.1).map (Place.under element.2)).map Place.row =
      elements.flatMap fun element => (below element).map Place.row := by
  have hfst : elements = elements.zipIdx.map Prod.fst := (List.zipIdx_map_fst 0 elements).symm
  conv_rhs => rw [hfst, List.flatMap_map]
  rw [List.map_flatMap]
  apply List.flatMap_congr
  intro element _
  exact map_row_under ..

/-- `ExplodeInto` writes the rows of the places below the node. -/
theorem explodeInto_eq (path : List Bytes) (envelopes : List RawExplodeEnvelope) (node : Json) :
    explodeInto path envelopes node = (placesBelow path envelopes node).map Place.row := by
  induction path generalizing envelopes node with
  | nil => simp [explodeInto, placesBelow, Place.row]
  | cons segment path ih =>
      cases node with
      | obj members =>
          cases hget : objGet segment members with
          | none =>
              rw [placesBelow_of_stops (.absent path hget)]
              simp only [explodeInto, hget]
              rfl
          | some child =>
              by_cases harr : ∃ elements, child = .arr elements
              · obtain ⟨elements, rfl⟩ := harr
                rw [placesBelow_array hget, map_row_flatMap]
                simp only [explodeInto, hget]
                exact List.flatMap_congr fun element _ => ih _ element
              · rw [placesBelow_child hget fun elements he => harr ⟨elements, he⟩, map_row_under,
                  ← ih]
                cases child with
                | arr elements => exact absurd ⟨elements, rfl⟩ harr
                | _ => simp only [explodeInto, hget]
      | _ => simp [explodeInto, placesBelow, Place.row]

/-- **Exploding**: the rows are those of the places the path leads to, each place
once and in document order. -/
theorem explode_emits (duck : Duck) (path : List Bytes) (rows : List Json) :
    ∃ places : List Place,
      (∀ place, place ∈ places ↔ ReachedFrom path rows place) ∧
      places.Pairwise Place.Before ∧
      List.Forall₂ Place.Emits places (explode duck path false rows) := by
  refine ⟨placesFrom path rows, fun place => mem_placesFrom, ?_, ?_⟩
  · exact pairwise_before_flatMap fun row => pairwise_before_placesBelow path [] row
  · have hrows : explode duck path false rows = (placesFrom path rows).map Place.row := by
      rw [placesFrom, map_row_flatMap]
      simp only [explode, Bool.false_eq_true, if_false]
      exact List.flatMap_congr fun row _ => explodeInto_eq path [] row
    rw [hrows, List.forall₂_map_right_iff, List.forall₂_same]
    exact fun place _ => emits_emitMergedRow place

end RawDuck
