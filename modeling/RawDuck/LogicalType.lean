import RawDuck.Bytes

/-!
# RawDuck.LogicalType

Column types and the cross-batch widening join.

A `LogicalType` is DuckDB's: a type id with its alias, or a `LIST` of a child
type.  `JSON` is `VARCHAR` under the alias `JSON`: same id, different type.
The types RawDuck itself infers are singled out by `Inferable`; a table may
hold columns of any other type.

* `joinColumnTypes` — the type a column must have to hold both its existing
  and the incoming values;
* `joinColumnTypes_join_right` — joining the same incoming type again changes
  nothing, for every existing type;
* `joinColumnTypes_trans` — what holds a type holds what that type holds;
* `Le` — the order the join moves a column up in: `le_joinColumnTypes`,
  antisymmetric (`Le.antisymm`), so a column that ends where it started never
  moved.
-/

namespace RawDuck

/-- `LogicalTypeId` of a type without children.  `other` stands for the ids the
extension never names. -/
inductive LogicalTypeId where
  | boolean | tinyint | smallint | integer | bigint | hugeint
  | utinyint | usmallint | uinteger | float | double | date | timestamp | varchar
  | other (code : UInt8)
  deriving DecidableEq, Repr

/-- A DuckDB `LogicalType`: a plain id with its alias (or extra type info), or
a `LIST`. -/
inductive LogicalType where
  | plain (id : LogicalTypeId) (typeAlias : Bytes)
  | list (child : LogicalType)
  deriving DecidableEq, Repr

namespace LogicalType

abbrev BOOLEAN : LogicalType := plain .boolean []
abbrev BIGINT : LogicalType := plain .bigint []
abbrev DOUBLE : LogicalType := plain .double []
abbrev DATE : LogicalType := plain .date []
abbrev TIMESTAMP : LogicalType := plain .timestamp []
abbrev VARCHAR : LogicalType := plain .varchar []

/-- `LogicalType::JSON()`: `VARCHAR` with the alias `JSON`. -/
abbrev JSON : LogicalType := plain .varchar (bytes "JSON")

end LogicalType

open LogicalType

/-- `IsRawJSONType`. -/
def isRawJSONType : LogicalType → Bool
  | .plain .varchar a => a == bytes "JSON"
  | _ => false

/-- `IsIntegerType`. -/
def isIntegerType : LogicalType → Bool
  | .plain .tinyint _ | .plain .smallint _ | .plain .integer _ | .plain .bigint _
  | .plain .hugeint _ | .plain .utinyint _ | .plain .usmallint _ | .plain .uinteger _ => true
  | _ => false

/-- `IsPlainScalar`. -/
def isPlainScalar (t : LogicalType) : Bool :=
  if isRawJSONType t then false
  else match t with
    | .plain .boolean _ | .plain .float _ | .plain .double _ | .plain .date _
    | .plain .timestamp _ | .plain .varchar _ => true
    | t => isIntegerType t

/-- The `is_numeric` lambda of `JoinColumnTypes`. -/
def isNumericType (t : LogicalType) : Bool :=
  isIntegerType t || match t with
    | .plain .float _ | .plain .double _ => true
    | _ => false

/-- The `is_temporal` lambda of `JoinColumnTypes`. -/
def isTemporalType : LogicalType → Bool
  | .plain .date _ | .plain .timestamp _ => true
  | _ => false

/-- The tail of `JoinColumnTypes`, once lists are out of the way. -/
def joinPlainTypes (existing incoming : LogicalType) : LogicalType :=
  if !isPlainScalar existing then existing
  else if isIntegerType existing && isIntegerType incoming then
    -- incoming integers are always inferred as BIGINT; only widen upwards
    match existing with
    | .plain .hugeint _ => existing
    | _ => incoming
  else if isNumericType existing && isNumericType incoming then DOUBLE
  else if isTemporalType existing && isTemporalType incoming then TIMESTAMP
  else VARCHAR

/-- `JoinColumnTypes`: the type a table column must have to hold both existing
and incoming values; exotic existing types are kept. -/
def joinColumnTypes (existing incoming : LogicalType) : LogicalType :=
  if existing = incoming then existing
  else if isRawJSONType existing || isRawJSONType incoming then JSON
  else match existing, incoming with
    | .list e, .list i => .list (joinColumnTypes e i)
    | .list _, .plain _ _ | .plain _ _, .list _ =>
        if !isPlainScalar existing && !isPlainScalar incoming then existing else JSON
    | .plain _ _, .plain _ _ => joinPlainTypes existing incoming

/-- The types RawDuck infers from JSON. -/
inductive Inferable : LogicalType → Prop where
  | boolean : Inferable BOOLEAN
  | bigint : Inferable BIGINT
  | double : Inferable DOUBLE
  | date : Inferable DATE
  | timestamp : Inferable TIMESTAMP
  | varchar : Inferable VARCHAR
  | json : Inferable JSON
  | list {t : LogicalType} : Inferable t → Inferable (.list t)

/-- `RawFillSupported`: whether `FillVector` writes the type directly. -/
def rawFillSupported (t : LogicalType) : Bool :=
  if isRawJSONType t then true
  else match t with
    | .plain .boolean _ | .plain .bigint _ | .plain .double _ | .plain .date _
    | .plain .timestamp _ | .plain .varchar _ => true
    | .list c => rawFillSupported c
    | .plain _ _ => false

theorem Inferable.rawFillSupported {t : LogicalType} (h : Inferable t) :
    rawFillSupported t = true := by
  induction h with
  | list _ ih =>
      rw [RawDuck.rawFillSupported]
      simpa [isRawJSONType] using ih
  | _ => decide

/-! ## the join -/

@[simp] theorem isRawJSONType_json : isRawJSONType JSON = true := by decide

@[simp] theorem isRawJSONType_list (t : LogicalType) : isRawJSONType (.list t) = false := rfl

@[simp] theorem isPlainScalar_list (t : LogicalType) : isPlainScalar (.list t) = false := rfl

theorem isRawJSONType_iff {t : LogicalType} : isRawJSONType t = true ↔ t = JSON := by
  constructor
  · intro h
    match t with
    | .list _ => simp [isRawJSONType] at h
    | .plain id a =>
        cases id <;> simp [isRawJSONType] at h
        rw [h]
  · rintro rfl; decide

@[simp] theorem joinColumnTypes_self (t : LogicalType) : joinColumnTypes t t = t := by
  unfold joinColumnTypes; simp

@[simp] theorem joinColumnTypes_json_left (t : LogicalType) : joinColumnTypes JSON t = JSON := by
  unfold joinColumnTypes; simp

@[simp] theorem joinColumnTypes_json_right (t : LogicalType) : joinColumnTypes t JSON = JSON := by
  unfold joinColumnTypes; split <;> simp_all

@[simp] theorem joinColumnTypes_list (e i : LogicalType) :
    joinColumnTypes (.list e) (.list i) = .list (joinColumnTypes e i) := by
  rw [joinColumnTypes]
  by_cases h : e = i
  · simp [h]
  · simp [h]

/-- A `LIST` column that meets an inferable non-list becomes `JSON`. -/
theorem joinColumnTypes_list_plain (e : LogicalType) {i : LogicalTypeId} {a : Bytes}
    (hi : isPlainScalar (.plain i a) = true ∨ isRawJSONType (.plain i a) = true) :
    joinColumnTypes (.list e) (.plain i a) = JSON := by
  rw [joinColumnTypes]
  rcases hi with h | h <;> simp [h]

theorem joinColumnTypes_plain_list (e : LogicalTypeId) (a : Bytes) (i : LogicalType) :
    joinColumnTypes (.plain e a) (.list i) =
      if isPlainScalar (.plain e a) || isRawJSONType (.plain e a) then JSON else .plain e a := by
  rw [joinColumnTypes]
  cases h : isRawJSONType (.plain e a)
  · cases hs : isPlainScalar (.plain e a) <;> simp
  · simp

theorem joinColumnTypes_plain_plain {e i : LogicalTypeId} {a b : Bytes}
    (hne : LogicalType.plain e a ≠ .plain i b) (he : isRawJSONType (.plain e a) = false)
    (hi : isRawJSONType (.plain i b) = false) :
    joinColumnTypes (.plain e a) (.plain i b) = joinPlainTypes (.plain e a) (.plain i b) := by
  rw [joinColumnTypes, if_neg hne, he, hi]; rfl

theorem joinPlainTypes_of_not_isPlainScalar {e i : LogicalType} (h : isPlainScalar e = false) :
    joinPlainTypes e i = e := by
  simp [joinPlainTypes, h]

/-- Every value `joinPlainTypes` takes on an inferable incoming type. -/
theorem joinPlainTypes_cases (e i : LogicalType) :
    joinPlainTypes e i = e ∨ joinPlainTypes e i = i ∨
      (joinPlainTypes e i = DOUBLE ∧ isNumericType i = true) ∨
      (joinPlainTypes e i = TIMESTAMP ∧ isTemporalType i = true) ∨
      joinPlainTypes e i = VARCHAR := by
  unfold joinPlainTypes
  split
  · exact .inl rfl
  split
  · split
    · exact .inl rfl
    · exact .inr (.inl rfl)
  split
  · next h => exact .inr (.inr (.inl ⟨rfl, (Bool.and_eq_true _ _ ▸ h).2⟩))
  split
  · next h => exact .inr (.inr (.inr (.inl ⟨rfl, (Bool.and_eq_true _ _ ▸ h).2⟩)))
  · exact .inr (.inr (.inr (.inr rfl)))

/-- An inferable type is a `LIST`, `JSON` or a plain scalar without an alias. -/
theorem Inferable.shape {i : LogicalType} (hi : Inferable i) :
    (∃ t, i = .list t ∧ Inferable t) ∨ i = JSON ∨
      (isPlainScalar i = true ∧ isRawJSONType i = false ∧ ∃ j, i = .plain j []) := by
  cases hi with
  | list h => exact .inl ⟨_, rfl, h⟩
  | json => exact .inr (.inl rfl)
  | _ => exact .inr (.inr ⟨by decide, by decide, _, rfl⟩)

theorem joinColumnTypes_double {i : LogicalType} (hi : Inferable i)
    (hn : isNumericType i = true) : joinColumnTypes DOUBLE i = DOUBLE := by
  cases hi <;> first | decide | exact absurd hn (by decide) | exact nomatch hn

theorem joinColumnTypes_timestamp {i : LogicalType} (hi : Inferable i)
    (hn : isTemporalType i = true) : joinColumnTypes TIMESTAMP i = TIMESTAMP := by
  cases hi <;> first | decide | exact absurd hn (by decide) | exact nomatch hn

theorem joinColumnTypes_varchar {i : LogicalType} (hi : Inferable i)
    (hs : isPlainScalar i = true) : joinColumnTypes VARCHAR i = VARCHAR := by
  cases hi <;> first | decide | exact absurd hs (by decide) | exact nomatch hs

/-- A plain column that meets a plain type keeps its type or goes through
`joinPlainTypes`. -/
theorem joinColumnTypes_plain_cases (id : LogicalTypeId) (a : Bytes) {j : LogicalTypeId}
    (hj : isRawJSONType (.plain j []) = false) :
    joinColumnTypes (.plain id a) (.plain j []) = .plain id a ∨
      joinColumnTypes (.plain id a) (.plain j []) =
        joinPlainTypes (.plain id a) (.plain j []) := by
  by_cases hne : LogicalType.plain id a = .plain j []
  · exact .inl (by rw [hne, joinColumnTypes_self])
  · cases he : isRawJSONType (.plain id a) with
    | true => rw [isRawJSONType_iff.mp he]; exact .inl (by simp)
    | false => exact .inr (joinColumnTypes_plain_plain hne he hj)

/-- Joining with the same incoming type again changes nothing, whatever the
column's type was: after a schema step the payload needs no further one. -/
theorem joinColumnTypes_join_right (e : LogicalType) {i : LogicalType} (hi : Inferable i) :
    joinColumnTypes (joinColumnTypes e i) i = joinColumnTypes e i := by
  induction e generalizing i with
  | list e ih =>
      rcases hi.shape with ⟨t, rfl, ht⟩ | rfl | ⟨hs, -, j, rfl⟩
      · simp only [joinColumnTypes_list, ih ht]
      · simp
      · rw [joinColumnTypes_list_plain e (.inl hs), joinColumnTypes_json_left]
  | plain id a =>
      rcases hi.shape with ⟨t, rfl, ht⟩ | rfl | ⟨hs, hj, j, rfl⟩
      · rw [joinColumnTypes_plain_list]
        split
        · simp
        · next h => rw [joinColumnTypes_plain_list, if_neg h]
      · simp
      · rcases joinColumnTypes_plain_cases id a hj with h | h
        · rw [h, h]
        · rcases joinPlainTypes_cases (.plain id a) (.plain j []) with h' | h' | h' | h' | h'
          · rw [h, h', h, h']
          · rw [h, h', joinColumnTypes_self]
          · rw [h, h'.1, joinColumnTypes_double hi h'.2]
          · rw [h, h'.1, joinColumnTypes_timestamp hi h'.2]
          · rw [h, h', joinColumnTypes_varchar hi hs]

/-! ## what a column holds already -/

/-- Joins with a plain scalar that leave an existing plain column as it is. -/
theorem joinColumnTypes_plain_fixed {id : LogicalTypeId} {a : Bytes} {j : LogicalTypeId}
    (hj : isRawJSONType (.plain j []) = false) :
    joinColumnTypes (.plain id a) (.plain j []) = .plain id a ↔
      LogicalType.plain id a = .plain j [] ∨ isRawJSONType (.plain id a) = true ∨
        joinPlainTypes (.plain id a) (.plain j []) = .plain id a := by
  by_cases hne : LogicalType.plain id a = .plain j []
  · simp [hne]
  · cases he : isRawJSONType (.plain id a) with
    | true => rw [isRawJSONType_iff.mp he]; simp
    | false => rw [joinColumnTypes_plain_plain hne he hj]; simp [hne]

/-- What a column holds of a scalar type it holds of the scalar types that type
holds. -/
theorem joinColumnTypes_scalar_trans {id : LogicalTypeId} {a : Bytes} {j k : LogicalTypeId}
    (hj : Inferable (.plain j [])) (hk : Inferable (.plain k []))
    (h : joinColumnTypes (.plain id a) (.plain j []) = .plain id a)
    (h' : joinColumnTypes (.plain j []) (.plain k []) = .plain j []) :
    joinColumnTypes (.plain id a) (.plain k []) = .plain id a := by
  have hcases : k = j ∨ (j = .double ∧ k = .bigint) ∨ (j = .timestamp ∧ k = .date) ∨
      j = .varchar := by
    cases hj <;> cases hk <;> first
      | exact .inl rfl
      | exact .inr (.inl ⟨rfl, rfl⟩)
      | exact .inr (.inr (.inl ⟨rfl, rfl⟩))
      | exact .inr (.inr (.inr rfl))
      | exact absurd h' (by decide)
  rcases hcases with rfl | ⟨rfl, rfl⟩ | ⟨rfl, rfl⟩ | rfl
  · exact h
  · rw [joinColumnTypes_plain_fixed (by decide)] at h ⊢
    rcases h with h | h | h
    · rw [h]; decide
    · exact .inr (.inl h)
    · refine .inr (.inr ?_)
      cases id <;> simp_all [joinPlainTypes, isPlainScalar, isRawJSONType, isIntegerType,
        isNumericType, isTemporalType]
  · rw [joinColumnTypes_plain_fixed (by decide)] at h ⊢
    rcases h with h | h | h
    · rw [h]; decide
    · exact .inr (.inl h)
    · refine .inr (.inr ?_)
      cases id <;> simp_all [joinPlainTypes, isPlainScalar, isRawJSONType, isIntegerType,
        isNumericType, isTemporalType]
  · rcases (joinColumnTypes_plain_fixed (by decide)).mp h with h | h | h
    · rw [h]
      cases hk <;> decide
    · rw [isRawJSONType_iff.mp h, joinColumnTypes_json_left]
    · cases hs : isPlainScalar (.plain id a) with
      | true =>
          -- a plain scalar that holds strings is `VARCHAR` itself
          have hv : LogicalType.plain id a = VARCHAR := by
            rw [← h]
            cases id <;> simp_all [joinPlainTypes, isPlainScalar, isRawJSONType, isIntegerType,
              isNumericType, isTemporalType]
          rw [hv]
          cases hk <;> decide
      | false =>
          cases hr : isRawJSONType (.plain id a) with
          | true => rw [isRawJSONType_iff.mp hr, joinColumnTypes_json_left]
          | false =>
              have hkj : isRawJSONType (.plain k []) = false := by
                cases hk <;> decide
              rcases joinColumnTypes_plain_cases id a hkj with hc | hc
              · exact hc
              · rw [hc, joinPlainTypes_of_not_isPlainScalar hs]

/-- **What holds a type holds what that type holds**: the types a column
absorbs are closed under absorption. -/
theorem joinColumnTypes_trans {e t i : LogicalType} (ht : Inferable t) (hi : Inferable i)
    (h : joinColumnTypes e t = e) (h' : joinColumnTypes t i = t) : joinColumnTypes e i = e := by
  induction e generalizing t i with
  | list e ih =>
      rcases ht.shape with ⟨u, rfl, hu⟩ | rfl | ⟨hs, -, j, rfl⟩
      · rcases hi.shape with ⟨v, rfl, hv⟩ | rfl | ⟨hs, -, j, rfl⟩
        · simp only [joinColumnTypes_list, LogicalType.list.injEq] at h h' ⊢
          exact ih hu hv h h'
        · simp at h'
        · rw [joinColumnTypes_list_plain _ (.inl hs)] at h'
          contradiction
      · simp at h
      · rw [joinColumnTypes_list_plain _ (.inl hs)] at h
        contradiction
  | plain id a =>
      rcases ht.shape with ⟨u, rfl, hu⟩ | rfl | ⟨hs, hj, j, rfl⟩
      · rcases hi.shape with ⟨v, rfl, hv⟩ | rfl | ⟨hs, -, j, rfl⟩
        · rw [joinColumnTypes_plain_list] at h ⊢
          exact h
        · simp at h'
        · rw [joinColumnTypes_list_plain _ (.inl hs)] at h'
          contradiction
      · rw [joinColumnTypes_json_right] at h
        rw [← h, joinColumnTypes_json_left]
      · rcases hi.shape with ⟨v, rfl, hv⟩ | rfl | ⟨hs', hk, k, rfl⟩
        · rw [joinColumnTypes_plain_list, hs, Bool.true_or, if_pos rfl] at h'
          rw [← h'] at hj
          contradiction
        · rw [joinColumnTypes_json_right] at h'
          rw [← h'] at hj
          contradiction
        · exact joinColumnTypes_scalar_trans ht hi h h'

/-! ## the order the join climbs -/

/-- How far up the lattice a type is: the join changes a plain type only to
one of greater rank. -/
def typeRank (t : LogicalType) : Nat :=
  if t = JSON then 5
  else match t with
    | .list _ => 4
    | t => if t = VARCHAR then 3 else if t = DOUBLE then 2
        else if t = BIGINT ∨ t = TIMESTAMP then 1 else 0

/-- The order in which columns widen. -/
def LogicalType.Le : LogicalType → LogicalType → Prop
  | .list a, .list b => Le a b
  | e, t => e = t ∨ typeRank e < typeRank t

open LogicalType (Le)

@[simp] theorem typeRank_list (t : LogicalType) : typeRank (.list t) = 4 := by simp [typeRank]

theorem le_plain_left {i : LogicalTypeId} {a : Bytes} {t : LogicalType} :
    Le (.plain i a) t ↔ .plain i a = t ∨ typeRank (.plain i a) < typeRank t := by
  rw [Le]; exact fun _ _ h => nomatch h

theorem le_plain_right {i : LogicalTypeId} {a : Bytes} {t : LogicalType} :
    Le t (.plain i a) ↔ t = .plain i a ∨ typeRank t < typeRank (.plain i a) := by
  rw [Le]; exact fun _ _ _ h => nomatch h

theorem LogicalType.Le.refl (t : LogicalType) : Le t t := by
  induction t with
  | plain => exact le_plain_left.mpr (.inl rfl)
  | list t ih => rwa [Le]

theorem LogicalType.Le.rank_le {e t : LogicalType} (h : Le e t) : typeRank e ≤ typeRank t := by
  match e, t with
  | .list a, .list b => simp
  | .plain _ _, t =>
      rcases le_plain_left.mp h with h | h
      · exact Nat.le_of_eq (congrArg typeRank h)
      · omega
  | .list _, .plain _ _ =>
      rcases le_plain_right.mp h with h | h
      · exact Nat.le_of_eq (congrArg typeRank h)
      · omega

theorem LogicalType.Le.antisymm {e t : LogicalType} (h : Le e t) (h' : Le t e) : e = t := by
  match e, t with
  | .list a, .list b =>
      rw [Le] at h h'
      rw [h.antisymm h']
  | .plain _ _, t =>
      rcases le_plain_left.mp h with h | h
      · exact h
      · have := h'.rank_le; omega
  | .list _, .plain _ _ =>
      rcases le_plain_right.mp h with h | h
      · exact h
      · have := h'.rank_le; omega

theorem LogicalType.Le.trans {e t u : LogicalType} (h : Le e t) (h' : Le t u) : Le e u := by
  match e, t, u with
  | .list a, .list b, .list c =>
      rw [Le] at h h' ⊢
      exact h.trans h'
  | .plain _ _, t, u =>
      rcases le_plain_left.mp h with h | h
      · exact h ▸ h'
      · exact le_plain_left.mpr (.inr (Nat.lt_of_lt_of_le h h'.rank_le))
  | .list _, t, .plain _ _ =>
      rcases le_plain_right.mp h' with h' | h'
      · exact h' ▸ h
      · exact le_plain_right.mpr (.inr (Nat.lt_of_le_of_lt h.rank_le h'))
  | .list a, .plain _ _, .list c =>
      rcases le_plain_right.mp h with h | h
      · exact nomatch h
      · rcases le_plain_left.mp h' with h' | h'
        · exact nomatch h'
        · simp only [typeRank_list] at h h'; omega

theorem typeRank_plain_lt {i : LogicalTypeId} {a : Bytes} (hj : isRawJSONType (.plain i a) = false)
    (hv : LogicalType.plain i a ≠ VARCHAR) : typeRank (.plain i a) < 3 := by
  have hne : LogicalType.plain i a ≠ JSON := fun h => by simp [h] at hj
  simp only [typeRank, if_neg hne, if_neg hv]
  split <;> [skip; split] <;> omega

theorem typeRank_numeric_lt {i : LogicalTypeId} {a : Bytes}
    (hn : isNumericType (.plain i a) = true) (hd : LogicalType.plain i a ≠ DOUBLE) :
    typeRank (.plain i a) < 2 := by
  cases i <;> simp_all [isNumericType, isIntegerType, typeRank]
  split <;> omega

theorem typeRank_temporal_lt {i : LogicalTypeId} {a : Bytes}
    (hn : isTemporalType (.plain i a) = true) (ht : LogicalType.plain i a ≠ TIMESTAMP) :
    typeRank (.plain i a) < 1 := by
  cases i <;> simp_all [isTemporalType, typeRank]

theorem typeRank_integer_lt {i : LogicalTypeId} {a : Bytes}
    (hn : isIntegerType (.plain i a) = true) (ht : LogicalType.plain i a ≠ BIGINT) :
    typeRank (.plain i a) < 1 := by
  cases i <;> simp_all [isIntegerType, typeRank]

/-- The only integer type RawDuck infers is `BIGINT`. -/
theorem Inferable.eq_bigint {i : LogicalType} (hi : Inferable i) (h : isIntegerType i = true) :
    i = BIGINT := by
  cases hi <;> first | rfl | exact absurd h (by decide) | exact nomatch h

theorem le_joinPlainTypes {id : LogicalTypeId} {a : Bytes} {i : LogicalType} (hi : Inferable i)
    (hj : isRawJSONType (.plain id a) = false) :
    Le (.plain id a) (joinPlainTypes (.plain id a) i) := by
  unfold joinPlainTypes
  split
  · exact .refl _
  split
  · next h =>
    rw [Bool.and_eq_true] at h
    split
    · exact .refl _
    · by_cases he : LogicalType.plain id a = BIGINT
      · exact le_plain_left.mpr (.inl (he.trans (hi.eq_bigint h.2).symm))
      · rw [hi.eq_bigint h.2]
        exact le_plain_left.mpr (.inr (typeRank_integer_lt h.1 he))
  split
  · next h =>
    rw [Bool.and_eq_true] at h
    by_cases he : LogicalType.plain id a = DOUBLE
    · exact le_plain_left.mpr (.inl he)
    · exact le_plain_left.mpr (.inr (typeRank_numeric_lt h.1 he))
  split
  · next h =>
    rw [Bool.and_eq_true] at h
    by_cases he : LogicalType.plain id a = TIMESTAMP
    · exact le_plain_left.mpr (.inl he)
    · exact le_plain_left.mpr (.inr (typeRank_temporal_lt h.1 he))
  · by_cases he : LogicalType.plain id a = VARCHAR
    · exact le_plain_left.mpr (.inl he)
    · exact le_plain_left.mpr (.inr (typeRank_plain_lt hj he))

theorem le_json (e : LogicalType) : Le e JSON := by
  cases e with
  | list e => exact le_plain_right.mpr (.inr (by simp; decide))
  | plain id a =>
      by_cases h : LogicalType.plain id a = JSON
      · exact le_plain_left.mpr (.inl h)
      · refine le_plain_left.mpr (.inr ?_)
        have hj : isRawJSONType (.plain id a) = false := by
          rw [Bool.eq_false_iff, ne_eq, isRawJSONType_iff]; exact h
        have h5 : typeRank JSON = 5 := by decide
        by_cases hv : LogicalType.plain id a = VARCHAR
        · rw [hv]; decide
        · have := typeRank_plain_lt hj hv; omega

/-- A column only ever moves up. -/
theorem le_joinColumnTypes (e : LogicalType) {i : LogicalType} (hi : Inferable i) :
    Le e (joinColumnTypes e i) := by
  induction e generalizing i with
  | list e ih =>
      rcases hi.shape with ⟨t, rfl, ht⟩ | rfl | ⟨hs, -, j, rfl⟩
      · rw [joinColumnTypes_list, Le]; exact ih ht
      · rw [joinColumnTypes_json_right]; exact le_json _
      · rw [joinColumnTypes_list_plain e (.inl hs)]; exact le_json _
  | plain id a =>
      rcases hi.shape with ⟨t, rfl, ht⟩ | rfl | ⟨hs, hj, j, rfl⟩
      · rw [joinColumnTypes_plain_list]
        split
        · exact le_json _
        · exact .refl _
      · rw [joinColumnTypes_json_right]; exact le_json _
      · cases he : isRawJSONType (.plain id a) with
        | true => rw [isRawJSONType_iff.mp he, joinColumnTypes_json_left]; exact .refl _
        | false =>
            rcases joinColumnTypes_plain_cases id a hj with h | h
            · rw [h]; exact .refl _
            · rw [h]; exact le_joinPlainTypes hi he

end RawDuck
