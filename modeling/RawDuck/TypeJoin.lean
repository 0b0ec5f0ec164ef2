import RawDuck.SchemaOrder

/-!
# RawDuck.TypeJoin

The two joins of column types: inference joins the values of one payload in the
schema tree, and a table joins the types of its batches (`joinColumnTypes`).

For values without nulls, objects and empty arrays both are a matter of what
stands at each level of nesting: scalars only, arrays only, or both.

* `nodeToType_scalars`, `nodeToType_arrays`, `nodeToType_mixed` — the type of such
  values, level by level;
* `listType_append_iff` — below an array the joins agree unless one batch has only
  scalars at a level where the other has only arrays (`ClashAt`);
* `nodeToType_append_iff` — exactly when the type of a payload is the join of the
  types of its parts.
-/

namespace RawDuck

open LogicalType

/-! ## plain values -/

mutual
/-- No null, no empty array and no object, at any depth. -/
def Json.isPlain : Json → Bool
  | .null | .obj _ => false
  | .arr elements => !elements.isEmpty && elementsPlain elements
  | _ => true

/-- The same for every element. -/
def elementsPlain : List Json → Bool
  | [] => true
  | val :: rest => val.isPlain && elementsPlain rest
end

theorem elementsPlain_iff {elements : List Json} :
    elementsPlain elements = true ↔ ∀ val ∈ elements, val.isPlain = true := by
  induction elements with
  | nil => simp [elementsPlain]
  | cons val rest ih => simp [elementsPlain, ih]

/-- `yyjson_is_arr`. -/
def Json.isArr : Json → Bool
  | .arr _ => true
  | _ => false

/-- A plain value is a scalar or an array. -/
theorem scalar_or_arr_of_plain {val : Json} (h : val.isPlain = true) :
    val.isScalar = true ∨ val.isArr = true := by
  cases val <;> simp_all [Json.isPlain, Json.isScalar, Json.isArr]

theorem elements_ne_nil_of_plain {val : Json} (harr : val.isArr = true)
    (h : val.isPlain = true) : valueElements val ≠ [] := by
  cases val <;> simp_all [Json.isPlain, Json.isArr, valueElements]

theorem plain_of_element {val : Json} (h : val.isPlain = true) {element : Json}
    (helement : element ∈ valueElements val) : element.isPlain = true := by
  cases val with
  | arr elements =>
      rw [Json.isPlain, Bool.and_eq_true] at h
      exact elementsPlain_iff.mp h.2 element helement
  | _ => exact absurd helement List.not_mem_nil

/-- Plain values, at least one. -/
structure PlainValues (vals : List Json) : Prop where
  ne_nil : vals ≠ []
  isPlain : ∀ val ∈ vals, val.isPlain = true

/-- Scalars, at least one, and nothing else. -/
def AllScalars (vals : List Json) : Prop := vals ≠ [] ∧ ∀ val ∈ vals, val.isScalar = true

/-- Arrays, at least one, and nothing else. -/
def AllArrays (vals : List Json) : Prop := vals ≠ [] ∧ ∀ val ∈ vals, val.isArr = true

/-- A scalar beside an array. -/
def Mixed (vals : List Json) : Prop :=
  (∃ val ∈ vals, val.isScalar = true) ∧ ∃ val ∈ vals, val.isArr = true

/-- The values at a level of nesting: the elements of the arrays one level up. -/
def layer (vals : List Json) : Nat → List Json
  | 0 => vals
  | i + 1 => layer (vals.flatMap valueElements) i

theorem not_isArr_of_scalar {val : Json} (h : val.isScalar = true) : val.isArr = false := by
  cases val <;> simp_all [Json.isScalar, Json.isArr]

/-- Plain values are all scalars, all arrays, or mixed. -/
theorem PlainValues.cases {vals : List Json} (h : PlainValues vals) :
    AllScalars vals ∨ AllArrays vals ∨ Mixed vals := by
  by_cases hscalar : ∃ val ∈ vals, val.isScalar = true
  · by_cases harr : ∃ val ∈ vals, val.isArr = true
    · exact .inr (.inr ⟨hscalar, harr⟩)
    · refine .inl ⟨h.ne_nil, fun val hval => ?_⟩
      cases scalar_or_arr_of_plain (h.isPlain val hval) with
      | inl hs => exact hs
      | inr ha => exact absurd ⟨val, hval, ha⟩ harr
  · refine .inr (.inl ⟨h.ne_nil, fun val hval => ?_⟩)
    cases scalar_or_arr_of_plain (h.isPlain val hval) with
    | inl hs => exact absurd ⟨val, hval, hs⟩ hscalar
    | inr ha => exact ha

theorem AllScalars.not_allArrays {vals : List Json} (h : AllScalars vals) : ¬ AllArrays vals := by
  intro harr
  obtain ⟨val, hval⟩ := List.exists_mem_of_ne_nil vals h.1
  have hs := not_isArr_of_scalar (h.2 val hval)
  rw [harr.2 val hval] at hs
  contradiction

theorem Mixed.not_allScalars {vals : List Json} (h : Mixed vals) : ¬ AllScalars vals := by
  obtain ⟨-, val, hval, harr⟩ := h
  intro hall
  rw [not_isArr_of_scalar (hall.2 val hval)] at harr
  contradiction

theorem Mixed.not_allArrays {vals : List Json} (h : Mixed vals) : ¬ AllArrays vals := by
  obtain ⟨⟨val, hval, hscalar⟩, -⟩ := h
  intro hall
  have hs := not_isArr_of_scalar hscalar
  rw [hall.2 val hval] at hs
  contradiction

theorem AllScalars.append {xs ys : List Json} (hx : AllScalars xs) (hy : AllScalars ys) :
    AllScalars (xs ++ ys) := by
  refine ⟨by simp [hx.1], fun val hval => ?_⟩
  cases List.mem_append.mp hval with
  | inl h => exact hx.2 val h
  | inr h => exact hy.2 val h

theorem AllArrays.append {xs ys : List Json} (hx : AllArrays xs) (hy : AllArrays ys) :
    AllArrays (xs ++ ys) := by
  refine ⟨by simp [hx.1], fun val hval => ?_⟩
  cases List.mem_append.mp hval with
  | inl h => exact hx.2 val h
  | inr h => exact hy.2 val h

theorem Mixed.append_left {xs : List Json} (h : Mixed xs) (ys : List Json) : Mixed (xs ++ ys) := by
  obtain ⟨⟨val, hval, hscalar⟩, val', hval', harr⟩ := h
  exact ⟨⟨val, List.mem_append_left ys hval, hscalar⟩, val', List.mem_append_left ys hval', harr⟩

theorem Mixed.append_right {ys : List Json} (h : Mixed ys) (xs : List Json) : Mixed (xs ++ ys) := by
  obtain ⟨⟨val, hval, hscalar⟩, val', hval', harr⟩ := h
  exact ⟨⟨val, List.mem_append_right xs hval, hscalar⟩, val', List.mem_append_right xs hval', harr⟩

theorem AllScalars.mixed_append {xs ys : List Json} (hx : AllScalars xs) (hy : AllArrays ys) :
    Mixed (xs ++ ys) := by
  obtain ⟨val, hval⟩ := List.exists_mem_of_ne_nil xs hx.1
  obtain ⟨val', hval'⟩ := List.exists_mem_of_ne_nil ys hy.1
  exact ⟨⟨val, List.mem_append_left ys hval, hx.2 val hval⟩,
    val', List.mem_append_right xs hval', hy.2 val' hval'⟩

theorem AllArrays.mixed_append {xs ys : List Json} (hx : AllArrays xs) (hy : AllScalars ys) :
    Mixed (xs ++ ys) := by
  obtain ⟨val, hval⟩ := List.exists_mem_of_ne_nil xs hx.1
  obtain ⟨val', hval'⟩ := List.exists_mem_of_ne_nil ys hy.1
  exact ⟨⟨val', List.mem_append_right xs hval', hy.2 val' hval'⟩,
    val, List.mem_append_left ys hval, hx.2 val hval⟩

theorem PlainValues.append {xs ys : List Json} (hx : PlainValues xs) (hy : PlainValues ys) :
    PlainValues (xs ++ ys) where
  ne_nil := by simp [hx.ne_nil]
  isPlain val hval := by
    cases List.mem_append.mp hval with
    | inl h => exact hx.isPlain val h
    | inr h => exact hy.isPlain val h

/-- The elements of plain arrays are plain values. -/
theorem PlainValues.elements {vals : List Json} (h : PlainValues vals) (harr : AllArrays vals) :
    PlainValues (vals.flatMap valueElements) where
  ne_nil := by
    obtain ⟨val, hval⟩ := List.exists_mem_of_ne_nil vals h.ne_nil
    have hne := elements_ne_nil_of_plain (harr.2 val hval) (h.isPlain val hval)
    intro hnil
    exact hne (List.flatMap_eq_nil_iff.mp hnil val hval)
  isPlain element helement := by
    obtain ⟨val, hval, hin⟩ := List.mem_flatMap.mp helement
    exact plain_of_element (h.isPlain val hval) hin

/-! ## the tree of plain values -/

variable {duck : Duck}

/-- The kinds of some values, joined. -/
def joinedKind (duck : Duck) (vals : List Json) : RawScalarKind :=
  (vals.map (sniffScalarKind duck)).foldl joinScalarKinds .unset

theorem foldl_sup_scalar (kinds : List RawScalarKind) (kind : RawScalarKind) :
    (kinds.map NodeKind.scalar).foldl (· ⊔ ·) (.scalar kind) =
      .scalar (kinds.foldl joinScalarKinds kind) := by
  induction kinds generalizing kind with
  | nil => rfl
  | cons k kinds ih =>
      rw [List.map_cons, List.foldl_cons, List.foldl_cons, ← ih]
      rfl

/-- Scalars make a scalar node of their kinds. -/
theorem specKind_scalars {vals : List Json} {depth : Nat} (hdepth : depth ≤ rawMaxNesting)
    (h : AllScalars vals) : specKind duck vals depth = .scalar (joinedKind duck vals) := by
  obtain ⟨hne, hall⟩ := h
  have hkinds : vals.map (valueKind duck) =
      (vals.map (sniffScalarKind duck)).map NodeKind.scalar := by
    rw [List.map_map]
    exact List.map_congr_left fun val hval => valueKind_scalar (hall val hval)
  rw [specKind_of_le hdepth, hkinds, joinedKind]
  cases vals with
  | nil => contradiction
  | cons val rest =>
      rw [List.map_cons, List.map_cons, List.foldl_cons, List.foldl_cons]
      exact foldl_sup_scalar _ _

theorem kind_le_specKind {vals : List Json} {depth : Nat} (hdepth : depth ≤ rawMaxNesting)
    {val : Json} (hval : val ∈ vals) : valueKind duck val ≤ specKind duck vals depth := by
  rw [specKind_of_le hdepth]
  exact (foldl_sup_le_iff.mp le_rfl).2 _ (List.mem_map_of_mem hval)

/-- Arrays make an array node. -/
theorem specKind_arrays {vals : List Json} {depth : Nat} (hdepth : depth ≤ rawMaxNesting)
    (h : AllArrays vals) : specKind duck vals depth = .array := by
  obtain ⟨val, hval⟩ := List.exists_mem_of_ne_nil vals h.1
  have hkind : ∀ val ∈ vals, valueKind duck val = .array := by
    intro val hval
    have harr := h.2 val hval
    cases val <;> simp_all [Json.isArr, valueKind]
  apply le_antisymm
  · rw [specKind_of_le hdepth, foldl_sup_le_iff]
    refine ⟨bot_le, fun kind hin => ?_⟩
    obtain ⟨val, hval, rfl⟩ := List.mem_map.mp hin
    rw [hkind val hval]
  · rw [← hkind val hval]
    exact kind_le_specKind hdepth hval

theorem NodeKind.eq_json {kind : NodeKind} (h : NodeKind.json ≤ kind) : kind = .json := by
  have hsup : joinNodeKinds .json kind = kind := sup_of_le_right h
  cases kind with
  | json => rfl
  | _ => contradiction

/-- A scalar beside an array makes a `JSON` node. -/
theorem specKind_mixed {vals : List Json} {depth : Nat} (hdepth : depth ≤ rawMaxNesting)
    (h : Mixed vals) : specKind duck vals depth = .json := by
  obtain ⟨⟨val, hval, hscalar⟩, val', hval', harr⟩ := h
  have hle := @kind_le_specKind duck vals depth hdepth val hval
  have hle' := @kind_le_specKind duck vals depth hdepth val' hval'
  rw [valueKind_scalar hscalar] at hle
  have hkind : valueKind duck val' = .array := by
    cases val' <;> simp_all [Json.isArr, valueKind]
  rw [hkind] at hle'
  exact NodeKind.eq_json (sup_le hle hle')

/-- The tree of values of one kind. -/
theorem foldMerge_of_kind {vals : List Json} {depth : Nat} :
    (∀ kind, specKind duck vals depth = .scalar kind →
      foldMerge duck .unset vals depth = .scalar kind) ∧
    (specKind duck vals depth = .array → foldMerge duck .unset vals depth =
      .array (foldMerge duck .unset (vals.flatMap valueElements) (depth + 1))) ∧
    (specKind duck vals depth = .json → foldMerge duck .unset vals depth = .json) := by
  have hfolded := @folded_foldMerge duck vals depth
  generalize foldMerge duck .unset vals depth = node at hfolded ⊢
  cases hfolded <;> simp_all

/-! ## types -/

/-- The type of the elements' column: of arrays of these values. -/
def listType (duck : Duck) (vals : List Json) (depth : Nat) : LogicalType :=
  nodeToType (.array (foldMerge duck .unset vals depth))

theorem nodeToType_array_array (element : RawNode) :
    nodeToType (.array (.array element)) = .list (nodeToType (.array element)) := by
  rw [nodeToType]

theorem listType_scalars {vals : List Json} {depth : Nat} (hdepth : depth ≤ rawMaxNesting)
    (h : AllScalars vals) :
    listType duck vals depth = .list (scalarKindToType (joinedKind duck vals)) := by
  rw [listType, foldMerge_of_kind.1 _ (specKind_scalars hdepth h), nodeToType]

theorem listType_arrays {vals : List Json} {depth : Nat} (hdepth : depth ≤ rawMaxNesting)
    (h : AllArrays vals) :
    listType duck vals depth = .list (listType duck (vals.flatMap valueElements) (depth + 1)) := by
  rw [listType, foldMerge_of_kind.2.1 (specKind_arrays hdepth h), nodeToType_array_array]
  rfl

theorem listType_mixed {vals : List Json} {depth : Nat} (hdepth : depth ≤ rawMaxNesting)
    (h : Mixed vals) : listType duck vals depth = JSON := by
  rw [listType, foldMerge_of_kind.2.2 (specKind_mixed hdepth h), nodeToType]

/-- Below the limit everything is `JSON`. -/
theorem listType_deep {vals : List Json} {depth : Nat} (hdepth : ¬ depth ≤ rawMaxNesting)
    (hne : vals ≠ []) : listType duck vals depth = JSON := by
  have hjson : specKind duck vals depth = .json := by
    rw [specKind_of_gt hdepth, if_neg (by simp [hne])]
  rw [listType, foldMerge_of_kind.2.2 hjson, nodeToType]

/-- The type of scalars. -/
theorem nodeToType_scalars {vals : List Json} (h : AllScalars vals) :
    nodeToType (inferSchema duck vals) = scalarKindToType (joinedKind duck vals) := by
  show nodeToType (foldMerge duck .unset vals 0) = _
  rw [foldMerge_of_kind.1 _ (specKind_scalars (Nat.zero_le _) h), nodeToType]

/-- The type of arrays. -/
theorem nodeToType_arrays {vals : List Json} (h : AllArrays vals) :
    nodeToType (inferSchema duck vals) = listType duck (vals.flatMap valueElements) 1 := by
  show nodeToType (foldMerge duck .unset vals 0) = _
  rw [foldMerge_of_kind.2.1 (specKind_arrays (Nat.zero_le _) h)]
  rfl

/-- The type of scalars beside arrays. -/
theorem nodeToType_mixed {vals : List Json} (h : Mixed vals) :
    nodeToType (inferSchema duck vals) = JSON := by
  show nodeToType (foldMerge duck .unset vals 0) = _
  rw [foldMerge_of_kind.2.2 (specKind_mixed (Nat.zero_le _) h), nodeToType]

/-! ## joins of scalar kinds -/

theorem joinedKind_append (xs ys : List Json) :
    joinedKind duck (xs ++ ys) = joinScalarKinds (joinedKind duck xs) (joinedKind duck ys) := by
  have hpull : ∀ (kinds : List RawScalarKind) (kind : RawScalarKind),
      kinds.foldl joinScalarKinds kind =
        joinScalarKinds kind (kinds.foldl joinScalarKinds .unset) := by
    intro kinds
    induction kinds with
    | nil => intro kind; cases kind <;> rfl
    | cons k kinds ih =>
        intro kind
        have hstart : joinScalarKinds .unset k = k := rfl
        rw [List.foldl_cons, List.foldl_cons, hstart, ih, ih k, joinScalarKinds_assoc]
  rw [joinedKind, List.map_append, List.foldl_append, hpull]
  rfl

/-- A joined kind is some kind, as soon as one of the two is. -/
theorem joinScalarKinds_ne_unset {kind : RawScalarKind} (h : kind ≠ .unset) (k : RawScalarKind) :
    joinScalarKinds kind k ≠ .unset := by
  cases kind with
  | unset => exact absurd rfl h
  | _ => cases k <;> decide

/-- Scalars have a kind. -/
theorem joinedKind_ne_unset {vals : List Json} (hne : vals ≠ []) :
    joinedKind duck vals ≠ .unset := by
  have hstep : ∀ (kinds : List RawScalarKind) (kind : RawScalarKind), kind ≠ .unset →
      kinds.foldl joinScalarKinds kind ≠ .unset := by
    intro kinds
    induction kinds with
    | nil => exact fun kind h => h
    | cons k kinds ih => exact fun kind h => ih _ (joinScalarKinds_ne_unset h k)
  cases vals with
  | nil => contradiction
  | cons val rest =>
      exact hstep (rest.map (sniffScalarKind duck)) _ (sniffScalarKind_ne_unset val)

/-- The two joins are one on scalar kinds. -/
theorem joinColumnTypes_scalarKinds {a b : RawScalarKind} (ha : a ≠ .unset) (hb : b ≠ .unset) :
    joinColumnTypes (scalarKindToType a) (scalarKindToType b) =
      scalarKindToType (joinScalarKinds a b) := by
  cases a <;> first
    | contradiction
    | cases b <;> first
      | contradiction
      | decide

/-! ## clashes -/

/-- The lists are all arrays down to a level at which one has only scalars and the
other only arrays. -/
def ClashAt (i : Nat) (xs ys : List Json) : Prop :=
  (∀ j < i, AllArrays (layer xs j) ∧ AllArrays (layer ys j)) ∧
    (AllScalars (layer xs i) ∧ AllArrays (layer ys i) ∨
      AllArrays (layer xs i) ∧ AllScalars (layer ys i))

theorem clashAt_zero {xs ys : List Json} :
    ClashAt 0 xs ys ↔ AllScalars xs ∧ AllArrays ys ∨ AllArrays xs ∧ AllScalars ys := by
  rw [ClashAt]
  show _ ∧ (AllScalars xs ∧ AllArrays ys ∨ AllArrays xs ∧ AllScalars ys) ↔ _
  simp

/-- A clash further down is one of the elements. -/
theorem clashAt_succ {i : Nat} {xs ys : List Json} :
    ClashAt (i + 1) xs ys ↔ (AllArrays xs ∧ AllArrays ys) ∧
      ClashAt i (xs.flatMap valueElements) (ys.flatMap valueElements) := by
  constructor
  · intro h
    refine ⟨h.1 0 (by omega), fun j hj => h.1 (j + 1) (by omega), h.2⟩
  · intro h
    obtain ⟨harrays, hbelow, hclash⟩ := h
    refine ⟨fun j hj => ?_, hclash⟩
    cases j with
    | zero => exact harrays
    | succ j => exact hbelow j (by omega)

/-- Two lists of arrays clash where their elements do. -/
theorem clash_arrays {depth : Nat} {xs ys : List Json} (hx : AllArrays xs) (hy : AllArrays ys) :
    (∃ i, depth + i ≤ rawMaxNesting ∧ ClashAt i xs ys) ↔
      ∃ i, depth + 1 + i ≤ rawMaxNesting ∧
        ClashAt i (xs.flatMap valueElements) (ys.flatMap valueElements) := by
  constructor
  · intro h
    obtain ⟨i, hi, hclash⟩ := h
    cases i with
    | zero =>
        cases clashAt_zero.mp hclash with
        | inl h => exact absurd hx h.1.not_allArrays
        | inr h => exact absurd hy h.2.not_allArrays
    | succ i => exact ⟨i, by omega, (clashAt_succ.mp hclash).2⟩
  · intro h
    obtain ⟨i, hi, hclash⟩ := h
    exact ⟨i + 1, by omega, clashAt_succ.mpr ⟨⟨hx, hy⟩, hclash⟩⟩

/-- Lists that are not both arrays clash at the top or not at all. -/
theorem clash_top {depth : Nat} (hdepth : depth ≤ rawMaxNesting) {xs ys : List Json}
    (h : ¬ (AllArrays xs ∧ AllArrays ys)) :
    (∃ i, depth + i ≤ rawMaxNesting ∧ ClashAt i xs ys) ↔
      AllScalars xs ∧ AllArrays ys ∨ AllArrays xs ∧ AllScalars ys := by
  constructor
  · intro hclash
    obtain ⟨i, -, hclash⟩ := hclash
    cases i with
    | zero => exact clashAt_zero.mp hclash
    | succ i => exact absurd (clashAt_succ.mp hclash).1 h
  · intro hclash
    exact ⟨0, hdepth, clashAt_zero.mpr hclash⟩

/-! ## the two joins -/

theorem joinColumnTypes_list_scalar (e : LogicalType) (kind : RawScalarKind) :
    joinColumnTypes (.list e) (scalarKindToType kind) = JSON := by
  cases kind <;> exact joinColumnTypes_list_plain e (.inl (by decide))

theorem joinColumnTypes_scalar_list (kind : RawScalarKind) (i : LogicalType) :
    joinColumnTypes (scalarKindToType kind) (.list i) = JSON := by
  cases kind <;> exact (joinColumnTypes_plain_list _ _ i).trans (if_pos (by decide))

/-- Scalars and scalars, whose kinds are joined. -/
theorem listType_scalars_append {xs ys : List Json} {depth : Nat} (hdepth : depth ≤ rawMaxNesting)
    (hx : AllScalars xs) (hy : AllScalars ys) :
    listType duck (xs ++ ys) depth =
      joinColumnTypes (listType duck xs depth) (listType duck ys depth) := by
  rw [listType_scalars hdepth hx, listType_scalars hdepth hy,
    listType_scalars hdepth (hx.append hy), joinColumnTypes_list,
    joinColumnTypes_scalarKinds (joinedKind_ne_unset hx.1) (joinedKind_ne_unset hy.1),
    joinedKind_append]

/-- Scalars beside arrays are `JSON`, and stay that with whatever comes. -/
theorem listType_mixed_append {xs ys : List Json} {depth : Nat} (hdepth : depth ≤ rawMaxNesting)
    (h : Mixed xs ∨ Mixed ys) :
    listType duck (xs ++ ys) depth =
      joinColumnTypes (listType duck xs depth) (listType duck ys depth) := by
  cases h with
  | inl hx =>
      rw [listType_mixed hdepth hx, listType_mixed hdepth (hx.append_left ys),
        joinColumnTypes_json_left]
  | inr hy =>
      rw [listType_mixed hdepth hy, listType_mixed hdepth (hy.append_right xs),
        joinColumnTypes_json_right]

/-- Scalars and arrays together are `JSON`, while a `LIST` of each makes a `LIST`. -/
theorem listType_clash {xs ys : List Json} {depth : Nat} (hdepth : depth ≤ rawMaxNesting)
    (h : AllScalars xs ∧ AllArrays ys ∨ AllArrays xs ∧ AllScalars ys) :
    listType duck (xs ++ ys) depth ≠
      joinColumnTypes (listType duck xs depth) (listType duck ys depth) := by
  cases h with
  | inl h =>
      rw [listType_scalars hdepth h.1, listType_arrays hdepth h.2,
        listType_mixed hdepth (h.1.mixed_append h.2), joinColumnTypes_list]
      simp
  | inr h =>
      rw [listType_arrays hdepth h.1, listType_scalars hdepth h.2,
        listType_mixed hdepth (h.1.mixed_append h.2), joinColumnTypes_list]
      simp

/-- Below the limit there is nothing left to disagree on. -/
theorem listType_deep_append_iff {xs ys : List Json} {depth : Nat}
    (hdeep : ¬ depth ≤ rawMaxNesting) (hx : PlainValues xs) (hy : PlainValues ys) :
    listType duck (xs ++ ys) depth =
        joinColumnTypes (listType duck xs depth) (listType duck ys depth) ↔
      ¬ ∃ i, depth + i ≤ rawMaxNesting ∧ ClashAt i xs ys := by
  rw [listType_deep hdeep hx.ne_nil, listType_deep hdeep hy.ne_nil,
    listType_deep hdeep (hx.append hy).ne_nil, joinColumnTypes_self]
  refine iff_of_true rfl fun h => ?_
  obtain ⟨i, hi, -⟩ := h
  omega

/-- **Below an array** the joins agree unless the batches clash at some level: there
a `LIST` stands for scalars as for arrays. -/
theorem listType_append_iff {n : Nat} {xs ys : List Json} {depth : Nat}
    (hn : rawMaxNesting < depth + n) (hx : PlainValues xs) (hy : PlainValues ys) :
    listType duck (xs ++ ys) depth =
        joinColumnTypes (listType duck xs depth) (listType duck ys depth) ↔
      ¬ ∃ i, depth + i ≤ rawMaxNesting ∧ ClashAt i xs ys := by
  induction n generalizing xs ys depth with
  | zero => exact listType_deep_append_iff (by omega) hx hy
  | succ n ih =>
      by_cases hdepth : depth ≤ rawMaxNesting
      · by_cases harrays : AllArrays xs ∧ AllArrays ys
        · obtain ⟨hxa, hya⟩ := harrays
          rw [clash_arrays hxa hya, listType_arrays hdepth hxa, listType_arrays hdepth hya,
            listType_arrays hdepth (hxa.append hya), joinColumnTypes_list, LogicalType.list.injEq,
            List.flatMap_append]
          exact ih (by omega) (hx.elements hxa) (hy.elements hya)
        · rw [clash_top hdepth harrays]
          by_cases hclash : AllScalars xs ∧ AllArrays ys ∨ AllArrays xs ∧ AllScalars ys
          · exact iff_of_false (listType_clash hdepth hclash) fun h => h hclash
          · refine iff_of_true ?_ hclash
            by_cases hmixed : Mixed xs ∨ Mixed ys
            · exact listType_mixed_append hdepth hmixed
            · have hxs := hx.cases
              have hys := hy.cases
              exact listType_scalars_append hdepth (by tauto) (by tauto)
      · exact listType_deep_append_iff hdepth hx hy

/-- A kind that is `VARCHAR` came from two that meet there. -/
theorem exists_varchar_pair {kinds : List RawScalarKind} {kind : RawScalarKind}
    (h : kinds.foldl joinScalarKinds kind = .varchar) :
    ∃ k ∈ kind :: kinds, ∃ k' ∈ kind :: kinds, joinScalarKinds k k' = .varchar := by
  have hself : ∀ k, joinScalarKinds k k = k := joinScalarKinds_self
  have htriple : ∀ a b c : RawScalarKind, joinScalarKinds (joinScalarKinds a b) c = .varchar →
      joinScalarKinds a b = .varchar ∨ joinScalarKinds a c = .varchar ∨
        joinScalarKinds b c = .varchar := by
    intro a b c
    cases a <;> cases b <;> cases c <;> decide
  induction kinds generalizing kind with
  | nil => exact ⟨kind, List.mem_cons_self, kind, List.mem_cons_self, (hself kind).trans h⟩
  | cons k₀ kinds ih =>
      -- the pair is one of the list, or has the join of the first two in it
      have hfirst : kind ∈ kind :: k₀ :: kinds := List.mem_cons_self
      have hsecond : k₀ ∈ kind :: k₀ :: kinds := List.mem_cons_of_mem _ List.mem_cons_self
      have hrest : ∀ k ∈ kinds, k ∈ kind :: k₀ :: kinds := fun k hk =>
        List.mem_cons_of_mem _ (List.mem_cons_of_mem _ hk)
      have hjoined : ∀ k, joinScalarKinds (joinScalarKinds kind k₀) k = .varchar →
          k ∈ kind :: k₀ :: kinds →
          ∃ k ∈ kind :: k₀ :: kinds, ∃ k' ∈ kind :: k₀ :: kinds,
            joinScalarKinds k k' = .varchar := by
        intro k hk hin
        obtain h | h | h := htriple kind k₀ k hk
        · exact ⟨kind, hfirst, k₀, hsecond, h⟩
        · exact ⟨kind, hfirst, k, hin, h⟩
        · exact ⟨k₀, hsecond, k, hin, h⟩
      obtain ⟨k, hk, k', hk', hmeet⟩ := ih h
      cases List.mem_cons.mp hk with
      | inl hk =>
          cases List.mem_cons.mp hk' with
          | inl hk' =>
              rw [hk, hk', hself] at hmeet
              exact ⟨kind, hfirst, k₀, hsecond, hmeet⟩
          | inr hk' => exact hjoined k' (hk ▸ hmeet) (hrest k' hk')
      | inr hk =>
          cases List.mem_cons.mp hk' with
          | inl hk' =>
              rw [joinScalarKinds_comm, hk'] at hmeet
              exact hjoined k hmeet (hrest k hk)
          | inr hk' => exact ⟨k, hrest k hk, k', hrest k' hk', hmeet⟩

theorem joinScalarKinds_joinedKind {vals : List Json} (h : AllScalars vals) {val : Json}
    (hval : val ∈ vals) :
    joinScalarKinds (sniffScalarKind duck val) (joinedKind duck vals) = joinedKind duck vals := by
  have hle := @kind_le_specKind duck vals 0 (Nat.zero_le _) val hval
  rw [valueKind_scalar (h.2 val hval), specKind_scalars (Nat.zero_le _) h] at hle
  have hsup := sup_of_le_right hle
  rw [sup_eq_joinNodeKinds, joinNodeKinds, NodeKind.scalar.injEq] at hsup
  exact hsup

/-- The kind of some scalars is `VARCHAR` when two of them meet there. -/
theorem joinedKind_varchar_iff {vals : List Json} (h : AllScalars vals) :
    joinedKind duck vals = .varchar ↔ ∃ val ∈ vals, ∃ val' ∈ vals,
      joinScalarKinds (sniffScalarKind duck val) (sniffScalarKind duck val') = .varchar := by
  constructor
  · intro hkind
    cases vals with
    | nil => exact absurd rfl h.1
    | cons first rest =>
        have hfold : (rest.map (sniffScalarKind duck)).foldl joinScalarKinds
            (sniffScalarKind duck first) = .varchar := hkind
        obtain ⟨k, hk, k', hk', hmeet⟩ := exists_varchar_pair hfold
        rw [← List.map_cons] at hk hk'
        obtain ⟨val, hval, rfl⟩ := List.mem_map.mp hk
        obtain ⟨val', hval', rfl⟩ := List.mem_map.mp hk'
        exact ⟨val, hval, val', hval', hmeet⟩
  · intro hpair
    obtain ⟨val, hval, val', hval', hmeet⟩ := hpair
    calc joinedKind duck vals
        = joinScalarKinds (sniffScalarKind duck val)
            (joinScalarKinds (sniffScalarKind duck val') (joinedKind duck vals)) := by
          rw [joinScalarKinds_joinedKind h hval', joinScalarKinds_joinedKind h hval]
      _ = joinScalarKinds .varchar (joinedKind duck vals) := by
          rw [← joinScalarKinds_assoc, hmeet]
      _ = .varchar := joinScalarKinds_varchar _

/-- Joining with no values at all is joining with `VARCHAR`: these batches keep
their type then. -/
def KeepsWithVarchar (duck : Duck) (vals : List Json) : Prop :=
  vals = [] ∨ Mixed vals ∨
    (AllScalars vals ∧ ∃ val ∈ vals, ∃ val' ∈ vals,
      joinScalarKinds (sniffScalarKind duck val) (sniffScalarKind duck val') = .varchar) ∨
    (AllArrays vals ∧ Mixed (layer vals 1))

/-- The type of arrays is `JSON` when their elements are scalars beside arrays, and
a `LIST` otherwise. -/
theorem nodeToType_arrays_cases {vals : List Json} (hplain : PlainValues vals)
    (h : AllArrays vals) :
    (Mixed (layer vals 1) ∧ nodeToType (inferSchema duck vals) = JSON) ∨
      (¬ Mixed (layer vals 1) ∧ ∃ t, nodeToType (inferSchema duck vals) = .list t) := by
  have hdepth : 1 ≤ rawMaxNesting := by decide
  rw [nodeToType_arrays h]
  obtain hs | ha | hm := (hplain.elements h).cases
  · exact .inr ⟨fun hm => hm.not_allScalars hs, _, listType_scalars hdepth hs⟩
  · exact .inr ⟨fun hm => hm.not_allArrays ha, _, listType_arrays hdepth ha⟩
  · exact .inl ⟨hm, listType_mixed hdepth hm⟩

theorem keepsWithVarchar_iff {vals : List Json} (hplain : ∀ val ∈ vals, val.isPlain = true) :
    KeepsWithVarchar duck vals ↔ nodeToType (inferSchema duck vals) = VARCHAR ∨
      nodeToType (inferSchema duck vals) = JSON := by
  by_cases hne : vals = []
  · exact iff_of_true (.inl hne) (.inl (by rw [hne]; rfl))
  have hvals : PlainValues vals := ⟨hne, hplain⟩
  obtain hs | ha | hm := hvals.cases
  · have htype : ∀ kind : RawScalarKind, kind ≠ .unset →
        (scalarKindToType kind = VARCHAR ∨ scalarKindToType kind = JSON ↔ kind = .varchar) := by
      intro kind h
      cases kind <;> first
        | contradiction
        | decide
    have hnot : ¬ Mixed vals := fun hm => hm.not_allScalars hs
    rw [nodeToType_scalars hs, htype _ (joinedKind_ne_unset hne), joinedKind_varchar_iff hs]
    simp [KeepsWithVarchar, hne, hnot, hs, hs.not_allArrays]
  · have hnot : ¬ Mixed vals := fun hm => hm.not_allArrays ha
    have hscalars : ¬ AllScalars vals := fun h => h.not_allArrays ha
    obtain ⟨hm, htype⟩ | ⟨hm, t, htype⟩ := @nodeToType_arrays_cases duck vals hvals ha
    · exact iff_of_true (.inr (.inr (.inr ⟨ha, hm⟩))) (.inr htype)
    · rw [htype]
      simp [KeepsWithVarchar, hne, hnot, hscalars, hm]
  · exact iff_of_true (.inr (.inl hm)) (.inr (nodeToType_mixed hm))

/-- A `VARCHAR` column of no values takes no other type but `JSON`. -/
theorem joinColumnTypes_varchar_iff {t : LogicalType} (h : Inferable t) :
    (t = joinColumnTypes VARCHAR t ↔ t = VARCHAR ∨ t = JSON) ∧
      (t = joinColumnTypes t VARCHAR ↔ t = VARCHAR ∨ t = JSON) := by
  cases h with
  | @list t ht =>
      rw [joinColumnTypes_plain_list, joinColumnTypes_list_plain t (.inl (by decide)),
        if_pos (by decide)]
      simp
  | _ => decide

/-- Parts that are not both arrays join as the types of their values do. -/
theorem nodeToType_append_top {xs ys : List Json} (hx : PlainValues xs) (hy : PlainValues ys)
    (harrays : ¬ (AllArrays xs ∧ AllArrays ys)) :
    nodeToType (inferSchema duck (xs ++ ys)) =
      joinColumnTypes (nodeToType (inferSchema duck xs)) (nodeToType (inferSchema duck ys)) := by
  obtain hxs | hxa | hxm := hx.cases
  · obtain hys | hya | hym := hy.cases
    · rw [nodeToType_scalars hxs, nodeToType_scalars hys, nodeToType_scalars (hxs.append hys),
        joinColumnTypes_scalarKinds (joinedKind_ne_unset hxs.1) (joinedKind_ne_unset hys.1),
        joinedKind_append]
    · rw [nodeToType_mixed (hxs.mixed_append hya), nodeToType_scalars hxs]
      obtain ⟨-, htype⟩ | ⟨-, t, htype⟩ := @nodeToType_arrays_cases duck ys hy hya
      · rw [htype, joinColumnTypes_json_right]
      · rw [htype, joinColumnTypes_scalar_list]
    · rw [nodeToType_mixed (hym.append_right xs), nodeToType_mixed hym, joinColumnTypes_json_right]
  · obtain hys | hya | hym := hy.cases
    · rw [nodeToType_mixed (hxa.mixed_append hys), nodeToType_scalars hys]
      obtain ⟨-, htype⟩ | ⟨-, t, htype⟩ := @nodeToType_arrays_cases duck xs hx hxa
      · rw [htype, joinColumnTypes_json_left]
      · rw [htype, joinColumnTypes_list_scalar]
    · exact absurd ⟨hxa, hya⟩ harrays
    · rw [nodeToType_mixed (hym.append_right xs), nodeToType_mixed hym, joinColumnTypes_json_right]
  · rw [nodeToType_mixed (hxm.append_left ys), nodeToType_mixed hxm, joinColumnTypes_json_left]

/-- **The type of a payload** is the join of the types of its two parts exactly
when an empty part meets values that are `JSON` or `VARCHAR`, and no level below
the top has only scalars in one part and only arrays in the other: there the schema
tree makes the whole column `JSON`, and the table join an element type. -/
theorem nodeToType_append_iff (duck : Duck) (xs ys : List Json)
    (hx : ∀ val ∈ xs, val.isPlain = true) (hy : ∀ val ∈ ys, val.isPlain = true) :
    nodeToType (inferSchema duck (xs ++ ys)) =
        joinColumnTypes (nodeToType (inferSchema duck xs)) (nodeToType (inferSchema duck ys)) ↔
      (xs = [] → KeepsWithVarchar duck ys) ∧ (ys = [] → KeepsWithVarchar duck xs) ∧
        ∀ i, 1 ≤ i → i ≤ rawMaxNesting → ¬ ClashAt i xs ys := by
  have hempty : nodeToType (inferSchema duck []) = VARCHAR := rfl
  have hclash : ¬ (AllArrays xs ∧ AllArrays ys) →
      ∀ i, 1 ≤ i → i ≤ rawMaxNesting → ¬ ClashAt i xs ys :=
    fun harrays i hi _ h => harrays (h.1 0 (by omega))
  by_cases hxne : xs = []
  · have hnone := hclash fun h => h.1.1 hxne
    rw [hxne, List.nil_append, hempty, (joinColumnTypes_varchar_iff (inferable_nodeToType _)).1,
      ← keepsWithVarchar_iff hy]
    exact ⟨fun h => ⟨fun _ => h, fun _ => .inl rfl, hxne ▸ hnone⟩, fun h => h.1 rfl⟩
  by_cases hyne : ys = []
  · have hnone := hclash fun h => h.2.1 hyne
    rw [hyne, List.append_nil, hempty, (joinColumnTypes_varchar_iff (inferable_nodeToType _)).2,
      ← keepsWithVarchar_iff hx]
    exact ⟨fun h => ⟨fun _ => .inl rfl, fun _ => h, hyne ▸ hnone⟩, fun h => h.2.1 rfl⟩
  have hxs : PlainValues xs := ⟨hxne, hx⟩
  have hys : PlainValues ys := ⟨hyne, hy⟩
  by_cases harrays : AllArrays xs ∧ AllArrays ys
  · obtain ⟨hxa, hya⟩ := harrays
    have hbelow := @listType_append_iff duck rawMaxNesting _ _ 1 (by omega) (hxs.elements hxa)
      (hys.elements hya)
    rw [nodeToType_arrays hxa, nodeToType_arrays hya, nodeToType_arrays (hxa.append hya),
      List.flatMap_append, hbelow]
    constructor
    · intro h
      refine ⟨fun he => absurd he hxne, fun he => absurd he hyne, fun i hi hle hat => ?_⟩
      cases i with
      | zero => omega
      | succ i => exact h ⟨i, by omega, (clashAt_succ.mp hat).2⟩
    · intro h hat
      obtain ⟨i, hle, hat⟩ := hat
      exact h.2.2 (i + 1) (by omega) (by omega) (clashAt_succ.mpr ⟨⟨hxa, hya⟩, hat⟩)
  · exact iff_of_true (nodeToType_append_top hxs hys harrays)
      ⟨fun he => absurd he hxne, fun he => absurd he hyne, hclash harrays⟩

/-- Integers and doubles, in arrays and alone. -/
theorem nodeToType_append_numbers :
    nodeToType (inferSchema smallDuck ([.arr [.uint 1]] ++ [.arr [.real ⟨0⟩, .uint 2]])) =
      joinColumnTypes (nodeToType (inferSchema smallDuck [.arr [.uint 1]]))
        (nodeToType (inferSchema smallDuck [.arr [.real ⟨0⟩, .uint 2]])) := by
  have hscalars : AllScalars [Json.uint 1] := ⟨by simp, by decide⟩
  refine (nodeToType_append_iff smallDuck _ _ (by decide) (by decide)).mpr ⟨by simp, by simp, ?_⟩
  intro i hi _ hat
  cases i with
  | zero => omega
  | succ i =>
      have hbelow : ClashAt i [Json.uint 1] [Json.real ⟨0⟩, Json.uint 2] := (clashAt_succ.mp hat).2
      cases i with
      | zero =>
          cases clashAt_zero.mp hbelow with
          | inl h => exact absurd (h.2.2 (.uint 2) (by simp)) (by decide)
          | inr h => exact hscalars.not_allArrays h.1
      | succ i => exact hscalars.not_allArrays (hbelow.1 0 (by omega)).1

/-- An array of numbers in one batch, an array of arrays of them in the other: one
payload of both has a `JSON` column, the table a `JSON[]` one. -/
theorem nodeToType_append_splitsArrays :
    Json.isPlain (.arr [.uint 1]) = true ∧ Json.isPlain (.arr [.arr [.uint 1]]) = true ∧
    nodeToType (inferSchema smallDuck ([.arr [.uint 1]] ++ [.arr [.arr [.uint 1]]])) = JSON ∧
    joinColumnTypes (nodeToType (inferSchema smallDuck [.arr [.uint 1]]))
      (nodeToType (inferSchema smallDuck [.arr [.arr [.uint 1]]])) = .list JSON ∧
    nodeToType (inferSchema smallDuck ([.arr [.uint 1]] ++ [.arr [.arr [.uint 1]]])) ≠
      joinColumnTypes (nodeToType (inferSchema smallDuck [.arr [.uint 1]]))
        (nodeToType (inferSchema smallDuck [.arr [.arr [.uint 1]]])) := by
  have hone :
      nodeToType (inferSchema smallDuck ([.arr [.uint 1]] ++ [.arr [.arr [.uint 1]]])) = JSON :=
    rfl
  have htwo : joinColumnTypes (nodeToType (inferSchema smallDuck [.arr [.uint 1]]))
      (nodeToType (inferSchema smallDuck [.arr [.arr [.uint 1]]])) = .list JSON := rfl
  refine ⟨by decide, by decide, hone, htwo, ?_⟩
  rw [hone, htwo]
  simp

end RawDuck
