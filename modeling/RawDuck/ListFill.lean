import RawDuck.Serialize

/-!
# RawDuck.ListFill

What a list column holds after `FillVector`.

Nested arrays are written level by level: the entries of one level, and behind
what the child vector holds the elements of all its arrays.

* `Vec.Extends` — nothing that was written before has changed, at any level;
* `Encodes` — a cell is the value it was written from, element by element;
* `fillVector_faithful_iff` — `FillVector` extends the vector and encodes the
  values, unless it has to write a NaN or an infinite number as text.
-/

namespace RawDuck

open Fallible LogicalType

/-! ## what was written before -/

/-- The entries written before, and what the child vector held, are unchanged:
the vector has only been written behind its end. -/
inductive Vec.Extends : {t : LogicalType} → Vec t → Vec t → Prop where
  | flat {id : LogicalTypeId} {typeAlias : Bytes} (data more : List Cell) :
      Extends (.flat data : Vec (.plain id typeAlias)) (.flat (data ++ more))
  | list {child : LogicalType} {elements elements' : Vec child}
      (entries more : List ListEntry) :
      elements.Extends elements' →
        Extends (.list entries elements) (.list (entries ++ more) elements')

/-- `FillVector` at the end of a vector writes behind its end only. -/
theorem extends_fillVector {duck : Duck} {t : LogicalType} {v v' : Vec t}
    {vals : List (Option Json)} (h : fillVector duck vals v v.size = .ok v') : v.Extends v' := by
  induction t generalizing vals with
  | plain id a =>
      cases v with
      | flat data =>
          rw [fillVector, Vec.size] at h
          obtain ⟨cells, -, h⟩ := bind_eq_ok.mp h
          rw [writeFrom_length, pure_eq_ok] at h
          exact h ▸ .flat data cells
  | list c ih =>
      cases v with
      | list entries elements =>
          rw [fillVector, show (Vec.list entries elements).size = entries.length from rfl] at h
          obtain ⟨elements', hel, h⟩ := bind_eq_ok.mp h
          rw [writeFrom_length, pure_eq_ok] at h
          exact h ▸ .list entries _ (ih hel)

/-! ## what is read back -/

/-- A cell of a type without children is the value it was written from. -/
inductive EncodesScalar (duck : Duck) : LogicalType → Json → Cell → Prop where
  | text {type : LogicalType} {val : Json} {text : Bytes} : isWritten type val = true →
      duck.valWrite val = some text → EncodesScalar duck type val (.varchar text)
  | string {typeAlias : Bytes} (s : Bytes) : isRawJSONType (.plain .varchar typeAlias) = false →
      EncodesScalar duck (.plain .varchar typeAlias) (.str s) (.varchar s)
  | boolean {typeAlias : Bytes} (b : Bool) :
      EncodesScalar duck (.plain .boolean typeAlias) (.bool b) (.bool b)
  | sint {typeAlias : Bytes} (n : Int64) :
      EncodesScalar duck (.plain .bigint typeAlias) (.sint n) (.bigint n)
  | uint {typeAlias : Bytes} {n : UInt64} {i : Int64} : i.toInt = n.toNat →
      EncodesScalar duck (.plain .bigint typeAlias) (.uint n) (.bigint i)
  | real {typeAlias : Bytes} (d : Double) :
      EncodesScalar duck (.plain .double typeAlias) (.real d) (.double d)
  | uintToDouble {typeAlias : Bytes} (n : UInt64) :
      EncodesScalar duck (.plain .double typeAlias) (.uint n) (.double (duck.uintToDouble n))
  | sintToDouble {typeAlias : Bytes} (n : Int64) :
      EncodesScalar duck (.plain .double typeAlias) (.sint n) (.double (duck.sintToDouble n))
  | date {typeAlias s : Bytes} {date : Int} : duck.tryConvertDate s = some (date, s.length, false) →
      EncodesScalar duck (.plain .date typeAlias) (.str s) (.date date)
  | timestamp {typeAlias s : Bytes} {ts : Int} : duck.tryConvertTimestamp s = some ts →
      EncodesScalar duck (.plain .timestamp typeAlias) (.str s) (.timestamp ts)

/-- A cell is the value it was written from: NULL exactly for a missing value or
a null, and for an array the list of its elements in order. -/
def Encodes (duck : Duck) : LogicalType → Option Json → Cell → Prop
  | .plain id typeAlias, val, cell => (isAbsent val = true ∧ cell = .null) ∨
      isAbsent val = false ∧ ∃ v, val = some v ∧ EncodesScalar duck (.plain id typeAlias) v cell
  | .list c, val, cell => (isAbsent val = true ∧ cell = .null) ∨
      ∃ elements cells, val = some (.arr elements) ∧ cell = .list cells ∧
        List.Forall₂ (fun e x => Encodes duck c (some e) x) elements cells

variable {duck : Duck}

theorem encodes_absent (type : LogicalType) {val : Option Json} (h : isAbsent val = true) :
    Encodes duck type val .null := by
  cases type with
  | plain id a => exact .inl ⟨h, rfl⟩
  | list c => exact .inl ⟨h, rfl⟩

theorem toInt_toInt64 {n : UInt64} (h : n ≤ 9223372036854775807) : n.toInt64.toInt = n.toNat := by
  have hle : n.toNat ≤ 9223372036854775807 := UInt64.le_iff_toNat_le.mp h
  have hof : n.toInt64 = Int64.ofNat n.toNat := by
    rw [← UInt64.toInt64_ofNat', UInt64.ofNat_toNat]
  rw [hof, Int64.toInt_ofNat_of_lt (by omega)]

/-- What is handed to `WriteJSONString` comes back as its text. -/
theorem encodesScalar_of_written {type : LogicalType} {val : Json} {cell : Cell}
    (hw : isWritten type val = true) (h : fillScalar duck type (some val) = .ok cell) :
    EncodesScalar duck type val cell := by
  rw [fillScalar_of_written hw] at h
  obtain ⟨text, htext, h⟩ := bind_eq_ok.mp h
  obtain rfl := pure_eq_ok.mp h
  rw [writeJSONString] at htext
  split at htext
  · next hwrite => exact .text hw (Except.ok.inj htext ▸ hwrite)
  · contradiction

/-- A JSON column hands everything but nulls to `WriteJSONString`. -/
theorem not_isRawJSONType_of_not_written {type : LogicalType} {val : Json}
    (hw : isWritten type val = false) (hpresent : isAbsent (some val) = false) :
    isRawJSONType type = false := by
  cases hj : isRawJSONType type with
  | false => rfl
  | true =>
      rw [isWritten_of_json hj] at hw
      · exact nomatch hw
      · cases val with
        | null => exact nomatch hpresent
        | _ => rfl

/-- A value that the type holds is encoded by the cell it is written to. -/
theorem encodesScalar_of_holds {id : LogicalTypeId} {a : Bytes} {val : Json} {cell : Cell}
    (h : fillScalar duck (.plain id a) (some val) = .ok cell)
    (hholds : holdsScalar duck (.plain id a) val = true) (hpresent : isAbsent (some val) = false) :
    EncodesScalar duck (.plain id a) val cell := by
  cases hw : isWritten (.plain id a) val with
  | true => exact encodesScalar_of_written hw h
  | false =>
      have hj := not_isRawJSONType_of_not_written hw hpresent
      simp only [holdsScalar, hj, Bool.false_or] at hholds
      cases id with
      | boolean =>
          cases val with
          | bool b =>
              simp only [fillScalar, hj, Bool.false_eq_true, if_false, Except.ok.injEq] at h
              exact h ▸ .boolean b
          | null => contradiction
          | _ => contradiction
      | bigint =>
          cases val with
          | uint n =>
              simp only [fillScalar, hj, Bool.false_eq_true, if_false, Except.ok.injEq] at h
              exact h ▸ .uint (toInt_toInt64 (by simpa using hholds))
          | sint n =>
              simp only [fillScalar, hj, Bool.false_eq_true, if_false, Except.ok.injEq] at h
              exact h ▸ .sint n
          | null => contradiction
          | _ => contradiction
      | double =>
          cases val with
          | uint n =>
              simp only [fillScalar, hj, Bool.false_eq_true, if_false, Except.ok.injEq] at h
              exact h ▸ .uintToDouble n
          | sint n =>
              simp only [fillScalar, hj, Bool.false_eq_true, if_false, Except.ok.injEq] at h
              exact h ▸ .sintToDouble n
          | real d =>
              simp only [fillScalar, hj, Bool.false_eq_true, if_false, Except.ok.injEq] at h
              exact h ▸ .real d
          | null => contradiction
          | _ => contradiction
      | date =>
          cases val with
          | str s =>
              cases hd : duck.tryConvertDate s with
              | none => simp [acceptsDate, hd] at hholds
              | some result =>
                  obtain ⟨date, pos, special⟩ := result
                  simp only [acceptsDate, hd, Bool.and_eq_true, beq_iff_eq, Bool.not_eq_true']
                    at hholds
                  obtain ⟨rfl, rfl⟩ := hholds
                  simp only [fillScalar, hj, hd, Bool.false_eq_true, if_false, Except.ok.injEq] at h
                  exact h ▸ .date hd
          | null => contradiction
          | _ => contradiction
      | timestamp =>
          cases val with
          | str s =>
              obtain ⟨ts, hts⟩ := Option.isSome_iff_exists.mp hholds
              simp only [fillScalar, hj, hts, Bool.false_eq_true, if_false, Except.ok.injEq] at h
              exact h ▸ .timestamp hts
          | null => contradiction
          | _ => contradiction
      | varchar =>
          cases val with
          | str s =>
              simp only [fillScalar, hj, Bool.false_eq_true, if_false, Except.ok.injEq] at h
              exact h ▸ .string s hj
          | null => contradiction
          | _ => contradiction
      | _ =>
          cases val with
          | null => contradiction
          | _ => contradiction

/-- **A value that the type holds is encoded by its cell**, at every level of a
list. -/
theorem encodes_fillCell {type : LogicalType} {val : Option Json} {cell : Cell}
    (h : fillCell duck type val = .ok cell)
    (hholds : ∀ v, val = some v → holds duck type v = true) : Encodes duck type val cell := by
  cases habsent : isAbsent val with
  | true =>
      rw [fillCell_absent type habsent] at h
      exact Except.ok.inj h ▸ encodes_absent type habsent
  | false =>
      cases val with
      | none => contradiction
      | some v =>
          have hv := hholds v rfl
          clear hholds
          induction type generalizing v cell with
          | plain id a =>
              rw [fillCell] at h
              exact .inr ⟨habsent, v, rfl, encodesScalar_of_holds h hv habsent⟩
          | list c ih =>
              rcases holds_list_cases hv with rfl | ⟨elements, rfl, hall⟩
              · contradiction
              · rw [fillCell, isArray, if_pos rfl] at h
                obtain ⟨cells, hcells, h⟩ := bind_eq_ok.mp h
                obtain rfl := pure_eq_ok.mp h
                refine .inr ⟨elements, cells, rfl, rfl, ?_⟩
                have hpair := mapM_eq_ok.mp hcells
                refine List.forall₂_iff_get.mpr ⟨hpair.length_eq, fun i hi hi' => ?_⟩
                have hget : fillCell duck c (some (elements.get ⟨i, hi⟩)) = _ :=
                  (List.forall₂_iff_get.mp hpair).2 i hi hi'
                have hmem := List.get_mem elements ⟨i, hi⟩
                cases hnull : isAbsent (some (elements.get ⟨i, hi⟩)) with
                | true =>
                    rw [fillCell_absent c hnull] at hget
                    exact Except.ok.inj hget ▸ encodes_absent c hnull
                | false => exact ih _ hget hnull (hall _ hmem)

/-! ## the whole block -/

/-- The vector that `FillVector` leaves is a faithful encoding of the block: what
was written before is unchanged, and every value is read back at its position. -/
structure Faithful (duck : Duck) {t : LogicalType} (v v' : Vec t) (vals : List (Option Json)) :
    Prop where
  wf : v'.WF
  extended : v.Extends v'
  before : ∀ i < v.size, v'.get i = v.get i
  size_eq : v'.size = v.size + vals.length
  encoded : ∀ (j : Nat) (val : Option Json), vals[j]? = some val →
    Encodes duck t val (v'.get (v.size + j))

/-- What `FillVector` returns is a faithful encoding of values that fit. -/
theorem faithful_of_fillVector {t : LogicalType} {v v' : Vec t} (hwf : v.WF)
    {vals : List (Option Json)} (hfits : ∀ val, some val ∈ vals → holds duck t val = true)
    (h : fillVector duck vals v v.size = .ok v') : Faithful duck v v' vals := by
  obtain ⟨cells, hcells, happended⟩ := (fillVector_eq_ok duck hwf vals).1 v' h
  have hpair := mapM_eq_ok.mp hcells
  refine ⟨happended.wf, extends_fillVector h, happended.before, ?_, fun j val hj => ?_⟩
  · rw [happended.size_eq, hpair.length_eq]
  · obtain ⟨hlt, rfl⟩ := List.getElem?_eq_some_iff.mp hj
    have hlt' : j < cells.length := hpair.length_eq ▸ hlt
    rw [happended.holds j hlt']
    refine encodes_fillCell ((List.forall₂_iff_get.mp hpair).2 j hlt hlt') fun w hw => ?_
    exact hfits w (hw ▸ List.getElem_mem hlt)

/-- **When a list column is filled faithfully**: for every type of lists, every
vector and every block of values that fit the type, `FillVector` at the end of
the vector returns a faithful encoding exactly when no value that is to be
written as text has a NaN or an infinite number in it; it raises otherwise.
Values fit the type inferred for them (`Covers.holds_nodeToType`) and what it is
widened to (`Joined.holds`). -/
theorem fillVector_faithful_iff (hwrite : ∀ w, (duck.valWrite w).isSome = w.isFinite)
    {c : LogicalType} {v : Vec (.list c)} (hwf : v.WF) {vals : List (Option Json)}
    (hfits : ∀ val, some val ∈ vals → holds duck (.list c) val = true) :
    (∃ v', fillVector duck vals v v.size = .ok v' ∧ Faithful duck v v' vals) ↔
      ∀ val ∈ vals, ∀ w ∈ serialized (.list c) val, w.isFinite = true := by
  constructor
  · intro ⟨v', h, _⟩ val hval w hw
    obtain ⟨cells, hcells, -⟩ := (fillVector_eq_ok duck hwf vals).1 v' h
    obtain ⟨cell, -, hcell⟩ := forall₂_mem_left (mapM_eq_ok.mp hcells) hval
    rw [← hwrite]
    exact (fillCell_isOk_iff _ _).mp ⟨cell, hcell⟩ w hw
  · intro hfinite
    obtain ⟨cells, hcells⟩ := exists_mapM_eq_ok (fillCell duck (.list c)) vals fun val hval =>
      (fillCell_isOk_iff _ _).mpr fun w hw => (hwrite w).trans (hfinite val hval w hw)
    obtain ⟨v', h⟩ := (fillVector_eq_ok duck hwf vals).2 cells hcells
    exact ⟨v', h, faithful_of_fillVector hwf hfits h⟩

/-- The arrays `[1, null]`, missing and `[]` behind an array `[7]`. -/
theorem fillVector_faithful_numbers :
    ∃ v', fillVector smallDuck [some (.arr [.uint 1, .null]), none, some (.arr [])]
        (.list [⟨0, 1, true⟩] (.flat [.bigint 7]) : Vec (.list BIGINT)) 1 = .ok v' ∧
      Faithful smallDuck (.list [⟨0, 1, true⟩] (.flat [.bigint 7]) : Vec (.list BIGINT)) v'
        [some (.arr [.uint 1, .null]), none, some (.arr [])] := by
  have hwf : (Vec.list [⟨0, 1, true⟩] (.flat [.bigint 7]) : Vec (.list BIGINT)).WF :=
    .list (.flat _) (by simp [Vec.size])
  refine (fillVector_faithful_iff isSome_smallWrite hwf fun val hval => ?_).mpr ?_
  · simp only [List.mem_cons, Option.some.injEq, reduceCtorEq, List.not_mem_nil, or_false,
      false_or] at hval
    rcases hval with rfl | rfl <;> rfl
  · decide

/-- The array `[NaN, "x"]` in the list of texts that is inferred for it. -/
theorem fillVector_raises_nan :
    nodeToType (inferSchema smallDuck [.arr [.real nan, .str (bytes "x")]]) = .list VARCHAR ∧
      holds smallDuck (.list VARCHAR) (.arr [.real nan, .str (bytes "x")]) = true ∧
      ¬ ∃ v', fillVector smallDuck [some (.arr [.real nan, .str (bytes "x")])]
          (Vec.empty (.list VARCHAR)) 0 = .ok v' ∧
        Faithful smallDuck (Vec.empty (.list VARCHAR)) v'
          [some (.arr [.real nan, .str (bytes "x")])] := by
  refine ⟨rfl, rfl, fun ⟨v', h, _⟩ => ?_⟩
  have hraises : fillVector smallDuck [some (.arr [.real nan, .str (bytes "x")])]
      (Vec.empty (.list VARCHAR)) 0 = .error serializeError := rfl
  rw [hraises] at h
  exact nomatch h

end RawDuck
