import RawDuck.Json
import RawDuck.Fallible

/-!
# RawDuck.Vector

Vectors and `FillVector`: a block of JSON values becomes a column of cells.

`Vec t` is a DuckDB vector of type `t`: flat data, or the entries of a list
vector over one shared child vector.  `fillVector` writes a whole block, as
the source does; `fillCell` says what one value becomes.  `fillVector_eq_ok`
connects them: the block succeeds when each of its values does, and each
position then reads back as the cell of its value.
-/

namespace RawDuck

open Fallible

/-- The error of `WriteJSONString`. -/
def serializeError : RawError :=
  { kind := .internal, message := bytes "RawDuck: failed to serialize JSON value" }

/-- `WriteJSONString`. -/
def writeJSONString (duck : Duck) (val : Json) : Except RawError Bytes :=
  match duck.valWrite val with
  | some text => .ok text
  | none => .error serializeError

/-- `list_entry_t` with the validity bit of its position. -/
structure ListEntry where
  offset : Nat
  length : Nat
  valid : Bool

/-- A DuckDB vector of a type: its written positions. -/
inductive Vec : LogicalType → Type where
  | flat {id : LogicalTypeId} {typeAlias : Bytes} (data : List Cell) : Vec (.plain id typeAlias)
  | list {child : LogicalType} (entries : List ListEntry) (elements : Vec child) :
      Vec (.list child)

namespace Vec

/-- A vector after `DataChunk::Reset`. -/
def empty : (t : LogicalType) → Vec t
  | .plain _ _ => .flat []
  | .list c => .list [] (empty c)

/-- The number of positions written (`ListVector::GetListSize` of the child). -/
def size {t : LogicalType} : Vec t → Nat
  | .flat data => data.length
  | .list entries _ => entries.length

/-- The cell at a position. -/
def get {t : LogicalType} : Vec t → Nat → Cell
  | .flat data, i => data.getD i .null
  | .list entries elements, i =>
      match entries[i]? with
      | some e =>
          if e.valid then .list ((List.range e.length).map fun k => elements.get (e.offset + k))
          else .null
      | none => .null

end Vec

/-- Writes positions `offset`, `offset + 1`, … of flat data. -/
def writeFrom {α : Type} (data : List α) (offset : Nat) (new : List α) : List α :=
  data.take offset ++ new ++ data.drop (offset + new.length)

/-- The loop body of `FillVector` for the types without children: a value that
does not fit becomes NULL. -/
def fillScalar (duck : Duck) (type : LogicalType) (val : Option Json) : Except RawError Cell :=
  if isRawJSONType type then
    match val with
    | none | some .null => .ok .null
    | some v => do return .varchar (← writeJSONString duck v)
  else match type with
    | .plain .boolean _ =>
        match val with
        | some (.bool b) => .ok (.bool b)
        | _ => .ok .null
    | .plain .bigint _ =>
        match val with
        | some (.sint n) => .ok (.bigint n)
        | some (.uint n) => .ok (.bigint n.toInt64)
        | _ => .ok .null
    | .plain .double _ =>
        match val with
        | some (.uint n) => .ok (.double (duck.uintToDouble n))
        | some (.sint n) => .ok (.double (duck.sintToDouble n))
        | some (.real d) => .ok (.double d)
        | _ => .ok .null
    | .plain .date _ =>
        match val with
        | some (.str s) =>
            match duck.tryConvertDate s with
            | some (date, _, _) => .ok (.date date)
            | none => .ok .null
        | _ => .ok .null
    | .plain .timestamp _ =>
        match val with
        | some (.str s) =>
            match duck.tryConvertTimestamp s with
            | some ts => .ok (.timestamp ts)
            | none => .ok .null
        | _ => .ok .null
    | .plain .varchar _ =>
        match val with
        | none | some .null => .ok .null
        | some (.str s) => .ok (.varchar s)
        -- mixed-type column: render non-strings as their JSON literal
        | some v => do return .varchar (← writeJSONString duck v)
    | _ => .ok .null

/-- The elements of an array value. -/
def elementsOf : Option Json → List Json
  | some (.arr es) => es
  | _ => []

/-- `yyjson_is_arr` of a value that is there. -/
def isArray : Option Json → Bool
  | some (.arr _) => true
  | _ => false

/-- The entry loop of the `LIST` case: the entries, and `child_vals` grown by
the elements of the arrays. -/
def listEntries (childOffset : Nat) : List (Option Json) → List Json → List ListEntry × List Json
  | [], childVals => ([], childVals)
  | val :: rest, childVals =>
      let entry : ListEntry :=
        { offset := childOffset + childVals.length, length := (elementsOf val).length,
          valid := isArray val }
      let (entries, childVals) := listEntries childOffset rest (childVals ++ elementsOf val)
      (entry :: entries, childVals)

theorem elementsOf_of_not_array {val : Option Json} (h : isArray val = false) :
    elementsOf val = [] := by
  cases val with
  | none => rfl
  | some v =>
      cases v with
      | arr => exact nomatch h
      | _ => rfl

/-- `FillVector`. -/
def fillVector (duck : Duck) : {type : LogicalType} → List (Option Json) → Vec type → Nat →
    Except RawError (Vec type)
  | .plain id typeAlias, vals, .flat data, offset => do
      let cells ← vals.mapM (fillScalar duck (.plain id typeAlias))
      return .flat (writeFrom data offset cells)
  | .list _, vals, .list entries elements, offset => do
      let childOffset := elements.size
      let (new, childVals) := listEntries childOffset vals []
      let elements ← fillVector duck (childVals.map some) elements childOffset
      return .list (writeFrom entries offset new) elements

/-- What one value becomes in a column of a type. -/
def fillCell (duck : Duck) : LogicalType → Option Json → Except RawError Cell
  | .plain id typeAlias, val => fillScalar duck (.plain id typeAlias) val
  | .list c, val =>
      if isArray val then do
        return .list (← (elementsOf val).mapM fun e => fillCell duck c (some e))
      else .ok .null

/-! ## blocks and cells -/

theorem writeFrom_length {α : Type} (data new : List α) :
    writeFrom data data.length new = data ++ new := by
  simp [writeFrom]

/-- The entries of a block: each value's elements lie in `child_vals` where its
entry says. -/
theorem listEntries_spec (childOffset : Nat) (vals : List (Option Json)) (acc : List Json) :
    (∃ post, (listEntries childOffset vals acc).2 = acc ++ post) ∧
    List.Forall₂ (fun val entry => ∃ pre post,
      (listEntries childOffset vals acc).2 = pre ++ elementsOf val ++ post ∧
      entry = { offset := childOffset + pre.length, length := (elementsOf val).length,
                valid := isArray val })
      vals (listEntries childOffset vals acc).1 := by
  induction vals generalizing acc with
  | nil => exact ⟨⟨[], (List.append_nil _).symm⟩, .nil⟩
  | cons val rest ih =>
      obtain ⟨⟨post, hpost⟩, hrest⟩ := ih (acc ++ elementsOf val)
      simp only [listEntries]
      refine ⟨⟨elementsOf val ++ post, by rw [hpost, List.append_assoc]⟩, .cons ?_ hrest⟩
      exact ⟨acc, post, hpost, rfl⟩

/-- `child_vals` is the concatenation of the arrays of the block. -/
theorem listEntries_childVals (childOffset : Nat) (vals : List (Option Json)) (acc : List Json) :
    (listEntries childOffset vals acc).2 = acc ++ vals.flatMap elementsOf := by
  induction vals generalizing acc with
  | nil => simp [listEntries]
  | cons val rest ih => simp [listEntries, ih]

/-- The entries of a list vector stay within its child, at every level. -/
inductive Vec.WF : {t : LogicalType} → Vec t → Prop where
  | flat {id : LogicalTypeId} {typeAlias : Bytes} (data : List Cell) :
      WF (.flat data : Vec (.plain id typeAlias))
  | list {child : LogicalType} {entries : List ListEntry} {elements : Vec child} :
      elements.WF → (∀ e ∈ entries, e.offset + e.length ≤ elements.size) →
      WF (.list entries elements)

theorem Vec.WF.empty (t : LogicalType) : (Vec.empty t).WF := by
  induction t with
  | plain => exact .flat _
  | list c ih => exact .list ih fun _ h => nomatch h

@[simp] theorem Vec.size_empty (t : LogicalType) : (Vec.empty t).size = 0 := by
  cases t <;> rfl

/-- The cells `cells` stand in the vector from position `from` on. -/
def Vec.Holds {t : LogicalType} (v : Vec t) (start : Nat) (cells : List Cell) : Prop :=
  ∀ j (h : j < cells.length), v.get (start + j) = cells[j]

/-- What a block written behind a vector leaves: a well-formed vector that is
longer by the block, unchanged before it, and holds the cells. -/
structure Appended {t : LogicalType} (v v' : Vec t) (cells : List Cell) : Prop where
  wf : v'.WF
  size_eq : v'.size = v.size + cells.length
  before : ∀ i < v.size, v'.get i = v.get i
  holds : v'.Holds v.size cells

theorem Appended.flat {id : LogicalTypeId} {typeAlias : Bytes} (data cells : List Cell) :
    Appended (.flat data : Vec (.plain id typeAlias)) (.flat (data ++ cells)) cells where
  wf := .flat _
  size_eq := by simp [Vec.size]
  before i hi := by
    simp only [Vec.size] at hi
    simp [Vec.get, List.getElem?_append_left hi]
  holds j hj := by
    simp [Vec.get, Vec.size, hj]

/-- What an entry reads back as over a child vector. -/
def entryCell {child : LogicalType} (elements : Vec child) (e : ListEntry) : Cell :=
  if e.valid then .list ((List.range e.length).map fun k => elements.get (e.offset + k))
  else .null

theorem Vec.get_list {child : LogicalType} {entries : List ListEntry} {elements : Vec child}
    {i : Nat} {e : ListEntry} (he : entries[i]? = some e) :
    (Vec.list entries elements).get i = entryCell elements e := by
  simp only [Vec.get, he, entryCell]

/-- The entry of a value, over a child that holds the cells of `child_vals`,
reads back as the value's cell. -/
theorem fillCell_eq_entryCell {duck : Duck} {child : LogicalType} {elements : Vec child}
    {start : Nat} {childVals : List Json} {childCells : List Cell}
    (hcells : childVals.mapM (fun e => fillCell duck child (some e)) = .ok childCells)
    (hholds : elements.Holds start childCells) {val : Option Json} {pre post : List Json}
    (hsplit : childVals = pre ++ elementsOf val ++ post) :
    fillCell duck (.list child) val = .ok (entryCell elements
      { offset := start + pre.length, length := (elementsOf val).length,
        valid := isArray val }) := by
  rw [fillCell, entryCell]
  split
  · -- the cells of the value's own elements are a segment of the child cells
    rw [hsplit, List.append_assoc] at hcells
    obtain ⟨preCells, rest, hpre, hrest, rfl⟩ := mapM_append_eq_ok.mp hcells
    obtain ⟨cells, postCells, hcs, -, rfl⟩ := mapM_append_eq_ok.mp hrest
    have hlen : pre.length = preCells.length := (mapM_eq_ok.mp hpre).length_eq
    have hlen' : (elementsOf val).length = cells.length := (mapM_eq_ok.mp hcs).length_eq
    rw [hcs]
    refine congrArg (fun l => Except.ok (Cell.list l)) ?_
    apply List.ext_getElem
    · simp [hlen']
    · intro k hk hk'
      have h := hholds (pre.length + k) (by
        simp only [List.length_append, hlen]; omega)
      rw [← Nat.add_assoc] at h
      simp only [List.getElem_map, List.getElem_range, h]
      rw [List.getElem_append_right (by omega), List.getElem_append_left (by omega)]
      simp [hlen]
  · rfl

/-- The arrays of a block have cells for all their elements. -/
theorem mapM_elements {duck : Duck} {child : LogicalType} {vals : List (Option Json)}
    {cells : List Cell} (h : vals.mapM (fillCell duck (.list child)) = .ok cells) :
    ∃ childCells, (vals.flatMap elementsOf).mapM (fun e => fillCell duck child (some e)) =
      .ok childCells := by
  rw [mapM_eq_ok] at h
  induction h with
  | nil => exact ⟨[], rfl⟩
  | @cons val cell vals cells hval _ ih =>
      obtain ⟨childCells, hrest⟩ := ih
      have hfirst : ∃ cs, (elementsOf val).mapM (fun e => fillCell duck child (some e)) =
          .ok cs := by
        rw [fillCell] at hval
        split at hval
        · obtain ⟨cs, hcs, -⟩ := bind_eq_ok.mp hval
          exact ⟨cs, hcs⟩
        · next hnot =>
          have hnil : elementsOf val = [] := elementsOf_of_not_array (by simpa using hnot)
          exact ⟨[], by rw [hnil]; rfl⟩
      obtain ⟨cs, hcs⟩ := hfirst
      exact ⟨cs ++ childCells, mapM_append_eq_ok.mpr ⟨cs, childCells, hcs, hrest, rfl⟩⟩

/-- A list block over an extended child: the new entries read back as the
cells of their values, the old ones as before. -/
theorem Appended.list {duck : Duck} {child : LogicalType} {entries : List ListEntry}
    {elements elements' : Vec child} (hentries : ∀ e ∈ entries, e.offset + e.length ≤ elements.size)
    {vals : List (Option Json)} {new : List ListEntry} {childVals : List Json}
    {childCells : List Cell}
    (hspec : List.Forall₂ (fun val entry => ∃ pre post, childVals = pre ++ elementsOf val ++ post ∧
      entry = { offset := elements.size + pre.length, length := (elementsOf val).length,
                valid := isArray val }) vals new)
    (hcells : childVals.mapM (fun e => fillCell duck child (some e)) = .ok childCells)
    (happ : Appended elements elements' childCells) :
    vals.mapM (fillCell duck (.list child)) = .ok (new.map (entryCell elements')) ∧
    Appended (.list entries elements) (.list (entries ++ new) elements')
      (new.map (entryCell elements')) := by
  have hlen : childVals.length = childCells.length := (mapM_eq_ok.mp hcells).length_eq
  have hbound : ∀ {val entry}, (∃ pre post, childVals = pre ++ elementsOf val ++ post ∧
      entry = ({ offset := elements.size + pre.length, length := (elementsOf val).length,
                 valid := isArray val } : ListEntry)) →
      entry.offset + entry.length ≤ elements'.size := by
    rintro val entry ⟨pre, post, hsplit, rfl⟩
    have := congrArg List.length hsplit
    simp only [List.length_append] at this
    simp only [happ.size_eq]
    omega
  constructor
  · rw [mapM_eq_ok, List.forall₂_map_right_iff]
    refine hspec.imp fun val entry h => ?_
    obtain ⟨pre, post, hsplit, rfl⟩ := h
    exact fillCell_eq_entryCell hcells happ.holds hsplit
  · refine ⟨.list happ.wf fun e he => ?_, by simp [Vec.size], fun i hi => ?_, fun j hj => ?_⟩
    · rcases List.mem_append.mp he with he | he
      · have := hentries e he
        rw [happ.size_eq]
        omega
      · obtain ⟨val, -, h⟩ := forall₂_mem_right hspec he
        exact hbound h
    · have hi' : i < entries.length := hi
      have hget : (entries ++ new)[i]? = some entries[i] := by
        rw [List.getElem?_append_left hi', List.getElem?_eq_getElem hi']
      rw [Vec.get_list hget, Vec.get_list (List.getElem?_eq_getElem hi'), entryCell, entryCell]
      have hb := hentries _ (List.getElem_mem hi')
      congr 2
      refine List.map_congr_left fun k hk => happ.before _ ?_
      rw [List.mem_range] at hk
      omega
    · rw [List.length_map] at hj
      have hget : (entries ++ new)[entries.length + j]? = some new[j] := by
        rw [List.getElem?_append_right (by omega)]
        simp [hj]
      rw [show (Vec.list entries elements).size = entries.length from rfl, Vec.get_list hget,
        List.getElem_map]

/-- **Blocks are made of cells**: filling a block behind a well-formed vector
succeeds exactly when every value of the block has a cell, and appends them. -/
theorem fillVector_eq_ok (duck : Duck) {t : LogicalType} {v : Vec t} (hwf : v.WF)
    (vals : List (Option Json)) :
    (∀ v', fillVector duck vals v v.size = .ok v' →
      ∃ cells, vals.mapM (fillCell duck t) = .ok cells ∧ Appended v v' cells) ∧
    (∀ cells, vals.mapM (fillCell duck t) = .ok cells →
      ∃ v', fillVector duck vals v v.size = .ok v') := by
  induction t generalizing vals with
  | plain id a =>
      cases v with
      | flat data =>
      have hcell : fillCell duck (.plain id a) = fillScalar duck (.plain id a) := by
        funext val; rw [fillCell]
      simp only [fillVector, Vec.size, hcell]
      constructor
      · intro v' h
        obtain ⟨cells, hcells, h⟩ := bind_eq_ok.mp h
        rw [writeFrom_length, pure_eq_ok] at h
        exact ⟨cells, hcells, h ▸ Appended.flat data cells⟩
      · intro cells hcells
        exact ⟨_, bind_eq_ok.mpr ⟨cells, hcells, rfl⟩⟩
  | list c ih =>
      cases v with
      | list entries elements =>
      cases hwf with
      | list helements hentries =>
      obtain ⟨ihok, ihcells⟩ := ih helements ((vals.flatMap elementsOf).map some)
      have hmap : ∀ es : List Json,
          (es.map some).mapM (fillCell duck c) = es.mapM fun e => fillCell duck c (some e) :=
        fun es => List.mapM_map ..
      have hcv : (listEntries elements.size vals []).2 = vals.flatMap elementsOf := by
        rw [listEntries_childVals, List.nil_append]
      simp only [fillVector, hcv]
      rw [hmap] at ihok ihcells
      constructor
      · intro v' h
        obtain ⟨elements', hel, h⟩ := bind_eq_ok.mp h
        rw [show (Vec.list entries elements).size = entries.length from rfl, writeFrom_length,
          pure_eq_ok] at h
        obtain ⟨childCells, hchild, happ⟩ := ihok elements' hel
        have hspec := (listEntries_spec elements.size vals []).2
        rw [hcv] at hspec
        exact ⟨_, h ▸ Appended.list hentries hspec hchild happ⟩
      · intro cells hcells
        obtain ⟨childCells, hchild⟩ := mapM_elements hcells
        obtain ⟨elements', hel⟩ := ihcells childCells hchild
        exact ⟨_, bind_eq_ok.mpr ⟨elements', hel, rfl⟩⟩

/-- A block filled into an empty vector: it succeeds exactly when every value
has a cell, and then holds the cells. -/
theorem fillVector_empty (duck : Duck) {t : LogicalType} (vals : List (Option Json)) :
    (∀ v, fillVector duck vals (Vec.empty t) 0 = .ok v →
      ∃ cells, vals.mapM (fillCell duck t) = .ok cells ∧
        ∀ j (h : j < cells.length), v.get j = cells[j]) ∧
    (∀ cells, vals.mapM (fillCell duck t) = .ok cells →
      ∃ v, fillVector duck vals (Vec.empty t) 0 = .ok v) := by
  have h := fillVector_eq_ok duck (Vec.WF.empty t) vals
  rw [Vec.size_empty] at h
  refine ⟨fun v hv => ?_, h.2⟩
  obtain ⟨cells, hcells, happ⟩ := h.1 v hv
  refine ⟨cells, hcells, fun j hj => ?_⟩
  have := happ.holds j hj
  rwa [Vec.size_empty, Nat.zero_add] at this

end RawDuck
