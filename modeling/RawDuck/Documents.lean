import RawDuck.Cuts
import RawDuck.Payload

/-!
# RawDuck.Documents

Texts of one JSON document a line, and how `RawPayload::Parse` reads them.

* `YyjsonReads` — what the code relies on of yyjson;
* `linePieces` — the documents and blank lines of a text;
* `textRows_joinLines` — such a text is read as its one document, or as the
  documents of its lines;
* `hereditary_passRows` / `parted_passRows` — which rows pass the checks
  together.
-/

namespace RawDuck

open Cuts Fallible

/-! ## whitespace -/

/-- The whitespace of JSON: space, tab, newline and carriage return. -/
def isJsonSpace (c : UInt8) : Bool := c == 32 || c == 9 || c == 13 || c == 10

/-- Nothing but JSON whitespace: `find_first_not_of(" \t\r\n")` finds nothing. -/
def isWhite (text : Bytes) : Bool := text.all isJsonSpace

/-- What the code relies on of yyjson. -/
structure YyjsonReads (duck : Duck) : Prop where
  /-- The empty text is no document. -/
  empty : duck.yyjsonRead [] = none
  /-- Whitespace around a document is skipped. -/
  trim : ∀ before text after, isWhite before = true → isWhite after = true →
    duck.yyjsonRead (before ++ text ++ after) = duck.yyjsonRead text
  /-- After a document nothing comes but whitespace. -/
  extra : ∀ text rest root, duck.yyjsonRead text = some root → isWhite rest = false →
    duck.yyjsonRead (text ++ 10 :: rest) = none
  /-- A vertical tab or a form feed begins no document. -/
  foreign : ∀ c rest, characterIsSpace c = true → isJsonSpace c = false →
    duck.yyjsonRead (c :: rest) = none
  /-- The array that gave its elements away is still no object. -/
  left : ∀ elements, (duck.keyValueLeft elements).isObj = false

theorem characterIsSpace_of_isJsonSpace {c : UInt8} (h : isJsonSpace c = true) :
    characterIsSpace c = true := by
  simp only [isJsonSpace, characterIsSpace, Bool.or_eq_true, beq_iff_eq] at h ⊢
  tauto

theorem isBlank_of_isWhite {line : Bytes} (h : isWhite line = true) : isBlank line = true :=
  List.all_eq_true.mpr fun c hc => characterIsSpace_of_isJsonSpace (List.all_eq_true.mp h c hc)

@[simp] theorem isWhite_append (text rest : Bytes) :
    isWhite (text ++ rest) = (isWhite text && isWhite rest) := List.all_append

@[simp] theorem isWhite_cons_newline (rest : Bytes) : isWhite (10 :: rest) = isWhite rest := rfl

@[simp] theorem isWhite_nil : isWhite [] = true := rfl

/-! ## a small yyjson -/

/-- The small DuckDB, whose yyjson reads the documents of a table, whitespace
left out. -/
def tableDuck (table : List (Bytes × Json)) : Duck :=
  { smallDuck with
    yyjsonRead := fun text =>
      (table.find? fun entry => entry.1 = text.filter fun c => !isJsonSpace c).map Prod.snd }

theorem filter_white {text : Bytes} (h : isWhite text = true) :
    (text.filter fun c => !isJsonSpace c) = [] := by
  refine List.filter_eq_nil_iff.mpr fun c hc => ?_
  simp [List.all_eq_true.mp h c hc]

/-- A table in which no document begins another, and none is empty or begins with
a space. -/
theorem yyjsonReads_tableDuck {table : List (Bytes × Json)} (hempty : ∀ entry ∈ table, entry.1 ≠ [])
    (hfree : ∀ entry ∈ table, ∀ entry' ∈ table, entry.1 <+: entry'.1 → entry.1 = entry'.1)
    (hhead : ∀ entry ∈ table, ∀ c ∈ entry.1.head?, characterIsSpace c = false) :
    YyjsonReads (tableDuck table) where
  empty := Option.map_eq_none_iff.mpr (List.find?_eq_none.mpr fun entry hentry heq =>
    hempty entry hentry (of_decide_eq_true heq))
  trim before text after hbefore hafter := by
    simp only [tableDuck, List.filter_append, filter_white hbefore, filter_white hafter,
      List.nil_append, List.append_nil]
  extra text rest root hroot hrest := by
    obtain ⟨entry, hentry, -⟩ := Option.map_eq_some_iff.mp hroot
    have hkey : entry.1 = text.filter fun c => !isJsonSpace c := by
      simpa using List.find?_some hentry
    refine Option.map_eq_none_iff.mpr (List.find?_eq_none.mpr fun entry' hentry' heq => ?_)
    rw [decide_eq_true_eq, List.filter_append, ← hkey] at heq
    have hsame := hfree entry (List.mem_of_find?_eq_some hentry) entry' hentry'
      (heq ▸ List.prefix_append _ _)
    rw [← hsame, List.self_eq_append_right, List.filter_eq_nil_iff] at heq
    have hwhite : isWhite rest = true := List.all_eq_true.mpr fun c hc => by
      simpa using heq c (List.mem_cons_of_mem _ hc)
    rw [hwhite] at hrest
    exact nomatch hrest
  foreign c rest hspace hc := by
    refine Option.map_eq_none_iff.mpr (List.find?_eq_none.mpr fun entry hentry heq => ?_)
    rw [decide_eq_true_eq, List.filter_cons, if_pos (by simp [hc])] at heq
    have hfirst := hhead entry hentry c (by rw [heq]; rfl)
    rw [hspace] at hfirst
    exact nomatch hfirst
  left elements := rfl

/-! ## lines -/

/-- Lines as one text. -/
def joinLines (ls : List Bytes) : Bytes := List.intercalate [10] ls

theorem joinLines_lines (text : Bytes) : joinLines (lines text) = text :=
  List.intercalate_splitOn 10

theorem lines_ne_nil (text : Bytes) : lines text ≠ [] := List.splitOn_ne_nil 10 text

theorem joinLines_singleton (line : Bytes) : joinLines [line] = line :=
  List.intercalate_singleton

theorem joinLines_cons {line : Bytes} {ls : List Bytes} (h : ls ≠ []) :
    joinLines (line :: ls) = line ++ 10 :: joinLines ls := by
  rw [joinLines, List.intercalate_cons_of_ne_nil h, List.append_assoc]
  rfl

theorem joinLines_append {ls ls' : List Bytes} (h : ls ≠ []) (h' : ls' ≠ []) :
    joinLines (ls ++ ls') = joinLines ls ++ 10 :: joinLines ls' := by
  induction ls with
  | nil => exact absurd rfl h
  | cons line ls ih =>
      cases ls with
      | nil => rw [joinLines_singleton, List.singleton_append, joinLines_cons h']
      | cons line' ls =>
          rw [List.cons_append, joinLines_cons (by simp), ih (List.cons_ne_nil _ _),
            joinLines_cons (List.cons_ne_nil line' ls), List.append_assoc]
          rfl

theorem lines_append_newline (text rest : Bytes) :
    lines (text ++ 10 :: rest) = lines text ++ lines rest :=
  List.splitOn_append_cons_self text rest

/-- A line has no newline. -/
theorem not_mem_of_mem_lines {text line : Bytes} (h : line ∈ lines text) : (10 : UInt8) ∉ line := by
  induction text generalizing line with
  | nil =>
      rw [lines, List.splitOn_nil, List.mem_singleton] at h
      simp [h]
  | cons c text ih =>
      rw [lines, List.splitOn_cons_eq_if_modifyHead] at h
      split at h
      · rcases List.mem_cons.mp h with rfl | h
        · simp
        · exact ih h
      · next hc =>
        obtain ⟨first, rest, hlines⟩ := List.exists_cons_of_ne_nil (lines_ne_nil text)
        rw [lines] at hlines
        rw [hlines, List.modifyHead_cons] at h
        rcases List.mem_cons.mp h with rfl | h
        · have hfirst : (10 : UInt8) ∉ first := ih (by rw [lines, hlines]; exact List.mem_cons_self)
          simp only [beq_iff_eq] at hc
          simp [hfirst, Ne.symm hc]
        · exact ih (by rw [lines, hlines]; exact List.mem_cons_of_mem _ h)

theorem lines_joinLines {ls : List Bytes} (h : ∀ line ∈ ls, (10 : UInt8) ∉ line) (hne : ls ≠ []) :
    lines (joinLines ls) = ls := List.splitOn_intercalate 10 h hne

theorem isWhite_joinLines (ls : List Bytes) : isWhite (joinLines ls) = ls.all isWhite := by
  induction ls with
  | nil => rfl
  | cons line ls ih =>
      cases ls with
      | nil => simp [joinLines_singleton]
      | cons line' ls =>
          rw [joinLines_cons (List.cons_ne_nil _ _), isWhite_append, isWhite_cons_newline, ih]
          rfl

/-! ## documents -/

variable (duck : Duck)

/-- Each line is blank or one JSON document. -/
def IsNdjson (ls : List Bytes) : Prop :=
  ∀ line ∈ ls, isBlank line = false → ∃ document, duck.yyjsonRead line = some document

variable {duck} in
theorem isNdjson_of_all {ls : List Bytes}
    (h : ls.all (fun line => isBlank line || (duck.yyjsonRead line).isSome) = true) :
    IsNdjson duck ls := by
  intro line hline hblank
  have hread := List.all_eq_true.mp h line hline
  rw [hblank, Bool.false_or] at hread
  exact Option.isSome_iff_exists.mp hread

/-- A line: a document, or a blank line. What is blank to the code but no
whitespace to yyjson is a bar. -/
def linePiece (line : Bytes) : Piece Json :=
  if isBlank line then if isWhite line then .blank else .bar
  else match duck.yyjsonRead line with
    | some document => .item document
    -- no line of an NDJSON text
    | none => .blank

/-- The pieces of lines. -/
def linePieces (ls : List Bytes) : List (Piece Json) := ls.map (linePiece duck)

variable {duck}

theorem linePiece_of_white {line : Bytes} (h : isWhite line = true) :
    linePiece duck line = .blank := by
  rw [linePiece, if_pos (isBlank_of_isWhite h), if_pos h]

theorem linePiece_of_bar {line : Bytes} (h : isBlank line = true) (hwhite : isWhite line = false) :
    linePiece duck line = .bar := by
  rw [linePiece, if_pos h, if_neg (by simp [hwhite])]

theorem linePiece_of_document {line : Bytes} {document : Json} (h : isBlank line = false)
    (hread : duck.yyjsonRead line = some document) : linePiece duck line = .item document := by
  rw [linePiece, if_neg (by simp [h])]
  simp only [hread]

/-- The three kinds of lines of an NDJSON text. -/
theorem line_cases {ls : List Bytes} (h : IsNdjson duck ls) {line : Bytes} (hline : line ∈ ls) :
    (isWhite line = true ∧ linePiece duck line = .blank) ∨
    (isBlank line = true ∧ isWhite line = false ∧ linePiece duck line = .bar) ∨
    ∃ document, isBlank line = false ∧ isWhite line = false ∧
      duck.yyjsonRead line = some document ∧ linePiece duck line = .item document := by
  cases hwhite : isWhite line with
  | true => exact .inl ⟨rfl, linePiece_of_white hwhite⟩
  | false =>
      cases hblank : isBlank line with
      | true => exact .inr (.inl ⟨rfl, rfl, linePiece_of_bar hblank hwhite⟩)
      | false =>
          obtain ⟨document, hread⟩ := h line hline hblank
          exact .inr (.inr ⟨document, rfl, rfl, hread, linePiece_of_document hblank hread⟩)

theorem IsNdjson.tail {line : Bytes} {ls : List Bytes} (h : IsNdjson duck (line :: ls)) :
    IsNdjson duck ls := fun line' hline' => h line' (List.mem_cons_of_mem _ hline')

theorem isNdjson_append {ls ls' : List Bytes} :
    IsNdjson duck (ls ++ ls') ↔ IsNdjson duck ls ∧ IsNdjson duck ls' := by
  simp only [IsNdjson, List.mem_append, or_imp, forall_and]

theorem linePieces_append (ls ls' : List Bytes) :
    linePieces duck (ls ++ ls') = linePieces duck ls ++ linePieces duck ls' := List.map_append

theorem isNdjson_of_white {ls : List Bytes} (h : ls.all isWhite = true) : IsNdjson duck ls := by
  intro line hline hblank
  rw [isBlank_of_isWhite (List.all_eq_true.mp h line hline)] at hblank
  exact nomatch hblank

/-- Lines are white when there is no document and no bar among them. -/
theorem isWhite_iff_pieces {ls : List Bytes} (h : IsNdjson duck ls) :
    ls.all isWhite = true ↔
      items (linePieces duck ls) = [] ∧ barred (linePieces duck ls) = false := by
  induction ls with
  | nil => simp [linePieces]
  | cons line ls ih =>
      rw [List.all_cons, Bool.and_eq_true, linePieces, List.map_cons, ← linePieces, ih h.tail]
      obtain ⟨hwhite, hpiece⟩ | ⟨-, hwhite, hpiece⟩ | ⟨document, -, hwhite, -, hpiece⟩ :=
        line_cases h List.mem_cons_self
      · simp [hwhite, hpiece]
      · simp [hwhite, hpiece]
      · simp [hwhite, hpiece]

/-- The first byte that is no whitespace. -/
theorem exists_first_of_not_white {text : Bytes} (h : isWhite text = false) :
    ∃ before c rest, text = before ++ c :: rest ∧ isWhite before = true ∧
      isJsonSpace c = false := by
  induction text with
  | nil => exact nomatch h
  | cons c text ih =>
      cases hc : isJsonSpace c with
      | false => exact ⟨[], c, text, rfl, rfl, hc⟩
      | true =>
          rw [isWhite, List.all_cons, hc, Bool.true_and] at h
          obtain ⟨before, c', rest, rfl, hbefore, hc'⟩ := ih h
          refine ⟨c :: before, c', rest, rfl, ?_, hc'⟩
          rw [isWhite, List.all_cons, hc, Bool.true_and]
          exact hbefore

theorem yyjsonRead_white (hduck : YyjsonReads duck) {before text : Bytes}
    (h : isWhite before = true) : duck.yyjsonRead (before ++ text) = duck.yyjsonRead text := by
  simpa using hduck.trim before text [] h rfl

/-- No document begins on a line that is blank to the code only. -/
theorem yyjsonRead_bar (hduck : YyjsonReads duck) {line rest : Bytes} (hblank : isBlank line = true)
    (hwhite : isWhite line = false) : duck.yyjsonRead (line ++ rest) = none := by
  obtain ⟨before, c, tail, rfl, hbefore, hc⟩ := exists_first_of_not_white hwhite
  have hspace : characterIsSpace c = true := List.all_eq_true.mp hblank c (by simp)
  rw [List.append_assoc, yyjsonRead_white hduck hbefore]
  exact hduck.foreign c _ hspace hc

/-- The one document of a group, when nothing stands around it. -/
def onlyDocument (ps : List (Piece Json)) : Option Json :=
  match items ps with
  | [document] => if barred ps then none else some document
  | _ => none

@[simp] theorem onlyDocument_blank (ps : List (Piece Json)) :
    onlyDocument (.blank :: ps) = onlyDocument ps := rfl

theorem onlyDocument_of_barred {ps : List (Piece Json)} (h : barred ps = true) :
    onlyDocument ps = none := by
  rw [onlyDocument]
  split
  · rw [if_pos h]
  · rfl

/-- A text of lines is a document when one of the lines is and the others are
white. -/
theorem yyjsonRead_joinLines (hduck : YyjsonReads duck) {ls : List Bytes} (h : IsNdjson duck ls)
    (hwhite : ls.all isWhite = false) :
    duck.yyjsonRead (joinLines ls) = onlyDocument (linePieces duck ls) := by
  induction ls with
  | nil => exact nomatch hwhite
  | cons line ls ih =>
      rw [linePieces, List.map_cons, ← linePieces]
      obtain ⟨hw, hpiece⟩ | ⟨hblank, hw, hpiece⟩ | ⟨document, -, -, hread, hpiece⟩ :=
        line_cases h List.mem_cons_self
      · rw [List.all_cons, hw, Bool.true_and] at hwhite
        have hne : ls ≠ [] := fun hnil => by
          rw [hnil] at hwhite
          exact nomatch hwhite
        rw [hpiece, onlyDocument_blank, joinLines_cons hne, ← ih h.tail hwhite]
        have hbefore : isWhite (line ++ [10]) = true := by simp [hw]
        have htext : line ++ 10 :: joinLines ls = (line ++ [10]) ++ joinLines ls := by simp
        rw [htext, yyjsonRead_white hduck hbefore]
      · rw [hpiece, onlyDocument_of_barred rfl]
        cases ls with
        | nil => simpa [joinLines_singleton] using @yyjsonRead_bar duck hduck line [] hblank hw
        | cons line' ls =>
            rw [joinLines_cons (List.cons_ne_nil _ _)]
            exact yyjsonRead_bar hduck hblank hw
      · have hwhite' := isWhite_iff_pieces h.tail
        rw [hpiece]
        cases ls with
        | nil =>
            rw [joinLines_singleton, hread]
            rfl
        | cons line' ls =>
            rw [joinLines_cons (List.cons_ne_nil _ _)]
            cases hrest : isWhite (joinLines (line' :: ls)) with
            | true =>
                -- nothing but whitespace comes after the document
                have hafter := hduck.trim [] line (10 :: joinLines (line' :: ls)) rfl hrest
                rw [List.nil_append] at hafter
                rw [isWhite_joinLines, hwhite'] at hrest
                rw [hafter, hread, onlyDocument, items_cons_item, barred_cons_item, hrest.1,
                  hrest.2]
                rfl
            | false =>
                rw [hduck.extra line _ document hread hrest]
                rw [isWhite_joinLines, ← Bool.not_eq_true, hwhite', not_and_or] at hrest
                rw [onlyDocument, items_cons_item]
                split
                · next d hitems =>
                  obtain ⟨-, hnil⟩ := List.cons.inj hitems
                  obtain hitems' | hbar := hrest
                  · exact absurd hnil hitems'
                  · rw [barred_cons_item, if_pos (by simpa using hbar)]
                · rfl

/-- Line by line the documents are read. -/
theorem parseLines_ndjson (options : RawParseOptions) {ls : List Bytes} (h : IsNdjson duck ls)
    (lineNumber : Nat) :
    parseLines duck options ls lineNumber = .ok (items (linePieces duck ls), 0) := by
  induction ls generalizing lineNumber with
  | nil => rfl
  | cons line ls ih =>
      have hrest := ih h.tail (lineNumber + 1)
      rw [parseLines, linePieces, List.map_cons, ← linePieces]
      obtain ⟨hw, hpiece⟩ | ⟨hblank, hw, hpiece⟩ | ⟨document, hblank, -, hread, hpiece⟩ :=
        line_cases h List.mem_cons_self
      · rw [if_pos (isBlank_of_isWhite hw), hpiece, hrest]
        rfl
      · rw [if_pos hblank, hpiece, hrest]
        rfl
      · rw [if_neg (by simp [hblank]), hpiece]
        simp only [hread, hrest]
        rfl

/-! ## rows -/

/-- The rows that come out of read rows, when the checks pass. -/
def passRows (duck : Duck) (options : RawParseOptions) (read : List Json) : Option (List Json) :=
  (checkedRows duck options read).toOption.map Prod.fst

/-- The rows of a text, when it is accepted. -/
def textRows (duck : Duck) (options : RawParseOptions) (text : Bytes) : Option (List Json) :=
  (parse duck options text).toOption.map RawPayload.rows

/-- The rows of a document that is read alone. -/
def passAlone (duck : Duck) (options : RawParseOptions) (document : Json) : Option (List Json) :=
  passRows duck options (collectRows document)

/-- What is read passes the checks or not. -/
theorem textRows_of_read {options : RawParseOptions} {text : Bytes} {read : List Json}
    {errors : Nat} (h : readRows duck options text = .ok (read, errors)) :
    textRows duck options text = passRows duck options read := by
  rw [textRows, parse, h, passRows]
  cases hchecked : checkedRows duck options read with
  | error e => simp [bind, Except.bind, hchecked, Except.toOption]
  | ok rows => simp [bind, Except.bind, hchecked, Except.toOption, pure, Except.pure]

/-- The rows of lines: of the one document, or of the documents as they are. -/
theorem textRows_joinLines (hduck : YyjsonReads duck) (options : RawParseOptions)
    {ls : List Bytes} (h : IsNdjson duck ls) (hlines : ∀ line ∈ ls, (10 : UInt8) ∉ line)
    (hwhite : ls.all isWhite = false) :
    textRows duck options (joinLines ls) =
      readGroup (passAlone duck options) (passRows duck options) (linePieces duck ls) := by
  have hne : ls ≠ [] := fun hnil => by
    rw [hnil] at hwhite
    exact nomatch hwhite
  have hread := yyjsonRead_joinLines hduck h hwhite
  have hapart : duck.yyjsonRead (joinLines ls) = none →
      textRows duck options (joinLines ls) =
        passRows duck options (items (linePieces duck ls)) := by
    intro hnone
    have hrows : readRows duck options (joinLines ls) = .ok (items (linePieces duck ls), 0) := by
      rw [readRows, hnone]
      simp only [lines_joinLines hlines hne]
      exact parseLines_ndjson options h 1
    exact textRows_of_read hrows
  by_cases hone : (items (linePieces duck ls)).length = 1 ∧ barred (linePieces duck ls) = false
  · obtain ⟨document, hitems⟩ := List.length_eq_one_iff.mp hone.1
    rw [readGroup_single hitems hone.2]
    have hsome : duck.yyjsonRead (joinLines ls) = some document := by
      rw [hread, onlyDocument, hitems, hone.2]
      rfl
    have hrows : readRows duck options (joinLines ls) = .ok (collectRows document, 0) := by
      rw [readRows, hsome]
    exact textRows_of_read hrows
  · rw [readGroup_of_good fun hlength hbar => absurd ⟨hlength, hbar⟩ hone]
    refine hapart ?_
    rw [hread, onlyDocument]
    split
    · next document hitems =>
      rw [hitems] at hone
      rw [if_pos (by simpa using hone)]
    · rfl

/-! ## rows that pass -/

/-- All rows are objects, or none is. -/
def IsUniform (rows : List Json) : Prop :=
  (∀ row ∈ rows, row.isObj = true) ∨ ∀ row ∈ rows, row.isObj = false

theorem checkRowUniformity_isOk {rows : List Json} :
    (∃ scalarRows, checkRowUniformity rows = .ok scalarRows) ↔ IsUniform rows := by
  have hcount : IsUniform rows ↔
      rows.countP Json.isObj = rows.length ∨ rows.countP Json.isObj = 0 := by
    rw [List.countP_eq_length, List.countP_eq_zero]
    simp only [IsUniform, Bool.not_eq_true]
  rw [hcount, checkRowUniformity]
  split
  · next h =>
    constructor
    · exact fun hok => (nomatch hok.choose_spec)
    · omega
  · next h =>
    constructor
    · intro _
      omega
    · exact fun _ => ⟨_, rfl⟩

theorem IsUniform.left {rows rows' : List Json} (h : IsUniform (rows ++ rows')) :
    IsUniform rows :=
  h.imp (fun h row hrow => h row (List.mem_append_left _ hrow))
    fun h row hrow => h row (List.mem_append_left _ hrow)

theorem IsUniform.right {rows rows' : List Json} (h : IsUniform (rows ++ rows')) :
    IsUniform rows' :=
  h.imp (fun h row hrow => h row (List.mem_append_right _ hrow))
    fun h row hrow => h row (List.mem_append_right _ hrow)

/-- The rows after exploding, when there is a path. -/
def explodedRows (duck : Duck) (options : RawParseOptions) (rows : List Json) : List Json :=
  if options.explodePath.isEmpty then rows
  else explode duck options.explodePath options.otlp rows

variable {options : RawParseOptions}

theorem explodedRows_append (rows rows' : List Json) :
    explodedRows duck options (rows ++ rows') =
      explodedRows duck options rows ++ explodedRows duck options rows' := by
  unfold explodedRows
  split
  · rfl
  · exact explode_append ..

theorem passRows_eq_some {read rows : List Json} :
    passRows duck options read = some rows ↔
      IsUniform read ∧ rows = explodedRows duck options read ∧ IsUniform rows := by
  have hchecked : passRows duck options read = some rows ↔
      ∃ scalarRows, checkedRows duck options read = .ok (rows, scalarRows) := by
    rw [passRows]
    cases checkedRows duck options read with
    | error e => simp [Except.toOption]
    | ok checked =>
        obtain ⟨rows', scalarRows⟩ := checked
        simp [Except.toOption]
  rw [hchecked]
  unfold checkedRows explodedRows
  constructor
  · rintro ⟨scalarRows, h⟩
    obtain ⟨scalarRead, hread, h⟩ := bind_eq_ok.mp h
    have huniform := checkRowUniformity_isOk.mp ⟨_, hread⟩
    split at h
    · next hpath =>
      obtain ⟨rfl, -⟩ := Prod.mk.inj (pure_eq_ok.mp h)
      exact ⟨huniform, by rw [if_pos hpath], huniform⟩
    · next hpath =>
      obtain ⟨scalarExploded, hexploded, h⟩ := bind_eq_ok.mp h
      obtain ⟨rfl, -⟩ := Prod.mk.inj (pure_eq_ok.mp h)
      exact ⟨huniform, by rw [if_neg hpath], checkRowUniformity_isOk.mp ⟨_, hexploded⟩⟩
  · rintro ⟨hread, rfl, hrows⟩
    obtain ⟨scalarRead, hread⟩ := checkRowUniformity_isOk.mpr hread
    obtain ⟨scalarRows, hrows⟩ := checkRowUniformity_isOk.mpr hrows
    split
    · exact ⟨scalarRead, bind_eq_ok.mpr ⟨_, hread, rfl⟩⟩
    · next hpath =>
      rw [if_neg hpath] at hrows
      exact ⟨scalarRows, bind_eq_ok.mpr ⟨_, hread, bind_eq_ok.mpr ⟨_, hrows, rfl⟩⟩⟩

/-- The parts of rows that pass do, and make up the whole. -/
theorem hereditary_passRows : Hereditary (passRows duck options) where
  nil := passRows_eq_some.mpr ⟨.inl fun _ h => (nomatch h),
    by simp [explodedRows, explode], .inl fun _ h => (nomatch h)⟩
  append read read' rows h := by
    obtain ⟨hread, rfl, hrows⟩ := passRows_eq_some.mp h
    rw [explodedRows_append] at hrows ⊢
    exact ⟨_, _, passRows_eq_some.mpr ⟨hread.left, rfl, hrows.left⟩,
      passRows_eq_some.mpr ⟨hread.right, rfl, hrows.right⟩, rfl⟩

/-- What is no object does not explode. -/
theorem explodeInto_of_not_obj (path : List Bytes) {row : Json} (h : row.isObj = false) :
    explodeInto path [] row = [row] := by
  cases row with
  | obj members => exact nomatch h
  | _ => cases path <;> rfl

theorem isObj_otlpNormalizeRow (hduck : YyjsonReads duck) {row : Json} (h : row.isObj = false) :
    (otlpNormalizeRow duck row).isObj = false := by
  cases row with
  | obj members => exact nomatch h
  | arr elements =>
      rw [otlpNormalizeRow]
      split
      · exact hduck.left elements
      · rfl
  | _ => rw [otlpNormalizeRow] <;> simp [h]

/-- Objects and other values do not pass together, but alone an object does as
among others, and other values always pass together. -/
theorem parted_passRows (hduck : YyjsonReads duck) :
    Parted (passAlone duck options) (passRows duck options) Json.isObj where
  apart read rows h a ha b hb := by
    obtain ⟨hall | hnone, -, -⟩ := passRows_eq_some.mp h
    · rw [hall a ha, hall b hb]
    · rw [hnone a ha, hnone b hb]
  marked document h := by
    cases document with
    | obj members => rfl
    | _ => exact nomatch h
  joined read h := by
    refine ⟨explodedRows duck options read, passRows_eq_some.mpr ⟨.inr h, rfl, .inr ?_⟩⟩
    unfold explodedRows explode
    split
    · exact h
    · have hflat : read.flatMap (explodeInto options.explodePath []) = read := by
        rw [List.flatMap_congr fun row hrow => explodeInto_of_not_obj _ (h row hrow)]
        simp
      rw [hflat]
      split
      · intro row hrow
        obtain ⟨row', hrow', rfl⟩ := List.mem_map.mp hrow
        exact isObj_otlpNormalizeRow hduck (h row' hrow')
      · exact h

end RawDuck
