import RawDuck.GroupCommit
import RawDuck.Split
import Mathlib.Algebra.Order.BigOperators.Group.List

/-!
# RawDuck.Combined

The text of a batch of requests, which the fallback path parses again, and when
it has the rows of the requests.

* `textRows_eq_some` — what an accepted text is: one document, or documents and
  blank lines;
* `combinedText_rows_iff` — when the combined text has the combined rows.
-/

namespace RawDuck

open Cuts Fallible

variable {duck : Duck}

/-! ## accepted texts -/

theorem passRows_default {read rows : List Json} :
    passRows duck {} read = some rows ↔ IsUniform read ∧ rows = read := by
  rw [passRows_eq_some]
  constructor
  · rintro ⟨huniform, hrows, -⟩
    exact ⟨huniform, hrows⟩
  · rintro ⟨huniform, rfl⟩
    exact ⟨huniform, rfl, huniform⟩

/-- Lines that are read without skipping one are documents. -/
theorem isNdjson_of_parseLines {ls : List Bytes} {lineNumber : Nat} {read : List Json × Nat}
    (h : parseLines duck {} ls lineNumber = .ok read) : IsNdjson duck ls := by
  induction ls generalizing lineNumber read with
  | nil => exact List.forall_mem_nil _
  | cons line ls ih =>
      rw [parseLines] at h
      intro line' hline' hblank'
      cases hblank : isBlank line with
      | true =>
          rw [if_pos hblank] at h
          rcases List.mem_cons.mp hline' with rfl | hline'
          · rw [hblank] at hblank'
            contradiction
          · exact ih h line' hline' hblank'
      | false =>
          rw [if_neg (by simp [hblank])] at h
          cases hread : duck.yyjsonRead line with
          | none =>
              simp only [hread, Bool.false_eq_true, if_false] at h
              contradiction
          | some document =>
              simp only [hread] at h
              obtain ⟨rest, hrest, -⟩ := bind_eq_ok.mp h
              rcases List.mem_cons.mp hline' with rfl | hline'
              · exact ⟨document, hread⟩
              · exact ih hrest line' hline' hblank'

/-- A text is accepted as one document, or line by line. -/
theorem textRows_eq_some {text : Bytes} {rows : List Json} :
    textRows duck {} text = some rows ↔
      IsUniform rows ∧ ((∃ root, duck.yyjsonRead text = some root ∧ rows = collectRows root) ∨
        (duck.yyjsonRead text = none ∧ IsNdjson duck (lines text) ∧
          rows = items (linePieces duck (lines text)))) := by
  cases hread : duck.yyjsonRead text with
  | some root =>
      have hrows : readRows duck {} text = .ok (collectRows root, 0) := by
        rw [readRows, hread]
      rw [textRows_of_read hrows, passRows_default]
      constructor
      · rintro ⟨huniform, rfl⟩
        exact ⟨huniform, .inl ⟨root, rfl, rfl⟩⟩
      · rintro ⟨huniform, ⟨root', hroot', rfl⟩ | ⟨hnone, -⟩⟩
        · obtain rfl := Option.some.inj hroot'
          exact ⟨huniform, rfl⟩
        · contradiction
  | none =>
      have hlines : readRows duck {} text = parseLines duck {} (lines text) 1 := by
        rw [readRows, hread]
      have hndjson : IsNdjson duck (lines text) → textRows duck {} text =
          passRows duck {} (items (linePieces duck (lines text))) := fun h =>
        textRows_of_read (hlines.trans (parseLines_ndjson {} h 1))
      constructor
      · intro h
        have hdocuments : IsNdjson duck (lines text) := by
          cases hparsed : parseLines duck {} (lines text) 1 with
          | ok read => exact isNdjson_of_parseLines hparsed
          | error e =>
              rw [textRows, parse, hlines, hparsed] at h
              contradiction
        rw [hndjson hdocuments, passRows_default] at h
        obtain ⟨huniform, rfl⟩ := h
        exact ⟨huniform, .inr ⟨rfl, hdocuments, rfl⟩⟩
      · rintro ⟨huniform, ⟨root, hroot, -⟩ | ⟨-, hdocuments, rfl⟩⟩
        · contradiction
        · rw [hndjson hdocuments, passRows_default]
          exact ⟨huniform, rfl⟩

section

variable (hduck : YyjsonReads duck)
include hduck

/-- Whitespace is accepted without rows. -/
theorem textRows_white {text : Bytes} {rows : List Json} (hwhite : isWhite text = true)
    (h : textRows duck {} text = some rows) : rows = [] := by
  have hnone : duck.yyjsonRead text = none := by
    rw [← List.append_nil text, yyjsonRead_white hduck hwhite, hduck.empty]
  obtain ⟨-, ⟨root, hroot, -⟩ | ⟨-, hdocuments, rfl⟩⟩ := textRows_eq_some.mp h
  · rw [hnone] at hroot
    exact nomatch hroot
  · rw [← joinLines_lines text, isWhite_joinLines] at hwhite
    exact ((isWhite_iff_pieces hdocuments).mp hwhite).1

/-- Whitespace before a text changes nothing. -/
theorem textRows_white_before {before text : Bytes} {rows : List Json}
    (hbefore : isWhite before = true) (h : textRows duck {} text = some rows) :
    textRows duck {} (before ++ 10 :: text) = some rows := by
  have hread : duck.yyjsonRead (before ++ 10 :: text) = duck.yyjsonRead text := by
    rw [← List.singleton_append, ← List.append_assoc, yyjsonRead_white hduck (by simp [hbefore])]
  have hall : (lines before).all isWhite = true := by
    rw [← isWhite_joinLines, joinLines_lines, hbefore]
  obtain ⟨huniform, hdocument | ⟨hnone, hdocuments, rfl⟩⟩ := textRows_eq_some.mp h
  · exact textRows_eq_some.mpr ⟨huniform, .inl (hread ▸ hdocument)⟩
  · refine textRows_eq_some.mpr ⟨huniform, .inr ⟨hread ▸ hnone, ?_, ?_⟩⟩
    · rw [lines_append_newline]
      exact isNdjson_append.mpr ⟨isNdjson_of_white hall, hdocuments⟩
    · rw [lines_append_newline, linePieces_append, items_append,
        ((isWhite_iff_pieces (isNdjson_of_white hall)).mp hall).1, List.nil_append]

/-- Whitespace after a text changes nothing. -/
theorem textRows_white_after {text after : Bytes} {rows : List Json}
    (hafter : isWhite after = true) (h : textRows duck {} text = some rows) :
    textRows duck {} (text ++ 10 :: after) = some rows := by
  have hread : duck.yyjsonRead (text ++ 10 :: after) = duck.yyjsonRead text :=
    hduck.trim [] text (10 :: after) rfl hafter
  have hall : (lines after).all isWhite = true := by
    rw [← isWhite_joinLines, joinLines_lines, hafter]
  obtain ⟨huniform, hdocument | ⟨hnone, hdocuments, rfl⟩⟩ := textRows_eq_some.mp h
  · exact textRows_eq_some.mpr ⟨huniform, .inl (hread ▸ hdocument)⟩
  · refine textRows_eq_some.mpr ⟨huniform, .inr ⟨hread ▸ hnone, ?_, ?_⟩⟩
    · rw [lines_append_newline]
      exact isNdjson_append.mpr ⟨hdocuments, isNdjson_of_white hall⟩
    · rw [lines_append_newline, linePieces_append, items_append,
        ((isWhite_iff_pieces (isNdjson_of_white hall)).mp hall).1, List.append_nil]

/-- Lines of documents with more behind them are no document. -/
theorem yyjsonRead_joinLines_append {ls : List Bytes} {rest : Bytes} (h : IsNdjson duck ls)
    (hwhite : ls.all isWhite = false) (hrest : isWhite rest = false) :
    duck.yyjsonRead (joinLines ls ++ 10 :: rest) = none := by
  induction ls with
  | nil => exact nomatch hwhite
  | cons line ls ih =>
      -- what stands behind the line
      obtain ⟨more, hmore, hmoreWhite⟩ : ∃ more, joinLines (line :: ls) ++ 10 :: rest =
          line ++ 10 :: more ∧ isWhite more = false := by
        cases ls with
        | nil => exact ⟨rest, by rw [joinLines_singleton], hrest⟩
        | cons line' ls =>
            refine ⟨joinLines (line' :: ls) ++ 10 :: rest, ?_, by simp [hrest]⟩
            rw [joinLines_cons (List.cons_ne_nil _ _), List.append_assoc, List.cons_append]
      obtain ⟨hw, -⟩ | ⟨hblank, hw, -⟩ | ⟨document, -, -, hread, -⟩ :=
        line_cases h List.mem_cons_self
      · rw [List.all_cons, hw, Bool.true_and] at hwhite
        cases ls with
        | nil => exact nomatch hwhite
        | cons line' ls =>
            have htext : joinLines (line :: line' :: ls) ++ 10 :: rest =
                (line ++ [10]) ++ (joinLines (line' :: ls) ++ 10 :: rest) := by
              rw [joinLines_cons (List.cons_ne_nil _ _)]
              simp
            rw [htext, yyjsonRead_white hduck (by simp [hw]), ih h.tail hwhite]
      · rw [hmore, yyjsonRead_bar hduck hblank hw]
      · rw [hmore, hduck.extra line more document hread hmoreWhite]

/-- An accepted text with more behind it is no document. -/
theorem yyjsonRead_append_of_textRows {text rest : Bytes} {rows : List Json}
    (h : textRows duck {} text = some rows) (hwhite : isWhite text = false)
    (hrest : isWhite rest = false) : duck.yyjsonRead (text ++ 10 :: rest) = none := by
  obtain ⟨-, ⟨root, hroot, -⟩ | ⟨-, hdocuments, -⟩⟩ := textRows_eq_some.mp h
  · exact hduck.extra text rest root hroot hrest
  · rw [← joinLines_lines text, isWhite_joinLines] at hwhite
    rw [← joinLines_lines text]
    exact yyjsonRead_joinLines_append hduck hdocuments hwhite hrest

end

/-! ## the text of a batch -/

theorem joinLines_merge (text text' : Bytes) (texts : List Bytes) :
    joinLines ((text ++ 10 :: text') :: texts) = joinLines (text :: text' :: texts) := by
  rw [joinLines_cons (List.cons_ne_nil text' texts)]
  cases texts with
  | nil => rw [joinLines_singleton, joinLines_singleton]
  | cons text'' texts =>
      rw [joinLines_cons (List.cons_ne_nil text'' texts),
        joinLines_cons (List.cons_ne_nil text'' texts)]
      simp

/-- The combined text has one text a line. -/
theorem combinedText_eq (first : PendingItem) (rest : List PendingItem) :
    combinedText first rest = joinLines ((first :: rest).map PendingItem.payloadText) := by
  rw [combinedText, List.map_cons]
  generalize first.payloadText = text
  induction rest generalizing text with
  | nil => rw [List.map_nil, joinLines_singleton, List.foldl_nil]
  | cons item rest ih =>
      have hbytes : bytes "\n" = [10] := rfl
      rw [List.foldl_cons, ih, hbytes, List.append_assoc, List.singleton_append, joinLines_merge,
        List.map_cons]

theorem lines_joinTexts {texts : List Bytes} (hne : texts ≠ []) :
    lines (joinLines texts) = texts.flatMap lines := by
  induction texts with
  | nil => exact absurd rfl hne
  | cons text texts ih =>
      cases texts with
      | nil => rw [joinLines_singleton, List.flatMap_singleton]
      | cons text' texts =>
          rw [joinLines_cons (List.cons_ne_nil _ _), lines_append_newline,
            ih (List.cons_ne_nil _ _)]
          rfl

/-- The requests of a batch hold what parsing made of their texts. -/
def Accepted (duck : Duck) (items : List PendingItem) : Prop :=
  ∀ item ∈ items, parse duck {} item.payloadText = .ok item.parsed.payload

/-- The rows of the requests, one after the other. -/
def requestRows (items : List PendingItem) : List Json :=
  items.flatMap fun item => item.parsed.payload.rows

/-- Of any two requests one is whitespace. -/
def OneSpeaks (items : List PendingItem) : Prop :=
  items.Pairwise fun item item' =>
    isWhite item.payloadText = true ∨ isWhite item'.payloadText = true

/-- Each line of each request is a document or blank, no request is an array, and
the rows are uniform. -/
structure SpeaksByLine (duck : Duck) (items : List PendingItem) : Prop where
  documents : ∀ item ∈ items, IsNdjson duck (lines item.payloadText)
  arrays : ∀ item ∈ items, ∀ elements, duck.yyjsonRead item.payloadText ≠ some (.arr elements)
  uniform : IsUniform (requestRows items)

theorem Accepted.textRows {items : List PendingItem} (h : Accepted duck items) {item : PendingItem}
    (hitem : item ∈ items) :
    RawDuck.textRows duck {} item.payloadText = some item.parsed.payload.rows := by
  rw [RawDuck.textRows, h item hitem]
  rfl

theorem Accepted.tail {item : PendingItem} {items : List PendingItem}
    (h : Accepted duck (item :: items)) : Accepted duck items :=
  fun item' hitem' => h item' (List.mem_cons_of_mem _ hitem')

/-- Requests of which all are whitespace have no rows. -/
theorem requestRows_white (hduck : YyjsonReads duck) {items : List PendingItem}
    (h : Accepted duck items) (hwhite : ∀ item ∈ items, isWhite item.payloadText = true) :
    requestRows items = [] :=
  List.flatMap_eq_nil_iff.mpr fun item hitem =>
    textRows_white hduck (hwhite item hitem) (h.textRows hitem)

theorem isWhite_joinTexts (items : List PendingItem) :
    isWhite (joinLines (items.map PendingItem.payloadText)) = true ↔
      ∀ item ∈ items, isWhite item.payloadText = true := by
  rw [isWhite_joinLines, List.all_map, List.all_eq_true]
  rfl

/-- Where one speaks the combined text is its text and whitespace. -/
theorem textRows_of_oneSpeaks (hduck : YyjsonReads duck) {items : List PendingItem}
    (hne : items ≠ []) (h : Accepted duck items) (hone : OneSpeaks items) :
    textRows duck {} (joinLines (items.map PendingItem.payloadText)) =
      some (requestRows items) := by
  induction items with
  | nil => exact absurd rfl hne
  | cons item items ih =>
      have hitem := h.textRows List.mem_cons_self
      cases items with
      | nil => simpa [joinLines_singleton, requestRows] using hitem
      | cons item' items =>
          obtain ⟨hfirst, hrest⟩ := List.pairwise_cons.mp hone
          have hrows : requestRows (item :: item' :: items) =
              item.parsed.payload.rows ++ requestRows (item' :: items) := rfl
          rw [List.map_cons, joinLines_cons (by simp), hrows]
          cases hwhite : isWhite item.payloadText with
          | true =>
              rw [textRows_white hduck hwhite hitem, List.nil_append]
              exact textRows_white_before hduck hwhite (ih (List.cons_ne_nil _ _) h.tail hrest)
          | false =>
              have hafter : ∀ item'' ∈ item' :: items, isWhite item''.payloadText = true :=
                fun item'' hitem'' => (hfirst item'' hitem'').resolve_left (by simp [hwhite])
              rw [requestRows_white hduck h.tail hafter, List.append_nil]
              exact textRows_white_after hduck ((isWhite_joinTexts _).mpr hafter) hitem

/-- Where two speak the combined text is no document. -/
theorem yyjsonRead_of_two (hduck : YyjsonReads duck) {items : List PendingItem}
    (h : Accepted duck items) (htwo : ¬ OneSpeaks items) :
    duck.yyjsonRead (joinLines (items.map PendingItem.payloadText)) = none := by
  induction items with
  | nil => exact absurd List.Pairwise.nil htwo
  | cons item items ih =>
      cases items with
      | nil => exact absurd (List.pairwise_singleton _ _) htwo
      | cons item' items =>
          rw [List.map_cons, joinLines_cons (by simp)]
          cases hwhite : isWhite item.payloadText with
          | true =>
              have hrest : ¬ OneSpeaks (item' :: items) := fun hrest =>
                htwo (List.pairwise_cons.mpr ⟨fun _ _ => .inl hwhite, hrest⟩)
              rw [← List.singleton_append, ← List.append_assoc,
                yyjsonRead_white hduck (by simp [hwhite]), ih h.tail hrest]
          | false =>
              refine yyjsonRead_append_of_textRows hduck (h.textRows List.mem_cons_self) hwhite ?_
              rw [← Bool.not_eq_true, isWhite_joinTexts]
              intro hafter
              refine htwo
                (List.pairwise_cons.mpr ⟨fun item'' hitem'' => .inr (hafter _ hitem''), ?_⟩)
              exact List.Pairwise.imp_of_mem (fun hmem _ _ => .inl (hafter _ hmem))
                (List.pairwise_of_forall (R := fun _ _ => True) fun _ _ => trivial)

/-- The document of a text that reads by lines is the one of its lines. -/
theorem items_of_yyjsonRead (hduck : YyjsonReads duck) {text : Bytes} {root : Json}
    (hdocuments : IsNdjson duck (lines text)) (hread : duck.yyjsonRead text = some root) :
    items (linePieces duck (lines text)) = [root] := by
  have hwhite : (lines text).all isWhite = false := by
    rw [← isWhite_joinLines, joinLines_lines]
    by_contra hwhite
    rw [← List.append_nil text, yyjsonRead_white hduck (by simpa using hwhite),
      hduck.empty] at hread
    contradiction
  have honly := yyjsonRead_joinLines hduck hdocuments hwhite
  rw [joinLines_lines, hread, onlyDocument] at honly
  split at honly
  · next document hitems =>
    split at honly
    · contradiction
    · rw [hitems, Option.some.inj honly]
  · contradiction

/-- A request that reads by lines has the rows of its lines, unless it is an
array: then it weighs less. -/
theorem request_rows (hduck : YyjsonReads duck) {text : Bytes} {rows : List Json}
    (h : textRows duck {} text = some rows) (hdocuments : IsNdjson duck (lines text)) :
    (rows = items (linePieces duck (lines text)) ∧
      ∀ elements, duck.yyjsonRead text ≠ some (.arr elements)) ∨
    (rowsWeight rows < rowsWeight (items (linePieces duck (lines text))) ∧
      ∃ elements, duck.yyjsonRead text = some (.arr elements)) := by
  obtain ⟨huniform, ⟨root, hroot, rfl⟩ | ⟨hnone, -, rfl⟩⟩ := textRows_eq_some.mp h
  · rw [items_of_yyjsonRead hduck hdocuments hroot]
    by_cases harray : ∃ elements, root = .arr elements
    · obtain ⟨elements, rfl⟩ := harray
      right
      have hsingle : IsUniform [Json.arr elements] :=
        .inr fun row hrow => by rw [List.mem_singleton.mp hrow]; rfl
      have halone : passAlone duck {} (.arr elements) = some elements :=
        passRows_default.mpr ⟨huniform, rfl⟩
      exact ⟨rowsWeight_alone_lt rfl halone (passRows_default.mpr ⟨hsingle, rfl⟩), elements, hroot⟩
    · left
      refine ⟨?_, fun elements h => harray ⟨elements, Option.some.inj (hroot.symm.trans h)⟩⟩
      cases root with
      | arr elements => exact absurd ⟨elements, rfl⟩ harray
      | _ => rfl
  · exact .inl ⟨rfl, fun elements h => by rw [hnone] at h; exact nomatch h⟩

/-- The rows of the lines of requests. -/
theorem items_flatMap (texts : List Bytes) :
    items (linePieces duck (texts.flatMap lines)) =
      texts.flatMap fun text => items (linePieces duck (lines text)) := by
  induction texts with
  | nil => rfl
  | cons text texts ih =>
      rw [List.flatMap_cons, linePieces_append, items_append, ih, List.flatMap_cons]

theorem rowsWeight_flatMap {α : Type} (f : α → List Json) (values : List α) :
    rowsWeight (values.flatMap f) = (values.map fun value => rowsWeight (f value)).sum := by
  induction values with
  | nil => rfl
  | cons value values ih =>
      rw [List.flatMap_cons, rowsWeight_append, ih, List.map_cons, List.sum_cons]

/-- Requests that read by lines have the rows of their lines exactly when none is
an array. -/
theorem requestRows_eq_iff (hduck : YyjsonReads duck) {requests : List PendingItem}
    (h : Accepted duck requests)
    (hdocuments : ∀ item ∈ requests, IsNdjson duck (lines item.payloadText)) :
    (requests.flatMap fun item => items (linePieces duck (lines item.payloadText))) =
        requestRows requests ↔
      ∀ item ∈ requests, ∀ elements, duck.yyjsonRead item.payloadText ≠ some (.arr elements) := by
  have hrows := fun (item : PendingItem) (hitem : item ∈ requests) =>
    request_rows hduck (h.textRows hitem) (hdocuments item hitem)
  constructor
  · intro heq item hitem elements hread
    have hlt : (requests.map fun item => rowsWeight item.parsed.payload.rows).sum <
        (requests.map fun item =>
          rowsWeight (items (linePieces duck (lines item.payloadText)))).sum := by
      refine List.sum_lt_sum _ _ (fun item hitem => ?_) ⟨item, hitem, ?_⟩
      · obtain ⟨hsame, -⟩ | ⟨hless, -⟩ := hrows item hitem
        · rw [hsame]
        · exact hless.le
      · obtain ⟨-, hnot⟩ | ⟨hless, -⟩ := hrows item hitem
        · exact absurd hread (hnot elements)
        · exact hless
    rw [← rowsWeight_flatMap, ← rowsWeight_flatMap, heq] at hlt
    exact Nat.lt_irrefl _ hlt
  · intro hnot
    refine List.flatMap_congr fun item hitem => ?_
    obtain ⟨hsame, -⟩ | ⟨-, elements, hread⟩ := hrows item hitem
    · exact hsame.symm
    · exact absurd hread (hnot item hitem elements)

/-- **The text of a batch**: it is parsed to the rows of the requests exactly when
one of them speaks at most, or all do so by line. -/
theorem combinedText_rows_iff (hduck : YyjsonReads duck) {first : PendingItem}
    {rest : List PendingItem} (h : Accepted duck (first :: rest)) :
    textRows duck {} (combinedText first rest) = some (requestRows (first :: rest)) ↔
      OneSpeaks (first :: rest) ∨ SpeaksByLine duck (first :: rest) := by
  rw [combinedText_eq]
  have hne : (first :: rest).map PendingItem.payloadText ≠ [] := by simp
  generalize hrequests : first :: rest = requests at *
  by_cases hone : OneSpeaks requests
  · have hrequests' : requests ≠ [] := hrequests ▸ List.cons_ne_nil first rest
    exact ⟨fun _ => .inl hone, fun _ => textRows_of_oneSpeaks hduck hrequests' h hone⟩
  · have hread := yyjsonRead_of_two hduck h hone
    have hlines := lines_joinTexts hne
    have hdocuments : IsNdjson duck
        (lines (joinLines (requests.map PendingItem.payloadText))) ↔
        ∀ item ∈ requests, IsNdjson duck (lines item.payloadText) := by
      rw [hlines, List.flatMap_map]
      constructor
      · intro hall item hitem line hline
        exact hall line (List.mem_flatMap.mpr ⟨item, hitem, hline⟩)
      · intro hall line hline
        obtain ⟨item, hitem, hline⟩ := List.mem_flatMap.mp hline
        exact hall item hitem line hline
    have hitems : items (linePieces duck
        (lines (joinLines (requests.map PendingItem.payloadText)))) =
        requests.flatMap fun item => items (linePieces duck (lines item.payloadText)) := by
      rw [hlines, items_flatMap, List.flatMap_map]
    rw [textRows_eq_some, hread, hdocuments, hitems]
    constructor
    · rintro ⟨huniform, ⟨root, hroot, -⟩ | ⟨-, hall, hrows⟩⟩
      · exact nomatch hroot
      · exact .inr ⟨hall, (requestRows_eq_iff hduck h hall).mp hrows.symm, huniform⟩
    · rintro (hone' | hline)
      · exact absurd hone' hone
      · exact ⟨hline.uniform, .inr ⟨rfl, hline.documents,
          ((requestRows_eq_iff hduck h hline.documents).mpr hline.arrays).symm⟩⟩

/-- Requests that `Process` made hold what parsing made of their texts. -/
theorem accepted_of_process {requests : List PendingItem}
    (h : ∀ item ∈ requests, process duck {} item.payloadText = .ok item.parsed) :
    Accepted duck requests := by
  intro item hitem
  obtain ⟨payload, hpayload, hprocess⟩ := bind_eq_ok.mp (h item hitem)
  obtain ⟨columns, -, hprocess⟩ := bind_eq_ok.mp hprocess
  rw [hpayload, ← pure_eq_ok.mp hprocess]

/-! ## two batches -/

/-- Objects, one a line, can be combined with another. -/
theorem combinedText_rows_objects : ∃ first second : PendingItem,
    process listDuck {} first.payloadText = .ok first.parsed ∧
    process listDuck {} second.payloadText = .ok second.parsed ∧
    textRows listDuck {} (combinedText first [second]) = some (requestRows [first, second]) := by
  refine ⟨.create _ objectText, .create _ (bytes "\x7b\"a\":1\x7d"), rfl, rfl, ?_⟩
  refine (combinedText_rows_iff yyjsonReads_listDuck (accepted_of_process ?_)).mpr
    (.inr ⟨?_, ?_, .inl ?_⟩)
  · exact List.forall_mem_cons.mpr ⟨rfl, List.forall_mem_cons.mpr ⟨rfl, fun _ h => (nomatch h)⟩⟩
  · exact List.forall_mem_cons.mpr ⟨isNdjson_of_all rfl,
      List.forall_mem_cons.mpr ⟨isNdjson_of_all rfl, fun _ h => (nomatch h)⟩⟩
  · refine List.forall_mem_cons.mpr ⟨fun elements h => ?_,
      List.forall_mem_cons.mpr ⟨fun elements h => ?_, fun _ h => (nomatch h)⟩⟩
    · have hnone : listDuck.yyjsonRead objectText = none := rfl
      exact nomatch hnone.symm.trans h
    · have hobject : listDuck.yyjsonRead (bytes "\x7b\"a\":1\x7d") =
          some (.obj [(bytes "a", .uint 1)]) := rfl
      exact nomatch hobject.symm.trans h
  · have hrows : ∀ row ∈ [Json.obj [(bytes "a", .uint 1)],
        .obj [(bytes "b", .arr [.uint 2])], .obj [(bytes "a", .uint 1)]], row.isObj = true := by
      simp [Json.isObj]
    exact hrows

/-- Of two arrays the combined text has the arrays, not their elements. -/
theorem combinedText_rows_arrays : ∃ first second : PendingItem,
    process listDuck {} first.payloadText = .ok first.parsed ∧
    process listDuck {} second.payloadText = .ok second.parsed ∧
    requestRows [first, second] = [.uint 1, .uint 2, .uint 3] ∧
    textRows listDuck {} (combinedText first [second]) =
      some [.arr [.uint 1, .uint 2], .arr [.uint 3]] ∧
    textRows listDuck {} (combinedText first [second]) ≠ some (requestRows [first, second]) := by
  refine ⟨.create _ (bytes "[1,2]"), .create _ (bytes "[3]"), rfl, rfl, rfl, rfl, fun h => ?_⟩
  exact absurd (congrArg (Option.map List.length) h) (by decide)

end RawDuck
