import RawDuck.IngestFile

/-!
# RawDuck.FallbackMirror

What the ingestor remembers of a remote table, over many batches.

`fallback_exists` and `fallback_types` mirror the table of the other catalog,
and the counters tell what its batches did to it; later batches are planned
from the mirror.  Any statement of any attempt may fail, so every attempt meets
a catalog of its own, and all that is known of it is what a statement that
succeeds does (`Sql`).

* `TableView.added`, `TableView.retyped` — what a committed transaction did, by
  the table before and after it;
* `run_columnStatements` — the statements of a plan bring the table where the
  mirror goes;
* `Mirrors` — the mirror and the counters are those of the committed
  transactions; kept by every call, whether it raises or not
  (`mirrors_ingestCalls`).
-/

namespace RawDuck

open Fallible LogicalType

/-! ## the remote table -/

/-- The columns of a table, by name and type. -/
abbrev NamedTypes := List (Bytes × LogicalType)

/-- What can be seen of the target in a state of its catalog: its columns, unless
there is no such table, and the number of its rows. -/
structure TableView (ω : Type) where
  schema : ω → Option NamedTypes
  rowCount : ω → Nat

/-- What the statements do when they succeed; a catalog may refuse any of them. -/
structure Sql {ω : Type} (view : TableView ω) (cat : FallbackCatalog ω) : Prop where
  probe_table : ∀ w columns, view.schema w = some columns → cat.probe w = .ok columns
  probe_missing : ∀ w, view.schema w = none → ∃ error, cat.probe w = .error error
  createTable : ∀ w w' n columns, cat.run w (.createTable columns) = .ok (w', n) →
    view.schema w = none ∧ view.schema w' = some columns ∧ view.rowCount w' = view.rowCount w
  addColumn : ∀ w w' n columns name type, cat.run w (.addColumn name type) = .ok (w', n) →
    view.schema w = some columns → typeIn columns name = none →
    view.schema w' = some (columns ++ [(name, type)]) ∧ view.rowCount w' = view.rowCount w
  alterType : ∀ w w' n columns name type usingToJson,
    cat.run w (.alterType name type usingToJson) = .ok (w', n) →
    view.schema w = some columns → (typeIn columns name).isSome = true →
    view.schema w' =
      some (columns.map fun entry => if ciEq entry.1 name then (entry.1, type) else entry) ∧
      view.rowCount w' = view.rowCount w
  insertSelect : ∀ w w' n exprs text, cat.run w (.insertSelect exprs text) = .ok (w', n) →
    view.schema w' = view.schema w ∧ view.rowCount w' = view.rowCount w + n
  commit : ∀ w w', cat.commit w = .ok w' →
    view.schema w' = view.schema w ∧ view.rowCount w' = view.rowCount w

/-- A committed transaction: the catalog before and after it. -/
structure Commit (ω : Type) where
  before : ω
  after : ω

/-- No two of the names are equal ignoring case. -/
def DistinctNames (types : NamedTypes) : Prop := (types.map fun entry => lower entry.1).Nodup

/-- How many columns a table has that another has not. -/
def addedTo (before after : NamedTypes) : Nat :=
  after.countP fun entry => (typeIn before entry.1).isNone

/-- How many columns a table has with another type than before. -/
def retypedIn (before after : NamedTypes) : Nat :=
  after.countP fun entry => (typeIn before entry.1).any fun type => type ≠ entry.2

namespace TableView

variable {ω : Type} (view : TableView ω)

/-- The columns of the target; none when it does not exist. -/
def columns (w : ω) : NamedTypes := (view.schema w).getD []

/-- The columns a transaction added, those of a created table among them. -/
def added (c : Commit ω) : Nat := addedTo (view.columns c.before) (view.columns c.after)

/-- The columns a transaction gave another type. -/
def retyped (c : Commit ω) : Nat := retypedIn (view.columns c.before) (view.columns c.after)

/-- The rows a transaction inserted. -/
def inserted (c : Commit ω) : Nat := view.rowCount c.after - view.rowCount c.before

/-- A transaction created the table. -/
def creates (c : Commit ω) : Bool := (view.schema c.before).isNone

end TableView

/-! ## the types in the mirror -/

theorem typeIn_cons (entry : Bytes × LogicalType) (types : NamedTypes) (name : Bytes) :
    typeIn (entry :: types) name =
      if ciEq entry.1 name then some entry.2 else typeIn types name := by
  rw [typeIn, List.find?_cons]
  cases ciEq entry.1 name <;> rfl

theorem typeIn_eq_none {types : NamedTypes} {name : Bytes} :
    typeIn types name = none ↔ ∀ entry ∈ types, ciEq entry.1 name = false := by
  rw [typeIn, Option.map_eq_none_iff, List.find?_eq_none]
  simp

theorem typeIn_congr {name name' : Bytes} (h : lower name = lower name') (types : NamedTypes) :
    typeIn types name = typeIn types name' := by
  simp only [typeIn, ciEq, h]

theorem typeIn_append_of_none {types : NamedTypes} {name : Bytes} (h : typeIn types name = none)
    (more : NamedTypes) : typeIn (types ++ more) name = typeIn more name := by
  rw [typeIn, Option.map_eq_none_iff] at h
  rw [typeIn, List.find?_append, h, Option.none_or]
  rfl

theorem typeIn_append_of_some {types : NamedTypes} {name : Bytes} {type : LogicalType}
    (h : typeIn types name = some type) (more : NamedTypes) :
    typeIn (types ++ more) name = some type := by
  obtain ⟨entry, hentry, htype⟩ := Option.map_eq_some_iff.mp h
  rw [typeIn, List.find?_append, hentry, Option.some_or, Option.map_some, htype]

/-- A name that is not there is appended. -/
theorem assignType_of_none {types : NamedTypes} {name : Bytes} (h : typeIn types name = none)
    (type : LogicalType) : assignType types (name, type) = types ++ [(name, type)] := by
  rw [assignType, if_neg]
  rw [List.any_eq_true]
  rintro ⟨entry, hentry, heq⟩
  rw [typeIn_eq_none.mp h entry hentry] at heq
  exact nomatch heq

/-- A name that is there has one entry, and it alone is assigned to. -/
theorem assignType_of_some {types : NamedTypes} (hdistinct : DistinctNames types) {name : Bytes}
    {old : LogicalType} (h : typeIn types name = some old) (type : LogicalType) :
    ∃ front entry back, types = front ++ (entry, old) :: back ∧ lower entry = lower name ∧
      assignType types (name, type) = front ++ (entry, type) :: back ∧
      (types.map fun e => if ciEq e.1 name then (e.1, type) else e) =
        front ++ (entry, type) :: back := by
  obtain ⟨⟨entry, found⟩, hfind, hfound⟩ := Option.map_eq_some_iff.mp h
  obtain rfl : found = old := hfound
  obtain ⟨hname, front, back, rfl, hfront⟩ := List.find?_eq_some_iff_append.mp hfind
  have hlower : lower entry = lower name := ciEq_iff.mp hname
  have hsame : ∀ l : NamedTypes, (∀ e ∈ l, ciEq e.1 name = false) →
      (l.map fun e => if ciEq e.1 name then (e.1, type) else e) = l := by
    intro l hl
    refine (List.map_congr_left fun e he => ?_).trans (List.map_id l)
    rw [hl e he]
    rfl
  have hback : ∀ e ∈ back, ciEq e.1 name = false := by
    intro e he
    rw [DistinctNames, List.map_append, List.nodup_append, List.map_cons, List.nodup_cons]
      at hdistinct
    refine Bool.eq_false_iff.mpr fun heq => hdistinct.2.1.1 ?_
    rw [hlower, ← ciEq_iff.mp heq]
    exact List.mem_map.mpr ⟨e, he, rfl⟩
  have hmap : ((front ++ (entry, found) :: back).map
      fun e => if ciEq e.1 name then (e.1, type) else e) = front ++ (entry, type) :: back := by
    rw [List.map_append, List.map_cons, hsame back hback,
      hsame front fun e he => by simpa using hfront e he, if_pos hname]
  refine ⟨front, entry, back, rfl, hlower, ?_, hmap⟩
  rw [assignType, if_pos, hmap]
  rw [List.any_eq_true]
  exact ⟨(entry, found), by simp, hname⟩

/-- Assigning the type a name has changes nothing. -/
theorem assignType_same {types : NamedTypes} (hdistinct : DistinctNames types) {name : Bytes}
    {type : LogicalType} (h : typeIn types name = some type) :
    assignType types (name, type) = types := by
  obtain ⟨front, entry, back, htypes, -, hassign, -⟩ := assignType_of_some hdistinct h type
  rw [hassign, htypes]

/-- What one assignment does, for a name that has been left as it was before. -/
structure Assigned (before types types' : NamedTypes) (name : Bytes) (type : LogicalType) :
    Prop where
  distinct : DistinctNames types'
  added : addedTo before types' =
    addedTo before types + if (typeIn before name).isNone then 1 else 0
  retyped : retypedIn before types' =
    retypedIn before types + if (typeIn before name).any (· ≠ type) then 1 else 0
  others : ∀ other, lower other ≠ lower name → typeIn types' other = typeIn types other

theorem assigned_assignType {before types : NamedTypes} (hdistinct : DistinctNames types)
    {name : Bytes} (hname : typeIn types name = typeIn before name) (type : LogicalType) :
    Assigned before types (assignType types (name, type)) name type := by
  cases h : typeIn types name with
  | none =>
      rw [assignType_of_none h]
      rw [h] at hname
      constructor
      · rw [DistinctNames, List.map_append, List.map_singleton, List.nodup_append]
        refine ⟨hdistinct, List.nodup_singleton _, fun a ha b hb => ?_⟩
        obtain ⟨entry, hentry, rfl⟩ := List.mem_map.mp ha
        rw [List.mem_singleton.mp hb]
        intro heq
        have hne := typeIn_eq_none.mp h entry hentry
        rw [ciEq_iff.mpr heq] at hne
        exact nomatch hne
      · simp [addedTo, List.countP_append, ← hname]
      · simp [retypedIn, List.countP_append, ← hname]
      · intro other hother
        cases ho : typeIn types other with
        | some t => exact typeIn_append_of_some ho _
        | none =>
            rw [typeIn_append_of_none ho, typeIn_eq_none]
            intro entry hentry
            rw [List.mem_singleton.mp hentry]
            exact Bool.eq_false_iff.mpr fun heq => hother (ciEq_iff.mp heq).symm
  | some old =>
      obtain ⟨front, entry, back, rfl, hlower, hassign, -⟩ := assignType_of_some hdistinct h type
      rw [hassign]
      rw [h] at hname
      have hentry : typeIn before entry = some old := (typeIn_congr hlower before).trans hname.symm
      constructor
      · simpa [DistinctNames] using hdistinct
      · simp [addedTo, List.countP_append, List.countP_cons, ← hname]
      · simp only [retypedIn, List.countP_append, List.countP_cons, hentry, ← hname,
          Option.any_some]
        simp
        omega
      · intro other hother
        have hne : ciEq entry other = false :=
          Bool.eq_false_iff.mpr fun heq => hother ((ciEq_iff.mp heq).symm.trans hlower)
        cases hfront : typeIn front other with
        | some t => rw [typeIn_append_of_some hfront, typeIn_append_of_some hfront]
        | none =>
            rw [typeIn_append_of_none hfront, typeIn_append_of_none hfront, typeIn_cons,
              typeIn_cons, hne]
            rfl

/-! ## the plan, column by column -/

section

variable (types : NamedTypes) (allowJsonWidening : Bool)

/-- The type the table has for a column after the batch. -/
def finalType (column : RawColumn) : LogicalType :=
  match typeIn types column.name with
  | none => column.type
  | some existing =>
      let targetType := joinColumnTypes existing column.type
      if (isRawJSONType targetType && !isRawJSONType existing) && !allowJsonWidening then existing
      else targetType

/-- The statement a column needs, if any. -/
def columnStatements (column : RawColumn) : List FallbackStatement :=
  match typeIn types column.name with
  | none => [.addColumn column.name column.type]
  | some existing =>
      let targetType := joinColumnTypes existing column.type
      if finalType types allowJsonWidening column = existing then []
      else [.alterType column.name targetType (isRawJSONType targetType && !isRawJSONType existing)]

/-- One turn of the column loop. -/
theorem fallbackColumn_eq (plan : FallbackPlan) (column : RawColumn) :
    fallbackColumn types allowJsonWidening plan column =
      { plan with
        statements := plan.statements ++ columnStatements types allowJsonWidening column
        finalTypes := plan.finalTypes ++ [finalType types allowJsonWidening column]
        added := plan.added + if (typeIn types column.name).isNone then 1 else 0
        widened := plan.widened + if (typeIn types column.name).any
          (· ≠ finalType types allowJsonWidening column) then 1 else 0 } := by
  unfold fallbackColumn columnStatements finalType
  cases typeIn types column.name with
  | none => simp
  | some existing =>
      simp only
      by_cases hsame : joinColumnTypes existing column.type = existing
      · simp [hsame]
      · by_cases hdegraded :
          ((isRawJSONType (joinColumnTypes existing column.type) && !isRawJSONType existing) &&
            !allowJsonWidening) = true
        · simp only [hsame, hdegraded, if_true, if_false]
          simp
        · simp only [hsame, hdegraded, Bool.false_eq_true, if_false]
          simp [Ne.symm hsame]

/-- The plan for a table that exists. -/
theorem fallbackPlan_exists (columns : List RawColumn) :
    fallbackPlan true types allowJsonWidening columns =
      { statements := columns.flatMap (columnStatements types allowJsonWidening)
        finalTypes := columns.map (finalType types allowJsonWidening)
        creates := false
        added := columns.countP fun c => (typeIn types c.name).isNone
        widened := columns.countP fun c =>
          (typeIn types c.name).any (· ≠ finalType types allowJsonWidening c) } := by
  have hfold : ∀ (columns : List RawColumn) (plan : FallbackPlan),
      columns.foldl (fallbackColumn types allowJsonWidening) plan =
        { plan with
          statements :=
            plan.statements ++ columns.flatMap (columnStatements types allowJsonWidening)
          finalTypes := plan.finalTypes ++ columns.map (finalType types allowJsonWidening)
          added := plan.added + columns.countP fun c => (typeIn types c.name).isNone
          widened := plan.widened + columns.countP fun c =>
            (typeIn types c.name).any (· ≠ finalType types allowJsonWidening c) } := by
    intro columns
    induction columns with
    | nil => intro plan; simp
    | cons column rest ih =>
        intro plan
        rw [List.foldl_cons, ih, fallbackColumn_eq]
        simp only [List.flatMap_cons, List.map_cons, List.countP_cons, List.append_assoc,
          List.singleton_append, Nat.add_assoc, Nat.add_comm]
  rw [fallbackPlan, hfold]
  simp

end

/-! ## the statements of a plan -/

section

variable {ω : Type} {view : TableView ω} {cat : FallbackCatalog ω}

/-- One statement of a transaction, without its row count. -/
def runStatement (cat : FallbackCatalog ω) (world : ω) (statement : FallbackStatement) :
    Except RawError ω := do
  let (world, _) ← cat.run world statement
  return world

/-- Where the table stands within a transaction: its columns, their distance from
those before the transaction, and its rows. -/
structure Stands (view : TableView ω) (before : NamedTypes) (w : ω) (types : NamedTypes)
    (added retyped rows : Nat) : Prop where
  schema_eq : view.schema w = some types
  distinct : DistinctNames types
  added_eq : addedTo before types = added
  retyped_eq : retypedIn before types = retyped
  rows_eq : view.rowCount w = rows

theorem run_of_singleton {statement : FallbackStatement} {w w' : ω}
    (h : [statement].foldlM (runStatement cat) w = .ok w') :
    ∃ n, cat.run w statement = .ok (w', n) := by
  rw [List.foldlM_cons] at h
  obtain ⟨w₁, hstatement, hend⟩ := bind_eq_ok.mp h
  obtain rfl := pure_eq_ok.mp hend
  obtain ⟨⟨w₂, n⟩, hrun, hworld⟩ := bind_eq_ok.mp hstatement
  obtain rfl := pure_eq_ok.mp hworld
  exact ⟨n, hrun⟩

/-- The statement of a column assigns its final type. -/
theorem schema_columnStatements (hcat : Sql view cat) {before types : NamedTypes}
    {allowJsonWidening : Bool} {w w' : ω} (hschema : view.schema w = some types)
    (hdistinct : DistinctNames types) {column : RawColumn}
    (hcolumn : typeIn types column.name = typeIn before column.name)
    (hrun : (columnStatements before allowJsonWidening column).foldlM (runStatement cat) w =
      .ok w') :
    view.schema w' =
      some (assignType types (column.name, finalType before allowJsonWidening column)) ∧
      view.rowCount w' = view.rowCount w := by
  unfold columnStatements at hrun
  cases hold : typeIn before column.name with
  | none =>
      rw [hold] at hcolumn
      simp only [hold] at hrun
      obtain ⟨n, hrun⟩ := run_of_singleton hrun
      have hfinal : finalType before allowJsonWidening column = column.type := by
        rw [finalType, hold]
      rw [hfinal, assignType_of_none hcolumn]
      exact hcat.addColumn _ _ _ _ _ _ hrun hschema hcolumn
  | some existing =>
      rw [hold] at hcolumn
      simp only [hold] at hrun
      split at hrun
      · next hsame =>
        rw [List.foldlM_nil] at hrun
        obtain rfl := pure_eq_ok.mp hrun
        rw [hsame, assignType_same hdistinct hcolumn]
        exact ⟨hschema, rfl⟩
      · next hne =>
        obtain ⟨n, hrun⟩ := run_of_singleton hrun
        have hfinal : finalType before allowJsonWidening column =
            joinColumnTypes existing column.type := by
          unfold finalType at hne ⊢
          simp only [hold] at hne ⊢
          split at hne
          · exact absurd rfl hne
          · next hkept => rw [if_neg hkept]
        obtain ⟨front, entry, back, -, -, hassign, hmap⟩ :=
          assignType_of_some hdistinct hcolumn (joinColumnTypes existing column.type)
        have halter := hcat.alterType _ _ _ _ _ _ _ hrun hschema (by rw [hcolumn]; rfl)
        rw [hmap] at halter
        rw [hfinal, hassign]
        exact halter

/-- The statements of the columns bring the table where the mirror goes. -/
theorem run_columnStatements (hcat : Sql view cat) {before : NamedTypes}
    {allowJsonWidening : Bool} {columns : List RawColumn} (hnames : CiDistinct columns)
    {types : NamedTypes} {w w' : ω} {added retyped rows : Nat}
    (h : Stands view before w types added retyped rows)
    (hcolumns : ∀ c ∈ columns, typeIn types c.name = typeIn before c.name)
    (hrun : (columns.flatMap (columnStatements before allowJsonWidening)).foldlM
      (runStatement cat) w = .ok w') :
    Stands view before w'
      ((columns.map fun c => (c.name, finalType before allowJsonWidening c)).foldl assignType types)
      (added + columns.countP fun c => (typeIn before c.name).isNone)
      (retyped + columns.countP fun c => (typeIn before c.name).any
        (· ≠ finalType before allowJsonWidening c)) rows := by
  induction columns generalizing types w added retyped with
  | nil =>
      rw [List.flatMap_nil, List.foldlM_nil] at hrun
      obtain rfl := pure_eq_ok.mp hrun
      exact h
  | cons column rest ih =>
      rw [List.flatMap_cons, List.foldlM_append] at hrun
      obtain ⟨w₁, hfirst, hrest⟩ := bind_eq_ok.mp hrun
      obtain ⟨hcolumn, hnames⟩ := List.nodup_cons.mp hnames
      have hsame := hcolumns column List.mem_cons_self
      obtain ⟨hschema, hrows⟩ := schema_columnStatements hcat h.schema_eq h.distinct hsame hfirst
      have hassigned := assigned_assignType h.distinct hsame
        (finalType before allowJsonWidening column)
      have hstands : Stands view before w₁
          (assignType types (column.name, finalType before allowJsonWidening column))
          (added + if (typeIn before column.name).isNone then 1 else 0)
          (retyped + if (typeIn before column.name).any
            (· ≠ finalType before allowJsonWidening column) then 1 else 0) rows := by
        refine ⟨hschema, hassigned.distinct, ?_, ?_, hrows.trans h.rows_eq⟩
        · rw [hassigned.added, h.added_eq]
        · rw [hassigned.retyped, h.retyped_eq]
      have hothers : ∀ c ∈ rest, typeIn (assignType types
          (column.name, finalType before allowJsonWidening column)) c.name =
          typeIn before c.name := by
        intro c hc
        rw [hassigned.others c.name, hcolumns c (List.mem_cons_of_mem _ hc)]
        exact fun heq => hcolumn (List.mem_map.mpr ⟨c, hc, heq⟩)
      have hend := ih hnames hstands hothers hrest
      have hadd : ∀ a b c : Nat, a + b + c = a + (c + b) := fun a b c => by omega
      rw [hadd, hadd] at hend
      rw [List.countP_cons, List.countP_cons]
      exact hend

/-- Columns assigned to an empty mirror are the mirror. -/
theorem foldl_assignType_nil {columns : NamedTypes} (h : DistinctNames columns) :
    columns.foldl assignType [] = columns := by
  have hfold : ∀ (rest done : NamedTypes), DistinctNames (done ++ rest) →
      rest.foldl assignType done = done ++ rest := by
    intro rest
    induction rest with
    | nil => intro done _; rw [List.append_nil]; rfl
    | cons entry rest ih =>
        intro done hdone
        have hnone : typeIn done entry.1 = none := by
          rw [typeIn_eq_none]
          intro e he
          rw [DistinctNames, List.map_append, List.nodup_append] at hdone
          refine Bool.eq_false_iff.mpr fun heq => ?_
          exact hdone.2.2 _ (List.mem_map_of_mem he) _ (List.mem_map_of_mem List.mem_cons_self)
            (ciEq_iff.mp heq)
        rw [List.foldl_cons, assignType_of_none hnone, ih _ (by simpa using hdone),
          List.append_assoc]
        rfl
  exact hfold columns [] h

/-- What a committed transaction did is what its plan says. -/
structure Carried (view : TableView ω) (plan : FallbackPlan) (c : Commit ω) (types : NamedTypes)
    (rows : Nat) : Prop where
  schema_eq : view.schema c.after = some types
  distinct : DistinctNames types
  creates_eq : view.creates c = plan.creates
  added_eq : view.added c = plan.added
  retyped_eq : view.retyped c = plan.widened
  rows_eq : view.inserted c = rows

/-- The three parts of a transaction that commits. -/
theorem parts_of_fallbackTransaction (hcat : Sql view cat) {w w' : ω} {plan : FallbackPlan}
    {insert : Option FallbackStatement}
    (hinsert : ∀ statement, insert = some statement →
      ∃ exprs text, statement = .insertSelect exprs text) {rows : Nat}
    (h : fallbackTransaction cat w plan insert = .ok (w', rows)) :
    ∃ evolved, plan.statements.foldlM (runStatement cat) w = .ok evolved ∧
      view.schema w' = view.schema evolved ∧
      view.rowCount w' = view.rowCount evolved + rows := by
  obtain ⟨evolved, hevolved, h⟩ := bind_eq_ok.mp h
  refine ⟨evolved, hevolved, ?_⟩
  cases insert with
  | none =>
      obtain ⟨⟨filled, count⟩, hfilled, h⟩ := bind_eq_ok.mp h
      obtain ⟨rfl, rfl⟩ := Prod.mk.inj (Except.ok.inj hfilled)
      obtain ⟨committed, hcommit, h⟩ := bind_eq_ok.mp h
      obtain ⟨rfl, rfl⟩ := Prod.mk.inj (pure_eq_ok.mp h)
      exact hcat.commit _ _ hcommit
  | some statement =>
      obtain ⟨exprs, text, rfl⟩ := hinsert statement rfl
      obtain ⟨⟨filled, count⟩, hfilled, h⟩ := bind_eq_ok.mp h
      obtain ⟨committed, hcommit, h⟩ := bind_eq_ok.mp h
      obtain ⟨rfl, rfl⟩ := Prod.mk.inj (pure_eq_ok.mp h)
      obtain ⟨hschema, hrows⟩ := hcat.insertSelect _ _ _ _ _ hfilled
      obtain ⟨hschema', hrows'⟩ := hcat.commit _ _ hcommit
      exact ⟨hschema'.trans hschema, hrows'.trans hrows⟩

/-- Columns are not new to their own table, nor retyped. -/
theorem addedTo_self (types : NamedTypes) : addedTo types types = 0 := by
  rw [addedTo, List.countP_eq_zero]
  intro entry hentry hnone
  have hname := typeIn_eq_none.mp (Option.isNone_iff_eq_none.mp hnone) entry hentry
  rw [ciEq_iff.mpr rfl] at hname
  exact nomatch hname

theorem typeIn_of_mem {types : NamedTypes} (hdistinct : DistinctNames types)
    {entry : Bytes × LogicalType} (h : entry ∈ types) : typeIn types entry.1 = some entry.2 := by
  obtain ⟨front, back, rfl⟩ := List.append_of_mem h
  have hfront : typeIn front entry.1 = none := by
    rw [typeIn_eq_none]
    intro e he
    rw [DistinctNames, List.map_append, List.nodup_append] at hdistinct
    refine Bool.eq_false_iff.mpr fun heq => ?_
    exact hdistinct.2.2 _ (List.mem_map_of_mem he) _ (List.mem_map_of_mem List.mem_cons_self)
      (ciEq_iff.mp heq)
  rw [typeIn_append_of_none hfront, typeIn_cons, if_pos (ciEq_iff.mpr rfl)]

theorem retypedIn_self {types : NamedTypes} (hdistinct : DistinctNames types) :
    retypedIn types types = 0 := by
  rw [retypedIn, List.countP_eq_zero]
  intro entry hentry hany
  rw [typeIn_of_mem hdistinct hentry] at hany
  simp at hany

/-- **A transaction that commits carries out its plan**: the table has gone where
the mirror goes, and the counters of the plan are what was done to it. -/
theorem carried_fallbackTransaction (hcat : Sql view cat) {w w' : ω} {tableExists : Bool}
    {types : NamedTypes} (hschema : view.schema w = if tableExists then some types else none)
    (hmissing : tableExists = false → types = []) (hdistinct : DistinctNames types)
    {columns : List RawColumn} (hnames : CiDistinct columns) {allowJsonWidening : Bool}
    {insert : Option FallbackStatement}
    (hinsert : ∀ statement, insert = some statement →
      ∃ exprs text, statement = .insertSelect exprs text) {rows : Nat}
    (h : fallbackTransaction cat w (fallbackPlan tableExists types allowJsonWidening columns)
      insert = .ok (w', rows)) :
    Carried view (fallbackPlan tableExists types allowJsonWidening columns) ⟨w, w'⟩
      ((columns.zipWith (fun (c : RawColumn) type => (c.name, type))
        (fallbackPlan tableExists types allowJsonWidening columns).finalTypes).foldl
        assignType types) rows := by
  obtain ⟨evolved, hevolved, hcommitted, hcount⟩ := parts_of_fallbackTransaction hcat hinsert h
  have hinsertedRows : view.rowCount evolved = view.rowCount w →
      view.inserted ⟨w, w'⟩ = rows := by
    intro hkept
    simp only [TableView.inserted, hcount, hkept]
    omega
  cases tableExists with
  | false =>
      obtain rfl := hmissing rfl
      obtain ⟨n, hcreate⟩ := run_of_singleton hevolved
      obtain ⟨hnone, hsome, hrows⟩ := hcat.createTable _ _ _ _ hcreate
      have hnames' : DistinctNames (columns.map fun c => (c.name, c.type)) := by
        rw [DistinctNames, List.map_map]
        exact hnames
      have htypes : (columns.zipWith (fun (c : RawColumn) type => (c.name, type))
          (fallbackPlan false [] allowJsonWidening columns).finalTypes).foldl assignType [] =
          columns.map fun c => (c.name, c.type) := by
        have hzip : columns.zipWith (fun (c : RawColumn) type => (c.name, type))
            (columns.map RawColumn.type) = columns.map fun c => (c.name, c.type) := by
          rw [List.zipWith_map_right, List.zipWith_self]
        rw [← foldl_assignType_nil hnames', ← hzip]
        rfl
      have hafter : view.schema w' = some (columns.map fun c => (c.name, c.type)) := by
        rw [hcommitted, hsome]
      rw [htypes]
      refine ⟨hafter, hnames', ?_, ?_, ?_, hinsertedRows hrows⟩
      · simp only [TableView.creates, hnone]
        rfl
      · simp only [TableView.added, TableView.columns, hnone, hafter]
        simp [addedTo, typeIn, fallbackPlan]
      · simp only [TableView.retyped, TableView.columns, hnone, hafter]
        simp [retypedIn, typeIn, fallbackPlan]
  | true =>
      rw [fallbackPlan_exists] at hevolved ⊢
      have hstart : Stands view types w types (addedTo types types) (retypedIn types types)
          (view.rowCount w) := ⟨hschema, hdistinct, rfl, rfl, rfl⟩
      obtain ⟨hsome, hdistinct', hadded, hretyped, hrows⟩ :=
        run_columnStatements hcat hnames hstart (fun _ _ => rfl) hevolved
      have hzip : columns.zipWith (fun (c : RawColumn) type => (c.name, type))
          (columns.map (finalType types allowJsonWidening)) =
          columns.map fun c => (c.name, finalType types allowJsonWidening c) := by
        rw [List.zipWith_map_right, List.zipWith_self]
      have hbefore : view.columns w = types := by rw [TableView.columns, hschema]; rfl
      dsimp only
      rw [hzip]
      have hafter := hcommitted.trans hsome
      refine ⟨hafter, hdistinct', ?_, ?_, ?_, hinsertedRows hrows⟩
      · simp only [TableView.creates, hschema]
        rfl
      · rw [TableView.added, hbefore, TableView.columns, hafter, Option.getD_some, hadded,
          addedTo_self, Nat.zero_add]
      · rw [TableView.retyped, hbefore, TableView.columns, hafter, Option.getD_some, hretyped,
          retypedIn_self hdistinct, Nat.zero_add]

end

/-! ## calls -/

variable {ω : Type}

/-- A call of `IngestFallback`, of columns as `FlattenSchema` names them
(`flattenSchema_names`).  Its two attempts meet catalogs of their own, so a
statement may fail in either. -/
structure FallbackCall (ω : Type) where
  first : FallbackCatalog ω
  second : FallbackCatalog ω
  parsed : RawParsedPayload
  text : Bytes
  distinct : CiDistinct parsed.columns

/-- `IngestFallback`, with the catalog that the retry meets. -/
def ingestFallbackWith (first second : FallbackCatalog ω) (parsed : RawParsedPayload)
    (text : Bytes) : FallbackIngest ω Unit := do
  ensureFallbackConnection first
  let s ← get
  if !s.tableExists && parsed.columns.isEmpty then throw (emptyFallbackError first)
  else if parsed.columns.isEmpty then return
  else
    tryCatch (fallbackBatch first parsed text true) fun error =>
      if contains error.message (bytes "cannot be modified using an expression") then
        fallbackBatch second parsed text false
      else throw error

/-- A catalog that stays the same is that of `ingestFallback`. -/
theorem ingestFallbackWith_self (cat : FallbackCatalog ω) (parsed : RawParsedPayload)
    (text : Bytes) : ingestFallbackWith cat cat parsed text = ingestFallback cat parsed text := rfl

/-- The ingestor after a call, whether it returns or raises. -/
def FallbackCall.after (call : FallbackCall ω) (s : FallbackRun ω) : FallbackRun ω :=
  match ingestFallbackWith call.first call.second call.parsed call.text s with
  | .ok _ t => t
  | .error _ t => t

/-- One call, of an ingestor and the transactions committed before it. -/
def ingestCall (state : FallbackRun ω × List (Commit ω)) (call : FallbackCall ω) :
    FallbackRun ω × List (Commit ω) :=
  let t := call.after state.1
  (t, if t.commits = state.1.commits then state.2 else state.2 ++ [⟨state.1.world, t.world⟩])

/-- The calls of a new ingestor, with the transactions they committed. -/
def ingestCalls (start : ω) (calls : List (FallbackCall ω)) : FallbackRun ω × List (Commit ω) :=
  calls.foldl ingestCall (.start start, [])

/-! ## the mirror and the counters -/

/-- The transactions lead from one state of the catalog to another. -/
def Leads : ω → List (Commit ω) → ω → Prop
  | w, [], w' => w' = w
  | w, c :: rest, w' => c.before = w ∧ Leads c.after rest w'

theorem Leads.append {w w' : ω} {log : List (Commit ω)} (h : Leads w log w') (w'' : ω) :
    Leads w (log ++ [⟨w', w''⟩]) w'' := by
  induction log generalizing w with
  | nil =>
      obtain rfl : w' = w := h
      exact ⟨rfl, rfl⟩
  | cons c rest ih => exact ⟨h.1, ih h.2⟩

/-- `fallback_exists` and `fallback_types` are the table of the catalog. -/
structure Mirrors (view : TableView ω) (s : FallbackRun ω) : Prop where
  connected : s.connected = true
  schema_eq : view.schema s.world = if s.tableExists then some s.types else none
  types_eq : s.tableExists = false → s.types = []
  distinct : DistinctNames s.types

/-- The counters are what the transactions did, which lead to the catalog's state. -/
structure Describes (view : TableView ω) (start : ω) (log : List (Commit ω))
    (s : FallbackRun ω) : Prop where
  leads : Leads start log s.world
  created_eq : s.created = log.any view.creates
  columnsAdded_eq : s.columnsAdded = (log.map view.added).sum
  columnsWidened_eq : s.columnsWidened = (log.map view.retyped).sum
  rows_eq : s.rows = (log.map view.inserted).sum

/-- What an ingestor knows before a call: the table, once it has connected. -/
structure Knows (view : TableView ω) (s : FallbackRun ω) : Prop where
  mirrors : s.connected = true → Mirrors view s
  types_eq : s.connected = false → s.types = []
  distinct : ∀ columns, view.schema s.world = some columns → DistinctNames columns

theorem Mirrors.knows {view : TableView ω} {s : FallbackRun ω} (h : Mirrors view s) :
    Knows view s := by
  refine ⟨fun _ => h, fun hconnected => ?_, fun columns hcolumns => ?_⟩
  · rw [h.connected] at hconnected
    exact nomatch hconnected
  · rw [h.schema_eq] at hcolumns
    cases hexists : s.tableExists with
    | false =>
        rw [hexists] at hcolumns
        exact nomatch hcolumns
    | true =>
        rw [hexists] at hcolumns
        obtain rfl := Option.some.inj hcolumns
        exact h.distinct

/-- What a call leaves: a mirror, and counters of one transaction more if there
was one. -/
structure Left (view : TableView ω) (start : ω) (log : List (Commit ω)) (s t : FallbackRun ω) :
    Prop where
  mirrors : Mirrors view t
  describes : t.commits = s.commits ∧ Describes view start log t ∨
    t.commits = s.commits + 1 ∧ Describes view start (log ++ [⟨s.world, t.world⟩]) t

section

variable {view : TableView ω} {start : ω} {log : List (Commit ω)} {s : FallbackRun ω}

/-- Connecting fills the mirror. -/
theorem ensureFallbackConnection_mirrors {cat : FallbackCatalog ω} (hcat : Sql view cat)
    (hknows : Knows view s) (hlog : Describes view start log s) :
    Leaves (ensureFallbackConnection cat) s
      (fun _ t => s.Same t ∧ Mirrors view t ∧ Describes view start log t)
      fun t => s.Same t ∧ Mirrors view t ∧ Describes view start log t := by
  apply Leaves.get_bind
  split
  · next hconnected => exact .pure ⟨.refl s, hknows.mirrors hconnected, hlog⟩
  · next hconnected =>
    have htypes := hknows.types_eq (Bool.eq_false_iff.mpr hconnected)
    have hlog' : ∀ tableExists types,
        Describes view start log { s with connected := true, tableExists, types } :=
      fun _ _ => ⟨hlog.leads, hlog.created_eq, hlog.columnsAdded_eq, hlog.columnsWidened_eq,
        hlog.rows_eq⟩
    cases hschema : view.schema s.world with
    | none =>
        obtain ⟨error, herror⟩ := hcat.probe_missing _ hschema
        have hmissing : Mirrors view { s with connected := true, tableExists := false } :=
          ⟨rfl, hschema, fun _ => htypes, by rw [htypes]; exact List.nodup_nil⟩
        rw [herror]
        refine .bind (fun _ t => t = { s with connected := true, tableExists := false })
          (.set rfl) ?_
        rintro _ t rfl
        split
        · exact .pure ⟨⟨rfl, rfl⟩, hmissing, hlog' _ _⟩
        · exact .throw ⟨⟨rfl, rfl⟩, hmissing, hlog' _ _⟩
    | some columns =>
        have hdistinct := hknows.distinct _ hschema
        rw [hcat.probe_table _ _ hschema]
        dsimp only
        rw [htypes, foldl_assignType_nil hdistinct]
        exact .set ⟨⟨rfl, rfl⟩, ⟨rfl, hschema, (fun h => nomatch h), hdistinct⟩, hlog' _ _⟩

/-- A batch that commits is one transaction more; one that raises leaves the
ingestor as it was. -/
theorem fallbackBatch_mirrors {cat : FallbackCatalog ω} (hcat : Sql view cat)
    (hmirrors : Mirrors view s) (hlog : Describes view start log s) {parsed : RawParsedPayload}
    (hnames : CiDistinct parsed.columns) (text : Bytes) (allowJsonWidening : Bool) :
    Leaves (fallbackBatch cat parsed text allowJsonWidening) s
      (fun _ t => Left view start log s t) (· = s) := by
  apply Leaves.get_bind
  refine .bind (fun out t => t = s ∧ Carried view
    (fallbackPlan s.tableExists s.types allowJsonWidening parsed.columns) ⟨s.world, out.1⟩
    ((parsed.columns.zipWith (fun (c : RawColumn) type => (c.name, type))
      (fallbackPlan s.tableExists s.types allowJsonWidening parsed.columns).finalTypes).foldl
      assignType s.types) out.2) ?_ ?_
  · refine .fromExcept (fun out hout => ⟨rfl, ?_⟩) rfl
    refine carried_fallbackTransaction hcat hmirrors.schema_eq hmirrors.types_eq
      hmirrors.distinct hnames ?_ hout
    intro statement hstatement
    split at hstatement
    · exact nomatch hstatement
    · exact ⟨_, _, (Option.some.inj hstatement).symm⟩
  · rintro ⟨world, rows⟩ t ⟨rfl, hcarried⟩
    refine .set ⟨⟨hmirrors.connected, hcarried.schema_eq, (fun h => nomatch h),
      hcarried.distinct⟩, .inr ⟨rfl, ?_⟩⟩
    constructor
    · exact hlog.leads.append world
    · simp [hlog.created_eq, hcarried.creates_eq]
    · simp [hlog.columnsAdded_eq, hcarried.added_eq]
    · simp [hlog.columnsWidened_eq, hcarried.retyped_eq]
    · simp [hlog.rows_eq, hcarried.rows_eq]

/-- What is described stays so while nothing is committed. -/
theorem Left.of_same {t u : FallbackRun ω} (hsame : s.Same t) (h : Left view start log t u) :
    Left view start log s u := by
  refine ⟨h.mirrors, ?_⟩
  rw [← hsame.1, ← hsame.2]
  exact h.describes

/-- A call leaves a mirror and counters, whether it returns or raises. -/
theorem ingestFallbackWith_left {first second : FallbackCatalog ω} (hfirst : Sql view first)
    (hsecond : Sql view second) (hknows : Knows view s) (hlog : Describes view start log s)
    {parsed : RawParsedPayload} (hnames : CiDistinct parsed.columns) (text : Bytes) :
    Leaves (ingestFallbackWith first second parsed text) s
      (fun _ t => Left view start log s t) (Left view start log s) := by
  refine .bind (fun _ t => s.Same t ∧ Mirrors view t ∧ Describes view start log t) ?_ ?_
  · refine (ensureFallbackConnection_mirrors hfirst hknows hlog).mono (fun _ _ h => h) ?_
    exact fun t ⟨hsame, hmirrors, hlog'⟩ => ⟨hmirrors, .inl ⟨hsame.1, hlog'⟩⟩
  · intro _ t ⟨hsame, hmirrors, hlog'⟩
    have hkept : Left view start log s t := ⟨hmirrors, .inl ⟨hsame.1, hlog'⟩⟩
    apply Leaves.get_bind
    split
    · exact .throw hkept
    · split
      · exact .pure hkept
      · have hbatch := fun {cat : FallbackCatalog ω} (hcat : Sql view cat) allowJsonWidening =>
          (fallbackBatch_mirrors hcat hmirrors hlog' hnames text allowJsonWidening).mono
            (fun _ _ h => Left.of_same hsame h) fun _ h => h
        refine Leaves.tryCatch (· = t) (hbatch hfirst true) ?_
        rintro error u rfl
        split
        · exact (hbatch hsecond false).mono (fun _ _ h => h) fun v hv => hv ▸ hkept
        · exact .throw hkept

theorem left_after {call : FallbackCall ω} (hfirst : Sql view call.first)
    (hsecond : Sql view call.second) (hknows : Knows view s) (hlog : Describes view start log s) :
    Left view start log s (call.after s) := by
  have hleft := ingestFallbackWith_left hfirst hsecond hknows hlog call.distinct call.text
  unfold FallbackCall.after
  split
  · next h => exact hleft.1 _ _ h
  · next h => exact hleft.2 _ _ h

/-- One call keeps the mirror and the counters. -/
theorem mirrors_ingestCall {call : FallbackCall ω} (hfirst : Sql view call.first)
    (hsecond : Sql view call.second) (hknows : Knows view s) (hlog : Describes view start log s) :
    Mirrors view (ingestCall (s, log) call).1 ∧
      Describes view start (ingestCall (s, log) call).2 (ingestCall (s, log) call).1 := by
  have hleft := left_after hfirst hsecond hknows hlog
  refine ⟨hleft.mirrors, ?_⟩
  simp only [ingestCall]
  obtain ⟨hcommits, hdescribes⟩ | ⟨hcommits, hdescribes⟩ := hleft.describes
  · rw [if_pos hcommits]
    exact hdescribes
  · rw [if_neg (by omega)]
    exact hdescribes

end

/-- **The mirror is exact**: after every call, whether it returned or raised,
`fallback_exists` and `fallback_types` are the table of the catalog, which the
committed transactions have led to, and the counters are what these did. -/
theorem mirrors_ingestCalls (view : TableView ω) (start : ω)
    (hstart : ∀ columns, view.schema start = some columns → DistinctNames columns)
    (calls : List (FallbackCall ω))
    (hcalls : ∀ call ∈ calls, Sql view call.first ∧ Sql view call.second) (hne : calls ≠ []) :
    Mirrors view (ingestCalls start calls).1 ∧
      Describes view start (ingestCalls start calls).2 (ingestCalls start calls).1 := by
  have hrun : ∀ (calls : List (FallbackCall ω)) (s : FallbackRun ω) (log : List (Commit ω)),
      (∀ call ∈ calls, Sql view call.first ∧ Sql view call.second) → Knows view s →
      Describes view start log s → (calls = [] → Mirrors view s) →
      Mirrors view (calls.foldl ingestCall (s, log)).1 ∧
        Describes view start (calls.foldl ingestCall (s, log)).2
          (calls.foldl ingestCall (s, log)).1 := by
    intro calls
    induction calls with
    | nil => exact fun s log _ _ hlog hmirrors => ⟨hmirrors rfl, hlog⟩
    | cons call rest ih =>
        intro s log hcalls hknows hlog _
        obtain ⟨hfirst, hsecond⟩ := hcalls call List.mem_cons_self
        obtain ⟨hmirrors, hlog'⟩ := mirrors_ingestCall hfirst hsecond hknows hlog
        rw [List.foldl_cons]
        exact ih _ _ (fun c hc => hcalls c (List.mem_cons_of_mem _ hc)) hmirrors.knows hlog'
          fun _ => hmirrors
  refine hrun calls (.start start) [] hcalls ?_ ⟨rfl, rfl, rfl, rfl, rfl⟩ fun h => absurd h hne
  exact ⟨(fun h => nomatch h), fun _ => rfl, hstart⟩

/-! ## a catalog that cannot rewrite columns -/

/-- The table of the small catalog. -/
def lakeView : TableView (Option LakeTable) where
  schema world := world.map LakeTable.columns
  rowCount world := (world.map fun table => table.inserted.length).getD 0

/-- The small catalog, which refuses some statements. -/
def refusingLake (refusal : FallbackStatement → Option RawError) :
    FallbackCatalog (Option LakeTable) :=
  { smallLake with
    run := fun world statement =>
      match refusal statement with
      | some error => .error error
      | none => smallLake.run world statement }

theorem sql_refusingLake (refusal : FallbackStatement → Option RawError) :
    Sql lakeView (refusingLake refusal) := by
  have hrun : ∀ {w w' : Option LakeTable} {n : Nat} {statement : FallbackStatement},
      (refusingLake refusal).run w statement = .ok (w', n) →
      smallLake.run w statement = .ok (w', n) := by
    intro w w' n statement h
    simp only [refusingLake] at h
    split at h
    · exact nomatch h
    · exact h
  constructor
  · rintro (_ | table) columns hschema
    · exact nomatch hschema
    · exact congrArg Except.ok (Option.some.inj hschema)
  · rintro (_ | table) hschema
    · exact ⟨_, rfl⟩
    · exact nomatch hschema
  · rintro (_ | table) w' n columns h
    · obtain ⟨rfl, -⟩ := Prod.mk.inj (Except.ok.inj (hrun h))
      exact ⟨rfl, rfl, rfl⟩
    · exact nomatch hrun h
  · rintro (_ | table) w' n columns name type h hschema -
    · exact nomatch hschema
    · obtain ⟨rfl, -⟩ := Prod.mk.inj (Except.ok.inj (hrun h))
      obtain rfl := Option.some.inj hschema
      exact ⟨rfl, rfl⟩
  · rintro (_ | table) w' n columns name type usingToJson h hschema hname
    · exact nomatch hschema
    · obtain ⟨rfl, -⟩ := Prod.mk.inj (Except.ok.inj (hrun h))
      obtain rfl := Option.some.inj hschema
      obtain ⟨type', htype'⟩ := Option.isSome_iff_exists.mp hname
      obtain ⟨entry, hentry, -⟩ := Option.map_eq_some_iff.mp htype'
      have hany : (table.columns.any fun entry => ciEq entry.1 name) = true :=
        List.any_eq_true.mpr ⟨entry, List.mem_of_find?_eq_some hentry, by
          simpa using List.find?_some hentry⟩
      refine ⟨congrArg some ?_, rfl⟩
      exact if_pos hany
  · rintro (_ | table) w' n exprs text h
    · exact nomatch hrun h
    · obtain ⟨rfl, rfl⟩ := Prod.mk.inj (Except.ok.inj (hrun h))
      refine ⟨rfl, ?_⟩
      simp [lakeView]
  · intro w w' h
    obtain rfl := Except.ok.inj h
    exact ⟨rfl, rfl⟩

/-- It cannot rewrite a column with an expression. -/
def rigidLake : FallbackCatalog (Option LakeTable) :=
  refusingLake fun
    | .alterType _ _ true => some
        { kind := .notImplemented
          message := bytes "The column cannot be modified using an expression" }
    | _ => none

/-- It inserts nothing. -/
def fullLake : FallbackCatalog (Option LakeTable) :=
  refusingLake fun
    | .insertSelect _ _ => some { kind := .invalidInput, message := bytes "No space left" }
    | _ => none

/-- A row with these columns, into a catalog. -/
def lakeCall (cat : FallbackCatalog (Option LakeTable)) (names : NamedTypes)
    (distinct : DistinctNames names) : FallbackCall (Option LakeTable) where
  first := cat
  second := cat
  parsed :=
    { payload := { rows := [.obj []], scalarRows := false, parseErrors := 0 }
      root := .unset
      columns := names.map fun c => { name := c.1, path := [c.1], type := c.2, node := [] } }
  text := []
  distinct := by
    rw [CiDistinct, List.map_map]
    exact distinct

/-- A table is made, a widening refused and degraded, and a batch that adds a
column fails when it inserts. -/
def lakeCalls : List (FallbackCall (Option LakeTable)) :=
  [lakeCall rigidLake [(bytes "a", BIGINT)] (List.nodup_singleton _),
    lakeCall rigidLake [(bytes "A", JSON)] (List.nodup_singleton _),
    lakeCall fullLake [(bytes "b", VARCHAR)] (List.nodup_singleton _)]

/-- After the failed batch the mirror has the column of the first one. -/
theorem mirrors_ingestCalls_degraded :
    ((ingestCalls none lakeCalls).1.types = [(bytes "a", BIGINT)] ∧
      (ingestCalls none lakeCalls).2.length = 2) ∧
    Mirrors lakeView (ingestCalls none lakeCalls).1 ∧
      Describes lakeView none (ingestCalls none lakeCalls).2 (ingestCalls none lakeCalls).1 := by
  refine ⟨⟨rfl, rfl⟩, mirrors_ingestCalls lakeView none (fun _ h => nomatch h) lakeCalls ?_ ?_⟩
  · intro call hcall
    simp only [lakeCalls, List.mem_cons, List.not_mem_nil, or_false] at hcall
    obtain rfl | rfl | rfl := hcall <;> exact ⟨sql_refusingLake _, sql_refusingLake _⟩
  · exact fun h => nomatch h

end RawDuck
