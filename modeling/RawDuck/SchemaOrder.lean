import RawDuck.SchemaView

/-!
# RawDuck.SchemaOrder

What is derived from an inferred schema does not depend on the order of the rows,
nor on how often a row is repeated.

* `nodeToType_congr` — a node's type is a matter of its tree;
* `perm_flattenInto` — equal trees flatten to the same paths and types, up to the
  order of the columns;
* `inferSchema_orderFree` — schema inference and flattening, for rows in any order
  and number.
-/

namespace RawDuck

open Fallible LogicalType

/-! ## equal trees -/

theorem SameSchema.kind_eq {a b : RawNode} (h : SameSchema a b) : a.kind = b.kind := by
  have hroot := congrFun h []
  rw [nodeView_nil, nodeView_nil, Option.some.injEq] at hroot
  exact hroot

theorem SameSchema.element {a b : RawNode} (h : SameSchema (.array a) (.array b)) :
    SameSchema a b := by
  funext path
  exact congrFun h (.element :: path)

/-- The children of a name in two equal objects. -/
theorem SameSchema.child {ca cb : List (Bytes × RawNode)} {la lb : List (Bytes × Nat)}
    (h : SameSchema (.object ca la) (.object cb lb)) {name : Bytes} {a : RawNode}
    (ha : childNode ca name = some a) : ∃ b, childNode cb name = some b ∧ SameSchema a b := by
  have hpath : ∀ path, nodeView a path = (childNode cb name).bind fun b => nodeView b path := by
    intro path
    have hname := congrFun h (.key name :: path)
    rw [nodeView_key, nodeView_key, ha, Option.bind_some] at hname
    exact hname
  cases hb : childNode cb name with
  | none =>
      have hroot := hpath []
      rw [hb, nodeView_nil] at hroot
      contradiction
  | some b =>
      refine ⟨b, rfl, ?_⟩
      funext path
      rw [hpath path, hb, Option.bind_some]

theorem SameSchema.symm {a b : RawNode} (h : SameSchema a b) : SameSchema b a := Eq.symm h

/-- A node's type is a matter of its tree. -/
theorem nodeToType_congr {a b : RawNode} (h : SameSchema a b) : nodeToType a = nodeToType b := by
  induction a using RawNode.induct generalizing b with
  | array a ih =>
      cases b with
      | array b =>
          have hbelow := h.element
          have htype := ih hbelow
          have hkind := hbelow.kind_eq
          cases a with
          | unset => cases b <;> simp_all [RawNode.kind, nodeToType]
          | scalar k => cases b <;> simp_all [RawNode.kind, nodeToType]
          | object => cases b <;> simp_all [RawNode.kind, nodeToType]
          | json => cases b <;> simp_all [RawNode.kind, nodeToType]
          | array a =>
              cases b with
              | array b => rw [nodeToType, nodeToType, htype]
              | _ => contradiction
      | _ =>
          have hkind := h.kind_eq
          contradiction
  | _ =>
      have hkind := h.kind_eq
      cases b <;> simp_all [RawNode.kind, nodeToType]

/-- Equal nodes are flattened further at the same depths. -/
theorem isFlattened_congr {a b : RawNode} (h : SameSchema a b) (depth : Nat) :
    isFlattened a depth = isFlattened b depth := by
  have hone : ∀ {a b : RawNode}, SameSchema a b → isFlattened a depth = true →
      isFlattened b depth = true := by
    intro a b h ha
    have hkind := h.kind_eq
    cases a with
    | object ca la =>
        cases b with
        | object cb lb =>
            cases ca with
            | nil => simp [isFlattened] at ha
            | cons entry rest =>
                obtain ⟨name, child⟩ := entry
                have hchild : childNode ((name, child) :: rest) name = some child := by
                  rw [childNode_cons, if_pos rfl]
                obtain ⟨b, hb, -⟩ := h.child hchild
                cases cb with
                | nil => simp [childNode] at hb
                | cons entry' rest' => exact ha
        | _ => contradiction
    | _ => simp [isFlattened] at ha
  rw [Bool.eq_iff_iff]
  exact ⟨hone h, hone h.symm⟩

/-! ## flattening -/

/-- What a column says about the rows: its path and its type. -/
def RawColumn.pathType (c : RawColumn) : List Bytes × LogicalType := (c.path, c.type)

/-- The paths and types a child is flattened to. -/
def entryPairs (path : List Bytes) (depth : Nat) (entry : Bytes × RawNode) :
    List (List Bytes × LogicalType) :=
  if isFlattened entry.2 depth then
    (flattenInto entry.2 [] (path ++ [entry.1]) [] (depth + 1)).map RawColumn.pathType
  else [(path ++ [entry.1], nodeToType entry.2)]

/-- Names and references have no part in the paths and types. -/
theorem pathType_flattenInto (node : RawNode) (dotted dotted' : Bytes) (path : List Bytes)
    (ref ref' : NodeRef) (depth : Nat) :
    (flattenInto node dotted path ref depth).map RawColumn.pathType =
      (flattenInto node dotted' path ref' depth).map RawColumn.pathType := by
  induction node using RawNode.induct generalizing dotted dotted' path ref ref' depth with
  | object children childLookup ih =>
      have hall : ∀ (rest : List (Bytes × RawNode)), (∀ entry ∈ rest, entry ∈ children) →
          ∀ i i', (flattenChildren rest i dotted path ref depth).map RawColumn.pathType =
            (flattenChildren rest i' dotted' path ref' depth).map RawColumn.pathType := by
        intro rest
        induction rest with
        | nil => intro _ i i'; simp [flattenChildren]
        | cons entry rest ihrest =>
            intro hin i i'
            obtain ⟨name, child⟩ := entry
            have hrest := ihrest (fun e he => hin e (List.mem_cons_of_mem _ he)) (i + 1) (i' + 1)
            rw [flattenChildren_cons, flattenChildren_cons, List.map_append, List.map_append, hrest]
            split
            · rw [ih (name, child) (hin _ List.mem_cons_self)]
            · rfl
      rw [flattenInto, flattenInto]
      exact hall children (fun _ he => he) 0 0
  | _ => simp [flattenInto]

/-- The paths and types of an object: those of its children. -/
theorem pathType_object (children : List (Bytes × RawNode)) (childLookup : List (Bytes × Nat))
    (dotted : Bytes) (path : List Bytes) (ref : NodeRef) (depth : Nat) :
    (flattenInto (.object children childLookup) dotted path ref depth).map RawColumn.pathType =
      children.flatMap (entryPairs path depth) := by
  have hall : ∀ (children : List (Bytes × RawNode)) (i : Nat),
      (flattenChildren children i dotted path ref depth).map RawColumn.pathType =
        children.flatMap (entryPairs path depth) := by
    intro children
    induction children with
    | nil => intro i; simp [flattenChildren]
    | cons entry rest ih =>
        intro i
        obtain ⟨name, child⟩ := entry
        rw [flattenChildren_cons, List.map_append, List.flatMap_cons, ih, entryPairs]
        split
        · rw [pathType_flattenInto child _ [] _ _ []]
        · rfl
  rw [flattenInto]
  exact hall children 0

/-- Children as their names, each with its child. -/
theorem flatMap_children {β : Type} {children : List (Bytes × RawNode)}
    (hnd : (children.map Prod.fst).Nodup) (f : Bytes × RawNode → List β) :
    children.flatMap f =
      (children.map Prod.fst).flatMap fun name =>
        f (name, (childNode children name).getD .unset) := by
  rw [List.flatMap_map]
  refine List.flatMap_congr fun entry hentry => ?_
  obtain ⟨name, child⟩ := entry
  rw [(childNode_eq_some_iff hnd).mpr hentry, Option.getD_some]

/-- **Equal trees** flatten to the same paths and types, up to the order of the
columns. -/
theorem perm_flattenInto {a b : RawNode} (ha : a.WF) (hb : b.WF) (h : SameSchema a b)
    (dotted dotted' : Bytes) (path : List Bytes) (ref ref' : NodeRef) (depth : Nat) :
    ((flattenInto a dotted path ref depth).map RawColumn.pathType).Perm
      ((flattenInto b dotted' path ref' depth).map RawColumn.pathType) := by
  induction a using RawNode.induct generalizing b dotted dotted' path ref ref' depth with
  | object ca la ih =>
      cases b with
      | object cb lb =>
          cases ha with
          | object hnda _ hwfa =>
          cases hb with
          | object hndb _ hwfb =>
          have hnames : (ca.map Prod.fst).Perm (cb.map Prod.fst) := by
            rw [List.perm_ext_iff_of_nodup hnda hndb]
            have hone : ∀ {ca cb : List (Bytes × RawNode)} {la lb : List (Bytes × Nat)},
                SameSchema (.object ca la) (.object cb lb) → ∀ name,
                name ∈ ca.map Prod.fst → name ∈ cb.map Prod.fst := by
              intro ca cb la lb h name hin
              by_contra hnot
              cases hc : childNode ca name with
              | none => exact childNode_eq_none_iff.mp hc hin
              | some child =>
                  obtain ⟨child', hc', -⟩ := h.child hc
                  rw [childNode_eq_none_iff.mpr hnot] at hc'
                  contradiction
            exact fun name => ⟨hone h name, hone h.symm name⟩
          rw [pathType_object, pathType_object, flatMap_children hnda, flatMap_children hndb]
          refine .trans (List.Perm.flatMap_left _ fun name hname => ?_)
            (hnames.flatMap_right fun name =>
              entryPairs path depth (name, (childNode cb name).getD .unset))
          cases hc : childNode ca name with
          | none => exact absurd hname (childNode_eq_none_iff.mp hc)
          | some child =>
              obtain ⟨child', hc', hsame⟩ := h.child hc
              have hmem := (childNode_eq_some_iff hnda).mp hc
              have hmem' := (childNode_eq_some_iff hndb).mp hc'
              rw [hc', Option.getD_some, Option.getD_some, entryPairs, entryPairs,
                isFlattened_congr hsame, nodeToType_congr hsame]
              split
              · exact ih _ hmem (hwfa _ hmem) (hwfb _ hmem') hsame _ _ _ _ _ _
              · exact .refl _
      | _ =>
          have hkind := h.kind_eq
          contradiction
  | _ =>
      have hkind := h.kind_eq
      cases b <;> simp_all [RawNode.kind, flattenInto]

/-- Two schemas alike: the same error, or the same paths and types up to the order
of the columns. -/
def SchemasAgree : Except RawError (List RawColumn) → Except RawError (List RawColumn) → Prop
  | .ok cs, .ok ds => (cs.map RawColumn.pathType).Perm (ds.map RawColumn.pathType)
  | .error e, .error f => e = f
  | _, _ => False

theorem SchemasAgree.refl (x : Except RawError (List RawColumn)) : SchemasAgree x x := by
  cases x with
  | ok cs => exact List.Perm.refl _
  | error e => exact rfl

/-- Renaming columns changes no path and no type. -/
theorem pathType_disambiguate (seen : List Bytes) (columns : List RawColumn) :
    (disambiguate seen columns).map RawColumn.pathType = columns.map RawColumn.pathType := by
  have hforget := congrArg (List.map fun t : List Bytes × LogicalType × NodeRef => (t.1, t.2.1))
    (disambiguate_forget seen columns)
  rw [List.map_map, List.map_map] at hforget
  exact hforget

/-- Equal trees have the same schema. -/
theorem flattenSchema_congr {a b : RawNode} (ha : a.WF) (hb : b.WF) (h : SameSchema a b)
    (scalarRows : Bool) :
    SchemasAgree (flattenSchema a scalarRows) (flattenSchema b scalarRows) := by
  have hkind := h.kind_eq
  have hvalue : ∀ (path : List Bytes) (name : Bytes) (ref : NodeRef),
      SchemasAgree (.ok [{ name, path, type := nodeToType a, node := ref }])
        (.ok [{ name, path, type := nodeToType b, node := ref }]) := by
    intro path name ref
    rw [nodeToType_congr h]
    exact .refl _
  cases a with
  | unset =>
      cases b with
      | unset => exact .refl _
      | _ => contradiction
  | object ca la =>
      cases b with
      | object cb lb =>
          cases scalarRows with
          | true => exact hvalue [] _ []
          | false =>
              have hperm := perm_flattenInto ha hb h [] [] [] [] [] 0
              have hlen := hperm.length_eq
              rw [List.length_map, List.length_map] at hlen
              simp only [flattenSchema, hlen]
              split
              · exact rfl
              · show List.Perm _ _
                rw [pathType_disambiguate, pathType_disambiguate]
                exact hperm
      | _ => contradiction
  | scalar k =>
      cases b with
      | scalar k' => cases scalarRows <;> exact hvalue [] _ []
      | _ => contradiction
  | array el =>
      cases b with
      | array el' => cases scalarRows <;> exact hvalue [] _ []
      | _ => contradiction
  | json =>
      cases b with
      | json => cases scalarRows <;> exact hvalue [] _ []
      | _ => contradiction

/-! ## rows in any order -/

/-- The same rows are uniform, whatever their order and number. -/
theorem checkRowUniformity_congr {rows rows' : List Json} (h : ∀ row, row ∈ rows ↔ row ∈ rows') :
    checkRowUniformity rows = checkRowUniformity rows' := by
  have hsome : ∀ rows : List Json,
      decide (rows.countP Json.isObj > 0) = rows.any Json.isObj := by
    intro rows
    rw [Bool.eq_iff_iff, decide_eq_true_iff, gt_iff_lt, List.countP_pos_iff, List.any_eq_true]
  have hall : ∀ rows : List Json,
      decide (rows.countP Json.isObj = rows.length) = rows.all Json.isObj := by
    intro rows
    rw [Bool.eq_iff_iff, decide_eq_true_iff, List.countP_eq_length, List.all_eq_true]
  have hform : ∀ rows : List Json, checkRowUniformity rows =
      if rows.any Json.isObj && !rows.all Json.isObj then .error mixedRowsError
      else .ok (!rows.isEmpty && !rows.any Json.isObj) := by
    intro rows
    have hzero : (rows.countP Json.isObj == 0) = !rows.any Json.isObj := by
      rw [← hsome, Bool.eq_iff_iff]
      simp
    rw [checkRowUniformity, hzero, ← hsome, ← hall]
    simp only [Bool.and_eq_true, decide_eq_true_eq, Bool.not_eq_true', decide_eq_false_iff_not]
  have hany : rows.any Json.isObj = rows'.any Json.isObj := by
    rw [Bool.eq_iff_iff, List.any_eq_true, List.any_eq_true]
    simp only [h]
  have hevery : rows.all Json.isObj = rows'.all Json.isObj := by
    rw [Bool.eq_iff_iff, List.all_eq_true, List.all_eq_true]
    simp only [h]
  have hempty : rows.isEmpty = rows'.isEmpty := by
    rw [Bool.eq_iff_iff, List.isEmpty_iff, List.isEmpty_iff, List.eq_nil_iff_forall_not_mem,
      List.eq_nil_iff_forall_not_mem]
    simp only [h]
  rw [hform, hform, hany, hevery, hempty]

/-- The columns of rows, as `Process` derives them. -/
def rowColumns (duck : Duck) (rows : List Json) : Except RawError (List RawColumn) := do
  let scalarRows ← checkRowUniformity rows
  flattenSchema (inferSchema duck rows) scalarRows

theorem nodeView_inferSchema (duck : Duck) (rows : List Json) :
    nodeView (inferSchema duck rows) = specView duck rows 0 := by
  funext path
  exact nodeView_foldMerge path rows 0

/-- The same rows have the same tree. -/
theorem sameSchema_of_mem (duck : Duck) {rows rows' : List Json}
    (h : ∀ row, row ∈ rows ↔ row ∈ rows') :
    SameSchema (inferSchema duck rows) (inferSchema duck rows') := by
  show nodeView _ = nodeView _
  rw [nodeView_inferSchema, nodeView_inferSchema]
  funext path
  exact specView_congr h path

/-- **Schema inference** does not depend on the order of the values: the tree is
the same for every permutation of them, a value folded in twice changes nothing,
and the tree of two lists is given by the trees of the lists.  The paths and types
derived from it are the same for any lists of the same rows. -/
theorem inferSchema_orderFree (duck : Duck) :
    (∀ xs ys : List Json, xs.Perm ys → SameSchema (inferSchema duck xs) (inferSchema duck ys)) ∧
    (∀ (xs : List Json) (v : Json),
      SameSchema (mergeValue duck (mergeValue duck (inferSchema duck xs) v) v)
        (mergeValue duck (inferSchema duck xs) v)) ∧
    (∀ xs xs' ys ys' : List Json, SameSchema (inferSchema duck xs) (inferSchema duck xs') →
      SameSchema (inferSchema duck ys) (inferSchema duck ys') →
      SameSchema (inferSchema duck (xs ++ ys)) (inferSchema duck (xs' ++ ys'))) ∧
    ∀ xs ys : List Json, (∀ v, v ∈ xs ↔ v ∈ ys) →
      SchemasAgree (rowColumns duck xs) (rowColumns duck ys) := by
  refine ⟨?_, ?_, ?_, ?_⟩
  · intro xs ys hperm
    exact sameSchema_of_mem duck fun v => hperm.mem_iff
  · intro xs v
    have htwice := @sameSchema_of_mem duck (xs ++ [v] ++ [v]) (xs ++ [v]) fun w => by simp
    simpa [inferSchema] using htwice
  · intro xs xs' ys ys' hxs hys
    show nodeView _ = nodeView _
    have hjoin : ∀ xs ys : List Json, nodeView (inferSchema duck (xs ++ ys)) =
        joinView (nodeView (inferSchema duck xs)) (nodeView (inferSchema duck ys)) := by
      intro xs ys
      funext path
      rw [nodeView_inferSchema, nodeView_inferSchema, nodeView_inferSchema]
      exact specView_append path xs ys 0
    rw [hjoin, hjoin, show nodeView _ = nodeView _ from hxs, show nodeView _ = nodeView _ from hys]
  · intro xs ys h
    rw [rowColumns, rowColumns, checkRowUniformity_congr h]
    cases checkRowUniformity ys with
    | error e => exact .refl _
    | ok scalarRows =>
        exact flattenSchema_congr (wf_inferSchema duck xs) (wf_inferSchema duck ys)
          (sameSchema_of_mem duck h) scalarRows

/-- `{"a":1}` and `{"a":"x","b":null}`, in both orders and once more. -/
theorem inferSchema_orderFree_small :
    let first := Json.obj [(bytes "a", .uint 1)]
    let second := Json.obj [(bytes "a", .str (bytes "x")), (bytes "b", .null)]
    SameSchema (inferSchema smallDuck [first, second]) (inferSchema smallDuck [second, first]) ∧
      SameSchema (inferSchema smallDuck ([first, second] ++ [first]))
        (inferSchema smallDuck ([second, first] ++ [first])) ∧
      SchemasAgree (rowColumns smallDuck [first, second])
        (rowColumns smallDuck [second, first, second]) := by
  intro first second
  obtain ⟨hperm, -, happend, hsame⟩ := inferSchema_orderFree smallDuck
  have hswap := hperm [first, second] [second, first] (.swap second first [])
  refine ⟨hswap, happend _ _ [first] [first] hswap rfl, hsame _ _ fun v => ?_⟩
  simp only [List.mem_cons, List.not_mem_nil, or_false]
  tauto

end RawDuck
