import RawDuck.Flatten
import Mathlib.Data.List.Pairwise

/-!
# RawDuck.Extract

Row-major value extraction: one walk over a row's JSON routes each value to
the slot of its column through the schema tree.

* `RawExtractor.traverse` / `RawExtractor.assignRow` — the walk;
* `extractRow_eq` — on a flattened schema the slot of a column is
  the last value the row has at the column's path, so the walk over node
  pointers does what the path says.
-/

namespace RawDuck

open Json

/-- One row of the extractor's `values`: the value routed to each column. -/
abbrev Slots := Nat → Option Json

/-- `values[col][row_idx] = val`. -/
def Slots.assign (slots : Slots) (col : Nat) (val : Json) : Slots :=
  fun j => if j = col then some val else slots j

/-- `RawExtractor`: the schema-tree leaf to column slot map. -/
structure RawExtractor where
  root : RawNode
  columnOf : List (NodeRef × Nat)
  rootIsColumn : Bool

namespace RawExtractor

/-- The constructor.  A later `column_of[node] = col` replaces an earlier one,
so the later pair comes first. -/
def create (root : RawNode) (columns : List RawColumn) : RawExtractor where
  root := root
  columnOf := ((columns.map RawColumn.node).zipIdx).reverse
  rootIsColumn := columns.any fun c => c.path.isEmpty

mutual
/-- `RawExtractor::Traverse`. -/
def traverse (x : RawExtractor) (val : Json) (node : RawNode) (ref : NodeRef) (slots : Slots) :
    Slots :=
  match x.columnOf.lookup ref with
  | some col => slots.assign col val
  | none =>
      match val with
      | .obj members =>
          match node with
          | .object children childLookup =>
              x.traverseMembers members children childLookup ref slots
          -- a value at a path that is neither a column nor a flattened object
          | .unset | .scalar _ | .array _ | .json => slots
      | .null | .bool _ | .uint _ | .sint _ | .real _ | .str _ | .arr _ => slots

/-- The member loop of `Traverse`. -/
def traverseMembers (x : RawExtractor) (members : List (Bytes × Json))
    (children : List (Bytes × RawNode)) (childLookup : List (Bytes × Nat)) (ref : NodeRef)
    (slots : Slots) : Slots :=
  match members with
  | [] => slots
  | (key, val) :: rest =>
      let slots :=
        match findChild children childLookup key with
        | none => slots
        | some i =>
            match children[i]? with
            | some entry => x.traverse val entry.2 (ref ++ [i]) slots
            | none => slots
      x.traverseMembers rest children childLookup ref slots
end

/-- `RawExtractor::AssignRow`. -/
def assignRow (x : RawExtractor) (row : Json) (slots : Slots) : Slots :=
  if x.rootIsColumn then
    match x.columnOf.lookup [] with
    | some col => slots.assign col row
    | none => slots
  else x.traverse row x.root [] slots

end RawExtractor

/-- The slots of a row after `Reset` and `AssignRow`. -/
def extractRow (root : RawNode) (columns : List RawColumn) (row : Json) : Slots :=
  (RawExtractor.create root columns).assignRow row fun _ => none

/-! ## the slot map -/

theorem Separate.node_ne {a b : RawColumn} (h : Separate a b) : a.node ≠ b.node :=
  fun heq => h.1 (heq ▸ List.prefix_refl _)

instance : Std.Symm Separate := ⟨fun _ _ h => ⟨h.2, h.1⟩⟩

theorem nodup_nodes {columns : List RawColumn} (hsep : columns.Pairwise Separate) :
    (columns.map RawColumn.node).Nodup :=
  List.pairwise_map.mpr (hsep.imp fun h => h.node_ne)

/-- Under distinct keys an association list maps a key to what it is paired
with. -/
theorem lookup_eq_some_iff {α β : Type} [BEq α] [LawfulBEq α] {l : List (α × β)}
    (hnd : (l.map Prod.fst).Nodup) {a : α} {b : β} : l.lookup a = some b ↔ (a, b) ∈ l := by
  induction l with
  | nil => simp
  | cons p l ih =>
      obtain ⟨k, v⟩ := p
      obtain ⟨hk, hnd⟩ := List.nodup_cons.mp hnd
      rw [List.lookup_cons, List.mem_cons]
      by_cases hak : a = k
      · subst hak
        simp only [beq_self_eq_true, Option.some.injEq, Prod.mk.injEq, true_and]
        constructor
        · exact fun h => .inl h.symm
        · rintro (h | h)
          · exact h.symm
          · exact absurd (List.mem_map.mpr ⟨_, h, rfl⟩) hk
      · simp only [beq_eq_false_iff_ne.mpr hak, ih hnd, Prod.mk.injEq, hak, false_and, false_or]

/-- Among columns at different nodes, the slot of a column is its position. -/
theorem lookup_columnOf (root : RawNode) {columns : List RawColumn}
    (hsep : columns.Pairwise Separate) {ref : NodeRef} {j : Nat} :
    (RawExtractor.create root columns).columnOf.lookup ref = some j ↔
      ∃ c, columns[j]? = some c ∧ c.node = ref := by
  have hnd : ((RawExtractor.create root columns).columnOf.map Prod.fst).Nodup := by
    simp only [RawExtractor.create, List.map_reverse, List.zipIdx_map_fst]
    exact List.nodup_reverse.mpr (nodup_nodes hsep)
  rw [lookup_eq_some_iff hnd]
  simp only [RawExtractor.create, List.mem_reverse, List.mem_zipIdx_iff_getElem?,
    List.getElem?_map, Option.map_eq_some_iff]

/-! ## the walk -/

namespace RawExtractor

variable (x : RawExtractor) {ref : NodeRef}

theorem traverse_of_column {col : Nat} (h : x.columnOf.lookup ref = some col) (val : Json)
    (node : RawNode) (slots : Slots) : x.traverse val node ref slots = slots.assign col val := by
  cases val <;> simp [traverse, h]

theorem traverse_object (h : x.columnOf.lookup ref = none) (members : List (Bytes × Json))
    (children : List (Bytes × RawNode)) (childLookup : List (Bytes × Nat)) (slots : Slots) :
    x.traverse (.obj members) (.object children childLookup) ref slots =
      x.traverseMembers members children childLookup ref slots := by
  simp [traverse, h]

theorem traverse_not_obj (h : x.columnOf.lookup ref = none) {val : Json}
    (hval : val.isObj = false) (node : RawNode) (slots : Slots) :
    x.traverse val node ref slots = slots := by
  cases val with
  | obj => exact absurd hval (by simp [isObj])
  | _ => simp [traverse, h]

theorem traverse_not_object (h : x.columnOf.lookup ref = none) (val : Json) {node : RawNode}
    (hnode : ∀ children childLookup, node ≠ .object children childLookup) (slots : Slots) :
    x.traverse val node ref slots = slots := by
  cases node with
  | object => exact absurd rfl (hnode _ _)
  | _ => cases val <;> simp [traverse, h]

theorem traverseMembers_cons (key : Bytes) (val : Json) (rest : List (Bytes × Json))
    (children : List (Bytes × RawNode)) (childLookup : List (Bytes × Nat)) (slots : Slots) :
    x.traverseMembers ((key, val) :: rest) children childLookup ref slots =
      x.traverseMembers rest children childLookup ref
        (match findChild children childLookup key with
        | none => slots
        | some i =>
            match children[i]? with
            | some entry => x.traverse val entry.2 (ref ++ [i]) slots
            | none => slots) := by
  rw [traverseMembers]

end RawExtractor

open RawExtractor

variable {root : RawNode} {columns : List RawColumn}

/-- At a column's own node the walk leaves the slots of columns elsewhere alone. -/
theorem traverse_frame_of_column (hsep : columns.Pairwise Separate) {j col : Nat} {c : RawColumn}
    (hc : columns[j]? = some c) (val : Json) {node : RawNode} {ref : NodeRef} (slots : Slots)
    (hout : ¬ ref <+: c.node) (hl : (create root columns).columnOf.lookup ref = some col) :
    (create root columns).traverse val node ref slots j = slots j := by
  obtain ⟨c', hc', hnode⟩ := (lookup_columnOf root hsep).mp hl
  rw [traverse_of_column _ hl, Slots.assign, if_neg]
  rintro rfl
  rw [← hnode, Option.some.inj (hc.symm.trans hc')] at hout
  exact hout (List.prefix_refl _)

/-- The walk below a node leaves the slots of columns elsewhere alone. -/
theorem traverse_frame (hsep : columns.Pairwise Separate) {j : Nat} {c : RawColumn}
    (hc : columns[j]? = some c) (val : Json) {node : RawNode} {ref : NodeRef} (slots : Slots)
    (hout : ¬ ref <+: c.node) :
    (create root columns).traverse val node ref slots j = slots j := by
  induction val using Json.induct generalizing node ref slots with
  | obj members ih =>
      cases hl : (create root columns).columnOf.lookup ref with
      | some col => exact traverse_frame_of_column hsep hc _ slots hout hl
      | none =>
          cases node with
          | object children childLookup =>
              rw [traverse_object _ hl]
              clear hl
              induction members generalizing slots with
              | nil => rw [traverseMembers]
              | cons m rest ihrest =>
                  obtain ⟨key, val⟩ := m
                  rw [traverseMembers_cons, ihrest fun m hm => ih m (List.mem_cons_of_mem _ hm)]
                  cases findChild children childLookup key with
                  | none => rfl
                  | some i =>
                      cases hi : children[i]? with
                      | none => simp only [hi]
                      | some entry =>
                          simp only [hi]
                          exact ih _ List.mem_cons_self _ fun hpre =>
                            hout ((List.prefix_append _ _).trans hpre)
          | _ => rw [traverse_not_object _ hl _ (by simp)]
  | _ =>
      cases hl : (create root columns).columnOf.lookup ref with
      | some col => exact traverse_frame_of_column hsep hc _ slots hout hl
      | none => rw [traverse_not_obj _ hl rfl]

/-- At a column's own node the walk assigns its slot, and no other column
stands below. -/
theorem traverse_slot_of_column (hsep : columns.Pairwise Separate) {j col : Nat} {c : RawColumn}
    (hc : columns[j]? = some c) {ref rel : NodeRef} (hnode : c.node = ref ++ rel)
    (hl : (create root columns).columnOf.lookup ref = some col) : rel = [] ∧ col = j := by
  obtain ⟨c', hc', hnode'⟩ := (lookup_columnOf root hsep).mp hl
  by_cases hcc : c = c'
  · have hrel : rel = [] := by
      rw [hcc, hnode'] at hnode
      simpa using hnode
    refine ⟨hrel, ?_⟩
    have hj := (lookup_columnOf root hsep).mpr ⟨c, hc, by rw [hnode, hrel, List.append_nil]⟩
    exact Option.some.inj (hl.symm.trans hj)
  · have h := hsep.forall (List.mem_of_getElem? hc) (List.mem_of_getElem? hc') hcc
    exact absurd ⟨rel, by rw [hnode', hnode]⟩ h.2

/-- At its own node a column gets the value that is walked. -/
theorem traverse_slot_here (hsep : columns.Pairwise Separate) {j col : Nat} {c : RawColumn}
    (hc : columns[j]? = some c) (val : Json) {node : RawNode} {ref rel : NodeRef} (slots : Slots)
    {keys : List Bytes} (hnode : c.node = ref ++ rel) (hkeys : keysAt node rel = some keys)
    (hl : (create root columns).columnOf.lookup ref = some col) :
    (create root columns).traverse val node ref slots j =
      (reached keys val).getLast?.or (slots j) := by
  obtain ⟨rfl, rfl⟩ := traverse_slot_of_column hsep hc hnode hl
  obtain rfl : keys = [] := by simpa using hkeys.symm
  rw [traverse_of_column _ hl]
  simp [Slots.assign]

/-- Below a node that is no column's own, a column stands below a child. -/
theorem exists_child_of_column (hsep : columns.Pairwise Separate) {j : Nat} {c : RawColumn}
    (hc : columns[j]? = some c) {node : RawNode} {ref rel : NodeRef} {keys : List Bytes}
    (hnode : c.node = ref ++ rel) (hkeys : keysAt node rel = some keys)
    (hl : (create root columns).columnOf.lookup ref = none) :
    ∃ children childLookup i rel' k child keys', node = .object children childLookup ∧
      rel = i :: rel' ∧ keys = k :: keys' ∧ children[i]? = some (k, child) ∧
      keysAt child rel' = some keys' := by
  cases rel with
  | nil =>
      have hown := (lookup_columnOf root hsep).mpr ⟨c, hc, by rw [hnode, List.append_nil]⟩
      rw [hl] at hown
      contradiction
  | cons i rel =>
      cases node with
      | object children childLookup =>
          rw [keysAt_object_cons] at hkeys
          obtain ⟨⟨k, child⟩, hi, hkeys⟩ := Option.bind_eq_some_iff.mp hkeys
          obtain ⟨keys', hkeys', rfl⟩ := Option.map_eq_some_iff.mp hkeys
          exact ⟨children, childLookup, i, rel, k, child, keys', rfl, rfl, rfl, hi, hkeys'⟩
      | _ => simp [keysAt] at hkeys

/-- The member loop gives a column below the child `k` the last value its
remaining path leads to from any member of that key. -/
theorem traverseMembers_slot (hsep : columns.Pairwise Separate) {j : Nat} {c : RawColumn}
    (hc : columns[j]? = some c) {children : List (Bytes × RawNode)}
    {childLookup : List (Bytes × Nat)} (hwf : (RawNode.object children childLookup).WF)
    {ref rel : NodeRef} {i : Nat} {k : Bytes} {child : RawNode} {keys : List Bytes}
    (hi : children[i]? = some (k, child)) (hnode : c.node = ref ++ i :: rel)
    {members : List (Bytes × Json)}
    (ih : ∀ m ∈ members, ∀ slots : Slots,
      (create root columns).traverse m.2 child (ref ++ [i]) slots j =
        (reached keys m.2).getLast?.or (slots j)) (slots : Slots) :
    (create root columns).traverseMembers members children childLookup ref slots j =
      ((members.flatMap fun m => if m.1 = k then reached keys m.2 else []).getLast?).or
        (slots j) := by
  have hnd : (children.map Prod.fst).Nodup := by cases hwf; assumption
  induction members generalizing slots with
  | nil => rw [traverseMembers]; rfl
  | cons m rest ihrest =>
      obtain ⟨key, val⟩ := m
      rw [traverseMembers_cons, ihrest (fun m hm => ih m (List.mem_cons_of_mem _ hm)),
        List.flatMap_cons, List.getLast?_append, Option.or_assoc, findChild_eq hwf]
      congr 1
      by_cases hk : key = k
      · subst hk
        rw [(childIndex_eq_some_iff hnd).mpr ⟨child, hi⟩, if_pos rfl]
        simp only [hi]
        exact ih _ List.mem_cons_self slots
      · rw [if_neg hk, List.getLast?_nil, Option.none_or]
        cases hf : childIndex children key with
        | none => rfl
        | some i' =>
            obtain ⟨child', hi'⟩ := childIndex_eq_some hf
            simp only [hi']
            refine traverse_frame hsep hc val slots ?_
            rw [hnode, List.append_cons]
            rintro ⟨t, ht⟩
            have hii : i' = i := by
              have := congrArg (fun l : NodeRef => l[ref.length]?) ht
              simpa using this
            rw [hii, hi] at hi'
            exact hk (congrArg Prod.fst (Option.some.inj hi')).symm

/-- The walk below a node gives a column there the last value its remaining
path leads to, and keeps what the slot held when there is none. -/
theorem traverse_slot (hsep : columns.Pairwise Separate) {j : Nat} {c : RawColumn}
    (hc : columns[j]? = some c) (val : Json) {node : RawNode} (hwf : node.WF) {ref rel : NodeRef}
    (slots : Slots) {keys : List Bytes} (hnode : c.node = ref ++ rel)
    (hkeys : keysAt node rel = some keys) :
    (create root columns).traverse val node ref slots j =
      (reached keys val).getLast?.or (slots j) := by
  induction val using Json.induct generalizing node ref rel slots keys with
  | obj members ih =>
      cases hl : (create root columns).columnOf.lookup ref with
      | some col => exact traverse_slot_here hsep hc _ slots hnode hkeys hl
      | none =>
          obtain ⟨children, childLookup, i, rel, k, child, keys, rfl, rfl, rfl, hi, hkeys'⟩ :=
            exists_child_of_column hsep hc hnode hkeys hl
          rw [traverse_object _ hl, reached_cons_obj]
          refine traverseMembers_slot hsep hc hwf hi hnode (fun m hm slots => ?_) slots
          cases hwf with
          | object _ _ hall =>
              exact ih m hm (hall _ (List.mem_of_getElem? hi)) slots
                (by rw [hnode, List.append_cons]) hkeys'
  | _ =>
      cases hl : (create root columns).columnOf.lookup ref with
      | some col => exact traverse_slot_here hsep hc _ slots hnode hkeys hl
      | none =>
          obtain ⟨children, childLookup, i, rel, k, child, keys, rfl, rfl, rfl, hi, hkeys'⟩ :=
            exists_child_of_column hsep hc hnode hkeys hl
          rw [traverse_not_obj _ hl rfl, reached_cons_of_not_obj rfl]
          rfl

theorem keysAt_eq_nil {node : RawNode} {rel : NodeRef} (h : keysAt node rel = some []) :
    rel = [] := by
  match node, rel with
  | _, [] => rfl
  | .object children _, i :: rel =>
      rw [keysAt_object_cons] at h
      obtain ⟨entry, -, h⟩ := Option.bind_eq_some_iff.mp h
      obtain ⟨keys, -, h⟩ := Option.map_eq_some_iff.mp h
      exact nomatch h
  | .unset, _ :: _ | .scalar _, _ :: _ | .array _, _ :: _ | .json, _ :: _ => simp [keysAt] at h

/-- **The extractor follows the paths**: the slot of a flattened column is the
last value, in document order, that the row has at the column's path. -/
theorem extractRow_eq {scalarRows : Bool} (hwf : root.WF)
    (h : flattenSchema root scalarRows = .ok columns) (row : Json) {j : Nat} {c : RawColumn}
    (hc : columns[j]? = some c) : extractRow root columns row j = valueAt c.path row := by
  have hsep := separate_flattenSchema h
  obtain ⟨keys, hat⟩ := columnAt_flattenSchema h (List.mem_of_getElem? hc)
  have hpath : c.path = keys := hat.path_eq
  rw [extractRow, assignRow]
  split
  · next hvalue =>
    -- the `value` column: its node is the root, so it is the only column
    obtain ⟨c', hc', hnil⟩ := List.any_eq_true.mp hvalue
    obtain ⟨keys', hat'⟩ := columnAt_flattenSchema h hc'
    have hkeys' : keys' = [] := by
      rw [← List.nil_append keys', ← hat'.path_eq]; exact List.isEmpty_iff.mp hnil
    have hnode' : c'.node = [] := keysAt_eq_nil (hkeys' ▸ hat'.keys_eq)
    obtain ⟨col, hcol⟩ := List.getElem?_of_mem hc'
    have hl := (lookup_columnOf root hsep).mpr ⟨c', hcol, hnode'⟩
    obtain ⟨hrel, rfl⟩ := traverse_slot_of_column hsep hc (List.nil_append c.node).symm hl
    have hkeys : keys = [] := by simpa [hrel] using hat.keys_eq.symm
    rw [hl, hpath, hkeys]
    simp [Slots.assign]
  · rw [show (create root columns).root = root from rfl,
      traverse_slot hsep hc row hwf _ hat.node_eq hat.keys_eq, Option.or_none, hpath]
    rfl

end RawDuck
