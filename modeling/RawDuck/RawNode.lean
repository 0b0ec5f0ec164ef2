import RawDuck.Json
import Mathlib.Data.List.Nodup

/-!
# RawDuck.RawNode

The schema tree and its inference: every row of a payload is merged into one
tree in which scalar kinds widen along a lattice and structural conflicts
degrade to JSON.

* `findChild` / `getOrCreateChild` — an object's children in first-seen order,
  found by scanning below 25 children and through `childLookup` above;
* `mergeValueInternal` — the merge, with its nesting cut-off;
* `RawNode.WF` — names are distinct and `childLookup` is the index of the
  names: kept by every merge (`RawNode.WF.mergeValueInternal`), so the two
  lookups agree (`findChild_eq`);
* `childLookup_within` — at every node of an inferred tree the two lookups give
  the same child, and so across the scan limit;
* `Covers` — the tree has absorbed a value; a merge covers the value merged
  (`covers_mergeValueInternal`) and what was covered before
  (`Covers.mergeValueInternal`).
-/

namespace RawDuck

/-- `RawScalarKind`. -/
inductive RawScalarKind where
  | unset | boolean | bigint | double | date | timestamp | varchar
  deriving DecidableEq, Repr

/-- `RawNode`, by its `node_class`: what the class does not use is not there. -/
inductive RawNode where
  | unset
  | scalar (kind : RawScalarKind)
  | object (children : List (Bytes × RawNode)) (childLookup : List (Bytes × Nat))
  | array (element : RawNode)
  | json

/-- Induction with the hypotheses of children stated by membership. -/
@[elab_as_elim] theorem RawNode.induct {motive : RawNode → Prop}
    (unset : motive .unset) (scalar : ∀ kind, motive (.scalar kind))
    (object : ∀ children childLookup, (∀ entry ∈ children, motive entry.2) →
      motive (.object children childLookup))
    (array : ∀ element, motive element → motive (.array element))
    (json : motive .json) (node : RawNode) : motive node :=
  @RawNode.rec motive (fun children => ∀ entry ∈ children, motive entry.2)
    (fun entry => motive entry.2) unset scalar object array json
    (fun _ h => nomatch h) (fun _ _ he hes _ h => by
      rcases List.mem_cons.mp h with h | h
      · exact h ▸ he
      · exact hes _ h)
    (fun _ _ h => h) node

/-- `RAW_MAX_NESTING`. -/
def rawMaxNesting : Nat := 128

/-- `RAW_CHILD_LINEAR_SCAN_LIMIT`. -/
def rawChildLinearScanLimit : Nat := 24

/-- The position of a name among an object's children, by scanning them. -/
def childIndex (children : List (Bytes × RawNode)) (key : Bytes) : Option Nat :=
  children.findIdx? fun entry => entry.1 == key

/-- `RawNode::FindChild`, as the position of the child. -/
def findChild (children : List (Bytes × RawNode)) (childLookup : List (Bytes × Nat))
    (key : Bytes) : Option Nat :=
  if children.length ≤ rawChildLinearScanLimit then childIndex children key
  else childLookup.lookup key

/-- `RawNode::GetOrCreateChild`: the children, the lookup and the position of
the child. -/
def getOrCreateChild (children : List (Bytes × RawNode)) (childLookup : List (Bytes × Nat))
    (key : Bytes) : List (Bytes × RawNode) × List (Bytes × Nat) × Nat :=
  match findChild children childLookup key with
  | some i => (children, childLookup, i)
  | none => (children ++ [(key, .unset)], (key, children.length) :: childLookup, children.length)

/-- The `is_numeric` lambda of `JoinScalarKinds`. -/
def RawScalarKind.isNumeric : RawScalarKind → Bool
  | .bigint | .double => true
  | _ => false

/-- The `is_temporal` lambda of `JoinScalarKinds`. -/
def RawScalarKind.isTemporal : RawScalarKind → Bool
  | .date | .timestamp => true
  | _ => false

/-- `JoinScalarKinds`. -/
def joinScalarKinds (a b : RawScalarKind) : RawScalarKind :=
  if a = .unset then b
  else if b = .unset ∨ a = b then a
  else if a.isNumeric && b.isNumeric then .double
  else if a.isTemporal && b.isTemporal then .timestamp
  else .varchar

/-- `StringUtil::CharacterIsDigit`. -/
def characterIsDigit (c : UInt8) : Bool := 48 ≤ c && c ≤ 57

/-- The whole text is a date, and not a special one. -/
def acceptsDate (duck : Duck) (s : Bytes) : Bool :=
  match duck.tryConvertDate s with
  | some (_, pos, special) => pos == s.length && !special
  | none => false

/-- `SniffString`: ISO dates and timestamps land in temporal columns. -/
def sniffString (duck : Duck) (s : Bytes) : RawScalarKind :=
  if s.length < 8 ∨ s.length > 40 ∨ (s.head?.any characterIsDigit) = false then .varchar
  else if acceptsDate duck s then .date
  else if (duck.tryConvertTimestamp s).isSome then .timestamp
  else .varchar

/-- `SniffScalarKind`; the default branch serves nulls and containers. -/
def sniffScalarKind (duck : Duck) : Json → RawScalarKind
  | .bool _ => .boolean
  | .real _ => .double
  | .uint n => if n > 9223372036854775807 then .double else .bigint
  | .sint _ => .bigint
  | .str s => sniffString duck s
  | _ => .varchar

/-- The scalar branch of `MergeValueInternal`. -/
def mergeScalar (duck : Duck) (node : RawNode) (val : Json) : RawNode :=
  match node with
  | .json => .json
  | .scalar .varchar => .scalar .varchar
  | .unset => .scalar (sniffScalarKind duck val)
  | .scalar kind => .scalar (joinScalarKinds kind (sniffScalarKind duck val))
  | .object _ _ | .array _ => .json

mutual
/-- `MergeValueInternal`. -/
def mergeValueInternal (duck : Duck) (node : RawNode) (val : Json) (depth : Nat) : RawNode :=
  if depth > rawMaxNesting then .json
  else match val with
    | .null => node
    | .obj members =>
        match node with
        | .unset => mergeMembers duck [] [] members (depth + 1)
        | .object children childLookup => mergeMembers duck children childLookup members (depth + 1)
        | .scalar _ | .array _ | .json => .json
    | .arr elements =>
        match node with
        | .unset => .array (mergeElements duck .unset elements (depth + 1))
        | .array element => .array (mergeElements duck element elements (depth + 1))
        | .scalar _ | .object _ _ | .json => .json
    | .bool b => mergeScalar duck node (.bool b)
    | .uint n => mergeScalar duck node (.uint n)
    | .sint n => mergeScalar duck node (.sint n)
    | .real d => mergeScalar duck node (.real d)
    | .str s => mergeScalar duck node (.str s)

/-- The member loop of `MergeValueInternal`. -/
def mergeMembers (duck : Duck) (children : List (Bytes × RawNode))
    (childLookup : List (Bytes × Nat)) (members : List (Bytes × Json)) (depth : Nat) : RawNode :=
  match members with
  | [] => .object children childLookup
  | (key, val) :: rest =>
      let (children, childLookup, i) := getOrCreateChild children childLookup key
      mergeMembers duck
        (children.modify i fun entry => (entry.1, mergeValueInternal duck entry.2 val depth))
        childLookup rest depth

/-- The element loop of `MergeValueInternal`. -/
def mergeElements (duck : Duck) (element : RawNode) (elements : List Json) (depth : Nat) :
    RawNode :=
  match elements with
  | [] => element
  | val :: rest => mergeElements duck (mergeValueInternal duck element val depth) rest depth
end

/-- `MergeValue`. -/
def mergeValue (duck : Duck) (node : RawNode) (val : Json) : RawNode :=
  mergeValueInternal duck node val 0

/-- `RawPayload::InferSchema`. -/
def inferSchema (duck : Duck) (rows : List Json) : RawNode :=
  rows.foldl (mergeValue duck) .unset

/-! ## children and their index -/

/-- Well-formed trees: in every object node the names are distinct and
`childLookup` maps exactly the names to their positions. -/
inductive RawNode.WF : RawNode → Prop where
  | unset : WF .unset
  | scalar (kind : RawScalarKind) : WF (.scalar kind)
  | json : WF .json
  | array {element : RawNode} : WF element → WF (.array element)
  | object {children : List (Bytes × RawNode)} {childLookup : List (Bytes × Nat)} :
      (children.map Prod.fst).Nodup → (∀ key, childLookup.lookup key = childIndex children key) →
      (∀ entry ∈ children, WF entry.2) → WF (.object children childLookup)

theorem childIndex_eq_names (children : List (Bytes × RawNode)) (key : Bytes) :
    childIndex children key = (children.map Prod.fst).findIdx? (· == key) := by
  rw [childIndex, List.findIdx?_map]; rfl

theorem childIndex_eq_none_iff {children : List (Bytes × RawNode)} {key : Bytes} :
    childIndex children key = none ↔ key ∉ children.map Prod.fst := by
  rw [childIndex_eq_names, List.findIdx?_eq_none_iff]
  constructor
  · intro h hk
    simpa using h key hk
  · intro h name hname
    rw [beq_eq_false_iff_ne]
    rintro rfl
    exact h hname

theorem childIndex_eq_some {children : List (Bytes × RawNode)} {key : Bytes} {i : Nat}
    (h : childIndex children key = some i) :
    ∃ child, children[i]? = some (key, child) := by
  rw [childIndex, List.findIdx?_eq_some_iff_getElem] at h
  obtain ⟨hi, hk, -⟩ := h
  refine ⟨children[i].2, ?_⟩
  rw [List.getElem?_eq_getElem hi, Option.some.injEq]
  exact Prod.ext (by simpa using hk) rfl

/-- Among distinct names the scan finds the one position of a name. -/
theorem childIndex_eq_some_iff {children : List (Bytes × RawNode)}
    (hnd : (children.map Prod.fst).Nodup) {key : Bytes} {i : Nat} :
    childIndex children key = some i ↔ ∃ child, children[i]? = some (key, child) := by
  refine ⟨childIndex_eq_some, fun ⟨child, hi⟩ => ?_⟩
  cases h : childIndex children key with
  | none =>
      rw [childIndex_eq_none_iff] at h
      exact absurd (List.mem_map.mpr ⟨_, List.mem_of_getElem? hi, rfl⟩) h
  | some j =>
      obtain ⟨child', hj⟩ := childIndex_eq_some h
      have hi' : (children.map Prod.fst)[i]? = some key := by simp [hi]
      have hj' : (children.map Prod.fst)[j]? = some key := by simp [hj]
      obtain ⟨hlt, -⟩ := List.getElem?_eq_some_iff.mp hi'
      rw [(List.getElem?_inj hlt hnd).mp (hi'.trans hj'.symm)]

/-- The update of the child at a position, as the member loop makes it. -/
abbrev updateChild (children : List (Bytes × RawNode)) (i : Nat) (f : RawNode → RawNode) :
    List (Bytes × RawNode) :=
  children.modify i fun entry => (entry.1, f entry.2)

/-- Updating a child in place keeps the names. -/
theorem names_updateChild (children : List (Bytes × RawNode)) (i : Nat) (f : RawNode → RawNode) :
    (updateChild children i f).map Prod.fst = children.map Prod.fst := by
  apply List.ext_getElem?
  intro j
  simp only [List.getElem?_map, List.getElem?_modify]
  cases children[j]? with
  | none => rfl
  | some entry => by_cases h : i = j <;> simp [h]

theorem getElem?_updateChild {children : List (Bytes × RawNode)} {i : Nat} {key : Bytes}
    {child : RawNode} (h : children[i]? = some (key, child)) (f : RawNode → RawNode) :
    (updateChild children i f)[i]? = some (key, f child) := by
  simp [h]

theorem mem_updateChild {children : List (Bytes × RawNode)} {i : Nat} {f : RawNode → RawNode}
    {entry : Bytes × RawNode} (h : entry ∈ updateChild children i f) :
    entry ∈ children ∨ ∃ child, children[i]? = some (entry.1, child) ∧ entry.2 = f child := by
  obtain ⟨j, hj⟩ := List.getElem?_of_mem h
  rw [List.getElem?_modify] at hj
  cases hc : children[j]? with
  | none => simp [hc] at hj
  | some e =>
      by_cases hij : i = j
      · subst hij
        simp only [hc, if_true, Option.map_eq_map, Option.map_some, Option.some.injEq] at hj
        exact .inr ⟨e.2, by rw [hc, ← hj], by rw [← hj]⟩
      · simp only [hc, if_neg hij, Option.map_eq_map, Option.map_some, Option.some.injEq] at hj
        exact .inl (hj ▸ List.mem_of_getElem? hc)

/-- On a well-formed object the scan and the lookup give the same child: the
scan limit never changes a result. -/
theorem findChild_eq {children : List (Bytes × RawNode)} {childLookup : List (Bytes × Nat)}
    (h : (RawNode.object children childLookup).WF) (key : Bytes) :
    findChild children childLookup key = childIndex children key := by
  cases h with
  | object _ hlookup _ =>
      unfold findChild
      split
      · rfl
      · exact hlookup key

/-- What `getOrCreateChild` does: a well-formed object, with a child of the key
at the returned position, and no change unless the key was new. -/
theorem getOrCreateChild_spec {children children' : List (Bytes × RawNode)}
    {childLookup childLookup' : List (Bytes × Nat)} {key : Bytes} {i : Nat}
    (hwf : (RawNode.object children childLookup).WF)
    (h : getOrCreateChild children childLookup key = (children', childLookup', i)) :
    (RawNode.object children' childLookup').WF ∧ (∃ child, children'[i]? = some (key, child)) ∧
      (children' = children ∨
        key ∉ children.map Prod.fst ∧ children' = children ++ [(key, .unset)]) := by
  unfold getOrCreateChild at h
  rw [findChild_eq hwf] at h
  cases hc : childIndex children key with
  | some j =>
      simp only [hc, Prod.mk.injEq] at h
      obtain ⟨rfl, rfl, rfl⟩ := h
      exact ⟨hwf, childIndex_eq_some hc, .inl rfl⟩
  | none =>
      simp only [hc, Prod.mk.injEq] at h
      obtain ⟨rfl, rfl, rfl⟩ := h
      have hkey := childIndex_eq_none_iff.mp hc
      refine ⟨?_, ⟨.unset, by simp⟩, .inr ⟨hkey, rfl⟩⟩
      cases hwf with
      | object hnd hlookup hall =>
          refine .object ?_ ?_ ?_
          · rw [List.map_append]
            exact List.nodup_append.mpr ⟨hnd, by simp, fun a ha b hb => by
              simp only [List.map_cons, List.map_nil, List.mem_singleton] at hb
              rintro rfl
              exact hkey (hb ▸ ha)⟩
          · intro k
            rw [childIndex, List.findIdx?_append, ← childIndex, List.lookup_cons, hlookup]
            by_cases hk : k = key
            · subst hk; simp [hc]
            · simp [beq_eq_false_iff_ne.mpr hk, beq_eq_false_iff_ne.mpr (Ne.symm hk)]
          · intro entry he
            rcases List.mem_append.mp he with he | he
            · exact hall entry he
            · rw [List.mem_singleton.mp he]; exact .unset

theorem RawNode.WF.updateChild {children : List (Bytes × RawNode)}
    {childLookup : List (Bytes × Nat)} (hwf : (RawNode.object children childLookup).WF) (i : Nat)
    {f : RawNode → RawNode} (hf : ∀ node, node.WF → (f node).WF) :
    (RawNode.object (updateChild children i f) childLookup).WF := by
  cases hwf with
  | object hnd hlookup hall =>
      refine .object (by rwa [names_updateChild]) ?_ ?_
      · intro key
        rw [hlookup, childIndex_eq_names, childIndex_eq_names, names_updateChild]
      · intro entry he
        rcases mem_updateChild he with h | ⟨child, hc, h⟩
        · exact hall entry h
        · exact h ▸ hf child (hall _ (List.mem_of_getElem? hc))

/-! ## what a merge keeps -/

/-- One turn of the member loop. -/
theorem mergeMembers_cons (duck : Duck) {children children' : List (Bytes × RawNode)}
    {childLookup childLookup' : List (Bytes × Nat)} {key : Bytes} {val : Json} {i : Nat}
    (h : getOrCreateChild children childLookup key = (children', childLookup', i))
    (rest : List (Bytes × Json)) (depth : Nat) :
    mergeMembers duck children childLookup ((key, val) :: rest) depth =
      mergeMembers duck
        (updateChild children' i fun node => mergeValueInternal duck node val depth)
        childLookup' rest depth := by
  rw [mergeMembers, h]

theorem wf_mergeScalar (duck : Duck) (node : RawNode) (val : Json) :
    (mergeScalar duck node val).WF := by
  unfold mergeScalar
  split <;> constructor

/-- An object member loop keeps trees well formed when its merges do. -/
theorem wf_mergeMembers (duck : Duck) {members : List (Bytes × Json)} (depth : Nat)
    (ih : ∀ m ∈ members, ∀ node : RawNode, node.WF → (mergeValueInternal duck node m.2 depth).WF)
    {children : List (Bytes × RawNode)} {childLookup : List (Bytes × Nat)}
    (hwf : (RawNode.object children childLookup).WF) :
    (mergeMembers duck children childLookup members depth).WF := by
  induction members generalizing children childLookup with
  | nil => rw [mergeMembers]; exact hwf
  | cons m rest ihrest =>
      obtain ⟨key, val⟩ := m
      obtain ⟨⟨children', childLookup', i⟩, hg⟩ :
          ∃ r, getOrCreateChild children childLookup key = r := ⟨_, rfl⟩
      rw [mergeMembers_cons duck hg]
      apply ihrest (fun m hm => ih m (List.mem_cons_of_mem _ hm))
      exact (getOrCreateChild_spec hwf hg).1.updateChild i
        fun node hn => ih _ List.mem_cons_self node hn

theorem wf_mergeElements (duck : Duck) {elements : List Json} (depth : Nat)
    (ih : ∀ e ∈ elements, ∀ node : RawNode, node.WF → (mergeValueInternal duck node e depth).WF)
    {element : RawNode} (hwf : element.WF) :
    (mergeElements duck element elements depth).WF := by
  induction elements generalizing element with
  | nil => rw [mergeElements]; exact hwf
  | cons e rest ihrest =>
      rw [mergeElements]
      exact ihrest (fun e he => ih e (List.mem_cons_of_mem _ he)) (ih e List.mem_cons_self _ hwf)

theorem wf_object_nil : (RawNode.object [] []).WF :=
  .object (by simp) (fun key => by simp [childIndex]) (by simp)

/-- Every merge keeps the tree well formed. -/
theorem RawNode.WF.mergeValueInternal (duck : Duck) {node : RawNode} (hwf : node.WF)
    (val : Json) (depth : Nat) : (mergeValueInternal duck node val depth).WF := by
  induction val using Json.induct generalizing node depth with
  | null => unfold RawDuck.mergeValueInternal; split <;> [exact .json; exact hwf]
  | obj members ih =>
      unfold RawDuck.mergeValueInternal
      split
      · exact .json
      · have hm : ∀ {cs lk}, (RawNode.object cs lk).WF →
            (mergeMembers duck cs lk members (depth + 1)).WF :=
          fun h => wf_mergeMembers duck _ (fun m hm node hn => ih m hm hn _) h
        cases node with
        | unset => exact hm wf_object_nil
        | object cs lk => exact hm hwf
        | _ => exact .json
  | arr elements ih =>
      unfold RawDuck.mergeValueInternal
      split
      · exact .json
      · have he : ∀ {el : RawNode}, el.WF → (mergeElements duck el elements (depth + 1)).WF :=
          fun h => wf_mergeElements duck _ (fun e he node hn => ih e he hn _) h
        cases node with
        | unset => exact .array (he .unset)
        | array el => cases hwf with | array hel => exact .array (he hel)
        | _ => exact .json
  | _ =>
      unfold RawDuck.mergeValueInternal
      split
      · exact .json
      · exact wf_mergeScalar duck node _

theorem wf_inferSchema (duck : Duck) (rows : List Json) : (inferSchema duck rows).WF := by
  have h : ∀ (rows : List Json) (node : RawNode), node.WF →
      (rows.foldl (mergeValue duck) node).WF := by
    intro rows
    induction rows with
    | nil => exact fun node hn => hn
    | cons row rows ih => exact fun node hn => ih _ (hn.mergeValueInternal duck row 0)
  exact h rows .unset .unset

/-! ## the two lookups at every node -/

/-- The `children` of a node: empty unless it is an object. -/
def RawNode.children : RawNode → List (Bytes × RawNode)
  | .object children _ => children
  | _ => []

/-- The `child_lookup` of a node: empty unless it is an object. -/
def RawNode.childLookup : RawNode → List (Bytes × Nat)
  | .object _ childLookup => childLookup
  | _ => []

/-- The nodes of a tree, by the way down to them. -/
inductive RawNode.Within : RawNode → RawNode → Prop where
  | here (node : RawNode) : Within node node
  | child {children : List (Bytes × RawNode)} {childLookup : List (Bytes × Nat)}
      {entry : Bytes × RawNode} {node : RawNode} :
      entry ∈ children → Within entry.2 node → Within (.object children childLookup) node
  | element {element node : RawNode} : Within element node → Within (.array element) node

/-- A node with children is an object. -/
theorem RawNode.eq_object {node : RawNode} (h : 0 < node.children.length) :
    node = .object node.children node.childLookup := by
  cases node with
  | object children childLookup => rfl
  | _ => exact absurd h (Nat.lt_irrefl 0)

/-- Every node of a well-formed tree is well formed. -/
theorem RawNode.WF.within {root node : RawNode} (hwf : root.WF) (h : root.Within node) :
    node.WF := by
  induction h with
  | here node => exact hwf
  | child he _ ih =>
      cases hwf with
      | object _ _ hall => exact ih (hall _ he)
  | element _ ih =>
      cases hwf with
      | array hel => exact ih hel

/-- The names of a well-formed node are distinct. -/
theorem RawNode.WF.nodup_names {node : RawNode} (hwf : node.WF) :
    (node.children.map Prod.fst).Nodup := by
  cases hwf with
  | object hnd _ _ => exact hnd
  | _ => exact List.nodup_nil

/-- The lookup of a well-formed node is the scan of its names. -/
theorem RawNode.WF.lookup_eq {node : RawNode} (hwf : node.WF) (key : Bytes) :
    node.childLookup.lookup key = childIndex node.children key := by
  cases hwf with
  | object _ hlookup _ => exact hlookup key
  | _ => rfl

theorem RawNode.WF.findChild_eq {node : RawNode} (hwf : node.WF) (key : Bytes) :
    findChild node.children node.childLookup key = childIndex node.children key := by
  cases node with
  | object children childLookup => exact RawDuck.findChild_eq hwf key
  | _ => rfl

/-- A child found by scanning stays where it was when children are appended. -/
theorem childIndex_append {children : List (Bytes × RawNode)} {key : Bytes} {i : Nat}
    (h : childIndex children key = some i) (more : List (Bytes × RawNode)) :
    childIndex (children ++ more) key = some i := by
  rw [childIndex, List.findIdx?_append, ← childIndex, h, Option.some_or]

/-- Creating a child changes no lookup that succeeds, across the scan limit too. -/
theorem findChild_getOrCreateChild {children children' : List (Bytes × RawNode)}
    {childLookup childLookup' : List (Bytes × Nat)} {key : Bytes} {i : Nat}
    (hwf : (RawNode.object children childLookup).WF)
    (h : getOrCreateChild children childLookup key = (children', childLookup', i))
    {other : Bytes} {j : Nat} (hj : findChild children childLookup other = some j) :
    findChild children' childLookup' other = some j := by
  obtain ⟨hwf', -, hchildren⟩ := getOrCreateChild_spec hwf h
  rw [findChild_eq hwf] at hj
  rw [findChild_eq hwf']
  rcases hchildren with rfl | ⟨-, rfl⟩
  · exact hj
  · exact childIndex_append hj _

/-- **The child found is the one found by scanning and the one found by hash.**
At every node of the tree inferred from any values the names are distinct and
`child_lookup` maps exactly the names to their positions; so `findChild` gives
the child of the scan and of the lookup whatever the number of children, and
creating a further child, past the limit or not, changes no child found. -/
theorem childLookup_within (duck : Duck) (vals : List Json) {node : RawNode}
    (h : (inferSchema duck vals).Within node) :
    (node.children.map Prod.fst).Nodup ∧
      (∀ key i, node.childLookup.lookup key = some i ↔
        ∃ child, node.children[i]? = some (key, child)) ∧
      (∀ key, findChild node.children node.childLookup key = childIndex node.children key ∧
        findChild node.children node.childLookup key = node.childLookup.lookup key) ∧
      ∀ children childLookup, node = .object children childLookup → ∀ key other i,
        findChild children childLookup other = some i →
        findChild (getOrCreateChild children childLookup key).1
          (getOrCreateChild children childLookup key).2.1 other = some i := by
  have hwf : node.WF := (wf_inferSchema duck vals).within h
  refine ⟨hwf.nodup_names, fun key i => ?_, fun key => ?_, ?_⟩
  · rw [hwf.lookup_eq]
    exact childIndex_eq_some_iff hwf.nodup_names
  · refine ⟨hwf.findChild_eq key, ?_⟩
    rw [hwf.findChild_eq, hwf.lookup_eq]
  · rintro children childLookup rfl key other i hi
    exact findChild_getOrCreateChild hwf rfl hi

/-- An object below `r` with so many members, each named by a letter. -/
def letterRow (n : Nat) : Json :=
  .obj [(bytes "r", .obj ((List.range n).map fun i => ([UInt8.ofNat (97 + i)], .uint 1)))]

/-- The tree of objects of so many letters. -/
def letterTree (widths : List Nat) : RawNode := inferSchema smallDuck (widths.map letterRow)

/-- The node below `r` in it. -/
def letterNode (widths : List Nat) : RawNode :=
  ((letterTree widths).children.headD ([], .unset)).2

theorem within_letterNode {widths : List Nat} (h : 0 < (letterTree widths).children.length) :
    (letterTree widths).Within (letterNode widths) := by
  have hobject := RawNode.eq_object h
  rw [letterNode]
  cases hchildren : (letterTree widths).children with
  | nil =>
      rw [hchildren] at h
      exact absurd h (Nat.lt_irrefl 0)
  | cons entry rest =>
      rw [hobject, hchildren]
      exact .child List.mem_cons_self (.here _)

/-- After 24 letters the children are scanned; after 26 the hash lookup finds the `z` of
the scan.  The letter that crosses the limit moves no other one. -/
theorem childLookup_within_letters :
    (letterNode [24]).children.length = rawChildLinearScanLimit ∧
      (letterNode [24, 26]).children.length = 26 ∧
      findChild (letterNode [24, 26]).children (letterNode [24, 26]).childLookup (bytes "z") =
        some 25 ∧
      childIndex (letterNode [24, 26]).children (bytes "z") = some 25 ∧
      let grown :=
        getOrCreateChild (letterNode [24]).children (letterNode [24]).childLookup (bytes "y")
      findChild grown.1 grown.2.1 (bytes "x") = some 23 := by
  obtain ⟨-, -, hfind, -⟩ :=
    childLookup_within smallDuck _ (@within_letterNode [24, 26] (by decide +kernel))
  obtain ⟨-, -, -, hgrown⟩ :=
    childLookup_within smallDuck _ (@within_letterNode [24] (by decide +kernel))
  refine ⟨by decide +kernel, by decide +kernel, ?_, ?_, ?_⟩
  · rw [(hfind _).2]
    decide +kernel
  · rw [← (hfind _).1, (hfind _).2]
    decide +kernel
  · exact hgrown _ _ (RawNode.eq_object (by decide +kernel)) _ _ _ (by decide +kernel)

/-! ## what a merge covers -/

/-- The tree has absorbed the value: merging it again would change nothing the
value's columns depend on. -/
inductive Covers (duck : Duck) : RawNode → Json → Prop where
  | null (node : RawNode) : Covers duck node .null
  | json (val : Json) : Covers duck .json val
  | scalar {kind : RawScalarKind} {val : Json} : val.isScalar = true →
      joinScalarKinds kind (sniffScalarKind duck val) = kind → Covers duck (.scalar kind) val
  | array {element : RawNode} {elements : List Json} :
      (∀ e ∈ elements, Covers duck element e) → Covers duck (.array element) (.arr elements)
  | object {children : List (Bytes × RawNode)} {childLookup : List (Bytes × Nat)}
      {members : List (Bytes × Json)} :
      (∀ m ∈ members, m.1 ∈ children.map Prod.fst) →
      (∀ m ∈ members, ∀ entry ∈ children, entry.1 = m.1 → Covers duck entry.2 m.2) →
      Covers duck (.object children childLookup) (.obj members)

theorem joinScalarKinds_absorb (a b : RawScalarKind) :
    joinScalarKinds (joinScalarKinds a b) b = joinScalarKinds a b := by
  cases a <;> cases b <;> rfl

theorem joinScalarKinds_mono {a k : RawScalarKind} (b : RawScalarKind)
    (h : joinScalarKinds a k = a) :
    joinScalarKinds (joinScalarKinds a b) k = joinScalarKinds a b := by
  cases a <;> cases k <;> cases b <;> first | rfl | exact absurd h (by decide)

theorem joinScalarKinds_varchar (k : RawScalarKind) : joinScalarKinds .varchar k = .varchar := by
  cases k <;> rfl

variable {duck : Duck}

/-- Every value has a kind. -/
theorem sniffScalarKind_ne_unset (val : Json) : sniffScalarKind duck val ≠ .unset := by
  cases val with
  | uint n => simp only [sniffScalarKind]; split <;> simp
  | str text =>
      simp only [sniffScalarKind, sniffString]
      repeat' split
      all_goals simp
  | _ => simp [sniffScalarKind]

theorem Covers.eq_null {val : Json} (h : Covers duck .unset val) : val = .null := by
  cases h; rfl

theorem covers_mergeScalar (node : RawNode) {val : Json} (hs : val.isScalar = true) :
    Covers duck (mergeScalar duck node val) val := by
  unfold mergeScalar
  split
  · exact .json _
  · exact .scalar hs (joinScalarKinds_varchar _)
  · refine .scalar hs ?_
    simp [joinScalarKinds]
  · exact .scalar hs (joinScalarKinds_absorb _ _)
  · exact .json _
  · exact .json _

theorem Covers.mergeScalar {node : RawNode} {u : Json} (h : Covers duck node u) (val : Json) :
    Covers duck (mergeScalar duck node val) u := by
  unfold RawDuck.mergeScalar
  split
  · exact .json _
  · exact h
  · rw [h.eq_null]; exact .null _
  · cases h with
    | null => exact .null _
    | scalar hs hk => exact .scalar hs (joinScalarKinds_mono _ hk)
  · exact .json _
  · exact .json _

/-- Covering an object survives updating a child by a step that keeps what the
child covers. -/
theorem Covers.updateChild {children : List (Bytes × RawNode)}
    {childLookup : List (Bytes × Nat)} {members : List (Bytes × Json)}
    (hwf : (RawNode.object children childLookup).WF)
    (h : Covers duck (.object children childLookup) (.obj members)) (i : Nat)
    {f : RawNode → RawNode}
    (hf : ∀ node u, node.WF → Covers duck node u → Covers duck (f node) u) :
    Covers duck (.object (updateChild children i f) childLookup) (.obj members) := by
  cases hwf with
  | object _ _ hchildren =>
  cases h with
  | object hnames hall =>
      refine .object (fun m hm => ?_) (fun m hm entry he hk => ?_)
      · rw [names_updateChild]; exact hnames m hm
      · rcases mem_updateChild he with hmem | ⟨child, hc, heq⟩
        · exact hall m hm entry hmem hk
        · have hmem := List.mem_of_getElem? hc
          rw [heq]
          exact hf _ _ (hchildren _ hmem) (hall m hm _ hmem hk)

/-- Covering an object survives the creation of a child. -/
theorem Covers.getOrCreateChild {children children' : List (Bytes × RawNode)}
    {childLookup childLookup' : List (Bytes × Nat)} {members : List (Bytes × Json)} {key : Bytes}
    {i : Nat} (hwf : (RawNode.object children childLookup).WF)
    (hg : getOrCreateChild children childLookup key = (children', childLookup', i))
    (h : Covers duck (.object children childLookup) (.obj members)) :
    Covers duck (.object children' childLookup') (.obj members) := by
  cases h with
  | object hnames hall =>
      rcases (getOrCreateChild_spec hwf hg).2.2 with rfl | ⟨hkey, rfl⟩
      · exact .object hnames hall
      · refine .object (fun m hm => ?_) (fun m hm entry he hk => ?_)
        · rw [List.map_append]
          exact List.mem_append_left _ (hnames m hm)
        · rcases List.mem_append.mp he with he | he
          · exact hall m hm entry he hk
          · rw [List.mem_singleton.mp he] at hk
            have hkm : key = m.1 := hk
            exact absurd (hkm ▸ hnames m hm) hkey

/-- The member loop keeps what the object covers when its merges do. -/
theorem Covers.mergeMembers {merged : List (Bytes × Json)} (depth : Nat)
    (ih : ∀ m ∈ merged, ∀ node u, node.WF → Covers duck node u →
      Covers duck (mergeValueInternal duck node m.2 depth) u)
    {children : List (Bytes × RawNode)} {childLookup : List (Bytes × Nat)}
    (hwf : (RawNode.object children childLookup).WF) {members : List (Bytes × Json)}
    (h : Covers duck (.object children childLookup) (.obj members)) :
    Covers duck (mergeMembers duck children childLookup merged depth) (.obj members) := by
  induction merged generalizing children childLookup with
  | nil => rw [RawDuck.mergeMembers]; exact h
  | cons m rest ihrest =>
      obtain ⟨key, val⟩ := m
      obtain ⟨⟨children', childLookup', i⟩, hg⟩ :
          ∃ r, RawDuck.getOrCreateChild children childLookup key = r := ⟨_, rfl⟩
      rw [mergeMembers_cons duck hg]
      have hwf' := (getOrCreateChild_spec hwf hg).1
      refine ihrest (fun m hm => ih m (List.mem_cons_of_mem _ hm))
        (hwf'.updateChild i fun node hn => hn.mergeValueInternal duck val depth) ?_
      exact (h.getOrCreateChild hwf hg).updateChild hwf' i (ih _ List.mem_cons_self)

theorem Covers.mergeElements {merged : List Json} (depth : Nat)
    (ih : ∀ e ∈ merged, ∀ node u, node.WF → Covers duck node u →
      Covers duck (mergeValueInternal duck node e depth) u)
    {element : RawNode} (hwf : element.WF) {u : Json} (h : Covers duck element u) :
    Covers duck (mergeElements duck element merged depth) u := by
  induction merged generalizing element with
  | nil => rw [RawDuck.mergeElements]; exact h
  | cons e rest ihrest =>
      rw [RawDuck.mergeElements]
      exact ihrest (fun e he => ih e (List.mem_cons_of_mem _ he))
        (hwf.mergeValueInternal duck e depth) (ih e List.mem_cons_self _ _ hwf h)

/-- **A merge keeps what the tree covers.** -/
theorem Covers.mergeValueInternal {node : RawNode} (hwf : node.WF) {u : Json}
    (h : Covers duck node u) (val : Json) (depth : Nat) :
    Covers duck (mergeValueInternal duck node val depth) u := by
  induction val using Json.induct generalizing node u depth with
  | null => unfold RawDuck.mergeValueInternal; split <;> [exact .json _; exact h]
  | obj merged ih =>
      unfold RawDuck.mergeValueInternal
      split
      · exact .json _
      · cases node with
        | unset => rw [h.eq_null]; exact .null _
        | object cs lk =>
            cases h with
            | null => exact .null _
            | object hn ha =>
                exact Covers.mergeMembers _ (fun m hm _ _ hw hc => ih m hm hw hc _) hwf
                  (.object hn ha)
        | _ => exact .json _
  | arr merged ih =>
      unfold RawDuck.mergeValueInternal
      split
      · exact .json _
      · cases node with
        | unset => rw [h.eq_null]; exact .null _
        | array el =>
            cases hwf with
            | array hel =>
            cases h with
            | null => exact .null _
            | array ha =>
                exact .array fun e he => Covers.mergeElements _
                  (fun e he _ _ hw hc => ih e he hw hc _) hel (ha e he)
        | _ => exact .json _
  | _ =>
      unfold RawDuck.mergeValueInternal
      split
      · exact .json _
      · exact h.mergeScalar _

/-- The member loop covers the object it merges. -/
theorem covers_mergeMembers {merged : List (Bytes × Json)} (depth : Nat)
    (ih : ∀ m ∈ merged, ∀ node : RawNode, node.WF →
      Covers duck (mergeValueInternal duck node m.2 depth) m.2)
    (done : List (Bytes × Json)) {children : List (Bytes × RawNode)}
    {childLookup : List (Bytes × Nat)} (hwf : (RawNode.object children childLookup).WF)
    (h : Covers duck (.object children childLookup) (.obj done)) :
    Covers duck (mergeMembers duck children childLookup merged depth) (.obj (done ++ merged)) := by
  induction merged generalizing children childLookup done with
  | nil => rw [mergeMembers, List.append_nil]; exact h
  | cons m rest ihrest =>
      obtain ⟨key, val⟩ := m
      obtain ⟨⟨children', childLookup', i⟩, hg⟩ :
          ∃ r, getOrCreateChild children childLookup key = r := ⟨_, rfl⟩
      obtain ⟨hwf', ⟨child, hchild⟩, -⟩ := getOrCreateChild_spec hwf hg
      have hstep : ∀ node u, node.WF → Covers duck node u →
          Covers duck (mergeValueInternal duck node val depth) u :=
        fun node u hn hc => hc.mergeValueInternal hn val depth
      have hdone := (h.getOrCreateChild hwf hg).updateChild hwf' i hstep
      rw [mergeMembers_cons duck hg, List.append_cons]
      refine ihrest (fun m hm => ih m (List.mem_cons_of_mem _ hm)) _
        (hwf'.updateChild i fun node hn => hn.mergeValueInternal duck val depth) ?_
      cases hdone with
      | object hnames hall =>
          refine .object (fun m hm => ?_) (fun m hm entry he hk => ?_)
          · rcases List.mem_append.mp hm with hm | hm
            · exact hnames m hm
            · rw [List.mem_singleton.mp hm, names_updateChild]
              exact List.mem_map.mpr ⟨_, List.mem_of_getElem? hchild, rfl⟩
          · rcases List.mem_append.mp hm with hm | hm
            · exact hall m hm entry he hk
            · -- the only child of that name is the one just merged into
              obtain rfl := List.mem_singleton.mp hm
              have hmem := List.mem_of_getElem? (getElem?_updateChild hchild
                fun node => mergeValueInternal duck node val depth)
              have hmw := hwf'.updateChild i fun node hn =>
                hn.mergeValueInternal duck val depth
              cases hmw with
              | object hnd _ _ =>
              cases hwf' with
              | object _ _ hall' =>
              rw [List.inj_on_of_nodup_map hnd he hmem hk]
              exact ih _ List.mem_cons_self child (hall' _ (List.mem_of_getElem? hchild))

theorem covers_mergeElements {merged : List Json} (depth : Nat)
    (ih : ∀ e ∈ merged, ∀ node : RawNode, node.WF →
      Covers duck (mergeValueInternal duck node e depth) e)
    {element : RawNode} (hwf : element.WF) :
    ∀ e ∈ merged, Covers duck (mergeElements duck element merged depth) e := by
  induction merged generalizing element with
  | nil => exact fun _ he => nomatch he
  | cons e rest ihrest =>
      intro u hu
      rw [mergeElements]
      have hwf' := hwf.mergeValueInternal duck e depth
      rcases List.mem_cons.mp hu with rfl | hu
      · exact (ih u List.mem_cons_self _ hwf).mergeElements depth
          (fun e _ _ _ hw hc => hc.mergeValueInternal hw e depth) hwf'
      · exact ihrest (fun e he => ih e (List.mem_cons_of_mem _ he)) hwf' u hu

/-- **A merge covers the value merged**, whatever the tree held. -/
theorem covers_mergeValueInternal {node : RawNode} (hwf : node.WF) (val : Json) (depth : Nat) :
    Covers duck (mergeValueInternal duck node val depth) val := by
  induction val using Json.induct generalizing node depth with
  | null => exact .null _
  | obj members ih =>
      unfold mergeValueInternal
      split
      · exact .json _
      · have hm : ∀ {cs lk}, (RawNode.object cs lk).WF →
            Covers duck (mergeMembers duck cs lk members (depth + 1)) (.obj members) :=
          fun hw => covers_mergeMembers _ (fun m hm _ hn => ih m hm hn _) [] hw
            (.object (fun _ h => nomatch h) (fun _ h => nomatch h))
        cases node with
        | unset => exact hm wf_object_nil
        | object cs lk => exact hm hwf
        | _ => exact .json _
  | arr elements ih =>
      unfold mergeValueInternal
      split
      · exact .json _
      · have he : ∀ {el : RawNode}, el.WF → ∀ e ∈ elements,
            Covers duck (mergeElements duck el elements (depth + 1)) e :=
          fun hw => covers_mergeElements _ (fun e he _ hn => ih e he hn _) hw
        cases node with
        | unset => exact .array (he .unset)
        | array el => cases hwf with | array hel => exact .array (he hel)
        | _ => exact .json _
  | _ =>
      unfold mergeValueInternal
      split
      · exact .json _
      · exact covers_mergeScalar _ rfl

/-- The inferred schema covers every row. -/
theorem covers_inferSchema (rows : List Json) {row : Json} (h : row ∈ rows) :
    Covers duck (inferSchema duck rows) row := by
  have hkeep : ∀ (rows : List Json) (node : RawNode) (u : Json), node.WF → Covers duck node u →
      Covers duck (rows.foldl (mergeValue duck) node) u := by
    intro rows
    induction rows with
    | nil => exact fun _ _ _ hc => hc
    | cons r rows ih =>
        exact fun node u hn hc => ih _ u (hn.mergeValueInternal duck r 0)
          (hc.mergeValueInternal hn r 0)
  have hall : ∀ (rows : List Json) (node : RawNode), node.WF → row ∈ rows →
      Covers duck (rows.foldl (mergeValue duck) node) row := by
    intro rows
    induction rows with
    | nil => exact fun _ _ hm => nomatch hm
    | cons r rows ih =>
        intro node hn hm
        have hn' := hn.mergeValueInternal duck r 0
        rcases List.mem_cons.mp hm with rfl | hm
        · exact hkeep rows _ _ hn' (covers_mergeValueInternal hn row 0)
        · exact ih _ hn' hm
  exact hall rows .unset .unset h

end RawDuck
