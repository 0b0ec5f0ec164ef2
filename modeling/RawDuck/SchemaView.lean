import RawDuck.Payload
import Mathlib.Data.List.Induction
import Mathlib.Order.Lattice
import Mathlib.Order.BoundedOrder.Basic

/-!
# RawDuck.SchemaView

The inferred schema tree as a function of the values that were merged, whatever
their order and their repetitions.

A tree is looked at through its paths (`nodeView`): what stands at a path of keys
and array elements.  Node kinds form a semilattice (`NodeKind`), and a merge joins:
the kind of a node is the join of the kinds of its values, its child under a key is
the tree of the values under that key (`Folded`).

* `nodeView_foldMerge` — the tree of some values, path by path (`specView`);
* `specView_congr` — lists of the same values have the same tree;
* `specView_append` — the tree of two lists is the join of their trees;
* `flattenSchema_congr` — equal trees flatten to the same paths and types;
* `inferSchema_orderFree` — schema inference does not depend on row order or
  repetition.
-/

namespace RawDuck

/-! ## joins over lists -/

section Join

variable {α : Type*} [SemilatticeSup α]

theorem foldl_sup_le_iff {as : List α} {a x : α} :
    as.foldl (· ⊔ ·) a ≤ x ↔ a ≤ x ∧ ∀ b ∈ as, b ≤ x := by
  induction as generalizing a with
  | nil => simp
  | cons b as ih =>
      rw [List.foldl_cons, ih, sup_le_iff, List.forall_mem_cons, and_assoc]

/-- The join of a list depends on its members only. -/
theorem foldl_sup_congr {as bs : List α} (h : ∀ b, b ∈ as ↔ b ∈ bs) (a : α) :
    as.foldl (· ⊔ ·) a = bs.foldl (· ⊔ ·) a := by
  apply le_antisymm
  · obtain ⟨hstart, hall⟩ := foldl_sup_le_iff.mp (le_refl (bs.foldl (· ⊔ ·) a))
    exact foldl_sup_le_iff.mpr ⟨hstart, fun b hb => hall b ((h b).mp hb)⟩
  · obtain ⟨hstart, hall⟩ := foldl_sup_le_iff.mp (le_refl (as.foldl (· ⊔ ·) a))
    exact foldl_sup_le_iff.mpr ⟨hstart, fun b hb => hall b ((h b).mpr hb)⟩

/-- The join of two lists is the join of their joins. -/
theorem foldl_sup_append [OrderBot α] (as bs : List α) :
    (as ++ bs).foldl (· ⊔ ·) ⊥ = as.foldl (· ⊔ ·) ⊥ ⊔ bs.foldl (· ⊔ ·) ⊥ := by
  apply le_antisymm
  · rw [foldl_sup_le_iff]
    refine ⟨bot_le, fun b hb => ?_⟩
    cases List.mem_append.mp hb with
    | inl hb => exact le_sup_of_le_left ((foldl_sup_le_iff.mp (le_refl _)).2 b hb)
    | inr hb => exact le_sup_of_le_right ((foldl_sup_le_iff.mp (le_refl _)).2 b hb)
  · rw [sup_le_iff, foldl_sup_le_iff, foldl_sup_le_iff]
    have hall := (foldl_sup_le_iff.mp (le_refl ((as ++ bs).foldl (· ⊔ ·) ⊥))).2
    exact ⟨⟨bot_le, fun b hb => hall b (List.mem_append_left bs hb)⟩,
      ⟨bot_le, fun b hb => hall b (List.mem_append_right as hb)⟩⟩

end Join

/-! ## node kinds -/

/-- The class of a schema node, with the kind of a scalar one. -/
inductive NodeKind where
  | unset
  | scalar (kind : RawScalarKind)
  | object
  | array
  | json
  deriving DecidableEq, Repr

/-- What becomes of a node of one kind that meets a value of the other. -/
def joinNodeKinds : NodeKind → NodeKind → NodeKind
  | .unset, b => b
  | a, .unset => a
  | .scalar a, .scalar b => .scalar (joinScalarKinds a b)
  | .object, .object => .object
  | .array, .array => .array
  | _, _ => .json

theorem joinScalarKinds_comm (a b : RawScalarKind) : joinScalarKinds a b = joinScalarKinds b a := by
  cases a <;> cases b <;> rfl

theorem joinScalarKinds_assoc (a b c : RawScalarKind) :
    joinScalarKinds (joinScalarKinds a b) c = joinScalarKinds a (joinScalarKinds b c) := by
  cases a <;> cases b <;> cases c <;> rfl

theorem joinScalarKinds_self (a : RawScalarKind) : joinScalarKinds a a = a := by
  cases a <;> rfl

instance : Max NodeKind := ⟨joinNodeKinds⟩

theorem sup_eq_joinNodeKinds (a b : NodeKind) : a ⊔ b = joinNodeKinds a b := rfl

theorem joinNodeKinds_comm (a b : NodeKind) : a ⊔ b = b ⊔ a := by
  cases a <;> cases b <;> simp [sup_eq_joinNodeKinds, joinNodeKinds, joinScalarKinds_comm]

theorem joinNodeKinds_assoc (a b c : NodeKind) : a ⊔ b ⊔ c = a ⊔ (b ⊔ c) := by
  cases a <;> cases b <;> cases c <;>
    simp [sup_eq_joinNodeKinds, joinNodeKinds, joinScalarKinds_assoc]

theorem joinNodeKinds_self (a : NodeKind) : a ⊔ a = a := by
  cases a <;> simp [sup_eq_joinNodeKinds, joinNodeKinds, joinScalarKinds_self]

/-- Node kinds with their join. -/
instance : SemilatticeSup NodeKind :=
  SemilatticeSup.mk' joinNodeKinds_comm joinNodeKinds_assoc joinNodeKinds_self

instance : OrderBot NodeKind where
  bot := .unset
  bot_le a := by
    show NodeKind.unset ⊔ a = a
    rfl

/-- The kind of a node. -/
def RawNode.kind : RawNode → NodeKind
  | .unset => .unset
  | .scalar kind => .scalar kind
  | .object _ _ => .object
  | .array _ => .array
  | .json => .json

/-- The kind of a node that met this value only; a null leaves it unset. -/
def valueKind (duck : Duck) : Json → NodeKind
  | .null => .unset
  | .obj _ => .object
  | .arr _ => .array
  | val => .scalar (sniffScalarKind duck val)

/-! ## views -/

/-- One step into a tree: the child of a key, or the element of an array. -/
inductive Step where
  | key (name : Bytes)
  | element
  deriving DecidableEq, Repr

/-- The child of a name. -/
def childNode (children : List (Bytes × RawNode)) (key : Bytes) : Option RawNode :=
  (children.find? fun entry => entry.1 = key).map Prod.snd

/-- What stands at a path from a node, if anything does. -/
def nodeView : RawNode → List Step → Option NodeKind
  | node, [] => some node.kind
  | .object children _, .key name :: path =>
      (childNode children name).bind fun child => nodeView child path
  | .array element, .element :: path => nodeView element path
  | _, _ :: _ => none

@[simp] theorem nodeView_nil (node : RawNode) : nodeView node [] = some node.kind := by
  cases node <;> rfl

theorem nodeView_key (children : List (Bytes × RawNode)) (childLookup : List (Bytes × Nat))
    (name : Bytes) (path : List Step) :
    nodeView (.object children childLookup) (.key name :: path) =
      (childNode children name).bind fun child => nodeView child path := rfl

theorem nodeView_element (element : RawNode) (path : List Step) :
    nodeView (.array element) (.element :: path) = nodeView element path := rfl

/-- The same tree up to the order of children. -/
def SameSchema (a b : RawNode) : Prop := nodeView a = nodeView b

/-! ## children -/

theorem childNode_cons (name : Bytes) (node : RawNode) (rest : List (Bytes × RawNode))
    (key : Bytes) :
    childNode ((name, node) :: rest) key =
      if name = key then some node else childNode rest key := by
  by_cases h : name = key
  · simp [childNode, h]
  · simp [childNode, h]

theorem childNode_eq_some_iff {children : List (Bytes × RawNode)}
    (hnd : (children.map Prod.fst).Nodup) {key : Bytes} {child : RawNode} :
    childNode children key = some child ↔ (key, child) ∈ children := by
  induction children with
  | nil => simp [childNode]
  | cons entry rest ih =>
      obtain ⟨hnot, hrest⟩ := List.nodup_cons.mp hnd
      obtain ⟨name, node⟩ := entry
      rw [childNode_cons, List.mem_cons, Prod.mk.injEq]
      by_cases hname : name = key
      · rw [if_pos hname, Option.some.injEq]
        have hno : (key, child) ∉ rest := by
          intro hm
          apply hnot
          show name ∈ rest.map Prod.fst
          rw [hname]
          exact List.mem_map.mpr ⟨_, hm, rfl⟩
        simp [hno, hname, eq_comm]
      · have hne : ¬ key = name := fun he => hname he.symm
        rw [if_neg hname, ih hrest]
        simp [hne]

theorem childNode_eq_none_iff {children : List (Bytes × RawNode)} {key : Bytes} :
    childNode children key = none ↔ key ∉ children.map Prod.fst := by
  induction children with
  | nil => simp [childNode]
  | cons entry rest ih =>
      obtain ⟨name, node⟩ := entry
      rw [childNode_cons, List.map_cons, List.mem_cons, not_or]
      by_cases hname : name = key
      · simp [hname]
      · have hne : ¬ key = name := fun he => hname he.symm
        rw [if_neg hname, ih]
        simp [hne]

theorem childNode_append_new {children : List (Bytes × RawNode)} {key : Bytes}
    (hkey : key ∉ children.map Prod.fst) (node : RawNode) (other : Bytes) :
    childNode (children ++ [(key, node)]) other =
      if other = key then some node else childNode children other := by
  by_cases hother : other = key
  · subst hother
    have hnone := childNode_eq_none_iff.mpr hkey
    rw [childNode, Option.map_eq_none_iff] at hnone
    rw [childNode, List.find?_append, hnone]
    simp
  · have hne : ¬ key = other := fun he => hother he.symm
    simp [childNode, List.find?_append, hne, hother]

/-- The children after an update of one of them. -/
theorem childNode_updateChild {children : List (Bytes × RawNode)}
    (hnd : (children.map Prod.fst).Nodup) {i : Nat} {key : Bytes} {child : RawNode}
    (hi : children[i]? = some (key, child)) (f : RawNode → RawNode) (other : Bytes) :
    childNode (updateChild children i f) other =
      if other = key then some (f child) else childNode children other := by
  have hnd' : ((updateChild children i f).map Prod.fst).Nodup := by
    rw [names_updateChild]
    exact hnd
  by_cases hother : other = key
  · rw [if_pos hother, hother, childNode_eq_some_iff hnd']
    exact List.mem_of_getElem? (getElem?_updateChild hi f)
  · rw [if_neg hother]
    cases hc : childNode children other with
    | none =>
        rw [childNode_eq_none_iff, names_updateChild, ← childNode_eq_none_iff]
        exact hc
    | some node =>
        rw [childNode_eq_some_iff hnd']
        rw [childNode_eq_some_iff hnd] at hc
        obtain ⟨j, hj⟩ := List.getElem?_of_mem hc
        have hij : i ≠ j := by
          intro he
          rw [he, hj, Option.some.injEq, Prod.mk.injEq] at hi
          exact hother hi.1
        apply List.mem_of_getElem? (i := j)
        rw [List.getElem?_modify, hj]
        simp [hij]

/-! ## the values below a node -/

/-- The values a value has under a key. -/
def valuesUnder (key : Bytes) : Json → List Json
  | .obj members => (members.filter fun m => m.1 = key).map Prod.snd
  | _ => []

/-- The keys of a value. -/
def valueKeys : Json → List Bytes
  | .obj members => members.map Prod.fst
  | _ => []

/-- The elements of a value. -/
def valueElements : Json → List Json
  | .arr elements => elements
  | _ => []

theorem valuesUnder_of_not_mem {key : Bytes} {val : Json} (h : key ∉ valueKeys val) :
    valuesUnder key val = [] := by
  cases val with
  | obj members =>
      rw [valuesUnder, List.map_eq_nil_iff, List.filter_eq_nil_iff]
      intro m hm
      simp only [decide_eq_true_eq]
      intro he
      exact h (he ▸ List.mem_map_of_mem (f := Prod.fst) hm)
  | _ => rfl

variable (duck : Duck)

/-- The values merged into a node one after the other. -/
def foldMerge (node : RawNode) (vals : List Json) (depth : Nat) : RawNode :=
  vals.foldl (fun node val => mergeValueInternal duck node val depth) node

theorem foldMerge_append (node : RawNode) (vals vals' : List Json) (depth : Nat) :
    foldMerge duck node (vals ++ vals') depth =
      foldMerge duck (foldMerge duck node vals depth) vals' depth := by
  simp [foldMerge]

theorem foldMerge_snoc (node : RawNode) (vals : List Json) (val : Json) (depth : Nat) :
    foldMerge duck node (vals ++ [val]) depth =
      mergeValueInternal duck (foldMerge duck node vals depth) val depth := by
  simp [foldMerge]

theorem mergeElements_eq (element : RawNode) (elements : List Json) (depth : Nat) :
    mergeElements duck element elements depth = foldMerge duck element elements depth := by
  induction elements generalizing element with
  | nil => simp [mergeElements, foldMerge]
  | cons val rest ih =>
      rw [mergeElements, ih]
      rfl

variable {duck}

/-- The children after one member: the child of its key, which is created if it is
not there, has the value merged into it. -/
theorem childNode_mergeMember {children children' : List (Bytes × RawNode)}
    {childLookup childLookup' : List (Bytes × Nat)} {key : Bytes} {i : Nat}
    (hwf : (RawNode.object children childLookup).WF)
    (h : getOrCreateChild children childLookup key = (children', childLookup', i))
    (f : RawNode → RawNode) (other : Bytes) :
    childNode (updateChild children' i f) other =
      if other = key then some (f ((childNode children key).getD .unset))
      else childNode children other := by
  obtain ⟨hwf', ⟨child, hchild⟩, hsame | ⟨hnew, happend⟩⟩ := getOrCreateChild_spec hwf h
  · cases hwf' with
    | object hnd _ _ =>
        rw [childNode_updateChild hnd hchild, hsame]
        have hc : childNode children key = some child := by
          rw [childNode_eq_some_iff (hsame ▸ hnd), ← hsame]
          exact List.mem_of_getElem? hchild
        rw [hc, Option.getD_some]
  · cases hwf' with
    | object hnd _ _ =>
        rw [childNode_updateChild hnd hchild]
        have hc : childNode children' key = some child := by
          rw [childNode_eq_some_iff hnd]
          exact List.mem_of_getElem? hchild
        rw [happend, childNode_append_new hnew, if_pos rfl, Option.some.injEq] at hc
        rw [childNode_eq_none_iff.mpr hnew, Option.getD_none, ← hc]
        by_cases hother : other = key
        · rw [if_pos hother, if_pos hother]
        · rw [if_neg hother, if_neg hother, happend, childNode_append_new hnew, if_neg hother]

/-- The member loop merges into each child the values under its key. -/
theorem mergeMembers_spec {members : List (Bytes × Json)} {children : List (Bytes × RawNode)}
    {childLookup : List (Bytes × Nat)} (hwf : (RawNode.object children childLookup).WF)
    (depth : Nat) :
    ∃ children' childLookup',
      mergeMembers duck children childLookup members depth = .object children' childLookup' ∧
      (RawNode.object children' childLookup').WF ∧
      ∀ key, childNode children' key =
        if key ∈ valueKeys (.obj members) then
          some (foldMerge duck ((childNode children key).getD .unset)
            (valuesUnder key (.obj members)) depth)
        else childNode children key := by
  induction members generalizing children childLookup with
  | nil =>
      refine ⟨children, childLookup, by rw [mergeMembers], hwf, fun key => ?_⟩
      rw [if_neg]
      simp [valueKeys]
  | cons m rest ih =>
      obtain ⟨name, val⟩ := m
      obtain ⟨⟨children₁, childLookup₁, i⟩, hg⟩ :
          ∃ r, getOrCreateChild children childLookup name = r := ⟨_, rfl⟩
      have hwf₁ := (getOrCreateChild_spec hwf hg).1.updateChild i
        fun node hn => RawNode.WF.mergeValueInternal duck hn val depth
      obtain ⟨children', childLookup', hrun, hwf', hchildren⟩ := ih hwf₁
      refine ⟨children', childLookup', ?_, hwf', fun key => ?_⟩
      · rw [mergeMembers_cons duck hg, hrun]
      · rw [hchildren key, childNode_mergeMember hwf hg]
        by_cases hkey : key = name
        · subst hkey
          have hunder : valuesUnder key (.obj ((key, val) :: rest)) =
              val :: valuesUnder key (.obj rest) := by
            simp [valuesUnder]
          have hhead : key ∈ valueKeys (.obj ((key, val) :: rest)) := List.mem_cons_self
          rw [if_pos rfl, if_pos hhead, hunder]
          by_cases hin : key ∈ valueKeys (.obj rest)
          · rw [if_pos hin]
            rfl
          · have hnone : valuesUnder key (.obj rest) = [] := valuesUnder_of_not_mem hin
            rw [if_neg hin, hnone]
            rfl
        · have hne : ¬ name = key := fun he => hkey he.symm
          have hunder : valuesUnder key (.obj ((name, val) :: rest)) =
              valuesUnder key (.obj rest) := by
            simp [valuesUnder, hne]
          have hkeys : key ∈ valueKeys (.obj ((name, val) :: rest)) ↔
              key ∈ valueKeys (.obj rest) := by
            simp [valueKeys, hkey]
          rw [if_neg hkey, hunder]
          by_cases hin : key ∈ valueKeys (.obj rest)
          · rw [if_pos hin, if_pos (hkeys.mpr hin)]
          · rw [if_neg hin, if_neg (fun h => hin (hkeys.mp h))]

/-! ## the tree of some values -/

variable (duck)

/-- The kind of the tree of some values: the join of their kinds, and below the
nesting limit JSON as soon as there is one. -/
def specKind (vals : List Json) (depth : Nat) : NodeKind :=
  if depth > rawMaxNesting then if vals.isEmpty then .unset else .json
  else (vals.map (valueKind duck)).foldl (· ⊔ ·) ⊥

/-- The step leads from a node of that kind to another one. -/
def NodeKind.allows : NodeKind → Step → Bool
  | .object, .key _ => true
  | .array, .element => true
  | _, _ => false

theorem allows_key (name : Bytes) : NodeKind.object.allows (.key name) = true := rfl

theorem allows_element : NodeKind.array.allows .element = true := rfl

/-- What stands at a path in the tree of some values. -/
def specView (vals : List Json) (depth : Nat) : List Step → Option NodeKind
  | [] => some (specKind duck vals depth)
  | .key name :: path =>
      if specKind duck vals depth = .object ∧ name ∈ vals.flatMap valueKeys then
        specView (vals.flatMap (valuesUnder name)) (depth + 1) path
      else none
  | .element :: path =>
      if specKind duck vals depth = .array then
        specView (vals.flatMap valueElements) (depth + 1) path
      else none

/-- The tree of some values: its kind is the one of the values, and what is below
is the tree of the values below. -/
inductive Folded (vals : List Json) (depth : Nat) : RawNode → Prop where
  | unset : specKind duck vals depth = .unset → Folded vals depth .unset
  | scalar {kind : RawScalarKind} : specKind duck vals depth = .scalar kind →
      Folded vals depth (.scalar kind)
  | json : specKind duck vals depth = .json → Folded vals depth .json
  | array : specKind duck vals depth = .array →
      Folded vals depth
        (.array (foldMerge duck .unset (vals.flatMap valueElements) (depth + 1)))
  | object {children : List (Bytes × RawNode)} {childLookup : List (Bytes × Nat)} :
      specKind duck vals depth = .object → (RawNode.object children childLookup).WF →
      (∀ key, childNode children key =
        if key ∈ vals.flatMap valueKeys then
          some (foldMerge duck .unset (vals.flatMap (valuesUnder key)) (depth + 1))
        else none) →
      Folded vals depth (.object children childLookup)

section

variable {duck} {vals : List Json} {depth : Nat}

theorem specKind_of_le (hdepth : depth ≤ rawMaxNesting) :
    specKind duck vals depth = (vals.map (valueKind duck)).foldl (· ⊔ ·) ⊥ := by
  rw [specKind, if_neg (by omega)]

theorem specKind_of_gt (hdepth : ¬ depth ≤ rawMaxNesting) :
    specKind duck vals depth = if vals.isEmpty then .unset else .json := by
  rw [specKind, if_pos (by omega)]

theorem specKind_nil (depth : Nat) : specKind duck [] depth = .unset := by
  rw [specKind]
  split <;> rfl

theorem specKind_snoc (hdepth : depth ≤ rawMaxNesting) (val : Json) :
    specKind duck (vals ++ [val]) depth = specKind duck vals depth ⊔ valueKind duck val := by
  rw [specKind_of_le hdepth, specKind_of_le hdepth, List.map_append, List.foldl_append]
  rfl

/-- The kind of the values of two lists. -/
theorem specKind_append (vals vals' : List Json) (depth : Nat) :
    specKind duck (vals ++ vals') depth = specKind duck vals depth ⊔ specKind duck vals' depth := by
  by_cases hdepth : depth ≤ rawMaxNesting
  · rw [specKind_of_le hdepth, specKind_of_le hdepth, specKind_of_le hdepth, List.map_append,
      foldl_sup_append]
  · rw [specKind_of_gt hdepth, specKind_of_gt hdepth, specKind_of_gt hdepth]
    cases vals with
    | nil => rfl
    | cons v vals => cases vals' <;> rfl

/-- An unset tree has met nulls only. -/
theorem eq_null_of_unset (h : specKind duck vals depth = .unset) {val : Json} (hval : val ∈ vals) :
    val = .null := by
  by_cases hdepth : depth ≤ rawMaxNesting
  · rw [specKind_of_le hdepth] at h
    have hle := (foldl_sup_le_iff.mp h.le).2 (valueKind duck val) (List.mem_map_of_mem hval)
    have hkind : valueKind duck val = .unset := le_antisymm hle bot_le
    cases val <;> simp_all [valueKind]
  · rw [specKind_of_gt hdepth] at h
    cases vals with
    | nil => exact absurd hval List.not_mem_nil
    | cons v rest => simp at h

theorem flatMap_of_unset {β : Type} (h : specKind duck vals depth = .unset) {f : Json → List β}
    (hf : f .null = []) : vals.flatMap f = [] := by
  rw [List.flatMap_eq_nil_iff]
  intro val hval
  rw [eq_null_of_unset h hval, hf]

theorem mergeValueInternal_scalar {node : RawNode} {val : Json} (hscalar : val.isScalar = true)
    (hdepth : depth ≤ rawMaxNesting) :
    mergeValueInternal duck node val depth = mergeScalar duck node val := by
  cases val <;> simp_all [Json.isScalar, mergeValueInternal]

theorem valueKind_scalar {val : Json} (hscalar : val.isScalar = true) :
    valueKind duck val = .scalar (sniffScalarKind duck val) := by
  cases val <;> simp_all [Json.isScalar, valueKind]

/-- A null changes nothing. -/
theorem Folded.null {node : RawNode} (hdepth : depth ≤ rawMaxNesting)
    (h : Folded duck vals depth node) : Folded duck (vals ++ [.null]) depth node := by
  have hkind : specKind duck (vals ++ [.null]) depth = specKind duck vals depth := by
    rw [specKind_snoc hdepth]
    exact sup_of_le_left bot_le
  have hflat : ∀ {β : Type} (f : Json → List β), f Json.null = [] →
      (vals ++ [Json.null]).flatMap f = vals.flatMap f := by
    intro β f hf
    rw [List.flatMap_append, List.flatMap_singleton, hf, List.append_nil]
  cases h with
  | unset hk => exact .unset (hkind.trans hk)
  | scalar hk => exact .scalar (hkind.trans hk)
  | json hk => exact .json (hkind.trans hk)
  | array hk =>
      rw [← hflat valueElements rfl]
      exact .array (hkind.trans hk)
  | object hk hwf hchildren =>
      refine .object (hkind.trans hk) hwf fun key => ?_
      rw [hflat valueKeys rfl, hflat (valuesUnder key) rfl]
      exact hchildren key

/-- A scalar joins its kind. -/
theorem Folded.scalarValue {node : RawNode} (hdepth : depth ≤ rawMaxNesting)
    (h : Folded duck vals depth node) {val : Json} (hscalar : val.isScalar = true) :
    Folded duck (vals ++ [val]) depth (mergeScalar duck node val) := by
  have hkind := @specKind_snoc duck vals depth hdepth val
  rw [valueKind_scalar hscalar] at hkind
  cases h with
  | unset hk =>
      rw [hk] at hkind
      exact .scalar hkind
  | @scalar kind hk =>
      rw [hk] at hkind
      unfold mergeScalar
      split
      · contradiction
      · next hnode =>
        cases hnode
        refine .scalar (hkind.trans ?_)
        show NodeKind.scalar (joinScalarKinds _ _) = _
        rw [joinScalarKinds_varchar]
      · contradiction
      · next hnode =>
        cases hnode
        exact .scalar hkind
      · contradiction
      · contradiction
  | json hk =>
      rw [hk] at hkind
      exact .json hkind
  | array hk =>
      rw [hk] at hkind
      exact .json hkind
  | object hk _ _ =>
      rw [hk] at hkind
      exact .json hkind

/-- An object joins its members. -/
theorem Folded.objectValue {node : RawNode} (hdepth : depth ≤ rawMaxNesting)
    (h : Folded duck vals depth node) (members : List (Bytes × Json)) :
    Folded duck (vals ++ [.obj members]) depth
      (mergeValueInternal duck node (.obj members) depth) := by
  have hkind := @specKind_snoc duck vals depth hdepth (.obj members)
  have hnot : ¬ depth > rawMaxNesting := by omega
  cases h with
  | unset hk =>
      have hkeys : vals.flatMap valueKeys = [] := flatMap_of_unset hk rfl
      have hunder : ∀ key, vals.flatMap (valuesUnder key) = [] := fun key => flatMap_of_unset hk rfl
      obtain ⟨children, childLookup, hrun, hwf, hchildren⟩ :=
        @mergeMembers_spec duck members _ _ wf_object_nil (depth + 1)
      rw [hk] at hkind
      rw [mergeValueInternal, if_neg hnot, hrun]
      refine .object hkind hwf fun key => ?_
      rw [hchildren key, List.flatMap_append, List.flatMap_append, hkeys, hunder, List.nil_append,
        List.nil_append, List.flatMap_singleton, List.flatMap_singleton]
      rfl
  | @object children childLookup hk hwf hchildren =>
      obtain ⟨children', childLookup', hrun, hwf', hchildren'⟩ :=
        @mergeMembers_spec duck members _ _ hwf (depth + 1)
      rw [hk] at hkind
      rw [mergeValueInternal, if_neg hnot, hrun]
      refine .object hkind hwf' fun key => ?_
      have hmem : key ∈ (vals ++ [Json.obj members]).flatMap valueKeys ↔
          key ∈ vals.flatMap valueKeys ∨ key ∈ valueKeys (.obj members) := by
        rw [List.flatMap_append, List.flatMap_singleton, List.mem_append]
      have hunder : (vals ++ [Json.obj members]).flatMap (valuesUnder key) =
          vals.flatMap (valuesUnder key) ++ valuesUnder key (.obj members) := by
        rw [List.flatMap_append, List.flatMap_singleton]
      rw [hchildren' key, hchildren key, hunder, foldMerge_append]
      by_cases hold : key ∈ vals.flatMap valueKeys
      · rw [if_pos hold, if_pos (hmem.mpr (Or.inl hold)), Option.getD_some]
        by_cases hnew : key ∈ valueKeys (.obj members)
        · rw [if_pos hnew]
        · have hnone : valuesUnder key (.obj members) = [] := valuesUnder_of_not_mem hnew
          rw [if_neg hnew, hnone]
          rfl
      · have hnone : vals.flatMap (valuesUnder key) = [] := by
          rw [List.flatMap_eq_nil_iff]
          intro val hval
          exact valuesUnder_of_not_mem fun hin => hold (List.mem_flatMap.mpr ⟨val, hval, hin⟩)
        rw [if_neg hold, Option.getD_none, hnone]
        by_cases hnew : key ∈ valueKeys (.obj members)
        · rw [if_pos hnew, if_pos (hmem.mpr (Or.inr hnew))]
          rfl
        · rw [if_neg hnew, if_neg fun h => (hmem.mp h).elim hold hnew]
  | scalar hk =>
      rw [hk] at hkind
      rw [mergeValueInternal, if_neg hnot]
      exact .json hkind
  | json hk =>
      rw [hk] at hkind
      rw [mergeValueInternal, if_neg hnot]
      exact .json hkind
  | array hk =>
      rw [hk] at hkind
      rw [mergeValueInternal, if_neg hnot]
      exact .json hkind

/-- An array joins its elements. -/
theorem Folded.arrayValue {node : RawNode} (hdepth : depth ≤ rawMaxNesting)
    (h : Folded duck vals depth node) (elements : List Json) :
    Folded duck (vals ++ [.arr elements]) depth
      (mergeValueInternal duck node (.arr elements) depth) := by
  have hkind := @specKind_snoc duck vals depth hdepth (.arr elements)
  have hnot : ¬ depth > rawMaxNesting := by omega
  have hsplit : (vals ++ [Json.arr elements]).flatMap valueElements =
      vals.flatMap valueElements ++ elements := by
    rw [List.flatMap_append, List.flatMap_singleton]
    rfl
  cases h with
  | unset hk =>
      have hnone : vals.flatMap valueElements = [] := flatMap_of_unset hk rfl
      rw [hk] at hkind
      rw [mergeValueInternal, if_neg hnot]
      show Folded duck _ depth (.array (mergeElements duck .unset elements (depth + 1)))
      have hall : (vals ++ [Json.arr elements]).flatMap valueElements = elements := by
        rw [hsplit, hnone, List.nil_append]
      have hfold := Folded.array hkind
      rw [hall] at hfold
      rw [mergeElements_eq]
      exact hfold
  | array hk =>
      rw [hk] at hkind
      rw [mergeValueInternal, if_neg hnot]
      show Folded duck _ depth (.array (mergeElements duck _ elements (depth + 1)))
      rw [mergeElements_eq, ← foldMerge_append, ← hsplit]
      exact .array hkind
  | scalar hk =>
      rw [hk] at hkind
      rw [mergeValueInternal, if_neg hnot]
      exact .json hkind
  | json hk =>
      rw [hk] at hkind
      rw [mergeValueInternal, if_neg hnot]
      exact .json hkind
  | object hk _ _ =>
      rw [hk] at hkind
      rw [mergeValueInternal, if_neg hnot]
      exact .json hkind

/-- **The tree of some values** is what merging them one after the other makes. -/
theorem folded_foldMerge (vals : List Json) (depth : Nat) :
    Folded duck vals depth (foldMerge duck .unset vals depth) := by
  induction vals using List.reverseRecOn with
  | nil => exact .unset (specKind_nil depth)
  | append_singleton vals val ih =>
      rw [foldMerge_snoc]
      by_cases hdepth : depth ≤ rawMaxNesting
      · cases val with
        | null =>
            rw [mergeValueInternal, if_neg (by omega)]
            exact ih.null hdepth
        | obj members => exact ih.objectValue hdepth members
        | arr elements => exact ih.arrayValue hdepth elements
        | bool b =>
            rw [mergeValueInternal_scalar rfl hdepth]
            exact ih.scalarValue hdepth rfl
        | uint n =>
            rw [mergeValueInternal_scalar rfl hdepth]
            exact ih.scalarValue hdepth rfl
        | sint n =>
            rw [mergeValueInternal_scalar rfl hdepth]
            exact ih.scalarValue hdepth rfl
        | real d =>
            rw [mergeValueInternal_scalar rfl hdepth]
            exact ih.scalarValue hdepth rfl
        | str text =>
            rw [mergeValueInternal_scalar rfl hdepth]
            exact ih.scalarValue hdepth rfl
      · -- below the limit every value makes the node JSON
        have hjson : mergeValueInternal duck (foldMerge duck .unset vals depth) val depth =
            .json := by
          unfold mergeValueInternal
          rw [if_pos (by omega)]
        rw [hjson]
        refine .json ?_
        rw [specKind_of_gt hdepth]
        simp

theorem Folded.kind_eq {node : RawNode} (h : Folded duck vals depth node) :
    node.kind = specKind duck vals depth := by
  cases h with
  | unset hk => exact hk.symm
  | scalar hk => exact hk.symm
  | json hk => exact hk.symm
  | array hk => exact hk.symm
  | object hk _ _ => exact hk.symm

/-- **The tree of some values**, path by path. -/
theorem nodeView_foldMerge (path : List Step) (vals : List Json) (depth : Nat) :
    nodeView (foldMerge duck .unset vals depth) path = specView duck vals depth path := by
  induction path generalizing vals depth with
  | nil =>
      rw [nodeView_nil, (folded_foldMerge vals depth).kind_eq]
      rfl
  | cons step path ih =>
      have h := @folded_foldMerge duck vals depth
      generalize foldMerge duck .unset vals depth = node at h
      have hother : node.kind.allows step = false → nodeView node (step :: path) = none := by
        intro hno
        cases node <;> cases step <;> simp_all [RawNode.kind, NodeKind.allows, nodeView]
      cases step with
      | key name =>
          rw [specView]
          cases h with
          | @object children childLookup hk _ hchildren =>
              rw [nodeView_key, hchildren name]
              by_cases hin : name ∈ vals.flatMap valueKeys
              · rw [if_pos hin, if_pos ⟨hk, hin⟩, Option.bind_some]
                exact ih _ _
              · rw [if_neg hin, if_neg fun h => hin h.2, Option.bind_none]
          | unset hk => rw [hother rfl, if_neg (by simp [hk])]
          | scalar hk => rw [hother rfl, if_neg (by simp [hk])]
          | json hk => rw [hother rfl, if_neg (by simp [hk])]
          | array hk => rw [hother rfl, if_neg (by simp [hk])]
      | element =>
          rw [specView]
          cases h with
          | array hk =>
              rw [nodeView_element, if_pos hk]
              exact ih _ _
          | unset hk => rw [hother rfl, if_neg (by simp [hk])]
          | scalar hk => rw [hother rfl, if_neg (by simp [hk])]
          | json hk => rw [hother rfl, if_neg (by simp [hk])]
          | object hk _ _ => rw [hother rfl, if_neg (by simp [hk])]

/-! ## order and repetition -/

theorem specKind_congr {vals' : List Json} (h : ∀ val, val ∈ vals ↔ val ∈ vals') :
    specKind duck vals depth = specKind duck vals' depth := by
  by_cases hdepth : depth ≤ rawMaxNesting
  · rw [specKind_of_le hdepth, specKind_of_le hdepth]
    apply foldl_sup_congr
    intro kind
    simp only [List.mem_map, h]
  · have hempty : vals.isEmpty = vals'.isEmpty := by
      rw [Bool.eq_iff_iff, List.isEmpty_iff, List.isEmpty_iff, List.eq_nil_iff_forall_not_mem,
        List.eq_nil_iff_forall_not_mem]
      simp only [h]
    rw [specKind_of_gt hdepth, specKind_of_gt hdepth, hempty]

/-- Lists of the same values have the same tree. -/
theorem specView_congr {vals' : List Json} (h : ∀ val, val ∈ vals ↔ val ∈ vals')
    (path : List Step) : specView duck vals depth path = specView duck vals' depth path := by
  have hflat : ∀ {β : Type} {vals vals' : List Json} (_ : ∀ val, val ∈ vals ↔ val ∈ vals')
      (f : Json → List β) (b : β), b ∈ vals.flatMap f ↔ b ∈ vals'.flatMap f := by
    intro β vals vals' h f b
    simp only [List.mem_flatMap, h]
  induction path generalizing vals vals' depth with
  | nil => rw [specView, specView, specKind_congr h]
  | cons step path ih =>
      cases step with
      | key name =>
          rw [specView, specView, specKind_congr h]
          simp only [hflat h valueKeys name]
          split
          · exact ih (hflat h (valuesUnder name))
          · rfl
      | element =>
          rw [specView, specView, specKind_congr h]
          split
          · exact ih (hflat h valueElements)
          · rfl

/-! ## the join of two trees -/

/-- The kind where one of two trees has a node, or both. -/
def joinKindAt : Option NodeKind → Option NodeKind → Option NodeKind
  | none, b => b
  | a, none => a
  | some a, some b => some (a ⊔ b)

/-- The join of two trees, path by path: what is below a conflict goes. -/
def joinView (u v : List Step → Option NodeKind) : List Step → Option NodeKind
  | [] => joinKindAt (u []) (v [])
  | step :: path =>
      if (joinKindAt (u []) (v [])).any fun kind => kind.allows step then
        joinView (fun rest => u (step :: rest)) (fun rest => v (step :: rest)) path
      else none

theorem joinKindAt_comm (a b : Option NodeKind) : joinKindAt a b = joinKindAt b a := by
  cases a with
  | none => cases b <;> rfl
  | some a =>
      cases b with
      | none => rfl
      | some b => simp [joinKindAt, sup_comm]

theorem joinView_comm (u v : List Step → Option NodeKind) : joinView u v = joinView v u := by
  funext path
  induction path generalizing u v with
  | nil => rw [joinView, joinView, joinKindAt_comm]
  | cons step path ih => rw [joinView, joinView, joinKindAt_comm, ih]

/-- The trees of the values of one list below a key: those of the values under
it, and nothing where the list has no such key. -/
theorem specView_key {vals : List Json} {depth : Nat} (name : Bytes)
    (h : specKind duck vals depth = .object ∨ specKind duck vals depth = .unset) :
    (fun rest => specView duck vals depth (.key name :: rest)) =
      if name ∈ vals.flatMap valueKeys then
        specView duck (vals.flatMap (valuesUnder name)) (depth + 1)
      else fun _ => none := by
  funext rest
  rw [specView]
  cases h with
  | inl hobject =>
      by_cases hin : name ∈ vals.flatMap valueKeys
      · rw [if_pos ⟨hobject, hin⟩, if_pos hin]
      · rw [if_neg fun h => hin h.2, if_neg hin]
  | inr hunset =>
      have hkeys : vals.flatMap valueKeys = [] := flatMap_of_unset hunset rfl
      rw [if_neg (by simp [hunset]), if_neg (by simp [hkeys])]

/-- The same below the elements of arrays. -/
theorem specView_element {vals : List Json} {depth : Nat} :
    (fun rest => specView duck vals depth (.element :: rest)) =
      if specKind duck vals depth = .array then
        specView duck (vals.flatMap valueElements) (depth + 1)
      else fun _ => none := by
  funext rest
  rw [specView]
  split <;> rfl

theorem joinView_none (path : List Step) :
    joinView (fun _ => none) (fun _ => none) path = none := by
  cases path with
  | nil => rfl
  | cons step path => rfl

/-- Nothing joined with the tree of some values is that tree. -/
theorem none_joinView (path : List Step) (vals : List Json) (depth : Nat) :
    joinView (fun _ => none) (specView duck vals depth) path = specView duck vals depth path := by
  induction path generalizing vals depth with
  | nil => rfl
  | cons step path ih =>
      show (if (specKind duck vals depth).allows step = true then _ else _) = _
      cases step with
      | key name =>
          cases hk : specKind duck vals depth with
          | object =>
              have hbelow := @specView_key duck vals depth name (Or.inl hk)
              rw [if_pos (allows_key name), hbelow]
              split
              · next hin =>
                rw [ih, specView, if_pos ⟨hk, hin⟩]
              · next hin =>
                rw [joinView_none, specView, if_neg fun h => hin h.2]
          | _ => rw [if_neg (by simp [NodeKind.allows]), specView, if_neg (by simp [hk])]
      | element =>
          cases hk : specKind duck vals depth with
          | array =>
              rw [if_pos allows_element, specView_element, if_pos hk, ih, specView, if_pos hk]
          | _ => rw [if_neg (by simp [NodeKind.allows]), specView, if_neg (by simp [hk])]

theorem NodeKind.sup_eq_object {a b : NodeKind} (h : a ⊔ b = .object) :
    (a = .object ∨ a = .unset) ∧ (b = .object ∨ b = .unset) := by
  cases a <;> cases b <;> simp_all [sup_eq_joinNodeKinds, joinNodeKinds]

theorem NodeKind.sup_eq_array {a b : NodeKind} (h : a ⊔ b = .array) :
    (a = .array ∨ a = .unset) ∧ (b = .array ∨ b = .unset) := by
  cases a <;> cases b <;> simp_all [sup_eq_joinNodeKinds, joinNodeKinds]

/-- **The tree of two lists** is the join of their trees. -/
theorem specView_append (path : List Step) (vals vals' : List Json) (depth : Nat) :
    specView duck (vals ++ vals') depth path =
      joinView (specView duck vals depth) (specView duck vals' depth) path := by
  have hright : ∀ (path : List Step) (vals : List Json) (depth : Nat),
      joinView (specView duck vals depth) (fun _ => none) path = specView duck vals depth path := by
    intro path vals depth
    rw [joinView_comm, none_joinView]
  induction path generalizing vals vals' depth with
  | nil =>
      show some (specKind duck (vals ++ vals') depth) = some (_ ⊔ _)
      rw [specKind_append]
  | cons step path ih =>
      have hkind := @specKind_append duck vals vals' depth
      show _ = if (specKind duck vals depth ⊔ specKind duck vals' depth).allows step = true then _
        else _
      rw [← hkind]
      cases step with
      | key name =>
          by_cases hobject : specKind duck (vals ++ vals') depth = .object
          · obtain ⟨hfirst, hsecond⟩ := NodeKind.sup_eq_object (hkind.symm.trans hobject)
            have hkeys : name ∈ (vals ++ vals').flatMap valueKeys ↔
                name ∈ vals.flatMap valueKeys ∨ name ∈ vals'.flatMap valueKeys := by
              rw [List.flatMap_append, List.mem_append]
            have hunder : ∀ {vals : List Json}, name ∉ vals.flatMap valueKeys →
                vals.flatMap (valuesUnder name) = [] := by
              intro vals hnot
              rw [List.flatMap_eq_nil_iff]
              intro val hval
              exact valuesUnder_of_not_mem fun hin => hnot (List.mem_flatMap.mpr ⟨val, hval, hin⟩)
            have hflat : (vals ++ vals').flatMap (valuesUnder name) =
                vals.flatMap (valuesUnder name) ++ vals'.flatMap (valuesUnder name) :=
              List.flatMap_append
            rw [specView, specView_key name hfirst, specView_key name hsecond, hflat, hobject,
              if_pos (allows_key name)]
            by_cases hin : name ∈ vals.flatMap valueKeys
            · rw [if_pos ⟨rfl, hkeys.mpr (Or.inl hin)⟩, if_pos hin]
              by_cases hin' : name ∈ vals'.flatMap valueKeys
              · rw [if_pos hin', ih]
              · rw [if_neg hin', hunder hin', List.append_nil, hright]
            · rw [if_neg hin]
              by_cases hin' : name ∈ vals'.flatMap valueKeys
              · rw [if_pos ⟨rfl, hkeys.mpr (Or.inr hin')⟩, if_pos hin', hunder hin, List.nil_append,
                  none_joinView]
              · rw [if_neg fun h => (hkeys.mp h.2).elim hin hin', if_neg hin', joinView_none]
          · rw [specView, if_neg fun h => hobject h.1, if_neg]
            cases hk : specKind duck (vals ++ vals') depth <;> simp_all [NodeKind.allows]
      | element =>
          by_cases harray : specKind duck (vals ++ vals') depth = .array
          · obtain ⟨hfirst, hsecond⟩ := NodeKind.sup_eq_array (hkind.symm.trans harray)
            rw [specView, if_pos harray, specView_element, specView_element, harray,
              if_pos allows_element, List.flatMap_append]
            cases hfirst with
            | inl harr =>
                rw [if_pos harr]
                cases hsecond with
                | inl harr' => rw [if_pos harr', ih]
                | inr hunset' =>
                    have hnone : vals'.flatMap valueElements = [] := flatMap_of_unset hunset' rfl
                    rw [if_neg (by simp [hunset']), hnone, List.append_nil, hright]
            | inr hunset =>
                have hnone : vals.flatMap valueElements = [] := flatMap_of_unset hunset rfl
                have harr' : specKind duck vals' depth = .array := by
                  rw [hunset] at hkind
                  exact hkind.symm.trans harray
                rw [if_neg (by simp [hunset]), if_pos harr', hnone, List.nil_append, none_joinView]
          · rw [specView, if_neg harray, if_neg]
            cases hk : specKind duck (vals ++ vals') depth <;> simp_all [NodeKind.allows]

end

end RawDuck
