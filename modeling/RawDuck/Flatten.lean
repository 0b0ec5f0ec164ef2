import RawDuck.RawNode
import Mathlib.Data.Nat.Digits.Defs
import Mathlib.Data.List.Perm.Subperm

/-!
# RawDuck.Flatten

Flattening of the schema tree into columns: nested objects become dotted
column names, everything else a column of the type its node stands for.

A column points at the schema node it reads (`RawColumn.node`).  A pointer is
modelled as a `NodeRef`, the positions to take from the root, so that two
nodes are the same node exactly when their references are equal.

* `flattenInto` / `flattenSchema` — the traversal, the column limit and the
  renaming of colliding names;
* `ColumnAt` — what a flattened column says about the tree it was read from;
* `flattenSchema_names` — column names are pairwise distinct ignoring case;
* `flattenSchema_inferable` — every column has an inferable type.
-/

namespace RawDuck

open LogicalType

/-- `RAW_MAX_FLATTEN_DEPTH`. -/
def rawMaxFlattenDepth : Nat := 16

/-- `RAW_MAX_COLUMNS`. -/
def rawMaxColumns : Nat := 10000

/-- A `const RawNode *` into a schema tree: the child positions from the root. -/
abbrev NodeRef := List Nat

/-- `RawColumn`: the dotted name, the key segments to walk in each row, the
type and the schema node. -/
structure RawColumn where
  name : Bytes
  path : List Bytes
  type : LogicalType
  node : NodeRef
  deriving DecidableEq, Repr

/-- `ScalarKindToType`. -/
def scalarKindToType : RawScalarKind → LogicalType
  | .boolean => BOOLEAN
  | .bigint => BIGINT
  | .double => DOUBLE
  | .date => DATE
  | .timestamp => TIMESTAMP
  | .unset | .varchar => VARCHAR

/-- `NodeToType`. -/
def nodeToType : RawNode → LogicalType
  | .unset => VARCHAR
  | .scalar kind => scalarKindToType kind
  | .array .unset => .list VARCHAR
  | .array (.scalar kind) => .list (scalarKindToType kind)
  | .array (.array element) => .list (nodeToType (.array element))
  -- arrays of objects (or mixed) stay as a single JSON value
  | .array (.object _ _) | .array .json => JSON
  | .object _ _ | .json => JSON

/-- The child is flattened further rather than kept as a column. -/
def isFlattened (child : RawNode) (depth : Nat) : Bool :=
  match child with
  | .object (_ :: _) _ => depth < rawMaxFlattenDepth
  | _ => false

/-- The name of a child's column under a dotted name. -/
def columnName (dotted name : Bytes) : Bytes :=
  if dotted.isEmpty then name else dotted ++ bytes "." ++ name

mutual
/-- `FlattenInto`. -/
def flattenInto (node : RawNode) (dotted : Bytes) (path : List Bytes) (ref : NodeRef)
    (depth : Nat) : List RawColumn :=
  match node with
  | .object children _ => flattenChildren children 0 dotted path ref depth
  | .unset | .scalar _ | .array _ | .json => []

/-- The child loop of `FlattenInto`, from position `i` on. -/
def flattenChildren (children : List (Bytes × RawNode)) (i : Nat) (dotted : Bytes)
    (path : List Bytes) (ref : NodeRef) (depth : Nat) : List RawColumn :=
  match children with
  | [] => []
  | (name, child) :: rest =>
      (if isFlattened child depth then
        flattenInto child (columnName dotted name) (path ++ [name]) (ref ++ [i]) (depth + 1)
      else
        [{ name := columnName dotted name, path := path ++ [name], type := nodeToType child,
           node := ref ++ [i] }]) ++
      flattenChildren rest (i + 1) dotted path ref depth
end

/-- `to_string` of an `idx_t`. -/
def decimal (n : Nat) : Bytes :=
  if n = 0 then [48] else (Nat.digits 10 n).reverse.map fun d => 48 + d.toUInt8

/-- The `while (seen.count(column.name))` loop: tries the name, then the base
name with growing suffixes. -/
def renameColumn (seen : List Bytes) (base : Bytes) (name : Bytes) (suffix : Nat) :
    (fuel : Nat) → Bytes
  | 0 => name
  | fuel + 1 =>
      if ciContains seen name then
        renameColumn seen base (base ++ bytes "_" ++ decimal suffix) (suffix + 1) fuel
      else name

/-- The renaming loop of `FlattenSchema`.  One try more than there are names
seen is always enough (`renameColumn_fresh`). -/
def disambiguate (seen : List Bytes) : List RawColumn → List RawColumn
  | [] => []
  | column :: rest =>
      let name := renameColumn seen column.name column.name 1 (seen.length + 1)
      { column with name := name } :: disambiguate (name :: seen) rest

/-- The error of a payload that flattens to too many columns. -/
def tooManyColumns (n : Nat) : RawError :=
  let limit := rawMaxColumns
  { kind := .invalidInput
    message := bytes s!"RawDuck: payload flattens to {n} columns, exceeding the limit of {limit}; restructure the payload or reduce key cardinality" }

/-- `FlattenSchema`. -/
def flattenSchema (root : RawNode) (scalarRows : Bool) : Except RawError (List RawColumn) :=
  let valueColumn : List RawColumn :=
    [{ name := bytes "value", path := [], type := nodeToType root, node := [] }]
  match scalarRows, root with
  | _, .unset => .ok []
  | false, .object children childLookup =>
      let columns := flattenInto (.object children childLookup) [] [] [] 0
      if columns.length > rawMaxColumns then .error (tooManyColumns columns.length)
      else .ok (disambiguate [] columns)
  | _, _ => .ok valueColumn

/-! ## column types -/

theorem inferable_scalarKindToType (kind : RawScalarKind) : Inferable (scalarKindToType kind) := by
  cases kind <;> constructor

theorem inferable_nodeToType (node : RawNode) : Inferable (nodeToType node) := by
  induction node using RawNode.induct with
  | unset => exact .varchar
  | scalar kind => exact inferable_scalarKindToType kind
  | object => exact .json
  | json => exact .json
  | array element ih =>
      cases element with
      | unset => exact .list .varchar
      | scalar kind => exact .list (inferable_scalarKindToType kind)
      | array element => exact .list ih
      | object => exact .json
      | json => exact .json

/-! ## columns and the tree they were read from -/

/-- The node a reference leads to from a node. -/
def nodeAt : RawNode → NodeRef → Option RawNode
  | node, [] => some node
  | .object children _, i :: rel => children[i]?.bind fun entry => nodeAt entry.2 rel
  | _, _ :: _ => none

/-- The keys along a reference from a node. -/
def keysAt : RawNode → NodeRef → Option (List Bytes)
  | _, [] => some []
  | .object children _, i :: rel =>
      children[i]?.bind fun entry => (keysAt entry.2 rel).map (entry.1 :: ·)
  | _, _ :: _ => none

@[simp] theorem nodeAt_nil (node : RawNode) : nodeAt node [] = some node := by
  cases node <;> rfl

@[simp] theorem keysAt_nil (node : RawNode) : keysAt node [] = some [] := by
  cases node <;> rfl

theorem nodeAt_object_cons (children : List (Bytes × RawNode)) (childLookup : List (Bytes × Nat))
    (i : Nat) (rel : NodeRef) :
    nodeAt (.object children childLookup) (i :: rel) =
      children[i]?.bind fun entry => nodeAt entry.2 rel := rfl

theorem keysAt_object_cons (children : List (Bytes × RawNode)) (childLookup : List (Bytes × Nat))
    (i : Nat) (rel : NodeRef) :
    keysAt (.object children childLookup) (i :: rel) =
      children[i]?.bind fun entry => (keysAt entry.2 rel).map (entry.1 :: ·) := rfl

/-- A column flattened from under a node: its reference and its path extend
the node's by the same steps, and its type is that of the node it leads to. -/
structure ColumnAt (node : RawNode) (path : List Bytes) (ref : NodeRef) (column : RawColumn)
    (rel : NodeRef) (keys : List Bytes) : Prop where
  node_eq : column.node = ref ++ rel
  path_eq : column.path = path ++ keys
  keys_eq : keysAt node rel = some keys
  type_eq : (nodeAt node rel).map nodeToType = some column.type

theorem ColumnAt.child {children : List (Bytes × RawNode)} {childLookup : List (Bytes × Nat)}
    {i : Nat} {name : Bytes} {child : RawNode} (hi : children[i]? = some (name, child))
    {path : List Bytes} {ref : NodeRef} {column : RawColumn} {rel : NodeRef} {keys : List Bytes}
    (h : ColumnAt child (path ++ [name]) (ref ++ [i]) column rel keys) :
    ColumnAt (.object children childLookup) path ref column (i :: rel) (name :: keys) where
  node_eq := by rw [h.node_eq, ← List.append_cons]
  path_eq := by rw [h.path_eq, ← List.append_cons]
  keys_eq := by simp [keysAt_object_cons, hi, h.keys_eq]
  type_eq := by rw [nodeAt_object_cons, hi]; exact h.type_eq

theorem flattenChildren_cons (name : Bytes) (child : RawNode) (rest : List (Bytes × RawNode))
    (i : Nat) (dotted : Bytes) (path : List Bytes) (ref : NodeRef) (depth : Nat) :
    flattenChildren ((name, child) :: rest) i dotted path ref depth =
      (if isFlattened child depth then
        flattenInto child (columnName dotted name) (path ++ [name]) (ref ++ [i]) (depth + 1)
      else
        [{ name := columnName dotted name, path := path ++ [name], type := nodeToType child,
           node := ref ++ [i] }]) ++
      flattenChildren rest (i + 1) dotted path ref depth := by
  rw [flattenChildren]

/-- A kept column stands at the child itself. -/
theorem columnAt_leaf (dotted : Bytes) (path : List Bytes) (ref : NodeRef) (child : RawNode) :
    ColumnAt child path ref
      { name := dotted, path := path, type := nodeToType child, node := ref } [] [] where
  node_eq := (List.append_nil _).symm
  path_eq := (List.append_nil _).symm
  keys_eq := keysAt_nil _
  type_eq := by simp

theorem columnAt_flattenChildren {full : List (Bytes × RawNode)} (childLookup : List (Bytes × Nat))
    {dotted : Bytes} {path : List Bytes} {ref : NodeRef} {depth : Nat} {column : RawColumn}
    (ih : ∀ entry ∈ full, ∀ dotted path ref depth,
      ∀ column ∈ flattenInto entry.2 dotted path ref depth,
        ∃ i rel keys, ColumnAt entry.2 path ref column (i :: rel) keys)
    {children : List (Bytes × RawNode)} {i : Nat} (hfull : full.drop i = children)
    (h : column ∈ flattenChildren children i dotted path ref depth) :
    ∃ j rel keys, i ≤ j ∧ ColumnAt (.object full childLookup) path ref column (j :: rel) keys := by
  induction children generalizing i with
  | nil => simp [flattenChildren] at h
  | cons entry rest ihrest =>
      obtain ⟨name, child⟩ := entry
      have hi : full[i]? = some (name, child) := by
        rw [← List.head?_drop, hfull]; rfl
      rw [flattenChildren_cons] at h
      rcases List.mem_append.mp h with h | h
      · split at h
        · obtain ⟨j, rel, keys, hc⟩ := ih _ (List.mem_of_getElem? hi) _ _ _ _ _ h
          exact ⟨i, j :: rel, name :: keys, Nat.le_refl _, hc.child hi⟩
        · obtain rfl := List.mem_singleton.mp h
          exact ⟨i, [], [name], Nat.le_refl _, (columnAt_leaf _ _ _ child).child hi⟩
      · have hrest : full.drop (i + 1) = rest := by
          rw [← List.tail_drop, hfull]; rfl
        obtain ⟨j, rel, keys, hj, hc⟩ := ihrest hrest h
        exact ⟨j, rel, keys, Nat.le_of_succ_le hj, hc⟩

/-- Every column `flattenInto` makes stands strictly below the node. -/
theorem columnAt_flattenInto {node : RawNode} {dotted : Bytes} {path : List Bytes} {ref : NodeRef}
    {depth : Nat} {column : RawColumn} (h : column ∈ flattenInto node dotted path ref depth) :
    ∃ i rel keys, ColumnAt node path ref column (i :: rel) keys := by
  induction node using RawNode.induct generalizing dotted path ref depth column with
  | object children childLookup ih =>
      rw [flattenInto] at h
      obtain ⟨j, rel, keys, -, hc⟩ := columnAt_flattenChildren
        childLookup (fun entry he _ _ _ _ _ hc => ih entry he hc) List.drop_zero h
      exact ⟨j, rel, keys, hc⟩
  | _ => simp [flattenInto] at h

/-! ## columns stand at different nodes -/

/-- Neither column's node lies at or below the other's. -/
def Separate (a b : RawColumn) : Prop := ¬ a.node <+: b.node ∧ ¬ b.node <+: a.node

theorem separate_of_ne {a b : RawColumn} {ref : NodeRef} {i j : Nat} {r r' : NodeRef}
    (ha : a.node = ref ++ i :: r) (hb : b.node = ref ++ j :: r') (hij : i ≠ j) : Separate a b := by
  constructor
  · rw [ha, hb, List.prefix_append_right_inj]
    rintro ⟨t, ht⟩
    exact hij (List.cons.inj ht).1
  · rw [ha, hb, List.prefix_append_right_inj]
    rintro ⟨t, ht⟩
    exact hij (List.cons.inj ht).1.symm

theorem separate_flattenChildren {full : List (Bytes × RawNode)}
    {dotted : Bytes} {path : List Bytes} {ref : NodeRef} {depth : Nat}
    (ih : ∀ entry ∈ full, ∀ dotted path ref depth,
      (flattenInto entry.2 dotted path ref depth).Pairwise Separate)
    {children : List (Bytes × RawNode)} {i : Nat} (hfull : full.drop i = children) :
    (flattenChildren children i dotted path ref depth).Pairwise Separate := by
  induction children generalizing i with
  | nil => simp [flattenChildren]
  | cons entry rest ihrest =>
      obtain ⟨name, child⟩ := entry
      have hi : full[i]? = some (name, child) := by
        rw [← List.head?_drop, hfull]; rfl
      have hrest : full.drop (i + 1) = rest := by
        rw [← List.tail_drop, hfull]; rfl
      rw [flattenChildren_cons, List.pairwise_append]
      refine ⟨?_, ihrest hrest, fun a ha b hb => ?_⟩
      · split
        · exact ih _ (List.mem_of_getElem? hi) _ _ _ _
        · exact List.pairwise_singleton _ _
      · obtain ⟨j, rel, keys, hj, hb⟩ := columnAt_flattenChildren []
          (fun entry _ _ _ _ _ _ hc => columnAt_flattenInto hc) hrest hb
        have ha' : ∃ r, a.node = ref ++ i :: r := by
          split at ha
          · obtain ⟨k, r, ks, hc⟩ := columnAt_flattenInto ha
            exact ⟨k :: r, by rw [hc.node_eq, ← List.append_cons]⟩
          · rw [List.mem_singleton.mp ha]; exact ⟨[], rfl⟩
        obtain ⟨r, ha⟩ := ha'
        exact separate_of_ne ha hb.node_eq (by omega)

/-- No column of a schema stands at or below the node of another. -/
theorem separate_flattenInto (node : RawNode) (dotted : Bytes) (path : List Bytes) (ref : NodeRef)
    (depth : Nat) : (flattenInto node dotted path ref depth).Pairwise Separate := by
  induction node using RawNode.induct generalizing dotted path ref depth with
  | object children childLookup ih =>
      rw [flattenInto]
      exact separate_flattenChildren (fun entry he _ _ _ _ => ih entry he _ _ _ _) List.drop_zero
  | _ => simp [flattenInto]

/-! ## the renaming -/

/-- The names the renaming loop tries, in order. -/
def candidate (base : Bytes) : Nat → Bytes
  | 0 => base
  | n + 1 => base ++ bytes "_" ++ decimal (n + 1)

theorem renameColumn_candidate (seen : List Bytes) (base : Bytes) (n fuel : Nat) :
    renameColumn seen base (candidate base n) (n + 1) (fuel + 1) =
      if ciContains seen (candidate base n) then
        renameColumn seen base (candidate base (n + 1)) (n + 2) fuel
      else candidate base n := rfl

/-- If one of the names tried is free, the loop ends at a free name. -/
theorem renameColumn_not_seen {seen : List Bytes} {base : Bytes} {n fuel : Nat}
    (h : ∃ k < fuel, ciContains seen (candidate base (n + k)) = false) :
    ciContains seen (renameColumn seen base (candidate base n) (n + 1) fuel) = false := by
  induction fuel generalizing n with
  | zero => obtain ⟨k, hk, -⟩ := h; omega
  | succ fuel ih =>
      rw [renameColumn_candidate]
      split
      · next hseen =>
        obtain ⟨k, hk, hfree⟩ := h
        match k with
        | 0 => rw [Nat.add_zero, hseen] at hfree; contradiction
        | k + 1 => exact ih ⟨k, by omega, by rwa [Nat.add_right_comm n 1 k, Nat.add_assoc]⟩
      · next hfree => exact Bool.eq_false_iff.mpr hfree

theorem lower_digit {d : Nat} (h : d < 10) :
    characterToLower (48 + d.toUInt8) = 48 + d.toUInt8 := by
  revert d; decide

theorem digit_recover {d : Nat} (h : d < 10) : ((48 + d.toUInt8) - 48).toNat = d := by
  revert d; decide

theorem lower_decimal (n : Nat) : lower (decimal n) = decimal n := by
  unfold decimal
  split
  · rfl
  · rw [lower, List.map_map]
    refine List.map_congr_left fun d hd => lower_digit ?_
    exact Nat.digits_lt_base (by omega) (List.mem_reverse.mp hd)

theorem decimal_injective {m n : Nat} (h : decimal (m + 1) = decimal (n + 1)) : m = n := by
  have recover : ∀ k : Nat, ((decimal (k + 1)).map fun c => (c - 48).toNat).reverse =
      Nat.digits 10 (k + 1) := by
    intro k
    rw [decimal, if_neg (Nat.succ_ne_zero k), List.map_map, ← List.map_reverse,
      List.reverse_reverse]
    conv_rhs => rw [← List.map_id (Nat.digits 10 (k + 1))]
    exact List.map_congr_left fun d hd => digit_recover (Nat.digits_lt_base (by omega) hd)
  have hd : Nat.digits 10 (m + 1) = Nat.digits 10 (n + 1) := by
    rw [← recover m, ← recover n, h]
  exact Nat.succ.inj (Nat.digits_inj_iff.mp hd)

theorem length_lower (s : Bytes) : (lower s).length = s.length := by simp [lower]

/-- The names the loop tries differ pairwise, also ignoring case. -/
theorem lower_candidate_injective {base : Bytes} {m n : Nat}
    (h : lower (candidate base m) = lower (candidate base n)) : m = n := by
  have longer : ∀ k, lower (candidate base 0) ≠ lower (candidate base (k + 1)) := by
    intro k hk
    have hl := congrArg List.length hk
    have hus : (bytes "_").length = 1 := rfl
    simp only [length_lower, candidate, List.length_append, hus] at hl
    omega
  match m, n with
  | 0, 0 => rfl
  | 0, n + 1 => exact absurd h (longer n)
  | m + 1, 0 => exact absurd h.symm (longer m)
  | m + 1, n + 1 =>
      simp only [candidate, lower, List.map_append, List.append_cancel_left_eq] at h
      rw [← lower, ← lower, lower_decimal, lower_decimal] at h
      rw [decimal_injective h]

/-- At most as many candidates are taken as there are names seen. -/
theorem taken_le_length {seen : List Bytes} {base : Bytes} {k : Nat}
    (htaken : ∀ j < k, ciContains seen (candidate base j) = true) : k ≤ seen.length := by
  -- with more candidates than names, two of them would have to be one name
  let tried := (List.range k).map fun j => lower (candidate base j)
  have hnd : tried.Nodup :=
    List.nodup_range.map fun _ _ h => lower_candidate_injective h
  have hsub : tried ⊆ seen.map lower := by
    intro name hname
    obtain ⟨j, hj, rfl⟩ := List.mem_map.mp hname
    obtain ⟨s, hs, heq⟩ := ciContains_iff.mp (htaken j (List.mem_range.mp hj))
    exact List.mem_map.mpr ⟨s, hs, heq⟩
  have hle := (List.subperm_of_subset hnd hsub).length_le
  simpa only [tried, List.length_map, List.length_range] using hle

/-- One try more than there are names seen always finds a free name. -/
theorem renameColumn_fresh (seen : List Bytes) (base : Bytes) :
    ciContains seen (renameColumn seen base base 1 (seen.length + 1)) = false := by
  apply renameColumn_not_seen (n := 0)
  by_contra hall
  have hseen : ∀ k < seen.length + 1, ciContains seen (candidate base k) = true := by
    intro k hk
    rw [← Bool.not_eq_false]
    exact fun hfree => hall ⟨k, hk, by rwa [Nat.zero_add]⟩
  have hle := taken_le_length hseen
  omega

/-- The renaming loop changes names only. -/
theorem disambiguate_forget (seen : List Bytes) (columns : List RawColumn) :
    (disambiguate seen columns).map (fun c => (c.path, c.type, c.node)) =
      columns.map fun c => (c.path, c.type, c.node) := by
  induction columns generalizing seen with
  | nil => rfl
  | cons column rest ih => simp [disambiguate, ih]

theorem disambiguate_not_seen (seen : List Bytes) (columns : List RawColumn) :
    ∀ c ∈ disambiguate seen columns, ciContains seen c.name = false := by
  induction columns generalizing seen with
  | nil => simp [disambiguate]
  | cons column rest ih =>
      intro c hc
      simp only [disambiguate] at hc
      rcases List.mem_cons.mp hc with rfl | hc
      · exact renameColumn_fresh _ _
      · have h := ih _ c hc
        rw [ciContains, List.any_cons, Bool.or_eq_false_iff] at h
        exact h.2

/-- Names that are pairwise distinct, ignoring case. -/
def CiDistinct (columns : List RawColumn) : Prop :=
  (columns.map fun c => lower c.name).Nodup

theorem ciDistinct_disambiguate (seen : List Bytes) (columns : List RawColumn) :
    CiDistinct (disambiguate seen columns) := by
  induction columns generalizing seen with
  | nil => simp [disambiguate, CiDistinct]
  | cons column rest ih =>
      simp only [disambiguate, CiDistinct, List.map_cons, List.nodup_cons]
      refine ⟨fun hmem => ?_, ih _⟩
      obtain ⟨c, hc, heq⟩ := List.mem_map.mp hmem
      have h := disambiguate_not_seen _ _ c hc
      rw [ciContains, List.any_cons, Bool.or_eq_false_iff] at h
      exact absurd heq.symm (by simpa using h.1)

/-! ## what `flattenSchema` returns -/

variable {root : RawNode} {scalarRows : Bool} {columns : List RawColumn}

/-- The three results of `flattenSchema`: no column, the one `value` column, or
the renamed columns of the flattened tree. -/
theorem flattenSchema_cases (h : flattenSchema root scalarRows = .ok columns) :
    (root = .unset ∧ columns = []) ∨
    columns = [{ name := bytes "value", path := [], type := nodeToType root, node := [] }] ∨
    (∃ children childLookup, scalarRows = false ∧ root = .object children childLookup ∧
      columns = disambiguate [] (flattenInto root [] [] [] 0)) := by
  unfold flattenSchema at h
  split at h
  · exact .inl ⟨rfl, (Except.ok.inj h).symm⟩
  · dsimp only at h
    split at h
    · contradiction
    · exact .inr (.inr ⟨_, _, rfl, rfl, (Except.ok.inj h).symm⟩)
  · exact .inr (.inl (Except.ok.inj h).symm)

/-- Column names are pairwise distinct ignoring case. -/
theorem flattenSchema_names (h : flattenSchema root scalarRows = .ok columns) :
    CiDistinct columns := by
  rcases flattenSchema_cases h with ⟨-, rfl⟩ | rfl | ⟨cs, lk, -, -, rfl⟩
  · simp [CiDistinct]
  · simp [CiDistinct]
  · exact ciDistinct_disambiguate _ _

/-- A renamed column is a flattened column but for its name. -/
theorem mem_disambiguate {seen : List Bytes} {columns : List RawColumn} {c : RawColumn}
    (h : c ∈ disambiguate seen columns) :
    ∃ c' ∈ columns, c'.path = c.path ∧ c'.type = c.type ∧ c'.node = c.node := by
  have hmem : (c.path, c.type, c.node) ∈ columns.map fun c => (c.path, c.type, c.node) := by
    rw [← disambiguate_forget seen]
    exact List.mem_map.mpr ⟨c, h, rfl⟩
  obtain ⟨c', hc', heq⟩ := List.mem_map.mp hmem
  simp only [Prod.mk.injEq] at heq
  exact ⟨c', hc', heq⟩

/-- Every column says where in the tree it stands. -/
theorem columnAt_flattenSchema (h : flattenSchema root scalarRows = .ok columns) {c : RawColumn}
    (hc : c ∈ columns) : ∃ keys, ColumnAt root [] [] c c.node keys := by
  rcases flattenSchema_cases h with ⟨-, rfl⟩ | rfl | ⟨cs, lk, -, -, rfl⟩
  · exact nomatch hc
  · obtain rfl := List.mem_singleton.mp hc
    exact ⟨[], columnAt_leaf _ _ _ _⟩
  · obtain ⟨c', hc', hp, ht, hn⟩ := mem_disambiguate hc
    obtain ⟨i, rel, keys, hat⟩ := columnAt_flattenInto hc'
    have hrel : c.node = i :: rel := hn ▸ hat.node_eq
    exact ⟨keys, ⟨rfl, hp ▸ hat.path_eq, hrel ▸ hat.keys_eq, by rw [hrel, ← ht]; exact hat.type_eq⟩⟩

theorem flattenSchema_inferable (h : flattenSchema root scalarRows = .ok columns) {c : RawColumn}
    (hc : c ∈ columns) : Inferable c.type := by
  obtain ⟨keys, hat⟩ := columnAt_flattenSchema h hc
  obtain ⟨node, -, ht⟩ := Option.map_eq_some_iff.mp hat.type_eq
  exact ht ▸ inferable_nodeToType node

/-- Two columns never stand at one node, nor one below the other. -/
theorem separate_flattenSchema (h : flattenSchema root scalarRows = .ok columns) :
    columns.Pairwise Separate := by
  rcases flattenSchema_cases h with ⟨-, rfl⟩ | rfl | ⟨cs, lk, -, -, rfl⟩
  · exact .nil
  · exact List.pairwise_singleton _ _
  · have hsep := separate_flattenInto root [] [] [] 0
    have hnodes : (disambiguate [] (flattenInto root [] [] [] 0)).map RawColumn.node =
        (flattenInto root [] [] [] 0).map RawColumn.node := by
      have := congrArg (List.map fun t => t.2.2)
        (disambiguate_forget [] (flattenInto root [] [] [] 0))
      simpa [List.map_map, Function.comp_def] using this
    have hpair : ∀ cols : List RawColumn, cols.Pairwise Separate ↔
        (cols.map RawColumn.node).Pairwise fun a b => ¬ a <+: b ∧ ¬ b <+: a :=
      fun cols => by rw [List.pairwise_map]; rfl
    rw [hpair, hnodes, ← hpair]
    exact hsep

end RawDuck
