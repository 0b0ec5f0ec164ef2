import RawDuck.Payload
import RawDuck.Append

/-!
# RawDuck.Naming

Which column a JSON path is stored in, over several payloads.

`flattenSchema` names a column after its path and renames it when the name is
taken, ignoring case, by an earlier column of the same payload.  Tables match
columns by name, so a path keeps its column over a sequence of payloads only
if every payload renames it alike:

* `dottedName` — the name before renaming; every flattened column has it
  (`flattenInto_name`);
* `disambiguate_names` / `disambiguate_eq_map` — the renaming takes the first
  suffix that is free, and is determined by which suffixes are;
* `flattenSchema_renaming` — what the renaming loop makes of one payload;
* `ObjectPayload.slots_eq` — the slot of a column in a row is the last value at
  its path;
* `PathsKeepColumns` — equal paths have equal names, different paths different
  names, over all payloads;
* `NamesSettled` — one choice of a suffix for each path that every payload's
  order of paths leads to; `pathsKeepColumns_iff` says that such a choice is
  what it takes.
-/

namespace RawDuck

open Fallible

/-! ## dotted names -/

/-- The name `FlattenInto` gives the column at a key path. -/
def dottedName (path : List Bytes) : Bytes := path.foldl columnName []

theorem dottedName_snoc (path : List Bytes) (name : Bytes) :
    dottedName (path ++ [name]) = columnName (dottedName path) name := by
  simp [dottedName]

theorem flattenChildren_name {full : List (Bytes × RawNode)}
    (ih : ∀ entry ∈ full, ∀ (path : List Bytes) (ref : NodeRef) (depth : Nat),
      ∀ c ∈ flattenInto entry.2 (dottedName path) path ref depth, c.name = dottedName c.path)
    {children : List (Bytes × RawNode)} (hsub : children ⊆ full) {i : Nat} {path : List Bytes}
    {ref : NodeRef} {depth : Nat} {c : RawColumn}
    (h : c ∈ flattenChildren children i (dottedName path) path ref depth) :
    c.name = dottedName c.path := by
  induction children generalizing i with
  | nil => simp [flattenChildren] at h
  | cons entry rest ihrest =>
      obtain ⟨name, child⟩ := entry
      rw [flattenChildren_cons, ← dottedName_snoc] at h
      rcases List.mem_append.mp h with h | h
      · split at h
        · exact ih _ (hsub List.mem_cons_self) _ _ _ _ h
        · rw [List.mem_singleton.mp h]
      · exact ihrest (fun entry he => hsub (List.mem_cons_of_mem _ he)) h

/-- A flattened column is named after its path. -/
theorem flattenInto_name {node : RawNode} {path : List Bytes} {ref : NodeRef} {depth : Nat}
    {c : RawColumn} (h : c ∈ flattenInto node (dottedName path) path ref depth) :
    c.name = dottedName c.path := by
  induction node using RawNode.induct generalizing path ref depth c with
  | object children childLookup ih =>
      rw [flattenInto] at h
      exact flattenChildren_name (fun entry he _ _ _ _ hc => ih entry he hc)
        (List.Subset.refl _) h
  | _ => simp [flattenInto] at h

/-! ## paths of one payload -/

/-- In a tree with distinct names the keys determine the node. -/
theorem keysAt_injective {node : RawNode} (hwf : node.WF) {rel rel' : NodeRef}
    {keys : List Bytes} (h : keysAt node rel = some keys) (h' : keysAt node rel' = some keys) :
    rel = rel' := by
  induction rel generalizing node rel' keys with
  | nil =>
      simp only [keysAt_nil, Option.some.injEq] at h
      subst h
      exact (keysAt_eq_nil h').symm
  | cons i rel ih =>
      cases hwf with
      | @object children childLookup hnd _ hchildren =>
          rw [keysAt_object_cons] at h
          obtain ⟨⟨key, child⟩, hi, h⟩ := Option.bind_eq_some_iff.mp h
          obtain ⟨rest, hrest, rfl⟩ := Option.map_eq_some_iff.mp h
          cases rel' with
          | nil => simp at h'
          | cons i' rel' =>
              rw [keysAt_object_cons] at h'
              obtain ⟨⟨key', child'⟩, hi', h'⟩ := Option.bind_eq_some_iff.mp h'
              obtain ⟨rest', hrest', heq⟩ := Option.map_eq_some_iff.mp h'
              obtain ⟨rfl, rfl⟩ := List.cons.inj heq
              -- the two steps take the one child of that name
              have hname : (children.map Prod.fst)[i]? = some key' := by
                rw [List.getElem?_map, hi]; rfl
              have hname' : (children.map Prod.fst)[i']? = some key' := by
                rw [List.getElem?_map, hi']; rfl
              have hlt : i < (children.map Prod.fst).length :=
                (List.getElem?_eq_some_iff.mp hname).1
              obtain rfl := (List.getElem?_inj hlt hnd).mp (hname.trans hname'.symm)
              obtain rfl : child = child' :=
                congrArg Prod.snd (Option.some.inj (hi.symm.trans hi'))
              rw [ih (hchildren _ (List.mem_of_getElem? hi)) hrest hrest']
      | _ => simp [keysAt] at h

/-- The columns of a payload have different paths. -/
theorem nodup_paths {root : RawNode} {scalarRows : Bool} {columns : List RawColumn}
    (hwf : root.WF) (h : flattenSchema root scalarRows = .ok columns) :
    (columns.map RawColumn.path).Nodup := by
  have hnodes := nodup_nodes (separate_flattenSchema h)
  refine List.pairwise_map.mpr ((List.pairwise_map.mp hnodes).imp_of_mem ?_)
  intro c d hc hd hne hpath
  obtain ⟨keys, hat⟩ := columnAt_flattenSchema h hc
  obtain ⟨keys', hat'⟩ := columnAt_flattenSchema h hd
  have hkeys : keys = keys' := by
    rw [← List.nil_append keys, ← List.nil_append keys', ← hat.path_eq, ← hat'.path_eq, hpath]
  exact hne (keysAt_injective hwf hat.keys_eq (hkeys ▸ hat'.keys_eq))

/-! ## what the renaming picks -/

/-- The renaming loop passes over the candidates that are taken. -/
theorem renameColumn_skipped (seen : List Bytes) (base : Bytes) (n fuel : Nat) :
    ∃ k, renameColumn seen base (candidate base n) (n + 1) fuel = candidate base (n + k) ∧
      ∀ j < k, ciContains seen (candidate base (n + j)) = true := by
  induction fuel generalizing n with
  | zero => exact ⟨0, rfl, by simp⟩
  | succ fuel ih =>
      rw [renameColumn_candidate]
      split
      · next hseen =>
        obtain ⟨k, hk, hskipped⟩ := ih (n + 1)
        refine ⟨k + 1, ?_, fun j hj => ?_⟩
        · rw [hk, Nat.add_assoc, Nat.add_comm 1 k]
        · match j with
          | 0 => exact hseen
          | j + 1 =>
              have := hskipped j (by omega)
              rwa [Nat.add_assoc, Nat.add_comm 1 j] at this
      · exact ⟨0, rfl, by simp⟩

/-- The first free candidate is the name a column gets. -/
theorem renameColumn_first (seen : List Bytes) (base : Bytes) :
    ∃ k, renameColumn seen base base 1 (seen.length + 1) = candidate base k ∧
      ciContains seen (candidate base k) = false ∧
      ∀ j < k, ciContains seen (candidate base j) = true := by
  obtain ⟨k, hk, hskipped⟩ := renameColumn_skipped seen base 0 (seen.length + 1)
  have hfree := renameColumn_fresh seen base
  simp only [Nat.zero_add] at hk hskipped
  have hk' : renameColumn seen base base 1 (seen.length + 1) = candidate base k := hk
  exact ⟨k, hk', hk' ▸ hfree, hskipped⟩

/-- A candidate that is free while all before it are taken is the one. -/
theorem renameColumn_eq_candidate {seen : List Bytes} {base : Bytes} {k : Nat}
    (hfree : ciContains seen (candidate base k) = false)
    (htaken : ∀ j < k, ciContains seen (candidate base j) = true) :
    renameColumn seen base base 1 (seen.length + 1) = candidate base k := by
  obtain ⟨k', hk', hfree', htaken'⟩ := renameColumn_first seen base
  rcases Nat.lt_trichotomy k k' with hlt | rfl | hlt
  · rw [htaken' k hlt] at hfree
    contradiction
  · exact hk'
  · rw [htaken k' hlt] at hfree'
    contradiction

/-- What the renaming gives a column that has these before it. -/
theorem disambiguate_names {seen : List Bytes} {columns before after : List RawColumn}
    {c : RawColumn} (h : disambiguate seen columns = before ++ c :: after) :
    ∃ base k, base ∈ columns ∧ base.path = c.path ∧ c.name = candidate base.name k ∧
      ∀ j < k, ciContains seen (candidate base.name j) = true ∨
        ∃ d ∈ before, lower d.name = lower (candidate base.name j) := by
  induction columns generalizing seen before with
  | nil => simp [disambiguate] at h
  | cons column rest ih =>
      rw [disambiguate] at h
      cases before with
      | nil =>
          obtain ⟨rfl, -⟩ := List.cons.inj h
          obtain ⟨k, hk, -, htaken⟩ := renameColumn_first seen column.name
          exact ⟨column, k, List.mem_cons_self, rfl, hk, fun j hj => .inl (htaken j hj)⟩
      | cons d before =>
          obtain ⟨rfl, hrest⟩ := List.cons.inj h
          obtain ⟨base, k, hmem, hpath, hname, htaken⟩ := ih hrest
          refine ⟨base, k, List.mem_cons_of_mem _ hmem, hpath, hname, fun j hj => ?_⟩
          rcases htaken j hj with hseen | ⟨d', hd', heq⟩
          · rw [ciContains, List.any_cons, Bool.or_eq_true] at hseen
            rcases hseen with hd | hseen
            · exact .inr ⟨_, List.mem_cons_self, by simpa using hd⟩
            · exact .inl hseen
          · exact .inr ⟨d', List.mem_cons_of_mem _ hd', heq⟩

/-! ## the renaming of one payload -/

/-- However many turns the loop is given beyond the candidates that are taken,
it stops at the first free one. -/
theorem renameColumn_turns {seen : List Bytes} {base : Bytes} {k : Nat}
    (hfree : ciContains seen (candidate base k) = false)
    (htaken : ∀ j < k, ciContains seen (candidate base j) = true) {turns : Nat} (h : k < turns) :
    renameColumn seen base base 1 turns = candidate base k := by
  have hfrom : ∀ d n turns, n + d = k → d < turns →
      renameColumn seen base (candidate base n) (n + 1) turns = candidate base k := by
    intro d
    induction d with
    | zero =>
        intro n turns hn ht
        obtain ⟨turns, rfl⟩ := Nat.exists_eq_add_one_of_ne_zero (Nat.ne_of_gt ht)
        obtain rfl : n = k := hn
        rw [renameColumn_candidate, hfree]
        rfl
    | succ d ih =>
        intro n turns hn ht
        obtain ⟨turns, rfl⟩ := Nat.exists_eq_add_one_of_ne_zero (show turns ≠ 0 by omega)
        rw [renameColumn_candidate, htaken n (by omega), if_pos rfl]
        exact ih (n + 1) turns (by omega) (by omega)
  exact hfrom k 0 turns (Nat.zero_add k) h

/-- The names the renaming loop has seen when it comes to a column: those of
the columns before it. -/
def namesBefore (columns : List RawColumn) (i : Nat) : List Bytes :=
  ((columns.take i).map RawColumn.name).reverse

theorem length_namesBefore (columns : List RawColumn) (i : Nat) :
    (namesBefore columns i).length ≤ i := by
  simp [namesBefore]

theorem mem_namesBefore {columns : List RawColumn} {i : Nat} {name : Bytes} :
    name ∈ namesBefore columns i ↔ ∃ d ∈ columns.take i, d.name = name := by
  rw [namesBefore, List.mem_reverse, List.mem_map]

/-- What the renaming makes of one column. -/
theorem getElem?_disambiguate {seen : List Bytes} {columns : List RawColumn} {i : Nat}
    {base : RawColumn} (h : columns[i]? = some base) :
    (disambiguate seen columns)[i]? = some
      { base with
        name := renameColumn (namesBefore (disambiguate seen columns) i ++ seen)
          base.name base.name 1
          ((namesBefore (disambiguate seen columns) i ++ seen).length + 1) } := by
  induction columns generalizing seen i with
  | nil => simp at h
  | cons column rest ih =>
      rw [disambiguate]
      cases i with
      | zero =>
          rw [List.getElem?_cons_zero, Option.some.injEq] at h
          subst h
          rfl
      | succ i =>
          rw [List.getElem?_cons_succ] at h ⊢
          have hseen : ∀ name : Bytes, ∀ columns : List RawColumn,
              namesBefore ({ column with name := name } :: columns) (i + 1) ++ seen =
                namesBefore columns i ++ name :: seen := by
            intro name columns
            simp [namesBefore]
          rw [hseen]
          exact ih h

/-- Where the name of one column comes from: it is the first candidate that no
column before it has, and the loop stops there. -/
theorem disambiguate_first {columns : List RawColumn} {i : Nat} {base c : RawColumn}
    (hbase : columns[i]? = some base) (hc : (disambiguate [] columns)[i]? = some c) :
    ∃ k ≤ i, c.name = candidate base.name k ∧
      ciContains (namesBefore (disambiguate [] columns) i) c.name = false ∧
      (∀ j < k, ciContains (namesBefore (disambiguate [] columns) i)
        (candidate base.name j) = true) ∧
      ∀ turns, k < turns →
        renameColumn (namesBefore (disambiguate [] columns) i) base.name base.name 1 turns =
          c.name := by
  rw [getElem?_disambiguate hbase, List.append_nil, Option.some.injEq] at hc
  obtain ⟨k, hk, hfree, htaken⟩ :=
    renameColumn_first (namesBefore (disambiguate [] columns) i) base.name
  have hname : c.name = candidate base.name k := by rw [← hc, ← hk]
  refine ⟨k, (taken_le_length htaken).trans (length_namesBefore _ _), hname, hname ▸ hfree,
    htaken, fun turns ht => ?_⟩
  rw [hname]
  exact renameColumn_turns hfree htaken ht

/-- The columns renamed by a choice of a suffix for each path. -/
def renamed (suffix : List Bytes → Nat) (c : RawColumn) : RawColumn :=
  { c with name := candidate c.name (suffix c.path) }

/-- When the chosen names differ for different paths, and the smaller suffixes
of each are taken by columns before it, the renaming makes that choice. -/
theorem disambiguate_eq_map {suffix : List Bytes → Nat} (done : List RawColumn)
    {todo : List RawColumn}
    (hpaths : ((done ++ todo).map RawColumn.path).Nodup)
    (happart : ∀ c ∈ done ++ todo, ∀ d ∈ done ++ todo,
      lower (renamed suffix c).name = lower (renamed suffix d).name → c.path = d.path)
    (hordered : ∀ before c after, done ++ todo = before ++ c :: after → ∀ k < suffix c.path,
      ∃ d ∈ before, lower (renamed suffix d).name = lower (candidate c.name k)) :
    disambiguate ((done.map fun c => (renamed suffix c).name).reverse) todo =
      todo.map (renamed suffix) := by
  induction todo generalizing done with
  | nil => rfl
  | cons c rest ih =>
      have hname : renameColumn ((done.map fun c => (renamed suffix c).name).reverse)
          c.name c.name 1
          (((done.map fun c => (renamed suffix c).name).reverse).length + 1) =
          (renamed suffix c).name := by
        apply renameColumn_eq_candidate
        · rw [← Bool.not_eq_true, ciContains_iff]
          rintro ⟨name, hmem, heq⟩
          rw [List.mem_reverse] at hmem
          obtain ⟨d, hd, rfl⟩ := List.mem_map.mp hmem
          have hpath := happart d (List.mem_append_left _ hd) c (by simp) heq
          rw [List.map_append, List.nodup_append] at hpaths
          exact hpaths.2.2 _ (List.mem_map_of_mem hd) _ (by simp) hpath
        · intro j hj
          obtain ⟨d, hd, heq⟩ := hordered done c rest rfl j hj
          refine ciContains_iff.mpr ⟨_, ?_, heq⟩
          rw [List.mem_reverse]
          exact List.mem_map.mpr ⟨d, hd, rfl⟩
      have happend : done ++ c :: rest = (done ++ [c]) ++ rest := by simp
      rw [happend] at hpaths happart hordered
      have hrest := ih (done ++ [c]) hpaths happart hordered
      rw [List.map_append, List.reverse_append] at hrest
      rw [disambiguate, List.map_cons]
      simp only [hname]
      exact congrArg _ hrest

/-! ## payloads of object rows -/

/-- Merging members into an object leaves an object. -/
theorem mergeMembers_object (duck : Duck) (children : List (Bytes × RawNode))
    (childLookup : List (Bytes × Nat)) (members : List (Bytes × Json)) (depth : Nat) :
    ∃ children' childLookup',
      mergeMembers duck children childLookup members depth = .object children' childLookup' := by
  induction members generalizing children childLookup with
  | nil => exact ⟨_, _, by rw [mergeMembers]⟩
  | cons m rest ih =>
      rw [mergeMembers]
      exact ih _ _

/-- An object row merged into an empty tree or an object makes an object. -/
theorem mergeValue_object (duck : Duck) {node : RawNode}
    (hnode : node = .unset ∨ ∃ children childLookup, node = .object children childLookup)
    {row : Json} (hrow : row.isObj = true) :
    ∃ children childLookup, mergeValue duck node row = .object children childLookup := by
  cases row with
  | obj members =>
      rcases hnode with rfl | ⟨children, childLookup, rfl⟩ <;>
        · rw [mergeValue, mergeValueInternal, if_neg (by decide)]
          exact mergeMembers_object duck _ _ members _
  | _ => simp [Json.isObj] at hrow

/-- The tree of object rows is an object, and empty without rows. -/
theorem inferSchema_objects (duck : Duck) {rows : List Json} (h : ∀ row ∈ rows, row.isObj = true) :
    inferSchema duck rows = .unset ∨
      ∃ children childLookup, inferSchema duck rows = .object children childLookup := by
  have hfold : ∀ (node : RawNode),
      (node = .unset ∨ ∃ children childLookup, node = .object children childLookup) →
      (rows.foldl (mergeValue duck) node = .unset ∨
        ∃ children childLookup,
          rows.foldl (mergeValue duck) node = .object children childLookup) := by
    induction rows with
    | nil => exact fun _ hnode => hnode
    | cons row rest ih =>
        intro node hnode
        exact ih (fun r hr => h r (List.mem_cons_of_mem _ hr)) _
          (.inr (mergeValue_object duck hnode (h row List.mem_cons_self)))
  exact hfold _ (.inl rfl)

/-- Object rows flatten to the renamed leaves of their tree, unless these are
too many. -/
theorem flattenSchema_objects (duck : Duck) {rows : List Json}
    (hrows : ∀ row ∈ rows, row.isObj = true) {columns : List RawColumn} :
    flattenSchema (inferSchema duck rows) false = .ok columns ↔
      (flattenInto (inferSchema duck rows) [] [] [] 0).length ≤ rawMaxColumns ∧
        columns = disambiguate [] (flattenInto (inferSchema duck rows) [] [] [] 0) := by
  rcases inferSchema_objects duck hrows with hroot | ⟨children, childLookup, hroot⟩
  · rw [hroot, flattenInto]
    constructor
    · intro h
      exact ⟨Nat.zero_le _, (Except.ok.inj h).symm⟩
    · rintro ⟨-, rfl⟩
      rfl
  · rw [hroot]
    unfold flattenSchema
    dsimp only
    split
    · next hmany =>
      constructor
      · rintro ⟨⟩
      · exact fun h => absurd hmany (Nat.not_lt.mpr h.1)
    · next hfew =>
      constructor
      · intro h
        exact ⟨Nat.not_lt.mp hfew, (Except.ok.inj h).symm⟩
      · rintro ⟨-, rfl⟩
        rfl

/-- **The renaming of colliding names**: object rows with at most
`rawMaxColumns` leaves flatten to one column for each leaf, in the same order
and with its path, type and node, and no two names are equal ignoring case.
For every leaf the loop of the renaming stops, however many turns it is
allowed, at the first candidate that no earlier column is named, which is the
plain name if no earlier column is named so. -/
theorem flattenSchema_renaming (duck : Duck) {rows : List Json}
    (hrows : ∀ row ∈ rows, row.isObj = true)
    (hlimit : (flattenInto (inferSchema duck rows) [] [] [] 0).length ≤ rawMaxColumns) :
    ∃ columns, flattenSchema (inferSchema duck rows) false = .ok columns ∧
      columns.map (fun c => (c.path, c.type, c.node)) =
        (flattenInto (inferSchema duck rows) [] [] [] 0).map
          (fun c => (c.path, c.type, c.node)) ∧
      CiDistinct columns ∧
      ∀ i leaf c, (flattenInto (inferSchema duck rows) [] [] [] 0)[i]? = some leaf →
        columns[i]? = some c →
        leaf.name = dottedName leaf.path ∧
        (∃ k ≤ i, c.name = candidate leaf.name k ∧
          ciContains (namesBefore columns i) c.name = false ∧
          (∀ j < k, ciContains (namesBefore columns i) (candidate leaf.name j) = true) ∧
          ∀ turns, k < turns →
            renameColumn (namesBefore columns i) leaf.name leaf.name 1 turns = c.name) ∧
        ((∀ d ∈ columns.take i, lower d.name ≠ lower leaf.name) → c.name = leaf.name) := by
  refine ⟨_, (flattenSchema_objects duck hrows).mpr ⟨hlimit, rfl⟩, disambiguate_forget _ _,
    ciDistinct_disambiguate _ _, fun i leaf c hleaf hc => ?_⟩
  obtain ⟨k, hki, hname, hfree, htaken, hturns⟩ := disambiguate_first hleaf hc
  refine ⟨@flattenInto_name _ [] _ _ _ (List.mem_of_getElem? hleaf),
    ⟨k, hki, hname, hfree, htaken, hturns⟩, fun hplain => ?_⟩
  cases k with
  | zero => exact hname
  | succ k =>
      obtain ⟨name, hmem, heq⟩ := ciContains_iff.mp (htaken 0 (Nat.succ_pos k))
      obtain ⟨d, hd, rfl⟩ := mem_namesBefore.mp hmem
      exact absurd heq (hplain d hd)

/-- The row of `{"a.b": 1, "a": {"b": 2}}` has two leaves. -/
theorem flattenSchema_renaming_dotted :
    ∃ columns, flattenSchema (inferSchema smallDuck
        [.obj [(bytes "a.b", .uint 1), (bytes "a", .obj [(bytes "b", .uint 2)])]]) false =
        .ok columns ∧ columns.length = 2 ∧ CiDistinct columns := by
  obtain ⟨columns, hcolumns, hforget, hnames, -⟩ := @flattenSchema_renaming smallDuck
    [.obj [(bytes "a.b", .uint 1), (bytes "a", .obj [(bytes "b", .uint 2)])]]
    (by decide) (by decide)
  refine ⟨columns, hcolumns, ?_, hnames⟩
  have hlength := congrArg List.length hforget
  rw [List.length_map, List.length_map] at hlength
  exact hlength

/-- Rows that pass the check and are not scalars are objects. -/
theorem objects_of_uniform {rows : List Json} (h : checkRowUniformity rows = .ok false) :
    ∀ row ∈ rows, row.isObj = true := by
  rw [checkRowUniformity] at h
  split at h
  · exact nomatch h
  · next hmixed =>
    have hflag := Except.ok.inj h
    rw [← List.countP_eq_length]
    rcases Nat.eq_zero_or_pos (rows.countP Json.isObj) with h0 | hpos
    · have hempty : rows.isEmpty = true := by simpa [h0] using hflag
      rw [List.isEmpty_iff.mp hempty]
      rfl
    · by_contra hne
      exact hmixed ⟨hpos, hne⟩

/-- A payload whose rows are objects. -/
structure ObjectPayload (duck : Duck) extends ProcessedPayload duck where
  objects : payload.scalarRows = false

namespace ObjectPayload

variable {duck : Duck} (p : ObjectPayload duck)

/-- The columns before renaming, in first-seen order. -/
def flattened : List RawColumn := flattenInto p.root [] [] [] 0

/-- The key paths the payload has columns for, in first-seen order. -/
def leafPaths : List (List Bytes) := p.flattened.map RawColumn.path

theorem columns_eq_disambiguate : p.columns = disambiguate [] p.flattened := by
  have hrows := objects_of_uniform (p.objects ▸ p.uniform)
  have hcolumns := p.columns_eq
  rw [p.objects, p.root_eq, flattenSchema_objects duck hrows] at hcolumns
  rw [flattened, p.root_eq]
  exact hcolumns.2

theorem map_path_columns : p.columns.map RawColumn.path = p.leafPaths := by
  have hforget := congrArg (List.map Prod.fst) (disambiguate_forget [] p.flattened)
  rw [columns_eq_disambiguate, leafPaths]
  simpa [List.map_map, Function.comp_def] using hforget

theorem nodup_leafPaths : p.leafPaths.Nodup :=
  p.map_path_columns ▸ nodup_paths p.wf_root p.columns_eq

theorem flattened_name {c : RawColumn} (hc : c ∈ p.flattened) : c.name = dottedName c.path :=
  @flattenInto_name _ [] _ _ _ hc

end ObjectPayload

/-- **The slots of a row**: for every payload of object rows and every row,
the slot filled for a column is the last value, in document order, among all
that its path leads to through every occurrence of each key, and is empty
exactly when there is none.  A column's node is the one node of the tree at its
path, and no two columns share it. -/
theorem ObjectPayload.slots_eq {duck : Duck} (p : ObjectPayload duck) :
    (∀ row j c, p.columns[j]? = some c →
      extractRow p.root p.columns row j = (row.reached c.path).getLast? ∧
        (extractRow p.root p.columns row j = none ↔ row.reached c.path = [])) ∧
      (∀ c ∈ p.columns, ∀ ref, keysAt p.root ref = some c.path ↔ ref = c.node) ∧
      ∀ (i j : Nat) (c d : RawColumn), p.columns[i]? = some c → p.columns[j]? = some d →
        c.node = d.node → i = j := by
  refine ⟨fun row j c hc => ?_, fun c hc ref => ?_, ?_⟩
  · rw [p.extractRow_eq row hc]
    exact ⟨rfl, List.getLast?_eq_none_iff⟩
  · obtain ⟨keys, hat⟩ := columnAt_flattenSchema p.columns_eq hc
    have hkeys : keysAt p.root c.node = some c.path := by
      rw [hat.path_eq]
      exact hat.keys_eq
    constructor
    · exact fun h => keysAt_injective p.wf_root h hkeys
    · rintro rfl
      exact hkeys
  · intro i j c d hc hd hnode
    have hnd := nodup_nodes (separate_flattenSchema p.columns_eq)
    have hi : (p.columns.map RawColumn.node)[i]? = some c.node := by
      rw [List.getElem?_map, hc]
      rfl
    have hj : (p.columns.map RawColumn.node)[j]? = some d.node := by
      rw [List.getElem?_map, hd]
      rfl
    have hlt : i < (p.columns.map RawColumn.node).length := (List.getElem?_eq_some_iff.mp hi).1
    exact (List.getElem?_inj hlt hnd).mp (hi.trans (hnode ▸ hj.symm))

/-! ## over one table -/

/-- Two payload columns are written to one slot of a table exactly when their
names are equal ignoring case. -/
theorem slotOf_eq_iff {t : Table} (hwf : t.WF) {columns columns' : List RawColumn}
    (hnames : CiDistinct columns) (hnames' : CiDistinct columns') {layout layout' : AppendLayout}
    (h : resolveAppendLayout t columns = .ok layout)
    (h' : resolveAppendLayout t columns' = .ok layout') {i j : Nat} {c d : RawColumn}
    (hc : columns[i]? = some c) (hd : columns'[j]? = some d) :
    layout.slotOf[i]? = layout'.slotOf[j]? ↔ lower c.name = lower d.name := by
  have slotAt : ∀ {columns : List RawColumn} {layout : AppendLayout}, CiDistinct columns →
      resolveAppendLayout t columns = .ok layout → ∀ {i : Nat} {c : RawColumn},
      columns[i]? = some c →
      ∃ slot, layout.slotOf[i]? = some slot ∧ columnIndex t.columns c.name = some slot := by
    intro columns layout hnames h i c hc
    obtain ⟨-, -, hslots⟩ := resolveAppendLayout_spec hwf hnames h
    obtain ⟨hi, rfl⟩ := List.getElem?_eq_some_iff.mp hc
    have hi' : i < layout.slotOf.length := hslots.length_eq ▸ hi
    exact ⟨_, List.getElem?_eq_getElem hi', hslots.get hi hi'⟩
  obtain ⟨slot, hslot, hidx⟩ := slotAt hnames h hc
  obtain ⟨slot', hslot', hidx'⟩ := slotAt hnames' h' hd
  rw [hslot, hslot', Option.some.injEq]
  constructor
  · rintro rfl
    obtain ⟨e, he, hn⟩ := (columnIndex_eq_some hwf.names).mp hidx
    obtain ⟨e', he', hn'⟩ := (columnIndex_eq_some hwf.names).mp hidx'
    obtain rfl := Option.some.inj (he.symm.trans he')
    exact hn.symm.trans hn'
  · intro hname
    rw [columnIndex_congr hname, hidx'] at hidx
    exact (Option.some.inj hidx).symm

/-! ## over several payloads -/

/-- Over all the payloads, a path has one name and a name one path, ignoring
case. -/
structure PathsKeepColumns {duck : Duck} (payloads : List (ObjectPayload duck)) : Prop where
  one_name : ∀ p ∈ payloads, ∀ q ∈ payloads, ∀ c ∈ p.columns, ∀ d ∈ q.columns,
    c.path = d.path → lower c.name = lower d.name
  one_path : ∀ p ∈ payloads, ∀ q ∈ payloads, ∀ c ∈ p.columns, ∀ d ∈ q.columns,
    lower c.name = lower d.name → c.path = d.path

/-- The name a choice of suffixes gives a path. -/
def chosenName (suffix : List Bytes → Nat) (path : List Bytes) : Bytes :=
  candidate (dottedName path) (suffix path)

/-- A choice of suffixes that gives different paths of the payloads different
names, and that the order of paths leads to in every payload: a path with
suffix `k` comes after paths that hold its dotted name with the suffixes below
`k`. -/
structure NamesSettled {duck : Duck} (payloads : List (ObjectPayload duck))
    (suffix : List Bytes → Nat) : Prop where
  apart : ∀ p ∈ payloads, ∀ q ∈ payloads, ∀ path ∈ p.leafPaths, ∀ path' ∈ q.leafPaths,
    lower (chosenName suffix path) = lower (chosenName suffix path') → path = path'
  ordered : ∀ p ∈ payloads, ∀ before path after, p.leafPaths = before ++ path :: after →
    ∀ k < suffix path, ∃ earlier ∈ before,
      lower (chosenName suffix earlier) = lower (candidate (dottedName path) k)

/-- The dotted names of different paths of the payloads differ, ignoring case. -/
def DottedApart {duck : Duck} (payloads : List (ObjectPayload duck)) : Prop :=
  ∀ p ∈ payloads, ∀ q ∈ payloads, ∀ path ∈ p.leafPaths, ∀ path' ∈ q.leafPaths,
    lower (dottedName path) = lower (dottedName path') → path = path'

/-- Where the payloads are appended to a table, two columns of them are written to
one slot exactly when they have one path. -/
def SlotsKeepPaths {duck : Duck} (t : Table) (payloads : List (ObjectPayload duck)) : Prop :=
  ∀ p ∈ payloads, ∀ q ∈ payloads, ∀ layout layout' : AppendLayout,
    resolveAppendLayout t p.columns = .ok layout → resolveAppendLayout t q.columns = .ok layout' →
    ∀ (i j : Nat) (c d : RawColumn), p.columns[i]? = some c → q.columns[j]? = some d →
      (layout.slotOf[i]? = layout'.slotOf[j]? ↔ c.path = d.path)

section

variable {duck : Duck} {payloads : List (ObjectPayload duck)}

/-- Under a settled choice every payload names its columns by that choice. -/
theorem NamesSettled.columns {suffix : List Bytes → Nat} (h : NamesSettled payloads suffix)
    {p : ObjectPayload duck} (hp : p ∈ payloads) :
    p.columns = p.flattened.map (renamed suffix) := by
  have hrenamed : ∀ c ∈ p.flattened, (renamed suffix c).name = chosenName suffix c.path := by
    intro c hc
    rw [renamed, chosenName, p.flattened_name hc]
  rw [p.columns_eq_disambiguate]
  apply disambiguate_eq_map []
  · exact p.nodup_leafPaths
  · intro c hc d hd hname
    rw [hrenamed c hc, hrenamed d hd] at hname
    exact h.apart p hp p hp _ (List.mem_map_of_mem hc) _ (List.mem_map_of_mem hd) hname
  · intro before c after hsplit k hk
    rw [List.nil_append] at hsplit
    have hc : c ∈ p.flattened := by rw [hsplit]; simp
    have hpaths : p.leafPaths =
        before.map RawColumn.path ++ c.path :: after.map RawColumn.path := by
      rw [ObjectPayload.leafPaths, hsplit, List.map_append, List.map_cons]
    obtain ⟨earlier, hearlier, hname⟩ := h.ordered p hp _ _ _ hpaths k hk
    obtain ⟨d, hd, rfl⟩ := List.mem_map.mp hearlier
    have hd' : d ∈ p.flattened := by rw [hsplit]; exact List.mem_append_left _ hd
    exact ⟨d, hd, by rw [hrenamed d hd', hname, p.flattened_name hc]⟩

/-- A settled choice keeps every path in its column. -/
theorem NamesSettled.pathsKeepColumns {suffix : List Bytes → Nat}
    (h : NamesSettled payloads suffix) : PathsKeepColumns payloads := by
  have hchosen : ∀ p ∈ payloads, ∀ c ∈ p.columns,
      c.name = chosenName suffix c.path ∧ c.path ∈ p.leafPaths := by
    intro p hp c hc
    rw [h.columns hp] at hc
    obtain ⟨base, hbase, rfl⟩ := List.mem_map.mp hc
    constructor
    · simp only [renamed, chosenName, p.flattened_name hbase]
    · exact List.mem_map.mpr ⟨base, hbase, rfl⟩
  constructor
  · intro p hp q hq c hc d hd hpath
    rw [(hchosen p hp c hc).1, (hchosen q hq d hd).1, hpath]
  · intro p hp q hq c hc d hd hname
    rw [(hchosen p hp c hc).1, (hchosen q hq d hd).1] at hname
    exact h.apart p hp q hq _ (hchosen p hp c hc).2 _ (hchosen q hq d hd).2 hname

/-- A column has its dotted name with some suffix, and columns before it hold
the smaller suffixes. -/
theorem ObjectPayload.column_name (p : ObjectPayload duck) {before after : List RawColumn}
    {c : RawColumn} (h : p.columns = before ++ c :: after) :
    ∃ k, c.name = candidate (dottedName c.path) k ∧
      ∀ j < k, ∃ d ∈ before, lower d.name = lower (candidate (dottedName c.path) j) := by
  obtain ⟨base, k, hbase, hpath, hname, htaken⟩ :=
    disambiguate_names (p.columns_eq_disambiguate ▸ h)
  rw [p.flattened_name hbase, hpath] at hname htaken
  refine ⟨k, hname, fun j hj => ?_⟩
  rcases htaken j hj with hseen | hbefore
  · simp [ciContains] at hseen
  · exact hbefore

/-- The suffix some column of the payloads has at a path. -/
noncomputable def observedSuffix (payloads : List (ObjectPayload duck)) (path : List Bytes) : Nat :=
  open Classical in
  if h : ∃ k, ∃ p ∈ payloads, ∃ c ∈ p.columns,
      c.path = path ∧ c.name = candidate (dottedName path) k
  then h.choose else 0

/-- When paths keep their columns, every column has the observed suffix. -/
theorem PathsKeepColumns.suffix_eq (h : PathsKeepColumns payloads) {p : ObjectPayload duck}
    (hp : p ∈ payloads) {c : RawColumn} (hc : c ∈ p.columns) {k : Nat}
    (hk : c.name = candidate (dottedName c.path) k) : observedSuffix payloads c.path = k := by
  have hex : ∃ k, ∃ p ∈ payloads, ∃ d ∈ p.columns,
      d.path = c.path ∧ d.name = candidate (dottedName c.path) k := ⟨k, p, hp, c, hc, rfl, hk⟩
  rw [observedSuffix, dif_pos hex]
  obtain ⟨q, hq, d, hd, hpath, hname⟩ := hex.choose_spec
  have hlower := h.one_name q hq p hp d hd c hc hpath
  rw [hname, hk] at hlower
  exact lower_candidate_injective hlower

theorem PathsKeepColumns.chosenName_eq (h : PathsKeepColumns payloads) {p : ObjectPayload duck}
    (hp : p ∈ payloads) {c : RawColumn} (hc : c ∈ p.columns) :
    chosenName (observedSuffix payloads) c.path = c.name := by
  obtain ⟨before, after, hsplit⟩ := List.append_of_mem hc
  obtain ⟨k, hk, -⟩ := p.column_name hsplit
  rw [chosenName, h.suffix_eq hp hc hk, ← hk]

/-- When paths keep their columns, the suffixes observed are a settled choice. -/
theorem PathsKeepColumns.namesSettled (h : PathsKeepColumns payloads) :
    NamesSettled payloads (observedSuffix payloads) := by
  constructor
  · intro p hp q hq path hpath path' hpath' hname
    rw [← p.map_path_columns] at hpath
    rw [← q.map_path_columns] at hpath'
    obtain ⟨c, hc, rfl⟩ := List.mem_map.mp hpath
    obtain ⟨d, hd, rfl⟩ := List.mem_map.mp hpath'
    rw [h.chosenName_eq hp hc, h.chosenName_eq hq hd] at hname
    exact h.one_path p hp q hq c hc d hd hname
  · intro p hp before path after hsplit k hk
    rw [← p.map_path_columns, List.map_eq_append_iff] at hsplit
    obtain ⟨cs, cs', hcolumns, rfl, hcs'⟩ := hsplit
    obtain ⟨c, cs', rfl, rfl, rfl⟩ := List.map_eq_cons_iff.mp hcs'
    have hc : c ∈ p.columns := by rw [hcolumns]; simp
    obtain ⟨suffix, hname, htaken⟩ := p.column_name hcolumns
    rw [h.suffix_eq hp hc hname] at hk
    obtain ⟨d, hd, heq⟩ := htaken k hk
    have hd' : d ∈ p.columns := by rw [hcolumns]; exact List.mem_append_left _ hd
    exact ⟨d.path, List.mem_map_of_mem hd, by rw [h.chosenName_eq hp hd', heq]⟩

/-- Paths whose dotted names all differ, ignoring case, need no suffix. -/
theorem DottedApart.namesSettled (h : DottedApart payloads) :
    NamesSettled payloads fun _ => 0 :=
  ⟨h, fun _ _ _ _ _ _ k hk => absurd hk (Nat.not_lt_zero k)⟩

/-- When paths keep their columns, they keep their slots in every table. -/
theorem PathsKeepColumns.slotsKeepPaths (h : PathsKeepColumns payloads) {t : Table}
    (hwf : t.WF) : SlotsKeepPaths t payloads := by
  intro p hp q hq layout layout' hlayout hlayout' i j c d hc hd
  rw [slotOf_eq_iff hwf p.ciDistinct q.ciDistinct hlayout hlayout' hc hd]
  exact ⟨h.one_path p hp q hq c (List.mem_of_getElem? hc) d (List.mem_of_getElem? hd),
    h.one_name p hp q hq c (List.mem_of_getElem? hc) d (List.mem_of_getElem? hd)⟩

/-- **When paths keep their columns**: over a sequence of payloads, a path is
always stored in one column and distinct paths in distinct ones exactly when
one choice of suffixes settles the names of all payloads, as where all dotted
names differ; and then the columns of a table the payloads are appended to are
told apart by their paths. -/
theorem pathsKeepColumns_iff (payloads : List (ObjectPayload duck)) :
    (PathsKeepColumns payloads ↔ ∃ suffix, NamesSettled payloads suffix) ∧
      (DottedApart payloads → PathsKeepColumns payloads) ∧
      (PathsKeepColumns payloads → ∀ t : Table, t.WF → SlotsKeepPaths t payloads) :=
  ⟨⟨fun h => ⟨_, h.namesSettled⟩, fun ⟨_, h⟩ => h.pathsKeepColumns⟩,
    fun h => h.namesSettled.pathsKeepColumns, fun h _ hwf => h.slotsKeepPaths hwf⟩

end

/-! ## a dotted key and a nested one -/

/-- `{"a.b": 1}`. -/
def dottedPayload : ObjectPayload smallDuck where
  toProcessedPayload := .ofRows smallDuck [.obj [(bytes "a.b", .uint 1)]]
    [{ name := bytes "a.b", path := [bytes "a.b"], type := .BIGINT, node := [0] }] rfl rfl
  objects := rfl

/-- `{"a": {"b": 2}}`. -/
def nestedPayload : ObjectPayload smallDuck where
  toProcessedPayload := .ofRows smallDuck [.obj [(bytes "a", .obj [(bytes "b", .uint 2)])]]
    [{ name := bytes "a.b", path := [bytes "a", bytes "b"], type := .BIGINT, node := [0, 0] }]
    rfl rfl
  objects := rfl

/-- The row `{"a": {"b": 1}, "a": {"b": 2}}` in the columns of `nestedPayload`. -/
theorem ObjectPayload.slots_eq_repeated :
    extractRow nestedPayload.root nestedPayload.columns
      (.obj [(bytes "a", .obj [(bytes "b", .uint 1)]), (bytes "a", .obj [(bytes "b", .uint 2)])])
      0 = some (.uint 2) :=
  ((nestedPayload.slots_eq).1 _ 0 _ rfl).1

/-- A dotted key and a nested one, in two payloads, share a column. -/
theorem pathsKeepColumns_shared : ¬ PathsKeepColumns [dottedPayload, nestedPayload] := by
  intro h
  have hpath := h.one_path dottedPayload List.mem_cons_self nestedPayload (by simp)
    _ List.mem_cons_self _ List.mem_cons_self rfl
  exact absurd (congrArg List.length hpath) (by decide)

end RawDuck
