import RawDuck.Freshness
import RawDuck.Delimited
import RawDuck.OrderedMap

/-!
# RawDuck.GroupSets

What the key of a group set says about the set.

`CollectStats` counts aggregations by their sorted column names, joined by a
comma and a blank; `raw_project` splits the most frequent of these texts again
and materializes an aggregation over the pieces.

* `split_spec` — what `StringUtil::Split` makes of a text: pieces without the
  separator that join to it, the empty ones left out;
* `split_join` — names without the separator come back;
* `timesObserved_collect` — the statistics count the observations by their key;
* `groupSetsFaithful_iff` — which column names make the keys faithful.
-/

namespace RawDuck

open Delimited Freshness

/-! ## the key of a group set -/

/-- The key `CollectStats` counts the columns of an aggregation under. -/
def groupSetKey (columns : List Bytes) : Bytes :=
  StringUtil.join (sortNames columns) groupSeparator

/-- The columns `RawProjectFunction` aggregates over, unless the group set is
empty. -/
def projectColumns (groupSet : Bytes) : Option (List Bytes) :=
  if groupSet.isEmpty then none else some (groupColumns groupSet)

/-- The group sets of a table after its aggregations have been observed. -/
def collectGroupSets (observed : List (List Bytes)) : List (Bytes × Nat) :=
  observed.foldl (fun groupSets columns => observeGroupSet (groupSetKey columns) groupSets) []

/-- A set of group-by columns of a table, in some order. -/
structure IsGroupSet (tableColumns columns : List Bytes) : Prop where
  nonempty : columns ≠ []
  nodup : columns.Nodup
  subset : columns ⊆ tableColumns

/-- The keys of the group sets of a table are faithful: different sets have
different keys, `raw_project` reads from a key the columns of the set, and so
after any observations it materializes the aggregation observed most often. -/
structure GroupSetsFaithful (tableColumns : List Bytes) : Prop where
  determined : ∀ columns other, IsGroupSet tableColumns columns → IsGroupSet tableColumns other →
    groupSetKey columns = groupSetKey other → columns.Perm other
  recovered : ∀ columns, IsGroupSet tableColumns columns →
    projectColumns (groupSetKey columns) = some (sortNames columns)
  materialized : ∀ observed : List (List Bytes), observed ≠ [] →
    (∀ columns ∈ observed, IsGroupSet tableColumns columns) →
    ∃ columns ∈ observed,
      projectColumns (hottestGroupSet (collectGroupSets observed)) = some (sortNames columns) ∧
      ∀ other ∈ observed, observed.countP (fun c => c.Perm other) ≤
        observed.countP (fun c => c.Perm columns)

/-! ## sorted names -/

theorem perm_sortNames (columns : List Bytes) : (sortNames columns).Perm columns :=
  List.mergeSort_perm _ _

theorem pairwise_sortNames (columns : List Bytes) : (sortNames columns).Pairwise (· ≤ ·) := by
  have hsorted : (sortNames columns).Pairwise fun a b => decide (a ≤ b) = true := by
    apply List.pairwise_mergeSort
    · intro a b c hab hbc
      exact decide_eq_true (List.le_trans (of_decide_eq_true hab) (of_decide_eq_true hbc))
    · intro a b
      rcases List.le_total a b with h | h <;> simp [h]
  exact hsorted.imp fun h => of_decide_eq_true h

/-- Sorting forgets the order of a set. -/
theorem sortNames_congr {columns other : List Bytes} (h : columns.Perm other) :
    sortNames columns = sortNames other :=
  List.Perm.eq_of_pairwise (fun _ _ _ _ hab hba => List.le_antisymm hab hba)
    (pairwise_sortNames columns) (pairwise_sortNames other)
    ((perm_sortNames columns).trans (h.trans (perm_sortNames other).symm))

theorem groupSetKey_congr {columns other : List Bytes} (h : columns.Perm other) :
    groupSetKey columns = groupSetKey other := by
  rw [groupSetKey, groupSetKey, sortNames_congr h]

/-! ## splitting -/

/-- The comma and the blank do not overlap themselves. -/
theorem unbordered_groupSeparator : Unbordered groupSeparator := by
  unfold Unbordered groupSeparator
  decide

theorem splitFrom_ne_nil (separator piece text : Bytes) (fuel : Nat) :
    splitFrom separator piece text fuel ≠ [] := by
  induction fuel generalizing piece text with
  | zero => cases text <;> simp [splitFrom]
  | succ fuel ih =>
      cases text with
      | nil => simp [splitFrom]
      | cons c text =>
          rw [splitFrom]
          split
          · exact List.cons_ne_nil _ _
          · exact ih _ _

/-- The pieces of a text join to the text. -/
theorem intercalate_splitFrom {separator : Bytes} (hsep : separator ≠ []) (piece : Bytes)
    {text : Bytes} {fuel : Nat} (hfuel : text.length ≤ fuel) :
    separator.intercalate (splitFrom separator piece text fuel) = piece ++ text := by
  induction fuel generalizing piece text with
  | zero =>
      obtain rfl := List.length_eq_zero_iff.mp (Nat.le_zero.mp hfuel)
      simp [splitFrom]
  | succ fuel ih =>
      cases text with
      | nil => simp [splitFrom]
      | cons c text =>
          rw [List.length_cons] at hfuel
          rw [splitFrom]
          split
          · next hprefix =>
            obtain ⟨rest, hrest⟩ := List.isPrefixOf_iff_prefix.mp hprefix
            have hlength := congrArg List.length hrest
            rw [List.length_append, List.length_cons] at hlength
            have hpos := List.length_pos_of_ne_nil hsep
            rw [← hrest, List.drop_left,
              List.intercalate_cons_of_ne_nil (splitFrom_ne_nil separator [] rest fuel),
              ih [] (by omega), List.nil_append, List.append_assoc]
          · rw [ih (piece ++ [c]) (by omega), List.append_assoc]
            rfl

/-- Where no separator starts in the piece that is begun, there is none in it. -/
theorem free_of_begun {separator piece : Bytes} (hsep : separator ≠ []) (text : Bytes)
    (hbegun : ∀ i < piece.length, ¬ separator <+: (piece ++ text).drop i) :
    Free separator piece := by
  rintro ⟨before, after, rfl⟩
  have hpos := List.length_pos_of_ne_nil hsep
  refine hbegun before.length ?_ ?_
  · simp only [List.length_append]
    omega
  · rw [List.append_assoc, List.append_assoc, List.drop_left]
    exact List.prefix_append _ _

/-- The pieces are free of the separator. -/
theorem free_of_mem_splitFrom {separator : Bytes} (hsep : separator ≠ []) {piece text : Bytes}
    {fuel : Nat} (hfuel : text.length ≤ fuel)
    (hbegun : ∀ i < piece.length, ¬ separator <+: (piece ++ text).drop i)
    {word : Bytes} (hword : word ∈ splitFrom separator piece text fuel) : Free separator word := by
  have hfree := free_of_begun hsep text hbegun
  induction fuel generalizing piece text with
  | zero =>
      obtain rfl := List.length_eq_zero_iff.mp (Nat.le_zero.mp hfuel)
      rw [splitFrom] at hword
      exact List.mem_singleton.mp hword ▸ hfree
  | succ fuel ih =>
      cases text with
      | nil =>
          rw [splitFrom] at hword
          exact List.mem_singleton.mp hword ▸ hfree
      | cons c text =>
          rw [List.length_cons] at hfuel
          rw [splitFrom] at hword
          split at hword
          · rcases List.mem_cons.mp hword with rfl | hword
            · exact hfree
            · have hpos := List.length_pos_of_ne_nil hsep
              refine ih ?_ ?_ hword (free_nil hsep)
              · rw [List.length_drop, List.length_cons]
                omega
              · exact fun i hi => absurd hi (Nat.not_lt_zero i)
          · next hprefix =>
            have hbegun' : ∀ i < (piece ++ [c]).length,
                ¬ separator <+: (piece ++ [c] ++ text).drop i := by
              intro i hi
              rw [List.append_assoc, List.singleton_append]
              rw [List.length_append, List.length_singleton] at hi
              rcases Nat.lt_succ_iff_lt_or_eq.mp hi with hlt | rfl
              · exact hbegun i hlt
              · rw [List.drop_left, ← List.isPrefixOf_iff_prefix]
                exact hprefix
            exact ih (by omega) hbegun' hword (free_of_begun hsep text hbegun')

/-- **What `StringUtil::Split` returns**: pieces free of the separator that join to the
text, without the empty ones; the text itself when all are empty. -/
theorem split_spec {separator : Bytes} (hsep : separator ≠ []) (text : Bytes) :
    ∃ pieces, pieces ≠ [] ∧ separator.intercalate pieces = text ∧
      (∀ word ∈ pieces, Free separator word) ∧
      StringUtil.split text separator =
        if pieces.all List.isEmpty then [text] else pieces.filter fun piece => !piece.isEmpty := by
  refine ⟨splitFrom separator [] text text.length, splitFrom_ne_nil _ _ _ _,
    intercalate_splitFrom hsep [] (Nat.le_refl _),
    fun word => @free_of_mem_splitFrom _ hsep [] _ _ (Nat.le_refl _)
      (fun i hi => absurd hi (Nat.not_lt_zero i)) _, ?_⟩
  have hempty : ∀ pieces : List Bytes,
      (pieces.filter fun piece => !piece.isEmpty).isEmpty = pieces.all List.isEmpty := by
    intro pieces
    rw [Bool.eq_iff_iff, List.isEmpty_iff, List.filter_eq_nil_iff, List.all_eq_true]
    simp
  unfold StringUtil.split
  dsimp only
  rw [hempty]

/-- Names that are not empty and free of the separator come back. -/
theorem split_join {separator : Bytes} (hsep : separator ≠ []) (hborder : Unbordered separator)
    {names : List Bytes} (hne : names ≠ [])
    (hnames : ∀ name ∈ names, name ≠ [] ∧ Free separator name) :
    StringUtil.split (StringUtil.join names separator) separator = names := by
  obtain ⟨pieces, hpieces, hjoin, hfree, hsplit⟩ :=
    split_spec hsep (StringUtil.join names separator)
  obtain rfl : pieces = names :=
    eq_of_intercalate_eq hborder hpieces hne hfree (fun name h => (hnames name h).2) hjoin
  have hfilled : ∀ piece ∈ pieces, piece.isEmpty = false :=
    fun piece h => List.isEmpty_eq_false_iff.mpr (hnames piece h).1
  have hall : pieces.all List.isEmpty = false := by
    obtain ⟨piece, rest, rfl⟩ := List.exists_cons_of_ne_nil hpieces
    rw [List.all_cons, hfilled piece List.mem_cons_self, Bool.false_and]
  rw [hsplit, hall, if_neg Bool.false_ne_true]
  exact List.filter_eq_self.mpr fun piece h => by rw [hfilled piece h]; rfl

/-- Empty words join to separators. -/
theorem intercalate_of_empty (separator : Bytes) {pieces : List Bytes}
    (h : ∀ piece ∈ pieces, piece = []) :
    separator.intercalate pieces = (List.replicate (pieces.length - 1) separator).flatten := by
  induction pieces with
  | nil => rfl
  | cons piece rest ih =>
      obtain rfl := h piece List.mem_cons_self
      cases rest with
      | nil => rfl
      | cons next rest =>
          rw [List.intercalate_cons_cons, ih fun p hp => h p (List.mem_cons_of_mem _ hp)]
          rfl

/-- What comes back from a split is not empty and free of the separator, unless
it is a text made of separators only. -/
theorem mem_split {separator : Bytes} (hsep : separator ≠ []) {text word : Bytes}
    (hword : word ∈ StringUtil.split text separator) :
    (word ≠ [] ∧ Free separator word) ∨
      ∃ k, text = (List.replicate k separator).flatten ∧
        StringUtil.split text separator = [text] := by
  obtain ⟨pieces, hpieces, hjoin, hfree, hsplit⟩ := split_spec hsep text
  rw [hsplit] at hword ⊢
  split at hword
  · next hall =>
    right
    rw [if_pos hall]
    refine ⟨pieces.length - 1, ?_, rfl⟩
    rw [← hjoin]
    exact intercalate_of_empty separator fun piece hpiece =>
      List.isEmpty_iff.mp (List.all_eq_true.mp hall piece hpiece)
  · left
    obtain ⟨hmem, hfilled⟩ := List.mem_filter.mp hword
    exact ⟨by simpa using hfilled, hfree word hmem⟩

/-! ## counting the observations -/

/-- How often a group set has been observed. -/
def timesObserved (groupSets : List (Bytes × Nat)) (groupSet : Bytes) : Nat :=
  (groupSets.lookup groupSet).getD 0

/-- The keys of the map are in order. -/
def Ordered (groupSets : List (Bytes × Nat)) : Prop :=
  groupSets.Pairwise fun a b => a.1 < b.1

/-- An observation alters the entry of its group set, or puts it in at its place. -/
theorem observeGroupSet_eq_alterEntries (groupSet : Bytes) (groupSets : List (Bytes × Nat)) :
    observeGroupSet groupSet groupSets =
      OrderedMap.alterEntries groupSet (fun times => times.getD 0 + 1) groupSets := by
  induction groupSets with
  | nil => rfl
  | cons entry rest ih =>
      rw [observeGroupSet, OrderedMap.alterEntries, ih]
      rfl

theorem ordered_observeGroupSet {groupSet : Bytes} {groupSets : List (Bytes × Nat)}
    (h : Ordered groupSets) : Ordered (observeGroupSet groupSet groupSets) := by
  rw [observeGroupSet_eq_alterEntries]
  exact OrderedMap.ordered_alterEntries h

theorem timesObserved_eq_findEntry (groupSets : List (Bytes × Nat)) (key : Bytes) :
    timesObserved groupSets key = (OrderedMap.findEntry key groupSets).getD 0 := by
  induction groupSets with
  | nil => rfl
  | cons entry rest ih =>
      obtain ⟨name, times⟩ := entry
      rw [timesObserved, List.lookup_cons, OrderedMap.findEntry]
      by_cases hkey : key = name
      · rw [if_pos hkey, beq_iff_eq.mpr hkey]
      · rw [if_neg hkey, beq_eq_false_iff_ne.mpr hkey]
        exact ih

/-- One more observation counts for its own key only. -/
theorem timesObserved_observeGroupSet {groupSet : Bytes} {groupSets : List (Bytes × Nat)}
    (h : Ordered groupSets) (key : Bytes) :
    timesObserved (observeGroupSet groupSet groupSets) key =
      timesObserved groupSets key + if groupSet = key then 1 else 0 := by
  rw [timesObserved_eq_findEntry, timesObserved_eq_findEntry, observeGroupSet_eq_alterEntries,
    OrderedMap.findEntry_alterEntries h]
  by_cases hkey : key = groupSet
  · rw [if_pos hkey, if_pos hkey.symm, hkey]
    rfl
  · rw [if_neg hkey, if_neg (Ne.symm hkey), Nat.add_zero]

/-- **The statistics count the observations**: the times a key has been observed
are the observations with that key. -/
theorem timesObserved_collect (observed : List (List Bytes)) :
    Ordered (collectGroupSets observed) ∧ ∀ key, timesObserved (collectGroupSets observed) key =
      observed.countP fun columns => groupSetKey columns = key := by
  have hfold : ∀ groupSets, Ordered groupSets →
      Ordered (observed.foldl (fun groupSets columns =>
        observeGroupSet (groupSetKey columns) groupSets) groupSets) ∧
      ∀ key, timesObserved (observed.foldl (fun groupSets columns =>
        observeGroupSet (groupSetKey columns) groupSets) groupSets) key =
        timesObserved groupSets key + observed.countP fun columns => groupSetKey columns = key := by
    induction observed with
    | nil => exact fun groupSets h => ⟨h, fun _ => rfl⟩
    | cons columns rest ih =>
        intro groupSets h
        obtain ⟨hordered, hcount⟩ := ih _ (@ordered_observeGroupSet (groupSetKey columns) _ h)
        refine ⟨hordered, fun key => ?_⟩
        rw [List.foldl_cons, hcount, timesObserved_observeGroupSet h, List.countP_cons]
        simp only [decide_eq_true_eq]
        omega
  obtain ⟨hordered, hcount⟩ := hfold [] List.Pairwise.nil
  refine ⟨hordered, fun key => (hcount key).trans ?_⟩
  exact Nat.zero_add _

/-- The hottest group set is one that was observed, and none was observed more
often. -/
theorem hottestGroupSet_spec {groupSets : List (Bytes × Nat)} (hordered : Ordered groupSets)
    {key : Bytes} (hkey : 0 < timesObserved groupSets key) :
    0 < timesObserved groupSets (hottestGroupSet groupSets) ∧
      ∀ key, timesObserved groupSets key ≤ timesObserved groupSets (hottestGroupSet groupSets) := by
  have hfold : ∀ (groupSets : List (Bytes × Nat)) (best : Bytes × Nat),
      ∃ r ∈ best :: groupSets, groupSets.foldl
        (fun best candidate => if candidate.2 > best.2 then candidate else best) best = r ∧
        ∀ entry ∈ best :: groupSets, entry.2 ≤ r.2 := by
    intro groupSets
    induction groupSets with
    | nil => exact fun best => ⟨best, List.mem_cons_self, rfl, by simp⟩
    | cons first rest ih =>
        intro best
        obtain ⟨r, hr, hfold, hmax⟩ := ih (if first.2 > best.2 then first else best)
        have hbest := hmax _ List.mem_cons_self
        refine ⟨r, ?_, hfold, ?_⟩
        · rcases List.mem_cons.mp hr with rfl | hr
          · split <;> simp
          · exact List.mem_cons_of_mem _ (List.mem_cons_of_mem _ hr)
        · intro entry hentry
          rcases List.mem_cons.mp hentry with rfl | hentry
          · split at hbest <;> omega
          · rcases List.mem_cons.mp hentry with rfl | hentry
            · split at hbest <;> omega
            · exact hmax entry (List.mem_cons_of_mem _ hentry)
  have hnd : (groupSets.map Prod.fst).Nodup := by
    refine List.pairwise_map.mpr (hordered.imp ?_)
    intro a b hlt heq
    rw [heq] at hlt
    exact List.lt_irrefl _ hlt
  have htimes : ∀ key, 0 < timesObserved groupSets key →
      ∃ n, (key, n) ∈ groupSets ∧ timesObserved groupSets key = n := by
    intro key hpos
    cases hl : groupSets.lookup key with
    | none => simp [timesObserved, hl] at hpos
    | some n => exact ⟨n, (lookup_eq_some_iff hnd).mp hl, by simp [timesObserved, hl]⟩
  obtain ⟨r, hr, hbest, hmax⟩ := hfold groupSets ([], 0)
  have hhottest : hottestGroupSet groupSets = r.1 := congrArg Prod.fst hbest
  obtain ⟨n, hmem, hn⟩ := htimes key hkey
  have hle := hmax _ (List.mem_cons_of_mem _ hmem)
  have hrmem : r ∈ groupSets := by
    rcases List.mem_cons.mp hr with rfl | hr
    · simp only at hle
      omega
    · exact hr
  have hrtimes : timesObserved groupSets r.1 = r.2 := by
    rw [timesObserved, (lookup_eq_some_iff hnd).mpr hrmem]
    rfl
  rw [hhottest, hrtimes]
  refine ⟨by simp only at hle; omega, fun key' => ?_⟩
  rcases Nat.eq_zero_or_pos (timesObserved groupSets key') with h0 | hpos
  · omega
  · obtain ⟨n', hmem', hn'⟩ := htimes key' hpos
    exact hn' ▸ hmax _ (List.mem_cons_of_mem _ hmem')

/-! ## faithful keys -/

variable {tableColumns columns other : List Bytes}

/-- A name that comes back from a split: not empty, and without the separator. -/
def Splittable (name : Bytes) : Prop := name ≠ [] ∧ Free groupSeparator name

/-- A text made of so many separators. -/
def separators (k : Nat) : Bytes := (List.replicate k groupSeparator).flatten

theorem groupSeparator_ne_nil : groupSeparator ≠ [] := by decide

theorem sortNames_ne_nil (h : columns ≠ []) : sortNames columns ≠ [] := by
  intro hnil
  have hperm := perm_sortNames columns
  rw [hnil] at hperm
  exact h hperm.nil_eq.symm

theorem sortNames_singleton (name : Bytes) : sortNames [name] = [name] :=
  List.perm_singleton.mp (perm_sortNames [name])

theorem groupSetKey_singleton (name : Bytes) : groupSetKey [name] = name := by
  rw [groupSetKey, sortNames_singleton, StringUtil.join, List.intercalate_singleton]

theorem isGroupSet_singleton {name : Bytes} (h : name ∈ tableColumns) :
    IsGroupSet tableColumns [name] :=
  ⟨List.cons_ne_nil _ _, List.nodup_singleton _, by simpa using h⟩

theorem projectColumns_eq_some {groupSet : Bytes} {names : List Bytes} :
    projectColumns groupSet = some names ↔ groupSet ≠ [] ∧ groupColumns groupSet = names := by
  unfold projectColumns
  split
  · next hempty => simp [List.isEmpty_iff.mp hempty]
  · next hfilled =>
    rw [Option.some.injEq]
    exact ⟨fun h => ⟨fun hnil => hfilled (by rw [hnil]; rfl), h⟩, fun h => h.2⟩

/-- Where the names are splittable, the set comes back. -/
theorem projectColumns_of_splittable (hnames : ∀ name ∈ tableColumns, Splittable name)
    (h : IsGroupSet tableColumns columns) :
    projectColumns (groupSetKey columns) = some (sortNames columns) := by
  have hsorted : ∀ name ∈ sortNames columns, Splittable name :=
    fun name hname => hnames name (h.subset ((perm_sortNames columns).subset hname))
  have hsplit : groupColumns (groupSetKey columns) = sortNames columns :=
    split_join groupSeparator_ne_nil unbordered_groupSeparator (sortNames_ne_nil h.nonempty)
      hsorted
  refine projectColumns_eq_some.mpr ⟨fun hempty => ?_, hsplit⟩
  rw [hempty] at hsplit
  have hmem : [] ∈ sortNames columns := hsplit ▸ List.mem_singleton.mpr rfl
  exact (hsorted _ hmem).1 rfl

/-- A name made of separators comes back when it is alone. -/
theorem projectColumns_separators {k : Nat} (hk : 0 < k) :
    projectColumns (separators k) = some [separators k] := by
  obtain ⟨pieces, hpieces, hjoin, hfree, hsplit⟩ :=
    split_spec groupSeparator_ne_nil (separators k)
  have hempty : ∀ piece ∈ List.replicate (k + 1) ([] : Bytes), piece = [] :=
    fun piece h => List.eq_of_mem_replicate h
  have heq : pieces = List.replicate (k + 1) [] := by
    refine eq_of_intercalate_eq unbordered_groupSeparator hpieces (List.cons_ne_nil _ _) hfree
      (fun word h => hempty word h ▸ free_nil groupSeparator_ne_nil) ?_
    rw [hjoin, intercalate_of_empty _ hempty, List.length_replicate]
    rfl
  have hall : pieces.all List.isEmpty = true := by
    rw [heq, List.all_eq_true]
    exact fun piece h => List.isEmpty_iff.mpr (hempty piece h)
  rw [hall, if_pos rfl] at hsplit
  refine projectColumns_eq_some.mpr ⟨?_, hsplit⟩
  obtain ⟨k, rfl⟩ := Nat.exists_eq_add_one_of_ne_zero (Nat.ne_of_gt hk)
  rw [separators, List.replicate_succ, List.flatten_cons]
  exact fun h => groupSeparator_ne_nil (List.append_eq_nil_iff.mp h).1

/-- Keys that come back tell the sets apart. -/
theorem perm_of_recovered
    (hrecovered : ∀ columns, IsGroupSet tableColumns columns →
      projectColumns (groupSetKey columns) = some (sortNames columns))
    (h : IsGroupSet tableColumns columns) (h' : IsGroupSet tableColumns other)
    (hkey : groupSetKey columns = groupSetKey other) : columns.Perm other := by
  have hsort : sortNames columns = sortNames other := by
    have hsome := hrecovered columns h
    rw [hkey, hrecovered other h', Option.some.injEq] at hsome
    exact hsome.symm
  exact (perm_sortNames columns).symm.trans (hsort ▸ perm_sortNames other)

/-- **When the keys come back they are faithful**: the hottest one stands for
the aggregation observed most often. -/
theorem groupSetsFaithful_of_recovered
    (hrecovered : ∀ columns, IsGroupSet tableColumns columns →
      projectColumns (groupSetKey columns) = some (sortNames columns)) :
    GroupSetsFaithful tableColumns where
  determined _ _ h h' hkey := perm_of_recovered hrecovered h h' hkey
  recovered := hrecovered
  materialized := by
    intro observed hne hsets
    obtain ⟨hordered, htimes⟩ := timesObserved_collect observed
    obtain ⟨first, rest, rfl⟩ := List.exists_cons_of_ne_nil hne
    have hfirst :
        0 < timesObserved (collectGroupSets (first :: rest)) (groupSetKey first) := by
      rw [htimes, List.countP_pos_iff]
      exact ⟨first, List.mem_cons_self, by simp⟩
    obtain ⟨hpos, hmax⟩ := hottestGroupSet_spec hordered hfirst
    rw [htimes, List.countP_pos_iff] at hpos
    obtain ⟨columns, hmem, hkey⟩ := hpos
    have hkey := of_decide_eq_true hkey
    refine ⟨columns, hmem, hkey ▸ hrecovered columns (hsets columns hmem), fun other hother => ?_⟩
    -- sets and keys are counted alike
    have hcount : ∀ set ∈ first :: rest,
        (first :: rest).countP (fun c => c.Perm set) =
          (first :: rest).countP fun c => groupSetKey c = groupSetKey set := by
      intro set hset
      refine List.countP_congr fun c hc => ?_
      rw [decide_eq_true_eq, decide_eq_true_eq]
      exact ⟨groupSetKey_congr, perm_of_recovered hrecovered (hsets c hc) (hsets set hset)⟩
    have hle := hmax (groupSetKey other)
    rw [htimes, htimes, ← hkey] at hle
    rw [hcount other hother, hcount columns hmem]
    exact hle

/-- A name that is not splittable comes back only when it is made of separators
and there is no other. -/
theorem eq_separators_of_faithful (h : GroupSetsFaithful tableColumns) {name : Bytes}
    (hname : name ∈ tableColumns) (hnot : ¬ Splittable name) :
    ∃ k, 0 < k ∧ ∀ other ∈ tableColumns, other = separators k := by
  have halone := h.recovered [name] (isGroupSet_singleton hname)
  rw [groupSetKey_singleton, sortNames_singleton] at halone
  obtain ⟨hfilled, hsplit⟩ := projectColumns_eq_some.mp halone
  have hmem : name ∈ StringUtil.split name groupSeparator := by
    rw [show StringUtil.split name groupSeparator = [name] from hsplit]
    exact List.mem_singleton.mpr rfl
  rcases mem_split groupSeparator_ne_nil hmem with hgood | ⟨k, hk, -⟩
  · exact absurd hgood hnot
  · refine ⟨k, ?_, fun other hother => ?_⟩
    · rcases Nat.eq_zero_or_pos k with rfl | hpos
      · exact absurd hk hfilled
      · exact hpos
    · by_contra hne
      have hdistinct : name ≠ other := fun heq => hne (heq ▸ hk)
      have hpair : IsGroupSet tableColumns [name, other] := by
        refine ⟨List.cons_ne_nil _ _, ?_, ?_⟩
        · exact List.nodup_cons.mpr ⟨by simpa using hdistinct, List.nodup_singleton _⟩
        · exact List.cons_subset.mpr ⟨hname, by simpa using hother⟩
      have hsome := h.recovered _ hpair
      obtain ⟨-, hsplit⟩ := projectColumns_eq_some.mp hsome
      have hmem : name ∈ StringUtil.split (groupSetKey [name, other]) groupSeparator := by
        rw [show StringUtil.split (groupSetKey [name, other]) groupSeparator =
          sortNames [name, other] from hsplit]
        exact (perm_sortNames _).symm.subset List.mem_cons_self
      rcases mem_split groupSeparator_ne_nil hmem with hgood | ⟨-, -, hwhole⟩
      · exact hnot hgood
      · have hlength := congrArg List.length (hwhole.symm.trans hsplit)
        rw [(perm_sortNames _).length_eq] at hlength
        exact absurd hlength (by simp)

/-- **When group set keys are faithful**: exactly when no column name of the
table is empty or contains the separator, or the only name is made of
separators. -/
theorem groupSetsFaithful_iff (tableColumns : List Bytes) :
    GroupSetsFaithful tableColumns ↔
      (∀ name ∈ tableColumns, name ≠ [] ∧ ¬ groupSeparator <:+: name) ∨
      ∃ k, 0 < k ∧ ∀ name ∈ tableColumns, name = (List.replicate k groupSeparator).flatten := by
  constructor
  · intro h
    by_cases hall : ∀ name ∈ tableColumns, Splittable name
    · exact .inl hall
    · obtain ⟨name, hname⟩ := not_forall.mp hall
      obtain ⟨hname, hnot⟩ := Classical.not_imp.mp hname
      exact .inr (eq_separators_of_faithful h hname hnot)
  · rintro (hall | ⟨k, hk, hall⟩)
    · exact groupSetsFaithful_of_recovered fun columns => projectColumns_of_splittable hall
    · refine groupSetsFaithful_of_recovered fun columns h => ?_
      -- a set of equal names has one
      have hone : columns = [separators k] := by
        have hcopies := List.eq_replicate_of_mem fun name hname => hall name (h.subset hname)
        have hone : columns.length ≤ 1 := by
          have hnd := h.nodup
          rw [hcopies] at hnd
          exact List.nodup_replicate.mp hnd
        have hpos := List.length_pos_of_ne_nil h.nonempty
        rw [hcopies, show columns.length = 1 by omega]
        rfl
      rw [hone, groupSetKey_singleton, sortNames_singleton]
      exact projectColumns_separators hk

/-- The row `{"a": 1, "b": 2, "a, b": 3}` makes three columns; the aggregation by
the first two has the key of the one by the third. -/
theorem groupSets_not_faithful :
    (flattenSchema (inferSchema smallDuck
        [.obj [(bytes "a", .uint 1), (bytes "b", .uint 2), (bytes "a, b", .uint 3)]]) false).map
        (fun columns => columns.map RawColumn.name) = .ok [bytes "a", bytes "b", bytes "a, b"] ∧
      groupSetKey [bytes "a", bytes "b"] = groupSetKey [bytes "a, b"] ∧
      ¬ GroupSetsFaithful [bytes "a", bytes "b", bytes "a, b"] := by
  have hkey : groupSetKey [bytes "a", bytes "b"] = groupSetKey [bytes "a, b"] := by
    rw [groupSetKey_singleton, groupSetKey,
      show sortNames [bytes "a", bytes "b"] = [bytes "a", bytes "b"] from
        List.mergeSort_of_pairwise (by decide)]
    rfl
  refine ⟨rfl, hkey, fun h => ?_⟩
  have hperm := h.determined [bytes "a", bytes "b"] [bytes "a, b"]
    ⟨by decide, by decide, by decide⟩ ⟨by decide, by decide, by decide⟩ hkey
  exact absurd hperm.length_eq (by decide)

end RawDuck
