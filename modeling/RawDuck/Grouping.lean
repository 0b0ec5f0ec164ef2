import Mathlib.Algebra.BigOperators.Group.List.Lemmas
import Mathlib.Algebra.GroupWithZero.Nat
import Mathlib.Data.List.Dedup
import Mathlib.Data.List.Perm.Basic

/-!
# RawDuck.Grouping

A small library for grouped aggregation over lists of rows.

* `groupBy` — one pair for each key, with what an aggregate makes of the rows
  of that key;
* `groupBy_perm` — two groupings look the same up to order when they have the
  same keys and look the same on each;
* `sum_roll_up` — counting by a fine key first and summing the counts by a
  coarser one counts the rows of the coarser key.
-/

namespace Grouping

variable {α α' β κ κ' : Type} [DecidableEq κ] [DecidableEq κ']

/-- The keys of the rows, each once. -/
def keys (key : α → κ) (rows : List α) : List κ := (rows.map key).dedup

/-- The rows of a key. -/
def group (key : α → κ) (rows : List α) (k : κ) : List α := rows.filter fun row => key row = k

/-- One pair for each key, with the aggregate of its rows. -/
def groupBy (key : α → κ) (aggregate : List α → β) (rows : List α) : List (κ × β) :=
  (keys key rows).map fun k => (k, aggregate (group key rows k))

theorem mem_keys {key : α → κ} {rows : List α} {k : κ} :
    k ∈ keys key rows ↔ ∃ row ∈ rows, key row = k := by
  rw [keys, List.mem_dedup, List.mem_map]

theorem nodup_keys (key : α → κ) (rows : List α) : (keys key rows).Nodup := List.nodup_dedup _

/-- Rows that all have one key have at most one. -/
theorem length_keys_le_one {key : α → κ} {rows : List α}
    (h : ∀ a ∈ rows, ∀ b ∈ rows, key a = key b) : (keys key rows).length ≤ 1 := by
  cases hkeys : keys key rows with
  | nil => simp
  | cons k rest =>
      cases rest with
      | nil => simp
      | cons k' rest =>
          have hnd := nodup_keys key rows
          rw [hkeys] at hnd
          obtain ⟨a, ha, hka⟩ := mem_keys.mp (hkeys ▸ List.mem_cons_self : k ∈ keys key rows)
          obtain ⟨b, hb, hkb⟩ := mem_keys.mp
            (hkeys ▸ List.mem_cons_of_mem _ List.mem_cons_self : k' ∈ keys key rows)
          refine absurd ?_ (List.nodup_cons.mp hnd).1
          rw [← hka, h a ha b hb, hkb]
          exact List.mem_cons_self

/-- Two rows with different keys have two. -/
theorem length_keys_pair {key : α → κ} {a b : α} (h : key a ≠ key b) :
    (keys key [a, b]).length = 2 := by
  rw [keys, List.map_cons, List.map_singleton, List.dedup_cons_of_notMem (by simpa using h)]
  rfl

/-- Of two rows, both have as many rows of their own key. -/
theorem length_group_pair (key : α → κ) (a b : α) :
    (group key [a, b] (key a)).length = (group key [a, b] (key b)).length := by
  by_cases h : key a = key b
  · rw [h]
  · have h' : key b ≠ key a := fun heq => h heq.symm
    simp [group, h, h']

theorem group_congr {key key' : α → κ} {rows : List α} (h : ∀ row ∈ rows, key row = key' row)
    (k : κ) : group key rows k = group key' rows k :=
  List.filter_congr fun row hrow => by rw [h row hrow]

/-- Groupings with the same keys are equal up to order, seen through functions
that agree on each key with its aggregate. -/
theorem groupBy_perm {β' γ : Type} {key : α → κ} {aggregate : List α → β} {rows : List α}
    {key' : α' → κ} {aggregate' : List α' → β'} {rows' : List α'} {f : κ × β → γ}
    {f' : κ × β' → γ} (hkeys : ∀ k, k ∈ keys key rows ↔ k ∈ keys key' rows')
    (hagree : ∀ k ∈ keys key rows,
      f (k, aggregate (group key rows k)) = f' (k, aggregate' (group key' rows' k))) :
    ((groupBy key aggregate rows).map f).Perm ((groupBy key' aggregate' rows').map f') := by
  have hperm : (keys key rows).Perm (keys key' rows') :=
    (List.perm_ext_iff_of_nodup (nodup_keys key rows) (nodup_keys key' rows')).mpr hkeys
  have hmap : (groupBy key aggregate rows).map f =
      (keys key rows).map fun k => f' (k, aggregate' (group key' rows' k)) := by
    rw [groupBy, List.map_map]
    exact List.map_congr_left fun k hk => hagree k hk
  rw [hmap, groupBy, List.map_map]
  exact hperm.map _

theorem groupBy_singleton (key : α → κ) (aggregate : List α → β) (row : α) :
    groupBy key aggregate [row] = [(key row, aggregate [row])] := by
  simp [groupBy, keys, group]

theorem length_groupBy (key : α → κ) (aggregate : List α → β) (rows : List α) :
    (groupBy key aggregate rows).length = (keys key rows).length := List.length_map _

theorem keys_map (f : α' → α) (key : α → κ) (rows : List α') :
    keys key (rows.map f) = keys (fun row => key (f row)) rows := by
  rw [keys, keys, List.map_map]
  rfl

theorem group_map (f : α' → α) (key : α → κ) (rows : List α') (k : κ) :
    group key (rows.map f) k = (group (fun row => key (f row)) rows k).map f := by
  rw [group, List.filter_map]
  rfl

/-- Grouping the images of rows is grouping the rows. -/
theorem groupBy_map (f : α' → α) (key : α → κ) (aggregate : List α → β) (rows : List α') :
    groupBy key aggregate (rows.map f) =
      groupBy (fun row => key (f row)) (fun rows => aggregate (rows.map f)) rows := by
  simp only [groupBy, keys_map, group_map]

/-- Rows in another order have the same keys. -/
theorem mem_keys_of_perm {key : α → κ} {rows rows' : List α} (h : rows.Perm rows') (k : κ) :
    k ∈ keys key rows ↔ k ∈ keys key rows' := by
  simp only [mem_keys, h.mem_iff]

/-- Rows in another order have the same groups, up to order. -/
theorem group_perm {key : α → κ} {rows rows' : List α} (h : rows.Perm rows') (k : κ) :
    (group key rows k).Perm (group key rows' k) := h.filter _

/-- **Roll-up**: the counts of the fine keys of a coarse key add up to the
number of its rows. -/
theorem sum_roll_up (fine : α → κ) (coarse : κ → κ') (rows : List α) (k : κ') :
    ((group (fun g : κ × Nat => coarse g.1) (groupBy fine List.length rows) k).map Prod.snd).sum =
      (group (fun row => coarse (fine row)) rows k).length := by
  have hgroup : group (fun g : κ × Nat => coarse g.1) (groupBy fine List.length rows) k =
      ((keys fine rows).filter fun f => coarse f = k).map
        fun f => (f, (group fine rows f).length) := by
    rw [group, groupBy, List.filter_map]
    rfl
  have hcount : ∀ f, (group fine rows f).length = (rows.map fine).count f := by
    intro f
    rw [group, ← List.countP_eq_length_filter, List.count, List.countP_map]
    rfl
  rw [hgroup, List.map_map, group, ← List.countP_eq_length_filter]
  calc (((keys fine rows).filter fun f => coarse f = k).map
          (Prod.snd ∘ fun f => (f, (group fine rows f).length))).sum
      = (((rows.map fine).dedup.filter fun f => coarse f = k).map
          fun f => (rows.map fine).count f).sum := by
        simp only [keys, Function.comp_def, hcount]
    _ = (rows.map fine).countP fun f => coarse f = k :=
        List.sum_map_count_dedup_filter_eq_countP _ _
    _ = rows.countP fun row => coarse (fine row) = k := by
        rw [List.countP_map]
        rfl

end Grouping
