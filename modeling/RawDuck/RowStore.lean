import Mathlib.Data.List.Basic
import Mathlib.Data.List.Perm.Basic

/-!
# RawDuck.RowStore

A small library for stores that number what they hold: every value added gets
the next number, and a number that is given up is not used again.

* `RowStore` — the values with their numbers, in ascending order;
* `RowStore.endId` — one more than the largest number in use;
* `RowStore.Contiguous` — no number below `endId` is unused;
* `RowStore.not_contiguous_append` — what is added behind an unused number never
  makes a store contiguous.
-/

universe u

/-- Values under ascending numbers, all below the next one to be used. -/
structure RowStore (α : Type u) where
  rows : List (Nat × α)
  next : Nat
  ordered : (rows.map Prod.fst).Pairwise (· < ·)
  bounded : ∀ r ∈ rows, r.1 < next

variable {α : Type u}

namespace RowStore

/-- The values, in order. -/
def values (s : RowStore α) : List α := s.rows.map Prod.snd

/-- One more than the largest number in use, 0 without any. -/
def endId (s : RowStore α) : Nat := (s.rows.getLast?.map fun r => r.1 + 1).getD 0

/-- There are as many values as numbers below `endId`. -/
def Contiguous (s : RowStore α) : Prop := s.rows.length = s.endId

instance (s : RowStore α) : Decidable s.Contiguous :=
  inferInstanceAs (Decidable (s.rows.length = s.endId))

/-- The values numbered from `n` on. -/
def numbered (n : Nat) (new : List α) : List (Nat × α) := (new.zipIdx n).map Prod.swap

@[simp] theorem length_numbered (n : Nat) (new : List α) :
    (numbered n new).length = new.length := by
  simp [numbered]

@[simp] theorem map_snd_numbered (n : Nat) (new : List α) :
    (numbered n new).map Prod.snd = new := by
  simp [numbered, Function.comp_def]

theorem map_fst_numbered (n : Nat) (new : List α) :
    (numbered n new).map Prod.fst = List.range' n new.length := by
  simp [numbered, Function.comp_def]

theorem mem_numbered_bounds {n : Nat} {new : List α} {r : Nat × α} (h : r ∈ numbered n new) :
    n ≤ r.1 ∧ r.1 < n + new.length := by
  have hfst : r.1 ∈ (numbered n new).map Prod.fst := List.mem_map_of_mem h
  rw [map_fst_numbered, List.mem_range'_1] at hfst
  exact hfst

/-- The store without values. -/
def empty : RowStore α where
  rows := []
  next := 0
  ordered := .nil
  bounded := fun _ h => nomatch h

/-- Adds values at the end. -/
def append (s : RowStore α) (new : List α) : RowStore α where
  rows := s.rows ++ numbered s.next new
  next := s.next + new.length
  ordered := by
    rw [List.map_append, map_fst_numbered, List.pairwise_append]
    refine ⟨s.ordered, List.pairwise_lt_range', ?_⟩
    intro a ha b hb
    obtain ⟨r, hr, rfl⟩ := List.mem_map.mp ha
    have hlt := s.bounded r hr
    have hle := (List.mem_range'_1.mp hb).1
    omega
  bounded := by
    intro r hr
    cases List.mem_append.mp hr with
    | inl hr => have := s.bounded r hr; omega
    | inr hr => exact (mem_numbered_bounds hr).2

/-- Gives up the values numbered from `n` on; the next number stays. -/
def deleteFrom (s : RowStore α) (n : Nat) : RowStore α where
  rows := s.rows.filter fun r => r.1 < n
  next := s.next
  ordered := s.ordered.sublist (List.filter_sublist.map Prod.fst)
  bounded := fun r hr => s.bounded r (List.mem_filter.mp hr).1

/-- The values numbered from `n` on. -/
def valuesFrom (s : RowStore α) (n : Nat) : List α :=
  (s.rows.filter fun r => n ≤ r.1).map Prod.snd

@[simp] theorem values_append (s : RowStore α) (new : List α) :
    (s.append new).values = s.values ++ new := by
  simp [values, append]

@[simp] theorem values_empty : (empty : RowStore α).values = [] := rfl

@[simp] theorem length_append (s : RowStore α) (new : List α) :
    (s.append new).rows.length = s.rows.length + new.length := by
  simp [append]

/-- What is given up and what stays are the values. -/
theorem perm_values (s : RowStore α) (n : Nat) :
    ((s.deleteFrom n).values ++ s.valuesFrom n).Perm s.values := by
  have hsplit : (s.rows.filter (fun r => decide (r.1 < n)) ++
      s.rows.filter (fun r => !decide (r.1 < n))).Perm s.rows :=
    List.filter_append_perm _ _
  have hnot : (s.rows.filter fun r => !decide (r.1 < n)) = s.rows.filter fun r => n ≤ r.1 := by
    apply List.filter_congr
    intro r _
    rw [← decide_not, decide_eq_decide]
    omega
  rw [hnot] at hsplit
  have hmap := hsplit.map Prod.snd
  rw [List.map_append] at hmap
  exact hmap

theorem length_deleteFrom_add (s : RowStore α) (n : Nat) :
    (s.deleteFrom n).rows.length + (s.valuesFrom n).length = s.rows.length := by
  have hlen := (s.perm_values n).length_eq
  simpa [values] using hlen

/-! ## the numbers in use -/

theorem length_le_next (s : RowStore α) : s.rows.length ≤ s.next := by
  have hnodup : (s.rows.map Prod.fst).Nodup := s.ordered.imp fun h => Nat.ne_of_lt h
  have hsubset : s.rows.map Prod.fst ⊆ List.range s.next := by
    intro n hn
    obtain ⟨r, hr, rfl⟩ := List.mem_map.mp hn
    exact List.mem_range.mpr (s.bounded r hr)
  have hle := (List.subperm_of_subset hnodup hsubset).length_le
  simpa using hle

theorem endId_append {new : List α} (s : RowStore α) (h : new ≠ []) :
    (s.append new).endId = s.next + new.length := by
  obtain ⟨front, last, hnew⟩ := new.eq_nil_or_concat.resolve_left h
  rw [List.concat_eq_append] at hnew
  subst hnew
  have hlast : (numbered s.next (front ++ [last])).getLast? =
      some (s.next + front.length, last) := by
    simp [numbered, List.zipIdx_append]
  rw [endId, append, List.getLast?_append, hlast]
  simp
  omega

/-- Values that were added to the empty store are numbered without gaps. -/
theorem contiguous_of_empty (new : List α) : ((empty : RowStore α).append new).Contiguous := by
  cases new with
  | nil => rfl
  | cons a new =>
      rw [Contiguous, endId_append _ (by simp), length_append]
      rfl

/-- The largest number in use is that of a value. -/
theorem valuesFrom_ne_nil {s : RowStore α} {n : Nat} (h : n < s.endId) : s.valuesFrom n ≠ [] := by
  rw [endId] at h
  cases hlast : s.rows.getLast? with
  | none => simp [hlast] at h
  | some r =>
      simp only [hlast, Option.map_some, Option.getD_some] at h
      have hmem : r ∈ s.rows := List.mem_of_getLast? hlast
      have hfrom : r.2 ∈ s.valuesFrom n := by
        apply List.mem_map_of_mem
        rw [List.mem_filter]
        exact ⟨hmem, by simp only [decide_eq_true_eq]; omega⟩
      exact List.ne_nil_of_mem hfrom

/-- Values that are given up and added again leave unused numbers behind. -/
theorem not_contiguous_append {s : RowStore α} {n : Nat} {new : List α}
    (hnew : new.length = (s.valuesFrom n).length) (h : new ≠ []) :
    ¬((s.deleteFrom n).append new).Contiguous := by
  rw [Contiguous, endId_append _ h, length_append, hnew, length_deleteFrom_add]
  have hle := s.length_le_next
  have hpos : 0 < new.length := List.length_pos_of_ne_nil h
  show s.rows.length ≠ s.next + _
  omega

end RowStore
