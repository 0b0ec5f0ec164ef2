import Mathlib.Data.List.Basic
import Mathlib.Order.Defs.Unbundled

/-!
# RawDuck.OrderedMap

A small library of maps kept in the order of their keys, as `std::map` is.

* `OrderedMap` — the entries, with their order as a field;
* `find?`, `alter` — lookup, and the update of one entry through a function of
  what is there;
* `ext_find?` — maps in which every key finds the same are equal;
* `alter_comm` — updates that commute at one key commute.
-/

universe u v w

/-- Entries in the order of their keys, each key once. -/
structure OrderedMap (κ : Type u) (β : Type v) [LT κ] where
  entries : List (κ × β)
  ordered : entries.Pairwise fun a b => a.1 < b.1

namespace OrderedMap

variable {κ : Type u} {β : Type v} [LT κ]

/-- No entries. -/
def empty : OrderedMap κ β where
  entries := []
  ordered := .nil

theorem eq_of_entries {m m' : OrderedMap κ β} (h : m.entries = m'.entries) : m = m' := by
  cases m
  cases m'
  cases h
  rfl

theorem lt_of_not [IsStrictTotalOrder κ (· < ·)] {a b : κ} (hne : a ≠ b) (hnlt : ¬ a < b) :
    b < a := by
  by_contra h
  exact hne (Std.Trichotomous.trichotomous a b hnlt h)

/-- Byte strings can be keys. -/
instance isStrictTotalOrder_bytes : IsStrictTotalOrder (List UInt8) (· < ·) where

/-! ## what a key finds -/

variable [DecidableEq κ]

/-- The value of a key among entries. -/
def findEntry (key : κ) : List (κ × β) → Option β
  | [] => none
  | entry :: rest => if key = entry.1 then some entry.2 else findEntry key rest

/-- A key in front of all others finds nothing. -/
theorem findEntry_of_lt [IsStrictTotalOrder κ (· < ·)] {key : κ} {entries : List (κ × β)}
    (h : ∀ entry ∈ entries, key < entry.1) : findEntry key entries = none := by
  induction entries with
  | nil => rfl
  | cons first rest ih =>
      have hne : key ≠ first.1 := by
        intro heq
        have hlt := h first List.mem_cons_self
        rw [← heq] at hlt
        exact Std.Irrefl.irrefl key hlt
      rw [findEntry, if_neg hne]
      exact ih fun entry hentry => h entry (List.mem_cons_of_mem _ hentry)

/-- The value of a key. -/
def find? (m : OrderedMap κ β) (key : κ) : Option β := findEntry key m.entries

@[simp] theorem find?_empty (key : κ) : (empty : OrderedMap κ β).find? key = none := rfl

/-- The entries are what the keys find. -/
theorem mem_entries_iff [IsStrictTotalOrder κ (· < ·)] (m : OrderedMap κ β) {key : κ} {value : β} :
    (key, value) ∈ m.entries ↔ m.find? key = some value := by
  obtain ⟨entries, hordered⟩ := m
  show (key, value) ∈ entries ↔ findEntry key entries = some value
  induction entries with
  | nil => simp [findEntry]
  | cons first rest ih =>
      obtain ⟨hfirst, hrest⟩ := List.pairwise_cons.mp hordered
      rw [findEntry, List.mem_cons, ih hrest]
      split
      · next heq =>
        have hnone : findEntry key rest = none := by
          rw [heq]
          exact findEntry_of_lt hfirst
        rw [hnone, Option.some.injEq, heq]
        constructor
        · rintro (hpair | hfound)
          · rw [← hpair]
          · contradiction
        · exact fun hvalue => .inl (by rw [← hvalue])
      · next hne =>
        refine or_iff_right fun hpair => hne ?_
        rw [← hpair]

/-- Maps in which every key finds the same are equal. -/
theorem ext_find? [IsStrictTotalOrder κ (· < ·)] {m m' : OrderedMap κ β}
    (h : ∀ key, m.find? key = m'.find? key) : m = m' := by
  have hnodup : ∀ m : OrderedMap κ β, m.entries.Nodup := by
    intro m
    refine m.ordered.imp fun {a b} hlt heq => ?_
    rw [heq] at hlt
    exact Std.Irrefl.irrefl _ hlt
  have hperm : m.entries.Perm m'.entries := by
    refine (List.perm_ext_iff_of_nodup (hnodup m) (hnodup m')).mpr fun entry => ?_
    rw [m.mem_entries_iff, m'.mem_entries_iff, h]
  refine eq_of_entries (List.Perm.eq_of_pairwise (fun a b _ _ hab hba => ?_) m.ordered m'.ordered
    hperm)
  exact absurd (IsTrans.trans _ _ _ hab hba) (Std.Irrefl.irrefl a.1)

/-- A key is counted at most once. -/
theorem countP_entries [IsStrictTotalOrder κ (· < ·)] (m : OrderedMap κ β) (key : κ)
    (p : β → Bool) :
    m.entries.countP (fun entry => decide (entry.1 = key) && p entry.2) =
      if (m.find? key).any p then 1 else 0 := by
  obtain ⟨entries, hordered⟩ := m
  show entries.countP _ = if (findEntry key entries).any p then 1 else 0
  induction entries with
  | nil => rfl
  | cons first rest ih =>
      obtain ⟨hfirst, hrest⟩ := List.pairwise_cons.mp hordered
      rw [List.countP_cons, ih hrest, findEntry]
      by_cases hkey : key = first.1
      · rw [if_pos hkey, hkey, findEntry_of_lt hfirst, decide_eq_true rfl, Bool.true_and]
        exact Nat.zero_add _
      · rw [if_neg hkey, decide_eq_false (Ne.symm hkey), Bool.false_and]
        rfl

/-- A search of the entries finds what the key finds. -/
theorem find?_entries (m : OrderedMap κ β) (key : κ) :
    (m.entries.find? fun entry => entry.1 = key).map Prod.snd = m.find? key := by
  obtain ⟨entries, hordered⟩ := m
  show (entries.find? _).map Prod.snd = findEntry key entries
  clear hordered
  induction entries with
  | nil => rfl
  | cons first rest ih =>
      rw [List.find?_cons, findEntry]
      by_cases hkey : key = first.1
      · rw [if_pos hkey, decide_eq_true hkey.symm]
        rfl
      · rw [if_neg hkey, decide_eq_false (Ne.symm hkey), ← ih]

/-! ## one entry altered -/

variable [DecidableLT κ]

/-- Entries with the one of the key altered, or put in at its place. -/
def alterEntries (key : κ) (f : Option β → β) : List (κ × β) → List (κ × β)
  | [] => [(key, f none)]
  | entry :: rest =>
      if key = entry.1 then (key, f (some entry.2)) :: rest
      else if key < entry.1 then (key, f none) :: entry :: rest
      else entry :: alterEntries key f rest

theorem key_of_mem_alterEntries {key : κ} {f : Option β → β} {entries : List (κ × β)}
    {entry : κ × β} (h : entry ∈ alterEntries key f entries) :
    entry.1 = key ∨ entry ∈ entries := by
  induction entries with
  | nil => exact .inl (by rw [List.mem_singleton.mp h])
  | cons first rest ih =>
      rw [alterEntries] at h
      split at h
      · rcases List.mem_cons.mp h with rfl | h
        · exact .inl rfl
        · exact .inr (List.mem_cons_of_mem _ h)
      · split at h
        · rcases List.mem_cons.mp h with rfl | h
          · exact .inl rfl
          · exact .inr h
        · rcases List.mem_cons.mp h with rfl | h
          · exact .inr List.mem_cons_self
          · exact (ih h).imp_right (List.mem_cons_of_mem _)

section

variable [IsStrictTotalOrder κ (· < ·)]

theorem ordered_alterEntries {key : κ} {f : Option β → β} {entries : List (κ × β)}
    (h : entries.Pairwise fun a b => a.1 < b.1) :
    (alterEntries key f entries).Pairwise fun a b => a.1 < b.1 := by
  induction entries with
  | nil => exact List.pairwise_singleton _ _
  | cons first rest ih =>
      obtain ⟨hfirst, hrest⟩ := List.pairwise_cons.mp h
      rw [alterEntries]
      split
      · next heq => exact List.pairwise_cons.mpr ⟨heq ▸ hfirst, hrest⟩
      · next hne =>
        split
        · next hlt =>
          refine List.pairwise_cons.mpr ⟨fun entry hentry => ?_, h⟩
          rcases List.mem_cons.mp hentry with rfl | hentry
          · exact hlt
          · exact IsTrans.trans _ _ _ hlt (hfirst entry hentry)
        · next hnlt =>
          refine List.pairwise_cons.mpr ⟨fun entry hentry => ?_, ih hrest⟩
          rcases key_of_mem_alterEntries hentry with heq | hold
          · exact heq ▸ lt_of_not hne hnlt
          · exact hfirst entry hold

/-- The entry of a key altered, or put in. -/
def alter (m : OrderedMap κ β) (key : κ) (f : Option β → β) : OrderedMap κ β where
  entries := alterEntries key f m.entries
  ordered := ordered_alterEntries m.ordered

theorem findEntry_alterEntries {key : κ} {f : Option β → β} {entries : List (κ × β)}
    (h : entries.Pairwise fun a b => a.1 < b.1) (k : κ) :
    findEntry k (alterEntries key f entries) =
      if k = key then some (f (findEntry key entries)) else findEntry k entries := by
  induction entries with
  | nil => rfl
  | cons first rest ih =>
      obtain ⟨hfirst, hrest⟩ := List.pairwise_cons.mp h
      rw [alterEntries]
      split
      · next heq =>
        subst heq
        rw [findEntry, findEntry, findEntry]
        split
        · rw [if_pos rfl]
        · rfl
      · next hne =>
        split
        · next hlt =>
          have hnone : findEntry key (first :: rest) = none := by
            refine findEntry_of_lt fun entry hentry => ?_
            rcases List.mem_cons.mp hentry with rfl | hentry
            · exact hlt
            · exact IsTrans.trans _ _ _ hlt (hfirst entry hentry)
          rw [hnone, findEntry]
        · rw [findEntry, ih hrest, findEntry, findEntry, if_neg hne]
          by_cases hk : k = first.1
          · rw [if_pos hk, if_pos hk, if_neg (hk ▸ Ne.symm hne)]
          · rw [if_neg hk, if_neg hk]

/-- What the keys find after an update. -/
theorem find?_alter (m : OrderedMap κ β) (key : κ) (f : Option β → β) (k : κ) :
    (m.alter key f).find? k = if k = key then some (f (m.find? key)) else m.find? k :=
  findEntry_alterEntries m.ordered k

/-! ## updates -/

theorem alter_alter_self (m : OrderedMap κ β) (key : κ) (f g : Option β → β) :
    (m.alter key f).alter key g = m.alter key fun value => g (some (f value)) := by
  refine ext_find? fun k => ?_
  simp only [find?_alter, if_true]
  split <;> rfl

/-- Updates of different keys commute, and so do updates of one key that do. -/
theorem alter_comm (m : OrderedMap κ β) {key key' : κ} {f g : Option β → β}
    (h : key = key' → ∀ value, g (some (f value)) = f (some (g value))) :
    (m.alter key f).alter key' g = (m.alter key' g).alter key f := by
  by_cases hkey : key = key'
  · subst hkey
    rw [alter_alter_self, alter_alter_self]
    exact congrArg _ (funext (h rfl))
  · refine ext_find? fun k => ?_
    simp only [find?_alter]
    by_cases hk : k = key
    · rw [if_pos hk, if_neg (hk ▸ hkey), if_pos hk, if_neg hkey]
    · rw [if_neg hk, if_neg (Ne.symm hkey), if_neg hk]

end

end OrderedMap
