import Mathlib.Data.List.Infix

/-!
# RawDuck.Delimited

A small library about lists of words joined by a separator.

* `Free` — the separator does not occur in a word;
* `Unbordered` — the separator does not overlap itself, so that an occurrence
  in a joined text is one of those that joined it, or lies within a word
  (`not_prefix_drop`);
* `eq_of_intercalate_eq` — words free of an unbordered separator are determined
  by the text they are joined to.
-/

namespace Delimited

variable {α : Type*} {sep : List α}

/-- The separator does not occur in the word. -/
def Free (sep word : List α) : Prop := ¬ sep <:+: word

/-- No proper part at the front of the separator is also at its end. -/
def Unbordered (sep : List α) : Prop :=
  ∀ k < sep.length, 0 < k → sep.take k ≠ sep.drop (sep.length - k)

theorem free_nil (hsep : sep ≠ []) : Free sep [] :=
  fun h => hsep (List.infix_nil.mp h)

/-- Before the first separator behind a free word no separator starts. -/
theorem not_prefix_drop (hsep : Unbordered sep) {word : List α} (hword : Free sep word)
    (rest : List α) {i : Nat} (hi : i < word.length) :
    ¬ sep <+: (word ++ (sep ++ rest)).drop i := by
  intro hprefix
  rw [List.drop_append_of_le_length hi.le] at hprefix
  have hlength : (word.drop i).length = word.length - i := List.length_drop
  rcases Nat.lt_or_ge (word.drop i).length sep.length with hlt | hle
  · -- the occurrence would run over into the separator itself
    have htake : sep = word.drop i ++ sep.take (sep.length - (word.drop i).length) := by
      have h := List.prefix_iff_eq_take.mp hprefix
      rw [List.take_append, List.take_of_length_le hlt.le,
        List.take_append_of_le_length (by omega)] at h
      exact h
    refine hsep (sep.length - (word.drop i).length) (by omega) (by omega) ?_
    have hdrop := congrArg (List.drop (word.drop i).length) htake
    rw [List.drop_left] at hdrop
    rw [← hdrop]
    congr 1
    omega
  · have hin : sep <+: word.drop i :=
      List.prefix_of_prefix_length_le hprefix (List.prefix_append _ _) hle
    exact hword (hin.isInfix.trans (List.drop_suffix i word).isInfix)

/-- The word in front of a separator is determined. -/
theorem eq_of_append_eq (hsep : Unbordered sep) {word word' rest rest' : List α}
    (hword : Free sep word) (hword' : Free sep word')
    (h : word ++ (sep ++ rest) = word' ++ (sep ++ rest')) : word = word' ∧ rest = rest' := by
  have hnot : ∀ {word word' rest rest' : List α}, Free sep word' →
      word ++ (sep ++ rest) = word' ++ (sep ++ rest') → ¬ word.length < word'.length := by
    intro word word' rest rest' hword' h hlt
    apply not_prefix_drop hsep hword' rest' hlt
    rw [← h, List.drop_left]
    exact List.prefix_append _ _
  have hlength : word.length = word'.length :=
    Nat.le_antisymm (Nat.not_lt.mp (hnot hword h.symm)) (Nat.not_lt.mp (hnot hword' h))
  obtain ⟨hw, hr⟩ := List.append_inj h hlength
  exact ⟨hw, List.append_cancel_left hr⟩

/-- A free word is not joined from several. -/
theorem not_free_intercalate (word next : List α) (words : List (List α)) :
    ¬ Free sep (sep.intercalate (word :: next :: words)) := by
  intro h
  rw [List.intercalate_cons_cons] at h
  apply h
  rw [List.append_assoc]
  exact ⟨word, _, by rw [List.append_assoc]⟩

/-- **Joining free words is injective**: the words are determined by the text. -/
theorem eq_of_intercalate_eq (hsep : Unbordered sep) {words words' : List (List α)}
    (hne : words ≠ []) (hne' : words' ≠ []) (hfree : ∀ word ∈ words, Free sep word)
    (hfree' : ∀ word ∈ words', Free sep word)
    (h : sep.intercalate words = sep.intercalate words') : words = words' := by
  induction words generalizing words' with
  | nil => exact absurd rfl hne
  | cons word rest ih =>
      obtain ⟨word', rest', rfl⟩ := List.exists_cons_of_ne_nil hne'
      have hword := hfree word List.mem_cons_self
      have hword' := hfree' word' List.mem_cons_self
      cases rest with
      | nil =>
          cases rest' with
          | nil =>
              rw [List.intercalate_singleton, List.intercalate_singleton] at h
              rw [h]
          | cons next' rest' =>
              rw [List.intercalate_singleton] at h
              exact absurd (h ▸ hword) (not_free_intercalate _ _ _)
      | cons next rest =>
          cases rest' with
          | nil =>
              rw [List.intercalate_singleton] at h
              exact absurd (h ▸ hword') (not_free_intercalate _ _ _)
          | cons next' rest' =>
              rw [List.intercalate_cons_cons, List.intercalate_cons_cons, List.append_assoc,
                List.append_assoc] at h
              obtain ⟨rfl, hrest⟩ := eq_of_append_eq hsep hword hword' h
              rw [ih (List.cons_ne_nil _ _) (List.cons_ne_nil _ _)
                (fun w hw => hfree w (List.mem_cons_of_mem _ hw))
                (fun w hw => hfree' w (List.mem_cons_of_mem _ hw)) hrest]

end Delimited
