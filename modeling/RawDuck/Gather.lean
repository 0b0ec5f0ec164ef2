import RawDuck.Fallible
import Mathlib.Data.List.Infix
import Mathlib.Data.List.MinMax

/-!
# RawDuck.Gather

A small library about streams whose groups are gathered into batches, and about
rows that others take the place of.

* `gather` — the batches: groups are put together until a batch is full;
* `Gathers` — a program that hands over full batches as it goes; its run maps what
  it does with a batch over them (`Gathers.run`);
* `flatMap_eq_self_iff` — what is put in the place of elements and never grows
  leaves a list as it is only element by element.
-/

namespace Gather

open Fallible

universe u

variable {α β γ ε ρ σ : Type u}

/-! ## batches -/

/-- The batches of groups that come in turn: a batch is closed once it has `full`
elements, and the last one when no group is left, unless it is empty. -/
def gather (full : Nat) : (gathered : List α) → (groups : List (List α)) → List (List α)
  | gathered, [] => if gathered.isEmpty then [] else [gathered]
  | gathered, group :: groups =>
      if full ≤ (gathered ++ group).length then (gathered ++ group) :: gather full [] groups
      else gather full (gathered ++ group) groups

/-- The batches hold every element, in order. -/
theorem flatten_gather (full : Nat) (gathered : List α) (groups : List (List α)) :
    (gather full gathered groups).flatten = gathered ++ groups.flatten := by
  induction groups generalizing gathered with
  | nil =>
      rw [gather]
      split
      · next hempty => simp [List.isEmpty_iff.mp hempty]
      · simp
  | cons group groups ih =>
      rw [gather]
      split
      · rw [List.flatten_cons, ih, List.nil_append, List.flatten_cons, List.append_assoc]
      · rw [ih, List.flatten_cons, List.append_assoc]

/-- A batch is a stretch of the elements. -/
theorem isInfix_of_mem_gather {full : Nat} {gathered batch : List α} {groups : List (List α)}
    (h : batch ∈ gather full gathered groups) : batch <:+: gathered ++ groups.flatten := by
  rw [← flatten_gather full]
  exact List.infix_of_mem_flatten h

/-- No batch is empty. -/
theorem ne_nil_of_mem_gather {full : Nat} (hfull : 0 < full) {gathered batch : List α}
    {groups : List (List α)} (h : batch ∈ gather full gathered groups) : batch ≠ [] := by
  induction groups generalizing gathered with
  | nil =>
      rw [gather] at h
      split at h
      · exact nomatch h
      · next hempty =>
        rw [List.mem_singleton.mp h]
        exact fun hnil => hempty (List.isEmpty_iff.mpr hnil)
  | cons group groups ih =>
      rw [gather] at h
      split at h
      · next hlength =>
        rcases List.mem_cons.mp h with rfl | h
        · exact List.length_pos_iff.mp (hfull.trans_le hlength)
        · exact ih h
      · exact ih h

/-- A program that gathers the elements it sees in each item: `At s gathered out` says
what it has gathered and what it has handed over.  A step adds to what is gathered, and
gives a full batch; the end gives the rest, if there is any. -/
structure Gathers (full : Nat) (give : List α → Except ε ρ) (step : σ → γ → Except ε σ)
    (finish : σ → Except ε (List ρ)) (view : γ → List α) (items : List γ)
    (At : σ → List α → List ρ → Prop) : Prop where
  keeps : ∀ {s gathered out}, ∀ c ∈ items, At s gathered out →
    (gathered ++ view c).length < full → ∃ s', step s c = .ok s' ∧ At s' (gathered ++ view c) out
  gives : ∀ {s gathered out r}, ∀ c ∈ items, At s gathered out →
    full ≤ (gathered ++ view c).length → give (gathered ++ view c) = .ok r →
      ∃ s', step s c = .ok s' ∧ At s' [] (out ++ [r])
  raises : ∀ {s gathered out e}, ∀ c ∈ items, At s gathered out →
    full ≤ (gathered ++ view c).length → give (gathered ++ view c) = .error e →
      step s c = .error e
  ends : ∀ {s out}, At s [] out → finish s = .ok out
  endsGiving : ∀ {s gathered out}, At s gathered out → gathered ≠ [] →
    finish s = give gathered >>= fun r => pure (out ++ [r])

/-- **A program that gathers** maps `give` over the batches. -/
theorem Gathers.run {full : Nat} {give : List α → Except ε ρ} {step : σ → γ → Except ε σ}
    {finish : σ → Except ε (List ρ)} {view : γ → List α} {items : List γ}
    {At : σ → List α → List ρ → Prop} (h : Gathers full give step finish view items At)
    {s : σ} {gathered : List α} {out : List ρ} (hs : At s gathered out) :
    (items.foldlM step s >>= finish) =
      (gather full gathered (items.map view)).mapM give >>= fun rs => pure (out ++ rs) := by
  induction items generalizing s gathered out with
  | nil =>
      show finish s = _
      rw [List.map_nil, gather]
      split
      · next hempty =>
        obtain rfl := List.isEmpty_iff.mp hempty
        rw [h.ends hs, List.mapM_nil]
        show _ = Except.ok (out ++ [])
        rw [List.append_nil]
      · next hsome =>
        rw [h.endsGiving hs fun hnil => hsome (List.isEmpty_iff.mpr hnil), List.mapM_cons]
        cases give gathered with
        | error e => rfl
        | ok r => rfl
  | cons c items ih =>
      have hrest : Gathers full give step finish view items At :=
        { h with
          keeps := fun c hc => h.keeps c (List.mem_cons_of_mem _ hc)
          gives := fun c hc => h.gives c (List.mem_cons_of_mem _ hc)
          raises := fun c hc => h.raises c (List.mem_cons_of_mem _ hc) }
      rw [List.foldlM_cons, List.map_cons, gather]
      split
      · next hlength =>
        rw [List.mapM_cons]
        cases hr : give (gathered ++ view c) with
        | error e =>
            rw [h.raises c List.mem_cons_self hs hlength hr]
            rfl
        | ok r =>
            obtain ⟨s', hstep, hs'⟩ := h.gives c List.mem_cons_self hs hlength hr
            have hrun := ih hrest hs'
            rw [hstep]
            calc (items.foldlM step s' >>= finish)
                = (gather full [] (items.map view)).mapM give >>=
                    fun rs => pure ((out ++ [r]) ++ rs) := hrun
              _ = _ := by
                  cases (gather full [] (items.map view)).mapM give with
                  | error e => rfl
                  | ok rs =>
                      show Except.ok ((out ++ [r]) ++ rs) = Except.ok (out ++ r :: rs)
                      rw [List.append_assoc, List.singleton_append]
      · next hlength =>
        obtain ⟨s', hstep, hs'⟩ := h.keeps c List.mem_cons_self hs (Nat.lt_of_not_le hlength)
        rw [hstep]
        exact ih hrest hs'

/-- The same of a run that has gathered nothing yet. -/
theorem Gathers.run_eq {full : Nat} {give : List α → Except ε ρ} {step : σ → γ → Except ε σ}
    {finish : σ → Except ε (List ρ)} {view : γ → List α} {items : List γ}
    {At : σ → List α → List ρ → Prop} (h : Gathers full give step finish view items At)
    {s : σ} (hs : At s [] []) :
    (items.foldlM step s >>= finish) = (gather full [] (items.map view)).mapM give := by
  rw [h.run hs]
  exact bind_pure _

/-! ## what takes the place of elements -/

variable {μ : α → Nat} {put : α → List α}

/-- Of the elements with a property, one is a largest. -/
theorem exists_largest (μ : α → Nat) {P : α → Prop} {as : List α} (h : ∃ a ∈ as, P a) :
    ∃ a ∈ as, P a ∧ ∀ a' ∈ as, P a' → μ a' ≤ μ a := by
  classical
  obtain ⟨a, ha, hP⟩ := h
  cases hlargest : (as.filter P).argmax μ with
  | none =>
      have hmem : a ∈ as.filter P := by simp [ha, hP]
      rw [List.argmax_eq_none.mp hlargest] at hmem
      exact nomatch hmem
  | some largest =>
      obtain ⟨hmem, hPl⟩ := List.mem_filter.mp (List.argmax_mem hlargest)
      refine ⟨largest, hmem, of_decide_eq_true hPl, fun a' ha' hP' => ?_⟩
      exact List.le_of_mem_argmax (by simp [ha', hP']) hlargest

/-- What is put in the place of an element has at most as many elements of a size as
it, and fewer where it all is smaller than the element and the element no larger. -/
theorem countP_put_le {size : Nat} {a : α}
    (h : (∃ b, put a = [b] ∧ μ b ≤ μ a) ∨ (∀ b ∈ put a, μ b < μ a) ∧ μ a ≤ size) :
    (put a).countP (fun b => size ≤ μ b) ≤ [a].countP fun a => size ≤ μ a := by
  rcases h with ⟨b, hb, hle⟩ | ⟨hsmaller, hsize⟩
  · rw [hb]
    by_cases hlarge : size ≤ μ b
    · simp [hlarge, hlarge.trans hle]
    · simp [hlarge]
  · have hnone : (put a).countP (fun b => size ≤ μ b) = 0 := by
      refine List.countP_eq_zero.mpr fun b hb => ?_
      have hlt := hsmaller b hb
      rw [decide_eq_true_eq]
      omega
    rw [hnone]
    exact Nat.zero_le _

/-- The same of a list; and it has fewer where an element of the size is replaced by
smaller ones. -/
theorem countP_flatMap_put (size : Nat) {as : List α}
    (h : ∀ a ∈ as, (∃ b, put a = [b] ∧ μ b ≤ μ a) ∨ (∀ b ∈ put a, μ b < μ a) ∧ μ a ≤ size) :
    (as.flatMap put).countP (fun b => size ≤ μ b) ≤ as.countP (fun a => size ≤ μ a) ∧
      ((∃ a ∈ as, (∀ b ∈ put a, μ b < μ a) ∧ μ a = size) →
        (as.flatMap put).countP (fun b => size ≤ μ b) < as.countP fun a => size ≤ μ a) := by
  induction as with
  | nil => simp
  | cons a as ih =>
      obtain ⟨hle, hlt⟩ := ih fun a ha => h a (List.mem_cons_of_mem _ ha)
      have hone := countP_put_le (h a List.mem_cons_self)
      rw [List.flatMap_cons, List.countP_append, ← List.singleton_append, List.countP_append]
      constructor
      · omega
      · rintro ⟨a', hmem, hsmaller, hsize⟩
        rcases List.mem_cons.mp hmem with rfl | hmem
        · have hnone : (put a').countP (fun b => size ≤ μ b) = 0 := by
            refine List.countP_eq_zero.mpr fun b hb => ?_
            have hless := hsmaller b hb
            rw [decide_eq_true_eq]
            omega
          have hself : [a'].countP (fun a => size ≤ μ a) = 1 := by
            simp [hsize]
          omega
        · have hrest := hlt ⟨a', hmem, hsmaller, hsize⟩
          omega

/-- Elements replaced each by itself. -/
theorem flatMap_eq_self {as : List α} (h : ∀ a ∈ as, put a = [a]) : as.flatMap put = as := by
  induction as with
  | nil => rfl
  | cons a as ih =>
      rw [List.flatMap_cons, h a List.mem_cons_self,
        ih fun a ha => h a (List.mem_cons_of_mem _ ha), List.singleton_append]

/-- **Elements replaced** each by one that is no larger or by any number of smaller
ones: the list stays as it is only where every element does. -/
theorem flatMap_eq_self_iff {as : List α}
    (hput : ∀ a ∈ as, (∃ b, put a = [b] ∧ μ b ≤ μ a) ∨ ∀ b ∈ put a, μ b < μ a) :
    as.flatMap put = as ↔ ∀ a ∈ as, put a = [a] := by
  constructor
  · intro heq
    -- a largest element that splits would be missing afterwards
    have hsingle : ∀ a ∈ as, ∃ b, put a = [b] := by
      by_contra hsplits
      push Not at hsplits
      obtain ⟨a, ha, hno⟩ := hsplits
      obtain ⟨largest, hmem, hsplit, hmax⟩ :=
        exists_largest μ (P := fun a => ∀ b, put a ≠ [b]) ⟨a, ha, hno⟩
      have hsmaller : ∀ a ∈ as, (∀ b, put a ≠ [b]) → ∀ b ∈ put a, μ b < μ a := fun a ha hno =>
        (hput a ha).resolve_left fun ⟨b, hb, _⟩ => hno b hb
      have hfewer := (countP_flatMap_put (μ largest) fun a ha => ?_).2
        ⟨largest, hmem, hsmaller largest hmem hsplit, rfl⟩
      · rw [heq] at hfewer
        exact Nat.lt_irrefl _ hfewer
      · by_cases hone : ∃ b, put a = [b]
        · obtain ⟨b, hb⟩ := hone
          rcases hput a ha with hkept | hless
          · exact .inl hkept
          · exact .inl ⟨b, hb, (hless b (by rw [hb]; exact List.mem_cons_self)).le⟩
        · have hno : ∀ b, put a ≠ [b] := fun b hb => hone ⟨b, hb⟩
          exact .inr ⟨hsmaller a ha hno, hmax a ha hno⟩
    clear hput
    induction as with
    | nil => exact fun a ha => (nomatch ha)
    | cons a as ih =>
        obtain ⟨b, hb⟩ := hsingle a List.mem_cons_self
        rw [List.flatMap_cons, hb, List.singleton_append] at heq
        obtain ⟨rfl, hrest⟩ := List.cons.inj heq
        intro a' ha'
        rcases List.mem_cons.mp ha' with rfl | ha'
        · exact hb
        · exact ih hrest (fun a ha => hsingle a (List.mem_cons_of_mem _ ha)) a' ha'
  · exact flatMap_eq_self

end Gather
