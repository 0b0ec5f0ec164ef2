import Mathlib.Data.List.Basic

/-!
# RawDuck.Transition

A small library for programs that run step by step: a system is an initial
state and a partial step function whose label resolves every choice, so a
schedule is a list of labels and a run on a fixed schedule evaluates.

* `Reachable S guard s` — `s` is reached by a run whose every step meets
  `guard` in the state it is taken from;
* `Reachable.invariant` — what the initial state has and each guarded step
  keeps, every reached state has;
* `reachable_iff_run` — reachability without a guard is running a schedule;
* `perm_iff_guarded` — where guarded steps keep some content and others lose some
  of it, a run keeps it exactly when each of its steps meets the guard;
* `throughout_iff_guarded` — a guard that keeps an invariant, and whose breach
  shows in the next state, is the exact condition for a property to hold
  throughout a run.
-/

namespace Transition

universe u v

/-- A labelled transition system with a deterministic step per label. -/
structure System (σ : Type u) (α : Type v) where
  init : σ
  step : σ → α → Option σ

variable {σ : Type u} {α : Type v}

namespace System

/-- Runs a schedule from a state; `none` when some label is not enabled. -/
def runFrom (S : System σ α) : σ → List α → Option σ
  | s, [] => some s
  | s, a :: as => (S.step s a).bind fun s' => S.runFrom s' as

/-- Runs a schedule from the initial state. -/
def run (S : System σ α) (as : List α) : Option σ := S.runFrom S.init as

/-- States reached by runs whose every step meets `guard`. -/
inductive Reachable (S : System σ α) (guard : σ → α → Prop) : σ → Prop where
  | init : Reachable S guard S.init
  | step {s s' : σ} {a : α} : Reachable S guard s → guard s a → S.step s a = some s' →
      Reachable S guard s'

/-- The guard every step meets. -/
def anyStep : σ → α → Prop := fun _ _ => True

variable {S : System σ α} {guard : σ → α → Prop}

/-- **Invariant rule**: an invariant of the initial state that every guarded
step keeps holds in every reached state. -/
theorem Reachable.invariant (inv : σ → Prop) (hinit : inv S.init)
    (hstep : ∀ s a s', inv s → guard s a → S.step s a = some s' → inv s')
    {s : σ} (h : Reachable S guard s) : inv s := by
  induction h with
  | init => exact hinit
  | step _ hg hs ih => exact hstep _ _ _ ih hg hs

/-- A run under a stronger guard is a run under a weaker one. -/
theorem Reachable.mono {guard' : σ → α → Prop} (hle : ∀ s a, guard s a → guard' s a)
    {s : σ} (h : Reachable S guard s) : Reachable S guard' s := by
  induction h with
  | init => exact .init
  | step _ hg hs ih => exact .step ih (hle _ _ hg) hs

/-- Each step of the schedule meets `guard` in the state it is taken from. -/
def Guarded (S : System σ α) (guard : σ → α → Prop) : σ → List α → Prop
  | _, [] => True
  | s, a :: as => ∀ s', S.step s a = some s' → guard s a ∧ S.Guarded guard s' as

/-- A guard that can be tested can be tested along a schedule. -/
instance Guarded.decidable [∀ s a, Decidable (guard s a)] :
    ∀ (as : List α) (s : σ), Decidable (S.Guarded guard s as)
  | [], _ => .isTrue trivial
  | a :: as, s =>
      have := Guarded.decidable as
      inferInstanceAs (Decidable (∀ s' ∈ S.step s a, guard s a ∧ S.Guarded guard s' as))

/-- A guard every label of the schedule meets in any state. -/
theorem guarded_of_forall {as : List α} (hall : ∀ a ∈ as, ∀ s, guard s a) (s : σ) :
    S.Guarded guard s as := by
  induction as generalizing s with
  | nil => trivial
  | cons a as ih =>
      intro s' _
      exact ⟨hall a List.mem_cons_self s, ih (fun b hb => hall b (List.mem_cons_of_mem _ hb)) s'⟩

theorem guarded_cons {s s' : σ} {a : α} {as : List α} (hs : S.step s a = some s')
    (hguard : guard s a) (hrest : S.Guarded guard s' as) : S.Guarded guard s (a :: as) := by
  intro t ht
  obtain rfl := Option.some.inj (hs.symm.trans ht)
  exact ⟨hguard, hrest⟩

/-- A guarded schedule run from a reached state ends in a reached state. -/
theorem Reachable.of_guarded {s t : σ} {as : List α} (h : Reachable S guard s)
    (hguarded : S.Guarded guard s as) (hr : S.runFrom s as = some t) : Reachable S guard t := by
  induction as generalizing s with
  | nil =>
      simp only [System.runFrom, Option.some.injEq] at hr
      exact hr ▸ h
  | cons a as ih =>
      simp only [System.runFrom, Option.bind_eq_some_iff] at hr
      obtain ⟨s', hs, hr⟩ := hr
      obtain ⟨hguard, hrest⟩ := hguarded s' hs
      exact ih (.step h hguard hs) hrest hr

theorem runFrom_append (as bs : List α) (s : σ) :
    S.runFrom s (as ++ bs) = (S.runFrom s as).bind fun t => S.runFrom t bs := by
  induction as generalizing s with
  | nil => rfl
  | cons a as ih =>
      simp only [List.cons_append, System.runFrom, Option.bind_assoc]
      congr 1
      funext t
      exact ih t

theorem runFrom_trans {s t u : σ} {as bs : List α} (has : S.runFrom s as = some t)
    (hbs : S.runFrom t bs = some u) : S.runFrom s (as ++ bs) = some u := by
  rw [runFrom_append, has]
  exact hbs

/-- Unguarded reachability is running some schedule. -/
theorem reachable_iff_run {s : σ} : Reachable S anyStep s ↔ ∃ as, S.run as = some s := by
  constructor
  · intro h
    induction h with
    | init => exact ⟨[], rfl⟩
    | @step s s' a _ _ hs ih =>
        obtain ⟨as, has⟩ := ih
        refine ⟨as ++ [a], ?_⟩
        rw [System.run, runFrom_append]
        rw [System.run] at has
        simp [has, System.runFrom, hs]
  · rintro ⟨as, has⟩
    exact Reachable.init.of_guarded (guarded_of_forall (fun _ _ _ => trivial) _) has

/-- **Bounded runs**: where each step takes one from a potential, except that free
steps may add one to it, a run has at most as many steps as the potential at its
start allows, and two for each free step. -/
theorem length_add_le (potential : σ → Nat) (free : α → Bool) (inv : σ → Prop)
    (hkeep : ∀ s a s', inv s → S.step s a = some s' → inv s')
    (hstep : ∀ s a s', inv s → S.step s a = some s' →
      potential s' + 1 ≤ potential s + if free a then 2 else 0)
    {s t : σ} {as : List α} (hs : inv s) (hr : S.runFrom s as = some t) :
    as.length + potential t ≤ potential s + 2 * as.countP free := by
  induction as generalizing s with
  | nil =>
      obtain rfl := Option.some.inj hr
      simp
  | cons a as ih =>
      obtain ⟨s', hs', hr⟩ := Option.bind_eq_some_iff.mp hr
      have hone := hstep s a s' hs hs'
      have hrest := ih (hkeep s a s' hs hs') hr
      rw [List.length_cons, List.countP_cons]
      split at hone
      · next hfree =>
        rw [if_pos hfree]
        omega
      · next hfree =>
        rw [if_neg hfree]
        omega

/-! ## properties throughout a run -/

/-- `P` holds in the given state and in each state the schedule leads to from
there, up to its first label that is not enabled. -/
def Throughout (S : System σ α) (P : σ → Prop) : σ → List α → Prop
  | s, [] => P s
  | s, a :: as => P s ∧ ∀ s', S.step s a = some s' → S.Throughout P s' as

theorem Throughout.here {P : σ → Prop} {s : σ} {as : List α} (h : S.Throughout P s as) : P s := by
  cases as with
  | nil => exact h
  | cons a as => exact h.1

/-- **Exact guards**: where guarded steps keep an invariant that implies `P`, and
a step that breaks the guard ends outside `P`, the property holds throughout a
run exactly when each of its steps meets the guard. -/
theorem throughout_iff_guarded {P : σ → Prop} (inv : σ → Prop) (himp : ∀ s, inv s → P s)
    (hkeep : ∀ s a s', inv s → guard s a → S.step s a = some s' → inv s')
    (hbreak : ∀ s a s', inv s → ¬ guard s a → S.step s a = some s' → ¬ P s')
    (as : List α) {s : σ} (hs : inv s) : S.Throughout P s as ↔ S.Guarded guard s as := by
  induction as generalizing s with
  | nil => exact iff_of_true (himp s hs) trivial
  | cons a as ih =>
      constructor
      · rintro ⟨-, hrest⟩ s' hstep
        have hguard : guard s a := by
          by_contra hguard
          exact hbreak s a s' hs hguard hstep (hrest s' hstep).here
        exact ⟨hguard, (ih (hkeep s a s' hs hguard hstep)).mp (hrest s' hstep)⟩
      · intro hall
        refine ⟨himp s hs, fun s' hstep => ?_⟩
        obtain ⟨hguard, hrest⟩ := hall s' hstep
        exact (ih (hkeep s a s' hs hguard hstep)).mpr hrest

/-! ## content along a run -/

/-- **Content**: where each guarded step keeps the content of a state and each
other step loses some, in runs that end well, the content is kept exactly by the
guarded runs. -/
theorem perm_iff_guarded {γ : Type*} (content : σ → List γ) (good inv : σ → Prop)
    (hgood : ∀ s a s', S.step s a = some s' → good s' → good s)
    (hinv : ∀ s a s', inv s → S.step s a = some s' → good s' → inv s')
    (hkeep : ∀ s a s', inv s → S.step s a = some s' → good s' → guard s a →
      (content s').Perm (content s))
    (hlose : ∀ s a s', inv s → S.step s a = some s' → good s' → ¬ guard s a →
      (content s').length < (content s).length)
    {s t : σ} {as : List α} (hs : inv s) (hr : S.runFrom s as = some t) (ht : good t) :
    inv t ∧ (content t).length ≤ (content s).length ∧
      ((content t).Perm (content s) ↔ S.Guarded guard s as) := by
  have hback : ∀ {s : σ} {as : List α}, S.runFrom s as = some t → good s := by
    intro s as hr
    induction as generalizing s with
    | nil => exact Option.some.inj hr ▸ ht
    | cons a as ih =>
        obtain ⟨s', hstep, hr⟩ := Option.bind_eq_some_iff.mp hr
        exact hgood s a s' hstep (ih hr)
  induction as generalizing s with
  | nil =>
      obtain rfl := Option.some.inj hr
      exact ⟨hs, Nat.le_refl _, iff_of_true (.refl _) trivial⟩
  | cons a as ih =>
      obtain ⟨s', hstep, hr⟩ := Option.bind_eq_some_iff.mp hr
      have hs' := hback hr
      obtain ⟨ht', hle, hiff⟩ := ih (hinv s a s' hs hstep hs') hr
      have hguarded : S.Guarded guard s (a :: as) ↔ guard s a ∧ S.Guarded guard s' as := by
        constructor
        · exact fun h => h s' hstep
        · rintro ⟨hguard, hrest⟩
          exact guarded_cons hstep hguard hrest
      rw [hguarded]
      by_cases hguard : guard s a
      · have hperm := hkeep s a s' hs hstep hs' hguard
        refine ⟨ht', hperm.length_eq ▸ hle, ?_⟩
        rw [and_iff_right hguard, ← hiff]
        exact ⟨fun h => h.trans hperm.symm, fun h => h.trans hperm⟩
      · have hlt := hlose s a s' hs hstep hs' hguard
        refine ⟨ht', by omega, ?_⟩
        refine iff_of_false (fun h => ?_) fun h => hguard h.1
        have hlength := h.length_eq
        omega

end System

end Transition
