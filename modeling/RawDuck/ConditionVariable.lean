import RawDuck.TaskCounter
import Mathlib.Algebra.GroupWithZero.Nat
import Mathlib.Algebra.Order.BigOperators.Group.List
import Mathlib.Algebra.Order.Group.Nat
import Mathlib.Data.List.Forall2

/-!
# RawDuck.ConditionVariable

A small library for threads that wait on condition variables.  A thread is the
phase it stands in; for each condition variable a function `woken` says in which
phase a thread that waits on it continues once it was notified, and is `none` for
the threads that do not wait on it.

* `notifyOne`, `notifyAll` — notifications; the caller of `notifyOne` does not
  choose the thread;
* `Wakes` — what both do: some waiting threads are notified, nothing else happens;
* `Wakes.sum_eq`, `Wakes.forall` — what notifications do not change;
* `total` — how many threads stand where; `total_set`, what a step of one of them
  does to it.
-/

namespace ConditionVariable

universe u v

variable {τ : Type u} (woken : τ → Option τ)

/-- No thread waits. -/
def Quiet (threads : List τ) : Prop := ∀ t ∈ threads, woken t = none

instance (threads : List τ) : Decidable (Quiet woken threads) :=
  inferInstanceAs (Decidable (∀ t ∈ threads, woken t = none))

/-- `notify_one`: one of the waiting threads is woken, if there is one. -/
def notifyOne (threads : List τ) (chosen : Option Nat) : Option (List τ) :=
  match chosen with
  | some i => threads[i]?.bind fun t => (woken t).map fun t' => threads.set i t'
  | none => if threads.all fun t => (woken t).isNone then some threads else none

/-- `notify_all`. -/
def notifyAll (threads : List τ) : List τ := threads.map fun t => (woken t).getD t

/-- Some waiting threads have been woken. -/
def Wakes : List τ → List τ → Prop :=
  List.Forall₂ fun t t' => t' = t ∨ woken t = some t'

variable {woken} {threads threads' : List τ}

/-! ## what notifications do -/

theorem all_isNone_iff : (threads.all fun t => (woken t).isNone) = true ↔ Quiet woken threads := by
  simp [Quiet, List.all_eq_true]

/-- The thread that `notify_one` wakes. -/
theorem notifyOne_cases {chosen : Option Nat} (h : notifyOne woken threads chosen = some threads') :
    (chosen = none ∧ Quiet woken threads ∧ threads' = threads) ∨
    (∃ i t t', chosen = some i ∧ threads[i]? = some t ∧ woken t = some t' ∧
      threads' = threads.set i t') := by
  cases chosen with
  | none =>
      simp only [notifyOne, Option.ite_none_right_eq_some, Option.some.injEq] at h
      exact .inl ⟨rfl, all_isNone_iff.mp h.1, h.2.symm⟩
  | some i =>
      simp only [notifyOne, Option.bind_eq_some_iff, Option.map_eq_some_iff] at h
      obtain ⟨t, ht, t', ht', hset⟩ := h
      exact .inr ⟨i, t, t', rfl, ht, ht', hset.symm⟩

/-- A notification always does something. -/
theorem exists_notifyOne (woken : τ → Option τ) (threads : List τ) :
    ∃ chosen threads', notifyOne woken threads chosen = some threads' := by
  by_cases hquiet : Quiet woken threads
  · exact ⟨none, threads, if_pos (all_isNone_iff.mpr hquiet)⟩
  · simp only [Quiet, not_forall] at hquiet
    obtain ⟨t, ht, hwaits⟩ := hquiet
    obtain ⟨i, hi, hget⟩ := List.getElem_of_mem ht
    obtain ⟨t', ht'⟩ := Option.ne_none_iff_exists'.mp hwaits
    refine ⟨some i, threads.set i t', ?_⟩
    simp [notifyOne, List.getElem?_eq_getElem hi, hget, ht']

/-! ## what they keep -/

theorem Wakes.refl (woken : τ → Option τ) (threads : List τ) : Wakes woken threads threads :=
  List.forall₂_same.mpr fun _ _ => .inl rfl

/-- One thread is woken. -/
theorem Wakes.set {i : Nat} {t t' : τ} (hi : threads[i]? = some t) (ht : woken t = some t') :
    Wakes woken threads (threads.set i t') := by
  induction threads generalizing i with
  | nil => simp at hi
  | cons first rest ih =>
      cases i with
      | zero =>
          obtain rfl : first = t := by simpa using hi
          exact .cons (.inr ht) (Wakes.refl woken rest)
      | succ i => exact .cons (.inl rfl) (ih (by simpa using hi))

theorem Wakes.notifyOne {chosen : Option Nat}
    (h : ConditionVariable.notifyOne woken threads chosen = some threads') :
    Wakes woken threads threads' := by
  obtain ⟨-, -, rfl⟩ | ⟨i, t, t', -, hi, ht, rfl⟩ := notifyOne_cases h
  · exact .refl woken threads'
  · exact .set hi ht

theorem Wakes.notifyAll (threads : List τ) :
    Wakes woken threads (ConditionVariable.notifyAll woken threads) := by
  induction threads with
  | nil => exact .nil
  | cons t rest ih =>
      refine .cons ?_ ih
      show (woken t).getD t = t ∨ woken t = some ((woken t).getD t)
      cases woken t with
      | none => exact .inl rfl
      | some t' => exact .inr rfl

/-- Where a notified thread counts as much as a waiting one, the count stays. -/
theorem Wakes.sum_eq {M : Type v} [AddMonoid M] {f : τ → M}
    (hf : ∀ t t', woken t = some t' → f t' = f t) (h : Wakes woken threads threads') :
    (threads'.map f).sum = (threads.map f).sum := by
  induction h with
  | nil => rfl
  | cons ht _ ih =>
      rw [List.map_cons, List.map_cons, List.sum_cons, List.sum_cons, ih]
      cases ht with
      | inl ht => rw [ht]
      | inr ht => rw [hf _ _ ht]

/-! ## counting threads -/

/-- How many threads `f` counts. -/
def total (f : τ → Nat) (threads : List τ) : Nat := (threads.map f).sum

/-- One thread goes on. -/
theorem total_set {f : τ → Nat} {i : Nat} {t : τ} (h : threads[i]? = some t) (t' : τ) :
    total f (threads.set i t') + f t = total f threads + f t' :=
  TaskCounter.sum_map_set f h t'

/-- One thread goes on where it counts the same. -/
theorem total_set_same {f : τ → Nat} {i : Nat} {t t' : τ} (h : threads[i]? = some t)
    (ht : f t' = f t) : total f (threads.set i t') = total f threads := by
  have hset := total_set h t' (f := f)
  omega

theorem total_le_length {f : τ → Nat} (hf : ∀ t, f t ≤ 1) : total f threads ≤ threads.length := by
  induction threads with
  | nil => exact Nat.le_refl 0
  | cons t rest ih =>
      have ht := hf t
      simp only [total, List.map_cons, List.sum_cons, List.length_cons] at ih ⊢
      omega

/-- Nothing is counted where no thread counts. -/
theorem total_eq_zero_iff {f : τ → Nat} : total f threads = 0 ↔ ∀ t ∈ threads, f t = 0 := by
  induction threads with
  | nil => simp [total]
  | cons t rest ih =>
      simp only [total] at ih ⊢
      simp [ih]

theorem le_total {f : τ → Nat} {i : Nat} {t : τ} (h : threads[i]? = some t) :
    f t ≤ total f threads :=
  List.le_sum_of_mem (List.mem_map_of_mem (List.mem_of_getElem? h))

theorem Wakes.total_eq {f : τ → Nat} (hf : ∀ t t', woken t = some t' → f t' = f t)
    (h : Wakes woken threads threads') : total f threads' = total f threads :=
  h.sum_eq hf

/-- Where a count is that of the waiting threads, `notify_all` leaves nothing. -/
theorem total_notifyAll {f : τ → Nat} (hf : ∀ t, f ((woken t).getD t) = 0) (threads : List τ) :
    total f (notifyAll woken threads) = 0 := by
  rw [total_eq_zero_iff]
  intro t' ht'
  obtain ⟨t, -, rfl⟩ := List.mem_map.mp ht'
  exact hf t

/-- What notified threads inherit from waiting ones holds of all threads. -/
theorem Wakes.forall {P : τ → Prop} (hP : ∀ t t', woken t = some t' → P t → P t')
    (h : Wakes woken threads threads') (hall : ∀ t ∈ threads, P t) : ∀ t ∈ threads', P t := by
  induction h with
  | nil => exact hall
  | cons ht _ ih =>
      simp only [List.mem_cons, forall_eq_or_imp] at hall ⊢
      refine ⟨?_, ih hall.2⟩
      cases ht with
      | inl ht => exact ht ▸ hall.1
      | inr ht => exact hP _ _ ht hall.1

theorem Wakes.length_eq (h : Wakes woken threads threads') : threads'.length = threads.length :=
  (List.Forall₂.length_eq h).symm

end ConditionVariable
