import Mathlib.Data.List.Basic

/-!
# RawDuck.Recording

A small library for programs that are run to see what they do: a recursive
function is written with its own calls as a parameter, and running its body with
a parameter that records its argument shows which calls one run makes.

* `Recorder` — computations with a log;
* `record` — one entry, and its answer;
* `Records` — what a computation answers and appends, with a rule for each way
  to build it.
-/

namespace Recording

universe u

variable {κ α β σ : Type u}

/-- A computation that appends to a log. -/
abbrev Recorder (κ : Type u) := StateM (List κ)

/-- Appends an entry and answers. -/
def record (entry : κ) (answer : α) : Recorder κ α := fun log => (answer, log ++ [entry])

/-- What the computation answers and appends. -/
def outcome (x : Recorder κ α) : α × List κ := x.run []

/-- Behind any log, the computation answers `a` and appends `entries`. -/
def Records (x : Recorder κ α) (a : α) (entries : List κ) : Prop :=
  ∀ log, x.run log = (a, log ++ entries)

theorem Records.outcome_eq {x : Recorder κ α} {a : α} {entries : List κ}
    (h : Records x a entries) : outcome x = (a, entries) := h []

theorem Records.record (entry : κ) (answer : α) :
    Records (record entry answer) answer [entry] := fun _ => rfl

theorem Records.pure (a : α) : Records (pure a : Recorder κ α) a [] := by
  intro log
  rw [List.append_nil]
  rfl

/-- The rule of sequence. -/
theorem Records.bind {x : Recorder κ α} {f : α → Recorder κ β} {a : α} {b : β}
    {entries more : List κ} (hx : Records x a entries) (hf : Records (f a) b more) :
    Records (x >>= f) b (entries ++ more) := by
  intro log
  rw [StateT.run_bind, hx log, ← List.append_assoc]
  exact hf _

theorem Records.bind_pure {x : Recorder κ α} {a : α} {entries : List κ} (hx : Records x a entries)
    (f : α → β) : Records (x >>= fun a => Pure.pure (f a)) (f a) entries := by
  have h := hx.bind (f := fun a => Pure.pure (f a)) (Records.pure (f a))
  rwa [List.append_nil] at h

/-- The rule of loops. -/
theorem Records.foldlM {f : σ → α → Recorder κ σ} {g : σ → α → σ} {entries : α → List κ}
    (h : ∀ s a, Records (f s a) (g s a) (entries a)) (as : List α) (s : σ) :
    Records (as.foldlM f s) (as.foldl g s) (as.flatMap entries) := by
  induction as generalizing s with
  | nil => exact .pure s
  | cons a as ih =>
      rw [List.foldlM_cons, List.foldl_cons, List.flatMap_cons]
      exact (h s a).bind (ih (g s a))

/-- The rule of maps. -/
theorem Records.mapM {f : α → Recorder κ β} {g : α → β} {entries : α → List κ}
    (h : ∀ a, Records (f a) (g a) (entries a)) (as : List α) :
    Records (as.mapM f) (as.map g) (as.flatMap entries) := by
  induction as with
  | nil => exact .pure []
  | cons a as ih =>
      rw [List.mapM_cons, List.map_cons, List.flatMap_cons]
      exact (h a).bind (ih.bind_pure fun bs => g a :: bs)

end Recording
