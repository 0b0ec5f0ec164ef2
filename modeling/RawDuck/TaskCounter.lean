import Mathlib.Data.List.Perm.Basic
import Mathlib.Algebra.BigOperators.Group.List.Basic

/-!
# RawDuck.TaskCounter

A small library for workers that share a list of tasks: each takes the next task
from an atomic counter, runs it, adds the result to an atomic total and goes on
until the counter is behind the last task.

* `Run.Inv` — what holds after any steps of the workers;
* `Run.Inv.step` — every step keeps it;
* `Run.Inv.finished` — when all workers have left, each task was run exactly once,
  in any number of workers, and the total is the sum of the results.
-/

namespace TaskCounter

universe u v

/-! ## sums over lists in which one entry changes -/

/-- A sum in which one summand is replaced. -/
theorem sum_map_set {α : Type u} {M : Type v} [AddCommMonoid M] (f : α → M) {l : List α} {i : Nat}
    {a : α} (h : l[i]? = some a) (b : α) :
    ((l.set i b).map f).sum + f a = (l.map f).sum + f b := by
  obtain ⟨hi, hget⟩ := List.getElem?_eq_some_iff.mp h
  have hset := ((List.set_perm_cons_eraseIdx hi b).map f).sum_eq
  have hold := ((List.getElem_cons_eraseIdx_perm hi).map f).sum_eq
  rw [hget] at hold
  rw [hset, ← hold, List.map_cons, List.map_cons, List.sum_cons, List.sum_cons,
    add_right_comm, add_comm (f b), add_right_comm]

/-! ## runs -/

/-- Where a worker stands: about to take a task, in its call of this number, with
a result it has not added yet, or gone. -/
inductive Worker (M : Type v) where
  | free
  | running (call : Nat)
  | adding (result : M)
  | left

/-- The tasks, the counter, the workers, the calls made so far with their results,
and the total. -/
structure Run (α : Type u) (M : Type v) where
  tasks : List α
  next : Nat
  workers : List (Worker M)
  calls : List (α × Option M)
  total : M

/-- A step of a worker. -/
inductive Event (M : Type v) where
  /-- It takes the next task, or leaves. -/
  | fetch (w : Nat)
  /-- Its call returns. -/
  | ends (w : Nat) (result : M)
  | adds (w : Nat)

/-- The workers behind a step of one of them. -/
theorem getElem?_set_worker {M : Type v} {workers : List (Worker M)} {w v : Nat}
    {worker worker' : Worker M} (h : (workers.set w worker)[v]? = some worker') :
    v = w ∧ worker' = worker ∨ v ≠ w ∧ workers[v]? = some worker' := by
  rw [List.getElem?_set] at h
  by_cases hvw : w = v
  · rw [if_pos hvw] at h
    split at h
    · exact .inl ⟨hvw.symm, (Option.some.inj h).symm⟩
    · contradiction
  · rw [if_neg hvw] at h
    exact .inr ⟨fun he => hvw he.symm, h⟩

/-! ## calls and workers -/

section

variable {α : Type u} {M : Type v}

/-- Each call that has not returned is in the hands of one worker, and no worker
is in another call. -/
structure CallsHeld (workers : List (Worker M)) (calls : List (α × Option M)) : Prop where
  running : ∀ (w i : Nat), workers[w]? = some (Worker.running i) →
      ∃ task, calls[i]? = some (task, none)
  pending : ∀ (i : Nat) (task : α), calls[i]? = some (task, none) →
    ∃ w : Nat, workers[w]? = some (Worker.running i)
  distinct : ∀ (w w' i : Nat), workers[w]? = some (Worker.running i) →
    workers[w']? = some (Worker.running i) → w = w'

variable {workers : List (Worker M)} {calls : List (α × Option M)} {w : Nat}

/-- A worker in no call goes on without one. -/
theorem CallsHeld.set_idle (h : CallsHeld workers calls) {worker worker' : Worker M}
    (hw : workers[w]? = some worker) (hidle : ∀ i, worker ≠ .running i)
    (hidle' : ∀ i, worker' ≠ .running i) : CallsHeld (workers.set w worker') calls := by
  constructor
  case running =>
    intro v i hv
    cases getElem?_set_worker hv with
    | inl hv => exact absurd hv.2.symm (hidle' i)
    | inr hv => exact h.running v i hv.2
  case pending =>
    intro i task hi
    obtain ⟨v, hv⟩ := h.pending i task hi
    have hvw : w ≠ v := by
      intro he
      rw [he, hv] at hw
      exact hidle i (Option.some.inj hw).symm
    exact ⟨v, (List.getElem?_set_ne hvw).trans hv⟩
  case distinct =>
    intro v v' i hv hv'
    cases getElem?_set_worker hv with
    | inl hv => exact absurd hv.2.symm (hidle' i)
    | inr hv =>
        cases getElem?_set_worker hv' with
        | inl hv' => exact absurd hv'.2.symm (hidle' i)
        | inr hv' => exact h.distinct v v' i hv.2 hv'.2

/-- A worker makes a new call. -/
theorem CallsHeld.takes (h : CallsHeld workers calls) (hw : workers[w]? = some Worker.free)
    (task : α) :
    CallsHeld (workers.set w (.running calls.length)) (calls ++ [(task, none)]) := by
  obtain ⟨hwlt, -⟩ := List.getElem?_eq_some_iff.mp hw
  -- nobody is in the call yet
  have hnobody : ∀ v : Nat, workers[v]? ≠ some (Worker.running calls.length) := by
    intro v hv
    obtain ⟨old, hi⟩ := h.running v _ hv
    obtain ⟨hlt, -⟩ := List.getElem?_eq_some_iff.mp hi
    omega
  constructor
  case running =>
    intro v i hv
    cases getElem?_set_worker hv with
    | inl hv =>
        obtain ⟨-, hrunning⟩ := hv
        cases hrunning
        exact ⟨task, List.getElem?_concat_length⟩
    | inr hv =>
        obtain ⟨old, hi⟩ := h.running v i hv.2
        obtain ⟨hlt, -⟩ := List.getElem?_eq_some_iff.mp hi
        exact ⟨old, (List.getElem?_append_left hlt).trans hi⟩
  case pending =>
    intro i old hi
    by_cases hnew : i = calls.length
    · exact ⟨w, hnew ▸ List.getElem?_set_self hwlt⟩
    · obtain ⟨hlt, -⟩ := List.getElem?_eq_some_iff.mp hi
      rw [List.length_append, List.length_singleton] at hlt
      rw [List.getElem?_append_left (by omega)] at hi
      obtain ⟨v, hv⟩ := h.pending i old hi
      have hvw : w ≠ v := by
        intro he
        rw [he, hv] at hw
        exact nomatch hw
      exact ⟨v, (List.getElem?_set_ne hvw).trans hv⟩
  case distinct =>
    intro v v' i hv hv'
    cases getElem?_set_worker hv with
    | inl hv =>
        obtain ⟨hvw, hrunning⟩ := hv
        cases hrunning
        cases getElem?_set_worker hv' with
        | inl hv' => exact hvw.trans hv'.1.symm
        | inr hv' => exact absurd hv'.2 (hnobody v')
    | inr hv =>
        cases getElem?_set_worker hv' with
        | inl hv' =>
            obtain ⟨-, hrunning⟩ := hv'
            cases hrunning
            exact absurd hv.2 (hnobody v)
        | inr hv' => exact h.distinct v v' i hv.2 hv'.2

/-- The call of a worker returns. -/
theorem CallsHeld.ends (h : CallsHeld workers calls) {i : Nat} {task : α} {worker' : Worker M}
    (hw : workers[w]? = some (Worker.running i)) (hidle' : ∀ i, worker' ≠ .running i)
    (result : M) : CallsHeld (workers.set w worker') (calls.set i (task, some result)) := by
  constructor
  case running =>
    intro v j hv
    cases getElem?_set_worker hv with
    | inl hv => exact absurd hv.2.symm (hidle' j)
    | inr hv =>
        obtain ⟨old, hj⟩ := h.running v j hv.2
        have hij : i ≠ j := by
          intro he
          exact hv.1 (h.distinct v w j hv.2 (he ▸ hw))
        exact ⟨old, (List.getElem?_set_ne hij).trans hj⟩
  case pending =>
    intro j old hj
    have hij : i ≠ j := by
      intro he
      rw [he, List.getElem?_set] at hj
      simp at hj
    rw [List.getElem?_set_ne hij] at hj
    obtain ⟨v, hv⟩ := h.pending j old hj
    have hvw : w ≠ v := by
      intro he
      rw [he, hv, Option.some.injEq, Worker.running.injEq] at hw
      exact hij hw.symm
    exact ⟨v, (List.getElem?_set_ne hvw).trans hv⟩
  case distinct =>
    intro v v' j hv hv'
    cases getElem?_set_worker hv with
    | inl hv => exact absurd hv.2.symm (hidle' j)
    | inr hv =>
        cases getElem?_set_worker hv' with
        | inl hv' => exact absurd hv'.2.symm (hidle' j)
        | inr hv' => exact h.distinct v v' j hv.2 hv'.2

/-- A call that returns keeps its task. -/
theorem modify_call {i : Nat} {task : α} {old : Option M}
    (h : calls[i]? = some (task, old)) (result : M) :
    calls.modify i (fun call => (call.1, some result)) = calls.set i (task, some result) := by
  apply List.ext_getElem?
  intro j
  rw [List.getElem?_modify, List.getElem?_set]
  by_cases hij : i = j
  · obtain ⟨hlt, -⟩ := List.getElem?_eq_some_iff.mp h
    rw [← hij, h, if_pos rfl, if_pos hlt]
    simp
  · simp [hij]

end

namespace Run

variable {α : Type u} {M : Type v}

/-- Every worker has left. -/
def finished (r : Run α M) : Bool :=
  r.workers.all fun worker => match worker with
    | .left => true
    | _ => false

theorem left_of_finished {r : Run α M} (hall : r.finished = true) {worker : Worker M}
    (hin : worker ∈ r.workers) : worker = .left := by
  have hleft := List.all_eq_true.mp hall worker hin
  cases worker with
  | left => rfl
  | _ => contradiction

/-- The tasks nobody has taken. -/
def waiting (r : Run α M) : List α := r.tasks.drop r.next

variable [AddCommMonoid M]

/-- All workers are about to start. -/
def start (tasks : List α) (workerCount : Nat) : Run α M where
  tasks := tasks
  next := 0
  workers := List.replicate workerCount .free
  calls := []
  total := 0

/-- One step; `none` where it is not enabled. -/
def step (r : Run α M) : Event M → Option (Run α M)
  | .fetch w =>
      match r.workers[w]? with
      | some .free =>
          match r.tasks[r.next]? with
          | some task =>
              some { r with
                next := r.next + 1
                workers := r.workers.set w (.running r.next)
                calls := r.calls ++ [(task, none)] }
          | none => some { r with next := r.next + 1, workers := r.workers.set w .left }
      | _ => none
  | .ends w result =>
      match r.workers[w]? with
      | some (.running i) =>
          some { r with
            workers := r.workers.set w (.adding result)
            calls := r.calls.modify i fun call => (call.1, some result) }
      | _ => none
  | .adds w =>
      match r.workers[w]? with
      | some (.adding result) =>
          some { r with workers := r.workers.set w .free, total := r.total + result }
      | _ => none

/-- What a worker has not added yet. -/
def held : Worker M → M
  | .adding result => result
  | _ => 0

/-- What a call has returned so far. -/
def returned (call : α × Option M) : M := call.2.getD 0

/-- The calls are of the first tasks, in order; what has returned is in the total
or about to be added; a worker leaves only behind the last task. -/
structure Inv (r : Run α M) : Prop where
  calls_eq : r.calls.map Prod.fst = r.tasks.take r.next
  callsHeld : CallsHeld r.workers r.calls
  total_eq : r.total + (r.workers.map held).sum = (r.calls.map returned).sum
  left : ∀ w : Nat, r.workers[w]? = some Worker.left → r.tasks.length ≤ r.next

variable {r r' : Run α M}

theorem inv_start (tasks : List α) (workerCount : Nat) :
    (start tasks workerCount : Run α M).Inv := by
  have hfree : ∀ (w : Nat) (worker : Worker M),
      (List.replicate workerCount Worker.free)[w]? = some worker → worker = .free := by
    intro w worker h
    rw [List.getElem?_replicate] at h
    split at h
    · exact (Option.some.inj h).symm
    · contradiction
  constructor
  case calls_eq => rfl
  case callsHeld =>
    constructor
    case running => exact fun w i h => nomatch hfree w _ h
    case pending => exact fun i task h => nomatch h
    case distinct => exact fun w w' i h => nomatch hfree w _ h
  case total_eq => simp [start, held]
  case left => exact fun w h => nomatch hfree w _ h

/-! ## one step -/

/-- While there are tasks, the next call is that of the next task. -/
theorem Inv.length_calls (h : r.Inv) (hnext : r.next < r.tasks.length) :
    r.calls.length = r.next := by
  have hlen := congrArg List.length h.calls_eq
  rw [List.length_map, List.length_take] at hlen
  omega

/-- What a worker holds counts as its own. -/
theorem sum_held {workers : List (Worker M)} {w : Nat} {worker : Worker M}
    (hw : workers[w]? = some worker) (worker' : Worker M) :
    ((workers.set w worker').map held).sum + held worker =
      (workers.map held).sum + held worker' := sum_map_set held hw worker'

/-- **One step** of the workers keeps the invariant. -/
theorem Inv.step {event : Event M} (h : r.Inv) (hstep : r.step event = some r') : r'.Inv := by
  cases event with
  | fetch w =>
      simp only [Run.step] at hstep
      split at hstep
      · next hw =>
        have hsum := fun worker' => sum_held hw worker'
        split at hstep
        · next task htask =>
          obtain rfl := Option.some.inj hstep
          obtain ⟨hnext, -⟩ := List.getElem?_eq_some_iff.mp htask
          have hlen := h.length_calls hnext
          constructor
          case calls_eq =>
            show (r.calls ++ [(task, none)]).map Prod.fst = r.tasks.take (r.next + 1)
            rw [List.map_append, h.calls_eq, List.take_add_one, htask]
            rfl
          case callsHeld =>
            have htakes := h.callsHeld.takes hw task
            rw [hlen] at htakes
            exact htakes
          case total_eq =>
            have hheld := hsum (.running r.next)
            simp only [held, add_zero] at hheld
            show r.total + ((r.workers.set w (.running r.next)).map held).sum =
              ((r.calls ++ [(task, none)]).map returned).sum
            rw [hheld, h.total_eq, List.map_append, List.sum_append]
            simp [returned]
          case left =>
            intro v hv
            cases getElem?_set_worker hv with
            | inl hv => exact nomatch hv.2
            | inr hv => exact Nat.le_succ_of_le (h.left v hv.2)
        · next hdone =>
          obtain rfl := Option.some.inj hstep
          have hbehind : r.tasks.length ≤ r.next := List.getElem?_eq_none_iff.mp hdone
          constructor
          case calls_eq =>
            show r.calls.map Prod.fst = r.tasks.take (r.next + 1)
            rw [h.calls_eq, List.take_of_length_le hbehind, List.take_of_length_le (by omega)]
          case callsHeld => exact h.callsHeld.set_idle hw (fun _ => nofun) fun _ => nofun
          case total_eq =>
            have hheld := hsum .left
            simp only [held, add_zero] at hheld
            show r.total + ((r.workers.set w .left).map held).sum = _
            rw [hheld, h.total_eq]
          case left => exact fun v _ => Nat.le_succ_of_le hbehind
      · contradiction
  | ends w result =>
      simp only [Run.step] at hstep
      split at hstep
      · next i hw =>
        obtain rfl := Option.some.inj hstep
        obtain ⟨task, hcall⟩ := h.callsHeld.running w i hw
        rw [modify_call hcall]
        constructor
        case calls_eq =>
          show (r.calls.set i (task, some result)).map Prod.fst = r.tasks.take r.next
          rw [← h.calls_eq, List.map_set]
          apply List.ext_getElem?
          intro j
          rw [List.getElem?_set, List.getElem?_map]
          split
          · next hij =>
            obtain ⟨hlt, -⟩ := List.getElem?_eq_some_iff.mp hcall
            rw [← hij, hcall, List.length_map, if_pos hlt]
            rfl
          · rfl
        case callsHeld =>
          have hidle : ∀ i, Worker.adding result ≠ .running i := fun _ => nofun
          exact h.callsHeld.ends hw hidle result
        case total_eq =>
          have hheld := sum_held hw (.adding result)
          have hreturned := sum_map_set returned hcall (task, some result)
          simp only [held, add_zero] at hheld
          simp only [returned, Option.getD_none, Option.getD_some, add_zero] at hreturned
          show r.total + ((r.workers.set w (.adding result)).map held).sum =
            ((r.calls.set i (task, some result)).map returned).sum
          rw [hheld, ← add_assoc, h.total_eq, hreturned]
        case left =>
          intro v hv
          cases getElem?_set_worker hv with
          | inl hv => exact nomatch hv.2
          | inr hv => exact h.left v hv.2
      · contradiction
  | adds w =>
      simp only [Run.step] at hstep
      split at hstep
      · next result hw =>
        obtain rfl := Option.some.inj hstep
        constructor
        case calls_eq => exact h.calls_eq
        case callsHeld => exact h.callsHeld.set_idle hw (fun _ => nofun) fun _ => nofun
        case total_eq =>
          have hheld := sum_held hw .free
          simp only [held, add_zero] at hheld
          show r.total + result + ((r.workers.set w .free).map held).sum = _
          rw [add_assoc, add_comm result, hheld, h.total_eq]
        case left =>
          intro v hv
          cases getElem?_set_worker hv with
          | inl hv => exact nomatch hv.2
          | inr hv => exact h.left v hv.2
      · contradiction

/-- The tasks and the number of workers are fixed. -/
theorem tasks_step {event : Event M} (hstep : r.step event = some r') :
    r'.tasks = r.tasks ∧ r'.workers.length = r.workers.length := by
  cases event with
  | fetch w =>
      simp only [Run.step] at hstep
      split at hstep
      · split at hstep <;>
        · obtain rfl := Option.some.inj hstep
          exact ⟨rfl, List.length_set⟩
      · contradiction
  | ends w result =>
      simp only [Run.step] at hstep
      split at hstep
      · obtain rfl := Option.some.inj hstep
        exact ⟨rfl, List.length_set⟩
      · contradiction
  | adds w =>
      simp only [Run.step] at hstep
      split at hstep
      · obtain rfl := Option.some.inj hstep
        exact ⟨rfl, List.length_set⟩
      · contradiction

/-! ## the end -/

/-- Nobody who has left makes a step. -/
theorem step_of_finished (hall : r.finished = true) (event : Event M) : r.step event = none := by
  have hnone : ∀ {w : Nat} {worker : Worker M}, r.workers[w]? = some worker → worker = .left :=
    fun hw => left_of_finished hall (List.mem_of_getElem? hw)
  cases event with
  | fetch w =>
      simp only [Run.step]
      split
      · next hw => exact nomatch hnone hw
      · rfl
  | ends w result =>
      simp only [Run.step]
      split
      · next hw => exact nomatch hnone hw
      · rfl
  | adds w =>
      simp only [Run.step]
      split
      · next hw => exact nomatch hnone hw
      · rfl

/-- **All workers have left**: each task was run exactly once, in the order of the
counter, and the total is the sum of the results. -/
theorem Inv.finished (h : r.Inv) (hsome : r.workers ≠ []) (hall : r.finished = true) :
    r.calls.map Prod.fst = r.tasks ∧
      ∃ results : List M, r.calls.map Prod.snd = results.map some ∧ r.total = results.sum := by
  obtain ⟨worker, hin⟩ := List.exists_mem_of_ne_nil r.workers hsome
  obtain ⟨w, hw⟩ := List.getElem?_of_mem hin
  rw [left_of_finished hall hin] at hw
  have htasks : r.calls.map Prod.fst = r.tasks := by
    rw [h.calls_eq, List.take_of_length_le (h.left w hw)]
  refine ⟨htasks, r.calls.map returned, ?_, ?_⟩
  · -- a call that has not returned would be in the hands of a worker
    rw [List.map_map]
    refine List.map_congr_left fun call hcall => ?_
    obtain ⟨task, result⟩ := call
    cases result with
    | some result => rfl
    | none =>
        obtain ⟨i, hi⟩ := List.getElem?_of_mem hcall
        obtain ⟨v, hv⟩ := h.callsHeld.pending i task hi
        exact nomatch left_of_finished hall (List.mem_of_getElem? hv)
  · have hheld : r.workers.map held = r.workers.map fun _ => 0 :=
      List.map_congr_left fun worker hin => by rw [left_of_finished hall hin]; rfl
    have hzero : (r.workers.map held).sum = 0 := by
      rw [hheld]
      simp
    rw [← h.total_eq, hzero, add_zero]

end Run

end TaskCounter
