import RawDuck.Bytes
import RawDuck.Transition

/-!
# RawDuck.CreationLock

Concurrent calls of `RawIngestSerialized` for one table under any spellings of its
name: the double-checked `known_to_exist`, the creation lock, and the transactions
in which a call creates the table, down to the rollback its caller makes after it
raised.

A transaction sees the catalog as it was at its begin; a second `CREATE` conflicts
with one that is not committed, and with one committed since the begin.

* `Locks` — a call past its checks holds the creation lock, or its spelling is
  known;
* `Exclusive` — the guard: a transaction that will create the table begins under the
  lock, and no call that raised has still to roll a `CREATE` back;
* `Serial` — in guarded runs a transaction that does not see the table is the only
  one of its kind, and its call holds the lock;
* `creationRun_noCollision` — no two creations overlap in guarded runs, and every
  begin that breaks the guard can be continued to an overlap.
-/

namespace RawDuck

open Transition Transition.System

/-! ## the system -/

/-- A transaction, as far as the catalog entry of the table is concerned. -/
structure CreationTx where
  /-- The table was there at its begin. -/
  sees : Bool
  /-- It has created the table. -/
  created : Bool
  /-- Another transaction created the table and committed since its begin. -/
  overtaken : Bool
  deriving DecidableEq, Repr

/-- Where a call stands; `retried` says that it is past its handler. -/
inductive SerializedPhase where
  | entered
  /-- In `creation_guard.lock()`. -/
  | locking
  /-- It holds the lock, before the second `known_to_exist()`. -/
  | locked
  | starting (retried : Bool)
  | running (retried : Bool) (tx : CreationTx)
  /-- In the handler of `TransactionException`. -/
  | retrying (tx : Option CreationTx)
  /-- An exception is about to leave the function. -/
  | unwinding (tx : Option CreationTx)
  /-- The exception left; the caller is still to roll back. -/
  | raised (tx : Option CreationTx)
  /-- It has committed. -/
  | marking
  | returning
  | ended
  deriving DecidableEq, Repr

/-- A call, with the spelling of its target. -/
structure SerializedCall where
  target : Bytes
  phase : SerializedPhase
  deriving DecidableEq, Repr

/-- `RawTableCreationCache` with the calls, and the catalog.  The last two fields
record what went wrong: a call tried to create the table while a `CREATE` of another
call was open, and a `CREATE` raised a conflict. -/
structure CreationRun where
  tableExists : Bool
  known : List Bytes
  /-- The call that owns `creation_lock`. -/
  holder : Option Nat
  calls : List SerializedCall
  overlapped : Bool
  conflicted : Bool
  deriving DecidableEq, Repr

/-- What happens next. -/
inductive CreationEvent where
  | enter (target : Bytes)
  /-- The first `known_to_exist()`. -/
  | check (i : Nat)
  | lock (i : Nat)
  /-- The second `known_to_exist()`. -/
  | recheck (i : Nat)
  | begin (i : Nat)
  | create (i : Nat)
  /-- The attempt raises something, a `TransactionException` or not. -/
  | fail (i : Nat) (transaction : Bool)
  /-- `failure`, when it raises, says whether that is a `TransactionException`. -/
  | commit (i : Nat) (failure : Option Bool)
  /-- The handler of `TransactionException`. -/
  | rollback (i : Nat)
  | mark (i : Nat)
  /-- The destructor of `creation_guard`. -/
  | leave (i : Nat)
  /-- The caller of a call that raised rolls back. -/
  | rescue (i : Nat)
  /-- Somebody drops the table. -/
  | drop

namespace SerializedPhase

/-- The open transaction of a call that is in the function. -/
def insideTx : SerializedPhase → Option CreationTx
  | .running _ tx => some tx
  | .retrying tx | .unwinding tx => tx
  | _ => none

/-- The open transaction of a call that raised. -/
def leftTx : SerializedPhase → Option CreationTx
  | .raised tx => tx
  | _ => none

/-- A `CREATE` of the call is not committed yet. -/
def creates (phase : SerializedPhase) : Bool :=
  phase.insideTx.any CreationTx.created || phase.leftTx.any CreationTx.created

/-- The call raised, and its `CREATE` is not rolled back yet. -/
def leavesCreation (phase : SerializedPhase) : Bool := phase.leftTx.any CreationTx.created

/-- Another call committed the table. -/
def overtake : SerializedPhase → SerializedPhase
  | .running retried tx => .running retried { tx with overtaken := true }
  | .retrying tx => .retrying (tx.map ({ · with overtaken := true }))
  | .unwinding tx => .unwinding (tx.map ({ · with overtaken := true }))
  | .raised tx => .raised (tx.map ({ · with overtaken := true }))
  | phase => phase

/-- An attempt raises: the handler is there for a `TransactionException` of the first
one only. -/
def raise (retried transaction : Bool) (tx : Option CreationTx) : SerializedPhase :=
  if transaction && !retried then .retrying tx else .unwinding tx

end SerializedPhase

namespace CreationRun

/-- Some call that raised has a `CREATE` to roll back. -/
def leftOpen (s : CreationRun) : Bool := s.calls.any fun call => call.phase.leavesCreation

/-- Some `CREATE` is not committed yet. -/
def creating (s : CreationRun) : Bool := s.calls.any fun call => call.phase.creates

def goTo (s : CreationRun) (i : Nat) (target : Bytes) (phase : SerializedPhase) : CreationRun :=
  { s with calls := s.calls.set i ⟨target, phase⟩ }

/-- `creation_guard.unlock()`. -/
def unlock (s : CreationRun) (i : Nat) : CreationRun :=
  { s with holder := if s.holder = some i then none else s.holder }

/-- The transaction of the call is committed. -/
def publish (s : CreationRun) (tx : CreationTx) : CreationRun :=
  if tx.created then
    { s with
      tableExists := true
      calls := s.calls.map fun call => { call with phase := call.phase.overtake } }
  else s

/-- The transaction of the call tries to create the table. -/
def attempt (s : CreationRun) (i : Nat) (target : Bytes) (retried : Bool) (tx : CreationTx) :
    CreationRun :=
  if s.creating || tx.overtaken then
    { s with
      overlapped := s.overlapped || s.creating
      conflicted := true }.goTo i target (.raise retried true (some tx))
  else s.goTo i target (.running retried { tx with created := true })

/-- One step of a call, of a caller or of whoever drops the table. -/
def step (s : CreationRun) : CreationEvent → Option CreationRun
  | .enter target => some { s with calls := s.calls ++ [⟨target, .entered⟩] }
  | .check i =>
      match s.calls[i]? with
      | some ⟨target, .entered⟩ =>
          if ciContains s.known target then some (s.goTo i target (.starting false))
          else some (s.goTo i target .locking)
      | _ => none
  | .lock i =>
      match s.calls[i]?, s.holder with
      | some ⟨target, .locking⟩, none =>
          some ({ s with holder := some i }.goTo i target .locked)
      | _, _ => none
  | .recheck i =>
      match s.calls[i]? with
      | some ⟨target, .locked⟩ =>
          if ciContains s.known target then some ((s.unlock i).goTo i target (.starting false))
          else some (s.goTo i target (.starting false))
      | _ => none
  | .begin i =>
      match s.calls[i]? with
      | some ⟨target, .starting retried⟩ =>
          some (s.goTo i target (.running retried ⟨s.tableExists, false, false⟩))
      | _ => none
  | .create i =>
      match s.calls[i]? with
      | some ⟨target, .running retried tx⟩ =>
          if tx.sees || tx.created then none else some (s.attempt i target retried tx)
      | _ => none
  | .fail i transaction =>
      match s.calls[i]? with
      | some ⟨target, .starting _⟩ => some (s.goTo i target (.unwinding none))
      | some ⟨target, .running retried tx⟩ =>
          some (s.goTo i target (.raise retried transaction (some tx)))
      | _ => none
  | .commit i failure =>
      match s.calls[i]?, failure with
      | some ⟨target, .running _ tx⟩, none => some ((s.publish tx).goTo i target .marking)
      | some ⟨target, .running retried _⟩, some transaction =>
          some (s.goTo i target (.raise retried transaction none))
      | _, _ => none
  | .rollback i =>
      match s.calls[i]? with
      | some ⟨target, .retrying _⟩ => some (s.goTo i target (.starting true))
      | _ => none
  | .mark i =>
      match s.calls[i]? with
      | some ⟨target, .marking⟩ =>
          some ({ s with known := target :: s.known }.goTo i target .returning)
      | _ => none
  | .leave i =>
      match s.calls[i]? with
      | some ⟨target, .returning⟩ => some ((s.unlock i).goTo i target .ended)
      | some ⟨target, .unwinding tx⟩ => some ((s.unlock i).goTo i target (.raised tx))
      | _ => none
  | .rescue i =>
      match s.calls[i]? with
      | some ⟨target, .raised _⟩ => some (s.goTo i target .ended)
      | _ => none
  | .drop => if s.tableExists then some { s with tableExists := false } else none

end CreationRun

/-- No call yet, and the table there or not. -/
def creationRun (tableExists : Bool) : System CreationRun CreationEvent where
  init :=
    { tableExists
      known := []
      holder := none
      calls := []
      overlapped := false
      conflicted := false }
  step := CreationRun.step

/-! ## what a step does -/

namespace CreationRun

/-- The steps by their kind; the ones from `known` on change the phase of one call and
nothing else. -/
inductive Move (s : CreationRun) : CreationEvent → CreationRun → Prop
  | enter (target : Bytes) :
      Move s (.enter target) { s with calls := s.calls ++ [⟨target, .entered⟩] }
  | lock {i target} (hcall : s.calls[i]? = some ⟨target, .locking⟩) (hfree : s.holder = none) :
      Move s (.lock i) ({ s with holder := some i }.goTo i target .locked)
  | recheckKnown {i target} (hcall : s.calls[i]? = some ⟨target, .locked⟩)
      (hknown : ciContains s.known target = true) :
      Move s (.recheck i) ((s.unlock i).goTo i target (.starting false))
  | create {i target retried tx} (hcall : s.calls[i]? = some ⟨target, .running retried tx⟩)
      (hsees : tx.sees = false) (hcreated : tx.created = false) :
      Move s (.create i) (s.attempt i target retried tx)
  | commit {i target retried tx} (hcall : s.calls[i]? = some ⟨target, .running retried tx⟩) :
      Move s (.commit i none) ((s.publish tx).goTo i target .marking)
  | mark {i target} (hcall : s.calls[i]? = some ⟨target, .marking⟩) :
      Move s (.mark i) ({ s with known := target :: s.known }.goTo i target .returning)
  | leave {i target tx} (hcall : s.calls[i]? = some ⟨target, .unwinding tx⟩) :
      Move s (.leave i) ((s.unlock i).goTo i target (.raised tx))
  | leaveReturning {i target} (hcall : s.calls[i]? = some ⟨target, .returning⟩) :
      Move s (.leave i) ((s.unlock i).goTo i target .ended)
  | drop : Move s .drop { s with tableExists := false }
  | known {i target} (hcall : s.calls[i]? = some ⟨target, .entered⟩)
      (hknown : ciContains s.known target = true) :
      Move s (.check i) (s.goTo i target (.starting false))
  | unknown {i target} (hcall : s.calls[i]? = some ⟨target, .entered⟩) :
      Move s (.check i) (s.goTo i target .locking)
  | recheck {i target} (hcall : s.calls[i]? = some ⟨target, .locked⟩) :
      Move s (.recheck i) (s.goTo i target (.starting false))
  | begin {i target retried} (hcall : s.calls[i]? = some ⟨target, .starting retried⟩) :
      Move s (.begin i) (s.goTo i target (.running retried ⟨s.tableExists, false, false⟩))
  | failStarting {i target retried transaction}
      (hcall : s.calls[i]? = some ⟨target, .starting retried⟩) :
      Move s (.fail i transaction) (s.goTo i target (.unwinding none))
  | fail {i target retried tx transaction}
      (hcall : s.calls[i]? = some ⟨target, .running retried tx⟩) :
      Move s (.fail i transaction) (s.goTo i target (.raise retried transaction (some tx)))
  | commitFails {i target retried tx transaction}
      (hcall : s.calls[i]? = some ⟨target, .running retried tx⟩) :
      Move s (.commit i (some transaction)) (s.goTo i target (.raise retried transaction none))
  | rollback {i target tx} (hcall : s.calls[i]? = some ⟨target, .retrying tx⟩) :
      Move s (.rollback i) (s.goTo i target (.starting true))
  | rescue {i target tx} (hcall : s.calls[i]? = some ⟨target, .raised tx⟩) :
      Move s (.rescue i) (s.goTo i target .ended)

variable {s s' : CreationRun} {a : CreationEvent}

theorem step_move (h : s.step a = some s') : Move s a s' := by
  cases a with
  | enter target =>
      obtain rfl := Option.some.inj h
      exact .enter target
  | drop =>
      simp only [step, Option.ite_none_right_eq_some, Option.some.injEq] at h
      obtain ⟨-, rfl⟩ := h
      exact .drop
  | check i =>
      simp only [step] at h
      split at h
      · rename_i target hcall
        split at h
        · rename_i hknown
          obtain rfl := Option.some.inj h
          exact .known hcall hknown
        · obtain rfl := Option.some.inj h
          exact .unknown hcall
      · exact nomatch h
  | lock i =>
      simp only [step] at h
      split at h
      · rename_i target hcall hfree
        obtain rfl := Option.some.inj h
        exact .lock hcall hfree
      · exact nomatch h
  | recheck i =>
      simp only [step] at h
      split at h
      · rename_i target hcall
        split at h
        · rename_i hknown
          obtain rfl := Option.some.inj h
          exact .recheckKnown hcall hknown
        · obtain rfl := Option.some.inj h
          exact .recheck hcall
      · exact nomatch h
  | begin i =>
      simp only [step] at h
      split at h
      · rename_i target retried hcall
        obtain rfl := Option.some.inj h
        exact .begin hcall
      · exact nomatch h
  | create i =>
      simp only [step] at h
      split at h
      · rename_i target retried tx hcall
        simp only [Option.ite_none_left_eq_some, Bool.or_eq_true, not_or, Bool.not_eq_true,
          Option.some.injEq] at h
        obtain ⟨⟨hsees, hcreated⟩, rfl⟩ := h
        exact .create hcall hsees hcreated
      · exact nomatch h
  | fail i transaction =>
      simp only [step] at h
      split at h
      · rename_i target retried hcall
        obtain rfl := Option.some.inj h
        exact .failStarting hcall
      · rename_i target retried tx hcall
        obtain rfl := Option.some.inj h
        exact .fail hcall
      · exact nomatch h
  | commit i failure =>
      simp only [step] at h
      split at h
      · rename_i target retried tx hcall
        obtain rfl := Option.some.inj h
        exact .commit hcall
      · rename_i target retried tx transaction hcall
        obtain rfl := Option.some.inj h
        exact .commitFails hcall
      · exact nomatch h
  | rollback i =>
      simp only [step] at h
      split at h
      · rename_i target tx hcall
        obtain rfl := Option.some.inj h
        exact .rollback hcall
      · exact nomatch h
  | mark i =>
      simp only [step] at h
      split at h
      · rename_i target hcall
        obtain rfl := Option.some.inj h
        exact .mark hcall
      · exact nomatch h
  | leave i =>
      simp only [step] at h
      split at h
      · rename_i target hcall
        obtain rfl := Option.some.inj h
        exact .leaveReturning hcall
      · rename_i target tx hcall
        obtain rfl := Option.some.inj h
        exact .leave hcall
      · exact nomatch h
  | rescue i =>
      simp only [step] at h
      split at h
      · rename_i target tx hcall
        obtain rfl := Option.some.inj h
        exact .rescue hcall
      · exact nomatch h

/-! ## the phase of one call -/

variable {i k : Nat} {target : Bytes} {phase : SerializedPhase} {call : SerializedCall}

theorem goTo_self (hcall : s.calls[i]? = some call) :
    (s.goTo i target phase).calls[i]? = some ⟨target, phase⟩ := by
  obtain ⟨hi, -⟩ := List.getElem?_eq_some_iff.mp hcall
  exact List.getElem?_set_self hi

theorem goTo_other (hk : k ≠ i) : (s.goTo i target phase).calls[k]? = s.calls[k]? :=
  List.getElem?_set_ne (Ne.symm hk)

/-- What a call of the new state is. -/
theorem goTo_getElem? (h : (s.goTo i target phase).calls[k]? = some call) :
    k = i ∧ call = ⟨target, phase⟩ ∨ k ≠ i ∧ s.calls[k]? = some call := by
  by_cases hk : k = i
  · subst hk
    simp only [goTo, List.getElem?_set, if_true] at h
    split at h
    · exact .inl ⟨rfl, (Option.some.inj h).symm⟩
    · exact nomatch h
  · rw [goTo_other hk] at h
    exact .inr ⟨hk, h⟩

theorem unlock_other (hk : k ≠ i) (hholder : s.holder = some k) :
    (s.unlock i).holder = some k := by
  have hne : s.holder ≠ some i := by
    rw [hholder]
    simpa using hk
  rw [unlock, if_neg hne, hholder]

theorem leftOpen_goTo (hleaves : phase.leavesCreation = false) (hleft : s.leftOpen = false) :
    (s.goTo i target phase).leftOpen = false := by
  rw [leftOpen, List.any_eq_false] at hleft ⊢
  intro call hmem
  obtain hmem | rfl := List.mem_or_eq_of_mem_set hmem
  · exact hleft call hmem
  · simp [hleaves]

theorem creating_of_call (hcall : s.calls[i]? = some call) (hcreates : call.phase.creates = true) :
    s.creating = true :=
  List.any_eq_true.mpr ⟨call, List.mem_of_getElem? hcall, hcreates⟩

/-! ## the lock -/

/-- A call past its checks holds the creation lock, or its spelling is known. -/
def Owns (s : CreationRun) (i : Nat) (call : SerializedCall) : Prop :=
  match call.phase with
  | .locked => s.holder = some i
  | .starting _ | .running _ _ | .retrying _ =>
      s.holder = some i ∨ ciContains s.known call.target = true
  | _ => True

/-- The lock and `known_to_exist` as the calls rely on them. -/
def Locks (s : CreationRun) : Prop := ∀ i call, s.calls[i]? = some call → s.Owns i call

/-- A call keeps what it relies on while its lock and the known spellings stay. -/
theorem Owns.mono (h : s.Owns i call) (hholder : s.holder = some i → s'.holder = some i)
    (hknown : ∀ name, ciContains s.known name = true → ciContains s'.known name = true) :
    s'.Owns i call := by
  unfold Owns at h ⊢
  split at h
  · exact hholder h
  · exact h.imp hholder (hknown _)
  · exact h.imp hholder (hknown _)
  · exact h.imp hholder (hknown _)
  · trivial

/-- One call goes on, and the others keep what they rely on. -/
theorem Locks.goTo (h : Locks s) (hself : s'.Owns i ⟨target, phase⟩)
    (hcalls : s'.calls = s.calls)
    (hholder : ∀ k, k ≠ i → s.holder = some k → s'.holder = some k)
    (hknown : ∀ name, ciContains s.known name = true → ciContains s'.known name = true) :
    Locks (s'.goTo i target phase) := by
  intro k call hcall
  obtain ⟨rfl, rfl⟩ | ⟨hk, hcall⟩ := goTo_getElem? hcall
  · exact hself
  · rw [hcalls] at hcall
    exact (h k call hcall).mono (hholder k hk) hknown

/-- One call goes on, and nothing else changes. -/
theorem Locks.moved (h : Locks s) (hself : s.Owns i ⟨target, phase⟩) :
    Locks (s.goTo i target phase) :=
  h.goTo hself rfl (fun _ _ hholder => hholder) (fun _ hknown => hknown)

theorem Owns.raise {retried transaction : Bool} {tx : CreationTx} {left : Option CreationTx}
    (h : s.Owns i ⟨target, .running retried tx⟩) :
    s.Owns i ⟨target, .raise retried transaction left⟩ := by
  unfold SerializedPhase.raise
  split
  · exact h
  · trivial

theorem Locks.step (h : Locks s) (hs : s.step a = some s') : Locks s' := by
  cases step_move hs with
  | enter target =>
      intro k call hcall
      rw [List.getElem?_append] at hcall
      split at hcall
      · exact (h k call hcall).mono (fun hholder => hholder) (fun _ hknown => hknown)
      · obtain rfl := List.mem_singleton.mp (List.mem_of_getElem? hcall)
        trivial
  | drop =>
      intro k call hcall
      exact (h k call hcall).mono (fun hholder => hholder) (fun _ hknown => hknown)
  | lock hcall hfree =>
      exact h.goTo rfl rfl (fun _ _ hholder => by simp [hfree] at hholder) (fun _ hknown => hknown)
  | recheckKnown hcall hknown =>
      exact h.goTo (.inr hknown) rfl (fun _ hk => unlock_other hk) (fun _ hknown => hknown)
  | recheck hcall => exact h.moved (.inl (h _ _ hcall))
  | known hcall hknown => exact h.moved (.inr hknown)
  | unknown hcall => exact h.moved trivial
  | begin hcall =>
      have howns := h _ _ hcall
      exact h.moved howns
  | create hcall hsees hcreated =>
      have howns := h _ _ hcall
      unfold attempt
      split
      · exact h.goTo howns.raise rfl (fun _ _ hholder => hholder) (fun _ hknown => hknown)
      · exact h.moved howns
  | failStarting hcall => exact h.moved trivial
  | fail hcall => exact h.moved (h _ _ hcall).raise
  | commitFails hcall => exact h.moved (h _ _ hcall).raise
  | rollback hcall =>
      have howns := h _ _ hcall
      exact h.moved howns
  | rescue hcall => exact h.moved trivial
  | mark hcall =>
      refine h.goTo trivial rfl (fun _ _ hholder => hholder) fun name hname => ?_
      rw [ciContains_iff] at hname ⊢
      obtain ⟨n, hn, heq⟩ := hname
      exact ⟨n, List.mem_cons_of_mem _ hn, heq⟩
  | leave hcall => exact h.goTo trivial rfl (fun _ hk => unlock_other hk) (fun _ hknown => hknown)
  | leaveReturning hcall =>
      exact h.goTo trivial rfl (fun _ hk => unlock_other hk) (fun _ hknown => hknown)
  | @commit i target retried tx hcall =>
      intro k call hnew
      obtain ⟨rfl, rfl⟩ | ⟨-, hnew⟩ := goTo_getElem? hnew
      · trivial
      · unfold publish at hnew ⊢
        split at hnew
        · rename_i hcreated
          rw [List.getElem?_map, Option.map_eq_some_iff] at hnew
          obtain ⟨old, hold, rfl⟩ := hnew
          have howns := h k old hold
          obtain ⟨name, phase⟩ := old
          rw [if_pos hcreated]
          cases phase <;> exact howns
        · rename_i hcreated
          rw [if_neg hcreated]
          exact h k call hnew

theorem reachable_locks {tableExists : Bool} {guard : CreationRun → CreationEvent → Prop}
    (h : Reachable (creationRun tableExists) guard s) : Locks s :=
  h.invariant Locks (fun _ _ hcall => by simp [creationRun] at hcall)
    fun _ _ _ hlocks _ hs => hlocks.step hs

/-! ## one creation at a time -/

/-- The guard: a transaction that does not see the table begins under the creation
lock, and behind the rollback of every `CREATE` whose call raised. -/
def Exclusive (s : CreationRun) : CreationEvent → Prop
  | .begin i => s.tableExists = true ∨ s.holder = some i ∧ s.leftOpen = false
  | _ => True

instance Exclusive.decidable (s : CreationRun) : ∀ a, Decidable (s.Exclusive a)
  | .begin i =>
      inferInstanceAs
        (Decidable (s.tableExists = true ∨ s.holder = some i ∧ s.leftOpen = false))
  | .enter _ | .check _ | .lock _ | .recheck _ | .create _ | .fail _ _ | .commit _ _ | .rollback _
  | .mark _ | .leave _ | .rescue _ | .drop => .isTrue trivial

/-- What holds of an open transaction in the function. -/
structure TxSerial (s : CreationRun) (i : Nat) (tx : CreationTx) : Prop where
  /-- Where the table was not there, the transaction is the only one that may
  create it. -/
  alone : tx.sees = false → s.holder = some i ∧ tx.overtaken = false ∧ s.leftOpen = false
  blind : tx.created = true → tx.sees = false

/-- Creations are serialized, and nothing went wrong. -/
structure Serial (s : CreationRun) : Prop where
  inside : ∀ i call tx, s.calls[i]? = some call → call.phase.insideTx = some tx →
    s.TxSerial i tx
  overlapped : s.overlapped = false
  conflicted : s.conflicted = false

theorem TxSerial.mono {tx : CreationTx} (h : s.TxSerial i tx)
    (hholder : s.holder = some i → s'.holder = some i)
    (hleft : s.leftOpen = false → s'.leftOpen = false) : s'.TxSerial i tx where
  alone := fun hsees =>
    have ⟨hlock, hovertaken, hnone⟩ := h.alone hsees
    ⟨hholder hlock, hovertaken, hleft hnone⟩
  blind := h.blind

/-- Two transactions that do not see the table are one. -/
theorem Serial.unique (h : Serial s) {call call' : SerializedCall} {tx tx' : CreationTx}
    (hcall : s.calls[i]? = some call) (htx : call.phase.insideTx = some tx)
    (hsees : tx.sees = false) (hcall' : s.calls[k]? = some call')
    (htx' : call'.phase.insideTx = some tx') (hsees' : tx'.sees = false) : k = i := by
  have hholder := ((h.inside i call tx hcall htx).alone hsees).1
  have hholder' := ((h.inside k call' tx' hcall' htx').alone hsees').1
  rw [hholder] at hholder'
  exact (Option.some.inj hholder').symm

/-- One call goes on to a phase in which it has no `CREATE` of its own to leave. -/
theorem Serial.goTo (h : Serial s)
    (hself : ∀ tx, phase.insideTx = some tx → s.TxSerial i tx)
    (hleaves : phase.leavesCreation = false) : Serial (s.goTo i target phase) where
  inside := by
    intro k call tx hcall htx
    have hmono : s.TxSerial k tx → (s.goTo i target phase).TxSerial k tx :=
      fun htx => htx.mono (fun hholder => hholder) (leftOpen_goTo hleaves)
    obtain ⟨rfl, rfl⟩ | ⟨-, hcall⟩ := goTo_getElem? hcall
    · exact hmono (hself tx htx)
    · exact hmono (h.inside k call tx hcall htx)
  overlapped := h.overlapped
  conflicted := h.conflicted

/-- A call outside of its transaction unlocks. -/
theorem Serial.unlock (h : Serial s) (hcall : s.calls[i]? = some call)
    (hoff : call.phase.insideTx = none) : Serial (s.unlock i) where
  inside := by
    intro k other tx hother htx
    have hk : k ≠ i := by
      intro hk
      rw [hk] at hother
      obtain rfl := Option.some.inj (hcall.symm.trans hother)
      rw [hoff] at htx
      exact nomatch htx
    exact (h.inside k other tx hother htx).mono (unlock_other hk) (fun hleft => hleft)
  overlapped := h.overlapped
  conflicted := h.conflicted

/-- A free lock is taken. -/
theorem Serial.lock (h : Serial s) (hfree : s.holder = none) :
    Serial { s with holder := some i } where
  inside := by
    intro k call tx hcall htx
    exact (h.inside k call tx hcall htx).mono (fun hholder => by simp [hfree] at hholder)
      (fun hleft => hleft)
  overlapped := h.overlapped
  conflicted := h.conflicted

theorem insideTx_raise {retried transaction : Bool} {left : Option CreationTx} :
    (SerializedPhase.raise retried transaction left).insideTx = left := by
  unfold SerializedPhase.raise
  split <;> rfl

theorem leavesCreation_raise {retried transaction : Bool} {left : Option CreationTx} :
    (SerializedPhase.raise retried transaction left).leavesCreation = false := by
  unfold SerializedPhase.raise
  split <;> rfl

/-- The one transaction that does not see the table finds no other `CREATE`. -/
theorem Serial.attempt_eq (h : Serial s) {retried : Bool} {tx : CreationTx}
    (hcall : s.calls[i]? = some ⟨target, .running retried tx⟩) (hsees : tx.sees = false)
    (hcreated : tx.created = false) :
    s.attempt i target retried tx =
      s.goTo i target (.running retried { tx with created := true }) := by
  obtain ⟨-, hovertaken, hleft⟩ := (h.inside i _ tx hcall rfl).alone hsees
  have hcreating : s.creating = false := by
    rw [leftOpen, List.any_eq_false] at hleft
    rw [creating, List.any_eq_false]
    intro call hmem hcreates
    obtain hinside | hleaves := Bool.or_eq_true_iff.mp hcreates
    · obtain ⟨k, hk⟩ := List.mem_iff_getElem?.mp hmem
      obtain ⟨tx', htx', hcreated'⟩ := Option.any_eq_true _ _ |>.mp hinside
      have hki := h.unique hcall rfl hsees hk htx' ((h.inside k call tx' hk htx').blind hcreated')
      subst hki
      obtain rfl := Option.some.inj (hcall.symm.trans hk)
      obtain rfl := Option.some.inj htx'
      simp [hcreated] at hcreated'
    · exact hleft call hmem hleaves
  rw [attempt, hcreating, hovertaken]
  rfl

/-- A call raised, and its transaction stays open. -/
theorem Serial.leave (h : Serial s) {tx : Option CreationTx}
    (hcall : s.calls[i]? = some ⟨target, .unwinding tx⟩) :
    Serial ((s.unlock i).goTo i target (.raised tx)) where
  inside := by
    intro k call other hother htx
    obtain ⟨rfl, rfl⟩ | ⟨hk, hstays⟩ := goTo_getElem? hother
    · exact nomatch htx
    · have hserial := h.inside k call other hstays htx
      refine ⟨fun hsees => ?_, hserial.blind⟩
      obtain ⟨hholder, hovertaken, hleft⟩ := hserial.alone hsees
      have hleaves : (SerializedPhase.raised tx).leavesCreation = false := by
        cases tx with
        | none => rfl
        | some tx =>
            refine Bool.eq_false_iff.mpr fun hcreated => hk ?_
            exact h.unique hcall rfl ((h.inside i _ tx hcall rfl).blind hcreated) hstays htx hsees
      exact ⟨unlock_other hk hholder, hovertaken, leftOpen_goTo hleaves hleft⟩
  overlapped := h.overlapped
  conflicted := h.conflicted

theorem insideTx_overtake :
    phase.overtake.insideTx = phase.insideTx.map ({ · with overtaken := true }) := by
  cases phase <;> rfl

/-- A transaction that created the table commits: no other one is there to be
overtaken. -/
theorem Serial.publish (h : Serial s) {retried : Bool} {tx : CreationTx}
    (hcall : s.calls[i]? = some ⟨target, .running retried tx⟩) :
    Serial ((s.publish tx).goTo i target .marking) := by
  unfold CreationRun.publish
  split
  · rename_i hcreated
    have hsees := (h.inside i _ tx hcall rfl).blind hcreated
    refine ⟨fun k call other hother htx => ?_, h.overlapped, h.conflicted⟩
    obtain ⟨rfl, rfl⟩ | ⟨hk, hmapped⟩ := goTo_getElem? hother
    · exact nomatch htx
    · rw [List.getElem?_map, Option.map_eq_some_iff] at hmapped
      obtain ⟨old, hold, rfl⟩ := hmapped
      rw [insideTx_overtake, Option.map_eq_some_iff] at htx
      obtain ⟨before, hbefore, rfl⟩ := htx
      refine ⟨fun hblind => ?_, (h.inside k old before hold hbefore).blind⟩
      exact absurd (h.unique hcall rfl hsees hold hbefore hblind) hk
  · exact h.goTo nofun rfl

theorem Serial.step (h : Serial s) (hexclusive : s.Exclusive a) (hs : s.step a = some s') :
    Serial s' := by
  cases step_move hs with
  | enter target =>
      have hleft : s.leftOpen = false → CreationRun.leftOpen
          { s with calls := s.calls ++ [⟨target, .entered⟩] } = false := by
        intro hleft
        rw [leftOpen, List.any_append]
        exact Bool.or_eq_false_iff.mpr ⟨hleft, rfl⟩
      refine ⟨fun k call tx hcall htx => ?_, h.overlapped, h.conflicted⟩
      rw [List.getElem?_append] at hcall
      split at hcall
      · exact (h.inside k call tx hcall htx).mono (fun hholder => hholder) hleft
      · obtain rfl := List.mem_singleton.mp (List.mem_of_getElem? hcall)
        exact nomatch htx
  | drop => exact ⟨fun k call tx hcall htx => (h.inside k call tx hcall htx).mono
      (fun hholder => hholder) (fun hleft => hleft), h.overlapped, h.conflicted⟩
  | lock hcall hfree => exact (h.lock hfree).goTo nofun rfl
  | recheckKnown hcall hknown => exact (h.unlock hcall rfl).goTo nofun rfl
  | recheck hcall => exact h.goTo nofun rfl
  | known hcall hknown => exact h.goTo nofun rfl
  | unknown hcall => exact h.goTo nofun rfl
  | @begin i target retried hcall =>
      refine h.goTo (fun tx htx => ?_) rfl
      obtain rfl := Option.some.inj htx
      refine ⟨fun hsees => ?_, nofun⟩
      have hsees : s.tableExists = false := hsees
      obtain hexists | ⟨hholder, hleft⟩ := hexclusive
      · exact absurd hexists (by simp [hsees])
      · exact ⟨hholder, rfl, hleft⟩
  | @create i target retried tx hcall hsees hcreated =>
      rw [h.attempt_eq hcall hsees hcreated]
      refine h.goTo (fun tx' htx => ?_) rfl
      obtain rfl := Option.some.inj htx
      exact ⟨(h.inside i _ tx hcall rfl).alone, fun _ => hsees⟩
  | failStarting hcall => exact h.goTo nofun rfl
  | fail hcall =>
      refine h.goTo (fun tx htx => ?_) leavesCreation_raise
      rw [insideTx_raise] at htx
      exact h.inside _ _ tx hcall htx
  | commitFails hcall =>
      refine h.goTo (fun tx htx => ?_) leavesCreation_raise
      rw [insideTx_raise] at htx
      exact nomatch htx
  | rollback hcall => exact h.goTo nofun rfl
  | rescue hcall => exact h.goTo nofun rfl
  | @mark i target hcall =>
      have hmarked : Serial { s with known := target :: s.known } :=
        ⟨fun k call tx hcall htx => (h.inside k call tx hcall htx).mono
          (fun hholder => hholder) (fun hleft => hleft), h.overlapped, h.conflicted⟩
      exact hmarked.goTo nofun rfl
  | leave hcall => exact h.leave hcall
  | leaveReturning hcall => exact (h.unlock hcall rfl).goTo nofun rfl
  | commit hcall => exact h.publish hcall

theorem reachable_serial {tableExists : Bool}
    (h : Reachable (creationRun tableExists) Exclusive s) : Serial s :=
  h.invariant Serial ⟨fun _ _ _ hcall => by simp [creationRun] at hcall, rfl, rfl⟩
    fun _ _ _ hserial hexclusive hs => hserial.step hexclusive hs

/-! ## a begin that breaks the guard -/

/-- A call that does not see the table, and finds a `CREATE` open. -/
theorem overlap_of_creating {retried : Bool}
    (hcall : s.calls[i]? = some ⟨target, .running retried ⟨false, false, false⟩⟩)
    (hcreating : s.creating = true) :
    ∃ t, s.step (.create i) = some t ∧ t.overlapped = true := by
  refine ⟨s.attempt i target retried ⟨false, false, false⟩, by simp [step, hcall], ?_⟩
  simp [attempt, goTo, hcreating]

/-- A call of a known spelling begins without the lock. -/
theorem begin_of_known (tableExists : Bool) (hknown : ciContains s.known target = true)
    (hexists : s.tableExists = false) :
    (creationRun tableExists).runFrom s
        [.enter target, .check s.calls.length, .begin s.calls.length] =
      some
        { s with calls := s.calls ++ [⟨target, .running false ⟨false, false, false⟩⟩] } := by
  simp [runFrom, creationRun, step, goTo, hknown, hexists]

/-- Without the lock the call creates the table, and then a second call of its
spelling tries to. -/
theorem overlap_of_known (tableExists : Bool) {retried : Bool}
    (hcall : s.calls[i]? = some ⟨target, .running retried ⟨false, false, false⟩⟩)
    (hcreating : s.creating = false) (hknown : ciContains s.known target = true)
    (hexists : s.tableExists = false) :
    ∃ as t, (creationRun tableExists).runFrom s as = some t ∧ t.overlapped = true := by
  have hattempt : s.step (.create i) =
      some (s.goTo i target (.running retried ⟨false, true, false⟩)) := by
    simp [step, hcall, attempt, hcreating]
  generalize hcreated : s.goTo i target (.running retried ⟨false, true, false⟩) = u at hattempt
  have hfirst : u.calls[i]? = some ⟨target, .running retried ⟨false, true, false⟩⟩ := by
    rw [← hcreated]
    exact goTo_self hcall
  have hbegin := begin_of_known (s := u) tableExists
    (show ciContains u.known target = true by rw [← hcreated]; exact hknown)
    (by rw [← hcreated]; exact hexists)
  have hopen : (u.calls ++ [(⟨target, .running false ⟨false, false, false⟩⟩ :
      SerializedCall)]).any (fun call => call.phase.creates) = true := by
    rw [List.any_append, Bool.or_eq_true_iff]
    exact .inl (creating_of_call hfirst rfl)
  obtain ⟨t, hcreate, hoverlapped⟩ := overlap_of_creating (i := u.calls.length)
    (s := { u with calls := u.calls ++ [⟨target, .running false ⟨false, false, false⟩⟩] })
    List.getElem?_concat_length hopen
  have hone {v w : CreationRun} {a : CreationEvent} (h : v.step a = some w) :
      (creationRun tableExists).runFrom v [a] = some w := by
    simp [runFrom, creationRun, h]
  exact ⟨_, t, runFrom_trans (hone hattempt) (runFrom_trans hbegin (hone hcreate)), hoverlapped⟩

/-- What a call that raised has created is still there when another one goes on. -/
theorem creating_of_leftOpen {retried : Bool}
    (hcall : s.calls[i]? = some ⟨target, .starting retried⟩) (hleft : s.leftOpen = true) :
    (s.goTo i target phase).creating = true := by
  obtain ⟨other, hmem, hleaves⟩ := List.any_eq_true.mp hleft
  obtain ⟨k, hk⟩ := List.mem_iff_getElem?.mp hmem
  have hne : k ≠ i := by
    intro hki
    rw [hki, hcall] at hk
    obtain rfl := Option.some.inj hk
    exact nomatch hleaves
  have hstays : (s.goTo i target phase).calls[k]? = some other := (goTo_other hne).trans hk
  exact creating_of_call hstays (Bool.or_eq_true_iff.mpr (.inr hleaves))

/-- After a begin that breaks the guard two creations can overlap. -/
theorem overlap_of_begin (tableExists : Bool) (hlocks : Locks s)
    (hs : s.step (.begin i) = some s') (hexclusive : ¬ s.Exclusive (.begin i)) :
    ∃ as t, (creationRun tableExists).runFrom s' as = some t ∧ t.overlapped = true := by
  cases step_move hs with
  | @begin _ target retried hcall =>
      obtain ⟨hexists, hunlocked⟩ := not_or.mp hexclusive
      rw [Bool.not_eq_true] at hexists
      rw [hexists]
      have hrunning : (s.goTo i target (.running retried ⟨false, false, false⟩)).calls[i]? =
          some ⟨target, .running retried ⟨false, false, false⟩⟩ := goTo_self hcall
      by_cases hcreating :
          (s.goTo i target (.running retried ⟨false, false, false⟩)).creating = true
      · obtain ⟨t, hcreate, hoverlapped⟩ := overlap_of_creating hrunning hcreating
        exact ⟨[.create i], t, by simp [runFrom, creationRun, hcreate], hoverlapped⟩
      · have hleft : s.leftOpen = false :=
          Bool.eq_false_iff.mpr fun hleft => hcreating (creating_of_leftOpen hcall hleft)
        have hknown := (hlocks i _ hcall).resolve_left fun hholder => hunlocked ⟨hholder, hleft⟩
        rw [Bool.not_eq_true] at hcreating
        exact overlap_of_known tableExists hrunning hcreating hknown hexists

end CreationRun

/-- **Creations of a table**: they never overlap and none conflicts in a run in which
each transaction, where the table is not there, begins under the creation lock and
behind the rollbacks of the calls that raised; and after the first begin that does
not, two creations can overlap. -/
theorem creationRun_noCollision (tableExists : Bool) :
    (∀ s, Reachable (creationRun tableExists) CreationRun.Exclusive s →
      s.overlapped = false ∧ s.conflicted = false) ∧
    (∀ s i s', Reachable (creationRun tableExists) CreationRun.Exclusive s →
      s.step (.begin i) = some s' → ¬ s.Exclusive (.begin i) →
      ∃ as t, (creationRun tableExists).runFrom s' as = some t ∧ t.overlapped = true) := by
  constructor
  · intro s h
    have hserial := CreationRun.reachable_serial h
    exact ⟨hserial.overlapped, hserial.conflicted⟩
  · intro s i s' h hs hexclusive
    exact CreationRun.overlap_of_begin tableExists (CreationRun.reachable_locks h) hs hexclusive

/-- Two spellings of a table. -/
def unqualified : Bytes := bytes "t"
def qualified : Bytes := bytes "main.t"

/-- Both spellings are ingested into, one behind the other. -/
def bothSpellings : List CreationEvent :=
  [.enter unqualified, .enter qualified, .check 0, .check 1, .lock 0, .recheck 0, .begin 0,
    .create 0, .commit 0 none, .mark 0, .leave 0, .lock 1, .recheck 1, .begin 1, .commit 1 none,
    .mark 1, .leave 1]

theorem bothSpellings_guarded : (creationRun false).Guarded CreationRun.Exclusive
    (creationRun false).init bothSpellings := by decide

/-- The table is dropped, and the next call is past its checks. -/
def thenDropped : List CreationEvent :=
  bothSpellings ++ [.drop, .enter unqualified, .check 2]

theorem thenDropped_guarded : (creationRun false).Guarded CreationRun.Exclusive
    (creationRun false).init thenDropped := by decide

/-- Where it ends. -/
def droppedRun : CreationRun where
  tableExists := false
  known := [qualified, unqualified]
  holder := none
  calls := [⟨unqualified, .ended⟩, ⟨qualified, .ended⟩, ⟨unqualified, .starting false⟩]
  overlapped := false
  conflicted := false

/-- The two calls do not collide, and the call behind the drop can. -/
theorem creationRun_noCollision_both :
    (∃ s, (creationRun false).run bothSpellings = some s ∧
      s.overlapped = false ∧ s.conflicted = false) ∧
    (∃ s', (creationRun false).run thenDropped = some droppedRun ∧
      droppedRun.step (.begin 2) = some s' ∧
      ∃ as t, (creationRun false).runFrom s' as = some t ∧ t.overlapped = true) := by
  obtain ⟨hserial, hoverlap⟩ := creationRun_noCollision false
  constructor
  · exact ⟨_, rfl, hserial _ (Reachable.of_guarded .init bothSpellings_guarded rfl)⟩
  · have hreached := Reachable.of_guarded .init thenDropped_guarded rfl
    exact ⟨_, rfl, rfl, hoverlap droppedRun 2 _ hreached rfl (by decide)⟩

/-- The first call fails behind its `CREATE`, and the second one creates the table
before the caller of the first has rolled back. -/
def afterFailure : List CreationEvent :=
  [.enter unqualified, .check 0, .lock 0, .recheck 0, .begin 0, .create 0, .fail 0 false, .leave 0,
    .enter qualified, .check 1, .lock 1, .recheck 1, .begin 1, .create 1, .rollback 1, .begin 1,
    .create 1, .leave 1]

/-- Both spellings are known, the table is dropped, and a call of each creates it. -/
def afterDrop : List CreationEvent :=
  bothSpellings ++ [.drop, .enter unqualified, .enter qualified, .check 2, .check 3, .begin 2,
    .begin 3, .create 2, .create 3, .rollback 3, .begin 3, .create 3, .leave 3]

/-- In both runs a call tries to create the table while it is being created, twice,
and raises. -/
theorem creationRun_collides :
    (∃ s, (creationRun false).run afterFailure = some s ∧ s.overlapped = true ∧
      s.calls[1]? = some ⟨qualified, .raised (some ⟨false, false, false⟩)⟩) ∧
    (∃ s, (creationRun false).run afterDrop = some s ∧ s.overlapped = true ∧
      s.calls[3]? = some ⟨qualified, .raised (some ⟨false, false, false⟩)⟩) ∧
    ¬ ∀ s, Reachable (creationRun false) anyStep s →
      s.overlapped = false ∧ s.conflicted = false := by
  refine ⟨⟨_, rfl, rfl, rfl⟩, ⟨_, rfl, rfl, rfl⟩, fun hserial => ?_⟩
  have hoverlapped := (hserial _ (reachable_iff_run.mpr ⟨afterFailure, rfl⟩)).1
  exact nomatch hoverlapped

end RawDuck
