import RawDuck.Flatten
import RawDuck.Transition

/-!
# RawDuck.ApiServer

The in-process HTTP server over its life: calls of `raw_serve` and `raw_serve_stop`,
some of them made by the SQL of a request, and the requests themselves, in any
interleaving.

The calls take turns under the server's lock; the requests read its token, database
and mode without it.

* `ApiServer.step` — one step of a call or of a request;
* `ApiServer.Inv` — whoever changes what requests read finds none of them at work;
* `apiServer_serves` — a request is checked against the token of the `raw_serve` whose
  listener took it, and works on its database and in its mode;
* `apiServer_stop_iff` — a stop under way returns exactly when it reached the listener and
  no request waits for a call of its own.
-/

namespace RawDuck

open Transition Transition.System

/-! ## tokens -/

/-- `RawTokenEquals`: every byte is compared, whatever the ones before it are. -/
def rawTokenEquals (provided expected : Bytes) : Bool :=
  if provided.length ≠ expected.length then false
  else (List.zipWith (· ^^^ ·) provided expected).foldl (· ||| ·) 0 == 0

/-- `Authorized`, of the token of the server and the `Authorization` header. -/
def authorized (token authorization : Bytes) : Bool :=
  token.isEmpty || rawTokenEquals authorization (bytes "Bearer " ++ token)

theorem foldl_or_eq_zero (differences : Bytes) (acc : UInt8) :
    differences.foldl (· ||| ·) acc = 0 ↔ acc = 0 ∧ ∀ d ∈ differences, d = 0 := by
  induction differences generalizing acc with
  | nil => simp
  | cons d differences ih =>
      rw [List.foldl_cons, ih, UInt8.or_eq_zero_iff, List.forall_mem_cons, and_assoc]

/-- The comparison is equality. -/
theorem rawTokenEquals_iff (provided expected : Bytes) :
    rawTokenEquals provided expected = true ↔ provided = expected := by
  rw [rawTokenEquals]
  split
  · next hlength =>
    refine iff_of_false Bool.false_ne_true ?_
    rintro rfl
    exact hlength rfl
  · next hlength =>
    rw [not_not] at hlength
    rw [beq_iff_eq, foldl_or_eq_zero, and_iff_right rfl]
    induction provided generalizing expected with
    | nil =>
        rw [List.length_nil, eq_comm, List.length_eq_zero_iff] at hlength
        simp [hlength]
    | cons c provided ih =>
        cases expected with
        | nil => contradiction
        | cons d expected =>
            rw [List.zipWith_cons_cons, List.forall_mem_cons, UInt8.xor_eq_zero_iff,
              ih expected (Nat.succ.inj hlength), List.cons.injEq]

/-- A request passes without a token, or with the right one. -/
theorem authorized_iff (token authorization : Bytes) :
    authorized token authorization = true ↔
      token = [] ∨ authorization = bytes "Bearer " ++ token := by
  rw [authorized, Bool.or_eq_true, rawTokenEquals_iff, List.isEmpty_iff]

/-! ## the server -/

/-- `RawServeBindData`, with its defaults. -/
structure RawServeBindData where
  host : Bytes := bytes "127.0.0.1"
  port : Int := 9999
  token : Bytes := []
  async : Bool := false
  deriving DecidableEq, Repr

/-- What is called: `raw_serve` from a database, or `raw_serve_stop`. -/
inductive ApiAction where
  | serve (db : Nat) (data : RawServeBindData)
  | stop
  deriving DecidableEq, Repr

/-- The row a call returns. -/
inductive ApiAnswer where
  | serving (host : Bytes) (port : Int) (auth : Bool)
  | stopped (wasRunning : Bool)
  deriving DecidableEq, Repr

/-- Where a call stands. -/
inductive ApiCallPhase where
  /-- Before `api.lock`. -/
  | entered
  | locked
  /-- `raw_serve` has written the fields, before `bind_to_port`. -/
  | binding
  /-- Bound, before the thread. -/
  | starting
  /-- The thread is started, `running` is not set yet. -/
  | launched
  /-- `Shutdown` has stopped the listener, before `thread.join()`. -/
  | joining
  | ended (answer : Except RawError ApiAnswer)
  deriving DecidableEq, Repr

/-- A call, with the request whose SQL makes it. -/
structure ApiCall where
  caller : Option Nat
  action : ApiAction
  phase : ApiCallPhase
  deriving DecidableEq, Repr

/-- Where a request stands. -/
inductive ApiRequestPhase where
  | accepted
  | authorized
  /-- It has its `Connection`. -/
  | opened
  /-- Its SQL waits for a call. -/
  | calling (call : Nat)
  | finished
  deriving DecidableEq, Repr

/-- A request: the call of `raw_serve` whose listener took it, its `Authorization` header,
and what it has read of the server. -/
structure ApiRequest where
  listener : Nat
  authorization : Bytes
  phase : ApiRequestPhase
  passed : Option Bool
  database : Option Nat
  async : Option Bool
  deriving DecidableEq, Repr

/-- Where the thread of a listener stands in `listen_after_bind`. -/
inductive ApiListenerPhase where
  | starting
  | accepting
  | stopped
  deriving DecidableEq, Repr

/-- The thread and the call that started it. -/
structure ApiListener where
  call : Nat
  phase : ApiListenerPhase
  deriving DecidableEq, Repr

/-- `server->stop()`: the listener takes no more requests, if it is reached. -/
def ApiListener.stop (reached : Bool) (l : ApiListener) : ApiListener :=
  if reached || l.phase = .accepting then { l with phase := .stopped } else l

theorem ApiListener.stop_call (reached : Bool) (l : ApiListener) :
    (l.stop reached).call = l.call := by
  rw [stop]
  split
  · rfl
  · rfl

/-- `RawApiServer`, with the call that holds its lock, and all calls and requests. -/
structure ApiServer where
  db : Option Nat
  data : RawServeBindData
  running : Bool
  listener : Option ApiListener
  holder : Option Nat
  calls : List ApiCall
  requests : List ApiRequest
  deriving DecidableEq, Repr

/-- What happens next. -/
inductive ApiEvent where
  /-- A call begins, from outside or in the SQL of a request. -/
  | call (caller : Option Nat) (action : ApiAction)
  | lock (i : Nat)
  /-- `raw_serve` looks at `running` and writes the fields. -/
  | write (i : Nat)
  | bind (i : Nat) (bound : Bool)
  /-- `std::thread`. -/
  | launch (i : Nat)
  /-- `running = true`. -/
  | serve (i : Nat)
  /-- The thread gets to listen. -/
  | listen
  /-- `raw_serve_stop` looks at `running` and stops the listener; one that does not
  listen yet may not be reached. -/
  | shutdown (i : Nat) (reached : Bool)
  /-- `thread.join()` returns. -/
  | join (i : Nat)
  /-- The listener takes a request. -/
  | accept (authorization : Bytes)
  | authorize (r : Nat)
  /-- `RequireDatabase`: is the database still there? -/
  | requireDatabase (r : Nat) (alive : Bool)
  /-- The handler reads `async`. -/
  | readMode (r : Nat)
  /-- The call in the SQL of the request has ended. -/
  | resume (r : Nat)
  | respond (r : Nat)

/-- `to_string` of a port. -/
def portText (port : Int) : Bytes :=
  if port < 0 then bytes "-" ++ decimal port.natAbs else decimal port.natAbs

/-- `host:port`. -/
def RawServeBindData.address (data : RawServeBindData) : Bytes :=
  data.host ++ bytes ":" ++ portText data.port

/-- The error of a server that is running. -/
def alreadyRunning (data : RawServeBindData) : RawError where
  kind := .invalidInput
  message := bytes "RawDuck: the API server is already running on " ++ data.address ++
    bytes "; call raw_serve_stop() first"

/-- The error of a port that cannot be bound. -/
def cannotBind (data : RawServeBindData) : RawError where
  kind := .other
  message := bytes "RawDuck: cannot bind API server to " ++ data.address

/-- The row of `raw_serve`. -/
def RawServeBindData.answer (data : RawServeBindData) : ApiAnswer :=
  .serving data.host data.port !data.token.isEmpty

/-- The call holds the lock. -/
def ApiCallPhase.holds : ApiCallPhase → Bool
  | .entered | .ended _ => false
  | .locked | .binding | .starting | .launched | .joining => true

/-- The call has returned or raised. -/
def ApiCallPhase.isEnded : ApiCallPhase → Bool
  | .ended _ => true
  | .entered | .locked | .binding | .starting | .launched | .joining => false

namespace ApiServer

/-- The call `i` goes on. -/
def goTo (s : ApiServer) (i : Nat) (phase : ApiCallPhase) : ApiServer :=
  { s with calls := s.calls.modify i fun call => { call with phase } }

/-- The call `i` ends, and its `lock_guard` with it. -/
def finish (s : ApiServer) (i : Nat) (answer : Except RawError ApiAnswer) : ApiServer :=
  { s with holder := none }.goTo i (.ended answer)

/-- The request `r` becomes another. -/
def setRequest (s : ApiServer) (r : Nat) (request : ApiRequest) : ApiServer :=
  { s with requests := s.requests.set r request }

/-- The request `r`, if it stands there. -/
def requestIn (s : ApiServer) (r : Nat) (phase : ApiRequestPhase) : Option ApiRequest :=
  s.requests[r]?.filter fun request => request.phase = phase

/-- No request of the listener of a call is at work any more. -/
def drained (s : ApiServer) (call : Nat) : Bool :=
  s.requests.all fun request => request.listener ≠ call || request.phase = .finished

/-- A call begins. -/
def addCall (s : ApiServer) (caller : Option Nat) (action : ApiAction) : ApiServer :=
  { s with calls := s.calls ++ [{ caller, action, phase := .entered }] }

/-- `RawServeFunction`, behind the lock. -/
def writeFields (s : ApiServer) (i db : Nat) (data : RawServeBindData) : ApiServer :=
  if s.running then s.finish i (.error (alreadyRunning s.data))
  else { s with db := some db, data := data }.goTo i .binding

/-- `RawApiServer::Shutdown`, up to `thread.join()`. -/
def stopListener (s : ApiServer) (i : Nat) (reached : Bool) : ApiServer :=
  if s.running then
    { s with listener := s.listener.map (ApiListener.stop reached) }.goTo i .joining
  else s.finish i (.ok (.stopped false))

/-- `Authorized`, with what it reads of the server. -/
def authorize (s : ApiServer) (r : Nat) (request : ApiRequest) : ApiServer :=
  let passed := RawDuck.authorized s.data.token request.authorization
  s.setRequest r { request with
    passed := some passed
    phase := if passed then .authorized else .finished }

/-- `RequireDatabase`. -/
def requireDatabase (s : ApiServer) (r : Nat) (request : ApiRequest) (alive : Bool) : ApiServer :=
  if alive then s.setRequest r { request with database := s.db, phase := .opened }
  else s.setRequest r { request with phase := .finished }

/-- One step of a call or a request. -/
def step (s : ApiServer) : ApiEvent → Option ApiServer
  | .call none action => some (s.addCall none action)
  | .call (some r) action =>
      (s.requestIn r .opened).map fun request =>
        (s.setRequest r { request with phase := .calling s.calls.length }).addCall (some r) action
  | .lock i =>
      match s.calls[i]?, s.holder with
      | some ⟨_, _, .entered⟩, none => some ({ s with holder := some i }.goTo i .locked)
      | _, _ => none
  | .write i =>
      match s.calls[i]? with
      | some ⟨_, .serve db data, .locked⟩ => some (s.writeFields i db data)
      | _ => none
  | .bind i bound =>
      match s.calls[i]? with
      | some ⟨_, .serve _ data, .binding⟩ =>
          some (if bound then s.goTo i .starting else s.finish i (.error (cannotBind data)))
      | _ => none
  | .launch i =>
      match s.calls[i]? with
      | some ⟨_, .serve _ _, .starting⟩ =>
          some ({ s with listener := some ⟨i, .starting⟩ }.goTo i .launched)
      | _ => none
  | .serve i =>
      match s.calls[i]? with
      | some ⟨_, .serve _ data, .launched⟩ =>
          some ({ s with running := true }.finish i (.ok data.answer))
      | _ => none
  | .listen =>
      match s.listener with
      | some ⟨call, .starting⟩ => some { s with listener := some ⟨call, .accepting⟩ }
      | _ => none
  | .shutdown i reached =>
      match s.calls[i]? with
      | some ⟨_, .stop, .locked⟩ => some (s.stopListener i reached)
      | _ => none
  | .join i =>
      match s.calls[i]?, s.listener with
      | some ⟨_, .stop, .joining⟩, some ⟨call, .stopped⟩ =>
          if s.drained call then
            some ({ s with listener := none, running := false }.finish i (.ok (.stopped true)))
          else none
      | _, _ => none
  | .accept authorization =>
      match s.listener with
      | some ⟨call, .accepting⟩ =>
          some { s with
            requests := s.requests ++ [⟨call, authorization, .accepted, none, none, none⟩] }
      | _ => none
  | .authorize r => (s.requestIn r .accepted).map fun request => s.authorize r request
  | .requireDatabase r alive =>
      (s.requestIn r .authorized).map fun request => s.requireDatabase r request alive
  | .readMode r =>
      (s.requestIn r .opened).map fun request =>
        s.setRequest r { request with async := some s.data.async }
  | .resume r =>
      match s.requests[r]? with
      | some ⟨listener, authorization, .calling i, passed, database, async⟩ =>
          if s.calls[i]?.any fun call => call.phase.isEnded then
            some (s.setRequest r ⟨listener, authorization, .opened, passed, database, async⟩)
          else none
      | _ => none
  | .respond r =>
      (s.requestIn r .opened).map fun request =>
        s.setRequest r { request with phase := .finished }

end ApiServer

/-- No server yet. -/
def apiServer : System ApiServer ApiEvent where
  init :=
    { db := none
      data := {}
      running := false
      listener := none
      holder := none
      calls := []
      requests := [] }
  step := ApiServer.step

/-! ## what a step does -/

namespace ApiServer

variable {s s' : ApiServer} {i r : Nat} {a : ApiEvent} {call : ApiCall} {request : ApiRequest}

/-- A request goes on by itself. -/
inductive Reads (s : ApiServer) : ApiRequest → ApiRequest → Prop
  | passed {request : ApiRequest} (hphase : request.phase = .accepted)
      (hpassed : RawDuck.authorized s.data.token request.authorization = true) :
      Reads s request { request with passed := some true, phase := .authorized }
  | refused {request : ApiRequest} (hphase : request.phase = .accepted)
      (hpassed : RawDuck.authorized s.data.token request.authorization = false) :
      Reads s request { request with passed := some false, phase := .finished }
  | opened {request : ApiRequest} (hphase : request.phase = .authorized) :
      Reads s request { request with database := s.db, phase := .opened }
  | unavailable {request : ApiRequest} (hphase : request.phase = .authorized) :
      Reads s request { request with phase := .finished }
  | mode {request : ApiRequest} (hphase : request.phase = .opened) :
      Reads s request { request with async := some s.data.async }
  | resumed {request : ApiRequest} {i : Nat} {call : ApiCall} (hphase : request.phase = .calling i)
      (hcall : s.calls[i]? = some call) (hended : call.phase.isEnded = true) :
      Reads s request { request with phase := .opened }
  | responded {request : ApiRequest} (hphase : request.phase = .opened) :
      Reads s request { request with phase := .finished }

/-- The steps by their kind. -/
inductive Move (s : ApiServer) : ApiEvent → ApiServer → Prop
  | call (action : ApiAction) : Move s (.call none action) (s.addCall none action)
  | callIn {r : Nat} {request : ApiRequest} (hrequest : s.requests[r]? = some request)
      (hphase : request.phase = .opened) (action : ApiAction) :
      Move s (.call (some r) action)
        ((s.setRequest r { request with phase := .calling s.calls.length }).addCall (some r) action)
  | lock {i caller action} (hcall : s.calls[i]? = some ⟨caller, action, .entered⟩)
      (hfree : s.holder = none) :
      Move s (.lock i) ({ s with holder := some i }.goTo i .locked)
  | refuse {i caller db data} (hcall : s.calls[i]? = some ⟨caller, .serve db data, .locked⟩)
      (hrunning : s.running = true) :
      Move s (.write i) (s.finish i (.error (alreadyRunning s.data)))
  | write {i caller db data} (hcall : s.calls[i]? = some ⟨caller, .serve db data, .locked⟩)
      (hrunning : s.running = false) :
      Move s (.write i) ({ s with db := some db, data := data }.goTo i .binding)
  | bound {i caller db data} (hcall : s.calls[i]? = some ⟨caller, .serve db data, .binding⟩) :
      Move s (.bind i true) (s.goTo i .starting)
  | unbound {i caller db data} (hcall : s.calls[i]? = some ⟨caller, .serve db data, .binding⟩) :
      Move s (.bind i false) (s.finish i (.error (cannotBind data)))
  | launch {i caller db data} (hcall : s.calls[i]? = some ⟨caller, .serve db data, .starting⟩) :
      Move s (.launch i) ({ s with listener := some ⟨i, .starting⟩ }.goTo i .launched)
  | serve {i caller db data} (hcall : s.calls[i]? = some ⟨caller, .serve db data, .launched⟩) :
      Move s (.serve i) ({ s with running := true }.finish i (.ok data.answer))
  | listen {call : Nat} (hlistener : s.listener = some ⟨call, .starting⟩) :
      Move s .listen { s with listener := some ⟨call, .accepting⟩ }
  | shutdown {i caller} (hcall : s.calls[i]? = some ⟨caller, .stop, .locked⟩)
      (hrunning : s.running = true) (reached : Bool) :
      Move s (.shutdown i reached)
        ({ s with listener := s.listener.map (ApiListener.stop reached) }.goTo i .joining)
  | notRunning {i caller} (hcall : s.calls[i]? = some ⟨caller, .stop, .locked⟩)
      (hrunning : s.running = false) (reached : Bool) :
      Move s (.shutdown i reached) (s.finish i (.ok (.stopped false)))
  | join {i caller} {call : Nat} (hcall : s.calls[i]? = some ⟨caller, .stop, .joining⟩)
      (hlistener : s.listener = some ⟨call, .stopped⟩) (hdrained : s.drained call = true) :
      Move s (.join i)
        ({ s with listener := none, running := false }.finish i (.ok (.stopped true)))
  | accept {call : Nat} (hlistener : s.listener = some ⟨call, .accepting⟩)
      (authorization : Bytes) :
      Move s (.accept authorization) { s with
        requests := s.requests ++ [⟨call, authorization, .accepted, none, none, none⟩] }
  | request {a r before after} (hrequest : s.requests[r]? = some before)
      (hreads : s.Reads before after) : Move s a (s.setRequest r after)

theorem requestIn_eq_some {phase : ApiRequestPhase} (h : s.requestIn r phase = some request) :
    s.requests[r]? = some request ∧ request.phase = phase := by
  rw [requestIn, Option.filter_eq_some_iff] at h
  exact ⟨h.1, of_decide_eq_true h.2⟩

theorem reads_authorize (hphase : request.phase = .accepted) (r : Nat) :
    ∃ after, s.authorize r request = s.setRequest r after ∧ s.Reads request after := by
  rw [authorize]
  cases hpassed : RawDuck.authorized s.data.token request.authorization with
  | true => exact ⟨_, rfl, .passed hphase hpassed⟩
  | false => exact ⟨_, rfl, .refused hphase hpassed⟩

theorem step_move (h : s.step a = some s') : Move s a s' := by
  cases a with
  | call caller action =>
      cases caller with
      | none =>
          obtain rfl := Option.some.inj h
          exact .call action
      | some r =>
          obtain ⟨request, hrequest, rfl⟩ := Option.map_eq_some_iff.mp h
          obtain ⟨hrequest, hphase⟩ := requestIn_eq_some hrequest
          exact .callIn hrequest hphase action
  | lock i =>
      simp only [step] at h
      split at h
      · next caller action hcall hfree =>
        obtain rfl := Option.some.inj h
        exact .lock hcall hfree
      · contradiction
  | write i =>
      simp only [step] at h
      split at h
      · next caller db data hcall =>
        obtain rfl := Option.some.inj h
        rw [writeFields]
        split
        · next hrunning => exact .refuse hcall hrunning
        · next hrunning => exact .write hcall (Bool.eq_false_iff.mpr hrunning)
      · contradiction
  | bind i bound =>
      simp only [step] at h
      split at h
      · next caller db data hcall =>
        obtain rfl := Option.some.inj h
        cases bound with
        | true => exact .bound hcall
        | false => exact .unbound hcall
      · contradiction
  | launch i =>
      simp only [step] at h
      split at h
      · next caller db data hcall =>
        obtain rfl := Option.some.inj h
        exact .launch hcall
      · contradiction
  | listen =>
      simp only [step] at h
      split at h
      · next call hlistener =>
        obtain rfl := Option.some.inj h
        exact .listen hlistener
      · contradiction
  | serve i =>
      simp only [step] at h
      split at h
      · next caller db data hcall =>
        obtain rfl := Option.some.inj h
        exact .serve hcall
      · contradiction
  | shutdown i reached =>
      simp only [step] at h
      split at h
      · next caller hcall =>
        obtain rfl := Option.some.inj h
        rw [stopListener]
        split
        · next hrunning => exact .shutdown hcall hrunning reached
        · next hrunning => exact .notRunning hcall (Bool.eq_false_iff.mpr hrunning) reached
      · contradiction
  | join i =>
      simp only [step] at h
      split at h
      · next caller call hcall hlistener =>
        rw [Option.ite_none_right_eq_some] at h
        obtain ⟨hdrained, h⟩ := h
        obtain rfl := Option.some.inj h
        exact .join hcall hlistener hdrained
      · contradiction
  | accept authorization =>
      simp only [step] at h
      split at h
      · next call hlistener =>
        obtain rfl := Option.some.inj h
        exact .accept hlistener authorization
      · contradiction
  | authorize r =>
      obtain ⟨request, hrequest, rfl⟩ := Option.map_eq_some_iff.mp h
      obtain ⟨hrequest, hphase⟩ := requestIn_eq_some hrequest
      obtain ⟨after, heq, hreads⟩ := reads_authorize (s := s) hphase r
      rw [heq]
      exact .request hrequest hreads
  | requireDatabase r alive =>
      obtain ⟨request, hrequest, rfl⟩ := Option.map_eq_some_iff.mp h
      obtain ⟨hrequest, hphase⟩ := requestIn_eq_some hrequest
      cases alive with
      | true => exact .request hrequest (.opened hphase)
      | false => exact .request hrequest (.unavailable hphase)
  | readMode r =>
      obtain ⟨request, hrequest, rfl⟩ := Option.map_eq_some_iff.mp h
      obtain ⟨hrequest, hphase⟩ := requestIn_eq_some hrequest
      exact .request hrequest (.mode hphase)
  | resume r =>
      simp only [step] at h
      split at h
      · next listener authorization i passed database async hrequest =>
        rw [Option.ite_none_right_eq_some] at h
        obtain ⟨hended, h⟩ := h
        obtain rfl := Option.some.inj h
        obtain ⟨call, hcall, hended⟩ := (Option.any_eq_true _ _).mp hended
        exact .request hrequest (.resumed rfl hcall hended)
      · contradiction
  | respond r =>
      obtain ⟨request, hrequest, rfl⟩ := Option.map_eq_some_iff.mp h
      obtain ⟨hrequest, hphase⟩ := requestIn_eq_some hrequest
      exact .request hrequest (.responded hphase)

/-! ## the calls -/

theorem getElem?_goTo (s : ApiServer) (i : Nat) (phase : ApiCallPhase) (j : Nat) :
    (s.goTo i phase).calls[j]? =
      s.calls[j]?.map fun call => if i = j then { call with phase } else call :=
  List.getElem?_modify ..

theorem getElem?_goTo_self (h : s.calls[i]? = some call) (phase : ApiCallPhase) :
    (s.goTo i phase).calls[i]? = some { call with phase } := by
  rw [getElem?_goTo, h, Option.map_some, if_pos rfl]

theorem getElem?_goTo_other {j : Nat} (h : i ≠ j) (phase : ApiCallPhase) :
    (s.goTo i phase).calls[j]? = s.calls[j]? := by
  simp only [getElem?_goTo, if_neg h, Option.map_id']

theorem getElem?_addCall (h : s.calls[i]? = some call) (caller : Option Nat) (action : ApiAction) :
    (s.addCall caller action).calls[i]? = some call := by
  have hlt := (List.getElem?_eq_some_iff.mp h).1
  exact (List.getElem?_append_left hlt).trans h

/-- What the fields are while the call `i` holds the lock. -/
def Stage (s : ApiServer) (i : Nat) (call : ApiCall) : Prop :=
  match call.action, call.phase with
  | _, .locked => s.running = s.listener.isSome
  | .serve db data, .binding | .serve db data, .starting =>
      s.listener = none ∧ s.running = false ∧ s.db = some db ∧ s.data = data
  | .serve _ _, .launched => s.listener.map ApiListener.call = some i ∧ s.running = false
  | .stop, .joining => s.listener.isSome = true ∧ s.running = true
  | _, _ => False

/-- The listener `l` is that of `serve db data`, and the fields are still those. -/
def Serves (s : ApiServer) (l : ApiListener) : Prop :=
  ∃ caller db data phase, s.calls[l.call]? = some ⟨caller, .serve db data, phase⟩ ∧
    s.db = some db ∧ s.data = data

theorem Serves.goTo {l : ApiListener} (h : s.Serves l) (i : Nat) (phase : ApiCallPhase) :
    (s.goTo i phase).Serves l := by
  obtain ⟨caller, db, data, phase', hcall, hdb, hdata⟩ := h
  rw [Serves, getElem?_goTo, hcall]
  by_cases hi : i = l.call
  · exact ⟨caller, db, data, phase, by rw [Option.map_some, if_pos hi], hdb, hdata⟩
  · exact ⟨caller, db, data, phase', by rw [Option.map_some, if_neg hi], hdb, hdata⟩

/-- The calls and the fields they guard. -/
structure CallsInv (s : ApiServer) : Prop where
  others : ∀ i call, s.calls[i]? = some call → s.holder ≠ some i → call.phase.holds = false
  stage : ∀ i, s.holder = some i → ∃ call, s.calls[i]? = some call ∧ Stage s i call
  settled : s.holder = none → s.running = s.listener.isSome
  serves : ∀ l, s.listener = some l → s.Serves l

namespace CallsInv

variable (h : CallsInv s)
include h

theorem holder (hcall : s.calls[i]? = some call) (hholds : call.phase.holds = true) :
    s.holder = some i := by
  by_contra hother
  rw [h.others i call hcall hother] at hholds
  contradiction

theorem stageOf (hcall : s.calls[i]? = some call) (hholds : call.phase.holds = true) :
    Stage s i call := by
  obtain ⟨call', hcall', hstage⟩ := h.stage i (h.holder hcall hholds)
  rw [hcall] at hcall'
  obtain rfl := Option.some.inj hcall'
  exact hstage

/-- The holder goes on, and still holds the lock. -/
theorem goes (hcall : s.calls[i]? = some call) (hholds : call.phase.holds = true)
    (phase : ApiCallPhase) (db : Option Nat) (data : RawServeBindData) (running : Bool)
    (listener : Option ApiListener)
    (hstage : Stage { s with db := db, data := data, running := running, listener := listener } i
      { call with phase })
    (hserves : ∀ l, listener = some l → ({ s with
      db := db, data := data, running := running, listener := listener }.goTo i phase).Serves l) :
    CallsInv
      ({ s with
        db := db, data := data, running := running, listener := listener }.goTo i phase) := by
  have hholder := h.holder hcall hholds
  constructor
  · intro j other hother hnot
    have hij : i ≠ j := by
      rintro rfl
      exact hnot hholder
    rw [getElem?_goTo_other hij] at hother
    exact h.others j other hother hnot
  · intro j hj
    obtain rfl := Option.some.inj (hholder.symm.trans hj)
    exact ⟨_, getElem?_goTo_self hcall phase, hstage⟩
  · intro hfree
    exact absurd (hholder.symm.trans hfree) (Option.some_ne_none i)
  · exact hserves

/-- The holder ends, and leaves the lock. -/
theorem ends (hcall : s.calls[i]? = some call) (hholds : call.phase.holds = true)
    (answer : Except RawError ApiAnswer) (running : Bool) (listener : Option ApiListener)
    (hsettled : running = listener.isSome) (hserves : ∀ l, listener = some l →
      ({ s with running := running, listener := listener }.finish i answer).Serves l) :
    CallsInv ({ s with running := running, listener := listener }.finish i answer) := by
  have hholder := h.holder hcall hholds
  constructor
  · intro j other hother hnot
    by_cases hij : i = j
    · subst hij
      rw [finish, getElem?_goTo, Option.map_eq_some_iff] at hother
      obtain ⟨call', -, rfl⟩ := hother
      rw [if_pos rfl]
      rfl
    · rw [finish, getElem?_goTo_other hij] at hother
      refine h.others j other hother fun hj => hij ?_
      exact Option.some.inj (hholder.symm.trans hj)
  · intro j hj
    contradiction
  · exact fun _ => hsettled
  · exact hserves

omit h in
theorem addCall (h : CallsInv s) (caller : Option Nat) (action : ApiAction) :
    CallsInv (s.addCall caller action) := by
  constructor
  · intro j call hcall hnot
    rw [ApiServer.addCall, List.getElem?_append] at hcall
    split at hcall
    · exact h.others j call hcall hnot
    · have hnew : call = { caller, action, phase := .entered } :=
        List.mem_singleton.mp (List.mem_of_getElem? hcall)
      rw [hnew]
      rfl
  · intro j hj
    obtain ⟨call, hcall, hstage⟩ := h.stage j hj
    exact ⟨call, getElem?_addCall hcall caller action, hstage⟩
  · exact h.settled
  · intro l hl
    obtain ⟨caller', db, data, phase, hcall, hdb, hdata⟩ := h.serves l hl
    exact ⟨caller', db, data, phase, getElem?_addCall hcall caller action, hdb, hdata⟩

/-- What changes the requests only. -/
theorem requests (requests : List ApiRequest) : CallsInv { s with requests := requests } :=
  ⟨h.others, h.stage, h.settled, h.serves⟩

theorem lock (hfree : s.holder = none) {caller : Option Nat} {action : ApiAction}
    (hcall : s.calls[i]? = some ⟨caller, action, .entered⟩) :
    CallsInv ({ s with holder := some i }.goTo i .locked) := by
  constructor
  · intro j other hother hnot
    have hij : i ≠ j := by
      rintro rfl
      exact hnot rfl
    rw [getElem?_goTo_other hij] at hother
    refine h.others j other hother ?_
    rw [hfree]
    exact (Option.some_ne_none j).symm
  · intro j hj
    obtain rfl := Option.some.inj hj
    exact ⟨_, getElem?_goTo_self hcall .locked, h.settled hfree⟩
  · intro hnone
    contradiction
  · exact fun l hl => (h.serves l hl).goTo i .locked

/-- What changes where the thread of the listener stands only. -/
theorem listener {l l' : ApiListener} (hlistener : s.listener = some l)
    (hsame : l'.call = l.call) : CallsInv { s with listener := some l' } := by
  constructor
  · exact h.others
  · intro i hi
    obtain ⟨call, hcall, hstage⟩ := h.stage i hi
    refine ⟨call, hcall, ?_⟩
    obtain ⟨caller, action, phase⟩ := call
    cases phase with
    | locked =>
        have hsettled : s.running = s.listener.isSome := hstage
        rw [hlistener] at hsettled
        exact hsettled
    | binding | starting =>
        cases action with
        | serve db data =>
            have hnone : s.listener = none := hstage.1
            rw [hlistener] at hnone
            contradiction
        | stop => exact hstage
    | launched =>
        cases action with
        | serve db data =>
            have hlaunched : s.listener.map ApiListener.call = some i := hstage.1
            rw [hlistener, Option.map_some, ← hsame] at hlaunched
            exact ⟨hlaunched, hstage.2⟩
        | stop => exact hstage
    | joining =>
        cases action with
        | serve db data => exact hstage
        | stop => exact ⟨rfl, hstage.2⟩
    | entered | ended => exact hstage
  · intro hfree
    have hsettled := h.settled hfree
    rw [hlistener] at hsettled
    exact hsettled
  · intro l'' hl''
    obtain rfl := Option.some.inj hl''
    obtain ⟨caller, db, data, phase, hcall, hdb, hdata⟩ := h.serves l hlistener
    exact ⟨caller, db, data, phase, hsame ▸ hcall, hdb, hdata⟩

/-- **A step of a call** keeps the fields and their calls together. -/
theorem step (hmove : Move s a s') : CallsInv s' := by
  cases hmove with
  | call action => exact h.addCall none action
  | callIn _ _ action => exact (h.requests _).addCall _ action
  | lock hcall hfree => exact h.lock hfree hcall
  | accept hlistener authorization => exact h.requests _
  | request hrequest hreads => exact h.requests _
  | @refuse i _ _ _ hcall hrunning =>
      exact h.ends hcall rfl _ s.running s.listener (h.stageOf hcall rfl)
        fun l hl => (h.serves l hl).goTo i _
  | @write i caller db data hcall hrunning =>
      have hsettled : s.running = s.listener.isSome := h.stageOf hcall rfl
      have hidle : s.listener = none := by
        rw [← Option.not_isSome_iff_eq_none, ← hsettled, hrunning]
        exact Bool.false_ne_true
      refine h.goes hcall rfl .binding (some db) data s.running s.listener
        ⟨hidle, hrunning, rfl, rfl⟩ fun l hl => ?_
      rw [hidle] at hl
      contradiction
  | @bound i caller db data hcall =>
      have hstage : s.listener = none ∧ s.running = false ∧ s.db = some db ∧ s.data = data :=
        h.stageOf hcall rfl
      exact h.goes hcall rfl .starting s.db s.data s.running s.listener hstage
        fun l hl => (h.serves l hl).goTo i _
  | @unbound i caller db data hcall =>
      have hstage : s.listener = none ∧ s.running = false ∧ s.db = some db ∧ s.data = data :=
        h.stageOf hcall rfl
      refine h.ends hcall rfl _ s.running s.listener ?_ fun l hl => (h.serves l hl).goTo i _
      rw [hstage.1, hstage.2.1]
      rfl
  | @launch i caller db data hcall =>
      have hstage : s.listener = none ∧ s.running = false ∧ s.db = some db ∧ s.data = data :=
        h.stageOf hcall rfl
      refine h.goes hcall rfl .launched s.db s.data s.running (some ⟨i, .starting⟩)
        ⟨rfl, hstage.2.1⟩ fun l hl => ?_
      obtain rfl := Option.some.inj hl
      exact ⟨caller, db, data, .launched, getElem?_goTo_self hcall _, hstage.2.2.1, hstage.2.2.2⟩
  | @serve i caller db data hcall =>
      have hstage : s.listener.map ApiListener.call = some i ∧ s.running = false :=
        h.stageOf hcall rfl
      refine h.ends hcall rfl _ true s.listener ?_ fun l hl => (h.serves l hl).goTo i _
      obtain ⟨l, hl, -⟩ := Option.map_eq_some_iff.mp hstage.1
      rw [hl]
      rfl
  | listen hlistener => exact h.listener hlistener rfl
  | @shutdown i caller hcall hrunning reached =>
      have hsettled : s.running = s.listener.isSome := h.stageOf hcall rfl
      refine h.goes hcall rfl .joining s.db s.data s.running
        (s.listener.map (ApiListener.stop reached)) ⟨?_, hrunning⟩ fun l hl => ?_
      · rw [Option.isSome_map, ← hsettled, hrunning]
      · obtain ⟨l', hl', rfl⟩ := Option.map_eq_some_iff.mp hl
        have hserves : s.Serves (l'.stop reached) := by
          rw [Serves, ApiListener.stop_call]
          exact h.serves l' hl'
        exact Serves.goTo hserves i .joining
  | @notRunning i caller hcall hrunning reached =>
      exact h.ends hcall rfl _ s.running s.listener (h.stageOf hcall rfl)
        fun l hl => (h.serves l hl).goTo i _
  | @join i caller call hcall hlistener hdrained =>
      refine h.ends hcall rfl _ false none rfl fun l hl => ?_
      contradiction

end CallsInv

/-! ## the requests -/

end ApiServer

/-- What the request has read is what `serve db data` wrote; it gets beyond the check only
if it passes, and to a database only then. -/
structure ApiRequest.ReadOf (request : ApiRequest) (db : Nat) (data : RawServeBindData) :
    Prop where
  fresh : request.phase = .accepted → request.database = none ∧ request.async = none
  passed : ∀ b, request.passed = some b → b = authorized data.token request.authorization
  checked : request.phase = .accepted ∨ request.phase = .finished ∨ request.passed = some true
  database : ∀ d, request.database = some d → d = db ∧ request.passed = some true
  async : ∀ b, request.async = some b → b = data.async ∧ request.passed = some true

namespace ApiServer

variable {s s' : ApiServer} {i r : Nat} {a : ApiEvent} {call : ApiCall} {request : ApiRequest}

/-- The request has read what the call that its listener belongs to wrote. -/
def ServedBy (s : ApiServer) (request : ApiRequest) : Prop :=
  ∃ caller db data phase, s.calls[request.listener]? = some ⟨caller, .serve db data, phase⟩ ∧
    request.ReadOf db data

/-- The requests and the calls that serve them. -/
structure RequestsInv (s : ApiServer) : Prop where
  served : ∀ (r : Nat) request, s.requests[r]? = some request → s.ServedBy request
  atWork : ∀ (r : Nat) request, s.requests[r]? = some request → request.phase ≠ .finished →
    ∃ l, s.listener = some l ∧ l.call = request.listener
  waits : ∀ (r : Nat) request i, s.requests[r]? = some request → request.phase = .calling i →
    i < s.calls.length

/-- A request reads the fields of its own call. -/
theorem Reads.readOf {before after : ApiRequest} {db : Nat} {data : RawServeBindData}
    (hreads : s.Reads before after) (h : before.ReadOf db data) (hdb : s.db = some db)
    (hdata : s.data = data) : after.ReadOf db data := by
  have hpassed : ∀ phase, phase ≠ .accepted → phase ≠ .finished → before.phase = phase →
      before.passed = some true := by
    intro phase haccepted hfinished hphase
    rcases h.checked with hchecked | hchecked | hchecked
    · exact absurd (hphase.symm.trans hchecked) haccepted
    · exact absurd (hphase.symm.trans hchecked) hfinished
    · exact hchecked
  subst hdata
  cases hreads with
  | passed hphase htoken =>
      obtain ⟨hdatabase, hasync⟩ := h.fresh hphase
      refine ⟨fun hnot => ApiRequestPhase.noConfusion hnot, fun b hb => ?_, .inr (.inr rfl),
        fun d hd => ?_, fun b hb => ?_⟩
      · rw [← Option.some.inj hb]
        exact htoken.symm
      · exact absurd (hdatabase.symm.trans hd).symm (Option.some_ne_none d)
      · exact absurd (hasync.symm.trans hb).symm (Option.some_ne_none b)
  | refused hphase htoken =>
      obtain ⟨hdatabase, hasync⟩ := h.fresh hphase
      refine ⟨fun hnot => ApiRequestPhase.noConfusion hnot, fun b hb => ?_, .inr (.inl rfl),
        fun d hd => ?_, fun b hb => ?_⟩
      · rw [← Option.some.inj hb]
        exact htoken.symm
      · exact absurd (hdatabase.symm.trans hd).symm (Option.some_ne_none d)
      · exact absurd (hasync.symm.trans hb).symm (Option.some_ne_none b)
  | opened hphase =>
      have htrue := hpassed _ ApiRequestPhase.noConfusion ApiRequestPhase.noConfusion hphase
      refine ⟨fun hnot => ApiRequestPhase.noConfusion hnot, h.passed, .inr (.inr htrue),
        fun d hd => ?_, h.async⟩
      exact ⟨Option.some.inj (hd.symm.trans hdb), htrue⟩
  | unavailable hphase =>
      exact ⟨fun hnot => ApiRequestPhase.noConfusion hnot, h.passed, .inr (.inl rfl), h.database,
        h.async⟩
  | mode hphase =>
      have htrue := hpassed _ ApiRequestPhase.noConfusion ApiRequestPhase.noConfusion hphase
      refine ⟨fun hnot => ?_, h.passed, h.checked, h.database,
        fun b hb => ⟨(Option.some.inj hb).symm, htrue⟩⟩
      exact ApiRequestPhase.noConfusion (hphase.symm.trans hnot)
  | resumed hphase hcall hended =>
      have htrue := hpassed _ ApiRequestPhase.noConfusion ApiRequestPhase.noConfusion hphase
      exact ⟨fun hnot => ApiRequestPhase.noConfusion hnot, h.passed, .inr (.inr htrue), h.database,
        h.async⟩
  | responded hphase =>
      exact ⟨fun hnot => ApiRequestPhase.noConfusion hnot, h.passed, .inr (.inl rfl), h.database,
        h.async⟩

theorem Reads.listener {before after : ApiRequest} (hreads : s.Reads before after) :
    after.listener = before.listener := by
  cases hreads <;> rfl

theorem Reads.unfinished {before after : ApiRequest} (hreads : s.Reads before after) :
    before.phase ≠ .finished := by
  cases hreads with
  | passed hphase _ | refused hphase _ | opened hphase | unavailable hphase | mode hphase
  | resumed hphase _ _ | responded hphase =>
      rw [hphase]
      exact ApiRequestPhase.noConfusion

theorem Reads.not_calling {before after : ApiRequest} (hreads : s.Reads before after) (i : Nat) :
    after.phase ≠ .calling i := by
  cases hreads with
  | mode hphase =>
      dsimp only
      rw [hphase]
      exact ApiRequestPhase.noConfusion
  | passed | refused | opened | unavailable | resumed | responded =>
      exact ApiRequestPhase.noConfusion

/-- What may change around the requests. -/
theorem RequestsInv.frame (h : RequestsInv s) (hrequests : s'.requests = s.requests)
    (hcalls : ∀ (j : Nat) call, s.calls[j]? = some call →
      ∃ phase, s'.calls[j]? = some { call with phase })
    (hlength : s.calls.length ≤ s'.calls.length)
    (hlistener : ∀ (r : Nat) (request : ApiRequest) (l : ApiListener),
      s.requests[r]? = some request → request.phase ≠ .finished → s.listener = some l →
      l.call = request.listener → ∃ l', s'.listener = some l' ∧ l'.call = l.call) :
    RequestsInv s' := by
  constructor
  · intro r request hrequest
    rw [hrequests] at hrequest
    obtain ⟨caller, db, data, phase, hcall, hread⟩ := h.served r request hrequest
    obtain ⟨phase', hcall'⟩ := hcalls _ _ hcall
    exact ⟨caller, db, data, phase', hcall', hread⟩
  · intro r request hrequest hphase
    rw [hrequests] at hrequest
    obtain ⟨l, hl, hcall⟩ := h.atWork r request hrequest hphase
    obtain ⟨l', hl', hcall'⟩ := hlistener r request l hrequest hphase hl hcall
    exact ⟨l', hl', hcall'.trans hcall⟩
  · intro r request i hrequest hphase
    rw [hrequests] at hrequest
    exact Nat.lt_of_lt_of_le (h.waits r request i hrequest hphase) hlength

theorem exists_goTo {j : Nat} (h : s.calls[j]? = some call) (i : Nat) (phase : ApiCallPhase) :
    ∃ phase', (s.goTo i phase).calls[j]? = some { call with phase := phase' } := by
  rw [getElem?_goTo, h, Option.map_some]
  by_cases hi : i = j
  · exact ⟨phase, by rw [if_pos hi]⟩
  · exact ⟨call.phase, by rw [if_neg hi]⟩

/-- A call goes on, and no request at work loses its listener. -/
theorem RequestsInv.goTo (h : RequestsInv s) (i : Nat) (phase : ApiCallPhase) (db : Option Nat)
    (data : RawServeBindData) (running : Bool) (holder : Option Nat)
    {listener : Option ApiListener} (hlistener : ∀ (r : Nat) (request : ApiRequest)
      (l : ApiListener), s.requests[r]? = some request → request.phase ≠ .finished →
      s.listener = some l → l.call = request.listener →
      ∃ l', listener = some l' ∧ l'.call = l.call) :
    RequestsInv ({ s with
      db := db, data := data, running := running, holder := holder
      listener := listener }.goTo i phase) := by
  refine h.frame rfl (fun _ _ hcall => exists_goTo hcall i phase) ?_ hlistener
  exact Nat.le_of_eq (List.length_modify ..).symm

theorem RequestsInv.addCall (h : RequestsInv s) (caller : Option Nat) (action : ApiAction) :
    RequestsInv (s.addCall caller action) := by
  refine h.frame rfl (fun j call hcall => ⟨call.phase, getElem?_addCall hcall caller action⟩) ?_
    fun _ _ l _ _ hl _ => ⟨l, hl, rfl⟩
  rw [ApiServer.addCall, List.length_append]
  exact Nat.le_add_right ..

/-- A request goes on and stays with its listener. -/
theorem RequestsInv.setRequest (h : RequestsInv s) {before after : ApiRequest}
    (hrequest : s.requests[r]? = some before) (hbefore : before.phase ≠ .finished)
    (hserved : s.ServedBy after) (hlistener : after.listener = before.listener)
    (hwaits : ∀ i, after.phase = .calling i → i < s.calls.length) :
    RequestsInv (s.setRequest r after) := by
  have hlt := (List.getElem?_eq_some_iff.mp hrequest).1
  constructor
  · intro r' request hrequest'
    rw [ApiServer.setRequest, List.getElem?_set] at hrequest'
    split at hrequest'
    · exact Option.some.inj hrequest' ▸ hserved
    · exact h.served r' request hrequest'
  · intro r' request hrequest' hphase
    rw [ApiServer.setRequest, List.getElem?_set] at hrequest'
    split at hrequest'
    · obtain rfl := Option.some.inj hrequest'
      rw [hlistener]
      exact h.atWork r before hrequest hbefore
    · exact h.atWork r' request hrequest' hphase
  · intro r' request i hrequest' hphase
    rw [ApiServer.setRequest, List.getElem?_set] at hrequest'
    split at hrequest'
    · exact hwaits i (Option.some.inj hrequest' ▸ hphase)
    · exact h.waits r' request i hrequest' hphase

/-- The call that serves a request at work is that of the listener, with its fields. -/
theorem RequestsInv.readOf (h : RequestsInv s) (hcalls : CallsInv s)
    (hrequest : s.requests[r]? = some request) (hphase : request.phase ≠ .finished) :
    ∃ caller db data phase, s.calls[request.listener]? = some ⟨caller, .serve db data, phase⟩ ∧
      s.db = some db ∧ s.data = data ∧ request.ReadOf db data := by
  obtain ⟨l, hl, hlcall⟩ := h.atWork r request hrequest hphase
  obtain ⟨caller, db, data, phase, hcall, hdb, hdata⟩ := hcalls.serves l hl
  obtain ⟨caller', db', data', phase', hcall', hread⟩ := h.served r request hrequest
  rw [hlcall, hcall'] at hcall
  simp only [Option.some.injEq, ApiCall.mk.injEq, ApiAction.serve.injEq] at hcall
  obtain ⟨-, ⟨rfl, rfl⟩, -⟩ := hcall
  exact ⟨caller', db', data', phase', hcall', hdb, hdata, hread⟩

/-- **A step** keeps what the requests have read. -/
theorem RequestsInv.step (h : RequestsInv s) (hcalls : CallsInv s) (hmove : Move s a s') :
    RequestsInv s' := by
  cases hmove with
  | call action => exact h.addCall none action
  | @callIn r request hrequest hphase action =>
      have hunfinished : request.phase ≠ .finished := by
        rw [hphase]
        exact ApiRequestPhase.noConfusion
      obtain ⟨caller, db, data, phase, hcall, hdb, hdata, hread⟩ :=
        h.readOf hcalls hrequest hunfinished
      have hpassed : request.passed = some true := by
        rcases hread.checked with hchecked | hchecked | hchecked
        · exact ApiRequestPhase.noConfusion (hphase.symm.trans hchecked)
        · exact absurd hchecked hunfinished
        · exact hchecked
      have hadded := h.addCall (some r) action
      refine hadded.setRequest hrequest hunfinished ?_ rfl fun i hi => ?_
      · exact ⟨caller, db, data, phase, getElem?_addCall hcall _ action,
          fun hnot => ApiRequestPhase.noConfusion hnot, hread.passed, .inr (.inr hpassed),
          hread.database, hread.async⟩
      · obtain rfl := ApiRequestPhase.calling.inj hi
        rw [ApiServer.addCall, List.length_append]
        exact Nat.lt_add_one _
  | @request _ r before after hrequest hreads =>
      obtain ⟨caller, db, data, phase, hcall, hdb, hdata, hread⟩ :=
        h.readOf hcalls hrequest hreads.unfinished
      refine h.setRequest hrequest hreads.unfinished ?_ hreads.listener
        fun i hi => absurd hi (hreads.not_calling i)
      refine ⟨caller, db, data, phase, ?_, hreads.readOf hread hdb hdata⟩
      rw [hreads.listener]
      exact hcall
  | @accept call hlistener authorization =>
      have hnew : ∀ (r : Nat) request, (s.requests ++
          [⟨call, authorization, .accepted, none, none, none⟩])[r]? = some request →
          s.requests[r]? = some request ∨
            request = ⟨call, authorization, .accepted, none, none, none⟩ := by
        intro r request hrequest
        rw [List.getElem?_append] at hrequest
        split at hrequest
        · exact .inl hrequest
        · exact .inr (List.mem_singleton.mp (List.mem_of_getElem? hrequest))
      constructor
      · intro r request hrequest
        rcases hnew r request hrequest with hold | rfl
        · exact h.served r request hold
        · obtain ⟨caller, db, data, phase, hcall, -, -⟩ := hcalls.serves _ hlistener
          exact ⟨caller, db, data, phase, hcall, fun _ => ⟨rfl, rfl⟩,
            fun _ hb => absurd hb.symm (Option.some_ne_none _), .inl rfl,
            fun _ hd => absurd hd.symm (Option.some_ne_none _),
            fun _ hb => absurd hb.symm (Option.some_ne_none _)⟩
      · intro r request hrequest hphase
        rcases hnew r request hrequest with hold | rfl
        · exact h.atWork r request hold hphase
        · exact ⟨_, hlistener, rfl⟩
      · intro r request i hrequest hphase
        rcases hnew r request hrequest with hold | rfl
        · exact h.waits r request i hold hphase
        · exact ApiRequestPhase.noConfusion hphase
  | @lock i _ _ hcall hfree => exact h.goTo i _ _ _ _ _ fun _ _ l _ _ hl _ => ⟨l, hl, rfl⟩
  | @refuse i _ _ _ hcall hrunning => exact h.goTo i _ _ _ _ _ fun _ _ l _ _ hl _ => ⟨l, hl, rfl⟩
  | @write i _ _ _ hcall hrunning => exact h.goTo i _ _ _ _ _ fun _ _ l _ _ hl _ => ⟨l, hl, rfl⟩
  | @bound i _ _ _ hcall => exact h.goTo i _ _ _ _ _ fun _ _ l _ _ hl _ => ⟨l, hl, rfl⟩
  | @unbound i _ _ _ hcall => exact h.goTo i _ _ _ _ _ fun _ _ l _ _ hl _ => ⟨l, hl, rfl⟩
  | @serve i _ _ _ hcall => exact h.goTo i _ _ _ _ _ fun _ _ l _ _ hl _ => ⟨l, hl, rfl⟩
  | @notRunning i _ hcall hrunning reached =>
      exact h.goTo i _ _ _ _ _ fun _ _ l _ _ hl _ => ⟨l, hl, rfl⟩
  | @shutdown i _ hcall hrunning reached =>
      refine h.goTo i _ _ _ _ _ fun _ _ l _ _ hl _ =>
        ⟨l.stop reached, ?_, ApiListener.stop_call reached l⟩
      rw [hl, Option.map_some]
  | @listen call hlistener =>
      refine h.frame rfl (fun _ call hcall => ⟨call.phase, hcall⟩) (Nat.le_refl _)
        fun _ _ l _ _ hl _ => ⟨_, rfl, ?_⟩
      obtain rfl := Option.some.inj (hlistener.symm.trans hl)
      rfl
  | @launch i caller db data hcall =>
      have hstage : s.listener = none ∧ s.running = false ∧ s.db = some db ∧ s.data = data :=
        hcalls.stageOf hcall rfl
      refine h.goTo i _ _ _ _ _ fun _ _ l _ _ hl _ => ?_
      exact absurd (hstage.1.symm.trans hl).symm (Option.some_ne_none l)
  | @join i _ call hcall hlistener hdrained =>
      refine h.goTo i _ _ _ _ _ fun r request l' hrequest hphase hl' hlcall => ?_
      have hdone := List.all_eq_true.mp hdrained request (List.mem_of_getElem? hrequest)
      obtain rfl := Option.some.inj (hlistener.symm.trans hl')
      dsimp only at hlcall
      simp only [ne_eq, hlcall, not_true_eq_false, decide_false, Bool.false_or,
        decide_eq_true_eq] at hdone
      exact absurd hdone hphase

/-! ## every run -/

/-- What holds in every interleaving. -/
structure Inv (s : ApiServer) : Prop where
  calls : CallsInv s
  requests : RequestsInv s

theorem Inv.step (h : Inv s) (hstep : s.step a = some s') : Inv s' :=
  ⟨h.calls.step (step_move hstep), h.requests.step h.calls (step_move hstep)⟩

theorem Inv.init : Inv apiServer.init where
  calls := ⟨fun _ _ h => absurd h.symm (Option.some_ne_none _),
    fun _ h => absurd h.symm (Option.some_ne_none _), fun _ => rfl,
    fun _ h => absurd h.symm (Option.some_ne_none _)⟩
  requests := ⟨fun _ _ h => absurd h.symm (Option.some_ne_none _),
    fun _ _ h => absurd h.symm (Option.some_ne_none _),
    fun _ _ _ h => absurd h.symm (Option.some_ne_none _)⟩

/-- What every invariant state has, every run has throughout. -/
theorem throughout_of_inv {P : ApiServer → Prop} (h : ∀ s, Inv s → P s)
    (schedule : List ApiEvent) : apiServer.Throughout P apiServer.init schedule := by
  refine (@throughout_iff_guarded _ _ apiServer anyStep P Inv h ?_ ?_ schedule _ Inv.init).mpr ?_
  · exact fun s a s' hinv _ hstep => hinv.step hstep
  · exact fun s a s' _ hnot => absurd trivial hnot
  · exact guarded_of_forall (fun _ _ _ => trivial) _

/-- A request is served by the `raw_serve` call whose listener took it: a request that
does not pass is not authorized by its token, one that reaches a database is, and reaches
that call's; its mode is that call's; and as long as it is at work, so is the listener,
with the fields unchanged. -/
structure Served (s : ApiServer) (request : ApiRequest) (db : Nat) (data : RawServeBindData) :
    Prop where
  refused : request.passed = some false →
    data.token ≠ [] ∧ request.authorization ≠ bytes "Bearer " ++ data.token
  database : ∀ d, request.database = some d →
    d = db ∧ (data.token = [] ∨ request.authorization = bytes "Bearer " ++ data.token)
  async : ∀ b, request.async = some b →
    b = data.async ∧ (data.token = [] ∨ request.authorization = bytes "Bearer " ++ data.token)
  atWork : request.phase ≠ .finished → s.db = some db ∧ s.data = data ∧
    s.listener.map ApiListener.call = some request.listener

/-- Every request is served by its call. -/
def AllServed (s : ApiServer) : Prop :=
  ∀ (r : Nat) request, s.requests[r]? = some request →
    ∃ caller db data phase, s.calls[request.listener]? = some ⟨caller, .serve db data, phase⟩ ∧
      s.Served request db data

theorem Inv.allServed (h : Inv s) : s.AllServed := by
  intro r request hrequest
  obtain ⟨caller, db, data, phase, hcall, hread⟩ := h.requests.served r request hrequest
  have htoken : request.passed = some true →
      data.token = [] ∨ request.authorization = bytes "Bearer " ++ data.token := fun hpassed =>
    (authorized_iff _ _).mp (hread.passed true hpassed).symm
  refine ⟨caller, db, data, phase, hcall, fun hrefused => ?_, fun d hd => ?_, fun b hb => ?_,
    fun hphase => ?_⟩
  · rw [← not_or, ← authorized_iff, ← hread.passed false hrefused]
    exact Bool.false_ne_true
  · obtain ⟨hsame, hpassed⟩ := hread.database d hd
    exact ⟨hsame, htoken hpassed⟩
  · obtain ⟨hsame, hpassed⟩ := hread.async b hb
    exact ⟨hsame, htoken hpassed⟩
  · obtain ⟨caller', db', data', phase', hcall', hdb, hdata, -⟩ :=
      h.requests.readOf h.calls hrequest hphase
    rw [hcall] at hcall'
    simp only [Option.some.injEq, ApiCall.mk.injEq, ApiAction.serve.injEq] at hcall'
    obtain ⟨-, ⟨rfl, rfl⟩, -⟩ := hcall'
    obtain ⟨l, hl, hlcall⟩ := h.requests.atWork r request hrequest hphase
    exact ⟨hdb, hdata, by rw [hl, Option.map_some, hlcall]⟩

end ApiServer

/-- **Every request is served by the call whose listener took it**, in every interleaving
of servers that come and go. -/
theorem apiServer_serves (schedule : List ApiEvent) :
    apiServer.Throughout ApiServer.AllServed apiServer.init schedule :=
  ApiServer.throughout_of_inv (fun _ h => h.allServed) schedule

namespace ApiServer

variable {s s' : ApiServer} {i r : Nat} {a : ApiEvent} {call : ApiCall} {request : ApiRequest}

/-! ## stops that return -/

/-- Some request waits for a call of its own that has not ended. -/
def Blocked (s : ApiServer) : Prop :=
  ∃ (r : Nat) (request : ApiRequest) (i : Nat) (call : ApiCall), s.requests[r]? = some request ∧
    request.phase = .calling i ∧ s.calls[i]? = some call ∧ call.phase.isEnded = false

/-- The listener was not reached when it was stopped. -/
def Unreached (s : ApiServer) : Prop :=
  ∃ l, s.listener = some l ∧ l.phase ≠ .stopped

/-- The call `j` joins, and some request or the thread itself will not let it. -/
structure Stuck (s : ApiServer) (j : Nat) : Prop where
  joining : ∃ caller, s.calls[j]? = some ⟨caller, .stop, .joining⟩
  kept : s.Blocked ∨ s.Unreached

theorem Stuck.holder {j : Nat} (h : s.Stuck j) (hinv : Inv s) : s.holder = some j := by
  obtain ⟨caller, hcall⟩ := h.joining
  exact hinv.calls.holder hcall rfl

/-- No other call goes on. -/
theorem Stuck.elsewhere {j : Nat} (h : s.Stuck j) (hinv : Inv s) (hcall : s.calls[i]? = some call)
    (hholds : call.phase.holds = true) : call.action = .stop ∧ call.phase = .joining := by
  obtain ⟨caller, hjoining⟩ := h.joining
  obtain rfl := Option.some.inj ((h.holder hinv).symm.trans (hinv.calls.holder hcall hholds))
  obtain rfl := Option.some.inj (hcall.symm.trans hjoining)
  exact ⟨rfl, rfl⟩

theorem Stuck.addCall {j : Nat} (h : s.Stuck j) (caller : Option Nat) (action : ApiAction) :
    (s.addCall caller action).Stuck j := by
  obtain ⟨⟨caller', hjoining⟩, hkept⟩ := h
  refine ⟨⟨caller', getElem?_addCall hjoining ..⟩, hkept.imp_left ?_⟩
  rintro ⟨r, request, i, call, hrequest, hphase, hcall, hended⟩
  exact ⟨r, request, i, call, hrequest, hphase, getElem?_addCall hcall .., hended⟩

/-- A request that waits for no such call goes on. -/
theorem Stuck.setRequest {j : Nat} (h : s.Stuck j) {before after : ApiRequest}
    (hbefore : s.requests[r]? = some before)
    (hfree : ∀ i call, before.phase = .calling i → s.calls[i]? = some call →
      call.phase.isEnded = true) : (s.setRequest r after).Stuck j := by
  refine ⟨h.joining, h.kept.imp_left ?_⟩
  rintro ⟨r', request, i, call, hrequest, hphase, hcall, hended⟩
  refine ⟨r', request, i, call, ?_, hphase, hcall, hended⟩
  have hother : r ≠ r' := by
    rintro rfl
    obtain rfl := Option.some.inj (hbefore.symm.trans hrequest)
    rw [hfree i call hphase hcall] at hended
    contradiction
  exact (List.getElem?_set_ne hother).trans hrequest

theorem Reads.free {before after : ApiRequest} (hreads : s.Reads before after) (i : Nat)
    (call : ApiCall) (hphase : before.phase = .calling i) (hcall : s.calls[i]? = some call) :
    call.phase.isEnded = true := by
  cases hreads with
  | resumed hphase' hcall' hended =>
      obtain rfl := ApiRequestPhase.calling.inj (hphase.symm.trans hphase')
      obtain rfl := Option.some.inj (hcall.symm.trans hcall')
      exact hended
  | passed hphase' _ | refused hphase' _ | opened hphase' | unavailable hphase' | mode hphase'
  | responded hphase' => exact ApiRequestPhase.noConfusion (hphase.symm.trans hphase')

/-- **A stop that is stuck stays stuck.** -/
theorem Stuck.step {j : Nat} (h : s.Stuck j) (hinv : Inv s) (hmove : Move s a s') :
    s'.Stuck j := by
  cases hmove with
  | call action => exact h.addCall none action
  | @callIn r request hrequest hphase action =>
      refine (h.addCall (some r) action).setRequest hrequest fun i call hcalling _ => ?_
      exact ApiRequestPhase.noConfusion (hphase.symm.trans hcalling)
  | lock hcall hfree => exact absurd ((h.holder hinv).symm.trans hfree) (Option.some_ne_none j)
  | accept hlistener authorization =>
      refine ⟨h.joining, h.kept.imp_left ?_⟩
      rintro ⟨r, request, i, call, hrequest, hrest⟩
      have hlt := (List.getElem?_eq_some_iff.mp hrequest).1
      exact ⟨r, request, i, call, (List.getElem?_append_left hlt).trans hrequest, hrest⟩
  | listen hlistener =>
      exact ⟨h.joining, .inr ⟨_, rfl, ApiListenerPhase.noConfusion⟩⟩
  | request hrequest hreads => exact h.setRequest hrequest hreads.free
  | refuse hcall _ | write hcall _ | bound hcall | unbound hcall | launch hcall | serve hcall =>
      exact ApiAction.noConfusion (h.elsewhere hinv hcall rfl).1
  | shutdown hcall _ | notRunning hcall _ =>
      exact ApiCallPhase.noConfusion (h.elsewhere hinv hcall rfl).2
  | @join i caller call hcall hlistener hdrained =>
      obtain ⟨-, ⟨r, request, i, waited, hrequest, hphase, -⟩ | ⟨l, hl, hunreached⟩⟩ := h
      · have hdone := List.all_eq_true.mp hdrained request (List.mem_of_getElem? hrequest)
        obtain ⟨l', hl', hlcall⟩ := hinv.requests.atWork r request hrequest
          (by rw [hphase]; exact ApiRequestPhase.noConfusion)
        obtain rfl := Option.some.inj (hlistener.symm.trans hl')
        dsimp only at hlcall
        simp only [ne_eq, hlcall, not_true_eq_false, decide_false, Bool.false_or, hphase,
          decide_eq_true_eq] at hdone
        contradiction
      · obtain rfl := Option.some.inj (hlistener.symm.trans hl)
        exact absurd rfl hunreached

theorem Stuck.run {j : Nat} (h : s.Stuck j) (hinv : Inv s) {as : List ApiEvent} {t : ApiServer}
    (hrun : apiServer.runFrom s as = some t) : t.Stuck j ∧ Inv t := by
  induction as generalizing s with
  | nil =>
      obtain rfl := Option.some.inj hrun
      exact ⟨h, hinv⟩
  | cons a as ih =>
      obtain ⟨s', hstep, hrun⟩ := Option.bind_eq_some_iff.mp hrun
      exact ih (h.step hinv (step_move hstep)) (hinv.step hstep) hrun

theorem requestIn_of_getElem? {phase : ApiRequestPhase} (h : s.requests[r]? = some request)
    (hphase : request.phase = phase) : s.requestIn r phase = some request := by
  rw [requestIn, h, Option.filter_some, if_pos (decide_eq_true hphase)]

theorem getElem?_setRequest (h : s.requests[r]? = some request) (after : ApiRequest) :
    (s.setRequest r after).requests[r]? = some after := by
  rw [setRequest, List.getElem?_set_self (List.getElem?_eq_some_iff.mp h).1]

theorem setRequest_setRequest (s : ApiServer) (r : Nat) (first second : ApiRequest) :
    (s.setRequest r first).setRequest r second = s.setRequest r second := by
  simp only [setRequest, List.set_set]

/-- A request past the check can finish. -/
theorem finishes_authorized (h : s.requests[r]? = some request)
    (hphase : request.phase = .authorized) :
    apiServer.runFrom s [.requireDatabase r false] =
      some (s.setRequest r { request with phase := .finished }) := by
  simp only [System.runFrom, apiServer, step, requestIn_of_getElem? h hphase, Option.map_some,
    requireDatabase, Bool.false_eq_true, if_false, Option.bind_some]

/-- A request at work can finish. -/
theorem finishes_opened (h : s.requests[r]? = some request) (hphase : request.phase = .opened) :
    apiServer.runFrom s [.respond r] =
      some (s.setRequest r { request with phase := .finished }) := by
  simp only [System.runFrom, apiServer, step, requestIn_of_getElem? h hphase, Option.map_some,
    Option.bind_some]

/-- A request that waits for no call that is not ended can finish. -/
theorem finishes (h : s.requests[r]? = some request) (hfree : ∀ i, request.phase = .calling i →
      ∃ call, s.calls[i]? = some call ∧ call.phase.isEnded = true) :
    ∃ as after, apiServer.runFrom s as = some (s.setRequest r after) ∧
      after.phase = .finished := by
  cases hphase : request.phase with
  | accepted =>
      cases hpassed : RawDuck.authorized s.data.token request.authorization with
      | true =>
          have hstep : apiServer.step s (.authorize r) = some (s.setRequest r
              { request with passed := some true, phase := .authorized }) := by
            simp only [apiServer, step, requestIn_of_getElem? h hphase, Option.map_some, authorize,
              hpassed, if_true]
          refine ⟨[.authorize r, .requireDatabase r false],
            { request with passed := some true, phase := .finished }, ?_, rfl⟩
          rw [System.runFrom, hstep, Option.bind_some,
            finishes_authorized (getElem?_setRequest h _) rfl, setRequest_setRequest]
      | false =>
          refine ⟨[.authorize r],
            { request with passed := some false, phase := .finished }, ?_, rfl⟩
          simp only [System.runFrom, apiServer, step, requestIn_of_getElem? h hphase,
            Option.map_some, authorize, hpassed, Bool.false_eq_true, if_false, Option.bind_some]
  | authorized => exact ⟨_, _, finishes_authorized h hphase, rfl⟩
  | opened => exact ⟨_, _, finishes_opened h hphase, rfl⟩
  | calling i =>
      obtain ⟨call, hcall, hended⟩ := hfree i hphase
      have hstep : apiServer.step s (.resume r) =
          some (s.setRequest r { request with phase := .opened }) := by
        obtain ⟨listener, authorization, phase, passed, database, async⟩ := request
        subst hphase
        simp only [apiServer, step, h, hcall, Option.any_some, hended, if_true]
      refine ⟨[.resume r, .respond r], { request with phase := .finished }, ?_, rfl⟩
      rw [System.runFrom, hstep, Option.bind_some,
        finishes_opened (getElem?_setRequest h _) rfl, setRequest_setRequest]
  | finished =>
      refine ⟨[], request, ?_, hphase⟩
      obtain ⟨hlt, rfl⟩ := List.getElem?_eq_some_iff.mp h
      rw [System.runFrom, setRequest, List.set_getElem_self]

/-- Requests that wait for nothing can all finish. -/
theorem finish_all (s : ApiServer) (hfree : ¬ s.Blocked) (hinv : Inv s) (n : Nat) :
    ∃ as t, apiServer.runFrom s as = some t ∧ t = { s with requests := t.requests } ∧
      (∀ k < n, ∀ request, t.requests[k]? = some request → request.phase = .finished) ∧
      ∀ k, n ≤ k → t.requests[k]? = s.requests[k]? := by
  induction n with
  | zero => exact ⟨[], s, rfl, rfl, fun k hk => absurd hk (Nat.not_lt_zero k), fun _ _ => rfl⟩
  | succ n ih =>
      obtain ⟨as, t, hrun, hsame, hdone, hrest⟩ := ih
      cases hrequest : s.requests[n]? with
      | none =>
          refine ⟨as, t, hrun, hsame, fun k hk request ht => ?_,
            fun k hk => hrest k (Nat.le_of_succ_le hk)⟩
          rcases Nat.lt_succ_iff_lt_or_eq.mp hk with hk | rfl
          · exact hdone k hk request ht
          · rw [hrest k (Nat.le_refl k), hrequest] at ht
            contradiction
      | some request =>
          have hthere : t.requests[n]? = some request := (hrest n (Nat.le_refl n)).trans hrequest
          have hcalls : t.calls = s.calls := by rw [hsame]
          obtain ⟨bs, after, hfinish, hphase⟩ := finishes hthere fun i hi => by
            have hlt := hinv.requests.waits n request i hrequest hi
            refine ⟨s.calls[i], ?_, ?_⟩
            · rw [hcalls]
              exact List.getElem?_eq_getElem hlt
            · by_contra hended
              exact hfree ⟨n, request, i, s.calls[i], hrequest, hi, List.getElem?_eq_getElem hlt,
                Bool.eq_false_iff.mpr hended⟩
          refine ⟨as ++ bs, t.setRequest n after, runFrom_trans hrun hfinish, ?_,
            fun k hk request' ht => ?_, fun k hk => ?_⟩
          · rw [setRequest, hsame]
          · by_cases hkn : n = k
            · subst hkn
              rw [getElem?_setRequest hthere] at ht
              exact Option.some.inj ht ▸ hphase
            · rw [setRequest, List.getElem?_set_ne hkn] at ht
              exact hdone k (by omega) request' ht
          · rw [setRequest, List.getElem?_set_ne (by omega)]
            exact hrest k (Nat.le_of_succ_le hk)

/-- A stop that reached the listener and that no request waits against can return. -/
theorem stop_returns (hinv : Inv s) (hfree : ¬ s.Blocked) (hreached : ¬ s.Unreached)
    {caller : Option Nat}
    (hcall : s.calls[i]? = some ⟨caller, .stop, .joining⟩) :
    ∃ as t, apiServer.runFrom s as = some t ∧
      t.calls[i]? = some ⟨caller, .stop, .ended (.ok (.stopped true))⟩ := by
  obtain ⟨as, t, hrun, hsame, hdone, hrest⟩ := finish_all s hfree hinv s.requests.length
  have hstage : s.listener.isSome = true ∧ s.running = true := hinv.calls.stageOf hcall rfl
  obtain ⟨⟨call, phase⟩, hl⟩ := Option.isSome_iff_exists.mp hstage.1
  obtain rfl : phase = .stopped := by
    by_contra hphase
    exact hreached ⟨_, hl, hphase⟩
  have hcalls : t.calls[i]? = some ⟨caller, .stop, .joining⟩ := by
    rw [hsame]
    exact hcall
  have hlistener : t.listener = some ⟨call, .stopped⟩ := by
    rw [hsame]
    exact hl
  have hdrained : t.drained call = true := by
    rw [drained, List.all_eq_true]
    intro request hrequest
    obtain ⟨k, hk⟩ := List.getElem?_of_mem hrequest
    have hlt : k < s.requests.length := by
      by_contra hge
      rw [hrest k (Nat.le_of_not_lt hge), List.getElem?_eq_none (Nat.le_of_not_lt hge)] at hk
      contradiction
    rw [hdone k hlt request hk]
    simp
  have hjoin : apiServer.runFrom t [.join i] =
      some (({ t with listener := none, running := false } : ApiServer).finish i
        (.ok (.stopped true))) := by
    simp only [System.runFrom, apiServer, step, hcalls, hlistener, hdrained, if_true,
      Option.bind_some]
  refine ⟨as ++ [.join i], _, runFrom_trans hrun hjoin, ?_⟩
  exact getElem?_goTo_self
    (s := { t with listener := none, running := false, holder := none }) hcalls _

/-- A stop that joins returns in some continuation exactly when it reached the listener
and no request waits for a call of its own; otherwise it holds the lock in all of them. -/
def StopsReturn (s : ApiServer) : Prop :=
  ∀ (j : Nat) caller, s.calls[j]? = some ⟨caller, .stop, .joining⟩ →
    ((∃ as t, apiServer.runFrom s as = some t ∧
      t.calls[j]? = some ⟨caller, .stop, .ended (.ok (.stopped true))⟩) ↔
        ¬ s.Blocked ∧ ¬ s.Unreached) ∧
    (s.Blocked ∨ s.Unreached → ∀ as t, apiServer.runFrom s as = some t → t.holder = some j)

theorem Inv.stopsReturn (h : Inv s) : s.StopsReturn := by
  intro j caller hcall
  refine ⟨⟨?_, fun hfree => stop_returns h hfree.1 hfree.2 hcall⟩, fun hkept as t hrun => ?_⟩
  · rintro ⟨as, t, hrun, hended⟩
    rw [← not_or]
    intro hkept
    obtain ⟨⟨⟨caller', hjoining⟩, -⟩, -⟩ := Stuck.run ⟨⟨caller, hcall⟩, hkept⟩ h hrun
    rw [hended] at hjoining
    exact ApiCallPhase.noConfusion (ApiCall.mk.inj (Option.some.inj hjoining)).2.2
  · obtain ⟨hstuck, hinv⟩ := Stuck.run ⟨⟨caller, hcall⟩, hkept⟩ h hrun
    exact hstuck.holder hinv

end ApiServer

/-- A request that sends `raw_serve_stop` to the server it is served by. -/
def selfStop : List ApiEvent :=
  [.call none (.serve 0 { host := [], token := [97] }), .lock 0, .write 0, .bind 0 true,
   .launch 0, .serve 0, .listen, .accept [66, 101, 97, 114, 101, 114, 32, 97], .authorize 0,
   .requireDatabase 0 true, .call (some 0) .stop, .lock 1, .shutdown 1 true]

example : (apiServer.run selfStop).map (fun s => (s.holder, s.requests.map ApiRequest.phase)) =
    some (some 1, [.calling 1]) := by decide +kernel

end RawDuck
