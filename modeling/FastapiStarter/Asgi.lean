import FastapiStarter.Config
import FastapiStarter.Uuid
import FastapiStarter.Lib.Handling

/-!
# ASGI applications

An application answers one request: it receives messages from the client, sends
messages to it, logs, and returns or raises.  A middleware is an application
around an inner one, whose calls of `receive` and `send` it may replace.

What a response consists of does not depend on what was sent before, so a run is
described by the messages that it sends itself.

## Main definitions

* `Headers`, `Message`, `Exc`, `LogRecord` — what is sent, raised and logged.
* `Wire`, `Asgi`, `App` — the calls, and applications.
* `Receive`, `World`, `answer`, `serve` — the connection, and one request.
* `wrapSend`, `wrapReceive` — an application behind a replaced `send` or `receive`.
* `through` — what a replaced `send` makes of a list of messages.
* `Quiet` — applications that leave the context alone.

## Main results

* `serve_wrapSend` — **a replaced `send` changes what is sent, and nothing else**.
* `serve_wrapReceive` — **a replaced `receive` is another client**.
* `serve_quiet` — what is logged behind the context carries it.
-/

namespace FastapiStarter.Web

open Interaction Encoding

/-! ### Headers -/

/-- The header fields of a message, with names in lower case. -/
abbrev Headers := List (Str × Str)

/-- The values of a field. -/
def values (headers : Headers) (name : Str) : List Str :=
  (headers.filter fun h => h.1 = name).map (·.2)

/-- `MutableHeaders.setdefault(name, value)`, for a name in lower case. -/
def setdefault (headers : Headers) (name value : Str) : Headers :=
  if headers.any fun h => h.1 = name then headers else headers ++ [(name, value)]

@[simp] theorem values_append (hs hs' : Headers) (name : Str) :
    values (hs ++ hs') name = values hs name ++ values hs' name := by
  simp [values]

theorem values_eq_nil {hs : Headers} {name : Str} :
    values hs name = [] ↔ (hs.any fun h => h.1 = name) = false := by
  rw [values, List.map_eq_nil_iff, List.filter_eq_nil_iff, List.any_eq_false]

/-- **A field that is there stays, one that is not is added.** -/
theorem values_setdefault (hs : Headers) (name value name' : Str) :
    values (setdefault hs name value) name' =
      if name' = name ∧ values hs name = [] then [value] else values hs name' := by
  unfold setdefault
  by_cases hnone : values hs name = []
  · rw [if_neg (by simp [values_eq_nil.mp hnone]), values_append]
    by_cases hname : name' = name
    · subst hname
      rw [if_pos ⟨rfl, hnone⟩, hnone]
      simp [values]
    · rw [if_neg fun h => hname h.1]
      simp [values, Ne.symm hname]
  · have hany : (hs.any fun h => h.1 = name) = true := by
      by_contra h
      exact hnone (values_eq_nil.mpr (Bool.eq_false_iff.mpr h))
    rw [if_pos hany, if_neg fun h => hnone h.2]

theorem values_setdefault_of_ne {hs : Headers} {name value name' : Str} (h : name' ≠ name) :
    values (setdefault hs name value) name' = values hs name' := by
  rw [values_setdefault, if_neg fun h' => h h'.1]

theorem values_setdefault_self (hs : Headers) (name value : Str) :
    values (setdefault hs name value) name =
      if values hs name = [] then [value] else values hs name := by
  rw [values_setdefault]
  simp

/-! ### Messages -/

/-- One failure that `RequestValidationError.errors()` lists. -/
structure RequestIssue where
  loc : List Str
  msg : Str
  type : Str
  deriving DecidableEq

/-- `ValidationIssue`. -/
structure ValidationIssue where
  loc : Str
  msg : Str
  type : Str
  deriving DecidableEq

/-- `ProblemDetail`, and `ValidationProblemDetail` with its errors. -/
structure ProblemDetail where
  type : Str := text "about:blank"
  title : Str
  status : ℤ
  detail : Option Str := none
  instance_ : Option Str := none
  errors : Option (List ValidationIssue) := none
  deriving DecidableEq

/-- What the body of a response says, once it is decoded. -/
inductive Content
  /-- The JSON document of a problem. -/
  | problem (p : ProblemDetail)
  | plain (s : Str)
  /-- Anything else. -/
  | bytes (bs : List Byte)
  deriving DecidableEq

/-- The messages of ASGI. -/
inductive Message
  | request (body : List Byte) (moreBody : Bool)
  | disconnect
  /-- `http.response.start`. -/
  | start (status : ℤ) (headers : Headers)
  /-- `http.response.body`. -/
  | body (content : Content) (moreBody : Bool)
  deriving DecidableEq

/-- The message is `http.response.start`. -/
def Message.isStart : Message → Bool
  | .start _ _ => true
  | _ => false

/-- The response starts in a list of messages. -/
def starts : List Message → List (ℤ × Headers)
  | [] => []
  | .start status headers :: ms => (status, headers) :: starts ms
  | _ :: ms => starts ms

/-- The contents of the bodies in a list of messages. -/
def contents : List Message → List Content
  | [] => []
  | .body content _ :: ms => content :: contents ms
  | _ :: ms => contents ms

@[simp]
theorem starts_append (ms ms' : List Message) : starts (ms ++ ms') = starts ms ++ starts ms' := by
  induction ms with
  | nil => rfl
  | cons m ms ih => cases m <;> simp [starts, ih]

@[simp] theorem contents_append (ms ms' : List Message) :
    contents (ms ++ ms') = contents ms ++ contents ms' := by
  induction ms with
  | nil => rfl
  | cons m ms ih => cases m <;> simp [contents, ih]

/-! ### Exceptions and events -/

/-- The classes in the resolution order of a domain error. -/
inductive ErrorClass
  | domainError
  | validationError
  | invalidCredentialsError
  | invalidTokenError
  | tokenExpiredError
  | userNotFoundError
  | emailAlreadyExistsError
  /-- Any other class, and whether it is a subclass of `DomainError`. -/
  | other (name : Str) (isDomainError : Bool)
  deriving DecidableEq

/-- `klass.__name__`. -/
def ErrorClass.name : ErrorClass → Str
  | domainError => text "DomainError"
  | validationError => text "ValidationError"
  | invalidCredentialsError => text "InvalidCredentialsError"
  | invalidTokenError => text "InvalidTokenError"
  | tokenExpiredError => text "TokenExpiredError"
  | userNotFoundError => text "UserNotFoundError"
  | emailAlreadyExistsError => text "EmailAlreadyExistsError"
  | other name _ => name

/-- `issubclass(klass, DomainError)`. -/
def ErrorClass.isDomainError : ErrorClass → Bool
  | other _ b => b
  | _ => true

/-- The exceptions, by the handler that is registered for their class. -/
inductive Exc
  /-- A `DomainError`: the resolution order of its class, and its message. -/
  | domain (cls : ErrorClass) (bases : List ErrorClass) (message : Str)
  | requestValidation (issues : List RequestIssue)
  /-- An `HTTPException`; its detail is `none` if it is not a string. -/
  | http (status : ℤ) (detail : Option Str) (headers : Option (List (Str × Str)))
  /-- Any other `Exception`. -/
  | other (name : Str)
  deriving DecidableEq

/-- `type(exc).__name__`. -/
def Exc.name : Exc → Str
  | .domain cls _ _ => cls.name
  | .requestValidation _ => text "RequestValidationError"
  | .http _ _ _ => text "HTTPException"
  | .other name => name

/-- The events that are logged. -/
inductive LogEvent
  /-- `request.domain_error`. -/
  | domainError (error : Str) (status : ℤ) (path : Str)
  | httpRequest (method path : Str) (status : ℤ) (requestId : Str)
  /-- `request.unhandled_error`. -/
  | unhandledError (error method path : Str)
  /-- Any other event. -/
  | other (name : Str)
  deriving DecidableEq

/-- An event, with the request id that is bound when it is logged. -/
structure LogRecord where
  event : LogEvent
  context : Option Str
  deriving DecidableEq

/-- The request id in a logged event: its own, or the one that is bound. -/
def LogRecord.requestId (r : LogRecord) : Option Str :=
  match r.event with
  | .httpRequest _ _ _ requestId => some requestId
  | _ => r.context

/-! ### Applications -/

/-- The scope of a request; the server has decoded the path from UTF-8. -/
structure Scope where
  method : Str
  path : String
  headers : Headers

/-- The calls that every application can make. -/
inductive Wire
  | receive
  | send (message : Message)
  /-- Any event that the application does not log itself. -/
  | log (name : Str)

/-- Their answers; `receive` may raise. -/
@[reducible] def Wire.Ret : Wire → Type
  | .receive => Except Exc Message
  | .send _ => Unit
  | .log _ => Unit

/-- The calls of the application, with those to the state of the request. -/
inductive Asgi
  /-- A call that every application can make. -/
  | wire (o : Wire)
  /-- `logger.info(event)`, at any level. -/
  | log (event : LogEvent)
  /-- `request.state.request_id`. -/
  | requestId
  /-- `scope["state"]["request_id"] = request_id`. -/
  | setRequestId (requestId : Str)
  | bindContextvars (requestId : Str)
  | clearContextvars
  | uuid4

/-- Their answers. -/
@[reducible] def Asgi.Ret : Asgi → Type
  | .wire o => o.Ret
  | .requestId => Option Str
  | .uuid4 => UUID
  | _ => Unit

/-- A part of an application. -/
abbrev Part (α : Type) := Prog Asgi Asgi.Ret Exc α

/-- An application, on one request. -/
abbrev App := Part Unit

/-- What the application routes the request to: it knows nothing of the context. -/
abbrev Endpoint := Prog Wire Wire.Ret Exc Unit

/-- `raise exc`, or nothing. -/
def reraise : Except Exc Unit → App
  | .ok _ => .pure ()
  | .error exc => .raise exc

/-- Sends some messages. -/
def sendAll : List Message → Prog Asgi Asgi.Ret Empty Unit
  | [] => .pure ()
  | m :: ms => .call (.wire (.send m)) fun _ => sendAll ms

section wrap

variable {ℓ : Type}

/-- Handles `send` by sending other messages, and keeps a variable. -/
def sendHandler (h : ℓ → Message → List Message × ℓ) (o : Asgi) (l : ℓ) :
    Prog Asgi Asgi.Ret Empty (o.Ret × ℓ) :=
  match o with
  | .wire (.send m) => sendAll (h l m).1 >>= fun _ => .pure ((), (h l m).2)
  | o => .call o fun r => .pure (r, l)

/-- The application behind a replaced `send`. -/
def wrapSend (h : ℓ → Message → List Message × ℓ) (app : App) (l : ℓ) :
    Part (Except Exc Unit × ℓ) :=
  app.handle (sendHandler h) l

/-- Handles `receive` by handing on the message or raising, and keeps a variable. -/
def receiveHandler (h : ℓ → Message → Except Exc Message × ℓ) (o : Asgi) (l : ℓ) :
    Prog Asgi Asgi.Ret Empty (o.Ret × ℓ) :=
  match o with
  | .wire .receive => .call (.wire .receive) fun r =>
    match r with
    | .ok m => .pure (h l m)
    | .error exc => .pure (.error exc, l)
  | o => .call o fun r => .pure (r, l)

/-- The application behind a replaced `receive`. -/
def wrapReceive (h : ℓ → Message → Except Exc Message × ℓ) (app : App) (l : ℓ) :
    Part (Except Exc Unit × ℓ) :=
  app.handle (receiveHandler h) l

/-- What a replaced `send` makes of a list of messages. -/
def through (h : ℓ → Message → List Message × ℓ) (l : ℓ) : List Message → List Message × ℓ
  | [] => ([], l)
  | m :: ms => ((h l m).1 ++ (through h (h l m).2 ms).1, (through h (h l m).2 ms).2)

end wrap

/-- The endpoint, as an application. -/
def Endpoint.app (endpoint : Endpoint) : App := do
  let r ← endpoint.handle (fun o (l : Unit) => do
    let answer ← Prog.op (.wire o)
    return (answer, l)) ()
  reraise r.1

/-! ### The connection -/

/-- How the messages of the client arrive. -/
abbrev Receive (σ : Type) := σ → Except Exc Message × σ

/-- The client sends some messages, then it disconnects. -/
def client : Receive (List Message)
  | [] => (.ok .disconnect, [])
  | m :: ms => (.ok m, ms)

/-- The messages of the client, handed on by a replaced `receive`. -/
def Receive.behind {σ ℓ : Type} (recv : Receive σ) (h : ℓ → Message → Except Exc Message × ℓ) :
    Receive (ℓ × σ) := fun s =>
  match recv s.2 with
  | (.ok m, s') => ((h s.1 m).1, (h s.1 m).2, s')
  | (.error exc, s') => (.error exc, s.1, s')

/-- The connection, and the state of the request. -/
structure World (σ : Type) where
  /-- What the client still sends. -/
  incoming : σ
  sent : List Message
  /-- `request_id`, as bound by structlog. -/
  context : Option Str
  /-- `scope["state"]["request_id"]`. -/
  requestId : Option Str
  /-- What was logged, newest first. -/
  logged : List LogRecord
  /-- The random ids still to come. -/
  uuids : ℕ → UUID

/-- The answer to a call. -/
def answer {σ : Type} (recv : Receive σ) : (o : Asgi) → World σ → o.Ret × World σ
  | .wire .receive, w => ((recv w.incoming).1, { w with incoming := (recv w.incoming).2 })
  | .wire (.send m), w => ((), { w with sent := w.sent ++ [m] })
  | .wire (.log name), w => ((), { w with logged := ⟨.other name, w.context⟩ :: w.logged })
  | .log event, w => ((), { w with logged := ⟨event, w.context⟩ :: w.logged })
  | .requestId, w => (w.requestId, w)
  | .setRequestId requestId, w => ((), { w with requestId := some requestId })
  | .bindContextvars requestId, w => ((), { w with context := some requestId })
  | .clearContextvars, w => ((), { w with context := none })
  | .uuid4, w => (w.uuids 0, { w with uuids := fun n => w.uuids (n + 1) })

/-- The world, with nothing sent. -/
def World.fresh {σ : Type} (w : World σ) : World σ := { w with sent := [] }

/-- The world, after some more messages. -/
def World.after {σ : Type} (w : World σ) (ms : List Message) : World σ :=
  { w with sent := ms ++ w.sent }

/-- The world behind a replaced `receive`. -/
def World.behind {σ ℓ : Type} (w : World σ) (l : ℓ) : World (ℓ × σ) :=
  { w with incoming := (l, w.incoming) }

/-- The world in front of a replaced `receive`. -/
def World.front {σ ℓ : Type} (w : World (ℓ × σ)) : World σ := { w with incoming := w.incoming.2 }

/-- A part of an application, on a connection on which nothing was sent. -/
def serve {σ α : Type} (recv : Receive σ) (p : Part α) (w : World σ) : Except Exc α × World σ :=
  p.exec (answer recv) w.fresh

/-! ### What a run sends -/

section serve

variable {σ α β ℓ : Type} {recv : Receive σ}

theorem exec_after (p : Part α) (w : World σ) (ms : List Message) :
    p.exec (answer recv) (w.after ms) = ((p.exec (answer recv) w).1,
      (p.exec (answer recv) w).2.after ms) := by
  have hrel : ∀ o (s t : World σ), s = t.after ms →
      (answer recv o s).1 = (answer recv o t).1 ∧ (answer recv o s).2 =
        (answer recv o t).2.after ms := by
    rintro o s t rfl
    rcases o with (_ | m | name) | event | _ | _ | _ | _ | _
    case wire.send =>
      refine ⟨rfl, ?_⟩
      simp only [answer, World.after, List.append_assoc]
    all_goals exact ⟨rfl, rfl⟩
  obtain ⟨hret, hworld⟩ := Prog.exec_rel hrel p rfl
  exact Prod.ext hret hworld

/-- **What was sent before does not matter.** -/
theorem exec_eq_serve recv (p : Part α) (w : World σ) :
    p.exec (answer recv) w = ((serve recv p w).1, (serve recv p w).2.after w.sent) := by
  have hw : w.fresh.after w.sent = w := by
    simp only [World.fresh, World.after, List.append_nil]
  rw [serve, ← exec_after, hw]

theorem serve_bind (p : Part α) (f : α → Part β) (w : World σ) :
    serve recv (p >>= f) w =
      match serve recv p w with
      | (.ok a, w') => ((serve recv (f a) w').1, (serve recv (f a) w').2.after w'.sent)
      | (.error exc, w') => (.error exc, w') := by
  rw [serve, Prog.exec_bind]
  rw [← serve]
  rcases serve recv p w with ⟨_ | a, w'⟩
  · rfl
  · exact exec_eq_serve recv (f a) w'

/-- A sequence whose first part returns. -/
theorem serve_seq {p : Part α} {f : α → Part β} {a : α} {x : Except Exc β} {w w' w'' : World σ}
    (h : serve recv p w = (.ok a, w')) (hf : serve recv (f a) w' = (x, w'')) :
    serve recv (p >>= f) w = (x, w''.after w'.sent) := by
  rw [serve_bind, h]
  show ((serve recv (f a) w').1, (serve recv (f a) w').2.after w'.sent) = _
  rw [hf]

@[simp] theorem fresh_after (w : World σ) : w.fresh.after w.sent = w := by
  simp only [World.fresh, World.after, List.append_nil]

@[simp] theorem serve_reraise (x : Except Exc Unit) (w : World σ) :
    serve recv (reraise x) w = (x, w.fresh) := by
  rcases x with exc | ⟨⟩ <;> rfl

theorem exec_sendAll (ms : List Message) (w : World σ) :
    (sendAll ms).exec (answer recv) w = (.ok (), { w with sent := w.sent ++ ms }) := by
  induction ms generalizing w with
  | nil => simp [sendAll]
  | cons m ms ih =>
    rw [sendAll, Prog.exec_call, ih]
    simp [answer]

theorem through_append (h : ℓ → Message → List Message × ℓ) (l : ℓ) (ms : List Message)
    (m : Message) : through h l (ms ++ [m]) =
      ((through h l ms).1 ++ (h (through h l ms).2 m).1, (h (through h l ms).2 m).2) := by
  induction ms generalizing l with
  | nil => simp [through]
  | cons m' ms ih => simp [through, ih, List.append_assoc]

theorem handled_send (h : ℓ → Message → List Message × ℓ) (m : Message) (l : ℓ) (w : World σ) :
    Prog.handled (sendHandler h) (answer recv) (.wire (.send m)) (l, w) =
      ((), (h l m).2, { w with sent := w.sent ++ (h l m).1 }) := by
  have hsend : (sendAll (h l m).1).exec (answer recv) w = _ := exec_sendAll (h l m).1 w
  have hexec := Prog.exec_bind_ok (f := fun _ => Prog.pure ((), (h l m).2)) hsend
  simp only [Prog.handled, sendHandler, hexec]
  rfl

/-- **A replaced `send` changes what is sent, and nothing else.** -/
theorem serve_wrapSend (h : ℓ → Message → List Message × ℓ) (app : App) (l : ℓ) (w : World σ) :
    serve recv (wrapSend h app l) w =
      (.ok ((serve recv app w).1, (through h l (serve recv app w).2.sent).2),
        { (serve recv app w).2 with sent := (through h l (serve recv app w).2.sent).1 }) := by
  have hstep : ∀ o (s : ℓ × World σ) (t : World σ),
      s = ((through h l t.sent).2, { t with sent := (through h l t.sent).1 }) →
      (Prog.handled (sendHandler h) (answer recv) o s).1 = (answer recv o t).1 ∧
        (Prog.handled (sendHandler h) (answer recv) o s).2 =
          ((through h l (answer recv o t).2.sent).2,
            { (answer recv o t).2 with sent := (through h l (answer recv o t).2.sent).1 }) := by
    rintro o s t rfl
    rcases o with (_ | m | name) | event | _ | _ | _ | _ | _
    case wire.send =>
      rw [handled_send]
      simp only [answer, through_append, and_self]
    all_goals exact ⟨rfl, rfl⟩
  obtain ⟨hret, hworld⟩ := Prog.exec_rel hstep app
    (show (l, w.fresh) = ((through h l w.fresh.sent).2, { w.fresh with
      sent := (through h l w.fresh.sent).1 }) from rfl)
  rw [serve, wrapSend, Prog.exec_handle]
  simp only [hret, hworld]
  rfl

/-- **A replaced `receive` is another client.** -/
theorem serve_wrapReceive (h : ℓ → Message → Except Exc Message × ℓ) (app : App) (l : ℓ)
    (w : World σ) : serve recv (wrapReceive h app l) w =
      (.ok ((serve (recv.behind h) app (w.behind l)).1,
          (serve (recv.behind h) app (w.behind l)).2.incoming.1),
        (serve (recv.behind h) app (w.behind l)).2.front) := by
  have hstep : ∀ o (s : ℓ × World σ) (t : World (ℓ × σ)), s = (t.incoming.1, t.front) →
      (Prog.handled (receiveHandler h) (answer recv) o s).1 = (answer (recv.behind h) o t).1 ∧
        (Prog.handled (receiveHandler h) (answer recv) o s).2 =
          ((answer (recv.behind h) o t).2.incoming.1, (answer (recv.behind h) o t).2.front) := by
    rintro o s t rfl
    rcases o with (_ | m | name) | event | _ | _ | _ | _ | _
    case wire.receive =>
      rcases hin : recv t.incoming.2 with ⟨exc | m, s'⟩ <;>
        simp [Prog.handled, receiveHandler, Prog.value, answer, Receive.behind, World.front, hin]
    all_goals exact ⟨rfl, rfl⟩
  obtain ⟨hret, hworld⟩ := Prog.exec_rel hstep app
    (show (l, w.fresh) = ((w.behind l).fresh.incoming.1, (w.behind l).fresh.front) from rfl)
  rw [serve, wrapReceive, Prog.exec_handle]
  simp only [hret, hworld]
  rfl

/-! ### What leaves the context alone -/

/-- The call does not touch the context or the request id, and logs no event that has
a request id of its own. -/
def Asgi.Quiet : Asgi → Prop
  | .wire _ | .requestId | .log (.domainError _ _ _) | .log (.unhandledError _ _ _)
  | .log (.other _) => True
  | _ => False

/-- The application makes only such calls. -/
def Quiet (p : Part α) : Prop := p.Along (fun _ _ => True) Asgi.Quiet True

/-- The context is the same, and what was logged since carries it. -/
structure World.Keeps (w w' : World σ) : Prop where
  context : w'.context = w.context
  requestId : w'.requestId = w.requestId
  logged : ∃ new, w'.logged = new ++ w.logged ∧ ∀ r ∈ new, r.requestId = w.context

/-- **What is logged by an application that leaves the context alone carries it.** -/
theorem serve_quiet {p : Part α} (hp : Quiet p) (w : World σ) : w.Keeps (serve recv p w).2 := by
  refine Prog.exec_along (fun o s ho hs => ?_) hp (s := w.fresh) ⟨rfl, rfl, [], rfl, by simp⟩
  obtain ⟨hcontext, hid, new, hnew, hall⟩ := hs
  rcases o with (_ | m | name) | event | _ | _ | _ | _ | _
  case wire.receive => exact ⟨hcontext, hid, new, hnew, hall⟩
  case wire.log =>
    refine ⟨hcontext, hid, ⟨.other name, s.context⟩ :: new, by simp [answer, hnew], fun r hr => ?_⟩
    rcases List.mem_cons.mp hr with rfl | hr
    · exact hcontext
    · exact hall r hr
  case log =>
    refine ⟨hcontext, hid, ⟨event, s.context⟩ :: new, by simp [answer, hnew], fun r hr => ?_⟩
    rcases List.mem_cons.mp hr with rfl | hr
    · cases event with
      | httpRequest => exact ho.elim
      | _ => exact hcontext
    · exact hall r hr
  case wire.send => exact ⟨hcontext, hid, new, hnew, hall⟩
  case requestId => exact ⟨hcontext, hid, new, hnew, hall⟩
  all_goals exact ho.elim

theorem quiet_bind {p : Part α} {f : α → Part β} (hp : Quiet p) (hf : ∀ a, Quiet (f a)) :
    Quiet (p >>= f) := Prog.along_bind hp hf

theorem quiet_reraise (x : Except Exc Unit) : Quiet (reraise x) := by
  rcases x with exc | ⟨⟩ <;> trivial

theorem along_sendAll (ms : List Message) :
    (sendAll ms).Along (fun _ _ => True) Asgi.Quiet True := by
  induction ms with
  | nil => trivial
  | cons m ms ih => exact ⟨trivial, fun _ _ => ih⟩

theorem quiet_wrapSend {h : ℓ → Message → List Message × ℓ} {app : App} (happ : Quiet app)
    (l : ℓ) : Quiet (wrapSend h app l) := by
  refine Prog.along_handle (fun o l ho => ?_) happ l
  rcases o with (_ | m | name) | event | _ | _ | _ | _ | _
  case wire.send => exact Prog.along_bind (along_sendAll _) fun _ => trivial
  all_goals exact ⟨ho, fun _ _ => trivial⟩

theorem quiet_wrapReceive {h : ℓ → Message → Except Exc Message × ℓ} {app : App}
    (happ : Quiet app) (l : ℓ) : Quiet (wrapReceive h app l) := by
  refine Prog.along_handle (fun o l ho => ?_) happ l
  rcases o with (_ | m | name) | event | _ | _ | _ | _ | _
  case wire.receive =>
    refine ⟨trivial, fun r _ => ?_⟩
    rcases r with exc | m <;> trivial
  all_goals exact ⟨ho, fun _ _ => trivial⟩

/-- An endpoint leaves the context alone. -/
theorem quiet_endpoint (endpoint : Endpoint) : Quiet endpoint.app := by
  have halong : endpoint.Along (fun _ _ => True) (fun _ => True) True := by
    induction endpoint with
    | pure a => trivial
    | raise e => trivial
    | call o k ih => exact ⟨trivial, fun r _ => ih r⟩
  refine quiet_bind (Prog.along_handle (fun o l _ => ?_) halong ()) fun r => quiet_reraise r.1
  exact ⟨trivial, fun _ _ => trivial⟩

end serve

end FastapiStarter.Web
