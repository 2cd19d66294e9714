import FastapiStarter.History

/-!
# Delivery of events

The dispatcher calls its handlers one after the other and catches nothing: the first
that raises ends the dispatch, and the registration that has just been committed.

Handlers are numbered in the order in which they were registered.  What they do is a
parameter, so any of them may raise, at any event.

## Main definitions

* `EventClasses` — the classes of events, with their base classes.
* `Dispatcher` — the dispatcher, over any classes of events.
* `deliveries` — who is to be told of what, in order.

## Main results

* `dispatch_eq_callEach` — a dispatch is a row of calls.
* `dispatch_inProcess` — the dispatcher of the application is one of these.
* `delivered_until_raised` — **who is told**, and what becomes of the registration.
* `raising_subscriber` — one that nobody is told of.
-/

namespace FastapiStarter

open Interaction

/-! ### The dispatcher -/

section dispatcher

variable {E T ε σ : Type}

/-- The classes of events: the class of an event, and the base classes of a class. -/
structure EventClasses (E T : Type) where
  type : E → T
  mro : T → List T
  /-- A class is the first of its own. -/
  self_mem : ∀ t, t ∈ mro t

/-- `isinstance(event, event_type)`. -/
def EventClasses.isInstance [DecidableEq T] (classes : EventClasses E T) (event : E)
    (eventType : T) : Bool :=
  (classes.mro (classes.type event)).contains eventType

/-- A call of a handler, by its number. -/
structure Delivery (E : Type) where
  handler : ℕ
  event : E
  deriving DecidableEq

/-- A program that calls handlers. -/
abbrev Dispatching (E ε : Type) := Prog (Delivery E) (fun _ => Unit) ε Unit

/-- `InProcessEventDispatcher`, over any classes of events. -/
structure Dispatcher (E ε : Type) where
  handlers : List (E → Dispatching E ε)

namespace Dispatcher

/-- `dispatch_if_match`, for the handler of a number. -/
def dispatchIfMatch [DecidableEq T] (classes : EventClasses E T) (eventType : T) (handler : ℕ)
    (event : E) : Dispatching E ε :=
  if classes.isInstance event eventType then Prog.op ⟨handler, event⟩ else .pure ()

/-- `register(event_type, handler)`. -/
def register [DecidableEq T] (classes : EventClasses E T) (d : Dispatcher E ε) (eventType : T) :
    Dispatcher E ε :=
  ⟨d.handlers ++ [dispatchIfMatch classes eventType d.handlers.length]⟩

/-- `dispatch(events)`. -/
def dispatch (d : Dispatcher E ε) (events : List E) : Dispatching E ε :=
  events.forM fun event => d.handlers.forM fun handler => handler event

/-- The dispatcher after handlers were registered for the given classes. -/
def registered [DecidableEq T] (classes : EventClasses E T) (eventTypes : List T) :
    Dispatcher E ε :=
  eventTypes.foldl (register classes) ⟨[]⟩

end Dispatcher

/-- **Who is to be told**: each event, in order, is for every handler that is registered
for its class or one of its base classes, in the order of registration. -/
def deliveries [DecidableEq T] (classes : EventClasses E T) (eventTypes : List T)
    (events : List E) : List (Delivery E) :=
  events.flatMap fun event =>
    (eventTypes.zipIdx.filter fun x => classes.isInstance event x.1).map fun x => ⟨x.2, event⟩

variable [DecidableEq T] {classes : EventClasses E T}

/-- The handlers, in the order of registration. -/
theorem handlers_registered (eventTypes : List T) :
    (Dispatcher.registered classes eventTypes : Dispatcher E ε).handlers =
      eventTypes.zipIdx.map fun x => Dispatcher.dispatchIfMatch classes x.1 x.2 := by
  unfold Dispatcher.registered
  induction eventTypes using List.reverseRecOn with
  | nil => rfl
  | append_singleton ts t ih =>
    rw [List.foldl_append, List.foldl_cons, List.foldl_nil, Dispatcher.register, ih,
      List.zipIdx_append, List.map_append]
    simp

/-- **A dispatch is a row of calls.** -/
theorem dispatch_eq_callEach (eventTypes : List T) (events : List E) :
    (Dispatcher.registered classes eventTypes : Dispatcher E ε).dispatch events =
      Prog.callEach (deliveries classes eventTypes events) := by
  have hevent : ∀ event : E,
      ((Dispatcher.registered classes eventTypes : Dispatcher E ε).handlers.forM fun handler =>
        handler event) = Prog.callEach ((eventTypes.zipIdx.filter fun x =>
          classes.isInstance event x.1).map fun x => ⟨x.2, event⟩) := by
    intro event
    rw [handlers_registered]
    induction eventTypes.zipIdx with
    | nil => rfl
    | cons x xs ih =>
      show Bind.bind (m := Prog (Delivery E) (fun _ => Unit) ε)
        (Dispatcher.dispatchIfMatch classes x.1 x.2 event) (fun _ =>
          (xs.map fun x => Dispatcher.dispatchIfMatch classes x.1 x.2).forM fun handler =>
            handler event) = _
      rw [ih, List.filter_cons, Dispatcher.dispatchIfMatch]
      split
      · rfl
      · rfl
  unfold Dispatcher.dispatch deliveries
  rw [funext hevent, Prog.forM_callEach]

/-- **The deliveries that are made**, and how the dispatch ends: in order, until a
handler raises. -/
inductive MadeInOrder (exec : Delivery E → σ → Except ε Unit × σ) (s : σ)
    (plan : List (Delivery E)) : List (Delivery E) → Except ε Unit → Prop
  /-- No handler raises. -/
  | all : MadeInOrder exec s plan plan (.ok ())
  /-- A handler raises, after those before it have returned; nothing more is delivered. -/
  | upTo {before after : List (Delivery E)} {o : Delivery E} {e : ε} {s' s'' : σ} :
    plan = before ++ o :: after → (Prog.callEach before).run exec s = (.ok (), s') →
    exec o s' = (.error e, s'') → MadeInOrder exec s plan (before ++ [o]) (.error e)

/-- **A dispatch delivers in order, until a handler raises.** -/
theorem madeInOrder_dispatch (eventTypes : List T) (events : List E)
    (exec : Delivery E → σ → Except ε Unit × σ) (s : σ) :
    let dispatch := (Dispatcher.registered classes eventTypes).dispatch events
    MadeInOrder exec s (deliveries classes eventTypes events) (dispatch.called exec s)
      (dispatch.run exec s).1 := by
  simp only [dispatch_eq_callEach]
  rcases Prog.callEach_spec exec (deliveries classes eventTypes events) s with
    ⟨hrun, hcalled⟩ | ⟨e, before, o, after, s', hplan, hcalled, hbefore, ⟨s'', hraise⟩, hrun⟩
  · rw [hrun, hcalled]
    exact .all
  · rw [hrun, hcalled]
    exact .upTo hplan hbefore hraise

end dispatcher

/-! ### The dispatcher of the application -/

section inProcess

/-- The events of the domain. -/
def domainEvents : EventClasses DomainEvent EventType where
  type
    | .userRegistered .. => .userRegistered
  mro
    | .domainEvent => [.domainEvent]
    | .userRegistered => [.userRegistered, .domainEvent]
  self_mem t := by cases t <;> decide

theorem isInstance_domainEvents (event : DomainEvent) (t : EventType) :
    domainEvents.isInstance event t = event.isInstance t := by
  cases event
  cases t <;> rfl

/-- A handler of the application, with the class it is registered for. -/
structure Subscriber where
  eventType : EventType
  handler : DomainEvent → Except Exc Unit

/-- The dispatcher of the application, with the given subscribers registered. -/
def InProcessEventDispatcher.ofSubscribers (subscribers : List Subscriber) :
    InProcessEventDispatcher :=
  subscribers.foldl (fun d x => d.register x.eventType x.handler) ⟨[]⟩

/-- What the handlers of subscribers do when they are called. -/
def respond (subscribers : List Subscriber) (o : Delivery DomainEvent) : Except Exc Unit :=
  (subscribers[o.handler]?).elim (.ok ()) fun x => x.handler o.event

/-- They keep no state. -/
def answerOf (subscribers : List Subscriber) (o : Delivery DomainEvent) (s : Unit) :
    Except Exc Unit × Unit :=
  (respond subscribers o, s)

theorem handlers_ofSubscribers (subscribers : List Subscriber) :
    (InProcessEventDispatcher.ofSubscribers subscribers).handlers = subscribers.map fun x event =>
      if event.isInstance x.eventType then x.handler event else .ok () := by
  unfold InProcessEventDispatcher.ofSubscribers
  induction subscribers using List.reverseRecOn with
  | nil => rfl
  | append_singleton xs x ih =>
    rw [List.foldl_append, List.foldl_cons, List.foldl_nil, InProcessEventDispatcher.register, ih,
      List.map_append]
    rfl

/-- A row of calls of handlers that keep no state. -/
theorem run_callEach_answerOf (subscribers : List Subscriber) (os : List (Delivery DomainEvent)) :
    ((Prog.callEach os).run (answerOf subscribers) ()).1 = os.forM (respond subscribers) := by
  induction os with
  | nil => rfl
  | cons o os ih =>
    rw [Prog.callEach, Prog.run_call]
    show _ = (respond subscribers o >>= fun _ => os.forM (respond subscribers))
    rw [← ih]
    simp only [answerOf]
    rcases respond subscribers o with e | _
    · rfl
    · rfl

/-- The handlers from some number on are called for an event that is theirs. -/
theorem forM_handlers (before after : List Subscriber) (event : DomainEvent) :
    (after.forM fun x => if event.isInstance x.eventType then x.handler event else .ok ()) =
      ((((after.map (·.eventType)).zipIdx before.length).filter fun x =>
        domainEvents.isInstance event x.1).map fun x => (⟨x.2, event⟩ : Delivery DomainEvent)).forM
          (respond (before ++ after)) := by
  induction after generalizing before with
  | nil => rfl
  | cons x after ih =>
    have htail := ih (before ++ [x])
    rw [List.length_append, List.append_assoc] at htail
    rw [List.map_cons, List.zipIdx_cons, List.filter_cons]
    simp only [isInstance_domainEvents] at htail ⊢
    show ((if event.isInstance x.eventType then x.handler event else .ok ()) >>= fun _ =>
      after.forM _) = _
    rw [htail]
    by_cases hx : event.isInstance x.eventType = true
    · rw [if_pos hx, if_pos hx]
      show _ = (respond (before ++ x :: after) ⟨before.length, event⟩ >>= fun _ => List.forM _ _)
      simp [respond]
    · rw [if_neg hx, if_neg hx]
      rfl

/-- **The dispatcher of the application is one of these**, with its handlers for answers. -/
theorem dispatch_inProcess (subscribers : List Subscriber) (events : List DomainEvent) :
    (InProcessEventDispatcher.ofSubscribers subscribers).dispatch events =
      (((Dispatcher.registered domainEvents (subscribers.map (·.eventType))).dispatch events).run
        (answerOf subscribers) ()).1 := by
  rw [dispatch_eq_callEach, run_callEach_answerOf]
  unfold InProcessEventDispatcher.dispatch deliveries
  rw [handlers_ofSubscribers]
  induction events with
  | nil => rfl
  | cons event events ih =>
    have happend : ∀ os os' : List (Delivery DomainEvent), (os ++ os').forM (respond subscribers) =
        os.forM (respond subscribers) >>= fun _ => os'.forM (respond subscribers) :=
      fun os os' => List.forM_append
    have hmap : (subscribers.map fun x event =>
        if event.isInstance x.eventType then x.handler event else .ok ()).forM (fun h => h event) =
        subscribers.forM fun x =>
          if event.isInstance x.eventType then x.handler event else .ok () :=
      List.forM_map
    have hevent := forM_handlers [] subscribers event
    rw [List.nil_append, List.length_nil] at hevent
    rw [List.flatMap_cons, happend, ← ih, ← hevent, ← hmap]
    rfl

end inProcess

/-! ### The registration -/

section registration

variable [Unicode]

/-- The event that a registration records. -/
def User.registered (u : User) : DomainEvent :=
  .userRegistered u.id.value u.email.value u.createdAt

/-- **After it has added its user** a registration commits, dispatches the event of the
user, and returns the view if that returns. -/
theorem createUser_goesOn {c : CreateUserCommand} {u : User} {k : Unit → Handler UserView}
    (h : (CreateUserHandler.execute c).GoesOn (.usersAdd u) k) :
    u.events = [u.registered] ∧ ∃ k', k () = .call .commit k' ∧ ∀ env sid x,
      (k' ()).run (exec env sid) x =
        ((env.dispatcher.dispatch u.events).map fun _ =>
          ⟨u.id.value, u.email.value, u.isActive, .aware u.createdAt⟩,
          x.1, x.2.dispatch u.events) := by
  unfold CreateUserHandler.execute at h
  split at h
  · cases h
  next email hemail =>
  simp only [Prog.op_bind] at h
  -- the answers that come first, one at a time
  cases h with | @later _ _ _ _ exists' h =>
  beta_reduce at h
  split at h
  · cases h
  cases h with | @later _ _ _ _ userId h =>
  cases h with | @later _ _ _ _ hashed h =>
  beta_reduce at h
  split at h
  · cases h
  next hashedPassword hhashed =>
  cases h with | @later _ _ _ _ createdAt h =>
  cases h with
  | here =>
    refine ⟨rfl, _, rfl, fun env sid x => ?_⟩
    obtain ⟨session, w⟩ := x
    have hevents : (User.create ⟨userId⟩ email hashedPassword createdAt).pullEvents.1 =
        (User.create ⟨userId⟩ email hashedPassword createdAt).events := rfl
    simp only [Prog.run_call, exec, hevents]
    rcases env.dispatcher.dispatch
      (User.create ⟨userId⟩ email hashedPassword createdAt).events with e | _
    · rfl
    · rfl
  | later h =>
    -- nothing is added twice
    cases h with | later h =>
    cases h with | later h =>
    cases h with | later h =>
    cases h

/-- **Who is told, and what becomes of the registration.**  Deliveries are made in
order, each once and to nobody else, until a handler raises.  A registration that has
committed returns the view if no handler of its event raises; otherwise it raises what
the handler raised, and the user stays. -/
theorem delivered_until_raised :
    (∀ (E T ε σ : Type) [DecidableEq T] (classes : EventClasses E T) (eventTypes : List T)
      (events : List E) (handlers : Delivery E → σ → Except ε Unit × σ) (s : σ),
      let dispatch := (Dispatcher.registered classes eventTypes).dispatch events
      MadeInOrder handlers s (deliveries classes eventTypes events) (dispatch.called handlers s)
        (dispatch.run handlers s).1) ∧
    ∀ (c : CreateUserCommand) (u : User) (k : Unit → Handler UserView),
      (CreateUserHandler.execute c).GoesOn (.usersAdd u) k →
      ∃ k', k () = .call .commit k' ∧ ∀ (subscribers : List Subscriber) (env : Env) (sid : ℕ)
        (s : Session) (w : World), env.dispatcher = .ofSubscribers subscribers →
        (k' ()).run (exec env sid) (s, w) =
          ((((Dispatcher.registered domainEvents (subscribers.map (·.eventType))).dispatch
            [u.registered]).run (answerOf subscribers) ()).1.map fun _ =>
              ⟨u.id.value, u.email.value, u.isActive, .aware u.createdAt⟩,
            s, w.dispatch [u.registered]) := by
  refine ⟨fun E T ε σ _ classes eventTypes events handlers s =>
    madeInOrder_dispatch eventTypes events handlers s, fun c u k h => ?_⟩
  obtain ⟨hevents, k', hk, hrun⟩ := createUser_goesOn h
  refine ⟨k', hk, fun subscribers env sid s w hdispatcher => ?_⟩
  rw [hrun, hevents, hdispatcher, dispatch_inProcess]

end registration

section sample

attribute [local instance] asciiUnicode

/-- A subscriber that raises, and one that is registered after it. -/
def raisingSubscribers : List Subscriber :=
  [⟨.userRegistered, fun _ => .error .unexpected⟩, ⟨.userRegistered, fun _ => .ok ()⟩]

/-- The environment with these subscribers. -/
def raisingEnv : Env :=
  { sampleEnv with dispatcher := .ofSubscribers raisingSubscribers }

/-- The dispatch of one event to them. -/
def raisingDispatch (event : DomainEvent) : Dispatching DomainEvent Exc :=
  (Dispatcher.registered domainEvents (raisingSubscribers.map (·.eventType))).dispatch [event]

/-- A subscriber of the base class, one of the class itself that raises, and one after them. -/
def mixedSubscribers : List Subscriber :=
  [⟨.domainEvent, fun _ => .ok ()⟩, ⟨.userRegistered, fun _ => .error .unexpected⟩,
    ⟨.domainEvent, fun _ => .ok ()⟩]

/-- The event of the sample registration. -/
def sampleEvent : DomainEvent := .userRegistered (sampleEnv.uuid 0) sampleLogin.email 0

/-- All three are to be told, and the first two are. -/
theorem delivered_until_raised_sample :
    MadeInOrder (answerOf mixedSubscribers) ()
      [⟨0, sampleEvent⟩, ⟨1, sampleEvent⟩, ⟨2, sampleEvent⟩]
      [⟨0, sampleEvent⟩, ⟨1, sampleEvent⟩] (.error .unexpected) := by
  have hinOrder := delivered_until_raised.1 DomainEvent EventType Exc Unit domainEvents
    (mixedSubscribers.map Subscriber.eventType) [sampleEvent] (answerOf mixedSubscribers) ()
  exact hinOrder

/-- **A subscriber that raises** keeps the event from the one after it, and fails a
registration that is committed. -/
theorem raising_subscriber :
    (∀ event, deliveries domainEvents (raisingSubscribers.map (·.eventType)) [event] =
        [⟨0, event⟩, ⟨1, event⟩] ∧
      (raisingDispatch event).called (answerOf raisingSubscribers) () = [⟨0, event⟩]) ∧
    (execute raisingEnv sampleRegistration .initial).1 = .error .unexpected ∧
    ((execute raisingEnv sampleRegistration .initial).2.db.users.rows.map (·.email)) =
      [sampleLogin.email] := by
  refine ⟨fun event => ?_, rfl, by decide⟩
  cases event
  exact ⟨rfl, rfl⟩

end sample

end FastapiStarter
