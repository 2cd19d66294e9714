import FastapiStarter.Delivery

/-!
# The access log

The status and the id of a response reach the log and the client along different
paths.  A response that is started takes both through the replaced `send`; an
exception that comes before is answered outside of the request context, with the id
that was left in the state of the request.

## Main definitions

* `contextStack` — any application behind the request context, and the layers around.
* `accessLog` — the `http.request` events that were logged.
* `Compliant` — applications that start one response and leave the id to the context.
* `TellsTruth` — the event and the response agree.

## Main results

* `givenId_eq_iff` — the id that a request is given.
* `contextStack_accessLog` — one event for each request.
* `access_log_tells_truth` — **the log and the client are told the same**.
-/

namespace FastapiStarter.Web

open Interaction

/-! ### The id -/

section id

variable {σ : Type} {scope : Scope} {w : World σ}

/-- The id is the one that came in exactly if that one looks like an id. -/
theorem givenId_eq_iff {raw : Str} (h : (values scope.headers requestIdHeader).head? = some raw) :
    w.givenId scope = raw ↔ requestIdMatches raw = true := by
  refine ⟨fun heq => heq ▸ requestIdMatches_givenId, fun hraw => ?_⟩
  unfold World.givenId
  rw [h]
  exact if_pos hraw

end id

/-! ### What is logged -/

/-- Method, path, status and id of an `http.request` event. -/
def LogEvent.access : LogEvent → Option (Str × Str × ℤ × Str)
  | .httpRequest method path status requestId => some (method, path, status, requestId)
  | _ => none

/-- The `http.request` events among the records, newest first. -/
def accessLog (logged : List LogRecord) : List (Str × Str × ℤ × Str) :=
  logged.filterMap fun r => r.event.access

@[simp] theorem accessLog_cons (r : LogRecord) (logged : List LogRecord) :
    accessLog (r :: logged) = r.event.access.toList ++ accessLog logged := by
  unfold accessLog
  rw [List.filterMap_cons]
  rcases r.event.access with _ | a <;> rfl

/-- The call neither replaces the id in the state of the request nor logs an
`http.request` event: those two are what the request context is for. -/
def Asgi.LeavesId : Asgi → Prop
  | .setRequestId _ | .log (.httpRequest _ _ _ _) => False
  | _ => True

/-- An application that makes only such calls keeps the id, and what is in the log. -/
theorem serve_leavesId {σ α : Type} {recv : Receive σ} {p : Part α}
    (hp : p.Along (fun _ _ => True) Asgi.LeavesId True) (w : World σ) :
    (serve recv p w).2.requestId = w.requestId ∧
      accessLog (serve recv p w).2.logged = accessLog w.logged := by
  have hstep : ∀ (o : Asgi) (s : World σ), o.LeavesId →
      s.requestId = w.requestId ∧ accessLog s.logged = accessLog w.logged →
      (answer recv o s).2.requestId = w.requestId ∧
        accessLog (answer recv o s).2.logged = accessLog w.logged := by
    rintro o s ho ⟨hid, hlog⟩
    rcases o with (_ | m | name) | event | _ | _ | _ | _ | _
    case setRequestId => exact ho.elim
    case log =>
      refine ⟨hid, ?_⟩
      cases event with
      | httpRequest => exact ho.elim
      | _ => exact hlog
    all_goals exact ⟨hid, hlog⟩
  exact Prog.exec_along hstep hp ⟨rfl, rfl⟩

/-! ### The layers around an application -/

variable (fw : Framework) (settings : Settings) (scope : Scope)

/-- An application behind the request context, with the layers around. -/
def contextStack (app : App) : App :=
  serverErrorMiddleware fw (unhandledExceptionHandler fw) settings.app.debug scope
    (if settings.app.corsOrigins = [] then requestContextMiddleware scope app
      else corsMiddleware fw settings.app.corsOrigins scope (requestContextMiddleware scope app))

-- in the application it is the code behind the context
example (endpoint : Endpoint) : createApp fw settings scope endpoint =
    contextStack fw settings scope (behind fw settings scope endpoint) := rfl

variable {σ : Type} (recv : Receive σ)

/-- On the given request, the application starts at most one response, does not set the
request id in it, and leaves the id and the log to the context. -/
structure Compliant (app : App) (w : World σ) : Prop where
  leavesId : app.Along (fun _ _ => True) Asgi.LeavesId True
  once : (starts (serve recv app (w.bound scope)).2.sent).length ≤ 1
  unset : ∀ s ∈ starts (serve recv app (w.bound scope)).2.sent, values s.2 requestIdHeader = []

/-- The application starts a response, or raises. -/
def Answers (app : App) (w : World σ) : Prop :=
  starts (serve recv app (w.bound scope)).2.sent ≠ [] ∨
    ∃ exc, (serve recv app (w.bound scope)).1 = .error exc

/-- One event was logged and one response started; both have the same status and the
same id, which is the one that came in exactly if that looks like an id. -/
def TellsTruth (w w' : World σ) : Prop :=
  ∃ status headers requestId,
    accessLog w'.logged = (scope.method, text scope.path, status, requestId) :: accessLog w.logged ∧
    starts w'.sent = [(status, headers)] ∧
    values headers requestIdHeader = [requestId] ∧
    requestIdMatches requestId = true ∧
    ∀ raw, (values scope.headers requestIdHeader).head? = some raw →
      (requestId = raw ↔ requestIdMatches raw = true)

variable {fw settings scope recv} {app : App} {w : World σ}

/-- The request as it leaves the layers around the context, but for the last. -/
theorem serve_aroundContext (hcors : corsAnswer fw settings scope = none)
    (happ : app.Along (fun _ _ => True) Asgi.LeavesId True) :
    ∃ g : Headers → Headers, (∀ headers, values headers requestIdHeader = [] →
        values (g headers) requestIdHeader = [w.givenId scope]) ∧
      ∃ w', serve recv (if settings.app.corsOrigins = [] then requestContextMiddleware scope app
          else corsMiddleware fw settings.app.corsOrigins scope
            (requestContextMiddleware scope app)) w =
        ((serve recv app (w.bound scope)).1, w') ∧
        w'.requestId = some (w.givenId scope) ∧
        starts w'.sent =
          (starts (serve recv app (w.bound scope)).2.sent).map (fun s => (s.1, g s.2)) ∧
        accessLog w'.logged = (scope.method, text scope.path,
          statusCode (serve recv app (w.bound scope)).2.sent, w.givenId scope) ::
            accessLog w.logged := by
  obtain ⟨f, hf, hserve⟩ :=
    @serve_corsLayer fw settings scope σ recv w hcors (requestContextMiddleware scope app)
  obtain ⟨hid, hlog⟩ := @serve_leavesId σ _ recv app happ (w.bound scope)
  rw [serve_requestContextMiddleware] at hserve
  refine ⟨fun headers => f (setdefault headers requestIdHeader (w.givenId scope)),
    fun headers hnone => ?_, _, hserve, hid, ?_, ?_⟩
  · rw [hf _ _ (by decide), values_setdefault_self, if_pos hnone]
  · dsimp only
    rw [starts_map_sendWithHeaders, starts_map_sendWithHeaders, List.map_map]
    rfl
  · rw [accessLog_cons, hlog]
    rfl

/-- **One event is logged**, whatever the application sends, and however it ends. -/
theorem contextStack_accessLog (hcors : corsAnswer fw settings scope = none)
    (hdebug : settings.app.debug = false)
    (happ : app.Along (fun _ _ => True) Asgi.LeavesId True) :
    accessLog (serve recv (contextStack fw settings scope app) w).2.logged =
      (scope.method, text scope.path, statusCode (serve recv app (w.bound scope)).2.sent,
        w.givenId scope) :: accessLog w.logged := by
  obtain ⟨g, -, w', hserve, hid, -, hlog⟩ :=
    @serve_aroundContext fw settings scope σ recv app w hcors happ
  rw [contextStack, hdebug]
  rcases hout : (serve recv app (w.bound scope)).1 with exc | ⟨⟩
  · rw [hout] at hserve
    rw [serve_serverErrorMiddleware_error hserve
      (serve_unhandledExceptionHandler _ _ (stampable_of_givenId hid)) rfl]
    exact hlog
  · rw [hout] at hserve
    rw [serve_serverErrorMiddleware_ok hserve]
    exact hlog

/-- **A response that was started** reaches the client with the id. -/
theorem starts_contextStack_started (hcors : corsAnswer fw settings scope = none)
    (hdebug : settings.app.debug = false) (happ : Compliant scope recv app w) {status : ℤ}
    {headers : Headers}
    (hstarts : starts (serve recv app (w.bound scope)).2.sent = [(status, headers)]) :
    ∃ headers', starts (serve recv (contextStack fw settings scope app) w).2.sent =
        [(status, headers')] ∧ values headers' requestIdHeader = [w.givenId scope] := by
  obtain ⟨g, hg, w', hserve, hid, hsent, -⟩ :=
    @serve_aroundContext fw settings scope σ recv app w hcors happ.leavesId
  rw [hstarts] at hsent
  have hunset : values headers requestIdHeader = [] :=
    happ.unset (status, headers) (hstarts ▸ List.mem_singleton_self _)
  refine ⟨g headers, ?_, hg headers hunset⟩
  rw [contextStack, hdebug]
  rcases hout : (serve recv app (w.bound scope)).1 with exc | ⟨⟩
  · rw [hout] at hserve
    rw [serve_serverErrorMiddleware_error hserve
      (serve_unhandledExceptionHandler _ _ (stampable_of_givenId hid)) rfl,
      if_neg (by rw [hsent]; exact List.cons_ne_nil _ _), List.append_nil]
    exact hsent
  · rw [hout] at hserve
    rw [serve_serverErrorMiddleware_ok hserve]
    exact hsent

/-- An application that returns in silence: the layers around it say nothing either. -/
theorem starts_contextStack_silent (hcors : corsAnswer fw settings scope = none)
    (happ : app.Along (fun _ _ => True) Asgi.LeavesId True)
    (hstarts : starts (serve recv app (w.bound scope)).2.sent = [])
    (hok : (serve recv app (w.bound scope)).1 = .ok ()) :
    starts (serve recv (contextStack fw settings scope app) w).2.sent = [] := by
  obtain ⟨g, -, w', hserve, -, hsent, -⟩ :=
    @serve_aroundContext fw settings scope σ recv app w hcors happ
  rw [hok] at hserve
  rw [contextStack, serve_serverErrorMiddleware_ok hserve, hsent, hstarts, List.map_nil]

/-- **An exception that comes before the start** is answered with the id from the state
of the request. -/
theorem starts_contextStack_raised (hcors : corsAnswer fw settings scope = none)
    (hdebug : settings.app.debug = false)
    (happ : app.Along (fun _ _ => True) Asgi.LeavesId True) {exc : Exc}
    (hstarts : starts (serve recv app (w.bound scope)).2.sent = [])
    (hraised : (serve recv app (w.bound scope)).1 = .error exc) :
    ∃ headers, starts (serve recv (contextStack fw settings scope app) w).2.sent =
        [(500, headers)] ∧ values headers requestIdHeader = [w.givenId scope] := by
  obtain ⟨g, -, w', hserve, hid, hsent, -⟩ :=
    @serve_aroundContext fw settings scope σ recv app w hcors happ
  rw [hstarts, List.map_nil] at hsent
  rw [hraised] at hserve
  rw [contextStack, hdebug,
    serve_serverErrorMiddleware_error hserve
      (serve_unhandledExceptionHandler _ _ (stampable_of_givenId hid)) rfl,
    if_pos hsent, starts_append, hsent, hid]
  refine ⟨_, rfl, ?_⟩
  have hvalues : values (problemJson fw (internalProblem scope) none
      (some (w.givenId scope))).headers requestIdHeader = _ :=
    values_internalProblem scope (some (w.givenId scope)) (by decide)
  exact hvalues

/-- **The access log tells the truth**: an application that starts a response or raises
leaves one event, with the status and the id of the response that the client gets.  One
that returns in silence leaves an event with the status 500, and no response. -/
theorem access_log_tells_truth (hcors : corsAnswer fw settings scope = none)
    (hdebug : settings.app.debug = false) (happ : Compliant scope recv app w) :
    (Answers scope recv app w →
      TellsTruth scope w (serve recv (contextStack fw settings scope app) w).2) ∧
    (¬ Answers scope recv app w →
      accessLog (serve recv (contextStack fw settings scope app) w).2.logged =
        (scope.method, text scope.path, 500, w.givenId scope) :: accessLog w.logged ∧
      starts (serve recv (contextStack fw settings scope app) w).2.sent = []) := by
  have hlog : accessLog (serve recv (contextStack fw settings scope app) w).2.logged = _ :=
    contextStack_accessLog hcors hdebug happ.leavesId
  have htruth : ∀ status headers,
      statusCode (serve recv app (w.bound scope)).2.sent = status →
      starts (serve recv (contextStack fw settings scope app) w).2.sent = [(status, headers)] →
      values headers requestIdHeader = [w.givenId scope] →
      TellsTruth scope w (serve recv (contextStack fw settings scope app) w).2 := by
    intro status headers hstatus hsent hvalues
    rw [hstatus] at hlog
    exact ⟨status, headers, w.givenId scope, hlog, hsent, hvalues, requestIdMatches_givenId,
      fun raw hraw => givenId_eq_iff hraw⟩
  unfold Answers
  -- by what the application itself has started and how it ended
  rcases hstarts : starts (serve recv app (w.bound scope)).2.sent with _ | ⟨⟨status, headers⟩, rest⟩
  · have hstatus : statusCode (serve recv app (w.bound scope)).2.sent = 500 := by
      rw [statusCode, hstarts]
      rfl
    rcases hout : (serve recv app (w.bound scope)).1 with exc | ⟨⟩
    · obtain ⟨headers, hsent, hvalues⟩ :=
        starts_contextStack_raised hcors hdebug happ.leavesId hstarts hout
      exact ⟨fun _ => htruth 500 headers hstatus hsent hvalues,
        fun hnot => absurd (.inr ⟨exc, rfl⟩) hnot⟩
    · refine ⟨fun h => by simp at h, fun _ => ⟨hstatus ▸ hlog, ?_⟩⟩
      exact starts_contextStack_silent hcors happ.leavesId hstarts hout
  · have honce := happ.once
    rw [hstarts, List.length_cons] at honce
    obtain rfl : rest = [] := List.eq_nil_of_length_eq_zero (by omega)
    obtain ⟨headers', hsent, hvalues⟩ := starts_contextStack_started hcors hdebug happ hstarts
    have hstatus : statusCode (serve recv app (w.bound scope)).2.sent = status := by
      rw [statusCode, hstarts]
      rfl
    exact ⟨fun _ => htruth status headers' hstatus hsent hvalues,
      fun hnot => absurd (.inl (List.cons_ne_nil _ _)) hnot⟩

/-! ### Some applications -/

/-- An application that raises. -/
def raising : App := .raise (.other (text "RuntimeError"))

/-- An application that returns in silence. -/
def silent : App := .pure ()

/-- A request that has an id, on a connection without messages. -/
def tracedRequest : Scope := getRequest "/boom" (text "api")

/-- The log and the client are told the same 500 and the same id if the application raises. -/
theorem access_log_tells_truth_raising :
    TellsTruth tracedRequest (connect [] fun _ => ⟨0⟩)
      (serve client (contextStack plainFramework {} tracedRequest raising)
        (connect [] fun _ => ⟨0⟩)).2 := by
  have hraising : Compliant tracedRequest client raising (connect [] fun _ => ⟨0⟩) :=
    ⟨trivial, Nat.zero_le _, fun s hs => by cases hs⟩
  exact (access_log_tells_truth (by decide) rfl hraising).1 (.inr ⟨_, rfl⟩)

/-- **Nothing is told to the client** by an application that returns in silence. -/
theorem silence_is_logged :
    Compliant tracedRequest client silent (connect [] fun _ => ⟨0⟩) ∧
      ¬ TellsTruth tracedRequest (connect [] fun _ => ⟨0⟩)
        (serve client (contextStack plainFramework {} tracedRequest silent)
          (connect [] fun _ => ⟨0⟩)).2 := by
  refine ⟨⟨trivial, Nat.zero_le _, fun s hs => by cases hs⟩, ?_⟩
  rintro ⟨status, headers, requestId, -, hstarts, -⟩
  cases hstarts

end FastapiStarter.Web
