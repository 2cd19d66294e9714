import FastapiStarter.Middleware

/-!
# What reaches the client

A request is answered by the first layer that does not let it pass; what the inner
layers answer is changed by the outer ones on its way.  Of the application there
remains what the code behind the security headers sends and raises.

## Main definitions

* `corsAnswer`, `hostAnswer` — the answers of the layers that may stop a request.
* `inner`, `behind` — the code behind the security headers, and behind the context.
* `connect`, `request` — the connection on which a request comes in, and its answer.

## Main results

* `sent_of_corsAnswer`, `starts_of_hostAnswer` — a request that is stopped.
* `starts_of_held` — **a response that was started**: its status, and its headers.
* `starts_of_raised` — an exception that comes before.
-/

namespace FastapiStarter.Web

open Interaction

/-! ### Lists of messages -/

theorem starts_map_sendWithHeaders (f : Headers → Headers) (ms : List Message) :
    starts (ms.map (sendWithHeaders f)) = (starts ms).map fun s => (s.1, f s.2) := by
  induction ms with
  | nil => rfl
  | cons m ms ih => cases m <;> simp [starts, sendWithHeaders, ih]

theorem contents_map_sendWithHeaders (f : Headers → Headers) (ms : List Message) :
    contents (ms.map (sendWithHeaders f)) = contents ms := by
  induction ms with
  | nil => rfl
  | cons m ms ih => cases m <;> simp [contents, sendWithHeaders, ih]

theorem heldStart_map_sendWithHeaders (f : Headers → Headers) (ms : List Message) :
    heldStart none (ms.map (sendWithHeaders f)) =
      (heldStart none ms).map fun s => (s.1, f s.2) :=
  heldStart_map (fun _ _ => rfl) (fun m hm => by cases m <;> first | rfl | cases hm) none ms

/-- Fields that a list of headers has not got. -/
theorem values_of_names {headers : Headers} {names : List Str} (h : ∀ h ∈ headers, h.1 ∈ names)
    {name : Str} (hname : name ∉ names) : values headers name = [] := by
  rw [values_eq_nil, List.any_eq_false]
  intro item hitem heq
  exact hname (of_decide_eq_true heq ▸ h item hitem)

/-- **A security header is added when it is missing**, and kept when it is there. -/
theorem values_stampSecurity (hsts : Bool) (headers : Headers) (name : Str) :
    values (stampSecurity hsts headers) name =
      if values headers name = [] then
        (((securityHeaders hsts).find? fun h => h.1 = name).map (·.2)).toList
      else values headers name := by
  unfold stampSecurity
  generalize securityHeaders hsts = defaults
  induction defaults generalizing headers with
  | nil => by_cases h : values headers name = [] <;> simp [h]
  | cons d defaults ih =>
    rw [List.foldl_cons, ih]
    by_cases hname : d.1 = name
    · subst hname
      rw [values_setdefault_self]
      by_cases hnone : values headers d.1 = []
      · simp [hnone]
      · simp [hnone]
    · rw [values_setdefault_of_ne (Ne.symm hname), List.find?_cons_of_neg (by simpa using hname)]

/-! ### The layers -/

section layers

variable (fw : Framework) (settings : Settings) (scope : Scope) (endpoint : Endpoint)

/-- The answer of `CORSMiddleware`, when it is installed and answers itself. -/
def corsAnswer : Option Response :=
  if settings.app.corsOrigins = [] then none else fw.cors settings.app.corsOrigins scope

/-- The answer of `TrustedHostMiddleware`, when it does not let the request pass. -/
def hostAnswer : Option Response := fw.trustedHost settings.app.allowedHosts scope

/-- The code behind the security headers. -/
def inner : App :=
  bodySizeLimitMiddleware settings.app.maxRequestBodyBytes
    (exceptionMiddleware (exceptionHandler fw) scope endpoint.app)

/-- The code behind the request context. -/
def behind : App :=
  trustedHostMiddleware fw settings.app.allowedHosts scope
    (gzipMiddleware fw scope (securityHeadersMiddleware settings.isProduction
      (inner fw settings scope endpoint)))

/-- The connection on which a request comes in. -/
def connect (incoming : List Message) (uuids : ℕ → UUID) : World (List Message) where
  incoming := incoming
  sent := []
  context := none
  requestId := none
  logged := []
  uuids := uuids

/-- One request, answered by the application. -/
def request (incoming : List Message) (uuids : ℕ → UUID) :
    Except Exc Unit × World (List Message) :=
  serve client (createApp fw settings scope endpoint) (connect incoming uuids)

/-- What the code behind the context does with it. -/
def behindContext (incoming : List Message) (uuids : ℕ → UUID) :
    Except Exc Unit × World (List Message) :=
  serve client (behind fw settings scope endpoint) ((connect incoming uuids).bound scope)

/-- What the code behind the security headers does with it. -/
def behindHeaders (incoming : List Message) (uuids : ℕ → UUID) :
    Except Exc Unit × World (List Message) :=
  serve client (inner fw settings scope endpoint) ((connect incoming uuids).bound scope)

theorem quiet_behind : Quiet (behind fw settings scope endpoint) :=
  quiet_trustedHostMiddleware _ _ (quiet_sendMiddleware _ _ (quiet_sendMiddleware _ _
    (quiet_bodySizeLimitMiddleware _ (quiet_exceptionMiddleware _ (quiet_endpoint endpoint)))))

/-- What the endpoint does, in a world in which the request has its id. -/
def endpointRun {σ : Type} (recv : Receive σ) (w : World σ) :
    Except Exc Unit × World (ℤ × σ) :=
  serve (recv.behind (limitedReceive settings.app.maxRequestBodyBytes)) endpoint.app (w.behind 0)

/-- What it does with a request that comes in. -/
def atEndpoint (incoming : List Message) (uuids : ℕ → UUID) :
    Except Exc Unit × World (ℤ × List Message) :=
  endpointRun settings endpoint client ((connect incoming uuids).bound scope)

/-- The endpoint has raised an exception that nothing answers: no handler can, or it
comes when the response has started. -/
def Unanswered {σ : Type} (r : Except Exc Unit × World σ) : Prop :=
  ∃ exc, r.1 = .error exc ∧ (exc.answerable = false ∨ starts r.2.sent ≠ [])

variable {fw settings scope endpoint} {σ : Type} {recv : Receive σ} {w : World σ}

/-- The response to an exception that has a handler. -/
def handledAnswer (fw : Framework) (scope : Scope) (exc : Exc) (requestId : Option Str) :
    Response :=
  problemJson fw (problemOf fw scope exc).1 (problemOf fw scope exc).2 requestId

/-- **The code behind the security headers**: what the endpoint sends goes on; if it
raises, a handler answers, or an exception goes on too. -/
theorem serve_inner (hid : w.Stampable) :
    let r := endpointRun settings endpoint recv w
    let i := serve recv (inner fw settings scope endpoint) w
    (r.1 = .ok () ∧ i.1 = .ok () ∧ i.2.sent = r.2.sent) ∨
      (∃ exc, r.1 = .error exc ∧ exc.answerable = true ∧ starts r.2.sent = [] ∧
        i.1 = .ok () ∧
        i.2.sent = r.2.sent ++ (handledAnswer fw scope exc r.2.requestId).messages) ∨
      (Unanswered r ∧ (∃ exc, i.1 = .error exc) ∧ i.2.sent = r.2.sent) := by
  have hkeeps : (w.behind 0).Keeps (endpointRun settings endpoint recv w).2 :=
    serve_quiet (quiet_endpoint endpoint) _
  rcases hr : endpointRun settings endpoint recv w with ⟨outcome, w'⟩
  rw [hr] at hkeeps
  simp only [inner, serve_bodySizeLimitMiddleware]
  rcases outcome with exc | ⟨⟩
  · -- no handler, a handler in time, or a handler after the response has started
    rcases hlookup : exceptionHandler fw exc with _ | handler
    · rw [serve_exceptionMiddleware_unhandled hlookup hr]
      refine .inr (.inr ⟨⟨exc, rfl, .inl ?_⟩, ⟨exc, rfl⟩, rfl⟩)
      by_contra hans
      obtain ⟨handler, hsome⟩ := @exceptionHandler_of_answerable fw exc (by simpa using hans)
      cases hlookup.symm.trans hsome
    · by_cases hstarts : starts w'.sent = []
      · have hid' : w'.Stampable := fun id h => hid id (hkeeps.requestId ▸ h)
        obtain ⟨w'', hsent, hhandler⟩ := serve_exceptionHandler hlookup hid'
        cases hans : exc.answerable with
        | true =>
          rw [hans, if_pos rfl] at hhandler
          rw [serve_exceptionMiddleware_handled hlookup hr hstarts hhandler hsent]
          exact .inr (.inl ⟨exc, rfl, hans, hstarts, rfl, rfl⟩)
        | false =>
          rw [hans] at hhandler
          obtain ⟨exc', hraised⟩ := hhandler
          rw [serve_exceptionMiddleware_failed hlookup hr hstarts hraised]
          refine .inr (.inr ⟨⟨exc, rfl, .inl hans⟩, ⟨exc', rfl⟩, ?_⟩)
          simp [World.front, World.after, hsent]
      · rw [serve_exceptionMiddleware_late hlookup hr hstarts]
        exact .inr (.inr ⟨⟨exc, rfl, .inr hstarts⟩, ⟨_, rfl⟩, rfl⟩)
  · rw [serve_exceptionMiddleware_ok hr]
    exact .inl ⟨rfl, rfl, rfl⟩

/-- What leaves the code behind the security headers is unanswered. -/
theorem unanswered_of_error (hid : w.Stampable) {exc : Exc}
    (h : (serve recv (inner fw settings scope endpoint) w).1 = .error exc) :
    Unanswered (endpointRun settings endpoint recv w) := by
  rcases @serve_inner fw settings scope endpoint _ recv w hid with
    ⟨-, hret, -⟩ | ⟨_, -, -, -, hret, -⟩ | ⟨hun, -, -⟩
  · cases hret.symm.trans h
  · cases hret.symm.trans h
  · exact hun

/-- What is unanswered leaves it, and nothing is added to what was sent. -/
theorem serve_inner_of_unanswered (hid : w.Stampable)
    (h : Unanswered (endpointRun settings endpoint recv w)) :
    (∃ exc, (serve recv (inner fw settings scope endpoint) w).1 = .error exc) ∧
      (serve recv (inner fw settings scope endpoint) w).2.sent =
        (endpointRun settings endpoint recv w).2.sent := by
  obtain ⟨exc, hexc, hnot⟩ := h
  rcases @serve_inner fw settings scope endpoint _ recv w hid with
    ⟨hr, -, -⟩ | ⟨exc', hr, hans, hnil, -, -⟩ | ⟨-, hret, hsent⟩
  · cases hr.symm.trans hexc
  · cases hr.symm.trans hexc
    rcases hnot with hnone | hstarts
    · cases hans.symm.trans hnone
    · exact absurd hnil hstarts
  · exact ⟨hret, hsent⟩

/-- `CORSMiddleware`, installed or not, adds headers of its own to what passes. -/
theorem serve_corsLayer (hcors : corsAnswer fw settings scope = none) (app : App) :
    ∃ f : Headers → Headers, (∀ headers name, name ∉ corsNames →
        values (f headers) name = values headers name) ∧
      serve recv (if settings.app.corsOrigins = [] then app
          else corsMiddleware fw settings.app.corsOrigins scope app) w =
        ((serve recv app w).1, { (serve recv app w).2 with
          sent := (serve recv app w).2.sent.map (sendWithHeaders f) }) := by
  unfold corsAnswer at hcors
  by_cases horigins : settings.app.corsOrigins = []
  · refine ⟨id, fun _ _ _ => rfl, ?_⟩
    have hid : sendWithHeaders id = id := by
      funext m
      cases m <;> rfl
    simp only [horigins, if_true, hid, List.map_id]
  · rw [if_neg horigins] at hcors
    refine ⟨fw.corsHeaders settings.app.corsOrigins scope,
      fun headers name => fw.corsHeaders_values _ _ _ _, ?_⟩
    simp only [horigins, if_false, corsMiddleware, hcors]
    exact serve_sendWithHeaders _ _ _

/-- What the middlewares send is what is sent behind them, with other headers. -/
theorem serve_setupMiddleware (hcors : corsAnswer fw settings scope = none) :
    ∃ f : Headers → Headers, (∀ headers name, name ∉ corsNames →
        values (f headers) name = values headers name) ∧
      serve recv (setupMiddleware fw settings scope
          (exceptionMiddleware (exceptionHandler fw) scope endpoint.app)) w =
        let r := serve recv (requestContextMiddleware scope (behind fw settings scope endpoint)) w
        (r.1, { r.2 with sent := r.2.sent.map (sendWithHeaders f) }) :=
  serve_corsLayer hcors (requestContextMiddleware scope (behind fw settings scope endpoint))

/-- The response that `ServerErrorMiddleware` sends for an exception. -/
def lastAnswer (fw : Framework) (settings : Settings) (scope : Scope) (exc : Exc)
    (requestId : Option Str) : Response :=
  if settings.app.debug then fw.debugResponse scope exc
  else problemJson fw (internalProblem scope) none requestId

/-- An exception that leaves every middleware. -/
theorem sent_of_error {exc : Exc} {w' : World σ} (hid : w'.Stampable)
    (h : serve recv (setupMiddleware fw settings scope
      (exceptionMiddleware (exceptionHandler fw) scope endpoint.app)) w = (.error exc, w')) :
    (serve recv (createApp fw settings scope endpoint) w).2.sent = w'.sent ++
      if starts w'.sent = [] then (lastAnswer fw settings scope exc w'.requestId).messages
      else [] := by
  unfold createApp lastAnswer
  by_cases hdebug : settings.app.debug = true
  · rw [hdebug, serve_serverErrorMiddleware_debug h]
    rfl
  · rw [Bool.not_eq_true] at hdebug
    rw [hdebug, serve_serverErrorMiddleware_error h (serve_unhandledExceptionHandler _ _ hid) rfl]
    rfl

/-- The handler logs it when the context is gone; in debug mode it does not run. -/
theorem logged_of_error {exc : Exc} {w' : World σ} (hid : w'.Stampable)
    (h : serve recv (setupMiddleware fw settings scope
      (exceptionMiddleware (exceptionHandler fw) scope endpoint.app)) w = (.error exc, w')) :
    (serve recv (createApp fw settings scope endpoint) w).2.logged =
      if settings.app.debug then w'.logged
      else ⟨.unhandledError exc.name scope.method (text scope.path), w'.context⟩ :: w'.logged := by
  unfold createApp
  by_cases hdebug : settings.app.debug = true
  · rw [hdebug, serve_serverErrorMiddleware_debug h]
    rfl
  · rw [Bool.not_eq_true] at hdebug
    rw [hdebug, serve_serverErrorMiddleware_error h (serve_unhandledExceptionHandler _ _ hid) rfl]
    rfl

theorem logged_of_ok {w' : World σ} (h : serve recv (setupMiddleware fw settings scope
      (exceptionMiddleware (exceptionHandler fw) scope endpoint.app)) w = (.ok (), w')) :
    (serve recv (createApp fw settings scope endpoint) w).2.logged = w'.logged := by
  rw [createApp, serve_serverErrorMiddleware_ok h]

theorem sent_of_ok {w' : World σ} (h : serve recv (setupMiddleware fw settings scope
      (exceptionMiddleware (exceptionHandler fw) scope endpoint.app)) w = (.ok (), w')) :
    (serve recv (createApp fw settings scope endpoint) w).2.sent = w'.sent := by
  rw [createApp, serve_serverErrorMiddleware_ok h]

/-! ### Requests that are stopped -/

/-- `CORSMiddleware` answers outside of all other middlewares. -/
theorem sent_of_corsAnswer {response : Response}
    (hcors : corsAnswer fw settings scope = some response) :
    (serve recv (createApp fw settings scope endpoint) w).2.sent = response.messages := by
  unfold corsAnswer at hcors
  by_cases horigins : settings.app.corsOrigins = []
  · rw [if_pos horigins] at hcors
    cases hcors
  · rw [if_neg horigins] at hcors
    have hserve : serve recv (setupMiddleware fw settings scope
        (exceptionMiddleware (exceptionHandler fw) scope endpoint.app)) w =
        (.ok (), { w with sent := response.messages }) := by
      simp only [setupMiddleware, horigins, if_false, corsMiddleware, hcors]
      exact serve_send response w
    exact sent_of_ok hserve

/-! ### Requests that reach the context -/

/-- **A request that reaches the context**: the code behind it answers, with the
request id in what it logs and in the response. -/
theorem serve_behind (hcors : corsAnswer fw settings scope = none) :
    ∃ g : Headers → Headers, (∀ headers name, name ∉ corsNames →
        values (g headers) name =
          values (setdefault headers requestIdHeader (w.givenId scope)) name) ∧
      ∃ w', serve recv (setupMiddleware fw settings scope
          (exceptionMiddleware (exceptionHandler fw) scope endpoint.app)) w =
        ((serve recv (behind fw settings scope endpoint) (w.bound scope)).1, w') ∧
        w'.sent = (serve recv (behind fw settings scope endpoint) (w.bound scope)).2.sent.map
          (sendWithHeaders g) ∧
        w'.requestId = some (w.givenId scope) ∧ w'.context = none ∧
        ∃ status new, w'.logged = ⟨.httpRequest scope.method (text scope.path) status
            (w.givenId scope),
            some (w.givenId scope)⟩ :: (new ++ w.logged) ∧
          ∀ r ∈ new, r.requestId = some (w.givenId scope) := by
  obtain ⟨f, hf, hserve⟩ := @serve_setupMiddleware fw settings scope endpoint σ recv w hcors
  rw [serve_requestContextMiddleware] at hserve
  have hkeeps : (w.bound scope).Keeps
      (serve recv (behind fw settings scope endpoint) (w.bound scope)).2 :=
    serve_quiet (quiet_behind fw settings scope endpoint) _
  generalize serve recv (behind fw settings scope endpoint) (w.bound scope) = b at *
  obtain ⟨hcontext, hid, new, hnew, hall⟩ := hkeeps
  refine ⟨fun headers => f (setdefault headers requestIdHeader (w.givenId scope)),
    fun headers name hname => hf _ name hname, _, hserve, ?_, hid, rfl,
    statusCode b.2.sent, new, ?_, hall⟩
  · simp only [List.map_map]
    refine List.map_congr_left fun m _ => ?_
    cases m <;> rfl
  · simp only [hcontext, hnew]
    rfl

/-- `TrustedHostMiddleware` answers behind the context. -/
theorem starts_of_hostAnswer {response : Response} (hcors : corsAnswer fw settings scope = none)
    (hhost : hostAnswer fw settings scope = some response) :
    ∃ g : Headers → Headers, (∀ headers name, name ∉ corsNames →
        values (g headers) name =
          values (setdefault headers requestIdHeader (w.givenId scope)) name) ∧
      starts (serve recv (createApp fw settings scope endpoint) w).2.sent =
        [(response.status, g response.headers)] ∧
      contents (serve recv (createApp fw settings scope endpoint) w).2.sent =
        [response.content] := by
  have hbehind : serve recv (behind fw settings scope endpoint) (w.bound scope) =
      (.ok (), { w.bound scope with sent := response.messages }) := by
    unfold hostAnswer at hhost
    rw [behind, trustedHostMiddleware, hhost]
    exact serve_send response _
  obtain ⟨g, hg, w', hserve, hsent, -⟩ := @serve_behind fw settings scope endpoint σ recv w hcors
  rw [hbehind] at hserve hsent
  rw [sent_of_ok hserve, hsent, starts_map_sendWithHeaders, contents_map_sendWithHeaders]
  exact ⟨g, hg, rfl, rfl⟩

/-- What the code behind the context does with a request that passes. -/
theorem serve_behind_inner (hhost : hostAnswer fw settings scope = none) :
    (serve recv (behind fw settings scope endpoint) w).1 =
        (serve recv (inner fw settings scope endpoint) w).1 ∧
      (serve recv (behind fw settings scope endpoint) w).2.sent =
        fw.gzipped scope ((serve recv (inner fw settings scope endpoint) w).2.sent.map
          (sendWithHeaders (stampSecurity settings.isProduction))) := by
  unfold hostAnswer at hhost
  rw [behind, trustedHostMiddleware, hhost]
  rw [gzipMiddleware, serve_sendMiddleware, securityHeadersMiddleware, serve_sendWithHeaders]
  exact ⟨rfl, rfl⟩

/-- Default values do not see a difference in other fields. -/
theorem values_setdefault_congr {headers headers' : Headers} {names : List Str} {name value : Str}
    (h : ∀ name ∉ names, values headers name = values headers' name) (hname : name ∉ names) :
    ∀ name' ∉ names, values (setdefault headers name value) name' =
      values (setdefault headers' name value) name' := by
  intro name' hname'
  rw [values_setdefault, values_setdefault, h name hname, h name' hname']

section passes

variable (hcors : corsAnswer fw settings scope = none)
  (hhost : hostAnswer fw settings scope = none)

include hcors hhost

/-- **A response that was started** reaches the client with its status and its body,
and with the security headers and the request id that it had not set. -/
theorem starts_of_held {status : ℤ} {headers : Headers}
    (hheld : heldStart none
      (serve recv (inner fw settings scope endpoint) (w.bound scope)).2.sent =
        some (status, headers)) :
    ∃ headers', starts (serve recv (createApp fw settings scope endpoint) w).2.sent =
        [(status, headers')] ∧
      contents (serve recv (createApp fw settings scope endpoint) w).2.sent =
        contents (serve recv (inner fw settings scope endpoint) (w.bound scope)).2.sent ∧
      ∀ name ∉ gzipNames, name ∉ corsNames → values headers' name =
        values (setdefault (stampSecurity settings.isProduction headers) requestIdHeader
          (w.givenId scope)) name := by
  obtain ⟨hret, hsent⟩ := @serve_behind_inner fw settings scope endpoint σ recv
    (w.bound scope) hhost
  obtain ⟨g, hg, w', hserve, hsent', hid, -⟩ :=
    @serve_behind fw settings scope endpoint σ recv w hcors
  rw [hsent] at hsent'
  -- from the inside out: security headers, compression, CORS, request id
  have hstamped := heldStart_map_sendWithHeaders (stampSecurity settings.isProduction)
    (serve recv (inner fw settings scope endpoint) (w.bound scope)).2.sent
  rw [hheld] at hstamped
  obtain ⟨headers₁, hstarts, hvalues⟩ := @Framework.starts_gzipped fw scope _ _ _ hstamped
  have hstarts' : starts w'.sent = [(status, g headers₁)] := by
    rw [hsent', starts_map_sendWithHeaders, hstarts]
    rfl
  have hcontents : contents w'.sent =
      contents (serve recv (inner fw settings scope endpoint) (w.bound scope)).2.sent := by
    rw [hsent', contents_map_sendWithHeaders, fw.contents_gzipped (by rw [hstamped]; rfl),
      contents_map_sendWithHeaders]
  have hfinal : (serve recv (createApp fw settings scope endpoint) w).2.sent = w'.sent := by
    rcases hx : (serve recv (behind fw settings scope endpoint) (w.bound scope)).1 with exc | ⟨⟩
    · rw [hx] at hserve
      rw [sent_of_error (stampable_of_givenId hid) hserve, hstarts']
      simp
    · rw [hx] at hserve
      exact sent_of_ok hserve
  rw [hfinal]
  refine ⟨g headers₁, hstarts', hcontents, fun name hgzip hcorsName => ?_⟩
  rw [hg _ _ hcorsName]
  exact values_setdefault_congr hvalues (by decide) name hgzip

/-- Nothing leaves the middlewares when no start is held. -/
theorem serve_of_unheld
    (hheld : heldStart none
      (serve recv (inner fw settings scope endpoint) (w.bound scope)).2.sent = none) :
    ∃ w', serve recv (setupMiddleware fw settings scope
        (exceptionMiddleware (exceptionHandler fw) scope endpoint.app)) w =
      ((serve recv (inner fw settings scope endpoint) (w.bound scope)).1, w') ∧
      starts w'.sent = [] ∧ contents w'.sent = [] ∧ w'.requestId = some (w.givenId scope) := by
  obtain ⟨hret, hsent⟩ := @serve_behind_inner fw settings scope endpoint σ recv
    (w.bound scope) hhost
  obtain ⟨g, -, w', hserve, hsent', hid, -⟩ :=
    @serve_behind fw settings scope endpoint σ recv w hcors
  rw [hret] at hserve
  rw [hsent] at hsent'
  have hstamped := heldStart_map_sendWithHeaders (stampSecurity settings.isProduction)
    (serve recv (inner fw settings scope endpoint) (w.bound scope)).2.sent
  rw [hheld] at hstamped
  refine ⟨w', hserve, ?_, ?_, hid⟩
  · rw [hsent', starts_map_sendWithHeaders, fw.starts_gzipped_none hstamped]
    rfl
  · rw [hsent', contents_map_sendWithHeaders, fw.contents_gzipped_none hstamped]

/-- Without a start there is no response, unless an exception is left. -/
theorem starts_of_ok
    (hheld : heldStart none
      (serve recv (inner fw settings scope endpoint) (w.bound scope)).2.sent = none)
    (hok : (serve recv (inner fw settings scope endpoint) (w.bound scope)).1 = .ok ()) :
    starts (serve recv (createApp fw settings scope endpoint) w).2.sent = [] := by
  obtain ⟨w', hserve, hstarts, -⟩ := serve_of_unheld hcors hhost hheld
  rw [hok] at hserve
  rw [sent_of_ok hserve]
  exact hstarts

/-- **An exception that comes before the response** is answered outside of every
middleware. -/
theorem starts_of_raised {exc : Exc}
    (hheld : heldStart none
      (serve recv (inner fw settings scope endpoint) (w.bound scope)).2.sent = none)
    (hraised : (serve recv (inner fw settings scope endpoint) (w.bound scope)).1 = .error exc) :
    let last := lastAnswer fw settings scope exc (some (w.givenId scope))
    starts (serve recv (createApp fw settings scope endpoint) w).2.sent =
        [(last.status, last.headers)] ∧
      contents (serve recv (createApp fw settings scope endpoint) w).2.sent = [last.content] := by
  obtain ⟨w', hserve, hstarts, hcontents, hid⟩ := serve_of_unheld hcors hhost hheld
  rw [hraised] at hserve
  rw [sent_of_error (stampable_of_givenId hid) hserve, if_pos hstarts, hid, starts_append,
    contents_append, hstarts, hcontents]
  exact ⟨rfl, rfl⟩

end passes

end layers

/-! ### Some requests -/

/-- A production configuration for one host and one origin. -/
def productionSettings : Settings where
  environment := .production
  app := { corsOrigins := [text "https://app"], allowedHosts := [text "api"] }
  jwt := { defaultJwtSettings with secret := text "0123456789abcdef0123456789abcdef" }

theorem productionSettings_accepted : productionSettings.Accepted :=
  Settings.accepted_of_problems (by decide +kernel)

/-- A request for a path from a host, with a request id. -/
def getRequest (path : String) (host : Str) : Scope where
  method := text "GET"
  path := path
  headers := [(text "host", host), (requestIdHeader, text "trace-42")]

/-- An endpoint that sends a response. -/
def answering (response : Response) : Endpoint := do
  let _ ← Prog.op (Wire.send (.start response.status response.headers))
  Prog.op (Wire.send (.body response.content false))

end FastapiStarter.Web
