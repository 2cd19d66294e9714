import FastapiStarter.Problems

/-!
# The middleware stack

The application is an endpoint under seven middlewares, between the two of the
framework that turn exceptions into responses.

## Main definitions

* `requestContextMiddleware` — binds the request id and writes the access log.
* `securityHeadersMiddleware`, `bodySizeLimitMiddleware` — headers, and the cap.
* `corsMiddleware`, `trustedHostMiddleware`, `gzipMiddleware` — those taken as they come.
* `setupMiddleware`, `createApp` — the order of the layers.

## Main results

* `serve_sendMiddleware`, `serve_requestContextMiddleware`, `serve_bodySizeLimitMiddleware` —
  what one layer does.
* `serve_exceptionMiddleware_handled` and its companions — what becomes of an exception.
-/

namespace FastapiStarter.Web

open Interaction

/-! ### The request context -/

/-- `REQUEST_ID_HEADER`, in lower case. -/
def requestIdHeader : Str := text "x-request-id"

/-- `[A-Za-z0-9._\-]`. -/
def isRequestIdChar (c : CodePoint) : Bool :=
  (65 ≤ c.val && c.val ≤ 90) || (97 ≤ c.val && c.val ≤ 122) || (48 ≤ c.val && c.val ≤ 57) ||
    c == ch '.' || c == ch '_' || c == ch '-'

/-- `_REQUEST_ID_RE.fullmatch(raw)`. -/
def requestIdMatches (raw : Str) : Bool :=
  1 ≤ raw.length && raw.length ≤ 64 && raw.all isRequestIdChar

/-- `_resolve_request_id`. -/
def resolveRequestId (raw : Option Str) : Part Str :=
  match raw with
  | some raw =>
    if requestIdMatches raw then return raw
    else do
      let id ← Prog.op .uuid4
      return UUID.str id
  | none => do
    let id ← Prog.op .uuid4
    return UUID.str id

/-- `send_with_request_id`, with the variable `status_code`. -/
def sendWithRequestId (requestId : Str) (statusCode : ℤ) : Message → List Message × ℤ
  | .start status headers =>
    ([.start status (setdefault headers requestIdHeader requestId)], status)
  | m => ([m], statusCode)

/-- `RequestContextMiddleware`. -/
def requestContextMiddleware (scope : Scope) (app : App) : App := do
  let requestId ← resolveRequestId (values scope.headers requestIdHeader).head?
  let _ ← Prog.op (.setRequestId requestId)
  let _ ← Prog.op (.bindContextvars requestId)
  let (outcome, statusCode) ← wrapSend (sendWithRequestId requestId) app 500
  let _ ← Prog.op (.log (.httpRequest scope.method (text scope.path) statusCode requestId))
  let _ ← Prog.op .clearContextvars
  reraise outcome

/-! ### The other middlewares -/

/-- A middleware that replaces `send`, with a variable. -/
def sendMiddleware {ℓ : Type} (h : ℓ → Message → List Message × ℓ) (l : ℓ) (app : App) : App := do
  let r ← wrapSend h app l
  reraise r.1

/-- The security headers, with their defaults. -/
def securityHeaders (hsts : Bool) : List (Str × Str) :=
  [(text "x-content-type-options", text "nosniff"), (text "x-frame-options", text "DENY"),
    (text "referrer-policy", text "no-referrer"),
    (text "permissions-policy", text "geolocation=(), camera=(), microphone=()")] ++
  if hsts then [(text "strict-transport-security", text "max-age=63072000; includeSubDomains")]
  else []

/-- The headers, with the security headers that are missing. -/
def stampSecurity (hsts : Bool) (headers : Headers) : Headers :=
  (securityHeaders hsts).foldl (fun hs h => setdefault hs h.1 h.2) headers

/-- `send_with_headers`. -/
def sendWithHeaders (f : Headers → Headers) : Message → Message
  | .start status headers => .start status (f headers)
  | m => m

/-- `SecurityHeadersMiddleware`. -/
def securityHeadersMiddleware (hsts : Bool) : App → App :=
  sendMiddleware (fun _ m => ([sendWithHeaders (stampSecurity hsts) m], ())) ()

/-- `limited_receive`, with the variable `received`. -/
def limitedReceive (maxBytes : ℤ) (received : ℤ) : Message → Except Exc Message × ℤ
  | .request body moreBody =>
    if maxBytes < received + body.length then
      (.error (.http 413 (some (text "Request body too large.")) none), received + body.length)
    else (.ok (.request body moreBody), received + body.length)
  | m => (.ok m, received)

/-- `BodySizeLimitMiddleware`. -/
def bodySizeLimitMiddleware (maxBytes : ℤ) (app : App) : App := do
  let r ← wrapReceive (limitedReceive maxBytes) app 0
  reraise r.1

variable (fw : Framework)

/-- `GZipMiddleware`. -/
def gzipMiddleware (scope : Scope) : App → App :=
  sendMiddleware (fun past m => (fw.gzip scope past m, past ++ [m])) []

/-- `TrustedHostMiddleware`. -/
def trustedHostMiddleware (allowedHosts : List Str) (scope : Scope) (app : App) : App :=
  match fw.trustedHost allowedHosts scope with
  | some response => response.send
  | none => app

/-- `CORSMiddleware`. -/
def corsMiddleware (origins : List Str) (scope : Scope) (app : App) : App :=
  match fw.cors origins scope with
  | some response => response.send
  | none =>
    sendMiddleware (fun _ m => ([sendWithHeaders (fw.corsHeaders origins scope) m], ())) () app

/-! ### The application -/

/-- `setup_middleware`: the middleware that is added last is the outermost. -/
def setupMiddleware (settings : Settings) (scope : Scope) (app : App) : App :=
  let app := bodySizeLimitMiddleware settings.app.maxRequestBodyBytes app
  let app := securityHeadersMiddleware settings.isProduction app
  let app := gzipMiddleware fw scope app
  let app := trustedHostMiddleware fw settings.app.allowedHosts scope app
  let app := requestContextMiddleware scope app
  if settings.app.corsOrigins = [] then app
  else corsMiddleware fw settings.app.corsOrigins scope app

/-- `create_app`, on one request: the handler for `Exception` goes to the outermost
middleware, the others to the innermost. -/
def createApp (settings : Settings) (scope : Scope) (endpoint : Endpoint) : App :=
  serverErrorMiddleware fw (unhandledExceptionHandler fw) settings.app.debug scope
    (setupMiddleware fw settings scope
      (exceptionMiddleware (exceptionHandler fw) scope endpoint.app))

/-! ### One layer -/

variable {fw} {σ ℓ : Type} {recv : Receive σ}

/-- A layer that raises again what the inner application has raised. -/
theorem serve_reraised {p : Part (Except Exc Unit × ℓ)} {x : Except Exc Unit} {l : ℓ}
    {w w' : World σ} (h : serve recv p w = (.ok (x, l), w')) :
    serve recv (p >>= fun r => reraise r.1) w = (x, w') := by
  rw [serve_bind, h]
  simp only [serve_reraise, fresh_after]

theorem serve_sendMiddleware (h : ℓ → Message → List Message × ℓ) (l : ℓ) (app : App)
    (w : World σ) : serve recv (sendMiddleware h l app) w =
      ((serve recv app w).1,
        { (serve recv app w).2 with sent := (through h l (serve recv app w).2.sent).1 }) :=
  serve_reraised (serve_wrapSend h app l w)

/-- A middleware that changes the headers of the response. -/
theorem serve_sendWithHeaders (f : Headers → Headers) (app : App) (w : World σ) :
    serve recv (sendMiddleware (fun _ m => ([sendWithHeaders f m], ())) () app) w =
      ((serve recv app w).1, { (serve recv app w).2 with
        sent := (serve recv app w).2.sent.map (sendWithHeaders f) }) := by
  rw [serve_sendMiddleware, through_map]

theorem serve_bodySizeLimitMiddleware (maxBytes : ℤ) (app : App) (w : World σ) :
    serve recv (bodySizeLimitMiddleware maxBytes app) w =
      ((serve (recv.behind (limitedReceive maxBytes)) app (w.behind 0)).1,
        (serve (recv.behind (limitedReceive maxBytes)) app (w.behind 0)).2.front) :=
  serve_reraised (serve_wrapReceive (limitedReceive maxBytes) app 0 w)

/-! ### The request context -/

/-- The id that a request is given. -/
def World.givenId (w : World σ) (scope : Scope) : Str :=
  match (values scope.headers requestIdHeader).head? with
  | some raw => if requestIdMatches raw then raw else (w.uuids 0).str
  | none => (w.uuids 0).str

/-- The world in which the request has its id. -/
def World.bound (w : World σ) (scope : Scope) : World σ :=
  { w.fresh with
    context := some (w.givenId scope)
    requestId := some (w.givenId scope)
    uuids :=
      match (values scope.headers requestIdHeader).head? with
      | some raw => if requestIdMatches raw then w.uuids else fun n => w.uuids (n + 1)
      | none => fun n => w.uuids (n + 1) }

/-- A random id looks like an id. -/
theorem requestIdMatches_str (u : UUID) : requestIdMatches u.str = true := by
  have hlength : u.str.length = 36 := by simp [UUID.str]
  have hall : u.str.all isRequestIdChar = true := by
    rw [List.all_eq_true]
    intro c hc
    rcases UUID.mem_str hc with hhex | rfl
    · have hrange := mem_hexPad hhex
      have hchar : 97 ≤ c.val ∧ c.val ≤ 122 ∨ 48 ≤ c.val ∧ c.val ≤ 57 := by omega
      rcases hchar with ⟨hlo, hhi⟩ | ⟨hlo, hhi⟩ <;> simp [isRequestIdChar, hlo, hhi]
    · decide
  simp [requestIdMatches, hlength, hall]

theorem requestIdMatches_givenId {scope : Scope} {w : World σ} :
    requestIdMatches (w.givenId scope) = true := by
  unfold World.givenId
  split
  · split
    · assumption
    · exact requestIdMatches_str _
  · exact requestIdMatches_str _

/-- What looks like an id can be sent in a header. -/
theorem isLatin1_of_requestIdMatches {raw : Str} (h : requestIdMatches raw = true) :
    raw.isLatin1 = true := by
  have hall : raw.all isRequestIdChar = true := (Bool.and_eq_true_iff.mp h).2
  rw [Str.isLatin1, List.all_eq_true]
  intro c hc
  have hchar := List.all_eq_true.mp hall c hc
  have hval : ∀ d : Char, d.toNat < 256 → c = ch d → c.val < 256 := by
    rintro d hd rfl
    exact (Nat.mod_le _ _).trans_lt hd
  simp only [isRequestIdChar, Bool.or_eq_true, Bool.and_eq_true, decide_eq_true_eq, beq_iff_eq]
    at hchar
  rw [decide_eq_true_eq]
  rcases hchar with ((((hletter | hletter) | hdigit) | hdot) | hlow) | hdash
  · omega
  · omega
  · omega
  · exact hval '.' (by decide) hdot
  · exact hval '_' (by decide) hlow
  · exact hval '-' (by decide) hdash

/-- The request context gives an id that can be sent in a header. -/
theorem stampable_of_givenId {scope : Scope} {w w' : World σ}
    (h : w'.requestId = some (w.givenId scope)) : w'.Stampable := by
  intro id hid
  rw [h] at hid
  rw [← Option.some.inj hid]
  exact isLatin1_of_requestIdMatches requestIdMatches_givenId

theorem stampable_bound {scope : Scope} {w : World σ} : (w.bound scope).Stampable :=
  stampable_of_givenId rfl

/-- The status that the access log reports. -/
def statusCode : List Message → ℤ
  | ms => ((starts ms).getLast?.map (·.1)).getD 500

theorem through_sendWithRequestId (requestId : Str) (status : ℤ) (ms : List Message) :
    through (sendWithRequestId requestId) status ms =
      (ms.map (sendWithHeaders fun hs => setdefault hs requestIdHeader requestId),
        ((starts ms).getLast?.map (·.1)).getD status) := by
  induction ms generalizing status with
  | nil => rfl
  | cons m ms ih =>
    cases m with
    | start status' headers =>
      rw [through, ih]
      rcases hlast : (starts ms).getLast? with _ | s
      · simp [sendWithRequestId, sendWithHeaders, starts, List.getLast?_cons, hlast]
      · simp [sendWithRequestId, sendWithHeaders, starts, List.getLast?_cons, hlast]
    | _ =>
      rw [through, ih]
      simp [sendWithRequestId, sendWithHeaders, starts]

/-- The id is given before the inner application runs. -/
theorem serve_givenId (scope : Scope) (k : Str → App) (w : World σ) :
    serve recv (do
      let requestId ← resolveRequestId (values scope.headers requestIdHeader).head?
      let _ ← Prog.op (.setRequestId requestId)
      let _ ← Prog.op (.bindContextvars requestId)
      k requestId) w = serve recv (k (w.givenId scope)) (w.bound scope) := by
  unfold World.givenId World.bound World.givenId resolveRequestId
  rcases (values scope.headers requestIdHeader).head? with _ | raw
  · rfl
  · by_cases hraw : requestIdMatches raw = true
    · simp only [hraw, if_true]
      rfl
    · simp only [hraw]
      rfl

/-- The access log is written, and the context cleared, before the exception goes on. -/
theorem serve_finally (event : LogEvent) (x : Except Exc Unit) (w : World σ) :
    serve recv (do
      let _ ← Prog.op (.log event)
      let _ ← Prog.op .clearContextvars
      reraise x) w =
      (x, { w.fresh with logged := ⟨event, w.context⟩ :: w.logged, context := none }) := by
  rcases x with exc | ⟨⟩ <;> rfl

/-- **The request context**: the request has an id while it is answered, the access
log has it too, and then it is gone. -/
theorem serve_requestContextMiddleware (scope : Scope) (app : App) (w : World σ) :
    serve recv (requestContextMiddleware scope app) w =
      ((serve recv app (w.bound scope)).1, { (serve recv app (w.bound scope)).2 with
        sent := (serve recv app (w.bound scope)).2.sent.map
          (sendWithHeaders fun hs => setdefault hs requestIdHeader (w.givenId scope))
        logged := ⟨.httpRequest scope.method (text scope.path)
          (statusCode (serve recv app (w.bound scope)).2.sent) (w.givenId scope),
            (serve recv app (w.bound scope)).2.context⟩ :: (serve recv app (w.bound scope)).2.logged
        context := none }) := by
  have hwrap : serve recv (wrapSend (sendWithRequestId (w.givenId scope)) app 500)
      (w.bound scope) = _ := serve_wrapSend _ app 500 _
  rw [through_sendWithRequestId] at hwrap
  rw [requestContextMiddleware, serve_givenId]
  refine (serve_seq hwrap (serve_finally _ _ _)).trans ?_
  simp only [World.after, World.fresh, List.append_nil, statusCode]

/-! ### Exceptions -/

section exceptions

variable {lookup : Exc → Option Handler} {scope : Scope} {app : App} {w w' : World σ}

theorem serve_noteStart {x : Except Exc Unit} (h : serve recv app w = (x, w')) :
    serve recv (wrapSend noteStart app false) w = (.ok (x, !(starts w'.sent).isEmpty), w') := by
  rw [serve_wrapSend, h, through_noteStart]
  rfl

theorem serve_exceptionMiddleware_ok (h : serve recv app w = (.ok (), w')) :
    serve recv (exceptionMiddleware lookup scope app) w = (.ok (), w') :=
  (serve_seq (serve_noteStart h) rfl).trans (Prod.ext rfl (fresh_after w'))

/-- An exception without a handler goes on. -/
theorem serve_exceptionMiddleware_unhandled {exc : Exc} (hlookup : lookup exc = none)
    (h : serve recv app w = (.error exc, w')) :
    serve recv (exceptionMiddleware lookup scope app) w = (.error exc, w') := by
  refine (serve_seq (serve_noteStart h) ?_).trans (Prod.ext rfl (fresh_after w'))
  simp only [hlookup]
  rfl

/-- One that comes too late becomes another. -/
theorem serve_exceptionMiddleware_late {exc : Exc} {handler : Handler}
    (hlookup : lookup exc = some handler) (h : serve recv app w = (.error exc, w'))
    (hstarted : starts w'.sent ≠ []) :
    serve recv (exceptionMiddleware lookup scope app) w =
      (.error (.other (text "RuntimeError")), w') := by
  have hnot : (!(starts w'.sent).isEmpty) = true := by simpa using hstarted
  refine (serve_seq (serve_noteStart h) ?_).trans (Prod.ext rfl (fresh_after w'))
  simp only [hlookup, hnot, if_true]
  rfl

/-- **An exception with a handler becomes its response.** -/
theorem serve_exceptionMiddleware_handled {exc : Exc} {handler : Handler} {response : Response}
    {w'' : World σ} (hlookup : lookup exc = some handler)
    (h : serve recv app w = (.error exc, w')) (hstarted : starts w'.sent = [])
    (hhandler : serve recv (handler scope exc) w' = (.ok response, w'')) (hsent : w''.sent = []) :
    serve recv (exceptionMiddleware lookup scope app) w =
      (.ok (), { w'' with sent := w'.sent ++ response.messages }) := by
  have hnot : (!(starts w'.sent).isEmpty) = false := by simp [hstarted]
  have hresponse : serve recv (handler scope exc >>= fun r => r.send) w' =
      (.ok (), { w'' with sent := response.messages }) := by
    refine (serve_seq hhandler (serve_send response w'')).trans ?_
    simp only [World.after, hsent, List.nil_append]
  refine (serve_seq (serve_noteStart h) (show serve recv _ w' =
    (.ok (), { w'' with sent := response.messages }) from ?_)).trans rfl
  simp only [hlookup, hnot]
  exact hresponse

/-- A handler that raises is no help. -/
theorem serve_exceptionMiddleware_failed {exc exc' : Exc} {handler : Handler}
    (hlookup : lookup exc = some handler) (h : serve recv app w = (.error exc, w'))
    (hstarted : starts w'.sent = []) {w'' : World σ}
    (hhandler : serve recv (handler scope exc) w' = (.error exc', w'')) :
    serve recv (exceptionMiddleware lookup scope app) w = (.error exc', w''.after w'.sent) := by
  have hnot : (!(starts w'.sent).isEmpty) = false := by simp [hstarted]
  have hresponse : serve recv (handler scope exc >>= fun r => r.send) w' =
      (.error exc', w'') := by
    rw [serve_bind, hhandler]
  refine serve_seq (serve_noteStart h) ?_
  simp only [hlookup, hnot]
  exact hresponse

theorem serve_serverErrorMiddleware_ok {handler : Handler} {debug : Bool}
    (h : serve recv app w = (.ok (), w')) :
    serve recv (serverErrorMiddleware fw handler debug scope app) w = (.ok (), w') :=
  (serve_seq (serve_noteStart h) rfl).trans (Prod.ext rfl (fresh_after w'))

/-- A response is sent unless one has started, and the exception goes on. -/
theorem serve_lastResponse (started : Bool) (response : Response) (exc : Exc) (w : World σ) :
    serve recv (lastResponse started response exc) w =
      (.error exc, { w with sent := if started then [] else response.messages }) := by
  cases started with
  | false => exact serve_seq (serve_send response w) rfl
  | true => rfl

/-- In debug mode the client gets the traceback. -/
theorem serve_serverErrorMiddleware_debug {handler : Handler} {exc : Exc}
    (h : serve recv app w = (.error exc, w')) :
    serve recv (serverErrorMiddleware fw handler true scope app) w =
      (.error exc, { w' with sent := w'.sent ++
        (if starts w'.sent = [] then (fw.debugResponse scope exc).messages else []) }) := by
  refine (serve_seq (serve_noteStart h) (serve_lastResponse
    (!(starts w'.sent).isEmpty) (fw.debugResponse scope exc) exc w')).trans ?_
  simp [World.after]

/-- **The handler runs last**, when every middleware has ended. -/
theorem serve_serverErrorMiddleware_error {handler : Handler} {exc : Exc} {response : Response}
    {w'' : World σ} (h : serve recv app w = (.error exc, w'))
    (hhandler : serve recv (handler scope exc) w' = (.ok response, w'')) (hsent : w''.sent = []) :
    serve recv (serverErrorMiddleware fw handler false scope app) w =
      (.error exc, { w'' with sent := w'.sent ++
        (if starts w'.sent = [] then response.messages else []) }) := by
  refine (serve_seq (serve_noteStart h) (serve_seq hhandler
    (serve_lastResponse (!(starts w'.sent).isEmpty) response exc w''))).trans ?_
  simp [World.after, hsent]

end exceptions

/-! ### The context behind the layers -/

theorem quiet_sendMiddleware (h : ℓ → Message → List Message × ℓ) (l : ℓ) {app : App}
    (happ : Quiet app) : Quiet (sendMiddleware h l app) :=
  quiet_bind (quiet_wrapSend happ l) fun r => quiet_reraise r.1

theorem quiet_bodySizeLimitMiddleware (maxBytes : ℤ) {app : App} (happ : Quiet app) :
    Quiet (bodySizeLimitMiddleware maxBytes app) :=
  quiet_bind (quiet_wrapReceive happ 0) fun r => quiet_reraise r.1

theorem quiet_trustedHostMiddleware (hosts : List Str) (scope : Scope) {app : App}
    (happ : Quiet app) : Quiet (trustedHostMiddleware fw hosts scope app) := by
  unfold trustedHostMiddleware
  split
  · exact quiet_send _
  · exact happ

theorem quiet_exceptionMiddleware (scope : Scope) {app : App} (happ : Quiet app) :
    Quiet (exceptionMiddleware (exceptionHandler fw) scope app) := by
  refine quiet_bind (quiet_wrapSend happ false) fun r => ?_
  obtain ⟨outcome, started⟩ := r
  rcases outcome with exc | ⟨⟩
  · rcases hlookup : exceptionHandler fw exc with _ | handler
    · simp only [hlookup]
      trivial
    · simp only [hlookup]
      cases started with
      | false => exact quiet_bind (quiet_exceptionHandler hlookup) fun r => quiet_send r
      | true => trivial
  · trivial

end FastapiStarter.Web
