import FastapiStarter.BodyLimit
import FastapiStarter.Delivery
import FastapiStarter.ErrorMapping
import FastapiStarter.Queries
import FastapiStarter.Races
import FastapiStarter.RateLimiter

/-!
# The routes and what they document

A route documents the statuses it may answer with, besides success: those of all routes,
those of its router, and its own.  Here the endpoints are put together from what they
depend on and the handlers they call, and what they raise is followed to the client.

## Main definitions

* `problemResponses`, `Route`, `Route.documents` — what a route documents.
* `ApiRequest`, `ApiRequest.execute` — the requests, as programs over the ports.
* `rateLimitAuth`, `Arrival` — how a request comes to its endpoint, or is refused before.
* `Incoming`, `Incoming.execute`, `Incoming.raises` — a request to a route, what it runs,
  and the exception it is refused with.

## Main results

* `documents_of_raises` — what is documented of the refusals.
* `refusals_are_documented` — **whatever races, a refused request is answered as its
  route documents**, unless its body was not read.
-/

namespace FastapiStarter

open Interaction Web

/-! ### Documentation -/

/-- `_RESPONSE_SPECS`: the description of a status, and whether its model is
`ValidationProblemDetail`. -/
def responseSpecs : ℤ → Option (Str × Bool)
  | 401 => some (text "Missing or invalid credentials", false)
  | 404 => some (text "Resource not found", false)
  | 409 => some (text "Conflicting resource state", false)
  | 422 => some (text "Request validation error", true)
  | 429 => some (text "Rate limit exceeded", false)
  | 500 => some (text "Unexpected server error", false)
  | _ => none

/-- `problem_responses(*status_codes)`; `none` for a `KeyError`. -/
def problemResponses (statusCodes : List ℤ) : Option (List (ℤ × Str × Bool)) :=
  statusCodes.mapM fun code => (responseSpecs code).map (code, ·)

/-- A route of the API, with the statuses that it and its router list. -/
structure Route where
  method : Str
  path : Str
  statusCode : ℤ := 200
  responses : List ℤ := []
  routerResponses : List ℤ := []
  /-- It depends on `rate_limit_auth`. -/
  rateLimited : Bool := false
  /-- It depends on `get_current_user`. -/
  authenticated : Bool := false
  /-- It has a body. -/
  body : Bool := false

/-- The statuses that all routes list. -/
def apiResponses : List ℤ := [422, 500]

/-- What a route documents: the responses of the API, its router and itself. -/
def Route.documents (route : Route) : Option (List (ℤ × Str × Bool)) := do
  let api ← problemResponses apiResponses
  let router ← problemResponses route.routerResponses
  let own ← problemResponses route.responses
  return api ++ router ++ own

/-- The route documents a status. -/
def Route.Documents (route : Route) (status : ℤ) : Prop :=
  ∃ responses ∈ route.documents, status ∈ responses.map Prod.fst

instance (route : Route) (status : ℤ) : Decidable (route.Documents status) :=
  inferInstanceAs (Decidable (∃ responses ∈ route.documents, status ∈ responses.map Prod.fst))

/-! ### The routes -/

/-- A route of the router for authentication. -/
def authRoute (path : String) (responses : List ℤ) (statusCode : ℤ) (rateLimited : Bool) :
    Route where
  method := text "POST"
  path := text "/api/v1/auth" ++ text path
  statusCode := statusCode
  responses := responses
  rateLimited := rateLimited
  body := true

/-- A route of the router for users. -/
def usersRoute (method path : String) (statusCode : ℤ) : Route where
  method := text method
  path := text "/api/v1/users" ++ text path
  statusCode := statusCode
  routerResponses := [401]
  authenticated := true

namespace Route

/-- `register`. -/
def register : Route := authRoute "/register" [409, 429] 201 true

/-- `login`. -/
def login : Route := authRoute "/login" [401, 429] 200 true

/-- `logout`. -/
def logout : Route := authRoute "/logout" [401] 204 false

/-- `refresh`. -/
def refresh : Route := authRoute "/refresh" [401] 200 false

/-- `change_password`. -/
def changePassword : Route := { usersRoute "PUT" "/me/password" 204 with body := true }

/-- `read_me`. -/
def readMe : Route := usersRoute "GET" "/me" 200

/-- `get_user`. -/
def getUser : Route := usersRoute "GET" "/\x7buser_id\x7d" 200

/-- `list_users`. -/
def listUsers : Route := usersRoute "GET" "" 200

/-- The routes of the two routers. -/
def all : List Route :=
  [register, login, logout, refresh, changePassword, readMe, getUser, listUsers]

theorem documents_422 : ∀ route ∈ all, route.Documents 422 := by decide +kernel

theorem documents_429 : ∀ route ∈ all, route.rateLimited = true → route.Documents 429 := by
  decide +kernel

theorem documents_401 : ∀ route ∈ all, route.authenticated = true → route.Documents 401 := by
  decide +kernel

theorem documents_unread : ∀ route ∈ all, ¬ route.Documents 413 ∧ ¬ route.Documents 400 := by
  decide +kernel

end Route

/-! ### Exceptions -/

/-- The class of a domain error. -/
def DomainError.errorClass : DomainError → ErrorClass
  | .validation _ => .validationError
  | .invalidCredentials => .invalidCredentialsError
  | .invalidToken => .invalidTokenError
  | .tokenExpired => .tokenExpiredError
  | .userNotFound => .userNotFoundError
  | .emailAlreadyExists => .emailAlreadyExistsError

/-- A domain error as an exception, with the resolution order of its class; `str` gives
the text of a message. -/
def DomainError.exc (str : Message → Str) (x : DomainError) : Web.Exc :=
  .domain x.errorClass (appClasses.mro x.errorClass).tail (str x.message)

/-- The status that `_ERROR_MAP` gives a domain error. -/
def DomainError.status : DomainError → ℤ
  | .validation _ => 422
  | .invalidCredentials | .invalidToken | .tokenExpired => 401
  | .userNotFound => 404
  | .emailAlreadyExists => 409

/-- Every error has a row of its own, found along the resolution order of its class. -/
theorem status_specFor (x : DomainError) :
    (specFor (x.errorClass :: (appClasses.mro x.errorClass).tail)).status = x.status := by
  cases x with
  | validation message =>
    show (specFor (.validationError :: (appClasses.mro .validationError).tail)).status = 422
    decide +kernel
  | _ => decide +kernel

/-- `rate_limit_auth`, by the decision of the limiter. -/
def rateLimitAuth (decision : RateLimitDecision) : Except Web.Exc Unit :=
  if !decision.allowed then
    .error (.http 429 (some (text "Too many requests; try again later."))
      (some [(text "Retry-After", text (toString decision.retryAfterSeconds))]))
  else .ok ()

/-- A body that cannot be read is answered by FastAPI. -/
def unreadableBody : Web.Exc := .http 400 (some (text "There was an error parsing the body")) none

/-- `_bearer`, if there are no credentials. -/
def notAuthenticated : Web.Exc :=
  .http 401 (some (text "Not authenticated")) (some [(text "WWW-Authenticate", text "Bearer")])

/-- An exception of the handlers, as one of the web application. -/
def Exc.web (str : Message → Str) : Exc → Web.Exc
  | .domain x => x.exc str
  | .integrity _ => .other (text "IntegrityError")
  | .staleData => .other (text "StaleDataError")
  | .multipleResultsFound => .other (text "MultipleResultsFound")
  | .unexpected => .other (text "Exception")

section routes

variable [Unicode]

/-! ### Requests -/

/-- The requests that go through the application layer; the credentials of a request are
its bearer token. -/
inductive ApiRequest
  | register (body : CreateUserCommand)
  | login (body : LoginCommand)
  | refresh (body : RefreshTokenCommand)
  | logout (body : LogoutCommand)
  | changePassword (credentials : Token) (currentPassword newPassword : Str)
  | readMe (credentials : Token)

namespace ApiRequest

/-- The route of a request. -/
def route : ApiRequest → Route
  | .register _ => .register
  | .login _ => .login
  | .refresh _ => .refresh
  | .logout _ => .logout
  | .changePassword _ _ _ => .changePassword
  | .readMe _ => .readMe

omit [Unicode] in
theorem route_mem (r : ApiRequest) : r.route ∈ Route.all := by
  cases r <;> simp [route, Route.all]

/-- The endpoint, after what it depends on. -/
def execute : ApiRequest → Handler Response
  | .register body => Command.execute (.createUser body)
  | .login body => Command.execute (.login body)
  | .refresh body => Command.execute (.refreshToken body)
  | .logout body => Command.execute (.logout body)
  | .changePassword credentials currentPassword newPassword => do
    let currentUser ← getCurrentUser credentials
    Command.execute (.changePassword ⟨currentUser.id.value, currentPassword, newPassword⟩)
  | .readMe credentials => do
    let currentUser ← getCurrentUser credentials
    let view := FastapiStarter.readMe currentUser
    return .userView ⟨view.id, view.email, view.isActive, view.createdAt⟩

/-- The domain errors that a request is refused with.  Its user is the one who has
authenticated, so there is no `UserNotFoundError`. -/
def Refuses : ApiRequest → DomainError → Prop
  | .register body => (Command.createUser body).Refuses
  | .login body => (Command.login body).Refuses
  | .refresh body => (Command.refreshToken body).Refuses
  | .logout body => (Command.logout body).Refuses
  | .changePassword _ _ _ => fun x =>
    x = .invalidToken ∨ x = .tokenExpired ∨ x = .invalidCredentials
  | .readMe _ => fun x => x = .invalidToken ∨ x = .tokenExpired

end ApiRequest

/-- The dependency keeps to the discipline, and leaves a user who was read. -/
theorem leads_getCurrentUser {refuses : DomainError → Prop} (credentials : Token)
    (hinvalid : refuses .invalidToken) (hexpired : refuses .tokenExpired) :
    (Conduct.discipline refuses).Leads (fun user g => user ∈ g.users ∧ g.sweeping = false ∧
      g.dirty = false) (getCurrentUser credentials) .empty := by
  have hrefused : ∀ g, (Conduct.discipline refuses).Raises g (.domain .invalidToken) :=
    fun _ => raises_of_refuses hinvalid
  simp only [getCurrentUser, Prog.op_bind]
  refine .call ⟨.inl rfl, hinvalid, hexpired⟩ fun payload _ => ?_
  split
  · exact ⟨rfl, hrefused _⟩
  split
  · exact ⟨rfl, hrefused _⟩
  refine .call ⟨.inl rfl, trivial⟩ fun found _ => ?_
  split
  · exact ⟨rfl, hrefused _⟩
  split
  · exact ⟨rfl, hrefused _⟩
  · exact ⟨List.mem_cons_self, rfl, rfl⟩

/-- Every endpoint keeps to the discipline. -/
theorem follows_api (r : ApiRequest) :
    (Conduct.discipline r.Refuses).Follows r.execute .empty := by
  cases r with
  | register body => exact follows_execute (.createUser body)
  | login body => exact follows_execute (.login body)
  | refresh body => exact follows_execute (.refreshToken body)
  | logout body => exact follows_execute (.logout body)
  | changePassword credentials currentPassword newPassword =>
    refine (leads_getCurrentUser credentials (.inl rfl) (.inr (.inl rfl))).follows_bind ?_
    rintro user g ⟨hread, hquiet, hclean⟩
    refine Discipline.follows_map.mpr
      (follows_changePassword _ hquiet hclean (.inr (.inr rfl)) (.inr ⟨user, hread, rfl⟩))
  | readMe credentials =>
    refine (leads_getCurrentUser credentials (.inl rfl) (.inr rfl)).follows_bind ?_
    rintro user g ⟨-, hquiet, -⟩
    exact hquiet

/-! ### Refusals -/

/-- **How a request comes to its endpoint**: the body is read first, then come the
dependencies of the route, and last the validation. -/
inductive Arrival (route : Route)
  /-- The body is over the cap. -/
  | tooLarge (hbody : route.body = true)
  /-- The body cannot be read. -/
  | unreadable (hbody : route.body = true)
  /-- The limiter has refused it. -/
  | limited (hlimited : route.rateLimited = true) (decision : RateLimitDecision)
    (hrefused : decision.allowed = false)
  /-- It has no bearer token. -/
  | anonymous (hauthenticated : route.authenticated = true)
  /-- Its body or parameters are not valid; before that, the bearer token is looked at. -/
  | invalid (credentials : Option Token) (hcredentials : credentials.isSome = route.authenticated)
    (issues : List RequestIssue)
  /-- Nothing is wrong with it. -/
  | valid (request : ApiRequest) (hroute : request.route = route)

/-- A request to a route. -/
structure Incoming where
  route : Route
  mem : route ∈ Route.all
  arrival : Arrival route

namespace Incoming

/-- A valid request. -/
def ofRequest (request : ApiRequest) : Incoming :=
  ⟨request.route, request.route_mem, .valid request rfl⟩

/-- What a request runs over the ports. -/
def execute (r : Incoming) : Handler Response :=
  match r.arrival with
  | .valid request _ => request.execute
  | .invalid (some credentials) _ _ => do
    let _ ← getCurrentUser credentials
    return .none
  | _ => return .none

/-- The domain errors that a request is refused with. -/
def Refuses (r : Incoming) : DomainError → Prop :=
  match r.arrival with
  | .valid request _ => request.Refuses
  | .invalid (some _) _ _ => fun x => x = .invalidToken ∨ x = .tokenExpired
  | _ => fun _ => False

/-- **The exception that a request is refused with**, by what it has run. -/
def raises (str : Message → Str) (r : Incoming) (result : Except Exc Response) : Option Web.Exc :=
  match r.arrival, result with
  | .tooLarge _, _ => some tooLarge
  | .unreadable _, _ => some unreadableBody
  | .limited _ decision _, _ =>
    match rateLimitAuth decision with
    | .error exc => some exc
    | .ok _ => none
  | .anonymous _, _ => some notAuthenticated
  | .invalid _ _ _, .error e | .valid _ _, .error e => some (e.web str)
  | .invalid _ _ issues, .ok _ => some (.requestValidation issues)
  | .valid _ _, .ok _ => none

/-- The body was not read. -/
def Unread (r : Incoming) : Prop :=
  match r.arrival with
  | .tooLarge _ | .unreadable _ => True
  | _ => False

/-- The failures of a validation can be encoded. -/
def Encodable (r : Incoming) : Prop :=
  match r.arrival with
  | .invalid _ _ issues => (Web.Exc.requestValidation issues).encodable = true
  | _ => True

/-- A request keeps to the discipline of its endpoint. -/
theorem follows_execute (r : Incoming) :
    (Conduct.discipline r.Refuses).Follows r.execute .empty := by
  obtain ⟨route, hmem, arrival⟩ := r
  cases arrival with
  | valid request hroute => exact follows_api request
  | invalid credentials hcredentials issues =>
    cases credentials with
    | none => exact rfl
    | some credentials =>
      refine (leads_getCurrentUser credentials (.inl rfl) (.inr rfl)).follows_bind ?_
      rintro user g ⟨-, hquiet, -⟩
      exact hquiet
  | _ => exact rfl

end Incoming

/-- The status of a domain error that a request is refused with is documented. -/
theorem documents_of_refuses {r : ApiRequest} {x : DomainError} (h : r.Refuses x) :
    r.route.Documents x.status := by
  cases r with
  | register body =>
    rcases h with hinvalid | rfl
    · obtain ⟨m, rfl⟩ : ∃ m, x = .validation m := by
        unfold Email.ofStr at hinvalid
        split at hinvalid
        · cases hinvalid
        · exact ⟨_, (Except.error.inj hinvalid).symm⟩
      exact Route.documents_422 _ (ApiRequest.route_mem _)
    · show Route.register.Documents 409
      decide +kernel
  | login body =>
    obtain rfl : x = .invalidCredentials := h
    show Route.login.Documents 401
    decide +kernel
  | refresh body =>
    have h401 : Route.refresh.Documents 401 := by decide +kernel
    rcases h with rfl | rfl <;> exact h401
  | logout body =>
    have h401 : Route.logout.Documents 401 := by decide +kernel
    rcases h with rfl | rfl <;> exact h401
  | changePassword credentials currentPassword newPassword =>
    have h401 := Route.documents_401 .changePassword (ApiRequest.route_mem (.changePassword
      credentials currentPassword newPassword)) rfl
    rcases h with rfl | rfl | rfl <;> exact h401
  | readMe credentials =>
    have h401 := Route.documents_401 .readMe (ApiRequest.route_mem (.readMe credentials)) rfl
    rcases h with rfl | rfl <;> exact h401

/-- The domain errors of a request are documented by its route. -/
theorem Incoming.documents_of_refuses {r : Incoming} {x : DomainError} (h : r.Refuses x) :
    r.route.Documents x.status := by
  obtain ⟨route, hmem, arrival⟩ := r
  cases arrival with
  | valid request hroute =>
    have hx : request.Refuses x := h
    exact hroute ▸ FastapiStarter.documents_of_refuses hx
  | invalid credentials hcredentials issues =>
    cases credentials with
    | none => exact h.elim
    | some credentials =>
      have h401 := Route.documents_401 route hmem hcredentials.symm
      rcases h with rfl | rfl <;> exact h401
  | _ => exact h.elim

omit [Unicode] in
/-- A number can be sent in a header. -/
theorem isLatin1_toString (n : ℤ) : (text (toString n)).isLatin1 = true := by
  have hdigits : ∀ m : ℕ, ∀ c ∈ m.repr.toList, c.toNat < 256 := by
    intro m c hc
    rw [Nat.repr_eq_ofList_toDigits, String.toList_ofList] at hc
    have hdigit := Nat.isDigit_of_mem_toDigits (by decide) (by decide) hc
    simp only [Char.isDigit, Bool.and_eq_true, decide_eq_true_eq] at hdigit
    have hle : c.toNat ≤ 57 := hdigit.2
    omega
  have hall : ∀ c ∈ (toString n).toList, c.toNat < 256 := by
    intro c hc
    rw [Int.toString_eq_repr] at hc
    cases n with
    | ofNat m => exact hdigits m c hc
    | negSucc m =>
      rw [Int.repr, String.toList_append, List.mem_append] at hc
      rcases hc with hc | hc
      · obtain rfl : c = '-' := List.mem_singleton.mp hc
        decide
      · exact hdigits _ c hc
  rw [Str.isLatin1, text, lit, List.all_map, List.all_eq_true]
  intro c hc
  have hval : (ch c).val < 256 := (Nat.mod_le _ _).trans_lt (hall c hc)
  exact decide_eq_true hval

/-- **What is documented of the refusals**: everything but a body that was not read.  Each
has a handler that answers it, and none is an internal error. -/
theorem documents_of_raises {str : Message → Str} (hstr : ∀ m, (str m).encodable = true)
    {r : Incoming} (hencodable : r.Encodable) {result : Except Exc Response}
    (hresult : ∀ e, result = .error e → ∃ x, e = .domain x ∧ r.Refuses x) {exc : Web.Exc}
    (h : r.raises str result = some exc) (fw : Framework) (scope : Web.Scope) :
    exc.answerable = true ∧ (problemOf fw scope exc).1.status ≠ 500 ∧
      (r.route.Documents (problemOf fw scope exc).1.status ↔ ¬ r.Unread) := by
  -- a domain error, with which only a request ends whose body was read
  have hdomain : ∀ x, r.Refuses x → ¬ r.Unread → exc = x.exc str → exc.answerable = true ∧
      (problemOf fw scope exc).1.status ≠ 500 ∧
      (r.route.Documents (problemOf fw scope exc).1.status ↔ ¬ r.Unread) := by
    rintro x hx hread rfl
    have hstatus : (problemOf fw scope (x.exc str)).1.status = x.status := status_specFor x
    have hno : x.status ≠ 500 := by
      unfold DomainError.status
      split <;> decide
    rw [hstatus]
    exact ⟨hstr x.message, hno, iff_of_true (Incoming.documents_of_refuses hx) hread⟩
  obtain ⟨route, hmem, arrival⟩ := r
  cases arrival with
  | tooLarge hbody =>
    obtain rfl := Option.some.inj h
    exact ⟨by decide, (by decide : (413 : ℤ) ≠ 500),
      iff_of_false (Route.documents_unread route hmem).1 (not_not_intro trivial)⟩
  | unreadable hbody =>
    obtain rfl := Option.some.inj h
    exact ⟨by decide +kernel, (by decide : (400 : ℤ) ≠ 500),
      iff_of_false (Route.documents_unread route hmem).2 (not_not_intro trivial)⟩
  | limited hlimited decision hrefused =>
    have hraised : Incoming.raises str ⟨route, hmem, .limited hlimited decision hrefused⟩ result =
        some (.http 429 (some (text "Too many requests; try again later."))
          (some [(text "Retry-After", text (toString decision.retryAfterSeconds))])) := by
      simp only [Incoming.raises, rateLimitAuth, hrefused]
      rfl
    obtain rfl := Option.some.inj (h.symm.trans hraised)
    refine ⟨?_, (by decide : (429 : ℤ) ≠ 500),
      iff_of_true (Route.documents_429 route hmem hlimited) id⟩
    have hname : (lowerName (text "Retry-After")).isLatin1 = true := by decide
    simp only [Exc.answerable, Exc.encodable, encodable_text, Option.getD_some, List.all_cons,
      List.all_nil, isFieldLatin1, hname, isLatin1_toString, Bool.and_self]
  | anonymous hauthenticated =>
    obtain rfl := Option.some.inj h
    exact ⟨by decide +kernel, (by decide : (401 : ℤ) ≠ 500),
      iff_of_true (Route.documents_401 route hmem hauthenticated) id⟩
  | invalid credentials hcredentials issues =>
    rcases result with e | response
    · obtain ⟨x, rfl, hx⟩ := hresult e rfl
      exact hdomain x hx id (Option.some.inj h).symm
    · obtain rfl := Option.some.inj h
      exact ⟨hencodable, (by decide : (422 : ℤ) ≠ 500),
        iff_of_true (Route.documents_422 route hmem) id⟩
  | valid request hroute =>
    rcases result with e | response
    · obtain ⟨x, rfl, hx⟩ := hresult e rfl
      exact hdomain x hx id (Option.some.inj h).symm
    · cases h

/-! ### What the client gets -/

omit [Unicode] in
/-- An exception that a handler answers reaches the client as its problem. -/
theorem starts_of_handled {fw : Framework} {settings : Settings} {scope : Web.Scope}
    (hcors : corsAnswer fw settings scope = none) (hhost : hostAnswer fw settings scope = none)
    {exc : Web.Exc} (hans : exc.answerable = true) (incoming : List Web.Message)
    (uuids : ℕ → UUID) :
    ∃ headers, starts (Web.request fw settings scope (.raise exc) incoming uuids).2.sent =
        [((problemOf fw scope exc).1.status, headers)] ∧
      contents (Web.request fw settings scope (.raise exc) incoming uuids).2.sent =
        [.problem (problemOf fw scope exc).1] := by
  have hrun : (endpointRun settings (.raise exc) client ((connect incoming uuids).bound scope)).1 =
      .error exc ∧
      (endpointRun settings (.raise exc) client ((connect incoming uuids).bound scope)).2.sent =
        [] :=
    ⟨rfl, rfl⟩
  obtain ⟨hraised, hnothing⟩ := hrun
  -- the endpoint has raised before any response, so a handler answers
  rcases @serve_inner fw settings scope (.raise exc) _ client ((connect incoming uuids).bound scope)
    stampable_bound with ⟨hok, -, -⟩ | ⟨exc', hexc, -, -, -, hsent⟩ | ⟨⟨exc', hexc, hno⟩, -, -⟩
  · cases hok.symm.trans hraised
  · obtain rfl := Except.error.inj (hexc.symm.trans hraised)
    rw [hnothing, List.nil_append] at hsent
    obtain ⟨response, hstatus, hcontent, hmessages⟩ : ∃ response : Web.Response,
        response.status = (problemOf fw scope exc').1.status ∧
        response.content = .problem (problemOf fw scope exc').1 ∧
        (serve client (inner fw settings scope (.raise exc'))
          ((connect incoming uuids).bound scope)).2.sent = response.messages :=
      ⟨_, rfl, rfl, hsent⟩
    have hheld : heldStart none (serve client (inner fw settings scope (.raise exc'))
        ((connect incoming uuids).bound scope)).2.sent =
          some ((problemOf fw scope exc').1.status, response.headers) := by
      rw [hmessages, ← hstatus]
      rfl
    obtain ⟨headers, hstarts, hcontents, -⟩ := starts_of_held hcors hhost hheld
    refine ⟨headers, hstarts, hcontents.trans ?_⟩
    rw [hmessages, ← hcontent]
    rfl
  · obtain rfl := Except.error.inj (hexc.symm.trans hraised)
    rcases hno with hno | hstarted
    · cases hans.symm.trans hno
    · rw [hnothing] at hstarted
      exact absurd rfl hstarted

/-! ### Runs -/

/-- Requests to the API that have not started yet; a number without one is no request. -/
def startApi (requests : ℕ → Option ApiRequest) (w : World) :
    Config ℕ Port Port.Ret Exc Response Session World where
  threads sid :=
    { prog := match requests sid with
        | some r => r.execute
        | none => .pure .none
      loc := .empty }
  shared := w
  trace := []

theorem starts_startApi {requests : ℕ → Option ApiRequest} {w : World}
    (hstatements : w.statements = []) (hsound : w.db.Sound) :
    Starts (fun i x => ∃ r, requests i = some r ∧ r.Refuses x) (startApi requests w) := by
  refine ⟨fun i => ?_, fun i => rfl, hstatements, hsound⟩
  simp only [startApi]
  rcases hr : requests i with _ | r
  · exact rfl
  · have heq : (fun x => ∃ r', some r = some r' ∧ r'.Refuses x) = r.Refuses := by
      funext x
      simp
    rw [heq]
    exact follows_api r

/-- Requests to the routes that have not started yet. -/
def startIncoming (requests : ℕ → Option Incoming) (w : World) :
    Config ℕ Port Port.Ret Exc Response Session World where
  threads sid :=
    { prog := match requests sid with
        | some r => r.execute
        | none => .pure .none
      loc := .empty }
  shared := w
  trace := []

theorem starts_startIncoming {requests : ℕ → Option Incoming} {w : World}
    (hstatements : w.statements = []) (hsound : w.db.Sound) :
    Starts (fun i x => ∃ r, requests i = some r ∧ r.Refuses x) (startIncoming requests w) := by
  refine ⟨fun i => ?_, fun i => rfl, hstatements, hsound⟩
  simp only [startIncoming]
  rcases hr : requests i with _ | r
  · exact rfl
  · have heq : (fun x => ∃ r', some r = some r' ∧ r'.Refuses x) = r.Refuses := by
      funext x
      simp
    rw [heq]
    exact r.follows_execute

end routes

section sample

attribute [local instance] asciiUnicode

/-- Two registrations of one address, and one whose body is over the cap. -/
def registering : ℕ → Option Incoming
  | 0 | 1 => some (.ofRequest (.register ⟨sampleLogin.email, sampleLogin.password⟩))
  | 2 => some ⟨.register, List.mem_cons_self, .tooLarge rfl⟩
  | _ => none

/-- Two have found the address free, and one of them has lost. -/
def registeringConfig : Config ℕ Port Port.Ret Exc Response Session World :=
  (startIncoming registering .initial).schedule (system sampleEnv)
    ([0, 1] ++ List.replicate 7 0 ++ List.replicate 5 1)

end sample

end FastapiStarter
