import FastapiStarter.Framework

/-!
# Problem responses

Every exception that a handler is registered for becomes a response with one JSON
shape, if that can be encoded.  A domain error finds its status along the resolution
order of its class.

## Main definitions

* `errorMap`, `specFor` — the table of domain errors.
* `allHeaders`, `problemResponse` — a problem, as a response.
* `domainErrorHandler`, `validationErrorHandler`, `httpExceptionHandler`,
  `unhandledExceptionHandler` — the handlers.
* `exceptionHandler` — which handler an exception has.
* `Exc.encodable`, `Exc.answerable` — the exceptions that their handlers can answer.

## Main results

* `serve_exceptionHandler` — **a handler makes a problem response** whose status is
  that of its body.
* `values_problem_contentType`, `values_problem_requestId` — its headers.
-/

namespace FastapiStarter.Web

open Interaction

/-! ### The table of errors -/

/-- HTTP status, problem type and title of an error. -/
structure ErrorSpec where
  status : ℤ
  slug : Str
  title : Str

/-- `_ERROR_MAP`. -/
def errorMap : ErrorClass → Option ErrorSpec
  | .userNotFoundError => some ⟨404, text "user-not-found", text "User not found"⟩
  | .emailAlreadyExistsError =>
    some ⟨409, text "email-already-exists", text "Email already exists"⟩
  | .invalidCredentialsError => some ⟨401, text "invalid-credentials", text "Invalid credentials"⟩
  | .invalidTokenError => some ⟨401, text "invalid-token", text "Invalid token"⟩
  | .tokenExpiredError => some ⟨401, text "token-expired", text "Token expired"⟩
  | .validationError => some ⟨422, text "validation-error", text "Validation error"⟩
  | .domainError => none
  | .other _ _ => none

/-- `_DEFAULT`. -/
def defaultSpec : ErrorSpec := ⟨400, text "domain-error", text "Domain error"⟩

/-- `_spec_for`, along the resolution order of the class. -/
def specFor : List ErrorClass → ErrorSpec
  | [] => defaultSpec
  | klass :: mro =>
    if klass.isDomainError then
      match errorMap klass with
      | some spec => spec
      | none => specFor mro
    else specFor mro

/-! ### Responses -/

/-- `d.setdefault(key, value)`, on a `dict`. -/
def dictSetdefault (d : List (Str × Str)) (key value : Str) : List (Str × Str) :=
  if d.any fun item => item.1 = key then d else d ++ [(key, value)]

/-- The headers of a problem response. -/
def allHeaders (problem : ProblemDetail) (headers : Option (List (Str × Str)))
    (requestId : Option Str) : List (Str × Str) :=
  let headers := headers.getD []
  let headers :=
    if problem.status = 401 then dictSetdefault headers (text "WWW-Authenticate") (text "Bearer")
    else headers
  match requestId with
  | some requestId => dictSetdefault headers (text "X-Request-ID") requestId
  | none => headers

/-- `application/problem+json`. -/
def problemMediaType : Str := text "application/problem+json"

variable (fw : Framework)

/-- The response for a problem, when its request has the given id. -/
def problemJson (problem : ProblemDetail) (headers : Option (List (Str × Str)))
    (requestId : Option Str) : Response :=
  encodedResponse fw problem.status problemMediaType (.problem problem)
    (allHeaders problem headers requestId)

/-- `_problem_response`. -/
def problemResponse (problem : ProblemDetail) (headers : Option (List (Str × Str))) :
    Part Response := do
  let requestId ← Prog.op .requestId
  match jsonResponse fw problem.status problemMediaType (.problem problem)
      (allHeaders problem headers requestId) with
  | .ok response => return response
  | .error exc => .raise exc

/-! ### The handlers -/

/-- The problem of a domain error. -/
def domainProblem (scope : Scope) (cls : ErrorClass) (bases : List ErrorClass) (message : Str) :
    ProblemDetail where
  type := text "about:blank#" ++ (specFor (cls :: bases)).slug
  title := (specFor (cls :: bases)).title
  status := (specFor (cls :: bases)).status
  detail := some message
  instance_ := some (text scope.path)

/-- `_domain_error_handler`. -/
def domainErrorHandler : Handler := fun scope exc =>
  match exc with
  | .domain cls bases message => do
    let _ ← Prog.op (.log (.domainError exc.name (specFor (cls :: bases)).status (text scope.path)))
    problemResponse fw (domainProblem scope cls bases message) none
  | exc => .raise exc

/-- `".".join(parts)`. -/
def joinDots (parts : List Str) : Str := (text ".").intercalate parts

/-- The problem of a request that fails its validation. -/
def validationProblem (scope : Scope) (issues : List RequestIssue) : ProblemDetail where
  type := text "about:blank#request-validation-error"
  title := text "Request validation error"
  status := 422
  detail := some (text "The request body or parameters failed validation.")
  instance_ := some (text scope.path)
  errors := some (issues.map fun issue => ⟨joinDots issue.loc, issue.msg, issue.type⟩)

/-- `_validation_error_handler`. -/
def validationErrorHandler : Handler := fun scope exc =>
  match exc with
  | .requestValidation issues => problemResponse fw (validationProblem scope issues) none
  | exc => .raise exc

/-- The problem of an `HTTPException`. -/
def httpProblem (scope : Scope) (status : ℤ) (detail : Str) : ProblemDetail where
  type := text "about:blank#http-error"
  title := (fw.phrase status).getD (text "HTTP error")
  status := status
  detail := some detail
  instance_ := some (text scope.path)

/-- `_http_exception_handler`. -/
def httpExceptionHandler : Handler := fun scope exc =>
  match exc with
  | .http status (some detail) headers =>
    problemResponse fw (httpProblem fw scope status detail) headers
  -- `ProblemDetail` takes no other detail than a string.
  | .http _ none _ => .raise (.other (text "ValidationError"))
  | exc => .raise exc

/-- The problem of any other exception. -/
def internalProblem (scope : Scope) : ProblemDetail where
  title := text "Internal Server Error"
  status := 500
  detail := some (text "An unexpected error occurred.")
  instance_ := some (text scope.path)

/-- `_unhandled_exception_handler`. -/
def unhandledExceptionHandler : Handler := fun scope exc => do
  let _ ← Prog.op (.log (.unhandledError exc.name scope.method (text scope.path)))
  problemResponse fw (internalProblem scope) none

/-- The handlers that are registered, but for the one for `Exception`. -/
def exceptionHandler : Exc → Option Handler
  | .domain _ _ _ => some (domainErrorHandler fw)
  | .requestValidation _ => some (validationErrorHandler fw)
  | .http _ _ _ => some (httpExceptionHandler fw)
  | .other _ => none

/-- What a response would take from the exception can be encoded. -/
def Exc.encodable : Exc → Bool
  | .domain _ _ message => message.encodable
  | .requestValidation issues => issues.all fun issue =>
    (joinDots issue.loc).encodable && issue.msg.encodable && issue.type.encodable
  | .http _ (some detail) headers => detail.encodable && (headers.getD []).all isFieldLatin1
  | .http _ none _ => false
  | .other _ => true

/-- The exception has a handler of its own that makes a response of it. -/
def Exc.answerable : Exc → Bool
  | .other _ => false
  | exc => exc.encodable

/-- The problem that an exception becomes, with the headers it brings along. -/
def problemOf (scope : Scope) : Exc → ProblemDetail × Option (List (Str × Str))
  | .domain cls bases message => (domainProblem scope cls bases message, none)
  | .requestValidation issues => (validationProblem scope issues, none)
  | .http status (some detail) headers => (httpProblem fw scope status detail, headers)
  | _ => (internalProblem scope, none)

/-! ### What can be encoded -/

variable {fw}

section encoding

variable {problem : ProblemDetail} {headers : Option (List (Str × Str))}
  {requestId : Option Str} {item : Str × Str}

@[simp] theorem mem_dictSetdefault_iff {d : List (Str × Str)} {key value : Str} :
    item ∈ dictSetdefault d key value ↔
      item ∈ d ∨ (d.any fun item => item.1 = key) = false ∧ item = (key, value) := by
  unfold dictSetdefault
  split
  · next hany => simp [hany]
  · next hany => simp [Bool.eq_false_iff.mpr hany]

/-- The headers of a problem are those of the exception, and two more. -/
theorem mem_allHeaders (h : item ∈ allHeaders problem headers requestId) :
    item ∈ headers.getD [] ∨ item = (text "WWW-Authenticate", text "Bearer") ∨
      item.1 = text "X-Request-ID" ∧ requestId = some item.2 := by
  have hauth : item ∈ (if problem.status = 401 then
      dictSetdefault (headers.getD []) (text "WWW-Authenticate") (text "Bearer")
      else headers.getD []) →
      item ∈ headers.getD [] ∨ item = (text "WWW-Authenticate", text "Bearer") := by
    intro hmem
    split at hmem
    · exact (mem_dictSetdefault_iff.mp hmem).imp_right And.right
    · exact .inl hmem
  rcases requestId with _ | requestId
  · exact (hauth h).imp_right .inl
  · rcases mem_dictSetdefault_iff.mp h with hmem | ⟨-, rfl⟩
    · exact (hauth hmem).imp_right .inl
    · exact .inr (.inr ⟨rfl, rfl⟩)

/-- What is supplied stays. -/
theorem mem_allHeaders_of_mem (h : item ∈ headers.getD []) :
    item ∈ allHeaders problem headers requestId := by
  have hauth : item ∈ (if problem.status = 401 then
      dictSetdefault (headers.getD []) (text "WWW-Authenticate") (text "Bearer")
      else headers.getD []) := by
    split
    · exact mem_dictSetdefault_iff.mpr (.inl h)
    · exact h
  rcases requestId with _ | requestId
  · exact hauth
  · exact mem_dictSetdefault_iff.mpr (.inl hauth)

/-- The defaults can be encoded; what matters is what the exception brings along. -/
theorem all_isFieldLatin1_allHeaders (hid : ∀ id ∈ requestId, id.isLatin1 = true) :
    (allHeaders problem headers requestId).all isFieldLatin1 =
      (headers.getD []).all isFieldLatin1 := by
  rw [Bool.eq_iff_iff, List.all_eq_true, List.all_eq_true]
  refine ⟨fun h item hitem => h item (mem_allHeaders_of_mem hitem), fun h item hitem => ?_⟩
  rcases mem_allHeaders hitem with hmem | rfl | ⟨hkey, hvalue⟩
  · exact h item hmem
  · decide
  · have hname : (lowerName (text "X-Request-ID")).isLatin1 = true := by decide
    rw [isFieldLatin1, hkey, hname, hid _ hvalue]
    rfl

theorem jsonResponse_problem (hid : ∀ id ∈ requestId, id.isLatin1 = true) :
    jsonResponse fw problem.status problemMediaType (.problem problem)
        (allHeaders problem headers requestId) =
      if problem.encodable && (headers.getD []).all isFieldLatin1 then
        .ok (problemJson fw problem headers requestId)
      else .error (.other (text "UnicodeEncodeError")) := by
  rw [jsonResponse, all_isFieldLatin1_allHeaders hid]
  rfl

/-- All rows of the table can be encoded. -/
theorem encodable_specFor (mro : List ErrorClass) :
    (specFor mro).slug.encodable = true ∧ (specFor mro).title.encodable = true := by
  induction mro with
  | nil => exact ⟨encodable_text _, encodable_text _⟩
  | cons klass mro ih =>
    unfold specFor
    split
    · split
      · next spec hspec =>
        cases klass with
        | domainError => cases hspec
        | other => cases hspec
        | _ =>
          obtain rfl := Option.some.inj hspec
          exact ⟨encodable_text _, encodable_text _⟩
      · exact ih
    · exact ih

@[simp] theorem encodable_domainProblem (scope : Scope) (cls : ErrorClass)
    (bases : List ErrorClass) (message : Str) :
    (domainProblem scope cls bases message).encodable = message.encodable := by
  obtain ⟨hslug, htitle⟩ := encodable_specFor (cls :: bases)
  simp [domainProblem, ProblemDetail.encodable, hslug, htitle]

@[simp] theorem encodable_validationProblem (scope : Scope) (issues : List RequestIssue) :
    (validationProblem scope issues).encodable =
      (Exc.requestValidation issues).encodable := by
  simp only [validationProblem, ProblemDetail.encodable, encodable_text, Option.all_some,
    Option.getD_some, Bool.true_and, List.all_map, Exc.encodable]
  rfl

@[simp] theorem encodable_httpProblem (scope : Scope) (status : ℤ) (detail : Str) :
    (httpProblem fw scope status detail).encodable = detail.encodable := by
  have htitle : ((fw.phrase status).getD (text "HTTP error")).encodable = true := by
    rcases hphrase : fw.phrase status with _ | phrase
    · exact encodable_text _
    · exact fw.phrase_encodable status phrase hphrase
  simp [httpProblem, ProblemDetail.encodable, htitle]

@[simp] theorem encodable_internalProblem (scope : Scope) :
    (internalProblem scope).encodable = true := by
  simp [internalProblem, ProblemDetail.encodable]

end encoding

/-! ### What they answer -/

section answers

variable {σ : Type} {recv : Receive σ}

theorem exceptionHandler_of_answerable {exc : Exc} (h : exc.answerable = true) :
    ∃ handler, exceptionHandler fw exc = some handler := by
  cases exc with
  | other name => cases h
  | _ => exact ⟨_, rfl⟩

/-- The id in the state of the request can be sent in a header. -/
def World.Stampable (w : World σ) : Prop := ∀ id ∈ w.requestId, id.isLatin1 = true

/-- A problem becomes a response, or the attempt to encode it raises. -/
theorem serve_problemResponse {problem : ProblemDetail} {headers : Option (List (Str × Str))}
    {w : World σ} (hid : w.Stampable) :
    serve recv (problemResponse fw problem headers) w =
      (if problem.encodable && (headers.getD []).all isFieldLatin1 then
        .ok (problemJson fw problem headers w.requestId)
      else .error (.other (text "UnicodeEncodeError")), w.fresh) := by
  have hserve : serve recv (problemResponse fw problem headers) w =
      serve recv (match jsonResponse fw problem.status problemMediaType (.problem problem)
          (allHeaders problem headers w.requestId) with
        | .ok response => return response
        | .error exc => .raise exc) w := rfl
  rw [hserve, jsonResponse_problem hid]
  cases problem.encodable && (headers.getD []).all isFieldLatin1 with
  | true => rfl
  | false => rfl

/-- The world, after an event was logged. -/
def World.log (w : World σ) (event : LogEvent) : World σ :=
  { w.fresh with logged := ⟨event, w.context⟩ :: w.logged }

theorem World.Stampable.log {w : World σ} (hid : w.Stampable) (event : LogEvent) :
    (w.log event).Stampable := hid

theorem serve_logged {α : Type} (event : LogEvent) {p : Part α} {x : Except Exc α}
    {w w' : World σ} (h : serve recv p (w.log event) = (x, w')) :
    serve recv (Prog.op (Asgi.log event) >>= fun _ => p) w = (x, w') := by
  have hlog : serve recv (Prog.op (Asgi.log event)) w = (.ok (), w.log event) := rfl
  exact (serve_seq hlog h).trans rfl

/-- **A handler makes a problem response of its exception**, or it raises: if the detail
is not a string, or something cannot be encoded. -/
theorem serve_exceptionHandler {scope : Scope} {exc : Exc} {handler : Handler}
    (h : exceptionHandler fw exc = some handler) {w : World σ} (hid : w.Stampable) :
    ∃ w', w'.sent = [] ∧
      if exc.answerable then serve recv (handler scope exc) w =
        (.ok (problemJson fw (problemOf fw scope exc).1 (problemOf fw scope exc).2 w.requestId), w')
      else ∃ exc', serve recv (handler scope exc) w = (.error exc', w') := by
  have hencoded : ∀ {c : Bool} {p : Part Response} {x : Response} {w' : World σ},
      serve recv p w = (if c then .ok x else .error (.other (text "UnicodeEncodeError")), w') →
      if c then serve recv p w = (.ok x, w') else ∃ exc', serve recv p w = (.error exc', w') := by
    intro c p x w' hserve
    cases c with
    | true => exact hserve
    | false => exact ⟨_, hserve⟩
  rcases exc with ⟨cls, bases, message⟩ | issues | ⟨status, _ | detail, headers⟩ | name
  case domain =>
    obtain rfl := Option.some.inj h
    -- it is logged first
    have hserve := serve_logged (.domainError (Exc.domain cls bases message).name
      (specFor (cls :: bases)).status (text scope.path)) (@serve_problemResponse fw σ recv
        (domainProblem scope cls bases message) none _ (hid.log _))
    rw [encodable_domainProblem, Option.getD_none, List.all_nil, Bool.and_true] at hserve
    exact ⟨_, rfl, hencoded hserve⟩
  case requestValidation =>
    obtain rfl := Option.some.inj h
    have hserve := @serve_problemResponse fw σ recv (validationProblem scope issues) none w hid
    rw [encodable_validationProblem, Option.getD_none, List.all_nil, Bool.and_true] at hserve
    exact ⟨_, rfl, hencoded hserve⟩
  case http.none =>
    obtain rfl := Option.some.inj h
    exact ⟨w.fresh, rfl, _, rfl⟩
  case http.some =>
    obtain rfl := Option.some.inj h
    have hserve := @serve_problemResponse fw σ recv (httpProblem fw scope status detail) headers w
      hid
    rw [encodable_httpProblem] at hserve
    exact ⟨_, rfl, hencoded hserve⟩
  case other => cases h

/-- The handler for all exceptions does not raise. -/
theorem serve_unhandledExceptionHandler (scope : Scope) (exc : Exc) {w : World σ}
    (hid : w.Stampable) :
    serve recv (unhandledExceptionHandler fw scope exc) w =
      (.ok (problemJson fw (internalProblem scope) none w.requestId),
        w.log (.unhandledError exc.name scope.method (text scope.path))) := by
  have hserve := serve_logged (.unhandledError exc.name scope.method (text scope.path))
    (@serve_problemResponse fw σ recv (internalProblem scope) none _ (hid.log _))
  rw [encodable_internalProblem] at hserve
  exact hserve

theorem quiet_exceptionHandler {scope : Scope} {exc : Exc} {handler : Handler}
    (h : exceptionHandler fw exc = some handler) : Quiet (handler scope exc) := by
  have hproblem : ∀ problem headers, Quiet (problemResponse fw problem headers) := by
    refine fun problem headers => ⟨trivial, fun requestId _ => ?_⟩
    show Prog.Along _ _ _ (match jsonResponse fw problem.status problemMediaType
      (.problem problem) (allHeaders problem headers requestId) with
      | .ok response => (pure response : Part Response)
      | .error exc => .raise exc)
    split <;> trivial
  rcases exc with ⟨cls, bases, message⟩ | issues | ⟨status, _ | detail, headers⟩ | name
  case domain =>
    obtain rfl := Option.some.inj h
    exact ⟨trivial, fun _ _ => hproblem _ _⟩
  case http.none =>
    obtain rfl := Option.some.inj h
    trivial
  case other => cases h
  all_goals
    obtain rfl := Option.some.inj h
    exact hproblem _ _

end answers

/-! ### Their headers -/

theorem values_encodedResponse (status : ℤ) (mediaType : Str) (content : Content)
    (headers : List (Str × Str)) {name : Str} (hname : name ∉ plainNames) :
    values (encodedResponse fw status mediaType content headers).headers name =
      values (headers.map fun h => (lowerName h.1, h.2)) name := by
  have hlength : text "content-length" ≠ name := fun heq => hname (heq ▸ by decide)
  have htype : text "content-type" ≠ name := fun heq => hname (heq ▸ by decide)
  simp only [encodedResponse, values_append]
  split <;> split <;> simp [values, hlength, htype]

/-- A JSON response has its media type, unless its headers say otherwise. -/
theorem values_encodedResponse_contentType (status : ℤ) (mediaType : Str) (content : Content)
    {headers : List (Str × Str)} (h : ∀ item ∈ headers, lowerName item.1 ≠ text "content-type") :
    values (encodedResponse fw status mediaType content headers).headers (text "content-type") =
      [mediaType] := by
  have hraw : ((headers.map fun h => (lowerName h.1, h.2)).any
      fun h => h.1 = text "content-type") = false := by
    rw [List.any_eq_false]
    intro item hitem
    obtain ⟨item', hitem', rfl⟩ := List.mem_map.mp hitem
    simpa using h item' hitem'
  have hne : text "content-length" ≠ text "content-type" := by decide
  simp only [encodedResponse, values_append, values_eq_nil.mpr hraw, hraw]
  split <;> simp [values, hne]

/-- **A problem has its media type**, unless the exception brings another along. -/
theorem values_problem_contentType {problem : ProblemDetail} {headers : Option (List (Str × Str))}
    {requestId : Option Str}
    (h : ∀ item ∈ headers.getD [], lowerName item.1 ≠ text "content-type") :
    values (problemJson fw problem headers requestId).headers (text "content-type") =
      [problemMediaType] := by
  apply values_encodedResponse_contentType
  intro item hitem
  rcases mem_allHeaders hitem with hmem | rfl | ⟨hkey, -⟩
  · exact h item hmem
  · decide
  · rw [hkey]
    decide

/-- The catch-all response stamps the request id itself, and nothing else. -/
theorem values_internalProblem (scope : Scope) (requestId : Option Str) {name : Str}
    (hname : name ∉ plainNames) :
    values (problemJson fw (internalProblem scope) none requestId).headers name =
      if name = text "x-request-id" then requestId.toList else [] := by
  rw [problemJson, values_encodedResponse _ _ _ _ hname]
  have hstatus : ¬ (internalProblem scope).status = 401 := by
    show ¬ (500 : ℤ) = 401
    decide
  have hlower : lowerName (text "X-Request-ID") = text "x-request-id" := by decide
  rcases requestId with _ | requestId
  · simp [allHeaders, hstatus, values]
  · by_cases heq : name = text "x-request-id"
    · simp [allHeaders, hstatus, dictSetdefault, values, hlower, heq]
    · simp [allHeaders, hstatus, dictSetdefault, values, hlower, heq, Ne.symm heq]

end FastapiStarter.Web
