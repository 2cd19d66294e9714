import FastapiStarter.Delivery

/-!
# One error contract

An exception of the endpoint reaches the client as a problem response, wherever in
the stack it is answered.  Errors that are not exceptions of the endpoint do not:
the layers that stop a request answer in plain text, and what the endpoint sends
itself goes through as it is.

## Main definitions

* `KeepsContract` — a response with an error status is a problem with that status.

## Main results

* `keepsContract_handled` — an exception that a handler answers.
* `keepsContract_unanswered` — **an exception that nothing answers**.
* `keepsContract_request` — every request that the application answers itself.
-/

namespace FastapiStarter.Web

open Interaction

/-! ### The contract -/

/-- A response with an error status is a problem with that status, and has a request id. -/
def KeepsContract (ms : List Message) : Prop :=
  ∀ s ∈ starts ms, 400 ≤ s.1 →
    values s.2 (text "content-type") = [problemMediaType] ∧
      (∃ problem, contents ms = [.problem problem] ∧ problem.status = s.1) ∧
      values s.2 requestIdHeader ≠ []

theorem keepsContract_of_lt {ms : List Message} (h : ∀ s ∈ starts ms, s.1 < 400) :
    KeepsContract ms :=
  fun s hs herror => absurd herror (not_le.mpr (h s hs))

/-- A problem response keeps the contract. -/
theorem keepsContract_of_problem {ms : List Message} {problem : ProblemDetail} {headers : Headers}
    (hstarts : starts ms = [(problem.status, headers)])
    (hcontents : contents ms = [.problem problem])
    (htype : values headers (text "content-type") = [problemMediaType])
    (hid : values headers requestIdHeader ≠ []) : KeepsContract ms := by
  intro s hs _
  rw [hstarts, List.mem_singleton] at hs
  subst hs
  exact ⟨htype, ⟨problem, hcontents, rfl⟩, hid⟩

/-- An error of another media type breaks it. -/
theorem not_keepsContract {ms : List Message}
    (h : (starts ms).any fun s => 400 ≤ s.1 ∧
      values s.2 (text "content-type") ≠ [problemMediaType]) : ¬ KeepsContract ms := by
  intro hkeeps
  obtain ⟨s, hs, hbad⟩ := List.any_eq_true.mp h
  obtain ⟨herror, htype⟩ := of_decide_eq_true hbad
  exact htype (hkeeps s hs herror).1

/-! ### Responses of the application -/

/-- The response start after which a problem is sent: there was nothing before. -/
theorem heldStart_messages {past : List Message} (hstarts : starts past = []) {r : Response}
    {s : ℤ × Headers} (h : heldStart none (past ++ r.messages) = some s) :
    s = (r.status, r.headers) ∧ contents (past ++ r.messages) = [r.content] := by
  by_cases hcontents : contents past = []
  · rw [heldStart_append hcontents, hstarts] at h
    refine ⟨(Option.some.inj h).symm, ?_⟩
    rw [contents_append, hcontents]
    rfl
  · rw [heldStart_append_of_body hcontents] at h
    rcases mem_starts_of_heldStart h with hnone | hmem
    · cases hnone
    · rw [hstarts] at hmem
      cases hmem

/-- The media type of an answer, unless the exception brings another along. -/
theorem values_handledAnswer_contentType {fw : Framework} {scope : Scope} {exc : Exc}
    {requestId : Option Str}
    (h : ∀ status detail headers, exc = .http status detail (some headers) →
      ∀ item ∈ headers, lowerName item.1 ≠ text "content-type") :
    values (handledAnswer fw scope exc requestId).headers (text "content-type") =
      [problemMediaType] := by
  apply values_problem_contentType
  intro item hitem
  rcases exc with ⟨cls, bases, message⟩ | issues | ⟨status, _ | detail, _ | headers⟩ | name
  case http.some.some => exact h status detail headers rfl item hitem
  all_goals cases hitem

section

variable {fw : Framework} {settings : Settings} {scope : Scope} {endpoint : Endpoint}
  {incoming : List Message} {uuids : ℕ → UUID}

section passes

variable (hcors : corsAnswer fw settings scope = none)
  (hhost : hostAnswer fw settings scope = none)

include hcors hhost

/-- What the endpoint sends itself is not changed, and is no error. -/
theorem keepsContract_own
    (hown : ∀ s ∈ starts (behindHeaders fw settings scope endpoint incoming uuids).2.sent,
      s.1 < 400)
    {set : ℤ × Headers}
    (hheld : heldStart none (behindHeaders fw settings scope endpoint incoming uuids).2.sent =
      some set) :
    KeepsContract (request fw settings scope endpoint incoming uuids).2.sent := by
  obtain ⟨headers, hstarts, -⟩ := starts_of_held hcors hhost hheld
  refine keepsContract_of_lt fun s hs => ?_
  rw [request, hstarts, List.mem_singleton] at hs
  rcases mem_starts_of_heldStart hheld with hnone | hmem
  · cases hnone
  · rw [hs]
    exact hown set hmem

/-- **An exception that a handler answers** becomes a problem. -/
theorem keepsContract_handled {exc : Exc} {past : List Message} {requestId : Option Str}
    (hpast : starts past = [])
    (hsent : (behindHeaders fw settings scope endpoint incoming uuids).2.sent =
      past ++ (handledAnswer fw scope exc requestId).messages)
    (htype : ∀ status detail headers, exc = .http status detail (some headers) →
      ∀ item ∈ headers, lowerName item.1 ≠ text "content-type")
    {set : ℤ × Headers}
    (hheld : heldStart none (behindHeaders fw settings scope endpoint incoming uuids).2.sent =
      some set) :
    KeepsContract (request fw settings scope endpoint incoming uuids).2.sent := by
  obtain ⟨headers, hstarts, hcontents, hvalues⟩ := starts_of_held hcors hhost hheld
  change _ = contents (behindHeaders fw settings scope endpoint incoming uuids).2.sent at hcontents
  rw [hsent] at hheld hcontents
  obtain ⟨rfl, hproblem⟩ := heldStart_messages hpast hheld
  rw [hproblem] at hcontents
  refine keepsContract_of_problem hstarts hcontents ?_ ?_
  · have htype' := @values_handledAnswer_contentType fw scope exc requestId htype
    rw [hvalues _ (by decide) (by decide), values_setdefault_of_ne (by decide),
      values_stampSecurity, htype']
    rfl
  · rw [hvalues _ (by decide) (by decide), values_setdefault_self]
    split
    · exact List.cons_ne_nil _ _
    · assumption

/-- **An exception that nothing answers** becomes a problem outside of every
middleware. -/
theorem keepsContract_unanswered {exc : Exc}
    (hraised : (behindHeaders fw settings scope endpoint incoming uuids).1 = .error exc)
    (hheld : heldStart none (behindHeaders fw settings scope endpoint incoming uuids).2.sent = none)
    (hdebug : settings.app.debug = false) :
    KeepsContract (request fw settings scope endpoint incoming uuids).2.sent := by
  obtain ⟨hstarts, hcontents⟩ := starts_of_raised hcors hhost hheld hraised
  rw [lastAnswer, hdebug] at hstarts hcontents
  refine keepsContract_of_problem hstarts hcontents
    (values_problem_contentType fun item hitem => nomatch hitem) ?_
  rw [if_neg Bool.false_ne_true, values_internalProblem _ _ (by decide)]
  exact List.cons_ne_nil _ _

/-- A request that passes, by what the endpoint does. -/
theorem keepsContract_passes
    (hdebug : settings.app.debug = true →
      ¬ Unanswered (atEndpoint settings scope endpoint incoming uuids))
    (hown : ∀ s ∈ starts (atEndpoint settings scope endpoint incoming uuids).2.sent, s.1 < 400)
    (htype : ∀ status detail headers,
      (atEndpoint settings scope endpoint incoming uuids).1 =
        .error (.http status detail (some headers)) →
      ∀ item ∈ headers, lowerName item.1 ≠ text "content-type") :
    KeepsContract (request fw settings scope endpoint incoming uuids).2.sent := by
  rcases hheld : heldStart none (behindHeaders fw settings scope endpoint incoming uuids).2.sent
    with _ | set
  · rcases hout : (behindHeaders fw settings scope endpoint incoming uuids).1 with exc | ⟨⟩
    · have hun : Unanswered (atEndpoint settings scope endpoint incoming uuids) :=
        unanswered_of_error stampable_bound hout
      exact keepsContract_unanswered hcors hhost hout hheld
        (Bool.eq_false_iff.mpr fun h => hdebug h hun)
    · refine keepsContract_of_lt fun s hs => ?_
      rw [request, starts_of_ok hcors hhost hheld hout] at hs
      cases hs
  · rcases @serve_inner fw settings scope endpoint _ client ((connect incoming uuids).bound scope)
        stampable_bound with ⟨-, -, hsent⟩ | ⟨exc, hr, -, hnil, -, hsent⟩ | ⟨-, -, hsent⟩
    · exact keepsContract_own hcors hhost (by rw [behindHeaders, hsent]; exact hown) hheld
    · refine keepsContract_handled hcors hhost hnil hsent
        (fun status detail headers heq => ?_) hheld
      exact htype status detail headers (heq ▸ hr)
    · exact keepsContract_own hcors hhost (by rw [behindHeaders, hsent]; exact hown) hheld

end passes

/-- **One error contract**: a request that no layer answers with an error, and for
which the endpoint sends no error itself, keeps it.  In debug mode the endpoint may
raise only what a handler answers; an `HTTPException` may not name a media type. -/
theorem keepsContract_request
    (hcors : ∀ r, corsAnswer fw settings scope = some r → r.status < 400)
    (hhost : ∀ r, hostAnswer fw settings scope = some r → r.status < 400)
    (hdebug : settings.app.debug = true →
      ¬ Unanswered (atEndpoint settings scope endpoint incoming uuids))
    (hown : ∀ s ∈ starts (atEndpoint settings scope endpoint incoming uuids).2.sent, s.1 < 400)
    (htype : ∀ status detail headers,
      (atEndpoint settings scope endpoint incoming uuids).1 =
        .error (.http status detail (some headers)) →
      ∀ item ∈ headers, lowerName item.1 ≠ text "content-type") :
    KeepsContract (request fw settings scope endpoint incoming uuids).2.sent := by
  rcases hc : corsAnswer fw settings scope with _ | response
  · rcases hh : hostAnswer fw settings scope with _ | response
    · exact keepsContract_passes hc hh hdebug hown htype
    · refine keepsContract_of_lt fun s hs => ?_
      obtain ⟨g, -, hstarts, -⟩ := @starts_of_hostAnswer fw settings scope endpoint _ client
        (connect incoming uuids) response hc hh
      rw [request, hstarts, List.mem_singleton] at hs
      rw [hs]
      exact hhost response hh
  · refine keepsContract_of_lt fun s hs => ?_
    rw [request, sent_of_corsAnswer hc, starts_messages, List.mem_singleton] at hs
    rw [hs]
    exact hcors response hc

end

/-- An error that has no handler becomes a problem. -/
theorem keepsContract_boom : KeepsContract
    (request plainFramework productionSettings (getRequest "/boom" (text "api"))
      (.raise (.other (text "RuntimeError"))) [] fun _ => ⟨0⟩).2.sent := by
  have hcors : corsAnswer plainFramework productionSettings
      (getRequest "/boom" (text "api")) = none := by decide +kernel
  have hhost : hostAnswer plainFramework productionSettings
      (getRequest "/boom" (text "api")) = none := by decide +kernel
  refine keepsContract_request (fun r hr => ?_) (fun r hr => ?_) (fun h => ?_) (fun s hs => ?_)
    fun status detail headers h => ?_
  · cases hcors.symm.trans hr
  · cases hhost.symm.trans hr
  · cases h
  · cases hs
  · cases h

/-- A preflight request from a foreign origin. -/
def foreignRequest : Scope where
  method := text "OPTIONS"
  path := "/users"
  headers := [(text "host", text "api"), (text "origin", text "https://evil"),
    (text "access-control-request-method", text "GET")]

/-- A development configuration, in debug mode. -/
def debugSettings : Settings where
  app := { debug := true }

/-- What breaks the contract: the layers that answer for another host and for a
foreign origin, debug mode, a media type that an exception names, and an error that
the endpoint sends itself. -/
theorem broken_contract : productionSettings.Accepted ∧ debugSettings.Accepted ∧
    ¬ KeepsContract (request plainFramework productionSettings
      (getRequest "/health" (text "evil")) (answering ⟨200, [], .bytes []⟩) []
      fun _ => ⟨0⟩).2.sent ∧
    ¬ KeepsContract (request plainFramework productionSettings foreignRequest
      (answering ⟨200, [], .bytes []⟩) [] fun _ => ⟨0⟩).2.sent ∧
    ¬ KeepsContract (request plainFramework debugSettings
      (getRequest "/boom" (text "api")) (.raise (.other (text "RuntimeError"))) []
      fun _ => ⟨0⟩).2.sent ∧
    ¬ KeepsContract (request plainFramework productionSettings
      (getRequest "/teapot" (text "api"))
      (.raise (.http 418 (some (text "teapot"))
        (some [(text "Content-Type", text "text/html")]))) []
      fun _ => ⟨0⟩).2.sent ∧
    ¬ KeepsContract (request plainFramework productionSettings
      (getRequest "/down" (text "api")) (answering (plainResponse 503 [] (text "down"))) []
      fun _ => ⟨0⟩).2.sent := by
  refine ⟨productionSettings_accepted, Settings.accepted_of_not_production rfl, ?_, ?_, ?_, ?_, ?_⟩
  · exact not_keepsContract (by decide +kernel)
  · exact not_keepsContract (by decide +kernel)
  · exact not_keepsContract (by decide +kernel)
  · exact not_keepsContract (by decide +kernel)
  · exact not_keepsContract (by decide +kernel)

end FastapiStarter.Web
