import FastapiStarter.Delivery

/-!
# Log events and their request

Every event of a request has the request id, but for one: the context is cleared
on the way out, before the outermost middleware logs an exception that nothing
has handled.

## Main definitions

* `Correlated` — everything that is logged has the id that the client gets.

## Main results

* `logged_behind` — what is logged before the context is cleared.
* `uncorrelated_of_error` — **the traceback has no request id**.
* `correlated_iff` — the requests that are correlated.
-/

namespace FastapiStarter.Web

open Interaction

section

variable (fw : Framework) (settings : Settings) (scope : Scope) (endpoint : Endpoint)
  (incoming : List Message) (uuids : ℕ → UUID)

/-- Every event has the id of the request, which the client gets with the response. -/
structure Correlated : Prop where
  logged : ∀ r ∈ (request fw settings scope endpoint incoming uuids).2.logged,
    r.requestId = some ((connect incoming uuids).givenId scope)
  returned : ∀ s ∈ starts (request fw settings scope endpoint incoming uuids).2.sent,
    values s.2 requestIdHeader = [(connect incoming uuids).givenId scope]

/-- The code behind the context sets no other id in its response. -/
def KeepsId : Prop :=
  ∀ s ∈ starts (behindContext fw settings scope endpoint incoming uuids).2.sent,
    values s.2 requestIdHeader = [] ∨
      values s.2 requestIdHeader = [(connect incoming uuids).givenId scope]

end

section

variable {fw : Framework} {settings : Settings} {scope : Scope} {endpoint : Endpoint}
  {incoming : List Message} {uuids : ℕ → UUID}

/-- **Before the context is cleared**, everything that is logged has the id, and the
response starts have it unless the code behind the context sets another. -/
theorem logged_behind (hcors : corsAnswer fw settings scope = none) :
    ∃ w', serve client (setupMiddleware fw settings scope
        (exceptionMiddleware (exceptionHandler fw) scope endpoint.app)) (connect incoming uuids) =
      ((behindContext fw settings scope endpoint incoming uuids).1, w') ∧ w'.context = none ∧
      w'.Stampable ∧
      (∀ r ∈ w'.logged, r.requestId = some ((connect incoming uuids).givenId scope)) ∧
      (starts w'.sent = [] ↔
        starts (behindContext fw settings scope endpoint incoming uuids).2.sent = []) ∧
      ((∀ s ∈ starts w'.sent,
          values s.2 requestIdHeader = [(connect incoming uuids).givenId scope]) ↔
        KeepsId fw settings scope endpoint incoming uuids) := by
  obtain ⟨g, hg, w', hserve, hsent, hgiven, hcontext, status, new, hlogged, hnew⟩ :=
    @serve_behind fw settings scope endpoint _ client (connect incoming uuids) hcors
  refine ⟨w', hserve, hcontext, stampable_of_givenId hgiven, ?_, ?_, ?_⟩
  · intro r hr
    rw [hlogged] at hr
    rcases List.mem_cons.mp hr with rfl | hr
    · rfl
    · rcases List.mem_append.mp hr with hr | hr
      · exact hnew r hr
      · cases hr
  · rw [hsent, starts_map_sendWithHeaders, List.map_eq_nil_iff]
    rfl
  · have hid : ∀ headers, values (g headers) requestIdHeader =
        [(connect incoming uuids).givenId scope] ↔
        values headers requestIdHeader = [] ∨
          values headers requestIdHeader = [(connect incoming uuids).givenId scope] := by
      intro headers
      rw [hg _ _ (by decide), values_setdefault_self]
      by_cases hnone : values headers requestIdHeader = []
      · simp [hnone]
      · simp [hnone]
    rw [hsent, starts_map_sendWithHeaders, List.forall_mem_map]
    exact forall₂_congr fun s _ => hid s.2

/-- **The traceback has no request id**: it is logged when the context is gone. -/
theorem uncorrelated_of_error (hcors : corsAnswer fw settings scope = none) {exc : Exc}
    (hraised : (behindContext fw settings scope endpoint incoming uuids).1 = .error exc)
    (hdebug : settings.app.debug = false) :
    ∃ r ∈ (request fw settings scope endpoint incoming uuids).2.logged,
      r.event = .unhandledError exc.name scope.method (text scope.path) ∧ r.requestId = none := by
  obtain ⟨w', hserve, hcontext, hid, -⟩ :=
    @logged_behind fw settings scope endpoint incoming uuids hcors
  rw [hraised] at hserve
  rw [request, logged_of_error hid hserve, hdebug]
  exact ⟨_, List.mem_cons_self, rfl, hcontext⟩

/-- In debug mode nothing is logged for it, but the response of the framework has no
request id. -/
theorem correlated_debug_iff (hcors : corsAnswer fw settings scope = none) {exc : Exc}
    (hraised : (behindContext fw settings scope endpoint incoming uuids).1 = .error exc)
    (hdebug : settings.app.debug = true) :
    Correlated fw settings scope endpoint incoming uuids ↔
      starts (behindContext fw settings scope endpoint incoming uuids).2.sent ≠ [] ∧
        KeepsId fw settings scope endpoint incoming uuids := by
  obtain ⟨w', hserve, -, hid, hlogged, hstarts, hkeeps⟩ :=
    @logged_behind fw settings scope endpoint incoming uuids hcors
  rw [hraised] at hserve
  have hsent := sent_of_error hid hserve
  have hlog := logged_of_error hid hserve
  rw [hdebug, if_pos rfl] at hlog
  change (request fw settings scope endpoint incoming uuids).2.sent = _ at hsent
  change (request fw settings scope endpoint incoming uuids).2.logged = _ at hlog
  by_cases hnone : starts w'.sent = []
  · refine ⟨fun h => ?_, fun h => absurd (hstarts.mp hnone) h.1⟩
    have hreturned := h.returned
    rw [hsent, if_pos hnone, starts_append, hnone, lastAnswer, hdebug] at hreturned
    have hid := hreturned _ (List.mem_singleton_self _)
    rw [if_pos rfl, values_of_names (fw.debugResponse_names scope exc) (by decide)] at hid
    cases hid
  · rw [if_neg hnone, List.append_nil] at hsent
    refine ⟨fun h => ⟨fun hnil => hnone (hstarts.mpr hnil), hkeeps.mp ?_⟩, fun h => ⟨?_, ?_⟩⟩
    · exact hsent ▸ h.returned
    · exact hlog ▸ hlogged
    · exact hsent ▸ hkeeps.mpr h.2

/-- **The requests that are correlated**: no exception leaves the code behind the
context, or it comes in debug mode when the response has started; and that code
sets no other id. -/
theorem correlated_iff (hcors : corsAnswer fw settings scope = none) :
    Correlated fw settings scope endpoint incoming uuids ↔
      ((behindContext fw settings scope endpoint incoming uuids).1 = .ok () ∨
        settings.app.debug = true ∧
          starts (behindContext fw settings scope endpoint incoming uuids).2.sent ≠ []) ∧
      KeepsId fw settings scope endpoint incoming uuids := by
  rcases hout : (behindContext fw settings scope endpoint incoming uuids).1 with exc | ⟨⟩
  · cases hdebug : settings.app.debug with
    | true => simpa using correlated_debug_iff hcors hout hdebug
    | false =>
      obtain ⟨r, hr, -, hnone⟩ := uncorrelated_of_error hcors hout hdebug
      refine ⟨fun h => ?_, fun h => ?_⟩
      · have hid := h.logged r hr
        rw [hnone] at hid
        cases hid
      · simp at h
  · obtain ⟨w', hserve, -, -, hlogged, -, hkeeps⟩ :=
      @logged_behind fw settings scope endpoint incoming uuids hcors
    rw [hout] at hserve
    have hsent := sent_of_ok hserve
    have hlog := logged_of_ok hserve
    change (request fw settings scope endpoint incoming uuids).2.sent = _ at hsent
    change (request fw settings scope endpoint incoming uuids).2.logged = _ at hlog
    refine ⟨fun h => ⟨.inl rfl, hkeeps.mp ?_⟩, fun h => ⟨?_, ?_⟩⟩
    · exact hsent ▸ h.returned
    · exact hlog ▸ hlogged
    · exact hsent ▸ hkeeps.mpr h.2

/-- A request is correlated if the endpoint answers it. -/
theorem correlated_health :
    Correlated plainFramework {} (getRequest "/health" (text "api"))
      (answering ⟨200, [], .bytes []⟩) [] fun _ => ⟨0⟩ :=
  (correlated_iff (by decide)).mpr ⟨.inl rfl, by unfold KeepsId; decide +kernel⟩

/-- It is not if the endpoint raises an error that has no handler. -/
theorem uncorrelated_boom :
    corsAnswer plainFramework {} (getRequest "/boom" (text "api")) = none ∧
      ¬ Correlated plainFramework {} (getRequest "/boom" (text "api"))
        (.raise (.other (text "RuntimeError"))) [] fun _ => ⟨0⟩ := by
  have hcors : corsAnswer plainFramework {} (getRequest "/boom" (text "api")) = none := by
    decide
  refine ⟨hcors, fun h => ?_⟩
  obtain ⟨r, hr, -, hnone⟩ := @uncorrelated_of_error _ _ _ (.raise (.other (text "RuntimeError")))
    [] (fun _ => ⟨0⟩) hcors _ rfl rfl
  have hid := h.logged r hr
  rw [hnone] at hid
  cases hid

end

end FastapiStarter.Web
