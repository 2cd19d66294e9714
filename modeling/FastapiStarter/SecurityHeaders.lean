import FastapiStarter.Delivery

/-!
# Security headers

The security headers are stamped by one layer, which sees what comes from behind
it.  Responses that start outside of it have none of them: the catch-all response,
and those of the layers that stop a request.

## Main definitions

* `securityNames` — the fields.
* `Secured` — every response has each of them once, as the endpoint has set it.

## Main results

* `secured_of_held` — **a response from behind the layer**.
* `unsecured_of_last`, `unsecured_of_hostAnswer` — the others.
* `secured_iff` — the requests that are answered with them.
-/

namespace FastapiStarter.Web

open Interaction

/-! ### The fields -/

/-- The names of the security headers. -/
def securityNames (hsts : Bool) : List Str := (securityHeaders hsts).map (·.1)

theorem securityNames_disjoint (hsts : Bool) : ∀ name ∈ securityNames hsts,
    name ∉ plainNames ++ corsNames ∧ name ∉ gzipNames ∧ name ≠ requestIdHeader := by
  cases hsts <;> decide

theorem contentTypeOptions_mem (hsts : Bool) :
    text "x-content-type-options" ∈ securityNames hsts :=
  List.mem_cons_self

/-- **A stamped header is there once**, unless it was there more often. -/
theorem length_values_stampSecurity {hsts : Bool} {name : Str} (hname : name ∈ securityNames hsts)
    (headers : Headers) :
    (values (stampSecurity hsts headers) name).length = max 1 (values headers name).length := by
  rw [values_stampSecurity]
  by_cases hnone : values headers name = []
  · obtain ⟨h, hmem, hkey⟩ := List.mem_map.mp hname
    have hfound : ((securityHeaders hsts).find? fun h => h.1 = name).isSome :=
      List.find?_isSome.mpr ⟨h, hmem, by simpa using hkey⟩
    obtain ⟨found, hfind⟩ := Option.isSome_iff_exists.mp hfound
    rw [if_pos hnone, hnone, hfind]
    rfl
  · have hpos : 0 < (values headers name).length := List.length_pos_iff.mpr hnone
    rw [if_neg hnone]
    omega

theorem values_stampSecurity_of_ne {hsts : Bool} {name : Str} {headers : Headers}
    (h : values headers name ≠ []) : values (stampSecurity hsts headers) name =
      values headers name := by
  rw [values_stampSecurity, if_neg h]

/-! ### Responses -/

section

variable (fw : Framework) (settings : Settings) (scope : Scope) (endpoint : Endpoint)
  (incoming : List Message) (uuids : ℕ → UUID)

/-- Every response start has each security header once; and if the request passes,
with the values that the code behind the security headers has set. -/
structure Secured : Prop where
  once : ∀ s ∈ starts (request fw settings scope endpoint incoming uuids).2.sent,
    ∀ name ∈ securityNames settings.isProduction, (values s.2 name).length = 1
  kept : corsAnswer fw settings scope = none → hostAnswer fw settings scope = none →
    ∀ set, heldStart none (behindHeaders fw settings scope endpoint incoming uuids).2.sent =
      some set →
    ∀ s ∈ starts (request fw settings scope endpoint incoming uuids).2.sent,
    ∀ name ∈ securityNames settings.isProduction,
      values set.2 name ≠ [] → values s.2 name = values set.2 name

/-- An exception is left, and no response is under way. -/
def Lost : Prop :=
  Unanswered (atEndpoint settings scope endpoint incoming uuids) ∧
    heldStart none (atEndpoint settings scope endpoint incoming uuids).2.sent = none

end

section

variable {fw : Framework} {settings : Settings} {scope : Scope} {endpoint : Endpoint}
  {incoming : List Message} {uuids : ℕ → UUID}

/-- A response without security headers. -/
theorem not_secured {s : ℤ × Headers}
    (hstarts : starts (request fw settings scope endpoint incoming uuids).2.sent = [s])
    (hnone : ∀ name ∈ securityNames settings.isProduction, values s.2 name = []) :
    ¬ Secured fw settings scope endpoint incoming uuids := by
  intro h
  have honce := h.once s (by rw [hstarts]; exact List.mem_singleton_self s) _
    (contentTypeOptions_mem _)
  rw [hnone _ (contentTypeOptions_mem _)] at honce
  cases honce

/-- `CORSMiddleware` answers without them. -/
theorem unsecured_of_corsAnswer {response : Response}
    (hcors : corsAnswer fw settings scope = some response) :
    ¬ Secured fw settings scope endpoint incoming uuids := by
  have hsent := @sent_of_corsAnswer fw settings scope endpoint _ client (connect incoming uuids)
    response hcors
  refine @not_secured _ _ _ _ _ _ (response.status, response.headers)
    (by rw [request, hsent]; rfl) fun name hname => ?_
  have hnames : ∀ h ∈ response.headers, h.1 ∈ plainNames ++ corsNames := by
    unfold corsAnswer at hcors
    split at hcors
    · cases hcors
    · exact fw.cors_names _ _ _ hcors
  exact values_of_names hnames (securityNames_disjoint _ name hname).1

/-- `TrustedHostMiddleware` answers without them. -/
theorem unsecured_of_hostAnswer {response : Response} (hcors : corsAnswer fw settings scope = none)
    (hhost : hostAnswer fw settings scope = some response) :
    ¬ Secured fw settings scope endpoint incoming uuids := by
  obtain ⟨g, hg, hstarts, -⟩ := @starts_of_hostAnswer fw settings scope endpoint _ client
    (connect incoming uuids) response hcors hhost
  refine not_secured hstarts fun name hname => ?_
  obtain ⟨hplain, -, hid⟩ := securityNames_disjoint _ name hname
  rw [List.mem_append, not_or] at hplain
  rw [hg _ _ hplain.2, values_setdefault_of_ne hid]
  exact values_of_names (fw.trustedHost_names _ _ _ hhost) hplain.1

/-- **The catch-all response has no security headers.** -/
theorem unsecured_of_last (hcors : corsAnswer fw settings scope = none)
    (hhost : hostAnswer fw settings scope = none) {exc : Exc}
    (hheld : heldStart none (behindHeaders fw settings scope endpoint incoming uuids).2.sent = none)
    (hraised : (behindHeaders fw settings scope endpoint incoming uuids).1 = .error exc) :
    ¬ Secured fw settings scope endpoint incoming uuids := by
  obtain ⟨hstarts, -⟩ := starts_of_raised hcors hhost hheld hraised
  refine not_secured hstarts fun name hname => ?_
  obtain ⟨hplain, -, hid⟩ := securityNames_disjoint _ name hname
  rw [List.mem_append, not_or] at hplain
  unfold lastAnswer
  split
  · exact values_of_names (fw.debugResponse_names _ _) hplain.1
  · exact (values_internalProblem _ _ hplain.1).trans (if_neg hid)

/-- **A response from behind the layer** has each header once, unless it comes with
one more often. -/
theorem secured_of_held (hcors : corsAnswer fw settings scope = none)
    (hhost : hostAnswer fw settings scope = none) {set : ℤ × Headers}
    (hheld : heldStart none (behindHeaders fw settings scope endpoint incoming uuids).2.sent =
      some set) :
    Secured fw settings scope endpoint incoming uuids ↔
      ∀ name ∈ securityNames settings.isProduction, (values set.2 name).length ≤ 1 := by
  obtain ⟨headers, hstarts, -, hvalues⟩ := starts_of_held hcors hhost hheld
  have hstamped : ∀ name ∈ securityNames settings.isProduction,
      values headers name = values (stampSecurity settings.isProduction set.2) name := by
    intro name hname
    obtain ⟨hplain, hgzip, hid⟩ := securityNames_disjoint _ name hname
    rw [List.mem_append, not_or] at hplain
    rw [hvalues name hgzip hplain.2, values_setdefault_of_ne hid]
  refine ⟨fun h name hname => ?_, fun h => ⟨fun s hs name hname => ?_, ?_⟩⟩
  · have honce := h.once (set.1, headers) (by rw [request, hstarts]; exact List.mem_cons_self)
      name hname
    rw [hstamped name hname, length_values_stampSecurity hname] at honce
    omega
  · rw [request, hstarts, List.mem_singleton] at hs
    rw [hs, hstamped name hname, length_values_stampSecurity hname]
    have hle := h name hname
    omega
  · intro _ _ set' hheld' s hs name hname hset
    obtain rfl := Option.some.inj (hheld.symm.trans hheld')
    rw [request, hstarts, List.mem_singleton] at hs
    rw [hs, hstamped name hname, values_stampSecurity_of_ne hset]

/-- Without a response start there is nothing to secure. -/
theorem secured_of_ok (hcors : corsAnswer fw settings scope = none)
    (hhost : hostAnswer fw settings scope = none)
    (hheld : heldStart none (behindHeaders fw settings scope endpoint incoming uuids).2.sent = none)
    (hok : (behindHeaders fw settings scope endpoint incoming uuids).1 = .ok ()) :
    Secured fw settings scope endpoint incoming uuids := by
  have hstarts := starts_of_ok hcors hhost hheld hok
  refine ⟨fun s hs => ?_, fun _ _ set hset => ?_⟩
  · rw [request, hstarts] at hs
    cases hs
  · rw [hheld] at hset
    cases hset

/-- An exception is lost when the code behind the layer raises and has sent nothing. -/
theorem lost_iff : Lost settings scope endpoint incoming uuids ↔
    (∃ exc, (behindHeaders fw settings scope endpoint incoming uuids).1 = .error exc) ∧
      heldStart none (behindHeaders fw settings scope endpoint incoming uuids).2.sent = none := by
  refine ⟨fun h => ?_, fun h => ?_⟩
  · obtain ⟨hret, hsent⟩ := serve_inner_of_unanswered stampable_bound h.1
    exact ⟨hret, (congrArg (heldStart none) hsent).trans h.2⟩
  · obtain ⟨⟨exc, hexc⟩, hheld⟩ := h
    have hun := unanswered_of_error stampable_bound hexc
    obtain ⟨-, hsent⟩ :=
      @serve_inner_of_unanswered fw settings scope endpoint _ _ _ stampable_bound hun
    exact ⟨hun, (congrArg (heldStart none) hsent).symm.trans hheld⟩

/-- **The requests that are answered with security headers**: no layer stops the
request, no exception is lost, and no header is set more than once. -/
theorem secured_iff : Secured fw settings scope endpoint incoming uuids ↔
    corsAnswer fw settings scope = none ∧ hostAnswer fw settings scope = none ∧
      ¬ Lost settings scope endpoint incoming uuids ∧
      ∀ set, heldStart none (behindHeaders fw settings scope endpoint incoming uuids).2.sent =
        some set →
      ∀ name ∈ securityNames settings.isProduction, (values set.2 name).length ≤ 1 := by
  rcases hcors : corsAnswer fw settings scope with _ | response
  swap
  · exact ⟨fun h => absurd h (unsecured_of_corsAnswer hcors), fun h => nomatch h.1⟩
  rcases hhost : hostAnswer fw settings scope with _ | response
  swap
  · exact ⟨fun h => absurd h (unsecured_of_hostAnswer hcors hhost), fun h => nomatch h.2.1⟩
  rw [lost_iff]
  rcases hheld : heldStart none (behindHeaders fw settings scope endpoint incoming uuids).2.sent
    with _ | set
  · rcases hout : (behindHeaders fw settings scope endpoint incoming uuids).1 with exc | ⟨⟩
    · exact ⟨fun h => absurd h (unsecured_of_last hcors hhost hheld hout),
        fun h => absurd ⟨⟨exc, rfl⟩, rfl⟩ h.2.2.1⟩
    · refine ⟨fun _ => ⟨rfl, rfl, fun h => ?_, fun _ h => nomatch h⟩,
        fun _ => secured_of_ok hcors hhost hheld hout⟩
      obtain ⟨exc, hexc⟩ := h.1
      cases hexc
  · rw [secured_of_held hcors hhost hheld]
    refine ⟨fun h => ⟨rfl, rfl, fun hlost => ?_, fun set' hset => ?_⟩,
      fun h => h.2.2.2 set rfl⟩
    · cases hlost.2
    · obtain rfl := Option.some.inj hset
      exact h

/-- In production, an error that has no handler and a request for another host are
answered without security headers. -/
theorem unsecured_production : productionSettings.Accepted ∧
    ¬ Secured plainFramework productionSettings (getRequest "/boom" (text "api"))
      (.raise (.other (text "RuntimeError"))) [] (fun _ => ⟨0⟩) ∧
    ¬ Secured plainFramework productionSettings (getRequest "/health" (text "evil"))
      (answering ⟨200, [], .bytes []⟩) [] (fun _ => ⟨0⟩) := by
  refine ⟨productionSettings_accepted, ?_, ?_⟩
  · exact unsecured_of_last (by decide +kernel) (by decide +kernel) (by decide +kernel) rfl
  · exact unsecured_of_hostAnswer (by decide +kernel) rfl

end

end FastapiStarter.Web
