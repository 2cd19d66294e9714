import FastapiStarter.Guessing
import FastapiStarter.Service

/-!
# Owners get through

A request with the credentials of a user passes two gates: the limiter, which counts the
requests of its client, and the handler, which reads the account.  Neither is closed by what
others do: they are counted elsewhere, and the account is out of their reach.

## Main results

* `PublicStages.not_refused` — a client that keeps to the limit is not refused.
* `owners_get_through` — **whatever others send, a request with the credentials of a user is
  served, if its client keeps to the limit.**
-/

namespace FastapiStarter

open FixedWindow Interaction

section availability

variable [Unicode]

/-! ### The limiter -/

omit [Unicode] in
/-- Who has hit a key has sent a command about it. -/
theorem key_of_mem_hits {ι : Type} {env : RedisEnv} {key : Str} {tr : RedisTrace ι} {hit : Hit ι}
    (h : hit ∈ hits env key tr) : ∃ ev ∈ tr, ev.who = hit.who ∧ ev.op.key = key := by
  induction tr with
  | nil => cases h
  | cons ev tr ih =>
    have hold : hit ∈ hits env key tr →
        ∃ ev' ∈ ev :: tr, ev'.who = hit.who ∧ ev'.op.key = key := by
      intro h
      obtain ⟨ev', hmem, hev⟩ := ih h
      exact ⟨ev', List.mem_cons_of_mem _ hmem, hev⟩
    by_cases hincr : ∃ n : ℕ, ev = ⟨ev.who, .incr key, .ok n⟩
    · obtain ⟨n, hn⟩ := hincr
      rw [hn, hits_incr] at h
      rcases List.mem_cons.mp h with rfl | h
      · refine ⟨ev, List.mem_cons_self, rfl, ?_⟩
        rw [hn]
        rfl
      · exact hold h
    · obtain ⟨i, o, answer⟩ := ev
      rw [hits_cons_of_not fun n hn => hincr ⟨n, hn⟩] at h
      exact hold h

omit [Unicode] in
/-- A request that is counted under the key of a client is one of theirs. -/
theorem limitedFrom_of_redisKey {settings : RateLimitSettings} {r r' : PublicRequest}
    {path host : Str} (hfrom : r.LimitedFrom path host)
    (h : (r'.check settings).redisKey = clientKey path host) : r'.LimitedFrom path host := by
  have hown : (r.check settings).redisKey = clientKey path host := redisKey_check hfrom
  rw [← hown] at h
  obtain ⟨hlimited, rfl, rfl⟩ := hfrom
  by_cases hlimited' : r'.route.rateLimited = true
  · rw [PublicRequest.check, PublicRequest.check, dif_pos hlimited, dif_pos hlimited'] at h
    have hclient := (key_eq_iff settings (r.toLimited hlimited) (r'.toLimited hlimited')).mp h.symm
    exact ⟨hlimited', hclient⟩
  · rw [PublicRequest.check, PublicRequest.check, dif_pos hlimited, dif_neg hlimited'] at h
    have hkey : ([] : Str) = r.route.path ++ ch ':' :: (r.toLimited hlimited).clientHost :=
      List.append_cancel_left h
    simp at hkey

/-- A request with an endpoint is refused by the limiter alone. -/
theorem refused_of_afterCheck {r : PublicRequest} {decision : RateLimitDecision}
    (hendpoint : r.endpoint.isSome) (h : r.afterCheck decision = none) :
    decision.allowed = false := by
  rcases hallowed : decision.allowed with _ | _
  · rfl
  · simp only [PublicRequest.afterCheck, rateLimitAuth, hallowed, Bool.not_true,
      Bool.false_eq_true, if_false] at h
    rw [h] at hendpoint
    cases hendpoint

/-! ### Runs -/

variable {redisEnv : RedisEnv} {env : Env} {settings : RateLimitSettings}
  {requests : ℕ → PublicRequest} {w : World} {cfg : Public}
  {guard : Guard ℕ (Redis ⊕ Port) (StageRet Redis.Ret Port.Ret) (Halt Stopped Exc)
    (RedisWorld × World)} {i₀ : ℕ}

/-- The client of a request keeps to the limit: so far it has made no more requests of the
kind than are allowed in one window. -/
def WithinLimit (settings : RateLimitSettings) (requests : ℕ → PublicRequest) (cfg : Public)
    (i : ℕ) : Prop :=
  ∀ path host, (requests i).LimitedFrom path host → ∀ s : Finset ℕ,
    (∀ j ∈ s, (requests j).LimitedFrom path host ∧ ∃ ev ∈ cfg.trace, ev.who = j) →
      s.card ≤ settings.authRequests

/-- **A client that keeps to the limit is not refused.** -/
theorem PublicStages.not_refused {c c' : Checks ℕ}
    {api : Config ℕ Port Port.Ret Exc Response Session World}
    (h : PublicStages redisEnv env settings requests w c c' api cfg)
    (hW : 1 ≤ settings.authWindowSeconds) (hendpoint : (requests i₀).endpoint.isSome)
    (hwithin : WithinLimit settings requests cfg i₀) :
    (cfg.threads i₀).result ≠ some (.error .refused) := by
  intro hresult
  have hprog := h.stages.progs i₀
  rw [prog_of_error hresult] at hprog
  obtain ⟨d, hpure, hnone⟩ : ∃ d, (c.threads i₀).prog = .pure d ∧
      (requests i₀).afterCheck d = none := by
    rcases hprog.of_raise with ⟨e₁, he, -⟩ | ⟨d, -, hpure, hnone⟩ | ⟨e₂, he, -⟩
    · cases he
    · exact ⟨d, hpure, hnone⟩
    · cases he
  have hrefused := refused_of_afterCheck hendpoint hnone
  have hdecision : (c.threads i₀).result = some (.ok d) := by
    simp only [Thread.result, hpure]
  by_cases hlimited : (requests i₀).route.rateLimited = true
  · have hfrom : (requests i₀).LimitedFrom (requests i₀).route.path
        ((requests i₀).toLimited hlimited).clientHost := ⟨hlimited, rfl, rfl⟩
    obtain ⟨φ, hlimiting, hsim⟩ := h.limiting hW (requests i₀).route.path
      ((requests i₀).toLimited hlimited).clientHost
    rw [← h.same i₀ hlimited] at hdecision
    have hlt := hlimiting.refused (hsim i₀) (redisKey_check hfrom) hdecision hrefused
    rw [check_limit] at hlt
    -- the hits are by different requests, all of them of this client
    have hle := hwithin _ _ hfrom
      ((hits redisEnv (clientKey (requests i₀).route.path
        ((requests i₀).toLimited hlimited).clientHost) c'.trace).map (·.who)).toFinset
      (by
        intro j hj
        obtain ⟨hit, hmem, rfl⟩ := List.mem_map.mp (List.mem_toFinset.mp hj)
        obtain ⟨ev, hev, hwho, hkey⟩ := key_of_mem_hits hmem
        have hown := h.checked.trace_along
          (fun i o => o.key = ((requests i).check settings).redisKey)
          (fun i => along_check _) rfl ev hev
        rw [hkey, hwho] at hown
        refine ⟨limitedFrom_of_redisKey hfrom hown.symm, ?_⟩
        rw [h.trace] at hev
        obtain ⟨ev', hev', hwho'⟩ := who_of_mem_firstEvents hev
        exact ⟨ev', hev', hwho'.trans hwho⟩)
    rw [List.toFinset_card_of_nodup hlimiting.once, List.length_map] at hle
    omega
  · rw [h.unlimited i₀ hlimited] at hdecision
    cases hdecision
    cases hrefused

/-- **Owners get through**: whatever others send, and whatever races, a request with the
credentials of a user is served if its client keeps to the limit, unless its check has
stopped. -/
theorem owners_get_through {h : List Entry} {user : User} {r : ApiRequest}
    (hhash : ∀ salt plain, env.hash salt plain ≠ []) (hdispatch : env.dispatcher = eventDispatcher)
    (hclock : env.Timely cfg.shared.2.ticks) (hrun : Run env h w)
    (huser : UserMapper.toModel user ∈ w.db.users.rows)
    (hevents : user.events = []) (hactive : user.isActive = true)
    (hW : 1 ≤ settings.authWindowSeconds) (hr : (requests i₀).request = some r)
    (hentitled : r.Entitled env w cfg.shared.2.ticks user)
    (hlacks : ∀ i r', i ≠ i₀ → (requests i).request = some r' →
      r'.Lacks env user.id.value w.db cfg.shared.2.issued)
    (hreach : Reach ((redis redisEnv).both (system env)) guard (startPublic settings requests w)
      cfg)
    (hwithin : WithinLimit settings requests cfg i₀) (hfresh : env.NoRepeat cfg.shared.2.ids)
    {result : Except (Halt Stopped Exc) Response}
    (hresult : (cfg.threads i₀).result = some result) :
    result = .error (.first .stopped) ∨ ∃ response, result = .ok response ∧
      r.Serves user response := by
  -- the run of the two stages, and in it that of the endpoints alone
  obtain ⟨c, c', api, hstages⟩ := stages_of_public hreach
  have hshared : cfg.shared.2 = api.shared := congrArg Prod.snd hstages.stages.shared
  rw [hshared] at hclock hentitled hlacks hfresh
  obtain ⟨g, hleads⟩ := Owner.leads_of_reach hhash hdispatch hclock hrun huser hevents hactive hr
    hentitled hlacks hstages.endpoints hfresh
  have hprog := hstages.stages.progs i₀
  -- stopped, refused by the check, failed in the endpoint, or answered
  rcases result with (e | _ | e) | response
  · exact .inl rfl
  · have hendpoint : (requests i₀).endpoint.isSome := by
      rw [PublicRequest.endpoint, hr]
      rfl
    exact absurd hresult (hstages.not_refused hW hendpoint hwithin)
  · rw [prog_of_error hresult] at hprog
    rcases hprog.of_raise with ⟨e₁, he, -⟩ | ⟨d, he, -⟩ | ⟨e₂, he, hraise⟩
    · cases he
    · cases he
    · -- the endpoint of the request does not fail
      have hfailed : (api.threads i₀).result = some (.error e₂) := by
        simp only [Thread.result, hraise]
      exact (hleads.fails hfailed).2.elim
  · rw [prog_of_ok hresult] at hprog
    have hreturned : (api.threads i₀).result = some (.ok response) := by
      simp only [Thread.result, hprog.of_pure]
    exact .inr ⟨response, rfl, hleads.returns hreturned⟩

end availability

section sample

attribute [local instance] asciiUnicode

/-- Logins with the address of the sample user: one with their password, the others with
another. -/
def floodingLogin (i : ℕ) : ApiRequest :=
  if i = 2 then .login sampleLogin else .login ⟨sampleLogin.email, lit ['q']⟩

theorem route_floodingLogin (i : ℕ) : (floodingLogin i).route = .login := by
  unfold floodingLogin
  split <;> rfl

/-- The others come from another client. -/
def flooding (i : ℕ) : PublicRequest where
  route := .login
  mem := login_mem_all
  client := some (if i = 2 then lit ['b'] else lit ['a'])
  request := some (floodingLogin i)
  routed := fun _ hx => Option.some.inj hx ▸ route_floodingLogin i

/-- Two of the others come in between. -/
def floodingConfig : Public :=
  (startPublic ⟨1, 60⟩ flooding loggedInWorld).schedule
    ((redis (everyMillisecond fun _ => false)).both (system sampleEnv))
    ([0, 2, 1, 0, 2, 1, 0, 0] ++ List.replicate 8 2)

theorem lacks_flooding (i : ℕ) (r : ApiRequest) (hi : i ≠ 2) (hr : (flooding i).request = some r) :
    r.Lacks sampleEnv (sampleEnv.uuid 0) loggedInWorld.db floodingConfig.shared.2.issued := by
  have hother : r = .login ⟨sampleLogin.email, lit ['q']⟩ := by
    rw [← Option.some.inj hr]
    exact if_neg hi
  rw [hother]
  exact lacks_attempts _ _ List.mem_cons_self

theorem withinLimit_flooding : WithinLimit ⟨1, 60⟩ flooding floodingConfig 2 := by
  intro path host hfrom s hs
  have hown : lit ['b'] = host := hfrom.choose_spec.2
  have hsub : s ⊆ {2} := by
    intro j hj
    have hclient : (if j = 2 then lit ['b'] else lit ['a']) = host := (hs j hj).1.choose_spec.2
    rw [Finset.mem_singleton]
    by_contra hne
    rw [if_neg hne, ← hown] at hclient
    exact absurd hclient (by decide)
  have hcard := Finset.card_le_card hsub
  rw [Finset.card_singleton] at hcard
  show (s.card : ℤ) ≤ 1
  omega

/-- One of the others fails, one is refused, and the user is served. -/
theorem owners_get_through_sample :
    (floodingConfig.threads 0).result = some (.error (.second (.domain .invalidCredentials))) ∧
    (floodingConfig.threads 1).result = some (.error .refused) ∧ ∃ p : TokenPair,
      (floodingConfig.threads 2).result = some (.ok (.tokenPair p)) ∧
      ((.ok (.tokenPair p) : Except (Halt Stopped Exc) Response) = .error (.first .stopped) ∨
        ∃ response, (.ok (.tokenPair p) : Except (Halt Stopped Exc) Response) = .ok response ∧
          (ApiRequest.login sampleLogin).Serves sampleOwner response) := by
  have hreach : Reach ((redis (everyMillisecond fun _ => false)).both (system sampleEnv)) anyCall
      (startPublic ⟨1, 60⟩ flooding loggedInWorld) floodingConfig :=
    reach_schedule _ .refl (by decide +kernel)
  have hserved : ∃ p : TokenPair, (floodingConfig.threads 2).result = some (.ok (.tokenPair p)) :=
    ⟨_, rfl⟩
  obtain ⟨p, hresult⟩ := hserved
  exact ⟨by decide +kernel, by decide +kernel, p, hresult, owners_get_through
    (fun _ _ => List.cons_ne_nil _ _) rfl (timely_sampleEnv (by decide +kernel))
    run_sampleHistory (by decide +kernel) rfl rfl
    (by decide) (show (flooding 2).request = some (.login sampleLogin) from rfl)
    ⟨by decide +kernel, by decide +kernel⟩ lacks_flooding hreach withinLimit_flooding
    (by decide +kernel) hresult⟩

end sample

end FastapiStarter
