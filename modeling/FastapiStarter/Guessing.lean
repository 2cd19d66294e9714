import FastapiStarter.Clients
import FastapiStarter.Lib.Stages

/-!
# How often passwords can be tried

Only registration and login work on a password of somebody who has no token, and both are
behind `rate_limit_auth`: a request is counted in Redis, and its handler is called if the
limiter has let it through.  Here the two are run together, the limiter over its keys and
the handlers over the database, and with them all other requests.

## Main definitions

* `PublicRequest`, `PublicRequest.execute` — a request, with what its route depends on.
* `startPublic` — requests side by side, over Redis and over the database.
* `Port.isHashing` — work on a password.
* `HashingBound` — the bound.
* `PublicStages` — a run, taken apart into its checks and its endpoints.

## Main results

* `callsAtMost_endpoint` — a request works on a password at most once.
* `hashing_is_limited` — **however requests interleave, a client has passwords worked on as
  often as the limit allows.**
-/

namespace FastapiStarter

open Interaction FixedWindow

/-- Work on a password. -/
def Port.isHashing [Unicode] : Port → Bool
  | .hash _ | .verify _ _ => true
  | _ => false

/-- The counter of a client, for a path. -/
def clientKey (path host : Str) : Str :=
  lit ['r', 'a', 't', 'e', 'l', 'i', 'm', 'i', 't', ':'] ++ (path ++ ch ':' :: host)

section requests

variable [Unicode]

/-! ### Requests -/

/-- A request, routed to an endpoint. -/
structure PublicRequest where
  route : Route
  mem : route ∈ Route.all
  /-- `request.client.host`, if there is a client. -/
  client : Option Str
  /-- What its body and its credentials come to, if they are valid. -/
  request : Option ApiRequest
  routed : ∀ x ∈ request, x.route = route

/-- The endpoint is called if the request is valid. -/
def PublicRequest.endpoint (r : PublicRequest) : Option (Handler Response) :=
  r.request.map ApiRequest.execute

/-- The request, for the limiter. -/
def PublicRequest.toLimited (r : PublicRequest) (h : r.route.rateLimited = true) :
    LimitedRequest where
  route := r.route
  client := r.client
  mem := r.mem
  limited := h

/-- What is left of a request once the limiter has decided. -/
def PublicRequest.afterCheck (r : PublicRequest) (decision : RateLimitDecision) :
    Option (Handler Response) :=
  match rateLimitAuth decision with
  | .ok _ => r.endpoint
  | .error _ => none

/-- A request, as a program over Redis and the ports: what the route depends on comes
first. -/
def PublicRequest.execute (settings : RateLimitSettings) (r : PublicRequest) :
    Prog (Redis ⊕ Port) (StageRet Redis.Ret Port.Ret) (Halt Stopped Exc) Response :=
  if h : r.route.rateLimited = true then
    (RedisRateLimiter.check ((r.toLimited h).check settings)).staged r.afterCheck
  else
    match r.endpoint with
    | some endpoint => endpoint.second
    | none => .raise .refused

/-- The request has a rate limit, and comes from a client, for a path. -/
def PublicRequest.LimitedFrom (path host : Str) (r : PublicRequest) : Prop :=
  ∃ h : r.route.rateLimited = true, (r.toLimited h).From path host

instance (path host : Str) (r : PublicRequest) : Decidable (r.LimitedFrom path host) :=
  inferInstanceAs (Decidable (∃ h : r.route.rateLimited = true, (r.toLimited h).From path host))

/-! ### Work on passwords -/

theorem callsAtMost_createUser (command : CreateUserCommand) :
    (CreateUserHandler.execute command).CallsAtMost Port.isHashing 1 := by
  unfold CreateUserHandler.execute
  split
  · trivial
  · simp only [port, Prog.op_bind]
    refine (callsAtMost_call rfl).mpr fun taken => ?_
    split
    · trivial
    · refine (callsAtMost_call rfl).mpr fun userId => (callsAtMost_last rfl).mpr fun hashed => ?_
      split
      · trivial
      · exact fun _ _ _ _ _ => trivial

theorem callsAtMost_login (command : LoginCommand) :
    (LoginHandler.execute command).CallsAtMost Port.isHashing 1 := by
  unfold LoginHandler.execute
  split
  · trivial
  · simp only [port, Prog.op_bind]
    refine (callsAtMost_call rfl).mpr fun found => ?_
    split
    · exact (callsAtMost_last rfl).mpr fun _ => trivial
    split
    · exact (callsAtMost_last rfl).mpr fun _ => trivial
    · refine (callsAtMost_last rfl).mpr fun matched => ?_
      split
      · trivial
      · exact fun _ _ _ _ _ _ => trivial

/-- **A request with a rate limit works on a password at most once.** -/
theorem callsAtMost_endpoint {r : PublicRequest} (hlimited : r.route.rateLimited = true)
    {endpoint : Handler Response} (h : r.endpoint = some endpoint) :
    endpoint.CallsAtMost Port.isHashing 1 := by
  obtain ⟨x, hx, rfl⟩ := Option.map_eq_some_iff.mp h
  rw [← r.routed x hx] at hlimited
  cases x with
  | register body => exact callsAtMost_map.mpr (callsAtMost_createUser body)
  | login body => exact callsAtMost_map.mpr (callsAtMost_login body)
  | refresh body => cases hlimited
  | logout body => cases hlimited
  | changePassword credentials currentPassword newPassword => cases hlimited
  | readMe credentials => cases hlimited

/-- The endpoint that is left once the limiter has decided. -/
theorem endpoint_of_afterCheck {r : PublicRequest} {decision : RateLimitDecision}
    {endpoint : Handler Response} (h : r.afterCheck decision = some endpoint) :
    r.endpoint = some endpoint := by
  unfold PublicRequest.afterCheck at h
  split at h
  · exact h
  · cases h

/-- And so does the program that the request is. -/
theorem callsAtMost_public (settings : RateLimitSettings) {r : PublicRequest}
    (hlimited : r.route.rateLimited = true) :
    (r.execute settings).CallsAtMost (Sum.elim (fun _ => false) Port.isHashing) 1 := by
  unfold PublicRequest.execute
  rw [dif_pos hlimited]
  refine callsAtMost_staged _ (fun _ => rfl) fun decision endpoint h => ?_
  exact callsAtMost_endpoint hlimited (endpoint_of_afterCheck h)

/-! ### Runs -/

/-- A configuration of requests, over Redis and over the database. -/
abbrev Public := Config ℕ (Redis ⊕ Port) (StageRet Redis.Ret Port.Ret) (Halt Stopped Exc) Response
  (Unit × Session) (RedisWorld × World)

/-- Requests that have not started yet; nothing is counted so far. -/
def startPublic (settings : RateLimitSettings) (requests : ℕ → PublicRequest) (w : World) :
    Public where
  threads i := ⟨(requests i).execute settings, (), .empty⟩
  shared := (⟨fun _ => none, 0⟩, w)
  trace := []

/-- Their checks; there is nothing to check where there is no rate limit. -/
def firstChecks (settings : RateLimitSettings) (requests : ℕ → PublicRequest) : Checks ℕ where
  threads i :=
    { prog := if h : (requests i).route.rateLimited = true then
          RedisRateLimiter.check (((requests i).toLimited h).check settings)
        else .pure ⟨true, 0⟩
      loc := () }
  shared := ⟨fun _ => none, 0⟩
  trace := []

/-- The checks are the first stage of the requests, and the endpoints the second. -/
theorem stages_startPublic (settings : RateLimitSettings) (requests : ℕ → PublicRequest)
    (w : World) : Stages (fun i => (requests i).afterCheck) (firstChecks settings requests)
      (startApi (fun i => (requests i).request) w) (startPublic settings requests w) := by
  refine ⟨rfl, rfl, fun _ => rfl, fun i => ?_, fun ev hev => ?_⟩
  · have hprog : ((startPublic settings requests w).threads i).prog =
        ((firstChecks settings requests).threads i).prog.staged (requests i).afterCheck := by
      show (requests i).execute settings = Prog.staged _ (if h : _ then _ else _)
      unfold PublicRequest.execute
      split
      · rfl
      · have hall : (requests i).afterCheck ⟨true, 0⟩ = (requests i).endpoint := rfl
        rw [Prog.staged, hall]
        rcases (requests i).endpoint with _ | endpoint <;> rfl
    rw [hprog]
    apply InStage.before
    intro decision endpoint h
    obtain ⟨x, hx, rfl⟩ := Option.map_eq_some_iff.mp (endpoint_of_afterCheck h)
    simp only [startApi, hx]
  · cases hev

/-- The check of a request, if it has one. -/
def PublicRequest.check (settings : RateLimitSettings) (r : PublicRequest) : CheckRequest :=
  if h : r.route.rateLimited = true then (r.toLimited h).check settings
  else ⟨[], settings.authRequests, settings.authWindowSeconds⟩

omit [Unicode] in
theorem check_limit (settings : RateLimitSettings) (r : PublicRequest) :
    (r.check settings).limit = settings.authRequests := by
  unfold PublicRequest.check
  split <;> rfl

omit [Unicode] in
theorem check_windowSeconds (settings : RateLimitSettings) (r : PublicRequest) :
    (r.check settings).windowSeconds = settings.authWindowSeconds := by
  unfold PublicRequest.check
  split <;> rfl

omit [Unicode] in
/-- A client is counted under its key. -/
theorem redisKey_check {settings : RateLimitSettings} {r : PublicRequest} {path host : Str}
    (h : r.LimitedFrom path host) : (r.check settings).redisKey = clientKey path host := by
  obtain ⟨hlimited, rfl, rfl⟩ := h
  rw [PublicRequest.check, dif_pos hlimited]
  rfl

/-- An endpoint is only called if the request was allowed. -/
theorem allowed_of_afterCheck {r : PublicRequest} {decision : RateLimitDecision}
    (h : (r.afterCheck decision).isSome) : decision.allowed = true := by
  rcases hallowed : decision.allowed with _ | _
  · simp [PublicRequest.afterCheck, rateLimitAuth, hallowed] at h
  · rfl

section bound

variable {redisEnv : RedisEnv} {env : Env} {settings : RateLimitSettings}
  {requests : ℕ → PublicRequest} {path host : Str} {w : World} {cfg : Public}
  {guard : Guard ℕ (Redis ⊕ Port) (StageRet Redis.Ret Port.Ret) (Halt Stopped Exc)
    (RedisWorld × World)}

/-- The hits of a client, for a path. -/
abbrev clientHits (redisEnv : RedisEnv) (path host : Str) (cfg : Public) : List (Hit ℕ) :=
  hits redisEnv (clientKey path host) (firstEvents cfg.trace)

/-- How often the requests of a client that `P` selects have had a password worked on. -/
def hashings (requests : ℕ → PublicRequest) (path host : Str) (cfg : Public) (P : ℕ → Prop)
    [DecidablePred P] : ℕ :=
  cfg.trace.countP fun ev => ((requests ev.who).LimitedFrom path host ∧ P ev.who) ∧
    Sum.elim (fun _ => false) Port.isHashing ev.op

/-- **The bound on the passwords that a client can try**, with the times at which its
requests were counted. -/
structure HashingBound (redisEnv : RedisEnv) (settings : RateLimitSettings)
    (requests : ℕ → PublicRequest) (path host : Str) (cfg : Public) : Prop where
  /-- A request that has not come to its endpoint has called no port. -/
  untouched : ∀ i e, (cfg.threads i).result = some (.error e) → (∀ x, e ≠ .second x) →
    ∀ ev ∈ cfg.trace, ev.who = i → ev.op.isRight = false
  /-- Whoever calls a port was counted, within the limit. -/
  counted : ∀ ev ∈ cfg.trace, ev.op.isRight = true → (requests ev.who).LimitedFrom path host →
    ∃ hit ∈ clientHits redisEnv path host cfg, hit.who = ev.who ∧
      hit.count ≤ settings.authRequests.toNat
  /-- In one lifetime of the counter. -/
  lifetime : ∀ n, hashings requests path host cfg (fun i =>
    ∃ x ∈ ranked (clientHits redisEnv path host cfg), x.1 = n ∧ x.2.who = i) ≤
      settings.authRequests.toNat
  /-- In any window. -/
  interval : ∀ a, hashings requests path host cfg (fun i =>
    ∃ hit ∈ clientHits redisEnv path host cfg, hit.who = i ∧ a ≤ hit.time ∧
      hit.time < a + 1000 * settings.authWindowSeconds) ≤ 2 * settings.authRequests.toNat

/-- **The stages of a run**: the checks `c`, and the endpoints `api`.  As far as there are
checks, they are those of a run `c'` in which all requests are checked. -/
structure PublicStages (redisEnv : RedisEnv) (env : Env) (settings : RateLimitSettings)
    (requests : ℕ → PublicRequest) (w : World) (c c' : Checks ℕ)
    (api : Config ℕ Port Port.Ret Exc Response Session World) (cfg : Public) : Prop where
  stages : Stages (fun i => (requests i).afterCheck) c api cfg
  endpoints : Reach (system env) anyCall (startApi (fun i => (requests i).request) w) api
  unlimited : ∀ i, (requests i).route.rateLimited ≠ true →
    (c.threads i).result = some (.ok ⟨true, 0⟩)
  checked : Reach (redis redisEnv) anyCall (startChecks fun i => (requests i).check settings) c'
  same : ∀ i, (requests i).route.rateLimited = true → c'.threads i = c.threads i
  trace : c'.trace = firstEvents cfg.trace

theorem stages_of_public
    (hreach : Reach ((redis redisEnv).both (system env)) guard (startPublic settings requests w)
      cfg) : ∃ c c' api, PublicStages redisEnv env settings requests w c c' api cfg := by
  obtain ⟨c, api, hfirst, hapi, hstage⟩ := hreach.stages (stages_startPublic settings requests w)
  have hended : ∀ i, (requests i).route.rateLimited ≠ true →
      ((firstChecks settings requests).threads i).result = some (.ok ⟨true, 0⟩) := by
    intro i hi
    simp [firstChecks, Thread.result, hi]
  obtain ⟨c', hchecks, hsame, htrace⟩ := hfirst.of_ended
    (fun i => (requests i).route.rateLimited = true)
    (startChecks fun i => (requests i).check settings)
    (by
      intro i hi
      simp only [startChecks, firstChecks, PublicRequest.check, dif_pos hi])
    (by
      intro i hi
      rw [hended i hi]
      exact Option.some_ne_none _)
    rfl rfl
  refine ⟨c, c', api, hstage, hapi, fun i hi => ?_, hchecks, hsame,
    htrace.trans hstage.trace.symm⟩
  have hstays := hfirst.threads_of_ended (i := i) (by
    rw [hended i hi]
    exact Option.some_ne_none _)
  rw [hstays]
  exact hended i hi

section stages

variable {c c' : Checks ℕ} {api : Config ℕ Port Port.Ret Exc Response Session World}

/-- The checks keep the invariant of the limiter. -/
theorem PublicStages.limiting (h : PublicStages redisEnv env settings requests w c c' api cfg)
    (hW : 1 ≤ settings.authWindowSeconds) (path host : Str) :
    ∃ φ, Limiting redisEnv (fun i => (requests i).check settings) (clientKey path host)
        settings.authWindowSeconds φ c'.shared c'.trace ∧
      ∀ i, Sim (redis redisEnv) (checks redisEnv fun i => (requests i).check settings) i
        (c'.threads i).prog (c'.threads i).loc (φ i) :=
  limiting_of_reach hW (fun i _ => check_windowSeconds settings (requests i)) h.checked

/-- A request that has not come to its endpoint has called no port. -/
theorem PublicStages.untouched (h : PublicStages redisEnv env settings requests w c c' api cfg)
    {i : ℕ} {e : Halt Stopped Exc} (hresult : (cfg.threads i).result = some (.error e))
    (hearly : ∀ x, e ≠ .second x) : ∀ ev ∈ cfg.trace, ev.who = i → ev.op.isRight = false := by
  rintro ev hev rfl
  by_contra hport
  obtain ⟨d, hpure, hthrough⟩ := h.stages.admitted ev hev (by simpa using hport)
  have hprog := h.stages.progs ev.who
  rw [prog_of_error hresult] at hprog
  rcases hprog.of_raise with ⟨e₁, -, hp⟩ | ⟨d', -, hp, hnone⟩ | ⟨e₂, rfl, -⟩
  · rw [hpure] at hp
    cases hp
  · rw [hpure] at hp
    cases hp
    rw [hnone] at hthrough
    cases hthrough
  · exact hearly e₂ rfl

/-- Whoever calls a port was counted, within the limit. -/
theorem PublicStages.counted (h : PublicStages redisEnv env settings requests w c c' api cfg)
    (hW : 1 ≤ settings.authWindowSeconds) :
    ∀ ev ∈ cfg.trace, ev.op.isRight = true → (requests ev.who).LimitedFrom path host →
      ∃ hit ∈ clientHits redisEnv path host cfg, hit.who = ev.who ∧
        hit.count ≤ settings.authRequests.toNat := by
  intro ev hev hport hfrom
  obtain ⟨φ, hlimiting, hsim⟩ := h.limiting hW path host
  obtain ⟨d, hpure, hthrough⟩ := h.stages.admitted ev hev hport
  have hallowed : WasAllowed c' ev.who := by
    refine ⟨d, ?_, allowed_of_afterCheck hthrough⟩
    rw [h.same _ hfrom.choose]
    simp only [Thread.result, hpure]
  obtain ⟨hit, hmem, hwho, hle⟩ :=
    hlimiting.counted (hsim ev.who) (redisKey_check hfrom) hallowed
  rw [h.trace] at hmem
  rw [check_limit] at hle
  exact ⟨hit, hmem, hwho, by omega⟩

/-- Whoever has a password worked on is counted once, within the limit. -/
theorem PublicStages.count_le (h : PublicStages redisEnv env settings requests w c c' api cfg)
    (hW : 1 ≤ settings.authWindowSeconds) {i : ℕ} (hfrom : (requests i).LimitedFrom path host)
    (hcalled : Called cfg.trace i (Sum.elim (fun _ => false) Port.isHashing)) {hit : Hit ℕ}
    (hmem : hit ∈ clientHits redisEnv path host cfg) (hwho : hit.who = i) :
    hit.count ≤ settings.authRequests.toNat := by
  obtain ⟨ev, hev, rfl, hkind⟩ := hcalled
  have hport : ev.op.isRight = true := by
    rcases hop : ev.op with o | o
    · rw [hop] at hkind
      cases hkind
    · rfl
  obtain ⟨hit', hmem', hwho', hle⟩ := h.counted hW ev hev hport hfrom
  obtain ⟨φ, hlimiting, -⟩ := h.limiting hW path host
  rw [clientHits, ← h.trace] at hmem hmem'
  rwa [hlimiting.eq_of_who hmem hmem' (hwho.trans hwho'.symm)]

/-- The hits of a client are those of a fixed window. -/
theorem PublicStages.hits_counted (h : PublicStages redisEnv env settings requests w c c' api cfg)
    (hW : 1 ≤ settings.authWindowSeconds) (path host : Str) :
    Counted (1000 * settings.authWindowSeconds) (clientHits redisEnv path host cfg) := by
  obtain ⟨φ, hlimiting, -⟩ := h.limiting hW path host
  rw [clientHits, ← h.trace]
  exact hlimiting.hits_counted

end stages

/-- As often as passwords are worked on, as many are the requests that do. -/
theorem hashings_le
    (hreach : Reach ((redis redisEnv).both (system env)) guard (startPublic settings requests w)
      cfg) {P : ℕ → Prop} [DecidablePred P] {n : ℕ}
    (hcard : ∀ s : Finset ℕ, (∀ i ∈ s, (requests i).LimitedFrom path host ∧ P i ∧
      Called cfg.trace i (Sum.elim (fun _ => false) Port.isHashing)) → s.card ≤ n) :
    hashings requests path host cfg P ≤ n := by
  refine hreach.countP_le (Q := fun i => (requests i).LimitedFrom path host ∧ P i)
    (fun i hi => callsAtMost_public settings hi.1.choose) rfl fun s hs => ?_
  apply hcard s
  intro i hi
  obtain ⟨⟨hfrom, hP⟩, hcalled⟩ := hs i hi
  exact ⟨hfrom, hP, hcalled⟩

/-- **However requests interleave, a client has passwords worked on as often as the limit
allows**: no more often in one lifetime of its counter, and no more than twice as often in
any window. -/
theorem hashing_is_limited (hW : 1 ≤ settings.authWindowSeconds)
    (hreach : Reach ((redis redisEnv).both (system env)) guard (startPublic settings requests w)
      cfg) (path host : Str) : HashingBound redisEnv settings requests path host cfg := by
  obtain ⟨c, c', api, h⟩ := stages_of_public hreach
  have hfixed := h.hits_counted hW path host
  constructor
  case untouched =>
    intro i e hresult hearly
    exact h.untouched hresult hearly
  case counted => exact h.counted hW
  case lifetime =>
    intro n
    apply hashings_le hreach
    intro s hs
    refine (card_le_length fun i hi => ?_).trans (hfixed.length_lifetime_le _ n)
    obtain ⟨hfrom, ⟨x, hx, hn, hwho⟩, hcalled⟩ := hs i hi
    have hlimit := h.count_le hW hfrom hcalled (mem_of_mem_ranked hx) hwho
    exact ⟨x, List.mem_filter.mpr ⟨hx, decide_eq_true ⟨hn, hlimit⟩⟩, hwho⟩
  case interval =>
    intro a
    apply hashings_le hreach
    intro s hs
    refine (card_le_length fun i hi => ?_).trans (hfixed.length_interval_le _ a)
    obtain ⟨hfrom, ⟨hit, hmem, hwho, hbegin, hend⟩, hcalled⟩ := hs i hi
    have hlimit := h.count_le hW hfrom hcalled hmem hwho
    obtain ⟨x, hx, rfl⟩ := exists_ranked hmem
    exact ⟨x, List.mem_filter.mpr ⟨hx, decide_eq_true ⟨hbegin, hend, hlimit⟩⟩, hwho⟩

end bound

end requests

section sample

attribute [local instance] asciiUnicode

/-- Requests of one client to log in. -/
def guessing (_ : ℕ) : PublicRequest where
  route := .login
  mem := login_mem_all
  client := some (lit ['a'])
  request := some (.login ⟨sampleLogin.email, sampleLogin.password⟩)
  routed := fun _ hx => Option.some.inj hx ▸ rfl

/-- Two of them, of which one is counted before the other. -/
def guessingConfig : Public :=
  (startPublic ⟨1, 60⟩ guessing .initial).schedule
    ((redis (everyMillisecond fun _ => false)).both (system sampleEnv)) [0, 1, 0, 1, 0, 0]

/-- The first has a password worked on, for nobody, and the second is refused. -/
theorem hashing_is_limited_sample :
    (guessingConfig.threads 0).result =
        some (.error (.second (.domain .invalidCredentials))) ∧
      (guessingConfig.threads 1).result = some (.error .refused) ∧
      HashingBound (everyMillisecond fun _ => false) ⟨1, 60⟩ guessing Route.login.path (lit ['a'])
        guessingConfig :=
  have hreach : Reach ((redis (everyMillisecond fun _ => false)).both (system sampleEnv)) anyCall
      (startPublic ⟨1, 60⟩ guessing .initial) guessingConfig :=
    reach_schedule _ .refl (by decide +kernel)
  ⟨by decide +kernel, by decide +kernel, hashing_is_limited (by decide) hreach _ _⟩

end sample

end FastapiStarter
