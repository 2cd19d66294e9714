import FastapiStarter.Lib.Projection
import FastapiStarter.RateWindows
import FastapiStarter.Routes

/-!
# Clients are limited one by one

`rate_limit_auth` counts under the path and the address of the client.  All counters are
kept in one database, and the commands of all clients interleave there; still a client is
served as if it were the only one, and so is each of the paths.

## Main definitions

* `RateLimitSettings`, `LimitedRequest` — what the dependency reads.
* `LimitedRequest.key` — the key of the counter.
* `RedisEnv.at` — some of the commands of a run.

## Main results

* `key_eq_iff` — two requests are counted together if they come from one client, for one
  path.
* `clients_are_limited_alone` — **whatever others do, a client is limited as if it were
  alone.**
-/

namespace FastapiStarter

open FixedWindow Interaction

/-! ### The dependency -/

/-- `RateLimitSettings`. -/
structure RateLimitSettings where
  authRequests : ℤ := 10
  authWindowSeconds : ℤ := 60

/-- A request that has been routed to an endpoint with a rate limit. -/
structure LimitedRequest where
  route : Route
  /-- `request.client.host`, if there is a client. -/
  client : Option Str
  mem : route ∈ Route.all
  limited : route.rateLimited = true

namespace LimitedRequest

/-- `client_host`. -/
def clientHost (r : LimitedRequest) : Str := r.client.getD (text "unknown")

/-- The key: `f"{request.url.path}:{client_host}"`. -/
def key (r : LimitedRequest) : Str := r.route.path ++ ch ':' :: r.clientHost

/-- The check that `rate_limit_auth` makes. -/
def check (settings : RateLimitSettings) (r : LimitedRequest) : CheckRequest where
  key := r.key
  limit := settings.authRequests
  windowSeconds := settings.authWindowSeconds

/-- The request comes from a client, for a path. -/
def From (path host : Str) (r : LimitedRequest) : Prop := r.route.path = path ∧ r.clientHost = host

instance (path host : Str) (r : LimitedRequest) : Decidable (r.From path host) :=
  inferInstanceAs (Decidable (_ ∧ _))

end LimitedRequest

theorem colon_not_mem_path : ∀ route ∈ Route.all, route.rateLimited = true →
    ch ':' ∉ route.path := by decide +kernel

/-- What stands before the first colon is determined. -/
theorem append_colon_inj {path path' host host' : Str} (h : ch ':' ∉ path) (h' : ch ':' ∉ path') :
    path ++ ch ':' :: host = path' ++ ch ':' :: host' ↔ path = path' ∧ host = host' := by
  refine ⟨fun heq => ?_, by rintro ⟨rfl, rfl⟩; rfl⟩
  induction path generalizing path' with
  | nil =>
    cases path' with
    | nil => exact ⟨rfl, (List.cons.inj heq).2⟩
    | cons c path' =>
      obtain ⟨rfl, -⟩ := List.cons.inj heq
      exact absurd List.mem_cons_self h'
  | cons c path ih =>
    cases path' with
    | nil =>
      obtain ⟨rfl, -⟩ := List.cons.inj heq
      exact absurd List.mem_cons_self h
    | cons c' path' =>
      rw [List.cons_append, List.cons_append, List.cons.injEq] at heq
      obtain ⟨rfl, heq⟩ := heq
      obtain ⟨rfl, rfl⟩ := ih (fun hc => h (List.mem_cons_of_mem _ hc))
        (fun hc => h' (List.mem_cons_of_mem _ hc)) heq
      exact ⟨rfl, rfl⟩

/-- **Two requests are counted together if and only if they come from one client, for one
path.** -/
theorem key_eq_iff (settings : RateLimitSettings) (r r' : LimitedRequest) :
    (r.check settings).redisKey = (r'.check settings).redisKey ↔
      r'.From r.route.path r.clientHost := by
  show _ ++ r.key = _ ++ r'.key ↔ _
  rw [List.append_cancel_left_eq, eq_comm]
  exact append_colon_inj (colon_not_mem_path _ r'.mem r'.limited)
    (colon_not_mem_path _ r.mem r.limited)

/-! ### Commands -/

/-- The key a command is about. -/
def Redis.key : Redis → Str
  | .incr key | .expire key _ | .ttl key => key

section commands

variable {keys keys' : Keyspace} {key : Str} {time : ℤ}

theorem Keyspace.get_congr (h : keys' key = keys key) : keys'.get time key = keys.get time key := by
  simp only [Keyspace.get, h]

/-- A command leaves the other keys alone. -/
theorem Redis.exec_keys_of_ne {o : Redis} (h : o.key ≠ key) :
    (o.exec time keys).2 key = keys key := by
  cases o with
  | incr key' =>
    simp only [exec, Keyspace.incr]
    rcases keys.get time key' with _ | c <;> exact Function.update_of_ne (Ne.symm h) _ _
  | expire key' seconds =>
    simp only [exec, Keyspace.expire]
    rcases keys.get time key' with _ | c
    · rfl
    · exact Function.update_of_ne (Ne.symm h) _ _
  | ttl key' => rfl

/-- A command answers by its key alone, and does to it what it does. -/
theorem Redis.exec_congr (time : ℤ) {o : Redis} (h : keys' o.key = keys o.key) :
    (o.exec time keys').1 = (o.exec time keys).1 ∧
      (o.exec time keys').2 o.key = (o.exec time keys).2 o.key := by
  cases o with
  | incr key' =>
    have hget : keys'.get time key' = keys.get time key' := Keyspace.get_congr h
    simp only [exec, Keyspace.incr, hget, Redis.key]
    rcases keys.get time key' with _ | c <;> exact ⟨rfl, by simp only [Function.update_self]⟩
  | expire key' seconds =>
    have hget : keys'.get time key' = keys.get time key' := Keyspace.get_congr h
    simp only [exec, Keyspace.expire, hget, Redis.key]
    rcases keys.get time key' with _ | c
    · exact ⟨rfl, h⟩
    · exact ⟨rfl, by simp only [Function.update_self]⟩
  | ttl key' =>
    have hget : keys'.get time key' = keys.get time key' := Keyspace.get_congr h
    exact ⟨by simp only [exec, Keyspace.ttl, hget], h⟩

/-- All commands of a check are about its key. -/
theorem along_check (r : CheckRequest) : (RedisRateLimiter.check r).Along (fun _ _ => True)
    (fun o => o.key = r.redisKey) True := by
  have hdecision : ∀ count, (RedisRateLimiter.decision r count).Along (fun _ _ => True)
      (fun o => o.key = r.redisKey) True := by
    intro count
    unfold RedisRateLimiter.decision
    split
    · exact ⟨rfl, fun _ _ => trivial⟩
    · trivial
  refine ⟨rfl, fun count _ => ?_⟩
  show ((if count = 1 then .call (.expire r.redisKey r.windowSeconds) fun _ =>
    RedisRateLimiter.decision r count else RedisRateLimiter.decision r count :
      Prog Redis Redis.Ret Stopped RateLimitDecision)).Along _ _ _
  split
  · exact ⟨rfl, fun _ _ => hdecision count⟩
  · exact hdecision count

end commands

/-! ### Projection -/

/-- Some of the commands of a run: the `n`-th of them is the `f n`-th of all. -/
def RedisEnv.at (env : RedisEnv) (f : ℕ → ℕ) (hf : Monotone f) : RedisEnv where
  clock n := env.clock (f n)
  clock_mono := env.clock_mono.comp hf
  lost n := env.lost (f n)

section projection

variable {ι : Type} {env : RedisEnv} {mine : ι → Prop} [DecidablePred mine] {f : ℕ → ℕ}
  {hf : Monotone f} {key : Str}

/-- The two databases agree on a key, and so far it was hit at the same times. -/
structure Agrees (env : RedisEnv) (mine : ι → Prop) [DecidablePred mine] (f : ℕ → ℕ)
    (hf : Monotone f) (key : Str) (tr : RedisTrace ι) (w w' : RedisWorld) : Prop where
  sent : w.sent = tr.length
  sent' : w'.sent = (eventsOf mine tr).length
  keys : w'.keys key = w.keys key
  hits : hits (env.at f hf) key (eventsOf mine tr) = hits env key tr

/-- A hit of the key, at the position it has in the run. -/
theorem hits_eventsOf {i : ι} {o : Redis} (ans : Except Stopped o.Ret) {tr : RedisTrace ι}
    (hi : mine i) (hpos : f (eventsOf mine tr).length = tr.length)
    (h : hits (env.at f hf) key (eventsOf mine tr) = hits env key tr) :
    hits (env.at f hf) key (eventsOf mine (⟨i, o, ans⟩ :: tr)) =
      hits env key (⟨i, o, ans⟩ :: tr) := by
  rw [eventsOf_cons_of_mine hi]
  rcases o with key' | _ | _
  · rcases ans with e | n
    · exact h
    · have htime : (env.at f hf).clock (eventsOf mine tr).length = env.clock tr.length :=
        congrArg env.clock hpos
      simp only [FastapiStarter.hits, htime, h]
  · exact h
  · exact h

/-- **A command of a client is answered as if the others were not there.** -/
theorem Agrees.own {i : ι} {o : Redis} {tr : RedisTrace ι} {w w' : RedisWorld}
    (h : Agrees env mine f hf key tr w w') (hi : mine i) (ho : o.key = key)
    (hpos : f (eventsOf mine tr).length = tr.length) :
    ((redis (env.at f hf)).exec i o ((), w')).1 = ((redis env).exec i o ((), w)).1 ∧
      Agrees env mine f hf key (⟨i, o, ((redis env).exec i o ((), w)).1⟩ :: tr)
        ((redis env).exec i o ((), w)).2.2 ((redis (env.at f hf)).exec i o ((), w')).2.2 := by
  have hat : f w'.sent = w.sent := by rw [h.sent', h.sent, hpos]
  have hclock : (env.at f hf).clock w'.sent = env.clock w.sent := congrArg env.clock hat
  have hlost : (env.at f hf).lost w'.sent = env.lost w.sent := congrArg env.lost hat
  have hlength : (eventsOf mine ((⟨i, o, ((redis env).exec i o ((), w)).1⟩ :
      Event ι Redis Redis.Ret Stopped) :: tr)).length = (eventsOf mine tr).length + 1 := by
    rw [eventsOf_cons_of_mine hi, List.length_cons]
  have hhits := hits_eventsOf (((redis env).exec i o ((), w)).1) hi hpos h.hits
  subst ho
  obtain ⟨hans, hkeys⟩ := Redis.exec_congr (env.clock w.sent) h.keys
  rw [redis_exec, redis_exec, hlost, hclock]
  rw [redis_exec] at hlength hhits
  split
  · next hl =>
    rw [if_pos hl] at hlength hhits
    exact ⟨rfl, congrArg (· + 1) h.sent, by rw [hlength, ← h.sent'], h.keys, hhits⟩
  · next hl =>
    rw [if_neg hl] at hlength hhits
    refine ⟨congrArg Except.ok hans, congrArg (· + 1) h.sent, ?_, hkeys, hhits⟩
    rw [hlength, ← h.sent']

/-- A command about another key is not noticed. -/
theorem Agrees.other {i : ι} {o : Redis} {tr : RedisTrace ι} {w w' : RedisWorld}
    (h : Agrees env mine f hf key tr w w') (hi : ¬ mine i) (ho : o.key ≠ key) :
    Agrees env mine f hf key (⟨i, o, ((redis env).exec i o ((), w)).1⟩ :: tr)
      ((redis env).exec i o ((), w)).2.2 w' := by
  have hhits : FastapiStarter.hits env key (⟨i, o, ((redis env).exec i o ((), w)).1⟩ :: tr) =
      FastapiStarter.hits env key tr := by
    refine hits_cons_of_not fun n heq => ho ?_
    have hop : o = .incr key := congrArg Event.op heq
    rw [hop]
    rfl
  refine ⟨?_, by rw [eventsOf_cons_of_not hi]; exact h.sent', ?_, by
    rw [eventsOf_cons_of_not hi, hhits]; exact h.hits⟩
  · rw [redis_exec]
    split <;> exact congrArg (· + 1) h.sent
  · rw [redis_exec]
    split
    · exact h.keys
    · exact h.keys.trans (Redis.exec_keys_of_ne ho).symm

end projection

/-! ### Runs -/

section runs

variable {ι : Type} [DecidableEq ι] {requests : ι → LimitedRequest} {settings : RateLimitSettings}
  {env : RedisEnv} {cfg : Checks ι} {guard : Guard ι Redis Redis.Ret Stopped RedisWorld}

/-- The requests that come from the client of a request, for its path. -/
abbrev SameClient (requests : ι → LimitedRequest) (i j : ι) : Prop :=
  (requests j).From (requests i).route.path (requests i).clientHost

/-- **What is promised to the client of a request.** -/
structure LimitedAlone (env : RedisEnv) (settings : RateLimitSettings)
    (requests : ι → LimitedRequest) (cfg : Checks ι) (i : ι) : Prop where
  /-- It has a counter with the requests of its client for its path, and with no others. -/
  counter : ∀ j, ((requests j).check settings).redisKey =
    ((requests i).check settings).redisKey ↔ SameClient requests i j
  /-- There is a run in which nobody else sends a command: its checks are as far, and were
  counted at the same times. -/
  alone : ∃ (f : ℕ → ℕ) (hf : Monotone f) (cfg' : Checks ι),
    Reach (redis (env.at f hf)) (fun _ _ j _ => SameClient requests i j)
      (startChecks fun j => (requests j).check settings) cfg' ∧
    (∀ j, SameClient requests i j → cfg'.threads j = cfg.threads j) ∧
    hits (env.at f hf) ((requests i).check settings).redisKey cfg'.trace =
      hits env ((requests i).check settings).redisKey cfg.trace
  /-- Whoever is refused has made more requests than the limit. -/
  refused : 1 ≤ settings.authWindowSeconds → ∀ d, (cfg.threads i).result = some (.ok d) →
    d.allowed = false → ∃ s : Finset ι, settings.authRequests < s.card ∧
      ∀ j ∈ s, SameClient requests i j ∧ ∃ ev ∈ cfg.trace, ev.who = j

omit [DecidableEq ι] in
/-- A check that is refused was counted more often than the limit. -/
theorem Limiting.refused {checks' : ι → CheckRequest} {key : Str} {W : ℤ} {φ : ι → CheckState}
    {i : ι} (h : Limiting env checks' key W φ cfg.shared cfg.trace)
    (hsim : Sim (redis env) (checks env checks') i (cfg.threads i).prog (cfg.threads i).loc (φ i))
    (hkey : (checks' i).redisKey = key) {d : RateLimitDecision}
    (hresult : (cfg.threads i).result = some (.ok d)) (hrefused : d.allowed = false) :
    (checks' i).limit < (hits env key cfg.trace).length := by
  have hfinal : (φ i).Outcome (checks' i) (.ok d) := hsim.final hresult
  generalize hψ : φ i = ψ at hfinal
  cases ψ with
  | counted n =>
    obtain ⟨hit, hmem, -, rfl⟩ := (h.each i hkey).counted n hψ
    have hlimit : (checks' i).limit < hit.count := by
      by_contra hle
      have hallowed := hfinal.mpr (not_lt.mp hle)
      rw [hrefused] at hallowed
      cases hallowed
    -- the hits up to this one are as many as its count
    obtain ⟨newer, older, heq⟩ := List.append_of_mem hmem
    have hcounted := h.hits_counted
    rw [heq] at hcounted
    have hcount : hit.count ≤ (hit :: older).length := by
      clear heq
      induction newer with
      | nil => exact hcounted.count_le_length
      | cons x newer ih => exact ih hcounted.tail
    rw [heq, List.length_append]
    omega
  | begun => exact hfinal.elim
  | created => exact hfinal.elim
  | abandoned => exact hfinal.elim
  | stopped => exact hfinal.elim

/-- **Clients are limited one by one**: whatever others do at the same time, the checks of
a client end as they would if nobody else sent a command, and a client with no more
requests than the limit is not refused. -/
theorem clients_are_limited_alone
    (hreach : Reach (redis env) guard (startChecks fun i => (requests i).check settings) cfg)
    (i : ι) : LimitedAlone env settings requests cfg i := by
  -- the clock readings of the client, by their place among all readings
  obtain ⟨f, hf, hpos⟩ := exists_positions (SameClient requests i) cfg.trace
  obtain ⟨cfg', hreach', hthreads, htrace, hagrees⟩ := hreach.project
    (SameClient requests i) (redis (env.at f hf.monotone))
    (startChecks fun i => (requests i).check settings)
    (fun j o => o.key = ((requests j).check settings).redisKey)
    (Positions (SameClient requests i) f)
    (Agrees env (SameClient requests i) f hf.monotone ((requests i).check settings).redisKey)
    (fun _ _ h => h.2) (fun j => along_check _) (fun _ _ => rfl) rfl ⟨rfl, rfl, rfl, rfl⟩
    (by
      -- a check of the client is answered alike alone
      intro tr w w' j o _ hj ho hagrees hknown _
      have hkey : o.key = ((requests i).check settings).redisKey :=
        ho.trans ((key_eq_iff settings (requests i) (requests j)).mpr hj).symm
      obtain ⟨hans, hagrees'⟩ := hagrees.own hj hkey (hknown.1 hj)
      exact ⟨trivial, hans, rfl, hagrees'⟩)
    (by
      -- a check of another client uses another key
      intro tr w w' j o _ hj ho hagrees
      refine hagrees.other hj fun hkey => hj ?_
      exact (key_eq_iff settings (requests i) (requests j)).mp (hkey.symm.trans ho))
    hpos
  refine ⟨fun j => eq_comm.trans (key_eq_iff settings (requests i) (requests j)),
    ⟨f, hf.monotone, cfg', hreach', hthreads, ?_⟩, ?_⟩
  · rw [htrace]
    exact hagrees.hits
  · -- a refusal means that the window was full, of checks with the key of the client
    intro hW d hresult hrefused
    have hwindow : ∀ j, ((requests j).check settings).redisKey =
        ((requests i).check settings).redisKey →
        ((requests j).check settings).windowSeconds = settings.authWindowSeconds := fun _ _ => rfl
    obtain ⟨φ, hlimiting, hsim⟩ := limiting_of_reach hW hwindow hreach
    have hlt := hlimiting.refused (hsim i) rfl hresult hrefused
    refine ⟨((hits env ((requests i).check settings).redisKey cfg.trace).map (·.who)).toFinset,
      ?_, fun j hj => ?_⟩
    · rw [List.toFinset_card_of_nodup hlimiting.once, List.length_map]
      exact hlt
    · obtain ⟨hit, hmem, rfl⟩ := List.mem_map.mp (List.mem_toFinset.mp hj)
      rw [← hagrees.hits] at hmem
      obtain ⟨ev, hev, hwho⟩ := who_of_mem_hits hmem
      obtain ⟨hev, hmine⟩ := List.mem_filter.mp hev
      rw [← hwho]
      exact ⟨of_decide_eq_true hmine, ev, hev, rfl⟩

end runs

theorem login_mem_all : Route.login ∈ Route.all := by simp [Route.all]

/-- Two requests to log in from one client, and one from another. -/
def threeLogins (i : Fin 3) : LimitedRequest where
  route := .login
  client := some (if i = 2 then lit ['b'] else lit ['a'])
  mem := login_mem_all
  limited := rfl

/-- Their commands, in turn. -/
def threeLoginsConfig : Checks (Fin 3) :=
  (startChecks fun i => (threeLogins i).check ⟨1, 60⟩).schedule
    (redis (everyMillisecond fun _ => false)) [0, 2, 1, 0, 2, 1]

/-- The client with one request is admitted, and the one with two is refused one. -/
theorem clients_are_limited_alone_sample :
    (threeLoginsConfig.threads 2).result = some (.ok ⟨true, 0⟩) ∧
      (threeLoginsConfig.threads 1).result = some (.ok ⟨false, 60⟩) ∧
      ∀ i, LimitedAlone (everyMillisecond fun _ => false) ⟨1, 60⟩ threeLogins threeLoginsConfig i :=
  have hreach : Reach (redis (everyMillisecond fun _ => false)) anyCall
      (startChecks fun i => (threeLogins i).check ⟨1, 60⟩) threeLoginsConfig :=
    reach_schedule _ .refl (by decide +kernel)
  ⟨by decide +kernel, by decide +kernel, clients_are_limited_alone hreach⟩

end FastapiStarter
