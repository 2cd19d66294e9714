import FastapiStarter.RateWindows

/-!
# What a refused client is told

A check that refuses its request answers with the seconds that are left of the
counter.  Redis rounds them to the nearest second, and the check tells one second
at least.  The counter is still there at the instant at which it expires, so a client
that is told no more than what is left comes back before it is gone.

## Main definitions

* `RedisRateLimiter.answer` — a check that nothing interrupts.
* `Keyspace.left` — the time that is left of a counter.
* `WaitSuffices` — who waits as told is admitted.
* `RoundedUp` — what is told is more than what is left.

## Main results

* `expires_of_reach` — the counters that completed checks leave behind expire.
* `waitSuffices_iff` — **waiting as told is enough iff what is left was rounded up**.
* `told_too_little` — a client that was told too little.
-/

namespace FastapiStarter

open Interaction

/-! ### A check that nothing interrupts -/

/-- The answer to a command. -/
def RedisEnv.send (env : RedisEnv) (o : Redis) (w : RedisWorld) :
    Except Stopped o.Ret × RedisWorld :=
  let (answer, (), w') := (redis (ι := Unit) env).exec () o ((), w)
  (answer, w')

/-- A check whose commands come one after the other. -/
def RedisRateLimiter.answer (env : RedisEnv) (r : CheckRequest) (w : RedisWorld) :
    Except Stopped RateLimitDecision × RedisWorld :=
  (RedisRateLimiter.check r).run env.send w

/-- The milliseconds that are left of the counter under a key; none are left of one
that is gone. -/
def Keyspace.left (keys : Keyspace) (time : ℤ) (key : Str) : ℤ :=
  (keys.get time key).elim 0 fun c => c.expireAt.elim 0 (· - time)

/-- **Waiting as told is enough.**  Whenever the check is made again, the seconds told
or more after it was refused, and with no other check of its key in the meantime, it
admits its request. -/
def WaitSuffices (r : CheckRequest) (refused : ℤ) (w : RedisWorld) (told : ℤ) : Prop :=
  ∀ (env : RedisEnv) (w' : RedisWorld), (∀ n, env.lost n = false) →
    w'.keys r.redisKey = w.keys r.redisKey → refused + 1000 * told ≤ env.clock w'.sent →
    ∃ d, (RedisRateLimiter.answer env r w').1 = .ok d ∧ d.allowed = true

/-- Rounded to the nearest second, and to one second at least, the time is more. -/
def RoundedUp (left : ℤ) : Prop :=
  left < 1000 ∨ 500 ≤ left % 1000

instance (left : ℤ) : Decidable (RoundedUp left) := inferInstanceAs (Decidable (_ ∨ _))

/-- Every command is sent: the checks that have begun are completed. -/
def NothingLost {ι : Type} (env : RedisEnv) : Guard ι Redis Redis.Ret Stopped RedisWorld :=
  fun _ w _ _ => env.lost w.sent = false

instance {ι : Type} (env : RedisEnv) (tr : RedisTrace ι) (w : RedisWorld) (i : ι) (o : Redis) :
    Decidable (NothingLost env tr w i o) := inferInstanceAs (Decidable (_ = _))

/-! ### The counters that completed checks leave behind -/

section expires

variable {ι : Type} {env : RedisEnv} {requests : ι → CheckRequest} {key : Str}

/-- A counter without an expiry belongs to a check that is about to set it. -/
structure Owned (requests : ι → CheckRequest) (key : Str) (φ : ι → CheckState) (w : RedisWorld)
    (tr : RedisTrace ι) : Prop where
  positive : ∀ key c, w.keys key = some c → 0 < c.count
  owner : ∀ c, w.keys key = some c → c.expireAt = none →
    ∃ i, φ i = .created ∧ (requests i).redisKey = key
  begun : ∀ i, φ i = .created → ∃ ev ∈ tr, ev.who = i

variable [DecidableEq ι] {φ : ι → CheckState} {w w' : RedisWorld} {tr : RedisTrace ι} {i : ι}
  {o : Redis} {ans : Except Stopped o.Ret} {φ' : CheckState}

/-- A check that is not about to set the expiry of the key leaves the owner as it is. -/
theorem Owned.owner_update (h : Owned requests key φ w tr)
    (hother : φ i = .created → (requests i).redisKey ≠ key) {c : Counter}
    (hc : w.keys key = some c) (hnone : c.expireAt = none) :
    ∃ j, Function.update φ i φ' j = .created ∧ (requests j).redisKey = key := by
  obtain ⟨j, hj, hkey⟩ := h.owner c hc hnone
  have hji : j ≠ i := by
    rintro rfl
    exact hother hj hkey
  exact ⟨j, by rwa [Function.update_of_ne hji], hkey⟩

/-- **Every command of a check that is not lost keeps the owner.** -/
theorem Owned.step (h : Owned requests key φ w tr) (hwindow : 0 < (requests i).windowSeconds)
    (hsent : env.lost w.sent = false) (hact : CheckAct env (requests i) (φ i) w o ans w' φ') :
    Owned requests key (Function.update φ i φ') w' (⟨i, o, ans⟩ :: tr) := by
  constructor
  case positive => exact hact.positive h.positive
  case begun =>
    intro j hj
    by_cases hji : j = i
    · exact ⟨_, List.mem_cons_self, hji.symm⟩
    · rw [Function.update_of_ne hji] at hj
      obtain ⟨ev, hev, hwho⟩ := h.begun j hj
      exact ⟨ev, List.mem_cons_of_mem _ hev, hwho⟩
  case owner =>
    intro c hc hnone
    by_cases hkey : (requests i).redisKey = key
    · generalize hψ : φ i = ψ at hact
      cases hact with
      | create => exact ⟨i, Function.update_self _ _ _, hkey⟩
      | @count _ c' hget =>
        rw [hkey] at hget hc
        obtain ⟨hold, -⟩ := Option.filter_eq_some_iff.mp hget
        change Function.update w.keys key _ key = some c at hc
        rw [Function.update_self] at hc
        obtain rfl := Option.some.inj hc
        exact h.owner_update (by simp [hψ]) hold hnone
      | expire =>
        -- the counter has an expiry now, or had one before
        rw [hkey] at hc
        simp only [Keyspace.expire] at hc
        split at hc
        · next hget =>
          obtain ⟨d, hd, -⟩ := expired_of_get hget hc
          rw [hnone] at hd
          cases hd
        · change Function.update w.keys key _ key = some c at hc
          rw [Function.update_self, if_pos hwindow] at hc
          obtain rfl := Option.some.inj hc
          cases hnone
      | ttl => exact h.owner_update (by simp [hψ]) hc hnone
      | stop hlost =>
        rw [hsent] at hlost
        cases hlost
    · rw [hact.keys_of_ne hkey] at hc
      exact h.owner_update (fun _ => hkey) hc hnone

/-- **The counters that completed checks leave behind expire.** -/
theorem expires_of_reach {cfg : Checks ι} (hwindow : ∀ i, 1 ≤ (requests i).windowSeconds)
    (hreach : Reach (redis env) (NothingLost env) (startChecks requests) cfg)
    (hidle : ∀ i, (requests i).redisKey = key → ¬ InProgress cfg i) {c : Counter}
    (hc : cfg.shared.keys key = some c) : ∃ d, c.expireAt = some d := by
  obtain ⟨φ, h, hsim⟩ := hreach.abstract (A := checks env requests)
    (fun φ w tr => Owned requests key φ w tr) (fun i => sim_check)
    ⟨by simp [startChecks], by simp [startChecks], by simp⟩ (fun φ w tr h i => h.positive)
    fun φ w tr i o ans w' φ' h hsent hact => h.step (hwindow i) hsent hact
  rcases hd : c.expireAt with _ | d
  · obtain ⟨i, hi, hkey⟩ := h.owner c hc hd
    refine absurd ⟨?_, h.begun i hi⟩ (hidle i hkey)
    rcases hresult : (cfg.threads i).result with _ | x
    · rfl
    · have hfinal : (φ i).Outcome (requests i) x := (hsim i).final hresult
      rw [hi] at hfinal
      cases x <;> exact hfinal.elim
  · exact ⟨d, rfl⟩

end expires

/-! ### Waiting -/

section waiting

variable {env : RedisEnv} {r : CheckRequest} {w w' : RedisWorld} {told : ℤ}

theorem send_of_sent (o : Redis) (hsent : env.lost w.sent = false) :
    env.send o w = (.ok (o.exec (env.clock w.sent) w.keys).1,
      ⟨(o.exec (env.clock w.sent) w.keys).2, w.sent + 1⟩) := by
  simp [RedisEnv.send, redis_exec, hsent]

theorem send_of_lost (o : Redis) (hlost : env.lost w.sent = true) :
    env.send o w = (.error .stopped, ⟨w.keys, w.sent + 1⟩) := by
  simp [RedisEnv.send, redis_exec, hlost]

/-- The end of a check that is not interrupted. -/
theorem run_decision (hsent : ∀ n, env.lost n = false) (count : ℕ) :
    ∃ d, ((RedisRateLimiter.decision r count).run env.send w).1 = .ok d ∧
      (d.allowed = true ↔ (count : ℤ) ≤ r.limit) := by
  unfold RedisRateLimiter.decision
  by_cases hlimit : r.limit < count
  · rw [if_pos hlimit]
    refine ⟨⟨false, max (w.keys.ttl (env.clock w.sent) r.redisKey) 1⟩, ?_, by simpa using hlimit⟩
    simp only [Prog.op_bind, Prog.run_call, send_of_sent _ (hsent _)]
    rfl
  · rw [if_neg hlimit]
    exact ⟨⟨true, 0⟩, rfl, by simpa using hlimit⟩

/-- A check that has counted its request. -/
theorem answer_of_incr (hsent : env.lost w.sent = false) {n : ℕ} {keys : Keyspace}
    (hincr : w.keys.incr (env.clock w.sent) r.redisKey = (n, keys)) :
    RedisRateLimiter.answer env r w =
      (if n = 1 then .call (.expire r.redisKey r.windowSeconds) fun _ =>
        RedisRateLimiter.decision r n
      else RedisRateLimiter.decision r n : Prog Redis Redis.Ret Stopped RateLimitDecision).run
        env.send ⟨keys, w.sent + 1⟩ := by
  have hexec : Redis.exec (env.clock w.sent) w.keys (.incr r.redisKey) = (n, keys) := hincr
  unfold RedisRateLimiter.answer RedisRateLimiter.check
  rw [Prog.op_bind, Prog.run_call, send_of_sent _ hsent, hexec]
  rfl

/-- **A check that is not interrupted** admits its request up to the limit. -/
theorem answer_allowed (hsent : ∀ n, env.lost n = false) :
    ∃ d, (RedisRateLimiter.answer env r w).1 = .ok d ∧ (d.allowed = true ↔
      ((w.keys.incr (env.clock w.sent) r.redisKey).1 : ℤ) ≤ r.limit) := by
  rw [answer_of_incr (hsent _) rfl]
  split_ifs with hone
  · rw [Prog.run_call, send_of_sent _ (hsent _)]
    exact run_decision hsent _
  · exact run_decision hsent _

/-- A request that is refused is over the limit, and is told what is left. -/
theorem refused_of_run {n : ℕ}
    (h : (RedisRateLimiter.decision r n).run env.send w = (.ok ⟨false, told⟩, w')) :
    r.limit < n ∧ w'.keys = w.keys ∧
      told = max (w.keys.ttl (env.clock w.sent) r.redisKey) 1 := by
  unfold RedisRateLimiter.decision at h
  by_cases hlimit : r.limit < n
  · rw [if_pos hlimit, Prog.op_bind, Prog.run_call] at h
    rcases hlost : env.lost w.sent with _ | _
    · rw [send_of_sent _ hlost] at h
      cases h
      exact ⟨hlimit, rfl, rfl⟩
    · rw [send_of_lost _ hlost] at h
      cases h
  · rw [if_neg hlimit] at h
    cases h

/-- The first request of a lifetime is not refused. -/
theorem not_refused_first (hlimit : 1 ≤ r.limit) :
    (Prog.call (.expire r.redisKey r.windowSeconds) fun _ => RedisRateLimiter.decision r 1).run
      env.send w ≠ (.ok ⟨false, told⟩, w') := by
  intro h
  rw [Prog.run_call] at h
  rcases hlost : env.lost w.sent with _ | _
  · rw [send_of_sent _ hlost] at h
    obtain ⟨hover, -⟩ := refused_of_run h
    omega
  · rw [send_of_lost _ hlost] at h
    cases h

/-- **A check that refuses its request** has found a counter, and tells what is left
of it. -/
theorem answer_refused (hlimit : 1 ≤ r.limit)
    (h : RedisRateLimiter.answer env r w = (.ok ⟨false, told⟩, w')) :
    ∃ c, w.keys r.redisKey = some c ∧ r.limit < c.count + 1 ∧
      w'.keys = Function.update w.keys r.redisKey (some ⟨c.count + 1, c.expireAt⟩) ∧
      told = max (w'.keys.ttl (env.clock (w.sent + 1)) r.redisKey) 1 := by
  rcases hlost : env.lost w.sent with _ | _
  · rcases hget : w.keys.get (env.clock w.sent) r.redisKey with _ | c
    · rw [answer_of_incr hlost (by rw [Keyspace.incr, hget]), if_pos rfl] at h
      exact absurd h (not_refused_first hlimit)
    · rw [answer_of_incr hlost (by rw [Keyspace.incr, hget])] at h
      split_ifs at h with hone
      · rw [hone] at h
        exact absurd h (not_refused_first hlimit)
      · obtain ⟨hover, hkeys, htold⟩ := refused_of_run h
        obtain ⟨hc, -⟩ := Option.filter_eq_some_iff.mp hget
        refine ⟨c, hc, by exact_mod_cast hover, hkeys, ?_⟩
        rw [hkeys]
        exact htold
  · rw [RedisRateLimiter.answer, RedisRateLimiter.check, Prog.op_bind, Prog.run_call,
      send_of_lost _ hlost] at h
    cases h

/-- A counter that expires is found until then. -/
theorem get_of_expireAt {keys : Keyspace} {key : Str} {c : Counter} {d : ℤ}
    (hc : keys key = some c) (hd : c.expireAt = some d) (time : ℤ) :
    keys.get time key = if time ≤ d then some c else none := by
  rw [Keyspace.get, hc, Option.filter_some, hd]
  simp

/-- A check of a key that is over the limit admits its request once the counter is gone. -/
theorem allowed_iff_gone (hsent : ∀ n, env.lost n = false) (hlimit : 1 ≤ r.limit) {c : Counter}
    {d : ℤ} (hc : w.keys r.redisKey = some c) (hd : c.expireAt = some d)
    (hover : r.limit < c.count + 1) :
    (∃ d, (RedisRateLimiter.answer env r w).1 = .ok d ∧ d.allowed = true) ↔
      d < env.clock w.sent := by
  obtain ⟨e, he, hallowed⟩ := answer_allowed (r := r) (w := w) hsent
  have hiff : (∃ d, (RedisRateLimiter.answer env r w).1 = .ok d ∧ d.allowed = true) ↔
      e.allowed = true := by
    rw [he]
    constructor
    · rintro ⟨d, hd, hd'⟩
      obtain rfl := Except.ok.inj hd
      exact hd'
    · exact fun h => ⟨e, rfl, h⟩
  rw [hiff, hallowed]
  by_cases hlive : env.clock w.sent ≤ d
  · have hget := get_of_expireAt hc hd (env.clock w.sent)
    rw [if_pos hlive] at hget
    rw [Keyspace.incr, hget]
    push_cast
    omega
  · have hget := get_of_expireAt hc hd (env.clock w.sent)
    rw [if_neg hlive] at hget
    rw [Keyspace.incr, hget]
    push_cast
    omega

/-- What is left, rounded to the nearest second and to one second at least. -/
theorem lt_rounded_iff (left : ℤ) :
    left < 1000 * max ((left + 500) / 1000) 1 ↔ RoundedUp left := by
  unfold RoundedUp
  omega

end waiting

section main

variable {ι : Type} [DecidableEq ι] {env : RedisEnv} {requests : ι → CheckRequest}
  {cfg : Checks ι} {r : CheckRequest} {w' : RedisWorld} {told : ℤ}

/-- **Waiting as told is enough iff what is left was rounded up.**  The check is
refused after any run of completed checks. -/
theorem waitSuffices_iff (hwindow : ∀ i, 1 ≤ (requests i).windowSeconds)
    (hreach : Reach (redis env) (NothingLost env) (startChecks requests) cfg)
    (hidle : ∀ i, (requests i).redisKey = r.redisKey → ¬ InProgress cfg i) (hlimit : 1 ≤ r.limit)
    (hrefused : RedisRateLimiter.answer env r cfg.shared = (.ok ⟨false, told⟩, w')) :
    WaitSuffices r (env.clock (cfg.shared.sent + 1)) w' told ↔
      RoundedUp (cfg.shared.keys.left (env.clock (cfg.shared.sent + 1)) r.redisKey) := by
  obtain ⟨c, hc, hover, hkeys, htold⟩ := answer_refused hlimit hrefused
  obtain ⟨d, hd⟩ := expires_of_reach hwindow hreach hidle hc
  set refused := env.clock (cfg.shared.sent + 1)
  have hc' : w'.keys r.redisKey = some ⟨c.count + 1, c.expireAt⟩ := by
    rw [hkeys, Function.update_self]
  -- the counter outlives the wait, or it does not
  have hwait : WaitSuffices r refused w' told ↔ d < refused + 1000 * told := by
    constructor
    · intro h
      have hnow := h ⟨fun _ => refused + 1000 * told, fun _ _ _ => le_rfl, fun _ => false⟩ w'
        (fun _ => rfl) rfl le_rfl
      exact (allowed_iff_gone (fun _ => rfl) hlimit hc' hd (by push_cast; omega)).mp hnow
    · intro hle env' w'' hsent hsame hlater
      rw [hc'] at hsame
      exact (allowed_iff_gone hsent hlimit hsame hd (by push_cast; omega)).mpr (hle.trans_le hlater)
  have hleft : cfg.shared.keys.left refused r.redisKey =
      if refused ≤ d then d - refused else 0 := by
    rw [Keyspace.left, get_of_expireAt hc hd]
    split_ifs with hlive
    · simp [hd]
    · rfl
  have httl : w'.keys.ttl refused r.redisKey =
      if refused ≤ d then (d - refused + 500) / 1000 else -2 := by
    rw [Keyspace.ttl, get_of_expireAt hc' hd]
    split_ifs with hlive
    · simp [hd]
    · rfl
  rw [hwait, htold, httl, hleft, ← lt_rounded_iff]
  split_ifs with hlive <;> omega

theorem lateInWindow_mono (late : ℕ) : Monotone fun n : ℕ => if n < 2 then (0 : ℤ) else late := by
  intro m n hmn
  show (if m < 2 then (0 : ℤ) else (late : ℤ)) ≤ if n < 2 then (0 : ℤ) else (late : ℤ)
  split_ifs <;> omega

/-- A check at time 0, and the next late in its window. -/
def lateInWindow (late : ℕ) : RedisEnv where
  clock n := if n < 2 then 0 else late
  clock_mono := lateInWindow_mono late
  lost _ := false

/-- The first check, which is completed. -/
def firstCheck (late : ℕ) : Checks Bool :=
  (startChecks twoChecks).schedule (redis (lateInWindow late)) [false, false]

theorem reach_firstCheck (late : ℕ) : Reach (redis (lateInWindow late))
    (NothingLost (lateInWindow late)) (startChecks twoChecks) (firstCheck late) :=
  reach_schedule _ .refl ⟨⟨trivial, rfl⟩, ⟨trivial, rfl⟩, trivial⟩

theorem idle_firstCheck (late : ℕ) (i : Bool) : ¬ InProgress (firstCheck late) i := by
  rintro ⟨hresult, ev, hev, hwho⟩
  cases i with
  | false =>
    have hended : ((firstCheck late).threads false).result = some (.ok ⟨true, 0⟩) := rfl
    rw [hended] at hresult
    cases hresult
  | true =>
    have htrace : (firstCheck late).trace.map (·.who) = [false, false] := rfl
    have hmem := List.mem_map_of_mem (f := (·.who)) hev
    rw [htrace, hwho] at hmem
    simp at hmem

/-- A second and a half before the counter expires, two seconds are told. -/
theorem waitSuffices_told_two :
    (RedisRateLimiter.answer (lateInWindow 58500) (twoChecks true)
      (firstCheck 58500).shared).1 = .ok ⟨false, 2⟩ ∧
    WaitSuffices (twoChecks true) 58500 (RedisRateLimiter.answer (lateInWindow 58500)
      (twoChecks true) (firstCheck 58500).shared).2 2 := by
  have htold : (RedisRateLimiter.answer (lateInWindow 58500) (twoChecks true)
      (firstCheck 58500).shared).1 = .ok ⟨false, 2⟩ := by decide +kernel
  refine ⟨htold, (waitSuffices_iff (fun _ => (by decide : (1 : ℤ) ≤ 60))
    (reach_firstCheck 58500) (fun i _ => idle_firstCheck 58500 i) (by decide)
    (Prod.ext htold rfl)).mpr (by decide +kernel)⟩

/-- **A client that is told too little**: 1400 milliseconds before the counter expires
one second is told, and a second later the check is refused again. -/
theorem told_too_little :
    Reach (redis (lateInWindow 58600)) (NothingLost (lateInWindow 58600)) (startChecks twoChecks)
      (firstCheck 58600) ∧
    (∀ i, ¬ InProgress (firstCheck 58600) i) ∧
    (RedisRateLimiter.answer (lateInWindow 58600) (twoChecks true)
      (firstCheck 58600).shared).1 = .ok ⟨false, 1⟩ ∧
    ¬ WaitSuffices (twoChecks true) 58600 (RedisRateLimiter.answer (lateInWindow 58600)
      (twoChecks true) (firstCheck 58600).shared).2 1 := by
  refine ⟨reach_firstCheck _, idle_firstCheck _, by decide +kernel, fun h => ?_⟩
  obtain ⟨d, hd, hallowed⟩ := h ⟨fun _ => 59600, fun _ _ _ => le_rfl, fun _ => false⟩ _
    (fun _ => rfl) rfl (by decide)
  have hrefused : (RedisRateLimiter.answer ⟨fun _ => 59600, fun _ _ _ => le_rfl, fun _ => false⟩
      (twoChecks true) (RedisRateLimiter.answer (lateInWindow 58600) (twoChecks true)
        (firstCheck 58600).shared).2).1 = .ok ⟨false, 1⟩ := by decide +kernel
  rw [hrefused] at hd
  obtain rfl := Except.ok.inj hd
  cases hallowed

end main

end FastapiStarter
