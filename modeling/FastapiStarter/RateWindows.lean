import FastapiStarter.RateLimiter

/-!
# What the limiter promises a client

The counter of a key is a fixed window: of the requests counted in one lifetime
the first `limit` are admitted, and a lifetime lasts a window or longer.  Nobody
is locked out, unless a check stops after it has created the counter and before
it has set the expiry: such a counter stays for good.

## Main definitions

* `WasAllowed`, `InProgress` — checks that were allowed, or are under way.
* `WindowBound` — the bound on the requests admitted.
* `NoLockout` — the promise to a client that waits.

## Main results

* `windowBound_of_reach` — **the bound holds**, whatever the order of the commands.
* `noLockout_of_reach` — **nobody is locked out** in a run that sets each expiry.
* `locked_out` — a run that does not.
-/

namespace FastapiStarter

open Interaction FixedWindow

section definitions

variable {ι : Type}

/-- The check has ended and has admitted its request. -/
def WasAllowed (cfg : Checks ι) (i : ι) : Prop :=
  ∃ d, (cfg.threads i).result = some (.ok d) ∧ d.allowed = true

/-- The check has sent a command and has not ended. -/
def InProgress (cfg : Checks ι) (i : ι) : Prop :=
  (cfg.threads i).result = none ∧ ∃ ev ∈ cfg.trace, ev.who = i

/-- **The bound on the requests admitted** for a key, with a limit and windows of
`W` seconds. -/
structure WindowBound [DecidableEq ι] (env : RedisEnv) (requests : ι → CheckRequest) (key : Str)
    (limit : ℕ) (W : ℤ) (cfg : Checks ι) : Prop where
  /-- A request that is admitted was counted, within the limit. -/
  counted : ∀ i, (requests i).redisKey = key → WasAllowed cfg i →
    ∃ h ∈ hits env key cfg.trace, h.who = i ∧ h.count ≤ limit
  /-- Of the requests counted in one lifetime no more than the limit are admitted. -/
  lifetime : ∀ (n : ℕ) (s : Finset ι), (∀ i ∈ s, (requests i).redisKey = key ∧ WasAllowed cfg i ∧
    ∃ x ∈ ranked (hits env key cfg.trace), x.1 = n ∧ x.2.who = i) → s.card ≤ limit
  /-- The counter stays for a window after it was created. -/
  lasts : ∀ t, hits env key cfg.trace ≠ [] →
    t ≤ FixedWindow.start (hits env key cfg.trace) + 1000 * W →
    (cfg.shared.keys.get t key).isSome
  /-- Of the requests counted in any window no more than twice the limit are admitted. -/
  interval : ∀ (a : ℤ) (s : Finset ι), (∀ i ∈ s, (requests i).redisKey = key ∧ WasAllowed cfg i ∧
    ∃ h ∈ hits env key cfg.trace, h.who = i ∧ a ≤ h.time ∧ h.time < a + 1000 * W) →
    s.card ≤ 2 * limit
  /-- No command resets the counter or moves its expiry. -/
  kept : ∀ i c, cfg.shared.keys.get (env.clock cfg.shared.sent) key = some c →
    ∃ c', (cfg.advance (redis env) i).shared.keys key = some c' ∧ c.count ≤ c'.count ∧
      ∀ d, c.expireAt = some d → c'.expireAt = some d

/-- **A client that waits is admitted again.** -/
structure NoLockout [DecidableEq ι] (env : RedisEnv) (requests : ι → CheckRequest) (key : Str)
    (W : ℤ) (cfg : Checks ι) (now : ℤ) : Prop where
  /-- The counter expires within a window. -/
  expires : ∀ c, cfg.shared.keys.get now key = some c →
    ∃ d, c.expireAt = some d ∧ d ≤ now + 1000 * W
  gone : ∀ t, now + 1000 * W < t → cfg.shared.keys.get t key = none
  /-- A check that begins after a window admits its request. -/
  admitted : ∀ i, cfg.threads i = (startChecks requests).threads i →
    (requests i).redisKey = key → 1 ≤ (requests i).limit →
    now + 1000 * W < env.clock cfg.shared.sent →
    env.lost cfg.shared.sent = false → env.lost (cfg.shared.sent + 1) = false →
    ((cfg.schedule (redis env) [i, i]).threads i).result = some (.ok ⟨true, 0⟩)

end definitions

/-! ### The bound -/

section bound

variable {ι : Type} {env : RedisEnv} {requests : ι → CheckRequest} {key : Str} {W : ℤ}
  {φ : ι → CheckState} {w w' : RedisWorld} {tr : RedisTrace ι} {i : ι} {o : Redis}
  {ans : Except Stopped o.Ret} {φ' : CheckState}

/-- A request that is admitted was counted within the limit of its check. -/
theorem Limiting.counted (h : Limiting env requests key W φ w tr) {cfg : Checks ι}
    (hsim : Sim (redis env) (checks env requests) i (cfg.threads i).prog (cfg.threads i).loc (φ i))
    (hkey : (requests i).redisKey = key) (hallowed : WasAllowed cfg i) :
    ∃ h ∈ hits env key tr, h.who = i ∧ (h.count : ℤ) ≤ (requests i).limit := by
  obtain ⟨d, hresult, hd⟩ := hallowed
  have hfinal : (φ i).Outcome (requests i) (.ok d) := hsim.final hresult
  generalize hψ : φ i = ψ at hfinal
  cases ψ with
  | counted n =>
    obtain ⟨hit, hmem, hwho, hcount⟩ := (h.each i hkey).counted n hψ
    exact ⟨hit, hmem, hwho, by rw [hcount]; exact hfinal.mp hd⟩
  | begun => exact hfinal.elim
  | created => exact hfinal.elim
  | abandoned => exact hfinal.elim
  | stopped => exact hfinal.elim

/-- A counter stays while it has not expired. -/
theorem get_of_expiry {keys : Keyspace} {time : ℤ} {c : Counter} (hc : keys key = some c)
    (hexpires : ∀ d, c.expireAt = some d → time ≤ d) : keys.get time key = some c := by
  rw [Keyspace.get, hc]
  refine Option.filter_eq_some_iff.mpr ⟨rfl, ?_⟩
  rcases hd : c.expireAt with _ | d
  · rfl
  · exact decide_eq_true (hexpires d hd)

/-- The hits of a key are those of a fixed window. -/
theorem Limiting.hits_counted (h : Limiting env requests key W φ w tr) :
    Counted (1000 * W) (hits env key tr) := by
  have htracks := h.tracks
  rcases hc : w.keys key with _ | c
  · rw [hc] at htracks
    rw [show hits env key tr = [] from htracks]
    exact .nil
  · rw [hc] at htracks
    obtain ⟨hit, hs, -, -, hcounted, -⟩ := htracks
    exact hcounted

/-- A key that was hit has a counter for a window at least. -/
theorem Limiting.lasts (h : Limiting env requests key W φ w tr) {t : ℤ}
    (hne : hits env key tr ≠ []) (ht : t ≤ FixedWindow.start (hits env key tr) + 1000 * W) :
    (w.keys.get t key).isSome := by
  have htracks := h.tracks
  rcases hc : w.keys key with _ | c
  · rw [hc] at htracks
    exact absurd htracks hne
  · rw [hc] at htracks
    obtain ⟨hit, hs, -, -, -, hexpires⟩ := htracks
    rw [get_of_expiry hc fun d hd => ht.trans (hexpires d hd)]
    rfl

theorem Limiting.eq_of_who (h : Limiting env requests key W φ w tr) {hit hit' : Hit ι}
    (hmem : hit ∈ hits env key tr) (hmem' : hit' ∈ hits env key tr) (hwho : hit.who = hit'.who) :
    hit = hit' :=
  List.inj_on_of_nodup_map h.once hmem hmem' hwho

/-- **No command resets the counter or moves its expiry.** -/
theorem Limiting.kept (h : Limiting env requests key W φ w tr) (hW : 0 < W)
    (hwindow : ∀ i, (requests i).redisKey = key → (requests i).windowSeconds = W)
    (hact : CheckAct env (requests i) (φ i) w o ans w' φ') {c : Counter}
    (hget : w.keys.get (env.clock w.sent) key = some c) :
    ∃ c', w'.keys key = some c' ∧ c.count ≤ c'.count ∧
      ∀ d, c.expireAt = some d → c'.expireAt = some d := by
  obtain ⟨hc, -⟩ := Option.filter_eq_some_iff.mp hget
  by_cases hkey : (requests i).redisKey = key
  · generalize hψ : φ i = ψ at hact
    cases hact with
    | create hnone =>
      rw [hkey, hget] at hnone
      cases hnone
    | count hget' =>
      rw [hkey] at hget' ⊢
      obtain rfl := Option.some.inj (hget.symm.trans hget')
      exact ⟨_, Function.update_self _ _ _, Nat.le_succ _, fun d hd => hd⟩
    | expire =>
      -- the counter of the check has no expiry to move
      obtain ⟨⟨c', hc', hnone⟩, -⟩ := (h.each i hkey).created hψ
      obtain rfl := Option.some.inj (hc.symm.trans hc')
      rw [hkey, hwindow i hkey]
      refine ⟨⟨c.count, some (env.clock w.sent + 1000 * W)⟩, ?_, le_rfl, fun d hd => ?_⟩
      · simp only [Keyspace.expire, hget, if_pos hW, Function.update_self]
      · rw [hnone] at hd
        cases hd
    | ttl => exact ⟨c, hc, le_rfl, fun d hd => hd⟩
    | stop => exact ⟨c, hc, le_rfl, fun d hd => hd⟩
  · exact ⟨c, (hact.keys_of_ne hkey).trans hc, le_rfl, fun d hd => hd⟩

end bound

section run

variable {ι : Type} [DecidableEq ι] {env : RedisEnv} {requests : ι → CheckRequest} {key : Str}
  {W : ℤ} {cfg : Checks ι}

omit [DecidableEq ι] in
/-- Different clients, each with a hit in a list, are not more than its hits. -/
theorem card_le_length {s : Finset ι} {l : List (ℕ × Hit ι)} (h : ∀ i ∈ s, ∃ x ∈ l, x.2.who = i) :
    s.card ≤ l.length := by
  classical
  have hsub : s ⊆ (l.map fun x => x.2.who).toFinset := by
    intro i hi
    obtain ⟨x, hx, hwho⟩ := h i hi
    exact List.mem_toFinset.mpr (List.mem_map.mpr ⟨x, hx, hwho⟩)
  calc s.card ≤ (l.map fun x => x.2.who).toFinset.card := Finset.card_le_card hsub
    _ ≤ (l.map fun x => x.2.who).length := List.toFinset_card_le _
    _ = l.length := List.length_map _

/-- **The bound holds**, whatever the order of the commands, and wherever checks stop. -/
theorem windowBound_of_reach {limit : ℕ} (hW : 1 ≤ W)
    (hrequests : ∀ i, (requests i).redisKey = key →
      (requests i).limit = limit ∧ (requests i).windowSeconds = W)
    (hreach : Reach (redis env) anyCall (startChecks requests) cfg) :
    WindowBound env requests key limit W cfg := by
  have hwindow := fun i hkey => (hrequests i hkey).2
  obtain ⟨φ, h, hsim⟩ := limiting_of_reach hW hwindow hreach
  have hcounted : ∀ i, (requests i).redisKey = key → WasAllowed cfg i →
      ∃ h ∈ hits env key cfg.trace, h.who = i ∧ h.count ≤ limit := by
    intro i hkey hallowed
    obtain ⟨hit, hmem, hwho, hle⟩ := h.counted (hsim i) hkey hallowed
    rw [(hrequests i hkey).1] at hle
    exact ⟨hit, hmem, hwho, Int.ofNat_le.mp hle⟩
  -- the hit of a request that is admitted is the one that is within the limit
  have hlimit : ∀ i, (requests i).redisKey = key → WasAllowed cfg i →
      ∀ hit ∈ hits env key cfg.trace, hit.who = i → hit.count ≤ limit := by
    intro i hkey hallowed hit hmem hwho
    obtain ⟨hit', hmem', hwho', hle⟩ := hcounted i hkey hallowed
    rwa [h.eq_of_who hmem hmem' (hwho.trans hwho'.symm)]
  constructor
  case counted => exact hcounted
  case lifetime =>
    intro n s hs
    refine (card_le_length fun i hi => ?_).trans (h.hits_counted.length_lifetime_le limit n)
    obtain ⟨hkey, hallowed, x, hx, hn, hwho⟩ := hs i hi
    have hle := hlimit i hkey hallowed x.2 (mem_of_mem_ranked hx) hwho
    exact ⟨x, List.mem_filter.mpr ⟨hx, decide_eq_true ⟨hn, hle⟩⟩, hwho⟩
  case lasts =>
    intro t hne ht
    exact h.lasts hne ht
  case interval =>
    intro a s hs
    refine (card_le_length fun i hi => ?_).trans (h.hits_counted.length_interval_le limit a)
    obtain ⟨hkey, hallowed, hit, hmem, hwho, hfrom, hto⟩ := hs i hi
    obtain ⟨x, hx, rfl⟩ := exists_ranked hmem
    have hle := hlimit i hkey hallowed x.2 hmem hwho
    exact ⟨x, List.mem_filter.mpr ⟨hx, decide_eq_true ⟨hfrom, hto, hle⟩⟩, hwho⟩
  case kept =>
    intro i c hget
    rcases hp : (cfg.threads i).result with _ | x
    · obtain ⟨o, k, hcall⟩ := Thread.exists_call hp
      obtain ⟨ans, φ', hact, -, -⟩ := Sim.advance hsim hcall h.positive
      exact h.kept hW hwindow hact hget
    · -- a check that has ended sends no command
      obtain ⟨hc, -⟩ := Option.filter_eq_some_iff.mp hget
      rw [Config.advance_of_result _ hp]
      exact ⟨c, hc, le_rfl, fun d hd => hd⟩

omit [DecidableEq ι] in
/-- Two checks of one address, of which one request is admitted in a minute. -/
def twoChecks (_ : Bool) : CheckRequest where
  key := lit ['l', 'o', 'g', 'i', 'n']
  limit := 1
  windowSeconds := 60

theorem natClock_mono : Monotone fun n : ℕ => (n : ℤ) := fun _ _ hmn => Int.ofNat_le.mpr hmn

/-- A command each millisecond, of which some are lost. -/
def everyMillisecond (lost : ℕ → Bool) : RedisEnv where
  clock n := n
  clock_mono := natClock_mono
  lost := lost

/-- The second check counts before the first has set the expiry, and is refused. -/
theorem windowBound_twoChecks :
    let cfg := (startChecks twoChecks).schedule (redis (everyMillisecond fun _ => false))
      [false, true, false, true]
    WindowBound (everyMillisecond fun _ => false) twoChecks (twoChecks false).redisKey 1 60 cfg ∧
      (cfg.threads false).result = some (.ok ⟨true, 0⟩) ∧
      (cfg.threads true).result = some (.ok ⟨false, 60⟩) :=
  ⟨windowBound_of_reach (by decide) (fun _ _ => ⟨rfl, rfl⟩)
    (reach_schedule _ .refl (by decide +kernel)), by decide +kernel, by decide +kernel⟩

end run

/-! ### Nobody is locked out -/

section lockout

variable {ι : Type} [DecidableEq ι] {env : RedisEnv} {requests : ι → CheckRequest} {key : Str}
  {W : ℤ} {cfg : Checks ι}

omit [DecidableEq ι] in
/-- A check whose commands are all sent is not abandoned. -/
theorem CheckAct.not_abandoned {r : CheckRequest} {φ φ' : CheckState} {w w' : RedisWorld}
    {tr : RedisTrace ι} {i : ι} {o : Redis} {ans : Except Stopped o.Ret}
    (h : CheckAct env r φ w o ans w' φ') (hguard : NoLostExpire env tr w i o)
    (hnot : φ ≠ .abandoned) : φ' ≠ .abandoned := by
  cases h with
  | stop hlost hstop =>
    cases φ with
    | created =>
      have hsent := hguard (hstop rfl)
      rw [hlost] at hsent
      cases hsent
    | abandoned => exact absurd rfl hnot
    | _ => simp [CheckState.stop]
  | _ => simp

omit [DecidableEq ι] in
/-- A check that is about to set the expiry is in progress. -/
theorem Limiting.inProgress {φ : ι → CheckState} {i : ι}
    (h : Limiting env requests key W φ cfg.shared cfg.trace)
    (hsim : Sim (redis env) (checks env requests) i (cfg.threads i).prog (cfg.threads i).loc (φ i))
    (hkey : (requests i).redisKey = key) (hcreated : φ i = .created) : InProgress cfg i := by
  constructor
  · rcases hresult : (cfg.threads i).result with _ | x
    · rfl
    · have hfinal : (φ i).Outcome (requests i) x := hsim.final hresult
      rw [hcreated] at hfinal
      cases x <;> exact hfinal.elim
  · obtain ⟨-, hit, hmem, hwho, -⟩ := (h.each i hkey).created hcreated
    obtain ⟨ev, hev, hevwho⟩ := who_of_mem_hits hmem
    exact ⟨ev, hev, hevwho.trans hwho⟩

/-- A command that is not lost is answered. -/
theorem advance_redis {i : ι} {o : Redis}
    {k : o.Ret → Prog Redis Redis.Ret Stopped RateLimitDecision}
    (hcall : (cfg.threads i).prog = .call o k) (hsent : env.lost cfg.shared.sent = false) :
    cfg.advance (redis env) i =
      ⟨Function.update cfg.threads i ⟨k (o.exec (env.clock cfg.shared.sent) cfg.shared.keys).1, ()⟩,
        ⟨(o.exec (env.clock cfg.shared.sent) cfg.shared.keys).2, cfg.shared.sent + 1⟩,
        ⟨i, o, .ok (o.exec (env.clock cfg.shared.sent) cfg.shared.keys).1⟩ :: cfg.trace⟩ :=
  Config.advance_ok _ hcall (by rw [redis_exec, if_neg (by simp [hsent])])

/-- A check that finds no counter admits its request. -/
theorem admitted_of_get {i : ι} (hi : cfg.threads i = (startChecks requests).threads i)
    (hlimit : 1 ≤ (requests i).limit)
    (hget : cfg.shared.keys.get (env.clock cfg.shared.sent) (requests i).redisKey = none)
    (hsent : env.lost cfg.shared.sent = false) (hsent' : env.lost (cfg.shared.sent + 1) = false) :
    ((cfg.schedule (redis env) [i, i]).threads i).result = some (.ok ⟨true, 0⟩) := by
  have hcall : (cfg.threads i).prog = .call (.incr (requests i).redisKey) fun count =>
      if count = 1 then .call (.expire (requests i).redisKey (requests i).windowSeconds) fun _ =>
        RedisRateLimiter.decision (requests i) count
      else RedisRateLimiter.decision (requests i) count := by
    rw [hi]
    rfl
  have hcreated : (Redis.exec (env.clock cfg.shared.sent) cfg.shared.keys
      (.incr (requests i).redisKey)).1 = (1 : ℕ) := by
    simp only [Redis.exec, Keyspace.incr, hget]
  -- the first command creates the counter, the second sets its expiry
  have hfirst : ((cfg.advance (redis env) i).threads i).prog =
      .call (.expire (requests i).redisKey (requests i).windowSeconds) fun _ =>
        RedisRateLimiter.decision (requests i) 1 := by
    rw [advance_redis hcall hsent]
    simp only [Function.update_self, hcreated, if_true]
  have hsent₁ : env.lost (cfg.advance (redis env) i).shared.sent = false := by
    rw [advance_redis hcall hsent]
    exact hsent'
  have hnot : ¬ (requests i).limit < ((1 : ℕ) : ℤ) := by omega
  have hsecond : ((cfg.advance (redis env) i).advance (redis env) i).threads i =
      ⟨.pure ⟨true, 0⟩, ()⟩ := by
    rw [advance_redis hfirst hsent₁]
    simp only [Function.update_self, RedisRateLimiter.decision, if_neg hnot]
    rfl
  show (((cfg.advance (redis env) i).advance (redis env) i).threads i).result = _
  rw [hsecond]
  rfl

/-- No check is abandoned in a run that loses no command that sets an expiry. -/
theorem limiting_of_reach_noLostExpire (hW : 0 < W)
    (hwindow : ∀ i, (requests i).redisKey = key → (requests i).windowSeconds = W)
    (hreach : Reach (redis env) (NoLostExpire env) (startChecks requests) cfg) :
    ∃ φ, (Limiting env requests key W φ cfg.shared cfg.trace ∧ ∀ i, φ i ≠ .abandoned) ∧
      ∀ i, Sim (redis env) (checks env requests) i (cfg.threads i).prog
        (cfg.threads i).loc (φ i) := by
  refine hreach.abstract (A := checks env requests)
    (fun φ w tr => Limiting env requests key W φ w tr ∧ ∀ i, φ i ≠ .abandoned)
    (fun i => sim_check) ⟨limiting_start, by simp⟩ (fun φ w tr h i => h.1.positive) ?_
  rintro φ w tr i o ans w' φ' ⟨h, hnot⟩ hguard hact
  refine ⟨h.step hW hwindow hact, fun j => ?_⟩
  by_cases hji : j = i
  · subst hji
    rw [Function.update_self]
    exact hact.not_abandoned hguard (hnot j)
  · rw [Function.update_of_ne hji]
    exact hnot j

/-- **Nobody is locked out** in a run that loses no command that sets an expiry. -/
theorem noLockout_of_reach (hW : 1 ≤ W)
    (hwindow : ∀ i, (requests i).redisKey = key → (requests i).windowSeconds = W)
    (hreach : Reach (redis env) (NoLostExpire env) (startChecks requests) cfg)
    (hidle : ∀ i, ¬ InProgress cfg i) {now : ℤ} (hnow : ∀ n < cfg.shared.sent, env.clock n ≤ now) :
    NoLockout env requests key W cfg now := by
  obtain ⟨φ, ⟨h, hnot⟩, hsim⟩ := limiting_of_reach_noLostExpire hW hwindow hreach
  have hexpires : ∀ c, cfg.shared.keys key = some c →
      ∃ d, c.expireAt = some d ∧ d ≤ now + 1000 * W := by
    intro c hc
    rcases hd : c.expireAt with _ | d
    · -- a check would be about to set the expiry
      obtain ⟨i, hi, hkey⟩ := h.owner c hc hd
      have hcreated : φ i = .created := hi.resolve_right (hnot i)
      exact absurd (h.inProgress (hsim i) hkey hcreated) (hidle i)
    · obtain ⟨n, hn, hdn⟩ := h.bound c d hc hd
      have := hnow n hn
      exact ⟨d, rfl, by omega⟩
  have hgone : ∀ t, now + 1000 * W < t → cfg.shared.keys.get t key = none := by
    intro t ht
    rcases hget : cfg.shared.keys.get t key with _ | c
    · rfl
    · obtain ⟨hc, hlive⟩ := Option.filter_eq_some_iff.mp hget
      obtain ⟨d, hd, hle⟩ := hexpires c hc
      rw [hd] at hlive
      have hlt : t ≤ d := of_decide_eq_true hlive
      omega
  constructor
  case expires =>
    intro c hget
    exact hexpires c (Option.filter_eq_some_iff.mp hget).1
  case gone => exact hgone
  case admitted =>
    intro i hi hkey hlimit hwait hsent hsent'
    exact admitted_of_get hi hlimit (by rw [hkey]; exact hgone _ hwait) hsent hsent'

/-- A minute after a check has ended the next one is admitted. -/
theorem noLockout_twoChecks :
    let cfg := (startChecks twoChecks).schedule (redis (everyMillisecond fun _ => false))
      [false, false]
    (∀ i, ¬ InProgress cfg i) ∧ NoLockout (everyMillisecond fun _ => false) twoChecks
      (twoChecks false).redisKey 60 cfg 1 := by
  have hidle : ∀ i, ¬ InProgress ((startChecks twoChecks).schedule
      (redis (everyMillisecond fun _ => false)) [false, false]) i := by
    intro i
    cases i with
    | false => exact fun h => absurd h.1 (by decide +kernel)
    | true => exact fun h => absurd h.2 (by decide +kernel)
  refine ⟨hidle, noLockout_of_reach (by decide) (fun _ _ => rfl)
    (reach_schedule _ .refl (by decide +kernel)) hidle fun n hn => ?_⟩
  have hn' : n < 2 := hn
  show (n : ℤ) ≤ 1
  omega

/-- The first check stops before it has set the expiry, the second comes a day later. -/
def stopsAfterIncr : RedisEnv where
  clock n := if n < 2 then 0 else 86400000
  clock_mono := by
    intro m n hmn
    show (if m < 2 then (0 : ℤ) else 86400000) ≤ if n < 2 then 0 else 86400000
    split_ifs <;> omega
  lost n := n = 1

/-- **A check that stops before it has set the expiry locks its client out**: the
counter never expires, and a check is refused a day later. -/
theorem locked_out :
    let cfg := (startChecks twoChecks).schedule (redis stopsAfterIncr) [false, false]
    Reach (redis stopsAfterIncr) anyCall (startChecks twoChecks) cfg ∧
      (∀ i, ¬ InProgress cfg i) ∧
      (∀ now, ∃ c, cfg.shared.keys.get now (twoChecks false).redisKey = some c ∧
        c.expireAt = none) ∧
      ((cfg.schedule (redis stopsAfterIncr) [true, true]).threads true).result =
        some (.ok ⟨false, 1⟩) := by
  refine ⟨reach_schedule _ .refl (by decide +kernel), fun i => ?_, fun now => ?_,
    by decide +kernel⟩
  · cases i with
    | false => exact fun h => absurd h.1 (by decide +kernel)
    | true => exact fun h => absurd h.2 (by decide +kernel)
  · exact ⟨⟨1, none⟩, get_of_no_expiry (by decide +kernel) rfl, rfl⟩

end lockout

end FastapiStarter
