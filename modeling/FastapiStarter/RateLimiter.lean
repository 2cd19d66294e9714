import FastapiStarter.PyStr
import FastapiStarter.Lib.FixedWindow
import FastapiStarter.Lib.Pool
import Mathlib.Data.Int.ConditionallyCompleteOrder
import Mathlib.Order.ConditionallyCompleteLattice.Basic

/-!
# The rate limiter

A check counts the request in Redis, sets the expiry of the counter when it has
created it, and asks for the time that is left when it has to refuse.  The three
commands are sent one by one, so checks interleave, and a check can stop between
two of them.

Redis answers each command at once.  The times of the commands are a parameter,
and so is which of them are never sent, because the caller has stopped.

## Main definitions

* `Counter`, `Keyspace`, `Redis` — the keys and the commands.
* `RedisRateLimiter.check` — the check.
* `RedisEnv`, `redis`, `startChecks` — checks side by side.
* `CheckState`, `CheckAct` — a check, seen from the others.
* `hits` — how often a key was counted, and when.
* `Limiting` — the invariant of one key.

## Main results

* `sim_check` — the check follows its protocol.
* `Limiting.step` — **every command keeps the invariant**.
* `limiting_of_reach` — it holds throughout every run.
-/

namespace FastapiStarter

open Interaction FixedWindow

/-! ### Redis -/

/-- The counter under a key, with the time it expires, in milliseconds. -/
structure Counter where
  count : ℕ
  expireAt : Option ℤ
  deriving DecidableEq

/-- The keys of the database. -/
abbrev Keyspace := Str → Option Counter

namespace Keyspace

/-- The counter under a key; it is deleted when its expiry has passed. -/
def get (keys : Keyspace) (time : ℤ) (key : Str) : Option Counter :=
  (keys key).filter fun c => c.expireAt.all (time ≤ ·)

/-- `INCR key`. -/
def incr (keys : Keyspace) (time : ℤ) (key : Str) : ℕ × Keyspace :=
  match keys.get time key with
  | none => (1, Function.update keys key (some ⟨1, none⟩))
  | some c => (c.count + 1, Function.update keys key (some ⟨c.count + 1, c.expireAt⟩))

/-- `EXPIRE key seconds`; an expiry in the past deletes the key. -/
def expire (keys : Keyspace) (time : ℤ) (key : Str) (seconds : ℤ) : Bool × Keyspace :=
  match keys.get time key with
  | none => (false, keys)
  | some c =>
    (true, Function.update keys key
      (if 0 < seconds then some ⟨c.count, some (time + 1000 * seconds)⟩ else none))

/-- `TTL key`, in seconds; -2 without the key, -1 without an expiry. -/
def ttl (keys : Keyspace) (time : ℤ) (key : Str) : ℤ :=
  match keys.get time key with
  | none => -2
  | some c => c.expireAt.elim (-1) fun t => (t - time + 500) / 1000

end Keyspace

/-- The commands of Redis that the limiter sends. -/
inductive Redis
  | incr (key : Str)
  | expire (key : Str) (seconds : ℤ)
  | ttl (key : Str)
  deriving DecidableEq

/-- The answers. -/
@[reducible] def Redis.Ret : Redis → Type
  | .incr _ => ℕ
  | .expire _ _ => Bool
  | .ttl _ => ℤ

/-- The command sets an expiry. -/
def Redis.isExpire : Redis → Bool
  | .expire _ _ => true
  | _ => false

/-! ### The check -/

/-- `RateLimitDecision`. -/
structure RateLimitDecision where
  allowed : Bool
  retryAfterSeconds : ℤ
  deriving DecidableEq

/-- How a check ends that stops between two commands. -/
inductive Stopped
  | stopped
  deriving DecidableEq

/-- The arguments of a check. -/
structure CheckRequest where
  key : Str
  limit : ℤ
  windowSeconds : ℤ

/-- `redis_key`. -/
def CheckRequest.redisKey (r : CheckRequest) : Str :=
  lit ['r', 'a', 't', 'e', 'l', 'i', 'm', 'i', 't', ':'] ++ r.key

/-- The decision, once the request is counted. -/
def RedisRateLimiter.decision (r : CheckRequest) (count : ℕ) :
    Prog Redis Redis.Ret Stopped RateLimitDecision :=
  if r.limit < count then do
    let ttl ← Prog.op (.ttl r.redisKey)
    return ⟨false, max ttl 1⟩
  else return ⟨true, 0⟩

/-- `RedisRateLimiter.check(key, limit, window_seconds)`. -/
def RedisRateLimiter.check (r : CheckRequest) :
    Prog Redis Redis.Ret Stopped RateLimitDecision := do
  let count ← Prog.op (.incr r.redisKey)
  if count = 1 then
    let _ ← Prog.op (.expire r.redisKey r.windowSeconds)
    RedisRateLimiter.decision r count
  else RedisRateLimiter.decision r count

/-! ### Checks side by side -/

/-- What checks are run with. -/
structure RedisEnv where
  /-- The time of each command, in the order in which they are sent. -/
  clock : ℕ → ℤ
  /-- Time does not run backwards. -/
  clock_mono : Monotone clock
  /-- The commands that are not sent, because the check has stopped. -/
  lost : ℕ → Bool

/-- What checks share: the keys, and how many commands have been sent. -/
structure RedisWorld where
  keys : Keyspace
  sent : ℕ

section system

variable {ι : Type}

/-- The answer to a command at a time. -/
def Redis.exec (time : ℤ) (keys : Keyspace) : (o : Redis) → o.Ret × Keyspace
  | .incr key => keys.incr time key
  | .expire key seconds => keys.expire time key seconds
  | .ttl key => (keys.ttl time key, keys)

/-- Checks side by side; a command that is not sent ends its check. -/
def redis (env : RedisEnv) : System ι Redis Redis.Ret Stopped Unit RedisWorld where
  exec _ o x :=
    if env.lost x.2.sent then (.error .stopped, (), ⟨x.2.keys, x.2.sent + 1⟩)
    else
      let (answer, keys) := o.exec (env.clock x.2.sent) x.2.keys
      (.ok answer, (), ⟨keys, x.2.sent + 1⟩)
  enabled _ _ _ := True

instance (env : RedisEnv) (i : ι) (o : Redis) (x : Unit × RedisWorld) :
    Decidable ((redis env).enabled i o x) := inferInstanceAs (Decidable True)

/-- The events of checks. -/
abbrev RedisTrace (ι : Type) := List (Event ι Redis Redis.Ret Stopped)

/-- Checks side by side. -/
abbrev Checks (ι : Type) := Config ι Redis Redis.Ret Stopped RateLimitDecision Unit RedisWorld

/-- Checks that have not begun, over an empty database. -/
def startChecks (requests : ι → CheckRequest) : Checks ι where
  threads i := ⟨RedisRateLimiter.check (requests i), ()⟩
  shared := ⟨fun _ => none, 0⟩
  trace := []

/-- How often a key was counted, and when, newest first. -/
def hits (env : RedisEnv) (key : Str) : RedisTrace ι → List (Hit ι)
  | [] => []
  | ⟨i, .incr key', .ok count⟩ :: tr =>
    if key' = key then ⟨i, env.clock tr.length, count⟩ :: hits env key tr else hits env key tr
  | _ :: tr => hits env key tr

/-- No command is lost that sets an expiry. -/
def NoLostExpire (env : RedisEnv) : Guard ι Redis Redis.Ret Stopped RedisWorld :=
  fun _ w _ o => o.isExpire = true → env.lost w.sent = false

instance (env : RedisEnv) (tr : RedisTrace ι) (w : RedisWorld) (i : ι) (o : Redis) :
    Decidable (NoLostExpire env tr w i o) := inferInstanceAs (Decidable (_ → _))

end system

/-! ### The protocol of a check -/

/-- How far a check has come. -/
inductive CheckState
  | begun
  /-- The request was counted first, and the expiry is next. -/
  | created
  /-- The request was counted. -/
  | counted (count : ℕ)
  /-- The check has stopped before it has set the expiry. -/
  | abandoned
  | stopped
  deriving DecidableEq

/-- What becomes of a check that stops. -/
def CheckState.stop : CheckState → CheckState
  | created | abandoned => abandoned
  | _ => stopped

/-- The outcomes with which a check may end: a request is admitted up to the limit. -/
def CheckState.Outcome (r : CheckRequest) : CheckState → Except Stopped RateLimitDecision → Prop
  | counted count, .ok d => d.allowed = true ↔ (count : ℤ) ≤ r.limit
  | stopped, .error _ | abandoned, .error _ => True
  | _, _ => False

/-- **What a command of a check may do** to its state and to the keys. -/
inductive CheckAct (env : RedisEnv) (r : CheckRequest) :
    CheckState → RedisWorld → (o : Redis) → Except Stopped o.Ret → RedisWorld → CheckState → Prop
  /-- The key is new. -/
  | create {w : RedisWorld} : w.keys.get (env.clock w.sent) r.redisKey = none →
    CheckAct env r .begun w (.incr r.redisKey) (.ok (1 : ℕ))
      ⟨Function.update w.keys r.redisKey (some ⟨1, none⟩), w.sent + 1⟩ .created
  | count {w : RedisWorld} {c : Counter} : w.keys.get (env.clock w.sent) r.redisKey = some c →
    CheckAct env r .begun w (.incr r.redisKey) (.ok (c.count + 1 : ℕ))
      ⟨Function.update w.keys r.redisKey (some ⟨c.count + 1, c.expireAt⟩), w.sent + 1⟩
      (.counted (c.count + 1))
  | expire {w : RedisWorld} {b : Bool} : CheckAct env r .created w
      (.expire r.redisKey r.windowSeconds) (.ok b)
      ⟨(w.keys.expire (env.clock w.sent) r.redisKey r.windowSeconds).2, w.sent + 1⟩ (.counted 1)
  | ttl {w : RedisWorld} {count : ℕ} {t : ℤ} : CheckAct env r (.counted count) w
      (.ttl r.redisKey) (.ok t) ⟨w.keys, w.sent + 1⟩ (.counted count)
  | stop {φ : CheckState} {w : RedisWorld} {o : Redis} {e : Stopped} : env.lost w.sent = true →
    (φ = .created → o.isExpire = true) →
    CheckAct env r φ w o (.error e) ⟨w.keys, w.sent + 1⟩ φ.stop

section protocol

variable {ι : Type}

/-- The protocol of checks; counters are positive. -/
@[reducible] def checks (env : RedisEnv) (requests : ι → CheckRequest) :
    Abstraction ι Redis Redis.Ret Stopped RateLimitDecision RedisWorld where
  Phase := CheckState
  Rely _ _ w := ∀ key c, w.keys key = some c → 0 < c.count
  Act i := CheckAct env (requests i)
  Final i := CheckState.Outcome (requests i)

variable {env : RedisEnv} {requests : ι → CheckRequest} {i : ι}

/-- A command that is lost stops the check, one that is sent is answered. -/
theorem redis_exec (o : Redis) (w : RedisWorld) :
    (redis env).exec i o ((), w) =
      if env.lost w.sent then (.error .stopped, (), ⟨w.keys, w.sent + 1⟩)
      else (.ok (o.exec (env.clock w.sent) w.keys).1, (),
        ⟨(o.exec (env.clock w.sent) w.keys).2, w.sent + 1⟩) := rfl

/-- A check that sends a command in a state in which it may stop there. -/
theorem sim_command_redis {φ : CheckState} {o : Redis}
    {k : o.Ret → Prog Redis Redis.Ret Stopped RateLimitDecision}
    (hstop : φ = .created → o.isExpire = true)
    (h : ∀ w : RedisWorld, (∀ key c, w.keys key = some c → 0 < c.count) →
      ∃ φ', CheckAct env (requests i) φ w o (.ok (o.exec (env.clock w.sent) w.keys).1)
        ⟨(o.exec (env.clock w.sent) w.keys).2, w.sent + 1⟩ φ' ∧
        Sim (redis env) (checks env requests) i (k (o.exec (env.clock w.sent) w.keys).1) () φ') :
    Sim (redis env) (checks env requests) i (.call o k) () φ := by
  refine Sim.call fun w hpos => ?_
  rw [redis_exec]
  by_cases hlost : env.lost w.sent = true
  · rw [if_pos hlost]
    refine ⟨φ.stop, .stop hlost hstop, ?_⟩
    cases φ <;> trivial
  · rw [if_neg hlost]
    exact h w hpos

/-- The end of a check. -/
theorem sim_decision (count : ℕ) :
    Sim (redis env) (checks env requests) i (RedisRateLimiter.decision (requests i) count) ()
      (.counted count) := by
  unfold RedisRateLimiter.decision
  by_cases hlimit : (requests i).limit < count
  · rw [if_pos hlimit]
    refine sim_command_redis (by simp) fun w _ => ⟨_, .ttl, ?_⟩
    show (false = true ↔ _)
    simpa using hlimit
  · rw [if_neg hlimit]
    show (true = true ↔ _)
    simpa using hlimit

/-- **The check follows the protocol.** -/
theorem sim_check :
    Sim (redis env) (checks env requests) i (RedisRateLimiter.check (requests i)) () .begun := by
  refine sim_command_redis (by simp) fun w hpos => ?_
  simp only [Redis.exec, Keyspace.incr]
  rcases hget : w.keys.get (env.clock w.sent) (requests i).redisKey with _ | c
  · -- the request is the first, and sets the expiry
    refine ⟨.created, .create hget, ?_⟩
    exact sim_command_redis (fun _ => rfl) fun w' _ => ⟨_, .expire, sim_decision 1⟩
  · refine ⟨.counted (c.count + 1), .count hget, ?_⟩
    have hc : 0 < c.count := by
      obtain ⟨hkey, -⟩ := Option.filter_eq_some_iff.mp hget
      exact hpos _ c hkey
    have hne : ¬ c.count + 1 = 1 := by omega
    show Sim (redis env) (checks env requests) i (if c.count + 1 = 1 then _ else
      RedisRateLimiter.decision (requests i) (c.count + 1)) () (.counted (c.count + 1))
    rw [if_neg hne]
    exact sim_decision (c.count + 1)

end protocol

/-! ### What every command keeps -/

/-- The counter under a key and the hits of the key agree: the counter is the answer
to the newest hit, and expires at least `W` after its lifetime began. -/
def Tracks {ι : Type} (W : ℤ) : Option Counter → List (Hit ι) → Prop
  | none, hs => hs = []
  | some c, hs => ∃ h hs', hs = h :: hs' ∧ h.count = c.count ∧ Counted W hs ∧
    ∀ d, c.expireAt = some d → FixedWindow.start hs + W ≤ d

/-- What holds of one check of a key. -/
structure CheckState.Holds {ι : Type} (env : RedisEnv) (key : Str) (w : RedisWorld)
    (tr : RedisTrace ι) (i : ι) (φ : CheckState) : Prop where
  /-- The counter of a check that is about to set the expiry has none, so it stays. -/
  created : φ = .created → (∃ c, w.keys key = some c ∧ c.expireAt = none) ∧
    ∃ h ∈ hits env key tr, h.who = i ∧ h.count = 1
  counted : ∀ n, φ = .counted n → ∃ h ∈ hits env key tr, h.who = i ∧ h.count = n

/-- What holds of a key and of its checks, with windows of `W` seconds. -/
structure Limiting {ι : Type} (env : RedisEnv) (requests : ι → CheckRequest) (key : Str) (W : ℤ)
    (φ : ι → CheckState) (w : RedisWorld) (tr : RedisTrace ι) : Prop where
  sent : w.sent = tr.length
  positive : ∀ key c, w.keys key = some c → 0 < c.count
  /-- A check that has not begun has sent nothing. -/
  begun : ∀ i, φ i = .begun → ∀ ev ∈ tr, ev.who ≠ i
  each : ∀ i, (requests i).redisKey = key → (φ i).Holds env key w tr i
  /-- A counter without an expiry is about to get one, or never will. -/
  owner : ∀ c, w.keys key = some c → c.expireAt = none →
    ∃ i, (φ i = .created ∨ φ i = .abandoned) ∧ (requests i).redisKey = key
  alone : ∀ i j, φ i = .created → φ j = .created → (requests i).redisKey = key →
    (requests j).redisKey = key → i = j
  /-- The expiry lies no more than a window ahead of the commands sent. -/
  bound : ∀ c d, w.keys key = some c → c.expireAt = some d →
    ∃ n < w.sent, d = env.clock n + 1000 * W
  tracks : Tracks (1000 * W) (w.keys key) (hits env key tr)
  times : ∀ h ∈ hits env key tr, ∃ n < w.sent, h.time = env.clock n
  /-- Nobody hits a key twice. -/
  once : ((hits env key tr).map (·.who)).Nodup

section step

variable {ι : Type} {env : RedisEnv} {requests : ι → CheckRequest} {key : Str} {W : ℤ}
  {φ : ι → CheckState} {w w' : RedisWorld} {tr : RedisTrace ι} {i : ι} {o : Redis}
  {ans : Except Stopped o.Ret} {φ' : CheckState}

/-- Only an answer to `INCR` is a hit. -/
theorem hits_cons_of_not (h : ∀ n : ℕ, (⟨i, o, ans⟩ : Event ι Redis Redis.Ret Stopped) ≠
    ⟨i, .incr key, .ok n⟩) : hits env key (⟨i, o, ans⟩ :: tr) = hits env key tr := by
  rcases o with key' | _ | _
  · rcases ans with e | n
    · rfl
    · show (if key' = key then _ else _) = _
      rw [if_neg]
      rintro rfl
      exact h n rfl
  · rfl
  · rfl

theorem hits_incr (n : ℕ) : hits env key (⟨i, .incr key, .ok n⟩ :: tr) =
    ⟨i, env.clock tr.length, n⟩ :: hits env key tr := if_pos rfl

/-- A command hits the key or leaves its hits as they are. -/
@[simp] theorem hits_cons (ev : Event ι Redis Redis.Ret Stopped) :
    hits env key (ev :: tr) = hits env key tr ∨
      ∃ n : ℕ, hits env key (ev :: tr) = ⟨ev.who, env.clock tr.length, n⟩ :: hits env key tr := by
  obtain ⟨i, o, ans⟩ := ev
  by_cases hincr : ∃ n : ℕ, (⟨i, o, ans⟩ : Event ι Redis Redis.Ret Stopped) =
      ⟨i, .incr key, .ok n⟩
  · obtain ⟨n, heq⟩ := hincr
    rw [heq]
    exact .inr ⟨n, hits_incr n⟩
  · exact .inl (hits_cons_of_not fun n heq => hincr ⟨n, heq⟩)

theorem mem_hits_cons {h : Hit ι} (ev : Event ι Redis Redis.Ret Stopped)
    (hh : h ∈ hits env key tr) : h ∈ hits env key (ev :: tr) := by
  rcases @hits_cons _ env key tr ev with heq | ⟨n, heq⟩
  · rw [heq]
    exact hh
  · rw [heq]
    exact List.mem_cons_of_mem _ hh

/-- Who has hit a key has sent a command. -/
theorem who_of_mem_hits {h : Hit ι} (hh : h ∈ hits env key tr) : ∃ ev ∈ tr, ev.who = h.who := by
  induction tr with
  | nil => cases hh
  | cons ev tr ih =>
    have hold : h ∈ hits env key tr → ∃ ev' ∈ ev :: tr, ev'.who = h.who := by
      intro hh
      obtain ⟨ev', hev, hwho⟩ := ih hh
      exact ⟨ev', List.mem_cons_of_mem _ hev, hwho⟩
    rcases @hits_cons _ env key tr ev with heq | ⟨n, heq⟩
    · rw [heq] at hh
      exact hold hh
    · rw [heq] at hh
      rcases List.mem_cons.mp hh with rfl | hh
      · exact ⟨ev, List.mem_cons_self, rfl⟩
      · exact hold hh

/-! ### Commands on other keys -/

theorem CheckAct.sent {r : CheckRequest} {ψ : CheckState} (h : CheckAct env r ψ w o ans w' φ') :
    w'.sent = w.sent + 1 := by
  cases h <;> rfl

theorem CheckAct.sent_lt {r : CheckRequest} {ψ : CheckState}
    (h : CheckAct env r ψ w o ans w' φ') : w.sent < w'.sent := by
  rw [h.sent]
  exact Nat.lt_succ_self _

/-- A check has begun with its first command. -/
theorem CheckAct.not_begun {r : CheckRequest} {ψ : CheckState}
    (h : CheckAct env r ψ w o ans w' φ') : φ' ≠ .begun := by
  cases h with
  | stop => cases ψ <;> simp [CheckState.stop]
  | _ => simp

/-- Counters stay positive. -/
theorem CheckAct.positive {r : CheckRequest} {ψ : CheckState} (h : CheckAct env r ψ w o ans w' φ')
    (hpos : ∀ key c, w.keys key = some c → 0 < c.count) :
    ∀ key c, w'.keys key = some c → 0 < c.count := by
  -- every write goes to the key of the check
  have hupdate : ∀ (new : Option Counter), (∀ c, new = some c → 0 < c.count) →
      ∀ key c, Function.update w.keys r.redisKey new key = some c → 0 < c.count := by
    intro new hnew key c hc
    by_cases hkey : key = r.redisKey
    · rw [hkey, Function.update_self] at hc
      exact hnew c hc
    · rw [Function.update_of_ne hkey] at hc
      exact hpos key c hc
  cases h with
  | create =>
    apply hupdate
    intro c hc
    cases hc
    exact Nat.one_pos
  | count =>
    apply hupdate
    intro c hc
    cases hc
    exact Nat.succ_pos _
  | expire =>
    show ∀ key c, (w.keys.expire _ r.redisKey _).2 key = some c → 0 < c.count
    unfold Keyspace.expire
    split
    · exact hpos
    · next c hget =>
      obtain ⟨hold, -⟩ := Option.filter_eq_some_iff.mp hget
      apply hupdate
      intro c' hc'
      split at hc'
      · cases hc'
        exact hpos _ c hold
      · cases hc'
  | ttl => exact hpos
  | stop => exact hpos

/-- A check touches the counter of its own key only. -/
theorem CheckAct.keys_of_ne {r : CheckRequest} {ψ : CheckState}
    (h : CheckAct env r ψ w o ans w' φ') (hne : r.redisKey ≠ key) : w'.keys key = w.keys key := by
  cases h with
  | create => exact Function.update_of_ne hne.symm _ _
  | count => exact Function.update_of_ne hne.symm _ _
  | expire =>
    show (w.keys.expire _ r.redisKey _).2 key = w.keys key
    unfold Keyspace.expire
    split
    · rfl
    · exact Function.update_of_ne hne.symm _ _
  | ttl => rfl
  | stop => rfl

/-- And hits no other key. -/
theorem CheckAct.hits_of_ne {r : CheckRequest} {ψ : CheckState}
    (h : CheckAct env r ψ w o ans w' φ') (hne : r.redisKey ≠ key) :
    hits env key (⟨i, o, ans⟩ :: tr) = hits env key tr := by
  apply hits_cons_of_not
  intro n heq
  injection heq with _ ho hans
  cases h with
  | create => exact hne (Redis.incr.inj ho)
  | count => exact hne (Redis.incr.inj ho)
  | expire => cases ho
  | ttl => cases ho
  | stop =>
    subst ho
    cases hans

/-! ### Commands on the key -/

variable [DecidableEq ι]

omit [DecidableEq ι] in
/-- A check keeps what holds of it while its counter stays. -/
theorem CheckState.Holds.other {ψ : CheckState} {j : ι} (h : ψ.Holds env key w tr j)
    (ev : Event ι Redis Redis.Ret Stopped)
    (hkeep : ψ = .created → ∃ c, w'.keys key = some c ∧ c.expireAt = none) :
    ψ.Holds env key w' (ev :: tr) j where
  created hψ := by
    obtain ⟨-, hit, hmem, hwho, hcount⟩ := h.created hψ
    exact ⟨hkeep hψ, hit, mem_hits_cons ev hmem, hwho, hcount⟩
  counted n hψ := by
    obtain ⟨hit, hmem, hwho, hcount⟩ := h.counted n hψ
    exact ⟨hit, mem_hits_cons ev hmem, hwho, hcount⟩

/-- After a command of `i` the checks that have not begun are among those before. -/
theorem Limiting.begun_step (h : Limiting env requests key W φ w tr) (hφ' : φ' ≠ .begun) :
    ∀ j, Function.update φ i φ' j = .begun → ∀ ev ∈ (⟨i, o, ans⟩ :: tr : RedisTrace ι),
      ev.who ≠ j := by
  intro j hj ev hev
  by_cases hji : j = i
  · rw [hji, Function.update_self] at hj
    exact absurd hj hφ'
  · rw [Function.update_of_ne hji] at hj
    rcases List.mem_cons.mp hev with rfl | hev
    · exact fun heq => hji heq.symm
    · exact h.begun j hj ev hev

/-- A command that leaves the counter and its hits as they are. -/
theorem Limiting.frame (h : Limiting env requests key W φ w tr)
    (hact : CheckAct env (requests i) (φ i) w o ans w' φ') (hkeys : w'.keys key = w.keys key)
    (hhits : hits env key (⟨i, o, ans⟩ :: tr) = hits env key tr)
    (hφ' : (requests i).redisKey = key → φ' = φ i ∨ φ' = (φ i).stop) :
    Limiting env requests key W (Function.update φ i φ') w' (⟨i, o, ans⟩ :: tr) := by
  have hlt := hact.sent_lt
  -- a check of the key stays as it is or stops
  have hold : ∀ j, (requests j).redisKey = key →
      Function.update φ i φ' j = φ j ∨ Function.update φ i φ' j = (φ j).stop := by
    intro j hj
    by_cases hji : j = i
    · subst hji
      rw [Function.update_self]
      exact hφ' hj
    · exact .inl (Function.update_of_ne hji _ _)
  have hcreated : ∀ j, (requests j).redisKey = key → Function.update φ i φ' j = .created →
      φ j = .created := by
    intro j hkey hj
    rcases hold j hkey with hψ | hψ
    · rw [← hψ, hj]
    · rw [hψ] at hj
      rcases hφj : φ j <;> rw [hφj] at hj <;> cases hj
  constructor
  case sent => rw [hact.sent, List.length_cons, ← h.sent]
  case positive => exact hact.positive h.positive
  case begun => exact h.begun_step hact.not_begun
  case each =>
    intro j hkey
    have hj : (φ j).Holds env key w' (⟨i, o, ans⟩ :: tr) j :=
      (h.each j hkey).other _ fun hψ => by
        rw [hkeys]
        exact ((h.each j hkey).created hψ).1
    rcases hold j hkey with hψ | hψ
    · rw [hψ]
      exact hj
    · rw [hψ]
      exact ⟨by cases φ j <;> simp [CheckState.stop], by cases φ j <;> simp [CheckState.stop]⟩
  case owner =>
    intro c hc hnone
    rw [hkeys] at hc
    obtain ⟨j, hj, hkey⟩ := h.owner c hc hnone
    refine ⟨j, ?_, hkey⟩
    rcases hold j hkey with hψ | hψ
    · rwa [hψ]
    · rw [hψ]
      rcases hj with hj | hj <;> rw [hj] <;> exact .inr rfl
  case alone =>
    intro j k hj hk hkeyj hkeyk
    exact h.alone j k (hcreated j hkeyj hj) (hcreated k hkeyk hk) hkeyj hkeyk
  case bound =>
    intro c d hc hd
    rw [hkeys] at hc
    obtain ⟨n, hn, hdn⟩ := h.bound c d hc hd
    exact ⟨n, hn.trans hlt, hdn⟩
  case tracks =>
    rw [hkeys, hhits]
    exact h.tracks
  case times =>
    intro hit hmem
    rw [hhits] at hmem
    obtain ⟨n, hn, htime⟩ := h.times hit hmem
    exact ⟨n, hn.trans hlt, htime⟩
  case once =>
    rw [hhits]
    exact h.once

/-- A command that counts a hit of the key. -/
theorem Limiting.hit (h : Limiting env requests key W φ w tr) {c : Counter}
    (hact : CheckAct env (requests i) (φ i) w (.incr key) (.ok c.count) w' φ')
    (hkeys : w'.keys key = some c) (hkey : (requests i).redisKey = key) (hbegun : φ i = .begun)
    (htracks : Tracks (1000 * W) (some c) (⟨i, env.clock w.sent, c.count⟩ :: hits env key tr))
    (hφ' : φ' = .created ∧ c = ⟨1, none⟩ ∧
        (∀ j, φ j = .created → (requests j).redisKey ≠ key) ∨
      φ' = .counted c.count ∧ ∃ n, w.keys key = some ⟨n, c.expireAt⟩) :
    Limiting env requests key W (Function.update φ i φ') w'
      (⟨i, .incr key, .ok (c.count : ℕ)⟩ :: tr) := by
  have hlt := hact.sent_lt
  have hhits : hits env key (⟨i, .incr key, .ok (c.count : ℕ)⟩ :: tr) =
      ⟨i, env.clock w.sent, c.count⟩ :: hits env key tr := by
    rw [hits_incr, h.sent]
  have hnew : (⟨i, env.clock w.sent, c.count⟩ : Hit ι) ∈
      hits env key (⟨i, .incr key, .ok (c.count : ℕ)⟩ :: tr) := by
    rw [hhits]
    exact List.mem_cons_self
  -- another check that is about to set the expiry of the key keeps its counter
  have hkeep : ∀ j, φ j = .created → (requests j).redisKey = key →
      φ' = .counted c.count ∧ c.expireAt = none := by
    intro j hj hkeyj
    rcases hφ' with ⟨-, -, hnone⟩ | ⟨hcounted, n, hold⟩
    · exact absurd hkeyj (hnone j hj)
    · obtain ⟨⟨c', hc', hnone⟩, -⟩ := (h.each j hkeyj).created hj
      rw [hold] at hc'
      refine ⟨hcounted, ?_⟩
      rw [← hnone, ← Option.some.inj hc']
  have hcreated : ∀ j, Function.update φ i φ' j = .created →
      j = i ∧ φ' = .created ∨ j ≠ i ∧ φ j = .created := by
    intro j hj
    by_cases hji : j = i
    · rw [hji, Function.update_self] at hj
      exact .inl ⟨hji, hj⟩
    · rw [Function.update_of_ne hji] at hj
      exact .inr ⟨hji, hj⟩
  constructor
  case sent => rw [hact.sent, List.length_cons, ← h.sent]
  case positive => exact hact.positive h.positive
  case begun => exact h.begun_step hact.not_begun
  case each =>
    intro j hkeyj
    by_cases hji : j = i
    · subst hji
      rw [Function.update_self]
      rcases hφ' with ⟨rfl, rfl, -⟩ | ⟨rfl, -⟩
      · exact ⟨fun _ => ⟨⟨_, hkeys, rfl⟩, _, hnew, rfl, rfl⟩, by simp⟩
      · refine ⟨by simp, fun n hn => ?_⟩
        cases hn
        exact ⟨_, hnew, rfl, rfl⟩
    · rw [Function.update_of_ne hji]
      exact (h.each j hkeyj).other _ fun hψ => ⟨c, hkeys, (hkeep j hψ hkeyj).2⟩
  case owner =>
    intro c' hc' hnone
    obtain rfl := Option.some.inj (hkeys.symm.trans hc')
    rcases hφ' with ⟨rfl, -, -⟩ | ⟨rfl, n, hold⟩
    · exact ⟨i, .inl (Function.update_self _ _ _), hkey⟩
    · obtain ⟨j, hj, hkeyj⟩ := h.owner _ hold hnone
      have hji : j ≠ i := by
        rintro rfl
        rw [hbegun] at hj
        rcases hj with hj | hj <;> cases hj
      exact ⟨j, by rwa [Function.update_of_ne hji], hkeyj⟩
  case alone =>
    intro j k hj hk hkeyj hkeyk
    rcases hcreated j hj with ⟨hji, hφj⟩ | ⟨-, hold⟩
    · rcases hcreated k hk with ⟨hki, -⟩ | ⟨-, hold'⟩
      · rw [hji, hki]
      · rw [(hkeep k hold' hkeyk).1] at hφj
        cases hφj
    · rcases hcreated k hk with ⟨hki, hφk⟩ | ⟨-, hold'⟩
      · rw [(hkeep j hold hkeyj).1] at hφk
        cases hφk
      · exact h.alone j k hold hold' hkeyj hkeyk
  case bound =>
    intro c' d hc' hd
    obtain rfl := Option.some.inj (hkeys.symm.trans hc')
    rcases hφ' with ⟨-, rfl, -⟩ | ⟨-, n, hold⟩
    · cases hd
    · obtain ⟨m, hm, hdm⟩ := h.bound _ d hold hd
      exact ⟨m, hm.trans hlt, hdm⟩
  case tracks =>
    rw [hkeys, hhits]
    exact htracks
  case times =>
    intro hit hmem
    rw [hhits] at hmem
    rcases List.mem_cons.mp hmem with rfl | hmem
    · exact ⟨w.sent, hlt, rfl⟩
    · obtain ⟨n, hn, htime⟩ := h.times hit hmem
      exact ⟨n, hn.trans hlt, htime⟩
  case once =>
    rw [hhits, List.map_cons, List.nodup_cons]
    refine ⟨fun hmem => ?_, h.once⟩
    obtain ⟨hit, hhit, hwho⟩ := List.mem_map.mp hmem
    obtain ⟨ev, hev, hevwho⟩ := who_of_mem_hits hhit
    exact h.begun i hbegun ev hev (hevwho.trans hwho)

omit [DecidableEq ι] in
/-- The hits of a key came before the command that is sent now. -/
theorem Limiting.time_le (h : Limiting env requests key W φ w tr) {hit : Hit ι}
    (hmem : hit ∈ hits env key tr) : hit.time ≤ env.clock w.sent := by
  obtain ⟨n, hn, htime⟩ := h.times hit hmem
  rw [htime]
  exact env.clock_mono hn.le

/-- **The command that sets the expiry** finds the counter of its check, which has
none, and gives it one that lies a window ahead. -/
theorem Limiting.setExpiry (h : Limiting env requests key W φ w tr) {c : Counter} {b : Bool}
    (hact : CheckAct env (requests i) (φ i) w (.expire key W) (.ok b) w' (.counted 1))
    (hc : w.keys key = some c)
    (hkeys : w'.keys key = some ⟨c.count, some (env.clock w.sent + 1000 * W)⟩)
    (hkey : (requests i).redisKey = key) (hcreated : φ i = .created) :
    Limiting env requests key W (Function.update φ i (.counted 1)) w'
      (⟨i, .expire key W, .ok b⟩ :: tr) := by
  have hlt := hact.sent_lt
  have hhits : hits env key (⟨i, .expire key W, .ok b⟩ :: tr) = hits env key tr :=
    hits_cons_of_not (by simp)
  -- no other check is about to set the expiry
  have hnone : ∀ j, (requests j).redisKey = key →
      Function.update φ i (.counted 1) j ≠ .created := by
    intro j hkeyj hj
    by_cases hji : j = i
    · rw [hji, Function.update_self] at hj
      cases hj
    · rw [Function.update_of_ne hji] at hj
      exact hji (h.alone j i hj hcreated hkeyj hkey)
  constructor
  case sent => rw [hact.sent, List.length_cons, ← h.sent]
  case positive => exact hact.positive h.positive
  case begun => exact h.begun_step hact.not_begun
  case each =>
    intro j hkeyj
    refine ⟨fun hψ => absurd hψ (hnone j hkeyj), fun n hn => ?_⟩
    rw [hhits]
    by_cases hji : j = i
    · subst hji
      rw [Function.update_self] at hn
      cases hn
      exact ((h.each j hkeyj).created hcreated).2
    · rw [Function.update_of_ne hji] at hn
      exact (h.each j hkeyj).counted n hn
  case owner =>
    intro c' hc' hnone
    obtain rfl := Option.some.inj (hkeys.symm.trans hc')
    cases hnone
  case alone =>
    intro j k hj _ hkeyj
    exact absurd hj (hnone j hkeyj)
  case bound =>
    intro c' d hc' hd
    obtain rfl := Option.some.inj (hkeys.symm.trans hc')
    exact ⟨w.sent, hlt, (Option.some.inj hd).symm⟩
  case tracks =>
    have htracks := h.tracks
    rw [hc] at htracks
    obtain ⟨hit, hs, hhs, hcount, hcounted, -⟩ := htracks
    have htime : hit.time ≤ env.clock w.sent := h.time_le (by rw [hhs]; exact List.mem_cons_self)
    rw [hkeys, hhits]
    refine ⟨hit, hs, hhs, hcount, hcounted, fun d hd => ?_⟩
    -- the lifetime began with a hit, which came before
    obtain rfl := Option.some.inj hd
    rw [hhs] at hcounted ⊢
    have hstart := hcounted.time_le.1
    omega
  case times =>
    intro hit hmem
    rw [hhits] at hmem
    obtain ⟨n, hn, htime⟩ := h.times hit hmem
    exact ⟨n, hn.trans hlt, htime⟩
  case once =>
    rw [hhits]
    exact h.once

omit [DecidableEq ι] in
/-- The counter that a command does not find has expired, if there was one. -/
theorem expired_of_get {keys : Keyspace} {time : ℤ} (hget : keys.get time key = none)
    {c : Counter} (hc : keys key = some c) : ∃ d, c.expireAt = some d ∧ d < time := by
  have hlive : c.expireAt.all (time ≤ ·) = false := by
    rw [Keyspace.get, hc, Option.filter_some] at hget
    by_contra hlive
    rw [if_pos (by simpa using hlive)] at hget
    cases hget
  rcases hd : c.expireAt with _ | d
  · rw [hd] at hlive
    cases hlive
  · rw [hd] at hlive
    exact ⟨d, rfl, by simpa using hlive⟩

omit [DecidableEq ι] in
theorem get_of_no_expiry {keys : Keyspace} {time : ℤ} {c : Counter} (hc : keys key = some c)
    (hnone : c.expireAt = none) : keys.get time key = some c := by
  rw [Keyspace.get, hc]
  exact Option.filter_eq_some_iff.mpr ⟨rfl, by rw [hnone]; rfl⟩

omit [DecidableEq ι] in
/-- A hit that creates the counter begins a lifetime. -/
theorem Limiting.tracks_create (h : Limiting env requests key W φ w tr)
    (hget : w.keys.get (env.clock w.sent) key = none) :
    Tracks (1000 * W) (some ⟨1, none⟩) (⟨i, env.clock w.sent, 1⟩ :: hits env key tr) := by
  refine ⟨_, _, rfl, rfl, ?_, by simp⟩
  have htracks := h.tracks
  rcases hc : w.keys key with _ | c
  · rw [hc] at htracks
    rw [show hits env key tr = [] from htracks]
    exact .first rfl
  · rw [hc] at htracks
    obtain ⟨hit, hs, hhs, -, hcounted, hexpires⟩ := htracks
    obtain ⟨d, hd, hle⟩ := expired_of_get hget hc
    have htime : hit.time ≤ env.clock w.sent := h.time_le (by rw [hhs]; exact List.mem_cons_self)
    have hstart := hexpires d hd
    rw [hhs] at hcounted hstart ⊢
    exact .create hcounted rfl htime (hstart.trans hle.le)

omit [DecidableEq ι] in
/-- A hit that finds the counter belongs to its lifetime. -/
theorem Limiting.tracks_count (h : Limiting env requests key W φ w tr) {c : Counter}
    (hc : w.keys key = some c) :
    Tracks (1000 * W) (some ⟨c.count + 1, c.expireAt⟩)
      (⟨i, env.clock w.sent, c.count + 1⟩ :: hits env key tr) := by
  have htracks := h.tracks
  have hpos := h.positive key c hc
  rw [hc] at htracks
  obtain ⟨hit, hs, hhs, hcount, hcounted, hexpires⟩ := htracks
  have htime : hit.time ≤ env.clock w.sent := h.time_le (by rw [hhs]; exact List.mem_cons_self)
  refine ⟨_, _, rfl, rfl, ?_, fun d hd => ?_⟩
  · rw [hhs] at hcounted ⊢
    exact .count hcounted (congrArg (· + 1) hcount.symm) (hcount ▸ hpos) htime
  · have hne : c.count + 1 ≠ 1 := by omega
    rw [start_count hne]
    exact hexpires d hd

/-- **Every command keeps the invariant.** -/
theorem Limiting.step (h : Limiting env requests key W φ w tr) (hW : 0 < W)
    (hwindow : ∀ i, (requests i).redisKey = key → (requests i).windowSeconds = W)
    (hact : CheckAct env (requests i) (φ i) w o ans w' φ') :
    Limiting env requests key W (Function.update φ i φ') w' (⟨i, o, ans⟩ :: tr) := by
  by_cases hkey : (requests i).redisKey = key
  · have hstep := hact
    generalize hψ : φ i = ψ at hstep
    cases hstep with
    | create hget =>
      rw [hkey] at hact hget ⊢
      refine h.hit hact (Function.update_self _ _ _) hkey hψ (h.tracks_create hget)
        (.inl ⟨rfl, rfl, fun j hj hkeyj => ?_⟩)
      -- a check that is about to set the expiry would have kept the counter
      obtain ⟨⟨c, hc, hnone⟩, -⟩ := (h.each j hkeyj).created hj
      rw [get_of_no_expiry hc hnone] at hget
      cases hget
    | @count _ c hget =>
      rw [hkey] at hact hget ⊢
      obtain ⟨hc, -⟩ := Option.filter_eq_some_iff.mp hget
      exact h.hit hact (Function.update_self _ _ _) hkey hψ (h.tracks_count hc) (.inr ⟨rfl, _, hc⟩)
    | expire =>
      rw [hkey, hwindow i hkey] at hact ⊢
      obtain ⟨⟨c, hc, hnone⟩, -⟩ := (h.each i hkey).created hψ
      refine h.setExpiry hact hc ?_ hkey hψ
      simp only [Keyspace.expire, get_of_no_expiry hc hnone, if_pos hW, Function.update_self]
    | ttl => exact h.frame hact rfl (hits_cons_of_not (by simp)) fun _ => .inl hψ.symm
    | stop =>
      refine h.frame hact rfl (hits_cons_of_not fun n heq => ?_) fun _ => .inr (by rw [hψ])
      injection heq with _ ho hans
      subst ho
      cases hans
  · exact h.frame hact (hact.keys_of_ne hkey) (hact.hits_of_ne hkey) fun h => absurd h hkey

end step

section run

variable {ι : Type} [DecidableEq ι] {env : RedisEnv} {requests : ι → CheckRequest} {key : Str}
  {W : ℤ} {guard : Guard ι Redis Redis.Ret Stopped RedisWorld} {cfg : Checks ι}

omit [DecidableEq ι] in
theorem limiting_start : Limiting env requests key W (fun _ => .begun)
    (startChecks requests).shared (startChecks requests).trace := by
  constructor <;> simp [startChecks, hits, Tracks]
  exact fun _ _ => ⟨by simp, by simp⟩

/-- **The invariant holds throughout every run.** -/
theorem limiting_of_reach (hW : 0 < W)
    (hwindow : ∀ i, (requests i).redisKey = key → (requests i).windowSeconds = W)
    (hreach : Reach (redis env) guard (startChecks requests) cfg) :
    ∃ φ, Limiting env requests key W φ cfg.shared cfg.trace ∧
      ∀ i, Sim (redis env) (checks env requests) i (cfg.threads i).prog
        (cfg.threads i).loc (φ i) := by
  exact hreach.abstract (A := checks env requests) (Limiting env requests key W)
    (fun i => sim_check) limiting_start (fun φ w tr h i => h.positive)
    fun φ w tr i o ans w' φ' h _ hact => h.step hW hwindow hact

end run

end FastapiStarter
