import FastapiStarter.Outcomes
import Mathlib.Logic.Relation

/-!
# Runs and their histories

A run executes commands one after the other, mixed with deactivations of users,
and records what happened.  The history says nothing about records and flags: it
lists actions and results, and the laws about tokens and passwords are stated
over it.

## Main definitions

* `Action`, `Entry`, `Run` — what happens in a run, and the runs.
* `HandedOut`, `Rotated`, `Refreshed`, `SameFamily` — the past of a token.
* `Spoiled`, `PasswordChangedSince` — what ends a session.
* `Step` — what one entry of a run does to the refresh tokens.

## Main results

* `Run.settled` — no transaction is open between the steps of a run.
* `Run.invariant` — what survives every step holds throughout a run.
-/

namespace FastapiStarter

open Relational

section history

variable [Unicode]

/-! ### Runs -/

/-- What can happen in a run. -/
inductive Action
  | command (c : Command)
  /-- The user is deactivated. -/
  | deactivate (userId : UUID)

/-- Something that has happened. -/
structure Entry where
  before : World
  action : Action
  result : Except Exc Response
  after : World

/-- The world after a user was deactivated. -/
def World.deactivate (w : World) (userId : UUID) : World :=
  { w with db := ⟨w.db.users.updateWhere (fun m => m.id = userId)
      (fun m => { m with isActive := false }) fun _ => rfl, w.db.refreshTokens⟩ }

/-- The executions of commands one after the other, from an empty database; the
history lists the entries newest first.  `uuid4` does not repeat. -/
inductive Run (env : Env) : List Entry → World → Prop
  | start : Run env [] .initial
  | command {h : List Entry} {w : World} (c : Command) : Run env h w →
    env.NoRepeat (execute env c w).2.ids →
    Run env (⟨w, .command c, (execute env c w).1, (execute env c w).2⟩ :: h) (execute env c w).2
  | deactivate {h : List Entry} {w : World} (userId : UUID) : Run env h w →
    Run env (⟨w, .deactivate userId, .ok .none, w.deactivate userId⟩ :: h) (w.deactivate userId)

/-! ### The past of a token -/

namespace Entry

/-- The entry handed out `t` as the refresh token of its response. -/
def HandsOut (e : Entry) (t : Token) : Prop :=
  ∃ p, e.result = .ok (.tokenPair p) ∧ p.refreshToken = t

/-- The entry is a login that handed out `t`. -/
def LogsIn (e : Entry) (t : Token) : Prop :=
  (∃ c, e.action = .command (.login c)) ∧ e.HandsOut t

/-- The entry is a refresh of `t` that handed out `t'`. -/
def Rotates (e : Entry) (t t' : Token) : Prop :=
  e.action = .command (.refreshToken ⟨t⟩) ∧ e.HandsOut t'

/-- The entry is a successful password change of a user. -/
def ChangesPassword (e : Entry) (userId : UUID) : Prop :=
  ∃ c, e.action = .command (.changePassword c) ∧ e.result = .ok .none ∧ c.userId = userId

/-- The entry registered an address for a user. -/
def Registers (e : Entry) (email : Email) (userId : UUID) : Prop :=
  ∃ c v, e.action = .command (.createUser c) ∧ e.result = .ok (.userView v) ∧
    Email.ofStr c.email = .ok email ∧ v.id = userId

/-- The entry is a successful registration or password change that gave a user
the password `password`. -/
def SetsPassword (e : Entry) (userId : UUID) (password : Str) : Prop :=
  (∃ c v, e.action = .command (.createUser c) ∧ e.result = .ok (.userView v) ∧ v.id = userId ∧
    c.password = password) ∨
  ∃ c, e.action = .command (.changePassword c) ∧ e.result = .ok .none ∧ c.userId = userId ∧
    c.newPassword = password

end Entry

/-- `t` was handed out by a login. -/
def LoggedIn (h : List Entry) (t : Token) : Prop := ∃ e ∈ h, e.LogsIn t

/-- A refresh of `t` handed out `t'`. -/
def Rotated (h : List Entry) (t t' : Token) : Prop := ∃ e ∈ h, e.Rotates t t'

/-- `t` was handed out by a login or a refresh. -/
def HandedOut (h : List Entry) (t : Token) : Prop := LoggedIn h t ∨ ∃ t', Rotated h t' t

/-- `t` was refreshed. -/
def Refreshed (h : List Entry) (t : Token) : Prop := ∃ t', Rotated h t t'

/-- `t` comes from `root` by a chain of rotations. -/
def Descends (h : List Entry) : Token → Token → Prop := Relation.ReflTransGen (Rotated h)

/-- `t` and `t'` belong to the chain of rotations that one login started. -/
def SameFamily (h : List Entry) (t t' : Token) : Prop :=
  ∃ root, LoggedIn h root ∧ Descends h root t ∧ Descends h root t'

/-- `TokenService.decode` accepts the token. -/
def Accepts (env : Env) (w : World) (t : Token) : Prop := ∃ p, w.decode env t = .ok p

/-- The entry, after the history `older`, gave `t` to a logout, or presented it
to refresh again after it had been rotated, while `decode` accepted it. -/
def Entry.Spoils (env : Env) (e : Entry) (older : List Entry) (t : Token) : Prop :=
  Accepts env e.before t ∧ (e.action = .command (.logout ⟨t⟩) ∨
    e.action = .command (.refreshToken ⟨t⟩) ∧ Refreshed older t)

/-- `t` was given to a logout, or presented again after it had been rotated. -/
def Spoiled (env : Env) (h : List Entry) (t : Token) : Prop :=
  ∃ newer e older, h = newer ++ e :: older ∧ Entry.Spoils env e older t

/-- The subject of a token. -/
def Token.subject : Token → Option Str
  | .signed _ _ c => some c.sub
  | .other _ => none

/-- The user that `t` was issued to. -/
def Token.IsFor (t : Token) (userId : UUID) : Prop := t.subject = some (UserId.mk userId).str

/-- The user of `t` has changed the password after `t` was handed out. -/
def PasswordChangedSince (h : List Entry) (t : Token) : Prop :=
  ∃ newer older, h = newer ++ older ∧ HandedOut older t ∧
    ∃ e ∈ newer, ∃ userId, t.IsFor userId ∧ e.ChangesPassword userId

/-! ### One entry more -/

section cons

variable {env : Env} {e : Entry} {h : List Entry} {t t' : Token}

omit [Unicode] in
@[simp] theorem loggedIn_cons : LoggedIn (e :: h) t ↔ e.LogsIn t ∨ LoggedIn h t := by
  simp [LoggedIn]

omit [Unicode] in
@[simp] theorem rotated_cons : Rotated (e :: h) t t' ↔ e.Rotates t t' ∨ Rotated h t t' := by
  simp [Rotated]

omit [Unicode] in
@[simp] theorem refreshed_cons : Refreshed (e :: h) t ↔ (∃ t', e.Rotates t t') ∨ Refreshed h t := by
  simp only [Refreshed, rotated_cons, exists_or]

omit [Unicode] in
theorem HandedOut.append (ht : HandedOut h t) (newer : List Entry) :
    HandedOut (newer ++ h) t := by
  rcases ht with ⟨e, he, hlog⟩ | ⟨t', e, he, hrot⟩
  · exact .inl ⟨e, List.mem_append_right _ he, hlog⟩
  · exact .inr ⟨t', e, List.mem_append_right _ he, hrot⟩

@[simp] theorem spoiled_cons : Spoiled env (e :: h) t ↔ e.Spoils env h t ∨ Spoiled env h t := by
  constructor
  · rintro ⟨newer, e', older, heq, hspoils⟩
    rcases List.cons_eq_append_iff.mp heq with ⟨rfl, heq'⟩ | ⟨newer', rfl, rfl⟩
    · obtain ⟨rfl, rfl⟩ := List.cons.inj heq'
      exact .inl hspoils
    · exact .inr ⟨newer', e', older, rfl, hspoils⟩
  · rintro (hspoils | ⟨newer, e', older, rfl, hspoils⟩)
    · exact ⟨[], e, h, rfl, hspoils⟩
    · exact ⟨e :: newer, e', older, rfl, hspoils⟩

omit [Unicode] in
@[simp] theorem passwordChangedSince_cons : PasswordChangedSince (e :: h) t ↔
    (HandedOut h t ∧ ∃ userId, t.IsFor userId ∧ e.ChangesPassword userId) ∨
      PasswordChangedSince h t := by
  constructor
  · rintro ⟨newer, older, heq, hout, e', he', userId, hfor, hchange⟩
    rcases List.cons_eq_append_iff.mp heq with ⟨rfl, -⟩ | ⟨newer', rfl, rfl⟩
    · cases he'
    · rcases List.mem_cons.mp he' with rfl | he'
      · exact .inl ⟨hout.append newer', userId, hfor, hchange⟩
      · exact .inr ⟨newer', older, rfl, hout, e', he', userId, hfor, hchange⟩
  · rintro (⟨hout, userId, hfor, hchange⟩ | ⟨newer, older, rfl, hout, hrest⟩)
    · exact ⟨[e], h, rfl, hout, e, by simp, userId, hfor, hchange⟩
    · obtain ⟨e', he', hrest⟩ := hrest
      exact ⟨e :: newer, older, rfl, hout, e', List.mem_cons_of_mem _ he', hrest⟩

end cons

/-! ### What an entry does to the refresh tokens -/

/-- The entry stores the record `r` for the token `t`, which it hands out; the
clock is read the `n`-th time. -/
structure Issues (env : Env) (e : Entry) (n : ℕ) (r : RefreshTokenModel) (t : Token) : Prop where
  tick : n < e.after.ticks
  jti : r.jti = env.uuid e.before.ids
  ids : e.before.ids < e.after.ids
  token : t = (env.refreshToken (env.clock n) r.userId r.jti).token
  expires : r.expiresAt = .aware (env.refreshToken (env.clock n) r.userId r.jti).expiresAt
  live : r.revokedAt = none
  issued : ∃ k < e.after.ticks, ∃ id,
    e.after.issued = env.accessToken (env.clock k) r.userId id :: t :: e.before.issued
  handsOut : ∀ t', e.HandsOut t' ↔ t' = t

/-- The entry hands out nothing and issues nothing. -/
structure Silent (e : Entry) : Prop where
  issued : e.after.issued = e.before.issued
  handsOut : ∀ t, ¬ e.HandsOut t

/-- The effect of one entry on the records and on the tokens issued. -/
inductive TokenEffect (env : Env) (e : Entry) : Prop
  /-- None. -/
  | idle : e.before.db.Extends e.after.db (fun _ => false) 0 [] → Silent e →
    (∀ u, ¬ e.ChangesPassword u) →
    (∀ t, e.action = .command (.logout ⟨t⟩) → Unknown env e.before t) →
    (∀ t p m, e.action = .command (.refreshToken ⟨t⟩) → Presents env e.before t p m →
      m.revokedAt = none) → TokenEffect env e
  /-- A login opens a family. -/
  | opened {c : LoginCommand} (n : ℕ) (r : RefreshTokenModel) (t : Token) :
    e.action = .command (.login c) → Issues env e n r t →
    r.familyId = env.uuid (e.before.ids + 1) → e.before.ids + 1 < e.after.ids →
    e.before.db.Extends e.after.db (fun _ => false) 0 [r] → TokenEffect env e
  /-- A refresh rotates a record. -/
  | rotated {t : Token} {p : TokenPayload} {m : RefreshTokenModel} {u : User} (n : ℕ)
    (r : RefreshTokenModel) (t' : Token) (at' : Instant) : e.action = .command (.refreshToken ⟨t⟩) →
    RefreshChecks env e.before t p m u → Issues env e n r t' → r.familyId = m.familyId →
    r.userId = u.id.value →
    e.before.db.Extends e.after.db (fun m' => m'.jti = m.jti) at' [r] → TokenEffect env e
  /-- A logout, or the reuse of a revoked record, revokes a family. -/
  | killed {t : Token} {p : TokenPayload} {m : RefreshTokenModel} {at' : Instant} :
    (e.action = .command (.logout ⟨t⟩) ∨
      e.action = .command (.refreshToken ⟨t⟩) ∧ m.revokedAt ≠ none) →
    Presents env e.before t p m → Silent e →
    e.before.db.Extends e.after.db (Scope.family m.familyId).selects at' [] → TokenEffect env e
  /-- A password change revokes the records of a user. -/
  | changed {c : ChangePasswordCommand} {at' : Instant} :
    e.action = .command (.changePassword c) → e.result = .ok .none → Silent e →
    e.before.db.Extends e.after.db (Scope.user c.userId).selects at' [] → TokenEffect env e

/-- An entry is silent and adds no record, or issues a token and adds its record. -/
theorem TokenEffect.silent_or_issues {env : Env} {e : Entry} (h : TokenEffect env e) :
    (∃ p at', e.before.db.Extends e.after.db p at' [] ∧ Silent e) ∨
      ∃ p at' n r t, e.before.db.Extends e.after.db p at' [r] ∧ Issues env e n r t := by
  cases h with
  | idle hrows hsilent => exact .inl ⟨_, _, hrows, hsilent⟩
  | opened n r t _ hissues _ _ hrows => exact .inr ⟨_, _, n, r, t, hrows, hissues⟩
  | rotated n r t' _ _ _ hissues _ _ hrows => exact .inr ⟨_, _, n, r, t', hrows, hissues⟩
  | killed _ _ hsilent hrows => exact .inl ⟨_, _, hrows, hsilent⟩
  | changed _ _ hsilent hrows => exact .inl ⟨_, _, hrows, hsilent⟩

/-- The effect of one entry on the users. -/
inductive UserEffect (env : Env) (e : Entry) : Prop
  /-- None. -/
  | idle : e.after.db.users = e.before.db.users → (∀ email userId, ¬ e.Registers email userId) →
    (∀ userId password, ¬ e.SetsPassword userId password) → UserEffect env e
  /-- A user is stored. -/
  | created {c : CreateUserCommand} {u : User} {salt : ℕ} : e.action = .command (.createUser c) →
    e.result = (env.dispatcher.dispatch u.events).map (fun _ =>
      .userView ⟨u.id.value, u.email.value, true, .aware u.createdAt⟩) →
    Email.ofStr c.email = .ok u.email → u.id.value = env.uuid e.before.ids →
    e.before.ids < e.after.ids → u.isActive = true →
    u.hashedPassword.value = env.hash salt c.password →
    e.after.db.users.rows = e.before.db.users.rows ++ [UserMapper.toModel u] → UserEffect env e
  /-- The hash of a user is replaced. -/
  | changed {c : ChangePasswordCommand} {salt : ℕ} : e.action = .command (.changePassword c) →
    e.result = .ok .none →
    e.after.db.users = (e.before.db.setPassword c.userId (env.hash salt c.newPassword)).users →
    UserEffect env e
  /-- A user is deactivated. -/
  | deactivated {userId : UUID} : e.action = .deactivate userId →
    e.after.db.users = (e.before.deactivate userId).db.users → UserEffect env e

/-- An entry that leaves the users alone, and neither registers nor changes a password. -/
theorem UserEffect.of_action {env : Env} {e : Entry} (hu : e.after.db.users = e.before.db.users)
    (hcreate : ∀ c, e.action ≠ .command (.createUser c))
    (hchange : ∀ c, e.action ≠ .command (.changePassword c)) : UserEffect env e := by
  refine .idle hu ?_ ?_
  · rintro email userId ⟨c, v, hc, -⟩
    exact hcreate c hc
  · rintro userId password (⟨c, v, hc, -⟩ | ⟨c, hc, -⟩)
    · exact hcreate c hc
    · exact hchange c hc

/-- What one entry of a run does. -/
structure Step (env : Env) (e : Entry) : Prop where
  ticks : e.before.ticks ≤ e.after.ticks
  ids : e.before.ids ≤ e.after.ids
  effect : TokenEffect env e
  users : UserEffect env e

section step

variable {env : Env} {w : World}

omit [Unicode] in
theorem silent_of_error {a : Action} {x : Exc} {w' : World} (h : Unchanged w w') :
    Silent ⟨w, a, .error x, w'⟩ :=
  ⟨h.issued, by simp [Entry.HandsOut]⟩

/-- An execution that only draws and fails is idle, whatever the command. -/
theorem Step.refused {c : Command} {x : Exc} {w' : World} (h : Unchanged w w')
    (hlogout : ∀ t, c = .logout ⟨t⟩ → Unknown env w t)
    (hrefresh : ∀ t p m, c = .refreshToken ⟨t⟩ → Presents env w t p m → m.revokedAt = none) :
    Step env ⟨w, .command c, .error x, w'⟩ where
  ticks := h.ticks
  ids := h.ids
  effect := by
    refine .idle (.of_append (by simp [h.db])) (silent_of_error h) ?_ ?_ ?_
    · rintro u ⟨c', -, hok, -⟩
      cases hok
    · exact fun t ht => hlogout t (by simpa using ht)
    · exact fun t p m ht => hrefresh t p m (by simpa using ht)
  users := by
    refine .idle (by rw [h.db]) ?_ ?_
    · rintro email userId ⟨-, v, -, hv, -⟩
      cases hv
    · rintro userId password (⟨-, v, -, hv, -⟩ | ⟨-, -, hv, -⟩) <;> cases hv

variable {r : Except Exc Response} {w' : World}

theorem CreateUserOutcome.step {c : CreateUserCommand} (h : CreateUserOutcome env w c r w') :
    Step env ⟨w, .command (.createUser c), r, w'⟩ := by
  cases h with
  | refused h => exact .refused h (by simp) (by simp)
  | @created u users hemail _ hid hhash hactive hinsert =>
    refine ⟨Nat.le_succ _, Nat.le_succ _,
      .idle (.of_append (by simp)) ⟨rfl, ?_⟩ ?_ (by simp) (by simp),
      .created rfl rfl hemail hid (Nat.lt_succ_self _) hactive hhash (Table.rows_of_insert hinsert)⟩
    · rintro t ⟨p, hp, -⟩
      revert hp
      rcases env.dispatcher.dispatch u.events with _ | _ <;> simp [Except.map]
    · rintro id ⟨c', hc', -⟩
      simp at hc'

theorem LoginOutcome.step {c : LoginCommand} (h : LoginOutcome env w c r w') :
    Step env ⟨w, .command (.login c), r, w'⟩ := by
  cases h with
  | refused _ h => exact .refused h (by simp) (by simp)
  | @opened u tokens haccepts hinsert =>
    have htick : w.ticks < w.ticks + 2 := by omega
    have hid : w.ids + 1 < w.ids + 3 := by omega
    refine ⟨Nat.le_add_right _ 2, Nat.le_add_right _ 3, .opened w.ticks _
      (env.refreshToken (env.clock w.ticks) u.id.value (env.uuid w.ids)).token rfl ?_ rfl hid
      (.of_append (Table.rows_of_insert hinsert)), .of_action rfl (by simp) (by simp)⟩
    refine { tick := htick, jti := rfl, ids := Nat.lt_of_succ_lt hid, token := rfl, expires := rfl,
             live := rfl, issued := ?_, handsOut := fun t' => ?_ }
    · exact ⟨w.ticks + 1, Nat.lt_succ_self _, env.uuid (w.ids + 2), rfl⟩
    · simp [Entry.HandsOut, eq_comm]

theorem RefreshOutcome.step {t : Token} (h : RefreshOutcome env w t r w') :
    Step env ⟨w, .command (.refreshToken ⟨t⟩), r, w'⟩ := by
  cases h with
  | refused _ hlive _ h =>
    refine .refused h (by simp) fun t' p m ht hp => ?_
    obtain rfl : t = t' := by simpa using ht
    exact hlive p m hp
  | replayed hp hrevoked =>
    refine ⟨Nat.le_add_right _ 2, le_rfl, .killed (.inr ⟨rfl, hrevoked⟩) hp ⟨rfl, ?_⟩
      (.of_revoke _ _ _), .of_action rfl (by simp) (by simp)⟩
    simp [Entry.HandsOut]
  | @rotated p m u tokens hchecks hinsert =>
    have htick : w.ticks + 2 < w.ticks + 4 := by omega
    have hid : w.ids < w.ids + 2 := by omega
    refine ⟨Nat.le_add_right _ 4, Nat.le_add_right _ 2, .rotated (w.ticks + 2)
      (env.record (env.clock (w.ticks + 2)) u.id.value (env.uuid w.ids) m.familyId)
      (env.refreshToken (env.clock (w.ticks + 2)) u.id.value (env.uuid w.ids)).token
        (env.clock (w.ticks + 1))
      rfl hchecks
      ?_ rfl rfl ((Table.rows_of_insert hinsert).trans
        (congrArg (· ++ _) (Database.rows_revokeRows_singleton ..))),
      .of_action rfl (by simp) (by simp)⟩
    refine { tick := htick, jti := rfl, ids := hid, token := rfl, expires := rfl, live := rfl,
             issued := ?_, handsOut := fun t' => ?_ }
    · exact ⟨w.ticks + 3, Nat.lt_succ_self _, env.uuid (w.ids + 1), rfl⟩
    · simp [Entry.HandsOut, eq_comm]

theorem LogoutOutcome.step {t : Token} (h : LogoutOutcome env w t r w') :
    Step env ⟨w, .command (.logout ⟨t⟩), r, w'⟩ := by
  cases h with
  | unknown hunknown h hpair =>
    refine ⟨h.ticks, h.ids,
      .idle (.of_append (by simp [h.db])) ⟨h.issued, ?_⟩ ?_ (fun t' ht => ?_) (by simp),
      .of_action (by rw [h.db]) (by simp) (by simp)⟩
    · rintro t' ⟨p, hp, -⟩
      exact hpair p hp
    · rintro u ⟨c, hc, -⟩
      simp at hc
    · obtain rfl : t = t' := by simpa using ht
      exact hunknown
  | revoked hp =>
    refine ⟨Nat.le_add_right _ 2, le_rfl, .killed (.inl rfl) hp ⟨rfl, ?_⟩ (.of_revoke _ _ _),
      .of_action rfl (by simp) (by simp)⟩
    simp [Entry.HandsOut]

theorem ChangePasswordOutcome.step {c : ChangePasswordCommand}
    (h : ChangePasswordOutcome env w c r w') :
    Step env ⟨w, .command (.changePassword c), r, w'⟩ := by
  cases h with
  | refused h => exact .refused h (by simp) (by simp)
  | changed _ hid _ hhash =>
    refine ⟨Nat.le_succ _, le_rfl, .changed rfl rfl ⟨rfl, ?_⟩
      (by rw [← hid]; exact Database.Extends.of_revoke _ _ _),
      .changed rfl rfl (by rw [← hid, ← hhash]; rfl)⟩
    simp [Entry.HandsOut]

theorem Step.deactivate (userId : UUID) :
    Step env ⟨w, .deactivate userId, .ok .none, w.deactivate userId⟩ := by
  refine ⟨le_rfl, le_rfl, .idle (.of_append (by simp [World.deactivate]))
    ⟨rfl, by simp [Entry.HandsOut]⟩ ?_ (by simp) (by simp), .deactivated rfl rfl⟩
  rintro u ⟨c, hc, -⟩
  simp at hc

end step

/-! ### Runs are settled -/

section settled

variable {env : Env} {w w' : World} {r : Except Exc Response}

theorem Settled.unchanged (hw : Settled env w) (h : Unchanged w w') : Settled env w' where
  statements := h.statements.trans hw.statements
  readable := by rw [h.db]; exact hw.readable
  emails := by rw [h.db]; exact hw.emails
  userIds := by rw [h.db]; exact fun m hm => (hw.userIds m hm).mono h.ids
  jtis := by rw [h.db]; exact fun m hm => (hw.jtis m hm).mono h.ids
  families := by rw [h.db]; exact fun m hm => (hw.families m hm).mono h.ids

/-- Changes of the refresh tokens keep a world settled, when their ids are drawn. -/
theorem Settled.tokens (hw : Settled env w) {tokens : Table RefreshTokenModel.jti}
    (hstatements : w'.statements = []) (hdb : w'.db = ⟨w.db.users, tokens⟩) (hids : w.ids ≤ w'.ids)
    (htokens : ∀ m ∈ tokens.rows, env.Drawn w'.ids m.jti ∧ env.Drawn w'.ids m.familyId) :
    Settled env w' where
  statements := hstatements
  readable := by rw [hdb]; exact hw.readable
  emails := by rw [hdb]; exact hw.emails
  userIds := by rw [hdb]; exact fun m hm => (hw.userIds m hm).mono hids
  jtis := by rw [hdb]; exact fun m hm => (htokens m hm).1
  families := by rw [hdb]; exact fun m hm => (htokens m hm).2

/-- Changes of rows of `users` that keep ids and addresses. -/
theorem Settled.users (hw : Settled env w) {f : UserModel → UserModel}
    (hf : ∀ m, (f m).id = m.id) (hemail : ∀ m, (f m).email = m.email)
    (hread : ∀ u : User, ∃ u', f (UserMapper.toModel u) = UserMapper.toModel u')
    (hstatements : w'.statements = []) (hdb : w'.db = ⟨w.db.users.modify f hf, w.db.refreshTokens⟩)
    (hids : w'.ids = w.ids) : Settled env w' := by
  have hmem : ∀ m ∈ w'.db.users.rows, ∃ m₀ ∈ w.db.users.rows, f m₀ = m := by
    intro m hm
    rw [hdb] at hm
    exact List.mem_map.mp hm
  refine ⟨hstatements, ?_, ?_, ?_, ?_, ?_⟩
  · intro m hm
    obtain ⟨m₀, hm₀, rfl⟩ := hmem m hm
    obtain ⟨u, rfl⟩ := hw.readable m₀ hm₀
    exact hread u
  · rw [hdb, Table.rows_modify, List.map_map, show UserModel.email ∘ f = _ from funext hemail]
    exact hw.emails
  · intro m hm
    obtain ⟨m₀, hm₀, rfl⟩ := hmem m hm
    rw [hf, hids]
    exact hw.userIds m₀ hm₀
  · rw [hdb, hids]
    exact hw.jtis
  · rw [hdb, hids]
    exact hw.families

theorem Settled.initial : Settled env .initial := by
  refine ⟨rfl, ?_, List.nodup_nil, ?_, ?_, ?_⟩ <;> simp [World.initial, Database.empty]

/-- Revoking records keeps a world settled. -/
theorem Settled.revoke (hw : Settled env w) {at' : Instant} {scope : Scope}
    (hstatements : w'.statements = []) (hdb : w'.db = w.db.revoke scope at')
    (hids : w.ids ≤ w'.ids) : Settled env w' := by
  refine hw.tokens hstatements hdb hids fun m hm => ?_
  change m ∈ (w.db.revoke scope at').refreshTokens.rows at hm
  rw [Database.rows_revoke, List.mem_map] at hm
  obtain ⟨m₀, hm₀, rfl⟩ := hm
  rw [RefreshTokenModel.jti_revokeIf, RefreshTokenModel.familyId_revokeIf]
  exact ⟨(hw.jtis m₀ hm₀).mono hids, (hw.families m₀ hm₀).mono hids⟩

theorem CreateUserOutcome.settled {c : CreateUserCommand} (hw : Settled env w)
    (h : CreateUserOutcome env w c r w') : Settled env w' := by
  cases h with
  | refused h => exact hw.unchanged h
  | @created u users _ hnew hid _ _ hinsert =>
    have hrows := Table.rows_of_insert hinsert
    have hids : w.ids ≤ w.ids + 1 := Nat.le_succ _
    refine ⟨hw.statements, fun m hm => ?_, ?_, fun m hm => ?_,
      fun m hm => (hw.jtis m hm).mono hids, fun m hm => (hw.families m hm).mono hids⟩
    · rcases (Table.mem_of_insert hinsert).mp hm with hm | rfl
      · exact hw.readable m hm
      · exact ⟨u, rfl⟩
    · change (users.rows.map (·.email)).Nodup
      rw [hrows, List.map_append, List.nodup_append]
      refine ⟨hw.emails, by simp, ?_⟩
      intro a ha b hb
      obtain ⟨m, hm, rfl⟩ := List.mem_map.mp ha
      obtain rfl : b = u.email.value := by simpa [UserMapper.toModel] using hb
      exact hnew m hm
    · rcases (Table.mem_of_insert hinsert).mp hm with hm | rfl
      · exact (hw.userIds m hm).mono hids
      · exact ⟨w.ids, Nat.lt_succ_self _, hid⟩

theorem LoginOutcome.settled {c : LoginCommand} (hw : Settled env w)
    (h : LoginOutcome env w c r w') : Settled env w' := by
  cases h with
  | refused _ h => exact hw.unchanged h
  | opened _ hinsert =>
    have hids : w.ids ≤ w.ids + 3 := by omega
    have hjti : w.ids < w.ids + 3 := by omega
    have hfamily : w.ids + 1 < w.ids + 3 := by omega
    refine hw.tokens hw.statements rfl hids fun m hm => ?_
    rcases (Table.mem_of_insert hinsert).mp hm with hm | rfl
    · exact ⟨(hw.jtis m hm).mono hids, (hw.families m hm).mono hids⟩
    · exact ⟨⟨w.ids, hjti, rfl⟩, ⟨w.ids + 1, hfamily, rfl⟩⟩

theorem RefreshOutcome.settled {t : Token} (hw : Settled env w)
    (h : RefreshOutcome env w t r w') : Settled env w' := by
  cases h with
  | refused _ _ _ h => exact hw.unchanged h
  | replayed => exact hw.revoke hw.statements rfl le_rfl
  | @rotated p m u tokens hchecks hinsert =>
    have hids : w.ids ≤ w.ids + 2 := by omega
    have hjti : w.ids < w.ids + 2 := by omega
    have hm := (Table.get_eq_some.mp hchecks.stored).1
    refine hw.tokens hw.statements rfl hids fun m' hm' => ?_
    rcases (Table.mem_of_insert hinsert).mp hm' with hm' | rfl
    · rw [Database.rows_revokeRows_singleton, List.mem_map] at hm'
      obtain ⟨m₀, hm₀, rfl⟩ := hm'
      rw [RefreshTokenModel.jti_revokeIf, RefreshTokenModel.familyId_revokeIf]
      exact ⟨(hw.jtis m₀ hm₀).mono hids, (hw.families m₀ hm₀).mono hids⟩
    · exact ⟨⟨w.ids, hjti, rfl⟩, (hw.families m hm).mono hids⟩

theorem LogoutOutcome.settled {t : Token} (hw : Settled env w)
    (h : LogoutOutcome env w t r w') : Settled env w' := by
  cases h with
  | unknown _ h => exact hw.unchanged h
  | revoked => exact hw.revoke hw.statements rfl le_rfl

theorem Settled.setPassword (hw : Settled env w) (id : UUID) (hashed : HashedPassword)
    (hstatements : w'.statements = []) (hdb : w'.db = w.db.setPassword id hashed.value)
    (hids : w'.ids = w.ids) : Settled env w' := by
  refine hw.users (fun m => by split <;> rfl) (fun m => by split <;> rfl) (fun u => ?_) hstatements
    hdb hids
  by_cases hu : (UserMapper.toModel u).id = id
  · exact ⟨u.changePassword hashed, if_pos (decide_eq_true hu)⟩
  · exact ⟨u, by simp [hu]⟩

theorem ChangePasswordOutcome.settled {c : ChangePasswordCommand} (hw : Settled env w)
    (h : ChangePasswordOutcome env w c r w') : Settled env w' := by
  cases h with
  | refused h => exact hw.unchanged h
  | @changed u hashed =>
    have hrevoke : Settled env
        { w with db := w.db.revoke (.user u.id.value) (env.clock w.ticks) } :=
      hw.revoke hw.statements rfl le_rfl
    exact hrevoke.setPassword u.id.value hashed hw.statements rfl rfl

theorem Settled.deactivate (hw : Settled env w) (userId : UUID) :
    Settled env (w.deactivate userId) := by
  refine hw.users (fun m => by split <;> rfl) (fun m => by split <;> rfl) (fun u => ?_)
    hw.statements rfl rfl
  by_cases hu : (UserMapper.toModel u).id = userId
  · exact ⟨u.deactivate, if_pos (decide_eq_true hu)⟩
  · exact ⟨u, by simp [hu]⟩

end settled

section run

variable {env : Env} {w : World} {h : List Entry}

/-- What an execution in a settled world does. -/
theorem step_execute (hw : Settled env w) (c : Command)
    (hfresh : env.NoRepeat (execute env c w).2.ids) :
    Step env ⟨w, .command c, (execute env c w).1, (execute env c w).2⟩ ∧
      Settled env (execute env c w).2 := by
  cases c with
  | createUser c =>
    have hout := createUser_outcome hw c hfresh
    exact ⟨hout.step, hout.settled hw⟩
  | login c =>
    have hout := login_outcome hw c hfresh
    exact ⟨hout.step, hout.settled hw⟩
  | refreshToken c =>
    have hout := refresh_outcome hw c hfresh
    exact ⟨hout.step, hout.settled hw⟩
  | logout c =>
    have hout := logout_outcome hw c
    exact ⟨hout.step, hout.settled hw⟩
  | changePassword c =>
    have hout := changePassword_outcome hw c
    exact ⟨hout.step, hout.settled hw⟩

/-- **No transaction is open between the steps of a run.** -/
theorem Run.settled (hrun : Run env h w) : Settled env w := by
  induction hrun with
  | start => exact .initial
  | command c _ hfresh ih => exact (step_execute ih c hfresh).2
  | deactivate userId _ ih => exact ih.deactivate userId

theorem Run.noRepeat (hrun : Run env h w) : env.NoRepeat w.ids := by
  induction hrun with
  | start => exact fun i hi => absurd hi (Nat.not_lt_zero i)
  | command c _ hfresh _ => exact hfresh
  | deactivate userId _ ih => exact ih

/-- **An invariant of runs**: what holds at the start and survives every step. -/
theorem Run.invariant (Inv : List Entry → World → Prop) (hstart : Inv [] .initial)
    (hstep : ∀ e h, Settled env e.before → env.NoRepeat e.after.ids → Step env e →
      Inv h e.before → Inv (e :: h) e.after) (hrun : Run env h w) : Inv h w := by
  induction hrun with
  | start => exact hstart
  | command c hrun hfresh ih =>
    exact hstep _ _ hrun.settled hfresh (step_execute hrun.settled c hfresh).1 ih
  | deactivate userId hrun ih => exact hstep _ _ hrun.settled hrun.noRepeat (.deactivate userId) ih

end run

end history

/-! ### A small run -/

section sample

attribute [local instance] asciiUnicode

/-- The credentials of the sample user. -/
def sampleLogin : LoginCommand := ⟨lit ['a', '@', 'b', '.', 'c'], lit ['p']⟩

/-- The registration of the sample user. -/
def sampleRegistration : Command := .createUser ⟨sampleLogin.email, sampleLogin.password⟩

/-- The world in which the sample user is registered. -/
def registeredWorld : World := (execute sampleEnv sampleRegistration .initial).2

/-- The world in which the sample user has logged in. -/
def loggedInWorld : World := (execute sampleEnv (.login sampleLogin) registeredWorld).2

/-- The refresh token that the sample login handed out. -/
def sampleToken : Token := (sampleEnv.refreshToken 1 (sampleEnv.uuid 0) (sampleEnv.uuid 1)).token

/-- The history of a registration and a login. -/
def sampleHistory : List Entry :=
  [⟨registeredWorld, .command (.login sampleLogin),
      (execute sampleEnv (.login sampleLogin) registeredWorld).1, loggedInWorld⟩,
    ⟨.initial, .command sampleRegistration, (execute sampleEnv sampleRegistration .initial).1,
      registeredWorld⟩]

theorem run_sampleHistory : Run sampleEnv sampleHistory loggedInWorld :=
  .command (.login sampleLogin) (.command sampleRegistration .start (by decide)) (by decide)

end sample

end FastapiStarter
