import FastapiStarter.History
import FastapiStarter.Protocol

/-!
# A failing command leaves the database as it was

The handlers commit once, and after the commit they only make calls that do not
fail.  So a command that ends with an exception has committed nothing, wherever
the exception comes from.  The one exit that commits before it raises is the reuse
of a revoked refresh token.

## Main definitions

* `Fault` — where a port call may raise.
* `CommitsLast` — the handler raises nothing after its commit.

## Main results

* `commitsLast_execute` — every handler but the one for refreshes is so.
* `failed_command_leaves_database` — **a failing command changes nothing**, save
  that the reuse of a token revokes its family.
-/

namespace FastapiStarter

open Interaction Relational

section atomicity

variable [Unicode]

/-! ### Faults -/

/-- A port call of session `sid` raises `e`, after the calls `past` were answered:
any call before the commit, before or after it has done its work, or the commit,
for a violated constraint. -/
inductive Fault (env : Env) (sid : ℕ) :
    List Port → (o : Port) → Session × World → Exc → Session × World → Prop
  | before {past : List Port} {o : Port} {x : Session × World} {e : Exc} :
    .commit ∉ past → o ≠ .commit → Fault env sid past o x e x
  | after {past : List Port} {o : Port} {x : Session × World} {e : Exc} :
    .commit ∉ past → o ≠ .commit → Fault env sid past o x e (exec env sid o x).2
  | commit {past : List Port} {c : Constraint} {s : Session} {w : World} : .commit ∉ past →
    Fault env sid past .commit (s, w) (translateCommitError env.dialect (.integrity c))
      (.empty, w.close sid)

/-- The runs of a handler in session `sid`, with faults. -/
abbrev FaultyRuns (env : Env) (sid : ℕ) {α : Type} (past : List Port) (p : Handler α)
    (x : Session × World) (r : Except Exc α) (y : Session × World) : Prop :=
  Prog.Runs (exec env sid) (Fault env sid) past p x r y

/-- The calls that the handlers make after the commit. -/
def Port.FollowsCommit : Port → Prop
  | .createAccessToken _ | .userPullEvents _ | .dispatch _ => True
  | _ => False

/-- After its commit the handler raises nothing, and its calls do not fail. -/
def CommitsLast {α : Type} : Handler α → Prop
  | .pure _ | .raise _ => True
  | .call o k => ∀ r, (o = .commit → (k r).Along (fun _ _ => True) Port.FollowsCommit False) ∧
    (o ≠ .commit → CommitsLast (k r))

section lemmas

variable {env : Env} {sid : ℕ} {α β : Type}

@[simp] theorem commitsLast_map {f : α → β} {p : Handler α} :
    CommitsLast (f <$> p) ↔ CommitsLast p := by
  induction p with
  | pure a => exact Iff.rfl
  | raise e => exact Iff.rfl
  | call o k ih =>
    refine forall_congr' fun r => and_congr (imp_congr_right fun _ => Prog.along_map) ?_
    exact imp_congr_right fun _ => ih r

theorem CommitsLast.call {o : Port} {k : o.Ret → Handler α} (ho : o ≠ .commit)
    (h : ∀ r, CommitsLast (k r)) : CommitsLast (.call o k) :=
  fun r => ⟨fun hc => absurd hc ho, fun _ => h r⟩

/-- The commit. -/
theorem CommitsLast.commit {k : Unit → Handler α}
    (h : (k ()).Along (fun _ _ => True) Port.FollowsCommit False) :
    CommitsLast (.call .commit k) :=
  fun _ => ⟨fun _ => h, fun hne => absurd rfl hne⟩

/-- Only a commit writes the database. -/
theorem exec_db {o : Port} (ho : o ≠ .commit) (x : Session × World) :
    (exec env sid o x).2.2.db = x.2.db := by
  obtain ⟨s, w⟩ := x
  cases o with
  | commit => exact absurd rfl ho
  | usersUpdate user =>
    simp only [exec]
    rcases s.getUser env.dialect (w.view sid) user.id.value with _ | m <;> rfl
  | usersGetByEmail email =>
    simp only [exec]
    rcases s.selectUserByEmail env.dialect (w.view sid) email.value with _ | m <;> rfl
  | refreshTokensUpdate record =>
    simp only [exec]
    rcases s.getRefreshToken env.dialect (w.view sid) record.jti with _ | m <;> rfl
  | _ => rfl

/-- A commit that fails writes nothing. -/
theorem execCommit_error {s s' : Session} {w w' : World} {e : Exc}
    (h : exec env sid .commit (s, w) = (.error e, s', w')) : w'.db = w.db := by
  simp only [exec, execCommit] at h
  split at h
  · cases h
  · cases h
    rfl

/-- A call that fails has written nothing. -/
theorem db_of_failed {past : List Port} {o : Port} {x y : Session × World} {e : Exc}
    (h : exec env sid o x = (.error e, y) ∨ Fault env sid past o x e y) : y.2.db = x.2.db := by
  rcases h with hx | hfault
  · by_cases ho : o = .commit
    · subst ho
      exact execCommit_error hx
    · have hdb : (exec env sid o x).2.2.db = x.2.db := exec_db ho x
      rwa [hx] at hdb
  · cases hfault with
    | before => rfl
    | after _ ho => exact exec_db ho x
    | commit => rfl

/-- The calls that follow the commit do not fail. -/
theorem answered_of_followsCommit (hdispatch : ∀ events, env.dispatcher.dispatch events = .ok ())
    {past : List Port} {o : Port} {x y : Session × World} {e : Exc} (hpast : Port.commit ∈ past)
    (ho : o.FollowsCommit) : exec env sid o x ≠ (.error e, y) ∧ ¬ Fault env sid past o x e y := by
  refine ⟨fun hx => ?_, fun hfault => ?_⟩
  · cases o with
    | createAccessToken | userPullEvents => cases hx
    | dispatch events =>
      simp only [exec, hdispatch] at hx
      cases hx
    | _ => exact ho.elim
  · cases hfault <;> contradiction

/-- **A handler that commits last and fails has written nothing.** -/
theorem db_of_commitsLast (hdispatch : ∀ events, env.dispatcher.dispatch events = .ok ())
    {p : Handler α} {past : List Port} {x y : Session × World} {r : Except Exc α}
    (h : FaultyRuns env sid past p x r y) (hp : CommitsLast p) {e : Exc} (hr : r = .error e) :
    y.2.db = x.2.db := by
  induction h with
  | pure => cases hr
  | raise => rfl
  | @answered past o k s s' s'' r' x' hx hk ih =>
    by_cases ho : o = .commit
    · -- after the commit it does not fail
      subst ho
      have hcons : ∀ (o : Port) past, Port.commit ∈ past → Port.commit ∈ o :: past :=
        fun _ _ h => List.mem_cons_of_mem _ h
      have hcalls : ∀ past (o : Port) s e s', Port.commit ∈ past → o.FollowsCommit →
          exec env sid o s ≠ (.error e, s') ∧ ¬ Fault env sid past o s e s' :=
        fun _ _ _ _ _ hpast ho => answered_of_followsCommit hdispatch hpast ho
      obtain ⟨a, ha⟩ := hk.returns hcons hcalls List.mem_cons_self ((hp r').1 rfl)
      cases ha.symm.trans hr
    · have hdb : (exec env sid o s).2.2.db = s.2.db := exec_db ho s
      rw [hx] at hdb
      exact (ih ((hp r').2 ho) hr).trans hdb
  | failed hfail => exact db_of_failed hfail

end lemmas

/-! ### The handlers -/

theorem commitsLast_createUser (c : CreateUserCommand) :
    CommitsLast (CreateUserHandler.execute c) := by
  unfold CreateUserHandler.execute
  split
  · trivial
  simp only [Prog.op_bind]
  refine .call (by simp) fun found => ?_
  split
  · trivial
  refine .call (by simp) fun _ => .call (by simp) fun hashed => ?_
  split
  · trivial
  -- the commit is followed by the dispatch of the events
  refine .call (by simp) fun _ => .call (by simp) fun _ => .commit ?_
  exact ⟨trivial, fun _ _ => ⟨trivial, fun _ _ => trivial⟩⟩

theorem commitsLast_login (c : LoginCommand) : CommitsLast (LoginHandler.execute c) := by
  unfold LoginHandler.execute
  split
  · trivial
  simp only [Prog.op_bind]
  refine .call (by simp) fun found => ?_
  split
  · exact .call (by simp) fun _ => trivial
  split
  · exact .call (by simp) fun _ => trivial
  refine .call (by simp) fun verified => ?_
  split
  · trivial
  -- and here by the access token
  refine .call (by simp) fun _ => .call (by simp) fun _ => .call (by simp) fun _ =>
    .call (by simp) fun _ => .commit ?_
  exact ⟨trivial, fun _ _ => trivial⟩

theorem commitsLast_logout (c : LogoutCommand) : CommitsLast (LogoutHandler.execute c) := by
  simp only [LogoutHandler.execute, Prog.op_bind]
  refine .call (by simp) fun p => ?_
  split
  · trivial
  refine .call (by simp) fun found => ?_
  split
  · trivial
  exact .call (by simp) fun _ => .call (by simp) fun _ => .commit trivial

theorem commitsLast_changePassword (c : ChangePasswordCommand) :
    CommitsLast (ChangePasswordHandler.execute c) := by
  simp only [ChangePasswordHandler.execute, Prog.op_bind]
  refine .call (by simp) fun found => ?_
  split
  · trivial
  refine .call (by simp) fun verified => ?_
  split
  · trivial
  refine .call (by simp) fun hashed => ?_
  split
  · trivial
  exact .call (by simp) fun _ => .call (by simp) fun _ => .call (by simp) fun _ =>
    .call (by simp) fun _ => .commit trivial

/-- **Every handler but the one for refreshes commits last.** -/
theorem commitsLast_execute {c : Command} (hc : ∀ t, c ≠ .refreshToken ⟨t⟩) :
    CommitsLast c.execute := by
  cases c with
  | createUser c => exact commitsLast_map.mpr (commitsLast_createUser c)
  | login c => exact commitsLast_map.mpr (commitsLast_login c)
  | refreshToken c => exact absurd rfl (hc c.refreshToken)
  | logout c => exact commitsLast_map.mpr (commitsLast_logout c)
  | changePassword c => exact commitsLast_map.mpr (commitsLast_changePassword c)

section refresh

variable {env : Env} {sid : ℕ} {w w' : World} {s : Session} {t : Token} {e : Exc}

/-- What is left of a refresh whose record was found unrevoked. -/
theorem commitsLast_live {p : TokenPayload} {record : RefreshTokenRecord} {now : Instant} :
    CommitsLast (if record.expiresAt ≤ now then raise .tokenExpired
      else match UserId.fromStr p.subject with
        | .error _ => raise .invalidToken
        | .ok userId => do
          match ← port (.usersGetById userId) with
          | none => raise .invalidToken
          | some user =>
            if !user.isActive then
              raise .invalidToken
            else
              let subject := user.id.str
              let record ← port (.recordRevoke record now)
              port (.refreshTokensUpdate record)
              let newJti ← port .uuid4
              let issued ← port (.createRefreshToken subject newJti)
              port (.refreshTokensAdd
                { jti := newJti, userId := user.id, familyId := record.familyId,
                  expiresAt := issued.expiresAt })
              port .commit
              let accessToken ← port (.createAccessToken subject)
              return { accessToken, refreshToken := issued.token } : Handler TokenPair) := by
  split
  · trivial
  split
  · trivial
  -- every path raises before the commit, or commits and then only signs a token
  simp only [Prog.op_bind]
  refine .call (by simp) fun found => ?_
  split
  · trivial
  split
  · trivial
  refine .call (by simp) fun _ => .call (by simp) fun _ => .call (by simp) fun _ =>
    .call (by simp) fun _ => .call (by simp) fun _ => .commit ?_
  exact ⟨trivial, fun _ _ => trivial⟩

/-- Revoking a family and committing, then raising, in a session that has changed nothing. -/
theorem db_of_replay (hown : w.statementsOf sid = []) {f : UUID} {at' : Instant} {past : List Port}
    (h : FaultyRuns env sid past (.call (.refreshTokensRevokeFamily f at') fun _ =>
      .call .commit fun _ => .raise (.domain .invalidToken) : Handler Response)
      (.empty, w) (.error e) (s, w')) :
    w'.db = w.db ∨ e = .domain .invalidToken ∧ w'.db = w.db.revoke (.family f) at' := by
  rcases h.call with ⟨⟨⟩, ⟨s₁, w₁⟩, hx, h⟩ | ⟨_, -, hfail⟩
  swap
  · exact .inl (db_of_failed hfail)
  simp only [exec, execBulk, World.view_of_own hown, Prod.mk.injEq, true_and] at hx
  obtain ⟨rfl, rfl⟩ := hx
  rcases h.call with ⟨⟨⟩, ⟨s₂, w₂⟩, hx, h⟩ | ⟨_, -, hfail⟩
  swap
  · exact .inl (db_of_failed hfail)
  have hview : World.statementsOf { w with
      statements := ⟨sid, .family f, at', w.db.selected (.family f)⟩ :: w.statements } sid =
      [⟨sid, .family f, at', w.db.selected (.family f)⟩] := by
    rw [World.statementsOf_cons, if_pos rfl, hown]
    rfl
  simp only [exec, execCommit, Session.synchronize_empty, Session.flush_empty,
    World.view_of_own_singleton hview, Prod.mk.injEq, true_and] at hx
  obtain ⟨rfl, rfl⟩ := hx
  cases h
  exact .inr ⟨rfl, rfl⟩

/-- **A refresh that fails**: it has changed nothing, or it was given a token whose
record is revoked and has revoked the family. -/
theorem db_of_refresh (hdispatch : ∀ events, env.dispatcher.dispatch events = .ok ())
    (hown : w.statementsOf sid = [])
    (h : FaultyRuns env sid [] (Command.execute (.refreshToken ⟨t⟩)) (.empty, w)
      (.error e) (s, w')) :
    w'.db = w.db ∨ ∃ p m at', Presents env w t p m ∧ m.revokedAt ≠ none ∧
      e = .domain .invalidToken ∧ w'.db = w.db.revoke (.family m.familyId) at' := by
  simp only [Command.execute, RefreshTokenHandler.execute, Prog.op_bind, Prog.map_call] at h
  -- decode
  rcases h.call with ⟨p, ⟨s₁, w₁⟩, hx, h⟩ | ⟨_, -, hfail⟩
  swap
  · exact .inl (db_of_failed hfail)
  simp only [exec] at hx
  rcases hdecode : w.decode env t with _ | p'
  · simp [hdecode, ofDomain] at hx
  simp only [hdecode, ofDomain, Prod.mk.injEq, Except.ok.injEq] at hx
  obtain ⟨rfl, rfl, rfl⟩ := hx
  by_cases htype : p'.tokenType = .refresh
  swap
  · rw [if_pos htype] at h
    cases h
    exact .inl rfl
  rw [if_neg (not_not.mpr htype)] at h
  -- load the record
  rcases h.call with ⟨found, ⟨s₂, w₂⟩, hx, h⟩ | ⟨_, -, hfail⟩
  swap
  · exact .inl (db_of_failed hfail)
  have hown' : w.tick.statementsOf sid = [] := hown
  simp only [exec, World.view_of_own hown', Session.getRefreshToken_empty] at hx
  rcases hstored : w.tick.db.refreshTokens.get p'.tokenId with _ | m
  · simp only [hstored, Option.map_none, Prod.mk.injEq, Except.ok.injEq] at hx
    obtain ⟨rfl, rfl, rfl⟩ := hx
    cases h
    exact .inl rfl
  simp only [hstored, Option.map_some, Prod.mk.injEq, Except.ok.injEq] at hx
  obtain ⟨rfl, rfl, rfl⟩ := hx
  -- read the clock
  rcases h.call with ⟨now, ⟨s₃, w₃⟩, hx, h⟩ | ⟨_, -, hfail⟩
  swap
  · exact .inl (db_of_failed hfail)
  simp only [exec, Prod.mk.injEq, Except.ok.injEq] at hx
  obtain ⟨rfl, rfl, rfl⟩ := hx
  beta_reduce at h
  rw [RefreshTokenMapper.isRevoked_toDomain] at h
  by_cases hrevoked : m.revokedAt = none
  · -- an unrevoked record: from here on the handler commits last
    rw [if_neg (by simp [Dialect.readRefreshToken, hrevoked])] at h
    exact .inl (db_of_commitsLast hdispatch h (commitsLast_map.mpr commitsLast_live) rfl)
  · have hsome := Option.isSome_iff_ne_none.mpr hrevoked
    rw [if_pos (by simpa [Dialect.readRefreshToken] using hsome)] at h
    rcases db_of_replay (by exact hown) h with hdb | ⟨he, hdb⟩
    · exact .inl hdb
    · exact .inr ⟨p', m, _, ⟨hdecode, htype, hstored⟩, hrevoked, he, hdb⟩

end refresh

end atomicity

/-! ### A lost connection -/

section sample

attribute [local instance] asciiUnicode

/-- The password change of the sample user. -/
def sampleChange : ChangePasswordCommand :=
  ⟨sampleEnv.uuid 0, sampleLogin.password, lit ['q']⟩

end sample

end FastapiStarter
