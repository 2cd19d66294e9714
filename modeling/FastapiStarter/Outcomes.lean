import FastapiStarter.Execution

/-!
# What one execution does

A command executed alone, in a world where no transaction is open, ends in one of
a few ways.  For each handler an inductive type lists them: what was checked, the
result, and the world afterwards.  Everything said about runs of commands rests
on these lists, and no later proof looks into a handler again.

## Main definitions

* `Settled` — no open transaction, and every id in use was drawn.
* `Unchanged` — nothing but readings of the clock, ids and salts.
* `LoginAccepts`, `Presents`, `RefreshChecks` — what the handlers check.
* `CreateUserOutcome`, `LoginOutcome`, `RefreshOutcome`, `LogoutOutcome`,
  `ChangePasswordOutcome` — the ways an execution ends.

## Main results

* `createUser_outcome`, `login_outcome`, `refresh_outcome`, `logout_outcome`,
  `changePassword_outcome` — the lists are complete.
-/

namespace FastapiStarter

open Interaction Relational

/-! ### Changes of the database -/

namespace RefreshTokenModel

/-- The record, revoked if `p` selects it. -/
def revokeIf (p : RefreshTokenModel → Bool) (at' : Instant) (m : RefreshTokenModel) :
    RefreshTokenModel :=
  if p m then { m with revokedAt := some (.aware at') } else m

variable (p : RefreshTokenModel → Bool) (at' : Instant) (m : RefreshTokenModel)

@[simp] theorem jti_revokeIf : (m.revokeIf p at').jti = m.jti := by
  unfold revokeIf
  split <;> rfl

@[simp] theorem userId_revokeIf : (m.revokeIf p at').userId = m.userId := by
  unfold revokeIf
  split <;> rfl

@[simp] theorem familyId_revokeIf : (m.revokeIf p at').familyId = m.familyId := by
  unfold revokeIf
  split <;> rfl

@[simp] theorem expiresAt_revokeIf : (m.revokeIf p at').expiresAt = m.expiresAt := by
  unfold revokeIf
  split <;> rfl

theorem revokedAt_revokeIf : (m.revokeIf p at').revokedAt = none ↔
    m.revokedAt = none ∧ p m = false := by
  unfold revokeIf
  split <;> simp_all

end RefreshTokenModel

namespace Database

/-- The effect of a bulk revocation. -/
def revoke (db : Database) (scope : Scope) (at' : Instant) : Database :=
  db.revokeRows (db.selected scope) at'

/-- The effect of writing one row of `users`. -/
def setPassword (db : Database) (id : UUID) (hashed : Str) : Database :=
  ⟨db.users.updateWhere (fun m => m.id = id) (fun m => { m with hashedPassword := hashed })
    fun _ => rfl, db.refreshTokens⟩

theorem mem_selected {db : Database} (scope : Scope) {m : RefreshTokenModel}
    (hm : m ∈ db.refreshTokens.rows) : m.jti ∈ db.selected scope ↔ scope.selects m = true := by
  unfold selected
  rw [List.mem_map]
  constructor
  · rintro ⟨m', hm', hjti⟩
    rw [List.mem_filter] at hm'
    rw [← db.refreshTokens.eq_of_key_eq hm'.1 hm hjti]
    exact hm'.2
  · exact fun h => ⟨m, List.mem_filter.mpr ⟨hm, h⟩, rfl⟩

/-- **A bulk revocation sets `revoked_at` of the rows its `WHERE` selects.** -/
theorem rows_revoke (db : Database) (scope : Scope) (at' : Instant) :
    (db.revoke scope at').refreshTokens.rows =
      db.refreshTokens.rows.map (.revokeIf scope.selects at') := by
  refine List.map_congr_left fun m hm => ?_
  have hiff := mem_selected scope hm
  by_cases h : scope.selects m = true
  · simp [RefreshTokenModel.revokeIf, h, hiff.mpr h]
  · simp [RefreshTokenModel.revokeIf, h, mt hiff.mp h]

/-- Revoking one record by writing its row. -/
theorem rows_revokeRows_singleton (db : Database) (jti : UUID) (at' : Instant) :
    (db.revokeRows [jti] at').refreshTokens.rows =
      db.refreshTokens.rows.map (.revokeIf (fun m => m.jti = jti) at') := by
  refine List.map_congr_left fun m _ => ?_
  simp [RefreshTokenModel.revokeIf]

end Database

/-- The rows of `db'` are those of `db`, with the records revoked that `p`
selects, and then the rows `new`. -/
def Database.Extends (db db' : Database) (p : RefreshTokenModel → Bool) (at' : Instant)
    (new : List RefreshTokenModel) : Prop :=
  db'.refreshTokens.rows = db.refreshTokens.rows.map (.revokeIf p at') ++ new

namespace Database.Extends

variable {db db' : Database} {p : RefreshTokenModel → Bool} {at' : Instant}
  {new : List RefreshTokenModel}

/-- Rows that were only appended to. -/
theorem of_append (h : db'.refreshTokens.rows = db.refreshTokens.rows ++ new) :
    db.Extends db' (fun _ => false) 0 new := by
  have hmap : db.refreshTokens.rows.map (.revokeIf (fun _ => false) 0) = db.refreshTokens.rows :=
    (List.map_congr_left fun _ _ => by simp [RefreshTokenModel.revokeIf]).trans (List.map_id _)
  rw [Extends, hmap, h]

theorem of_revoke (db : Database) (scope : Scope) (at' : Instant) :
    db.Extends (db.revoke scope at') scope.selects at' [] := by
  rw [Extends, Database.rows_revoke, List.append_nil]

theorem mem_iff (h : db.Extends db' p at' new) {m : RefreshTokenModel} :
    m ∈ db'.refreshTokens.rows ↔
      (∃ m₀ ∈ db.refreshTokens.rows, m₀.revokeIf p at' = m) ∨ m ∈ new := by
  rw [h, List.mem_append, List.mem_map]

theorem kept (h : db.Extends db' p at' new) {m : RefreshTokenModel}
    (hm : m ∈ db.refreshTokens.rows) : m.revokeIf p at' ∈ db'.refreshTokens.rows :=
  h.mem_iff.mpr (.inl ⟨m, hm, rfl⟩)

end Database.Extends

/-! ### What is issued -/

namespace Env

/-- A refresh token issued at an instant. -/
def refreshToken (env : Env) (at' : Instant) (userId jti : UUID) : IssuedToken :=
  JwtTokenService.refreshToken env.settings at' (UserId.mk userId).str jti

/-- An access token issued at an instant. -/
def accessToken (env : Env) (at' : Instant) (userId id : UUID) : Token :=
  JwtTokenService.accessToken env.settings at' id (UserId.mk userId).str

/-- The record stored for a refresh token issued at an instant. -/
def record (env : Env) (at' : Instant) (userId jti familyId : UUID) : RefreshTokenModel :=
  { jti, userId, familyId, expiresAt := .aware (env.refreshToken at' userId jti).expiresAt,
    revokedAt := none }

end Env

/-! ### Settled worlds -/

/-- `x` is among the first `n` ids drawn. -/
def Env.Drawn (env : Env) (n : ℕ) (x : UUID) : Prop := ∃ k < n, x = env.uuid k

theorem Env.Drawn.mono {env : Env} {n n' : ℕ} {x : UUID} (h : env.Drawn n x) (hle : n ≤ n') :
    env.Drawn n' x := by
  obtain ⟨k, hk, rfl⟩ := h
  exact ⟨k, by omega, rfl⟩

section settled

variable [Unicode]

/-- No transaction is open, every user row is one the mapper wrote, and the ids
in use are among those drawn. -/
structure Settled (env : Env) (w : World) : Prop where
  statements : w.statements = []
  readable : ∀ m ∈ w.db.users.rows, ∃ u : User, m = UserMapper.toModel u
  emails : (w.db.users.rows.map (·.email)).Nodup
  userIds : ∀ m ∈ w.db.users.rows, env.Drawn w.ids m.id
  jtis : ∀ m ∈ w.db.refreshTokens.rows, env.Drawn w.ids m.jti
  families : ∀ m ∈ w.db.refreshTokens.rows, env.Drawn w.ids m.familyId

end settled

/-- A step that only reads the clock and draws ids and salts. -/
structure Unchanged (w w' : World) : Prop where
  db : w'.db = w.db
  statements : w'.statements = w.statements
  issued : w'.issued = w.issued
  ticks : w.ticks ≤ w'.ticks
  ids : w.ids ≤ w'.ids

namespace Unchanged

variable {w w' w'' : World}

theorem refl (w : World) : Unchanged w w := ⟨rfl, rfl, rfl, le_rfl, le_rfl⟩

theorem tick (w : World) : Unchanged w w.tick := ⟨rfl, rfl, rfl, Nat.le_succ _, le_rfl⟩

theorem drawId (w : World) : Unchanged w w.drawId := ⟨rfl, rfl, rfl, le_rfl, Nat.le_succ _⟩

theorem drawSalt (w : World) : Unchanged w w.drawSalt := ⟨rfl, rfl, rfl, le_rfl, le_rfl⟩

theorem trans (h : Unchanged w w') (h' : Unchanged w' w'') : Unchanged w w'' where
  db := h'.db.trans h.db
  statements := h'.statements.trans h.statements
  issued := h'.issued.trans h.issued
  ticks := h.ticks.trans h'.ticks
  ids := h.ids.trans h'.ids

end Unchanged

/-- An id drawn later is none of those in use. -/
theorem Env.NoRepeat.ne {env : Env} {n k l : ℕ} {x : UUID} (h : env.NoRepeat n) (hl : l < n)
    (hkl : k ≤ l) (hx : env.Drawn k x) : x ≠ env.uuid l := by
  obtain ⟨j, hj, rfl⟩ := hx
  intro heq
  have := h j (by omega) l hl heq
  omega

/-- A row whose key is drawn later can be inserted. -/
theorem Env.NoRepeat.insert_ne_none {env : Env} {R : Type} {key : R → UUID} {t : Table key}
    {n k l : ℕ} {r : R} (h : env.NoRepeat n) (hl : l < n) (hkl : k ≤ l)
    (ht : ∀ m ∈ t.rows, env.Drawn k (key m)) (hr : key r = env.uuid l) : t.insert r ≠ none := by
  intro hinsert
  obtain ⟨m, hm, hid⟩ := Table.insert_eq_none.mp hinsert
  exact h.ne hl hkl (ht m hm) (hid.trans hr)

section world

variable {w : World}

@[simp] theorem World.view_of_nil (h : w.statements = []) (sid : ℕ) : w.view sid = w.db := by
  simp [view, statementsOf, h, Database.after]

@[simp] theorem World.close_of_nil (h : w.statements = []) (sid : ℕ) : w.close sid = w := by
  cases w
  simp_all [close]

@[simp] theorem World.view_tick (sid : ℕ) : w.tick.view sid = w.view sid := rfl

end world

/-- With distinct addresses, one row has the address of `m`. -/
theorem filter_email {rows : List UserModel} {m : UserModel}
    (hdistinct : (rows.map (·.email)).Nodup) (hm : m ∈ rows) :
    (rows.filter fun m' => m'.email = m.email) = [m] := by
  have hsame : ∀ m' ∈ rows, decide (m'.email = m.email) = decide (m' = m) := by
    intro m' hm'
    simp only [decide_eq_decide]
    exact ⟨fun h => List.inj_on_of_nodup_map hdistinct hm' hm h, congrArg _⟩
  rw [List.filter_congr hsame, List.filter_eq, List.count_eq_one_of_mem hdistinct.of_map hm]
  rfl

/-! ### Sessions of one request -/

namespace Session

/-- The session that has changed one user. -/
def ofUser (t : Tracked UserModel) : Session := ⟨[t], [], [], []⟩

/-- The session that has changed one record. -/
def ofRefreshToken (t : Tracked RefreshTokenModel) : Session := ⟨[], [t], [], []⟩

theorem selectUserByEmail_none {d : Dialect} {db : Database} {s : Session} {email : Str}
    (h : ∀ m ∈ db.users.rows, m.email ≠ email) : s.selectUserByEmail d db email = .ok none := by
  rw [selectUserByEmail, List.filter_eq_nil_iff.mpr (by simpa using h)]

/-- With distinct addresses, a lookup by address finds the one row. -/
theorem selectUserByEmail_some (d : Dialect) {db : Database} {m : UserModel}
    (hdistinct : (db.users.rows.map (·.email)).Nodup) (hm : m ∈ db.users.rows) :
    empty.selectUserByEmail d db m.email = .ok (some (d.readUser m)) := by
  simp only [selectUserByEmail, filter_email hdistinct hm, getUser_empty, Table.get_key hm,
    Option.map_some]

end Session

namespace Database

/-- A user with a new id and a new address can be inserted. -/
theorem insertUser_ok {db : Database} {m : UserModel} {users : Table UserModel.id}
    (hinsert : db.users.insert m = some users) (hnew : ∀ m' ∈ db.users.rows, m'.email ≠ m.email) :
    db.insertUser m = .ok ⟨users, db.refreshTokens⟩ := by
  simp only [insertUser, hinsert, List.any_eq_true, decide_eq_true_eq]
  rw [if_neg]
  rintro ⟨m', hm', hemail⟩
  exact hnew m' hm' hemail

theorem insertRefreshToken_none {db : Database} {m : RefreshTokenModel}
    (hinsert : db.refreshTokens.insert m = none) :
    db.insertRefreshToken m = .error (.integrity .pkRefreshTokens) := by
  simp only [insertRefreshToken, hinsert]

/-- A record with a new id, of a user that exists, can be inserted. -/
theorem insertRefreshToken_ok {db : Database} {m : RefreshTokenModel} {u : UserModel}
    {tokens : Table RefreshTokenModel.jti} (hinsert : db.refreshTokens.insert m = some tokens)
    (hu : u ∈ db.users.rows) (hid : u.id = m.userId) :
    db.insertRefreshToken m = .ok ⟨db.users, tokens⟩ := by
  simp only [insertRefreshToken, hinsert, ← hid, Table.get_key hu, reduceCtorEq, if_false]

end Database

@[simp] theorem Session.flush_empty (db : Database) : empty.flush db = .ok db := rfl

@[simp] theorem Session.synchronize_empty (scope : Scope) (at' : Instant) :
    empty.synchronize scope at' = empty := rfl

@[simp] theorem Session.flush_addRefreshToken (db : Database) (r : RefreshTokenModel) :
    (empty.addRefreshToken r).flush db = db.insertRefreshToken r := by
  simp only [flush, addRefreshToken, empty, List.foldlM_cons, List.foldlM_nil, List.nil_append,
    bind_pure, pure_bind]

@[simp] theorem Session.flush_ofUser (db : Database) (t : Tracked UserModel) :
    (ofUser t).flush db = db.updateUser t := by
  simp only [flush, ofUser, List.foldlM_cons, List.foldlM_nil, bind_pure]

@[simp] theorem Session.flush_rotation (db : Database) (t : Tracked RefreshTokenModel)
    (r : RefreshTokenModel) : ((ofRefreshToken t).addRefreshToken r).flush db =
      (db.updateRefreshToken t).bind fun db => db.insertRefreshToken r := by
  simp only [flush, addRefreshToken, ofRefreshToken, List.foldlM_cons, List.foldlM_nil,
    List.nil_append, bind_pure, pure_bind]
  rfl

/-- **Writing a record back that was revoked** revokes its row, whatever the row is by
then, unless it was loaded as revoked at that very instant. -/
theorem Database.updateRefreshToken_revoke (db : Database) (d : Dialect) (m : RefreshTokenModel)
    {record : RefreshTokenRecord} {at' : Instant} (hrevoke : record.revokedAt = some at') :
    db.updateRefreshToken ⟨d.readRefreshToken m,
      RefreshTokenMapper.applyToModel record (d.readRefreshToken m)⟩ =
      if (d.readRefreshToken m).revokedAt = some (.aware at') then .ok db
      else if db.refreshTokens.get m.jti = none then .error .staleData
      else .ok (db.revokeRows [m.jti] at') := by
  have hjti : (d.readRefreshToken m).jti = m.jti := rfl
  have hcurrent : (RefreshTokenMapper.applyToModel record (d.readRefreshToken m)).revokedAt =
      some (.aware at') := by
    rw [RefreshTokenMapper.applyToModel, hrevoke]
    rfl
  unfold updateRefreshToken
  by_cases hsame : (d.readRefreshToken m).revokedAt = some (.aware at')
  · rw [if_pos hsame, if_pos]
    rw [RefreshTokenMapper.applyToModel, hrevoke, Option.map_some, ← hsame]
  · rw [if_neg hsame, if_neg]
    · refine if_congr Iff.rfl rfl (congrArg Except.ok ?_)
      unfold revokeRows
      congr 1
      refine Table.ext (List.map_congr_left fun m' _ => ?_)
      simp [Tracked.writeRefreshToken, Ne.symm hsame, RefreshTokenMapper.applyToModel, hjti,
        hrevoke]
    · intro heq
      exact hsame (congrArg RefreshTokenModel.revokedAt heq ▸ hcurrent)

/-- Writing a user whose password was changed sets the hash of its row. -/
theorem Database.updateUser_changePassword [Unicode] {db : Database} (d : Dialect) {u : User}
    (hu : UserMapper.toModel u ∈ db.users.rows) (hp : HashedPassword) :
    db.updateUser ⟨d.readUser (UserMapper.toModel u), UserMapper.applyToModel
      ({ u with events := [] }.changePassword hp) (d.readUser (UserMapper.toModel u))⟩ =
      .ok (db.setPassword u.id.value hp.value) := by
  have hrow : ∀ m ∈ db.users.rows, m.id = u.id.value → m = UserMapper.toModel u :=
    fun m hm hid => db.users.eq_of_key_eq hm hu hid
  unfold updateUser
  by_cases hsame : hp.value = u.hashedPassword.value
  · -- the columns are as they were, and nothing is written
    rw [if_pos]
    · have hrows : (db.setPassword u.id.value hp.value).users = db.users := by
        refine Table.ext ((List.map_congr_left fun m hm => ?_).trans (List.map_id _))
        by_cases hid : m.id = u.id.value
        · rw [hrow m hm hid]
          simp [UserMapper.toModel, hsame]
        · simp [hid]
      exact congrArg (fun users => Except.ok (Database.mk users db.refreshTokens)) hrows.symm
    · simp [UserMapper.applyToModel, User.changePassword, Dialect.readUser, UserMapper.toModel,
        hsame]
  · rw [if_neg, if_neg, if_neg]
    · refine congrArg Except.ok ?_
      unfold setPassword
      congr 1
      refine Table.ext (List.map_congr_left fun m _ => ?_)
      by_cases hid : m.id = u.id.value <;>
        simp [Tracked.writeUser, UserMapper.applyToModel, User.changePassword, Dialect.readUser,
          UserMapper.toModel, hsame, hid]
    · simp [UserMapper.applyToModel, User.changePassword, Dialect.readUser, UserMapper.toModel]
    · have hget := Table.get_key hu
      simp only [UserMapper.applyToModel, Dialect.readUser]
      rw [hget]
      simp
    · intro heq
      exact hsame (congrArg UserModel.hashedPassword heq)

/-! ### Commits -/

section handlers

variable [Unicode] {env : Env} {w : World}

omit [Unicode] in
theorem execCommit_of_flush {s : Session} {db : Database} (hw : w.statements = [])
    (h : s.flush w.db = .ok db) :
    execCommit env 0 s w = (.ok (), .empty, { w with db }) := by
  simp only [execCommit, World.view_of_nil hw, h, World.close_of_nil hw]

omit [Unicode] in
theorem execCommit_of_flush_error {s : Session} {e : Exc} (hw : w.statements = [])
    (h : s.flush w.db = .error e) :
    execCommit env 0 s w = (.error (translateCommitError env.dialect e), .empty, w) := by
  simp only [execCommit, World.view_of_nil hw, h, World.close_of_nil hw]

/-- Updating a user reads their row once more. -/
theorem exec_usersUpdate {sid : ℕ} {m : UserModel} {user : User}
    (h : (w.view sid).users.get user.id.value = some m) :
    exec env sid (.usersUpdate user) (.empty, w) =
      (.ok (), .ofUser ⟨env.dialect.readUser m,
        UserMapper.applyToModel user (env.dialect.readUser m)⟩, w) := by
  simp only [exec, Session.getUser_empty, h, Option.map_some]
  rfl

omit [Unicode] in
/-- The commit of a bulk revocation, and of what else was staged. -/
theorem execCommit_bulk {s : Session} {db : Database} {scope : Scope} {at' : Instant}
    (hw : w.statements = [])
    (h : (s.synchronize scope at').flush (w.db.revoke scope at') = .ok db) :
    execCommit env 0 (execBulk 0 scope at' s w).1 (execBulk 0 scope at' s w).2 =
      (.ok (), .empty, { w with db }) := by
  have hview : (execBulk 0 scope at' s w).2.view 0 = w.db.revoke scope at' := by
    simp [execBulk, World.view, World.statementsOf, hw, Database.after, Database.revoke]
  have hclose : (execBulk 0 scope at' s w).2.close 0 = w := by
    cases w
    simp_all [execBulk, World.close]
  unfold execCommit
  rw [hview, hclose, show (execBulk 0 scope at' s w).1 = s.synchronize scope at' from rfl, h]

/-- Committing after a bulk revocation. -/
theorem ends_commit_bulk {α : Type} {s : Session} {db : Database} {scope : Scope} {at' : Instant}
    {k : Unit → Handler α} {Q : Except Exc α → Session × World → Prop} (hw : w.statements = [])
    (h : (s.synchronize scope at').flush (w.db.revoke scope at') = .ok db)
    (hk : (k ()).Ends (exec env 0) (.empty, { w with db }) Q) :
    (Prog.call .commit k).Ends (exec env 0) (execBulk 0 scope at' s w) Q := by
  rw [Prog.ends_call_ok (execCommit_bulk hw h)]
  exact hk

/-- Revoking a family and committing, in a session that has changed nothing. -/
theorem ends_revokeFamily {α : Type} {f : UUID} {at' : Instant} {k : Unit → Handler α}
    {Q : Except Exc α → Session × World → Prop} (hw : w.statements = [])
    (hk : (k ()).Ends (exec env 0) (.empty, { w with db := w.db.revoke (.family f) at' }) Q) :
    (Prog.call (.refreshTokensRevokeFamily f at') fun _ => Prog.call .commit k).Ends
      (exec env 0) (.empty, w) Q := by
  rw [Prog.ends_call_ok (by rfl)]
  exact ends_commit_bulk hw (Session.flush_empty _) hk

/-- Updating a record reads its row once more. -/
theorem exec_refreshTokensUpdate {sid : ℕ} {m : RefreshTokenModel} {record : RefreshTokenRecord}
    (h : (w.view sid).refreshTokens.get record.jti = some m) :
    exec env sid (.refreshTokensUpdate record) (.empty, w) =
      (.ok (), .ofRefreshToken ⟨env.dialect.readRefreshToken m,
        RefreshTokenMapper.applyToModel record (env.dialect.readRefreshToken m)⟩, w) := by
  simp only [exec, Session.getRefreshToken_empty, h, Option.map_some]
  rfl

/-- An execution ends with what its handler ends with, its session closed. -/
theorem execute_of_ends {command : Command} (Q : Except Exc Response → World → Prop)
    (h : command.execute.Ends (exec env 0) (.empty, w) fun r x => Q r (x.2.close 0)) :
    Q (execute env command w).1 (execute env command w).2 := h

omit [Unicode] in
theorem Unchanged.close {w' : World} (h : Unchanged w w') (hw : w.statements = []) :
    Unchanged w (w'.close 0) := by
  rwa [World.close_of_nil (h.statements.trans hw)]

/-! ### Registration -/

/-- The ways `CreateUserHandler.execute` ends. -/
inductive CreateUserOutcome (env : Env) (w : World) (c : CreateUserCommand) :
    Except Exc Response → World → Prop
  /-- The address or the hash is invalid, or the address is taken. -/
  | refused {e : Exc} {w' : World} : Unchanged w w' → CreateUserOutcome env w c (.error e) w'
  /-- The user is stored; the result is up to the subscribers of the event. -/
  | created {u : User} {users : Table UserModel.id} :
    Email.ofStr c.email = .ok u.email → (∀ m ∈ w.db.users.rows, m.email ≠ u.email.value) →
    u.id.value = env.uuid w.ids → u.hashedPassword.value = env.hash w.salts c.password →
    u.isActive = true → w.db.users.insert (UserMapper.toModel u) = some users →
    CreateUserOutcome env w c
      ((env.dispatcher.dispatch u.events).map fun _ =>
          .userView ⟨u.id.value, u.email.value, true, .aware u.createdAt⟩)
      { w with db := ⟨users, w.db.refreshTokens⟩, ticks := w.ticks + 1, ids := w.ids + 1,
               salts := w.salts + 1, dispatched := w.dispatched ++ u.events }

theorem createUser_outcome (hw : Settled env w) (c : CreateUserCommand)
    (hfresh : env.NoRepeat (execute env (.createUser c) w).2.ids) :
    CreateUserOutcome env w c (execute env (.createUser c) w).1
      (execute env (.createUser c) w).2 := by
  revert hfresh
  refine execute_of_ends (fun r w' => env.NoRepeat w'.ids → CreateUserOutcome env w c r w') ?_
  simp only [Command.execute, Prog.ends_map, CreateUserHandler.execute]
  rcases hemail : Email.ofStr c.email with e | email
  · exact fun _ => .refused ((Unchanged.refl w).close hw.statements)
  simp only [Prog.op_bind, Prog.ends_call, exec, World.view_of_nil hw.statements]
  split
  · exact fun _ => .refused ((Unchanged.refl w).close hw.statements)
  next hexists =>
  simp only [Prog.ends_call, exec]
  rcases hhash : HashedPassword.ofStr (env.hash w.drawId.salts c.password) with e | hashed
  · exact fun _ =>
      .refused (((Unchanged.drawId w).trans (.drawSalt _)).close hw.statements)
  simp only [Prog.ends_call, exec]
  -- the user is added and committed before its event is dispatched
  generalize hu : User.create ⟨w.freshId env⟩ email hashed (w.drawId.drawSalt.now env) = u
  have hnew : ∀ m ∈ w.db.users.rows, m.email ≠ u.email.value := by
    subst hu
    simpa [User.create] using hexists
  have hstatements : w.drawId.drawSalt.tick.statements = [] := hw.statements
  rcases hinsert : w.db.users.insert (UserMapper.toModel u) with _ | users
  · -- a fresh id is not in the table
    have hflush : (Session.empty.addUser (UserMapper.toModel u)).flush w.db =
        .error (.integrity .pkUsers) := by
      simp [Session.flush, Session.addUser, Session.empty, Database.insertUser, hinsert]
    rw [execCommit_of_flush_error hstatements hflush]
    intro hfresh
    refine absurd hinsert (hfresh.insert_ne_none (Nat.lt_succ_self _) le_rfl hw.userIds ?_)
    subst hu
    rfl
  · have hflush : (Session.empty.addUser (UserMapper.toModel u)).flush w.db =
        .ok ⟨users, w.db.refreshTokens⟩ := by
      simp [Session.flush, Session.addUser, Session.empty, Database.insertUser_ok hinsert hnew]
    rw [execCommit_of_flush hstatements hflush]
    have hcreated : CreateUserOutcome env w c _ _ := @CreateUserOutcome.created _ env w c u users
      (by subst hu; exact hemail) hnew (by subst hu; rfl)
      (by subst hu; exact HashedPassword.ofStr_eq_ok.mp hhash) (by subst hu; rfl) hinsert
    have hevents : u.pullEvents.1 = u.events := rfl
    rw [hevents]
    rcases hd : env.dispatcher.dispatch u.events with e | _
    · intro _
      rw [hd] at hcreated
      rw [World.close_of_nil (by exact hw.statements)]
      exact hcreated
    · intro _
      rw [hd] at hcreated
      rw [World.close_of_nil (by exact hw.statements)]
      subst hu
      exact hcreated

/-! ### Login -/

/-- The checks of `LoginHandler.execute`, which user `u` passes. -/
structure LoginAccepts (env : Env) (w : World) (c : LoginCommand) (u : User) : Prop where
  email : Email.ofStr c.email = .ok u.email
  stored : UserMapper.toModel u ∈ w.db.users.rows
  active : u.isActive = true
  password : env.verify c.password u.hashedPassword.value = true

/-- The ways `LoginHandler.execute` ends. -/
inductive LoginOutcome (env : Env) (w : World) (c : LoginCommand) :
    Except Exc Response → World → Prop
  /-- No user passes the checks. -/
  | refused {w' : World} : (∀ u, ¬ LoginAccepts env w c u) → Unchanged w w' →
    LoginOutcome env w c (.error (.domain .invalidCredentials)) w'
  /-- A family is opened. -/
  | opened {u : User} {tokens : Table RefreshTokenModel.jti} : LoginAccepts env w c u →
    w.db.refreshTokens.insert
      (env.record (env.clock w.ticks) u.id.value (env.uuid w.ids) (env.uuid (w.ids + 1))) =
        some tokens →
    LoginOutcome env w c
      (.ok (.tokenPair {
        accessToken := env.accessToken (env.clock (w.ticks + 1)) u.id.value (env.uuid (w.ids + 2))
        refreshToken := (env.refreshToken (env.clock w.ticks) u.id.value (env.uuid w.ids)).token }))
      { w with
        db := ⟨w.db.users, tokens⟩, ticks := w.ticks + 2, ids := w.ids + 3
        issued := env.accessToken (env.clock (w.ticks + 1)) u.id.value (env.uuid (w.ids + 2)) ::
          (env.refreshToken (env.clock w.ticks) u.id.value (env.uuid w.ids)).token :: w.issued }

theorem login_outcome (hw : Settled env w) (c : LoginCommand)
    (hfresh : env.NoRepeat (execute env (.login c) w).2.ids) :
    LoginOutcome env w c (execute env (.login c) w).1 (execute env (.login c) w).2 := by
  revert hfresh
  refine execute_of_ends (fun r w' => env.NoRepeat w'.ids → LoginOutcome env w c r w') ?_
  simp only [Command.execute, Prog.ends_map, LoginHandler.execute]
  have hsame : Unchanged w (w.close 0) := (Unchanged.refl w).close hw.statements
  have hsalt : Unchanged w (w.drawSalt.close 0) := (Unchanged.drawSalt w).close hw.statements
  rcases hemail : Email.ofStr c.email with e | email
  · refine fun _ => .refused (fun u hu => ?_) hsame
    cases hemail.symm.trans hu.email
  simp only [Prog.op_bind, Prog.ends_call, exec, World.view_of_nil hw.statements]
  by_cases hfound : ∃ m ∈ w.db.users.rows, m.email = email.value
  swap
  · have hnone : ∀ m ∈ w.db.users.rows, m.email ≠ email.value := fun m hm he => hfound ⟨m, hm, he⟩
    rw [Session.selectUserByEmail_none hnone]
    refine fun _ => .refused (fun u hu => ?_) hsalt
    have := Except.ok.inj (hemail.symm.trans hu.email)
    exact hnone _ hu.stored (by rw [this]; rfl)
  obtain ⟨m, hm, he⟩ := hfound
  obtain ⟨u, rfl⟩ := hw.readable m hm
  -- whoever passes the checks has the row that was found
  have hrow : ∀ u', LoginAccepts env w c u' → UserMapper.toModel u' = UserMapper.toModel u := by
    intro u' hu'
    have hemail' := Except.ok.inj (hemail.symm.trans hu'.email)
    refine List.inj_on_of_nodup_map hw.emails hu'.stored hm ?_
    rw [he, hemail']
    rfl
  have hemailu : Email.ofStr c.email = .ok u.email := hemail.trans (congrArg _ (Email.ext he.symm))
  have hselect := Session.selectUserByEmail_some env.dialect hw.emails hm
  rw [he] at hselect
  simp only [hselect, userOfModel, UserMapper.toDomain_toModel, ofDomain, Except.map]
  by_cases hactive : u.isActive = true
  swap
  · simp only [hactive]
    refine fun _ => .refused (fun u' hu' => hactive ?_) hsalt
    rw [← hu'.active]
    exact (congrArg UserModel.isActive (hrow u' hu')).symm
  -- the account is active: the one call of the hasher is `verify`
  simp only [hactive, Bool.not_true, Bool.false_eq_true, if_false, Prog.ends_call, exec]
  by_cases hverify : env.verify c.password u.hashedPassword.value = true
  swap
  · simp only [hverify]
    refine fun _ => .refused (fun u' hu' => hverify ?_) hsame
    have hhash : u'.hashedPassword.value = u.hashedPassword.value :=
      congrArg UserModel.hashedPassword (hrow u' hu')
    rw [← hhash]
    exact hu'.password
  -- a family is opened with one record
  simp only [hverify, Bool.not_true, Bool.false_eq_true, if_false, Prog.ends_call, exec]
  generalize hr : env.record (env.clock w.ticks) u.id.value (env.uuid w.ids)
    (env.uuid (w.ids + 1)) = r
  have hflush := Session.flush_addRefreshToken w.db r
  rcases hinsert : w.db.refreshTokens.insert r with _ | tokens
  · -- a fresh id is not in the table
    rw [Database.insertRefreshToken_none hinsert] at hflush
    subst hr
    rw [execCommit_of_flush_error (by exact hw.statements) (by exact hflush)]
    intro (hfresh : env.NoRepeat (w.ids + 2))
    exact absurd hinsert (hfresh.insert_ne_none (by omega) le_rfl hw.jtis rfl)
  · rw [Database.insertRefreshToken_ok hinsert hm (by subst hr; rfl)] at hflush
    subst hr
    rw [execCommit_of_flush (by exact hw.statements) (by exact hflush)]
    intro _
    rw [World.close_of_nil (by exact hw.statements)]
    exact .opened ⟨hemailu, hm, hactive, hverify⟩ hinsert

/-! ### Refresh -/

theorem World.isInvalidToken_of_decode_error {t : Token} {e : DomainError}
    (h : w.decode env t = .error e) : e.IsInvalidToken := by
  unfold World.decode at h
  split at h
  · exact JwtTokenService.isInvalidToken_of_decode_error _ h
  · cases h
    trivial

/-- `t` is a refresh token that `decode` accepts, and its record is stored. -/
structure Presents (env : Env) (w : World) (t : Token) (p : TokenPayload) (m : RefreshTokenModel) :
    Prop where
  decoded : w.decode env t = .ok p
  type : p.tokenType = .refresh
  stored : w.db.refreshTokens.get p.tokenId = some m

/-- The checks of `RefreshTokenHandler.execute`. -/
structure RefreshChecks (env : Env) (w : World) (t : Token) (p : TokenPayload)
    (m : RefreshTokenModel) (u : User) : Prop extends Presents env w t p m where
  live : m.revokedAt = none
  unexpired : env.clock (w.ticks + 1) < asUtc m.expiresAt
  subject : UserId.fromStr p.subject = .ok u.id
  user : UserMapper.toModel u ∈ w.db.users.rows
  active : u.isActive = true

theorem Presents.eq {t : Token} {p p' : TokenPayload} {m m' : RefreshTokenModel}
    (h : Presents env w t p m) (h' : Presents env w t p' m') : p' = p ∧ m' = m := by
  obtain rfl : p' = p := Except.ok.inj (h'.decoded.symm.trans h.decoded)
  exact ⟨rfl, Option.some.inj (h'.stored.symm.trans h.stored)⟩

/-- `t` is not a refresh token with a stored record. -/
def Unknown (env : Env) (w : World) (t : Token) : Prop := ∀ p m, ¬ Presents env w t p m

theorem unknown_of_decode_error {t : Token} {e : DomainError} (h : w.decode env t = .error e) :
    Unknown env w t := by
  intro p m hp
  cases h.symm.trans hp.decoded

theorem unknown_of_type {t : Token} {p : TokenPayload} (h : w.decode env t = .ok p)
    (htype : p.tokenType ≠ .refresh) : Unknown env w t := by
  intro p' m hp
  obtain rfl : p' = p := Except.ok.inj (hp.decoded.symm.trans h)
  exact htype hp.type

theorem unknown_of_get {t : Token} {p : TokenPayload} (h : w.decode env t = .ok p)
    (hget : w.db.refreshTokens.get p.tokenId = none) : Unknown env w t := by
  intro p' m hp
  obtain rfl : p' = p := Except.ok.inj (hp.decoded.symm.trans h)
  cases hget.symm.trans hp.stored

/-- The ways `RefreshTokenHandler.execute` ends. -/
inductive RefreshOutcome (env : Env) (w : World) (t : Token) : Except Exc Response → World → Prop
  /-- A check fails, and the record is not a revoked one. -/
  | refused {e : DomainError} {w' : World} : (∀ p m u, ¬ RefreshChecks env w t p m u) →
    (∀ p m, Presents env w t p m → m.revokedAt = none) → e.IsInvalidToken → Unchanged w w' →
    RefreshOutcome env w t (.error (.domain e)) w'
  /-- Reuse of a revoked record is detected. -/
  | replayed {p : TokenPayload} {m : RefreshTokenModel} : Presents env w t p m →
    m.revokedAt ≠ none →
    RefreshOutcome env w t (.error (.domain .invalidToken))
      { w with db := w.db.revoke (.family m.familyId) (env.clock (w.ticks + 1))
               ticks := w.ticks + 2 }
  /-- The record is rotated. -/
  | rotated {p : TokenPayload} {m : RefreshTokenModel} {u : User}
    {tokens : Table RefreshTokenModel.jti} : RefreshChecks env w t p m u →
    (w.db.revokeRows [m.jti] (env.clock (w.ticks + 1))).refreshTokens.insert
      (env.record (env.clock (w.ticks + 2)) u.id.value (env.uuid w.ids) m.familyId) = some tokens →
    RefreshOutcome env w t
      (.ok (.tokenPair {
        accessToken := env.accessToken (env.clock (w.ticks + 3)) u.id.value (env.uuid (w.ids + 1))
        refreshToken :=
          (env.refreshToken (env.clock (w.ticks + 2)) u.id.value (env.uuid w.ids)).token }))
      { w with
        db := ⟨w.db.users, tokens⟩, ticks := w.ticks + 4, ids := w.ids + 2
        issued := env.accessToken (env.clock (w.ticks + 3)) u.id.value (env.uuid (w.ids + 1)) ::
          (env.refreshToken (env.clock (w.ticks + 2)) u.id.value (env.uuid w.ids)).token ::
            w.issued }

namespace RefreshOutcome

variable {t : Token} {e : DomainError} {w' : World}

theorem of_unknown (h : Unknown env w t) (he : e.IsInvalidToken) (hw' : Unchanged w w') :
    RefreshOutcome env w t (.error (.domain e)) w' :=
  .refused (fun p m _ hchecks => h p m hchecks.toPresents) (fun p m hp => absurd hp (h p m)) he hw'

/-- The token has one record: it is enough that this one is live and fails a check. -/
theorem of_presents {p : TokenPayload} {m : RefreshTokenModel} (hp : Presents env w t p m)
    (hlive : m.revokedAt = none) (hno : ∀ u, ¬ RefreshChecks env w t p m u)
    (he : e.IsInvalidToken) (hw' : Unchanged w w') :
    RefreshOutcome env w t (.error (.domain e)) w' := by
  refine .refused (fun p' m' u h => ?_) (fun p' m' h => ?_) he hw'
  · obtain ⟨rfl, rfl⟩ := hp.eq h.toPresents
    exact hno u h
  · obtain ⟨rfl, rfl⟩ := hp.eq h
    exact hlive

end RefreshOutcome

theorem refresh_outcome (hw : Settled env w) (c : RefreshTokenCommand)
    (hfresh : env.NoRepeat (execute env (.refreshToken c) w).2.ids) :
    RefreshOutcome env w c.refreshToken (execute env (.refreshToken c) w).1
      (execute env (.refreshToken c) w).2 := by
  revert hfresh
  refine execute_of_ends
    (fun r w' => env.NoRepeat w'.ids → RefreshOutcome env w c.refreshToken r w') ?_
  simp only [Command.execute, Prog.ends_map, RefreshTokenHandler.execute]
  have hstatements := hw.statements
  have htick : Unchanged w (w.tick.close 0) := (Unchanged.tick w).close hstatements
  -- the token, and the record it names
  simp only [Prog.op_bind, Prog.ends_call, exec]
  rcases hdecode : w.decode env c.refreshToken with e | p
  · exact fun _ => .of_unknown (unknown_of_decode_error hdecode)
      (World.isInvalidToken_of_decode_error hdecode) htick
  simp only [ofDomain]
  by_cases htype : p.tokenType = .refresh
  swap
  · rw [if_pos htype]
    exact fun _ => .of_unknown (unknown_of_type hdecode htype) trivial htick
  rw [if_neg (not_not.mpr htype)]
  simp only [Prog.ends_call, exec, World.view_tick, World.view_of_nil hstatements,
    Session.getRefreshToken_empty]
  rcases hstored : w.db.refreshTokens.get p.tokenId with _ | m
  · exact fun _ => .of_unknown (unknown_of_get hdecode hstored) trivial htick
  have hp : Presents env w c.refreshToken p m := ⟨hdecode, htype, hstored⟩
  obtain ⟨hm, -⟩ := Table.get_eq_some.mp hstored
  simp only [Prog.ends_call, exec, Option.map_some, RefreshTokenMapper.isRevoked_toDomain]
  rcases hrevoked : m.revokedAt with _ | at'
  swap
  · -- replay: the family is revoked and the request refused
    rw [if_pos (by simp [Dialect.readRefreshToken, hrevoked])]
    refine ends_revokeFamily hstatements fun _ => ?_
    rw [World.close_of_nil (by exact hstatements)]
    have hreplayed : RefreshOutcome env w c.refreshToken _ _ := .replayed hp (by simp [hrevoked])
    exact hreplayed
  -- from here on a request that is refused fails one of the checks
  have hrefused : ∀ {e : DomainError}, (∀ u, ¬ RefreshChecks env w c.refreshToken p m u) →
      e.IsInvalidToken →
      RefreshOutcome env w c.refreshToken (.error (.domain e)) (w.tick.tick.close 0) :=
    fun hno he => .of_presents hp hrevoked hno he
      (((Unchanged.tick w).trans (.tick _)).close hstatements)
  rw [if_neg (by simp [Dialect.readRefreshToken, hrevoked])]
  have hexpires : (RefreshTokenMapper.toDomain (env.dialect.readRefreshToken m)).expiresAt =
      asUtc m.expiresAt := asUtc_readDatetime ..
  rw [hexpires]
  split
  · next hexpired =>
    refine fun _ => hrefused (fun u h => ?_) trivial
    exact absurd h.unexpired (not_lt.mpr hexpired)
  next hunexpired =>
  rcases hsubject : UserId.fromStr p.subject with e | userId
  · refine fun _ => hrefused (fun u h => ?_) trivial
    cases hsubject.symm.trans h.subject
  -- the user named by the token
  simp only [Prog.ends_call, exec, World.view_tick, World.view_of_nil hstatements,
    Session.getUser_empty]
  rcases hget : w.db.users.get userId.value with _ | um
  · refine fun _ => hrefused (fun u h => ?_) trivial
    obtain rfl : userId = u.id := Except.ok.inj (hsubject.symm.trans h.subject)
    exact Table.get_eq_none.mp hget _ h.user rfl
  obtain ⟨hum, hid⟩ := Table.get_eq_some.mp hget
  obtain ⟨u, rfl⟩ := hw.readable um hum
  obtain rfl : u.id = userId := UserId.ext hid
  simp only [Option.map_some, userOfModel, UserMapper.toDomain_toModel, ofDomain, Except.map]
  by_cases hactive : u.isActive = true
  swap
  · simp only [hactive]
    refine fun _ => hrefused (fun u' h => hactive ?_) trivial
    have hrow := w.db.users.eq_of_key_eq h.user hum
      (congrArg UserId.value (Except.ok.inj (h.subject.symm.trans hsubject)))
    rw [← h.active]
    exact (congrArg UserModel.isActive hrow).symm
  have hchecks : RefreshChecks env w c.refreshToken p m u :=
    ⟨hp, hrevoked, not_le.mp hunexpired, hsubject, hum, hactive⟩
  -- rotation: one transaction revokes the record and adds its successor
  simp only [hactive, Bool.not_true, Bool.false_eq_true, if_false]
  have hlive : (RefreshTokenMapper.toDomain (env.dialect.readRefreshToken m)).revokedAt = none := by
    simp [RefreshTokenMapper.toDomain, Dialect.readRefreshToken, hrevoked]
  have hrow : (w.tick.tick.view 0).refreshTokens.get ((RefreshTokenMapper.toDomain
      (env.dialect.readRefreshToken m)).revoke (w.tick.now env)).jti = some m := by
    rw [World.view_of_nil (by exact hstatements), RefreshTokenRecord.jti_revoke]
    exact Table.get_key hm
  rw [Prog.ends_call_ok (by rfl), Prog.ends_call_ok (exec_refreshTokensUpdate hrow)]
  simp only [Prog.ends_call, exec, RefreshTokenRecord.familyId_revoke]
  generalize hr : env.record (env.clock (w.ticks + 2)) u.id.value (env.uuid w.ids) m.familyId = r
  have hkept : w.db.refreshTokens.get m.jti ≠ none := by simp [Table.get_key hm]
  have hflush := Session.flush_rotation w.db ⟨env.dialect.readRefreshToken m,
    RefreshTokenMapper.applyToModel ((RefreshTokenMapper.toDomain
      (env.dialect.readRefreshToken m)).revoke (w.tick.now env)) (env.dialect.readRefreshToken m)⟩ r
  rw [Database.updateRefreshToken_revoke _ _ _ (RefreshTokenRecord.revokedAt_revoke _ hlive),
    if_neg (by simp [Dialect.readRefreshToken, hrevoked]), if_neg hkept, Except.bind] at hflush
  change _ = (w.db.revokeRows [m.jti] (env.clock (w.ticks + 1))).insertRefreshToken r at hflush
  rcases hinsert : (w.db.revokeRows [m.jti] (env.clock (w.ticks + 1))).refreshTokens.insert r with
    _ | tokens
  · -- a fresh id is not in the table
    rw [Database.insertRefreshToken_none hinsert] at hflush
    subst hr
    rw [execCommit_of_flush_error (by exact hw.statements) (by exact hflush)]
    intro (hfresh : env.NoRepeat (w.ids + 1))
    refine absurd hinsert (hfresh.insert_ne_none (Nat.lt_succ_self _) le_rfl ?_ rfl)
    intro m' hm'
    rw [Database.rows_revokeRows_singleton, List.mem_map] at hm'
    obtain ⟨m₀, hm₀, rfl⟩ := hm'
    rw [RefreshTokenModel.jti_revokeIf]
    exact hw.jtis m₀ hm₀
  · rw [Database.insertRefreshToken_ok hinsert hum (by subst hr; rfl)] at hflush
    subst hr
    rw [execCommit_of_flush (by exact hw.statements) (by exact hflush)]
    intro _
    rw [World.close_of_nil (by exact hw.statements)]
    exact .rotated hchecks hinsert

/-! ### Logout -/

/-- The ways `LogoutHandler.execute` ends. -/
inductive LogoutOutcome (env : Env) (w : World) (t : Token) : Except Exc Response → World → Prop
  /-- Not a refresh token that `decode` accepts, or one without a record. -/
  | unknown {r : Except Exc Response} {w' : World} : Unknown env w t → Unchanged w w' →
    (∀ p, r ≠ .ok (.tokenPair p)) → LogoutOutcome env w t r w'
  /-- The family is revoked. -/
  | revoked {p : TokenPayload} {m : RefreshTokenModel} : Presents env w t p m →
    LogoutOutcome env w t (.ok .none)
      { w with db := w.db.revoke (.family m.familyId) (env.clock (w.ticks + 1))
               ticks := w.ticks + 2 }

theorem logout_outcome (hw : Settled env w) (c : LogoutCommand) :
    LogoutOutcome env w c.refreshToken (execute env (.logout c) w).1
      (execute env (.logout c) w).2 := by
  refine execute_of_ends (fun r w' => LogoutOutcome env w c.refreshToken r w') ?_
  simp only [Command.execute, Prog.ends_map, LogoutHandler.execute]
  have hstatements := hw.statements
  have htick : Unchanged w (w.tick.close 0) := (Unchanged.tick w).close hstatements
  simp only [Prog.op_bind, Prog.ends_call, exec]
  rcases hdecode : w.decode env c.refreshToken with e | p
  · exact .unknown (unknown_of_decode_error hdecode) htick (by simp [Except.map])
  simp only [ofDomain]
  by_cases htype : p.tokenType = .refresh
  swap
  · rw [if_pos htype]
    exact .unknown (unknown_of_type hdecode htype) htick (by simp [Except.map])
  rw [if_neg (not_not.mpr htype)]
  simp only [Prog.ends_call, exec, World.view_tick, World.view_of_nil hstatements,
    Session.getRefreshToken_empty]
  rcases hstored : w.db.refreshTokens.get p.tokenId with _ | m
  · exact .unknown (unknown_of_get hdecode hstored) htick (by simp [Except.map])
  simp only [Option.map_some, port, Prog.op]
  rw [Prog.ends_call_ok (by rfl)]
  refine ends_revokeFamily (by exact hstatements) ?_
  have hrevoked : LogoutOutcome env w c.refreshToken _ _ := .revoked ⟨hdecode, htype, hstored⟩
  rw [Prog.ends_pure, World.close_of_nil (by exact hstatements)]
  exact hrevoked

/-! ### Password change -/

/-- The ways `ChangePasswordHandler.execute` ends. -/
inductive ChangePasswordOutcome (env : Env) (w : World) (c : ChangePasswordCommand) :
    Except Exc Response → World → Prop
  /-- No such user, a wrong password, or an empty hash. -/
  | refused {e : Exc} {w' : World} : Unchanged w w' → ChangePasswordOutcome env w c (.error e) w'
  /-- The hash is replaced and every session of the user revoked. -/
  | changed {u : User} {hashed : HashedPassword} : UserMapper.toModel u ∈ w.db.users.rows →
    u.id.value = c.userId → env.verify c.currentPassword u.hashedPassword.value = true →
    hashed.value = env.hash w.salts c.newPassword →
    ChangePasswordOutcome env w c (.ok .none)
      { w with
        db := (w.db.revoke (.user u.id.value) (env.clock w.ticks)).setPassword u.id.value
          hashed.value
        ticks := w.ticks + 1, salts := w.salts + 1 }

theorem changePassword_outcome (hw : Settled env w) (c : ChangePasswordCommand) :
    ChangePasswordOutcome env w c (execute env (.changePassword c) w).1
      (execute env (.changePassword c) w).2 := by
  refine execute_of_ends (fun r w' => ChangePasswordOutcome env w c r w') ?_
  simp only [Command.execute, Prog.ends_map, ChangePasswordHandler.execute]
  have hstatements := hw.statements
  have hsame : Unchanged w (w.close 0) := (Unchanged.refl w).close hstatements
  simp only [Prog.op_bind, Prog.ends_call, exec, World.view_of_nil hstatements,
    Session.getUser_empty]
  rcases hget : w.db.users.get c.userId with _ | m
  · exact .refused hsame
  obtain ⟨hm, hid⟩ := Table.get_eq_some.mp hget
  obtain ⟨u, rfl⟩ := hw.readable m hm
  replace hid : u.id.value = c.userId := hid
  simp only [Option.map_some, userOfModel, UserMapper.toDomain_toModel, ofDomain, Except.map]
  rw [Prog.ends_call_ok (by rfl)]
  by_cases hverify : env.verify c.currentPassword u.hashedPassword.value = true
  swap
  · simp only [hverify]
    exact .refused hsame
  simp only [hverify, Bool.not_true, Bool.false_eq_true, if_false]
  rw [Prog.ends_call_ok (by rfl)]
  rcases hhash : HashedPassword.ofStr (env.hash w.salts c.newPassword) with e | hashed
  · exact .refused ((Unchanged.drawSalt w).close hstatements)
  have hvalue := HashedPassword.ofStr_eq_ok.mp hhash
  -- the hash is staged, the records are revoked at once, and the commit writes both
  simp only [port, Prog.op]
  have hrow : (w.drawSalt.view 0).users.get
      ({ u with events := [] }.changePassword hashed).id.value = some (UserMapper.toModel u) := by
    rw [World.view_of_nil (by exact hstatements)]
    exact Table.get_key hm
  rw [Prog.ends_call_ok (by rfl), Prog.ends_call_ok (exec_usersUpdate hrow),
    Prog.ends_call_ok (by rfl), Prog.ends_call_ok (by rfl)]
  have hm' : UserMapper.toModel u ∈
      (w.db.revoke (.user u.id.value) (env.clock w.ticks)).users.rows := hm
  have hflush := Database.updateUser_changePassword env.dialect hm' hashed
  refine ends_commit_bulk (by exact hstatements) ((Session.flush_ofUser _ _).trans hflush) ?_
  rw [Prog.ends_pure, World.close_of_nil (by exact hstatements)]
  exact .changed hm hid hverify hvalue

end handlers

end FastapiStarter
