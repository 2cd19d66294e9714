import FastapiStarter.Domain
import FastapiStarter.Lib.Table
import Mathlib.Data.List.Infix

/-!
# The persistence adapter

The ORM models, the mappers, one `AsyncSession`, the SQLAlchemy repositories and
the unit of work.  The identity map of a session is weak: it keeps the instances
that were changed, with the row as loaded, and forgets those that were only read,
so a row that is asked for again is read again.  A flush writes the columns whose
value changed and inserts the new rows.  A bulk `UPDATE` runs at once, inside the transaction of the
session: it is seen by that session, holds its rows, and reaches the others with
the commit.

## Main definitions

* `UserModel`, `RefreshTokenModel`, `Database` — the rows and the two tables.
* `UserMapper`, `RefreshTokenMapper` — the mappers.
* `Session` — changed instances and new rows; `Session.flush` — what a commit writes.
* `Scope`, `Statement` — the bulk revocations.

## Main results

* `UserMapper.toDomain_toModel`, `RefreshTokenMapper.toDomain_toModel` — a stored
  aggregate loads again.
-/

namespace FastapiStarter

open Relational

/-! ### Rows -/

/-- `UserModel`, a row of `users`. -/
structure UserModel where
  id : UUID
  email : Str
  hashedPassword : Str
  isActive : Bool
  createdAt : Datetime
  deriving DecidableEq

/-- `RefreshTokenModel`, a row of `refresh_tokens`. -/
structure RefreshTokenModel where
  jti : UUID
  userId : UUID
  familyId : UUID
  expiresAt : Datetime
  revokedAt : Option Datetime
  deriving DecidableEq

/-- The two tables. -/
structure Database where
  users : Table UserModel.id
  refreshTokens : Table RefreshTokenModel.jti
  deriving DecidableEq

/-- The database after the migrations. -/
def Database.empty : Database := ⟨Table.empty _, Table.empty _⟩

/-- The two databases the application runs on. -/
inductive Dialect
  /-- PostgreSQL, through asyncpg. -/
  | postgres
  /-- SQLite, through aiosqlite. -/
  | sqlite
  deriving DecidableEq, Repr

/-- The datetime a driver returns for a stored one: only PostgreSQL keeps the
timezone. -/
def Dialect.readDatetime : Dialect → Datetime → Datetime
  | .postgres, d => .aware (asUtc d)
  | .sqlite, d => .naive (asUtc d)

/-- A row of `users` as the driver returns it. -/
def Dialect.readUser (d : Dialect) (m : UserModel) : UserModel :=
  { m with createdAt := d.readDatetime m.createdAt }

/-- A row of `refresh_tokens` as the driver returns it. -/
def Dialect.readRefreshToken (d : Dialect) (m : RefreshTokenModel) : RefreshTokenModel :=
  { m with expiresAt := d.readDatetime m.expiresAt, revokedAt := m.revokedAt.map d.readDatetime }

@[simp] theorem asUtc_readDatetime (d : Dialect) (x : Datetime) :
    asUtc (d.readDatetime x) = asUtc x := by cases d <;> rfl

/-- The driver sends a string: both encode it, and in PostgreSQL no text has a NUL. -/
def Dialect.binds (d : Dialect) (s : Str) : Bool :=
  s.encodable && (d = .sqlite || s.all fun c => c.val ≠ 0)

/-- A column `String(length)` takes a string; SQLite does not look at the length. -/
def Dialect.fits (d : Dialect) (length : ℕ) (s : Str) : Bool :=
  d.binds s && (d = .sqlite || s.length ≤ length)

/-- The columns of `users` take a row. -/
def UserModel.fits (d : Dialect) (m : UserModel) : Bool :=
  d.fits 320 m.email && d.fits 255 m.hashedPassword

/-! ### Mappers -/

namespace UserMapper

variable [Unicode]

/-- `user_mapper.to_domain`. -/
def toDomain (model : UserModel) : Except DomainError User :=
  match Email.ofStr model.email with
  | .error e => .error e
  | .ok email =>
    match HashedPassword.ofStr model.hashedPassword with
    | .error e => .error e
    | .ok hashedPassword =>
      .ok { id := ⟨model.id⟩, email, hashedPassword, isActive := model.isActive,
            createdAt := asUtc model.createdAt }

/-- `user_mapper.to_model`. -/
def toModel (user : User) : UserModel :=
  { id := user.id.value, email := user.email.value, hashedPassword := user.hashedPassword.value,
    isActive := user.isActive, createdAt := .aware user.createdAt }

/-- `user_mapper.apply_to_model`. -/
def applyToModel (user : User) (model : UserModel) : UserModel :=
  { model with email := user.email.value, hashedPassword := user.hashedPassword.value,
               isActive := user.isActive }

/-- **A stored user loads again**, without the events it had recorded. -/
@[simp] theorem toDomain_toModel (d : Dialect) (user : User) :
    toDomain (d.readUser (toModel user)) = .ok { user with events := [] } := by
  simp only [toDomain, Dialect.readUser, toModel, Email.ofStr_value, HashedPassword.ofStr_value,
    asUtc_readDatetime, asUtc_aware]

theorem toDomain_eq_ok {model : UserModel} {user : User} (h : toDomain model = .ok user) :
    user.id.value = model.id ∧ user.email.value = normalise model.email ∧
      user.hashedPassword.value = model.hashedPassword ∧ user.isActive = model.isActive ∧
      user.createdAt = asUtc model.createdAt ∧ user.events = [] := by
  unfold toDomain at h
  split at h
  · cases h
  · next email he =>
    split at h
    · cases h
    · next hp hhp =>
      cases h
      exact ⟨rfl, Email.value_of_ofStr he, HashedPassword.ofStr_eq_ok.mp hhp, rfl, rfl, rfl⟩

end UserMapper

namespace RefreshTokenMapper

/-- `refresh_token_mapper.to_domain`. -/
def toDomain (model : RefreshTokenModel) : RefreshTokenRecord :=
  { jti := model.jti, userId := ⟨model.userId⟩, familyId := model.familyId,
    expiresAt := asUtc model.expiresAt, revokedAt := model.revokedAt.map asUtc }

/-- `refresh_token_mapper.to_model`. -/
def toModel (record : RefreshTokenRecord) : RefreshTokenModel :=
  { jti := record.jti, userId := record.userId.value, familyId := record.familyId,
    expiresAt := .aware record.expiresAt, revokedAt := record.revokedAt.map .aware }

/-- `refresh_token_mapper.apply_to_model`. -/
def applyToModel (record : RefreshTokenRecord) (model : RefreshTokenModel) : RefreshTokenModel :=
  { model with revokedAt := record.revokedAt.map .aware }

/-- **A stored record loads again.** -/
@[simp] theorem toDomain_toModel (d : Dialect) (record : RefreshTokenRecord) :
    toDomain (d.readRefreshToken (toModel record)) = record := by
  simp only [toDomain, Dialect.readRefreshToken, toModel, asUtc_readDatetime, asUtc_aware,
    Option.map_map, Function.comp_def, Option.map_id_fun', id]

@[simp] theorem isRevoked_toDomain (model : RefreshTokenModel) :
    (toDomain model).isRevoked = model.revokedAt.isSome := by
  simp [toDomain, RefreshTokenRecord.isRevoked]

end RefreshTokenMapper

/-! ### Bulk revocation -/

/-- The two bulk updates of the refresh-token repository, by their `WHERE`. -/
inductive Scope
  | family (familyId : UUID)
  | user (userId : UUID)
  deriving DecidableEq

/-- The `WHERE` of a bulk update: the scope, and `revoked_at IS NULL`. -/
def Scope.selects (scope : Scope) (m : RefreshTokenModel) : Bool :=
  (match scope with
    | .family f => m.familyId == f
    | .user u => m.userId == u) && m.revokedAt.isNone

/-- A bulk update that a session has executed and not yet committed, with the
rows it changed and holds. -/
structure Statement where
  session : ℕ
  scope : Scope
  at' : Instant
  rows : List UUID
  deriving DecidableEq

/-- Sets `revoked_at` of the given rows. -/
def Database.revokeRows (db : Database) (rows : List UUID) (at' : Instant) : Database :=
  ⟨db.users, db.refreshTokens.updateWhere (fun m => rows.contains m.jti)
    (fun m => { m with revokedAt := some (.aware at') }) fun _ => rfl⟩

/-- The rows a bulk update changes. -/
def Database.selected (db : Database) (scope : Scope) : List UUID :=
  (db.refreshTokens.rows.filter scope.selects).map (·.jti)

/-- The database a transaction sees that has executed `statements`, oldest first. -/
def Database.after (db : Database) (statements : List Statement) : Database :=
  statements.foldl (fun db st => db.revokeRows st.rows st.at') db

/-! ### Sessions -/

/-- A changed instance of the identity map: the row as loaded, and as it is now. -/
structure Tracked (M : Type) where
  loaded : M
  current : M
  deriving DecidableEq

/-- An `AsyncSession`: the instances that were changed, which it holds until they are
flushed, and the rows added. -/
structure Session where
  users : List (Tracked UserModel)
  refreshTokens : List (Tracked RefreshTokenModel)
  newUsers : List UserModel
  newRefreshTokens : List RefreshTokenModel
  deriving DecidableEq

namespace Session

/-- A session just opened. -/
def empty : Session := ⟨[], [], [], []⟩

/-- `session.get(UserModel, id)`: the instance that was changed, or else the row.  The
mapper copies it, and nothing refers to it any more. -/
def getUser (d : Dialect) (view : Database) (s : Session) (id : UUID) : Option UserModel :=
  match s.users.find? fun t => t.current.id = id with
  | some t => some t.current
  | none => (view.users.get id).map d.readUser

/-- `session.get(RefreshTokenModel, jti)`. -/
def getRefreshToken (d : Dialect) (view : Database) (s : Session) (jti : UUID) :
    Option RefreshTokenModel :=
  match s.refreshTokens.find? fun t => t.current.jti = jti with
  | some t => some t.current
  | none => (view.refreshTokens.get jti).map d.readRefreshToken

/-- `select(UserModel).where(email == ...)`, then `scalar_one_or_none()`; an
instance that was changed is returned as it is. -/
def selectUserByEmail (d : Dialect) (view : Database) (s : Session) (email : Str) :
    Except Exc (Option UserModel) :=
  match view.users.rows.filter fun m => m.email = email with
  | [] => .ok none
  | [m] => .ok (s.getUser d view m.id)
  | _ => .error .multipleResultsFound

/-- `session.add(model)`, for a new user. -/
def addUser (s : Session) (m : UserModel) : Session := { s with newUsers := s.newUsers ++ [m] }

/-- `session.add(model)`, for a new record. -/
def addRefreshToken (s : Session) (m : RefreshTokenModel) : Session :=
  { s with newRefreshTokens := s.newRefreshTokens ++ [m] }

/-- Sets attributes of the instance `m`, which the session holds from then on. -/
def setUser (s : Session) (m : UserModel) (f : UserModel → UserModel) : Session :=
  match s.users.find? fun t => t.current.id = m.id with
  | some _ =>
    { s with users := s.users.map fun t =>
        if t.current.id = m.id then { t with current := f t.current } else t }
  | none => { s with users := ⟨m, f m⟩ :: s.users }

/-- Sets attributes of a record. -/
def setRefreshToken (s : Session) (m : RefreshTokenModel)
    (f : RefreshTokenModel → RefreshTokenModel) : Session :=
  match s.refreshTokens.find? fun t => t.current.jti = m.jti with
  | some _ =>
    { s with refreshTokens := s.refreshTokens.map fun t =>
        if t.current.jti = m.jti then { t with current := f t.current } else t }
  | none => { s with refreshTokens := ⟨m, f m⟩ :: s.refreshTokens }

variable {d : Dialect} {view : Database}

@[simp] theorem getUser_empty (id : UUID) :
    empty.getUser d view id = (view.users.get id).map d.readUser := rfl

@[simp] theorem getRefreshToken_empty (jti : UUID) :
    empty.getRefreshToken d view jti = (view.refreshTokens.get jti).map d.readRefreshToken := rfl

@[simp] theorem setUser_empty (m : UserModel) (f : UserModel → UserModel) :
    empty.setUser m f = ⟨[⟨m, f m⟩], [], [], []⟩ := rfl

@[simp] theorem setRefreshToken_empty (m : RefreshTokenModel)
    (f : RefreshTokenModel → RefreshTokenModel) :
    empty.setRefreshToken m f = ⟨[], [⟨m, f m⟩], [], []⟩ := rfl

section

variable (s : Session) (m : UserModel) (f : UserModel → UserModel)

@[simp] theorem setUser_refreshTokens : (s.setUser m f).refreshTokens = s.refreshTokens := by
  unfold setUser
  split <;> rfl

@[simp] theorem setUser_newUsers : (s.setUser m f).newUsers = s.newUsers := by
  unfold setUser
  split <;> rfl

@[simp] theorem setUser_newRefreshTokens :
    (s.setUser m f).newRefreshTokens = s.newRefreshTokens := by
  unfold setUser
  split <;> rfl

end

section

variable (s : Session) (m : RefreshTokenModel) (f : RefreshTokenModel → RefreshTokenModel)

@[simp] theorem setRefreshToken_users : (s.setRefreshToken m f).users = s.users := by
  unfold setRefreshToken
  split <;> rfl

@[simp] theorem setRefreshToken_newUsers : (s.setRefreshToken m f).newUsers = s.newUsers := by
  unfold setRefreshToken
  split <;> rfl

@[simp] theorem setRefreshToken_newRefreshTokens :
    (s.setRefreshToken m f).newRefreshTokens = s.newRefreshTokens := by
  unfold setRefreshToken
  split <;> rfl

end

/-- A bulk update also changes the instances held that its `WHERE` matches, which
then count as loaded with the new value. -/
def synchronize (s : Session) (scope : Scope) (at' : Instant) : Session :=
  { s with refreshTokens := s.refreshTokens.map fun t =>
      if scope.selects t.current then
        ⟨{ t.loaded with revokedAt := some (.aware at') },
          { t.current with revokedAt := some (.aware at') }⟩
      else t }

end Session

/-! ### Flushing -/

/-- The `UPDATE` of a tracked user: the columns whose value changed. -/
def Tracked.writeUser (t : Tracked UserModel) (row : UserModel) : UserModel :=
  { row with
    email := if t.current.email = t.loaded.email then row.email else t.current.email
    hashedPassword :=
      if t.current.hashedPassword = t.loaded.hashedPassword then row.hashedPassword
      else t.current.hashedPassword
    isActive :=
      if t.current.isActive = t.loaded.isActive then row.isActive else t.current.isActive }

/-- The `UPDATE` of a tracked record: `revoked_at`, when it changed. -/
def Tracked.writeRefreshToken (t : Tracked RefreshTokenModel) (row : RefreshTokenModel) :
    RefreshTokenModel :=
  { row with
    revokedAt :=
      if t.current.revokedAt = t.loaded.revokedAt then row.revokedAt else t.current.revokedAt }

namespace Database

/-- Flushes a tracked user. -/
def updateUser (db : Database) (t : Tracked UserModel) : Except Exc Database :=
  if t.current = t.loaded then .ok db
  else if db.users.get t.current.id = none then .error .staleData
  else if t.current.email ≠ t.loaded.email ∧
      db.users.rows.any (fun m => m.id ≠ t.current.id ∧ m.email = t.current.email) then
    .error (.integrity .ixUsersEmail)
  else .ok ⟨db.users.updateWhere (fun m => m.id = t.current.id) t.writeUser fun _ => rfl,
    db.refreshTokens⟩

/-- Flushes a tracked record. -/
def updateRefreshToken (db : Database) (t : Tracked RefreshTokenModel) : Except Exc Database :=
  if t.current = t.loaded then .ok db
  else if db.refreshTokens.get t.current.jti = none then .error .staleData
  else .ok ⟨db.users, db.refreshTokens.updateWhere (fun m => m.jti = t.current.jti)
    t.writeRefreshToken fun _ => rfl⟩

/-- Inserts a user: the primary key, then the unique index on `email`. -/
def insertUser (db : Database) (m : UserModel) : Except Exc Database :=
  match db.users.insert m with
  | none => .error (.integrity .pkUsers)
  | some users =>
    if db.users.rows.any fun m' => m'.email = m.email then .error (.integrity .ixUsersEmail)
    else .ok { db with users }

/-- Inserts a record: the primary key, then the foreign key. -/
def insertRefreshToken (db : Database) (m : RefreshTokenModel) : Except Exc Database :=
  match db.refreshTokens.insert m with
  | none => .error (.integrity .pkRefreshTokens)
  | some refreshTokens =>
    if db.users.get m.userId = none then .error (.integrity .fkRefreshTokensUserId)
    else .ok { db with refreshTokens }

end Database

/-- `session.flush()`: users before refresh tokens, updates before inserts. -/
def Session.flush (s : Session) (db : Database) : Except Exc Database := do
  let db ← s.users.foldlM Database.updateUser db
  let db ← s.newUsers.foldlM Database.insertUser db
  let db ← s.refreshTokens.foldlM Database.updateRefreshToken db
  s.newRefreshTokens.foldlM Database.insertRefreshToken db

/-! ### The unit of work -/

/-- `str(error.orig)` of an `IntegrityError`, up to the part that names values. -/
def Constraint.message : Dialect → Constraint → List Char
  | .postgres, .pkUsers => "duplicate key value violates unique constraint \"pk_users\"".toList
  | .postgres, .ixUsersEmail =>
    "duplicate key value violates unique constraint \"ix_users_email\"".toList
  | .postgres, .pkRefreshTokens =>
    "duplicate key value violates unique constraint \"pk_refresh_tokens\"".toList
  | .postgres, .fkRefreshTokensUserId =>
    "insert or update on table \"refresh_tokens\" violates foreign key constraint \"fk_refresh_tokens_user_id_users\"".toList
  | .sqlite, .pkUsers => "UNIQUE constraint failed: users.id".toList
  | .sqlite, .ixUsersEmail => "UNIQUE constraint failed: users.email".toList
  | .sqlite, .pkRefreshTokens => "UNIQUE constraint failed: refresh_tokens.jti".toList
  | .sqlite, .fkRefreshTokensUserId => "FOREIGN KEY constraint failed".toList

/-- `_EMAIL_UNIQUE_MARKERS`. -/
def emailUniqueMarkers : List (List Char) := ["ix_users_email".toList, "users.email".toList]

/-- The `except` clause of `SqlAlchemyUnitOfWork.commit`: a violation that names
the index or the column of the address is a domain error, any other is re-raised. -/
def translateCommitError (d : Dialect) : Exc → Exc
  | .integrity c =>
    if emailUniqueMarkers.any fun marker => decide (marker <:+: c.message d) then
      .domain .emailAlreadyExists
    else .integrity c
  | e => e

@[simp] theorem translateCommitError_integrity (d : Dialect) (c : Constraint) :
    translateCommitError d (.integrity c) =
      if c = .ixUsersEmail then .domain .emailAlreadyExists else .integrity c := by
  cases d <;> cases c <;> decide +kernel

end FastapiStarter
