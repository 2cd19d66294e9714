import FastapiStarter.Execution
import FastapiStarter.Lib.Backends

/-!
# The in-memory doubles

The tests run the handlers over a unit of work that keeps the aggregates themselves,
in two dicts.  What a handler changes in an aggregate that it was given is changed
there and then; a commit is only counted.

The clock, the ids, the hasher, the token service and the dispatcher are the same for
both units of work.  They are whatever answers the calls of their ports, with a state
of its own, as long as the clock, the ids and the issuing of refresh tokens do not fail.

A dict takes any string.  The columns of the database have a length, which PostgreSQL
observes, and its drivers do not send every string.

## Main definitions

* `FakeUnitOfWork`, `fakeExec` — the doubles, and their answers.
* `sqlExec` — the answers of the database, which takes the strings that fit only.
* `Surroundings` — everything but the unit of work.
* `executeSql`, `executeFake`, `history` — commands over either unit of work.
* `Corresponds` — the dicts hold the committed rows, mapped to the domain.
* `Env.surroundings` — the surroundings of the application.
-/

namespace FastapiStarter

open Interaction

variable [Unicode]

/-! ### The doubles -/

omit [Unicode] in
/-- `d[key] = value`, on a dict in insertion order whose values show their keys. -/
def dictSet {K V : Type} [DecidableEq K] (key : V → K) (d : List V) (value : V) : List V :=
  if d.any fun v => key v = key value then d.map fun v => if key v = key value then value else v
  else d ++ [value]

/-- `FakeUnitOfWork`, with the dicts of its repositories. -/
structure FakeUnitOfWork where
  users : List User
  records : List RefreshTokenRecord
  commits : ℕ

namespace FakeUnitOfWork

/-- `FakeUnitOfWork()`. -/
def empty : FakeUnitOfWork := ⟨[], [], 0⟩

variable (f : FakeUnitOfWork)

/-- `users.get_by_id(user_id)`. -/
def getById (userId : UserId) : Option User := f.users.find? fun u => u.id = userId

/-- `users.get_by_email(email)`. -/
def getByEmail (email : Email) : Option User := f.users.find? fun u => u.email = email

/-- `refresh_tokens.get_by_jti(jti)`. -/
def getByJti (jti : UUID) : Option RefreshTokenRecord := f.records.find? fun r => r.jti = jti

/-- Changes the user that the dict holds under an id: the handler holds the same object. -/
def changeUser (userId : UserId) (g : User → User) : FakeUnitOfWork :=
  { f with users := f.users.map fun u => if u.id = userId then g u else u }

/-- Changes some of the records in place. -/
def changeRecords (p : RefreshTokenRecord → Bool) (g : RefreshTokenRecord → RefreshTokenRecord) :
    FakeUnitOfWork :=
  { f with records := f.records.map fun r => if p r then g r else r }

end FakeUnitOfWork

/-- **The answer of the doubles** to a call of the unit of work, or to a method of an
aggregate; the other ports have adapters of their own. -/
def fakeExec : (o : Port) → FakeUnitOfWork → Except Exc o.Ret × FakeUnitOfWork
  | .usersAdd user, f => (.ok (), { f with users := dictSet User.id f.users user })
  | .usersUpdate user, f => (.ok (), { f with users := dictSet User.id f.users user })
  | .usersGetById userId, f => (.ok (f.getById userId), f)
  | .usersGetByEmail email, f => (.ok (f.getByEmail email), f)
  | .usersExistsByEmail email, f => (.ok (f.getByEmail email).isSome, f)
  | .refreshTokensAdd record, f =>
    (.ok (), { f with records := dictSet RefreshTokenRecord.jti f.records record })
  | .refreshTokensUpdate record, f =>
    (.ok (), { f with records := dictSet RefreshTokenRecord.jti f.records record })
  | .refreshTokensGetByJti jti, f => (.ok (f.getByJti jti), f)
  | .refreshTokensRevokeFamily familyId at', f =>
    (.ok (), f.changeRecords (fun r => r.familyId = familyId) fun r => r.revoke at')
  | .refreshTokensRevokeAllForUser userId at', f =>
    (.ok (), f.changeRecords (fun r => r.userId = userId) fun r => r.revoke at')
  | .commit, f => (.ok (), { f with commits := f.commits + 1 })
  | .recordRevoke record at', f =>
    (.ok (record.revoke at'),
      f.changeRecords (fun r => r.jti = record.jti) fun r => r.revoke at')
  | .userChangePassword user hashedPassword, f =>
    (.ok (user.changePassword hashedPassword),
      f.changeUser user.id fun u => u.changePassword hashedPassword)
  | .userPullEvents user, f =>
    (.ok user.pullEvents.1, f.changeUser user.id fun u => u.pullEvents.2)
  | _, f => (.error .unexpected, f)

/-! ### Strings that do not fit -/

omit [Unicode] in
/-- The columns take what the session inserts and what it changes. -/
def Session.fits (d : Dialect) (s : Session) : Bool :=
  s.newUsers.all (·.fits d) && s.users.all fun t =>
    (t.current.email = t.loaded.email || d.fits 320 t.current.email) &&
      (t.current.hashedPassword = t.loaded.hashedPassword || d.fits 255 t.current.hashedPassword)

/-- **The answer of the database** to a call of the unit of work, or to a method of an
aggregate. -/
def sqlExec (env : Env) : (o : Port) → Session × World → Except Exc o.Ret × (Session × World)
  | .usersGetByEmail email, x =>
    if env.dialect.binds email.value then exec env 0 (.usersGetByEmail email) x
    else (.error .unexpected, x)
  | .usersExistsByEmail email, x =>
    if env.dialect.binds email.value then exec env 0 (.usersExistsByEmail email) x
    else (.error .unexpected, x)
  | .commit, (s, w) =>
    -- a `DataError` is no `IntegrityError`
    if s.fits env.dialect then exec env 0 .commit (s, w)
    else (.error .unexpected, .empty, w.close 0)
  | o, x => exec env 0 o x

/-! ### The surroundings -/

/-- The calls that do not go to the unit of work or to an aggregate. -/
def Port.outside : Port → Bool
  | .hash _ | .verify _ _ | .createAccessToken _ | .createRefreshToken _ _ | .decode _ | .now
  | .uuid4 | .dispatch _ => true
  | _ => false

/-- The clock, the ids, the hasher, the token service and the event dispatcher.  Any of
them may raise, but for the clock, `uuid4`, and the token service when it issues a refresh
token: these are asked while something is staged. -/
structure Surroundings (ω : Type) where
  answer : (o : Port) → ω → Except Exc o.Ret × ω
  /-- The ids drawn so far, oldest first. -/
  drawn : ω → List UUID
  drawn_prefix : ∀ o x, o.outside = true → drawn x <+: drawn (answer o x).2
  now_ok : ∀ x, ∃ at', (answer .now x).1 = .ok at'
  uuid4_ok : ∀ x, ∃ id, (answer .uuid4 x).1 = .ok id ∧ drawn (answer .uuid4 x).2 = drawn x ++ [id]
  refreshToken_ok : ∀ subject tokenId x,
    ∃ issued, (answer (.createRefreshToken subject tokenId) x).1 = .ok issued

variable {ω : Type} (S : Surroundings ω) (env : Env)

/-- No id was drawn twice. -/
def Surroundings.Fresh (x : ω) : Prop := (S.drawn x).Nodup

/-- Executes a command over `SqlAlchemyUnitOfWork`, in a session of its own. -/
def executeSql (command : Command) (x : World × ω) : Except Exc Response × (World × ω) :=
  let r := command.execute.run (Prog.onBackend Port.outside S.answer (sqlExec env))
    ((Session.empty, x.1), x.2)
  (r.1, r.2.1.2.close 0, r.2.2)

/-- Executes a command over `FakeUnitOfWork`. -/
def executeFake (command : Command) (x : FakeUnitOfWork × ω) :
    Except Exc Response × (FakeUnitOfWork × ω) :=
  command.execute.run (Prog.onBackend Port.outside S.answer fakeExec) x

omit [Unicode] in
/-- Executions one after the other, with the result and the state after each. -/
def history {σ : Type} (step : Command → σ → Except Exc Response × σ) :
    List Command → σ → List (Except Exc Response × σ)
  | [], _ => []
  | command :: commands, s => step command s :: history step commands (step command s).2

omit [Unicode] in
/-- The column takes the hashes of a password. -/
def Surroundings.HashFits (d : Dialect) (plain : Str) : Prop :=
  ∀ x hashed, (S.answer (.hash plain) x).1 = .ok hashed → d.fits 255 hashed = true

/-- The strings of a command can be stored, or looked for. -/
def Command.Fits (d : Dialect) : Command → Prop
  | .createUser c =>
    (∀ email, Email.ofStr c.email = .ok email → d.fits 320 email.value = true) ∧
      S.HashFits d c.password
  | .login c => ∀ email, Email.ofStr c.email = .ok email → d.binds email.value = true
  | .changePassword c => S.HashFits d c.newPassword
  | _ => True

/-- The committed rows, mapped to the domain, are what the doubles hold. -/
structure Corresponds (w : World) (f : FakeUnitOfWork) : Prop where
  users : (w.db.users.rows.map fun m => UserMapper.toDomain (env.dialect.readUser m)) =
    f.users.map .ok
  records : (w.db.refreshTokens.rows.map fun m =>
    RefreshTokenMapper.toDomain (env.dialect.readRefreshToken m)) = f.records

/-! ### The application -/

theorem ids_le_exec {env : Env} {o : Port} (ho : o.outside = true) (w : World) :
    w.ids ≤ (exec env 0 o (.empty, w)).2.2.ids := by
  cases o with
  | uuid4 => exact Nat.le_succ _
  | createAccessToken => exact Nat.le_succ _
  | hash | verify | createRefreshToken | decode | now | dispatch => exact le_rfl
  | _ => cases ho

/-- The surroundings of the application: the system clock, `uuid4`, the hasher,
`JwtTokenService` and the dispatcher. -/
def Env.surroundings : Surroundings World where
  answer o w := ((exec env 0 o (.empty, w)).1, (exec env 0 o (.empty, w)).2.2)
  drawn w := (List.range w.ids).map env.uuid
  drawn_prefix o w ho := by
    obtain ⟨n, hn⟩ := Nat.exists_eq_add_of_le (@ids_le_exec _ env o ho w)
    rw [hn, List.range_add, List.map_append]
    exact List.prefix_append _ _
  now_ok w := ⟨_, rfl⟩
  uuid4_ok w := ⟨_, rfl, by
    simp only [exec, World.drawId, World.freshId, List.range_succ, List.map_append]
    rfl⟩
  refreshToken_ok _ _ w := ⟨_, rfl⟩

end FastapiStarter
