import FastapiStarter.Outcomes

/-!
# The protocol of sessions

What login, refresh, logout and password change do to the tables, seen from the
other requests: each goes through phases, from what it has read, over the checks
it has passed, to what it commits.  Only two kinds of steps matter to the others:
a bulk update, which takes the rows it selects, and a commit.

## Main definitions

* `Phase` — how far a request has come.
* `Refusal` — the reasons for refusing a refresh.
* `Act` — what a call may do to the phase and to the world.
* `sessions` — the protocol, as an abstraction of the requests.

## Main results

* `sim_command` — the four handlers follow the protocol.
* `own_statements` — a session has exactly the open bulk update of its phase.
-/

namespace FastapiStarter

open Interaction Relational

/-! ### Open transactions -/

namespace World

variable {w : World} {sid : ℕ}

theorem view_of_own (h : w.statementsOf sid = []) : w.view sid = w.db := by
  rw [view, h]
  rfl

theorem view_of_own_singleton {st : Statement} (h : w.statementsOf sid = [st]) :
    w.view sid = w.db.revokeRows st.rows st.at' := by
  rw [view, h]
  rfl

theorem statementsOf_close (sid' : ℕ) :
    (w.close sid).statementsOf sid' = if sid' = sid then [] else w.statementsOf sid' := by
  unfold statementsOf close
  rw [List.filter_filter]
  split
  · next h =>
    subst h
    simp
  · next h =>
    refine congrArg List.reverse (List.filter_congr fun st _ => ?_)
    by_cases hst : st.session = sid'
    · simp [hst, h]
    · simp [hst]

theorem statementsOf_cons (w : World) (st : Statement) (sid : ℕ) :
    statementsOf { w with statements := st :: w.statements } sid =
      if st.session = sid then w.statementsOf sid ++ [st] else w.statementsOf sid := by
  unfold statementsOf
  rw [List.filter_cons]
  by_cases h : st.session = sid
  · simp [h]
  · simp [h]

theorem close_of_own (h : w.statementsOf sid = []) : w.close sid = w := by
  have hother : ∀ st ∈ w.statements, st.session ≠ sid := by
    intro st hst heq
    have : st ∈ w.statementsOf sid := by simpa [statementsOf, heq] using hst
    simp [h] at this
  have hkeep : (w.statements.filter fun st => st.session ≠ sid) = w.statements := by
    simpa [List.filter_eq_self] using hother
  rw [close, hkeep]

theorem statementsOf_of_nil (h : w.statements = []) (sid : ℕ) : w.statementsOf sid = [] := by
  simp [statementsOf, h]

end World

section protocol

variable [Unicode]

/-! ### Phases -/

/-- The record that a request replaces, and whether its row was revoked by then when
the request wrote it back; a login replaces none. -/
abbrev Replaced := Option (RefreshTokenModel × Bool)

/-- The user whose password a request changes, and the hash to set. -/
abbrev PasswordChange := Option (User × HashedPassword)

/-- How far a request has come. -/
inductive Phase
  | idle
  | begun
  /-- Refresh and logout: the token was accepted. -/
  | holds (p : TokenPayload)
  /-- The record of the token was read. -/
  | found (p : TokenPayload) (m : RefreshTokenModel)
  /-- The record is unrevoked and has not expired. -/
  | live (p : TokenPayload) (m : RefreshTokenModel) (at' : Instant)
  | allowed (m : RefreshTokenModel) (at' : Instant) (u : User)
  /-- Login and password change: the user was read. -/
  | loaded (u : User)
  /-- Every check has passed, and a token will be issued. -/
  | opens (src : Replaced) (u : User)
  /-- The id of the token was drawn. -/
  | drew (src : Replaced) (u : User) (jti : UUID)
  /-- The token was issued. -/
  | issued (src : Replaced) (u : User) (jti : UUID)
  /-- The record of the token was added to the session. -/
  | adds (src : Replaced) (r : RefreshTokenModel)
  | stored
  /-- A bulk update is next; at the end the request returns or raises `x`. -/
  | sweeps (scope : Scope) (at' : Instant) (change : PasswordChange) (x : Except Exc Response)
  /-- The bulk update was executed. -/
  | swept (st : Statement) (change : PasswordChange) (x : Except Exc Response)
  /-- Nothing more will be read or written. -/
  | ended (x : Except Exc Response)

namespace Phase

/-- The open bulk updates of a request. -/
def statements : Phase → List Statement
  | .swept st _ _ => [st]
  | _ => []

/-- The password change that a request will commit. -/
def change : Phase → PasswordChange
  | .sweeps _ _ change _ | .swept _ change _ => change
  | _ => none

/-- The user that a password change has read. -/
def user : Phase → Option User
  | .loaded u => some u
  | φ => φ.change.map Prod.fst

/-- The outcomes with which a request may end. -/
def Outcome : Phase → Except Exc Response → Prop
  | .idle, x => x = .ok .none
  | .stored, x => ∃ p, x = .ok (.tokenPair p)
  | .ended y, x => x = y
  | _, _ => False

end Phase

/-- The phase in which a request starts: a login with an invalid address is
refused before its first call. -/
def Phase.start : Option Command → Phase
  | none => .idle
  | some (.login c) =>
    match Email.ofStr c.email with
    | .error _ => .ended (.error (.domain .invalidCredentials))
    | .ok _ => .begun
  | some _ => .begun

/-- What a request may rely on: its own transaction, that the rows it reads map to
users, and that nobody else changes the user whose password it changes. -/
structure Rely (requests : ℕ → Option Command) (sid : ℕ) (φ : Phase) (w : World) : Prop where
  own : w.statementsOf sid = φ.statements
  readable : ∀ m ∈ w.db.users.rows, ∃ u : User, m = UserMapper.toModel u
  kept : ∀ c u, requests sid = some (.changePassword c) → φ.user = some u →
    UserMapper.toModel u ∈ w.db.users.rows

/-! ### Actions -/

/-- The port call of a bulk update. -/
def Scope.port (at' : Instant) : Scope → Port
  | .family f => .refreshTokensRevokeFamily f at'
  | .user u => .refreshTokensRevokeAllForUser ⟨u⟩ at'

/-- The reasons for which a request is refused, by a call that leads from `w` to
`w'`.  For other commands than refresh they do not matter. -/
inductive Refusal (env : Env) (w w' : World) : Option Command → Phase → Port → Exc → Prop
  | other {c : Command} {φ : Phase} {o : Port} {e : Exc} : (∀ t, c ≠ .refreshToken ⟨t⟩) →
    φ.statements = [] → Refusal env w w' (some c) φ o e
  /-- `decode` does not accept the token. -/
  | rejected {t : Token} {o : Port} {e : DomainError} : w.decode env t = .error e →
    w.ticks < w'.ticks → Refusal env w w' (some (.refreshToken ⟨t⟩)) .begun o (.domain e)
  | type {t : Token} {p : TokenPayload} {o : Port} : w.decode env t = .ok p →
    p.tokenType ≠ .refresh → w.ticks < w'.ticks →
    Refusal env w w' (some (.refreshToken ⟨t⟩)) .begun o (.domain .invalidToken)
  | record {c : Option Command} {p : TokenPayload} {o : Port} :
    w.db.refreshTokens.get p.tokenId = none →
    Refusal env w w' c (.holds p) o (.domain .invalidToken)
  | expired {c : Option Command} {p : TokenPayload} {m : RefreshTokenModel} {o : Port} :
    m.revokedAt = none → asUtc m.expiresAt ≤ w.now env → w.ticks < w'.ticks →
    Refusal env w w' c (.found p m) o (.domain .tokenExpired)
  /-- The subject is no user id. -/
  | subject {c : Option Command} {p : TokenPayload} {m : RefreshTokenModel} {o : Port}
    {e : DomainError} : UserId.fromStr p.subject = .error e →
    Refusal env w w' c (.found p m) o (.domain .invalidToken)
  /-- The user is missing or inactive. -/
  | user {c : Option Command} {p : TokenPayload} {m : RefreshTokenModel} {at' : Instant}
    {o : Port} {userId : UserId} : UserId.fromStr p.subject = .ok userId →
    (∀ u : User, UserMapper.toModel u ∈ w.db.users.rows → u.id = userId → u.isActive = false) →
    Refusal env w w' c (.live p m at') o (.domain .invalidToken)
  /-- The record is gone when it is to be written back. -/
  | missing {c : Option Command} {m : RefreshTokenModel} {at' : Instant} {u : User} {o : Port} :
    w.db.refreshTokens.get m.jti = none →
    Refusal env w w' c (.allowed m at' u) o (.domain .invalidToken)
  /-- The commit fails: the replaced record or the user is gone, or the id is taken. -/
  | commit {c : Option Command} {src : Replaced} {r : RefreshTokenModel} {e : Exc} :
    ((∃ m seen, src = some (m, seen) ∧ w.db.refreshTokens.get m.jti = none) ∨
      (∃ m ∈ w.db.refreshTokens.rows, m.jti = r.jti) ∨ w.db.users.get r.userId = none) →
    Refusal env w w' c (.adds src r) .commit e

/-- The records that a request replaces. -/
def Replaced.selects (src : Replaced) (m : RefreshTokenModel) : Bool :=
  src.any fun x => m.jti == x.1.jti

/-- The rows that writing them back may revoke: a record that was found revoked has no
column changed, where it was revoked at the same instant. -/
def Replaced.Revokes (src : Replaced) (p : RefreshTokenModel → Bool) : Prop :=
  p = src.selects ∨ (∃ m, src = some (m, true)) ∧ p = fun _ => false

/-- A password change, applied. -/
def PasswordChange.apply (change : PasswordChange) (db : Database) : Database :=
  change.elim db fun x => db.setPassword x.1.id.value x.2.value

/-- Calls that neither read the tables for a decision nor write them. -/
def Port.Quiet : Port → Prop
  | .usersUpdate _ | .hash _ | .verify _ _ | .now | .uuid4 | .recordRevoke _ _
  | .userChangePassword _ _ => True
  | _ => False

/-- Calls after which a request may be refused. -/
def Port.Checks : Port → Prop
  | .decode _ | .refreshTokensGetByJti _ | .refreshTokensUpdate _ | .usersGetById _
  | .usersGetByEmail _ | .now | .verify _ _ | .hash _ | .commit => True
  | _ => False

/-- **What a call of a request may do** to its phase and to the world. -/
inductive Act (env : Env) (sid : ℕ) (c : Option Command) :
    Phase → World → (o : Port) → Except Exc o.Ret → World → Phase → Prop
  | quiet {φ : Phase} {w w' : World} {o : Port} {r : o.Ret} : o.Quiet → Unchanged w w' →
    Act env sid c φ w o (.ok r) w' φ
  | refuse {φ : Phase} {w w' : World} {o : Port} {ans : Except Exc o.Ret} {e : Exc} :
    Refusal env w w' c φ o e → Unchanged w w' → o.Checks → (o = .commit → ∃ e', ans = .error e') →
    Act env sid c φ w o ans w' (.ended (.error e))
  /-- A logout without a record ends. -/
  | forget {p : TokenPayload} {w : World} {ans : Except Exc _} : (∃ t, c = some (.logout ⟨t⟩)) →
    Act env sid c (.holds p) w (.refreshTokensGetByJti p.tokenId) ans w (.ended (.ok .none))
  | accept {t : Token} {p : TokenPayload} {w : World} :
    (c = some (.refreshToken ⟨t⟩) ∨ c = some (.logout ⟨t⟩)) → w.decode env t = .ok p →
    p.tokenType = .refresh → Act env sid c .begun w (.decode t) (.ok p) w.tick (.holds p)
  | find {p : TokenPayload} {m : RefreshTokenModel} {w : World} {ans : Except Exc _} :
    w.db.refreshTokens.get p.tokenId = some m →
    Act env sid c (.holds p) w (.refreshTokensGetByJti p.tokenId) ans w (.found p m)
  /-- A revoked record was presented. -/
  | replay {t : Token} {p : TokenPayload} {m : RefreshTokenModel} {w : World} :
    c = some (.refreshToken ⟨t⟩) → m.revokedAt ≠ none →
    Act env sid c (.found p m) w .now (.ok (w.now env)) w.tick
      (.sweeps (.family m.familyId) (w.now env) none (.error (.domain .invalidToken)))
  | logout {t : Token} {p : TokenPayload} {m : RefreshTokenModel} {w : World} :
    c = some (.logout ⟨t⟩) → Act env sid c (.found p m) w .now (.ok (w.now env)) w.tick
      (.sweeps (.family m.familyId) (w.now env) none (.ok .none))
  | live {t : Token} {p : TokenPayload} {m : RefreshTokenModel} {w : World} :
    c = some (.refreshToken ⟨t⟩) → m.revokedAt = none → w.now env < asUtc m.expiresAt →
    Act env sid c (.found p m) w .now (.ok (w.now env)) w.tick (.live p m (w.now env))
  | allow {p : TokenPayload} {m : RefreshTokenModel} {at' : Instant} {u : User} {w : World}
    {ans : Except Exc _} : UserId.fromStr p.subject = .ok u.id →
    UserMapper.toModel u ∈ w.db.users.rows → u.isActive = true →
    Act env sid c (.live p m at') w (.usersGetById u.id) ans w (.allowed m at' u)
  /-- The row is read once more, as it is by then. -/
  | update {m m' : RefreshTokenModel} {at' : Instant} {u : User} {w : World}
    {record : RefreshTokenRecord} : record.jti = m.jti →
    w.db.refreshTokens.get m.jti = some m' →
    Act env sid c (.allowed m at' u) w (.refreshTokensUpdate record) (.ok ()) w
      (.opens (some (m, m'.revokedAt.isSome)) u)
  | lookup {cmd : LoginCommand} {email : Email} {u : User} {w : World} {ans : Except Exc _} :
    c = some (.login cmd) → UserMapper.toModel u ∈ w.db.users.rows →
    Act env sid c .begun w (.usersGetByEmail email) ans w (.loaded u)
  | verify {cmd : LoginCommand} {u : User} {w : World} : c = some (.login cmd) →
    Act env sid c (.loaded u) w (.verify cmd.password u.hashedPassword.value) (.ok true) w
      (.opens none u)
  | load {cmd : ChangePasswordCommand} {u : User} {w : World} {ans : Except Exc _} :
    c = some (.changePassword cmd) → u.id.value = cmd.userId →
    UserMapper.toModel u ∈ w.db.users.rows →
    Act env sid c .begun w (.usersGetById ⟨cmd.userId⟩) ans w (.loaded u)
  | change {cmd : ChangePasswordCommand} {u : User} {hp : HashedPassword} {w : World} :
    c = some (.changePassword cmd) →
    Act env sid c (.loaded u) w .now (.ok (w.now env)) w.tick
      (.sweeps (.user u.id.value) (w.now env) (some (u, hp)) (.ok .none))
  | draw {src : Replaced} {u : User} {w : World} :
    Act env sid c (.opens src u) w .uuid4 (.ok (w.freshId env)) w.drawId
      (.drew src u (w.freshId env))
  | issue {src : Replaced} {u : User} {jti : UUID} {w : World} {ans : Except Exc _} :
    Act env sid c (.drew src u jti) w (.createRefreshToken u.id.str jti) ans
      (w.issue (env.refreshToken (w.now env) u.id.value jti).token) (.issued src u jti)
  | add {src : Replaced} {u : User} {jti : UUID} {w : World} {record : RefreshTokenRecord} :
    record.jti = jti → record.userId = u.id → record.revokedAt = none →
    (∀ m seen, src = some (m, seen) → record.familyId = m.familyId) →
    Act env sid c (.issued src u jti) w (.refreshTokensAdd record) (.ok ()) w
      (.adds src (RefreshTokenMapper.toModel record))
  | store {src : Replaced} {r : RefreshTokenModel} {w : World} {db : Database}
    {p : RefreshTokenModel → Bool} {at' : Instant} : src.Revokes p →
    w.db.Extends db p at' [r] → db.users = w.db.users →
    Act env sid c (.adds src r) w .commit (.ok ()) { w.close sid with db } .stored
  | access {u : User} {id : UUID} {w w' : World} {ans : Except Exc _} : w'.db = w.db →
    w'.statements = w.statements → w.ticks < w'.ticks → w.ids ≤ w'.ids →
    w'.issued = env.accessToken (w.now env) u.id.value id :: w.issued →
    Act env sid c .stored w (.createAccessToken u.id.str) ans w' .stored
  | sweep {scope : Scope} {at' : Instant} {change : PasswordChange} {x : Except Exc Response}
    {w : World} {st : Statement} {ans : Except Exc _} :
    st = ⟨sid, scope, at', w.db.selected scope⟩ →
    Act env sid c (.sweeps scope at' change x) w (scope.port at') ans
      { w with statements := st :: w.statements } (.swept st change x)
  | commit {st : Statement} {change : PasswordChange} {x : Except Exc Response} {w : World} :
    Act env sid c (.swept st change x) w .commit (.ok ())
      { w.close sid with db := change.apply (w.db.revokeRows st.rows st.at') } (.ended x)

/-- The protocol of sessions. -/
@[reducible] def sessions (env : Env) (requests : ℕ → Option Command) :
    Abstraction ℕ Port Port.Ret Exc Response World where
  Phase := Phase
  Rely := Rely requests
  Act sid := Act env sid (requests sid)
  Final _ := Phase.Outcome

/-! ### The handlers follow the protocol -/

section sim

variable {env : Env} {requests : ℕ → Option Command} {sid : ℕ}

@[simp] theorem system_exec : (system env).exec = exec env := rfl

theorem refused_error {φ : Phase} {w w' : World} {o : Port} {e : Exc}
    (h : Refusal env w w' (requests sid) φ o e) (hw : Unchanged w w') (ho : o.Checks) :
    ∃ φ', Act env sid (requests sid) φ w o (.error e) w' φ' ∧ φ'.Outcome (.error e) :=
  ⟨.ended (.error e), .refuse h hw ho fun _ => ⟨e, rfl⟩, rfl⟩

theorem refused_raise {φ : Phase} {w w' : World} {o : Port} {r : o.Ret} {e : Exc} {s : Session}
    (h : Refusal env w w' (requests sid) φ o e) (hw : Unchanged w w') (ho : o.Checks)
    (hne : o ≠ .commit) :
    ∃ φ', Act env sid (requests sid) φ w o (.ok r) w' φ' ∧
      Sim (system env) (sessions env requests) sid (.raise e) s φ' :=
  ⟨.ended (.error e), .refuse h hw ho fun h => absurd h hne, rfl⟩

/-- A call that reads and writes nothing keeps the phase. -/
theorem sim_quiet {φ : Phase} {o : Port} {k : o.Ret → Handler Response} {s : Session}
    (ho : o.Quiet) (h : ∀ w, ∃ r s' w', exec env sid o (s, w) = (.ok r, s', w') ∧ Unchanged w w' ∧
      Sim (system env) (sessions env requests) sid (k r) s' φ) :
    Sim (system env) (sessions env requests) sid (.call o k) s φ := by
  refine Sim.call fun w _ => ?_
  obtain ⟨r, s', w', hx, hw, hk⟩ := h w
  rw [system_exec, hx]
  exact ⟨φ, .quiet ho hw, hk⟩

omit [Unicode] in
/-- What a lookup by address finds in an empty session. -/
theorem Session.selectUserByEmail_cases (d : Dialect) (db : Database) (email : Str) :
    empty.selectUserByEmail d db email = .ok none ∨
      (∃ m ∈ db.users.rows, empty.selectUserByEmail d db email = .ok (some (d.readUser m))) ∨
      empty.selectUserByEmail d db email = .error .multipleResultsFound := by
  unfold selectUserByEmail
  split
  · exact .inl rfl
  · next m hrows =>
    have hmem : m ∈ db.users.rows.filter fun m => m.email = email := by simp [hrows]
    have hm := (List.mem_filter.mp hmem).1
    refine .inr (.inl ⟨m, hm, ?_⟩)
    rw [getUser_empty, Table.get_key hm, Option.map_some]
  · exact .inr (.inr rfl)

/-- What flushing does for the record that a request replaces. -/
inductive Replaced.Flushes (src : Replaced) (db : Database) : Except Exc Database → Prop
  | gone {m : RefreshTokenModel} {seen : Bool} {e : Exc} : src = some (m, seen) →
    db.refreshTokens.get m.jti = none → src.Flushes db (.error e)
  | written {db' : Database} {p : RefreshTokenModel → Bool} {at' : Instant} : src.Revokes p →
    db.Extends db' p at' [] → db'.users = db.users → src.Flushes db (.ok db')

omit [Unicode] in
theorem Replaced.flushes_none (db : Database) : Replaced.Flushes none db (.ok db) :=
  .written (.inl rfl) (show db.Extends db _ 0 [] from .of_append (by simp)) rfl

omit [Unicode] in
/-- The record that was read once more as `m'` is written back. -/
theorem Replaced.flushes_update (db : Database) (d : Dialect) {m m' : RefreshTokenModel}
    {record : RefreshTokenRecord} {at' : Instant} (hjti : m'.jti = m.jti)
    (hrevoke : record.revokedAt = some at') :
    Replaced.Flushes (some (m, m'.revokedAt.isSome)) db (db.updateRefreshToken
      ⟨d.readRefreshToken m', RefreshTokenMapper.applyToModel record (d.readRefreshToken m')⟩) := by
  rw [Database.updateRefreshToken_revoke _ _ _ hrevoke, hjti]
  split_ifs with hsame hgone
  · -- it was revoked at this instant
    have hseen : m'.revokedAt.isSome = true := by
      have hread : (d.readRefreshToken m').revokedAt.isSome = m'.revokedAt.isSome := by
        simp [Dialect.readRefreshToken]
      rw [← hread, hsame]
      rfl
    exact .written (.inr ⟨⟨m, by rw [hseen]⟩, rfl⟩)
      (show db.Extends db _ at' [] from .of_append (by simp)) rfl
  · exact .gone rfl hgone
  · refine .written (.inl rfl) (show db.Extends _ _ at' [] from ?_) rfl
    rw [Database.Extends, Database.rows_revokeRows_singleton, List.append_nil]
    refine List.map_congr_left fun m₁ _ => ?_
    simp [RefreshTokenModel.revokeIf, selects]

/-- Committing a new record stores it, unless a row it needs is missing or a row
is in its way. -/
theorem sim_commit {src : Replaced} {r : RefreshTokenModel} {s : Session}
    {k : Unit → Handler Response}
    (hflush : ∀ db, ∃ x, s.flush db = x.bind (fun db => db.insertRefreshToken r) ∧
      src.Flushes db x)
    (hk : ∀ s', Sim (system env) (sessions env requests) sid (k ()) s' .stored) :
    Sim (system env) (sessions env requests) sid (.call .commit k) s (.adds src r) := by
  refine Sim.call fun w hrely => ?_
  have hclose : Unchanged w (w.close sid) := by
    rw [World.close_of_own hrely.own]
    exact ⟨rfl, rfl, rfl, le_rfl, le_rfl⟩
  obtain ⟨x, hx, hsrc⟩ := hflush w.db
  simp only [system_exec, exec, execCommit, World.view_of_own hrely.own, hx]
  cases hsrc with
  | gone hsrc hgone =>
    refine refused_error (.commit (.inl ?_)) hclose trivial
    exact ⟨_, _, hsrc, hgone⟩
  | @written db p at' hp hrows husers =>
    simp only [Except.bind, Database.insertRefreshToken]
    rcases hinsert : db.refreshTokens.insert r with _ | tokens
    · refine refused_error (.commit (.inr (.inl ?_))) hclose trivial
      obtain ⟨m', hm', hjti⟩ := Table.insert_eq_none.mp hinsert
      rcases hrows.mem_iff.mp hm' with ⟨m, hm, rfl⟩ | hm
      · exact ⟨m, hm, by rw [← hjti, RefreshTokenModel.jti_revokeIf]⟩
      · cases hm
    · by_cases huser : db.users.get r.userId = none
      · simp only [huser, if_true]
        exact refused_error (.commit (.inr (.inr (by rw [← husers]; exact huser)))) hclose
          trivial
      · simp only [huser, if_false]
        have hstored : w.db.Extends ⟨db.users, tokens⟩ p at' [r] := by
          rw [Database.Extends, List.append_nil] at hrows
          rw [Database.Extends, Table.rows_of_insert hinsert, hrows]
        exact ⟨.stored, .store hp hstored husers, hk _⟩

/-- A bulk update is executed and committed, with what else the session flushes. -/
theorem sim_sweep (scope : Scope) {at' : Instant} {change : PasswordChange}
    {x : Except Exc Response} {s : Session} {k : Unit → Handler Response}
    (hflush : ∀ db : Database, (∀ u hp, change = some (u, hp) →
      UserMapper.toModel u ∈ db.users.rows) →
      (s.synchronize scope at').flush db = .ok (change.apply db))
    (hreq : ∀ y, change = some y → ∃ c, requests sid = some (.changePassword c))
    (hk : ∀ s', Sim (system env) (sessions env requests) sid (k ()) s' (.ended x)) :
    Sim (system env) (sessions env requests) sid
      (.call (scope.port at') fun _ => .call .commit k) s (.sweeps scope at' change x) := by
  refine Sim.call fun w₀ hrely => ?_
  obtain ⟨r, hbulk⟩ : ∃ r, exec env sid (scope.port at') (s, w₀) =
      (.ok r, execBulk sid scope at' s w₀) := by
    cases scope <;> exact ⟨(), rfl⟩
  rw [system_exec, hbulk]
  refine ⟨_, .sweep (by rw [World.view_of_own hrely.own]), Sim.call fun w hrely => ?_⟩
  have hcommit := hflush (w.db.revokeRows ((w₀.view sid).selected scope) at') fun u hp h => by
    obtain ⟨c, hc⟩ := hreq _ h
    exact hrely.kept c u hc (by rw [h]; rfl)
  simp only [system_exec, exec, execCommit, World.view_of_own_singleton hrely.own, hcommit]
  exact ⟨_, .commit, hk _⟩

/-- Revoking a family, in a session that has changed nothing. -/
theorem sim_revokeFamily {f : UUID} {at' : Instant} {x : Except Exc Response}
    {k : Unit → Handler Response}
    (hk : ∀ s', Sim (system env) (sessions env requests) sid (k ()) s' (.ended x)) :
    Sim (system env) (sessions env requests) sid
      (.call ((Scope.family f).port at') fun _ => .call .commit k) .empty
      (.sweeps (.family f) at' none x) :=
  sim_sweep (.family f) (fun _ _ => rfl) (by simp) hk

/-- After the commit the access token is issued, and the pair returned. -/
theorem sim_access {u : User} {s : Session} {refreshToken : Token} :
    Sim (system env) (sessions env requests) sid
      (.call (.createAccessToken u.id.str) fun accessToken =>
        .pure (.tokenPair { accessToken, refreshToken })) s .stored := by
  refine Sim.call fun w _ => ⟨.stored, ?_, ⟨_, rfl⟩⟩
  exact .access rfl rfl (Nat.lt_succ_self _) (Nat.le_succ _) rfl

theorem sim_refresh {t : Token} (hc : requests sid = some (.refreshToken ⟨t⟩)) :
    Sim (system env) (sessions env requests) sid (Command.execute (.refreshToken ⟨t⟩)) .empty
      .begun := by
  simp only [Command.execute, RefreshTokenHandler.execute, Prog.op_bind, Prog.map_call]
  refine Sim.call fun w hrely => ?_
  simp only [system_exec, exec]
  rcases hdecode : w.decode env t with e | p
  · exact refused_error (by rw [hc]; exact .rejected hdecode (Nat.lt_succ_self _)) (.tick _) trivial
  simp only [ofDomain]
  by_cases htype : p.tokenType = .refresh
  swap
  · rw [if_pos htype]
    exact refused_raise (by rw [hc]; exact .type hdecode htype (Nat.lt_succ_self _)) (.tick _)
      trivial (by simp)
  rw [if_neg (not_not.mpr htype)]
  refine ⟨.holds p, .accept (.inl hc) hdecode htype, Sim.call fun w hrely => ?_⟩
  simp only [system_exec, exec, World.view_of_own hrely.own, Session.getRefreshToken_empty]
  rcases hstored : w.db.refreshTokens.get p.tokenId with _ | m
  · exact refused_raise (.record hstored) (.refl _) trivial (by simp)
  refine ⟨.found p m, .find hstored, ?_⟩
  simp only [Option.map_some]
  refine Sim.call fun w _ => ?_
  simp only [system_exec, exec, RefreshTokenMapper.isRevoked_toDomain]
  rcases hrevoked : m.revokedAt with _ | revokedAt
  swap
  · -- replay: the family is revoked and the request refused
    rw [if_pos (by simp [Dialect.readRefreshToken, hrevoked])]
    exact ⟨_, .replay hc (by simp [hrevoked]), sim_revokeFamily fun s' => rfl⟩
  rw [if_neg (by simp [Dialect.readRefreshToken, hrevoked])]
  have hexpires : (RefreshTokenMapper.toDomain (env.dialect.readRefreshToken m)).expiresAt =
      asUtc m.expiresAt := asUtc_readDatetime ..
  rw [hexpires]
  by_cases hexpired : asUtc m.expiresAt ≤ w.now env
  · rw [if_pos hexpired]
    exact refused_raise (.expired hrevoked hexpired (Nat.lt_succ_self _)) (.tick _)
      trivial (by simp)
  rw [if_neg hexpired]
  -- the record is live: the subject is checked, and its user read
  rcases hsubject : UserId.fromStr p.subject with e | userId
  · exact refused_raise (.subject hsubject) (.tick _) trivial (by simp)
  refine ⟨_, .live hc hrevoked (not_le.mp hexpired), ?_⟩
  generalize w.now env = at'
  refine Sim.call fun w hrely => ?_
  simp only [system_exec, exec, World.view_of_own hrely.own, Session.getUser_empty]
  rcases hget : w.db.users.get userId.value with _ | um
  · refine refused_raise (.user hsubject fun u hu hid => ?_) (.refl _) trivial (by simp)
    exact absurd (congrArg UserId.value hid) (Table.get_eq_none.mp hget _ hu)
  obtain ⟨hum, hid⟩ := Table.get_eq_some.mp hget
  obtain ⟨u, rfl⟩ := hrely.readable um hum
  obtain rfl : u.id = userId := UserId.ext hid
  simp only [Option.map_some, userOfModel, UserMapper.toDomain_toModel, ofDomain, Except.map]
  by_cases hactive : u.isActive = true
  swap
  · simp only [hactive]
    refine refused_raise (.user hsubject fun u' hu' hid' => ?_) (.refl _) trivial (by simp)
    have hrow := w.db.users.eq_of_key_eq hu' hum (congrArg UserId.value hid')
    have hsame : u'.isActive = u.isActive := congrArg UserModel.isActive hrow
    simpa [hsame] using hactive
  simp only [hactive, Bool.not_true, Bool.false_eq_true, if_false]
  -- rotation: the revoked record is staged, and written with its successor by the commit
  refine ⟨_, .allow hsubject hum hactive, ?_⟩
  refine sim_quiet trivial fun w => ⟨_, _, w, rfl, .refl _, Sim.call fun w hrely => ?_⟩
  have hlive : (RefreshTokenMapper.toDomain (env.dialect.readRefreshToken m)).revokedAt = none := by
    simp [RefreshTokenMapper.toDomain, Dialect.readRefreshToken, hrevoked]
  have hrevoke := RefreshTokenRecord.revokedAt_revoke at' hlive
  generalize hrecord : (RefreshTokenMapper.toDomain (env.dialect.readRefreshToken m)).revoke at' =
    record at hrevoke
  have hjti : record.jti = m.jti := by
    rw [← hrecord, RefreshTokenRecord.jti_revoke]
    rfl
  have hfamily : record.familyId = m.familyId := by
    rw [← hrecord, RefreshTokenRecord.familyId_revoke]
    rfl
  rcases hreread : w.db.refreshTokens.get m.jti with _ | m'
  · -- the row was deleted meanwhile
    simp only [system_exec, exec, World.view_of_own hrely.own, Session.getRefreshToken_empty, hjti,
      hreread, Option.map_none]
    exact refused_error (.missing hreread) (.refl _) trivial
  have hview : (w.view sid).refreshTokens.get record.jti = some m' := by
    rw [World.view_of_own hrely.own, hjti]
    exact hreread
  rw [system_exec, exec_refreshTokensUpdate hview]
  refine ⟨_, .update hjti hreread, Sim.call fun w hrely => ?_⟩
  refine ⟨_, .draw, Sim.call fun w' hrely => ?_⟩
  refine ⟨_, .issue, Sim.call fun w'' hrely => ?_⟩
  refine ⟨_, .add rfl rfl rfl ?_, sim_commit (fun db => ?_) fun s' => sim_access⟩
  · rintro m'' seen ⟨⟩
    exact hfamily
  · refine ⟨_, Session.flush_rotation _ _ _, ?_⟩
    exact Replaced.flushes_update db env.dialect (Table.get_eq_some.mp hreread).2 hrevoke

theorem sim_logout {t : Token} (hc : requests sid = some (.logout ⟨t⟩)) :
    Sim (system env) (sessions env requests) sid (Command.execute (.logout ⟨t⟩)) .empty .begun := by
  simp only [Command.execute, LogoutHandler.execute, Prog.op_bind, Prog.map_call]
  have hother : ∀ {w w' φ o e}, φ.statements = [] →
      Refusal env w w' (requests sid) φ o e := by
    rw [hc]
    exact fun h => .other (by simp) h
  refine Sim.call fun w hrely => ?_
  simp only [system_exec, exec]
  rcases hdecode : w.decode env t with e | p
  · exact refused_error (hother rfl) (.tick _) trivial
  simp only [ofDomain]
  by_cases htype : p.tokenType = .refresh
  swap
  · rw [if_pos htype]
    exact refused_raise (hother rfl) (.tick _) trivial (by simp)
  rw [if_neg (not_not.mpr htype)]
  refine ⟨.holds p, .accept (.inr hc) hdecode htype, Sim.call fun w hrely => ?_⟩
  simp only [system_exec, exec, World.view_of_own hrely.own, Session.getRefreshToken_empty]
  rcases hstored : w.db.refreshTokens.get p.tokenId with _ | m
  · exact ⟨_, .forget ⟨t, hc⟩, rfl⟩
  refine ⟨.found p m, .find hstored, Sim.call fun w _ => ⟨_, .logout hc, ?_⟩⟩
  exact sim_revokeFamily fun s' => rfl

theorem sim_login {cmd : LoginCommand} (hc : requests sid = some (.login cmd)) :
    Sim (system env) (sessions env requests) sid (Command.execute (.login cmd)) .empty
      (.start (some (.login cmd))) := by
  have hother : ∀ {w w' φ o e}, φ.statements = [] →
      Refusal env w w' (requests sid) φ o e := by
    rw [hc]
    exact fun h => .other (by simp) h
  -- an unknown or inactive user is refused at the lookup; the hash that follows is no read
  have hdummy : ∀ (s : Session), Sim (system env) (sessions env requests) sid
      (.call (.hash cmd.password) fun _ => .raise (.domain .invalidCredentials)) s
      (.ended (.error (.domain .invalidCredentials))) := fun s =>
    sim_quiet trivial fun w => ⟨_, _, _, rfl, .drawSalt _, rfl⟩
  simp only [Command.execute, LoginHandler.execute, Phase.start]
  rcases hemail : Email.ofStr cmd.email with e | email
  · rfl
  simp only [Prog.op_bind, Prog.map_call]
  refine Sim.call fun w hrely => ?_
  simp only [system_exec, exec, World.view_of_own hrely.own]
  rcases Session.selectUserByEmail_cases env.dialect w.db email.value with h | ⟨m, hm, h⟩ | h
  · rw [h]
    exact ⟨_, .refuse (hother rfl) (.refl _) trivial (by simp), hdummy _⟩
  swap
  · rw [h]
    exact refused_error (hother rfl) (.refl _) trivial
  obtain ⟨u, rfl⟩ := hrely.readable m hm
  simp only [h, userOfModel, UserMapper.toDomain_toModel, ofDomain, Except.map]
  by_cases hactive : u.isActive = true
  swap
  · simp only [hactive]
    exact ⟨_, .refuse (hother rfl) (.refl _) trivial (by simp), hdummy _⟩
  simp only [hactive, Bool.not_true, Bool.false_eq_true, if_false]
  refine ⟨_, .lookup hc hm, Sim.call fun w hrely => ?_⟩
  simp only [system_exec, exec]
  by_cases hverify : env.verify cmd.password u.hashedPassword.value = true
  swap
  · simp only [hverify]
    exact refused_raise (hother rfl) (.refl _) trivial (by simp)
  simp only [hverify, Bool.not_true, Bool.false_eq_true, if_false]
  refine ⟨_, .verify hc, Sim.call fun w _ => ⟨_, .draw, Sim.call fun w' _ => ⟨_, .issue, ?_⟩⟩⟩
  refine sim_quiet trivial fun w'' => ⟨_, _, _, rfl, .drawId _, ?_⟩
  refine Sim.call fun w _ => ⟨_, .add rfl rfl rfl (by simp), ?_⟩
  refine sim_commit (fun db => ?_) fun s' => sim_access
  exact ⟨.ok db, Session.flush_addRefreshToken db _, Replaced.flushes_none db⟩

theorem sim_changePassword {cmd : ChangePasswordCommand}
    (hc : requests sid = some (.changePassword cmd)) :
    Sim (system env) (sessions env requests) sid (Command.execute (.changePassword cmd)) .empty
      .begun := by
  simp only [Command.execute, ChangePasswordHandler.execute, Prog.op_bind, Prog.map_call]
  have hother : ∀ {w w' φ o e}, φ.statements = [] →
      Refusal env w w' (requests sid) φ o e := by
    rw [hc]
    exact fun h => .other (by simp) h
  refine Sim.call fun w hrely => ?_
  simp only [system_exec, exec, World.view_of_own hrely.own, Session.getUser_empty]
  rcases hget : w.db.users.get cmd.userId with _ | m
  · exact refused_raise (hother rfl) (.refl _) trivial (by simp)
  obtain ⟨hm, hid⟩ := Table.get_eq_some.mp hget
  obtain ⟨u, rfl⟩ := hrely.readable m hm
  simp only [Option.map_some, userOfModel, UserMapper.toDomain_toModel, ofDomain, Except.map]
  refine ⟨.loaded u, .load hc hid hm, Sim.call fun w _ => ?_⟩
  simp only [system_exec, exec]
  by_cases hverify : env.verify cmd.currentPassword u.hashedPassword.value = true
  swap
  · simp only [hverify]
    exact refused_raise (hother rfl) (.refl _) trivial (by simp)
  simp only [hverify, Bool.not_true, Bool.false_eq_true, if_false]
  refine ⟨_, .quiet trivial (.refl _), Sim.call fun w _ => ?_⟩
  simp only [system_exec, exec]
  rcases hhash : HashedPassword.ofStr (env.hash w.salts cmd.newPassword) with e | hashed
  · exact refused_raise (hother rfl) (.drawSalt _) trivial (by simp)
  refine ⟨_, .quiet trivial (.drawSalt _), ?_⟩
  refine sim_quiet trivial fun w => ⟨_, _, w, rfl, .refl _, ?_⟩
  refine Sim.call fun w hrely => ?_
  -- the row is read once more, and nobody has changed it
  have hrow : (w.view sid).users.get ({ u with events := [] }.changePassword hashed).id.value =
      some (UserMapper.toModel u) := by
    rw [World.view_of_own hrely.own]
    exact Table.get_key (hrely.kept cmd u hc rfl)
  rw [system_exec, exec_usersUpdate hrow]
  refine ⟨_, .quiet trivial (.refl _), Sim.call fun w _ => ?_⟩
  refine ⟨.sweeps _ _ (some (u, hashed)) _, .change hc, ?_⟩
  refine sim_sweep (.user u.id.value) (fun db hkept => ?_) (fun _ _ => ⟨cmd, hc⟩) fun s' => rfl
  exact (Session.flush_ofUser _ _).trans
    (Database.updateUser_changePassword env.dialect (hkept u hashed rfl) hashed)

/-- The commands that open, renew or end sessions. -/
def Command.IsSession : Command → Prop
  | .createUser _ => False
  | _ => True

/-- **The four handlers follow the protocol.** -/
theorem sim_command (hreq : ∀ sid c, requests sid = some c → c.IsSession) (w : World) (sid : ℕ) :
    Sim (system env) (sessions env requests) sid ((start requests w).threads sid).prog
      ((start requests w).threads sid).loc (.start (requests sid)) := by
  rcases hc : requests sid with _ | c
  · simp only [start, hc]
    rfl
  · have hsession := hreq sid c hc
    simp only [start, hc]
    cases c with
    | createUser c => exact hsession.elim
    | login c => exact sim_login hc
    | refreshToken c => exact sim_refresh hc
    | logout c => exact sim_logout hc
    | changePassword c => exact sim_changePassword hc

end sim

/-! ### What every step keeps -/

section step

variable {env : Env} {sid : ℕ} {c : Option Command} {ψ φ' : Phase} {w w' : World} {o : Port}
  {ans : Except Exc o.Ret}

theorem Refusal.statements {e : Exc} (h : Refusal env w w' c ψ o e) : ψ.statements = [] := by
  cases h with
  | other _ h => exact h
  | _ => rfl

omit [Unicode] in
theorem Unchanged.statementsOf (h : Unchanged w w') (sid : ℕ) :
    w'.statementsOf sid = w.statementsOf sid := by
  rw [World.statementsOf, h.statements]
  rfl

/-- A step leaves the transactions of the others alone. -/
theorem Act.statementsOf_other (h : Act env sid c ψ w o ans w' φ') {sid' : ℕ} (hne : sid' ≠ sid) :
    w'.statementsOf sid' = w.statementsOf sid' := by
  cases h with
  | quiet _ hw => exact hw.statementsOf sid'
  | refuse _ hw => exact hw.statementsOf sid'
  | store => exact (World.statementsOf_close sid').trans (if_neg hne)
  | commit => exact (World.statementsOf_close sid').trans (if_neg hne)
  | access _ hst => rw [World.statementsOf, hst]; rfl
  | sweep hst =>
    rw [World.statementsOf_cons, if_neg]
    rw [hst]
    exact hne.symm
  | _ => rfl

/-- **A session has exactly the open bulk update of its phase.** -/
theorem Act.own_statements (h : Act env sid c ψ w o ans w' φ')
    (hown : w.statementsOf sid = ψ.statements) : w'.statementsOf sid = φ'.statements := by
  cases h with
  | quiet _ hw => exact (hw.statementsOf sid).trans hown
  | refuse hr hw => exact (hw.statementsOf sid).trans (hown.trans hr.statements)
  | store => exact (World.statementsOf_close sid).trans (if_pos rfl)
  | commit => exact (World.statementsOf_close sid).trans (if_pos rfl)
  | access _ hst => rw [World.statementsOf, hst]; exact hown
  | sweep hst =>
    rw [World.statementsOf_cons, if_pos (by rw [hst]), hown]
    rfl
  | _ => exact hown

/-- Only a password change writes the users. -/
theorem Act.users (h : Act env sid c ψ w o ans w' φ') : w'.db.users = w.db.users ∨
    ∃ st u hp x, ψ = .swept st (some (u, hp)) x ∧ φ' = .ended x ∧ o = .commit ∧
      w'.db.users = (w.db.setPassword u.id.value hp.value).users := by
  cases h with
  | quiet _ hw => exact .inl (by rw [hw.db])
  | refuse _ hw => exact .inl (by rw [hw.db])
  | store _ _ husers => exact .inl husers
  | access hdb => exact .inl (by rw [hdb])
  | @commit st change x w =>
    rcases change with _ | ⟨u, hp⟩
    · exact .inl rfl
    · exact .inr ⟨st, u, hp, x, rfl, rfl, rfl, rfl⟩
  | _ => exact .inl rfl

omit [Unicode] in
theorem Database.Extends.of_revokeRows (db : Database) (rows : List UUID) (at' : Instant) :
    db.Extends (db.revokeRows rows at') (fun m => rows.contains m.jti) at' [] :=
  (List.append_nil _).symm

/-- **Records are only revoked**, and the one a request has added is stored. -/
theorem Act.rows (h : Act env sid c ψ w o ans w' φ') : ∃ p at' new, w.db.Extends w'.db p at' new ∧
    ∀ r ∈ new, ∃ src, ψ = .adds src r ∧ φ' = .stored ∧ o = .commit := by
  cases h with
  | quiet _ hw => exact ⟨_, _, [], .of_append (by simp [hw.db]), by simp⟩
  | refuse _ hw => exact ⟨_, _, [], .of_append (by simp [hw.db]), by simp⟩
  | access hdb => exact ⟨_, _, [], .of_append (by simp [hdb]), by simp⟩
  | store _ hrows => exact ⟨_, _, _, hrows, by simp⟩
  | @commit st change x w =>
    have hrows := Database.Extends.of_revokeRows w.db st.rows st.at'
    rcases change with _ | ⟨u, hp⟩ <;> exact ⟨_, _, [], hrows, by simp⟩
  | _ => exact ⟨_, _, [], .of_append (List.append_nil _).symm, by simp⟩

/-- The clock and the ids go forward, and tokens stay issued. -/
theorem Act.counters (h : Act env sid c ψ w o ans w' φ') :
    w.ticks ≤ w'.ticks ∧ w.ids ≤ w'.ids ∧ w.issued ⊆ w'.issued := by
  cases h with
  | quiet _ hw => exact ⟨hw.ticks, hw.ids, by rw [hw.issued]; exact List.Subset.refl _⟩
  | refuse _ hw => exact ⟨hw.ticks, hw.ids, by rw [hw.issued]; exact List.Subset.refl _⟩
  | access _ _ ht hi hissued => exact ⟨ht.le, hi, by rw [hissued]; exact List.subset_cons_self ..⟩
  | draw => exact ⟨le_rfl, Nat.le_succ _, List.Subset.refl _⟩
  | issue => exact ⟨Nat.le_succ _, le_rfl, List.subset_cons_self ..⟩
  | accept | replay | logout | live | change => exact ⟨Nat.le_succ _, le_rfl, List.Subset.refl _⟩
  | _ => exact ⟨le_rfl, le_rfl, List.Subset.refl _⟩

theorem Act.idle (h : Act env sid c ψ w o ans w' φ') (hφ : φ' = .idle) : ψ = .idle := by
  cases h with
  | quiet => exact hφ
  | _ => cases hφ

/-- A password change comes from the command, and from the user read. -/
theorem Act.change_eq (h : Act env sid c ψ w o ans w' φ') {x : User × HashedPassword}
    (hx : φ'.change = some x) :
    ψ.change = some x ∨ (∃ cmd, c = some (.changePassword cmd)) ∧ ψ.user = some x.1 := by
  cases h with
  | quiet => exact .inl hx
  | change hc =>
    cases hx
    exact .inr ⟨⟨_, hc⟩, rfl⟩
  | sweep => exact .inl hx
  | _ => cases hx

theorem Act.user_eq (h : Act env sid c ψ w o ans w' φ') {u : User} (hu : φ'.user = some u) :
    (ψ.user = some u ∨ UserMapper.toModel u ∈ w.db.users.rows) ∧ w'.db.users = w.db.users := by
  cases h with
  | quiet _ hw => exact ⟨.inl hu, by rw [hw.db]⟩
  | lookup _ hm => cases hu; exact ⟨.inr hm, rfl⟩
  | load _ _ hm => cases hu; exact ⟨.inr hm, rfl⟩
  | change => cases hu; exact ⟨.inl rfl, rfl⟩
  | sweep => exact ⟨.inl hu, rfl⟩
  | _ => cases hu

end step

/-! ### What requests may rely on -/

/-- There is at most one password change among the requests. -/
def OneChange (requests : ℕ → Option Command) : Prop :=
  ∀ i j c c', requests i = some (.changePassword c) → requests j = some (.changePassword c') → i = j

/-- What all requests rely on. -/
structure Grounded (requests : ℕ → Option Command) (φ : ℕ → Phase) (w : World) : Prop where
  own : ∀ sid, w.statementsOf sid = (φ sid).statements
  readable : ∀ m ∈ w.db.users.rows, ∃ u : User, m = UserMapper.toModel u
  changes : ∀ sid x, (φ sid).change = some x → ∃ c, requests sid = some (.changePassword c)
  kept : ∀ sid c u, requests sid = some (.changePassword c) → (φ sid).user = some u →
    UserMapper.toModel u ∈ w.db.users.rows

section grounded

variable {env : Env} {requests : ℕ → Option Command} {φ : ℕ → Phase} {w w' : World} {sid : ℕ}
  {o : Port} {ans : Except Exc o.Ret} {φ' : Phase}

theorem Grounded.rely (h : Grounded requests φ w) (sid : ℕ) : Rely requests sid (φ sid) w where
  own := h.own sid
  readable := h.readable
  kept := h.kept sid

theorem Grounded.start {env : Env} (hw : Settled env w) :
    Grounded requests (fun sid => .start (requests sid)) w := by
  have hphase : ∀ c, (Phase.start c).statements = [] ∧ (Phase.start c).user = none ∧
      (Phase.start c).change = none := by
    intro c
    unfold Phase.start
    repeat' split
    all_goals exact ⟨rfl, rfl, rfl⟩
  refine ⟨fun sid => ?_, hw.readable, fun sid x hx => ?_, fun sid c u _ hu => ?_⟩
  · rw [World.statementsOf_of_nil hw.statements, (hphase _).1]
  · simp [(hphase _).2.2] at hx
  · simp [(hphase _).2.1] at hu

/-- **Every step keeps what the requests rely on.** -/
theorem Grounded.step (h : Grounded requests φ w) (hone : OneChange requests)
    (hact : Act env sid (requests sid) (φ sid) w o ans w' φ') :
    Grounded requests (Function.update φ sid φ') w' := by
  have husers := hact.users
  constructor
  · intro sid'
    by_cases hsid : sid' = sid
    · subst hsid
      rw [Function.update_self]
      exact hact.own_statements (h.own _)
    · rw [Function.update_of_ne hsid, hact.statementsOf_other hsid]
      exact h.own sid'
  · rcases husers with heq | ⟨st, u, hp, x, -, -, -, heq⟩
    · rw [heq]
      exact h.readable
    · rw [heq]
      intro m hm
      obtain ⟨m₀, hm₀, rfl⟩ := List.mem_map.mp hm
      obtain ⟨u₀, rfl⟩ := h.readable m₀ hm₀
      split
      · exact ⟨u₀.changePassword hp, rfl⟩
      · exact ⟨u₀, rfl⟩
  · intro sid' x hx
    by_cases hsid : sid' = sid
    · subst hsid
      rw [Function.update_self] at hx
      rcases hact.change_eq hx with hold | ⟨hc, -⟩
      · exact h.changes _ x hold
      · exact hc
    · rw [Function.update_of_ne hsid] at hx
      exact h.changes sid' x hx
  · intro sid' c u hc hu
    by_cases hsid : sid' = sid
    · subst hsid
      rw [Function.update_self] at hu
      obtain ⟨hold, heq⟩ := hact.user_eq hu
      rw [heq]
      exact hold.elim (h.kept _ c u hc) id
    · rw [Function.update_of_ne hsid] at hu
      -- the others write no users: the one password change is this one
      have heq : w'.db.users = w.db.users := by
        rcases husers with heq | ⟨st, u', hp, x, hφ, -⟩
        · exact heq
        · obtain ⟨c', hc'⟩ := h.changes sid (u', hp) (by rw [hφ]; rfl)
          exact absurd (hone _ _ c c' hc hc') hsid
      rw [heq]
      exact h.kept sid' c u hc hu

end grounded

end protocol

end FastapiStarter
