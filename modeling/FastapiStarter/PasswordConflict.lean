import FastapiStarter.Families
import FastapiStarter.Revocation
import FastapiStarter.TokenKinds

/-!
# Changing one password twice, under concurrency

A password change reads the row again when it writes its hash back, and does not
ask whether the hash there is still the one it has verified.  So two changes that
start from one password can both succeed, and the second overwrites the first.
Where no change commits after another has committed since its handler loaded the
user, one password authorises one change.

## Main definitions

* `ChangeRequest` — a password change, by the handler alone or by the route.
* `Overtaken`, `NoOvertaking` — the assumption on the runs.
* `ChangeState`, `ChangeAct` — a password change, seen from the others.

## Main results

* `password_authorises_one_change` — **under the assumption, one change succeeds.**
* `password_authorises_two_changes` — a run, without it, in which two succeed.
-/

namespace FastapiStarter

open Interaction Relational

section conflict

variable [Unicode]

/-! ### Requests -/

/-- A request for a password change. -/
inductive ChangeRequest
  /-- The handler, on a command. -/
  | handler (command : ChangePasswordCommand)
  /-- `PUT /users/me/password`, with a bearer token. -/
  | route (credentials : Token) (currentPassword newPassword : Str)

namespace ChangeRequest

/-- What the request runs; the route resolves the user in the same session. -/
def program : ChangeRequest → Handler Unit
  | handler command => ChangePasswordHandler.execute command
  | route credentials currentPassword newPassword => do
    let currentUser ← getCurrentUser credentials
    ChangePasswordHandler.execute ⟨currentUser.id.value, currentPassword, newPassword⟩

/-- `current_password`. -/
def currentPassword : ChangeRequest → Str
  | handler command => command.currentPassword
  | route _ currentPassword _ => currentPassword

/-- `new_password`. -/
def newPassword : ChangeRequest → Str
  | handler command => command.newPassword
  | route _ _ newPassword => newPassword

/-- The request is for the password of `userId`. -/
def IsFor (userId : UUID) : ChangeRequest → Prop
  | handler command => command.userId = userId
  | route credentials _ _ => credentials.IsFor userId

end ChangeRequest

/-- Password changes that have not started yet; a number without one is no request. -/
def startChanges (requests : ℕ → Option ChangeRequest) (w : World) :
    Config ℕ Port Port.Ret Exc Unit Session World where
  threads sid :=
    { prog := match requests sid with
        | some request => request.program
        | none => .pure ()
      loc := .empty }
  shared := w
  trace := []

/-- The call loads a user by id. -/
def Port.loadsUser : Port → Bool
  | .usersGetById _ => true
  | _ => false

/-- Since `sid` has last loaded the user, another request has committed.  On the route
the load of the dependency comes first, and the one of the handler last. -/
def Overtaken (sid : ℕ) : Trace → Prop
  | [] => False
  | ev :: tr =>
    ¬ (ev.who = sid ∧ ev.op.loadsUser = true) ∧
      ((ev.who ≠ sid ∧ IsCommit ev = true ∧ Called tr sid Port.loadsUser) ∨ Overtaken sid tr)

instance Overtaken.decidable (sid : ℕ) : ∀ tr : Trace, Decidable (Overtaken sid tr)
  | [] => .isFalse id
  | _ :: tr =>
    have := Overtaken.decidable sid tr
    inferInstanceAs (Decidable (¬ (_ ∧ _) ∧ ((_ ∧ _ ∧ _) ∨ Overtaken sid tr)))

/-- Nobody commits who was overtaken. -/
def NoOvertaking : Guard ℕ Port Port.Ret Exc World := fun tr _ sid o =>
  o = .commit → ¬ Overtaken sid tr

instance (tr : Trace) (w : World) (sid : ℕ) (o : Port) : Decidable (NoOvertaking tr w sid o) :=
  inferInstanceAs (Decidable (o = .commit → _))

/-! ### The protocol of a password change -/

/-- The hash that is stored for a user. -/
def Database.hashOf (db : Database) (userId : UUID) : Option Str :=
  (db.users.get userId).map (·.hashedPassword)

/-- How far a password change has come. -/
inductive ChangeState
  | idle
  /-- The handler has not loaded the user. -/
  | begun
  /-- The user was loaded, with this hash. -/
  | loaded (h : Str)
  /-- The current password was verified against the hash. -/
  | verified (h : Str)
  /-- The new password was hashed. -/
  | hashed (h h' : Str)
  /-- The row was read again, with the hash `u`, and is to get the hash `h'`. -/
  | staged (h u h' : Str)
  /-- The sessions were revoked. -/
  | swept (st : Statement) (h u h' : Str)
  | changed
  | refused
  deriving DecidableEq

namespace ChangeState

/-- The open bulk updates of a request. -/
def statements : ChangeState → List Statement
  | swept st _ _ _ => [st]
  | _ => []

/-- The hashes with which the handler has read the row of the user. -/
def read : ChangeState → List Str
  | loaded h | verified h | hashed h _ => [h]
  | staged h u _ | swept _ h u _ => [h, u]
  | _ => []

/-- The outcomes with which a request may end. -/
def Outcome : ChangeState → Except Exc Unit → Prop
  | idle, x | changed, x => x = .ok ()
  | refused, x => ∃ e, x = .error e
  | _, _ => False

/-- The state in which a request starts. -/
def start : Option ChangeRequest → ChangeState
  | none => idle
  | some _ => begun

end ChangeState

/-- **What a call of a password change may do** to its state and to the world. -/
inductive ChangeAct (env : Env) (userId : UUID) (sid : ℕ) (r : Option ChangeRequest) :
    ChangeState → World → (o : Port) → Except Exc o.Ret → World → ChangeState → Prop
  | quiet {φ : ChangeState} {w w' : World} {o : Port} {ans : Except Exc o.Ret} : o ≠ .commit →
    φ = .begun ∨ o.loadsUser = false → w'.db = w.db → w'.statements = w.statements →
    ChangeAct env userId sid r φ w o ans w' φ
  | refuse {φ : ChangeState} {w w' : World} {o : Port} {ans : Except Exc o.Ret} : o ≠ .commit →
    φ.statements = [] → w'.db = w.db → w'.statements = w.statements →
    ChangeAct env userId sid r φ w o ans w' .refused
  | load {w : World} {h : Str} {ans : Except Exc _} : w.db.hashOf userId = some h →
    ChangeAct env userId sid r .begun w (.usersGetById ⟨userId⟩) ans w (.loaded h)
  | verify {w : World} {h : Str} {request : ChangeRequest} : r = some request →
    env.verify request.currentPassword h = true →
    ChangeAct env userId sid r (.loaded h) w (.verify request.currentPassword h) (.ok true) w
      (.verified h)
  | hash {w : World} {h : Str} {request : ChangeRequest} {ans : Except Exc _} : r = some request →
    ChangeAct env userId sid r (.verified h) w (.hash request.newPassword) ans w.drawSalt
      (.hashed h (env.hash w.salts request.newPassword))
  | stage {w : World} {h u h' : Str} {user : User} {ans : Except Exc _} :
    w.db.hashOf userId = some u →
    ChangeAct env userId sid r (.hashed h h') w (.usersUpdate user) ans w (.staged h u h')
  | sweep {w : World} {h u h' : Str} {st : Statement} {id : UserId} {at' : Instant}
    {ans : Except Exc _} : st.session = sid →
    ChangeAct env userId sid r (.staged h u h') w (.refreshTokensRevokeAllForUser id at') ans
      { w with statements := st :: w.statements } (.swept st h u h')
  /-- The hash is written, unless it is the one that was read last. -/
  | commit {w : World} {st : Statement} {h u h' : Str} {db : Database} :
    db.hashOf userId = (if h' = u then w.db.hashOf userId else some h') →
    ChangeAct env userId sid r (.swept st h u h') w .commit (.ok ()) { w.close sid with db }
      .changed
  | fail {w : World} {st : Statement} {h u h' : Str} {e : Exc} :
    ChangeAct env userId sid r (.swept st h u h') w .commit (.error e) (w.close sid) .refused

/-- The protocol of password changes of one user. -/
@[reducible] def passwordChanges (env : Env) (userId : UUID) (requests : ℕ → Option ChangeRequest) :
    Abstraction ℕ Port Port.Ret Exc Unit World where
  Phase := ChangeState
  Rely sid φ w := w.statementsOf sid = φ.statements
  Act sid := ChangeAct env userId sid (requests sid)
  Final _ := ChangeState.Outcome

/-! ### The requests follow the protocol -/

section sim

variable {env : Env} {userId : UUID} {requests : ℕ → Option ChangeRequest} {sid : ℕ}

omit [Unicode] in
/-- The hash of a row that is found, as it is read. -/
theorem hashOf_of_get {db : Database} {m : UserModel} (d : Dialect)
    (hget : db.users.get userId = some m) :
    db.hashOf userId = some (d.readUser m).hashedPassword := by
  rw [Database.hashOf, hget]
  rfl

/-- **What flushing a changed user writes**: the new hash, unless it is the one
that was read. -/
theorem hashOf_updateUser {db db' : Database} {m : UserModel} {u : User}
    (h : db.updateUser ⟨m, UserMapper.applyToModel u m⟩ = .ok db') :
    db'.hashOf m.id =
      if u.hashedPassword.value = m.hashedPassword then db.hashOf m.id
      else some u.hashedPassword.value := by
  unfold Database.updateUser at h
  split at h
  · next heq =>
    obtain rfl := Except.ok.inj h
    have hhash : u.hashedPassword.value = m.hashedPassword := congrArg UserModel.hashedPassword heq
    rw [if_pos hhash]
  split at h
  · cases h
  next hsome =>
  split at h
  · cases h
  obtain rfl := Except.ok.inj h
  obtain ⟨row, hrow⟩ := Option.ne_none_iff_exists'.mp hsome
  obtain ⟨-, hid⟩ := Table.get_eq_some.mp hrow
  replace hrow : db.users.get m.id = some row := hrow
  replace hid : row.id = m.id := hid
  have hget : (db.users.updateWhere (fun r => r.id = m.id)
      (Tracked.writeUser ⟨m, UserMapper.applyToModel u m⟩) fun _ => rfl).get m.id =
        (db.users.get m.id).map fun r => if decide (r.id = m.id) then
          Tracked.writeUser ⟨m, UserMapper.applyToModel u m⟩ r else r := Table.get_updateWhere _ _
  refine (congrArg (Option.map (·.hashedPassword)) hget).trans ?_
  rw [Database.hashOf, hrow]
  simp only [Option.map_some, hid, decide_true, if_true]
  by_cases hhash : u.hashedPassword.value = m.hashedPassword
  · simp [Tracked.writeUser, UserMapper.applyToModel, hhash]
  · simp [Tracked.writeUser, UserMapper.applyToModel, hhash]

/-- A call after which the request goes on as before. -/
theorem sim_quietChange {φ : ChangeState} {o : Port} {k : o.Ret → Handler Unit} {s : Session}
    (ho : o ≠ .commit) (hload : o.loadsUser = false)
    (h : ∀ w, ∃ r s' w', exec env sid o (s, w) = (.ok r, s', w') ∧
      w'.db = w.db ∧ w'.statements = w.statements ∧
      Sim (system env) (passwordChanges env userId requests) sid (k r) s' φ) :
    Sim (system env) (passwordChanges env userId requests) sid (.call o k) s φ := by
  refine Sim.call fun w _ => ?_
  obtain ⟨r, s', w', hx, hdb, hst, hk⟩ := h w
  rw [system_exec, hx]
  exact ⟨φ, .quiet ho (.inr hload) hdb hst, hk⟩

/-- The handler, from the moment it has loaded the user. -/
theorem sim_loadedChange {request : ChangeRequest} (hr : requests sid = some request)
    {m : UserModel} (hid : m.id = userId) {u : User} (hu : UserMapper.toDomain m = .ok u) :
    Sim (system env) (passwordChanges env userId requests) sid
      (do
        if !(← port (.verify request.currentPassword u.hashedPassword.value)) then
          raise .invalidCredentials
        else
          let hashed ← port (.hash request.newPassword)
          match HashedPassword.ofStr hashed with
          | .error e => raise e
          | .ok hashedPassword =>
            let user ← port (.userChangePassword u hashedPassword)
            port (.usersUpdate user)
            let now ← port .now
            port (.refreshTokensRevokeAllForUser user.id now)
            port .commit)
      .empty (.loaded m.hashedPassword) := by
  obtain ⟨huid, -, hhash, -⟩ := UserMapper.toDomain_eq_ok hu
  subst hid
  simp only [Prog.op_bind]
  refine Sim.call fun w _ => ?_
  simp only [system_exec, exec]
  by_cases hverify : env.verify request.currentPassword u.hashedPassword.value = true
  swap
  · simp only [hverify]
    exact ⟨.refused, .refuse (by simp) rfl rfl rfl, _, rfl⟩
  have hverified : ChangeAct env m.id sid (requests sid) (.loaded m.hashedPassword) w
      (.verify request.currentPassword u.hashedPassword.value) (.ok true) w
      (.verified m.hashedPassword) := by
    rw [hhash] at hverify ⊢
    exact .verify hr hverify
  rw [hverify]
  simp only [Bool.not_true, Bool.false_eq_true, if_false]
  refine ⟨_, hverified, Sim.call fun w _ => ?_⟩
  simp only [system_exec, exec]
  rcases hnew : HashedPassword.ofStr (env.hash w.salts request.newPassword) with e | hashed
  · exact ⟨.refused, .refuse (by simp) rfl rfl rfl, _, rfl⟩
  have hvalue := HashedPassword.ofStr_eq_ok.mp hnew
  refine ⟨_, .hash hr, ?_⟩
  rw [← hvalue]
  refine sim_quietChange (by simp) rfl fun w => ⟨_, _, w, rfl, rfl, rfl, ?_⟩
  refine Sim.call fun w hown => ?_
  -- the row is read again, and may have changed since
  rcases hrow : (w.view sid).users.get (u.changePassword hashed).id.value with _ | m'
  · simp only [system_exec, exec, Session.getUser_empty, hrow, Option.map_none]
    exact ⟨.refused, .refuse (by simp) rfl rfl rfl, _, rfl⟩
  rw [system_exec, exec_usersUpdate hrow]
  rw [World.view_of_own hown] at hrow
  obtain ⟨-, hid'⟩ := Table.get_eq_some.mp hrow
  replace hid' : (env.dialect.readUser m').id = m.id := hid'.trans huid
  rw [show (u.changePassword hashed).id.value = m.id from huid] at hrow
  refine ⟨_, .stage (hashOf_of_get env.dialect hrow), ?_⟩
  refine sim_quietChange (by simp) rfl fun w =>
    ⟨_, _, w.tick, rfl, rfl, rfl, Sim.call fun w₁ _ => ?_⟩
  simp only [system_exec, exec, execBulk]
  refine ⟨_, .sweep rfl, Sim.call fun w₂ hown => ?_⟩
  -- the bulk update leaves the user as it is
  have hsync : ∀ scope at', (Session.ofUser ⟨env.dialect.readUser m',
      UserMapper.applyToModel (u.changePassword hashed) (env.dialect.readUser m')⟩).synchronize
        scope at' = .ofUser ⟨env.dialect.readUser m',
      UserMapper.applyToModel (u.changePassword hashed) (env.dialect.readUser m')⟩ :=
    fun _ _ => rfl
  simp only [system_exec, exec, execCommit, hsync, Session.flush_ofUser,
    World.view_of_own_singleton hown]
  rcases hflush : Database.updateUser _ _ with e | db
  · exact ⟨.refused, .fail, _, rfl⟩
  · have hwritten := hashOf_updateUser hflush
    rw [hid'] at hwritten
    exact ⟨.changed, .commit hwritten, rfl⟩

/-- The handler. -/
theorem sim_changeHandler {request : ChangeRequest} (hr : requests sid = some request) :
    Sim (system env) (passwordChanges env userId requests) sid
      (ChangePasswordHandler.execute ⟨userId, request.currentPassword, request.newPassword⟩)
      .empty .begun := by
  simp only [ChangePasswordHandler.execute, Prog.op_bind]
  refine Sim.call fun w hown => ?_
  simp only [system_exec, exec, World.view_of_own hown, Session.getUser_empty]
  rcases hget : w.db.users.get userId with _ | m
  · exact ⟨.refused, .refuse (by simp) rfl rfl rfl, _, rfl⟩
  obtain ⟨-, hid⟩ := Table.get_eq_some.mp hget
  have hload := hashOf_of_get env.dialect hget
  simp only [Option.map_some, userOfModel]
  rcases hu : UserMapper.toDomain (env.dialect.readUser m) with e | u
  · exact ⟨.refused, .refuse (by simp) rfl rfl rfl, _, rfl⟩
  · have hloaded : (env.dialect.readUser m).id = userId := hid
    exact ⟨_, .load hload, sim_loadedChange hr hloaded hu⟩

/-- The route: the dependency loads the user, and the handler loads them again. -/
theorem sim_changeRoute {credentials : Token} {currentPassword newPassword : Str}
    (hr : requests sid = some (.route credentials currentPassword newPassword))
    (hfor : credentials.IsFor userId) :
    Sim (system env) (passwordChanges env userId requests) sid
      (ChangeRequest.program (.route credentials currentPassword newPassword)) .empty .begun := by
  simp only [ChangeRequest.program, getCurrentUser, Prog.op_bind]
  refine Sim.call fun w _ => ?_
  simp only [system_exec, exec]
  rcases hdecode : w.decode env credentials with e | p
  · exact ⟨.refused, .refuse (by simp) rfl rfl rfl, _, rfl⟩
  simp only [ofDomain]
  by_cases htype : p.tokenType = .access
  swap
  · simp only [ne_eq, htype, not_false_eq_true, if_true]
    exact ⟨.refused, .refuse (by simp) rfl rfl rfl, _, rfl⟩
  -- the subject of the token is the user
  have hsubject : UserId.fromStr p.subject = .ok ⟨userId⟩ := by
    obtain ⟨c, rfl, hsub, -⟩ := World.signed_of_decode hdecode
    have hc : c.sub = (UserId.mk userId).str := Option.some.inj hfor
    rw [← hsub, hc, UserId.fromStr_str]
  simp only [ne_eq, htype, not_true_eq_false, if_false, hsubject]
  refine ⟨.begun, .quiet (by simp) (.inl rfl) rfl rfl, ?_⟩
  refine Sim.call fun w hown => ?_
  simp only [system_exec, exec, World.view_of_own hown, Session.getUser_empty]
  rcases hget : w.db.users.get userId with _ | m
  · exact ⟨.refused, .refuse (by simp) rfl rfl rfl, _, rfl⟩
  obtain ⟨-, hid⟩ := Table.get_eq_some.mp hget
  simp only [Option.map_some, userOfModel]
  rcases hu : UserMapper.toDomain (env.dialect.readUser m) with e | u
  · exact ⟨.refused, .refuse (by simp) rfl rfl rfl, _, rfl⟩
  simp only [ofDomain, Except.map]
  by_cases hactive : u.isActive = true
  swap
  · simp only [hactive]
    exact ⟨.refused, .refuse (by simp) rfl rfl rfl, _, rfl⟩
  simp only [hactive, Bool.not_true, Bool.false_eq_true, if_false]
  refine ⟨.begun, .quiet (by simp) (.inl rfl) rfl rfl, ?_⟩
  -- what the dependency has loaded is not kept, and the handler starts anew
  obtain ⟨huid, -⟩ := UserMapper.toDomain_eq_ok hu
  have hvalue : u.id.value = userId := huid.trans hid
  simp only [Prog.pure_eq, Prog.bind, hvalue]
  exact sim_changeHandler hr

/-- **The requests follow the protocol.** -/
theorem sim_changeRequest (hfor : ∀ sid r, requests sid = some r → r.IsFor userId) (w : World)
    (sid : ℕ) :
    Sim (system env) (passwordChanges env userId requests) sid
      ((startChanges requests w).threads sid).prog ((startChanges requests w).threads sid).loc
      (.start (requests sid)) := by
  rcases hr : requests sid with _ | r
  · simp only [startChanges, hr]
    rfl
  · simp only [startChanges, hr]
    cases r with
    | handler command =>
      obtain rfl : command.userId = userId := hfor sid _ hr
      exact sim_changeHandler hr
    | route credentials currentPassword newPassword => exact sim_changeRoute hr (hfor sid _ hr)

end sim

/-! ### The invariant -/

/-- The hash that a request has verified, and is about to replace. -/
def ChangeState.checked : ChangeState → Option Str
  | .verified h | .hashed h _ | .staged h _ _ | .swept _ h _ _ => some h
  | _ => none

/-- The hash that a request is about to store. -/
def ChangeState.fresh : ChangeState → Option Str
  | .hashed _ h' | .staged _ _ h' | .swept _ _ _ h' => some h'
  | _ => none

/-- The request has verified its current password against the hash. -/
def HasVerified (env : Env) (requests : ℕ → Option ChangeRequest) (tr : Trace) (sid : ℕ) (h : Str) :
    Prop :=
  ∃ r, requests sid = some r ∧ env.verify r.currentPassword h = true ∧
    ⟨sid, .verify r.currentPassword h, .ok true⟩ ∈ tr

/-- The hash is one of the new password of the request. -/
def IsNew (env : Env) (requests : ℕ → Option ChangeRequest) (sid : ℕ) (h : Str) : Prop :=
  ∃ r salt, requests sid = some r ∧ h = env.hash salt r.newPassword

/-- What holds throughout a run that meets the assumption. -/
structure Conflict (env : Env) (userId : UUID) (requests : ℕ → Option ChangeRequest)
    (φ : ℕ → ChangeState) (w : World) (tr : Trace) : Prop where
  own : ∀ sid, w.statementsOf sid = (φ sid).statements
  loads : ∀ sid, ∀ h ∈ (φ sid).read, Called tr sid Port.loadsUser
  /-- Who was not overtaken has read the hash that is stored. -/
  stored : ∀ sid, ∀ h ∈ (φ sid).read, ¬ Overtaken sid tr → w.db.hashOf userId = some h
  checked : ∀ sid h, (φ sid).checked = some h → HasVerified env requests tr sid h
  fresh : ∀ sid h, (φ sid).fresh = some h → IsNew env requests sid h
  /-- Who has changed the password has stored the hash there is. -/
  winner : ∀ sid, φ sid = .changed → ∃ h, IsNew env requests sid h ∧ w.db.hashOf userId = some h
  unique : ∀ i j, φ i = .changed → φ j = .changed → i = j

section step

variable {env : Env} {userId : UUID} {requests : ℕ → Option ChangeRequest} {φ : ℕ → ChangeState}
  {w w' : World} {tr : Trace} {sid : ℕ} {o : Port} {ans : Except Exc o.Ret} {ψ φ' : ChangeState}

theorem HasVerified.mono {ev : Event ℕ Port Port.Ret Exc} {h : Str}
    (hv : HasVerified env requests tr sid h) : HasVerified env requests (ev :: tr) sid h := by
  obtain ⟨r, hr, hverify, hev⟩ := hv
  exact ⟨r, hr, hverify, List.mem_cons_of_mem _ hev⟩

/-- A request does not become idle. -/
theorem ChangeAct.idle {r : Option ChangeRequest} (h : ChangeAct env userId sid r ψ w o ans w' φ')
    (hφ : φ' = .idle) : ψ = .idle := by
  cases h with
  | quiet => exact hφ
  | _ => cases hφ

/-- The protocol commits only after the sessions were revoked. -/
theorem ChangeAct.swept_of_commit {r : Option ChangeRequest} {x : Except Exc Unit}
    (h : ChangeAct env userId sid r ψ w .commit x w' φ') : ∃ st h u h', ψ = .swept st h u h' := by
  cases h with
  | quiet ho => exact absurd rfl ho
  | refuse ho => exact absurd rfl ho
  | commit => exact ⟨_, _, _, _, rfl⟩
  | fail => exact ⟨_, _, _, _, rfl⟩

theorem Overtaken.cons {ev : Event ℕ Port Port.Ret Exc} (hover : Overtaken sid tr)
    (hload : ¬ (ev.who = sid ∧ ev.op.loadsUser = true)) : Overtaken sid (ev :: tr) :=
  ⟨hload, .inr hover⟩

theorem Overtaken.cons_other {ev : Event ℕ Port Port.Ret Exc} (hne : ev.who ≠ sid)
    (hover : Overtaken sid tr) : Overtaken sid (ev :: tr) :=
  hover.cons fun h => hne h.1

/-- A step that commits nothing. -/
theorem Conflict.frame (h : Conflict env userId requests φ w tr) (hψ : φ sid = ψ)
    (hdb : w'.db = w.db)
    (hother : ∀ sid' ≠ sid, w'.statementsOf sid' = w.statementsOf sid')
    (hown : w'.statementsOf sid = φ'.statements)
    (hloads : ∀ x ∈ φ'.read, Called (⟨sid, o, ans⟩ :: tr) sid Port.loadsUser)
    (hstored : ∀ x ∈ φ'.read, ¬ Overtaken sid (⟨sid, o, ans⟩ :: tr) →
      w.db.hashOf userId = some x)
    (hchecked : ∀ x, φ'.checked = some x → HasVerified env requests (⟨sid, o, ans⟩ :: tr) sid x)
    (hfresh : ∀ x, φ'.fresh = some x → IsNew env requests sid x)
    (hchanged : φ' = .changed → ψ = .changed) :
    Conflict env userId requests (Function.update φ sid φ') w' (⟨sid, o, ans⟩ :: tr) := by
  -- nobody changes the password in this step
  have hback : ∀ sid', Function.update φ sid φ' sid' = .changed → φ sid' = .changed := by
    refine (Function.forall_update_iff φ fun sid' ψ => ψ = .changed → φ sid' = .changed).mpr ?_
    exact ⟨fun hφ => hψ.trans (hchanged hφ), fun _ _ hφ => hφ⟩
  constructor
  case own =>
    refine (Function.forall_update_iff φ fun sid' ψ =>
      w'.statementsOf sid' = ψ.statements).mpr ⟨hown, fun sid' hne => ?_⟩
    rw [hother sid' hne]
    exact h.own sid'
  case loads =>
    refine (Function.forall_update_iff φ fun sid' ψ => ∀ x ∈ ψ.read,
      Called (⟨sid, o, ans⟩ :: tr) sid' Port.loadsUser).mpr ⟨hloads, fun sid' _ x hx => ?_⟩
    exact called_cons.mpr (.inr (h.loads sid' x hx))
  case stored =>
    rw [hdb]
    refine (Function.forall_update_iff φ fun sid' ψ => ∀ x ∈ ψ.read,
      ¬ Overtaken sid' (⟨sid, o, ans⟩ :: tr) → w.db.hashOf userId = some x).mpr
      ⟨hstored, fun sid' hne x hx hnot => h.stored sid' x hx ?_⟩
    exact fun hover => hnot (.cons_other hne.symm hover)
  case checked =>
    refine (Function.forall_update_iff φ fun sid' ψ => ∀ x, ψ.checked = some x →
      HasVerified env requests (⟨sid, o, ans⟩ :: tr) sid' x).mpr ⟨hchecked, fun sid' _ x hx => ?_⟩
    exact (h.checked sid' x hx).mono
  case fresh =>
    exact (Function.forall_update_iff φ fun sid' ψ => ∀ x, ψ.fresh = some x →
      IsNew env requests sid' x).mpr ⟨hfresh, fun sid' _ => h.fresh sid'⟩
  case winner =>
    intro sid' hφ
    rw [hdb]
    exact h.winner sid' (hback sid' hφ)
  case unique =>
    intro i j hi hj
    exact h.unique i j (hback i hi) (hback j hj)

/-- **The first commit is the only one**: who commits has verified the hash that is
stored, and after a change that is a hash of a new password. -/
theorem Conflict.commit (h : Conflict env userId requests φ w tr)
    (hlaw : ∀ plain salt plain', env.verify plain (env.hash salt plain') = true ↔ plain = plain')
    (hnew : ∀ i j r r', requests i = some r → requests j = some r' →
      r.newPassword ≠ r'.currentPassword)
    (hnot : ¬ Overtaken sid tr) {st : Statement} {x u x' : Str}
    (hψ : φ sid = .swept st x u x') {db : Database}
    (hdb : db.hashOf userId = if x' = u then w.db.hashOf userId else some x') :
    Conflict env userId requests (Function.update φ sid .changed) { w.close sid with db }
      (⟨sid, .commit, .ok ()⟩ :: tr) := by
  -- the hash it has verified and the one it has read last are both the stored one
  have hstored := h.stored sid x (by simp [hψ, ChangeState.read]) hnot
  have hagain := h.stored sid u (by simp [hψ, ChangeState.read]) hnot
  obtain ⟨r, hr, hverify, -⟩ := h.checked sid x (by rw [hψ]; rfl)
  have hfresh := h.fresh sid x' (by rw [hψ]; rfl)
  have hafter : db.hashOf userId = some x' := by
    rw [hdb, hagain]
    split
    · next heq => rw [heq]
    · rfl
  -- nobody has changed the password before
  have hnone : ∀ j, φ j ≠ .changed := by
    intro j hj
    obtain ⟨y, ⟨r', salt, hr', rfl⟩, hy⟩ := h.winner j hj
    obtain rfl : x = env.hash salt r'.newPassword := Option.some.inj (hstored.symm.trans hy)
    rw [hlaw] at hverify
    exact hnew j sid r' r hr' hr hverify.symm
  constructor
  case own =>
    show ∀ sid', (w.close sid).statementsOf sid' = _
    refine (Function.forall_update_iff φ fun sid' ψ =>
      (w.close sid).statementsOf sid' = ψ.statements).mpr ⟨?_, fun sid' hne => ?_⟩
    · rw [World.statementsOf_close, if_pos rfl]
      rfl
    · rw [World.statementsOf_close, if_neg hne]
      exact h.own sid'
  case loads =>
    refine (Function.forall_update_iff φ fun sid' ψ => ∀ y ∈ ψ.read,
      Called (⟨sid, .commit, .ok ()⟩ :: tr) sid' Port.loadsUser).mpr
      ⟨?_, fun sid' _ y hy => called_cons.mpr (.inr (h.loads sid' y hy))⟩
    rintro y ⟨⟩
  case stored =>
    refine (Function.forall_update_iff φ fun sid' ψ => ∀ y ∈ ψ.read,
      ¬ Overtaken sid' (⟨sid, .commit, .ok ()⟩ :: tr) → db.hashOf userId = some y).mpr
      ⟨?_, fun sid' hne y hy hnot' => ?_⟩
    · rintro y ⟨⟩
    · -- the others have loaded the user before, and are overtaken now
      exact absurd ⟨fun hmine => hne hmine.1.symm, .inl ⟨hne.symm, rfl, h.loads sid' y hy⟩⟩ hnot'
  case checked =>
    refine (Function.forall_update_iff φ fun sid' ψ => ∀ y, ψ.checked = some y →
      HasVerified env requests (⟨sid, .commit, .ok ()⟩ :: tr) sid' y).mpr
      ⟨?_, fun sid' _ y hy => (h.checked sid' y hy).mono⟩
    rintro y ⟨⟩
  case fresh =>
    refine (Function.forall_update_iff φ fun sid' ψ => ∀ y, ψ.fresh = some y →
      IsNew env requests sid' y).mpr ⟨?_, fun sid' _ => h.fresh sid'⟩
    rintro y ⟨⟩
  case winner =>
    exact (Function.forall_update_iff φ fun sid' ψ => ψ = .changed →
      ∃ y, IsNew env requests sid' y ∧ db.hashOf userId = some y).mpr
      ⟨fun _ => ⟨x', hfresh, hafter⟩, fun sid' _ hφ => absurd hφ (hnone sid')⟩
  case unique =>
    have honly : ∀ k, Function.update φ sid .changed k = .changed → k = sid := by
      intro k hk
      by_contra hne
      rw [Function.update_of_ne hne] at hk
      exact hnone k hk
    intro i j hi hj
    rw [honly i hi, honly j hj]

/-- **One step keeps the invariant**, when it meets the assumption. -/
theorem Conflict.step (h : Conflict env userId requests φ w tr)
    (hlaw : ∀ plain salt plain', env.verify plain (env.hash salt plain') = true ↔ plain = plain')
    (hnew : ∀ i j r r', requests i = some r → requests j = some r' →
      r.newPassword ≠ r'.currentPassword)
    (hguard : NoOvertaking tr w sid o)
    (hact : ChangeAct env userId sid (requests sid) (φ sid) w o ans w' φ') :
    Conflict env userId requests (Function.update φ sid φ') w' (⟨sid, o, ans⟩ :: tr) := by
  have hown := h.own sid
  generalize hψ : φ sid = ψ at hact
  rw [hψ] at hown
  have hsame : w'.statements = w.statements →
      ∀ sid', w'.statementsOf sid' = w.statementsOf sid' := by
    intro hst sid'
    rw [World.statementsOf, hst]
    rfl
  have hlater : ∀ {p : Port → Bool}, Called tr sid p → Called (⟨sid, o, ans⟩ :: tr) sid p :=
    fun hc => called_cons.mpr (.inr hc)
  -- what was read is stored still, unless the step loads the user
  have hkept : o.loadsUser = false → ∀ x ∈ ψ.read, ¬ Overtaken sid (⟨sid, o, ans⟩ :: tr) →
      w.db.hashOf userId = some x := by
    intro hload x hx hnot
    refine h.stored sid x (hψ ▸ hx) fun hover => hnot (hover.cons ?_)
    simp [hload]
  cases hact with
  | quiet ho hquiet hdb hst =>
    refine h.frame hψ hdb (fun sid' _ => hsame hst sid')
      ((hsame hst sid).trans hown)
      ?_ ?_ ?_ ?_ id
    · exact fun x hx => hlater (h.loads sid x (hψ ▸ hx))
    · rcases hquiet with rfl | hload
      · rintro x ⟨⟩
      · exact hkept hload
    · exact fun x hx => (h.checked sid x (hψ ▸ hx)).mono
    · exact fun x hx => h.fresh sid x (hψ ▸ hx)
  | refuse ho hnil hdb hst =>
    refine h.frame hψ hdb (fun sid' _ => hsame hst sid') ?_ ?_ ?_ ?_ ?_ ?_
    · exact (hsame hst sid).trans (hown.trans hnil)
    all_goals simp [ChangeState.read, ChangeState.checked, ChangeState.fresh]
  | @load w x _ hstored =>
    refine h.frame hψ rfl (fun _ _ => rfl) hown ?_ ?_ ?_ ?_ ?_
    · exact fun _ _ => called_cons.mpr (.inl ⟨rfl, rfl⟩)
    · intro y hy _
      rw [List.mem_singleton.mp hy]
      exact hstored
    all_goals simp [ChangeState.checked, ChangeState.fresh]
  | @verify w x r hr hverify =>
    refine h.frame hψ rfl (fun _ _ => rfl) hown ?_ ?_ ?_ ?_ ?_
    · exact fun y hy => hlater (h.loads sid y (hψ ▸ hy))
    · exact hkept rfl
    · rintro y ⟨⟩
      exact ⟨r, hr, hverify, List.mem_cons_self⟩
    all_goals simp [ChangeState.fresh]
  | @hash w x r _ hr =>
    refine h.frame hψ rfl (fun _ _ => rfl) hown ?_ ?_ ?_ ?_ ?_
    · exact fun y hy => hlater (h.loads sid y (hψ ▸ hy))
    · exact hkept rfl
    · exact fun y hy => (h.checked sid y (hψ ▸ hy)).mono
    · rintro y ⟨⟩
      exact ⟨r, w.salts, hr, rfl⟩
    · rintro ⟨⟩
  | @stage w x u x' _ _ hagain =>
    have hloads : Called tr sid Port.loadsUser := h.loads sid x (by simp [hψ, ChangeState.read])
    refine h.frame hψ rfl (fun _ _ => rfl) hown (fun _ _ => hlater hloads) ?_ ?_ ?_ ?_
    · intro y hy hnot
      rcases List.mem_pair.mp hy with rfl | rfl
      · exact hkept rfl y (List.mem_singleton_self y) hnot
      · exact hagain
    · exact fun y hy => (h.checked sid y (hψ ▸ hy)).mono
    · exact fun y hy => h.fresh sid y (hψ ▸ hy)
    · rintro ⟨⟩
  | @sweep w x u x' st _ at' _ hsession =>
    refine h.frame hψ rfl (fun sid' hne => ?_) ?_ ?_ ?_ ?_ ?_ ?_
    · rw [World.statementsOf_cons, if_neg]
      rw [hsession]
      exact hne.symm
    · rw [World.statementsOf_cons, if_pos hsession, hown]
      rfl
    · exact fun y hy => hlater (h.loads sid y (hψ ▸ hy))
    · exact hkept rfl
    · exact fun y hy => (h.checked sid y (hψ ▸ hy)).mono
    · exact fun y hy => h.fresh sid y (hψ ▸ hy)
    · rintro ⟨⟩
  | commit hdb => exact h.commit hlaw hnew (hguard rfl) hψ hdb
  | fail =>
    refine h.frame hψ rfl (fun sid' hne => ?_) ?_ ?_ ?_ ?_ ?_ ?_
    · rw [World.statementsOf_close, if_neg hne]
    · rw [World.statementsOf_close, if_pos rfl]
      rfl
    all_goals simp [ChangeState.read, ChangeState.checked, ChangeState.fresh]

end step

/-! ### One password, one change -/

/-- At most one request succeeds, and whoever is about to commit, and has not been
overtaken, has verified its password against the hash that is stored. -/
structure OneChangeSucceeds (env : Env) (userId : UUID) (requests : ℕ → Option ChangeRequest)
    (cfg : Config ℕ Port Port.Ret Exc Unit Session World) : Prop where
  once : ∀ i j, requests i ≠ none → requests j ≠ none → (cfg.threads i).result = some (.ok ()) →
    (cfg.threads j).result = some (.ok ()) → i = j
  current : ∀ sid k, (cfg.threads sid).prog = .call .commit k → ¬ Overtaken sid cfg.trace →
    ∃ h, cfg.shared.db.hashOf userId = some h ∧ HasVerified env requests cfg.trace sid h

section final

variable {env : Env} {userId : UUID} {requests : ℕ → Option ChangeRequest} {w : World}

theorem Conflict.initial (hw : w.statements = []) :
    Conflict env userId requests (fun sid => .start (requests sid)) w [] := by
  have hstart : ∀ sid, (ChangeState.start (requests sid)).statements = [] ∧
      (ChangeState.start (requests sid)).read = [] ∧
      (ChangeState.start (requests sid)).checked = none ∧
      (ChangeState.start (requests sid)).fresh = none ∧
      ChangeState.start (requests sid) ≠ .changed := by
    intro sid
    unfold ChangeState.start
    split <;> exact ⟨rfl, rfl, rfl, rfl, by simp⟩
  refine ⟨fun sid => ?_, fun sid x hx => ?_, fun sid x hx => ?_, fun sid x hx => ?_,
    fun sid x hx => ?_, fun sid hφ => absurd hφ (hstart sid).2.2.2.2,
    fun i _ hi => absurd hi (hstart i).2.2.2.2⟩
  · rw [World.statementsOf_of_nil hw, (hstart sid).1]
  · simp [(hstart sid).2.1] at hx
  · simp [(hstart sid).2.1] at hx
  · simp [(hstart sid).2.2.1] at hx
  · simp [(hstart sid).2.2.2.1] at hx

/-- **The invariant holds throughout every run** that meets the assumption. -/
theorem conflict_of_reach (hw : w.statements = [])
    (hlaw : ∀ plain salt plain', env.verify plain (env.hash salt plain') = true ↔ plain = plain')
    (hfor : ∀ sid r, requests sid = some r → r.IsFor userId)
    (hnew : ∀ i j r r', requests i = some r → requests j = some r' →
      r.newPassword ≠ r'.currentPassword)
    {cfg : Config ℕ Port Port.Ret Exc Unit Session World}
    (hreach : Reach (system env) NoOvertaking (startChanges requests w) cfg) :
    ∃ φ, (Conflict env userId requests φ cfg.shared cfg.trace ∧
        ∀ sid, φ sid = .idle → requests sid = none) ∧
      ∀ sid, Sim (system env) (passwordChanges env userId requests) sid (cfg.threads sid).prog
        (cfg.threads sid).loc (φ sid) := by
  have hstart : ∀ sid, ChangeState.start (requests sid) = .idle → requests sid = none := by
    intro sid hφ
    rcases hr : requests sid with _ | r
    · rfl
    · simp [ChangeState.start, hr] at hφ
  refine hreach.abstract (fun (φ : ℕ → ChangeState) w tr =>
    Conflict env userId requests φ w tr ∧ ∀ sid, φ sid = .idle → requests sid = none)
    (sim_changeRequest hfor w) ⟨.initial hw, hstart⟩ (fun φ w tr h => h.1.own) ?_
  rintro φ w₁ tr sid o ans w₂ φ' ⟨hinv, hidle⟩ hguard hact
  refine ⟨hinv.step hlaw hnew hguard hact, ?_⟩
  exact (Function.forall_update_iff φ fun sid' ψ => ψ = .idle → requests sid' = none).mpr
    ⟨fun hφ => hidle sid (ChangeAct.idle hact hφ), fun sid' _ => hidle sid'⟩

/-- **One password authorises one change**, in every run of password changes of one
user, side by side, in which nobody commits who was overtaken. -/
theorem password_authorises_one_change (hw : w.statements = [])
    (hlaw : ∀ plain salt plain', env.verify plain (env.hash salt plain') = true ↔ plain = plain')
    (hfor : ∀ sid r, requests sid = some r → r.IsFor userId) {current : Str}
    (hcurrent : ∀ sid r, requests sid = some r → r.currentPassword = current ∧
      r.newPassword ≠ current)
    {cfg : Config ℕ Port Port.Ret Exc Unit Session World}
    (hreach : Reach (system env) NoOvertaking (startChanges requests w) cfg) :
    OneChangeSucceeds env userId requests cfg := by
  have hnew : ∀ i j r r', requests i = some r → requests j = some r' →
      r.newPassword ≠ r'.currentPassword := by
    intro i j r r' hr hr'
    rw [(hcurrent j r' hr').1]
    exact (hcurrent i r hr).2
  obtain ⟨φ, ⟨hinv, hidle⟩, hsim⟩ := conflict_of_reach hw hlaw hfor hnew hreach
  have hchanged : ∀ i, requests i ≠ none → (cfg.threads i).result = some (.ok ()) →
      φ i = .changed := by
    intro i hi hres
    have hfinal : (φ i).Outcome (.ok ()) := (hsim i).final hres
    generalize hψ : φ i = ψ at hfinal
    cases ψ with
    | idle => exact absurd (hidle i hψ) hi
    | changed => rfl
    | refused =>
      obtain ⟨e, he⟩ := hfinal
      cases he
    | _ => exact hfinal.elim
  refine ⟨fun i j hi hj hresi hresj => hinv.unique i j (hchanged i hi hresi) (hchanged j hj hresj),
    fun sid k hprog hnot => ?_⟩
  have hcommit := hsim sid
  rw [hprog] at hcommit
  obtain ⟨ans, w', φ', hact⟩ := hcommit.act (hinv.own sid)
  obtain ⟨st, x, u, x', hφ⟩ := ChangeAct.swept_of_commit hact
  exact ⟨x, hinv.stored sid x (by simp [hφ, ChangeState.read]) hnot,
    hinv.checked sid x (by rw [hφ]; rfl)⟩

end final

end conflict

/-! ### Two changes of one password -/

section sample

attribute [local instance] asciiUnicode

/-- Two requests change the password of the sample user, by the handler and by the
route. -/
def changeTwice : ℕ → Option ChangeRequest
  | 0 => some (.handler ⟨sampleEnv.uuid 0, sampleLogin.password, lit ['q']⟩)
  | 1 => some (.route (sampleEnv.accessToken 2 (sampleEnv.uuid 0) (sampleEnv.uuid 3))
      sampleLogin.password (lit ['r']))
  | _ => none

theorem currentPassword_changeTwice (sid : ℕ) (r : ChangeRequest) (hr : changeTwice sid = some r) :
    r.currentPassword = sampleLogin.password ∧ r.newPassword ≠ sampleLogin.password := by
  unfold changeTwice at hr
  split at hr <;> cases hr
  · exact ⟨rfl, by decide⟩
  · exact ⟨rfl, by decide⟩

theorem isFor_changeTwice (sid : ℕ) (r : ChangeRequest) (hr : changeTwice sid = some r) :
    r.IsFor (sampleEnv.uuid 0) := by
  unfold changeTwice at hr
  split at hr <;> cases hr <;> rfl

/-- The route begins when the handler has come to its end. -/
def changedInTurn : Config ℕ Port Port.Ret Exc Unit Session World :=
  (startChanges changeTwice loggedInWorld).schedule (system sampleEnv)
    (List.replicate 8 0 ++ List.replicate 4 1)

/-- There one change has succeeded. -/
theorem password_authorises_one_change_sample :
    (changedInTurn.threads 0).result = some (.ok ()) ∧
      OneChangeSucceeds sampleEnv (sampleEnv.uuid 0) changeTwice changedInTurn :=
  ⟨rfl, password_authorises_one_change rfl verify_sampleEnv isFor_changeTwice
    currentPassword_changeTwice (reach_schedule _ .refl (by decide +kernel))⟩

/-- **One password authorises two changes**: both handlers load the user and verify the
password, and the second change overwrites the hash of the first. -/
theorem password_authorises_two_changes :
    ∃ cfg, Reach (system sampleEnv) anyCall (startChanges changeTwice loggedInWorld) cfg ∧
      (cfg.threads 0).result = some (.ok ()) ∧ (cfg.threads 1).result = some (.ok ()) :=
  ⟨_, reach_schedule ([1, 1, 1, 1] ++ List.replicate 8 0 ++ List.replicate 6 1) .refl
    (by decide +kernel), rfl, rfl⟩

end sample

end FastapiStarter
