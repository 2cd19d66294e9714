import FastapiStarter.Doubles
import FastapiStarter.History

/-!
# The doubles are faithful

No handler can tell the doubles from the database.  Between two executions the rows
are the aggregates of the dicts, written by the mappers.  Within an execution they are
not: the doubles change an aggregate at once that the session has only a copy of.  So
the two runs of a handler are followed side by side, call by call, up to the commit
that brings them together again.

## Main definitions

* `Mirrors` — the rows are the aggregates of the dicts.
* `Surroundings.Agree` — the two runs of a handler end alike.

## Main results

* `createUser_agree`, `login_agree`, `refresh_agree`, `logout_agree`,
  `changePassword_agree` — the handlers.
* `doubles_refine` — **any sequence of executions** gives the same results over both.
-/

namespace FastapiStarter

open Interaction Relational

/-! ### Dicts -/

section dicts

variable {K V : Type} [DecidableEq K] {key : V → K} {d : List V} {value : V}

/-- A new key comes last. -/
theorem dictSet_new (h : ∀ v ∈ d, key v ≠ key value) : dictSet key d value = d ++ [value] := by
  have hnone : (d.any fun v => key v = key value) = false := by
    rw [List.any_eq_false]
    exact fun v hv => by simpa using h v hv
  rw [dictSet, hnone]
  rfl

/-- Setting a value that is there already changes nothing. -/
theorem dictSet_self (hmem : value ∈ d) (h : ∀ v ∈ d, key v = key value → v = value) :
    dictSet key d value = d := by
  have hany : (d.any fun v => key v = key value) = true :=
    List.any_eq_true.mpr ⟨value, hmem, decide_eq_true rfl⟩
  rw [dictSet, if_pos hany]
  refine (List.map_congr_left fun v hv => ?_).trans (List.map_id d)
  split
  next heq => exact (h v hv heq).symm
  next => rfl

/-- What was changed in place is there already. -/
theorem dictSet_change (key : V → K) (g : V → V) (hmem : value ∈ d)
    (hkey : key (g value) = key value) (h : ∀ v ∈ d, key v = key value → v = value) :
    dictSet key (d.map fun v => if key v = key value then g v else v) (g value) =
      d.map fun v => if key v = key value then g v else v := by
  refine dictSet_self (List.mem_map.mpr ⟨value, hmem, if_pos rfl⟩) fun v' hv' heq => ?_
  obtain ⟨v, hv, rfl⟩ := List.mem_map.mp hv'
  by_cases hv₀ : key v = key value
  · rw [if_pos hv₀, h v hv hv₀]
  · rw [if_neg hv₀, hkey] at heq
    exact absurd heq hv₀

/-- A table whose rows are made of the values takes a row made of a value with a new key. -/
theorem exists_insert {R : Type} {keyOf : R → K} {t : Table keyOf} {row : V → R}
    (ht : t.rows = d.map row) (h : ∀ v ∈ d, keyOf (row v) ≠ keyOf (row value)) :
    ∃ t', t.insert (row value) = some t' ∧ t'.rows = (d ++ [value]).map row := by
  rcases hinsert : t.insert (row value) with _ | t'
  · obtain ⟨m, hm, hkey⟩ := Table.insert_eq_none.mp hinsert
    rw [ht] at hm
    obtain ⟨v, hv, rfl⟩ := List.mem_map.mp hm
    exact absurd hkey (h v hv)
  · refine ⟨t', rfl, ?_⟩
    rw [Table.rows_of_insert hinsert, ht, List.map_append]
    rfl

end dicts

section doubles

variable [Unicode] {ω : Type} (S : Surroundings ω) (env : Env)

namespace FakeUnitOfWork

variable {f : FakeUnitOfWork}

theorem getById_some {userId : UserId} {u : User} (h : f.getById userId = some u) :
    u ∈ f.users ∧ u.id = userId := by
  unfold getById at h
  exact ⟨List.mem_of_find?_eq_some h, by simpa using List.find?_some h⟩

theorem getByEmail_some {email : Email} {u : User} (h : f.getByEmail email = some u) :
    u ∈ f.users ∧ u.email = email := by
  unfold getByEmail at h
  exact ⟨List.mem_of_find?_eq_some h, by simpa using List.find?_some h⟩

theorem getByJti_some {jti : UUID} {r : RefreshTokenRecord} (h : f.getByJti jti = some r) :
    r ∈ f.records ∧ r.jti = jti := by
  unfold getByJti at h
  exact ⟨List.mem_of_find?_eq_some h, by simpa using List.find?_some h⟩

end FakeUnitOfWork

/-! ### Both sides -/

/-- No transaction is open, the rows are the aggregates of the dicts, and the ids in use
were drawn. -/
structure Mirrors (w : World) (f : FakeUnitOfWork) (x : ω) : Prop where
  statements : w.statements = []
  users : w.db.users.rows = f.users.map UserMapper.toModel
  records : w.db.refreshTokens.rows = f.records.map RefreshTokenMapper.toModel
  pulled : ∀ u ∈ f.users, u.events = []
  emails : (w.db.users.rows.map (·.email)).Nodup
  userIds : ∀ u ∈ f.users, u.id.value ∈ S.drawn x
  jtis : ∀ r ∈ f.records, r.jti ∈ S.drawn x

/-- The runs of a program over the two units of work give the same result and leave the
dicts as the rows, if no id is drawn twice. -/
abbrev Surroundings.Agree {α : Type} (p : Handler α) (s : Session) (w : World)
    (f : FakeUnitOfWork) (x : ω) : Prop :=
  p.Alike Port.outside S.answer S.Fresh (sqlExec env) fakeExec (s, w) f x
    fun s f x => Mirrors S (s.2.close 0) f x

variable {S} {env} {w : World} {f : FakeUnitOfWork} {x : ω} {s s' : Session} {α : Type}

omit [Unicode] in
theorem Dialect.binds_of_fits {d : Dialect} {length : ℕ} {s : Str}
    (h : d.fits length s = true) : d.binds s = true := (Bool.and_eq_true_iff.mp h).1

theorem sqlExec_commit {r : Except Exc Unit × (Session × World)}
    (hfits : s.fits env.dialect = true) (h : execCommit env 0 s w = r) :
    sqlExec env .commit (s, w) = r := (if_pos hfits).trans h

theorem Surroundings.fresh_back (o : Port) (x : ω) (ho : o.outside = true)
    (h : S.Fresh (S.answer o x).2) : S.Fresh x := (S.drawn_prefix o x ho).sublist.nodup h

namespace Mirrors

theorem later (h : Mirrors S w f x) {x' : ω} (hx : S.drawn x ⊆ S.drawn x') : Mirrors S w f x' :=
  { h with
    userIds := fun u hu => hx (h.userIds u hu)
    jtis := fun r hr => hx (h.jtis r hr) }

theorem close (h : Mirrors S w f x) : Mirrors S (w.close 0) f x := by
  rwa [World.close_of_nil h.statements]

theorem commit (h : Mirrors S w f x) (n : ℕ) : Mirrors S w { f with commits := n } x :=
  ⟨h.statements, h.users, h.records, h.pulled, h.emails, h.userIds, h.jtis⟩

/-- The users of the dict are as they load. -/
theorem drained (h : Mirrors S w f x) {u : User} (hu : u ∈ f.users) :
    ({ u with events := [] } : User) = u := by
  have hpulled := h.pulled u hu
  cases u
  cases hpulled
  rfl

/-- What the dicts hold is what the rows say, as a driver returns them. -/
theorem corresponds (h : Mirrors S w f x) : Corresponds env w f where
  users := by
    rw [h.users, List.map_map]
    refine List.map_congr_left fun u hu => ?_
    rw [Function.comp_apply, UserMapper.toDomain_toModel, h.drained hu]
  records := by
    rw [h.records, List.map_map]
    exact (List.map_congr_left fun r _ => RefreshTokenMapper.toDomain_toModel _ r).trans
      (List.map_id _)

/-! #### Lookups -/

theorem mem_users (h : Mirrors S w f x) {u : User} (hu : u ∈ f.users) :
    UserMapper.toModel u ∈ w.db.users.rows := by
  rw [h.users]
  exact List.mem_map_of_mem hu

theorem mem_records (h : Mirrors S w f x) {r : RefreshTokenRecord} (hr : r ∈ f.records) :
    RefreshTokenMapper.toModel r ∈ w.db.refreshTokens.rows := by
  rw [h.records]
  exact List.mem_map_of_mem hr

theorem userOfModel_eq (h : Mirrors S w f x) {u : User} (hu : u ∈ f.users) :
    userOfModel (some (env.dialect.readUser (UserMapper.toModel u))) = .ok (some u) := by
  simp only [userOfModel, UserMapper.toDomain_toModel, ofDomain, Except.map, h.drained hu]

theorem getUser (h : Mirrors S w f x) (userId : UserId) :
    w.db.users.get userId.value = (f.getById userId).map UserMapper.toModel := by
  rw [Table.get, h.users, List.find?_map, FakeUnitOfWork.getById]
  congr 2
  funext u
  exact decide_eq_decide.mpr ⟨fun heq => UserId.ext heq, congrArg UserId.value⟩

theorem getRefreshToken (h : Mirrors S w f x) (jti : UUID) :
    w.db.refreshTokens.get jti = (f.getByJti jti).map RefreshTokenMapper.toModel := by
  rw [Table.get, h.records, List.find?_map]
  rfl

/-- Without a user of an address there is no row of it. -/
theorem email_ne (h : Mirrors S w f x) {email : Email} (hnone : f.getByEmail email = none) :
    ∀ m ∈ w.db.users.rows, m.email ≠ email.value := by
  intro m hm heq
  rw [h.users] at hm
  obtain ⟨u, hu, rfl⟩ := List.mem_map.mp hm
  exact List.find?_eq_none.mp hnone u hu (decide_eq_true (Email.ext heq))

/-- An address is taken in the table if it is in the dict. -/
theorem existsByEmail (h : Mirrors S w f x) (email : Email) :
    ((w.view 0).users.rows.any fun m => m.email = email.value) = (f.getByEmail email).isSome := by
  rw [World.view_of_nil h.statements]
  rcases hfind : f.getByEmail email with _ | u
  · rw [Option.isSome_none, List.any_eq_false]
    exact fun m hm => by simpa using h.email_ne hfind m hm
  · obtain ⟨hu, hemail⟩ := FakeUnitOfWork.getByEmail_some hfind
    rw [Option.isSome_some, List.any_eq_true]
    exact ⟨_, h.mem_users hu, decide_eq_true (congrArg Email.value hemail)⟩

/-- A session that has changed nothing finds what the dict holds. -/
theorem exec_usersGetById (h : Mirrors S w f x) (userId : UserId) :
    exec env 0 (.usersGetById userId) (.empty, w) = (.ok (f.getById userId), .empty, w) := by
  simp only [exec, Session.getUser_empty, World.view_of_nil h.statements, h.getUser]
  rcases hfind : f.getById userId with _ | u
  · rfl
  · simp only [Option.map_some, h.userOfModel_eq (FakeUnitOfWork.getById_some hfind).1]

theorem exec_usersGetByEmail (h : Mirrors S w f x) (email : Email) :
    exec env 0 (.usersGetByEmail email) (.empty, w) = (.ok (f.getByEmail email), .empty, w) := by
  simp only [exec, World.view_of_nil h.statements]
  rcases hfind : f.getByEmail email with _ | u
  · rw [Session.selectUserByEmail_none (h.email_ne hfind)]
    rfl
  · obtain ⟨hu, rfl⟩ := FakeUnitOfWork.getByEmail_some hfind
    have hselect := Session.selectUserByEmail_some env.dialect h.emails (h.mem_users hu)
    rw [show (UserMapper.toModel u).email = u.email.value from rfl] at hselect
    simp only [hselect, h.userOfModel_eq hu]

theorem exec_refreshTokensGetByJti (h : Mirrors S w f x) (jti : UUID) :
    exec env 0 (.refreshTokensGetByJti jti) (.empty, w) = (.ok (f.getByJti jti), .empty, w) := by
  simp only [exec, World.view_of_nil h.statements, Session.getRefreshToken_empty,
    h.getRefreshToken]
  rcases f.getByJti jti with _ | r
  · rfl
  · simp only [Option.map_some, RefreshTokenMapper.toDomain_toModel]

/-! #### Changes -/

/-- **A user whose id is new** is stored by both, without its events once they are pulled. -/
theorem addUser (h : Mirrors S w f x) {u : User} (hid : u.id.value ∉ S.drawn x)
    (hemail : ∀ m ∈ w.db.users.rows, m.email ≠ u.email.value) {x' : ω}
    (hx : S.drawn x ⊆ S.drawn x') (hdrawn : u.id.value ∈ S.drawn x') (n : ℕ) :
    dictSet User.id f.users u = f.users ++ [u] ∧
      ∃ users, (Session.empty.addUser (UserMapper.toModel u)).flush w.db =
          .ok ⟨users, w.db.refreshTokens⟩ ∧
        Mirrors S { w with db := ⟨users, w.db.refreshTokens⟩ }
          (FakeUnitOfWork.changeUser ⟨f.users ++ [u], f.records, n⟩ u.id fun u => u.pullEvents.2)
          x' := by
  have hnew : ∀ v ∈ f.users, v.id ≠ u.id := fun v hv heq => hid (heq ▸ h.userIds v hv)
  refine ⟨dictSet_new hnew, ?_⟩
  obtain ⟨users, hinsert, hrows⟩ :=
    exists_insert h.users fun v hv heq => hnew v hv (UserId.ext heq)
  -- pulling the events changes no column
  have hcolumns : (fun v => UserMapper.toModel (if v.id = u.id then v.pullEvents.2 else v)) =
      UserMapper.toModel := by
    funext v
    split <;> rfl
  have hmem : ∀ v ∈ (f.users ++ [u]).map fun v => if v.id = u.id then v.pullEvents.2 else v,
      v.events = [] ∧ v.id.value ∈ S.drawn x' := by
    intro v' hv'
    obtain ⟨v, hv, rfl⟩ := List.mem_map.mp hv'
    rcases List.mem_append.mp hv with hold | hlast
    · rw [if_neg (hnew v hold)]
      exact ⟨h.pulled v hold, hx (h.userIds v hold)⟩
    · obtain rfl := List.mem_singleton.mp hlast
      rw [if_pos rfl]
      exact ⟨rfl, hdrawn⟩
  refine ⟨users, ?_, ⟨h.statements, ?_, h.records, fun v hv => (hmem v hv).1, ?_,
    fun v hv => (hmem v hv).2, fun r hr => hx (h.jtis r hr)⟩⟩
  · simp [Session.flush, Session.addUser, Session.empty, Database.insertUser_ok hinsert hemail]
  · show users.rows = ((f.users ++ [u]).map fun v => if v.id = u.id then v.pullEvents.2 else v).map
      UserMapper.toModel
    rw [List.map_map, Function.comp_def, hcolumns, hrows]
  · show (users.rows.map (·.email)).Nodup
    rw [Table.rows_of_insert hinsert, List.map_append, List.map_singleton,
      ← List.concat_eq_append, List.nodup_concat]
    refine ⟨fun hmem => ?_, h.emails⟩
    obtain ⟨m, hm, heq⟩ := List.mem_map.mp hmem
    exact hemail m hm heq

/-- **A record whose id is new**, of a user that exists, is stored by both. -/
theorem addRecord (h : Mirrors S w f x) {r : RefreshTokenRecord} {u : User} (hu : u ∈ f.users)
    (huser : r.userId = u.id) (hjti : r.jti ∉ S.drawn x) {x' : ω}
    (hx : S.drawn x ⊆ S.drawn x') (hdrawn : r.jti ∈ S.drawn x') (n : ℕ) :
    dictSet RefreshTokenRecord.jti f.records r = f.records ++ [r] ∧
      ∃ db, w.db.insertRefreshToken (RefreshTokenMapper.toModel r) = .ok db ∧
        Mirrors S { w with db } ⟨f.users, f.records ++ [r], n⟩ x' := by
  have hnew : ∀ r' ∈ f.records, r'.jti ≠ r.jti := fun r' hr' heq => hjti (heq ▸ h.jtis r' hr')
  obtain ⟨tokens, hinsert, hrows⟩ := exists_insert h.records hnew
  refine ⟨dictSet_new hnew, _, Database.insertRefreshToken_ok hinsert (h.mem_users hu)
    (congrArg UserId.value huser.symm), h.statements, h.users, hrows, h.pulled, h.emails,
    fun v hv => hx (h.userIds v hv), fun r' hr' => ?_⟩
  rcases List.mem_append.mp hr' with hold | hlast
  · exact hx (h.jtis r' hold)
  · obtain rfl := List.mem_singleton.mp hlast
    exact hdrawn

/-- **Revoking the rows that `p` selects** is revoking record by record those that `q`
selects: `revoke` leaves the revoked ones alone. -/
theorem changeRecords (h : Mirrors S w f x) {db : Database} {p : RefreshTokenModel → Bool}
    {q : RefreshTokenRecord → Bool} {at' : Instant} (husers : db.users = w.db.users)
    (hrows : db.refreshTokens.rows = w.db.refreshTokens.rows.map (.revokeIf p at'))
    (hpq : ∀ r ∈ f.records, p (RefreshTokenMapper.toModel r) = (q r && r.revokedAt.isNone)) :
    Mirrors S { w with db } (f.changeRecords q fun r => r.revoke at') x := by
  have hrevoke : ∀ r ∈ f.records, (RefreshTokenMapper.toModel r).revokeIf p at' =
      RefreshTokenMapper.toModel (if q r then r.revoke at' else r) := by
    intro r hr
    unfold RefreshTokenModel.revokeIf RefreshTokenRecord.revoke
    rw [hpq r hr]
    rcases q r <;> rcases hrevoked : r.revokedAt with _ | at''
    · rfl
    · rfl
    · rfl
    · rfl
  refine ⟨h.statements, ?_, ?_, h.pulled, ?_, h.userIds, fun r' hr' => ?_⟩
  · show db.users.rows = _
    rw [husers, h.users]
    rfl
  · show db.refreshTokens.rows = (f.records.map _).map RefreshTokenMapper.toModel
    rw [hrows, h.records, List.map_map, List.map_map]
    exact List.map_congr_left hrevoke
  · show (db.users.rows.map _).Nodup
    rw [husers]
    exact h.emails
  · obtain ⟨r, hr, rfl⟩ := List.mem_map.mp hr'
    split
    · rw [RefreshTokenRecord.jti_revoke]
      exact h.jtis r hr
    · exact h.jtis r hr

/-- A bulk revocation. -/
theorem revoke (h : Mirrors S w f x) {scope : Scope} {q : RefreshTokenRecord → Bool}
    (hq : ∀ r, scope.selects (RefreshTokenMapper.toModel r) = (q r && r.revokedAt.isNone))
    (at' : Instant) :
    Mirrors S { w with db := w.db.revoke scope at' }
      (f.changeRecords q fun r => r.revoke at') x :=
  h.changeRecords rfl (w.db.rows_revoke scope at') fun r _ => hq r

/-- A record of the dict is the only one with its id. -/
theorem record_eq (h : Mirrors S w f x) {r r' : RefreshTokenRecord} (hr : r ∈ f.records)
    (hr' : r' ∈ f.records) (hjti : r'.jti = r.jti) : r' = r := by
  have hmodel := w.db.refreshTokens.eq_of_key_eq (h.mem_records hr') (h.mem_records hr) hjti
  rw [← RefreshTokenMapper.toDomain_toModel .postgres r', hmodel,
    RefreshTokenMapper.toDomain_toModel]

variable (env) in
/-- **Rotation**: the revoked record is in its dict, its row is not yet. -/
theorem rotate (h : Mirrors S w f x) {r : RefreshTokenRecord} (hr : r ∈ f.records)
    (hlive : r.isRevoked = false) (at' : Instant) :
    let f' := f.changeRecords (fun r' => r'.jti = r.jti) fun r => r.revoke at'
    { f' with records := dictSet RefreshTokenRecord.jti f'.records (r.revoke at') } = f' ∧
      w.db.updateRefreshToken ⟨env.dialect.readRefreshToken (RefreshTokenMapper.toModel r),
        RefreshTokenMapper.applyToModel (r.revoke at')
          (env.dialect.readRefreshToken (RefreshTokenMapper.toModel r))⟩ =
        .ok (w.db.revokeRows [r.jti] at') ∧
      Mirrors S { w with db := w.db.revokeRows [r.jti] at' } f' x := by
  have hnone : r.revokedAt = none := by simpa [RefreshTokenRecord.isRevoked] using hlive
  refine ⟨?_, ?_, h.changeRecords rfl (w.db.rows_revokeRows_singleton r.jti at') fun r' hr' => ?_⟩
  · have hdict := dictSet_change RefreshTokenRecord.jti (fun r => r.revoke at') hr
      (r.jti_revoke at') fun r' hr' heq => h.record_eq hr hr' heq
    simp only [FakeUnitOfWork.changeRecords, decide_eq_true_eq, hdict]
  · have hkept : w.db.refreshTokens.get (RefreshTokenMapper.toModel r).jti ≠ none := by
      simp [Table.get_key (h.mem_records hr)]
    have hread :
        (env.dialect.readRefreshToken (RefreshTokenMapper.toModel r)).revokedAt = none := by
      simp [Dialect.readRefreshToken, RefreshTokenMapper.toModel, hnone]
    rw [Database.updateRefreshToken_revoke _ _ _ (RefreshTokenRecord.revokedAt_revoke at' hnone),
      hread, if_neg (by simp), if_neg hkept]
    rfl
  · -- the record is live, so its revocation is not the first of a revoked one
    by_cases hjti : r'.jti = r.jti
    · rw [h.record_eq hr hr' hjti, hnone]
      simp [RefreshTokenMapper.toModel]
    · simp [RefreshTokenMapper.toModel, hjti]

/-- A user of the dict is the only one with its id. -/
theorem user_eq (h : Mirrors S w f x) {u u' : User} (hu : u ∈ f.users) (hu' : u' ∈ f.users)
    (hid : u'.id = u.id) : u' = u := by
  have hmodel := w.db.users.eq_of_key_eq (h.mem_users hu') (h.mem_users hu)
    (congrArg UserId.value hid)
  have hload := UserMapper.toDomain_toModel .postgres u'
  rw [hmodel, UserMapper.toDomain_toModel, h.drained hu, h.drained hu'] at hload
  exact (Except.ok.inj hload).symm

/-- A new password. -/
theorem changePassword (h : Mirrors S w f x) (userId : UserId) (hp : HashedPassword) :
    Mirrors S { w with db := w.db.setPassword userId.value hp.value }
      (f.changeUser userId fun u => u.changePassword hp) x := by
  have hcolumns : ∀ u : User, (if (UserMapper.toModel u).id = userId.value then
      { UserMapper.toModel u with hashedPassword := hp.value } else UserMapper.toModel u) =
        UserMapper.toModel (if u.id = userId then u.changePassword hp else u) := by
    intro u
    by_cases hid : u.id = userId
    · have hvalue : (UserMapper.toModel u).id = userId.value := congrArg UserId.value hid
      rw [if_pos hid, if_pos hvalue]
      rfl
    · have hvalue : (UserMapper.toModel u).id ≠ userId.value := fun heq => hid (UserId.ext heq)
      rw [if_neg hid, if_neg hvalue]
  have hrows : (w.db.setPassword userId.value hp.value).users.rows =
      (f.changeUser userId fun u => u.changePassword hp).users.map UserMapper.toModel := by
    simp only [Database.setPassword, Table.rows_updateWhere, h.users, FakeUnitOfWork.changeUser,
      List.map_map, decide_eq_true_eq]
    exact List.map_congr_left fun u _ => hcolumns u
  have hmem : ∀ u' ∈ (f.changeUser userId fun u => u.changePassword hp).users,
      u'.events = [] ∧ u'.id.value ∈ S.drawn x := by
    intro u' hu'
    obtain ⟨u, hu, rfl⟩ := List.mem_map.mp hu'
    split
    · exact ⟨h.pulled u hu, h.userIds u hu⟩
    · exact ⟨h.pulled u hu, h.userIds u hu⟩
  refine ⟨h.statements, hrows, h.records, fun u hu => (hmem u hu).1, ?_,
    fun u hu => (hmem u hu).2, h.jtis⟩
  -- no address changes
  have hemails : (w.db.setPassword userId.value hp.value).users.rows.map (·.email) =
      w.db.users.rows.map (·.email) := by
    simp only [Database.setPassword, Table.rows_updateWhere, List.map_map]
    refine List.map_congr_left fun m _ => ?_
    simp only [Function.comp_apply]
    split <;> rfl
  show ((w.db.setPassword userId.value hp.value).users.rows.map _).Nodup
  rw [hemails]
  exact h.emails

end Mirrors

/-! ### One call -/

theorem agree_raise {e : Exc} (h : Mirrors S w f x) :
    S.Agree env (Prog.raise e : Handler α) s w f x :=
  Prog.alike_raise h.close

theorem agree_pure {a : α} (h : Mirrors S w f x) :
    S.Agree env (Prog.pure a : Handler α) s w f x :=
  Prog.alike_pure h.close

/-- **A question to the surroundings** may fail as long as nothing is staged. -/
theorem agree_answer {o : Port} {k : o.Ret → Handler α} (ho : o.outside = true)
    (h : Mirrors S w f x)
    (hk : ∀ r x', S.answer o x = (.ok r, x') → S.drawn x ⊆ S.drawn x' → Mirrors S w f x' →
      S.Agree env (k r) s w f x') :
    S.Agree env (.call o k) s w f x := by
  have hdrawn : S.drawn x ⊆ S.drawn (S.answer o x).2 := (S.drawn_prefix o x ho).subset
  refine Prog.alike_outside ho (fun r x' hx => ?_) fun e x' hx => ?_
  · rw [hx] at hdrawn
    exact hk r x' hx hdrawn (h.later hdrawn)
  · rw [hx] at hdrawn
    exact (h.later hdrawn).close

theorem agree_ask {o : Port} {k : o.Ret → Handler α} (ho : o.outside = true)
    (h : Mirrors S w f x)
    (hk : ∀ r x', S.drawn x ⊆ S.drawn x' → Mirrors S w f x' → S.Agree env (k r) s w f x') :
    S.Agree env (.call o k) s w f x := agree_answer ho h fun r x' _ => hk r x'

/-- A new hash can be stored. -/
theorem agree_hash {plain : Str} {k : Str → Handler α} (hhash : S.HashFits env.dialect plain)
    (h : Mirrors S w f x)
    (hk : ∀ hashed x', env.dialect.fits 255 hashed = true → S.drawn x ⊆ S.drawn x' →
      Mirrors S w f x' → S.Agree env (k hashed) s w f x') :
    S.Agree env (.call (.hash plain) k) s w f x := by
  refine agree_answer rfl h fun hashed x' hx => ?_
  exact hk hashed x' (hhash x hashed (congrArg Prod.fst hx))

/-- A question that is answered in any case. -/
theorem agree_sure {o : Port} {k : o.Ret → Handler α} (ho : o.outside = true)
    (hok : ∃ r, (S.answer o x).1 = .ok r)
    (hk : ∀ r x', S.drawn x ⊆ S.drawn x' → S.Agree env (k r) s w f x') :
    S.Agree env (.call o k) s w f x := by
  have hdrawn : S.drawn x ⊆ S.drawn (S.answer o x).2 := (S.drawn_prefix o x ho).subset
  refine Prog.alike_outside ho (fun r x' hx => hk r x' ?_) fun e x' hx => ?_
  · rw [hx] at hdrawn
    exact hdrawn
  · obtain ⟨r, hr⟩ := hok
    rw [hx] at hr
    cases hr

/-- **A new id** is none of those drawn before. -/
theorem agree_uuid4 {k : UUID → Handler α}
    (hk : ∀ id x', S.drawn x ⊆ S.drawn x' → id ∉ S.drawn x → id ∈ S.drawn x' →
      S.Agree env (k id) s w f x') : S.Agree env (.call .uuid4 k) s w f x := by
  obtain ⟨id, hid, hdrawn⟩ := S.uuid4_ok x
  refine Prog.alike_outside rfl (fun r x' hx => ?_) fun e x' hx => ?_
  · rw [hx] at hid hdrawn
    obtain rfl := Except.ok.inj hid
    refine Prog.alike_of_fine S.fresh_back fun hfresh => hk r x' ?_ ?_ ?_
    · exact hdrawn ▸ List.subset_append_left _ _
    · unfold Surroundings.Fresh at hfresh
      rw [hdrawn, ← List.concat_eq_append, List.nodup_concat] at hfresh
      exact hfresh.1
    · exact hdrawn ▸ List.mem_append_right _ (List.mem_singleton_self _)
  · rw [hx] at hid
    cases hid

/-- **Revoking a family, and the commit of it.** -/
theorem agree_revokeFamily {familyId : UUID} {at' : Instant} {k : Unit → Handler α}
    (h : Mirrors S w f x)
    (hk : ∀ s w f, Mirrors S w f x → S.Agree env (k ()) s w f x) :
    S.Agree env (.call (.refreshTokensRevokeFamily familyId at') fun _ => .call .commit k)
      .empty w f x := by
  have hflush : (Session.empty.synchronize (.family familyId) at').flush
      (w.db.revoke (.family familyId) at') = .ok (w.db.revoke (.family familyId) at') := by
    rw [Session.synchronize_empty, Session.flush_empty]
  refine Prog.alike_inside rfl rfl rfl ?_
  refine Prog.alike_inside rfl (sqlExec_commit (by rfl)
    (@execCommit_bulk env _ _ _ _ _ h.statements hflush)) rfl ?_
  refine hk _ _ _ (Mirrors.commit (h.revoke (fun r => ?_) at') _)
  simp [Scope.selects, RefreshTokenMapper.toModel, beq_eq_decide]

/-! ### The handlers -/

/-- **Registration.** -/
theorem createUser_agree (h : Mirrors S w f x) (c : CreateUserCommand)
    (hfits : (Command.createUser c).Fits S env.dialect) :
    S.Agree env (Command.createUser c).execute .empty w f x := by
  refine Prog.alike_map ?_
  unfold CreateUserHandler.execute
  rcases hofStr : Email.ofStr c.email with e | email
  · exact agree_raise h
  simp only [Prog.op_bind]
  have hcolumn : env.dialect.fits 320 email.value = true := hfits.1 email hofStr
  have hexists : sqlExec env (.usersExistsByEmail email) (.empty, w) =
      (.ok (f.getByEmail email).isSome, .empty, w) := by
    refine (if_pos (Dialect.binds_of_fits hcolumn)).trans ?_
    rw [exec, h.existsByEmail]
  refine Prog.alike_inside rfl hexists rfl ?_
  rcases hfind : f.getByEmail email with _ | u
  swap
  · exact agree_raise h
  -- the address is new, and the id
  refine agree_uuid4 fun id x₁ hsub₁ hid hdrawn => ?_
  refine agree_hash hfits.2 (h.later hsub₁) fun hashed x₂ hhash hsub₂ h₂ => ?_
  rcases hhashed : HashedPassword.ofStr hashed with e | hashedPassword
  · exact agree_raise h₂
  obtain rfl := HashedPassword.ofStr_eq_ok.mp hhashed
  refine agree_sure rfl (S.now_ok _) fun createdAt x₃ hsub₃ => ?_
  generalize hu : User.create ⟨id⟩ email hashedPassword createdAt = u
  have huid : u.id.value = id := by
    subst hu
    rfl
  have hemail : ∀ m ∈ w.db.users.rows, m.email ≠ u.email.value := by
    subst hu
    exact h.email_ne hfind
  obtain ⟨hdict, users, hflush, hstored⟩ := h.addUser (huid ▸ hid) hemail
    (fun _ hx => hsub₃ (hsub₂ (hsub₁ hx))) (huid ▸ hsub₃ (hsub₂ hdrawn)) (f.commits + 1)
  rw [← hdict] at hstored
  -- the user is added, committed and drained before its events are dispatched
  refine Prog.alike_inside rfl rfl rfl ?_
  have hrow : (Session.empty.addUser (UserMapper.toModel u)).fits env.dialect = true := by
    subst hu
    simp [Session.fits, Session.addUser, Session.empty, UserModel.fits, UserMapper.toModel,
      User.create, hcolumn, hhash]
  refine Prog.alike_inside rfl (sqlExec_commit hrow (execCommit_of_flush h.statements hflush))
    rfl ?_
  refine Prog.alike_inside rfl rfl rfl ?_
  exact agree_ask rfl hstored fun _ x₄ _ h₄ => agree_pure h₄

/-- **Login.** -/
theorem login_agree (h : Mirrors S w f x) (c : LoginCommand)
    (hfits : (Command.login c).Fits S env.dialect) :
    S.Agree env (Command.login c).execute .empty w f x := by
  refine Prog.alike_map ?_
  unfold LoginHandler.execute
  rcases hofStr : Email.ofStr c.email with e | email
  · exact agree_raise h
  simp only [Prog.op_bind]
  refine Prog.alike_inside rfl ((if_pos (hfits email hofStr)).trans (h.exec_usersGetByEmail email))
    rfl ?_
  rcases hfind : f.getByEmail email with _ | u
  · exact agree_ask rfl h fun _ x₁ _ h₁ => agree_raise h₁
  obtain ⟨hu, -⟩ := FakeUnitOfWork.getByEmail_some hfind
  by_cases hactive : u.isActive = true
  swap
  · simp only [hactive]
    exact agree_ask rfl h fun _ x₁ _ h₁ => agree_raise h₁
  simp only [hactive, Bool.not_true, Bool.false_eq_true, if_false]
  refine agree_ask rfl h fun verified x₁ hsub₁ h₁ => ?_
  cases verified
  · exact agree_raise h₁
  -- a record is added and committed, and only then is the access token issued
  simp only [Bool.not_true, Bool.false_eq_true, if_false]
  refine agree_uuid4 fun jti x₂ hsub₂ hjti hdrawn => ?_
  refine agree_sure rfl (S.refreshToken_ok _ _ _) fun issued x₃ hsub₃ => ?_
  refine agree_uuid4 fun familyId x₄ hsub₄ _ _ => ?_
  obtain ⟨hdict, db, hinsert, hstored⟩ := h₁.addRecord
    (r := ⟨jti, u.id, familyId, issued.expiresAt, none⟩) hu rfl hjti
    (fun _ hx => hsub₄ (hsub₃ (hsub₂ hx))) (hsub₄ (hsub₃ hdrawn)) (f.commits + 1)
  rw [← hdict] at hstored
  refine Prog.alike_inside rfl rfl rfl ?_
  refine Prog.alike_inside rfl (sqlExec_commit (by rfl) (execCommit_of_flush h.statements
    ((Session.flush_addRefreshToken _ _).trans hinsert))) rfl ?_
  exact agree_ask rfl hstored fun _ x₅ _ h₅ => agree_pure h₅

/-- **Logout.** -/
theorem logout_agree (h : Mirrors S w f x) (c : LogoutCommand) :
    S.Agree env (Command.logout c).execute .empty w f x := by
  refine Prog.alike_map ?_
  unfold LogoutHandler.execute
  simp only [Prog.op_bind]
  refine agree_ask rfl h fun payload x₁ _ h₁ => ?_
  by_cases htype : payload.tokenType = .refresh
  swap
  · rw [if_pos htype]
    exact agree_raise h₁
  rw [if_neg (not_not.mpr htype)]
  refine Prog.alike_inside rfl (h₁.exec_refreshTokensGetByJti payload.tokenId) rfl ?_
  rcases f.getByJti payload.tokenId with _ | record
  · exact agree_pure h₁
  refine agree_ask rfl h₁ fun now x₂ _ h₂ => ?_
  exact agree_revokeFamily h₂ fun _ _ _ h₃ => agree_pure h₃

/-- **Refresh.** -/
theorem refresh_agree (h : Mirrors S w f x) (c : RefreshTokenCommand) :
    S.Agree env (Command.refreshToken c).execute .empty w f x := by
  refine Prog.alike_map ?_
  unfold RefreshTokenHandler.execute
  simp only [Prog.op_bind]
  refine agree_ask rfl h fun payload x₁ _ h₁ => ?_
  by_cases htype : payload.tokenType = .refresh
  swap
  · rw [if_pos htype]
    exact agree_raise h₁
  rw [if_neg (not_not.mpr htype)]
  refine Prog.alike_inside rfl (h₁.exec_refreshTokensGetByJti payload.tokenId) rfl ?_
  rcases hfind : f.getByJti payload.tokenId with _ | record
  · exact agree_raise h₁
  obtain ⟨hrecord, -⟩ := FakeUnitOfWork.getByJti_some hfind
  refine agree_ask rfl h₁ fun now x₂ _ h₂ => ?_
  split
  · -- replay
    exact agree_revokeFamily h₂ fun _ _ _ h₃ => agree_raise h₃
  next hlive =>
  split
  · exact agree_raise h₂
  rcases UserId.fromStr payload.subject with e | userId
  · exact agree_raise h₂
  refine Prog.alike_inside rfl (h₂.exec_usersGetById userId) rfl ?_
  rcases hfind : f.getById userId with _ | u
  · exact agree_raise h₂
  obtain ⟨hu, -⟩ := FakeUnitOfWork.getById_some hfind
  by_cases hactive : u.isActive = true
  swap
  · simp only [hactive]
    exact agree_raise h₂
  -- the record of the dict is revoked at once, the row with the commit
  simp only [hactive, Bool.not_true, Bool.false_eq_true, if_false]
  refine Prog.alike_inside rfl rfl rfl ?_
  obtain ⟨hupdate, hflush, hrevoked⟩ := h₂.rotate env hrecord (by simpa using hlive) now
  have hrow : (w.view 0).refreshTokens.get (record.revoke now).jti =
      some (RefreshTokenMapper.toModel record) := by
    rw [World.view_of_nil h.statements, RefreshTokenRecord.jti_revoke]
    exact Table.get_key (h.mem_records hrecord)
  refine Prog.alike_inside rfl (exec_refreshTokensUpdate hrow)
    (congrArg (Prod.mk (Except.ok ())) hupdate) ?_
  refine agree_uuid4 fun newJti x₃ hsub₃ hjti hdrawn => ?_
  refine agree_sure rfl (S.refreshToken_ok _ _ _) fun issued x₄ hsub₄ => ?_
  obtain ⟨hdict, db, hinsert, hstored⟩ := hrevoked.addRecord
    (r := ⟨newJti, u.id, (record.revoke now).familyId, issued.expiresAt, none⟩) hu rfl hjti
    (fun _ hx => hsub₄ (hsub₃ hx)) (hsub₄ hdrawn) (f.commits + 1)
  rw [← hdict] at hstored
  refine Prog.alike_inside rfl rfl rfl ?_
  have hrotation := Session.flush_rotation w.db ⟨env.dialect.readRefreshToken
    (RefreshTokenMapper.toModel record), RefreshTokenMapper.applyToModel (record.revoke now)
      (env.dialect.readRefreshToken (RefreshTokenMapper.toModel record))⟩
    (RefreshTokenMapper.toModel
      ⟨newJti, u.id, (record.revoke now).familyId, issued.expiresAt, none⟩)
  rw [hflush] at hrotation
  refine Prog.alike_inside rfl (sqlExec_commit (by rfl)
    (execCommit_of_flush h.statements (hrotation.trans hinsert))) rfl ?_
  exact agree_ask rfl hstored fun _ x₅ _ h₅ => agree_pure h₅

/-- **A new password.** -/
theorem changePassword_agree (h : Mirrors S w f x) (c : ChangePasswordCommand)
    (hfits : (Command.changePassword c).Fits S env.dialect) :
    S.Agree env (Command.changePassword c).execute .empty w f x := by
  refine Prog.alike_map ?_
  unfold ChangePasswordHandler.execute
  simp only [Prog.op_bind]
  refine Prog.alike_inside rfl (h.exec_usersGetById ⟨c.userId⟩) rfl ?_
  rcases hfind : f.getById ⟨c.userId⟩ with _ | u
  · exact agree_raise h
  obtain ⟨hu, -⟩ := FakeUnitOfWork.getById_some hfind
  refine agree_ask rfl h fun verified x₁ _ h₁ => ?_
  cases verified
  · exact agree_raise h₁
  simp only [Bool.not_true, Bool.false_eq_true, if_false]
  refine agree_hash hfits h₁ fun hashed x₂ hhash _ h₂ => ?_
  rcases hhashed : HashedPassword.ofStr hashed with e | hp
  · exact agree_raise h₂
  obtain rfl := HashedPassword.ofStr_eq_ok.mp hhashed
  -- the user of the dict has the new hash at once, the row with the commit
  refine Prog.alike_inside rfl rfl rfl ?_
  have hdict := dictSet_change User.id (fun u => u.changePassword hp) hu rfl
    fun u' hu' heq => h.user_eq hu hu' heq
  have hupdate : fakeExec (.usersUpdate (u.changePassword hp))
      (f.changeUser u.id fun u => u.changePassword hp) =
        (.ok (), f.changeUser u.id fun u => u.changePassword hp) := by
    simp only [fakeExec, FakeUnitOfWork.changeUser, hdict]
  have hrow : (w.view 0).users.get (u.changePassword hp).id.value =
      some (UserMapper.toModel u) := by
    rw [World.view_of_nil h.statements]
    exact Table.get_key (h.mem_users hu)
  refine Prog.alike_inside rfl (exec_usersUpdate hrow) hupdate ?_
  refine agree_sure rfl (S.now_ok _) fun now x₃ hsub₃ => ?_
  have hselects : ∀ r, (Scope.user u.id.value).selects (RefreshTokenMapper.toModel r) =
      (decide (r.userId = u.id) && r.revokedAt.isNone) := by
    intro r
    simp [Scope.selects, RefreshTokenMapper.toModel, UserId.ext_iff, beq_eq_decide]
  have hrevoked := (h₂.later hsub₃).revoke hselects now
  have hwrite := Database.updateUser_changePassword env.dialect (hrevoked.mem_users hu) hp
  rw [h.drained hu] at hwrite
  refine Prog.alike_inside rfl rfl rfl ?_
  -- the address is not set
  refine Prog.alike_inside rfl (sqlExec_commit ?_
    (execCommit_bulk h.statements ((Session.flush_ofUser _ _).trans hwrite))) rfl ?_
  · simp [Session.fits, Session.synchronize, Session.ofUser, UserMapper.applyToModel,
      UserMapper.toModel, Dialect.readUser, User.changePassword, hhash]
  exact agree_pure ((hrevoked.changePassword u.id hp).commit (f.commits + 1))

/-! ### Any sequence of executions -/

variable (env) in
theorem execute_agree (h : Mirrors S w f x) (command : Command)
    (hfits : command.Fits S env.dialect) :
    S.Agree env command.execute .empty w f x := by
  cases command with
  | createUser c => exact createUser_agree h c hfits
  | login c => exact login_agree h c hfits
  | refreshToken c => exact refresh_agree h c
  | logout c => exact logout_agree h c
  | changePassword c => exact changePassword_agree h c hfits

variable (env) in
/-- **One execution.** -/
theorem executeSql_mirrors (h : Mirrors S w f x) (command : Command)
    (hfits : command.Fits S env.dialect)
    (hfresh : S.Fresh (executeFake S command (f, x)).2.2) :
    let a := executeSql S env command (w, x)
    let b := executeFake S command (f, x)
    a.1 = b.1 ∧ a.2.2 = b.2.2 ∧ Mirrors S a.2.1 b.2.1 b.2.2 := by
  obtain ⟨r, s', f', x', hsql, hfake, hmirrors⟩ := execute_agree env h command hfits hfresh
  simp only [executeSql, executeFake, hsql, hfake]
  exact ⟨trivial, trivial, hmirrors⟩

theorem history_mirrors (commands : List Command) (h : Mirrors S w f x)
    (hfits : ∀ c ∈ commands, c.Fits S env.dialect)
    (hfresh : ∀ r ∈ history (executeFake S) commands (f, x), S.Fresh r.2.2) :
    List.Forall₂ (fun a b => a.1 = b.1 ∧ a.2.2 = b.2.2 ∧ Corresponds env a.2.1 b.2.1)
      (history (executeSql S env) commands (w, x)) (history (executeFake S) commands (f, x)) := by
  induction commands generalizing w f x with
  | nil => exact .nil
  | cons command commands ih =>
    obtain ⟨hresult, hx, hmirrors⟩ := executeSql_mirrors env h command
      (hfits _ List.mem_cons_self) (hfresh _ List.mem_cons_self)
    refine .cons ⟨hresult, hx, hmirrors.corresponds⟩ ?_
    have hstate : (executeSql S env command (w, x)).2 =
        ((executeSql S env command (w, x)).2.1, (executeFake S command (f, x)).2.2) :=
      Prod.ext rfl hx
    rw [hstate]
    exact ih hmirrors (fun c hc => hfits c (List.mem_cons_of_mem _ hc))
      fun r hr => hfresh r (List.mem_cons_of_mem _ hr)

theorem Mirrors.initial (x : ω) : Mirrors S .initial .empty x where
  statements := rfl
  users := rfl
  records := rfl
  pulled := fun _ h => absurd h List.not_mem_nil
  emails := List.nodup_nil
  userIds := fun _ h => absurd h List.not_mem_nil
  jtis := fun _ h => absurd h List.not_mem_nil

variable (S) (env)

/-- **The doubles are faithful.**  Whatever sequence of commands is executed over the
doubles and over the database, in the same surroundings, as long as no id is drawn
twice and the strings fit the columns: each execution gives the same result or raises
the same exception, and after it the dicts hold the committed rows. -/
theorem doubles_refine (x : ω) (commands : List Command)
    (hfits : ∀ c ∈ commands, c.Fits S env.dialect)
    (hfresh : ∀ r ∈ history (executeFake S) commands (.empty, x), S.Fresh r.2.2) :
    List.Forall₂ (fun a b => a.1 = b.1 ∧ a.2.2 = b.2.2 ∧ Corresponds env a.2.1 b.2.1)
      (history (executeSql S env) commands (.initial, x))
      (history (executeFake S) commands (.empty, x)) :=
  history_mirrors commands (.initial x) hfits hfresh

end doubles

/-! ### A small session -/

section sample

attribute [local instance] asciiUnicode

/-- A registration, a login, a refresh and its replay, and a new password. -/
def sampleSession : List Command :=
  [sampleRegistration, .login sampleLogin, .refreshToken ⟨sampleToken⟩,
    .refreshToken ⟨sampleToken⟩,
    .changePassword ⟨sampleEnv.uuid 0, sampleLogin.password, lit ['q']⟩]

theorem hashFits_sampleEnv {plain : Str}
    (h : sampleEnv.dialect.fits 255 (ch 'h' :: plain) = true) :
    sampleEnv.surroundings.HashFits sampleEnv.dialect plain := by
  intro x hashed hhashed
  obtain rfl : ch 'h' :: plain = hashed := Except.ok.inj hhashed
  exact h

theorem fits_sampleSession :
    ∀ c ∈ sampleSession, c.Fits sampleEnv.surroundings sampleEnv.dialect := by
  have haddress : ∀ email, Email.ofStr sampleLogin.email = .ok email →
      sampleEnv.dialect.fits 320 email.value = true := by
    intro email hemail
    rw [Email.value_of_ofStr hemail]
    decide +kernel
  intro c hc
  simp only [sampleSession, List.mem_cons, List.not_mem_nil, or_false] at hc
  rcases hc with rfl | rfl | rfl | rfl | rfl
  · exact ⟨haddress, hashFits_sampleEnv (by decide +kernel)⟩
  · exact fun email hemail => Dialect.binds_of_fits (haddress email hemail)
  · trivial
  · trivial
  · exact hashFits_sampleEnv (by decide +kernel)

/-- The session over the doubles: only the replay is refused. -/
theorem doubles_refine_session :
    ((history (executeFake sampleEnv.surroundings) sampleSession (.empty, .initial)).map
        fun r => decide (r.1 = .error (.domain .invalidToken))) =
      [false, false, false, true, false] ∧
    List.Forall₂ (fun a b => a.1 = b.1 ∧ a.2.2 = b.2.2 ∧ Corresponds sampleEnv a.2.1 b.2.1)
      (history (executeSql sampleEnv.surroundings sampleEnv) sampleSession (.initial, .initial))
      (history (executeFake sampleEnv.surroundings) sampleSession (.empty, .initial)) := by
  have hdrawn : ∀ r ∈ history (executeFake sampleEnv.surroundings) sampleSession
      (.empty, .initial), (sampleEnv.surroundings.drawn r.2.2).Nodup := by decide +kernel
  exact ⟨by decide +kernel, doubles_refine _ _ _ _ fits_sampleSession hdrawn⟩

/-- An address of 321 characters. -/
def longAddress : Str := lit (List.replicate 317 'a' ++ ['@', 'b', '.', 'c'])

/-- **A dict takes an address that the column does not.** -/
theorem doubles_accept_long_address :
    (executeSql sampleEnv.surroundings { sampleEnv with dialect := .postgres }
      (.createUser ⟨longAddress, lit ['p']⟩) (.initial, .initial)).1 = .error .unexpected ∧
    (executeFake sampleEnv.surroundings (.createUser ⟨longAddress, lit ['p']⟩)
      (.empty, .initial)).1.isOk = true := by
  decide +kernel

end sample

end FastapiStarter
