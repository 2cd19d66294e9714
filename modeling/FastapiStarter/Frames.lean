import FastapiStarter.Families

/-!
# What commands touch

Each command acts for one user.  It changes rows of that user only, and of these
only what the use case is about: a hash, or `revoked_at` where it was not set.

## Main definitions

* `ActsFor` — the user a command acts for.
* `Frame` — what a change of the database leaves alone.
* `Touches` — what each command may do.

## Main results

* `commands_touch_what_they_own` — **commands touch only what they own.**
-/

namespace FastapiStarter

open Interaction Relational

section frames

variable [Unicode]

/-! ### Frames -/

/-- The rows of `db'` are those of `db`, then the new ones.  A user may have got
another hash, when `rehashes` and the user is `user`; a record may have been
revoked, when it is in the scope, is the user's and was not revoked. -/
structure Frame (db db' : Database) (user : UUID) (rehashes : Prop)
    (scope : RefreshTokenModel → Prop) (newUsers : List UserModel)
    (newRecords : List RefreshTokenModel) : Prop where
  users : ∃ f : UserModel → UserModel, db'.users.rows = db.users.rows.map f ++ newUsers ∧
    ∀ m ∈ db.users.rows, f m = m ∨
      rehashes ∧ m.id = user ∧ ∃ hashed, f m = { m with hashedPassword := hashed }
  records : ∃ g : RefreshTokenModel → RefreshTokenModel,
    db'.refreshTokens.rows = db.refreshTokens.rows.map g ++ newRecords ∧
    ∀ m ∈ db.refreshTokens.rows, g m = m ∨
      scope m ∧ m.userId = user ∧ m.revokedAt = none ∧ ∃ at', g m = { m with revokedAt := some at' }

/-- `f` is the family of the record of the token `t`. -/
def TokenFamily (env : Env) (w : World) (t : Token) (f : UUID) : Prop :=
  ∃ p m, Presents env w t p m ∧ m.familyId = f

/-- The user a command acts for: the one with the address after a registration or
a login, the subject of the token, the user of a password change. -/
def ActsFor (env : Env) (w : World) (db' : Database) (user : UUID) : Command → Prop
  | .createUser c => ∃ email, Email.ofStr c.email = .ok email ∧
    ∃ m ∈ db'.users.rows, m.id = user ∧ m.email = email.value
  | .login c => ∃ email, Email.ofStr c.email = .ok email ∧
    ∃ m ∈ db'.users.rows, m.id = user ∧ m.email = email.value
  | .refreshToken c => ∃ p, w.decode env c.refreshToken = .ok p ∧ p.subject = (UserId.mk user).str
  | .logout c => ∃ p, w.decode env c.refreshToken = .ok p ∧ p.subject = (UserId.mk user).str
  | .changePassword c => c.userId = user

/-- What a command that acts for `user` may do to the database. -/
def Touches (env : Env) (w : World) (db' : Database) (user : UUID) : Command → Prop
  | .createUser _ => ∃ m, m.id = user ∧ Frame w.db db' user False (fun _ => False) [m] []
  | .login _ => ∃ r, r.userId = user ∧ Frame w.db db' user False (fun _ => False) [] [r]
  | .refreshToken c => ∃ new, new.length ≤ 1 ∧
    (∀ r ∈ new, r.userId = user ∧ TokenFamily env w c.refreshToken r.familyId) ∧
    Frame w.db db' user False (fun m => TokenFamily env w c.refreshToken m.familyId) [] new
  | .logout c =>
    Frame w.db db' user False (fun m => TokenFamily env w c.refreshToken m.familyId) [] []
  | .changePassword _ => Frame w.db db' user True (fun _ => True) [] []

/-- The command is executed successfully, or detects the reuse of a revoked token. -/
def Completes (env : Env) (w : World) (c : Command) : Prop :=
  (∃ r, (execute env c w).1 = .ok r) ∨
    ∃ t p m, c = .refreshToken ⟨t⟩ ∧ Presents env w t p m ∧ m.revokedAt ≠ none

section lemmas

variable {env : Env} {w : World} {db db' : Database} {user : UUID} {rehashes : Prop}
  {scope : RefreshTokenModel → Prop} {p : RefreshTokenModel → Bool} {at' : Instant}
  {new : List RefreshTokenModel}

omit [Unicode] in
/-- Records that are revoked by a predicate. -/
theorem Database.Extends.records (h : db.Extends db' p at' new)
    (hp : ∀ m ∈ db.refreshTokens.rows, p m = true →
      scope m ∧ m.userId = user ∧ m.revokedAt = none) :
    ∃ g : RefreshTokenModel → RefreshTokenModel,
      db'.refreshTokens.rows = db.refreshTokens.rows.map g ++ new ∧
      ∀ m ∈ db.refreshTokens.rows, g m = m ∨ scope m ∧ m.userId = user ∧ m.revokedAt = none ∧
        ∃ at', g m = { m with revokedAt := some at' } := by
  refine ⟨.revokeIf p at', h, fun m hm => ?_⟩
  by_cases hsel : p m = true
  · obtain ⟨hscope, huser, hlive⟩ := hp m hm hsel
    exact .inr ⟨hscope, huser, hlive, .aware at', by simp [RefreshTokenModel.revokeIf, hsel]⟩
  · exact .inl (by simp [RefreshTokenModel.revokeIf, hsel])

omit [Unicode] in
/-- Users that are left alone. -/
theorem Frame.of_extends (husers : db'.users = db.users) (h : db.Extends db' p at' new)
    (hp : ∀ m ∈ db.refreshTokens.rows, p m = true →
      scope m ∧ m.userId = user ∧ m.revokedAt = none) :
    Frame db db' user rehashes scope [] new where
  users := ⟨id, by simp [husers], fun _ _ => .inl rfl⟩
  records := h.records hp

omit [Unicode] in
theorem Frame.of_eq (h : db' = db) : Frame db db' user rehashes scope [] [] := by
  subst h
  exact .of_extends rfl (.of_append (List.append_nil _).symm) (by simp)

/-- The records of the family of a token are those of its subject. -/
theorem FamilyShape.owner {h : List Entry} (hs : FamilyShape env h w) (hi : Issuance env w)
    {t : Token} {payload : TokenPayload} {m : RefreshTokenModel}
    (hpres : Presents env w t payload m) :
    payload.subject = (UserId.mk m.userId).str ∧
      ∀ m' ∈ w.db.refreshTokens.rows, m'.familyId = m.familyId → m'.userId = m.userId := by
  obtain ⟨hm, -, rfl⟩ := hi.presents hpres
  exact ⟨rfl, fun m' hm' hf => hs.sameUser m' hm' m hm hf⟩

/-- Revoking the family of a token touches its subject only. -/
theorem Frame.of_revokeFamily {h : List Entry} (hs : FamilyShape env h w) (hi : Issuance env w)
    {t : Token} {payload : TokenPayload} {m : RefreshTokenModel}
    (hpres : Presents env w t payload m) (at' : Instant) :
    Frame w.db (w.db.revoke (.family m.familyId) at') m.userId False
      (fun m' => TokenFamily env w t m'.familyId) [] [] := by
  obtain ⟨-, howner⟩ := hs.owner hi hpres
  refine .of_extends rfl (.of_revoke w.db _ at') fun m' hm' hsel => ?_
  simp only [Scope.selects, Bool.and_eq_true, beq_iff_eq, Option.isNone_iff_eq_none] at hsel
  obtain ⟨hf, hlive⟩ := hsel
  exact ⟨⟨payload, m, hpres, hf.symm⟩, howner m' hm' hf, hlive⟩

end lemmas

/-! ### Each command -/

section commands

variable {env : Env} {h : List Entry} {w : World} {r : Except Exc Response} {w' : World}

theorem CreateUserOutcome.touches {c : CreateUserCommand} (ho : CreateUserOutcome env w c r w')
    (hok : ∃ x, r = .ok x) :
    ∃ user, ActsFor env w w'.db user (.createUser c) ∧
      Touches env w w'.db user (.createUser c) := by
  cases ho with
  | refused => obtain ⟨x, hx⟩ := hok; cases hx
  | @created u users hemail _ _ _ _ hinsert =>
    have hrows := Table.rows_of_insert hinsert
    refine ⟨u.id.value, ⟨u.email, hemail, UserMapper.toModel u, by simp [hrows], rfl, rfl⟩,
      UserMapper.toModel u, rfl, ⟨id, by simp [hrows], fun _ _ => .inl rfl⟩, ?_⟩
    exact ⟨id, by simp, fun _ _ => .inl rfl⟩

theorem LoginOutcome.touches {c : LoginCommand} (ho : LoginOutcome env w c r w')
    (hok : ∃ x, r = .ok x) :
    ∃ user, ActsFor env w w'.db user (.login c) ∧ Touches env w w'.db user (.login c) := by
  cases ho with
  | refused => obtain ⟨x, hx⟩ := hok; cases hx
  | @opened u tokens haccepts hinsert =>
    refine ⟨u.id.value, ⟨u.email, haccepts.email, _, haccepts.stored, rfl, rfl⟩,
      env.record (env.clock w.ticks) u.id.value (env.uuid w.ids) (env.uuid (w.ids + 1)), rfl, ?_⟩
    exact .of_extends rfl (.of_append (Table.rows_of_insert hinsert)) (by simp)

theorem RefreshOutcome.touches (hs : FamilyShape env h w) (hi : Issuance env w) {t : Token}
    (ho : RefreshOutcome env w t r w')
    (hdone : (∃ x, r = .ok x) ∨ ∃ p m, Presents env w t p m ∧ m.revokedAt ≠ none) :
    ∃ user, ActsFor env w w'.db user (.refreshToken ⟨t⟩) ∧
      Touches env w w'.db user (.refreshToken ⟨t⟩) := by
  cases ho with
  | refused _ hlive =>
    rcases hdone with ⟨x, hx⟩ | ⟨p, m, hpres, hrevoked⟩
    · cases hx
    · exact absurd (hlive p m hpres) hrevoked
  | @replayed p m hpres _ =>
    -- a replay revokes the family and adds nothing
    have hframe := Frame.of_revokeFamily hs hi hpres (env.clock (w.ticks + 1))
    exact ⟨m.userId, ⟨p, hpres.decoded, (hs.owner hi hpres).1⟩, [], by simp, by simp, hframe⟩
  | @rotated p m u tokens hc hinsert =>
    obtain ⟨hsubject, -⟩ := hs.owner hi hc.toPresents
    have huser : u.id.value = m.userId := by
      have hparse := hc.subject
      rw [hsubject, UserId.fromStr_str] at hparse
      exact (congrArg UserId.value (Except.ok.inj hparse)).symm
    have hfamily : TokenFamily env w t m.familyId := ⟨p, m, hc.toPresents, rfl⟩
    obtain ⟨hm, -⟩ := hi.presents hc.toPresents
    refine ⟨m.userId, ⟨p, hc.decoded, hsubject⟩,
      [env.record (env.clock (w.ticks + 2)) u.id.value (env.uuid w.ids) m.familyId],
      by simp, ?_, ?_⟩
    · intro r' hr'
      obtain rfl := List.mem_singleton.mp hr'
      exact ⟨huser, hfamily⟩
    · have hext : w.db.Extends ⟨w.db.users, tokens⟩ (fun m' => m'.jti = m.jti)
          (env.clock (w.ticks + 1)) [env.record (env.clock (w.ticks + 2)) u.id.value
            (env.uuid w.ids) m.familyId] := by
        rw [Database.Extends, Table.rows_of_insert hinsert, Database.rows_revokeRows_singleton]
      refine .of_extends rfl hext fun m' hm' hsel => ?_
      obtain rfl : m' = m := w.db.refreshTokens.eq_of_key_eq hm' hm (by simpa using hsel)
      exact ⟨hfamily, rfl, hc.live⟩

theorem LogoutOutcome.touches (hs : FamilyShape env h w) (hi : Issuance env w) {t : Token}
    (ho : LogoutOutcome env w t r w') (hok : ∃ x, r = .ok x)
    (haccepts : ∃ user p, w.decode env t = .ok p ∧ p.subject = (UserId.mk user).str) :
    ∃ user, ActsFor env w w'.db user (.logout ⟨t⟩) ∧ Touches env w w'.db user (.logout ⟨t⟩) := by
  cases ho with
  | unknown _ hw _ =>
    -- a token without a record is accepted, and changes nothing
    obtain ⟨user, p, hdecode, hsubject⟩ := haccepts
    exact ⟨user, ⟨p, hdecode, hsubject⟩, .of_eq hw.db⟩
  | @revoked p m hpres =>
    exact ⟨m.userId, ⟨p, hpres.decoded, (hs.owner hi hpres).1⟩,
      .of_revokeFamily hs hi hpres (env.clock (w.ticks + 1))⟩

theorem ChangePasswordOutcome.touches {c : ChangePasswordCommand}
    (ho : ChangePasswordOutcome env w c r w') (hok : ∃ x, r = .ok x) :
    ∃ user, ActsFor env w w'.db user (.changePassword c) ∧
      Touches env w w'.db user (.changePassword c) := by
  cases ho with
  | refused => obtain ⟨x, hx⟩ := hok; cases hx
  | @changed u hashed _ hid _ _ =>
    refine ⟨c.userId, rfl, ⟨_, (List.append_nil _).symm, fun m _ => ?_⟩, ?_⟩
    · rw [hid]
      by_cases hm : m.id = c.userId
      · exact .inr ⟨trivial, hm, hashed.value, by simp [hm]⟩
      · exact .inl (by simp [hm])
    · have hext : w.db.Extends ((w.db.revoke (.user u.id.value) (env.clock w.ticks)).setPassword
          u.id.value hashed.value) (Scope.user u.id.value).selects (env.clock w.ticks) [] :=
        Database.Extends.of_revoke w.db _ (env.clock w.ticks)
      refine hext.records fun m _ hsel => ?_
      simp only [Scope.selects, Bool.and_eq_true, beq_iff_eq, Option.isNone_iff_eq_none] at hsel
      exact ⟨trivial, hsel.1.trans hid, hsel.2⟩

end commands

/-! ### Logging out twice -/

section logout

variable {env : Env} {h : List Entry} {w : World} {t : Token}

/-- A logout that succeeds has accepted a refresh token, which has a user. -/
theorem decoded_of_logout (hi : Issuance env w) {x : Response}
    (hok : (execute env (.logout ⟨t⟩) w).1 = .ok x) :
    ∃ user p, w.decode env t = .ok p ∧ p.subject = (UserId.mk user).str := by
  unfold execute at hok
  simp only [Command.execute, LogoutHandler.execute, Prog.op_bind, Prog.map_call, Prog.run_call,
    exec] at hok
  rcases hdecode : w.decode env t with e | p
  · simp only [hdecode, ofDomain] at hok
    cases hok
  by_cases htype : p.tokenType = .refresh
  swap
  · simp only [hdecode, ofDomain, ne_eq, htype, not_false_eq_true, if_true, Prog.map_raise,
      Prog.run_raise] at hok
    cases hok
  rcases hi.issued t (mem_issued_of_decode hdecode) with ⟨m, -, n, -, rfl, -⟩ | ⟨n, -, _, _, rfl⟩
  · exact ⟨m.userId, p, rfl, by rw [eq_of_decode_encoded hdecode]⟩
  · rw [eq_of_decode_encoded hdecode] at htype
    cases htype

/-- The same token is decoded to the same payload at any two times. -/
theorem decode_unique {w' : World} {p p' : TokenPayload} (hp : w.decode env t = .ok p)
    (hp' : w'.decode env t = .ok p') : p' = p := by
  obtain ⟨c, rfl, hsub, htype, hjti⟩ := World.signed_of_decode hp
  obtain ⟨c', hc, hsub', htype', hjti'⟩ := World.signed_of_decode hp'
  obtain rfl : c = c' := (Token.signed.inj hc).2.2
  have hkind : p'.tokenType = p.tokenType := by
    have hliteral := htype'.symm.trans htype
    revert hliteral
    cases p'.tokenType <;> cases p.tokenType <;> decide
  have hid : p'.tokenId = p.tokenId := Option.some.inj (hjti'.symm.trans hjti)
  cases p
  cases p'
  simp_all

/-- **Logging out twice is logging out once.** -/
theorem logout_twice (hw : Settled env w) (haccepts : Accepts env w t) :
    (execute env (.logout ⟨t⟩) (execute env (.logout ⟨t⟩) w).2).2.db =
      (execute env (.logout ⟨t⟩) w).2.db := by
  have hfirst := logout_outcome hw ⟨t⟩
  have hsettled := hfirst.settled hw
  have hsecond := logout_outcome hsettled ⟨t⟩
  obtain ⟨p, hp⟩ := haccepts
  revert hsecond
  generalize (execute env (.logout ⟨t⟩) w).1 = r at hfirst
  generalize (execute env (.logout ⟨t⟩) w).2 = w' at hfirst hsettled ⊢
  generalize (execute env (.logout ⟨t⟩) w').1 = r₂
  generalize (execute env (.logout ⟨t⟩) w').2 = w₂
  intro hsecond
  cases hsecond with
  | unknown _ hunchanged _ => exact hunchanged.db
  | @revoked p' m' hpres' =>
    obtain rfl := decode_unique hp hpres'.decoded
    have hstored := hpres'.stored
    -- the second time there is nothing left to revoke
    have hnone : w'.db.selected (.family m'.familyId) = [] := by
      cases hfirst with
      | unknown hunknown hunchanged _ =>
        rw [hunchanged.db] at hstored
        exact absurd ⟨hp, hpres'.type, hstored⟩ (hunknown p' m')
      | @revoked p m hpres =>
        obtain rfl : p = p' := Except.ok.inj (hpres.decoded.symm.trans hp)
        obtain ⟨hm', hid'⟩ := Table.get_eq_some.mp hstored
        rw [Database.rows_revoke] at hm'
        obtain ⟨m₀, hm₀, rfl⟩ := List.mem_map.mp hm'
        obtain ⟨hm, hid⟩ := Table.get_eq_some.mp hpres.stored
        rw [RefreshTokenModel.jti_revokeIf] at hid'
        obtain rfl : m₀ = m := w.db.refreshTokens.eq_of_key_eq hm₀ hm (hid'.trans hid.symm)
        rw [RefreshTokenModel.familyId_revokeIf, Database.selected, List.map_eq_nil_iff,
          List.filter_eq_nil_iff, Database.rows_revoke]
        intro m₁ hm₁ hsel
        obtain ⟨m₂, -, rfl⟩ := List.mem_map.mp hm₁
        simp only [Scope.selects, Bool.and_eq_true, beq_iff_eq, Option.isNone_iff_eq_none,
          RefreshTokenModel.familyId_revokeIf] at hsel
        obtain ⟨hlive, hnot⟩ := (RefreshTokenModel.revokedAt_revokeIf _ _ _).mp hsel.2
        simp [Scope.selects, hsel.1, hlive] at hnot
    change w'.db.revoke (.family m'.familyId) _ = w'.db
    rw [Database.revoke, hnone, Database.revokeRows, Table.updateWhere_of_none (by simp)]

end logout

/-- **Commands touch only what they own**, and logging out twice is logging out once. -/
theorem commands_touch_what_they_own {env : Env} {h : List Entry} {w : World}
    (hrun : Run env h w) :
    (∀ c, env.NoRepeat (execute env c w).2.ids → Completes env w c →
      ∃ user, ActsFor env w (execute env c w).2.db user c ∧
        Touches env w (execute env c w).2.db user c) ∧
    ∀ t, Accepts env w t →
      (execute env (.logout ⟨t⟩) (execute env (.logout ⟨t⟩) w).2).2.db =
        (execute env (.logout ⟨t⟩) w).2.db := by
  have hw := hrun.settled
  have hs := familyShape_of_run hrun
  have hi := issuance_of_run hrun
  refine ⟨fun c hfresh hdone => ?_, fun t ht => logout_twice hw ht⟩
  have hok : (∀ t, c ≠ .refreshToken ⟨t⟩) → ∃ x, (execute env c w).1 = .ok x := by
    intro hne
    rcases hdone with hok | ⟨t, _, _, hc, -⟩
    · exact hok
    · exact absurd hc (hne t)
  cases c with
  | createUser c => exact (createUser_outcome hw c hfresh).touches (hok (by simp))
  | login c => exact (login_outcome hw c hfresh).touches (hok (by simp))
  | refreshToken c =>
    refine (refresh_outcome hw c hfresh).touches hs hi ?_
    rcases hdone with hok | ⟨t, p, m, hc, hreplay⟩
    · exact .inl hok
    · cases hc
      exact .inr ⟨p, m, hreplay⟩
  | logout c =>
    obtain ⟨x, hx⟩ := hok (by simp)
    exact (logout_outcome hw c).touches hs hi ⟨x, hx⟩ (decoded_of_logout hi hx)
  | changePassword c => exact (changePassword_outcome hw c).touches (hok (by simp))

end frames

section sample

attribute [local instance] asciiUnicode

/-- The sample token is logged out. -/
theorem commands_touch_what_they_own_sample :
    (∃ user, ActsFor sampleEnv loggedInWorld
        (execute sampleEnv (.logout ⟨sampleToken⟩) loggedInWorld).2.db user
        (.logout ⟨sampleToken⟩) ∧
      Touches sampleEnv loggedInWorld
        (execute sampleEnv (.logout ⟨sampleToken⟩) loggedInWorld).2.db user
        (.logout ⟨sampleToken⟩)) ∧
    (execute sampleEnv (.logout ⟨sampleToken⟩)
        (execute sampleEnv (.logout ⟨sampleToken⟩) loggedInWorld).2).2.db =
      (execute sampleEnv (.logout ⟨sampleToken⟩) loggedInWorld).2.db :=
  ⟨(commands_touch_what_they_own run_sampleHistory).1 _ (by decide) (.inl ⟨_, rfl⟩),
    (commands_touch_what_they_own run_sampleHistory).2 _ ⟨_, rfl⟩⟩

end sample

end FastapiStarter
