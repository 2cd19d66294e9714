import FastapiStarter.Isolation

/-!
# Nobody is kept from their account

A request with the credentials of a user is not refused because of what requests without
them do at the same time: until it commits, everything it reads of the account is as it
was, and a commit of its own has nothing to collide with.

## Main definitions

* `ApiRequest.Entitled` — a request with the credentials of a user.
* `Owner`, `Owner.discipline` — how far such a request is, and what it may do.
* `ApiRequest.Serves` — what it is answered.

## Main results

* `owners_are_served` — **whatever requests of others do, a request with the credentials of
  a user is served.**
-/

namespace FastapiStarter

open Fallible Interaction Relational

section service

variable [Unicode]

/-! ### Credentials -/

/-- A token whose expiry the clock does not reach in its first `ticks` readings. -/
def Token.Lasts (env : Env) (ticks : ℕ) (t : Token) : Prop := ∀ n < ticks, t.Unexpired (env.clock n)

/-- The refresh token of a record of the user. -/
def RefreshTokenModel.HasToken (env : Env) (w : World) (user : User) (t : Token)
    (m : RefreshTokenModel) : Prop :=
  m ∈ w.db.refreshTokens.rows ∧ m.userId = user.id.value ∧ IssuedFor env w t m

/-- An access token of the user. -/
def Token.Opens (env : Env) (w : World) (user : User) (t : Token) : Prop :=
  t ∈ w.issued ∧ ∃ n < w.ticks, ∃ id, t = env.accessToken (env.clock n) user.id.value id

/-- **A request with the credentials of a user**: their address and password, the token of
a record of theirs, which is not revoked if it is to be used for another, or an access
token, and the password with it if it is to be changed. -/
def ApiRequest.Entitled (env : Env) (w : World) (ticks : ℕ) (user : User) : ApiRequest → Prop
  | .register _ => False
  | .login body => Email.ofStr body.email = .ok user.email ∧
      env.verify body.password user.hashedPassword.value = true
  | .refresh body => body.refreshToken.Lasts env ticks ∧
      ∃ m : RefreshTokenModel, m.HasToken env w user body.refreshToken ∧ m.revokedAt = none
  | .logout body => body.refreshToken.Lasts env ticks ∧
      ∃ m : RefreshTokenModel, m.HasToken env w user body.refreshToken
  | .changePassword credentials currentPassword _ => credentials.Lasts env ticks ∧
      credentials.Opens env w user ∧ env.verify currentPassword user.hashedPassword.value = true
  | .readMe credentials => credentials.Lasts env ticks ∧ credentials.Opens env w user

/-- What a request with the credentials of a user is answered: tokens for them, or their
profile. -/
def ApiRequest.Serves (user : User) : ApiRequest → Response → Prop
  | .login _, .tokenPair p | .refresh _, .tokenPair p =>
    p.accessToken.IsFor user.id.value ∧ p.refreshToken.IsFor user.id.value
  | .logout _, .none | .changePassword _ _ _, .none => True
  | .readMe _, .userView v => v.id = user.id.value ∧ v.email = user.email.value
  | _, _ => False

/-! ### The discipline -/

/-- How far a request is. -/
inductive Owner
  /-- It has written nothing. -/
  | reading
  /-- It has written, and will not read any more. -/
  | writing
  /-- It has committed. -/
  | done
  deriving DecidableEq

namespace Owner

/-- A record of the user that was stored in `w₀`. -/
def Stored (user : User) (w₀ : World) (jti : UUID) (r : RefreshTokenRecord) : Prop :=
  RefreshTokenMapper.toModel r ∈ w₀.db.refreshTokens.rows ∧ r.userId = user.id ∧ r.jti = jti

/-- The calls that are allowed; the clock is read no more than `ticks` times. -/
def Admits (env : Env) (user : User) (w₀ : World) (ticks : ℕ) : Owner → Port → Prop
  | .reading, .usersGetById userId => userId = user.id
  | .reading, .usersGetByEmail email => email = user.email
  | .reading, .refreshTokensGetByJti jti => ∃ r, Stored user w₀ jti r
  | .reading, .decode token => token ∈ w₀.issued ∧ ∀ n, w₀.ticks ≤ n → n < ticks →
      ∃ p, JwtTokenService.decode env.settings (env.clock n) token = .ok p
  | .reading, .usersUpdate user' => user'.id = user.id
  | .reading, .refreshTokensUpdate record => ∃ r, Stored user w₀ record.jti r
  | .reading, .verify _ _ | .reading, .recordRevoke _ _ | .reading, .userChangePassword _ _ => True
  | .done, .createAccessToken subject => subject = user.id.str
  | .done, _ => False
  | _, .createRefreshToken subject _ => subject = user.id.str
  | _, .refreshTokensAdd _ | _, .refreshTokensRevokeFamily _ _
  | _, .refreshTokensRevokeAllForUser _ _ | _, .commit | _, .hash _ | _, .now | _, .uuid4 => True
  | _, _ => False

/-- Where an answer leads. -/
def next (g : Owner) : (o : Port) → o.Ret → Owner
  | .usersUpdate _, _ | .refreshTokensUpdate _, _ | .refreshTokensAdd _, _
  | .refreshTokensRevokeFamily _ _, _ | .refreshTokensRevokeAllForUser _ _, _ => .writing
  | .commit, _ => .done
  | _, _ => g

/-- The answers that are relied on: what is read of the account is what was stored. -/
def Replies (env : Env) (user : User) (w₀ : World) (ticks : ℕ) : (o : Port) → o.Ret → Prop
  | .usersGetById _, found => found = some user
  | .usersGetByEmail _, found => found = some user
  | .refreshTokensGetByJti jti, found => ∃ r, Stored user w₀ jti r ∧ found = some r
  | .decode token, p => ∃ c, token = .signed env.settings.secret env.settings.algorithm c ∧
      c.sub = p.subject ∧ c.type = p.tokenType.literal ∧ UUID.ofStr c.jti = some p.tokenId
  | .verify plain hashed, verified => verified = env.verify plain hashed
  | .now, at' => ∃ n < ticks, at' = env.clock n
  | .hash _, hashed => hashed ≠ []
  | .recordRevoke record at', record' => record' = record.revoke at'
  | .userChangePassword user hashedPassword, user' => user' = user.changePassword hashedPassword
  | .createAccessToken subject, token => subject = user.id.str → token.IsFor user.id.value
  | .createRefreshToken subject _, issued =>
    subject = user.id.str → issued.token.IsFor user.id.value
  | _, _ => True

/-- Only a commit ends it. -/
theorem next_ne_done {g : Owner} {o : Port} {r : o.Ret} (hg : g ≠ .done) (ho : o ≠ .commit) :
    g.next o r ≠ .done := by
  cases o with
  | commit => exact absurd rfl ho
  | usersUpdate user => exact (by decide : Owner.writing ≠ .done)
  | refreshTokensUpdate record => exact (by decide : Owner.writing ≠ .done)
  | refreshTokensAdd record => exact (by decide : Owner.writing ≠ .done)
  | refreshTokensRevokeFamily familyId at' => exact (by decide : Owner.writing ≠ .done)
  | refreshTokensRevokeAllForUser userId at' => exact (by decide : Owner.writing ≠ .done)
  | _ => exact hg

/-- **The discipline of a request with the credentials of a user**: it reads what was
stored, writes, commits, and raises nothing. -/
def discipline (env : Env) (user : User) (w₀ : World) (ticks : ℕ) :
    Discipline Owner Port Port.Ret Exc where
  Calls := Admits env user w₀ ticks
  Answers _ := Replies env user w₀ ticks
  next := next
  Ends _ := True
  Raises _ _ := False

end Owner

/-! ### The handlers -/

section handlers

open Owner

variable {env : Env} {user : User} {w₀ : World} {ticks : ℕ}

/-- A token of the user that lasts is accepted. -/
theorem accepted_of_lasts (hclock : env.Timely ticks) (hi : Issuance env w₀) {t : Token}
    (ht : t ∈ w₀.issued)
    (hlasts : t.Lasts env ticks) : ∀ n, w₀.ticks ≤ n → n < ticks →
      ∃ p, JwtTokenService.decode env.settings (env.clock n) t = .ok p := by
  intro n hfrom hn
  -- either kind is a token that was encoded at an earlier reading
  have hencoded : ∀ k < w₀.ticks, ∀ subject type id lifetime,
      t = (JwtTokenService.encoded env.settings (env.clock k) subject type id lifetime).token →
        ∃ p, JwtTokenService.decode env.settings (env.clock n) t = .ok p := by
    rintro k hk subject type id lifetime rfl
    have hnow : env.clock n < timestamp (env.clock k + lifetime) * 1000000 := hlasts n hn
    have hkn : k ≤ n := hk.le.trans hfrom
    have hiat : timestamp (env.clock k) * 1000000 ≤ env.clock n :=
      (timestamp_le (hclock.nonneg k (hkn.trans hn.le)) (hclock.fine k (hkn.trans hn.le))).trans
        (hclock.mono k n hkn hn.le)
    rw [JwtTokenService.decode_encoded _ hiat, if_neg (not_le.mpr hnow)]
    exact ⟨_, rfl⟩
  rcases hi.issued t ht with ⟨m, -, k, hk, hm, -⟩ | ⟨k, hk, userId, id, hm⟩
  · exact hencoded k hk _ _ _ _ hm
  · exact hencoded k hk _ _ _ _ hm

/-- What a token of a record says. -/
theorem payload_of_record {t : Token} {m : RefreshTokenModel} (h : m.HasToken env w₀ user t)
    {p : TokenPayload} (hp : ∃ c, t = .signed env.settings.secret env.settings.algorithm c ∧
      c.sub = p.subject ∧ c.type = p.tokenType.literal ∧ UUID.ofStr c.jti = some p.tokenId) :
    p = ⟨user.id.str, .refresh, m.jti⟩ := by
  obtain ⟨-, huser, n, -, rfl, -⟩ := h
  obtain ⟨c, htoken, hsub, htype, hjti⟩ := hp
  rw [payload_of_encoded htoken hsub htype hjti, huser]

/-- The token of a record was issued. -/
theorem RefreshTokenModel.HasToken.issued (hi : Issuance env w₀) {t : Token}
    {m : RefreshTokenModel} (h : m.HasToken env w₀ user t) : t ∈ w₀.issued := by
  obtain ⟨hm, -, hfor⟩ := h
  obtain ⟨t', ht', hfor'⟩ := hi.stored m hm
  rwa [hfor.token_eq hfor']

theorem RefreshTokenModel.HasToken.stored (hsound : w₀.db.Sound) {t : Token}
    {m : RefreshTokenModel} (h : m.HasToken env w₀ user t) : ∃ r, Stored user w₀ m.jti r := by
  obtain ⟨hm, huser, -⟩ := h
  obtain ⟨r, rfl⟩ := hsound.refreshTokens m hm
  exact ⟨r, hm, UserId.ext huser, rfl⟩

omit [Unicode] in
/-- The whole second of an expiry does not lie after it. -/
theorem lt_of_lt_timestamp {now t : ℤ} (h0 : 0 ≤ now) (hfine : now < coarseFrom)
    (h : now < timestamp t * 1000000) : now < t := by
  rcases lt_or_ge t coarseFrom with ht | ht
  · rcases le_or_gt 0 t with ht0 | ht0
    · exact h.trans_le (timestamp_le ht0 ht)
    · have hneg : timestamp t ≤ 0 := timestamp_nonpos ht0.le
      omega
  · exact hfine.trans_le ht

/-- A record whose token lasts has not expired either. -/
theorem lt_expiresAt_of_lasts (hclock : env.Timely ticks) {t : Token} {m : RefreshTokenModel}
    (h : m.HasToken env w₀ user t) (hlasts : t.Lasts env ticks) {n : ℕ} (hn : n < ticks) :
    env.clock n < asUtc m.expiresAt := by
  obtain ⟨-, -, k, -, rfl, hexp⟩ := h
  have hnow : env.clock n < timestamp (env.clock k + JwtTokenService.refreshLifetime env.settings) *
      1000000 := hlasts n hn
  rw [hexp]
  exact lt_of_lt_timestamp (hclock.nonneg n hn.le) (hclock.fine n hn.le) hnow

theorem leads_login_owner {body : LoginCommand} (hactive : user.isActive = true)
    (hentitled : (ApiRequest.login body).Entitled env w₀ ticks user) :
    (discipline env user w₀ ticks).Leads (fun r _ => (ApiRequest.login body).Serves user r)
      (ApiRequest.login body).execute .reading := by
  obtain ⟨hemail, hpassword⟩ := hentitled
  apply Discipline.leads_map.mpr
  unfold LoginHandler.execute
  rw [hemail]
  simp only [Prog.op_bind]
  refine Discipline.Leads.call rfl ?_
  intro found hfound
  obtain rfl : found = some user := hfound
  simp only [hactive, Bool.not_true, Bool.false_eq_true, if_false]
  refine Discipline.Leads.call trivial ?_
  intro verified hverified
  obtain rfl : verified = true := hverified.trans hpassword
  refine Discipline.Leads.call trivial ?_
  intro jti _
  refine Discipline.Leads.call rfl ?_
  intro issued hissued
  refine Discipline.Leads.call trivial ?_
  intro familyId _
  -- from here on it has written, and only commits and issues the access token
  refine Discipline.Leads.call trivial ?_
  intro _ _
  refine Discipline.Leads.call trivial ?_
  intro _ _
  refine Discipline.Leads.call rfl ?_
  intro accessToken haccess
  exact ⟨haccess rfl, hissued rfl⟩

theorem leads_refresh_owner (hclock : env.Timely ticks) (hi : Issuance env w₀)
    (hsound : w₀.db.Sound) {body : RefreshTokenCommand} (hactive : user.isActive = true)
    (hentitled : (ApiRequest.refresh body).Entitled env w₀ ticks user) :
    (discipline env user w₀ ticks).Leads (fun r _ => (ApiRequest.refresh body).Serves user r)
      (ApiRequest.refresh body).execute .reading := by
  obtain ⟨hlasts, m, hm, hlive⟩ := hentitled
  have hissued := hm.issued hi
  apply Discipline.leads_map.mpr
  simp only [RefreshTokenHandler.execute, Prog.op_bind]
  refine Discipline.Leads.call ⟨hissued, accepted_of_lasts hclock hi hissued hlasts⟩ ?_
  intro p hp
  obtain rfl := payload_of_record hm hp
  rw [if_neg (not_not.mpr rfl)]
  refine Discipline.Leads.call (hm.stored hsound) ?_
  intro found hfound
  obtain ⟨r, hr, rfl⟩ := hfound
  -- the record read is the one stored
  obtain rfl : RefreshTokenMapper.toModel r = m :=
    w₀.db.refreshTokens.eq_of_key_eq hr.1 hm.1 hr.2.2
  have hnotRevoked : r.isRevoked = false := by
    have hnone : r.revokedAt.map Datetime.aware = none := hlive
    rw [RefreshTokenRecord.isRevoked, Option.map_eq_none_iff.mp hnone]
    rfl
  refine Discipline.Leads.call trivial ?_
  intro now hnow
  obtain ⟨n, hn, rfl⟩ := hnow
  have hnotExpired : ¬ r.expiresAt ≤ env.clock n := by
    have hlt := lt_expiresAt_of_lasts hclock hm hlasts hn
    exact not_le.mpr hlt
  simp only [hnotRevoked, Bool.false_eq_true, if_false, hnotExpired, UserId.fromStr_str]
  refine Discipline.Leads.call rfl ?_
  intro found hfound
  obtain rfl : found = some user := hfound
  simp only [hactive, Bool.not_true, Bool.false_eq_true, if_false]
  refine Discipline.Leads.call trivial ?_
  intro record hrecord
  obtain rfl : record = r.revoke (env.clock n) := hrecord
  have hwritten : ∃ r', Stored user w₀ (r.revoke (env.clock n)).jti r' := by
    rw [RefreshTokenRecord.jti_revoke]
    exact ⟨r, hr.1, hr.2.1, rfl⟩
  refine Discipline.Leads.call hwritten ?_
  intro _ _
  refine Discipline.Leads.call trivial ?_
  intro newJti _
  refine Discipline.Leads.call rfl ?_
  intro issued hissued
  refine Discipline.Leads.call trivial ?_
  intro _ _
  refine Discipline.Leads.call trivial ?_
  intro _ _
  refine Discipline.Leads.call rfl ?_
  intro accessToken haccess
  exact ⟨haccess rfl, hissued rfl⟩

theorem leads_logout_owner (hclock : env.Timely ticks) (hi : Issuance env w₀)
    (hsound : w₀.db.Sound) {body : LogoutCommand}
    (hentitled : (ApiRequest.logout body).Entitled env w₀ ticks user) :
    (discipline env user w₀ ticks).Leads (fun r _ => (ApiRequest.logout body).Serves user r)
      (ApiRequest.logout body).execute .reading := by
  obtain ⟨hlasts, m, hm⟩ := hentitled
  have hissued := hm.issued hi
  apply Discipline.leads_map.mpr
  simp only [LogoutHandler.execute, Prog.op_bind]
  refine Discipline.Leads.call ⟨hissued, accepted_of_lasts hclock hi hissued hlasts⟩ ?_
  intro p hp
  obtain rfl := payload_of_record hm hp
  rw [if_neg (not_not.mpr rfl)]
  refine Discipline.Leads.call (hm.stored hsound) ?_
  intro found hfound
  obtain ⟨r, hr, rfl⟩ := hfound
  refine Discipline.Leads.call trivial ?_
  intro now _
  refine Discipline.Leads.call trivial ?_
  intro _ _
  refine Discipline.Leads.call trivial ?_
  exact fun _ _ => trivial

/-- Whoever has an access token of the user is the user. -/
theorem leads_getCurrentUser_owner (hclock : env.Timely ticks) (hi : Issuance env w₀)
    {credentials : Token}
    (hactive : user.isActive = true) (hlasts : credentials.Lasts env ticks)
    (hopens : credentials.Opens env w₀ user) :
    (discipline env user w₀ ticks).Leads (fun user' g => user' = user ∧ g = .reading)
      (getCurrentUser credentials) .reading := by
  obtain ⟨hissued, n, hn, id, heq⟩ := hopens
  simp only [getCurrentUser, Prog.op_bind]
  refine Discipline.Leads.call ⟨hissued, accepted_of_lasts hclock hi hissued hlasts⟩ ?_
  intro p hp
  obtain ⟨c, htoken, hsub, htype, hjti⟩ := hp
  obtain rfl := payload_of_encoded (heq.symm.trans htoken) hsub htype hjti
  rw [if_neg (not_not.mpr rfl)]
  simp only [UserId.fromStr_str]
  refine Discipline.Leads.call rfl ?_
  intro found hfound
  obtain rfl : found = some user := hfound
  simp only [hactive, Bool.not_true, Bool.false_eq_true, if_false]
  exact ⟨rfl, rfl⟩

theorem leads_changePassword_owner (hclock : env.Timely ticks) (hi : Issuance env w₀)
    {credentials : Token}
    {currentPassword newPassword : Str} (hactive : user.isActive = true)
    (hentitled : (ApiRequest.changePassword credentials currentPassword newPassword).Entitled env
      w₀ ticks user) :
    (discipline env user w₀ ticks).Leads (fun r _ =>
        (ApiRequest.changePassword credentials currentPassword newPassword).Serves user r)
      (ApiRequest.changePassword credentials currentPassword newPassword).execute .reading := by
  obtain ⟨hlasts, hopens, hpassword⟩ := hentitled
  refine (leads_getCurrentUser_owner hclock hi hactive hlasts hopens).bind ?_
  rintro _ _ ⟨rfl, rfl⟩
  apply Discipline.leads_map.mpr
  simp only [ChangePasswordHandler.execute, Prog.op_bind]
  refine Discipline.Leads.call rfl ?_
  intro found hfound
  obtain rfl : found = some _ := hfound
  refine Discipline.Leads.call trivial ?_
  intro verified hverified
  obtain rfl : verified = true := hverified.trans hpassword
  simp only [Bool.not_true, Bool.false_eq_true, if_false]
  refine Discipline.Leads.call trivial ?_
  intro hashed hhashed
  split
  · next e he =>
    -- the hash is not empty
    have hne : hashed ≠ [] := hhashed
    rw [HashedPassword.ofStr, dif_pos hne] at he
    cases he
  refine Discipline.Leads.call trivial ?_
  intro user' huser'
  obtain rfl : user' = _ := huser'
  refine Discipline.Leads.call rfl ?_
  intro _ _
  refine Discipline.Leads.call trivial ?_
  intro now _
  refine Discipline.Leads.call trivial ?_
  intro _ _
  refine Discipline.Leads.call trivial ?_
  exact fun _ _ => trivial

/-- **Every request with the credentials of a user keeps to the discipline.** -/
theorem leads_owner (hclock : env.Timely ticks) (hi : Issuance env w₀) (hsound : w₀.db.Sound)
    (hactive : user.isActive = true)
    {r : ApiRequest} (hentitled : r.Entitled env w₀ ticks user) :
    (discipline env user w₀ ticks).Leads (fun response _ => r.Serves user response) r.execute
      .reading := by
  cases r with
  | register body => exact hentitled.elim
  | login body => exact leads_login_owner hactive hentitled
  | refresh body => exact leads_refresh_owner hclock hi hsound hactive hentitled
  | logout body => exact leads_logout_owner hclock hi hsound hentitled
  | changePassword credentials currentPassword newPassword =>
    exact leads_changePassword_owner hclock hi hactive hentitled
  | readMe credentials =>
    refine (leads_getCurrentUser_owner hclock hi hactive hentitled.1 hentitled.2).bind ?_
    rintro _ _ ⟨rfl, -⟩
    exact ⟨rfl, rfl⟩

end handlers

/-! ### Calls -/

section calls

open Owner

variable {env : Env} {user : User} {w₀ w : World} {s : Session} {ticks : ℕ} {tokens : List Token}
  {mine : ℕ → Prop} {g : Owner} {o : Port}

/-- What holds of the session of the request: before it writes, it holds no instance. -/
def Owner.Holds (sid : ℕ) : Owner → Session → World → Prop
  | .reading, s, w => (∀ st ∈ w.statements, st.session ≠ sid) ∧ s = .empty
  | _, _, _ => True

/-- What is known of a call from what the world is like in the end. -/
def Foreseen (env : Env) (ticks : ℕ) (tokens : List Token) (w : World) : Port → Prop
  | .uuid4 => env.NoRepeat (w.ids + 1)
  | .now | .decode _ => w.ticks < ticks
  | .createRefreshToken subject jti =>
    (JwtTokenService.refreshToken env.settings (w.now env) subject jti).token ∈ tokens
  | _ => True

omit [Unicode] in
theorem Owner.Holds.same {sid : ℕ} {w' : World} (h : g.Holds sid s w)
    (hstatements : w'.statements = w.statements) : g.Holds sid s w' := by
  cases g with
  | reading => exact ⟨by rw [hstatements]; exact h.1, h.2⟩
  | writing => trivial
  | done => trivial

omit [Unicode] in
/-- A request that has written nothing sees what is committed. -/
theorem Owner.view_of_reading {sid : ℕ} (h : ∀ st ∈ w.statements, st.session ≠ sid) :
    w.view sid = w.db := by
  have hnone : w.statementsOf sid = [] := by
    rw [World.statementsOf, List.filter_eq_nil_iff.mpr fun st hst => by simpa using h st hst]
    rfl
  rw [World.view, hnone]
  rfl

/-- What a call that is answered comes to. -/
def Owner.Effect (env : Env) (user : User) (w₀ : World) (ticks : ℕ) (tokens : List Token)
    (mine : ℕ → Prop) (sid : ℕ) (g : Owner) (o : Port)
    (result : Except Exc o.Ret × Session × World) : Prop :=
  ∃ r s' w', result = (.ok r, s', w') ∧ Replies env user w₀ ticks o r ∧
    (g.next o r).Holds sid s' w' ∧ World.Spared mine tokens user.id.value w₀ w'

/-- What a request reads is what was stored. -/
theorem Owner.exec_reads {sid : ℕ} (h : World.Spared mine tokens user.id.value w₀ w)
    (huser : UserMapper.toModel user ∈ w₀.db.users.rows) (hevents : user.events = [])
    (hemails : (w.db.users.rows.map (·.email)).Nodup)
    (hs : Owner.reading.Holds sid s w) (ho : Owner.reading.Admits env user w₀ ticks o)
    (hforeseen : Foreseen env ticks tokens w o)
    (hreads : ∀ g : Owner, g ≠ .reading → ¬ g.Admits env user w₀ ticks o) :
    Owner.Effect env user w₀ ticks tokens mine sid .reading o (exec env sid o (s, w)) := by
  have hrow : UserMapper.toModel user ∈ w.db.users.rows := (h.db.users.mem_iff rfl).mpr huser
  have hget : w.db.users.get user.id.value = some (UserMapper.toModel user) := Table.get_key hrow
  have hloaded : UserMapper.toDomain (env.dialect.readUser (UserMapper.toModel user)) =
      .ok user := by
    rw [UserMapper.toDomain_toModel, ← hevents]
  obtain ⟨hnone, rfl⟩ := hs
  have hview := view_of_reading hnone
  -- so is a record
  have hrecord : ∀ {jti r}, Stored user w₀ jti r →
      w.db.refreshTokens.get jti = some (RefreshTokenMapper.toModel r) := by
    intro jti r hr
    obtain ⟨hr, howner, rfl⟩ := hr
    exact Table.get_key ((h.db.refreshTokens.mem_iff (congrArg UserId.value howner)).mpr hr)
  cases o with
  | usersGetById userId =>
    obtain rfl : userId = user.id := ho
    simp only [exec, hview, Session.getUser_empty, hget, Option.map_some, userOfModel, hloaded]
    exact ⟨some user, .empty, w, rfl, rfl, ⟨hnone, rfl⟩, h⟩
  | usersGetByEmail email =>
    obtain rfl : email = user.email := ho
    have hselect := Session.selectUserByEmail_some env.dialect hemails hrow
    simp only [exec, hview]
    rw [show user.email.value = (UserMapper.toModel user).email from rfl, hselect]
    simp only [userOfModel, hloaded]
    exact ⟨some user, .empty, w, rfl, rfl, ⟨hnone, rfl⟩, h⟩
  | usersUpdate user' =>
    have hid : user'.id = user.id := ho
    simp only [exec, hview, Session.getUser_empty, hid, hget, Option.map_some]
    exact ⟨(), _, w, rfl, trivial, trivial, h⟩
  | refreshTokensGetByJti jti =>
    obtain ⟨r, hr⟩ := ho
    simp only [exec, hview, Session.getRefreshToken_empty, hrecord hr, Option.map_some,
      RefreshTokenMapper.toDomain_toModel]
    exact ⟨some r, .empty, w, rfl, ⟨r, hr, rfl⟩, ⟨hnone, rfl⟩, h⟩
  | refreshTokensUpdate record =>
    obtain ⟨r, hr⟩ := ho
    simp only [exec, hview, Session.getRefreshToken_empty, hrecord hr, Option.map_some]
    exact ⟨(), _, w, rfl, trivial, trivial, h⟩
  | decode token =>
    obtain ⟨p, hp⟩ := ho.2 w.ticks h.ticks hforeseen
    have hdecode : w.decode env token = .ok p := by
      rw [World.decode, if_pos (h.kept ho.1)]
      exact hp
    simp only [exec, hdecode]
    exact ⟨p, .empty, w.tick, rfl, World.signed_of_decode hdecode, ⟨hnone, rfl⟩,
      h.frame rfl rfl rfl le_rfl (Nat.le_succ _)⟩
  | verify plain hashed => exact ⟨_, .empty, w, rfl, rfl, ⟨hnone, rfl⟩, h⟩
  | recordRevoke record at' => exact ⟨_, .empty, w, rfl, rfl, ⟨hnone, rfl⟩, h⟩
  | userChangePassword user' hashedPassword => exact ⟨_, .empty, w, rfl, rfl, ⟨hnone, rfl⟩, h⟩
  | commit => exact absurd trivial (hreads .writing (by decide))
  | _ => first | exact ho.elim | exact absurd ho (hreads .writing (by decide))

/-- **What a call does before the request commits**: it is answered, and reads what was
stored. -/
theorem Owner.exec_serves {sid : ℕ} (h : World.Spared mine tokens user.id.value w₀ w)
    (hsid : mine sid)
    (huser : UserMapper.toModel user ∈ w₀.db.users.rows) (hevents : user.events = [])
    (hemails : (w.db.users.rows.map (·.email)).Nodup)
    (hhash : ∀ salt plain, env.hash salt plain ≠ []) (hs : g.Holds sid s w)
    (ho : g.Admits env user w₀ ticks o) (hcommit : o ≠ .commit) (hdone : g ≠ .done)
    (hforeseen : Foreseen env ticks tokens w o) :
    Owner.Effect env user w₀ ticks tokens mine sid g o (exec env sid o (s, w)) := by
  have hbulk : ∀ scope at', World.Spared mine tokens user.id.value w₀
      (execBulk sid scope at' s w).2 := by
    refine fun scope at' => { h with statements := fun st hst hother => ?_ }
    rcases List.mem_cons.mp hst with rfl | hst
    · exact absurd hsid hother
    · exact h.statements st hst hother
  cases o with
  | createRefreshToken subject jti =>
    have hsubject : subject = user.id.str := by
      cases g with
      | reading => exact ho
      | writing => exact ho
      | done => exact absurd rfl hdone
    have hfor : (JwtTokenService.refreshToken env.settings (w.now env) subject
        jti).token.IsFor user.id.value := congrArg some hsubject
    exact ⟨JwtTokenService.refreshToken env.settings (w.now env) subject jti, s,
      w.issue _, rfl, fun _ => hfor, hs.same rfl,
      h.issue (.inl ⟨hforeseen, hfor⟩) rfl rfl rfl le_rfl (Nat.le_succ _)⟩
  | refreshTokensAdd record => exact ⟨(), _, w, rfl, trivial, trivial, h⟩
  | refreshTokensRevokeFamily familyId at' =>
    exact ⟨(), _, _, rfl, trivial, trivial, hbulk (.family familyId) at'⟩
  | refreshTokensRevokeAllForUser userId at' =>
    exact ⟨(), _, _, rfl, trivial, trivial, hbulk (.user userId.value) at'⟩
  | hash plain =>
    exact ⟨env.hash w.salts plain, s, w.drawSalt, rfl, hhash _ _, hs.same rfl,
      h.frame rfl rfl rfl le_rfl le_rfl⟩
  | now =>
    exact ⟨w.now env, s, w.tick, rfl, ⟨w.ticks, hforeseen, rfl⟩, hs.same rfl,
      h.frame rfl rfl rfl le_rfl (Nat.le_succ _)⟩
  | uuid4 =>
    exact ⟨w.freshId env, s, w.drawId, rfl, trivial, hs.same rfl,
      h.frame rfl rfl rfl (Nat.le_succ _) le_rfl⟩
  | commit => exact absurd rfl hcommit
  | createAccessToken subject =>
    cases g with
    | done => exact absurd rfl hdone
    | _ => exact ho.elim
  -- the other calls are made only by a request that has written nothing
  | _ =>
    cases g with
    | reading =>
      refine Owner.exec_reads h huser hevents hemails hs ho hforeseen fun g hg hg' => ?_
      cases g with
      | reading => exact hg rfl
      | _ => exact hg'.elim
    | writing => exact ho.elim
    | done => exact absurd rfl hdone

/-! ### Commits -/

omit [Unicode] in
/-- What a flush fails with is no domain error. -/
theorem Session.flush_no_domain (s : Session) (db : Database) :
    Meets (s.flush db) (fun _ => True) fun e => ∀ x, e ≠ .domain x := by
  -- the four loops of a flush are folds of statements that raise no domain error
  have hfold : ∀ {α : Type} (f : Database → α → Except Exc Database),
      (∀ db a, Meets (f db a) (fun _ => True) fun e => ∀ x, e ≠ .domain x) →
      ∀ as db, Meets (List.foldlM f db as) (fun _ => True) fun e => ∀ x, e ≠ .domain x :=
    fun f hf as db => Meets.foldlM (fun _ _ => True) (fun a _ db _ => hf db a) as db trivial
  have hupdateUser : ∀ (db : Database) t,
      Meets (db.updateUser t) (fun _ => True) fun e => ∀ x, e ≠ .domain x := by
    intro db t
    unfold Database.updateUser
    split_ifs <;> simp
  have hinsertUser : ∀ (db : Database) m,
      Meets (db.insertUser m) (fun _ => True) fun e => ∀ x, e ≠ .domain x := by
    intro db m
    unfold Database.insertUser
    split
    · simp
    · split_ifs <;> simp
  have hupdateRefreshToken : ∀ (db : Database) t,
      Meets (db.updateRefreshToken t) (fun _ => True) fun e => ∀ x, e ≠ .domain x := by
    intro db t
    unfold Database.updateRefreshToken
    split_ifs <;> simp
  have hinsertRefreshToken : ∀ (db : Database) m,
      Meets (db.insertRefreshToken m) (fun _ => True) fun e => ∀ x, e ≠ .domain x := by
    intro db m
    unfold Database.insertRefreshToken
    split
    · simp
    · split_ifs <;> simp
  unfold Session.flush
  exact (hfold _ hupdateUser _ _).bind fun _ _ => (hfold _ hinsertUser _ _).bind fun _ _ =>
    (hfold _ hupdateRefreshToken _ _).bind fun _ _ => hfold _ hinsertRefreshToken _ _

omit [Unicode] in
/-- The only domain error of a commit is that an address is taken. -/
theorem execCommit_domain {sid : ℕ} {e : Exc} {s' : Session} {w' : World} {x : DomainError}
    (hx : execCommit env sid s w = (.error e, s', w')) (he : e = .domain x) :
    x = .emailAlreadyExists := by
  have hflush := s.flush_no_domain (w.view sid)
  unfold execCommit at hx
  rcases hf : s.flush (w.view sid) with e₀ | db
  · rw [hf] at hx hflush
    obtain rfl : translateCommitError env.dialect e₀ = e := Except.error.inj (Prod.mk.inj hx).1
    cases e₀ with
    | integrity c =>
      rw [translateCommitError_integrity] at he
      split at he
      · exact (Exc.domain.inj he).symm
      · cases he
    | domain y => exact absurd rfl (hflush y)
    | _ => cases he
  · rw [hf] at hx
    cases hx

omit [Unicode] in
/-- Before and after a call of another request. -/
theorem Owner.Holds.later {sid j : ℕ} {w' : World} (h : g.Holds sid s w)
    (hlater : w.Later j w') (hj : j ≠ sid) : g.Holds sid s w' := by
  cases g with
  | reading =>
    refine ⟨fun st hst => ?_, h.2⟩
    rcases hlater.statements st hst with hst | hsession
    · exact h.1 st hst
    · rwa [hsession]
  | writing => trivial
  | done => trivial

/-- What is true in the end was foreseen at every call. -/
theorem foreseen_of_exec {sid : ℕ} (hids : env.NoRepeat (exec env sid o (s, w)).2.2.ids)
    (hticks : (exec env sid o (s, w)).2.2.ticks ≤ ticks)
    (hissued : (exec env sid o (s, w)).2.2.issued ⊆ tokens) : Foreseen env ticks tokens w o := by
  cases o with
  | uuid4 => exact hids
  | now => exact hticks
  | decode token => exact hticks
  | createRefreshToken subject jti => exact hissued List.mem_cons_self
  | _ => trivial

end calls

/-! ### Histories -/

section histories

variable {env : Env} {h : List Entry} {w : World}

/-- A user who is deactivated is stored all the same. -/
theorem sound_deactivate (hsound : w.db.Sound) (userId : UUID) :
    (w.deactivate userId).db.Sound where
  users m' hm' := by
    obtain ⟨m, hm, rfl⟩ := List.mem_map.mp hm'
    obtain ⟨u, rfl⟩ := hsound.users m hm
    split
    · exact ⟨{ u with isActive := false }, rfl⟩
    · exact ⟨u, rfl⟩
  emails := by
    have hemails : (w.deactivate userId).db.users.rows.map (·.email) =
        w.db.users.rows.map (·.email) := by
      show (w.db.users.rows.map _).map _ = _
      rw [List.map_map]
      refine List.map_congr_left fun m _ => ?_
      simp only [Function.comp]
      split <;> rfl
    rw [hemails]
    exact hsound.emails
  refreshTokens := hsound.refreshTokens
  owners m hm := by
    obtain ⟨u, hu, hid⟩ := hsound.owners m hm
    refine ⟨_, List.mem_map_of_mem hu, ?_⟩
    split <;> exact hid

/-- **The stored data are sound after every history.** -/
theorem sound_of_run (hhash : ∀ salt plain, env.hash salt plain ≠ [])
    (hdispatch : env.dispatcher = eventDispatcher) (hrun : Run env h w) : w.db.Sound := by
  induction hrun with
  | start => exact sound_empty
  | deactivate userId _ ih => exact sound_deactivate ih userId
  | @command h w c hrun hfresh ih =>
    -- a command alone is a run of which it is the only request
    have hstatements := hrun.settled.statements
    obtain ⟨cfg, hreach, -, hshared⟩ := reach_alone (S := system env) (i := 0)
      (c := start (fun i => if i = 0 then some c else none) w)
      (P := fun w' => ∀ st ∈ w'.statements, st.session = 0)
      (fun _ _ _ hinv st hst hother => absurd (hinv st hst) hother)
      (fun o s w' hinv st hst => ((exec_later env 0 o s w').statements st hst).elim (hinv st) id)
      c.execute rfl (by simp [start, hstatements])
    have hsound := ((starts_start hstatements ih).sound_of_reach hhash hdispatch hreach .refl).1
    rw [hshared] at hsound
    exact hsound

end histories

/-! ### Runs -/

section runs

variable {env : Env} {h : List Entry} {w : World} {user : User} {ticks : ℕ}
  {tokens : List Token} {requests : ℕ → Option ApiRequest} {i₀ : ℕ} {r : ApiRequest}
  {cfg : Config ℕ Port Port.Ret Exc Response Session World}

/-- The session of the request of the user, and those of the others. -/
def Owner.Kept (user : User) (w₀ w : World) (i₀ i : ℕ) : (Unit ⊕ Owner) × Session → Prop
  | (.inl _, s) => i ≠ i₀ ∧ s.Spares user.id.value w₀.db
  | (.inr g, s) => i = i₀ ∧ g.Holds i₀ s w ∧ g ≠ .done

/-- A call of another request. -/
theorem Owner.Kept.later {w₀ w' : World} {i j : ℕ} {x : (Unit ⊕ Owner) × Session}
    (h : Owner.Kept user w₀ w i₀ j x) (hlater : w.Later i w') (hj : j ≠ i) :
    Owner.Kept user w₀ w' i₀ j x := by
  obtain ⟨_ | g, s⟩ := x
  · exact h
  · obtain ⟨rfl, hholds, hdone⟩ := h
    exact ⟨rfl, hholds.later hlater hj.symm, hdone⟩

/-- **Until the request commits** it keeps to its discipline, whatever the others do. -/
theorem Owner.leads_until_commit (hhash : ∀ salt plain, env.hash salt plain ≠ [])
    (hclock : env.Timely ticks)
    (hrun : Run env h w) (hsound : w.db.Sound) (huser : UserMapper.toModel user ∈ w.db.users.rows)
    (hevents : user.events = []) (hactive : user.isActive = true) (hr : requests i₀ = some r)
    (hentitled : r.Entitled env w ticks user)
    (hlacks : ∀ i r', i ≠ i₀ → requests i = some r' →
      r'.Lacks env user.id.value w.db tokens)
    (hissued : w.issued ⊆ tokens)
    (hemails : ∀ c, Reach (system env) anyCall (startApi requests w) c →
      (c.shared.db.users.rows.map (·.email)).Nodup)
    (hreach : Reach (system env) (fun tr s i o => (anyCall tr s i o ∧
      Foreseen env ticks tokens s o) ∧ ¬ (i = i₀ ∧ o = .commit)) (startApi requests w) cfg) :
    ∃ g : Owner, g ≠ .done ∧ (Owner.discipline env user w ticks).Leads
      (fun response _ => r.Serves user response) (cfg.threads i₀).prog g := by
  have hmem : user.id.value ∈ w.db.users.rows.map (·.id) := List.mem_map.mpr ⟨_, huser, rfl⟩
  -- the owner follows one discipline and everybody else the other
  obtain ⟨g, ⟨-, hkept⟩, hleads⟩ := hreach.leads
    (fun _ => (Outsider.discipline env user.id.value w.db tokens).sum
      (Owner.discipline env user w ticks))
    (fun i response _ => i = i₀ → r.Serves user response)
    (fun i => if i = i₀ then .inr .reading else .inl ())
    (fun x w' _ => World.Spared (· = i₀) tokens user.id.value w w' ∧
      ∀ i, Owner.Kept user w w' i₀ i (x i))
    (by
      -- every request starts by the discipline that is its own
      intro i
      by_cases hi : i = i₀
      · subst hi
        simp only [startApi, hr, if_true]
        exact Discipline.leads_inr.mpr ((leads_owner hclock (issuance_of_run hrun) hsound hactive
          hentitled).imp fun _ _ hserves _ => hserves)
      · rw [if_neg hi]
        refine Discipline.leads_inl.mpr ?_
        simp only [startApi]
        rcases hr' : requests i with _ | r'
        · exact fun heq => absurd heq hi
        · exact (leads_outside (hlacks i r' hi hr')).imp fun _ _ _ heq => absurd heq hi)
    -- at the start the world spares the user, and nothing is pending
    ⟨spared_of_run hrun _ _ hissued, fun i => by
      by_cases hi : i = i₀
      · simp only [if_pos hi]
        refine ⟨hi, ⟨?_, rfl⟩, by decide⟩
        simp [startApi, hrun.settled.statements]
      · simp only [if_neg hi]
        exact ⟨hi, .empty⟩⟩
    (by
      -- one call of one request, of which the others only notice that time passes
      rintro c g i o hc ⟨hspared, hkept⟩ hcalls ⟨⟨-, hforeseen⟩, hcommit⟩
      have hlater := exec_later env i o (c.threads i).loc c.shared
      have hothers : ∀ {w' : World}, c.shared.Later i w' → ∀ y : (Unit ⊕ Owner) × Session,
          Owner.Kept user w w' i₀ i y → ∀ j, Owner.Kept user w w' i₀ j
            (Function.update (fun j => (g j, (c.threads j).loc)) i y j) := by
        intro w' hlater y hy
        exact (Function.forall_update_iff _ fun j y => Owner.Kept user w w' i₀ j y).mpr
          ⟨hy, fun j hj => (hkept j).later hlater hj⟩
      have hi : Owner.Kept user w c.shared i₀ i (g i, (c.threads i).loc) := hkept i
      rcases hg : g i with _ | gi
      · -- another request
        rw [hg] at hi hcalls
        obtain ⟨hne, hspares⟩ := hi
        have heffect := Outsider.exec_spares hrun.settled hmem hspared hspares hcalls
          (by rintro rfl; exact hforeseen) i hne
        rcases hx : (system env).exec i o ((c.threads i).loc, c.shared) with ⟨e | ret, s, w'⟩
        · have hx' : exec env i o ((c.threads i).loc, c.shared) = (.error e, s, w') := hx
          rw [hx'] at heffect hlater
          exact ⟨.inl (), trivial, trivial, heffect.spared,
            hothers hlater _ ⟨hne, heffect.spares⟩⟩
        · have hx' : exec env i o ((c.threads i).loc, c.shared) = (.ok ret, s, w') := hx
          rw [hx'] at heffect hlater
          exact ⟨heffect.replies ret rfl, heffect.spared,
            hothers hlater _ ⟨hne, heffect.spares⟩⟩
      · -- the request of the user
        rw [hg] at hi hcalls
        obtain ⟨rfl, hholds, hdone⟩ := hi
        obtain ⟨ret, s, w', hx, hreplies, hnext, hspared'⟩ := Owner.exec_serves hspared rfl
          huser hevents (hemails c (hc.imp fun _ _ _ _ _ => trivial)) hhash hholds hcalls
          (fun ho => hcommit ⟨rfl, ho⟩) hdone hforeseen
        have hx' : (system env).exec i o ((c.threads i).loc, c.shared) = (.ok ret, s, w') := hx
        rw [hx] at hlater
        rw [hx']
        refine ⟨hreplies, hspared', hothers hlater _ ⟨rfl, hnext, ?_⟩⟩
        exact Owner.next_ne_done hdone fun ho => hcommit ⟨rfl, ho⟩)
  -- what is left is to look at the owner
  have hi₀ := hkept i₀
  have hleads₀ := hleads i₀
  rcases hg : g i₀ with _ | gi
  · simp only [hg] at hi₀
    exact absurd rfl hi₀.1
  · simp only [hg] at hi₀
    rw [hg, Discipline.leads_inr] at hleads₀
    exact ⟨gi, hi₀.2.2, hleads₀.imp fun _ _ hserves => hserves rfl⟩

/-- A request with the credentials of a user is not refused an address. -/
theorem ApiRequest.Entitled.not_refuses (h : r.Entitled env w ticks user) :
    ¬ r.Refuses .emailAlreadyExists := by
  cases r with
  | register body => exact h.elim
  | login body =>
    intro hx
    cases hx
  | changePassword credentials currentPassword newPassword =>
    rintro (hx | hx | hx) <;> cases hx
  | _ => rintro (hx | hx) <;> cases hx

/-- Ids are drawn and tokens are issued, and none is taken back. -/
theorem later_of_reach {α : Type} {c c' : Config ℕ Port Port.Ret Exc α Session World}
    {guard : Guard ℕ Port Port.Ret Exc World} (hreach : Reach (system env) guard c c') :
    c.shared.ids ≤ c'.shared.ids ∧ c.shared.issued ⊆ c'.shared.issued :=
  hreach.shared (R := fun w w' => w.ids ≤ w'.ids ∧ w.issued ⊆ w'.issued)
    (fun _ => ⟨le_rfl, List.Subset.refl _⟩)
    (fun _ _ _ h h' => ⟨h.1.trans h'.1, List.Subset.trans h.2 h'.2⟩) fun i o s w =>
      ⟨(exec_later env i o s w).ids, (exec_later env i o s w).issued⟩

/-- After the commit only an access token is issued, which cannot fail. -/
theorem Owner.leads_after_commit {c : Config ℕ Port Port.Ret Exc Response Session World}
    (hleads : (Owner.discipline env user w ticks).Leads
      (fun response _ => r.Serves user response) (c.threads i₀).prog .done)
    (hreach : Reach (system env) anyCall c cfg) :
    (Owner.discipline env user w ticks).Leads (fun response _ => r.Serves user response)
      (cfg.threads i₀).prog .done := by
  obtain ⟨g, rfl, hend⟩ := hreach.leads_own (i := i₀) (D := Owner.discipline env user w ticks)
    (P := fun response _ => r.Serves user response) (· = .done) (by
      rintro g o s w' rfl hcalls
      cases o with
      | createAccessToken subject => exact ⟨_, rfl, fun hsubject => congrArg some hsubject, rfl⟩
      | _ => exact hcalls.elim) ⟨.done, rfl, hleads⟩
  exact hend

/-- **The discipline is kept to the end**, whatever requests without the credentials do at
the same time. -/
theorem Owner.leads_of_reach (hhash : ∀ salt plain, env.hash salt plain ≠ [])
    (hdispatch : env.dispatcher = eventDispatcher) (hclock : env.Timely cfg.shared.ticks)
    (hrun : Run env h w)
    (huser : UserMapper.toModel user ∈ w.db.users.rows) (hevents : user.events = [])
    (hactive : user.isActive = true) (hr : requests i₀ = some r)
    (hentitled : r.Entitled env w cfg.shared.ticks user)
    (hlacks : ∀ i r', i ≠ i₀ → requests i = some r' →
      r'.Lacks env user.id.value w.db cfg.shared.issued)
    (hreach : Reach (system env) anyCall (startApi requests w) cfg)
    (hfresh : env.NoRepeat cfg.shared.ids) :
    ∃ g, (Owner.discipline env user w cfg.shared.ticks).Leads
      (fun response _ => r.Serves user response) (cfg.threads i₀).prog g := by
  have hsound := sound_of_run hhash hdispatch hrun
  have hstarts : Starts _ (startApi requests w) := starts_startApi hrun.settled.statements hsound
  -- what the end of the run has drawn and issued bounds every step before it
  have hguarded := hreach.guarded
    (P := fun w' => env.NoRepeat w'.ids ∧ w'.ticks ≤ cfg.shared.ticks ∧
      w'.issued ⊆ cfg.shared.issued)
    (Q := fun w' _ o => Foreseen env cfg.shared.ticks cfg.shared.issued w' o) (by
      rintro i o s w' ⟨hids, hticks, hissued⟩
      have hlater := exec_later env i o s w'
      refine ⟨⟨fun a ha b hb => ?_, hlater.ticks.trans hticks,
        List.Subset.trans hlater.issued hissued⟩, foreseen_of_exec hids hticks hissued⟩
      exact hids a (ha.trans_le hlater.ids) b (hb.trans_le hlater.ids))
    ⟨hfresh, le_rfl, List.Subset.refl _⟩
  have hemails : ∀ c, Reach (system env) anyCall (startApi requests w) c →
      (c.shared.db.users.rows.map (·.email)).Nodup :=
    fun c hc => (hstarts.sound_of_reach hhash hdispatch hc .refl).1.emails
  -- either the owner never commits, or there is its first commit
  rcases hguarded.first (fun i o => i = i₀ ∧ o = .commit) with
    hnever | ⟨c, i, o, k, hc, hp, ⟨rfl, rfl⟩, henabled, -, hafter⟩
  · obtain ⟨g, -, hleads⟩ := Owner.leads_until_commit hhash hclock hrun hsound huser hevents hactive
      hr hentitled hlacks (later_of_reach hreach).2 hemails hnever
    exact ⟨g, hleads⟩
  · obtain ⟨g, -, hleads⟩ := Owner.leads_until_commit hhash hclock hrun hsound huser hevents hactive
      hr hentitled hlacks (later_of_reach hreach).2 hemails hc
    -- past the commit nothing of the user is touched any more
    rw [hp, Discipline.leads_call] at hleads
    have hany : Reach (system env) anyCall (c.advance (system env) i) cfg :=
      hafter.imp fun _ _ _ _ _ => trivial
    refine ⟨.done, Owner.leads_after_commit ?_ hany⟩
    rcases hx : (system env).exec i .commit ((c.threads i).loc, c.shared) with ⟨e | _, s, w'⟩
    · -- a commit that fails is refused, but this request is refused no address
      have hreach' : Reach (system env) anyCall (startApi requests w) (c.advance (system env) i) :=
        (hc.imp fun _ _ _ _ _ => trivial).step hp henabled trivial
      have hfresh' : env.NoRepeat (c.advance (system env) i).shared.ids := fun a ha b hb =>
        hfresh a (ha.trans_le (later_of_reach hafter).1) b (hb.trans_le (later_of_reach hafter).1)
      have hfailed : ((c.advance (system env) i).threads i).result = some (.error e) := by
        rw [Config.advance_error _ hp hx]
        simp [Thread.result]
      obtain ⟨x, rfl, r', hr', hrefused⟩ := hstarts.refused_of_reach hhash hdispatch
        hrun.settled hreach' hfresh' hfailed
      obtain rfl := Option.some.inj (hr.symm.trans hr')
      obtain rfl := execCommit_domain hx rfl
      exact absurd hrefused hentitled.not_refuses
    · rw [Config.advance_ok _ hp hx]
      have hrest := hleads.2 () trivial
      simp only [Function.update_self]
      exact hrest

/-- **What the user is promised**: the request can be run to its end, and once it has ended
it was served. -/
structure Served (env : Env) (user : User) (r : ApiRequest) (i₀ : ℕ)
    (cfg : Config ℕ Port Port.Ret Exc Response Session World) : Prop where
  completes : ∃ is, Allowed (system env) anyCall cfg is ∧
    ((cfg.schedule (system env) is).threads i₀).result ≠ none
  serves : ∀ result, (cfg.threads i₀).result = some result →
    ∃ response, result = .ok response ∧ r.Serves user response

end runs

end service

section sample

attribute [local instance] asciiUnicode

theorem valid_sampleEmail : emailRe.matchStart sampleLogin.email = true := by decide +kernel

theorem normal_sampleEmail : normalise sampleLogin.email = sampleLogin.email := by decide +kernel

/-- The sample user. -/
def sampleOwner : User where
  id := ⟨sampleEnv.uuid 0⟩
  email := ⟨sampleLogin.email, valid_sampleEmail, normal_sampleEmail⟩
  hashedPassword := ⟨sampleEnv.hash 0 sampleLogin.password, List.cons_ne_nil _ _⟩
  isActive := true
  createdAt := 0

/-- The attempts of others, and a refresh of the token of the sample login. -/
def serving : List ApiRequest := attempts ++ [.refresh ⟨sampleToken⟩]

/-- The attempts come in between. -/
def servingConfig : Config ℕ Port Port.Ret Exc Response Session World :=
  (startApi (fun i => serving[i]?) loggedInWorld).schedule (system sampleEnv)
    ([3, 0, 3, 1, 2, 3, 1, 3, 2, 3, 0, 3, 1, 3, 1] ++ List.replicate 6 2 ++ List.replicate 4 3)

theorem entitled_serving : (ApiRequest.refresh ⟨sampleToken⟩).Entitled sampleEnv loggedInWorld
    servingConfig.shared.ticks sampleOwner := by
  have hlasts : ∀ n < servingConfig.shared.ticks, sampleToken.Unexpired (sampleEnv.clock n) := by
    decide +kernel
  have hrecord : ∃ m ∈ loggedInWorld.db.refreshTokens.rows, m.userId = sampleEnv.uuid 0 ∧
      IssuedFor sampleEnv loggedInWorld sampleToken m ∧ m.revokedAt = none := by
    unfold IssuedFor
    decide +kernel
  obtain ⟨m, hm, huser, hfor, hlive⟩ := hrecord
  exact ⟨hlasts, m, ⟨hm, huser, hfor⟩, hlive⟩

theorem lacks_serving (i : ℕ) (r : ApiRequest) (hi : i ≠ 3) (hr : serving[i]? = some r) :
    r.Lacks sampleEnv (sampleEnv.uuid 0) loggedInWorld.db servingConfig.shared.issued := by
  have hlt : i < attempts.length := by
    have hlength : i < serving.length := (List.getElem?_eq_some_iff.mp hr).1
    have hfour : serving.length = 4 := rfl
    have hthree : attempts.length = 3 := rfl
    omega
  rw [serving, List.getElem?_append_left hlt] at hr
  exact lacks_attempts _ r (List.mem_of_getElem? hr)

end sample

end FastapiStarter
