import FastapiStarter.AccessTokens
import FastapiStarter.Lib.Ownership
import FastapiStarter.Lib.Progress
import FastapiStarter.Routes

/-!
# Accounts are out of the reach of others

Whoever has neither the password of a user nor a token issued to them cannot touch the
account: whatever requests are made at the same time, the row of the user and the records
of their refresh tokens stay as they are, and no request is handed a token of theirs.  An
access token shows the profile, and does not change the password.

## Main definitions

* `Database.Spared` — the account is what it was.
* `Session.Spares` — a session that will leave it so.
* `ApiRequest.Lacks` — a request without the credentials of a user.
* `Outsider.discipline` — what such a request may do.
* `OutOfReach` — what is promised.

## Main results

* `accounts_are_out_of_reach` — **requests without the credentials of a user neither
  change the account nor get into it**, in any order of their steps.
-/

namespace FastapiStarter

open Fallible Interaction Relational

/-! ### The account -/

/-- The ids of the refresh tokens of a user. -/
def Database.jtisOf (db : Database) (userId : UUID) : List UUID :=
  (db.refreshTokens.rows.filter fun m => m.userId = userId).map (·.jti)

/-- The families of the refresh tokens of a user. -/
def Database.familiesOf (db : Database) (userId : UUID) : List UUID :=
  (db.refreshTokens.rows.filter fun m => m.userId = userId).map (·.familyId)

/-- A record that has nothing to do with the account of a user in `db₀`. -/
structure RefreshTokenModel.Foreign (userId : UUID) (db₀ : Database) (m : RefreshTokenModel) :
    Prop where
  user : m.userId ≠ userId
  jti : m.jti ∉ db₀.jtisOf userId
  family : m.familyId ∉ db₀.familiesOf userId

/-- **The account of a user is what it was in `db₀`**, and nobody else has joined one of
its families. -/
structure Database.Spared (userId : UUID) (db₀ db : Database) : Prop where
  users : db₀.users.SameOn (fun m => m.id = userId) db.users
  refreshTokens : db₀.refreshTokens.SameOn (fun m => m.userId = userId) db.refreshTokens
  families : ∀ m ∈ db.refreshTokens.rows, m.userId ≠ userId → m.familyId ∉ db₀.familiesOf userId

namespace Database.Spared

variable {userId : UUID} {db₀ db : Database} {m : RefreshTokenModel}

/-- A record is of the user or foreign, and its id tells which. -/
theorem foreign (h : Spared userId db₀ db) (hm : m ∈ db.refreshTokens.rows)
    (huser : m.userId ≠ userId) : m.Foreign userId db₀ := by
  refine ⟨huser, fun hjti => ?_, h.families m hm huser⟩
  obtain ⟨m₀, hm₀, heq⟩ := List.mem_map.mp hjti
  obtain ⟨hm₀, howner⟩ := List.mem_filter.mp hm₀
  have howner : m₀.userId = userId := of_decide_eq_true howner
  have hsame := db.refreshTokens.eq_of_key_eq ((h.refreshTokens.mem_iff howner).mpr hm₀) hm heq
  exact huser (hsame ▸ howner)

theorem foreign_of_jti (h : Spared userId db₀ db) (hm : m ∈ db.refreshTokens.rows)
    (hjti : m.jti ∉ db₀.jtisOf userId) : m.Foreign userId db₀ := by
  refine h.foreign hm fun howner => hjti ?_
  have hm₀ := (h.refreshTokens.mem_iff howner).mp hm
  exact List.mem_map_of_mem (List.mem_filter.mpr ⟨hm₀, decide_eq_true howner⟩)

/-- The ids a bulk update selects, if it is about another family or another user. -/
theorem selected (h : Spared userId db₀ db) {scope : Scope}
    (hscope : ∀ m : RefreshTokenModel, scope.selects m = true → m.userId = userId →
      m.familyId ∈ db₀.familiesOf userId → False) :
    ∀ j ∈ db.selected scope, j ∉ db₀.jtisOf userId := by
  intro j hj
  obtain ⟨m, hm, rfl⟩ := List.mem_map.mp hj
  obtain ⟨hm, hselects⟩ := List.mem_filter.mp hm
  refine (h.foreign hm fun howner => hscope m hselects howner ?_).jti
  have hm₀ := (h.refreshTokens.mem_iff howner).mp hm
  exact List.mem_map_of_mem (List.mem_filter.mpr ⟨hm₀, decide_eq_true howner⟩)

/-! #### Writes -/

theorem revokeRows (h : Spared userId db₀ db) {rows : List UUID}
    (hrows : ∀ j ∈ rows, j ∉ db₀.jtisOf userId) (at' : Instant) :
    Spared userId db₀ (db.revokeRows rows at') where
  users := h.users
  refreshTokens := by
    refine h.refreshTokens.trans (Table.sameOn_updateWhere (fun _ => by rfl) fun m hm hp => ?_)
    have hforeign := h.foreign_of_jti hm (hrows m.jti (by simpa using hp))
    exact ⟨hforeign.user, hforeign.user⟩
  families := by
    intro m' hm' huser
    obtain ⟨m, hm, rfl⟩ := List.mem_map.mp hm'
    split at huser
    · next hp =>
      rw [if_pos hp]
      exact h.families m hm huser
    · next hp =>
      rw [if_neg hp]
      exact h.families m hm huser

theorem after (statements : List Statement) (h : Spared userId db₀ db)
    (hrows : ∀ st ∈ statements, ∀ j ∈ st.rows, j ∉ db₀.jtisOf userId) :
    Spared userId db₀ (db.after statements) := by
  induction statements generalizing db with
  | nil => exact h
  | cons st statements ih =>
    exact ih (h.revokeRows (hrows st List.mem_cons_self) st.at')
      fun st' hst' => hrows st' (List.mem_cons_of_mem _ hst')

theorem updateUser (h : Spared userId db₀ db) {t : Tracked UserModel}
    (ht : t.current.id ≠ userId) :
    Meets (db.updateUser t) (Spared userId db₀) fun _ => True := by
  unfold Database.updateUser
  split
  · exact h
  split
  · trivial
  split
  · trivial
  · refine ⟨h.users.trans (Table.sameOn_updateWhere (fun _ => by rfl) fun m hm hp => ?_),
      h.refreshTokens, h.families⟩
    have hid : m.id = t.current.id := of_decide_eq_true hp
    have hne : m.id ≠ userId := by rwa [hid]
    exact ⟨hne, hne⟩

theorem insertUser (h : Spared userId db₀ db) {m : UserModel} (hm : m.id ≠ userId) :
    Meets (db.insertUser m) (Spared userId db₀) fun _ => True := by
  unfold Database.insertUser
  split
  · trivial
  next users hinsert =>
  split
  · trivial
  · exact ⟨h.users.trans (Table.sameOn_insert hinsert hm), h.refreshTokens, h.families⟩

theorem updateRefreshToken (h : Spared userId db₀ db) {t : Tracked RefreshTokenModel}
    (ht : t.current.Foreign userId db₀) :
    Meets (db.updateRefreshToken t) (Spared userId db₀) fun _ => True := by
  unfold Database.updateRefreshToken
  split
  · exact h
  split
  · trivial
  have hforeign : ∀ m ∈ db.refreshTokens.rows, m.jti = t.current.jti → m.Foreign userId db₀ := by
    intro m hm hjti
    refine h.foreign_of_jti hm ?_
    rw [hjti]
    exact ht.jti
  refine ⟨h.users, h.refreshTokens.trans
    (Table.sameOn_updateWhere (fun _ => by rfl) fun m hm hp => ?_), ?_⟩
  · have huser := (hforeign m hm (of_decide_eq_true hp)).user
    exact ⟨huser, huser⟩
  · intro m' hm' huser
    obtain ⟨m, hm, rfl⟩ := List.mem_map.mp hm'
    split at huser
    · next hp =>
      rw [if_pos hp]
      exact (hforeign m hm (of_decide_eq_true hp)).family
    · next hp =>
      rw [if_neg hp]
      exact h.families m hm huser

theorem insertRefreshToken (h : Spared userId db₀ db) (hm : m.Foreign userId db₀) :
    Meets (db.insertRefreshToken m) (Spared userId db₀) fun _ => True := by
  unfold Database.insertRefreshToken
  split
  · trivial
  next refreshTokens hinsert =>
  split
  · trivial
  · refine ⟨h.users, h.refreshTokens.trans (Table.sameOn_insert hinsert hm.user), ?_⟩
    intro m' hm' huser
    rcases (Table.mem_of_insert hinsert).mp hm' with hm' | rfl
    · exact h.families m' hm' huser
    · exact hm.family

end Database.Spared

/-! ### Sessions -/

/-- **A session that leaves the account alone**: whatever it will write is not of the user. -/
structure Session.Spares (userId : UUID) (db₀ : Database) (s : Session) : Prop where
  users : ∀ t ∈ s.users, t.current.id ≠ userId
  newUsers : ∀ m ∈ s.newUsers, m.id ≠ userId
  refreshTokens : ∀ t ∈ s.refreshTokens, t.current.Foreign userId db₀
  newRefreshTokens : ∀ m ∈ s.newRefreshTokens, m.Foreign userId db₀

/-- What is read of the user is what is stored. -/
def UserModel.AsStored (userId : UUID) (db₀ : Database) (m : UserModel) : Prop :=
  m.id = userId → ∃ m₀ ∈ db₀.users.rows, m₀.id = userId ∧ m.hashedPassword = m₀.hashedPassword

namespace Session.Spares

variable {userId : UUID} {db₀ db view : Database} {s : Session}

theorem empty : Session.empty.Spares userId db₀ := by
  constructor <;> simp [Session.empty]

/-- **What such a session writes leaves the account alone.** -/
theorem flush (h : s.Spares userId db₀) (hdb : Database.Spared userId db₀ db) :
    Meets (s.flush db) (Database.Spared userId db₀) fun _ => True := by
  -- what a write of one element keeps, the writes of a list keep
  have hfold : ∀ {X : Type} {f : Database → X → Except Exc Database} {xs : List X} {db : Database},
      (∀ x ∈ xs, ∀ db, Database.Spared userId db₀ db →
        Meets (f db x) (Database.Spared userId db₀) fun _ => True) →
      Database.Spared userId db₀ db →
        Meets (xs.foldlM f db) (Database.Spared userId db₀) fun _ => True := by
    intro X f xs db hf hdb
    refine (Meets.foldlM (fun rest db => Database.Spared userId db₀ db ∧ ∀ x ∈ rest, x ∈ xs) ?_
      xs db ⟨hdb, fun _ hx => hx⟩).imp fun _ h => h.1
    intro x rest db ⟨hdb, hmem⟩
    refine (hf x (hmem x List.mem_cons_self) db hdb).imp fun _ hdb' => ⟨hdb', ?_⟩
    intro x' hx'
    exact hmem x' (List.mem_cons_of_mem _ hx')
  refine (hfold (fun t ht db hdb => hdb.updateUser (h.users t ht)) hdb).bind fun db₁ hdb₁ => ?_
  refine (hfold (fun m hm db hdb => hdb.insertUser (h.newUsers m hm)) hdb₁).bind fun db₂ hdb₂ => ?_
  refine (hfold (fun t ht db hdb => hdb.updateRefreshToken (h.refreshTokens t ht)) hdb₂).bind
    fun db₃ hdb₃ => ?_
  exact hfold (fun m hm db hdb => hdb.insertRefreshToken (h.newRefreshTokens m hm)) hdb₃

/-! #### Reads -/

theorem getUser (h : s.Spares userId db₀) (hview : Database.Spared userId db₀ view) (d : Dialect)
    {id : UUID} {m : UserModel} (hget : s.getUser d view id = some m) :
    m.id = id ∧ m.AsStored userId db₀ := by
  unfold Session.getUser at hget
  split at hget
  · next t hfind =>
    obtain rfl := Option.some.inj hget
    have hid : t.current.id = id := by simpa using List.find?_some hfind
    refine ⟨hid, fun huser => ?_⟩
    exact absurd huser (h.users t (List.mem_of_find?_eq_some hfind))
  · obtain ⟨row, hrow, rfl⟩ := Option.map_eq_some_iff.mp hget
    obtain ⟨hm, hid⟩ := Table.get_eq_some.mp hrow
    refine ⟨hid, fun huser => ?_⟩
    have huser : row.id = userId := huser
    exact ⟨row, (hview.users.mem_iff huser).mp hm, huser, rfl⟩

/-- So it is if it is looked for by its address. -/
theorem selectUserByEmail (h : s.Spares userId db₀) (hview : Database.Spared userId db₀ view)
    (d : Dialect) {email : Str} {m : UserModel}
    (hselect : s.selectUserByEmail d view email = .ok (some m)) (huser : m.id = userId) :
    ∃ m₀ ∈ db₀.users.rows, m₀.id = userId ∧ m₀.email = email ∧
      m.hashedPassword = m₀.hashedPassword := by
  unfold Session.selectUserByEmail at hselect
  split at hselect
  · cases hselect
  · next row hrows =>
    have hmem : row ∈ view.users.rows.filter fun m => m.email = email := by
      rw [hrows]
      exact List.mem_singleton_self row
    obtain ⟨hrow, hemail⟩ := List.mem_filter.mp hmem
    have hget := Except.ok.inj hselect
    obtain ⟨hid, hstored⟩ := h.getUser hview d hget
    obtain ⟨m₀, hm₀, hid₀, hhash⟩ := hstored huser
    -- the row that is selected is the one of the user
    have hrow₀ := (hview.users.mem_iff (hid.symm.trans huser)).mp hrow
    obtain rfl := db₀.users.eq_of_key_eq hrow₀ hm₀ ((hid.symm.trans huser).trans hid₀.symm)
    exact ⟨row, hrow₀, hid₀, of_decide_eq_true hemail, hhash⟩
  · cases hselect

/-- A record that is not of the user is foreign. -/
theorem getRefreshToken (h : s.Spares userId db₀) (hview : Database.Spared userId db₀ view)
    (d : Dialect) {jti : UUID} (hjti : jti ∉ db₀.jtisOf userId) {m : RefreshTokenModel}
    (hget : s.getRefreshToken d view jti = some m) : m.jti = jti ∧ m.Foreign userId db₀ := by
  unfold Session.getRefreshToken at hget
  split at hget
  · next t hfind =>
    obtain rfl := Option.some.inj hget
    have hid : t.current.jti = jti := by simpa using List.find?_some hfind
    exact ⟨hid, h.refreshTokens t (List.mem_of_find?_eq_some hfind)⟩
  · obtain ⟨row, hrow, rfl⟩ := Option.map_eq_some_iff.mp hget
    obtain ⟨hm, rfl⟩ := Table.get_eq_some.mp hrow
    obtain ⟨huser, hjti', hfamily⟩ := hview.foreign_of_jti hm hjti
    exact ⟨rfl, huser, hjti', hfamily⟩

/-! #### Changes -/

/-- Another user is changed. -/
theorem setUser (h : s.Spares userId db₀) {m : UserModel} (hm : m.id ≠ userId)
    {f : UserModel → UserModel} (hf : ∀ m, (f m).id = m.id) :
    (s.setUser m f).Spares userId db₀ := by
  unfold Session.setUser
  split
  · refine { h with users := fun t ht => ?_ }
    obtain ⟨t₀, ht₀, rfl⟩ := List.mem_map.mp ht
    split
    · rw [hf]
      exact h.users t₀ ht₀
    · exact h.users t₀ ht₀
  · refine { h with users := fun t ht => ?_ }
    rcases List.mem_cons.mp ht with rfl | ht
    · rw [hf]
      exact hm
    · exact h.users t ht

/-- A record of somebody else is written back. -/
theorem setRefreshToken (h : s.Spares userId db₀) {m : RefreshTokenModel}
    (hm : m.Foreign userId db₀) (record : RefreshTokenRecord) :
    (s.setRefreshToken m (RefreshTokenMapper.applyToModel record)).Spares userId db₀ := by
  have hset : ∀ {m : RefreshTokenModel}, m.Foreign userId db₀ →
      (RefreshTokenMapper.applyToModel record m).Foreign userId db₀ :=
    fun hm => ⟨hm.user, hm.jti, hm.family⟩
  unfold Session.setRefreshToken
  split
  · refine { h with refreshTokens := fun t ht => ?_ }
    obtain ⟨t₀, ht₀, rfl⟩ := List.mem_map.mp ht
    split
    · exact hset (h.refreshTokens t₀ ht₀)
    · exact h.refreshTokens t₀ ht₀
  · refine { h with refreshTokens := fun t ht => ?_ }
    rcases List.mem_cons.mp ht with rfl | ht
    · exact hset hm
    · exact h.refreshTokens t ht

theorem synchronize (h : s.Spares userId db₀) (scope : Scope) (at' : Instant) :
    (s.synchronize scope at').Spares userId db₀ := by
  refine { h with refreshTokens := fun t ht => ?_ }
  obtain ⟨t₀, ht₀, rfl⟩ := List.mem_map.mp ht
  have hforeign := h.refreshTokens t₀ ht₀
  split
  · exact ⟨hforeign.user, hforeign.jti, hforeign.family⟩
  · exact hforeign

end Session.Spares

/-! ### Tokens -/

section isolation

variable [Unicode]

/-- A token that does not name the user, nor a record of theirs if it is a refresh token. -/
def Token.Foreign (userId : UUID) (db₀ : Database) (t : Token) : Prop :=
  ∀ secret algorithm c, t = .signed secret algorithm c → UserId.fromStr c.sub ≠ .ok ⟨userId⟩ ∧
    (c.type = TokenType.refresh.literal → ∀ j, UUID.ofStr c.jti = some j → j ∉ db₀.jtisOf userId)

section tokens

variable {env : Env} {userId : UUID} {db₀ : Database} {w w₀ : World} {t : Token}

theorem Token.Foreign.not_isFor (h : t.Foreign userId db₀) : ¬ t.IsFor userId := by
  intro hfor
  cases t with
  | other => cases hfor
  | signed secret algorithm c =>
    have hsub : c.sub = (UserId.mk userId).str := Option.some.inj hfor
    refine (h secret algorithm c rfl).1 ?_
    rw [hsub, UserId.fromStr_str]

/-- What `decode` reads in a token is what the token says. -/
theorem Token.Foreign.decode (h : t.Foreign userId db₀) {p : TokenPayload}
    (hp : w.decode env t = .ok p) : UserId.fromStr p.subject ≠ .ok ⟨userId⟩ ∧
      (p.tokenType = .refresh → p.tokenId ∉ db₀.jtisOf userId) := by
  obtain ⟨c, rfl, hsub, htype, hjti⟩ := World.signed_of_decode hp
  obtain ⟨hsubject, hrecord⟩ := h _ _ _ rfl
  refine ⟨by rwa [← hsub], fun hrefresh => hrecord ?_ _ hjti⟩
  rw [htype, hrefresh]

theorem foreign_accessToken (settings : JwtSettings) (now : Instant) (id : UUID) {subject : Str}
    (h : UserId.fromStr subject ≠ .ok ⟨userId⟩) :
    (JwtTokenService.accessToken settings now id subject).Foreign userId db₀ := by
  intro secret algorithm c hc
  simp only [JwtTokenService.accessToken, JwtTokenService.encoded, Token.signed.injEq] at hc
  obtain ⟨-, -, rfl⟩ := hc
  exact ⟨h, fun htype => absurd htype.symm refresh_ne_access⟩

theorem foreign_refreshToken (settings : JwtSettings) (now : Instant) {jti : UUID} {subject : Str}
    (h : UserId.fromStr subject ≠ .ok ⟨userId⟩) (hjti : jti ∉ db₀.jtisOf userId) :
    (JwtTokenService.refreshToken settings now subject jti).token.Foreign userId db₀ := by
  intro secret algorithm c hc
  simp only [JwtTokenService.refreshToken, JwtTokenService.encoded, Token.signed.injEq] at hc
  obtain ⟨-, -, rfl⟩ := hc
  refine ⟨h, fun _ j hj => ?_⟩
  have hj' : UUID.ofStr jti.str = some j := hj
  rw [UUID.ofStr_str] at hj'
  obtain rfl := Option.some.inj hj'
  exact hjti

/-- A token that was issued to somebody else. -/
theorem foreign_of_issued (hi : Issuance env w₀) (ht : t ∈ w₀.issued) (hfor : ¬ t.IsFor userId) :
    t.Foreign userId w₀.db := by
  have hother : ∀ {userId'}, (UserId.mk userId').str ≠ (UserId.mk userId).str →
      UserId.fromStr (UserId.mk userId').str ≠ .ok ⟨userId⟩ := by
    intro userId' hne heq
    rw [UserId.fromStr_str] at heq
    exact hne (congrArg UserId.str (Except.ok.inj heq))
  rcases hi.issued t ht with ⟨m, hm, n, hn, rfl, hexp⟩ | ⟨n, hn, userId', id, rfl⟩
  · have hne : (UserId.mk m.userId).str ≠ (UserId.mk userId).str := fun heq =>
      hfor (congrArg some heq)
    refine foreign_refreshToken _ _ (hother hne) fun hjti => ?_
    obtain ⟨m', hm', heq⟩ := List.mem_map.mp hjti
    obtain ⟨hm', howner⟩ := List.mem_filter.mp hm'
    have howner : m'.userId = userId := of_decide_eq_true howner
    obtain rfl := w₀.db.refreshTokens.eq_of_key_eq hm' hm heq
    exact hne (by rw [howner])
  · exact foreign_accessToken _ _ _ (hother fun heq => hfor (congrArg some heq))

end tokens

/-! ### Outsiders -/

/-- The token is an access token for the user. -/
def Token.IsAccessFor (userId : UUID) : Token → Prop
  | .signed _ _ c => c.sub = (UserId.mk userId).str ∧ c.type = TokenType.access.literal
  | .other _ => False

omit [Unicode] in
theorem Token.IsAccessFor.isFor {t : Token} {userId : UUID} (h : t.IsAccessFor userId) :
    t.IsFor userId := by
  cases t with
  | signed secret algorithm c => exact congrArg some h.1
  | other text => exact h.elim

namespace Outsider

/-- The calls that are allowed to a request without the credentials of a user. -/
def Admits (userId : UUID) (db₀ : Database) : Port → Prop
  | .usersAdd user | .usersUpdate user => user.id.value ≠ userId
  | .refreshTokensAdd record => (RefreshTokenMapper.toModel record).Foreign userId db₀
  | .refreshTokensUpdate record => record.jti ∉ db₀.jtisOf userId
  | .refreshTokensGetByJti jti => jti ∉ db₀.jtisOf userId
  | .refreshTokensRevokeFamily familyId _ => familyId ∉ db₀.familiesOf userId
  | .refreshTokensRevokeAllForUser id _ => id.value ≠ userId
  | .createAccessToken subject => UserId.fromStr subject ≠ .ok ⟨userId⟩
  | .createRefreshToken subject jti =>
    UserId.fromStr subject ≠ .ok ⟨userId⟩ ∧ jti ∉ db₀.jtisOf userId
  | _ => True

/-- What `decode` reads in a token: an access token that names the user is one of those
given, and a token that is none of the user's is about somebody else. -/
structure Reads (userId : UUID) (db₀ : Database) (tokens : List Token) (t : Token)
    (p : TokenPayload) : Prop where
  access : p.tokenType = .access → UserId.fromStr p.subject = .ok ⟨userId⟩ →
    t ∈ tokens ∧ t.IsAccessFor userId
  other : (t ∈ tokens → ¬ t.IsFor userId) → UserId.fromStr p.subject ≠ .ok ⟨userId⟩ ∧
    (p.tokenType = .refresh → p.tokenId ∉ db₀.jtisOf userId)

/-- The answers that are relied on; of the user only what is stored is read. -/
def Replies (env : Env) (userId : UUID) (db₀ : Database) (tokens : List Token) :
    (o : Port) → o.Ret → Prop
  | .usersGetById id, some user => user.id = id ∧ (user.id.value = userId →
      ∃ m ∈ db₀.users.rows, m.id = userId ∧ user.hashedPassword.value = m.hashedPassword)
  | .usersGetByEmail email, some user => user.id.value = userId →
      ∃ m ∈ db₀.users.rows, m.id = userId ∧ m.email = email.value ∧
        user.hashedPassword.value = m.hashedPassword
  | .verify plain hashed, verified => verified = env.verify plain hashed
  | .decode token, p => Reads userId db₀ tokens token p
  | .refreshTokensGetByJti jti, some record =>
      record.jti = jti ∧ record.familyId ∉ db₀.familiesOf userId
  | .uuid4, id => id ≠ userId ∧ id ∉ db₀.jtisOf userId ∧ id ∉ db₀.familiesOf userId
  | .recordRevoke record at', record' => record' = record.revoke at'
  | .userChangePassword user hashedPassword, user' => user' = user.changePassword hashedPassword
  | .createAccessToken _, token => ¬ token.IsFor userId
  | .createRefreshToken _ _, issued => ¬ issued.token.IsFor userId
  | _, _ => True

/-- **The discipline of a request without the credentials of a user.** -/
def discipline (env : Env) (userId : UUID) (db₀ : Database) (tokens : List Token) :
    Discipline Unit Port Port.Ret Exc where
  Calls _ := Admits userId db₀
  Answers _ := Replies env userId db₀ tokens
  next _ _ _ := ()
  Ends _ := True
  Raises _ _ := True

end Outsider

/-- **A request without the credentials of a user**, whose `tokens` are given: its password
is not theirs if it comes with their address, it presents none of the tokens to refresh or
logout, and whoever has an access token to change the password with does not know it. -/
def ApiRequest.Lacks (env : Env) (userId : UUID) (db : Database) (tokens : List Token) :
    ApiRequest → Prop
  | .login body => ∀ email, Email.ofStr body.email = .ok email → ∀ m ∈ db.users.rows,
      m.id = userId → m.email = email.value → env.verify body.password m.hashedPassword = false
  | .refresh body => body.refreshToken ∈ tokens → ¬ body.refreshToken.IsFor userId
  | .logout body => body.refreshToken ∈ tokens → ¬ body.refreshToken.IsFor userId
  | .changePassword credentials currentPassword _ =>
    (credentials ∈ tokens → ¬ credentials.IsAccessFor userId) ∨
      ∀ m ∈ db.users.rows, m.id = userId → env.verify currentPassword m.hashedPassword = false
  | .register _ | .readMe _ => True

/-- What a request without the credentials of a user is answered: no tokens for them, and
their profile only if it presents an access token of theirs. -/
def ApiRequest.Keeps (userId : UUID) (tokens : List Token) (r : ApiRequest) : Response → Prop
  | .tokenPair p => ¬ p.accessToken.IsFor userId ∧ ¬ p.refreshToken.IsFor userId
  | .userView v => v.id = userId → ∃ credentials, r = .readMe credentials ∧
      credentials ∈ tokens ∧ credentials.IsAccessFor userId
  | .none => True

section outsiders

open Outsider

variable {env : Env} {userId : UUID} {db₀ : Database} {tokens : List Token}

/-- A subject names the user with that id. -/
theorem fromStr_ne {id : UserId} (h : id.value ≠ userId) :
    UserId.fromStr id.str ≠ .ok ⟨userId⟩ := by
  rw [UserId.fromStr_str]
  intro heq
  exact h (congrArg UserId.value (Except.ok.inj heq))

theorem leads_raise_outside {α : Type} {P : α → Unit → Prop} {e : Exc} :
    (discipline env userId db₀ tokens).Leads P (.raise e) () := ⟨trivial, trivial⟩

theorem leads_createUser_outside (body : CreateUserCommand) :
    (discipline env userId db₀ tokens).Leads
      (fun r _ => (ApiRequest.register body).Keeps userId tokens r)
      (ApiRequest.register body).execute () := by
  apply Discipline.leads_map.mpr
  unfold CreateUserHandler.execute
  split
  · exact leads_raise_outside
  simp only [Prog.op_bind]
  apply Discipline.Leads.call trivial
  intro found _
  split
  · exact leads_raise_outside
  apply Discipline.Leads.call trivial
  intro id hid
  apply Discipline.Leads.call trivial
  intro hashed _
  split
  · exact leads_raise_outside
  apply Discipline.Leads.call trivial
  intro createdAt _
  -- the id of the new user has just been drawn
  apply Discipline.Leads.call hid.1
  intro _ _
  apply Discipline.Leads.call trivial
  intro _ _
  apply Discipline.Leads.call trivial
  intro _ _
  apply Discipline.Leads.call trivial
  intro _ _ heq
  exact absurd heq hid.1

theorem leads_login_outside {body : LoginCommand}
    (hlacks : (ApiRequest.login body).Lacks env userId db₀ tokens) :
    (discipline env userId db₀ tokens).Leads
      (fun r _ => (ApiRequest.login body).Keeps userId tokens r)
      (ApiRequest.login body).execute () := by
  apply Discipline.leads_map.mpr
  unfold LoginHandler.execute
  split
  · exact leads_raise_outside
  next email hemail =>
  simp only [Prog.op_bind]
  apply Discipline.Leads.call trivial
  intro found hfound
  -- an unknown or inactive user costs a hash, and ends there
  split
  · apply Discipline.Leads.call trivial
    exact fun _ _ => leads_raise_outside
  next user =>
  split
  · apply Discipline.Leads.call trivial
    exact fun _ _ => leads_raise_outside
  apply Discipline.Leads.call trivial
  intro verified hverified
  split
  · exact leads_raise_outside
  next hno =>
  -- a password that verifies is not for the row of the user
  have hother : user.id.value ≠ userId := by
    intro heq
    obtain ⟨m, hm, hid, hmail, hhash⟩ := hfound heq
    have hwrong := hlacks email hemail m hm hid hmail
    have hverified : verified = env.verify body.password user.hashedPassword.value := hverified
    rw [hverified, hhash, hwrong] at hno
    exact hno rfl
  have hsubject : UserId.fromStr user.id.str ≠ .ok ⟨userId⟩ := fromStr_ne hother
  apply Discipline.Leads.call trivial
  intro jti hjti
  refine Discipline.Leads.call ⟨hsubject, hjti.2.1⟩ ?_
  intro issued hissued
  apply Discipline.Leads.call trivial
  intro familyId hfamily
  refine Discipline.Leads.call ⟨hother, hjti.2.1, hfamily.2.2⟩ ?_
  intro _ _
  apply Discipline.Leads.call trivial
  intro _ _
  apply Discipline.Leads.call hsubject
  intro accessToken haccess
  exact ⟨haccess, hissued⟩

theorem leads_refresh_outside {body : RefreshTokenCommand}
    (hlacks : (ApiRequest.refresh body).Lacks env userId db₀ tokens) :
    (discipline env userId db₀ tokens).Leads
      (fun r _ => (ApiRequest.refresh body).Keeps userId tokens r)
      (ApiRequest.refresh body).execute () := by
  apply Discipline.leads_map.mpr
  simp only [RefreshTokenHandler.execute, Prog.op_bind]
  apply Discipline.Leads.call trivial
  intro p hp
  obtain ⟨hsubject, hrecord⟩ := hp.other hlacks
  split
  · exact leads_raise_outside
  next htype =>
  have hjti := hrecord (not_not.mp htype)
  apply Discipline.Leads.call hjti
  intro found hfound
  split
  · exact leads_raise_outside
  next record =>
  obtain ⟨hrecordJti, hfamily⟩ := hfound
  apply Discipline.Leads.call trivial
  intro now _
  split
  · -- replay: the family is somebody else's
    apply Discipline.Leads.call hfamily
    intro _ _
    apply Discipline.Leads.call trivial
    exact fun _ _ => leads_raise_outside
  split
  · exact leads_raise_outside
  split
  · exact leads_raise_outside
  next id hid =>
  apply Discipline.Leads.call trivial
  intro found huser
  split
  · exact leads_raise_outside
  next user =>
  split
  · exact leads_raise_outside
  -- the user of the token is another one
  obtain ⟨rfl, -⟩ := huser
  have hother : user.id.value ≠ userId := by
    rintro rfl
    exact hsubject hid
  have hsubject : UserId.fromStr user.id.str ≠ .ok ⟨userId⟩ := fromStr_ne hother
  apply Discipline.Leads.call trivial
  intro record' hrecord'
  obtain rfl : record' = record.revoke now := hrecord'
  have hjti' : (record.revoke now).jti ∉ db₀.jtisOf userId := by
    rw [RefreshTokenRecord.jti_revoke, hrecordJti]
    exact hjti
  have hfamily' : (record.revoke now).familyId ∉ db₀.familiesOf userId := by
    rw [RefreshTokenRecord.familyId_revoke]
    exact hfamily
  apply Discipline.Leads.call hjti'
  intro _ _
  apply Discipline.Leads.call trivial
  intro newJti hnew
  refine Discipline.Leads.call ⟨hsubject, hnew.2.1⟩ ?_
  intro issued hissued
  refine Discipline.Leads.call ⟨hother, hnew.2.1, hfamily'⟩ ?_
  intro _ _
  apply Discipline.Leads.call trivial
  intro _ _
  apply Discipline.Leads.call hsubject
  intro accessToken haccess
  exact ⟨haccess, hissued⟩

theorem leads_logout_outside {body : LogoutCommand}
    (hlacks : (ApiRequest.logout body).Lacks env userId db₀ tokens) :
    (discipline env userId db₀ tokens).Leads
      (fun r _ => (ApiRequest.logout body).Keeps userId tokens r)
      (ApiRequest.logout body).execute () := by
  apply Discipline.leads_map.mpr
  simp only [LogoutHandler.execute, Prog.op_bind]
  apply Discipline.Leads.call trivial
  intro p hp
  split
  · exact leads_raise_outside
  next htype =>
  apply Discipline.Leads.call ((hp.other hlacks).2 (not_not.mp htype))
  intro found hfound
  split
  · trivial
  next record =>
  apply Discipline.Leads.call trivial
  intro now _
  apply Discipline.Leads.call hfound.2
  intro _ _
  apply Discipline.Leads.call trivial
  exact fun _ _ => trivial

/-- Whoever authenticates as the user has presented an access token of theirs. -/
theorem leads_getCurrentUser_outside (credentials : Token) :
    (discipline env userId db₀ tokens).Leads (fun user _ =>
      user.id.value = userId → credentials ∈ tokens ∧ credentials.IsAccessFor userId)
      (getCurrentUser credentials) () := by
  simp only [getCurrentUser, Prog.op_bind]
  apply Discipline.Leads.call trivial
  intro p hp
  split
  · exact leads_raise_outside
  next htype =>
  split
  · exact leads_raise_outside
  next id hid =>
  apply Discipline.Leads.call trivial
  intro found hfound
  split
  · exact leads_raise_outside
  next user =>
  split
  · exact leads_raise_outside
  obtain ⟨rfl, -⟩ := hfound
  intro heq
  refine hp.access (not_not.mp htype) ?_
  rw [hid, ← heq]

theorem leads_changePassword_outside {credentials : Token} {currentPassword newPassword : Str}
    (hlacks : (ApiRequest.changePassword credentials currentPassword newPassword).Lacks env userId
      db₀ tokens) :
    (discipline env userId db₀ tokens).Leads (fun r _ =>
        (ApiRequest.changePassword credentials currentPassword newPassword).Keeps userId tokens r)
      (ApiRequest.changePassword credentials currentPassword newPassword).execute () := by
  refine (leads_getCurrentUser_outside credentials).bind ?_
  intro currentUser _ howner
  apply Discipline.leads_map.mpr
  simp only [ChangePasswordHandler.execute, Prog.op_bind]
  apply Discipline.Leads.call trivial
  intro found hfound
  split
  · exact leads_raise_outside
  next user =>
  obtain ⟨hid, hstored⟩ := hfound
  have hid : user.id = currentUser.id := hid
  rw [← hid] at howner
  apply Discipline.Leads.call trivial
  intro verified hverified
  split
  · exact leads_raise_outside
  next hno =>
  -- whoever has an access token of the user does not know the password
  have hother : user.id.value ≠ userId := by
    intro heq
    obtain ⟨m, hm, hmid, hhash⟩ := hstored heq
    obtain ⟨hissued, haccess⟩ := howner heq
    have hwrong := (hlacks.resolve_left fun hno => hno hissued haccess) m hm hmid
    have hverified : verified = env.verify currentPassword user.hashedPassword.value := hverified
    rw [hverified, hhash, hwrong] at hno
    exact hno rfl
  apply Discipline.Leads.call trivial
  intro hashed _
  split
  · exact leads_raise_outside
  apply Discipline.Leads.call trivial
  intro user' huser'
  obtain rfl : user' = _ := huser'
  apply Discipline.Leads.call hother
  intro _ _
  apply Discipline.Leads.call trivial
  intro now _
  apply Discipline.Leads.call hother
  intro _ _
  apply Discipline.Leads.call trivial
  exact fun _ _ => trivial

theorem leads_readMe_outside (credentials : Token) :
    (discipline env userId db₀ tokens).Leads (fun r _ =>
        (ApiRequest.readMe credentials).Keeps userId tokens r)
      (ApiRequest.readMe credentials).execute () := by
  refine (leads_getCurrentUser_outside credentials).bind ?_
  intro user _ howner heq
  exact ⟨credentials, rfl, howner heq⟩

/-- **Every request without the credentials of a user keeps to the discipline.** -/
theorem leads_outside {r : ApiRequest} (hlacks : r.Lacks env userId db₀ tokens) :
    (discipline env userId db₀ tokens).Leads (fun response _ => r.Keeps userId tokens response)
      r.execute () := by
  cases r with
  | register body => exact leads_createUser_outside body
  | login body => exact leads_login_outside hlacks
  | refresh body => exact leads_refresh_outside hlacks
  | logout body => exact leads_logout_outside hlacks
  | changePassword credentials currentPassword newPassword =>
    exact leads_changePassword_outside hlacks
  | readMe credentials => exact leads_readMe_outside credentials

end outsiders

/-! ### Calls -/

/-- **The world, with the account of the user as it was** in `w₀`: other sessions than
`mine` do nothing to it, and a token issued is one of the `tokens` of the user, or somebody
else's. -/
structure World.Spared (mine : ℕ → Prop) (tokens : List Token) (userId : UUID) (w₀ w : World) :
    Prop where
  db : Database.Spared userId w₀.db w.db
  statements : ∀ st ∈ w.statements, ¬ mine st.session → ∀ j ∈ st.rows, j ∉ w₀.db.jtisOf userId
  issued : ∀ t ∈ w.issued, t ∈ tokens ∧ t.IsFor userId ∨ t.Foreign userId w₀.db
  ids : w₀.ids ≤ w.ids
  ticks : w₀.ticks ≤ w.ticks
  kept : w₀.issued ⊆ w.issued

namespace World.Spared

variable {mine : ℕ → Prop} {tokens : List Token} {env : Env} {userId : UUID} {w₀ w : World}
  {s : Session} {sid : ℕ}

/-- The transaction of another session does nothing to the account. -/
theorem view (h : World.Spared mine tokens userId w₀ w) (hsid : ¬ mine sid) :
    Database.Spared userId w₀.db (w.view sid) := by
  refine h.db.after _ fun st hst => ?_
  obtain ⟨hst, hown⟩ := List.mem_filter.mp (List.mem_reverse.mp hst)
  exact h.statements st hst (by rwa [of_decide_eq_true hown])

/-- A token is issued. -/
theorem issue (h : World.Spared mine tokens userId w₀ w) {w' : World} {t : Token}
    (ht : t ∈ tokens ∧ t.IsFor userId ∨ t.Foreign userId w₀.db) (hdb : w'.db = w.db)
    (hstatements : w'.statements = w.statements) (hissued : w'.issued = t :: w.issued)
    (hids : w.ids ≤ w'.ids) (hticks : w.ticks ≤ w'.ticks) :
    World.Spared mine tokens userId w₀ w' := by
  refine ⟨by rw [hdb]; exact h.db, by rw [hstatements]; exact h.statements, ?_, h.ids.trans hids,
    h.ticks.trans hticks, ?_⟩
  swap
  · rw [hissued]
    exact List.Subset.trans h.kept (List.subset_cons_self _ _)
  rw [hissued]
  rintro t' (_ | ⟨_, ht'⟩)
  · exact ht
  · exact h.issued t' ht'

/-- Nothing but the counters changes. -/
theorem frame (h : World.Spared mine tokens userId w₀ w) {w' : World} (hdb : w'.db = w.db)
    (hstatements : w'.statements = w.statements) (hissued : w'.issued = w.issued)
    (hids : w.ids ≤ w'.ids) (hticks : w.ticks ≤ w'.ticks) :
    World.Spared mine tokens userId w₀ w' :=
  ⟨by rw [hdb]; exact h.db, by rw [hstatements]; exact h.statements,
    by rw [hissued]; exact h.issued, h.ids.trans hids, h.ticks.trans hticks,
    by rw [hissued]; exact h.kept⟩

theorem close (h : World.Spared mine tokens userId w₀ w) (sid : ℕ) :
    World.Spared mine tokens userId w₀ (w.close sid) :=
  { h with statements := fun st hst => h.statements st (List.mem_of_mem_filter hst) }

/-- A bulk update of others. -/
theorem execBulk (h : World.Spared mine tokens userId w₀ w) (hs : s.Spares userId w₀.db)
    (hsid : ¬ mine sid) (scope : Scope)
    (hscope : ∀ m : RefreshTokenModel, scope.selects m = true → m.userId = userId →
      m.familyId ∈ w₀.db.familiesOf userId → False) (at' : Instant) :
    (execBulk sid scope at' s w).1.Spares userId w₀.db ∧
      World.Spared mine tokens userId w₀ (execBulk sid scope at' s w).2 := by
  refine ⟨hs.synchronize scope at', { h with statements := ?_ }⟩
  rintro st (_ | ⟨_, hst⟩)
  · exact fun _ => (h.view hsid).selected hscope
  · exact h.statements st hst

/-- A commit of another session. -/
theorem execCommit (env : Env) (h : World.Spared mine tokens userId w₀ w)
    (hs : s.Spares userId w₀.db) (hsid : ¬ mine sid) :
    (execCommit env sid s w).2.1.Spares userId w₀.db ∧
      World.Spared mine tokens userId w₀ (execCommit env sid s w).2.2 := by
  have hflush := hs.flush (h.view hsid)
  unfold FastapiStarter.execCommit
  rcases hx : s.flush (w.view sid) with e | db
  · exact ⟨.empty, h.close sid⟩
  · rw [hx] at hflush
    exact ⟨.empty, { h.close sid with db := hflush }⟩

/-- What `decode` reads in a token. -/
theorem decode (h : World.Spared mine tokens userId w₀ w) {t : Token} {p : TokenPayload}
    (hp : w.decode env t = .ok p) : Outsider.Reads userId w₀.db tokens t p := by
  rcases h.issued t (mem_issued_of_decode hp) with ⟨hissued, hfor⟩ | hforeign
  · refine ⟨fun htype _ => ⟨hissued, ?_⟩, fun hother => absurd hfor (hother hissued)⟩
    obtain ⟨c, rfl, -, hkind, -⟩ := World.signed_of_decode hp
    refine ⟨Option.some.inj hfor, ?_⟩
    rw [hkind, htype]
  · exact ⟨fun _ hsubject => absurd hsubject (hforeign.decode hp).1, fun _ => hforeign.decode hp⟩

/-- An id that is drawn is new. -/
theorem draw (h : World.Spared mine tokens userId w₀ w) (hw₀ : Settled env w₀)
    (huser : userId ∈ w₀.db.users.rows.map (·.id)) (hfresh : env.NoRepeat (w.ids + 1)) :
    env.uuid w.ids ≠ userId ∧ env.uuid w.ids ∉ w₀.db.jtisOf userId ∧
      env.uuid w.ids ∉ w₀.db.familiesOf userId := by
  have hnew : ∀ {id}, env.Drawn w₀.ids id → env.uuid w.ids ≠ id := by
    rintro _ ⟨k, hk, rfl⟩ heq
    have hlt : k < w.ids := hk.trans_le h.ids
    exact hlt.ne' (hfresh _ (Nat.lt_succ_self _) _ (hlt.trans (Nat.lt_succ_self _)) heq)
  refine ⟨?_, fun hjti => ?_, fun hfamily => ?_⟩
  · obtain ⟨m, hm, rfl⟩ := List.mem_map.mp huser
    exact hnew (hw₀.userIds m hm)
  · obtain ⟨m, hm, heq⟩ := List.mem_map.mp hjti
    exact hnew (hw₀.jtis m (List.mem_of_mem_filter hm)) heq.symm
  · obtain ⟨m, hm, heq⟩ := List.mem_map.mp hfamily
    exact hnew (hw₀.families m (List.mem_of_mem_filter hm)) heq.symm

end World.Spared

section exec

open Outsider

variable {mine : ℕ → Prop} {tokens : List Token} {env : Env} {userId : UUID} {w₀ w : World}
  {s : Session}

/-- What a call does that is allowed to an outsider: an answer that may be relied on, and a
world with the account as it was. -/
structure Outsider.Effect (mine : ℕ → Prop) (tokens : List Token) (env : Env) (userId : UUID)
    (w₀ : World) (o : Port) (x : Except Exc o.Ret × (Session × World)) : Prop where
  replies : ∀ r, x.1 = .ok r → Replies env userId w₀.db tokens o r
  spares : x.2.1.Spares userId w₀.db
  spared : World.Spared mine tokens userId w₀ x.2.2

/-- **What a call does.** -/
theorem Outsider.exec_spares (hw₀ : Settled env w₀)
    (huser : userId ∈ w₀.db.users.rows.map (·.id)) (h : World.Spared mine tokens userId w₀ w)
    (hs : s.Spares userId w₀.db) {o : Port} (ho : Admits userId w₀.db o)
    (hfresh : o = .uuid4 → env.NoRepeat (w.ids + 1)) (sid : ℕ) (hsid : ¬ mine sid) :
    Effect mine tokens env userId w₀ o (exec env sid o (s, w)) := by
  have hview := h.view hsid
  -- an answer of which nothing is asked
  have hany : ∀ {o : Port} {x : Except Exc o.Ret} {s' : Session} {w' : World},
      (∀ r, Replies env userId w₀.db tokens o r) → s'.Spares userId w₀.db →
      World.Spared mine tokens userId w₀ w' → Effect mine tokens env userId w₀ o (x, s', w') :=
    fun hreplies hs' hw' => ⟨fun r _ => hreplies r, hs', hw'⟩
  -- an exception
  have herror : ∀ {o : Port} {e : Exc} {w' : World}, World.Spared mine tokens userId w₀ w' →
      Effect mine tokens env userId w₀ o (.error e, s, w') :=
    fun hw' => ⟨fun _ hr => absurd hr (by simp), hs, hw'⟩
  cases o with
  | usersAdd user =>
    refine hany (fun _ => trivial) { hs with newUsers := fun m hm => ?_ } h
    rcases List.mem_append.mp hm with hm | hm
    · exact hs.newUsers m hm
    · obtain rfl := List.mem_singleton.mp hm
      exact ho
  | usersUpdate user =>
    simp only [exec]
    rcases hget : s.getUser env.dialect (w.view sid) user.id.value with _ | m
    · exact herror h
    · obtain ⟨hid, -⟩ := hs.getUser hview env.dialect hget
      exact hany (fun _ => trivial) (hs.setUser (by rwa [hid]) fun _ => rfl) h
  | usersGetById id =>
    simp only [exec]
    rcases hget : s.getUser env.dialect (w.view sid) id.value with _ | m
    · refine ⟨fun r hr => ?_, hs, h⟩
      obtain rfl := Except.ok.inj hr
      trivial
    simp only [userOfModel]
    rcases hu : UserMapper.toDomain m with e | user
    · exact herror h
    · refine ⟨fun r hr => ?_, hs, h⟩
      obtain rfl := Except.ok.inj hr
      obtain ⟨hid, hstored⟩ := hs.getUser hview env.dialect hget
      obtain ⟨huid, -, hhash, -⟩ := UserMapper.toDomain_eq_ok hu
      refine ⟨UserId.ext (huid.trans hid), fun heq => ?_⟩
      rw [hhash]
      exact hstored (huid.symm.trans heq)
  | usersGetByEmail email =>
    simp only [exec]
    rcases hselect : s.selectUserByEmail env.dialect (w.view sid) email.value with e | _ | m
    · exact herror h
    · refine ⟨fun r hr => ?_, hs, h⟩
      obtain rfl := Except.ok.inj hr
      trivial
    simp only [userOfModel]
    rcases hu : UserMapper.toDomain m with e | user
    · exact herror h
    · refine ⟨fun r hr => ?_, hs, h⟩
      obtain rfl := Except.ok.inj hr
      obtain ⟨huid, -, hhash, -⟩ := UserMapper.toDomain_eq_ok hu
      intro heq
      rw [hhash]
      exact hs.selectUserByEmail hview env.dialect hselect (huid.symm.trans heq)
  | refreshTokensAdd record =>
    refine hany (fun _ => trivial) { hs with newRefreshTokens := fun m hm => ?_ } h
    rcases List.mem_append.mp hm with hm | hm
    · exact hs.newRefreshTokens m hm
    · obtain rfl := List.mem_singleton.mp hm
      exact ho
  | refreshTokensUpdate record =>
    simp only [exec]
    rcases hget : s.getRefreshToken env.dialect (w.view sid) record.jti with _ | m
    · exact herror h
    · obtain ⟨-, hforeign⟩ := hs.getRefreshToken hview env.dialect ho hget
      exact hany (fun _ => trivial) (hs.setRefreshToken hforeign record) h
  | refreshTokensGetByJti jti =>
    refine ⟨fun r hr => ?_, hs, h⟩
    obtain rfl := Except.ok.inj hr
    rcases hget : s.getRefreshToken env.dialect (w.view sid) jti with _ | m
    · trivial
    · obtain ⟨hjti, hforeign⟩ := hs.getRefreshToken hview env.dialect ho hget
      exact ⟨hjti, hforeign.family⟩
  | refreshTokensRevokeFamily familyId at' =>
    have hbulk := h.execBulk hs hsid (.family familyId) (fun m hm _ hfamily => ho ?_) at'
    · exact hany (fun _ => trivial) hbulk.1 hbulk.2
    · have heq : m.familyId = familyId := eq_of_beq (Bool.and_eq_true_iff.mp hm).1
      rwa [← heq]
  | refreshTokensRevokeAllForUser id at' =>
    have hbulk := h.execBulk hs hsid (.user id.value) (fun m hm huser _ => ho ?_) at'
    · exact hany (fun _ => trivial) hbulk.1 hbulk.2
    · have heq : m.userId = id.value := eq_of_beq (Bool.and_eq_true_iff.mp hm).1
      exact heq.symm.trans huser
  | commit =>
    obtain ⟨hs', hw'⟩ := h.execCommit env hs hsid
    exact hany (fun _ => trivial) hs' hw'
  | createAccessToken subject =>
    have hforeign : (JwtTokenService.accessToken env.settings (w.now env) (w.freshId env)
        subject).Foreign userId w₀.db := foreign_accessToken _ _ _ ho
    refine ⟨fun r hr => ?_, hs,
      h.issue (.inr hforeign) rfl rfl rfl (Nat.le_succ _) (Nat.le_succ _)⟩
    obtain rfl := Except.ok.inj hr
    exact hforeign.not_isFor
  | createRefreshToken subject jti =>
    have hforeign := foreign_refreshToken env.settings (w.now env) ho.1 ho.2
    refine ⟨fun r hr => ?_, hs, h.issue (.inr hforeign) rfl rfl rfl le_rfl (Nat.le_succ _)⟩
    obtain rfl := Except.ok.inj hr
    exact hforeign.not_isFor
  | decode token =>
    have htick : World.Spared mine tokens userId w₀ w.tick :=
      h.frame rfl rfl rfl le_rfl (Nat.le_succ _)
    simp only [exec]
    rcases hp : w.decode env token with e | p
    · exact herror htick
    · refine ⟨fun r hr => ?_, hs, htick⟩
      obtain rfl := Except.ok.inj hr
      exact h.decode hp
  | uuid4 =>
    refine ⟨fun r hr => ?_, hs, h.frame rfl rfl rfl (Nat.le_succ _) le_rfl⟩
    obtain rfl := Except.ok.inj hr
    exact h.draw hw₀ huser (hfresh rfl)
  | verify plain hashed => exact ⟨fun r hr => (Except.ok.inj hr).symm, hs, h⟩
  | recordRevoke record at' => exact ⟨fun r hr => (Except.ok.inj hr).symm, hs, h⟩
  | userChangePassword user hashedPassword =>
    exact ⟨fun r hr => (Except.ok.inj hr).symm, hs, h⟩
  | now => exact hany (fun _ => trivial) hs (h.frame rfl rfl rfl le_rfl (Nat.le_succ _))
  | usersExistsByEmail email => exact hany (fun _ => trivial) hs h
  | hash plain => exact hany (fun _ => trivial) hs (h.frame rfl rfl rfl le_rfl le_rfl)
  | dispatch events => exact hany (fun _ => trivial) hs (h.frame rfl rfl rfl le_rfl le_rfl)
  | userPullEvents user => exact hany (fun _ => trivial) hs h

/-- What every call does to what requests share: counters go on, tokens stay issued, and
only the statements of the session that calls are new. -/
structure World.Later (sid : ℕ) (w w' : World) : Prop where
  ids : w.ids ≤ w'.ids
  ticks : w.ticks ≤ w'.ticks
  issued : w.issued ⊆ w'.issued
  statements : ∀ st ∈ w'.statements, st ∈ w.statements ∨ st.session = sid

theorem exec_later (env : Env) (sid : ℕ) (o : Port) (s : Session) (w : World) :
    w.Later sid (exec env sid o (s, w)).2.2 := by
  have hsame : w.Later sid w := ⟨le_rfl, le_rfl, List.Subset.refl _, fun _ => .inl⟩
  have hclose : w.Later sid (w.close sid) :=
    { hsame with statements := fun _ hst => .inl (List.mem_of_mem_filter hst) }
  have hbulk : ∀ scope at', w.Later sid (execBulk sid scope at' s w).2 := by
    refine fun scope at' => { hsame with statements := fun st hst => ?_ }
    rcases List.mem_cons.mp hst with rfl | hst
    · exact .inr rfl
    · exact .inl hst
  -- reads leave the world; the others add to it, or close their own session
  cases o with
  | usersUpdate user =>
    simp only [exec]
    rcases s.getUser env.dialect (w.view sid) user.id.value with _ | m <;> exact hsame
  | usersGetByEmail email =>
    simp only [exec]
    rcases s.selectUserByEmail env.dialect (w.view sid) email.value with _ | m <;> exact hsame
  | refreshTokensUpdate record =>
    simp only [exec]
    rcases s.getRefreshToken env.dialect (w.view sid) record.jti with _ | m <;> exact hsame
  | refreshTokensRevokeFamily familyId at' => exact hbulk _ _
  | refreshTokensRevokeAllForUser userId at' => exact hbulk _ _
  | commit =>
    simp only [exec, execCommit]
    rcases s.flush (w.view sid) with e | db
    · exact hclose
    · exact { hclose with }
  | uuid4 => exact { hsame with ids := Nat.le_succ _ }
  | createAccessToken subject =>
    exact { hsame with
      ids := Nat.le_succ _, ticks := Nat.le_succ _, issued := List.subset_cons_self _ _ }
  | createRefreshToken subject jti =>
    exact { hsame with ticks := Nat.le_succ _, issued := List.subset_cons_self _ _ }
  | decode token => exact { hsame with ticks := Nat.le_succ _ }
  | now => exact { hsame with ticks := Nat.le_succ _ }
  | _ => exact { hsame with }

end exec

/-! ### Runs -/

/-- **What is promised**: the row of the user and the records of their refresh tokens are as
they were, no token has been issued for them, and no request was answered with one, nor with
their profile unless it presented an access token of theirs. -/
structure OutOfReach (requests : ℕ → Option ApiRequest) (userId : UUID) (w : World)
    (cfg : Config ℕ Port Port.Ret Exc Response Session World) : Prop where
  users : w.db.users.SameOn (fun m => m.id = userId) cfg.shared.db.users
  refreshTokens : w.db.refreshTokens.SameOn (fun m => m.userId = userId)
    cfg.shared.db.refreshTokens
  issued : ∀ t ∈ cfg.shared.issued, t.IsFor userId → t ∈ w.issued
  answers : ∀ i r response, requests i = some r →
    (cfg.threads i).result = some (.ok response) → r.Keeps userId w.issued response

section runs

open Outsider

variable {env : Env} {h : List Entry} {w : World} {userId : UUID}
  {requests : ℕ → Option ApiRequest} {cfg : Config ℕ Port Port.Ret Exc Response Session World}

theorem spared_of_run (hrun : Run env h w) (userId : UUID) (mine : ℕ → Prop) {tokens : List Token}
    (htokens : w.issued ⊆ tokens) : World.Spared mine tokens userId w w where
  db := by
    refine ⟨.refl _, .refl _, fun m hm hother hfamily => hother ?_⟩
    obtain ⟨m', hm', heq⟩ := List.mem_map.mp hfamily
    obtain ⟨hm', howner⟩ := List.mem_filter.mp hm'
    rw [(familyShape_of_run hrun).sameUser m hm m' hm' heq.symm]
    exact of_decide_eq_true howner
  statements := by simp [hrun.settled.statements]
  issued t ht := by
    by_cases hfor : t.IsFor userId
    · exact .inl ⟨htokens ht, hfor⟩
    · exact .inr (foreign_of_issued (issuance_of_run hrun) ht hfor)
  ids := le_rfl
  ticks := le_rfl
  kept := List.Subset.refl _

end runs

end isolation

section sample

attribute [local instance] asciiUnicode

/-- The sample user's address with another password, their access token with another
password, and a registration. -/
def attempts : List ApiRequest :=
  [.login ⟨sampleLogin.email, lit ['q']⟩, .changePassword sampleAccessToken (lit ['q']) (lit ['r']),
    .register ⟨lit ['c', '@', 'b', '.', 'c'], lit ['q']⟩]

/-- All three are answered. -/
def attemptsConfig : Config ℕ Port Port.Ret Exc Response Session World :=
  (startApi (fun i => attempts[i]?) loggedInWorld).schedule (system sampleEnv)
    ([0, 1, 2, 1, 2, 0, 1, 1] ++ List.replicate 6 2)

theorem lacks_attempts (tokens : List Token) :
    ∀ r ∈ attempts, r.Lacks sampleEnv (sampleEnv.uuid 0) loggedInWorld.db tokens := by
  have hwrong : ∀ m ∈ loggedInWorld.db.users.rows, m.id = sampleEnv.uuid 0 →
      sampleEnv.verify (lit ['q']) m.hashedPassword = false := by decide +kernel
  simp only [attempts, List.forall_mem_cons]
  refine ⟨fun email _ m hm hid _ => hwrong m hm hid, .inr hwrong, trivial, by simp⟩

end sample

end FastapiStarter
