import FastapiStarter.Families
import FastapiStarter.Revocation

/-!
# Changing a password, under concurrency

`revoke_all_for_user` revokes the records that exist when its statement runs.  A
login that has verified the old password before, or a refresh that has read an old
record, can commit its record afterwards.  Where every request that commits a
record of the user after that statement has begun to read after the change was
committed, the change ends every session opened with the old password.

## Main definitions

* `Changed`, `StartedAfter` — the order of the change and of the other requests.
* `NoLateSession` — the assumption on the runs.
* `VerifiedNew` — a family whose login verified the new hash.

## Main results

* `change_ends_old_sessions` — **under the assumption, only new sessions remain.**
* `old_session_survives` — a run, without it, in which an old session remains.
-/

namespace FastapiStarter

open Interaction Relational

section race

variable [Unicode]

/-! ### Sessions of an old password -/

/-- The call reads the account: the user of a login, or the record of a token. -/
def Port.readsAccount : Port → Bool
  | .usersGetByEmail _ | .refreshTokensGetByJti _ => true
  | _ => false

/-- The call executes `revoke_all_for_user`. -/
def Port.revokesUser (userId : UUID) : Port → Bool
  | .refreshTokensRevokeAllForUser u _ => u.value = userId
  | _ => false

/-- The call adds a record of the user. -/
def Port.addsForUser (userId : UUID) : Port → Bool
  | .refreshTokensAdd record => record.userId.value = userId
  | _ => false

/-- At some moment request `k` had committed, and `sid` had not yet read an account. -/
def StartedAfter (k sid : ℕ) : Trace → Prop
  | [] => False
  | ev :: tr =>
    (Changed k (ev :: tr) ∧ ¬ Called (ev :: tr) sid Port.readsAccount) ∨ StartedAfter k sid tr

instance StartedAfter.decidable (k sid : ℕ) : ∀ tr : Trace, Decidable (StartedAfter k sid tr)
  | [] => .isFalse id
  | _ :: tr =>
    have := StartedAfter.decidable k sid tr
    inferInstanceAs (Decidable ((_ ∧ _) ∨ StartedAfter k sid tr))

/-- Once request `k` has executed `revoke_all_for_user`, whoever commits a record of
the user has read the account after the commit of `k`. -/
def NoLateSession (k : ℕ) (userId : UUID) : Guard ℕ Port Port.Ret Exc World := fun tr _ sid o =>
  o = .commit → Called tr sid (Port.addsForUser userId) → Called tr k (Port.revokesUser userId) →
    StartedAfter k sid tr

instance (k : ℕ) (userId : UUID) (tr : Trace) (w : World) (sid : ℕ) (o : Port) :
    Decidable (NoLateSession k userId tr w sid o) :=
  inferInstanceAs (Decidable (o = .commit → _ → _ → _))

/-- The login that opened the family verified the password against the hash that
the user has now. -/
def VerifiedNew (requests : ℕ → Option Command) (userId : UUID) (w : World) (tr : Trace)
    (f : UUID) : Prop :=
  ∃ sid c, requests sid = some (.login c) ∧ Called tr sid (Port.addsToFamily f) ∧
    ∃ m ∈ w.db.users.rows, m.id = userId ∧
      ⟨sid, .verify c.password m.hashedPassword, .ok true⟩ ∈ tr

/-! ### Tokens in flight -/

/-- The id and the user of the record that a request is about to store. -/
def Phase.pending : Phase → Option (UUID × UUID)
  | .drew _ u jti | .issued _ u jti => some (jti, u.id.value)
  | .adds _ r => some (r.jti, r.userId)
  | _ => none

/-- A refresh token that was issued, for a user and with the id of a record. -/
def IssuedRefresh (env : Env) (w : World) (t : Token) (userId jti : UUID) : Prop :=
  ∃ n < w.ticks, t = (env.refreshToken (env.clock n) userId jti).token

/-- The subject of a token issued is the user of its record, stored or not. -/
structure InFlight (env : Env) (φ : ℕ → Phase) (w : World) : Prop where
  issued : ∀ t ∈ w.issued,
    (∃ n < w.ticks, ∃ userId id, t = env.accessToken (env.clock n) userId id) ∨
      ∃ userId jti, IssuedRefresh env w t userId jti ∧ env.Drawn w.ids jti ∧
        (∀ m ∈ w.db.refreshTokens.rows, m.jti = jti → m.userId = userId) ∧
        ∀ sid x, (φ sid).pending = some (jti, x) → x = userId
  rows : ∀ m ∈ w.db.refreshTokens.rows, env.Drawn w.ids m.jti
  pending : ∀ sid jti x, (φ sid).pending = some (jti, x) →
    env.Drawn w.ids jti ∧ ∀ m ∈ w.db.refreshTokens.rows, m.jti ≠ jti
  distinct : ∀ i j jti x y, (φ i).pending = some (jti, x) → (φ j).pending = some (jti, y) → i = j

section inFlight

variable {env : Env} {requests : ℕ → Option Command} {φ : ℕ → Phase} {w w' : World} {sid : ℕ}
  {o : Port} {ans : Except Exc o.Ret} {ψ φ' : Phase}

/-- A step that issues no refresh token, stores nothing and draws no id for a record. -/
theorem InFlight.frame (h : InFlight env φ w) (hψ : φ sid = ψ)
    (hissued : ∀ t ∈ w'.issued, t ∈ w.issued ∨
      ∃ n < w'.ticks, ∃ userId id, t = env.accessToken (env.clock n) userId id)
    (hticks : w.ticks ≤ w'.ticks) (hids : w.ids ≤ w'.ids)
    (hrows : ∀ m' ∈ w'.db.refreshTokens.rows, ∃ m ∈ w.db.refreshTokens.rows,
      m.jti = m'.jti ∧ m.userId = m'.userId)
    (hpending : φ'.pending = none ∨ φ'.pending = ψ.pending) :
    InFlight env (Function.update φ sid φ') w' := by
  -- a record that is in flight after the step was so before
  have hback : ∀ sid' x, (Function.update φ sid φ' sid').pending = some x →
      (φ sid').pending = some x := by
    intro sid' x hx
    by_cases hsid : sid' = sid
    · subst hsid
      rw [Function.update_self] at hx
      rcases hpending with hnone | hsame
      · simp [hnone] at hx
      · rw [hψ, ← hsame, hx]
    · rwa [Function.update_of_ne hsid] at hx
  refine ⟨fun t ht => ?_, fun m' hm' => ?_, fun sid' jti x hx => ?_, fun i j jti x y hx hy => ?_⟩
  · rcases hissued t ht with ht | haccess
    swap
    · exact .inl haccess
    rcases h.issued t ht with ⟨n, hn, htoken⟩ | ⟨userId, jti, ⟨n, hn, htoken⟩, hdrawn, hstored, hp⟩
    · exact .inl ⟨n, by omega, htoken⟩
    · refine .inr ⟨userId, jti, ⟨n, by omega, htoken⟩, hdrawn.mono hids, fun m' hm' hjti => ?_,
        fun sid' x hx => hp sid' x (hback sid' _ hx)⟩
      obtain ⟨m, hm, hj, hu⟩ := hrows m' hm'
      rw [← hu]
      exact hstored m hm (hj.trans hjti)
  · obtain ⟨m, hm, hj, -⟩ := hrows m' hm'
    rw [← hj]
    exact (h.rows m hm).mono hids
  · obtain ⟨hdrawn, hnew⟩ := h.pending sid' jti x (hback sid' _ hx)
    refine ⟨hdrawn.mono hids, fun m' hm' => ?_⟩
    obtain ⟨m, hm, hj, -⟩ := hrows m' hm'
    rw [← hj]
    exact hnew m hm
  · exact h.distinct i j jti x y (hback i _ hx) (hback j _ hy)

/-- The id drawn for a record is none of those in use. -/
theorem InFlight.draw (h : InFlight env φ w) (hfresh : env.NoRepeat (w.ids + 1)) {src : Replaced}
    {u : User} (hψ : φ sid = .opens src u) :
    InFlight env (Function.update φ sid (.drew src u (w.freshId env))) w.drawId := by
  have hne : ∀ {jti}, env.Drawn w.ids jti → jti ≠ w.freshId env :=
    hfresh.ne (Nat.lt_succ_self _) le_rfl
  -- the id just drawn is in flight now, and nothing else is new
  have hpending : ∀ sid' jti x,
      (Function.update φ sid (.drew src u (w.freshId env)) sid').pending = some (jti, x) →
      (sid' = sid ∧ jti = w.freshId env) ∨ (φ sid').pending = some (jti, x) := by
    intro sid' jti x hx
    by_cases hsid : sid' = sid
    · subst hsid
      rw [Function.update_self] at hx
      cases hx
      exact .inl ⟨rfl, rfl⟩
    · rw [Function.update_of_ne hsid] at hx
      exact .inr hx
  have hids : w.ids ≤ w.drawId.ids := Nat.le_succ _
  refine ⟨fun t ht => ?_, fun m hm => (h.rows m hm).mono hids, fun sid' jti x hx => ?_,
    fun i j jti x y hx hy => ?_⟩
  · rcases h.issued t ht with haccess | ⟨userId, jti, hfor, hdrawn, hstored, hp⟩
    · exact .inl haccess
    · refine .inr ⟨userId, jti, hfor, hdrawn.mono hids, hstored, fun sid' x hx => ?_⟩
      rcases hpending sid' jti x hx with ⟨-, hjti⟩ | hx
      · exact absurd hjti (hne hdrawn)
      · exact hp sid' x hx
  · rcases hpending sid' jti x hx with ⟨-, rfl⟩ | hx
    · exact ⟨⟨w.ids, Nat.lt_succ_self w.ids, rfl⟩, fun m hm => hne (h.rows m hm)⟩
    · obtain ⟨hdrawn, hnew⟩ := h.pending sid' jti x hx
      exact ⟨hdrawn.mono hids, hnew⟩
  · -- of two in flight with one id, at most one has just drawn it
    rcases hpending i jti x hx with ⟨hi, rfl⟩ | hx' <;>
      rcases hpending j _ y hy with ⟨hj, hjti⟩ | hy'
    · rw [hi, hj]
    · exact absurd rfl (hne (h.pending j _ y hy').1)
    · exact absurd hjti (hne (h.pending i jti x hx').1)
    · exact h.distinct i j jti x y hx' hy'

/-- The token issued is for the user of the record that will be stored. -/
theorem InFlight.issue (h : InFlight env φ w) {src : Replaced} {u : User} {jti : UUID}
    (hψ : φ sid = .drew src u jti) :
    InFlight env (Function.update φ sid (.issued src u jti))
      (w.issue (env.refreshToken (w.now env) u.id.value jti).token) := by
  have hpending : ∀ sid', (Function.update φ sid (.issued src u jti) sid').pending =
      (φ sid').pending := by
    intro sid'
    by_cases hsid : sid' = sid
    · subst hsid
      rw [Function.update_self, hψ]
      rfl
    · rw [Function.update_of_ne hsid]
  have hown : (φ sid).pending = some (jti, u.id.value) := by rw [hψ]; rfl
  obtain ⟨hdrawn, hnew⟩ := h.pending sid jti _ hown
  refine ⟨fun t ht => ?_, h.rows, fun sid' jti' x hx => ?_, fun i j jti' x y hx hy => ?_⟩
  · -- the new token, and those issued before
    rcases List.mem_cons.mp ht with rfl | ht
    · refine .inr ⟨u.id.value, jti, ⟨w.ticks, Nat.lt_succ_self w.ticks, rfl⟩, hdrawn,
        fun m hm hj => absurd hj (hnew m hm), fun sid' x hx => ?_⟩
      rw [hpending] at hx
      obtain rfl := h.distinct sid' sid jti x _ hx hown
      rw [hown] at hx
      cases hx
      rfl
    · rcases h.issued t ht with ⟨n, hn, htoken⟩ | ⟨userId, jti', ⟨n, hn, htoken⟩, hd, hstored, hp⟩
      · exact .inl ⟨n, Nat.lt_succ_of_lt hn, htoken⟩
      · refine .inr ⟨userId, jti', ⟨n, Nat.lt_succ_of_lt hn, htoken⟩, hd, hstored,
          fun sid' x hx => ?_⟩
        exact hp sid' x (by rwa [hpending] at hx)
  · exact h.pending sid' jti' x (by rwa [hpending] at hx)
  · exact h.distinct i j jti' x y (by rwa [hpending] at hx) (by rwa [hpending] at hy)

/-- The record stored is the one that was in flight. -/
theorem InFlight.store (h : InFlight env φ w) {src : Replaced} {r : RefreshTokenModel}
    {db : Database} {p : RefreshTokenModel → Bool} {at' : Instant} (hψ : φ sid = .adds src r)
    (hrows : w.db.Extends db p at' [r]) :
    InFlight env (Function.update φ sid .stored) { w.close sid with db } := by
  have hpending : ∀ sid' x, (Function.update φ sid .stored sid').pending = some x →
      sid' ≠ sid ∧ (φ sid').pending = some x := by
    intro sid' x hx
    by_cases hsid : sid' = sid
    · subst hsid
      rw [Function.update_self] at hx
      cases hx
    · rw [Function.update_of_ne hsid] at hx
      exact ⟨hsid, hx⟩
  have hown : (φ sid).pending = some (r.jti, r.userId) := by rw [hψ]; rfl
  -- every row is an old one or the record that was in flight
  have hback : ∀ m' ∈ db.refreshTokens.rows,
      (∃ m ∈ w.db.refreshTokens.rows, m.jti = m'.jti ∧ m.userId = m'.userId) ∨ m' = r := by
    intro m' hm'
    rcases hrows.mem_iff.mp hm' with ⟨m, hm, rfl⟩ | hm'
    · exact .inl ⟨m, hm, by simp, by simp⟩
    · exact .inr (by simpa using hm')
  refine ⟨fun t ht => ?_, fun m' hm' => ?_, fun sid' jti x hx => ?_, fun i j jti x y hx hy => ?_⟩
  · rcases h.issued t ht with haccess | ⟨userId, jti, hfor, hdrawn, hstored, hp⟩
    · exact .inl haccess
    · refine .inr ⟨userId, jti, hfor, hdrawn, fun m' hm' hjti => ?_,
        fun sid' x hx => hp sid' x (hpending sid' _ hx).2⟩
      rcases hback m' hm' with ⟨m, hm, hj, hu⟩ | rfl
      · rw [← hu]
        exact hstored m hm (hj.trans hjti)
      · exact hp sid _ (by rw [hown, hjti])
  · rcases hback m' hm' with ⟨m, hm, hj, -⟩ | rfl
    · rw [← hj]
      exact h.rows m hm
    · exact (h.pending sid _ _ hown).1
  · obtain ⟨hne, hx⟩ := hpending sid' _ hx
    obtain ⟨hdrawn, hnew⟩ := h.pending sid' jti x hx
    refine ⟨hdrawn, fun m' hm' => ?_⟩
    rcases hback m' hm' with ⟨m, hm, hj, -⟩ | rfl
    · rw [← hj]
      exact hnew m hm
    · rintro rfl
      exact hne (h.distinct sid' sid _ x _ hx hown)
  · exact h.distinct i j jti x y (hpending i _ hx).2 (hpending j _ hy).2

/-- **One step keeps tokens and records together.** -/
theorem InFlight.step (h : InFlight env φ w) (hfresh : env.NoRepeat w'.ids)
    (hact : Act env sid (requests sid) (φ sid) w o ans w' φ') :
    InFlight env (Function.update φ sid φ') w' := by
  generalize hψ : φ sid = ψ at hact
  have hsame : ∀ m' ∈ w.db.refreshTokens.rows, ∃ m ∈ w.db.refreshTokens.rows,
      m.jti = m'.jti ∧ m.userId = m'.userId := fun m' hm' => ⟨m', hm', rfl, rfl⟩
  -- three steps are of their own, the others keep what is in flight or end it
  cases hact with
  | quiet _ hw =>
    exact h.frame hψ (by rw [hw.issued]; exact fun _ => .inl) hw.ticks hw.ids
      (by rw [hw.db]; exact hsame) (.inr rfl)
  | refuse _ hw =>
    exact h.frame hψ (by rw [hw.issued]; exact fun _ => .inl) hw.ticks hw.ids
      (by rw [hw.db]; exact hsame) (.inl rfl)
  | draw => exact h.draw hfresh hψ
  | issue => exact h.issue hψ
  | store _ hrows => exact h.store hψ hrows
  | @add src u jti w record hjti huser =>
    have hr : (Phase.adds src (RefreshTokenMapper.toModel record)).pending =
        (Phase.issued src u jti).pending := by
      simp [Phase.pending, RefreshTokenMapper.toModel, hjti, huser]
    exact h.frame hψ (fun _ => .inl) le_rfl le_rfl hsame (.inr hr)
  | @access u id w w' _ hdb _ hticks hids hissued =>
    refine h.frame hψ (fun t ht => ?_) hticks.le hids (by rw [hdb]; exact hsame) (.inr rfl)
    rw [hissued] at ht
    rcases List.mem_cons.mp ht with rfl | ht
    · exact .inr ⟨w.ticks, hticks, u.id.value, id, rfl⟩
    · exact .inl ht
  | @commit st change x w =>
    refine h.frame hψ (fun _ => .inl) le_rfl le_rfl (fun m' hm' => ?_) (.inl rfl)
    have hm'' : m' ∈ (w.db.revokeRows st.rows st.at').refreshTokens.rows := by
      rcases change with _ | ⟨u, hp⟩ <;> exact hm'
    rcases (Database.Extends.of_revokeRows ..).mem_iff.mp hm'' with ⟨m, hm, rfl⟩ | hm
    · exact ⟨m, hm, by simp, by simp⟩
    · cases hm
  | accept | replay | logout | live | change =>
    exact h.frame hψ (fun _ => .inl) (Nat.le_succ _) le_rfl hsame (.inl rfl)
  | _ => exact h.frame hψ (fun _ => .inl) le_rfl le_rfl hsame (.inl rfl)

end inFlight

/-! ### The invariant -/

/-- A refresh token is for one user and one record. -/
theorem refreshToken_injective {env : Env} {n n' : Instant} {userId userId' jti jti' : UUID}
    (h : (env.refreshToken n userId jti).token = (env.refreshToken n' userId' jti').token) :
    userId = userId' ∧ jti = jti' := by
  simp only [Env.refreshToken, JwtTokenService.refreshToken, JwtTokenService.encoded,
    Token.signed.injEq, Claims.mk.injEq] at h
  exact ⟨congrArg UserId.value (UserId.str_injective h.2.2.1), UUID.str_injective h.2.2.2.2.1⟩

/-- The token, the record and the user of a request belong together. -/
def Consistent (env : Env) (w : World) : Phase → Prop
  | .holds p => ∃ t ∈ w.issued, ∃ userId, IssuedRefresh env w t userId p.tokenId ∧
      p.subject = (UserId.mk userId).str
  | .found p m | .live p m _ => p.subject = (UserId.mk m.userId).str
  | .allowed m _ u => u.id.value = m.userId
  | .opens src u | .drew src u _ | .issued src u _ =>
    ∀ m seen, src = some (m, seen) → u.id.value = m.userId
  | _ => True

/-- The login has verified the password against the hash the user has now. -/
def VerifiedNow (requests : ℕ → Option Command) (w : World) (tr : Trace) (sid : ℕ) (u : User) :
    Prop :=
  ∃ c, requests sid = some (.login c) ∧ UserMapper.toModel u ∈ w.db.users.rows ∧
    ⟨sid, .verify c.password u.hashedPassword.value, .ok true⟩ ∈ tr

/-- What a request that began to read after the change is about to store belongs to
a new session. -/
def Renewed (requests : ℕ → Option Command) (userId : UUID) (w : World) (tr : Trace) (sid : ℕ) :
    Phase → Prop
  | .found _ m => m.revokedAt = none → m.userId = userId →
      VerifiedNew requests userId w tr m.familyId
  | .live _ m _ | .allowed m _ _ => m.userId = userId →
      VerifiedNew requests userId w tr m.familyId
  | .loaded u => UserMapper.toModel u ∈ w.db.users.rows
  | .opens src u | .drew src u _ | .issued src u _ =>
    (∀ m at', src = some (m, at') → m.userId = userId →
      VerifiedNew requests userId w tr m.familyId) ∧
      (src = none → VerifiedNow requests w tr sid u)
  | .adds _ r => r.userId = userId → VerifiedNew requests userId w tr r.familyId
  | _ => True

/-- The phases before the account is read, or after everything. -/
def Phase.BeforeRead : Phase → Prop
  | .idle | .begun | .holds _ | .ended _ => True
  | _ => False

/-- Every unrevoked record of the user is among these rows. -/
def CoversUser (db : Database) (userId : UUID) (rows : List UUID) : Prop :=
  ∀ m ∈ db.refreshTokens.rows, m.userId = userId → m.revokedAt = none → m.jti ∈ rows

/-- The phases of the password change. -/
def ChangePhase (userId : UUID) (db : Database) (revoked : Prop) : Phase → Prop
  | .begun | .ended _ => True
  | .loaded u => u.id.value = userId
  | .sweeps scope _ (some (u, _)) _ => scope = .user userId ∧ u.id.value = userId
  | .swept st (some (u, _)) _ => u.id.value = userId ∧ revoked ∧ CoversUser db userId st.rows
  | _ => False

/-- What holds throughout a run that meets the assumption. -/
structure Race (env : Env) (requests : ℕ → Option Command) (k : ℕ) (userId : UUID)
    (φ : ℕ → Phase) (w : World) (tr : Trace) : Prop where
  inFlight : InFlight env φ w
  consistent : ∀ sid, Consistent env w (φ sid)
  added : ∀ sid src r, φ sid = .adds src r → Called tr sid (Port.addsForUser r.userId)
  unread : ∀ sid, sid ≠ k → ¬ Called tr sid Port.readsAccount → (φ sid).BeforeRead
  ended : Changed k tr → (∃ x, φ k = .ended x) ∧ Called tr k (Port.revokesUser userId)
  change : ChangePhase userId w.db (Called tr k (Port.revokesUser userId)) (φ k)
  renewed : ∀ sid, StartedAfter k sid tr → Renewed requests userId w tr sid (φ sid)
  fresh : Changed k tr → ∀ m ∈ w.db.refreshTokens.rows, m.userId = userId → m.revokedAt = none →
    VerifiedNew requests userId w tr m.familyId

section step

variable {env : Env} {requests : ℕ → Option Command} {k : ℕ} {userId : UUID} {φ : ℕ → Phase}
  {w w' : World} {tr : Trace} {sid : ℕ} {o : Port} {ans : Except Exc o.Ret} {ψ φ' : Phase}

theorem StartedAfter.changed (h : StartedAfter k sid tr) : Changed k tr := by
  induction tr with
  | nil => exact h.elim
  | cons ev tr ih =>
    rcases h with ⟨hchanged, -⟩ | h
    · exact hchanged
    · exact changed_cons.mpr (.inr (ih h))

theorem VerifiedNew.mono {f : UUID} {ev : Event ℕ Port Port.Ret Exc}
    (h : VerifiedNew requests userId w tr f) (husers : w'.db.users = w.db.users) :
    VerifiedNew requests userId w' (ev :: tr) f := by
  obtain ⟨sid, c, hc, hadds, m, hm, hid, hev⟩ := h
  exact ⟨sid, c, hc, called_cons.mpr (.inr hadds), m, by rwa [husers], hid,
    List.mem_cons_of_mem _ hev⟩

theorem VerifiedNow.mono {u : User} {ev : Event ℕ Port Port.Ret Exc}
    (h : VerifiedNow requests w tr sid u) (husers : w'.db.users = w.db.users) :
    VerifiedNow requests w' (ev :: tr) sid u := by
  obtain ⟨c, hc, hu, hev⟩ := h
  exact ⟨c, hc, by rwa [husers], List.mem_cons_of_mem _ hev⟩

theorem Renewed.mono {ev : Event ℕ Port Port.Ret Exc}
    (h : Renewed requests userId w tr sid ψ) (husers : w'.db.users = w.db.users) :
    Renewed requests userId w' (ev :: tr) sid ψ := by
  cases ψ with
  | found _ m => exact fun hlive hu => (h hlive hu).mono husers
  | live _ _ _ | allowed _ _ _ => exact fun hu => (h hu).mono husers
  | loaded u => exact (congrArg (_ ∈ Table.rows ·) husers).mpr h
  | opens _ _ | drew _ _ _ | issued _ _ _ =>
    exact ⟨fun m at' hsrc hu => (h.1 m at' hsrc hu).mono husers,
      fun hsrc => (h.2 hsrc).mono husers⟩
  | adds _ _ => exact fun hu => (h hu).mono husers
  | _ => exact h

theorem Phase.BeforeRead.renewed (h : ψ.BeforeRead) : Renewed requests userId w tr sid ψ := by
  cases ψ with
  | idle | begun | holds _ | ended _ => trivial
  | _ => exact h.elim

theorem Consistent.mono (h : Consistent env w ψ) (hticks : w.ticks ≤ w'.ticks)
    (hissued : w.issued ⊆ w'.issued) : Consistent env w' ψ := by
  cases ψ with
  | holds p =>
    obtain ⟨t, ht, userId, ⟨n, hn, htoken⟩, hsubject⟩ := h
    exact ⟨t, hissued ht, userId, ⟨n, by omega, htoken⟩, hsubject⟩
  | _ => exact h

/-- Before the account is read, a request stays where it has read nothing. -/
theorem Act.beforeRead {c : Option Command} (hact : Act env sid c ψ w o ans w' φ')
    (h : ψ.BeforeRead) (ho : o.readsAccount = false)
    (hc : ∀ cmd, c ≠ some (.changePassword cmd)) : φ'.BeforeRead := by
  cases hact with
  | quiet => exact h
  | refuse | forget | accept => trivial
  | find | lookup => cases ho
  | load hcmd => exact absurd hcmd (hc _)
  | _ => exact h.elim

/-- What has ended stays so. -/
theorem Act.ended {c : Option Command} {x : Except Exc Response}
    (hact : Act env sid c (.ended x) w o ans w' φ') : ∃ x', φ' = .ended x' := by
  cases hact with
  | quiet => exact ⟨x, rfl⟩
  | refuse => exact ⟨_, rfl⟩

/-! ### One step -/

/-- The token, the record and the user of a request go on belonging together. -/
theorem Consistent.step (h : Consistent env w ψ) (hin : InFlight env φ w)
    (hact : Act env sid (requests sid) ψ w o ans w' φ') : Consistent env w' φ' := by
  obtain ⟨hticks, -, hissued⟩ := hact.counters
  cases hact with
  | quiet => exact h.mono hticks hissued
  | @accept t p w _ hdecode htype =>
    have ht := mem_issued_of_decode hdecode
    rcases hin.issued t ht with ⟨n, -, userId, id, rfl⟩ | ⟨userId, jti, ⟨n, hn, rfl⟩, -⟩
    · have hp := eq_of_decode_encoded hdecode
      rw [hp] at htype
      cases htype
    · obtain rfl := eq_of_decode_encoded hdecode
      exact ⟨_, ht, userId, ⟨n, Nat.lt_succ_of_lt hn, rfl⟩, rfl⟩
  | @find p m w _ hget =>
    obtain ⟨hm, hid⟩ := Table.get_eq_some.mp hget
    obtain ⟨t, ht, userId, ⟨n, hn, htoken⟩, hsubject⟩ := h
    rcases hin.issued t ht with ⟨k, -, userId', id, hacc⟩ | ⟨userId', jti, ⟨k, hk, htok⟩, -, hst, -⟩
    · exact absurd (htoken.symm.trans hacc) (refreshToken_ne_accessToken env _ _ _ _ _ _)
    · obtain ⟨hsub, hjti⟩ := refreshToken_injective (htoken.symm.trans htok)
      have huser := hst m hm (hid.trans hjti)
      change p.subject = (UserId.mk m.userId).str
      rw [huser, ← hsub, hsubject]
  | live => exact h
  | @allow p m at' u w _ hsubject hu =>
    have hp : p.subject = (UserId.mk m.userId).str := h
    rw [hp, UserId.fromStr_str] at hsubject
    exact (congrArg UserId.value (Except.ok.inj hsubject)).symm
  | @update m at' u w record =>
    rintro m' at'' ⟨⟩
    exact h
  | verify =>
    rintro m at' ⟨⟩
  | draw | issue => exact h
  | _ => trivial

/-- After the change, a request that began to read then stays with new sessions. -/
theorem Renewed.step (h : Renewed requests userId w tr sid ψ) (hcons : Consistent env w ψ)
    (hfresh : ∀ m ∈ w.db.refreshTokens.rows, m.userId = userId → m.revokedAt = none →
      VerifiedNew requests userId w tr m.familyId)
    (husers : w'.db.users = w.db.users)
    (hact : Act env sid (requests sid) ψ w o ans w' φ') :
    Renewed requests userId w' (⟨sid, o, ans⟩ :: tr) sid φ' := by
  -- what is read after the change is of a new session; until then nothing is known
  cases hact with
  | quiet => exact h.mono husers
  | find hget =>
    intro hlive hu
    exact (hfresh _ (Table.get_eq_some.mp hget).1 hu hlive).mono husers
  | live _ hlive =>
    intro hu
    exact (h hlive hu).mono husers
  | allow =>
    intro hu
    exact (h hu).mono husers
  | update =>
    refine ⟨?_, by simp⟩
    rintro m at' ⟨⟩ hu
    exact (h hu).mono husers
  | lookup _ hu => exact hu
  | load _ _ hu => exact hu
  | verify hc =>
    refine ⟨by simp, fun _ => ⟨_, hc, h, ?_⟩⟩
    exact List.mem_cons_self
  | draw | issue =>
    exact ⟨fun m at' hsrc hu => (h.1 m at' hsrc hu).mono husers, fun hsrc => (h.2 hsrc).mono husers⟩
  | @add src u jti w record hjti huser _ hfamily =>
    intro hu
    have hid : u.id.value = userId := by
      rw [← huser]
      exact hu
    rcases src with _ | ⟨m, at'⟩
    · -- a login: its family is the one it has just added to
      obtain ⟨c, hc, hrow, hev⟩ := h.2 rfl
      refine ⟨sid, c, hc, called_cons.mpr (.inl ⟨rfl, ?_⟩), _, hrow, hid,
        List.mem_cons_of_mem _ hev⟩
      simp [Port.addsToFamily, RefreshTokenMapper.toModel]
    · -- a refresh: the family is that of the record it replaces
      have hm : m.userId = userId := (hcons m at' rfl).symm.trans hid
      have hf : (RefreshTokenMapper.toModel record).familyId = m.familyId := hfamily m at' rfl
      rw [hf]
      exact (h.1 m at' rfl hm).mono husers
  | _ => trivial

omit [Unicode] in
/-- Revoking records, and adding records of other users, covers no less. -/
theorem CoversUser.extends {db db' : Database} {rows : List UUID} {p : RefreshTokenModel → Bool}
    {at' : Instant} {new : List RefreshTokenModel} (h : CoversUser db userId rows)
    (hrows : db.Extends db' p at' new) (hnew : ∀ r ∈ new, r.userId ≠ userId) :
    CoversUser db' userId rows := by
  intro m hm hu hlive
  rcases hrows.mem_iff.mp hm with ⟨m₀, hm₀, rfl⟩ | hm
  · rw [RefreshTokenModel.jti_revokeIf]
    rw [RefreshTokenModel.userId_revokeIf] at hu
    exact h m₀ hm₀ hu ((RefreshTokenModel.revokedAt_revokeIf _ _ _).mp hlive).1
  · exact absurd hu (hnew m hm)

omit [Unicode] in
/-- Revoking what covers the user leaves nothing. -/
theorem CoversUser.revokeRows {db : Database} {rows : List UUID} (h : CoversUser db userId rows)
    (at' : Instant) : CoversUser (db.revokeRows rows at') userId [] := by
  intro m hm hu hlive
  rcases (Database.Extends.of_revokeRows db rows at').mem_iff.mp hm with ⟨m₀, hm₀, rfl⟩ | hm
  · rw [RefreshTokenModel.userId_revokeIf] at hu
    obtain ⟨hlive₀, hnot⟩ := (RefreshTokenModel.revokedAt_revokeIf _ _ _).mp hlive
    simp [h m₀ hm₀ hu hlive₀] at hnot
  · cases hm

/-- The change goes on to its next phase. -/
theorem ChangePhase.step {cmd : ChangePasswordCommand} (huser : cmd.userId = userId)
    (h : ChangePhase userId w.db (Called tr k (Port.revokesUser userId)) ψ)
    (hact : Act env k (some (.changePassword cmd)) ψ w o ans w' φ') :
    ChangePhase userId w'.db (Called (⟨k, o, ans⟩ :: tr) k (Port.revokesUser userId)) φ' := by
  -- a password change loads, changes and sweeps; no other step is one of its own
  cases hact with
  | @quiet _ _ _ o r ho hw =>
    have hcalled : Called tr k (Port.revokesUser userId) →
        Called (⟨k, o, .ok r⟩ :: tr) k (Port.revokesUser userId) :=
      fun hc => called_cons.mpr (.inr hc)
    cases ψ with
    | begun | ended _ | loaded _ => exact h
    | sweeps scope at' change x =>
      rcases change with _ | ⟨u, hp⟩ <;> exact h
    | swept st change x =>
      rcases change with _ | ⟨u, hp⟩
      · exact h
      · obtain ⟨hu, hrevoked, hcovers⟩ := h
        refine ⟨hu, hcalled hrevoked, ?_⟩
        rw [hw.db]
        exact hcovers
    | _ => exact h.elim
  | refuse | forget | commit => trivial
  | load hc hid =>
    obtain rfl := Command.changePassword.inj (Option.some.inj hc)
    exact hid.trans huser
  | change =>
    have hu : _ = userId := h
    exact ⟨by rw [hu], hu⟩
  | @sweep scope at' change x w st _ hst =>
    rcases change with _ | ⟨u, hp⟩
    · exact h.elim
    · obtain ⟨rfl, hu⟩ := h
      refine ⟨hu, called_cons.mpr (.inl ⟨rfl, ?_⟩), fun m hm hmu hlive => ?_⟩
      · simp [Port.revokesUser, Scope.port]
      · rw [hst, Database.mem_selected _ hm]
        simp [Scope.selects, hmu, hlive]
  | accept hc => rcases hc with hc | hc <;> cases hc
  | lookup hc => cases hc
  | verify hc => cases hc
  | _ => exact h.elim

/-- At its commit the change has revoked every record of the user. -/
theorem ChangePhase.commit {revoked : Prop} {c : Option Command}
    (h : ChangePhase userId w.db revoked ψ) (hact : Act env sid c ψ w o ans w' φ')
    (hcommit : IsCommit ⟨sid, o, ans⟩ = true) :
    (∃ x, φ' = .ended x) ∧ revoked ∧ CoversUser w'.db userId [] := by
  cases hact with
  | quiet ho =>
    obtain ⟨rfl, -⟩ := op_of_isCommit hcommit
    cases ho
  | refuse _ _ _ hans =>
    obtain ⟨rfl, hok⟩ := op_of_isCommit hcommit
    obtain ⟨e, rfl⟩ := hans rfl
    exact absurd rfl (hok e)
  | store => exact h.elim
  | @commit st change x w =>
    rcases change with _ | ⟨u, hp⟩
    · exact h.elim
    · exact ⟨⟨x, rfl⟩, h.2.1, h.2.2.revokeRows st.at'⟩
  | @sweep scope => cases scope <;> cases hcommit
  | _ => cases hcommit

/-- The others leave the change where it is. -/
theorem ChangePhase.other {db db' : Database} {revoked revoked' : Prop}
    (h : ChangePhase userId db revoked ψ) (hrevoked : revoked → revoked')
    (hcovers : ∀ rows, revoked → (∀ x, ψ ≠ .ended x) → CoversUser db userId rows →
      CoversUser db' userId rows) :
    ChangePhase userId db' revoked' ψ := by
  cases ψ with
  | begun | ended _ | loaded _ => exact h
  | sweeps scope at' change x =>
    rcases change with _ | ⟨u, hp⟩ <;> exact h
  | swept st change x =>
    rcases change with _ | ⟨u, hp⟩
    · exact h
    · exact ⟨h.1, hrevoked h.2.1, hcovers _ h.2.1 (by simp) h.2.2⟩
  | _ => exact h.elim

/-- What a request will commit was added, also after one step more. -/
theorem Race.added_cons (h : Race env requests k userId φ w tr)
    (hact : Act env sid (requests sid) (φ sid) w o ans w' φ') {sid' : ℕ} {src : Replaced}
    {r : RefreshTokenModel} (hφ : Function.update φ sid φ' sid' = .adds src r) :
    Called (⟨sid, o, ans⟩ :: tr) sid' (Port.addsForUser r.userId) := by
  rw [called_cons]
  by_cases hsid : sid' = sid
  · subst hsid
    rw [Function.update_self] at hφ
    generalize hψ : φ sid' = ψ at hact
    cases hact with
    | quiet => exact .inr (h.added _ _ _ (hψ.trans hφ))
    | add =>
      cases hφ
      exact .inl ⟨rfl, by simp [Port.addsForUser, RefreshTokenMapper.toModel]⟩
    | _ => cases hφ
  · rw [Function.update_of_ne hsid] at hφ
    exact .inr (h.added _ _ _ hφ)

/-- Only the change writes users, and after its commit it does nothing. -/
theorem Race.users_of_changed (h : Race env requests k userId φ w tr) (hg : Grounded requests φ w)
    (hone : ∀ i c, requests i = some (.changePassword c) → i = k)
    (hact : Act env sid (requests sid) (φ sid) w o ans w' φ') (hchanged : Changed k tr) :
    w'.db.users = w.db.users := by
  rcases hact.users with heq | ⟨st, u, hp, x, hφ, -⟩
  · exact heq
  · obtain ⟨c, hc⟩ := hg.changes sid (u, hp) (by rw [hφ]; rfl)
    obtain rfl := hone sid c hc
    obtain ⟨⟨y, hy⟩, -⟩ := h.ended hchanged
    rw [hφ] at hy
    cases hy

/-- A request that has not read the account has read nothing. -/
theorem Race.unread_cons (h : Race env requests k userId φ w tr)
    (hone : ∀ i c, requests i = some (.changePassword c) → i = k)
    (hact : Act env sid (requests sid) (φ sid) w o ans w' φ') {sid' : ℕ} (hne : sid' ≠ k)
    (hnot : ¬ Called (⟨sid, o, ans⟩ :: tr) sid' Port.readsAccount) :
    (Function.update φ sid φ' sid').BeforeRead := by
  simp only [called_cons, not_or, not_and, Bool.not_eq_true] at hnot
  by_cases hsid : sid' = sid
  · subst hsid
    rw [Function.update_self]
    exact hact.beforeRead (h.unread _ hne hnot.2) (hnot.1 rfl) fun c hc => hne (hone _ c hc)
  · rw [Function.update_of_ne hsid]
    exact h.unread sid' hne hnot.2

/-- After its commit the change has ended, and had revoked the sessions before. -/
theorem Race.ended_cons {cmd : ChangePasswordCommand} (h : Race env requests k cmd.userId φ w tr)
    (hact : Act env sid (requests sid) (φ sid) w o ans w' φ')
    (hchanged : Changed k (⟨sid, o, ans⟩ :: tr)) :
    (∃ x, Function.update φ sid φ' k = .ended x) ∧
      Called (⟨sid, o, ans⟩ :: tr) k (Port.revokesUser cmd.userId) := by
  rcases changed_cons.mp hchanged with ⟨rfl, hcommit⟩ | hchanged
  · obtain ⟨hx, hrevoked, -⟩ := h.change.commit hact hcommit
    exact ⟨by rwa [Function.update_self], called_cons.mpr (.inr hrevoked)⟩
  · obtain ⟨⟨x, hx⟩, hrevoked⟩ := h.ended hchanged
    refine ⟨?_, called_cons.mpr (.inr hrevoked)⟩
    by_cases hsid : k = sid
    · subst hsid
      rw [Function.update_self]
      rw [hx] at hact
      exact hact.ended
    · exact ⟨x, by rw [Function.update_of_ne hsid, hx]⟩

/-- By the assumption, a record of the user is stored late only by whoever started late. -/
theorem Race.late_of_new (h : Race env requests k userId φ w tr)
    (hguard : NoLateSession k userId tr w sid o) {r : RefreshTokenModel} {src : Replaced}
    (hφ : φ sid = .adds src r) (ho : o = .commit) (hu : r.userId = userId)
    (hrevoked : Called tr k (Port.revokesUser userId)) : StartedAfter k sid tr :=
  hguard ho (hu ▸ h.added sid src r hφ) hrevoked

/-- **One step keeps the invariant**, when it meets the assumption. -/
theorem Race.step {cmd : ChangePasswordCommand} (h : Race env requests k cmd.userId φ w tr)
    (hg : Grounded requests φ w) (hk : requests k = some (.changePassword cmd))
    (hone : ∀ i c, requests i = some (.changePassword c) → i = k) (hids : env.NoRepeat w'.ids)
    (hguard : NoLateSession k cmd.userId tr w sid o)
    (hact : Act env sid (requests sid) (φ sid) w o ans w' φ') :
    Race env requests k cmd.userId (Function.update φ sid φ') w' (⟨sid, o, ans⟩ :: tr) := by
  obtain ⟨hticks, -, hissued⟩ := hact.counters
  obtain ⟨p, at', new, hext, hnew⟩ := hact.rows
  have hlate : ∀ r ∈ new, r.userId = cmd.userId → Called tr k (Port.revokesUser cmd.userId) →
      StartedAfter k sid tr ∧ ∃ src, φ sid = .adds src r := by
    intro r hr hu hrevoked
    obtain ⟨src, hφ, -, rfl⟩ := hnew r hr
    exact ⟨h.late_of_new hguard hφ rfl hu hrevoked, src, hφ⟩
  -- the request that changes the password is `k`, and no other sweeps the user
  have hphase : ChangePhase cmd.userId w'.db
      (Called (⟨sid, o, ans⟩ :: tr) k (Port.revokesUser cmd.userId))
      (Function.update φ sid φ' k) := by
    by_cases hsid : k = sid
    · subst hsid
      rw [Function.update_self]
      rw [hk] at hact
      exact h.change.step rfl hact
    · rw [Function.update_of_ne hsid]
      refine h.change.other (fun hc => called_cons.mpr (.inr hc))
        fun rows hrevoked hne hcovers => ?_
      refine hcovers.extends hext fun r hr hu => ?_
      obtain ⟨⟨x, hx⟩, -⟩ := h.ended (hlate r hr hu hrevoked).1.changed
      exact hne x hx
  refine ⟨h.inFlight.step hids hact, fun sid' => ?_, fun _ _ _ => h.added_cons hact,
    fun _ => h.unread_cons hone hact, h.ended_cons hact, hphase, fun sid' hstarted => ?_,
    fun hchanged m hm hu hlive => ?_⟩
  · by_cases hsid : sid' = sid
    · subst hsid
      rw [Function.update_self]
      exact (h.consistent _).step h.inFlight hact
    · rw [Function.update_of_ne hsid]
      exact (h.consistent sid').mono hticks hissued
  · rcases hstarted with ⟨hchanged, hnot⟩ | hstarted
    · -- it has read nothing yet
      refine Phase.BeforeRead.renewed ?_
      by_cases hsid : sid' = k
      · subst hsid
        obtain ⟨⟨x, hx⟩, -⟩ := h.ended_cons hact hchanged
        rw [hx]
        trivial
      · exact h.unread_cons hone hact hsid hnot
    · have husers := h.users_of_changed hg hone hact hstarted.changed
      by_cases hsid : sid' = sid
      · subst hsid
        rw [Function.update_self]
        exact (h.renewed _ hstarted).step (h.consistent _) (h.fresh hstarted.changed) husers hact
      · rw [Function.update_of_ne hsid]
        exact (h.renewed sid' hstarted).mono husers
  · -- either the change is committed just now, or it was before
    rcases changed_cons.mp hchanged with ⟨rfl, hcommit⟩ | hchanged
    · obtain ⟨-, -, hcovers⟩ := h.change.commit hact hcommit
      exact absurd (hcovers m hm hu hlive) (by simp)
    · have husers := h.users_of_changed hg hone hact hchanged
      rcases hext.mem_iff.mp hm with ⟨m₀, hm₀, rfl⟩ | hm
      · -- a record that was there is of a family renewed before
        rw [RefreshTokenModel.userId_revokeIf] at hu
        rw [RefreshTokenModel.familyId_revokeIf]
        have hlive₀ := ((RefreshTokenModel.revokedAt_revokeIf _ _ _).mp hlive).1
        exact (h.fresh hchanged m₀ hm₀ hu hlive₀).mono husers
      · obtain ⟨hstarted, src, hφ⟩ := hlate m hm hu (h.ended hchanged).2
        have hrenewed := h.renewed sid hstarted
        rw [hφ] at hrenewed
        exact (hrenewed hu).mono husers

end step

/-! ### The sessions that remain -/

section final

variable {env : Env} {requests : ℕ → Option Command} {k : ℕ} {w : World} {h : List Entry}

theorem InFlight.initial (hw : Settled env w) (hi : Issuance env w) :
    InFlight env (fun sid => .start (requests sid)) w := by
  have hnone : ∀ c, (Phase.start c).pending = none := by
    intro c
    unfold Phase.start
    repeat' split
    all_goals rfl
  refine ⟨fun t ht => ?_, hw.jtis, by simp [hnone], by simp [hnone]⟩
  rcases hi.issued t ht with ⟨m, hm, n, hn, rfl, -⟩ | haccess
  · refine .inr ⟨m.userId, m.jti, ⟨n, hn, rfl⟩, hw.jtis m hm, fun m' hm' hjti => ?_,
      by simp [hnone]⟩
    rw [w.db.refreshTokens.eq_of_key_eq hm' hm hjti]
  · exact .inl haccess

theorem Race.initial {cmd : ChangePasswordCommand} (hw : Settled env w) (hi : Issuance env w)
    (hk : requests k = some (.changePassword cmd)) :
    Race env requests k cmd.userId (fun sid => .start (requests sid)) w [] := by
  have hstart : ∀ sid, (Phase.start (requests sid)).BeforeRead := by
    intro sid
    unfold Phase.start
    repeat' split
    all_goals trivial
  refine ⟨.initial hw hi, fun sid => ?_, fun sid src r hφ => ?_, fun sid _ _ => hstart sid, by
    simp [Changed], ?_, fun sid hs => hs.elim, by simp [Changed]⟩
  · unfold Phase.start
    repeat' split
    all_goals trivial
  · have hbefore := hstart sid
    rw [hφ] at hbefore
    exact hbefore.elim
  · rw [hk]
    trivial

/-- **A password change ends every session opened with the old password**, in every
run in which whoever commits a record of the user after `revoke_all_for_user` was
executed has read the account after the change was committed. -/
theorem change_ends_old_sessions {cmd : ChangePasswordCommand} (hrun : Run env h w)
    (hk : requests k = some (.changePassword cmd))
    (hreq : ∀ sid c, requests sid = some c → sid ≠ k →
      (∃ c', c = .login c') ∨ ∃ t, c = .refreshToken ⟨t⟩)
    {cfg : Config ℕ Port Port.Ret Exc Response Session World}
    (hreach : Reach (system env) (NoLateSession k cmd.userId) (start requests w) cfg)
    (hfresh : env.NoRepeat cfg.shared.ids) (hchanged : Changed k cfg.trace) :
    ∀ m ∈ cfg.shared.db.refreshTokens.rows, m.userId = cmd.userId → m.revokedAt = none →
      VerifiedNew requests cmd.userId cfg.shared cfg.trace m.familyId := by
  -- no other request changes a password
  have hone : ∀ i c, requests i = some (.changePassword c) → i = k := by
    intro i c hc
    by_contra hne
    rcases hreq i _ hc hne with ⟨c', h⟩ | ⟨t, h⟩ <;> cases h
  have hsession : ∀ sid c, requests sid = some c → c.IsSession := by
    intro sid c hc
    by_cases hne : sid = k
    · subst hne
      rw [hk] at hc
      cases hc
      trivial
    · rcases hreq sid c hc hne with ⟨c', rfl⟩ | ⟨t, rfl⟩ <;> trivial
  have hchanges : OneChange requests := fun i j c c' hi hj =>
    (hone i c hi).trans (hone j c' hj).symm
  have hw := hrun.settled
  -- the invariant holds of every run, by its steps
  obtain ⟨φ, ⟨-, hinv⟩, -⟩ := hreach.abstract (fun φ w' tr => Grounded requests φ w' ∧
      (env.NoRepeat w'.ids → Race env requests k cmd.userId φ w' tr))
    (sim_command hsession w) ⟨.start hw, fun _ => .initial hw (issuance_of_run hrun) hk⟩
    (fun φ w tr h => h.1.rely)
    (by
      rintro φ w₁ tr sid o ans w₂ φ' ⟨hg, hinv⟩ hguard hact
      have hids := (Act.counters hact).2.1
      refine ⟨hg.step hchanges hact, fun hfresh => ?_⟩
      have hbefore : env.NoRepeat w₁.ids := fun i hi j hj =>
        hfresh i (hi.trans_le hids) j (hj.trans_le hids)
      exact (hinv hbefore).step hg hk hone hfresh hguard hact)
  exact (hinv hfresh).fresh hchanged

end final

end race

/-! ### A login and a password change -/

section sample

attribute [local instance] asciiUnicode

/-- The sample user logs in by request 0, and changes the password by request 1. -/
def loginAndChange : ℕ → Option Command
  | 0 => some (.login ⟨sampleLogin.email, lit ['q']⟩)
  | 1 => some (.changePassword ⟨sampleEnv.uuid 0, sampleLogin.password, lit ['q']⟩)
  | _ => none

/-- The login with the new password begins when the change has been committed. -/
def changedConfig : Config ℕ Port Port.Ret Exc Response Session World :=
  (start loginAndChange loggedInWorld).schedule (system sampleEnv)
    (List.replicate 8 1 ++ List.replicate 8 0)

/-- The sessions that remain there, of which there is one, are new. -/
theorem change_ends_old_sessions_sample :
    (∀ m ∈ changedConfig.shared.db.refreshTokens.rows, m.userId = sampleEnv.uuid 0 →
      m.revokedAt = none → VerifiedNew loginAndChange (sampleEnv.uuid 0) changedConfig.shared
        changedConfig.trace m.familyId) ∧
    ∃ m ∈ changedConfig.shared.db.refreshTokens.rows, m.userId = sampleEnv.uuid 0 ∧
      m.revokedAt = none := by
  have hreach : Reach (system sampleEnv) (NoLateSession 1 (sampleEnv.uuid 0))
      (start loginAndChange loggedInWorld) changedConfig :=
    reach_schedule _ .refl (by decide +kernel)
  have hreq : ∀ sid c, loginAndChange sid = some c → sid ≠ 1 →
      (∃ c', c = .login c') ∨ ∃ t, c = .refreshToken ⟨t⟩ := by
    intro sid c hc hne
    unfold loginAndChange at hc
    split at hc
    · cases hc
      exact .inl ⟨_, rfl⟩
    · exact absurd rfl hne
    · cases hc
  exact ⟨change_ends_old_sessions run_sampleHistory rfl hreq hreach (by decide +kernel)
    (by decide +kernel), by decide +kernel⟩

/-- The login with the old password has read the user when the change begins. -/
def loginBeforeChange : ℕ → Option Command
  | 0 => some (.login sampleLogin)
  | sid => loginAndChange sid

/-- The login has verified the old password, the change comes to its end, and then
the login. -/
def survivedConfig : Config ℕ Port Port.Ret Exc Response Session World :=
  (start loginBeforeChange loggedInWorld).schedule (system sampleEnv)
    ([0, 0] ++ List.replicate 8 1 ++ List.replicate 6 0)

/-- **An old session survives**: a login verifies the old password, the change
commits, and the login commits its record, which nothing revokes. -/
theorem old_session_survives :
    ∃ cfg, Reach (system sampleEnv) anyCall (start loginBeforeChange loggedInWorld) cfg ∧
      Changed 1 cfg.trace ∧ ∃ m ∈ cfg.shared.db.refreshTokens.rows,
        m.userId = sampleEnv.uuid 0 ∧ m.revokedAt = none ∧
        ¬ VerifiedNew loginBeforeChange (sampleEnv.uuid 0) cfg.shared cfg.trace m.familyId := by
  have hrow : ∃ m ∈ survivedConfig.shared.db.refreshTokens.rows,
      m.userId = sampleEnv.uuid 0 ∧ m.revokedAt = none := by decide +kernel
  -- no call has verified the password of the login against the hash there is now
  have hverify : ∀ m ∈ survivedConfig.shared.db.users.rows, ∀ ev ∈ survivedConfig.trace,
      ev.op ≠ .verify sampleLogin.password m.hashedPassword := by decide +kernel
  obtain ⟨m, hm, hu, hlive⟩ := hrow
  refine ⟨survivedConfig, reach_schedule _ .refl (by decide +kernel), by decide +kernel, m, hm, hu,
    hlive, ?_⟩
  rintro ⟨sid, c, hc, -, um, hum, -, hev⟩
  unfold loginBeforeChange at hc
  split at hc
  · cases hc
    exact hverify um hum _ hev rfl
  · next sid hsid =>
    unfold loginAndChange at hc
    split at hc
    · exact hsid rfl
    · cases hc
    · cases hc

end sample

end FastapiStarter
