import FastapiStarter.Families

/-!
# The law of refresh tokens

`RefreshTokenHandler` decides from a flag of the record, an expiry and a flag of
the user.  The law says what these amount to: a token is good for one refresh, as
long as nobody has ended its session.  The invariant that ties the flags to the
history is `Ledger`; its central field says that a record is unrevoked exactly
when the history leaves its token alive.

## Main definitions

* `Alive`, `MayRefresh` — the law.
* `Ledger` — the flags and the history agree.

## Main results

* `Ledger.step` — one step keeps the agreement.
* `refresh_iff_mayRefresh` — **a refresh succeeds exactly when the law allows it.**
-/

namespace FastapiStarter

open Relational

section laws

variable [Unicode]

/-! ### The law -/

/-- Nothing in the history has ended the session of `t`. -/
structure Alive (env : Env) (h : List Entry) (t : Token) : Prop where
  /-- The token was not refreshed. -/
  unspent : ¬ Refreshed h t
  /-- No token of its family was given to a logout, or presented again. -/
  clean : ∀ t', SameFamily h t t' → ¬ Spoiled env h t'
  /-- The password of its user has not changed since. -/
  password : ¬ PasswordChangedSince h t

/-- `t` has not expired: `decode` accepts it at this reading of the clock, and the
expiry stored with it is later than the next reading. -/
structure Unexpired (env : Env) (w : World) (t : Token) : Prop where
  accepted : Accepts env w t
  stored : ∀ m ∈ w.db.refreshTokens.rows, IssuedFor env w t m →
    env.clock (w.ticks + 1) < asUtc m.expiresAt

/-- The history allows a refresh of `t`. -/
structure MayRefresh (env : Env) (h : List Entry) (w : World) (t : Token) : Prop
    extends Alive env h t where
  handedOut : HandedOut h t
  unexpired : Unexpired env w t
  active : ∃ m ∈ w.db.users.rows, t.IsFor m.id ∧ m.isActive = true

/-! ### The ledger -/

/-- A token of the family `f` was given to a logout, or presented again. -/
def FamilySpoiled (env : Env) (h : List Entry) (w : World) (f : UUID) : Prop :=
  ∃ m ∈ w.db.refreshTokens.rows, m.familyId = f ∧ ∃ t, IssuedFor env w t m ∧ Spoiled env h t

/-- What the flags say and what the history says agree. -/
structure Ledger (env : Env) (h : List Entry) (w : World) : Prop where
  issuance : Issuance env w
  /-- What was handed out has a record. -/
  handedOut : ∀ t, HandedOut h t → ∃ m ∈ w.db.refreshTokens.rows, IssuedFor env w t m
  /-- What has a record was handed out. -/
  recorded : ∀ m ∈ w.db.refreshTokens.rows, ∀ t, IssuedFor env w t m → HandedOut h t
  /-- The history speaks of issued tokens only. -/
  known : ∀ t, Refreshed h t ∨ Spoiled env h t → t ∈ w.issued
  /-- A rotation stays in the family. -/
  rotated : ∀ t t', Rotated h t t' → ∀ m ∈ w.db.refreshTokens.rows,
    ∀ m' ∈ w.db.refreshTokens.rows, IssuedFor env w t m → IssuedFor env w t' m' →
      m.familyId = m'.familyId
  /-- A family comes from one login. -/
  root : ∀ m ∈ w.db.refreshTokens.rows, ∃ root, LoggedIn h root ∧
    ∀ m' ∈ w.db.refreshTokens.rows, m'.familyId = m.familyId → ∀ t, IssuedFor env w t m' →
      Descends h root t
  /-- Beside an unrevoked record, every token of the family is spent. -/
  newest : ∀ m ∈ w.db.refreshTokens.rows, ∀ m' ∈ w.db.refreshTokens.rows,
    m.familyId = m'.familyId → m.revokedAt = none → m' = m ∨ ∀ t, IssuedFor env w t m' →
      Refreshed h t
  /-- A record is unrevoked exactly when its token is alive. -/
  live : ∀ m ∈ w.db.refreshTokens.rows, ∀ t, IssuedFor env w t m → (m.revokedAt = none ↔
    ¬ Refreshed h t ∧ ¬ FamilySpoiled env h w m.familyId ∧ ¬ PasswordChangedSince h t)

section ledger

variable {env : Env} {h : List Entry} {w : World} {t t' : Token} {m m' : RefreshTokenModel}

theorem IssuedFor.eq (hfor : IssuedFor env w t m) (hfor' : IssuedFor env w t m')
    (hm : m ∈ w.db.refreshTokens.rows) (hm' : m' ∈ w.db.refreshTokens.rows) : m = m' :=
  w.db.refreshTokens.eq_of_key_eq hm hm' (hfor.jti_eq hfor').1

/-- Rotations lead from records to records of the same family. -/
theorem Ledger.familyId_of_descends (hl : Ledger env h w) (hd : Descends h t t')
    (hm : m ∈ w.db.refreshTokens.rows) (hm' : m' ∈ w.db.refreshTokens.rows)
    (hfor : IssuedFor env w t m) (hfor' : IssuedFor env w t' m') : m.familyId = m'.familyId := by
  induction hd generalizing m' with
  | refl => rw [hfor.eq hfor' hm hm']
  | @tail t₁ t₂ hd hrot ih =>
    have hout : HandedOut h t₁ := by
      rcases hd.cases_tail with rfl | ⟨t₀, -, hrot'⟩
      · exact hl.recorded m hm _ hfor
      · exact .inr ⟨t₀, hrot'⟩
    obtain ⟨m₁, hm₁, hfor₁⟩ := hl.handedOut t₁ hout
    exact (ih hm₁ hfor₁).trans (hl.rotated t₁ t₂ hrot m₁ hm₁ m' hm' hfor₁ hfor')

/-- **The chain of rotations that one login started is the stored family.** -/
theorem Ledger.sameFamily_iff (hl : Ledger env h w) (hm : m ∈ w.db.refreshTokens.rows)
    (hm' : m' ∈ w.db.refreshTokens.rows) (hfor : IssuedFor env w t m)
    (hfor' : IssuedFor env w t' m') : SameFamily h t t' ↔ m.familyId = m'.familyId := by
  constructor
  · rintro ⟨root, hroot, hd, hd'⟩
    obtain ⟨m₀, hm₀, hfor₀⟩ := hl.handedOut root (.inl hroot)
    exact (hl.familyId_of_descends hd hm₀ hm hfor₀ hfor).symm.trans
      (hl.familyId_of_descends hd' hm₀ hm' hfor₀ hfor')
  · intro hff
    obtain ⟨root, hroot, hall⟩ := hl.root m hm
    exact ⟨root, hroot, hall m hm rfl t hfor, hall m' hm' hff.symm t' hfor'⟩

omit [Unicode] in
theorem handedOut_of_sameFamily (hsame : SameFamily h t t') : HandedOut h t' := by
  obtain ⟨root, hroot, -, hd⟩ := hsame
  rcases hd.cases_tail with rfl | ⟨t₀, -, hrot⟩
  · exact .inl hroot
  · exact .inr ⟨t₀, hrot⟩

/-- What the history says of the family, read off the table. -/
theorem Ledger.familySpoiled_iff (hl : Ledger env h w) (hm : m ∈ w.db.refreshTokens.rows)
    (hfor : IssuedFor env w t m) :
    FamilySpoiled env h w m.familyId ↔ ∃ t', SameFamily h t t' ∧ Spoiled env h t' := by
  constructor
  · rintro ⟨m', hm', hff, t', hfor', hspoiled⟩
    exact ⟨t', (hl.sameFamily_iff hm hm' hfor hfor').mpr hff.symm, hspoiled⟩
  · rintro ⟨t', hsame, hspoiled⟩
    obtain ⟨m', hm', hfor'⟩ := hl.handedOut t' (handedOut_of_sameFamily hsame)
    exact ⟨m', hm', ((hl.sameFamily_iff hm hm' hfor hfor').mp hsame).symm, t', hfor', hspoiled⟩

/-- **A record is unrevoked exactly when its token is alive.** -/
theorem Ledger.live_iff_alive (hl : Ledger env h w) (hm : m ∈ w.db.refreshTokens.rows)
    (hfor : IssuedFor env w t m) : m.revokedAt = none ↔ Alive env h t := by
  rw [hl.live m hm t hfor, hl.familySpoiled_iff hm hfor]
  constructor
  · rintro ⟨hspent, hclean, hpassword⟩
    exact ⟨hspent, fun t' hsame hspoiled => hclean ⟨t', hsame, hspoiled⟩, hpassword⟩
  · rintro ⟨hspent, hclean, hpassword⟩
    exact ⟨hspent, fun ⟨t', hsame, hspoiled⟩ => hclean t' hsame hspoiled, hpassword⟩

/-- The checks of the handler are what the law asks for. -/
theorem Ledger.refreshChecks_iff (hw : Settled env w) (hl : Ledger env h w) :
    (∃ p m u, RefreshChecks env w t p m u) ↔ MayRefresh env h w t := by
  constructor
  · rintro ⟨p, m, u, hc⟩
    -- what the handler has checked is what the history says of the token
    obtain ⟨hm, hfor, hp⟩ := hl.issuance.presents hc.toPresents
    have hsubject := hc.subject
    rw [hp, UserId.fromStr_str] at hsubject
    have huser : m.userId = u.id.value := congrArg UserId.value (Except.ok.inj hsubject)
    refine ⟨(hl.live_iff_alive hm hfor).mp hc.live, hl.recorded m hm t hfor,
      ⟨⟨p, hc.decoded⟩, fun m' hm' hfor' => ?_⟩, UserMapper.toModel u, hc.user, ?_, hc.active⟩
    · rw [← hfor.eq hfor' hm hm']
      exact hc.unexpired
    · have := hfor.subject
      rwa [huser] at this
  · intro hmay
    -- a token that was handed out has its record
    obtain ⟨m, hm, hfor⟩ := hl.handedOut t hmay.handedOut
    obtain ⟨um, hum, hisFor, hactive⟩ := hmay.active
    obtain ⟨u, rfl⟩ := hw.readable um hum
    have huser : m.userId = u.id.value := congrArg UserId.value
      (UserId.str_injective (Option.some.inj (hfor.subject.symm.trans hisFor)))
    refine ⟨_, m, u, hfor.presents hmay.unexpired.accepted hm,
      (hl.live_iff_alive hm hfor).mpr hmay.toAlive, hmay.unexpired.stored m hm hfor, ?_, hum,
      hactive⟩
    rw [UserId.fromStr_str, huser]

end ledger

/-! ### One step -/

section step

variable {env : Env} {h : List Entry} {e : Entry} {t t' : Token} {m r : RefreshTokenModel}
  {p : RefreshTokenModel → Bool} {at' : Instant} {new : List RefreshTokenModel} {n : ℕ}

omit [Unicode] in
/-- A record kept has the token it had. -/
theorem Issuance.before {w w' : World} (hi : Issuance env w) (hticks : w.ticks ≤ w'.ticks)
    (hm : m ∈ w.db.refreshTokens.rows) (hfor : IssuedFor env w' t (m.revokeIf p at')) :
    IssuedFor env w t m := by
  obtain ⟨t₀, -, hfor₀⟩ := hi.stored m hm
  rwa [← (hfor₀.revokeIf hticks p at').token_eq hfor]

omit [Unicode] in
@[simp] theorem handedOut_cons : HandedOut (e :: h) t ↔
    (e.LogsIn t ∨ ∃ t', e.Rotates t' t) ∨ HandedOut h t := by
  simp only [HandedOut, loggedIn_cons, rotated_cons, exists_or]
  tauto

omit [Unicode] in
/-- A silent entry changes nothing of the past of tokens. -/
theorem Silent.past (hs : Silent e) : (∀ t, LoggedIn (e :: h) t ↔ LoggedIn h t) ∧
    (∀ t t', Rotated (e :: h) t t' ↔ Rotated h t t') := by
  constructor
  · intro t
    rw [loggedIn_cons, or_iff_right fun hlog => hs.handsOut t hlog.2]
  · intro t t'
    rw [rotated_cons, or_iff_right fun hrot => hs.handsOut t' hrot.2]

omit [Unicode] in
theorem descends_congr {h' : List Entry} (hrot : ∀ t t', Rotated h' t t' ↔ Rotated h t t') :
    Descends h' = Descends h := by
  have : Rotated h' = Rotated h := funext fun t => funext fun t' => propext (hrot t t')
  rw [Descends, this, Descends]

theorem mem_issued_of_spoils (hs : e.Spoils env h t) : t ∈ e.before.issued := by
  obtain ⟨⟨p, hp⟩, -⟩ := hs
  exact mem_issued_of_decode hp

/-- How the history of a family grows with one entry. -/
theorem familySpoiled_cons (hi : Issuance env e.before) (hticks : e.before.ticks ≤ e.after.ticks)
    (hrows : e.before.db.Extends e.after.db p at' new)
    (hnew : ∀ r ∈ new, ∀ t, IssuedFor env e.after t r → ¬ Spoiled env (e :: h) t) (f : UUID) :
    FamilySpoiled env (e :: h) e.after f ↔ FamilySpoiled env h e.before f ∨
      ∃ m ∈ e.before.db.refreshTokens.rows, m.familyId = f ∧
        ∃ t, IssuedFor env e.before t m ∧ e.Spoils env h t := by
  constructor
  · rintro ⟨m', hm', rfl, t, hfor, hspoiled⟩
    rcases hrows.mem_iff.mp hm' with ⟨m, hm, rfl⟩ | hm'
    · have hfor' := hi.before hticks hm hfor
      rw [RefreshTokenModel.familyId_revokeIf]
      rcases spoiled_cons.mp hspoiled with hspoils | hspoiled
      · exact .inr ⟨m, hm, rfl, t, hfor', hspoils⟩
      · exact .inl ⟨m, hm, rfl, t, hfor', hspoiled⟩
    · exact absurd hspoiled (hnew m' hm' t hfor)
  · rintro (⟨m, hm, rfl, t, hfor, hspoiled⟩ | ⟨m, hm, rfl, t, hfor, hspoils⟩)
    · exact ⟨_, hrows.kept hm, by simp, t, hfor.revokeIf hticks p at',
        spoiled_cons.mpr (.inr hspoiled)⟩
    · exact ⟨_, hrows.kept hm, by simp, t, hfor.revokeIf hticks p at',
        spoiled_cons.mpr (.inl hspoils)⟩

/-- A silent entry keeps the ledger, if it revokes what it should. -/
theorem Ledger.silent (hl : Ledger env h e.before) (he : Step env e)
    (hrows : e.before.db.Extends e.after.db p at' []) (hs : Silent e)
    (hlive : ∀ m ∈ e.before.db.refreshTokens.rows, ∀ t, IssuedFor env e.before t m →
      ((m.revokeIf p at').revokedAt = none ↔ ¬ Refreshed h t ∧
        ¬ FamilySpoiled env (e :: h) e.after m.familyId ∧ ¬ PasswordChangedSince (e :: h) t)) :
    Ledger env (e :: h) e.after := by
  obtain ⟨hlogged, hrot⟩ := hs.past (h := h)
  have hhanded : ∀ t, HandedOut (e :: h) t ↔ HandedOut h t := fun t => by
    simp only [HandedOut, hlogged, hrot]
  have hrefreshed : ∀ t, Refreshed (e :: h) t ↔ Refreshed h t := fun t => by
    simp only [Refreshed, hrot]
  -- no row is new, and the tokens of the old ones are the same
  have hmem : ∀ m ∈ e.after.db.refreshTokens.rows,
      ∃ m₀ ∈ e.before.db.refreshTokens.rows, m₀.revokeIf p at' = m := by
    intro m hm
    simpa using hrows.mem_iff.mp hm
  have hback : ∀ m ∈ e.before.db.refreshTokens.rows, ∀ t, IssuedFor env e.after t
      (m.revokeIf p at') → IssuedFor env e.before t m :=
    fun m hm t hfor => hl.issuance.before he.ticks hm hfor
  -- the fields of the ledger, in order
  refine ⟨hl.issuance.step he, ?_, ?_, ?_, ?_, ?_, ?_, ?_⟩
  · intro t ht
    obtain ⟨m, hm, hfor⟩ := hl.handedOut t ((hhanded t).mp ht)
    exact ⟨_, hrows.kept hm, hfor.revokeIf he.ticks p at'⟩
  · intro m hm t hfor
    obtain ⟨m₀, hm₀, rfl⟩ := hmem m hm
    exact (hhanded t).mpr (hl.recorded m₀ hm₀ t (hback m₀ hm₀ t hfor))
  · intro t ht
    rw [hs.issued]
    rcases ht with ht | ht
    · exact hl.known t (.inl ((hrefreshed t).mp ht))
    · rcases spoiled_cons.mp ht with ht | ht
      · exact mem_issued_of_spoils ht
      · exact hl.known t (.inr ht)
  · intro t t' htt m hm m' hm' hfor hfor'
    obtain ⟨m₀, hm₀, rfl⟩ := hmem m hm
    obtain ⟨m₀', hm₀', rfl⟩ := hmem m' hm'
    simpa using hl.rotated t t' ((hrot t t').mp htt) m₀ hm₀ m₀' hm₀' (hback m₀ hm₀ t hfor)
      (hback m₀' hm₀' t' hfor')
  · intro m hm
    obtain ⟨m₀, hm₀, rfl⟩ := hmem m hm
    obtain ⟨root, hroot, hall⟩ := hl.root m₀ hm₀
    refine ⟨root, (hlogged root).mpr hroot, fun m' hm' hff t hfor => ?_⟩
    obtain ⟨m₀', hm₀', rfl⟩ := hmem m' hm'
    rw [descends_congr hrot]
    exact hall m₀' hm₀' (by simpa using hff) t (hback m₀' hm₀' t hfor)
  · intro m hm m' hm' hff hnone
    obtain ⟨m₀, hm₀, rfl⟩ := hmem m hm
    obtain ⟨m₀', hm₀', rfl⟩ := hmem m' hm'
    rw [RefreshTokenModel.revokedAt_revokeIf] at hnone
    rcases hl.newest m₀ hm₀ m₀' hm₀' (by simpa using hff) hnone.1 with rfl | hspent
    · exact .inl rfl
    · exact .inr fun t hfor => (hrefreshed t).mpr (hspent t (hback m₀' hm₀' t hfor))
  · intro m hm t hfor
    obtain ⟨m₀, hm₀, rfl⟩ := hmem m hm
    rw [hrefreshed, RefreshTokenModel.familyId_revokeIf]
    exact hlive m₀ hm₀ t (hback m₀ hm₀ t hfor)

omit [Unicode] in
theorem passwordChangedSince_of_not (hchange : ∀ u, ¬ e.ChangesPassword u) :
    PasswordChangedSince (e :: h) t ↔ PasswordChangedSince h t := by
  rw [passwordChangedSince_cons, or_iff_right]
  rintro ⟨-, u, -, hu⟩
  exact hchange u hu

/-- An entry without effect on the tokens. -/
theorem Ledger.idle (hl : Ledger env h e.before) (he : Step env e)
    (hrows : e.before.db.Extends e.after.db (fun _ => false) 0 []) (hs : Silent e)
    (hchange : ∀ u, ¬ e.ChangesPassword u)
    (hlogout : ∀ t, e.action = .command (.logout ⟨t⟩) → Unknown env e.before t)
    (hrefresh : ∀ t p m, e.action = .command (.refreshToken ⟨t⟩) → Presents env e.before t p m →
      m.revokedAt = none) : Ledger env (e :: h) e.after := by
  refine hl.silent he hrows hs fun m hm t hfor => ?_
  -- a token that `decode` accepted and that has a record was neither revoked nor given to a logout
  have hspoils : ∀ m' ∈ e.before.db.refreshTokens.rows, ∀ t', IssuedFor env e.before t' m' →
      ¬ e.Spoils env h t' := by
    rintro m' hm' t' hfor' ⟨haccepts, haction | ⟨haction, hspent⟩⟩
    · exact hlogout t' haction _ _ (hfor'.presents haccepts hm')
    · have hnone := hrefresh t' _ _ haction (hfor'.presents haccepts hm')
      exact ((hl.live m' hm' t' hfor').mp hnone).1 hspent
  have hfamily : FamilySpoiled env (e :: h) e.after m.familyId ↔
      FamilySpoiled env h e.before m.familyId := by
    rw [familySpoiled_cons hl.issuance he.ticks hrows (by simp), or_iff_left]
    rintro ⟨m', hm', -, t', hfor', hspoils'⟩
    exact hspoils m' hm' t' hfor' hspoils'
  rw [RefreshTokenModel.revokedAt_revokeIf, hfamily, passwordChangedSince_of_not hchange,
    and_iff_left rfl]
  exact hl.live m hm t hfor

/-- A logout, or the reuse of a revoked record. -/
theorem Ledger.killed (hl : Ledger env h e.before) (he : Step env e) {payload : TokenPayload}
    (haction : e.action = .command (.logout ⟨t⟩) ∨
      e.action = .command (.refreshToken ⟨t⟩) ∧ m.revokedAt ≠ none)
    (hp : Presents env e.before t payload m) (hs : Silent e)
    (hrows : e.before.db.Extends e.after.db (Scope.family m.familyId).selects at' []) :
    Ledger env (e :: h) e.after := by
  obtain ⟨hm, hfor, -⟩ := hl.issuance.presents hp
  have hchange : ∀ u, ¬ e.ChangesPassword u := by
    rintro u ⟨c, hc, -⟩
    rcases haction with ha | ⟨ha, -⟩ <;> simp [ha] at hc
  have htoken : ∀ t', e.Spoils env h t' → t' = t := by
    rintro t' ⟨-, ha' | ⟨ha', -⟩⟩ <;> rcases haction with ha | ⟨ha, -⟩ <;> simp_all
  have hfamily : ∀ f, FamilySpoiled env (e :: h) e.after f ↔ FamilySpoiled env h e.before f ∨
      m.familyId = f ∧ e.Spoils env h t := by
    intro f
    rw [familySpoiled_cons hl.issuance he.ticks hrows (by simp)]
    refine or_congr_right ⟨?_, ?_⟩
    · rintro ⟨m', hm', rfl, t', hfor', hspoils⟩
      obtain rfl := htoken t' hspoils
      exact ⟨by rw [hfor.eq hfor' hm hm'], hspoils⟩
    · rintro ⟨rfl, hspoils⟩
      exact ⟨m, hm, rfl, t, hfor, hspoils⟩
  refine hl.silent he hrows hs fun m₁ hm₁ t₁ hfor₁ => ?_
  rw [RefreshTokenModel.revokedAt_revokeIf, hl.live m₁ hm₁ t₁ hfor₁, hfamily,
    passwordChangedSince_of_not hchange]
  by_cases hspoils : e.Spoils env h t
  · by_cases hff : m.familyId = m₁.familyId
    · -- every record of the family is revoked, and the family has ended
      simp only [hff, hspoils, and_self, or_true, not_true_eq_false, false_and, and_false,
        iff_false]
      rintro ⟨halive, hselects⟩
      have hnone := (hl.live m₁ hm₁ t₁ hfor₁).mpr halive
      simp [Scope.selects, hnone] at hselects
    · have hselects : (Scope.family m.familyId).selects m₁ = false := by
        simp [Scope.selects, Ne.symm hff]
      simp [hff, hselects]
  · -- a revoked record that was not refreshed: no record of the family is unrevoked
    simp only [hspoils, and_false, or_false]
    refine and_iff_left_of_imp fun halive => ?_
    have hnone := (hl.live m₁ hm₁ t₁ hfor₁).mpr halive
    have hrevoked : m.revokedAt ≠ none ∧ ¬ Refreshed h t := by
      have haccepts : Accepts env e.before t := ⟨payload, hp.decoded⟩
      rcases haction with ha | ⟨ha, hrevoked⟩
      · exact absurd ⟨haccepts, .inl ha⟩ hspoils
      · exact ⟨hrevoked, fun hspent => hspoils ⟨haccepts, .inr ⟨ha, hspent⟩⟩⟩
    have hne : m₁.familyId ≠ m.familyId := by
      intro hff
      rcases hl.newest m₁ hm₁ m hm hff hnone with rfl | hspent
      · exact hrevoked.1 hnone
      · exact hrevoked.2 (hspent t hfor)
    simp [Scope.selects, hne]

/-- A password change. -/
theorem Ledger.changed (hl : Ledger env h e.before) (he : Step env e) {c : ChangePasswordCommand}
    (haction : e.action = .command (.changePassword c)) (hok : e.result = .ok .none)
    (hs : Silent e)
    (hrows : e.before.db.Extends e.after.db (Scope.user c.userId).selects at' []) :
    Ledger env (e :: h) e.after := by
  refine hl.silent he hrows hs fun m hm t hfor => ?_
  have hspoils : ∀ t', ¬ e.Spoils env h t' := by
    rintro t' ⟨-, ha | ⟨ha, -⟩⟩ <;> simp [haction] at ha
  have hfamily : FamilySpoiled env (e :: h) e.after m.familyId ↔
      FamilySpoiled env h e.before m.familyId := by
    rw [familySpoiled_cons hl.issuance he.ticks hrows (by simp), or_iff_left]
    rintro ⟨-, -, -, t', -, hspoils'⟩
    exact hspoils t' hspoils'
  -- it counts as changed for the tokens of this user
  have hpassword : PasswordChangedSince (e :: h) t ↔
      m.userId = c.userId ∨ PasswordChangedSince h t := by
    rw [passwordChangedSince_cons]
    refine or_congr_left ⟨?_, fun huser => ⟨hl.recorded m hm t hfor, c.userId, ?_, c, haction, hok,
      rfl⟩⟩
    · rintro ⟨-, u, hu, c', hc', -, rfl⟩
      obtain rfl : c = c' := by simpa [haction] using hc'
      exact congrArg UserId.value (UserId.str_injective
        (Option.some.inj (hfor.subject.symm.trans hu)))
    · rw [← huser]
      exact hfor.subject
  rw [RefreshTokenModel.revokedAt_revokeIf, hfamily, hpassword]
  -- a record is unrevoked if it was, and is of another user
  constructor
  · rintro ⟨hnone, hselects⟩
    obtain ⟨hspent, hclean, hsince⟩ := (hl.live m hm t hfor).mp hnone
    refine ⟨hspent, hclean, not_or.mpr ⟨fun huser => ?_, hsince⟩⟩
    simp [Scope.selects, huser, hnone] at hselects
  · rintro ⟨hspent, hclean, hsince⟩
    obtain ⟨huser, hsince⟩ := not_or.mp hsince
    exact ⟨(hl.live m hm t hfor).mpr ⟨hspent, hclean, hsince⟩, by simp [Scope.selects, huser]⟩

omit [Unicode] in
/-- An entry that issues hands out one token more. -/
theorem Issues.handedOut_cons (hissues : Issues env e n r t)
    (haction : (∃ c, e.action = .command (.login c)) ∨ ∃ t₀, e.action = .command (.refreshToken t₀))
    (x : Token) : HandedOut (e :: h) x ↔ x = t ∨ HandedOut h x := by
  rw [FastapiStarter.handedOut_cons]
  refine or_congr_left ⟨?_, ?_⟩
  · rintro (hlog | ⟨t₀, hrot⟩)
    · exact (hissues.handsOut x).mp hlog.2
    · exact (hissues.handsOut x).mp hrot.2
  · intro hx
    have hout := (hissues.handsOut x).mpr hx
    rcases haction with hlog | ⟨⟨t₀⟩, hrot⟩
    · exact .inl ⟨hlog, hout⟩
    · exact .inr ⟨t₀, hrot, hout⟩

theorem Issues.not_issuedFor (he : Step env e) (hissues : Issues env e n r t)
    (hjti : ∀ m ∈ e.before.db.refreshTokens.rows, m.jti ≠ r.jti)
    (hm : m ∈ e.before.db.refreshTokens.rows) : ¬ IssuedFor env e.before t m := fun hfor =>
  hjti m hm ((hfor.mono he.ticks rfl rfl rfl).jti_eq hissues.issuedFor).1

theorem Issues.not_mem_issued (hi : Issuance env e.before) (he : Step env e)
    (hissues : Issues env e n r t)
    (hjti : ∀ m ∈ e.before.db.refreshTokens.rows, m.jti ≠ r.jti) : t ∉ e.before.issued := by
  intro ht
  rcases hi.issued t ht with ⟨m, hm, hfor⟩ | ⟨k, -, userId, id, haccess⟩
  · exact hissues.not_issuedFor he hjti hm hfor
  · rw [hissues.token] at haccess
    exact refreshToken_ne_accessToken _ _ _ _ _ _ _ haccess

/-- An entry that issues a token keeps the ledger, if it puts the record in the
right family and revokes what it should. -/
theorem Ledger.issue (hl : Ledger env h e.before) (he : Step env e)
    (hrows : e.before.db.Extends e.after.db p at' [r]) (hissues : Issues env e n r t)
    (hjti : ∀ m ∈ e.before.db.refreshTokens.rows, m.jti ≠ r.jti)
    (haction : (∃ c, e.action = .command (.login c)) ∨ ∃ t₀, e.action = .command (.refreshToken t₀))
    (hspoils : ∀ x, ¬ e.Spoils env h x) (hspent : ∀ x, Refreshed (e :: h) x → x ∈ e.before.issued)
    (hrotated : ∀ x y, Rotated (e :: h) x y → ∀ m ∈ e.after.db.refreshTokens.rows,
      ∀ m' ∈ e.after.db.refreshTokens.rows, IssuedFor env e.after x m → IssuedFor env e.after y m' →
        m.familyId = m'.familyId)
    (hroot : ∀ m ∈ e.after.db.refreshTokens.rows, ∃ root, LoggedIn (e :: h) root ∧
      ∀ m' ∈ e.after.db.refreshTokens.rows, m'.familyId = m.familyId → ∀ x,
        IssuedFor env e.after x m' → Descends (e :: h) root x)
    (hnewest : ∀ m ∈ e.after.db.refreshTokens.rows, ∀ m' ∈ e.after.db.refreshTokens.rows,
      m.familyId = m'.familyId → m.revokedAt = none → m' = m ∨ ∀ x, IssuedFor env e.after x m' →
        Refreshed (e :: h) x)
    (hfamily : ¬ FamilySpoiled env h e.before r.familyId)
    (hlive : ∀ m ∈ e.before.db.refreshTokens.rows, ∀ x, IssuedFor env e.before x m →
      ((m.revokeIf p at').revokedAt = none ↔ ¬ Refreshed (e :: h) x ∧
        ¬ FamilySpoiled env h e.before m.familyId ∧ ¬ PasswordChangedSince h x)) :
    Ledger env (e :: h) e.after := by
  have hchange : ∀ u, ¬ e.ChangesPassword u := by
    rintro u ⟨c, hc, -⟩
    rcases haction with ⟨c', ha⟩ | ⟨t₀, ha⟩ <;> simp [ha] at hc
  have hnew := hissues.not_mem_issued hl.issuance he hjti
  have hr : r ∈ e.after.db.refreshTokens.rows := hrows.mem_iff.mpr (.inr (by simp))
  have hspoiled : ∀ x, Spoiled env (e :: h) x ↔ Spoiled env h x := fun x => by
    rw [spoiled_cons, or_iff_right (hspoils x)]
  -- the entry spoils no token
  have hfamily' : ∀ f, FamilySpoiled env (e :: h) e.after f ↔ FamilySpoiled env h e.before f := by
    intro f
    rw [familySpoiled_cons hl.issuance he.ticks hrows, or_iff_left]
    · rintro ⟨-, -, -, x, -, hx⟩
      exact hspoils x hx
    · intro r' hr' x hfor hx
      obtain rfl := List.mem_singleton.mp hr'
      rw [hfor.token_eq hissues.issuedFor, hspoiled] at hx
      exact hnew (hl.known t (.inr hx))
  have hmem : ∀ m ∈ e.after.db.refreshTokens.rows, m = r ∨
      ∃ m₀ ∈ e.before.db.refreshTokens.rows, m₀.revokeIf p at' = m := by
    intro m hm
    rcases hrows.mem_iff.mp hm with hold | hm
    · exact .inr hold
    · exact .inl (List.mem_singleton.mp hm)
  -- in each field, the new token and the old ones
  refine ⟨hl.issuance.step he, ?_, ?_, ?_, hrotated, hroot, hnewest, ?_⟩
  · intro x hx
    rcases (hissues.handedOut_cons haction x).mp hx with rfl | hx
    · exact ⟨r, hr, hissues.issuedFor⟩
    · obtain ⟨m, hm, hfor⟩ := hl.handedOut x hx
      exact ⟨_, hrows.kept hm, hfor.revokeIf he.ticks p at'⟩
  · intro m hm x hfor
    rw [hissues.handedOut_cons haction]
    rcases hmem m hm with rfl | ⟨m₀, hm₀, rfl⟩
    · exact .inl (hfor.token_eq hissues.issuedFor)
    · exact .inr (hl.recorded m₀ hm₀ x (hl.issuance.before he.ticks hm₀ hfor))
  · intro x hx
    obtain ⟨k, -, id, hissued⟩ := hissues.issued
    rw [hissued]
    refine List.mem_cons_of_mem _ (List.mem_cons_of_mem _ ?_)
    rcases hx with hx | hx
    · exact hspent x hx
    · exact hl.known x (.inr ((hspoiled x).mp hx))
  · intro m hm x hfor
    rw [hfamily', passwordChangedSince_of_not hchange]
    rcases hmem m hm with rfl | ⟨m₀, hm₀, rfl⟩
    · -- nothing is known yet of the new token
      obtain rfl := hfor.token_eq hissues.issuedFor
      refine iff_of_true hissues.live ⟨fun hx => hnew (hspent x hx), hfamily, ?_⟩
      rintro ⟨newer, older, rfl, hout, -⟩
      obtain ⟨m₀, hm₀, hfor₀⟩ := hl.handedOut x (hout.append newer)
      exact hissues.not_issuedFor he hjti hm₀ hfor₀
    · rw [RefreshTokenModel.familyId_revokeIf]
      exact hlive m₀ hm₀ x (hl.issuance.before he.ticks hm₀ hfor)

/-- A login. -/
theorem Ledger.opened (hl : Ledger env h e.before) (he : Step env e) {c : LoginCommand}
    (hrows : e.before.db.Extends e.after.db (fun _ => false) 0 [r])
    (haction : e.action = .command (.login c)) (hissues : Issues env e n r t)
    (hjti : ∀ m ∈ e.before.db.refreshTokens.rows, m.jti ≠ r.jti)
    (hfresh : ∀ m ∈ e.before.db.refreshTokens.rows, m.familyId ≠ r.familyId) :
    Ledger env (e :: h) e.after := by
  have hrot : ∀ x y, Rotated (e :: h) x y ↔ Rotated h x y := fun x y => by
    rw [rotated_cons, or_iff_right]
    rintro ⟨ha, -⟩
    simp [haction] at ha
  have hrefreshed : ∀ x, Refreshed (e :: h) x ↔ Refreshed h x := fun x => by
    simp only [Refreshed, hrot]
  have hspoils : ∀ x, ¬ e.Spoils env h x := by
    rintro x ⟨-, ha | ⟨ha, -⟩⟩ <;> simp [haction] at ha
  have hmem : ∀ m ∈ e.after.db.refreshTokens.rows, m = r ∨ m ∈ e.before.db.refreshTokens.rows := by
    intro m hm
    rcases hrows.mem_iff.mp hm with ⟨m₀, hm₀, rfl⟩ | hm
    · exact .inr (by simpa [RefreshTokenModel.revokeIf] using hm₀)
    · exact .inl (List.mem_singleton.mp hm)
  have hback : ∀ m ∈ e.before.db.refreshTokens.rows, ∀ x, IssuedFor env e.after x m →
      IssuedFor env e.before x m := by
    intro m hm x hfor
    obtain ⟨x₀, -, hfor₀⟩ := hl.issuance.stored m hm
    rwa [← (hfor₀.mono he.ticks rfl rfl rfl).token_eq hfor]
  -- the new record is alone in its family
  have hother : ∀ m ∈ e.after.db.refreshTokens.rows, m.familyId = r.familyId → m = r := by
    intro m hm hff
    exact (hmem m hm).resolve_right fun hold => hfresh m hold hff
  -- a login refreshes nothing, and its token is the root of the new family
  refine hl.issue he hrows hissues hjti (.inl ⟨c, haction⟩) hspoils ?_ ?_ ?_ ?_ ?_ ?_
  · exact fun x hx => hl.known x (.inl ((hrefreshed x).mp hx))
  · intro x y hxy m hm m' hm' hfor hfor'
    have hxy := (hrot x y).mp hxy
    rcases hmem m hm with rfl | hm
    · obtain rfl := hfor.token_eq hissues.issuedFor
      exact absurd (hl.known x (.inl ⟨y, hxy⟩)) (hissues.not_mem_issued hl.issuance he hjti)
    · rcases hmem m' hm' with rfl | hm'
      · obtain rfl := hfor'.token_eq hissues.issuedFor
        obtain ⟨m₀, hm₀, hfor₀⟩ := hl.handedOut y (.inr ⟨x, hxy⟩)
        exact absurd hfor₀ (hissues.not_issuedFor he hjti hm₀)
      · exact hl.rotated x y hxy m hm m' hm' (hback m hm x hfor) (hback m' hm' y hfor')
  · intro m hm
    rcases hmem m hm with rfl | hm
    · refine ⟨t, loggedIn_cons.mpr (.inl ⟨⟨c, haction⟩, (hissues.handsOut t).mpr rfl⟩),
        fun m' hm' hff x hfor => ?_⟩
      obtain rfl := hother m' hm' hff
      rw [hfor.token_eq hissues.issuedFor]
      exact .refl
    · obtain ⟨root, hroot, hall⟩ := hl.root m hm
      refine ⟨root, loggedIn_cons.mpr (.inr hroot), fun m' hm' hff x hfor => ?_⟩
      rw [descends_congr hrot]
      rcases hmem m' hm' with rfl | hm'
      · exact absurd hff.symm (hfresh m hm)
      · exact hall m' hm' hff x (hback m' hm' x hfor)
  · intro m hm m' hm' hff hnone
    rcases hmem m hm with rfl | hm
    · exact .inl (hother m' hm' hff.symm)
    · rcases hmem m' hm' with rfl | hm'
      · exact absurd hff (hfresh m hm)
      · refine (hl.newest m hm m' hm' hff hnone).imp_right fun hspent x hfor => ?_
        exact (hrefreshed x).mpr (hspent x (hback m' hm' x hfor))
  · rintro ⟨m, hm, hff, -⟩
    exact hfresh m hm hff
  · intro m hm x hfor
    rw [RefreshTokenModel.revokedAt_revokeIf, and_iff_left rfl, hrefreshed]
    exact hl.live m hm x hfor

/-- A refresh: `t`, whose record is `m`, is replaced by `t'`, whose record is `r`. -/
structure Renewal (env : Env) (e : Entry) (payload : TokenPayload) (u : User)
    (m r : RefreshTokenModel) (at' : Instant) (n : ℕ) (t t' : Token) : Prop where
  action : e.action = .command (.refreshToken ⟨t⟩)
  checks : RefreshChecks env e.before t payload m u
  issues : Issues env e n r t'
  rows : e.before.db.Extends e.after.db (fun m' => m'.jti = m.jti) at' [r]
  family : r.familyId = m.familyId
  fresh : ∀ m ∈ e.before.db.refreshTokens.rows, m.jti ≠ r.jti

namespace Renewal

variable {payload : TokenPayload} {u : User} {x y : Token} {m' : RefreshTokenModel}
  (hn : Renewal env e payload u m r at' n t t')

include hn

theorem rotates_iff : e.Rotates x y ↔ x = t ∧ y = t' := by
  simp only [Entry.Rotates, hn.action, hn.issues.handsOut, Action.command.injEq,
    Command.refreshToken.injEq, RefreshTokenCommand.mk.injEq]
  exact and_congr_left' eq_comm

theorem rotated_iff : Rotated (e :: h) x y ↔ x = t ∧ y = t' ∨ Rotated h x y := by
  rw [rotated_cons, hn.rotates_iff]

theorem refreshed_iff : Refreshed (e :: h) x ↔ x = t ∨ Refreshed h x := by
  rw [refreshed_cons]
  simp [hn.rotates_iff]

theorem loggedIn_iff : LoggedIn (e :: h) x ↔ LoggedIn h x := by
  rw [loggedIn_cons, or_iff_right]
  rintro ⟨⟨c, ha⟩, -⟩
  simp [hn.action] at ha

/-- A record is the new one, or an old one. -/
theorem mem_after (hm' : m' ∈ e.after.db.refreshTokens.rows) :
    m' = r ∨ ∃ m₀ ∈ e.before.db.refreshTokens.rows,
      m₀.revokeIf (fun m' => m'.jti = m.jti) at' = m' := by
  rcases hn.rows.mem_iff.mp hm' with hold | hm'
  · exact .inr hold
  · exact .inl (List.mem_singleton.mp hm')

variable (hl : Ledger env h e.before)

include hl

theorem alive : ¬ Refreshed h t ∧ ¬ FamilySpoiled env h e.before m.familyId ∧
    ¬ PasswordChangedSince h t := by
  obtain ⟨hm, hfor, -⟩ := hl.issuance.presents hn.checks.toPresents
  exact (hl.live m hm t hfor).mp hn.checks.live

theorem not_spoils : ¬ e.Spoils env h x := by
  rintro ⟨-, ha | ⟨ha, hspent⟩⟩
  · simp [hn.action] at ha
  · obtain rfl : t = x := by simpa [hn.action] using ha
    exact (hn.alive hl).1 hspent

theorem mem_issued (hx : Refreshed (e :: h) x) : x ∈ e.before.issued := by
  rcases hn.refreshed_iff.mp hx with rfl | hx
  · exact mem_issued_of_decode hn.checks.decoded
  · exact hl.known x (.inl hx)

variable (he : Step env e)

include he

/-- The record of an old token is an old one. -/
theorem record_of_issued (hx : x ∈ e.before.issued) (hm' : m' ∈ e.after.db.refreshTokens.rows)
    (hfor' : IssuedFor env e.after x m') : ∃ m₀ ∈ e.before.db.refreshTokens.rows,
      IssuedFor env e.before x m₀ ∧ m₀.familyId = m'.familyId := by
  rcases hn.mem_after hm' with rfl | ⟨m₀, hm₀, rfl⟩
  · rw [hfor'.token_eq hn.issues.issuedFor] at hx
    exact absurd hx (hn.issues.not_mem_issued hl.issuance he hn.fresh)
  · exact ⟨m₀, hm₀, hl.issuance.before he.ticks hm₀ hfor', by simp⟩

/-- The record of the new token is the new one. -/
theorem record_of_new (hm' : m' ∈ e.after.db.refreshTokens.rows)
    (hfor' : IssuedFor env e.after t' m') : m' = r := by
  rcases hn.mem_after hm' with rfl | ⟨m₀, hm₀, rfl⟩
  · rfl
  · exact absurd (hl.issuance.before he.ticks hm₀ hfor') (hn.issues.not_issuedFor he hn.fresh hm₀)

/-- A rotated token and its successor are in one family. -/
theorem rotated (hxy : Rotated (e :: h) x y) {m₁ m₂ : RefreshTokenModel}
    (hm₁ : m₁ ∈ e.after.db.refreshTokens.rows) (hm₂ : m₂ ∈ e.after.db.refreshTokens.rows)
    (hfor₁ : IssuedFor env e.after x m₁) (hfor₂ : IssuedFor env e.after y m₂) :
    m₁.familyId = m₂.familyId := by
  obtain ⟨hm, hfor, -⟩ := hl.issuance.presents hn.checks.toPresents
  obtain ⟨m₁', hm₁', hfor₁', hff⟩ := hn.record_of_issued hl he (hn.mem_issued hl ⟨y, hxy⟩) hm₁ hfor₁
  rcases hn.rotated_iff.mp hxy with ⟨rfl, rfl⟩ | hxy
  · rw [hn.record_of_new hl he hm₂ hfor₂, hn.family, ← hff, hfor.eq hfor₁' hm hm₁']
  · obtain ⟨m₀, hm₀, hfor₀⟩ := hl.handedOut y (.inr ⟨x, hxy⟩)
    have hy : y ≠ t' := by
      rintro rfl
      exact hn.issues.not_issuedFor he hn.fresh hm₀ hfor₀
    rcases hn.mem_after hm₂ with rfl | ⟨m₂', hm₂', rfl⟩
    · exact absurd (hfor₂.token_eq hn.issues.issuedFor) hy
    · rw [RefreshTokenModel.familyId_revokeIf, ← hff]
      exact hl.rotated x y hxy m₁' hm₁' m₂' hm₂' hfor₁' (hl.issuance.before he.ticks hm₂' hfor₂)

/-- The family still descends from one login. -/
theorem root {m₁ : RefreshTokenModel} (hm₁ : m₁ ∈ e.after.db.refreshTokens.rows) :
    ∃ root, LoggedIn (e :: h) root ∧ ∀ m₂ ∈ e.after.db.refreshTokens.rows,
      m₂.familyId = m₁.familyId → ∀ x, IssuedFor env e.after x m₂ →
        Descends (e :: h) root x := by
  obtain ⟨hm, hfor, -⟩ := hl.issuance.presents hn.checks.toPresents
  obtain ⟨m₀, hm₀, hff₀⟩ : ∃ m₀ ∈ e.before.db.refreshTokens.rows, m₀.familyId = m₁.familyId := by
    rcases hn.mem_after hm₁ with rfl | ⟨m₀, hm₀, rfl⟩
    · exact ⟨m, hm, hn.family.symm⟩
    · exact ⟨m₀, hm₀, by simp⟩
  obtain ⟨root, hroot, hall⟩ := hl.root m₀ hm₀
  have hmono : ∀ x, Descends h root x → Descends (e :: h) root x := fun x hx =>
    Relation.ReflTransGen.mono (fun a b hab => rotated_cons.mpr (.inr hab)) _ _ hx
  refine ⟨root, hn.loggedIn_iff.mpr hroot, fun m₂ hm₂ hff x hfor₂ => ?_⟩
  rcases hn.mem_after hm₂ with rfl | ⟨m₂', hm₂', rfl⟩
  · -- the new token descends through the one it replaces
    rw [hfor₂.token_eq hn.issues.issuedFor]
    have hff' : m.familyId = m₀.familyId := (hn.family.symm.trans hff).trans hff₀.symm
    exact (hmono t (hall m hm hff' t hfor)).tail (hn.rotated_iff.mpr (.inl ⟨rfl, rfl⟩))
  · rw [RefreshTokenModel.familyId_revokeIf] at hff
    exact hmono x (hall m₂' hm₂' (hff.trans hff₀.symm) x (hl.issuance.before he.ticks hm₂' hfor₂))

/-- An unrevoked record is the newest of its family. -/
theorem newest {m₁ m₂ : RefreshTokenModel} (hm₁ : m₁ ∈ e.after.db.refreshTokens.rows)
    (hm₂ : m₂ ∈ e.after.db.refreshTokens.rows) (hff : m₁.familyId = m₂.familyId)
    (hnone : m₁.revokedAt = none) :
    m₂ = m₁ ∨ ∀ x, IssuedFor env e.after x m₂ → Refreshed (e :: h) x := by
  obtain ⟨hm, hfor, -⟩ := hl.issuance.presents hn.checks.toPresents
  -- each of the two is the new record, or one that was there
  rcases hn.mem_after hm₁ with rfl | ⟨m₁', hm₁', rfl⟩ <;>
    rcases hn.mem_after hm₂ with rfl | ⟨m₂', hm₂', rfl⟩
  · exact .inl rfl
  · refine .inr fun x hfor₂ => hn.refreshed_iff.mpr ?_
    have hfor₂' := hl.issuance.before he.ticks hm₂' hfor₂
    rw [hn.family, RefreshTokenModel.familyId_revokeIf] at hff
    rcases hl.newest m hm m₂' hm₂' hff hn.checks.live with rfl | hspent
    · exact .inl (hfor₂'.token_eq hfor)
    · exact .inr (hspent x hfor₂')
  · -- a second unrevoked record beside the one rotated: there is none
    rw [RefreshTokenModel.revokedAt_revokeIf] at hnone
    rw [hn.family, RefreshTokenModel.familyId_revokeIf] at hff
    rcases hl.newest m hm m₁' hm₁' hff.symm hn.checks.live with rfl | hspent
    · simp at hnone
    · obtain ⟨x, -, hfor₁⟩ := hl.issuance.stored m₁' hm₁'
      exact absurd (hspent x hfor₁) ((hl.live m₁' hm₁' x hfor₁).mp hnone.1).1
  · rw [RefreshTokenModel.revokedAt_revokeIf] at hnone
    rw [RefreshTokenModel.familyId_revokeIf, RefreshTokenModel.familyId_revokeIf] at hff
    rcases hl.newest m₁' hm₁' m₂' hm₂' hff hnone.1 with rfl | hspent
    · exact .inl rfl
    · refine .inr fun x hfor₂ => hn.refreshed_iff.mpr (.inr ?_)
      exact hspent x (hl.issuance.before he.ticks hm₂' hfor₂)

omit he in
/-- Of the old records, the one of `t` is revoked. -/
theorem live {m₁ : RefreshTokenModel} (hm₁ : m₁ ∈ e.before.db.refreshTokens.rows)
    (hfor₁ : IssuedFor env e.before x m₁) :
    (m₁.revokeIf (fun m' => m'.jti = m.jti) at').revokedAt = none ↔ ¬ Refreshed (e :: h) x ∧
      ¬ FamilySpoiled env h e.before m₁.familyId ∧ ¬ PasswordChangedSince h x := by
  obtain ⟨hm, hfor, -⟩ := hl.issuance.presents hn.checks.toPresents
  have hsame : m₁.jti = m.jti ↔ x = t := by
    constructor
    · intro hj
      obtain rfl := e.before.db.refreshTokens.eq_of_key_eq hm₁ hm hj
      exact hfor₁.token_eq hfor
    · rintro rfl
      exact (hfor₁.jti_eq hfor).1
  rw [RefreshTokenModel.revokedAt_revokeIf, hl.live m₁ hm₁ x hfor₁, hn.refreshed_iff,
    decide_eq_false_iff_not, hsame, not_or]
  tauto

end Renewal

/-- A refresh. -/
theorem Ledger.rotate (hl : Ledger env h e.before) (he : Step env e) {payload : TokenPayload}
    {u : User} (hn : Renewal env e payload u m r at' n t t') : Ledger env (e :: h) e.after := by
  refine hl.issue he hn.rows hn.issues hn.fresh (.inr ⟨_, hn.action⟩) (fun x => hn.not_spoils hl)
    (fun x hx => hn.mem_issued hl hx) ?_ ?_ ?_ ?_ ?_
  · exact fun x y hxy m₁ hm₁ m₂ hm₂ hfor₁ hfor₂ => hn.rotated hl he hxy hm₁ hm₂ hfor₁ hfor₂
  · exact fun m₁ hm₁ => hn.root hl he hm₁
  · exact fun m₁ hm₁ m₂ hm₂ hff hnone => hn.newest hl he hm₁ hm₂ hff hnone
  · rw [hn.family]
    exact (hn.alive hl).2.1
  · exact fun m₁ hm₁ x hfor₁ => hn.live hl hm₁ hfor₁

theorem Ledger.initial : Ledger env [] .initial := by
  refine ⟨.initial, ?_, ?_, ?_, ?_, ?_, ?_, ?_⟩ <;>
    simp [World.initial, Database.empty, HandedOut, LoggedIn, Rotated, Refreshed, Spoiled]

/-- **One step keeps flags and history in agreement.** -/
theorem Ledger.step (hw : Settled env e.before) (hfresh : env.NoRepeat e.after.ids)
    (he : Step env e) (hl : Ledger env h e.before) : Ledger env (e :: h) e.after := by
  have hjti : ∀ {n r t}, Issues env e n r t → ∀ m ∈ e.before.db.refreshTokens.rows, m.jti ≠ r.jti :=
    fun hr m hm => hr.jti ▸ hfresh.ne hr.ids le_rfl (hw.jtis m hm)
  cases he.effect with
  | idle hrows hs hchange hlogout hrefresh => exact hl.idle he hrows hs hchange hlogout hrefresh
  | opened n r t haction hissues hfamily hids hrows =>
    refine hl.opened he hrows haction hissues (hjti hissues) fun m hm => ?_
    rw [hfamily]
    exact hfresh.ne hids (Nat.le_succ _) (hw.families m hm)
  | rotated n r t' at' haction hchecks hissues hfamily huser hrows =>
    exact hl.rotate he ⟨haction, hchecks, hissues, hrows, hfamily, hjti hissues⟩
  | killed haction hp hs hrows => exact hl.killed he haction hp hs hrows
  | changed haction hok hs hrows => exact hl.changed he haction hok hs hrows

theorem ledger_of_run {w : World} (hrun : Run env h w) : Ledger env h w :=
  hrun.invariant (Ledger env) .initial fun _ _ hw hfresh he hl => hl.step hw hfresh he

/-- **A refresh succeeds exactly when the history allows it**, and raises
`InvalidTokenError` or its subclass `TokenExpiredError` otherwise. -/
theorem refresh_iff_mayRefresh {w : World} (hrun : Run env h w) (t : Token)
    (hfresh : env.NoRepeat (execute env (.refreshToken ⟨t⟩) w).2.ids) :
    ((∃ p, (execute env (.refreshToken ⟨t⟩) w).1 = .ok (.tokenPair p)) ↔ MayRefresh env h w t) ∧
      (¬ MayRefresh env h w t → ∃ e : DomainError,
        (execute env (.refreshToken ⟨t⟩) w).1 = .error (.domain e) ∧ e.IsInvalidToken) := by
  have hchecks := (ledger_of_run hrun).refreshChecks_iff (t := t) hrun.settled
  have hout := refresh_outcome hrun.settled ⟨t⟩ hfresh
  rw [← hchecks]
  generalize (execute env (.refreshToken ⟨t⟩) w).2 = w' at hout
  generalize (execute env (.refreshToken ⟨t⟩) w).1 = r at hout ⊢
  cases hout with
  | refused hno _ he => exact ⟨by simp [hno], fun _ => ⟨_, rfl, he⟩⟩
  | replayed hp hrevoked =>
    refine ⟨⟨by simp, ?_⟩, fun _ => ⟨_, rfl, trivial⟩⟩
    rintro ⟨p, m, u, hc⟩
    obtain ⟨rfl, rfl⟩ := hp.eq hc.toPresents
    exact absurd hc.live hrevoked
  | rotated hc _ => exact ⟨iff_of_true ⟨_, rfl⟩ ⟨_, _, _, hc⟩, fun hno => absurd ⟨_, _, _, hc⟩ hno⟩

end step

end laws

attribute [local instance] asciiUnicode in
/-- After the sample login, the history allows a refresh of the token handed out. -/
theorem refresh_iff_mayRefresh_sample :
    MayRefresh sampleEnv sampleHistory loggedInWorld sampleToken :=
  (refresh_iff_mayRefresh run_sampleHistory sampleToken (by decide)).1.mp ⟨_, rfl⟩

end FastapiStarter
