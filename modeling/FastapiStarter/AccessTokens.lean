import FastapiStarter.Families
import FastapiStarter.Passwords
import FastapiStarter.TokenKinds

/-!
# What a bearer token still opens

No record is kept of an access token.  `get_current_user` takes it for what it says
until it expires, and looks the user up: the history of a run decides which tokens
open an account, and nothing that ends a session of refresh tokens has a part in it.

## Main definitions

* `GrantedTo` — a token was handed out, and its user not deactivated since.
* `MayAccess` — it has not expired either.
* `CurrentUserOutcome` — the ways `get_current_user` ends.
* `Bearers` — the table and the tokens issued, against the history.

## Main results

* `bearers_of_run` — the table and the history agree throughout a run.
* `access_until_deactivation` — **an access token opens the account of its user until
  it expires or the user is deactivated**, whatever else happens.
-/

namespace FastapiStarter

open Interaction Relational

section law

variable [Unicode]

/-! ### The past of an access token -/

namespace Entry

/-- The entry handed out `t` as the access token of its response. -/
def GrantsAccess (e : Entry) (t : Token) : Prop :=
  ∃ p, e.result = .ok (.tokenPair p) ∧ p.accessToken = t

/-- The entry deactivates a user. -/
def Deactivates (e : Entry) (userId : UUID) : Prop := e.action = .deactivate userId

end Entry

/-- `t` was handed out as an access token. -/
def Granted (h : List Entry) (t : Token) : Prop := ∃ e ∈ h, e.GrantsAccess t

/-- `t` was handed out as an access token, and the user has not been deactivated since. -/
def GrantedTo (h : List Entry) (t : Token) (userId : UUID) : Prop :=
  ∃ newer e older, h = newer ++ e :: older ∧ e.GrantsAccess t ∧
    ∀ e' ∈ newer, ¬ e'.Deactivates userId

/-- The whole second at which a token expires has not been reached. -/
def Token.Unexpired (now : Instant) : Token → Prop
  | .signed _ _ c => now < c.exp * 1000000
  | .other _ => False

instance (now : Instant) : (t : Token) → Decidable (t.Unexpired now)
  | .signed _ _ c => inferInstanceAs (Decidable (now < c.exp * 1000000))
  | .other _ => inferInstanceAs (Decidable False)

/-- **The law**: the token was handed out for the user, who has not been deactivated
since, and it has not expired. -/
def MayAccess (h : List Entry) (now : Instant) (t : Token) (userId : UUID) : Prop :=
  t.IsFor userId ∧ GrantedTo h t userId ∧ t.Unexpired now

section cons

variable {e : Entry} {h : List Entry} {t : Token} {userId : UUID}

omit [Unicode] in
@[simp] theorem granted_cons : Granted (e :: h) t ↔ e.GrantsAccess t ∨ Granted h t := by
  simp [Granted]

omit [Unicode] in
@[simp] theorem grantedTo_cons : GrantedTo (e :: h) t userId ↔
    e.GrantsAccess t ∨ ¬ e.Deactivates userId ∧ GrantedTo h t userId := by
  constructor
  · rintro ⟨newer, e', older, heq, hgrants, hnewer⟩
    rcases List.cons_eq_append_iff.mp heq with ⟨rfl, heq'⟩ | ⟨newer', rfl, rfl⟩
    · obtain ⟨rfl, rfl⟩ := List.cons.inj heq'
      exact .inl hgrants
    · refine .inr ⟨hnewer e (by simp), newer', e', older, rfl, hgrants, ?_⟩
      intro e'' he''
      exact hnewer e'' (List.mem_cons_of_mem _ he'')
  · rintro (hgrants | ⟨hno, newer, e', older, rfl, hgrants, hnewer⟩)
    · exact ⟨[], e, h, rfl, hgrants, by simp⟩
    · refine ⟨e :: newer, e', older, rfl, hgrants, fun e'' he'' => ?_⟩
      rcases List.mem_cons.mp he'' with rfl | he''
      · exact hno
      · exact hnewer e'' he''

omit [Unicode] in
theorem GrantedTo.granted (hg : GrantedTo h t userId) : Granted h t := by
  obtain ⟨newer, e, older, rfl, hgrants, -⟩ := hg
  exact ⟨e, by simp, hgrants⟩

end cons

/-! ### The dependency -/

/-- The checks of `get_current_user`. -/
structure AccessChecks (env : Env) (w : World) (t : Token) (p : TokenPayload) (u : User) :
    Prop where
  decoded : w.decode env t = .ok p
  type : p.tokenType = .access
  subject : UserId.fromStr p.subject = .ok u.id
  stored : UserMapper.toModel u ∈ w.db.users.rows
  active : u.isActive = true

/-- The ways `get_current_user` ends. -/
inductive CurrentUserOutcome (env : Env) (w : World) (t : Token) : Except Exc User → Prop
  | refused {e : DomainError} : (∀ p u, ¬ AccessChecks env w t p u) → e.IsInvalidToken →
    CurrentUserOutcome env w t (.error (.domain e))
  /-- The user of the token is active. -/
  | resolved {p : TokenPayload} {u : User} : AccessChecks env w t p u →
    CurrentUserOutcome env w t (.ok u)

variable {env : Env} {w : World} {t : Token}

/-- The dependency, in a session of its own. -/
theorem getCurrentUser_outcome (hw : Settled env w) (sid : ℕ) (t : Token) :
    (getCurrentUser t).Ends (exec env sid) (.empty, w)
      fun r x => CurrentUserOutcome env w t r ∧ Unchanged w x.2 := by
  have htick : Unchanged w w.tick := .tick w
  simp only [getCurrentUser, Prog.op_bind, Prog.ends_call, exec]
  rcases hdecode : w.decode env t with e | p
  · refine ⟨.refused (fun p u hu => ?_) (World.decode_error hdecode), htick⟩
    cases hdecode.symm.trans hu.decoded
  -- what the checks of a token say is said of this payload
  have hpayload : ∀ {p' u}, AccessChecks env w t p' u → p' = p :=
    fun hu => Except.ok.inj (hu.decoded.symm.trans hdecode)
  simp only [ofDomain]
  split
  · next htype =>
    refine ⟨.refused (fun p' u hu => htype ?_) trivial, htick⟩
    rw [← hpayload hu]
    exact hu.type
  next htype =>
  split
  · next e hsubject =>
    refine ⟨.refused (fun p' u hu => ?_) trivial, htick⟩
    obtain rfl := hpayload hu
    cases hsubject.symm.trans hu.subject
  next userId hsubject =>
  -- a user who passes the checks is the one looked up
  have hget : ∀ {p' u}, AccessChecks env w t p' u →
      w.db.users.get userId.value = some (UserMapper.toModel u) := by
    intro p' u hu
    obtain rfl := hpayload hu
    obtain rfl : u.id = userId := Except.ok.inj (hu.subject.symm.trans hsubject)
    exact Table.get_key hu.stored
  have hview : w.tick.view sid = w.db := World.view_of_nil (w := w.tick) hw.statements sid
  simp only [Prog.ends_call, exec, hview, Session.getUser_empty]
  rcases hx : w.db.users.get userId.value with _ | m
  · refine ⟨.refused (fun p' u hu => ?_) trivial, htick⟩
    cases hx.symm.trans (hget hu)
  obtain ⟨hm, hid⟩ := Table.get_eq_some.mp hx
  obtain ⟨u, rfl⟩ := hw.readable m hm
  simp only [Option.map_some, userOfModel, UserMapper.toDomain_toModel, ofDomain, Except.map]
  -- the pending events of an aggregate are not stored
  have hchecks : AccessChecks env w t p { u with events := [] } ↔ u.isActive = true := by
    refine ⟨fun hu => hu.active, fun hactive => ⟨hdecode, ?_, ?_, hm, hactive⟩⟩
    · exact not_not.mp htype
    · rw [hsubject]
      exact congrArg _ (UserId.ext hid.symm)
  split
  · next hactive =>
    refine ⟨.refused (fun p' u' hu => ?_) trivial, htick⟩
    have hsame : UserMapper.toModel u = UserMapper.toModel u' :=
      Option.some.inj (hx.symm.trans (hget hu))
    have hactive' : u.isActive = u'.isActive := congrArg UserModel.isActive hsame
    simp [hactive', hu.active] at hactive
  · next hactive =>
    exact ⟨.resolved (hchecks.mpr (by simpa using hactive)), htick⟩

/-! ### One entry -/

/-- The effect of one entry on the access tokens. -/
inductive AccessEffect (env : Env) (e : Entry) : Prop
  | silent : Silent e → AccessEffect env e
  /-- One is issued, together with a refresh token, to an active user. -/
  | grants {m : UserModel} (n k : ℕ) (jti id : UUID) : k < e.after.ticks →
    m ∈ e.after.db.users.rows → m.isActive = true →
    e.after.issued = env.accessToken (env.clock k) m.id id ::
      (env.refreshToken (env.clock n) m.id jti).token :: e.before.issued →
    (∀ t, e.GrantsAccess t ↔ t = env.accessToken (env.clock k) m.id id) → AccessEffect env e

section step

variable {e : Entry}

omit [Unicode] in
/-- An entry that hands out no refresh token hands out no access token either. -/
theorem Silent.not_grantsAccess (h : Silent e) (t : Token) : ¬ e.GrantsAccess t := by
  rintro ⟨p, hp, -⟩
  exact h.handsOut p.refreshToken ⟨p, hp, rfl⟩

/-- Only a login and a refresh issue tokens. -/
theorem TokenEffect.silent (h : TokenEffect env e) (hlogin : ∀ c, e.action ≠ .command (.login c))
    (hrefresh : ∀ t, e.action ≠ .command (.refreshToken ⟨t⟩)) : Silent e := by
  cases h with
  | idle _ hsilent => exact hsilent
  | opened _ _ _ haction => exact absurd haction (hlogin _)
  | rotated _ _ _ _ haction => exact absurd haction (hrefresh _)
  | killed _ _ hsilent => exact hsilent
  | changed _ _ hsilent => exact hsilent

/-- A command leaves every user there, as active as before. -/
theorem UserEffect.kept {c : Command} (h : UserEffect env e) (hc : e.action = .command c)
    {m : UserModel} (hm : m ∈ e.before.db.users.rows) :
    ∃ m' ∈ e.after.db.users.rows, m'.id = m.id ∧ m'.isActive = m.isActive := by
  cases h with
  | idle hrows => exact ⟨m, by rwa [hrows], rfl, rfl⟩
  | created _ _ _ _ _ _ _ hrows =>
    exact ⟨m, by rw [hrows]; exact List.mem_append_left _ hm, rfl, rfl⟩
  | changed _ _ hrows =>
    rw [hrows]
    exact ⟨_, List.mem_map_of_mem hm, by dsimp only; split <;> rfl, by dsimp only; split <;> rfl⟩
  | deactivated haction => cases hc.symm.trans haction

/-- **What a command does to the access tokens.** -/
theorem accessEffect_execute (hw : Settled env w) (c : Command)
    (hfresh : env.NoRepeat (execute env c w).2.ids) :
    AccessEffect env ⟨w, .command c, (execute env c w).1, (execute env c w).2⟩ := by
  have hstep := (step_execute hw c hfresh).1
  cases c with
  | createUser c => exact .silent (hstep.effect.silent (by simp) (by simp))
  | login c =>
    have hout := login_outcome hw c hfresh
    generalize (execute env (.login c) w).2 = w' at hout ⊢
    generalize (execute env (.login c) w).1 = r at hout ⊢
    cases hout with
    | refused _ hsame => exact .silent (silent_of_error hsame)
    | opened haccepts _ =>
      refine .grants w.ticks (w.ticks + 1) _ _ (Nat.lt_succ_self _) haccepts.stored
        haccepts.active rfl fun t => ?_
      simp [Entry.GrantsAccess, UserMapper.toModel, eq_comm]
  | refreshToken c =>
    have hout := refresh_outcome hw c hfresh
    generalize (execute env (.refreshToken c) w).2 = w' at hout ⊢
    generalize (execute env (.refreshToken c) w).1 = r at hout ⊢
    cases hout with
    | refused _ _ _ hsame => exact .silent (silent_of_error hsame)
    | replayed => exact .silent ⟨rfl, by simp [Entry.HandsOut]⟩
    | rotated hchecks _ =>
      refine .grants (w.ticks + 2) (w.ticks + 3) _ _ (Nat.lt_succ_self _) hchecks.user
        hchecks.active rfl fun t => ?_
      simp [Entry.GrantsAccess, UserMapper.toModel, eq_comm]
  | logout c => exact .silent (hstep.effect.silent (by simp) (by simp))
  | changePassword c => exact .silent (hstep.effect.silent (by simp) (by simp))

end step

/-! ### The table and the history -/

/-- The access tokens issued are those handed out; their users are stored, and active
as long as they have not been deactivated since. -/
structure Bearers (env : Env) (h : List Entry) (w : World) : Prop where
  shown : ∀ n userId id, env.accessToken (env.clock n) userId id ∈ w.issued →
    Granted h (env.accessToken (env.clock n) userId id)
  issued : ∀ t userId, Granted h t → t.IsFor userId → t ∈ w.issued ∧
    ∃ n < w.ticks, ∃ id, t = env.accessToken (env.clock n) userId id
  users : ∀ t userId, Granted h t → t.IsFor userId →
    ∃ m ∈ w.db.users.rows, m.id = userId ∧ (m.isActive = true ↔ GrantedTo h t userId)

section bearers

variable {h : List Entry} {userId : UUID}

theorem isFor_accessToken {n : Instant} {id userId' : UUID}
    (hfor : (env.accessToken n userId id).IsFor userId') : userId = userId' :=
  congrArg UserId.value (UserId.str_injective (Option.some.inj hfor))

omit [Unicode] in
theorem Bearers.initial : Bearers env [] .initial := by
  constructor <;> simp [Granted, World.initial]

/-- **A command keeps the table and the history in agreement.** -/
theorem Bearers.command (hb : Bearers env h w) (hw : Settled env w) (c : Command)
    (hfresh : env.NoRepeat (execute env c w).2.ids) :
    Bearers env (⟨w, .command c, (execute env c w).1, (execute env c w).2⟩ :: h)
      (execute env c w).2 := by
  have hstep := (step_execute hw c hfresh).1
  have heffect := accessEffect_execute hw c hfresh
  generalize he : (⟨w, .command c, (execute env c w).1, (execute env c w).2⟩ : Entry) = e at *
  obtain rfl : w = e.before := by rw [← he]
  obtain hafter : (execute env c e.before).2 = e.after := by rw [← he]
  have haction : e.action = .command c := by rw [← he]
  rw [hafter]
  have hno : ∀ userId, ¬ e.Deactivates userId := by
    rintro userId hd
    cases haction.symm.trans hd
  -- the user of an older token is kept, and so is the law
  have hold : ∀ t userId, ¬ e.GrantsAccess t → Granted h t → t.IsFor userId →
      ∃ m ∈ e.after.db.users.rows, m.id = userId ∧
        (m.isActive = true ↔ GrantedTo (e :: h) t userId) := by
    intro t userId hnew hgranted hfor
    obtain ⟨m, hm, hid, hactive⟩ := hb.users t userId hgranted hfor
    obtain ⟨m', hm', hid', hactive'⟩ := hstep.users.kept haction hm
    refine ⟨m', hm', hid'.trans hid, ?_⟩
    rw [hactive', hactive, grantedTo_cons, or_iff_right hnew, and_iff_right (hno userId)]
  cases heffect with
  | silent hsilent =>
    have hgranted : ∀ t, Granted (e :: h) t ↔ Granted h t := fun t =>
      granted_cons.trans (or_iff_right (hsilent.not_grantsAccess t))
    refine ⟨fun n userId id ht => ?_, fun t userId ht hfor => ?_, fun t userId ht hfor => ?_⟩
    · rw [hsilent.issued] at ht
      exact (hgranted _).mpr (hb.shown n userId id ht)
    · obtain ⟨hissued, n, hn, id, rfl⟩ := hb.issued t userId ((hgranted t).mp ht) hfor
      exact ⟨by rwa [hsilent.issued], n, hn.trans_le hstep.ticks, id, rfl⟩
    · exact hold t userId (hsilent.not_grantsAccess t) ((hgranted t).mp ht) hfor
  | @grants m n k jti id hk hm hactive hissued hgrants =>
    refine ⟨fun n' userId' id' ht => ?_, fun t userId' ht hfor => ?_, fun t userId' ht hfor => ?_⟩
    · rw [hissued, List.mem_cons, List.mem_cons] at ht
      rcases ht with ht | ht | ht
      · exact granted_cons.mpr (.inl ((hgrants _).mpr ht))
      · exact absurd ht.symm (refreshToken_ne_accessToken _ _ _ _ _ _ _)
      · exact granted_cons.mpr (.inr (hb.shown n' userId' id' ht))
    · rcases granted_cons.mp ht with ht | ht
      · obtain rfl := (hgrants t).mp ht
        obtain rfl := isFor_accessToken hfor
        exact ⟨by simp [hissued], k, hk, id, rfl⟩
      · obtain ⟨hissued', n', hn', id', rfl⟩ := hb.issued t userId' ht hfor
        exact ⟨by simp [hissued, hissued'], n', hn'.trans_le hstep.ticks, id', rfl⟩
    · by_cases hnew : e.GrantsAccess t
      · obtain rfl := (hgrants t).mp hnew
        obtain rfl := isFor_accessToken hfor
        exact ⟨m, hm, rfl, iff_of_true hactive (grantedTo_cons.mpr (.inl hnew))⟩
      · exact hold t userId' hnew ((granted_cons.mp ht).resolve_left hnew) hfor

omit [Unicode] in
/-- So does a deactivation. -/
theorem Bearers.deactivate (hb : Bearers env h w) (userId : UUID) :
    Bearers env (⟨w, .deactivate userId, .ok .none, w.deactivate userId⟩ :: h)
      (w.deactivate userId) := by
  have hno : ∀ t, ¬ Entry.GrantsAccess
      ⟨w, .deactivate userId, .ok .none, w.deactivate userId⟩ t := by
    rintro t ⟨p, hp, -⟩
    cases hp
  refine ⟨fun n userId' id ht => ?_, fun t userId' ht hfor => ?_, fun t userId' ht hfor => ?_⟩
  · exact granted_cons.mpr (.inr (hb.shown n userId' id ht))
  · exact hb.issued t userId' ((granted_cons.mp ht).resolve_left (hno t)) hfor
  · obtain ⟨m, hm, rfl, hactive⟩ :=
      hb.users t userId' ((granted_cons.mp ht).resolve_left (hno t)) hfor
    refine ⟨_, List.mem_map_of_mem hm, by dsimp only; split <;> rfl, ?_⟩
    rw [grantedTo_cons, or_iff_right (hno t), ← hactive]
    by_cases hid : m.id = userId
    · subst hid
      simp [Entry.Deactivates]
    · have hother : ¬ Entry.Deactivates
          ⟨w, .deactivate userId, .ok .none, w.deactivate userId⟩ m.id :=
        fun hd => hid (Action.deactivate.inj hd).symm
      simp [hid, hother]

theorem bearers_of_run (hrun : Run env h w) : Bearers env h w := by
  induction hrun with
  | start => exact .initial
  | command c hrun hfresh ih => exact ih.command hrun.settled c hfresh
  | deactivate userId _ ih => exact ih.deactivate userId

/-- An access token that was issued decodes as long as it has not expired. -/
theorem decode_accessToken (hclock : env.Timely w.ticks) {n : ℕ} {id : UUID} (hn : n < w.ticks)
    (hissued : env.accessToken (env.clock n) userId id ∈ w.issued) :
    w.decode env (env.accessToken (env.clock n) userId id) =
        .ok ⟨(UserId.mk userId).str, .access, id⟩ ↔
      (env.accessToken (env.clock n) userId id).Unexpired (w.now env) := by
  have hexp : (env.accessToken (env.clock n) userId id).Unexpired (w.now env) ↔
      ¬ timestamp (env.clock n + JwtTokenService.accessLifetime env.settings) * 1000000 ≤
        env.clock w.ticks := not_le.symm
  -- it is looked at after the second in which it was issued
  have hiat : timestamp (env.clock n) * 1000000 ≤ env.clock w.ticks :=
    (timestamp_le (hclock.nonneg n hn.le) (hclock.fine n hn.le)).trans
      (hclock.mono n w.ticks hn.le le_rfl)
  unfold World.decode World.now at *
  rw [hexp, if_pos hissued, Env.accessToken, JwtTokenService.accessToken,
    JwtTokenService.decode_encoded _ hiat]
  split
  · next hle => exact iff_of_false (fun h => by cases h) (not_not.mpr hle)
  · next hle => exact iff_of_true rfl hle

/-- What `get_current_user` checks in the table is what the law asks of the history. -/
theorem Bearers.accessChecks_iff (hclock : env.Timely w.ticks) (hb : Bearers env h w)
    (hi : Issuance env w) (hw : Settled env w) :
    (∃ p u, AccessChecks env w t p u ∧ u.id.value = userId) ↔
      MayAccess h (w.now env) t userId := by
  constructor
  · rintro ⟨p, u, hu, rfl⟩
    have hissued := mem_issued_of_decode hu.decoded
    rcases hi.issued t hissued with ⟨m, -, n, -, rfl, -⟩ | ⟨n, hn, userId, id, rfl⟩
    · obtain rfl := eq_of_decode_encoded hu.decoded
      cases hu.type
    · obtain rfl := eq_of_decode_encoded hu.decoded
      have hid : UserId.mk userId = u.id :=
        Except.ok.inj ((UserId.fromStr_str ⟨userId⟩).symm.trans hu.subject)
      obtain rfl : userId = u.id.value := congrArg UserId.value hid
      have hgranted := hb.shown n _ id hissued
      obtain ⟨m, hm, hmid, hactive⟩ := hb.users _ _ hgranted rfl
      obtain rfl := w.db.users.eq_of_key_eq hm hu.stored hmid
      exact ⟨rfl, hactive.mp hu.active, (decode_accessToken hclock hn hissued).mp hu.decoded⟩
  · rintro ⟨hfor, hgranted, hnow⟩
    obtain ⟨hissued, n, hn, id, rfl⟩ := hb.issued t userId hgranted.granted hfor
    obtain ⟨m, hm, rfl, hactive⟩ := hb.users _ _ hgranted.granted hfor
    obtain ⟨u, rfl⟩ := hw.readable m hm
    exact ⟨_, u, ⟨(decode_accessToken hclock hn hissued).mpr hnow, rfl, UserId.fromStr_str _, hm,
      hactive.mpr hgranted⟩, rfl⟩

/-- **A bearer token opens the account of its user until it expires or the user is
deactivated**, and nothing else; the dependency changes nothing. -/
theorem access_until_deactivation (hdispatcher : env.dispatcher = eventDispatcher)
    (hclock : env.Timely w.ticks) (hrun : Run env h w) (sid : ℕ) (t : Token) :
    (getCurrentUser t).Ends (exec env sid) (.empty, w) fun r x =>
      (∀ userId, (∃ u, r = .ok u ∧ u.id.value = userId) ↔ MayAccess h (w.now env) t userId) ∧
      ((∀ userId, ¬ MayAccess h (w.now env) t userId) →
        ∃ e : DomainError, r = .error (.domain e) ∧ e.IsInvalidToken) ∧
      (∀ u, r = .ok u → Registered h u.email u.id.value) ∧ Unchanged w x.2 := by
  -- the checks of the dependency, in terms of the history
  have hlaw : ∀ userId, (∃ p u, AccessChecks env w t p u ∧ u.id.value = userId) ↔
      MayAccess h (w.now env) t userId := fun _ =>
    (bearers_of_run hrun).accessChecks_iff hclock (issuance_of_run hrun) hrun.settled
  have hout := getCurrentUser_outcome hrun.settled sid t
  unfold Prog.Ends at hout ⊢
  obtain ⟨hout, hsame⟩ := hout
  generalize ((getCurrentUser t).run (exec env sid) (.empty, w)).1 = r at hout ⊢
  -- the dependency refuses, or resolves the user that the checks name
  cases hout with
  | refused hno hinvalid =>
    refine ⟨fun userId => ?_, fun _ => ⟨_, rfl, hinvalid⟩, by simp, hsame⟩
    rw [← hlaw]
    constructor
    · rintro ⟨u, hu, -⟩
      cases hu
    · rintro ⟨p, u, hu, -⟩
      exact absurd hu (hno p u)
  | @resolved p u hu =>
    refine ⟨fun userId => ?_, fun hno => absurd ((hlaw _).mp ⟨p, u, hu, rfl⟩) (hno _), ?_, hsame⟩
    · rw [← hlaw]
      constructor
      · rintro ⟨u', hu', rfl⟩
        cases hu'
        exact ⟨p, u, hu, rfl⟩
      · rintro ⟨p', u', hu', rfl⟩
        obtain rfl : p' = p := Except.ok.inj (hu'.decoded.symm.trans hu.decoded)
        exact ⟨u, rfl, congrArg UserId.value (Except.ok.inj (hu.subject.symm.trans hu'.subject))⟩
    · rintro u' hu'
      cases hu'
      exact ((credentials_of_run hdispatcher hrun).registered _ _).mpr ⟨_, hu.stored, rfl, rfl⟩

end bearers

end law

section sample

attribute [local instance] asciiUnicode

/-- The access token that the sample login handed out. -/
def sampleAccessToken : Token :=
  sampleEnv.accessToken 2 (sampleEnv.uuid 0) (sampleEnv.uuid 3)

/-- The world in which the sample user has logged out again. -/
def signedOutWorld : World := (execute sampleEnv (.logout ⟨sampleToken⟩) loggedInWorld).2

/-- The token outlives the logout, and ends with the deactivation. -/
theorem access_until_deactivation_sample :
    (∃ u, ((getCurrentUser sampleAccessToken).run (exec sampleEnv 7)
        (.empty, signedOutWorld)).1 = .ok u ∧ u.id.value = sampleEnv.uuid 0) ∧
      ∃ e : DomainError, ((getCurrentUser sampleAccessToken).run (exec sampleEnv 7)
        (.empty, signedOutWorld.deactivate (sampleEnv.uuid 0))).1 = .error (.domain e) := by
  have hrun : Run sampleEnv _ signedOutWorld :=
    .command (.logout ⟨sampleToken⟩) run_sampleHistory (by decide)
  constructor
  · have hlaw := (access_until_deactivation rfl (timely_sampleEnv (by decide +kernel)) hrun 7
      sampleAccessToken).1
    refine (hlaw _).mpr ⟨rfl, ⟨[_], _, _, rfl, ⟨_, rfl, rfl⟩, ?_⟩, by decide +kernel⟩
    simp [Entry.Deactivates]
  · have hlaw := (access_until_deactivation rfl (timely_sampleEnv (by decide +kernel))
      (.deactivate (sampleEnv.uuid 0) hrun) 7 sampleAccessToken).2.1
    obtain ⟨e, he, -⟩ := hlaw (by
      rintro userId ⟨hfor, hgranted, -⟩
      obtain rfl := isFor_accessToken hfor
      rcases grantedTo_cons.mp hgranted with ⟨p, hp, -⟩ | ⟨hactive, -⟩
      · cases hp
      · exact hactive rfl)
    exact ⟨e, he⟩

end sample

end FastapiStarter
