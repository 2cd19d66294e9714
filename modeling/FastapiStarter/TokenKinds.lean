import FastapiStarter.Execution

/-!
# The two kinds of tokens

The dependency `get_current_user` and the two handlers that take a refresh token
share one decoder.  Decoding undoes issuing until the whole second of expiry, and
each consumer refuses the tokens of the other kind.

## Main definitions

* `getCurrentUser` — the dependency that resolves a bearer token.
* `DecodesUntil`, `IssuingLaw`, `Kinds` — what issuing and decoding, and the consumers,
  keep to.

## Main results

* `decode_undoes_issuing` — **decoding undoes issuing, and the kinds never mix.**
* `accepted_past_whole_second` — a token of the year 2514.
-/

namespace FastapiStarter

open Interaction

section kinds

variable [Unicode]

/-- `get_current_user`, for the credentials of the request. -/
def getCurrentUser (credentials : Token) : Handler User := do
  let payload ← port (.decode credentials)
  if payload.tokenType ≠ .access then
    raise .invalidToken
  else
    match UserId.fromStr payload.subject with
    -- `except ValidationError: raise InvalidTokenError from None`
    | .error _ => raise .invalidToken
    | .ok userId =>
      match ← port (.usersGetById userId) with
      | none => raise .invalidToken
      | some user => if !user.isActive then raise .invalidToken else return user

/-! ### Issuing and decoding -/

/-- At the instant `t`, `decode` gives back the payload of a token until the whole second
of its expiry. -/
structure DecodesUntil (settings : JwtSettings) (t : Instant) (token : Token)
    (payload : TokenPayload) (expiresAt : Instant) : Prop where
  decode : JwtTokenService.decode settings t token =
    if t < timestamp expiresAt * 1000000 then .ok payload else .error .tokenExpired
  floor : expiresAt < coarseFrom → timestamp expiresAt = expiresAt / 1000000
  /-- A coarse float may be the next second, if that is near. -/
  near : expiresAt / 1000000 ≤ timestamp expiresAt ∧
    timestamp expiresAt ≤ (expiresAt + 15) / 1000000

/-- What `decode` makes, at the instant `t`, of the tokens issued at the instant `n`. -/
structure IssuingLaw (settings : JwtSettings) (n t : Instant) (subject : Str) (id : UUID) :
    Prop where
  refresh : InRange (n + JwtTokenService.refreshLifetime settings) →
    ∃ issued, JwtTokenService.createRefreshToken settings n subject id = .ok issued ∧
      DecodesUntil settings t issued.token ⟨subject, .refresh, id⟩
        (n + JwtTokenService.refreshLifetime settings)
  access : InRange (n + JwtTokenService.accessLifetime settings) →
    ∃ token, JwtTokenService.createAccessToken settings n id subject = .ok token ∧
      DecodesUntil settings t token ⟨subject, .access, id⟩
        (n + JwtTokenService.accessLifetime settings)
  /-- Under another secret, issuer or audience neither is accepted. -/
  foreign : ∀ settings' : JwtSettings, settings'.secret ≠ settings.secret ∨
      settings'.issuer ≠ settings.issuer ∨ settings'.audience ≠ settings.audience →
    ∀ token, (∃ issued, JwtTokenService.createRefreshToken settings n subject id = .ok issued ∧
          issued.token = token) ∨
        JwtTokenService.createAccessToken settings n id subject = .ok token →
      ∃ e, JwtTokenService.decode settings' t token = .error e ∧ e.IsInvalidToken

/-- The consumers refuse the tokens of the other kind, whatever the state of the
application and whenever the token was issued. -/
structure Kinds (settings : JwtSettings) (n : Instant) (subject : Str) (id : UUID) : Prop where
  refresh : ∀ token, JwtTokenService.createAccessToken settings n id subject = .ok token →
    ∀ env w, ∃ e : DomainError, e.IsInvalidToken ∧
      (execute env (.refreshToken ⟨token⟩) w).1 = .error (.domain e)
  logout : ∀ token, JwtTokenService.createAccessToken settings n id subject = .ok token →
    ∀ env w, ∃ e : DomainError, e.IsInvalidToken ∧
      (execute env (.logout ⟨token⟩) w).1 = .error (.domain e)
  currentUser : ∀ issued, JwtTokenService.createRefreshToken settings n subject id = .ok issued →
    ∀ env sid x, ∃ e : DomainError, e.IsInvalidToken ∧
      ((getCurrentUser issued.token).run (exec env sid) x).1 = .error (.domain e)

section laws

variable {settings : JwtSettings} {n t lifetime : ℤ} {subject : Str} {id : UUID} {type : TokenType}

/-- What the service issues decodes until the whole second of its expiry. -/
theorem decodesUntil_encoded (hn : 0 ≤ n) (hl : 0 < lifetime) (hrange : InRange (n + lifetime))
    (hiat : timestamp n * 1000000 ≤ t) :
    DecodesUntil settings t (JwtTokenService.encoded settings n subject type id lifetime).token
      ⟨subject, type, id⟩ (n + lifetime) := by
  have hepoch : 0 ≤ n + lifetime := by omega
  refine ⟨?_, fun hfine => timestamp_eq_floor hepoch hfine,
    floor_le_timestamp hepoch, timestamp_le_of_inRange hepoch hrange⟩
  rw [JwtTokenService.decode_encoded settings hiat]
  by_cases h : timestamp (n + lifetime) * 1000000 ≤ t
  · rw [if_pos h, if_neg (not_lt.mpr h)]
  · rw [if_neg h, if_pos (not_le.mp h)]

/-- Under another secret, issuer or audience a token is not accepted. -/
theorem decode_encoded_foreign {settings' : JwtSettings}
    (h : settings'.secret ≠ settings.secret ∨ settings'.issuer ≠ settings.issuer ∨
      settings'.audience ≠ settings.audience) :
    ∃ e, JwtTokenService.decode settings' t
      (JwtTokenService.encoded settings n subject type id lifetime).token = .error e ∧
        e.IsInvalidToken := by
  rcases hd : JwtTokenService.decode settings' t
      (JwtTokenService.encoded settings n subject type id lifetime).token with e | p
  · exact ⟨e, rfl, JwtTokenService.isInvalidToken_of_decode_error settings' hd⟩
  exfalso
  unfold JwtTokenService.decode at hd
  split at hd
  · cases hd
  · cases hd
  · next raw hraw =>
    -- the decoder has compared the secret, the issuer and the audience
    simp only [jwtDecode, JwtTokenService.encoded] at hraw
    repeat' split at hraw
    all_goals try cases hraw
    next hkey _ _ hiss haud =>
    push Not at hkey hiss haud
    rcases h with h | h | h
    · exact h hkey.1.symm
    · exact h hiss.symm
    · exact h haud.symm

/-- What a service accepts of a token issued has the kind it was issued as. -/
theorem tokenType_of_decode {env : Env} {w : World} {p : TokenPayload}
    (h : w.decode env (JwtTokenService.encoded settings n subject type id lifetime).token = .ok p) :
    p.tokenType = type := by
  obtain ⟨c, hc, -, htype, -⟩ := World.signed_of_decode h
  simp only [JwtTokenService.encoded, Token.signed.injEq] at hc
  obtain ⟨-, -, rfl⟩ := hc
  have hliteral : type.literal = p.tokenType.literal := htype
  revert hliteral
  cases type <;> cases p.tokenType <;> decide

theorem World.decode_error {env : Env} {w : World} {token : Token} {e : DomainError}
    (h : w.decode env token = .error e) : e.IsInvalidToken := by
  unfold World.decode at h
  split at h
  · exact JwtTokenService.isInvalidToken_of_decode_error env.settings h
  · cases h
    trivial

/-- A program that decodes first, and refuses one kind of token, refuses the tokens
issued as that kind. -/
theorem refused_of_type {α : Type} {env : Env} {sid : ℕ} {x : Session × World} {token : Token}
    {k : TokenPayload → Handler α}
    (htype : ∀ p, x.2.decode env token = .ok p → k p = raise .invalidToken) :
    ∃ e : DomainError, e.IsInvalidToken ∧
      ((Prog.call (.decode token) k).run (exec env sid) x).1 = .error (.domain e) := by
  obtain ⟨s, w⟩ := x
  rcases hd : w.decode env token with e | p
  · refine ⟨e, World.decode_error hd, ?_⟩
    rw [Prog.run_call]
    simp only [exec, hd, ofDomain]
  · refine ⟨.invalidToken, trivial, ?_⟩
    rw [Prog.run_call]
    simp only [exec, hd, ofDomain, htype p hd, Prog.run_raise]

theorem kinds (settings : JwtSettings) (n : Instant) (subject : Str) (id : UUID) :
    Kinds settings n subject id := by
  constructor
  · intro token htoken env w
    obtain rfl := JwtTokenService.createAccessToken_eq_ok htoken
    unfold execute
    simp only [Command.execute, RefreshTokenHandler.execute, Prog.op_bind, Prog.map_call]
    refine refused_of_type fun p hp => ?_
    rw [tokenType_of_decode hp]
    rfl
  · intro token htoken env w
    obtain rfl := JwtTokenService.createAccessToken_eq_ok htoken
    unfold execute
    simp only [Command.execute, LogoutHandler.execute, Prog.op_bind, Prog.map_call]
    refine refused_of_type fun p hp => ?_
    rw [tokenType_of_decode hp]
    rfl
  · intro issued hissued env sid x
    obtain rfl := JwtTokenService.createRefreshToken_eq_ok hissued
    simp only [getCurrentUser, Prog.op_bind]
    refine refused_of_type fun p hp => ?_
    rw [tokenType_of_decode hp]
    rfl

/-- **Decoding undoes issuing, and the two kinds of tokens never mix.** -/
theorem decode_undoes_issuing (settings : JwtSettings)
    (haccess : 0 < settings.accessTokenExpireMinutes)
    (hrefresh : 0 < settings.refreshTokenExpireDays) (subject : Str) (id : UUID) (n t : Instant)
    (hn : 0 ≤ n) (ht : n ≤ t) (hcoarse : coarseFrom ≤ n → timestamp n * 1000000 ≤ t) :
    IssuingLaw settings n t subject id ∧ Kinds settings n subject id := by
  have hiat : timestamp n * 1000000 ≤ t := by
    rcases lt_or_ge n coarseFrom with hfine | hlate
    · exact (timestamp_le hn hfine).trans ht
    · exact hcoarse hlate
  refine ⟨⟨fun hrange => ?_, fun hrange => ?_, ?_⟩, kinds settings n subject id⟩
  · have hlifetime : 0 < JwtTokenService.refreshLifetime settings := by
      unfold JwtTokenService.refreshLifetime
      omega
    exact ⟨_, JwtTokenService.createRefreshToken_of_inRange hrange,
      decodesUntil_encoded hn hlifetime hrange hiat⟩
  · have hlifetime : 0 < JwtTokenService.accessLifetime settings := by
      unfold JwtTokenService.accessLifetime
      omega
    exact ⟨_, JwtTokenService.createAccessToken_of_inRange hrange,
      decodesUntil_encoded hn hlifetime hrange hiat⟩
  · rintro settings' h token (⟨issued, hissued, rfl⟩ | htoken)
    · obtain rfl := JwtTokenService.createRefreshToken_eq_ok hissued
      exact decode_encoded_foreign h
    · obtain rfl := JwtTokenService.createAccessToken_eq_ok htoken
      exact decode_encoded_foreign h

end laws

end kinds

section sample

attribute [local instance] asciiUnicode

/-- A token issued at the epoch, decoded a second later. -/
theorem decode_undoes_issuing_sample :
    IssuingLaw sampleEnv.settings 0 1000000 (lit ['s']) ⟨7⟩ ∧
      Kinds sampleEnv.settings 0 (lit ['s']) ⟨7⟩ :=
  decode_undoes_issuing sampleEnv.settings (by decide) (by decide) _ _ 0 1000000 (by decide)
    (by decide) (by decide)

/-- Thirty days before the last microsecond of a second. -/
def coarseInstant : Instant := coarseFrom + 999999 - 30 * 86400000000

/-- **In the year 2514** the float of an expiry is the next second, and the token is
accepted in the whole second of its expiry. -/
theorem accepted_past_whole_second : ∃ issued,
    JwtTokenService.createRefreshToken sampleEnv.settings coarseInstant (lit ['s']) ⟨7⟩ =
      .ok issued ∧ issued.expiresAt / 1000000 * 1000000 ≤ coarseFrom ∧
    JwtTokenService.decode sampleEnv.settings coarseFrom issued.token =
      .ok ⟨lit ['s'], .refresh, ⟨7⟩⟩ :=
  ⟨_, rfl, by decide +kernel, by decide +kernel⟩

end sample

end FastapiStarter
