import FastapiStarter.Domain
import FastapiStarter.Lib.FloatQuotient

/-!
# The token service

`JwtTokenService` over PyJWT.  Signatures are symbolic: a token is either a set
of claims signed under a key, or any other text, so `jwt.encode` is a constructor
and checking a signature is comparing keys.

## Main definitions

* `Claims`, `Token` — payloads and tokens.
* `jwtDecode` — `jwt.decode` with every claim required, its checks in order.
* `timestamp`, `InRange` — whole seconds, and the instants that are a `datetime`.
* `JwtSettings`, `JwtTokenService.encode`, `JwtTokenService.decode` — the service.

## Main results

* `timestamp_eq_floor` — the whole second of an instant, until floats are too coarse.
* `JwtTokenService.decode_encoded` — what `decode` makes of an issued token.
-/

namespace FastapiStarter

open FloatQuotient

/-- The algorithms `JwtSettings.algorithm` admits. -/
inductive Algorithm
  | hs256
  | hs384
  | hs512
  deriving DecidableEq, Repr

/-- `TokenType`. -/
inductive TokenType
  | access
  | refresh
  deriving DecidableEq, Repr

/-- The literal of a token type. -/
def TokenType.literal : TokenType → Str
  | .access => lit ['a', 'c', 'c', 'e', 's', 's']
  | .refresh => lit ['r', 'e', 'f', 'r', 'e', 's', 'h']

theorem refresh_ne_access : TokenType.refresh.literal ≠ TokenType.access.literal := by decide

/-- The payload of a token. -/
structure Claims where
  sub : Str
  type : Str
  jti : Str
  iss : Str
  aud : Str
  /-- `iat`, in whole seconds. -/
  iat : ℤ
  /-- `exp`, in whole seconds. -/
  exp : ℤ
  deriving DecidableEq

/-- A token, by what PyJWT reads in it: claims signed under a key, or anything else.
Base64 can spell the same content in several ways. -/
inductive Token
  /-- `jwt.encode(claims, secret, algorithm)`. -/
  | signed (secret : Str) (algorithm : Algorithm) (claims : Claims)
  /-- A string without such a content. -/
  | other (text : Str)
  deriving DecidableEq

/-- The errors of PyJWT the service tells apart. -/
inductive JwtError
  | expiredSignature
  /-- Any other `PyJWTError`. -/
  | other
  deriving DecidableEq, Repr

/-- `jwt.decode(token, secret, algorithms=[algorithm], issuer, audience)` at the
instant `now`: the signature first, then `iat`, `exp`, `iss` and `aud`. -/
def jwtDecode (token : Token) (secret : Str) (algorithm : Algorithm) (issuer audience : Str)
    (now : Instant) : Except JwtError Claims :=
  match token with
  | .other _ => .error .other
  | .signed s a c =>
    if s ≠ secret ∨ a ≠ algorithm then .error .other
    else if now < c.iat * 1000000 then .error .other
    else if c.exp * 1000000 ≤ now then .error .expiredSignature
    else if c.iss ≠ issuer then .error .other
    else if c.aud ≠ audience then .error .other
    else .ok c

/-! ### Whole seconds -/

/-- `int(t.timestamp())`: the timestamp is a float. -/
def timestamp (t : Instant) : ℤ := t.sign * trunc t.natAbs 1000000

/-- 2514-05-30T01:53:04Z, from which on a float does not hold the microseconds of an instant. -/
def coarseFrom : Instant := 2 ^ 34 * 1000000

/-- 0001-01-01T00:00:00Z, the first `datetime`. -/
def datetimeMin : Instant := -62135596800000000

/-- 9999-12-31T23:59:59.999999Z, the last one. -/
def datetimeMax : Instant := 253402300799999999

/-- The instant is a `datetime`. -/
def InRange (t : Instant) : Prop := datetimeMin ≤ t ∧ t ≤ datetimeMax

instance (t : Instant) : Decidable (InRange t) := inferInstanceAs (Decidable (_ ∧ _))

section seconds

variable {t : ℤ}

@[simp] theorem timestamp_natCast (n : ℕ) : timestamp n = trunc n 1000000 := by
  rcases n.eq_zero_or_pos with rfl | hn
  · rfl
  · rw [timestamp, Int.sign_natCast_of_ne_zero hn.ne', one_mul, Int.natAbs_natCast]

/-- From the epoch on, the whole second does not lie before that of the instant. -/
theorem floor_le_timestamp (h : 0 ≤ t) : t / 1000000 ≤ timestamp t := by
  lift t to ℕ using h
  rw [timestamp_natCast]
  exact_mod_cast div_le_trunc (n := t) (d := 1000000) (by decide)

/-- **`int(t.timestamp())` is the whole second** of an instant in the next centuries. -/
theorem timestamp_eq_floor (h : 0 ≤ t) (hfine : t < coarseFrom) :
    timestamp t = t / 1000000 := by
  lift t to ℕ using h
  have hseconds : t / 1000000 < 2 ^ (53 - 19) := by
    unfold coarseFrom at hfine
    omega
  rw [timestamp_natCast, trunc_eq_div (by decide) (by decide) hseconds (by decide)]
  exact Int.natCast_ediv t 1000000

/-- Later it may be the next one, if the instant is at most 15 microseconds before it. -/
theorem timestamp_le_of_inRange (h : 0 ≤ t) (hrange : InRange t) :
    timestamp t ≤ (t + 15) / 1000000 := by
  lift t to ℕ using h
  have hseconds : t / 1000000 < 2 ^ (53 - 15) := by
    have hlast : (t : ℤ) ≤ 253402300799999999 := hrange.2
    omega
  rw [timestamp_natCast]
  exact_mod_cast trunc_le (s := 15) (by decide) (by decide) hseconds (by decide)

theorem timestamp_nonpos (h : t ≤ 0) : timestamp t ≤ 0 :=
  Int.mul_nonpos_of_nonpos_of_nonneg (Int.sign_nonpos_iff.mpr h) (Int.natCast_nonneg _)

theorem timestamp_le (h : 0 ≤ t) (hfine : t < coarseFrom) : timestamp t * 1000000 ≤ t := by
  rw [timestamp_eq_floor h hfine]
  omega

end seconds

/-! ### The service -/

/-- `JwtSettings`. -/
structure JwtSettings where
  secret : Str
  algorithm : Algorithm := .hs256
  accessTokenExpireMinutes : ℤ := 15
  refreshTokenExpireDays : ℤ := 30
  issuer : Str
  audience : Str

/-- `TokenPayload`. -/
structure TokenPayload where
  subject : Str
  tokenType : TokenType
  tokenId : UUID
  deriving DecidableEq

/-- `IssuedToken`. -/
structure IssuedToken where
  token : Token
  expiresAt : Instant
  deriving DecidableEq

namespace JwtTokenService

variable (settings : JwtSettings)

/-- What `_encode` returns at the instant `now`, if the expiry is a `datetime`. -/
def encoded (now : Instant) (subject : Str) (tokenType : TokenType) (tokenId : UUID)
    (lifetime : ℤ) : IssuedToken :=
  let expiresAt := now + lifetime
  { token := .signed settings.secret settings.algorithm
      { sub := subject, type := tokenType.literal, jti := tokenId.str, iss := settings.issuer,
        aud := settings.audience, iat := timestamp now, exp := timestamp expiresAt }
    expiresAt }

/-- `_encode`, at the instant `now`. -/
def encode (now : Instant) (subject : Str) (tokenType : TokenType) (tokenId : UUID)
    (lifetime : ℤ) : Except Exc IssuedToken :=
  -- `now + lifetime` is an `OverflowError` past the last `datetime`
  if InRange (now + lifetime) then .ok (encoded settings now subject tokenType tokenId lifetime)
  else .error .unexpected

/-- `timedelta(minutes=access_token_expire_minutes)`. -/
def accessLifetime : ℤ := settings.accessTokenExpireMinutes * 60000000

/-- `timedelta(days=refresh_token_expire_days)`. -/
def refreshLifetime : ℤ := settings.refreshTokenExpireDays * 86400000000

/-- The access token for a subject, with the fresh id `tokenId`. -/
def accessToken (now : Instant) (tokenId : UUID) (subject : Str) : Token :=
  (encoded settings now subject .access tokenId (accessLifetime settings)).token

/-- The refresh token for a subject. -/
def refreshToken (now : Instant) (subject : Str) (tokenId : UUID) : IssuedToken :=
  encoded settings now subject .refresh tokenId (refreshLifetime settings)

/-- `create_access_token(subject)`, with the fresh id `tokenId`. -/
def createAccessToken (now : Instant) (tokenId : UUID) (subject : Str) : Except Exc Token :=
  (encode settings now subject .access tokenId (accessLifetime settings)).map (·.token)

/-- `create_refresh_token(subject, token_id)`. -/
def createRefreshToken (now : Instant) (subject : Str) (tokenId : UUID) :
    Except Exc IssuedToken :=
  encode settings now subject .refresh tokenId (refreshLifetime settings)

variable {settings}

theorem encode_of_inRange {now lifetime : ℤ} {subject : Str} {tokenType : TokenType}
    {tokenId : UUID} (h : InRange (now + lifetime)) :
    encode settings now subject tokenType tokenId lifetime =
      .ok (encoded settings now subject tokenType tokenId lifetime) := if_pos h

theorem encode_eq_ok {now lifetime : ℤ} {subject : Str} {tokenType : TokenType} {tokenId : UUID}
    {issued : IssuedToken}
    (h : encode settings now subject tokenType tokenId lifetime = .ok issued) :
    issued = encoded settings now subject tokenType tokenId lifetime := by
  unfold encode at h
  split at h
  · exact (Except.ok.inj h).symm
  · cases h

theorem createAccessToken_of_inRange {now : Instant} {tokenId : UUID} {subject : Str}
    (h : InRange (now + accessLifetime settings)) :
    createAccessToken settings now tokenId subject =
      .ok (accessToken settings now tokenId subject) := by
  rw [createAccessToken, encode_of_inRange h]
  rfl

theorem createRefreshToken_of_inRange {now : Instant} {subject : Str} {tokenId : UUID}
    (h : InRange (now + refreshLifetime settings)) :
    createRefreshToken settings now subject tokenId =
      .ok (refreshToken settings now subject tokenId) := encode_of_inRange h

theorem createAccessToken_eq_ok {now : Instant} {tokenId : UUID} {subject : Str} {token : Token}
    (h : createAccessToken settings now tokenId subject = .ok token) :
    token = accessToken settings now tokenId subject := by
  unfold createAccessToken at h
  rcases hencode : encode settings now subject .access tokenId (accessLifetime settings) with
    e | issued
  · rw [hencode] at h
    cases h
  · rw [hencode] at h
    rw [← Except.ok.inj h, encode_eq_ok hencode]
    rfl

theorem createRefreshToken_eq_ok {now : Instant} {subject : Str} {tokenId : UUID}
    {issued : IssuedToken} (h : createRefreshToken settings now subject tokenId = .ok issued) :
    issued = refreshToken settings now subject tokenId := encode_eq_ok h

variable (settings)

variable [Unicode]

/-- `decode(token)`, at the instant `now`. -/
def decode (now : Instant) (token : Token) : Except DomainError TokenPayload :=
  match jwtDecode token settings.secret settings.algorithm settings.issuer
    settings.audience now with
  | .error .expiredSignature => .error .tokenExpired
  | .error .other => .error .invalidToken
  | .ok raw =>
    match UUID.ofStr raw.jti with
    | none => .error .invalidToken
    | some tokenId =>
      if raw.type = TokenType.access.literal then
        .ok { subject := raw.sub, tokenType := .access, tokenId }
      else if raw.type = TokenType.refresh.literal then
        .ok { subject := raw.sub, tokenType := .refresh, tokenId }
      else .error .invalidToken

/-- `decode` raises nothing but `InvalidTokenError` and its subclass. -/
theorem isInvalidToken_of_decode_error {now : Instant} {token : Token} {e : DomainError}
    (h : decode settings now token = .error e) : e.IsInvalidToken := by
  unfold decode at h
  repeat' split at h
  all_goals first
    | cases h; trivial
    | cases h

/-- **What `decode` makes of an issued token**: its payload, until its whole
second of expiry. -/
theorem decode_encoded {now t lifetime : ℤ} {subject : Str} {tokenType : TokenType}
    {tokenId : UUID} (hissued : timestamp now * 1000000 ≤ t) :
    decode settings t (encoded settings now subject tokenType tokenId lifetime).token =
      if timestamp (now + lifetime) * 1000000 ≤ t then .error .tokenExpired
      else .ok { subject, tokenType, tokenId } := by
  have hiat : ¬ t < timestamp now * 1000000 := not_lt.mpr hissued
  simp only [decode, jwtDecode, encoded, ne_eq, not_true_eq_false, or_self, if_false, hiat]
  by_cases hexp : timestamp (now + lifetime) * 1000000 ≤ t
  · rw [if_pos hexp, if_pos hexp]
  · rw [if_neg hexp, if_neg hexp]
    simp only [UUID.ofStr_str]
    cases tokenType
    · rw [if_pos rfl]
    · rw [if_neg (by decide), if_pos rfl]

/-- A token that `decode` accepts was signed under the key of the service. -/
theorem signed_of_decode_ok {now : Instant} {token : Token} {p : TokenPayload}
    (h : decode settings now token = .ok p) :
    ∃ c, token = .signed settings.secret settings.algorithm c ∧ c.sub = p.subject ∧
      c.type = p.tokenType.literal ∧ UUID.ofStr c.jti = some p.tokenId := by
  rcases token with ⟨s, a, c⟩ | text
  · by_cases hkey : s ≠ settings.secret ∨ a ≠ settings.algorithm
    · simp [decode, jwtDecode, hkey] at h
    · push Not at hkey
      obtain ⟨rfl, rfl⟩ := hkey
      refine ⟨c, rfl, ?_⟩
      unfold decode at h
      split at h
      · cases h
      · cases h
      · next raw hraw =>
        have hraw : raw = c := by
          simp only [jwtDecode, ne_eq, not_true_eq_false, or_self, if_false] at hraw
          repeat' split at hraw
          all_goals first
            | exact (Except.ok.inj hraw).symm
            | cases hraw
        subst hraw
        split at h
        · cases h
        · next tokenId hjti =>
          split at h
          · next htype => cases h; exact ⟨rfl, htype, hjti⟩
          · split at h
            · next htype => cases h; exact ⟨rfl, htype, hjti⟩
            · cases h
  · simp [decode, jwtDecode] at h

end JwtTokenService

end FastapiStarter
