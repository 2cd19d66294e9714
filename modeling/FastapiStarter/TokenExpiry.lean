import FastapiStarter.Rotation
import FastapiStarter.TokenKinds

/-!
# The two expiries of a refresh token

A refresh token carries its expiry in whole seconds, and its record keeps it to the
microsecond.  The service accepts the token before the whole second; the handler
finds the record expired from its own instant on.

## Main definitions

* `reload` — a record that was stored and loaded.
* `ExpiriesAgree` — a token and a record that never contradict each other.

## Main results

* `expiriesAgree_encode` — **what one call of the service issues agrees.**
* `expiries_never_contradict` — **so it is with every token handed out**, and its record.
* `expiries_contradict` — a token from before the epoch, and one from the year 2514.
-/

namespace FastapiStarter

section expiry

variable [Unicode]

/-- A record as `to_domain` makes it of the row that the driver returns for a stored one. -/
def reload (d : Dialect) (row : RefreshTokenModel) : RefreshTokenRecord :=
  RefreshTokenMapper.toDomain (d.readRefreshToken row)

/-- **The token and the record never contradict each other**, whenever the token is
presented. -/
structure ExpiriesAgree (settings : JwtSettings) (token : Token) (record : RefreshTokenRecord) :
    Prop where
  /-- A token that is accepted has a record that expires later. -/
  accepted : ∀ t p, JwtTokenService.decode settings t token = .ok p → t < record.expiresAt
  /-- The handler that compares at that instant does not find the record expired. -/
  goesOn : ∀ t p, JwtTokenService.decode settings t token = .ok p → ¬ record.expiresAt ≤ t
  /-- A token that is refused as expired has a record that expires within the second. -/
  expired : ∀ t, JwtTokenService.decode settings t token = .error .tokenExpired →
    record.expiresAt < t + 1000000

section laws

variable {settings : JwtSettings} {n t lifetime : ℤ} {subject : Str} {type : TokenType} {id : UUID}
  {token : Token} {record : RefreshTokenRecord}

/-- The decoder accepts a token before the whole second of its expiry only. -/
theorem lt_exp_of_decode_ok {secret : Str} {algorithm : Algorithm} {c : Claims} {p : TokenPayload}
    (h : JwtTokenService.decode settings t (.signed secret algorithm c) = .ok p) :
    t < c.exp * 1000000 := by
  unfold JwtTokenService.decode at h
  split at h
  · cases h
  · cases h
  · next raw hraw =>
    by_contra hexp
    rw [not_lt] at hexp
    simp only [jwtDecode, if_pos hexp] at hraw
    repeat' split at hraw
    all_goals cases hraw

/-- It refuses a token as expired from then on only. -/
theorem exp_le_of_decode_expired {secret : Str} {algorithm : Algorithm} {c : Claims}
    (h : JwtTokenService.decode settings t (.signed secret algorithm c) = .error .tokenExpired) :
    c.exp * 1000000 ≤ t := by
  unfold JwtTokenService.decode at h
  split at h
  · next hraw =>
    by_contra hexp
    simp only [jwtDecode, if_neg hexp] at hraw
    repeat' split at hraw
    all_goals cases hraw
  · cases h
  · repeat' split at h
    all_goals cases h

/-- **What one call of the service issues agrees**: the whole second lies less than a
second before the expiry. -/
theorem expiriesAgree_encoded (hepoch : 0 ≤ n + lifetime) (hfine : n + lifetime < coarseFrom)
    (hexpires : record.expiresAt = n + lifetime) :
    ExpiriesAgree settings (JwtTokenService.encoded settings n subject type id lifetime).token
      record := by
  have hfloor : timestamp (n + lifetime) = (n + lifetime) / 1000000 :=
    timestamp_eq_floor hepoch hfine
  have haccepted : ∀ (t : ℤ) p, JwtTokenService.decode settings t
      (JwtTokenService.encoded settings n subject type id lifetime).token = .ok p →
        t < n + lifetime := by
    intro t p h
    have hlt : t < timestamp (n + lifetime) * 1000000 := lt_exp_of_decode_ok h
    rw [hfloor] at hlt
    omega
  have hexpired : ∀ t : ℤ, JwtTokenService.decode settings t
      (JwtTokenService.encoded settings n subject type id lifetime).token = .error .tokenExpired →
        n + lifetime < t + 1000000 := by
    intro t h
    have hle : timestamp (n + lifetime) * 1000000 ≤ t := exp_le_of_decode_expired h
    rw [hfloor] at hle
    omega
  rw [← hexpires] at haccepted hexpired
  exact ⟨haccepted, fun t p h => not_le.mpr (haccepted t p h), hexpired⟩

end laws

/-- **The expiries of a token and of its record agree.**  A record is stored with the
expiry of the token issued with it; whatever the driver returns for it, the two never
contradict each other if that expiry lies between the epoch and the year 2514.  So it is
with every token that a login or a refresh hands out. -/
theorem expiries_never_contradict (env : Env) :
    (∀ (n lifetime : ℤ) (subject : Str) (record : RefreshTokenRecord) (d : Dialect)
        (issued : IssuedToken),
      JwtTokenService.encode env.settings n subject .refresh record.jti lifetime = .ok issued →
      record.expiresAt = issued.expiresAt → 0 ≤ issued.expiresAt → issued.expiresAt < coarseFrom →
      ExpiriesAgree env.settings issued.token (reload d (RefreshTokenMapper.toModel record))) ∧
    (∀ h w t, Run env h w → HandedOut h t →
      ∃ m ∈ w.db.refreshTokens.rows, IssuedFor env w t m ∧
        (0 ≤ asUtc m.expiresAt → asUtc m.expiresAt < coarseFrom →
          ∀ d : Dialect, ExpiriesAgree env.settings t (reload d m))) := by
  constructor
  · intro n lifetime subject record d issued hissued hrecord hepoch hfine
    obtain rfl := JwtTokenService.encode_eq_ok hissued
    refine expiriesAgree_encoded hepoch hfine ?_
    rw [reload, RefreshTokenMapper.toDomain_toModel]
    exact hrecord
  · intro h w t hrun hout
    obtain ⟨m, hm, hfor⟩ := (ledger_of_run hrun).handedOut t hout
    refine ⟨m, hm, hfor, fun hepoch hfine d => ?_⟩
    obtain ⟨k, -, rfl, hexpires⟩ := hfor
    have hexpiresAt : asUtc m.expiresAt =
        env.clock k + JwtTokenService.refreshLifetime env.settings := by
      rw [hexpires]
      rfl
    rw [hexpiresAt] at hepoch hfine
    refine expiriesAgree_encoded hepoch hfine ?_
    show asUtc (d.readDatetime m.expiresAt) = _
    rw [asUtc_readDatetime, hexpiresAt]

end expiry

section sample

attribute [local instance] asciiUnicode

/-- The token of the sample login and its record. -/
theorem expiries_never_contradict_sample : ∃ m ∈ loggedInWorld.db.refreshTokens.rows,
    IssuedFor sampleEnv loggedInWorld sampleToken m ∧
      ∀ d : Dialect, ExpiriesAgree sampleEnv.settings sampleToken (reload d m) := by
  obtain ⟨m, hm, hfor, hagree⟩ := (expiries_never_contradict sampleEnv).2 _ _ _
    run_sampleHistory (.inl ⟨_, List.mem_cons_self, ⟨_, rfl⟩, _, rfl, rfl⟩)
  refine ⟨m, hm, hfor, ?_⟩
  obtain ⟨k, hk, -, hexpires⟩ := hfor
  have hexpiresAt : asUtc m.expiresAt = k + 2592000000000 := by
    rw [hexpires]
    rfl
  have hticks : k < 100 := hk.trans (by decide +kernel)
  rw [hexpiresAt] at hagree
  have hepoch : (0 : ℤ) ≤ k + 2592000000000 := by omega
  have hfine : (k + 2592000000000 : ℤ) < 17179869184000000 := by omega
  exact hagree hepoch hfine

/-- The subject of the sample user. -/
def sampleSubject : Str := (UserId.mk (sampleEnv.uuid 0)).str

/-- The record of a token issued for the sample user. -/
def recordOf (issued : IssuedToken) : RefreshTokenRecord :=
  { jti := sampleEnv.uuid 1, userId := ⟨sampleEnv.uuid 0⟩, familyId := sampleEnv.uuid 2,
    expiresAt := issued.expiresAt }

/-- **Before the epoch** `int` rounds towards zero, and **in the year 2514** the float is the
next second: the whole second is the later of the two, and the token is accepted when its
record has expired. -/
theorem expiries_contradict :
    (∃ issued, JwtTokenService.createRefreshToken sampleEnv.settings (-2592001500000)
        sampleSubject (sampleEnv.uuid 1) = .ok issued ∧
      ¬ ExpiriesAgree sampleEnv.settings issued.token
        (reload .sqlite (RefreshTokenMapper.toModel (recordOf issued)))) ∧
    ∃ issued, JwtTokenService.createRefreshToken sampleEnv.settings coarseInstant
        sampleSubject (sampleEnv.uuid 1) = .ok issued ∧
      ¬ ExpiriesAgree sampleEnv.settings issued.token
        (reload .sqlite (RefreshTokenMapper.toModel (recordOf issued))) := by
  constructor
  · refine ⟨_, JwtTokenService.createRefreshToken_of_inRange (by decide), fun h => ?_⟩
    have haccepted : JwtTokenService.decode sampleEnv.settings (-1200000)
        (JwtTokenService.refreshToken sampleEnv.settings (-2592001500000) sampleSubject
          (sampleEnv.uuid 1)).token = .ok ⟨sampleSubject, .refresh, sampleEnv.uuid 1⟩ := by
      decide +kernel
    exact absurd (h.accepted _ _ haccepted) (by decide +kernel)
  · refine ⟨_, JwtTokenService.createRefreshToken_of_inRange (by decide), fun h => ?_⟩
    have haccepted : JwtTokenService.decode sampleEnv.settings (coarseFrom + 999999)
        (JwtTokenService.refreshToken sampleEnv.settings coarseInstant sampleSubject
          (sampleEnv.uuid 1)).token = .ok ⟨sampleSubject, .refresh, sampleEnv.uuid 1⟩ := by
      decide +kernel
    exact absurd (h.accepted _ _ haccepted) (by decide +kernel)

end sample

end FastapiStarter
