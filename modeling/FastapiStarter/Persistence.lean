import FastapiStarter.Database
import FastapiStarter.Lib.Mapper

/-!
# What is persisted

The mappers have one list of fields for an insert and another for an update.  What
the methods of an aggregate change is in both; what an update does not copy, no
method changes.  The events that a user has recorded are not stored.

## Main definitions

* `userMapper`, `refreshTokenMapper` — the two mappers.
* `userDrivers`, `refreshTokenDrivers` — what drivers return for a stored row.
* `User.Changes`, `RefreshTokenRecord.Changes` — what one method does.

## Main results

* `persisted_as_held` — **what is persisted is what the aggregate holds.**
* `events_not_persisted` — the recorded events are not.
-/

namespace FastapiStarter

open Persistence

section mappers

variable [Unicode]

/-- `user_mapper`. -/
def userMapper : Mapper User UserModel DomainError where
  toDomain := UserMapper.toDomain
  toModel := UserMapper.toModel
  applyToModel := UserMapper.applyToModel

omit [Unicode] in
/-- `refresh_token_mapper`, which has nothing to check. -/
def refreshTokenMapper : Mapper RefreshTokenRecord RefreshTokenModel DomainError where
  toDomain m := .ok (RefreshTokenMapper.toDomain m)
  toModel := RefreshTokenMapper.toModel
  applyToModel := RefreshTokenMapper.applyToModel

/-- The row of a user as a driver returns it: unchanged, or read from a database. -/
def userDrivers : List (UserModel → UserModel) :=
  [id, Dialect.postgres.readUser, Dialect.sqlite.readUser]

/-- The row of a record as a driver returns it. -/
def refreshTokenDrivers : List (RefreshTokenModel → RefreshTokenModel) :=
  [id, Dialect.postgres.readRefreshToken, Dialect.sqlite.readRefreshToken]

/-! ### Drivers -/

omit [Unicode] in
/-- A driver may drop the timezone of a user row, and changes nothing else. -/
theorem userDriver_spec {driver : UserModel → UserModel} (h : driver ∈ userDrivers)
    (m : UserModel) : ∃ d, driver m = { m with createdAt := d } ∧ asUtc d = asUtc m.createdAt := by
  simp only [userDrivers, List.mem_cons, List.not_mem_nil, or_false] at h
  rcases h with rfl | rfl | rfl
  · exact ⟨m.createdAt, rfl, rfl⟩
  · exact ⟨_, rfl, asUtc_readDatetime ..⟩
  · exact ⟨_, rfl, asUtc_readDatetime ..⟩

omit [Unicode] in
/-- A driver may drop the timezones of a record. -/
theorem refreshTokenDriver_spec {driver : RefreshTokenModel → RefreshTokenModel}
    (h : driver ∈ refreshTokenDrivers) (m : RefreshTokenModel) :
    ∃ d r, driver m = { m with expiresAt := d, revokedAt := r } ∧ asUtc d = asUtc m.expiresAt ∧
      r.map asUtc = m.revokedAt.map asUtc := by
  have hread : ∀ dialect : Dialect,
      (m.revokedAt.map dialect.readDatetime).map asUtc = m.revokedAt.map asUtc := by
    intro dialect
    simp [Function.comp_def]
  simp only [refreshTokenDrivers, List.mem_cons, List.not_mem_nil, or_false] at h
  rcases h with rfl | rfl | rfl
  · exact ⟨m.expiresAt, m.revokedAt, rfl, rfl, rfl⟩
  · exact ⟨_, _, rfl, asUtc_readDatetime .., hread .postgres⟩
  · exact ⟨_, _, rfl, asUtc_readDatetime .., hread .sqlite⟩

/-! ### Users -/

/-- What one method of a user does. -/
inductive User.Changes (u : User) : User → Prop
  | deactivate : User.Changes u u.deactivate
  | changePassword (hashedPassword : HashedPassword) :
    User.Changes u (u.changePassword hashedPassword)

/-- The users agree on what an update does not copy. -/
structure User.SameFrame (u u' : User) : Prop where
  id : u'.id = u.id
  createdAt : u'.createdAt = u.createdAt
  events : u'.events = u.events

/-- Every method leaves alone what an update does not copy. -/
theorem User.Changes.sameFrame {u u' : User} (h : User.Changes u u') : User.SameFrame u u' := by
  cases h with
  | deactivate => exact ⟨rfl, rfl, rfl⟩
  | changePassword hashedPassword => exact ⟨rfl, rfl, rfl⟩

theorem userMapper_inserts {driver : UserModel → UserModel} (h : driver ∈ userDrivers) :
    userMapper.Inserts (fun u => { u with events := [] }) driver := by
  intro u
  obtain ⟨d, hdriver, hd⟩ := userDriver_spec h (UserMapper.toModel u)
  show UserMapper.toDomain (driver (UserMapper.toModel u)) = _
  rw [hdriver]
  simp only [UserMapper.toDomain, UserMapper.toModel, Email.ofStr_value, HashedPassword.ofStr_value,
    hd, asUtc_aware]

theorem userMapper_updates {driver : UserModel → UserModel} (h : driver ∈ userDrivers) :
    userMapper.Updates User.Changes driver := by
  refine Mapper.updates_of_frame User.SameFrame (fun u => ⟨rfl, rfl, rfl⟩)
    (fun u v w huv hvw => ⟨hvw.id.trans huv.id, hvw.createdAt.trans huv.createdAt,
      hvw.events.trans huv.events⟩)
    (fun u u' hchange => hchange.sameFrame) ?_
  intro row u u' hrow hframe
  obtain ⟨hid, -, -, -, hcreated, hevents⟩ := UserMapper.toDomain_eq_ok hrow
  obtain ⟨d, hdriver, hd⟩ := userDriver_spec h (UserMapper.applyToModel u' row)
  show UserMapper.toDomain (driver (UserMapper.applyToModel u' row)) = _
  rw [hdriver]
  simp only [UserMapper.toDomain, UserMapper.applyToModel, Email.ofStr_value,
    HashedPassword.ofStr_value, hd]
  have hid' : (⟨row.id⟩ : UserId) = u'.id := by
    rw [hframe.id, ← hid]
  rw [hid', ← hcreated, ← hframe.createdAt]
  refine congrArg Except.ok ?_
  rw [← hframe.events] at hevents
  cases u'
  cases hevents
  rfl

/-! ### Records -/

omit [Unicode]

/-- What `revoke` does to a record. -/
def RefreshTokenRecord.Changes (r r' : RefreshTokenRecord) : Prop := ∃ at', r' = r.revoke at'

/-- The records agree on what an update does not copy. -/
structure RefreshTokenRecord.SameFrame (r r' : RefreshTokenRecord) : Prop where
  jti : r'.jti = r.jti
  userId : r'.userId = r.userId
  familyId : r'.familyId = r.familyId
  expiresAt : r'.expiresAt = r.expiresAt

theorem RefreshTokenRecord.Changes.sameFrame {r r' : RefreshTokenRecord}
    (h : RefreshTokenRecord.Changes r r') : RefreshTokenRecord.SameFrame r r' := by
  obtain ⟨at', rfl⟩ := h
  unfold RefreshTokenRecord.revoke
  split
  · exact ⟨rfl, rfl, rfl, rfl⟩
  · exact ⟨rfl, rfl, rfl, rfl⟩

theorem refreshTokenMapper_inserts {driver : RefreshTokenModel → RefreshTokenModel}
    (h : driver ∈ refreshTokenDrivers) : refreshTokenMapper.Inserts id driver := by
  intro r
  obtain ⟨d, rev, hdriver, hd, hrev⟩ :=
    refreshTokenDriver_spec h (RefreshTokenMapper.toModel r)
  show Except.ok (RefreshTokenMapper.toDomain (driver (RefreshTokenMapper.toModel r))) = _
  rw [hdriver]
  simp only [RefreshTokenMapper.toDomain, hd, hrev]
  simp [RefreshTokenMapper.toModel, Function.comp_def]

theorem refreshTokenMapper_updates {driver : RefreshTokenModel → RefreshTokenModel}
    (h : driver ∈ refreshTokenDrivers) :
    refreshTokenMapper.Updates RefreshTokenRecord.Changes driver := by
  refine Mapper.updates_of_frame RefreshTokenRecord.SameFrame
    (fun r => ⟨rfl, rfl, rfl, rfl⟩)
    (fun r s t hrs hst => ⟨hst.jti.trans hrs.jti, hst.userId.trans hrs.userId,
      hst.familyId.trans hrs.familyId, hst.expiresAt.trans hrs.expiresAt⟩)
    (fun r r' hchange => hchange.sameFrame) ?_
  intro row r r' hrow hframe
  obtain rfl := Except.ok.inj hrow
  obtain ⟨d, rev, hdriver, hd, hrev⟩ :=
    refreshTokenDriver_spec h (RefreshTokenMapper.applyToModel r' row)
  show Except.ok (RefreshTokenMapper.toDomain
    (driver (RefreshTokenMapper.applyToModel r' row))) = _
  rw [hdriver]
  obtain ⟨hjti, huser, hfamily, hexpires⟩ := hframe
  cases r'
  simp only [RefreshTokenMapper.toDomain] at hjti huser hfamily hexpires
  subst hjti huser hfamily hexpires
  simp only [RefreshTokenMapper.toDomain, hd, hrev]
  simp [RefreshTokenMapper.applyToModel, Function.comp_def]

/-! ### Both -/

variable [Unicode]

/-- **What is persisted is what the aggregate holds**, whether the driver keeps the
timezone or drops it: all but the events of a user is stored by an insert, and what the
methods change is stored by an update. -/
theorem persisted_as_held :
    (∀ driver ∈ userDrivers, userMapper.Inserts (fun u => { u with events := [] }) driver ∧
      userMapper.Updates User.Changes driver) ∧
    (∀ driver ∈ refreshTokenDrivers, refreshTokenMapper.Inserts id driver ∧
      refreshTokenMapper.Updates RefreshTokenRecord.Changes driver) :=
  ⟨fun _ h => ⟨userMapper_inserts h, userMapper_updates h⟩,
    fun _ h => ⟨refreshTokenMapper_inserts h, refreshTokenMapper_updates h⟩⟩

end mappers

section sample

attribute [local instance] asciiUnicode

/-- **A user who was just created** loads again without the event that was recorded. -/
theorem events_not_persisted : ∃ u v : User,
    u = User.create ⟨⟨7⟩⟩ ⟨lit ['a', '@', 'b', '.', 'c'], by decide, by decide⟩
      ⟨lit ['h'], by decide⟩ 0 ∧
    userMapper.toDomain (userMapper.toModel u) = .ok v ∧ v.events = [] ∧ u.events ≠ [] :=
  ⟨_, _, rfl, userMapper_inserts (List.mem_cons_self : id ∈ userDrivers) _, rfl,
    by simp [User.create]⟩

end sample

end FastapiStarter
