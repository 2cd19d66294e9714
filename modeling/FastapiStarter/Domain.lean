import FastapiStarter.Uuid
import FastapiStarter.Lib.Regex

/-!
# The domain layer

Value objects, aggregates, events and errors of `app/domain`, with the DTOs of
`app/application` built from them.  A value object carries what its constructor
checks, so an invalid one cannot be built; the constructor is the function that
checks.

## Main definitions

* `Instant`, `Datetime` — aware UTC instants, and the datetimes drivers return.
* `DomainError`, `Exc` — the error vocabulary, and every exception of a handler.
* `Email`, `HashedPassword`, `UserId` — the value objects.
* `User`, `RefreshTokenRecord` — the aggregates, with their methods.

## Main results

* `Email.ofStr_value` — the normal form of an address is a fixed point.
* `UserId.fromStr_str` — a user id survives its text.
-/

namespace FastapiStarter

open Matching

/-! ### Time -/

/-- An aware UTC datetime, in microseconds since the epoch. -/
abbrev Instant := ℤ

/-- A Python `datetime`: aware in UTC, or naive. -/
inductive Datetime
  /-- With `tzinfo=UTC`. -/
  | aware (t : Instant)
  /-- Without `tzinfo`; the wall clock of the instant in UTC. -/
  | naive (t : Instant)
  deriving DecidableEq, Repr

/-- `as_utc`: attaches UTC to a naive datetime. -/
def asUtc : Datetime → Instant
  | .aware t => t
  | .naive t => t

@[simp] theorem asUtc_aware (t : Instant) : asUtc (.aware t) = t := rfl

/-! ### Errors -/

/-- The message of an error: a fixed text, or the one text that quotes its input. -/
inductive Message
  | text (s : String)
  /-- `f"Invalid email address: {value!r}"`. -/
  | invalidEmail (value : Str)
  deriving DecidableEq

/-- The subclasses of `DomainError` that are raised. -/
inductive DomainError
  | validation (message : Message)
  | invalidCredentials
  | invalidToken
  /-- `TokenExpiredError`, a subclass of `InvalidTokenError`. -/
  | tokenExpired
  | userNotFound
  | emailAlreadyExists
  deriving DecidableEq

/-- `exc.message`. -/
def DomainError.message : DomainError → Message
  | .validation m => m
  | .invalidCredentials => .text "Invalid email or password."
  | .invalidToken => .text "Invalid token."
  | .tokenExpired => .text "Token has expired."
  | .userNotFound => .text "User not found."
  | .emailAlreadyExists => .text "A user with this email already exists."

/-- `isinstance(exc, InvalidTokenError)`. -/
def DomainError.IsInvalidToken : DomainError → Prop
  | .invalidToken | .tokenExpired => True
  | _ => False

/-- The constraints of the schema that a commit can violate. -/
inductive Constraint
  | pkUsers
  | ixUsersEmail
  | pkRefreshTokens
  | fkRefreshTokensUserId
  deriving DecidableEq, Repr

/-- The exceptions a handler can end with. -/
inductive Exc
  | domain (e : DomainError)
  /-- An `IntegrityError` that the unit of work re-raises. -/
  | integrity (c : Constraint)
  /-- `StaleDataError`: a flushed row is no longer there. -/
  | staleData
  /-- `MultipleResultsFound`, from `scalar_one_or_none`. -/
  | multipleResultsFound
  /-- Any other exception of a port. -/
  | unexpected
  deriving DecidableEq

/-! ### Value objects -/

/-- `UserId`. -/
@[ext] structure UserId where
  value : UUID
  deriving DecidableEq

namespace UserId

/-- `str(user_id)`. -/
def str (u : UserId) : Str := u.value.str

/-- `UserId.from_str(raw)`. -/
def fromStr [Unicode] (raw : Str) : Except DomainError UserId :=
  match UUID.ofStr raw with
  | some u => .ok ⟨u⟩
  | none => .error (.validation (.text "Invalid user id."))

/-- **A user id survives its text.** -/
@[simp] theorem fromStr_str [Unicode] (u : UserId) : fromStr u.str = .ok u := by
  simp only [fromStr, str, UUID.ofStr_str]

theorem str_injective [Unicode] : Function.Injective str := fun _ _ h =>
  UserId.ext (UUID.str_injective h)

end UserId

/-- The class `[^@\s]` of the address pattern. -/
def notAtOrSpace (c : CodePoint) : Bool := c != ch '@' && !isSpace c

/-- `_EMAIL_RE`: `^[^@\s]+@[^@\s]+\.[^@\s]+$`. -/
def emailRe : Regex CodePoint :=
  .seq (.plus notAtOrSpace) (.seq (.chars (· == ch '@')) (.seq (.plus notAtOrSpace)
    (.seq (.chars (· == ch '.')) (.seq (.plus notAtOrSpace) (.dollar (ch '\n'))))))

section email

variable [Unicode]

/-- The normal form of an address: `raw.strip().lower()`. -/
def normalise (raw : Str) : Str := raw.strip.lower

@[simp] theorem normalise_normalise (raw : Str) : normalise (normalise raw) = normalise raw := by
  simp only [normalise, Str.strip_lower_strip, Str.lower_lower]

/-- `Email`. -/
@[ext] structure Email where
  value : Str
  valid : emailRe.matchStart value = true
  normal : normalise value = value
  deriving DecidableEq

/-- `Email(raw)`. -/
def Email.ofStr (raw : Str) : Except DomainError Email :=
  if h : emailRe.matchStart (normalise raw) = true then
    .ok ⟨normalise raw, h, normalise_normalise raw⟩
  else .error (.validation (.invalidEmail raw))

/-- **The normal form of an address is a fixed point.** -/
@[simp] theorem Email.ofStr_value (e : Email) : Email.ofStr e.value = .ok e := by
  rw [ofStr, dif_pos (e.normal.symm ▸ e.valid)]
  exact congrArg _ (Email.ext e.normal)

theorem Email.value_of_ofStr {raw : Str} {e : Email} (h : Email.ofStr raw = .ok e) :
    e.value = normalise raw := by
  unfold ofStr at h
  split at h
  · cases h; rfl
  · cases h

end email

/-- `HashedPassword`. -/
@[ext] structure HashedPassword where
  value : Str
  nonempty : value ≠ []
  deriving DecidableEq

/-- `HashedPassword(raw)`. -/
def HashedPassword.ofStr (raw : Str) : Except DomainError HashedPassword :=
  if h : raw ≠ [] then .ok ⟨raw, h⟩
  else .error (.validation (.text "Hashed password must not be empty."))

@[simp] theorem HashedPassword.ofStr_value (p : HashedPassword) :
    HashedPassword.ofStr p.value = .ok p := by
  rw [ofStr, dif_pos p.nonempty]

theorem HashedPassword.ofStr_eq_ok {raw : Str} {p : HashedPassword} :
    HashedPassword.ofStr raw = .ok p ↔ p.value = raw := by
  constructor
  · intro h
    unfold ofStr at h
    split at h
    · cases h; rfl
    · cases h
  · rintro rfl
    exact ofStr_value p

/-! ### Aggregates -/

/-- The domain events. -/
inductive DomainEvent
  | userRegistered (userId : UUID) (email : Str) (occurredAt : Instant)
  deriving DecidableEq

/-- `User`, with the events it has recorded. -/
structure User [Unicode] where
  id : UserId
  email : Email
  hashedPassword : HashedPassword
  isActive : Bool
  createdAt : Instant
  events : List DomainEvent := []
  deriving DecidableEq

namespace User

variable [Unicode]

/-- `User.create`. -/
def create (userId : UserId) (email : Email) (hashedPassword : HashedPassword)
    (createdAt : Instant) : User :=
  { id := userId, email, hashedPassword, isActive := true, createdAt,
    events := [.userRegistered userId.value email.value createdAt] }

/-- `user.deactivate()`. -/
def deactivate (u : User) : User := { u with isActive := false }

/-- `user.change_password(hashed_password)`. -/
def changePassword (u : User) (hashedPassword : HashedPassword) : User := { u with hashedPassword }

/-- `user.pull_events()`: the events, and the user without them. -/
def pullEvents (u : User) : List DomainEvent × User := (u.events, { u with events := [] })

end User

/-- `RefreshTokenRecord`. -/
structure RefreshTokenRecord where
  jti : UUID
  userId : UserId
  familyId : UUID
  expiresAt : Instant
  revokedAt : Option Instant := none
  deriving DecidableEq

namespace RefreshTokenRecord

/-- `record.is_revoked`. -/
def isRevoked (r : RefreshTokenRecord) : Bool := r.revokedAt.isSome

/-- `record.revoke(at)`: the first revocation stands. -/
def revoke (r : RefreshTokenRecord) (at' : Instant) : RefreshTokenRecord :=
  match r.revokedAt with
  | none => { r with revokedAt := some at' }
  | some _ => r

@[simp] theorem jti_revoke (r : RefreshTokenRecord) (at' : Instant) :
    (r.revoke at').jti = r.jti := by
  unfold revoke
  split <;> rfl

theorem revokedAt_revoke {r : RefreshTokenRecord} (at' : Instant) (h : r.revokedAt = none) :
    (r.revoke at').revokedAt = some at' := by
  rw [revoke, h]

@[simp] theorem familyId_revoke (r : RefreshTokenRecord) (at' : Instant) :
    (r.revoke at').familyId = r.familyId := by
  unfold revoke
  split <;> rfl

end RefreshTokenRecord

/-- `UserView`. -/
structure UserView where
  id : UUID
  email : Str
  isActive : Bool
  createdAt : Datetime
  deriving DecidableEq

/-- `Page`. -/
structure Page (α : Type) where
  items : List α
  nextCursor : Option Str

end FastapiStarter
