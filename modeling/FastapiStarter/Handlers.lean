import FastapiStarter.Lib.Prog
import FastapiStarter.Tokens

/-!
# The command handlers

The use cases of `app/application`, as programs over their ports.  Every method
of a port is an operation, and so is every method that changes an aggregate in
place: whether the change is seen through the repository depends on the adapter.

## Main definitions

* `Port`, `Port.Ret` — the operations and the types of their answers.
* `CreateUserHandler.execute`, `LoginHandler.execute`, `RefreshTokenHandler.execute`,
  `LogoutHandler.execute`, `ChangePasswordHandler.execute` — the handlers.
* `Command`, `Command.execute` — any of the five commands.
-/

namespace FastapiStarter

open Interaction

variable [Unicode]

/-! ### Ports -/

/-- The operations a handler can call. -/
inductive Port
  | usersAdd (user : User)
  | usersUpdate (user : User)
  /-- `uow.users.get_by_id(user_id)`. -/
  | usersGetById (userId : UserId)
  /-- `uow.users.get_by_email(email)`. -/
  | usersGetByEmail (email : Email)
  /-- `uow.users.exists_by_email(email)`. -/
  | usersExistsByEmail (email : Email)
  | refreshTokensAdd (record : RefreshTokenRecord)
  | refreshTokensUpdate (record : RefreshTokenRecord)
  /-- `uow.refresh_tokens.get_by_jti(jti)`. -/
  | refreshTokensGetByJti (jti : UUID)
  /-- `uow.refresh_tokens.revoke_family(family_id, at)`. -/
  | refreshTokensRevokeFamily (familyId : UUID) (at' : Instant)
  /-- `uow.refresh_tokens.revoke_all_for_user(user_id, at)`. -/
  | refreshTokensRevokeAllForUser (userId : UserId) (at' : Instant)
  | commit
  | hash (plain : Str)
  | verify (plain hashed : Str)
  | createAccessToken (subject : Str)
  | createRefreshToken (subject : Str) (tokenId : UUID)
  | decode (token : Token)
  | now
  | uuid4
  | dispatch (events : List DomainEvent)
  | recordRevoke (record : RefreshTokenRecord) (at' : Instant)
  | userChangePassword (user : User) (hashedPassword : HashedPassword)
  | userPullEvents (user : User)
  deriving DecidableEq

/-- The answers; a method that changes an aggregate answers with its new state. -/
@[reducible] def Port.Ret : Port → Type
  | .usersGetById _ | .usersGetByEmail _ => Option User
  | .usersExistsByEmail _ | .verify _ _ => Bool
  | .refreshTokensGetByJti _ => Option RefreshTokenRecord
  | .hash _ => Str
  | .createAccessToken _ => Token
  | .createRefreshToken _ _ => IssuedToken
  | .decode _ => TokenPayload
  | .now => Instant
  | .uuid4 => UUID
  | .recordRevoke _ _ => RefreshTokenRecord
  | .userChangePassword _ _ => User
  | .userPullEvents _ => List DomainEvent
  | _ => Unit

/-- Programs over the ports. -/
abbrev Handler (α : Type) := Prog Port Port.Ret Exc α

/-- A call of a port. -/
abbrev port (o : Port) : Handler o.Ret := Prog.op o

/-- `raise` of a domain error. -/
abbrev raise {α : Type} (e : DomainError) : Handler α := Prog.raise (.domain e)

/-! ### Commands and responses -/

/-- `CreateUserCommand`. -/
structure CreateUserCommand where
  email : Str
  password : Str
  deriving DecidableEq

/-- `LoginCommand`. -/
structure LoginCommand where
  email : Str
  password : Str
  deriving DecidableEq

/-- `RefreshTokenCommand`. -/
structure RefreshTokenCommand where
  refreshToken : Token
  deriving DecidableEq

/-- `LogoutCommand`. -/
structure LogoutCommand where
  refreshToken : Token
  deriving DecidableEq

/-- `ChangePasswordCommand`. -/
structure ChangePasswordCommand where
  userId : UUID
  currentPassword : Str
  newPassword : Str
  deriving DecidableEq

/-- `TokenPair`. -/
structure TokenPair where
  accessToken : Token
  refreshToken : Token
  tokenType : String := "bearer"
  deriving DecidableEq

/-! ### The handlers -/

/-- `CreateUserHandler.execute`. -/
def CreateUserHandler.execute (command : CreateUserCommand) : Handler UserView :=
  match Email.ofStr command.email with
  | .error e => raise e
  | .ok email => do
    if ← port (.usersExistsByEmail email) then
      raise .emailAlreadyExists
    else
      -- keyword arguments are evaluated in order: the id before the hash and the clock
      let userId ← port .uuid4
      let hashed ← port (.hash command.password)
      match HashedPassword.ofStr hashed with
      | .error e => raise e
      | .ok hashedPassword =>
        let createdAt ← port .now
        let user := User.create ⟨userId⟩ email hashedPassword createdAt
        port (.usersAdd user)
        port .commit
        let events ← port (.userPullEvents user)
        port (.dispatch events)
        return { id := user.id.value, email := user.email.value, isActive := user.isActive,
                 createdAt := .aware user.createdAt }

/-- `LoginHandler.execute`. -/
def LoginHandler.execute (command : LoginCommand) : Handler TokenPair :=
  match Email.ofStr command.email with
  -- `except ValidationError: raise InvalidCredentialsError from None`
  | .error _ => raise .invalidCredentials
  | .ok email => do
    match ← port (.usersGetByEmail email) with
    | none =>
      let _ ← port (.hash command.password)
      raise .invalidCredentials
    | some user =>
      if !user.isActive then
        let _ ← port (.hash command.password)
        raise .invalidCredentials
      else if !(← port (.verify command.password user.hashedPassword.value)) then
        raise .invalidCredentials
      else
        let subject := user.id.str
        let jti ← port .uuid4
        let issued ← port (.createRefreshToken subject jti)
        let familyId ← port .uuid4
        port (.refreshTokensAdd
          { jti, userId := user.id, familyId, expiresAt := issued.expiresAt })
        port .commit
        let accessToken ← port (.createAccessToken subject)
        return { accessToken, refreshToken := issued.token }

/-- `RefreshTokenHandler.execute`. -/
def RefreshTokenHandler.execute (command : RefreshTokenCommand) : Handler TokenPair := do
  let payload ← port (.decode command.refreshToken)
  if payload.tokenType ≠ .refresh then
    raise .invalidToken
  else
    match ← port (.refreshTokensGetByJti payload.tokenId) with
    | none => raise .invalidToken
    | some record =>
      let now ← port .now
      if record.isRevoked then
        port (.refreshTokensRevokeFamily record.familyId now)
        port .commit
        raise .invalidToken
      else if record.expiresAt ≤ now then
        raise .tokenExpired
      else
        match UserId.fromStr payload.subject with
        -- `except ValidationError: raise InvalidTokenError from None`
        | .error _ => raise .invalidToken
        | .ok userId =>
          match ← port (.usersGetById userId) with
          | none => raise .invalidToken
          | some user =>
            if !user.isActive then
              raise .invalidToken
            else
              let subject := user.id.str
              let record ← port (.recordRevoke record now)
              port (.refreshTokensUpdate record)
              let newJti ← port .uuid4
              let issued ← port (.createRefreshToken subject newJti)
              port (.refreshTokensAdd
                { jti := newJti, userId := user.id, familyId := record.familyId,
                  expiresAt := issued.expiresAt })
              port .commit
              let accessToken ← port (.createAccessToken subject)
              return { accessToken, refreshToken := issued.token }

/-- `LogoutHandler.execute`. -/
def LogoutHandler.execute (command : LogoutCommand) : Handler Unit := do
  let payload ← port (.decode command.refreshToken)
  if payload.tokenType ≠ .refresh then
    raise .invalidToken
  else
    match ← port (.refreshTokensGetByJti payload.tokenId) with
    | none => return ()
    | some record =>
      let now ← port .now
      port (.refreshTokensRevokeFamily record.familyId now)
      port .commit

/-- `ChangePasswordHandler.execute`. -/
def ChangePasswordHandler.execute (command : ChangePasswordCommand) : Handler Unit := do
  match ← port (.usersGetById ⟨command.userId⟩) with
  | none => raise .userNotFound
  | some user =>
    if !(← port (.verify command.currentPassword user.hashedPassword.value)) then
      raise .invalidCredentials
    else
      let hashed ← port (.hash command.newPassword)
      match HashedPassword.ofStr hashed with
      | .error e => raise e
      | .ok hashedPassword =>
        let user ← port (.userChangePassword user hashedPassword)
        port (.usersUpdate user)
        let now ← port .now
        port (.refreshTokensRevokeAllForUser user.id now)
        port .commit

/-! ### Any command -/

/-- A command for one of the handlers. -/
inductive Command
  | createUser (c : CreateUserCommand)
  | login (c : LoginCommand)
  | refreshToken (c : RefreshTokenCommand)
  | logout (c : LogoutCommand)
  | changePassword (c : ChangePasswordCommand)
  deriving DecidableEq

/-- What a handler returns. -/
inductive Response
  | userView (v : UserView)
  | tokenPair (p : TokenPair)
  | none
  deriving DecidableEq

/-- `handler.execute(command)`, for the handler of the command. -/
def Command.execute : Command → Handler Response
  | .createUser c => Response.userView <$> CreateUserHandler.execute c
  | .login c => Response.tokenPair <$> LoginHandler.execute c
  | .refreshToken c => Response.tokenPair <$> RefreshTokenHandler.execute c
  | .logout c => (fun _ => Response.none) <$> LogoutHandler.execute c
  | .changePassword c => (fun _ => Response.none) <$> ChangePasswordHandler.execute c

end FastapiStarter
