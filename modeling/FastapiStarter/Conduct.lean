import FastapiStarter.Integrity
import FastapiStarter.Lib.Discipline
import FastapiStarter.RevocationKept

/-!
# The conduct of the handlers

What a handler may do to its session depends on what it has read, which ids it has drawn
and what it has already sent to the database.  Here this is kept as a discipline: a user
that is written back was read, a new row has an id that was drawn for it, a bulk update
is made by a session that has written no record back, and after it only the commit
follows.  What a handler may raise is fixed with it.

## Main definitions

* `Command.Refuses` — the domain errors a command is refused with.
* `Conduct`, `Conduct.discipline` — what a handler has done, and may do next.

## Main results

* `follows_execute` — **every handler keeps to the discipline.**
-/

namespace FastapiStarter

open Interaction

variable [Unicode]

/-- The domain errors that a command is refused with. -/
def Command.Refuses : Command → DomainError → Prop
  | .createUser c, e => Email.ofStr c.email = .error e ∨ e = .emailAlreadyExists
  | .login _, e => e = .invalidCredentials
  | .refreshToken _, e | .logout _, e => e = .invalidToken ∨ e = .tokenExpired
  | .changePassword _, e => e = .userNotFound ∨ e = .invalidCredentials

/-- What a request has read, drawn and sent. -/
structure Conduct where
  /-- The users it has loaded, or made of one that it has loaded. -/
  users : List User
  /-- The ids it has drawn, and given to no row. -/
  ids : List UUID
  /-- A record was written back, and not committed. -/
  dirty : Bool
  /-- A bulk update was executed, and not committed. -/
  sweeping : Bool
  /-- An id that it has drawn was in use. -/
  collided : Bool

namespace Conduct

/-- A request that has done nothing yet. -/
def empty : Conduct := ⟨[], [], false, false, false⟩

/-- The calls that are allowed, as far as the session is concerned, to a request that may
be refused with the given errors. -/
def Admits (refuses : DomainError → Prop) (g : Conduct) : Port → Prop
  | .usersAdd user => user.id.value ∈ g.ids ∧ refuses .emailAlreadyExists
  | .usersUpdate user => user ∈ g.users
  | .refreshTokensAdd record => record.jti ∈ g.ids ∧ ∃ u ∈ g.users, u.id = record.userId
  | .refreshTokensUpdate record => record.revokedAt ≠ none ∧ refuses .invalidToken
  | .refreshTokensRevokeFamily _ _ | .refreshTokensRevokeAllForUser _ _ => g.dirty = false
  | .decode _ => refuses .invalidToken ∧ refuses .tokenExpired
  | .userChangePassword user _ => user ∈ g.users
  | _ => True

/-- What an answer adds. -/
def next (g : Conduct) : (o : Port) → o.Ret → Conduct
  | .usersGetById _, some user | .usersGetByEmail _, some user =>
    { g with users := user :: g.users }
  | .userChangePassword _ _, user => { g with users := user :: g.users }
  | .uuid4, id => { g with ids := id :: g.ids }
  | .usersAdd user, _ => { g with ids := g.ids.erase user.id.value }
  | .refreshTokensAdd record, _ => { g with ids := g.ids.erase record.jti }
  | .refreshTokensUpdate _, _ => { g with dirty := true }
  | .refreshTokensRevokeFamily _ _, _ | .refreshTokensRevokeAllForUser _ _, _ =>
    { g with sweeping := true }
  | .commit, _ => { g with dirty := false, sweeping := false }
  | _, _ => g

/-- The answers that are relied on; a user that was read once is found again. -/
def Replies (g : Conduct) : (o : Port) → o.Ret → Prop
  | .usersGetById userId, found => (∃ u ∈ g.users, u.id = userId) → found ≠ none
  | .hash _, hashed => hashed ≠ []
  | .recordRevoke record at', record' => record' = record.revoke at'
  | .userChangePassword user hashedPassword, user' => user' = user.changePassword hashedPassword
  | _, _ => True

/-- **The discipline of a request** that may be refused with the given errors. -/
def discipline (refuses : DomainError → Prop) : Discipline Conduct Port Port.Ret Exc where
  Calls g o := (g.sweeping = false ∨ o = .commit) ∧ g.Admits refuses o
  Answers := Replies
  next := next
  Ends g := g.sweeping = false
  Raises g e := (∃ x, e = .domain x ∧ refuses x) ∨ g.collided = true

end Conduct

/-! ### The handlers -/

open Conduct

theorem raises_of_refuses {refuses : DomainError → Prop} {g : Conduct} {x : DomainError}
    (h : refuses x) : (discipline refuses).Raises g (.domain x) := .inl ⟨x, rfl, h⟩

theorem follows_createUser (c : CreateUserCommand) :
    (discipline (Command.createUser c).Refuses).Follows (CreateUserHandler.execute c) .empty := by
  have htaken : Command.Refuses (.createUser c) .emailAlreadyExists := .inr rfl
  unfold CreateUserHandler.execute
  split
  · next e he => exact ⟨rfl, raises_of_refuses (.inl he)⟩
  simp only [Prog.op_bind]
  refine .call ⟨.inl rfl, trivial⟩ fun found _ => ?_
  split
  · exact ⟨rfl, raises_of_refuses htaken⟩
  refine .call ⟨.inl rfl, trivial⟩ fun userId _ => ?_
  refine .call ⟨.inl rfl, trivial⟩ fun hashed hhashed => ?_
  split
  · next e he =>
    -- the hash is not empty
    have hne : hashed ≠ [] := hhashed
    rw [HashedPassword.ofStr, dif_pos hne] at he
    cases he
  · next hashedPassword _ =>
    refine .call ⟨.inl rfl, trivial⟩ fun createdAt _ => ?_
    -- the user has the id that was drawn
    refine .call ⟨.inl rfl, List.mem_cons_self, htaken⟩ fun _ _ => ?_
    -- what is left after the commit is to dispatch its event
    refine .call ⟨.inl rfl, trivial⟩ fun _ _ => ?_
    refine .call ⟨.inl rfl, trivial⟩ fun _ _ => ?_
    refine .call ⟨.inl rfl, trivial⟩ fun _ _ => ?_
    exact rfl

theorem follows_login (c : LoginCommand) :
    (discipline (Command.login c).Refuses).Follows (LoginHandler.execute c) .empty := by
  have hrefused : ∀ g,
      (discipline (Command.login c).Refuses).Raises g (.domain .invalidCredentials) :=
    fun _ => raises_of_refuses rfl
  unfold LoginHandler.execute
  split
  · exact ⟨rfl, hrefused _⟩
  simp only [Prog.op_bind]
  refine .call ⟨.inl rfl, trivial⟩ fun found _ => ?_
  split
  · exact .call ⟨.inl rfl, trivial⟩ fun _ _ => ⟨rfl, hrefused _⟩
  next user _ =>
  split
  · exact .call ⟨.inl rfl, trivial⟩ fun _ _ => ⟨rfl, hrefused _⟩
  refine .call ⟨.inl rfl, trivial⟩ fun verified _ => ?_
  split
  · exact ⟨rfl, hrefused _⟩
  refine .call ⟨.inl rfl, trivial⟩ fun jti _ => ?_
  refine .call ⟨.inl rfl, trivial⟩ fun issued _ => ?_
  refine .call ⟨.inl rfl, trivial⟩ fun familyId _ => ?_
  -- the record is of the user that was read, under the first of the two ids
  refine .call ⟨.inl rfl, List.mem_cons_of_mem _ List.mem_cons_self, user,
    List.mem_cons_self, rfl⟩ fun _ _ => ?_
  refine .call ⟨.inl rfl, trivial⟩ fun _ _ => ?_
  refine .call ⟨.inl rfl, trivial⟩ fun _ _ => ?_
  exact rfl

theorem follows_refreshToken (c : RefreshTokenCommand) :
    (discipline (Command.refreshToken c).Refuses).Follows
      (RefreshTokenHandler.execute c) .empty := by
  have hinvalid : (Command.refreshToken c).Refuses .invalidToken := .inl rfl
  have hexpired : (Command.refreshToken c).Refuses .tokenExpired := .inr rfl
  have hrefused : ∀ g,
      (discipline (Command.refreshToken c).Refuses).Raises g (.domain .invalidToken) :=
    fun _ => raises_of_refuses hinvalid
  simp only [RefreshTokenHandler.execute, Prog.op_bind]
  refine .call ⟨.inl rfl, hinvalid, hexpired⟩ fun p _ => ?_
  split
  · exact ⟨rfl, hrefused _⟩
  refine .call ⟨.inl rfl, trivial⟩ fun found _ => ?_
  split
  · exact ⟨rfl, hrefused _⟩
  next record _ =>
  refine .call ⟨.inl rfl, trivial⟩ fun now _ => ?_
  split
  · -- replay: a bulk update, then the commit
    refine .call ⟨.inl rfl, rfl⟩ fun _ _ => ?_
    refine .call ⟨.inr rfl, trivial⟩ fun _ _ => ?_
    exact ⟨rfl, hrefused _⟩
  split
  · exact ⟨rfl, raises_of_refuses hexpired⟩
  split
  · exact ⟨rfl, hrefused _⟩
  refine .call ⟨.inl rfl, trivial⟩ fun found _ => ?_
  split
  · exact ⟨rfl, hrefused _⟩
  next user _ =>
  split
  · exact ⟨rfl, hrefused _⟩
  refine .call ⟨.inl rfl, trivial⟩ fun record' hrecord => ?_
  obtain rfl : record' = record.revoke now := hrecord
  -- rotation: the record is revoked, and its successor stored
  refine .call ⟨.inl rfl, revokedAt_revoke record now, hinvalid⟩ fun _ _ => ?_
  refine .call ⟨.inl rfl, trivial⟩ fun newJti _ => ?_
  refine .call ⟨.inl rfl, trivial⟩ fun issued _ => ?_
  refine .call ⟨.inl rfl, List.mem_cons_self, user, List.mem_cons_self, rfl⟩ fun _ _ => ?_
  refine .call ⟨.inl rfl, trivial⟩ fun _ _ => ?_
  refine .call ⟨.inl rfl, trivial⟩ fun _ _ => ?_
  exact rfl

theorem follows_logout (c : LogoutCommand) :
    (discipline (Command.logout c).Refuses).Follows (LogoutHandler.execute c) .empty := by
  have hinvalid : (Command.logout c).Refuses .invalidToken := .inl rfl
  have hexpired : (Command.logout c).Refuses .tokenExpired := .inr rfl
  simp only [LogoutHandler.execute, Prog.op_bind]
  refine .call ⟨.inl rfl, hinvalid, hexpired⟩ fun p _ => ?_
  split
  · exact ⟨rfl, raises_of_refuses hinvalid⟩
  refine .call ⟨.inl rfl, trivial⟩ fun found _ => ?_
  split
  · exact rfl
  refine .call ⟨.inl rfl, trivial⟩ fun _ _ => ?_
  -- the sweep of the family is followed by the commit
  refine .call ⟨.inl rfl, rfl⟩ fun _ _ => ?_
  refine .call ⟨.inr rfl, trivial⟩ fun _ _ => ?_
  exact rfl

/-- The user may have been read before, and is found then. -/
theorem follows_changePassword {refuses : DomainError → Prop} {g : Conduct}
    (c : ChangePasswordCommand) (hquiet : g.sweeping = false) (hclean : g.dirty = false)
    (hwrong : refuses .invalidCredentials)
    (hmissing : refuses .userNotFound ∨ ∃ u ∈ g.users, u.id = ⟨c.userId⟩) :
    (discipline refuses).Follows (ChangePasswordHandler.execute c) g := by
  simp only [ChangePasswordHandler.execute, Prog.op_bind]
  refine .call ⟨.inl hquiet, trivial⟩ fun found hfound => ?_
  split
  · refine ⟨hquiet, raises_of_refuses (hmissing.resolve_right fun hread => ?_)⟩
    exact hfound hread rfl
  next user _ =>
  refine .call ⟨.inl hquiet, trivial⟩ fun verified _ => ?_
  split
  · exact ⟨hquiet, raises_of_refuses hwrong⟩
  refine .call ⟨.inl hquiet, trivial⟩ fun hashed hhashed => ?_
  split
  · next e he =>
    have hne : hashed ≠ [] := hhashed
    rw [HashedPassword.ofStr, dif_pos hne] at he
    cases he
  refine .call ⟨.inl hquiet, List.mem_cons_self⟩ fun user' _ => ?_
  refine .call ⟨.inl hquiet, List.mem_cons_self⟩ fun _ _ => ?_
  -- the user is written at the commit; the records by a bulk update before it
  refine .call ⟨.inl hquiet, trivial⟩ fun _ _ => ?_
  refine .call ⟨.inl hquiet, hclean⟩ fun _ _ => ?_
  refine .call ⟨.inr rfl, trivial⟩ fun _ _ => ?_
  exact rfl

/-- **Every handler keeps to the discipline.** -/
theorem follows_execute (c : Command) : (discipline c.Refuses).Follows c.execute .empty := by
  cases c with
  | createUser c => exact Discipline.follows_map.mpr (follows_createUser c)
  | login c => exact Discipline.follows_map.mpr (follows_login c)
  | refreshToken c => exact Discipline.follows_map.mpr (follows_refreshToken c)
  | logout c => exact Discipline.follows_map.mpr (follows_logout c)
  | changePassword c =>
    have hfollows : (discipline (Command.changePassword c).Refuses).Follows
        (ChangePasswordHandler.execute c) .empty :=
      follows_changePassword c rfl rfl (.inr rfl) (.inl (.inl rfl))
    exact Discipline.follows_map.mpr hfollows

end FastapiStarter
