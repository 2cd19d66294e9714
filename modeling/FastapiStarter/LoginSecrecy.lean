import FastapiStarter.History

/-!
# What a failed login reveals

A login fails for a malformed or an unknown address, an inactive user or a wrong
password.  From outside these cannot be told apart: the error is the same, the
database is left alone, and the work of the password hasher is given by the
command.

## Main definitions

* `hasherOperations` — how often an execution calls the password hasher.

## Main results

* `hasherOperations_login` — a login calls it as often as its command says.
* `failed_login_reveals_nothing` — **failed logins cannot be told apart.**
-/

namespace FastapiStarter

open Interaction

section secrecy

variable [Unicode]

/-- An expensive call of the password hasher. -/
def Port.isHasher : Port → Bool
  | .hash _ | .verify _ _ => true
  | _ => false

/-- How often the execution of a command calls the password hasher. -/
def hasherOperations (env : Env) (c : Command) (w : World) : ℕ :=
  (c.execute.called (exec env 0) (Session.empty, w)).countP Port.isHasher

/-- The number of hasher operations of a login: none for a malformed address. -/
def LoginCommand.hasherOperations (c : LoginCommand) : ℕ :=
  match Email.ofStr c.email with
  | .error _ => 0
  | .ok _ => 1

variable {env : Env} {w w₁ w₂ : World}

/-- **A login calls the hasher as often as its command says**, whatever is stored. -/
theorem hasherOperations_login (hw : Settled env w) (c : LoginCommand) :
    FastapiStarter.hasherOperations env (.login c) w = c.hasherOperations := by
  unfold FastapiStarter.hasherOperations LoginCommand.hasherOperations
  simp only [Command.execute, Prog.called_map, LoginHandler.execute]
  rcases Email.ofStr c.email with e | email
  · rfl
  simp only [Prog.op_bind, Prog.called_call, exec, World.view_of_nil hw.statements]
  by_cases hfound : ∃ m ∈ w.db.users.rows, m.email = email.value
  swap
  · -- no user: a password is hashed all the same
    have hnone : ∀ m ∈ w.db.users.rows, m.email ≠ email.value := fun m hm he => hfound ⟨m, hm, he⟩
    rw [Session.selectUserByEmail_none hnone]
    rfl
  obtain ⟨m, hm, he⟩ := hfound
  obtain ⟨u, rfl⟩ := hw.readable m hm
  have hselect := Session.selectUserByEmail_some env.dialect hw.emails hm
  rw [he] at hselect
  simp only [hselect, userOfModel, UserMapper.toDomain_toModel, ofDomain, Except.map]
  by_cases hactive : u.isActive = true
  swap
  · -- an inactive user: so it is here
    simp only [hactive]
    rfl
  simp only [hactive, Bool.not_true, Bool.false_eq_true, if_false, Prog.called_call, exec]
  by_cases hverify : env.verify c.password u.hashedPassword.value = true
  swap
  · simp only [hverify]
    rfl
  -- a login that passes has verified once, and what follows calls no hasher
  simp only [hverify, Bool.not_true, Bool.false_eq_true, if_false, Prog.called_call, exec]
  generalize execCommit env 0 _ _ = committed
  rcases committed with ⟨_ | _, s, w'⟩
  · rfl
  · rfl

/-- A failed login: its error, its effect on the database and its hasher operations. -/
structure FailedLogin (env : Env) (w : World) (c : LoginCommand) (e : DomainError) (n : ℕ) :
    Prop where
  result : (execute env (.login c) w).1 = .error (.domain e)
  db : (execute env (.login c) w).2.db = w.db
  operations : hasherOperations env (.login c) w = n

/-- **Failed logins cannot be told apart**: in any two databases in which a login
fails, it raises the same error with the same message, changes nothing, and calls
the hasher as often as its command says. -/
theorem failed_login_reveals_nothing (c : LoginCommand) (h₁ : Settled env w₁) (h₂ : Settled env w₂)
    (hfresh₁ : env.NoRepeat (execute env (.login c) w₁).2.ids)
    (hfresh₂ : env.NoRepeat (execute env (.login c) w₂).2.ids)
    (hfails₁ : ∃ x, (execute env (.login c) w₁).1 = .error x)
    (hfails₂ : ∃ x, (execute env (.login c) w₂).1 = .error x) :
    ∃ e, FailedLogin env w₁ c e c.hasherOperations ∧ FailedLogin env w₂ c e c.hasherOperations := by
  have hfailed : ∀ w, Settled env w → env.NoRepeat (execute env (.login c) w).2.ids →
      (∃ x, (execute env (.login c) w).1 = .error x) →
      FailedLogin env w c .invalidCredentials c.hasherOperations := by
    intro w hw hfresh ⟨x, hx⟩
    have houtcome := login_outcome hw c hfresh
    have hops := hasherOperations_login hw c
    generalize hr : (execute env (.login c) w).1 = r at houtcome
    generalize hw' : (execute env (.login c) w).2 = w' at houtcome
    cases houtcome with
    | refused _ hunchanged => exact ⟨hr, by rw [hw', hunchanged.db], hops⟩
    | opened => cases hx.symm.trans hr
  exact ⟨.invalidCredentials, hfailed w₁ h₁ hfresh₁ hfails₁, hfailed w₂ h₂ hfresh₂ hfails₂⟩

end secrecy

/-! ### An unknown address and a wrong password -/

section sample

attribute [local instance] asciiUnicode

/-- A login fails where the address is unknown, and where the password is wrong. -/
theorem failed_login_reveals_nothing_sample :
    ∃ e, FailedLogin sampleEnv .initial ⟨sampleLogin.email, lit ['q']⟩ e 1 ∧
      FailedLogin sampleEnv loggedInWorld ⟨sampleLogin.email, lit ['q']⟩ e 1 :=
  failed_login_reveals_nothing ⟨sampleLogin.email, lit ['q']⟩ .initial
    run_sampleHistory.settled (by decide) (by decide) ⟨_, rfl⟩ ⟨_, rfl⟩

end sample

end FastapiStarter
