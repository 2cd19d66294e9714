import FastapiStarter.History

/-!
# The law of passwords

`LoginHandler` looks an address up in the table and verifies the password against
the stored hash.  Over a run this amounts to the history of registrations and
password changes: only what the latest of them set will do.

## Main definitions

* `Registered`, `LastPassword` — the past of a user.
* `MayLogin` — the law.
* `Credentials` — the table of users and the history agree.

## Main results

* `Credentials.step` — one step keeps the agreement.
* `login_iff_mayLogin` — **only the latest password works.**
-/

namespace FastapiStarter

open Relational

section laws

variable [Unicode]

/-! ### The law -/

/-- An address was registered for a user. -/
def Registered (h : List Entry) (email : Email) (userId : UUID) : Prop :=
  ∃ e ∈ h, e.Registers email userId

/-- The most recent registration or password change of a user set this password. -/
def LastPassword (h : List Entry) (userId : UUID) (password : Str) : Prop :=
  ∃ newer e older, h = newer ++ e :: older ∧ e.SetsPassword userId password ∧
    ∀ e' ∈ newer, ∀ password', ¬ e'.SetsPassword userId password'

/-- The history allows a login: the address is valid and registered, for a user
who is active and whose latest password is the one given. -/
def MayLogin (h : List Entry) (w : World) (c : LoginCommand) : Prop :=
  ∃ email userId, Email.ofStr c.email = .ok email ∧ Registered h email userId ∧
    (∃ m ∈ w.db.users.rows, m.id = userId ∧ m.isActive = true) ∧ LastPassword h userId c.password

section cons

variable {e : Entry} {h : List Entry} {email : Email} {userId : UUID} {password password' : Str}

@[simp] theorem registered_cons :
    Registered (e :: h) email userId ↔ e.Registers email userId ∨ Registered h email userId := by
  simp [Registered]

omit [Unicode] in
@[simp] theorem lastPassword_cons : LastPassword (e :: h) userId password ↔
    e.SetsPassword userId password ∨
      (∀ password', ¬ e.SetsPassword userId password') ∧ LastPassword h userId password := by
  constructor
  · rintro ⟨newer, e', older, heq, hsets, hnewer⟩
    rcases List.cons_eq_append_iff.mp heq with ⟨rfl, heq'⟩ | ⟨newer', rfl, rfl⟩
    · obtain ⟨rfl, rfl⟩ := List.cons.inj heq'
      exact .inl hsets
    · refine .inr ⟨hnewer e (by simp), newer', e', older, rfl, hsets, ?_⟩
      intro e'' he''
      exact hnewer e'' (List.mem_cons_of_mem _ he'')
  · rintro (hsets | ⟨hno, newer, e', older, rfl, hsets, hnewer⟩)
    · exact ⟨[], e, h, rfl, hsets, by simp⟩
    · refine ⟨e :: newer, e', older, rfl, hsets, fun e'' he'' => ?_⟩
      rcases List.mem_cons.mp he'' with rfl | he''
      · exact hno
      · exact hnewer e'' he''

omit [Unicode] in
/-- One entry sets one password. -/
theorem Entry.SetsPassword.unique (hs : e.SetsPassword userId password)
    (hs' : e.SetsPassword userId password') : password = password' := by
  rcases hs with ⟨c, v, hc, -, -, rfl⟩ | ⟨c, hc, -, -, rfl⟩ <;>
    rcases hs' with ⟨c', v', hc', -, -, rfl⟩ | ⟨c', hc', -, -, rfl⟩ <;>
      rw [hc] at hc' <;> cases hc' <;> rfl

omit [Unicode] in
theorem LastPassword.unique (hp : LastPassword h userId password)
    (hp' : LastPassword h userId password') : password = password' := by
  induction h with
  | nil =>
    obtain ⟨newer, e, older, heq, -⟩ := hp
    simp at heq
  | cons e h ih =>
    rw [lastPassword_cons] at hp hp'
    rcases hp with hs | ⟨hno, hp⟩ <;> rcases hp' with hs' | ⟨hno', hp'⟩
    · exact hs.unique hs'
    · exact absurd hs (hno' _)
    · exact absurd hs' (hno _)
    · exact ih hp hp'

end cons

/-! ### The table and the history -/

/-- The users stored are those registered, each with a hash of the latest password. -/
structure Credentials (env : Env) (h : List Entry) (w : World) : Prop where
  registered : ∀ email userId, Registered h email userId ↔
    ∃ m ∈ w.db.users.rows, m.id = userId ∧ m.email = email.value
  latest : ∀ m ∈ w.db.users.rows, ∃ salt password,
    m.hashedPassword = env.hash salt password ∧ LastPassword h m.id password

section step

variable {env : Env} {e : Entry} {h : List Entry}

theorem Credentials.initial : Credentials env [] .initial := by
  constructor <;> simp [Registered, World.initial, Database.empty]

/-- An entry that keeps ids and addresses, and registers nobody. -/
theorem Credentials.keep (hc : Credentials env h e.before) {f : UserModel → UserModel}
    (hrows : e.after.db.users.rows = e.before.db.users.rows.map f) (hid : ∀ m, (f m).id = m.id)
    (hemail : ∀ m, (f m).email = m.email) (hregisters : ∀ email userId, ¬ e.Registers email userId)
    (hlatest : ∀ m ∈ e.before.db.users.rows, ∃ salt password,
      (f m).hashedPassword = env.hash salt password ∧ LastPassword (e :: h) m.id password) :
    Credentials env (e :: h) e.after where
  registered email userId := by
    rw [registered_cons, or_iff_right (hregisters email userId), hc.registered, hrows]
    simp only [List.mem_map, exists_exists_and_eq_and, hid, hemail]
  latest := by
    rw [hrows, List.forall_mem_map]
    intro m hm
    rw [hid]
    exact hlatest m hm

/-- Where an entry sets no password, the latest one stays. -/
theorem Credentials.latest_cons (hc : Credentials env h e.before) {m : UserModel}
    (hm : m ∈ e.before.db.users.rows) (hno : ∀ password, ¬ e.SetsPassword m.id password) :
    ∃ salt password, m.hashedPassword = env.hash salt password ∧
      LastPassword (e :: h) m.id password := by
  obtain ⟨salt, password, hhash, hlast⟩ := hc.latest m hm
  exact ⟨salt, password, hhash, lastPassword_cons.mpr (.inr ⟨hno, hlast⟩)⟩

/-- A registration stores a new user, whose first password is the latest. -/
theorem Credentials.created (hc : Credentials env h e.before) {u : User} {salt : ℕ}
    {c : CreateUserCommand} {v : UserView} (haction : e.action = .command (.createUser c))
    (hok : e.result = .ok (.userView v)) (hv : v.id = u.id.value)
    (hemail : Email.ofStr c.email = .ok u.email)
    (hhash : u.hashedPassword.value = env.hash salt c.password)
    (hnew : ∀ m ∈ e.before.db.users.rows, m.id ≠ u.id.value)
    (hrows : e.after.db.users.rows = e.before.db.users.rows ++ [UserMapper.toModel u]) :
    Credentials env (e :: h) e.after := by
  -- this entry registers the new user alone, and sets a password of nobody else
  have hregisters : ∀ email userId, e.Registers email userId ↔
      u.id.value = userId ∧ u.email.value = email.value := by
    intro email userId
    constructor
    · rintro ⟨c', v', hc', hok', hemail', rfl⟩
      obtain rfl : c = c' := by simpa [haction] using hc'
      obtain rfl : v = v' := by simpa [hok] using hok'
      obtain rfl : u.email = email := Except.ok.inj (hemail.symm.trans hemail')
      exact ⟨hv.symm, rfl⟩
    · rintro ⟨rfl, hvalue⟩
      exact ⟨c, v, haction, hok, by rw [hemail, Email.ext hvalue], hv⟩
  have hsets : ∀ userId password, e.SetsPassword userId password → userId = u.id.value := by
    rintro userId password (⟨c', v', -, hok', rfl, -⟩ | ⟨c', hc', -⟩)
    · obtain rfl : v = v' := by simpa [hok] using hok'
      exact hv
    · simp [haction] at hc'
  constructor
  · intro email userId
    rw [registered_cons, hc.registered, hregisters, hrows]
    simp only [List.mem_append, List.mem_singleton, or_and_right, exists_or, exists_eq_left]
    exact or_comm
  · intro m hm
    rw [hrows, List.mem_append, List.mem_singleton] at hm
    rcases hm with hm | rfl
    · exact hc.latest_cons hm fun password hs => hnew m hm (hsets _ _ hs)
    · exact ⟨salt, c.password, hhash, lastPassword_cons.mpr (.inl (.inl
        ⟨c, v, haction, hok, hv, rfl⟩))⟩

/-- **One step keeps the table and the history in agreement.** -/
theorem Credentials.step (hdispatcher : env.dispatcher = eventDispatcher)
    (hw : Settled env e.before) (hfresh : env.NoRepeat e.after.ids) (he : Step env e)
    (hc : Credentials env h e.before) : Credentials env (e :: h) e.after := by
  -- the four things that can happen to the table of users
  cases he.users with
  | idle hrows hregisters hsets =>
    refine hc.keep (f := id) (by rw [hrows, List.map_id]) (fun _ => rfl) (fun _ => rfl)
      hregisters ?_
    exact fun m hm => hc.latest_cons hm (hsets m.id)
  | created haction hok hemail hid hids _ hhash hrows =>
    rw [hdispatcher, dispatch_eventDispatcher] at hok
    refine hc.created haction hok rfl hemail hhash ?_ hrows
    intro m hm
    rw [hid]
    exact hfresh.ne hids le_rfl (hw.userIds m hm)
  | @changed c salt haction hok husers =>
    have hsets : ∀ userId password, e.SetsPassword userId password ↔
        userId = c.userId ∧ password = c.newPassword := by
      intro userId password
      constructor
      · rintro (⟨c', v', hc', -⟩ | ⟨c', hc', -, rfl, rfl⟩)
        · simp [haction] at hc'
        · obtain rfl : c = c' := by simpa [haction] using hc'
          exact ⟨rfl, rfl⟩
      · rintro ⟨rfl, rfl⟩
        exact .inr ⟨c, haction, hok, rfl, rfl⟩
    have hregisters : ∀ email userId, ¬ e.Registers email userId := by
      rintro email userId ⟨c', v', hc', -⟩
      simp [haction] at hc'
    refine hc.keep (congrArg Table.rows husers) (fun m => by split <;> rfl)
      (fun m => by split <;> rfl) hregisters fun m hm => ?_
    by_cases hid : m.id = c.userId
    · -- the user whose password changes
      refine ⟨salt, c.newPassword, by simp [hid], ?_⟩
      exact lastPassword_cons.mpr (.inl ((hsets _ _).mpr ⟨hid, rfl⟩))
    · simp only [decide_eq_true_eq, hid, if_false]
      exact hc.latest_cons hm fun password hs => hid ((hsets _ _).mp hs).1
  | @deactivated userId haction husers =>
    refine hc.keep (congrArg Table.rows husers) (fun m => by split <;> rfl)
      (fun m => by split <;> rfl) ?_ fun m hm => ?_
    · rintro email userId' ⟨c, v, hc', -⟩
      simp [haction] at hc'
    · obtain ⟨salt, password, hhash, hlast⟩ := hc.latest_cons hm (by
        rintro password (⟨c, v, hc', -⟩ | ⟨c, hc', -⟩) <;> simp [haction] at hc')
      exact ⟨salt, password, by split <;> exact hhash, hlast⟩

theorem credentials_of_run {w : World} (hdispatcher : env.dispatcher = eventDispatcher)
    (hrun : Run env h w) : Credentials env h w :=
  hrun.invariant (Credentials env) .initial fun _ _ hw hfresh he hc =>
    hc.step hdispatcher hw hfresh he

variable {w : World}

/-- What `LoginHandler` checks in the table is what the law asks of the history. -/
theorem Credentials.loginAccepts_iff (hc : Credentials env h w) (hw : Settled env w)
    (hverify : ∀ p salt q, env.verify p (env.hash salt q) = true ↔ p = q) (c : LoginCommand) :
    (∃ u, LoginAccepts env w c u) ↔ MayLogin h w c := by
  constructor
  · rintro ⟨u, hu⟩
    obtain ⟨salt, password, hhash, hlast⟩ := hc.latest _ hu.stored
    have hpassword : env.verify c.password u.hashedPassword.value = true := hu.password
    rw [show u.hashedPassword.value = env.hash salt password from hhash, hverify] at hpassword
    refine ⟨u.email, u.id.value, hu.email, (hc.registered _ _).mpr ⟨_, hu.stored, rfl, rfl⟩,
      ⟨_, hu.stored, rfl, hu.active⟩, ?_⟩
    rw [hpassword]
    exact hlast
  · rintro ⟨email, userId, hemail, hregistered, ⟨m, hm, hid, hactive⟩, hlast⟩
    obtain ⟨m', hm', hid', haddress⟩ := (hc.registered _ _).mp hregistered
    obtain rfl := w.db.users.eq_of_key_eq hm hm' (hid.trans hid'.symm)
    obtain ⟨u, rfl⟩ := hw.readable m hm
    obtain ⟨salt, password, hhash, hlast'⟩ := hc.latest _ hm
    rw [hid] at hlast'
    refine ⟨u, hemail.trans (congrArg _ (Email.ext haddress.symm)), hm, hactive, ?_⟩
    rw [show u.hashedPassword.value = env.hash salt password from hhash, hverify]
    exact hlast.unique hlast'

/-- **Only the latest password works**: a login succeeds exactly when the history
allows it, and raises `InvalidCredentialsError` otherwise. -/
theorem login_iff_mayLogin (hdispatcher : env.dispatcher = eventDispatcher)
    (hverify : ∀ p salt q, env.verify p (env.hash salt q) = true ↔ p = q) (hrun : Run env h w)
    (c : LoginCommand) (hfresh : env.NoRepeat (execute env (.login c) w).2.ids) :
    ((∃ p, (execute env (.login c) w).1 = .ok (.tokenPair p)) ↔ MayLogin h w c) ∧
      (¬ MayLogin h w c →
        (execute env (.login c) w).1 = .error (.domain .invalidCredentials)) := by
  have haccepts := (credentials_of_run hdispatcher hrun).loginAccepts_iff hrun.settled hverify c
  have hout := login_outcome hrun.settled c hfresh
  rw [← haccepts]
  generalize (execute env (.login c) w).2 = w' at hout
  generalize (execute env (.login c) w).1 = r at hout ⊢
  cases hout with
  | refused hno _ => exact ⟨by simp [hno], fun _ => rfl⟩
  | opened ha _ => exact ⟨iff_of_true ⟨_, rfl⟩ ⟨_, ha⟩, fun hno => absurd ⟨_, ha⟩ hno⟩

end step

end laws

attribute [local instance] asciiUnicode in
/-- After the sample run, the history allows another login with the same password. -/
theorem login_iff_mayLogin_sample : MayLogin sampleHistory loggedInWorld sampleLogin :=
  (login_iff_mayLogin rfl verify_sampleEnv run_sampleHistory sampleLogin (by decide)).1.mp ⟨_, rfl⟩

end FastapiStarter
