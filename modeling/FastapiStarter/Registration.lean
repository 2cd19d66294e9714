import FastapiStarter.History
import FastapiStarter.Protocol
import FastapiStarter.Traces

/-!
# Registrations side by side

Registration looks the address up before it stores the user, and the unique index
on the address decides at the commit.  So of the registrations of one address
that run side by side one wins, and the others learn that the address is taken,
by the lookup or by the commit.

## Main definitions

* `committers`, `dispatches`, `DispatchFollowsCommit` — commits and events in a trace.
* `RegisterState`, `RegisterAct` — a registration, seen from the others.
* `Registrations` — the invariant.
* `OneWinner` — what holds of each address.

## Main results

* `registrations_have_one_winner` — **one registration of an address succeeds.**
-/

namespace FastapiStarter

open Interaction Relational

section registration

variable [Unicode]

/-! ### Commits and events in a trace -/

/-- The requests that have committed, in the order of their commits. -/
def committers (tr : Trace) : List ℕ := ((tr.filter IsCommit).map (·.who)).reverse

/-- The events that request `sid` has dispatched, a list for each dispatch. -/
def dispatches (sid : ℕ) (tr : Trace) : List (List DomainEvent) :=
  tr.filterMap fun ev =>
    match ev.op with
    | .dispatch events => if ev.who = sid then some events else none
    | _ => none

/-- Whoever dispatches events has committed before. -/
def DispatchFollowsCommit : Trace → Prop
  | [] => True
  | ev :: tr => (∀ events, ev.op = .dispatch events → Changed ev.who tr) ∧ DispatchFollowsCommit tr

section traces

variable {sid sid' : ℕ} {o : Port} {ans : Except Exc o.Ret} {tr : Trace}

theorem committers_cons (h : IsCommit ⟨sid, o, ans⟩ = false) :
    committers (⟨sid, o, ans⟩ :: tr) = committers tr := by
  rw [committers, List.filter_cons_of_neg (by simp [h])]
  rfl

theorem committers_commit :
    committers (⟨sid, .commit, .ok ()⟩ :: tr) = committers tr ++ [sid] := by
  rw [committers, List.filter_cons_of_pos rfl, List.map_cons, List.reverse_cons]
  rfl

/-- A call that dispatches nothing, or of another request. -/
theorem dispatches_cons (h : sid' = sid → ∀ events, o ≠ .dispatch events) :
    dispatches sid' (⟨sid, o, ans⟩ :: tr) = dispatches sid' tr := by
  refine List.filterMap_cons_none ?_
  split
  · next events ho => exact if_neg fun heq => h heq.symm events ho
  · rfl

theorem dispatches_dispatch {events : List DomainEvent} {ans : Except Exc Unit} :
    dispatches sid (⟨sid, .dispatch events, ans⟩ :: tr) = events :: dispatches sid tr :=
  List.filterMap_cons_some (if_pos rfl)

end traces

/-! ### The protocol of a registration -/

/-- How far a registration has come. -/
inductive RegisterState
  | idle
  | invalid (e : DomainError)
  | begun (email : Email)
  | absent (email : Email)
  | drew (email : Email) (id : UUID)
  | adds (user : User)
  | stored (user : User)
  /-- The events were dispatched. -/
  | done (user : User)
  /-- The address was found, by the lookup or by the commit. -/
  | taken (email : Email)
  /-- The id was found by the commit. -/
  | collided (user : User)

namespace RegisterState

/-- The address to register. -/
def address : RegisterState → Option Email
  | idle | invalid _ => none
  | begun email | absent email | drew email _ | taken email => some email
  | adds user | stored user | done user | collided user => some user.email

/-- The id that was drawn for a user who is not stored. -/
def drawn : RegisterState → Option UUID
  | drew _ id => some id
  | adds user => some user.id.value
  | _ => none

/-- The user who is stored. -/
def user : RegisterState → Option User
  | stored user | done user => some user
  | _ => none

/-- The events that were dispatched. -/
def dispatched : RegisterState → List (List DomainEvent)
  | done user => [[.userRegistered user.id.value user.email.value user.createdAt]]
  | _ => []

/-- The outcomes with which a request may end. -/
def Outcome : RegisterState → Except Exc Response → Prop
  | idle, x => x = .ok .none
  | invalid e, x => x = .error (.domain e)
  | done user, x => x = .ok (.userView ⟨user.id.value, user.email.value, user.isActive,
      .aware user.createdAt⟩)
  | taken _, x => x = .error (.domain .emailAlreadyExists)
  | collided _, x => x = .error (.integrity .pkUsers)
  | _, _ => False

/-- The state in which a request starts. -/
def start : Option CreateUserCommand → RegisterState
  | none => idle
  | some c =>
    match Email.ofStr c.email with
    | .error e => invalid e
    | .ok email => begun email

theorem address_start {c : CreateUserCommand} {email : Email}
    (h : Email.ofStr c.email = .ok email) :
    (start (some c)).address = some email := by
  simp only [start, h]
  rfl

end RegisterState

/-- The address has a row. -/
def Database.HasEmail (db : Database) (email : Email) : Prop :=
  ∃ m ∈ db.users.rows, m.email = email.value

/-- **What a call of a registration may do** to its state and to the world. -/
inductive RegisterAct (env : Env) :
    RegisterState → World → (o : Port) → Except Exc o.Ret → World → RegisterState → Prop
  | free {email : Email} {w : World} {ans : Except Exc _} :
    RegisterAct env (.begun email) w (.usersExistsByEmail email) ans w (.absent email)
  | occupied {email : Email} {w : World} {ans : Except Exc _} : w.db.HasEmail email →
    RegisterAct env (.begun email) w (.usersExistsByEmail email) ans w (.taken email)
  | draw {email : Email} {w : World} {ans : Except Exc _} :
    RegisterAct env (.absent email) w .uuid4 ans w.drawId (.drew email (w.freshId env))
  /-- The hash and the clock. -/
  | quiet {φ : RegisterState} {w w' : World} {o : Port} {ans : Except Exc o.Ret} : o ≠ .commit →
    (∀ events, o ≠ .dispatch events) → w'.db = w.db → w'.statements = w.statements →
    w'.ids = w.ids → RegisterAct env φ w o ans w' φ
  | add {user : User} {w : World} {ans : Except Exc _} :
    RegisterAct env (.drew user.email user.id.value) w (.usersAdd user) ans w (.adds user)
  | store {user : User} {w : World} {users : Table UserModel.id} :
    w.db.users.insert (UserMapper.toModel user) = some users → ¬ w.db.HasEmail user.email →
    RegisterAct env (.adds user) w .commit (.ok ()) { w with db := ⟨users, w.db.refreshTokens⟩ }
      (.stored user)
  /-- The unique index on the address is violated. -/
  | clash {user : User} {w : World} {e : Exc} : w.db.HasEmail user.email →
    RegisterAct env (.adds user) w .commit (.error e) w (.taken user.email)
  /-- The primary key is violated. -/
  | collide {user : User} {w : World} {e : Exc} :
    (∃ m ∈ w.db.users.rows, m.id = user.id.value) →
    RegisterAct env (.adds user) w .commit (.error e) w (.collided user)
  | dispatch {user : User} {w w' : World} {ans : Except Exc _} : w'.db = w.db →
    w'.statements = w.statements → w'.ids = w.ids → RegisterAct env (.stored user) w
      (.dispatch [.userRegistered user.id.value user.email.value user.createdAt]) ans w'
      (.done user)

/-- The protocol of registrations. -/
@[reducible] def registrations (env : Env) : Abstraction ℕ Port Port.Ret Exc Response World where
  Phase := RegisterState
  Rely _ _ w := w.statements = []
  Act _ := RegisterAct env
  Final _ := RegisterState.Outcome

/-! ### The handler follows the protocol -/

section sim

variable {env : Env} {sid : ℕ}

omit [Unicode] in
theorem Session.flush_addUser (db : Database) (m : UserModel) :
    (Session.empty.addUser m).flush db = db.insertUser m := by
  simp only [Session.flush, Session.addUser, Session.empty, List.nil_append, List.foldlM_nil,
    List.foldlM_cons, bind_pure, pure_bind]

/-- The commit of a registration. -/
theorem registerAct_commit {w : World} (hw : w.statements = []) (u : User) :
    (∃ s w', exec env sid .commit (Session.empty.addUser (UserMapper.toModel u), w) =
        (.ok (), s, w') ∧ RegisterAct env (.adds u) w .commit (.ok ()) w' (.stored u)) ∨
      ∃ e φ s, exec env sid .commit (Session.empty.addUser (UserMapper.toModel u), w) =
        (.error e, s, w) ∧ RegisterAct env (.adds u) w .commit (.error e) w φ ∧
          φ.Outcome (.error e) := by
  simp only [exec, execCommit, World.view_of_nil hw, World.close_of_nil hw, Session.flush_addUser,
    Database.insertUser]
  have hiff : (w.db.users.rows.any fun m => m.email = (UserMapper.toModel u).email) = true ↔
      w.db.HasEmail u.email := by
    rw [List.any_eq_true]
    exact exists_congr fun m => and_congr_right fun _ => decide_eq_true_iff
  rcases hinsert : w.db.users.insert (UserMapper.toModel u) with _ | users
  · refine .inr ⟨_, .collided u, _, rfl, .collide ?_, ?_⟩
    · exact Table.insert_eq_none.mp hinsert
    · rw [translateCommitError_integrity, if_neg (by simp)]
      rfl
  · by_cases hany : (w.db.users.rows.any fun m => m.email = (UserMapper.toModel u).email) = true
    · simp only [hany, if_true, translateCommitError_integrity]
      exact .inr ⟨_, .taken u.email, _, rfl, .clash (hiff.mp hany), rfl⟩
    · simp only [hany]
      exact .inl ⟨_, _, rfl, .store hinsert fun h => hany (hiff.mpr h)⟩

/-- **The handler follows the protocol.** -/
theorem sim_createUser (hhash : ∀ salt plain, env.hash salt plain ≠ [])
    (hdispatch : env.dispatcher = eventDispatcher) (c : CreateUserCommand) :
    Sim (system env) (registrations env) sid (Command.execute (.createUser c)) .empty
      (.start (some c)) := by
  simp only [Command.execute, CreateUserHandler.execute, RegisterState.start]
  rcases hemail : Email.ofStr c.email with e | email
  · rfl
  simp only [Prog.op_bind, Prog.map_call]
  -- the address is looked up: taken, or absent at that moment
  refine Sim.call fun w hw => ?_
  simp only [system_exec, exec, World.view_of_nil hw]
  split
  · next hany => exact ⟨.taken email, .occupied (by simpa [Database.HasEmail] using hany), rfl⟩
  refine ⟨.absent email, .free, Sim.call fun w _ => ⟨_, .draw, Sim.call fun w' _ => ?_⟩⟩
  simp only [system_exec, exec]
  rcases hhashed : HashedPassword.ofStr (env.hash w'.salts c.password) with e | hashed
  · -- a hash is not empty
    simp [HashedPassword.ofStr, hhash] at hhashed
  refine ⟨_, .quiet (by simp) (by simp) rfl rfl rfl, Sim.call fun w'' _ => ?_⟩
  refine ⟨_, .quiet (by simp) (by simp) rfl rfl rfl, ?_⟩
  have hadd := @RegisterAct.add _ env (User.create ⟨w.freshId env⟩ email hashed (w''.now env))
  refine Sim.call fun w _ => ⟨_, hadd, Sim.call fun w hw => ?_⟩
  rw [system_exec]
  -- the commit stores the user, or finds the address taken meanwhile
  rcases registerAct_commit hw _ with ⟨s, w', hx, hact⟩ | ⟨e, φ, s, hx, hact, hφ⟩
  swap
  · rw [hx]
    exact ⟨φ, hact, hφ⟩
  rw [hx]
  refine ⟨_, hact, Sim.call fun w _ => ?_⟩
  simp only [system_exec, exec]
  refine ⟨_, .quiet (by simp) (by simp) rfl rfl rfl, Sim.call fun w _ => ?_⟩
  simp only [system_exec, exec, hdispatch, dispatch_eventDispatcher]
  exact ⟨_, .dispatch rfl rfl rfl, rfl⟩

end sim

/-! ### What every step keeps -/

/-- What holds of one registration, in every configuration. -/
structure RegisterState.Holds (env : Env) (request : Option CreateUserCommand) (w : World)
    (tr : Trace) (sid : ℕ) (ψ : RegisterState) : Prop where
  address : ψ.address = (start request).address
  stored : ∀ u, ψ.user = some u → UserMapper.toModel u ∈ w.db.users.rows
  committed : Changed sid tr ↔ ψ.user ≠ none
  taken : ∀ email, ψ = .taken email → w.db.HasEmail email
  drawn : ∀ id, ψ.drawn = some id → env.Drawn w.ids id ∧ ∀ m ∈ w.db.users.rows, m.id ≠ id
  noCollision : ∀ u, ψ ≠ .collided u
  dispatched : dispatches sid tr = ψ.dispatched

/-- The row is the one that a committed registration has stored. -/
def StoredBy (φ : ℕ → RegisterState) (sid : ℕ) (m : UserModel) : Prop :=
  ∃ u, (φ sid).user = some u ∧ m = UserMapper.toModel u

/-- What holds of registrations that started in `w₀`. -/
structure Registrations (env : Env) (requests : ℕ → Option CreateUserCommand) (w₀ : World)
    (φ : ℕ → RegisterState) (w : World) (tr : Trace) : Prop where
  each : ∀ sid, (φ sid).Holds env (requests sid) w tr sid
  /-- The table holds the rows it held, and those of the committed registrations. -/
  rows : ∃ new, w.db.users.rows = w₀.db.users.rows ++ new ∧
    List.Forall₂ (StoredBy φ) (committers tr) new
  refreshTokens : w.db.refreshTokens = w₀.db.refreshTokens
  emails : (w.db.users.rows.map (·.email)).Nodup
  ids : ∀ m ∈ w.db.users.rows, env.Drawn w.ids m.id
  /-- One address, one user. -/
  winner : ∀ i j u u', (φ i).user = some u → (φ j).user = some u' → u.email = u'.email → i = j
  /-- The ids drawn for users who are not stored are distinct. -/
  distinct : ∀ i j id, (φ i).drawn = some id → (φ j).drawn = some id → i = j
  order : DispatchFollowsCommit tr

section step

variable {env : Env} {requests : ℕ → Option CreateUserCommand} {w₀ w w' : World}
  {φ : ℕ → RegisterState} {tr : Trace} {sid sid' : ℕ} {o : Port} {ans : Except Exc o.Ret}
  {φ' ψ : RegisterState}

theorem changed_cons_of_ne {ev : Event ℕ Port Port.Ret Exc} (h : ev.who ≠ sid') :
    Changed sid' (ev :: tr) ↔ Changed sid' tr := by
  rw [changed_cons, or_iff_right fun hev => h hev.1]

theorem changed_cons_of_not {ev : Event ℕ Port Port.Ret Exc} (h : IsCommit ev = false) :
    Changed sid' (ev :: tr) ↔ Changed sid' tr := by
  rw [changed_cons, or_iff_right fun hev => by simp [h] at hev]

/-- A registration stays as it is while others move, who only insert rows and never
its own id. -/
theorem RegisterState.Holds.other {request : Option CreateUserCommand}
    (h : ψ.Holds env request w tr sid') (hne : sid' ≠ sid)
    (hids : w.ids ≤ w'.ids) (hkeep : ∀ m ∈ w.db.users.rows, m ∈ w'.db.users.rows)
    (hnew : ∀ m ∈ w'.db.users.rows, m ∈ w.db.users.rows ∨ ψ.drawn ≠ some m.id) :
    ψ.Holds env request w' (⟨sid, o, ans⟩ :: tr) sid' where
  address := h.address
  stored u hu := hkeep _ (h.stored u hu)
  committed := (changed_cons_of_ne hne.symm).trans h.committed
  taken email hψ := by
    obtain ⟨m, hm, hemail⟩ := h.taken email hψ
    exact ⟨m, hkeep m hm, hemail⟩
  drawn id hid := by
    obtain ⟨hdrawn, hfresh⟩ := h.drawn id hid
    refine ⟨hdrawn.mono hids, fun m hm => ?_⟩
    rcases hnew m hm with hold | hother
    · exact hfresh m hold
    · intro heq
      exact hother (heq ▸ hid)
  noCollision := h.noCollision
  dispatched := (dispatches_cons fun heq => absurd heq hne).trans h.dispatched

/-- A step that stores nothing and leaves the winners as they are. -/
theorem Registrations.frame (h : Registrations env requests w₀ φ w tr) (hdb : w'.db = w.db)
    (hids : w.ids ≤ w'.ids) (hcommit : IsCommit ⟨sid, o, ans⟩ = false)
    (huser : φ'.user = (φ sid).user)
    (hself : φ'.Holds env (requests sid) w' (⟨sid, o, ans⟩ :: tr) sid)
    (hdrawn : ∀ id, φ'.drawn = some id → ∀ j ≠ sid, (φ j).drawn ≠ some id)
    (horder : ∀ events, o = .dispatch events → Changed sid tr) :
    Registrations env requests w₀ (Function.update φ sid φ') w' (⟨sid, o, ans⟩ :: tr) := by
  have husers : ∀ i, (Function.update φ sid φ' i).user = (φ i).user :=
    (Function.forall_update_iff φ fun i ψ => ψ.user = (φ i).user).mpr ⟨huser, fun _ _ => rfl⟩
  constructor
  case each =>
    rw [Function.forall_update_iff φ fun i ψ => ψ.Holds env (requests i) w' _ i]
    refine ⟨hself, fun i hne => (h.each i).other hne hids ?_ ?_⟩
    · rw [hdb]
      exact fun _ hm => hm
    · rw [hdb]
      exact fun _ hm => .inl hm
  case rows =>
    obtain ⟨new, hrows, hstored⟩ := h.rows
    refine ⟨new, by rw [hdb, hrows], ?_⟩
    rw [committers_cons hcommit]
    refine hstored.imp fun i m => ?_
    rintro ⟨u, hu, rfl⟩
    exact ⟨u, (husers i).trans hu, rfl⟩
  case refreshTokens =>
    rw [hdb]
    exact h.refreshTokens
  case emails =>
    rw [hdb]
    exact h.emails
  case ids =>
    rw [hdb]
    exact fun m hm => (h.ids m hm).mono hids
  case winner =>
    intro i j u u' hu hu'
    exact h.winner i j u u' ((husers i).symm.trans hu) ((husers j).symm.trans hu')
  -- an id drawn in this step was drawn by nobody else
  case distinct =>
    intro i j id hi hj
    by_cases hisid : i = sid
    · by_cases hjsid : j = sid
      · rw [hisid, hjsid]
      · rw [hisid, Function.update_self] at hi
        rw [Function.update_of_ne hjsid] at hj
        exact absurd hj (hdrawn id hi j hjsid)
    · rw [Function.update_of_ne hisid] at hi
      by_cases hjsid : j = sid
      · rw [hjsid, Function.update_self] at hj
        exact absurd hi (hdrawn id hj i hisid)
      · rw [Function.update_of_ne hjsid] at hj
        exact h.distinct i j id hi hj
  case order => exact ⟨horder, h.order⟩

/-- **The commit that wins**: the address has no row, and no other registration has
stored a user for it. -/
theorem Registrations.store (h : Registrations env requests w₀ φ w tr) {u : User}
    (hψ : φ sid = .adds u) {users : Table UserModel.id}
    (hinsert : w.db.users.insert (UserMapper.toModel u) = some users)
    (hnone : ¬ w.db.HasEmail u.email) :
    Registrations env requests w₀ (Function.update φ sid (.stored u))
      { w with db := ⟨users, w.db.refreshTokens⟩ } (⟨sid, .commit, .ok ()⟩ :: tr) := by
  have hrows : users.rows = w.db.users.rows ++ [UserMapper.toModel u] :=
    Table.rows_of_insert hinsert
  have hmem : ∀ m, m ∈ users.rows ↔ m ∈ w.db.users.rows ∨ m = UserMapper.toModel u :=
    fun m => Table.mem_of_insert hinsert
  have hself := h.each sid
  rw [hψ] at hself
  have hdrawn : env.Drawn w.ids u.id.value := (hself.drawn u.id.value rfl).1
  -- the other registrations have stored users with other addresses
  have hothers : ∀ j u', (φ j).user = some u' → u'.email ≠ u.email := by
    intro j u' hj hemail
    exact hnone ⟨_, (h.each j).stored u' hj, congrArg Email.value hemail⟩
  have huser : ∀ j u', (φ j).user = some u' →
      (Function.update φ sid (.stored u) j).user = some u' := by
    intro j u' hj
    have hne : j ≠ sid := by
      rintro rfl
      rw [hψ] at hj
      cases hj
    rwa [Function.update_of_ne hne]
  constructor
  case each =>
    rw [Function.forall_update_iff φ fun i ψ => ψ.Holds env (requests i) _ _ i]
    constructor
    · refine { address := hself.address, stored := ?_, committed := ?_, taken := by simp,
               drawn := by simp [RegisterState.drawn], noCollision := by simp, dispatched := ?_ }
      · intro u' hu'
        obtain rfl : u = u' := Option.some.inj hu'
        exact (hmem _).mpr (.inr rfl)
      · simp [changed_cons, IsCommit, RegisterState.user]
      · exact (dispatches_cons fun _ => by simp).trans hself.dispatched
    · intro j hne
      refine (h.each j).other hne le_rfl (fun m hm => (hmem m).mpr (.inl hm)) fun m hm => ?_
      rcases (hmem m).mp hm with hold | rfl
      · exact .inl hold
      · refine .inr fun hj => hne (h.distinct j sid u.id.value hj ?_)
        rw [hψ]
        rfl
  case rows =>
    obtain ⟨new, hnew, hstored⟩ := h.rows
    refine ⟨new ++ [UserMapper.toModel u], by rw [← List.append_assoc, ← hnew]; exact hrows, ?_⟩
    rw [committers_commit]
    refine List.rel_append (hstored.imp fun j m => ?_) (.cons ⟨u, ?_, rfl⟩ .nil)
    · rintro ⟨u', hu', rfl⟩
      exact ⟨u', huser j u' hu', rfl⟩
    · rw [Function.update_self]
      rfl
  case refreshTokens => exact h.refreshTokens
  case emails =>
    change (users.rows.map (·.email)).Nodup
    rw [hrows, List.map_append, List.nodup_append]
    refine ⟨h.emails, by simp, ?_⟩
    intro email hemail email' hemail'
    obtain ⟨m, hm, rfl⟩ := List.mem_map.mp hemail
    obtain rfl : email' = u.email.value := by simpa [UserMapper.toModel] using hemail'
    exact fun heq => hnone ⟨m, hm, heq⟩
  case ids =>
    intro m hm
    rcases (hmem m).mp hm with hold | rfl
    · exact h.ids m hold
    · exact hdrawn
  case winner =>
    have hcases : ∀ j u', (Function.update φ sid (.stored u) j).user = some u' →
        j = sid ∧ u' = u ∨ (φ j).user = some u' := by
      intro j u' hj
      by_cases hsid : j = sid
      · rw [hsid, Function.update_self] at hj
        exact .inl ⟨hsid, (Option.some.inj hj).symm⟩
      · rw [Function.update_of_ne hsid] at hj
        exact .inr hj
    intro i j u₁ u₂ hi hj hemail
    rcases hcases i u₁ hi with ⟨hisid, rfl⟩ | hiold
    · rcases hcases j u₂ hj with ⟨hjsid, -⟩ | hjold
      · rw [hisid, hjsid]
      · exact absurd hemail.symm (hothers j u₂ hjold)
    · rcases hcases j u₂ hj with ⟨-, rfl⟩ | hjold
      · exact absurd hemail (hothers i u₁ hiold)
      · exact h.winner i j u₁ u₂ hiold hjold hemail
  case distinct =>
    have hback : ∀ j id, (Function.update φ sid (.stored u) j).drawn = some id →
        (φ j).drawn = some id := by
      intro j id hj
      by_cases hsid : j = sid
      · rw [hsid, Function.update_self] at hj
        cases hj
      · rwa [Function.update_of_ne hsid] at hj
    intro i j id hi hj
    exact h.distinct i j id (hback i id hi) (hback j id hj)
  case order => exact ⟨by simp, h.order⟩

/-- **One step keeps the invariant**, while ids do not repeat. -/
theorem Registrations.step (h : Registrations env requests w₀ φ w tr) (hfresh : env.NoRepeat w'.ids)
    (hact : RegisterAct env (φ sid) w o ans w' φ') :
    Registrations env requests w₀ (Function.update φ sid φ') w' (⟨sid, o, ans⟩ :: tr) := by
  have hself := h.each sid
  have hdistinct : ∀ id, (φ sid).drawn = some id → ∀ j ≠ sid, (φ j).drawn ≠ some id :=
    fun id hid j hne hj => hne (h.distinct j sid id hj hid)
  generalize hψ : φ sid = ψ at hact
  rw [hψ] at hself hdistinct
  -- a call that is neither a commit nor a dispatch leaves the trace of the request alone
  have hquiet : IsCommit ⟨sid, o, ans⟩ = false → (∀ events, o ≠ .dispatch events) →
      (Changed sid (⟨sid, o, ans⟩ :: tr) ↔ ψ.user ≠ none) ∧
        dispatches sid (⟨sid, o, ans⟩ :: tr) = ψ.dispatched := by
    intro hcommit hdispatch
    exact ⟨(changed_cons_of_not hcommit).trans hself.committed,
      (dispatches_cons fun _ => hdispatch).trans hself.dispatched⟩
  cases hact with
  | free =>
    obtain ⟨hcommit, hevents⟩ := hquiet rfl (by simp)
    refine h.frame rfl le_rfl rfl (by rw [hψ]; rfl) ?_ (by simp [RegisterState.drawn]) (by simp)
    exact { address := hself.address, stored := by simp [RegisterState.user], committed := hcommit,
            taken := by simp, drawn := by simp [RegisterState.drawn], noCollision := by simp,
            dispatched := hevents }
  | occupied hhas =>
    obtain ⟨hcommit, hevents⟩ := hquiet rfl (by simp)
    refine h.frame rfl le_rfl rfl (by rw [hψ]; rfl) ?_ (by simp [RegisterState.drawn]) (by simp)
    refine { address := hself.address, stored := by simp [RegisterState.user], committed := hcommit,
             taken := ?_, drawn := by simp [RegisterState.drawn], noCollision := by simp,
             dispatched := hevents }
    rintro email ⟨⟩
    exact hhas
  | @draw email w _ =>
    obtain ⟨hcommit, hevents⟩ := hquiet rfl (by simp)
    have hlt : w.ids < w.drawId.ids := Nat.lt_succ_self _
    have hnew : ∀ x, env.Drawn w.ids x → x ≠ w.freshId env := fun x hx => hfresh.ne hlt le_rfl hx
    refine h.frame rfl hlt.le rfl (by rw [hψ]; rfl) ?_ ?_ (by simp)
    · refine { address := hself.address, stored := by simp [RegisterState.user],
               committed := hcommit, taken := by simp, drawn := ?_, noCollision := by simp,
               dispatched := hevents }
      rintro id ⟨⟩
      exact ⟨⟨w.ids, hlt, rfl⟩, fun m hm => hnew m.id (h.ids m hm)⟩
    · rintro id ⟨⟩ j - hj
      exact hnew _ ((h.each j).drawn _ hj).1 rfl
  | quiet ho hdispatch hdb _ hids =>
    obtain ⟨hcommit, hevents⟩ := hquiet (isCommit_of_ne ho) hdispatch
    refine h.frame hdb hids.ge (isCommit_of_ne ho) (by rw [hψ]) ?_ hdistinct
      fun events heq => absurd heq (hdispatch events)
    exact { address := hself.address, stored := by rw [hdb]; exact hself.stored,
            committed := hcommit,
            taken := by rw [hdb]; exact hself.taken, drawn := by rw [hdb, hids]; exact hself.drawn,
            noCollision := hself.noCollision, dispatched := hevents }
  | @add u w _ =>
    obtain ⟨hcommit, hevents⟩ := hquiet rfl (by simp)
    refine h.frame rfl le_rfl rfl (by rw [hψ]; rfl) ?_ hdistinct (by simp)
    exact { address := hself.address, stored := by simp [RegisterState.user], committed := hcommit,
            taken := by simp, drawn := hself.drawn, noCollision := by simp, dispatched := hevents }
  | store hinsert hnone => exact h.store hψ hinsert hnone
  | clash hhas =>
    obtain ⟨hcommit, hevents⟩ := hquiet rfl (by simp)
    refine h.frame rfl le_rfl rfl (by rw [hψ]; rfl) ?_ (by simp [RegisterState.drawn]) (by simp)
    refine { address := hself.address, stored := by simp [RegisterState.user], committed := hcommit,
             taken := ?_, drawn := by simp [RegisterState.drawn], noCollision := by simp,
             dispatched := hevents }
    rintro email ⟨⟩
    exact hhas
  | @collide u w _ htaken =>
    -- a fresh id is not in the table
    obtain ⟨m, hm, hid⟩ := htaken
    exact absurd hid ((hself.drawn u.id.value rfl).2 m hm)
  | @dispatch u w w' _ hdb _ hids =>
    have hcommit : Changed sid tr := hself.committed.mpr (by simp [RegisterState.user])
    refine h.frame hdb hids.ge rfl (by rw [hψ]; rfl) ?_ (by simp [RegisterState.drawn])
      fun _ _ => hcommit
    refine { address := hself.address, stored := by rw [hdb]; exact hself.stored, committed := ?_,
             taken := by simp, drawn := by simp [RegisterState.drawn], noCollision := by simp,
             dispatched := ?_ }
    · exact (changed_cons_of_not rfl).trans hself.committed
    · rw [dispatches_dispatch, hself.dispatched]
      rfl

end step

/-! ### One winner -/

/-- The row that a view shows. -/
def UserView.Shows (v : UserView) (m : UserModel) : Prop :=
  v = ⟨m.id, m.email, m.isActive, m.createdAt⟩

/-- The event of the registration that returned `v`. -/
def UserView.registered (v : UserView) : DomainEvent :=
  .userRegistered v.id v.email (asUtc v.createdAt)

/-- What holds of the registrations of each address, wherever they have come to. -/
structure OneWinner (env : Env) (requests : ℕ → Option CreateUserCommand) (w : World)
    (cfg : Config ℕ Port Port.Ret Exc Response Session World) : Prop where
  /-- At most one registration of an address succeeds. -/
  once : ∀ i j c c' email v v', requests i = some c → requests j = some c' →
    Email.ofStr c.email = .ok email → Email.ofStr c'.email = .ok email →
    (cfg.threads i).result = some (.ok v) → (cfg.threads j).result = some (.ok v') → i = j
  /-- It returns the view of the one row stored for the address. -/
  stored : ∀ i c email r, requests i = some c → Email.ofStr c.email = .ok email →
    (cfg.threads i).result = some (.ok r) → ∃ v m, r = .userView v ∧ v.Shows m ∧
      (cfg.shared.db.users.rows.filter fun m => m.email = email.value) = [m] ∧
      dispatches i cfg.trace = [[v.registered]]
  /-- Every other is told that the address is taken, as it is, and has written nothing. -/
  refused : ∀ i c email e, requests i = some c → Email.ofStr c.email = .ok email →
    (cfg.threads i).result = some (.error e) → e = .domain .emailAlreadyExists ∧
      cfg.shared.db.HasEmail email ∧ ¬ Changed i cfg.trace ∧ dispatches i cfg.trace = []
  /-- The tables hold what they held, and a row for each registration that has committed. -/
  database : cfg.shared.db.refreshTokens = w.db.refreshTokens ∧
    ∃ new, cfg.shared.db.users.rows = w.db.users.rows ++ new ∧
      List.Forall₂ (fun i m => ∀ v, (cfg.threads i).result = some (.ok (.userView v)) → v.Shows m)
        (committers cfg.trace) new
  /-- Events are dispatched once, by those who have committed before. -/
  events : DispatchFollowsCommit cfg.trace ∧ ∀ i, (dispatches i cfg.trace).length ≤ 1 ∧
    ((cfg.threads i).result ≠ none → (Changed i cfg.trace ↔ dispatches i cfg.trace ≠ []))
  /-- Nobody waits. -/
  enabled : ∀ i o, (system env).enabled i o ((cfg.threads i).loc, cfg.shared)

section final

variable {env : Env} {requests : ℕ → Option CreateUserCommand} {w : World}

theorem Registrations.initial (hw : Settled env w) :
    Registrations env requests w (fun sid => .start (requests sid)) w [] := by
  have hstart : ∀ sid, (RegisterState.start (requests sid)).user = none ∧
      (RegisterState.start (requests sid)).drawn = none ∧
      (RegisterState.start (requests sid)).dispatched = [] ∧
      (∀ email, RegisterState.start (requests sid) ≠ .taken email) ∧
      ∀ u, RegisterState.start (requests sid) ≠ .collided u := by
    intro sid
    unfold RegisterState.start
    repeat' split
    all_goals exact ⟨rfl, rfl, rfl, by simp, by simp⟩
  refine { each := fun sid => ?_, rows := ⟨[], (List.append_nil _).symm, .nil⟩,
           refreshTokens := rfl, emails := hw.emails, ids := hw.userIds, winner := ?_,
           distinct := ?_, order := trivial }
  · obtain ⟨huser, hdrawn, hdispatched, htaken, hcollided⟩ := hstart sid
    exact { address := rfl, stored := by simp [huser], committed := by simp [huser, changed_nil],
            taken := fun email heq => absurd heq (htaken email), drawn := by simp [hdrawn],
            noCollision := hcollided, dispatched := hdispatched.symm }
  · intro i j u u' hi
    simp [(hstart i).1] at hi
  · intro i j id hi
    simp [(hstart i).2.1] at hi

/-- The invariant, in every configuration in which ids have not repeated. -/
theorem registrations_of_reach (hw : Settled env w) (hhash : ∀ salt plain, env.hash salt plain ≠ [])
    (hdispatch : env.dispatcher = eventDispatcher)
    {cfg : Config ℕ Port Port.Ret Exc Response Session World}
    (hreach : Reach (system env) anyCall (start (fun sid => (requests sid).map .createUser) w) cfg)
    (hfresh : env.NoRepeat cfg.shared.ids) :
    ∃ φ, Registrations env requests w φ cfg.shared cfg.trace ∧ cfg.shared.statements = [] ∧
      ∀ i x, (cfg.threads i).result = some x → (φ i).Outcome x := by
  have hsim : ∀ sid, Sim (system env) (registrations env) sid
      ((start (fun sid => (requests sid).map .createUser) w).threads sid).prog .empty
      (.start (requests sid)) := by
    intro sid
    simp only [start]
    rcases requests sid with _ | c
    · rfl
    · exact sim_createUser hhash hdispatch c
  obtain ⟨φ, ⟨hstatements, hinv⟩, hφ⟩ := hreach.abstract
    (fun (φ : ℕ → RegisterState) w' tr => w'.statements = [] ∧
      (env.NoRepeat w'.ids → Registrations env requests w φ w' tr))
    hsim ⟨hw.statements, fun _ => .initial hw⟩ (fun φ w' tr h _ => h.1)
    (by
      intro φ w₁ tr sid o ans w₂ φ' h _ hact
      change RegisterAct env (φ sid) w₁ o ans w₂ φ' at hact
      obtain ⟨hstatements, hinv⟩ := h
      -- no step opens a transaction or gives back an id
      have hstep : w₂.statements = w₁.statements ∧ w₁.ids ≤ w₂.ids := by
        generalize φ sid = ψ at hact
        cases hact with
        | quiet _ _ _ hst hids => exact ⟨hst, hids.ge⟩
        | dispatch _ hst hids => exact ⟨hst, hids.ge⟩
        | draw => exact ⟨rfl, Nat.le_succ _⟩
        | _ => exact ⟨rfl, le_rfl⟩
      refine ⟨hstep.1.trans hstatements, fun hfresh => ?_⟩
      have hfresh₁ : env.NoRepeat w₁.ids := fun i hi j hj =>
        hfresh i (hi.trans_le hstep.2) j (hj.trans_le hstep.2)
      exact (hinv hfresh₁).step hfresh hact)
  exact ⟨φ, hinv hfresh, hstatements, fun i x hx => (hφ i).final hx⟩

theorem RegisterState.Holds.address_eq {tr : Trace} {i : ℕ} {c : CreateUserCommand} {email : Email}
    {ψ : RegisterState} (h : ψ.Holds env (some c) w tr i)
      (hemail : Email.ofStr c.email = .ok email) :
    ψ.address = some email := by
  rw [h.address]
  exact RegisterState.address_start hemail

/-- Who has returned has stored a user. -/
theorem RegisterState.Holds.done_of_ok {tr : Trace} {i : ℕ} {c : CreateUserCommand} {email : Email}
    {r : Response} {ψ : RegisterState} (h : ψ.Holds env (some c) w tr i)
    (hemail : Email.ofStr c.email = .ok email) (hout : ψ.Outcome (.ok r)) :
    ∃ u, ψ = .done u ∧ u.email = email ∧
      r = .userView ⟨u.id.value, u.email.value, u.isActive, .aware u.createdAt⟩ := by
  have haddr := h.address_eq hemail
  cases ψ with
  | done u => exact ⟨u, rfl, Option.some.inj haddr, Except.ok.inj hout⟩
  | idle => cases haddr
  | begun | absent | drew | adds | stored => exact hout.elim
  | _ => cases hout

/-- Who has raised was refused, since ids do not collide. -/
theorem RegisterState.Holds.taken_of_error {tr : Trace} {i : ℕ} {c : CreateUserCommand}
    {email : Email} {e : Exc} {ψ : RegisterState} (h : ψ.Holds env (some c) w tr i)
    (hemail : Email.ofStr c.email = .ok email) (hout : ψ.Outcome (.error e)) :
    ψ = .taken email ∧ e = .domain .emailAlreadyExists := by
  have haddr := h.address_eq hemail
  cases ψ with
  | taken email' => exact ⟨congrArg _ (Option.some.inj haddr), Except.error.inj hout⟩
  | collided u => exact absurd rfl (h.noCollision u)
  | invalid => cases haddr
  | begun | absent | drew | adds | stored => exact hout.elim
  | _ => cases hout

/-- **One registration of an address succeeds**, of any number that run side by
side, in whatever order they make their calls. -/
theorem registrations_have_one_winner (hw : Settled env w)
    (hhash : ∀ salt plain, env.hash salt plain ≠ []) (hdispatch : env.dispatcher = eventDispatcher)
    {cfg : Config ℕ Port Port.Ret Exc Response Session World}
    (hreach : Reach (system env) anyCall (start (fun sid => (requests sid).map .createUser) w) cfg)
    (hfresh : env.NoRepeat cfg.shared.ids) : OneWinner env requests w cfg := by
  obtain ⟨φ, hinv, hstatements, hfinal⟩ := registrations_of_reach hw hhash hdispatch hreach hfresh
  have hheld : ∀ i c, requests i = some c → (φ i).Holds env (some c) cfg.shared cfg.trace i :=
    fun i c hc => hc ▸ hinv.each i
  -- each part is read off the states in which the registrations have ended
  refine { once := ?_, stored := ?_, refused := ?_, database := ⟨hinv.refreshTokens, ?_⟩,
           events := ⟨hinv.order, fun i => ⟨?_, fun hres => ?_⟩⟩, enabled := ?_ }
  · intro i j c c' email v v' hc hc' hemail hemail' hi hj
    obtain ⟨u, hu, hue, -⟩ := (hheld i c hc).done_of_ok hemail (hfinal i _ hi)
    obtain ⟨u', hu', hue', -⟩ := (hheld j c' hc').done_of_ok hemail' (hfinal j _ hj)
    exact hinv.winner i j u u' (by rw [hu]; rfl) (by rw [hu']; rfl) (hue.trans hue'.symm)
  · intro i c email r hc hemail hres
    obtain ⟨u, hu, rfl, rfl⟩ := (hheld i c hc).done_of_ok hemail (hfinal i _ hres)
    have hm := (hinv.each i).stored u (by rw [hu]; rfl)
    refine ⟨_, UserMapper.toModel u, rfl, rfl, ?_, ?_⟩
    · exact filter_email hinv.emails hm
    · rw [(hinv.each i).dispatched, hu]
      rfl
  · intro i c email e hc hemail hres
    obtain ⟨hφ, he⟩ := (hheld i c hc).taken_of_error hemail (hfinal i _ hres)
    refine ⟨he, (hinv.each i).taken email hφ, ?_, ?_⟩
    · rw [(hinv.each i).committed, hφ]
      simp [RegisterState.user]
    · rw [(hinv.each i).dispatched, hφ]
      rfl
  · obtain ⟨new, hrows, hstored⟩ := hinv.rows
    refine ⟨new, hrows, hstored.imp fun i m hm v hres => ?_⟩
    obtain ⟨u, hu, rfl⟩ := hm
    have hout := hfinal i _ hres
    generalize φ i = ψ at hu hout
    cases ψ with
    | done u' =>
      obtain rfl : u' = u := Option.some.inj hu
      exact Response.userView.inj (Except.ok.inj hout)
    | stored => exact hout.elim
    | _ => cases hu
  · rw [(hinv.each i).dispatched]
    unfold RegisterState.dispatched
    split <;> simp
  · obtain ⟨x, hx⟩ := Option.ne_none_iff_exists'.mp hres
    have hout := hfinal i x hx
    rw [(hinv.each i).committed, (hinv.each i).dispatched]
    generalize φ i = ψ at hout
    cases ψ with
    | begun | absent | drew | adds | stored => exact hout.elim
    | _ => simp [RegisterState.user, RegisterState.dispatched]
  · intro i o st hst
    simp [hstatements] at hst

end final

end registration

/-! ### Two registrations of one address -/

section sample

attribute [local instance] asciiUnicode

/-- Two requests register one address, which they spell differently. -/
def registerTwice : ℕ → Option CreateUserCommand
  | 0 => some ⟨lit ['a', '@', 'b', '.', 'c'], lit ['p']⟩
  | 1 => some ⟨lit ['A', '@', 'b', '.', 'c', ' '], lit ['q']⟩
  | _ => none

/-- Both look the address up before the first commits. -/
def registeredTwice : Config ℕ Port Port.Ret Exc Response Session World :=
  (start (fun sid => (registerTwice sid).map .createUser) .initial).schedule (system sampleEnv)
    ([0, 1] ++ List.replicate 7 0 ++ List.replicate 5 1)

/-- There the second is refused by its commit. -/
theorem registrations_have_one_winner_sample :
    (registeredTwice.threads 1).result = some (.error (.domain .emailAlreadyExists)) ∧
      OneWinner sampleEnv registerTwice .initial registeredTwice :=
  ⟨by decide +kernel, registrations_have_one_winner .initial (fun _ _ => List.cons_ne_nil _ _) rfl
    (reach_schedule _ .refl (by decide +kernel)) (by decide +kernel)⟩

end sample

end FastapiStarter
