import FastapiStarter.Races

/-!
# Registrations and their announcements

`CreateUserHandler` commits the new user first and hands its events to the dispatcher
afterwards, in the same request.  Nothing is announced that is not stored, nothing twice,
and a request that has answered has announced: only a request that is cut off between the
two leaves a user behind that nobody is told of.

## Main definitions

* `Announcing` — how far a request is with its announcement.
* `Announced` — the invariant: who is stored, and who of them is announced.
* `AnnouncedOnce` — what is promised of a run.

## Main results

* `registrations_are_announced` — **whatever races, every user who is registered is
  announced once, after being stored and before the request answers.**
-/

namespace FastapiStarter

open Fallible Interaction Relational

section registrations

variable [Unicode]

/-! ### The announcement of one request -/

/-- The event that a registration records. -/
def User.announcement (u : User) : DomainEvent :=
  .userRegistered u.id.value u.email.value u.createdAt

/-- How far a request is with its announcement. -/
inductive Announcing
  /-- It has stored nobody. -/
  | idle
  /-- The user is in its session. -/
  | added (user : User)
  /-- The user is committed, and not announced. -/
  | stored (user : User)
  | told (user : User)

namespace Announcing

/-- The calls that are allowed; `adds` are the addresses that the request may register. -/
def Admits (adds : Email → Prop) : Announcing → Port → Prop
  | .idle, .usersAdd user => adds user.email ∧ user.events = [user.announcement]
  | .idle, .dispatch _ => False
  | .idle, _ => True
  | .added _, .commit => True
  | .stored user, .userPullEvents user' => user' = user
  | .stored user, .dispatch events => events = user.events
  | _, _ => False

/-- Where an answer leads. -/
def next : Announcing → (o : Port) → o.Ret → Announcing
  | .idle, .usersAdd user, _ => .added user
  | .added user, .commit, _ => .stored user
  | .stored user, .dispatch _, _ => .told user
  | g, _, _ => g

/-- The answers that are relied on. -/
def Replies : (o : Port) → o.Ret → Prop
  | .userPullEvents user, events => events = user.pullEvents.1
  | _, _ => True

/-- **The discipline of a registration**: the commit, and then the announcement. -/
def discipline (adds : Email → Prop) : Discipline Announcing Port Port.Ret Exc where
  Calls := Admits adds
  Answers _ := Replies
  next := next
  Ends g := g = .idle
  Raises _ _ := True

/-- The user whom the request has sent to its session, and not committed. -/
def newUsers : Announcing → List UserModel
  | .added user => [UserMapper.toModel user]
  | _ => []

/-- How far a request is that has answered. -/
def Answered : Response → Announcing → Prop
  | .userView v, g => ∃ user, g = .told user ∧ v.id = user.id.value ∧ v.email = user.email.value ∧
      asUtc v.createdAt = user.createdAt
  | _, g => g = .idle

end Announcing

open Announcing

/-- A registration announces the user whose view it returns. -/
theorem leads_createUser {adds : Email → Prop} (c : CreateUserCommand)
    (hadds : ∀ email, Email.ofStr c.email = .ok email → adds email) :
    (discipline adds).Leads (fun v g => Answered (.userView v) g) (CreateUserHandler.execute c)
      .idle := by
  unfold CreateUserHandler.execute
  split
  · exact ⟨rfl, trivial⟩
  next email hemail =>
  simp only [Prog.op_bind]
  apply Discipline.Leads.call trivial
  intro found _
  split
  · exact ⟨rfl, trivial⟩
  apply Discipline.Leads.call trivial
  intro userId _
  apply Discipline.Leads.call trivial
  intro hashed _
  split
  · exact ⟨rfl, trivial⟩
  apply Discipline.Leads.call trivial
  intro createdAt _
  -- the new user has its event, and the address of the command
  refine Discipline.Leads.call ⟨hadds email hemail, rfl⟩ ?_
  intro _ _
  apply Discipline.Leads.call trivial
  intro _ _
  apply Discipline.Leads.call rfl
  intro events hevents
  obtain rfl : events = _ := hevents
  apply Discipline.Leads.call rfl
  intro _ _
  exact ⟨_, rfl, rfl, rfl, rfl⟩

/-- The calls of the handlers that register nobody. -/
def Port.Unannounced : Port → Prop
  | .usersAdd _ | .dispatch _ => False
  | _ => True

theorem along_unannounced (c : Command) (hc : ∀ c', c ≠ .createUser c') :
    c.execute.Along (fun _ _ => True) Port.Unannounced True := by
  -- the handlers call by call: none of them adds a user or dispatches
  cases c with
  | createUser c => exact absurd rfl (hc c)
  | login c =>
    apply Prog.along_map.mpr
    unfold LoginHandler.execute
    split
    · trivial
    simp only [Prog.op_bind]
    apply Prog.Along.call trivial
    intro found _
    split
    · exact .call trivial fun _ _ => trivial
    split
    · exact .call trivial fun _ _ => trivial
    apply Prog.Along.call trivial
    intro verified _
    split
    · trivial
    iterate 6
      apply Prog.Along.call trivial
      intro _ _
    trivial
  | refreshToken c =>
    apply Prog.along_map.mpr
    simp only [RefreshTokenHandler.execute, Prog.op_bind]
    apply Prog.Along.call trivial
    intro p _
    split
    · trivial
    apply Prog.Along.call trivial
    intro found _
    split
    · trivial
    apply Prog.Along.call trivial
    intro now _
    split
    · -- replay
      iterate 2
        apply Prog.Along.call trivial
        intro _ _
      trivial
    split
    · trivial
    split
    · trivial
    apply Prog.Along.call trivial
    intro user _
    split
    · trivial
    split
    · trivial
    iterate 7
      apply Prog.Along.call trivial
      intro _ _
    trivial
  | logout c =>
    apply Prog.along_map.mpr
    simp only [LogoutHandler.execute, Prog.op_bind]
    apply Prog.Along.call trivial
    intro p _
    split
    · trivial
    apply Prog.Along.call trivial
    intro found _
    split
    · trivial
    iterate 3
      apply Prog.Along.call trivial
      intro _ _
    trivial
  | changePassword c =>
    apply Prog.along_map.mpr
    simp only [ChangePasswordHandler.execute, Prog.op_bind]
    apply Prog.Along.call trivial
    intro found _
    split
    · trivial
    apply Prog.Along.call trivial
    intro verified _
    split
    · trivial
    apply Prog.Along.call trivial
    intro hashed _
    split
    · trivial
    iterate 5
      apply Prog.Along.call trivial
      intro _ _
    trivial

/-- A handler that registers nobody has nothing to announce. -/
theorem leads_unannounced {adds : Email → Prop} {α : Type} {p : Handler α}
    (hp : p.Along (fun _ _ => True) Port.Unannounced True) :
    (discipline adds).Leads (fun _ g => g = .idle) p .idle := by
  refine Discipline.Leads.of_along hp (fun o ho => ?_) ⟨rfl, fun _ => trivial⟩
  cases o with
  | usersAdd user => exact ho.elim
  | dispatch events => exact ho.elim
  | _ => exact ⟨trivial, fun _ _ => ⟨trivial, rfl⟩⟩

/-- **Every handler keeps to the discipline.** -/
theorem leads_execute {adds : Email → Prop} (c : Command)
    (hadds : ∀ c', c = .createUser c' → ∀ email, Email.ofStr c'.email = .ok email → adds email) :
    (discipline adds).Leads Answered c.execute .idle := by
  cases c with
  | createUser c => exact Discipline.leads_map.mpr (leads_createUser c (hadds c rfl))
  | login c =>
    exact Discipline.leads_map.mpr (leads_unannounced (Prog.along_map.mp
      (along_unannounced (.login c) fun _ => Command.noConfusion)))
  | refreshToken c =>
    exact Discipline.leads_map.mpr (leads_unannounced (Prog.along_map.mp
      (along_unannounced (.refreshToken c) fun _ => Command.noConfusion)))
  | logout c =>
    exact Discipline.leads_map.mpr (leads_unannounced (Prog.along_map.mp
      (along_unannounced (.logout c) fun _ => Command.noConfusion)))
  | changePassword c =>
    exact Discipline.leads_map.mpr (leads_unannounced (Prog.along_map.mp
      (along_unannounced (.changePassword c) fun _ => Command.noConfusion)))

/-! ### Calls -/

section calls

variable (env : Env) (sid : ℕ) {s : Session} {w : World}

/-- What a call leaves alone that neither adds a user, nor commits, nor dispatches. -/
structure NothingNew (s : Session) (w : World) (s' : Session) (w' : World) : Prop where
  newUsers : s'.newUsers = s.newUsers
  db : w'.db = w.db
  dispatched : w'.dispatched = w.dispatched

theorem exec_nothingNew (s : Session) (w : World) (o : Port)
    (hadd : ∀ user, o ≠ .usersAdd user) (hcommit : o ≠ .commit)
    (hdispatch : ∀ events, o ≠ .dispatch events) :
    NothingNew s w (exec env sid o (s, w)).2.1 (exec env sid o (s, w)).2.2 := by
  cases o with
  | usersAdd user => exact absurd rfl (hadd user)
  | commit => exact absurd rfl hcommit
  | dispatch events => exact absurd rfl (hdispatch events)
  | usersUpdate user =>
    simp only [exec]
    split
    · exact ⟨rfl, rfl, rfl⟩
    · exact ⟨s.setUser_newUsers _ _, rfl, rfl⟩
  | usersGetByEmail email =>
    simp only [exec]
    split <;> exact ⟨rfl, rfl, rfl⟩
  | refreshTokensUpdate record =>
    simp only [exec]
    split
    · exact ⟨rfl, rfl, rfl⟩
    · exact ⟨s.setRefreshToken_newUsers _ _, rfl, rfl⟩
  | _ => exact ⟨rfl, rfl, rfl⟩

/-- A commit stores the new rows, or nothing at all. -/
theorem execCommit_spec (hsound : w.db.Sound) (hfits : s.Fits w.db) :
    match execCommit env sid s w with
    | (.ok _, s', w') => w.db.Advances w'.db s.newUsers s.newRefreshTokens ∧ s'.newUsers = [] ∧
        w'.dispatched = w.dispatched
    | (.error _, s', w') => NothingNew .empty w s' w' := by
  have hview := hsound.after (w.statementsOf sid)
  have hflush := Session.flush_spec hview.sound (hfits.mono hview.keeps)
  unfold execCommit World.view
  rcases hx : s.flush (w.db.after (w.statementsOf sid)) with e | db
  · exact ⟨rfl, rfl, rfl⟩
  · rw [hx, meets_ok] at hflush
    exact ⟨hview.trans hflush, rfl, rfl⟩

end calls

/-! ### All requests -/

/-- What is true of a request, where the users in `new` were stored and those in `told`
announced. -/
def Announcing.Fits (adds : Email → Prop) (new told : List User) : Announcing → Prop
  | .idle => True
  | .added user => adds user.email ∧ user.events = [user.announcement]
  | .stored user => adds user.email ∧ user.events = [user.announcement] ∧ user ∈ new ∧ user ∉ told
  | .told user => user ∈ told

/-- **The invariant**, since the world was `w₀`: the users stored since are `new`, and those
of them who are announced are `told`. -/
structure Announced (adds : ℕ → Email → Prop) (w₀ : World) (φ : ℕ → Announcing) (w : World)
    (new told : List User) : Prop where
  dispatched : w.dispatched = w₀.dispatched ++ told.map User.announcement
  rows : w.db.users.rows.map (·.id) = w₀.db.users.rows.map (·.id) ++ new.map (·.id.value)
  stored : ∀ u ∈ new, u.Stored w.db
  known : ∀ u ∈ told, u ∈ new
  once : told.Nodup
  requests : ∀ i, (φ i).Fits (adds i) new told
  /-- Whoever is not announced is with a request that is about to. -/
  each : ∀ u ∈ new, u ∈ told ∨ ∃ i, φ i = .stored u
  apart : ∀ i j u, φ i = .stored u → φ j = .stored u → i = j

namespace Announced

variable {adds : ℕ → Email → Prop} {w₀ w w' : World} {φ : ℕ → Announcing} {new told : List User}
  {i : ℕ} {u : User}

theorem initial : Announced adds w₀ (fun _ => .idle) w₀ [] [] where
  dispatched := (List.append_nil _).symm
  rows := (List.append_nil _).symm
  stored := by simp
  known := by simp
  once := List.nodup_nil
  requests _ := trivial
  each := by simp
  apart := by simp

theorem nodup (h : Announced adds w₀ φ w new told) :
    (w₀.db.users.rows.map (·.id) ++ new.map (·.id.value)).Nodup := by
  rw [← h.rows]
  exact w.db.users.nodup

theorem eq_of_id (h : Announced adds w₀ φ w new told) {u u' : User} (hu : u ∈ new) (hu' : u' ∈ new)
    (hid : u.id.value = u'.id.value) : u = u' :=
  List.inj_on_of_nodup_map h.nodup.of_append_right hu hu' hid

/-- A call that registers nobody. -/
theorem frame (h : Announced adds w₀ φ w new told) (hkeeps : w.db.Keeps w'.db)
    (hrows : w'.db.users.rows.map (·.id) = w.db.users.rows.map (·.id))
    (hdispatched : w'.dispatched = w.dispatched) : Announced adds w₀ φ w' new told :=
  { h with
    dispatched := hdispatched.trans h.dispatched
    rows := hrows.trans h.rows
    stored := fun u hu => (h.stored u hu).mono hkeeps }

/-- Of the requests only those that are about to announce somebody are asked for. -/
theorem stored_of_update {g : Announcing} (hg : ∀ u, g ≠ .stored u) {j : ℕ}
    (hj : Function.update φ i g j = .stored u) : j ≠ i ∧ φ j = .stored u := by
  rcases eq_or_ne j i with rfl | hne
  · rw [Function.update_self] at hj
    exact absurd hj (hg u)
  · rw [Function.update_of_ne hne] at hj
    exact ⟨hne, hj⟩

theorem exists_update (hi : φ i ≠ .stored u) (g : Announcing) (hu : ∃ j, φ j = .stored u) :
    ∃ j, Function.update φ i g j = .stored u := by
  obtain ⟨j, hj⟩ := hu
  have hne : j ≠ i := by
    rintro rfl
    exact hi hj
  exact ⟨j, by rwa [Function.update_of_ne hne]⟩

/-- A request that is about to announce nobody goes where it has stored nobody. -/
theorem move (h : Announced adds w₀ φ w new told) {g : Announcing} (hi : ∀ u, φ i ≠ .stored u)
    (hg : ∀ u, g ≠ .stored u) (hfits : g.Fits (adds i) new told) :
    Announced adds w₀ (Function.update φ i g) w new told :=
  { h with
    requests := (Function.forall_update_iff φ fun j g => g.Fits (adds j) new told).mpr
      ⟨hfits, fun j _ => h.requests j⟩
    each := fun u hu => (h.each u hu).imp_right (exists_update (hi u) g)
    apart := fun j k u hj hk =>
      h.apart j k u (stored_of_update hg hj).2 (stored_of_update hg hk).2 }

/-- **A registration is committed**: its user was not stored before. -/
theorem store (h : Announced adds w₀ φ w new told) (hi : φ i = .added u)
    {rs : List RefreshTokenModel} (hadv : w.db.Advances w'.db [UserMapper.toModel u] rs)
    (hdispatched : w'.dispatched = w.dispatched) :
    Announced adds w₀ (Function.update φ i (.stored u)) w' (new ++ [u]) told := by
  have hrows : w'.db.users.rows.map (·.id) =
      w₀.db.users.rows.map (·.id) ++ (new ++ [u]).map (·.id.value) := by
    rw [hadv.userIds, h.rows, List.map_append, List.append_assoc]
    rfl
  have hnew : u ∉ new := by
    intro hu
    have hnodup : (w'.db.users.rows.map (·.id)).Nodup := w'.db.users.nodup
    rw [hrows, List.map_append] at hnodup
    exact (List.disjoint_of_nodup_append hnodup.of_append_right) (List.mem_map_of_mem hu) (by simp)
  -- nobody else is about to announce this user
  have halone : ∀ j, φ j ≠ .stored u := by
    intro j hj
    have hfits := h.requests j
    rw [hj] at hfits
    exact hnew hfits.2.2.1
  obtain ⟨hadds, hevents⟩ : adds i u.email ∧ u.events = [u.announcement] := by
    have hfits := h.requests i
    rwa [hi] at hfits
  refine { h with
    dispatched := hdispatched.trans h.dispatched
    rows := hrows, stored := ?_, known := ?_, requests := ?_, each := ?_, apart := ?_ }
  · intro u' hu'
    rcases List.mem_append.mp hu' with hu' | hu'
    · exact (h.stored u' hu').mono hadv.keeps
    · obtain rfl := List.mem_singleton.mp hu'
      obtain ⟨m, hm, hsame⟩ := hadv.newUsers _ List.mem_cons_self
      exact ⟨m, hm, hsame.symm⟩
  · exact fun u' hu' => List.mem_append_left _ (h.known u' hu')
  · refine (Function.forall_update_iff φ fun j g => g.Fits (adds j) (new ++ [u]) told).mpr
      ⟨⟨hadds, hevents, by simp, fun hu => hnew (h.known u hu)⟩, fun j _ => ?_⟩
    have hfits := h.requests j
    cases hj : φ j with
    | stored u' =>
      rw [hj] at hfits
      exact ⟨hfits.1, hfits.2.1, List.mem_append_left _ hfits.2.2.1, hfits.2.2.2⟩
    | _ =>
      rw [hj] at hfits
      exact hfits
  · intro u' hu'
    rcases List.mem_append.mp hu' with hu' | hu'
    · exact (h.each u' hu').imp_right (exists_update (by rw [hi]; simp) _)
    · obtain rfl := List.mem_singleton.mp hu'
      exact .inr ⟨i, Function.update_self ..⟩
  · intro j k u' hj hk
    by_cases hji : j = i <;> by_cases hki : k = i
    · exact hji.trans hki.symm
    · rw [hji, Function.update_self] at hj
      rw [Function.update_of_ne hki] at hk
      obtain rfl := Announcing.stored.inj hj
      exact absurd hk (halone k)
    · rw [Function.update_of_ne hji] at hj
      rw [hki, Function.update_self] at hk
      obtain rfl := Announcing.stored.inj hk
      exact absurd hj (halone j)
    · rw [Function.update_of_ne hji] at hj
      rw [Function.update_of_ne hki] at hk
      exact h.apart j k u' hj hk

/-- **A registration is announced**, and not a second time. -/
theorem tell (h : Announced adds w₀ φ w new told) (hi : φ i = .stored u) :
    Announced adds w₀ (Function.update φ i (.told u)) (w.dispatch u.events) new (told ++ [u]) := by
  obtain ⟨-, hevents, hu, hnot⟩ : adds i u.email ∧ u.events = [u.announcement] ∧ u ∈ new ∧
      u ∉ told := by
    have hfits := h.requests i
    rwa [hi] at hfits
  have htold : ∀ u', Announcing.told u ≠ .stored u' := by simp
  -- what changes is who is announced
  refine { h with
    dispatched := ?_, known := ?_, once := ?_, requests := ?_, each := ?_, apart := ?_ }
  · show w.dispatched ++ u.events = _
    rw [hevents, h.dispatched, List.map_append, List.append_assoc]
    rfl
  · intro u' hu'
    rcases List.mem_append.mp hu' with hu' | hu'
    · exact h.known u' hu'
    · obtain rfl := List.mem_singleton.mp hu'
      exact hu
  · refine h.once.append (List.nodup_singleton u) fun u' hu' hmem => ?_
    obtain rfl := List.mem_singleton.mp hmem
    exact hnot hu'
  · refine (Function.forall_update_iff φ fun j g => g.Fits (adds j) new (told ++ [u])).mpr
      ⟨by simp [Announcing.Fits], fun j hne => ?_⟩
    have hfits := h.requests j
    cases hj : φ j with
    | idle => trivial
    | added u' =>
      rw [hj] at hfits
      exact hfits
    | stored u' =>
      rw [hj] at hfits
      refine ⟨hfits.1, hfits.2.1, hfits.2.2.1, fun hmem => ?_⟩
      rcases List.mem_append.mp hmem with hmem | hmem
      · exact hfits.2.2.2 hmem
      · obtain rfl := List.mem_singleton.mp hmem
        -- no two requests have stored the same user
        exact hne (h.apart j i _ hj hi)
    | told u' =>
      rw [hj] at hfits
      exact List.mem_append_left _ hfits
  · intro u' hu'
    rcases h.each u' hu' with hknown | hpending
    · exact .inl (List.mem_append_left _ hknown)
    · by_cases heq : u = u'
      · subst heq
        exact .inl (by simp)
      · exact .inr (exists_update (by rw [hi]; simpa using heq) _ hpending)
  · exact fun j k u' hj hk =>
      h.apart j k u' (stored_of_update htold hj).2 (stored_of_update htold hk).2

end Announced

/-! ### Runs -/

/-- The invariant of the requests, with their sessions. -/
def Announcing.Holds (adds : ℕ → Email → Prop) (w₀ : World) (x : ℕ → Announcing × Session)
    (w : World) : Prop :=
  (∀ i, (x i).2.newUsers = (x i).1.newUsers) ∧
    ∃ new told, Announced adds w₀ (fun i => (x i).1) w new told

section step

variable {env : Env} {adds : ℕ → Email → Prop} {w₀ w w' : World} {x : ℕ → Announcing × Session}
  {i : ℕ} {s : Session} {g : Announcing} {o : Port}

/-- What a step does to the invariant it does through the phase of one request. -/
theorem Announcing.Holds.update (h : Holds adds w₀ x w) (hs : s.newUsers = g.newUsers)
    (hstep : ∀ new told, Announced adds w₀ (fun i => (x i).1) w new told →
      ∃ new' told', Announced adds w₀ (Function.update (fun i => (x i).1) i g) w' new' told') :
    Holds adds w₀ (Function.update x i (g, s)) w' := by
  obtain ⟨hsession, new, told, ha⟩ := h
  have hphases : (fun j => (Function.update x i (g, s) j).1) =
      Function.update (fun i => (x i).1) i g := by
    funext j
    rcases eq_or_ne j i with rfl | hj
    · simp
    · simp [Function.update_of_ne hj]
  refine ⟨fun j => ?_, ?_⟩
  · rcases eq_or_ne j i with rfl | hj
    · rwa [Function.update_self]
    · rw [Function.update_of_ne hj]
      exact hsession j
  · rw [hphases]
    exact hstep new told ha

/-- A call that registers nobody and leaves the request as far as it is. -/
theorem Announcing.Holds.stay (h : Holds adds w₀ x w)
    (hsame : NothingNew (x i).2 w s w') : Holds adds w₀ (Function.update x i ((x i).1, s)) w' := by
  refine h.update (hsame.newUsers.trans (h.1 i)) fun new told ha => ⟨new, told, ?_⟩
  rw [Function.update_eq_self i fun i => (x i).1]
  exact ha.frame (by rw [hsame.db]; exact .refl _) (by rw [hsame.db]) hsame.dispatched

/-- A request that has stored nobody does so by adding a user only. -/
theorem Announcing.next_idle (hadd : ∀ user, o ≠ .usersAdd user) (r : o.Ret) :
    Announcing.idle.next o r = .idle := by
  cases o with
  | usersAdd user => exact absurd rfl (hadd user)
  | _ => rfl

theorem replies_exec {y : Session × World} {z : Session × World} {r : o.Ret}
    (h : exec env i o y = (.ok r, z)) : Replies o r := by
  cases o with
  | userPullEvents user => exact (Except.ok.inj (congrArg Prod.fst h)).symm
  | _ => trivial

/-- A commit, of a request that has added a user or not. -/
theorem Announcing.Holds.commit (env : Env) (h : Holds adds w₀ x w) (hsound : w.db.Sound)
    (hfits : (x i).2.Fits w.db) (hi : ∀ u, (x i).1 ≠ .stored u ∧ (x i).1 ≠ .told u) :
    match execCommit env i (x i).2 w with
    | (.ok r, s, w') => Holds adds w₀ (Function.update x i ((x i).1.next .commit r, s)) w'
    | (.error _, s, w') => Holds adds w₀ (Function.update x i (.idle, s)) w' := by
  have hspec := execCommit_spec env i hsound hfits
  have hstored : ∀ u, (x i).1 ≠ .stored u := fun u => (hi u).1
  -- a commit that fails stores nobody, and ends the request
  rcases hx : execCommit env i (x i).2 w with ⟨e | r, s, w'⟩
  · rw [hx] at hspec
    refine h.update hspec.newUsers fun new told ha => ⟨new, told, ?_⟩
    exact (ha.move (g := .idle) hstored (by simp) trivial).frame (by rw [hspec.db]; exact .refl _)
      (by rw [hspec.db]) hspec.dispatched
  · rw [hx] at hspec
    obtain ⟨hadv, hnone, hdispatched⟩ := hspec
    rw [h.1 i] at hadv
    -- one that succeeds stores the user who was added, if there is one
    cases hg : (x i).1 with
    | idle =>
      rw [hg] at hadv
      refine h.update hnone fun new told ha => ⟨new, told, ?_⟩
      exact (ha.move (g := .idle) hstored (by simp) trivial).frame hadv.keeps
        (by rw [hadv.userIds]; exact List.append_nil _) hdispatched
    | added u =>
      rw [hg] at hadv
      exact h.update hnone fun new told ha => ⟨_, told, ha.store hg hadv hdispatched⟩
    | stored u => exact absurd hg (hi u).1
    | told u => exact absurd hg (hi u).2

/-- **What a call does to the announcements.** -/
theorem Announcing.Holds.exec (h : Holds adds w₀ x w) (hdispatch : env.dispatcher = eventDispatcher)
    (hsound : w.db.Sound) (hfits : (x i).2.Fits w.db) (hadmits : (x i).1.Admits (adds i) o) :
    match exec env i o ((x i).2, w) with
    | (.ok r, s, w') => Replies o r ∧
        Holds adds w₀ (Function.update x i ((x i).1.next o r, s)) w'
    | (.error _, s, w') => Holds adds w₀ (Function.update x i (.idle, s)) w' := by
  by_cases hcommit : o = .commit
  · subst hcommit
    have hi : ∀ u, (x i).1 ≠ .stored u ∧ (x i).1 ≠ .told u := by
      refine fun u => ⟨fun hg => ?_, fun hg => ?_⟩
      all_goals
        rw [hg] at hadmits
        exact hadmits
    have hspec := h.commit env hsound hfits hi
    simp only [FastapiStarter.exec]
    rcases hx : execCommit env i (x i).2 w with ⟨e | r, s, w'⟩
    · rw [hx] at hspec
      exact hspec
    · rw [hx] at hspec
      exact ⟨trivial, hspec⟩
  -- by how far the request is, which says what it may call
  cases hg : (x i).1 with
  | idle =>
    rw [hg] at hadmits
    by_cases hadd : ∃ user, o = .usersAdd user
    · obtain ⟨user, rfl⟩ := hadd
      refine ⟨trivial, h.update ?_ fun new told ha => ⟨new, told, ?_⟩⟩
      · have hnone := h.1 i
        rw [hg] at hnone
        simp [Session.addUser, Announcing.next, hnone, Announcing.newUsers]
      · exact ha.move (by simp [hg]) (by simp [Announcing.next]) hadmits
    -- any other call stores and tells nothing
    push Not at hadd
    have hsame := exec_nothingNew env i (x i).2 w o hadd hcommit (by
      rintro events rfl
      exact hadmits)
    have hstay := h.stay hsame
    rw [hg] at hstay
    rcases hx : FastapiStarter.exec env i o ((x i).2, w) with ⟨e | r, s, w'⟩
    · rw [hx] at hstay
      exact hstay
    · rw [hx] at hstay
      rw [← Announcing.next_idle hadd r] at hstay
      exact ⟨replies_exec hx, hstay⟩
  | added u =>
    rw [hg] at hadmits
    cases o with
    | commit => exact absurd rfl hcommit
    | _ => exact hadmits.elim
  | stored u =>
    rw [hg] at hadmits
    cases o with
    | userPullEvents user =>
      have hstay : Holds adds w₀ (Function.update x i ((x i).1, (x i).2)) w :=
        h.stay ⟨rfl, rfl, rfl⟩
      rw [hg] at hstay
      exact ⟨rfl, hstay⟩
    | dispatch events =>
      obtain rfl : events = u.events := hadmits
      simp only [FastapiStarter.exec, hdispatch, dispatch_eventDispatcher]
      refine ⟨trivial, h.update ?_ fun new told ha => ⟨new, _, ha.tell hg⟩⟩
      have hnone := h.1 i
      rw [hg] at hnone
      exact hnone
    | _ => exact hadmits.elim
  | told u =>
    rw [hg] at hadmits
    cases o <;> exact hadmits.elim

end step

/-! ### The promise -/

/-- The event that announces the user of a row. -/
def UserModel.announcement (m : UserModel) : DomainEvent :=
  .userRegistered m.id m.email (asUtc m.createdAt)

/-- The user an event is about. -/
def DomainEvent.userId : DomainEvent → UUID
  | .userRegistered userId _ _ => userId

/-- **What is promised**: the events dispatched since the world was `w` announce the users
who were stored since, each of them once. -/
structure AnnouncedOnce (requests : ℕ → Option Command) (w : World)
    (cfg : Config ℕ Port Port.Ret Exc Response Session World) (events : List DomainEvent) :
    Prop where
  dispatched : cfg.shared.dispatched = w.dispatched ++ events
  once : (events.map DomainEvent.userId).Nodup
  stored : ∀ event ∈ events, ∃ m ∈ cfg.shared.db.users.rows,
    event = m.announcement ∧ m.id ∉ w.db.users.rows.map (·.id)
  /-- Whoever is not announced yet was registered, under this address, by a request that has
  not answered. -/
  each : ∀ m ∈ cfg.shared.db.users.rows, m.id ∉ w.db.users.rows.map (·.id) →
    m.announcement ∈ events ∨ ∃ i c, requests i = some (.createUser c) ∧
      m.email = normalise c.email ∧ (cfg.threads i).result = none
  answered : ∀ i v, (cfg.threads i).result = some (.ok (.userView v)) →
    .userRegistered v.id v.email (asUtc v.createdAt) ∈ events

section runs

variable {env : Env} {requests : ℕ → Option Command} {w : World}
  {cfg : Config ℕ Port Port.Ret Exc Response Session World}

/-- A user who is stored is announced as the row says. -/
theorem User.Stored.announcement {u : User} {m : UserModel}
    (h : m.SameUser (UserMapper.toModel u)) : u.announcement = m.announcement := by
  have hcreated : u.createdAt = asUtc m.createdAt := h.createdAt
  rw [User.announcement, UserModel.announcement, ← hcreated, ← h.id, ← h.email]
  rfl

/-- The addresses that a request may register. -/
def registers (requests : ℕ → Option Command) (i : ℕ) (email : Email) : Prop :=
  ∃ c, requests i = some (.createUser c) ∧ Email.ofStr c.email = .ok email

/-- The invariant is kept by every run. -/
theorem announced_of_reach (hhash : ∀ salt plain, env.hash salt plain ≠ [])
    (hdispatch : env.dispatcher = eventDispatcher) (hstatements : w.statements = [])
    (hsound : w.db.Sound) (hreach : Reach (system env) anyCall (start requests w) cfg) :
    ∃ φ : ℕ → Announcing,
      (∃ new told, Announced (registers requests) w φ cfg.shared new told) ∧
      ∀ i, (Announcing.discipline (registers requests i)).Leads Answered
        (cfg.threads i).prog (φ i) := by
  have hstarts : Starts (refusals requests) (start requests w) := starts_start hstatements hsound
  obtain ⟨φ, ⟨-, hannounced⟩, hleads⟩ := hreach.leads
    (fun i => Announcing.discipline (registers requests i)) (fun _ => Answered) (fun _ => .idle)
    (fun x w' _ => Announcing.Holds (registers requests) w x w')
    (by
      intro i
      simp only [start]
      rcases hc : requests i with _ | c
      · exact rfl
      · exact leads_execute c fun c' hc' email hemail => ⟨c', hc' ▸ hc, hemail⟩)
    ⟨fun _ => rfl, [], [], .initial⟩
    (by
      intro c g i o hc hinv hcalls _
      -- the rows are sound at every call, whoever is racing
      obtain ⟨g', ⟨hint, -⟩, -⟩ := hstarts.inOrder.of_reach hhash hdispatch hc
      have hkept := hinv.exec hdispatch hint.sound (hint.holds i).fits hcalls
      rcases hx : (system env).exec i o ((c.threads i).loc, c.shared) with ⟨e | r, s, w'⟩
      · rw [show exec env i o ((c.threads i).loc, c.shared) = (.error e, s, w') from hx] at hkept
        exact ⟨.idle, rfl, trivial, hkept⟩
      · rw [show exec env i o ((c.threads i).loc, c.shared) = (.ok r, s, w') from hx] at hkept
        exact hkept)
  exact ⟨φ, hannounced, hleads⟩

/-- **Whatever races, every registration is announced once**: after the user is stored, and
before the request answers. -/
theorem registrations_are_announced (hhash : ∀ salt plain, env.hash salt plain ≠ [])
    (hdispatch : env.dispatcher = eventDispatcher) (hstatements : w.statements = [])
    (hsound : w.db.Sound) (hreach : Reach (system env) anyCall (start requests w) cfg) :
    ∃ events, AnnouncedOnce requests w cfg events := by
  obtain ⟨φ, ⟨new, told, ha⟩, hleads⟩ :=
    announced_of_reach hhash hdispatch hstatements hsound hreach
  have hrow : ∀ u ∈ new, ∃ m ∈ cfg.shared.db.users.rows, u.announcement = m.announcement ∧
      m.id = u.id.value ∧ m.email = u.email.value := by
    intro u hu
    obtain ⟨m, hm, hsame⟩ := ha.stored u hu
    exact ⟨m, hm, User.Stored.announcement hsame, hsame.id.symm, hsame.email.symm⟩
  refine ⟨told.map User.announcement, ha.dispatched, ?_, ?_, ?_, ?_⟩
  · rw [List.map_map]
    refine ha.once.map_on fun u hu u' hu' hid => ?_
    exact ha.eq_of_id (ha.known u hu) (ha.known u' hu') hid
  · intro event hevent
    obtain ⟨u, hu, rfl⟩ := List.mem_map.mp hevent
    obtain ⟨m, hm, hsame, hid, -⟩ := hrow u (ha.known u hu)
    refine ⟨m, hm, hsame, fun hold => ?_⟩
    rw [hid] at hold
    exact List.disjoint_of_nodup_append ha.nodup hold (List.mem_map_of_mem (ha.known u hu))
  · intro m hm hnew
    have hid : m.id ∈ cfg.shared.db.users.rows.map (·.id) := List.mem_map_of_mem hm
    rw [ha.rows, List.mem_append] at hid
    obtain ⟨u, hu, huid⟩ := List.mem_map.mp (hid.resolve_left hnew)
    obtain ⟨m', hm', hsame, hid', hemail⟩ := hrow u hu
    obtain rfl := cfg.shared.db.users.eq_of_key_eq hm hm' (huid.symm.trans hid'.symm)
    rw [← hsame]
    refine (ha.each u hu).imp (fun htold => List.mem_map_of_mem htold) ?_
    rintro ⟨i, hi⟩
    have hfits := ha.requests i
    rw [hi] at hfits
    obtain ⟨c, hc, haddress⟩ := hfits.1
    refine ⟨i, c, hc, hemail.trans (Email.value_of_ofStr haddress), ?_⟩
    -- such a request has not ended
    have hlead := hleads i
    rw [hi] at hlead
    rcases hresult : (cfg.threads i).result with _ | e | r
    · rfl
    · cases (hlead.fails hresult).1
    · have hanswered := hlead.returns hresult
      cases r with
      | userView v =>
        obtain ⟨u', hu', -⟩ := hanswered
        cases hu'
      | tokenPair p => cases hanswered
      | none => cases hanswered
  · intro i v hresult
    obtain ⟨u, hu, hid, hemail, hcreated⟩ := (hleads i).returns hresult
    have hfits := ha.requests i
    rw [hu] at hfits
    refine List.mem_map.mpr ⟨u, hfits, ?_⟩
    rw [User.announcement, hid, hemail, hcreated]

end runs

end registrations

section sample

attribute [local instance] asciiUnicode

/-- Of two registrations of one address, one is announced. -/
theorem registrations_are_announced_sample :
    racingConfig.shared.dispatched.length = 1 ∧
      ∃ events, AnnouncedOnce racing .initial racingConfig events :=
  ⟨by decide +kernel, registrations_are_announced (fun _ _ => List.cons_ne_nil _ _) rfl rfl
    sound_empty reach_racingConfig⟩

end sample

end FastapiStarter
