import FastapiStarter.History
import FastapiStarter.Queries

/-!
# The write side and the read side

The mapper attaches UTC to the datetimes that a driver returns without it; the
query service hands them out as they are.  So the two sides show one user alike
exactly where the driver returns aware datetimes.

## Main definitions

* `RegisteredAs` — the view that a registration has returned.
* `ShownAs` — every path to a user shows that view.

## Main results

* `shownAs_iff` — **the paths agree exactly on PostgreSQL.**
* `sqlite_shows_naive` — on SQLite they do not.
-/

namespace FastapiStarter

open Relational

section readModel

variable [Unicode]

/-- A registration returned `v`, and the user was not deactivated since. -/
def RegisteredAs (h : List Entry) (v : UserView) : Prop :=
  ∃ newer e older, h = newer ++ e :: older ∧ (∃ c, e.action = .command (.createUser c)) ∧
    e.result = .ok (.userView v) ∧ ∀ e' ∈ newer, e'.action ≠ .deactivate v.id

/-- Each path to the user of `v` shows the fields of `v`: the query by id, the list,
and the endpoint that answers from the aggregate. -/
structure ShownAs (env : Env) (w : World) (v : UserView) : Prop where
  getById : SqlAlchemyUserQueryService.getById env.dialect w.db.users v.id = some v
  listed : ∀ limit cursor page,
    SqlAlchemyUserQueryService.list env.dialect w.db.users limit cursor = .ok page →
      ∀ item ∈ page.items, item.id = v.id → item = v
  readMe : ∀ sid, ∃ user, (exec env sid (.usersGetById ⟨v.id⟩) (.empty, w)).1 = .ok (some user) ∧
    readMe user = .modelValidate v

/-! ### What a registration has stored -/

section stored

variable {env : Env} {e : Entry} {h : List Entry} {w : World} {v : UserView}

omit [Unicode] in
@[simp] theorem registeredAs_cons : RegisteredAs (e :: h) v ↔
    ((∃ c, e.action = .command (.createUser c)) ∧ e.result = .ok (.userView v)) ∨
      RegisteredAs h v ∧ e.action ≠ .deactivate v.id := by
  constructor
  · rintro ⟨newer, e', older, heq, hc, hres, hactive⟩
    rcases List.cons_eq_append_iff.mp heq with ⟨rfl, heq'⟩ | ⟨newer', rfl, rfl⟩
    · obtain ⟨rfl, rfl⟩ := List.cons.inj heq'
      exact .inl ⟨hc, hres⟩
    · refine .inr ⟨⟨newer', e', older, rfl, hc, hres, fun e'' he'' => ?_⟩, ?_⟩
      · exact hactive e'' (List.mem_cons_of_mem _ he'')
      · exact hactive e List.mem_cons_self
  · rintro (⟨hc, hres⟩ | ⟨⟨newer, e', older, rfl, hc, hres, hactive⟩, hne⟩)
    · exact ⟨[], e, h, rfl, hc, hres, by simp⟩
    · refine ⟨e :: newer, e', older, rfl, hc, hres, fun e'' he'' => ?_⟩
      rcases List.mem_cons.mp he'' with rfl | he''
      · exact hne
      · exact hactive e'' he''

/-- **A registered user keeps the row of the view**, password changes apart. -/
theorem exists_row_of_registeredAs (hrun : Run env h w) :
    ∀ v, RegisteredAs h v → ∃ m ∈ w.db.users.rows, UserView.ofRow m = v := by
  refine hrun.invariant (fun h w => ∀ v, RegisteredAs h v →
    ∃ m ∈ w.db.users.rows, UserView.ofRow m = v) ?_ ?_
  · rintro v ⟨newer, e, older, heq, -⟩
    simp at heq
  · -- a step leaves the users, appends one, or changes a column the view does not show
    intro e h _ _ hstep ih v hv
    rw [registeredAs_cons] at hv
    cases hstep.users with
    | idle husers _ hsets =>
      rw [husers]
      rcases hv with ⟨⟨c, hc⟩, hres⟩ | ⟨hv, -⟩
      · exact absurd (.inl ⟨c, v, hc, hres, rfl, rfl⟩) (hsets v.id c.password)
      · exact ih v hv
    | @created c u salt hc hres _ _ _ hactive _ hrows =>
      rw [hrows]
      rcases hv with ⟨-, hv⟩ | ⟨hv, -⟩
      · -- the row of the new user
        refine ⟨UserMapper.toModel u, by simp, ?_⟩
        rw [hres] at hv
        generalize env.dispatcher.dispatch u.events = x at hv
        rcases x with _ | _
        · cases hv
        · obtain rfl := Response.userView.inj (Except.ok.inj hv)
          simp [UserView.ofRow, UserMapper.toModel, hactive]
      · obtain ⟨m, hm, rfl⟩ := ih v hv
        exact ⟨m, List.mem_append_left _ hm, rfl⟩
    | changed hc _ husers =>
      rcases hv with ⟨⟨c', hc'⟩, -⟩ | ⟨hv, -⟩
      · rw [hc] at hc'
        cases hc'
      · obtain ⟨m, hm, rfl⟩ := ih v hv
        rw [husers]
        refine ⟨_, List.mem_map_of_mem hm, ?_⟩
        split <;> rfl
    | @deactivated userId hc husers =>
      rcases hv with ⟨⟨c', hc'⟩, -⟩ | ⟨hv, hne⟩
      · rw [hc] at hc'
        cases hc'
      · obtain ⟨m, hm, rfl⟩ := ih v hv
        rw [husers]
        refine ⟨_, List.mem_map_of_mem hm, ?_⟩
        rw [if_neg]
        rintro hid
        exact hne (hc.trans (congrArg Action.deactivate (of_decide_eq_true hid).symm))

end stored

/-! ### The paths to a user -/

section paths

variable {env : Env} {h : List Entry} {w : World} {v : UserView}

/-- The items of a page are views of rows. -/
theorem exists_row_of_list {d : Dialect} {users : Table UserModel.id} {limit : ℕ}
    {cursor : Option Str} {page : Page UserView}
    (hlist : SqlAlchemyUserQueryService.list d users limit cursor = .ok page) {item : UserView}
    (hitem : item ∈ page.items) : ∃ m ∈ users.rows, item = .ofRow (d.readUser m) := by
  have hrows : ∀ (past : Option UUID), item ∈ ((((users.past past).take (limit + 1)).map
      d.readUser).take limit).map UserView.ofRow →
        ∃ m ∈ users.rows, item = .ofRow (d.readUser m) := by
    intro past hmem
    obtain ⟨row, hrow, rfl⟩ := List.mem_map.mp hmem
    obtain ⟨m, hm, rfl⟩ := List.mem_map.mp (List.mem_of_mem_take hrow)
    exact ⟨m, (Table.mem_past.mp (List.mem_of_mem_take hm)).1, rfl⟩
  unfold SqlAlchemyUserQueryService.list at hlist
  split at hlist
  · cases hlist
  · next past _ =>
    dsimp only at hlist
    split at hlist
    · cases hlist
      exact hrows past hitem
    · split at hlist
      · cases hlist
        exact hrows past hitem
      · cases hlist

/-- **The paths agree exactly where the driver returns aware datetimes.** -/
theorem shownAs_iff (hrun : Run env h w) (hv : RegisteredAs h v) :
    ShownAs env w v ↔ env.dialect = .postgres := by
  obtain ⟨m, hm, rfl⟩ := exists_row_of_registeredAs hrun v hv
  obtain ⟨u, rfl⟩ := hrun.settled.readable m hm
  have hget : w.db.users.get u.id.value = some (UserMapper.toModel u) := Table.get_key hm
  have hbyId : SqlAlchemyUserQueryService.getById env.dialect w.db.users u.id.value =
      some (.ofRow (env.dialect.readUser (UserMapper.toModel u))) := by
    rw [SqlAlchemyUserQueryService.getById, hget]
    rfl
  constructor
  · intro hshown
    have hsame := Option.some.inj (hbyId.symm.trans hshown.getById)
    -- SQLite returns the datetime without its timezone
    cases hd : env.dialect with
    | postgres => rfl
    | sqlite =>
      have hcreated := congrArg UserView.createdAt hsame
      rw [hd] at hcreated
      cases hcreated
  · intro hd
    have hread : ∀ u : User, env.dialect.readUser (UserMapper.toModel u) =
        UserMapper.toModel u := by
      intro u
      rw [hd]
      rfl
    refine { getById := ?_, listed := ?_, readMe := ?_ }
    · rw [hread] at hbyId
      exact hbyId
    · intro limit cursor page hlist item hitem hid
      obtain ⟨m, hm', rfl⟩ := exists_row_of_list hlist hitem
      have hsame : m = UserMapper.toModel u := w.db.users.eq_of_key_eq hm' hm hid
      rw [hsame, hread]
    · intro sid
      refine ⟨{ u with events := [] }, ?_, rfl⟩
      have hid : (UserView.ofRow (UserMapper.toModel u)).id = u.id.value := rfl
      simp only [exec, World.view_of_nil hrun.settled.statements, Session.getUser_empty, hid, hget,
        Option.map_some, userOfModel, UserMapper.toDomain_toModel, ofDomain]
      rfl

end paths

end readModel

/-! ### A registration on SQLite -/

section sample

attribute [local instance] asciiUnicode

/-- The view that the sample registration returned. -/
def sampleView : UserView := ⟨sampleEnv.uuid 0, sampleLogin.email, true, .aware 0⟩

theorem registeredAs_sampleView : RegisteredAs sampleHistory sampleView :=
  ⟨_ :: [], _, [], rfl, ⟨_, rfl⟩, by decide +kernel, by simp⟩

theorem shownAs_iff_sample :
    ShownAs sampleEnv loggedInWorld sampleView ↔ sampleEnv.dialect = .postgres :=
  shownAs_iff run_sampleHistory registeredAs_sampleView

/-- **On SQLite the query by id shows a naive datetime.** -/
theorem sqlite_shows_naive :
    ∃ env h w v, Run env h w ∧ RegisteredAs h v ∧ ¬ ShownAs env w v :=
  ⟨sampleEnv, sampleHistory, loggedInWorld, sampleView, run_sampleHistory, registeredAs_sampleView,
    fun h => absurd h.getById (by decide +kernel)⟩

end sample

end FastapiStarter
