import FastapiStarter.Queries

/-!
# Following the cursors

A client reads the list of users by passing the cursor of each page to the next
request.  Users may be stored and deleted between the requests; the pages still
show no user twice, and every user who was always there.

## Main definitions

* `PageRequest`, `followCursors` — the requests of a client that follows cursors.
* `VisitsOnce` — what the client sees.

## Main results

* `execute_of_names` — the query answers as keyset pagination does.
* `cursors_visit_every_user_once` — **the client sees every user once.**
-/

namespace FastapiStarter

open Relational

theorem exists_of_forall₂ {α β : Type} {R : α → β → Prop} {as : List α} {bs : List β} {a : α}
    (h : List.Forall₂ R as bs) (ha : a ∈ as) : ∃ b ∈ bs, R a b := by
  induction h with
  | nil => cases ha
  | cons hab _ ih =>
    rcases List.mem_cons.mp ha with rfl | ha
    · exact ⟨_, List.mem_cons_self, hab⟩
    · obtain ⟨b, hb, hab'⟩ := ih ha
      exact ⟨b, List.mem_cons_of_mem _ hb, hab'⟩

section pagination

variable [Unicode]

/-! ### A client that follows cursors -/

/-- A request for a page: the table it found, the cursor it was given, the answer. -/
structure PageRequest where
  users : Table UserModel.id
  cursor : Option Str
  page : Page UserView

/-- The requests of a client that starts with a cursor and follows those it is
given, until there is none; the table each request finds is given. -/
def followCursors (d : Dialect) (limit : ℤ) :
    Option Str → List (Table UserModel.id) → Except Exc (List PageRequest)
  | _, [] => .ok []
  | cursor, users :: rest => do
    let page ← ListUsersHandler.execute d users ⟨limit, cursor⟩
    match page.nextCursor with
    | none => return [⟨users, cursor, page⟩]
    | some next => return ⟨users, cursor, page⟩ :: (← followCursors d limit (some next) rest)

/-- The client has come to the end. -/
def Ended (requests : List PageRequest) : Prop := ∃ r ∈ requests, r.page.nextCursor = none

/-- All that the client was shown. -/
def shown (requests : List PageRequest) : List UserView := requests.flatMap (·.page.items)

/-- The id lies past the last item of the page; for an empty page, past the cursor,
if one was given. -/
def PageRequest.Beyond (r : PageRequest) (userId : UUID) : Prop :=
  match r.page.items.getLast? with
  | some item => item.id < userId
  | none => ∀ cursor, r.cursor = some cursor → ∀ k, decodeCursor cursor = .ok k → k < userId

/-- What a client sees that follows the cursors. -/
structure VisitsOnce (limit : ℤ) (requests : List PageRequest) : Prop where
  /-- Ids are strictly increasing, so nobody is shown twice. -/
  increasing : ((shown requests).map (·.id)).Pairwise (· < ·)
  /-- At the end, everybody was shown who was there in every request. -/
  complete : Ended requests → ∀ userId, (∀ r ∈ requests, ∃ m ∈ r.users.rows, m.id = userId) →
    ∃ item ∈ shown requests, item.id = userId
  /-- No page exceeds the limit. -/
  size : ∀ r ∈ requests, r.page.items.length ≤ clampLimit limit
  /-- A page is the last exactly when nobody is left at that time. -/
  last : ∀ r ∈ requests, r.page.nextCursor = none ↔ ∀ m ∈ r.users.rows, ¬ r.Beyond m.id

/-! ### The query is keyset pagination -/

/-- The view of a stored row. -/
def Dialect.view (d : Dialect) (m : UserModel) : UserView := .ofRow (d.readUser m)

/-- A cursor as text, and the id it stands for. -/
def Names (cursor : Option Str) (k : Option UUID) : Prop := cursor.map decodeCursor = k.map .ok

/-- A request as the query service answers it, and as keyset pagination does. -/
structure Answers (d : Dialect) (r : PageRequest) (v : Visit UserModel.id) : Prop where
  users : r.users = v.table
  cursor : Names r.cursor v.cursor
  items : r.page.items = v.rows.map d.view
  next : Names r.page.nextCursor v.next

section answers

variable {d : Dialect} {limit : ℤ} {cursor : Option Str} {k : Option UUID}
  {users : Table UserModel.id} {r : PageRequest} {v : Visit UserModel.id}

omit [Unicode] in
theorem clampLimit_pos (limit : ℤ) : 0 < clampLimit limit := by
  unfold clampLimit
  omega

theorem Names.eq_none (h : Names cursor k) : cursor = none ↔ k = none := by
  unfold Names at h
  cases cursor <;> cases k <;> simp_all

theorem after_of_names (h : Names cursor k) : SqlAlchemyUserQueryService.after cursor = .ok k := by
  unfold Names at h
  cases cursor with
  | none =>
    cases k with
    | none => rfl
    | some k => cases h
  | some cursor =>
    cases k with
    | none => cases h
    | some k =>
      have hdecode : decodeCursor cursor = .ok k := Option.some.inj h
      rw [SqlAlchemyUserQueryService.after, hdecode]
      rfl

/-- **The query answers as keyset pagination does.** -/
theorem execute_of_names (h : Names cursor k) : ∃ page,
    ListUsersHandler.execute d users ⟨limit, cursor⟩ = .ok page ∧
      Answers d ⟨users, cursor, page⟩ (users.visit (clampLimit limit) k) := by
  have hpast := after_of_names h
  have hmore : clampLimit limit <
      (((users.past k).take (clampLimit limit + 1)).map d.readUser).length ↔
        clampLimit limit < (users.past k).length := by
    rw [List.length_map, List.length_take]
    omega
  have hvisible : (((users.past k).take (clampLimit limit + 1)).map d.readUser).take
      (clampLimit limit) = ((users.past k).take (clampLimit limit)).map d.readUser := by
    rw [← List.map_take, List.take_take, min_eq_left (Nat.le_succ _)]
  have hitems : (((users.past k).take (clampLimit limit)).map d.readUser).map UserView.ofRow =
      (users.visit (clampLimit limit) k).rows.map d.view := List.map_map
  simp only [ListUsersHandler.execute, SqlAlchemyUserQueryService.list, hpast, hmore, hvisible,
    hitems, List.getLast?_map]
  by_cases hlt : clampLimit limit < (users.past k).length
  · rcases hlast : ((users.past k).take (clampLimit limit)).getLast? with _ | l
    · simp only [hlt, if_true, Option.map_none]
      refine ⟨_, rfl, rfl, h, rfl, ?_⟩
      simp [Names, Visit.next, Table.visit, hlast]
    · obtain ⟨next, hencode, hdecode⟩ := exists_encodeCursor l.id
      have hid : (d.readUser l).id = l.id := rfl
      simp only [hlt, if_true, Option.map_some, hid, hencode]
      refine ⟨_, rfl, rfl, h, rfl, ?_⟩
      simp [Names, Visit.next, Table.visit, hlast, hlt, hdecode]
  · simp only [hlt, if_false]
    refine ⟨_, rfl, rfl, h, rfl, ?_⟩
    simp [Names, Visit.next, Table.visit, hlt]

/-- **The requests of a client are a traversal**, and none of them fails. -/
theorem followCursors_of_names (h : Names cursor k) (tables : List (Table UserModel.id)) :
    ∃ requests, followCursors d limit cursor tables = .ok requests ∧
      List.Forall₂ (Answers d) requests (traverse (clampLimit limit) k tables) := by
  induction tables generalizing cursor k with
  | nil => exact ⟨[], rfl, .nil⟩
  | cons users rest ih =>
    obtain ⟨page, hpage, hanswers⟩ := @execute_of_names _ d limit cursor k users h
    have hiff := hanswers.next.eq_none
    rw [followCursors, hpage]
    rcases hnext : page.nextCursor with _ | next
    · refine ⟨[⟨users, cursor, page⟩], by simp only [bind, Except.bind, hnext]; rfl, ?_⟩
      rw [traverse_of_last (hiff.mp hnext)]
      exact .cons hanswers .nil
    · obtain ⟨k', hk'⟩ := Option.ne_none_iff_exists'.mp fun hnone =>
        Option.some_ne_none next (hnext.symm.trans (hiff.mpr hnone))
      have hnames : Names (some next) (some k') := by
        have := hanswers.next
        rwa [hnext, hk'] at this
      obtain ⟨requests, hrequests, hall⟩ := ih hnames
      refine ⟨⟨users, cursor, page⟩ :: requests, ?_, ?_⟩
      · simp only [bind, Except.bind, hnext, hrequests]
        rfl
      · rw [traverse_of_next hk']
        exact .cons hanswers hall

end answers

/-! ### What the client sees -/

section final

variable {d : Dialect} {limit : ℤ} {requests : List PageRequest} {vs : List (Visit UserModel.id)}

omit [Unicode] in
@[simp] theorem id_view (d : Dialect) (m : UserModel) : (d.view m).id = m.id := rfl

theorem shown_of_answers (h : List.Forall₂ (Answers d) requests vs) :
    shown requests = (vs.flatMap (·.rows)).map d.view := by
  induction h with
  | nil => rfl
  | cons hr _ ih =>
    rw [shown, List.flatMap_cons, hr.items, List.flatMap_cons, List.map_append]
    exact congrArg _ ih

theorem ended_of_answers (h : List.Forall₂ (Answers d) requests vs) :
    Ended requests ↔ ∃ v ∈ vs, v.next = none := by
  induction h with
  | nil => simp [Ended]
  | cons hr _ ih =>
    unfold Ended at ih ⊢
    simp only [List.mem_cons, exists_eq_or_imp, ih, hr.next.eq_none]

/-- Past the last item, or past the cursor, is what was not seen. -/
theorem beyond_iff {r : PageRequest} {v : Visit UserModel.id} (h : Answers d r v) (userId : UUID) :
    r.Beyond userId ↔ ∀ k ∈ v.bound, k < userId := by
  have hlast : r.page.items.getLast? = v.rows.getLast?.map d.view := by
    rw [h.items, List.getLast?_map]
  have hcursor := h.cursor
  unfold PageRequest.Beyond Visit.bound
  rw [hlast]
  rcases v.rows.getLast? with _ | l
  · unfold Names at hcursor
    rcases hc : r.cursor with _ | cursor
    · rcases hk : v.cursor with _ | k
      · simp
      · simp [hc, hk] at hcursor
    · rcases hk : v.cursor with _ | k
      · simp [hc, hk] at hcursor
      · simp only [hc, hk, Option.map_some, Option.some.injEq] at hcursor
        simp [hcursor]
  · simp

/-- **The client sees every user once**, whatever tables its requests find; and over
a table that stays it comes to the end, and has seen the table in the order of ids. -/
theorem cursors_visit_every_user_once (d : Dialect) (limit : ℤ) :
    (∀ tables, ∃ requests, followCursors d limit none tables = .ok requests ∧
      VisitsOnce limit requests) ∧
    ∀ (users : Table UserModel.id) (extra : ℕ), ∃ requests,
      followCursors d limit none (List.replicate (users.rows.length + 1 + extra) users) =
        .ok requests ∧ Ended requests ∧ shown requests = users.sorted.map d.view := by
  have hsize := clampLimit_pos limit
  constructor
  · -- the answers are those of a client that walks the sorted tables by their keys
    intro tables
    obtain ⟨requests, hrequests, hall⟩ :=
      @followCursors_of_names _ d limit none none rfl tables
    have hvisit : ∀ r ∈ requests, ∃ users k,
        Answers d r (Table.visit users (clampLimit limit) k) := by
      intro r hr
      obtain ⟨v, hv, hanswers⟩ := exists_of_forall₂ hall hr
      obtain ⟨users, -, k, rfl⟩ := exists_of_mem_traverse hv
      exact ⟨users, k, hanswers⟩
    refine ⟨requests, hrequests, ?_, ?_, ?_, ?_⟩
    · -- the ids that are shown increase
      rw [shown_of_answers hall, List.map_map, List.pairwise_map]
      exact (pairwise_traverse (clampLimit limit) none tables).1
    · -- who was there all the time was shown
      intro hended userId hthere
      have hthere' : ∀ v ∈ traverse (clampLimit limit) none tables,
          ∃ m ∈ v.table.rows, m.id = userId := by
        intro v hv
        obtain ⟨r, hr, hanswers⟩ := exists_of_forall₂ hall.flip hv
        rw [← hanswers.users]
        exact hthere r hr
      obtain ⟨m, hm, hid⟩ := mem_traverse hsize (by simp)
        ((ended_of_answers hall).mp hended) hthere'
      rw [shown_of_answers hall]
      exact ⟨d.view m, List.mem_map_of_mem hm, hid⟩
    · -- no page is longer than the limit
      intro r hr
      obtain ⟨users, k, hanswers⟩ := hvisit r hr
      rw [hanswers.items, List.length_map]
      exact List.length_take_le _ _
    · -- a page without a next cursor has nobody behind it
      intro r hr
      obtain ⟨users, k, hanswers⟩ := hvisit r hr
      have hnext : (users.visit (clampLimit limit) k).next = none ↔ _ := Table.next_visit hsize
      rw [hanswers.next.eq_none, hnext, hanswers.users]
      refine forall₂_congr fun m _ => ?_
      rw [beyond_iff hanswers]
      simp
  · -- one request for each user is enough, and one more to learn of the end
    intro users extra
    obtain ⟨requests, hrequests, hall⟩ := @followCursors_of_names _ d limit none none rfl
      (List.replicate (users.rows.length + 1 + extra) users)
    have hlength : (users.past none).length < users.rows.length + 1 + extra := by
      rw [Table.past_none, Table.sorted, List.length_insertionSort]
      omega
    obtain ⟨hend, hrows⟩ := traverse_replicate hsize hlength
    refine ⟨requests, hrequests, (ended_of_answers hall).mpr hend, ?_⟩
    rw [shown_of_answers hall, hrows, Table.past_none]

end final

end pagination

end FastapiStarter
