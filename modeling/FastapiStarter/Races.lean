import FastapiStarter.Conduct
import FastapiStarter.History
import FastapiStarter.Lib.Progress
import FastapiStarter.TokenKinds
import Mathlib.Data.List.Perm.Subperm

/-!
# Requests that race

Any number of requests, of any of the five commands, run side by side, each in a session
of its own.  The stored data stay sound, nothing that identifies a row is lost, no race
ends in an internal error, and no request can be locked out: it may wait for a bulk update
of another, and what that one does next is to commit.

## Main definitions

* `Fresh` — the ids drawn are in use once.
* `Conduct.Holds`, `Integrity` — the invariant of one request, and of all.

## Main results

* `stored_data_stay_sound` — **whatever races, the stored data stay sound.**
* `races_end_in_domain_errors` — **no race ends in an internal error.**
* `requests_can_be_completed` — **no request is locked out.**
-/

namespace FastapiStarter

open Fallible Interaction Relational

/-! ### Ids in use -/

/-- The ids `U` and `J` of the stored rows and those `P i` that requests have drawn for new
ones: all are among the first `n` drawn, and those of the requests are in use once. -/
structure Fresh (env : Env) (n : ℕ) (U J : List UUID) (P : ℕ → List UUID) : Prop where
  users : ∀ a ∈ U, env.Drawn n a
  records : ∀ a ∈ J, env.Drawn n a
  drawn : ∀ i, ∀ a ∈ P i, env.Drawn n a
  nodup : ∀ i, (P i).Nodup
  apart : ∀ i j, i ≠ j → ∀ a ∈ P i, a ∉ P j
  new : ∀ i, ∀ a ∈ P i, a ∉ U ∧ a ∉ J

namespace Fresh

variable {env : Env} {n n' : ℕ} {U J : List UUID} {P : ℕ → List UUID}

theorem mono (h : Fresh env n U J P) (hle : n ≤ n') : Fresh env n' U J P :=
  { h with
    users := fun a ha => (h.users a ha).mono hle
    records := fun a ha => (h.records a ha).mono hle
    drawn := fun i a ha => (h.drawn i a ha).mono hle }

/-- A request draws an id. -/
theorem draw (h : Fresh env n U J P) (hfresh : env.NoRepeat (n + 1)) (i : ℕ) :
    Fresh env (n + 1) U J (Function.update P i (env.uuid n :: P i)) := by
  -- `NoRepeat` is what keeps the new id apart from all that were drawn before
  have hnew : ∀ a, env.Drawn n a → a ≠ env.uuid n :=
    fun a ha => hfresh.ne (Nat.lt_succ_self n) le_rfl ha
  refine { (h.mono (Nat.le_succ n)) with drawn := ?_, nodup := ?_, apart := ?_, new := ?_ }
  · intro j a ha
    rcases eq_or_ne j i with rfl | hj
    · rw [Function.update_self] at ha
      rcases List.mem_cons.mp ha with rfl | ha
      · exact ⟨n, Nat.lt_succ_self n, rfl⟩
      · exact (h.drawn j a ha).mono (Nat.le_succ n)
    · rw [Function.update_of_ne hj] at ha
      exact (h.drawn j a ha).mono (Nat.le_succ n)
  · intro j
    rcases eq_or_ne j i with rfl | hj
    · rw [Function.update_self]
      exact List.nodup_cons.mpr ⟨fun hmem => hnew _ (h.drawn j _ hmem) rfl, h.nodup j⟩
    · rw [Function.update_of_ne hj]
      exact h.nodup j
  · intro j k hjk a ha hk
    rcases eq_or_ne j i with rfl | hj
    · rw [Function.update_self] at ha
      rw [Function.update_of_ne hjk.symm] at hk
      rcases List.mem_cons.mp ha with rfl | ha
      · exact hnew _ (h.drawn k _ hk) rfl
      · exact h.apart j k hjk a ha hk
    · rw [Function.update_of_ne hj] at ha
      rcases eq_or_ne k i with rfl | hki
      · rw [Function.update_self] at hk
        rcases List.mem_cons.mp hk with rfl | hk
        · exact hnew _ (h.drawn j _ ha) rfl
        · exact h.apart j k hjk a ha hk
      · rw [Function.update_of_ne hki] at hk
        exact h.apart j k hjk a ha hk
  · intro j a ha
    rcases eq_or_ne j i with rfl | hj
    · rw [Function.update_self] at ha
      rcases List.mem_cons.mp ha with rfl | ha
      · exact ⟨fun hU => hnew _ (h.users _ hU) rfl, fun hJ => hnew _ (h.records _ hJ) rfl⟩
      · exact h.new j a ha
    · rw [Function.update_of_ne hj] at ha
      exact h.new j a ha

/-- A request gives ids it has drawn to rows that are stored, and keeps some of the rest. -/
theorem take (h : Fresh env n U J P) {i : ℕ} (us js p : List UUID)
    (hp : (us ++ js ++ p).Subperm (P i)) :
    Fresh env n (U ++ us) (J ++ js) (Function.update P i p) := by
  obtain ⟨l, hperm, hsub⟩ := hp
  have hnodup : (us ++ js ++ p).Nodup := hperm.nodup_iff.mp (hsub.nodup (h.nodup i))
  have hmem : ∀ a, a ∈ us ++ js ++ p → a ∈ P i := fun a ha => hsub.subset (hperm.mem_iff.mpr ha)
  have hus : ∀ a ∈ us, a ∈ P i := fun a ha => hmem a (by simp [ha])
  have hjs : ∀ a ∈ js, a ∈ P i := fun a ha => hmem a (by simp [ha])
  have hps : ∀ a ∈ p, a ∈ P i := fun a ha => hmem a (by simp [ha])
  -- an id that goes into a row is none of those that are kept, nor another's
  have hdisjoint : ∀ a ∈ p, a ∉ us ∧ a ∉ js := by
    intro a ha
    have hne := (List.nodup_append.mp hnodup).2.2
    exact ⟨fun hu => hne a (by simp [hu]) a ha rfl, fun hj => hne a (by simp [hj]) a ha rfl⟩
  have hother : ∀ j, j ≠ i → ∀ a ∈ P j, a ∉ us ∧ a ∉ js := by
    intro j hj a ha
    exact ⟨fun hu => h.apart j i hj a ha (hus a hu), fun hj' => h.apart j i hj a ha (hjs a hj')⟩
  refine { users := ?_, records := ?_, drawn := ?_, nodup := ?_, apart := ?_, new := ?_ }
  · intro a ha
    exact (List.mem_append.mp ha).elim (h.users a) fun ha => h.drawn i a (hus a ha)
  · intro a ha
    exact (List.mem_append.mp ha).elim (h.records a) fun ha => h.drawn i a (hjs a ha)
  · intro j a ha
    rcases eq_or_ne j i with rfl | hj
    · rw [Function.update_self] at ha
      exact h.drawn j a (hps a ha)
    · rw [Function.update_of_ne hj] at ha
      exact h.drawn j a ha
  · intro j
    rcases eq_or_ne j i with rfl | hj
    · rw [Function.update_self]
      exact hnodup.of_append_right
    · rw [Function.update_of_ne hj]
      exact h.nodup j
  · intro j k hjk a ha hk
    have hin : ∀ j, a ∈ Function.update P i p j → a ∈ P j := by
      intro j ha
      rcases eq_or_ne j i with rfl | hj
      · rw [Function.update_self] at ha
        exact hps a ha
      · rwa [Function.update_of_ne hj] at ha
    exact h.apart j k hjk a (hin j ha) (hin k hk)
  · intro j a ha
    simp only [List.mem_append, not_or]
    rcases eq_or_ne j i with rfl | hj
    · rw [Function.update_self] at ha
      obtain ⟨hU, hJ⟩ := h.new j a (hps a ha)
      exact ⟨⟨hU, (hdisjoint a ha).1⟩, hJ, (hdisjoint a ha).2⟩
    · rw [Function.update_of_ne hj] at ha
      obtain ⟨hU, hJ⟩ := h.new j a ha
      exact ⟨⟨hU, (hother j hj a ha).1⟩, hJ, (hother j hj a ha).2⟩

end Fresh

section races

variable [Unicode]

/-! ### One request -/

/-- The ids that a request has drawn and that are not stored. -/
def Conduct.pending (x : Conduct × Session) : List UUID :=
  x.1.ids ++ (x.2.newUsers.map (·.id) ++ x.2.newRefreshTokens.map (·.jti))

/-- **The invariant of one request**: its session fits the database, and what it has done
agrees with what it has read. -/
structure Conduct.Holds (refuses : DomainError → Prop) (x : Conduct × Session) (db : Database) :
    Prop where
  fits : x.2.Fits db
  read : ∀ u ∈ x.1.users, u.Stored db
  clean : x.1.dirty = false → ∀ t ∈ x.2.refreshTokens, t.current = t.loaded
  swept : x.1.sweeping = true → x.1.dirty = false
  adds : x.2.newUsers ≠ [] → refuses .emailAlreadyExists

namespace Conduct.Holds

variable {refuses : DomainError → Prop} {g : Conduct} {s : Session} {db db' : Database}

theorem mono {x : Conduct × Session} (h : Holds refuses x db) (hkeeps : db.Keeps db') :
    Holds refuses x db' :=
  { h with
    fits := h.fits.mono hkeeps
    read := fun u hu => (h.read u hu).mono hkeeps }

theorem empty (collided : Bool) :
    Holds refuses (⟨[], [], false, false, collided⟩, .empty) db where
  fits := .empty
  read _ h := nomatch h
  clean _ _ h := nomatch h
  swept h := nomatch h
  adds h := absurd rfl h

/-- A user was written back. -/
theorem setUser (h : Holds refuses (g, s) db) {u : User} (hu : u.Stored db) {m : UserModel}
    (hm : m.Fits db) (hid : m.id = u.id.value) :
    Holds refuses (g, s.setUser m (UserMapper.applyToModel u)) db :=
  { h with
    fits := h.fits.setUser hu hm hid
    clean := by simpa using h.clean
    adds := by simpa using h.adds }

/-- A record that was revoked was written back. -/
theorem setRefreshToken (h : Holds refuses (g, s) db) (hquiet : g.sweeping = false)
    {record : RefreshTokenRecord} (hrev : record.revokedAt ≠ none) {m : RefreshTokenModel}
    (hm : ∃ m₀ ∈ db.refreshTokens.rows, m₀.SameRecord m) :
    Holds refuses ({ g with dirty := true },
      s.setRefreshToken m (RefreshTokenMapper.applyToModel record)) db :=
  { h with
    fits := h.fits.setRefreshToken hrev hm
    clean := fun hclean => absurd hclean.symm Bool.false_ne_true
    swept := fun hswept => absurd (hquiet.symm.trans hswept) Bool.false_ne_true
    adds := by simpa using h.adds }

/-- A user was read. -/
theorem cons (h : Holds refuses (g, s) db) {u : User} (hu : u.Stored db) :
    Holds refuses ({ g with users := u :: g.users }, s) db :=
  { h with
    read := by
      intro u' hu'
      rcases List.mem_cons.mp hu' with rfl | hu'
      · exact hu
      · exact h.read u' hu' }

end Conduct.Holds

/-- **What a call of a request does to the others**: rows are added, under ids that the
request has drawn; it may hold rows if it is sweeping; and it is the one that collides. -/
structure Effect (env : Env) (refuses : DomainError → Prop) (sid : ℕ) (x : Conduct × Session)
    (w : World) (y : Conduct × Session) (w' : World) : Prop where
  advances : ∃ us rs drawn, w.db.Advances w'.db us rs ∧
    (us.map (·.id) ++ rs.map (·.jti) ++ Conduct.pending y).Subperm (drawn ++ Conduct.pending x) ∧
    (drawn = [] ∧ w.ids ≤ w'.ids ∨ drawn = [env.uuid w.ids] ∧ w'.ids = w.ids + 1)
  holds : Conduct.Holds refuses y w'.db
  statements : ∀ st ∈ w'.statements,
    st.session = sid ∧ y.1.sweeping = true ∨ st.session ≠ sid ∧ st ∈ w.statements
  collided : y.1.collided = true → x.1.collided = true ∨ ¬ x.2.NewIds w.db

section effect

variable {env : Env} {refuses : DomainError → Prop} {sid : ℕ} {x y : Conduct × Session}
  {w w' : World}

/-- A call that stores nothing and holds nothing. -/
theorem Effect.quiet (hsound : w.db.Sound) (hown : ∀ st ∈ w.statements, st.session ≠ sid)
    (hholds : Conduct.Holds refuses y w.db) (hdb : w'.db = w.db)
    (hstatements : w'.statements = w.statements) (hids : w.ids ≤ w'.ids)
    (hpending : (Conduct.pending y).Perm (Conduct.pending x))
    (hcollided : y.1.collided = x.1.collided) : Effect env refuses sid x w y w' where
  advances := ⟨[], [], [], by rw [hdb]; exact .refl hsound, hpending.subperm, .inl ⟨rfl, hids⟩⟩
  holds := by
    rw [hdb]
    exact hholds
  statements st hst := by
    rw [hstatements] at hst
    exact .inr ⟨hown st hst, hst⟩
  collided h := .inl (hcollided ▸ h)

omit [Unicode] in
/-- An id moves from those drawn to the new rows. -/
theorem perm_erase_move {ids : List UUID} (new new' : List UUID) {a : UUID} (h : a ∈ ids) :
    (ids.erase a ++ (new ++ a :: new')).Perm (ids ++ (new ++ new')) := by
  have hmove : (ids.erase a ++ (new ++ a :: new')).Perm (a :: (ids.erase a ++ (new ++ new'))) := by
    rw [← List.append_assoc, ← List.append_assoc]
    exact List.perm_middle
  have hback : (a :: ids.erase a ++ (new ++ new')).Perm (ids ++ (new ++ new')) :=
    (List.perm_cons_erase h).symm.append_right _
  exact hmove.trans hback

/-- A transaction sees the keys that are committed. -/
theorem Session.NewIds.of_view {s : Session} {db view : Database} (hview : db.Advances view [] [])
    (h : s.NewIds db) : s.NewIds view := by
  constructor
  · rw [hview.userIds]
    simpa using h.users
  · rw [hview.jtis]
    simpa using h.refreshTokens

/-- **The effect of a commit.** -/
theorem commit_effect (env : Env) (sid : ℕ) {g : Conduct} {s : Session} (hsound : w.db.Sound)
    (hholds : Conduct.Holds refuses (g, s) w.db) :
    match execCommit env sid s w with
    | (.ok _, s', w') =>
      Effect env refuses sid (g, s) w ({ g with dirty := false, sweeping := false }, s') w'
    | (.error e, s', w') => ∃ g', (Conduct.discipline refuses).Ends g' ∧
      (Conduct.discipline refuses).Raises g' e ∧ Effect env refuses sid (g, s) w (g', s') w' := by
  have hview := hsound.after (w.statementsOf sid)
  have hflush := Session.flush_spec hview.sound (hholds.fits.mono hview.keeps)
  have hothers : ∀ st ∈ (w.close sid).statements, st.session ≠ sid ∧ st ∈ w.statements := by
    intro st hst
    obtain ⟨hmem, hne⟩ := List.mem_filter.mp hst
    exact ⟨by simpa using hne, hmem⟩
  unfold execCommit
  change Meets (s.flush (w.view sid)) _ _ at hflush
  rcases hx : s.flush (w.view sid) with e | db
  · rw [hx, meets_error] at hflush
    -- rolled back: nothing is stored, and the session is empty
    have heffect : ∀ collided, (collided = true → ¬ s.NewIds w.db) →
        Effect env refuses sid (g, s) w (⟨[], [], false, false, collided⟩, .empty)
          (w.close sid) := by
      intro collided hcollided
      exact { advances := ⟨[], [], [], .refl hsound, List.nil_subperm, .inl ⟨rfl, le_rfl⟩⟩
              holds := .empty collided
              statements := fun st hst => .inr (hothers st hst)
              collided := fun h => .inr (hcollided h) }
    rcases hflush with ⟨rfl, hnew⟩ | ⟨-, hcollides⟩
    · refine ⟨⟨[], [], false, false, false⟩, rfl, .inl ⟨_, ?_, hholds.adds hnew⟩,
        heffect false fun h => nomatch h⟩
      rw [translateCommitError_integrity, if_pos rfl]
    · exact ⟨⟨[], [], false, false, true⟩, rfl, .inr rfl,
        heffect true fun _ hnew => hcollides (hnew.of_view hview)⟩
  · rw [hx, meets_ok] at hflush
    have hadv : w.db.Advances db s.newUsers s.newRefreshTokens := hview.trans hflush
    exact
      { advances := by
          refine ⟨_, _, [], hadv, ?_, .inl ⟨rfl, le_rfl⟩⟩
          have hperm : (s.newUsers.map (·.id) ++ s.newRefreshTokens.map (·.jti) ++ g.ids).Perm
              (g.ids ++ (s.newUsers.map (·.id) ++ s.newRefreshTokens.map (·.jti))) :=
            List.perm_append_comm
          simpa [Conduct.pending, Session.empty] using hperm.subperm
        holds :=
          { fits := .empty
            read := fun u hu => (hholds.read u hu).mono hadv.keeps
            clean := fun _ t ht => nomatch ht
            swept := fun h => nomatch h
            adds := fun h => absurd rfl h }
        statements := fun st hst => .inr (hothers st hst)
        collided := .inl }

/-- **The effect of a bulk update**, made before anything is written back: the request
holds the rows from now on, and nothing is stored yet. -/
theorem bulk_effect {g : Conduct} {s : Session} (hsound : w.db.Sound)
    (hholds : Conduct.Holds refuses (g, s) w.db) (hown : ∀ st ∈ w.statements, st.session ≠ sid)
    (hdirty : g.dirty = false) (scope : Scope) (at' : Instant) :
    Effect env refuses sid (g, s) w
      ({ g with sweeping := true }, (execBulk sid scope at' s w).1)
      (execBulk sid scope at' s w).2 where
  advances := ⟨[], [], [], .refl hsound, (List.Perm.refl _).subperm, .inl ⟨rfl, le_rfl⟩⟩
  holds :=
    { hholds with
      fits := hholds.fits.synchronize scope at'
      clean := by
        intro _ t ht
        obtain ⟨t₀, ht₀, rfl⟩ := List.mem_map.mp ht
        have hclean := hholds.clean hdirty t₀ ht₀
        split
        · simp only [hclean]
        · exact hclean
      swept := fun _ => hdirty }
  statements := by
    intro st hst
    rcases List.mem_cons.mp hst with rfl | hst
    · exact .inl ⟨rfl, rfl⟩
    · exact .inr ⟨hown st hst, hst⟩
  collided := .inl

/-- A user that was found is loaded. -/
theorem userOfModel_ok {db : Database} {found : Option UserModel}
    (hsound : db.Sound) (h : ∀ m, found = some m → m.Fits db) :
    found = none ∧ userOfModel found = .ok none ∨
      ∃ u : User, userOfModel found = .ok (some u) ∧ u.Stored db := by
  rcases found with _ | m
  · exact .inl ⟨rfl, rfl⟩
  · obtain ⟨u, hload, hu⟩ := (h m rfl).loads hsound
    exact .inr ⟨u, by simp [userOfModel, hload, ofDomain, Except.map], hu⟩

/-- **The effect of a call** that the discipline allows: it is answered as the discipline
relies on, or fails with an exception that it admits. -/
theorem exec_effect (hhash : ∀ salt plain, env.hash salt plain ≠ [])
    (hdispatch : env.dispatcher = eventDispatcher) {g : Conduct} {s : Session} {o : Port}
    (hsound : w.db.Sound) (hholds : Conduct.Holds refuses (g, s) w.db)
    (hcalls : (Conduct.discipline refuses).Calls g o)
    (hown : g.sweeping = false → ∀ st ∈ w.statements, st.session ≠ sid) :
    match exec env sid o (s, w) with
    | (.ok r, s', w') => Conduct.Replies g o r ∧ Effect env refuses sid (g, s) w (g.next o r, s') w'
    | (.error e, s', w') => ∃ g', (Conduct.discipline refuses).Ends g' ∧
      (Conduct.discipline refuses).Raises g' e ∧ Effect env refuses sid (g, s) w (g', s') w' := by
  obtain ⟨hsweeping, hadmits⟩ := hcalls
  have hview := hsound.after (w.statementsOf sid)
  by_cases hcommit : o = .commit
  · subst hcommit
    have heffect := commit_effect env sid hsound hholds
    simp only [exec]
    rcases hx : execCommit env sid s w with ⟨e | r, s', w'⟩
    · rw [hx] at heffect
      exact heffect
    · rw [hx] at heffect
      exact ⟨trivial, heffect⟩
  have hquiet : g.sweeping = false := hsweeping.resolve_right hcommit
  have hothers := hown hquiet
  -- a call after which the request holds no rows, and the world is as it was but for counters
  have hsilent : ∀ {g' : Conduct} {s' : Session} {w' : World},
      Conduct.Holds refuses (g', s') w.db → w'.db = w.db → w'.statements = w.statements →
      w.ids ≤ w'.ids → (Conduct.pending (g', s')).Perm (Conduct.pending (g, s)) →
      g'.collided = g.collided → Effect env refuses sid (g, s) w (g', s') w' :=
    fun h => Effect.quiet hsound hothers h
  have hsame : ∀ {w' : World}, w'.db = w.db → w'.statements = w.statements → w.ids ≤ w'.ids →
      Effect env refuses sid (g, s) w (g, s) w' :=
    fun hdb hst hids => hsilent hholds hdb hst hids (.refl _) rfl
  cases o with
  | usersAdd user =>
    obtain ⟨hid, htaken⟩ := hadmits
    refine ⟨trivial, hsilent { hholds with fits := { hholds.fits with newUsers := ?_ }, adds := ?_ }
      rfl rfl le_rfl ?_ rfl⟩
    · intro m hm
      rcases List.mem_append.mp hm with hm | hm
      · exact hholds.fits.newUsers m hm
      · exact ⟨user, List.mem_singleton.mp hm⟩
    · exact fun _ => htaken
    · simpa [Conduct.pending, Conduct.next, Session.addUser, UserMapper.toModel] using
        perm_erase_move (s.newUsers.map (·.id)) (s.newRefreshTokens.map (·.jti)) hid
  | usersUpdate user =>
    have hstored := hholds.read user hadmits
    simp only [exec]
    rcases hx : s.getUser env.dialect (w.view sid) user.id.value with _ | m
    · exact absurd hx (Session.getUser_of_stored hstored hview env.dialect)
    · obtain ⟨hm, hid⟩ := hholds.fits.getUser hview env.dialect hx
      refine ⟨trivial, hsilent (hholds.setUser hstored hm hid) rfl rfl le_rfl ?_ rfl⟩
      simp [Conduct.pending, Conduct.next]
  | usersGetById userId =>
    have hagain : (∃ u ∈ g.users, u.id = userId) →
        s.getUser env.dialect (w.view sid) userId.value ≠ none := by
      rintro ⟨u, hu, rfl⟩
      exact Session.getUser_of_stored (hholds.read u hu) hview env.dialect
    have hloads : ∀ m, s.getUser env.dialect (w.view sid) userId.value = some m → m.Fits w.db :=
      fun m hm => (hholds.fits.getUser hview env.dialect hm).1
    simp only [exec]
    rcases userOfModel_ok hsound hloads with ⟨hnone, hanswer⟩ | ⟨u, hanswer, hu⟩
    · rw [hanswer]
      exact ⟨fun hread _ => hagain hread hnone, hsame rfl rfl le_rfl⟩
    · rw [hanswer]
      exact ⟨fun _ => Option.some_ne_none _, hsilent (hholds.cons hu) rfl rfl le_rfl (.refl _) rfl⟩
  | usersGetByEmail email =>
    obtain ⟨found, hx, hloads⟩ :=
      hholds.fits.selectUserByEmail hview env.dialect email.value
    simp only [exec, World.view, hx]
    rcases userOfModel_ok hsound hloads with ⟨-, hanswer⟩ | ⟨u, hanswer, hu⟩
    · rw [hanswer]
      exact ⟨trivial, hsame rfl rfl le_rfl⟩
    · rw [hanswer]
      exact ⟨trivial, hsilent (hholds.cons hu) rfl rfl le_rfl (.refl _) rfl⟩
  | refreshTokensAdd record =>
    obtain ⟨hjti, u, hu, huser⟩ := hadmits
    refine ⟨trivial, hsilent { hholds with fits := { hholds.fits with newRefreshTokens := ?_ } }
      rfl rfl le_rfl ?_ rfl⟩
    · intro m hm
      rcases List.mem_append.mp hm with hm | hm
      · exact hholds.fits.newRefreshTokens m hm
      · obtain rfl := List.mem_singleton.mp hm
        obtain ⟨row, hrow, hsame⟩ := hholds.read u hu
        refine ⟨⟨record, rfl⟩, row, hrow, ?_⟩
        rw [RefreshTokenMapper.toModel, ← huser]
        exact hsame.id.symm
    · have hmove := perm_erase_move
        (s.newUsers.map (·.id) ++ s.newRefreshTokens.map (·.jti)) [] hjti
      simpa [Conduct.pending, Conduct.next, Session.addRefreshToken, RefreshTokenMapper.toModel]
        using hmove
  | refreshTokensUpdate record =>
    obtain ⟨hrev, hinvalid⟩ := hadmits
    simp only [exec]
    rcases hx : s.getRefreshToken env.dialect (w.view sid) record.jti with _ | m
    · exact ⟨g, hquiet, .inl ⟨_, rfl, hinvalid⟩, hsame rfl rfl le_rfl⟩
    · have hm := hholds.fits.getRefreshToken hview env.dialect hx
      refine ⟨trivial, hsilent (hholds.setRefreshToken hquiet hrev hm) rfl rfl le_rfl ?_ rfl⟩
      simp [Conduct.pending, Conduct.next]
  | refreshTokensGetByJti jti => exact ⟨trivial, hsame rfl rfl le_rfl⟩
  | refreshTokensRevokeFamily familyId at' =>
    exact ⟨trivial, bulk_effect hsound hholds hothers hadmits (.family familyId) at'⟩
  | refreshTokensRevokeAllForUser userId at' =>
    exact ⟨trivial, bulk_effect hsound hholds hothers hadmits (.user userId.value) at'⟩
  | commit => exact absurd rfl hcommit
  | hash plain => exact ⟨hhash _ _, hsame rfl rfl le_rfl⟩
  | createAccessToken subject => exact ⟨trivial, hsame rfl rfl (Nat.le_succ _)⟩
  | decode token =>
    obtain ⟨hinvalid, hexpired⟩ := hadmits
    simp only [exec]
    rcases hx : w.decode env token with e | p
    · refine ⟨g, hquiet, .inl ⟨e, rfl, ?_⟩, hsame rfl rfl le_rfl⟩
      have he := World.decode_error hx
      cases e with
      | invalidToken => exact hinvalid
      | tokenExpired => exact hexpired
      | _ => exact he.elim
    · exact ⟨trivial, hsame rfl rfl le_rfl⟩
  | uuid4 =>
    exact ⟨trivial,
      { advances := ⟨[], [], [env.uuid w.ids], .refl hsound, (List.Perm.refl _).subperm,
          .inr ⟨rfl, rfl⟩⟩
        holds := { hholds with }
        statements := fun st hst => .inr ⟨hothers st hst, hst⟩
        collided := .inl }⟩
  | dispatch events =>
    simp only [exec, hdispatch, dispatch_eventDispatcher]
    exact ⟨trivial, hsame rfl rfl le_rfl⟩
  | recordRevoke record at' => exact ⟨rfl, hsame rfl rfl le_rfl⟩
  | userChangePassword user hashedPassword =>
    refine ⟨rfl, hsilent (hholds.cons ?_) rfl rfl le_rfl (.refl _) rfl⟩
    obtain ⟨m, hm, hid, hemail, hactive, hcreated⟩ := hholds.read user hadmits
    exact ⟨m, hm, hid, hemail, hactive, hcreated⟩
  | _ => exact ⟨trivial, hsame rfl rfl le_rfl⟩

end effect

/-! ### All requests -/

/-- **The invariant of all requests**, since the database was `db₀`. -/
structure Integrity (refuses : ℕ → DomainError → Prop) (db₀ : Database) (x : ℕ → Conduct × Session)
    (w : World) : Prop where
  sound : w.db.Sound
  keeps : db₀.Keeps w.db
  holds : ∀ i, Conduct.Holds (refuses i) (x i) w.db
  sweeping : ∀ st ∈ w.statements, (x st.session).1.sweeping = true

/-- Every id drawn is in use once, and none has collided. -/
structure IdsOnce (env : Env) (x : ℕ → Conduct × Session) (w : World) : Prop where
  fresh : Fresh env w.ids (w.db.users.rows.map (·.id)) (w.db.refreshTokens.rows.map (·.jti))
    fun i => Conduct.pending (x i)
  collided : ∀ i, (x i).1.collided = false

section step

variable {env : Env} {refuses : ℕ → DomainError → Prop} {db₀ : Database} {x : ℕ → Conduct × Session}
  {y : Conduct × Session} {i : ℕ} {w w' : World}

theorem Integrity.step (h : Integrity refuses db₀ x w)
    (he : Effect env (refuses i) i (x i) w y w') :
    Integrity refuses db₀ (Function.update x i y) w' := by
  obtain ⟨us, rs, drawn, hadv, -, -⟩ := he.advances
  refine { sound := hadv.sound, keeps := h.keeps.trans hadv.keeps, holds := ?_, sweeping := ?_ }
  · intro j
    rcases eq_or_ne j i with rfl | hj
    · rw [Function.update_self]
      exact he.holds
    · rw [Function.update_of_ne hj]
      exact (h.holds j).mono hadv.keeps
  · intro st hst
    rcases he.statements st hst with ⟨hsession, hsweeping⟩ | ⟨hsession, hst⟩
    · rw [hsession, Function.update_self]
      exact hsweeping
    · rw [Function.update_of_ne hsession]
      exact h.sweeping st hst

/-- New rows have ids of their own, while no id is drawn twice. -/
theorem IdsOnce.newIds (h : IdsOnce env x w) (i : ℕ) : (x i).2.NewIds w.db := by
  have hnodup := h.fresh.nodup i
  simp only [Conduct.pending] at hnodup
  have hnew := hnodup.of_append_right
  constructor
  · refine w.db.users.nodup.append hnew.of_append_left fun a ha ha' => ?_
    exact (h.fresh.new i a (by simp [Conduct.pending, ha'])).1 ha
  · refine w.db.refreshTokens.nodup.append hnew.of_append_right fun a ha ha' => ?_
    exact (h.fresh.new i a (by simp [Conduct.pending, ha'])).2 ha

theorem IdsOnce.step (h : IdsOnce env x w) (hfresh : env.NoRepeat w'.ids)
    (he : Effect env (refuses i) i (x i) w y w') : IdsOnce env (Function.update x i y) w' := by
  obtain ⟨us, rs, drawn, hadv, hpending, hdrawn⟩ := he.advances
  have hupdate : (fun j => Conduct.pending (Function.update x i y j)) =
      Function.update (fun j => Conduct.pending (x j)) i (Conduct.pending y) := by
    funext j
    rcases eq_or_ne j i with rfl | hj
    · simp
    · simp [Function.update_of_ne hj]
  refine ⟨?_, fun j => ?_⟩
  · rw [hupdate, hadv.userIds, hadv.jtis]
    rcases hdrawn with ⟨rfl, hids⟩ | ⟨rfl, hids⟩
    · exact (h.fresh.take _ _ _ hpending).mono hids
    · -- the id is drawn first, and goes to a row, or stays with the request
      rw [hids] at hfresh ⊢
      have htake := (h.fresh.draw hfresh i).take (i := i) (us.map (·.id)) (rs.map (·.jti))
        (Conduct.pending y) (by simpa using hpending)
      simpa using htake
  · rcases eq_or_ne j i with rfl | hj
    · rw [Function.update_self]
      refine Bool.eq_false_iff.mpr fun hcollided => ?_
      rcases he.collided hcollided with hbefore | hnot
      · rw [h.collided j] at hbefore
        cases hbefore
      · exact hnot (h.newIds j)
    · rw [Function.update_of_ne hj]
      exact h.collided j

end step

/-! ### Runs -/

/-- What is known of a configuration: the invariant, and that every request keeps to its
discipline. -/
def InOrder {α : Type} (refuses : ℕ → DomainError → Prop) (db₀ : Database)
    (cfg : Config ℕ Port Port.Ret Exc α Session World) (g : ℕ → Conduct) : Prop :=
  Integrity refuses db₀ (fun i => (g i, (cfg.threads i).loc)) cfg.shared ∧
    ∀ i, (Conduct.discipline (refuses i)).Follows (cfg.threads i).prog (g i)

/-- Requests of a kind that keeps to the discipline, before they have started. -/
structure Starts {α : Type} (refuses : ℕ → DomainError → Prop)
    (cfg : Config ℕ Port Port.Ret Exc α Session World) : Prop where
  follows : ∀ i, (Conduct.discipline (refuses i)).Follows (cfg.threads i).prog .empty
  sessions : ∀ i, (cfg.threads i).loc = .empty
  statements : cfg.shared.statements = []
  sound : cfg.shared.db.Sound

section runs

variable {env : Env} {α : Type} {refuses : ℕ → DomainError → Prop}
  {cfg₀ cfg cfg' : Config ℕ Port Port.Ret Exc α Session World}

/-- Requests that have not started are in order. -/
theorem Starts.inOrder (h : Starts refuses cfg₀) :
    InOrder refuses cfg₀.shared.db cfg₀ fun _ => .empty := by
  refine ⟨⟨h.sound, .refl _, fun i => ?_, fun st hst => ?_⟩, h.follows⟩
  · rw [h.sessions i]
    exact .empty false
  · rw [h.statements] at hst
    cases hst

/-- A request that is sweeping is about to commit, and waits for nobody. -/
theorem commits_of_sweeping {db₀ : Database} {g : ℕ → Conduct} {j : ℕ}
    (h : InOrder refuses db₀ cfg g) (hsweeping : (g j).sweeping = true) :
    ∃ k, (cfg.threads j).prog = .call .commit k ∧
      Unblocked j .commit (cfg.threads j).loc cfg.shared := by
  obtain ⟨hinv, hfollows⟩ := h
  have hj := hfollows j
  have hends : ¬ (Conduct.discipline (refuses j)).Ends (g j) := by
    intro hends
    exact Bool.false_ne_true (Eq.trans (Eq.symm hends) hsweeping)
  cases hp : (cfg.threads j).prog with
  | pure a =>
    rw [hp] at hj
    exact absurd hj hends
  | raise e =>
    rw [hp] at hj
    exact absurd hj.1 hends
  | call o k =>
    rw [hp, Discipline.follows_call] at hj
    obtain rfl : o = .commit := by
      rcases hj.1.1 with hquiet | ho
      · exact absurd hquiet hends
      · exact ho
    refine ⟨k, rfl, fun st _ _ jti hjti => ?_⟩
    -- it has changed no record, so it writes none but those it holds
    have hclean := (hinv.holds j).clean ((hinv.holds j).swept hsweeping)
    obtain ⟨t, ht, rfl⟩ := List.mem_map.mp hjti
    obtain ⟨htmem, hchanged⟩ := List.mem_filter.mp ht
    exact absurd (hclean t htmem) (by simpa using hchanged)

/-- A commit ends the transaction, whether it succeeds or not. -/
theorem statements_advance_commit {j : ℕ} {k : Unit → Handler α}
    (hp : (cfg.threads j).prog = .call .commit k) :
    (cfg.advance (system env) j).shared.statements =
      cfg.shared.statements.filter fun st => st.session ≠ j := by
  rw [Config.shared_advance hp]
  show (execCommit env j (cfg.threads j).loc cfg.shared).2.2.statements = _
  unfold execCommit
  split <;> rfl

variable (hhash : ∀ salt plain, env.hash salt plain ≠ [])
  (hdispatch : env.dispatcher = eventDispatcher)

include hhash hdispatch

/-- **The invariant is kept by every run.** -/
theorem InOrder.of_reach {db₀ : Database} {g : ℕ → Conduct} (h : InOrder refuses db₀ cfg g)
    (hreach : Reach (system env) anyCall cfg cfg') :
    ∃ g', InOrder refuses db₀ cfg' g' ∧
      (IdsOnce env (fun i => (g i, (cfg.threads i).loc)) cfg.shared →
        env.NoRepeat cfg'.shared.ids →
          IdsOnce env (fun i => (g' i, (cfg'.threads i).loc)) cfg'.shared) := by
  obtain ⟨hinv, hfollows⟩ := h
  obtain ⟨g', ⟨hinv', hids⟩, hfollows'⟩ := hreach.follows
    (fun i => Conduct.discipline (refuses i)) g
    (fun x w' _ => Integrity refuses db₀ x w' ∧
      (IdsOnce env (fun i => (g i, (cfg.threads i).loc)) cfg.shared → env.NoRepeat w'.ids →
        IdsOnce env x w'))
    hfollows ⟨hinv, fun h _ => h⟩
    (by
      intro x w₁ _ i o ⟨hinv, hids⟩ hcalls _
      -- only a sweeping request has statements pending
      have hown : (x i).1.sweeping = false → ∀ st ∈ w₁.statements, st.session ≠ i := by
        rintro hquiet st hst rfl
        rw [hinv.sweeping st hst] at hquiet
        cases hquiet
      have heffect := exec_effect hhash hdispatch hinv.sound (hinv.holds i) hcalls hown
      -- one effect keeps both parts, whether the call succeeds or raises
      have hstep : ∀ {y : Conduct × Session} {w₂ : World},
          Effect env (refuses i) i (x i) w₁ y w₂ →
            Integrity refuses db₀ (Function.update x i y) w₂ ∧
            (IdsOnce env (fun i => (g i, (cfg.threads i).loc)) cfg.shared → env.NoRepeat w₂.ids →
              IdsOnce env (Function.update x i y) w₂) := by
        intro y w₂ he
        refine ⟨hinv.step he, fun hstart hfresh => ?_⟩
        obtain ⟨_, _, _, -, -, hdrawn⟩ := he.advances
        have hle : w₁.ids ≤ w₂.ids := by
          rcases hdrawn with ⟨-, hle⟩ | ⟨-, heq⟩ <;> omega
        have hbefore : env.NoRepeat w₁.ids := fun a ha b hb =>
          hfresh a (ha.trans_le hle) b (hb.trans_le hle)
        exact (hids hstart hbefore).step hfresh he
      rcases hx : (system env).exec i o ((x i).2, w₁) with ⟨e | r, s, w₂⟩
      · rw [show exec env i o ((x i).2, w₁) = (.error e, s, w₂) from hx] at heffect
        obtain ⟨g', hends, hraises, he⟩ := heffect
        exact ⟨g', hends, hraises, hstep he⟩
      · rw [show exec env i o ((x i).2, w₁) = (.ok r, s, w₂) from hx] at heffect
        exact ⟨heffect.1, hstep heffect.2⟩)
  exact ⟨g', ⟨hinv', hfollows'⟩, hids⟩

/-- The data stay sound, and rows are kept. -/
theorem Starts.sound_of_reach (h : Starts refuses cfg₀)
    (hreach : Reach (system env) anyCall cfg₀ cfg) (hlater : Reach (system env) anyCall cfg cfg') :
    cfg.shared.db.Sound ∧ cfg.shared.db.Keeps cfg'.shared.db := by
  obtain ⟨g, ⟨hinv, hfollows⟩, -⟩ := h.inOrder.of_reach hhash hdispatch hreach
  have hfrom : InOrder refuses cfg.shared.db cfg g := ⟨{ hinv with keeps := .refl _ }, hfollows⟩
  obtain ⟨g', ⟨hinv', -⟩, -⟩ := hfrom.of_reach hhash hdispatch hlater
  exact ⟨hinv.sound, hinv'.keeps⟩

/-- A request that fails is refused with an error of its own, while ids do not repeat. -/
theorem Starts.refused_of_reach (h : Starts refuses cfg₀) (hw : Settled env cfg₀.shared)
    (hreach : Reach (system env) anyCall cfg₀ cfg) (hfresh : env.NoRepeat cfg.shared.ids) {i : ℕ}
    {e : Exc} (hfailed : (cfg.threads i).result = some (.error e)) :
    ∃ x, e = .domain x ∧ refuses i x := by
  have honce : IdsOnce env (fun i => (Conduct.empty, (cfg₀.threads i).loc)) cfg₀.shared := by
    have hpending : ∀ i, Conduct.pending (Conduct.empty, (cfg₀.threads i).loc) = [] := by
      intro i
      rw [h.sessions i]
      rfl
    refine ⟨?_, fun _ => rfl⟩
    constructor
    · intro a ha
      obtain ⟨m, hm, rfl⟩ := List.mem_map.mp ha
      exact hw.userIds m hm
    · intro a ha
      obtain ⟨m, hm, rfl⟩ := List.mem_map.mp ha
      exact hw.jtis m hm
    all_goals simp [hpending]
  obtain ⟨g, ⟨-, hfollows⟩, hids⟩ := h.inOrder.of_reach hhash hdispatch hreach
  rcases (Discipline.Leads.fails (hfollows i) hfailed).2 with hrefused | hcollided
  · exact hrefused
  · rw [(hids honce hfresh).collided i] at hcollided
    cases hcollided

/-- Every request can be run to its end. -/
theorem Starts.completes (h : Starts refuses cfg₀) (hreach : Reach (system env) anyCall cfg₀ cfg)
    (i : ℕ) : ∃ is, Allowed (system env) anyCall cfg is ∧
      ((cfg.schedule (system env) is).threads i).result ≠ none := by
  refine Reach.completes (fun c hc hrunning => ?_) hreach
  -- by induction on the number of bulk updates that others have not committed
  induction hn : (c.shared.statements.filter fun st => st.session ≠ i).length using
    Nat.strong_induction_on generalizing c with
  | _ n ih =>
  by_cases hothers : ∃ st ∈ c.shared.statements, st.session ≠ i
  · obtain ⟨st, hst, hne⟩ := hothers
    obtain ⟨g, horder, -⟩ := h.inOrder.of_reach hhash hdispatch hc
    obtain ⟨k, hp, henabled⟩ := commits_of_sweeping horder (horder.1.sweeping st hst)
    have hnext := hc.step hp henabled trivial
    have hsame := Config.threads_advance_of_ne (S := system env) (c := c) hne.symm
    have hfewer : ((c.advance (system env) st.session).shared.statements.filter
        fun st' => st'.session ≠ i).length < n := by
      rw [← hn, statements_advance_commit hp, List.filter_comm]
      refine List.length_filter_lt_length_iff_exists.mpr ⟨st, ?_, by simp⟩
      exact List.mem_filter.mpr ⟨hst, by simpa using hne⟩
    obtain ⟨is, hallowed, hthread, hmoves⟩ := ih _ hfewer _ hnext
      (by rw [hsame]; exact hrunning) rfl
    refine ⟨st.session :: is, ⟨?_, hallowed⟩, hthread.trans hsame, hmoves⟩
    unfold Moves
    rw [hp]
    exact ⟨henabled, trivial⟩
  · obtain ⟨o, k, hp⟩ := Thread.exists_call hrunning
    refine ⟨[], trivial, rfl, ?_⟩
    show Moves (system env) anyCall c i
    unfold Moves
    rw [hp]
    exact ⟨fun st hst hne => absurd ⟨st, hst, hne⟩ hothers, trivial⟩

end runs

/-! ### Commands -/

/-- The errors that the requests may be refused with. -/
def refusals (requests : ℕ → Option Command) (i : ℕ) (x : DomainError) : Prop :=
  ∃ c, requests i = some c ∧ c.Refuses x

section commands

variable {env : Env} {requests : ℕ → Option Command} {w : World}

theorem sound_empty : Database.empty.Sound where
  users _ h := nomatch h
  emails := List.nodup_nil
  refreshTokens _ h := nomatch h
  owners _ h := nomatch h

theorem starts_start (hstatements : w.statements = []) (hsound : w.db.Sound) :
    Starts (refusals requests) (start requests w) := by
  refine ⟨fun i => ?_, fun i => rfl, hstatements, hsound⟩
  simp only [start]
  rcases hc : requests i with _ | c
  · exact rfl
  · have heq : refusals requests i = c.Refuses := by
      funext x
      simp [refusals, hc]
    rw [heq]
    exact follows_execute c

variable (hhash : ∀ salt plain, env.hash salt plain ≠ [])
  (hdispatch : env.dispatcher = eventDispatcher)
  {cfg cfg' : Config ℕ Port Port.Ret Exc Response Session World}

include hhash hdispatch

/-- **Whatever races, the stored data stay sound**: from a sound database every committed
state of every run is sound, and a row that is committed once is there ever after, as it
is but for the hash of a user and the revocation of a record. -/
theorem stored_data_stay_sound (hstatements : w.statements = []) (hsound : w.db.Sound)
    (hreach : Reach (system env) anyCall (start requests w) cfg)
    (hlater : Reach (system env) anyCall cfg cfg') :
    cfg.shared.db.Sound ∧ cfg.shared.db.Keeps cfg'.shared.db :=
  (starts_start hstatements hsound).sound_of_reach hhash hdispatch hreach hlater

/-- **No request is locked out**: in every configuration that is reached, every request can
be run to its end, if others are let commit. -/
theorem requests_can_be_completed (hstatements : w.statements = []) (hsound : w.db.Sound)
    (hreach : Reach (system env) anyCall (start requests w) cfg) (i : ℕ) :
    ∃ is, Allowed (system env) anyCall cfg is ∧
      ((cfg.schedule (system env) is).threads i).result ≠ none :=
  (starts_start hstatements hsound).completes hhash hdispatch hreach i

end commands

end races

section sample

attribute [local instance] asciiUnicode

/-- Two registrations of one address, a login, a change of the password and a logout. -/
def racing (i : ℕ) : Option Command :=
  [sampleRegistration, sampleRegistration, .login sampleLogin,
    .changePassword ⟨sampleEnv.uuid 0, sampleLogin.password, lit ['q']⟩, .logout ⟨sampleToken⟩][i]?

/-- Both registrations have found the address free, and one has lost; the password is
being changed, and the logout waits for the rows it has revoked. -/
def racingConfig : Config ℕ Port Port.Ret Exc Response Session World :=
  (start racing .initial).schedule (system sampleEnv) ([0, 1] ++ List.replicate 7 0 ++
    List.replicate 8 2 ++ List.replicate 5 1 ++ List.replicate 7 3 ++ List.replicate 3 4)

theorem reach_racingConfig :
    Reach (system sampleEnv) anyCall (start racing .initial) racingConfig :=
  reach_schedule _ .refl (by decide +kernel)

/-- The row of the login is kept while the other two go on. -/
theorem stored_data_stay_sound_sample :
    racingConfig.shared.db.refreshTokens.rows ≠ [] ∧ racingConfig.shared.db.Sound ∧
      racingConfig.shared.db.Keeps
        (racingConfig.schedule (system sampleEnv) [3, 4, 4]).shared.db :=
  ⟨by decide +kernel, stored_data_stay_sound (fun _ _ => List.cons_ne_nil _ _) rfl rfl sound_empty
    reach_racingConfig (reach_schedule _ .refl (by decide +kernel))⟩

/-- The logout cannot move, and can be completed. -/
theorem requests_can_be_completed_sample :
    ¬ Moves (system sampleEnv) anyCall racingConfig 4 ∧
      ∃ is, Allowed (system sampleEnv) anyCall racingConfig is ∧
        ((racingConfig.schedule (system sampleEnv) is).threads 4).result ≠ none :=
  ⟨by decide +kernel, requests_can_be_completed (fun _ _ => List.cons_ne_nil _ _) rfl rfl
    sound_empty reach_racingConfig 4⟩

end sample

end FastapiStarter
