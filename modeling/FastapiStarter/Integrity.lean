import FastapiStarter.Lib.Fallible
import FastapiStarter.Outcomes

/-!
# The integrity of the stored data

What the schema and the mappers promise of the stored rows: they load again, no two users
have one address, and every record belongs to a user.  A session that only holds rows
which fit the database it is flushed to keeps that promise, whatever was committed since
it read them; the one thing that can go wrong is that an address was taken meanwhile.

## Main definitions

* `Database.Sound` — the promise.
* `Database.Keeps` — no row goes away, and what identifies it stays.
* `Session.Fits` — the session holds rows of the database, or new ones.

## Main results

* `Session.flush_spec` — **flushing a session that fits.**
-/

namespace FastapiStarter

open Fallible Relational

/-! ### Rows over time -/

/-- The rows are of one user; the hash, and how the time was read, may differ. -/
structure UserModel.SameUser (m m' : UserModel) : Prop where
  id : m'.id = m.id
  email : m'.email = m.email
  isActive : m'.isActive = m.isActive
  createdAt : asUtc m'.createdAt = asUtc m.createdAt

/-- The rows are of one record; `revoked_at`, and how the time was read, may differ. -/
structure RefreshTokenModel.SameRecord (m m' : RefreshTokenModel) : Prop where
  jti : m'.jti = m.jti
  userId : m'.userId = m.userId
  familyId : m'.familyId = m.familyId
  expiresAt : asUtc m'.expiresAt = asUtc m.expiresAt

namespace UserModel.SameUser

theorem refl (m : UserModel) : m.SameUser m := ⟨rfl, rfl, rfl, rfl⟩

theorem trans {m m' m'' : UserModel} (h : m.SameUser m') (h' : m'.SameUser m'') :
    m.SameUser m'' :=
  ⟨h'.id.trans h.id, h'.email.trans h.email, h'.isActive.trans h.isActive,
    h'.createdAt.trans h.createdAt⟩

theorem symm {m m' : UserModel} (h : m.SameUser m') : m'.SameUser m :=
  ⟨h.id.symm, h.email.symm, h.isActive.symm, h.createdAt.symm⟩

theorem readUser (d : Dialect) (m : UserModel) : m.SameUser (d.readUser m) :=
  ⟨rfl, rfl, rfl, asUtc_readDatetime d m.createdAt⟩

end UserModel.SameUser

namespace RefreshTokenModel.SameRecord

theorem refl (m : RefreshTokenModel) : m.SameRecord m := ⟨rfl, rfl, rfl, rfl⟩

theorem trans {m m' m'' : RefreshTokenModel} (h : m.SameRecord m') (h' : m'.SameRecord m'') :
    m.SameRecord m'' :=
  ⟨h'.jti.trans h.jti, h'.userId.trans h.userId, h'.familyId.trans h.familyId,
    h'.expiresAt.trans h.expiresAt⟩

theorem symm {m m' : RefreshTokenModel} (h : m.SameRecord m') : m'.SameRecord m :=
  ⟨h.jti.symm, h.userId.symm, h.familyId.symm, h.expiresAt.symm⟩

theorem readRefreshToken (d : Dialect) (m : RefreshTokenModel) :
    m.SameRecord (d.readRefreshToken m) :=
  ⟨rfl, rfl, rfl, asUtc_readDatetime d m.expiresAt⟩

end RefreshTokenModel.SameRecord

section integrity

variable [Unicode]

/-- **The promise of the stored data**: what is stored loads again, no two users have one
address, and every record is of a user. -/
structure Database.Sound (db : Database) : Prop where
  users : ∀ m ∈ db.users.rows, ∃ u : User, m = UserMapper.toModel u
  emails : (db.users.rows.map (·.email)).Nodup
  refreshTokens : ∀ m ∈ db.refreshTokens.rows, ∃ r, m = RefreshTokenMapper.toModel r
  owners : ∀ m ∈ db.refreshTokens.rows, ∃ u ∈ db.users.rows, u.id = m.userId

omit [Unicode] in
/-- No row goes away, and what identifies it stays as it is. -/
structure Database.Keeps (db db' : Database) : Prop where
  users : ∀ m ∈ db.users.rows, ∃ m' ∈ db'.users.rows, m.SameUser m'
  refreshTokens : ∀ m ∈ db.refreshTokens.rows, ∃ m' ∈ db'.refreshTokens.rows, m.SameRecord m'

/-- A sound database, with the rows of the one before and the new ones. -/
structure Database.Advances (db db' : Database) (us : List UserModel)
    (rs : List RefreshTokenModel) : Prop where
  sound : db'.Sound
  keeps : db.Keeps db'
  userIds : db'.users.rows.map (·.id) = db.users.rows.map (·.id) ++ us.map (·.id)
  jtis : db'.refreshTokens.rows.map (·.jti) = db.refreshTokens.rows.map (·.jti) ++ rs.map (·.jti)
  newUsers : ∀ m ∈ us, ∃ m' ∈ db'.users.rows, m.SameUser m'
  newRecords : ∀ m ∈ rs, ∃ m' ∈ db'.refreshTokens.rows, m.SameRecord m'

omit [Unicode] in
theorem Database.Keeps.refl (db : Database) : db.Keeps db :=
  ⟨fun m hm => ⟨m, hm, .refl m⟩, fun m hm => ⟨m, hm, .refl m⟩⟩

omit [Unicode] in
theorem Database.Keeps.trans {db db' db'' : Database} (h : db.Keeps db') (h' : db'.Keeps db'') :
    db.Keeps db'' := by
  constructor
  · intro m hm
    obtain ⟨m', hm', hsame⟩ := h.users m hm
    obtain ⟨m'', hm'', hsame'⟩ := h'.users m' hm'
    exact ⟨m'', hm'', hsame.trans hsame'⟩
  · intro m hm
    obtain ⟨m', hm', hsame⟩ := h.refreshTokens m hm
    obtain ⟨m'', hm'', hsame'⟩ := h'.refreshTokens m' hm'
    exact ⟨m'', hm'', hsame.trans hsame'⟩

namespace Database.Advances

variable {db db' db'' : Database} {us us' : List UserModel} {rs rs' : List RefreshTokenModel}

theorem refl (h : db.Sound) : db.Advances db [] [] where
  sound := h
  keeps := .refl db
  userIds := (List.append_nil _).symm
  jtis := (List.append_nil _).symm
  newUsers := fun _ h => nomatch h
  newRecords := fun _ h => nomatch h

theorem trans (h : db.Advances db' us rs) (h' : db'.Advances db'' us' rs') :
    db.Advances db'' (us ++ us') (rs ++ rs') where
  sound := h'.sound
  keeps := h.keeps.trans h'.keeps
  userIds := by rw [h'.userIds, h.userIds, List.map_append, List.append_assoc]
  jtis := by rw [h'.jtis, h.jtis, List.map_append, List.append_assoc]
  newUsers := by
    intro m hm
    rcases List.mem_append.mp hm with hm | hm
    · obtain ⟨m', hm', hsame⟩ := h.newUsers m hm
      obtain ⟨m'', hm'', hsame'⟩ := h'.keeps.users m' hm'
      exact ⟨m'', hm'', hsame.trans hsame'⟩
    · exact h'.newUsers m hm
  newRecords := by
    intro m hm
    rcases List.mem_append.mp hm with hm | hm
    · obtain ⟨m', hm', hsame⟩ := h.newRecords m hm
      obtain ⟨m'', hm'', hsame'⟩ := h'.keeps.refreshTokens m' hm'
      exact ⟨m'', hm'', hsame.trans hsame'⟩
    · exact h'.newRecords m hm

/-- Users are changed one by one, each into a user that has the same identity. -/
theorem of_users {f : UserModel → UserModel} (h : db.Sound)
    (husers : db'.users.rows = db.users.rows.map f)
    (hrecords : db'.refreshTokens = db.refreshTokens)
    (hf : ∀ m ∈ db.users.rows, m.SameUser (f m) ∧ ∃ u : User, f m = UserMapper.toModel u) :
    db.Advances db' [] [] := by
  have hkeeps : ∀ m ∈ db.users.rows, ∃ m' ∈ db'.users.rows, m.SameUser m' := by
    intro m hm
    exact ⟨f m, by rw [husers]; exact List.mem_map_of_mem hm, (hf m hm).1⟩
  have hids : db'.users.rows.map (·.id) = db.users.rows.map (·.id) := by
    rw [husers, List.map_map]
    exact List.map_congr_left fun m hm => (hf m hm).1.id
  have hemails : db'.users.rows.map (·.email) = db.users.rows.map (·.email) := by
    rw [husers, List.map_map]
    exact List.map_congr_left fun m hm => (hf m hm).1.email
  refine { sound :=
             { users := ?_, emails := hemails ▸ h.emails, refreshTokens := ?_, owners := ?_ },
           keeps := ⟨hkeeps, ?_⟩, userIds := by simpa using hids, jtis := by simp [hrecords],
           newUsers := by simp, newRecords := by simp }
  · intro m' hm'
    rw [husers] at hm'
    obtain ⟨m, hm, rfl⟩ := List.mem_map.mp hm'
    exact (hf m hm).2
  · rw [hrecords]
    exact h.refreshTokens
  · rw [hrecords]
    intro m hm
    obtain ⟨u, hu, hid⟩ := h.owners m hm
    obtain ⟨u', hu', hsame⟩ := hkeeps u hu
    exact ⟨u', hu', hsame.id.trans hid⟩
  · rw [hrecords]
    exact fun m hm => ⟨m, hm, .refl m⟩

/-- Records are changed one by one, each into a record that has the same identity. -/
theorem of_records {f : RefreshTokenModel → RefreshTokenModel} (h : db.Sound)
    (husers : db'.users = db.users)
    (hrecords : db'.refreshTokens.rows = db.refreshTokens.rows.map f)
    (hf : ∀ m ∈ db.refreshTokens.rows,
      m.SameRecord (f m) ∧ ∃ r, f m = RefreshTokenMapper.toModel r) :
    db.Advances db' [] [] := by
  have hjtis : db'.refreshTokens.rows.map (·.jti) = db.refreshTokens.rows.map (·.jti) := by
    rw [hrecords, List.map_map]
    exact List.map_congr_left fun m hm => (hf m hm).1.jti
  have hchanged : ∀ m' ∈ db'.refreshTokens.rows, ∃ m ∈ db.refreshTokens.rows, f m = m' := by
    intro m' hm'
    rw [hrecords] at hm'
    exact List.mem_map.mp hm'
  refine { sound := { users := husers ▸ h.users, emails := husers ▸ h.emails,
                      refreshTokens := ?_, owners := ?_ },
           keeps := ⟨?_, ?_⟩, userIds := by simp [husers], jtis := by simpa using hjtis,
           newUsers := by simp, newRecords := by simp }
  · intro m' hm'
    obtain ⟨m, hm, rfl⟩ := hchanged m' hm'
    exact (hf m hm).2
  · intro m' hm'
    obtain ⟨m, hm, rfl⟩ := hchanged m' hm'
    rw [husers, (hf m hm).1.userId]
    exact h.owners m hm
  · rw [husers]
    exact fun m hm => ⟨m, hm, .refl m⟩
  · intro m hm
    exact ⟨f m, by rw [hrecords]; exact List.mem_map_of_mem hm, (hf m hm).1⟩

/-- Without new records, every record was there before. -/
theorem record_of (h : db.Advances db' us []) {m' : RefreshTokenModel}
    (hm' : m' ∈ db'.refreshTokens.rows) : ∃ m ∈ db.refreshTokens.rows, m.SameRecord m' := by
  have hjti : m'.jti ∈ db.refreshTokens.rows.map (·.jti) := by
    have hmem := List.mem_map_of_mem (f := (·.jti)) hm'
    rw [h.jtis] at hmem
    simpa using hmem
  obtain ⟨m, hm, heq⟩ := List.mem_map.mp hjti
  obtain ⟨m'', hm'', hsame⟩ := h.keeps.refreshTokens m hm
  obtain rfl := db'.refreshTokens.eq_of_key_eq hm'' hm' (hsame.jti.trans heq)
  exact ⟨m, hm, hsame⟩

/-- Without new users, every user was there before. -/
theorem user_of (h : db.Advances db' [] rs) {m' : UserModel} (hm' : m' ∈ db'.users.rows) :
    ∃ m ∈ db.users.rows, m.SameUser m' := by
  have hid : m'.id ∈ db.users.rows.map (·.id) := by
    have hmem := List.mem_map_of_mem (f := (·.id)) hm'
    rw [h.userIds] at hmem
    simpa using hmem
  obtain ⟨m, hm, heq⟩ := List.mem_map.mp hid
  obtain ⟨m'', hm'', hsame⟩ := h.keeps.users m hm
  obtain rfl := db'.users.eq_of_key_eq hm'' hm' (hsame.id.trans heq)
  exact ⟨m, hm, hsame⟩

end Database.Advances

/-! ### Changing rows -/

/-- The rows of a user, written back with another hash, are those of a user. -/
theorem UserMapper.toModel_of_sameUser {u : User} {m : UserModel}
    (hsame : (toModel u).SameUser m) (haware : ∃ t, m.createdAt = .aware t)
    (hhash : m.hashedPassword ≠ []) : ∃ u' : User, m = toModel u' := by
  obtain ⟨t, ht⟩ := haware
  obtain ⟨hid, hemail, hactive, hcreated⟩ := hsame
  rw [ht] at hcreated
  refine ⟨{ u with hashedPassword := ⟨m.hashedPassword, hhash⟩ }, ?_⟩
  cases m
  simp only [toModel, asUtc_aware] at hid hemail hactive hcreated ht ⊢
  subst hid hemail hactive hcreated ht
  rfl

omit [Unicode] in
/-- A record that is revoked, or left as it was, is stored as a record. -/
theorem RefreshTokenMapper.toModel_of_revoked {r : RefreshTokenRecord} {x : Option Datetime}
    (hx : x = (toModel r).revokedAt ∨ ∃ at', x = some (.aware at')) :
    ∃ r', { toModel r with revokedAt := x } = toModel r' := by
  rcases hx with rfl | ⟨at', rfl⟩
  · exact ⟨r, rfl⟩
  · exact ⟨{ r with revokedAt := some at' }, rfl⟩

theorem Database.Sound.revokeRows {db : Database} (h : db.Sound) (rows : List UUID)
    (at' : Instant) : db.Advances (db.revokeRows rows at') [] [] := by
  refine .of_records h rfl rfl fun m hm => ?_
  obtain ⟨r, rfl⟩ := h.refreshTokens m hm
  split
  · exact ⟨⟨rfl, rfl, rfl, rfl⟩, RefreshTokenMapper.toModel_of_revoked (.inr ⟨at', rfl⟩)⟩
  · exact ⟨.refl _, r, rfl⟩

/-- What a transaction sees of a sound database is sound. -/
theorem Database.Sound.after {db : Database} (h : db.Sound) (statements : List Statement) :
    db.Advances (db.after statements) [] [] := by
  induction statements generalizing db with
  | nil => exact .refl h
  | cons st statements ih =>
    have hfirst := h.revokeRows st.rows st.at'
    exact hfirst.trans (ih hfirst.sound)

/-! ### What a session holds -/

/-- A tracked user is a row of the database, and can be loaded. -/
def Tracked.FitsUser (t : Tracked UserModel) (db : Database) : Prop :=
  ∃ m ∈ db.users.rows, m.SameUser t.loaded ∧ m.SameUser t.current ∧ t.current.hashedPassword ≠ []

/-- A tracked record is a row of the database, and was revoked if it was changed. -/
def Tracked.FitsRecord (t : Tracked RefreshTokenModel) (db : Database) : Prop :=
  ∃ m ∈ db.refreshTokens.rows, m.SameRecord t.loaded ∧ m.SameRecord t.current ∧
    (t.current.revokedAt = t.loaded.revokedAt ∨ ∃ at', t.current.revokedAt = some (.aware at'))

/-- **The session fits the database**: it holds rows that are stored, and new ones that
can be, whose users are stored. -/
structure Session.Fits (s : Session) (db : Database) : Prop where
  users : ∀ t ∈ s.users, t.FitsUser db
  refreshTokens : ∀ t ∈ s.refreshTokens, t.FitsRecord db
  newUsers : ∀ m ∈ s.newUsers, ∃ u : User, m = UserMapper.toModel u
  newRefreshTokens : ∀ m ∈ s.newRefreshTokens,
    (∃ r, m = RefreshTokenMapper.toModel r) ∧ ∃ u ∈ db.users.rows, u.id = m.userId

section mono

variable {db db' : Database}

omit [Unicode] in
theorem Tracked.FitsUser.mono {t : Tracked UserModel} (ht : t.FitsUser db) (h : db.Keeps db') :
    t.FitsUser db' := by
  obtain ⟨m, hm, hloaded, hcurrent, hhash⟩ := ht
  obtain ⟨m', hm', hsame⟩ := h.users m hm
  exact ⟨m', hm', hsame.symm.trans hloaded, hsame.symm.trans hcurrent, hhash⟩

omit [Unicode] in
theorem Tracked.FitsRecord.mono {t : Tracked RefreshTokenModel} (ht : t.FitsRecord db)
    (h : db.Keeps db') : t.FitsRecord db' := by
  obtain ⟨m, hm, hloaded, hcurrent, hrev⟩ := ht
  obtain ⟨m', hm', hsame⟩ := h.refreshTokens m hm
  exact ⟨m', hm', hsame.symm.trans hloaded, hsame.symm.trans hcurrent, hrev⟩

/-- **What others commit leaves a session fitting.** -/
theorem Session.Fits.mono {s : Session} (hs : s.Fits db) (h : db.Keeps db') : s.Fits db' where
  users t ht := (hs.users t ht).mono h
  refreshTokens t ht := (hs.refreshTokens t ht).mono h
  newUsers := hs.newUsers
  newRefreshTokens := by
    intro m hm
    obtain ⟨hmodel, u, hu, hid⟩ := hs.newRefreshTokens m hm
    obtain ⟨u', hu', hsame⟩ := h.users u hu
    exact ⟨hmodel, u', hu', hsame.id.trans hid⟩

theorem Session.Fits.empty : Session.empty.Fits db := by
  constructor
  all_goals exact fun _ h => nomatch h

end mono

/-! ### Flushing -/

variable {db : Database}

theorem Database.updateUser_spec (h : db.Sound) {t : Tracked UserModel} (ht : t.FitsUser db) :
    ∃ db', db.updateUser t = .ok db' ∧ db.Advances db' [] [] := by
  obtain ⟨m, hm, hloaded, hcurrent, hhash⟩ := ht
  have hemail : t.current.email = t.loaded.email := hcurrent.email.trans hloaded.email.symm
  have hactive : t.current.isActive = t.loaded.isActive :=
    hcurrent.isActive.trans hloaded.isActive.symm
  have hget : db.users.get t.current.id ≠ none := by
    rw [hcurrent.id, Table.get_key hm]
    simp
  unfold Database.updateUser
  by_cases hsame : t.current = t.loaded
  · exact ⟨db, if_pos hsame, .refl h⟩
  rw [if_neg hsame, if_neg hget, if_neg fun hne => hne.1 hemail]
  refine ⟨_, rfl, .of_users h rfl rfl fun m' hm' => ?_⟩
  obtain ⟨u, rfl⟩ := h.users m' hm'
  split
  · -- the row that is written: the hash may be new, nothing else is
    have hsame : (UserMapper.toModel u).SameUser (t.writeUser (UserMapper.toModel u)) :=
      ⟨rfl, if_pos hemail, if_pos hactive, rfl⟩
    refine ⟨hsame, UserMapper.toModel_of_sameUser hsame ⟨_, rfl⟩ ?_⟩
    simp only [Tracked.writeUser]
    split
    · exact u.hashedPassword.nonempty
    · exact hhash
  · exact ⟨.refl _, u, rfl⟩

theorem Database.updateRefreshToken_spec (h : db.Sound) {t : Tracked RefreshTokenModel}
    (ht : t.FitsRecord db) : ∃ db', db.updateRefreshToken t = .ok db' ∧ db.Advances db' [] [] := by
  obtain ⟨m, hm, -, hcurrent, hrev⟩ := ht
  have hget : db.refreshTokens.get t.current.jti ≠ none := by
    rw [hcurrent.jti, Table.get_key hm]
    simp
  unfold Database.updateRefreshToken
  by_cases hsame : t.current = t.loaded
  · exact ⟨db, if_pos hsame, .refl h⟩
  rw [if_neg hsame, if_neg hget]
  refine ⟨_, rfl, .of_records h rfl rfl fun m' hm' => ?_⟩
  obtain ⟨r, rfl⟩ := h.refreshTokens m' hm'
  split
  · refine ⟨⟨rfl, rfl, rfl, rfl⟩, RefreshTokenMapper.toModel_of_revoked ?_⟩
    split
    · exact .inl rfl
    · next hne => exact .inr (hrev.resolve_left hne)
  · exact ⟨.refl _, r, rfl⟩

/-- Inserting a user: the id may be taken, or the address. -/
theorem Database.insertUser_spec (h : db.Sound) (u : User) :
    Meets (db.insertUser (UserMapper.toModel u)) (db.Advances · [UserMapper.toModel u] [])
      (fun e => e = .integrity .ixUsersEmail ∨
        e = .integrity .pkUsers ∧ ∃ m ∈ db.users.rows, m.id = u.id.value) := by
  unfold Database.insertUser
  rcases hinsert : db.users.insert (UserMapper.toModel u) with _ | users
  · exact .inr ⟨rfl, Table.insert_eq_none.mp hinsert⟩
  have hrows := Table.rows_of_insert hinsert
  by_cases hany : db.users.rows.any (fun m' => m'.email = (UserMapper.toModel u).email) = true
  · simp only [hany, if_true]
    exact .inl rfl
  simp only [hany, if_false, Bool.false_eq_true, meets_ok]
  have hemail : ∀ m ∈ db.users.rows, m.email ≠ (UserMapper.toModel u).email := by
    simpa using hany
  refine { sound := { users := ?_, emails := ?_, refreshTokens := h.refreshTokens, owners := ?_ },
           keeps := ⟨?_, fun m hm => ⟨m, hm, .refl m⟩⟩, userIds := by simp [hrows],
           jtis := (List.append_nil _).symm, newUsers := ?_, newRecords := by simp }
  · intro m hm
    rcases (Table.mem_of_insert hinsert).mp hm with hm | rfl
    · exact h.users m hm
    · exact ⟨u, rfl⟩
  · simp only [hrows, List.map_append, List.map_cons, List.map_nil]
    refine h.emails.append (List.nodup_singleton _) ?_
    rw [List.disjoint_singleton]
    intro hmem
    obtain ⟨m, hm, heq⟩ := List.mem_map.mp hmem
    exact hemail m hm heq
  · intro m hm
    obtain ⟨o, ho, hid⟩ := h.owners m hm
    exact ⟨o, (Table.mem_of_insert hinsert).mpr (.inl ho), hid⟩
  · exact fun m hm => ⟨m, (Table.mem_of_insert hinsert).mpr (.inl hm), .refl m⟩
  · intro m hm
    obtain rfl := List.mem_singleton.mp hm
    exact ⟨_, (Table.mem_of_insert hinsert).mpr (.inr rfl), .refl _⟩

/-- Inserting a record of a user that is stored: the id may be taken. -/
theorem Database.insertRefreshToken_spec (h : db.Sound) (r : RefreshTokenRecord)
    (howner : ∃ u ∈ db.users.rows, u.id = r.userId.value) :
    Meets (db.insertRefreshToken (RefreshTokenMapper.toModel r))
      (db.Advances · [] [RefreshTokenMapper.toModel r])
      (fun e => e = .integrity .pkRefreshTokens ∧ ∃ m ∈ db.refreshTokens.rows, m.jti = r.jti) := by
  obtain ⟨u, hu, hid⟩ := howner
  rcases hinsert : db.refreshTokens.insert (RefreshTokenMapper.toModel r) with _ | tokens
  · rw [insertRefreshToken_none hinsert]
    exact ⟨rfl, Table.insert_eq_none.mp hinsert⟩
  have hmem : ∀ m, m ∈ tokens.rows ↔ m ∈ db.refreshTokens.rows ∨ m = RefreshTokenMapper.toModel r :=
    fun m => Table.mem_of_insert hinsert
  rw [insertRefreshToken_ok hinsert hu hid, meets_ok]
  refine { sound := { users := h.users, emails := h.emails, refreshTokens := ?_, owners := ?_ },
           keeps := ⟨fun m hm => ⟨m, hm, .refl m⟩, ?_⟩, userIds := (List.append_nil _).symm,
           jtis := by simp [Table.rows_of_insert hinsert], newUsers := by simp, newRecords := ?_ }
  · intro m hm
    rcases (hmem m).mp hm with hm | rfl
    · exact h.refreshTokens m hm
    · exact ⟨r, rfl⟩
  · intro m hm
    rcases (hmem m).mp hm with hm | rfl
    · exact h.owners m hm
    · exact ⟨u, hu, hid⟩
  · exact fun m hm => ⟨m, (hmem m).mpr (.inl hm), .refl m⟩
  · intro m hm
    obtain rfl := List.mem_singleton.mp hm
    exact ⟨_, (hmem _).mpr (.inr rfl), .refl _⟩

omit [Unicode] in
/-- A key that is there already is not new. -/
theorem not_nodup_of_taken {α β : Type} {key : α → β} {rows xs : List α} {r x : α} (hr : r ∈ rows)
    (heq : key r = key x) : ¬ (rows.map key ++ (x :: xs).map key).Nodup := by
  intro h
  have hdisjoint := (List.nodup_append.mp h).2.2
  exact hdisjoint _ (List.mem_map_of_mem hr) _ (List.mem_map_of_mem List.mem_cons_self) heq

omit [Unicode] in
/-- The new rows of the session have ids of their own. -/
structure Session.NewIds (s : Session) (db : Database) : Prop where
  users : (db.users.rows.map (·.id) ++ s.newUsers.map (·.id)).Nodup
  refreshTokens : (db.refreshTokens.rows.map (·.jti) ++ s.newRefreshTokens.map (·.jti)).Nodup

/-- How a flush can fail: an address was taken, or an id was drawn twice. -/
def Session.FlushFails (s : Session) (db : Database) (e : Exc) : Prop :=
  e = .integrity .ixUsersEmail ∧ s.newUsers ≠ [] ∨
    (e = .integrity .pkUsers ∨ e = .integrity .pkRefreshTokens) ∧ ¬ s.NewIds db

/-- **Flushing a session that fits**: the rows are written, or an address was taken; or an
id was drawn twice. -/
theorem Session.flush_spec {s : Session} (h : db.Sound) (hs : s.Fits db) :
    Meets (s.flush db) (db.Advances · s.newUsers s.newRefreshTokens) (s.FlushFails db) := by
  -- the tracked users are written
  refine Meets.bind (P := (db.Advances · [] [])) ?_ fun db₁ hadv₁ => ?_
  · refine (Meets.foldlM (fun rest db₁ => db.Advances db₁ [] [] ∧ ∀ t ∈ rest, t.FitsUser db) ?_
      s.users db ⟨.refl h, hs.users⟩).imp fun _ h => h.1
    intro t rest db₁ ⟨hadv, hfits⟩
    have ht := (hfits t List.mem_cons_self).mono hadv.keeps
    obtain ⟨db₂, hstep, hadv₂⟩ := Database.updateUser_spec hadv.sound ht
    rw [hstep]
    exact ⟨hadv.trans hadv₂, fun t ht => hfits t (List.mem_cons_of_mem _ ht)⟩
  -- new users are inserted
  refine Meets.bind (P := (db.Advances · s.newUsers [])) ?_ fun db₂ hadv₂ => ?_
  · refine (Meets.foldlM (fun rest db₂ => ∃ done, done ++ rest = s.newUsers ∧
      db.Advances db₂ done []) ?_ s.newUsers db₁ ⟨[], rfl, hadv₁⟩).imp ?_
    · rintro m rest db₂ ⟨done, hdone, hadv⟩
      have hmem : m ∈ s.newUsers := by
        rw [← hdone]
        exact List.mem_append_right _ List.mem_cons_self
      obtain ⟨u, rfl⟩ := hs.newUsers m hmem
      have hstep := Database.insertUser_spec hadv.sound u
      rcases hx : db₂.insertUser (UserMapper.toModel u) with e | db₃
      · rw [hx] at hstep
        rcases hstep with rfl | ⟨rfl, m, hm, hid⟩
        · exact .inl ⟨rfl, List.ne_nil_of_mem hmem⟩
        · refine .inr ⟨.inl rfl, fun hnew => ?_⟩
          have hkeys := hnew.users
          rw [← hdone, List.map_append, ← List.append_assoc, ← hadv.userIds] at hkeys
          exact not_nodup_of_taken hm hid hkeys
      · rw [hx] at hstep
        exact ⟨done ++ [UserMapper.toModel u], by simp [← hdone], hadv.trans hstep⟩
    · rintro db₂ ⟨done, hdone, hadv⟩
      rw [List.append_nil] at hdone
      rwa [← hdone]
  -- the tracked records are written
  refine Meets.bind (P := (db.Advances · s.newUsers [])) ?_ fun db₃ hadv₃ => ?_
  · refine (Meets.foldlM (fun rest db₃ => db.Advances db₃ s.newUsers [] ∧
      ∀ t ∈ rest, t.FitsRecord db) ?_ s.refreshTokens db₂ ⟨hadv₂, hs.refreshTokens⟩).imp
      fun _ h => h.1
    intro t rest db₃ ⟨hadv, hfits⟩
    have ht := (hfits t List.mem_cons_self).mono hadv.keeps
    obtain ⟨db₄, hstep, hadv₄⟩ := Database.updateRefreshToken_spec hadv.sound ht
    rw [hstep]
    refine ⟨?_, fun t ht => hfits t (List.mem_cons_of_mem _ ht)⟩
    simpa using hadv.trans hadv₄
  -- new records are inserted
  · refine (Meets.foldlM (fun rest db₄ => ∃ done, done ++ rest = s.newRefreshTokens ∧
      db.Advances db₄ s.newUsers done) ?_ s.newRefreshTokens db₃ ⟨[], rfl, hadv₃⟩).imp ?_
    · rintro m rest db₄ ⟨done, hdone, hadv⟩
      have hmem : m ∈ s.newRefreshTokens := by
        rw [← hdone]
        exact List.mem_append_right _ List.mem_cons_self
      obtain ⟨⟨r, rfl⟩, howner⟩ := (hs.mono hadv.keeps).newRefreshTokens m hmem
      have hstep := Database.insertRefreshToken_spec hadv.sound r howner
      rcases hx : db₄.insertRefreshToken (RefreshTokenMapper.toModel r) with e | db₅
      · rw [hx] at hstep
        obtain ⟨rfl, m, hm, hjti⟩ := hstep
        refine .inr ⟨.inr rfl, fun hnew => ?_⟩
        have hkeys := hnew.refreshTokens
        rw [← hdone, List.map_append, ← List.append_assoc, ← hadv.jtis] at hkeys
        exact not_nodup_of_taken hm hjti hkeys
      · rw [hx] at hstep
        exact ⟨done ++ [RefreshTokenMapper.toModel r], by simp [← hdone],
          by simpa using hadv.trans hstep⟩
    · rintro db₄ ⟨done, hdone, hadv⟩
      rw [List.append_nil] at hdone
      rwa [← hdone]

/-! ### Sessions -/

/-- The user is stored. -/
def User.Stored (u : User) (db : Database) : Prop :=
  ∃ m ∈ db.users.rows, m.SameUser (UserMapper.toModel u)

theorem User.Stored.mono {u : User} {db' : Database} (hu : u.Stored db) (h : db.Keeps db') :
    u.Stored db' := by
  obtain ⟨m, hm, hsame⟩ := hu
  obtain ⟨m', hm', hsame'⟩ := h.users m hm
  exact ⟨m', hm', hsame'.symm.trans hsame⟩

/-- What a session returns of a user: a stored row, or the row as it was changed. -/
def UserModel.Fits (m : UserModel) (db : Database) : Prop :=
  ∃ m₀ ∈ db.users.rows, m₀.SameUser m ∧ m.hashedPassword ≠ []

/-- It loads, as a user that is stored. -/
theorem UserModel.Fits.loads {m : UserModel} (h : db.Sound) (hm : m.Fits db) :
    ∃ u, UserMapper.toDomain m = .ok u ∧ u.Stored db := by
  obtain ⟨m₀, hm₀, hsame, hhash⟩ := hm
  obtain ⟨u₀, rfl⟩ := h.users m₀ hm₀
  have hemail : m.email = u₀.email.value := hsame.email
  have hload : UserMapper.toDomain m = .ok
      { id := ⟨m.id⟩, email := u₀.email, hashedPassword := ⟨_, hhash⟩,
        isActive := m.isActive, createdAt := asUtc m.createdAt } := by
    have hofStr : HashedPassword.ofStr m.hashedPassword = .ok ⟨_, hhash⟩ :=
      HashedPassword.ofStr_eq_ok.mpr rfl
    rw [UserMapper.toDomain, hemail, Email.ofStr_value, hofStr]
  exact ⟨_, hload, _, hm₀, hsame.id, rfl, hsame.isActive, hsame.createdAt⟩

namespace Session

variable {s : Session} {view : Database}

theorem Fits.getUser (hs : s.Fits db) (hview : db.Advances view [] []) (d : Dialect) {id : UUID}
    {m : UserModel} (hget : s.getUser d view id = some m) : m.Fits db ∧ m.id = id := by
  unfold Session.getUser at hget
  split at hget
  · next t hfind =>
    obtain rfl := Option.some.inj hget
    obtain ⟨m₀, hm₀, -, hcurrent, hhash⟩ := hs.users t (List.mem_of_find?_eq_some hfind)
    exact ⟨⟨m₀, hm₀, hcurrent, hhash⟩, by simpa using List.find?_some hfind⟩
  · obtain ⟨row, hrow, rfl⟩ := Option.map_eq_some_iff.mp hget
    obtain ⟨hmem, hid⟩ := Table.get_eq_some.mp hrow
    obtain ⟨m₀, hm₀, hsame⟩ := hview.user_of hmem
    obtain ⟨u, rfl⟩ := hview.sound.users row hmem
    exact ⟨⟨m₀, hm₀, hsame.trans (.readUser d _), u.hashedPassword.nonempty⟩, hid⟩

omit [Unicode] in
/-- Nothing is found only where there is no row. -/
theorem getUser_ne_none {d : Dialect} {m : UserModel} (hm : m ∈ view.users.rows) :
    s.getUser d view m.id ≠ none := by
  unfold Session.getUser
  split
  · exact Option.some_ne_none _
  · rw [Table.get_key hm]
    exact Option.some_ne_none _

/-- A user that is stored is found. -/
theorem getUser_of_stored {u : User} (hu : u.Stored db) (hview : db.Advances view [] [])
    (d : Dialect) : s.getUser d view u.id.value ≠ none := by
  obtain ⟨m, hm, hsame⟩ := hu
  obtain ⟨m', hm', hsame'⟩ := hview.keeps.users m hm
  have hid : m'.id = u.id.value := hsame'.id.trans hsame.id.symm
  rw [← hid]
  exact getUser_ne_none hm'

/-- At most one row has an address. -/
theorem Fits.selectUserByEmail (hs : s.Fits db) (hview : db.Advances view [] []) (d : Dialect)
    (email : Str) : ∃ found, s.selectUserByEmail d view email = .ok found ∧
      ∀ m, found = some m → m.Fits db := by
  rcases hrows : view.users.rows.filter (fun m => m.email = email) with _ | ⟨m, rest⟩
  · refine ⟨none, ?_, by simp⟩
    simp only [Session.selectUserByEmail, hrows]
  · have hm : m ∈ view.users.rows ∧ m.email = email := by
      have hmem : m ∈ view.users.rows.filter (fun m => m.email = email) := by
        rw [hrows]
        exact List.mem_cons_self
      simpa using hmem
    obtain rfl := hm.2
    refine ⟨s.getUser d view m.id, ?_, fun m' hm' => (hs.getUser hview d hm').1⟩
    simp only [Session.selectUserByEmail, filter_email hview.sound.emails hm.1]

/-- A record that is returned is one that is stored. -/
theorem Fits.getRefreshToken (hs : s.Fits db) (hview : db.Advances view [] []) (d : Dialect)
    {jti : UUID} {m : RefreshTokenModel} (hget : s.getRefreshToken d view jti = some m) :
    ∃ m₀ ∈ db.refreshTokens.rows, m₀.SameRecord m := by
  unfold Session.getRefreshToken at hget
  split at hget
  · next t hfind =>
    obtain rfl := Option.some.inj hget
    obtain ⟨m₀, hm₀, -, hcurrent, -⟩ := hs.refreshTokens t (List.mem_of_find?_eq_some hfind)
    exact ⟨m₀, hm₀, hcurrent⟩
  · obtain ⟨row, hrow, rfl⟩ := Option.map_eq_some_iff.mp hget
    obtain ⟨m₀, hm₀, hsame⟩ := hview.record_of (Table.get_eq_some.mp hrow).1
    exact ⟨m₀, hm₀, hsame.trans (.readRefreshToken d row)⟩

/-- A user is written onto the row that was read once more. -/
theorem Fits.setUser (hs : s.Fits db) {u : User} (hu : u.Stored db) {m : UserModel}
    (hm : m.Fits db) (hid : m.id = u.id.value) :
    (s.setUser m (UserMapper.applyToModel u)).Fits db := by
  obtain ⟨row, hrow, hstored⟩ := hu
  -- onto whatever instance the columns of the user are copied, it stays of that row
  have hset : ∀ {m₀ m₁ : UserModel}, m₀ ∈ db.users.rows → m₀.SameUser m₁ → m₁.id = u.id.value →
      m₀.SameUser (UserMapper.applyToModel u m₁) := by
    intro m₀ m₁ hm₀ hsame hid
    obtain rfl : row = m₀ :=
      db.users.eq_of_key_eq hrow hm₀ (hstored.id.symm.trans (hid.symm.trans hsame.id))
    exact ⟨hsame.id, hstored.email, hstored.isActive, hsame.createdAt⟩
  unfold Session.setUser
  split
  · refine { hs with users := fun t ht => ?_ }
    obtain ⟨t₀, ht₀, rfl⟩ := List.mem_map.mp ht
    have hfits := hs.users t₀ ht₀
    split
    · next heq =>
      obtain ⟨m₀, hm₀, hloaded, hcurrent, -⟩ := hfits
      exact ⟨m₀, hm₀, hloaded, hset hm₀ hcurrent (heq.trans hid), u.hashedPassword.nonempty⟩
    · exact hfits
  · refine { hs with users := fun t ht => ?_ }
    rcases List.mem_cons.mp ht with rfl | ht
    · obtain ⟨m₀, hm₀, hsame, -⟩ := hm
      exact ⟨m₀, hm₀, hsame, hset hm₀ hsame hid, u.hashedPassword.nonempty⟩
    · exact hs.users t ht

/-- A record that was revoked is written onto its row. -/
theorem Fits.setRefreshToken (hs : s.Fits db) {record : RefreshTokenRecord}
    (hrev : record.revokedAt ≠ none) {m : RefreshTokenModel}
    (hm : ∃ m₀ ∈ db.refreshTokens.rows, m₀.SameRecord m) :
    (s.setRefreshToken m (RefreshTokenMapper.applyToModel record)).Fits db := by
  obtain ⟨at', hat⟩ := Option.ne_none_iff_exists'.mp hrev
  have hset : ∀ m, (RefreshTokenMapper.applyToModel record m).revokedAt = some (.aware at') := by
    intro m
    rw [RefreshTokenMapper.applyToModel, hat]
    rfl
  have hsame : ∀ {m₀ m₁ : RefreshTokenModel}, m₀.SameRecord m₁ →
      m₀.SameRecord (RefreshTokenMapper.applyToModel record m₁) :=
    fun h => ⟨h.jti, h.userId, h.familyId, h.expiresAt⟩
  unfold Session.setRefreshToken
  split
  · refine { hs with refreshTokens := fun t ht => ?_ }
    obtain ⟨t₀, ht₀, rfl⟩ := List.mem_map.mp ht
    have hfits := hs.refreshTokens t₀ ht₀
    split
    · obtain ⟨m₀, hm₀, hloaded, hcurrent, -⟩ := hfits
      exact ⟨m₀, hm₀, hloaded, hsame hcurrent, .inr ⟨at', hset _⟩⟩
    · exact hfits
  · refine { hs with refreshTokens := fun t ht => ?_ }
    rcases List.mem_cons.mp ht with rfl | ht
    · obtain ⟨m₀, hm₀, hm₀m⟩ := hm
      exact ⟨m₀, hm₀, hm₀m, hsame hm₀m, .inr ⟨at', hset _⟩⟩
    · exact hs.refreshTokens t ht

theorem Fits.synchronize (hs : s.Fits db) (scope : Scope) (at' : Instant) :
    (s.synchronize scope at').Fits db := by
  refine { hs with refreshTokens := fun t ht => ?_ }
  obtain ⟨t₀, ht₀, rfl⟩ := List.mem_map.mp ht
  have hfits := hs.refreshTokens t₀ ht₀
  split
  · obtain ⟨m, hm, ⟨hjti, huser, hfamily, hexpires⟩,
      ⟨hjti', huser', hfamily', hexpires'⟩, -⟩ := hfits
    exact ⟨m, hm, ⟨hjti, huser, hfamily, hexpires⟩, ⟨hjti', huser', hfamily', hexpires'⟩, .inl rfl⟩
  · exact hfits

end Session

end integrity

end FastapiStarter
