import FastapiStarter.Execution
import FastapiStarter.History

/-!
# Revocation is never undone

A session writes back a record only with a value that it has changed, and the one
change there is sets `revoked_at`.  So a record that is revoked stays so, whatever
other sessions commit afterwards, also from a copy they read before.

## Main definitions

* `Database.KeepsRevoked` — what was revoked before is revoked after.
* `Session.SetsOnly` — the session clears no `revoked_at`.

## Main results

* `Session.keepsRevoked_of_flush` — flushing such a session undoes nothing.
* `revocation_is_never_undone` — **revocation is never undone.**
-/

namespace FastapiStarter

open Interaction Relational

/-- The records revoked in `db` are revoked in `db'`. -/
def Database.KeepsRevoked (db db' : Database) : Prop :=
  ∀ m ∈ db.refreshTokens.rows, m.revokedAt ≠ none →
    ∃ m' ∈ db'.refreshTokens.rows, m'.jti = m.jti ∧ m'.revokedAt ≠ none

/-- A tracked record that was changed was revoked. -/
def Tracked.SetsOnly (t : Tracked RefreshTokenModel) : Prop :=
  t.current.revokedAt = t.loaded.revokedAt ∨ t.current.revokedAt ≠ none

/-- The session clears no `revoked_at`. -/
def Session.SetsOnly (s : Session) : Prop := ∀ t ∈ s.refreshTokens, t.SetsOnly

/-! ### Flushing -/

namespace Database.KeepsRevoked

variable {db db' db'' : Database}

theorem refl (db : Database) : db.KeepsRevoked db := fun m hm hrev => ⟨m, hm, rfl, hrev⟩

theorem trans (h : db.KeepsRevoked db') (h' : db'.KeepsRevoked db'') : db.KeepsRevoked db'' := by
  intro m hm hrev
  obtain ⟨m', hm', hjti', hrev'⟩ := h m hm hrev
  obtain ⟨m'', hm'', hjti'', hrev''⟩ := h' m' hm' hrev'
  exact ⟨m'', hm'', hjti''.trans hjti', hrev''⟩

theorem of_eq (h : db'.refreshTokens = db.refreshTokens) : db.KeepsRevoked db' :=
  fun m hm hrev => ⟨m, by rwa [h], rfl, hrev⟩

/-- Rows are changed one by one, and a revoked row stays revoked. -/
theorem of_map {f : RefreshTokenModel → RefreshTokenModel}
    (h : db'.refreshTokens.rows = db.refreshTokens.rows.map f) (hjti : ∀ m, (f m).jti = m.jti)
    (hf : ∀ m, m.revokedAt ≠ none → (f m).revokedAt ≠ none) : db.KeepsRevoked db' := by
  intro m hm hrev
  exact ⟨f m, by rw [h]; exact List.mem_map_of_mem hm, hjti m, hf m hrev⟩

theorem revokeRows (db : Database) (rows : List UUID) (at' : Instant) :
    db.KeepsRevoked (db.revokeRows rows at') := by
  refine of_map rfl (fun m => ?_) fun m hrev => ?_
  · split <;> rfl
  · split
    · simp
    · exact hrev

/-- The open bulk updates of a session only revoke. -/
theorem after (statements : List Statement) (db : Database) :
    db.KeepsRevoked (db.after statements) := by
  induction statements generalizing db with
  | nil => exact refl db
  | cons st statements ih => exact (revokeRows db st.rows st.at').trans (ih _)

/-- A fold of steps, each of which keeps what is revoked. -/
theorem foldlM {X : Type} {f : Database → X → Except Exc Database} {xs : List X}
    (hf : ∀ x ∈ xs, ∀ db db', f db x = .ok db' → db.KeepsRevoked db')
    (h : xs.foldlM f db = .ok db') : db.KeepsRevoked db' := by
  induction xs generalizing db with
  | nil =>
    obtain rfl := Except.ok.inj h
    exact refl db
  | cons x xs ih =>
    rw [List.foldlM_cons] at h
    rcases hx : f db x with e | db₁
    · rw [hx] at h
      cases h
    · rw [hx] at h
      exact (hf x List.mem_cons_self _ _ hx).trans
        (ih (fun x hx => hf x (List.mem_cons_of_mem _ hx)) h)

theorem updateUser {t : Tracked UserModel} (h : db.updateUser t = .ok db') :
    db.KeepsRevoked db' := by
  unfold Database.updateUser at h
  repeat' split at h
  all_goals
    cases h
    try exact of_eq rfl

theorem insertUser {m : UserModel} (h : db.insertUser m = .ok db') : db.KeepsRevoked db' := by
  unfold Database.insertUser at h
  repeat' split at h
  all_goals
    cases h
    try exact of_eq rfl

theorem updateRefreshToken {t : Tracked RefreshTokenModel} (ht : t.SetsOnly)
    (h : db.updateRefreshToken t = .ok db') : db.KeepsRevoked db' := by
  unfold Database.updateRefreshToken at h
  split at h
  · obtain rfl := Except.ok.inj h
    exact refl db
  split at h
  · cases h
  obtain rfl := Except.ok.inj h
  refine of_map rfl (fun m => by split <;> rfl) fun m hrev => ?_
  split
  · -- the row of the record: it keeps its value, or gets one that is not null
    simp only [Tracked.writeRefreshToken]
    split
    · exact hrev
    · next hne => exact ht.resolve_left hne
  · exact hrev

theorem insertRefreshToken {m : RefreshTokenModel} (h : db.insertRefreshToken m = .ok db') :
    db.KeepsRevoked db' := by
  unfold Database.insertRefreshToken at h
  split at h
  · cases h
  · next tokens hinsert =>
    split at h
    · cases h
    · obtain rfl := Except.ok.inj h
      intro m' hm' hrev
      exact ⟨m', (Table.mem_of_insert hinsert).mpr (.inl hm'), rfl, hrev⟩

end Database.KeepsRevoked

/-- A sequence of two fallible steps succeeds when both do. -/
theorem bind_eq_ok {ε α β : Type} {x : Except ε α} {f : α → Except ε β} {b : β} :
    (x >>= f) = .ok b ↔ ∃ a, x = .ok a ∧ f a = .ok b := by
  rcases x with e | a
  · exact ⟨fun h => (nomatch h), fun ⟨_, h, _⟩ => (nomatch h)⟩
  · exact ⟨fun h => ⟨a, rfl, h⟩, fun ⟨_, ha, h⟩ => by cases ha; exact h⟩

/-- **Flushing a session that clears nothing undoes no revocation.** -/
theorem Session.keepsRevoked_of_flush {s : Session} (hs : s.SetsOnly) {db db' : Database}
    (h : s.flush db = .ok db') : db.KeepsRevoked db' := by
  obtain ⟨db₁, h₁, h⟩ := bind_eq_ok.mp h
  obtain ⟨db₂, h₂, h⟩ := bind_eq_ok.mp h
  obtain ⟨db₃, h₃, h₄⟩ := bind_eq_ok.mp h
  have hk₁ := Database.KeepsRevoked.foldlM (fun _ _ _ _ h => .updateUser h) h₁
  have hk₂ := Database.KeepsRevoked.foldlM (fun _ _ _ _ h => .insertUser h) h₂
  have hk₃ := Database.KeepsRevoked.foldlM (fun t ht _ _ h => .updateRefreshToken (hs t ht) h) h₃
  have hk₄ := Database.KeepsRevoked.foldlM (fun _ _ _ _ h => .insertRefreshToken h) h₄
  exact ((hk₁.trans hk₂).trans hk₃).trans hk₄

/-! ### Sessions -/

namespace Session.SetsOnly

variable {s : Session}

theorem empty : Session.empty.SetsOnly := fun t ht => by cases ht

theorem of_eq {s' : Session} (hs : s.SetsOnly) (h : s'.refreshTokens = s.refreshTokens) :
    s'.SetsOnly := fun t ht => hs t (h ▸ ht)

theorem setUser (hs : s.SetsOnly) (m : UserModel) (f : UserModel → UserModel) :
    (s.setUser m f).SetsOnly := by
  unfold Session.setUser
  split
  · exact hs
  · exact hs

/-- A record is set to a value that is not null. -/
theorem setRefreshToken (hs : s.SetsOnly) {record : RefreshTokenRecord}
    (hrev : record.revokedAt ≠ none) (m : RefreshTokenModel) :
    (s.setRefreshToken m (RefreshTokenMapper.applyToModel record)).SetsOnly := by
  have hset : ∀ m, (RefreshTokenMapper.applyToModel record m).revokedAt ≠ none := by
    intro m
    simpa [RefreshTokenMapper.applyToModel] using hrev
  unfold Session.setRefreshToken
  split
  · -- the instance is held already
    intro t ht
    obtain ⟨t₀, ht₀, rfl⟩ := List.mem_map.mp ht
    split
    · exact .inr (hset _)
    · exact hs t₀ ht₀
  · intro t ht
    rcases List.mem_cons.mp ht with rfl | ht
    · exact .inr (hset _)
    · exact hs t ht

theorem synchronize (hs : s.SetsOnly) (scope : Scope) (at' : Instant) :
    (s.synchronize scope at').SetsOnly := by
  intro t ht
  obtain ⟨t₀, ht₀, rfl⟩ := List.mem_map.mp ht
  split
  · exact .inl rfl
  · exact hs t₀ ht₀

end Session.SetsOnly

/-! ### Calls -/

section calls

variable [Unicode]

/-- The calls that clear no `revoked_at`. -/
def Port.SetsOnly : Port → Prop
  | .refreshTokensUpdate record => record.revokedAt ≠ none
  | _ => True

/-- What the discipline relies on: `record.revoke` sets `revoked_at`. -/
def Port.Answers : (o : Port) → o.Ret → Prop
  | .recordRevoke record at', r => r = record.revoke at'
  | _, _ => True

omit [Unicode] in
theorem revokedAt_revoke (record : RefreshTokenRecord) (at' : Instant) :
    (record.revoke at').revokedAt ≠ none := by
  unfold RefreshTokenRecord.revoke
  split
  · simp
  · next h => simp [h]

/-! ### Handlers -/

theorem along_createUser (c : CreateUserCommand) :
    (CreateUserHandler.execute c).Along Port.Answers Port.SetsOnly True := by
  unfold CreateUserHandler.execute
  split
  · trivial
  simp only [Prog.op_bind, Prog.along_call]
  refine ⟨trivial, fun found _ => ?_⟩
  split
  · trivial
  refine ⟨trivial, fun _ _ => ⟨trivial, fun _ _ => ?_⟩⟩
  beta_reduce
  split
  · trivial
  · exact ⟨trivial, fun _ _ => ⟨trivial, fun _ _ => ⟨trivial, fun _ _ => ⟨trivial, fun _ _ =>
      ⟨trivial, fun _ _ => trivial⟩⟩⟩⟩⟩

theorem along_login (c : LoginCommand) :
    (LoginHandler.execute c).Along Port.Answers Port.SetsOnly True := by
  unfold LoginHandler.execute
  split
  · trivial
  simp only [Prog.op_bind, Prog.along_call]
  refine ⟨trivial, fun found _ => ?_⟩
  split
  · exact ⟨trivial, fun _ _ => trivial⟩
  split
  · exact ⟨trivial, fun _ _ => trivial⟩
  refine ⟨trivial, fun verified _ => ?_⟩
  beta_reduce
  split
  · trivial
  · exact ⟨trivial, fun _ _ => ⟨trivial, fun _ _ => ⟨trivial, fun _ _ => ⟨trivial, fun _ _ =>
      ⟨trivial, fun _ _ => ⟨trivial, fun _ _ => trivial⟩⟩⟩⟩⟩⟩

theorem along_refreshToken (c : RefreshTokenCommand) :
    (RefreshTokenHandler.execute c).Along Port.Answers Port.SetsOnly True := by
  simp only [RefreshTokenHandler.execute, Prog.op_bind, Prog.along_call]
  refine ⟨trivial, fun p _ => ?_⟩
  split
  · trivial
  refine ⟨trivial, fun found _ => ?_⟩
  beta_reduce
  split
  · trivial
  refine ⟨trivial, fun now _ => ?_⟩
  beta_reduce
  split
  · -- replay: a bulk update, which writes no record back
    exact ⟨trivial, fun _ _ => ⟨trivial, fun _ _ => trivial⟩⟩
  split
  · trivial
  split
  · trivial
  refine ⟨trivial, fun user _ => ?_⟩
  beta_reduce
  split
  · trivial
  split
  · trivial
  -- the one record that is written back was revoked
  refine ⟨trivial, fun record hrecord => ?_⟩
  obtain rfl : record = RefreshTokenRecord.revoke _ now := hrecord
  exact ⟨revokedAt_revoke _ now, fun _ _ => ⟨trivial, fun _ _ => ⟨trivial, fun _ _ =>
    ⟨trivial, fun _ _ => ⟨trivial, fun _ _ => ⟨trivial, fun _ _ => trivial⟩⟩⟩⟩⟩⟩

theorem along_logout (c : LogoutCommand) :
    (LogoutHandler.execute c).Along Port.Answers Port.SetsOnly True := by
  simp only [LogoutHandler.execute, Prog.op_bind, Prog.along_call]
  refine ⟨trivial, fun p _ => ?_⟩
  split
  · trivial
  refine ⟨trivial, fun found _ => ?_⟩
  beta_reduce
  split
  · trivial
  · exact ⟨trivial, fun _ _ => ⟨trivial, fun _ _ => ⟨trivial, fun _ _ => trivial⟩⟩⟩

theorem along_changePassword (c : ChangePasswordCommand) :
    (ChangePasswordHandler.execute c).Along Port.Answers Port.SetsOnly True := by
  simp only [ChangePasswordHandler.execute, Prog.op_bind, Prog.along_call]
  refine ⟨trivial, fun found _ => ?_⟩
  split
  · trivial
  refine ⟨trivial, fun verified _ => ?_⟩
  beta_reduce
  split
  · trivial
  refine ⟨trivial, fun _ _ => ?_⟩
  beta_reduce
  split
  · trivial
  · exact ⟨trivial, fun _ _ => ⟨trivial, fun _ _ => ⟨trivial, fun _ _ => ⟨trivial, fun _ _ =>
      ⟨trivial, fun _ _ => trivial⟩⟩⟩⟩⟩

/-- Every command keeps to the discipline. -/
theorem along_execute (c : Command) : c.execute.Along Port.Answers Port.SetsOnly True := by
  cases c with
  | createUser c => exact Prog.along_map.mpr (along_createUser c)
  | login c => exact Prog.along_map.mpr (along_login c)
  | refreshToken c => exact Prog.along_map.mpr (along_refreshToken c)
  | logout c => exact Prog.along_map.mpr (along_logout c)
  | changePassword c => exact Prog.along_map.mpr (along_changePassword c)

/-! ### Runs -/

variable {env : Env} {sid : ℕ}

/-- The answers are those the discipline relies on. -/
theorem answers_exec {o : Port} {x y : Session × World} {r : o.Ret}
    (h : exec env sid o x = (.ok r, y)) : Port.Answers o r := by
  cases o with
  | recordRevoke record at' => exact (Except.ok.inj (congrArg Prod.fst h)).symm
  | _ => trivial

/-- **A call of the discipline undoes no revocation**, and leaves the session so. -/
theorem exec_keepsRevoked {o : Port} (ho : o.SetsOnly) {s : Session} (hs : s.SetsOnly) (w : World) :
    (exec env sid o (s, w)).2.1.SetsOnly ∧ w.db.KeepsRevoked (exec env sid o (s, w)).2.2.db := by
  have hsame : w.db.KeepsRevoked w.db := .refl w.db
  cases o with
  | usersUpdate user =>
    simp only [exec]
    split
    · exact ⟨hs, hsame⟩
    · exact ⟨hs.setUser _ _, hsame⟩
  | usersGetByEmail email =>
    simp only [exec]
    split
    · exact ⟨hs, hsame⟩
    · exact ⟨hs, hsame⟩
  | refreshTokensUpdate record =>
    simp only [exec]
    split
    · exact ⟨hs, hsame⟩
    · exact ⟨hs.setRefreshToken ho _, hsame⟩
  | refreshTokensRevokeFamily f at' => exact ⟨hs.synchronize _ _, hsame⟩
  | refreshTokensRevokeAllForUser u at' => exact ⟨hs.synchronize _ _, hsame⟩
  | commit =>
    simp only [exec, execCommit]
    rcases hflush : s.flush (w.view sid) with e | db
    · exact ⟨.empty, hsame⟩
    · exact ⟨.empty, (Database.KeepsRevoked.after _ w.db).trans
        (s.keepsRevoked_of_flush hs hflush)⟩
  | usersAdd user => exact ⟨hs.of_eq rfl, hsame⟩
  | refreshTokensAdd record => exact ⟨hs.of_eq rfl, hsame⟩
  | _ => exact ⟨hs, hsame⟩

/-- **Revocation is never undone**: a record that is committed with a `revoked_at`
has one in every later committed state, whatever requests run side by side. -/
theorem revocation_is_never_undone {requests : ℕ → Option Command} {w : World}
    {cfg cfg' : Config ℕ Port Port.Ret Exc Response Session World}
    (hreach : Reach (system env) anyCall (start requests w) cfg)
    (hlater : Reach (system env) anyCall cfg cfg') :
    ∀ m ∈ cfg.shared.db.refreshTokens.rows, m.revokedAt ≠ none →
      ∃ m' ∈ cfg'.shared.db.refreshTokens.rows, m'.jti = m.jti ∧ m'.revokedAt ≠ none := by
  have hcall : ∀ sid (o : Port) (s : Session) (w : World), o.SetsOnly → s.SetsOnly →
      ((system env).exec sid o (s, w)).2.1.SetsOnly ∧
        w.db.KeepsRevoked ((system env).exec sid o (s, w)).2.2.db :=
    fun sid o s w ho hs => exec_keepsRevoked ho hs w
  have hstart : ∀ sid, ((start requests w).threads sid).prog.Along Port.Answers Port.SetsOnly True ∧
      ((start requests w).threads sid).loc.SetsOnly := by
    intro sid
    refine ⟨?_, .empty⟩
    simp only [start]
    split
    · exact along_execute _
    · trivial
  have hanswer : ∀ sid (o : Port) x r y, (system env).exec sid o x = (.ok r, y) → o.Answers r :=
    fun sid o x r y h => answers_exec h
  have hrefl : ∀ w : World, w.db.KeepsRevoked w.db := fun w => .refl w.db
  have htrans : ∀ w w' w'' : World, w.db.KeepsRevoked w'.db → w'.db.KeepsRevoked w''.db →
      w.db.KeepsRevoked w''.db := fun _ _ _ h h' => h.trans h'
  obtain ⟨-, hthreads⟩ := hreach.along hrefl htrans hanswer hcall hstart
  exact (hlater.along hrefl htrans hanswer hcall hthreads).1

end calls

/-! ### A refresh that commits its stale copy -/

section sample

attribute [local instance] asciiUnicode

/-- Two refreshes of the sample token have read its record, and the first has
committed. -/
def staleConfig : Config ℕ Port Port.Ret Exc Response Session World :=
  (start (fun sid => if sid < 2 then some (.refreshToken ⟨sampleToken⟩) else none)
    loggedInWorld).schedule (system sampleEnv) ([0, 0, 1, 1] ++ List.replicate 9 0)

/-- The second writes the copy it has read back over it, and the record stays revoked. -/
theorem revocation_is_never_undone_sample :
    (∃ m ∈ staleConfig.shared.db.refreshTokens.rows, m.revokedAt ≠ none) ∧
    ∀ m ∈ staleConfig.shared.db.refreshTokens.rows, m.revokedAt ≠ none →
      ∃ m' ∈ (staleConfig.schedule (system sampleEnv)
          (List.replicate 9 1)).shared.db.refreshTokens.rows,
        m'.jti = m.jti ∧ m'.revokedAt ≠ none :=
  ⟨by decide +kernel, revocation_is_never_undone (reach_schedule _ .refl (by decide +kernel))
    (reach_schedule _ .refl (by decide +kernel))⟩

end sample

end FastapiStarter
