import FastapiStarter.History
import Mathlib.Data.List.Chain

/-!
# Token families

The records of a family, oldest first, are a chain: the first was stored by a
login, and each later one by a refresh of the one before it.  Revocation changes
flags only, so the chain is a list of ids that only ever grows at its end.

## Main definitions

* `IssuedFor`, `Issuance` — tokens issued and records stored correspond.
* `Database.family` — the ids of a family, oldest first.
* `StoredByLogin`, `StoredByRefresh` — how a record came into the table.
* `FamilyShape` — the invariant of families.

## Main results

* `Issuance.presents` — a token that `decode` accepts and its record agree.
* `families_keep_their_shape` — **the shape of families in every run.**
-/

namespace FastapiStarter

open Relational

section laws

variable [Unicode]

/-! ### Tokens and records -/

/-- `t` is the refresh token that was issued with the record `m`. -/
def IssuedFor (env : Env) (w : World) (t : Token) (m : RefreshTokenModel) : Prop :=
  ∃ n < w.ticks, t = (env.refreshToken (env.clock n) m.userId m.jti).token ∧
    m.expiresAt = .aware (env.refreshToken (env.clock n) m.userId m.jti).expiresAt

/-- Every token issued is a refresh token with a record or an access token, and
every record has its token. -/
structure Issuance (env : Env) (w : World) : Prop where
  issued : ∀ t ∈ w.issued, (∃ m ∈ w.db.refreshTokens.rows, IssuedFor env w t m) ∨
    ∃ n < w.ticks, ∃ userId id, t = env.accessToken (env.clock n) userId id
  stored : ∀ m ∈ w.db.refreshTokens.rows, ∃ t ∈ w.issued, IssuedFor env w t m

section issuance

variable {env : Env} {w w' : World} {t t' : Token} {m m' : RefreshTokenModel}

omit [Unicode] in
theorem IssuedFor.mono (h : IssuedFor env w t m) (hticks : w.ticks ≤ w'.ticks)
    (hjti : m'.jti = m.jti) (huser : m'.userId = m.userId) (hexp : m'.expiresAt = m.expiresAt) :
    IssuedFor env w' t m' := by
  obtain ⟨n, hn, ht, hm⟩ := h
  exact ⟨n, by omega, by rw [hjti, huser, ht], by rw [hjti, huser, hexp, hm]⟩

omit [Unicode] in
theorem IssuedFor.revokeIf (h : IssuedFor env w t m) (hticks : w.ticks ≤ w'.ticks)
    (p : RefreshTokenModel → Bool) (at' : Instant) : IssuedFor env w' t (m.revokeIf p at') :=
  h.mono hticks (by simp) (by simp) (by simp)

omit [Unicode] in
/-- A record is the record of one token. -/
theorem IssuedFor.token_eq (h : IssuedFor env w t m) (h' : IssuedFor env w t' m) : t = t' := by
  obtain ⟨n, -, rfl, hm⟩ := h
  obtain ⟨n', -, rfl, hm'⟩ := h'
  have hexp : env.clock n + JwtTokenService.refreshLifetime env.settings =
      env.clock n' + JwtTokenService.refreshLifetime env.settings :=
    Datetime.aware.inj (hm.symm.trans hm')
  rw [add_right_cancel hexp]

/-- A token is the token of one record. -/
theorem IssuedFor.jti_eq (h : IssuedFor env w t m) (h' : IssuedFor env w t m') :
    m.jti = m'.jti ∧ m.userId = m'.userId := by
  obtain ⟨n, -, rfl, -⟩ := h
  obtain ⟨n', -, ht, -⟩ := h'
  simp only [Env.refreshToken, JwtTokenService.refreshToken, JwtTokenService.encoded,
    Token.signed.injEq, Claims.mk.injEq] at ht
  exact ⟨UUID.str_injective ht.2.2.2.2.1, congrArg UserId.value (UserId.str_injective ht.2.2.1)⟩

omit [Unicode] in
theorem IssuedFor.subject (h : IssuedFor env w t m) : t.IsFor m.userId := by
  obtain ⟨n, -, rfl, -⟩ := h
  rfl

omit [Unicode] in
/-- A refresh token is no access token. -/
theorem refreshToken_ne_accessToken (env : Env) (n k : Instant) (userId jti userId' id : UUID) :
    (env.refreshToken n userId jti).token ≠ env.accessToken k userId' id := by
  intro h
  simp only [Env.refreshToken, JwtTokenService.refreshToken, Env.accessToken,
    JwtTokenService.accessToken, JwtTokenService.encoded, Token.signed.injEq,
    Claims.mk.injEq] at h
  exact refresh_ne_access h.2.2.2.1

/-- A token says what it was issued with. -/
theorem payload_of_encoded {settings : JwtSettings} {now lifetime : ℤ} {subject : Str}
    {type : TokenType} {id : UUID} {p : TokenPayload} {c : Claims}
    (htoken : (JwtTokenService.encoded settings now subject type id lifetime).token =
      .signed settings.secret settings.algorithm c)
    (hsub : c.sub = p.subject) (htype : c.type = p.tokenType.literal)
    (hjti : UUID.ofStr c.jti = some p.tokenId) : p = ⟨subject, type, id⟩ := by
  simp only [JwtTokenService.encoded, Token.signed.injEq, true_and] at htoken
  subst htoken
  have hliteral : type = p.tokenType := by
    revert htype
    cases type <;> cases hp : p.tokenType <;> intro htype
    · rfl
    · exact absurd htype.symm refresh_ne_access
    · exact absurd htype refresh_ne_access
    · rfl
  rw [UUID.ofStr_str] at hjti
  rw [hliteral, Option.some.inj hjti]
  exact congrArg (TokenPayload.mk · p.tokenType p.tokenId) hsub.symm

/-- So it does when `decode` accepts it, whenever that is. -/
theorem eq_of_decode_encoded {at' : Instant} {subject : Str} {type : TokenType} {id : UUID}
    {lifetime : ℤ} {p : TokenPayload}
    (h : w.decode env (JwtTokenService.encoded env.settings at' subject type id
      lifetime).token = .ok p) : p = ⟨subject, type, id⟩ := by
  obtain ⟨c, htoken, hsub, htype, hjti⟩ := World.signed_of_decode h
  exact payload_of_encoded htoken hsub htype hjti

theorem mem_issued_of_decode {p : TokenPayload} (h : w.decode env t = .ok p) : t ∈ w.issued := by
  unfold World.decode at h
  split at h
  · assumption
  · cases h

/-- **A token that `decode` accepts and its record agree.** -/
theorem Issuance.presents (hi : Issuance env w) {p : TokenPayload}
    (h : Presents env w t p m) :
    m ∈ w.db.refreshTokens.rows ∧ IssuedFor env w t m ∧
      p = ⟨(UserId.mk m.userId).str, .refresh, m.jti⟩ := by
  obtain ⟨hm, hid⟩ := Table.get_eq_some.mp h.stored
  rcases hi.issued t (mem_issued_of_decode h.decoded) with ⟨m', hm', hfor⟩ | ⟨n, -, _, _, rfl⟩
  · obtain ⟨n, hn, rfl, hexp⟩ := hfor
    obtain rfl := eq_of_decode_encoded h.decoded
    obtain rfl : m = m' := w.db.refreshTokens.eq_of_key_eq hm hm' hid
    exact ⟨hm, ⟨n, hn, rfl, hexp⟩, rfl⟩
  · have hp := eq_of_decode_encoded h.decoded
    have htype := h.type
    rw [hp] at htype
    cases htype

/-- An accepted token with a record is presented by whoever has it. -/
theorem IssuedFor.presents (hfor : IssuedFor env w t m) (h : Accepts env w t)
    (hm : m ∈ w.db.refreshTokens.rows) :
    Presents env w t ⟨(UserId.mk m.userId).str, .refresh, m.jti⟩ m := by
  obtain ⟨p, hp⟩ := h
  obtain ⟨n, -, rfl, -⟩ := hfor
  obtain rfl := eq_of_decode_encoded hp
  exact ⟨hp, rfl, Table.get_key hm⟩

omit [Unicode] in
/-- The token an entry issues is that of the record it stores. -/
theorem Issues.issuedFor {e : Entry} {n : ℕ} {r : RefreshTokenModel} (h : Issues env e n r t) :
    IssuedFor env e.after t r := ⟨n, h.tick, h.token, h.expires⟩

omit [Unicode] in
theorem Issuance.initial : Issuance env .initial := by
  constructor <;> simp [World.initial, Database.empty]

theorem Issuance.step {e : Entry} (hi : Issuance env e.before) (he : Step env e) :
    Issuance env e.after := by
  have hticks := he.ticks
  rcases he.effect.silent_or_issues with
    ⟨p, at', hrows, hsilent⟩ | ⟨p, at', n, r, t, hrows, hissues⟩
  · refine ⟨fun t ht => ?_, fun m hm => ?_⟩
    · rw [hsilent.issued] at ht
      rcases hi.issued t ht with ⟨m, hm, hfor⟩ | ⟨n, hn, haccess⟩
      · exact .inl ⟨_, hrows.kept hm, hfor.revokeIf hticks p at'⟩
      · exact .inr ⟨n, by omega, haccess⟩
    · rcases hrows.mem_iff.mp hm with ⟨m₀, hm₀, rfl⟩ | hm
      · obtain ⟨t, ht, hfor⟩ := hi.stored m₀ hm₀
        exact ⟨t, by rwa [hsilent.issued], hfor.revokeIf hticks p at'⟩
      · cases hm
  · obtain ⟨k, hk, id, hissued⟩ := hissues.issued
    refine ⟨fun t' ht' => ?_, fun m hm => ?_⟩
    · rw [hissued, List.mem_cons, List.mem_cons] at ht'
      rcases ht' with rfl | rfl | ht'
      · exact .inr ⟨k, hk, _, id, rfl⟩
      · exact .inl ⟨r, hrows.mem_iff.mpr (.inr (by simp)), hissues.issuedFor⟩
      · rcases hi.issued t' ht' with ⟨m, hm, hfor⟩ | ⟨n, hn, haccess⟩
        · exact .inl ⟨_, hrows.kept hm, hfor.revokeIf hticks p at'⟩
        · exact .inr ⟨n, by omega, haccess⟩
    · rw [hissued]
      rcases hrows.mem_iff.mp hm with ⟨m₀, hm₀, rfl⟩ | hm
      · obtain ⟨t', ht', hfor⟩ := hi.stored m₀ hm₀
        exact ⟨t', by simp [ht'], hfor.revokeIf hticks p at'⟩
      · obtain rfl : m = r := by simpa using hm
        exact ⟨t, by simp, hissues.issuedFor⟩

theorem issuance_of_run {h : List Entry} (hrun : Run env h w) : Issuance env w :=
  hrun.invariant (fun _ w => Issuance env w) .initial fun _ _ _ _ he hi => hi.step he

end issuance

/-! ### Families -/

/-- The ids of the records of a family, oldest first. -/
def Database.family (db : Database) (f : UUID) : List UUID :=
  (db.refreshTokens.rows.filter fun m => m.familyId = f).map (·.jti)

/-- The entry put a record with the id `j` into the table. -/
def Entry.Stores (e : Entry) (j : UUID) : Prop :=
  (∃ m ∈ e.after.db.refreshTokens.rows, m.jti = j) ∧ ∀ m ∈ e.before.db.refreshTokens.rows, m.jti ≠ j

/-- A login stored the record `j`. -/
def StoredByLogin (h : List Entry) (j : UUID) : Prop :=
  ∃ e ∈ h, (∃ c, e.action = .command (.login c)) ∧ e.Stores j

/-- A refresh of the record `j`, then the newest of the family `f`, stored the
record `j'`. -/
def StoredByRefresh (env : Env) (h : List Entry) (f j j' : UUID) : Prop :=
  ∃ e ∈ h, (∃ t p m, e.action = .command (.refreshToken ⟨t⟩) ∧ Presents env e.before t p m ∧
    m.jti = j) ∧ (e.before.db.family f).getLast? = some j ∧ e.Stores j'

/-- The shape of the families. -/
structure FamilyShape (env : Env) (h : List Entry) (w : World) : Prop where
  /-- A family belongs to one user. -/
  sameUser : ∀ m ∈ w.db.refreshTokens.rows, ∀ m' ∈ w.db.refreshTokens.rows,
    m.familyId = m'.familyId → m.userId = m'.userId
  /-- Its first record was stored by a login, and no other. -/
  opened : ∀ m ∈ w.db.refreshTokens.rows, ∃ first rest,
    w.db.family m.familyId = first :: rest ∧ StoredByLogin h first ∧ ∀ j ∈ rest, ¬ StoredByLogin h j
  /-- Each later one was stored by a refresh of the one before it. -/
  linked : ∀ f, (w.db.family f).IsChain (StoredByRefresh env h f)
  /-- An unrevoked record is the newest. -/
  newest : ∀ m ∈ w.db.refreshTokens.rows, m.revokedAt = none →
    (w.db.family m.familyId).getLast? = some m.jti
  /-- A refresh token issued is for the user of its record. -/
  subject : ∀ c : Claims, .signed env.settings.secret env.settings.algorithm c ∈ w.issued →
    c.type = TokenType.refresh.literal → ∃ m ∈ w.db.refreshTokens.rows, c.jti = m.jti.str ∧
      c.sub = (UserId.mk m.userId).str

section families

variable {env : Env} {e : Entry} {h : List Entry} {db db' : Database}

omit [Unicode] in
@[simp] theorem mem_family {f j : UUID} :
    j ∈ db.family f ↔ ∃ m ∈ db.refreshTokens.rows, m.familyId = f ∧ m.jti = j := by
  simp [Database.family, and_assoc]

omit [Unicode] in
/-- A family only grows at its end. -/
theorem Database.Extends.family {p : RefreshTokenModel → Bool} {at' : Instant}
    {new : List RefreshTokenModel} (hrows : db.Extends db' p at' new) (f : UUID) :
    db'.family f = db.family f ++ (new.filter fun m => m.familyId = f).map (·.jti) := by
  unfold Database.family
  rw [hrows, List.filter_append, List.map_append, List.filter_map, List.map_map]
  congr 1
  simp [Function.comp_def]

omit [Unicode] in
@[simp] theorem storedByLogin_cons {j : UUID} : StoredByLogin (e :: h) j ↔
    ((∃ c, e.action = .command (.login c)) ∧ e.Stores j) ∨ StoredByLogin h j := by
  simp [StoredByLogin]

theorem StoredByRefresh.cons {f j j' : UUID} (hstored : StoredByRefresh env h f j j') :
    StoredByRefresh env (e :: h) f j j' := by
  obtain ⟨e', he', hrest⟩ := hstored
  exact ⟨e', List.mem_cons_of_mem _ he', hrest⟩

omit [Unicode] in
/-- An entry that adds no row stores nothing. -/
theorem not_stores {p : RefreshTokenModel → Bool} {at' : Instant}
    (hrows : e.before.db.Extends e.after.db p at' []) (j : UUID) : ¬ e.Stores j := by
  rintro ⟨⟨m, hm, rfl⟩, hnew⟩
  rcases hrows.mem_iff.mp hm with ⟨m₀, hm₀, rfl⟩ | hm
  · exact hnew m₀ hm₀ (by simp)
  · cases hm

omit [Unicode] in
theorem Issuance.subject {w : World} (hi : Issuance env w) (c : Claims)
    (hc : .signed env.settings.secret env.settings.algorithm c ∈ w.issued)
    (htype : c.type = TokenType.refresh.literal) : ∃ m ∈ w.db.refreshTokens.rows,
      c.jti = m.jti.str ∧ c.sub = (UserId.mk m.userId).str := by
  rcases hi.issued _ hc with ⟨m, hm, n, -, ht, -⟩ | ⟨n, -, userId, id, ht⟩
  · obtain rfl := (Token.signed.inj ht).2.2
    exact ⟨m, hm, rfl, rfl⟩
  · obtain rfl := (Token.signed.inj ht).2.2
    exact absurd htype.symm refresh_ne_access

/-- Revocations keep the shape of families. -/
theorem FamilyShape.silent (hs : FamilyShape env h e.before) {p : RefreshTokenModel → Bool}
    {at' : Instant} (hrows : e.before.db.Extends e.after.db p at' []) (hi : Issuance env e.after) :
    FamilyShape env (e :: h) e.after := by
  -- families consist of the same ids, and rows differ in `revoked_at` alone
  have hfamily : ∀ f, e.after.db.family f = e.before.db.family f := fun f => by
    rw [hrows.family, List.filter_nil, List.map_nil, List.append_nil]
  have hmem : ∀ m ∈ e.after.db.refreshTokens.rows,
      ∃ m₀ ∈ e.before.db.refreshTokens.rows, m₀.revokeIf p at' = m := by
    intro m hm
    simpa using hrows.mem_iff.mp hm
  refine ⟨?_, ?_, ?_, ?_, hi.subject⟩
  · intro m hm m' hm'
    obtain ⟨m₀, hm₀, rfl⟩ := hmem m hm
    obtain ⟨m₀', hm₀', rfl⟩ := hmem m' hm'
    simpa using hs.sameUser m₀ hm₀ m₀' hm₀'
  · intro m hm
    obtain ⟨m₀, hm₀, rfl⟩ := hmem m hm
    obtain ⟨first, rest, hf, hfirst, hrest⟩ := hs.opened m₀ hm₀
    refine ⟨first, rest, by simpa [hfamily] using hf, storedByLogin_cons.mpr (.inr hfirst),
      fun j hj hstored => ?_⟩
    rcases storedByLogin_cons.mp hstored with ⟨-, hstores⟩ | hstored
    · exact not_stores hrows j hstores
    · exact hrest j hj hstored
  · intro f
    rw [hfamily]
    exact (hs.linked f).imp fun _ _ => .cons
  · intro m hm hlive
    obtain ⟨m₀, hm₀, rfl⟩ := hmem m hm
    rw [RefreshTokenModel.familyId_revokeIf, RefreshTokenModel.jti_revokeIf, hfamily]
    exact hs.newest m₀ hm₀ (m₀.revokedAt_revokeIf p at' |>.mp hlive).1

/-- A login opens a family of one record. -/
theorem FamilyShape.open (hs : FamilyShape env h e.before) {r : RefreshTokenModel}
    {c : LoginCommand} (hrows : e.before.db.Extends e.after.db (fun _ => false) 0 [r])
    (haction : e.action = .command (.login c)) (hi : Issuance env e.after)
    (hjti : ∀ m ∈ e.before.db.refreshTokens.rows, m.jti ≠ r.jti)
    (hnew : ∀ m ∈ e.before.db.refreshTokens.rows, m.familyId ≠ r.familyId) :
    FamilyShape env (e :: h) e.after := by
  -- the other families are as before, and the new one has one record
  have hfamily : ∀ f, f ≠ r.familyId → e.after.db.family f = e.before.db.family f := fun f hf => by
    rw [hrows.family]
    simp [hf.symm]
  have hown : e.after.db.family r.familyId = [r.jti] := by
    have hempty : e.before.db.family r.familyId = [] := by
      simpa [Database.family] using hnew
    rw [hrows.family, hempty]
    simp
  have hmem : ∀ m, m ∈ e.after.db.refreshTokens.rows ↔
      m ∈ e.before.db.refreshTokens.rows ∨ m = r := by
    intro m
    rw [hrows.mem_iff]
    simp [RefreshTokenModel.revokeIf]
  have hstores : e.Stores r.jti := ⟨⟨r, (hmem r).mpr (.inr rfl), rfl⟩, hjti⟩
  refine ⟨?_, ?_, ?_, ?_, hi.subject⟩
  · -- one user to a family
    intro m hm m' hm' hff
    rcases (hmem m).mp hm with hm | rfl <;> rcases (hmem m').mp hm' with hm' | rfl
    · exact hs.sameUser m hm m' hm' hff
    · exact absurd hff (hnew m hm)
    · exact absurd hff.symm (hnew m' hm')
    · rfl
  · -- a login opened it
    intro m hm
    rcases (hmem m).mp hm with hm | rfl
    · obtain ⟨first, rest, hf, hfirst, hrest⟩ := hs.opened m hm
      refine ⟨first, rest, by rw [hfamily _ (hnew m hm), hf], storedByLogin_cons.mpr (.inr hfirst),
        fun j hj hstored => ?_⟩
      rcases storedByLogin_cons.mp hstored with ⟨-, hj'⟩ | hstored
      · obtain ⟨m', hm', -, hmj⟩ := mem_family.mp (hf ▸ List.mem_cons_of_mem first hj)
        exact hj'.2 m' hm' hmj
      · exact hrest j hj hstored
    · exact ⟨m.jti, [], hown, storedByLogin_cons.mpr (.inl ⟨⟨c, haction⟩, hstores⟩), by simp⟩
  · -- each record was stored by refreshing the one before it
    intro f
    by_cases hf : f = r.familyId
    · rw [hf, hown]
      exact .singleton _
    · rw [hfamily f hf]
      exact (hs.linked f).imp fun _ _ => .cons
  · -- only the newest is live
    intro m hm hlive
    rcases (hmem m).mp hm with hm | rfl
    · rw [hfamily _ (hnew m hm)]
      exact hs.newest m hm hlive
    · rw [hown]
      rfl

/-- A refresh appends a record to the family of the record it revokes. -/
theorem FamilyShape.rotate (hs : FamilyShape env h e.before) {t : Token} {p : TokenPayload}
    {m r : RefreshTokenModel} {at' : Instant}
    (hrows : e.before.db.Extends e.after.db (fun m' => m'.jti = m.jti) at' [r])
    (haction : e.action = .command (.refreshToken ⟨t⟩)) (hp : Presents env e.before t p m)
    (hlive : m.revokedAt = none) (hi : Issuance env e.after) (hfamily : r.familyId = m.familyId)
    (huser : r.userId = m.userId) (hjti : ∀ m' ∈ e.before.db.refreshTokens.rows, m'.jti ≠ r.jti)
    (hknown : ∀ j, StoredByLogin h j → ∃ m' ∈ e.before.db.refreshTokens.rows, m'.jti = j) :
    FamilyShape env (e :: h) e.after := by
  have hm := (Table.get_eq_some.mp hp.stored).1
  have hlast := hs.newest m hm hlive
  have hother : ∀ f, f ≠ m.familyId → e.after.db.family f = e.before.db.family f := fun f hf => by
    rw [hrows.family]
    simp [hfamily, hf.symm]
  have hown : e.after.db.family m.familyId = e.before.db.family m.familyId ++ [r.jti] := by
    rw [hrows.family]
    simp [hfamily]
  have hmem : ∀ m' ∈ e.after.db.refreshTokens.rows, m' = r ∨ ∃ m₀ ∈ e.before.db.refreshTokens.rows,
      m₀.revokeIf (fun m' => m'.jti = m.jti) at' = m' := by
    intro m' hm'
    rcases hrows.mem_iff.mp hm' with hold | hnew
    · exact .inr hold
    · exact .inl (List.mem_singleton.mp hnew)
  have hstores : e.Stores r.jti :=
    ⟨⟨r, hrows.mem_iff.mpr (.inr (by simp)), rfl⟩, hjti⟩
  have hlogin : ∀ j, StoredByLogin (e :: h) j → StoredByLogin h j := by
    intro j hstored
    rcases storedByLogin_cons.mp hstored with ⟨⟨c, hc⟩, -⟩ | hstored
    · simp [haction] at hc
    · exact hstored
  -- the records of the old table, seen through what the new one keeps of them
  have hold : ∀ m' ∈ e.after.db.refreshTokens.rows, ∃ m₀ ∈ e.before.db.refreshTokens.rows,
      m₀.familyId = m'.familyId ∧ m₀.userId = m'.userId := by
    intro m' hm'
    rcases hmem m' hm' with rfl | ⟨m₀, hm₀, rfl⟩
    · exact ⟨m, hm, hfamily.symm, huser.symm⟩
    · exact ⟨m₀, hm₀, by simp, by simp⟩
  refine ⟨?_, ?_, ?_, ?_, hi.subject⟩
  · intro m₁ hm₁ m₂ hm₂ hff
    obtain ⟨m₁', hm₁', hf₁, hu₁⟩ := hold m₁ hm₁
    obtain ⟨m₂', hm₂', hf₂, hu₂⟩ := hold m₂ hm₂
    rw [← hu₁, ← hu₂]
    exact hs.sameUser m₁' hm₁' m₂' hm₂' (hf₁.trans (hff.trans hf₂.symm))
  · intro m' hm'
    obtain ⟨m₀, hm₀, hf₀, -⟩ := hold m' hm'
    obtain ⟨first, rest, hf, hfirst, hrest⟩ := hs.opened m₀ hm₀
    rw [← hf₀]
    by_cases hown' : m₀.familyId = m.familyId
    · refine ⟨first, rest ++ [r.jti], by rw [hown', hown, ← hown', hf, List.cons_append],
        storedByLogin_cons.mpr (.inr hfirst), fun j hj hstored => ?_⟩
      rcases List.mem_append.mp hj with hj | hj
      · exact hrest j hj (hlogin j hstored)
      · obtain ⟨m', hm', hj'⟩ := hknown j (hlogin j hstored)
        exact hjti m' hm' (hj'.trans (List.mem_singleton.mp hj))
    · exact ⟨first, rest, by rw [hother _ hown', hf], storedByLogin_cons.mpr (.inr hfirst),
        fun j hj hstored => hrest j hj (hlogin j hstored)⟩
  · intro f
    by_cases hf : f = m.familyId
    · rw [hf, hown, List.isChain_append]
      refine ⟨(hs.linked _).imp fun _ _ => .cons, .singleton _, fun j hj j' hj' => ?_⟩
      obtain rfl : m.jti = j := Option.some.inj (hlast.symm.trans hj)
      obtain rfl : r.jti = j' := by simpa using hj'
      exact ⟨e, List.mem_cons_self, ⟨t, p, m, haction, hp, rfl⟩, hlast, hstores⟩
    · rw [hother f hf]
      exact (hs.linked f).imp fun _ _ => .cons
  · intro m' hm' hlive'
    rcases hmem m' hm' with rfl | ⟨m₀, hm₀, rfl⟩
    · rw [hfamily, hown, List.getLast?_concat]
    · rw [RefreshTokenModel.revokedAt_revokeIf] at hlive'
      have hlast₀ := hs.newest m₀ hm₀ hlive'.1
      -- two unrevoked records of a family are one, and the rotated one is revoked
      have hne : m₀.familyId ≠ m.familyId := by
        intro hff
        rw [hff, hlast] at hlast₀
        exact absurd (Option.some.inj hlast₀).symm (by simpa using hlive'.2)
      rw [RefreshTokenModel.familyId_revokeIf, RefreshTokenModel.jti_revokeIf, hother _ hne]
      exact hlast₀

/-- What a login has stored is in the table. -/
def KnownLogins (h : List Entry) (w : World) : Prop :=
  ∀ j, StoredByLogin h j → ∃ m ∈ w.db.refreshTokens.rows, m.jti = j

theorem KnownLogins.step (hknown : KnownLogins h e.before) (he : Step env e) :
    KnownLogins (e :: h) e.after := by
  intro j hstored
  rcases storedByLogin_cons.mp hstored with ⟨-, ⟨m, hm, hj⟩, -⟩ | hstored
  · exact ⟨m, hm, hj⟩
  · obtain ⟨m, hm, rfl⟩ := hknown j hstored
    rcases he.effect.silent_or_issues with ⟨p, at', hrows, -⟩ | ⟨p, at', _, _, _, hrows, -⟩
    · exact ⟨_, hrows.kept hm, m.jti_revokeIf p at'⟩
    · exact ⟨_, hrows.kept hm, m.jti_revokeIf p at'⟩

/-- One step keeps the shape of the families. -/
theorem FamilyShape.step (hw : Settled env e.before) (hfresh : env.NoRepeat e.after.ids)
    (he : Step env e) (hi : Issuance env e.before) (hknown : KnownLogins h e.before)
    (hs : FamilyShape env h e.before) : FamilyShape env (e :: h) e.after := by
  have hi' := hi.step he
  have hjti : ∀ {n r t}, Issues env e n r t → ∀ m ∈ e.before.db.refreshTokens.rows, m.jti ≠ r.jti :=
    fun hr m hm => hr.jti ▸ hfresh.ne hr.ids le_rfl (hw.jtis m hm)
  cases he.effect with
  | idle hrows => exact hs.silent hrows hi'
  | opened n r t haction hissues hfamily hids hrows =>
    refine hs.open hrows haction hi' (hjti hissues) fun m hm => ?_
    rw [hfamily]
    exact hfresh.ne hids (Nat.le_succ _) (hw.families m hm)
  | rotated n r t' at' haction hchecks hissues hfamily huser hrows =>
    obtain ⟨-, -, hp⟩ := hi.presents hchecks.toPresents
    have hsubject := hchecks.subject
    rw [hp, UserId.fromStr_str] at hsubject
    refine hs.rotate hrows haction hchecks.toPresents hchecks.live hi' hfamily ?_ (hjti hissues)
      hknown
    rw [huser, ← Except.ok.inj hsubject]
  | killed _ _ _ hrows => exact hs.silent hrows hi'
  | changed _ _ _ hrows => exact hs.silent hrows hi'

theorem FamilyShape.initial : FamilyShape env [] .initial := by
  constructor <;> simp [World.initial, Database.empty, Database.family]

theorem familyShape_of_run {w : World} (hrun : Run env h w) : FamilyShape env h w := by
  have hstart : KnownLogins [] .initial := by
    rintro j ⟨e, he, -⟩
    cases he
  have hinv := hrun.invariant
    (fun h w => Issuance env w ∧ KnownLogins h w ∧ FamilyShape env h w)
    ⟨.initial, hstart, .initial⟩ fun e h hw hfresh he hinv =>
      ⟨hinv.1.step he, hinv.2.1.step he, hinv.2.2.step hw hfresh he hinv.1 hinv.2.1⟩
  exact hinv.2.2

/-- Two unrevoked records of a family are one. -/
theorem FamilyShape.unique {w : World} (hs : FamilyShape env h w) {m m' : RefreshTokenModel}
    (hm : m ∈ w.db.refreshTokens.rows) (hm' : m' ∈ w.db.refreshTokens.rows)
    (hf : m.familyId = m'.familyId) (hlive : m.revokedAt = none) (hlive' : m'.revokedAt = none) :
    m = m' := by
  have hlast := hs.newest m hm hlive
  rw [hf, hs.newest m' hm' hlive'] at hlast
  exact w.db.refreshTokens.eq_of_key_eq hm hm' (Option.some.inj hlast).symm

/-- **Token families keep their shape**: in every state of every run, the records
of a family belong to one user; exactly one was stored by a login, and each other
one by a refresh of the previously newest; an unrevoked record is the newest, so
there is at most one; and the subject of every refresh token issued is the user
of the stored record. -/
theorem families_keep_their_shape {w : World} (hrun : Run env h w) :
    FamilyShape env h w ∧ ∀ m ∈ w.db.refreshTokens.rows, ∀ m' ∈ w.db.refreshTokens.rows,
      m.familyId = m'.familyId → m.revokedAt = none → m'.revokedAt = none → m = m' := by
  have hs := familyShape_of_run hrun
  exact ⟨hs, fun m hm m' hm' => hs.unique hm hm'⟩

end families

end laws

section sample

attribute [local instance] asciiUnicode

/-- The world in which the token of the sample login was used for another. -/
def rotatedWorld : World := (execute sampleEnv (.refreshToken ⟨sampleToken⟩) loggedInWorld).2

/-- The sample login opened a family, and a refresh has added to it: the record of the
login is revoked, and the one of the refresh is not. -/
theorem families_keep_their_shape_sample :
    (∃ h, FamilyShape sampleEnv h rotatedWorld) ∧
      (rotatedWorld.db.refreshTokens.rows.map fun m => (m.familyId, m.revokedAt.isNone)) =
        [(sampleEnv.uuid 2, false), (sampleEnv.uuid 2, true)] := by
  have hrun : Run sampleEnv _ rotatedWorld :=
    .command (.refreshToken ⟨sampleToken⟩) run_sampleHistory (by decide)
  exact ⟨⟨_, (families_keep_their_shape hrun).1⟩, by decide +kernel⟩

end sample

end FastapiStarter
