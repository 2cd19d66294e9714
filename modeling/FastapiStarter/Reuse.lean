import FastapiStarter.Revocation
import Mathlib.Tactic.IntervalCases

/-!
# Spending a token, under concurrency

A refresh reads the record of its token without a lock and revokes it by a plain
update.  Two requests that have both read the record before either commits can
both rotate it.  Where no request commits over a record that was revoked since it
was read, the token is spent once: one request gets a pair of tokens, every other
one detects the reuse and revokes the family.

## Main definitions

* `LiveAt` — the token and its record have not expired at an instant.
* `NoStaleRotation` — the assumption on the runs.
* `SpentOnce` — the token was spent once, and every other request has detected the reuse.

## Main results

* `token_is_spent_once` — **under the assumption, the token is spent once.**
* `token_is_spent_twice` — a run, without it, in which it is spent twice.
-/

namespace FastapiStarter

open Interaction Relational

section reuse

variable [Unicode]

/-! ### Spending a token -/

/-- At this instant neither the token nor its record has expired. -/
def LiveAt (env : Env) (t : Token) (p : TokenPayload) (m : RefreshTokenModel) (at' : Instant) :
    Prop :=
  JwtTokenService.decode env.settings at' t = .ok p ∧ at' < asUtc m.expiresAt

/-- The call marks the record revoked. -/
def Port.updatesRecord (jti : UUID) : Port → Bool
  | .refreshTokensUpdate record => record.jti = jti
  | _ => false

/-- No request commits the rotation of a record that is revoked by then. -/
def NoStaleRotation : Guard ℕ Port Port.Ret Exc World := fun tr w sid o =>
  o = .commit → ∀ m ∈ w.db.refreshTokens.rows, Called tr sid (Port.updatesRecord m.jti) →
    m.revokedAt = none

instance (tr : Trace) (w : World) (sid : ℕ) (o : Port) : Decidable (NoStaleRotation tr w sid o) :=
  inferInstanceAs (Decidable (o = .commit → ∀ m ∈ w.db.refreshTokens.rows, _ → _))

/-- The token whose record is `m` was spent at most once: as if the requests had
come one after the other. -/
structure SpentOnce (requests : ℕ → Option Command) (w : World) (m : RefreshTokenModel)
    (cfg : Config ℕ Port Port.Ret Exc Response Session World) : Prop where
  /-- At most one request returns a pair of tokens. -/
  winner : ∀ i j p q, (cfg.threads i).result = some (.ok (.tokenPair p)) →
    (cfg.threads j).result = some (.ok (.tokenPair q)) → i = j
  /-- At most one successor is stored. -/
  successor : cfg.shared.db.refreshTokens.rows.length ≤ w.db.refreshTokens.rows.length + 1
  /-- A request that fails is told that its token is invalid. -/
  loser : ∀ i e, (cfg.threads i).result = some (.error e) → e = .domain .invalidToken
  /-- When two have come to their end, the family has no unrevoked record. -/
  dead : ∀ i j, i ≠ j → requests i ≠ none → requests j ≠ none →
    (cfg.threads i).result ≠ none → (cfg.threads j).result ≠ none →
    ∀ m' ∈ cfg.shared.db.refreshTokens.rows, m'.familyId = m.familyId → m'.revokedAt ≠ none
  /-- When all have come to their end, one of them returned a pair. -/
  done : (∃ i, requests i ≠ none) → (∀ i, (cfg.threads i).result ≠ none) →
    ∃ i p, (cfg.threads i).result = some (.ok (.tokenPair p))

/-! ### The invariant -/

/-- The record of the token is revoked. -/
def Spent (m : RefreshTokenModel) (db : Database) : Prop :=
  ∃ m' ∈ db.refreshTokens.rows, m'.jti = m.jti ∧ m'.revokedAt ≠ none

/-- A row read as the record of the token. -/
def SameRecord (m m' : RefreshTokenModel) : Prop :=
  m'.jti = m.jti ∧ m'.familyId = m.familyId ∧ m'.expiresAt = m.expiresAt

/-- The record that a request is about to replace is that of the token, which is spent
where the request has found the row revoked. -/
def Replaces (m : RefreshTokenModel) (db : Database) (src : Replaced) : Prop :=
  ∃ m' seen, src = some (m', seen) ∧ SameRecord m m' ∧ (seen = true → Spent m db)

/-- What is known in a phase of a request that presents the token. -/
def Knows (env : Env) (p : TokenPayload) (m : RefreshTokenModel) (first : ℕ) (w : World)
    (updated : Prop) : Phase → Prop
  | .idle | .begun => True
  | .holds p' => p' = p
  | .found p' m' => p' = p ∧ SameRecord m m' ∧ (m'.revokedAt ≠ none → Spent m w.db)
  | .live p' m' _ => p' = p ∧ SameRecord m m'
  | .allowed m' _ u => SameRecord m m' ∧ UserMapper.toModel u ∈ w.db.users.rows
  | .opens src u => Replaces m w.db src ∧ UserMapper.toModel u ∈ w.db.users.rows ∧ updated
  | .drew src u jti | .issued src u jti =>
    Replaces m w.db src ∧ UserMapper.toModel u ∈ w.db.users.rows ∧ updated ∧
      ∃ k, first ≤ k ∧ k < w.ids ∧ jti = env.uuid k
  | .adds src r => Replaces m w.db src ∧ w.db.users.get r.userId ≠ none ∧ updated ∧
      r.familyId = m.familyId ∧ ∃ k, first ≤ k ∧ k < w.ids ∧ r.jti = env.uuid k
  | .stored => Spent m w.db
  | .sweeps scope _ _ x => Spent m w.db ∧ scope = .family m.familyId ∧
      x = .error (.domain .invalidToken)
  | .swept st _ x => Spent m w.db ∧ Covers w.db m.familyId st.rows ∧
      x = .error (.domain .invalidToken)
  | .ended x => Spent m w.db ∧ Covers w.db m.familyId [] ∧ x = .error (.domain .invalidToken)
  | .loaded _ => False

/-- What holds throughout a run that meets the assumption, while the token is
live and `uuid4` does not repeat. -/
structure Spending (env : Env) (requests : ℕ → Option Command) (t : Token) (p : TokenPayload)
    (m : RefreshTokenModel) (w₀ : World) (φ : ℕ → Phase) (w : World) (tr : Trace) : Prop where
  command : ∀ sid, φ sid = .idle ∧ requests sid = none ∨
    φ sid ≠ .idle ∧ requests sid = some (.refreshToken ⟨t⟩)
  users : w.db.users = w₀.db.users
  issued : t ∈ w.issued
  ticks : w₀.ticks ≤ w.ticks
  ids : w₀.ids ≤ w.ids
  record : ∀ m' ∈ w.db.refreshTokens.rows, m'.jti = m.jti → SameRecord m m'
  present : ∃ m' ∈ w.db.refreshTokens.rows, m'.jti = m.jti
  unspent : ¬ Spent m w.db → w.db.refreshTokens = w₀.db.refreshTokens
  spent : Spent m w.db → (∃ sid, φ sid = .stored) ∧
    w.db.refreshTokens.rows.length = w₀.db.refreshTokens.rows.length + 1
  winner : ∀ i j, φ i = .stored → φ j = .stored → i = j
  knows : ∀ sid, Knows env p m w₀.ids w (Called tr sid (Port.updatesRecord m.jti)) (φ sid)

section step

variable {env : Env} {requests : ℕ → Option Command} {t : Token} {p : TokenPayload}
  {m : RefreshTokenModel} {u : User} {w₀ : World} {φ : ℕ → Phase} {w w' : World} {tr : Trace}
  {sid : ℕ} {o : Port} {ans : Except Exc o.Ret} {ψ φ' : Phase}

omit [Unicode] in
/-- A record that is revoked stays so. -/
theorem Spent.extends {db db' : Database} {q : RefreshTokenModel → Bool} {at' : Instant}
    {new : List RefreshTokenModel} (h : Spent m db) (hrows : db.Extends db' q at' new) :
    Spent m db' := by
  obtain ⟨m', hm', hjti, hrevoked⟩ := h
  refine ⟨_, hrows.kept hm', (RefreshTokenModel.jti_revokeIf ..).trans hjti, fun hlive => ?_⟩
  exact hrevoked ((RefreshTokenModel.revokedAt_revokeIf _ _ _).mp hlive).1

omit [Unicode] in
theorem Replaces.mono {db db' : Database} {src : Replaced} (h : Replaces m db src)
    (hspent : Spent m db → Spent m db') : Replaces m db' src := by
  obtain ⟨m', seen, hsrc, hsame, hseen⟩ := h
  exact ⟨m', seen, hsrc, hsame, fun hs => hspent (hseen hs)⟩

/-- What a request knows stays true while others move. -/
theorem Knows.mono {first : ℕ} {upd upd' : Prop} (hk : Knows env p m first w upd ψ)
    (hspent : Spent m w.db → Spent m w'.db ∧
      ∀ rows, Covers w.db m.familyId rows → Covers w'.db m.familyId rows)
    (husers : w'.db.users = w.db.users) (hids : w.ids ≤ w'.ids) (hupd : upd → upd') :
    Knows env p m first w' upd' ψ := by
  have hspent' : Spent m w.db → Spent m w'.db := fun hs => (hspent hs).1
  cases ψ with
  | idle | begun | holds _ | live _ _ _ | loaded _ => exact hk
  | found _ _ => exact ⟨hk.1, hk.2.1, fun hr => (hspent (hk.2.2 hr)).1⟩
  | allowed _ _ u => exact ⟨hk.1, by rw [husers]; exact hk.2⟩
  | opens _ u => exact ⟨hk.1.mono hspent', by rw [husers]; exact hk.2.1, hupd hk.2.2⟩
  | drew _ u jti | issued _ u jti =>
    obtain ⟨hsrc, hu, hup, k, hfirst, hlt, hjti⟩ := hk
    exact ⟨hsrc.mono hspent', by rw [husers]; exact hu, hupd hup, k, hfirst, by omega, hjti⟩
  | adds _ r =>
    obtain ⟨hsrc, hu, hup, hf, k, hfirst, hlt, hjti⟩ := hk
    exact ⟨hsrc.mono hspent', by rw [husers]; exact hu, hupd hup, hf, k, hfirst, by omega, hjti⟩
  | stored => exact (hspent hk).1
  | sweeps _ _ _ _ => exact ⟨(hspent hk.1).1, hk.2⟩
  | swept _ _ _ => exact ⟨(hspent hk.1).1, (hspent hk.1).2 _ hk.2.1, hk.2.2⟩
  | ended _ => exact ⟨(hspent hk.1).1, (hspent hk.1).2 _ hk.2.1, hk.2.2⟩

/-- A request that presents the token is not refused, except after a reuse. -/
theorem Spending.not_refused (h : Spending env requests t p m w₀ φ w tr) (hw : Settled env w₀)
    (hc : RefreshChecks env w₀ t p m u)
    (hlive : ∀ n, w₀.ticks ≤ n → n < w'.ticks → LiveAt env t p m (env.clock n))
    (hfresh : env.NoRepeat w.ids) (hguard : NoStaleRotation tr w sid o) {e : Exc} :
    ¬ Refusal env w w' (requests sid) (φ sid) o e := by
  have hdecode : w.ticks < w'.ticks → w.decode env t = .ok p := fun htick => by
    rw [World.decode, if_pos h.issued]
    exact (hlive w.ticks h.ticks htick).1
  have hk := h.knows sid
  intro hr
  generalize φ sid = ψ at hr hk
  generalize hcmd : requests sid = c at hr
  have hrefresh : ∀ cmd, c = some cmd → cmd = .refreshToken ⟨t⟩ := by
    intro cmd hcmd'
    rcases h.command sid with ⟨-, hnone⟩ | hsome
    · simp [hcmd, hcmd'] at hnone
    · simpa [hcmd, hcmd'] using hsome.2
  -- why it might be refused: all of it was checked of the token, and holds still
  cases hr with
  | other hother => exact hother t (hrefresh _ rfl)
  | rejected herr htick =>
    obtain rfl : _ = t := by simpa using hrefresh _ rfl
    cases herr.symm.trans (hdecode htick)
  | type hok htype htick =>
    obtain rfl : _ = t := by simpa using hrefresh _ rfl
    obtain rfl := Except.ok.inj (hok.symm.trans (hdecode htick))
    exact htype hc.type
  | record hnone =>
    obtain rfl : _ = p := hk
    obtain ⟨m', hm', hjti⟩ := h.present
    refine Table.get_eq_none.mp hnone m' hm' (hjti.trans ?_)
    exact (Table.get_eq_some.mp hc.stored).2
  | expired _ hexpired htick =>
    obtain ⟨-, ⟨-, -, hexp⟩, -⟩ := hk
    rw [hexp] at hexpired
    exact absurd (hlive w.ticks h.ticks htick).2 (not_lt.mpr hexpired)
  | subject herr =>
    obtain ⟨rfl, -⟩ := hk
    cases herr.symm.trans hc.subject
  | user hok hinactive =>
    obtain ⟨rfl, -⟩ := hk
    have hid := Except.ok.inj (hok.symm.trans hc.subject)
    have := hinactive u (by rw [h.users]; exact hc.user) hid.symm
    simp [hc.active] at this
  | missing hgone =>
    obtain ⟨m₁, hm₁, hjti₁⟩ := h.present
    exact Table.get_eq_none.mp hgone m₁ hm₁ (hjti₁.trans hk.1.1.symm)
  | @commit _ src r _ hreason =>
    obtain ⟨⟨m', seen, rfl, ⟨hjti', -, -⟩, -⟩, huser, hupd, -, k, hfirst, hlt, hjti⟩ := hk
    obtain ⟨m₁, hm₁, hjti₁⟩ := h.present
    -- the commit fails for want of the record, a taken id, or want of the user
    rcases hreason with ⟨m₂, seen₂, hsrc, hgone⟩ | ⟨m₂, hm₂, htaken⟩ | hnouser
    · obtain ⟨rfl, -⟩ := Prod.mk.inj (Option.some.inj hsrc)
      exact Table.get_eq_none.mp hgone m₁ hm₁ (hjti₁.trans hjti'.symm)
    · -- before the token is spent the table has only ids drawn earlier
      have hunspent : ¬ Spent m w.db := by
        rintro ⟨m₃, hm₃, hjti₃, hrevoked⟩
        exact hrevoked (hguard rfl m₃ hm₃ (by rw [hjti₃]; exact hupd))
      rw [h.unspent hunspent] at hm₂
      exact hfresh.ne hlt hfirst (hw.jtis m₂ hm₂) (htaken.trans hjti)
    · exact huser hnouser

/-- A request that presents the token neither looks up an address nor changes a
password. -/
theorem Spending.request (h : Spending env requests t p m w₀ φ w tr) (hφ : φ sid ≠ .idle) :
    requests sid = some (.refreshToken ⟨t⟩) :=
  ((h.command sid).resolve_left fun hidle => hφ hidle.1).2

/-- The row of the record after a step is the row before it, possibly revoked. -/
theorem Spending.row_eq (h : Spending env requests t p m w₀ φ w tr)
    {q : RefreshTokenModel → Bool} {at' : Instant} {new : List RefreshTokenModel}
    (hrows : w.db.Extends w'.db q at' new) {m' : RefreshTokenModel}
    (hm' : m' ∈ w'.db.refreshTokens.rows) (hjti : m'.jti = m.jti) :
    ∃ m₁ ∈ w.db.refreshTokens.rows, m₁.jti = m.jti ∧ m' = m₁.revokeIf q at' := by
  obtain ⟨m₁, hm₁, hjti₁⟩ := h.present
  refine ⟨m₁, hm₁, hjti₁, w'.db.refreshTokens.eq_of_key_eq hm' (hrows.kept hm₁) ?_⟩
  rw [hjti, RefreshTokenModel.jti_revokeIf, hjti₁]

/-- The part of the invariant that every step keeps, and what is left to show. -/
theorem Spending.frame (h : Spending env requests t p m w₀ φ w tr) (hg : Grounded requests φ w)
    (hact : Act env sid (requests sid) (φ sid) w o ans w' φ')
    (hunspent : ¬ Spent m w'.db → w'.db.refreshTokens = w.db.refreshTokens)
    (hspent : Spent m w'.db → (∃ sid', Function.update φ sid φ' sid' = .stored) ∧
      w'.db.refreshTokens.rows.length = w₀.db.refreshTokens.rows.length + 1)
    (hwinner : φ' = .stored → ∀ sid', φ sid' = .stored → sid' = sid)
    (hcovers : Spent m w.db →
      ∀ rows, Covers w.db m.familyId rows → Covers w'.db m.familyId rows)
    (hknows : Knows env p m w₀.ids w'
      (Called (⟨sid, o, ans⟩ :: tr) sid (Port.updatesRecord m.jti)) φ') :
    Spending env requests t p m w₀ (Function.update φ sid φ') w' (⟨sid, o, ans⟩ :: tr) := by
  obtain ⟨q, at', new, hrows, hnew⟩ := hact.rows
  obtain ⟨hticks, hids, hissued⟩ := hact.counters
  -- there is no password change under way, so the users stay
  have husers : w'.db.users = w.db.users := by
    rcases hact.users with heq | ⟨st, u, hp, x, hφ, -⟩
    · exact heq
    · obtain ⟨c, hc⟩ := hg.changes sid (u, hp) (by rw [hφ]; rfl)
      rw [h.request (by simp [hφ])] at hc
      cases hc
  have hmono : Spent m w.db → Spent m w'.db := fun hs => hs.extends hrows
  constructor
  case users => exact husers.trans h.users
  case issued => exact hissued h.issued
  case ticks => exact h.ticks.trans hticks
  case ids => exact h.ids.trans hids
  case spent => exact hspent
  case command =>
    intro sid'
    by_cases hsid : sid' = sid
    · subst hsid
      rw [Function.update_self]
      rcases h.command sid' with ⟨hidle, hnone⟩ | ⟨hφ, hsome⟩
      · rw [hidle, hnone] at hact
        cases hact with
        | quiet => exact .inl ⟨rfl, hnone⟩
        | refuse hr => cases hr
      · exact .inr ⟨mt hact.idle hφ, hsome⟩
    · rw [Function.update_of_ne hsid]
      exact h.command sid'
  case record =>
    intro m' hm' hjti
    obtain ⟨m₁, hm₁, hjti₁, rfl⟩ := h.row_eq hrows hm' hjti
    have hsame := h.record m₁ hm₁ hjti₁
    exact ⟨hjti, by rw [RefreshTokenModel.familyId_revokeIf, hsame.2.1],
      by rw [RefreshTokenModel.expiresAt_revokeIf, hsame.2.2]⟩
  case present =>
    obtain ⟨m₁, hm₁, hjti₁⟩ := h.present
    exact ⟨_, hrows.kept hm₁, by rw [RefreshTokenModel.jti_revokeIf, hjti₁]⟩
  case unspent =>
    intro hno
    exact (hunspent hno).trans (h.unspent (mt hmono hno))
  -- two in the phase `stored`: the one that has just stepped, and any other
  case winner =>
    intro i j hi hj
    by_cases hsi : i = sid <;> by_cases hsj : j = sid
    · rw [hsi, hsj]
    · subst hsi
      rw [Function.update_self] at hi
      rw [Function.update_of_ne hsj] at hj
      exact (hwinner hi j hj).symm
    · subst hsj
      rw [Function.update_self] at hj
      rw [Function.update_of_ne hsi] at hi
      exact hwinner hj i hi
    · rw [Function.update_of_ne hsi] at hi
      rw [Function.update_of_ne hsj] at hj
      exact h.winner i j hi hj
  case knows =>
    intro sid'
    by_cases hsid : sid' = sid
    · subst hsid
      rw [Function.update_self]
      exact hknows
    · rw [Function.update_of_ne hsid]
      exact (h.knows sid').mono (fun hs => ⟨hmono hs, hcovers hs⟩) husers hids
        fun hc => called_cons.mpr (.inr hc)

/-- A step that leaves the records as they are. -/
theorem Spending.still (h : Spending env requests t p m w₀ φ w tr) (hg : Grounded requests φ w)
    (hact : Act env sid (requests sid) (φ sid) w o ans w' φ')
    (hdb : w'.db.refreshTokens = w.db.refreshTokens) (hstored : φ' = .stored ↔ φ sid = .stored)
    (hknows : Knows env p m w₀.ids w'
      (Called (⟨sid, o, ans⟩ :: tr) sid (Port.updatesRecord m.jti)) φ') :
    Spending env requests t p m w₀ (Function.update φ sid φ') w' (⟨sid, o, ans⟩ :: tr) := by
  have hspent : Spent m w'.db → Spent m w.db := by
    unfold Spent
    rw [hdb]
    exact id
  refine h.frame hg hact (fun _ => hdb) (fun hs => ?_) (fun hφ sid' hsid' => ?_) (fun _ rows => ?_)
    hknows
  · obtain ⟨⟨sid', hsid'⟩, hlen⟩ := h.spent (hspent hs)
    refine ⟨⟨sid', ?_⟩, by rw [hdb, hlen]⟩
    by_cases hsid : sid' = sid
    · subst hsid
      rw [Function.update_self]
      exact hstored.mpr hsid'
    · rwa [Function.update_of_ne hsid]
  · exact h.winner sid' sid hsid' (hstored.mp hφ)
  · unfold Covers
    rw [hdb]
    exact id

/-- The commit of a rotation spends the token. -/
theorem Spending.store (h : Spending env requests t p m w₀ φ w tr) (hg : Grounded requests φ w)
    (hguard : NoStaleRotation tr w sid .commit) {src : Replaced} {r : RefreshTokenModel}
    {db : Database} {q : RefreshTokenModel → Bool} {at' : Instant} (hφ : φ sid = .adds src r)
    (hq : src.Revokes q) (hrows : w.db.Extends db q at' [r]) (husers : db.users = w.db.users) :
    Spending env requests t p m w₀ (Function.update φ sid .stored) { w.close sid with db }
      (⟨sid, .commit, .ok ()⟩ :: tr) := by
  have hact : Act env sid (requests sid) (φ sid) w .commit (.ok ()) { w.close sid with db }
      .stored := by
    rw [hφ]
    exact .store hq hrows husers
  have hk := h.knows sid
  rw [hφ] at hk
  obtain ⟨⟨m', seen, rfl, hsame, hseen⟩, -, hupd, -⟩ := hk
  have hunspent : ¬ Spent m w.db := by
    rintro ⟨m₃, hm₃, hjti₃, hrevoked⟩
    exact hrevoked (hguard rfl m₃ hm₃ (by rw [hjti₃]; exact hupd))
  -- the row was found unrevoked, so that it is written
  obtain rfl : q = Replaced.selects (some (m', seen)) := by
    refine hq.resolve_right fun hsame => hunspent (hseen ?_)
    obtain ⟨⟨m₂, hm₂⟩, -⟩ := hsame
    exact congrArg Prod.snd (Option.some.inj hm₂)
  have hspent : Spent m db := by
    obtain ⟨m₁, hm₁, hjti₁⟩ := h.present
    refine ⟨_, hrows.kept hm₁, (RefreshTokenModel.jti_revokeIf ..).trans hjti₁, fun hlive => ?_⟩
    have hnot := ((RefreshTokenModel.revokedAt_revokeIf _ _ _).mp hlive).2
    simp [Replaced.selects, hjti₁, hsame.1] at hnot
  refine h.frame hg hact (fun hno => absurd hspent hno) (fun _ =>
    ⟨⟨sid, Function.update_self ..⟩, ?_⟩)
    (fun _ sid' hsid' => ?_) (fun hs => absurd hs hunspent) hspent
  · have hlen : db.refreshTokens.rows.length = w.db.refreshTokens.rows.length + 1 := by
      rw [hrows]
      simp
    rw [← h.unspent hunspent]
    exact hlen
  · -- nobody has stored a successor before
    have hs := h.knows sid'
    rw [hsid'] at hs
    exact absurd hs hunspent

/-- The commit of a bulk revocation leaves the family dead. -/
theorem Spending.commit (h : Spending env requests t p m w₀ φ w tr) (hg : Grounded requests φ w)
    {st : Statement} {change : PasswordChange} {x : Except Exc Response}
    (hφ : φ sid = .swept st change x) :
    Spending env requests t p m w₀ (Function.update φ sid (.ended x))
      { w.close sid with db := change.apply (w.db.revokeRows st.rows st.at') }
      (⟨sid, .commit, .ok ()⟩ :: tr) := by
  have hact : Act env sid (requests sid) (φ sid) w .commit (.ok ())
      { w.close sid with db := change.apply (w.db.revokeRows st.rows st.at') } (.ended x) := by
    rw [hφ]
    exact .commit
  have hk := h.knows sid
  rw [hφ] at hk
  obtain ⟨hspent, hcovers, rfl⟩ := hk
  -- the rows that the revocation has selected are the unrevoked ones of the family
  have htokens : (change.apply (w.db.revokeRows st.rows st.at')).refreshTokens =
      (w.db.revokeRows st.rows st.at').refreshTokens := by
    rcases change with _ | ⟨u, hp⟩ <;> rfl
  have hrows : w.db.Extends (change.apply (w.db.revokeRows st.rows st.at'))
      (fun m => st.rows.contains m.jti) st.at' [] := by
    rw [Database.Extends, htokens]
    exact Database.Extends.of_revokeRows w.db st.rows st.at'
  have hspent' : Spent m (change.apply (w.db.revokeRows st.rows st.at')) := hspent.extends hrows
  have hdead : Covers (change.apply (w.db.revokeRows st.rows st.at')) m.familyId [] := by
    unfold Covers
    rw [htokens]
    exact hcovers.revokeRows st.at'
  refine h.frame hg hact (fun hno => absurd hspent' hno) (fun _ => ?_) (by simp)
    (fun _ rows hc => hc.extends hrows (by simp)) ⟨hspent', hdead, rfl⟩
  -- the successor was stored by another request
  obtain ⟨⟨sid', hsid'⟩, hlen⟩ := h.spent hspent
  refine ⟨⟨sid', ?_⟩, ?_⟩
  · rw [Function.update_of_ne]
    · exact hsid'
    · rintro rfl
      cases hφ.symm.trans hsid'
  · rw [← hlen, hrows, List.append_nil, List.length_map]

/-- **One step keeps the invariant**, when it meets the assumption. -/
theorem Spending.step (h : Spending env requests t p m w₀ φ w tr) (hg : Grounded requests φ w)
    (hw : Settled env w₀) (hc : RefreshChecks env w₀ t p m u)
    (hlive : ∀ n, w₀.ticks ≤ n → n < w'.ticks → LiveAt env t p m (env.clock n))
    (hfresh : env.NoRepeat w.ids) (hguard : NoStaleRotation tr w sid o)
    (hact : Act env sid (requests sid) (φ sid) w o ans w' φ') :
    Spending env requests t p m w₀ (Function.update φ sid φ') w' (⟨sid, o, ans⟩ :: tr) := by
  -- requests that present the token take the steps of a refresh only
  have hnot : ∀ e, ¬ Refusal env w w' (requests sid) (φ sid) o e := fun _ =>
    h.not_refused hw hc hlive hfresh hguard
  have hstill := h.still hg hact
  have hk := h.knows sid
  have hrequest : φ sid ≠ .idle → _ := h.request
  have hcalled : ∀ {x}, Called tr sid (Port.updatesRecord m.jti) →
      Called (⟨sid, o, x⟩ :: tr) sid (Port.updatesRecord m.jti) := fun hc =>
    called_cons.mpr (.inr hc)
  generalize hψ : φ sid = ψ at hact hnot hstill hk hrequest
  cases hact with
  | quiet _ hw =>
    refine hstill (by rw [hw.db]) Iff.rfl ?_
    refine hk.mono (fun hs => ?_) (by rw [hw.db]) hw.ids hcalled
    rw [hw.db]
    exact ⟨hs, fun _ => id⟩
  | refuse hr => exact absurd hr (hnot _)
  | forget hc' =>
    obtain ⟨t', hc'⟩ := hc'
    rw [hrequest (by simp)] at hc'
    cases hc'
  | @accept t' p' w hc' hdecode =>
    rw [hrequest (by simp)] at hc'
    obtain rfl : t' = t := by simpa [eq_comm] using hc'
    refine hstill rfl (by simp) ?_
    -- the token is live, so it was decoded to its payload
    rw [World.decode, if_pos h.issued] at hdecode
    exact Except.ok.inj (hdecode.symm.trans (hlive w.ticks h.ticks (Nat.lt_succ_self _)).1)
  | @find p' m' w _ hget =>
    obtain rfl : p' = p := hk
    -- what is read is the row of the record, possibly revoked by now
    obtain ⟨hm', hjti⟩ := Table.get_eq_some.mp hget
    have hjti' : m'.jti = m.jti := hjti.trans (Table.get_eq_some.mp hc.stored).2.symm
    refine hstill rfl (by simp) ⟨rfl, h.record m' hm' hjti', fun hrevoked => ?_⟩
    exact ⟨m', hm', hjti', hrevoked⟩
  | replay hc' hrevoked =>
    exact hstill rfl (by simp) ⟨hk.2.2 hrevoked, by rw [hk.2.1.2.1], rfl⟩
  | logout hc' =>
    rw [hrequest (by simp)] at hc'
    cases hc'
  | live => exact hstill rfl (by simp) ⟨hk.1, hk.2.1⟩
  | allow _ hu => exact hstill rfl (by simp) ⟨hk.2, hu⟩
  | @update m' m₁ at' u' w record hjti hget =>
    obtain ⟨hm₁, hjti₁⟩ := Table.get_eq_some.mp hget
    -- it was read once more to be revoked, and is spent if it was revoked then
    have hseen : m₁.revokedAt.isSome = true → Spent m w.db := fun hrevoked =>
      ⟨m₁, hm₁, hjti₁.trans hk.1.1, Option.isSome_iff_ne_none.mp hrevoked⟩
    refine hstill rfl (by simp)
      ⟨⟨m', _, rfl, hk.1, hseen⟩, hk.2, called_cons.mpr (.inl ⟨rfl, ?_⟩)⟩
    simp [Port.updatesRecord, hjti, hk.1.1]
  | lookup hc' =>
    rw [hrequest (by simp)] at hc'
    cases hc'
  | verify => exact hk.elim
  | load hc' =>
    rw [hrequest (by simp)] at hc'
    cases hc'
  | change => exact hk.elim
  | @draw src u' w =>
    refine hstill rfl (by simp) ⟨hk.1, hk.2.1, hcalled hk.2.2, w.ids, h.ids, ?_, rfl⟩
    exact Nat.lt_succ_self w.ids
  | issue =>
    obtain ⟨hsrc, hu, hupd, hdrawn⟩ := hk
    exact hstill rfl (by simp) ⟨hsrc, hu, hcalled hupd, hdrawn⟩
  | @add src u' jti w record hjti huser _ hfamily =>
    obtain ⟨⟨m', seen, hsrc, hsame, hseen⟩, hu, hupd, k, hfirst, hlt, hk⟩ := hk
    refine hstill rfl (by simp)
      ⟨⟨m', seen, hsrc, hsame, hseen⟩, ?_, hcalled hupd, ?_, k, hfirst, hlt, ?_⟩
    · have hid : (RefreshTokenMapper.toModel record).userId = (UserMapper.toModel u').id :=
        congrArg UserId.value huser
      rw [hid, Table.get_key hu]
      simp
    · exact (hfamily m' seen hsrc).trans hsame.2.1
    · exact hjti.trans hk
  -- here the successor is stored
  | store hq hrows husers => exact h.store hg hguard hψ hq hrows husers
  | access hdb _ _ hids =>
    refine hstill (by rw [hdb]) (by simp) ?_
    change Spent m _
    rw [hdb]
    exact hk
  | @sweep scope at' change x w st _ hst =>
    obtain ⟨hspent, rfl, rfl⟩ := hk
    refine hstill rfl (by simp) ⟨hspent, ?_, rfl⟩
    rw [hst]
    exact covers_selected w.db m.familyId
  | commit => exact h.commit hg hψ

end step

/-! ### One winner -/

section winner

variable {env : Env} {requests : ℕ → Option Command} {t : Token} {p : TokenPayload}
  {m : RefreshTokenModel} {u : User} {w : World}

theorem Spending.initial (hc : RefreshChecks env w t p m u)
    (hreq : ∀ sid c, requests sid = some c → c = .refreshToken ⟨t⟩) :
    Spending env requests t p m w (fun sid => .start (requests sid)) w [] := by
  obtain ⟨hm, hjti⟩ := Table.get_eq_some.mp hc.stored
  have hrow : ∀ m' ∈ w.db.refreshTokens.rows, m'.jti = m.jti → m' = m := fun m' hm' hjti' =>
    w.db.refreshTokens.eq_of_key_eq hm' hm hjti'
  have hunspent : ¬ Spent m w.db := by
    rintro ⟨m', hm', hjti', hrevoked⟩
    rw [hrow m' hm' hjti'] at hrevoked
    exact hrevoked hc.live
  -- nobody has begun, and the record is unrevoked
  have hphase : ∀ sid, requests sid = none ∧ Phase.start (requests sid) = .idle ∨
      requests sid = some (.refreshToken ⟨t⟩) ∧ Phase.start (requests sid) = .begun := by
    intro sid
    rcases hcmd : requests sid with _ | c
    · exact .inl ⟨rfl, rfl⟩
    · obtain rfl := hreq sid c hcmd
      exact .inr ⟨rfl, rfl⟩
  refine ⟨fun sid => ?_, rfl, ?_, le_rfl, le_rfl, ?_, ⟨m, hm, rfl⟩, fun _ => rfl,
    fun hs => absurd hs hunspent, fun i j hi => ?_, fun sid => ?_⟩
  · rcases hphase sid with ⟨hnone, hφ⟩ | ⟨hsome, hφ⟩
    · exact .inl ⟨hφ, hnone⟩
    · exact .inr ⟨by simp [hφ], hsome⟩
  · have hdecoded := hc.decoded
    unfold World.decode at hdecoded
    split at hdecoded
    · assumption
    · cases hdecoded
  · intro m' hm' hjti'
    rw [hrow m' hm' hjti']
    exact ⟨rfl, rfl, rfl⟩
  · rcases hphase i with ⟨-, hφ⟩ | ⟨-, hφ⟩ <;> rw [hφ] at hi <;> cases hi
  · rcases hphase sid with ⟨-, hφ⟩ | ⟨-, hφ⟩ <;> rw [hφ] <;> trivial

/-- A request that has come to its end is idle, has stored a successor, or was refused. -/
theorem Knows.of_outcome {first : ℕ} {w' : World} {upd : Prop} {ψ : Phase}
    {x : Except Exc Response} (hk : Knows env p m first w' upd ψ) (ho : ψ.Outcome x) :
    ψ = .idle ∧ x = .ok .none ∨ ψ = .stored ∧ Spent m w'.db ∧ (∃ q, x = .ok (.tokenPair q)) ∨
      ψ ≠ .idle ∧ ψ ≠ .stored ∧ Spent m w'.db ∧ Covers w'.db m.familyId [] ∧
        x = .error (.domain .invalidToken) := by
  cases ψ with
  | idle => exact .inl ⟨rfl, ho⟩
  | stored => exact .inr (.inl ⟨rfl, hk, ho⟩)
  | ended y =>
    obtain ⟨hspent, hcovers, rfl⟩ := hk
    exact .inr (.inr ⟨by simp, by simp, hspent, hcovers, ho⟩)
  | _ => exact ho.elim

/-- The phases of the requests decide their outcomes. -/
theorem Spending.spentOnce {φ : ℕ → Phase}
    {cfg : Config ℕ Port Port.Ret Exc Response Session World}
    (h : Spending env requests t p m w φ cfg.shared cfg.trace)
    (hout : ∀ i x, (cfg.threads i).result = some x → (φ i).Outcome x) :
    SpentOnce requests w m cfg := by
  have hends := fun i x hx => (h.knows i).of_outcome (hout i x hx)
  have hpair : ∀ i q, (cfg.threads i).result = some (.ok (.tokenPair q)) → φ i = .stored := by
    intro i q hq
    rcases hends i _ hq with ⟨-, hx⟩ | ⟨hφ, -⟩ | ⟨-, -, -, -, hx⟩
    · cases hx
    · exact hφ
    · cases hx
  have hidle : ∀ i, φ i = .idle → requests i = none := fun i hi =>
    ((h.command i).resolve_right fun hsome => hsome.1 hi).2
  constructor
  case winner => exact fun i j q q' hi hj => h.winner i j (hpair i q hi) (hpair j q' hj)
  case successor =>
    by_cases hs : Spent m cfg.shared.db
    · exact (h.spent hs).2.le
    · rw [h.unspent hs]
      exact Nat.le_succ _
  case loser =>
    intro i e he
    rcases hends i _ he with ⟨-, hx⟩ | ⟨-, -, q, hx⟩ | ⟨-, -, -, -, hx⟩
    · cases hx
    · cases hx
    · exact Except.error.inj hx
  case dead =>
    intro i j hij hi hj hresi hresj
    -- one of the two was refused, and has revoked the family
    have hended : ∀ k, requests k ≠ none → (cfg.threads k).result ≠ none → φ k ≠ .stored →
        Covers cfg.shared.db m.familyId [] := by
      intro k hk hres hnot
      obtain ⟨x, hx⟩ := Option.ne_none_iff_exists'.mp hres
      rcases hends k x hx with ⟨hφ, -⟩ | ⟨hφ, -⟩ | ⟨-, -, -, hcovers, -⟩
      · exact absurd (hidle k hφ) hk
      · exact absurd hφ hnot
      · exact hcovers
    have hdead : Covers cfg.shared.db m.familyId [] := by
      by_cases hφ : φ i = .stored
      · exact hended j hj hresj fun hφ' => hij (h.winner i j hφ hφ')
      · exact hended i hi hresi hφ
    intro m' hm' hf hlive
    exact absurd (hdead m' hm' hf hlive) (by simp)
  case done =>
    rintro ⟨i, hi⟩ hall
    -- whoever was refused has seen the token spent, by a request that stored a successor
    have hspent : Spent m cfg.shared.db := by
      obtain ⟨x, hx⟩ := Option.ne_none_iff_exists'.mp (hall i)
      rcases hends i x hx with ⟨hφ, -⟩ | ⟨-, hspent, -⟩ | ⟨-, -, hspent, -⟩
      · exact absurd (hidle i hφ) hi
      · exact hspent
      · exact hspent
    obtain ⟨k, hk⟩ := (h.spent hspent).1
    obtain ⟨x, hx⟩ := Option.ne_none_iff_exists'.mp (hall k)
    rcases hends k x hx with ⟨hφ, -⟩ | ⟨-, -, q, rfl⟩ | ⟨-, hnot, -⟩
    · cases hk.symm.trans hφ
    · exact ⟨k, q, hx⟩
    · exact absurd hk hnot

/-- **A live refresh token is spent once** by any number of requests that present
it side by side, in every run in which no request commits the rotation of a record
that is revoked by then. -/
theorem token_is_spent_once (hw : Settled env w) (hc : RefreshChecks env w t p m u)
    (hreq : ∀ sid c, requests sid = some c → c = .refreshToken ⟨t⟩)
    {cfg : Config ℕ Port Port.Ret Exc Response Session World}
    (hreach : Reach (system env) NoStaleRotation (start requests w) cfg)
    (hlive : ∀ n, w.ticks ≤ n → n < cfg.shared.ticks → LiveAt env t p m (env.clock n))
    (hfresh : env.NoRepeat cfg.shared.ids) : SpentOnce requests w m cfg := by
  have hone : OneChange requests := by
    intro i j c c' hi
    cases hreq i _ hi
  have hsession : ∀ sid c, requests sid = some c → c.IsSession := by
    intro sid c hsome
    rw [hreq sid c hsome]
    trivial
  -- by induction on the run, over the protocol of the refreshes
  obtain ⟨φ, ⟨-, hinv⟩, hsim⟩ := hreach.abstract (fun φ w' tr => Grounded requests φ w' ∧
      ((∀ n, w.ticks ≤ n → n < w'.ticks → LiveAt env t p m (env.clock n)) → env.NoRepeat w'.ids →
        Spending env requests t p m w φ w' tr))
    (sim_command hsession w) ⟨.start hw, fun _ _ => .initial hc hreq⟩ (fun φ w tr h => h.1.rely)
    (by
      rintro φ w₁ tr sid o ans w₂ φ' ⟨hg, hinv⟩ hguard hact
      obtain ⟨hticks, hids, -⟩ := Act.counters hact
      refine ⟨hg.step hone hact, fun hlive hfresh => ?_⟩
      have hbefore : env.NoRepeat w₁.ids := fun i hi j hj =>
        hfresh i (hi.trans_le hids) j (hj.trans_le hids)
      have hs := hinv (fun n hn hlt => hlive n hn (hlt.trans_le hticks)) hbefore
      exact hs.step hg hw hc hlive hbefore hguard hact)
  exact (hinv hlive hfresh).spentOnce fun i x hx => (hsim i).final hx

end winner

end reuse

/-! ### Two refreshes of one token -/

section sample

attribute [local instance] asciiUnicode

/-- The sample token is presented to refresh twice. -/
def refreshTwice : ℕ → Option Command
  | 0 | 1 => some (.refreshToken ⟨sampleToken⟩)
  | _ => none

/-- The payload of the sample token. -/
def samplePayload : TokenPayload :=
  { subject := (UserId.mk (sampleEnv.uuid 0)).str, tokenType := .refresh,
    tokenId := sampleEnv.uuid 1 }

/-- The record of the sample token. -/
def sampleRecord : RefreshTokenModel :=
  sampleEnv.record 1 (sampleEnv.uuid 0) (sampleEnv.uuid 1) (sampleEnv.uuid 2)

theorem refreshChecks_sample :
    ∃ u, RefreshChecks sampleEnv loggedInWorld sampleToken samplePayload sampleRecord u := by
  have hrow : ∃ um ∈ loggedInWorld.db.users.rows, um.id = sampleEnv.uuid 0 ∧
      um.isActive = true := by
    decide
  obtain ⟨um, hum, hid, hactive⟩ := hrow
  obtain ⟨u, rfl⟩ := run_sampleHistory.settled.readable um hum
  refine ⟨u, ⟨⟨by decide, rfl, by decide⟩, rfl, by decide, ?_, hum, hactive⟩⟩
  have hu : u.id = ⟨sampleEnv.uuid 0⟩ := UserId.ext hid
  rw [hu]
  exact UserId.fromStr_str _

/-- The second refresh starts when the first has come to its end. -/
def refreshedInTurn : Config ℕ Port Port.Ret Exc Response Session World :=
  (start refreshTwice loggedInWorld).schedule (system sampleEnv)
    (List.replicate 11 0 ++ List.replicate 5 1)

/-- There the token was spent once, and the family is dead. -/
theorem token_is_spent_once_sample :
    SpentOnce refreshTwice loggedInWorld sampleRecord refreshedInTurn := by
  obtain ⟨u, hc⟩ := refreshChecks_sample
  have hreach : Reach (system sampleEnv) NoStaleRotation (start refreshTwice loggedInWorld)
      refreshedInTurn := reach_schedule _ .refl (by decide +kernel)
  have hreq : ∀ sid c, refreshTwice sid = some c → c = .refreshToken ⟨sampleToken⟩ := by
    intro sid c hcmd
    unfold refreshTwice at hcmd
    split at hcmd <;> cases hcmd <;> rfl
  have hticks : refreshedInTurn.shared.ticks = 9 := by decide +kernel
  refine token_is_spent_once run_sampleHistory.settled hc hreq hreach (fun n hn hlt => ?_)
    (by decide +kernel)
  rw [hticks] at hlt
  have hmin : 3 ≤ n := hn
  interval_cases n <;> exact ⟨by decide, by decide⟩

/-- **A token is spent twice**: both refreshes read the record before either
commits, and each returns a pair of tokens and stores an unrevoked successor. -/
theorem token_is_spent_twice :
    ∃ cfg, Reach (system sampleEnv) anyCall (start refreshTwice loggedInWorld) cfg ∧
      (∃ p, (cfg.threads 0).result = some (.ok (.tokenPair p))) ∧
      (∃ q, (cfg.threads 1).result = some (.ok (.tokenPair q))) ∧
      (cfg.shared.db.refreshTokens.rows.filter fun m => m.revokedAt = none).length = 2 :=
  ⟨_, reach_schedule ([0, 0, 1, 1] ++ List.replicate 9 0 ++ List.replicate 9 1) .refl
    (by decide +kernel), ⟨_, rfl⟩, ⟨_, rfl⟩, by decide +kernel⟩

end sample

end FastapiStarter
