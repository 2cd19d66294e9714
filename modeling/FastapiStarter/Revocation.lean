import FastapiStarter.History
import FastapiStarter.Protocol
import FastapiStarter.Traces

/-!
# Killing a family, under concurrency

`revoke_family` revokes the records that exist when its statement runs.  A refresh
that has read its record before can still commit a successor afterwards, which is
then an unrevoked record of a family that was killed.  Where no refresh commits
into a family whose revocation has been executed, killing it is final.

## Main definitions

* `Killed` — a revocation of the family was committed.
* `NoRotationAfterRevocation` — the assumption on the runs.

## Main results

* `killed_family_stays_revoked` — **under the assumption, killing is final.**
* `killed_family_revives` — a run, without it, in which a killed family revives.
-/

namespace FastapiStarter

open Interaction Relational

/-! ### Revocations in a run -/

section revocation

variable [Unicode]

/-- The call executes `revoke_family` on the family. -/
def Port.revokesFamily (f : UUID) : Port → Bool
  | .refreshTokensRevokeFamily f' _ => f' = f
  | _ => false

/-- The call adds a record of the family. -/
def Port.addsToFamily (f : UUID) : Port → Bool
  | .refreshTokensAdd record => record.familyId = f
  | _ => false

/-- A request has committed its `revoke_family` of the family. -/
def Killed (f : UUID) : Trace → Prop
  | [] => False
  | ev :: tr => (IsCommit ev = true ∧ Called tr ev.who (Port.revokesFamily f)) ∨ Killed f tr

instance Killed.decidable (f : UUID) : ∀ tr : Trace, Decidable (Killed f tr)
  | [] => .isFalse id
  | _ :: tr =>
    have := Killed.decidable f tr
    inferInstanceAs (Decidable ((_ ∧ _) ∨ Killed f tr))

/-- No request commits a record into a family of which a `revoke_family` has been
executed. -/
def NoRotationAfterRevocation (f : UUID) : Guard ℕ Port Port.Ret Exc World := fun tr _ sid o =>
  o = .commit → Called tr sid (Port.addsToFamily f) → ∀ ev ∈ tr, ev.op.revokesFamily f = false

instance (f : UUID) (tr : Trace) (w : World) (sid : ℕ) (o : Port) :
    Decidable (NoRotationAfterRevocation f tr w sid o) :=
  inferInstanceAs (Decidable (o = .commit → _ → _))

/-! ### The invariant -/

/-- Every unrevoked record of the family is among these rows. -/
def Covers (db : Database) (f : UUID) (rows : List UUID) : Prop :=
  ∀ m ∈ db.refreshTokens.rows, m.familyId = f → m.revokedAt = none → m.jti ∈ rows

/-- What holds of a family throughout a run that meets the assumption. -/
structure Revocation (requests : ℕ → Option Command) (f : UUID) (φ : ℕ → Phase) (w : World)
    (tr : Trace) : Prop where
  grounded : Grounded requests φ w
  /-- A record that will be committed was added. -/
  added : ∀ sid src r, φ sid = .adds src r → Called tr sid (Port.addsToFamily r.familyId)
  /-- A revocation that is not committed yet covers the family. -/
  open' : ∀ sid, Called tr sid (Port.revokesFamily f) →
    (∃ st change x, φ sid = .swept st change x ∧ Covers w.db f st.rows) ∨ ∃ x, φ sid = .ended x
  /-- A killed family has no unrevoked record. -/
  dead : Killed f tr → Covers w.db f []

section step

variable {env : Env} {requests : ℕ → Option Command} {f : UUID} {φ : ℕ → Phase} {w w' : World}
  {tr : Trace} {sid : ℕ} {o : Port} {ans : Except Exc o.Ret} {ψ φ' : Phase}

omit [Unicode] in
/-- Revoking records, and adding records of other families, covers no less. -/
theorem Covers.extends {db db' : Database} {rows : List UUID} {p : RefreshTokenModel → Bool}
    {at' : Instant} {new : List RefreshTokenModel} (h : Covers db f rows)
    (hrows : db.Extends db' p at' new) (hnew : ∀ r ∈ new, r.familyId ≠ f) : Covers db' f rows := by
  intro m hm hf hlive
  rcases hrows.mem_iff.mp hm with ⟨m₀, hm₀, rfl⟩ | hm
  · rw [RefreshTokenModel.jti_revokeIf]
    rw [RefreshTokenModel.familyId_revokeIf] at hf
    exact h m₀ hm₀ hf ((RefreshTokenModel.revokedAt_revokeIf _ _ _).mp hlive).1
  · exact absurd hf (hnew m hm)

omit [Unicode] in
theorem covers_selected (db : Database) (f : UUID) : Covers db f (db.selected (.family f)) := by
  intro m hm hf hlive
  rw [Database.mem_selected _ hm]
  simp [Scope.selects, hf, hlive]

omit [Unicode] in
/-- Revoking what covers the family leaves nothing. -/
theorem Covers.revokeRows {db : Database} {rows : List UUID} (h : Covers db f rows)
    (at' : Instant) : Covers (db.revokeRows rows at') f [] := by
  intro m hm hf hlive
  rcases (Database.Extends.of_revokeRows db rows at').mem_iff.mp hm with ⟨m₀, hm₀, rfl⟩ | hm
  · rw [RefreshTokenModel.familyId_revokeIf] at hf
    obtain ⟨hlive₀, hnot⟩ := (RefreshTokenModel.revokedAt_revokeIf _ _ _).mp hlive
    simp [h m₀ hm₀ hf hlive₀] at hnot
  · cases hm

/-- A request that has executed a revocation is in no other phase. -/
theorem Revocation.not_called (h : Revocation requests f φ w tr)
    (hswept : ∀ st change x, φ sid ≠ .swept st change x) (hended : ∀ x, φ sid ≠ .ended x) :
    ¬ Called tr sid (Port.revokesFamily f) := by
  intro hcalled
  rcases h.open' sid hcalled with ⟨st, change, x, hφ, -⟩ | ⟨x, hφ⟩
  · exact hswept _ _ _ hφ
  · exact hended _ hφ

theorem not_called_of_untouched (hno : ∀ ev ∈ tr, ev.op.revokesFamily f = false) (sid : ℕ) :
    ¬ Called tr sid (Port.revokesFamily f) := by
  rintro ⟨ev, hev, -, hop⟩
  simp [hno ev hev] at hop

/-- A family of which no revocation was executed was not killed. -/
theorem not_killed_of_untouched (hno : ∀ ev ∈ tr, ev.op.revokesFamily f = false) :
    ¬ Killed f tr := by
  induction tr with
  | nil => exact id
  | cons ev tr ih =>
    have hrest : ∀ ev ∈ tr, ev.op.revokesFamily f = false := fun ev hev =>
      hno ev (List.mem_cons_of_mem _ hev)
    rintro (⟨-, hc⟩ | hkilled)
    · exact not_called_of_untouched hrest _ hc
    · exact ih hrest hkilled

/-- What a request will commit was added, also after one step more. -/
theorem Revocation.added_cons (h : Revocation requests f φ w tr) (hψ : φ sid = ψ)
    (hadd : ∀ src r, φ' = .adds src r → ψ = .adds src r ∨ o.addsToFamily r.familyId = true)
    {sid' : ℕ} {src : Replaced} {r : RefreshTokenModel}
    (hφ : Function.update φ sid φ' sid' = .adds src r) :
    Called (⟨sid, o, ans⟩ :: tr) sid' (Port.addsToFamily r.familyId) := by
  rw [called_cons]
  by_cases hsid : sid' = sid
  · subst hsid
    rw [Function.update_self] at hφ
    rcases hadd src r hφ with hold | hnow
    · exact .inr (h.added _ _ _ (hψ.trans hold))
    · exact .inl ⟨rfl, hnow⟩
  · rw [Function.update_of_ne hsid] at hφ
    exact .inr (h.added _ _ _ hφ)

/-- A step that commits nothing of the family, and executes no revocation of it. -/
theorem Revocation.frame (h : Revocation requests f φ w tr) (hψ : φ sid = ψ)
    (hgrounded : Grounded requests (Function.update φ sid φ') w')
    (hact : Act env sid (requests sid) ψ w o ans w' φ')
    (hstore : ∀ src r, ψ = .adds src r → φ' = .stored → r.familyId ≠ f)
    (hop : o.revokesFamily f = false)
    (hphase : Called tr sid (Port.revokesFamily f) → φ' = ψ ∨ ∃ x, φ' = .ended x)
    (hcommit : IsCommit ⟨sid, o, ans⟩ = true → Called tr sid (Port.revokesFamily f) →
      Covers w'.db f [])
    (hadd : ∀ src r, φ' = .adds src r → ψ = .adds src r ∨ o.addsToFamily r.familyId = true) :
    Revocation requests f (Function.update φ sid φ') w' (⟨sid, o, ans⟩ :: tr) := by
  obtain ⟨p, at', new, hext, hnew⟩ := hact.rows
  have hother : ∀ r ∈ new, r.familyId ≠ f := by
    intro r hr
    obtain ⟨src, hadds, hstored, -⟩ := hnew r hr
    exact hstore src r hadds hstored
  -- whoever has revoked the family has still to commit, or has ended
  refine ⟨hgrounded, fun _ _ _ => h.added_cons hψ hadd, fun sid' hcalled => ?_, fun hkilled => ?_⟩
  · simp only [called_cons, hop, Bool.false_eq_true, and_false, false_or] at hcalled
    have hold : (∃ st change x, φ sid' = .swept st change x ∧ Covers w'.db f st.rows) ∨
        ∃ x, φ sid' = .ended x := by
      rcases h.open' sid' hcalled with ⟨st, change, x, hφ, hcovers⟩ | hended
      · exact .inl ⟨st, change, x, hφ, hcovers.extends hext hother⟩
      · exact .inr hended
    by_cases hsid : sid' = sid
    · subst hsid
      rw [Function.update_self]
      rcases hphase hcalled with heq | hended
      · rwa [heq, ← hψ]
      · exact .inr hended
    · rwa [Function.update_of_ne hsid]
  · rcases hkilled with ⟨hcommitted, hcalled⟩ | hkilled
    · exact hcommit hcommitted hcalled
    · exact (h.dead hkilled).extends hext hother

/-- **One step keeps the invariant**, when it meets the assumption. -/
theorem Revocation.step (h : Revocation requests f φ w tr) (hone : OneChange requests)
    (hguard : NoRotationAfterRevocation f tr w sid o)
    (hact : Act env sid (requests sid) (φ sid) w o ans w' φ') :
    Revocation requests f (Function.update φ sid φ') w' (⟨sid, o, ans⟩ :: tr) := by
  have hgrounded := h.grounded.step hone hact
  generalize hψ : φ sid = ψ at hact
  have hnot : (∀ st change x, ψ ≠ .swept st change x) → (∀ x, ψ ≠ .ended x) →
      ¬ Called tr sid (Port.revokesFamily f) := hψ ▸ h.not_called
  have hframe := h.frame hψ hgrounded hact
  -- only three steps matter: adding a record, committing it, and the revocation itself
  cases hact with
  | @quiet _ _ _ o r ho hw =>
    refine hframe ?_ ?_ (fun _ => .inl rfl) ?_ fun src r hφ => .inl hφ
    · rintro src r rfl hφ
      cases hφ
    · cases o <;> first | rfl | cases ho
    · intro hcommit
      obtain ⟨rfl, -⟩ := op_of_isCommit hcommit
      cases ho
  | @refuse _ _ _ o _ _ hr hw ho hans =>
    refine hframe (by simp) ?_ (fun _ => .inr ⟨_, rfl⟩) ?_ (by simp)
    · cases o <;> first | rfl | cases ho
    · intro hcommit
      obtain ⟨rfl, hok⟩ := op_of_isCommit hcommit
      obtain ⟨e, rfl⟩ := hans rfl
      exact absurd rfl (hok e)
  | add =>
    refine hframe (by simp) rfl (fun hc => absurd hc (hnot (by simp) (by simp)))
      (by simp [IsCommit])
      ?_
    rintro src r ⟨⟩
    exact .inr (by simp [Port.addsToFamily, RefreshTokenMapper.toModel])
  | @store src r w db hrows husers =>
    have hopen := hnot (by simp) (by simp)
    by_cases hr : r.familyId = f
    · -- committed into this family: no revocation of it was executed so far
      have hno := hguard rfl (hr ▸ h.added sid src r hψ)
      have hno' : ∀ ev ∈ ⟨sid, .commit, .ok ()⟩ :: tr, ev.op.revokesFamily f = false := by
        simpa [Port.revokesFamily] using hno
      exact ⟨hgrounded, fun _ _ _ => h.added_cons hψ (by simp),
        fun sid' hc => absurd hc (not_called_of_untouched hno' sid'),
        fun hkilled => absurd hkilled (not_killed_of_untouched hno')⟩
    · refine hframe ?_ rfl (fun hc => absurd hc hopen) (fun _ hc => absurd hc hopen) (by simp)
      rintro src' r' ⟨⟩ -
      exact hr
  | @sweep scope at' change x w st _ hst =>
    have hopen := hnot (by simp) (by simp)
    by_cases hscope : scope = .family f
    · subst hscope
      refine ⟨hgrounded, fun _ _ _ => h.added_cons hψ (by simp), fun sid' hcalled => ?_,
        fun hkilled => ?_⟩
      · by_cases hsid : sid' = sid
        · subst hsid
          -- the revocation of this family, by this very request
          refine .inl ⟨st, change, x, Function.update_self .., ?_⟩
          rw [hst]
          exact covers_selected w.db f
        · rw [Function.update_of_ne hsid]
          rw [called_cons] at hcalled
          exact h.open' sid' (hcalled.resolve_left fun hc => hsid hc.1.symm)
      · exact h.dead (hkilled.resolve_left fun hc => hopen hc.2)
    · refine hframe (by simp) ?_ (fun hc => absurd hc hopen) ?_ (by simp)
      · cases scope with
        | family f' => simpa [Port.revokesFamily, Scope.port] using hscope
        | user u => rfl
      · exact fun _ hc => absurd hc hopen
  | @commit st change x w =>
    refine hframe (by simp) rfl (fun _ => .inr ⟨x, rfl⟩) (fun _ hc => ?_) (by simp)
    -- the commit of the revocation: what it had selected is revoked now
    rcases h.open' sid hc with ⟨st', change', x', hφ, hcovers⟩ | ⟨x', hφ⟩
    · obtain ⟨rfl, -, -⟩ := Phase.swept.inj (hψ.symm.trans hφ)
      have hdead := hcovers.revokeRows st.at'
      rcases change with _ | ⟨u, hp⟩ <;> exact hdead
    · cases hψ.symm.trans hφ
  | _ =>
    exact hframe (by simp) rfl (fun hc => absurd hc (hnot (by simp) (by simp))) (by simp [IsCommit])
      (by simp)

end step

/-! ### Finality -/

section final

variable {env : Env} {requests : ℕ → Option Command} {f : UUID} {w : World}

theorem revocation_of_reach (hw : Settled env w)
    (hreq : ∀ sid c, requests sid = some c → c.IsSession) (hone : OneChange requests)
    {cfg : Config ℕ Port Port.Ret Exc Response Session World}
    (hreach : Reach (system env) (NoRotationAfterRevocation f) (start requests w) cfg) :
    ∃ φ, Revocation requests f φ cfg.shared cfg.trace := by
  have hinit : Revocation requests f (fun sid => .start (requests sid)) w [] := by
    refine ⟨.start hw, fun sid src r hφ => ?_, by simp, False.elim⟩
    unfold Phase.start at hφ
    repeat' split at hφ
    all_goals cases hφ
  obtain ⟨φ, hinv, -⟩ := hreach.abstract (fun φ w tr => Revocation requests f φ w tr)
    (sim_command hreq w) hinit (fun φ w tr h => h.grounded.rely)
    fun φ w tr sid o ans w' φ' h hguard hact => h.step hone hguard hact
  exact ⟨φ, hinv⟩

/-- **Killing a family is final** in every run of refreshes and logouts, side by
side, in which no refresh commits into a family whose revocation has been
executed. -/
theorem killed_family_stays_revoked (hw : Settled env w)
    (hreq : ∀ sid c, requests sid = some c → ∃ t, c = .refreshToken ⟨t⟩ ∨ c = .logout ⟨t⟩)
    {cfg : Config ℕ Port Port.Ret Exc Response Session World}
    (hreach : Reach (system env) (NoRotationAfterRevocation f) (start requests w) cfg)
    (hkilled : Killed f cfg.trace) :
    ∀ m ∈ cfg.shared.db.refreshTokens.rows, m.familyId = f → m.revokedAt ≠ none := by
  have hsession : ∀ sid c, requests sid = some c → c.IsSession := by
    intro sid c hc
    obtain ⟨t, rfl | rfl⟩ := hreq sid c hc <;> trivial
  have hone : OneChange requests := by
    intro i j c c' hc
    obtain ⟨t, h | h⟩ := hreq i _ hc <;> cases h
  obtain ⟨φ, hinv⟩ := revocation_of_reach hw hsession hone hreach
  intro m hm hf hlive
  exact absurd (hinv.dead hkilled m hm hf hlive) (by simp)

end final

end revocation

/-! ### A refresh and a logout of one token -/

section sample

attribute [local instance] asciiUnicode

/-- The sample token is presented to refresh by request 0, and to logout by request 1. -/
def refreshAndLogout : ℕ → Option Command
  | 0 => some (.refreshToken ⟨sampleToken⟩)
  | 1 => some (.logout ⟨sampleToken⟩)
  | _ => none

/-- The refresh has read the record, and the logout has come to its end. -/
def loggedOutConfig : Config ℕ Port Port.Ret Exc Response Session World :=
  (start refreshAndLogout loggedInWorld).schedule (system sampleEnv) [0, 0, 1, 1, 1, 1, 1]

/-- The family of the sample token is killed there, and has a record. -/
theorem killed_family_stays_revoked_sample :
    (∀ m ∈ loggedOutConfig.shared.db.refreshTokens.rows,
      m.familyId = sampleEnv.uuid 2 → m.revokedAt ≠ none) ∧
    ∃ m ∈ loggedOutConfig.shared.db.refreshTokens.rows, m.familyId = sampleEnv.uuid 2 := by
  have hreach : Reach (system sampleEnv) (NoRotationAfterRevocation (sampleEnv.uuid 2))
      (start refreshAndLogout loggedInWorld) loggedOutConfig :=
    reach_schedule _ .refl (by decide +kernel)
  have hreq : ∀ sid c, refreshAndLogout sid = some c →
      ∃ t, c = .refreshToken ⟨t⟩ ∨ c = .logout ⟨t⟩ := by
    intro sid c hc
    unfold refreshAndLogout at hc
    split at hc <;> cases hc
    · exact ⟨_, .inl rfl⟩
    · exact ⟨_, .inr rfl⟩
  exact ⟨killed_family_stays_revoked run_sampleHistory.settled hreq hreach (by decide +kernel),
    by decide +kernel⟩

/-- **A killed family revives**: a refresh reads the record, a logout revokes the
family and commits, and the refresh commits a successor that nothing revokes. -/
theorem killed_family_revives :
    ∃ cfg, Reach (system sampleEnv) anyCall (start refreshAndLogout loggedInWorld) cfg ∧
      Killed (sampleEnv.uuid 2) cfg.trace ∧
      ∃ m ∈ cfg.shared.db.refreshTokens.rows, m.familyId = sampleEnv.uuid 2 ∧ m.revokedAt = none :=
  ⟨_, reach_schedule [0, 0, 1, 1, 1, 1, 1, 0, 0, 0, 0, 0, 0, 0, 0] .refl (by decide +kernel),
    by decide +kernel, by decide +kernel⟩

end sample

end FastapiStarter
