import FastapiStarter.Lib.Pool

/-!
# Disciplines

A discipline is a state that goes along with a program: which calls it may make in that
state, where an answer leads, and where it may end.  Whether a program follows it is seen
from the program alone, one call at a time; what the calls do to the world is not asked.

In a pool every program has a discipline of its own.  An invariant of the pool may then
speak of the states of all programs: it has to survive the calls that are allowed.

## Main definitions

* `Discipline` — the states, the calls, and what may be raised.
* `Discipline.Leads` — a program that keeps to a discipline, and where it leads.
* `Discipline.Follows` — one that leads to where it may end.
* `Discipline.sum` — two disciplines at once.

## Main results

* `Reach.leads`, `Reach.follows` — **an invariant that every call which is allowed keeps**,
  with the local states and those of the disciplines, holds in every reachable
  configuration.
* `Reach.leads_own` — one program whose calls cannot fail.
* `Discipline.Leads.fails`, `Discipline.Leads.returns` — a program that has ended was
  allowed to, or led there.
-/

namespace Interaction

/-- A discipline, with states `G`. -/
structure Discipline (G Op : Type) (Ret : Op → Type) (ε : Type) where
  /-- The calls that are allowed in a state. -/
  Calls : G → Op → Prop
  /-- The answers that are relied on, in a state. -/
  Answers : G → (o : Op) → Ret o → Prop
  /-- The state after an answer. -/
  next : G → (o : Op) → Ret o → G
  /-- The states in which a program may end. -/
  Ends : G → Prop
  /-- The exceptions that a program may end with, in a state. -/
  Raises : G → ε → Prop

namespace Discipline

variable {G Op : Type} {Ret : Op → Type} {ε α β : Type} (D : Discipline G Op Ret ε)

/-- The program keeps to the discipline until it returns, with a value and in a state that
satisfy `P`. -/
def Leads (P : α → G → Prop) : Prog Op Ret ε α → G → Prop
  | .pure a, g => P a g
  | .raise e, g => D.Ends g ∧ D.Raises g e
  | .call o k, g => D.Calls g o ∧ ∀ r, D.Answers g o r → Leads P (k r) (D.next g o r)

/-- **The program follows the discipline**, from a state on. -/
def Follows : Prog Op Ret ε α → G → Prop := D.Leads fun _ => D.Ends

variable {D} {g : G} {P : α → G → Prop}

@[simp] theorem leads_pure {a : α} :
    D.Leads P (.pure a : Prog Op Ret ε α) g ↔ P a g := Iff.rfl

@[simp] theorem leads_raise {e : ε} :
    D.Leads P (.raise e : Prog Op Ret ε α) g ↔ D.Ends g ∧ D.Raises g e := Iff.rfl

@[simp] theorem leads_call {o : Op} {k : Ret o → Prog Op Ret ε α} :
    D.Leads P (.call o k) g ↔
      D.Calls g o ∧ ∀ r, D.Answers g o r → D.Leads P (k r) (D.next g o r) := Iff.rfl

theorem Leads.call {o : Op} {k : Ret o → Prog Op Ret ε α} (hcall : D.Calls g o)
    (h : ∀ r, D.Answers g o r → D.Leads P (k r) (D.next g o r)) : D.Leads P (.call o k) g :=
  ⟨hcall, h⟩

theorem Follows.call {o : Op} {k : Ret o → Prog Op Ret ε α} (hcall : D.Calls g o)
    (h : ∀ r, D.Answers g o r → D.Follows (k r) (D.next g o r)) : D.Follows (.call o k) g :=
  Leads.call hcall h

@[simp] theorem follows_pure {a : α} :
    D.Follows (.pure a : Prog Op Ret ε α) g ↔ D.Ends g := Iff.rfl

@[simp] theorem follows_raise {e : ε} :
    D.Follows (.raise e : Prog Op Ret ε α) g ↔ D.Ends g ∧ D.Raises g e := Iff.rfl

@[simp] theorem follows_call {o : Op} {k : Ret o → Prog Op Ret ε α} :
    D.Follows (.call o k) g ↔
      D.Calls g o ∧ ∀ r, D.Answers g o r → D.Follows (k r) (D.next g o r) := Iff.rfl

@[simp] theorem leads_map {Q : β → G → Prop} {f : α → β} {p : Prog Op Ret ε α} :
    D.Leads Q (f <$> p) g ↔ D.Leads (fun a => Q (f a)) p g := by
  induction p generalizing g with
  | pure a => exact Iff.rfl
  | raise e => exact Iff.rfl
  | call o k ih =>
    rw [Prog.map_call, leads_call, leads_call]
    exact and_congr_right fun _ => forall_congr' fun r => imp_congr_right fun _ => ih r

@[simp] theorem follows_map {f : α → β} {p : Prog Op Ret ε α} :
    D.Follows (f <$> p) g ↔ D.Follows p g := leads_map

theorem Leads.imp {Q : α → G → Prop} {p : Prog Op Ret ε α} (h : D.Leads P p g)
    (hQ : ∀ a g, P a g → Q a g) : D.Leads Q p g := by
  induction p generalizing g with
  | pure a => exact hQ a g h
  | raise e => exact h
  | call o k ih => exact ⟨h.1, fun r hr => ih r (h.2 r hr)⟩

/-- A program whose calls all leave a state alone stays there. -/
theorem Leads.of_along {Answers : (o : Op) → Ret o → Prop} {Calls : Op → Prop}
    {p : Prog Op Ret ε α} (hp : p.Along Answers Calls True)
    (hcalls : ∀ o, Calls o → D.Calls g o ∧ ∀ r, D.Answers g o r → Answers o r ∧ D.next g o r = g)
    (hraises : D.Ends g ∧ ∀ e, D.Raises g e) : D.Leads (fun _ g' => g' = g) p g := by
  induction p with
  | pure a => exact rfl
  | raise e => exact ⟨hraises.1, hraises.2 e⟩
  | call o k ih =>
    obtain ⟨hcall, hnext⟩ := hcalls o hp.1
    refine ⟨hcall, fun r hr => ?_⟩
    rw [(hnext r hr).2]
    exact ih r (hp.2 r (hnext r hr).1)

/-- **Two parts, one after the other.** -/
theorem Leads.bind {Q : β → G → Prop} {p : Prog Op Ret ε α} {f : α → Prog Op Ret ε β}
    (h : D.Leads P p g) (hf : ∀ a g, P a g → D.Leads Q (f a) g) : D.Leads Q (p >>= f) g := by
  induction p generalizing g with
  | pure a => exact hf a g h
  | raise e => exact h
  | call o k ih => exact ⟨h.1, fun r hr => ih r (h.2 r hr)⟩

theorem Leads.follows_bind {p : Prog Op Ret ε α} {f : α → Prog Op Ret ε β}
    (h : D.Leads P p g) (hf : ∀ a g, P a g → D.Follows (f a) g) : D.Follows (p >>= f) g :=
  h.bind hf

/-- Two disciplines: a program keeps to the one in whose states it begins. -/
def sum {H : Type} (D : Discipline G Op Ret ε) (E : Discipline H Op Ret ε) :
    Discipline (G ⊕ H) Op Ret ε where
  Calls := Sum.elim D.Calls E.Calls
  Answers := Sum.elim D.Answers E.Answers
  next x o r := x.map (fun g => D.next g o r) fun h => E.next h o r
  Ends := Sum.elim D.Ends E.Ends
  Raises := Sum.elim D.Raises E.Raises

theorem leads_inl {H : Type} {E : Discipline H Op Ret ε} {P : α → G ⊕ H → Prop}
    {p : Prog Op Ret ε α} :
    (D.sum E).Leads P p (.inl g) ↔ D.Leads (fun a g => P a (.inl g)) p g := by
  induction p generalizing g with
  | pure a => exact Iff.rfl
  | raise e => exact Iff.rfl
  | call o k ih =>
    exact and_congr_right fun _ => forall_congr' fun r => imp_congr_right fun _ => ih r

theorem leads_inr {H : Type} {E : Discipline H Op Ret ε} {P : α → G ⊕ H → Prop} {h : H}
    {p : Prog Op Ret ε α} :
    (D.sum E).Leads P p (.inr h) ↔ E.Leads (fun a h => P a (.inr h)) p h := by
  induction p generalizing h with
  | pure a => exact Iff.rfl
  | raise e => exact Iff.rfl
  | call o k ih =>
    exact and_congr_right fun _ => forall_congr' fun r => imp_congr_right fun _ => ih r

variable {L : Type}

/-- **A program that has failed was allowed to.** -/
theorem Leads.fails {t : Thread Op Ret ε α L} {e : ε} (h : D.Leads P t.prog g)
    (hresult : t.result = some (.error e)) : D.Ends g ∧ D.Raises g e := by
  unfold Thread.result at hresult
  split at hresult
  · cases hresult
  · next e' hp =>
    obtain rfl : e' = e := Except.error.inj (Option.some.inj hresult)
    rw [hp] at h
    exact h
  · cases hresult

/-- A program that has returned a value was led there. -/
theorem Leads.returns {t : Thread Op Ret ε α L} {a : α} (h : D.Leads P t.prog g)
    (hresult : t.result = some (.ok a)) : P a g := by
  unfold Thread.result at hresult
  split at hresult
  · next a' hp =>
    obtain rfl : a' = a := Except.ok.inj (Option.some.inj hresult)
    rw [hp] at h
    exact h
  · cases hresult
  · cases hresult

end Discipline

section pool

variable {ι G Op : Type} {Ret : Op → Type} {ε α L σ : Type} [DecidableEq ι]
  {S : System ι Op Ret ε L σ}

/-- **What every call keeps that is allowed, a run keeps.**  The invariant is on the states
of the disciplines and the local states of all programs, the shared state and the trace;
each step may use what else is known of the configurations that are reached. -/
theorem Reach.leads {guard : Guard ι Op Ret ε σ} {c₀ c : Config ι Op Ret ε α L σ}
    (D : ι → Discipline G Op Ret ε) (P : ι → α → G → Prop) (g₀ : ι → G)
    (Inv : (ι → G × L) → σ → List (Event ι Op Ret ε) → Prop)
    (hstart : ∀ i, (D i).Leads (P i) (c₀.threads i).prog (g₀ i))
    (hinit : Inv (fun i => (g₀ i, (c₀.threads i).loc)) c₀.shared c₀.trace)
    (hstep : ∀ (c : Config ι Op Ret ε α L σ) (g : ι → G) (i : ι) (o : Op), Reach S guard c₀ c →
      Inv (fun j => (g j, (c.threads j).loc)) c.shared c.trace → (D i).Calls (g i) o →
      guard c.trace c.shared i o →
      match S.exec i o ((c.threads i).loc, c.shared) with
      | (.ok r, l, s') => (D i).Answers (g i) o r ∧
          Inv (Function.update (fun j => (g j, (c.threads j).loc)) i ((D i).next (g i) o r, l)) s'
            (⟨i, o, .ok r⟩ :: c.trace)
      | (.error e, l, s') => ∃ g', (D i).Ends g' ∧ (D i).Raises g' e ∧
          Inv (Function.update (fun j => (g j, (c.threads j).loc)) i (g', l)) s'
            (⟨i, o, .error e⟩ :: c.trace))
    (h : Reach S guard c₀ c) :
    ∃ g : ι → G, Inv (fun i => (g i, (c.threads i).loc)) c.shared c.trace ∧
      ∀ i, (D i).Leads (P i) (c.threads i).prog (g i) := by
  induction h with
  | refl => exact ⟨g₀, hinit, hstart⟩
  | @step c i o k hreach hp _ hguard ih =>
    obtain ⟨g, hinv, hleads⟩ := ih
    have hi := hleads i
    rw [hp, Discipline.leads_call] at hi
    obtain ⟨hcalls, hrest⟩ := hi
    have hkept := hstep c g i o hreach hinv hcalls hguard
    -- the states after a call of program `i` are those before, but for its own
    have hstates : ∀ (g' : G) (l : L) (p : Prog Op Ret ε α),
        (fun j => (Function.update g i g' j, (Function.update c.threads i ⟨p, l⟩ j).loc)) =
          Function.update (fun j => (g j, (c.threads j).loc)) i (g', l) := by
      intro g' l p
      funext j
      by_cases hj : j = i
      · subst hj
        simp
      · simp [Function.update_of_ne hj]
    rcases hx : S.exec i o ((c.threads i).loc, c.shared) with ⟨e | r, l, s⟩
    · rw [hx] at hkept
      obtain ⟨g', hends, hraises, hinv'⟩ := hkept
      rw [Config.advance_error S hp hx]
      refine ⟨Function.update g i g', ?_, fun j => ?_⟩
      · rw [← hstates g' l (.raise e)] at hinv'
        exact hinv'
      · by_cases hj : j = i
        · subst hj
          simpa using ⟨hends, hraises⟩
        · simpa [Function.update_of_ne hj] using hleads j
    · rw [hx] at hkept
      obtain ⟨hanswers, hinv'⟩ := hkept
      rw [Config.advance_ok S hp hx]
      refine ⟨Function.update g i ((D i).next (g i) o r), ?_, fun j => ?_⟩
      · rw [← hstates _ l (k r)] at hinv'
        exact hinv'
      · by_cases hj : j = i
        · subst hj
          simpa using hrest r hanswers
        · simpa [Function.update_of_ne hj] using hleads j

/-- **One program whose calls cannot fail** keeps to its discipline, whatever the others do;
`Good` are the states of the discipline in which it may be. -/
theorem Reach.leads_own {guard : Guard ι Op Ret ε σ} {c₀ c : Config ι Op Ret ε α L σ} {i : ι}
    {D : Discipline G Op Ret ε} {P : α → G → Prop} (Good : G → Prop)
    (hcalls : ∀ g o l s, Good g → D.Calls g o → ∃ r, (S.exec i o (l, s)).1 = .ok r ∧
      D.Answers g o r ∧ Good (D.next g o r))
    (hstart : ∃ g, Good g ∧ D.Leads P (c₀.threads i).prog g) (h : Reach S guard c₀ c) :
    ∃ g, Good g ∧ D.Leads P (c.threads i).prog g := by
  induction h with
  | refl => exact hstart
  | @step c j o k _ hp _ _ ih =>
    obtain ⟨g, hgood, hleads⟩ := ih
    by_cases hj : j = i
    · subst hj
      rw [hp, Discipline.leads_call] at hleads
      obtain ⟨r, hanswer, hreplies, hnext⟩ := hcalls g o (c.threads j).loc c.shared hgood hleads.1
      rcases hx : S.exec j o ((c.threads j).loc, c.shared) with ⟨e | r', l, s⟩
      · rw [hx] at hanswer
        cases hanswer
      · rw [hx] at hanswer
        obtain rfl := Except.ok.inj hanswer
        rw [Config.advance_ok S hp hx]
        exact ⟨_, hnext, by simpa using hleads.2 r' hreplies⟩
    · rcases hx : S.exec j o ((c.threads j).loc, c.shared) with ⟨e | r, l, s⟩
      · rw [Config.advance_error S hp hx]
        exact ⟨g, hgood, by simpa [Function.update_of_ne (Ne.symm hj)] using hleads⟩
      · rw [Config.advance_ok S hp hx]
        exact ⟨g, hgood, by simpa [Function.update_of_ne (Ne.symm hj)] using hleads⟩

/-- The same for programs that follow their disciplines, with steps of any states. -/
theorem Reach.follows {guard : Guard ι Op Ret ε σ} {c₀ c : Config ι Op Ret ε α L σ}
    (D : ι → Discipline G Op Ret ε) (g₀ : ι → G)
    (Inv : (ι → G × L) → σ → List (Event ι Op Ret ε) → Prop)
    (hstart : ∀ i, (D i).Follows (c₀.threads i).prog (g₀ i))
    (hinit : Inv (fun i => (g₀ i, (c₀.threads i).loc)) c₀.shared c₀.trace)
    (hstep : ∀ x s tr i o, Inv x s tr → (D i).Calls (x i).1 o → guard tr s i o →
      match S.exec i o ((x i).2, s) with
      | (.ok r, l, s') => (D i).Answers (x i).1 o r ∧
          Inv (Function.update x i ((D i).next (x i).1 o r, l)) s' (⟨i, o, .ok r⟩ :: tr)
      | (.error e, l, s') => ∃ g, (D i).Ends g ∧ (D i).Raises g e ∧
          Inv (Function.update x i (g, l)) s' (⟨i, o, .error e⟩ :: tr))
    (h : Reach S guard c₀ c) :
    ∃ g : ι → G, Inv (fun i => (g i, (c.threads i).loc)) c.shared c.trace ∧
      ∀ i, (D i).Follows (c.threads i).prog (g i) :=
  h.leads D (fun i _ => (D i).Ends) g₀ Inv hstart hinit fun _ _ i o _ hinv hcalls hguard =>
    hstep _ _ _ i o hinv hcalls hguard

end pool

end Interaction
