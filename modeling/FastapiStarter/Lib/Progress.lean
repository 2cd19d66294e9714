import FastapiStarter.Lib.Pool

/-!
# Completing the programs of a pool

A program of a pool may have to wait for others.  If the others can always be moved until
it need not wait any more, without a move of its own, then it can always be run to its
end: a program is a tree, so what is left of it gets smaller with every call.

## Main results

* `Reach.shared` — what every call does to the shared state, a run does.
* `Reach.guarded` — what follows at every call from what is true in the end may be
  assumed there.
* `Reach.first` — a run up to the first call of a kind.
* `reach_alone` — one program alone, as a run of the pool.
* `Reach.completes` — **a program whose way can be cleared can be run to its end.**
-/

namespace Interaction

variable {ι Op : Type} {Ret : Op → Type} {ε α L σ : Type} [DecidableEq ι]
  {S : System ι Op Ret ε L σ} {guard : Guard ι Op Ret ε σ} {c₀ c : Config ι Op Ret ε α L σ}

/-- What a call changes in the shared state is seen in the configuration. -/
theorem Config.shared_advance {i : ι} {o : Op} {k : Ret o → Prog Op Ret ε α}
    (hp : (c.threads i).prog = .call o k) :
    (c.advance S i).shared = (S.exec i o ((c.threads i).loc, c.shared)).2.2 := by
  rcases hx : S.exec i o ((c.threads i).loc, c.shared) with ⟨e | r, l, s⟩
  · rw [Config.advance_error S hp hx]
  · rw [Config.advance_ok S hp hx]

/-- **What every call does to the shared state, a run does.** -/
theorem Reach.shared {R : σ → σ → Prop} (hrefl : ∀ s, R s s)
    (htrans : ∀ s s' s'', R s s' → R s' s'' → R s s'')
    (hcall : ∀ i o l s, R s (S.exec i o (l, s)).2.2) (h : Reach S guard c₀ c) :
    R c₀.shared c.shared := by
  induction h with
  | refl => exact hrefl _
  | step _ hp _ _ ih =>
    rw [Config.shared_advance hp]
    exact htrans _ _ _ ih (hcall _ _ _ _)

/-- **A property that no call makes true**, and that is true in the end, was true at every
call; so what it says of the call was true as well. -/
theorem Reach.guarded {P : σ → Prop} {Q : σ → ι → Op → Prop}
    (hback : ∀ i o l s, P (S.exec i o (l, s)).2.2 → P s ∧ Q s i o) (h : Reach S guard c₀ c)
    (hP : P c.shared) : Reach S (fun tr s i o => guard tr s i o ∧ Q s i o) c₀ c := by
  induction h with
  | refl => exact .refl
  | @step c i o k _ hp henabled hguard ih =>
    rw [Config.shared_advance hp] at hP
    obtain ⟨hbefore, hcall⟩ := hback _ _ _ _ hP
    exact (ih hbefore).step hp henabled ⟨hguard, hcall⟩

/-- One run after the other. -/
theorem Reach.trans {c' : Config ι Op Ret ε α L σ} (h : Reach S guard c₀ c)
    (h' : Reach S guard c c') : Reach S guard c₀ c' := by
  induction h' with
  | refl => exact h
  | step _ hp henabled hguard ih => exact ih.step hp henabled hguard

/-- Less may be assumed of the calls. -/
theorem Reach.imp {guard' : Guard ι Op Ret ε σ}
    (himp : ∀ tr s i o, guard tr s i o → guard' tr s i o)
    (h : Reach S guard c₀ c) : Reach S guard' c₀ c := by
  induction h with
  | refl => exact .refl
  | step _ hp henabled hguard ih => exact ih.step hp henabled (himp _ _ _ _ hguard)

/-- **A run up to the first call of a kind**, and from there on. -/
theorem Reach.first (kind : ι → Op → Prop) (h : Reach S guard c₀ c) :
    Reach S (fun tr s i o => guard tr s i o ∧ ¬ kind i o) c₀ c ∨
    ∃ (c₁ : Config ι Op Ret ε α L σ) (i : ι) (o : Op) (k : Ret o → Prog Op Ret ε α),
      Reach S (fun tr s i o => guard tr s i o ∧ ¬ kind i o) c₀ c₁ ∧
      (c₁.threads i).prog = .call o k ∧ kind i o ∧
      S.enabled i o ((c₁.threads i).loc, c₁.shared) ∧ guard c₁.trace c₁.shared i o ∧
      Reach S guard (c₁.advance S i) c := by
  induction h with
  | refl => exact .inl .refl
  | @step c i o k _ hp henabled hguard ih =>
    rcases ih with hbefore | ⟨c₁, i₁, o₁, k₁, hbefore, hp₁, hkind, henabled₁, hguard₁, hafter⟩
    · by_cases hkind : kind i o
      · exact .inr ⟨c, i, o, k, hbefore, hp, hkind, henabled, hguard, .refl⟩
      · exact .inl (hbefore.step hp henabled ⟨hguard, hkind⟩)
    · exact .inr ⟨c₁, i₁, o₁, k₁, hbefore, hp₁, hkind, henabled₁, hguard₁,
        hafter.step hp henabled hguard⟩

/-! ### Schedules -/

/-- The other programs stay as they are. -/
theorem Config.threads_advance_of_ne {i j : ι} (h : j ≠ i) :
    (c.advance S i).threads j = c.threads j := by
  unfold Config.advance
  split
  · split
    · exact Function.update_of_ne h _ _
    · exact Function.update_of_ne h _ _
  · rfl

/-- One schedule after the other. -/
@[simp] theorem Config.schedule_append (is is' : List ι) :
    c.schedule S (is ++ is') = (c.schedule S is).schedule S is' := by
  induction is generalizing c with
  | nil => rfl
  | cons i is ih => exact ih

theorem allowed_append {is is' : List ι} :
    Allowed S guard c (is ++ is') ↔
      Allowed S guard c is ∧ Allowed S guard (c.schedule S is) is' := by
  induction is generalizing c with
  | nil => exact ⟨fun h => ⟨trivial, h⟩, And.right⟩
  | cons i is ih =>
    show Moves S guard c i ∧ Allowed S guard (c.advance S i) (is ++ is') ↔ _
    rw [ih]
    exact and_assoc.symm

/-- **One program alone** ends as it does in the pool if the others wait: `P` is what lets
it go on. -/
theorem reach_alone {i : ι} {P : σ → Prop} (henabled : ∀ o l s, P s → S.enabled i o (l, s))
    (hkeeps : ∀ o l s, P s → P (S.exec i o (l, s)).2.2) (p : Prog Op Ret ε α)
    (hp : (c.threads i).prog = p) (hinv : P c.shared) :
    ∃ c', Reach S anyCall c c' ∧
      (c'.threads i).result = some (p.run (S.exec i) ((c.threads i).loc, c.shared)).1 ∧
      c'.shared = (p.run (S.exec i) ((c.threads i).loc, c.shared)).2.2 := by
  induction p generalizing c with
  | pure a => exact ⟨c, .refl, by simp [Thread.result, hp], rfl⟩
  | raise e => exact ⟨c, .refl, by simp [Thread.result, hp], rfl⟩
  | call o k ih =>
    have hnext : Reach S anyCall c (c.advance S i) :=
      Reach.refl.step hp (henabled o _ _ hinv) trivial
    have hinv' : P (c.advance S i).shared := by
      rw [Config.shared_advance hp]
      exact hkeeps o _ _ hinv
    rcases hx : S.exec i o ((c.threads i).loc, c.shared) with ⟨e | r, l, s⟩
    · refine ⟨_, hnext, ?_, ?_⟩
      · simp [Config.advance_error S hp hx, Thread.result, Prog.run, hx]
      · simp [Config.advance_error S hp hx, Prog.run, hx]
    · have hadvance := Config.advance_ok S hp hx
      obtain ⟨c', hreach, hresult, hshared⟩ := ih r (c := c.advance S i) (by simp [hadvance]) hinv'
      simp only [hadvance, Function.update_self] at hresult hshared
      refine ⟨c', hnext.trans hreach, ?_, ?_⟩
      · simpa [Prog.run, hx] using hresult
      · simpa [Prog.run, hx] using hshared

/-- The way of program `i` can be cleared: others can be moved until its next call is
enabled, and it has not moved. -/
def Clearable (S : System ι Op Ret ε L σ) (guard : Guard ι Op Ret ε σ)
    (c : Config ι Op Ret ε α L σ) (i : ι) : Prop :=
  ∃ is, Allowed S guard c is ∧ (c.schedule S is).threads i = c.threads i ∧
    Moves S guard (c.schedule S is) i

/-- **A program whose way can be cleared can be run to its end**, if that is so in every
configuration that is reached. -/
theorem Reach.completes {i : ι}
    (hclear : ∀ c, Reach S guard c₀ c → (c.threads i).result = none → Clearable S guard c i)
    (h : Reach S guard c₀ c) :
    ∃ is, Allowed S guard c is ∧ ((c.schedule S is).threads i).result ≠ none := by
  -- by induction on what is left of the program
  suffices hall : ∀ (p : Prog Op Ret ε α) c, Reach S guard c₀ c → (c.threads i).prog = p →
      ∃ is, Allowed S guard c is ∧ ((c.schedule S is).threads i).result ≠ none from
    hall _ c h rfl
  intro p
  induction p with
  | pure a =>
    intro c _ hp
    exact ⟨[], trivial, by simp [Config.schedule, Thread.result, hp]⟩
  | raise e =>
    intro c _ hp
    exact ⟨[], trivial, by simp [Config.schedule, Thread.result, hp]⟩
  | call o k ih =>
    intro c hc hp
    obtain ⟨is, hallowed, hsame, hmoves⟩ := hclear c hc (by simp [Thread.result, hp])
    have hreach := reach_schedule is hc hallowed
    generalize hd : c.schedule S is = d at hreach hsame hmoves
    have hpd : (d.threads i).prog = .call o k := by
      rw [hsame]
      exact hp
    have hnext : Reach S guard c₀ (d.advance S i) := by
      have hm := hmoves
      unfold Moves at hm
      rw [hpd] at hm
      exact hreach.step hpd hm.1 hm.2
    have hlead : ∀ is', Allowed S guard (d.advance S i) is' →
        Allowed S guard c (is ++ i :: is') := by
      intro is' hallowed'
      rw [allowed_append, hd]
      exact ⟨hallowed, hmoves, hallowed'⟩
    rcases hx : S.exec i o ((d.threads i).loc, d.shared) with ⟨e | r, l, s⟩
    · refine ⟨is ++ [i], hlead [] trivial, ?_⟩
      rw [Config.schedule_append, hd]
      show ((d.advance S i).threads i).result ≠ none
      rw [Config.advance_error S hpd hx]
      simp [Thread.result]
    · have hprog : ((d.advance S i).threads i).prog = k r := by
        rw [Config.advance_ok S hpd hx]
        simp
      obtain ⟨is', hallowed', hended⟩ := ih r _ hnext hprog
      refine ⟨is ++ i :: is', hlead is' hallowed', ?_⟩
      rw [Config.schedule_append, hd]
      exact hended

end Interaction
