import FastapiStarter.Lib.Projection
import Mathlib.Data.Finset.Card

/-!
# Programs in two stages

A program of the first stage calls one system, and decides with what it returns whether the
second stage is reached, which calls another system.  Any number of such programs run side
by side over both systems; what has been proved of a stage alone holds of it here.

## Main definitions

* `System.both` — two systems side by side.
* `Prog.staged`, `InStage` — a program in two stages, and what is left of it.
* `firstEvents` — the calls of the first stage.
* `Stages` — the two stages of a configuration.
* `Prog.CallsAtMost` — a program that makes no more than so many calls of a kind.

## Main results

* `Reach.stages` — **a run in two stages is a run of the first stages, and one of the
  second**, and whoever has called the second was let through.
* `Reach.of_ended` — programs that have ended may be left out of a run.
* `Reach.countP_le` — **programs that make one call of a kind make as many as they are.**
-/

namespace Interaction

/-- How a program in two stages fails. -/
inductive Halt (ε ε' : Type)
  /-- In the first stage. -/
  | first (e : ε)
  /-- Between the stages. -/
  | refused
  /-- In the second stage. -/
  | second (e : ε')
  deriving DecidableEq

section stages

variable {ι Op Op' : Type} {Ret : Op → Type} {Ret' : Op' → Type} {ε ε' α β L L' σ σ' : Type}

/-- The answers of two systems. -/
@[reducible] def StageRet (Ret : Op → Type) (Ret' : Op' → Type) : Op ⊕ Op' → Type
  | .inl o => Ret o
  | .inr o => Ret' o

/-- A program of the second stage. -/
def Prog.second : Prog Op' Ret' ε' β → Prog (Op ⊕ Op') (StageRet Ret Ret') (Halt ε ε') β
  | .pure b => .pure b
  | .raise e => .raise (.second e)
  | .call o k => .call (.inr o) fun r => (k r).second

/-- A program in two stages; `f` is the second stage, if it is reached. -/
def Prog.staged (f : α → Option (Prog Op' Ret' ε' β)) :
    Prog Op Ret ε α → Prog (Op ⊕ Op') (StageRet Ret Ret') (Halt ε ε') β
  | .pure a =>
    match f a with
    | some q => q.second
    | none => .raise .refused
  | .raise e => .raise (.first e)
  | .call o k => .call (.inl o) fun r => (k r).staged f

/-- What a call of the first stage comes to in both. -/
def firstResult {R : Type} (l' : L') (s' : σ') :
    Except ε R × (L × σ) → Except (Halt ε ε') R × ((L × L') × (σ × σ'))
  | (.ok r, l, s) => (.ok r, (l, l'), (s, s'))
  | (.error e, l, s) => (.error (.first e), (l, l'), (s, s'))

/-- What a call of the second stage comes to in both. -/
def secondResult {R : Type} (l : L) (s : σ) :
    Except ε' R × (L' × σ') → Except (Halt ε ε') R × ((L × L') × (σ × σ'))
  | (.ok r, l', s') => (.ok r, (l, l'), (s, s'))
  | (.error e, l', s') => (.error (.second e), (l, l'), (s, s'))

/-- Two systems side by side. -/
def System.both (S : System ι Op Ret ε L σ) (S' : System ι Op' Ret' ε' L' σ') :
    System ι (Op ⊕ Op') (StageRet Ret Ret') (Halt ε ε') (L × L') (σ × σ') where
  exec i o x :=
    match o with
    | .inl o => firstResult x.1.2 x.2.2 (S.exec i o (x.1.1, x.2.1))
    | .inr o => secondResult x.1.1 x.2.1 (S'.exec i o (x.1.2, x.2.2))
  enabled i o x :=
    match o with
    | .inl o => S.enabled i o (x.1.1, x.2.1)
    | .inr o => S'.enabled i o (x.1.2, x.2.2)

instance {S : System ι Op Ret ε L σ} {S' : System ι Op' Ret' ε' L' σ'} (i : ι) (o : Op ⊕ Op')
    (x : (L × L') × (σ × σ')) [∀ o x, Decidable (S.enabled i o x)]
    [∀ o x, Decidable (S'.enabled i o x)] : Decidable ((S.both S').enabled i o x) :=
  match o with
  | .inl o => inferInstanceAs (Decidable (S.enabled i o (x.1.1, x.2.1)))
  | .inr o => inferInstanceAs (Decidable (S'.enabled i o (x.1.2, x.2.2)))

/-- The answer to a call of the first stage. -/
def firstAnswer {R : Type} : Except (Halt ε ε') R → Option (Except ε R)
  | .ok r => some (.ok r)
  | .error (.first e) => some (.error e)
  | .error _ => none

/-- The calls of the first stage. -/
def firstEvents : List (Event ι (Op ⊕ Op') (StageRet Ret Ret') (Halt ε ε')) →
    List (Event ι Op Ret ε)
  | [] => []
  | ⟨i, .inl o, answer⟩ :: tr =>
    match firstAnswer answer with
    | some answer => ⟨i, o, answer⟩ :: firstEvents tr
    | none => firstEvents tr
  | ⟨_, .inr _, _⟩ :: tr => firstEvents tr

theorem who_of_mem_firstEvents {tr : List (Event ι (Op ⊕ Op') (StageRet Ret Ret') (Halt ε ε'))}
    {ev : Event ι Op Ret ε} (h : ev ∈ firstEvents tr) : ∃ ev' ∈ tr, ev'.who = ev.who := by
  induction tr with
  | nil => cases h
  | cons ev' tr ih =>
    have hold : ev ∈ firstEvents tr → ∃ ev'' ∈ ev' :: tr, ev''.who = ev.who := by
      intro h
      obtain ⟨ev'', hmem, hwho⟩ := ih h
      exact ⟨ev'', List.mem_cons_of_mem _ hmem, hwho⟩
    obtain ⟨i, o | o, answer⟩ := ev'
    · unfold firstEvents at h
      split at h
      · rcases List.mem_cons.mp h with rfl | h
        · exact ⟨_, List.mem_cons_self, rfl⟩
        · exact hold h
      · exact hold h
    · exact hold h

/-- What is left of a program in two stages: `p` of the first, and `q` of the second. -/
inductive InStage (f : α → Option (Prog Op' Ret' ε' β)) (p : Prog Op Ret ε α)
    (q : Prog Op' Ret' ε' β) : Prog (Op ⊕ Op') (StageRet Ret Ret') (Halt ε ε') β → Prop
  /-- The second stage has not been reached; if it is, it will be `q`. -/
  | before : (∀ a q', f a = some q' → q' = q) → InStage f p q (p.staged f)
  /-- The program was let through. -/
  | after {a : α} : p = .pure a → (f a).isSome → InStage f p q q.second

section inStage

variable {f : α → Option (Prog Op' Ret' ε' β)} {p : Prog Op Ret ε α} {q : Prog Op' Ret' ε' β}
  {d : Prog (Op ⊕ Op') (StageRet Ret Ret') (Halt ε ε') β}

/-- The first stage calls, fails or returns. -/
theorem InStage.cases (h : InStage f p q d) :
    (∃ (o : Op) (k : Ret o → Prog Op Ret ε α), p = .call o k ∧
      d = .call (.inl o) (fun r => (k r).staged f) ∧ ∀ a q', f a = some q' → q' = q) ∨
    (∃ e, p = .raise e ∧ d = .raise (.first e)) ∨
    (∃ a, p = .pure a ∧ f a = none ∧ d = .raise .refused) ∨
    ∃ a, p = .pure a ∧ (f a).isSome ∧ d = q.second := by
  cases h with
  | before hf =>
    cases p with
    | call o k => exact .inl ⟨o, k, rfl, rfl, hf⟩
    | raise e => exact .inr (.inl ⟨e, rfl, rfl⟩)
    | pure a =>
      rcases ha : f a with _ | q'
      · exact .inr (.inr (.inl ⟨a, rfl, ha, by rw [Prog.staged, ha]⟩))
      · obtain rfl := hf a q' ha
        exact .inr (.inr (.inr ⟨a, rfl, by simp [ha], by rw [Prog.staged, ha]⟩))
  | after hp ha => exact .inr (.inr (.inr ⟨_, hp, ha, rfl⟩))

/-- A program that calls the first stage is in the first stage. -/
theorem InStage.of_inl {o : Op}
    {k : Ret o → Prog (Op ⊕ Op') (StageRet Ret Ret') (Halt ε ε') β}
    (h : InStage f p q (.call (.inl o) k)) :
    ∃ k' : Ret o → Prog Op Ret ε α, p = .call o k' ∧ (∀ r, InStage f (k' r) q (k r)) ∧
      ∀ e, InStage f (.raise e : Prog Op Ret ε α) q (.raise (.first e)) := by
  rcases h.cases with ⟨o', k', rfl, hd, hf⟩ | ⟨e, -, hd⟩ | ⟨a, -, -, hd⟩ | ⟨a, -, -, hd⟩
  · cases hd
    exact ⟨k', rfl, fun r => .before hf, fun e => .before hf⟩
  · cases hd
  · cases hd
  · cases q <;> cases hd

/-- A program that calls the second stage was let through. -/
theorem InStage.of_inr {o : Op'}
    {k : Ret' o → Prog (Op ⊕ Op') (StageRet Ret Ret') (Halt ε ε') β}
    (h : InStage f p q (.call (.inr o) k)) :
    ∃ (a : α) (k' : Ret' o → Prog Op' Ret' ε' β), p = .pure a ∧ (f a).isSome ∧ q = .call o k' ∧
      (∀ r, InStage f p (k' r) (k r)) ∧
      ∀ e, InStage f p (.raise e : Prog Op' Ret' ε' β) (.raise (.second e)) := by
  rcases h.cases with ⟨o', k', -, hd, -⟩ | ⟨e, -, hd⟩ | ⟨a, -, -, hd⟩ | ⟨a, hp, ha, hd⟩
  · cases hd
  · cases hd
  · cases hd
  · cases q with
    | pure b => cases hd
    | raise e => cases hd
    | call o' k' =>
      cases hd
      exact ⟨a, k', hp, ha, rfl, fun r => .after hp ha, fun e => .after hp ha⟩

/-- A program that has returned has returned from the second stage. -/
theorem InStage.of_pure {b : β} (h : InStage f p q (.pure b)) : q = .pure b := by
  rcases h.cases with ⟨o', k', -, hd, -⟩ | ⟨e, -, hd⟩ | ⟨a, -, -, hd⟩ | ⟨a, -, -, hd⟩
  · cases hd
  · cases hd
  · cases hd
  · cases q <;> cases hd
    rfl

/-- Where a program has failed. -/
theorem InStage.of_raise {e : Halt ε ε'} (h : InStage f p q (.raise e)) :
    (∃ e₁, e = .first e₁ ∧ p = .raise e₁) ∨ (∃ a, e = .refused ∧ p = .pure a ∧ f a = none) ∨
      ∃ e₂, e = .second e₂ ∧ q = .raise e₂ := by
  rcases h.cases with ⟨o', k', -, hd, -⟩ | ⟨e₁, hp, hd⟩ | ⟨a, hp, ha, hd⟩ | ⟨a, -, -, hd⟩
  · cases hd
  · cases hd
    exact .inl ⟨e₁, rfl, hp⟩
  · cases hd
    exact .inr (.inl ⟨a, rfl, hp, ha⟩)
  · cases q with
    | pure b => cases hd
    | raise e₂ =>
      cases hd
      exact .inr (.inr ⟨e₂, rfl, rfl⟩)
    | call o k => cases hd

end inStage

/-! ### Runs -/

variable [DecidableEq ι] {S : System ι Op Ret ε L σ} {S' : System ι Op' Ret' ε' L' σ'}
  {f : ι → α → Option (Prog Op' Ret' ε' β)} {c c₀ : Config ι Op Ret ε α L σ}
  {c' c₀' : Config ι Op' Ret' ε' β L' σ'}
  {d d₀ : Config ι (Op ⊕ Op') (StageRet Ret Ret') (Halt ε ε') β (L × L') (σ × σ')}

/-- **The first stages of programs, the second stages, and the programs**: whoever has
called the second stage was let through. -/
structure Stages (f : ι → α → Option (Prog Op' Ret' ε' β)) (c : Config ι Op Ret ε α L σ)
    (c' : Config ι Op' Ret' ε' β L' σ')
    (d : Config ι (Op ⊕ Op') (StageRet Ret Ret') (Halt ε ε') β (L × L') (σ × σ')) : Prop where
  shared : d.shared = (c.shared, c'.shared)
  trace : firstEvents d.trace = c.trace
  locs : ∀ i, (d.threads i).loc = ((c.threads i).loc, (c'.threads i).loc)
  progs : ∀ i, InStage (f i) (c.threads i).prog (c'.threads i).prog (d.threads i).prog
  admitted : ∀ ev ∈ d.trace, ev.op.isRight = true →
    ∃ a, (c.threads ev.who).prog = .pure a ∧ (f ev.who a).isSome

variable (S S') in
/-- A call of the first stage. -/
theorem Stages.first (h : Stages f c c' d) {i : ι} {o : Op}
    {k : Ret o → Prog (Op ⊕ Op') (StageRet Ret Ret') (Halt ε ε') β}
    (hp : (d.threads i).prog = .call (.inl o) k) :
    ∃ k', (c.threads i).prog = .call o k' ∧
      Stages f (c.advance S i) c' (d.advance (S.both S') i) := by
  have hi := h.progs i
  rw [hp] at hi
  obtain ⟨k', hcall, hok, herror⟩ := hi.of_inl
  refine ⟨k', hcall, ?_⟩
  -- both programs go on alike
  have hstep : ∀ (answer : Except ε (Ret o)) (answer' : Except (Halt ε ε') (Ret o))
      (p : Prog Op Ret ε α) (p' : Prog (Op ⊕ Op') (StageRet Ret Ret') (Halt ε ε') β) (l : L)
      (s : σ), firstAnswer answer' = some answer → InStage (f i) p (c'.threads i).prog p' →
      Stages f ⟨Function.update c.threads i ⟨p, l⟩, s, ⟨i, o, answer⟩ :: c.trace⟩ c'
        ⟨Function.update d.threads i ⟨p', l, (c'.threads i).loc⟩, (s, c'.shared),
          ⟨i, .inl o, answer'⟩ :: d.trace⟩ := by
    intro answer answer' p p' l s hanswer hin
    refine ⟨rfl, ?_, fun j => ?_, fun j => ?_, ?_⟩
    · simp only [firstEvents, hanswer, h.trace]
    · rcases eq_or_ne j i with rfl | hj
      · simp
      · simpa [Function.update_of_ne hj] using h.locs j
    · rcases eq_or_ne j i with rfl | hj
      · simpa using hin
      · simpa [Function.update_of_ne hj] using h.progs j
    · intro ev hev hright
      rcases List.mem_cons.mp hev with rfl | hev
      · cases hright
      · obtain ⟨a, hpure, hf⟩ := h.admitted ev hev hright
        have hne : ev.who ≠ i := by
          intro heq
          rw [heq, hcall] at hpure
          cases hpure
        exact ⟨a, by simpa [Function.update_of_ne hne] using hpure, hf⟩
  rcases hx : S.exec i o ((c.threads i).loc, c.shared) with ⟨e | r, l, s⟩
  · have hboth : (S.both S').exec i (.inl o) ((d.threads i).loc, d.shared) =
        (.error (.first e), (l, (c'.threads i).loc), (s, c'.shared)) := by
      simp [System.both, h.locs i, h.shared, hx, firstResult]
    rw [Config.advance_error _ hp hboth, Config.advance_error _ hcall hx]
    exact hstep (.error e) _ _ _ l s rfl (herror e)
  · have hboth : (S.both S').exec i (.inl o) ((d.threads i).loc, d.shared) =
        (.ok r, (l, (c'.threads i).loc), (s, c'.shared)) := by
      simp [System.both, h.locs i, h.shared, hx, firstResult]
    rw [Config.advance_ok _ hp hboth, Config.advance_ok _ hcall hx]
    exact hstep (.ok r) _ _ _ l s rfl (hok r)

variable (S S') in
/-- A call of the second stage. -/
theorem Stages.second (h : Stages f c c' d) {i : ι} {o : Op'}
    {k : Ret' o → Prog (Op ⊕ Op') (StageRet Ret Ret') (Halt ε ε') β}
    (hp : (d.threads i).prog = .call (.inr o) k) :
    ∃ k', (c'.threads i).prog = .call o k' ∧
      Stages f c (c'.advance S' i) (d.advance (S.both S') i) := by
  have hi := h.progs i
  rw [hp] at hi
  obtain ⟨a, k', hpure, hf, hcall, hok, herror⟩ := hi.of_inr
  refine ⟨k', hcall, ?_⟩
  -- both configurations move alike, whatever the call answers
  have hstep : ∀ (answer : Except ε' (Ret' o)) (answer' : Except (Halt ε ε') (Ret' o))
      (q : Prog Op' Ret' ε' β) (q' : Prog (Op ⊕ Op') (StageRet Ret Ret') (Halt ε ε') β) (l' : L')
      (s' : σ'), InStage (f i) (c.threads i).prog q q' →
      Stages f c ⟨Function.update c'.threads i ⟨q, l'⟩, s', ⟨i, o, answer⟩ :: c'.trace⟩
        ⟨Function.update d.threads i ⟨q', (c.threads i).loc, l'⟩, (c.shared, s'),
          ⟨i, .inr o, answer'⟩ :: d.trace⟩ := by
    intro answer answer' q q' l' s' hin
    refine ⟨rfl, h.trace, fun j => ?_, fun j => ?_, ?_⟩
    · rcases eq_or_ne j i with rfl | hj
      · simp
      · simpa [Function.update_of_ne hj] using h.locs j
    · rcases eq_or_ne j i with rfl | hj
      · simpa using hin
      · simpa [Function.update_of_ne hj] using h.progs j
    · intro ev hev hright
      rcases List.mem_cons.mp hev with rfl | hev
      · exact ⟨a, hpure, hf⟩
      · exact h.admitted ev hev hright
  rcases hx : S'.exec i o ((c'.threads i).loc, c'.shared) with ⟨e | r, l', s'⟩
  · have hboth : (S.both S').exec i (.inr o) ((d.threads i).loc, d.shared) =
        (.error (.second e), ((c.threads i).loc, l'), (c.shared, s')) := by
      simp [System.both, h.locs i, h.shared, hx, secondResult]
    rw [Config.advance_error _ hp hboth, Config.advance_error _ hcall hx]
    exact hstep _ _ _ _ l' s' (herror e)
  · have hboth : (S.both S').exec i (.inr o) ((d.threads i).loc, d.shared) =
        (.ok r, ((c.threads i).loc, l'), (c.shared, s')) := by
      simp [System.both, h.locs i, h.shared, hx, secondResult]
    rw [Config.advance_ok _ hp hboth, Config.advance_ok _ hcall hx]
    exact hstep _ _ _ _ l' s' (hok r)

/-- **A run in two stages is a run of the first stages, and one of the second.** -/
theorem Reach.stages {guard : Guard ι (Op ⊕ Op') (StageRet Ret Ret') (Halt ε ε') (σ × σ')}
    (h₀ : Stages f c₀ c₀' d₀) (h : Reach (S.both S') guard d₀ d) :
    ∃ c c', Reach S anyCall c₀ c ∧ Reach S' anyCall c₀' c' ∧ Stages f c c' d := by
  induction h with
  | refl => exact ⟨c₀, c₀', .refl, .refl, h₀⟩
  | @step d i o k _ hp henabled _ ih =>
    obtain ⟨c, c', hfirst, hsecond, hstages⟩ := ih
    cases o with
    | inl o =>
      obtain ⟨k', hcall, hnext⟩ := hstages.first S S' hp
      refine ⟨_, c', hfirst.step hcall ?_ trivial, hsecond, hnext⟩
      have henabled' : S.enabled i o ((d.threads i).loc.1, d.shared.1) := henabled
      rwa [hstages.locs i, hstages.shared] at henabled'
    | inr o =>
      obtain ⟨k', hcall, hnext⟩ := hstages.second S S' hp
      refine ⟨c, _, hfirst, hsecond.step hcall ?_ trivial, hnext⟩
      have henabled' : S'.enabled i o ((d.threads i).loc.2, d.shared.2) := henabled
      rwa [hstages.locs i, hstages.shared] at henabled'

theorem prog_of_error {t : Thread Op Ret ε α L} {e : ε} (h : t.result = some (.error e)) :
    t.prog = .raise e := by
  unfold Thread.result at h
  split at h
  · cases h
  · next e' he =>
    cases h
    exact he
  · cases h

theorem prog_of_ok {t : Thread Op Ret ε α L} {a : α} (h : t.result = some (.ok a)) :
    t.prog = .pure a := by
  unfold Thread.result at h
  split at h
  · next a' ha =>
    cases h
    exact ha
  · cases h
  · cases h

/-- A program that has ended stays as it is. -/
theorem Reach.threads_of_ended {guard : Guard ι Op Ret ε σ} (h : Reach S guard c₀ c) {i : ι}
    (hended : (c₀.threads i).result ≠ none) : c.threads i = c₀.threads i := by
  induction h with
  | refl => rfl
  | @step c j o k _ hp _ _ ih =>
    have hj : i ≠ j := by
      intro heq
      subst heq
      apply hended
      rw [← ih]
      simp only [Thread.result, hp]
    rw [Config.advance_call hp, ← ih]
    exact Function.update_of_ne hj _ _

/-- Programs that have ended may be left out: any others could stand in their place. -/
theorem Reach.of_ended (h : Reach S anyCall c₀ c) (part : ι → Prop)
    (c₁ : Config ι Op Ret ε α L σ) (hpart : ∀ i, part i → c₁.threads i = c₀.threads i)
    (hended : ∀ i, ¬ part i → (c₀.threads i).result ≠ none) (hshared : c₁.shared = c₀.shared)
    (htrace : c₁.trace = c₀.trace) :
    ∃ c₂, Reach S anyCall c₁ c₂ ∧ (∀ i, part i → c₂.threads i = c.threads i) ∧
      c₂.trace = c.trace := by
  suffices hall : ∃ c₂, Reach S anyCall c₁ c₂ ∧ (∀ i, part i → c₂.threads i = c.threads i) ∧
      c₂.shared = c.shared ∧ c₂.trace = c.trace by
    obtain ⟨c₂, hreach, hsame, -, htr⟩ := hall
    exact ⟨c₂, hreach, hsame, htr⟩
  induction h with
  | refl => exact ⟨c₁, .refl, hpart, hshared, htrace⟩
  | @step c i o k h hp henabled _ ih =>
    obtain ⟨c₂, hreach, hsame, hs, htr⟩ := ih
    have hi : part i := by
      by_contra hnot
      have hstays := h.threads_of_ended (hended i hnot)
      apply hended i hnot
      rw [← hstays]
      simp only [Thread.result, hp]
    have hp' : (c₂.threads i).prog = .call o k := by rw [hsame i hi, hp]
    refine ⟨c₂.advance S i, hreach.step hp' ?_ trivial, fun j hj => ?_, ?_⟩
    · rwa [hsame i hi, hs]
    · rw [Config.advance_call hp, Config.advance_call hp', hsame i hi, hs]
      rcases eq_or_ne j i with rfl | hji
      · simp only [Function.update_self]
      · simpa only [Function.update_of_ne hji] using hsame j hj
    · rw [Config.advance_call hp, Config.advance_call hp', hsame i hi, hs, htr]
      exact ⟨rfl, rfl⟩

end stages

/-! ### Calls of a kind -/

section calls

variable {ι Op Op' : Type} {Ret : Op → Type} {Ret' : Op' → Type} {ε ε' α β L σ : Type}

/-- The program makes no more than so many calls of a kind, whatever the answers. -/
def Prog.CallsAtMost (kind : Op → Bool) : Prog Op Ret ε α → ℕ → Prop
  | .pure _, _ => True
  | .raise _, _ => True
  | .call o k, n =>
    if kind o then 0 < n ∧ ∀ r, (k r).CallsAtMost kind (n - 1) else ∀ r, (k r).CallsAtMost kind n

variable {kind : Op → Bool} {kind' : Op ⊕ Op' → Bool} {n : ℕ}

theorem callsAtMost_call {o : Op} {k : Ret o → Prog Op Ret ε α} (ho : kind o = false) :
    (Prog.call o k).CallsAtMost kind n ↔ ∀ r, (k r).CallsAtMost kind n := by
  simp [Prog.CallsAtMost, ho]

theorem callsAtMost_last {o : Op} {k : Ret o → Prog Op Ret ε α} (ho : kind o = true) :
    (Prog.call o k).CallsAtMost kind 1 ↔ ∀ r, (k r).CallsAtMost kind 0 := by
  simp [Prog.CallsAtMost, ho]

@[simp] theorem callsAtMost_map {f : α → β} {p : Prog Op Ret ε α} :
    (f <$> p).CallsAtMost kind n ↔ p.CallsAtMost kind n := by
  induction p generalizing n with
  | pure a => exact Iff.rfl
  | raise e => exact Iff.rfl
  | call o k ih =>
    rw [Prog.map_call, Prog.CallsAtMost, Prog.CallsAtMost]
    split
    · exact and_congr_right fun _ => forall_congr' fun r => ih r
    · exact forall_congr' fun r => ih r

/-- A program of the second stage. -/
theorem callsAtMost_second {q : Prog Op' Ret' ε' β}
    (h : q.CallsAtMost (fun o => kind' (.inr o)) n) :
    (q.second : Prog (Op ⊕ Op') (StageRet Ret Ret') (Halt ε ε') β).CallsAtMost kind' n := by
  induction q generalizing n with
  | pure b => trivial
  | raise e => trivial
  | call o k ih =>
    simp only [Prog.second, Prog.CallsAtMost] at h ⊢
    split at h
    · next ho =>
      rw [if_pos ho]
      exact ⟨h.1, fun r => ih r (h.2 r)⟩
    · next ho =>
      rw [if_neg ho]
      exact fun r => ih r (h r)

/-- A program in two stages, of which the first makes no such calls. -/
theorem callsAtMost_staged {f : α → Option (Prog Op' Ret' ε' β)} (p : Prog Op Ret ε α)
    (hfirst : ∀ o, kind' (.inl o) = false)
    (hsecond : ∀ a q, f a = some q → q.CallsAtMost (fun o => kind' (.inr o)) n) :
    (p.staged f).CallsAtMost kind' n := by
  induction p with
  | pure a =>
    rw [Prog.staged]
    split
    · next q hq => exact callsAtMost_second (hsecond a q hq)
    · trivial
  | raise e => trivial
  | call o k ih =>
    simp only [Prog.staged, Prog.CallsAtMost, hfirst, Bool.false_eq_true, if_false]
    exact ih

variable [DecidableEq ι] {S : System ι Op Ret ε L σ} {c c₀ : Config ι Op Ret ε α L σ}
  {guard : Guard ι Op Ret ε σ}

/-- **Nobody makes more calls of a kind than their program does.** -/
theorem Reach.calls_le {i : ι} (hstart : (c₀.threads i).prog.CallsAtMost kind n)
    (htrace : c₀.trace = []) (h : Reach S guard c₀ c) :
    c.trace.countP (fun ev => ev.who = i ∧ kind ev.op) ≤ n := by
  -- what has been called and what is left to call are not more
  suffices hleft : ∃ m, (c.threads i).prog.CallsAtMost kind m ∧
      c.trace.countP (fun ev => ev.who = i ∧ kind ev.op) + m ≤ n by
    obtain ⟨m, -, hle⟩ := hleft
    omega
  induction h with
  | refl => exact ⟨n, hstart, by simp [htrace]⟩
  | @step c j o k _ hp _ _ ih =>
    obtain ⟨m, hprog, hle⟩ := ih
    rw [Config.advance_call hp]
    by_cases hj : j = i
    · subst hj
      have hresume : ∀ {m'}, (∀ r, (k r).CallsAtMost kind m') → ∀ answer,
          (Prog.resume k answer : Prog Op Ret ε α).CallsAtMost kind m' := by
        intro m' h answer
        cases answer with
        | ok r => exact h r
        | error e => trivial
      rw [hp, Prog.CallsAtMost] at hprog
      simp only [Function.update_self]
      split at hprog
      · next ho =>
        refine ⟨m - 1, hresume hprog.2 _, ?_⟩
        rw [List.countP_cons_of_pos (by simpa using ho)]
        have hpos := hprog.1
        omega
      · next ho =>
        refine ⟨m, hresume hprog _, ?_⟩
        rw [List.countP_cons_of_neg (by simpa using ho)]
        exact hle
    · refine ⟨m, ?_, ?_⟩
      · simpa [Function.update_of_ne (Ne.symm hj)] using hprog
      · rw [List.countP_cons_of_neg (by simp [hj])]
        exact hle

/-- **Programs that make one call of a kind make as many as they are.** -/
theorem Reach.countP_le {Q : ι → Prop} [DecidablePred Q]
    (hstart : ∀ i, Q i → (c₀.threads i).prog.CallsAtMost kind 1) (htrace : c₀.trace = [])
    (h : Reach S guard c₀ c)
    (hcard : ∀ s : Finset ι, (∀ i ∈ s, Q i ∧ Called c.trace i kind) → s.card ≤ n) :
    c.trace.countP (fun ev => Q ev.who ∧ kind ev.op) ≤ n := by
  generalize hl : (c.trace.filter fun ev => Q ev.who ∧ kind ev.op) = calls
  have hmem : ∀ ev ∈ calls, Q ev.who ∧ Called c.trace ev.who kind := by
    intro ev hev
    rw [← hl, List.mem_filter] at hev
    obtain ⟨hQ, hkind⟩ := of_decide_eq_true hev.2
    exact ⟨hQ, ev, hev.1, rfl, hkind⟩
  -- nobody makes two of the calls
  have hnodup : (calls.map (·.who)).Nodup := by
    refine List.nodup_iff_count_le_one.mpr fun i => ?_
    by_cases hi : Q i
    · have hone := h.calls_le (i := i) (hstart i hi) htrace
      refine le_trans ?_ hone
      rw [List.count_eq_countP, List.countP_map, ← hl, List.countP_filter]
      refine List.countP_mono_left fun ev _ hev => ?_
      simp only [Function.comp_apply, Bool.and_eq_true, beq_iff_eq, decide_eq_true_eq] at hev ⊢
      exact ⟨hev.1, hev.2.2⟩
    · rw [List.count_eq_zero.mpr]
      · exact Nat.zero_le 1
      · intro hmap
        obtain ⟨ev, hev, rfl⟩ := List.mem_map.mp hmap
        exact hi (hmem ev hev).1
  calc c.trace.countP (fun ev => Q ev.who ∧ kind ev.op)
      = (calls.map (·.who)).toFinset.card := by
        rw [List.toFinset_card_of_nodup hnodup, List.length_map, ← hl, List.countP_eq_length_filter]
    _ ≤ n := by
        refine hcard _ fun i hi => ?_
        obtain ⟨ev, hev, rfl⟩ := List.mem_map.mp (List.mem_toFinset.mp hi)
        exact hmem ev hev

/-- **What all calls of a program are, the calls in a trace are.** -/
theorem Reach.trace_along (Calls : ι → Op → Prop)
    (hcalls : ∀ i, (c₀.threads i).prog.Along (fun _ _ => True) (Calls i) True)
    (htrace : c₀.trace = []) (h : Reach S guard c₀ c) : ∀ ev ∈ c.trace, Calls ev.who ev.op := by
  suffices hall : (∀ i, (c.threads i).prog.Along (fun _ _ => True) (Calls i) True) ∧
      ∀ ev ∈ c.trace, Calls ev.who ev.op from hall.2
  induction h with
  | refl => exact ⟨hcalls, by simp [htrace]⟩
  | @step c i o k _ hp _ _ ih =>
    obtain ⟨halong, hmade⟩ := ih
    have hi := halong i
    rw [hp, Prog.along_call] at hi
    obtain ⟨hcall, hrest⟩ := hi
    rw [Config.advance_call hp]
    refine ⟨fun j => ?_, fun ev hev => ?_⟩
    · rcases eq_or_ne j i with rfl | hj
      · simp only [Function.update_self]
        rcases (S.exec j o ((c.threads j).loc, c.shared)).1 with e | r
        · trivial
        · exact hrest r trivial
      · simpa only [Function.update_of_ne hj] using halong j
    · rcases List.mem_cons.mp hev with rfl | hev
      · exact hcall
      · exact hmade ev hev

end calls

end Interaction
