import FastapiStarter.Lib.Prog

/-!
# Pools of interacting programs

Any number of programs run side by side over one shared state, each with a
local state of its own.  One step of the pool lets one program make one call;
which program moves is not determined, so a reachable configuration stands for
every interleaving.  The pool keeps the trace of the calls made and of their
answers, newest first.

A claim about every interleaving is proved on an *abstraction*: a type of phases
that a program goes through, what each call may do to the phase and the shared
state, and which outcomes a phase allows.  `Sim` ties one program to the
abstraction, once, by following the tree of the program; `Reach.abstract` then
replaces the programs by their phases.

## Main definitions

* `System`, `Thread`, `Config` — the operations, one program, the pool.
* `Config.advance`, `Reach` — one step and the reachable configurations.
* `Config.schedule`, `Allowed` — running a given schedule, to exhibit a run.
* `Abstraction`, `Sim` — phases, and a program simulated by them.

## Main results

* `Reach.abstract` — an invariant of the phases holds in every reachable
  configuration.
* `Reach.along` — what every call keeps, a run keeps.
* `reach_schedule` — an allowed schedule leads to a reachable configuration.
-/

namespace Interaction

/-- What the operations do: `exec i o` answers the call `o` of program `i` from
its local and the shared state, when `enabled`. -/
structure System (ι Op : Type) (Ret : Op → Type) (ε L σ : Type) where
  /-- The answer to a call, with the new local and shared state. -/
  exec : ι → (o : Op) → L × σ → Except ε (Ret o) × (L × σ)
  /-- A call that is not enabled has to wait. -/
  enabled : ι → (o : Op) → L × σ → Prop

/-- A call made by a program of the pool, and the answer it got. -/
structure Event (ι Op : Type) (Ret : Op → Type) (ε : Type) where
  /-- The program that made the call. -/
  who : ι
  /-- The operation called. -/
  op : Op
  /-- The answer, or the exception the call ended with. -/
  answer : Except ε (Ret op)

/-- Program `i` has called an operation that `p` selects. -/
def Called {ι Op : Type} {Ret : Op → Type} {ε : Type} (tr : List (Event ι Op Ret ε)) (i : ι)
    (p : Op → Bool) : Prop :=
  ∃ ev ∈ tr, ev.who = i ∧ p ev.op = true

section called

variable {ι Op : Type} {Ret : Op → Type} {ε : Type} {tr : List (Event ι Op Ret ε)} {i j : ι}
  {p : Op → Bool}

instance [DecidableEq ι] : Decidable (Called tr i p) :=
  inferInstanceAs (Decidable (∃ ev ∈ tr, ev.who = i ∧ p ev.op = true))

@[simp] theorem called_nil : ¬ Called ([] : List (Event ι Op Ret ε)) i p := by
  simp [Called]

@[simp] theorem called_cons {ev : Event ι Op Ret ε} :
    Called (ev :: tr) i p ↔ (ev.who = i ∧ p ev.op = true) ∨ Called tr i p := by
  simp [Called]

end called

/-- One program of the pool, with its local state. -/
structure Thread (Op : Type) (Ret : Op → Type) (ε α L : Type) where
  /-- What is left to run. -/
  prog : Prog Op Ret ε α
  /-- The local state. -/
  loc : L

/-- The outcome of a program that has ended. -/
def Thread.result {Op : Type} {Ret : Op → Type} {ε α L : Type}
    (t : Thread Op Ret ε α L) : Option (Except ε α) :=
  match t.prog with
  | .pure a => some (.ok a)
  | .raise e => some (.error e)
  | .call _ _ => none

/-- A program that has not ended makes a call. -/
theorem Thread.exists_call {Op : Type} {Ret : Op → Type} {ε α L : Type}
    {t : Thread Op Ret ε α L} (h : t.result = none) : ∃ o k, t.prog = .call o k := by
  unfold Thread.result at h
  split at h
  · cases h
  · cases h
  · exact ⟨_, _, ‹_›⟩

/-- A configuration of the pool. -/
structure Config (ι Op : Type) (Ret : Op → Type) (ε α L σ : Type) where
  /-- The programs. -/
  threads : ι → Thread Op Ret ε α L
  /-- The shared state. -/
  shared : σ
  /-- The calls made so far, newest first. -/
  trace : List (Event ι Op Ret ε)

section pool

variable {ι Op : Type} {Ret : Op → Type} {ε α L σ : Type} [DecidableEq ι]
  (S : System ι Op Ret ε L σ)

/-- Lets program `i` make its next call; a program that has ended stays. -/
def Config.advance (c : Config ι Op Ret ε α L σ) (i : ι) : Config ι Op Ret ε α L σ :=
  match (c.threads i).prog with
  | .call o k =>
    match S.exec i o ((c.threads i).loc, c.shared) with
    | (.ok r, l, s) => ⟨Function.update c.threads i ⟨k r, l⟩, s, ⟨i, o, .ok r⟩ :: c.trace⟩
    | (.error e, l, s) =>
      ⟨Function.update c.threads i ⟨.raise e, l⟩, s, ⟨i, o, .error e⟩ :: c.trace⟩
  | _ => c

theorem Config.advance_ok {c : Config ι Op Ret ε α L σ} {i : ι} {o : Op} {r : Ret o} {l : L}
    {s : σ} {k : Ret o → Prog Op Ret ε α} (hp : (c.threads i).prog = .call o k)
    (hx : S.exec i o ((c.threads i).loc, c.shared) = (.ok r, l, s)) :
    c.advance S i =
      ⟨Function.update c.threads i ⟨k r, l⟩, s, ⟨i, o, .ok r⟩ :: c.trace⟩ := by
  simp only [Config.advance, hp, hx]

theorem Config.advance_error {c : Config ι Op Ret ε α L σ} {i : ι} {o : Op} {e : ε} {l : L}
    {s : σ} {k : Ret o → Prog Op Ret ε α} (hp : (c.threads i).prog = .call o k)
    (hx : S.exec i o ((c.threads i).loc, c.shared) = (.error e, l, s)) :
    c.advance S i =
      ⟨Function.update c.threads i ⟨.raise e, l⟩, s, ⟨i, o, .error e⟩ :: c.trace⟩ := by
  simp only [Config.advance, hp, hx]

/-- A program that has ended stays. -/
theorem Config.advance_of_result {c : Config ι Op Ret ε α L σ} {i : ι} {x : Except ε α}
    (hx : (c.threads i).result = some x) : c.advance S i = c := by
  unfold Thread.result at hx
  unfold Config.advance
  split at hx <;> simp_all

/-- An assumption on the calls of a run: whether program `i` may make the call
`o` after the given trace, in the given shared state. -/
abbrev Guard (ι Op : Type) (Ret : Op → Type) (ε σ : Type) :=
  List (Event ι Op Ret ε) → σ → ι → Op → Prop

/-- The configurations reachable by calls that are enabled and meet the guard. -/
inductive Reach (guard : Guard ι Op Ret ε σ) (c₀ : Config ι Op Ret ε α L σ) :
    Config ι Op Ret ε α L σ → Prop
  /-- The initial configuration. -/
  | refl : Reach guard c₀ c₀
  /-- One more call. -/
  | step {c : Config ι Op Ret ε α L σ} {i : ι} {o : Op} {k : Ret o → Prog Op Ret ε α} :
      Reach guard c₀ c → (c.threads i).prog = .call o k →
      S.enabled i o ((c.threads i).loc, c.shared) → guard c.trace c.shared i o →
      Reach guard c₀ (c.advance S i)

/-- The guard that allows every call. -/
def anyCall : Guard ι Op Ret ε σ := fun _ _ _ _ => True

/-! ### Running a given schedule -/

/-- The configuration after the programs of the list have moved, in order. -/
def Config.schedule (c : Config ι Op Ret ε α L σ) : List ι → Config ι Op Ret ε α L σ
  | [] => c
  | i :: is => (c.advance S i).schedule is

/-- The next call of program `i` is enabled and meets the guard. -/
def Moves (guard : Guard ι Op Ret ε σ) (c : Config ι Op Ret ε α L σ) (i : ι) : Prop :=
  match (c.threads i).prog with
  | .call o _ => S.enabled i o ((c.threads i).loc, c.shared) ∧ guard c.trace c.shared i o
  | _ => False

/-- Every move of the schedule is a call that is enabled and meets the guard. -/
def Allowed (guard : Guard ι Op Ret ε σ) : Config ι Op Ret ε α L σ → List ι → Prop
  | _, [] => True
  | c, i :: is => Moves S guard c i ∧ Allowed guard (c.advance S i) is

section decidable

variable {guard : Guard ι Op Ret ε σ} [∀ i o x, Decidable (S.enabled i o x)]
  [∀ tr s i o, Decidable (guard tr s i o)]

omit [DecidableEq ι] in
instance Moves.decidable (c : Config ι Op Ret ε α L σ) (i : ι) : Decidable (Moves S guard c i) :=
  match h : (c.threads i).prog with
  | .call o _ => decidable_of_iff
      (S.enabled i o ((c.threads i).loc, c.shared) ∧ guard c.trace c.shared i o)
        (by simp [Moves, h])
  | .pure _ => .isFalse (by simp [Moves, h])
  | .raise _ => .isFalse (by simp [Moves, h])

instance Allowed.decidable : ∀ (c : Config ι Op Ret ε α L σ) (is : List ι),
    Decidable (Allowed S guard c is)
  | _, [] => .isTrue trivial
  | c, i :: is =>
    have := Allowed.decidable (c.advance S i) is
    inferInstanceAs (Decidable (Moves S guard c i ∧ Allowed S guard (c.advance S i) is))

end decidable

omit [DecidableEq ι] in
instance anyCall.decidable (tr : List (Event ι Op Ret ε)) (s : σ) (i : ι) (o : Op) :
    Decidable (anyCall tr s i o) := .isTrue trivial

variable {S}

/-- **An allowed schedule leads to a reachable configuration.** -/
theorem reach_schedule {guard : Guard ι Op Ret ε σ} {c₀ : Config ι Op Ret ε α L σ} :
    ∀ (is : List ι) {c : Config ι Op Ret ε α L σ}, Reach S guard c₀ c →
      Allowed S guard c is → Reach S guard c₀ (c.schedule S is) := by
  intro is
  induction is with
  | nil => intro c hc _; exact hc
  | cons i is ih =>
    intro c hc hal
    obtain ⟨hcall, hrest⟩ := hal
    unfold Moves at hcall
    cases hp : (c.threads i).prog with
    | pure a => rw [hp] at hcall; exact hcall.elim
    | raise e => rw [hp] at hcall; exact hcall.elim
    | call o k =>
      rw [hp] at hcall
      exact ih (hc.step hp hcall.1 hcall.2) hrest

/-! ### Disciplined pools -/

/-- **What every call keeps, a run keeps.**  Each program keeps to a discipline; a
call that meets it keeps a property of the local state and relates the shared
states before and after. -/
theorem Reach.along {guard : Guard ι Op Ret ε σ} {c₀ c : Config ι Op Ret ε α L σ}
    {Answers : (o : Op) → Ret o → Prop} {Calls : Op → Prop} {Local : L → Prop}
    {Related : σ → σ → Prop} (hrefl : ∀ s, Related s s)
    (htrans : ∀ s s' s'', Related s s' → Related s' s'' → Related s s'')
    (hanswer : ∀ i o x r y, S.exec i o x = (.ok r, y) → Answers o r)
    (hcall : ∀ i o l s, Calls o → Local l →
      Local (S.exec i o (l, s)).2.1 ∧ Related s (S.exec i o (l, s)).2.2)
    (hstart : ∀ i, (c₀.threads i).prog.Along Answers Calls True ∧ Local (c₀.threads i).loc)
    (h : Reach S guard c₀ c) :
    Related c₀.shared c.shared ∧
      ∀ i, (c.threads i).prog.Along Answers Calls True ∧ Local (c.threads i).loc := by
  -- induction on the run; a step touches one thread and the shared state
  induction h with
  | refl => exact ⟨hrefl _, hstart⟩
  | @step c i o k _ hp hen hg ih =>
    obtain ⟨hrel, hthreads⟩ := ih
    obtain ⟨halong, hlocal⟩ := hthreads i
    rw [hp, Prog.along_call] at halong
    obtain ⟨hcalls, hrest⟩ := halong
    obtain ⟨hlocal', hrel'⟩ := hcall i o (c.threads i).loc c.shared hcalls hlocal
    rcases hx : S.exec i o ((c.threads i).loc, c.shared) with ⟨e | r, l, s⟩
    · rw [hx] at hlocal' hrel'
      rw [Config.advance_error S hp hx]
      refine ⟨htrans _ _ _ hrel hrel', fun j => ?_⟩
      by_cases hj : j = i
      · subst hj
        simpa using hlocal'
      · simpa [Function.update_of_ne hj] using hthreads j
    · rw [hx] at hlocal' hrel'
      rw [Config.advance_ok S hp hx]
      refine ⟨htrans _ _ _ hrel hrel', fun j => ?_⟩
      by_cases hj : j = i
      · subst hj
        have hk := hrest r (hanswer _ _ _ _ _ hx)
        simpa using And.intro hk hlocal'
      · simpa [Function.update_of_ne hj] using hthreads j

/-! ### Abstraction -/

variable (S)

/-- Phases a program goes through, seen from outside. -/
structure Abstraction (ι Op : Type) (Ret : Op → Type) (ε α σ : Type) where
  /-- The phases. -/
  Phase : Type
  /-- What a program may rely on, in a phase, of the shared state. -/
  Rely : ι → Phase → σ → Prop
  /-- What a call may do: program, phase and state before, call, answer, state and
  phase after. -/
  Act : ι → Phase → σ → (o : Op) → Except ε (Ret o) → σ → Phase → Prop
  /-- The outcomes a program may end with in a phase. -/
  Final : ι → Phase → Except ε α → Prop

variable (A : Abstraction ι Op Ret ε α σ)

/-- `Sim i p l φ`: program `i`, with `p` left to run and local state `l`, behaves
as the abstraction allows from phase `φ`, whatever the others do meanwhile to a
state it may rely on. -/
def Sim (i : ι) : Prog Op Ret ε α → L → A.Phase → Prop
  | .pure a, _, φ => A.Final i φ (.ok a)
  | .raise e, _, φ => A.Final i φ (.error e)
  | .call o k, l, φ => ∀ s, A.Rely i φ s →
    match S.exec i o (l, s) with
    | (.ok r, l', s') => ∃ φ', A.Act i φ s o (.ok r) s' φ' ∧ Sim i (k r) l' φ'
    | (.error e, _, s') => ∃ φ', A.Act i φ s o (.error e) s' φ' ∧ A.Final i φ' (.error e)

variable {S A}

section rules

omit [DecidableEq ι]

variable {i : ι} {o : Op} {k : Ret o → Prog Op Ret ε α} {l : L} {φ : A.Phase}

@[simp] theorem sim_raise {e : ε} : Sim S A i (.raise e) l φ ↔ A.Final i φ (.error e) := Iff.rfl

/-- A program that makes a call is simulated one answer at a time. -/
theorem Sim.call (h : ∀ s, A.Rely i φ s →
    match S.exec i o (l, s) with
    | (.ok r, l', s') => ∃ φ', A.Act i φ s o (.ok r) s' φ' ∧ Sim S A i (k r) l' φ'
    | (.error e, _, s') => ∃ φ', A.Act i φ s o (.error e) s' φ' ∧ A.Final i φ' (.error e)) :
    Sim S A i (.call o k) l φ := h

end rules

omit [DecidableEq ι] in
/-- A program that has ended did so with an outcome its phase allows. -/
theorem Sim.final {i : ι} {t : Thread Op Ret ε α L} {φ : A.Phase} {x : Except ε α}
    (h : Sim S A i t.prog t.loc φ) (hx : t.result = some x) : A.Final i φ x := by
  unfold Thread.result at hx
  split at hx
  · next a hp => rw [hp] at h; cases hx; exact h
  · next e hp => rw [hp] at h; cases hx; exact h
  · cases hx

omit [DecidableEq ι] in
/-- The call that a program makes next is an action its phase allows. -/
theorem Sim.act {i : ι} {o : Op} {k : Ret o → Prog Op Ret ε α} {l : L} {φ : A.Phase} {s : σ}
    (h : Sim S A i (.call o k) l φ) (hrely : A.Rely i φ s) :
    ∃ ans s' φ', A.Act i φ s o ans s' φ' := by
  have hstep := h s hrely
  rcases hx : S.exec i o (l, s) with ⟨e | r, l', s'⟩
  · rw [hx] at hstep
    obtain ⟨φ', hact, -⟩ := hstep
    exact ⟨_, _, φ', hact⟩
  · rw [hx] at hstep
    obtain ⟨φ', hact, -⟩ := hstep
    exact ⟨_, _, φ', hact⟩

/-- One step of the pool is one action of the abstraction. -/
theorem Sim.advance {c : Config ι Op Ret ε α L σ} {φ : ι → A.Phase} {i : ι} {o : Op}
    {k : Ret o → Prog Op Ret ε α} (hsim : ∀ j, Sim S A j (c.threads j).prog (c.threads j).loc (φ j))
    (hp : (c.threads i).prog = .call o k) (hrely : A.Rely i (φ i) c.shared) :
    ∃ ans φ', A.Act i (φ i) c.shared o ans (c.advance S i).shared φ' ∧
      (c.advance S i).trace = ⟨i, o, ans⟩ :: c.trace ∧
      ∀ j, Sim S A j ((c.advance S i).threads j).prog ((c.advance S i).threads j).loc
        (Function.update φ i φ' j) := by
  have hi := hsim i
  rw [hp] at hi
  have hstep := hi c.shared hrely
  rcases hx : S.exec i o ((c.threads i).loc, c.shared) with ⟨e | r, l, s⟩
  · rw [hx] at hstep
    obtain ⟨φ', hact, hfin⟩ := hstep
    rw [Config.advance_error S hp hx]
    refine ⟨.error e, φ', hact, rfl, fun j => ?_⟩
    by_cases hj : j = i
    · subst hj; simpa [Sim] using hfin
    · simpa [Function.update_of_ne hj] using hsim j
  · rw [hx] at hstep
    obtain ⟨φ', hact, hk⟩ := hstep
    rw [Config.advance_ok S hp hx]
    refine ⟨.ok r, φ', hact, rfl, fun j => ?_⟩
    by_cases hj : j = i
    · subst hj; simpa using hk
    · simpa [Function.update_of_ne hj] using hsim j

/-- **An invariant of the phases holds in every reachable configuration.**  Each
program is tied to its phase by `Sim`; the invariant is on the phases, the shared
state and the trace.  It has to give the programs what they rely on, and to
survive the actions of the abstraction only. -/
theorem Reach.abstract {guard : Guard ι Op Ret ε σ} {c₀ c : Config ι Op Ret ε α L σ}
    {φ₀ : ι → A.Phase} (Inv : (ι → A.Phase) → σ → List (Event ι Op Ret ε) → Prop)
    (hsim : ∀ i, Sim S A i (c₀.threads i).prog (c₀.threads i).loc (φ₀ i))
    (hinit : Inv φ₀ c₀.shared c₀.trace)
    (hrely : ∀ φ s tr, Inv φ s tr → ∀ i, A.Rely i (φ i) s)
    (hstep : ∀ φ s tr i o ans s' φ', Inv φ s tr → guard tr s i o →
      A.Act i (φ i) s o ans s' φ' → Inv (Function.update φ i φ') s' (⟨i, o, ans⟩ :: tr))
    (h : Reach S guard c₀ c) :
    ∃ φ, Inv φ c.shared c.trace ∧ ∀ i, Sim S A i (c.threads i).prog (c.threads i).loc (φ i) := by
  induction h with
  | refl => exact ⟨φ₀, hinit, hsim⟩
  | @step c i o k _ hp hen hg ih =>
    obtain ⟨φ, hinv, hφ⟩ := ih
    obtain ⟨ans, φ', hact, htr, hsim'⟩ := Sim.advance hφ hp (hrely _ _ _ hinv i)
    refine ⟨Function.update φ i φ', ?_, hsim'⟩
    rw [htr]
    exact hstep φ c.shared c.trace i o ans _ φ' hinv hg hact

end pool

end Interaction
