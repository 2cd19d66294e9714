import FastapiStarter.Lib.Prog

/-!
# Handling the calls of a program

A program whose calls are always answered runs against a state to an outcome.
Such programs are wrapped: each call of the inner program is replaced by a program
over another interface, which keeps a state of its own across the calls, and the
exception that the inner program ends with becomes a value.

## Main definitions

* `Prog.exec` — running a program alone, when every call is answered.
* `Prog.handle` — a program with its calls handled.

## Main results

* `Prog.exec_handle` — **handling the calls of a program is running it against the
  handled answers**.
* `Prog.exec_rel` — two ways to answer that keep a relation of the states.
-/

namespace Interaction

namespace Prog

variable {Op Op' : Type} {Ret : Op → Type} {Ret' : Op' → Type} {ε α β ℓ σ τ : Type}

/-! ### Runs in which every call is answered -/

/-- Runs a program alone; every call is answered. -/
def exec (answer : (o : Op) → σ → Ret o × σ) : Prog Op Ret ε α → σ → Except ε α × σ
  | .pure a, s => (.ok a, s)
  | .raise e, s => (.error e, s)
  | .call o k, s => (k (answer o s).1).exec answer (answer o s).2

section exec

variable {answer : (o : Op) → σ → Ret o × σ}

@[simp] theorem exec_pure (a : α) (s : σ) :
    (Prog.pure a : Prog Op Ret ε α).exec answer s = (.ok a, s) := rfl

@[simp] theorem exec_call (o : Op) (k : Ret o → Prog Op Ret ε α) (s : σ) :
    (Prog.call o k).exec answer s = (k (answer o s).1).exec answer (answer o s).2 := rfl

/-- Running a sequence runs its parts in turn. -/
theorem exec_bind (p : Prog Op Ret ε α) (f : α → Prog Op Ret ε β) (s : σ) :
    (p >>= f).exec answer s =
      match p.exec answer s with
      | (.ok a, s') => (f a).exec answer s'
      | (.error e, s') => (.error e, s') := by
  induction p generalizing s with
  | pure a => rfl
  | raise e => rfl
  | call o k ih => exact ih _ _

theorem exec_bind_ok {p : Prog Op Ret ε α} {f : α → Prog Op Ret ε β} {s s' : σ} {a : α}
    (h : p.exec answer s = (.ok a, s')) : (p >>= f).exec answer s = (f a).exec answer s' := by
  rw [exec_bind, h]

/-- **Two ways to answer that keep a relation of the states** lead a program to the
same outcome, and to related states. -/
theorem exec_rel {answer' : (o : Op) → τ → Ret o × τ} {R : σ → τ → Prop}
    (h : ∀ o s t, R s t → (answer o s).1 = (answer' o t).1 ∧ R (answer o s).2 (answer' o t).2)
    (p : Prog Op Ret ε α) {s : σ} {t : τ} (hst : R s t) :
    (p.exec answer s).1 = (p.exec answer' t).1 ∧ R (p.exec answer s).2 (p.exec answer' t).2 := by
  induction p generalizing s t with
  | pure a => exact ⟨rfl, hst⟩
  | raise e => exact ⟨rfl, hst⟩
  | call o k ih =>
    obtain ⟨hret, hrel⟩ := h o s t hst
    rw [exec_call, exec_call, ← hret]
    exact ih _ hrel

/-- What every answer to a call that the program may make keeps, a run keeps. -/
theorem exec_along {Calls : Op → Prop} {Raises : Prop} {Kept : σ → Prop}
    (h : ∀ o s, Calls o → Kept s → Kept (answer o s).2) {p : Prog Op Ret ε α}
    (hp : p.Along (fun _ _ => True) Calls Raises) {s : σ} (hs : Kept s) :
    Kept (p.exec answer s).2 := by
  induction p generalizing s with
  | pure a => exact hs
  | raise e => exact hs
  | call o k ih =>
    rw [along_call] at hp
    exact ih _ (hp.2 _ trivial) (h o s hp.1 hs)

end exec

/-! ### Handled calls -/

/-- A program that raises nothing, among programs that may raise. -/
def widen : Prog Op Ret Empty α → Prog Op Ret ε α
  | .pure a => .pure a
  | .raise e => e.elim
  | .call o k => .call o fun r => (k r).widen

/-- What a program that raises nothing returns. -/
def value : Except Empty α × σ → α × σ
  | (.ok a, s) => (a, s)
  | (.error e, _) => e.elim

/-- The program with its calls handled by programs that keep a state of type `ℓ`;
its exception is caught. -/
def handle (h : (o : Op) → ℓ → Prog Op' Ret' Empty (Ret o × ℓ)) :
    Prog Op Ret ε α → ℓ → Prog Op' Ret' ε (Except ε α × ℓ)
  | .pure a, l => .pure (.ok a, l)
  | .raise e, l => .pure (.error e, l)
  | .call o k, l => (h o l).widen >>= fun r => (k r.1).handle h r.2

/-- The answers that handled calls get, on the state of the handlers and that behind. -/
def handled (h : (o : Op) → ℓ → Prog Op' Ret' Empty (Ret o × ℓ))
    (answer : (o : Op') → σ → Ret' o × σ) (o : Op) (s : ℓ × σ) : Ret o × (ℓ × σ) :=
  let r := value ((h o s.1).exec answer s.2)
  (r.1.1, r.1.2, r.2)

section handle

variable {answer : (o : Op') → σ → Ret' o × σ}
  {h : (o : Op) → ℓ → Prog Op' Ret' Empty (Ret o × ℓ)}

theorem exec_widen (p : Prog Op' Ret' Empty α) (s : σ) :
    (p.widen : Prog Op' Ret' ε α).exec answer s =
      (.ok (value (p.exec answer s)).1, (value (p.exec answer s)).2) := by
  induction p generalizing s with
  | pure a => rfl
  | raise e => exact e.elim
  | call o k ih => exact ih _ _

/-- **Handling the calls of a program is running it against the handled answers.** -/
theorem exec_handle (p : Prog Op Ret ε α) (l : ℓ) (s : σ) :
    (p.handle h l).exec answer s =
      let r := p.exec (handled h answer) (l, s)
      (.ok (r.1, r.2.1), r.2.2) := by
  induction p generalizing l s with
  | pure a => rfl
  | raise e => rfl
  | call o k ih =>
    rw [handle, exec_bind_ok (exec_widen _ _)]
    exact ih _ _ _

/-! ### The calls of wrapped programs -/

variable {Calls : Op' → Prop} {Raises : Prop}

theorem along_bind {p : Prog Op' Ret' ε α} {f : α → Prog Op' Ret' ε β}
    (hp : p.Along (fun _ _ => True) Calls Raises)
    (hf : ∀ a, (f a).Along (fun _ _ => True) Calls Raises) :
    (p >>= f).Along (fun _ _ => True) Calls Raises := by
  induction p with
  | pure a => exact hf a
  | raise e => exact hp
  | call o k ih => exact ⟨hp.1, fun r hr => ih r (hp.2 r hr)⟩

theorem along_widen {p : Prog Op' Ret' Empty α} (hp : p.Along (fun _ _ => True) Calls Raises) :
    (p.widen : Prog Op' Ret' ε α).Along (fun _ _ => True) Calls Raises := by
  induction p with
  | pure a => trivial
  | raise e => exact e.elim
  | call o k ih => exact ⟨hp.1, fun r hr => ih r (hp.2 r hr)⟩

/-- A program whose handlers keep to a discipline keeps to it. -/
theorem along_handle {Calls' : Op → Prop} {Raises' : Prop}
    (hh : ∀ o l, Calls' o → (h o l).Along (fun _ _ => True) Calls Raises) {p : Prog Op Ret ε α}
    (hp : p.Along (fun _ _ => True) Calls' Raises') (l : ℓ) :
    (p.handle h l : Prog Op' Ret' ε _).Along (fun _ _ => True) Calls Raises := by
  induction p generalizing l with
  | pure a => trivial
  | raise e => trivial
  | call o k ih => exact along_bind (along_widen (hh o l hp.1)) fun r => ih _ (hp.2 _ trivial) _

end handle

end Prog

end Interaction
