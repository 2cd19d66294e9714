import FastapiStarter.Lib.Prog

/-!
# Programs over two backends

The calls of an interface go partly to the surroundings of a program and partly to a
backend.  The same program, in the same surroundings, is run over two backends; it
cannot tell them apart when they give the same answers, call by call.

The surroundings may have to be fine for that, such as that no fresh value has been
drawn twice; what is fine after a call was fine before.

## Main definitions

* `Prog.onBackend` — the answers of a backend in its surroundings.
* `Prog.Alike` — the two runs of a program end alike.

## Main results

* `Prog.alike_outside`, `Prog.alike_inside` — one call.
* `Prog.run_rel` — two ways to answer that keep a relation of the states.
-/

namespace Interaction

namespace Prog

variable {Op : Type} {Ret : Op → Type} {ε α β σ τ ω : Type}

/-! ### Relations of states -/

/-- **Two ways to answer that keep a relation of the states** lead a program to the same
end, and to related states. -/
theorem run_rel {exec : (o : Op) → σ → Except ε (Ret o) × σ}
    {exec' : (o : Op) → τ → Except ε (Ret o) × τ} {R : σ → τ → Prop}
    (h : ∀ o s t, R s t → (exec o s).1 = (exec' o t).1 ∧ R (exec o s).2 (exec' o t).2)
    (p : Prog Op Ret ε α) {s : σ} {t : τ} (hst : R s t) :
    (p.run exec s).1 = (p.run exec' t).1 ∧ R (p.run exec s).2 (p.run exec' t).2 := by
  induction p generalizing s t with
  | pure a => exact ⟨rfl, hst⟩
  | raise e => exact ⟨rfl, hst⟩
  | call o k ih =>
    obtain ⟨hret, hrel⟩ := h o s t hst
    rw [run_call, run_call]
    rcases hx : exec o s with ⟨e | r, s'⟩
    · rcases hx' : exec' o t with ⟨e' | r', t'⟩
      · rw [hx, hx'] at hret hrel
        obtain rfl := Except.error.inj hret
        exact ⟨rfl, hrel⟩
      · rw [hx, hx'] at hret
        cases hret
    · rcases hx' : exec' o t with ⟨e' | r', t'⟩
      · rw [hx, hx'] at hret
        cases hret
      · rw [hx, hx'] at hret hrel
        obtain rfl := Except.ok.inj hret
        exact ih r hrel

/-- What is made of the result does not matter to the run. -/
@[simp]
theorem run_map (exec : (o : Op) → σ → Except ε (Ret o) × σ) (f : α → β) (p : Prog Op Ret ε α)
    (s : σ) : (f <$> p).run exec s = ((p.run exec s).1.map f, (p.run exec s).2) := by
  induction p generalizing s with
  | pure a => rfl
  | raise e => rfl
  | call o k ih =>
    rw [map_call, run_call, run_call]
    rcases exec o s with ⟨e | r, s'⟩
    · rfl
    · exact ih r s'

/-! ### Two backends -/

/-- The answers of a backend in its surroundings. -/
def onBackend (outside : Op → Bool) (out : (o : Op) → ω → Except ε (Ret o) × ω)
    (backend : (o : Op) → σ → Except ε (Ret o) × σ) (o : Op) (x : σ × ω) :
    Except ε (Ret o) × (σ × ω) :=
  if outside o then ((out o x.2).1, x.1, (out o x.2).2)
  else ((backend o x.1).1, (backend o x.1).2, x.2)

section onBackend

variable {outside : Op → Bool} {out : (o : Op) → ω → Except ε (Ret o) × ω}
  {backend : (o : Op) → σ → Except ε (Ret o) × σ}

theorem onBackend_outside {o : Op} (ho : outside o = true) (s : σ) (w : ω) :
    onBackend outside out backend o (s, w) = ((out o w).1, s, (out o w).2) := by
  rw [onBackend, if_pos ho]

theorem onBackend_inside {o : Op} (ho : outside o = false) (s : σ) (w : ω) :
    onBackend outside out backend o (s, w) = ((backend o s).1, (backend o s).2, w) := by
  rw [onBackend, if_neg (by simp [ho])]

/-- What is fine at the end of a run was fine before. -/
theorem fine_of_run {Fine : ω → Prop}
    (hback : ∀ o w, outside o = true → Fine (out o w).2 → Fine w) (p : Prog Op Ret ε α)
    {s : σ} {w : ω} (h : Fine (p.run (onBackend outside out backend) (s, w)).2.2) : Fine w := by
  induction p generalizing s w with
  | pure a => exact h
  | raise e => exact h
  | call o k ih =>
    rw [run_call] at h
    cases ho : outside o with
    | true =>
      rw [onBackend_outside ho] at h
      rcases hx : (out o w).1 with e | r
      · rw [hx] at h
        exact hback o w ho h
      · rw [hx] at h
        exact hback o w ho (ih r h)
    | false =>
      rw [onBackend_inside ho] at h
      rcases hx : (backend o s).1 with e | r
      · rw [hx] at h
        exact h
      · rw [hx] at h
        exact ih r h

end onBackend

/-- The runs of a program over two backends in the same surroundings, if these are fine
at the end: the same result, the same surroundings, and what `Q` says of the backends. -/
def Alike (outside : Op → Bool) (out : (o : Op) → ω → Except ε (Ret o) × ω) (Fine : ω → Prop)
    (backend : (o : Op) → σ → Except ε (Ret o) × σ)
    (backend' : (o : Op) → τ → Except ε (Ret o) × τ) (p : Prog Op Ret ε α) (s : σ) (t : τ) (w : ω)
    (Q : σ → τ → ω → Prop) : Prop :=
  Fine (p.run (onBackend outside out backend') (t, w)).2.2 →
    ∃ x s' t' w', p.run (onBackend outside out backend) (s, w) = (x, s', w') ∧
      p.run (onBackend outside out backend') (t, w) = (x, t', w') ∧ Q s' t' w'

section alike

variable {outside : Op → Bool} {out : (o : Op) → ω → Except ε (Ret o) × ω} {Fine : ω → Prop}
  {backend : (o : Op) → σ → Except ε (Ret o) × σ}
  {backend' : (o : Op) → τ → Except ε (Ret o) × τ} {s s' : σ} {t t' : τ} {w : ω}
  {Q : σ → τ → ω → Prop}

theorem alike_pure {a : α} (h : Q s t w) :
    (Prog.pure a : Prog Op Ret ε α).Alike outside out Fine backend backend' s t w Q :=
  fun _ => ⟨_, _, _, _, rfl, rfl, h⟩

theorem alike_raise {e : ε} (h : Q s t w) :
    (Prog.raise e : Prog Op Ret ε α).Alike outside out Fine backend backend' s t w Q :=
  fun _ => ⟨_, _, _, _, rfl, rfl, h⟩

variable {o : Op} {k : Ret o → Prog Op Ret ε α}

/-- **A call of the surroundings** is answered in the same way. -/
theorem alike_outside (ho : outside o = true)
    (hok : ∀ r w', out o w = (.ok r, w') →
      (k r).Alike outside out Fine backend backend' s t w' Q)
    (herror : ∀ e w', out o w = (.error e, w') → Q s t w') :
    (Prog.call o k).Alike outside out Fine backend backend' s t w Q := by
  intro hfine
  rw [run_call, onBackend_outside ho] at hfine
  simp only [run_call, onBackend_outside ho]
  rcases hx : out o w with ⟨e | r, w'⟩
  · exact ⟨_, _, _, _, rfl, rfl, herror e w' hx⟩
  · rw [hx] at hfine
    exact hok r w' hx hfine

/-- **A call of the backend**: both have to answer, and in the same way. -/
theorem alike_inside {r : Ret o} (ho : outside o = false) (h : backend o s = (.ok r, s'))
    (h' : backend' o t = (.ok r, t'))
    (hk : (k r).Alike outside out Fine backend backend' s' t' w Q) :
    (Prog.call o k).Alike outside out Fine backend backend' s t w Q := by
  intro hfine
  rw [run_call, onBackend_inside ho, h'] at hfine
  simp only [run_call, onBackend_inside ho, h, h']
  exact hk hfine

/-- The surroundings are fine already. -/
theorem alike_of_fine (hback : ∀ o w, outside o = true → Fine (out o w).2 → Fine w)
    {p : Prog Op Ret ε α}
    (h : Fine w → p.Alike outside out Fine backend backend' s t w Q) :
    p.Alike outside out Fine backend backend' s t w Q :=
  fun hfine => h (fine_of_run hback p hfine) hfine

@[simp] theorem alike_map {f : α → β} {p : Prog Op Ret ε α}
    (h : p.Alike outside out Fine backend backend' s t w Q) :
    (f <$> p).Alike outside out Fine backend backend' s t w Q := by
  unfold Alike at h ⊢
  simp only [run_map]
  intro hfine
  obtain ⟨x, s', t', w', hrun, hrun', hq⟩ := h hfine
  exact ⟨x.map f, s', t', w', by rw [hrun], by rw [hrun'], hq⟩

end alike

end Prog

end Interaction
