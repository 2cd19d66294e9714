import FastapiStarter.Lib.Pool
import Mathlib.Order.Monotone.Basic

/-!
# Projecting a pool onto some of its programs

If some programs of a pool cannot tell what the others do to the shared state, they could
as well be alone: whatever they do in a run, they do in a run in which nobody else moves.
Counters that all programs share are ahead in the longer run, by the events of the others;
where the events of the part stand is known once the run is known.

## Main definitions

* `Prog.resume` — a program after the answer to its call.
* `Positions` — where the events of the part stand in a trace.

## Main results

* `exists_positions` — every trace has its positions.
* `Reach.project` — **a run, projected onto some of its programs.**
-/

namespace Interaction

variable {ι Op : Type} {Ret : Op → Type} {ε α L σ σ' : Type}

/-- What is left of a program after the answer to its call. -/
def Prog.resume {o : Op} (k : Ret o → Prog Op Ret ε α) : Except ε (Ret o) → Prog Op Ret ε α
  | .ok r => k r
  | .error e => .raise e

/-! ### Positions -/

section positions

variable (mine : ι → Prop) [DecidablePred mine]

/-- The events of the part. -/
def eventsOf (tr : List (Event ι Op Ret ε)) : List (Event ι Op Ret ε) :=
  tr.filter fun ev => mine ev.who

/-- The `n`-th event of the part is the `f n`-th event of the trace. -/
def Positions (f : ℕ → ℕ) : List (Event ι Op Ret ε) → Prop
  | [] => True
  | ev :: tr => (mine ev.who → f (eventsOf mine tr).length = tr.length) ∧ Positions f tr

variable {mine} {ev : Event ι Op Ret ε} {tr : List (Event ι Op Ret ε)} {f g : ℕ → ℕ}

theorem eventsOf_cons_of_mine (h : mine ev.who) :
    eventsOf mine (ev :: tr) = ev :: eventsOf mine tr := List.filter_cons_of_pos (by simpa using h)

theorem eventsOf_cons_of_not (h : ¬ mine ev.who) : eventsOf mine (ev :: tr) = eventsOf mine tr :=
  List.filter_cons_of_neg (by simpa using h)

/-- Only the numbers of the events so far matter. -/
theorem Positions.congr (h : Positions mine f tr)
    (hfg : ∀ n < (eventsOf mine tr).length, g n = f n) : Positions mine g tr := by
  induction tr with
  | nil => trivial
  | cons ev tr ih =>
    obtain ⟨hev, htr⟩ := h
    by_cases hmine : mine ev.who
    · rw [eventsOf_cons_of_mine hmine, List.length_cons] at hfg
      exact ⟨fun _ => (hfg _ (Nat.lt_succ_self _)).trans (hev hmine),
        ih htr fun n hn => hfg n (hn.trans (Nat.lt_succ_self _))⟩
    · rw [eventsOf_cons_of_not hmine] at hfg
      exact ⟨fun h => absurd h hmine, ih htr hfg⟩

/-- **Every trace has its positions**, and they increase. -/
theorem exists_positions (mine : ι → Prop) [DecidablePred mine] (tr : List (Event ι Op Ret ε)) :
    ∃ f : ℕ → ℕ, StrictMono f ∧ Positions mine f tr := by
  -- after the events of the part, the positions go on where the trace ends
  suffices h : ∃ f : ℕ → ℕ, StrictMono f ∧ Positions mine f tr ∧
      ∀ k, f ((eventsOf mine tr).length + k) = tr.length + k by
    obtain ⟨f, hf, hpos, -⟩ := h
    exact ⟨f, hf, hpos⟩
  induction tr with
  | nil => exact ⟨id, strictMono_id, trivial, fun k => rfl⟩
  | cons ev tr ih =>
    obtain ⟨f, hf, hpos, hend⟩ := ih
    by_cases hmine : mine ev.who
    · refine ⟨f, hf, ⟨fun _ => hend 0, hpos⟩, fun k => ?_⟩
      rw [eventsOf_cons_of_mine hmine, List.length_cons, List.length_cons, Nat.add_right_comm,
        Nat.add_assoc, hend, Nat.add_right_comm, Nat.add_assoc]
    · -- the position of the next event moves on by one
      refine ⟨fun n => if n < (eventsOf mine tr).length then f n else f n + 1, ?_, ?_, ?_⟩
      · intro n m hnm
        have hlt := hf hnm
        dsimp only
        split <;> split <;> omega
      · exact ⟨fun h => absurd h hmine, hpos.congr fun n hn => if_pos hn⟩
      · intro k
        rw [eventsOf_cons_of_not hmine, List.length_cons, Nat.add_right_comm, ← hend]
        exact if_neg (Nat.not_lt.mpr (Nat.le_add_right _ _))

end positions

/-! ### Projection -/

section pool

variable [DecidableEq ι] {S : System ι Op Ret ε L σ}

/-- One call, whatever its answer. -/
theorem Config.advance_call {c : Config ι Op Ret ε α L σ} {i : ι} {o : Op}
    {k : Ret o → Prog Op Ret ε α} (hp : (c.threads i).prog = .call o k) :
    c.advance S i =
      ⟨Function.update c.threads i ⟨Prog.resume k (S.exec i o ((c.threads i).loc, c.shared)).1,
          (S.exec i o ((c.threads i).loc, c.shared)).2.1⟩,
        (S.exec i o ((c.threads i).loc, c.shared)).2.2,
        ⟨i, o, (S.exec i o ((c.threads i).loc, c.shared)).1⟩ :: c.trace⟩ := by
  rcases hx : S.exec i o ((c.threads i).loc, c.shared) with ⟨e | r, l, s⟩
  · exact c.advance_error S hp hx
  · exact c.advance_ok S hp hx

/-- **A run, projected onto some of its programs.**  `R` relates the shared states; a call
of theirs is answered as in the longer run, and a call of the others is not noticed.  What
is `Known` of the trace of the whole run may be used at every call. -/
theorem Reach.project {guard : Guard ι Op Ret ε σ} {c₀ c : Config ι Op Ret ε α L σ}
    (mine : ι → Prop) [DecidablePred mine] (S' : System ι Op Ret ε L σ')
    (c₀' : Config ι Op Ret ε α L σ') (Calls : ι → Op → Prop)
    (Known : List (Event ι Op Ret ε) → Prop) (R : List (Event ι Op Ret ε) → σ → σ' → Prop)
    (hback : ∀ ev tr, Known (ev :: tr) → Known tr)
    (hcalls : ∀ i, (c₀.threads i).prog.Along (fun _ _ => True) (Calls i) True)
    (hthreads : ∀ i, mine i → c₀'.threads i = c₀.threads i)
    (htrace : c₀'.trace = eventsOf mine c₀.trace) (hinit : R c₀.trace c₀.shared c₀'.shared)
    (hmine : ∀ tr s s' i o l, mine i → Calls i o → R tr s s' →
      Known (⟨i, o, (S.exec i o (l, s)).1⟩ :: tr) → S.enabled i o (l, s) →
        S'.enabled i o (l, s') ∧ (S'.exec i o (l, s')).1 = (S.exec i o (l, s)).1 ∧
        (S'.exec i o (l, s')).2.1 = (S.exec i o (l, s)).2.1 ∧
        R (⟨i, o, (S.exec i o (l, s)).1⟩ :: tr) (S.exec i o (l, s)).2.2 (S'.exec i o (l, s')).2.2)
    (hother : ∀ tr s s' i o l, ¬ mine i → Calls i o → R tr s s' →
      R (⟨i, o, (S.exec i o (l, s)).1⟩ :: tr) (S.exec i o (l, s)).2.2 s')
    (h : Reach S guard c₀ c) (hknown : Known c.trace) :
    ∃ c', Reach S' (fun _ _ i _ => mine i) c₀' c' ∧
      (∀ i, mine i → c'.threads i = c.threads i) ∧ c'.trace = eventsOf mine c.trace ∧
      R c.trace c.shared c'.shared := by
  -- the programs keep to their calls, so that each step is one of the given ones
  suffices hboth : (∀ i, (c.threads i).prog.Along (fun _ _ => True) (Calls i) True) ∧
      ∃ c', Reach S' (fun _ _ i _ => mine i) c₀' c' ∧
        (∀ i, mine i → c'.threads i = c.threads i) ∧ c'.trace = eventsOf mine c.trace ∧
        R c.trace c.shared c'.shared from hboth.2
  induction h with
  | refl => exact ⟨hcalls, c₀', .refl, hthreads, htrace, hinit⟩
  | @step c i o k _ hp henabled _ ih =>
    rw [Config.advance_call hp] at hknown ⊢
    obtain ⟨halong, c', hreach, hsame, htr, hR⟩ := ih (hback _ _ hknown)
    have hi := halong i
    rw [hp, Prog.along_call] at hi
    obtain ⟨hcall, hrest⟩ := hi
    refine ⟨fun j => ?_, ?_⟩
    · dsimp only
      by_cases hj : j = i
      · subst hj
        rw [Function.update_self]
        rcases (S.exec j o ((c.threads j).loc, c.shared)).1 with e | r
        · trivial
        · exact hrest r trivial
      · rw [Function.update_of_ne hj]
        exact halong j
    -- a step of theirs is made in both runs, and one of the others in the longer run only
    by_cases hmine' : mine i
    · obtain ⟨henabled', hans, hloc, hR'⟩ :=
        hmine _ _ _ i o (c.threads i).loc hmine' hcall hR hknown henabled
      have hp' : (c'.threads i).prog = .call o k := by rw [hsame i hmine', hp]
      have hl' : (c'.threads i).loc = (c.threads i).loc := by rw [hsame i hmine']
      refine ⟨c'.advance S' i, hreach.step hp' (by rwa [hl']) hmine', ?_⟩
      rw [Config.advance_call hp', hl', hans, hloc]
      refine ⟨fun j hj => ?_, ?_, hR'⟩
      · dsimp only
        by_cases hji : j = i
        · subst hji
          rw [Function.update_self, Function.update_self]
        · rw [Function.update_of_ne hji, Function.update_of_ne hji]
          exact hsame j hj
      · rw [eventsOf_cons_of_mine hmine', htr]
    · refine ⟨c', hreach, fun j hj => ?_, ?_, hother _ _ _ i o _ hmine' hcall hR⟩
      · have hji : j ≠ i := by
          rintro rfl
          exact hmine' hj
        dsimp only
        rw [Function.update_of_ne hji]
        exact hsame j hj
      · rw [eventsOf_cons_of_not hmine', htr]

end pool

end Interaction
