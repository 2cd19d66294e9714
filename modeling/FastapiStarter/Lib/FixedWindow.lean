import Mathlib.Data.Finset.Card
import Mathlib.Data.Int.Interval
import Mathlib.Order.Interval.Finset.Nat

/-!
# Fixed windows

A counter is hit again and again; each hit is answered how often the counter was
hit since it was created.  The counter vanishes some time after its creation, at
least `W` later, and the next hit creates it anew.  If the first `limit` hits of
each lifetime are admitted, no interval of length `W` sees more than `2 * limit`
of them.

## Main definitions

* `Hit` — one hit of the counter.
* `lifetimes`, `start`, `ranked` — the lifetimes of the counter, and which one a
  hit belongs to.
* `Counted` — the hits of a counter whose lifetimes last at least `W`.

## Main results

* `Counted.length_lifetime_le` — at most `limit` hits are admitted in a lifetime.
* `Counted.length_interval_le` — and at most `2 * limit` in an interval of length `W`.
-/

namespace FixedWindow

variable {ι : Type}

/-- A hit of the counter: by whom, when, and the count it was answered. -/
structure Hit (ι : Type) where
  /-- Who has hit the counter. -/
  who : ι
  /-- The time of the hit. -/
  time : ℤ
  /-- The answer. -/
  count : ℕ

/-- How many lifetimes the counter has had; hits are listed newest first. -/
def lifetimes (hs : List (Hit ι)) : ℕ := hs.countP fun h => h.count = 1

/-- When the current lifetime began. -/
def start : List (Hit ι) → ℤ
  | [] => 0
  | h :: hs => if h.count = 1 then h.time else start hs

/-- The hits, each with the number of its lifetime. -/
def ranked : List (Hit ι) → List (ℕ × Hit ι)
  | [] => []
  | h :: hs => (lifetimes (h :: hs), h) :: ranked hs

/-- The hits of a counter whose lifetimes last at least `W`. -/
inductive Counted (W : ℤ) : List (Hit ι) → Prop
  /-- No hit. -/
  | nil : Counted W []
  /-- The first hit. -/
  | first {h : Hit ι} : h.count = 1 → Counted W [h]
  /-- A hit that creates the counter anew. -/
  | create {h h' : Hit ι} {hs : List (Hit ι)} : Counted W (h' :: hs) → h.count = 1 →
    h'.time ≤ h.time → start (h' :: hs) + W ≤ h.time → Counted W (h :: h' :: hs)
  /-- A hit that counts on. -/
  | count {h h' : Hit ι} {hs : List (Hit ι)} : Counted W (h' :: hs) → h.count = h'.count + 1 →
    0 < h'.count → h'.time ≤ h.time → Counted W (h :: h' :: hs)

/-! ### One lifetime -/

section lifetime

variable {W : ℤ} {hs : List (Hit ι)} {h : Hit ι}

theorem lifetimes_create (hc : h.count = 1) : lifetimes (h :: hs) = lifetimes hs + 1 := by
  rw [lifetimes, List.countP_cons_of_pos (by simpa using hc)]
  rfl

theorem lifetimes_count (hc : h.count ≠ 1) : lifetimes (h :: hs) = lifetimes hs := by
  rw [lifetimes, List.countP_cons_of_neg (by simpa using hc)]
  rfl

theorem start_create (hc : h.count = 1) : start (h :: hs) = h.time := if_pos hc

theorem start_count (hc : h.count ≠ 1) : start (h :: hs) = start hs := if_neg hc

/-- The newest hit has the highest count of the current lifetime. -/
theorem Counted.count_le (hc : Counted W (h :: hs)) :
    ∀ x ∈ ranked (h :: hs), x.1 ≤ lifetimes (h :: hs) ∧
      (x.1 = lifetimes (h :: hs) → x.2.count ≤ h.count) := by
  induction hs generalizing h with
  | nil =>
    intro x hx
    obtain rfl : x = (lifetimes [h], h) := by simpa [ranked] using hx
    exact ⟨le_rfl, fun _ => le_rfl⟩
  | cons h' hs ih =>
    intro x hx
    rcases List.mem_cons.mp hx with rfl | hx
    · exact ⟨le_rfl, fun _ => le_rfl⟩
    cases hc with
    | create hc hcount =>
      have hle := (ih hc x hx).1
      rw [lifetimes_create hcount]
      exact ⟨by omega, fun heq => by omega⟩
    | count hc hcount hpos =>
      obtain ⟨hle, hcounts⟩ := ih hc x hx
      rw [lifetimes_count (by omega)]
      exact ⟨hle, fun heq => by have := hcounts heq; omega⟩

theorem Counted.tail (hc : Counted W (h :: hs)) : Counted W hs := by
  cases hc with
  | first => exact .nil
  | create hc => exact hc
  | count hc => exact hc

/-- The newest hit was not answered more than there were hits. -/
theorem Counted.count_le_length (hc : Counted W (h :: hs)) : h.count ≤ (h :: hs).length := by
  induction hs generalizing h with
  | nil =>
    cases hc with
    | first hcount => exact hcount.le
  | cons h' hs ih =>
    rw [List.length_cons]
    cases hc with
    | create hc hcount => omega
    | count hc hcount =>
      have hle := ih hc
      omega

theorem Counted.count_pos (hc : Counted W hs) : ∀ h ∈ hs, 0 < h.count := by
  induction hc with
  | nil => simp
  | first hcount => simp [hcount]
  | create _ hcount _ _ ih =>
    intro x hx
    rcases List.mem_cons.mp hx with rfl | hx
    · omega
    · exact ih x hx
  | count _ hcount _ _ ih =>
    intro x hx
    rcases List.mem_cons.mp hx with rfl | hx
    · omega
    · exact ih x hx

/-- **The hits of one lifetime are answered different counts.** -/
theorem Counted.pairwise_count (hc : Counted W hs) :
    (ranked hs).Pairwise fun x y => x.1 = y.1 → y.2.count < x.2.count := by
  induction hc with
  | nil => exact .nil
  | first => exact List.pairwise_singleton _ _
  | @create h h' hs hc hcount _ _ ih =>
    refine .cons (fun y hy heq => ?_) ih
    have hle := (hc.count_le y hy).1
    have heq' : lifetimes (h :: h' :: hs) = y.1 := heq
    rw [lifetimes_create hcount] at heq'
    omega
  | @count h h' hs hc hcount hpos _ ih =>
    refine .cons (fun y hy heq => ?_) ih
    have hne : h.count ≠ 1 := by omega
    have heq' : lifetimes (h :: h' :: hs) = y.1 := heq
    rw [lifetimes_count hne] at heq'
    have hle := (hc.count_le y hy).2 heq'.symm
    show y.2.count < h.count
    omega

theorem mem_of_mem_ranked {x : ℕ × Hit ι} (hx : x ∈ ranked hs) : x.2 ∈ hs := by
  induction hs with
  | nil => cases hx
  | cons h hs ih =>
    rcases List.mem_cons.mp hx with rfl | hx
    · exact List.mem_cons_self
    · exact List.mem_cons_of_mem _ (ih hx)

theorem exists_ranked (hh : h ∈ hs) : ∃ x ∈ ranked hs, x.2 = h := by
  induction hs with
  | nil => cases hh
  | cons h' hs ih =>
    rcases List.mem_cons.mp hh with rfl | hh
    · exact ⟨_, List.mem_cons_self, rfl⟩
    · obtain ⟨x, hx, heq⟩ := ih hh
      exact ⟨x, List.mem_cons_of_mem _ hx, heq⟩

/-- **In each lifetime at most `limit` hits are admitted.** -/
theorem Counted.length_lifetime_le (hc : Counted W hs) (limit n : ℕ) :
    ((ranked hs).filter fun x => x.1 = n ∧ x.2.count ≤ limit).length ≤ limit := by
  generalize hl : ((ranked hs).filter fun x => x.1 = n ∧ x.2.count ≤ limit) = l
  have hmem : ∀ x ∈ l, x.1 = n ∧ 0 < x.2.count ∧ x.2.count ≤ limit := by
    intro x hx
    rw [← hl, List.mem_filter] at hx
    have hcond := of_decide_eq_true hx.2
    exact ⟨hcond.1, hc.count_pos _ (mem_of_mem_ranked hx.1), hcond.2⟩
  have hnodup : (l.map fun x => x.2.count).Nodup := by
    rw [List.Nodup, List.pairwise_map]
    have hpairs : l.Pairwise fun x y => x.1 = y.1 → y.2.count < x.2.count :=
      hl ▸ hc.pairwise_count.filter _
    refine hpairs.imp_of_mem fun {x y} hx hy hlt => ?_
    exact (hlt ((hmem x hx).1.trans (hmem y hy).1.symm)).ne'
  have hsub : (l.map fun x => x.2.count).toFinset ⊆ Finset.Icc 1 limit := by
    intro c hcount
    obtain ⟨x, hx, rfl⟩ := List.mem_map.mp (List.mem_toFinset.mp hcount)
    exact Finset.mem_Icc.mpr ⟨(hmem x hx).2.1, (hmem x hx).2.2⟩
  have hcard := Finset.card_le_card hsub
  rwa [List.toFinset_card_of_nodup hnodup, List.length_map, Nat.card_Icc, Nat.add_sub_cancel]
    at hcard

end lifetime

/-! ### Intervals -/

section interval

variable {W : ℤ} {hs : List (Hit ι)} {h : Hit ι}

/-- A hit of an earlier lifetime came before the current one began, and one that
lies two lifetimes back at least `W` before. -/
theorem Counted.time_le (hc : Counted W (h :: hs)) :
    start (h :: hs) ≤ h.time ∧ ∀ x ∈ ranked (h :: hs), x.2.time ≤ h.time ∧
      (x.1 < lifetimes (h :: hs) → x.2.time ≤ start (h :: hs)) ∧
      (x.1 + 1 < lifetimes (h :: hs) → x.2.time + W ≤ start (h :: hs)) := by
  have hself : ∀ hs : List (Hit ι), h.time ≤ h.time ∧
      (lifetimes (h :: hs) < lifetimes (h :: hs) → h.time ≤ start (h :: hs)) ∧
      (lifetimes (h :: hs) + 1 < lifetimes (h :: hs) → h.time + W ≤ start (h :: hs)) :=
    fun _ => ⟨le_rfl, fun hlt => by omega, fun hlt => by omega⟩
  induction hs generalizing h with
  | nil =>
    cases hc with
    | first hcount =>
      refine ⟨(start_create hcount).le, fun x hx => ?_⟩
      obtain rfl : x = (lifetimes [h], h) := by simpa [ranked] using hx
      exact hself []
  | cons h' hs ih =>
    cases hc with
    | create hc hcount htime hstart =>
      obtain ⟨-, hold⟩ := ih hc fun _ => ⟨le_rfl, fun hlt => by omega, fun hlt => by omega⟩
      refine ⟨(start_create hcount).le, fun x hx => ?_⟩
      rcases List.mem_cons.mp hx with rfl | hx
      · exact hself (h' :: hs)
      obtain ⟨hx₁, hx₂, -⟩ := hold x hx
      rw [start_create hcount, lifetimes_create hcount]
      refine ⟨hx₁.trans htime, fun _ => hx₁.trans htime, fun hlt => ?_⟩
      -- it came before the lifetime that has ended began
      have hbefore := hx₂ (by omega)
      omega
    | count hc hcount hpos htime =>
      have hne : h.count ≠ 1 := by omega
      obtain ⟨hstart, hold⟩ := ih hc fun _ => ⟨le_rfl, fun hlt => by omega, fun hlt => by omega⟩
      refine ⟨(start_count hne).trans_le (hstart.trans htime), fun x hx => ?_⟩
      rcases List.mem_cons.mp hx with rfl | hx
      · exact hself (h' :: hs)
      obtain ⟨hx₁, hx₂, hx₃⟩ := hold x hx
      rw [start_count hne, lifetimes_count hne]
      exact ⟨hx₁.trans htime, hx₂, hx₃⟩

/-- **Hits that are two lifetimes apart are at least `W` apart.** -/
theorem Counted.pairwise_time (hc : Counted W hs) :
    (ranked hs).Pairwise fun x y => y.1 ≤ x.1 ∧ (y.1 + 1 < x.1 → y.2.time + W ≤ x.2.time) := by
  induction hs with
  | nil => exact .nil
  | cons h hs ih =>
    refine .cons (fun y hy => ?_) (ih hc.tail)
    obtain ⟨hstart, hall⟩ := hc.time_le
    have hmem := List.mem_cons_of_mem (lifetimes (h :: hs), h) hy
    refine ⟨(hc.count_le y hmem).1, fun hlt => ?_⟩
    exact ((hall y hmem).2.2 hlt).trans hstart

/-- **In each interval of length `W` at most `2 * limit` hits are admitted.** -/
theorem Counted.length_interval_le (hc : Counted W hs) (limit : ℕ) (a : ℤ) :
    ((ranked hs).filter fun x => a ≤ x.2.time ∧ x.2.time < a + W ∧ x.2.count ≤ limit).length ≤
      2 * limit := by
  generalize hl : ((ranked hs).filter fun x =>
    a ≤ x.2.time ∧ x.2.time < a + W ∧ x.2.count ≤ limit) = l
  have hmem : ∀ x ∈ l, x ∈ ranked hs ∧ a ≤ x.2.time ∧ x.2.time < a + W ∧ x.2.count ≤ limit := by
    intro x hx
    rw [← hl, List.mem_filter] at hx
    exact ⟨hx.1, of_decide_eq_true hx.2⟩
  have hpairs : l.Pairwise fun x y => y.1 ≤ x.1 ∧ (y.1 + 1 < x.1 → y.2.time + W ≤ x.2.time) :=
    hl ▸ hc.pairwise_time.filter _
  -- the hits in the interval lie in the lifetime of the newest one, and the one before
  have htwo : ∃ n, ∀ x ∈ l, x.1 = n ∨ x.1 + 1 = n := by
    rcases l with _ | ⟨y, l⟩
    · exact ⟨0, by simp⟩
    · refine ⟨y.1, fun x hx => ?_⟩
      rcases List.mem_cons.mp hx with rfl | hx'
      · exact .inl rfl
      · obtain ⟨hle, hfar⟩ := (List.pairwise_cons.mp hpairs).1 x hx'
        have hx₁ := (hmem x hx).2.1
        have hy := (hmem y List.mem_cons_self).2.2.1
        by_contra hnot
        have := hfar (by omega)
        omega
  obtain ⟨n, hn⟩ := htwo
  have hsplit : l.length = (l.filter fun x => x.1 = n).length +
      (l.filter fun x => ¬ x.1 = n).length := by
    simpa using List.length_eq_length_filter_add (l := l) fun x => decide (x.1 = n)
  have hbound : ∀ (p : ℕ × Hit ι → Bool) m, (∀ x ∈ l, p x = true → x.1 = m) →
      (l.filter p).length ≤ limit := by
    intro p m hp
    have hself : ((l.filter p).filter fun x => x.1 = m ∧ x.2.count ≤ limit) = l.filter p := by
      refine List.filter_eq_self.mpr fun x hx => ?_
      rw [List.mem_filter] at hx
      exact decide_eq_true ⟨hp x hx.1 hx.2, (hmem x hx.1).2.2.2⟩
    have hsub : (l.filter p).Sublist (ranked hs) :=
      List.filter_sublist.trans (hl ▸ List.filter_sublist)
    rw [← hself]
    exact ((hsub.filter _).length_le).trans (hc.length_lifetime_le limit m)
  have h₁ := hbound (fun x => x.1 = n) n fun x _ hx => of_decide_eq_true hx
  have h₂ := hbound (fun x => ¬ x.1 = n) (n - 1) fun x hx hne => by
    have := hn x hx
    have : ¬ x.1 = n := of_decide_eq_true hne
    omega
  omega

end interval

end FixedWindow
