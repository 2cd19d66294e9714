import Mathlib.Data.List.Nodup
import Mathlib.Logic.Relation

/-!
# Inheritance

Classes are declared one after the other, each with a list of bases that exist by then.
The resolution order of a class is the C3 merge of the orders of its bases, and of the
list of its bases, behind the class itself.  Where there is no merge, there is no class.

## Main definitions

* `merge` — the C3 merge; `Merges` — what it does, without the bound on its steps.
* `Hierarchy`, `Hierarchy.declare` — the classes declared so far, and one more.
* `Hierarchy.mro`, `Hierarchy.Derives` — resolution orders, and inheritance.

## Main results

* `merge_eq` — the number of steps is no restriction.
* `Hierarchy.mem_mro` — **the order of a class lists its ancestors.**
* `Hierarchy.mro_sublist` — the order of an ancestor is kept.
* `Hierarchy.pairwise_mro` — **no class comes before one that is derived from it.**
* `Hierarchy.findSome?_mro` — **what is found first is the most specific.**
-/

namespace Inheritance

variable {κ : Type} [DecidableEq κ]

/-! ### The merge -/

/-- The heads of the lists that are not empty. -/
def heads (ls : List (List κ)) : List κ := ls.filterMap List.head?

/-- A class waits while it is in the tail of a list. -/
def waits (ls : List (List κ)) (c : κ) : Bool := ls.any fun l => c ∈ l.tail

/-- Takes a class off the lists that it heads. -/
def takeOff (c : κ) (ls : List (List κ)) : List (List κ) :=
  ls.map fun l => if l.head? = some c then l.tail else l

/-- The merge, in a number of steps: the first head that does not wait comes next. -/
def mergeWithin : ℕ → List (List κ) → Option (List κ)
  | 0, ls => if heads ls = [] then some [] else none
  | n + 1, ls =>
    if heads ls = [] then some []
    else ((heads ls).find? fun c => !waits ls c).bind fun c =>
      (mergeWithin n (takeOff c ls)).map (c :: ·)

/-- **The C3 merge**: a step takes off one element at least. -/
def merge (ls : List (List κ)) : Option (List κ) := mergeWithin ls.flatten.length ls

/-- A merge is a way to take off the heads, none before its turn. -/
inductive Merges : List (List κ) → List κ → Prop
  | done {ls : List (List κ)} : (∀ l ∈ ls, l = []) → Merges ls []
  | next {ls : List (List κ)} {c : κ} {r : List κ} : c ∈ heads ls → waits ls c = false →
    Merges (takeOff c ls) r → Merges ls (c :: r)

/-! #### Its steps -/

section steps

variable {ls : List (List κ)} {c d : κ} {l r : List κ}

omit [DecidableEq κ] in
theorem mem_heads : c ∈ heads ls ↔ ∃ l ∈ ls, l.head? = some c := List.mem_filterMap

omit [DecidableEq κ] in
@[simp] theorem heads_eq_nil : heads ls = [] ↔ ∀ l ∈ ls, l = [] := by
  simp [heads, List.filterMap_eq_nil_iff, List.head?_eq_none_iff]

omit [DecidableEq κ] in
theorem heads_of_length (h : ls.flatten.length ≤ 0) : heads ls = [] := by
  rw [heads_eq_nil]
  exact List.flatten_eq_nil_iff.mp (List.length_eq_zero_iff.mp (Nat.le_zero.mp h))

theorem not_mem_tail (h : waits ls c = false) (hl : l ∈ ls) : c ∉ l.tail := by
  intro hc
  have hwaits : waits ls c = true := List.any_eq_true.mpr ⟨l, hl, decide_eq_true hc⟩
  rw [h] at hwaits
  cases hwaits

theorem length_takeOff_le (c : κ) (ls : List (List κ)) :
    (takeOff c ls).flatten.length ≤ ls.flatten.length := by
  induction ls with
  | nil => exact Nat.le_refl _
  | cons l ls ih =>
    have hl : (if l.head? = some c then l.tail else l).length ≤ l.length := by
      split
      · rw [List.length_tail]
        omega
      · exact Nat.le_refl _
    simp only [takeOff, List.map_cons, List.flatten_cons, List.length_append] at ih ⊢
    omega

/-- **A step takes something off.** -/
theorem length_takeOff_lt (h : c ∈ heads ls) :
    (takeOff c ls).flatten.length < ls.flatten.length := by
  induction ls with
  | nil => cases h
  | cons l ls ih =>
    simp only [takeOff, List.map_cons, List.flatten_cons, List.length_append]
    by_cases hl : l.head? = some c
    · have hrest := length_takeOff_le c ls
      obtain ⟨l', rfl⟩ := List.head?_eq_some_iff.mp hl
      rw [if_pos hl, List.tail_cons, List.length_cons]
      unfold takeOff at hrest
      omega
    · have hrest : c ∈ heads ls := by
        obtain ⟨l', hl', hhead⟩ := mem_heads.mp h
        rcases List.mem_cons.mp hl' with rfl | hl'
        · exact absurd hhead hl
        · exact mem_heads.mpr ⟨l', hl', hhead⟩
      rw [if_neg hl]
      exact Nat.add_lt_add_left (ih hrest) _

/-- More steps than elements make no difference. -/
theorem mergeWithin_eq {m n : ℕ} (hm : ls.flatten.length ≤ m) (hn : ls.flatten.length ≤ n) :
    mergeWithin m ls = mergeWithin n ls := by
  induction m generalizing n ls with
  | zero =>
    cases n with
    | zero => rfl
    | succ n =>
      have hnil := heads_of_length hm
      rw [mergeWithin, mergeWithin, if_pos hnil, if_pos hnil]
  | succ m ih =>
    cases n with
    | zero =>
      have hnil := heads_of_length hn
      rw [mergeWithin, mergeWithin, if_pos hnil, if_pos hnil]
    | succ n =>
      rw [mergeWithin, mergeWithin]
      rcases hfind : (heads ls).find? fun c => !waits ls c with _ | c
      · rfl
      · have hlt := length_takeOff_lt (List.mem_of_find?_eq_some hfind)
        have hm' : (takeOff c ls).flatten.length ≤ m := by omega
        have hn' : (takeOff c ls).flatten.length ≤ n := by omega
        rw [Option.bind_some, Option.bind_some, ih hm' hn']

/-- **The merge goes on with the first head that does not wait**, and fails if all wait. -/
theorem merge_eq (ls : List (List κ)) :
    merge ls = if heads ls = [] then some []
      else ((heads ls).find? fun c => !waits ls c).bind fun c =>
        (merge (takeOff c ls)).map (c :: ·) := by
  have hmore : merge ls = mergeWithin (ls.flatten.length + 1) ls :=
    mergeWithin_eq (Nat.le_refl _) (Nat.le_succ _)
  rw [hmore, mergeWithin]
  rcases hfind : (heads ls).find? fun c => !waits ls c with _ | c
  · rfl
  · have hlt := length_takeOff_lt (List.mem_of_find?_eq_some hfind)
    rw [Option.bind_some, Option.bind_some, merge,
      mergeWithin_eq (Nat.le_of_lt hlt) (Nat.le_refl _)]

theorem merges_of_merge (h : merge ls = some r) : Merges ls r := by
  induction r generalizing ls with
  | nil =>
    rw [merge_eq] at h
    split at h
    · next hnil => exact .done (heads_eq_nil.mp hnil)
    · obtain ⟨c, -, hc⟩ := Option.bind_eq_some_iff.mp h
      obtain ⟨r, -, hr⟩ := Option.map_eq_some_iff.mp hc
      cases hr
  | cons d r ih =>
    rw [merge_eq] at h
    split at h
    · cases h
    · obtain ⟨c, hfind, hc⟩ := Option.bind_eq_some_iff.mp h
      obtain ⟨r', hr', heq⟩ := Option.map_eq_some_iff.mp hc
      cases heq
      have hwaits : waits ls d = false := by simpa using List.find?_some hfind
      exact .next (List.mem_of_find?_eq_some hfind) hwaits (ih hr')

/-! #### Its result -/

/-- **The merge keeps the order of every list.** -/
theorem Merges.sublist (h : Merges ls r) (hl : l ∈ ls) : l.Sublist r := by
  induction h generalizing l with
  | done hnil =>
    rw [hnil l hl]
  | @next ls c r hc hwaits hmerges ih =>
    have htaken := ih (List.mem_map_of_mem hl)
    by_cases hhead : l.head? = some c
    · rw [if_pos hhead] at htaken
      obtain ⟨l', rfl⟩ := List.head?_eq_some_iff.mp hhead
      exact htaken.cons_cons c
    · rw [if_neg hhead] at htaken
      exact htaken.cons c

/-- **It has the elements of the lists.** -/
theorem Merges.mem_iff (h : Merges ls r) : d ∈ r ↔ ∃ l ∈ ls, d ∈ l := by
  refine ⟨fun hd => ?_, fun ⟨l, hl, hd⟩ => (h.sublist hl).subset hd⟩
  induction h with
  | done => cases hd
  | @next ls c r hc hwaits hmerges ih =>
    rcases List.mem_cons.mp hd with rfl | hd
    · obtain ⟨l, hl, hhead⟩ := mem_heads.mp hc
      exact ⟨l, hl, List.mem_of_mem_head? hhead⟩
    · obtain ⟨l', hl', hd⟩ := ih hd
      obtain ⟨l, hl, rfl⟩ := List.mem_map.mp hl'
      refine ⟨l, hl, ?_⟩
      split at hd
      · exact List.mem_of_mem_tail hd
      · exact hd

/-- **It has none of them twice.** -/
theorem Merges.nodup (h : Merges ls r) : r.Nodup := by
  induction h with
  | done => exact List.nodup_nil
  | @next ls c r hc hwaits hmerges ih =>
    refine List.nodup_cons.mpr ⟨fun hr => ?_, ih⟩
    obtain ⟨l', hl', hc'⟩ := hmerges.mem_iff.mp hr
    obtain ⟨l, hl, rfl⟩ := List.mem_map.mp hl'
    have htail := not_mem_tail hwaits hl
    split at hc'
    · exact htail hc'
    · next hhead =>
      rcases l with _ | ⟨b, l⟩
      · cases hc'
      · rcases List.mem_cons.mp hc' with rfl | hc'
        · exact hhead rfl
        · exact htail hc'

end steps

/-! ### Hierarchies -/

/-- A class that has been declared. -/
structure Entry (κ : Type) where
  cls : κ
  bases : List κ
  mro : List κ
  deriving DecidableEq

/-- The declaration of a class. -/
def find (es : List (Entry κ)) (c : κ) : Option (Entry κ) := es.find? fun e => e.cls = c

/-- The resolution order of a class; a class that is not declared has none. -/
def mroOf (es : List (Entry κ)) (c : κ) : List κ := ((find es c).map Entry.mro).getD []

/-- The resolution order of a new class, if its bases exist and can be merged. -/
def resolve (es : List (Entry κ)) (c : κ) (bases : List κ) : Option (List κ) :=
  if bases.all fun b => (find es b).isSome then
    (merge (bases.map (mroOf es) ++ [bases])).map (c :: ·)
  else none

/-- Declarations that succeeded, newest first. -/
inductive Declared : List (Entry κ) → Prop
  | nil : Declared []
  | cons {es : List (Entry κ)} {c : κ} {bases mro : List κ} : Declared es → find es c = none →
    resolve es c bases = some mro → Declared (⟨c, bases, mro⟩ :: es)

/-- The classes of a program. -/
structure Hierarchy (κ : Type) [DecidableEq κ] where
  entries : List (Entry κ)
  declared : Declared entries

namespace Hierarchy

/-- No class yet. -/
def empty : Hierarchy κ := ⟨[], .nil⟩

/-- **A class statement.** -/
def declare (H : Hierarchy κ) (c : κ) (bases : List κ) : Option (Hierarchy κ) :=
  if hnew : find H.entries c = none then
    match hmro : resolve H.entries c bases with
    | some mro => some ⟨⟨c, bases, mro⟩ :: H.entries, .cons H.declared hnew hmro⟩
    | none => none
  else none

/-- Class statements, one after the other. -/
def declareAll (H : Hierarchy κ) : List (κ × List κ) → Option (Hierarchy κ)
  | [] => some H
  | (c, bases) :: rest => (H.declare c bases).bind fun H => H.declareAll rest

instance : Membership κ (Hierarchy κ) := ⟨fun H c => find H.entries c ≠ none⟩

instance (H : Hierarchy κ) (c : κ) : Decidable (c ∈ H) :=
  inferInstanceAs (Decidable (find H.entries c ≠ none))

variable (H : Hierarchy κ)

/-- `c.__mro__`. -/
def mro (c : κ) : List κ := mroOf H.entries c

/-- `c.__bases__`. -/
def bases (c : κ) : List κ := ((find H.entries c).map Entry.bases).getD []

/-- `issubclass(c, b)`. -/
def issubclass (c b : κ) : Bool := b ∈ H.mro c

/-- A class derives from another, or is it. -/
def Derives : κ → κ → Prop := Relation.ReflTransGen fun c b => b ∈ H.bases c

end Hierarchy

/-! #### Declarations -/

section declared

variable {es es' : List (Entry κ)} {e e' : Entry κ} {c d : κ} {bases : List κ}

theorem find_cons (e : Entry κ) (es : List (Entry κ)) (c : κ) :
    find (e :: es) c = if e.cls = c then some e else find es c := by
  unfold find
  rw [List.find?_cons]
  by_cases h : e.cls = c
  · rw [if_pos h, decide_eq_true h]
  · rw [if_neg h, decide_eq_false h]

/-- A new class leaves the others as they are. -/
theorem find_of_new (hnew : find es e.cls = none) (hd : find es d ≠ none) :
    find (e :: es) d = find es d := by
  rw [find_cons, if_neg]
  rintro rfl
  exact hd hnew

theorem mroOf_of_new (hnew : find es e.cls = none) (hd : find es d ≠ none) :
    mroOf (e :: es) d = mroOf es d := by
  rw [mroOf, find_of_new hnew hd, mroOf]

theorem mroOf_of_find (h : find es c = some e) : mroOf es c = e.mro := by
  rw [mroOf, h]
  rfl

theorem resolve_eq_some {mro : List κ} (h : resolve es c bases = some mro) :
    (∀ b ∈ bases, find es b ≠ none) ∧
      ∃ r, mro = c :: r ∧ Merges (bases.map (mroOf es) ++ [bases]) r := by
  unfold resolve at h
  split at h
  · next hbases =>
    obtain ⟨r, hr, rfl⟩ := Option.map_eq_some_iff.mp h
    refine ⟨fun b hb hnone => ?_, r, rfl, merges_of_merge hr⟩
    have hsome := List.all_eq_true.mp hbases b hb
    rw [hnone] at hsome
    cases hsome
  · cases h

/-- **What is known of a declared class**: its order is the merge behind it, and whatever
is in it was declared before. -/
structure Resolved (es : List (Entry κ)) (e : Entry κ) (r : List κ) : Prop where
  mro : e.mro = e.cls :: r
  fresh : e.cls ∉ r
  merges : Merges (e.bases.map (mroOf es) ++ [e.bases]) r
  bases : ∀ b ∈ e.bases, find es b ≠ none
  known : ∀ d ∈ r, find es d ≠ none

/-- A new class does not change what is known of the others. -/
theorem Resolved.of_new {r : List κ} (h : Resolved es e r) (hnew : find es e'.cls = none) :
    Resolved (e' :: es) e r := by
  have hkept : ∀ d, find es d ≠ none → find (e' :: es) d ≠ none := fun d hd => by
    rwa [find_of_new hnew hd]
  refine ⟨h.mro, h.fresh, ?_, fun b hb => hkept b (h.bases b hb),
    fun d hd => hkept d (h.known d hd)⟩
  rw [List.map_congr_left fun b hb => mroOf_of_new hnew (h.bases b hb)]
  exact h.merges

theorem cls_of_find (h : find es c = some e) : e.cls = c := by
  simpa using List.find?_some h

theorem Declared.resolved (h : Declared es) (he : find es c = some e) :
    ∃ r, Resolved es e r := by
  induction h generalizing c e with
  | nil => cases he
  | @cons es c' bases mro h hnew hmro ih =>
    rw [find_cons] at he
    split at he
    · cases he
      obtain ⟨hbases, r, rfl, hmerges⟩ := resolve_eq_some hmro
      -- the class is not among the orders of its bases, for it was not declared yet
      have hknown : ∀ d ∈ r, find es d ≠ none := by
        intro d hd
        obtain ⟨l, hl, hd⟩ := hmerges.mem_iff.mp hd
        rcases List.mem_append.mp hl with hl | hl
        · obtain ⟨b, hb, rfl⟩ := List.mem_map.mp hl
          obtain ⟨e, hfind⟩ := Option.ne_none_iff_exists'.mp (hbases b hb)
          obtain ⟨r', hr'⟩ := ih hfind
          rw [mroOf_of_find hfind, hr'.mro] at hd
          rcases List.mem_cons.mp hd with rfl | hd
          · rw [cls_of_find hfind, hfind]
            exact Option.some_ne_none e
          · exact hr'.known d hd
        · obtain rfl := List.mem_singleton.mp hl
          exact hbases d hd
      have hresolved : Resolved es ⟨c', bases, c' :: r⟩ r :=
        ⟨rfl, fun hc => hknown c' hc hnew, hmerges, hbases, hknown⟩
      exact ⟨r, hresolved.of_new hnew⟩
    · obtain ⟨r, hr⟩ := ih he
      exact ⟨r, hr.of_new hnew⟩

/-- Declarations to come leave the declared classes as they are. -/
theorem Declared.find_append (h : Declared (es' ++ es)) (hc : find es c ≠ none) :
    find (es' ++ es) c = find es c := by
  induction es' with
  | nil => rfl
  | cons e es' ih =>
    rw [List.cons_append] at h ⊢
    cases h with
    | cons h hnew hmro =>
      have hfind := ih h
      have hc' : find (es' ++ es) c ≠ none := by rwa [hfind]
      rw [find_of_new hnew hc', hfind]

/-- A property that is passed on from the bases holds of every class. -/
theorem Declared.induction (h : Declared es) {P : κ → Prop}
    (hstep : ∀ c e, find es c = some e → (∀ b ∈ e.bases, P b) → P c) (hc : find es c ≠ none) :
    P c := by
  induction h generalizing c with
  | nil => exact absurd rfl hc
  | @cons es c' bases mro h hnew hmro ih =>
    have hold : ∀ d, find es d ≠ none → P d := by
      intro d hd
      refine ih (fun c e he hbases => hstep c e ?_ hbases) hd
      rw [find_of_new hnew (by rw [he]; exact Option.some_ne_none e), he]
    by_cases heq : c' = c
    · subst heq
      refine hstep c' ⟨c', bases, mro⟩ ?_ fun b hb => hold b ((resolve_eq_some hmro).1 b hb)
      rw [find_cons, if_pos rfl]
    · rw [find_cons, if_neg heq] at hc
      exact hold c hc

end declared

/-! ### Resolution orders -/

namespace Hierarchy

variable {H H' : Hierarchy κ} {a b c d : κ}

theorem mem_iff : c ∈ H ↔ find H.entries c ≠ none := Iff.rfl

theorem bases_of_find {e : Entry κ} (he : find H.entries c = some e) : H.bases c = e.bases := by
  rw [bases, he]
  rfl

/-- The order of a class is the class, and the merge. -/
theorem mro_spec (hc : c ∈ H) : ∃ r, H.mro c = c :: r ∧ c ∉ r ∧
    Merges ((H.bases c).map H.mro ++ [H.bases c]) r ∧ (∀ b ∈ H.bases c, b ∈ H) ∧
      ∀ d ∈ r, d ∈ H := by
  obtain ⟨e, he⟩ := Option.ne_none_iff_exists'.mp hc
  obtain ⟨r, hr⟩ := H.declared.resolved he
  have hcls := cls_of_find he
  rw [bases_of_find he]
  refine ⟨r, ?_, hcls ▸ hr.fresh, hr.merges, hr.bases, hr.known⟩
  rw [mro, mroOf_of_find he, hr.mro, hcls]

/-- **A property that is passed on from the bases** holds of every class. -/
theorem induction {P : κ → Prop} (hstep : ∀ c ∈ H, (∀ b ∈ H.bases c, P b) → P c) (hc : c ∈ H) :
    P c := by
  refine H.declared.induction (fun c e he hbases => hstep c ?_ ?_) hc
  · rw [mem_iff, he]
    exact Option.some_ne_none e
  · rw [bases_of_find he]
    exact hbases

@[simp] theorem issubclass_iff : H.issubclass c b = true ↔ b ∈ H.mro c := decide_eq_true_iff

theorem self_mem_mro (hc : c ∈ H) : c ∈ H.mro c := by
  obtain ⟨r, hmro, -⟩ := mro_spec hc
  rw [hmro]
  exact List.mem_cons_self

theorem mem_of_mro_ne_nil (h : H.mro c ≠ []) : c ∈ H := by
  intro hnone
  exact h (by rw [mro, mroOf, hnone]; rfl)

theorem mem_of_mem_mro (h : d ∈ H.mro c) : c ∈ H ∧ d ∈ H := by
  have hc := mem_of_mro_ne_nil (List.ne_nil_of_mem h)
  obtain ⟨r, hmro, -, -, -, hknown⟩ := mro_spec hc
  rw [hmro] at h
  rcases List.mem_cons.mp h with rfl | h
  · exact ⟨hc, hc⟩
  · exact ⟨hc, hknown d h⟩

theorem nodup_mro (H : Hierarchy κ) (c : κ) : (H.mro c).Nodup := by
  by_cases hc : c ∈ H
  · obtain ⟨r, hmro, hfresh, hmerges, -⟩ := mro_spec hc
    rw [hmro]
    exact List.nodup_cons.mpr ⟨hfresh, hmerges.nodup⟩
  · have hnil : H.mro c = [] := by
      by_contra h
      exact hc (mem_of_mro_ne_nil h)
    rw [hnil]
    exact List.nodup_nil

/-- The order of a class, from those of its bases. -/
theorem mem_mro_iff (hc : c ∈ H) : d ∈ H.mro c ↔ d = c ∨ ∃ b ∈ H.bases c, d ∈ H.mro b := by
  obtain ⟨r, hmro, -, hmerges, hbases, -⟩ := mro_spec hc
  rw [hmro, List.mem_cons, hmerges.mem_iff]
  refine or_congr_right ⟨fun ⟨l, hl, hd⟩ => ?_, fun ⟨b, hb, hd⟩ => ?_⟩
  · rcases List.mem_append.mp hl with hl | hl
    · obtain ⟨b, hb, rfl⟩ := List.mem_map.mp hl
      exact ⟨b, hb, hd⟩
    · obtain rfl := List.mem_singleton.mp hl
      exact ⟨d, hd, self_mem_mro (hbases d hd)⟩
  · exact ⟨_, List.mem_append_left _ (List.mem_map_of_mem hb), hd⟩

theorem base_mem (hc : c ∈ H) (hb : b ∈ H.bases c) : b ∈ H := by
  obtain ⟨r, -, -, -, hbases, -⟩ := mro_spec hc
  exact hbases b hb

/-- **The order of a class lists its ancestors.** -/
theorem mem_mro (hc : c ∈ H) : d ∈ H.mro c ↔ H.Derives c d := by
  refine induction (P := fun c => d ∈ H.mro c ↔ H.Derives c d) (fun c hc ih => ?_) hc
  rw [mem_mro_iff hc, Derives, Relation.ReflTransGen.cases_head_iff]
  refine or_congr ⟨Eq.symm, Eq.symm⟩ (exists_congr fun b => ?_)
  exact and_congr_right fun hb => ih b hb

/-- **The order of an ancestor is kept.** -/
theorem mro_sublist (h : d ∈ H.mro c) : (H.mro d).Sublist (H.mro c) := by
  have hc := (mem_of_mem_mro h).1
  refine induction (P := fun c => d ∈ H.mro c → (H.mro d).Sublist (H.mro c))
    (fun c hc ih hd => ?_) hc h
  obtain ⟨r, hmro, -, hmerges, -⟩ := mro_spec hc
  rcases (mem_mro_iff hc).mp hd with rfl | ⟨b, hb, hd⟩
  · exact List.Sublist.refl _
  · have hbase : (H.mro b).Sublist r :=
      hmerges.sublist (List.mem_append_left _ (List.mem_map_of_mem hb))
    rw [hmro]
    exact ((ih b hb hd).trans hbase).cons c

theorem mem_mro_trans (hb : b ∈ H.mro a) (hc : c ∈ H.mro b) : c ∈ H.mro a :=
  (mro_sublist hb).subset hc

/-- Two classes that derive from each other are the same. -/
theorem mro_antisymm (hd : d ∈ H.mro c) (hc : c ∈ H.mro d) : c = d := by
  have heq := (mro_sublist hc).antisymm (mro_sublist hd)
  obtain ⟨r, hr, -⟩ := mro_spec (mem_of_mem_mro hd).1
  obtain ⟨r', hr', -⟩ := mro_spec (mem_of_mem_mro hc).1
  rw [hr, hr'] at heq
  exact (List.cons.inj heq).1

omit [DecidableEq κ] in
/-- Two elements of a list without repetitions come in one order. -/
theorem not_sublist_swap {l : List κ} (h : l.Nodup) (hab : [a, b].Sublist l) :
    ¬ [b, a].Sublist l := by
  induction l with
  | nil => cases hab
  | cons c l ih =>
    obtain ⟨hc, hl⟩ := List.nodup_cons.mp h
    intro hba
    cases hab with
    | cons _ hab =>
      cases hba with
      | cons _ hba => exact ih hl hab hba
      | cons_cons _ hba => exact hc (hab.subset (by simp))
    | cons_cons _ hab =>
      cases hba with
      | cons _ hba => exact hc (hba.subset (by simp))
      | cons_cons _ hba => exact hc (hba.subset (by simp))

/-- **No class comes before one that is derived from it.** -/
theorem pairwise_mro (H : Hierarchy κ) (c : κ) :
    (H.mro c).Pairwise fun a d => a ∉ H.mro d := by
  rw [List.pairwise_iff_forall_sublist]
  intro a d hsub hmem
  have hne : a ≠ d := by
    rintro rfl
    exact absurd (hsub.nodup (nodup_mro H c)) (by simp)
  -- the order of `d` is kept, and has `a` behind `d`
  have hd : d ∈ H.mro c := hsub.subset (by simp)
  obtain ⟨r, hr, -⟩ := mro_spec (mem_of_mem_mro hmem).1
  have hback : [d, a].Sublist (H.mro c) := by
    refine List.Sublist.trans ?_ (mro_sublist hd)
    rw [hr] at hmem ⊢
    exact (List.singleton_sublist.mpr ((List.mem_cons.mp hmem).resolve_left hne)).cons_cons d
  exact not_sublist_swap (nodup_mro H c) hsub hback

/-! #### Lookups -/

section lookup

variable {β : Type} {f : κ → Option β}

/-- **What is found first along an order is the most specific**: no other class where it
could be found derives from the class where it was. -/
theorem findSome?_mro {v : β} (h : (H.mro c).findSome? f = some v) :
    ∃ a ∈ H.mro c, f a = some v ∧ ∀ d ∈ H.mro c, f d ≠ none → a ∈ H.mro d → d = a := by
  obtain ⟨before, a, after, hmro, hfound, hbefore⟩ := List.findSome?_eq_some_iff.mp h
  have hpairwise := pairwise_mro H c
  rw [hmro] at hpairwise ⊢
  refine ⟨a, List.mem_append_right _ List.mem_cons_self, hfound, fun d hd hne hmem => ?_⟩
  rcases List.mem_append.mp hd with hd | hd
  · exact absurd (hbefore d hd) hne
  · rcases List.mem_cons.mp hd with rfl | hd
    · rfl
    · exact absurd hmem (List.rel_of_pairwise_cons (List.pairwise_append.mp hpairwise).2.1 hd)

omit [DecidableEq κ] in
/-- Leaving out elements where nothing is found makes no difference. -/
theorem findSome?_of_sublist {l l' : List κ} (hsub : l.Sublist l') (hnodup : l'.Nodup)
    (h : ∀ a ∈ l', f a ≠ none → a ∈ l) : l'.findSome? f = l.findSome? f := by
  induction hsub with
  | slnil => rfl
  | @cons l l' a hsub ih =>
    obtain ⟨ha, hnodup⟩ := List.nodup_cons.mp hnodup
    have hnone : f a = none := by
      by_contra hne
      exact ha (hsub.subset (h a List.mem_cons_self hne))
    rw [List.findSome?_cons, hnone]
    exact ih hnodup fun b hb hne => h b (List.mem_cons_of_mem _ hb) hne
  | @cons_cons l l' a hsub ih =>
    obtain ⟨ha, hnodup⟩ := List.nodup_cons.mp hnodup
    rw [List.findSome?_cons, List.findSome?_cons]
    rcases f a with _ | v
    · refine ih hnodup fun b hb hne => ?_
      refine (List.mem_cons.mp (h b (List.mem_cons_of_mem _ hb) hne)).resolve_left ?_
      rintro rfl
      exact ha hb
    · rfl

/-- **A lookup is inherited** from an ancestor that has all the places where something can
be found. -/
theorem findSome?_inherited (hd : d ∈ H.mro c)
    (h : ∀ a ∈ H.mro c, f a ≠ none → a ∈ H.mro d) :
    (H.mro c).findSome? f = (H.mro d).findSome? f :=
  findSome?_of_sublist (mro_sublist hd) (nodup_mro H c) h

end lookup

/-! #### Later classes -/

theorem suffix_of_declare {bases : List κ} (h : H.declare c bases = some H') :
    H.entries <:+ H'.entries := by
  unfold declare at h
  split at h
  · split at h
    · cases h
      exact List.suffix_cons _ _
    · cases h
  · cases h

theorem suffix_of_declareAll {statements : List (κ × List κ)}
    (h : H.declareAll statements = some H') : H.entries <:+ H'.entries := by
  induction statements generalizing H with
  | nil =>
    cases h
    exact List.suffix_rfl
  | cons statement statements ih =>
    obtain ⟨H₁, hdeclare, hrest⟩ := Option.bind_eq_some_iff.mp h
    exact (suffix_of_declare hdeclare).trans (ih hrest)

/-- Classes that are declared later leave the orders as they are. -/
theorem mro_of_later (h : H.entries <:+ H'.entries) (hc : c ∈ H) : H'.mro c = H.mro c := by
  obtain ⟨es, hes⟩ := h
  have hdeclared := H'.declared
  unfold mro mroOf
  rw [← hes] at hdeclared ⊢
  rw [hdeclared.find_append hc]

end Hierarchy

end Inheritance
