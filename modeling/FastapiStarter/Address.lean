import FastapiStarter.Domain

/-!
# The grammar of addresses

The pattern of `Email` leaves open where the domain is split, and its `$` also
accepts before a final newline.  The normal form that it is matched against is
stripped, so neither shows: `Email` accepts the addresses of a plain grammar.

## Main definitions

* `IsAddress` — the grammar.
* `Splits` — an address, split as the pattern splits it.

## Main results

* `matchStart_iff_splits` — what the pattern finds in a stripped string.
* `isAddress_iff_splits` — the grammar allows the same.
* `email_accepts_grammar` — **`Email` accepts the grammar**, and its value is a fixed
  point.
-/

namespace FastapiStarter

open Matching

/-- **The grammar of addresses.** -/
structure IsAddress (v : Str) : Prop where
  oneAt : v.count (ch '@') = 1
  noSpace : ∀ c ∈ v, isSpace c = false
  /-- Before the `@` there is something, and after it a dot inside the domain. -/
  parts : ∃ name domain, v = name ++ ch '@' :: domain ∧ name ≠ [] ∧
    ∃ i, 0 < i ∧ i + 1 < domain.length ∧ domain[i]? = some (ch '.')

/-- The string is a name, an `@`, a host, a dot and the rest of the domain. -/
structure Splits (v name host top : Str) : Prop where
  eq : v = name ++ ch '@' :: (host ++ ch '.' :: top)
  name_ne_nil : name ≠ []
  host_ne_nil : host ≠ []
  top_ne_nil : top ≠ []
  name_class : ∀ c ∈ name, notAtOrSpace c = true
  host_class : ∀ c ∈ host, notAtOrSpace c = true
  top_class : ∀ c ∈ top, notAtOrSpace c = true

/-- What the pattern finds, with a newline after it or nothing. -/
theorem matchStart_emailRe {v : Str} : emailRe.matchStart v = true ↔
    ∃ w rest name host top, v = w ++ rest ∧ Splits w name host top ∧
      (rest = [] ∨ rest = [ch '\n']) := by
  rw [Regex.matchStart_iff]
  constructor
  · rintro ⟨m, rest, rfl, name, m₁, rfl, ⟨hname, hnames⟩, at', m₂, rfl, ⟨c, rfl, hc⟩, host, m₃,
      rfl, ⟨hhost, hhosts⟩, dot, m₄, rfl, ⟨d, rfl, hd⟩, top, m₅, rfl, ⟨htop, htops⟩, rfl, hrest⟩
    obtain rfl := eq_of_beq hc
    obtain rfl := eq_of_beq hd
    refine ⟨_, rest, name, host, top, rfl, ⟨?_, hname, hhost, htop, hnames, hhosts, htops⟩, hrest⟩
    rw [List.append_nil]
    rfl
  · rintro ⟨w, rest, name, host, top, rfl, h, hrest⟩
    refine ⟨w, rest, rfl, name, _, h.eq, ⟨h.name_ne_nil, h.name_class⟩, [ch '@'], _, rfl,
      ⟨_, rfl, beq_self_eq_true _⟩, host, _, rfl, ⟨h.host_ne_nil, h.host_class⟩, [ch '.'], _, rfl,
      ⟨_, rfl, beq_self_eq_true _⟩, top, [], (List.append_nil _).symm,
      ⟨h.top_ne_nil, h.top_class⟩, rfl, hrest⟩

/-- **What the pattern finds in a stripped string**, which no newline ends. -/
theorem matchStart_iff_splits {v : Str} (h : v.Trimmed) :
    emailRe.matchStart v = true ↔ ∃ name host top, Splits v name host top := by
  rw [matchStart_emailRe]
  constructor
  · rintro ⟨w, rest, name, host, top, rfl, hsplits, rfl | rfl⟩
    · exact ⟨name, host, top, by rwa [List.append_nil]⟩
    · have hlast := h.2 (ch '\n') (by simp)
      exact absurd hlast (by decide)
  · rintro ⟨name, host, top, hsplits⟩
    exact ⟨v, [], name, host, top, (List.append_nil v).symm, hsplits, .inl rfl⟩

@[simp] theorem notAtOrSpace_iff {c : CodePoint} :
    notAtOrSpace c = true ↔ c ≠ ch '@' ∧ isSpace c = false := by
  simp [notAtOrSpace]

/-- **The grammar allows the same splits.** -/
theorem isAddress_iff_splits {v : Str} :
    IsAddress v ↔ ∃ name host top, Splits v name host top := by
  constructor
  · rintro ⟨hat, hspace, name, domain, rfl, hname, i, hi, hlen, hdot⟩
    have hi' : i < domain.length := by omega
    have hdomain : domain = domain.take i ++ ch '.' :: domain.drop (i + 1) := by
      rw [← List.getElem?_eq_some_iff.mp hdot |>.2, List.getElem_cons_drop,
        List.take_append_drop]
    -- the one `@` stands between the two parts
    have hnone : ch '@' ∉ name ∧ ch '@' ∉ domain := by
      rw [List.count_append, List.count_cons_self] at hat
      exact ⟨List.count_eq_zero.mp (by omega), List.count_eq_zero.mp (by omega)⟩
    have hclass : ∀ c ∈ name ++ domain, notAtOrSpace c = true := by
      intro c hc
      refine notAtOrSpace_iff.mpr ⟨?_, hspace c ?_⟩
      · rintro rfl
        rcases List.mem_append.mp hc with hc | hc
        · exact hnone.1 hc
        · exact hnone.2 hc
      · rcases List.mem_append.mp hc with hc | hc
        · exact List.mem_append_left _ hc
        · exact List.mem_append_right _ (List.mem_cons_of_mem _ hc)
    refine ⟨name, domain.take i, domain.drop (i + 1), congrArg (name ++ ch '@' :: ·) hdomain, hname,
      ?_, ?_, fun c hc => hclass c (List.mem_append_left _ hc), fun c hc => ?_, fun c hc => ?_⟩
    · rw [ne_eq, List.take_eq_nil_iff, not_or]
      exact ⟨by omega, List.ne_nil_of_length_pos (by omega)⟩
    · rw [ne_eq, List.drop_eq_nil_iff]
      omega
    · exact hclass c (List.mem_append_right _ (List.mem_of_mem_take hc))
    · exact hclass c (List.mem_append_right _ (List.mem_of_mem_drop hc))
  · rintro ⟨name, host, top, rfl, hname, hhost, htop, hnames, hhosts, htops⟩
    have hno : ∀ {s : Str}, (∀ c ∈ s, notAtOrSpace c = true) → s.count (ch '@') = 0 := by
      intro s hs
      refine List.count_eq_zero.mpr fun hmem => ?_
      exact (notAtOrSpace_iff.mp (hs _ hmem)).1 rfl
    refine ⟨?_, ?_, name, host ++ ch '.' :: top, rfl, hname, host.length,
      List.length_pos_iff.mpr hhost, ?_, by simp⟩
    · simp only [List.count_append, List.count_cons, hno hnames, hno hhosts, hno htops]
      decide
    · intro c hc
      simp only [List.mem_append, List.mem_cons] at hc
      rcases hc with hc | rfl | hc | rfl | hc
      · exact (notAtOrSpace_iff.mp (hnames c hc)).2
      · decide
      · exact (notAtOrSpace_iff.mp (hhosts c hc)).2
      · decide
      · exact (notAtOrSpace_iff.mp (htops c hc)).2
    · have htop' := List.length_pos_iff.mpr htop
      simp only [List.length_append, List.length_cons]
      omega

section email

variable [Unicode]

theorem trimmed_normalise (raw : Str) : (normalise raw).Trimmed :=
  Str.trimmed_lower (Str.trimmed_strip raw)

/-- **`Email` accepts the grammar.**  The value is the normal form, no newline ends it,
and it is a fixed point; any other string raises a `ValidationError`. -/
theorem email_accepts_grammar (s : Str) :
    ((∃ e, Email.ofStr s = .ok e) ↔ IsAddress (normalise s)) ∧
      (∀ e, Email.ofStr s = .ok e → e.value = normalise s ∧ Email.ofStr (normalise s) = .ok e ∧
        (normalise s).getLast? ≠ some (ch '\n')) ∧
      (¬ IsAddress (normalise s) →
        Email.ofStr s = .error (.validation (.invalidEmail s))) := by
  have haddress : emailRe.matchStart (normalise s) = true ↔ IsAddress (normalise s) := by
    rw [matchStart_iff_splits (trimmed_normalise s), isAddress_iff_splits]
  refine ⟨?_, fun e he => ?_, fun hno => ?_⟩
  · rw [← haddress]
    constructor
    · rintro ⟨e, he⟩
      rw [← Email.value_of_ofStr he]
      exact e.valid
    · intro hmatch
      exact ⟨_, dif_pos hmatch⟩
  · have hvalue := Email.value_of_ofStr he
    refine ⟨hvalue, by rw [← hvalue, Email.ofStr_value], fun hlast => ?_⟩
    exact absurd ((trimmed_normalise s).2 _ hlast) (by decide)
  · exact dif_neg (mt haddress.mp hno)

end email

end FastapiStarter
