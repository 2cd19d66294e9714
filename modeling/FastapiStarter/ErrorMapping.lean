import FastapiStarter.Problems
import FastapiStarter.Lib.Inheritance

/-!
# The most specific mapping wins

`_spec_for` looks for a row of `_ERROR_MAP` along the resolution order of the class of an
exception.  It does so for whatever classes there are, and whatever rows.

## Main definitions

* `ErrorMap` — the rows, for some of the subclasses of `DomainError`.
* `ErrorMap.specFor` — `_spec_for`, on the classes of a hierarchy.
* `MostSpecific` — a row that no other row should have hidden.
* `appClasses`, `appMap` — the classes and the rows of the application.

## Main results

* `ErrorMap.specFor_eq` — what is found is the first row along the order.
* `most_specific_mapping_wins` — **the row found is the most specific.**
* `specFor_mro` — so it is with the rows of the application.
-/

namespace FastapiStarter.Web

open Inheritance

/-! ### Rows for any classes -/

section mapping

variable {κ : Type} [DecidableEq κ]

/-- A content of `_ERROR_MAP`: its keys are subclasses of `DomainError`. -/
structure ErrorMap (H : Hierarchy κ) (domainError : κ) where
  get : κ → Option ErrorSpec
  derived : ∀ klass, get klass ≠ none → H.issubclass klass domainError = true

omit [DecidableEq κ] in
/-- The loop of `_spec_for`. -/
def specAlong (isDomainError : κ → Bool) (get : κ → Option ErrorSpec) : List κ → ErrorSpec
  | [] => defaultSpec
  | klass :: mro =>
    if isDomainError klass then
      match get klass with
      | some spec => spec
      | none => specAlong isDomainError get mro
    else specAlong isDomainError get mro

variable {H H' : Hierarchy κ} {domainError : κ} (m : ErrorMap H domainError)

/-- `_spec_for`, for an instance of a class. -/
def ErrorMap.specFor (cls : κ) : ErrorSpec :=
  specAlong (fun klass => H.issubclass klass domainError) m.get (H.mro cls)

/-- The row of `a` is that of the most specific mapped ancestor of `cls`: no other derives
from `a`. -/
structure MostSpecific (cls a : κ) (spec : ErrorSpec) : Prop where
  ancestor : H.Derives cls a
  mapped : m.get a = some spec
  first : ∀ d, H.Derives cls d → m.get d ≠ none → H.Derives d a → d = a

/-! #### The row that is found -/

omit [DecidableEq κ] in
/-- A loop that asks first for what every row has finds the first row. -/
theorem specAlong_eq {isDomainError : κ → Bool} {get : κ → Option ErrorSpec}
    (h : ∀ klass, get klass ≠ none → isDomainError klass = true) (mro : List κ) :
    specAlong isDomainError get mro = (mro.findSome? get).getD defaultSpec := by
  induction mro with
  | nil => rfl
  | cons klass mro ih =>
    rw [specAlong, List.findSome?_cons]
    rcases hrow : get klass with _ | spec
    · rw [ite_self, ih]
    · rw [if_pos (h klass (by rw [hrow]; exact Option.some_ne_none spec))]
      rfl

/-- **The first row along the order.** -/
theorem ErrorMap.specFor_eq (cls : κ) :
    m.specFor cls = ((H.mro cls).findSome? m.get).getD defaultSpec :=
  specAlong_eq m.derived _

/-- The rows, when more classes have been declared. -/
def ErrorMap.later (h : H.entries <:+ H'.entries) : ErrorMap H' domainError where
  get := m.get
  derived klass hne := by
    have hmem := Hierarchy.issubclass_iff.mp (m.derived klass hne)
    rwa [Hierarchy.issubclass_iff, Hierarchy.mro_of_later h (Hierarchy.mem_of_mem_mro hmem).1]

variable {cls a base : κ}

theorem exists_mostSpecific (hcls : cls ∈ H) (ha : H.Derives cls a) (hmapped : m.get a ≠ none) :
    ∃ a, MostSpecific m cls a (m.specFor cls) := by
  rcases hfound : (H.mro cls).findSome? m.get with _ | spec
  · have hnone := List.findSome?_eq_none_iff.mp hfound a ((Hierarchy.mem_mro hcls).mpr ha)
    exact absurd hnone hmapped
  · have hspec : m.specFor cls = spec := by
      rw [m.specFor_eq, hfound]
      rfl
    obtain ⟨a, ha, hrow, hfirst⟩ := Hierarchy.findSome?_mro hfound
    refine ⟨a, (Hierarchy.mem_mro hcls).mp ha, hspec ▸ hrow, ?_⟩
    intro d hd hne hda
    have hd' := (Hierarchy.mem_mro hcls).mpr hd
    have ha' := (Hierarchy.mem_mro (Hierarchy.mem_of_mem_mro hd').2).mpr hda
    exact hfirst d hd' hne ha'

theorem specFor_eq_default (hcls : cls ∈ H) (hnone : ∀ a, H.Derives cls a → m.get a = none) :
    m.specFor cls = defaultSpec := by
  have hfound : (H.mro cls).findSome? m.get = none := by
    apply List.findSome?_eq_none_iff.mpr
    intro a ha
    exact hnone a ((Hierarchy.mem_mro hcls).mp ha)
  rw [m.specFor_eq, hfound]
  rfl

/-- A class has the row of a base, if it inherits none besides. -/
theorem specFor_of_base (hcls : cls ∈ H) (hbase : base ∈ H.bases cls)
    (hrows : ∀ a, H.Derives cls a → m.get a ≠ none → H.Derives base a) :
    m.specFor cls = m.specFor base := by
  have hbase' := Hierarchy.base_mem hcls hbase
  have hmem : base ∈ H.mro cls :=
    (Hierarchy.mem_mro_iff hcls).mpr (.inr ⟨base, hbase, Hierarchy.self_mem_mro hbase'⟩)
  have hinherited : (H.mro cls).findSome? m.get = (H.mro base).findSome? m.get := by
    apply Hierarchy.findSome?_inherited hmem
    intro a ha hne
    exact (Hierarchy.mem_mro hbase').mpr (hrows a ((Hierarchy.mem_mro hcls).mp ha) hne)
  rw [m.specFor_eq, m.specFor_eq, hinherited]

theorem specFor_later (hcls : cls ∈ H) (h : H.entries <:+ H'.entries) :
    (m.later h).specFor cls = m.specFor cls := by
  rw [m.specFor_eq, (m.later h).specFor_eq, Hierarchy.mro_of_later h hcls]
  rfl

/-- **The most specific mapping wins.**  The row of a class is that of an ancestor such
that no other mapped ancestor derives from it, and the default if there is none.  A class
without a row of its own has the row of its base, and no class changes the row of another
that was declared before. -/
theorem most_specific_mapping_wins {cls : κ} (hcls : cls ∈ H) :
    ((∃ a, H.Derives cls a ∧ m.get a ≠ none) → ∃ a, MostSpecific m cls a (m.specFor cls)) ∧
    ((∀ a, H.Derives cls a → m.get a = none) → m.specFor cls = defaultSpec) ∧
    (∀ base ∈ H.bases cls, m.get cls = none →
      (∀ a, H.Derives cls a → m.get a ≠ none → H.Derives base a) →
        m.specFor cls = m.specFor base) ∧
    ∀ (H' : Hierarchy κ) (h : H.entries <:+ H'.entries),
      (m.later h).specFor cls = m.specFor cls := by
  refine ⟨?_, specFor_eq_default m hcls, ?_, ?_⟩
  · rintro ⟨a, ha, hmapped⟩
    exact exists_mostSpecific m hcls ha hmapped
  · intro base hbase _ hrows
    exact specFor_of_base m hcls hbase hrows
  · intro H' h
    exact specFor_later m hcls h

end mapping

/-! ### The rows of the application -/

section app

/-- `specFor` is the loop, over the rows of the application. -/
theorem specFor_eq_specAlong (mro : List ErrorClass) :
    specFor mro = specAlong ErrorClass.isDomainError errorMap mro := by
  induction mro with
  | nil => rfl
  | cons klass mro ih =>
    rcases hrow : errorMap klass with _ | spec
    · rw [specFor, specAlong, hrow]
      exact ite_congr rfl (fun _ => ih) fun _ => ih
    · rw [specFor, specAlong, hrow]
      exact ite_congr rfl (fun _ => rfl) fun _ => ih

/-- A built-in class. -/
def builtin (name : Str) : ErrorClass := .other name false

/-- The class statements of the errors, after those of the built-in classes. -/
def errorStatements : List (ErrorClass × List ErrorClass) :=
  [(builtin (text "object"), []),
    (builtin (text "BaseException"), [builtin (text "object")]),
    (builtin (text "Exception"), [builtin (text "BaseException")]),
    (.domainError, [builtin (text "Exception")]),
    (.validationError, [.domainError]),
    (.invalidCredentialsError, [.domainError]),
    (.invalidTokenError, [.domainError]),
    (.tokenExpiredError, [.invalidTokenError]),
    (.userNotFoundError, [.domainError]),
    (.emailAlreadyExistsError, [.domainError])]

/-- The classes of the application. -/
def appClasses : Hierarchy ErrorClass :=
  (Hierarchy.empty.declareAll errorStatements).get (by decide +kernel)

/-- `_ERROR_MAP`, on these classes. -/
def appMap : ErrorMap appClasses .domainError where
  get := errorMap
  derived klass h := by
    cases klass with
    | domainError => exact absurd rfl h
    | other name b => exact absurd rfl h
    | _ => decide +kernel

/-- **The rows of the application**: whatever subclasses of its errors are declared later,
what the handler finds along the order of a class is its most specific row. -/
theorem specFor_mro {H : Hierarchy ErrorClass} (h : appClasses.entries <:+ H.entries)
    {cls : ErrorClass}
    (hflags : ∀ klass ∈ H.mro cls, klass.isDomainError = H.issubclass klass .domainError) :
    specFor (H.mro cls) = (appMap.later h).specFor cls := by
  have hloop : ∀ mro : List ErrorClass,
      (∀ klass ∈ mro, klass.isDomainError = H.issubclass klass .domainError) →
        specAlong ErrorClass.isDomainError errorMap mro =
          specAlong (fun klass => H.issubclass klass .domainError) errorMap mro := by
    intro mro hflags
    induction mro with
    | nil => rfl
    | cons klass mro ih =>
      rw [specAlong, specAlong, hflags klass List.mem_cons_self,
        ih fun k hk => hflags k (List.mem_cons_of_mem _ hk)]
  rw [specFor_eq_specAlong, hloop _ hflags]
  rfl

/-- A subclass of two errors, and of a class that is none. -/
def replayedTokenError : ErrorClass := .other (text "ReplayedTokenError") true

/-- The classes of the application, and a class with several bases. -/
def moreClasses : Hierarchy ErrorClass :=
  (appClasses.declareAll [(builtin (text "Mixin"), [builtin (text "object")]),
    (replayedTokenError,
      [builtin (text "Mixin"), .tokenExpiredError, .invalidCredentialsError])]).get
        (by decide +kernel)

theorem later_moreClasses : appClasses.entries <:+ moreClasses.entries :=
  Hierarchy.suffix_of_declareAll (Option.some_get _).symm

/-- The row of the expired token is neither hidden by that of its parent, nor by the mixin. -/
theorem most_specific_replayed :
    (∃ a, MostSpecific (appMap.later later_moreClasses) replayedTokenError a
      ((appMap.later later_moreClasses).specFor replayedTokenError)) ∧
    ((appMap.later later_moreClasses).specFor replayedTokenError).slug = text "token-expired" := by
  have hcls : replayedTokenError ∈ moreClasses := by decide +kernel
  have hrow : moreClasses.Derives replayedTokenError .tokenExpiredError :=
    (Hierarchy.mem_mro hcls).mp (by decide +kernel)
  exact ⟨(most_specific_mapping_wins (appMap.later later_moreClasses) hcls).1
    ⟨_, hrow, Option.some_ne_none _⟩, by decide +kernel⟩

end app

end FastapiStarter.Web
