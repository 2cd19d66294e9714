import FastapiStarter.Domain
import FastapiStarter.Lib.Inheritance
import Mathlib.Data.Bool.Basic

/-!
# Equality of entities

An entity is equal to an instance of its own class, or of a class derived from that, with
the same identity.  Its hash is made of the name of its class and of its identity.  So two
entities of related classes may be equal and have different hashes.

## Main definitions

* `Entities` — some instances of classes derived from `Entity`.
* `Entities.eqMethod`, `Entities.eq`, `Entities.hash` — `Entity.__eq__`, `==`, and
  `Entity.__hash__`.
* `Entities.Lawful` — equality is an equivalence that the hash respects.
* `Entities.Coherent` — what the classes have to be like for that.

## Main results

* `Entities.eq_eq_true` — **which entities are equal.**
* `lawful_iff_coherent` — **equality is lawful iff the classes are coherent.**
* `unlawful_subclasses` — users of two subclasses.
-/

namespace FastapiStarter

open Inheritance

/-! ### Entities -/

/-- The exceptions of `identity()`. -/
inductive IdentityError
  | notImplementedError
  | attributeError
  /-- Any other exception. -/
  | other
  deriving DecidableEq

/-- Instances `ρ` of classes `κ` that derive from `Entity` and override neither `__eq__`
nor `__hash__`. -/
structure Entities (ρ κ α ι : Type) [DecidableEq κ] where
  classes : Hierarchy κ
  name : κ → Str
  /-- The method `identity` that the body of a class defines, on the attributes. -/
  identities : κ → Option (α → Except IdentityError ι)
  entity : κ
  /-- `raise NotImplementedError`. -/
  identities_entity : identities entity = some fun _ => .error .notImplementedError
  type : ρ → κ
  attributes : ρ → α
  derived : ∀ a, classes.issubclass (type a) entity = true

namespace Entities

variable {ρ κ α ι : Type} [DecidableEq κ] (E : Entities ρ κ α ι)

/-- `a.identity()`, looked up along the resolution order of the class. -/
def identity (a : ρ) : Except IdentityError ι :=
  match (E.classes.mro (E.type a)).findSome? E.identities with
  | some method => method (E.attributes a)
  | none => .error .attributeError

/-- `isinstance(a, cls)`. -/
def isinstance (a : ρ) (cls : κ) : Bool := E.classes.issubclass (E.type a) cls

variable [BEq ι]

/-- `Entity.__eq__`; `none` is `NotImplemented`. -/
def eqMethod (self other : ρ) : Except IdentityError (Option Bool) :=
  if !E.isinstance other (E.type self) then .ok none
  else do
    let i ← E.identity self
    let j ← E.identity other
    return some (i == j)

/-- `a == b`.  The method of the right operand comes first if its class is derived from
that of the left one; objects that no method can compare are compared by `is`. -/
def eq [DecidableEq ρ] (a b : ρ) : Except IdentityError Bool := do
  let reflected : Bool := E.type b ≠ E.type a ∧ E.isinstance b (E.type a)
  match ← if reflected then E.eqMethod b a else E.eqMethod a b with
  | some result => return result
  | none =>
    match ← if reflected then E.eqMethod a b else E.eqMethod b a with
    | some result => return result
    | none => return decide (a = b)

omit [BEq ι] in
/-- `Entity.__hash__`, with the hash of a pair made of the string and of the hash of the
identity. -/
def hash [Hashable ι] (pairHash : Str → UInt64 → ℤ) (self : ρ) : Except IdentityError ℤ := do
  let i ← E.identity self
  return pairHash (E.name (E.type self)) (Hashable.hash i)

/-! ### The laws -/

/-- The identities of two entities are equal. -/
def SameIdentity (a b : ρ) : Prop :=
  ∃ i j, E.identity a = .ok i ∧ E.identity b = .ok j ∧ (i == j) = true

/-- One of two classes derives from the other. -/
def Related (c d : κ) : Prop :=
  E.classes.issubclass c d = true ∨ E.classes.issubclass d c = true

/-- **The laws of equality and hash.** -/
structure Lawful [DecidableEq ρ] [Hashable ι] (pairHash : Str → UInt64 → ℤ) : Prop where
  refl : ∀ a, E.eq a a = .ok true
  symm : ∀ a b, E.eq a b = E.eq b a
  trans : ∀ a b c, E.eq a b = .ok true → E.eq b c = .ok true → E.eq a c = .ok true
  /-- Instances of one type are equal exactly if their identities are. -/
  identity : ∀ a b, E.type a = E.type b → (E.eq a b = .ok true ↔ E.SameIdentity a b)
  hash : ∀ a b, E.eq a b = .ok true → E.hash pairHash a = E.hash pairHash b

/-- **What the laws ask of the classes.** -/
structure Coherent : Prop where
  /-- Every entity has an identity. -/
  identified : ∀ a, ∃ i, E.identity a = .ok i
  /-- Among entities with one identity, a derived class has the name of its base. -/
  named : ∀ a b, E.SameIdentity a b → E.isinstance a (E.type b) = true →
    E.name (E.type a) = E.name (E.type b)
  /-- Among these, two classes with a common base are related. -/
  below : ∀ a b c, E.SameIdentity a b → E.SameIdentity b c → E.isinstance a (E.type b) = true →
    E.isinstance c (E.type b) = true → E.Related (E.type a) (E.type c)
  /-- And so are two classes that a class derives from. -/
  above : ∀ a b c, E.SameIdentity a b → E.SameIdentity b c → E.isinstance b (E.type a) = true →
    E.isinstance b (E.type c) = true → E.Related (E.type a) (E.type c)

/-! ### Who is equal -/

section equality

variable {E} {a b c : ρ}

omit [BEq ι] in
@[simp] theorem isinstance_self (a : ρ) : E.isinstance a (E.type a) = true := by
  have hentity := Hierarchy.issubclass_iff.mp (E.derived a)
  exact Hierarchy.issubclass_iff.mpr (Hierarchy.self_mem_mro (Hierarchy.mem_of_mem_mro hentity).1)

omit [BEq ι] in
theorem isinstance_trans (hab : E.isinstance a (E.type b) = true)
    (hbc : E.isinstance b (E.type c) = true) : E.isinstance a (E.type c) = true :=
  Hierarchy.issubclass_iff.mpr
    (Hierarchy.mem_mro_trans (Hierarchy.issubclass_iff.mp hab) (Hierarchy.issubclass_iff.mp hbc))

omit [BEq ι] in
theorem type_eq (hab : E.isinstance a (E.type b) = true) (hba : E.isinstance b (E.type a) = true) :
    E.type a = E.type b :=
  Hierarchy.mro_antisymm (Hierarchy.issubclass_iff.mp hab) (Hierarchy.issubclass_iff.mp hba)

/-- Comparing the identities, the one of `a` first. -/
def compare (E : Entities ρ κ α ι) (a b : ρ) : Except IdentityError Bool := do
  let i ← E.identity a
  let j ← E.identity b
  return i == j

theorem compare_eq_true : E.compare a b = .ok true ↔ E.SameIdentity a b := by
  unfold compare SameIdentity
  constructor
  · intro h
    rcases hi : E.identity a with e | i
    · rw [hi] at h
      cases h
    · rcases hj : E.identity b with e | j
      · rw [hi, hj] at h
        cases h
      · rw [hi, hj] at h
        exact ⟨i, j, rfl, rfl, Except.ok.inj h⟩
  · rintro ⟨i, j, hi, hj, heq⟩
    rw [hi, hj]
    exact congrArg Except.ok heq

theorem eqMethod_of_isinstance (h : E.isinstance b (E.type a) = true) :
    E.eqMethod a b = (E.compare a b).map some := by
  rw [eqMethod, h, compare]
  rcases E.identity a with e | i
  · rfl
  · rcases E.identity b with e | j <;> rfl

theorem eqMethod_of_not (h : E.isinstance b (E.type a) = false) : E.eqMethod a b = .ok none := by
  rw [eqMethod, h]
  rfl

theorem SameIdentity.symm [EquivBEq ι] (h : E.SameIdentity a b) : E.SameIdentity b a := by
  obtain ⟨i, j, hi, hj, heq⟩ := h
  exact ⟨j, i, hj, hi, BEq.symm heq⟩

theorem SameIdentity.trans [EquivBEq ι] (hab : E.SameIdentity a b) (hbc : E.SameIdentity b c) :
    E.SameIdentity a c := by
  obtain ⟨i, j, hi, hj, heq⟩ := hab
  obtain ⟨j', k, hj', hk, heq'⟩ := hbc
  obtain rfl := Except.ok.inj (hj.symm.trans hj')
  exact ⟨i, k, hi, hk, BEq.trans heq heq'⟩

variable [DecidableEq ρ]

/-- An instance on the right is compared by the method of the left operand. -/
theorem eq_of_isinstance (h : E.isinstance b (E.type a) = true) : E.eq a b = E.compare a b := by
  unfold eq
  by_cases htype : E.type b = E.type a
  · simp only [htype, ne_eq, not_true_eq_false, false_and, decide_false, Bool.false_eq_true,
      if_false, eqMethod_of_isinstance h]
    rcases E.compare a b with e | r <;> rfl
  · -- the reflected method is tried, and does not know the left operand
    have hnot : E.isinstance a (E.type b) = false := by
      by_contra hne
      exact htype (type_eq h (Bool.eq_true_of_not_eq_false hne))
    simp only [htype, ne_eq, not_false_eq_true, true_and, h, decide_true, if_true,
      eqMethod_of_not hnot, eqMethod_of_isinstance h]
    rcases E.compare a b with e | r <;> rfl

/-- An instance on the left is compared by the reflected method. -/
theorem eq_of_isinstance_left (hab : E.isinstance a (E.type b) = true)
    (hba : E.isinstance b (E.type a) = false) : E.eq a b = E.compare b a := by
  unfold eq
  simp only [hba, Bool.false_eq_true, and_false, decide_false, if_false, eqMethod_of_not hba,
    eqMethod_of_isinstance hab]
  rcases E.compare b a with e | r <;> rfl

/-- Entities of unrelated classes are not equal. -/
theorem eq_of_unrelated (hab : E.isinstance a (E.type b) = false)
    (hba : E.isinstance b (E.type a) = false) : E.eq a b = .ok false := by
  have hne : a ≠ b := by
    rintro rfl
    rw [isinstance_self] at hab
    cases hab
  unfold eq
  simp only [hba, Bool.false_eq_true, and_false, decide_false, if_false, eqMethod_of_not hba,
    eqMethod_of_not hab]
  exact congrArg Except.ok (decide_eq_false hne)

/-- **Which entities are equal**: those of related classes with the same identity. -/
theorem eq_eq_true [EquivBEq ι] : E.eq a b = .ok true ↔
    E.Related (E.type a) (E.type b) ∧ E.SameIdentity a b := by
  rcases hba : E.isinstance b (E.type a) with _ | _
  · rcases hab : E.isinstance a (E.type b) with _ | _
    · rw [eq_of_unrelated hab hba]
      have hnot : ¬ E.Related (E.type a) (E.type b) := by
        rintro (h | h)
        · exact Bool.eq_false_iff.mp hab h
        · exact Bool.eq_false_iff.mp hba h
      exact ⟨fun h => (nomatch h), fun h => absurd h.1 hnot⟩
    · rw [eq_of_isinstance_left hab hba, compare_eq_true]
      exact ⟨fun h => ⟨.inl hab, h.symm⟩, fun h => h.2.symm⟩
  · rw [eq_of_isinstance hba, compare_eq_true]
    exact ⟨fun h => ⟨.inr hba, h⟩, fun h => h.2⟩

end equality

/-! ### When the laws hold -/

section laws

variable {E} [DecidableEq ρ] [EquivBEq ι] [Hashable ι] [LawfulHashable ι]

omit [DecidableEq ρ] [Hashable ι] [LawfulHashable ι] in
/-- Comparing is symmetric where all entities have identities. -/
theorem compare_comm (h : ∀ a, ∃ i, E.identity a = .ok i) (a b : ρ) :
    E.compare a b = E.compare b a := by
  obtain ⟨i, hi⟩ := h a
  obtain ⟨j, hj⟩ := h b
  rw [compare, compare, hi, hj]
  exact congrArg Except.ok (BEq.comm)

omit [Hashable ι] [LawfulHashable ι] in
/-- So `==` gives the same on both sides, whoever is asked. -/
theorem eq_comm (h : ∀ a, ∃ i, E.identity a = .ok i) (a b : ρ) : E.eq a b = E.eq b a := by
  rcases hba : E.isinstance b (E.type a) with _ | _
  · rcases hab : E.isinstance a (E.type b) with _ | _
    · rw [eq_of_unrelated hab hba, eq_of_unrelated hba hab]
    · rw [eq_of_isinstance_left hab hba, eq_of_isinstance hab]
  · rcases hab : E.isinstance a (E.type b) with _ | _
    · rw [eq_of_isinstance hba, eq_of_isinstance_left hba hab]
    · rw [eq_of_isinstance hba, eq_of_isinstance hab, compare_comm h]

omit [DecidableEq ρ] [EquivBEq ι] [Hashable ι] [LawfulHashable ι] in
/-- The classes of entities that a third is related to are related. -/
theorem Coherent.related (h : E.Coherent) {a b c : ρ} (hsame : E.SameIdentity a b)
    (hsame' : E.SameIdentity b c) (hrelated : E.Related (E.type a) (E.type b))
    (hrelated' : E.Related (E.type b) (E.type c)) : E.Related (E.type a) (E.type c) := by
  rcases hrelated with hab | hba
  · rcases hrelated' with hbc | hcb
    · exact .inl (isinstance_trans hab hbc)
    · exact h.below a b c hsame hsame' hab hcb
  · rcases hrelated' with hbc | hcb
    · exact h.above a b c hsame hsame' hba hbc
    · exact .inr (isinstance_trans hcb hba)

omit [DecidableEq ρ] [Hashable ι] [LawfulHashable ι] in
theorem Coherent.name_eq (h : E.Coherent) {a b : ρ} (hsame : E.SameIdentity a b)
    (hrelated : E.Related (E.type a) (E.type b)) : E.name (E.type a) = E.name (E.type b) := by
  rcases hrelated with hab | hba
  · exact h.named a b hsame hab
  · exact (h.named b a hsame.symm hba).symm

theorem Coherent.lawful (h : E.Coherent) (pairHash : Str → UInt64 → ℤ) : E.Lawful pairHash where
  refl a := by
    obtain ⟨i, hi⟩ := h.identified a
    exact eq_eq_true.mpr ⟨.inl (isinstance_self a), i, i, hi, hi, BEq.rfl⟩
  symm := eq_comm h.identified
  trans a b c hab hbc := by
    obtain ⟨hrelated, hsame⟩ := eq_eq_true.mp hab
    obtain ⟨hrelated', hsame'⟩ := eq_eq_true.mp hbc
    apply eq_eq_true.mpr
    exact ⟨h.related hsame hsame' hrelated hrelated', hsame.trans hsame'⟩
  identity a b htype := by
    rw [eq_eq_true, and_iff_right]
    exact .inl (htype ▸ isinstance_self a)
  hash a b hab := by
    obtain ⟨hrelated, hsame⟩ := eq_eq_true.mp hab
    have hname := h.name_eq hsame hrelated
    obtain ⟨i, j, hi, hj, heq⟩ := hsame
    rw [Entities.hash, Entities.hash, hi, hj, hname]
    exact congrArg (fun n => Except.ok (pairHash (E.name (E.type b)) n)) (hash_eq heq)

omit [LawfulHashable ι] in
theorem Lawful.coherent (h : ∀ pairHash, E.Lawful pairHash) : E.Coherent where
  identified a := by
    obtain ⟨-, i, -, hi, -⟩ := eq_eq_true.mp ((h fun _ _ => 0).refl a)
    exact ⟨i, hi⟩
  named a b hsame hab := by
    -- a hash that tells the two names apart
    have heq := (h fun n _ => if n = E.name (E.type a) then 0 else 1).hash a b
      (eq_eq_true.mpr ⟨.inl hab, hsame⟩)
    obtain ⟨i, j, hi, hj, -⟩ := hsame
    rw [Entities.hash, Entities.hash, hi, hj] at heq
    have hvalue : (if E.name (E.type a) = E.name (E.type a) then (0 : ℤ) else 1) =
        if E.name (E.type b) = E.name (E.type a) then 0 else 1 := Except.ok.inj heq
    by_contra hne
    rw [if_pos rfl, if_neg (Ne.symm hne)] at hvalue
    cases hvalue
  below a b c hab hbc ha hc := by
    have heq := (h fun _ _ => 0).trans a b c (eq_eq_true.mpr ⟨.inl ha, hab⟩)
      (eq_eq_true.mpr ⟨.inr hc, hbc⟩)
    exact (eq_eq_true.mp heq).1
  above a b c hab hbc ha hc := by
    have heq := (h fun _ _ => 0).trans a b c (eq_eq_true.mpr ⟨.inr ha, hab⟩)
      (eq_eq_true.mpr ⟨.inl hc, hbc⟩)
    exact (eq_eq_true.mp heq).1

end laws

end Entities

/-- **Equality is lawful iff the classes are coherent.**  The hash of a string is salted, so
the laws have to hold with any hash of the pair. -/
theorem lawful_iff_coherent {ρ κ α ι : Type} [DecidableEq ρ] [DecidableEq κ] [BEq ι] [EquivBEq ι]
    [Hashable ι] [LawfulHashable ι] (E : Entities ρ κ α ι) :
    (∀ pairHash, E.Lawful pairHash) ↔ E.Coherent :=
  ⟨Entities.Lawful.coherent, fun h => h.lawful⟩

/-! ### Users -/

section users

/-- The classes above `User`, and others. -/
inductive EntityClass
  | object
  | generic
  | entity
  | aggregateRoot
  | user
  | other (name : Str)
  deriving DecidableEq

/-- `cls.__name__`. -/
def EntityClass.name : EntityClass → Str
  | object => lit "object".toList
  | generic => lit "Generic".toList
  | entity => lit "Entity".toList
  | aggregateRoot => lit "AggregateRoot".toList
  | user => lit "User".toList
  | other name => name

/-- The class statements up to `User`. -/
def userStatements : List (EntityClass × List EntityClass) :=
  [(.object, []), (.generic, [.object]), (.entity, [.generic]),
    (.aggregateRoot, [.entity, .generic]), (.user, [.aggregateRoot])]

/-- The classes up to `User`. -/
def userClasses : Hierarchy EntityClass :=
  (Hierarchy.empty.declareAll userStatements).get (by decide +kernel)

variable [Unicode]

/-- `User.identity`. -/
def User.identity (u : User) : UserId := u.id

/-- The methods `identity` up to `User`. -/
def userIdentities : EntityClass → Option (User → Except IdentityError UserId)
  | .entity => some fun _ => .error .notImplementedError
  | .user => some fun u => .ok u.identity
  | _ => none

instance : Hashable UserId := ⟨fun u => hash u.value.int.val⟩

/-- Instances of `User` and of its subclasses that leave `identity` as it is. -/
def users {ρ : Type} (classes : Hierarchy EntityClass) (type : ρ → EntityClass)
    (attributes : ρ → User) (derived : ∀ a, classes.issubclass (type a) .entity = true) :
    Entities ρ EntityClass User UserId where
  classes
  name := EntityClass.name
  identities := userIdentities
  entity := .entity
  identities_entity := rfl
  type
  attributes
  derived

/-- Instances of `User` itself. -/
def plainUsers {ρ : Type} (attributes : ρ → User) : Entities ρ EntityClass User UserId :=
  users userClasses (fun _ => .user) attributes fun _ => by decide +kernel

/-- **As long as `User` has no subclass**, its instances obey the laws. -/
theorem coherent_plainUsers {ρ : Type} (attributes : ρ → User) :
    (plainUsers attributes).Coherent where
  identified a := by
    have hmro : userClasses.mro .user = [.user, .aggregateRoot, .entity, .generic, .object] := by
      decide +kernel
    refine ⟨(attributes a).identity, ?_⟩
    show (match (userClasses.mro .user).findSome? userIdentities with
      | some method => method (attributes a)
      | none => .error .attributeError) = _
    rw [hmro]
    rfl
  named _ _ _ _ := rfl
  below a b _ _ _ hab _ := .inl hab
  above a b _ _ _ hba _ := .inl hba

/-- An account: a user, or an instance of one of two subclasses. -/
inductive Account
  | plain
  | premium
  | admin
  deriving DecidableEq

/-- The class of an account. -/
def Account.type : Account → EntityClass
  | plain => .user
  | premium => .other (lit "PremiumUser".toList)
  | admin => .other (lit "AdminUser".toList)

/-- `User` and the two subclasses. -/
def accountClasses : Hierarchy EntityClass :=
  (userClasses.declareAll [(Account.premium.type, [.user]), (Account.admin.type, [.user])]).get
    (by decide +kernel)

/-- The accounts of one user. -/
def accounts (u : User) : Entities Account EntityClass User UserId :=
  users accountClasses Account.type (fun _ => u) fun a => by cases a <;> decide +kernel

end users

section sample

attribute [local instance] asciiUnicode

/-- Two users with one id and different addresses. -/
theorem lawful_users : ∃ u v : User, u.id = v.id ∧ u.email ≠ v.email ∧
    (plainUsers (Bool.rec u v)).eq false true = .ok true ∧
      ∀ pairHash, (plainUsers (Bool.rec u v)).Lawful pairHash := by
  refine ⟨⟨⟨⟨7⟩⟩, ⟨lit ['a', '@', 'b', '.', 'c'], by decide, by decide⟩, ⟨lit ['h'], by decide⟩,
      true, 0, []⟩,
    ⟨⟨⟨7⟩⟩, ⟨lit ['c', '@', 'd', '.', 'e'], by decide, by decide⟩, ⟨lit ['h'], by decide⟩,
      true, 0, []⟩, rfl, by decide, by decide +kernel,
    (lawful_iff_coherent _).mpr (coherent_plainUsers _)⟩

/-- **Users of two subclasses**: each is equal to the plain user, with another hash, and
they are not equal to each other. -/
theorem unlawful_subclasses : ∃ u : User,
    (accounts u).eq .premium .plain = .ok true ∧ (accounts u).eq .plain .admin = .ok true ∧
    (accounts u).eq .premium .admin = .ok false ∧
    (∃ pairHash, (accounts u).hash pairHash .premium ≠ (accounts u).hash pairHash .plain) ∧
    ∀ pairHash, ¬ (accounts u).Lawful pairHash := by
  refine ⟨⟨⟨⟨7⟩⟩, ⟨lit ['a', '@', 'b', '.', 'c'], by decide, by decide⟩, ⟨lit ['h'], by decide⟩,
    true, 0, []⟩, by decide +kernel, by decide +kernel, by decide +kernel,
    ⟨fun n _ => n.length, by decide +kernel⟩, fun pairHash h => ?_⟩
  have hlaw := h.trans .premium .plain .admin (by decide +kernel) (by decide +kernel)
  exact absurd hlaw (by decide +kernel)

end sample

end FastapiStarter
