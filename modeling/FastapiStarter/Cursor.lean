import FastapiStarter.Problems
import FastapiStarter.Queries

/-!
# Cursors, and what is not one

A cursor is decoded in four steps, each of which raises an exception of its own.
All of them are instances of `ValueError`, so that the `except` clause catches them.

## Main definitions

* `ErrorType`, `ErrorType.mro` — the classes of the exceptions, and their resolution order.
* `decodeCursorSteps` — the decoder, with the exception that each step raises.
* `unreserved` — the characters that stand for themselves in a URL.

## Main results

* `decodeCursorSteps_eq` — **every exception of a step is caught**.
* `length_str`, `unreserved_of_mem_encodeCursor` — a cursor needs no padding.
* `cursor_survives_or_is_rejected` — the round trip, and the rejection of all else.
-/

namespace FastapiStarter

open Relational Encoding

/-! ### The exceptions of the steps -/

/-- The built-in classes of exceptions that matter here. -/
inductive ErrorType
  | exception
  | valueError
  | typeError
  | unicodeError
  | unicodeEncodeError
  | unicodeDecodeError
  | binasciiError
  deriving DecidableEq

/-- `klass.__mro__`, up to `Exception`. -/
def ErrorType.mro : ErrorType → List ErrorType
  | exception => [exception]
  | valueError => [valueError, exception]
  | typeError => [typeError, exception]
  | unicodeError => [unicodeError, valueError, exception]
  | unicodeEncodeError => [unicodeEncodeError, unicodeError, valueError, exception]
  | unicodeDecodeError => [unicodeDecodeError, unicodeError, valueError, exception]
  | binasciiError => [binasciiError, valueError, exception]

/-- `isinstance(exc, klasses)`. -/
def ErrorType.isInstance (raised : ErrorType) (klasses : List ErrorType) : Bool :=
  raised.mro.any fun klass => klasses.contains klass

/-- The result of a step that raises an exception of the given class. -/
def orRaise {α : Type} (raised : ErrorType) : Option α → Except ErrorType α
  | some a => .ok a
  | none => .error raised

/-- The next step runs unless this one has raised. -/
theorem orRaise_bind {α β : Type} (raised : ErrorType) (o : Option α)
    (f : α → Except ErrorType β) :
    (orRaise raised o >>= f) = match o with
      | some a => f a
      | none => .error raised := by
  cases o <;> rfl

/-- `cursor.encode()`. -/
def encodeStr (cursor : Str) : Except ErrorType (List Byte) :=
  orRaise .unicodeEncodeError (Utf8.encode cursor)

/-- `base64.urlsafe_b64decode(s)`. -/
def urlsafeB64decode (s : List Byte) : Except ErrorType (List Byte) :=
  orRaise .binasciiError (Base64.decode urlsafe s)

/-- `s.decode()`. -/
def decodeBytes (s : List Byte) : Except ErrorType Str :=
  orRaise .unicodeDecodeError (Utf8.decode s)

section steps

variable [Unicode]

/-- `UUID(hex)`. -/
def uuidOf (hex : Str) : Except ErrorType UUID := orRaise .valueError (UUID.ofStr hex)

/-- The error of a string that is no cursor. -/
def invalidCursor : Exc := .domain (.validation (.text "Invalid pagination cursor."))

/-- `_decode_cursor(cursor)`, with the exceptions that its steps raise. -/
def decodeCursorSteps (cursor : Str) : Except Exc UUID :=
  let parsed := do
    let bytes ← encodeStr cursor
    let raw ← urlsafeB64decode bytes
    let text ← decodeBytes raw
    uuidOf text
  match parsed with
  | .ok userId => .ok userId
  | .error raised =>
    if raised.isInstance [.valueError, .typeError] then .error invalidCursor
    else .error .unexpected

/-- **Every exception of a step is caught.** -/
theorem decodeCursorSteps_eq (cursor : Str) :
    decodeCursorSteps cursor = ofDomain (decodeCursor cursor) := by
  unfold decodeCursorSteps decodeCursor encodeStr urlsafeB64decode decodeBytes uuidOf
  simp only [orRaise_bind, Option.bind_eq_bind]
  rcases hbytes : Utf8.encode cursor with _ | bytes
  · rfl
  rcases hraw : Base64.decode urlsafe bytes with _ | raw
  · simp only [Option.bind_some, hraw]
    rfl
  rcases htext : Utf8.decode raw with _ | text
  · simp only [Option.bind_some, hraw, htext]
    rfl
  rcases huuid : UUID.ofStr text with _ | userId
  · simp only [Option.bind_some, hraw, htext, huuid]
    rfl
  · simp only [Option.bind_some, hraw, htext, huuid]
    rfl

/-- A string is decoded, or it is rejected. -/
theorem decodeCursorSteps_cases (cursor : Str) :
    (∃ userId, decodeCursorSteps cursor = .ok userId) ∨
      decodeCursorSteps cursor = .error invalidCursor := by
  rw [decodeCursorSteps_eq, decodeCursor]
  split
  next userId _ => exact .inl ⟨userId, rfl⟩
  next => exact .inr rfl

end steps

/-! ### The characters of a cursor -/

/-- The characters that stand for themselves in a URL: letters, digits and `-._~`. -/
def unreserved (c : CodePoint) : Bool :=
  (65 ≤ c.val && c.val ≤ 90) || (97 ≤ c.val && c.val ≤ 122) || (48 ≤ c.val && c.val ≤ 57) ||
    [ch '-', ch '.', ch '_', ch '~'].contains c

theorem length_str (u : UUID) : u.str.length = 36 := by simp [UUID.str]

/-- **A cursor needs no padding**: the text of an id has 36 characters, twelve times three. -/
theorem unreserved_of_mem_encodeCursor {u : UUID} {cursor : Str}
    (h : encodeCursor u = some cursor) {c : CodePoint} (hc : c ∈ cursor) :
    unreserved c = true := by
  have hdigit : ∀ v, unreserved (Fin.ofNat 1114112 (urlsafe.digit v).val) = true := by decide
  have hbytes := Utf8.encode_ascii fun c (hc : c ∈ u.str) => ascii_str hc
  simp only [encodeCursor, hbytes, Option.bind_eq_bind, Option.bind_some] at h
  rw [Utf8.decode_ascii fun b hb => ascii_encode hb] at h
  obtain rfl := Option.some.inj h
  obtain ⟨b, hb, rfl⟩ := List.mem_map.mp hc
  obtain ⟨v, rfl⟩ := Base64.mem_encode_of_dvd (by rw [List.length_map, length_str]) hb
  exact hdigit v

/-! ### The pages -/

section pages

variable [Unicode]

/-- A page is read if there is a cursor, and the error of the cursor is raised if not. -/
theorem list_cursor (d : Dialect) (users : Table UserModel.id) (limit : ℕ) (cursor : Str) :
    match decodeCursorSteps cursor with
    | .ok _ => ∃ page, SqlAlchemyUserQueryService.list d users limit (some cursor) = .ok page
    | .error e => SqlAlchemyUserQueryService.list d users limit (some cursor) = .error e := by
  rw [decodeCursorSteps_eq, SqlAlchemyUserQueryService.list, SqlAlchemyUserQueryService.after]
  rcases decodeCursor cursor with e | userId
  · rfl
  · simp only [ofDomain, Except.map]
    split
    · exact ⟨_, rfl⟩
    · rename_i last _
      obtain ⟨next, hnext, -⟩ := exists_encodeCursor last.id
      rw [hnext]
      exact ⟨_, rfl⟩

/-- **The cursor survives the round trip, and all else is rejected**: an id has a cursor
of unreserved characters that decodes to it; any string is decoded or raises the
validation error, whose response is a 422; and a list raises nothing else. -/
theorem cursor_survives_or_is_rejected :
    (∀ u : UUID, ∃ cursor, encodeCursor u = some cursor ∧ decodeCursorSteps cursor = .ok u ∧
      ∀ c ∈ cursor, unreserved c = true) ∧
    (∀ cursor, (∃ userId, decodeCursorSteps cursor = .ok userId) ∨
      decodeCursorSteps cursor = .error invalidCursor) ∧
    (∀ d users limit cursor,
      (∃ page, SqlAlchemyUserQueryService.list d users limit (some cursor) = .ok page) ∨
        SqlAlchemyUserQueryService.list d users limit (some cursor) = .error invalidCursor) ∧
    ∀ scope message, (Web.domainProblem scope .validationError [.domainError] message).status =
      422 := by
  refine ⟨fun u => ?_, decodeCursorSteps_cases, fun d users limit cursor => ?_, fun _ _ => rfl⟩
  · obtain ⟨cursor, hencode, hdecode⟩ := exists_encodeCursor u
    refine ⟨cursor, hencode, ?_, fun c hc => unreserved_of_mem_encodeCursor hencode hc⟩
    rw [decodeCursorSteps_eq, hdecode]
    rfl
  · have hlist := list_cursor d users limit cursor
    rcases decodeCursorSteps_cases cursor with ⟨userId, hdecode⟩ | hdecode
    · rw [hdecode] at hlist
      exact .inl hlist
    · rw [hdecode] at hlist
      exact .inr hlist

end pages

end FastapiStarter
