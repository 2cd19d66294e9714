import FastapiStarter.Execution
import FastapiStarter.Lib.Encoding
import FastapiStarter.Lib.Keyset

/-!
# The read side

The query service projects columns of `users` straight into views, without the
mapper.  A list is read page by page: the cursor handed out is the id of the last
user of a page, in base64.

## Main definitions

* `encodeCursor`, `decodeCursor` — the cursor of a page.
* `SqlAlchemyUserQueryService.getById`, `SqlAlchemyUserQueryService.list` — the
  query service.
* `GetUserHandler.execute`, `ListUsersHandler.execute` — the queries.
* `UserResponse`, `readMe` — what the endpoints answer.

## Main results

* `exists_encodeCursor` — every id has a cursor, which decodes to it.
-/

namespace FastapiStarter

open Relational Encoding

/-! ### Cursors -/

/-- The digits of base64, with `-` and `_` as the last two. -/
def urlsafeDigit (v : Fin 64) : Byte :=
  if v.val < 26 then byte (65 + v.val)
  else if v.val < 52 then byte (71 + v.val)
  else if v.val < 62 then byte (v.val - 4)
  else if v.val = 62 then byte 45
  else byte 95

/-- The value of a digit; `+` and `/` are read as well. -/
def urlsafeValue (b : Byte) : Option (Fin 64) :=
  if 65 ≤ b.val ∧ b.val ≤ 90 then some (Fin.ofNat 64 (b.val - 65))
  else if 97 ≤ b.val ∧ b.val ≤ 122 then some (Fin.ofNat 64 (b.val - 71))
  else if 48 ≤ b.val ∧ b.val ≤ 57 then some (Fin.ofNat 64 (b.val + 4))
  else if b.val = 43 ∨ b.val = 45 then some 62
  else if b.val = 47 ∨ b.val = 95 then some 63
  else none

/-- The alphabet of `base64.urlsafe_b64encode` and `base64.urlsafe_b64decode`. -/
def urlsafe : Base64.Alphabet where
  digit := urlsafeDigit
  value := urlsafeValue
  pad := byte 61
  value_digit := by decide
  digit_ne_pad := by decide

/-- `_encode_cursor(user_id)`; `none` for a `UnicodeError`. -/
def encodeCursor (userId : UUID) : Option Str := do
  let bytes ← Utf8.encode userId.str
  Utf8.decode (Base64.encode urlsafe bytes)

section cursor

variable [Unicode]

/-- `_decode_cursor(cursor)`. -/
def decodeCursor (cursor : Str) : Except DomainError UUID :=
  let parsed := do
    let bytes ← Utf8.encode cursor
    let raw ← Base64.decode urlsafe bytes
    let text ← Utf8.decode raw
    UUID.ofStr text
  match parsed with
  | some userId => .ok userId
  | none => .error (.validation (.text "Invalid pagination cursor."))

omit [Unicode] in
/-- The text of an id is ASCII. -/
theorem ascii_str {u : UUID} {c : CodePoint} (h : c ∈ u.str) : c.val < 0x80 := by
  rcases UUID.mem_str h with hhex | rfl
  · have := mem_hexPad hhex
    omega
  · decide

omit [Unicode] in
/-- What is written in base64 is ASCII. -/
theorem ascii_encode {bs : List Byte} {b : Byte} (h : b ∈ Base64.encode urlsafe bs) :
    b.val < 0x80 := by
  have hdigit : ∀ v, (urlsafe.digit v).val < 0x80 := by decide
  rcases Base64.mem_encode h with rfl | ⟨v, rfl⟩
  · decide
  · exact hdigit v

/-- **Every id has a cursor, which decodes to it.** -/
theorem exists_encodeCursor (u : UUID) :
    ∃ cursor, encodeCursor u = some cursor ∧ decodeCursor cursor = .ok u := by
  obtain ⟨bytes, hbytes, htext⟩ := Utf8.exists_encode_ascii fun c (hc : c ∈ u.str) => ascii_str hc
  obtain ⟨cursor, hcursor, hdigits⟩ := Utf8.exists_decode_ascii
    fun b (hb : b ∈ Base64.encode urlsafe bytes) => ascii_encode hb
  refine ⟨cursor, ?_, ?_⟩
  · rw [encodeCursor, hbytes]
    exact hcursor
  · simp only [decodeCursor, hdigits, Option.bind_eq_bind, Option.bind_some, Base64.decode_encode,
      htext, UUID.ofStr_str]

end cursor

/-! ### The query service -/

/-- `UserView(id=row_id, email=email, is_active=is_active, created_at=created_at)`, of a
row as the driver returns it. -/
def UserView.ofRow (row : UserModel) : UserView :=
  { id := row.id, email := row.email, isActive := row.isActive, createdAt := row.createdAt }

namespace SqlAlchemyUserQueryService

variable [Unicode] (d : Dialect) (users : Table UserModel.id)

/-- `get_by_id(user_id)`. -/
def getById (userId : UUID) : Option UserView :=
  (users.get userId).map fun m => .ofRow (d.readUser m)

/-- The id of the `where` clause; there is none without a cursor. -/
def after : Option Str → Except Exc (Option UUID)
  | none => .ok none
  | some cursor => (ofDomain (decodeCursor cursor)).map some

/-- `list(limit=limit, cursor=cursor)`, for a limit that is not negative. -/
def list (limit : ℕ) (cursor : Option Str) : Except Exc (Page UserView) :=
  match after cursor with
  | .error e => .error e
  | .ok past =>
    -- one more than the limit, to detect a following page
    let rows := ((users.past past).take (limit + 1)).map d.readUser
    let hasMore := limit < rows.length
    let visible := rows.take limit
    let items := visible.map UserView.ofRow
    match if hasMore then visible.getLast? else none with
    | none => .ok { items, nextCursor := none }
    | some last =>
      match encodeCursor last.id with
      | some next => .ok { items, nextCursor := some next }
      | none => .error .unexpected

end SqlAlchemyUserQueryService

/-! ### The queries -/

section queries

variable [Unicode] (d : Dialect) (users : Table UserModel.id)

/-- `GetUserQuery`. -/
structure GetUserQuery where
  userId : UUID

/-- `GetUserHandler.execute`. -/
def GetUserHandler.execute (query : GetUserQuery) : Except Exc UserView :=
  match SqlAlchemyUserQueryService.getById d users query.userId with
  | none => .error (.domain .userNotFound)
  | some view => .ok view

/-- `ListUsersQuery`. -/
structure ListUsersQuery where
  limit : ℤ := 20
  cursor : Option Str := none

/-- `max(1, min(query.limit, _MAX_LIMIT))`. -/
def clampLimit (limit : ℤ) : ℕ := (max 1 (min limit 100)).toNat

/-- `ListUsersHandler.execute`. -/
def ListUsersHandler.execute (query : ListUsersQuery) : Except Exc (Page UserView) :=
  SqlAlchemyUserQueryService.list d users (clampLimit query.limit) query.cursor

end queries

/-! ### What the endpoints answer -/

/-- `UserResponse`. -/
structure UserResponse where
  id : UUID
  email : Str
  isActive : Bool
  createdAt : Datetime
  deriving DecidableEq

/-- `UserResponse.model_validate(view)`. -/
def UserResponse.modelValidate (view : UserView) : UserResponse :=
  { id := view.id, email := view.email, isActive := view.isActive, createdAt := view.createdAt }

/-- `read_me`. -/
def readMe [Unicode] (currentUser : User) : UserResponse :=
  { id := currentUser.id.value, email := currentUser.email.value,
    isActive := currentUser.isActive, createdAt := .aware currentUser.createdAt }

end FastapiStarter
