import FastapiStarter.Database
import FastapiStarter.Handlers
import FastapiStarter.Lib.Pool
import Mathlib.Data.Int.ConditionallyCompleteOrder
import Mathlib.Order.ConditionallyCompleteLattice.Basic

/-!
# Executing the handlers

The ports wired as the application wires them: repositories and unit of work over
one session per request, `JwtTokenService`, the password hasher, the clock, the
in-process event dispatcher.  The world is what requests share.  The clock, the
source of `uuid4` and the hasher are parameters; each reading of the clock and
each fresh id takes the next value.

The same answers to port calls give two ways of running handlers: `execute` runs
one command alone, in a session of its own; `system` lets any number of requests
interleave their calls.

## Main definitions

* `InProcessEventDispatcher`, `eventDispatcher` — the dispatcher and its wiring.
* `Env`, `World` — the parameters and the shared state.
* `exec` — the answer to a port call.
* `execute` — a command executed alone.
* `system`, `start` — requests side by side.
-/

namespace FastapiStarter

open Interaction

/-! ### The event dispatcher -/

/-- The event types a subscriber can register for. -/
inductive EventType
  | domainEvent
  | userRegistered
  deriving DecidableEq, Repr

/-- `isinstance(event, event_type)`. -/
def DomainEvent.isInstance : DomainEvent → EventType → Bool
  | .userRegistered .., .domainEvent => true
  | .userRegistered .., .userRegistered => true

/-- `InProcessEventDispatcher`, by its registered handlers. -/
structure InProcessEventDispatcher where
  handlers : List (DomainEvent → Except Exc Unit)

namespace InProcessEventDispatcher

/-- `register(event_type, handler)`. -/
def register (d : InProcessEventDispatcher) (eventType : EventType)
    (handler : DomainEvent → Except Exc Unit) : InProcessEventDispatcher :=
  ⟨d.handlers ++ [fun event => if event.isInstance eventType then handler event else .ok ()]⟩

/-- `dispatch(events)`: every event to every handler, until one raises. -/
def dispatch (d : InProcessEventDispatcher) (events : List DomainEvent) : Except Exc Unit :=
  events.forM fun event => d.handlers.forM fun handler => handler event

end InProcessEventDispatcher

/-- `log_user_registered`: it logs the event. -/
def logUserRegistered : DomainEvent → Except Exc Unit
  | .userRegistered .. => .ok ()

/-- `EventsProvider.event_dispatcher`. -/
def eventDispatcher : InProcessEventDispatcher :=
  (InProcessEventDispatcher.mk []).register .userRegistered logUserRegistered

/-- The subscribers the application registers do not raise. -/
theorem dispatch_eventDispatcher (events : List DomainEvent) :
    eventDispatcher.dispatch events = .ok () := by
  unfold InProcessEventDispatcher.dispatch
  induction events with
  | nil => rfl
  | cons event events ih =>
    cases event
    exact ih

/-! ### The world -/

/-- What the application is run with. -/
structure Env where
  settings : JwtSettings
  dialect : Dialect
  /-- The readings of the system clock, in order. -/
  clock : ℕ → Instant
  /-- The values of `uuid4`, in order. -/
  uuid : ℕ → UUID
  /-- The password hash, with the salt drawn for it. -/
  hash : ℕ → Str → Str
  verify : Str → Str → Bool
  dispatcher : InProcessEventDispatcher

/-- The first `n` values of `uuid4` do not repeat. -/
def Env.NoRepeat (env : Env) (n : ℕ) : Prop :=
  ∀ i < n, ∀ j < n, env.uuid i = env.uuid j → i = j

/-- The readings of the clock up to the one numbered `n` are those of a clock that does
not run backwards, between 1970 and 2514. -/
structure Env.Timely (env : Env) (n : ℕ) : Prop where
  mono : ∀ i j, i ≤ j → j ≤ n → env.clock i ≤ env.clock j
  nonneg : ∀ i ≤ n, 0 ≤ env.clock i
  fine : ∀ i ≤ n, env.clock i < coarseFrom

theorem Env.Timely.of_le {env : Env} {n n' : ℕ} (h : env.Timely n) (hle : n' ≤ n) :
    env.Timely n' := by
  refine ⟨fun i j hij hj => h.mono i j hij (hj.trans hle), fun i hi => h.nonneg i (hi.trans hle),
    fun i hi => h.fine i (hi.trans hle)⟩

/-- What requests share. -/
structure World where
  db : Database
  /-- The bulk updates executed and not yet committed, newest first. -/
  statements : List Statement
  /-- How often the clock has been read. -/
  ticks : ℕ
  /-- How many ids have been drawn. -/
  ids : ℕ
  /-- How many salts have been drawn. -/
  salts : ℕ
  /-- The tokens the token service has issued. -/
  issued : List Token
  dispatched : List DomainEvent
  deriving DecidableEq

/-- The world before the first request. -/
def World.initial : World := ⟨.empty, [], 0, 0, 0, [], []⟩

namespace World

/-- The bulk updates of a session, oldest first. -/
def statementsOf (w : World) (sid : ℕ) : List Statement :=
  (w.statements.filter fun st => st.session = sid).reverse

/-- The database as the open transaction of a session sees it. -/
def view (w : World) (sid : ℕ) : Database := w.db.after (w.statementsOf sid)

/-- Closes the session of a request: an open transaction is rolled back. -/
def close (w : World) (sid : ℕ) : World :=
  { w with statements := w.statements.filter fun st => st.session ≠ sid }

/-- The instant the clock shows at the next reading. -/
def now (env : Env) (w : World) : Instant := env.clock w.ticks

/-- The world after a reading of the clock. -/
def tick (w : World) : World := { w with ticks := w.ticks + 1 }

/-- The next fresh id. -/
def freshId (env : Env) (w : World) : UUID := env.uuid w.ids

/-- The world after an id was drawn. -/
def drawId (w : World) : World := { w with ids := w.ids + 1 }

/-- The world after a salt was drawn. -/
def drawSalt (w : World) : World := { w with salts := w.salts + 1 }

/-- The world after events were dispatched. -/
def dispatch (events : List DomainEvent) (w : World) : World :=
  { w with dispatched := w.dispatched ++ events }

/-- The world after a token was issued, which reads the clock. -/
def issue (w : World) (t : Token) : World :=
  { w with ticks := w.ticks + 1, issued := t :: w.issued }

end World

/-! ### The ports -/

section ports

variable [Unicode]

/-- `TokenService.decode` as the service answers in a given world: no key of the
service has signed a token that the service did not issue. -/
def World.decode (env : Env) (w : World) (token : Token) : Except DomainError TokenPayload :=
  if token ∈ w.issued then JwtTokenService.decode env.settings (w.now env) token
  else .error .invalidToken

/-- A token that `decode` accepts was signed by the service, with the claims of its payload. -/
theorem World.signed_of_decode {env : Env} {w : World} {token : Token} {p : TokenPayload}
    (h : w.decode env token = .ok p) :
    ∃ c, token = .signed env.settings.secret env.settings.algorithm c ∧ c.sub = p.subject ∧
      c.type = p.tokenType.literal ∧ UUID.ofStr c.jti = some p.tokenId := by
  unfold World.decode at h
  split at h
  · exact JwtTokenService.signed_of_decode_ok env.settings h
  · cases h

/-- Executes a bulk update: the rows it selects are changed in the transaction of
the session, and in the identity map. -/
def execBulk (sid : ℕ) (scope : Scope) (at' : Instant) (s : Session) (w : World) :
    Session × World :=
  (s.synchronize scope at',
    { w with statements := ⟨sid, scope, at', (w.view sid).selected scope⟩ :: w.statements })

/-- `SqlAlchemyUnitOfWork.commit`: flush and commit, or roll back and raise.  Either way
the session holds no instance any more. -/
def execCommit (env : Env) (sid : ℕ) (s : Session) (w : World) :
    Except Exc Unit × (Session × World) :=
  match s.flush (w.view sid) with
  | .ok db => (.ok (), .empty, { w.close sid with db })
  | .error e => (.error (translateCommitError env.dialect e), .empty, w.close sid)

/-- A domain error of a value object, raised by a port. -/
def ofDomain {α : Type} : Except DomainError α → Except Exc α
  | .ok a => .ok a
  | .error e => .error (.domain e)

/-- The user a loaded row maps to. -/
def userOfModel : Option UserModel → Except Exc (Option User)
  | none => .ok none
  | some m => (ofDomain (UserMapper.toDomain m)).map some

/-- **The answer to a port call** of session `sid`. -/
def exec (env : Env) (sid : ℕ) :
    (o : Port) → Session × World → Except Exc o.Ret × (Session × World)
  | .usersAdd user, (s, w) =>
    (.ok (), s.addUser (UserMapper.toModel user), w)
  | .usersUpdate user, (s, w) =>
    match s.getUser env.dialect (w.view sid) user.id.value with
    | none => (.error (.domain .userNotFound), s, w)
    | some m => (.ok (), s.setUser m (UserMapper.applyToModel user), w)
  | .usersGetById userId, (s, w) =>
    (userOfModel (s.getUser env.dialect (w.view sid) userId.value), s, w)
  | .usersGetByEmail email, (s, w) =>
    match s.selectUserByEmail env.dialect (w.view sid) email.value with
    | .error e => (.error e, s, w)
    | .ok found => (userOfModel found, s, w)
  | .usersExistsByEmail email, (s, w) =>
    (.ok ((w.view sid).users.rows.any fun m => m.email = email.value), s, w)
  | .refreshTokensAdd record, (s, w) =>
    (.ok (), s.addRefreshToken (RefreshTokenMapper.toModel record), w)
  | .refreshTokensUpdate record, (s, w) =>
    match s.getRefreshToken env.dialect (w.view sid) record.jti with
    | none => (.error (.domain .invalidToken), s, w)
    | some m => (.ok (), s.setRefreshToken m (RefreshTokenMapper.applyToModel record), w)
  | .refreshTokensGetByJti jti, (s, w) =>
    (.ok ((s.getRefreshToken env.dialect (w.view sid) jti).map RefreshTokenMapper.toDomain), s, w)
  | .refreshTokensRevokeFamily familyId at', (s, w) =>
    (.ok (), execBulk sid (.family familyId) at' s w)
  | .refreshTokensRevokeAllForUser userId at', (s, w) =>
    (.ok (), execBulk sid (.user userId.value) at' s w)
  | .commit, (s, w) => execCommit env sid s w
  | .hash plain, (s, w) => (.ok (env.hash w.salts plain), s, w.drawSalt)
  | .verify plain hashed, (s, w) => (.ok (env.verify plain hashed), s, w)
  | .createAccessToken subject, (s, w) =>
    -- the expiry of a token is taken to be a `datetime`
    let token := JwtTokenService.accessToken env.settings (w.now env) (w.freshId env) subject
    (.ok token, s, w.drawId.issue token)
  | .createRefreshToken subject tokenId, (s, w) =>
    let issued := JwtTokenService.refreshToken env.settings (w.now env) subject tokenId
    (.ok issued, s, w.issue issued.token)
  | .decode token, (s, w) => (ofDomain (w.decode env token), s, w.tick)
  | .now, (s, w) => (.ok (w.now env), s, w.tick)
  | .uuid4, (s, w) => (.ok (w.freshId env), s, w.drawId)
  | .dispatch events, (s, w) =>
    (env.dispatcher.dispatch events, s, w.dispatch events)
  | .recordRevoke record at', (s, w) => (.ok (record.revoke at'), s, w)
  | .userChangePassword user hashedPassword, (s, w) =>
    (.ok (user.changePassword hashedPassword), s, w)
  | .userPullEvents user, (s, w) => (.ok user.pullEvents.1, s, w)

/-! ### Commands alone -/

/-- Executes a command alone, in a session of its own that is closed afterwards. -/
def execute (env : Env) (command : Command) (w : World) : Except Exc Response × World :=
  let (result, _, w) := command.execute.run (exec env 0) (Session.empty, w)
  (result, w.close 0)

/-! ### Requests side by side -/

/-- The rows of `refresh_tokens` that a call writes, and so has to hold. -/
def rowsWritten (sid : ℕ) (s : Session) (w : World) : Port → List UUID
  | .refreshTokensRevokeFamily familyId _ => (w.view sid).selected (.family familyId)
  | .refreshTokensRevokeAllForUser userId _ => (w.view sid).selected (.user userId.value)
  | .commit => (s.refreshTokens.filter fun t => t.current ≠ t.loaded).map (·.current.jti)
  | _ => []

/-- A call waits while another session holds a row it writes. -/
def Unblocked (sid : ℕ) (o : Port) (s : Session) (w : World) : Prop :=
  ∀ st ∈ w.statements, st.session ≠ sid → ∀ jti ∈ rowsWritten sid s w o, jti ∉ st.rows

instance (sid : ℕ) (o : Port) (s : Session) (w : World) : Decidable (Unblocked sid o s w) :=
  inferInstanceAs (Decidable (∀ st ∈ w.statements, st.session ≠ sid →
    ∀ jti ∈ rowsWritten sid s w o, jti ∉ st.rows))

/-- Requests side by side, each in a session of its own. -/
def system (env : Env) : System ℕ Port Port.Ret Exc Session World where
  exec := exec env
  enabled sid o x := Unblocked sid o x.1 x.2

instance (env : Env) (sid : ℕ) (o : Port) (x : Session × World) :
    Decidable ((system env).enabled sid o x) :=
  inferInstanceAs (Decidable (Unblocked sid o x.1 x.2))

/-- Requests that have not started yet; a number without a command is no request. -/
def start (requests : ℕ → Option Command) (w : World) :
    Config ℕ Port Port.Ret Exc Response Session World where
  threads sid :=
    { prog := match requests sid with
        | some command => command.execute
        | none => .pure .none
      loc := .empty }
  shared := w
  trace := []

end ports

/-! ### A small environment -/

instance (env : Env) (n : ℕ) : Decidable (env.NoRepeat n) :=
  inferInstanceAs (Decidable (∀ i < n, ∀ j < n, env.uuid i = env.uuid j → i = j))

/-- A clock that counts, ids that count, and a hash that shows the password. -/
def sampleEnv : Env where
  settings := { secret := lit ['k'], issuer := lit ['i'], audience := lit ['a'] }
  dialect := .sqlite
  clock n := n
  uuid n := ⟨Fin.ofNat _ n⟩
  hash _ plain := ch 'h' :: plain
  verify plain hashed := hashed == ch 'h' :: plain
  dispatcher := eventDispatcher

theorem timely_sampleEnv {n : ℕ} (h : (n : ℤ) < coarseFrom) : sampleEnv.Timely n where
  mono _ _ hij _ := Int.ofNat_le.mpr hij
  nonneg _ _ := Int.natCast_nonneg _
  fine _ hi := (Int.ofNat_le.mpr hi).trans_lt h

theorem verify_sampleEnv (plain : Str) (salt : ℕ) (plain' : Str) :
    sampleEnv.verify plain (sampleEnv.hash salt plain') = true ↔ plain = plain' :=
  ⟨fun h => (List.cons.inj (eq_of_beq h)).2.symm, fun h => h ▸ beq_self_eq_true _⟩

end FastapiStarter
