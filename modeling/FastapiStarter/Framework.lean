import FastapiStarter.Asgi

/-!
# The web framework

What the application uses of Starlette.  The two middlewares for exceptions follow
what it documents of them.  The middlewares that it takes as they come are
parameters, with what they leave alone.

A response start is held back while it is compressed: it goes out with the first
body, with other headers for the encoding.

## Main definitions

* `Response`, `jsonResponse` — responses, and how a JSON response gets its headers, if
  they and its body can be encoded.
* `Framework` — the parameters.
* `heldStart`, `Framework.gzipped` — the compressed response.
* `exceptionMiddleware`, `serverErrorMiddleware` — what becomes of exceptions.

## Main results

* `starts_gzipped`, `contents_gzipped` — compression keeps status, body and headers.
-/

namespace FastapiStarter.Web

open Interaction

/-! ### Responses -/

/-- A response. -/
structure Response where
  status : ℤ
  headers : Headers
  content : Content

/-- The messages of a response. -/
def Response.messages (r : Response) : List Message :=
  [.start r.status r.headers, .body r.content false]

/-- `await response(scope, receive, send)`. -/
def Response.send (r : Response) : App := (sendAll r.messages).widen

/-- The lower case of a character, if that is in Latin-1. -/
def latinLower (c : CodePoint) : CodePoint :=
  if (65 ≤ c.val ∧ c.val ≤ 90) ∨ (192 ≤ c.val ∧ c.val ≤ 222 ∧ c.val ≠ 215) then
    Fin.ofNat 1114112 (c.val + 32)
  else if c.val = 0x178 then Fin.ofNat 1114112 0xFF
  else if c.val = 0x1E9E then Fin.ofNat 1114112 0xDF
  else if c.val = 0x212A then ch 'k'
  else if c.val = 0x212B then Fin.ofNat 1114112 0xE5
  else c

/-- `name.lower()`, for the name of a header field: what is not in Latin-1 has no place in
one, in either case. -/
def lowerName (name : Str) : Str := name.map latinLower

/-! ### The parameters -/

/-- The fields that a plain response has. -/
def plainNames : List Str := [text "content-length", text "content-type", text "location"]

/-- The fields that `CORSMiddleware` sets. -/
def corsNames : List Str :=
  [text "vary", text "access-control-allow-origin", text "access-control-allow-credentials",
    text "access-control-allow-methods", text "access-control-allow-headers",
    text "access-control-allow-private-network", text "access-control-expose-headers",
    text "access-control-max-age"]

/-- The fields that `GZipMiddleware` sets. -/
def gzipNames : List Str := [text "vary", text "content-encoding", text "content-length"]

/-- The response start that is held when the first body is sent. -/
def heldStart : Option (ℤ × Headers) → List Message → Option (ℤ × Headers)
  | _, [] => none
  | _, .start status headers :: ms => heldStart (some (status, headers)) ms
  | held, .body _ _ :: _ => held
  | held, _ :: ms => heldStart held ms

/-- What the application uses of the framework without looking into it. -/
structure Framework where
  /-- `HTTPStatus(status).phrase`. -/
  phrase : ℤ → Option Str
  phrase_encodable : ∀ status, ∀ s ∈ phrase status, s.encodable = true
  /-- `str(len(body))`, for the encoded content. -/
  contentLength : Content → Str
  /-- The answer of `TrustedHostMiddleware` to a request that it does not let pass. -/
  trustedHost : List Str → Scope → Option Response
  trustedHost_names : ∀ hosts scope r, trustedHost hosts scope = some r →
    ∀ h ∈ r.headers, h.1 ∈ plainNames
  /-- The answer of `CORSMiddleware` to a request that it answers itself. -/
  cors : List Str → Scope → Option Response
  cors_names : ∀ origins scope r, cors origins scope = some r →
    ∀ h ∈ r.headers, h.1 ∈ plainNames ++ corsNames
  /-- The headers of a response that passes `CORSMiddleware`. -/
  corsHeaders : List Str → Scope → Headers → Headers
  corsHeaders_values : ∀ origins scope headers name, name ∉ corsNames →
    values (corsHeaders origins scope headers) name = values headers name
  /-- What `GZipMiddleware` sends for a message, after those that were sent before. -/
  gzip : Scope → List Message → Message → List Message
  gzip_starts : ∀ scope ms,
    match heldStart none ms with
    | none => starts (through (fun past m => (gzip scope past m, past ++ [m])) [] ms).1 = []
    | some (status, headers) => ∃ headers',
      starts (through (fun past m => (gzip scope past m, past ++ [m])) [] ms).1 =
        [(status, headers')] ∧
      ∀ name ∉ gzipNames, values headers' name = values headers name
  gzip_contents : ∀ scope ms,
    contents (through (fun past m => (gzip scope past m, past ++ [m])) [] ms).1 =
      if (heldStart none ms).isSome then contents ms else []
  /-- The traceback that `ServerErrorMiddleware` sends in debug mode. -/
  debugResponse : Scope → Exc → Response
  debugResponse_names : ∀ scope exc, ∀ h ∈ (debugResponse scope exc).headers, h.1 ∈ plainNames

/-- The strings of a problem can be encoded in UTF-8. -/
def ProblemDetail.encodable (p : ProblemDetail) : Bool :=
  p.type.encodable && p.title.encodable && p.detail.all (·.encodable) &&
    p.instance_.all (·.encodable) &&
    (p.errors.getD []).all fun e => e.loc.encodable && e.msg.encodable && e.type.encodable

/-- The content can be encoded in UTF-8. -/
def Content.encodable : Content → Bool
  | .problem p => p.encodable
  | .plain s => s.encodable
  | .bytes _ => true

/-- A field can be encoded in Latin-1. -/
def isFieldLatin1 (h : Str × Str) : Bool := (lowerName h.1).isLatin1 && h.2.isLatin1

/-- A JSON response, encoded. -/
def encodedResponse (fw : Framework) (status : ℤ) (mediaType : Str) (content : Content)
    (headers : List (Str × Str)) : Response :=
  let raw : Headers := headers.map fun h => (lowerName h.1, h.2)
  let length : Headers :=
    if (raw.any fun h => h.1 = text "content-length") ∨ status < 200 ∨ status = 204 ∨ status = 304
    then [] else [(text "content-length", fw.contentLength content)]
  let type : Headers :=
    if raw.any fun h => h.1 = text "content-type" then [] else [(text "content-type", mediaType)]
  ⟨status, raw ++ length ++ type, content⟩

/-- `JSONResponse(status_code, media_type, content, headers)`: it raises if it cannot encode
the body or a field. -/
def jsonResponse (fw : Framework) (status : ℤ) (mediaType : Str) (content : Content)
    (headers : List (Str × Str)) : Except Exc Response :=
  if content.encodable && headers.all isFieldLatin1 then
    .ok (encodedResponse fw status mediaType content headers)
  else .error (.other (text "UnicodeEncodeError"))

/-! ### Exceptions -/

/-- A handler: it makes a response of an exception. -/
abbrev Handler := Scope → Exc → Part Response

/-- `send`, with the variable `response_started`. -/
def noteStart (started : Bool) (m : Message) : List Message × Bool :=
  ([m], started || m.isStart)

/-- `ExceptionMiddleware`: an exception with a handler becomes a response, unless
the response has started. -/
def exceptionMiddleware (lookup : Exc → Option Handler) (scope : Scope) (app : App) : App := do
  let (outcome, started) ← wrapSend noteStart app false
  match outcome with
  | .ok _ => return ()
  | .error exc =>
    match lookup exc with
    | none => Prog.raise exc
    | some handler =>
      if started then Prog.raise (.other (text "RuntimeError"))
      else do
        let response ← handler scope exc
        response.send

/-- Sends a response unless one has started, and raises the exception again. -/
def lastResponse (started : Bool) (response : Response) (exc : Exc) : App := do
  if started then pure () else response.send
  Prog.raise exc

/-- `ServerErrorMiddleware`: runs the handler for all exceptions, sends its response
unless one has started, and raises the exception again. -/
def serverErrorMiddleware (fw : Framework) (handler : Handler) (debug : Bool) (scope : Scope)
    (app : App) : App := do
  let (outcome, started) ← wrapSend noteStart app false
  match outcome with
  | .ok _ => return ()
  | .error exc => do
    let response ← if debug then pure (fw.debugResponse scope exc) else handler scope exc
    lastResponse started response exc

/-! ### Passing messages on -/

theorem through_noteStart (started : Bool) (ms : List Message) :
    through noteStart started ms = (ms, started || !(starts ms).isEmpty) := by
  induction ms generalizing started with
  | nil => simp [through, starts]
  | cons m ms ih => cases m <;> simp [through, ih, noteStart, starts, Message.isStart]

/-- A middleware that replaces each message by one. -/
theorem through_map (f : Message → Message) (ms : List Message) :
    (through (fun _ m => ([f m], ())) () ms).1 = ms.map f := by
  induction ms with
  | nil => rfl
  | cons m ms ih => simp [through, ih]

theorem serve_send {σ : Type} {recv : Receive σ} (r : Response) (w : World σ) :
    serve recv r.send w = (.ok (), { w with sent := r.messages }) := by
  rw [serve, Response.send, Prog.exec_widen, exec_sendAll]
  rfl

theorem quiet_send (r : Response) : Quiet r.send := Prog.along_widen (along_sendAll _)

@[simp] theorem starts_messages (r : Response) : starts r.messages = [(r.status, r.headers)] := rfl

namespace Framework

variable (fw : Framework)

/-- The messages of a response, compressed. -/
def gzipped (scope : Scope) (ms : List Message) : List Message :=
  (through (fun past m => (fw.gzip scope past m, past ++ [m])) [] ms).1

/-- The start of a compressed response is the one that was held. -/
theorem starts_gzipped_none {scope : Scope} {ms : List Message} (h : heldStart none ms = none) :
    starts (fw.gzipped scope ms) = [] := by
  have hspec := fw.gzip_starts scope ms
  rw [h] at hspec
  exact hspec

/-- **Compression keeps the status and the headers.** -/
theorem starts_gzipped {scope : Scope} {ms : List Message} {status : ℤ} {headers : Headers}
    (h : heldStart none ms = some (status, headers)) :
    ∃ headers', starts (fw.gzipped scope ms) = [(status, headers')] ∧
      ∀ name ∉ gzipNames, values headers' name = values headers name := by
  have hspec := fw.gzip_starts scope ms
  rw [h] at hspec
  exact hspec

theorem contents_gzipped_none {scope : Scope} {ms : List Message} (h : heldStart none ms = none) :
    contents (fw.gzipped scope ms) = [] := by
  rw [gzipped, fw.gzip_contents, h]
  rfl

/-- **Compression keeps the body.** -/
theorem contents_gzipped {scope : Scope} {ms : List Message} (h : (heldStart none ms).isSome) :
    contents (fw.gzipped scope ms) = contents ms := by
  rw [gzipped, fw.gzip_contents, if_pos h]

end Framework

/-! ### Held starts -/

theorem heldStart_map {f : Message → Message} {g : Headers → Headers}
    (hstart : ∀ status headers, f (.start status headers) = .start status (g headers))
    (hother : ∀ m, m.isStart = false → f m = m) (held : Option (ℤ × Headers))
    (ms : List Message) :
    heldStart (held.map fun s => (s.1, g s.2)) (ms.map f) =
      (heldStart held ms).map fun s => (s.1, g s.2) := by
  induction ms generalizing held with
  | nil => rfl
  | cons m ms ih =>
    cases m with
    | start status headers =>
      rw [List.map_cons, hstart]
      exact ih (some (status, headers))
    | body content more =>
      rw [List.map_cons, hother _ rfl]
      rfl
    | request body more =>
      rw [List.map_cons, hother _ rfl]
      exact ih held
    | disconnect =>
      rw [List.map_cons, hother _ rfl]
      exact ih held

/-- Only a start that was sent is held. -/
theorem mem_starts_of_heldStart {held : Option (ℤ × Headers)} {ms : List Message}
    {s : ℤ × Headers} (h : heldStart held ms = some s) : held = some s ∨ s ∈ starts ms := by
  induction ms generalizing held with
  | nil => cases h
  | cons m ms ih =>
    cases m with
    | start status headers =>
      rcases ih h with heq | hmem
      · obtain rfl := Option.some.inj heq
        exact .inr List.mem_cons_self
      · exact .inr (List.mem_cons_of_mem _ hmem)
    | body content more => exact .inl h
    | request body more => exact ih h
    | disconnect => exact ih h

/-- Before the first body, the last start is held. -/
theorem heldStart_append {past : List Message} (h : contents past = [])
    (held : Option (ℤ × Headers)) (ms : List Message) :
    heldStart held (past ++ ms) = heldStart ((starts past).getLast?.or held) ms := by
  induction past generalizing held with
  | nil => rfl
  | cons m past ih =>
    cases m with
    | start status headers =>
      refine (ih h _).trans ?_
      rw [starts, List.getLast?_cons]
      rcases (starts past).getLast? with _ | s <;> rfl
    | body content more => cases h
    | request body more => exact ih h held
    | disconnect => exact ih h held

/-- After the first body, nothing changes. -/
theorem heldStart_append_of_body {past : List Message} (h : contents past ≠ [])
    (held : Option (ℤ × Headers)) (ms : List Message) :
    heldStart held (past ++ ms) = heldStart held past := by
  induction past generalizing held with
  | nil => exact absurd rfl h
  | cons m past ih =>
    cases m with
    | body content more => rfl
    | start status headers => exact ih h _
    | request body more => exact ih h held
    | disconnect => exact ih h held

/-! ### A framework that compresses nothing -/

/-- A compression that holds the start back, and changes nothing. -/
def holdStart (past : List Message) : Message → List Message
  | .body content more =>
    if contents past = [] then
      match (starts past).getLast? with
      | some s => [.start s.1 s.2, .body content more]
      | none => []
    else if (heldStart none past).isSome then [.body content more] else []
  | _ => []

section hold

variable {past : List Message}

/-- After the first body, bodies pass if a start has. -/
theorem through_holdStart_of_body (h : contents past ≠ []) (ms : List Message) :
    starts (through (fun past m => (holdStart past m, past ++ [m])) past ms).1 = [] ∧
      contents (through (fun past m => (holdStart past m, past ++ [m])) past ms).1 =
        if (heldStart none past).isSome then contents ms else [] := by
  induction ms generalizing past with
  | nil => simp [through, starts, contents]
  | cons m ms ih =>
    have hpast : contents (past ++ [m]) ≠ [] := by
      rw [contents_append]
      exact fun hnil => h (List.append_eq_nil_iff.mp hnil).1
    obtain ⟨hstarts, hcontents⟩ := ih hpast
    rw [heldStart_append_of_body h] at hcontents
    rw [through, starts_append, contents_append, hstarts, hcontents]
    cases m with
    | body content more =>
      simp only [holdStart, if_neg h]
      split <;> simp [starts, contents]
    | _ => simp [holdStart, starts, contents]

/-- Before it, the last start is held. -/
theorem through_holdStart (h : contents past = []) (ms : List Message) :
    starts (through (fun past m => (holdStart past m, past ++ [m])) past ms).1 =
        (heldStart (starts past).getLast? ms).toList ∧
      contents (through (fun past m => (holdStart past m, past ++ [m])) past ms).1 =
        if (heldStart (starts past).getLast? ms).isSome then contents ms else [] := by
  induction ms generalizing past with
  | nil => simp [through, starts, contents, heldStart]
  | cons m ms ih =>
    rw [through, starts_append, contents_append]
    cases m with
    | body content more =>
      -- the first body releases what is held
      have hpast : contents (past ++ [.body content more]) ≠ [] := by
        simp [contents_append, contents]
      obtain ⟨hstarts, hcontents⟩ := through_holdStart_of_body hpast ms
      rw [heldStart_append h] at hcontents
      rw [hstarts, hcontents]
      simp only [holdStart, if_pos h, heldStart, Option.or_none]
      rcases (starts past).getLast? with _ | s <;> simp [starts, contents]
    | start status headers =>
      -- a further start takes the place of the one that is held
      have hlast : (starts (past ++ [.start status headers])).getLast? =
          some (status, headers) := by
        simp [starts_append, starts]
      obtain ⟨hstarts, hcontents⟩ := @ih (past ++ [.start status headers])
        (by simp [contents_append, contents, h])
      rw [hstarts, hcontents, hlast]
      exact ⟨rfl, rfl⟩
    | request body more =>
      -- other messages pass
      have hlast : starts (past ++ [.request body more]) = starts past := by
        simp [starts_append, starts]
      obtain ⟨hstarts, hcontents⟩ := @ih (past ++ [.request body more])
        (by simp [contents_append, contents, h])
      rw [hstarts, hcontents, hlast]
      exact ⟨rfl, rfl⟩
    | disconnect =>
      have hlast : starts (past ++ [.disconnect]) = starts past := by
        simp [starts_append, starts]
      obtain ⟨hstarts, hcontents⟩ := @ih (past ++ [.disconnect])
        (by simp [contents_append, contents, h])
      rw [hstarts, hcontents, hlast]
      exact ⟨rfl, rfl⟩

end hold

/-- The length of the JSON document of a problem, in text without escapes. -/
def problemLength (p : ProblemDetail) : ℕ :=
  let field (name : String) (value : Option Str) : ℕ :=
    (value.map fun s => name.length + s.length + 6).getD 0
  field "type" (some p.type) + field "title" (some p.title) +
    (text (toString p.status)).length + 10 + field "detail" p.detail +
    field "instance" p.instance_ + 1

/-- The host of a request, without its port. -/
def hostName (scope : Scope) : Str :=
  ((values scope.headers (text "host")).head?.getD []).takeWhile fun c => c ≠ ch ':'

/-- A response in plain text. -/
def plainResponse (status : ℤ) (headers : Headers) (body : Str) : Response :=
  ⟨status, headers ++ [(text "content-length", text (toString body.length)),
    (text "content-type", text "text/plain; charset=utf-8")], .plain body⟩

/-- The headers of an answer to a preflight request. -/
def preflightHeaders : Headers :=
  [(text "vary", text "Origin"),
    (text "access-control-allow-methods", text "GET, POST, PUT, PATCH, DELETE, OPTIONS"),
    (text "access-control-max-age", text "600"),
    (text "access-control-allow-credentials", text "true")]

/-- The request is a preflight request, from an origin that is not allowed. -/
def foreignPreflight (origins : List Str) (scope : Scope) : Bool :=
  scope.method = text "OPTIONS" &&
    !(values scope.headers (text "access-control-request-method")).isEmpty &&
    match (values scope.headers (text "origin")).head? with
    | some origin => !(origins.contains origin || origins.contains (text "*"))
    | none => false

/-- **A framework** that knows hosts by their full name only, answers preflight
requests from foreign origins, and compresses nothing. -/
def plainFramework : Framework where
  phrase status := if status = 404 then some (text "Not Found") else none
  phrase_encodable status s hs := by
    split at hs
    · rw [← Option.some.inj hs]
      exact encodable_text _
    · cases hs
  contentLength
    | .problem p => text (toString (problemLength p))
    | .plain s => text (toString s.length)
    | .bytes bs => text (toString bs.length)
  trustedHost hosts scope :=
    if hosts.contains (text "*") || hosts.contains (hostName scope) then none
    else some (plainResponse 400 [] (text "Invalid host header"))
  trustedHost_names hosts scope r hr := by
    split at hr
    · cases hr
    · obtain rfl := Option.some.inj hr
      simp [plainResponse, plainNames]
  cors origins scope :=
    if foreignPreflight origins scope then
      some (plainResponse 400 preflightHeaders (text "Disallowed CORS origin"))
    else none
  cors_names origins scope r hr := by
    split at hr
    · obtain rfl := Option.some.inj hr
      simp [plainResponse, preflightHeaders, plainNames, corsNames]
    · cases hr
  corsHeaders _ _ headers := headers
  corsHeaders_values _ _ _ _ _ := rfl
  gzip _ := holdStart
  gzip_starts _ ms := by
    have hstarts := (@through_holdStart [] rfl ms).1
    change _ = (heldStart none ms).toList at hstarts
    rcases hheld : heldStart none ms with _ | ⟨status, headers⟩
    · rw [hheld] at hstarts
      exact hstarts
    · rw [hheld] at hstarts
      exact ⟨headers, hstarts, fun _ _ => rfl⟩
  gzip_contents _ ms := (@through_holdStart [] rfl ms).2
  debugResponse _ exc := plainResponse 500 [] exc.name
  debugResponse_names _ _ := by simp [plainResponse, plainNames]

end FastapiStarter.Web
