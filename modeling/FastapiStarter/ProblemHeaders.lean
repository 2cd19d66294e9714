import FastapiStarter.Middleware
import Mathlib.Data.List.Nodup

/-!
# The headers of problem responses

Field names are the same in any letter case.  The mapping that an exception brings
along is merged with the defaults in an ordinary dictionary, which compares them
letter by letter: a default is added beside a supplied field of another spelling.
What cannot be encoded does not become a response at all.

## Main definitions

* `lowered` — headers as they go onto the wire.
* `registered`, `Exc.supplied` — the handler of an exception, and what it brings along.
* `WellFormed`, `AnsweredWell` — what the headers of a problem response should be, and
  that there is one.
* `Exc.Spelled` — the supplied names are spelled as the code spells them.

## Main results

* `lowered_dictSetdefault` — a dictionary that is spelled so merges as headers do.
* `nodup_dictSetdefault` — **when a default doubles a field**.
* `wellFormed_iff` — the exceptions whose responses are well formed.
-/

namespace FastapiStarter.Web

open Interaction

/-! ### Defaults in a dictionary -/

/-- Header fields, with names in lower case. -/
def lowered (d : List (Str × Str)) : Headers := d.map fun h => (lowerName h.1, h.2)

/-- The names that differ from the given one in their letter case only are not there. -/
def SpelledAs (d : List (Str × Str)) (key : Str) : Prop :=
  ∀ h ∈ d, lowerName h.1 = lowerName key → h.1 = key

instance decidableSpelledAs (d : List (Str × Str)) (key : Str) : Decidable (SpelledAs d key) :=
  inferInstanceAs (Decidable (∀ h ∈ d, lowerName h.1 = lowerName key → h.1 = key))

section merge

variable {d : List (Str × Str)} {key value : Str}

/-- A name that is spelled as the key is in the dictionary if it is among the headers. -/
theorem any_lowered (h : SpelledAs d key) :
    ((lowered d).any fun h => h.1 = lowerName key) = d.any fun h => h.1 = key := by
  rw [lowered, List.any_map, Bool.eq_iff_iff, List.any_eq_true, List.any_eq_true]
  refine exists_congr fun item => and_congr_right fun hitem => ?_
  simp only [Function.comp_apply, decide_eq_true_eq]
  exact ⟨h item hitem, fun heq => heq ▸ rfl⟩

/-- **A dictionary merges as headers do** if it spells the name as the default. -/
theorem lowered_dictSetdefault (h : SpelledAs d key) :
    lowered (dictSetdefault d key value) = setdefault (lowered d) (lowerName key) value := by
  unfold dictSetdefault setdefault
  rw [any_lowered h]
  split
  · rfl
  · simp only [lowered, List.map_append, List.map_cons, List.map_nil]

theorem spelledAs_of_mem (hd : (d.map fun h => lowerName h.1).Nodup) {item : Str × Str}
    (hitem : item ∈ d) : SpelledAs d item.1 := by
  intro h hh heq
  rw [List.inj_on_of_nodup_map hd hh hitem heq]

/-- **A default doubles a field** exactly if that is there in another spelling. -/
theorem nodup_dictSetdefault :
    ((dictSetdefault d key value).map fun h => lowerName h.1).Nodup ↔
      (d.map fun h => lowerName h.1).Nodup ∧ SpelledAs d key := by
  unfold dictSetdefault
  split
  next hany =>
    obtain ⟨item, hitem, hkey⟩ := List.any_eq_true.mp hany
    obtain rfl := of_decide_eq_true hkey
    exact ⟨fun hd => ⟨hd, spelledAs_of_mem hd hitem⟩, And.left⟩
  next hany =>
    rw [List.map_append, List.map_singleton, ← List.concat_eq_append, List.nodup_concat, and_comm]
    refine and_congr_right fun hd => ?_
    rw [Bool.not_eq_true, List.any_eq_false] at hany
    refine ⟨fun hnot h hh heq => ?_, fun hspelled hmem => ?_⟩
    · exact absurd (List.mem_map.mpr ⟨h, hh, heq⟩) hnot
    · obtain ⟨h, hh, heq⟩ := List.mem_map.mp hmem
      exact hany h hh (decide_eq_true (hspelled h hh heq))

/-- Another default does not matter. -/
theorem spelledAs_dictSetdefault {key' : Str} (hne : lowerName key ≠ lowerName key') :
    SpelledAs (dictSetdefault d key value) key' ↔ SpelledAs d key' := by
  unfold dictSetdefault
  split
  · rfl
  · refine ⟨fun h item hitem => h item (List.mem_append_left _ hitem), fun h item hitem heq => ?_⟩
    rcases List.mem_append.mp hitem with hmem | hmem
    · exact h item hmem heq
    · obtain rfl := List.mem_singleton.mp hmem
      exact absurd heq hne

end merge

/-- A field has one value at most if no name is there twice. -/
theorem values_of_nodup {headers : Headers} (h : (headers.map Prod.fst).Nodup) (name : Str) :
    (values headers name).length ≤ 1 := by
  have hcount : (values headers name).length = (headers.map Prod.fst).count name := by
    rw [values, List.length_map, List.count, List.countP_map, List.countP_eq_length_filter]
    congr 1
    refine List.filter_congr fun item _ => ?_
    rw [Bool.eq_iff_iff, decide_eq_true_iff, Function.comp_apply, beq_iff_eq]
  rw [hcount]
  exact List.nodup_iff_count_le_one.mp h name

/-- With a default, a field that has one value at most has one. -/
theorem values_setdefault_once {headers : Headers} {name : Str}
    (h : (values headers name).length ≤ 1) (value : Str) :
    values (setdefault headers name value) name =
      [(values headers name).head?.getD value] := by
  rw [values_setdefault_self]
  rcases hvalues : values headers name with _ | ⟨v, vs⟩
  · rfl
  · rw [hvalues, List.length_cons] at h
    obtain rfl : vs = [] := List.eq_nil_of_length_eq_zero (by omega)
    exact if_neg (List.cons_ne_nil v [])

theorem names_lowered (d : List (Str × Str)) :
    (lowered d).map Prod.fst = d.map fun h => lowerName h.1 := by
  rw [lowered, List.map_map]
  rfl

/-! ### The handlers -/

variable (fw : Framework)

/-- The handler that an exception gets: the one for its class, or the one for `Exception`. -/
def registered (exc : Exc) : Handler :=
  (exceptionHandler fw exc).getD (unhandledExceptionHandler fw)

/-- The headers that an exception brings along. -/
def Exc.supplied : Exc → List (Str × Str)
  | .http _ _ (some headers) => headers
  | _ => []

/-- The headers of a problem response: its status is the one in its body, no name is
there twice, what the exception has brought along is there, a 401 has one challenge and
a bound id is there once. -/
structure WellFormed (response : Response) (supplied : List (Str × Str))
    (requestId : Option Str) : Prop where
  status : ∃ problem, response.content = .problem problem ∧ problem.status = response.status
  once : (response.headers.map Prod.fst).Nodup
  kept : ∀ h ∈ supplied, (lowerName h.1, h.2) ∈ response.headers
  challenge : response.status = 401 → values response.headers (text "www-authenticate") =
    [(values (lowered supplied) (text "www-authenticate")).head?.getD (text "Bearer")]
  id : requestId ≠ none → (values response.headers requestIdHeader).length = 1

/-- No two of the supplied names are the same; a challenge that comes with a 401, and an
id that comes when one is bound, are spelled as the code spells them. -/
structure Exc.Spelled (exc : Exc) (requestId : Option Str) : Prop where
  distinct : (exc.supplied.map fun h => lowerName h.1).Nodup
  challenge : ∀ detail headers, exc = .http 401 detail (some headers) →
    SpelledAs headers (text "WWW-Authenticate")
  id : requestId ≠ none → SpelledAs exc.supplied (text "X-Request-ID")

variable {fw} {σ : Type} {recv : Receive σ}

/-- A new name that is added doubles none. -/
theorem nodup_append_unless {l : List Str} {name : Str} {c : Prop} [Decidable c]
    (h : ¬ c → name ∉ l) : (l ++ if c then [] else [name]).Nodup ↔ l.Nodup := by
  split
  next => rw [List.append_nil]
  next hc =>
    rw [← List.concat_eq_append, List.nodup_concat]
    exact and_iff_right (h hc)

/-- A JSON response doubles no field that its headers do not double. -/
theorem nodup_encodedResponse (status : ℤ) (mediaType : Str) (content : Content)
    (headers : List (Str × Str)) :
    ((encodedResponse fw status mediaType content headers).headers.map Prod.fst).Nodup ↔
      (headers.map fun h => lowerName h.1).Nodup := by
  have hfresh : ∀ {name : Str}, ¬ ((lowered headers).any fun h => h.1 = name) = true →
      name ∉ (lowered headers).map Prod.fst := by
    intro name hnone hmem
    obtain ⟨item, hitem, rfl⟩ := List.mem_map.mp hmem
    exact hnone (List.any_eq_true.mpr ⟨item, hitem, decide_eq_true rfl⟩)
  have hne : text "content-type" ≠ text "content-length" := by decide
  have hresponse : (encodedResponse fw status mediaType content headers).headers.map Prod.fst =
      ((lowered headers).map Prod.fst ++
        (if ((lowered headers).any fun h => h.1 = text "content-length") = true ∨ status < 200 ∨
          status = 204 ∨ status = 304 then [] else [text "content-length"])) ++
      if ((lowered headers).any fun h => h.1 = text "content-type") = true then []
        else [text "content-type"] := by
    simp only [encodedResponse, List.map_append, apply_ite (List.map Prod.fst), List.map_nil,
      List.map_cons]
    rfl
  rw [hresponse, nodup_append_unless, nodup_append_unless, names_lowered]
  · exact fun hnot => hfresh fun h => hnot (.inl h)
  · intro hnot hmem
    rcases List.mem_append.mp hmem with hmem | hmem
    · exact hfresh hnot hmem
    · split at hmem
      · cases hmem
      · exact hne (List.mem_singleton.mp hmem)

theorem lowerName_challenge : lowerName (text "WWW-Authenticate") = text "www-authenticate" := by
  decide

theorem lowerName_requestId : lowerName (text "X-Request-ID") = requestIdHeader := by decide

section problem

variable {problem : ProblemDetail} {headers : List (Str × Str)} {requestId : Option Str}

/-- **The defaults double no field** exactly if the supplied fields are spelled as they are. -/
theorem nodup_allHeaders :
    ((allHeaders problem (some headers) requestId).map fun h => lowerName h.1).Nodup ↔
      (headers.map fun h => lowerName h.1).Nodup ∧
      (problem.status = 401 → SpelledAs headers (text "WWW-Authenticate")) ∧
      (requestId ≠ none → SpelledAs headers (text "X-Request-ID")) := by
  have hne : lowerName (text "WWW-Authenticate") ≠ lowerName (text "X-Request-ID") := by decide
  unfold allHeaders
  rcases requestId with _ | id
  · by_cases hstatus : problem.status = 401
    · simp [hstatus, nodup_dictSetdefault]
    · simp [hstatus]
  · by_cases hstatus : problem.status = 401
    · simp [hstatus, nodup_dictSetdefault, spelledAs_dictSetdefault hne, and_assoc]
    · simp [hstatus, nodup_dictSetdefault]

/-- The values of a field in a problem response. -/
theorem values_problemJson {name : Str} (hname : name ∉ plainNames) :
    values (problemJson fw problem (some headers) requestId).headers name =
      values (lowered (allHeaders problem (some headers) requestId)) name :=
  values_encodedResponse _ _ _ _ hname

/-- The headers of a problem, when the supplied fields are spelled as the defaults. -/
theorem lowered_allHeaders
    (hchallenge : problem.status = 401 → SpelledAs headers (text "WWW-Authenticate"))
    (hid : requestId ≠ none → SpelledAs headers (text "X-Request-ID")) :
    lowered (allHeaders problem (some headers) requestId) =
      let challenged := if problem.status = 401 then
        setdefault (lowered headers) (text "www-authenticate") (text "Bearer") else lowered headers
      match requestId with
      | some id => setdefault challenged requestIdHeader id
      | none => challenged := by
  have hne : lowerName (text "WWW-Authenticate") ≠ lowerName (text "X-Request-ID") := by decide
  unfold allHeaders
  by_cases hstatus : problem.status = 401
  · rcases requestId with _ | id
    · simp [hstatus, lowered_dictSetdefault (hchallenge hstatus), lowerName_challenge]
    · have hspelled : SpelledAs (dictSetdefault headers (text "WWW-Authenticate")
          (text "Bearer")) (text "X-Request-ID") :=
        (spelledAs_dictSetdefault hne).mpr (hid (Option.some_ne_none id))
      simp [hstatus, lowered_dictSetdefault hspelled, lowerName_requestId,
        lowered_dictSetdefault (hchallenge hstatus), lowerName_challenge]
  · rcases requestId with _ | id
    · simp [hstatus]
    · simp [hstatus, lowered_dictSetdefault (hid (Option.some_ne_none id)), lowerName_requestId]

/-- The headers of a problem response are well formed exactly if the supplied fields are
spelled as the defaults, and none is there twice. -/
theorem wellFormed_problemJson :
    WellFormed (problemJson fw problem (some headers) requestId) headers requestId ↔
      (headers.map fun h => lowerName h.1).Nodup ∧
      (problem.status = 401 → SpelledAs headers (text "WWW-Authenticate")) ∧
      (requestId ≠ none → SpelledAs headers (text "X-Request-ID")) := by
  have honce : ((problemJson fw problem (some headers) requestId).headers.map Prod.fst).Nodup ↔
      _ := (nodup_encodedResponse _ _ _ _).trans nodup_allHeaders
  refine ⟨fun h => honce.mp h.once, fun h => ?_⟩
  obtain ⟨hdistinct, hchallenge, hid⟩ := h
  have hone : ∀ name, (values (lowered headers) name).length ≤ 1 :=
    values_of_nodup (by rw [names_lowered]; exact hdistinct)
  have hlowered := lowered_allHeaders hchallenge hid
  -- the supplied fields, the challenge and the request id, one after the other
  refine ⟨⟨problem, rfl, rfl⟩, honce.mpr ⟨hdistinct, hchallenge, hid⟩, fun item hitem => ?_,
    fun hstatus => ?_, fun hbound => ?_⟩
  · have hkept : item ∈ allHeaders problem (some headers) requestId := mem_allHeaders_of_mem hitem
    have hmem : (lowerName item.1, item.2) ∈
        lowered (allHeaders problem (some headers) requestId) := List.mem_map_of_mem hkept
    exact List.mem_append_left _ (List.mem_append_left _ hmem)
  · change problem.status = 401 at hstatus
    rw [values_problemJson (by decide), hlowered]
    rcases requestId with _ | id
    · rw [if_pos hstatus]
      exact values_setdefault_once (hone _) _
    · rw [if_pos hstatus]
      exact (values_setdefault_of_ne (by decide)).trans (values_setdefault_once (hone _) _)
  · obtain ⟨id, rfl⟩ := Option.ne_none_iff_exists'.mp hbound
    rw [values_problemJson (by decide), hlowered]
    have hchallenged : values (if problem.status = 401 then
        setdefault (lowered headers) (text "www-authenticate") (text "Bearer")
        else lowered headers) requestIdHeader = values (lowered headers) requestIdHeader := by
      split
      · exact values_setdefault_of_ne (by decide)
      · rfl
    have hvalues := values_setdefault_once (hchallenged ▸ hone requestIdHeader) id
    exact congrArg List.length hvalues

end problem

/-! ### Every exception -/

/-- A challenge is spelled as the default if the exception that brings it spells it so. -/
theorem challenge_iff (scope : Scope) {exc : Exc} (hencodable : exc.encodable = true) :
    ((problemOf fw scope exc).1.status = 401 →
        SpelledAs exc.supplied (text "WWW-Authenticate")) ↔
      ∀ detail headers, exc = .http 401 detail (some headers) →
        SpelledAs headers (text "WWW-Authenticate") := by
  -- nothing is supplied but by an `HTTPException`
  have hnone : SpelledAs [] (text "WWW-Authenticate") := fun item hitem => by cases hitem
  rcases exc with ⟨cls, bases, message⟩ | issues | ⟨status, _ | detail, _ | headers⟩ | name
  case http.none.none => cases hencodable
  case http.none.some => cases hencodable
  case http.some.some =>
    refine ⟨fun hspelled detail' headers' heq => ?_, fun hspelled hstatus => ?_⟩
    · cases heq
      exact hspelled rfl
    · exact hspelled (some detail) headers (congrArg (Exc.http · _ _) hstatus)
  all_goals exact ⟨fun _ _ _ heq => (nomatch heq), fun _ _ => hnone⟩

/-- The headers of its response are those it brings along, and the defaults. -/
theorem problemJson_supplied {scope : Scope} {exc : Exc} (hencodable : exc.encodable = true)
    (requestId : Option Str) :
    problemJson fw (problemOf fw scope exc).1 (problemOf fw scope exc).2 requestId =
      problemJson fw (problemOf fw scope exc).1 (some exc.supplied) requestId := by
  rcases exc with ⟨cls, bases, message⟩ | issues | ⟨status, _ | detail, _ | headers⟩ | name
  case http.none.none => cases hencodable
  case http.none.some => cases hencodable
  all_goals rfl

/-- **What a handler answers**: the problem of its exception, with the headers that came
along, if all of that can be encoded. -/
theorem serve_registered {scope : Scope} {exc : Exc} {w : World σ} (hid : w.Stampable) :
    if exc.encodable then
      (serve recv (registered fw exc scope exc) w).1 =
        .ok (problemJson fw (problemOf fw scope exc).1 (some exc.supplied) w.requestId)
    else ∃ exc', (serve recv (registered fw exc scope exc) w).1 = .error exc' := by
  rcases hlookup : exceptionHandler fw exc with _ | handler
  · -- the handler for `Exception`
    cases exc with
    | other name => exact congrArg Prod.fst (serve_unhandledExceptionHandler scope _ hid)
    | _ => cases hlookup
  · have hans : exc.answerable = exc.encodable := by
      cases exc with
      | other name => cases hlookup
      | _ => rfl
    have hregistered : registered fw exc = handler := by
      rw [registered, hlookup, Option.getD_some]
    obtain ⟨w', -, hserve⟩ := @serve_exceptionHandler fw σ recv scope exc handler hlookup w hid
    rw [hans] at hserve
    rw [hregistered]
    cases hencodable : exc.encodable with
    | true =>
      rw [hencodable, if_pos rfl] at hserve
      rw [if_pos rfl, hserve, problemJson_supplied hencodable]
    | false =>
      rw [hencodable] at hserve
      obtain ⟨exc', hraised⟩ := hserve
      exact ⟨exc', congrArg Prod.fst hraised⟩

/-- The exception is answered by its handler, with well-formed headers. -/
def AnsweredWell (fw : Framework) (recv : Receive σ) (scope : Scope) (exc : Exc) (w : World σ) :
    Prop :=
  ∃ response, (serve recv (registered fw exc scope exc) w).1 = .ok response ∧
    WellFormed response exc.supplied w.requestId

/-- **The exceptions that are answered with a well-formed response** are those that can be
encoded and whose headers are spelled as the handlers spell them. -/
theorem wellFormed_iff {scope : Scope} {exc : Exc} {w : World σ} (hid : w.Stampable) :
    AnsweredWell fw recv scope exc w ↔ exc.encodable = true ∧ exc.Spelled w.requestId := by
  have hserve := @serve_registered fw σ recv scope exc w hid
  cases hencodable : exc.encodable with
  | false =>
    rw [hencodable] at hserve
    obtain ⟨exc', hraised⟩ := hserve
    refine ⟨fun ⟨response, hok, _⟩ => ?_, fun h => ?_⟩
    · cases hok.symm.trans hraised
    · cases h.1
  | true =>
    rw [hencodable, if_pos rfl] at hserve
    have hwell := @wellFormed_problemJson fw (problemOf fw scope exc).1 exc.supplied w.requestId
    rw [challenge_iff scope hencodable] at hwell
    refine ⟨fun ⟨response, hok, hformed⟩ => ⟨rfl, ?_⟩, fun ⟨_, hspelled⟩ => ?_⟩
    · obtain rfl := Except.ok.inj (hok.symm.trans hserve)
      obtain ⟨hdistinct, hchallenge, hbound⟩ := hwell.mp hformed
      exact ⟨hdistinct, hchallenge, hbound⟩
    · exact ⟨_, hserve, hwell.mpr ⟨hspelled.distinct, hspelled.challenge, hspelled.id⟩⟩

/-- A 401 that asks for other credentials than the default. -/
def basicChallenge (name : Str) : Exc :=
  .http 401 (some (text "Unauthorized")) (some [(name, text "Basic")])

/-- The world in which an exception is handled: the request has the id `trace-42`. -/
def traced (uuid : ℕ → UUID) : World (List Message) :=
  (⟨[], [], none, none, [], uuid⟩ : World (List Message)).bound
    ⟨text "GET", "/", [(requestIdHeader, text "trace-42")]⟩

/-- The response of the registered handler to an exception. -/
def handledResponse (uuid : ℕ → UUID) (exc : Exc) : Except Exc Response :=
  (serve client (registered plainFramework exc ⟨text "GET", "/", []⟩ exc) (traced uuid)).1

/-- The challenge of an exception that spells it as the code does is the only one. -/
theorem wellFormed_basicChallenge :
    AnsweredWell plainFramework client ⟨text "GET", "/", []⟩
      (basicChallenge (text "WWW-Authenticate")) (traced fun _ => ⟨0⟩) := by
  refine (wellFormed_iff stampable_bound).mpr ⟨by decide, List.nodup_singleton _, ?_,
    fun _ => by decide⟩
  intro detail headers heq
  cases heq
  decide

/-- **In lower case it is not**: the response has two challenges. -/
theorem two_challenges : ∃ response,
    handledResponse (fun _ => ⟨0⟩) (basicChallenge (text "www-authenticate")) = .ok response ∧
      response.status = 401 ∧
      values response.headers (text "www-authenticate") = [text "Basic", text "Bearer"] ∧
      ¬ WellFormed response [(text "www-authenticate", text "Basic")] (some (text "trace-42")) := by
  refine ⟨_, rfl, rfl, by decide, fun h => ?_⟩
  exact absurd h.once (by decide)

end FastapiStarter.Web
