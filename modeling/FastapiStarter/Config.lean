import FastapiStarter.Tokens
import FastapiStarter.Lib.Encoding

/-!
# Settings

The settings the web application is built from, and the guard that refuses an
unsafe production configuration.

## Main definitions

* `Settings` — the settings, with their defaults.
* `Settings.rejectUnsafeProductionConfig` — the guard.

## Main results

* `Settings.accepted_of_not_production` — outside production everything is accepted.
* `Settings.safe_of_accepted` — what a production configuration that is accepted
  has not got.
-/

namespace FastapiStarter

open Encoding

/-- A string literal. -/
def text (s : String) : Str := lit s.toList

@[simp] theorem encodable_text (s : String) : (text s).encodable = true := Str.encodable_lit _

/-- `Environment`. -/
inductive Environment
  | «local»
  | test
  | staging
  | production
  deriving DecidableEq

/-- `AppSettings`. -/
structure AppSettings where
  debug : Bool := false
  corsOrigins : List Str := []
  allowedHosts : List Str := [text "*"]
  maxRequestBodyBytes : ℤ := 1048576

/-- The defaults of `JwtSettings`. -/
def defaultJwtSettings : JwtSettings where
  secret := text "change-me-in-production"
  issuer := text "fastapi-starter"
  audience := text "fastapi-starter"

/-- `Settings`. -/
structure Settings where
  environment : Environment := .local
  app : AppSettings := {}
  jwt : JwtSettings := defaultJwtSettings

/-- What makes a production configuration unsafe. -/
inductive UnsafeSetting
  | defaultSecret
  | shortSecret
  /-- `secret.encode()` raises. -/
  | unencodableSecret
  | debug
  | wildcardCors
  | wildcardHosts
  deriving DecidableEq

namespace Settings

/-- `is_production`. -/
def isProduction (s : Settings) : Bool := s.environment == .production

/-- The problems of the secret. -/
def secretProblems (secret : Str) : List UnsafeSetting :=
  if secret = text "change-me-in-production" then [.defaultSecret]
  else
    match Utf8.encode secret with
    | none => [.unencodableSecret]
    | some bytes => if bytes.length < 32 then [.shortSecret] else []

/-- The problems of a configuration, in the order in which they are reported. -/
def problems (s : Settings) : List UnsafeSetting :=
  secretProblems s.jwt.secret ++
    (if s.app.debug then [.debug] else []) ++
    (if text "*" ∈ s.app.corsOrigins then [.wildcardCors] else []) ++
    (if text "*" ∈ s.app.allowedHosts then [.wildcardHosts] else [])

/-- `_reject_unsafe_production_config`. -/
def rejectUnsafeProductionConfig (s : Settings) : Except (List UnsafeSetting) Settings :=
  if s.isProduction then
    if s.problems = [] then .ok s else .error s.problems
  else .ok s

/-- The settings are accepted. -/
def Accepted (s : Settings) : Prop := s.rejectUnsafeProductionConfig = .ok s

variable {s : Settings}

theorem accepted_of_not_production (h : s.isProduction = false) : s.Accepted := by
  unfold Accepted rejectUnsafeProductionConfig
  rw [h]
  rfl

theorem accepted_of_problems (h : s.problems = []) : s.Accepted := by
  unfold Accepted rejectUnsafeProductionConfig
  rw [if_pos h]
  exact ite_self _

/-- An accepted production configuration has no problem. -/
theorem problems_of_accepted (h : s.Accepted) (hprod : s.isProduction = true) :
    s.problems = [] := by
  unfold Accepted rejectUnsafeProductionConfig at h
  rw [hprod, if_pos rfl] at h
  by_contra hne
  rw [if_neg hne] at h
  cases h

/-- **A production configuration that is accepted** has neither debug mode nor wildcards. -/
theorem safe_of_accepted (h : s.Accepted) (hprod : s.isProduction = true) :
    s.app.debug = false ∧ text "*" ∉ s.app.corsOrigins ∧ text "*" ∉ s.app.allowedHosts := by
  have hnone := problems_of_accepted h hprod
  unfold problems at hnone
  refine ⟨?_, ?_, ?_⟩
  · by_contra hdebug
    simp [hdebug] at hnone
  · intro hcors
    simp [hcors] at hnone
  · intro hhosts
    simp [hhosts] at hnone

end Settings

end FastapiStarter
