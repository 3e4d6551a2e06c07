import Claimward.Api.Calls

/-!
# The OIDC verifier

`internal/auth`: `OIDCVerifier.Verify` turns a token into claims. What go-oidc
checks of a token (signature, audience, expiry) is a parameter of the verifier.
The rest is done here: the claims are decoded from JSON, and the domain of the
address is looked up in the allowlist, if there is one.

The tenant store does not look at an address that the provider has not verified.
The allowlist does.
-/

namespace Claimward.Auth

open GoText AtomicProgram
open Api (Server Oracle)

/-- A JSON value; `other` is a number or an object. -/
inductive Value where
  | null
  | bool (b : Bool)
  | string (s : String)
  | list (xs : List Value)
  | other

/-- A token: the claims that the verifier reads, those left out being `none`, and
what only go-oidc looks at. -/
structure Token where
  subject : String
  email : Option Value
  emailVerified : Option Value
  preferredUsername : Option Value
  groups : Option Value
  rest : String

/-- The same token with another address. -/
def Token.withEmail (t : Token) (email : String) : Token := { t with email := some (.string email) }

/-- The claims, normalized across providers. -/
structure Claims extends Api.Claims where
  login : String

/-- What the claims of a token are decoded into. -/
structure RawClaims where
  email : String
  emailVerified : Bool
  preferredUsername : String
  groups : Option Value

/-- A claim that is decoded into a string: left out or null it is empty, and of
another type it is an error. -/
def decodeString : Option Value → Option String
  | none => some ""
  | some .null => some ""
  | some (.string s) => some s
  | some _ => none

def decodeBool : Option Value → Option Bool
  | none => some false
  | some .null => some false
  | some (.bool b) => some b
  | some _ => none

def decodeClaims (t : Token) : Option RawClaims := do
  let email ← decodeString t.email
  let emailVerified ← decodeBool t.emailVerified
  let preferredUsername ← decodeString t.preferredUsername
  return ⟨email, emailVerified, preferredUsername, t.groups⟩

/-- A claim that is a list of strings or, as some providers send a single group,
one string. -/
def stringList : Option Value → List String
  | some (.string s) => if s ≠ "" then [s] else []
  | some (.list xs) => xs.filterMap fun x => match x with
      | .string s => if s ≠ "" then some s else none
      | _ => none
  | _ => []

/-- Why a token is refused. -/
inductive Refusal where
  | invalidToken (err : String)
  | decodeClaims
  | domainNotAllowed (email : String)

structure OIDCVerifier where
  check : Token → Except String Unit
  allowedDomains : List String

/-- The claims of a token whose address is not verified. -/
def unverifiedClaims (t : Token) (email login : String) : Claims :=
  { subject := t.subject, email := email, emailVerified := false, login := login,
    groups := stringList t.groups, idp := "" }

theorem agreesUnverified_claims (t : Token) (e e' login login' : String) :
    (unverifiedClaims t e login).tenancy.AgreesUnverified
      (unverifiedClaims t e' login').tenancy :=
  ⟨rfl, rfl, rfl, rfl⟩

theorem decodeClaims_withEmail {t : Token} (e : String)
    (hunverified : decodeBool t.emailVerified = some false) :
    decodeClaims (t.withEmail e) =
      (decodeString t.preferredUsername).map fun login => ⟨e, false, login, t.groups⟩ := by
  have hemail : decodeString (some (.string e)) = some e := rfl
  simp only [decodeClaims, Token.withEmail, hemail, hunverified]
  cases decodeString t.preferredUsername with
  | none => rfl
  | some login => rfl

section Verify

variable [CaseTables]

def domainAllowed (email : String) (allowed : List String) : Bool :=
  match afterLast '@' email with
  | none => false
  | some domain => allowed.any fun d => equalFold (trimSpace d) (toLower domain)

def OIDCVerifier.verify (v : OIDCVerifier) (t : Token) : Except Refusal Claims :=
  match v.check t with
  | .error err => .error (.invalidToken err)
  | .ok () =>
      match decodeClaims t with
      | none => .error .decodeClaims
      | some raw =>
          let claims : Claims :=
            { subject := t.subject, email := raw.email, emailVerified := raw.emailVerified,
              login := raw.preferredUsername, groups := stringList raw.groups, idp := "" }
          if v.allowedDomains ≠ [] ∧ domainAllowed claims.email v.allowedDomains = false then
            .error (.domainNotAllowed claims.email)
          else .ok claims

/-- The verifier accepts both tokens or refuses both, and where it accepts them
the tenant store and `chooseTenant` decide the same for both. -/
structure SameAuthority (v : OIDCVerifier) (server : Server) (t t' : Token) : Prop where
  accepted : (∃ c, v.verify t = .ok c) ↔ ∃ c, v.verify t' = .ok c
  decided : ∀ c c', v.verify t = .ok c → v.verify t' = .ok c' →
    server.tenants.for c.tenancy = server.tenants.for c'.tenancy ∧
    (∀ id, server.tenants.isMember id c.tenancy = server.tenants.isMember id c'.tenancy) ∧
    ∀ asked ω, (Api.chooseTenant asked c.toClaims).run Api.exec ω server =
      (Api.chooseTenant asked c'.toClaims).run Api.exec ω server

/-- The checks of go-oidc do not look at the address. -/
def OIDCVerifier.ChecksIgnoreEmail (v : OIDCVerifier) : Prop :=
  ∀ (t : Token) (e e' : String),
    (∃ u, v.check (t.withEmail e) = .ok u) ↔ ∃ u, v.check (t.withEmail e') = .ok u

variable {v : OIDCVerifier} {t : Token} {e e' : String}

/-- When a token whose address is not verified is accepted, and with which claims. -/
theorem verify_withEmail_eq_ok (hunverified : decodeBool t.emailVerified = some false)
    {c : Claims} : v.verify (t.withEmail e) = .ok c ↔
      (∃ u, v.check (t.withEmail e) = .ok u) ∧
      ∃ login, decodeString t.preferredUsername = some login ∧
        (v.allowedDomains = [] ∨ domainAllowed e v.allowedDomains = true) ∧
        unverifiedClaims t e login = c := by
  have hraw := decodeClaims_withEmail e hunverified
  cases hcheck : v.check (t.withEmail e) with
  | error err => simp [OIDCVerifier.verify, hcheck]
  | ok u =>
      cases hlogin : decodeString t.preferredUsername with
      | none => simp [OIDCVerifier.verify, hcheck, hraw, hlogin]
      | some login =>
          have hverify : v.verify (t.withEmail e) =
              if v.allowedDomains ≠ [] ∧ domainAllowed e v.allowedDomains = false then
                .error (.domainNotAllowed e)
              else .ok (unverifiedClaims t e login) := by
            simp only [OIDCVerifier.verify, hcheck, hraw, hlogin, Option.map_some]
            rfl
          rw [hverify]
          by_cases hallowed : v.allowedDomains = [] ∨ domainAllowed e v.allowedDomains = true
          · have hnot : ¬ (v.allowedDomains ≠ [] ∧ domainAllowed e v.allowedDomains = false) := by
              rintro ⟨hsome, hfalse⟩
              rcases hallowed with hnone | htrue
              · exact hsome hnone
              · exact absurd (hfalse.symm.trans htrue) (by simp)
            simp [hnot, hallowed]
          · have hrefused : v.allowedDomains ≠ [] ∧ domainAllowed e v.allowedDomains = false := by
              simpa using hallowed
            simp [hrefused]

theorem exists_verify_withEmail_iff (hunverified : decodeBool t.emailVerified = some false) :
    (∃ c, v.verify (t.withEmail e) = .ok c) ↔
      (∃ u, v.check (t.withEmail e) = .ok u) ∧
      (∃ login, decodeString t.preferredUsername = some login) ∧
      (v.allowedDomains = [] ∨ domainAllowed e v.allowedDomains = true) := by
  constructor
  · rintro ⟨c, hc⟩
    obtain ⟨hcheck, login, hlogin, hallowed, -⟩ := (verify_withEmail_eq_ok hunverified).mp hc
    exact ⟨hcheck, ⟨login, hlogin⟩, hallowed⟩
  · rintro ⟨hcheck, ⟨login, hlogin⟩, hallowed⟩
    exact ⟨_, (verify_withEmail_eq_ok hunverified).mpr ⟨hcheck, login, hlogin, hallowed, rfl⟩⟩

/-- Two members whom the tenant store takes for the same are offered the same
tenants. -/
theorem run_chooseTenant_eq {c c' : Claims} (h : c.tenancy.AgreesUnverified c'.tenancy)
    (asked : String) (ω : Oracle) (server : Server) :
    (Api.chooseTenant asked c.toClaims).run Api.exec ω server =
      (Api.chooseTenant asked c'.toClaims).run Api.exec ω server := by
  change (Api.pickTenant asked (server.tenants.for c.tenancy), ω, server) =
    (Api.pickTenant asked (server.tenants.for c'.tenancy), ω, server)
  rw [h.for server.tenants]

/-- An address that the provider has not verified carries authority through the
allowlist only: two tokens that differ in it are treated alike if and only if,
where go-oidc takes them and they can be decoded, there is no allowlist or it
gives the same answer for both addresses. -/
theorem unverified_email_ignored_iff (hignores : v.ChecksIgnoreEmail)
    (hunverified : decodeBool t.emailVerified = some false) (server : Server) :
    SameAuthority v server (t.withEmail e) (t.withEmail e') ↔
      ((∃ u, v.check (t.withEmail e) = .ok u) →
        (∃ login, decodeString t.preferredUsername = some login) →
        v.allowedDomains = [] ∨
          domainAllowed e v.allowedDomains = domainAllowed e' v.allowedDomains) := by
  constructor
  · rintro ⟨haccepted, -⟩ hcheck hlogin
    by_contra hdiffer
    obtain ⟨hsome, hne⟩ := not_or.mp hdiffer
    rw [exists_verify_withEmail_iff hunverified, exists_verify_withEmail_iff hunverified,
      hignores t e' e] at haccepted
    simp only [hcheck, hlogin, hsome, true_and, false_or] at haccepted
    exact hne (Bool.eq_iff_iff.mpr haccepted)
  · intro hsame
    refine ⟨?_, ?_⟩
    · rw [exists_verify_withEmail_iff hunverified, exists_verify_withEmail_iff hunverified,
        hignores t e' e]
      refine and_congr_right fun hcheck => and_congr_right fun hlogin => ?_
      rcases hsame hcheck hlogin with hnone | heq
      · simp only [hnone, true_or]
      · rw [heq]
    · intro c c' hc hc'
      obtain ⟨-, login, -, -, rfl⟩ := (verify_withEmail_eq_ok hunverified).mp hc
      obtain ⟨-, login', -, -, rfl⟩ := (verify_withEmail_eq_ok hunverified).mp hc'
      have hagree := agreesUnverified_claims t e e' login login'
      exact ⟨hagree.for _, hagree.isMember _,
        fun asked ω => run_chooseTenant_eq hagree asked ω server⟩

end Verify

namespace Sample

/-- go-oidc takes every token, and one domain is allowed. -/
def verifier : OIDCVerifier := ⟨fun _ => .ok (), ["univ.example"]⟩

/-- The provider has verified nothing. -/
def token : Token :=
  { subject := "eve", email := none, emailVerified := some (.bool false),
    preferredUsername := none, groups := none, rest := "" }

end Sample

attribute [local instance] GoText.asciiTables

theorem addresses_outside_refused_alike :
    SameAuthority Sample.verifier Api.Sample.start (Sample.token.withEmail "eve@elsewhere.org")
      (Sample.token.withEmail "eve@other.org") :=
  (unverified_email_ignored_iff (fun _ _ _ => Iff.rfl) rfl Api.Sample.start).mpr
    fun _ _ => Or.inr (by decide +kernel)

/-- Typing an address of the domain is enough to be let in. -/
theorem typed_domain_accepted :
    (∃ c, Sample.verifier.verify (Sample.token.withEmail "eve@univ.example") = .ok c) ∧
      Sample.verifier.verify (Sample.token.withEmail "eve@elsewhere.org") =
        .error (.domainNotAllowed "eve@elsewhere.org") := by
  refine ⟨⟨unverifiedClaims Sample.token "eve@univ.example" "", ?_⟩, ?_⟩
  · rfl
  · rfl

end Claimward.Auth
