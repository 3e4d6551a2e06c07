import Claimward.Auth.Verifier

/-!
# The two domain matchers

The allowlist of the OIDC verifier and the domain rule of a tenant both compare
a trimmed entry with what follows the last `@` of an address, without regard to
case. `domainAllowed` puts the domain in lower case first. That changes how it
folds only for `İ`, and only where the domain has no white space at its ends:
a domain with white space there matches no trimmed entry in either way.
-/

namespace Claimward

open GoText

/-- The tenant with no rules but these domains. -/
def Tenant.onlyDomains (t : Tenant) (domains : List String) : Tenant :=
  { t with domains := domains, groups := [], idps := [] }

/-- Somebody with no attribute but a verified address. -/
def Member.onlyEmail (email : String) : Member := ⟨email, true, [], ""⟩

theorem Tenant.has_onlyDomains [CaseTables] (t : Tenant) (domains : List String)
    (email : String) :
    (t.onlyDomains domains).has (Member.onlyEmail email) =
      (afterLast '@' email).elim false fun domain =>
        domains.any fun d => equalFold (trimSpace d) domain := by
  simp only [has, hasDomain, onlyDomains, Member.onlyEmail]
  cases afterLast '@' email <;> simp

namespace Auth

theorem domainAllowed_eq [CaseTables] (email : String) (allowed : List String) :
    domainAllowed email allowed =
      (afterLast '@' email).elim false fun domain =>
        allowed.any fun d => equalFold (trimSpace d) (toLower domain) := by
  rw [domainAllowed]
  cases afterLast '@' email <;> rfl

/-- The allowlist and the domain rule of a tenant give the same answer for an
address and every list of domains if and only if its domain has no `İ` or has
white space at an end. -/
theorem domain_matchers_agree_iff [GoTables] (email : String) :
    (∀ (t : Tenant) (domains : List String),
      domainAllowed email domains = (t.onlyDomains domains).has (Member.onlyEmail email)) ↔
      ∀ domain, afterLast '@' email = some domain → dottedI ∈ domain.toList →
        trimSpace domain ≠ domain := by
  simp only [Tenant.has_onlyDomains, domainAllowed_eq]
  cases afterLast '@' email with
  | none => simp
  | some domain =>
      constructor
      · intro hagree _ hdomain hdotted htrim
        obtain rfl := Option.some.inj hdomain
        -- the domain itself as the only entry
        have hself := hagree ⟨"", "", [], [], [], [], [], 0⟩ [domain]
        have hsame : equalFold domain domain = true := decide_eq_true rfl
        simp [htrim, equalFold_toLower_self hdotted, hsame] at hself
      · intro hcond t domains
        refine List.any_congr rfl fun entry => ?_
        by_cases hdotted : dottedI ∈ domain.toList
        · obtain ⟨hlower, hplain⟩ := equalFold_untrimmed (hcond _ rfl hdotted) entry
          rw [hlower, hplain]
        · exact equalFold_toLower hdotted

/-- Whatever else the tables say: the allowlist `i` lets the domain `İ` in, and a
tenant with that domain does not have its members. -/
theorem matchers_split [GoTables] (t : Tenant) :
    domainAllowed "a@İ" ["i"] = true ∧
      (t.onlyDomains ["i"]).has (Member.onlyEmail "a@İ") = false := by
  have hdomain : afterLast '@' "a@İ" = some "İ" := by decide +kernel
  have hentry : trimSpace "i" = "i" := by decide +kernel
  have hlower : toLower "İ" = "i" := by
    have htable : (CaseTables.toLower dottedI) = 'i' := GoTables.toLower_dottedI
    have hchars : "İ".toList = [dottedI] := by decide +kernel
    rw [toLower, hchars, List.map_singleton, htable]
  have hne : equalFold "i" "İ" = false := by
    have hself : equalFold "İ" (toLower "İ") = false :=
      equalFold_toLower_self (by decide +kernel)
    rw [hlower] at hself
    rw [equalFold, decide_eq_false_iff_not] at hself ⊢
    exact fun h => hself h.symm
  have heq : equalFold "i" "i" = true := decide_eq_true rfl
  rw [Tenant.has_onlyDomains, domainAllowed_eq, hdomain]
  simp [hentry, hlower, hne, heq]

theorem dotted_domain_allowed_only :
    let _ : GoTables := asciiTables
    let t : Tenant := ⟨"univ", "University", [], [], [], [], [], 1⟩
    domainAllowed "a@İ" ["i"] = true ∧
      (t.onlyDomains ["i"]).has (Member.onlyEmail "a@İ") = false := by
  intro _ t
  exact matchers_split t

theorem plain_domain_matchers_agree :
    let _ : GoTables := asciiTables
    let t : Tenant := ⟨"univ", "University", [], [], [], [], [], 1⟩
    domainAllowed "a@Univ.Example" ["univ.example"] = true ∧
      (t.onlyDomains ["univ.example"]).has (Member.onlyEmail "a@Univ.Example") = true := by
  intro _ t
  have hagree := (domain_matchers_agree_iff "a@Univ.Example").mpr (by
    intro domain hdomain hdotted
    obtain rfl : domain = "Univ.Example" :=
      Option.some.inj (hdomain.symm.trans (by decide +kernel))
    exact absurd hdotted (by decide +kernel))
  have hallowed : domainAllowed "a@Univ.Example" ["univ.example"] = true := by decide +kernel
  exact ⟨hallowed, (hagree t ["univ.example"]).symm.trans hallowed⟩

end Auth

end Claimward
