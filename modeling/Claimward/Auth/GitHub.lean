import Claimward.Auth.Verifier
import Claimward.Tenant.Membership

/-!
# The GitHub verifier

`GitHubVerifier.Verify` asks the GitHub API who the token belongs to and takes
the organisations it lists for the groups of the person. The list comes in
pages. The verifier asks for it once, without page parameters, and does not
follow the link to the next page.
-/

namespace Claimward

open GoText

/-- The tenant has one of the organisations among its groups. -/
def Tenant.NamesOneOf (t : Tenant) (orgs : List String) : Prop :=
  ∃ group ∈ t.groups, trimSpace group ≠ "" ∧ trimSpace group ∈ orgs

theorem Tenant.NamesOneOf.has [CaseTables] {t : Tenant} {m : Member}
    (h : t.NamesOneOf m.groups) : t.has m = true := by
  obtain ⟨group, hgroup, hne, hmem⟩ := h
  have hany : (t.groups.any fun g => m.groups.any fun mg =>
      trimSpace g ≠ "" && trimSpace g = mg) = true := by
    rw [List.any_eq_true]
    refine ⟨group, hgroup, ?_⟩
    rw [List.any_eq_true]
    exact ⟨trimSpace group, hmem, by simp [hne]⟩
  rw [Tenant.has, hany, Bool.or_true, Bool.true_or]

namespace Auth

/-- What comes back from a request: it fails, or there is a status and a body,
which decodes into what is asked for or does not. -/
inductive Reply (α : Type) where
  | failed (err : String)
  | answered (status : ℕ) (body : Except String α)

structure GitHubUser where
  id : Int64
  login : String
  email : String

/-- The GitHub API, by token: who it belongs to, the organisations that are held
for it, the answer to `/user/orgs` without page parameters, and the state of the
membership in one organisation. -/
structure GitHub where
  user : String → Reply GitHubUser
  held : String → List String
  orgs : String → Reply (List String)
  membership : String → String → Reply String

/-- The service answers with this many organisations at a time. -/
def pageSize : ℕ := 30

/-- A list that comes without page parameters is the first page of those held. -/
def GitHub.Paged (g : GitHub) : Prop :=
  ∀ token status page, g.orgs token = .answered status (.ok page) →
    page = (g.held token).take pageSize

inductive GitHubRefusal where
  | invalidToken (err : String)
  | emptyIdentity
  | listingOrganisations (err : String)
  | notInAllowedOrg (login : String)

structure GitHubVerifier where
  allowedOrgs : List String

def get {α : Type} (path : String) : Reply α → Except String α
  | .failed err => .error err
  | .answered status body =>
      if status / 100 ≠ 2 then .error ("github API " ++ path ++ " -> " ++ toString status)
      else body

/-- Whether the user is an active member of an allowed organisation. -/
def GitHubVerifier.inAllowedOrg (v : GitHubVerifier) (g : GitHub) (token : String) : Bool :=
  v.allowedOrgs.any fun org =>
    let org := trimSpace org
    org ≠ "" && match get ("/user/memberships/orgs/" ++ org) (g.membership token org) with
      | .ok state => state = "active"
      | .error _ => false

def GitHubVerifier.verify (v : GitHubVerifier) (g : GitHub) (token : String) :
    Except GitHubRefusal Claims :=
  match get "/user" (g.user token) with
  | .error err => .error (.invalidToken err)
  | .ok user =>
      if user.id = 0 ∨ user.login = "" then .error .emptyIdentity
      else match get "/user/orgs" (g.orgs token) with
        | .error err => .error (.listingOrganisations err)
        | .ok orgs =>
            if v.allowedOrgs ≠ [] ∧ v.inAllowedOrg g token = false then
              .error (.notInAllowedOrg user.login)
            else .ok
              { subject := "github:" ++ toString user.id.toInt, email := user.email,
                emailVerified := user.email ≠ "", login := user.login, groups := orgs, idp := "" }

theorem get_eq_ok {α : Type} {path : String} {r : Reply α} {a : α} (h : get path r = .ok a) :
    ∃ status, r = .answered status (.ok a) := by
  cases r with
  | failed err => exact absurd h (by simp [get])
  | answered status body =>
      simp only [get] at h
      split at h
      · exact absurd h (by simp)
      · exact ⟨status, by rw [h]⟩

/-- The groups of an accepted token are the organisations in the answer. -/
theorem orgs_of_verify {v : GitHubVerifier} {g : GitHub} {token : String} {c : Claims}
    (h : v.verify g token = .ok c) : ∃ status, g.orgs token = .answered status (.ok c.groups) := by
  unfold GitHubVerifier.verify at h
  split at h
  · exact absurd h (by simp)
  · split at h
    · exact absurd h (by simp)
    · split at h
      · exact absurd h (by simp)
      · rename_i orgs horgs
        split at h
        · exact absurd h (by simp)
        · obtain rfl := Except.ok.inj h
          exact get_eq_ok horgs

/-- Of a service that answers in pages: the groups of an accepted token are all
the organisations held for it if and only if there are no more than a page of
them. The tenants that name one of them are then among those of the person; the
person's tenants are those they match, and the default tenant alone only if they
match none. -/
theorem organisations_are_groups_iff [CaseTables] {v : GitHubVerifier} {g : GitHub}
    (hpaged : g.Paged) {token : String} {c : Claims} (hverify : v.verify g token = .ok c) :
    (c.groups = g.held token ↔ (g.held token).length ≤ 30) ∧
      ((g.held token).length ≤ 30 → ∀ s : TenantStore,
        (∀ t ∈ Table.values s.tenants, t.NamesOneOf (g.held token) →
          ∃ ts, s.for c.tenancy = some ts ∧ t ∈ ts) ∧
        ((∃ t ∈ Table.values s.tenants, t.has c.tenancy = true) → ∃ ts,
          s.for c.tenancy = some ts ∧
            ∀ t, t ∈ ts ↔ t ∈ Table.values s.tenants ∧ t.has c.tenancy = true) ∧
        ((∀ t ∈ Table.values s.tenants, t.has c.tenancy = false) →
          s.for c.tenancy = (s.tenants.lookup defaultID).map fun t => [t])) := by
  obtain ⟨status, hanswer⟩ := orgs_of_verify hverify
  have hgroups : c.groups = (g.held token).take pageSize := hpaged token status c.groups hanswer
  refine ⟨?_, fun hle s => ⟨?_, ?_, ?_⟩⟩
  · rw [hgroups, List.take_eq_self_iff]
    rfl
  · intro t ht hnames
    have hall : c.tenancy.groups = g.held token := hgroups.trans (List.take_of_length_le hle)
    have hhas : t.has c.tenancy = true := (hall ▸ hnames : t.NamesOneOf c.tenancy.groups).has
    obtain ⟨ts, hts, hmem⟩ := TenantStore.for_of_match ⟨t, ht, hhas⟩
    exact ⟨ts, hts, (hmem t).mpr ⟨ht, hhas⟩⟩
  · exact TenantStore.for_of_match
  · exact TenantStore.for_of_no_match

attribute [local instance] GoText.asciiTables

namespace Sample

/-- An account in this many organisations, and the API that holds it. -/
def organisations (n : ℕ) : List String := (List.range n).map fun i => "org" ++ toString i

def github (n : ℕ) : GitHub where
  user _ := .answered 200 (.ok ⟨42, "carol", ""⟩)
  held _ := organisations n
  orgs _ := .answered 200 (.ok ((organisations n).take pageSize))
  membership _ _ := .answered 404 (.error "not found")

theorem paged_github (n : ℕ) : (github n).Paged := by
  rintro token status page h
  exact (Except.ok.inj (Reply.answered.inj h).2).symm

/-- A tenant for the members of the last of 31 organisations. -/
def lab : Tenant := ⟨"lab", "Lab", [], ["org30"], [], [], [], 1⟩

def store : TenantStore := ((TenantStore.new [] []).create lab).2

end Sample

/-- Somebody in 31 organisations does not belong to the tenant of the last one,
and is put in the default tenant instead. -/
theorem last_organisation_lost :
    let g := Sample.github 31
    g.Paged ∧ ∃ c, (⟨[]⟩ : GitHubVerifier).verify g "token" = .ok c ∧
      "org30" ∈ g.held "token" ∧ "org30" ∉ c.groups ∧
      Sample.store.tenants.lookup "lab" = some Sample.lab ∧
      Sample.lab.NamesOneOf (g.held "token") ∧
      (Sample.store.for c.tenancy).map (·.map Tenant.id) = some [defaultID] := by
  intro g
  refine ⟨Sample.paged_github 31, _, rfl, by decide +kernel, by decide +kernel, by decide +kernel,
    ⟨"org30", by decide +kernel, by decide +kernel, by decide +kernel⟩, by decide +kernel⟩

theorem few_organisations_kept :
    ∃ c, (⟨[]⟩ : GitHubVerifier).verify (Sample.github 2) "token" = .ok c ∧
      c.groups = Sample.organisations 2 := by
  have hverify : (⟨[]⟩ : GitHubVerifier).verify (Sample.github 2) "token" = .ok _ := rfl
  refine ⟨_, hverify, ?_⟩
  exact (organisations_are_groups_iff (Sample.paged_github 2) hverify).1.mpr (by decide +kernel)

end Auth

end Claimward
