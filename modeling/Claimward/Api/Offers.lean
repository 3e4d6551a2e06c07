import Claimward.Api.Handlers
import Claimward.Tenant.Membership
import Claimward.Tenant.Reachable

/-!
# The tenants somebody is offered

Membership is read in four places: by `For`, by `IsMember` at a heartbeat, by
`handleTenants` when a client asks what it may choose from, and by
`chooseTenant` at an enrollment. All of them go through `For`. What is said of
it in a store whose tenants are filed under their IDs carries over to the rest.
-/

namespace Claimward.Api

open AtomicProgram GoText Runs

structure TenantInfo where
  id : String
  name : String
  deriving DecidableEq, Repr

/-- The answer of `handleTenants`, or a panic. -/
inductive TenantsResponse where
  | listed (out : List TenantInfo)
  | aborted
  deriving DecidableEq, Repr

def tenantInfo (t : Tenant) : TenantInfo := ⟨t.id, t.name⟩

def listTenants : Option (List Tenant) → TenantsResponse
  | none => .aborted
  | some ts => .listed (ts.map tenantInfo)

def handleTenants (claims : Claims) : Handler TenantsResponse := do
  let ts ← perform (.tenantsFor claims.tenancy)
  return listTenants ts

theorem map_id_tenantInfo (ts : List Tenant) :
    (ts.map tenantInfo).map TenantInfo.id = ts.map Tenant.id := by
  rw [List.map_map]
  rfl

theorem any_id_eq (ts : List Tenant) (id : String) :
    (ts.any fun t => t.id = id) = decide (id ∈ ts.map Tenant.id) := by
  rw [Bool.eq_iff_iff]
  simp [List.mem_map]

/-- With an ID asked for, `chooseTenant` looks it up among the caller's tenants. -/
theorem pickTenant_eq_chosen {asked : String} (hasked : asked ≠ "") (ts : List Tenant)
    (id : String) :
    pickTenant asked (some ts) = .chosen id ↔ id = asked ∧ asked ∈ ts.map Tenant.id := by
  simp only [pickTenant, if_neg hasked, any_id_eq, decide_eq_true_eq]
  split
  · rename_i hmem
    simp only [TenantChoice.chosen.injEq, hmem, and_true]
    exact eq_comm
  · rename_i hmem
    simp [hmem]

/-- With none asked for, it takes the caller's only tenant. -/
theorem pickTenant_only (ts : List Tenant) (id : String) :
    pickTenant "" (some ts) = .chosen id ↔ ∃ t, ts = [t] ∧ id = t.id := by
  rcases ts with _ | ⟨t, _ | ⟨t', rest⟩⟩
  · simp [pickTenant]
  · simp [pickTenant, eq_comm]
  · simp [pickTenant]

section Readings

variable [CaseTables]

/-- What the caller is offered, when `For` is `ts` for them and `handleTenants`
answers with `out`. -/
structure Readings (s : TenantStore) (claims : Claims) (ts : List Tenant)
    (out : List TenantInfo) : Prop where
  walked : ∀ order sort, order.Perm (Table.values s.tenants) → SortsByID sort →
    s.forIn claims.tenancy order sort = some ts
  found : s.for claims.tenancy = some ts
  increasing : ts.Pairwise fun a b => a.id < b.id
  matching : (∃ t ∈ Table.values s.tenants, t.has claims.tenancy = true) →
    ∀ t, t ∈ ts ↔ t ∈ Table.values s.tenants ∧ t.has claims.tenancy = true
  fallback : (∀ t ∈ Table.values s.tenants, t.has claims.tenancy = false) →
    ∃ d, s.tenants.lookup defaultID = some d ∧ ts = [d]
  offered : ∀ (server : Server) ω, server.tenants = s →
    ((handleTenants claims).run exec ω server).1 = .listed out
  isMember : ∀ id, s.isMember id claims.tenancy = some (decide (id ∈ out.map TenantInfo.id))
  chosen : ∀ id, id ≠ "" → ∀ (server : Server) ω, server.tenants = s → ∀ id',
    ((chooseTenant id claims).run exec ω server).1 = .chosen id' ↔
      id' = id ∧ id ∈ out.map TenantInfo.id
  only : ∀ (server : Server) ω, server.tenants = s → ∀ id',
    ((chooseTenant "" claims).run exec ω server).1 = .chosen id' ↔
      ∃ info, out = [info] ∧ id' = info.id
  default : s.isMember defaultID claims.tenancy = some true ↔
    (∀ t ∈ Table.values s.tenants, t.has claims.tenancy = false) ∨
      ∃ d, s.tenants.lookup defaultID = some d ∧ d.has claims.tenancy = true

variable {s : TenantStore} {claims : Claims} {ts : List Tenant}

/-- In a store that is keyed by ID the default tenant is among somebody's
tenants when they match it, or match nothing. -/
theorem default_mem_iff (hkeyed : s.Keyed) (hdefault : s.HasDefault) {m : Member}
    (hfor : s.for m = some ts) :
    defaultID ∈ ts.map Tenant.id ↔
      (∀ t ∈ Table.values s.tenants, t.has m = false) ∨
        ∃ d, s.tenants.lookup defaultID = some d ∧ d.has m = true := by
  obtain ⟨d, hd⟩ := hdefault
  have hid := hkeyed _ _ hd
  by_cases hmatch : ∃ t ∈ Table.values s.tenants, t.has m = true
  · obtain ⟨ts', hts', hmem⟩ := TenantStore.for_of_match hmatch
    obtain rfl := Option.some.inj (hfor.symm.trans hts')
    have hsome : ¬ ∀ t ∈ Table.values s.tenants, t.has m = false := by
      obtain ⟨t, ht, hhas⟩ := hmatch
      intro hnone
      rw [hnone t ht] at hhas
      exact absurd hhas (by simp)
    simp only [hsome, false_or, List.mem_map, hmem]
    constructor
    · rintro ⟨t, ⟨ht, hhas⟩, heq⟩
      obtain ⟨id, hlookup⟩ := Table.mem_values.mp ht
      obtain rfl : id = defaultID := (hkeyed id t hlookup).symm.trans heq
      exact ⟨t, hlookup, hhas⟩
    · rintro ⟨t, hlookup, hhas⟩
      exact ⟨t, ⟨Table.mem_values.mpr ⟨_, hlookup⟩, hhas⟩, hkeyed _ _ hlookup⟩
  · have hnone : ∀ t ∈ Table.values s.tenants, t.has m = false := by
      intro t ht
      exact Bool.eq_false_iff.mpr fun hhas => hmatch ⟨t, ht, hhas⟩
    have halone := TenantStore.for_of_no_match hnone
    rw [hfor, hd, Option.map_some, Option.some.injEq] at halone
    rw [halone]
    simp only [List.map_singleton, List.mem_singleton, hid, true_iff]
    exact .inl hnone

/-- The four readings agree in a store that is keyed by ID and has its default
tenant. -/
theorem readings_of_for (hkeyed : s.Keyed) (hdefault : s.HasDefault)
    (hfor : s.for claims.tenancy = some ts) : Readings s claims ts (ts.map tenantInfo) where
  walked order sort horder hsort := (hkeyed.forIn_eq _ horder hsort).trans hfor
  found := hfor
  increasing := hkeyed.for_increasing hfor
  matching hmatch := by
    obtain ⟨ts', hts', hmem⟩ := TenantStore.for_of_match hmatch
    obtain rfl := Option.some.inj (hfor.symm.trans hts')
    exact hmem
  fallback hnone := by
    obtain ⟨d, hd⟩ := hdefault
    have halone := TenantStore.for_of_no_match hnone
    rw [hfor, hd, Option.map_some, Option.some.injEq] at halone
    exact ⟨d, hd, halone⟩
  offered server ω hserver := by
    change listTenants (server.tenants.for claims.tenancy) = _
    rw [hserver, hfor]
    rfl
  isMember id := by
    rw [TenantStore.isMember, hfor, map_id_tenantInfo, Option.map_some, any_id_eq]
  chosen id hid server ω hserver id' := by
    change pickTenant id (server.tenants.for claims.tenancy) = _ ↔ _
    rw [hserver, hfor, map_id_tenantInfo]
    exact pickTenant_eq_chosen hid ts id'
  only server ω hserver id' := by
    change pickTenant "" (server.tenants.for claims.tenancy) = _ ↔ _
    rw [hserver, hfor, pickTenant_only]
    simp only [List.map_eq_singleton_iff]
    constructor
    · rintro ⟨t, rfl, rfl⟩
      exact ⟨tenantInfo t, ⟨t, rfl, rfl⟩, rfl⟩
    · rintro ⟨_, ⟨t, rfl, rfl⟩, rfl⟩
      exact ⟨t, rfl, rfl⟩
  default := by
    rw [TenantStore.isMember, hfor, Option.map_some, any_id_eq, Option.some.injEq,
      decide_eq_true_eq]
    exact default_mem_iff hkeyed hdefault hfor

end Readings

/-- After every sequence of calls of the tenant store, for every caller: `For`
is the tenants they match, by ID and none twice, or the default tenant alone,
whatever the order of the walk; and `IsMember`, `handleTenants` and
`chooseTenant` read the same tenants. -/
theorem membership_readings_agree [GoTables] (ips dns : List String) (calls : List HubCall) :
    ∃ h n, runFallible Hub.counted (Hub.new ips dns, fun _ => 0) calls = .ok (h, n) ∧
      ∀ claims, ∃ ts out, Readings h.store claims ts out := by
  obtain ⟨⟨h, n⟩, hrun, hkept⟩ := Hub.kept_run ips dns calls
  refine ⟨h, n, hrun, fun claims => ?_⟩
  obtain ⟨ts, hts⟩ := hkept.wellKept.hasDefault.for claims.tenancy
  exact ⟨ts, _, readings_of_for hkept.wellKept.keyed hkept.wellKept.hasDefault hts⟩

end Claimward.Api
