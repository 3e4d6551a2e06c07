import Claimward.Api.CallEffect

/-!
# Why a lease was granted

Every entry of the store goes back to the latest request that was granted for
its key. The log says what that request met: whose claims it carried, the
tenants as they stood, and the newest list of keys fetched by then.
-/

namespace Claimward.Api

open AtomicProgram Inet Wg Peers Runs

/-- The caller and the key of a request that may be granted a lease. -/
def Call.asks : Call → Option (Claims × String)
  | .enroll claims (.ok req) => some (claims, req.publicKey)
  | .heartbeat claims (.ok req) => some (claims, req.publicKey)
  | _ => none

/-- The call was answered with a lease for the key. -/
def Event.GrantsKey (e : Event) (key : String) : Prop :=
  e.response.Grants ∧ ∃ claims, e.call.asks = some (claims, key)

/-- The newest list that a refresh of the log has fetched. -/
def newestList : List Event → Option KeyList
  | [] => none
  | e :: older =>
      match e.call with
      | .refresh (.ok l) => some l
      | _ => newestList older

/-- The registry that holds a list, or none yet. -/
def registryOf : Option KeyList → Registry
  | none => .new
  | some l => Registry.new.install l

/-- The clock does not go back while a call runs. -/
def Oracle.Forward (ω : Oracle) : Prop := ∀ n, ω.clock.get n ≤ ω.clock.get (n + 1)

theorem pickTenant_chosen {asked id : String} {answer : Option (List Tenant)}
    (h : pickTenant asked answer = .chosen id) : ∃ ts, answer = some ts ∧ ∃ t ∈ ts, t.id = id := by
  unfold pickTenant at h
  split at h
  · exact absurd h (by simp)
  · rename_i ts
    refine ⟨ts, rfl, ?_⟩
    split at h
    · split at h
      · rename_i t
        exact ⟨t, List.mem_singleton_self t, TenantChoice.chosen.inj h⟩
      · exact absurd h (by simp)
    · split at h
      · rename_i hany
        obtain ⟨t, ht, hid⟩ := List.any_eq_true.mp hany
        exact ⟨t, ht, (of_decide_eq_true hid).trans (TenantChoice.chosen.inj h)⟩
      · exact absurd h (by simp)

section Grants

variable [GoText.CaseTables]

/-- At an instant the call read from the clock, its caller belonged to the
tenant and, with a registry, the newest list was current and registered the
key to the caller; the lease outlasts neither. -/
def Justified (cfg : Config) (older : List Event) (e : Event) (claims : Claims)
    (key tenant : String) (expiry : Time) : Prop :=
  ∃ n,
    (∃ ts, e.before.tenants.for claims.tenancy = some ts ∧ ∃ t ∈ ts, t.id = tenant) ∧
    expiry ≤ e.oracle.clock.get n + cfg.leaseTTL ∧
    (cfg.usePeers = true → ∃ l, newestList older = some l ∧ e.oracle.clock.get n < l.expires ∧
      ∃ q ∈ l.peers, q.key.string = key ∧ q.subject = claims.subject ∧
        e.oracle.clock.get n < q.expires ∧ expiry ≤ q.expires)

/-- The latest grant of the key in the log was made to the entry's subject,
with the entry's tenant and lease, and was justified. -/
def LastGrant (cfg : Config) (log : List Event) (key : String) (p : Peer) : Prop :=
  ∃ newer e older claims, log = newer ++ e :: older ∧ (∀ e' ∈ newer, ¬ e'.GrantsKey key) ∧
    e.call.asks = some (claims, key) ∧ e.response.lease = some p.leaseExpiry ∧
    claims.subject = p.subject ∧ Justified cfg older e claims key p.tenant p.leaseExpiry

/-- Every grant of the log was justified when it was made. -/
def GrantsJustified (cfg : Config) (log : List Event) : Prop :=
  ∀ newer e older claims key expiry, log = newer ++ e :: older →
    e.call.asks = some (claims, key) → e.response.lease = some expiry →
    ∃ tenant, Justified cfg older e claims key tenant expiry

variable {cfg : Config}

/-- The checks of a request justify its lease, at the second instant it reads
if a registry is configured. -/
theorem justified_of_leased {older : List Event} {e : Event} {claims : Claims}
    {key tenant : String} {expiry : Time} (hclock : e.oracle.Forward)
    (hregistry : e.before.registry = registryOf (newestList older))
    (hmember : ∃ ts, e.before.tenants.for claims.tenancy = some ts ∧ ∃ t ∈ ts, t.id = tenant)
    (hlease : Leased cfg e.before.registry key claims e.oracle.clock expiry) :
    Justified cfg older e claims key tenant expiry := by
  cases hpeers : cfg.usePeers with
  | false => exact ⟨0, hmember, hlease.le_ttl, fun h => absurd (hpeers.symm.trans h) (by simp)⟩
  | true =>
      obtain ⟨l, q, hl, hcurrent, hlookup, hunexpired, hsubject, hle⟩ := hlease.registered hpeers
      have hnow : e.oracle.clock.get 0 ≤ e.oracle.clock.get 1 := hclock 0
      have hnext : e.oracle.clock.get 1 ≤ e.oracle.clock.get 2 := hclock 1
      refine ⟨1, hmember, le_trans hlease.le_ttl (Int.add_le_add_right hnow _), fun _ => ?_⟩
      cases hnewest : newestList older with
      | none =>
          rw [hregistry, hnewest] at hl
          exact absurd hl (by simp [registryOf, Registry.new])
      | some l' =>
          rw [hregistry, hnewest] at hl hlookup
          obtain rfl := Option.some.inj hl
          obtain ⟨hmem, hkey⟩ := KeyList.byKey_lookup hlookup
          exact ⟨l', rfl, hcurrent, q, hmem, hkey, hsubject, lt_of_le_of_lt hnext hunexpired, hle⟩

/-- A call that grants the key nothing leaves its latest grant the latest. -/
theorem LastGrant.cons {log : List Event} {key : String} {p : Peer}
    (h : LastGrant cfg log key p) {e : Event} (he : ¬ e.GrantsKey key) :
    LastGrant cfg (e :: log) key p := by
  obtain ⟨newer, e', older, claims, rfl, hnewer, hrest⟩ := h
  refine ⟨e :: newer, e', older, claims, rfl, ?_, hrest⟩
  intro e'' he''
  rcases List.mem_cons.mp he'' with rfl | hmem
  · exact he
  · exact hnewer e'' hmem

theorem GrantsJustified.cons {log : List Event} (h : GrantsJustified cfg log) {e : Event}
    (he : ∀ claims key expiry, e.call.asks = some (claims, key) →
      e.response.lease = some expiry → ∃ tenant, Justified cfg log e claims key tenant expiry) :
    GrantsJustified cfg (e :: log) := by
  intro newer e' older claims key expiry hlog hasks hlease
  cases newer with
  | nil =>
      obtain ⟨rfl, rfl⟩ := List.cons.inj hlog
      exact he claims key expiry hasks hlease
  | cons _ newer =>
      obtain ⟨-, hlog⟩ := List.cons.inj hlog
      exact h newer e' older claims key expiry hlog hasks hlease

/-- What holds of every session: the registry is that of the newest list, and
the grants of the log justify the entries of the store. -/
structure Recorded (cfg : Config) (σ : Session) : Prop where
  hasDefault : σ.server.tenants.HasDefault
  registry : σ.server.registry = registryOf (newestList σ.log)
  entries : ∀ k p, σ.server.store.get k = some p → LastGrant cfg σ.log k p
  grants : GrantsJustified cfg σ.log

theorem registry_step (s : Server) (l : Call × Oracle)
    (hl : ∀ list, l.1 ≠ .refresh (.ok list)) : (s.serve cfg l).registry = s.registry := by
  obtain ⟨c, ω⟩ := l
  obtain ⟨r, s', hs', heff⟩ := exists_effect cfg ω s c
  rw [hs']
  cases heff with
  | drop hr => exact dropAll_registry
  | install hr => exact absurd rfl (hl _)
  | _ => rfl

theorem hasDefault_step {s : Server} (h : s.tenants.HasDefault) (l : Call × Oracle) :
    (s.serve cfg l).tenants.HasDefault := by
  obtain ⟨c, ω⟩ := l
  obtain ⟨r, s', hs', heff⟩ := exists_effect cfg ω s c
  rw [hs']
  cases heff with
  | drop hr =>
      rw [dropAll_tenants]
      exact h
  | tenants hkeep hr => exact hkeep h
  | _ => exact h

theorem newest_step {σ : Session} (h : σ.server.registry = registryOf (newestList σ.log))
    (l : Call × Oracle) :
    (σ.serve cfg l).server.registry = registryOf (newestList (σ.serve cfg l).log) := by
  by_cases hl : ∃ list, l.1 = .refresh (.ok list)
  · obtain ⟨c, ω⟩ := l
    obtain ⟨list, rfl⟩ := hl
    rfl
  · have hsame : newestList (σ.serve cfg l).log = newestList σ.log := by
      simp only [Session.serve, newestList]
      split
      · rename_i list heq
        exact absurd ⟨list, heq⟩ hl
      · rfl
    rw [hsame, ← h]
    exact registry_step σ.server l fun list heq => hl ⟨list, heq⟩

/-- A call for which nothing was granted adds no entry, no grant. -/
theorem entries_of_not_grants {log : List Event} {e : Event} (he : ¬ e.response.Grants)
    {s s' : Server} (hsub : ∀ k p, s'.store.get k = some p → s.store.get k = some p)
    (hentries : ∀ k p, s.store.get k = some p → LastGrant cfg log k p)
    (hgrants : GrantsJustified cfg log) :
    (∀ k p, s'.store.get k = some p → LastGrant cfg (e :: log) k p) ∧
      GrantsJustified cfg (e :: log) := by
  constructor
  · intro k p hp
    exact (hentries k p (hsub k p hp)).cons fun hkey => he hkey.1
  · apply hgrants.cons
    intro claims key expiry _ hlease
    exact absurd (Response.Grants.of_lease hlease) he

/-- A granted call writes the lease of its key and leaves all other entries. -/
theorem entries_of_grants {log : List Event} {e : Event} {claims : Claims} {key : String}
    {q : Peer} (hasks : e.call.asks = some (claims, key))
    (hlease : e.response.lease = some q.leaseExpiry) (hsubject : claims.subject = q.subject)
    (hjust : Justified cfg log e claims key q.tenant q.leaseExpiry)
    {s s' : Server} (hsub : ∀ k p, s'.store.get k = some p →
      k = key ∧ p = q ∨ k ≠ key ∧ s.store.get k = some p)
    (hentries : ∀ k p, s.store.get k = some p → LastGrant cfg log k p)
    (hgrants : GrantsJustified cfg log) :
    (∀ k p, s'.store.get k = some p → LastGrant cfg (e :: log) k p) ∧
      GrantsJustified cfg (e :: log) := by
  constructor
  · intro k p hp
    rcases hsub k p hp with ⟨rfl, rfl⟩ | ⟨hk, hold⟩
    · exact ⟨[], e, log, claims, rfl, by simp, hasks, hlease, hsubject, hjust⟩
    · apply (hentries k p hold).cons
      rintro ⟨-, claims', hasks'⟩
      rw [hasks, Option.some.injEq, Prod.mk.injEq] at hasks'
      exact hk hasks'.2.symm
  · apply hgrants.cons
    intro claims' key' expiry hasks' hlease'
    rw [hasks, Option.some.injEq, Prod.mk.injEq] at hasks'
    rw [hlease, Option.some.injEq] at hlease'
    obtain ⟨rfl, rfl⟩ := hasks'
    exact ⟨q.tenant, hlease' ▸ hjust⟩

theorem entries_step {σ : Session} (h : Recorded cfg σ) {l : Call × Oracle}
    (hclock : l.2.Forward) :
    (∀ k p, (σ.serve cfg l).server.store.get k = some p →
        LastGrant cfg (σ.serve cfg l).log k p) ∧
      GrantsJustified cfg (σ.serve cfg l).log := by
  obtain ⟨c, ω⟩ := l
  obtain ⟨s, log⟩ := σ
  obtain ⟨hdefault, hregistry, hentries, hgrants⟩ := h
  obtain ⟨r, s', hserve, heff⟩ := Session.exists_effect cfg ω s log c
  rw [hserve]
  cases heff with
  | idle hr => exact entries_of_not_grants hr (fun _ _ hp => hp) hentries hgrants
  | install hr => exact entries_of_not_grants hr (fun _ _ hp => hp) hentries hgrants
  | tenants hkeep hr => exact entries_of_not_grants hr (fun _ _ hp => hp) hentries hgrants
  | disown hadm hget hown hfail hr =>
      exact entries_of_not_grants hr (fun _ _ hp => hp) hentries hgrants
  | drop hr =>
      exact entries_of_not_grants hr (fun _ _ hp => (get_dropAll_eq_some.mp hp).1) hentries hgrants
  | @reassign claims req pub expiry tenantID existing r hadm hget hown hadd at' hr =>
      have hjust := justified_of_leased (e := ⟨.enroll claims (.ok req), ω, s, r⟩) hclock hregistry
        (pickTenant_chosen hadm.tenant) hadm.leased
      exact entries_of_grants (q := entry claims req expiry tenantID existing.ip at') rfl
        (hr hdefault) rfl hjust (fun _ _ => Store.get_put_eq_some.mp) hentries hgrants
  | @assign claims req pub expiry tenantID ip r hadm hget hfree hadd at' hr =>
      have hjust := justified_of_leased (e := ⟨.enroll claims (.ok req), ω, s, r⟩) hclock hregistry
        (pickTenant_chosen hadm.tenant) hadm.leased
      exact entries_of_grants (q := entry claims req expiry tenantID ip at') rfl
        (hr hdefault) rfl hjust (fun _ _ => Store.get_put_eq_some.mp) hentries hgrants
  | @renew claims req existing expiry hget hown hmember hlease =>
      have hjust := justified_of_leased
        (e := ⟨.heartbeat claims (.ok req), ω, s, .renewed expiry⟩) hclock hregistry
        (TenantStore.isMember_eq_some_true.mp hmember) hlease
      exact entries_of_grants (q := { existing with leaseExpiry := expiry }) rfl rfl hown.symm
        hjust (fun _ _ => (Store.get_renew_eq_some hget).mp) hentries hgrants

section Runs

variable {a : Ipam.Allocator} {device : Device} {tenants : TenantStore}
  {calls : List (Call × Oracle)}

theorem recorded_run (htenants : tenants.HasDefault)
    (hrun : Admissible (Session.serve cfg) (fun _ l => l.2.Forward)
      (.new (.start a device .new tenants)) calls) :
    Recorded cfg (Session.history cfg (.start a device .new tenants) calls) := by
  apply hrun.invariant (Recorded cfg)
  · intro σ l h hclock
    obtain ⟨hentries, hgrants⟩ := entries_step h hclock
    exact ⟨hasDefault_step h.hasDefault l, newest_step h.registry l, hentries, hgrants⟩
  · refine ⟨htenants, rfl, ?_, ?_⟩
    · intro k p hp
      simp [Session.new, Server.start] at hp
    · intro newer e older _ _ _ hlog
      exact absurd hlog (by simp [Session.new])

/-- Every entry goes back to a justified grant, the latest of its key, and no
request was ever granted a lease without such a reason. -/
theorem leases_justified (htenants : tenants.HasDefault)
    (hrun : Admissible (Session.serve cfg) (fun _ l => l.2.Forward)
      (.new (.start a device .new tenants)) calls) :
    (∀ k p,
        (Session.history cfg (.start a device .new tenants) calls).server.store.get k = some p →
        LastGrant cfg (Session.history cfg (.start a device .new tenants) calls).log k p) ∧
      GrantsJustified cfg (Session.history cfg (.start a device .new tenants) calls).log :=
  ⟨(recorded_run htenants hrun).entries, (recorded_run htenants hrun).grants⟩

end Runs

end Grants

/-- A registered key is enrolled and its lease renewed. -/
private def registerEnrollRenew : List (Call × Oracle) :=
  [(.refresh (.ok (Sample.list "alice")), Sample.oracle true true),
    (Sample.enroll "alice" Sample.key₁, Sample.oracle true true),
    (Sample.heartbeat "alice" Sample.key₁, Sample.oracle true true)]

attribute [local instance] GoText.asciiTables

theorem renewed_lease_justified :
    ∃ p,
      (Session.history (Sample.config true) Sample.start registerEnrollRenew).server.store.get
        Sample.key₁ = some p ∧
      LastGrant (Sample.config true)
        (Session.history (Sample.config true) Sample.start registerEnrollRenew).log
        Sample.key₁ p := by
  obtain ⟨p, hp⟩ : ∃ p, (Session.history (Sample.config true) Sample.start
      registerEnrollRenew).server.store.get Sample.key₁ = some p :=
    Option.isSome_iff_exists.mp (by decide +kernel)
  have hω : (Sample.oracle true true).Forward := fun _ => le_refl _
  have hrun : Admissible (Session.serve (Sample.config true)) (fun _ l => l.2.Forward)
      (.new Sample.start) registerEnrollRenew := ⟨hω, hω, hω, trivial⟩
  have hjust := leases_justified (TenantStore.hasDefault_new ["10.80.0.0/29"] []) hrun
  exact ⟨p, hp, hjust.1 Sample.key₁ p hp⟩

end Claimward.Api
