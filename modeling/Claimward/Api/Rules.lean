import Claimward.Api.Calls

/-!
# Following the programs of the calls

A property of programs that holds of a call's program is shown by following the
program from its first action to its answers. The rules below do this once.
`Closed` lists what a property has to put up with in the calls that do not
enroll, and in an enrollment up to its lookup of the key.
-/

namespace Claimward.Api

open AtomicProgram AtomicProgram.Program Inet Wg Peers

section Enrollment

variable {cfg : Config} {claims : Claims} {req : EnrollRequest} {Q : Handler Response → Prop}

theorem registered_rule {key : String} {lease : Time} {next : Option Time → Handler Response}
    (hlookup : ∀ next : Option Registration → Handler Response, (∀ r, Q (next r)) →
      Q (.act (.lookup key) next))
    (hnext : ∀ answer, Q (next answer)) :
    Q (registered cfg key claims lease >>= next) := by
  unfold registered
  split
  · exact hlookup _ fun r => hnext _
  · exact hnext _

/-- An enrollment from its lookup of the key on. -/
theorem enrollAddress_rule {pub : Key} {expiry : Time} {tenantID : String}
    (hrefused : ∀ status code msg, Q (.ret (.refused status code msg)))
    (hget : ∀ next : Option Peer → Handler Response, (∀ r, Q (next r)) →
      Q (.act (.storeGet req.publicKey) next))
    (hallocate : ∀ next : Except String IP → Handler Response, (∀ r, Q (next r)) →
      Q (.act .allocate next))
    (hpeer : ∀ ip, Q (enrollPeer cfg claims req pub expiry tenantID ip)) :
    Q (enrollAddress cfg claims req pub expiry tenantID) := by
  apply hget
  intro r
  cases r with
  | some existing =>
      change Q (if existing.subject ≠ claims.subject then _ else _)
      split
      · exact hrefused _ _ _
      · exact hpeer _
  | none =>
      apply hallocate
      intro answer
      cases answer with
      | error msg => exact hrefused _ _ _
      | ok ip => exact hpeer ip

/-- An answer that an enrollment may give before it asks the store. -/
def Response.Early : Response → Prop
  | .aborted => True
  | .refused _ code _ => code ≠ "pool_exhausted"
  | _ => False

theorem Response.Early.ne_enrolled {r : Response} (h : r.Early) (e : EnrollResponse) :
    r ≠ .enrolled e := by
  rintro rfl
  exact h

theorem pickTenant_early {asked code msg : String} {ts : Option (List Tenant)} {status : ℕ}
    (h : pickTenant asked ts = .refused status code msg) :
    (Response.refused status code msg).Early := by
  unfold pickTenant at h
  split at h
  · exact absurd h (by simp)
  · split at h
    · split at h
      · exact absurd h (by simp)
      · obtain ⟨-, rfl, -⟩ := TenantChoice.refused.inj h
        exact (by decide : "tenant_required" ≠ "pool_exhausted")
    · split at h
      · exact absurd h (by simp)
      · obtain ⟨-, rfl, -⟩ := TenantChoice.refused.inj h
        exact (by decide : "not_a_member" ≠ "pool_exhausted")

/-- How `handleEnroll` goes on from `chooseTenant`. -/
def enrollChosen (cfg : Config) (claims : Claims) (req : EnrollRequest) (pub : Key)
    (expiry : Time) : TenantChoice → Handler Response
  | .panicked => .ret .aborted
  | .refused status code msg => .ret (.refused status code msg)
  | .chosen tenantID => enrollAddress cfg claims req pub expiry tenantID

theorem enrollChosen_cases (pub : Key) (expiry : Time) (ts : Option (List Tenant)) :
    (∃ r : Response, r.Early ∧
        enrollChosen cfg claims req pub expiry (pickTenant req.tenant ts) = .ret r) ∨
      ∃ tenantID, pickTenant req.tenant ts = .chosen tenantID ∧
        enrollChosen cfg claims req pub expiry (pickTenant req.tenant ts) =
          enrollAddress cfg claims req pub expiry tenantID := by
  cases hpick : pickTenant req.tenant ts with
  | panicked => exact Or.inl ⟨.aborted, trivial, rfl⟩
  | refused status code msg =>
      exact Or.inl ⟨.refused status code msg, pickTenant_early hpick, rfl⟩
  | chosen tenantID => exact Or.inr ⟨tenantID, rfl, rfl⟩

/-- An enrollment up to its lookup of the key: what follows the question for the
caller's tenants is an early answer, or the rest for the tenant that is chosen. -/
theorem handleEnroll_rule {body : Except String EnrollRequest}
    (hearly : ∀ r : Response, r.Early → Q (.ret r))
    (hnow : ∀ next : Time → Handler Response, (∀ t, Q (next t)) → Q (.act .now next))
    (hlookup : ∀ key (next : Option Registration → Handler Response), (∀ r, Q (next r)) →
      Q (.act (.lookup key) next))
    (hchoose : ∀ req pub expiry (next : Option (List Tenant) → Handler Response),
      body = .ok req → parseKey req.publicKey = .ok pub →
      (∀ ts, (∃ r : Response, r.Early ∧ next ts = .ret r) ∨
        ∃ tenantID, pickTenant req.tenant ts = .chosen tenantID ∧
          next ts = enrollAddress cfg claims req pub expiry tenantID) →
      Q (.act (.tenantsFor claims.tenancy) next)) :
    Q (handleEnroll cfg claims body) := by
  cases body with
  | error msg => exact hearly _ (by decide : "bad_request" ≠ "pool_exhausted")
  | ok req =>
      cases hkey : parseKey req.publicKey with
      | error msg =>
          simp only [handleEnroll, hkey]
          exact hearly _ (by decide : "bad_public_key" ≠ "pool_exhausted")
      | ok pub =>
          simp only [handleEnroll, hkey]
          refine hnow _ fun now => registered_rule (hlookup _) fun answer => ?_
          cases answer with
          | none => exact hearly _ (by decide : "key_not_registered" ≠ "pool_exhausted")
          | some expiry =>
              change Q (.act (.tenantsFor claims.tenancy) fun ts =>
                enrollChosen cfg claims req pub expiry (pickTenant req.tenant ts))
              exact hchoose req pub expiry _ rfl hkey (enrollChosen_cases pub expiry)

end Enrollment

/-- The property holds of every answer, and of a program if it holds of what
follows the program's first action. A removal from the store and the release that
follows it count as one. -/
structure Closed (Q : Handler Response → Prop) : Prop where
  ret : ∀ r, Q (.ret r)
  now : ∀ {next : Time → Handler Response}, (∀ t, Q (next t)) → Q (.act .now next)
  storeGet : ∀ {key} {next : Option Peer → Handler Response}, (∀ r, Q (next r)) →
    Q (.act (.storeGet key) next)
  storeRenew : ∀ {key expiry} {next : Bool → Handler Response}, (∀ r, Q (next r)) →
    Q (.act (.storeRenew key expiry) next)
  storeExpired : ∀ {t} {next : List Peer → Handler Response}, (∀ ps, Q (next ps)) →
    Q (.act (.storeExpired t) next)
  storeList : ∀ {next : List Peer → Handler Response}, (∀ ps, Q (next ps)) →
    Q (.act .storeList next)
  drop : ∀ {key ip} {next : Unit → Handler Response}, Q (next ()) →
    Q (.act (.storeDelete key) fun _ => .act (.release ip) next)
  removePeer : ∀ {pub} {next : Bool → Handler Response}, (∀ r, Q (next r)) →
    Q (.act (.removePeer pub) next)
  lookup : ∀ {key} {next : Option Registration → Handler Response}, (∀ r, Q (next r)) →
    Q (.act (.lookup key) next)
  install : ∀ {l} {next : Unit → Handler Response}, (∀ r, Q (next r)) → Q (.act (.install l) next)
  tenantsFor : ∀ {m} {next : Option (List Tenant) → Handler Response}, (∀ ts, Q (next ts)) →
    Q (.act (.tenantsFor m) next)
  isMember : ∀ {id m} {next : Option Bool → Handler Response}, (∀ r, Q (next r)) →
    Q (.act (.isMember id m) next)
  createTenant : ∀ {t} {next : Except TenantError Tenant → Handler Response}, (∀ r, Q (next r)) →
    Q (.act (.createTenant t) next)
  updateTenant : ∀ {id t} {next : Except TenantError Tenant → Handler Response},
    (∀ r, Q (next r)) → Q (.act (.updateTenant id t) next)
  deleteTenant : ∀ {id} {next : Except TenantError Unit → Handler Response}, (∀ r, Q (next r)) →
    Q (.act (.deleteTenant id) next)

namespace Closed

variable {Q : Handler Response → Prop} (h : Closed Q) {cfg : Config} {claims : Claims}

include h

theorem handleHeartbeat (body : Except String HeartbeatRequest) :
    Q (handleHeartbeat cfg claims body) := by
  cases body with
  | error msg => exact h.ret _
  | ok req =>
      apply h.storeGet
      intro peer
      cases peer with
      | none => exact h.ret _
      | some peer =>
          change Q (if peer.subject ≠ claims.subject then _ else _)
          split
          · exact h.ret _
          · apply h.isMember
            intro member
            match member with
            | none => exact h.ret _
            | some false => exact h.ret _
            | some true =>
                refine h.now fun now => registered_rule (fun _ => h.lookup) fun answer => ?_
                cases answer with
                | none => exact h.ret _
                | some expiry => exact h.storeRenew fun _ => h.ret _

theorem dropPeer {key : String} {ip : IP} {next : Unit → Handler Response} (hnext : Q (next ())) :
    Q (dropPeer key ip >>= next) := by
  cases hkey : parseKey key with
  | error msg =>
      simp only [Api.dropPeer, hkey]
      exact h.drop hnext
  | ok pub =>
      simp only [Api.dropPeer, hkey]
      exact h.removePeer fun _ => h.drop hnext

theorem handleDeregister (body : Except String DeregisterRequest) :
    Q (handleDeregister claims body) := by
  cases body with
  | error msg => exact h.ret _
  | ok req =>
      apply h.storeGet
      intro peer
      cases peer with
      | none => exact h.ret _
      | some peer =>
          change Q (if peer.subject ≠ claims.subject then _ else _)
          split
          · exact h.ret _
          · exact h.dropPeer (h.ret _)

theorem reapLoop (ps : List Peer) : Q (reapLoop ps) := by
  induction ps with
  | nil => exact h.ret _
  | cons p rest ih => exact h.dropPeer ih

theorem reconcileLoop (allowed : Allowed) (ps : List Peer) :
    Q (reconcileLoop allowed.decide ps) := by
  induction ps with
  | nil => exact h.ret _
  | cons p rest ih =>
      have hnext : ∀ b : Bool, Q
          (if b = true then Api.reconcileLoop allowed.decide rest
            else do
              Api.dropPeer p.publicKey p.ip
              Api.reconcileLoop allowed.decide rest) := by
        intro b
        cases b with
        | true => exact ih
        | false => exact h.dropPeer ih
      cases allowed with
      | registry => exact h.lookup fun answer => hnext _
      | predicate f => exact hnext _

/-- The property holds of every call, if it does of every enrollment from its
lookup of the key on. -/
theorem call
    (haddress : ∀ claims req pub expiry tenantID, parseKey req.publicKey = .ok pub →
      Q (enrollAddress cfg claims req pub expiry tenantID)) (c : Call) :
    Q (c.program cfg) := by
  cases c with
  | enroll claims body =>
      refine handleEnroll_rule (fun r _ => h.ret r) (fun _ => h.now) (fun _ _ => h.lookup) ?_
      intro req pub expiry next _ hkey hnext
      apply h.tenantsFor
      intro ts
      rcases hnext ts with ⟨r, -, heq⟩ | ⟨tenantID, -, heq⟩
      · rw [heq]
        exact h.ret r
      · rw [heq]
        exact haddress claims req pub expiry tenantID hkey
  | heartbeat claims body => exact h.handleHeartbeat body
  | deregister claims body => exact h.handleDeregister body
  | reapExpired => exact h.now fun now => h.storeExpired fun ps => h.reapLoop ps
  | reconcile allowed => exact h.storeList fun ps => h.reconcileLoop allowed ps
  | refresh fetched =>
      cases fetched with
      | error msg => exact h.ret _
      | ok l => exact h.install fun _ => h.ret _
  | createTenant t => exact h.createTenant fun _ => h.ret _
  | updateTenant id inp => exact h.updateTenant fun _ => h.ret _
  | deleteTenant id => exact h.deleteTenant fun _ => h.ret _

end Closed

end Claimward.Api
