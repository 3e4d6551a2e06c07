import Claimward.Api.Rules
import Claimward.Api.Threads

/-!
# What a call may write after a lookup

With a registry configured, a call writes an entry only for a key and a
subject that its lookup found registered, and it puts a key on the device only
if it then writes the entry. Both are properties of the programs, whatever the
other calls do between two of their actions.
-/

namespace Claimward.Api

open AtomicProgram AtomicProgram.Program Inet Wg Peers

/-- The call may write an entry for the key and the subject without another
lookup. -/
def MayPutAs (key subject : String) : Handler Response → Prop
  | .ret _ => False
  | .act (.storePut p) next =>
      p.publicKey = key ∧ p.subject = subject ∨ MayPutAs key subject (next ())
  | .act (.lookup _) _ => False
  | .act _ next => ∃ r, MayPutAs key subject (next r)

/-- On a device that never fails, the call goes on to write an entry for the
key, asking nobody. -/
def WillPut (key : String) : Handler Response → Prop
  | .act (.storePut p) _ => p.publicKey = key
  | .act (.addPeer _ _) next => WillPut key (next true)
  | .act .now next => ∀ t, WillPut key (next t)
  | _ => False

/-- What follows a lookup writes only what the lookup found, and what is put on
the device is written. -/
def Guarded : Handler Response → Prop
  | .ret _ => True
  | .act (.lookup key) next =>
      ∀ r : Option Registration, (∀ q, r = some q → q.key.string = key) →
        (∀ k subject, MayPutAs k subject (next r) →
          k = key ∧ ∃ q, r = some q ∧ q.subject = subject) ∧ Guarded (next r)
  | .act (.addPeer pub _) next => WillPut pub.string (next true) ∧ Guarded (next true)
  | .act _ next => ∀ r, Guarded (next r)

theorem mayPutAs_of_willPut {key : String} {p : Handler Response} (h : WillPut key p) :
    ∃ subject, MayPutAs key subject p := by
  induction p with
  | ret v => exact h.elim
  | act a next ih =>
      cases a with
      | storePut p => exact ⟨p.subject, Or.inl ⟨h, rfl⟩⟩
      | addPeer pub ip =>
          obtain ⟨subject, hput⟩ := ih true h
          exact ⟨subject, true, hput⟩
      | now =>
          obtain ⟨subject, hput⟩ := ih (0 : Time) (h 0)
          exact ⟨subject, (0 : Time), hput⟩
      | _ => exact h.elim

section Programs

variable (cfg : Config) (claims : Claims)

theorem mayPutAs_enrollPeer {req : EnrollRequest} {pub : Key} {expiry : Time}
    {tenantID : String} {ip : IP} {k subject : String}
    (h : MayPutAs k subject (enrollPeer cfg claims req pub expiry tenantID ip)) :
    k = req.publicKey ∧ subject = claims.subject := by
  obtain ⟨added, h⟩ := h
  cases added with
  | true =>
      obtain ⟨enrolledAt, h⟩ := h
      rcases h with ⟨hkey, hsubject⟩ | ⟨routes, h⟩
      · exact ⟨hkey.symm, hsubject.symm⟩
      · cases routes with
        | none => exact h.elim
        | some rs => exact h.elim
  | false =>
      obtain ⟨released, h⟩ := h
      exact h.elim

theorem guarded_enrollPeer {req : EnrollRequest} {pub : Key} {expiry : Time}
    {tenantID : String} {ip : IP} (hkey : pub.string = req.publicKey) :
    Guarded (enrollPeer cfg claims req pub expiry tenantID ip) := by
  refine ⟨fun enrolledAt => hkey.symm, ?_⟩
  intro enrolledAt written routes
  cases routes with
  | none => trivial
  | some rs => trivial

theorem mayPutAs_enrollAddress {req : EnrollRequest} {pub : Key} {expiry : Time}
    {tenantID : String} {k subject : String}
    (h : MayPutAs k subject (enrollAddress cfg claims req pub expiry tenantID)) :
    k = req.publicKey ∧ subject = claims.subject := by
  obtain ⟨existing, h⟩ := h
  cases existing with
  | some existing =>
      change MayPutAs k subject (if existing.subject ≠ claims.subject then _ else _) at h
      split at h
      · exact h.elim
      · exact mayPutAs_enrollPeer cfg claims h
  | none =>
      obtain ⟨answer, h⟩ := h
      cases answer with
      | error msg => exact h.elim
      | ok ip => exact mayPutAs_enrollPeer cfg claims h

theorem guarded_enrollAddress {req : EnrollRequest} {pub : Key} {expiry : Time}
    {tenantID : String} (hkey : pub.string = req.publicKey) :
    Guarded (enrollAddress cfg claims req pub expiry tenantID) := by
  intro existing
  cases existing with
  | some existing =>
      change Guarded (if existing.subject ≠ claims.subject then _ else _)
      split
      · trivial
      · exact guarded_enrollPeer cfg claims hkey
  | none =>
      intro answer
      cases answer with
      | error msg => trivial
      | ok ip => exact guarded_enrollPeer cfg claims hkey

theorem mayPutAs_enrollChosen {req : EnrollRequest} {pub : Key} {expiry : Time}
    {choice : TenantChoice} {k subject : String}
    (h : MayPutAs k subject (enrollChosen cfg claims req pub expiry choice)) :
    k = req.publicKey ∧ subject = claims.subject := by
  cases choice with
  | panicked => exact h.elim
  | refused status code msg => exact h.elim
  | chosen tenantID => exact mayPutAs_enrollAddress cfg claims h

theorem guarded_enrollChosen {req : EnrollRequest} {pub : Key} {expiry : Time}
    (hkey : pub.string = req.publicKey) (choice : TenantChoice) :
    Guarded (enrollChosen cfg claims req pub expiry choice) := by
  cases choice with
  | panicked => trivial
  | refused status code msg => trivial
  | chosen tenantID => exact guarded_enrollAddress cfg claims hkey

theorem clampLease_eq_some {lease expiry : Time} {r : Option Registration}
    (h : clampLease claims lease r = some expiry) :
    ∃ q, r = some q ∧ q.subject = claims.subject := by
  cases r with
  | none => exact absurd h (by simp [clampLease])
  | some q =>
      refine ⟨q, rfl, ?_⟩
      by_contra hne
      exact absurd h (by simp [clampLease, hne])

/-- The part of an enrollment after its lookup. -/
private def afterLookup (req : EnrollRequest) (pub : Key) : Option Time → Handler Response
  | none =>
      .ret (.refused 403 "key_not_registered"
        "register this device's key with the identity provider first")
  | some expiry =>
      .act (.tenantsFor claims.tenancy) fun ts =>
        enrollChosen cfg claims req pub expiry (pickTenant req.tenant ts)

private theorem handleEnroll_eq (hpeers : cfg.usePeers = true) {req : EnrollRequest} {pub : Key}
    (hkey : parseKey req.publicKey = .ok pub) :
    handleEnroll cfg claims (.ok req) =
      .act .now fun now => .act (.lookup req.publicKey) fun r =>
        afterLookup cfg claims req pub (clampLease claims (now + cfg.leaseTTL) r) := by
  simp only [handleEnroll, hkey, registered, hpeers, if_true, call_eq_act, act_bind, ret_bind,
    pure_eq_ret, chooseTenant]
  rfl

theorem guarded_handleEnroll (hpeers : cfg.usePeers = true) (body : Except String EnrollRequest) :
    Guarded (handleEnroll cfg claims body) := by
  cases body with
  | error msg => trivial
  | ok req =>
      cases hkey : parseKey req.publicKey with
      | error msg =>
          simp only [handleEnroll, hkey]
          trivial
      | ok pub =>
          rw [handleEnroll_eq cfg claims hpeers hkey]
          intro now r hr
          change (∀ k subject, MayPutAs k subject (afterLookup cfg claims req pub
              (clampLease claims (now + cfg.leaseTTL) r)) → _) ∧
            Guarded (afterLookup cfg claims req pub (clampLease claims (now + cfg.leaseTTL) r))
          cases hlease : clampLease claims (now + cfg.leaseTTL) r with
          | none => exact ⟨fun k subject h => h.elim, trivial⟩
          | some expiry =>
              obtain ⟨q, rfl, hsubject⟩ := clampLease_eq_some claims hlease
              have hpub : pub.string = req.publicKey := by
                rw [← hr q rfl, parseKey_string] at hkey
                rw [← hr q rfl, Except.ok.inj hkey]
              constructor
              · rintro k subject ⟨ts, h⟩
                obtain ⟨rfl, rfl⟩ := mayPutAs_enrollChosen cfg claims h
                exact ⟨rfl, q, rfl, hsubject⟩
              · exact fun ts => guarded_enrollChosen cfg claims hpub _

theorem guarded_handleHeartbeat (hpeers : cfg.usePeers = true)
    (body : Except String HeartbeatRequest) : Guarded (handleHeartbeat cfg claims body) := by
  cases body with
  | error msg => trivial
  | ok req =>
      intro peer
      cases peer with
      | none => trivial
      | some peer =>
          change Guarded (if peer.subject ≠ claims.subject then _ else _)
          split
          · trivial
          · intro member
            cases member with
            | none => trivial
            | some b =>
                cases b with
                | false => trivial
                | true =>
                    simp only [registered, hpeers, if_true]
                    intro now r _
                    change (∀ k subject, MayPutAs k subject
                      (match clampLease claims (now + cfg.leaseTTL) r with
                      | none => _
                      | some expiry => _) → _) ∧ Guarded
                      (match clampLease claims (now + cfg.leaseTTL) r with
                      | none => _
                      | some expiry => _)
                    cases clampLease claims (now + cfg.leaseTTL) r with
                    | none => exact ⟨fun k subject h => h.elim, trivial⟩
                    | some expiry => exact ⟨fun k subject ⟨_, h⟩ => h.elim, fun _ => trivial⟩

/-- Taking a peer away writes nothing. -/
theorem mayPutAs_of_dropPeer {key k subject : String} {ip : IP} {next : Unit → Handler Response}
    (h : MayPutAs k subject (dropPeer key ip >>= next)) : MayPutAs k subject (next ()) := by
  unfold dropPeer at h
  cases hkey : parseKey key with
  | ok pub =>
      rw [hkey] at h
      obtain ⟨removed, deleted, released, h⟩ := h
      exact h
  | error msg =>
      rw [hkey] at h
      obtain ⟨deleted, released, h⟩ := h
      exact h

theorem guarded_dropPeer {key : String} {ip : IP} {next : Unit → Handler Response}
    (h : Guarded (next ())) : Guarded (dropPeer key ip >>= next) := by
  unfold dropPeer
  cases hkey : parseKey key with
  | ok pub => exact fun removed deleted released => h
  | error msg => exact fun deleted released => h

theorem guarded_handleDeregister (body : Except String DeregisterRequest) :
    Guarded (handleDeregister claims body) := by
  cases body with
  | error msg => trivial
  | ok req =>
      intro peer
      cases peer with
      | none => trivial
      | some peer =>
          change Guarded (if peer.subject ≠ claims.subject then _ else _)
          split
          · trivial
          · exact guarded_dropPeer trivial

theorem guarded_reapLoop (ps : List Peer) : Guarded (reapLoop ps) := by
  induction ps with
  | nil => trivial
  | cons p rest ih => exact guarded_dropPeer ih

/-- Reconciliation writes nothing. -/
theorem not_mayPutAs_reconcileLoop (allowed : Allowed) (ps : List Peer) {k subject : String} :
    ¬ MayPutAs k subject (reconcileLoop allowed.decide ps) := by
  induction ps with
  | nil => exact id
  | cons p rest ih =>
      intro h
      cases allowed with
      | registry => exact h
      | predicate f =>
          change MayPutAs k subject (if f p.publicKey p.subject then _ else _) at h
          split at h
          · exact ih h
          · exact ih (mayPutAs_of_dropPeer h)

theorem guarded_reconcileLoop (allowed : Allowed) (ps : List Peer) :
    Guarded (reconcileLoop allowed.decide ps) := by
  induction ps with
  | nil => trivial
  | cons p rest ih =>
      cases allowed with
      | registry =>
          intro r _
          change (∀ k subject, MayPutAs k subject
              (if r.any (fun q => q.subject = p.subject) = true then _ else _) → _) ∧
            Guarded (if r.any (fun q => q.subject = p.subject) = true then _ else _)
          split
          · exact ⟨fun k subject h => absurd h (not_mayPutAs_reconcileLoop .registry rest), ih⟩
          · exact ⟨fun k subject h =>
              absurd (mayPutAs_of_dropPeer h) (not_mayPutAs_reconcileLoop .registry rest),
              guarded_dropPeer ih⟩
      | predicate f =>
          change Guarded (if f p.publicKey p.subject then _ else _)
          split
          · exact ih
          · exact guarded_dropPeer ih

/-- Every call writes only what its last lookup found. -/
theorem guarded_call (hpeers : cfg.usePeers = true) (c : Call) : Guarded (c.program cfg) := by
  cases c with
  | enroll claims body => exact guarded_handleEnroll cfg claims hpeers body
  | heartbeat claims body => exact guarded_handleHeartbeat cfg claims hpeers body
  | deregister claims body => exact guarded_handleDeregister claims body
  | reapExpired => exact fun now ps => guarded_reapLoop ps
  | reconcile allowed => exact fun ps => guarded_reconcileLoop allowed ps
  | refresh fetched =>
      cases fetched with
      | error msg => trivial
      | ok l => exact fun _ => trivial
  | createTenant t => exact fun _ => trivial
  | updateTenant id inp => exact fun _ => trivial
  | deleteTenant id => exact fun _ => trivial

theorem not_mayPutAs_handleEnroll (hpeers : cfg.usePeers = true)
    (body : Except String EnrollRequest) {k subject : String} :
    ¬ MayPutAs k subject (handleEnroll cfg claims body) := by
  intro h
  cases body with
  | error msg => exact h
  | ok req =>
      cases hkey : parseKey req.publicKey with
      | error msg =>
          simp only [handleEnroll, hkey] at h
          exact h
      | ok pub =>
          rw [handleEnroll_eq cfg claims hpeers hkey] at h
          obtain ⟨now, h⟩ := h
          exact h

theorem not_mayPutAs_handleHeartbeat (hpeers : cfg.usePeers = true)
    (body : Except String HeartbeatRequest) {k subject : String} :
    ¬ MayPutAs k subject (handleHeartbeat cfg claims body) := by
  intro h
  cases body with
  | error msg => exact h
  | ok req =>
      obtain ⟨peer, h⟩ := h
      cases peer with
      | none => exact h
      | some peer =>
          change MayPutAs k subject (if peer.subject ≠ claims.subject then _ else _) at h
          split at h
          · exact h
          · obtain ⟨member, h⟩ := h
            cases member with
            | none => exact h
            | some b =>
                cases b with
                | false => exact h
                | true =>
                    simp only [registered, hpeers, if_true] at h
                    obtain ⟨now, h⟩ := h
                    exact h

theorem not_mayPutAs_handleDeregister (body : Except String DeregisterRequest)
    {k subject : String} : ¬ MayPutAs k subject (handleDeregister claims body) := by
  intro h
  cases body with
  | error msg => exact h
  | ok req =>
      obtain ⟨peer, h⟩ := h
      cases peer with
      | none => exact h
      | some peer =>
          change MayPutAs k subject (if peer.subject ≠ claims.subject then _ else _) at h
          split at h
          · exact h
          · exact mayPutAs_of_dropPeer h

theorem not_mayPutAs_reapLoop (ps : List Peer) {k subject : String} :
    ¬ MayPutAs k subject (reapLoop ps) := by
  induction ps with
  | nil => exact id
  | cons p rest ih => exact fun h => ih (mayPutAs_of_dropPeer h)

/-- No call writes before its lookup. -/
theorem not_mayPutAs_call (hpeers : cfg.usePeers = true) (c : Call) {k subject : String} :
    ¬ MayPutAs k subject (c.program cfg) := by
  cases c with
  | enroll claims body => exact not_mayPutAs_handleEnroll cfg claims hpeers body
  | heartbeat claims body => exact not_mayPutAs_handleHeartbeat cfg claims hpeers body
  | deregister claims body => exact not_mayPutAs_handleDeregister claims body
  | reapExpired => exact fun ⟨now, ps, h⟩ => not_mayPutAs_reapLoop ps h
  | reconcile allowed => exact fun ⟨ps, h⟩ => not_mayPutAs_reconcileLoop allowed ps h
  | refresh fetched =>
      cases fetched with
      | error msg => exact id
      | ok l => exact fun ⟨_, h⟩ => h
  | createTenant t => exact fun ⟨_, h⟩ => h
  | updateTenant id inp => exact fun ⟨_, h⟩ => h
  | deleteTenant id => exact fun ⟨_, h⟩ => h

end Programs

end Claimward.Api
