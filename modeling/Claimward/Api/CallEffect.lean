import Claimward.Api.Effects

/-!
# Every call has one of the effects

The runs of the handlers, of the reaper and of the reconciliation are followed
branch by branch, once. `call_effect` collects the results.
-/

namespace Claimward.Api

open AtomicProgram AtomicProgram.Program Inet Wg Peers

variable [GoText.CaseTables]

section Pieces

variable (cfg : Config) (claims : Claims) (req : EnrollRequest) (pub : Key) (expiry : Time)
  (tenantID : String) (ip : IP) {ω : Oracle} (s : Server)

/-- What `registered` answers once the handler has read the clock. -/
theorem run_registered (ω : Oracle) (key : String) :
    ∃ answer clock,
      (registered cfg key claims (ω.clock.head + cfg.leaseTTL)).run exec
        { ω with clock := ω.clock.tail } s = (answer, { ω with clock := clock }, s) ∧
      ∀ expiry, answer = some expiry → Leased cfg s.registry key claims ω.clock expiry := by
  by_cases hpeers : cfg.usePeers
  · refine ⟨clampLease claims (ω.clock.head + cfg.leaseTTL)
      (s.registry.lookup key ω.clock.tail).1, (s.registry.lookup key ω.clock.tail).2, ?_, ?_⟩
    · simp [registered, hpeers]
    · intro expiry hexp
      simpa [Leased, hpeers] using hexp
  · refine ⟨some (ω.clock.head + cfg.leaseTTL), ω.clock.tail, by simp [registered, hpeers], ?_⟩
    intro expiry hexp
    simpa [Leased, hpeers] using hexp.symm

theorem enrollPeer_ok (hok : ω.addOk.head = true) :
    ((enrollPeer cfg claims req pub expiry tenantID ip).run exec ω s).2.2 =
        { s with
          device := s.device.addPeer pub ip
          store := s.store.put (entry claims req expiry tenantID ip ω.clock.head) } ∧
      (s.tenants.HasDefault →
        ((enrollPeer cfg claims req pub expiry tenantID ip).run exec ω s).1.lease =
          some expiry) := by
  cases hroutes : s.tenants.routes tenantID with
  | none =>
      constructor
      · simp [enrollPeer, hok, hroutes, entry]
      · intro h
        obtain ⟨rs, hrs⟩ := h.routes tenantID
        rw [hroutes] at hrs
        exact absurd hrs (by simp)
  | some rs =>
      constructor
      · simp [enrollPeer, hok, hroutes, entry]
      · intro _
        simp [enrollPeer, hok, hroutes, Response.lease]

theorem enrollPeer_failed (hfail : ω.addOk.head = false) :
    (enrollPeer cfg claims req pub expiry tenantID ip).run exec ω s =
      (.refused 500 "gateway_error" "could not program gateway",
        { ω with addOk := ω.addOk.tail }, { s with alloc := s.alloc.release ip }) := by
  simp [enrollPeer, hfail]

theorem run_dropPeer (ω : Oracle) (p : Peer) :
    (dropPeer p.publicKey p.ip).run exec ω s =
      ((), { ω with removeOk := outcomesLeft p ω.removeOk }, s.drop p ω.removeOk.head) := by
  cases hkey : parseKey p.publicKey with
  | error msg => simp [dropPeer, hkey, Server.drop, outcomesLeft]
  | ok pub =>
      cases hok : ω.removeOk.head
      · simp [dropPeer, hkey, Server.drop, hok, outcomesLeft]
      · simp [dropPeer, hkey, Server.drop, hok, outcomesLeft]

theorem run_reapLoop (ω : Oracle) (ps : List Peer) :
    ((reapLoop ps).run exec ω s).1 = .finished ∧
      ((reapLoop ps).run exec ω s).2.2 = s.dropAll ps ω.removeOk := by
  induction ps generalizing ω s with
  | nil => exact ⟨rfl, rfl⟩
  | cons p rest ih =>
      simp only [reapLoop, run_bind, run_dropPeer, Server.dropAll]
      exact ih _ _

@[simp] theorem run_decide (allowed : Allowed) (key subject : String) :
    (allowed.decide key subject).run exec ω s =
      ((allowed.ask s.registry key subject ω.clock).1,
        { ω with clock := (allowed.ask s.registry key subject ω.clock).2 }, s) := by
  cases allowed with
  | registry => simp [Allowed.decide, registryAllowed, Allowed.ask]
  | predicate f => simp [Allowed.decide, Allowed.ask]

theorem run_reconcileLoop (ω : Oracle) (allowed : Allowed) (ps : List Peer) :
    ((reconcileLoop allowed.decide ps).run exec ω s).1 = .finished ∧
      ((reconcileLoop allowed.decide ps).run exec ω s).2.2 =
        s.dropAll (allowed.rejected s.registry ps ω.clock) ω.removeOk := by
  induction ps generalizing ω s with
  | nil => exact ⟨rfl, rfl⟩
  | cons p rest ih =>
      simp only [reconcileLoop, run_bind, run_decide, Allowed.rejected]
      cases hask : (allowed.ask s.registry p.publicKey p.subject ω.clock).1 with
      | true =>
          simp only [if_true]
          exact ih _ _
      | false =>
          simp only [Bool.false_eq_true, if_false, run_bind, run_dropPeer, Server.dropAll]
          exact ih _ _

end Pieces

section Calls

variable {cfg : Config} {ω : Oracle} {s : Server} {claims : Claims}

/-- A call that grants nothing and leaves the server as it was. -/
theorem Effect.of_unchanged {c : Call}
    (h : ¬ ((c.program cfg).run exec ω s).1.Grants ∧ ((c.program cfg).run exec ω s).2.2 = s) :
    Effect cfg ω s c (c.response cfg ω s) (c.after cfg ω s) := by
  rw [Call.after, h.2]
  exact .idle h.1

/-- An enrollment from the point where it asks the store for its key. It has
read the clock by then, but the outcomes of the device calls are all to come. -/
theorem enrollAddress_effect {req : EnrollRequest} {pub : Key} {expiry : Time}
    {tenantID : String} {ω' : Oracle}
    (hadm : Admitted cfg s ω.clock claims req pub expiry tenantID)
    (hadd : ω'.addOk = ω.addOk) :
    Effect cfg ω s (.enroll claims (.ok req))
      ((enrollAddress cfg claims req pub expiry tenantID).run exec ω' s).1
      ((enrollAddress cfg claims req pub expiry tenantID).run exec ω' s).2.2 := by
  cases hget : s.store.get req.publicKey with
  | some existing =>
      by_cases hown : existing.subject = claims.subject
      · have hrun : (enrollAddress cfg claims req pub expiry tenantID).run exec ω' s =
            (enrollPeer cfg claims req pub expiry tenantID existing.ip).run exec ω' s := by
          simp [enrollAddress, hget, hown]
        rw [hrun]
        cases hok : ω.addOk.head with
        | false =>
            rw [enrollPeer_failed _ _ _ _ _ _ _ _ (hadd ▸ hok)]
            exact .disown hadm hget hown hok Response.not_grants_refused
        | true =>
            obtain ⟨hafter, hgrants⟩ :=
              enrollPeer_ok cfg claims req pub expiry tenantID existing.ip s (hadd ▸ hok)
            rw [hafter]
            exact .reassign hadm hget hown hok _ hgrants
      · have hrun : (enrollAddress cfg claims req pub expiry tenantID).run exec ω' s =
            (.refused 409 "key_taken" "this key is enrolled by another user", ω', s) := by
          simp [enrollAddress, hget, hown]
        rw [hrun]
        exact .idle Response.not_grants_refused
  | none =>
      cases hfree : s.alloc.free with
      | none =>
          have hrun : (enrollAddress cfg claims req pub expiry tenantID).run exec ω' s =
              (.refused 503 "pool_exhausted"
                ("address pool " ++ netText s.alloc.network ++ " exhausted"), ω', s) := by
            simp [enrollAddress, hget, Ipam.Allocator.allocate_of_exhausted hfree]
          rw [hrun]
          exact .idle Response.not_grants_refused
      | some ip =>
          have hrun : (enrollAddress cfg claims req pub expiry tenantID).run exec ω' s =
              (enrollPeer cfg claims req pub expiry tenantID ip).run exec ω'
                { s with
                  alloc := { s.alloc with used := insert (text ip) s.alloc.used } } := by
            simp [enrollAddress, hget, Ipam.Allocator.allocate_of_free hfree]
          rw [hrun]
          cases hok : ω.addOk.head with
          | false =>
              -- The address goes back at once: what was taken was not in use before.
              rw [enrollPeer_failed _ _ _ _ _ _ _ _ (hadd ▸ hok)]
              simp only [Ipam.Allocator.release,
                Finset.erase_insert (Ipam.Allocator.free_not_used hfree)]
              exact .idle Response.not_grants_refused
          | true =>
              obtain ⟨hafter, hgrants⟩ :=
                enrollPeer_ok cfg claims req pub expiry tenantID ip
                  { s with alloc := { s.alloc with used := insert (text ip) s.alloc.used } }
                  (hadd ▸ hok)
              rw [hafter]
              exact .assign hadm hget hfree hok _ hgrants

theorem heartbeat_effect (body : Except String HeartbeatRequest) :
    Effect cfg ω s (.heartbeat claims body) ((Call.heartbeat claims body).response cfg ω s)
      ((Call.heartbeat claims body).after cfg ω s) := by
  cases body with
  | error msg => exact .of_unchanged ⟨Response.not_grants_refused, rfl⟩
  | ok req =>
      cases hget : s.store.get req.publicKey with
      | none =>
          apply Effect.of_unchanged
          simp [Call.program, handleHeartbeat, hget]
      | some peer =>
          by_cases hown : peer.subject = claims.subject
          · cases hmember : s.tenants.isMember peer.tenant claims.tenancy with
            | none =>
                apply Effect.of_unchanged
                simp [Call.program, handleHeartbeat, hget, hown, hmember]
            | some member =>
                cases member with
                | false =>
                    apply Effect.of_unchanged
                    simp [Call.program, handleHeartbeat, hget, hown, hmember]
                | true =>
                    obtain ⟨answer, clock, hreg, hleased⟩ :=
                      run_registered cfg claims s ω req.publicKey
                    cases answer with
                    | none =>
                        apply Effect.of_unchanged
                        simp [Call.program, handleHeartbeat, hget, hown, hmember, run_bind,
                          hreg]
                    | some expiry =>
                        have hrun : (Call.program cfg (.heartbeat claims (.ok req))).run exec ω s =
                            (.renewed expiry, { ω with clock := clock },
                              { s with store := (s.store.renew req.publicKey expiry).2 }) := by
                          simp [Call.program, handleHeartbeat, hget, hown, hmember, run_bind, hreg]
                        rw [Call.response, Call.after, hrun]
                        exact .renew hget hown hmember (hleased expiry rfl)
          · apply Effect.of_unchanged
            simp [Call.program, handleHeartbeat, hget, hown]

theorem enroll_effect (body : Except String EnrollRequest) :
    Effect cfg ω s (.enroll claims body) ((Call.enroll claims body).response cfg ω s)
      ((Call.enroll claims body).after cfg ω s) := by
  cases body with
  | error msg => exact .of_unchanged ⟨Response.not_grants_refused, rfl⟩
  | ok req =>
      cases hkey : parseKey req.publicKey with
      | error msg =>
          apply Effect.of_unchanged
          simp [Call.program, handleEnroll, hkey]
      | ok pub =>
          obtain ⟨answer, clock, hreg, hleased⟩ :=
            run_registered cfg claims s ω req.publicKey
          cases answer with
          | none =>
              apply Effect.of_unchanged
              simp [Call.program, handleEnroll, hkey, run_bind, hreg]
          | some expiry =>
              cases hpick : pickTenant req.tenant (s.tenants.for claims.tenancy) with
              | panicked =>
                  apply Effect.of_unchanged
                  simp [Call.program, handleEnroll, hkey, run_bind, hreg, chooseTenant, hpick]
              | refused status code msg =>
                  apply Effect.of_unchanged
                  simp [Call.program, handleEnroll, hkey, run_bind, hreg, chooseTenant, hpick]
              | chosen tenantID =>
                  have hadm : Admitted cfg s ω.clock claims req pub expiry tenantID :=
                    ⟨hkey, hleased expiry rfl, hpick⟩
                  have hrun : (Call.program cfg (.enroll claims (.ok req))).run exec ω s =
                      (enrollAddress cfg claims req pub expiry tenantID).run exec
                        { ω with clock := clock } s := by
                    simp [Call.program, handleEnroll, hkey, run_bind, hreg, chooseTenant, hpick]
                  rw [Call.response, Call.after, hrun]
                  exact enrollAddress_effect hadm rfl

theorem deregister_effect (body : Except String DeregisterRequest) :
    Effect cfg ω s (.deregister claims body) ((Call.deregister claims body).response cfg ω s)
      ((Call.deregister claims body).after cfg ω s) := by
  cases body with
  | error msg => exact .of_unchanged ⟨Response.not_grants_refused, rfl⟩
  | ok req =>
      cases hget : s.store.get req.publicKey with
      | none =>
          apply Effect.of_unchanged
          simp [Call.program, handleDeregister, hget]
      | some peer =>
          by_cases hown : peer.subject = claims.subject
          · obtain ⟨hresp, hafter⟩ :
                (Call.deregister claims (.ok req)).response cfg ω s = .noContent ∧
                (Call.deregister claims (.ok req)).after cfg ω s =
                  s.drop peer ω.removeOk.head := by
              have hdrop := run_dropPeer s ω peer
              rw [Store.key_of_get hget] at hdrop
              simp [Call.response, Call.after, Call.program, handleDeregister, hget, hown,
                run_bind, hdrop]
            have hdropped : (Call.deregister claims (.ok req)).dropped ω s = [peer] := by
              simp [Call.dropped, hget, hown]
            have h : Effect cfg ω s (.deregister claims (.ok req)) .noContent
                (s.dropAll ((Call.deregister claims (.ok req)).dropped ω s) ω.removeOk) :=
              .drop Response.not_grants_noContent
            rw [hdropped] at h
            rw [hresp, hafter]
            exact h
          · apply Effect.of_unchanged
            simp [Call.program, handleDeregister, hget, hown]

theorem serve_refresh (cfg : Config) (s : Server) (l : KeyList) (ω : Oracle) :
    s.serve cfg (.refresh (.ok l), ω) = { s with registry := s.registry.install l } := rfl

theorem serve_reconcile (cfg : Config) (s : Server) (allowed : Allowed) (ω : Oracle) :
    s.serve cfg (.reconcile allowed, ω) =
      s.dropAll ((Call.reconcile allowed).dropped ω s) ω.removeOk :=
  (run_reconcileLoop s ω allowed (ω.order.walk s.store.list)).2

/-- What every call does is one of the effects. -/
theorem call_effect (cfg : Config) (ω : Oracle) (s : Server) (c : Call) :
    Effect cfg ω s c (c.response cfg ω s) (c.after cfg ω s) := by
  cases c with
  | enroll claims body => exact enroll_effect body
  | heartbeat claims body => exact heartbeat_effect body
  | deregister claims body => exact deregister_effect body
  | reapExpired =>
      obtain ⟨hr, hs⟩ := run_reapLoop s { ω with clock := ω.clock.tail }
        (ω.order.walk (s.store.expired ω.clock.head))
      have hresp : Call.reapExpired.response cfg ω s = .finished := hr
      have hafter : Call.reapExpired.after cfg ω s =
        s.dropAll (Call.reapExpired.dropped ω s) ω.removeOk := hs
      rw [hresp, hafter]
      exact .drop Response.not_grants_finished
  | reconcile allowed =>
      have hresp : (Call.reconcile allowed).response cfg ω s = .finished :=
        (run_reconcileLoop s ω allowed (ω.order.walk s.store.list)).1
      have hafter : (Call.reconcile allowed).after cfg ω s =
        s.dropAll ((Call.reconcile allowed).dropped ω s) ω.removeOk :=
        serve_reconcile cfg s allowed ω
      rw [hresp, hafter]
      exact .drop Response.not_grants_finished
  | refresh fetched =>
      cases fetched with
      | error msg => exact .of_unchanged ⟨Response.not_grants_finished, rfl⟩
      | ok l => exact .install Response.not_grants_finished
  | createTenant t => exact .tenants (fun h => h.create t) Response.not_grants_finished
  | updateTenant id inp => exact .tenants (fun h => h.update id inp) Response.not_grants_finished
  | deleteTenant id => exact .tenants (fun h => h.delete id) Response.not_grants_finished

/-- A served call leaves the server as one of its effects. -/
theorem exists_effect (cfg : Config) (ω : Oracle) (s : Server) (c : Call) :
    ∃ r s', s.serve cfg (c, ω) = s' ∧ Effect cfg ω s c r s' :=
  ⟨_, _, rfl, call_effect cfg ω s c⟩

theorem Session.exists_effect (cfg : Config) (ω : Oracle) (s : Server) (log : List Event)
    (c : Call) :
    ∃ r s', Session.serve cfg ⟨s, log⟩ (c, ω) = ⟨s', ⟨c, ω, s, r⟩ :: log⟩ ∧
      Effect cfg ω s c r s' :=
  ⟨_, _, rfl, call_effect cfg ω s c⟩

end Calls

end Claimward.Api
