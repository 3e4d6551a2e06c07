import Claimward.Api.Calls

/-!
# What a complete call can do

A call does one of a few things to the server: nothing, an enrollment at a new
or at the old address, the release of an address after a failed repetition, a
renewal, the removal of some peers, a new list of keys or a change of the
tenants. `Effect` lists them with the reasons for each; every statement about
runs of calls is proved by going through its cases.
-/

namespace Claimward.Api

open AtomicProgram AtomicProgram.Program Inet Wg Peers

/-- Remove one peer, with the outcome of the device call if one is made. -/
def Server.drop (s : Server) (p : Peer) (ok : Bool) : Server :=
  { s with
    device :=
      match parseKey p.publicKey with
      | .ok pub => if ok then s.device.removePeer pub else s.device
      | .error _ => s.device
    store := s.store.delete p.publicKey
    alloc := s.alloc.release p.ip }

/-- What is left of the outcomes: one is used up for a key that parses. -/
def outcomesLeft (p : Peer) (oks : Stream' Bool) : Stream' Bool :=
  match parseKey p.publicKey with
  | .ok _ => oks.tail
  | .error _ => oks

/-- Remove peers one after the other. -/
def Server.dropAll (s : Server) : List Peer → Stream' Bool → Server
  | [], _ => s
  | p :: ps, oks => (s.drop p oks.head).dropAll ps (outcomesLeft p oks)

/-- What `Reconcile` is told of a key and a subject, and the clock readings
that are left. -/
def Allowed.ask (r : Registry) (key subject : String) (clock : Stream' Time) :
    Allowed → Bool × Stream' Time
  | .registry =>
      ((r.lookup key clock).1.any fun p => p.subject = subject, (r.lookup key clock).2)
  | .predicate f => (f key subject, clock)

/-- The peers of a snapshot that `Reconcile` does not find allowed. -/
def Allowed.rejected (allowed : Allowed) (r : Registry) : List Peer → Stream' Time → List Peer
  | [], _ => []
  | p :: rest, clock =>
      let answer := allowed.ask r p.publicKey p.subject clock
      if answer.1 then allowed.rejected r rest answer.2
      else p :: allowed.rejected r rest answer.2

/-- The peers a call removes, in the order of their removal. -/
def Call.dropped (ω : Oracle) (s : Server) : Call → List Peer
  | .deregister claims (.ok req) =>
      match s.store.get req.publicKey with
      | some p => if p.subject = claims.subject then [p] else []
      | none => []
  | .reapExpired => ω.order.walk (s.store.expired ω.clock.head)
  | .reconcile allowed => allowed.rejected s.registry (ω.order.walk s.store.list) ω.clock
  | _ => []

/-- The end of the lease that a response grants. -/
def Response.lease : Response → Option Time
  | .enrolled r => some r.leaseExpiresAt
  | .renewed expiry => some expiry
  | _ => none

/-- The response grants a lease. -/
def Response.Grants (r : Response) : Prop := r.lease ≠ none

instance : DecidablePred Response.Grants := fun r => inferInstanceAs (Decidable (r.lease ≠ none))

@[simp] theorem Response.not_grants_refused {status : ℕ} {code message : String} :
    ¬ (Response.refused status code message).Grants := fun h => h rfl

@[simp] theorem Response.not_grants_noContent : ¬ Response.noContent.Grants := fun h => h rfl

@[simp] theorem Response.not_grants_finished : ¬ Response.finished.Grants := fun h => h rfl

@[simp] theorem Response.not_grants_aborted : ¬ Response.aborted.Grants := fun h => h rfl

theorem Response.Grants.of_lease {r : Response} {expiry : Time} (h : r.lease = some expiry) :
    r.Grants := by
  rw [Response.Grants, h]
  exact Option.some_ne_none _

/-- What the registration check has found: the expiry it lets a lease have,
given the clock reading it is computed from and those still to come. -/
def Leased (cfg : Config) (r : Registry) (key : String) (claims : Claims)
    (clock : Stream' Time) (expiry : Time) : Prop :=
  if cfg.usePeers then
    clampLease claims (clock.head + cfg.leaseTTL) (r.lookup key clock.tail).1 = some expiry
  else expiry = clock.head + cfg.leaseTTL

/-- What a lease rests on when a registry is configured. -/
theorem Leased.registered {cfg : Config} {r : Registry} {key : String} {claims : Claims}
    {clock : Stream' Time} {expiry : Time} (hpeers : cfg.usePeers = true)
    (h : Leased cfg r key claims clock expiry) :
    ∃ l p, r.list = some l ∧ clock.tail.head < l.expires ∧ r.byKey.lookup key = some p ∧
      clock.tail.tail.head < p.expires ∧ p.subject = claims.subject ∧ expiry ≤ p.expires := by
  rw [Leased, if_pos hpeers] at h
  cases hlookup : (r.lookup key clock.tail).1 with
  | none => simp [hlookup, clampLease] at h
  | some p =>
      obtain ⟨l, hl, hlist, hkey, hp⟩ := Registry.lookup_eq_some hlookup
      simp only [hlookup, clampLease] at h
      split at h
      · exact absurd h (by simp)
      · rename_i hsubject
        refine ⟨l, p, hl, hlist, hkey, hp, not_not.mp hsubject, ?_⟩
        rw [← Option.some.inj h]
        split
        · exact le_refl _
        · rename_i hle
          exact not_lt.mp hle

theorem Leased.le_ttl {cfg : Config} {r : Registry} {key : String} {claims : Claims}
    {clock : Stream' Time} {expiry : Time} (h : Leased cfg r key claims clock expiry) :
    expiry ≤ clock.head + cfg.leaseTTL := by
  unfold Leased at h
  split at h
  · cases hlookup : (r.lookup key clock.tail).1 with
    | none => simp [hlookup, clampLease] at h
    | some p =>
        simp only [hlookup, clampLease] at h
        split at h
        · exact absurd h (by simp)
        · rw [← Option.some.inj h]
          split
          · rename_i hlt
            exact le_of_lt hlt
          · exact le_refl _
  · exact le_of_eq h

section Removals

variable {s : Server} {ps : List Peer} {oks : Stream' Bool}

@[simp] theorem dropAll_registry : (s.dropAll ps oks).registry = s.registry := by
  induction ps generalizing s oks with
  | nil => rfl
  | cons p rest ih => exact ih

@[simp] theorem dropAll_tenants : (s.dropAll ps oks).tenants = s.tenants := by
  induction ps generalizing s oks with
  | nil => rfl
  | cons p rest ih => exact ih

@[simp] theorem dropAll_network : (s.dropAll ps oks).alloc.network = s.alloc.network := by
  induction ps generalizing s oks with
  | nil => rfl
  | cons p rest ih => exact ih

@[simp] theorem dropAll_serverIP : (s.dropAll ps oks).alloc.serverIP = s.alloc.serverIP := by
  induction ps generalizing s oks with
  | nil => rfl
  | cons p rest ih => exact ih

/-- The entries of the removed keys are gone, all others are as they were. -/
theorem get_dropAll {k : String} : (s.dropAll ps oks).store.get k =
    if k ∈ ps.map Peer.publicKey then none else s.store.get k := by
  induction ps generalizing s oks with
  | nil => simp [Server.dropAll]
  | cons p rest ih =>
      rw [Server.dropAll, ih]
      by_cases hk : k = p.publicKey
      · simp [Server.drop, Store.get_delete, hk]
      · simp [Server.drop, Store.get_delete, hk]

theorem get_dropAll_eq_some {k : String} {p : Peer} :
    (s.dropAll ps oks).store.get k = some p ↔
      s.store.get k = some p ∧ k ∉ ps.map Peer.publicKey := by
  rw [get_dropAll]
  split
  · rename_i hk
    simp [hk]
  · rename_i hk
    simp [hk]

/-- The addresses of the removed peers are free, no other becomes so. -/
theorem mem_used_dropAll {x : String} : x ∈ (s.dropAll ps oks).alloc.used ↔
    x ∈ s.alloc.used ∧ ∀ p ∈ ps, text p.ip ≠ x := by
  induction ps generalizing s oks with
  | nil => simp [Server.dropAll]
  | cons p rest ih =>
      rw [Server.dropAll, ih]
      simp only [Server.drop, Ipam.Allocator.release_used, Finset.mem_erase,
        List.forall_mem_cons]
      tauto

/-- A key that no removed peer's text stands for keeps its place on the device. -/
theorem lookup_dropAll_of_ne {k : Key} (h : ∀ p ∈ ps, parseKey p.publicKey ≠ .ok k) :
    (s.dropAll ps oks).device.lookup k = s.device.lookup k := by
  induction ps generalizing s oks with
  | nil => rfl
  | cons p rest ih =>
      obtain ⟨hp, hrest⟩ := List.forall_mem_cons.mp h
      rw [Server.dropAll, ih hrest]
      simp only [Server.drop]
      split
      · rename_i pub hpub
        have hne : k ≠ pub := by
          rintro rfl
          exact hp hpub
        split
        · rw [Device.lookup_removePeer, if_neg hne]
        · rfl
      · rfl

/-- With a device that never fails, exactly the removed peers' keys are off it. -/
theorem lookup_dropAll {k : Key} (hoks : ∀ n, oks.get n = true) :
    (s.dropAll ps oks).device.lookup k =
      if ∃ p ∈ ps, parseKey p.publicKey = .ok k then none else s.device.lookup k := by
  induction ps generalizing s oks with
  | nil => simp [Server.dropAll]
  | cons p rest ih =>
      have hhead : oks.head = true := hoks 0
      have hleft : ∀ n, (outcomesLeft p oks).get n = true := by
        intro n
        unfold outcomesLeft
        split
        · exact hoks (n + 1)
        · exact hoks n
      rw [Server.dropAll, ih hleft]
      cases hkey : parseKey p.publicKey with
      | error msg => simp [Server.drop, hkey]
      | ok pub =>
          by_cases hk : k = pub
          · simp [Server.drop, hkey, hhead, Device.lookup_removePeer, hk]
          · have hne : ¬ pub = k := fun h => hk h.symm
            simp [Server.drop, hkey, hhead, Device.lookup_removePeer, hk, hne]

theorem rejected_sublist (allowed : Allowed) (r : Registry) (clock : Stream' Time) :
    (allowed.rejected r ps clock).Sublist ps := by
  induction ps generalizing clock with
  | nil => exact .slnil
  | cons p rest ih =>
      simp only [Allowed.rejected]
      split
      · exact (ih _).cons p
      · exact (ih _).cons_cons p

variable {c : Call} {ω : Oracle}

/-- What a call removes are entries of the store, as they stand there. -/
theorem get_of_mem_dropped {p : Peer} (h : p ∈ c.dropped ω s) :
    s.store.get p.publicKey = some p := by
  unfold Call.dropped at h
  split at h
  · split at h
    · rename_i q hget
      split at h
      · obtain rfl := List.mem_singleton.mp h
        rw [Store.key_of_get hget]
        exact hget
      · exact absurd h List.not_mem_nil
    · exact absurd h List.not_mem_nil
  · rw [(ω.order.perm _).mem_iff] at h
    exact (Store.mem_expired.mp h).1
  · have h := (rejected_sublist _ _ _).subset h
    rw [(ω.order.perm _).mem_iff] at h
    exact Store.mem_list.mp h
  · exact absurd h List.not_mem_nil

end Removals

variable [GoText.CaseTables]

/-- The checks an enrollment has passed when it asks the store for its key. -/
structure Admitted (cfg : Config) (s : Server) (clock : Stream' Time) (claims : Claims)
    (req : EnrollRequest) (pub : Key) (expiry : Time) (tenantID : String) : Prop where
  parsed : parseKey req.publicKey = .ok pub
  leased : Leased cfg s.registry req.publicKey claims clock expiry
  tenant : pickTenant req.tenant (s.tenants.for claims.tenancy) = .chosen tenantID

/-- The entry an enrollment writes. -/
def entry (claims : Claims) (req : EnrollRequest) (expiry : Time) (tenantID : String)
    (ip : IP) (enrolledAt : Time) : Peer :=
  { publicKey := req.publicKey, subject := claims.subject, email := claims.email, ip := ip,
    device := req.device, enrolledAt := enrolledAt, leaseExpiry := expiry, tenant := tenantID }

/-- What a call did to the server, and the reasons for it. -/
inductive Effect (cfg : Config) (ω : Oracle) (s : Server) : Call → Response → Server → Prop
  /-- Nothing changed and nothing was granted. -/
  | idle {c r} (hr : ¬ r.Grants) : Effect cfg ω s c r s
  /-- A key already enrolled by the caller was programmed again at its address. -/
  | reassign {claims req pub expiry tenantID existing r}
      (hadm : Admitted cfg s ω.clock claims req pub expiry tenantID)
      (hget : s.store.get req.publicKey = some existing)
      (hown : existing.subject = claims.subject) (hok : ω.addOk.head = true)
      (enrolledAt : Time) (hr : s.tenants.HasDefault → r.lease = some expiry) :
      Effect cfg ω s (.enroll claims (.ok req)) r
        { s with
          device := s.device.addPeer pub existing.ip
          store := s.store.put (entry claims req expiry tenantID existing.ip enrolledAt) }
  /-- The device refused to program such a key again, and its address was
  released although the entry keeps it. -/
  | disown {claims req pub expiry tenantID existing r}
      (hadm : Admitted cfg s ω.clock claims req pub expiry tenantID)
      (hget : s.store.get req.publicKey = some existing)
      (hown : existing.subject = claims.subject) (hfail : ω.addOk.head = false)
      (hr : ¬ r.Grants) :
      Effect cfg ω s (.enroll claims (.ok req)) r
        { s with alloc := s.alloc.release existing.ip }
  /-- A key was enrolled at a free address. -/
  | assign {claims req pub expiry tenantID ip r}
      (hadm : Admitted cfg s ω.clock claims req pub expiry tenantID)
      (hget : s.store.get req.publicKey = none) (hfree : s.alloc.free = some ip)
      (hok : ω.addOk.head = true) (enrolledAt : Time)
      (hr : s.tenants.HasDefault → r.lease = some expiry) :
      Effect cfg ω s (.enroll claims (.ok req)) r
        { s with
          alloc := { s.alloc with used := insert (text ip) s.alloc.used }
          device := s.device.addPeer pub ip
          store := s.store.put (entry claims req expiry tenantID ip enrolledAt) }
  /-- A lease was renewed. -/
  | renew {claims req existing expiry}
      (hget : s.store.get req.publicKey = some existing)
      (hown : existing.subject = claims.subject)
      (hmember : s.tenants.isMember existing.tenant claims.tenancy = some true)
      (hlease : Leased cfg s.registry req.publicKey claims ω.clock expiry) :
      Effect cfg ω s (.heartbeat claims (.ok req)) (.renewed expiry)
        { s with store := (s.store.renew req.publicKey expiry).2 }
  /-- Peers were removed. -/
  | drop {c r} (hr : ¬ r.Grants) :
      Effect cfg ω s c r (s.dropAll (c.dropped ω s) ω.removeOk)
  /-- A fetched list was installed. -/
  | install {l r} (hr : ¬ r.Grants) :
      Effect cfg ω s (.refresh (.ok l)) r { s with registry := s.registry.install l }
  /-- The admin API changed the tenants. -/
  | tenants {c r ts} (hkeep : s.tenants.HasDefault → ts.HasDefault) (hr : ¬ r.Grants) :
      Effect cfg ω s c r { s with tenants := ts }

end Claimward.Api
