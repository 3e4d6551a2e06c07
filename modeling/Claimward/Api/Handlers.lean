import Claimward.Api.Server

/-!
# The operations of the server

`internal/api`, `internal/peers` and `internal/wg` as programs of atomic
actions: the three handlers, the reaper, the reconciliation with the
provider's list, the refresh of that list, and the sweep at startup.

A body that does not decode reaches a handler as an error, with its text.
Logging and the enrollment counter are left out: nothing here reads them.
-/

namespace Claimward.Api

open AtomicProgram AtomicProgram.Program Inet Wg Peers

/-- Who a verified token says is calling. -/
structure Claims where
  subject : String
  email : String
  emailVerified : Bool
  groups : List String
  idp : String
  deriving DecidableEq, Repr

def Claims.tenancy (c : Claims) : Member :=
  ⟨c.email, c.emailVerified, c.groups, c.idp⟩

structure EnrollRequest where
  publicKey : String
  device : DeviceInfo
  tenant : String
  deriving DecidableEq, Repr

structure HeartbeatRequest where
  publicKey : String
  deriving DecidableEq, Repr

structure DeregisterRequest where
  publicKey : String
  deriving DecidableEq, Repr

structure EnrollResponse where
  assignedIP : String
  serverPublicKey : String
  endpoint : String
  allowedIPs : List String
  dns : List String
  grpcEndpoint : String
  persistentKeepalive : Int
  leaseExpiresAt : Time
  deriving DecidableEq, Repr

/-- The answer to a request. `finished` ends an operation that answers nobody,
`aborted` a request whose handler panicked. -/
inductive Response where
  | enrolled (r : EnrollResponse)
  | renewed (leaseExpiresAt : Time)
  | noContent
  | refused (status : ℕ) (code message : String)
  | finished
  | aborted
  deriving DecidableEq, Repr

/-- The tenant of an enrollment, its refusal, or a panic. -/
inductive TenantChoice where
  | chosen (id : String)
  | refused (status : ℕ) (code message : String)
  | panicked
  deriving DecidableEq, Repr

/-- What `registered` makes of a lookup: the latest the lease may run to. -/
def clampLease (claims : Claims) (lease : Time) : Option Registration → Option Time
  | none => none
  | some p =>
      if p.subject ≠ claims.subject then none
      else some (if p.expires < lease then p.expires else lease)

/-- Whether the key may be enrolled by the caller, and until when. -/
def registered (cfg : Config) (key : String) (claims : Claims) (lease : Time) :
    Handler (Option Time) :=
  if cfg.usePeers then do
    let p ← perform (.lookup key)
    return clampLease claims lease p
  else return some lease

/-- What `chooseTenant` makes of the caller's tenants. -/
def pickTenant (asked : String) : Option (List Tenant) → TenantChoice
  | none => .panicked
  | some ts =>
      if asked = "" then
        match ts with
        | [t] => .chosen t.id
        | _ => .refused 409 "tenant_required"
            ("you belong to several tenants; choose one of: " ++
              ", ".intercalate (ts.map Tenant.id))
      else if ts.any fun t => t.id = asked then .chosen asked
      else .refused 403 "not_a_member" ("you are not a member of tenant " ++ asked)

def chooseTenant (asked : String) (claims : Claims) : Handler TenantChoice := do
  let ts ← perform (.tenantsFor claims.tenancy)
  return pickTenant asked ts

/-- The part of `handleEnroll` from `AddPeer` on. -/
def enrollPeer (cfg : Config) (claims : Claims) (req : EnrollRequest) (pub : Key)
    (expiry : Time) (tenantID : String) (ip : IP) : Handler Response := do
  if ← perform (.addPeer pub ip) then
    let enrolledAt ← perform .now
    perform (.storePut
      { publicKey := req.publicKey, subject := claims.subject, email := claims.email,
        ip := ip, device := req.device, enrolledAt := enrolledAt, leaseExpiry := expiry,
        tenant := tenantID })
    match ← perform (.routes tenantID) with
    | none => return .aborted
    | some rs =>
        return .enrolled
          { assignedIP := text ip ++ "/32", serverPublicKey := cfg.serverPubKey,
            endpoint := cfg.wgEndpoint, allowedIPs := rs.allowedIPs, dns := rs.dns,
            grpcEndpoint := cfg.grpcEndpoint, persistentKeepalive := cfg.keepalive,
            leaseExpiresAt := expiry }
  else
    perform (.release ip)
    return .refused 500 "gateway_error" "could not program gateway"

/-- The part of `handleEnroll` that reuses the assignment of a key already
enrolled or takes a new address. -/
def enrollAddress (cfg : Config) (claims : Claims) (req : EnrollRequest) (pub : Key)
    (expiry : Time) (tenantID : String) : Handler Response := do
  match ← perform (.storeGet req.publicKey) with
  | some existing =>
      if existing.subject ≠ claims.subject then
        return .refused 409 "key_taken" "this key is enrolled by another user"
      else enrollPeer cfg claims req pub expiry tenantID existing.ip
  | none =>
      match ← perform .allocate with
      | .error msg => return .refused 503 "pool_exhausted" msg
      | .ok ip => enrollPeer cfg claims req pub expiry tenantID ip

def handleEnroll (cfg : Config) (claims : Claims) (body : Except String EnrollRequest) :
    Handler Response :=
  match body with
  | .error msg => return .refused 400 "bad_request" msg
  | .ok req =>
      match parseKey req.publicKey with
      | .error msg => return .refused 400 "bad_public_key" msg
      | .ok pub => do
          let now ← perform .now
          match ← registered cfg req.publicKey claims (now + cfg.leaseTTL) with
          | none =>
              return .refused 403 "key_not_registered"
                "register this device's key with the identity provider first"
          | some expiry =>
              match ← chooseTenant req.tenant claims with
              | .panicked => return .aborted
              | .refused status code msg => return .refused status code msg
              | .chosen tenantID => enrollAddress cfg claims req pub expiry tenantID

def handleHeartbeat (cfg : Config) (claims : Claims) (body : Except String HeartbeatRequest) :
    Handler Response :=
  match body with
  | .error msg => return .refused 400 "bad_request" msg
  | .ok req => do
      match ← perform (.storeGet req.publicKey) with
      | none => return .refused 404 "not_enrolled" "no active enrollment for this key"
      | some peer =>
          if peer.subject ≠ claims.subject then
            return .refused 404 "not_enrolled" "no active enrollment for this key"
          else
            match ← perform (.isMember peer.tenant claims.tenancy) with
            | none => return .aborted
            | some false =>
                return .refused 403 "not_a_member" "you are no longer a member of this tenant"
            | some true =>
                let now ← perform .now
                match ← registered cfg req.publicKey claims (now + cfg.leaseTTL) with
                | none =>
                    return .refused 403 "key_not_registered"
                      "this device's key is no longer registered with the identity provider"
                | some expiry =>
                    let _ ← perform (.storeRenew req.publicKey expiry)
                    return .renewed expiry

/-- The steps by which every removal takes a peer away: off the device if its
key parses, out of the store, its address back to the pool. Whether the device
call succeeds is not looked at. -/
def dropPeer (key : String) (ip : IP) : Handler Unit := do
  match parseKey key with
  | .ok pub => let _ ← perform (.removePeer pub)
  | .error _ => pure ()
  let _ ← perform (.storeDelete key)
  perform (.release ip)

def handleDeregister (claims : Claims) (body : Except String DeregisterRequest) :
    Handler Response :=
  match body with
  | .error msg => return .refused 400 "bad_request" msg
  | .ok req => do
      match ← perform (.storeGet req.publicKey) with
      | none => return .noContent
      | some peer =>
          if peer.subject ≠ claims.subject then
            return .refused 403 "not_owner" "this key belongs to another user"
          else
            dropPeer req.publicKey peer.ip
            return .noContent

/-- The loop of `ReapExpired` over the snapshot of expired peers. -/
def reapLoop : List Peer → Handler Response
  | [] => return .finished
  | p :: rest => do
      dropPeer p.publicKey p.ip
      reapLoop rest

def reapExpired : Handler Response := do
  let now ← perform .now
  let ps ← perform (.storeExpired now)
  reapLoop ps

/-- The loop of `Reconcile` over the snapshot of all peers. -/
def reconcileLoop (allowed : String → String → Handler Bool) : List Peer → Handler Response
  | [] => return .finished
  | p :: rest => do
      if ← allowed p.publicKey p.subject then reconcileLoop allowed rest
      else
        dropPeer p.publicKey p.ip
        reconcileLoop allowed rest

def reconcile (allowed : String → String → Handler Bool) : Handler Response := do
  let ps ← perform .storeList
  reconcileLoop allowed ps

/-- `Registry.Allowed`: whether the key is registered to the subject. -/
def registryAllowed (key subject : String) : Handler Bool := do
  let p ← perform (.lookup key)
  return p.any fun p => p.subject = subject

/-- `Registry.Refresh`, with what the source's `Fetch` returned. -/
def refresh (fetched : Except String KeyList) : Handler Response :=
  match fetched with
  | .error _ => return .finished
  | .ok l => do
      perform (.install l)
      return .finished

/-- The loop of `Sweep`: how many peers were removed, and whether every call
succeeded. -/
def sweepLoop (pool : IPNet) : List Wg.Peer → ℕ → Handler (ℕ × Bool)
  | [], removed => return (removed, true)
  | p :: rest, removed =>
      if ours p.allowedIPs pool then do
        if ← perform (.removePeer p.publicKey) then sweepLoop pool rest (removed + 1)
        else return (removed, false)
      else sweepLoop pool rest removed

def sweep (pool : IPNet) : Handler (ℕ × Bool) := do
  match ← perform .devicePeers with
  | none => return (0, false)
  | some ps => sweepLoop pool ps 0

end Claimward.Api
