import Claimward.Library.Program
import Claimward.Peers.Registry
import Claimward.Tenant.Tenants
import Claimward.Wg.Device

/-!
# The state of the server and its atomic actions

The server holds five objects: the address pool, the store of enrolled peers,
the WireGuard device, the registry of keys and the tenants. Every call that
one of them serves under its own lock, and every call to the device, is one
atomic action. What the environment decides (clock readings, whether a device
call succeeds, in which order a map is walked) is read from an oracle.
-/

namespace Claimward.Api

open AtomicProgram Inet Wg Peers

/-- What the handlers read of the configuration. -/
structure Config where
  leaseTTL : Time
  wgEndpoint : String
  grpcEndpoint : String
  keepalive : Int
  serverPubKey : String
  /-- `UsePeers` was called: a key must be registered to be enrolled. -/
  usePeers : Bool

structure Server where
  alloc : Ipam.Allocator
  store : Store
  device : Device
  registry : Registry
  tenants : TenantStore

/-- One of the orders in which Go may walk a map. -/
structure MapOrder where
  walk : List Peer → List Peer
  perm : ∀ ps, (walk ps).Perm ps

/-- What the environment decides for one call. -/
structure Oracle where
  clock : Stream' Time
  addOk : Stream' Bool
  removeOk : Stream' Bool
  peersOk : Bool
  order : MapOrder

inductive Action where
  | now
  | storeGet (pubKey : String)
  | storePut (p : Peer)
  | storeDelete (pubKey : String)
  | storeRenew (pubKey : String) (expiry : Time)
  | storeExpired (now : Time)
  | storeList
  | allocate
  | release (ip : IP)
  | addPeer (pub : Key) (ip : IP)
  | removePeer (pub : Key)
  | devicePeers
  | lookup (key : String)
  | install (l : KeyList)
  | tenantsFor (m : Member)
  | isMember (id : String) (m : Member)
  | routes (tenantID : String)
  | createTenant (t : Tenant)
  | updateTenant (id : String) (inp : Tenant)
  | deleteTenant (id : String)

/-- Device calls answer whether they succeeded; `none` is a panic. -/
@[reducible] def Reply : Action → Type
  | .now => Time
  | .storeGet _ => Option Peer
  | .storePut _ => Unit
  | .storeDelete _ => Option Peer
  | .storeRenew _ _ => Bool
  | .storeExpired _ => List Peer
  | .storeList => List Peer
  | .allocate => Except String IP
  | .release _ => Unit
  | .addPeer _ _ => Bool
  | .removePeer _ => Bool
  | .devicePeers => Option (List Wg.Peer)
  | .lookup _ => Option Registration
  | .install _ => Unit
  | .tenantsFor _ => Option (List Tenant)
  | .isMember _ _ => Option Bool
  | .routes _ => Option RouteSet
  | .createTenant _ => Except TenantError Tenant
  | .updateTenant _ _ => Except TenantError Tenant
  | .deleteTenant _ => Except TenantError Unit

/-- Every action has a reply. -/
theorem nonempty_reply (a : Action) : Nonempty (Reply a) := by
  cases a with
  | now => exact ⟨(0 : Time)⟩
  | allocate => exact ⟨.error ""⟩
  | createTenant t => exact ⟨.error .idOrNameRequired⟩
  | updateTenant id t => exact ⟨.error .idOrNameRequired⟩
  | deleteTenant id => exact ⟨.error .cannotDeleteDefault⟩
  | _ => exact ⟨default⟩

abbrev interface : Interface := ⟨Action, Reply⟩

abbrev Handler (α : Type) := Program interface α

/-- Perform one atomic action. -/
abbrev perform (a : Action) : Handler (Reply a) := Program.call (I := interface) a

variable [GoText.CaseTables]

/-- The effect of one atomic action. -/
@[simp] def exec : Semantics interface Oracle Server
  | .now, ω, s => (ω.clock.head, { ω with clock := ω.clock.tail }, s)
  | .storeGet k, ω, s => (s.store.get k, ω, s)
  | .storePut p, ω, s => ((), ω, { s with store := s.store.put p })
  | .storeDelete k, ω, s => (s.store.get k, ω, { s with store := s.store.delete k })
  | .storeRenew k t, ω, s =>
      ((s.store.renew k t).1, ω, { s with store := (s.store.renew k t).2 })
  | .storeExpired t, ω, s => (ω.order.walk (s.store.expired t), ω, s)
  | .storeList, ω, s => (ω.order.walk s.store.list, ω, s)
  | .allocate, ω, s => (s.alloc.allocate.1, ω, { s with alloc := s.alloc.allocate.2 })
  | .release ip, ω, s => ((), ω, { s with alloc := s.alloc.release ip })
  | .addPeer pub ip, ω, s =>
      (ω.addOk.head, { ω with addOk := ω.addOk.tail },
        if ω.addOk.head then { s with device := s.device.addPeer pub ip } else s)
  | .removePeer pub, ω, s =>
      (ω.removeOk.head, { ω with removeOk := ω.removeOk.tail },
        if ω.removeOk.head then { s with device := s.device.removePeer pub } else s)
  | .devicePeers, ω, s => (if ω.peersOk then some s.device.peers else none, ω, s)
  | .lookup key, ω, s =>
      ((s.registry.lookup key ω.clock).1,
        { ω with clock := (s.registry.lookup key ω.clock).2 }, s)
  | .install l, ω, s => ((), ω, { s with registry := s.registry.install l })
  | .tenantsFor m, ω, s => (s.tenants.for m, ω, s)
  | .isMember id m, ω, s => (s.tenants.isMember id m, ω, s)
  | .routes id, ω, s => (s.tenants.routes id, ω, s)
  | .createTenant t, ω, s =>
      ((s.tenants.create t).1, ω, { s with tenants := (s.tenants.create t).2 })
  | .updateTenant id t, ω, s =>
      ((s.tenants.update id t).1, ω, { s with tenants := (s.tenants.update id t).2 })
  | .deleteTenant id, ω, s =>
      ((s.tenants.delete id).1, ω, { s with tenants := (s.tenants.delete id).2 })

/-- A device whose calls never fail. -/
structure Oracle.Reliable (ω : Oracle) : Prop where
  addOk : ∀ n, ω.addOk.get n = true
  removeOk : ∀ n, ω.removeOk.get n = true
  peersOk : ω.peersOk = true

/-- The server as it starts: an empty store beside what it is given. -/
def Server.start (alloc : Ipam.Allocator) (device : Device) (registry : Registry)
    (tenants : TenantStore) : Server :=
  ⟨alloc, .new, device, registry, tenants⟩

end Claimward.Api
