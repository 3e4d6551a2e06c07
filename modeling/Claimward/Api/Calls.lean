import Claimward.Api.Handlers
import Claimward.Library.Runs

/-!
# Complete calls

A call is one request, one round of a background task or one call of the
admin API, run alone from start to end. A session is the server after a list
of calls, with a log of what each call met and answered.
-/

namespace Claimward.Api

open AtomicProgram Inet Wg Peers Runs

/-- What `Reconcile` is given to decide with: the registry, as the server is
wired, or any predicate. -/
inductive Allowed where
  | registry
  | predicate (f : String → String → Bool)

def Allowed.decide : Allowed → String → String → Handler Bool
  | .registry => registryAllowed
  | .predicate f => fun key subject => return f key subject

inductive Call where
  | enroll (claims : Claims) (body : Except String EnrollRequest)
  | heartbeat (claims : Claims) (body : Except String HeartbeatRequest)
  | deregister (claims : Claims) (body : Except String DeregisterRequest)
  | reapExpired
  | reconcile (allowed : Allowed)
  | refresh (fetched : Except String KeyList)
  | createTenant (t : Tenant)
  | updateTenant (id : String) (inp : Tenant)
  | deleteTenant (id : String)

def Call.program (cfg : Config) : Call → Handler Response
  | .enroll claims body => handleEnroll cfg claims body
  | .heartbeat claims body => handleHeartbeat cfg claims body
  | .deregister claims body => handleDeregister claims body
  | .reapExpired => Api.reapExpired
  | .reconcile allowed => Api.reconcile allowed.decide
  | .refresh fetched => Api.refresh fetched
  | .createTenant t => do
      let _ ← perform (.createTenant t)
      return .finished
  | .updateTenant id inp => do
      let _ ← perform (.updateTenant id inp)
      return .finished
  | .deleteTenant id => do
      let _ ← perform (.deleteTenant id)
      return .finished

section Serving

variable [GoText.CaseTables] (cfg : Config)

/-- The answer of a call run alone, and the server it leaves. -/
def Call.response (c : Call) (ω : Oracle) (s : Server) : Response :=
  ((c.program cfg).run exec ω s).1

def Call.after (c : Call) (ω : Oracle) (s : Server) : Server :=
  ((c.program cfg).run exec ω s).2.2

/-- Serve one call, with what the environment decides for it. -/
def Server.serve (s : Server) (l : Call × Oracle) : Server := l.1.after cfg l.2 s

/-- The server after a list of calls. -/
abbrev Server.serveAll (s : Server) (calls : List (Call × Oracle)) : Server :=
  run (Server.serve cfg) s calls

/-- Every call of the list meets the condition on the server it is made to. -/
abbrev Server.Serves (ok : Server → Call × Oracle → Prop) (s : Server)
    (calls : List (Call × Oracle)) : Prop :=
  Admissible (Server.serve cfg) ok s calls

/-- A call, what the environment decided for it, and what it met and answered. -/
structure Event where
  call : Call
  oracle : Oracle
  before : Server
  response : Response

/-- The server and its past calls, the latest first. -/
structure Session where
  server : Server
  log : List Event

/-- Serve one call and write it down. -/
def Session.serve (σ : Session) (l : Call × Oracle) : Session where
  server := σ.server.serve cfg l
  log := ⟨l.1, l.2, σ.server, l.1.response cfg l.2 σ.server⟩ :: σ.log

def Session.new (s : Server) : Session := ⟨s, []⟩

/-- The session after a list of calls from a fresh server. -/
def Session.history (s : Server) (calls : List (Call × Oracle)) : Session :=
  run (Session.serve cfg) (.new s) calls

end Serving

/-! A small server to run calls on: the pool `10.80.0.0/29`, the default tenant
alone, and a clock that stands still. -/

namespace Sample

def config (usePeers : Bool) : Config :=
  { leaseTTL := 3600, wgEndpoint := "vpn:51820", grpcEndpoint := "vpn:9443", keepalive := 25,
    serverPubKey := "server", usePeers := usePeers }

def pool : Ipam.Cidr := ⟨[10, 80, 0, 0], 29, by decide⟩

def alloc : Ipam.Allocator :=
  ⟨pool.network, [10, 80, 0, 1], {"10.80.0.1"}⟩

theorem new_pool : Ipam.new pool = .ok alloc := rfl

def start : Server := .start alloc ∅ .new (.new ["10.80.0.0/29"] [])

/-- Every device call succeeds or fails as told. -/
def oracle (addOk removeOk : Bool) : Oracle :=
  { clock := fun _ => 0, addOk := fun _ => addOk, removeOk := fun _ => removeOk, peersOk := true,
    order := ⟨id, fun ps => .refl ps⟩ }

theorem reliable : (oracle true true).Reliable := ⟨fun _ => rfl, fun _ => rfl, rfl⟩

def claims (subject : String) : Claims :=
  { subject := subject, email := "", emailVerified := false, groups := [], idp := "" }

def enroll (subject key : String) : Call :=
  .enroll (claims subject) (.ok ⟨key, ⟨"laptop", "linux"⟩, ""⟩)

def heartbeat (subject key : String) : Call := .heartbeat (claims subject) (.ok ⟨key⟩)

def deregister (subject key : String) : Call := .deregister (claims subject) (.ok ⟨key⟩)

def key₁ : String := "AAAAAAAAAAAAAAAAAAAAAAAAAAAAAAAAAAAAAAAAAAA="

/-- Another spelling of `key₁`: the last two bits are not read. -/
def alias₁ : String := "AAAAAAAAAAAAAAAAAAAAAAAAAAAAAAAAAAAAAAAAAAB="

/-- What both spell. -/
def bytes₁ : Key := ⟨List.replicate 32 0, rfl⟩

/-- A list that registers `bytes₁`. -/
def list (subject : String) : KeyList := ⟨[⟨bytes₁, subject, 100⟩], 100⟩

def key₂ : String := "AQAAAAAAAAAAAAAAAAAAAAAAAAAAAAAAAAAAAAAAAAA="

def key₃ : String := "AgAAAAAAAAAAAAAAAAAAAAAAAAAAAAAAAAAAAAAAAAA="

end Sample

end Claimward.Api
