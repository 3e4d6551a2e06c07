import Claimward.Api.Handlers
import Claimward.Library.Fallible
import Claimward.Ssfpoll.Requests
import Claimward.Startup.Load

/-!
# The start of the server

`run` of the command: what is done between reading the configuration and serving
requests. Every call to the outside (discovery, the device, the provider, the
listeners) is an action, and so is the start of every background task. The first
failure ends the start.
-/

namespace Claimward.Startup

open AtomicProgram AtomicProgram.Fallible Inet Wg Peers

/-- What the handlers and the streams work with. -/
structure Services where
  cfg : Api.Config
  alloc : Ipam.Allocator
  registry : Registry
  tenants : TenantStore
  adminToken : String

/-- How the HTTP server ended. -/
inductive Served where
  | closed
  | failed (err : String)

def Served.result : Served → Except String Unit
  | .closed => .ok ()
  | .failed err => .error err

inductive Action where
  | discover (issuer audience : String)
  | openDevice (name : String)
  | device (a : Api.Action)
  | newSource (issuer clientID clientSecret : String)
  | fetch
  | goPoller (cfg : Ssfpoll.Config) (interval : Duration)
  | goRegistry (interval : Duration)
  | listen (addr : String)
  | loadCertificate (certFile keyFile : String)
  | goServeGRPC (services : Services) (secure : Bool)
  | goReaper
  | serveHTTP (addr : String) (tls : Option (String × String)) (services : Services)

/-- A call of the gateway answers with the text of its error beside its result. -/
@[reducible] def Reply : Action → Type
  | .discover _ _ => Except String Unit
  | .openDevice _ => Except String Unit
  | .device a => Api.Reply a × String
  | .newSource _ _ _ => Except String Unit
  | .fetch => Except String KeyList
  | .goPoller _ _ => Unit
  | .goRegistry _ => Unit
  | .listen _ => Except String Unit
  | .loadCertificate _ _ => Except String Unit
  | .goServeGRPC _ _ => Unit
  | .goReaper => Unit
  | .serveHTTP _ _ _ => Served

abbrev interface : Interface := ⟨Action, Reply⟩

/-- A part of the start: it ends with a value or with the text of an error. -/
abbrev Launch (α : Type) := Fallible interface String Unit α

/-- What the start uses of Go and of the libraries: the verb `%q`, `net.ParseCIDR`
and the public key of a private key. -/
structure Codec where
  quote : String → String
  parseCIDR : String → Except String Ipam.Cidr
  publicKey : Key → Key

/-- Ask for an action that may fail. -/
def attempt {α : Type} (a : Action) (reply : Reply a → Except String α) : Launch α :=
  perform (I := interface) a >>= fun r => check (reply r)

/-- What `Sweep` says of an error: that of the listing is told apart. -/
def sweepError : Api.Action → String → String
  | .devicePeers, err => "list peers: " ++ err
  | _, err => err

/-- Calls of the gateway, made from here, with what is said of the error of the last. -/
def lift {α : Type} : Api.Handler α → String → Program interface (α × String)
  | .ret v, err => .ret (v, err)
  | .act a next, _ => .act (.device a) fun r => lift (next r.1) (sweepError a r.2)

section Run

variable (c : Codec)

def Fault.text : Fault → String
  | .privateKeyFile err => "read WG_PRIVATE_KEY_FILE: " ++ err
  | .secretFile err => "read GOAUTHN_GATEWAY_SECRET_FILE: " ++ err
  | .emptySecret file => "GOAUTHN_GATEWAY_SECRET_FILE " ++ file ++ " is empty"
  | .interval => "GOAUTHN_PEER_LIST_INTERVAL must be positive"
  | .invalidProvider provider =>
      "invalid AUTH_PROVIDER " ++ c.quote provider ++
        " (want \"github\", \"oidc\" or \"go-authn\")"
  | .missing names => "missing required config: " ++ ", ".intercalate names

def configuration (e : Environment) : Except String Config :=
  match load e with
  | .ok cfg => .ok cfg
  | .error f => .error (f.text c)

def privateKey (cfg : Config) : Except String Key :=
  match parseKey cfg.wgPrivateKey with
  | .ok priv => .ok priv
  | .error _ => .error "WG_PRIVATE_KEY is not a valid WireGuard key"

/-- The error of a failed discovery. -/
def discovered (who issuer : String) : Except String Unit → Except String Unit
  | .ok () => .ok ()
  | .error err => .error (who ++ " discovery for " ++ c.quote issuer ++ ": " ++ err)

/-- `auth.New`, as far as it asks the provider. -/
def newVerifier (cfg : Config) : Launch Unit :=
  if cfg.authProvider = "" ∨ cfg.authProvider = "github" then pure ()
  else if cfg.authProvider = "oidc" then
    attempt (.discover cfg.oidcIssuer cfg.oidcClientID) (discovered c "oidc" cfg.oidcIssuer)
  else if cfg.authProvider = "go-authn" then
    attempt (.discover cfg.oidcIssuer cfg.oidcClientID) (discovered c "go-authn" cfg.oidcIssuer)
  else
    throw ("unknown AUTH_PROVIDER " ++ c.quote cfg.authProvider ++
      " (want \"github\", \"oidc\" or \"go-authn\")")

/-- The pool and its allocator. -/
def newAllocator (cfg : Config) : Except String (IPNet × Ipam.Allocator) :=
  match c.parseCIDR cfg.vpnCIDR with
  | .error err => .error ("parse VPN CIDR " ++ c.quote cfg.vpnCIDR ++ ": " ++ err)
  | .ok cidr =>
      match Ipam.new cidr with
      | .error .onlyIPv4 => .error ("only IPv4 pools are supported: " ++ c.quote cfg.vpnCIDR)
      | .ok alloc => .ok (cidr.network, alloc)

/-- The device is opened. A gateway that only logs has none. -/
def newGateway (cfg : Config) : Launch Unit :=
  if cfg.dryRun then pure () else attempt (.openDevice cfg.wgInterface) id

/-- The sweep. A gateway that only logs cannot list peers, and nothing is removed.
The sweep ends at its first failure, so the error is that of the last call. -/
def sweepDevice (cfg : Config) (pool : IPNet) : Launch Unit :=
  if cfg.dryRun then pure ()
  else fun s => do
    let swept ← lift (Api.sweep pool) ""
    return (if swept.1.2 then .ok () else .error
      ("remove the peers a previous run left on " ++ cfg.wgInterface ++ ": " ++ swept.2), s)

/-- The registry with its first list, and the tasks that keep it up to date. -/
def connectRegistry (cfg : Config) : Launch Registry := do
  attempt (.newSource cfg.oidcIssuer cfg.gatewayClientID cfg.gatewaySecret) id
  let l ← attempt .fetch id
  if cfg.ssf then
    perform (I := interface)
      (.goPoller (.new cfg.oidcIssuer cfg.gatewayClientID cfg.gatewaySecret) cfg.ssfInterval)
  perform (I := interface) (.goRegistry cfg.peerListInterval)
  return Registry.new.install l

def newRegistry (cfg : Config) : Launch Registry :=
  if cfg.authProvider = "go-authn" then connectRegistry cfg else pure .new

def services (cfg : Config) (priv : Key) (alloc : Ipam.Allocator) (registry : Registry) :
    Services where
  cfg :=
    { leaseTTL := cfg.leaseTTL.toInt, wgEndpoint := cfg.wgEndpoint,
      grpcEndpoint := cfg.grpcEndpoint, keepalive := cfg.keepalive,
      serverPubKey := (c.publicKey priv).string, usePeers := cfg.authProvider = "go-authn" }
  alloc := alloc
  registry := registry
  tenants := .new cfg.pushRoutes cfg.dns
  adminToken := cfg.adminToken

/-- The error of a certificate that does not load. -/
def certified : Except String Unit → Except String Unit
  | .ok () => .ok ()
  | .error err => .error ("gRPC TLS: " ++ err)

/-- Whether the streams are served over TLS. -/
def grpcOptions (certFile keyFile : String) : Launch Bool :=
  if certFile = "" ∨ keyFile = "" then pure false
  else do
    attempt (.loadCertificate certFile keyFile) certified
    return true

/-- The files for TLS, if both are set. -/
def Config.tls (cfg : Config) : Option (String × String) :=
  if cfg.tlsCert ≠ "" ∧ cfg.tlsKey ≠ "" then some (cfg.tlsCert, cfg.tlsKey) else none

/-- The streams, the reaper and the API are started. -/
def serve (cfg : Config) (services : Services) : Launch Unit := do
  attempt (.listen cfg.grpcAddr) id
  let secure ← grpcOptions cfg.tlsCert cfg.tlsKey
  perform (I := interface) (.goServeGRPC services secure)
  perform (I := interface) .goReaper
  attempt (.serveHTTP cfg.listenAddr cfg.tls services) Served.result

def run (e : Environment) : Launch Unit := do
  let cfg ← check (configuration c e)
  let priv ← check (privateKey cfg)
  newVerifier c cfg
  let pool ← check (newAllocator c cfg)
  newGateway cfg
  sweepDevice cfg pool.1
  let registry ← newRegistry cfg
  serve cfg (services c cfg priv pool.2 registry)

end Run

end Claimward.Startup
