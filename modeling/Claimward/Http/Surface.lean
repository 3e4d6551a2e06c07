import Claimward.Grpc.Watch
import Claimward.Library.ServeMux
import Claimward.Tenant.Cleanup

/-!
# The HTTP surface

The handlers behind their two multiplexers: the root of `run`, with the metrics
and the admin pages, and that of `internal/api`. A request is routed, its
credentials are checked, its body is decoded, and it becomes a program of atomic
actions. A stream is opened through its interceptor.

What verifies a token, what decodes a body and the text of an error of the tenant
store are parameters. The counter of enrollments and the files of the admin pages
are left out.
-/

namespace Claimward.Http

open AtomicProgram GoText ServeMux
open Api (Claims EnrollRequest HeartbeatRequest DeregisterRequest)
open Grpc (Gateway StreamOracle)

inductive Action where
  | gateway (a : Grpc.Action)
  | tenantList
  | watcherCount

@[reducible] def Reply : Action → Type
  | .gateway a => Grpc.Reply a
  | .tenantList => List Tenant
  | .watcherCount => ℕ

abbrev interface : Interface := ⟨Action, Reply⟩

abbrev perform (a : Action) : Program interface (Reply a) := Program.call (I := interface) a

/-- What is answered. `page` is a file of the admin pages, `aborted` a request whose
handler panicked. -/
inductive Answer where
  | api (r : Api.Response)
  | stream (r : Grpc.Answer)
  | error (status : ℕ) (code message : String)
  | adminError (status : ℕ) (message : String)
  | text (status : ℕ) (message : String)
  | healthy
  | offered (tenants : List (String × String))
  | overview (tenants peers watchers : ℕ)
  | metrics (tenants peers watchers : ℕ) (serials : List (String × UInt64))
  | tenants (ts : List Tenant)
  | tenant (t : Tenant)
  | noContent
  | page
  | moved
  | methodNotAllowed
  | notFound
  | aborted

/-- Of the control characters only the tab may be in a header. -/
def isFieldChar (c : Char) : Bool := c = '\t' || (0x20 ≤ c.toNat && c.toNat ≠ 0x7f)

/-- A value of a header. `net/http` refuses a request with any other. -/
structure FieldValue where
  text : String
  valid : text.toList.all isFieldChar = true

/-- A request: its method, the segments of its path, the values of its
`Authorization` header, and its body. -/
structure Request (Body : Type) where
  method : String
  path : List String
  authorization : List FieldValue
  body : Body

/-- What the handlers are given, and how bodies are decoded. -/
structure Surface (Body : Type) where
  cfg : Api.Config
  verify : String → Except String Claims
  adminToken : String
  decodeEnroll : Body → Except String EnrollRequest
  decodeHeartbeat : Body → Except String HeartbeatRequest
  decodeDeregister : Body → Except String DeregisterRequest
  decodeTenant : Body → Except String Tenant
  errorText : TenantError → String

section Tokens

variable [CaseTables]

/-- The token of a header value, if it is a bearer token. -/
def bearer (value : String) : Option String :=
  if 7 < value.toList.length ∧ equalFold (String.ofList (value.toList.take 7)) "Bearer " then
    some (trimSpace (String.ofList (value.toList.drop 7)))
  else none

/-- The token of a request is that of its first value. -/
def bearerToken (authorization : List FieldValue) : String :=
  (bearer ((authorization.head?.map FieldValue.text).getD "")).getD ""

/-- The token of a stream is that of its first bearer value. -/
def bearerFromContext (authorization : List String) : String :=
  (authorization.findSome? bearer).getD ""

end Tokens

/-- The patterns of the API. -/
inductive Endpoint where
  | healthz
  | enroll
  | heartbeat
  | deregister
  | tenants
  deriving DecidableEq

def apiMux : Mux Endpoint :=
  [(exactly "GET" ["healthz"], .healthz),
    (exactly "POST" ["api", "v1", "enroll"], .enroll),
    (exactly "POST" ["api", "v1", "heartbeat"], .heartbeat),
    (exactly "POST" ["api", "v1", "deregister"], .deregister),
    (exactly "GET" ["api", "v1", "tenants"], .tenants)]

/-- The patterns of the root. -/
inductive Root where
  | overview
  | listTenants
  | createTenant
  | getTenant
  | updateTenant
  | deleteTenant
  | pages
  | disabled
  | metrics
  | api
  deriving DecidableEq

/-- One tenant of the admin API. -/
def oneTenant (method : String) : Pattern :=
  ⟨some method, [.literal "admin", .literal "api", .literal "tenants", .wildcard], false⟩

/-- Everything below the admin pages. -/
def adminTree : Pattern := ⟨none, [.literal "admin"], true⟩

/-- `Register`: without a token there is only a notice. -/
def adminMux (token : String) : Mux Root :=
  if token = "" then [(adminTree, .disabled)]
  else
    [(exactly "GET" ["admin", "api", "overview"], .overview),
      (exactly "GET" ["admin", "api", "tenants"], .listTenants),
      (exactly "POST" ["admin", "api", "tenants"], .createTenant),
      (oneTenant "GET", .getTenant), (oneTenant "PUT", .updateTenant),
      (oneTenant "DELETE", .deleteTenant), (adminTree, .pages)]

def rootMux (token : String) : Mux Root :=
  adminMux token ++ [(exactly "GET" ["metrics"], .metrics), (⟨none, [], true⟩, .api)]

def Answer.ofGrpc : Grpc.Answer → Answer
  | .response r => .api r
  | a => .stream a

/-- A program of the streams and of the API, as one over the larger interface. -/
def lift : Program Grpc.interface Grpc.Answer → Program interface Answer
  | .ret v => .ret (.ofGrpc v)
  | .act a next => .act (.gateway a) fun r => lift (next r)

section Handlers

variable [CaseTables] {Body : Type} (s : Surface Body) (r : Request Body)

/-- `authenticated`: go on with the claims of the token. -/
def authenticated (next : Claims → Program interface Answer) : Program interface Answer :=
  if bearerToken r.authorization = "" then
    return .error 401 "missing_token" "Authorization: Bearer <id_token> required"
  else
    match s.verify (bearerToken r.authorization) with
    | .error err => return .error 401 "invalid_token" err
    | .ok claims => next claims

def handleTenants (claims : Claims) : Program interface Answer := do
  match ← perform (.gateway (.api (.tenantsFor claims.tenancy))) with
  | none => return .aborted
  | some ts => return .offered (ts.map fun t => (t.id, t.name))

def handleAPI : Program interface Answer :=
  match apiMux.route r.method r.path with
  | .moved => return .moved
  | .methodNotAllowed => return .methodNotAllowed
  | .notFound => return .notFound
  | .handler endpoint _ =>
      match endpoint with
      | .healthz => return .healthy
      | .enroll => authenticated s r fun claims =>
          lift (Grpc.lift (Api.handleEnroll s.cfg claims (s.decodeEnroll r.body)))
      | .heartbeat => authenticated s r fun claims =>
          lift (Grpc.lift (Api.handleHeartbeat s.cfg claims (s.decodeHeartbeat r.body)))
      | .deregister => authenticated s r fun claims =>
          lift (Grpc.lift (Api.handleDeregister claims (s.decodeDeregister r.body)))
      | .tenants => authenticated s r handleTenants

/-- `guard`: go on if the token is the one that is configured. -/
def guard (next : Program interface Answer) : Program interface Answer :=
  if bearerToken r.authorization ≠ s.adminToken then return .adminError 401 "unauthorized"
  else next

/-- The three numbers of the overview and of the metrics. -/
def counts : Program interface (List Tenant × ℕ × ℕ) := do
  let tenants ← perform .tenantList
  let peers ← perform (.gateway (.api .storeList))
  let watchers ← perform .watcherCount
  return (tenants, peers.length, watchers)

def overview : Program interface Answer := do
  let (tenants, peers, watchers) ← counts
  return .overview tenants.length peers watchers

def metrics : Program interface Answer := do
  let (tenants, peers, watchers) ← counts
  return .metrics tenants.length peers watchers (tenants.map fun t => (t.id, t.serial))

def listTenants : Program interface Answer := do
  let ts ← perform .tenantList
  return .tenants ts

def getTenant (id : String) : Program interface Answer := do
  match ← perform (.gateway (.tenantGet id)) with
  | none => return .adminError 404 "tenant not found"
  | some t => return .tenant t

/-- The answer to a change of a tenant. -/
def changed : Except TenantError Tenant → Answer
  | .error err => .adminError 400 (s.errorText err)
  | .ok t => .tenant t

def createTenant : Program interface Answer :=
  match s.decodeTenant r.body with
  | .error err => return .adminError 400 err
  | .ok t => do
      let result ← perform (.gateway (.api (.createTenant t)))
      return changed s result

def updateTenant (id : String) : Program interface Answer :=
  match s.decodeTenant r.body with
  | .error err => return .adminError 400 err
  | .ok t => do
      let result ← perform (.gateway (.api (.updateTenant id t)))
      return changed s result

def deleteTenant (id : String) : Program interface Answer := do
  match ← perform (.gateway (.api (.deleteTenant id))) with
  | .error err => return .adminError 400 (s.errorText err)
  | .ok () => return .noContent

/-- The whole surface. -/
def handle : Program interface Answer :=
  match (rootMux s.adminToken).route r.method r.path with
  | .moved => return .moved
  | .methodNotAllowed => return .methodNotAllowed
  | .notFound => return .notFound
  | .handler root values =>
      match root with
      | .overview => guard s r overview
      | .listTenants => guard s r listTenants
      | .createTenant => guard s r (createTenant s r)
      | .getTenant => guard s r (getTenant (values.head?.getD ""))
      | .updateTenant => guard s r (updateTenant s r (values.head?.getD ""))
      | .deleteTenant => guard s r (deleteTenant s (values.head?.getD ""))
      | .pages => return .page
      | .disabled => return .text 503 "admin disabled (set ADMIN_TOKEN)"
      | .metrics => metrics
      | .api => handleAPI s r

/-- A stream behind `AuthStreamInterceptor`, with the values of its metadata. -/
def watch (authorization : List String) (key : String) (n : ℕ) : Program interface Answer :=
  if bearerFromContext authorization = "" then
    return .stream (.ended (.refused .unauthenticated "missing bearer token"))
  else
    match s.verify (bearerFromContext authorization) with
    | .error err => return .stream (.ended (.refused .unauthenticated ("invalid token: " ++ err)))
    | .ok claims => lift (Grpc.watch (some claims) key n)

@[simp] def exec : Semantics interface StreamOracle Gateway
  | .gateway a, ω, g => Grpc.exec a ω g
  | .tenantList, ω, g =>
      ((Table.values g.server.tenants.tenants).insertionSort fun a b => a.id ≤ b.id, ω, g)
  | .watcherCount, ω, g => (g.hub.watcherCount, ω, g)

end Handlers

end Claimward.Http
