import Claimward.Api.Threads
import Claimward.Tenant.Atomic

/-!
# The stream of route updates

`internal/grpcsrv`: `Watch` finds the tenant of the caller's device, subscribes
to it, sends the current route set and then every set that its channel brings.
It runs beside the calls of the API; both are programs over one interface, which
adds to the actions of the API those of the subscriptions and of the stream.

A `select` in which nothing is ready answers that it waits, and is taken again.
How often the loop goes round is bounded by a number that every statement leaves
open, so a stream may be as long as one likes.
-/

namespace Claimward.Grpc

open AtomicProgram AtomicProgram.Program
open Api (Claims Response Server Oracle Handler Call Config)

/-- A stream: whose it is, the key it was opened for, and the tenant that the
entry of the key had. -/
structure StreamID where
  claims : Claims
  key : String
  tenant : String
  deriving DecidableEq

/-- What `Subscribe` returns. -/
structure Subscription where
  id : Int64
  channel : ℕ
  current : RouteSet
  deriving DecidableEq

/-- The case of the `select` that was taken, if one was ready. -/
inductive Selected where
  | done
  | received (set : RouteSet)
  | closed
  | waiting
  deriving DecidableEq

inductive Action where
  | api (a : Api.Action)
  | tenantGet (id : String)
  | subscribe (tenantID : String)
  | unsubscribe (tenantID : String) (id : Int64)
  | send (s : StreamID) (set : RouteSet)
  | select (channel : ℕ)

/-- `none` is a tenant that is not there, or for `Subscribe` a panic; a send
answers whether it succeeded. -/
@[reducible] def Reply : Action → Type
  | .api a => Api.Reply a
  | .tenantGet _ => Option Tenant
  | .subscribe _ => Option Subscription
  | .unsubscribe _ _ => Unit
  | .send _ _ => Bool
  | .select _ => Selected

abbrev interface : Interface := ⟨Action, Reply⟩

abbrev perform (a : Action) : Program interface (Reply a) := Program.call (I := interface) a

inductive Code where
  | unauthenticated
  | notFound
  | permissionDenied
  deriving DecidableEq

/-- How `Watch` ended. `streaming` is a stream that has not ended when the bound
on its loop is used up. -/
inductive WatchEnd where
  | ok
  | refused (code : Code) (message : String)
  | sendFailed
  | panicked
  | streaming
  deriving DecidableEq

/-- What a call of the API, the opening of a stream or a whole stream answers. -/
inductive Answer where
  | response (r : Response)
  | opened (s : StreamID) (sub : Subscription)
  | ended (e : WatchEnd)
  deriving DecidableEq

/-- The part of `Watch` that asks for the tenant of the entry and subscribes. -/
def openTenant (s : StreamID) : Program interface (Except WatchEnd (StreamID × Subscription)) := do
  match ← perform (.tenantGet s.tenant) with
  | none =>
      return .error (.refused .permissionDenied
        "you are not a member of the tenant this device enrolled into")
  | some _ =>
      match ← perform (.api (.isMember s.tenant s.claims.tenancy)) with
      | none => return .error .panicked
      | some false =>
          return .error (.refused .permissionDenied
            "you are not a member of the tenant this device enrolled into")
      | some true =>
          match ← perform (.subscribe s.tenant) with
          | none => return .error .panicked
          | some sub => return .ok (s, sub)

/-- `Watch` up to its first `Send`. -/
def openStream (claims : Option Claims) (key : String) :
    Program interface (Except WatchEnd (StreamID × Subscription)) :=
  match claims with
  | none => return .error (.refused .unauthenticated "no identity")
  | some claims => do
      match ← perform (.api (.storeGet key)) with
      | none => return .error (.refused .notFound "no enrollment of yours for this key")
      | some p =>
          if p.subject ≠ claims.subject then
            return .error (.refused .notFound "no enrollment of yours for this key")
          else openTenant ⟨claims, key, p.tenant⟩

/-- Return from `Watch`, with the deferred `Unsubscribe`. -/
def leave (s : StreamID) (sub : Subscription) (e : WatchEnd) : Program interface Answer := do
  perform (.unsubscribe s.tenant sub.id)
  return .ended e

/-- The loop of `Watch`, at most so many times. -/
def watchLoop (s : StreamID) (sub : Subscription) : ℕ → Program interface Answer
  | 0 => return .ended .streaming
  | n + 1 => do
      match ← perform (.select sub.channel) with
      | .done => leave s sub .ok
      | .closed => leave s sub .ok
      | .waiting => watchLoop s sub n
      | .received set =>
          if ← perform (.send s set) then watchLoop s sub n
          else leave s sub .sendFailed

/-- `Watch` once it is subscribed. -/
def stream (s : StreamID) (sub : Subscription) (n : ℕ) : Program interface Answer := do
  if ← perform (.send s sub.current) then watchLoop s sub n
  else leave s sub .sendFailed

def watch (claims : Option Claims) (key : String) (n : ℕ) : Program interface Answer := do
  match ← openStream claims key with
  | .error e => return .ended e
  | .ok (s, sub) => stream s sub n

/-- The opening of a stream alone. -/
def opening (claims : Option Claims) (key : String) : Program interface Answer := do
  match ← openStream claims key with
  | .error e => return .ended e
  | .ok (s, sub) => return .opened s sub

section Shape

variable (k : StreamID → Subscription → Program interface Answer)

/-- Go on with the stream if it is open. -/
def continueWith : Except WatchEnd (StreamID × Subscription) → Program interface Answer
  | .error e => return .ended e
  | .ok (s, sub) => k s sub

/-- What `Watch` does once it has asked for the membership. -/
def afterMember (s : StreamID) : Option Bool → Program interface Answer
  | none => return .ended .panicked
  | some false =>
      return .ended (.refused .permissionDenied
        "you are not a member of the tenant this device enrolled into")
  | some true => do
      match ← perform (.subscribe s.tenant) with
      | none => return .ended .panicked
      | some sub => k s sub

/-- What `Watch` does once it has read the entry. -/
def afterEntry (s : StreamID) : Program interface Answer := do
  match ← perform (.tenantGet s.tenant) with
  | none =>
      return .ended (.refused .permissionDenied
        "you are not a member of the tenant this device enrolled into")
  | some _ => .act (.api (.isMember s.tenant s.claims.tenancy)) (afterMember k s)

theorem openTenant_bind (s : StreamID) :
    (openTenant s >>= continueWith k) = afterEntry k s := by
  refine congrArg (Program.act (I := interface) (.tenantGet s.tenant)) (funext fun t => ?_)
  cases t with
  | none => rfl
  | some t =>
      refine congrArg (Program.act (I := interface) (.api (.isMember s.tenant s.claims.tenancy)))
        (funext fun member => ?_)
      match member with
      | none => rfl
      | some false => rfl
      | some true =>
          refine congrArg (Program.act (I := interface) (.subscribe s.tenant))
            (funext fun sub => ?_)
          cases sub with
          | none => rfl
          | some sub => rfl

/-- `Watch` reads the entry of the key and goes on if that is the caller's. -/
theorem openStream_bind (claims : Claims) (key : String) :
    (openStream (some claims) key >>= continueWith k) =
      .act (.api (.storeGet key)) fun r : Option Peer => match r with
        | none => .ret (.ended (.refused .notFound "no enrollment of yours for this key"))
        | some p =>
            if p.subject ≠ claims.subject then
              .ret (.ended (.refused .notFound "no enrollment of yours for this key"))
            else afterEntry k ⟨claims, key, p.tenant⟩ := by
  refine congrArg (Program.act (I := interface) (.api (.storeGet key))) (funext fun r => ?_)
  cases r with
  | none => rfl
  | some p =>
      change ((if p.subject ≠ claims.subject then
          (.ret (.error (.refused .notFound "no enrollment of yours for this key")) :
            Program interface (Except WatchEnd (StreamID × Subscription)))
        else openTenant ⟨claims, key, p.tenant⟩) >>= _) = _
      by_cases hown : p.subject = claims.subject
      · simp only [hown, ne_eq, not_true_eq_false, if_false]
        exact openTenant_bind k _
      · simp only [ne_eq, hown, not_false_eq_true, if_true]
        rfl

theorem watch_eq_bind (claims : Option Claims) (key : String) (n : ℕ) :
    watch claims key n = (openStream claims key >>= continueWith fun s sub => stream s sub n) := rfl

theorem opening_eq_bind (claims : Option Claims) (key : String) :
    opening claims key =
      (openStream claims key >>= continueWith fun s sub => .ret (.opened s sub)) := rfl

end Shape

/-- A program of the API, as one over the larger interface. -/
def lift : Handler Response → Program interface Answer
  | .ret r => .ret (.response r)
  | .act a next => .act (.api a) fun r => lift (next r)

/-- The server of the API and the tenant store with its watchers. -/
structure Gateway where
  server : Server
  hub : Hub

/-- What the environment decides for one program: that of an API call, which
sends succeed, and at which `select` the context is done. -/
structure StreamOracle extends Oracle where
  sendOk : Stream' Bool
  contextDone : Stream' Bool

section Semantics

variable [GoText.CaseTables]

/-- The watchers after a whole call of the tenant store; a panic changes nothing. -/
def after (h : Hub) (c : HubCall) : Hub :=
  match h.atomically c with
  | .ok h' => h'
  | .error _ => h

/-- What an action of the API does to the watchers. -/
def follow (h : Hub) : Api.Action → Hub
  | .createTenant t => after h (.create t)
  | .updateTenant id inp => after h (.update id inp)
  | .deleteTenant id => after h (.delete id)
  | _ => h

/-- A new subscription, with the route set it starts from. -/
def subscribed (h : Hub) (tenantID : String) : Option Subscription :=
  (h.watched tenantID).map fun t => ⟨h.nextSub, h.made, t.2.routes⟩

/-- The first case of the `select` that is ready. -/
def selected (m : Mailbox RouteSet) : Selected :=
  match m.slot with
  | some set => .received set
  | none => if m.closed then .closed else .waiting

@[simp] def exec : Semantics interface StreamOracle Gateway
  | .api a, ω, g =>
      ((Api.exec a ω.toOracle g.server).1,
        { ω with toOracle := (Api.exec a ω.toOracle g.server).2.1 },
        ⟨(Api.exec a ω.toOracle g.server).2.2, follow g.hub a⟩)
  | .tenantGet id, ω, g => (g.server.tenants.tenants.lookup id, ω, g)
  | .subscribe id, ω, g =>
      (subscribed g.hub id, ω, { g with hub := after g.hub (.subscribe id) })
  | .unsubscribe id n, ω, g => ((), ω, { g with hub := after g.hub (.unsubscribe id n) })
  | .send _ _, ω, g => (ω.sendOk.head, { ω with sendOk := ω.sendOk.tail }, g)
  | .select c, ω, g =>
      if ω.contextDone.head then (.done, { ω with contextDone := ω.contextDone.tail }, g)
      else
        (selected (g.hub.box c), { ω with contextDone := ω.contextDone.tail },
          { g with hub := g.hub.receive c })

/-- The watchers watch the tenants of the server, and no call of the tenant store
is in progress. -/
structure Gateway.Synced (g : Gateway) : Prop where
  sound : g.hub.Sound
  free : g.hub.holder = none
  store : g.hub.store = g.server.tenants

/-- A whole call of the tenant store, by what it does to the tenants. -/
theorem after_spec {h : Hub} (hs : h.Sound) (hfree : h.holder = none) (c : HubCall) :
    (after h c).Sound ∧ (after h c).holder = none ∧ (after h c).store = c.onStore h.store := by
  obtain ⟨h', hcall, hs', hfree', hstore⟩ := hs.atomically hfree c
  rw [after, hcall]
  exact ⟨hs', hfree', hstore⟩

/-- A call of the tenant store and what it does to the watchers. -/
theorem Gateway.Synced.after {g : Gateway} (h : g.Synced) (c : HubCall) {server : Server}
    (htenants : server.tenants = c.onStore g.server.tenants) :
    Synced ⟨server, after g.hub c⟩ := by
  obtain ⟨hs, hfree, hstore⟩ := after_spec h.sound h.free c
  refine ⟨hs, hfree, ?_⟩
  rw [hstore, h.store, htenants]

theorem Gateway.Synced.exec {g : Gateway} (h : g.Synced) (a : Action) (ω : StreamOracle) :
    (exec a ω g).2.2.Synced := by
  cases a with
  | api a =>
      cases a with
      | createTenant t =>
          simp only [Grpc.exec, follow]
          apply h.after
          simp only [Api.exec, HubCall.onStore]
      | updateTenant id inp =>
          simp only [Grpc.exec, follow]
          apply h.after
          simp only [Api.exec, HubCall.onStore]
      | deleteTenant id =>
          simp only [Grpc.exec, follow]
          apply h.after
          simp only [Api.exec, HubCall.onStore]
      | _ =>
          simp only [Grpc.exec, follow]
          exact ⟨h.sound, h.free, h.store.trans (Api.tenants_exec _ _ id).symm⟩
  | subscribe id => exact h.after (.subscribe id) rfl
  | unsubscribe id n => exact h.after (.unsubscribe id n) rfl
  | select c =>
      simp only [Grpc.exec]
      split
      · exact h
      · exact ⟨h.sound.receive c, h.free, h.store⟩
  | _ => exact h

/-- The actions of streams leave the server of the API as it is. -/
theorem server_exec {a : Action} {ω : StreamOracle} {g : Gateway} :
    (exec a ω g).2.2.server = g.server ∨
      ∃ a', a = .api a' ∧ (exec a ω g).2.2.server = (Api.exec a' ω.toOracle g.server).2.2 := by
  cases a with
  | api a => exact Or.inr ⟨a, rfl, rfl⟩
  | select c =>
      simp only [exec]
      split
      · exact Or.inl rfl
      · exact Or.inl rfl
  | _ => exact Or.inl rfl

end Semantics

/-- The gateway and what is in progress on it: calls of the API and streams. -/
abbrev Streams := Pool interface StreamOracle Gateway Answer

abbrev StreamTurn := Move interface StreamOracle Answer

/-- Whatever is started is a call of the API or a stream. -/
def Starts (cfg : Config) : StreamTurn → Prop
  | .start _ p _ =>
      (∃ c : Call, p = lift (c.program cfg)) ∨ ∃ claims key n, p = watch claims key n
  | .advance _ => True

namespace Sample

open Api.Sample (key₁ config)

attribute [local instance] GoText.asciiTables

/-- Alice has enrolled a device. -/
def enrolled : Gateway :=
  ⟨Api.Sample.start.serve (config false)
      (Api.Sample.enroll "alice" key₁, Api.Sample.oracle true true),
    .new ["10.80.0.0/29"] []⟩

/-- Every call and send succeeds, and the client stays. -/
def oracle : StreamOracle :=
  { Api.Sample.oracle true true with sendOk := fun _ => true, contextDone := fun _ => false }

/-- Run a call of the API in a slot. -/
def request (slot : ℕ) (c : Api.Call) (n : ℕ) : List StreamTurn :=
  .start slot (lift (c.program (config false))) oracle :: List.replicate n (.advance slot)

def moved : Tenant :=
  { id := "", name := "Default", domains := [], groups := [], idps := [],
    allowedIPs := ["10.99.0.0/16"], dns := [], serial := 0 }

end Sample

end Claimward.Grpc
