import Claimward.Library.Mailbox
import Claimward.Library.Runs
import Claimward.Tenant.Tenants

/-!
# The watchers of the tenants

`internal/tenant` with the subscriptions: every tenant has its watchers by
number, each with a channel of route sets. `Update` sends the new set to the
tenant's watchers and `Delete` closes their channels, one after the other, while
the mutex of the store is held; the watchers receive without it.

A label is one call that takes the mutex, one step of the call that holds it, or
one receive. A call made while the mutex is held waits: its label does nothing.
-/

namespace Claimward

open Runs

/-- What the call that holds the mutex has still to do. -/
inductive Pending where
  /-- `broadcastLocked`: the channels to come, and the one that has been drained
  and not yet sent to. -/
  | broadcast (id : String) (set : RouteSet) (todo : List ℕ) (drained : Option ℕ)
  /-- The loop of `Delete`. -/
  | closing (id : String) (todo : List ℕ)
  deriving DecidableEq

/-- The store with its watchers. The subscriptions of a tenant name channels by
the order in which they were made. -/
structure Hub where
  store : TenantStore
  subs : String → Table Int64 ℕ
  nextSub : Int64
  box : ℕ → Mailbox RouteSet
  made : ℕ
  holder : Option Pending

/-- A panic, or a send that waits while the mutex is held. -/
inductive Fault where
  | channel (c : ℕ) (misuse : Mailbox.Misuse)
  | noTenant
  deriving DecidableEq, Repr

/-- The calls that take the mutex. -/
inductive HubCall where
  | create (t : Tenant)
  | update (id : String) (inp : Tenant)
  | delete (id : String)
  | subscribe (tenantID : String)
  | unsubscribe (tenantID : String) (id : Int64)

inductive HubLabel where
  | call (c : HubCall)
  /-- The holder of the mutex goes on, with the given channel where a loop over
  the subscriptions chooses one. -/
  | work (c : ℕ)
  | receive (c : ℕ)

namespace Hub

/-- A store seeded with the default tenant, and nobody watching. -/
def new (defaultAllowedIPs defaultDNS : List String) : Hub where
  store := .new defaultAllowedIPs defaultDNS
  subs _ := ∅
  nextSub := 0
  box _ := ⟨none, false, []⟩
  made := 0
  holder := none

/-- The tenant that a subscription to the ID is for: the default one if the ID
is unknown. -/
def watched (h : Hub) (tenantID : String) : Option (String × Tenant) :=
  match h.store.tenants.lookup tenantID with
  | some t => some (tenantID, t)
  | none => (h.store.tenants.lookup defaultID).map fun t => (defaultID, t)

/-- Do something to a channel. -/
def onChannel (h : Hub) (c : ℕ)
    (f : Mailbox RouteSet → Except Mailbox.Misuse (Mailbox RouteSet)) : Except Fault Hub :=
  match f (h.box c) with
  | .ok m => .ok { h with box := Function.update h.box c m }
  | .error misuse => .error (.channel c misuse)

def create [GoText.CaseTables] (h : Hub) (t : Tenant) : Hub :=
  match h.store.create t with
  | (.ok t, store) => { h with store := store, subs := Function.update h.subs t.id ∅ }
  | (.error _, _) => h

/-- `Update` up to its broadcast. -/
def update (h : Hub) (id : String) (inp : Tenant) : Hub :=
  match h.store.update id inp with
  | (.ok t, store) =>
      { h with
        store := store
        holder := some (.broadcast id t.routes (Table.values (h.subs id)) none) }
  | (.error _, _) => h

/-- `Delete` up to its loop. -/
def delete (h : Hub) (id : String) : Hub :=
  if id = defaultID then h
  else match h.store.tenants.lookup id with
    | none => h
    | some _ => { h with holder := some (.closing id (Table.values (h.subs id))) }

def subscribe (h : Hub) (tenantID : String) : Except Fault Hub :=
  match h.watched tenantID with
  | none => .error .noTenant
  | some (id, t) =>
      .ok { h with
        subs := Function.update h.subs id ((h.subs id).insert h.nextSub h.made)
        nextSub := h.nextSub + 1
        box := Function.update h.box h.made (.made t.routes)
        made := h.made + 1 }

def unsubscribe (h : Hub) (tenantID : String) (id : Int64) : Except Fault Hub :=
  match h.watched tenantID with
  | none => .error .noTenant
  | some (tenantID, _) =>
      match (h.subs tenantID).lookup id with
      | none => .ok h
      | some c =>
          { h with subs := Function.update h.subs tenantID ((h.subs tenantID).erase id) }.onChannel
            c Mailbox.close

/-- One step of the call that holds the mutex. -/
def work (h : Hub) (c : ℕ) : Except Fault Hub :=
  match h.holder with
  | none => .ok h
  | some (.broadcast id set todo (some c)) =>
      { h with holder := some (.broadcast id set todo none) }.onChannel c (·.send set)
  | some (.broadcast _ _ [] none) => .ok { h with holder := none }
  | some (.broadcast id set todo none) =>
      if c ∈ todo then
        .ok { h with
          box := Function.update h.box c (h.box c).drain
          holder := some (.broadcast id set (todo.erase c) (some c)) }
      else .ok h
  | some (.closing id []) =>
      .ok { h with
        store := (h.store.delete id).2
        subs := Function.update h.subs id ∅
        holder := none }
  | some (.closing id todo) =>
      if c ∈ todo then
        { h with holder := some (.closing id (todo.erase c)) }.onChannel c Mailbox.close
      else .ok h

def receive (h : Hub) (c : ℕ) : Hub :=
  { h with box := Function.update h.box c (h.box c).receive }

section Steps

variable [GoText.CaseTables]

/-- What a call does once it has the mutex. -/
def call (h : Hub) : HubCall → Except Fault Hub
  | .create t => .ok (h.create t)
  | .update id inp => .ok (h.update id inp)
  | .delete id => .ok (h.delete id)
  | .subscribe tenantID => h.subscribe tenantID
  | .unsubscribe tenantID id => h.unsubscribe tenantID id

def step (h : Hub) : HubLabel → Except Fault Hub
  | .call c => if h.holder.isSome then .ok h else h.call c
  | .work c => h.work c
  | .receive c => .ok (h.receive c)

section Frame

variable {h h' : Hub}

theorem store_create (h : Hub) (t : Tenant) :
    (h.create t).store = (h.store.create t).2 ∧ (h.create t).holder = h.holder := by
  unfold Hub.create
  split
  · rename_i heq
    exact ⟨(congrArg Prod.snd heq).symm, rfl⟩
  · rename_i heq
    rw [heq, TenantStore.create_eq_error heq]
    exact ⟨rfl, rfl⟩

omit [GoText.CaseTables]

theorem store_update (h : Hub) (id : String) (inp : Tenant) :
    (h.update id inp).store = (h.store.update id inp).2 := by
  unfold Hub.update
  split
  · rename_i heq
    exact (congrArg Prod.snd heq).symm
  · rename_i heq
    rw [heq, TenantStore.update_eq_error heq]

theorem store_delete (h : Hub) (id : String) : (h.delete id).store = h.store := by
  unfold Hub.delete
  split
  · rfl
  · split
    · rfl
    · rfl

theorem store_onChannel {c : ℕ}
    {f : Mailbox RouteSet → Except Mailbox.Misuse (Mailbox RouteSet)}
    (hstep : h.onChannel c f = .ok h') : h'.store = h.store ∧ h'.holder = h.holder := by
  unfold onChannel at hstep
  split at hstep
  · rw [← Except.ok.inj hstep]
    exact ⟨rfl, rfl⟩
  · exact absurd hstep (by simp)

theorem store_subscribe {tenantID : String} (hcall : h.subscribe tenantID = .ok h') :
    h'.store = h.store ∧ h'.holder = h.holder := by
  unfold Hub.subscribe at hcall
  split at hcall
  · exact absurd hcall (by simp)
  · rw [← Except.ok.inj hcall]
    exact ⟨rfl, rfl⟩

theorem store_unsubscribe {tenantID : String} {n : Int64}
    (hcall : h.unsubscribe tenantID n = .ok h') :
    h'.store = h.store ∧ h'.holder = h.holder := by
  unfold Hub.unsubscribe at hcall
  split at hcall
  · exact absurd hcall (by simp)
  · split at hcall
    · rw [← Except.ok.inj hcall]
      exact ⟨rfl, rfl⟩
    · have hframe := store_onChannel hcall
      exact hframe

/-- A tenant is gone when `Delete` has closed the channels. -/
theorem store_work {c : ℕ} (hwork : h.work c = .ok h') :
    h'.store = h.store ∨
      ∃ id, h.holder = some (.closing id []) ∧ h'.store = (h.store.delete id).2 := by
  unfold Hub.work at hwork
  split at hwork
  · exact Or.inl (by rw [← Except.ok.inj hwork])
  · exact Or.inl (store_onChannel hwork).1
  · exact Or.inl (by rw [← Except.ok.inj hwork])
  · split at hwork
    · exact Or.inl (by rw [← Except.ok.inj hwork])
    · exact Or.inl (by rw [← Except.ok.inj hwork])
  · rename_i id hholder
    rw [← Except.ok.inj hwork]
    exact Or.inr ⟨id, hholder, rfl⟩
  · split at hwork
    · exact Or.inl (store_onChannel hwork).1
    · exact Or.inl (by rw [← Except.ok.inj hwork])

end Frame

/-- A step does to the tenants what the store without watchers does, or nothing. -/
theorem store_step {h h' : Hub} {l : HubLabel} (hstep : h.step l = .ok h') :
    h'.store = h.store ∨
      (∃ t, l = .call (.create t) ∧ h'.store = (h.store.create t).2) ∨
      (∃ id inp, l = .call (.update id inp) ∧ h'.store = (h.store.update id inp).2) ∨
      ∃ id, h.holder = some (.closing id []) ∧ h'.store = (h.store.delete id).2 := by
  cases l with
  | call c =>
      simp only [step] at hstep
      split at hstep
      · rw [← Except.ok.inj hstep]
        exact Or.inl rfl
      · cases c with
        | create t =>
            rw [← Except.ok.inj hstep]
            exact Or.inr (Or.inl ⟨t, rfl, (h.store_create t).1⟩)
        | update id inp =>
            rw [← Except.ok.inj hstep]
            exact Or.inr (Or.inr (Or.inl ⟨id, inp, rfl, h.store_update id inp⟩))
        | delete id =>
            rw [← Except.ok.inj hstep]
            exact Or.inl (h.store_delete id)
        | subscribe tenantID => exact Or.inl (store_subscribe hstep).1
        | unsubscribe tenantID n => exact Or.inl (store_unsubscribe hstep).1
  | work c =>
      rcases store_work hstep with hsame | hgone
      · exact Or.inl hsame
      · exact Or.inr (Or.inr (Or.inr hgone))
  | receive c =>
      rw [← Except.ok.inj hstep]
      exact Or.inl rfl

/-- The store and its watchers after a list of labels, or the first fault. -/
abbrev run (h : Hub) (ls : List HubLabel) : Except Fault Hub := runFallible step h ls

end Steps

end Hub

end Claimward
