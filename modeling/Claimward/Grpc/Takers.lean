import Claimward.Grpc.Watch
import Claimward.Library.CheckThenAct
import Claimward.Api.Leases
import Claimward.Api.Rules

/-!
# Calls that give out the routes of a tenant

An enrollment and the opening of a stream take the routes of a tenant with one
call of the tenant store, after they have found with another that the caller
belongs to it, and after they have written or read an entry with that tenant.
-/

namespace Claimward.Grpc

open AtomicProgram AtomicProgram.Program
open Api (Claims Response Handler Config EnrollRequest pickTenant)

/-- The route set that an answer gives to the caller. -/
def Answer.gives : Answer → Option (List String × List String)
  | .response (.enrolled r) => some (r.allowedIPs, r.dns)
  | .opened _ sub => some (sub.current.allowedIPs, sub.current.dns)
  | _ => none

/-- The tenant whose routes the action takes. -/
def Action.takes : Action → Option String
  | .api (.routes id) => some id
  | .subscribe id => some id
  | _ => none

def TakesRoutes (id : String) (a : Action) : Prop := a.takes = some id

/-- The action finds out which tenants the caller belongs to. -/
def Action.AsksTenants : Action → Prop
  | .api (.tenantsFor _) => True
  | .api (.isMember _ _) => True
  | _ => False

/-- The member was found to belong to the tenant. -/
def FoundIn (m : Member) (id : String) : (a : Action) → Reply a → Prop
  | .api (.tenantsFor m'), r =>
      m' = m ∧ ∃ ts : List Tenant, r = some ts ∧ ∃ t ∈ ts, t.id = id
  | .api (.isMember id' m'), r => m' = m ∧ id' = id ∧ r = some true
  | _, _ => False

/-- The action reads or writes the entry of a key. -/
def Action.OnEntry : Action → Prop
  | .api (.storeGet _) => True
  | .api (.storePut _) => True
  | _ => False

/-- The entry of the key that was read or written has the tenant. -/
def EntryHas (key id : String) : (a : Action) → Reply a → Prop
  | .api (.storeGet k), r => k = key ∧ ∃ p : Peer, r = some p ∧ p.tenant = id
  | .api (.storePut p), _ => p.publicKey = key ∧ p.tenant = id
  | _, _ => False

/-- What the action replied is the route set. -/
def Took (routes : List String × List String) : (a : Action) → Reply a → Prop
  | .api (.routes _), r => ∃ rs : RouteSet, r = some rs ∧ (rs.allowedIPs, rs.dns) = routes
  | .subscribe _, r =>
      ∃ sub : Subscription, r = some sub ∧ (sub.current.allowedIPs, sub.current.dns) = routes
  | _, _ => False

/-- The program gives only a route set that it has taken with its last action. -/
def Faithful : Program interface Answer → Prop
  | .ret _ => True
  | .act a next => ∀ r,
      (∀ v routes, next r = .ret v → v.gives = some routes → Took routes a r) ∧ Faithful (next r)

/-- The action leaves the entries of the store as they are, or writes one. -/
def Action.SparesEntries : Action → Prop
  | .api (.storeDelete _) => False
  | .api (.storeRenew _ _) => False
  | _ => True

/-- The program gives only what it has taken, and has not given anything yet. -/
structure Honest (p : Program interface Answer) : Prop where
  faithful : Faithful p
  pending : ∀ v routes, p = .ret v → v.gives ≠ some routes

theorem honest_ret {v : Answer} (hv : v.gives = none) : Honest (.ret v) := by
  refine ⟨trivial, ?_⟩
  intro v' routes h
  obtain rfl := Program.ret.inj h
  simp [hv]

theorem honest_act {a : Action} {next : Reply a → Program interface Answer}
    (h : ∀ r, Honest (next r)) : Honest (.act a next) :=
  ⟨fun r => ⟨fun v routes hv hgives => absurd hgives ((h r).pending v routes hv),
    (h r).faithful⟩, nofun⟩

/-- The action that takes the routes, if what follows gives them out or nothing. -/
theorem honest_take {a : Action} {next : Reply a → Program interface Answer}
    (h : ∀ r, ∃ v, next r = .ret v ∧ ∀ routes, v.gives = some routes → Took routes a r) :
    Honest (.act a next) := by
  refine ⟨fun r => ?_, nofun⟩
  obtain ⟨v, heq, htook⟩ := h r
  rw [heq]
  refine ⟨?_, trivial⟩
  intro v' routes hv hgives
  obtain rfl := Program.ret.inj hv
  exact htook routes hgives

/-- A call that has not begun to give out routes: it finds the caller in a tenant
before it takes the tenant's routes, reads or writes an entry of the key with the
tenant before that, and gives what it has taken. -/
structure Taker (m : Member) (key : String) (p : Program interface Answer) : Prop where
  found : ∀ id, p.Unchecked Action.AsksTenants (TakesRoutes id) (FoundIn m id)
  entry : ∀ id, p.Unchecked Action.OnEntry (TakesRoutes id) (EntryHas key id)
  honest : Honest p
  spares : p.Only Action.SparesEntries

section Enrollment

variable {cfg : Config} {claims : Claims} {req : EnrollRequest} {pub : Wg.Key} {expiry : Time}
  {tenantID id : String} {ip : Inet.IP} {P check : Action → Prop}

theorem only_enrollPeer (hadd : ∀ pub ip, P (.api (.addPeer pub ip))) (hnow : P (.api .now))
    (hput : ∀ e, P (.api (.storePut e))) (hroutes : ∀ id, P (.api (.routes id)))
    (hrelease : ∀ ip, P (.api (.release ip))) :
    (lift (Api.enrollPeer cfg claims req pub expiry tenantID ip)).Only P := by
  refine ⟨hadd _ _, fun ok => ?_⟩
  cases ok with
  | true =>
      refine ⟨hnow, fun t => ⟨hput _, fun _ => ⟨hroutes _, fun rs => ?_⟩⟩⟩
      cases rs with
      | none => trivial
      | some rs => trivial
  | false => exact ⟨hrelease _, fun _ => trivial⟩

theorem mayTake_enrollPeer
    (h : (lift (Api.enrollPeer cfg claims req pub expiry tenantID ip)).MayBefore check
      (TakesRoutes id)) : id = tenantID := by
  rcases h with h | ⟨-, ok, h⟩
  · exact absurd h (by simp [TakesRoutes, Action.takes])
  · cases ok with
    | false =>
        rcases h with h | ⟨-, _, h⟩
        · exact absurd h (by simp [TakesRoutes, Action.takes])
        · exact h.elim
    | true =>
        rcases h with h | ⟨-, t, h⟩
        · exact absurd h (by simp [TakesRoutes, Action.takes])
        · rcases h with h | ⟨-, _, h⟩
          · exact absurd h (by simp [TakesRoutes, Action.takes])
          · rcases h with h | ⟨-, rs, h⟩
            · exact (Option.some.inj h).symm
            · cases rs with
              | none => exact h.elim
              | some rs => exact h.elim

/-- Between the address and the routes, the entry is written. -/
theorem unchecked_enrollPeer :
    (lift (Api.enrollPeer cfg claims req pub expiry tenantID ip)).Unchecked Action.OnEntry
      (TakesRoutes id) (EntryHas req.publicKey id) := by
  apply unchecked_act (by simp [TakesRoutes, Action.takes])
  intro ok
  cases ok with
  | false => exact unchecked_act (by simp [TakesRoutes, Action.takes]) fun _ => unchecked_ret _
  | true =>
      refine unchecked_act (by simp [TakesRoutes, Action.takes]) fun enrolledAt =>
        unchecked_check trivial (by simp [TakesRoutes, Action.takes]) fun _ =>
          ⟨fun h => ⟨rfl, ?_⟩, ?_⟩
      · rcases h with h | ⟨-, rs, h⟩
        · exact Option.some.inj h
        · cases rs with
          | none => exact h.elim
          | some rs => exact h.elim
      · intro rs
        cases rs with
        | none => exact ⟨fun h => h.elim, trivial⟩
        | some rs => exact ⟨fun h => h.elim, trivial⟩

theorem honest_enrollPeer :
    Honest (lift (Api.enrollPeer cfg claims req pub expiry tenantID ip)) := by
  apply honest_act
  intro ok
  cases ok with
  | false => exact honest_act fun _ => honest_ret rfl
  | true =>
      refine honest_act fun enrolledAt => honest_act fun _ => honest_take fun rs => ?_
      cases rs with
      | none => exact ⟨.response .aborted, rfl, fun routes h => absurd h (by simp [Answer.gives])⟩
      | some rs => exact ⟨_, rfl, fun routes h => ⟨rs, rfl, Option.some.inj h⟩⟩

theorem gives_response {r : Response} (h : ∀ e, r ≠ .enrolled e) :
    (Answer.response r).gives = none := by
  cases r with
  | enrolled e => exact absurd rfl (h e)
  | _ => rfl

theorem only_enrollAddress (hget : ∀ key, P (.api (.storeGet key))) (hallocate : P (.api .allocate))
    (hadd : ∀ pub ip, P (.api (.addPeer pub ip))) (hnow : P (.api .now))
    (hput : ∀ e, P (.api (.storePut e))) (hroutes : ∀ id, P (.api (.routes id)))
    (hrelease : ∀ ip, P (.api (.release ip))) :
    (lift (Api.enrollAddress cfg claims req pub expiry tenantID)).Only P := by
  apply Api.enrollAddress_rule (Q := fun p => (lift p).Only P)
  · exact fun _ _ _ => trivial
  · exact fun next ih => ⟨hget _, ih⟩
  · exact fun next ih => ⟨hallocate, ih⟩
  · exact fun ip => only_enrollPeer hadd hnow hput hroutes hrelease

theorem mayTake_enrollAddress
    (h : (lift (Api.enrollAddress cfg claims req pub expiry tenantID)).MayBefore check
      (TakesRoutes id)) : id = tenantID := by
  revert h
  apply Api.enrollAddress_rule (Q := fun p =>
    (lift p).MayBefore check (TakesRoutes id) → id = tenantID)
  · exact fun _ _ _ h => h.elim
  · rintro next ih (h | ⟨-, r, h⟩)
    · exact absurd h (by simp [TakesRoutes, Action.takes])
    · exact ih r h
  · rintro next ih (h | ⟨-, r, h⟩)
    · exact absurd h (by simp [TakesRoutes, Action.takes])
    · exact ih r h
  · exact fun ip h => mayTake_enrollPeer h

/-- From its lookup on, an enrollment writes the entry before it takes routes. -/
theorem unchecked_enrollAddress :
    (lift (Api.enrollAddress cfg claims req pub expiry tenantID)).Unchecked Action.OnEntry
      (TakesRoutes id) (EntryHas req.publicKey id) := by
  apply Api.enrollAddress_rule (Q := fun p =>
    (lift p).Unchecked Action.OnEntry (TakesRoutes id) (EntryHas req.publicKey id))
  · exact fun _ _ _ => unchecked_ret _
  · exact fun next ih => unchecked_act (by simp [TakesRoutes, Action.takes]) ih
  · exact fun next ih => unchecked_act (by simp [TakesRoutes, Action.takes]) ih
  · exact fun ip => unchecked_enrollPeer

/-- An enrollment asks for the caller's tenants before it takes routes. -/
theorem unchecked_handleEnroll :
    (lift (Api.handleEnroll cfg claims (.ok req))).Unchecked Action.AsksTenants (TakesRoutes id)
      (FoundIn claims.tenancy id) := by
  apply Api.handleEnroll_rule (Q := fun p =>
    (lift p).Unchecked Action.AsksTenants (TakesRoutes id) (FoundIn claims.tenancy id))
  · exact fun _ _ => unchecked_ret _
  · exact fun next ih => unchecked_act (by simp [TakesRoutes, Action.takes]) ih
  · exact fun key next ih => unchecked_act (by simp [TakesRoutes, Action.takes]) ih
  · intro req' pub expiry next _ _ hnext
    apply unchecked_check trivial (by simp [TakesRoutes, Action.takes])
    intro ts
    rcases hnext ts with ⟨r, -, heq⟩ | ⟨tenantID, hpick, heq⟩
    · rw [heq]
      exact ⟨fun h => h.elim, trivial⟩
    · rw [heq]
      constructor
      · intro h
        obtain rfl := mayTake_enrollAddress h
        exact ⟨rfl, Api.pickTenant_chosen hpick⟩
      · apply checked_of_only
        exact only_enrollAddress (fun _ h => h) (fun h => h) (fun _ _ h => h) (fun h => h)
          (fun _ h => h) (fun _ h => h) (fun _ h => h)

/-- An enrollment writes its entry before it takes routes. -/
theorem entry_handleEnroll :
    (lift (Api.handleEnroll cfg claims (.ok req))).Unchecked Action.OnEntry (TakesRoutes id)
      (EntryHas req.publicKey id) := by
  apply Api.handleEnroll_rule (Q := fun p =>
    (lift p).Unchecked Action.OnEntry (TakesRoutes id) (EntryHas req.publicKey id))
  · exact fun _ _ => unchecked_ret _
  · exact fun next ih => unchecked_act (by simp [TakesRoutes, Action.takes]) ih
  · exact fun key next ih => unchecked_act (by simp [TakesRoutes, Action.takes]) ih
  · rintro req' pub expiry next ⟨⟩ _ hnext
    apply unchecked_act (by simp [TakesRoutes, Action.takes])
    intro ts
    rcases hnext ts with ⟨r, -, heq⟩ | ⟨tenantID, -, heq⟩
    · rw [heq]
      exact unchecked_ret _
    · rw [heq]
      exact unchecked_enrollAddress

theorem honest_handleEnroll : Honest (lift (Api.handleEnroll cfg claims (.ok req))) := by
  apply Api.handleEnroll_rule (Q := fun p => Honest (lift p))
  · exact fun r hr => honest_ret (gives_response hr.ne_enrolled)
  · exact fun next ih => honest_act ih
  · exact fun key next ih => honest_act ih
  · intro req' pub expiry next _ _ hnext
    apply honest_act
    intro ts
    rcases hnext ts with ⟨r, hr, heq⟩ | ⟨tenantID, -, heq⟩
    · rw [heq]
      exact honest_ret (gives_response hr.ne_enrolled)
    · rw [heq]
      apply Api.enrollAddress_rule (Q := fun p => Honest (lift p))
      · exact fun _ _ _ => honest_ret rfl
      · exact fun next ih => honest_act ih
      · exact fun next ih => honest_act ih
      · exact fun ip => honest_enrollPeer

theorem spares_handleEnroll :
    (lift (Api.handleEnroll cfg claims (.ok req))).Only Action.SparesEntries := by
  apply Api.handleEnroll_rule (Q := fun p => (lift p).Only Action.SparesEntries)
  · exact fun _ _ => trivial
  · exact fun next ih => ⟨trivial, ih⟩
  · exact fun key next ih => ⟨trivial, ih⟩
  · intro req' pub expiry next _ _ hnext
    refine ⟨trivial, fun ts => ?_⟩
    change (lift (next ts)).Only Action.SparesEntries
    rcases hnext ts with ⟨r, -, heq⟩ | ⟨tenantID, -, heq⟩
    · rw [heq]
      trivial
    · rw [heq]
      exact only_enrollAddress (fun _ => trivial) trivial (fun _ _ => trivial) trivial
        (fun _ => trivial) (fun _ => trivial) (fun _ => trivial)

/-- An enrollment is found in a tenant by `For` and gives out that one's routes. -/
theorem taker_handleEnroll :
    Taker claims.tenancy req.publicKey (lift (Api.handleEnroll cfg claims (.ok req))) where
  found _ := unchecked_handleEnroll
  entry _ := entry_handleEnroll
  honest := honest_handleEnroll
  spares := spares_handleEnroll

end Enrollment

section Opening

variable {claims : Claims} {key id : String} {s : StreamID} {P check : Action → Prop}

/-- An opened stream, with nothing done about it yet. -/
abbrev opened (s : StreamID) (sub : Subscription) : Program interface Answer := .ret (.opened s sub)

theorem only_afterMember (hsubscribe : ∀ id, P (.subscribe id)) (member : Option Bool) :
    (afterMember opened s member).Only P := by
  match member with
  | none => trivial
  | some false => trivial
  | some true =>
      refine ⟨hsubscribe _, fun sub => ?_⟩
      cases sub with
      | none => trivial
      | some sub => trivial

theorem only_afterEntry (hget : ∀ id, P (.tenantGet id))
    (hmember : ∀ id m, P (.api (.isMember id m))) (hsubscribe : ∀ id, P (.subscribe id)) :
    (afterEntry opened s).Only P := by
  refine ⟨hget _, fun t => ?_⟩
  cases t with
  | none => trivial
  | some t => exact ⟨hmember _ _, only_afterMember hsubscribe⟩

theorem mayTake_afterMember {member : Option Bool}
    (h : (afterMember opened s member).MayBefore check (TakesRoutes id)) :
    member = some true ∧ id = s.tenant := by
  match member with
  | none => exact h.elim
  | some false => exact h.elim
  | some true =>
      rcases h with h | ⟨-, sub, h⟩
      · exact ⟨rfl, (Option.some.inj h).symm⟩
      · cases sub with
        | none => exact h.elim
        | some sub => exact h.elim

theorem mayTake_afterEntry (h : (afterEntry opened s).MayBefore check (TakesRoutes id)) :
    id = s.tenant := by
  rcases h with h | ⟨-, t, h⟩
  · exact absurd h (by simp [TakesRoutes, Action.takes])
  · cases t with
    | none => exact h.elim
    | some t =>
        rcases h with h | ⟨-, member, h⟩
        · exact absurd h (by simp [TakesRoutes, Action.takes])
        · exact (mayTake_afterMember h).2

/-- Having read the entry, `Watch` asks for the membership before it subscribes. -/
theorem unchecked_afterEntry :
    (afterEntry opened s).Unchecked Action.AsksTenants (TakesRoutes id)
      (FoundIn s.claims.tenancy id) := by
  apply unchecked_act (by simp [TakesRoutes, Action.takes])
  intro t
  cases t with
  | none => exact unchecked_ret _
  | some t =>
      apply unchecked_check trivial (by simp [TakesRoutes, Action.takes])
      intro member
      constructor
      · intro h
        obtain ⟨rfl, rfl⟩ := mayTake_afterMember h
        exact ⟨rfl, rfl, rfl⟩
      · exact checked_of_only (only_afterMember (fun _ h => h) member)

theorem honest_afterEntry : Honest (afterEntry opened s) := by
  apply honest_act
  intro t
  cases t with
  | none => exact honest_ret rfl
  | some t =>
      apply honest_act
      intro member
      match member with
      | none => exact honest_ret rfl
      | some false => exact honest_ret rfl
      | some true =>
          apply honest_take
          intro sub
          cases sub with
          | none => exact ⟨.ended .panicked, rfl, fun routes h => absurd h (by simp [Answer.gives])⟩
          | some sub => exact ⟨.opened s sub, rfl, fun routes h => ⟨sub, rfl, Option.some.inj h⟩⟩

/-- The opening of a stream reads the entry, and goes on if that is the caller's. -/
theorem opening_rule {Q : Program interface Answer → Prop}
    (hget : ∀ next : Option Peer → Program interface Answer,
      (∀ r, (∃ e, next r = .ret (.ended e)) ∨
        ∃ p, r = some p ∧ next r = afterEntry opened ⟨claims, key, p.tenant⟩) →
      Q (.act (.api (.storeGet key)) next)) :
    Q (opening (some claims) key) := by
  rw [opening_eq_bind, openStream_bind]
  apply hget
  intro r
  cases r with
  | none => exact Or.inl ⟨_, rfl⟩
  | some p =>
      by_cases hown : p.subject ≠ claims.subject
      · exact Or.inl ⟨_, if_pos hown⟩
      · exact Or.inr ⟨p, rfl, if_neg hown⟩

theorem unchecked_opening :
    (opening (some claims) key).Unchecked Action.AsksTenants (TakesRoutes id)
      (FoundIn claims.tenancy id) := by
  apply opening_rule (Q := fun p =>
    p.Unchecked Action.AsksTenants (TakesRoutes id) (FoundIn claims.tenancy id))
  intro next hnext
  apply unchecked_act (by simp [TakesRoutes, Action.takes])
  intro r
  rcases hnext r with ⟨e, heq⟩ | ⟨p, -, heq⟩
  · rw [heq]
    exact unchecked_ret _
  · rw [heq]
    exact unchecked_afterEntry (s := ⟨claims, key, p.tenant⟩)

/-- `Watch` has read the entry when it takes routes. -/
theorem entry_opening :
    (opening (some claims) key).Unchecked Action.OnEntry (TakesRoutes id) (EntryHas key id) := by
  apply opening_rule (Q := fun p =>
    p.Unchecked Action.OnEntry (TakesRoutes id) (EntryHas key id))
  intro next hnext
  apply unchecked_check trivial (by simp [TakesRoutes, Action.takes])
  intro r
  rcases hnext r with ⟨e, heq⟩ | ⟨p, hread, heq⟩
  · rw [heq]
    exact ⟨fun h => h.elim, trivial⟩
  · rw [heq]
    constructor
    · intro h
      exact ⟨rfl, p, hread, (mayTake_afterEntry h).symm⟩
    · exact checked_of_only (only_afterEntry (fun _ h => h) (fun _ _ h => h) (fun _ h => h))

theorem honest_opening : Honest (opening (some claims) key) := by
  apply opening_rule (Q := Honest)
  intro next hnext
  apply honest_act
  intro r
  rcases hnext r with ⟨e, heq⟩ | ⟨p, -, heq⟩
  · rw [heq]
    exact honest_ret rfl
  · rw [heq]
    exact honest_afterEntry

theorem spares_opening : (opening (some claims) key).Only Action.SparesEntries := by
  apply opening_rule (Q := fun p => p.Only Action.SparesEntries)
  intro next hnext
  refine ⟨trivial, fun r => ?_⟩
  rcases hnext r with ⟨e, heq⟩ | ⟨p, -, heq⟩
  · rw [heq]
    trivial
  · rw [heq]
    exact only_afterEntry (fun _ => trivial) (fun _ _ => trivial) (fun _ => trivial)

/-- `Watch` asks for the membership in the tenant of the entry that it has read,
and gives out that tenant's routes. -/
theorem taker_opening : Taker claims.tenancy key (opening (some claims) key) where
  found _ := unchecked_opening
  entry _ := entry_opening
  honest := honest_opening
  spares := spares_opening

end Opening

end Claimward.Grpc
