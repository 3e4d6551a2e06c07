import Claimward.Grpc.Takers

/-!
# Whose routes a caller is given

An enrollment chooses a tenant, and `Watch` asks for the membership in one,
before they take the tenant's routes with another call of the tenant store. If
the tenant is deleted in between, that call falls back to the default tenant.

One enrollment or one opening of a stream runs beside calls of the admin API.
The states of the gateway since it began are kept, to say what held at some
moment of the call.
-/

namespace Claimward.Grpc

open AtomicProgram AtomicProgram.Program Runs
open Api (Claims Response Server Oracle Handler Call Config EnrollRequest pickTenant)

/-- A call of the admin API. -/
def IsAdmin : Call → Prop
  | .createTenant _ => True
  | .updateTenant _ _ => True
  | .deleteTenant _ => True
  | _ => False

/-- The gateway, what is in progress on it, and its states so far. -/
abbrev Watched := Pool interface StreamOracle (History Gateway) Answer

/-- Besides the call in slot 0, only calls of the admin API are made. -/
def StartsAdmin (cfg : Config) : StreamTurn → Prop
  | .start _ p _ => ∃ c : Call, IsAdmin c ∧ p = lift (c.program cfg)
  | .advance _ => True

/-- No tenant is deleted that a call in progress has been found in and whose
routes it may still take. The default tenant cannot be deleted. -/
def KeepsChosen (c : Watched) : StreamTurn → Prop
  | .start _ _ _ => True
  | .advance i => ∀ id, c.nextAction i = some (.api (.deleteTenant id)) → id ≠ defaultID →
      ∀ j p ω, c.thread j = some (p, ω) → ¬ p.MayBefore Action.AsksTenants (TakesRoutes id)

section Moments

variable [GoText.CaseTables]

/-- For some time that ends with the latest of the moments, the tenant was there,
and at one of them the member belonged to it. -/
def Held (m : Member) (id : String) (moments : List Gateway) : Prop :=
  ∃ during older, moments = during ++ older ∧
    (∃ g ∈ during, g.server.tenants.isMember id m = some true) ∧
    ∀ g ∈ during, ∃ t, g.server.tenants.tenants.lookup id = some t

/-- There was a time during which the tenant was there all along, the member
belonged to it, and it had the route set. -/
def GaveOwn (m : Member) (id : String) (routes : List String × List String)
    (moments : List Gateway) : Prop :=
  ∃ newer during older, moments = newer ++ during ++ older ∧
    (∃ g ∈ during, g.server.tenants.isMember id m = some true) ∧
    (∃ g ∈ during, ∃ t, g.server.tenants.tenants.lookup id = some t ∧
      (t.allowedIPs, t.dns) = routes) ∧
    ∀ g ∈ during, ∃ t, g.server.tenants.tenants.lookup id = some t

variable {m : Member} {id : String} {g : Gateway} {past : List Gateway}

theorem held_now (hkeyed : g.server.tenants.Keyed)
    (hmember : g.server.tenants.isMember id m = some true) : Held m id (g :: past) := by
  refine ⟨[g], past, rfl, ⟨g, List.mem_singleton_self g, hmember⟩, ?_⟩
  intro g' hg'
  obtain rfl := List.mem_singleton.mp hg'
  obtain ⟨ts, hts, t, ht, rfl⟩ := TenantStore.isMember_eq_some_true.mp hmember
  exact ⟨t, hkeyed.lookup_of_for hts ht⟩

theorem Held.step (h : Held m id past)
    (hid : ∃ t, g.server.tenants.tenants.lookup id = some t) : Held m id (g :: past) := by
  obtain ⟨during, older, rfl, ⟨g', hg', hmember⟩, hduring⟩ := h
  refine ⟨g :: during, older, rfl, ⟨g', List.mem_cons_of_mem g hg', hmember⟩, ?_⟩
  exact List.forall_mem_cons.mpr ⟨hid, hduring⟩

/-- The latest of the moments is one of those at which the tenant was there. -/
theorem Held.latest (h : Held m id (g :: past)) :
    ∃ rest older, past = rest ++ older ∧
      (∃ g' ∈ g :: rest, g'.server.tenants.isMember id m = some true) ∧
      ∀ g' ∈ g :: rest, ∃ t, g'.server.tenants.tenants.lookup id = some t := by
  obtain ⟨during, older, heq, ⟨g', hg', hmember⟩, hduring⟩ := h
  cases during with
  | nil => exact absurd hg' List.not_mem_nil
  | cons g'' rest =>
      obtain ⟨rfl, hpast⟩ := List.cons.inj heq
      exact ⟨rest, older, hpast, ⟨g', hg', hmember⟩, hduring⟩

theorem Held.lookup (h : Held m id (g :: past)) :
    ∃ t, g.server.tenants.tenants.lookup id = some t := by
  obtain ⟨rest, older, -, -, hduring⟩ := h.latest
  exact hduring g List.mem_cons_self

theorem Held.gave (h : Held m id (g :: past)) {t : Tenant}
    (ht : g.server.tenants.tenants.lookup id = some t) :
    GaveOwn m id (t.allowedIPs, t.dns) (g :: past) := by
  obtain ⟨rest, older, rfl, hmember, hduring⟩ := h.latest
  exact ⟨[], g :: rest, older, rfl, hmember, ⟨g, List.mem_cons_self, t, ht, rfl⟩, hduring⟩

theorem GaveOwn.step {routes : List String × List String} (h : GaveOwn m id routes past) :
    GaveOwn m id routes (g :: past) := by
  obtain ⟨newer, during, older, rfl, hrest⟩ := h
  exact ⟨g :: newer, during, older, rfl, hrest⟩

end Moments

/-- The action is one of the admin API's. -/
def Action.Administers : Action → Prop
  | .api (.createTenant _) => True
  | .api (.updateTenant _ _) => True
  | .api (.deleteTenant _) => True
  | _ => False

section Admin

variable {a : Action} {c : Call} (cfg : Config)

/-- The actions of the admin API take no routes and leave the entries alone. -/
theorem Action.Administers.quiet (ha : a.Administers) :
    (∀ id, ¬ TakesRoutes id a) ∧ a.SparesEntries ∧ ∀ e, a ≠ .api (.storePut e) := by
  cases a with
  | api a =>
      cases a with
      | createTenant t => exact ⟨nofun, trivial, nofun⟩
      | updateTenant id inp => exact ⟨nofun, trivial, nofun⟩
      | deleteTenant id => exact ⟨nofun, trivial, nofun⟩
      | _ => exact ha.elim
  | _ => exact ha.elim

/-- A call of the admin API is one action and gives nothing. -/
theorem program_of_isAdmin (hc : IsAdmin c) :
    ∃ a next, lift (c.program cfg) = .act a next ∧ a.Administers ∧
      ∀ r, next r = .ret (.response .finished) := by
  cases c with
  | createTenant t => exact ⟨.api (.createTenant t), _, rfl, trivial, fun _ => rfl⟩
  | updateTenant id inp => exact ⟨.api (.updateTenant id inp), _, rfl, trivial, fun _ => rfl⟩
  | deleteTenant id => exact ⟨.api (.deleteTenant id), _, rfl, trivial, fun _ => rfl⟩
  | _ => exact hc.elim

theorem only_of_isAdmin (hc : IsAdmin c) : (lift (c.program cfg)).Only Action.Administers := by
  obtain ⟨a, next, heq, ha, hnext⟩ := program_of_isAdmin cfg hc
  rw [heq]
  refine ⟨ha, fun r => ?_⟩
  rw [hnext r]
  trivial

theorem honest_of_isAdmin (hc : IsAdmin c) : Honest (lift (c.program cfg)) := by
  obtain ⟨a, next, heq, -, hnext⟩ := program_of_isAdmin cfg hc
  rw [heq]
  apply honest_act
  intro r
  rw [hnext r]
  exact honest_ret rfl

end Admin

theorem exists_takes_of_took {a : Action} {routes : List String × List String} {r : Reply a}
    (h : Took routes a r) : ∃ id, a.takes = some id := by
  cases a with
  | api a =>
      cases a with
      | routes id => exact ⟨id, rfl⟩
      | _ => exact h.elim
  | subscribe id => exact ⟨id, rfl⟩
  | _ => exact h.elim

section Actions

variable [GoText.CaseTables] {m : Member} {key id : String} {g : Gateway} {past : List Gateway}
  {a : Action} {ω : StreamOracle} {routes : List String × List String}

/-- The entry of the key is there and has the tenant. -/
def EntryIs (key id : String) (g : Gateway) : Prop :=
  ∃ e, g.server.store.get key = some e ∧ e.tenant = id

theorem store_exec_of_spares (hspares : a.SparesEntries) (hput : ∀ e, a ≠ .api (.storePut e)) :
    (exec a ω g).2.2.server.store = g.server.store := by
  rcases server_exec (a := a) (ω := ω) (g := g) with heq | ⟨a', rfl, heq⟩
  · rw [heq]
  · rw [heq]
    apply Api.store_exec
    intro hwrites
    cases a' with
    | storePut e => exact hput e rfl
    | storeDelete k => exact hspares
    | storeRenew k t => exact hspares
    | _ => exact hwrites

/-- What every write of the tenant store keeps, every action keeps. -/
theorem tenants_exec_rule {P : TenantStore → Prop} (h : P g.server.tenants)
    (hcreate : ∀ t, P (g.server.tenants.create t).2)
    (hupdate : ∀ id' inp, P (g.server.tenants.update id' inp).2)
    (hdelete : ∀ id', a = .api (.deleteTenant id') → P (g.server.tenants.delete id').2) :
    P (exec a ω g).2.2.server.tenants := by
  rcases server_exec (a := a) (ω := ω) (g := g) with heq | ⟨a', rfl, heq⟩
  · rw [heq]
    exact h
  · rw [heq]
    cases a' with
    | createTenant t =>
        simp only [Api.exec]
        exact hcreate t
    | updateTenant id' inp =>
        simp only [Api.exec]
        exact hupdate id' inp
    | deleteTenant id' =>
        simp only [Api.exec]
        exact hdelete id' rfl
    | _ =>
        rw [Api.tenants_exec]
        · exact h
        · exact fun hwrites => hwrites

/-- A tenant stays there unless it is deleted. -/
theorem exists_lookup_exec (h : ∃ t, g.server.tenants.tenants.lookup id = some t)
    (ha : id ≠ defaultID → a ≠ .api (.deleteTenant id)) :
    ∃ t, (exec a ω g).2.2.server.tenants.tenants.lookup id = some t := by
  apply tenants_exec_rule (P := fun ts => ∃ t, ts.tenants.lookup id = some t) h
  · exact TenantStore.exists_lookup_create h
  · exact TenantStore.exists_lookup_update h
  · rintro id' rfl
    rw [TenantStore.lookup_delete_of_ne]
    · exact h
    · rintro hdefault rfl
      exact ha hdefault rfl

theorem keyed_exec (h : g.server.tenants.Keyed) : (exec a ω g).2.2.server.tenants.Keyed :=
  tenants_exec_rule h h.create h.update fun id' _ => h.delete id'

/-- Finding the member in a tenant. -/
theorem held_of_foundIn (hkeyed : g.server.tenants.Keyed)
    (h : FoundIn m id a (exec a ω g).1) : Held m id ((exec a ω g).2.2 :: past) := by
  cases a with
  | api a =>
      cases a with
      | tenantsFor m' =>
          obtain ⟨rfl, ts, hts, t, ht, hid⟩ := h
          exact held_now hkeyed (TenantStore.isMember_eq_some_true.mpr ⟨ts, hts, t, ht, hid⟩)
      | isMember id' m' =>
          obtain ⟨rfl, rfl, htrue⟩ := h
          exact held_now hkeyed htrue
      | _ => exact h.elim
  | _ => exact h.elim

/-- Reading or writing the entry. -/
theorem entryIs_of_entryHas (h : EntryHas key id a (exec a ω g).1) :
    EntryIs key id (exec a ω g).2.2 := by
  cases a with
  | api a =>
      cases a with
      | storeGet k =>
          obtain ⟨rfl, p, hget, htenant⟩ := h
          exact ⟨p, hget, htenant⟩
      | storePut e =>
          obtain ⟨rfl, htenant⟩ := h
          exact ⟨e, Store.get_put_eq_some.mpr (Or.inl ⟨rfl, rfl⟩), htenant⟩
      | _ => exact h.elim
  | _ => exact h.elim

/-- Taking the routes of a tenant that has been there since the member was found
in it. -/
theorem gaveOwn_of_took (hsynced : g.Synced) (hheld : Held m id (g :: past))
    (htakes : a.takes = some id) (htook : Took routes a (exec a ω g).1) :
    GaveOwn m id routes (g :: past) := by
  obtain ⟨t, ht⟩ := hheld.lookup
  have hgave := hheld.gave ht
  cases a with
  | api a =>
      cases a with
      | routes id' =>
          obtain rfl : id' = id := Option.some.inj htakes
          obtain ⟨rs, hrs, rfl⟩ := htook
          simp only [exec, Api.exec, TenantStore.routes, ht, Option.some.injEq] at hrs
          rw [← hrs]
          exact hgave
      | _ => exact htook.elim
  | subscribe id' =>
      obtain rfl : id' = id := Option.some.inj htakes
      obtain ⟨sub, hsub, rfl⟩ := htook
      simp only [exec, subscribed, Hub.watched, hsynced.store, ht, Option.map_some,
        Option.some.injEq] at hsub
      rw [← hsub]
      exact hgave
  | _ => exact htook.elim

end Actions

section Invariant

variable [GoText.CaseTables] {m : Member} {key : String} {cfg : Config} {c : Watched}
  {turn : StreamTurn}

/-- The routes are those of the tenant of the entry. -/
def Gave (m : Member) (key : String) (routes : List String × List String) (h : History Gateway) :
    Prop :=
  ∃ e, h.now.server.store.get key = some e ∧ GaveOwn m e.tenant routes h.moments

/-- Beside the call in slot 0 there are only admin calls, the call has found the
member in the tenant whose routes it may take, the entry has that tenant, and
what it has given is that tenant's. -/
structure Kept (m : Member) (key : String) (c : Watched) : Prop where
  synced : c.shared.now.Synced
  keyed : c.shared.now.server.tenants.Keyed
  admin : ∀ i p ω, i ≠ 0 → c.thread i = some (p, ω) → p.Only Action.Administers
  faithful : c.Every fun p _ => Faithful p
  spares : c.Every fun p _ => p.Only Action.SparesEntries
  found : ∀ id, c.AllVouched Action.AsksTenants (TakesRoutes id) (FoundIn m id)
    fun h => Held m id h.moments
  entry : ∀ id, c.AllVouched Action.OnEntry (TakesRoutes id) (EntryHas key id)
    fun h => EntryIs key id h.now
  given : ∀ v ω routes, c.thread 0 = some (.ret v, ω) → v.gives = some routes →
    Gave m key routes c.shared

/-- A call that takes routes is the one in slot 0. -/
theorem Kept.eq_zero_of_mayTake (h : Kept m key c) {i : ℕ} {p : Program interface Answer}
    {ω : StreamOracle} (hi : c.thread i = some (p, ω)) {check : Action → Prop} {id : String}
    (hp : p.MayBefore check (TakesRoutes id)) : i = 0 := by
  by_contra hne
  exact not_mayBefore_of_only ((h.admin i p ω hne hi).mono fun a ha => ha.quiet.1 id) hp

theorem Kept.found_move (h : Kept m key c) (hstarts : StartsAdmin cfg turn)
    (hkeeps : KeepsChosen c turn) (id : String) :
    (c.move (recorded exec) turn).AllVouched Action.AsksTenants (TakesRoutes id) (FoundIn m id)
      fun h => Held m id h.moments := by
  apply (h.found id).move
  · rintro i p ω rfl
    obtain ⟨call, hcall, rfl⟩ := hstarts
    exact unchecked_of_only ((only_of_isAdmin cfg hcall).mono fun a ha => ha.quiet.1 id)
  · rintro i a next ω rfl hi
    constructor
    · exact fun _ hfound => held_of_foundIn h.keyed hfound
    · intro j p ω' hj hp hheld
      refine hheld.step (exists_lookup_exec hheld.lookup ?_)
      rintro hne rfl
      exact hkeeps id (Pool.nextAction_eq hi) hne j p ω' hj hp

theorem Kept.entry_move (h : Kept m key c) (hstarts : StartsAdmin cfg turn) (id : String) :
    (c.move (recorded exec) turn).AllVouched Action.OnEntry (TakesRoutes id) (EntryHas key id)
      fun h => EntryIs key id h.now := by
  apply (h.entry id).move
  · rintro i p ω rfl
    obtain ⟨call, hcall, rfl⟩ := hstarts
    exact unchecked_of_only ((only_of_isAdmin cfg hcall).mono fun a ha => ha.quiet.1 id)
  · rintro i a next ω rfl hi
    constructor
    · exact fun _ hhas => entryIs_of_entryHas hhas
    · rintro j p ω' hj hp ⟨e, hget, htenant⟩
      have hput : ∀ e, a ≠ .api (.storePut e) := by
        obtain rfl := h.eq_zero_of_mayTake hj hp
        by_cases hzero : i = 0
        · -- The call itself is not about to take routes: it writes its entry.
          rintro e rfl
          subst hzero
          obtain ⟨rfl, rfl⟩ := Prod.mk.inj (Option.some.inj (hj.symm.trans hi))
          rcases hp with htakes | ⟨hcheck, -⟩
          · exact absurd htakes (by simp [TakesRoutes, Action.takes])
          · exact hcheck trivial
        · exact (h.admin i _ ω hzero hi).1.quiet.2.2
      refine ⟨e, ?_, htenant⟩
      change (exec a ω c.shared.now).2.2.server.store.get key = some e
      rw [store_exec_of_spares (h.spares i _ ω hi).1 hput]
      exact hget

/-- An action that leaves the entries alone. -/
theorem Gave.persists {routes : List String × List String} {h : History Gateway} {a : Action}
    {ω : StreamOracle} (hgave : Gave m key routes h) (hspares : a.SparesEntries)
    (hput : ∀ e, a ≠ .api (.storePut e)) : Gave m key routes (recorded exec a ω h).2.2 := by
  obtain ⟨e, hget, hown⟩ := hgave
  refine ⟨e, ?_, hown.step⟩
  change (exec a ω h.now).2.2.server.store.get key = some e
  rw [store_exec_of_spares hspares hput]
  exact hget

/-- The action with which the call takes the routes that it gives. -/
theorem Kept.gave_of_took (h : Kept m key c) {i : ℕ} {a : Action}
    {next : Reply a → Program interface Answer} {ω : StreamOracle}
    (hi : c.thread i = some (.act a next, ω)) {routes : List String × List String}
    (htook : Took routes a (exec a ω c.shared.now).1) : Gave m key routes c.shared := by
  obtain ⟨id, htakes⟩ := exists_takes_of_took htook
  have hheld : Held m id c.shared.moments := (h.found id i _ ω hi).holds (Or.inl htakes)
  obtain ⟨e, hget, rfl⟩ : EntryIs key id c.shared.now := (h.entry id i _ ω hi).holds (Or.inl htakes)
  exact ⟨e, hget, gaveOwn_of_took h.synced hheld htakes htook⟩

theorem Kept.given_move (h : Kept m key c) (hstarts : StartsAdmin cfg turn) :
    ∀ v ω routes, (c.move (recorded exec) turn).thread 0 = some (.ret v, ω) →
      v.gives = some routes → Gave m key routes (c.move (recorded exec) turn).shared := by
  intro v ω routes hzero hgives
  rcases c.move_cases (recorded exec) turn with heq | ⟨i, p, ω', rfl, hfree, heq⟩ |
    ⟨i, a, next, ω', rfl, hi, heq⟩
  · rw [heq] at hzero ⊢
    exact h.given v ω routes hzero hgives
  · rw [heq] at hzero ⊢
    rcases Pool.thread_update hzero with ⟨-, hret, -⟩ | ⟨-, hzero⟩
    · obtain ⟨call, hcall, rfl⟩ := hstarts
      exact absurd hgives ((honest_of_isAdmin cfg hcall).pending v routes hret)
    · exact h.given v ω routes hzero hgives
  · rw [heq] at hzero ⊢
    rcases Pool.thread_update hzero with ⟨rfl, hret, -⟩ | ⟨hslot, hzero⟩
    · have htook := (h.faithful 0 _ ω' hi _).1 v routes hret hgives
      refine (h.gave_of_took hi htook).persists (h.spares 0 _ ω' hi).1 ?_
      rintro e rfl
      exact htook
    · obtain ⟨-, hspares, hput⟩ := (h.admin i _ ω' (Ne.symm hslot) hi).1.quiet
      exact (h.given v ω routes hzero hgives).persists hspares hput

theorem Kept.admin_move (h : Kept m key c) (hstarts : StartsAdmin cfg turn) :
    ∀ i p ω, i ≠ 0 → (c.move (recorded exec) turn).thread i = some (p, ω) →
      p.Only Action.Administers := by
  intro j p ω hj hthread
  rcases c.move_cases (recorded exec) turn with heq | ⟨i, p', ω', rfl, hfree, heq⟩ |
    ⟨i, a, next, ω', rfl, hi, heq⟩
  · rw [heq] at hthread
    exact h.admin j p ω hj hthread
  · rw [heq] at hthread
    rcases Pool.thread_update hthread with ⟨-, rfl, -⟩ | ⟨-, hthread⟩
    · obtain ⟨call, hcall, rfl⟩ := hstarts
      exact only_of_isAdmin cfg hcall
    · exact h.admin j p ω hj hthread
  · rw [heq] at hthread
    rcases Pool.thread_update hthread with ⟨rfl, rfl, -⟩ | ⟨-, hthread⟩
    · exact (h.admin j _ ω' hj hi).2 _
    · exact h.admin j p ω hj hthread

theorem Kept.move (h : Kept m key c) (hstarts : StartsAdmin cfg turn)
    (hkeeps : KeepsChosen c turn) : Kept m key (c.move (recorded exec) turn) where
  synced := Pool.shared_move (P := fun h : History Gateway => h.now.Synced) h.synced
    fun a ω => h.synced.exec a ω
  keyed := Pool.shared_move (P := fun h : History Gateway => h.now.server.tenants.Keyed) h.keyed
    fun a ω => keyed_exec h.keyed
  admin := h.admin_move hstarts
  faithful := by
    apply h.faithful.move
    · rintro i p ω rfl
      obtain ⟨call, hcall, rfl⟩ := hstarts
      exact (honest_of_isAdmin cfg hcall).faithful
    · exact fun a next r hact => (hact r).2
  spares := by
    apply h.spares.move
    · rintro i p ω rfl
      obtain ⟨call, hcall, rfl⟩ := hstarts
      exact (only_of_isAdmin cfg hcall).mono fun a ha => ha.quiet.2.1
    · exact fun a next r hact => hact.2 r
  found := h.found_move hstarts hkeeps
  entry := h.entry_move hstarts
  given := h.given_move hstarts

/-- The call has begun, in slot 0. -/
def calling (p : Program interface Answer) (ω : StreamOracle) (g : Gateway) : Watched :=
  (Pool.initial ⟨g, []⟩).move (recorded exec) (.start 0 p ω)

theorem kept_calling {p : Program interface Answer} {ω : StreamOracle} {g : Gateway}
    (hsynced : g.Synced) (hkeyed : g.server.tenants.Keyed) (hp : Taker m key p) :
    Kept m key (calling p ω g) := by
  have hthread : ∀ i q ω', (calling p ω g).thread i = some (q, ω') → i = 0 ∧ q = p := by
    intro i q ω' hi
    change Function.update (fun _ : ℕ => none) 0 (some (p, ω)) i = some (q, ω') at hi
    rcases Pool.thread_update hi with ⟨hslot, hp, -⟩ | ⟨-, hfree⟩
    · exact ⟨hslot, hp.symm⟩
    · exact absurd hfree (by simp)
  refine ⟨hsynced, hkeyed, ?_, ?_, ?_, ?_, ?_, ?_⟩
  · intro i q ω' hne hi
    exact absurd (hthread i q ω' hi).1 hne
  · intro i q ω' hi
    rw [(hthread i q ω' hi).2]
    exact hp.honest.faithful
  · intro i q ω' hi
    rw [(hthread i q ω' hi).2]
    exact hp.spares
  · intro id i q ω' hi
    rw [(hthread i q ω' hi).2]
    exact ⟨(hp.found id).checked, fun h => absurd h (hp.found id).unmet⟩
  · intro id i q ω' hi
    rw [(hthread i q ω' hi).2]
    exact ⟨(hp.entry id).checked, fun h => absurd h (hp.entry id).unmet⟩
  · intro v ω' routes hi hgives
    exact absurd hgives (hp.honest.pending v routes (hthread 0 _ ω' hi).2.symm)

/-- What a call that takes routes has given after any admissible run. -/
theorem gave_of_run {p : Program interface Answer} {ω : StreamOracle} {g : Gateway}
    {turns : List StreamTurn} (hsynced : g.Synced) (hkeyed : g.server.tenants.Keyed)
    (hp : Taker m key p)
    (hrun : Admissible (Pool.move (recorded exec)) (fun c turn =>
      StartsAdmin cfg turn ∧ KeepsChosen c turn) (calling p ω g) turns) {v : Answer}
    {routes : List String × List String}
    (hresult : (run (Pool.move (recorded exec)) (calling p ω g) turns).result 0 = some v)
    (hgives : v.gives = some routes) :
    Gave m key routes (run (Pool.move (recorded exec)) (calling p ω g) turns).shared := by
  have hkept := hrun.invariant (Kept m key) (fun c turn h hok => h.move hok.1 hok.2)
    (kept_calling hsynced hkeyed hp)
  obtain ⟨ω', hthread⟩ := Pool.result_eq hresult
  exact hkept.given v ω' routes hthread hgives

/-- In every interleaving of an enrollment, or of the opening of a stream, with
calls of the admin API in which no tenant is deleted between the moment the call
has been found in it and the moment it takes its routes, the caller is given the
routes of the tenant of their entry: during a time of the call throughout which
that tenant was there, it had these routes and the caller belonged to it. -/
theorem own_routes_given (cfg : Config) {g : Gateway} (hsynced : g.Synced)
    (hkeyed : g.server.tenants.Keyed) (claims : Claims) (ω : StreamOracle)
    (turns : List StreamTurn) :
    (∀ req : EnrollRequest,
      let c := calling (lift (Api.handleEnroll cfg claims (.ok req))) ω g
      Admissible (Pool.move (recorded exec)) (fun c turn =>
        StartsAdmin cfg turn ∧ KeepsChosen c turn) c turns →
      let c' := run (Pool.move (recorded exec)) c turns
      ∀ r, c'.result 0 = some (.response (.enrolled r)) →
        ∃ e, c'.shared.now.server.store.get req.publicKey = some e ∧
          GaveOwn claims.tenancy e.tenant (r.allowedIPs, r.dns) c'.shared.moments) ∧
    ∀ key,
      let c := calling (opening (some claims) key) ω g
      Admissible (Pool.move (recorded exec)) (fun c turn =>
        StartsAdmin cfg turn ∧ KeepsChosen c turn) c turns →
      let c' := run (Pool.move (recorded exec)) c turns
      ∀ s sub, c'.result 0 = some (.opened s sub) →
        ∃ e, c'.shared.now.server.store.get key = some e ∧
          GaveOwn claims.tenancy e.tenant (sub.current.allowedIPs, sub.current.dns)
            c'.shared.moments := by
  constructor
  · intro req c hrun c' r hresult
    exact gave_of_run hsynced hkeyed taker_handleEnroll hrun hresult rfl
  · intro key c hrun c' s sub hresult
    exact gave_of_run hsynced hkeyed taker_opening hrun hresult rfl

end Invariant

/-- The turn deletes no tenant. -/
def DeletesNothing (c : Watched) : StreamTurn → Bool
  | .start _ _ _ => true
  | .advance i =>
      match c.nextAction i with
      | some (.api (.deleteTenant _)) => false
      | _ => true

theorem keepsChosen_of_deletesNothing {c : Watched} {turn : StreamTurn}
    (h : DeletesNothing c turn = true) : KeepsChosen c turn := by
  cases turn with
  | start i p ω => trivial
  | advance i =>
      intro id hnext
      simp [DeletesNothing, hnext] at h

attribute [local instance] GoText.asciiTables

namespace Sample

open Api.Sample (claims key₁ config)

/-- A tenant whose members are those of a group. -/
def groupTenant (group route : String) : Tenant :=
  { id := group, name := group, domains := [], groups := [group], idps := [],
    allowedIPs := [route], dns := [], serial := 0 }

/-- Beside the default tenant there are two others. -/
def twoTenants : Gateway :=
  (run (Pool.move exec) (.initial ⟨Api.Sample.start, .new ["10.80.0.0/29"] []⟩ : Streams)
    (request 1 (.createTenant (groupTenant "lab" "10.1.0.0/16")) 1 ++
      request 2 (.createTenant (groupTenant "ops" "10.2.0.0/16")) 1)).shared

/-- Alice is in both. -/
def alice : Claims := { claims "alice" with groups := ["lab", "ops"] }

def enrolling (who : Claims) (tenant : String) (g : Gateway) : Watched :=
  calling (lift (Api.handleEnroll (config false) who (.ok ⟨key₁, ⟨"laptop", "linux"⟩, tenant⟩)))
    oracle g

/-- The call runs until it has chosen its tenant, then one admin call, then the
rest of the call. -/
def interrupted (c : Api.Call) : List StreamTurn :=
  List.replicate 2 (.advance 0) ++ request 1 c 1 ++ List.replicate 6 (.advance 0)

end Sample

theorem synced_enrolled : Sample.enrolled.Synced := by
  refine ⟨Hub.sound_new _ _, rfl, congrArg TenantStore.mk ?_⟩
  apply AList.ext
  decide +kernel

theorem keyed_enrolled : Sample.enrolled.server.tenants.Keyed := by
  rw [← synced_enrolled.store]
  exact TenantStore.keyed_new _ _

theorem admissible_interrupted {c : Watched} {call : Call} (hcall : IsAdmin call)
    (h : Admissible (Pool.move (recorded exec)) (fun c turn => DeletesNothing c turn = true) c
      (Sample.interrupted call)) :
    Admissible (Pool.move (recorded exec)) (fun c turn =>
      StartsAdmin (Api.Sample.config false) turn ∧ KeepsChosen c turn) c
      (Sample.interrupted call) := by
  refine (h.mono fun _ _ => keepsChosen_of_deletesNothing).and_forall ?_
  simp only [Sample.interrupted, Sample.request, List.forall_mem_append, List.forall_mem_cons,
    List.mem_replicate]
  refine ⟨⟨?_, ⟨call, hcall, rfl⟩, ?_⟩, ?_⟩
  · rintro turn ⟨-, rfl⟩
    trivial
  · rintro turn ⟨-, rfl⟩
    trivial
  · rintro turn ⟨-, rfl⟩
    trivial

/-- While alice enrolls again, and while alice opens a stream, the default tenant
is given other routes. -/
theorem updated_routes_given :
    let turns := Sample.interrupted (.updateTenant defaultID Sample.moved)
    let enrolled := run (Pool.move (recorded exec))
      (Sample.enrolling (Api.Sample.claims "alice") "" Sample.enrolled) turns
    let opened := run (Pool.move (recorded exec))
      (calling (opening (some (Api.Sample.claims "alice")) Api.Sample.key₁) Sample.oracle
        Sample.enrolled) turns
    (∃ e, enrolled.shared.now.server.store.get Api.Sample.key₁ = some e ∧
      GaveOwn (Api.Sample.claims "alice").tenancy e.tenant (["10.99.0.0/16"], [])
        enrolled.shared.moments) ∧
    ∃ e, opened.shared.now.server.store.get Api.Sample.key₁ = some e ∧
      GaveOwn (Api.Sample.claims "alice").tenancy e.tenant (["10.99.0.0/16"], [])
        opened.shared.moments := by
  intro turns enrolled opened
  have hgiven := own_routes_given (Api.Sample.config false) synced_enrolled keyed_enrolled
    (Api.Sample.claims "alice") Sample.oracle turns
  constructor
  · refine hgiven.1 ⟨Api.Sample.key₁, ⟨"laptop", "linux"⟩, ""⟩
      (admissible_interrupted trivial (by decide +kernel))
      ⟨"10.80.0.2/32", "server", "vpn:51820", ["10.99.0.0/16"], [], "vpn:9443", 25, 3600⟩ ?_
    decide +kernel
  · refine hgiven.2 Api.Sample.key₁ (admissible_interrupted trivial (by decide +kernel))
      ⟨Api.Sample.claims "alice", Api.Sample.key₁, defaultID⟩ ⟨0, 0, ["10.99.0.0/16"], [], 2⟩ ?_
    decide +kernel

/-- Alice chooses a tenant, the tenant is deleted, and alice is given the routes of
the default tenant, to which alice never belongs. -/
theorem default_routes_given_to_others :
    let c := run (Pool.move (recorded exec)) (Sample.enrolling Sample.alice "lab" Sample.twoTenants)
      (Sample.interrupted (.deleteTenant "lab"))
    (c.result 0).bind Answer.gives = some (["10.80.0.0/29"], []) ∧
      (c.shared.now.server.store.get Api.Sample.key₁).map Peer.tenant = some "lab" ∧
      ∀ g ∈ c.shared.moments,
        g.server.tenants.isMember defaultID Sample.alice.tenancy = some false ∧
        (g.server.tenants.tenants.lookup "lab").map Tenant.allowedIPs ≠ some ["10.80.0.0/29"] := by
  decide +kernel

end Claimward.Grpc
