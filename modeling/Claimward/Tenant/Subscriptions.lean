import Claimward.Tenant.Atomic

/-!
# What a call does to the subscriptions

A subscription is made in the tenant that its ID resolves to and stays there. It
goes when it is ended or its tenant is deleted, and its channel is closed then.
`Follows` says this of one call; what it says of the subscriptions that are
dropped leaves out a number that is given out a second time, which
`Numbered` excludes while there have been fewer than `2 ^ 64` subscriptions.
-/

namespace Claimward

open Runs

/-- How many subscriptions a call makes. -/
def HubCall.subscribes : HubCall → ℕ
  | .subscribe _ => 1
  | _ => 0

namespace Hub

/-- The tenant that a call for the ID looks in. -/
def Resolves (h : Hub) (tenantID id : String) : Prop := ∃ t, h.watched tenantID = some (id, t)

/-- Only tenants of the store have subscriptions. -/
def Filed (h : Hub) : Prop :=
  ∀ id n c, (h.subs id).lookup n = some c → ∃ t, h.store.tenants.lookup id = some t

/-- What a call may have done to the subscriptions. -/
structure Follows (h : Hub) (call : HubCall) (h' : Hub) : Prop where
  older : ∀ id n c, (h'.subs id).lookup n = some c → (h.subs id).lookup n = some c ∨
    ∃ tenantID, call = .subscribe tenantID ∧ h.Resolves tenantID id ∧ n = h.nextSub ∧ c = h.made
  closed : ∀ c < h.made, (h.box c).closed = true → (h'.box c).closed = true
  dropped : ∀ id n c, (h.subs id).lookup n = some c → (h'.subs id).lookup n = some c ∨
    (h'.box c).closed = true ∨ (call.subscribes = 1 ∧ n = h.nextSub)
  began : call.subscribes = 1 → ∃ id, (h'.subs id).lookup h.nextSub = some h.made
  filed : h'.Filed
  made : h'.made = h.made + call.subscribes
  nextSub : h'.nextSub = h.nextSub + Int64.ofNat call.subscribes

variable {h h' : Hub} {tenantID id : String} {n : Int64}

theorem Resolves.present (hr : h.Resolves tenantID id) :
    ∃ t, h.store.tenants.lookup id = some t := by
  obtain ⟨t, ht⟩ := hr
  unfold watched at ht
  split at ht
  · rename_i hlookup
    obtain ⟨rfl, rfl⟩ := Prod.mk.inj (Option.some.inj ht)
    exact ⟨_, hlookup⟩
  · obtain ⟨d, hd, heq⟩ := Option.map_eq_some_iff.mp ht
    obtain ⟨rfl, rfl⟩ := Prod.mk.inj heq
    exact ⟨_, hd⟩

theorem resolves_of_present {t : Tenant} (h' : h.store.tenants.lookup tenantID = some t) :
    h.Resolves tenantID id ↔ id = tenantID := by
  simp [Resolves, watched, h', eq_comm]

theorem resolves_of_missing (hdefault : h.store.HasDefault)
    (hmissing : h.store.tenants.lookup tenantID = none) :
    h.Resolves tenantID id ↔ id = defaultID := by
  obtain ⟨d, hd⟩ := hdefault
  simp [Resolves, watched, hmissing, hd, eq_comm]

theorem Resolves.cases (hr : h.Resolves tenantID id) : id = tenantID ∨ id = defaultID := by
  obtain ⟨t, ht⟩ := hr
  unfold watched at ht
  split at ht
  · exact .inl (Prod.mk.inj (Option.some.inj ht)).1.symm
  · obtain ⟨d, -, heq⟩ := Option.map_eq_some_iff.mp ht
    exact .inr (Prod.mk.inj heq).1.symm

section Follows

variable (hfiled : h.Filed)

include hfiled

/-- A call that leaves the subscriptions as they are and no tenant out. -/
theorem follows_of_closed {call : HubCall} (hcall : call.subscribes = 0)
    (hsame : Closed h h.subs [] h')
    (hpresent : ∀ id, (∃ t, h.store.tenants.lookup id = some t) →
      ∃ t, h'.store.tenants.lookup id = some t) : Follows h call h' where
  older id n c hc := .inl (hsame.subs ▸ hc)
  closed c _ hc := (hsame.closed c).mpr (.inl hc)
  dropped id n c hc := .inl (hsame.subs ▸ hc)
  began hone := absurd (hcall.symm.trans hone) Nat.zero_ne_one
  filed id n c hc := hpresent id (hfiled id n c (hsame.subs ▸ hc))
  made := by rw [hsame.made, hcall, Nat.add_zero]
  nextSub := by rw [hsame.nextSub, hcall]; exact (Int64.add_zero _).symm

theorem follows_refl {call : HubCall} (hcall : call.subscribes = 0) : Follows h call h :=
  follows_of_closed hfiled hcall ⟨rfl, rfl, rfl, by simp⟩ fun _ ht => ht

/-- A tenant that is created had no subscriptions under its ID. -/
theorem follows_create [GoText.CaseTables] (t : Tenant) :
    Follows h (.create t) (h.create t) := by
  unfold Hub.create
  split
  · rename_i t' store heq
    obtain ⟨hnone, -, rfl⟩ := TenantStore.create_eq_ok heq
    have hpresent (id : String) (ht : ∃ t, h.store.tenants.lookup id = some t) :
        ∃ t, (h.store.tenants.insert t'.id t').lookup id = some t :=
      TenantStore.exists_lookup_insert ht t'.id t'
    refine ⟨fun id n c hc => .inl (lookup_update_empty hc).2, fun _ _ hc => hc,
      fun id n c hc => .inl ?_, fun hone => absurd hone Nat.zero_ne_one, fun id n c hc => ?_, rfl,
      (Int64.add_zero _).symm⟩
    · have hne : id ≠ t'.id := by
        rintro rfl
        obtain ⟨t, ht⟩ := hfiled _ n c hc
        rw [hnone] at ht
        exact absurd ht (by simp)
      change (Function.update h.subs t'.id ∅ id).lookup n = some c
      rw [Function.update_of_ne hne]
      exact hc
    · exact hpresent id (hfiled id n c (lookup_update_empty hc).2)
  · exact follows_refl hfiled rfl

theorem follows_subscribe (hs : h.Sound) (hstep : h.subscribe tenantID = .ok h') :
    Follows h (.subscribe tenantID) h' := by
  unfold Hub.subscribe at hstep
  split at hstep
  · exact absurd hstep (by simp)
  · rename_i id t hwatched
    obtain rfl := Except.ok.inj hstep
    have hresolves : h.Resolves tenantID id := ⟨t, hwatched⟩
    refine ⟨fun id' n c hc => ?_, fun c hc hclosed => ?_, fun id' n c hc => ?_,
      fun _ => ⟨id, ?_⟩, fun id' n c hc => ?_, rfl, rfl⟩
    · rcases hs.lookup_subscribe hc with ⟨rfl, rfl, rfl⟩ | ⟨-, hold⟩
      · exact .inr ⟨tenantID, rfl, hresolves, rfl, rfl⟩
      · exact .inl hold
    · dsimp only
      rw [Function.update_of_ne hc.ne]
      exact hclosed
    · by_cases hnext : n = h.nextSub
      · exact .inr (.inr ⟨rfl, hnext⟩)
      · left
        dsimp only
        by_cases hid : id' = id
        · subst hid
          rw [Function.update_self, Table.lookup_insert_eq, if_neg hnext]
          exact hc
        · rw [Function.update_of_ne hid]
          exact hc
    · dsimp only
      rw [Function.update_self, Table.lookup_insert_eq, if_pos rfl]
    · rcases hs.lookup_subscribe hc with ⟨-, rfl, -⟩ | ⟨-, hold⟩
      · exact hresolves.present
      · exact hfiled id' n c hold

/-- A subscription that is ended is the only one to go. -/
theorem follows_unsubscribe (hs : h.Sound) (hfree : h.holder = none)
    (hstep : h.unsubscribe tenantID n = .ok h') : Follows h (.unsubscribe tenantID n) h' := by
  unfold Hub.unsubscribe at hstep
  split at hstep
  · exact absurd hstep (by simp)
  · rename_i id t hwatched
    split at hstep
    · obtain rfl := Except.ok.inj hstep
      exact follows_refl hfiled rfl
    · rename_i c hc
      have hopen : (h.box c).closed = false := by
        simpa [hfree, Pending.Shut] using hs.opened id c ⟨n, hc⟩
      have hclose := onChannel_ok (h := { h with
        subs := Function.update h.subs id ((h.subs id).erase n) }) (Mailbox.close_of_open hopen)
      obtain rfl := Except.ok.inj (hclose.symm.trans hstep)
      refine ⟨fun id' n' c' hc' => .inl (hs.lookup_unsubscribe hc hc').2,
        fun c' _ hclosed => ?_, fun id' n' c' hc' => ?_,
        fun hone => absurd hone Nat.zero_ne_one,
        fun id' n' c' hc' => hfiled id' n' c' (hs.lookup_unsubscribe hc hc').2, rfl,
        (Int64.add_zero _).symm⟩
      · dsimp only
        by_cases hne : c' = c
        · subst hne
          rw [Function.update_self]
        · rw [Function.update_of_ne hne]
          exact hclosed
      · dsimp only
        by_cases hid : id' = id
        · subst hid
          by_cases hn : n' = n
          · subst hn
            obtain rfl := Option.some.inj (hc.symm.trans hc')
            exact .inr (.inl (by rw [Function.update_self]))
          · left
            rw [Function.update_self, Table.lookup_erase_eq, if_neg hn]
            exact hc'
        · left
          rw [Function.update_of_ne hid]
          exact hc'

end Follows

section Calls

variable [GoText.CaseTables] (hfiled : h.Filed) (hs : h.Sound) (hfree : h.holder = none)

include hfiled hs hfree

theorem follows_update {inp : Tenant} (hstep : h.atomically (.update id inp) = .ok h') :
    Follows h (.update id inp) h' := by
  have hs₁ := hs.update hfree id inp
  have hrun := atomically_eq (h := h) (c := .update id inp) rfl
  rw [hstep] at hrun
  have hpresent (id' : String) (ht : ∃ t, h.store.tenants.lookup id' = some t) :
      ∃ t, (h.update id inp).store.tenants.lookup id' = some t := by
    rw [store_update]
    exact TenantStore.exists_lookup_update ht id inp
  revert hs₁ hrun hpresent
  unfold Hub.update
  split
  · intro hs₁ hrun hpresent
    obtain ⟨h'', hworks, -, -, hstore, hclosed⟩ := hs₁.run_broadcast rfl
    obtain rfl := Except.ok.inj (hrun.trans hworks)
    refine follows_of_closed hfiled rfl ⟨hclosed.subs, hclosed.nextSub, hclosed.made,
      hclosed.closed⟩ fun id' ht => ?_
    rw [hstore]
    exact hpresent id' ht
  · intro _ hrun _
    change _ = h.run (Pending.works h.holder) at hrun
    rw [hfree] at hrun
    obtain rfl := Except.ok.inj hrun
    exact follows_refl hfiled rfl

omit [GoText.CaseTables] hs hfree in
/-- The subscriptions of a tenant that is deleted are closed. -/
theorem follows_of_closing (hclosed : Closed h (Function.update h.subs id ∅) (h.subs id).values h')
    (hstore : ∀ id', id' ≠ id → h'.store.tenants.lookup id' = h.store.tenants.lookup id') :
    Follows h (.delete id) h' where
  older id' n c hc := by
    rw [hclosed.subs] at hc
    exact .inl (lookup_update_empty hc).2
  closed c _ hc := (hclosed.closed c).mpr (.inl hc)
  dropped id' n c hc := by
    by_cases hid : id' = id
    · subst hid
      exact .inr (.inl ((hclosed.closed c).mpr (.inr (mem_values_subs.mpr ⟨n, hc⟩))))
    · left
      rw [hclosed.subs, Function.update_of_ne hid]
      exact hc
  began hone := absurd hone Nat.zero_ne_one
  filed id' n c hc := by
    rw [hclosed.subs] at hc
    obtain ⟨hne, hold⟩ := lookup_update_empty hc
    rw [hstore id' hne]
    exact hfiled id' n c hold
  made := hclosed.made
  nextSub := by rw [hclosed.nextSub]; exact (Int64.add_zero _).symm

theorem follows_delete (hstep : h.atomically (.delete id) = .ok h') :
    Follows h (.delete id) h' := by
  have hs₁ := hs.delete hfree id
  have hrun := atomically_eq (h := h) (c := .delete id) rfl
  rw [hstep] at hrun
  revert hs₁ hrun
  unfold Hub.delete
  split
  · intro _ hrun
    rw [hfree] at hrun
    obtain rfl := Except.ok.inj hrun
    exact follows_refl hfiled rfl
  · split
    · intro _ hrun
      rw [hfree] at hrun
      obtain rfl := Except.ok.inj hrun
      exact follows_refl hfiled rfl
    · intro hs₁ hrun
      obtain ⟨h'', hworks, -, -, hstore, hclosed⟩ := hs₁.run_closing rfl
      obtain rfl := Except.ok.inj (hrun.trans hworks)
      refine follows_of_closing hfiled ⟨hclosed.subs, hclosed.nextSub, hclosed.made,
        hclosed.closed⟩ fun id' hne => ?_
      rw [hstore]
      exact TenantStore.lookup_delete_of_ne fun _ => hne

/-- One call, whatever it is. -/
theorem follows_atomically {call : HubCall} (hstep : h.atomically call = .ok h') :
    Follows h call h' := by
  cases call with
  | create t =>
      have hholder : (h.create t).holder = none := (h.store_create t).2.trans hfree
      obtain rfl := eq_of_atomically hstep rfl hholder
      exact follows_create hfiled t
  | update id inp => exact follows_update hfiled hs hfree hstep
  | delete id => exact follows_delete hfiled hs hfree hstep
  | subscribe tenantID =>
      obtain ⟨h₁, hcall, -⟩ := hs.subscribe hfree tenantID
      have hholder : h₁.holder = none := (store_subscribe hcall).2.trans hfree
      obtain rfl := eq_of_atomically hstep hcall hholder
      exact follows_subscribe hfiled hs hcall
  | unsubscribe tenantID n =>
      obtain ⟨h₁, hcall, -⟩ := hs.unsubscribe hfree tenantID n
      have hholder : h₁.holder = none := (store_unsubscribe hcall).2.trans hfree
      obtain rfl := eq_of_atomically hstep hcall hholder
      exact follows_unsubscribe hfiled hs hfree hcall

end Calls

end Hub

end Claimward
