import Claimward.Tenant.Atomic
import Claimward.Tenant.Slug

/-!
# The tenant store over whole runs

Any sequence of calls, with any arguments, keeps the store as the rest of the
program takes it to be: the default tenant is there, every tenant is filed under
its ID, the IDs are IDs, and the serial of a tenant counts its updates. How many
updates that were is not in the store; `HubCall.tally` counts them beside it.
-/

namespace Claimward

open Runs GoText

section Tally

/-- The counts after `Create` and after `Update` have answered. -/
def countCreated (n : String → ℕ) : Except TenantError Tenant → String → ℕ
  | .ok t => Function.update n t.id 0
  | .error _ => n

def countUpdated (n : String → ℕ) (id : String) : Except TenantError Tenant → String → ℕ
  | .ok _ => Function.update n id (n id + 1)
  | .error _ => n

variable [CaseTables]

/-- How many times each tenant has been updated since it was created. -/
def HubCall.tally (s : TenantStore) (n : String → ℕ) : HubCall → String → ℕ
  | .create t => countCreated n (s.create t).1
  | .update id inp => countUpdated n id (s.update id inp).1
  | _ => n

/-- One call, with the count of the updates beside the store. -/
def Hub.counted (x : Hub × (String → ℕ)) (c : HubCall) : Except Fault (Hub × (String → ℕ)) :=
  (x.1.atomically c).map fun h => (h, c.tally x.1.store x.2)

end Tally

namespace TenantStore

/-- The store as the rest of the program takes it to be. -/
structure WellKept [CaseTables] (s : TenantStore) (n : String → ℕ) : Prop where
  hasDefault : s.HasDefault
  keyed : s.Keyed
  proper : ∀ id t, s.tenants.lookup id = some t → ProperID id
  serial : ∀ id t, s.tenants.lookup id = some t → t.serial = UInt64.ofNat (1 + n id)

/-- The ID under which a tenant is created. -/
theorem create_id [CaseTables] {s s' : TenantStore} {t t' : Tenant}
    (h : s.create t = (.ok t', s')) : t'.id = createID t ∧ createID t ≠ "" := by
  simp only [TenantStore.create] at h
  split at h
  · simp at h
  · rename_i hne
    split at h
    · simp at h
    · have hid := congrArg Tenant.id (Except.ok.inj (Prod.mk.inj h).1)
      dsimp only at hid
      exact ⟨hid.symm, hne⟩

section WellKept

variable [GoTables] {s : TenantStore} {n : String → ℕ}

theorem wellKept_new (ips dns : List String) : (new ips dns).WellKept fun _ => 0 where
  hasDefault := hasDefault_new ips dns
  keyed := keyed_new ips dns
  proper id t h := by
    simp only [new, Table.lookup_insert_eq] at h
    split at h
    · rename_i hid
      exact hid ▸ properID_default
    · simp at h
  serial id t h := by
    simp only [new, Table.lookup_insert_eq] at h
    split at h
    · exact Option.some.inj h ▸ rfl
    · simp at h

/-- A tenant that is filed under its ID with the serial that its count asks for. -/
theorem WellKept.insert (h : s.WellKept n) {s' : TenantStore} {id : String} {t : Tenant} {k : ℕ}
    (htenants : s'.tenants = s.tenants.insert id t) (hdefault : s'.HasDefault)
    (hkeyed : s'.Keyed) (hproper : ProperID id) (hserial : t.serial = UInt64.ofNat (1 + k)) :
    s'.WellKept (Function.update n id k) where
  hasDefault := hdefault
  keyed := hkeyed
  proper id' t' hid := by
    rw [htenants, Table.lookup_insert_eq] at hid
    split at hid
    · rename_i heq
      exact heq ▸ hproper
    · exact h.proper id' t' hid
  serial id' t' hid := by
    rw [htenants, Table.lookup_insert_eq] at hid
    split at hid
    · rename_i heq
      rw [heq, Function.update_self, ← Option.some.inj hid, hserial]
    · rename_i hother
      rw [Function.update_of_ne hother]
      exact h.serial id' t' hid

theorem WellKept.create (h : s.WellKept n) (inp : Tenant) :
    (s.create inp).2.WellKept ((HubCall.create inp).tally s n) := by
  have hkeyed := h.keyed.create inp
  have hdefault := h.hasDefault.create inp
  cases hcreate : s.create inp with
  | mk answer s' =>
      rw [hcreate] at hkeyed hdefault
      cases answer with
      | error e =>
          have htally : (HubCall.create inp).tally s n = n := by
            rw [HubCall.tally, hcreate, countCreated]
          rw [htally, create_eq_error hcreate]
          exact h
      | ok t =>
          have htally : (HubCall.create inp).tally s n = Function.update n t.id 0 := by
            rw [HubCall.tally, hcreate, countCreated]
          obtain ⟨hid, hne⟩ := create_id hcreate
          have hproper : ProperID t.id := hid ▸ properID_createID hne
          obtain ⟨-, hserial, rfl⟩ := create_eq_ok hcreate
          rw [htally]
          exact h.insert rfl hdefault hkeyed hproper hserial

theorem WellKept.update (h : s.WellKept n) (id : String) (inp : Tenant) :
    (s.update id inp).2.WellKept ((HubCall.update id inp).tally s n) := by
  have hkeyed := h.keyed.update id inp
  have hdefault := h.hasDefault.update id inp
  cases hupdate : s.update id inp with
  | mk answer s' =>
      rw [hupdate] at hkeyed hdefault
      cases answer with
      | error e =>
          have htally : (HubCall.update id inp).tally s n = n := by
            rw [HubCall.tally, hupdate, countUpdated]
          rw [htally, update_eq_error hupdate]
          exact h
      | ok t =>
          have htally : (HubCall.update id inp).tally s n = Function.update n id (n id + 1) := by
            rw [HubCall.tally, hupdate, countUpdated]
          obtain ⟨old, hold, hserial, rfl⟩ := update_eq_ok hupdate
          rw [htally]
          refine h.insert rfl hdefault hkeyed (h.proper id old hold) ?_
          rw [hserial, h.serial id old hold, ← Nat.add_assoc, UInt64.ofNat_add (1 + n id) 1]
          rfl

theorem WellKept.delete (h : s.WellKept n) (id : String) : (s.delete id).2.WellKept n where
  hasDefault := h.hasDefault.delete id
  keyed := h.keyed.delete id
  proper id' t hid := h.proper id' t (lookup_of_lookup_delete hid)
  serial id' t hid := h.serial id' t (lookup_of_lookup_delete hid)

theorem WellKept.onStore (h : s.WellKept n) (c : HubCall) :
    (c.onStore s).WellKept (c.tally s n) := by
  cases c with
  | create t => exact h.create t
  | update id inp => exact h.update id inp
  | delete id => exact h.delete id
  | subscribe id => exact h
  | unsubscribe id sub => exact h

end WellKept

theorem HasDefault.for [CaseTables] {s : TenantStore} (h : s.HasDefault) (m : Member) :
    ∃ ts, s.for m = some ts := by
  obtain ⟨d, hd⟩ := h
  simp only [TenantStore.for, hd, Option.map_some]
  split
  · exact ⟨_, rfl⟩
  · exact ⟨_, rfl⟩

end TenantStore

namespace Hub

section Refused

variable [CaseTables] {h : Hub}

/-- A call that the tenant store refuses changes nothing, watchers included. -/
theorem atomically_refused (hfree : h.holder = none) :
    (∀ t e, (h.store.create t).1 = .error e → h.atomically (.create t) = .ok h) ∧
      (∀ id inp e, (h.store.update id inp).1 = .error e →
        h.atomically (.update id inp) = .ok h) ∧
      ∀ id e, (h.store.delete id).1 = .error e → h.atomically (.delete id) = .ok h := by
  refine ⟨fun t e he => ?_, fun id inp e he => ?_, fun id e he => ?_⟩
  · refine atomically_of_call (congrArg Except.ok ?_) hfree
    unfold Hub.create
    split
    · rename_i hok
      rw [hok] at he
      exact absurd he (by simp)
    · rfl
  · refine atomically_of_call (congrArg Except.ok ?_) hfree
    unfold Hub.update
    split
    · rename_i hok
      rw [hok] at he
      exact absurd he (by simp)
    · rfl
  · refine atomically_of_call (congrArg Except.ok ?_) hfree
    unfold TenantStore.delete at he
    unfold Hub.delete
    split
    · rfl
    · rename_i hid
      rw [if_neg hid] at he
      split
      · rfl
      · rename_i t ht
        simp [ht] at he

end Refused

section Runs

variable [GoTables]

/-- What holds between two calls. -/
structure Kept (x : Hub × (String → ℕ)) : Prop where
  sound : x.1.Sound
  free : x.1.holder = none
  wellKept : x.1.store.WellKept x.2

theorem kept_new (ips dns : List String) : Kept (new ips dns, fun _ => 0) :=
  ⟨sound_new ips dns, rfl, TenantStore.wellKept_new ips dns⟩

theorem Kept.counted {x : Hub × (String → ℕ)} (hx : Kept x) (c : HubCall) :
    ∃ x', counted x c = .ok x' ∧ Kept x' := by
  obtain ⟨h', hcall, hs', hfree', hstore⟩ := hx.sound.atomically hx.free c
  refine ⟨(h', c.tally x.1.store x.2), ?_, hs', hfree', ?_⟩
  · rw [Hub.counted, hcall]
    rfl
  · change h'.store.WellKept _
    rw [hstore]
    exact hx.wellKept.onStore c

theorem tally_of_counted {x x' : Hub × (String → ℕ)} {c : HubCall}
    (h : counted x c = .ok x') : x'.2 = c.tally x.1.store x.2 := by
  unfold Hub.counted at h
  cases hcall : x.1.atomically c with
  | error e => exact absurd h (by simp [hcall, Except.map])
  | ok h' =>
      rw [hcall] at h
      rw [← Except.ok.inj h]

theorem kept_run (ips dns : List String) (calls : List HubCall) :
    ∃ x, runFallible counted (new ips dns, fun _ => 0) calls = .ok x ∧ Kept x :=
  runFallible_invariant (fun x _ => Kept x) (fun _ c _ hx => hx.counted c) (kept_new ips dns)

/-- Every sequence of calls runs to its end, and then: the default tenant is
there; every tenant is filed under its ID, which is a text that `slug` leaves
alone; its serial is one more than the number of its updates, up to the size of
the counter; a call that is refused changes nothing; and no call that falls back
to the default tenant misses it. -/
theorem store_invariant (ips dns : List String) (calls : List HubCall) :
    ∃ h n, runFallible counted (new ips dns, fun _ => 0) calls = .ok (h, n) ∧
      h.store.HasDefault ∧
      (∀ id t, h.store.tenants.lookup id = some t →
        t.id = id ∧ ProperID id ∧ t.serial = UInt64.ofNat (1 + n id) ∧
          (1 + n id < 2 ^ 64 → t.serial.toNat = 1 + n id)) ∧
      ((∀ t e, (h.store.create t).1 = .error e → h.atomically (.create t) = .ok h) ∧
        (∀ id inp e, (h.store.update id inp).1 = .error e →
          h.atomically (.update id inp) = .ok h) ∧
        ∀ id e, (h.store.delete id).1 = .error e → h.atomically (.delete id) = .ok h) ∧
      (∀ m, ∃ ts, h.store.for m = some ts) ∧ (∀ id, ∃ rs, h.store.routes id = some rs) ∧
      (∀ id, ∃ h', h.atomically (.subscribe id) = .ok h') ∧
      ∀ id sub, ∃ h', h.atomically (.unsubscribe id sub) = .ok h' := by
  obtain ⟨⟨h, n⟩, hrun, hsound, hfree, hkept⟩ := kept_run ips dns calls
  have hends (c : HubCall) : ∃ h', h.atomically c = .ok h' := by
    obtain ⟨h', hcall, -⟩ := hsound.atomically hfree c
    exact ⟨h', hcall⟩
  refine ⟨h, n, hrun, hkept.hasDefault, fun id t ht => ?_, atomically_refused hfree,
    hkept.hasDefault.for, hkept.hasDefault.routes, fun id => hends _, fun id sub => hends _⟩
  have hserial := hkept.serial id t ht
  refine ⟨hkept.keyed id t ht, hkept.proper id t ht, hserial, fun hlt => ?_⟩
  rw [hserial, UInt64.toNat_ofNat', Nat.mod_eq_of_lt hlt]

/-- The default tenant is updated again and again. -/
theorem kept_updates (ips dns : List String) (inp : Tenant) (k : ℕ) :
    ∃ x, runFallible counted (new ips dns, fun _ => 0)
        (List.replicate k (.update defaultID inp)) = .ok x ∧ Kept x ∧ x.2 defaultID = k := by
  induction k with
  | zero => exact ⟨_, rfl, kept_new ips dns, rfl⟩
  | succ k ih =>
      obtain ⟨x, hrun, hx, hcount⟩ := ih
      obtain ⟨x', hcall, hx'⟩ := hx.counted (.update defaultID inp)
      refine ⟨x', ?_, hx', ?_⟩
      · rw [List.replicate_succ', runFallible_append hrun, runFallible_cons hcall,
          runFallible_nil]
      · obtain ⟨t, ht⟩ := hx.wellKept.hasDefault
        simp only [tally_of_counted hcall, HubCall.tally, TenantStore.update, ht, countUpdated,
          Function.update_self, hcount]

end Runs

/-- After `2 ^ 64 - 1` updates, one fewer than there are serials, the serial is 0. -/
theorem serial_wraps_to_zero :
    let _ : GoTables := asciiTables
    ∃ calls h n t, runFallible counted (new [] [], fun _ => 0) calls = .ok (h, n) ∧
      h.store.tenants.lookup defaultID = some t ∧ n defaultID < 2 ^ 64 ∧ t.serial = 0 ∧
        t.serial.toNat ≠ 1 + n defaultID := by
  intro _
  obtain ⟨⟨h, n⟩, hrun, hkept, hcount⟩ :=
    kept_updates [] [] ⟨"", "", [], [], [], [], [], 0⟩ (2 ^ 64 - 1)
  dsimp only at hcount
  obtain ⟨t, ht⟩ := hkept.wellKept.hasDefault
  have hserial : t.serial = 0 :=
    calc t.serial = UInt64.ofNat (1 + n defaultID) := hkept.wellKept.serial defaultID t ht
      _ = UInt64.ofNat (1 + (2 ^ 64 - 1)) := by rw [hcount]
      _ = 0 := rfl
  refine ⟨_, h, n, t, hrun, ht, ?_, hserial, ?_⟩
  · rw [hcount]
    decide
  · rw [hserial, hcount]
    decide

end Hub

end Claimward
