import Claimward.Library.GoText
import Claimward.Library.Table
import Mathlib.Data.List.Sort
import Mathlib.Data.String.Basic

/-!
# Tenants and membership

`internal/tenant`: the tenants by ID, who belongs to which, and the calls of
the admin API that change them. A call that would dereference a missing
default tenant answers `none`, which is the panic of the source.
-/

namespace Claimward

open GoText

/-- The tenant used for identities that match no other. -/
def defaultID : String := "default"

structure Tenant where
  id : String
  name : String
  domains : List String
  groups : List String
  idps : List String
  allowedIPs : List String
  dns : List String
  serial : UInt64
  deriving DecidableEq, Repr

structure RouteSet where
  allowedIPs : List String
  dns : List String
  serial : UInt64
  deriving DecidableEq, Repr

/-- Who somebody is, as their token says. -/
structure Member where
  email : String
  emailVerified : Bool
  groups : List String
  idp : String
  deriving DecidableEq, Repr

def Tenant.routes (t : Tenant) : RouteSet := ⟨t.allowedIPs, t.dns, t.serial⟩

/-- The tenants by ID. -/
structure TenantStore where
  tenants : Table String Tenant

inductive TenantError where
  | idOrNameRequired
  | alreadyExists (id : String)
  | notFound (id : String)
  | cannotDeleteDefault
  deriving DecidableEq, Repr

/-- A store seeded with the default tenant carrying the given routes. -/
def TenantStore.new (defaultAllowedIPs defaultDNS : List String) : TenantStore :=
  ⟨AList.insert defaultID
    { id := defaultID, name := "Default", domains := [], groups := [], idps := [],
      allowedIPs := defaultAllowedIPs, dns := defaultDNS, serial := 1 } ∅⟩

section Membership

variable [CaseTables]

/-- Only the domain of a verified address counts. -/
def Tenant.hasDomain (t : Tenant) (m : Member) : Bool :=
  m.emailVerified &&
    match afterLast '@' m.email with
    | none => false
    | some domain => t.domains.any fun d => equalFold (trimSpace d) domain

def Tenant.has (t : Tenant) (m : Member) : Bool :=
  t.hasDomain m ||
    (t.groups.any fun g => m.groups.any fun mg => trimSpace g ≠ "" && trimSpace g = mg) ||
    (m.idp ≠ "" && t.idps.any fun idp => trimSpace idp = m.idp)

/-- Every tenant `m` belongs to, by ID; the default tenant alone when `m`
matches none. -/
def TenantStore.for (s : TenantStore) (m : Member) : Option (List Tenant) :=
  let out := (Table.values s.tenants).filter (·.has m)
  if out.isEmpty then (s.tenants.lookup defaultID).map fun t => [t]
  else some (out.insertionSort fun a b => a.id ≤ b.id)

def TenantStore.isMember (s : TenantStore) (id : String) (m : Member) : Option Bool :=
  (s.for m).map fun ts => ts.any fun t => t.id = id

/-- Two members who differ at most in an address that is verified for neither. -/
structure Member.AgreesUnverified (m m' : Member) : Prop where
  unverified : m.emailVerified = false
  unverified' : m'.emailVerified = false
  groups : m.groups = m'.groups
  idp : m.idp = m'.idp

variable {m m' : Member}

theorem Member.AgreesUnverified.has (h : m.AgreesUnverified m') (t : Tenant) :
    t.has m = t.has m' := by
  simp only [Tenant.has, Tenant.hasDomain, h.unverified, h.unverified', h.groups, h.idp,
    Bool.false_and]

/-- `For` does not look at an address that is not verified. -/
theorem Member.AgreesUnverified.for (h : m.AgreesUnverified m') (s : TenantStore) :
    s.for m = s.for m' := by
  have hhas : (fun t : Tenant => t.has m) = fun t => t.has m' := funext h.has
  simp only [TenantStore.for, hhas]

theorem Member.AgreesUnverified.isMember (h : m.AgreesUnverified m') (s : TenantStore)
    (id : String) : s.isMember id m = s.isMember id m' := by
  simp only [TenantStore.isMember, h.for s]

end Membership

/-- The current route set of a tenant, the default one's if it is unknown. -/
def TenantStore.routes (s : TenantStore) (tenantID : String) : Option RouteSet :=
  match s.tenants.lookup tenantID with
  | some t => some t.routes
  | none => (s.tenants.lookup defaultID).map Tenant.routes

/-- The characters of an ID that a character of a name becomes. -/
def slugChar (r : Char) : List Char :=
  if ('a' ≤ r ∧ r ≤ 'z') ∨ ('0' ≤ r ∧ r ≤ '9') then [r]
  else if r = ' ' ∨ r = '_' ∨ r = '-' ∨ r = '.' then ['-']
  else []

def slug [CaseTables] (s : String) : String :=
  trim '-' (String.ofList ((toLower (trimSpace s)).toList.flatMap slugChar))

namespace TenantStore

/-- The ID a new tenant gets: from the one given, else from its name. -/
def createID [CaseTables] (t : Tenant) : String :=
  if slug t.id = "" then slug t.name else slug t.id

def create [CaseTables] (s : TenantStore) (t : Tenant) : Except TenantError Tenant × TenantStore :=
  let id := createID t
  if id = "" then (.error .idOrNameRequired, s)
  else if (s.tenants.lookup id).isSome then (.error (.alreadyExists id), s)
  else
    let t := { t with id := id, serial := 1 }
    (.ok t, ⟨s.tenants.insert id t⟩)

def update (s : TenantStore) (id : String) (inp : Tenant) :
    Except TenantError Tenant × TenantStore :=
  match s.tenants.lookup id with
  | none => (.error (.notFound id), s)
  | some t =>
      let t := { inp with id := t.id, serial := t.serial + 1 }
      (.ok t, ⟨s.tenants.insert id t⟩)

def delete (s : TenantStore) (id : String) : Except TenantError Unit × TenantStore :=
  if id = defaultID then (.error .cannotDeleteDefault, s)
  else match s.tenants.lookup id with
    | none => (.error (.notFound id), s)
    | some _ => (.ok (), ⟨s.tenants.erase id⟩)

/-- The default tenant is there, so no call that falls back to it panics. -/
def HasDefault (s : TenantStore) : Prop := ∃ t, s.tenants.lookup defaultID = some t

theorem hasDefault_new (ips dns : List String) : (new ips dns).HasDefault :=
  ⟨_, AList.lookup_insert _⟩

theorem exists_lookup_insert {s : TenantStore} {id : String}
    (h : ∃ t, s.tenants.lookup id = some t) (id' : String) (t' : Tenant) :
    ∃ t, (s.tenants.insert id' t').lookup id = some t := by
  obtain ⟨t, ht⟩ := h
  by_cases hid : id = id'
  · exact ⟨t', by rw [Table.lookup_insert_eq, if_pos hid]⟩
  · exact ⟨t, by rw [Table.lookup_insert_eq, if_neg hid, ht]⟩

theorem create_cases [CaseTables] (s : TenantStore) (t : Tenant) :
    (s.create t).2 = s ∨ ∃ id t', (s.create t).2 = ⟨s.tenants.insert id t'⟩ := by
  simp only [create]
  split
  · exact Or.inl rfl
  · split
    · exact Or.inl rfl
    · exact Or.inr ⟨_, _, rfl⟩

/-- What a successful `Create` has done. -/
theorem create_eq_ok [CaseTables] {s s' : TenantStore} {t t' : Tenant}
    (h : s.create t = (.ok t', s')) :
    s.tenants.lookup t'.id = none ∧ t'.serial = 1 ∧ s' = ⟨s.tenants.insert t'.id t'⟩ := by
  simp only [TenantStore.create] at h
  split at h
  · simp at h
  · split at h
    · simp at h
    · rename_i hnone
      simp only [Prod.mk.injEq, Except.ok.injEq] at h
      obtain ⟨rfl, rfl⟩ := h
      dsimp only
      exact ⟨Option.not_isSome_iff_eq_none.mp hnone, rfl, rfl⟩

theorem create_eq_error [CaseTables] {s s' : TenantStore} {t : Tenant} {e : TenantError}
    (h : s.create t = (.error e, s')) : s' = s := by
  simp only [TenantStore.create] at h
  split at h
  · exact (Prod.mk.inj h).2.symm
  · split at h
    · exact (Prod.mk.inj h).2.symm
    · exact absurd (Prod.mk.inj h).1 (by simp)

/-- What a successful `Update` has done. -/
theorem update_eq_ok {s s' : TenantStore} {id : String} {inp t : Tenant}
    (h : s.update id inp = (.ok t, s')) :
    ∃ old, s.tenants.lookup id = some old ∧ t.serial = old.serial + 1 ∧
      s' = ⟨s.tenants.insert id t⟩ := by
  unfold TenantStore.update at h
  split at h
  · simp at h
  · rename_i old hold
    obtain ⟨ht, rfl⟩ := Prod.mk.inj h
    obtain rfl := Except.ok.inj ht
    exact ⟨old, hold, rfl, rfl⟩

theorem update_eq_error {s s' : TenantStore} {id : String} {inp : Tenant} {e : TenantError}
    (h : s.update id inp = (.error e, s')) : s' = s := by
  unfold TenantStore.update at h
  split at h
  · exact (Prod.mk.inj h).2.symm
  · exact absurd (Prod.mk.inj h).1 (by simp)

/-- `Delete` changes nothing for another tenant, and nothing at all when it is
called for the default tenant. -/
theorem lookup_delete_of_ne {s : TenantStore} {id id' : String} (h : id ≠ defaultID → id' ≠ id) :
    (s.delete id).2.tenants.lookup id' = s.tenants.lookup id' := by
  unfold TenantStore.delete
  split
  · rfl
  · rename_i hdefault
    split
    · rfl
    · rw [Table.lookup_erase_eq, if_neg (h hdefault)]

/-- Where a tenant comes from that is there after `Create`. -/
theorem lookup_create [CaseTables] {s : TenantStore} {t inp : Tenant} {id : String}
    (h : (s.create inp).2.tenants.lookup id = some t) :
    t.serial = 1 ∨ s.tenants.lookup id = some t := by
  simp only [TenantStore.create] at h
  split at h
  · exact Or.inr h
  · split at h
    · exact Or.inr h
    · rw [Table.lookup_insert_eq] at h
      split at h
      · exact Or.inl (Option.some.inj h ▸ rfl)
      · exact Or.inr h

/-- Where a tenant comes from that is there after `Update`. -/
theorem lookup_update {s : TenantStore} {t inp : Tenant} {id id' : String}
    (h : (s.update id inp).2.tenants.lookup id' = some t) :
    s.tenants.lookup id' = some t ∨
      ∃ old, s.tenants.lookup id' = some old ∧ t.serial = old.serial + 1 := by
  unfold TenantStore.update at h
  split at h
  · exact Or.inl h
  · rename_i old hold
    rw [Table.lookup_insert_eq] at h
    split at h
    · rename_i hid
      exact Or.inr ⟨old, hid ▸ hold, Option.some.inj h ▸ rfl⟩
    · exact Or.inl h

theorem lookup_of_lookup_delete {s : TenantStore} {t : Tenant} {id id' : String}
    (h : (s.delete id).2.tenants.lookup id' = some t) : s.tenants.lookup id' = some t := by
  unfold TenantStore.delete at h
  split at h
  · exact h
  · split at h
    · exact h
    · rw [Table.lookup_erase_eq] at h
      split at h
      · exact absurd h (by simp)
      · exact h

/-- `Create` leaves no tenant out. -/
theorem exists_lookup_create [CaseTables] {s : TenantStore} {id : String}
    (h : ∃ t, s.tenants.lookup id = some t) (inp : Tenant) :
    ∃ t, (s.create inp).2.tenants.lookup id = some t := by
  rcases create_cases s inp with heq | ⟨id', t', heq⟩
  · rw [heq]
    exact h
  · rw [heq]
    exact exists_lookup_insert h id' t'

/-- `Update` leaves no tenant out. -/
theorem exists_lookup_update {s : TenantStore} {id : String}
    (h : ∃ t, s.tenants.lookup id = some t) (id' : String) (inp : Tenant) :
    ∃ t, (s.update id' inp).2.tenants.lookup id = some t := by
  unfold TenantStore.update
  split
  · exact h
  · exact exists_lookup_insert h id' _

theorem HasDefault.create [CaseTables] {s : TenantStore} (h : s.HasDefault) (t : Tenant) :
    (s.create t).2.HasDefault := exists_lookup_create h t

theorem HasDefault.update {s : TenantStore} (h : s.HasDefault) (id : String) (inp : Tenant) :
    (s.update id inp).2.HasDefault := exists_lookup_update h id inp

theorem HasDefault.delete {s : TenantStore} (h : s.HasDefault) (id : String) :
    (s.delete id).2.HasDefault := by
  unfold TenantStore.delete
  split
  · exact h
  · rename_i hid
    split
    · exact h
    · obtain ⟨d, hd⟩ := h
      exact ⟨d, by rw [Table.lookup_erase_eq, if_neg (Ne.symm hid), hd]⟩

theorem HasDefault.routes {s : TenantStore} (h : s.HasDefault) (id : String) :
    ∃ rs, s.routes id = some rs := by
  obtain ⟨d, hd⟩ := h
  cases hid : s.tenants.lookup id with
  | none => exact ⟨d.routes, by simp [TenantStore.routes, hid, hd]⟩
  | some t => exact ⟨t.routes, by simp [TenantStore.routes, hid]⟩

/-- Every tenant is filed under its ID. -/
def Keyed (s : TenantStore) : Prop := ∀ id t, s.tenants.lookup id = some t → t.id = id

theorem keyed_new (ips dns : List String) : (new ips dns).Keyed := by
  intro id t h
  simp only [new, Table.lookup_insert_eq] at h
  split at h
  · rename_i hid
    rw [hid, ← Option.some.inj h]
  · simp at h

theorem Keyed.create [CaseTables] {s : TenantStore} (h : s.Keyed) (inp : Tenant) :
    (s.create inp).2.Keyed := by
  cases hcreate : s.create inp with
  | mk answer s' =>
      cases answer with
      | error e =>
          rw [create_eq_error hcreate]
          exact h
      | ok t' =>
          obtain ⟨-, -, rfl⟩ := create_eq_ok hcreate
          intro id t hid
          rw [Table.lookup_insert_eq] at hid
          split at hid
          · rename_i heq
            rw [heq, ← Option.some.inj hid]
          · exact h id t hid

theorem Keyed.update {s : TenantStore} (h : s.Keyed) (id : String) (inp : Tenant) :
    (s.update id inp).2.Keyed := by
  unfold TenantStore.update
  split
  · exact h
  · rename_i old hold
    intro id' t hid
    rw [Table.lookup_insert_eq] at hid
    split at hid
    · rename_i heq
      rw [heq, ← Option.some.inj hid]
      exact h id old hold
    · exact h id' t hid

theorem Keyed.delete {s : TenantStore} (h : s.Keyed) (id : String) : (s.delete id).2.Keyed :=
  fun id' t hid => h id' t (lookup_of_lookup_delete hid)

/-- A tenant that `For` finds is filed in the store. -/
theorem Keyed.lookup_of_for [CaseTables] {s : TenantStore} (h : s.Keyed) {m : Member}
    {ts : List Tenant} (hfor : s.for m = some ts) {t : Tenant} (ht : t ∈ ts) :
    s.tenants.lookup t.id = some t := by
  have hfiled : ∃ id, s.tenants.lookup id = some t := by
    simp only [TenantStore.for] at hfor
    split at hfor
    · obtain ⟨d, hd, rfl⟩ := Option.map_eq_some_iff.mp hfor
      rw [List.mem_singleton] at ht
      exact ⟨defaultID, ht ▸ hd⟩
    · obtain rfl := Option.some.inj hfor
      rw [List.mem_insertionSort] at ht
      exact Table.mem_values.mp (List.mem_filter.mp ht).1
  obtain ⟨id, hid⟩ := hfiled
  rw [h id t hid]
  exact hid

/-- `IsMember` asks whether a tenant of that ID is among those of `For`. -/
theorem isMember_eq_some_true [CaseTables] {s : TenantStore} {id : String} {m : Member} :
    s.isMember id m = some true ↔ ∃ ts, s.for m = some ts ∧ ∃ t ∈ ts, t.id = id := by
  simp [isMember, Option.map_eq_some_iff]

end TenantStore

end Claimward
