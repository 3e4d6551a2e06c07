import Claimward.Tenant.Tenants

/-!
# What `For` finds

The source walks a map, so the tenants come in any order, and sorts those it
keeps by ID. In a store where every tenant is filed under its ID no two tenants
have one ID, and neither the order of the walk nor the way of sorting shows.
-/

namespace Claimward

open GoText

/-- What is known of `sort.Slice` with the IDs compared. -/
def SortsByID (sort : List Tenant → List Tenant) : Prop :=
  ∀ ts, (sort ts).Perm ts ∧ (sort ts).Pairwise fun a b => a.id ≤ b.id

/-- The lists that say who belongs are the same. -/
def Tenant.SameLists (t t' : Tenant) : Prop :=
  t.domains = t'.domains ∧ t.groups = t'.groups ∧ t.idps = t'.idps

instance (t t' : Tenant) : Decidable (t.SameLists t') :=
  inferInstanceAs (Decidable (t.domains = t'.domains ∧ t.groups = t'.groups ∧ t.idps = t'.idps))

theorem Tenant.SameLists.has [CaseTables] {t t' : Tenant} (h : t.SameLists t') (m : Member) :
    t.has m = t'.has m := by
  obtain ⟨hdomains, hgroups, hidps⟩ := h
  simp only [Tenant.has, Tenant.hasDomain, hdomains, hgroups, hidps]

namespace TenantStore

variable [CaseTables] {s : TenantStore} {m : Member} {t t' : Tenant}

/-- `For`, with the order in which the map is walked and the way of sorting. -/
def forIn (s : TenantStore) (m : Member) (order : List Tenant)
    (sort : List Tenant → List Tenant) : Option (List Tenant) :=
  let out := order.filter (·.has m)
  if out.isEmpty then (s.tenants.lookup defaultID).map fun t => [t] else some (sort out)

omit [CaseTables] in
theorem sortsByID_insertionSort :
    SortsByID fun ts => ts.insertionSort fun a b => a.id ≤ b.id := by
  have : IsTrans Tenant fun a b => a.id ≤ b.id := ⟨fun _ _ _ => le_trans⟩
  have : Std.Total fun a b : Tenant => a.id ≤ b.id := ⟨fun a b => le_total a.id b.id⟩
  intro ts
  exact ⟨List.perm_insertionSort _ ts, List.pairwise_insertionSort _ ts⟩

omit [CaseTables] in
theorem Keyed.eq_of_id (h : s.Keyed) (ht : t ∈ Table.values s.tenants)
    (ht' : t' ∈ Table.values s.tenants) (hid : t.id = t'.id) : t = t' := by
  obtain ⟨id, hlookup⟩ := Table.mem_values.mp ht
  obtain ⟨id', hlookup'⟩ := Table.mem_values.mp ht'
  obtain rfl : id = id' := (h id t hlookup).symm.trans (hid.trans (h id' t' hlookup'))
  exact Option.some.inj (hlookup.symm.trans hlookup')

/-- Neither the order of the walk nor the way of sorting shows. -/
theorem Keyed.forIn_eq (h : s.Keyed) (m : Member) {order : List Tenant}
    {sort : List Tenant → List Tenant} (horder : order.Perm (Table.values s.tenants))
    (hsort : SortsByID sort) : s.forIn m order sort = s.for m := by
  have hout : (order.filter (·.has m)).Perm ((Table.values s.tenants).filter (·.has m)) :=
    horder.filter _
  simp only [forIn, TenantStore.for, hout.isEmpty_eq]
  split
  · rfl
  · obtain ⟨hperm, hsorted⟩ := hsort (order.filter (·.has m))
    obtain ⟨hperm', hsorted'⟩ := sortsByID_insertionSort
      ((Table.values s.tenants).filter (·.has m))
    refine congrArg some (List.Perm.eq_of_pairwise ?_ hsorted hsorted'
      (hperm.trans (hout.trans hperm'.symm)))
    intro a b ha hb hab hba
    have ha' := (List.mem_filter.mp (hperm.mem_iff.mp ha)).1
    have hb' := (List.mem_filter.mp (hperm'.mem_iff.mp hb)).1
    exact h.eq_of_id (horder.mem_iff.mp ha') hb' (le_antisymm hab hba)

/-- When somebody matches a tenant, `For` is the tenants they match. -/
theorem for_of_match (h : ∃ t ∈ Table.values s.tenants, t.has m = true) :
    ∃ ts, s.for m = some ts ∧
      ∀ t, t ∈ ts ↔ t ∈ Table.values s.tenants ∧ t.has m = true := by
  obtain ⟨t, ht, hhas⟩ := h
  have hsome : ((Table.values s.tenants).filter (·.has m)).isEmpty = false := by
    rw [List.isEmpty_eq_false_iff_exists_mem]
    exact ⟨t, List.mem_filter.mpr ⟨ht, hhas⟩⟩
  refine ⟨((Table.values s.tenants).filter (·.has m)).insertionSort fun a b => a.id ≤ b.id, ?_,
    fun t => ?_⟩
  · simp only [TenantStore.for, hsome, Bool.false_eq_true, if_false]
  · rw [List.mem_insertionSort, List.mem_filter]

/-- When somebody matches none, it is the default tenant alone. -/
theorem for_of_no_match (h : ∀ t ∈ Table.values s.tenants, t.has m = false) :
    s.for m = (s.tenants.lookup defaultID).map fun t => [t] := by
  have hnone : ((Table.values s.tenants).filter (·.has m)).isEmpty = true := by
    rw [List.isEmpty_iff, List.filter_eq_nil_iff]
    intro t ht
    rw [h t ht]
    exact Bool.false_ne_true
  simp only [TenantStore.for, hnone, if_true]

/-- Somebody is a member of the tenants they match, or of the default tenant when
they match none. -/
theorem isMember_iff {id : String} :
    s.isMember id m = some true ↔
      (∃ t ∈ Table.values s.tenants, t.has m = true ∧ t.id = id) ∨
        (∀ t ∈ Table.values s.tenants, t.has m = false) ∧
          ∃ t, s.tenants.lookup defaultID = some t ∧ t.id = id := by
  rw [isMember_eq_some_true]
  by_cases hmatch : ∃ t ∈ Table.values s.tenants, t.has m = true
  · obtain ⟨ts, hts, hmem⟩ := for_of_match hmatch
    have hsome : ¬ ∀ t ∈ Table.values s.tenants, t.has m = false := by
      obtain ⟨t, ht, hhas⟩ := hmatch
      exact fun h => absurd (h t ht) (by simp [hhas])
    simp only [hts, Option.some.injEq, exists_eq_left', hmem, hsome, false_and, or_false,
      and_assoc]
  · have hnone : ∀ t ∈ Table.values s.tenants, t.has m = false := by
      intro t ht
      exact Bool.eq_false_iff.mpr fun hhas => hmatch ⟨t, ht, hhas⟩
    rw [for_of_no_match hnone]
    constructor
    · rintro ⟨ts, hts, t, ht, hid⟩
      obtain ⟨d, hd, rfl⟩ := Option.map_eq_some_iff.mp hts
      exact .inr ⟨hnone, d, hd, List.mem_singleton.mp ht ▸ hid⟩
    · rintro (⟨t, ht, hhas, -⟩ | ⟨-, d, hd, hid⟩)
      · exact absurd ⟨t, ht, hhas⟩ hmatch
      · exact ⟨[d], by rw [hd]; rfl, d, List.mem_singleton_self d, hid⟩

/-- What is under an ID after an `Update` that leaves the lists of who belongs as
they are has the same ID and the same members as before. -/
theorem lookup_update_alike {id : String} {inp : Tenant} (ht : s.tenants.lookup id = some t)
    (hlists : inp.SameLists t) (m : Member) (id' : String) :
    ((s.update id inp).2.tenants.lookup id').map (fun u => (u.id, u.has m)) =
      (s.tenants.lookup id').map fun u => (u.id, u.has m) := by
  have hhas : ({ inp with id := t.id, serial := t.serial + 1 } : Tenant).has m = t.has m :=
    Tenant.SameLists.has hlists m
  simp only [TenantStore.update, ht, Table.lookup_insert_eq]
  split
  · rename_i hid
    rw [hid, ht, Option.map_some, Option.map_some, hhas]
  · rfl

/-- Such an `Update` takes nobody off a tenant. -/
theorem isMember_update {id id' : String} {inp : Tenant} (ht : s.tenants.lookup id = some t)
    (hlists : inp.SameLists t) (h : s.isMember id' m = some true) :
    (s.update id inp).2.isMember id' m = some true := by
  have halike := lookup_update_alike ht hlists m
  have hforth : ∀ k u, s.tenants.lookup k = some u →
      ∃ u', (s.update id inp).2.tenants.lookup k = some u' ∧ u'.id = u.id ∧ u'.has m = u.has m := by
    intro k u hu
    obtain ⟨u', hu', heq⟩ := Option.map_eq_some_iff.mp ((halike k).trans (by rw [hu]; rfl))
    exact ⟨u', hu', (Prod.mk.inj heq).1, (Prod.mk.inj heq).2⟩
  rw [isMember_iff] at h ⊢
  rcases h with ⟨u, hu, hhas, hid⟩ | ⟨hnone, d, hd, hid⟩
  · obtain ⟨k, hk⟩ := Table.mem_values.mp hu
    obtain ⟨u', hu', hid', hhas'⟩ := hforth k u hk
    exact .inl ⟨u', Table.mem_values.mpr ⟨k, hu'⟩, hhas'.trans hhas, hid'.trans hid⟩
  · obtain ⟨d', hd', hid', -⟩ := hforth defaultID d hd
    refine .inr ⟨fun u' hu' => ?_, d', hd', hid'.trans hid⟩
    obtain ⟨k, hk⟩ := Table.mem_values.mp hu'
    obtain ⟨u, hu, heq⟩ := Option.map_eq_some_iff.mp ((halike k).symm.trans (by rw [hk]; rfl))
    rw [← (Prod.mk.inj heq).2]
    exact hnone u (Table.mem_values.mpr ⟨k, hu⟩)

/-- The tenants are listed by ID, none twice. -/
theorem Keyed.for_increasing (h : s.Keyed) {ts : List Tenant} (hfor : s.for m = some ts) :
    ts.Pairwise fun a b => a.id < b.id := by
  simp only [TenantStore.for] at hfor
  split at hfor
  · obtain ⟨d, -, rfl⟩ := Option.map_eq_some_iff.mp hfor
    exact List.pairwise_singleton _ d
  · obtain rfl := Option.some.inj hfor
    obtain ⟨hperm, hsorted⟩ := sortsByID_insertionSort
      ((Table.values s.tenants).filter (·.has m))
    have hnodup : (Table.values s.tenants).Nodup := by
      apply Table.nodup_values
      intro id id' t hid hid'
      rw [← h id t hid, ← h id' t hid']
    have hdistinct := hperm.symm.nodup (hnodup.filter _)
    refine (hsorted.and hdistinct).imp_of_mem fun ha hb hab => lt_of_le_of_ne hab.1 ?_
    intro heq
    have ha' := (List.mem_filter.mp (hperm.mem_iff.mp ha)).1
    have hb' := (List.mem_filter.mp (hperm.mem_iff.mp hb)).1
    exact hab.2 (h.eq_of_id ha' hb' heq)

end TenantStore

end Claimward
