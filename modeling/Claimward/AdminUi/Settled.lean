import Claimward.AdminUi.Form

/-!
# Saving again changes nothing

Opening a tenant in the form and saving it may change its lists: entries are cut
at commas, trimmed, and left out when they are blank. It does so once. What the
form has sent it shows and sends again as it is, so a tenant that has been through
the form keeps its name and its lists however often it is saved.
-/

namespace Claimward.AdminUi

open GoText

/-- The form sends the name and the lists back as they are. -/
structure Intact (t : Tenant) : Prop where
  name : Trimmed jsSpace t.name.toList
  domains : ∀ e ∈ t.domains, Entry jsSpace ',' e
  groups : ∀ e ∈ t.groups, Entry jsSpace ',' e
  idps : ∀ e ∈ t.idps, Entry jsSpace ',' e
  allowedIPs : ∀ e ∈ t.allowedIPs, Entry jsSpace ',' e
  dns : ∀ e ∈ t.dns, Entry jsSpace ',' e

/-- A tenant is opened in the form and saved, if it is there. -/
def save (id : String) (s : TenantStore) : TenantStore :=
  match s.tenants.lookup id with
  | none => s
  | some t => (s.update id (submit t)).2

theorem entry_of_mem_list {s e : String} (h : e ∈ list s) : Entry jsSpace ',' e :=
  entry_of_mem_fields h

/-- A list comes back as it was shown if all of it could be read as entries. -/
theorem list_join_eq_self_iff {xs : List String} :
    list (join xs) = xs ↔ ∀ e ∈ xs, Entry jsSpace ',' e := by
  constructor
  · intro h e he
    rw [← h] at he
    exact entry_of_mem_list he
  · intro h
    have hsingle : ∀ e ∈ xs, list e = [e] := fun e he => fields_singleton (h e he)
    rw [list_join, List.flatMap_congr hsingle, List.flatMap_singleton']

theorem jsTrim_eq_self_iff {s : String} : jsTrim s = s ↔ Trimmed jsSpace s.toList := by
  rw [jsTrim, ← trimChars_eq_self_iff]
  constructor
  · intro h
    simpa using congrArg String.toList h
  · intro h
    rw [h, String.ofList_toList]

/-- The form changes nothing but the serial of a tenant that is intact, and of no
other. -/
theorem saved_eq_iff {t : Tenant} : saved t = { t with serial := t.serial + 1 } ↔ Intact t := by
  obtain ⟨id, name, domains, groups, idps, allowedIPs, dns, serial⟩ := t
  simp only [saved, submit, Tenant.mk.injEq, true_and, and_true, jsTrim_eq_self_iff,
    list_join_eq_self_iff]
  constructor
  · rintro ⟨hname, hdomains, hgroups, hidps, hips, hdns⟩
    exact ⟨hname, hdomains, hgroups, hidps, hips, hdns⟩
  · intro h
    exact ⟨h.name, h.domains, h.groups, h.idps, h.allowedIPs, h.dns⟩

theorem intact_saved (t : Tenant) : Intact (saved t) where
  name := by
    change Trimmed jsSpace (String.ofList (trimChars jsSpace t.name.toList)).toList
    rw [String.toList_ofList]
    exact trimmed_trimChars jsSpace t.name.toList
  domains := fun _ => entry_of_mem_list
  groups := fun _ => entry_of_mem_list
  idps := fun _ => entry_of_mem_list
  allowedIPs := fun _ => entry_of_mem_list
  dns := fun _ => entry_of_mem_list

theorem Intact.withSerial {t : Tenant} (h : Intact t) (serial : UInt64) :
    Intact { t with serial := serial } :=
  ⟨h.name, h.domains, h.groups, h.idps, h.allowedIPs, h.dns⟩

section Stores

variable {s : TenantStore} {id : String} {t : Tenant}

theorem save_eq (h : s.tenants.lookup id = some t) :
    save id s = ⟨s.tenants.insert id (saved t)⟩ := by
  simp only [save, h, update_submit h]

theorem lookup_save_of_ne {id' : String} (hne : id' ≠ id) :
    (save id s).tenants.lookup id' = s.tenants.lookup id' := by
  cases h : s.tenants.lookup id with
  | none => simp only [save, h]
  | some t =>
      rw [save_eq h]
      exact AList.lookup_insert_ne hne

/-- **The form settles.** Saving a tenant unchanged, once or any number of times,
leaves it with what the first save made of its name and lists, and no other tenant
changes. The first save changes neither name nor lists exactly if they are intact. -/
theorem form_settles (h : s.tenants.lookup id = some t) :
    (∀ n, ((save id)^[n + 1] s).tenants.lookup id =
        some { saved t with serial := t.serial + .ofNat (n + 1) }) ∧
      (∀ n id', id' ≠ id → ((save id)^[n] s).tenants.lookup id' = s.tenants.lookup id') ∧
      (saved t = { t with serial := t.serial + 1 } ↔ Intact t) := by
  refine ⟨fun n => ?_, fun n id' hne => ?_, saved_eq_iff⟩
  · induction n with
    | zero =>
        change (save id s).tenants.lookup id = _
        rw [save_eq h]
        exact AList.lookup_insert _
    | succ n ih =>
        rw [Function.iterate_succ_apply', save_eq ih,
          saved_eq_iff.mpr ((intact_saved t).withSerial _)]
        refine (AList.lookup_insert _).trans ?_
        simp only [Option.some.injEq, Tenant.mk.injEq, true_and]
        rw [UInt64.add_assoc, UInt64.ofNat_add (n + 1) 1]
        rfl
  · induction n with
    | zero => rfl
    | succ n ih => rw [Function.iterate_succ_apply', lookup_save_of_ne hne, ih]

end Stores

/-- A group with a comma is cut once. -/
theorem ldap_form_settles :
    let s := (save "lab")^[3] (Sample.holding Sample.ldap)
    (s.tenants.lookup "lab").map Tenant.groups = some ["cn=vpn", "dc=example"] := by
  intro s
  have hstored : (Sample.holding Sample.ldap).tenants.lookup "lab" = some Sample.ldap := by
    decide +kernel
  have hsettled : s.tenants.lookup "lab" =
      some { saved Sample.ldap with serial := Sample.ldap.serial + .ofNat 3 } :=
    (form_settles hstored).1 2
  rw [hsettled]
  decide +kernel

end Claimward.AdminUi
